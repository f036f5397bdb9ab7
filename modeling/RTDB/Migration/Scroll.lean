import RTDB.Migration.Extraction

/-!
# Extraction from Qdrant

`QdrantSourceClient` of `migration/clients.rs`.  Its cursor is a string, and is cleared both at the
end of the points and where the next id is a number; the offset that the producer counts is ignored.
-/

namespace RTDB
namespace Migration

open Producer

variable {F : Type}

inductive PointId where
  | num (n : Nat)
  | uuid (s : String)
  deriving DecidableEq, Repr

namespace PointId

def asStr : PointId → Option String
  | .uuid s => some s
  | .num _ => none

def asU64 : PointId → Option Nat
  | .num n => some n
  | .uuid _ => none

end PointId

/-- The fields of a point in the answer, where they are there and of their types. -/
structure Point (F : Type) where
  id : Option PointId
  vector : Option (List (Value F))
  payload : Option (Payload F)

structure ScrollRequest where
  limit : Nat
  offset : Option String
  deriving DecidableEq, Repr

structure ScrollResponse (F : Type) where
  points : Option (List (Point F))
  nextPageOffset : Option PointId

namespace QdrantSourceClient

def recordOfPoint (formats : Formats F) (point : Point F) : Except Error (VectorRecord F) :=
  match point.id.bind fun id => id.asStr.or (id.asU64.map toString) with
  | none => .error (.serialization "Missing point ID")
  | some id =>
    match point.vector with
    | none => .error (.serialization "Missing vector data")
    | some vector =>
      .ok
        { id
          vector := vector.map (component formats)
          metadata := (point.payload.getD []).foldl
            (fun metadata field => metadata.insert field.1 field.2) SortedMap.empty }

/-- The client's state is `current_offset`. -/
def fetchBatch (formats : Formats F) (endpoint : ScrollRequest → Except Error (ScrollResponse F))
    (currentOffset : Option String) (limit : Nat) :
    Except Error (List (VectorRecord F)) × Option String :=
  match endpoint { limit, offset := currentOffset } with
  | .error e => (.error e, currentOffset)
  | .ok response =>
    match response.points with
    | none => (.error (.serialization "Invalid response format"), currentOffset)
    | some points =>
      match points.mapM (recordOfPoint formats) with
      | .error e => (.error e, currentOffset)
      | .ok records => (.ok records, response.nextPageOffset.bind PointId.asStr)

def source (formats : Formats F) (endpoint : ScrollRequest → Except Error (ScrollResponse F)) :
    SourceClient (Option String) F where
  fetchBatch := fun currentOffset _ limit => fetchBatch formats endpoint currentOffset limit

end QdrantSourceClient

/-! ## The scroll endpoint -/

structure StoredPoint (F : Type) where
  id : PointId
  vector : List (Value F)
  payload : Payload F

structure QdrantCollection (F : Type) where
  points : List (StoredPoint F)
  distinct : (points.map StoredPoint.id).Nodup

namespace QdrantCollection

/-- The points from the given one on, or all of them. -/
def pointsFrom (collection : QdrantCollection F) : Option String → List (StoredPoint F)
  | none => collection.points
  | some s => collection.points.dropWhile fun point => point.id ≠ .uuid s

/-- Up to `limit` points, and the id of the next one. -/
def scroll (collection : QdrantCollection F) (request : ScrollRequest) :
    Except Error (ScrollResponse F) :=
  let rest := collection.pointsFrom request.offset
  .ok
    { points := some ((rest.take request.limit).map fun point =>
        { id := some point.id, vector := some point.vector, payload := some point.payload })
      nextPageOffset := (rest.drop request.limit).head?.map StoredPoint.id }

def source (formats : Formats F) (collection : QdrantCollection F) :
    SourceClient (Option String) F :=
  QdrantSourceClient.source formats collection.scroll

def recordOf (formats : Formats F) (point : StoredPoint F) : VectorRecord F where
  id := match point.id with
    | .uuid s => s
    | .num n => toString n
  vector := point.vector.map (component formats)
  metadata := point.payload.foldl (fun metadata field => metadata.insert field.1 field.2)
    SortedMap.empty

def records (formats : Formats F) (collection : QdrantCollection F) : List (VectorRecord F) :=
  collection.points.map (recordOf formats)

/-- The client asks for points that are there. -/
def Known (collection : QdrantCollection F) (currentOffset : Option String) : Prop :=
  ∀ s, currentOffset = some s → PointId.uuid s ∈ collection.points.map StoredPoint.id

variable {formats : Formats F} {collection : QdrantCollection F} {currentOffset : Option String}

theorem recordOfPoint_eq (point : StoredPoint F) :
    QdrantSourceClient.recordOfPoint formats
      { id := some point.id, vector := some point.vector, payload := some point.payload } =
      .ok (recordOf formats point) := by
  rcases point with ⟨id, vector, payload⟩
  cases id with
  | num n => rfl
  | uuid s => rfl

theorem fetchBatch_eq (limit : Nat) :
    QdrantSourceClient.fetchBatch formats collection.scroll currentOffset limit =
      (.ok (((collection.pointsFrom currentOffset).take limit).map (recordOf formats)),
        ((collection.pointsFrom currentOffset).drop limit).head?.bind fun point => point.id.asStr) := by
  have hrecords : ∀ points : List (StoredPoint F),
      (points.map fun point =>
        ({ id := some point.id, vector := some point.vector, payload := some point.payload } :
          Point F)).mapM (QdrantSourceClient.recordOfPoint formats) =
        .ok (points.map (recordOf formats)) := by
    intro points
    induction points with
    | nil => rfl
    | cons point points ih =>
      rw [List.map_cons, List.mapM_cons, recordOfPoint_eq, ih]
      rfl
  simp only [QdrantSourceClient.fetchBatch, scroll, hrecords, Option.bind_map, Function.comp_def]

theorem pointsFrom_ne_nil (hne : collection.points ≠ []) (hknown : collection.Known currentOffset) :
    collection.pointsFrom currentOffset ≠ [] := by
  cases currentOffset with
  | none => exact hne
  | some s =>
    obtain ⟨point, hmem, hid⟩ := List.mem_map.mp (hknown s rfl)
    intro hempty
    have hall := List.dropWhile_eq_nil_iff.mp hempty point hmem
    exact absurd hid (by simpa using hall)

/-- The cursor that a page leaves is cleared, or the id of a point. -/
theorem known_next (limit : Nat) :
    collection.Known
      (((collection.pointsFrom currentOffset).drop limit).head?.bind fun point => point.id.asStr) := by
  intro s hs
  obtain ⟨point, hhead, hid⟩ := Option.bind_eq_some_iff.mp hs
  have hmem : point ∈ collection.points := by
    have hrest := List.mem_of_mem_drop (List.mem_of_mem_head? hhead)
    cases currentOffset with
    | none => exact hrest
    | some t => exact (List.dropWhile_sublist _).subset hrest
  refine List.mem_map.mpr ⟨point, hmem, ?_⟩
  cases hpoint : point.id with
  | num n =>
    rw [hpoint] at hid
    exact absurd hid (by simp [PointId.asStr])
  | uuid t =>
    rw [hpoint] at hid
    exact congrArg PointId.uuid (Option.some.inj hid)

/-- While there are points, every fetch brings some. -/
theorem turn_goes {batchSize : Nat} (hpos : 1 ≤ batchSize) (hne : collection.points ≠ [])
    (p : Producer (Option String)) (hknown : collection.Known p.client) :
    ∃ batch next, p.turn (collection.source formats) batchSize = .batch batch next ∧
      collection.Known next.client := by
  have hpage : ((collection.pointsFrom p.client).take batchSize).map (recordOf formats) ≠ [] := by
    rw [Ne, List.map_eq_nil_iff, List.take_eq_nil_iff, not_or]
    exact ⟨by omega, pointsFrom_ne_nil hne hknown⟩
  exact ⟨_, _, turn_of_records (fetchBatch_eq batchSize) hpage, known_next batchSize⟩

theorem turn_of_no_points {batchSize : Nat} (hnone : collection.points = [])
    (p : Producer (Option String)) :
    p.turn (collection.source formats) batchSize = .stop (.ok ()) := by
  have hfrom : collection.pointsFrom p.client = [] := by
    cases p.client with
    | none => exact hnone
    | some s => rw [pointsFrom, hnone, List.dropWhile_nil]
  have hfetch : (collection.source formats).fetchBatch p.client p.offset batchSize = (.ok [], none) := by
    refine (fetchBatch_eq batchSize).trans ?_
    rw [hfrom, List.take_nil, List.map_nil, List.drop_nil]
    rfl
  exact turn_of_empty hfetch

/-- The producer comes to an end, having sent every point once. -/
def Exhausted (formats : Formats F) (collection : QdrantCollection F) (batchSize : Nat) : Prop :=
  ∃ batches result,
    Extracts (collection.source formats) batchSize (Producer.start batchSize none none) batches
      result ∧ sent batches = collection.records formats

/-- From the last page the cursor goes back to the first one. -/
theorem not_exhausted {batchSize : Nat} (hpos : 1 ≤ batchSize) (hne : collection.points ≠ []) :
    ¬ collection.Exhausted formats batchSize := by
  rintro ⟨batches, result, hextracts, -⟩
  refine not_extracts_of_goes (fun p hp => turn_goes hpos hne p hp) ?_ hextracts
  intro s hs
  exact absurd hs (by simp [Producer.start])

/-- The extraction ends, with all points, only for an empty collection. -/
theorem exhausted_iff (formats : Formats F) (collection : QdrantCollection F) {batchSize : Nat}
    (hpos : 1 ≤ batchSize) : collection.Exhausted formats batchSize ↔ collection.points = [] := by
  constructor
  · intro hends
    by_contra hne
    exact not_exhausted hpos hne hends
  · intro hnone
    refine ⟨[], .ok (), (extracts_of_stop (turn_of_no_points hnone _)).mpr ⟨rfl, rfl⟩, ?_⟩
    rw [records, hnone]
    rfl

end QdrantCollection

def noPoints : QdrantCollection Unit where
  points := []
  distinct := List.nodup_nil

theorem exhausted_noPoints : noPoints.Exhausted sampleFormats 1 :=
  (QdrantCollection.exhausted_iff sampleFormats noPoints (by decide)).mpr rfl

def onePoint (id : PointId) : QdrantCollection Unit where
  points := [{ id, vector := [], payload := [] }]
  distinct := List.nodup_singleton id

/-- One point is sent again and again, whatever its id. -/
theorem not_exhausted_onePoint :
    ¬ (onePoint (.uuid "a")).Exhausted sampleFormats 1 ∧
      ¬ (onePoint (.num 1)).Exhausted sampleFormats 1 :=
  ⟨QdrantCollection.not_exhausted (by decide) (by simp [onePoint]),
    QdrantCollection.not_exhausted (by decide) (by simp [onePoint])⟩

end Migration
end RTDB
