import RTDB.Api.FreshIds
import RTDB.Api.UpsertPoints

/-!
# Points that an upsert acknowledges

What `retrieve_points` answers behind an upsert that was answered with success, for each id of the
request.
-/

namespace RTDB

open Storage

namespace Api
namespace Qdrant

variable {F P D : Type}

/-! ## What a request gives -/

/-- What a request gives for an id.  A batch may have more ids than vectors. -/
structure Entry (F : Type) where
  id : PointId
  vector : Option VectorInput
  payload : Option (Map F)

def VectorInput.Is : VectorInput → List UInt32 → Prop
  | .plain vector, data => vector = data
  | .named vectors, data =>
    ∀ name vector, vectors.lookup name = some vector ↔ name = "default" ∧ vector = data

namespace Entry

def Gives (entry : Entry F) (v : Vector (Map F)) : Prop :=
  (∃ input, entry.vector = some input ∧ input.Is v.data) ∧ v.payload = entry.payload

/-- What is stored of an entry: nothing without a vector or for an id that is not a number. -/
def stored (entry : Entry F) : Option (Nat × Vector (Map F)) :=
  entry.vector.bind fun input =>
    entry.id.asU64.map fun idNum => (idNum, { data := input.stored, payload := entry.payload })

end Entry

def PointsBatch.entries (batch : PointsBatch F) : List (Entry F) :=
  batch.ids.zipIdx.map fun id =>
    { id := id.1, vector := batch.vectors[id.2]?.map .plain, payload := batch.payload id.2 }

namespace UpsertPointsRequest

def entries (request : UpsertPointsRequest F) : List (Entry F) :=
  match request.batch with
  | some batch => batch.entries
  | none =>
    request.points.map fun p => { id := p.id, vector := some p.vector, payload := p.payload }

def lastEntry (request : UpsertPointsRequest F) (id : PointId) : Option (Entry F) :=
  lastWhere (fun entry => entry.id == id) request.entries

/-- Every id is a number, the last entry of each gives a vector and no named one but `default`, and
those of the ids of one number give the same. -/
structure Storable (request : UpsertPointsRequest F) : Prop where
  numeric : ∀ entry ∈ request.entries, ∃ idNum, entry.id.asU64 = some idNum
  given : ∀ entry ∈ request.entries, ∀ last, request.lastEntry entry.id = some last →
    ∃ v, last.Gives v
  agree : ∀ entry ∈ request.entries, ∀ other ∈ request.entries,
    entry.id.asU64 = other.id.asU64 → ∀ last last' v, request.lastEntry entry.id = some last →
      request.lastEntry other.id = some last' → last.Gives v → last'.Gives v

end UpsertPointsRequest

theorem VectorInput.Is.stored_eq {input : VectorInput} {data : List UInt32} (his : input.Is data) :
    input.stored = data := by
  cases input with
  | plain vector => exact his
  | named vectors =>
    rw [VectorInput.stored, (his "default" data).mpr ⟨rfl, rfl⟩, Option.getD_some]

theorem Entry.Gives.unique {entry : Entry F} {v v' : Vector (Map F)} (hgives : entry.Gives v)
    (hgives' : entry.Gives v') : v = v' := by
  obtain ⟨⟨input, hinput, his⟩, hpayload⟩ := hgives
  obtain ⟨⟨input', hinput', his'⟩, hpayload'⟩ := hgives'
  obtain rfl := Option.some.inj (hinput.symm.trans hinput')
  obtain ⟨data, payload⟩ := v
  obtain ⟨data', payload'⟩ := v'
  obtain rfl : data = data' := his.stored_eq.symm.trans his'.stored_eq
  obtain rfl : payload = payload' := hpayload.trans hpayload'.symm
  rfl

theorem Entry.Gives.stored_eq {entry : Entry F} {v : Vector (Map F)} {idNum : Nat}
    (hgives : entry.Gives v) (hid : entry.id.asU64 = some idNum) :
    entry.stored = some (idNum, v) := by
  obtain ⟨⟨input, hinput, his⟩, hpayload⟩ := hgives
  obtain ⟨data, payload⟩ := v
  rw [Entry.stored, hinput, Option.bind_some, hid, Option.map_some, his.stored_eq, ← hpayload]

theorem Entry.asU64_of_stored {entry : Entry F} {found : Nat × Vector (Map F)}
    (hstored : entry.stored = some found) : entry.id.asU64 = some found.1 := by
  obtain ⟨input, -, hmap⟩ := Option.bind_eq_some_iff.mp hstored
  obtain ⟨idNum, hid, rfl⟩ := Option.map_eq_some_iff.mp hmap
  exact hid

theorem filterMap_zip_zipIdx {α β γ : Type} (f : α → Option β → Nat → Option γ)
    (hnone : ∀ a i, f a none i = none) (as : List α) (bs : List β) (k : Nat) :
    ((as.zip bs).zipIdx k).filterMap (fun e => f e.1.1 (some e.1.2) e.2) =
      (as.zipIdx k).filterMap fun e => f e.1 bs[e.2 - k]? e.2 := by
  induction as generalizing bs k with
  | nil => rfl
  | cons a as ih =>
    cases bs with
    | nil => simp [hnone]
    | cons b bs =>
      have hrest : (as.zipIdx (k + 1)).filterMap (fun e => f e.1 (b :: bs)[e.2 - k]? e.2) =
          (as.zipIdx (k + 1)).filterMap fun e => f e.1 bs[e.2 - (k + 1)]? e.2 := by
        refine List.filterMap_congr fun e hmem => ?_
        have hle := List.le_snd_of_mem_zipIdx hmem
        have hindex : e.2 - k = e.2 - (k + 1) + 1 := by omega
        rw [hindex, List.getElem?_cons_succ]
      rw [List.zip_cons_cons, List.zipIdx_cons, List.zipIdx_cons, List.filterMap_cons,
        List.filterMap_cons, ih, hrest, Nat.sub_self, List.getElem?_cons_zero]

theorem vectors_eq (request : UpsertPointsRequest F) :
    request.vectors = request.entries.filterMap Entry.stored := by
  rw [UpsertPointsRequest.vectors, UpsertPointsRequest.triples, UpsertPointsRequest.entries]
  cases request.batch with
  | some batch =>
    have hall := filterMap_zip_zipIdx
      (fun (id : PointId) (vector : Option (List UInt32)) i => vector.bind fun vector =>
        id.asU64.map fun idNum =>
          (idNum, ({ data := vector, payload := batch.payload i } : Vector (Map F))))
      (fun _ _ => rfl) batch.ids batch.vectors 0
    show ((batch.ids.zip batch.vectors).zipIdx.map _).filterMap _ =
      (batch.ids.zipIdx.map _).filterMap _
    rw [List.filterMap_map, List.filterMap_map]
    refine hall.trans (List.filterMap_congr fun e _ => ?_)
    show _ = (Option.map VectorInput.plain _).bind _
    rw [Nat.sub_zero, Option.bind_map]
    rfl
  | none =>
    show (request.points.map _).filterMap _ = (request.points.map _).filterMap _
    rw [List.filterMap_map, List.filterMap_map]
    rfl

/-- The last vector that is stored under a number is what the last entry of its id gives. -/
theorem latest_vectors {request : UpsertPointsRequest F} (hstorable : request.Storable)
    {entry last : Entry F} (hmem : entry ∈ request.entries) {idNum : Nat}
    (hid : entry.id.asU64 = some idNum) (hlast : request.lastEntry entry.id = some last) :
    ∃ v, last.Gives v ∧ lastWhere (fun v => v.1 == idNum) request.vectors = some (idNum, v) := by
  -- the last entry of an id is stored, and has the id
  have hstored : ∀ other ∈ request.entries, ∀ found v,
      request.lastEntry other.id = some found → found.Gives v → other.id.asU64 = some idNum →
        found.stored = some (idNum, v) := by
    intro other _ found v hfound hgives hnum
    have hsame := meets_of_lastWhere hfound
    refine hgives.stored_eq ?_
    rw [beq_iff_eq.mp hsame]
    exact hnum
  have hlisted : last ∈ request.entries := mem_of_lastWhere hlast
  obtain ⟨v, hgives⟩ := hstorable.given entry hmem last hlast
  have hlaststored := hstored entry hmem last v hlast hgives hid
  obtain ⟨kept, hkept⟩ := exists_lastWhere (p := fun e : Entry F => e.stored.any (·.1 == idNum))
    hlisted (by rw [hlaststored, Option.any_some]; exact beq_self_eq_true idNum)
  -- the last entry that is stored under the number is the last one of its own id
  have hkeptmem : kept ∈ request.entries := mem_of_lastWhere hkept
  have hkeptid : kept.id.asU64 = some idNum := by
    have hany := meets_of_lastWhere hkept
    cases hfound : kept.stored with
    | none =>
      rw [hfound] at hany
      exact absurd hany (by simp)
    | some found =>
      rw [hfound, Option.any_some] at hany
      rw [← beq_iff_eq.mp hany]
      exact Entry.asU64_of_stored hfound
  obtain ⟨final, hfinal⟩ := exists_lastWhere (p := fun e : Entry F => e.id == kept.id) hkeptmem
    (beq_self_eq_true kept.id)
  obtain ⟨v', hgives'⟩ := hstorable.given kept hkeptmem final hfinal
  have hfinalstored := hstored kept hkeptmem final v' hfinal hgives' hkeptid
  have hsame : kept = final := by
    refine lastWhere_unique hkept hfinal (beq_self_eq_true kept.id) ?_
    rw [hfinalstored, Option.any_some]
    exact beq_self_eq_true idNum
  -- and gives what the last entry of the first id gives
  have hagrees := hstorable.agree entry hmem kept hkeptmem (hid.trans hkeptid.symm) last final v
    hlast hfinal hgives
  refine ⟨v, hgives, ?_⟩
  rw [vectors_eq, lastWhere_filterMap, hkept, Option.bind_some, hsame, hfinalstored,
    hgives'.unique hagrees]

/-! ## What is answered behind an upsert -/

/-- `retrieve_points` on the id answers one point, with the vector and the payload. -/
def Shows (codec : Codec (Map F)) (collections : Collections F D) (name : String) (id : PointId)
    (v : Vector (Map F)) : Prop :=
  retrievePoints codec collections name
      { ids := [id], withVector := some true, withPayload := true } =
    .ok [{ id, vector := v.data, payload := v.payload }]

/-- For each id of the request, a point with what was given last is answered. -/
def Acknowledged (codec : Codec (Map F)) (collections : Collections F D) (name : String)
    (request : UpsertPointsRequest F) : Prop :=
  ∀ entry ∈ request.entries, ∃ last v,
    request.lastEntry entry.id = some last ∧ last.Gives v ∧ Shows codec collections name entry.id v

/-- Each point is answered with the vector that its id was given last. -/
def AllStored (codec : Codec (Map F)) (collections : Collections F D) (name : String)
    (points : List GrpcPoint) : Prop :=
  ∀ p ∈ points, ∃ last v, lastWhere (fun other => other.id == p.id) points = some last ∧
    v.data = last.vector ∧ Shows codec collections name (.integer p.id.toNat) v

section Answers

variable {codec : Codec (Map F)} {collections : Collections F D} {name : String}
  {c : Collection (Map F) D}

theorem shows_iff (hc : collections name = some c) (id : PointId) (v : Vector (Map F)) :
    Shows codec collections name id v ↔
      ∃ idNum, id.asU64 = some idNum ∧ c.found codec idNum = some v := by
  rw [Shows, retrievePoints, hc]
  show Except.ok _ = _ ↔ _
  rw [List.flatMap_singleton, retrievePoint, Except.ok.injEq]
  cases id.asU64 with
  | none => simp
  | some idNum =>
    have hget : (∃ n, some idNum = some n ∧ c.found codec n = some v) ↔
        c.found codec idNum = some v := by
      constructor
      · rintro ⟨n, hn, hfound⟩
        rw [Option.some.inj hn]
        exact hfound
      · intro hfound
        exact ⟨idNum, rfl, hfound⟩
    rw [hget, Collection.found]
    dsimp only
    rw [Collection.get]
    rcases c.storage.get codec idNum with e | (_ | vector)
    · simp [okSome]
    · simp [okSome]
    · obtain ⟨data, payload⟩ := vector
      obtain ⟨data', payload'⟩ := v
      simp [okSome]

/-- Whatever storage does, nothing else can be acknowledged. -/
theorem storable_of_acknowledged (hc : collections name = some c) {request : UpsertPointsRequest F}
    (hack : Acknowledged codec collections name request) : request.Storable where
  numeric entry hmem := by
    obtain ⟨last, v, -, -, hshows⟩ := hack entry hmem
    obtain ⟨idNum, hid, -⟩ := (shows_iff hc entry.id v).mp hshows
    exact ⟨idNum, hid⟩
  given entry hmem last hlast := by
    obtain ⟨last', v, hlast', hgives, -⟩ := hack entry hmem
    obtain rfl := Option.some.inj (hlast.symm.trans hlast')
    exact ⟨v, hgives⟩
  agree entry hmem other hother hsame last last' v hlast hlast' hgives := by
    obtain ⟨found, w, hfound, hgives', hshows⟩ := hack entry hmem
    obtain ⟨found', w', hfound', hgives'', hshows'⟩ := hack other hother
    obtain rfl := Option.some.inj (hlast.symm.trans hfound)
    obtain rfl := Option.some.inj (hlast'.symm.trans hfound')
    obtain ⟨idNum, hid, hw⟩ := (shows_iff hc entry.id w).mp hshows
    obtain ⟨idNum', hid', hw'⟩ := (shows_iff hc other.id w').mp hshows'
    obtain rfl := Option.some.inj (hid.symm.trans (hsame.trans hid'))
    obtain rfl := Option.some.inj (hw.symm.trans hw')
    rw [hgives.unique hgives']
    exact hgives''

/-- What was stored last under each number is found. -/
theorem acknowledged_of_storable (hc : collections name = some c) {request : UpsertPointsRequest F}
    (hfound : ∀ idNum found, lastWhere (fun v => v.1 == idNum) request.vectors = some found →
      c.found codec idNum = some found.2)
    (hstorable : request.Storable) : Acknowledged codec collections name request := by
  intro entry hmem
  obtain ⟨idNum, hid⟩ := hstorable.numeric entry hmem
  obtain ⟨last, hlast⟩ := exists_lastWhere (p := fun e : Entry F => e.id == entry.id) hmem
    (beq_self_eq_true entry.id)
  obtain ⟨v, hgives, hlatest⟩ := latest_vectors hstorable hmem hid hlast
  exact ⟨last, v, hlast, hgives, (shows_iff hc entry.id v).mpr ⟨idNum, hid, hfound idNum _ hlatest⟩⟩

end Answers

/-- The last item of a number carries the last vector of it. -/
theorem latest_upsertItems (draws : Draws) (vectors : List (Nat × Vector P)) (idNum : Nat) :
    (lastWhere (fun item => item.id == idNum) (upsertItems draws vectors)).map UpsertItem.vector =
      (lastWhere (fun v => v.1 == idNum) vectors).map Prod.snd := by
  have hpairs : (upsertItems draws vectors).map (fun item => (item.id, item.vector)) = vectors := by
    rw [upsertItems, List.map_map]
    exact List.zipIdx_map_fst 0 vectors
  have hlatest := lastWhere_map (fun v : Nat × Vector P => v.1 == idNum)
    (fun item : UpsertItem P => (item.id, item.vector)) (upsertItems draws vectors)
  rw [hpairs] at hlatest
  rw [hlatest, Option.map_map]
  rfl

section Upserts

variable [LinearOrder D] (codec : Codec (Map F)) (crc32c : List UInt8 → UInt32)

def KeepsItems (c : Collection (Map F) D) (items : List (UpsertItem (Map F))) : Prop :=
  ∀ r ∈ rounds (Collection.upsertItem codec crc32c) c items, r.1.PutKeeps codec r.2

/-- The points that the collection takes, up to the first one that it does not, lie over what was
stored before as their ids were given last. -/
def Covers (c : Collection (Map F) D) (points : List GrpcPoint) (draws : Draws) : Prop :=
  ∀ p ∈ points, ∃ last v, lastWhere (fun other => other.id == p.id) points = some last ∧
    v.data = last.vector ∧
    (c.taken codec crc32c (upsertItems draws (grpcVectors points))).foldl Collection.overlay
      (c.found codec) p.id.toNat = some v

variable {codec crc32c} {collections : Collections F D} {name : String}
  {c : Collection (Map F) D}

theorem upsertPoints_ok {isAlphanumeric : Char → Bool} {floats : Floats F} {widen : UInt32 → F}
    {request : UpsertPointsRequest F} {draws : Draws} {info : OperationInfo}
    (hok :
      (upsertPoints codec crc32c isAlphanumeric floats widen collections name request draws).2 =
        .ok info) :
    ∃ c, collections name = some c ∧
      (c.upsert codec crc32c (upsertItems draws request.vectors)).2 = .ok info ∧
      (upsertPoints codec crc32c isAlphanumeric floats widen collections name request draws).1 =
        Function.update collections name
          (some (c.upsert codec crc32c (upsertItems draws request.vectors)).1) := by
  rw [upsertPoints] at hok ⊢
  cases hc : collections name with
  | none =>
    rw [hc] at hok
    exact absurd hok (by simp)
  | some c =>
    rw [hc] at hok
    dsimp only at hok ⊢
    cases hvalid : validateUpsertRequest floats isAlphanumeric name
        (request.pointsData floats widen) (some c.config.dimension) with
    | error e =>
      rw [hvalid] at hok
      exact absurd hok (by simp)
    | ok _ =>
      rw [hvalid] at hok
      dsimp only at hok ⊢
      rcases hupsert : c.upsert codec crc32c (upsertItems draws request.vectors) with
        ⟨c', e | info'⟩
      · rw [hupsert] at hok
        exact absurd hok (by simp)
      · rw [hupsert] at hok
        obtain rfl : info' = info := Except.ok.inj hok
        exact ⟨c, rfl, by rw [hupsert], by rw [hupsert]⟩

theorem found_upsertItems {draws : Draws} {vectors : List (Nat × Vector (Map F))}
    {info : OperationInfo} (hkeeps : KeepsItems codec crc32c c (upsertItems draws vectors))
    (hok : (c.upsert codec crc32c (upsertItems draws vectors)).2 = .ok info) (idNum : Nat)
    (found : Nat × Vector (Map F)) (hlatest : lastWhere (fun v => v.1 == idNum) vectors = some found) :
    (c.upsert codec crc32c (upsertItems draws vectors)).1.found codec idNum = some found.2 := by
  rw [Collection.found_upsert_ok codec crc32c hkeeps hok, Collection.foldl_overlay,
    latest_upsertItems, hlatest, Option.map_some, Option.some_or]

variable (codec crc32c) in
/-- Behind a REST upsert that is answered with success, every id of the request is answered with
what it was given last, only if the request is storable, and if storage keeps what it takes exactly
then.  Behind a gRPC upsert that is answered with `ok`, whose outcome is not looked at, every point
is stored if and only if the points that were taken cover the request. -/
theorem upserts_acknowledged_iff (isAlphanumeric : Char → Bool) (floats : Floats F)
    (widen : UInt32 → F) (collections : Collections F D) (name : String) (draws : Draws) :
    (∀ (request : UpsertPointsRequest F) (info : OperationInfo),
      (upsertPoints codec crc32c isAlphanumeric floats widen collections name request draws).2 =
          .ok info →
      ∃ c, collections name = some c ∧
        (Acknowledged codec
            (upsertPoints codec crc32c isAlphanumeric floats widen collections name request draws).1
            name request →
          request.Storable) ∧
        (KeepsItems codec crc32c c (upsertItems draws request.vectors) → request.Storable →
          Acknowledged codec
            (upsertPoints codec crc32c isAlphanumeric floats widen collections name request draws).1
            name request)) ∧
    ∀ points : List GrpcPoint,
      (grpcUpsert codec crc32c collections name points draws).2 =
          { operationId := 1, status := "ok" } →
      ∃ c, collections name = some c ∧
        (KeepsItems codec crc32c c (upsertItems draws (grpcVectors points)) →
          (AllStored codec (grpcUpsert codec crc32c collections name points draws).1 name points ↔
            Covers codec crc32c c points draws)) := by
  refine ⟨fun request info hok => ?_, fun points hanswer => ?_⟩
  · obtain ⟨c, hc, hupsert, hafter⟩ := upsertPoints_ok hok
    rw [hafter]
    have hself := Function.update_self name
      (some (c.upsert codec crc32c (upsertItems draws request.vectors)).1) collections
    refine ⟨c, hc, fun hack => storable_of_acknowledged hself hack, fun hkeeps hstorable => ?_⟩
    exact acknowledged_of_storable hself (found_upsertItems hkeeps hupsert) hstorable
  · rw [grpcUpsert] at hanswer ⊢
    cases hc : collections name with
    | none =>
      rw [hc] at hanswer
      exact absurd (congrArg PointsOperation.operationId hanswer) (by simp)
    | some c =>
      refine ⟨c, rfl, fun hkeeps => ?_⟩
      have hself := Function.update_self name
        (some (c.upsert codec crc32c (upsertItems draws (grpcVectors points))).1) collections
      have hfound : (c.upsert codec crc32c (upsertItems draws (grpcVectors points))).1.found codec =
          (c.taken codec crc32c (upsertItems draws (grpcVectors points))).foldl Collection.overlay
            (c.found codec) := by
        rw [Collection.upsert, Collection.found_complete]
        exact Collection.found_loop codec crc32c hkeeps
      refine forall₂_congr fun p _ => exists₂_congr fun last v => and_congr_right fun _ =>
        and_congr_right fun _ => ?_
      rw [shows_iff hself, hfound]
      constructor
      · rintro ⟨idNum, hid, hv⟩
        rwa [← Option.some.inj hid] at hv
      · exact fun hv => ⟨_, rfl, hv⟩

theorem covers_of_ok {points : List GrpcPoint} {draws : Draws} {info : OperationInfo}
    (hok : (c.upsert codec crc32c (upsertItems draws (grpcVectors points))).2 = .ok info) :
    Covers codec crc32c c points draws := by
  intro p hmem
  obtain ⟨last, hlast⟩ := exists_lastWhere (p := fun other : GrpcPoint => other.id == p.id) hmem
    (beq_self_eq_true p.id)
  refine ⟨last, { data := last.vector, payload := none }, hlast, rfl, ?_⟩
  have hsame : (fun other : GrpcPoint => other.id.toNat == p.id.toNat) =
      fun other => other.id == p.id := by
    funext other
    rw [Bool.eq_iff_iff, beq_iff_eq, beq_iff_eq]
    exact UInt64.toNat_inj
  rw [Collection.taken_of_ok codec crc32c (Collection.loop_of_upsert_ok codec crc32c hok),
    Collection.foldl_overlay, latest_upsertItems, grpcVectors, lastWhere_map, hsame, hlast]
  rfl

end Upserts

/-! ## Two points, and points that are lost -/

open Collection

def sampleWiden (f : UInt32) : Nat := if f = 0x3F800000 then 1 else 2

def sampleUpsert (request : UpsertPointsRequest Nat) :
    Collections Nat Nat × Except String OperationInfo :=
  upsertPoints sampleCodec (fun _ => 0) (fun _ => true) sampleFloats sampleWiden sampleCollections
    "vectors" request sampleDraws

/-- Entries with numbers for ids and with plain vectors can be stored. -/
theorem storable_of_plain {F : Type} {request : UpsertPointsRequest F}
    (hplain : ∀ entry ∈ request.entries,
      ∃ n data, entry.id = .integer n ∧ entry.vector = some (.plain data)) : request.Storable where
  numeric entry hmem := by
    obtain ⟨n, -, hid, -⟩ := hplain entry hmem
    exact ⟨n, by rw [hid]; rfl⟩
  given entry _ last hlast := by
    obtain ⟨-, data, -, hvector⟩ := hplain last (mem_of_lastWhere hlast)
    exact ⟨{ data, payload := last.payload }, ⟨_, hvector, rfl⟩, rfl⟩
  agree entry hmem other hother hsame last last' v hlast hlast' hgives := by
    obtain ⟨n, -, hid, -⟩ := hplain entry hmem
    obtain ⟨n', -, hid', -⟩ := hplain other hother
    rw [hid, hid'] at hsame
    obtain rfl : n = n' := Option.some.inj hsame
    rw [hid] at hlast
    rw [hid'] at hlast'
    rwa [← Option.some.inj (hlast.symm.trans hlast')]

def twoPoints : UpsertPointsRequest Nat where
  points :=
    [{ id := .integer 1, vector := .plain [0x3F800000], payload := none },
      { id := .integer 2, vector := .plain [0x40000000], payload := none }]
  batch := none

theorem twoPoints_storable : twoPoints.Storable := by
  refine storable_of_plain fun entry hmem => ?_
  rcases List.mem_cons.mp hmem with rfl | hmem
  · exact ⟨1, _, rfl, rfl⟩
  · rw [List.mem_singleton.mp hmem]
    exact ⟨2, _, rfl, rfl⟩

def twoGrpcPoints : List GrpcPoint := [⟨1, [0x3F800000]⟩, ⟨2, [0x40000000]⟩]

theorem keepsItems_twoPoints :
    KeepsItems sampleCodec (fun _ => 0) (create sampleCollectionConfig)
      (upsertItems sampleDraws
        [(1, { data := [0x3F800000], payload := none }),
          (2, { data := [0x40000000], payload := none })]) := by
  have hrounds : (rounds (upsertItem sampleCodec fun _ => 0)
      (create sampleCollectionConfig : Collection (Map Nat) Nat)
      (upsertItems sampleDraws
        [(1, { data := [0x3F800000], payload := none }),
          (2, { data := [0x40000000], payload := none })])).all (fun r =>
        TakenInMemory sampleCodec r.1.storage (.put r.2.id r.2.vector r.2.timestamp)) = true := by
    decide +kernel
  exact fun r hr _ => writeKeeps_of_takenInMemory (List.all_eq_true.mp hrounds r hr)

theorem exists_ok_of_isOk {α ε : Type} {outcome : Except ε α} (hok : outcome.isOk = true) :
    ∃ a, outcome = .ok a := by
  cases outcome with
  | error e => exact absurd hok (by simp [Except.isOk, Except.toBool])
  | ok a => exact ⟨a, rfl⟩

theorem upserts_acknowledged_twoPoints :
    Acknowledged sampleCodec (sampleUpsert twoPoints).1 "vectors" twoPoints ∧
      AllStored sampleCodec
        (grpcUpsert sampleCodec (fun _ => 0) sampleCollections "vectors" twoGrpcPoints
          sampleDraws).1
        "vectors" twoGrpcPoints := by
  obtain ⟨hrest, hgrpc⟩ := upserts_acknowledged_iff sampleCodec (fun _ => 0) (fun _ => true)
    sampleFloats sampleWiden sampleCollections "vectors" sampleDraws
  have hanswered : (sampleUpsert twoPoints).2.isOk = true := by decide +kernel
  have hupserted : ((create sampleCollectionConfig).upsert sampleCodec (fun _ => 0)
      (upsertItems sampleDraws (grpcVectors twoGrpcPoints))).2.isOk = true := by
    decide +kernel
  obtain ⟨info, hok⟩ := exists_ok_of_isOk hanswered
  obtain ⟨info', hok'⟩ := exists_ok_of_isOk hupserted
  obtain ⟨c, hc, -, hack⟩ := hrest twoPoints info hok
  obtain ⟨c', hc', hstored⟩ := hgrpc twoGrpcPoints rfl
  obtain rfl : create sampleCollectionConfig = c := Option.some.inj hc
  obtain rfl : create sampleCollectionConfig = c' := Option.some.inj hc'
  exact ⟨hack keepsItems_twoPoints twoPoints_storable,
    (hstored keepsItems_twoPoints).mpr (covers_of_ok hok')⟩

def shortBatch : UpsertPointsRequest Nat where
  points := []
  batch := some
    { ids := [.integer 1, .integer 2], vectors := [[0x3F800000]], payloads := none }

def namedPoint : UpsertPointsRequest Nat where
  points := [{ id := .string "a", vector := .plain [0x3F800000], payload := none }]
  batch := none

/-- The id 2 of a batch gets no vector, and the id `a` is no number; both requests are answered with
success.  A gRPC point of another dimension is turned away and answered with `ok`. -/
theorem not_upserts_acknowledged_lost :
    ((sampleUpsert shortBatch).2.isOk = true ∧
        ¬Acknowledged sampleCodec (sampleUpsert shortBatch).1 "vectors" shortBatch) ∧
      ((sampleUpsert namedPoint).2.isOk = true ∧
        ¬Acknowledged sampleCodec (sampleUpsert namedPoint).1 "vectors" namedPoint) ∧
      (grpcUpsert sampleCodec (fun _ => 0) sampleCollections "vectors" [⟨1, []⟩] sampleDraws).2 =
          { operationId := 1, status := "ok" } ∧
        ¬AllStored sampleCodec
          (grpcUpsert sampleCodec (fun _ => 0) sampleCollections "vectors" [⟨1, []⟩] sampleDraws).1
          "vectors" [⟨1, []⟩] := by
  refine ⟨⟨by decide +kernel, fun hack => ?_⟩, ⟨by decide +kernel, fun hack => ?_⟩, rfl,
    fun hstored => ?_⟩
  · obtain ⟨last, v, hlast, ⟨⟨input, hinput, -⟩, -⟩, -⟩ :=
      hack { id := .integer 2, vector := none, payload := none }
        (List.mem_cons_of_mem _ List.mem_cons_self)
    obtain rfl := Option.some.inj hlast
    exact absurd hinput (by simp)
  · have hanswered : (sampleUpsert namedPoint).2.isOk = true := by decide +kernel
    obtain ⟨info, hok⟩ := exists_ok_of_isOk hanswered
    obtain ⟨c, -, -, hafter⟩ := upsertPoints_ok hok
    have hself : (sampleUpsert namedPoint).1 "vectors" = some _ :=
      (congrFun hafter "vectors").trans (Function.update_self _ _ _)
    obtain ⟨idNum, hid⟩ := (storable_of_acknowledged hself hack).numeric
      { id := .string "a", vector := some (.plain [0x3F800000]), payload := none }
      List.mem_cons_self
    have hnone : (PointId.string "a").asU64 = none := by decide
    exact absurd (hnone.symm.trans hid) (by simp)
  · obtain ⟨last, v, -, -, hshows⟩ := hstored ⟨1, []⟩ List.mem_cons_self
    obtain ⟨idNum, hid, hfound⟩ := (shows_iff (Function.update_self _ _ _) _ _).mp hshows
    obtain rfl : 1 = idNum := Option.some.inj hid
    have hnone : (((create sampleCollectionConfig).upsert sampleCodec (fun _ => 0)
        (upsertItems sampleDraws (grpcVectors [⟨1, []⟩]))).1.found sampleCodec 1).isSome =
          false := by
      decide +kernel
    rw [hfound] at hnone
    exact absurd hnone (by simp)

end Qdrant
end Api
end RTDB
