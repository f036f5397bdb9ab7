import RTDB.Collection.Filter
import RTDB.Index.Hnsw
import RTDB.Storage.Engine

/-!
# Collections

`collection/mod.rs`: a storage engine and an index, written one after the other.
A call that reads the clock or draws a level has that as an input.
-/

namespace RTDB

open Storage Index

variable {P D F : Type}

def Storage.StorageConfig.default : StorageConfig :=
  { walSegmentSize := 64 * 1024 * 1024, memtableSizeThreshold := 64 * 1024 * 1024
    blockSize := 4 * 1024 }

inductive OperationStatus where
  | completed
  | pending
  | failed (msg : String)
  deriving DecidableEq, Repr

structure OperationInfo where
  operationId : Nat
  status : OperationStatus
  deriving DecidableEq, Repr

/-- A vector of an upsert, with the clock reading of `put` and the level of `add`. -/
structure UpsertItem (P : Type) where
  id : VectorId
  vector : Vector P
  timestamp : Nat
  level : Nat

structure Collection (P D : Type) where
  config : CollectionConfig D
  storage : System P
  index : HNSWIndex P D
  nextId : Nat
  nextOperationId : Nat

structure RetrievedVector (P : Type) where
  id : VectorId
  vector : List UInt32
  payload : Option P

/-- `if let Ok(Some(vector))`. -/
def okSome (result : Except RTDBError (Option (Vector P))) : Option (Vector P) :=
  match result with
  | .ok (some vector) => some vector
  | _ => none

namespace Collection

/-- A collection created in an empty directory. -/
def create (config : CollectionConfig D) : Collection P D where
  config := config
  storage := System.create StorageConfig.default
  index := HNSWIndex.new (config.hnswConfig.getD HnswConfig.default) config.distance
  nextId := 1
  nextOperationId := 1

section Calls

variable [LinearOrder D] (codec : Codec P) (crc32c : List UInt8 → UInt32)

/-- A collection opened from its directory, where flushes of the process before
may still run. -/
def openAt (config : CollectionConfig D) (walDir : WalDir) (files : Files)
    (tasks : List (FlushTask P)) (level : VectorId → Nat) : Except Error (Collection P D) :=
  match StorageEngine.openAt codec crc32c StorageConfig.default walDir files with
  | .error e => .error (.storage e)
  | .ok engine =>
    let storage : System P := { engine, files, tasks }
    match storage.scan codec none none with
    | .error e => .error (.storage e)
    | .ok vectors =>
      let maxId := (vectors.map Prod.fst).foldl max 0
      .ok
        { config, storage
          index := vectors.foldl (fun index kv => index.add kv.1 kv.2 (level kv.1))
            (HNSWIndex.new (config.hnswConfig.getD HnswConfig.default) config.distance)
          nextId := wrappingAdd maxId 1, nextOperationId := 1 }

/-- One round of the loop of `upsert`. -/
def upsertItem (c : Collection P D) (item : UpsertItem P) : Collection P D × Except Error Unit :=
  if item.vector.data.length ≠ c.config.dimension then
    (c, .error (.invalidDimension c.config.dimension item.vector.data.length))
  else
    match c.storage.put codec crc32c item.id item.vector item.timestamp with
    | (storage, .error e) => ({ c with storage }, .error (.storage e))
    | (storage, .ok ()) =>
      ({ c with
          storage, index := c.index.add item.id item.vector item.level
          nextId := if item.id ≥ c.nextId then wrappingAdd item.id 1 else c.nextId }, .ok ())

/-- One round of the loop of `delete`, with the clock reading. -/
def deleteItem (c : Collection P D) (item : VectorId × Nat) : Collection P D × Except Error Unit :=
  match c.storage.delete codec crc32c item.1 item.2 with
  | (storage, .error e) => ({ c with storage }, .error (.storage e))
  | (storage, .ok ()) => ({ c with storage, index := c.index.remove item.1 }, .ok ())

end Calls

/-- A loop that an error leaves. -/
def loop {σ α : Type} (round : σ → α → σ × Except Error Unit) (s : σ) :
    List α → σ × Except Error Unit
  | [] => (s, .ok ())
  | item :: items =>
    match round s item with
    | (s, .error e) => (s, .error e)
    | (s, .ok ()) => loop round s items

/-- What a call returns after its loop. -/
def complete (outcome : Collection P D × Except Error Unit) :
    Collection P D × Except Error OperationInfo :=
  match outcome with
  | (c, .error e) => (c, .error e)
  | (c, .ok ()) =>
    ({ c with nextOperationId := wrappingAdd c.nextOperationId 1 },
      .ok { operationId := c.nextOperationId, status := .completed })

section Calls

variable [LinearOrder D] (codec : Codec P) (crc32c : List UInt8 → UInt32)

def upsert (c : Collection P D) (vectors : List (UpsertItem P)) :
    Collection P D × Except Error OperationInfo :=
  complete (loop (upsertItem codec crc32c) c vectors)

def delete (c : Collection P D) (ids : List (VectorId × Nat)) :
    Collection P D × Except Error OperationInfo :=
  complete (loop (deleteItem codec crc32c) c ids)

end Calls

def vectorCount (c : Collection P D) : Nat := c.storage.engine.vectorCount

def get (codec : Codec P) (c : Collection P D) (id : VectorId) :
    Except RTDBError (Option (RetrievedVector P)) :=
  match c.storage.get codec id with
  | .error e => .error e
  | .ok none => .ok none
  | .ok (some vector) => .ok (some { id, vector := vector.data, payload := vector.payload })

/-- The bound of the ids that an export asks for. -/
def exportBound (count : Nat) : Nat := wrappingAdd (count * 2) 1000

def getAllVectors (codec : Codec P) (c : Collection P D) :
    Except Error (List (VectorId × Vector P)) :=
  if c.vectorCount = 0 then .ok []
  else
    .ok ((List.range (exportBound c.vectorCount)).filterMap fun id =>
      (okSome (c.storage.get codec id)).map fun vector => (id, vector))

section Search

variable (codec : Codec (Payload F)) (c : Collection (Payload F) D)

/-- The test that `search` retains results by. -/
def retains [LT F] [LE F] [DecidableLT F] [DecidableLE F] (lower : String → String)
    (filter : Filter F) (scored : ScoredVector (Payload F) D) : Bool :=
  match okSome (c.storage.get codec scored.id) with
  | some vector => FilterEvaluator.matches lower scored.id vector filter
  | none => false

def fetchPayload (r : ScoredVector (Payload F) D) : ScoredVector (Payload F) D :=
  match okSome (c.storage.get codec r.id) with
  | some vector => { r with payload := vector.payload }
  | none => r

def fetchVector (r : ScoredVector (Payload F) D) : ScoredVector (Payload F) D :=
  match okSome (c.storage.get codec r.id) with
  | some vector => { r with vector := some vector.data }
  | none => r

/-- What `search` adds to a result on request. -/
def fetch (request : SearchRequest F) (r : ScoredVector (Payload F) D) :
    ScoredVector (Payload F) D :=
  let r := if request.withPayload = some (.bool true) then c.fetchPayload codec r else r
  if request.withVector then c.fetchVector codec r else r

def search [LinearOrder D] [LT F] [LE F] [DecidableLT F] [DecidableLE F]
    (lower : String → String) (request : SearchRequest F) :
    Except Error (List (ScoredVector (Payload F) D)) :=
  if request.vector.length ≠ c.config.dimension then
    .error (.invalidDimension c.config.dimension request.vector.length)
  else
    let results := c.index.search request
    let results :=
      match request.filter with
      | none => results
      | some filter => results.filter (c.retains codec lower filter)
    .ok ((results.take (min request.limit results.length)).map (c.fetch codec request))

end Search

end Collection

/-! ## Rounds of a loop -/

section Rounds

variable {σ α : Type} {round : σ → α → σ × Except Error Unit} {Q : σ → Prop}
  {keeps : σ → α → Prop}

def rounds (round : σ → α → σ × Except Error Unit) (s : σ) : List α → List (σ × α)
  | [] => []
  | item :: items =>
    (s, item) ::
      match round s item with
      | (_, .error _) => []
      | (s, .ok ()) => rounds round s items

theorem rounds_singleton (round : σ → α → σ × Except Error Unit) (s : σ) (item : α) :
    rounds round s [item] = [(s, item)] := by
  rw [rounds]
  split
  · rfl
  · rfl

/-- An invariant of the rounds that meet the condition holds after the loop. -/
theorem loop_keeps (hstep : ∀ s item, Q s → keeps s item → Q (round s item).1) {s : σ} (hs : Q s)
    {items : List α} (hall : ∀ r ∈ rounds round s items, keeps r.1 r.2) :
    Q (Collection.loop round s items).1 := by
  induction items generalizing s with
  | nil => exact hs
  | cons item items ih =>
    have hfirst := hstep s item hs (hall (s, item) List.mem_cons_self)
    rw [rounds] at hall
    rw [Collection.loop]
    rcases hround : round s item with ⟨s', e | _⟩
    · rw [hround] at hfirst
      exact hfirst
    · rw [hround] at hfirst hall
      exact ih hfirst fun r hr => hall r (List.mem_cons_of_mem _ hr)

/-- A loop over states that carry more runs as the one it carries. -/
theorem loop_of_sim {τ : Type} {round' : τ → α → τ × Except Error Unit} (view : σ → τ)
    (hround : ∀ s item, view (round s item).1 = (round' (view s) item).1 ∧
      (round s item).2 = (round' (view s) item).2) (s : σ) (items : List α) :
    view (Collection.loop round s items).1 = (Collection.loop round' (view s) items).1 := by
  induction items generalizing s with
  | nil => rfl
  | cons item items ih =>
    obtain ⟨hstate, hresult⟩ := hround s item
    rw [Collection.loop, Collection.loop]
    rcases hone : round s item with ⟨s', result⟩
    rcases hother : round' (view s) item with ⟨t', result'⟩
    rw [hone, hother] at hstate hresult
    dsimp only at hstate hresult
    subst hstate hresult
    cases result with
    | error e => rfl
    | ok _ => exact ih s'

theorem rounds_iff (hiff : ∀ s item, Q s → (Q (round s item).1 ↔ keeps s item)) {s : σ}
    (hs : Q s) (items : List α) :
    (∀ r ∈ rounds round s items, Q (round r.1 r.2).1) ↔
      ∀ r ∈ rounds round s items, keeps r.1 r.2 := by
  induction items generalizing s with
  | nil => simp [rounds]
  | cons item items ih =>
    rw [rounds]
    simp only [List.forall_mem_cons]
    rw [hiff s item hs]
    refine and_congr_right fun hkeeps => ?_
    have hnext := (hiff s item hs).mpr hkeeps
    rcases hround : round s item with ⟨s', e | _⟩
    · simp
    · rw [hround] at hnext
      exact ih hnext

end Rounds

/-! ## Samples -/

/-- The JSON of the sample components 1.0, 2.0 and 0.0. -/
def componentText (bits : UInt32) : String :=
  if bits = 0x3F800000 then "1.0" else if bits = 0x40000000 then "2.0" else "0.0"

def recordText : Record P → String
  | .put id vector timestamp =>
    "\x7b\"Put\":\x7b\"id\":" ++ toString id ++ ",\"vector\":\x7b\"data\":[" ++
      ",".intercalate (vector.data.map componentText) ++ "]\x7d,\"timestamp\":" ++
      toString timestamp ++ "\x7d\x7d"
  | .delete id timestamp =>
    "\x7b\"Delete\":\x7b\"id\":" ++ toString id ++ ",\"timestamp\":" ++ toString timestamp ++
      "\x7d\x7d"

/-- `serde_json` on records without payload, of which it reads the given ones
back, and on the metadata of the given tables. -/
def textCodec (records : List (Record P)) (metas : List SSTableMeta) : Codec P where
  toVec r := .ok (ascii (recordText r))
  fromSlice bytes :=
    match records.find? fun r => ascii (recordText r) = bytes with
    | some r => .ok r
    | none => .error "not a sample"
  payloadToVec _ := ascii "\x7b\x7d"
  payloadFromSlice _ := .error "not a sample"
  metaToVec m := ascii (metaText m)
  metaFromSlice bytes :=
    match metas.find? fun m => ascii (metaText m) = bytes with
    | some m => .ok m
    | none => .error "not a sample"

end RTDB
