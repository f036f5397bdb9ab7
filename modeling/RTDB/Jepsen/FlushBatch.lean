import RTDB.Collection.Contents
import RTDB.Jepsen.Types

/-!
# Batches of the batched client

`flush_batch` of `jepsen/direct_client_batched.rs` upserts all writes that wait in one call and sends
its result to each of them.  `execute_direct_write` makes a call for each write.
-/

namespace RTDB
namespace Jepsen

open Storage
open Collection (SameContents eachAlone eachAlone_cons loop_eachAlone_iff upsertItem turnedAwayWith)

variable {V D : Type}

abbrev Fields (V : Type) := List (String × V)

/-- A write that waits, with the clock reading and the level of its upsert. -/
structure BufferedOp (V : Type) where
  key : String
  value : V
  timestamp : Nat
  level : Nat

inductive ClientError where
  | collectionNotFound (name : String)
  | collection (e : Error)
  deriving DecidableEq, Repr

/-- The client: its collection is the one that its manager has under its name. -/
structure BatchedDirectClient (V D : Type) where
  collectionName : String
  collection : Option (Collection (Fields V) D)
  vectorDim : Nat

section Client

variable (keyToVectorId : String → UInt64)

def BufferedOp.item (vectorDim : Nat) (op : BufferedOp V) : UpsertItem (Fields V) where
  id := (keyToVectorId op.key).toNat
  vector := { data := List.replicate vectorDim 0, payload := some [("value", op.value)] }
  timestamp := op.timestamp
  level := op.level

namespace BatchedDirectClient

variable [LinearOrder D] (codec : Codec (Fields V)) (crc32c : List UInt8 → UInt32)

/-- The client after the flush, and what is sent to each waiter. -/
def flushBatch (client : BatchedDirectClient V D) (batch : List (BufferedOp V)) :
    BatchedDirectClient V D × List (Except ClientError Unit) :=
  if batch.isEmpty then (client, [])
  else
    match client.collection with
    | none => (client, batch.map fun _ => .error (.collectionNotFound client.collectionName))
    | some c =>
      match c.upsert codec crc32c (batch.map (BufferedOp.item keyToVectorId client.vectorDim)) with
      | (c, .ok _) => ({ client with collection := some c }, batch.map fun _ => .ok ())
      | (c, .error e) =>
        ({ client with collection := some c }, batch.map fun _ => .error (.collection e))

def executeDirectWrite (client : BatchedDirectClient V D) (op : BufferedOp V) :
    BatchedDirectClient V D × Except ClientError (OperationResult V) :=
  match client.collection with
  | none => (client, .error (.collectionNotFound client.collectionName))
  | some c =>
    match c.upsert codec crc32c [op.item keyToVectorId client.vectorDim] with
    | (c, .ok _) => ({ client with collection := some c }, .ok .writeOk)
    | (c, .error e) => ({ client with collection := some c }, .error (.collection e))

def executeDirectWrites (client : BatchedDirectClient V D) :
    List (BufferedOp V) → BatchedDirectClient V D × List (Except ClientError (OperationResult V))
  | [] => (client, [])
  | op :: ops =>
    let (client, result) := client.executeDirectWrite keyToVectorId codec crc32c op
    let (client, results) := client.executeDirectWrites ops
    (client, result :: results)

end BatchedDirectClient

end Client

/-! ## What makes no difference -/

/-- What a waiter is told of the result of its write. -/
def told (result : Except ClientError (OperationResult V)) : Except ClientError Unit :=
  result.map fun _ => ()

/-- A flush leaves the collection as the writes one by one would, and tells each waiter the same. -/
structure Transparent (flushed : BatchedDirectClient V D × List (Except ClientError Unit))
    (direct : BatchedDirectClient V D × List (Except ClientError (OperationResult V))) : Prop where
  contents : Option.Rel SameContents flushed.1.collection direct.1.collection
  results : flushed.2 = direct.2.map told

/-! ## The client -/

namespace BatchedDirectClient

variable [LinearOrder D] {keyToVectorId : String → UInt64} {codec : Codec (Fields V)}
  {crc32c : List UInt8 → UInt32} {client : BatchedDirectClient V D}
  {c c' : Collection (Fields V) D}

/-- The result of a round, as the client has it. -/
def ofRound (result : Except Error Unit) : Except ClientError Unit := result.mapError .collection

theorem ofRound_inj {a b : Except Error Unit} (hsame : ofRound a = ofRound b) : a = b := by
  cases a with
  | ok u =>
    cases b with
    | ok v => rfl
    | error e => exact absurd hsame (by simp [ofRound, Except.mapError])
  | error e =>
    cases b with
    | ok v => exact absurd hsame (by simp [ofRound, Except.mapError])
    | error e' =>
      rw [ClientError.collection.inj (Except.error.inj hsame)]

variable (keyToVectorId codec crc32c) in
theorem flushBatch_some (hclient : client.collection = some c) {batch : List (BufferedOp V)}
    (hsome : batch ≠ []) :
    ∃ c', (client.flushBatch keyToVectorId codec crc32c batch).1.collection = some c' ∧
      SameContents c' (Collection.loop (upsertItem codec crc32c) c
        (batch.map (BufferedOp.item keyToVectorId client.vectorDim))).1 ∧
      (client.flushBatch keyToVectorId codec crc32c batch).2 = batch.map fun _ =>
        ofRound (Collection.loop (upsertItem codec crc32c) c
          (batch.map (BufferedOp.item keyToVectorId client.vectorDim))).2 := by
  rw [flushBatch, if_neg (by simp [hsome]), hclient]
  dsimp only
  rw [Collection.upsert]
  rcases Collection.loop (upsertItem codec crc32c) c
    (batch.map (BufferedOp.item keyToVectorId client.vectorDim)) with ⟨c', e | _⟩
  · exact ⟨_, rfl, ⟨rfl, rfl, rfl, rfl⟩, rfl⟩
  · exact ⟨_, rfl, ⟨rfl, rfl, rfl, rfl⟩, rfl⟩

variable (keyToVectorId codec crc32c) in
theorem executeDirectWrite_some (hclient : client.collection = some c)
    (hsame : SameContents c c') (op : BufferedOp V) :
    ∃ after, (client.executeDirectWrite keyToVectorId codec crc32c op).1 =
        { client with collection := some after } ∧
      SameContents after
        (c'.upsertItem codec crc32c (op.item keyToVectorId client.vectorDim)).1 ∧
      told (client.executeDirectWrite keyToVectorId codec crc32c op).2 =
        ofRound (c'.upsertItem codec crc32c (op.item keyToVectorId client.vectorDim)).2 := by
  obtain ⟨hcontents, hresult⟩ := hsame.upsertItem codec crc32c
    (op.item keyToVectorId client.vectorDim)
  rw [executeDirectWrite, hclient]
  dsimp only
  rw [Collection.upsert, Collection.loop, ← hresult]
  rcases hround : c.upsertItem codec crc32c (op.item keyToVectorId client.vectorDim) with
    ⟨after, e | _⟩
  · rw [hround] at hcontents
    exact ⟨_, rfl, hcontents, rfl⟩
  · rw [hround] at hcontents
    exact ⟨_, rfl, hcontents, rfl⟩

theorem executeDirectWrites_cons (client : BatchedDirectClient V D) (op : BufferedOp V)
    (ops : List (BufferedOp V)) :
    client.executeDirectWrites keyToVectorId codec crc32c (op :: ops) =
      (((client.executeDirectWrite keyToVectorId codec crc32c op).1.executeDirectWrites
          keyToVectorId codec crc32c ops).1,
        (client.executeDirectWrite keyToVectorId codec crc32c op).2 ::
          ((client.executeDirectWrite keyToVectorId codec crc32c op).1.executeDirectWrites
            keyToVectorId codec crc32c ops).2) :=
  rfl

variable (keyToVectorId codec crc32c) in
theorem executeDirectWrites_some (ops : List (BufferedOp V)) (hclient : client.collection = some c)
    (hsame : SameContents c c') :
    ∃ after, (client.executeDirectWrites keyToVectorId codec crc32c ops).1.collection = some after ∧
      SameContents after (eachAlone codec crc32c c'
        (ops.map (BufferedOp.item keyToVectorId client.vectorDim))).1 ∧
      (client.executeDirectWrites keyToVectorId codec crc32c ops).2.map told =
        (eachAlone codec crc32c c'
          (ops.map (BufferedOp.item keyToVectorId client.vectorDim))).2.map ofRound := by
  induction ops generalizing client c c' with
  | nil => exact ⟨c, hclient, hsame, rfl⟩
  | cons op ops ih =>
    obtain ⟨after, hafter, hcontents, hresult⟩ :=
      executeDirectWrite_some keyToVectorId codec crc32c hclient hsame op
    obtain ⟨last, hlast, hcontents', hresults⟩ :=
      @ih { client with collection := some after } after _ rfl hcontents
    rw [executeDirectWrites_cons, hafter, List.map_cons, eachAlone_cons]
    refine ⟨last, hlast, hcontents', ?_⟩
    rw [List.map_cons, List.map_cons, hresult, hresults]

theorem executeDirectWrites_none (ops : List (BufferedOp V)) (hclient : client.collection = none) :
    client.executeDirectWrites keyToVectorId codec crc32c ops =
      (client, ops.map fun _ => .error (.collectionNotFound client.collectionName)) := by
  induction ops with
  | nil => rfl
  | cons op ops ih =>
    have hop : client.executeDirectWrite keyToVectorId codec crc32c op =
        (client, .error (.collectionNotFound client.collectionName)) := by
      rw [executeDirectWrite, hclient]
    rw [executeDirectWrites_cons, hop, ih]
    rfl

/-- A flush is transparent exactly where there is no collection, or no more than one write, or every
write is taken at its turn, or all are turned away with one error before anything is written. -/
theorem flush_transparent_iff (keyToVectorId : String → UInt64) (codec : Codec (Fields V))
    (crc32c : List UInt8 → UInt32) (client : BatchedDirectClient V D)
    (batch : List (BufferedOp V)) :
    Transparent (client.flushBatch keyToVectorId codec crc32c batch)
        (client.executeDirectWrites keyToVectorId codec crc32c batch) ↔
      ∀ c, client.collection = some c → batch.length ≤ 1 ∨
        (∀ r ∈ rounds (upsertItem codec crc32c) c
          (batch.map (BufferedOp.item keyToVectorId client.vectorDim)), r.1.Takes codec r.2) ∨
        ∃ e, ∀ op ∈ batch,
          c.turnedAwayWith codec (op.item keyToVectorId client.vectorDim) = some e := by
  cases hclient : client.collection with
  | none =>
    rw [executeDirectWrites_none batch hclient, flushBatch]
    refine iff_of_true ?_ fun c hc => absurd hc (by simp)
    split
    · rename_i hempty
      rw [List.isEmpty_iff.mp hempty]
      exact ⟨by rw [hclient]; exact .none, rfl⟩
    · rw [hclient]
      exact ⟨by rw [hclient]; exact .none, by rw [List.map_map]; rfl⟩
  | some c =>
    simp only [Option.some.injEq, forall_eq']
    cases batch with
    | nil =>
      refine iff_of_true ⟨?_, rfl⟩ (.inl (Nat.zero_le 1))
      show Option.Rel SameContents client.collection client.collection
      rw [hclient]
      exact .some ⟨rfl, rfl, rfl, rfl⟩
    | cons op ops =>
      obtain ⟨flushed, hflushed, hcontents, hresults⟩ :=
        flushBatch_some keyToVectorId codec crc32c
          hclient (List.cons_ne_nil op ops)
      obtain ⟨direct, hdirect, hcontents', hresults'⟩ :=
        executeDirectWrites_some keyToVectorId codec crc32c (op :: ops) hclient ⟨rfl, rfl, rfl, rfl⟩
      have hiff := loop_eachAlone_iff codec crc32c c
        ((op :: ops).map (BufferedOp.item keyToVectorId client.vectorDim))
      simp only [List.length_map, List.forall_mem_map] at hiff
      refine Iff.trans ⟨?_, ?_⟩ hiff
      · rintro ⟨hsame, hresult⟩
        rw [hflushed, hdirect] at hsame
        rw [hresults, hresults'] at hresult
        refine ⟨hcontents.symm.trans ((Option.rel_some_some.mp hsame).trans hcontents'), ?_⟩
        refine List.map_injective_iff.mpr (fun a b => ofRound_inj) ?_
        rw [List.map_map, List.map_map, ← hresult]
        rfl
      · rintro ⟨hsame, hresult⟩
        refine ⟨?_, ?_⟩
        · rw [hflushed, hdirect]
          exact .some (hcontents.trans (hsame.trans hcontents'.symm))
        · rw [hresults, hresults', ← hresult, List.map_map, List.map_map]
          rfl

end BatchedDirectClient

/-! ## Writes that are refused -/

def sampleIds (key : String) : UInt64 := if key = "x" then 1 else 2

/-- The JSON of a record whose payload has a text of so many letters `a`. -/
def lettersBytes : Record (Fields Nat) → List UInt8
  | .put id vector timestamp =>
    ascii ("\x7b\"Put\":\x7b\"id\":" ++ toString id ++ ",\"vector\":\x7b\"data\":[" ++
        ",".intercalate (vector.data.map componentText) ++
        "],\"payload\":\x7b\"value\":\"") ++
      (List.replicate (((vector.payload.getD []).lookup "value").getD 0) 0x61 ++
        ascii ("\"\x7d\x7d,\"timestamp\":" ++ toString timestamp ++ "\x7d\x7d"))
  | .delete id timestamp => ascii (recordText (.delete id timestamp : Record (Fields Nat)))

def lettersCodec : Codec (Fields Nat) :=
  { textCodec [] [] with toVec := fun r => .ok (lettersBytes r) }

def newClient : BatchedDirectClient Nat Nat where
  collectionName := "jepsen_batched_0"
  collection := some (Collection.create Collection.sampleCollectionConfig)
  vectorDim := 1

/-- The text alone is longer than a record may be. -/
def heavyWrite : BufferedOp Nat := { key := "x", value := 2 ^ 24 + 1, timestamp := 1, level := 0 }

def lightWrite : BufferedOp Nat := { key := "y", value := 1, timestamp := 2, level := 0 }

theorem heavyWrite_turnedAway :
    ∃ e, (Collection.create Collection.sampleCollectionConfig).turnedAwayWith lettersCodec
      (heavyWrite.item sampleIds 1) = some e := by
  let record : Record (Fields Nat) :=
    .put 1 { data := [0], payload := some [("value", 2 ^ 24 + 1)] } 1
  have hlength : (lettersBytes record).length > maxRecordSize := by
    rw [lettersBytes, List.length_append, List.length_append, List.length_replicate]
    show _ + (2 ^ 24 + 1 + _) > 16 * 1024 * 1024
    omega
  refine ⟨.storage (.storage ("Record too large: " ++ toString (lettersBytes record).length ++
    " > " ++ toString maxRecordSize)), ?_⟩
  rw [Collection.turnedAwayWith, if_neg (by decide)]
  exact if_pos hlength

theorem not_transparent_heavy :
    ¬Transparent
      (newClient.flushBatch sampleIds lettersCodec (fun _ => 0) [heavyWrite, lightWrite])
      (newClient.executeDirectWrites sampleIds lettersCodec (fun _ => 0)
        [heavyWrite, lightWrite]) := by
  intro htransparent
  obtain ⟨e, haway⟩ := heavyWrite_turnedAway
  have hround := Collection.upsertItem_of_turnedAwayWith lettersCodec (fun _ => 0) haway
  have hclient : newClient.collection = some (Collection.create Collection.sampleCollectionConfig) :=
    rfl
  obtain ⟨_, -, -, hflushed⟩ := BatchedDirectClient.flushBatch_some sampleIds lettersCodec
    (fun _ => 0) hclient (List.cons_ne_nil heavyWrite [lightWrite])
  obtain ⟨_, -, -, hdirect⟩ := BatchedDirectClient.executeDirectWrites_some sampleIds lettersCodec
    (fun _ => 0) [heavyWrite, lightWrite] hclient (.refl _)
  have hloop : (Collection.loop (upsertItem lettersCodec fun _ => 0)
      (Collection.create Collection.sampleCollectionConfig)
      ([heavyWrite, lightWrite].map (BufferedOp.item sampleIds newClient.vectorDim))).2 =
        .error e := by
    show (Collection.loop _ _ [heavyWrite.item sampleIds 1, lightWrite.item sampleIds 1]).2 = _
    rw [Collection.loop, hround]
  have halone : (eachAlone lettersCodec (fun _ => 0)
      (Collection.create Collection.sampleCollectionConfig)
      ([heavyWrite, lightWrite].map (BufferedOp.item sampleIds newClient.vectorDim))).2 =
        [.error e, .ok ()] := by
    show (eachAlone _ _ _ [heavyWrite.item sampleIds 1, lightWrite.item sampleIds 1]).2 = _
    have hlight : ((Collection.create Collection.sampleCollectionConfig).upsertItem lettersCodec
        (fun _ => 0) (lightWrite.item sampleIds 1)).2 = .ok () := by decide +kernel
    rw [eachAlone_cons, hround, eachAlone_cons, hlight]
    rfl
  have hresults := hflushed.symm.trans (htransparent.results.trans hdirect)
  rw [hloop, halone] at hresults
  have hsecond : BatchedDirectClient.ofRound (.error e) = BatchedDirectClient.ofRound (.ok ()) :=
    Option.some.inj (congrArg (fun results => results[1]?) hresults)
  exact absurd (BatchedDirectClient.ofRound_inj hsecond) (by simp)

/-- The vector of "x" has been deleted. -/
def bereft : BatchedDirectClient Unit Nat where
  collectionName := "jepsen_batched_0"
  collection :=
    some ((Collection.create Collection.sampleCollectionConfig).delete (textCodec [] []) (fun _ => 0)
      [(1, 0)]).1
  vectorDim := 1

def sampleWrites : List (BufferedOp Unit) :=
  [{ key := "x", value := (), timestamp := 1, level := 0 },
    { key := "y", value := (), timestamp := 2, level := 0 }]

/-- The first write is refused, and the second is told so too: its record is too long, or it is over
a tombstone. -/
theorem not_flush_transparent :
    ¬Transparent
        (newClient.flushBatch sampleIds lettersCodec (fun _ => 0) [heavyWrite, lightWrite])
        (newClient.executeDirectWrites sampleIds lettersCodec (fun _ => 0)
          [heavyWrite, lightWrite]) ∧
      ¬Transparent (bereft.flushBatch sampleIds (textCodec [] []) (fun _ => 0) sampleWrites)
        (bereft.executeDirectWrites sampleIds (textCodec [] []) (fun _ => 0) sampleWrites) :=
  ⟨not_transparent_heavy, fun htransparent => absurd htransparent.results (by decide +kernel)⟩

end Jepsen
end RTDB
