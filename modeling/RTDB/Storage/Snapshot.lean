import Mathlib.Data.List.AList
import RTDB.Lib.Bytes
import RTDB.Lib.Outcomes
import RTDB.Types

/-!
# Snapshot files

The entries of `storage/snapshot.rs` in the encoding of `bincode`, which does not describe itself:
a JSON value can be written in it but not read.  The compressed stream is the frames it holds.
-/

namespace RTDB
namespace Storage

open Bytes Outcomes

structure VectorEntry (F : Type) where
  id : VectorId
  vector : List UInt32
  payload : Option (Payload F)
  deleted : Bool

/-! ## The encoding -/

section

variable {F : Type}

/-- `bincode` for JSON values. -/
structure ValueCodec (F : Type) where
  toBytes : Value F → List UInt8

def encodeField (values : ValueCodec F) (field : String × Value F) : List UInt8 :=
  leBytes 8 field.1.utf8ByteSize ++ field.1.toUTF8.data.toList ++ values.toBytes field.2

def encodePayload (values : ValueCodec F) : Option (Payload F) → List UInt8
  | none => leBytes 1 0
  | some fields => leBytes 1 1 ++ (leBytes 8 fields.length ++ fields.flatMap (encodeField values))

def encodeVector (vector : List UInt32) : List UInt8 := vector.flatMap fun bits => leBytes 4 bits.toNat

def encodeEntry (values : ValueCodec F) (entry : VectorEntry F) : List UInt8 :=
  leBytes 8 entry.id ++
    (leBytes 8 entry.vector.length ++
      (encodeVector entry.vector ++
        (encodePayload values entry.payload ++ leBytes 1 entry.deleted.toNat)))

def unexpectedEnd : String := "io error: unexpected end of file"

def readNat (n : Nat) (bytes : List UInt8) : Except String (Nat × List UInt8) :=
  if bytes.length < n then .error unexpectedEnd else .ok (leNat (bytes.take n), bytes.drop n)

def readVector : Nat → List UInt8 → Except String (List UInt32 × List UInt8)
  | 0, bytes => .ok ([], bytes)
  | n + 1, bytes => do
    let (bits, bytes) ← readNat 4 bytes
    let (vector, bytes) ← readVector n bytes
    .ok (UInt32.ofNat bits :: vector, bytes)

/-- The first value of a map with entries asks what it is and is refused. -/
def readPayload (bytes : List UInt8) : Except String (Option (Payload F) × List UInt8) := do
  let (tag, bytes) ← readNat 1 bytes
  if tag = 0 then .ok (none, bytes)
  else if tag = 1 then do
    let (count, bytes) ← readNat 8 bytes
    if count = 0 then .ok (some [], bytes)
    else .error "Bincode does not support the serde::Deserializer::deserialize_any method"
  else .error "tag for enum is not valid"

def readBool (bytes : List UInt8) : Except String (Bool × List UInt8) := do
  let (b, bytes) ← readNat 1 bytes
  if b = 0 then .ok (false, bytes)
  else if b = 1 then .ok (true, bytes)
  else .error "invalid u8 while decoding bool, expected 0 or 1"

/-- Bytes behind the entry are not looked at. -/
def decodeEntry (bytes : List UInt8) : Except String (VectorEntry F) := do
  let (id, bytes) ← readNat 8 bytes
  let (count, bytes) ← readNat 8 bytes
  let (vector, bytes) ← readVector count bytes
  let (payload, bytes) ← readPayload bytes
  let (deleted, _) ← readBool bytes
  .ok { id, vector, payload, deleted }

/-! ## Frames -/

def entryOf (pair : VectorId × Vector (Payload F)) : VectorEntry F :=
  { id := pair.1, vector := pair.2.data, payload := pair.2.payload, deleted := false }

/-- The length of an entry is written as a `u32`. -/
def encodeFrame (values : ValueCodec F) (pair : VectorId × Vector (Payload F)) : List UInt8 :=
  let data := encodeEntry values (entryOf pair)
  leBytes 4 data.length ++ data

def encodeSnapshot (values : ValueCodec F) (vectors : List (VectorId × Vector (Payload F))) :
    List UInt8 :=
  vectors.flatMap (encodeFrame values)

/-- The loop of `read_snapshot_data`; an incomplete length ends it. -/
def readEntries : Nat → List UInt8 → Except RTDBError (List (VectorId × Vector (Payload F)))
  | 0, _ => .ok []
  | fuel + 1, bytes =>
    if bytes.length < 4 then .ok []
    else
      let len := leNat (bytes.take 4)
      let rest := bytes.drop 4
      if rest.length < len then .error (.storage "failed to fill whole buffer")
      else
        match decodeEntry (rest.take len) with
        | .error e => .error (.serialization e)
        | .ok entry =>
          (readEntries fuel (rest.drop len)).map fun vectors =>
            if entry.deleted = true then vectors
            else (entry.id, { data := entry.vector, payload := entry.payload }) :: vectors

/-- Every turn of the loop takes bytes, so that their number is enough fuel. -/
def readSnapshotData (bytes : List UInt8) : Except RTDBError (List (VectorId × Vector (Payload F))) :=
  readEntries bytes.length bytes

/-! ## What is read back -/

theorem readNat_append {n x : Nat} (hx : x < 256 ^ n) (rest : List UInt8) :
    readNat n (leBytes n x ++ rest) = .ok (x, rest) := by
  have hlength : (leBytes n x).length = n := length_leBytes n x
  rw [readNat, if_neg (by rw [List.length_append]; omega), List.take_left' hlength,
    List.drop_left' hlength, leNat_leBytes_of_lt hx]

theorem readNat_ok {n x : Nat} {bytes rest : List UInt8} (hread : readNat n bytes = .ok (x, rest)) :
    x < 256 ^ n ∧ bytes.length = n + rest.length := by
  rw [readNat] at hread
  split at hread
  · exact absurd hread (by simp)
  · obtain ⟨hx, hrest⟩ := Prod.mk.inj (Except.ok.inj hread)
    have hlength : (bytes.take n).length = n := by
      rw [List.length_take]
      omega
    have hlt := leNat_lt (bytes.take n)
    rw [hlength, hx] at hlt
    refine ⟨hlt, ?_⟩
    rw [← hrest, List.length_drop]
    omega

theorem readVector_append (vector : List UInt32) (rest : List UInt8) :
    readVector vector.length (encodeVector vector ++ rest) = .ok (vector, rest) := by
  induction vector with
  | nil => rfl
  | cons bits vector ih =>
    have hbits : bits.toNat < 256 ^ 4 := bits.toNat_lt
    rw [List.length_cons, readVector, encodeVector, List.flatMap_cons, List.append_assoc,
      readNat_append hbits, ok_bind, ← encodeVector]
    dsimp only
    rw [ih, ok_bind]
    dsimp only
    rw [UInt32.ofNat_toNat]

theorem readVector_ok {n : Nat} {bytes rest : List UInt8} {vector : List UInt32}
    (hread : readVector n bytes = .ok (vector, rest)) :
    vector.length = n ∧ bytes.length = 4 * n + rest.length := by
  induction n generalizing bytes vector with
  | zero =>
    obtain ⟨rfl, rfl⟩ := Prod.mk.inj (Except.ok.inj hread)
    exact ⟨rfl, by omega⟩
  | succ n ih =>
    rw [readVector] at hread
    obtain ⟨⟨bits, bytes'⟩, hbits, hread⟩ := bind_eq_ok hread
    obtain ⟨⟨vector', rest'⟩, hvector, hread⟩ := bind_eq_ok hread
    obtain ⟨rfl, rfl⟩ := Prod.mk.inj (Except.ok.inj hread)
    have hfirst := (readNat_ok hbits).2
    have hrest := ih hvector
    exact ⟨by rw [List.length_cons, hrest.1], by omega⟩

theorem readBool_ok {bytes rest : List UInt8} {b : Bool} (hread : readBool bytes = .ok (b, rest)) :
    bytes.length = 1 + rest.length := by
  rw [readBool] at hread
  obtain ⟨⟨x, bytes'⟩, hx, hread⟩ := bind_eq_ok hread
  have hlength := (readNat_ok hx).2
  dsimp only at hread
  split at hread
  · obtain ⟨-, rfl⟩ := Prod.mk.inj (Except.ok.inj hread)
    exact hlength
  · split at hread
    · obtain ⟨-, rfl⟩ := Prod.mk.inj (Except.ok.inj hread)
      exact hlength
    · exact absurd hread (by simp)

theorem readPayload_ok {bytes rest : List UInt8} {payload : Option (Payload F)}
    (hread : readPayload bytes = .ok (payload, rest)) :
    payload.getD [] = [] ∧ bytes.length = 1 + (if payload.isSome then 8 else 0) + rest.length := by
  rw [readPayload] at hread
  obtain ⟨⟨tag, bytes'⟩, htag, hread⟩ := bind_eq_ok hread
  have hlength := (readNat_ok htag).2
  dsimp only at hread
  split at hread
  · obtain ⟨rfl, rfl⟩ := Prod.mk.inj (Except.ok.inj hread)
    exact ⟨rfl, by simpa using hlength⟩
  · split at hread
    · obtain ⟨⟨count, bytes''⟩, hcount, hread⟩ := bind_eq_ok hread
      have hmore := (readNat_ok hcount).2
      dsimp only at hread
      split at hread
      · obtain ⟨rfl, rfl⟩ := Prod.mk.inj (Except.ok.inj hread)
        refine ⟨rfl, ?_⟩
        rw [Option.isSome_some, if_pos rfl]
        omega
      · exact absurd hread (by simp)
    · exact absurd hread (by simp)

/-- The bytes of an entry without values in its payload. -/
def entryLength (pair : VectorId × Vector (Payload F)) : Nat :=
  18 + 4 * pair.2.data.length + (if pair.2.payload.isSome then 8 else 0)

/-- The payload has no value, and the length of the entry is a `u32`. -/
structure Restorable (pair : VectorId × Vector (Payload F)) : Prop where
  id : pair.1 < 2 ^ 64
  payload : pair.2.payload.getD [] = []
  length : entryLength pair < 2 ^ 32

variable {pair : VectorId × Vector (Payload F)} {vectors : List (VectorId × Vector (Payload F))}

theorem length_encodeVector (vector : List UInt32) : (encodeVector vector).length = 4 * vector.length := by
  rw [show encodeVector vector = wordBytes vector from rfl, length_wordBytes, Nat.mul_comm]

theorem readPayload_append (values : ValueCodec F) {payload : Option (Payload F)}
    (hpayload : payload.getD [] = []) (rest : List UInt8) :
    readPayload (encodePayload values payload ++ rest) = .ok (payload, rest) := by
  have hzero : 0 < 256 ^ 8 := Nat.pow_pos (by decide)
  cases payload with
  | none =>
    rw [encodePayload, readPayload, readNat_append (Nat.pow_pos (by decide)), ok_bind]
    rfl
  | some fields =>
    rw [Option.getD_some] at hpayload
    rw [hpayload, encodePayload, List.length_nil, List.flatMap_nil, List.append_nil, readPayload,
      List.append_assoc, readNat_append (by decide), ok_bind]
    dsimp only
    rw [if_neg Nat.one_ne_zero, if_pos rfl, readNat_append hzero, ok_bind]
    rfl

theorem length_encodePayload (values : ValueCodec F) {payload : Option (Payload F)}
    (hpayload : payload.getD [] = []) :
    (encodePayload values payload).length = 1 + (if payload.isSome then 8 else 0) := by
  cases payload with
  | none => rfl
  | some fields =>
    rw [Option.getD_some] at hpayload
    rw [hpayload]
    rfl

theorem length_encodeEntry (values : ValueCodec F) (hpayload : pair.2.payload.getD [] = []) :
    (encodeEntry values (entryOf pair)).length = entryLength pair := by
  have hlength := length_encodePayload values hpayload
  have hvector := length_encodeVector pair.2.data
  simp only [encodeEntry, entryOf, List.length_append, length_leBytes, hlength, hvector, entryLength]
  omega

theorem decodeEntry_encodeEntry (values : ValueCodec F) (hpair : Restorable pair) :
    decodeEntry (encodeEntry values (entryOf pair)) = .ok (entryOf pair) := by
  have hid : pair.1 < 256 ^ 8 := hpair.id
  have hcount : pair.2.data.length < 256 ^ 8 := by
    have hlength := hpair.length
    rw [entryLength] at hlength
    omega
  have hdeleted : readBool (leBytes 1 false.toNat) = .ok (false, []) := rfl
  simp only [encodeEntry, entryOf, decodeEntry, readNat_append hid, readNat_append hcount,
    readVector_append, readPayload_append values hpair.payload, hdeleted, ok_bind]

/-- What is read has no value in its payload and is no longer than its bytes. -/
theorem decodeEntry_ok {bytes : List UInt8} {entry : VectorEntry F}
    (hdecode : decodeEntry bytes = .ok entry) :
    entry.id < 2 ^ 64 ∧ entry.payload.getD [] = [] ∧
      18 + 4 * entry.vector.length + (if entry.payload.isSome then 8 else 0) ≤ bytes.length := by
  rw [decodeEntry] at hdecode
  obtain ⟨⟨id, bytes₁⟩, hid, hdecode⟩ := bind_eq_ok hdecode
  obtain ⟨⟨count, bytes₂⟩, hcount, hdecode⟩ := bind_eq_ok hdecode
  obtain ⟨⟨vector, bytes₃⟩, hvector, hdecode⟩ := bind_eq_ok hdecode
  obtain ⟨⟨payload, bytes₄⟩, hpayload, hdecode⟩ := bind_eq_ok hdecode
  obtain ⟨⟨deleted, bytes₅⟩, hdeleted, hdecode⟩ := bind_eq_ok hdecode
  have hentry := Except.ok.inj hdecode
  have hfit := readNat_ok hid
  have hcounted := readNat_ok hcount
  have hread := readVector_ok hvector
  have hlast := readBool_ok hdeleted
  have hempty := readPayload_ok hpayload
  rw [← hentry]
  refine ⟨hfit.1, hempty.1, ?_⟩
  show 18 + 4 * vector.length + (if payload.isSome then 8 else 0) ≤ bytes.length
  omega

theorem readEntries_encodeSnapshot (values : ValueCodec F)
    (hvectors : ∀ pair ∈ vectors, Restorable pair) {fuel : Nat}
    (hfuel : (encodeSnapshot values vectors).length ≤ fuel) :
    readEntries fuel (encodeSnapshot values vectors) = .ok vectors := by
  induction vectors generalizing fuel with
  | nil => cases fuel <;> rfl
  | cons pair vectors ih =>
    have hpair := hvectors pair List.mem_cons_self
    have hlength := length_encodeEntry values hpair.payload
    have hfits : entryLength pair < 256 ^ 4 := hpair.length
    have hhead : (leBytes 4 (entryLength pair)).length = 4 := length_leBytes 4 _
    have hbytes : encodeSnapshot values (pair :: vectors) =
        leBytes 4 (entryLength pair) ++
          (encodeEntry values (entryOf pair) ++ encodeSnapshot values vectors) := by
      rw [encodeSnapshot, List.flatMap_cons, encodeFrame, hlength, List.append_assoc, encodeSnapshot]
    have htotal : (encodeSnapshot values (pair :: vectors)).length =
        4 + (entryLength pair + (encodeSnapshot values vectors).length) := by
      rw [hbytes, List.length_append, List.length_append, hhead, hlength]
    obtain ⟨fuel, rfl⟩ : ∃ n, fuel = n + 1 := ⟨fuel - 1, by omega⟩
    rw [readEntries, if_neg (by omega), hbytes, List.take_left' hhead, List.drop_left' hhead,
      leNat_leBytes_of_lt hfits]
    dsimp only
    rw [if_neg (by rw [List.length_append]; omega), List.take_left' hlength, List.drop_left' hlength,
      decodeEntry_encodeEntry values hpair,
      ih (fun other hmem => hvectors other (List.mem_cons_of_mem pair hmem)) (by omega)]
    rfl

/-- Only such entries are ever read. -/
theorem restorable_of_readEntries {fuel : Nat} {bytes : List UInt8}
    (hread : readEntries fuel bytes = .ok vectors) : ∀ pair ∈ vectors, Restorable pair := by
  induction fuel generalizing bytes vectors with
  | zero =>
    rw [← Except.ok.inj hread]
    exact fun _ hmem => absurd hmem List.not_mem_nil
  | succ fuel ih =>
    rw [readEntries] at hread
    split at hread
    case isTrue =>
      rw [← Except.ok.inj hread]
      exact fun _ hmem => absurd hmem List.not_mem_nil
    case isFalse hlong =>
      have hfour : (bytes.take 4).length = 4 := by
        rw [List.length_take]
        omega
      have hlen := leNat_lt (bytes.take 4)
      rw [hfour] at hlen
      dsimp only at hread
      split at hread
      case isTrue => exact absurd hread (by simp)
      case isFalse =>
        split at hread
        case h_1 => exact absurd hread (by simp)
        case h_2 entry hentry =>
          obtain ⟨rest, hrest, hvectors⟩ := map_eq_ok hread
          obtain ⟨hid, hpayload, hlength⟩ := decodeEntry_ok hentry
          rw [List.length_take] at hlength
          have hsmall : 18 + 4 * entry.vector.length + (if entry.payload.isSome then 8 else 0) < 2 ^ 32 := by
            omega
          rw [← hvectors]
          split
          case isTrue => exact ih hrest
          case isFalse =>
            intro pair hmem
            rcases List.mem_cons.mp hmem with rfl | hmem
            · exact { id := hid, payload := hpayload, length := hsmall }
            · exact ih hrest pair hmem

/-- Snapshots are read back as they were written exactly when every vector can be. -/
theorem readSnapshotData_iff (values : ValueCodec F) :
    readSnapshotData (encodeSnapshot values vectors) = .ok vectors ↔
      ∀ pair ∈ vectors, Restorable pair :=
  ⟨restorable_of_readEntries, fun hvectors => readEntries_encodeSnapshot values hvectors (Nat.le_refl _)⟩

end

end Storage
end RTDB
