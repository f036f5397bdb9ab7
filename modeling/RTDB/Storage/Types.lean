import Mathlib.Algebra.Group.Nat.Defs
import Mathlib.Data.List.AList
import RTDB.Lib.Outcomes

/-!
# Storage types

Errors, vectors, log records and table metadata of the storage layer.  A
vector's components are the bit patterns of its floats, which storage only
copies; its payload is a JSON map that only `serde_json` looks into, so its type
is a parameter.
-/

namespace RTDB
namespace Storage

/-- `panic` is no value of the source's type: a panic ends a call as an error
does, and is kept apart because no caller can catch it. -/
inductive RTDBError where
  | storage (msg : String)
  | serialization (msg : String)
  | panic (msg : String)
  deriving DecidableEq, Repr

/-- `u64` in the source. -/
abbrev VectorId := Nat

structure Vector (P : Type) where
  data : List UInt32
  payload : Option P
  deriving DecidableEq, Repr

inductive Record (P : Type) where
  | put (id : VectorId) (vector : Vector P) (timestamp : Nat)
  | delete (id : VectorId) (timestamp : Nat)
  deriving DecidableEq, Repr

namespace Record

variable {P : Type}

def id : Record P → VectorId
  | .put id _ _ => id
  | .delete id _ => id

def outcome : Record P → Option (Vector P)
  | .put _ vector _ => some vector
  | .delete _ _ => none

end Record

inductive CompressionType where
  | none
  | lz4
  | zstd
  | snappy
  deriving DecidableEq, Repr

structure SSTableMeta where
  version : Nat
  dimension : Nat
  entryCount : Nat
  minId : VectorId
  maxId : VectorId
  compression : CompressionType
  blockSize : Nat
  level : Nat
  deriving DecidableEq, Repr

/-- `serde_json`, as far as storage calls it: log records, the payloads in table
blocks, and table metadata, to and from bytes. -/
structure Codec (P : Type) where
  toVec : Record P → Except String (List UInt8)
  fromSlice : List UInt8 → Except String (Record P)
  payloadToVec : P → List UInt8
  payloadFromSlice : List UInt8 → Except String (Option P)
  metaToVec : SSTableMeta → List UInt8
  metaFromSlice : List UInt8 → Except String SSTableMeta

/-- What storage relies on: a record parsed back is of the same kind and has the
same id, and the empty text is no record.  Components and payload may differ. -/
structure Codec.Lawful {P : Type} (codec : Codec P) : Prop where
  id_eq : ∀ r bytes r', codec.toVec r = .ok bytes → codec.fromSlice bytes = .ok r' → r'.id = r.id
  kind_eq : ∀ r bytes r', codec.toVec r = .ok bytes → codec.fromSlice bytes = .ok r' →
    r'.outcome.isSome = r.outcome.isSome
  empty : ∀ r, codec.fromSlice [] ≠ .ok r

/-- The bytes of an ASCII text. -/
def ascii (text : String) : List UInt8 := text.toList.map fun c => UInt8.ofNat c.toNat

def sampleTexts : List (Record Unit × String) :=
  [ (.put 1 { data := [0x3F800000], payload := none } 1,
      "\x7b\"Put\":\x7b\"id\":1,\"vector\":\x7b\"data\":[1.0]\x7d,\"timestamp\":1\x7d\x7d"),
    (.delete 1 2, "\x7b\"Delete\":\x7b\"id\":1,\"timestamp\":2\x7d\x7d"),
    (.put 1 { data := [0x3F800000], payload := none } 3,
      "\x7b\"Put\":\x7b\"id\":1,\"vector\":\x7b\"data\":[1.0]\x7d,\"timestamp\":3\x7d\x7d"),
    (.put 2 { data := [0x3F800000], payload := none } 1,
      "\x7b\"Put\":\x7b\"id\":2,\"vector\":\x7b\"data\":[1.0]\x7d,\"timestamp\":1\x7d\x7d") ]

/-- The metadata of a flushed table with one entry, and its JSON. -/
def sampleMeta : SSTableMeta :=
  { version := 1, dimension := 0, entryCount := 1, minId := 1, maxId := 1, compression := .none,
    blockSize := 4096, level := 0 }

def sampleMetaText : String :=
  "\x7b\"version\":1,\"dimension\":0,\"entry_count\":1,\"min_id\":1,\"max_id\":1," ++
    "\"compression\":\"None\",\"block_size\":4096,\"level\":0\x7d"

/-- `serde_json` on the samples; the only payload is the empty map. -/
def sampleCodec : Codec Unit where
  toVec r :=
    match sampleTexts.find? fun sample => sample.1 = r with
    | some sample => .ok (ascii sample.2)
    | none => .error "not a sample"
  fromSlice bytes :=
    match sampleTexts.find? fun sample => ascii sample.2 = bytes with
    | some sample => .ok sample.1
    | none => .error "not a sample"
  payloadToVec _ := ascii "\x7b\x7d"
  payloadFromSlice bytes :=
    if bytes = ascii "\x7b\x7d" then .ok (some ()) else .error "not a sample"
  metaToVec m := if m = sampleMeta then ascii sampleMetaText else []
  metaFromSlice bytes :=
    if bytes = ascii sampleMetaText then .ok sampleMeta else .error "not a sample"

theorem sampleTexts_injective :
    ∀ p ∈ sampleTexts, ∀ q ∈ sampleTexts, ascii p.2 = ascii q.2 → p.1 = q.1 := by
  decide +kernel

theorem sampleCodec_back {r r' : Record Unit} {bytes : List UInt8}
    (hto : sampleCodec.toVec r = .ok bytes) (hfrom : sampleCodec.fromSlice bytes = .ok r') :
    r' = r := by
  simp only [sampleCodec] at hto hfrom
  split at hto
  · rename_i p hp
    split at hfrom
    · rename_i q hq
      have hr : p.1 = r := by simpa using List.find?_some hp
      have hbytes : ascii q.2 = bytes := by simpa using List.find?_some hq
      have heq := sampleTexts_injective p (List.mem_of_find?_eq_some hp) q
        (List.mem_of_find?_eq_some hq) ((Except.ok.inj hto).trans hbytes.symm)
      rw [← Except.ok.inj hfrom, ← heq, hr]
    · exact absurd hfrom (by simp)
  · exact absurd hto (by simp)

theorem sampleCodec_lawful : sampleCodec.Lawful where
  id_eq r bytes r' hto hfrom := by rw [sampleCodec_back hto hfrom]
  kind_eq r bytes r' hto hfrom := by rw [sampleCodec_back hto hfrom]
  empty r hfrom := by
    have hempty : sampleCodec.fromSlice [] = .error "not a sample" := by decide +kernel
    exact absurd (hempty.symm.trans hfrom) (by simp)

/-- The JSON of table metadata; nothing here writes another kind of
compression. -/
def metaText (m : SSTableMeta) : String :=
  "\x7b\"version\":" ++ toString m.version ++ ",\"dimension\":" ++ toString m.dimension ++
    ",\"entry_count\":" ++ toString m.entryCount ++ ",\"min_id\":" ++ toString m.minId ++
    ",\"max_id\":" ++ toString m.maxId ++ ",\"compression\":\"None\",\"block_size\":" ++
    toString m.blockSize ++ ",\"level\":" ++ toString m.level ++ "\x7d"

/-- The codec of the samples, with the metadata of more tables. -/
def sampleCodecWith (metas : List SSTableMeta) : Codec Unit :=
  { sampleCodec with
    metaToVec := fun m => ascii (metaText m)
    metaFromSlice := fun bytes =>
      match metas.find? fun m => ascii (metaText m) = bytes with
      | some m => .ok m
      | none => .error "not a sample" }

/-- Arithmetic of `usize` and `u64`. -/
def wrappingAdd (a b : Nat) : Nat := (a + b) % 2 ^ 64

def wrappingSub (a b : Nat) : Nat := (a + (2 ^ 64 - b % 2 ^ 64)) % 2 ^ 64

theorem wrappingAdd_eq {a b : Nat} (hfits : a + b < 2 ^ 64) : wrappingAdd a b = a + b :=
  Nat.mod_eq_of_lt hfits

theorem wrappingSub_eq {a b : Nat} (hle : b ≤ a) (hfits : a < 2 ^ 64) : wrappingSub a b = a - b := by
  unfold wrappingSub
  omega

/-- `Vec::with_capacity` comes back: the elements, of so many bytes each, are at most `isize::MAX`
bytes.  It panics for more. -/
def VecFits (size capacity : Nat) : Prop := capacity * size < 2 ^ 63

instance (size capacity : Nat) : Decidable (VecFits size capacity) :=
  inferInstanceAs (Decidable (_ < _))

/-- `HashSet::with_capacity` comes back, for references.  The table has a power of two of buckets, an
eighth of them to spare, at 9 bytes each: `isize::MAX` bytes hold 2^59 of them. -/
def HashSetFits (capacity : Nat) : Prop := capacity * 8 / 7 ≤ 2 ^ 59

instance (capacity : Nat) : Decidable (HashSetFits capacity) := inferInstanceAs (Decidable (_ ≤ _))

end Storage
end RTDB
