import RTDB.Storage.Types

/-!
# The memtable

`storage/memtable.rs`.  The skip list is a tree map; `size` is an atomic counter
that wraps.
-/

namespace RTDB
namespace Storage

inductive MemTableEntry (P : Type) where
  | put (vector : Vector P)
  | delete
  deriving DecidableEq, Repr

structure MemTable (P : Type) where
  entries : Std.TreeMap VectorId (MemTableEntry P)
  size : Nat
  sizeThreshold : Nat

namespace MemTable

variable {P : Type}

def new (sizeThreshold : Nat) : MemTable P := { entries := ∅, size := 0, sizeThreshold }

/-- Id, components, payload text, and overhead. -/
def estimateEntrySize (codec : Codec P) (vector : Vector P) : Nat :=
  8 + vector.data.length * 4 + (vector.payload.elim 0 fun p => (codec.payloadToVec p).length) + 64

def estimateTombstoneSize : Nat := 8 + 1

/-- A tombstone is taken out and then refused: it is gone, and its size stays. -/
def put (codec : Codec P) (m : MemTable P) (id : VectorId) (vector : Vector P) :
    MemTable P × Except RTDBError Unit :=
  let entrySize := estimateEntrySize codec vector
  match m.entries[id]? with
  | none =>
    ({ m with
        entries := m.entries.insert id (.put vector)
        size := wrappingAdd m.size entrySize }, .ok ())
  | some (.put old) =>
    ({ m with
        entries := (m.entries.erase id).insert id (.put vector)
        size := wrappingAdd (wrappingSub m.size (estimateEntrySize codec old)) entrySize }, .ok ())
  | some .delete =>
    ({ m with entries := m.entries.erase id }, .error (.storage "Unexpected delete entry"))

def delete (codec : Codec P) (m : MemTable P) (id : VectorId) : MemTable P :=
  let oldSize :=
    match m.entries[id]? with
    | none => 0
    | some (.put v) => estimateEntrySize codec v
    | some .delete => 0
  { m with
    entries := (m.entries.erase id).insert id .delete
    size := wrappingAdd (wrappingSub m.size oldSize) estimateTombstoneSize }

def get (m : MemTable P) (id : VectorId) : Option (MemTableEntry P) := m.entries[id]?

def shouldFlush (m : MemTable P) : Bool := m.size ≥ m.sizeThreshold

def puts (m : MemTable P) : List (VectorId × Vector P) :=
  m.entries.toList.filterMap fun
    | (id, .put vector) => some (id, vector)
    | (_, .delete) => none

/-! ## What the operations leave under an id -/

@[simp] theorem get_new (sizeThreshold : Nat) (id : VectorId) :
    (new sizeThreshold : MemTable P).get id = none := by
  rw [get, new]
  exact Std.TreeMap.getElem?_emptyc

theorem put_refused (codec : Codec P) {m : MemTable P} {id : VectorId} (vector : Vector P)
    (hget : m.get id = some .delete) :
    m.put codec id vector =
      ({ m with entries := m.entries.erase id },
        .error (.storage "Unexpected delete entry")) := by
  rw [get] at hget
  rw [put, hget]

theorem get_erase (m : MemTable P) (id id' : VectorId) :
    ({ m with entries := m.entries.erase id } : MemTable P).get id' =
      if id = id' then none else m.get id' := by
  rw [get, get, Std.TreeMap.getElem?_erase]
  simp only [Nat.compare_eq_eq]

/-- A put succeeds where there is no tombstone. -/
theorem put_accepted (codec : Codec P) {m : MemTable P} {id : VectorId} (vector : Vector P)
    (hget : m.get id ≠ some .delete) :
    ∃ m', m.put codec id vector = (m', .ok ()) ∧
      ∀ id', m'.get id' = if id = id' then some (.put vector) else m.get id' := by
  rw [get] at hget
  rw [put]
  split
  · refine ⟨_, rfl, fun id' => ?_⟩
    rw [get, get, Std.TreeMap.getElem?_insert]
    simp only [Nat.compare_eq_eq]
  · refine ⟨_, rfl, fun id' => ?_⟩
    rw [get, get, Std.TreeMap.getElem?_insert, Std.TreeMap.getElem?_erase]
    simp only [Nat.compare_eq_eq]
    split <;> rfl
  · rename_i htomb
    exact absurd htomb hget

theorem get_delete (codec : Codec P) (m : MemTable P) (id id' : VectorId) :
    (m.delete codec id).get id' = if id = id' then some .delete else m.get id' := by
  rw [get, get, delete, Std.TreeMap.getElem?_insert, Std.TreeMap.getElem?_erase]
  simp only [Nat.compare_eq_eq]
  split <;> rfl

end MemTable

end Storage
end RTDB
