import Mathlib.Data.Finset.Basic
import Mathlib.Data.List.AList
import Mathlib.Data.List.Infix
import RTDB.Storage.Types

/-!
# The metadata index

Filter conditions and the inverted index of `index/hybrid_search.rs`.  Metadata and the maps
of the index are association lists without repeated keys; `F` is `f64` with its comparisons,
and `parse` is `str::parse::<f64>`.
-/

namespace RTDB
namespace Index

open Storage (VectorId)

variable {F : Type}

abbrev Metadata := AList fun _ : String => String

inductive FilterCondition (F : Type) where
  | eq (field value : String)
  | ne (field value : String)
  | gt (field : String) (value : F)
  | gte (field : String) (value : F)
  | lt (field : String) (value : F)
  | lte (field : String) (value : F)
  | inValues (field : String) (values : List String)
  | contains (field value : String)
  | and (left right : FilterCondition F)
  | or (left right : FilterCondition F)
  | not (condition : FilterCondition F)
  deriving DecidableEq, Repr

namespace FilterCondition

def compare (parse : String → Option F) (metadata : Metadata) (field : String) (test : F → Bool) :
    Bool :=
  ((metadata.lookup field).bind parse).any test

def evaluate [LT F] [LE F] [DecidableLT F] [DecidableLE F] (parse : String → Option F)
    (metadata : Metadata) : FilterCondition F → Bool
  | .eq field value => (metadata.lookup field).any fun v => v == value
  | .ne field value => (metadata.lookup field).all fun v => v != value
  | .gt field value => compare parse metadata field fun v => v > value
  | .gte field value => compare parse metadata field fun v => v ≥ value
  | .lt field value => compare parse metadata field fun v => v < value
  | .lte field value => compare parse metadata field fun v => v ≤ value
  | .inValues field values => (metadata.lookup field).any fun v => values.contains v
  | .contains field value => (metadata.lookup field).any fun v => value.toList <:+: v.toList
  | .and left right => left.evaluate parse metadata && right.evaluate parse metadata
  | .or left right => left.evaluate parse metadata || right.evaluate parse metadata
  | .not condition => !condition.evaluate parse metadata

/-- The condition with all that the index does not answer read as false. -/
def indexed (metadata : Metadata) : FilterCondition F → Bool
  | .eq field value => (metadata.lookup field).any fun v => v == value
  | .inValues field values => (metadata.lookup field).any fun v => values.contains v
  | .and left right => left.indexed metadata && right.indexed metadata
  | .or left right => left.indexed metadata || right.indexed metadata
  | _ => false

variable [LT F] [LE F] [DecidableLT F] [DecidableLE F] {parse : String → Option F}
  {metadata : Metadata}

/-- A condition that holds by what the index answers holds. -/
theorem evaluate_of_indexed (filter : FilterCondition F) (h : filter.indexed metadata = true) :
    filter.evaluate parse metadata = true := by
  induction filter with
  | eq field value => exact h
  | inValues field values => exact h
  | and left right ihl ihr =>
    obtain ⟨hleft, hright⟩ := (Bool.and_eq_true _ _).mp h
    rw [evaluate, ihl hleft, ihr hright, Bool.and_true]
  | or left right ihl ihr =>
    rw [evaluate, Bool.or_eq_true]
    exact ((Bool.or_eq_true _ _).mp h).imp ihl ihr
  | _ => exact absurd h Bool.false_ne_true

end FilterCondition

/-- Field name to value to the ids of the vectors; and how often a field was indexed. -/
structure MetadataIndex where
  indexes : AList fun _ : String => AList fun _ : String => Finset VectorId
  fieldCounts : AList fun _ : String => Nat

namespace MetadataIndex

def new : MetadataIndex := { indexes := ∅, fieldCounts := ∅ }

/-- One turn of the loop of `index`. -/
def indexEntry (id : VectorId) (m : MetadataIndex) (field value : String) : MetadataIndex :=
  let fieldIndex := (m.indexes.lookup field).getD ∅
  { indexes :=
      m.indexes.insert field (fieldIndex.insert value (insert id ((fieldIndex.lookup value).getD ∅)))
    fieldCounts := m.fieldCounts.insert field ((m.fieldCounts.lookup field).getD 0 + 1) }

def index (m : MetadataIndex) (id : VectorId) (metadata : Metadata) : MetadataIndex :=
  metadata.entries.foldl (fun m entry => m.indexEntry id entry.1 entry.2) m

def removeEntry (id : VectorId) (m : MetadataIndex) (field value : String) : MetadataIndex :=
  match m.indexes.lookup field with
  | none => m
  | some fieldIndex =>
    match fieldIndex.lookup value with
    | none => m
    | some ids => { m with indexes := m.indexes.insert field (fieldIndex.insert value (ids.erase id)) }

def remove (m : MetadataIndex) (id : VectorId) (metadata : Metadata) : MetadataIndex :=
  metadata.entries.foldl (fun m entry => m.removeEntry id entry.1 entry.2) m

def getMatchingIds (m : MetadataIndex) : FilterCondition F → Option (Finset VectorId)
  | .eq field value => (m.indexes.lookup field).bind fun fieldIndex => fieldIndex.lookup value
  | .inValues field values =>
    (m.indexes.lookup field).map fun fieldIndex =>
      values.foldl (fun result value => result ∪ (fieldIndex.lookup value).getD ∅) ∅
  | .and left right =>
    (m.getMatchingIds left).bind fun leftIds =>
      (m.getMatchingIds right).map fun rightIds => leftIds ∩ rightIds
  | .or left right => some ((m.getMatchingIds left).getD ∅ ∪ (m.getMatchingIds right).getD ∅)
  | _ => none

def idsOf (m : MetadataIndex) (field value : String) : Finset VectorId :=
  ((m.indexes.lookup field).bind fun fieldIndex => fieldIndex.lookup value).getD ∅

end MetadataIndex

/-! ## The entries -/

variable {m : MetadataIndex} {id id' : VectorId} {field value f v : String} {metadata : Metadata}

namespace MetadataIndex

/-- The values of a field the index knows. -/
theorem idsOf_eq : m.idsOf field value =
    ((((m.indexes.lookup field).getD ∅).lookup value).getD ∅ : Finset VectorId) := by
  rw [idsOf]
  cases m.indexes.lookup field <;> rfl

theorem idsOf_insert {counts : AList fun _ : String => Nat} {ids : Finset VectorId} :
    ({ indexes := m.indexes.insert field (((m.indexes.lookup field).getD ∅).insert value ids)
       fieldCounts := counts } : MetadataIndex).idsOf f v =
      if f = field ∧ v = value then ids else m.idsOf f v := by
  by_cases hfield : f = field
  · subst hfield
    by_cases hvalue : v = value
    · subst hvalue
      simp [idsOf]
    · simp [idsOf_eq, hvalue]
  · simp [idsOf, hfield]

theorem mem_indexEntry : id' ∈ (m.indexEntry id field value).idsOf f v ↔
    id' ∈ m.idsOf f v ∨ (id' = id ∧ f = field ∧ v = value) := by
  rw [indexEntry, idsOf_insert]
  split
  case isTrue heq =>
    obtain ⟨rfl, rfl⟩ := heq
    rw [Finset.mem_insert, idsOf_eq]
    simp [or_comm]
  case isFalse hne => simp [hne]

theorem mem_of_idsOf_empty (hempty : m.idsOf field value = ∅) :
    id' ∈ m.idsOf f v ↔ id' ∈ m.idsOf f v ∧ ¬(id' = id ∧ f = field ∧ v = value) := by
  constructor
  · intro hmem
    refine ⟨hmem, ?_⟩
    rintro ⟨-, rfl, rfl⟩
    rw [hempty] at hmem
    exact absurd hmem (Finset.notMem_empty id')
  · exact And.left

theorem mem_removeEntry : id' ∈ (m.removeEntry id field value).idsOf f v ↔
    id' ∈ m.idsOf f v ∧ ¬(id' = id ∧ f = field ∧ v = value) := by
  rw [removeEntry]
  cases hfield : m.indexes.lookup field with
  | none =>
    have hempty : m.idsOf field value = ∅ := by
      rw [idsOf, hfield]
      rfl
    exact mem_of_idsOf_empty hempty
  | some fieldIndex =>
    dsimp only
    cases hvalue : fieldIndex.lookup value with
    | none =>
      have hempty : m.idsOf field value = ∅ := by
        rw [idsOf, hfield, Option.bind_some, hvalue]
        rfl
      exact mem_of_idsOf_empty hempty
    | some ids =>
      have hids : m.idsOf field value = ids := by
        rw [idsOf, hfield, Option.bind_some, hvalue]
        rfl
      have hdefault : fieldIndex = (m.indexes.lookup field).getD ∅ := by
        rw [hfield]
        rfl
      rw [hdefault, idsOf_insert]
      split
      case isTrue heq =>
        obtain ⟨rfl, rfl⟩ := heq
        rw [Finset.mem_erase, hids]
        simp [and_comm]
      case isFalse hne => simp [hne]

theorem mem_entries : ⟨f, v⟩ ∈ metadata.entries ↔ metadata.lookup f = some v :=
  AList.mem_lookup_iff.symm

theorem mem_index : id' ∈ (m.index id metadata).idsOf f v ↔
    id' ∈ m.idsOf f v ∨ (id' = id ∧ metadata.lookup f = some v) := by
  have hloop : ∀ (entries : List (Sigma fun _ : String => String)) (m : MetadataIndex),
      id' ∈ (entries.foldl (fun m entry => m.indexEntry id entry.1 entry.2) m).idsOf f v ↔
        id' ∈ m.idsOf f v ∨ (id' = id ∧ ⟨f, v⟩ ∈ entries) := by
    intro entries
    induction entries with
    | nil => simp
    | cons entry rest ih =>
      intro m
      obtain ⟨field, value⟩ := entry
      rw [List.foldl_cons, ih, mem_indexEntry, List.mem_cons, Sigma.mk.injEq, heq_eq_eq, or_assoc,
        ← and_or_left]
  rw [index, hloop, mem_entries]

theorem mem_remove : id' ∈ (m.remove id metadata).idsOf f v ↔
    id' ∈ m.idsOf f v ∧ ¬(id' = id ∧ metadata.lookup f = some v) := by
  have hloop : ∀ (entries : List (Sigma fun _ : String => String)) (m : MetadataIndex),
      id' ∈ (entries.foldl (fun m entry => m.removeEntry id entry.1 entry.2) m).idsOf f v ↔
        id' ∈ m.idsOf f v ∧ ¬(id' = id ∧ ⟨f, v⟩ ∈ entries) := by
    intro entries
    induction entries with
    | nil => simp
    | cons entry rest ih =>
      intro m
      obtain ⟨field, value⟩ := entry
      rw [List.foldl_cons, ih, mem_removeEntry, List.mem_cons, Sigma.mk.injEq, heq_eq_eq, and_assoc,
        ← not_or, ← and_or_left]
  rw [remove, hloop, mem_entries]

/-! ## The answer -/

def Finds (m : MetadataIndex) (id : VectorId) : FilterCondition F → Prop
  | .eq field value => id ∈ m.idsOf field value
  | .inValues field values => ∃ value ∈ values, id ∈ m.idsOf field value
  | .and left right => m.Finds id left ∧ m.Finds id right
  | .or left right => m.Finds id left ∨ m.Finds id right
  | _ => False

theorem mem_union {fieldIndex : AList fun _ : String => Finset VectorId} {values : List String} :
    id ∈ values.foldl (fun result value => result ∪ (fieldIndex.lookup value).getD ∅) ∅ ↔
      ∃ value ∈ values, id ∈ (fieldIndex.lookup value).getD ∅ := by
  have hloop : ∀ result : Finset VectorId,
      id ∈ values.foldl (fun result value => result ∪ (fieldIndex.lookup value).getD ∅) result ↔
        id ∈ result ∨ ∃ value ∈ values, id ∈ (fieldIndex.lookup value).getD ∅ := by
    induction values with
    | nil => simp
    | cons value values ih =>
      intro result
      rw [List.foldl_cons, ih, Finset.mem_union, or_assoc, List.exists_mem_cons_iff]
  rw [hloop]
  simp

/-- What `get_matching_ids` answers is what the index finds, and it finds nothing where it does
not answer. -/
theorem mem_getMatchingIds (m : MetadataIndex) (id : VectorId) (filter : FilterCondition F) :
    id ∈ (m.getMatchingIds filter).getD ∅ ↔ m.Finds id filter := by
  induction filter with
  | eq field value => exact Iff.rfl
  | inValues field values =>
    rw [getMatchingIds, Finds]
    cases hfield : m.indexes.lookup field with
    | none => simp [idsOf, hfield]
    | some fieldIndex =>
      simp only [Option.map_some, Option.getD_some, mem_union, idsOf, hfield, Option.bind_some]
  | and left right ihl ihr =>
    rw [Finds, ← ihl, ← ihr, getMatchingIds]
    cases m.getMatchingIds left <;> cases m.getMatchingIds right <;> simp
  | or left right ihl ihr =>
    rw [Finds, ← ihl, ← ihr, getMatchingIds, Option.getD_some, Finset.mem_union]
  | _ => simp [getMatchingIds, Finds]

/-! ## An index in step -/

/-- The index has the ids of the vectors with the value in the field, and no others. -/
def InStep (m : MetadataIndex) (current : VectorId → Option Metadata) : Prop :=
  ∀ id field value, id ∈ m.idsOf field value ↔
    ∃ metadata, current id = some metadata ∧ metadata.lookup field = some value

variable {current : VectorId → Option Metadata}

theorem InStep.finds_iff (hstep : m.InStep current) (filter : FilterCondition F) :
    m.Finds id filter ↔ ∃ metadata, current id = some metadata ∧ filter.indexed metadata = true := by
  cases hcurrent : current id with
  | none =>
    have hnone : ∀ field value, id ∉ m.idsOf field value := by
      intro field value hmem
      obtain ⟨metadata, hsome, -⟩ := (hstep id field value).mp hmem
      rw [hcurrent] at hsome
      exact absurd hsome (by simp)
    have hfinds : ¬m.Finds id filter := by
      induction filter with
      | eq field value => exact hnone field value
      | inValues field values =>
        rintro ⟨value, -, hmem⟩
        exact hnone field value hmem
      | and left right ihl ihr => exact fun hboth => ihl hboth.1
      | or left right ihl ihr => exact fun heither => heither.elim ihl ihr
      | _ => exact fun hfalse => hfalse
    simp [hfinds]
  | some metadata =>
    have hids : ∀ field value, id ∈ m.idsOf field value ↔ metadata.lookup field = some value := by
      intro field value
      rw [hstep id field value, hcurrent]
      simp
    have hfinds : m.Finds id filter ↔ filter.indexed metadata = true := by
      induction filter with
      | eq field value =>
        rw [Finds, hids, FilterCondition.indexed]
        cases metadata.lookup field <;> simp
      | inValues field values =>
        simp only [Finds, hids, FilterCondition.indexed]
        cases metadata.lookup field <;> simp
      | and left right ihl ihr => rw [Finds, ihl, ihr, FilterCondition.indexed, Bool.and_eq_true]
      | or left right ihl ihr => rw [Finds, ihl, ihr, FilterCondition.indexed, Bool.or_eq_true]
      | _ => simp [Finds, FilterCondition.indexed]
    simp [hfinds]

theorem inStep_new : new.InStep fun _ => none := by
  intro id field value
  simp [new, idsOf]

/-- Indexing keeps the index in step where nothing that it has of the id is lost. -/
theorem InStep.index (hstep : m.InStep current)
    (hkeep : ∀ old, current id = some old →
      ∀ field value, old.lookup field = some value → metadata.lookup field = some value) :
    (m.index id metadata).InStep (Function.update current id (some metadata)) := by
  intro id' field value
  rw [mem_index, hstep]
  by_cases hid : id' = id
  · subst hid
    rw [Function.update_self]
    constructor
    · rintro (⟨old, hold, hvalue⟩ | ⟨-, hvalue⟩)
      · exact ⟨metadata, rfl, hkeep old hold field value hvalue⟩
      · exact ⟨metadata, rfl, hvalue⟩
    · rintro ⟨metadata', hmetadata, hvalue⟩
      obtain rfl := Option.some.inj hmetadata
      exact Or.inr ⟨rfl, hvalue⟩
  · rw [Function.update_of_ne hid]
    simp [hid]

theorem InStep.remove (hstep : m.InStep current)
    (hsame : ∀ old, current id = some old → old = metadata) :
    (m.remove id metadata).InStep (Function.update current id none) := by
  intro id' field value
  rw [mem_remove, hstep]
  by_cases hid : id' = id
  · subst hid
    rw [Function.update_self]
    constructor
    · rintro ⟨⟨old, hold, hvalue⟩, hnot⟩
      rw [hsame old hold] at hvalue
      exact absurd ⟨rfl, hvalue⟩ hnot
    · rintro ⟨_, hnone, -⟩
      exact absurd hnone (by simp)
  · rw [Function.update_of_ne hid]
    simp [hid]

end MetadataIndex

end Index
end RTDB
