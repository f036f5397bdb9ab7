import Mathlib.Data.List.Induction
import RTDB.Lib.Weights
import RTDB.Storage.MemTable

/-!
# Size accounting of the memtable

A run of `put` and `delete` against the map of the last call under each id, and
the counter of the table against what its entries weigh.
-/

namespace RTDB
namespace Storage

open Weights

variable {P : Type}

inductive MemTableCall (P : Type) where
  | put (id : VectorId) (vector : Vector P)
  | delete (id : VectorId)
  deriving DecidableEq, Repr

namespace MemTableCall

def id : MemTableCall P → VectorId
  | .put id _ => id
  | .delete id => id

/-- The entry a call is to leave. -/
def entry : MemTableCall P → MemTableEntry P
  | .put _ vector => .put vector
  | .delete _ => .delete

end MemTableCall

namespace MemTable

variable (codec : Codec P)

def apply (m : MemTable P) : MemTableCall P → MemTable P × Except RTDBError Unit
  | .put id vector => m.put codec id vector
  | .delete id => (m.delete codec id, .ok ())

def run (sizeThreshold : Nat) (calls : List (MemTableCall P)) : MemTable P :=
  calls.foldl (fun m call => (m.apply codec call).1) (new sizeThreshold)

def entrySize : MemTableEntry P → Nat
  | .put vector => estimateEntrySize codec vector
  | .delete => estimateTombstoneSize

/-- What `fetch_sub` takes off the counter: nothing for a tombstone. -/
def taken (m : MemTable P) (id : VectorId) : Nat :=
  match m.entries[id]? with
  | some (.put old) => estimateEntrySize codec old
  | _ => 0

def latest (calls : List (MemTableCall P)) : Std.TreeMap VectorId (MemTableEntry P) :=
  calls.foldl (fun m call => m.insert call.id call.entry) ∅

def lastEntry (calls : List (MemTableCall P)) (id : VectorId) : Option (MemTableEntry P) :=
  (calls.reverse.find? fun call => call.id = id).map MemTableCall.entry

/-- Each call of a run succeeds and takes no more off the counter than it holds; behind it each id
has the entry of its last call, and the counter shows what the entries weigh. -/
def Accounts (sizeThreshold : Nat) (calls : List (MemTableCall P)) : Prop :=
  ∀ before call after, calls = before ++ call :: after →
    ((run codec sizeThreshold before).apply codec call).2 = .ok () ∧
      taken codec (run codec sizeThreshold before) call.id ≤
        (run codec sizeThreshold before).size ∧
      (∀ id, (run codec sizeThreshold (before ++ [call])).get id =
        lastEntry (before ++ [call]) id) ∧
      (run codec sizeThreshold (before ++ [call])).size =
        total (entrySize codec) (run codec sizeThreshold (before ++ [call])).entries

/-! ## The map of the last calls -/

theorem lastEntry_concat (calls : List (MemTableCall P)) (call : MemTableCall P) (id : VectorId) :
    lastEntry (calls ++ [call]) id =
      if call.id = id then some call.entry else lastEntry calls id := by
  rw [lastEntry, List.reverse_append, List.reverse_singleton, List.singleton_append,
    List.find?_cons]
  by_cases hid : call.id = id
  · simp [hid]
  · simp [hid, lastEntry]

theorem getElem?_latest (calls : List (MemTableCall P)) (id : VectorId) :
    (latest calls)[id]? = lastEntry calls id := by
  induction calls using List.reverseRecOn with
  | nil => exact Std.TreeMap.getElem?_emptyc
  | append_singleton calls call ih =>
    rw [lastEntry_concat, ← ih, latest, List.foldl_append]
    show ((latest calls).insert call.id call.entry)[id]? = _
    rw [Std.TreeMap.getElem?_insert]
    simp only [Nat.compare_eq_eq]

/-! ## One call -/

theorem run_concat (sizeThreshold : Nat) (calls : List (MemTableCall P)) (call : MemTableCall P) :
    run codec sizeThreshold (calls ++ [call]) =
      ((run codec sizeThreshold calls).apply codec call).1 := by
  rw [run, List.foldl_append]
  rfl

/-- Where the id has no tombstone the call puts its entry in, and moves the counter by the weights
of the entries it exchanges. -/
theorem apply_of_no_tombstone {m : MemTable P} {call : MemTableCall P}
    (hget : m.get call.id ≠ some .delete) :
    (m.apply codec call).2 = .ok () ∧
      (∀ id, (m.apply codec call).1.get id =
        if call.id = id then some call.entry else m.get id) ∧
      (m.apply codec call).1.size =
        wrappingAdd (wrappingSub m.size (taken codec m call.id)) (entrySize codec call.entry) := by
  cases call with
  | put id vector =>
    have hget : m.get id ≠ some .delete := hget
    obtain ⟨m', hput, hm'⟩ := put_accepted codec vector hget
    refine ⟨?_, fun id' => ?_, ?_⟩
    · show (m.put codec id vector).2 = .ok ()
      rw [hput]
    · show (m.put codec id vector).1.get id' = _
      rw [hput]
      exact hm' id'
    · show (m.put codec id vector).1.size = _
      rw [put, taken, MemTableCall.id]
      rw [get] at hget
      cases hold : m.entries[id]? with
      | none =>
        show wrappingAdd m.size _ = wrappingAdd (wrappingSub m.size 0) _
        rw [wrappingAdd, wrappingAdd, wrappingSub]
        show (m.size + estimateEntrySize codec vector) % 2 ^ 64 =
          ((m.size + (2 ^ 64 - 0 % 2 ^ 64)) % 2 ^ 64 + estimateEntrySize codec vector) % 2 ^ 64
        omega
      | some entry =>
        cases entry with
        | put old => rfl
        | delete => exact absurd hold hget
  | delete id =>
    refine ⟨rfl, fun id' => get_delete codec m id id', ?_⟩
    show (m.delete codec id).size = _
    rw [delete, taken, MemTableCall.id]
    cases hold : m.entries[id]? with
    | none => rfl
    | some entry => cases entry <;> rfl

/-- Over a tombstone a put fails, and a delete adds a second tombstone's weight. -/
theorem apply_of_tombstone {m : MemTable P} {call : MemTableCall P}
    (hget : m.get call.id = some .delete) :
    (m.apply codec call).2 ≠ .ok () ∨
      (∀ id, (m.apply codec call).1.get id = m.get id) ∧
        (m.apply codec call).1.size = wrappingAdd (wrappingSub m.size 0) estimateTombstoneSize := by
  cases call with
  | put id vector =>
    left
    have hget : m.get id = some .delete := hget
    show (m.put codec id vector).2 ≠ .ok ()
    rw [put_refused codec vector hget]
    exact fun herr => absurd herr (by simp)
  | delete id =>
    right
    rw [MemTableCall.id] at hget
    refine ⟨fun id' => ?_, ?_⟩
    · show (m.delete codec id).get id' = _
      rw [get_delete]
      by_cases hid : id = id'
      · rw [if_pos hid, ← hid, hget]
      · rw [if_neg hid]
    · rw [get] at hget
      show (m.delete codec id).size = _
      rw [delete, hget]

/-! ## A run -/

/-- The table has the entries of the last calls, and the counter shows what they weigh. -/
def Exact (m : MemTable P) (calls : List (MemTableCall P)) : Prop :=
  (∀ id, m.get id = lastEntry calls id) ∧ m.size = total (entrySize codec) m.entries

variable {codec}

theorem total_of_exact {m : MemTable P} {calls : List (MemTableCall P)} (hm : Exact codec m calls) :
    total (entrySize codec) m.entries = total (entrySize codec) (latest calls) := by
  refine total_congr fun id => ?_
  rw [getElem?_latest]
  exact hm.1 id

theorem taken_eq_under {m : MemTable P} {id : VectorId} (hget : m.get id ≠ some .delete) :
    taken codec m id = under (entrySize codec) m.entries id := by
  rw [get] at hget
  rw [taken, under]
  cases hold : m.entries[id]? with
  | none => rfl
  | some entry =>
    cases entry with
    | put old => rfl
    | delete => exact absurd hold hget

/-- What one more call does to the weight of the last entries. -/
theorem total_latest_concat {m : MemTable P} {calls : List (MemTableCall P)}
    (hm : Exact codec m calls) (call : MemTableCall P) :
    total (entrySize codec) (latest (calls ++ [call])) + under (entrySize codec) m.entries call.id =
      m.size + entrySize codec call.entry := by
  have hunder : under (entrySize codec) m.entries call.id =
      under (entrySize codec) (latest calls) call.id := by
    rw [under, under, getElem?_latest, ← hm.1]
    rfl
  rw [hunder, hm.2, total_of_exact hm, latest, List.foldl_append]
  exact total_insert (latest calls) call.id call.entry

/-- A call keeps the accounts exactly where it finds no tombstone and the weight still fits. -/
theorem exact_step_iff {m : MemTable P} {calls : List (MemTableCall P)} (hm : Exact codec m calls)
    (call : MemTableCall P) :
    ((m.apply codec call).2 = .ok () ∧ taken codec m call.id ≤ m.size ∧
      Exact codec (m.apply codec call).1 (calls ++ [call])) ↔
    lastEntry calls call.id ≠ some .delete ∧
      total (entrySize codec) (latest (calls ++ [call])) < 2 ^ 64 := by
  have htotal := total_latest_concat hm call
  have hle : under (entrySize codec) m.entries call.id ≤ m.size := by
    rw [hm.2]
    exact under_le m.entries call.id
  rw [← hm.1 call.id]
  by_cases htomb : m.get call.id = some .delete
  · refine iff_of_false ?_ fun hcond => hcond.1 htomb
    rintro ⟨hok, -, hexact⟩
    rcases apply_of_tombstone codec htomb with herr | ⟨hsame, hsize⟩
    · exact herr hok
    · have hweight : total (entrySize codec) (m.apply codec call).1.entries = m.size := by
        rw [hm.2]
        exact total_congr hsame
      rw [hexact.2, hweight, wrappingAdd, wrappingSub, estimateTombstoneSize] at hsize
      omega
  · obtain ⟨hok, hget, hsize⟩ := apply_of_no_tombstone codec htomb
    have hentries : ∀ id, (m.apply codec call).1.get id = lastEntry (calls ++ [call]) id := by
      intro id
      rw [hget, lastEntry_concat, hm.1]
    have hweight : total (entrySize codec) (m.apply codec call).1.entries =
        total (entrySize codec) (latest (calls ++ [call])) := by
      refine total_congr fun id => ?_
      rw [getElem?_latest]
      exact hentries id
    rw [taken_eq_under htomb] at hsize ⊢
    constructor
    · rintro ⟨-, -, hexact⟩
      refine ⟨htomb, ?_⟩
      rw [← hweight, ← hexact.2, hsize, wrappingAdd]
      exact Nat.mod_lt _ (by decide)
    · rintro ⟨-, hfits⟩
      refine ⟨hok, hle, hentries, ?_⟩
      rw [hweight, hsize, wrappingAdd, wrappingSub]
      omega

theorem exact_nil (sizeThreshold : Nat) : Exact codec (new sizeThreshold) [] :=
  ⟨fun id => get_new sizeThreshold id, rfl⟩

/-- A run of the table is a last-writer-wins map with exact size accounting exactly when no call
hits a tombstone and what the last entries weigh always fits the counter. -/
theorem accounts_iff (sizeThreshold : Nat) (calls : List (MemTableCall P)) :
    Accounts codec sizeThreshold calls ↔
      ∀ before call after, calls = before ++ call :: after →
        lastEntry before call.id ≠ some .delete ∧
          total (entrySize codec) (latest (before ++ [call])) < 2 ^ 64 := by
  constructor
  · intro haccounts
    have hexact : ∀ before, before <+: calls →
        Exact codec (run codec sizeThreshold before) before := by
      rintro before ⟨after, rfl⟩
      rcases List.eq_nil_or_concat' before with rfl | ⟨front, call, rfl⟩
      · exact exact_nil sizeThreshold
      · exact (haccounts front call after (by rw [List.append_assoc]; rfl)).2.2
    intro before call after hcalls
    obtain ⟨hok, htaken, hbehind⟩ := haccounts before call after hcalls
    refine (exact_step_iff (hexact before ⟨call :: after, hcalls.symm⟩) call).mp
      ⟨hok, htaken, ?_⟩
    rw [← run_concat]
    exact hbehind
  · intro hcond
    have hexact : ∀ before, before <+: calls →
        Exact codec (run codec sizeThreshold before) before := by
      intro before
      induction before using List.reverseRecOn with
      | nil => exact fun _ => exact_nil sizeThreshold
      | append_singleton before call ih =>
        rintro ⟨after, hcalls⟩
        have hsplit : calls = before ++ call :: after := by
          rw [← hcalls, List.append_assoc]
          rfl
        rw [run_concat]
        exact ((exact_step_iff (ih ⟨call :: after, hsplit.symm⟩) call).mpr
          (hcond before call after hsplit)).2.2
    intro before call after hcalls
    have hstep := (exact_step_iff (hexact before ⟨call :: after, hcalls.symm⟩) call).mpr
      (hcond before call after hcalls)
    refine ⟨hstep.1, hstep.2.1, ?_⟩
    rw [run_concat]
    exact hstep.2.2

/-- A deletion, and a put of the same id: the put fails, and the id is gone. -/
theorem not_accounts_put :
    ¬ Accounts sampleCodec 1000 [.delete 1, .put 1 { data := [0x3F800000], payload := none }] := by
  intro haccounts
  have hput := (haccounts [.delete 1] (.put 1 _) [] rfl).1
  exact absurd hput (by decide)

end MemTable

end Storage
end RTDB
