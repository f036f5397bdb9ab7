import Mathlib.Data.List.Pairwise
import RTDB.Replication.ClockOrder
import RTDB.Replication.Convergence

/-!
# Merging conflicting operations

`merge_operations` takes one operation as the incoming one and the others as its conflicts.
The merged clock does not depend on which is which; the type is that of the incoming
operation, and so are the data, except that the latest wins over an incoming insert.
-/

namespace RTDB
namespace Replication

open VectorClock

variable {op op' : ReplicatedOperation} {ops conflicts : List ReplicatedOperation}

/-- Whichever operation comes in, and in whatever order the others are listed, the merge has one
type, one clock and one data; a delete wins, and the clock is at or past all clocks. -/
structure OrderIndependent (ops : List ReplicatedOperation) : Prop where
  same : ∀ op conflicts op' conflicts' id now id' now', (op :: conflicts).Perm ops →
    (op' :: conflicts').Perm ops →
      (mergeOperations id now op conflicts).operationType =
          (mergeOperations id' now' op' conflicts').operationType ∧
        (mergeOperations id now op conflicts).data = (mergeOperations id' now' op' conflicts').data ∧
        (mergeOperations id now op conflicts).vectorClock =
          (mergeOperations id' now' op' conflicts').vectorClock
  deleteWins : ∀ op conflicts id now, (op :: conflicts).Perm ops →
    (∃ d ∈ ops, d.operationType = .delete) →
      (mergeOperations id now op conflicts).operationType = .delete
  above : ∀ op conflicts id now, (op :: conflicts).Perm ops → ∀ o ∈ ops,
    o.vectorClock.AtMost (mergeOperations id now op conflicts).vectorClock

/-- An operation whose data a merge can have: of inserts, only those of the latest. -/
def Decides (ops : List ReplicatedOperation) (op : ReplicatedOperation) : Prop :=
  op.operationType = .insert → ∀ o ∈ ops, o.timestamp ≤ op.timestamp

/-- The operations have one type, and those that decide have one data. -/
def Agree (ops : List ReplicatedOperation) : Prop :=
  (∀ op ∈ ops, ∀ op' ∈ ops, op.operationType = op'.operationType) ∧
    ∀ op ∈ ops, ∀ op' ∈ ops, Decides ops op → Decides ops op' → op.data = op'.data

instance (ops : List ReplicatedOperation) (op : ReplicatedOperation) : Decidable (Decides ops op) :=
  inferInstanceAs (Decidable (_ → ∀ o ∈ ops, _))

instance (ops : List ReplicatedOperation) : Decidable (Agree ops) :=
  inferInstanceAs (Decidable (_ ∧ _))

/-! ## The clock -/

/-- The least clock at or past those of the operations. -/
def joinClocks (ops : List ReplicatedOperation) (c : VectorClock) : VectorClock :=
  ops.foldl (fun clock o => clock.update o.vectorClock) c

theorem merged_clock (id now : Nat) (op : ReplicatedOperation)
    (conflicts : List ReplicatedOperation) :
    (mergeOperations id now op conflicts).vectorClock =
      joinClocks (op :: conflicts) VectorClock.new := by
  rw [joinClocks, List.foldl_cons, new_update]
  rfl

theorem joinClocks_perm {l l' : List ReplicatedOperation} (hperm : l.Perm l') (c : VectorClock) :
    joinClocks l c = joinClocks l' c := by
  refine hperm.foldl_eq' (fun o _ o' _ clock => ?_) c
  rw [update_assoc, update_assoc, update_comm o.vectorClock]

theorem le_joinClocks (l : List ReplicatedOperation) (c : VectorClock) :
    c.time ≤ (joinClocks l c).time ∧ ∀ o ∈ l, o.vectorClock.time ≤ (joinClocks l c).time := by
  induction l generalizing c with
  | nil => exact ⟨le_refl _, fun _ ho => absurd ho List.not_mem_nil⟩
  | cons o l ih =>
    obtain ⟨hstart, hrest⟩ := ih (c.update o.vectorClock)
    rw [time_update] at hstart
    refine ⟨le_sup_left.trans hstart, fun o' ho' => ?_⟩
    rcases List.mem_cons.mp ho' with rfl | ho'
    · exact le_sup_right.trans hstart
    · exact hrest o' ho'

/-! ## The data -/

theorem le_latest (op : ReplicatedOperation) (conflicts : List ReplicatedOperation) :
    ∀ o ∈ op :: conflicts, o.timestamp ≤ (latest op conflicts).timestamp := by
  induction conflicts generalizing op with
  | nil =>
    intro o ho
    rw [List.mem_singleton.mp ho]
    exact Nat.le_refl _
  | cons c conflicts ih =>
    have hstep : latest op (c :: conflicts) =
        latest (if op.timestamp < c.timestamp then c else op) conflicts := rfl
    have hfirst := ih (if op.timestamp < c.timestamp then c else op) _ List.mem_cons_self
    have hpair : op.timestamp ≤ (if op.timestamp < c.timestamp then c else op).timestamp ∧
        c.timestamp ≤ (if op.timestamp < c.timestamp then c else op).timestamp := by
      split <;> omega
    intro o ho
    rw [hstep]
    rcases List.mem_cons.mp ho with rfl | ho
    · omega
    · rcases List.mem_cons.mp ho with rfl | ho
      · omega
      · exact ih _ o (List.mem_cons_of_mem _ ho)

theorem latest_mem (op : ReplicatedOperation) (conflicts : List ReplicatedOperation) :
    latest op conflicts ∈ op :: conflicts := by
  rcases latest_cases op conflicts with heq | ⟨hmem, -⟩
  · rw [heq]
    exact List.mem_cons_self
  · exact List.mem_cons_of_mem op hmem

theorem mergeOperationData_of_ne (hinsert : op.operationType ≠ .insert)
    (conflicts : List ReplicatedOperation) : mergeOperationData op conflicts = op.data := by
  cases htype : op.operationType with
  | insert => exact absurd htype hinsert
  | update => simp only [mergeOperationData, htype]
  | delete => simp only [mergeOperationData, htype]
  | createCollection => simp only [mergeOperationData, htype]
  | deleteCollection => simp only [mergeOperationData, htype]

theorem mergeOperationData_of_insert (hinsert : op.operationType = .insert)
    (conflicts : List ReplicatedOperation) :
    mergeOperationData op conflicts = (latest op conflicts).data := by
  simp only [mergeOperationData, hinsert]

/-- An incoming operation that decides has its data merged. -/
theorem mergeOperationData_of_decides (hdecides : Decides ops op) (hperm : (op :: conflicts).Perm ops) :
    mergeOperationData op conflicts = op.data := by
  by_cases hinsert : op.operationType = .insert
  · rw [mergeOperationData_of_insert hinsert]
    rcases latest_cases op conflicts with heq | ⟨hmem, hlater⟩
    · rw [heq]
    · have hle := hdecides hinsert _ (hperm.mem_iff.mp (List.mem_cons_of_mem op hmem))
      omega
  · exact mergeOperationData_of_ne hinsert conflicts

theorem exists_decides (hperm : (op :: conflicts).Perm ops) :
    ∃ w ∈ ops, Decides ops w ∧ mergeOperationData op conflicts = w.data := by
  by_cases hinsert : op.operationType = .insert
  · refine ⟨latest op conflicts, hperm.mem_iff.mp (latest_mem op conflicts), fun _ o ho => ?_,
      mergeOperationData_of_insert hinsert conflicts⟩
    exact le_latest op conflicts o (hperm.mem_iff.mpr ho)
  · exact ⟨op, hperm.mem_iff.mp List.mem_cons_self, fun h => absurd h hinsert,
      mergeOperationData_of_ne hinsert conflicts⟩

/-! ## Order -/

theorem agree_of_orderIndependent (hindependent : OrderIndependent ops) : Agree ops := by
  have hmerge : ∀ o ∈ ops, (o :: ops.erase o).Perm ops := fun o ho => (List.perm_cons_erase ho).symm
  refine ⟨fun op hop op' hop' => ?_, fun op hop op' hop' hdecides hdecides' => ?_⟩
  · exact (hindependent.same _ _ _ _ 0 0 0 0 (hmerge op hop) (hmerge op' hop')).1
  · have hdata := (hindependent.same _ _ _ _ 0 0 0 0 (hmerge op hop) (hmerge op' hop')).2.1
    calc op.data = mergeOperationData op (ops.erase op) :=
          (mergeOperationData_of_decides hdecides (hmerge op hop)).symm
      _ = mergeOperationData op' (ops.erase op') := hdata
      _ = op'.data := mergeOperationData_of_decides hdecides' (hmerge op' hop')

theorem orderIndependent_of_agree (hagree : Agree ops) : OrderIndependent ops where
  same op conflicts op' conflicts' id now id' now' hperm hperm' := by
    refine ⟨?_, ?_, ?_⟩
    · exact hagree.1 op (hperm.mem_iff.mp List.mem_cons_self) op'
        (hperm'.mem_iff.mp List.mem_cons_self)
    · obtain ⟨w, hw, hdecides, hdata⟩ := exists_decides hperm
      obtain ⟨w', hw', hdecides', hdata'⟩ := exists_decides hperm'
      show mergeOperationData op conflicts = mergeOperationData op' conflicts'
      rw [hdata, hdata', hagree.2 w hw w' hw' hdecides hdecides']
    · rw [merged_clock, merged_clock, joinClocks_perm (hperm.trans hperm'.symm)]
  deleteWins op conflicts id now hperm := by
    rintro ⟨d, hd, hdelete⟩
    rw [← hdelete]
    exact hagree.1 op (hperm.mem_iff.mp List.mem_cons_self) d hd
  above op conflicts id now hperm o ho := by
    rw [merged_clock, atMost_iff]
    exact (le_joinClocks _ _).2 o (hperm.mem_iff.mpr ho)

/-- A merge does not depend on the order of the operations exactly when these have one type and,
of inserts the latest, one data. -/
theorem merge_order_independent_iff (ops : List ReplicatedOperation) :
    OrderIndependent ops ↔ Agree ops :=
  ⟨agree_of_orderIndependent, orderIndependent_of_agree⟩

/-- Operations that conflict as the replicator has it have the same data, so that it is their type
alone that counts. -/
theorem agree_iff_of_inConflict
    (hconflict : ops.Pairwise fun op existing => inConflict op existing = true) :
    Agree ops ↔ ∀ op ∈ ops, ∀ op' ∈ ops, op.operationType = op'.operationType := by
  refine and_iff_left fun op hop op' hop' _ _ => ?_
  have hdata : ops.Pairwise fun op existing => op.data = existing.data :=
    hconflict.imp fun h => inConflict_data h
  by_contra hne
  have hsymm : Std.Symm fun op existing : ReplicatedOperation => op.data = existing.data :=
    { symm := fun _ _ h => h.symm }
  exact hne (hdata.forall hop hop' fun heq => hne (congrArg _ heq))

def updateAndDelete : List ReplicatedOperation :=
  [((CrossRegionReplicator.new "a").replicateOperation 1 5 .update [1]).2,
    ((CrossRegionReplicator.new "b").replicateOperation 2 6 .delete [1]).2]

/-- They conflict, and an incoming update wins over the delete. -/
theorem not_merge_order_independent_delete :
    updateAndDelete.Pairwise (fun op existing => inConflict op existing = true) ∧
      ¬OrderIndependent updateAndDelete := by
  refine ⟨by decide, fun hindependent => ?_⟩
  exact absurd ((merge_order_independent_iff updateAndDelete).mp hindependent) (by decide)

end Replication
end RTDB
