import RTDB.Replication.ClockOrder

/-!
# Operations that fail

A replicator takes over the clock of an incoming operation before it looks for conflicts,
and resolving these can fail.  The operation is then not logged, but the clock stays.
-/

namespace RTDB
namespace Replication

open CrossRegionReplicator

/-- A call on a replicator; ids and times are those that the operations or merges get. -/
inductive ReplicatorCall where
  | addRegion (config : RegionConfig)
  | replicate (id now : Nat) (operationType : OperationType) (data : List UInt8)
  | handle (id now : Nat) (op : ReplicatedOperation)

namespace CrossRegionReplicator

def call (s : CrossRegionReplicator) : ReplicatorCall → CrossRegionReplicator
  | .addRegion config => s.addRegion config
  | .replicate id now operationType data => (s.replicateOperation id now operationType data).1
  | .handle id now op => (s.handleReplicatedOperation id now op).1

def calls (s : CrossRegionReplicator) (l : List ReplicatorCall) : CrossRegionReplicator :=
  l.foldl call s

end CrossRegionReplicator

/-- An incoming operation that fails leaves clock and log as they were, and when it comes again,
whatever is called in between, all is as if it came for the first time. -/
def LeavesNoTrace (s : CrossRegionReplicator) (op : ReplicatedOperation) : Prop :=
  ∀ id now e, (s.handleReplicatedOperation id now op).2 = .error e →
    let s' := (s.handleReplicatedOperation id now op).1
    s'.vectorClock = s.vectorClock ∧ s'.operationLog = s.operationLog ∧
      ∀ (l : List ReplicatorCall) (id' now' : Nat),
        (s'.calls l).handleReplicatedOperation id' now' op =
          (s.calls l).handleReplicatedOperation id' now' op

/-- The local region has a strategy that can resolve the conflicts: one of its own, or a custom
resolver that is there and accepts them. -/
def CanResolve (s : CrossRegionReplicator) (op : ReplicatedOperation)
    (conflicts : List ReplicatedOperation) : Prop :=
  ∃ config ∈ s.regions s.localRegion, ∀ name, config.conflictResolution = .customResolver name →
    ∃ resolver ∈ s.customResolvers name, (resolver op conflicts).isOk = true

/-- The clock has a count for every entry of the operation's, no smaller. -/
def Known (s : CrossRegionReplicator) (op : ReplicatedOperation) : Prop :=
  ∀ e ∈ op.vectorClock.clocks.entries, ∃ v ∈ s.vectorClock.clocks.get? e.1, e.2 ≤ v

variable {s : CrossRegionReplicator} {op : ReplicatedOperation}

namespace VectorClock

theorem update_eq_self_iff {a b : VectorClock} :
    a.update b = a ↔ ∀ e ∈ b.clocks.entries, ∃ v ∈ a.clocks.get? e.1, e.2 ≤ v := by
  constructor
  · intro hsame e he
    have hget := get?_update a b e.1
    rw [hsame, SortedMap.get?_eq_some.mpr (show (e.1, e.2) ∈ b.clocks.entries from he)] at hget
    cases hown : a.clocks.get? e.1 with
    | none =>
      rw [hown] at hget
      exact absurd hget (by simp)
    | some v =>
      rw [hown, Option.merge_some_some, Option.some.injEq] at hget
      exact ⟨v, rfl, by omega⟩
  · intro hknown
    refine eq_of_get? fun n => ?_
    rw [get?_update]
    cases hother : b.clocks.get? n with
    | none => exact Option.merge_none_right
    | some w =>
      obtain ⟨v, hv, hle⟩ := hknown (n, w) (SortedMap.get?_eq_some.mp hother)
      replace hv : a.clocks.get? n = some v := hv
      replace hle : w ≤ v := hle
      rw [hv, Option.merge_some_some, Nat.max_eq_left hle]

end VectorClock

/-- The known entries are those that the update leaves alone. -/
theorem updateClock_eq_self_iff : s.updateClock op = s ↔ Known s op := by
  rw [Known, ← VectorClock.update_eq_self_iff]
  constructor
  · intro hsame
    exact congrArg CrossRegionReplicator.vectorClock hsame
  · intro hsame
    rw [updateClock, hsame]

theorem resolveConflicts_ok_iff (id now : Nat) (conflicts : List ReplicatedOperation) :
    (s.resolveConflicts id now op conflicts).isOk = true ↔ CanResolve s op conflicts := by
  rw [resolveConflicts, CanResolve]
  cases s.regions s.localRegion with
  | none => simp [Except.isOk, Except.toBool]
  | some config =>
    cases hresolution : config.conflictResolution with
    | lastWriterWins => simp [hresolution, Except.isOk, Except.toBool]
    | firstWriterWins => simp [hresolution, Except.isOk, Except.toBool]
    | vectorClockMerge => simp [hresolution, Except.isOk, Except.toBool]
    | customResolver name =>
      simp only [hresolution, resolveCustom, Option.mem_some_iff, exists_eq_left',
        ConflictResolution.customResolver.injEq, forall_eq']
      cases s.customResolvers name with
      | none => simp [Except.isOk, Except.toBool]
      | some resolver => simp

/-- A call that fails has taken over the clock and nothing else. -/
theorem handleReplicatedOperation_error {id now : Nat} {e : ReplicationError}
    (herror : (s.handleReplicatedOperation id now op).2 = .error e) :
    (s.handleReplicatedOperation id now op).1 = s.updateClock op := by
  rw [handleReplicatedOperation] at herror ⊢
  split at herror
  · exact absurd herror (by simp)
  · rename_i hconflicts
    rw [if_neg hconflicts]
    split at herror
    · rfl
    · exact absurd herror (by simp)

/-- It fails when there are conflicts that cannot be resolved. -/
theorem handleReplicatedOperation_fails_iff (id now : Nat) :
    (∃ e, (s.handleReplicatedOperation id now op).2 = .error e) ↔
      ¬(s.detectConflicts op = [] ∨ CanResolve s op (s.detectConflicts op)) := by
  have hdetect : (s.updateClock op).detectConflicts op = s.detectConflicts op := rfl
  have hresolves : CanResolve (s.updateClock op) op (s.detectConflicts op) ↔
      CanResolve s op (s.detectConflicts op) := Iff.rfl
  rw [handleReplicatedOperation, hdetect, ← hresolves, ← resolveConflicts_ok_iff id now, not_or]
  cases hconflicts : s.detectConflicts op with
  | nil =>
    rw [List.isEmpty_nil, if_pos rfl]
    simp
  | cons c conflicts =>
    rw [List.isEmpty_cons, if_neg Bool.false_ne_true]
    cases (s.updateClock op).resolveConflicts id now op (c :: conflicts) with
    | error e => simp [Except.isOk, Except.toBool]
    | ok winner => simp [Except.isOk, Except.toBool]

/-- A failed operation leaves no trace exactly when it does not fail, for there are no conflicts
or they can be resolved, or when its clock has nothing new. -/
theorem leaves_no_trace_iff (s : CrossRegionReplicator) (op : ReplicatedOperation) :
    LeavesNoTrace s op ↔
      s.detectConflicts op = [] ∨ CanResolve s op (s.detectConflicts op) ∨ Known s op := by
  rw [← or_assoc]
  constructor
  · intro htrace
    by_cases hhandled : s.detectConflicts op = [] ∨ CanResolve s op (s.detectConflicts op)
    · exact Or.inl hhandled
    · obtain ⟨e, herror⟩ := (handleReplicatedOperation_fails_iff 0 0).mpr hhandled
      have hclock := (htrace 0 0 e herror).1
      rw [handleReplicatedOperation_error herror] at hclock
      refine Or.inr (updateClock_eq_self_iff.mp ?_)
      rw [updateClock]
      exact congrArg (fun clock => { s with vectorClock := clock }) hclock
  · intro hcondition id now e herror
    have hfails := (handleReplicatedOperation_fails_iff id now).mp ⟨e, herror⟩
    have hsame : (s.handleReplicatedOperation id now op).1 = s := by
      rw [handleReplicatedOperation_error herror]
      exact updateClock_eq_self_iff.mpr (hcondition.resolve_left hfails)
    dsimp only
    rw [hsame]
    exact ⟨rfl, rfl, fun _ _ _ => rfl⟩

/-! ## A region that is not configured -/

/-- A region that has updated a resource; it has no configuration of its own yet. -/
def updatedRegion : CrossRegionReplicator :=
  ((new "a").replicateOperation 1 5 .update [1]).1

def otherUpdate : ReplicatedOperation := ((new "b").replicateOperation 2 6 .update [1]).2

def nextCalls : List ReplicatorCall :=
  [.addRegion { regionId := "a", conflictResolution := .lastWriterWins }, .replicate 4 8 .update [1]]

/-- The update fails, and the clock counts it.  The next local update then follows it, so that the
older one is applied when it comes again, which it would not be coming for the first time. -/
theorem not_leaves_no_trace_unconfigured :
    (updatedRegion.handleReplicatedOperation 3 7 otherUpdate).2 = .error (.regionNotFound "a") ∧
      (updatedRegion.handleReplicatedOperation 3 7 otherUpdate).1.vectorClock ≠
        updatedRegion.vectorClock ∧
      ((((updatedRegion.handleReplicatedOperation 3 7 otherUpdate).1.calls
          nextCalls).handleReplicatedOperation 5 9 otherUpdate).1.applied.map
            ReplicatedOperation.timestamp = [6] ∧
        ((updatedRegion.calls nextCalls).handleReplicatedOperation 5 9 otherUpdate).1.applied.map
          ReplicatedOperation.timestamp = [8]) ∧
      ¬LeavesNoTrace updatedRegion otherUpdate := by
  have herror : (updatedRegion.handleReplicatedOperation 3 7 otherUpdate).2 =
      .error (.regionNotFound "a") := by decide
  have hclock : (updatedRegion.handleReplicatedOperation 3 7 otherUpdate).1.vectorClock ≠
      updatedRegion.vectorClock := by decide
  exact ⟨herror, hclock, by decide, fun htrace => hclock (htrace 3 7 _ herror).1⟩

end Replication
end RTDB
