import RTDB.Lib.Runs
import RTDB.Replication.CrossRegion

/-!
# Clocks of concurrent calls

Calls on one replicator run side by side, each lock a step of its own.  A local operation
is counted under one lock and gets its clock under another.
-/

namespace RTDB
namespace Replication

open CrossRegionReplicator

inductive Progress where
  | counted (operationType : OperationType) (data : List UInt8)
  | stamped (op : ReplicatedOperation)
  | replicated (op : ReplicatedOperation)
  | merged (op : ReplicatedOperation)
  | detected (op : ReplicatedOperation) (conflicts : List ReplicatedOperation)
  | applied (op : ReplicatedOperation)
  | handled
  | failed (e : ReplicationError)

def Progress.operation : Progress → Option ReplicatedOperation
  | .stamped op => some op
  | .replicated op => some op
  | _ => none

/-- Between its increment and its read of the clock. -/
def Progress.waiting : Progress → Bool
  | .counted _ _ => true
  | _ => false

/-- A replicator with its calls, and those of `replicate_operation` in the order of their
increments. -/
structure Running where
  replicator : CrossRegionReplicator
  calls : Nat → Option Progress
  increments : List Nat

/-- A call starts with its first lock, or takes the next one; where it makes an
operation, that has an id and the time. -/
inductive Step where
  | replicate (call : Nat) (operationType : OperationType) (data : List UInt8)
  | handle (call : Nat) (op : ReplicatedOperation)
  | proceed (call id now : Nat)

namespace Running

def start (s : CrossRegionReplicator) : Running :=
  { replicator := s, calls := fun _ => none, increments := [] }

def moved (r : Running) (call : Nat) (p : Progress) (s : CrossRegionReplicator) : Running :=
  { r with replicator := s, calls := Function.update r.calls call (some p) }

/-- The first lock of `replicate_operation`. -/
def counted (r : Running) (call : Nat) (operationType : OperationType) (data : List UInt8) : Running :=
  { r.moved call (.counted operationType data) r.replicator.incrementClock with
    increments := r.increments ++ [call] }

/-- What a call does under its next lock. -/
def advance (s : CrossRegionReplicator) (id now : Nat) :
    Progress → Option (Progress × CrossRegionReplicator)
  | .counted operationType data => some (.stamped (s.makeOperation id now operationType data), s)
  | .stamped op => some (.replicated op, s.logOperation op)
  | .merged op =>
    let conflicts := s.detectConflicts op
    if conflicts.isEmpty then some (.applied op, s.applyOperation op)
    else some (.detected op conflicts, s)
  | .detected op conflicts =>
    match s.resolveConflicts id now op conflicts with
    | .error e => some (.failed e, s)
    | .ok winner => some (.applied op, s.applyOperation winner)
  | .applied op => some (.handled, s.logOperation op)
  | .replicated _ | .handled | .failed _ => none

def perform (r : Running) : Step → Option Running
  | .replicate call operationType data =>
    match r.calls call with
    | some _ => none
    | none => some (r.counted call operationType data)
  | .handle call op =>
    match r.calls call with
    | some _ => none
    | none => some (r.moved call (.merged op) (r.replicator.updateClock op))
  | .proceed call id now =>
    ((r.calls call).bind (advance r.replicator id now)).map fun next => r.moved call next.1 next.2

def origin (r : Running) (call : Nat) : Option ReplicatedOperation :=
  (r.calls call).bind Progress.operation

def Waiting (r : Running) (call : Nat) : Prop := (r.calls call).any Progress.waiting = true

def ownTime (r : Running) (clock : VectorClock) : Nat := clock.time r.replicator.localRegion

/-- Local operations have different clocks, which grow in the order of the increments. -/
def OwnClocks (r : Running) : Prop :=
  r.increments.Pairwise fun c d => ∀ op op', r.origin c = some op → r.origin d = some op' →
    op.vectorClock ≠ op'.vectorClock ∧ r.ownTime op.vectorClock < r.ownTime op'.vectorClock

/-- An increment comes alone: no other call waits to read the clock, and the count is not
at its end. -/
def Alone (r : Running) : Step → Prop
  | .replicate _ _ _ =>
    (∀ c ∈ r.increments, ¬r.Waiting c) ∧ r.ownTime r.replicator.vectorClock + 1 < 2 ^ 64
  | _ => True

/-- The clock is at or past all operations made, and past all of them while a call waits;
that call is then the last one counted. -/
structure Ordered (r : Running) : Prop where
  nodup : r.increments.Nodup
  listed : ∀ c ∈ r.increments, r.calls c ≠ none
  growing : r.increments.Pairwise fun c d => ∀ op op', r.origin c = some op →
    r.origin d = some op' → r.ownTime op.vectorClock < r.ownTime op'.vectorClock
  reached : ∀ c op, r.origin c = some op →
    r.ownTime op.vectorClock ≤ r.ownTime r.replicator.vectorClock
  waiting : ∀ c, r.Waiting c → r.increments.getLast? = some c ∧
    ∀ d op, r.origin d = some op → r.ownTime op.vectorClock < r.ownTime r.replicator.vectorClock

end Running

open Running

instance (r : Running) (call : Nat) : Decidable (r.Waiting call) :=
  inferInstanceAs (Decidable (_ = true))

instance (r : Running) : (step : Step) → Decidable (r.Alone step)
  | .replicate _ _ _ => inferInstanceAs (Decidable (_ ∧ _))
  | .handle _ _ => isTrue trivial
  | .proceed _ _ _ => isTrue trivial

/-! ## Steps -/

variable {r r' : Running} {s : CrossRegionReplicator}

theorem Running.Ordered.ownClocks (hr : r.Ordered) : r.OwnClocks := by
  refine hr.growing.imp fun hlt op op' hop hop' => ⟨fun heq => ?_, hlt op op' hop hop'⟩
  have hless := hlt op op' hop hop'
  rw [heq] at hless
  exact Nat.lt_irrefl _ hless

theorem ordered_start (s : CrossRegionReplicator) : (start s).Ordered :=
  { nodup := List.nodup_nil
    listed := fun _ hc => absurd hc List.not_mem_nil
    growing := List.Pairwise.nil
    reached := fun _ _ hop => absurd hop (by simp [origin, start])
    waiting := fun _ hc => absurd hc Bool.false_ne_true }

/-- Only increments and merges touch the clock.  A call that stops waiting has made an operation with
the clock as it is; else its operation stays. -/
theorem advance_spec {opId now : Nat} {p p' : Progress} {s' : CrossRegionReplicator}
    (hadvance : advance s opId now p = some (p', s')) :
    (s'.vectorClock = s.vectorClock ∧ s'.localRegion = s.localRegion) ∧ p'.waiting = false ∧
      ((p.waiting = true ∧ ∃ op, p'.operation = some op ∧ op.vectorClock = s'.vectorClock) ∨
        p'.operation = p.operation) := by
  cases p with
  | counted operationType data =>
    obtain ⟨rfl, rfl⟩ := Prod.mk.inj (Option.some.inj hadvance)
    exact ⟨⟨rfl, rfl⟩, rfl, Or.inl ⟨rfl, _, rfl, rfl⟩⟩
  | stamped op =>
    obtain ⟨rfl, rfl⟩ := Prod.mk.inj (Option.some.inj hadvance)
    exact ⟨⟨rfl, rfl⟩, rfl, Or.inr rfl⟩
  | merged op =>
    simp only [advance] at hadvance
    split at hadvance
    · obtain ⟨rfl, rfl⟩ := Prod.mk.inj (Option.some.inj hadvance)
      exact ⟨⟨rfl, rfl⟩, rfl, Or.inr rfl⟩
    · obtain ⟨rfl, rfl⟩ := Prod.mk.inj (Option.some.inj hadvance)
      exact ⟨⟨rfl, rfl⟩, rfl, Or.inr rfl⟩
  | detected op conflicts =>
    simp only [advance] at hadvance
    split at hadvance
    · obtain ⟨rfl, rfl⟩ := Prod.mk.inj (Option.some.inj hadvance)
      exact ⟨⟨rfl, rfl⟩, rfl, Or.inr rfl⟩
    · obtain ⟨rfl, rfl⟩ := Prod.mk.inj (Option.some.inj hadvance)
      exact ⟨⟨rfl, rfl⟩, rfl, Or.inr rfl⟩
  | applied op =>
    obtain ⟨rfl, rfl⟩ := Prod.mk.inj (Option.some.inj hadvance)
    exact ⟨⟨rfl, rfl⟩, rfl, Or.inr rfl⟩
  | replicated op => exact absurd hadvance (by simp [advance])
  | handled => exact absurd hadvance (by simp [advance])
  | failed e => exact absurd hadvance (by simp [advance])

theorem origin_moved (r : Running) (call : Nat) (p : Progress) (s : CrossRegionReplicator) (c : Nat) :
    (r.moved call p s).origin c = if c = call then p.operation else r.origin c := by
  show (Function.update r.calls call (some p) c).bind Progress.operation = _
  by_cases hc : c = call
  · rw [hc, Function.update_self, if_pos rfl, Option.bind_some]
  · rw [Function.update_of_ne hc, if_neg hc, origin]

theorem waiting_moved {call : Nat} {p : Progress} {c : Nat} (hwaiting : (r.moved call p s).Waiting c) :
    (c = call ∧ p.waiting = true) ∨ (c ≠ call ∧ r.Waiting c) := by
  replace hwaiting : (Function.update r.calls call (some p) c).any Progress.waiting = true := hwaiting
  by_cases hc : c = call
  · rw [hc, Function.update_self] at hwaiting
    exact Or.inl ⟨hc, hwaiting⟩
  · rw [Function.update_of_ne hc] at hwaiting
    exact Or.inr ⟨hc, hwaiting⟩

theorem listed_moved {call : Nat} {p : Progress} (hlisted : ∀ c ∈ r.increments, r.calls c ≠ none)
    (c : Nat) (hc : c ∈ r.increments) : (r.moved call p s).calls c ≠ none := by
  show Function.update r.calls call (some p) c ≠ none
  by_cases heq : c = call
  · rw [heq, Function.update_self]
    exact Option.some_ne_none p
  · rw [Function.update_of_ne heq]
    exact hlisted c hc

/-- A step that makes no operation, counts nothing, and does not turn the clock back. -/
theorem Running.Ordered.moved {call : Nat} {p : Progress} (hr : r.Ordered)
    (hregion : s.localRegion = r.replicator.localRegion)
    (hclock : r.ownTime r.replicator.vectorClock ≤ r.ownTime s.vectorClock)
    (hop : p.operation = r.origin call) (hwait : p.waiting = false) : (r.moved call p s).Ordered := by
  have horigin : ∀ c, (r.moved call p s).origin c = r.origin c := by
    intro c
    rw [origin_moved]
    split
    case isTrue hc => rw [hop, hc]
    case isFalse => rfl
  have htime : ∀ clock, (r.moved call p s).ownTime clock = r.ownTime clock := fun clock =>
    congrArg clock.time hregion
  refine ⟨hr.nodup, listed_moved hr.listed, ?_, fun c op hcop => ?_, fun c hc => ?_⟩
  · simp only [horigin, htime]
    exact hr.growing
  · rw [horigin] at hcop
    rw [htime, htime]
    exact (hr.reached c op hcop).trans hclock
  · rcases waiting_moved hc with ⟨-, hp⟩ | ⟨-, hold⟩
    · exact absurd (hwait.symm.trans hp) Bool.false_ne_true
    · obtain ⟨hlast, hahead⟩ := hr.waiting c hold
      refine ⟨hlast, fun d op hdop => ?_⟩
      rw [horigin] at hdop
      rw [htime, htime]
      exact (hahead d op hdop).trans_le hclock

theorem Running.Ordered.stamped {call : Nat} {p : Progress} {op : ReplicatedOperation} (hr : r.Ordered)
    (hregion : s.localRegion = r.replicator.localRegion)
    (hclock : s.vectorClock = r.replicator.vectorClock) (hwaiting : r.Waiting call)
    (hop : p.operation = some op) (hopclock : op.vectorClock = s.vectorClock) (hwait : p.waiting = false) :
    (r.moved call p s).Ordered := by
  obtain ⟨hlast, hahead⟩ := hr.waiting call hwaiting
  have htime : ∀ clock, (r.moved call p s).ownTime clock = r.ownTime clock := fun clock =>
    congrArg clock.time hregion
  have hnow : r.ownTime op.vectorClock = r.ownTime r.replicator.vectorClock := by
    rw [hopclock, hclock]
  refine ⟨hr.nodup, listed_moved hr.listed, ?_, fun c op' hcop => ?_, fun c hc => ?_⟩
  · obtain ⟨before, hsplit⟩ := List.getLast?_eq_some_iff.mp hlast
    have hnodup := hr.nodup
    have hgrowing := hr.growing
    show r.increments.Pairwise _
    rw [hsplit] at hnodup hgrowing ⊢
    have hout : ∀ c ∈ before, c ≠ call := fun c hc heq =>
      (List.nodup_append.mp hnodup).2.2 c hc call List.mem_cons_self heq
    obtain ⟨hbefore, -, -⟩ := List.pairwise_append.mp hgrowing
    refine List.pairwise_append.mpr ⟨hbefore.imp_of_mem fun {c d} hc hd hlt => ?_,
      List.pairwise_singleton _ _, fun c hc d hd => ?_⟩
    · rw [origin_moved, origin_moved, if_neg (hout c hc), if_neg (hout d hd)]
      simp only [htime]
      exact hlt
    · rw [List.mem_singleton.mp hd, origin_moved, origin_moved, if_neg (hout c hc), if_pos rfl, hop]
      intro op' op'' hop' hop''
      rw [← Option.some.inj hop'', htime, htime, hnow]
      exact hahead c op' hop'
  · rw [origin_moved] at hcop
    rw [htime, htime]
    show r.ownTime op'.vectorClock ≤ r.ownTime s.vectorClock
    rw [hclock]
    split at hcop
    case isTrue =>
      rw [hop, Option.some.injEq] at hcop
      rw [← hcop, hnow]
    case isFalse => exact hr.reached c op' hcop
  · rcases waiting_moved hc with ⟨-, hp⟩ | ⟨hne, hold⟩
    · exact absurd (hwait.symm.trans hp) Bool.false_ne_true
    · have hsame := (hr.waiting c hold).1
      rw [hlast, Option.some.injEq] at hsame
      exact absurd hsame.symm hne

/-- An increment that comes alone puts the clock past all operations made. -/
theorem Running.Ordered.counted {call : Nat} {operationType : OperationType} {data : List UInt8}
    (hr : r.Ordered) (hnew : r.calls call = none)
    (halone : r.Alone (.replicate call operationType data)) :
    (r.counted call operationType data).Ordered := by
  obtain ⟨hnone, hroom⟩ := halone
  have hout : call ∉ r.increments := fun hin => hr.listed call hin hnew
  have horigin : ∀ c, (r.moved call (.counted operationType data) r.replicator.incrementClock).origin c =
      r.origin c := by
    intro c
    rw [origin_moved]
    split
    case isTrue hc =>
      rw [hc, origin, hnew]
      rfl
    case isFalse => rfl
  have hclock : r.ownTime r.replicator.incrementClock.vectorClock =
      r.ownTime r.replicator.vectorClock + 1 := by
    rw [ownTime, incrementClock, VectorClock.time_increment, if_pos rfl]
    exact Nat.mod_eq_of_lt hroom
  have hahead : ∀ d op, r.origin d = some op →
      r.ownTime op.vectorClock < r.ownTime r.replicator.incrementClock.vectorClock := fun d op hdop => by
    have hle := hr.reached d op hdop
    omega
  refine ⟨?_, fun c hc => ?_, ?_, fun c op hcop => ?_, fun c hc => ?_⟩
  · exact List.nodup_append.mpr ⟨hr.nodup, List.nodup_singleton call, fun c hc d hd heq =>
      hout (List.mem_singleton.mp hd ▸ heq ▸ hc)⟩
  · rcases List.mem_append.mp hc with hc | hc
    · exact listed_moved (s := r.replicator) hr.listed c hc
    · rw [List.mem_singleton.mp hc]
      show Function.update r.calls call _ call ≠ none
      rw [Function.update_self]
      exact Option.some_ne_none _
  · refine List.pairwise_append.mpr ⟨?_, List.pairwise_singleton _ _, fun c _ d hd op op' _ hop' => ?_⟩
    · refine hr.growing.imp fun hlt op op' hop hop' => hlt op op' ?_ ?_
      · exact (horigin _).symm.trans hop
      · exact (horigin _).symm.trans hop'
    · have hcall : r.origin d = some op' := (horigin d).symm.trans hop'
      rw [List.mem_singleton.mp hd, origin, hnew] at hcall
      exact absurd hcall (by simp)
  · exact Nat.le_of_lt (hahead c op ((horigin c).symm.trans hcop))
  · have hlast : (r.increments ++ [call]).getLast? = some call := by simp
    rcases waiting_moved (s := r.replicator.incrementClock) hc with ⟨rfl, -⟩ | ⟨-, hold⟩
    · exact ⟨hlast, fun d op hdop => hahead d op ((horigin d).symm.trans hdop)⟩
    · exact absurd hold (hnone c (List.mem_of_getLast? (hr.waiting c hold).1))

theorem ordered_step {step : Step} (hr : r.Ordered) (halone : r.Alone step)
    (hstep : r.perform step = some r') : r'.Ordered := by
  cases step with
  | replicate call operationType data =>
    cases hcall : r.calls call with
    | some p =>
      rw [perform, hcall] at hstep
      exact absurd hstep (by simp)
    | none =>
      rw [perform, hcall] at hstep
      rw [← Option.some.inj hstep]
      exact hr.counted hcall halone
  | handle call op =>
    cases hcall : r.calls call with
    | some p =>
      rw [perform, hcall] at hstep
      exact absurd hstep (by simp)
    | none =>
      rw [perform, hcall] at hstep
      rw [← Option.some.inj hstep]
      refine hr.moved rfl (VectorClock.time_le_update _ _ _) ?_ rfl
      rw [origin, hcall]
      rfl
  | proceed call id now =>
    rw [perform, Option.map_eq_some_iff] at hstep
    obtain ⟨next, hnext, rfl⟩ := hstep
    obtain ⟨p, hcall, hadvance⟩ := Option.bind_eq_some_iff.mp hnext
    obtain ⟨⟨hclock, hregion⟩, hwait, hoperation⟩ := advance_spec hadvance
    rcases hoperation with ⟨hwaiting, op, hop, hopclock⟩ | hsame
    · refine hr.stamped hregion hclock ?_ hop hopclock hwait
      rw [Waiting, hcall]
      exact hwaiting
    · refine hr.moved hregion (Nat.le_of_eq (by rw [hclock])) ?_ hwait
      rw [hsame, origin, hcall]
      rfl

/-! ## Runs -/

def Running.run (r : Running) (steps : List Step) : Option Running := steps.foldlM perform r

/-- Where every increment comes alone, local operations have their own clocks, in the
order of the increments. -/
theorem own_clocks (s : CrossRegionReplicator) (steps : List Step)
    (halone : Runs.Along perform Alone (start s) steps) (r : Running)
    (hrun : (start s).run steps = some r) : r.OwnClocks :=
  (halone.foldlM (fun _ _ _ => ordered_step) (ordered_start s) hrun).ownClocks

/-! ## Two local operations -/

/-- One after the other. -/
def inTurn : List Step :=
  [.replicate 0 .update [1], .proceed 0 1 5, .replicate 1 .update [2], .proceed 1 2 6]

/-- Two increments before the first read. -/
def together : List Step :=
  [.replicate 0 .update [1], .replicate 1 .update [2], .proceed 0 1 5, .proceed 1 2 6]

theorem own_clocks_in_turn :
    ∃ r, (start (CrossRegionReplicator.new "a")).run inTurn = some r ∧ r.increments = [0, 1] ∧
      r.OwnClocks :=
  ⟨_, rfl, rfl, own_clocks (CrossRegionReplicator.new "a") inTurn (by decide) _ rfl⟩

/-- Both operations get the second clock. -/
theorem not_own_clocks_together :
    ∃ r, (start (CrossRegionReplicator.new "a")).run together = some r ∧
      (r.origin 0).map ReplicatedOperation.vectorClock = (r.origin 1).map ReplicatedOperation.vectorClock ∧
      ¬r.OwnClocks := by
  refine ⟨_, rfl, by decide, fun hown => ?_⟩
  obtain ⟨hpair, -⟩ := List.pairwise_cons.mp hown
  exact (hpair 1 List.mem_cons_self _ _ rfl rfl).1 rfl

end Replication
end RTDB
