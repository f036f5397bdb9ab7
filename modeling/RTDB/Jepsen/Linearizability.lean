import Mathlib.Data.List.Permutation
import Mathlib.Data.List.Sort
import RTDB.Jepsen.Types
import RTDB.Lib.Runs

/-!
# The linearizability checker

The checker of `jepsen/checkers.rs` replays the operations of each key on a register, in the
order of their invocation and in no other.
-/

namespace RTDB
namespace Jepsen

variable {V : Type}

structure LinearizabilityChecker where
  maxDepth : Nat
  deriving DecidableEq, Repr

namespace Operation

def key (op : Operation V) : Option String :=
  match op.op with
  | .read key => some key
  | .write key _ => some key
  | .cas key _ _ => some key
  | _ => none

def invokedBefore (a b : Operation V) : Prop := a.invokeTime ≤ b.invokeTime

instance : DecidableRel (invokedBefore (V := V)) := fun a b =>
  inferInstanceAs (Decidable (a.invokeTime ≤ b.invokeTime))

instance : Std.Total (invokedBefore (V := V)) where
  total a b := Nat.le_total a.invokeTime b.invokeTime

instance : IsTrans (Operation V) invokedBefore where
  trans _ _ _ := Nat.le_trans

/-- One turn of the loop of `is_linearizable`; it may return false. -/
def replay [DecidableEq V] (null state : V) (op : Operation V) : Option V :=
  match op.op, op.result with
  | .write _ value, some .writeOk => some value
  | .read _, some (.readOk (some value)) => if value ≠ state ∧ state ≠ null then none else some state
  | .cas _ old new, some (.casOk success) =>
    if success then if state = old then some new else none else some state
  | _, _ => some state

end Operation

namespace LinearizabilityChecker

def new : LinearizabilityChecker := { maxDepth := 1000 }

def isLinearizable [DecidableEq V] (null : V) (ops : List (Operation V)) : Bool :=
  (ops.foldlM (Operation.replay null) null).isSome

def description (key : String) : String := "Linearizability violation found for key '" ++ key ++ "'"

/-- The sort is stable. -/
def checkKeyLinearizability [DecidableEq V] (null : V) (key : String) (ops : List (Operation V)) :
    Option Violation :=
  let sortedOps := ops.insertionSort Operation.invokedBefore
  if isLinearizable null sortedOps then none
  else
    some
      { violationType := .linearizabilityViolation
        operations := sortedOps.map Operation.id
        description := description key }

def keyOps (ops : List (Operation V)) : AList fun _ : String => List (Operation V) :=
  ops.foldl (fun keyOps op => op.key.elim keyOps fun key => pushAt keyOps key op) ∅

def findLinearizabilityViolations [DecidableEq V] (null : V)
    (it : Iteration String (List (Operation V))) (ops : List (Operation V)) : List Violation :=
  (it.entries (keyOps ops)).filterMap fun entry => checkKeyLinearizability null entry.1 entry.2

def check [DecidableEq V] (_c : LinearizabilityChecker) (null : V)
    (it : Iteration String (List (Operation V))) (h : History V) : CheckerResult :=
  let ops := h.operations.filter fun op => op.key.isSome && op.completeTime.isSome
  let violations := findLinearizabilityViolations null it ops
  { valid := violations.isEmpty
    model := .linearizability
    violations
    operationsAnalyzed := ops.length }

end LinearizabilityChecker

def CheckerResult.Reports (result : CheckerResult) (key : String) : Prop :=
  ∃ v ∈ result.violations, v.description = LinearizabilityChecker.description key

/-! ## What the checker is for -/

namespace Operation

def succeeded (op : Operation V) : Bool :=
  match op.op, op.result with
  | .read _, some (.readOk _) => true
  | .write _ _, some .writeOk => true
  | .cas _ _ _, some (.casOk success) => success
  | _, _ => false

/-- One successful operation on a register, if that is what it returned; a key without a value
is read as null. -/
def serve [DecidableEq V] (null state : V) (op : Operation V) : Option V :=
  match op.op, op.result with
  | .write _ value, some .writeOk => some value
  | .read _, some (.readOk value) => if value.getD null = state then some state else none
  | .cas _ old new, some (.casOk success) =>
    if success then if state = old then some new else none else some state
  | _, _ => some state

def written (state : V) (op : Operation V) : V :=
  match op.op, op.result with
  | .write _ value, some .writeOk => value
  | .cas _ _ new, some (.casOk success) => if success then new else state
  | _, _ => state

/-- A read that the checker passes over, whatever it returned. -/
def letOff [DecidableEq V] (null state : V) (op : Operation V) : Bool :=
  match op.op, op.result with
  | .read _, some (.readOk none) => state ≠ null
  | .read _, some (.readOk (some value)) => state = null ∧ value ≠ null
  | _, _ => false

/-- The one is over when the other is invoked. -/
def Precedes (a b : Operation V) : Prop := ∃ time ∈ a.completeTime, time < b.invokeTime

instance (a b : Operation V) : Decidable (a.Precedes b) :=
  decidable_of_iff (a.completeTime.any (· < b.invokeTime) = true) (by
    rw [Option.any_eq_true, Precedes]
    simp)

end Operation

namespace History

def completed (h : History V) (key : String) : List (Operation V) :=
  h.operations.filter fun op => op.key = some key ∧ op.completeTime.isSome

def successes (h : History V) (key : String) : List (Operation V) :=
  h.operations.filter fun op => op.key = some key ∧ op.completeTime.isSome ∧ op.succeeded

/-- The order has all successful operations of the key, keeps to real time, and explains what
they returned. -/
structure Explains [DecidableEq V] (null : V) (h : History V) (key : String)
    (order : List (Operation V)) : Prop where
  perm : order.Perm (h.successes key)
  realTime : order.Pairwise fun a b => ¬b.Precedes a
  register : (order.foldlM (Operation.serve null) null).isSome = true

def Linearizable [DecidableEq V] (null : V) (h : History V) (key : String) : Prop :=
  ∃ order, h.Explains null key order

/-- The successful operations of the key in the order of their invocation. -/
def invocationOrder (h : History V) (key : String) : List (Operation V) :=
  ((h.completed key).insertionSort Operation.invokedBefore).filter Operation.succeeded

/-- No read of the key is let off: none returns nothing while the value is not null, and none
returns another value while it is. -/
def Plain [DecidableEq V] (null : V) (h : History V) (key : String) : Prop :=
  Runs.Each Operation.written (fun state op => op.letOff null state = false) null
    (h.invocationOrder key)

/-- No two successful operations of the key overlap. -/
def Apart (h : History V) (key : String) : Prop :=
  (h.successes key).Pairwise fun a b => a.Precedes b ∨ b.Precedes a

instance [DecidableEq V] (null : V) (h : History V) (key : String) : Decidable (h.Plain null key) :=
  inferInstanceAs (Decidable (Runs.Each _ _ _ _))

instance (h : History V) (key : String) : Decidable (h.Apart key) :=
  inferInstanceAs (Decidable (List.Pairwise _ _))

end History

/-! ## The replay -/

variable [DecidableEq V] {null state : V} {op : Operation V} {ops : List (Operation V)} {key : String}
  {h : History V} {it : Iteration String (List (Operation V))}

namespace Operation

theorem replay_failed (hop : op.succeeded = false) : op.replay null state = some state := by
  revert hop
  rw [succeeded, replay]
  cases op.op <;> cases op.result with
  | none => simp
  | some result => cases result <;> simp +contextual

theorem replay_serve (hop : op.letOff null state = false) :
    op.replay null state = op.serve null state := by
  revert hop
  rw [letOff, replay, serve]
  cases op.op with
  | read key =>
    cases op.result with
    | none => simp
    | some result =>
      cases result with
      | readOk value => cases value <;> grind
      | _ => simp
  | _ =>
    intro _
    cases op.result with
    | none => rfl
    | some result => cases result <;> rfl

theorem serve_written {state' : V} (hserve : op.serve null state = some state') :
    state' = op.written state := by
  revert hserve
  rw [serve, written]
  cases op.op <;> cases op.result with
  | none => grind
  | some result => cases result <;> grind

omit [DecidableEq V] in
/-- Operations in the order of their invocation keep to real time. -/
theorem not_precedes {a b : Operation V} (hab : a.invokedBefore b) : ¬b.Precedes a := by
  rintro ⟨time, hcomplete, htime⟩
  have hinterval := b.interval time hcomplete
  have hinvoke : a.invokeTime ≤ b.invokeTime := hab
  omega

end Operation

/-- Operations that fail do not touch the register. -/
theorem replay_successes (ops : List (Operation V)) (state : V) :
    ops.foldlM (Operation.replay null) state =
      (ops.filter Operation.succeeded).foldlM (Operation.replay null) state := by
  induction ops generalizing state with
  | nil => rfl
  | cons op ops ih =>
    rw [List.foldlM_cons]
    cases hop : op.succeeded with
    | true =>
      rw [List.filter_cons_of_pos hop, List.foldlM_cons]
      exact bind_congr fun state' => ih state'
    | false =>
      rw [List.filter_cons_of_neg (by simp [hop]), Operation.replay_failed hop, Option.bind_eq_bind,
        Option.bind_some]
      exact ih state

/-- The replay is a run of the register, where no read is let off. -/
theorem replay_plain
    (hplain : Runs.Each Operation.written (fun state op => op.letOff null state = false) state ops) :
    ops.foldlM (Operation.replay null) state = ops.foldlM (Operation.serve null) state := by
  induction ops generalizing state with
  | nil => rfl
  | cons op ops ih =>
    obtain ⟨hfirst, hrest⟩ := Runs.each_cons.mp hplain
    rw [List.foldlM_cons, List.foldlM_cons, Operation.replay_serve hfirst]
    cases hserve : op.serve null state with
    | none => rfl
    | some state' =>
      rw [← Operation.serve_written hserve] at hrest
      exact ih hrest

/-! ## Violations -/

open LinearizabilityChecker

theorem description_injective {key key' : String} (h : description key = description key') :
    key = key' := by
  have haffix : ∀ before after : String,
      before ++ key ++ after = before ++ key' ++ after → key = key' := by
    intro before after heq
    exact (String.append_right_inj before).mp ((String.append_left_inj after).mp heq)
  exact haffix _ _ h

omit [DecidableEq V] in
theorem lookup_keyOps (ops : List (Operation V)) (key : String) :
    ((keyOps ops).lookup key).getD [] = ops.filter fun op => op.key = some key := by
  have hloop : ∀ map : AList fun _ : String => List (Operation V),
      ((ops.foldl (fun keyOps op => op.key.elim keyOps fun key => pushAt keyOps key op) map).lookup
        key).getD [] = (map.lookup key).getD [] ++ ops.filter fun op => op.key = some key := by
    induction ops with
    | nil => simp
    | cons op ops ih =>
      intro map
      rw [List.foldl_cons, ih]
      cases hop : op.key with
      | none => simp [hop]
      | some key' =>
        rw [Option.elim_some, lookup_pushAt, List.append_assoc, List.filter_cons]
        by_cases hkey : key = key'
        · simp [hop, hkey]
        · simp [hop, hkey, Ne.symm hkey]
  rw [keyOps, hloop]
  simp

omit [DecidableEq V] in
theorem filter_checked : ((h.operations.filter fun op => op.key.isSome && op.completeTime.isSome).filter
    fun op => op.key = some key) = h.completed key := by
  rw [List.filter_filter, History.completed]
  refine List.filter_congr fun op _ => ?_
  by_cases hkey : op.key = some key
  · simp [hkey]
  · simp [hkey]

theorem checkKey_description {v : Violation} (hv : checkKeyLinearizability null key ops = some v) :
    v.description = description key := by
  rw [checkKeyLinearizability] at hv
  split at hv
  case isTrue => exact absurd hv (by simp)
  case isFalse => rw [← Option.some.inj hv]

theorem checkKey_none_iff : checkKeyLinearizability null key ops = none ↔
    isLinearizable null (ops.insertionSort Operation.invokedBefore) = true := by
  rw [checkKeyLinearizability]
  split
  case isTrue hlin => simp [hlin]
  case isFalse hlin => simp [hlin]

theorem reports_iff (c : LinearizabilityChecker) : (c.check null it h).Reports key ↔
    checkKeyLinearizability null key (h.completed key) ≠ none := by
  have hlookup :=
    lookup_keyOps (h.operations.filter fun op => op.key.isSome && op.completeTime.isSome) key
  rw [filter_checked] at hlookup
  constructor
  · rintro ⟨v, hv, hdescription⟩ hnone
    obtain ⟨⟨key', ops⟩, hentry, hcheck⟩ := List.mem_filterMap.mp hv
    have hkey : key' = key :=
      description_injective ((checkKey_description hcheck).symm.trans hdescription)
    subst hkey
    have hops := AList.mem_lookup_iff.mpr ((it.perm _).mem_iff.mp hentry)
    rw [Option.mem_def.mp hops, Option.getD_some] at hlookup
    rw [hlookup] at hcheck
    exact absurd hcheck (by rw [hnone]; simp)
  · intro hsome
    obtain ⟨v, hcheck⟩ := Option.ne_none_iff_exists'.mp hsome
    refine ⟨v, List.mem_filterMap.mpr ⟨⟨key, h.completed key⟩, ?_, hcheck⟩, checkKey_description hcheck⟩
    refine (it.perm _).mem_iff.mpr (AList.mem_lookup_iff.mp ?_)
    cases hmap : (keyOps (h.operations.filter fun op => op.key.isSome && op.completeTime.isSome)).lookup
        key with
    | none =>
      rw [hmap, Option.getD_none] at hlookup
      rw [← hlookup] at hsome
      exact absurd rfl hsome
    | some ops =>
      rw [hmap, Option.getD_some] at hlookup
      rw [hlookup]
      exact rfl

/-! ## The order of invocation -/

omit [DecidableEq V] in
theorem invocationOrder_perm : (h.invocationOrder key).Perm (h.successes key) := by
  have hsort := (List.perm_insertionSort Operation.invokedBefore (h.completed key)).filter
    Operation.succeeded
  refine hsort.trans (List.Perm.of_eq ?_)
  rw [History.completed, History.successes, List.filter_filter]
  refine List.filter_congr fun op _ => ?_
  cases op.succeeded <;> simp

omit [DecidableEq V] in
theorem invocationOrder_realTime : (h.invocationOrder key).Pairwise fun a b => ¬b.Precedes a :=
  ((List.pairwise_insertionSort Operation.invokedBefore (h.completed key)).filter _).imp
    Operation.not_precedes

omit [DecidableEq V] in
/-- Operations that do not overlap have one order that keeps to real time. -/
theorem order_unique {order order' : List (Operation V)} (hapart : h.Apart key)
    (hperm : order.Perm (h.successes key)) (htime : order.Pairwise fun a b => ¬b.Precedes a)
    (hperm' : order'.Perm (h.successes key)) (htime' : order'.Pairwise fun a b => ¬b.Precedes a) :
    order = order' := by
  have hsorted : ∀ l : List (Operation V), l.Perm (h.successes key) →
      (l.Pairwise fun a b => ¬b.Precedes a) → l.Pairwise Operation.Precedes := by
    intro l hl hlt
    have happart' := (hl.pairwise_iff fun hab => Or.symm hab).mpr hapart
    exact (hlt.and happart').imp fun hab => hab.2.resolve_right hab.1
  refine List.Perm.eq_of_pairwise (fun a b _ _ hab hba => ?_) (hsorted order hperm htime)
    (hsorted order' hperm' htime') (hperm.trans hperm'.symm)
  obtain ⟨time, hcomplete, htime⟩ := hab
  have hinterval := a.interval time hcomplete
  exact absurd hba (Operation.not_precedes (Nat.le_trans hinterval (Nat.le_of_lt htime)))

/-- Where no read is let off, a key is passed when its operations, replayed in the order of their
invocation, are a run of the register; where besides no two of them overlap, when there is a run
of the register at all. -/
theorem linearizability_check (null : V) (c : LinearizabilityChecker)
    (it : Iteration String (List (Operation V))) (h : History V) (key : String)
    (hplain : h.Plain null key) :
    (¬(c.check null it h).Reports key ↔ h.Explains null key (h.invocationOrder key)) ∧
      (¬(c.check null it h).Reports key → h.Linearizable null key) ∧
      (h.Apart key → (¬(c.check null it h).Reports key ↔ h.Linearizable null key)) := by
  have hpass : ¬(c.check null it h).Reports key ↔ h.Explains null key (h.invocationOrder key) := by
    rw [reports_iff, not_not, checkKey_none_iff, isLinearizable, replay_successes]
    have hrun : (h.invocationOrder key).foldlM (Operation.replay null) null =
        (h.invocationOrder key).foldlM (Operation.serve null) null := replay_plain hplain
    constructor
    · intro hreplay
      refine ⟨invocationOrder_perm, invocationOrder_realTime, ?_⟩
      rw [← hrun]
      exact hreplay
    · intro hexplains
      have hregister := hexplains.register
      rw [← hrun] at hregister
      exact hregister
  refine ⟨hpass, fun hnone => ⟨_, hpass.mp hnone⟩, fun hapart => ?_⟩
  refine ⟨fun hnone => ⟨_, hpass.mp hnone⟩, ?_⟩
  rintro ⟨order, horder⟩
  rw [hpass, ← order_unique hapart horder.perm horder.realTime invocationOrder_perm
    invocationOrder_realTime]
  exact horder

def timed (id : Uuid) (op : OperationType (Option Nat)) (invoke complete : Nat)
    (result : OperationResult (Option Nat)) (hinterval : invoke ≤ complete) : Operation (Option Nat) :=
  { id, process := id, op, invokeTime := invoke, completeTime := some complete, result := some result
    error := none
    interval := fun time htime => by
      rw [← Option.some.inj htime]
      exact hinterval }

/-- A write, a swap that fails, one that succeeds, and a read of its value. -/
def inSequence : History (Option Nat) :=
  { operations := [
      timed 4 (.read "x") 6 7 (.readOk (some (some 2))) (by decide),
      timed 1 (.write "x" (some 1)) 0 1 .writeOk (by decide),
      timed 2 (.cas "x" (some 5) (some 6)) 2 3 (.casOk false) (by decide),
      timed 3 (.cas "x" (some 1) (some 2)) 4 5 (.casOk true) (by decide)]
    unique := by decide }

theorem linearizability_check_sequence :
    inSequence.Plain none "x" ∧ inSequence.Apart "x" ∧
      (¬(LinearizabilityChecker.new.check none Iteration.forward inSequence).Reports "x" ↔
        inSequence.Linearizable none "x") :=
  ⟨by decide, by decide,
    (linearizability_check none new Iteration.forward inSequence "x" (by decide)).2.2 (by decide)⟩

/-- The second write is over before the first one takes effect. -/
def overtaken : History (Option Nat) :=
  { operations := [
      timed 1 (.write "x" (some 1)) 0 9 .writeOk (by decide),
      timed 2 (.write "x" (some 2)) 1 2 .writeOk (by decide),
      timed 3 (.read "x") 10 11 (.readOk (some (some 1))) (by decide)]
    unique := by decide }

theorem not_linearizability_overtaken :
    ¬(¬(LinearizabilityChecker.new.check none Iteration.forward overtaken).Reports "x" ↔
      overtaken.Linearizable none "x") := by
  have hreports : (LinearizabilityChecker.new.check none Iteration.forward overtaken).Reports "x" :=
    (reports_iff LinearizabilityChecker.new).mpr (by decide)
  have hlinearizable : overtaken.Linearizable none "x" :=
    ⟨[timed 2 (.write "x" (some 2)) 1 2 .writeOk (by decide),
      timed 1 (.write "x" (some 1)) 0 9 .writeOk (by decide),
      timed 3 (.read "x") 10 11 (.readOk (some (some 1))) (by decide)],
      by decide, by decide, by decide⟩
  exact fun hiff => hiff.mpr hlinearizable hreports

end Jepsen
end RTDB
