import Mathlib.Order.Nat
import RTDB.Jepsen.Linearizability
import RTDB.Lib.Sweep

/-!
# Concurrent operations of a history

`find_concurrent_operations` of `jepsen/history.rs`.  Its groups are the classes of operations that
chains of concurrent ones connect.
-/

namespace RTDB
namespace Jepsen

open Sweep

structure ConcurrentGroup where
  operations : List Uuid
  startTime : Nat
  endTime : Nat
  deriving DecidableEq, Repr

/-- What the loop over the operations keeps. -/
structure Scan where
  concurrentGroups : List ConcurrentGroup
  currentGroup : List Uuid
  groupEndTime : Nat

namespace History

variable {V : Type}

/-- When the operation that `unwrap` expects was invoked. -/
def invokeTimeOf (h : History V) (id : Uuid) : Option Nat :=
  (h.operations.find? fun o => o.id = id).map Operation.invokeTime

/-- The groups with the current one, if it has more than one operation. -/
def closeGroup (h : History V) (scan : Scan) : Option (List ConcurrentGroup) :=
  if 1 < scan.currentGroup.length then
    (scan.currentGroup.head?.bind h.invokeTimeOf).map fun startTime =>
      scan.concurrentGroups ++
        [{ operations := scan.currentGroup, startTime, endTime := scan.groupEndTime }]
  else some scan.concurrentGroups

def scanStep (h : History V) (scan : Scan) (op : Operation V) : Option Scan :=
  match op.completeTime with
  | none => some scan
  | some completeTime =>
    if scan.currentGroup = [] ∨ op.invokeTime ≤ scan.groupEndTime then
      some
        { scan with
          currentGroup := scan.currentGroup ++ [op.id]
          groupEndTime := max scan.groupEndTime completeTime }
    else
      (h.closeGroup scan).map fun groups =>
        { concurrentGroups := groups, currentGroup := [op.id], groupEndTime := completeTime }

/-- The start time of the last group is the epoch. -/
def findConcurrentOperations (h : History V) : Option (List ConcurrentGroup) :=
  ((h.operations.insertionSort Operation.invokedBefore).foldlM h.scanStep
    { concurrentGroups := [], currentGroup := [], groupEndTime := 0 }).map fun scan =>
      if 1 < scan.currentGroup.length then
        scan.concurrentGroups ++
          [{ operations := scan.currentGroup, startTime := 0, endTime := scan.groupEndTime }]
      else scan.concurrentGroups

/-- Two operations that completed, neither of them before the other was invoked. -/
def Concurrent (h : History V) (a b : Operation V) : Prop :=
  (a ∈ h.operations ∧ a.completeTime.isSome) ∧ (b ∈ h.operations ∧ b.completeTime.isSome) ∧
    ¬a.Precedes b ∧ ¬b.Precedes a

def swept (h : History V) : List (Operation V) :=
  (h.operations.insertionSort Operation.invokedBefore).filter fun op => op.completeTime.isSome

variable {h : History V} {a b op : Operation V} {ops : List (Operation V)} {scan : Scan}

def stopTime (op : Operation V) : Nat := op.completeTime.getD 0

/-! ## The loop sweeps over the operations -/

def reported (g : List (Operation V) × Nat) : List Uuid × Nat := (g.1.map Operation.id, g.2)

/-- The loop has the groups of the sweep that have more than one operation. -/
structure Follows (s : State (Operation V) Nat) (scan : Scan) : Prop where
  groups : scan.concurrentGroups.map (fun g => (g.operations, g.endTime)) =
    (s.groups.filter fun g => 1 < g.1.length).map reported
  current : scan.currentGroup = s.current.map Operation.id
  stop : scan.groupEndTime = s.stop

theorem invokeTimeOf_isSome (hop : op ∈ h.operations) : ∃ time, h.invokeTimeOf op.id = some time := by
  have hfind : (h.operations.find? fun o => o.id = op.id).isSome := by
    rw [List.find?_isSome]
    exact ⟨op, hop, decide_eq_true rfl⟩
  obtain ⟨o, ho⟩ := Option.isSome_iff_exists.mp hfind
  exact ⟨o.invokeTime, by rw [invokeTimeOf, ho, Option.map_some]⟩

/-- Closing a group adds it if it has more than one operation. -/
theorem Follows.close {s : State (Operation V) Nat} (hscan : Follows s scan)
    (hmem : ∀ op ∈ s.current, op ∈ h.operations) :
    ∃ groups, h.closeGroup scan = some groups ∧
      groups.map (fun g => (g.operations, g.endTime)) =
        ((s.groups ++ [(s.current, s.stop)]).filter fun g => 1 < g.1.length).map reported := by
  have hlength : scan.currentGroup.length = s.current.length := by
    rw [hscan.current, List.length_map]
  rw [closeGroup, hlength, List.filter_append, List.map_append, List.filter_singleton]
  by_cases hlong : 1 < s.current.length
  · obtain ⟨first, rest, hcurrent⟩ := List.exists_cons_of_length_pos (Nat.lt_of_succ_lt hlong)
    obtain ⟨time, htime⟩ := invokeTimeOf_isSome (hmem first (hcurrent ▸ List.mem_cons_self))
    refine ⟨scan.concurrentGroups ++ [{ operations := scan.currentGroup, startTime := time
                                        endTime := scan.groupEndTime }], ?_, ?_⟩
    · rw [if_pos hlong, hscan.current, hcurrent, List.map_cons, List.head?_cons, Option.bind_some,
        htime, Option.map_some]
    · rw [decide_eq_true hlong, List.map_append, hscan.groups, List.map_singleton, hscan.current,
        hscan.stop]
      rfl
  · refine ⟨_, if_neg hlong, ?_⟩
    rw [decide_eq_false hlong, hscan.groups]
    exact (List.append_nil _).symm

theorem Follows.step {s : State (Operation V) Nat} (hscan : Follows s scan)
    (hmem : ∀ op ∈ s.current, op ∈ h.operations) {completeTime : Nat}
    (hcomplete : op.completeTime = some completeTime) :
    ∃ scan', h.scanStep scan op = some scan' ∧
      Follows (Sweep.step Operation.invokeTime stopTime s op) scan' := by
  have hstop : stopTime op = completeTime := by rw [stopTime, hcomplete, Option.getD_some]
  have hjoin : (scan.currentGroup = [] ∨ op.invokeTime ≤ scan.groupEndTime) ↔
      (s.current = [] ∨ op.invokeTime ≤ s.stop) := by
    rw [hscan.current, hscan.stop, List.map_eq_nil_iff]
  rw [scanStep, hcomplete, Sweep.step, hstop]
  dsimp only
  by_cases hjoins : s.current = [] ∨ op.invokeTime ≤ s.stop
  · rw [if_pos hjoins, if_pos (hjoin.mpr hjoins)]
    refine ⟨_, rfl, hscan.groups, ?_, ?_⟩
    · rw [hscan.current, List.map_append]
      rfl
    · rw [hscan.stop]
  · rw [if_neg hjoins, if_neg (mt hjoin.mp hjoins)]
    obtain ⟨groups, hclose, hgroups⟩ := hscan.close hmem
    rw [hclose]
    exact ⟨_, rfl, hgroups, rfl, rfl⟩

/-- The loop never fails and follows the sweep. -/
theorem follows_scan (hmem : ∀ op ∈ ops, op ∈ h.operations) :
    ∃ scan, ops.foldlM h.scanStep
        { concurrentGroups := [], currentGroup := [], groupEndTime := 0 } = some scan ∧
      Follows (sweep Operation.invokeTime stopTime (ops.filter fun op => op.completeTime.isSome))
        scan := by
  induction ops using List.reverseRecOn with
  | nil => exact ⟨_, rfl, rfl, rfl, rfl⟩
  | append_singleton ops op ih =>
    obtain ⟨scan, hfold, hscan⟩ := ih fun op hop => hmem op (List.mem_append_left _ hop)
    rw [List.foldlM_append, hfold, List.filter_append, List.filter_singleton]
    cases hcomplete : op.completeTime with
    | none =>
      refine ⟨scan, ?_, ?_⟩
      · rw [Option.bind_eq_bind, Option.bind_some, List.foldlM_cons, scanStep, hcomplete]
        rfl
      · rw [Option.isSome_none, cond_false, List.append_nil]
        exact hscan
    | some completeTime =>
      have hcurrent : ∀ o ∈ (sweep Operation.invokeTime stopTime
          (ops.filter fun op => op.completeTime.isSome)).current, o ∈ h.operations := fun o ho =>
        hmem o (List.mem_append_left _ (List.mem_of_mem_filter (mem_of_current ho)))
      obtain ⟨scan', hstep, hscan'⟩ := hscan.step hcurrent hcomplete
      refine ⟨scan', ?_, ?_⟩
      · rw [Option.bind_eq_bind, Option.bind_some, List.foldlM_cons, hstep]
        rfl
      · rw [Option.isSome_some, cond_true, sweep_concat]
        exact hscan'

/-! ## What the groups are -/

theorem mem_swept : op ∈ h.swept ↔ op ∈ h.operations ∧ op.completeTime.isSome := by
  rw [swept, List.mem_filter, (List.perm_insertionSort _ _).mem_iff]

theorem stopTime_eq {time : Nat} (htime : op.completeTime = some time) : stopTime op = time := by
  rw [stopTime, htime, Option.getD_some]

theorem not_precedes_iff (ha : a.completeTime.isSome) : ¬a.Precedes b ↔ b.invokeTime ≤ stopTime a := by
  obtain ⟨time, htime⟩ := Option.isSome_iff_exists.mp ha
  rw [stopTime_eq htime, Operation.Precedes, htime]
  simp

theorem touch_iff : Touch Operation.invokeTime stopTime h.swept a b ↔ h.Concurrent a b := by
  constructor
  · rintro ⟨ha, hb, hab, hba⟩
    have ha := mem_swept.mp ha
    have hb := mem_swept.mp hb
    exact ⟨ha, hb, (not_precedes_iff ha.2).mpr hba, (not_precedes_iff hb.2).mpr hab⟩
  · rintro ⟨ha, hb, hab, hba⟩
    exact ⟨mem_swept.mpr ha, mem_swept.mpr hb, (not_precedes_iff hb.2).mp hba,
      (not_precedes_iff ha.2).mp hab⟩

theorem swept_parts (h : History V) :
    Swept Operation.invokeTime stopTime h.swept (sweep Operation.invokeTime stopTime h.swept) := by
  refine Sweep.swept (fun op hop => ?_) ?_
  · obtain ⟨time, htime⟩ := Option.isSome_iff_exists.mp (mem_swept.mp hop).2
    rw [stopTime_eq htime]
    exact op.interval time htime
  · exact (List.pairwise_insertionSort Operation.invokedBefore h.operations).filter _

/-- The groups that are reported are those of the sweep with more than one operation. -/
theorem findConcurrentOperations_eq (h : History V) :
    ∃ groups, h.findConcurrentOperations = some groups ∧
      groups.map (fun g => (g.operations, g.endTime)) =
        (((sweep Operation.invokeTime stopTime h.swept).parts).filter fun g =>
          1 < g.1.length).map reported := by
  have hmem : ∀ op ∈ h.operations.insertionSort Operation.invokedBefore, op ∈ h.operations :=
    fun op hop => (List.perm_insertionSort _ _).mem_iff.mp hop
  obtain ⟨scan, hfold, hscan⟩ := follows_scan hmem
  rw [findConcurrentOperations, hfold]
  refine ⟨_, rfl, ?_⟩
  have hlength : scan.currentGroup.length =
      (sweep Operation.invokeTime stopTime h.swept).current.length := by
    rw [hscan.current, List.length_map]
    rfl
  dsimp only
  rw [hlength, State.parts, List.filter_append, List.map_append, List.filter_singleton]
  by_cases hlong : 1 < (sweep Operation.invokeTime stopTime h.swept).current.length
  · rw [if_pos hlong, decide_eq_true hlong, List.map_append, hscan.groups, List.map_singleton,
      hscan.current, hscan.stop]
    rfl
  · rw [if_neg hlong, decide_eq_false hlong, hscan.groups]
    exact (List.append_nil _).symm

theorem eq_of_id_eq (ha : a ∈ h.operations) (hb : b ∈ h.operations) (hid : a.id = b.id) : a = b :=
  List.inj_on_of_nodup_map h.unique ha hb hid

theorem one_lt_length {l : List (Operation V)} (ha : a ∈ l) (hb : b ∈ l) (hne : a ≠ b) :
    1 < l.length := by
  cases l with
  | nil => exact absurd ha List.not_mem_nil
  | cons x l =>
    cases l with
    | nil => exact absurd ((List.mem_singleton.mp ha).trans (List.mem_singleton.mp hb).symm) hne
    | cons y l => simp

/-- The search never fails.  Two operations are in one of its groups exactly if a chain of
concurrent operations leads from one to the other, and a group ends when the last of its operations
completes. -/
theorem findConcurrentOperations_groups (h : History V) :
    ∃ groups, h.findConcurrentOperations = some groups ∧
      (∀ a ∈ h.operations, ∀ b ∈ h.operations, a ≠ b →
        ((∃ g ∈ groups, a.id ∈ g.operations ∧ b.id ∈ g.operations) ↔
          Relation.ReflTransGen h.Concurrent a b)) ∧
      ∀ g ∈ groups, IsGreatest
        {t | ∃ op ∈ h.operations, op.id ∈ g.operations ∧ op.completeTime = some t} g.endTime := by
  obtain ⟨groups, hfind, hgroups⟩ := findConcurrentOperations_eq h
  have hswept := swept_parts h
  have htouch : Touch Operation.invokeTime stopTime h.swept = h.Concurrent :=
    funext fun _ => funext fun _ => propext touch_iff
  -- What is reported of a group names the operations of a part of the sweep.
  have hnamed : ∀ p ∈ (sweep Operation.invokeTime stopTime h.swept).parts, ∀ op ∈ h.operations,
      op.id ∈ p.1.map Operation.id ↔ op ∈ p.1 := by
    intro p hp op hop
    constructor
    · intro hid
      obtain ⟨o, ho, hid⟩ := List.mem_map.mp hid
      rw [← eq_of_id_eq (mem_swept.mp (mem_of_parts hswept hp ho)).1 hop hid]
      exact ho
    · exact List.mem_map_of_mem
  have hpart : ∀ g ∈ groups, ∃ p ∈ (sweep Operation.invokeTime stopTime h.swept).parts,
      1 < p.1.length ∧ g.operations = p.1.map Operation.id ∧ g.endTime = p.2 := by
    intro g hg
    have hmem := List.mem_map_of_mem (f := fun g => (g.operations, g.endTime)) hg
    rw [hgroups] at hmem
    obtain ⟨p, hp, heq⟩ := List.mem_map.mp hmem
    obtain ⟨hp, hlong⟩ := List.mem_filter.mp hp
    obtain ⟨hops, hend⟩ := Prod.mk.inj heq
    exact ⟨p, hp, of_decide_eq_true hlong, hops.symm, hend.symm⟩
  refine ⟨groups, hfind, fun a ha b hb hne => ⟨?_, fun hreach => ?_⟩, fun g hg => ?_⟩
  · rintro ⟨g, hg, hag, hbg⟩
    obtain ⟨p, hp, -, hops, -⟩ := hpart g hg
    rw [hops] at hag hbg
    rw [← htouch]
    exact hswept.joined p hp a ((hnamed p hp a ha).mp hag) b ((hnamed p hp b hb).mp hbg)
  · have hin : a ∈ h.swept := by
      rcases hreach.cases_head with heq | ⟨c, hconcurrent, -⟩
      · exact absurd heq hne
      · exact mem_swept.mpr hconcurrent.1
    rw [← htouch] at hreach
    obtain ⟨p, hp, hap, hbp⟩ := (hswept.joined_iff hin).mp hreach
    have hkept : p ∈ (sweep Operation.invokeTime stopTime h.swept).parts.filter fun g =>
        1 < g.1.length :=
      List.mem_filter.mpr ⟨hp, decide_eq_true (one_lt_length hap hbp hne)⟩
    have hmem := List.mem_map_of_mem (f := reported) hkept
    rw [← hgroups] at hmem
    obtain ⟨g, hg, heq⟩ := List.mem_map.mp hmem
    refine ⟨g, hg, ?_⟩
    rw [show g.operations = p.1.map Operation.id from congrArg Prod.fst heq]
    exact ⟨List.mem_map_of_mem hap, List.mem_map_of_mem hbp⟩
  · obtain ⟨p, hp, hlong, hops, hend⟩ := hpart g hg
    have hstops : {t | ∃ op ∈ h.operations, op.id ∈ g.operations ∧ op.completeTime = some t} =
        {t | ∃ op ∈ p.1, stopTime op = t} := by
      ext t
      constructor
      · rintro ⟨op, hop, hid, htime⟩
        rw [hops] at hid
        exact ⟨op, (hnamed p hp op hop).mp hid, stopTime_eq htime⟩
      · rintro ⟨op, hop, rfl⟩
        obtain ⟨hop', hcomplete⟩ := mem_swept.mp (mem_of_parts hswept hp hop)
        obtain ⟨time, htime⟩ := Option.isSome_iff_exists.mp hcomplete
        rw [stopTime_eq htime, hops]
        exact ⟨op, hop', List.mem_map_of_mem hop, htime⟩
    rw [hstops, hend]
    exact hswept.stops p hp (List.ne_nil_of_length_pos (Nat.lt_of_succ_lt hlong))

end History
end Jepsen
end RTDB
