import Mathlib.Order.Lattice
import RTDB.Replication.CrossRegion

/-!
# The causal order of vector clocks

A clock stands for the counts it gives to all nodes, zero where it has none.  Comparing
clocks compares these counts node by node, and updating a clock takes their maximum, so
that clocks have the order and the bounds of functions.
-/

namespace RTDB
namespace Replication

/-- The outcome of the comparison the other way round. -/
def VectorClockOrdering.swap : VectorClockOrdering → VectorClockOrdering
  | .less => .greater
  | .greater => .less
  | .equal => .equal
  | .concurrent => .concurrent

namespace VectorClock

variable {a b c : VectorClock}

/-- Less or equal, as `compare` has it. -/
def AtMost (a b : VectorClock) : Prop := a.compare b = .less ∨ a.compare b = .equal

/-! ## Comparing -/

/-- The four outcomes, by which clock is ahead somewhere. -/
theorem compare_cases (a b : VectorClock) :
    (a.compare b = .equal ∧ (∀ n, a.time n ≤ b.time n) ∧ ∀ n, b.time n ≤ a.time n) ∨
    (a.compare b = .less ∧ (∀ n, a.time n ≤ b.time n) ∧ ∃ n, a.time n < b.time n) ∨
    (a.compare b = .greater ∧ (∃ n, b.time n < a.time n) ∧ ∀ n, b.time n ≤ a.time n) ∨
    (a.compare b = .concurrent ∧ (∃ n, b.time n < a.time n) ∧ ∃ n, a.time n < b.time n) := by
  have hleft : ((a.allNodes b).any fun n => b.time n < a.time n) = true ↔ ∃ n, b.time n < a.time n :=
    any_ahead_iff a b fun _ hn => List.mem_append_left _ hn
  have hright : ((a.allNodes b).any fun n => a.time n < b.time n) = true ↔ ∃ n, a.time n < b.time n :=
    any_ahead_iff b a fun _ hn => List.mem_append_right _ hn
  have hnone : ∀ {x y : VectorClock}, ¬(∃ n, y.time n < x.time n) → ∀ n, x.time n ≤ y.time n :=
    fun hno n => Nat.le_of_not_lt fun hlt => hno ⟨n, hlt⟩
  rw [compare]
  cases hselfGreater : (a.allNodes b).any fun n => b.time n < a.time n with
  | true =>
    have hahead := hleft.mp hselfGreater
    cases hotherGreater : (a.allNodes b).any fun n => a.time n < b.time n with
    | true => exact Or.inr (Or.inr (Or.inr ⟨rfl, hahead, hright.mp hotherGreater⟩))
    | false =>
      have hbehind := hnone fun h => Bool.false_ne_true (hotherGreater.symm.trans (hright.mpr h))
      exact Or.inr (Or.inr (Or.inl ⟨rfl, hahead, hbehind⟩))
  | false =>
    have hbehind := hnone fun h => Bool.false_ne_true (hselfGreater.symm.trans (hleft.mpr h))
    cases hotherGreater : (a.allNodes b).any fun n => a.time n < b.time n with
    | true => exact Or.inr (Or.inl ⟨rfl, hbehind, hright.mp hotherGreater⟩)
    | false =>
      have hahead := hnone fun h => Bool.false_ne_true (hotherGreater.symm.trans (hright.mpr h))
      exact Or.inl ⟨rfl, hbehind, hahead⟩

theorem atMost_iff : a.AtMost b ↔ a.time ≤ b.time := by
  rw [AtMost, Pi.le_def]
  rcases compare_cases a b with ⟨hcompare, hle, -⟩ | ⟨hcompare, hle, -⟩ | ⟨hcompare, ⟨n, hn⟩, -⟩ |
    ⟨hcompare, ⟨n, hn⟩, -⟩
  · exact iff_of_true (Or.inr hcompare) hle
  · exact iff_of_true (Or.inl hcompare) hle
  · rw [hcompare]
    exact iff_of_false (by decide) fun hle => Nat.not_lt.mpr (hle n) hn
  · rw [hcompare]
    exact iff_of_false (by decide) fun hle => Nat.not_lt.mpr (hle n) hn

theorem compare_equal_iff : a.compare b = .equal ↔ a.time = b.time := by
  rcases compare_cases a b with ⟨hcompare, hle, hge⟩ | ⟨hcompare, -, ⟨n, hn⟩⟩ |
    ⟨hcompare, ⟨n, hn⟩, -⟩ | ⟨hcompare, ⟨n, hn⟩, -⟩
  · exact iff_of_true hcompare (funext fun n => Nat.le_antisymm (hle n) (hge n))
  all_goals
    rw [hcompare]
    refine iff_of_false (by decide) fun heq => ?_
    rw [heq] at hn
    exact Nat.lt_irrefl _ hn

theorem compare_swap (a b : VectorClock) : b.compare a = (a.compare b).swap := by
  rcases compare_cases a b with ⟨hab, hle, hge⟩ | ⟨hab, hle, m, hm⟩ | ⟨hab, ⟨m, hm⟩, hge⟩ |
    ⟨hab, hahead, hbehind⟩
  · rw [hab]
    exact compare_equal_iff.mpr (funext fun n => Nat.le_antisymm (hge n) (hle n))
  · rw [hab]
    rcases compare_cases b a with ⟨-, hge, -⟩ | ⟨-, hge, -⟩ | ⟨hba, -, -⟩ | ⟨-, -, n, hn⟩
    · exact absurd hm (Nat.not_lt.mpr (hge m))
    · exact absurd hm (Nat.not_lt.mpr (hge m))
    · exact hba
    · exact absurd hn (Nat.not_lt.mpr (hle n))
  · rw [hab]
    rcases compare_cases b a with ⟨-, -, hle⟩ | ⟨hba, -, -⟩ | ⟨-, -, hle⟩ | ⟨-, ⟨n, hn⟩, -⟩
    · exact absurd hm (Nat.not_lt.mpr (hle m))
    · exact hba
    · exact absurd hm (Nat.not_lt.mpr (hle m))
    · exact absurd hn (Nat.not_lt.mpr (hge n))
  · rw [hab]
    exact (compare_concurrent_iff b a).mpr ⟨hbehind, hahead⟩

/-! ## Updating -/

/-- The loop takes the larger count of each node that both clocks have. -/
theorem get?_update_loop {entries : List (String × Nat)}
    (hsorted : entries.Pairwise fun e e' => e.1 < e'.1) (c : VectorClock) (n : String) :
    (entries.foldl (fun c e =>
      ({ clocks := c.clocks.insert e.1 (max (c.time e.1) e.2) } : VectorClock)) c).clocks.get? n =
        (c.clocks.get? n).merge max ((entries.find? fun e => e.1 = n).map Prod.snd) := by
  induction entries generalizing c with
  | nil => exact Option.merge_none_right.symm
  | cons e entries ih =>
    obtain ⟨hfirst, hrest⟩ := List.pairwise_cons.mp hsorted
    rw [List.foldl_cons, ih hrest, SortedMap.get?_insert, List.find?_cons]
    by_cases hn : n = e.1
    · subst hn
      have hnone : entries.find? (fun e' => e'.1 = e.1) = none :=
        List.find?_eq_none.mpr fun e' he' heq => (hfirst e' he').ne' (of_decide_eq_true heq)
      rw [if_pos rfl, decide_eq_true rfl, hnone, Option.map_none, Option.merge_none_right, time]
      cases c.clocks.get? e.1 with
      | none => exact congrArg some (Nat.zero_max e.2)
      | some v => rfl
    · rw [if_neg hn, decide_eq_false (Ne.symm hn)]

theorem get?_update (a b : VectorClock) (n : String) :
    (a.update b).clocks.get? n = (a.clocks.get? n).merge max (b.clocks.get? n) :=
  get?_update_loop b.clocks.sorted a n

theorem time_update (a b : VectorClock) : (a.update b).time = a.time ⊔ b.time := by
  funext n
  show ((a.update b).clocks.get? n).getD 0 =
    max ((a.clocks.get? n).getD 0) ((b.clocks.get? n).getD 0)
  rw [get?_update]
  cases a.clocks.get? n with
  | none =>
    rw [Option.merge_none_left, Option.getD_none, Nat.zero_max]
  | some v =>
    cases b.clocks.get? n with
    | none => exact (Nat.max_zero v).symm
    | some w => rfl

theorem eq_of_get? (hget : ∀ n, a.clocks.get? n = b.clocks.get? n) : a = b := by
  cases a
  cases b
  rw [mk.injEq]
  exact SortedMap.eq_of_get? hget

theorem update_comm (a b : VectorClock) : a.update b = b.update a := by
  refine eq_of_get? fun n => ?_
  rw [get?_update, get?_update]
  exact Std.Commutative.comm _ _

theorem update_assoc (a b c : VectorClock) : (a.update b).update c = a.update (b.update c) := by
  refine eq_of_get? fun n => ?_
  rw [get?_update, get?_update, get?_update, get?_update]
  exact Std.Associative.assoc _ _ _

theorem update_self (a : VectorClock) : a.update a = a := by
  refine eq_of_get? fun n => ?_
  rw [get?_update]
  exact Std.IdempotentOp.idempotent _

theorem new_update (a : VectorClock) : new.update a = a := by
  refine eq_of_get? fun n => ?_
  rw [get?_update]
  exact Option.merge_none_left

/-! ## The order -/

/-- The laws of the causal order for any three clocks: `compare` is the order of the counts, and
`update` the least upper bound. -/
structure CausalOrder (a b c : VectorClock) : Prop where
  pointwise : a.AtMost b ↔ ∀ n, a.time n ≤ b.time n
  antisymm : a.AtMost b → b.AtMost a → ∀ n, a.time n = b.time n
  trans : a.AtMost b → b.AtMost c → a.AtMost c
  swap : b.compare a = (a.compare b).swap
  left : a.AtMost (a.update b)
  right : b.AtMost (a.update b)
  least : a.AtMost c → b.AtMost c → (a.update b).AtMost c
  comm : (a.update b).compare (b.update a) = .equal
  assoc : ((a.update b).update c).compare (a.update (b.update c)) = .equal
  idem : (a.update a).compare a = .equal

theorem causal_order (a b c : VectorClock) : CausalOrder a b c where
  pointwise := atMost_iff
  antisymm hab hba := congrFun (le_antisymm (atMost_iff.mp hab) (atMost_iff.mp hba))
  trans hab hbc := atMost_iff.mpr ((atMost_iff.mp hab).trans (atMost_iff.mp hbc))
  swap := compare_swap a b
  left := by
    rw [atMost_iff, time_update]
    exact le_sup_left
  right := by
    rw [atMost_iff, time_update]
    exact le_sup_right
  least hac hbc := by
    rw [atMost_iff, time_update]
    exact sup_le (atMost_iff.mp hac) (atMost_iff.mp hbc)
  comm := by rw [update_comm, compare_self]
  assoc := by rw [update_assoc, compare_self]
  idem := by rw [update_self, compare_self]

end VectorClock

end Replication
end RTDB
