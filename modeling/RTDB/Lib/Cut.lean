import Mathlib.Data.List.Basic

/-!
# The first matches of a list

What it takes for two predicates to have the same first matches, and for the first matches
to be found in the front of a list.
-/

namespace RTDB
namespace Cut

variable {α : Type*} {p q : α → Bool} {k n : Nat} {a : α} {l : List α}

/-- The predicates agree on each element with fewer than `k` matches before it. -/
def AgreeBefore (p q : α → Bool) (k : Nat) (l : List α) : Prop :=
  ∀ before a after, l = before ++ a :: after → before.countP p < k → p a = q a

theorem agreeBefore_nil : AgreeBefore p q k [] := by
  intro before a after hl
  exact absurd hl (by simp)

theorem agreeBefore_cons : AgreeBefore p q k (a :: l) ↔
    (0 < k → p a = q a) ∧ AgreeBefore p q (k - (p a).toNat) l := by
  have hcount : ∀ before, (a :: before).countP p < k ↔ before.countP p < k - (p a).toNat := by
    intro before
    cases hp : p a with
    | true =>
      rw [List.countP_cons_of_pos hp, Bool.toNat_true]
      omega
    | false =>
      rw [List.countP_cons_of_neg (by simp [hp]), Bool.toNat_false, Nat.sub_zero]
  constructor
  · intro hagree
    refine ⟨fun hk => hagree [] a l rfl hk, fun before b after hl hbefore => ?_⟩
    refine hagree (a :: before) b after ?_ ((hcount before).mpr hbefore)
    rw [hl, List.cons_append]
  · rintro ⟨hfirst, hrest⟩ before b after hl hbefore
    cases before with
    | nil =>
      obtain ⟨rfl, -⟩ := List.cons.inj hl
      exact hfirst hbefore
    | cons c before =>
      obtain ⟨rfl, htail⟩ := List.cons.inj hl
      exact hrest before b after htail ((hcount before).mp hbefore)

instance decidableAgreeBefore : (k : Nat) → (l : List α) → Decidable (AgreeBefore p q k l)
  | _, [] => isTrue agreeBefore_nil
  | k, a :: l =>
    have : Decidable (AgreeBefore p q (k - (p a).toNat) l) := decidableAgreeBefore _ l
    decidable_of_iff _ agreeBefore_cons.symm

/-- Two predicates have the same first matches when they agree up to the last of them. -/
theorem take_filter_iff : (l.filter p).take k = (l.filter q).take k ↔ AgreeBefore p q k l := by
  induction l generalizing k with
  | nil => simp [agreeBefore_nil]
  | cons a l ih =>
    rw [agreeBefore_cons]
    cases k with
    | zero =>
      rw [List.take_zero, List.take_zero]
      refine iff_of_true rfl ⟨fun h => absurd h (Nat.lt_irrefl 0), fun _ _ _ _ h => ?_⟩
      rw [Nat.zero_sub] at h
      exact absurd h (Nat.not_lt_zero _)
    | succ k =>
      have hmem : ∀ r : α → Bool, r a = false → ∀ rest, (l.filter r).take (k + 1) ≠ a :: rest := by
        intro r hr rest heq
        have ha : a ∈ (l.filter r).take (k + 1) := by
          rw [heq]
          exact List.mem_cons_self
        have hra := (List.mem_filter.mp (List.mem_of_mem_take ha)).2
        rw [hr] at hra
        exact Bool.false_ne_true hra
      cases hp : p a <;> cases hq : q a
      · rw [List.filter_cons_of_neg (by simp [hp]), List.filter_cons_of_neg (by simp [hq]), ih]
        simp
      · rw [List.filter_cons_of_neg (by simp [hp]), List.filter_cons_of_pos hq, List.take_succ_cons]
        exact iff_of_false (hmem p hp _) (by simp)
      · rw [List.filter_cons_of_pos hp, List.filter_cons_of_neg (by simp [hq]), List.take_succ_cons]
        exact iff_of_false (fun heq => hmem q hq _ heq.symm) (by simp)
      · rw [List.filter_cons_of_pos hp, List.filter_cons_of_pos hq, List.take_succ_cons,
          List.take_succ_cons, List.cons.injEq, ih]
        simp

/-- The first matches are in the front of the list when there are enough there, or none behind
it. -/
theorem front_iff : ((l.take n).filter p).take k = (l.filter p).take k ↔
    k ≤ (l.take n).countP p ∨ ∀ x ∈ l.drop n, p x = false := by
  have hsplit : l.filter p = (l.take n).filter p ++ (l.drop n).filter p := by
    rw [← List.filter_append, List.take_append_drop]
  rw [hsplit, List.countP_eq_length_filter]
  by_cases hk : k ≤ ((l.take n).filter p).length
  · rw [List.take_append_of_le_length hk]
    exact iff_of_true rfl (Or.inl hk)
  · have hless : ((l.take n).filter p).length ≤ k := Nat.le_of_not_le hk
    rw [List.take_of_length_le hless, List.take_append, List.take_of_length_le hless,
      List.self_eq_append_right, List.take_eq_nil_iff, List.filter_eq_nil_iff]
    constructor
    · rintro (hzero | hnone)
      · omega
      · exact Or.inr fun x hx => Bool.eq_false_iff.mpr (hnone x hx)
    · rintro (hle | hnone)
      · exact absurd hle hk
      · exact Or.inr fun x hx => Bool.eq_false_iff.mp (hnone x hx)

end Cut
end RTDB
