import Mathlib.Data.List.Basic

/-!
# Names with numbers

A name that ends in parts without a separator tells these parts apart, and a number is known by its
decimal digits.
-/

namespace RTDB
namespace Names

/-- Text without a separator tells what stands before its last separator. -/
theorem before_last {α : Type} {sep : α} {a b s t : List α} (hs : sep ∉ s) (ht : sep ∉ t)
    (heq : a ++ sep :: s = b ++ sep :: t) : a = b := by
  have hfront : ∀ {c u w : List α}, sep ∉ u → sep :: u = c ++ sep :: w → c = [] := by
    intro c u w hu hc
    cases c with
    | nil => rfl
    | cons x c =>
      rw [List.cons_append, List.cons.injEq] at hc
      rw [hc.2] at hu
      exact absurd (List.mem_append_right c List.mem_cons_self) hu
  rcases List.append_eq_append_iff.mp heq with ⟨c, rfl, hc⟩ | ⟨c, rfl, hc⟩
  · rw [hfront hs hc, List.append_nil]
  · rw [hfront ht hc, List.append_nil]

theorem after_last {α : Type} {sep : α} {a b s t : List α} (hs : sep ∉ s) (ht : sep ∉ t)
    (heq : a ++ sep :: s = b ++ sep :: t) : s = t := by
  rw [before_last hs ht heq] at heq
  exact (List.cons.inj (List.append_cancel_left heq)).2

theorem hyphen_notMem_toDigits (n : Nat) : '-' ∉ Nat.toDigits 10 n := by
  intro hmem
  exact absurd (Nat.isDigit_of_mem_toDigits (by decide) (by decide) hmem) (by decide)

theorem toDigits_inj {m n : Nat} (hdigits : Nat.toDigits 10 m = Nat.toDigits 10 n) : m = n := by
  have hread := congrArg (fun digits => Nat.ofDigitChars 10 digits 0) hdigits
  simpa using hread

end Names
end RTDB
