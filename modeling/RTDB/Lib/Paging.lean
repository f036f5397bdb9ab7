import Mathlib.Data.List.Flatten
import Mathlib.Data.Nat.Find

/-!
# Lists read page by page

A list is read in windows of `n` entries.  What is read of each window is a part of it; the whole
list is read if nothing of any window is left out.
-/

namespace RTDB
namespace Paging

variable {α β ι : Type*}

theorem flatMap_windows (l : List α) (n K : Nat) :
    ((List.range K).flatMap fun k => (l.drop (k * n)).take n) = l.take (K * n) := by
  induction K with
  | zero => simp
  | succ K ih =>
    rw [List.range_succ, List.flatMap_append, ih, List.flatMap_singleton, ← List.take_add,
      Nat.succ_mul]

theorem flatMap_windows_filterMap (f : α → Option β) (l : List α) (n K : Nat) :
    ((List.range K).flatMap fun k => ((l.drop (k * n)).take n).filterMap f) =
      (l.take (K * n)).filterMap f := by
  rw [← flatMap_windows l n K, List.filterMap_flatMap]

/-- Parts make up the whole when each of them is whole. -/
theorem flatMap_eq_iff {l : List ι} {page window : ι → List α}
    (hpart : ∀ i ∈ l, (page i).Sublist (window i)) :
    l.flatMap page = l.flatMap window ↔ ∀ i ∈ l, page i = window i := by
  induction l with
  | nil => simp
  | cons i l ih =>
    obtain ⟨hfirst, hrest⟩ := List.forall_mem_cons.mp hpart
    rw [List.forall_mem_cons, List.flatMap_cons, List.flatMap_cons, ← ih hrest]
    constructor
    · intro heq
      have hle := (List.Sublist.flatMap_right l hrest).length_le
      have hsum := congrArg List.length heq
      rw [List.length_append, List.length_append] at hsum
      have hpage : page i = window i := hfirst.eq_of_length (by have := hfirst.length_le; omega)
      rw [hpage] at heq
      exact ⟨hpage, List.append_cancel_left heq⟩
    · rintro ⟨hpage, heq⟩
      rw [hpage, heq]

theorem length_filterMap_take_add (f : α → Option β) (l : List α) (c m : Nat) :
    ((l.take (c + m)).filterMap f).length =
      ((l.take c).filterMap f).length + (((l.drop c).take m).filterMap f).length := by
  rw [List.take_add, List.filterMap_append, List.length_append]

/-- The first thing on page `k`, by its place among all. -/
theorem getElem?_flatMap_range (page : Nat → List α) {k K : Nat} (hk : k < K) (hne : page k ≠ []) :
    ((List.range K).flatMap page)[((List.range k).flatMap page).length]? = (page k).head? := by
  obtain ⟨m, rfl⟩ := Nat.exists_eq_add_of_le (Nat.succ_le_of_lt hk)
  rw [List.range_add, List.range_succ, List.append_assoc, List.flatMap_append,
    List.getElem?_append_right (Nat.le_refl _), Nat.sub_self, List.singleton_append, List.flatMap_cons]
  obtain ⟨x, rest, hpage⟩ := List.exists_cons_of_ne_nil hne
  rw [hpage]
  rfl

/-- What holds somewhere holds somewhere for the first time. -/
theorem exists_first {p : Nat → Prop} {n : Nat} (hn : p n) : ∃ k, k ≤ n ∧ p k ∧ ∀ j, j < k → ¬ p j := by
  classical
  have hsome : ∃ k, p k := ⟨n, hn⟩
  exact ⟨Nat.find hsome, Nat.find_min' hsome hn, Nat.find_spec hsome, fun j hj => Nat.find_min hsome hj⟩

end Paging
end RTDB
