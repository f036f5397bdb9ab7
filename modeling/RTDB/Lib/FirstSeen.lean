import Mathlib.Data.List.Induction
import Mathlib.Data.List.Nodup

/-!
# First appearances

A list with the repeats left out keeps its elements in the order in which they first
appear.
-/

namespace RTDB
namespace FirstSeen

variable {α : Type} [DecidableEq α]

theorem eraseDups_concat (l : List α) (a : α) :
    (l ++ [a]).eraseDups = if a ∈ l then l.eraseDups else l.eraseDups ++ [a] := by
  rw [List.eraseDups_append]
  by_cases ha : a ∈ l <;> simp [List.cons_removeAll, List.eraseDups_cons, ha]

theorem eraseDups_append_subset {l m : List α} (hm : ∀ a ∈ m, a ∈ l) :
    (l ++ m).eraseDups = l.eraseDups := by
  have hnone : m.removeAll l = [] := by
    rw [List.removeAll, List.filter_eq_nil_iff]
    intro a ha
    simp [hm a ha]
  rw [List.eraseDups_append, hnone, List.eraseDups_nil, List.append_nil]

theorem nodup_eraseDups (l : List α) : l.eraseDups.Nodup := by
  induction l using List.reverseRecOn with
  | nil => exact List.nodup_nil
  | append_singleton l a ih =>
    rw [eraseDups_concat]
    split
    · exact ih
    · next ha =>
      refine ih.append (List.nodup_singleton a) ?_
      rw [List.disjoint_singleton, List.mem_eraseDups]
      exact ha

theorem eraseDups_of_nodup {l : List α} (hl : l.Nodup) : l.eraseDups = l := by
  induction l using List.reverseRecOn with
  | nil => exact List.eraseDups_nil
  | append_singleton l a ih =>
    obtain ⟨hfront, -, hdisjoint⟩ := List.nodup_append'.mp hl
    rw [eraseDups_concat, if_neg (List.disjoint_singleton.mp hdisjoint), ih hfront]

/-- The elements stand in the order of their first places. -/
theorem pairwise_eraseDups (l : List α) :
    l.eraseDups.Pairwise fun a b => l.idxOf a < l.idxOf b := by
  induction l using List.reverseRecOn with
  | nil => exact List.Pairwise.nil
  | append_singleton l c ih =>
    have hsame : ∀ a ∈ l, (l ++ [c]).idxOf a = l.idxOf a := fun a ha => by
      rw [List.idxOf_append, if_pos ha]
    have hkept : l.eraseDups.Pairwise fun a b => (l ++ [c]).idxOf a < (l ++ [c]).idxOf b := by
      refine ih.imp_of_mem fun {a b} ha hb hlt => ?_
      rw [hsame a (List.mem_eraseDups.mp ha), hsame b (List.mem_eraseDups.mp hb)]
      exact hlt
    rw [eraseDups_concat]
    split
    · exact hkept
    · next hc =>
      refine List.pairwise_append.mpr ⟨hkept, List.pairwise_singleton _ _, fun a ha b hb => ?_⟩
      have hmem : a ∈ l := List.mem_eraseDups.mp ha
      rw [List.mem_singleton.mp hb, hsame a hmem, List.idxOf_append, if_neg hc]
      have hlt := List.idxOf_lt_length_of_mem hmem
      omega

/-- What comes before one of the first few is one of them. -/
theorem mem_take_eraseDups {l : List α} {n : Nat} {a b : α} (ha : a ∈ l)
    (hb : b ∈ l.eraseDups.take n) (hlt : l.idxOf a < l.idxOf b) : a ∈ l.eraseDups.take n := by
  have hmem : a ∈ l.eraseDups.take n ++ l.eraseDups.drop n := by
    rw [List.take_append_drop, List.mem_eraseDups]
    exact ha
  rcases List.mem_append.mp hmem with htake | hdrop
  · exact htake
  · have hpair := pairwise_eraseDups l
    rw [← List.take_append_drop n l.eraseDups] at hpair
    have hgt := (List.pairwise_append.mp hpair).2.2 b hb a hdrop
    omega

theorem head?_eraseDups (l : List α) : l.eraseDups.head? = l.head? := by
  cases l with
  | nil => rfl
  | cons a l => rw [List.eraseDups_cons, List.head?_cons, List.head?_cons]

end FirstSeen
end RTDB
