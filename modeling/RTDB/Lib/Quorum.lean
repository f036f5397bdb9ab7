import Mathlib.Data.Finset.Card
import Mathlib.Data.List.AList
import Mathlib.Data.List.Sort

/-!
# Majorities

Facts about counting.  Two majorities of one list of members share a member.
The entries of an association list that satisfy a test are as many as
the keys holding such an entry.  The value at rank `k` of a list sorted downward
is reached by more than `k` elements.
-/

namespace RTDB
namespace Quorum

variable {α : Type*} [DecidableEq α]

/-- A set of members that is more than half of the member list. -/
structure Majority (members : List α) (q : Finset α) : Prop where
  subset : ∀ a ∈ q, a ∈ members
  large : members.length < 2 * q.card

/-- Repeated members only make a majority harder to reach, so no hypothesis on
the member list is needed. -/
theorem Majority.inter {members : List α} {p q : Finset α}
    (hp : Majority members p) (hq : Majority members q) : ∃ a, a ∈ p ∧ a ∈ q := by
  by_contra h
  have hdisj : Disjoint p q := by
    rw [Finset.disjoint_left]
    intro a hap haq
    exact h ⟨a, hap, haq⟩
  have hsub : p ∪ q ⊆ members.toFinset := by
    intro a ha
    rw [List.mem_toFinset]
    rcases Finset.mem_union.mp ha with ha | ha
    · exact hp.subset a ha
    · exact hq.subset a ha
  have hcard : (p ∪ q).card ≤ members.length :=
    Nat.le_trans (Finset.card_le_card hsub) members.toFinset_card_le
  rw [Finset.card_union_of_disjoint hdisj] at hcard
  have := hp.large
  have := hq.large
  omega

/-! ## Members with repetitions -/

/-- Two lists out of one that are longer than it together share a member, also where it
repeats members. -/
theorem exists_common {l s t : List α} (hs : s.Subperm l) (ht : t.Subperm l)
    (hlong : l.length < s.length + t.length) : ∃ a ∈ s, a ∈ t := by
  by_contra hnone
  have hcount : ∀ a ∈ s ++ t, (s ++ t).count a ≤ l.count a := by
    intro a _
    rw [List.count_append]
    by_cases has : a ∈ s
    · have hat : a ∉ t := fun hat => hnone ⟨a, has, hat⟩
      rw [List.count_eq_zero_of_not_mem hat]
      exact hs.count_le a
    · rw [List.count_eq_zero_of_not_mem has, Nat.zero_add]
      exact ht.count_le a
  have hle := (List.subperm_ext_iff.mpr hcount).length_le
  rw [List.length_append] at hle
  omega

omit [DecidableEq α] in
/-- Any length between those of a list and a sublist is that of a list between them. -/
theorem exists_sublist_between {s l : List α} {n : Nat} (hsub : s.Sublist l) (hlow : s.length ≤ n)
    (hhigh : n ≤ l.length) : ∃ t : List α, s.Sublist t ∧ t.Sublist l ∧ t.length = n := by
  induction hsub generalizing n with
  | slnil => exact ⟨[], List.Sublist.slnil, List.Sublist.slnil, (Nat.eq_zero_of_le_zero hhigh).symm⟩
  | @cons s l a hsub ih =>
    by_cases hn : n ≤ l.length
    · obtain ⟨t, hst, htl, hlen⟩ := ih hlow hn
      exact ⟨t, hst, htl.cons a, hlen⟩
    · rw [List.length_cons] at hhigh
      refine ⟨a :: l, hsub.cons a, List.Sublist.refl _, ?_⟩
      rw [List.length_cons]
      omega
  | @cons_cons s l a hsub ih =>
    rw [List.length_cons] at hlow hhigh
    obtain ⟨t, hst, htl, hlen⟩ := @ih (n - 1) (by omega) (by omega)
    refine ⟨a :: t, hst.cons_cons a, htl.cons_cons a, ?_⟩
    rw [List.length_cons]
    omega

/-! ## Counting in a map -/

section Map

variable {β : Type*} (m : AList (fun _ : α => β)) (test : β → Bool)

def passing : Finset α :=
  ((m.entries.filter (fun e => test e.2)).map Sigma.fst).toFinset

theorem mem_passing {a : α} : a ∈ passing m test ↔ ∃ b, m.lookup a = some b ∧ test b = true := by
  simp only [passing, List.mem_toFinset, List.mem_map, List.mem_filter]
  constructor
  · rintro ⟨⟨k, b⟩, ⟨hmem, htest⟩, rfl⟩
    exact ⟨b, AList.mem_lookup_iff.mpr hmem, htest⟩
  · rintro ⟨b, hlook, htest⟩
    exact ⟨⟨a, b⟩, ⟨AList.mem_lookup_iff.mp hlook, htest⟩, rfl⟩

theorem card_passing :
    (passing m test).card = (m.entries.filter (fun e => test e.2)).length := by
  have hnd : ((m.entries.filter (fun e => test e.2)).map Sigma.fst).Nodup :=
    List.Nodup.sublist (List.filter_sublist.map Sigma.fst) m.keys_nodup
  rw [passing, List.toFinset_card_of_nodup hnd, List.length_map]

end Map

/-! ## Ranks -/

/-- In a list sorted downward, the value at rank `k` is reached by the first
`k + 1` elements, and sorting does not change how many there are. -/
theorem rank_le_countP {l : List Nat} {k v : Nat}
    (hv : (l.insertionSort (· ≥ ·))[k]? = some v) : k + 1 ≤ l.countP (v ≤ ·) := by
  obtain ⟨hk, hget⟩ := List.getElem?_eq_some_iff.mp hv
  have hsorted : (l.insertionSort (· ≥ ·)).Pairwise (· ≥ ·) := List.pairwise_insertionSort _ l
  have hall : ∀ a ∈ (l.insertionSort (· ≥ ·)).take (k + 1), v ≤ a := by
    intro a ha
    obtain ⟨i, hi, rfl⟩ := List.mem_iff_getElem.mp ha
    rw [List.length_take] at hi
    rw [List.getElem_take, ← hget]
    rcases Nat.lt_or_ge i k with hik | hik
    · exact List.pairwise_iff_getElem.mp hsorted i k _ hk hik
    · have : i = k := by omega
      subst this
      exact Nat.le_refl _
  calc k + 1 = ((l.insertionSort (· ≥ ·)).take (k + 1)).length := by
        rw [List.length_take]
        omega
    _ = ((l.insertionSort (· ≥ ·)).take (k + 1)).countP (v ≤ ·) := by
        rw [List.countP_eq_length.mpr]
        simpa using hall
    _ ≤ (l.insertionSort (· ≥ ·)).countP (v ≤ ·) :=
        List.Sublist.countP_le (List.take_sublist _ _)
    _ = l.countP (v ≤ ·) := (List.perm_insertionSort _ l).countP_eq _

end Quorum
end RTDB
