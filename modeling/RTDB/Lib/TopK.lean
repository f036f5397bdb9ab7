import Mathlib.Data.Finset.Card
import Mathlib.Data.Finset.Max
import Mathlib.Order.Lattice

/-!
# The nearest of a pool

A list of the `k` nearest members of a pool, nearest first.  A list that is sorted farthest first and
then cut has these only when all it leads with are equally near.
-/

namespace RTDB
namespace TopK

variable {ι D : Type*} [LinearOrder D]

/-- The list has `k` members of the pool, or all of them, nearest first; no other is nearer. -/
structure Nearest (dist : ι → D) (k : Nat) (pool : Finset ι) (l : List ι) : Prop where
  nodup : l.Nodup
  mem : ∀ i ∈ l, i ∈ pool
  length : l.length = min k pool.card
  sorted : l.Pairwise fun i j => dist i ≤ dist j
  others : ∀ i ∈ pool, i ∉ l → ∀ j ∈ l, dist j ≤ dist i

def farther (dist : ι → D) (i j : ι) : Bool := decide (dist j ≤ dist i)

def farthestFirst (dist : ι → D) (l : List ι) : List ι := l.mergeSort (farther dist)

variable {dist : ι → D}

theorem farther_trans (i j k : ι) (hij : farther dist i j) (hjk : farther dist j k) :
    farther dist i k := by
  exact decide_eq_true ((of_decide_eq_true hjk).trans (of_decide_eq_true hij))

theorem farther_total (i j : ι) : farther dist i j || farther dist j i := by
  rw [Bool.or_eq_true]
  exact (le_total (dist j) (dist i)).imp decide_eq_true decide_eq_true

theorem pairwise_farthestFirst (l : List ι) :
    (farthestFirst dist l).Pairwise fun i j => dist j ≤ dist i :=
  (List.pairwise_mergeSort farther_trans farther_total l).imp fun hfarther =>
    of_decide_eq_true hfarther

theorem mem_farthestFirst {l : List ι} {i : ι} : i ∈ farthestFirst dist l ↔ i ∈ l :=
  List.mem_mergeSort

theorem split_of_sorted {l : List ι} {d : D} (hsorted : l.Pairwise fun i j => dist j ≤ dist i)
    (hle : ∀ i ∈ l, dist i ≤ d) :
    ∃ rest, l = l.filter (fun i => dist i = d) ++ rest ∧ ∀ i ∈ rest, dist i < d := by
  induction l with
  | nil => exact ⟨[], rfl, fun _ hmem => absurd hmem List.not_mem_nil⟩
  | cons i l ih =>
    obtain ⟨hfirst, hsorted⟩ := List.pairwise_cons.mp hsorted
    rw [List.filter_cons]
    by_cases hi : dist i = d
    · obtain ⟨rest, hrest, hlt⟩ := ih hsorted fun j hj => hle j (List.mem_cons_of_mem _ hj)
      rw [if_pos (decide_eq_true hi)]
      exact ⟨rest, by rw [List.cons_append, ← hrest], hlt⟩
    · have hlt : dist i < d := lt_of_le_of_ne (hle i List.mem_cons_self) hi
      have hbelow : ∀ j ∈ l, dist j < d := fun j hj => (hfirst j hj).trans_lt hlt
      have hnone : l.filter (fun i => dist i = d) = [] :=
        List.filter_eq_nil_iff.mpr fun j hj heq => (hbelow j hj).ne (of_decide_eq_true heq)
      rw [if_neg (by rw [decide_eq_true_eq]; exact hi), hnone]
      refine ⟨i :: l, rfl, fun j hj => ?_⟩
      rcases List.mem_cons.mp hj with rfl | hj
      · exact hlt
      · exact hbelow j hj

/-- Of what is no farther than a bound, the sort puts what is at the bound first, in the order it
had. -/
theorem farthestFirst_eq {l : List ι} {d : D} (hle : ∀ i ∈ l, dist i ≤ d) :
    ∃ rest, farthestFirst dist l = l.filter (fun i => dist i = d) ++ rest ∧
      ∀ i ∈ rest, dist i < d := by
  have hequal : (l.filter fun i => dist i = d).Pairwise fun i j => farther dist i j := by
    refine List.pairwise_of_forall_mem_list fun i hi j hj => ?_
    have hi := of_decide_eq_true (List.mem_filter.mp hi).2
    have hj := of_decide_eq_true (List.mem_filter.mp hj).2
    exact decide_eq_true (hj.trans hi.symm).le
  have hkept := (List.sublist_mergeSort farther_trans farther_total hequal
    List.filter_sublist).filter fun i => decide (dist i = d)
  simp only [List.filter_filter, Bool.and_self] at hkept
  have hlength := ((List.mergeSort_perm l (farther dist)).filter fun i => dist i = d).length_eq
  have hsame := hkept.eq_of_length hlength.symm
  obtain ⟨rest, hrest, hlt⟩ := split_of_sorted (pairwise_farthestFirst l)
    fun i hi => hle i (mem_farthestFirst.mp hi)
  exact ⟨rest, hrest.trans (by rw [hsame]; rfl), hlt⟩

/-! ## When the farthest are the nearest -/

/-- Nothing is farther than any member of the pool; what is as far as one of them leads with `k`
different members, or all, and fills the list if it is short. -/
def Tied (dist : ι → D) (k : Nat) (pool : Finset ι) (l : List ι) : Prop :=
  (∀ i ∈ l, ∀ c ∈ pool, dist i ≤ dist c) ∧
    let near := l.filter fun i => ∃ c ∈ pool, dist c ≤ dist i
    (near.take k).Nodup ∧ (∀ i ∈ near.take k, i ∈ pool) ∧
      (near.take k).length = min k pool.card ∧ (near.length < k → near = l)

theorem farthestFirst_pool {pool : Finset ι} {l : List ι} {c : ι} (hc : c ∈ pool)
    (hmin : ∀ i ∈ pool, dist c ≤ dist i) (hle : ∀ i ∈ l, dist i ≤ dist c) :
    ∃ rest, farthestFirst dist l = l.filter (fun i => ∃ c ∈ pool, dist c ≤ dist i) ++ rest ∧
      ∀ i ∈ rest, dist i < dist c := by
  have hsame : l.filter (fun i => ∃ c ∈ pool, dist c ≤ dist i) =
      l.filter (fun i => dist i = dist c) := by
    refine List.filter_congr fun i hi => decide_eq_decide.mpr ⟨?_, fun heq => ⟨c, hc, heq.ge⟩⟩
    rintro ⟨c', hc', hle'⟩
    exact le_antisymm (hle i hi) ((hmin c' hc').trans hle')
  rw [hsame]
  exact farthestFirst_eq hle

theorem tied_of_nearest {k : Nat} {pool : Finset ι} {l : List ι} (hk : k ≠ 0)
    (hnearest : Nearest dist k pool ((farthestFirst dist l).take k)) : Tied dist k pool l := by
  rcases hsort : farthestFirst dist l with _ | ⟨top, sorted⟩
  · obtain rfl : l = [] := List.eq_nil_iff_forall_not_mem.mpr fun i hi =>
      absurd (mem_farthestFirst.mpr hi) (by rw [hsort]; exact List.not_mem_nil)
    have hlength := hnearest.length
    rw [hsort, List.take_nil, List.length_nil] at hlength
    refine ⟨fun i hi => absurd hi List.not_mem_nil, ?_⟩
    exact ⟨List.nodup_nil.sublist (List.take_sublist k _), fun i hi => absurd hi (by simp),
      by simpa using hlength, fun _ => rfl⟩
  · have hin : top ∈ (farthestFirst dist l).take k := by
      rw [hsort]
      obtain ⟨k, rfl⟩ := Nat.exists_eq_succ_of_ne_zero hk
      exact List.mem_cons_self
    have hfarthest : ∀ i ∈ l, dist i ≤ dist top := by
      intro i hi
      have hsorted : (farthestFirst dist l).Pairwise _ := pairwise_farthestFirst l
      rw [hsort] at hsorted
      rcases List.mem_cons.mp (hsort ▸ mem_farthestFirst.mpr hi) with rfl | hmem
      · exact le_rfl
      · exact (List.pairwise_cons.mp hsorted).1 i hmem
    -- Sorted both ways, what is returned is all as near as the farthest of it.
    have hall : ∀ i ∈ (farthestFirst dist l).take k, dist i = dist top := by
      intro i hi
      refine le_antisymm (hfarthest i (mem_farthestFirst.mp (List.mem_of_mem_take hi))) ?_
      have hsorted := hnearest.sorted
      rw [hsort] at hsorted hi
      obtain ⟨k, rfl⟩ := Nat.exists_eq_succ_of_ne_zero hk
      rw [List.take_succ_cons] at hsorted hi
      rcases List.mem_cons.mp hi with rfl | hmem
      · exact le_rfl
      · exact (List.pairwise_cons.mp hsorted).1 i hmem
    have hmin : ∀ c ∈ pool, dist top ≤ dist c := by
      intro c hc
      by_cases hcin : c ∈ (farthestFirst dist l).take k
      · exact (hall c hcin).ge
      · exact hnearest.others c hc hcin top hin
    refine ⟨fun i hi c hc => (hfarthest i hi).trans (hmin c hc), ?_⟩
    obtain ⟨rest, hsplit, hrest⟩ := farthestFirst_pool (hnearest.mem top hin) hmin hfarthest
    generalize hnear : l.filter (fun i => decide (∃ c ∈ pool, dist c ≤ dist i)) = near at hsplit
    have hnone : near.length < k → rest = [] := by
      intro hshort
      cases rest with
      | nil => rfl
      | cons i rest =>
        have hi : i ∈ (farthestFirst dist l).take k := by
          rw [hsplit, List.take_append, List.take_of_length_le hshort.le]
          obtain ⟨n, hn⟩ : ∃ n, k - near.length = n + 1 := ⟨k - near.length - 1, by omega⟩
          rw [hn, List.take_succ_cons]
          exact List.mem_append_right _ List.mem_cons_self
        exact absurd (hall i hi) (hrest i List.mem_cons_self).ne
    have hsame : (farthestFirst dist l).take k = near.take k := by
      rw [hsplit]
      rcases Nat.lt_or_ge near.length k with hshort | hlong
      · rw [hnone hshort, List.append_nil]
      · rw [List.take_append_of_le_length hlong]
    rw [hsame] at hnearest
    refine ⟨hnearest.nodup, hnearest.mem, hnearest.length, fun hshort => ?_⟩
    have hlength := (List.mergeSort_perm l (farther dist)).length_eq
    rw [show l.mergeSort (farther dist) = _ from hsplit, hnone hshort, List.append_nil] at hlength
    exact (hnear ▸ List.filter_sublist).eq_of_length hlength

theorem nearest_of_tied {k : Nat} {pool : Finset ι} {l : List ι} (htied : Tied dist k pool l) :
    Nearest dist k pool ((farthestFirst dist l).take k) := by
  obtain ⟨hle, hnodup, hmem, hlength, hshort⟩ := htied
  rcases pool.eq_empty_or_nonempty with rfl | hpool
  · rw [Finset.card_empty, Nat.min_zero, List.length_eq_zero_iff] at hlength
    have hnone : (farthestFirst dist l).take k = [] := by
      rcases Nat.eq_zero_or_pos k with rfl | hk
      · exact List.take_zero
      · have hl : l = [] := by
          rw [← hshort (by simpa using hk)]
          simp
        rw [hl, farthestFirst, List.mergeSort_nil, List.take_nil]
    rw [hnone]
    exact
      { nodup := List.nodup_nil
        mem := fun i hi => absurd hi List.not_mem_nil
        length := (Nat.min_zero k).symm
        sorted := List.Pairwise.nil
        others := fun i hi => absurd hi (Finset.notMem_empty i) }
  · obtain ⟨c, hc, hmin⟩ := pool.exists_min_image dist hpool
    obtain ⟨rest, hsplit, hrest⟩ := farthestFirst_pool hc hmin fun i hi => hle i hi c hc
    have hsame : (farthestFirst dist l).take k =
        (l.filter fun i => ∃ c ∈ pool, dist c ≤ dist i).take k := by
      rw [hsplit]
      rcases Nat.lt_or_ge (l.filter fun i => ∃ c ∈ pool, dist c ≤ dist i).length k with hlt | hge
      · have hperm := (List.mergeSort_perm l (farther dist)).length_eq
        rw [show l.mergeSort (farther dist) = _ from hsplit, hshort hlt, List.length_append] at hperm
        rw [List.eq_nil_of_length_eq_zero (l := rest) (by omega), List.append_nil]
      · rw [List.take_append_of_le_length hge]
    have htop : ∀ i ∈ (l.filter fun i => ∃ c ∈ pool, dist c ≤ dist i).take k,
        ∀ c ∈ pool, dist i ≤ dist c :=
      fun i hi => hle i (List.mem_of_mem_filter (List.mem_of_mem_take hi))
    rw [hsame]
    exact
      { nodup := hnodup
        mem := hmem
        length := hlength
        sorted := List.pairwise_of_forall_mem_list fun i hi j hj => htop i hi j (hmem j hj)
        others := fun i hi _ j hj => htop j hj i hi }

/-- A list cut behind its farthest is right when nothing is asked for, or all it leads with ties. -/
theorem nearest_farthestFirst_iff {k : Nat} {pool : Finset ι} {l : List ι} :
    Nearest dist k pool ((farthestFirst dist l).take k) ↔ k = 0 ∨ Tied dist k pool l := by
  constructor
  · intro hnearest
    by_cases hk : k = 0
    · exact Or.inl hk
    · exact Or.inr (tied_of_nearest hk hnearest)
  · rintro (rfl | htied)
    · exact
        { nodup := List.nodup_nil
          mem := fun i hi => absurd hi List.not_mem_nil
          length := (Nat.zero_min _).symm
          sorted := List.Pairwise.nil
          others := fun _ _ _ _ hj => absurd hj List.not_mem_nil }
    · exact nearest_of_tied htied

/-! ## Fronts of sorted lists -/

section Fronts

variable [DecidableEq ι] {k : Nat} {pool : Finset ι} {l : List ι}

/-- Of a list of the whole pool, the front is right when each of its members is at least as near as
all behind it. -/
theorem nearest_take_iff (hnodup : l.Nodup) (hmem : ∀ i, i ∈ l ↔ i ∈ pool) :
    Nearest dist k pool (l.take k) ↔
      ∀ before i after, l = before ++ i :: after → before.length < k →
        ∀ j ∈ after, dist i ≤ dist j := by
  constructor
  · intro hnearest before i after hsplit hlength j hj
    have hfront : l.take k = before ++ i :: after.take (k - before.length - 1) := by
      obtain ⟨n, hn⟩ : ∃ n, k - before.length = n + 1 := ⟨k - before.length - 1, by omega⟩
      rw [hsplit, List.take_append, List.take_of_length_le hlength.le, hn, List.take_succ_cons,
        Nat.add_sub_cancel]
    by_cases hin : j ∈ after.take (k - before.length - 1)
    · have hsorted := hnearest.sorted
      rw [hfront] at hsorted
      exact (List.pairwise_cons.mp (List.pairwise_append.mp hsorted).2.1).1 j hin
    · refine hnearest.others j ((hmem j).mp ?_) ?_ i ?_
      · rw [hsplit]
        exact List.mem_append_right _ (List.mem_cons_of_mem _ hj)
      · rw [hsplit, List.nodup_append, List.nodup_cons] at hnodup
        rw [hfront, List.mem_append, List.mem_cons]
        rintro (hbefore | rfl | hafter)
        · exact hnodup.2.2 j hbefore j (List.mem_cons_of_mem _ hj) rfl
        · exact hnodup.2.1.1 hj
        · exact hin hafter
      · rw [hfront]
        exact List.mem_append_right _ List.mem_cons_self
  · intro hgood
    have hsplit : ∀ before i after, l.take k = before ++ i :: after →
        l = before ++ i :: (after ++ l.drop k) ∧ before.length < k := by
      intro before i after hfront
      refine ⟨?_, ?_⟩
      · calc l = l.take k ++ l.drop k := (List.take_append_drop k l).symm
          _ = before ++ i :: (after ++ l.drop k) := by
            rw [hfront, List.append_assoc, List.cons_append]
      · have hlength := congrArg List.length hfront
        rw [List.length_take, List.length_append, List.length_cons] at hlength
        omega
    have hcard : l.length = pool.card := by
      rw [← List.toFinset_card_of_nodup hnodup]
      exact congrArg Finset.card (Finset.ext fun i => List.mem_toFinset.trans (hmem i))
    exact
      { nodup := hnodup.sublist (List.take_sublist k l)
        mem := fun i hi => (hmem i).mp (List.mem_of_mem_take hi)
        length := by rw [List.length_take, hcard]
        sorted := by
          rw [List.pairwise_iff_forall_sublist]
          intro i j hsub
          obtain ⟨front, rest, hfront, hi, hj⟩ := List.cons_sublist_iff.mp hsub
          obtain ⟨before, after, rfl⟩ := List.append_of_mem hi
          obtain ⟨heq, hlength⟩ := hsplit before i (after ++ rest) (by rw [hfront]; simp)
          refine hgood before i _ heq hlength j ?_
          exact List.mem_append_left _ (List.mem_append_right _ (List.singleton_sublist.mp hj))
        others := by
          intro i hi hnot j hj
          obtain ⟨before, after, hfront⟩ := List.append_of_mem hj
          obtain ⟨heq, hlength⟩ := hsplit before j after hfront
          refine hgood before j _ heq hlength i (List.mem_append_right _ ?_)
          have hmem := (hmem i).mpr hi
          rw [← List.take_append_drop k l] at hmem
          exact (List.mem_append.mp hmem).resolve_left hnot }

theorem nearest_take_of_sorted (hnodup : l.Nodup) (hmem : ∀ i, i ∈ l ↔ i ∈ pool)
    (hsorted : l.Pairwise fun i j => dist i ≤ dist j) : Nearest dist k pool (l.take k) := by
  refine (nearest_take_iff hnodup hmem).mpr fun before i after hsplit _ j hj => ?_
  rw [hsplit] at hsorted
  exact (List.pairwise_cons.mp (List.pairwise_append.mp hsorted).2.1).1 j hj

/-- A list that is sorted farthest first has the nearest in front when nothing is asked for, or all
are equally near. -/
theorem nearest_take_of_reversed (hnodup : l.Nodup) (hmem : ∀ i, i ∈ l ↔ i ∈ pool)
    (hsorted : l.Pairwise fun i j => dist j ≤ dist i) :
    Nearest dist k pool (l.take k) ↔ k = 0 ∨ ∀ i ∈ pool, ∀ j ∈ pool, dist i = dist j := by
  rw [nearest_take_iff hnodup hmem]
  constructor
  · intro hgood
    by_cases hk : k = 0
    · exact Or.inl hk
    · refine Or.inr ?_
      cases l with
      | nil => exact fun i hi => absurd ((hmem i).mpr hi) List.not_mem_nil
      | cons first l =>
        have hsame : ∀ i ∈ pool, dist i = dist first := by
          intro i hi
          rcases List.mem_cons.mp ((hmem i).mpr hi) with rfl | hi
          · rfl
          · exact le_antisymm ((List.pairwise_cons.mp hsorted).1 i hi)
              (hgood [] first l rfl (Nat.pos_of_ne_zero hk) i hi)
        exact fun i hi j hj => (hsame i hi).trans (hsame j hj).symm
  · rintro (rfl | hsame) before i after hsplit hlength j hj
    · exact absurd hlength (Nat.not_lt_zero _)
    · refine (hsame i ((hmem i).mp ?_) j ((hmem j).mp ?_)).le
      · rw [hsplit]
        exact List.mem_append_right _ List.mem_cons_self
      · rw [hsplit]
        exact List.mem_append_right _ (List.mem_cons_of_mem _ hj)

omit [DecidableEq ι] in
theorem mem_behind {before after : List ι} {i j : ι} (hnodup : (before ++ i :: after).Nodup)
    (hsub : [i, j].Sublist (before ++ i :: after)) : j ∈ after := by
  induction before with
  | nil =>
    cases hsub with
    | cons _ hsub => exact hsub.subset (List.mem_cons_of_mem _ List.mem_cons_self)
    | cons_cons _ hsub => exact List.singleton_sublist.mp hsub
  | cons first before ih =>
    obtain ⟨hfirst, hnodup⟩ := List.nodup_cons.mp hnodup
    cases hsub with
    | cons _ hsub => exact ih hnodup hsub
    | cons_cons _ _ => exact absurd (List.mem_append_right _ List.mem_cons_self) hfirst

section Score

variable {S : Type*} [LinearOrder S] {score : ι → S}

omit [DecidableEq ι] in
theorem farthestFirst_nodup (score : ι → S) {l : List ι} (hnodup : l.Nodup) :
    (farthestFirst score l).Nodup :=
  (List.mergeSort_perm l _).nodup_iff.mpr hnodup

omit [DecidableEq ι] in
/-- What scores no better than the first stays behind it. -/
theorem first_behind {i c : ι} {rest before after : List ι} (hnodup : (i :: rest).Nodup)
    (hsplit : farthestFirst score (i :: rest) = before ++ i :: after) (hc : c ∈ rest)
    (hle : score c ≤ score i) : c ∈ after := by
  have hsub : [i, c].Sublist (farthestFirst score (i :: rest)) := by
    refine List.pair_sublist_mergeSort farther_trans farther_total (decide_eq_true hle) ?_
    exact List.Sublist.cons_cons i (List.singleton_sublist.mpr hc)
  have hsorted := farthestFirst_nodup score hnodup
  rw [hsplit] at hsub hsorted
  exact mem_behind hsorted hsub

omit [DecidableEq ι] in
/-- Only better ones come before it. -/
theorem better_before_first {i c : ι} {rest before after : List ι} (hnodup : (i :: rest).Nodup)
    (hsplit : farthestFirst score (i :: rest) = before ++ i :: after) (hc : c ∈ before) :
    score i < score c := by
  have hsorted := farthestFirst_nodup score hnodup
  rw [hsplit] at hsorted
  have hapart := (List.nodup_append.mp hsorted).2.2 c hc
  refine lt_of_not_ge fun hle => ?_
  have hmem : c ∈ farthestFirst score (i :: rest) := by
    rw [hsplit]
    exact List.mem_append_left _ hc
  rcases List.mem_cons.mp (mem_farthestFirst.mp hmem) with rfl | hrest
  · exact hapart c List.mem_cons_self rfl
  · exact hapart c (List.mem_cons_of_mem i (first_behind hnodup hsplit hrest hle)) rfl

/-- What one of the first `k` of a sort by score can have in front of it, and behind it. -/
theorem nearest_of_scores
    (hpairs : ∀ i ∈ pool, ∀ j ∈ pool, i ≠ j → score j ≤ score i →
      (pool.filter fun c => score i < score c).card < k → dist i ≤ dist j)
    {l : List ι} (hnodup : l.Nodup) (hmem : ∀ i, i ∈ l ↔ i ∈ pool) :
    Nearest dist k pool ((farthestFirst score l).take k) := by
  have hnodup' := farthestFirst_nodup score hnodup
  have hmem' : ∀ i, i ∈ farthestFirst score l ↔ i ∈ pool := fun i => mem_farthestFirst.trans (hmem i)
  refine (nearest_take_iff hnodup' hmem').mpr fun before i after hsplit hlength j hj => ?_
  have hsorted : (farthestFirst score l).Pairwise fun i j => score j ≤ score i :=
    pairwise_farthestFirst l
  have hin : ∀ c ∈ before ++ i :: after, c ∈ pool := by
    intro c hc
    rw [← hsplit] at hc
    exact (hmem' c).mp hc
  rw [hsplit] at hnodup' hsorted
  obtain ⟨-, htail, -⟩ := List.pairwise_append.mp hsorted
  obtain ⟨-, hnodup', hdisjoint⟩ := List.nodup_append.mp hnodup'
  refine hpairs i (hin i (by simp)) j (hin j (by simp [hj])) ?_
    ((List.pairwise_cons.mp htail).1 j hj) ?_
  · rintro rfl
    exact (List.nodup_cons.mp hnodup').1 hj
  · refine lt_of_le_of_lt (Finset.card_le_card (t := before.toFinset) fun c hc => ?_)
      ((List.toFinset_card_le before).trans_lt hlength)
    obtain ⟨hc, hbetter⟩ := Finset.mem_filter.mp hc
    have hmem := (hmem' c).mpr hc
    rw [hsplit, List.mem_append, List.mem_cons] at hmem
    rcases hmem with hmem | rfl | hmem
    · exact List.mem_toFinset.mpr hmem
    · exact absurd hbetter (lt_irrefl _)
    · exact absurd ((List.pairwise_cons.mp htail).1 c hmem) (not_le.mpr hbetter)

/-- A sort by a score, best first, has the nearest in front, however it was ordered before, when
each of a pair that can come first is at least as near as the other. -/
theorem nearest_by_score_iff :
    (∀ l : List ι, l.Nodup → (∀ i, i ∈ l ↔ i ∈ pool) →
        Nearest dist k pool ((farthestFirst score l).take k)) ↔
      ∀ i ∈ pool, ∀ j ∈ pool, i ≠ j → score j ≤ score i →
        (pool.filter fun c => score i < score c).card < k → dist i ≤ dist j := by
  constructor
  · intro hall i hi j hj hne hscore hfew
    have hmem : ∀ c, c ∈ i :: (pool.erase i).toList ↔ c ∈ pool := by
      intro c
      rw [List.mem_cons, Finset.mem_toList, Finset.mem_erase]
      by_cases hc : c = i
      · exact iff_of_true (Or.inl hc) (hc ▸ hi)
      · rw [or_iff_right hc, and_iff_right hc]
    have hnodup : (i :: (pool.erase i).toList).Nodup :=
      List.nodup_cons.mpr ⟨by simp, Finset.nodup_toList _⟩
    have hnodup' := farthestFirst_nodup score hnodup
    have hmem' : ∀ c, c ∈ farthestFirst score (i :: (pool.erase i).toList) ↔ c ∈ pool :=
      fun c => mem_farthestFirst.trans (hmem c)
    obtain ⟨before, after, hsplit⟩ := List.append_of_mem ((hmem' i).mpr hi)
    have hgood := (nearest_take_iff hnodup' hmem').mp (hall _ hnodup hmem) before i after hsplit
    have hafter : j ∈ after := by
      refine first_behind hnodup hsplit ?_ hscore
      exact Finset.mem_toList.mpr (Finset.mem_erase.mpr ⟨hne.symm, hj⟩)
    have hbefore : before.length ≤ (pool.filter fun c => score i < score c).card := by
      rw [hsplit] at hnodup' hmem'
      rw [← List.toFinset_card_of_nodup (List.nodup_append.mp hnodup').1]
      refine Finset.card_le_card fun c hc => ?_
      rw [List.mem_toFinset] at hc
      exact Finset.mem_filter.mpr ⟨(hmem' c).mp (List.mem_append_left _ hc),
        better_before_first hnodup hsplit hc⟩
    exact hgood (by omega) j hafter
  · exact fun hpairs l hnodup hmem => nearest_of_scores hpairs hnodup hmem

end Score

/-! ## Cut before sorting -/

def nearestFirst (dist : ι → D) (l : List ι) : List ι :=
  l.mergeSort fun i j => decide (dist i ≤ dist j)

omit [DecidableEq ι] in
theorem pairwise_nearestFirst (l : List ι) :
    (nearestFirst dist l).Pairwise fun i j => dist i ≤ dist j := by
  refine (List.pairwise_mergeSort (fun i j m hij hjm => ?_) (fun i j => ?_) l).imp
    fun hle => of_decide_eq_true hle
  · exact decide_eq_true ((of_decide_eq_true hij).trans (of_decide_eq_true hjm))
  · rw [Bool.or_eq_true]
    exact (le_total (dist i) (dist j)).imp decide_eq_true decide_eq_true

omit [DecidableEq ι] in
theorem nearestFirst_perm (l : List ι) : (nearestFirst dist l).Perm l :=
  List.mergeSort_perm l _

omit [DecidableEq ι] in
theorem nearest_cut_iff (hnodup : l.Nodup) (hmem : ∀ i, i ∈ l ↔ i ∈ pool) :
    Nearest dist k pool (nearestFirst dist (l.take k)) ↔
      ∀ i ∈ l.take k, ∀ j ∈ l.drop k, dist i ≤ dist j := by
  have hin : ∀ i, i ∈ nearestFirst dist (l.take k) ↔ i ∈ l.take k :=
    fun i => (nearestFirst_perm (l.take k)).mem_iff
  have hsplit := hnodup
  rw [← List.take_append_drop k l] at hsplit
  obtain ⟨hfront, -, hdisjoint⟩ := List.nodup_append.mp hsplit
  constructor
  · intro hnearest i hi j hj
    refine hnearest.others j ((hmem j).mp (List.mem_of_mem_drop hj)) (fun hj' => ?_) i
      ((hin i).mpr hi)
    exact hdisjoint j ((hin j).mp hj') j hj rfl
  · intro hcut
    refine ⟨(nearestFirst_perm _).nodup_iff.mpr hfront,
      fun i hi => (hmem i).mp (List.mem_of_mem_take ((hin i).mp hi)), ?_,
      pairwise_nearestFirst _, fun i hi hout j hj => ?_⟩
    · have hcard : pool.card = l.length := by
        classical
        rw [← List.toFinset_card_of_nodup hnodup]
        congr 1
        ext i
        rw [List.mem_toFinset, hmem]
      rw [(nearestFirst_perm _).length_eq, List.length_take, hcard]
    · refine hcut j ((hin j).mp hj) i ?_
      have hall := (hmem i).mpr hi
      rw [← List.take_append_drop k l, List.mem_append] at hall
      exact hall.resolve_left fun hkept => hout ((hin i).mpr hkept)

/-- A cut in any order is right only if it can do no harm. -/
theorem nearest_cut_every_iff (hnodup : l.Nodup) (hmem : ∀ i, i ∈ l ↔ i ∈ pool) :
    (∀ l' : List ι, l'.Perm l → Nearest dist k pool (nearestFirst dist (l'.take k))) ↔
      k = 0 ∨ l.length ≤ k ∨ ∀ i ∈ l, ∀ j ∈ l, dist i ≤ dist j := by
  have hcut : ∀ l' : List ι, l'.Perm l →
      (Nearest dist k pool (nearestFirst dist (l'.take k)) ↔
        ∀ i ∈ l'.take k, ∀ j ∈ l'.drop k, dist i ≤ dist j) := fun l' hperm =>
    nearest_cut_iff (hperm.nodup_iff.mpr hnodup) fun i => hperm.mem_iff.trans (hmem i)
  constructor
  · intro hall
    by_cases hk : k = 0
    · exact Or.inl hk
    · by_cases hlong : l.length ≤ k
      · exact Or.inr (Or.inl hlong)
      · refine Or.inr (Or.inr fun i hi j hj => ?_)
        rcases eq_or_ne i j with rfl | hne
        · exact le_rfl
        · -- an order with one of the two at the front and the other at the end
          have hj' : j ∈ l.erase i := (List.mem_erase_of_ne hne.symm).mpr hj
          have hperm : (i :: ((l.erase i).erase j ++ [j])).Perm l := by
            refine ((List.perm_append_singleton j _).cons i).trans ?_
            exact ((List.perm_cons_erase hj').symm.cons i).trans (List.perm_cons_erase hi).symm
          refine (hcut _ hperm).mp (hall _ hperm) i ?_ j ?_
          · obtain ⟨n, rfl⟩ := Nat.exists_eq_succ_of_ne_zero hk
            rw [List.take_succ_cons]
            exact List.mem_cons_self
          · have hlength := hperm.length_eq
            rw [← List.cons_append] at hlength ⊢
            rw [List.length_append, List.length_singleton] at hlength
            rw [List.drop_append_of_le_length (by omega)]
            exact List.mem_append_right _ (List.mem_singleton_self j)
  · intro hharmless l' hperm
    refine (hcut l' hperm).mpr fun i hi j hj => ?_
    rcases hharmless with rfl | hlong | hall
    · exact absurd hi (by simp)
    · rw [List.drop_eq_nil_of_le (hperm.length_eq.trans_le hlong)] at hj
      exact absurd hj List.not_mem_nil
    · exact hall i (hperm.mem_iff.mp (List.mem_of_mem_take hi)) j
        (hperm.mem_iff.mp (List.mem_of_mem_drop hj))

end Fronts

end TopK
end RTDB
