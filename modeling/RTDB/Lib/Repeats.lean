import RTDB.Lib.FirstSeen

/-!
# Repeats told by a bounded memory

A stream whose items are told apart by a key.  The first few keys are remembered, and an item is a
repeat if its key is remembered from before it.
-/

namespace RTDB
namespace Repeats

open FirstSeen

variable {α κ : Type} [DecidableEq κ] (key : α → κ) (capacity : Nat)

def remembered (items : List α) : List κ := (items.map key).eraseDups.take capacity

def fresh (before : List α) : List α → List α
  | [] => []
  | a :: items =>
    if key a ∈ remembered key capacity before then fresh (before ++ [a]) items
    else a :: fresh (before ++ [a]) items

def repeats (before : List α) : List α → List α
  | [] => []
  | a :: items =>
    if key a ∈ remembered key capacity before then a :: repeats (before ++ [a]) items
    else repeats (before ++ [a]) items

variable {key capacity} {before items rest : List α} {k : κ}

theorem remembered_nil : remembered key capacity ([] : List α) = [] := by
  rw [remembered, List.map_nil, List.eraseDups_nil, List.take_nil]

theorem mem_map_of_mem_remembered (hk : k ∈ remembered key capacity items) : k ∈ items.map key :=
  List.mem_eraseDups.mp (List.mem_of_mem_take hk)

theorem remembered_append (items rest : List α) :
    remembered key capacity items <+: remembered key capacity (items ++ rest) := by
  rw [remembered, remembered, List.map_append, List.eraseDups_append, List.take_append]
  exact List.prefix_append _ _

/-- What has been forgotten is never remembered. -/
theorem mem_remembered_of_append (hk : k ∈ remembered key capacity (items ++ rest))
    (hitems : k ∈ items.map key) : k ∈ remembered key capacity items := by
  have hnodup : ((items ++ rest).map key).eraseDups.Nodup := nodup_eraseDups _
  rw [remembered, List.map_append, List.eraseDups_append, List.take_append] at hk
  rw [List.map_append, List.eraseDups_append] at hnodup
  rcases List.mem_append.mp hk with hfront | hback
  · exact hfront
  · have hdisjoint := List.disjoint_of_nodup_append hnodup
    exact absurd (List.mem_of_mem_take hback) (hdisjoint (List.mem_eraseDups.mpr hitems))

/-- A new key is kept while there is room. -/
theorem remembered_concat {a : α} (ha : key a ∉ remembered key capacity items) :
    remembered key capacity (items ++ [a]) =
      if (remembered key capacity items).length < capacity then
        remembered key capacity items ++ [key a]
      else remembered key capacity items := by
  have hlength : (remembered key capacity items).length =
      min capacity (items.map key).eraseDups.length := List.length_take
  rw [remembered, List.map_append, List.map_singleton, eraseDups_concat]
  by_cases hseen : key a ∈ items.map key
  · rw [if_pos hseen, ← remembered, if_neg]
    intro hroom
    have hall : remembered key capacity items = (items.map key).eraseDups :=
      List.take_of_length_le (by omega)
    rw [hall, List.mem_eraseDups] at ha
    exact ha hseen
  · rw [if_neg hseen, List.take_append, ← remembered]
    split
    · rename_i hroom
      have hleft : 1 ≤ capacity - (items.map key).eraseDups.length := by omega
      rw [List.take_of_length_le hleft]
    · rename_i hfull
      have hnone : capacity - (items.map key).eraseDups.length = 0 := by omega
      rw [hnone, List.take_zero, List.append_nil]

theorem remembered_concat_of_mem {a : α} (ha : key a ∈ remembered key capacity items) :
    remembered key capacity (items ++ [a]) = remembered key capacity items := by
  rw [remembered, List.map_append, List.map_singleton, eraseDups_concat,
    if_pos (mem_map_of_mem_remembered ha), ← remembered]

theorem fresh_append (front : List α) : fresh key capacity before (front ++ rest) =
    fresh key capacity before front ++ fresh key capacity (before ++ front) rest := by
  induction front generalizing before with
  | nil => rw [List.nil_append, List.append_nil, fresh, List.nil_append]
  | cons a front ih =>
    rw [List.cons_append, fresh, fresh, ih, List.append_assoc, List.singleton_append]
    split <;> rfl

/-- Once the memory is full, what it does not hold is new for ever. -/
theorem fresh_beyond (hfull : (remembered key capacity before).length = capacity)
    (hnew : ∀ a ∈ items, key a ∉ remembered key capacity before) :
    fresh key capacity before items = items := by
  induction items generalizing before with
  | nil => rfl
  | cons a items ih =>
    have ha := hnew a List.mem_cons_self
    have hsame : remembered key capacity (before ++ [a]) = remembered key capacity before := by
      rw [remembered_concat ha, if_neg (by omega)]
    rw [fresh, if_neg ha, ih (by rw [hsame, hfull])]
    rw [hsame]
    exact fun b hb => hnew b (List.mem_cons_of_mem _ hb)

theorem repeats_append (front : List α) : repeats key capacity before (front ++ rest) =
    repeats key capacity before front ++ repeats key capacity (before ++ front) rest := by
  induction front generalizing before with
  | nil => rw [List.nil_append, List.append_nil, repeats, List.nil_append]
  | cons a front ih =>
    rw [List.cons_append, repeats, repeats, ih, List.append_assoc, List.singleton_append]
    split <;> rfl

section Concat

variable {a : α}

theorem fresh_concat (ha : key a ∉ remembered key capacity (before ++ items)) :
    fresh key capacity before (items ++ [a]) = fresh key capacity before items ++ [a] := by
  rw [fresh_append, fresh, if_neg ha, fresh]

theorem fresh_concat_of_mem (ha : key a ∈ remembered key capacity (before ++ items)) :
    fresh key capacity before (items ++ [a]) = fresh key capacity before items := by
  rw [fresh_append, fresh, if_pos ha, fresh, List.append_nil]

theorem repeats_concat (ha : key a ∉ remembered key capacity (before ++ items)) :
    repeats key capacity before (items ++ [a]) = repeats key capacity before items := by
  rw [repeats_append, repeats, if_neg ha, repeats, List.append_nil]

theorem repeats_concat_of_mem (ha : key a ∈ remembered key capacity (before ++ items)) :
    repeats key capacity before (items ++ [a]) = repeats key capacity before items ++ [a] := by
  rw [repeats_append, repeats, if_pos ha, repeats]

end Concat

theorem fresh_perm :
    items.Perm (fresh key capacity before items ++ repeats key capacity before items) := by
  induction items generalizing before with
  | nil => exact List.Perm.refl _
  | cons a items ih =>
    rw [fresh, repeats]
    split
    · exact (ih.cons a).trans List.perm_middle.symm
    · exact ih.cons a

theorem mem_repeats {a : α} : a ∈ repeats key capacity before items ↔
    ∃ front rest, items = front ++ a :: rest ∧ key a ∈ remembered key capacity (before ++ front) := by
  induction items generalizing before with
  | nil => exact iff_of_false List.not_mem_nil (by simp)
  | cons b items ih =>
    have hlater : (∃ front rest, b :: items = b :: front ++ a :: rest ∧
        key a ∈ remembered key capacity (before ++ b :: front)) ↔
          a ∈ repeats key capacity (before ++ [b]) items := by
      simp only [ih, List.cons_append, List.cons.injEq, true_and, List.append_assoc,
        List.nil_append]
    rw [repeats]
    constructor
    · intro ha
      have hcases : (a = b ∧ key b ∈ remembered key capacity before) ∨
          a ∈ repeats key capacity (before ++ [b]) items := by
        split at ha
        · rename_i hb
          exact (List.mem_cons.mp ha).imp_left fun heq => ⟨heq, hb⟩
        · exact .inr ha
      rcases hcases with ⟨rfl, hb⟩ | hmem
      · exact ⟨[], items, rfl, by rwa [List.append_nil]⟩
      · obtain ⟨front, rest, hitems, hkey⟩ := hlater.mpr hmem
        exact ⟨b :: front, rest, hitems, hkey⟩
    · rintro ⟨front, rest, hitems, hkey⟩
      cases front with
      | nil =>
        obtain ⟨rfl, -⟩ := List.cons.inj hitems
        rw [List.append_nil] at hkey
        rw [if_pos hkey]
        exact List.mem_cons_self
      | cons c front =>
        obtain ⟨rfl, -⟩ := List.cons.inj hitems
        have hmem := hlater.mp ⟨front, rest, hitems, hkey⟩
        split
        · exact List.mem_cons_of_mem _ hmem
        · exact hmem

/-- Of the items with a key that is remembered, the first alone is new. -/
theorem filter_fresh (hk : k ∈ remembered key capacity items) :
    (fresh key capacity [] items).filter (key · = k) = (items.filter (key · = k)).take 1 := by
  induction items using List.reverseRecOn with
  | nil => rfl
  | append_singleton items a ih =>
    rw [fresh_append, List.filter_append, List.filter_append, List.nil_append, fresh, fresh]
    by_cases hseen : k ∈ items.map key
    · have hremembered := mem_remembered_of_append hk hseen
      rw [ih hremembered, List.take_append]
      have hfull : 1 - (items.filter (key · = k)).length = 0 := by
        obtain ⟨b, hb, hkey⟩ := List.mem_map.mp hseen
        have hmem : b ∈ items.filter (key · = k) := List.mem_filter.mpr ⟨hb, decide_eq_true hkey⟩
        have hpos := List.length_pos_of_mem hmem
        omega
      rw [hfull, List.take_zero]
      congr 1
      split
      · rfl
      · rename_i hnew
        have hne : key a ≠ k := fun h => hnew (h ▸ hremembered)
        rw [List.filter_cons_of_neg (by simpa using hne), List.filter_nil]
    · have hnone : items.filter (key · = k) = [] := by
        refine List.filter_eq_nil_iff.mpr fun b hb hkey => ?_
        exact hseen (List.mem_map.mpr ⟨b, hb, of_decide_eq_true hkey⟩)
      have hnone' : (fresh key capacity [] items).filter (key · = k) = [] := by
        refine List.filter_eq_nil_iff.mpr fun b hb => List.filter_eq_nil_iff.mp hnone b ?_
        exact fresh_perm.mem_iff.mpr (List.mem_append_left _ hb)
      rw [hnone, hnone', List.nil_append, List.nil_append]
      split
      · rename_i hrepeat
        have hne : key a ≠ k := fun h => hseen (h ▸ mem_map_of_mem_remembered hrepeat)
        rw [List.filter_cons_of_neg (by simpa using hne)]
        rfl
      · exact (List.take_of_length_le (List.length_filter_le _ _)).symm

/-- A repeat comes after a new item with its key. -/
theorem exists_fresh (hk : k ∈ remembered key capacity items) :
    ∃ a ∈ fresh key capacity [] items, key a = k := by
  obtain ⟨a, ha, hkey⟩ := List.mem_map.mp (mem_map_of_mem_remembered hk)
  have hmem : a ∈ items.filter (key · = k) := List.mem_filter.mpr ⟨ha, decide_eq_true hkey⟩
  have hpos := List.length_pos_of_mem hmem
  have hfirst : 0 < ((fresh key capacity [] items).filter (key · = k)).length := by
    rw [filter_fresh hk, List.length_take]
    omega
  obtain ⟨b, hb⟩ := List.exists_mem_of_length_pos hfirst
  exact ⟨b, (List.mem_filter.mp hb).1, of_decide_eq_true (List.mem_filter.mp hb).2⟩

theorem count_fresh_le (hk : k ∈ remembered key capacity items) :
    ((fresh key capacity [] items).map key).count k ≤ 1 := by
  have hcount : ((fresh key capacity [] items).map key).count k =
      ((fresh key capacity [] items).filter (key · = k)).length := by
    rw [List.count, List.countP_map, List.countP_eq_length_filter]
    rfl
  rw [hcount, filter_fresh hk]
  exact List.length_take_le _ _

end Repeats
end RTDB
