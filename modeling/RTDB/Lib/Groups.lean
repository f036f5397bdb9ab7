import Mathlib.Algebra.BigOperators.Group.List.Lemmas
import Mathlib.Algebra.GroupWithZero.Nat
import Mathlib.Data.List.Dedup

/-!
# Lists by their keys

The members of a list, each as a value, grouped by their keys in the order of the list.  In whatever
order the groups come, each key has what the list has for it.
-/

namespace RTDB
namespace Groups

variable {α β κ : Type*} [DecidableEq κ]

def groups (key : α → Option κ) (value : α → β) (l : List α) : List (κ × List β) :=
  (l.filterMap key).dedup.map fun k => (k, (l.filter fun a => key a = some k).map value)

variable {key : α → Option κ} {value : α → β} {l : List α} {k : κ}

/-- The values of a group are those of members with its key. -/
theorem exists_of_mem {group : κ × List β} (hgroup : group ∈ groups key value l) {b : β}
    (hb : b ∈ group.2) : ∃ a ∈ l, key a = some group.1 ∧ value a = b := by
  obtain ⟨k, -, rfl⟩ := List.mem_map.mp hgroup
  obtain ⟨a, ha, hvalue⟩ := List.mem_map.mp hb
  obtain ⟨hmem, hkey⟩ := List.mem_filter.mp ha
  exact ⟨a, hmem, of_decide_eq_true hkey, hvalue⟩

theorem filter_groups (key : α → Option κ) (value : α → β) (l : List α) (k : κ) :
    (groups key value l).filter (fun group => group.1 = k) =
      if k ∈ l.filterMap key then [(k, (l.filter fun a => key a = some k).map value)] else [] := by
  have hkeys : (l.filterMap key).dedup.filter (fun k' => k' = k) =
      List.replicate ((l.filterMap key).dedup.count k) k := by
    rw [← List.filter_beq]
    exact List.filter_congr fun k' _ => rfl
  have hcomp : ((fun group : κ × List β => decide (group.1 = k)) ∘
      fun k' => (k', (l.filter fun a => key a = some k').map value)) = fun k' => decide (k' = k) :=
    rfl
  rw [groups, List.filter_map, hcomp, hkeys, List.count_dedup]
  split <;> rfl

theorem share_of_perm {order : List (κ × List β)} (hperm : order.Perm (groups key value l))
    (k : κ) :
    (order.filter fun group => group.1 = k).flatMap Prod.snd =
      (l.filter fun a => key a = some k).map value := by
  have hshare := hperm.filter fun group => group.1 = k
  rw [filter_groups] at hshare
  split at hshare
  · rw [List.perm_singleton.mp hshare, List.flatMap_singleton]
  · rename_i hnone
    have hempty : (l.filter fun a => key a = some k) = [] := by
      rw [List.filter_eq_nil_iff]
      intro a ha hkey
      exact hnone (List.mem_filterMap.mpr ⟨a, ha, of_decide_eq_true hkey⟩)
    rw [hshare.eq_nil, hempty]
    rfl

/-- The groups have as many values as there are members. -/
theorem sum_length (hall : ∀ a ∈ l, ∃ k, key a = some k) :
    ((groups key value l).map fun group => group.2.length).sum = l.length := by
  have hcount : ∀ k, ((l.filter fun a => key a = some k).map value).length =
      (l.filterMap key).count k := by
    intro k
    rw [List.length_map, List.count_filterMap, List.countP_eq_length_filter]
    exact congrArg List.length (List.filter_congr fun a _ => by rw [Bool.eq_iff_iff]; simp)
  have hlength : (l.filterMap key).length = l.length := by
    clear hcount
    induction l with
    | nil => rfl
    | cons a l ih =>
      obtain ⟨⟨k, hk⟩, hall⟩ := List.forall_mem_cons.mp hall
      rw [List.filterMap_cons_some hk, List.length_cons, ih hall, List.length_cons]
  rw [← hlength, ← List.sum_map_count_dedup_eq_length (l.filterMap key), groups, List.map_map]
  exact congrArg List.sum (List.map_congr_left fun k _ => hcount k)

theorem groups_of_forall (hall : ∀ a ∈ l, key a = some k) (hsome : l ≠ []) :
    groups key value l = [(k, l.map value)] := by
  have hkeys : l.filterMap key = List.replicate l.length k := by
    rw [List.filterMap_congr hall, List.filterMap_eq_map']
    exact List.map_const' ..
  have hfilter : (l.filter fun a => key a = some k) = l :=
    List.filter_eq_self.mpr fun a ha => decide_eq_true (hall a ha)
  rw [groups, hkeys, List.replicate_dedup (mt List.eq_nil_of_length_eq_zero hsome),
    List.map_singleton, hfilter]

end Groups
end RTDB
