import Mathlib.Algebra.BigOperators.Group.List.Basic
import Mathlib.Algebra.GroupWithZero.Nat
import Mathlib.Data.List.Nodup
import Std.Data.TreeMap.Lemmas

/-!
# The weight of a map

Each value of a map has a weight; the map weighs what its values do together.
-/

namespace RTDB
namespace Weights

variable {K V : Type} [Ord K] [Std.TransOrd K] [Std.LawfulEqOrd K] {w : V → Nat}

/-- What the entries of a map weigh together. -/
def total (w : V → Nat) (m : Std.TreeMap K V) : Nat := (m.toList.map fun e => w e.2).sum

/-- What a map holds under a key weighs this, and nothing where it holds none. -/
def under (w : V → Nat) (m : Std.TreeMap K V) (k : K) : Nat := m[k]?.elim 0 w

omit [Std.LawfulEqOrd K] in
theorem nodup_toList (m : Std.TreeMap K V) : m.toList.Nodup := by
  refine m.distinct_keys_toList.imp fun {a b} hkeys heq => hkeys ?_
  rw [heq]
  exact Std.ReflCmp.compare_self

theorem total_congr {m m' : Std.TreeMap K V} (hget : ∀ k : K, m[k]? = m'[k]?) :
    total w m = total w m' := by
  have hperm : m.toList.Perm m'.toList := by
    refine (List.perm_ext_iff_of_nodup (nodup_toList m) (nodup_toList m')).mpr fun e => ?_
    obtain ⟨k, v⟩ := e
    rw [Std.TreeMap.mem_toList_iff_getElem?_eq_some, Std.TreeMap.mem_toList_iff_getElem?_eq_some,
      hget]
  exact (hperm.map _).sum_eq

/-- An insertion adds the new value to what lies under the other keys. -/
theorem total_insert_filter [BEq K] [LawfulBEq K] (m : Std.TreeMap K V) (k : K) (v : V) :
    total w (m.insert k v) =
      w v + ((m.toList.filter fun e => ¬k == e.1).map fun e => w e.2).sum := by
  have hperm := (Std.TreeMap.toList_insert_perm (t := m) (k := k) (v := v)).map fun e => w e.2
  rw [total, hperm.sum_eq, List.map_cons, List.sum_cons]

/-- An insertion replaces the weight under its key. -/
theorem total_insert (m : Std.TreeMap K V) (k : K) (v : V) :
    total w (m.insert k v) + under w m k = total w m + w v := by
  classical
  rw [total_insert_filter]
  cases hk : m[k]? with
  | none =>
    have hall : (m.toList.filter fun e => ¬k == e.1) = m.toList := by
      refine List.filter_eq_self.mpr fun e he => ?_
      have hne : k ≠ e.1 := fun heq => by
        have hsome := Std.TreeMap.mem_toList_iff_getElem?_eq_some.mp he
        rw [← heq, hk] at hsome
        exact absurd hsome (by simp)
      simpa using hne
    rw [hall, under, hk]
    show w v + total w m + 0 = total w m + w v
    omega
  | some old =>
    have hsame : total w m = total w (m.insert k old) := by
      refine total_congr fun j => ?_
      rw [Std.TreeMap.getElem?_insert]
      by_cases hj : k = j
      · rw [if_pos (by rw [hj]; exact Std.ReflCmp.compare_self), ← hj, hk]
      · rw [if_neg fun heq => hj (Std.LawfulEqCmp.eq_of_compare heq)]
    rw [hsame, total_insert_filter, under, hk]
    show w v + _ + w old = w old + _ + w v
    omega

/-- No entry weighs more than the map. -/
theorem under_le (m : Std.TreeMap K V) (k : K) : under w m k ≤ total w m := by
  classical
  cases hk : m[k]? with
  | none =>
    rw [under, hk]
    exact Nat.zero_le _
  | some v =>
    have hinsert := total_insert (w := w) m k v
    have hfilter := total_insert_filter (w := w) m k v
    omega

end Weights
end RTDB
