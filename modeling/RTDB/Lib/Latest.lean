/-!
# The last entry of a list

The last entry that meets a condition: what a log says last, what a sequence of writes leaves.
-/

namespace RTDB

def lastWhere {α : Type} (p : α → Bool) (l : List α) : Option α := l.reverse.find? p

section Latest

variable {α β : Type} {p q : α → Bool} {l : List α} {a b : α}

theorem lastWhere_concat (p : α → Bool) (l : List α) (a : α) :
    lastWhere p (l ++ [a]) = if p a then some a else lastWhere p l := by
  rw [lastWhere, List.reverse_append, List.reverse_singleton, List.singleton_append, List.find?_cons]
  cases hp : p a with
  | true => rfl
  | false => rfl

theorem mem_of_lastWhere (hlast : lastWhere p l = some a) : a ∈ l :=
  List.mem_reverse.mp (List.mem_of_find?_eq_some hlast)

theorem meets_of_lastWhere (hlast : lastWhere p l = some a) : p a = true := List.find?_some hlast

theorem exists_lastWhere (hmem : a ∈ l) (hp : p a = true) : ∃ b, lastWhere p l = some b := by
  rw [lastWhere, ← Option.isSome_iff_exists, List.find?_isSome]
  exact ⟨a, List.mem_reverse.mpr hmem, hp⟩

theorem lastWhere_map (p : β → Bool) (f : α → β) (l : List α) :
    lastWhere p (l.map f) = (lastWhere (fun a => p (f a)) l).map f := by
  rw [lastWhere, ← List.map_reverse, List.find?_map]
  rfl

/-- The last of the entries that a list keeps. -/
theorem lastWhere_filterMap (p : β → Bool) (f : α → Option β) (l : List α) :
    lastWhere p (l.filterMap f) = (lastWhere (fun a => (f a).any p) l).bind f := by
  rw [lastWhere, ← List.filterMap_reverse, List.find?_filterMap]
  rfl

theorem first_unique (ha : l.find? p = some a) (hb : l.find? q = some b) (hqa : q a = true)
    (hpb : p b = true) : a = b := by
  induction l with
  | nil => exact absurd ha (by simp)
  | cons c l ih =>
    rw [List.find?_cons] at ha hb
    cases hpc : p c with
    | true =>
      rw [hpc] at ha
      obtain rfl := Option.some.inj ha
      rw [hqa] at hb
      exact Option.some.inj hb
    | false =>
      rw [hpc] at ha
      cases hqc : q c with
      | true =>
        rw [hqc] at hb
        obtain rfl := Option.some.inj hb
        exact absurd (hpc.symm.trans hpb) Bool.false_ne_true
      | false =>
        rw [hqc] at hb
        exact ih ha hb

/-- Two conditions that each meet the other's last entry have the same one. -/
theorem lastWhere_unique (ha : lastWhere p l = some a) (hb : lastWhere q l = some b) (hqa : q a = true)
    (hpb : p b = true) : a = b :=
  first_unique ha hb hqa hpb

end Latest

end RTDB
