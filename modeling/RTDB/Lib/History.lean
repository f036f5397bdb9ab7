import Mathlib.Data.List.Induction

/-!
# Histories of keyed writes

A write gives a key a value or takes its value away.  A history is a list of
writes, oldest first; it is steady when no key is given a value again after it
was taken away.
-/

namespace RTDB
namespace History

variable {K V : Type*}

def Steady (h : List (K × Option V)) : Prop :=
  h.Pairwise (fun a b => a.1 = b.1 → a.2 = none → b.2 = none)

theorem steady_nil : Steady ([] : List (K × Option V)) := List.Pairwise.nil

theorem steady_concat {h : List (K × Option V)} {k : K} {o : Option V} :
    Steady (h ++ [(k, o)]) ↔ Steady h ∧ (o ≠ none → (k, none) ∉ h) := by
  rw [Steady, Steady, List.pairwise_append]
  constructor
  · rintro ⟨hh, -, hlast⟩
    refine ⟨hh, fun ho hmem => ho ?_⟩
    exact hlast (k, none) hmem (k, o) List.mem_cons_self rfl rfl
  · rintro ⟨hh, hlast⟩
    refine ⟨hh, List.pairwise_singleton _ _, ?_⟩
    rintro ⟨k', o'⟩ hmem b hb hk ho
    obtain rfl : b = (k, o) := List.mem_singleton.mp hb
    obtain rfl : k' = k := hk
    obtain rfl : o' = none := ho
    by_contra hne
    exact hlast hne hmem

theorem steady_delete {h : List (K × Option V)} {k : K} (hh : Steady h) :
    Steady (h ++ [(k, none)]) :=
  steady_concat.mpr ⟨hh, fun hne => absurd rfl hne⟩

/-! ## Shapes -/

/-- The key of a write and whether it gives a value. -/
def shape (w : K × Option V) : K × Bool := (w.1, w.2.isSome)

theorem steady_shape {h : List (K × Option V)} :
    Steady h ↔ (h.map shape).Pairwise (fun a b => a.1 = b.1 → a.2 = false → b.2 = false) := by
  rw [List.pairwise_map]
  refine List.Pairwise.iff (fun a b => ?_)
  simp only [shape, Option.isSome_eq_false_iff, Option.isNone_iff_eq_none]

/-- Whether a history is steady only depends on the shapes of its writes. -/
theorem Steady.of_shape {W : Type*} {h : List (K × Option V)} {h' : List (K × Option W)}
    (hh : Steady h) (hshape : h.map shape = h'.map shape) : Steady h' := by
  rw [steady_shape] at hh ⊢
  rw [← hshape]
  exact hh

theorem mem_none_of_shape {W : Type*} {h : List (K × Option V)} {h' : List (K × Option W)} {k : K}
    (hmem : (k, none) ∈ h) (hshape : h.map shape = h'.map shape) : (k, none) ∈ h' := by
  have hk : (k, false) ∈ h'.map shape := by
    rw [← hshape]
    exact List.mem_map.mpr ⟨(k, none), hmem, rfl⟩
  obtain ⟨⟨k', o⟩, hmem', heq⟩ := List.mem_map.mp hk
  obtain rfl : k' = k := congrArg Prod.fst heq
  have ho : o.isSome = false := congrArg Prod.snd heq
  rw [Option.isSome_eq_false_iff, Option.isNone_iff_eq_none] at ho
  rw [← ho]
  exact hmem'

/-! ## The last write -/

variable [DecidableEq K]

def latest (h : List (K × Option V)) (k : K) : Option (Option V) :=
  h.foldl (fun last w => if w.1 = k then some w.2 else last) none

theorem latest_concat (h : List (K × Option V)) (w : K × Option V) (k : K) :
    latest (h ++ [w]) k = if w.1 = k then some w.2 else latest h k := by
  rw [latest, List.foldl_append]
  rfl

theorem latest_concat_self (h : List (K × Option V)) (k : K) (o : Option V) :
    latest (h ++ [(k, o)]) k = some o := by
  rw [latest_concat, if_pos rfl]

theorem latest_concat_ne {k k' : K} (h : List (K × Option V)) (o : Option V) (hk : k ≠ k') :
    latest (h ++ [(k, o)]) k' = latest h k' := by
  rw [latest_concat, if_neg hk]

theorem mem_of_latest {h : List (K × Option V)} {k : K} {o : Option V}
    (hlast : latest h k = some o) : (k, o) ∈ h := by
  induction h using List.reverseRecOn with
  | nil => exact absurd hlast (by simp [latest])
  | append_singleton h w ih =>
    rw [latest_concat] at hlast
    split at hlast
    · rename_i hk
      obtain rfl : w.2 = o := Option.some.inj hlast
      rw [← hk]
      exact List.mem_append_right h List.mem_cons_self
    · exact List.mem_append_left _ (ih hlast)

/-- In a steady history a key once taken away stays so. -/
theorem Steady.latest_of_mem {h : List (K × Option V)} {k : K} (hh : Steady h)
    (hmem : (k, none) ∈ h) : latest h k = some none := by
  induction h using List.reverseRecOn with
  | nil => exact absurd hmem List.not_mem_nil
  | append_singleton h w ih =>
    obtain ⟨k', o⟩ := w
    obtain ⟨hsteady, hlast⟩ := steady_concat.mp hh
    by_cases hk : k' = k
    · subst hk
      rw [latest_concat_self]
      cases o with
      | none => rfl
      | some v =>
        rcases List.mem_append.mp hmem with hmem | hmem
        · exact absurd hmem (hlast (Option.some_ne_none v))
        · exact absurd hmem (by simp)
    · rw [latest_concat_ne h o hk]
      rcases List.mem_append.mp hmem with hmem | hmem
      · exact ih hsteady hmem
      · refine absurd ?_ hk
        exact (congrArg Prod.fst (List.mem_singleton.mp hmem)).symm

theorem latest_isSome (h : List (K × Option V)) (k : K) :
    (latest h k).map Option.isSome =
      (h.map shape).foldl (fun last w => if w.1 = k then some w.2 else last) none := by
  induction h using List.reverseRecOn with
  | nil => rfl
  | append_singleton h w ih =>
    rw [latest_concat, List.map_append, List.foldl_append, ← ih]
    show _ = if w.1 = k then some w.2.isSome else _
    split <;> rfl

theorem latest_of_shape {W : Type*} {h : List (K × Option V)} {h' : List (K × Option W)}
    (hshape : h.map shape = h'.map shape) (k : K) :
    (latest h k).map Option.isSome = (latest h' k).map Option.isSome := by
  rw [latest_isSome, latest_isSome, hshape]

end History
end RTDB
