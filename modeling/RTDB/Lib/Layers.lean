import Mathlib.Data.List.AList

/-!
# Layers of keyed values

A layer lists values by key.  Where several layers hold a key, the first one of
them answers; filling a map layer by layer, without overwriting, computes these
answers.
-/

namespace RTDB
namespace Layers

variable {K V : Type*} [DecidableEq K]

/-- The first value that a layer lists under a key. -/
def held (layer : List (K × V)) (k : K) : Option V :=
  (layer.find? fun kv => kv.1 = k).map Prod.snd

@[simp] theorem held_nil (k : K) : held ([] : List (K × V)) k = none := rfl

theorem held_cons (kv : K × V) (layer : List (K × V)) (k : K) :
    held (kv :: layer) k = if kv.1 = k then some kv.2 else held layer k := by
  rw [held, List.find?_cons]
  by_cases hk : kv.1 = k
  · simp [hk]
  · simp [hk, held]

theorem mem_of_held {layer : List (K × V)} {k : K} {v : V} (hheld : held layer k = some v) :
    (k, v) ∈ layer := by
  obtain ⟨kv, hfind, rfl⟩ := Option.map_eq_some_iff.mp hheld
  have hk : kv.1 = k := by simpa using List.find?_some hfind
  rw [← hk]
  exact List.mem_of_find?_eq_some hfind

theorem held_eq_none_iff {layer : List (K × V)} {k : K} :
    held layer k = none ↔ ∀ v, (k, v) ∉ layer := by
  constructor
  · intro hnone v hmem
    rw [held, Option.map_eq_none_iff, List.find?_eq_none] at hnone
    exact hnone (k, v) hmem (by simp)
  · intro hall
    cases hheld : held layer k with
    | none => rfl
    | some v => exact absurd (mem_of_held hheld) (hall v)

theorem held_eq_some_iff {layer : List (K × V)} (hdistinct : layer.Pairwise (·.1 ≠ ·.1)) {k : K}
    {v : V} : held layer k = some v ↔ (k, v) ∈ layer := by
  refine ⟨mem_of_held, fun hmem => ?_⟩
  induction layer with
  | nil => exact absurd hmem List.not_mem_nil
  | cons kv layer ih =>
    obtain ⟨hhead, htail⟩ := List.pairwise_cons.mp hdistinct
    rw [held_cons]
    rcases List.mem_cons.mp hmem with rfl | hmem
    · rw [if_pos rfl]
    · rw [if_neg (hhead (k, v) hmem), ih htail hmem]

/-- The answer of the first layer that holds the key. -/
def firstHeld (layers : List (List (K × V))) (k : K) : Option V :=
  layers.findSome? fun layer => held layer k

theorem firstHeld_cons (layer : List (K × V)) (layers : List (List (K × V))) (k : K) :
    firstHeld (layer :: layers) k = (held layer k).or (firstHeld layers k) := by
  rw [firstHeld, List.findSome?_cons]
  cases held layer k <;> rfl

theorem mem_of_firstHeld {layers : List (List (K × V))} {k : K} {v : V}
    (hheld : firstHeld layers k = some v) : ∃ layer ∈ layers, (k, v) ∈ layer := by
  obtain ⟨layer, hlayer, hk⟩ := List.exists_of_findSome?_eq_some hheld
  exact ⟨layer, hlayer, mem_of_held hk⟩

/-! ## Filling a map -/

section Filling

variable [Ord K] [Std.TransOrd K] [Std.LawfulEqOrd K]

/-- Insert what a layer lists, except under keys to skip or already there. -/
def fill (skip : K → Bool) (m : Std.TreeMap K V) (layer : List (K × V)) : Std.TreeMap K V :=
  layer.foldl (fun m kv => if skip kv.1 || m.contains kv.1 then m else m.insert kv.1 kv.2) m

theorem getElem?_fill (skip : K → Bool) (m : Std.TreeMap K V) (layer : List (K × V)) (k : K) :
    (fill skip m layer)[k]? = m[k]?.or (if skip k then none else held layer k) := by
  induction layer generalizing m with
  | nil => simp [fill]
  | cons kv layer ih =>
    have hstep : fill skip m (kv :: layer) =
        fill skip (if skip kv.1 || m.contains kv.1 then m else m.insert kv.1 kv.2) layer := rfl
    rw [hstep, ih, held_cons]
    by_cases hskip : skip kv.1 || m.contains kv.1
    · rw [if_pos hskip]
      by_cases hk : kv.1 = k
      · subst hk
        rw [if_pos rfl]
        rcases Bool.or_eq_true_iff.mp hskip with hskip | hthere
        · simp [hskip]
        · rw [Std.TreeMap.contains_eq_isSome_getElem?] at hthere
          obtain ⟨v, hv⟩ := Option.isSome_iff_exists.mp hthere
          simp [hv]
      · rw [if_neg hk]
    · rw [if_neg hskip, Std.TreeMap.getElem?_insert]
      simp only [Std.LawfulEqOrd.compare_eq_iff_eq]
      rw [Bool.or_eq_true, not_or] at hskip
      by_cases hk : kv.1 = k
      · subst hk
        have hnone : m[kv.1]? = none := by
          rw [Std.TreeMap.contains_eq_isSome_getElem?] at hskip
          exact Option.not_isSome_iff_eq_none.mp hskip.2
        simp [hskip.1, hnone]
      · rw [if_neg hk, if_neg hk]

theorem getElem?_foldl_fill (skip : K → Bool) (layers : List (List (K × V)))
    (m : Std.TreeMap K V) (k : K) :
    (layers.foldl (fill skip) m)[k]? =
      m[k]?.or (if skip k then none else firstHeld layers k) := by
  induction layers generalizing m with
  | nil => simp [firstHeld]
  | cons layer layers ih =>
    rw [List.foldl_cons, ih, getElem?_fill, firstHeld_cons, Option.or_assoc]
    split <;> rfl

end Filling

end Layers
end RTDB
