import Mathlib.Data.List.Induction

/-!
# Contests

A list is gone through once, and an element that beats the holder of the title takes it.
-/

namespace RTDB
namespace Contest

variable {D : Type*} {beats : D → D → Bool} {start : D} {l : List D} {i : Nat}

def contest (beats : D → D → Bool) (start : D) (l : List D) : D × Nat :=
  l.zipIdx.foldl (fun best d => if beats d.1 best.1 then d else best) (start, 0)

theorem contest_concat (l : List D) (d : D) :
    contest beats start (l ++ [d]) =
      if beats d (contest beats start l).1 then (d, l.length) else contest beats start l := by
  rw [contest, List.zipIdx_append, List.foldl_append, Nat.zero_add]
  rfl

theorem contest_snd_lt (beats : D → D → Bool) (start : D) (hne : l ≠ []) :
    (contest beats start l).2 < l.length := by
  have hbound : (contest beats start l).2 = 0 ∨ (contest beats start l).2 < l.length := by
    clear hne
    induction l using List.reverseRecOn with
    | nil => exact Or.inl rfl
    | append_singleton l d ih =>
      rw [contest_concat, List.length_append, List.length_singleton]
      split
      · exact Or.inr (Nat.lt_succ_self l.length)
      · omega
  have hpos := List.length_pos_iff.mpr hne
  omega

/-! ## Who wins -/

/-- What beats the start can be told apart from all else that does. -/
structure Ranked (beats : D → D → Bool) (start : D) : Prop where
  irrefl : ∀ d, beats d d = false
  trans : ∀ d e f, beats d e → beats e f → beats d f
  apart : ∀ d e f, beats d e → beats f e = false → beats f start → beats d f

/-- The first element that beats the start and that none beats. -/
structure Wins (beats : D → D → Bool) (start : D) (l : List D) (d : D) (i : Nat) : Prop where
  at_i : l[i]? = some d
  beats_start : beats d start
  unbeaten : ∀ e ∈ l, beats e d = false
  first : ∀ j e, j < i → l[j]? = some e → beats e start → beats d e

/-- Where the winner stands; without a winner, where the title was at the start. -/
def FirstBest (beats : D → D → Bool) (start : D) (l : List D) (i : Nat) : Prop :=
  (∃ d, Wins beats start l d i) ∨ i = 0 ∧ ∀ e ∈ l, beats e start = false

theorem Wins.not_lt {d d' : D} {i' : Nat} (hd : Wins beats start l d i)
    (hd' : Wins beats start l d' i') : ¬i < i' := by
  intro hlt
  have hbeats := hd'.first i d hlt hd.at_i hd.beats_start
  have hnot := hd.unbeaten d' (List.mem_of_getElem? hd'.at_i)
  exact absurd (hbeats.symm.trans hnot) (by decide)

theorem Wins.not_none {d : D} (hd : Wins beats start l d i) :
    ¬∀ e ∈ l, beats e start = false := by
  intro hall
  have hnot := hall d (List.mem_of_getElem? hd.at_i)
  exact absurd (hd.beats_start.symm.trans hnot) (by decide)

theorem FirstBest.unique {i' : Nat} (hi : FirstBest beats start l i)
    (hi' : FirstBest beats start l i') : i = i' := by
  rcases hi with ⟨d, hd⟩ | ⟨rfl, hall⟩
  · rcases hi' with ⟨d', hd'⟩ | ⟨-, hall⟩
    · have hlt := hd.not_lt hd'
      have hgt := hd'.not_lt hd
      omega
    · exact absurd hall hd.not_none
  · rcases hi' with ⟨d', hd'⟩ | ⟨rfl, -⟩
    · exact absurd hall hd'.not_none
    · rfl

theorem forall_mem_concat {p : D → Prop} {d : D} (hall : ∀ e ∈ l, p e) (hd : p d) :
    ∀ e ∈ l ++ [d], p e := by
  intro e he
  rcases List.mem_append.mp he with he | he
  · exact hall e he
  · rw [List.mem_singleton.mp he]
    exact hd

/-- The title passes on with every element, and its holder has won so far. -/
theorem contest_held (hranked : Ranked beats start) (l : List D) :
    Wins beats start l (contest beats start l).1 (contest beats start l).2 ∨
      contest beats start l = (start, 0) ∧ ∀ e ∈ l, beats e start = false := by
  induction l using List.reverseRecOn with
  | nil => exact Or.inr ⟨rfl, by simp⟩
  | append_singleton l d ih =>
    rw [contest_concat]
    rcases ih with hwins | ⟨hbest, hall⟩
    · by_cases hd : beats d (contest beats start l).1 = true
      · rw [if_pos hd]
        refine Or.inl ⟨by simp, hranked.trans _ _ _ hd hwins.beats_start,
          forall_mem_concat (fun e he => ?_) (hranked.irrefl d), fun j e hj he hstart => ?_⟩
        · refine Bool.eq_false_iff.mpr fun hbeats => ?_
          have hnot := hwins.unbeaten e he
          exact absurd ((hranked.trans _ _ _ hbeats hd).symm.trans hnot) (by decide)
        · rw [List.getElem?_append_left hj] at he
          exact hranked.apart _ _ _ hd (hwins.unbeaten e (List.mem_of_getElem? he)) hstart
      · rw [if_neg hd]
        have hlt := (List.getElem?_eq_some_iff.mp hwins.at_i).1
        refine Or.inl ⟨?_, hwins.beats_start,
          forall_mem_concat hwins.unbeaten (Bool.eq_false_iff.mpr hd), fun j e hj he => ?_⟩
        · rw [List.getElem?_append_left hlt]
          exact hwins.at_i
        · rw [List.getElem?_append_left (Nat.lt_trans hj hlt)] at he
          exact hwins.first j e hj he
    · rw [hbest]
      by_cases hd : beats d start = true
      · rw [if_pos hd]
        refine Or.inl ⟨by simp, hd, forall_mem_concat (fun e he => ?_) (hranked.irrefl d),
          fun j e hj he hstart => ?_⟩
        · refine Bool.eq_false_iff.mpr fun hbeats => ?_
          exact absurd ((hranked.trans _ _ _ hbeats hd).symm.trans (hall e he)) (by decide)
        · rw [List.getElem?_append_left hj] at he
          exact absurd (hstart.symm.trans (hall e (List.mem_of_getElem? he))) (by decide)
      · rw [if_neg hd]
        exact Or.inr ⟨rfl, forall_mem_concat hall (Bool.eq_false_iff.mpr hd)⟩

theorem firstBest_contest (hranked : Ranked beats start) (l : List D) :
    FirstBest beats start l (contest beats start l).2 := by
  rcases contest_held hranked l with hwins | ⟨hbest, hall⟩
  · exact Or.inl ⟨_, hwins⟩
  · exact Or.inr ⟨by rw [hbest], hall⟩

/-- None beats the element at the place that the contest gives. -/
theorem FirstBest.unbeaten (htop : ∀ d e, beats d e → beats d start)
    (hi : FirstBest beats start l i)
    {d : D} (hd : l[i]? = some d) {e : D} (he : e ∈ l) : beats e d = false := by
  rcases hi with ⟨d', hd'⟩ | ⟨-, hall⟩
  · obtain rfl := Option.some.inj (hd.symm.trans hd'.at_i)
    exact hd'.unbeaten e he
  · refine Bool.eq_false_iff.mpr fun hbeats => ?_
    exact absurd ((htop e d hbeats).symm.trans (hall e he)) (by decide)

end Contest
end RTDB
