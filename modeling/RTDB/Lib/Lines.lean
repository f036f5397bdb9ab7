import Mathlib.Data.List.Basic

/-!
# Lines

A text as the lines it is read in, each with the mark it ends in; the last one may lack it.
-/

namespace RTDB
namespace Lines

variable {τ : Type*} [DecidableEq τ] {mark : τ}

def takeLine (mark : τ) : List τ → List τ × List τ
  | [] => ([], [])
  | c :: rest => if c = mark then ([c], rest) else (c :: (takeLine mark rest).1, (takeLine mark rest).2)

def lines (mark : τ) : List τ → List (List τ)
  | [] => []
  | c :: rest =>
    if c = mark then [c] :: lines mark rest
    else
      match lines mark rest with
      | [] => [[c]]
      | line :: more => (c :: line) :: more

theorem takeLine_fst_ne_nil (mark : τ) {text : List τ} (hne : text ≠ []) :
    (takeLine mark text).1 ≠ [] := by
  cases text with
  | nil => exact absurd rfl hne
  | cons c rest =>
    rw [takeLine]
    split <;> simp

theorem lines_of_ne_nil (mark : τ) {text : List τ} (hne : text ≠ []) :
    lines mark text = (takeLine mark text).1 :: lines mark (takeLine mark text).2 := by
  induction text with
  | nil => exact absurd rfl hne
  | cons c rest ih =>
    rw [lines, takeLine]
    by_cases hc : c = mark
    · rw [if_pos hc, if_pos hc]
    · rw [if_neg hc, if_neg hc]
      cases rest with
      | nil => rfl
      | cons d rest => rw [ih (by simp)]

/-- Reading a line either finds the end, or the first of the lines. -/
theorem takeLine_cases (mark : τ) (text : List τ) :
    text = [] ∨ ∃ c line rest, takeLine mark text = (c :: line, rest) ∧
      lines mark text = (c :: line) :: lines mark rest := by
  by_cases hne : text = []
  · exact Or.inl hne
  · have hfirst := takeLine_fst_ne_nil mark hne
    have hlines := lines_of_ne_nil mark hne
    rcases hread : takeLine mark text with ⟨_ | ⟨c, line⟩, rest⟩
    · rw [hread] at hfirst
      exact absurd rfl hfirst
    · rw [hread] at hlines
      exact Or.inr ⟨c, line, rest, rfl, hlines⟩

theorem length_lines_le (text : List τ) : (lines mark text).length ≤ text.length := by
  induction text with
  | nil => exact Nat.le_refl 0
  | cons c rest ih =>
    rw [lines]
    by_cases hc : c = mark
    · rw [if_pos hc, List.length_cons, List.length_cons]
      omega
    · rw [if_neg hc, List.length_cons]
      cases hlines : lines mark rest with
      | nil => simp
      | cons line more =>
        rw [hlines, List.length_cons] at ih
        rw [List.length_cons]
        omega

/-- The mark is only at the end of a line. -/
theorem of_mem_lines {text line : List τ} (hline : line ∈ lines mark text) :
    ∃ front, mark ∉ front ∧ (line = front ∨ line = front ++ [mark]) := by
  induction text generalizing line with
  | nil => exact absurd hline List.not_mem_nil
  | cons c rest ih =>
    rw [lines] at hline
    by_cases hc : c = mark
    · rw [if_pos hc] at hline
      rcases List.mem_cons.mp hline with rfl | hline
      · exact ⟨[], List.not_mem_nil, Or.inr (by rw [hc]; rfl)⟩
      · exact ih hline
    · rw [if_neg hc] at hline
      cases hlines : lines mark rest with
      | nil =>
        rw [hlines] at hline
        obtain rfl := List.mem_singleton.mp hline
        exact ⟨[c], by simpa using Ne.symm hc, Or.inl rfl⟩
      | cons first more =>
        rw [hlines] at hline ih
        rcases List.mem_cons.mp hline with rfl | hline
        · obtain ⟨front, hfront, hfirst⟩ := ih List.mem_cons_self
          refine ⟨c :: front, by simp [hfront, Ne.symm hc], ?_⟩
          exact hfirst.imp (congrArg _) (congrArg _)
        · exact ih (List.mem_cons_of_mem _ hline)

theorem lines_append {front : List τ} (hfront : mark ∉ front) (rest : List τ) :
    lines mark (front ++ mark :: rest) = (front ++ [mark]) :: lines mark rest := by
  induction front with
  | nil => rw [List.nil_append, lines, if_pos rfl, List.nil_append]
  | cons c front ih =>
    obtain ⟨hc, hfront⟩ := not_or.mp (fun h => hfront (List.mem_cons.mpr h))
    rw [List.cons_append, lines, if_neg (Ne.symm hc), ih hfront]
    rfl

/-- A text that is put together of lines is cut into them again. -/
theorem lines_flatMap_concat {ls : List (List τ)} (hls : ∀ l ∈ ls, mark ∉ l) :
    lines mark (ls.flatMap (· ++ [mark])) = ls.map (· ++ [mark]) := by
  induction ls with
  | nil => rfl
  | cons l ls ih =>
    obtain ⟨hl, hls⟩ := List.forall_mem_cons.mp hls
    rw [List.flatMap_cons, List.append_assoc, List.singleton_append, lines_append hl, ih hls,
      List.map_cons]

/-- An encoding that has the mark for one sign only keeps the lines. -/
theorem lines_flatMap {σ : Type*} [DecidableEq σ] {sign : σ} {code : σ → List τ}
    (hsign : code sign = [mark]) (hother : ∀ c, c ≠ sign → mark ∉ code c ∧ code c ≠ []) (text : List σ) :
    lines mark (text.flatMap code) = (lines sign text).map fun line => line.flatMap code := by
  have hcons : ∀ (front rest : List τ), mark ∉ front → front ≠ [] →
      lines mark (front ++ rest) =
        match lines mark rest with
        | [] => [front]
        | line :: more => (front ++ line) :: more := by
    intro front rest hfront hne
    induction front with
    | nil => exact absurd rfl hne
    | cons d front ih =>
      obtain ⟨hd, hfront⟩ := not_or.mp (fun h => hfront (List.mem_cons.mpr h))
      rw [List.cons_append, lines, if_neg (Ne.symm hd)]
      cases front with
      | nil =>
        rw [List.nil_append]
        cases lines mark rest <;> rfl
      | cons d' front =>
        rw [ih hfront (by simp)]
        cases lines mark rest <;> rfl
  induction text with
  | nil => rfl
  | cons c text ih =>
    rw [List.flatMap_cons, lines]
    by_cases hc : c = sign
    · rw [if_pos hc, hc, hsign, List.singleton_append, lines, if_pos rfl, ih, List.map_cons,
        List.flatMap_singleton, hsign]
    · obtain ⟨hmark, hne⟩ := hother c hc
      rw [if_neg hc, hcons _ _ hmark hne, ih]
      cases lines sign text with
      | nil => simp
      | cons line more => rfl

def dropLines (mark : τ) : Nat → List τ → List τ
  | 0, text => text
  | n + 1, text => dropLines mark n (takeLine mark text).2

theorem dropLines_nil (n : Nat) : dropLines mark n [] = [] := by
  induction n with
  | zero => rfl
  | succ n ih => exact ih

theorem dropLines_add (m n : Nat) (text : List τ) :
    dropLines mark (m + n) text = dropLines mark n (dropLines mark m text) := by
  induction m generalizing text with
  | zero => rw [Nat.zero_add, dropLines]
  | succ m ih => rw [Nat.succ_add, dropLines, ih, dropLines]

theorem lines_dropLines (n : Nat) (text : List τ) :
    lines mark (dropLines mark n text) = (lines mark text).drop n := by
  induction n generalizing text with
  | zero => rfl
  | succ n ih =>
    by_cases hne : text = []
    · subst hne
      rw [dropLines_nil]
      rfl
    · rw [dropLines, ih, lines_of_ne_nil mark hne, List.drop_succ_cons]

end Lines
end RTDB
