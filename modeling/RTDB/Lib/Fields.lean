import Mathlib.Data.List.DropRight

/-!
# Stripped fields

A line is cut at a separator, and what is of no account is taken off both ends of each field.  A
mark may stand for itself in a field by being doubled.
-/

namespace RTDB
namespace Fields

variable {τ : Type*} {p q : τ → Bool} {l : List τ}

/-! ## Taking off -/

/-- What is left when all that meets `p` is taken off both ends. -/
def strip (p : τ → Bool) (l : List τ) : List τ := (l.dropWhile p).rdropWhile p

theorem strip_sublist (p : τ → Bool) (l : List τ) : (strip p l).Sublist l :=
  (List.rdropWhile_prefix p _).sublist.trans (List.dropWhile_sublist p)

theorem strip_eq_self_iff :
    strip p l = l ↔ (∀ c ∈ l.head?, p c = false) ∧ ∀ c ∈ l.getLast?, p c = false := by
  have hboth : strip p l = l ↔ l.dropWhile p = l ∧ l.rdropWhile p = l := by
    constructor
    · intro hstrip
      have hfront : l.dropWhile p = l := by
        refine (List.dropWhile_sublist p).eq_of_length_le ?_
        rw [strip] at hstrip
        have hle := (List.rdropWhile_prefix p (l.dropWhile p)).length_le
        rwa [hstrip] at hle
      rw [strip, hfront] at hstrip
      exact ⟨hfront, hstrip⟩
    · rintro ⟨hfront, hback⟩
      rw [strip, hfront, hback]
  rw [hboth]
  refine and_congr ?_ ?_
  · cases l with
    | nil => simp
    | cons c l => simp
  · rw [List.rdropWhile_eq_self_iff]
    cases hl : l.getLast? with
    | none => simp [List.getLast?_eq_none_iff.mp hl]
    | some c =>
      obtain ⟨front, rfl⟩ := List.getLast?_eq_some_iff.mp hl
      simp

theorem strip_eq_nil_iff : strip p l = [] ↔ ∀ c ∈ l, p c = true := by
  rw [strip, List.rdropWhile_eq_nil_iff]
  constructor
  · intro hall c hc
    rw [← List.takeWhile_append_dropWhile (p := p) (l := l)] at hc
    rcases List.mem_append.mp hc with hfront | hback
    · exact List.mem_takeWhile_imp hfront
    · exact hall c hback
  · exact fun hall c hc => hall c ((List.dropWhile_sublist p).mem hc)

theorem strip_cons_of_pos {c : τ} (hc : p c = true) (l : List τ) : strip p (c :: l) = strip p l := by
  rw [strip, List.dropWhile_cons_of_pos hc, strip]

theorem strip_concat_of_pos {c : τ} (hc : p c = true) (l : List τ) :
    strip p (l ++ [c]) = strip p l := by
  rw [strip, strip, List.dropWhile_append]
  by_cases hall : (l.dropWhile p).isEmpty = true
  · rw [if_pos hall, List.isEmpty_iff.mp hall, List.dropWhile_cons_of_pos hc]
    rfl
  · rw [if_neg hall, List.rdropWhile_concat_pos p (l.dropWhile p) c hc]

theorem strip_of_forall (hl : ∀ c ∈ l, p c = false) : strip p l = l :=
  strip_eq_self_iff.mpr ⟨fun c hc => hl c (List.mem_of_mem_head? hc),
    fun c hc => hl c (List.mem_of_mem_getLast? hc)⟩

/-- Stripped twice, a list is as before only if nothing was taken off. -/
theorem strip_strip_eq_self_iff : strip p (strip q l) = l ↔ strip p l = l ∧ strip q l = l := by
  constructor
  · intro hboth
    have hinner : strip q l = l := by
      refine (strip_sublist q l).eq_of_length_le ?_
      have hle := (strip_sublist p (strip q l)).length_le
      rwa [hboth] at hle
    rw [hinner] at hboth
    exact ⟨hboth, hinner⟩
  · rintro ⟨houter, hinner⟩
    rw [hinner, houter]

theorem strip_idem (p : τ → Bool) (l : List τ) : strip p (strip p l) = strip p l := by
  have hfront : ∀ c ∈ (strip p l).head?, p c = false := by
    intro c hc
    obtain ⟨back, hback⟩ := List.rdropWhile_prefix p (l.dropWhile p)
    have hhead : (l.dropWhile p).head? = some c := by
      rw [← hback, List.head?_append]
      rw [strip] at hc
      rw [hc, Option.some_or]
    have hnot := List.head?_dropWhile_not p l
    rw [hhead] at hnot
    simpa using hnot
  refine strip_eq_self_iff.mpr ⟨hfront, fun c hc => ?_⟩
  have hfix : (strip p l).rdropWhile p = strip p l := List.rdropWhile_idempotent p (l.dropWhile p)
  obtain ⟨front, hsplit⟩ := List.getLast?_eq_some_iff.mp hc
  have hlast := List.rdropWhile_eq_self_iff.mp hfix (by rw [hsplit]; simp)
  simpa [hsplit] using hlast

/-! ## Cutting -/

variable [DecidableEq τ] {sep : τ}

theorem sep_not_mem_of_mem_splitOn {field : List τ} (hfield : field ∈ l.splitOn sep) : sep ∉ field := by
  induction l generalizing field with
  | nil => simp_all
  | cons c l ih =>
    rw [List.splitOn_cons_eq_if_modifyHead] at hfield
    split at hfield
    · rcases List.mem_cons.mp hfield with rfl | hfield
      · exact List.not_mem_nil
      · exact ih hfield
    · next hc =>
      obtain ⟨first, rest, hsplit⟩ := List.exists_cons_of_ne_nil (List.splitOn_ne_nil sep l)
      rw [hsplit, List.modifyHead_cons] at hfield
      rw [hsplit] at ih
      rcases List.mem_cons.mp hfield with rfl | hfield
      · have hfirst := ih List.mem_cons_self
        simp only [beq_iff_eq] at hc
        simp [hfirst, Ne.symm hc]
      · exact ih (List.mem_cons_of_mem _ hfield)

theorem subset_of_mem_splitOn {field : List τ} (hfield : field ∈ l.splitOn sep) : field ⊆ l := by
  induction l generalizing field with
  | nil => simp_all
  | cons c l ih =>
    rw [List.splitOn_cons_eq_if_modifyHead] at hfield
    split at hfield
    · rcases List.mem_cons.mp hfield with rfl | hfield
      · exact List.nil_subset _
      · exact List.Subset.trans (ih hfield) (List.subset_cons_self c l)
    · obtain ⟨first, rest, hsplit⟩ := List.exists_cons_of_ne_nil (List.splitOn_ne_nil sep l)
      rw [hsplit, List.modifyHead_cons] at hfield
      rw [hsplit] at ih
      rcases List.mem_cons.mp hfield with rfl | hfield
      · exact List.cons_subset_cons c (ih List.mem_cons_self)
      · exact List.Subset.trans (ih (List.mem_cons_of_mem _ hfield)) (List.subset_cons_self c l)

omit [DecidableEq τ] in
theorem of_mem_intercalate {fields : List (List τ)} {c : τ} (hc : c ∈ [sep].intercalate fields) :
    c = sep ∨ ∃ field ∈ fields, c ∈ field := by
  induction fields with
  | nil => exact absurd hc List.not_mem_nil
  | cons field fields ih =>
    cases fields with
    | nil =>
      rw [List.intercalate_singleton] at hc
      exact Or.inr ⟨field, List.mem_cons_self, hc⟩
    | cons next fields =>
      rw [List.intercalate_cons_cons, List.mem_append, List.mem_append, List.mem_singleton] at hc
      rcases hc with (hc | hc) | hc
      · exact Or.inr ⟨field, List.mem_cons_self, hc⟩
      · exact Or.inl hc
      · rcases ih hc with hc | ⟨other, hother, hc⟩
        · exact Or.inl hc
        · exact Or.inr ⟨other, List.mem_cons_of_mem _ hother, hc⟩

omit [DecidableEq τ] in
theorem subset_intercalate {fields : List (List τ)} {field : List τ} (hfield : field ∈ fields) :
    field ⊆ [sep].intercalate fields := by
  induction fields with
  | nil => exact absurd hfield List.not_mem_nil
  | cons first fields ih =>
    intro c hc
    cases fields with
    | nil =>
      rw [List.intercalate_singleton]
      exact List.mem_singleton.mp hfield ▸ hc
    | cons next fields =>
      rw [List.intercalate_cons_cons, List.mem_append, List.mem_append]
      rcases List.mem_cons.mp hfield with rfl | hfield
      · exact Or.inl (Or.inl hc)
      · exact Or.inr (ih hfield hc)

/-- What is put behind a line goes to its last field. -/
theorem splitOn_concat {c : τ} (hc : c ≠ sep) (l : List τ) :
    ∃ front last, l.splitOn sep = front ++ [last] ∧ (l ++ [c]).splitOn sep = front ++ [last ++ [c]] := by
  induction l with
  | nil => exact ⟨[], [], rfl, by simp [List.splitOn_cons_eq_if_modifyHead, hc]⟩
  | cons d l ih =>
    obtain ⟨front, last, hl, hlc⟩ := ih
    rw [List.cons_append, List.splitOn_cons_eq_if_modifyHead, List.splitOn_cons_eq_if_modifyHead, hl, hlc]
    split
    · exact ⟨[] :: front, last, rfl, rfl⟩
    · cases front with
      | nil => exact ⟨[], d :: last, rfl, rfl⟩
      | cons first front => exact ⟨(d :: first) :: front, last, rfl, rfl⟩

def stripped (sep : τ) (p : τ → Bool) (l : List τ) : List (List τ) := (l.splitOn sep).map (strip p)

theorem stripped_cons_of_pos (hsep : p sep = false) {c : τ} (hc : p c = true) (l : List τ) :
    stripped sep p (c :: l) = stripped sep p l := by
  have hne : c ≠ sep := fun heq => by simp [heq, hsep] at hc
  obtain ⟨first, rest, hsplit⟩ := List.exists_cons_of_ne_nil (List.splitOn_ne_nil sep l)
  rw [stripped, List.splitOn_cons_eq_if_modifyHead, if_neg (by simpa using hne), hsplit, List.modifyHead_cons,
    List.map_cons, strip_cons_of_pos hc, ← List.map_cons, ← hsplit, stripped]

theorem stripped_concat_of_pos (hsep : p sep = false) {c : τ} (hc : p c = true) (l : List τ) :
    stripped sep p (l ++ [c]) = stripped sep p l := by
  have hne : c ≠ sep := fun heq => by simp [heq, hsep] at hc
  obtain ⟨front, last, hl, hlc⟩ := splitOn_concat hne l
  rw [stripped, stripped, hl, hlc, List.map_append, List.map_append, List.map_singleton,
    List.map_singleton, strip_concat_of_pos hc]

/-- It makes no difference whether the line is stripped before. -/
theorem stripped_strip (hsep : p sep = false) (l : List τ) :
    stripped sep p (strip p l) = stripped sep p l := by
  have hfront : stripped sep p (l.dropWhile p) = stripped sep p l := by
    induction l with
    | nil => rfl
    | cons c l ih =>
      by_cases hc : p c = true
      · rw [List.dropWhile_cons_of_pos hc, ih, stripped_cons_of_pos hsep hc]
      · rw [List.dropWhile_cons_of_neg hc]
  rw [← hfront, strip]
  generalize l.dropWhile p = l'
  induction l' using List.reverseRecOn with
  | nil => rfl
  | append_singleton l c ih =>
    by_cases hc : p c = true
    · rw [List.rdropWhile_concat_pos p l c hc, ih, stripped_concat_of_pos hsep hc]
    · rw [List.rdropWhile_concat_neg p l c hc]

/-! ## Doubled marks -/

variable {mark : τ}

def doubled (mark : τ) (l : List τ) : List τ := l.flatMap fun c => if c = mark then [mark, mark] else [c]

theorem doubled_append (l m : List τ) : doubled mark (l ++ m) = doubled mark l ++ doubled mark m :=
  List.flatMap_append

theorem mem_of_mem_doubled {c : τ} (hc : c ∈ doubled mark l) : c ∈ l := by
  obtain ⟨d, hd, hc⟩ := List.mem_flatMap.mp hc
  split at hc
  · next hmark =>
    rcases List.mem_pair.mp hc with rfl | rfl <;> exact hmark ▸ hd
  · exact List.mem_singleton.mp hc ▸ hd

theorem head?_doubled (mark : τ) (l : List τ) : (doubled mark l).head? = l.head? := by
  cases l with
  | nil => rfl
  | cons c l =>
    rw [doubled, List.flatMap_cons]
    split
    · next hc => rw [hc]; rfl
    · rfl

theorem getLast?_doubled (mark : τ) (l : List τ) : (doubled mark l).getLast? = l.getLast? := by
  induction l using List.reverseRecOn with
  | nil => rfl
  | append_singleton l c ih =>
    rw [doubled_append, List.getLast?_concat]
    by_cases hc : c = mark
    · simp [doubled, hc]
    · simp [doubled, hc]

theorem length_doubled (l : List τ) : (doubled mark l).length = l.length + l.count mark := by
  induction l with
  | nil => rfl
  | cons c l ih =>
    rw [← List.singleton_append, doubled_append, List.length_append, ih, List.singleton_append,
      List.length_cons, List.count_cons]
    by_cases hc : c = mark
    · simp [doubled, hc]
      omega
    · simp [doubled, hc]
      omega

/-- Marks around a list are taken off. -/
theorem strip_quoted (mark : τ) (l : List τ) :
    strip (· == mark) (mark :: (l ++ [mark])) = strip (· == mark) l := by
  have hmark : (mark == mark) = true := beq_self_eq_true mark
  rw [strip_cons_of_pos (p := (· == mark)) hmark, strip_concat_of_pos (p := (· == mark)) hmark]

/-- Marks that were doubled are not halved by taking them off the ends. -/
theorem strip_doubled_ne (hmark : mark ∈ l) : strip (· == mark) (doubled mark l) ≠ l := by
  intro heq
  have hself : strip (· == mark) l = l := by
    have hidem := strip_idem (· == mark) (doubled mark l)
    rwa [heq] at hidem
  have hends := strip_eq_self_iff.mp hself
  rw [← head?_doubled mark, ← getLast?_doubled mark] at hends
  rw [strip_eq_self_iff.mpr hends] at heq
  have hlength := congrArg List.length heq
  rw [length_doubled] at hlength
  have hcount := List.count_pos_iff.mpr hmark
  omega

end Fields
end RTDB
