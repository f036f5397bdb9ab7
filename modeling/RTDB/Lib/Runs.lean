import Mathlib.Data.List.Basic

/-!
# Runs under a condition on each step

A run folds a step function over a list.  A condition on every step speaks of
the state that the steps before it lead to.
-/

namespace RTDB
namespace Runs

variable {σ α : Type*} {f : σ → α → σ} {Q : σ → Prop}

/-- Every step of the run meets the condition. -/
def Each (f : σ → α → σ) (p : σ → α → Prop) (s : σ) (l : List α) : Prop :=
  ∀ before a after, l = before ++ a :: after → p (before.foldl f s) a

theorem each_nil {p : σ → α → Prop} (s : σ) : Each f p s [] := by
  intro before a after hl
  exact absurd hl (by simp)

theorem each_cons {p : σ → α → Prop} {s : σ} {a : α} {l : List α} :
    Each f p s (a :: l) ↔ p s a ∧ Each f p (f s a) l := by
  constructor
  · intro heach
    refine ⟨heach [] a l rfl, fun before b after hl => heach (a :: before) b after ?_⟩
    rw [hl, List.cons_append]
  · rintro ⟨hfirst, hrest⟩ before b after hl
    cases before with
    | nil =>
      obtain ⟨rfl, -⟩ := List.cons.inj hl
      exact hfirst
    | cons c before =>
      obtain ⟨rfl, htail⟩ := List.cons.inj hl
      exact hrest before b after htail

instance decidableEach {p : σ → α → Prop} [∀ s a, Decidable (p s a)] :
    (s : σ) → (l : List α) → Decidable (Each f p s l)
  | s, [] => isTrue (each_nil s)
  | s, a :: l =>
    have := decidableEach (p := p) (f s a) l
    decidable_of_iff (p s a ∧ Each f p (f s a) l) each_cons.symm

theorem each_and {p q : σ → α → Prop} {s : σ} {l : List α} :
    Each f (fun s a => p s a ∧ q s a) s l ↔ Each f p s l ∧ Each f q s l := by
  constructor
  · intro heach
    exact ⟨fun before a after hl => (heach before a after hl).1,
      fun before a after hl => (heach before a after hl).2⟩
  · rintro ⟨hp, hq⟩ before a after hl
    exact ⟨hp before a after hl, hq before a after hl⟩

theorem Each.before {p : σ → α → Prop} {s : σ} {l l' : List α} (heach : Each f p s (l ++ l')) :
    Each f p s l := by
  intro before a after hl
  refine heach before a (after ++ l') ?_
  rw [hl, List.append_assoc, List.cons_append]

/-- An invariant of the steps that meet the condition holds after the run. -/
theorem Each.foldl {p : σ → α → Prop} (hstep : ∀ s a, Q s → p s a → Q (f s a)) {s : σ} (hs : Q s)
    {l : List α} (heach : Each f p s l) : Q (l.foldl f s) := by
  induction l generalizing s with
  | nil => exact hs
  | cons a l ih =>
    obtain ⟨hfirst, hrest⟩ := each_cons.mp heach
    exact ih (hstep s a hs hfirst) hrest

theorem Each.kept {p : σ → α → Prop} (hstep : ∀ s a, Q s → p s a → Q (f s a)) {s : σ} (hs : Q s)
    {l : List α} (heach : Each f p s l) : Each f (fun s a => Q (f s a)) s l := by
  induction l generalizing s with
  | nil => exact each_nil s
  | cons a l ih =>
    obtain ⟨hfirst, hrest⟩ := each_cons.mp heach
    exact each_cons.mpr ⟨hstep s a hs hfirst, ih (hstep s a hs hfirst) hrest⟩

/-- What holds at the start and behind every step holds of every state reached. -/
theorem each_behind_iff {s : σ} (hs : Q s) {l : List α} :
    Each f (fun s a => Q (f s a)) s l ↔ ∀ before, before <+: l → Q (before.foldl f s) := by
  constructor
  · rintro heach before ⟨after, rfl⟩
    rcases List.eq_nil_or_concat' before with rfl | ⟨front, a, rfl⟩
    · exact hs
    · have hbehind := heach front a after (by rw [List.append_assoc]; rfl)
      rwa [List.foldl_append]
  · intro hall before a after hl
    have hbehind := hall (before ++ [a]) ⟨after, by rw [hl, List.append_assoc]; rfl⟩
    rwa [List.foldl_append] at hbehind

/-- A run some step of which does not meet the condition has a first such step. -/
theorem exists_first_not {p : σ → α → Prop} {s : σ} {l : List α} (hnot : ¬Each f p s l) :
    ∃ before a after, l = before ++ a :: after ∧ Each f p s before ∧ ¬p (before.foldl f s) a := by
  induction l generalizing s with
  | nil => exact absurd (each_nil s) hnot
  | cons a l ih =>
    by_cases hfirst : p s a
    · have hrest : ¬Each f p (f s a) l := fun hrest => hnot (each_cons.mpr ⟨hfirst, hrest⟩)
      obtain ⟨before, b, after, rfl, hbefore, hb⟩ := ih hrest
      exact ⟨a :: before, b, after, rfl, each_cons.mpr ⟨hfirst, hbefore⟩, hb⟩
    · exact ⟨[], a, l, rfl, each_nil s, hfirst⟩

theorem each_congr {p q : σ → α → Prop} (hstep : ∀ s a, Q s → p s a → Q (f s a))
    (hiff : ∀ s a, Q s → (p s a ↔ q s a)) {s : σ} (hs : Q s) {l : List α} :
    Each f p s l ↔ Each f q s l := by
  induction l generalizing s with
  | nil => exact ⟨fun _ => each_nil s, fun _ => each_nil s⟩
  | cons a l ih =>
    rw [each_cons, each_cons, hiff s a hs]
    refine and_congr_right fun hfirst => ih (hstep s a hs ((hiff s a hs).mpr hfirst))

/-! ## Runs that may stop -/

/-- An invariant of the steps that meet the condition and succeed holds after a
run that gets through. -/
theorem foldlM_invariant {g : σ → α → Option σ} {p : σ → α → Prop}
    (hstep : ∀ s a s', Q s → p s a → g s a = some s' → Q s') {s₀ : σ} (hs₀ : Q s₀) {l : List α}
    (heach : ∀ before a after s, l = before ++ a :: after → before.foldlM g s₀ = some s → p s a)
    {s : σ} (hrun : l.foldlM g s₀ = some s) : Q s := by
  induction l generalizing s₀ with
  | nil =>
    rw [← Option.some.inj hrun]
    exact hs₀
  | cons a l ih =>
    rw [List.foldlM_cons] at hrun
    obtain ⟨s₁, hfirst, hrest⟩ := Option.bind_eq_some_iff.mp hrun
    refine ih (hstep s₀ a s₁ hs₀ (heach [] a l s₀ rfl rfl) hfirst)
      (fun before b after s hl hbefore => heach (a :: before) b after s ?_ ?_) hrest
    · rw [hl, List.cons_append]
    · rw [List.foldlM_cons, hfirst]
      exact hbefore

def Along (g : σ → α → Option σ) (p : σ → α → Prop) : σ → List α → Prop
  | _, [] => True
  | s, a :: l => p s a ∧ ∀ s', g s a = some s' → Along g p s' l

instance decidableAlong {g : σ → α → Option σ} {p : σ → α → Prop} [∀ s a, Decidable (p s a)] :
    (s : σ) → (l : List α) → Decidable (Along g p s l)
  | _, [] => isTrue trivial
  | s, a :: l =>
    have hrest : Decidable (∀ s', g s a = some s' → Along g p s' l) :=
      match g s a with
      | none => isTrue fun _ hs' => absurd hs' (by simp)
      | some s₁ =>
        have := decidableAlong (g := g) (p := p) s₁ l
        decidable_of_iff (Along g p s₁ l) (by simp)
    inferInstanceAs (Decidable (_ ∧ _))

theorem along_cons {g : σ → α → Option σ} {p : σ → α → Prop} {s s₁ : σ} {a : α} {l : List α}
    (hfirst : g s a = some s₁) : Along g p s (a :: l) ↔ p s a ∧ Along g p s₁ l := by
  rw [Along]
  refine and_congr_right fun _ => ⟨fun hall => hall s₁ hfirst, fun hrest s' hs' => ?_⟩
  rw [hfirst] at hs'
  rw [← Option.some.inj hs']
  exact hrest

/-- Where nothing is asked of a step, every run meets it. -/
theorem along_true {g : σ → α → Option σ} (s : σ) (l : List α) :
    Along g (fun _ _ => True) s l := by
  induction l generalizing s with
  | nil => trivial
  | cons a l ih => exact ⟨trivial, fun s' _ => ih s'⟩

/-- Where a step succeeds exactly if it meets the condition, a run gets through exactly if all its
steps do. -/
theorem isSome_foldlM_iff {g : σ → α → Option σ} {p : σ → α → Prop}
    (hstep : ∀ s a, (g s a).isSome = true ↔ p s a) (s : σ) (l : List α) :
    (l.foldlM g s).isSome = true ↔ Along g p s l := by
  induction l generalizing s with
  | nil => exact iff_of_true rfl trivial
  | cons a l ih =>
    rw [List.foldlM_cons, Along, ← hstep]
    cases hfirst : g s a with
    | none => simp
    | some s₁ => simp [ih]

/-- An invariant of the steps that meet the condition holds wherever the run gets. -/
theorem Along.foldlM {g : σ → α → Option σ} {p : σ → α → Prop}
    (hstep : ∀ s a s', Q s → p s a → g s a = some s' → Q s') {s₀ : σ} (hs₀ : Q s₀) {l : List α}
    (halong : Along g p s₀ l) {s : σ} (hrun : l.foldlM g s₀ = some s) : Q s := by
  induction l generalizing s₀ with
  | nil =>
    rw [← Option.some.inj hrun]
    exact hs₀
  | cons a l ih =>
    rw [List.foldlM_cons] at hrun
    obtain ⟨s₁, hfirst, hrest⟩ := Option.bind_eq_some_iff.mp hrun
    exact ih (hstep s₀ a s₁ hs₀ halong.1 hfirst) (halong.2 s₁ hfirst) hrest

theorem Along.imp {g : σ → α → Option σ} {p q : σ → α → Prop}
    (hstep : ∀ s a s', Q s → p s a → g s a = some s' → Q s') (himp : ∀ s a, Q s → p s a → q s a)
    {s : σ} (hs : Q s) {l : List α} (halong : Along g p s l) : Along g q s l := by
  induction l generalizing s with
  | nil => trivial
  | cons a l ih =>
    obtain ⟨hfirst, hrest⟩ := halong
    exact ⟨himp s a hs hfirst, fun s' hs' => ih (hstep s a s' hs hfirst hs') (hrest s' hs')⟩

/-- What every step keeps holds wherever a run gets. -/
theorem foldlM_keeps {g : σ → α → Option σ} (hstep : ∀ s a s', Q s → g s a = some s' → Q s')
    {s₀ : σ} (hs₀ : Q s₀) {l : List α} {s : σ} (hrun : l.foldlM g s₀ = some s) : Q s :=
  (along_true s₀ l).foldlM (fun s a s' hs _ hgoes => hstep s a s' hs hgoes) hs₀ hrun

/-- Two conditions that agree on the steps that succeed, under an invariant, agree along a run that
gets through. -/
theorem along_congr {g : σ → α → Option σ} {p q : σ → α → Prop}
    (hstep : ∀ s a s', Q s → p s a → g s a = some s' → Q s')
    (hiff : ∀ s a s', Q s → g s a = some s' → (p s a ↔ q s a)) {s₀ : σ} (hs₀ : Q s₀) {l : List α}
    {s : σ} (hrun : l.foldlM g s₀ = some s) : Along g p s₀ l ↔ Along g q s₀ l := by
  induction l generalizing s₀ with
  | nil => exact Iff.rfl
  | cons a l ih =>
    rw [List.foldlM_cons] at hrun
    obtain ⟨s₁, hfirst, hrest⟩ := Option.bind_eq_some_iff.mp hrun
    rw [along_cons hfirst, along_cons hfirst, hiff s₀ a s₁ hs₀ hfirst]
    refine and_congr_right fun hmeets => ?_
    exact ih (hstep s₀ a s₁ hs₀ ((hiff s₀ a s₁ hs₀ hfirst).mpr hmeets) hfirst) hrest

/-- Where a step keeps a property exactly if it meets the condition, the property holds wherever a
run gets exactly if all its steps meet the condition. -/
theorem along_iff_kept {g : σ → α → Option σ} {p : σ → α → Prop} {R : σ → Prop}
    (hstep : ∀ s a s', Q s → g s a = some s' → Q s')
    (hiff : ∀ s a s', Q s → R s → g s a = some s' → (R s' ↔ p s a)) {s₀ : σ} (hs₀ : Q s₀) (hR : R s₀)
    {l : List α} {s : σ} (hrun : l.foldlM g s₀ = some s) :
    Along g p s₀ l ↔
      ∀ before after s', l = before ++ after → before.foldlM g s₀ = some s' → R s' := by
  induction l generalizing s₀ with
  | nil =>
    refine ⟨fun _ before after s' hl hbefore => ?_, fun _ => trivial⟩
    obtain ⟨rfl, rfl⟩ := List.append_eq_nil_iff.mp hl.symm
    rw [← Option.some.inj hbefore]
    exact hR
  | cons a l ih =>
    rw [List.foldlM_cons] at hrun
    obtain ⟨s₁, hfirst, hrest⟩ := Option.bind_eq_some_iff.mp hrun
    have hs₁ := hstep s₀ a s₁ hs₀ hfirst
    rw [along_cons hfirst]
    constructor
    · rintro ⟨hmeets, halong⟩ before after s' hl hbefore
      have hR₁ := (hiff s₀ a s₁ hs₀ hR hfirst).mpr hmeets
      cases before with
      | nil =>
        rw [← Option.some.inj hbefore]
        exact hR
      | cons b before =>
        obtain ⟨rfl, htail⟩ := List.cons.inj hl
        rw [List.foldlM_cons, hfirst] at hbefore
        exact (ih hs₁ hR₁ hrest).mp halong before after s' htail hbefore
    · intro hall
      have hbehind : ∀ before after s', l = before ++ after → before.foldlM g s₁ = some s' → R s' := by
        intro before after s' hl hbefore
        refine hall (a :: before) after s' ?_ ?_
        · rw [hl, List.cons_append]
        · rw [List.foldlM_cons, hfirst]
          exact hbefore
      have hR₁ := hbehind [] l s₁ rfl rfl
      exact ⟨(hiff s₀ a s₁ hs₀ hR hfirst).mp hR₁, (ih hs₁ hR₁ hrest).mpr hbehind⟩

/-- What holds of a state behind a step only if it held before holds all along a run it holds behind. -/
theorem foldlM_before {g : σ → α → Option σ} {R : σ → Prop}
    (hback : ∀ s a s', g s a = some s' → R s' → R s) {s₀ s : σ} {l : List α}
    (hrun : l.foldlM g s₀ = some s) (hs : R s) : R s₀ := by
  induction l generalizing s₀ with
  | nil =>
    rw [Option.some.inj hrun]
    exact hs
  | cons a l ih =>
    rw [List.foldlM_cons] at hrun
    obtain ⟨s₁, hfirst, hrest⟩ := Option.bind_eq_some_iff.mp hrun
    exact hback s₀ a s₁ hfirst (ih hrest)

/-- Where no step adds to a load, and a step keeps it exactly if it meets the condition, a run keeps it
exactly if all its steps meet the condition. -/
theorem along_iff_load {g : σ → α → Option σ} {p : σ → α → Prop} {R : σ → Prop} {load : σ → Nat}
    (hstep : ∀ s a s', Q s → g s a = some s' → Q s')
    (hback : ∀ s a s', g s a = some s' → R s' → R s)
    (hload : ∀ s a s', Q s → R s' → g s a = some s' →
      load s' ≤ load s ∧ (load s' = load s ↔ p s a))
    {s₀ s : σ} (hs₀ : Q s₀) {l : List α} (hrun : l.foldlM g s₀ = some s) (hs : R s) :
    load s ≤ load s₀ ∧ (load s = load s₀ ↔ Along g p s₀ l) := by
  induction l generalizing s₀ with
  | nil =>
    rw [← Option.some.inj hrun]
    exact ⟨Nat.le_refl _, fun _ => trivial, fun _ => rfl⟩
  | cons a l ih =>
    rw [List.foldlM_cons] at hrun
    obtain ⟨s₁, hfirst, hrest⟩ := Option.bind_eq_some_iff.mp hrun
    obtain ⟨hle, hkeeps⟩ := ih (hstep s₀ a s₁ hs₀ hfirst) hrest
    obtain ⟨hle₁, hkeeps₁⟩ := hload s₀ a s₁ hs₀ (foldlM_before hback hrest hs) hfirst
    refine ⟨by omega, ?_⟩
    rw [along_cons hfirst, ← hkeeps₁, ← hkeeps]
    omega

/-! ## Runs that come to an end -/

/-- Whatever step is taken next, the run is done after finitely many. -/
def Ends (step : σ → σ → Prop) (done : σ → Prop) (s : σ) : Prop :=
  ∀ run : Nat → σ, run 0 = s → (∀ k, ¬ done (run k) → step (run k) (run (k + 1))) →
    ∃ k, done (run k)

theorem ends_of_weight {step : σ → σ → Prop} {done : σ → Prop} {W : σ → Nat → Prop}
    (hstep : ∀ s n s', W s n → step s s' → ∃ n', n' < n ∧ W s' n') {s : σ} {n : Nat} (hs : W s n) :
    Ends step done s := by
  intro run hstart hrun
  by_contra hnever
  have hweight : ∀ k, ∃ m, m + k ≤ n ∧ W (run k) m := by
    intro k
    induction k with
    | zero =>
      rw [hstart]
      exact ⟨n, Nat.le_refl _, hs⟩
    | succ k ih =>
      obtain ⟨m, hm, hk⟩ := ih
      obtain ⟨m', hlt, hnext⟩ := hstep _ _ _ hk (hrun k fun hdone => hnever ⟨k, hdone⟩)
      exact ⟨m', by omega, hnext⟩
  obtain ⟨m, hpast, -⟩ := hweight (n + 1)
  omega

/-- A run ends when each step takes something off a load. -/
theorem ends_of_load {step : σ → σ → Prop} {done : σ → Prop} (load : σ → Nat)
    (hkeep : ∀ s s', Q s → step s s' → Q s') (hlt : ∀ s s', Q s → step s s' → load s' < load s)
    {s : σ} (hs : Q s) : Ends step done s := by
  refine ends_of_weight (W := fun s n => Q s ∧ load s = n) (fun s n s' hw hstep => ?_) ⟨hs, rfl⟩
  obtain ⟨hq, rfl⟩ := hw
  exact ⟨load s', hlt s s' hq hstep, hkeep s s' hq hstep, rfl⟩

/-- A state in which no step can be taken is then reached. -/
theorem exists_end {g : σ → α → Option σ} {W : σ → Nat → Prop}
    (hstep : ∀ s n a s', W s n → g s a = some s' → ∃ n', n' < n ∧ W s' n') {s : σ} {n : Nat}
    (hs : W s n) : ∃ (l : List α) (s' : σ), l.foldlM g s = some s' ∧ ∀ a, g s' a = none := by
  induction n using Nat.strongRecOn generalizing s with
  | ind n ih =>
    by_cases hnone : ∀ a, g s a = none
    · exact ⟨[], s, rfl, hnone⟩
    · obtain ⟨a, hsome⟩ := not_forall.mp hnone
      obtain ⟨s₁, hfirst⟩ := Option.ne_none_iff_exists'.mp hsome
      obtain ⟨m, hlt, hm⟩ := hstep s n a s₁ hs hfirst
      obtain ⟨l, s', hrest, hend⟩ := ih m hlt hm
      refine ⟨a :: l, s', ?_, hend⟩
      rw [List.foldlM_cons, hfirst]
      exact hrest

/-- A run need not end where some step can always be taken. -/
theorem not_ends_of_next {step : σ → σ → Prop} {done : σ → Prop}
    (hgoes : ∀ s, Q s → ¬ done s) (hnext : ∀ s, Q s → ∃ s', step s s' ∧ Q s') {s : σ} (hs : Q s) :
    ¬ Ends step done s := by
  intro hends
  choose next hstep hkeep using hnext
  let run : Nat → { s // Q s } := fun k =>
    Nat.rec ⟨s, hs⟩ (fun _ here => ⟨next here.1 here.2, hkeep here.1 here.2⟩) k
  obtain ⟨k, hdone⟩ := hends (fun k => (run k).1) rfl fun k _ => hstep (run k).1 (run k).2
  exact hgoes (run k).1 (run k).2 hdone

end Runs
end RTDB
