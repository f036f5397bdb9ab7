import RTDB.Lib.Paging

/-!
# Reading in batches

A reader is asked for one batch after the other until it delivers an empty one.  Where the batches
are the pages of something, what is delivered is the pages in front of the first empty one.
-/

namespace RTDB
namespace Batches

variable {R ε α : Type*} {read : R → Except ε (List α × R)} {r r' : R} {bs bs' : List (List α)}

/-- What a reader delivers in front of its first empty batch. -/
inductive Delivers (read : R → Except ε (List α × R)) : R → List (List α) → Prop where
  | done {r r' : R} (hread : read r = .ok ([], r')) : Delivers read r []
  | more {r r' : R} {b : List α} {bs : List (List α)} (hread : read r = .ok (b, r')) (hne : b ≠ [])
      (hrest : Delivers read r' bs) : Delivers read r (b :: bs)

theorem Delivers.unique (hbs : Delivers read r bs) (hbs' : Delivers read r bs') : bs = bs' := by
  induction hbs generalizing bs' with
  | done hread =>
    cases hbs' with
    | done => rfl
    | more hread' hne =>
      rw [hread] at hread'
      exact absurd (Prod.mk.inj (Except.ok.inj hread')).1.symm hne
  | more hread hne hrest ih =>
    cases hbs' with
    | done hread' =>
      rw [hread] at hread'
      exact absurd (Prod.mk.inj (Except.ok.inj hread')).1 hne
    | more hread' _ hrest' =>
      rw [hread] at hread'
      obtain ⟨rfl, rfl⟩ := Prod.mk.inj (Except.ok.inj hread')
      rw [ih hrest']

theorem Delivers.congr (hsame : read r = read r') (hbs : Delivers read r bs) : Delivers read r' bs := by
  cases hbs with
  | done hread => exact .done (hsame ▸ hread)
  | more hread hne hrest => exact .more (hsame ▸ hread) hne hrest

theorem Delivers.ne_error (hbs : Delivers read r bs) (e : ε) : read r ≠ .error e := by
  intro herror
  cases hbs with
  | done hread => exact absurd (herror.symm.trans hread) (by simp)
  | more hread => exact absurd (herror.symm.trans hread) (by simp)

/-! ## Pages -/

/-- In state `s k` the reader reads page `k`, unless that is no good; behind a page that is not empty
it is in the next state. -/
structure Paged (read : R → Except ε (List α × R)) (s : Nat → R) (good : Nat → Prop)
    (page : Nat → List α) : Prop where
  reads : ∀ k, good k → ∃ r, read (s k) = .ok (page k, r) ∧ (page k ≠ [] → r = s (k + 1))
  fails : ∀ k, ¬ good k → ∃ e, read (s k) = .error e

namespace Paged

variable {s : Nat → R} {good : Nat → Prop} {page : Nat → List α}

theorem good_of_ok (hpaged : Paged read s good page) {k : Nat} {b : List α}
    (hread : read (s k) = .ok (b, r)) : good k ∧ b = page k ∧ (b ≠ [] → r = s (k + 1)) := by
  have hgood : good k := by
    by_contra hbad
    obtain ⟨e, hfails⟩ := hpaged.fails k hbad
    rw [hfails] at hread
    exact absurd hread (by simp)
  obtain ⟨r', hread', hnext⟩ := hpaged.reads k hgood
  rw [hread'] at hread
  obtain ⟨rfl, rfl⟩ := Prod.mk.inj (Except.ok.inj hread)
  exact ⟨hgood, rfl, hnext⟩

theorem pages_of_delivers (hpaged : Paged read s good page) {j : Nat}
    (hbs : Delivers read (s j) bs) :
    ∃ K, (∀ k, k < K → good (j + k) ∧ page (j + k) ≠ []) ∧ (good (j + K) ∧ page (j + K) = []) ∧
      bs = (List.range K).map fun k => page (j + k) := by
  generalize hr : s j = r at hbs
  induction hbs generalizing j with
  | done hread =>
    subst hr
    obtain ⟨hgood, hpage, -⟩ := hpaged.good_of_ok hread
    exact ⟨0, fun k hk => absurd hk (Nat.not_lt_zero k), ⟨hgood, hpage.symm⟩, rfl⟩
  | more hread hne hrest ih =>
    subst hr
    obtain ⟨hgood, rfl, hnext⟩ := hpaged.good_of_ok hread
    obtain ⟨K, hbefore, hend, rfl⟩ := ih (hnext hne).symm
    refine ⟨K + 1, fun k hk => ?_, ?_, ?_⟩
    · cases k with
      | zero => exact ⟨hgood, hne⟩
      | succ k =>
        rw [← Nat.succ_add_eq_add_succ]
        exact hbefore k (Nat.lt_of_succ_lt_succ hk)
    · rw [← Nat.succ_add_eq_add_succ]
      exact hend
    · rw [List.range_succ_eq_map, List.map_cons, List.map_map]
      refine congrArg _ (List.map_congr_left fun k _ => ?_)
      exact congrArg page (Nat.succ_add_eq_add_succ j k)

theorem delivers_of_pages (hpaged : Paged read s good page) {j K : Nat}
    (hbefore : ∀ k, k < K → good (j + k) ∧ page (j + k) ≠ [])
    (hend : good (j + K) ∧ page (j + K) = []) :
    Delivers read (s j) ((List.range K).map fun k => page (j + k)) := by
  induction K generalizing j with
  | zero =>
    obtain ⟨r, hread, -⟩ := hpaged.reads j hend.1
    rw [show page j = [] from hend.2] at hread
    exact .done hread
  | succ K ih =>
    obtain ⟨hgood, hne⟩ := hbefore 0 (Nat.succ_pos K)
    obtain ⟨r, hread, hnext⟩ := hpaged.reads j hgood
    obtain rfl : r = s (j + 1) := hnext hne
    have hrest : Delivers read (s (j + 1)) ((List.range K).map fun k => page (j + 1 + k)) := by
      refine ih (fun k hk => ?_) ?_
      · rw [Nat.succ_add_eq_add_succ]
        exact hbefore (k + 1) (Nat.succ_lt_succ hk)
      · rw [Nat.succ_add_eq_add_succ]
        exact hend
    rw [List.range_succ_eq_map, List.map_cons, List.map_map]
    refine .more hread hne ?_
    have hsame : ((List.range K).map fun k => page (j + 1 + k)) =
        (List.range K).map ((fun k => page (j + k)) ∘ Nat.succ) :=
      List.map_congr_left fun k _ => congrArg page (Nat.succ_add_eq_add_succ j k)
    exact hsame ▸ hrest

/-- The pages in front of the first empty one are delivered, if all of them are good. -/
theorem delivers_iff (hpaged : Paged read s good page) (l : List α) :
    (∃ bs, Delivers read (s 0) bs ∧ bs.flatten = l) ↔
      ∃ K, (∀ k, k < K → good k ∧ page k ≠ []) ∧ (good K ∧ page K = []) ∧
        (List.range K).flatMap page = l := by
  constructor
  · rintro ⟨bs, hbs, rfl⟩
    obtain ⟨K, hbefore, hend, rfl⟩ := hpaged.pages_of_delivers hbs
    simp only [Nat.zero_add] at hbefore hend ⊢
    exact ⟨K, hbefore, hend, List.flatMap_def⟩
  · rintro ⟨K, hbefore, hend, rfl⟩
    have hbs := hpaged.delivers_of_pages (j := 0) (K := K)
    simp only [Nat.zero_add] at hbs
    exact ⟨_, hbs hbefore hend, List.flatMap_def.symm⟩

end Paged
end Batches
end RTDB
