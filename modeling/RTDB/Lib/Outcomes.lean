import Mathlib.Data.List.Forall2

/-!
# Computations that may stop

A computation comes back with a value, or stops with an error.  What is said of one is said of the
value, and of which errors it may stop with.
-/

namespace RTDB
namespace Outcomes

variable {ε : Type*} {α β σ : Type} {stops : ε → Prop} {P Q : α → Prop}

/-- It comes back with a value of the property, or stops with one of the errors. -/
def Gives (stops : ε → Prop) (Q : α → Prop) : Except ε α → Prop
  | .ok a => Q a
  | .error e => stops e

theorem ok_bind (a : α) (f : α → Except ε β) : (Except.ok a >>= f) = f a := rfl

theorem map_eq_ok {f : α → β} {x : Except ε α} {b : β} (hx : x.map f = .ok b) :
    ∃ a, x = .ok a ∧ f a = b := by
  cases x with
  | error e => exact absurd hx (by simp [Except.map])
  | ok a => exact ⟨a, rfl, Except.ok.inj hx⟩

theorem bind_eq_ok {x : Except ε α} {f : α → Except ε β} {b : β} (hbind : (x >>= f) = .ok b) :
    ∃ a, x = .ok a ∧ f a = .ok b := by
  cases x with
  | error e => exact absurd hbind (by simp [bind, Except.bind])
  | ok a => exact ⟨a, rfl, hbind⟩

theorem Gives.imp {x : Except ε α} (hx : Gives stops P x) (himp : ∀ a, P a → Q a) :
    Gives stops Q x := by
  cases x with
  | ok a => exact himp a hx
  | error e => exact hx

theorem Gives.bind {R : β → Prop} {x : Except ε α} {f : α → Except ε β} (hx : Gives stops P x)
    (hf : ∀ a, P a → Gives stops R (f a)) : Gives stops R (x >>= f) := by
  cases x with
  | ok a => exact hf a hx
  | error e => exact hx

theorem Gives.map {R : β → Prop} {x : Except ε α} {f : α → β} (hx : Gives stops P x)
    (hf : ∀ a, P a → R (f a)) : Gives stops R (x.map f) := by
  cases x with
  | ok a => exact hf a hx
  | error e => exact hx

theorem Gives.mapError {ε' : Type*} {stops' : ε' → Prop} {x : Except ε α} {f : ε → ε'}
    (hx : Gives stops P x) (hf : ∀ e, stops e → stops' (f e)) : Gives stops' P (x.mapError f) := by
  cases x with
  | ok a => exact hx
  | error e => exact hf e hx

/-- An invariant of a loop. -/
theorem Gives.foldlM {I : σ → Prop} {f : σ → α → Except ε σ} {l : List α} {s : σ} (hs : I s)
    (hstep : ∀ s a, a ∈ l → I s → Gives stops I (f s a)) : Gives stops I (l.foldlM f s) := by
  induction l generalizing s with
  | nil => exact hs
  | cons a l ih =>
    rw [List.foldlM_cons]
    refine (hstep s a List.mem_cons_self hs).bind fun s' hs' => ih hs' fun s'' b hb => ?_
    exact hstep s'' b (List.mem_cons_of_mem a hb)

theorem Gives.foldlM_down {I : Nat → σ → Prop} {f : σ → Nat → Except ε σ} {low n : Nat} {s : σ}
    (hs : I (low + n) s)
    (hstep : ∀ k s, low ≤ k → k < low + n → I (k + 1) s → Gives stops (I k) (f s k)) :
    Gives stops (I low) ((List.range' low n).reverse.foldlM f s) := by
  induction n generalizing s with
  | zero => exact hs
  | succ n ih =>
    rw [List.range'_concat, List.reverse_append, List.reverse_singleton, List.singleton_append,
      List.foldlM_cons, Nat.one_mul]
    refine (hstep (low + n) s (Nat.le_add_right low n) (by omega) hs).bind fun s' hs' => ih hs' ?_
    exact fun k s'' hlow hhigh => hstep k s'' hlow (by omega)

/-- A loop that collects a value for each element. -/
theorem Gives.mapM {R : α → β → Prop} {f : α → Except ε β} {l : List α}
    (hf : ∀ a ∈ l, Gives stops (R a) (f a)) : Gives stops (List.Forall₂ R l) (l.mapM f) := by
  induction l with
  | nil => exact List.Forall₂.nil
  | cons a l ih =>
    rw [List.mapM_cons]
    refine (hf a List.mem_cons_self).bind fun b hb => ?_
    refine (ih fun a' ha' => hf a' (List.mem_cons_of_mem a ha')).bind fun bs hbs => ?_
    exact List.Forall₂.cons hb hbs

theorem mapM_eq_map {f : α → Except ε β} {g : α → β} {l : List α}
    (hl : ∀ a ∈ l, f a = .ok (g a)) : l.mapM f = .ok (l.map g) := by
  induction l with
  | nil => rfl
  | cons a l ih =>
    obtain ⟨hfirst, hrest⟩ := List.forall_mem_cons.mp hl
    rw [List.mapM_cons, hfirst, ok_bind, ih hrest]
    rfl

/-- What a loop collects is what each element gives. -/
theorem mapM_eq_ok_iff {f : α → Except ε β} {l : List α} {bs : List β} :
    l.mapM f = .ok bs ↔ List.Forall₂ (fun a b => f a = .ok b) l bs := by
  induction l generalizing bs with
  | nil =>
    rw [List.mapM_nil, List.forall₂_nil_left_iff]
    exact ⟨fun hl => (Except.ok.inj hl).symm, fun hbs => by rw [hbs]; rfl⟩
  | cons a l ih =>
    rw [List.mapM_cons]
    constructor
    · intro hl
      obtain ⟨b, hb, hl⟩ := bind_eq_ok hl
      obtain ⟨bs', hbs', hl⟩ := bind_eq_ok hl
      obtain rfl : b :: bs' = bs := Except.ok.inj hl
      exact .cons hb (ih.mp hbs')
    · intro hall
      cases hall with
      | cons hb hrest =>
        rw [hb, ok_bind, ih.mpr hrest]
        rfl

theorem getElem?_of_mapM {f : α → Except ε β} {l : List α} {bs : List β}
    (hl : l.mapM f = .ok bs) (i : Nat) :
    (∀ a, l[i]? = some a → ∃ b, bs[i]? = some b ∧ f a = .ok b) ∧
      ∀ b, bs[i]? = some b → ∃ a, l[i]? = some a ∧ f a = .ok b := by
  have hall := mapM_eq_ok_iff.mp hl
  clear hl
  induction hall generalizing i with
  | nil => exact ⟨fun a ha => absurd ha (by simp), fun b hb => absurd hb (by simp)⟩
  | cons hab hrest ih =>
    cases i with
    | zero => simpa using hab
    | succ i => simpa using ih i

theorem mapM_ok {f : α → Except ε β} (l : List α)
    (hl : ∀ a ∈ l, ∃ b, f a = .ok b) : ∃ bs, l.mapM f = .ok bs := by
  induction l with
  | nil => exact ⟨[], rfl⟩
  | cons a l ih =>
    obtain ⟨b, hb⟩ := hl a List.mem_cons_self
    obtain ⟨bs, hbs⟩ := ih fun a' ha' => hl a' (List.mem_cons_of_mem _ ha')
    rw [List.mapM_cons, hb, hbs]
    exact ⟨b :: bs, rfl⟩

/-- Each element is found again from what was made of it. -/
theorem mapM_map_eq_ok_iff {f : β → Except ε α} {g : α → β} {l : List α} :
    (l.map g).mapM f = .ok l ↔ ∀ a ∈ l, f (g a) = .ok a := by
  rw [mapM_eq_ok_iff, List.forall₂_map_left_iff, List.forall₂_same]

theorem foldlM_eq_foldl {f : σ → α → Except ε σ} {g : σ → α → σ} {l : List α} {s : σ}
    (hl : ∀ s, ∀ a ∈ l, f s a = .ok (g s a)) : l.foldlM f s = .ok (l.foldl g s) := by
  induction l generalizing s with
  | nil => rfl
  | cons a l ih =>
    rw [List.foldlM_cons, hl s a List.mem_cons_self, ok_bind,
      ih fun s' a' ha' => hl s' a' (List.mem_cons_of_mem a ha'), List.foldl_cons]

end Outcomes
end RTDB
