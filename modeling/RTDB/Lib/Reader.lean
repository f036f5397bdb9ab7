import Mathlib.Control.Monad.Basic
import Mathlib.Data.List.Basic

/-!
# Readers

A reader takes what it reads off the front of a list, or fails.  It is local when what it takes is all
it looks at: then it reads the same in front of anything else, and fails where the list is cut short.
-/

namespace RTDB

abbrev Reader (τ ε α : Type) := StateT (List τ) (Except ε) α

namespace Reader

variable {τ ε α β : Type} {p : Reader τ ε α} {f : α → Reader τ ε β} {piece piece' : List τ} {x : α}
  {y : β}

/-- The next `n` elements, or an error. -/
def exact (n : Nat) (e : ε) : Reader τ ε (List τ) := fun input =>
  if input.length < n then .error e else .ok (input.take n, input.drop n)

def ofExcept (r : Except ε α) : Reader τ ε α := fun input => r.map fun x => (x, input)

theorem bind_apply_ok {input rest : List τ} (hp : p input = .ok (x, rest)) :
    (p >>= f) input = f x rest := by
  show (p input >>= fun r => f r.1 r.2) = _
  rw [hp]
  rfl

theorem bind_apply_error {input : List τ} {e : ε} (hp : p input = .error e) :
    (p >>= f) input = .error e := by
  show (p input >>= fun r => f r.1 r.2) = _
  rw [hp]
  rfl

theorem bind_ok {input rest : List τ} (hbind : (p >>= f) input = .ok (y, rest)) :
    ∃ x mid, p input = .ok (x, mid) ∧ f x mid = .ok (y, rest) := by
  cases hp : p input with
  | error e =>
    rw [bind_apply_error hp] at hbind
    exact absurd hbind (by simp)
  | ok r =>
    rw [bind_apply_ok hp] at hbind
    exact ⟨r.1, r.2, rfl, hbind⟩

theorem exact_ok {n : Nat} {e : ε} {input taken rest : List τ}
    (hread : exact n e input = .ok (taken, rest)) : taken.length = n ∧ input = taken ++ rest := by
  rw [exact] at hread
  split at hread
  · exact absurd hread (by simp)
  · obtain ⟨rfl, rfl⟩ := Prod.mk.inj (Except.ok.inj hread)
    refine ⟨?_, (List.take_append_drop n input).symm⟩
    rw [List.length_take]
    omega

theorem ofExcept_ok {r : Except ε α} {input rest : List τ}
    (hread : ofExcept r input = .ok (x, rest)) : r = .ok x ∧ input = rest := by
  cases r with
  | error e => exact absurd hread (by simp [ofExcept, Except.map])
  | ok x' =>
    obtain ⟨rfl, rfl⟩ := Prod.mk.inj (Except.ok.inj hread)
    exact ⟨rfl, rfl⟩

/-! ## What is read -/

/-- The piece is read as `x`, whatever follows it. -/
def Reads (p : Reader τ ε α) (piece : List τ) (x : α) : Prop :=
  ∀ rest, p (piece ++ rest) = .ok (x, rest)

theorem Reads.pure (x : α) : Reads (pure x : Reader τ ε α) [] x := fun _ => rfl

theorem Reads.bind (hp : Reads p piece x) (hf : Reads (f x) piece' y) :
    Reads (p >>= f) (piece ++ piece') y := by
  intro rest
  rw [List.append_assoc, bind_apply_ok (hp (piece' ++ rest))]
  exact hf rest

theorem Reads.bind_nil (hp : Reads p [] x) (hf : Reads (f x) piece y) : Reads (p >>= f) piece y :=
  hp.bind hf

theorem Reads.nil_bind (hp : Reads p piece x) (hf : Reads (f x) [] y) : Reads (p >>= f) piece y := by
  have hread := hp.bind hf
  rw [List.append_nil] at hread
  exact hread

theorem Reads.exact {n : Nat} (hlength : piece.length = n) (e : ε) :
    Reads (exact n e) piece piece := by
  intro rest
  have hlong : ¬ (piece ++ rest).length < n := by
    rw [List.length_append]
    omega
  rw [Reader.exact, if_neg hlong, List.take_left' hlength, List.drop_left' hlength]

theorem Reads.ofExcept {r : Except ε α} (hr : r = .ok x) : Reads (ofExcept r : Reader τ ε α) [] x := by
  intro rest
  rw [Reader.ofExcept, hr]
  rfl

/-! ## Local readers -/

def Local (p : Reader τ ε α) : Prop :=
  ∀ input x rest, p input = .ok (x, rest) → ∃ piece, input = piece ++ rest ∧ Reads p piece x

theorem Local.pure (x : α) : Local (pure x : Reader τ ε α) := by
  intro input y rest hread
  obtain ⟨rfl, rfl⟩ := Prod.mk.inj (Except.ok.inj hread)
  exact ⟨[], rfl, Reads.pure x⟩

theorem Local.bind (hp : Local p) (hf : ∀ x, Local (f x)) : Local (p >>= f) := by
  intro input y rest hread
  obtain ⟨x, mid, hfirst, hsecond⟩ := bind_ok hread
  obtain ⟨piece, rfl, hpiece⟩ := hp input x mid hfirst
  obtain ⟨piece', rfl, hpiece'⟩ := hf x mid y rest hsecond
  exact ⟨piece ++ piece', (List.append_assoc _ _ _).symm, hpiece.bind hpiece'⟩

theorem Local.exact (n : Nat) (e : ε) : Local (exact n e : Reader τ ε (List τ)) := by
  intro input x rest hread
  obtain ⟨hlength, hinput⟩ := exact_ok hread
  exact ⟨x, hinput, Reads.exact hlength e⟩

theorem Local.ofExcept (r : Except ε α) : Local (ofExcept r : Reader τ ε α) := by
  intro input x rest hread
  obtain ⟨rfl, rfl⟩ := ofExcept_ok hread
  exact ⟨[], rfl, Reads.ofExcept rfl⟩

theorem Local.length_le (hp : Local p) {input rest : List τ} (hread : p input = .ok (x, rest)) :
    rest.length ≤ input.length := by
  obtain ⟨piece, rfl, -⟩ := hp input x rest hread
  rw [List.length_append]
  omega

/-- A piece that is cut short is not read. -/
theorem Local.cut (hp : Local p) (hpiece : Reads p piece x) {front back : List τ}
    (hcut : piece = front ++ back) (hback : back ≠ []) : ∃ e, p front = .error e := by
  cases hread : p front with
  | error e => exact ⟨e, rfl⟩
  | ok r =>
    obtain ⟨part, hfront, hpart⟩ := hp front r.1 r.2 hread
    have hwhole := hpiece []
    rw [List.append_nil, hcut, hfront, List.append_assoc, hpart (r.2 ++ back)] at hwhole
    have hnil : r.2 ++ back = [] := (Prod.mk.inj (Except.ok.inj hwhole)).2
    exact absurd (List.append_eq_nil_iff.mp hnil).2 hback

end Reader
end RTDB
