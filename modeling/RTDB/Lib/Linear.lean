import Mathlib.Data.Finset.Max
import Mathlib.Data.List.Perm.Subperm
import Mathlib.Data.List.Sublists
import Mathlib.Data.Nat.Cast.WithTop
import Mathlib.Data.Set.Finite.List
import Mathlib.Logic.Relation
import Mathlib.Order.WellFounded
import Mathlib.Order.WithBot

/-!
# Calls on a shared object and the orders that explain them

Calls overlap in time.  An order of them explains what they returned when it keeps to real
time and every call returns what it would return if it ran alone at its place in the order.
-/

namespace RTDB
namespace Linear

open Relation

/-! ## Orders of a list -/

section Orders

variable {α : Type*}

/-- In a list without repetitions one of two members comes first. -/
theorem pair_or_pair {l : List α} {a b : α} (ha : a ∈ l) (hb : b ∈ l) (hne : a ≠ b) :
    [a, b].Sublist l ∨ [b, a].Sublist l := by
  induction l with
  | nil => exact absurd ha List.not_mem_nil
  | cons c l ih =>
    rcases List.mem_cons.mp ha with rfl | hatail
    · exact .inl ((List.singleton_sublist.mpr (List.mem_of_ne_of_mem hne.symm hb)).cons_cons a)
    · rcases List.mem_cons.mp hb with rfl | hbtail
      · exact .inr ((List.singleton_sublist.mpr hatail).cons_cons b)
      · exact (ih hatail hbtail).imp (·.cons c) (·.cons c)

theorem not_pair_and_pair {l : List α} (hnodup : l.Nodup) {a b : α} (hab : [a, b].Sublist l) :
    ¬[b, a].Sublist l := by
  induction l with
  | nil => exact absurd hab (by simp)
  | cons c l ih =>
    obtain ⟨hc, hrest⟩ := List.nodup_cons.mp hnodup
    intro hba
    cases hab with
    | cons _ hab =>
      cases hba with
      | cons _ hba => exact ih hrest hab hba
      | cons_cons _ hba => exact hc (hab.subset (by simp))
    | cons_cons _ hb =>
      cases hba with
      | cons _ hba => exact hc (hba.subset (by simp))
      | cons_cons _ hba => exact hc (List.singleton_sublist.mp hb)

variable {before : α → α → Prop}

/-- When some member of every part has nothing before it, the members can be put in an order. -/
theorem exists_order [DecidableEq α] {l : List α}
    (hfirst : ∀ part : List α, part.Sublist l → part ≠ [] →
      ∃ a ∈ part, ∀ b ∈ part, ¬before b a) :
    ∃ order : List α, order.Perm l ∧ order.Pairwise fun a b => ¬before b a := by
  induction hlength : l.length generalizing l with
  | zero =>
    obtain rfl := List.eq_nil_of_length_eq_zero hlength
    exact ⟨[], List.Perm.refl _, List.Pairwise.nil⟩
  | succ n ih =>
    have hne : l ≠ [] := List.ne_nil_of_length_eq_add_one hlength
    obtain ⟨a, ha, hleast⟩ := hfirst l (List.Sublist.refl l) hne
    have hshorter : (l.erase a).length = n := by
      rw [List.length_erase_of_mem ha, hlength, Nat.add_sub_cancel]
    obtain ⟨order, hperm, hpairwise⟩ := ih
      (fun part hpart => hfirst part (hpart.trans List.erase_sublist)) hshorter
    refine ⟨a :: order, (hperm.cons a).trans (List.perm_cons_erase ha).symm,
      List.pairwise_cons.mpr ⟨fun b hb => ?_, hpairwise⟩⟩
    exact hleast b (List.mem_of_mem_erase (hperm.subset hb))

/-- Where nothing comes before itself, by whatever way, the members can be put in an order. -/
theorem exists_order_of_acyclic [DecidableEq α] (hacyclic : ∀ a, ¬TransGen before a a) (l : List α) :
    ∃ order : List α, order.Perm l ∧ order.Pairwise fun a b => ¬before b a := by
  refine exists_order fun part _ hne => ?_
  let Member := {a // a ∈ part}
  have hfinite : Finite Member := (List.finite_toSet part).to_subtype
  let earlier : Member → Member → Prop := fun a b => TransGen before a.1 b.1
  have htrans : IsTrans Member earlier := ⟨fun _ _ _ hab hbc => hab.trans hbc⟩
  have hirrefl : Std.Irrefl earlier := ⟨fun a => hacyclic a.1⟩
  have hwf : WellFounded earlier := Finite.wellFounded_of_trans_of_irrefl earlier
  obtain ⟨c, hc⟩ := List.exists_mem_of_ne_nil part hne
  obtain ⟨a, -, hleast⟩ := hwf.has_min Set.univ ⟨⟨c, hc⟩, trivial⟩
  exact ⟨a.1, a.2, fun b hb hbefore => hleast ⟨b, hb⟩ trivial (TransGen.single hbefore)⟩

/-- What has to come before comes before in such an order. -/
theorem pair_of_before {order : List α} (hpairwise : order.Pairwise fun a b => ¬before b a)
    {a b : α} (ha : a ∈ order) (hb : b ∈ order) (hne : a ≠ b) (hbefore : before a b) :
    [a, b].Sublist order := by
  refine (pair_or_pair ha hb hne).resolve_right fun hba => ?_
  have hpair := hpairwise.sublist hba
  exact List.rel_of_pairwise_cons hpair List.mem_cons_self hbefore

/-- A part of the list goes in front of another. -/
theorem pairwise_swap {R : α → α → Prop} {front middle taken rest : List α}
    (hordered : (front ++ (middle ++ (taken ++ rest))).Pairwise R)
    (hswap : ∀ a ∈ taken, ∀ b ∈ middle, R a b) :
    (front ++ (taken ++ (middle ++ rest))).Pairwise R := by
  simp only [List.pairwise_append, List.mem_append] at hordered ⊢
  obtain ⟨hfront, ⟨hmiddle, ⟨htaken, hrest, htr⟩, hmtr⟩, hall⟩ := hordered
  refine ⟨hfront, ⟨htaken, ⟨hmiddle, hrest, fun a ha b hb => hmtr a ha b (.inr hb)⟩, ?_⟩, ?_⟩
  · rintro a ha b (hb | hb)
    · exact hswap a ha b hb
    · exact htr a ha b hb
  · rintro a ha b (hb | hb | hb)
    · exact hall a ha b (.inr (.inl hb))
    · exact hall a ha b (.inl hb)
    · exact hall a ha b (.inr (.inr hb))

end Orders

/-! ## Paths, and steps that change places -/

section Paths

variable {σ α : Type*}

def Path (step : σ → α → σ → Prop) : σ → List α → σ → Prop
  | s, [], s' => s = s'
  | s, a :: l, s' => ∃ s₁, step s a s₁ ∧ Path step s₁ l s'

variable {step : σ → α → σ → Prop}

theorem path_append {l l' : List α} {s s' : σ} :
    Path step s (l ++ l') s' ↔ ∃ s₁, Path step s l s₁ ∧ Path step s₁ l' s' := by
  induction l generalizing s with
  | nil => exact ⟨fun hpath => ⟨s, rfl, hpath⟩, fun ⟨_, heq, hpath⟩ => heq ▸ hpath⟩
  | cons a l ih =>
    simp only [List.cons_append, Path, ih]
    constructor
    · rintro ⟨s₁, hstep, s₂, hfirst, hlast⟩
      exact ⟨s₂, ⟨s₁, hstep, hfirst⟩, hlast⟩
    · rintro ⟨s₂, ⟨s₁, hstep, hfirst⟩, hlast⟩
      exact ⟨s₁, hstep, s₂, hfirst, hlast⟩

theorem path_concat {l : List α} {a : α} {s s' : σ} :
    Path step s (l ++ [a]) s' ↔ ∃ s₁, Path step s l s₁ ∧ step s₁ a s' := by
  rw [path_append]
  refine exists_congr fun s₁ => and_congr_right fun _ => ?_
  exact ⟨fun ⟨_, hstep, heq⟩ => heq ▸ hstep, fun hstep => ⟨s', hstep, rfl⟩⟩

theorem Path.map {β : Type*} {step' : σ → β → σ → Prop} {f : α → β} {l : List α}
    (hstep : ∀ a ∈ l, ∀ s s', step s a s' → step' s (f a) s') {s s' : σ}
    (hpath : Path step s l s') : Path step' s (l.map f) s' := by
  induction l generalizing s with
  | nil => exact hpath
  | cons a l ih =>
    rw [List.forall_mem_cons] at hstep
    obtain ⟨s₁, hfirst, hrest⟩ := hpath
    exact ⟨s₁, hstep.1 s s₁ hfirst, ih hstep.2 hrest⟩

/-- Steps that change nothing may be left out. -/
theorem Path.filter {p : α → Bool} {l : List α}
    (hidle : ∀ a ∈ l, p a = false → ∀ s s', step s a s' → s' = s)
    {s s' : σ} (hpath : Path step s l s') : Path step s (l.filter p) s' := by
  induction l generalizing s with
  | nil => exact hpath
  | cons a l ih =>
    rw [List.forall_mem_cons] at hidle
    obtain ⟨s₁, hstep, hrest⟩ := hpath
    cases hp : p a with
    | true =>
      rw [List.filter_cons_of_pos hp]
      exact ⟨s₁, hstep, ih hidle.2 hrest⟩
    | false =>
      rw [List.filter_cons_of_neg (by simp [hp])]
      obtain rfl := hidle.1 hp s s₁ hstep
      exact ih hidle.2 hrest

/-- A step may be taken first when it depends on none of those before it. -/
theorem Path.front {dep : α → α → Prop}
    (hcomm : ∀ a b s s₁ s₂, ¬dep a b → step s a s₁ → step s₁ b s₂ →
      ∃ s₁', step s b s₁' ∧ step s₁' a s₂)
    {l : List α} {b : α} (hfree : ∀ a ∈ l, ¬dep a b) {s s' : σ}
    (hpath : Path step s (l ++ [b]) s') : Path step s (b :: l) s' := by
  induction l generalizing s with
  | nil => exact hpath
  | cons a l ih =>
    obtain ⟨s₁, hfirst, hrest⟩ := hpath
    rw [List.forall_mem_cons] at hfree
    obtain ⟨s₂, hb, hlast⟩ := ih hfree.2 hrest
    obtain ⟨s₁', hb', ha⟩ := hcomm a b s s₁ s₂ hfree.1 hfirst hb
    exact ⟨s₁', hb', s₂, ha, hlast⟩

/-- Steps may be taken in another order that keeps every two of them in place of which the second
depends on the first. -/
theorem Path.reorder (dep : α → α → Prop)
    (hcomm : ∀ a b s s₁ s₂, ¬dep a b → step s a s₁ → step s₁ b s₂ →
      ∃ s₁', step s b s₁' ∧ step s₁' a s₂)
    {l l' : List α} (hperm : l.Perm l') (hnodup : l.Nodup)
    (hkept : ∀ a b, [a, b].Sublist l → dep a b → [a, b].Sublist l') {s s' : σ}
    (hpath : Path step s l s') : Path step s l' s' := by
  induction l' generalizing l s with
  | nil =>
    rw [List.perm_nil.mp hperm] at hpath
    exact hpath
  | cons b l' ih =>
    obtain ⟨front, back, rfl⟩ := List.append_of_mem (hperm.mem_iff.mpr List.mem_cons_self)
    have hnodup' : (b :: l').Nodup := hperm.nodup_iff.mp hnodup
    have hrest : (front ++ back).Perm l' :=
      (List.perm_cons b).mp (List.perm_middle.symm.trans hperm)
    have hfree : ∀ a ∈ front, ¬dep a b := by
      intro a ha hdep
      have hpair : [a, b].Sublist (front ++ b :: back) :=
        (List.singleton_sublist.mpr ha).append (List.singleton_sublist.mpr List.mem_cons_self)
      cases hkept a b hpair hdep with
      | cons _ hlater => exact (List.nodup_cons.mp hnodup').1 (hlater.subset (by simp))
      | cons_cons _ hlater =>
        exact (List.nodup_cons.mp hnodup').1 (List.singleton_sublist.mp hlater)
    have hsub : (front ++ back).Sublist (front ++ b :: back) :=
      (List.Sublist.refl front).append (List.sublist_cons_self b back)
    obtain ⟨s₁, hfirst, s₂, hb, hlast⟩ := path_append.mp hpath
    obtain ⟨s₁', hb', hfront⟩ := Path.front hcomm hfree (path_concat.mpr ⟨s₁, hfirst, hb⟩)
    refine ⟨s₁', hb', ih hrest (hnodup.sublist hsub) (fun a c hpair hdep => ?_)
      (path_append.mpr ⟨s₂, hfront, hlast⟩)⟩
    cases hkept a c (hpair.trans hsub) hdep with
    | cons _ hlater => exact hlater
    | cons_cons _ hlater =>
      -- the first of the pair is not the step that was moved
      have hb : b ∈ front ++ back := hpair.subset List.mem_cons_self
      exact absurd hb (List.nodup_cons.mp (List.perm_middle.nodup_iff.mp hnodup)).1

end Paths

/-! ## Calls that take time -/

section Intervals

variable {α κ T : Type*} [LinearOrder T] {start due : α → T} {key : α → κ}

/-- Between a call that is over first of all and the first call on its key, nothing comes before the
latter. -/
theorem exists_first_of_keys [DecidableEq α] {l part : List α} (hnodup : l.Nodup)
    (hspan : ∀ a ∈ l, start a ≤ due a)
    (hkeys : l.Pairwise fun a b => key a = key b → ¬due b < start a) (hpart : part.Sublist l)
    (hne : part ≠ []) :
    ∃ a ∈ part, ∀ b ∈ part,
      ¬(due b < start a ∨ key b = key a ∧ [b, a].Sublist l) := by
  classical
  -- the call that is over first, and the first call of the part on its key
  obtain ⟨z, hz, hleast⟩ := part.toFinset.exists_min_image due
    (List.toFinset_nonempty_iff part |>.mpr hne)
  rw [List.mem_toFinset] at hz
  have hfound : (part.find? fun a => decide (key a = key z)).isSome :=
    List.find?_isSome.mpr ⟨z, hz, decide_eq_true rfl⟩
  obtain ⟨a, hfind⟩ := Option.isSome_iff_exists.mp hfound
  obtain ⟨hkey, front, back, rfl, hfront⟩ := List.find?_eq_some_iff_append.mp hfind
  rw [decide_eq_true_iff] at hkey
  have ha : a ∈ front ++ a :: back := List.mem_append_right _ List.mem_cons_self
  have hfollows : ∀ b ∈ front ++ a :: back, key b = key z → b ≠ a → [a, b].Sublist l := by
    intro b hb hkeyb hne
    rcases List.mem_append.mp hb with hb | hb
    · exact absurd (hfront b hb) (by simp [hkeyb])
    · have hback := List.singleton_sublist.mpr (List.mem_of_ne_of_mem hne hb)
      exact ((hback.cons_cons a).trans (List.sublist_append_right front _)).trans hpart
  refine ⟨a, ha, fun b hb => ?_⟩
  rintro (htime | ⟨hsame, hpair⟩)
  · have hdue : due z < start a := lt_of_le_of_lt (hleast b (List.mem_toFinset.mpr hb)) htime
    by_cases heq : z = a
    · rw [heq] at hdue
      exact absurd (hspan a (hpart.subset ha)) (not_le_of_gt hdue)
    · have hpair := hkeys.sublist (hfollows z hz rfl heq)
      exact List.rel_of_pairwise_cons hpair List.mem_cons_self hkey hdue
  · have hne : b ≠ a := by
      rintro rfl
      exact not_pair_and_pair hnodup hpair hpair
    exact not_pair_and_pair hnodup hpair (hfollows b hb (hsame.trans hkey) hne)

/-- An order in which no two calls on one key go against time can be made one in which no two calls do,
and in which the calls on each key stay as they were. -/
theorem exists_order_of_keys [DecidableEq α] {l : List α} (hnodup : l.Nodup)
    (hspan : ∀ a ∈ l, start a ≤ due a)
    (hkeys : l.Pairwise fun a b => key a = key b → ¬due b < start a) :
    ∃ order : List α, order.Perm l ∧ (order.Pairwise fun a b => ¬due b < start a) ∧
      ∀ a b, [a, b].Sublist l → key a = key b → [a, b].Sublist order := by
  obtain ⟨order, hperm, hpairwise⟩ := exists_order
    fun part hpart hne => exists_first_of_keys hnodup hspan hkeys hpart hne
  refine ⟨order, hperm, hpairwise.imp fun hab htime => hab (.inl htime), fun a b hab hkey => ?_⟩
  have hne : a ≠ b := by
    rintro rfl
    exact not_pair_and_pair hnodup hab hab
  refine pair_of_before hpairwise (hperm.mem_iff.mpr (hab.subset (by simp)))
    (hperm.mem_iff.mpr (hab.subset (by simp))) hne (.inr ⟨hkey, hab⟩)

end Intervals

/-! ## Calls and what explains them -/

section Places

variable {α : Type*} {l : List α} {a b : α} {i j : Nat}

theorem getElem?_concat_cases (hget : (l ++ [a])[i]? = some b) :
    l[i]? = some b ∨ i = l.length ∧ b = a := by
  rw [List.getElem?_append] at hget
  split at hget
  · exact .inl hget
  · rw [List.getElem?_singleton] at hget
    split at hget
    · exact .inr ⟨by omega, (Option.some.inj hget).symm⟩
    · exact absurd hget (by simp)

theorem pair_concat {c : α} (hpair : [a, b].Sublist (l ++ [c])) :
    [a, b].Sublist l ∨ a ∈ l ∧ b = c := by
  rw [← List.reverse_sublist, List.reverse_append] at hpair
  cases hpair with
  | cons _ hpair => exact .inl (List.reverse_sublist.mp hpair)
  | cons_cons _ hfirst =>
    exact .inr ⟨List.mem_reverse.mp (List.singleton_sublist.mp hfirst), rfl⟩

theorem getElem?_set_cases (hget : (l.set i a)[j]? = some b) :
    j = i ∧ b = a ∨ j ≠ i ∧ l[j]? = some b := by
  by_cases hj : j = i
  · subst hj
    rw [List.getElem?_set_self'] at hget
    obtain ⟨old, -, hnew⟩ := Option.map_eq_some_iff.mp hget
    exact .inl ⟨rfl, hnew.symm⟩
  · rw [List.getElem?_set_ne (Ne.symm hj)] at hget
    exact .inr ⟨hj, hget⟩

end Places

structure Call (Op R : Type) where
  op : Op
  invoked : Nat
  outcome : Option (R × Nat)

section Calls

variable {Op R σ : Type}

namespace Call

/-- The one is over when the other is invoked. -/
def Precedes (a b : Call Op R) : Prop := ∃ outcome ∈ a.outcome, outcome.2 < b.invoked

def due (a : Call Op R) : WithTop Nat := a.outcome.elim ⊤ fun outcome => outcome.2

theorem due_lt_iff {a b : Call Op R} : a.due < (b.invoked : WithTop Nat) ↔ a.Precedes b := by
  rw [due, Precedes]
  cases a.outcome with
  | none => simp
  | some outcome =>
    constructor
    · intro hlt
      exact ⟨outcome, rfl, WithTop.coe_lt_coe.mp hlt⟩
    · rintro ⟨outcome', hmem, hlt⟩
      rw [← Option.some.inj hmem] at hlt
      exact WithTop.coe_lt_coe.mpr hlt

end Call

/-- Calls known by their place in a list. -/
def Precedes (calls : List (Call Op R)) (i j : Nat) : Prop :=
  ∃ a b, calls[i]? = some a ∧ calls[j]? = some b ∧ a.Precedes b

/-- What calls did in an order that keeps to real time on each key, such as the order in which it took
effect there, has an order that keeps to real time altogether. -/
theorem exists_order_of_calls {α κ : Type*} [DecidableEq α] {call : α → Nat} {key : α → κ}
    {calls : List (Call Op R)}
    (hspan : ∀ c ∈ calls, ∀ outcome ∈ c.outcome, c.invoked ≤ outcome.2) {l : List α}
    (hnodup : l.Nodup)
    (hkeys : l.Pairwise fun a b => key a = key b → ¬Precedes calls (call b) (call a)) :
    ∃ order : List α, order.Perm l ∧
      (order.Pairwise fun a b => ¬Precedes calls (call b) (call a)) ∧
      ∀ a b, [a, b].Sublist l → key a = key b → [a, b].Sublist order := by
  let start (i : Nat) : WithTop Nat := ((calls[i]?).elim 0 Call.invoked : Nat)
  let due (i : Nat) : WithTop Nat := (calls[i]?).elim ⊤ Call.due
  have hprecedes : ∀ i j, Precedes calls i j ↔ due i < start j := by
    intro i j
    simp only [Precedes, start, due]
    cases calls[i]? with
    | none => simp
    | some a =>
      cases calls[j]? with
      | none =>
        refine iff_of_false (by simp) (not_lt_of_ge ?_)
        exact bot_le (a := a.due)
      | some b => simp [Call.due_lt_iff]
  simp only [hprecedes] at hkeys ⊢
  refine exists_order_of_keys hnodup (fun a _ => ?_) hkeys
  simp only [start, due]
  cases hcall : calls[call a]? with
  | none => exact le_top
  | some c =>
    cases houtcome : c.outcome with
    | none => simp [Call.due, houtcome]
    | some outcome =>
      have hle := hspan c (List.mem_of_getElem? hcall) outcome houtcome
      show (c.invoked : WithTop Nat) ≤ c.due
      rw [Call.due, houtcome]
      exact WithTop.coe_le_coe.mpr hle

def Serves (serve : σ → Op → R × σ) (calls : List (Call Op R)) (s : σ) (i : Nat) (s' : σ) : Prop :=
  ∃ call, calls[i]? = some call ∧ (∀ outcome ∈ call.outcome, outcome.1 = (serve s call.op).1) ∧
    s' = (serve s call.op).2

/-- The order has every call that returned and maybe others under way, each once, keeps to real time,
and leads from the one state to the other with every call returning what it would alone. -/
structure Explains (serve : σ → Op → R × σ) (calls : List (Call Op R)) (initial : σ)
    (order : List Nat) (final : σ) : Prop where
  nodup : order.Nodup
  returned : ∀ i call, calls[i]? = some call → call.outcome.isSome → i ∈ order
  realTime : order.Pairwise fun i j => ¬Precedes calls j i
  serves : Path (Serves serve calls) initial order final

end Calls

end Linear
end RTDB
