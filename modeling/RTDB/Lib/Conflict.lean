import Mathlib.Logic.Function.Basic
import RTDB.Lib.Linear
import RTDB.Lib.Runs

/-!
# Programs on a shared store

Programs read and write the keys of a store that others use in between.  Two accesses clash
when they are to one key and one of them writes; of two programs with accesses that clash the
one comes before the other.  As long as no program comes before itself, what the programs
returned and left in the store is what they do one after the other.
-/

namespace RTDB
namespace Conflict

open Linear (Path Call getElem?_concat_cases getElem?_set_cases pair_concat)
open Relation

variable {Op K V R : Type}

inductive Program (K V R : Type) where
  | done (result : R)
  | get (key : K) (next : Option V → Program K V R)
  | put (key : K) (value : V) (next : Program K V R)

namespace Program

def bind {S : Type} : Program K V R → (R → Program K V S) → Program K V S
  | .done result, f => f result
  | .get key next, f => .get key fun value => (next value).bind f
  | .put key value next, f => .put key value (next.bind f)

instance : Monad (Program K V) where
  pure := .done
  bind := bind

end Program

namespace Program

def read (key : K) : Program K V (Option V) := .get key .done

def write (key : K) (value : V) : Program K V Unit := .put key value (.done ())

end Program

/-- What an access does: a read finds a value, if there is one. -/
inductive Action (V : Type) where
  | got (value : Option V)
  | put (value : V)
  deriving DecidableEq, Repr

def Action.writes : Action V → Bool
  | .got _ => false
  | .put _ => true

def Action.effect [DecidableEq K] (key : K) (contents : K → Option V) :
    Action V → K → Option V
  | .got _ => contents
  | .put value => Function.update contents key (some value)

section Effects

variable [DecidableEq K] {key other : K} {contents : K → Option V} {action : Action V}

theorem effect_of_not_writes (hread : action.writes = false) :
    action.effect key contents = contents := by
  cases action with
  | got value => rfl
  | put value => exact absurd hread (by simp [Action.writes])

theorem effect_of_ne (hne : other ≠ key) : action.effect key contents other = contents other := by
  cases action with
  | got value => rfl
  | put value => exact Function.update_of_ne hne _ _

theorem effect_comm (hne : key ≠ other) (action' : Action V) :
    action.effect key (action'.effect other contents) =
      action'.effect other (action.effect key contents) := by
  cases action with
  | got value => rfl
  | put value =>
    cases action' with
    | got value' => rfl
    | put value' => exact Function.update_comm hne.symm _ _ _

end Effects

structure Access (K V : Type) where
  time : Nat
  call : Nat
  key : K
  action : Action V
  deriving DecidableEq, Repr

namespace Access

def Clashes (a b : Access K V) : Prop :=
  a.key = b.key ∧ (a.action.writes = true ∨ b.action.writes = true)

variable [DecidableEq K]

instance (a b : Access K V) : Decidable (a.Clashes b) :=
  inferInstanceAs (Decidable (a.key = b.key ∧ (a.action.writes = true ∨ b.action.writes = true)))

/-- From these contents the access finds what it found. -/
def Takes (contents : K → Option V) (a : Access K V) (contents' : K → Option V) : Prop :=
  (∀ value, a.action = .got value → contents a.key = value) ∧
    contents' = a.action.effect a.key contents

theorem takes_comm {a b : Access K V} {s s₁ s₂ : K → Option V} (hfree : ¬a.Clashes b)
    (ha : a.Takes s s₁) (hb : b.Takes s₁ s₂) : ∃ s₁', b.Takes s s₁' ∧ a.Takes s₁' s₂ := by
  obtain ⟨hgota, rfl⟩ := ha
  obtain ⟨hgotb, rfl⟩ := hb
  by_cases hkey : a.key = b.key
  · -- both are reads
    have hreads : ¬(a.action.writes = true ∨ b.action.writes = true) :=
      fun hwrites => hfree ⟨hkey, hwrites⟩
    rw [not_or, Bool.not_eq_true, Bool.not_eq_true] at hreads
    rw [effect_of_not_writes hreads.1] at hgotb
    refine ⟨s, ⟨hgotb, (effect_of_not_writes hreads.2).symm⟩, hgota, ?_⟩
    rw [effect_of_not_writes hreads.1, effect_of_not_writes hreads.2]
  · refine ⟨b.action.effect b.key s, ⟨fun value hgot => ?_, rfl⟩, fun value hgot => ?_, ?_⟩
    · exact (effect_of_ne (Ne.symm hkey)).symm.trans (hgotb value hgot)
    · exact (effect_of_ne hkey).trans (hgota value hgot)
    · exact (effect_comm hkey _).symm

theorem Takes.of_not_writes {a : Access K V} {s s' : K → Option V} (ha : a.Takes s s')
    (hread : a.action.writes = false) : s' = s :=
  ha.2.trans (effect_of_not_writes hread)

end Access

/-! ## Programs and their accesses -/

namespace Program

def result? : Program K V R → Option R
  | .done result => some result
  | _ => none

theorem result?_eq_some_iff {program : Program K V R} {result : R} :
    program.result? = some result ↔ program = .done result := by
  cases program <;> simp [result?]

/-- The next access of a program, and what is left of it. -/
def next (contents : K → Option V) : Program K V R → Option (K × Action V × Program K V R)
  | .done _ => none
  | .get key rest => some (key, .got (contents key), rest (contents key))
  | .put key value rest => some (key, .put value, rest)

theorem next_got {program rest : Program K V R} {contents : K → Option V} {key : K}
    {value : Option V} (hnext : program.next contents = some (key, .got value, rest)) :
    contents key = value := by
  cases program with
  | done result => exact absurd hnext (by simp [next])
  | get key' rest' =>
    obtain ⟨rfl, hvalue, -⟩ : key' = key ∧ contents key' = value ∧ rest' (contents key') = rest := by
      simpa [next] using hnext
    exact hvalue
  | put key' value' rest' => exact absurd hnext (by simp [next])

/-- The accesses of the program, in some contents each, and what is left of it behind them. -/
def Leads : Program K V R → List (Access K V) → Program K V R → Prop
  | program, [], rest => program = rest
  | program, a :: l, rest =>
    ∃ contents left, program.next contents = some (a.key, a.action, left) ∧ left.Leads l rest

theorem leads_concat {program rest left : Program K V R} {l : List (Access K V)}
    {a : Access K V} {contents : K → Option V} (hleads : program.Leads l rest)
    (hnext : rest.next contents = some (a.key, a.action, left)) :
    program.Leads (l ++ [a]) left := by
  induction l generalizing program with
  | nil =>
    obtain rfl : program = rest := hleads
    exact ⟨contents, left, hnext, rfl⟩
  | cons b l ih =>
    obtain ⟨contents', left', hfirst, hrest⟩ := hleads
    exact ⟨contents', left', hfirst, ih hrest⟩

variable [DecidableEq K]

def run : Program K V R → (K → Option V) → R × (K → Option V)
  | .done result, contents => (result, contents)
  | .get key rest, contents => (rest (contents key)).run contents
  | .put key value rest, contents => rest.run (Function.update contents key (some value))

theorem run_of_next {program left : Program K V R} {a : Access K V}
    {contents s s' : K → Option V} (hnext : program.next contents = some (a.key, a.action, left))
    (htakes : a.Takes s s') : program.run s = left.run s' := by
  obtain ⟨hgot, rfl⟩ := htakes
  cases program with
  | done result => exact absurd hnext (by simp [next])
  | get key rest =>
    obtain ⟨hkey, haction, rfl⟩ : key = a.key ∧ Action.got (contents key) = a.action ∧
        rest (contents key) = left := by simpa [next] using hnext
    rw [← haction, run, hkey, hgot _ haction.symm, hkey]
    rfl
  | put key value rest =>
    obtain ⟨hkey, haction, rfl⟩ : key = a.key ∧ Action.put value = a.action ∧ rest = left := by
      simpa [next] using hnext
    rw [← haction, run, hkey]
    rfl

/-- Accesses that are taken one right after the other are a run of the program. -/
theorem run_of_leads {program : Program K V R} {result : R} {l : List (Access K V)}
    (hleads : program.Leads l (.done result)) {s s' : K → Option V}
    (hpath : Path Access.Takes s l s') : program.run s = (result, s') := by
  induction l generalizing program s with
  | nil =>
    obtain rfl : program = .done result := hleads
    obtain rfl : s = s' := hpath
    rfl
  | cons a l ih =>
    obtain ⟨contents, left, hnext, hrest⟩ := hleads
    obtain ⟨s₁, htakes, hlast⟩ := hpath
    rw [run_of_next hnext htakes]
    exact ih hrest hlast

end Program

def alone [DecidableEq K] (execute : Op → Program K V R) (contents : K → Option V) (op : Op) :
    R × (K → Option V) :=
  (execute op).run contents

/-! ## Calls on a store -/

/-- A call and what is left of its program. -/
structure Running (Op K V R : Type) where
  call : Call Op R
  rest : Program K V R

def Running.begin (op : Op) (program : Program K V R) (time : Nat) : Running Op K V R :=
  { call := { op, invoked := time, outcome := none }, rest := program }

def Running.giving (r : Running Op K V R) (result : R) (time : Nat) : Running Op K V R :=
  { r with call := { r.call with outcome := some (result, time) } }

structure State (Op K V R : Type) where
  contents : K → Option V
  running : List (Running Op K V R)
  clock : Nat
  trace : List (Access K V)

inductive Step (Op : Type) where
  | invoke (op : Op)
  | access (i : Nat)
  | finish (i : Nat)
  deriving DecidableEq, Repr

namespace State

def start (initial : K → Option V) : State Op K V R :=
  { contents := initial, running := [], clock := 0, trace := [] }

def calls (s : State Op K V R) : List (Call Op R) := s.running.map Running.call

section Steps

variable [DecidableEq K] (execute : Op → Program K V R)

def take (s : State Op K V R) (i : Nat) (r : Running Op K V R) : Option (State Op K V R) :=
  (r.rest.next s.contents).map fun (key, action, rest) =>
    { contents := action.effect key s.contents
      running := s.running.set i { r with rest }
      clock := s.clock + 1
      trace := s.trace ++ [{ time := s.clock, call := i, key, action }] }

def give (s : State Op K V R) (i : Nat) (r : Running Op K V R) : Option (State Op K V R) :=
  match r.rest, r.call.outcome with
  | .done result, none =>
    some { s with
      running := s.running.set i (r.giving result s.clock)
      clock := s.clock + 1 }
  | _, _ => none

/-- Calls are made at any time, and each of those under way takes its next step at any time. -/
def perform (s : State Op K V R) : Step Op → Option (State Op K V R)
  | .invoke op =>
    some { s with
      running := s.running ++ [.begin op (execute op) s.clock]
      clock := s.clock + 1 }
  | .access i => (s.running[i]?).bind fun r => s.take i r
  | .finish i => (s.running[i]?).bind fun r => s.give i r

end Steps

/-- The one call returned before the other was made, or had an access before one of the other that
clashes with it. -/
def Before (s : State Op K V R) (i j : Nat) : Prop :=
  Linear.Precedes s.calls i j ∨
    i ≠ j ∧ ∃ a b, [a, b].Sublist s.trace ∧ a.call = i ∧ b.call = j ∧ a.Clashes b

/-- The call does not come, by whatever way, before one that its next access clashes with. -/
def KeepsOrder (s : State Op K V R) : Step Op → Prop
  | .access i => ∀ r, s.running[i]? = some r → ∀ key action rest,
      r.rest.next s.contents = some (key, action, rest) →
        ∀ a ∈ s.trace, a.call ≠ i → a.Clashes { time := s.clock, call := i, key, action } →
          ¬TransGen s.Before i a.call
  | _ => True

/-- The next access keeps the order when those the call has made clash with none of the others. -/
theorem keepsOrder_of_quiet {s : State Op K V R} {i : Nat}
    (hquiet : ∀ a ∈ s.trace, a.call = i → ∀ b ∈ s.trace, b.call ≠ i → ¬a.Clashes b)
    (hrunning : ∀ call ∈ s.calls[i]?, call.outcome = none) : s.KeepsOrder (.access i) := by
  intro r hr key action rest hnext a ha hne hclash hreach
  obtain ⟨j, hbefore, -⟩ := TransGen.head'_iff.mp hreach
  rcases hbefore with ⟨call, other, hcall, -, outcome, houtcome, -⟩ |
    ⟨hother, b, c, hpair, rfl, rfl, hclashes⟩
  · rw [hrunning call hcall] at houtcome
    exact absurd houtcome (by simp)
  · exact hquiet b (hpair.subset (by simp)) rfl c (hpair.subset (by simp)) (Ne.symm hother) hclashes

def ended (s : State Op K V R) : List Nat :=
  (List.range s.running.length).filter fun i =>
    (s.running[i]?).any fun r => r.rest.result?.isSome

/-- No call that is under way has written. -/
def Settled (s : State Op K V R) : Prop :=
  ∀ a ∈ s.trace, a.action.writes = true → a.call ∈ s.ended

instance (s : State Op K V R) : Decidable s.Settled :=
  inferInstanceAs (Decidable (∀ a ∈ s.trace, a.action.writes = true → a.call ∈ s.ended))

/-! ### What every run keeps -/

/-- The trace leads to the contents and each program to where it is. -/
structure Sound [DecidableEq K] (execute : Op → Program K V R) (initial : K → Option V)
    (s : State Op K V R) : Prop where
  path : Path Access.Takes initial s.trace s.contents
  leads : ∀ (i : Nat) (r : Running Op K V R), s.running[i]? = some r →
    (execute r.call.op).Leads (s.trace.filter fun a => a.call = i) r.rest
  times : s.trace.Pairwise fun a b => a.time < b.time
  past : ∀ a ∈ s.trace, a.time < s.clock ∧ a.call < s.running.length
  invoked : ∀ (i : Nat) (r : Running Op K V R), s.running[i]? = some r → r.call.invoked < s.clock
  returned : ∀ (i : Nat) (r : Running Op K V R), s.running[i]? = some r →
    ∀ outcome ∈ r.call.outcome, r.rest = .done outcome.1

/-- No call comes before itself. -/
def Acyclic (s : State Op K V R) : Prop := ∀ i, ¬TransGen s.Before i i

theorem getElem?_calls {s : State Op K V R} {i : Nat} {call : Call Op R} :
    s.calls[i]? = some call ↔ ∃ r, s.running[i]? = some r ∧ r.call = call := by
  rw [calls, List.getElem?_map, Option.map_eq_some_iff]

theorem acyclic_start (initial : K → Option V) : Acyclic (start initial : State Op K V R) := by
  intro i hcycle
  obtain ⟨j, hbefore, -⟩ := TransGen.head'_iff.mp hcycle
  rcases hbefore with ⟨a, b, ha, -⟩ | ⟨-, a, b, hpair, -⟩
  · exact absurd ha (by simp [calls, start])
  · exact absurd hpair (by simp [start])

theorem mem_ended {s : State Op K V R} {i : Nat} : i ∈ s.ended ↔
    ∃ (r : Running Op K V R) (result : R), s.running[i]? = some r ∧ r.rest = .done result := by
  rw [ended, List.mem_filter, List.mem_range]
  constructor
  · rintro ⟨-, hdone⟩
    obtain ⟨r, hr, hresult⟩ := Option.any_eq_true _ _ |>.mp hdone
    obtain ⟨result, hresult⟩ := Option.isSome_iff_exists.mp hresult
    exact ⟨r, result, hr, Program.result?_eq_some_iff.mp hresult⟩
  · rintro ⟨r, result, hr, hrest⟩
    refine ⟨(List.getElem?_eq_some_iff.mp hr).1, Option.any_eq_true _ _ |>.mpr ⟨r, hr, ?_⟩⟩
    rw [hrest]
    rfl

theorem nodup_ended (s : State Op K V R) : s.ended.Nodup := List.nodup_range.filter _

section Runs

variable {execute : Op → Program K V R} {initial : K → Option V} [DecidableEq K]
  {s s' : State Op K V R} {i : Nat} {r : Running Op K V R}

theorem sound_start : Sound execute initial (start initial : State Op K V R) :=
  { path := rfl
    leads := fun i r hr => absurd hr (by simp [start])
    times := List.Pairwise.nil
    past := fun a ha => absurd ha List.not_mem_nil
    invoked := fun i r hr => absurd hr (by simp [start])
    returned := fun i r hr => absurd hr (by simp [start]) }

/-- What a step does, in each of its cases. -/
theorem perform_cases {step : Step Op} (hstep : s.perform execute step = some s') :
    (∃ op, step = .invoke op ∧ s' = { s with
      running := s.running ++ [.begin op (execute op) s.clock]
      clock := s.clock + 1 }) ∨
    (∃ i r key action rest, step = .access i ∧ s.running[i]? = some r ∧
      r.rest.next s.contents = some (key, action, rest) ∧ s' =
        { contents := action.effect key s.contents
          running := s.running.set i { r with rest }
          clock := s.clock + 1
          trace := s.trace ++ [{ time := s.clock, call := i, key, action }] }) ∨
    ∃ i r result, step = .finish i ∧ s.running[i]? = some r ∧ r.rest = .done result ∧
      r.call.outcome = none ∧ s' = { s with
        running := s.running.set i (r.giving result s.clock)
        clock := s.clock + 1 } := by
  cases step with
  | invoke op => exact .inl ⟨op, rfl, (Option.some.inj hstep).symm⟩
  | access i =>
    obtain ⟨r, hr, htake⟩ := Option.bind_eq_some_iff.mp hstep
    obtain ⟨⟨key, action, rest⟩, hnext, heq⟩ := Option.map_eq_some_iff.mp htake
    exact .inr (.inl ⟨i, r, key, action, rest, rfl, hr, hnext, heq.symm⟩)
  | finish i =>
    obtain ⟨r, hr, hgive⟩ := Option.bind_eq_some_iff.mp hstep
    refine .inr (.inr ⟨i, r, ?_⟩)
    unfold give at hgive
    split at hgive
    · rename_i result hrest houtcome
      exact ⟨result, rfl, hr, hrest, houtcome, (Option.some.inj hgive).symm⟩
    · exact absurd hgive (by simp)

theorem Sound.invoke (hs : Sound execute initial s) (op : Op) :
    Sound execute initial { s with
      running := s.running ++ [.begin op (execute op) s.clock]
      clock := s.clock + 1 } := by
  refine { path := hs.path, leads := fun j found hfound => ?_, times := hs.times
           past := fun a ha => ?_, invoked := fun j found hfound => ?_
           returned := fun j found hfound => ?_ }
  · rcases getElem?_concat_cases hfound with hold | ⟨rfl, rfl⟩
    · exact hs.leads j found hold
    · -- nothing has been done for the new call
      have hnone : s.trace.filter (fun a => a.call = s.running.length) = [] := by
        rw [List.filter_eq_nil_iff]
        intro a ha
        rw [decide_eq_true_iff]
        exact Nat.ne_of_lt (hs.past a ha).2
      rw [hnone]
      rfl
  · obtain ⟨htime, hcall⟩ := hs.past a ha
    rw [List.length_append, List.length_singleton]
    exact ⟨Nat.lt_succ_of_lt htime, Nat.lt_succ_of_lt hcall⟩
  · rcases getElem?_concat_cases hfound with hold | ⟨rfl, rfl⟩
    · exact Nat.lt_succ_of_lt (hs.invoked j found hold)
    · exact Nat.lt_succ_self s.clock
  · rcases getElem?_concat_cases hfound with hold | ⟨rfl, rfl⟩
    · exact hs.returned j found hold
    · intro outcome houtcome
      exact absurd houtcome (by simp [Running.begin])

theorem Sound.access (hs : Sound execute initial s) {key : K} {action : Action V}
    {rest : Program K V R} (hr : s.running[i]? = some r)
    (hnext : r.rest.next s.contents = some (key, action, rest)) :
    Sound execute initial
      { contents := action.effect key s.contents
        running := s.running.set i { r with rest }
        clock := s.clock + 1
        trace := s.trace ++ [{ time := s.clock, call := i, key, action }] } := by
  have hi : i < s.running.length := (List.getElem?_eq_some_iff.mp hr).1
  refine { path := ?_, leads := fun j found hfound => ?_, times := ?_
           past := fun a ha => ?_, invoked := fun j found hfound => ?_
           returned := fun j found hfound => ?_ }
  · refine Linear.path_concat.mpr ⟨s.contents, hs.path, fun value hgot => ?_, rfl⟩
    obtain rfl : action = .got value := hgot
    exact Program.next_got hnext
  · rcases getElem?_set_cases hfound with ⟨rfl, rfl⟩ | ⟨hj, hold⟩
    · rw [List.filter_append, List.filter_cons_of_pos (by simp), List.filter_nil]
      exact Program.leads_concat (hs.leads j r hr) hnext
    · rw [List.filter_append, List.filter_cons_of_neg (by simp [Ne.symm hj]), List.filter_nil,
        List.append_nil]
      exact hs.leads j found hold
  · rw [List.pairwise_append]
    refine ⟨hs.times, List.pairwise_singleton _ _, fun a ha b hb => ?_⟩
    rw [List.mem_singleton.mp hb]
    exact (hs.past a ha).1
  · rw [List.length_set]
    rcases List.mem_append.mp ha with hold | hnew
    · exact ⟨Nat.lt_succ_of_lt (hs.past a hold).1, (hs.past a hold).2⟩
    · rw [List.mem_singleton.mp hnew]
      exact ⟨Nat.lt_succ_self s.clock, hi⟩
  · rcases getElem?_set_cases hfound with ⟨rfl, rfl⟩ | ⟨-, hold⟩
    · exact Nat.lt_succ_of_lt (hs.invoked j r hr)
    · exact Nat.lt_succ_of_lt (hs.invoked j found hold)
  · rcases getElem?_set_cases hfound with ⟨rfl, rfl⟩ | ⟨-, hold⟩
    · intro outcome houtcome
      rw [hs.returned j r hr outcome houtcome] at hnext
      exact absurd hnext (by simp [Program.next])
    · exact hs.returned j found hold

theorem Sound.finish (hs : Sound execute initial s) {result : R} (hr : s.running[i]? = some r)
    (hrest : r.rest = .done result) :
    Sound execute initial { s with
      running := s.running.set i (r.giving result s.clock)
      clock := s.clock + 1 } := by
  refine { path := hs.path, leads := fun j found hfound => ?_, times := hs.times
           past := fun a ha => ?_, invoked := fun j found hfound => ?_
           returned := fun j found hfound => ?_ }
  · rcases getElem?_set_cases hfound with ⟨rfl, rfl⟩ | ⟨-, hold⟩
    · exact hs.leads j r hr
    · exact hs.leads j found hold
  · rw [List.length_set]
    exact ⟨Nat.lt_succ_of_lt (hs.past a ha).1, (hs.past a ha).2⟩
  · rcases getElem?_set_cases hfound with ⟨rfl, rfl⟩ | ⟨-, hold⟩
    · exact Nat.lt_succ_of_lt (hs.invoked j r hr)
    · exact Nat.lt_succ_of_lt (hs.invoked j found hold)
  · rcases getElem?_set_cases hfound with ⟨rfl, rfl⟩ | ⟨-, hold⟩
    · intro outcome houtcome
      rw [← Option.some.inj houtcome]
      exact hrest
    · exact hs.returned j found hold

theorem Sound.perform (hs : Sound execute initial s) {step : Step Op}
    (hstep : s.perform execute step = some s') : Sound execute initial s' := by
  obtain ⟨op, -, rfl⟩ | ⟨i, r, key, action, rest, -, hr, hnext, rfl⟩ |
    ⟨i, r, result, -, hr, hrest, -, rfl⟩ := perform_cases hstep
  · exact hs.invoke op
  · exact hs.access hr hnext
  · exact hs.finish hr hrest

/-! ### The order of the calls -/

section Cycles

variable {α : Type*} {old new : α → α → Prop} {P : α → Prop} {i : α}

theorem reflTransGen_of_new (hnew : ∀ a b, new a b → old a b ∨ P a ∧ b = i) {a b : α}
    (hreach : ReflTransGen new a b) : ReflTransGen old a b ∨ ReflTransGen old i b := by
  induction hreach with
  | refl => exact .inl .refl
  | tail _ hlast ih =>
    rcases hnew _ _ hlast with hold | ⟨-, rfl⟩
    · exact ih.imp (·.tail hold) (·.tail hold)
    · exact .inr .refl

theorem transGen_of_new (hnew : ∀ a b, new a b → old a b ∨ P a ∧ b = i) {a b : α}
    (hreach : TransGen new a b) :
    TransGen old a b ∨ ∃ x, P x ∧ ReflTransGen new a x ∧ ReflTransGen old i b := by
  induction hreach with
  | single hfirst =>
    rcases hnew _ _ hfirst with hold | ⟨hx, rfl⟩
    · exact .inl (.single hold)
    · exact .inr ⟨_, hx, .refl, .refl⟩
  | tail hbefore hlast ih =>
    rcases hnew _ _ hlast with hold | ⟨hx, rfl⟩
    · rcases ih with hpath | ⟨x, hx, hreach, hback⟩
      · exact .inl (hpath.tail hold)
      · exact .inr ⟨x, hx, hreach, hback.tail hold⟩
    · exact .inr ⟨_, hx, hbefore.to_reflTransGen, .refl⟩

/-- New ways that lead to one member only close no cycle when it does not lead to where they start. -/
theorem acyclic_of_new (hold : ∀ a, ¬TransGen old a a)
    (hnew : ∀ a b, new a b → old a b ∨ P a ∧ b = i)
    (hfree : ∀ x, P x → x ≠ i ∧ ¬TransGen old i x) (a : α) : ¬TransGen new a a := by
  intro hcycle
  rcases transGen_of_new hnew hcycle with hcycle | ⟨x, hx, hreach, hback⟩
  · exact hold a hcycle
  · have hfrom : ReflTransGen old i x := (reflTransGen_of_new hnew hreach).elim hback.trans id
    obtain ⟨hne, hnot⟩ := hfree x hx
    rcases reflTransGen_iff_eq_or_transGen.mp hfrom with heq | hpath
    · exact hne heq
    · exact hnot hpath

end Cycles

theorem Sound.not_before (hs : Sound execute initial s) {j : Nat} (hi : s.running.length ≤ i) :
    ¬s.Before i j := by
  rintro (⟨a, b, ha, -⟩ | ⟨-, a, b, hpair, rfl, -⟩)
  · obtain ⟨r, hr, -⟩ := getElem?_calls.mp ha
    exact absurd (List.getElem?_eq_some_iff.mp hr).1 (Nat.not_lt.mpr hi)
  · exact absurd (hs.past a (hpair.subset List.mem_cons_self)).2 (Nat.not_lt.mpr hi)

theorem Acyclic.invoke (hs : Sound execute initial s) (hacyclic : s.Acyclic) (op : Op) :
    Acyclic { s with
      running := s.running ++ [.begin op (execute op) s.clock]
      clock := s.clock + 1 } := by
  refine acyclic_of_new (P := fun j => j ≠ s.running.length) (i := s.running.length) hacyclic ?_ ?_
  · rintro a b (⟨first, second, hfirst, hsecond, hprecedes⟩ | hclash)
    · obtain ⟨r, hr, rfl⟩ := getElem?_calls.mp hfirst
      obtain ⟨r', hr', rfl⟩ := getElem?_calls.mp hsecond
      rcases getElem?_concat_cases hr with hold | ⟨-, rfl⟩
      · rcases getElem?_concat_cases hr' with hold' | ⟨hb, -⟩
        · exact .inl (.inl ⟨r.call, r'.call, getElem?_calls.mpr ⟨r, hold, rfl⟩,
            getElem?_calls.mpr ⟨r', hold', rfl⟩, hprecedes⟩)
        · exact .inr ⟨Nat.ne_of_lt (List.getElem?_eq_some_iff.mp hold).1, hb⟩
      · obtain ⟨outcome, houtcome, -⟩ := hprecedes
        exact absurd houtcome (by simp [Running.begin])
    · exact .inl (.inr hclash)
  · intro j hj
    refine ⟨hj, fun hreach => ?_⟩
    obtain ⟨next, hfirst, -⟩ := TransGen.head'_iff.mp hreach
    exact hs.not_before (Nat.le_refl _) hfirst

/-- The new access comes behind those that it clashes with. -/
theorem Acyclic.access (hacyclic : s.Acyclic) {key : K} {action : Action V}
    {rest : Program K V R} (hr : s.running[i]? = some r)
    (hkeeps : ∀ a ∈ s.trace, a.call ≠ i →
      a.Clashes { time := s.clock, call := i, key, action } → ¬TransGen s.Before i a.call) :
    Acyclic
      { contents := action.effect key s.contents
        running := s.running.set i { r with rest }
        clock := s.clock + 1
        trace := s.trace ++ [{ time := s.clock, call := i, key, action }] } := by
  have hcalls : (s.running.set i { r with rest }).map Running.call = s.calls := by
    obtain ⟨hi, hcall⟩ := List.getElem?_eq_some_iff.mp (getElem?_calls.mpr ⟨r, hr, rfl⟩)
    rw [List.map_set, ← calls]
    show s.calls.set i r.call = s.calls
    rw [← hcall, List.set_getElem_self]
  refine acyclic_of_new (P := fun j => j ≠ i ∧ ∃ a ∈ s.trace, a.call = j ∧
    a.Clashes { time := s.clock, call := i, key, action }) (i := i) hacyclic ?_ ?_
  · rintro j k (hprecedes | ⟨hne, a, b, hpair, rfl, rfl, hclash⟩)
    · rw [calls, hcalls] at hprecedes
      exact .inl (.inl hprecedes)
    · rcases pair_concat hpair with hold | ⟨ha, rfl⟩
      · exact .inl (.inr ⟨hne, a, b, hold, rfl, rfl, hclash⟩)
      · exact .inr ⟨⟨hne, a, ha, rfl, hclash⟩, rfl⟩
  · rintro _ ⟨hne, a, ha, rfl, hclash⟩
    exact ⟨hne, hkeeps a ha hne hclash⟩

theorem Acyclic.finish (hs : Sound execute initial s) (hacyclic : s.Acyclic) {result : R}
    (hr : s.running[i]? = some r) :
    Acyclic { s with
      running := s.running.set i (r.giving result s.clock)
      clock := s.clock + 1 } := by
  intro j hcycle
  refine hacyclic j (TransGen.mono (fun a b hbefore => ?_) j j hcycle)
  rcases hbefore with ⟨first, second, hfirst, hsecond, hprecedes⟩ | hclash
  · obtain ⟨r₁, hr₁, rfl⟩ := getElem?_calls.mp hfirst
    obtain ⟨r₂, hr₂, rfl⟩ := getElem?_calls.mp hsecond
    -- a call is made when it was made, whether it has returned or not
    obtain ⟨old, hold, hinvoked⟩ : ∃ old, s.running[b]? = some old ∧
        old.call.invoked = r₂.call.invoked := by
      rcases getElem?_set_cases hr₂ with ⟨rfl, rfl⟩ | ⟨-, hold⟩
      · exact ⟨r, hr, rfl⟩
      · exact ⟨r₂, hold, rfl⟩
    obtain ⟨outcome, houtcome, hlt⟩ := hprecedes
    rw [← hinvoked] at hlt
    rcases getElem?_set_cases hr₁ with ⟨rfl, rfl⟩ | ⟨-, hold₁⟩
    · obtain rfl := Option.some.inj houtcome
      exact absurd hlt (Nat.not_lt.mpr (Nat.le_of_lt (hs.invoked b old hold)))
    · exact .inl ⟨r₁.call, old.call, getElem?_calls.mpr ⟨r₁, hold₁, rfl⟩,
        getElem?_calls.mpr ⟨old, hold, rfl⟩, outcome, houtcome, hlt⟩
  · exact .inr hclash

theorem Acyclic.perform (hs : Sound execute initial s) (hacyclic : s.Acyclic) {step : Step Op}
    (hkeeps : s.KeepsOrder step) (hstep : s.perform execute step = some s') : s'.Acyclic := by
  obtain ⟨op, -, rfl⟩ | ⟨i, r, key, action, rest, rfl, hr, hnext, rfl⟩ |
    ⟨i, r, result, -, hr, -, -, rfl⟩ := perform_cases hstep
  · exact hacyclic.invoke hs op
  · exact hacyclic.access hr (hkeeps r hr key action rest hnext)
  · exact hacyclic.finish hs hr

/-! ### What explains a run -/

/-- The accesses of one call after the other. -/
def grouped (s : State Op K V R) (order : List Nat) : List (Access K V) :=
  order.flatMap fun i => s.trace.filter fun a => a.call = i

theorem Sound.nodup_trace (hs : Sound execute initial s) : s.trace.Nodup :=
  hs.times.imp fun hlt heq => absurd (heq ▸ hlt) (Nat.lt_irrefl _)

omit [DecidableEq K] in
/-- Accesses that have to stay in place do when they are grouped by calls in an order of these. -/
theorem pair_grouped {order : List Nat} (hpairwise : order.Pairwise fun i j => ¬s.Before j i)
    {a b : Access K V} (ha : a.call ∈ order) (hb : b.call ∈ order) (hpair : [a, b].Sublist s.trace)
    (hdep : a.call = b.call ∨ a.Clashes b) : [a, b].Sublist (s.grouped order) := by
  by_cases hsame : a.call = b.call
  · have hgroup : [a, b].Sublist (s.trace.filter fun c => c.call = a.call) := by
      have hfilter := hpair.filter fun c => decide (c.call = a.call)
      rwa [List.filter_cons_of_pos (by simp), List.filter_cons_of_pos (by simp [hsame]),
        List.filter_nil] at hfilter
    exact hgroup.trans (List.sublist_flatten_of_mem (List.mem_map_of_mem ha))
  · have hbefore : s.Before a.call b.call :=
      .inr ⟨hsame, a, b, hpair, rfl, rfl, hdep.resolve_left hsame⟩
    have hcalls := Linear.pair_of_before hpairwise ha hb hsame hbefore
    have hgroup : ∀ c ∈ [a, b], [c].Sublist (s.trace.filter fun d => d.call = c.call) := by
      intro c hc
      rw [List.singleton_sublist, List.mem_filter, decide_eq_true_iff]
      exact ⟨hpair.subset hc, rfl⟩
    have hgroups : [a, b].Sublist (s.grouped [a.call, b.call]) := by
      rw [grouped, List.flatMap_cons, List.flatMap_singleton]
      exact (hgroup a (by simp)).append (hgroup b (by simp))
    exact hgroups.trans (hcalls.flatMap _)

omit [DecidableEq K] in
theorem mem_grouped {order : List Nat} {a : Access K V} :
    a ∈ s.grouped order ↔ a ∈ s.trace ∧ a.call ∈ order := by
  rw [grouped, List.mem_flatMap]
  constructor
  · rintro ⟨i, hi, ha⟩
    rw [List.mem_filter, decide_eq_true_iff] at ha
    exact ⟨ha.1, ha.2 ▸ hi⟩
  · rintro ⟨ha, hcall⟩
    exact ⟨a.call, hcall, List.mem_filter.mpr ⟨ha, decide_eq_true rfl⟩⟩

theorem Sound.nodup_grouped (hs : Sound execute initial s) {order : List Nat}
    (hnodup : order.Nodup) : (s.grouped order).Nodup := by
  refine List.nodup_flatMap.mpr ⟨fun i _ => hs.nodup_trace.filter _, hnodup.imp fun hne => ?_⟩
  intro a ha hb
  rw [List.mem_filter, decide_eq_true_iff] at ha hb
  exact hne (ha.2.symm.trans hb.2)

theorem Sound.path_grouped (hs : Sound execute initial s) (hsettled : s.Settled)
    {order : List Nat} (hperm : order.Perm s.ended)
    (hpairwise : order.Pairwise fun i j => ¬s.Before j i) :
    Path Access.Takes initial (s.grouped order) s.contents := by
  -- what calls under way have read changed nothing
  have hpath : Path Access.Takes initial (s.trace.filter fun a => a.call ∈ order) s.contents := by
    refine Path.filter (fun a ha hother contents contents' htakes => ?_) hs.path
    refine htakes.of_not_writes (Bool.eq_false_iff.mpr fun hwrites => ?_)
    exact of_decide_eq_false hother (hperm.mem_iff.mpr (hsettled a ha hwrites))
  have hnodup := hs.nodup_trace.filter fun a => decide (a.call ∈ order)
  have hsame : (s.trace.filter fun a => a.call ∈ order).Perm (s.grouped order) := by
    refine (List.perm_ext_iff_of_nodup hnodup ?_).mpr fun a => ?_
    · exact hs.nodup_grouped (hperm.nodup_iff.mpr s.nodup_ended)
    · rw [List.mem_filter, decide_eq_true_iff, mem_grouped]
  refine Path.reorder (fun a b => a.call = b.call ∨ a.Clashes b) ?_ hsame hnodup ?_ hpath
  · intro a b contents contents₁ contents₂ hfree ha hb
    exact Access.takes_comm (fun hclash => hfree (.inr hclash)) ha hb
  · intro a b hpair hdep
    have hmem : ∀ c ∈ [a, b], c.call ∈ order := by
      intro c hc
      exact of_decide_eq_true (List.mem_filter.mp (hpair.subset hc)).2
    exact pair_grouped hpairwise (hmem a (by simp)) (hmem b (by simp))
      (hpair.trans List.filter_sublist) hdep

/-- Calls each of which has come to its result are served one after the other. -/
theorem Sound.path_serves (hs : Sound execute initial s) {order : List Nat}
    (hended : ∀ i ∈ order, i ∈ s.ended) {contents contents' : K → Option V}
    (hpath : Path Access.Takes contents (s.grouped order) contents') :
    Path (Linear.Serves (alone execute) s.calls)
      contents order contents' := by
  induction order generalizing contents with
  | nil => exact hpath
  | cons i order ih =>
    rw [List.forall_mem_cons] at hended
    obtain ⟨contents₁, hfirst, hlast⟩ := Linear.path_append.mp hpath
    obtain ⟨r, result, hr, hrest⟩ := mem_ended.mp hended.1
    have hrun : (execute r.call.op).run contents = (result, contents₁) :=
      Program.run_of_leads (hrest ▸ hs.leads i r hr) hfirst
    refine ⟨contents₁, ⟨r.call, getElem?_calls.mpr ⟨r, hr, rfl⟩, fun outcome houtcome => ?_, ?_⟩,
      ih hended.2 hlast⟩
    · have hgave := hs.returned i r hr outcome houtcome
      rw [hrest] at hgave
      rw [alone, hrun]
      exact (Program.done.inj hgave).symm
    · rw [alone, hrun]

/-- What the calls of a run returned and left in the store is what they do one after the other. -/
theorem Sound.explains (hs : Sound execute initial s) (hacyclic : s.Acyclic)
    (hsettled : s.Settled) :
    ∃ order, order.Perm s.ended ∧
      Linear.Explains (alone execute) s.calls initial order
        s.contents := by
  obtain ⟨order, hperm, hpairwise⟩ := Linear.exists_order_of_acyclic hacyclic s.ended
  refine ⟨order, hperm, { nodup := hperm.nodup_iff.mpr s.nodup_ended, returned := ?_
                          realTime := hpairwise.imp fun hnot hprecedes => hnot (.inl hprecedes)
                          serves := ?_ }⟩
  · intro i call hcall houtcome
    obtain ⟨r, hr, rfl⟩ := getElem?_calls.mp hcall
    obtain ⟨outcome, houtcome⟩ := Option.isSome_iff_exists.mp houtcome
    exact hperm.mem_iff.mpr (mem_ended.mpr ⟨r, outcome.1, hr, hs.returned i r hr outcome houtcome⟩)
  · exact hs.path_serves (fun i hi => hperm.mem_iff.mp hi) (hs.path_grouped hsettled hperm hpairwise)

/-- In every run whose accesses keep the order, the calls are explained wherever no call that is under
way has written. -/
theorem run_explains {steps : List (Step Op)}
    (halong : Runs.Along (perform execute) KeepsOrder (start initial) steps)
    (hrun : steps.foldlM (perform execute) (start initial) = some s) (hsettled : s.Settled) :
    ∃ order, order.Perm s.ended ∧
      Linear.Explains (alone execute) s.calls initial order s.contents := by
  obtain ⟨hs, hacyclic⟩ : Sound execute initial s ∧ s.Acyclic := by
    refine halong.foldlM (Q := fun s => Sound execute initial s ∧ s.Acyclic)
      (fun s step s' hs hkeeps hstep => ?_) ⟨sound_start, acyclic_start initial⟩ hrun
    exact ⟨hs.1.perform hstep, hs.2.perform hs.1 hkeeps hstep⟩
  exact hs.explains hacyclic hsettled

end Runs

end State

end Conflict
end RTDB
