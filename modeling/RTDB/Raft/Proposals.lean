import RTDB.Raft.Runtime

/-!
# Answers to proposals

A proposal waits under the index it was given, through any change of leadership, and is
answered when an entry with that index is handed over.  The answer is true as long as
the log keeps the proposal where it was put, and nothing is handed over that is not
committed.
-/

namespace RTDB
namespace Raft

open RaftNode Runs

variable {X A E : Type}

/-- An answer other than zero names a committed entry, and the entry carries the data. -/
def Round.Truthful (o : Round A E) : Prop :=
  ∀ p ∈ o.effects.proposed, 0 < p.2.index → p.2.index ≤ o.runtime.raft.commitIndex ∧
    (o.runtime.raft.log[p.2.index - 1]?).map LogEntry.data = some p.1

namespace RaftRuntime

/-- The pending proposals are where they were put. -/
def Placed (r : RaftRuntime A) : Prop :=
  ∀ p ∈ r.pendingProposals, 0 < p.1 ∧ (r.raft.log[p.1 - 1]?).map LogEntry.data = some p.2

/-- A message leaves them there: an append that is accepted brings the same data back, and
no snapshot is installed over them. -/
def Spares (r : RaftRuntime A) (msg : Message) : Prop :=
  (r.raft.Installs msg → r.pendingProposals = []) ∧
    (msg.msgType = .appendEntries → r.raft.Accepts msg → ∀ p ∈ r.pendingProposals,
      ((appendToLog r.raft.log msg)[p.1 - 1]?).map LogEntry.data = some p.2)

/-- A round that hands entries over, and has them applied, finds every pending proposal
committed. -/
def Settled (ap : Apply X A E) (r : RaftRuntime A) (e : RuntimeEvent X) : Prop :=
  r.readies e = true → (r.called e).raft.lastApplied < (r.called e).raft.commitIndex →
    (ap.apply e.world r.apply (r.batch e)).2 = .ok () →
      ∀ p ∈ (r.called e).pendingProposals, p.1 ≤ (r.called e).raft.commitIndex

def Spared (r : RaftRuntime A) : RuntimeEvent X → Prop
  | .message _ _ msg => r.Spares msg
  | .tick _ _ => True
  | .command _ _ _ => True

/-- The condition on one round; after a shutdown there is none. -/
def Careful (ap : Apply X A E) (r : RaftRuntime A) (e : RuntimeEvent X) : Prop :=
  r.shutdown = false → r.Spared e ∧ r.Settled ap e

instance [DecidableEq E] (ap : Apply X A E) (r : RaftRuntime A) (e : RuntimeEvent X) :
    Decidable (r.Careful ap e) :=
  have : Decidable (r.Spared e) :=
    match e with
    | .message _ _ _ =>
      inferInstanceAs (Decidable ((_ → _) ∧ (_ → _)))
    | .tick _ _ => isTrue trivial
    | .command _ _ _ => isTrue trivial
  have : Decidable (r.Settled ap e) := inferInstanceAs (Decidable (_ → _))
  inferInstanceAs (Decidable (_ → _))

/-! ## One round -/

variable {ap : Apply X A E} {r : RaftRuntime A} {e : RuntimeEvent X}

theorem data_of_prefix {log log' : List LogEntry} {i : Nat} {data : List UInt8}
    (hlog : log <+: log') (hdata : (log[i]?).map LogEntry.data = some data) :
    (log'[i]?).map LogEntry.data = some data := by
  obtain ⟨entry, hentry, hdata⟩ := Option.map_eq_some_iff.mp hdata
  obtain ⟨rest, rfl⟩ := hlog
  have hlt := (List.getElem?_eq_some_iff.mp hentry).1
  rw [List.getElem?_append_left hlt, hentry, Option.map_some, hdata]

/-- A longer log keeps them, and fewer are kept as well. -/
theorem Placed.grow {r' : RaftRuntime A} (hr : r.Placed) (hlog : r.raft.log <+: r'.raft.log)
    (hpending : ∀ p ∈ r'.pendingProposals, p ∈ r.pendingProposals) : r'.Placed := by
  intro p hp
  obtain ⟨hpos, hdata⟩ := hr p (hpending p hp)
  exact ⟨hpos, data_of_prefix hlog hdata⟩

theorem Placed.message (hr : r.Placed) (x : X) (env : Env) {msg : Message}
    (hspares : r.Spares msg) : (r.called (.message x env msg)).Placed := by
  by_cases hinstalls : r.raft.Installs msg
  · intro p hp
    rw [called, hspares.1 hinstalls] at hp
    exact absurd hp List.not_mem_nil
  · rcases (step_log env hinstalls).2 with hsame | ⟨term, hlonger⟩ | ⟨htype, haccepts, hcut⟩
    · exact hr.grow (hsame ▸ List.prefix_rfl) fun p hp => hp
    · exact hr.grow (hlonger ▸ List.prefix_append _ _) fun p hp => hp
    · intro p hp
      refine ⟨(hr p hp).1, ?_⟩
      rw [called, hcut]
      exact hspares.2 htype haccepts p hp

theorem Placed.propose (hr : r.Placed) (x : X) (env : Env) (data : List UInt8) :
    (r.called (.command x env (.propose data))).Placed := by
  cases hlead : r.raft.isLeader with
  | false =>
    rw [called, propose_other hlead data]
    exact hr.grow List.prefix_rfl fun p hp => by simpa using hp
  | true =>
    rw [called, propose_leader hlead data]
    intro p hp
    rcases List.mem_append.mp hp with hold | hnew
    · exact ⟨(hr p hold).1, data_of_prefix (List.prefix_append _ _) (hr p hold).2⟩
    · rw [List.mem_singleton.mp hnew]
      refine ⟨Nat.succ_pos _, ?_⟩
      simp [lastIndex, LogEntry.new]

theorem Placed.called (hr : r.Placed) (hspared : r.Spared e) : (r.called e).Placed := by
  cases e with
  | tick x env => exact hr.grow (tick_grown env r.raft).log fun p hp => hp
  | message x env msg => exact hr.message x env hspared
  | command x env cmd =>
    cases cmd with
    | propose data => exact hr.propose x env data
    | readIndex ctx => exact hr.grow (readIndex_grown r.raft ctx).log fun p hp => hp
    | status => exact hr
    | stepDown => exact hr
    | snapshot => exact hr
    | shutdown => exact hr

/-- Answers are true in a round that meets the condition, and what is pending stays where
it was put. -/
theorem Placed.step (hr : r.Placed) (hcareful : r.Careful ap e) :
    (r.step ap e).runtime.Placed ∧ (r.step ap e).Truthful := by
  cases hup : r.shutdown with
  | true =>
    rw [step_shutdown hup]
    exact ⟨hr, fun p hp => absurd hp List.not_mem_nil⟩
  | false =>
    obtain ⟨hspared, hsettled⟩ := hcareful hup
    have hcalled := hr.called hspared
    have hhandled := @step_handled _ _ _ ap _ hup e
    obtain ⟨hlog, hcommit, hpending⟩ := advanced_raft r e
    have hlog' : (r.step ap e).runtime.raft.log = (r.called e).raft.log := by
      rw [hhandled.raft]
      exact hlog
    have hcommit' : (r.step ap e).runtime.raft.commitIndex = (r.called e).raft.commitIndex := by
      rw [hhandled.raft]
      exact hcommit
    refine ⟨hcalled.grow (hlog' ▸ List.prefix_rfl) fun p hp => ?_, fun p hp hpos => ?_⟩
    · rw [← hpending]
      exact hhandled.pending p hp
    · obtain ⟨hmem, hbatch, hok⟩ := hhandled.proposed p hp hpos
      rw [hpending] at hmem
      rw [advanced_apply] at hok
      obtain ⟨hreadies, hlt⟩ := batch_ne_nil hbatch
      rw [hlog', hcommit']
      exact ⟨hsettled hreadies hlt hok _ hmem, (hcalled _ hmem).2⟩

end RaftRuntime

open RaftRuntime

/-! ## Runs -/

theorem proposals_truthful (ap : Apply X A E) (raft : RaftNode) (a : A) (now : Nat)
    (events : List (RuntimeEvent X))
    (hcareful : Each (fun r e => (r.step ap e).runtime) (Careful ap) (RaftRuntime.new raft a now)
      events) :
    Each (fun r e => (r.step ap e).runtime) (fun r e => (r.step ap e).Truthful)
      (RaftRuntime.new raft a now) events := by
  intro before e after hevents
  have hplaced : (before.foldl (fun r e => (r.step ap e).runtime)
      (RaftRuntime.new raft a now)).Placed := by
    refine Each.foldl (p := Careful ap) (fun r e hr hc => (Placed.step hr hc).1) ?_
      (l := before) (Each.before (hevents ▸ hcareful))
    exact fun p hp => absurd hp List.not_mem_nil
  exact (hplaced.step (hcareful before e after hevents)).2

/-! ## One proposal -/

/-- A state machine that takes everything. -/
def mockApply : Apply Unit Unit String :=
  { apply := fun _ _ _ => ((), .ok ())
    applySnapshot := fun _ _ _ => ((), .ok ())
    snapshot := fun _ _ => .ok (0, []) }

def booted : RaftRuntime Unit :=
  RaftRuntime.new (RaftNode.newWithConf (trio.boot 1) (trio.config 1) trio.voters) () 0

/-- Node 1 campaigns and node 2 votes for it. -/
def crowning : List (RuntimeEvent Unit) :=
  [.tick () late, .message () late { msgType := .voteResponse, from_ := 2, to_ := 1, term := 1 }]

/-- The proposal comes when the no-op has been applied, and is answered when it is
committed. -/
def answering : List (RuntimeEvent Unit) :=
  crowning ++ [.message () late (answerOf 2 false), .tick () later, .command () later (.propose [7]),
    .message () later (answerOf 3 false), .tick () { now := 3000, jitter := 0 }]

/-- The proposal comes before the no-op is committed. -/
def rushing : List (RuntimeEvent Unit) :=
  crowning ++ [.command () late (.propose [7]), .message () late (answerOf 2 false), .tick () later]

theorem proposals_truthful_answering :
    (answering.foldl (fun r e => (r.step mockApply e).runtime) booted).pendingProposals = [] ∧
      Each (fun r e => (r.step mockApply e).runtime) (fun r e => (r.step mockApply e).Truthful)
        booted answering :=
  ⟨by decide, proposals_truthful mockApply _ () 0 answering (by decide)⟩

/-- It is answered with an index that is not committed. -/
theorem not_proposals_truthful_rushing :
    ¬ Each (fun r e => (r.step mockApply e).runtime) (fun r e => (r.step mockApply e).Truthful)
      booted rushing := by
  intro htruthful
  have hlast := htruthful (rushing.take 4) (.tick () later) [] rfl
  have hanswer := hlast ([7], { index := 3, term := 1 }) (by decide) (by decide)
  exact absurd hanswer.1 (by decide)

end Raft
end RTDB
