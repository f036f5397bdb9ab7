import RTDB.Lib.Quorum
import RTDB.Lib.Reign
import RTDB.Raft.Cluster

/-!
# Elementary moves

The safety argument reads little of a node: its term, vote, role, counted votes,
log and progress.  A `View` keeps that much of every node, with the messages
sent so far.  A `Move` is one change of a view: a node observes a higher term,
campaigns, grants a vote, counts one, takes the lead, appends, proposes, or only
sends.  Each call of a node is one or two moves.

The `Chronicle` is history that no node stores: who voted for whom in which term,
and which reigns there have been.
-/

namespace RTDB
namespace Raft

open Quorum Reign

structure Core where
  term : Nat
  votedFor : NodeId
  state : RaftState
  votes : NodeMap Bool
  log : List LogEntry
  progress : NodeMap Progress

def RaftNode.core (n : RaftNode) : Core :=
  { term := n.term, votedFor := n.votedFor, state := n.state, votes := n.votes,
    log := n.log, progress := n.progress }

/-- The cores of all nodes, and every message sent so far. -/
structure View where
  core : NodeId → Core
  net : List Message

def Cluster.view (c : Cluster) : View :=
  { core := fun i => (c.node i).core, net := c.net }

namespace View

/-- Node `i` becomes `core` and sends `ms`. -/
def set (v : View) (i : NodeId) (core : Core) (ms : List Message) : View :=
  { core := Function.update v.core i core, net := v.net ++ ms }

@[simp] theorem set_core_self (v : View) (i : NodeId) (core : Core) (ms : List Message) :
    (v.set i core ms).core i = core := by
  show Function.update v.core i core i = core
  rw [Function.update_self]

theorem set_core_ne (v : View) {i j : NodeId} (core : Core) (ms : List Message) (h : j ≠ i) :
    (v.set i core ms).core j = v.core j := by
  show Function.update v.core i core j = v.core j
  rw [Function.update_of_ne h]

@[simp] theorem set_net (v : View) (i : NodeId) (core : Core) (ms : List Message) :
    (v.set i core ms).net = v.net ++ ms := rfl

end View

theorem Cluster.view_update (c : Cluster) (i : NodeId) (o : Output) :
    (c.update i o).view = c.view.set i o.node.core o.messages := by
  have hcore : (fun j => (Function.update c.node i o.node j).core) =
      Function.update (fun j => (c.node j).core) i o.node.core := by
    funext j
    by_cases h : j = i
    · subst h
      rw [Function.update_self, Function.update_self]
    · rw [Function.update_of_ne h, Function.update_of_ne h]
  show View.mk _ _ = View.mk _ _
  rw [Cluster.update, hcore]
  rfl

inductive Move where
  /-- Send messages that carry no new promise. -/
  | send (i : NodeId) (ms : List Message)
  /-- Follow a higher term. -/
  | observe (i : NodeId) (term : Nat)
  /-- Become follower or pre-candidate of the same term. -/
  | rest (i : NodeId) (state : RaftState) (votes : NodeMap Bool) (progress : NodeMap Progress)
  | campaign (i : NodeId) (requests : List Message)
  | grant (i : NodeId) (msg : Message)
  /-- Count one vote response. -/
  | tally (i : NodeId) (msg : Message)
  | lead (i : NodeId) (progress : NodeMap Progress)
  | append (i : NodeId) (msg : Message)
  | propose (i : NodeId) (data : List UInt8)
  /-- Update what is known of the peers' logs. -/
  | track (i : NodeId) (progress : NodeMap Progress)

/-- The response that grants the vote `msg` asks for. -/
def grantTo (i : NodeId) (msg : Message) : Message :=
  { msgType := .voteResponse, from_ := i, to_ := msg.from_, term := msg.term }

def acceptanceOf (i : NodeId) (msg : Message) (index : Nat) : Message :=
  { msgType := .appendResponse, from_ := i, to_ := msg.from_, term := msg.term, index }

def Core.newEntry (n : Core) (data : List UInt8) : LogEntry :=
  LogEntry.new (n.log.length + 1) n.term data

def Move.apply (v : View) : Move → View
  | .send i ms => v.set i (v.core i) ms
  | .observe i term =>
    v.set i { v.core i with term, votedFor := 0, state := .follower, votes := ∅, progress := ∅ } []
  | .rest i state votes progress => v.set i { v.core i with state, votes, progress } []
  | .campaign i requests =>
    v.set i { v.core i with
      term := (v.core i).term + 1, votedFor := i, state := .candidate
      votes := (∅ : NodeMap Bool).insert i true, progress := ∅ } requests
  | .grant i msg => v.set i { v.core i with votedFor := msg.from_ } [grantTo i msg]
  | .tally i msg =>
    v.set i { v.core i with votes := (v.core i).votes.insert msg.from_ (!msg.reject) } []
  | .lead i progress =>
    v.set i { v.core i with
      state := .leader, log := (v.core i).log ++ [(v.core i).newEntry []], progress } []
  | .append i msg =>
    let log := RaftNode.appendToLog (v.core i).log msg
    v.set i { v.core i with log } [acceptanceOf i msg log.length]
  | .propose i data =>
    v.set i { v.core i with log := (v.core i).log ++ [(v.core i).newEntry data] } []
  | .track i progress => v.set i { v.core i with progress } []

structure Acceptance (v : View) (p : NodeId) (t : Nat) (m : Message) : Prop where
  sent : m ∈ v.net
  msgType : m.msgType = .appendResponse
  accepted : m.reject = false
  by_ : m.from_ = p
  term : m.term = t

/-- A message of the leader `i` of its current term to another node. -/
structure Authored (v : View) (i : NodeId) (m : Message) : Prop where
  state : (v.core i).state = .leader
  by_ : m.from_ = i
  term : m.term = (v.core i).term
  other : m.to_ ≠ i

/-- What `send` may send: leader messages as the leader's log has them, and
responses that promise nothing. -/
def Sendable (v : View) (i : NodeId) (m : Message) : Prop :=
  match m.msgType with
  | .heartbeat => m.commit = 0 ∨ Authored v i m
  | .appendEntries => Authored v i m ∧ m.entries ≠ [] ∧ m.index ≤ (v.core i).log.length ∧
      m.entries <+: (v.core i).log.drop m.index
  | .appendResponse | .voteResponse => m.reject = true
  | .requestPreVote | .preVoteResponse => True
  | .requestVote | .installSnapshot | .snapshotResponse | .timeoutNow => False

/-- Does the log agree with the message about the entry before its own? -/
def PrevMatches (log : List LogEntry) (msg : Message) : Prop :=
  msg.index = 0 ∨ termAt log msg.index = msg.term

/-- The vote guard that makes committed entries survive elections: a candidate
of the request's term has a log at least as up to date as the voter's. -/
def CandidateUpToDate (v : View) (i : NodeId) (msg : Message) : Prop :=
  (v.core msg.from_).state = .candidate → (v.core msg.from_).term = msg.term →
    UpToDate LogEntry.term (v.core msg.from_).log (v.core i).log

/-- The append guard: the log ends no later than the message does, or differs
from it at the message's last entry. -/
def KeepsTail (log : List LogEntry) (msg : Message) : Prop :=
  log.length ≤ msg.index + msg.entries.length ∨
    ∃ last ∈ msg.entries.getLast?, termAt log (msg.index + msg.entries.length) ≠ last.term

instance (log : List LogEntry) (msg : Message) : Decidable (KeepsTail log msg) :=
  inferInstanceAs (Decidable (_ ∨ _))

/-- When a move may happen.  The two guards are asked for only when `strict`
holds; the code does not check them. -/
def Move.Enabled (S : Setup) (strict : Prop) (v : View) : Move → Prop
  | .send i ms => i ∈ S.voters ∧ ∀ m ∈ ms, Sendable v i m
  | .observe i term => i ∈ S.voters ∧ (v.core i).term < term
  | .rest i state _ _ => i ∈ S.voters ∧ (state = .follower ∨ state = .preCandidate)
  | .campaign i requests => i ∈ S.voters ∧
      ∀ m ∈ requests, m.msgType = .requestVote ∧ m.from_ = i ∧ m.to_ ≠ i ∧
        m.term = (v.core i).term + 1
  | .grant i msg => i ∈ S.voters ∧ msg ∈ v.net ∧ msg.msgType = .requestVote ∧ msg.to_ = i ∧
      msg.term = (v.core i).term ∧ ((v.core i).votedFor = 0 ∨ (v.core i).votedFor = msg.from_) ∧
      (v.core i).votedFor ≠ i ∧ (strict → CandidateUpToDate v i msg)
  | .tally i msg => i ∈ S.voters ∧ msg ∈ v.net ∧ msg.msgType = .voteResponse ∧ msg.to_ = i ∧
      msg.term = (v.core i).term ∧ (v.core i).state = .candidate
  | .lead i progress => i ∈ S.voters ∧ (v.core i).state = .candidate ∧
      S.voters.length < 2 * (passing (v.core i).votes fun granted => granted).card ∧
      ∀ p pr, progress.lookup p = some pr → pr.matchIndex = 0
  | .append i msg => i ∈ S.voters ∧ msg ∈ v.net ∧ msg.msgType = .appendEntries ∧ msg.to_ = i ∧
      msg.term = (v.core i).term ∧ PrevMatches (v.core i).log msg ∧
      (strict → KeepsTail (v.core i).log msg)
  | .propose i _ => i ∈ S.voters ∧ (v.core i).state = .leader
  | .track i progress => i ∈ S.voters ∧ (v.core i).state = .leader ∧
      ∀ p pr, progress.lookup p = some pr → pr.matchIndex = 0 ∨
        (∃ pr', (v.core i).progress.lookup p = some pr' ∧ pr'.matchIndex = pr.matchIndex) ∨
        ∃ m, Acceptance v p (v.core i).term m ∧ m.index = pr.matchIndex

def Moves (S : Setup) (strict : Prop) (v : View) : List Move → View → Prop
  | [], v' => v' = v
  | m :: ms, v' => m.Enabled S strict v ∧ Moves S strict (m.apply v) ms v'

/-! ## The chronicle -/

structure Chronicle where
  vote : NodeId → Nat → Option NodeId
  reign : Annals NodeId LogEntry

/-- The no-op every log starts with counts as the reign of term zero. -/
def genesis : Reign NodeId LogEntry :=
  { leader := 0, base := [], own := [LogEntry.new 1 0 []] }

namespace Chronicle

def init : Chronicle :=
  { vote := fun _ _ => none, reign := Reign.begin (fun _ => none) 0 genesis }

def record (h : Chronicle) (t : Nat) (r : Reign NodeId LogEntry) : Chronicle :=
  { h with reign := Reign.begin h.reign t r }

def recordVote (h : Chronicle) (i : NodeId) (t : Nat) (c : NodeId) : Chronicle :=
  { h with vote := Function.update h.vote i (Function.update (h.vote i) t (some c)) }

/-- The chronicle after a move in view `v`. -/
def note (h : Chronicle) (v : View) : Move → Chronicle
  | .campaign i _ => h.recordVote i ((v.core i).term + 1) i
  | .grant i msg => h.recordVote i msg.term msg.from_
  | .lead i _ =>
    h.record (v.core i).term
      { leader := i, base := (v.core i).log, own := [(v.core i).newEntry []] }
  | .propose i data =>
    match h.reign (v.core i).term with
    | none => h
    | some r => h.record (v.core i).term (r.enact ((v.core i).newEntry data))
  | _ => h

/-- A proposal extends the reign recorded for the proposer's term. -/
theorem note_propose {h : Chronicle} {v : View} {i : NodeId} {r : Reign NodeId LogEntry}
    (hr : h.reign (v.core i).term = some r) (data : List UInt8) :
    h.note v (.propose i data) =
      h.record (v.core i).term (r.enact ((v.core i).newEntry data)) := by
  simp only [note, hr]

/-- Votes are never retracted and reigns never rewritten. -/
structure Extends (h h' : Chronicle) : Prop where
  vote : ∀ p t c, h.vote p t = some c → h'.vote p t = some c
  reign : Reign.Extends h.reign h'.reign

theorem Extends.refl (h : Chronicle) : Extends h h := ⟨fun _ _ _ hv => hv, .refl _⟩

theorem Extends.trans {h₁ h₂ h₃ : Chronicle} (h₁₂ : Extends h₁ h₂) (h₂₃ : Extends h₂ h₃) :
    Extends h₁ h₃ :=
  ⟨fun p t c hv => h₂₃.vote p t c (h₁₂.vote p t c hv), h₁₂.reign.trans h₂₃.reign⟩

end Chronicle

end Raft
end RTDB
