import RTDB.Raft.Polls

/-!
# A node as the voters see it

Learners matter to a node in one place: a new leader notes which peers are learners,
and never looks at it again.  Without that note, and without a vote for a node outside
the voters, a voter does the same in every call but one: a vote request that finds its
vote spent outside.
-/

namespace RTDB
namespace Raft

open Quorum

/-! ## Maps -/

def mapValues {β : Type} (f : β → β) (m : NodeMap β) : NodeMap β :=
  ⟨m.entries.map fun e => ⟨e.1, f e.2⟩, by
    show (List.map Sigma.fst (m.entries.map _)).Nodup
    rw [List.map_map]
    exact m.nodupKeys⟩

section Map

variable {β : Type} (f : β → β) (m : NodeMap β)

theorem mapValues_entries : (mapValues f m).entries =
    m.entries.map fun e => (⟨e.1, f e.2⟩ : Sigma fun _ : NodeId => β) := rfl

theorem dlookup_map (p : NodeId) (l : List (Sigma fun _ : NodeId => β)) :
    List.dlookup p (l.map fun e => (⟨e.1, f e.2⟩ : Sigma fun _ : NodeId => β)) =
      (List.dlookup p l).map f := by
  induction l with
  | nil => rfl
  | cons e rest ih =>
    obtain ⟨q, b⟩ := e
    rw [List.map_cons]
    by_cases hp : p = q
    · subst hp
      rw [List.dlookup_cons_eq, List.dlookup_cons_eq]
      rfl
    · rw [List.dlookup_cons_ne _ _ hp, List.dlookup_cons_ne _ _ hp]
      exact ih

theorem kerase_map (p : NodeId) (l : List (Sigma fun _ : NodeId => β)) :
    List.kerase p (l.map fun e => (⟨e.1, f e.2⟩ : Sigma fun _ : NodeId => β)) =
      (List.kerase p l).map fun e => ⟨e.1, f e.2⟩ :=
  List.eraseP_map

theorem lookup_mapValues (p : NodeId) : (mapValues f m).lookup p = (m.lookup p).map f :=
  dlookup_map f p m.entries

theorem mapValues_insert (p : NodeId) (b : β) :
    mapValues f (m.insert p b) = (mapValues f m).insert p (f b) := by
  apply AList.ext
  rw [AList.entries_insert, mapValues_entries, mapValues_entries, AList.entries_insert,
    List.map_cons, kerase_map]

end Map

/-! ## The node -/

/-- A vote for a voter, or none. -/
def inside (voters : List NodeId) (p : NodeId) : NodeId := if p ∈ voters then p else 0

theorem inside_zero (voters : List NodeId) : inside voters 0 = 0 := by
  rw [inside, ite_self]

theorem inside_mem {voters : List NodeId} {p : NodeId} (hp : p ∈ voters) : inside voters p = p :=
  if_pos hp

/-- The progress of a peer that is no learner. -/
def Progress.bare (p : Progress) : Progress := { p with isLearner := false }

/-- The node in a configuration of its voters alone, with its vote if that is for a
voter. -/
def RaftNode.bare (n : RaftNode) : RaftNode :=
  { n with
    votedFor := inside n.confState.voters n.votedFor
    confState := ConfState.new n.confState.voters
    progress := mapValues Progress.bare n.progress }

def Ready.bare (voters : List NodeId) (r : Ready) : Ready :=
  { r with hardState := r.hardState.map fun s => { s with votedFor := inside voters s.votedFor } }

def Output.bare (o : Output) : Output :=
  { node := o.node.bare
    ready := o.ready.map (Ready.bare o.node.confState.voters)
    built := o.built }

theorem Output.bare_messages (o : Output) : o.bare.messages = o.messages := by
  rcases o with ⟨node, ready, built⟩
  cases ready <;> rfl

namespace RaftNode

variable {n : RaftNode} {msg : Message} (env : Env)

theorem bare_node (n : RaftNode) : Output.bare { node := n } = { node := n.bare } := rfl

theorem bare_reset (n : RaftNode) (term : Nat) : n.bare.reset term = (n.reset term).bare := by
  simp only [reset, bare, apply_ite (inside n.confState.voters), inside_zero]
  rfl

theorem bare_becomeFollower (n : RaftNode) (term : Nat) (leaderId : NodeId) :
    n.bare.becomeFollower env term leaderId = (n.becomeFollower env term leaderId).bare := by
  rw [becomeFollower, bare_reset]
  rfl

theorem bare_handleHeartbeat :
    n.bare.handleHeartbeat env msg = (n.handleHeartbeat env msg).bare := by
  unfold handleHeartbeat
  simp only
  rw [apply_ite Output.bare]
  rfl

theorem bare_handleAppendEntries :
    n.bare.handleAppendEntries env msg = (n.handleAppendEntries env msg).bare := by
  unfold handleAppendEntries
  simp only
  rw [apply_ite Output.bare, apply_ite Output.bare]
  rfl

theorem bare_canVote (hvote : inside n.confState.voters n.votedFor = n.votedFor) :
    n.bare.canVote msg = n.canVote msg := by
  rw [canVote, canVote, show n.bare.votedFor = n.votedFor from hvote]
  rfl

/-- A voter that has voted for a voter, or for nobody. -/
theorem bare_handleRequestVote (hfrom : msg.from_ ∈ n.confState.voters)
    (hvote : inside n.confState.voters n.votedFor = n.votedFor) :
    n.bare.handleRequestVote env msg = (n.handleRequestVote env msg).bare := by
  unfold handleRequestVote
  rw [apply_ite Output.bare]
  refine if_congr Iff.rfl rfl ?_
  have hlog : n.bare.logOk msg = n.logOk msg := rfl
  rw [bare_canVote hvote, hlog]
  cases n.canVote msg && n.logOk msg with
  | false => rfl
  | true =>
    have hgranted : inside n.confState.voters msg.from_ = msg.from_ := inside_mem hfrom
    simp only [Output.bare, bare, Ready.bare, hardState, resetElectionTimeout, if_true,
      Option.map_some, hgranted]
    rfl

theorem bare_quorumIndex (n : RaftNode) : n.bare.quorumIndex = n.quorumIndex := by
  have hmatch : n.bare.progress.entries.map (fun p => p.2.matchIndex) =
      n.progress.entries.map fun p => p.2.matchIndex := by
    show ((mapValues Progress.bare n.progress).entries.map _) = _
    rw [mapValues_entries, List.map_map]
    rfl
  rw [quorumIndex, quorumIndex, hmatch]
  rfl

theorem bare_advanceCommitIndex (n : RaftNode) :
    n.bare.advanceCommitIndex = n.advanceCommitIndex.bare := by
  unfold advanceCommitIndex
  rw [apply_ite RaftNode.bare, apply_ite RaftNode.bare, bare_quorumIndex]
  rfl

theorem bare_note (n : RaftNode) (p : NodeId) (progress : Progress) :
    { n with progress := n.progress.insert p progress }.bare =
      { n.bare with progress := n.bare.progress.insert p progress.bare } := by
  have hmap := mapValues_insert Progress.bare n.progress p progress
  rw [bare, bare]
  simp only
  rw [hmap]

theorem bare_backOff (progress : Progress) (rejectHint : Nat) :
    backOff progress.bare rejectHint = (backOff progress rejectHint).bare := rfl

theorem bare_becomeAccept (progress : Progress) (index : Nat) :
    progress.bare.becomeAccept index = (progress.becomeAccept index).bare := by
  unfold Progress.becomeAccept
  by_cases hup : index > progress.matchIndex
  · have hup' : index > progress.bare.matchIndex := hup
    rw [if_pos hup, if_pos hup']
    rfl
  · have hup' : ¬ index > progress.bare.matchIndex := hup
    rw [if_neg hup, if_neg hup']
    rfl

theorem lookup_bare (n : RaftNode) (p : NodeId) :
    n.bare.progress.lookup p = (n.progress.lookup p).map Progress.bare :=
  lookup_mapValues _ _ _

theorem bare_handleAppendResponse :
    n.bare.handleAppendResponse msg = (n.handleAppendResponse msg).bare := by
  unfold handleAppendResponse
  rw [apply_ite Output.bare, lookup_bare]
  refine if_congr Iff.rfl rfl ?_
  cases hprogress : n.progress.lookup msg.from_ with
  | none => rfl
  | some progress =>
    show (if msg.reject = true then _ else _) = Output.bare (if msg.reject = true then _ else _)
    rw [apply_ite Output.bare]
    refine if_congr Iff.rfl ?_ ?_
    · rw [bare_node, bare_note, bare_backOff]
    · rw [bare_node, ← bare_advanceCommitIndex, bare_note, bare_becomeAccept]

theorem bare_handleSnapshotResponse :
    n.bare.handleSnapshotResponse msg = (n.handleSnapshotResponse msg).bare := by
  unfold handleSnapshotResponse
  rw [apply_ite Output.bare, lookup_bare]
  refine if_congr Iff.rfl rfl ?_
  cases hprogress : n.progress.lookup msg.from_ with
  | none => rfl
  | some progress =>
    show (if (!msg.reject) = true then _ else _) =
      Output.bare (if (!msg.reject) = true then _ else _)
    rw [apply_ite Output.bare]
    refine if_congr Iff.rfl ?_ rfl
    rw [bare_node, bare_note]
    rfl

theorem bare_initialProgress (n : RaftNode) :
    n.bare.initialProgress = mapValues Progress.bare n.initialProgress := by
  have hfold : ∀ (l : List NodeId) (progress : NodeMap Progress),
      l.foldl (fun progress p => progress.insert p (Progress.new (n.lastIndex + 1)
          (n.bare.confState.isLearner p))) (mapValues Progress.bare progress) =
        mapValues Progress.bare (l.foldl (fun progress p => progress.insert p
          (Progress.new (n.lastIndex + 1) (n.confState.isLearner p))) progress) := by
    intro l
    induction l with
    | nil => exact fun _ => rfl
    | cons p rest ih =>
      intro progress
      rw [List.foldl_cons, List.foldl_cons, ← ih, mapValues_insert]
      rfl
  exact hfold n.peers ∅

theorem bare_becomeLeader (n : RaftNode) : n.bare.becomeLeader = n.becomeLeader.bare := by
  unfold becomeLeader
  rw [bare_initialProgress]
  rfl

theorem bare_countVote (n : RaftNode) (msg : Message) :
    n.bare.countVote msg = (n.countVote msg).bare := rfl

theorem bare_handleVoteResponse :
    n.bare.handleVoteResponse env msg = (n.handleVoteResponse env msg).bare := by
  unfold handleVoteResponse
  rw [apply_ite Output.bare]
  refine if_congr Iff.rfl rfl ?_
  simp only
  rw [apply_ite Output.bare, apply_ite Output.bare]
  refine if_congr Iff.rfl ?_ (if_congr Iff.rfl ?_ rfl)
  · rw [bare_countVote, bare_becomeLeader]
    rfl
  · rw [bare_countVote, bare_becomeFollower]
    rfl

/-- A voter that stands votes for a voter. -/
theorem bare_becomeCandidate (hid : n.id ∈ n.confState.voters) :
    n.bare.becomeCandidate env = (n.becomeCandidate env).bare := by
  have hvote : inside n.confState.voters n.id = n.id := inside_mem hid
  show _ = { n.becomeCandidate env with
    votedFor := inside n.confState.voters n.id
    confState := ConfState.new n.confState.voters
    progress := mapValues Progress.bare (n.becomeCandidate env).progress }
  rw [hvote]
  rfl

theorem bare_campaign (hid : n.id ∈ n.confState.voters) :
    n.bare.campaign env = (n.campaign env).bare := by
  rw [campaign, bare_becomeCandidate env hid]
  rfl

theorem bare_handlePreVoteResponse (hid : n.id ∈ n.confState.voters) :
    n.bare.handlePreVoteResponse env msg = (n.handlePreVoteResponse env msg).bare := by
  unfold handlePreVoteResponse
  rw [apply_ite Output.bare]
  refine if_congr Iff.rfl rfl ?_
  simp only
  rw [apply_ite Output.bare, ← bare_campaign env (n := n.countVote msg) hid]
  exact if_congr Iff.rfl rfl rfl

theorem bare_handleInstallSnapshot :
    n.bare.handleInstallSnapshot env msg = (n.handleInstallSnapshot env msg).bare := by
  unfold handleInstallSnapshot
  rw [apply_ite Output.bare]
  refine if_congr Iff.rfl rfl ?_
  simp only
  cases msg.snapshot <;> rfl

theorem bare_observeTerm : n.bare.observeTerm env msg = (n.observeTerm env msg).bare := by
  unfold observeTerm
  rw [apply_ite RaftNode.bare, bare_becomeFollower]
  rfl

/-- What a voter does with a message from a voter, unless it is asked for its vote and
has voted for someone else. -/
theorem bare_handle (hid : n.id ∈ n.confState.voters) (hfrom : msg.from_ ∈ n.confState.voters)
    (hvote : msg.msgType = .requestVote → inside n.confState.voters n.votedFor = n.votedFor) :
    n.bare.handle env msg = (n.handle env msg).bare := by
  unfold handle
  cases htype : msg.msgType with
  | heartbeat => exact bare_handleHeartbeat env
  | appendEntries => exact bare_handleAppendEntries env
  | appendResponse => exact bare_handleAppendResponse
  | requestVote => exact bare_handleRequestVote env hfrom (hvote htype)
  | voteResponse => exact bare_handleVoteResponse env
  | requestPreVote => rfl
  | preVoteResponse => exact bare_handlePreVoteResponse env hid
  | installSnapshot => exact bare_handleInstallSnapshot env
  | snapshotResponse => exact bare_handleSnapshotResponse
  | timeoutNow => rfl

/-- The call finds the node's vote with someone else. -/
def Spent (n : RaftNode) : Call → Prop
  | .step _ msg => msg.msgType = .requestVote ∧ msg.term ≤ n.term ∧
      inside n.confState.voters n.votedFor ≠ n.votedFor
  | _ => False

theorem inside_observeTerm (htype : msg.msgType = .requestVote)
    (hspent : ¬ n.Spent (.step env msg)) :
    inside (n.observeTerm env msg).confState.voters (n.observeTerm env msg).votedFor =
      (n.observeTerm env msg).votedFor := by
  rcases Nat.lt_or_ge n.term msg.term with hterm | hterm
  · rw [(observeTerm_higher env hterm).2.1, inside_zero]
  · rw [observeTerm_same env hterm]
    by_contra hne
    exact hspent ⟨htype, hterm, hne⟩

theorem bare_step (hid : n.id ∈ n.confState.voters) (hfrom : msg.from_ ∈ n.confState.voters)
    (hspent : ¬ n.Spent (.step env msg)) : n.bare.step env msg = (n.step env msg).bare := by
  have hconf := observeTerm_confState env n msg
  have hself : (n.observeTerm env msg).id = n.id := congrArg Config.id (observeTerm_config env n msg)
  rw [step, bare_observeTerm, bare_handle env (by rwa [hself, hconf]) (by rwa [hconf])
    fun htype => inside_observeTerm env htype hspent]
  rfl

theorem bare_checkQuorum (n : RaftNode) : n.bare.checkQuorum env = (n.checkQuorum env).bare := by
  have hactive : (n.bare.progress.entries.filter (fun p => p.2.recentActive)).length =
      (n.progress.entries.filter (fun p => p.2.recentActive)).length := by
    show ((mapValues Progress.bare n.progress).entries.filter _).length = _
    rw [mapValues_entries, List.filter_map, List.length_map]
    rfl
  unfold checkQuorum
  rw [hactive]
  simp only
  have hquorum : n.bare.quorumSize = n.quorumSize := rfl
  have hterm : n.bare.term = n.term := rfl
  rw [hquorum]
  generalize decide ((n.progress.entries.filter (fun p => p.2.recentActive)).length + 1 ≥
    n.quorumSize) = active
  have hcond : (!active && n.bare.quorumRecentlyActive) = (!active && n.quorumRecentlyActive) := rfl
  rw [hcond, hterm, bare_becomeFollower]
  cases !active && n.quorumRecentlyActive <;> rfl

theorem bare_handleElectionTimeout (hid : n.id ∈ n.confState.voters) :
    n.bare.handleElectionTimeout env = (n.handleElectionTimeout env).bare := by
  unfold handleElectionTimeout
  rw [apply_ite Output.bare, bare_campaign env hid]
  rfl

theorem bare_tick (hid : n.id ∈ n.confState.voters) :
    (n.bare.tick env).1 = (n.tick env).1.bare := by
  have hstate : n.bare.state = n.state := rfl
  unfold tick
  rw [hstate]
  cases n.state with
  | leader =>
    simp only
    rw [apply_ite Prod.fst, apply_ite Prod.fst, apply_ite Prod.fst, apply_ite Prod.fst,
      apply_ite Output.bare, apply_ite Output.bare, bare_checkQuorum]
    rfl
  | _ =>
    simp only
    rw [apply_ite Prod.fst, apply_ite Prod.fst, apply_ite Output.bare,
      ← bare_handleElectionTimeout env hid]
    rfl

theorem bare_leaderReady (n : RaftNode) :
    n.bare.leaderReady = n.leaderReady.bare n.confState.voters := by
  have hms : n.bare.leaderReady.messages = n.leaderReady.messages := by
    show ((mapValues Progress.bare n.progress).entries.filter _).map _ = _
    rw [mapValues_entries, List.filter_map, List.map_map]
    rfl
  rw [leaderReady, leaderReady] at *
  simp only at *
  rw [hms]
  rfl

theorem bare_takeReady (n : RaftNode) :
    ({ node := n.bare.takeReady.1, ready := n.bare.takeReady.2 } : Output) =
      Output.bare { node := n.takeReady.1, ready := n.takeReady.2 } := by
  by_cases hlead : n.state = .leader
  · have hlead' : n.bare.state = .leader := hlead
    rw [takeReady_leader hlead, takeReady_leader hlead', bare_leaderReady]
    rfl
  · have hlead' : n.bare.state ≠ .leader := hlead
    rw [takeReady, takeReady, if_pos hlead, if_pos hlead']
    rfl

theorem bare_call {call : Call} (hid : n.id ∈ n.confState.voters)
    (hfrom : ∀ m ∈ call.msg, m.from_ ∈ n.confState.voters) (hspent : ¬ n.Spent call) :
    n.bare.call call = (n.call call).bare := by
  cases call with
  | tick env => exact bare_tick env hid
  | step env msg => exact bare_step env hid (hfrom msg rfl) hspent
  | ready => exact bare_takeReady n
  | readStates => rfl
  | propose data =>
    have hlead : n.bare.isLeader = n.isLeader := rfl
    rw [RaftNode.call, RaftNode.call, propose, propose, hlead]
    cases n.isLeader <;> rfl
  | readIndex ctx =>
    have hlead : n.bare.isLeader = n.isLeader := rfl
    rw [RaftNode.call, RaftNode.call, readIndex, readIndex, hlead]
    cases n.isLeader <;> rfl

end RaftNode

end Raft
end RTDB
