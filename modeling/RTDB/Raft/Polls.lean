import RTDB.Raft.Replication

/-!
# Elections in a membership

Nodes that share a configuration of voters and learners.  Vote requests go to
voters only, so a voter that takes the lead has a majority of them.  A node outside
the voters may campaign all the same, and counts its own vote.
-/

namespace RTDB
namespace Raft

open Quorum Runs

/-- The nodes of a cluster: the configuration they share, and what each starts
with. -/
structure Membership where
  confState : ConfState
  config : NodeId → Config
  config_id : ∀ i, (config i).id = i
  boot : NodeId → Env
  hardState : NodeId → HardState
  log : NodeId → List LogEntry

namespace Membership

def voters (M : Membership) : List NodeId := M.confState.voters

def start (M : Membership) : Cluster :=
  { node := fun i => RaftNode.restored (M.boot i) (M.config i)
      { hardState := M.hardState i, confState := M.confState } (M.log i)
    net := [] }

end Membership

/-- Only messages that were sent are delivered. -/
def Sent (c : Cluster) : Event → Prop
  | .deliver msg _ => msg ∈ c.net
  | _ => True

instance (c : Cluster) : (e : Event) → Decidable (Sent c e)
  | .deliver msg _ => inferInstanceAs (Decidable (msg ∈ c.net))
  | .tick _ _ | .propose _ _ | .readIndex _ _ | .readStates _ | .ready _ => isTrue trivial

def Call.msg : Call → Option Message
  | .step _ msg => some msg
  | _ => none

namespace RaftNode

/-- The vote response that makes the node a leader. -/
def Crowned (n : RaftNode) (msg : Message) : Prop :=
  msg.msgType = .voteResponse ∧ n.state = .candidate ∧ msg.term = n.term ∧
    isQuorum n.confState.voters.length (n.countVote msg).grantedVotes = true

instance (n : RaftNode) (msg : Message) : Decidable (n.Crowned msg) :=
  inferInstanceAs (Decidable (_ ∧ _))

/-! ## What one call does -/

/-- A message names its sender, goes to a peer or back to the sender of `msg`, and
answers a vote request if it answers one. -/
structure Addressed (n : RaftNode) (msg : Option Message) (m : Message) : Prop where
  from_ : m.from_ = n.id
  to_ : m.to_ ∈ n.peers ∨ m.to_ ∈ n.progress ∨ ∃ m' ∈ msg, m.to_ = m'.from_
  request : m.msgType = .requestVote → m.to_ ∈ n.peers
  answer : m.msgType = .voteResponse → ∃ m' ∈ msg, m'.msgType = .requestVote

/-- The node is still a candidate, and has counted at most the answer `msg`. -/
structure Counts (n : RaftNode) (msg : Option Message) (n' : RaftNode) : Prop where
  state : n.state = .candidate
  term : n'.term = n.term
  votes : ∀ p, n'.votes.lookup p = some true → n.votes.lookup p = some true ∨
    ∃ m ∈ msg, m.msgType = .voteResponse ∧ m.reject = false ∧ m.from_ = p ∧ m.term = n.term

structure Polls (n : RaftNode) (msg : Option Message) (o : Output) : Prop where
  config : o.node.config = n.config
  confState : o.node.confState = n.confState
  progress : ∀ p, p ∈ o.node.progress → p ∈ n.progress ∨ p ∈ n.peers
  leader : o.node.state = .leader → n.state = .leader ∨ ∃ m ∈ msg, n.Crowned m
  candidate : o.node.state = .candidate →
    (∀ p, o.node.votes.lookup p = some true → p = n.id) ∨ Counts n msg o.node
  addressed : ∀ m ∈ o.messages, Addressed n msg m

variable {n : RaftNode} {msg : Message} {o : Output} (env : Env)

theorem Addressed.reply {m : Message} (hfrom : m.from_ = n.id) (hto : m.to_ = msg.from_)
    (htype : m.msgType ≠ .requestVote)
    (hanswer : m.msgType = .voteResponse → msg.msgType = .requestVote) :
    Addressed n (some msg) m :=
  ⟨hfrom, Or.inr (Or.inr ⟨msg, rfl, hto⟩), fun hrequest => absurd hrequest htype,
    fun hvote => ⟨msg, rfl, hanswer hvote⟩⟩

/-- A node that keeps its role and the votes it counted. -/
theorem Polls.quiet {msg : Option Message} (hconfig : o.node.config = n.config)
    (hconf : o.node.confState = n.confState) (hprogress : ∀ p, p ∈ o.node.progress → p ∈ n.progress)
    (hstate : o.node.state = n.state) (hterm : o.node.term = n.term)
    (hvotes : o.node.votes = n.votes) (hms : ∀ m ∈ o.messages, Addressed n msg m) :
    Polls n msg o := by
  refine ⟨hconfig, hconf, fun p hp => Or.inl (hprogress p hp), fun hlead => ?_, fun hcand => ?_, hms⟩
  · exact Or.inl (hstate.symm.trans hlead)
  · refine Or.inr ⟨hstate.symm.trans hcand, hterm, fun p hp => Or.inl ?_⟩
    rw [← hvotes]
    exact hp

theorem Polls.idle {msg : Option Message} (hconfig : o.node.config = n.config)
    (hconf : o.node.confState = n.confState) (hprogress : ∀ p, p ∈ o.node.progress → p ∈ n.progress)
    (hlead : o.node.state ≠ .leader) (hcand : o.node.state ≠ .candidate)
    (hms : ∀ m ∈ o.messages, Addressed n msg m) : Polls n msg o :=
  ⟨hconfig, hconf, fun p hp => Or.inl (hprogress p hp), fun h => absurd h hlead,
    fun h => absurd h hcand, hms⟩

theorem addressed_one {m : Message} {msg : Option Message} (ho : o.messages = [m])
    (hm : Addressed n msg m) : ∀ m ∈ o.messages, Addressed n msg m := by
  intro m' hm'
  rw [ho, List.mem_singleton] at hm'
  rw [hm']
  exact hm

theorem handleHeartbeat_polls : Polls n (some msg) (n.handleHeartbeat env msg) := by
  unfold handleHeartbeat
  simp only
  split
  · exact .quiet rfl rfl (fun _ hp => hp) rfl rfl rfl (by simp [Output.messages])
  · exact .quiet rfl rfl (fun _ hp => hp) rfl rfl rfl
      (addressed_one rfl (.reply rfl rfl (by simp [Message.new]) (by simp [Message.new])))

theorem handleAppendEntries_polls : Polls n (some msg) (n.handleAppendEntries env msg) := by
  unfold handleAppendEntries
  simp only
  split
  · exact .quiet rfl rfl (fun _ hp => hp) rfl rfl rfl (addressed_one rfl
      (.reply rfl rfl (by simp [Message.new, Message.withReject])
        (by simp [Message.new, Message.withReject])))
  · split
    · exact .quiet rfl rfl (fun _ hp => hp) rfl rfl rfl (addressed_one rfl
        (.reply rfl rfl (by simp [Message.new, Message.withReject])
          (by simp [Message.new, Message.withReject])))
    · exact .quiet rfl rfl (fun _ hp => hp) rfl rfl rfl
        (addressed_one rfl (.reply rfl rfl (by simp) (by simp)))

theorem mem_insert_progress {progress : NodeMap Progress} {p q : NodeId} {pr pr' : Progress}
    (hq : progress.lookup q = some pr) (hp : p ∈ progress.insert q pr') : p ∈ progress := by
  rcases (AList.mem_insert _).mp hp with rfl | hold
  · exact AList.lookup_isSome.mp (by rw [hq]; rfl)
  · exact hold

theorem advanceCommitIndex_conf (n : RaftNode) :
    n.advanceCommitIndex.config = n.config ∧ n.advanceCommitIndex.confState = n.confState := by
  unfold advanceCommitIndex
  split
  · exact ⟨rfl, rfl⟩
  · split <;> exact ⟨rfl, rfl⟩

theorem handleAppendResponse_polls : Polls n (some msg) (n.handleAppendResponse msg) := by
  unfold handleAppendResponse
  split
  · exact .quiet rfl rfl (fun _ hp => hp) rfl rfl rfl (by simp [Output.messages])
  · split
    · exact .quiet rfl rfl (fun _ hp => hp) rfl rfl rfl (by simp [Output.messages])
    · rename_i progress hprogress
      split
      · exact .quiet rfl rfl (fun _ hp => mem_insert_progress hprogress hp) rfl rfl rfl
          (by simp [Output.messages])
      · obtain ⟨hconfig, hconf⟩ := advanceCommitIndex_conf
          { n with progress := n.progress.insert msg.from_ (progress.becomeAccept msg.index) }
        have hcore := advanceCommitIndex_core
          { n with progress := n.progress.insert msg.from_ (progress.becomeAccept msg.index) }
        refine .quiet hconfig hconf (fun p hp => ?_) (congrArg Core.state hcore)
          (congrArg Core.term hcore) (congrArg Core.votes hcore) (by simp [Output.messages])
        have hkeys := congrArg Core.progress hcore
        change p ∈ RaftNode.progress _ at hp
        change RaftNode.progress _ = _ at hkeys
        rw [hkeys] at hp
        exact mem_insert_progress hprogress hp

theorem handleRequestVote_polls (htype : msg.msgType = .requestVote) :
    Polls n (some msg) (n.handleRequestVote env msg) := by
  unfold handleRequestVote
  split
  · exact .quiet rfl rfl (fun _ hp => hp) rfl rfl rfl (addressed_one rfl
      (.reply rfl rfl (by simp [Message.new, Message.withReject]) (fun _ => htype)))
  · simp only
    split
    · exact .quiet rfl rfl (fun _ hp => hp) rfl rfl rfl
        (addressed_one rfl (.reply rfl rfl (by simp) (fun _ => htype)))
    · exact .quiet rfl rfl (fun _ hp => hp) rfl rfl rfl
        (addressed_one rfl (.reply rfl rfl (by simp) (fun _ => htype)))

theorem lookup_countVote (p : NodeId) :
    (n.countVote msg).votes.lookup p = some true → n.votes.lookup p = some true ∨
      msg.reject = false ∧ msg.from_ = p := by
  intro hp
  by_cases hfrom : p = msg.from_
  · subst hfrom
    rw [countVote, AList.lookup_insert, Option.some.injEq, Bool.not_eq_true'] at hp
    exact Or.inr ⟨hp, rfl⟩
  · rw [countVote, AList.lookup_insert_ne hfrom] at hp
    exact Or.inl hp

theorem mem_initialProgress {p : NodeId} (hp : p ∈ n.initialProgress) : p ∈ n.peers := by
  by_contra hnot
  have hnone := lookup_initialProgress n p
  rw [if_neg hnot, AList.lookup_eq_none] at hnone
  exact hnone hp

theorem handleVoteResponse_polls (htype : msg.msgType = .voteResponse) :
    Polls n (some msg) (n.handleVoteResponse env msg) := by
  unfold handleVoteResponse
  split
  · exact .quiet rfl rfl (fun _ hp => hp) rfl rfl rfl (by simp [Output.messages])
  · rename_i hcand
    rw [not_or, not_not, not_not] at hcand
    simp only
    split
    · rename_i hquorum
      refine ⟨rfl, rfl, fun p hp => Or.inr (mem_initialProgress (n := n.countVote msg) hp),
        fun _ => Or.inr ⟨msg, rfl, htype, hcand.1, hcand.2, hquorum⟩,
        fun hstate => absurd hstate (by simp [becomeLeader]), fun m hm => ?_⟩
      obtain ⟨peer, hpeer, rfl⟩ := List.mem_map.mp
        (by simpa [Output.messages, buildAppendAcks] using hm)
      exact ⟨rfl, Or.inl hpeer, by simp, by simp⟩
    · split
      · refine .idle rfl rfl (fun p hp => ?_) (by simp [becomeFollower, resetElectionTimeout])
          (by simp [becomeFollower, resetElectionTimeout]) (by simp [Output.messages])
        exact absurd hp (AList.notMem_empty p)
      · refine ⟨rfl, rfl, fun p hp => Or.inl hp, fun hlead => Or.inl hlead,
          fun _ => Or.inr ⟨hcand.1, rfl, fun p hp => ?_⟩, by simp [Output.messages]⟩
        rcases lookup_countVote p hp with hold | ⟨haccept, hfrom⟩
        · exact Or.inl hold
        · exact Or.inr ⟨msg, rfl, htype, haccept, hfrom, hcand.2⟩

theorem campaign_votes {p : NodeId} (hp : (n.campaign env).node.votes.lookup p = some true) :
    p = n.id := by
  by_contra hne
  have hown : ((∅ : NodeMap Bool).insert n.id true).lookup p = some true := hp
  rw [AList.lookup_insert_ne hne, AList.lookup_empty] at hown
  exact absurd hown (by simp)

theorem campaign_polls (msg : Option Message) : Polls n msg (n.campaign env) := by
  refine ⟨rfl, rfl, fun p hp => absurd hp (AList.notMem_empty p),
    fun hlead => absurd hlead (by simp [campaign, becomeCandidate, resetElectionTimeout]),
    fun _ => Or.inl fun _ hp => campaign_votes env hp, fun m hm => ?_⟩
  obtain ⟨peer, hpeer, rfl⟩ := List.mem_map.mp (by simpa [Output.messages, campaign] using hm)
  exact ⟨rfl, Or.inl hpeer, fun _ => hpeer, by simp⟩

theorem preCampaign_polls (msg : Option Message) : Polls n msg (n.preCampaign env) := by
  refine .idle rfl rfl (fun _ hp => hp)
    (by simp [preCampaign, becomePreCandidate, resetElectionTimeout])
    (by simp [preCampaign, becomePreCandidate, resetElectionTimeout]) (fun m hm => ?_)
  obtain ⟨peer, hpeer, rfl⟩ := List.mem_map.mp (by simpa [Output.messages, preCampaign] using hm)
  exact ⟨rfl, Or.inl hpeer, by simp, by simp⟩

theorem handlePreVoteResponse_polls : Polls n (some msg) (n.handlePreVoteResponse env msg) := by
  unfold handlePreVoteResponse
  split
  · exact .quiet rfl rfl (fun _ hp => hp) rfl rfl rfl (by simp [Output.messages])
  · rename_i hpre
    rw [not_or, not_not, not_not] at hpre
    simp only
    split
    · have hcampaign := campaign_polls (n := n.countVote msg) env (some msg)
      exact ⟨rfl, rfl, hcampaign.progress,
        fun hlead => absurd hlead (by simp [campaign, becomeCandidate, resetElectionTimeout]),
        fun _ => Or.inl fun _ hp => campaign_votes (n := n.countVote msg) env hp,
        fun m hm => ⟨(hcampaign.addressed m hm).from_, (hcampaign.addressed m hm).to_,
          (hcampaign.addressed m hm).request, (hcampaign.addressed m hm).answer⟩⟩
    · refine .idle rfl rfl (fun _ hp => hp) ?_ ?_ (by simp [Output.messages])
      · show n.state ≠ .leader
        simp [hpre.1]
      · show n.state ≠ .candidate
        simp [hpre.1]

theorem handleInstallSnapshot_polls : Polls n (some msg) (n.handleInstallSnapshot env msg) := by
  unfold handleInstallSnapshot
  split
  · exact .quiet rfl rfl (fun _ hp => hp) rfl rfl rfl (by simp [Output.messages])
  · simp only
    split
    · exact .quiet rfl rfl (fun _ hp => hp) rfl rfl rfl (by simp [Output.messages])
    · exact .quiet rfl rfl (fun _ hp => hp) rfl rfl rfl
        (addressed_one rfl (.reply rfl rfl (by simp) (by simp)))

theorem handleSnapshotResponse_polls : Polls n (some msg) (n.handleSnapshotResponse msg) := by
  unfold handleSnapshotResponse
  split
  · exact .quiet rfl rfl (fun _ hp => hp) rfl rfl rfl (by simp [Output.messages])
  · split
    · exact .quiet rfl rfl (fun _ hp => hp) rfl rfl rfl (by simp [Output.messages])
    · rename_i progress hprogress
      split
      · exact .quiet rfl rfl (fun _ hp => mem_insert_progress hprogress hp) rfl rfl rfl
          (by simp [Output.messages])
      · exact .quiet rfl rfl (fun _ hp => hp) rfl rfl rfl (by simp [Output.messages])

theorem handle_polls : Polls n (some msg) (n.handle env msg) := by
  unfold handle
  split
  · exact handleHeartbeat_polls env
  · exact handleAppendEntries_polls env
  · exact handleAppendResponse_polls
  · exact handleRequestVote_polls env (by assumption)
  · exact handleVoteResponse_polls env (by assumption)
  · exact .quiet rfl rfl (fun _ hp => hp) rfl rfl rfl
      (addressed_one rfl (.reply rfl rfl (by simp) (by simp)))
  · exact handlePreVoteResponse_polls env
  · exact handleInstallSnapshot_polls env
  · exact handleSnapshotResponse_polls
  · exact .quiet rfl rfl (fun _ hp => hp) rfl rfl rfl (by simp [Output.messages])

theorem observeTerm_confState (n : RaftNode) (msg : Message) :
    (n.observeTerm env msg).confState = n.confState := by
  unfold observeTerm
  split <;> rfl

theorem observeTerm_progress {p : NodeId} (hp : p ∈ (n.observeTerm env msg).progress) :
    p ∈ n.progress := by
  rw [observeTerm] at hp
  split at hp
  · exact absurd hp (AList.notMem_empty p)
  · exact hp

/-- A node that follows a higher term is no leader when the call ends. -/
theorem step_leader_le (hlead : (n.step env msg).node.state = .leader) : msg.term ≤ n.term := by
  rcases Nat.lt_or_ge n.term msg.term with hterm | hterm
  · have hstate := (observeTerm_higher env hterm).2.2
    have hpolls : Polls (n.observeTerm env msg) (some msg) (n.step env msg) := handle_polls env
    rcases hpolls.leader hlead with hold | ⟨m, -, hcrowned⟩
    · exact absurd (hstate.symm.trans hold) (by simp)
    · exact absurd (hstate.symm.trans hcrowned.2.1) (by simp)
  · exact hterm

/-- A node that steps down for the term of a message counts nothing in that call. -/
theorem step_polls : Polls n (some msg) (n.step env msg) := by
  have hpolls : Polls (n.observeTerm env msg) (some msg) (n.step env msg) := handle_polls env
  rcases Nat.lt_or_ge n.term msg.term with hterm | hterm
  · have hstate := (observeTerm_higher env hterm).2.2
    have hid : (n.observeTerm env msg).id = n.id :=
      congrArg Config.id (observeTerm_config env n msg)
    have hconf := observeTerm_confState env n msg
    have hpeers : (n.observeTerm env msg).peers = n.peers := by
      rw [peers, peers, hconf, hid]
    refine ⟨hpolls.config.trans (observeTerm_config env n msg), hpolls.confState.trans hconf,
      fun p hp => ?_, fun hlead => ?_, fun hcand => ?_, fun m hm => ?_⟩
    · rcases hpolls.progress p hp with hold | hpeer
      · exact Or.inl (observeTerm_progress env hold)
      · exact Or.inr (hpeers ▸ hpeer)
    · exact absurd (step_leader_le env hlead) (Nat.not_le.mpr hterm)
    · rcases hpolls.candidate hcand with hown | hcounts
      · exact Or.inl fun p hp => (hown p hp).trans hid
      · exact absurd (hstate.symm.trans hcounts.state) (by simp)
    · have haddr := hpolls.addressed m hm
      refine ⟨haddr.from_.trans hid, ?_, fun hrequest => hpeers ▸ haddr.request hrequest,
        haddr.answer⟩
      rcases haddr.to_ with hpeer | hkey | hback
      · exact Or.inl (hpeers ▸ hpeer)
      · exact Or.inr (Or.inl (observeTerm_progress env hkey))
      · exact Or.inr (Or.inr hback)
  · rw [observeTerm_same env hterm] at hpolls
    exact hpolls

theorem tick_polls : Polls n none (n.tick env).1 := by
  unfold tick
  split
  · split
    · exact .quiet rfl rfl (fun _ hp => hp) rfl rfl rfl (by simp [Output.messages])
    · split
      · unfold checkQuorum
        simp only
        split
        · refine .idle rfl rfl (fun p hp => absurd hp (AList.notMem_empty p)) ?_ ?_
            (by simp [Output.messages])
          · simp [becomeFollower, resetElectionTimeout]
          · simp [becomeFollower, resetElectionTimeout]
        · exact .quiet rfl rfl (fun _ hp => hp) rfl rfl rfl (by simp [Output.messages])
      · exact .quiet rfl rfl (fun _ hp => hp) rfl rfl rfl (by simp [Output.messages])
  · split
    · unfold handleElectionTimeout
      split
      · exact preCampaign_polls env none
      · exact campaign_polls env none
    · exact .quiet rfl rfl (fun _ hp => hp) rfl rfl rfl (by simp [Output.messages])

theorem takeReady_polls : Polls n none { node := n.takeReady.1, ready := n.takeReady.2 } := by
  by_cases hlead : n.state = .leader
  · rw [takeReady_leader hlead]
    refine .quiet rfl rfl (fun _ hp => hp) rfl rfl rfl (fun m hm => ?_)
    have hmem : m ∈ n.leaderReady.messages := by simpa [Output.messages] using hm
    obtain ⟨⟨p, pr⟩, hp, rfl⟩ := List.mem_map.mp hmem
    have hlook := AList.mem_lookup_iff.mpr (List.mem_filter.mp hp).1
    have hkey : p ∈ n.progress := AList.lookup_isSome.mp (by rw [hlook]; rfl)
    unfold replicate
    split
    · exact ⟨rfl, Or.inr (Or.inl hkey), by simp, by simp⟩
    · exact ⟨rfl, Or.inr (Or.inl hkey), by simp, by simp⟩
  · rw [takeReady, if_pos hlead]
    exact .quiet rfl rfl (fun _ hp => hp) rfl rfl rfl (by simp [Output.messages])

theorem call_polls (c : Call) : Polls n c.msg (n.call c) := by
  cases c with
  | tick env => exact tick_polls env
  | step env msg => exact step_polls env
  | ready => exact takeReady_polls
  | readStates =>
    rw [call]
    exact .quiet rfl rfl (fun _ hp => hp) rfl rfl rfl (by simp [Output.messages])
  | propose data =>
    rw [call, propose]
    split <;> exact .quiet rfl rfl (fun _ hp => hp) rfl rfl rfl (by simp [Output.messages])
  | readIndex ctx =>
    rw [call, readIndex]
    split <;> exact .quiet rfl rfl (fun _ hp => hp) rfl rfl rfl (by simp [Output.messages])

theorem step_crowned_eq (hcrowned : n.Crowned msg) : n.step env msg =
    { node := (n.countVote msg).becomeLeader
      ready := some (n.countVote msg).becomeLeader.buildAppendAcks } := by
  obtain ⟨htype, hstate, hterm, hquorum⟩ := hcrowned
  have hstep : n.step env msg = n.handleVoteResponse env msg := by
    rw [step_same env (Nat.le_of_eq hterm), handle, htype]
  rw [hstep, handleVoteResponse, if_neg (by simp [hstate, hterm])]
  exact if_pos hquorum

theorem step_crowned (hcrowned : n.Crowned msg) :
    (n.step env msg).node.state = .leader ∧ (n.step env msg).node.term = n.term := by
  rw [step_crowned_eq env hcrowned]
  exact ⟨rfl, rfl⟩

end RaftNode

open RaftNode

/-! ## Elections among the voters -/

/-- `p` sent `i` its vote in the term of `i`. -/
def Granted (c : Cluster) (p i : NodeId) : Prop :=
  ∃ m ∈ c.net, m.msgType = .voteResponse ∧ m.reject = false ∧ m.from_ = p ∧ m.to_ = i ∧
    m.term = (c.node i).term

/-- Where the nodes of the membership stand: only voters are asked and answer, and a
candidate counts its own vote and those it was sent. -/
structure Polled (M : Membership) (c : Cluster) : Prop where
  config : ∀ i, (c.node i).config = M.config i
  confState : ∀ i, (c.node i).confState = M.confState
  requested : ∀ m ∈ c.net, m.msgType = .requestVote → m.to_ ∈ M.voters
  answered : ∀ m ∈ c.net, m.msgType = .voteResponse → m.from_ ∈ M.voters
  counted : ∀ i, (c.node i).state = .candidate → ∀ p, (c.node i).votes.lookup p = some true →
    p = i ∨ Granted c p i

/-- A vote response gives a node outside the voters its quorum. -/
def CrownsOutsider (M : Membership) (c : Cluster) : Event → Prop
  | .deliver msg _ => msg.to_ ∉ M.voters ∧ (c.node msg.to_).Crowned msg
  | _ => False

instance (M : Membership) (c : Cluster) : (e : Event) → Decidable (CrownsOutsider M c e)
  | .deliver msg _ => inferInstanceAs (Decidable (msg.to_ ∉ M.voters ∧ (c.node msg.to_).Crowned msg))
  | .tick _ _ | .propose _ _ | .readIndex _ _ | .readStates _ | .ready _ => isFalse id

/-- Only voters lead, and who takes the lead has a majority of the voters: its own
vote and votes that were sent to it. -/
structure Fair (M : Membership) (c : Cluster) (e : Event) : Prop where
  leader : ∀ i, ((c.apply e).node i).state = .leader → i ∈ M.voters
  won : ∀ i, (c.node i).state ≠ .leader → ((c.apply e).node i).state = .leader →
    ∃ q, Majority M.voters q ∧ ∀ p ∈ q, p = i ∨ Granted (c.apply e) p i

variable {M : Membership} {c : Cluster} {e : Event}

/-- Only a delivery hands a message to a call. -/
theorem Event.eq_deliver {msg : Message} (hmsg : msg ∈ e.call.msg) : ∃ env, e = .deliver msg env := by
  cases e with
  | deliver m env =>
    obtain rfl := Option.some.inj hmsg
    exact ⟨env, rfl⟩
  | tick i env => exact absurd hmsg (by simp [Event.call, Call.msg])
  | propose i data => exact absurd hmsg (by simp [Event.call, Call.msg])
  | readIndex i ctx => exact absurd hmsg (by simp [Event.call, Call.msg])
  | readStates i => exact absurd hmsg (by simp [Event.call, Call.msg])
  | ready i => exact absurd hmsg (by simp [Event.call, Call.msg])

theorem Sent.msg (hsent : Sent c e) {msg : Message} (hmsg : msg ∈ e.call.msg) :
    msg ∈ c.net ∧ msg.to_ = e.node := by
  obtain ⟨env, rfl⟩ := Event.eq_deliver hmsg
  exact ⟨hsent, rfl⟩

theorem polled_start (M : Membership) : Polled M M.start :=
  ⟨fun _ => rfl, fun _ => rfl, fun _ hm => absurd hm List.not_mem_nil,
    fun _ hm => absurd hm List.not_mem_nil, fun i hcand => absurd hcand (by
      simp [Membership.start, restored])⟩

theorem Polled.id_eq (hc : Polled M c) (i : NodeId) : (c.node i).id = i := by
  rw [RaftNode.id, hc.config, M.config_id]

theorem Polled.mem_peers (hc : Polled M c) {i p : NodeId} :
    p ∈ (c.node i).peers ↔ p ∈ M.voters ∧ p ≠ i := by
  rw [peers, List.mem_filter, hc.confState, hc.id_eq, Membership.voters]
  simp

/-- What was granted stays granted while the candidate stays in its term. -/
theorem Granted.apply {p i : NodeId} (hg : Granted c p i)
    (hterm : ((c.apply e).node i).term = (c.node i).term) : Granted (c.apply e) p i := by
  obtain ⟨m, hm, htype, haccept, hfrom, hto, hmterm⟩ := hg
  exact ⟨m, c.net_subset_apply e m hm, htype, haccept, hfrom, hto, hmterm.trans hterm.symm⟩

theorem Polled.apply (hc : Polled M c) (hsent : Sent c e) : Polled M (c.apply e) := by
  have hpolls := call_polls (n := c.node e.node) e.call
  have hnode := c.apply_node_self e
  have hnew : ∀ m ∈ (c.apply e).net, m ∈ c.net ∨ Addressed (c.node e.node) e.call.msg m := by
    intro m hm
    rw [c.apply_eq] at hm
    rcases List.mem_append.mp hm with hold | hsent'
    · exact Or.inl hold
    · exact Or.inr (hpolls.addressed m hsent')
  refine ⟨fun i => ?_, fun i => ?_, fun m hm htype => ?_, fun m hm htype => ?_,
    fun i hcand p hp => ?_⟩
  · by_cases hi : i = e.node
    · rw [hi, hnode, hpolls.config]
      exact hc.config e.node
    · rw [c.apply_node_ne e hi]
      exact hc.config i
  · by_cases hi : i = e.node
    · rw [hi, hnode, hpolls.confState]
      exact hc.confState e.node
    · rw [c.apply_node_ne e hi]
      exact hc.confState i
  · rcases hnew m hm with hold | haddr
    · exact hc.requested m hold htype
    · exact (hc.mem_peers.mp (haddr.request htype)).1
  · rcases hnew m hm with hold | haddr
    · exact hc.answered m hold htype
    · obtain ⟨msg, hmsg, hasked⟩ := haddr.answer htype
      obtain ⟨hmem, hto⟩ := hsent.msg hmsg
      rw [haddr.from_, hc.id_eq, ← hto]
      exact hc.requested msg hmem hasked
  · by_cases hi : i = e.node
    · subst hi
      rw [hnode] at hcand hp
      rcases hpolls.candidate hcand with hown | hcounts
      · exact Or.inl ((hown p hp).trans (hc.id_eq e.node))
      · have hterm : ((c.apply e).node e.node).term = (c.node e.node).term := by
          rw [hnode]
          exact hcounts.term
        rcases hcounts.votes p hp with hold | ⟨msg, hmsg, htype, haccept, hfrom, hmterm⟩
        · rcases hc.counted e.node hcounts.state p hold with hself | hgranted
          · exact Or.inl hself
          · exact Or.inr (hgranted.apply hterm)
        · obtain ⟨hmem, hto⟩ := hsent.msg hmsg
          have hgranted : Granted c p e.node := ⟨msg, hmem, htype, haccept, hfrom, hto, hmterm⟩
          exact Or.inr (hgranted.apply hterm)
    · have hkept := c.apply_node_ne e hi
      rw [hkept] at hcand hp
      rcases hc.counted i hcand p hp with hself | hgranted
      · exact Or.inl hself
      · exact Or.inr (hgranted.apply (by rw [hkept]))

/-- The votes that crown a voter are those of a majority of the voters. -/
theorem Polled.majority (hc : Polled M c) {msg : Message} (hmem : msg ∈ c.net)
    (hcrowned : (c.node msg.to_).Crowned msg) (hvoter : msg.to_ ∈ M.voters) :
    ∃ q, Majority M.voters q ∧ ∀ p ∈ q, p = msg.to_ ∨ Granted c p msg.to_ := by
  obtain ⟨htype, hstate, hterm, hquorum⟩ := hcrowned
  have hvotes : ∀ p ∈ passing ((c.node msg.to_).countVote msg).votes fun granted => granted,
      p = msg.to_ ∨ Granted c p msg.to_ := by
    intro p hp
    obtain ⟨_, hlook, rfl⟩ := (mem_passing _ _).mp hp
    rcases lookup_countVote p hlook with hold | ⟨haccept, hfrom⟩
    · exact hc.counted msg.to_ hstate p hold
    · exact Or.inr ⟨msg, hmem, htype, haccept, hfrom, rfl, hterm⟩
  refine ⟨_, ⟨fun p hp => ?_, ?_⟩, hvotes⟩
  · rcases hvotes p hp with rfl | ⟨m, hm, hanswer, -, rfl, -⟩
    · exact hvoter
    · exact hc.answered m hm hanswer
  · rw [Membership.voters, ← hc.confState msg.to_]
    exact quorum_granted hquorum

/-- An event is fair exactly when it crowns no node outside the voters. -/
theorem Polled.fair_iff (hc : Polled M c) (hlead : ∀ i, (c.node i).state = .leader → i ∈ M.voters)
    (hsent : Sent c e) : Fair M c e ↔ ¬ CrownsOutsider M c e := by
  constructor
  · intro hfair hcrowns
    cases e with
    | deliver msg env =>
      obtain ⟨houtside, hcrowned⟩ := hcrowns
      refine houtside (hfair.leader msg.to_ ?_)
      rw [c.apply_deliver]
      exact (step_crowned env hcrowned).1
    | tick _ _ => exact hcrowns
    | propose _ _ => exact hcrowns
    | readIndex _ _ => exact hcrowns
    | readStates _ => exact hcrowns
    | ready _ => exact hcrowns
  · intro hcrowns
    -- Who takes the lead has just been crowned, and is a voter.
    have hnew : ∀ i, (c.node i).state ≠ .leader → ((c.apply e).node i).state = .leader →
        ∃ msg env, e = .deliver msg env ∧ msg.to_ = i ∧ msg.to_ ∈ M.voters ∧
          (c.node msg.to_).Crowned msg := by
      intro i hbefore hafter
      by_cases hi : i = e.node
      · subst hi
        rw [c.apply_node_self] at hafter
        rcases (call_polls e.call).leader hafter with hold | ⟨msg, hmsg, hcrowned⟩
        · exact absurd hold hbefore
        · obtain ⟨env, rfl⟩ := Event.eq_deliver hmsg
          refine ⟨msg, env, rfl, rfl, ?_, hcrowned⟩
          by_contra houtside
          exact hcrowns ⟨houtside, hcrowned⟩
      · rw [c.apply_node_ne e hi] at hafter
        exact absurd hafter hbefore
    refine ⟨fun i hafter => ?_, fun i hbefore hafter => ?_⟩
    · by_cases hbefore : (c.node i).state = .leader
      · exact hlead i hbefore
      · obtain ⟨msg, env, -, rfl, hvoter, -⟩ := hnew i hbefore hafter
        exact hvoter
    · obtain ⟨msg, env, rfl, rfl, hvoter, hcrowned⟩ := hnew i hbefore hafter
      obtain ⟨q, hq, hvotes⟩ := hc.majority hsent hcrowned hvoter
      refine ⟨q, hq, fun p hp => ?_⟩
      rcases hvotes p hp with hself | hgranted
      · exact Or.inl hself
      · refine Or.inr (hgranted.apply ?_)
        rw [c.apply_deliver]
        exact (step_crowned env hcrowned).2

/-! ## Who talks to whom -/

variable {S : Setup}

/-- Voters talk to each other, and nobody to itself. -/
structure Routed (S : Setup) (c : Cluster) : Prop where
  wired : c.Wired S
  net : ∀ m ∈ c.net, m.from_ ∈ S.voters ∧ m.to_ ≠ m.from_

theorem Routed.init (S : Setup) : Routed S (Cluster.init S) :=
  ⟨Wired.init S, fun _ hm => absurd hm List.not_mem_nil⟩

theorem Cluster.Enabled.sent (he : Cluster.Enabled S c e) : Sent c e := by
  cases e with
  | deliver msg env => exact he.1
  | tick i env => trivial
  | propose i data => trivial
  | readIndex i ctx => trivial
  | readStates i => trivial
  | ready i => trivial

theorem Routed.apply (hc : Routed S c) (he : Cluster.Enabled S c e) : Routed S (c.apply e) := by
  refine ⟨hc.wired.apply e, fun m hm => ?_⟩
  rw [c.apply_eq] at hm
  rcases List.mem_append.mp hm with hold | hnew
  · exact hc.net m hold
  · have hwired := hc.wired e.node
    have haddr := (call_polls e.call).addressed m hnew
    rw [haddr.from_, hwired.id_eq]
    refine ⟨he.node_mem, ?_⟩
    rcases haddr.to_ with hpeer | hkey | ⟨msg, hmsg, hto⟩
    · exact (hwired.mem_peers.mp hpeer).2
    · intro hself
      rw [hself, ← AList.lookup_isSome, hwired.self] at hkey
      exact absurd hkey (by simp)
    · obtain ⟨hmem, hdest⟩ := he.sent.msg hmsg
      rw [hto, ← hdest]
      exact (hc.net msg hmem).2.symm

theorem Routed.after {es : List Event} (hv : Cluster.Valid S (Cluster.init S) es) (k : Nat) :
    Routed S (Cluster.after S es k) := by
  induction k with
  | zero => exact .init S
  | succ k ih =>
    by_cases hk : k < es.length
    · rw [Cluster.after_succ hk]
      exact ih.apply (hv.enabled hk)
    · rw [Cluster.after_of_le (by omega)]
      exact ih

end Raft
end RTDB
