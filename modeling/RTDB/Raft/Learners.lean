import RTDB.Raft.Bare

/-!
# Learners

As long as no node outside the voters takes the lead, what the voters hold and send
each other keeps the invariants of a cluster of voters.  Nodes outside may stand for
election.  To the voters that is a term to follow and a vote that is spent.
-/

namespace RTDB
namespace Raft

open Quorum Runs

/-! ## Nodes outside the voters -/

namespace RaftNode

variable {n : RaftNode} {msg : Message} {o : Output} (env : Env)

/-- What a call leaves of a node that is not made a leader by answers to its
requests. -/
structure Waits (n : RaftNode) (o : Output) : Prop where
  log : o.node.log = n.log
  asks : ∀ m ∈ o.messages, m.msgType = .requestVote ∨
    m.msgType = .requestPreVote ∧ m.term = n.lastTerm

theorem Waits.silent (hlog : o.node.log = n.log) (hms : o.messages = []) : Waits n o :=
  ⟨hlog, fun m hm => absurd hm (by rw [hms]; exact List.not_mem_nil)⟩

theorem campaign_waits : Waits n (n.campaign env) := by
  refine ⟨rfl, fun m hm => Or.inl ?_⟩
  obtain ⟨peer, -, rfl⟩ := List.mem_map.mp (by simpa [Output.messages, campaign] using hm)
  rfl

theorem preCampaign_waits : Waits n (n.preCampaign env) := by
  refine ⟨rfl, fun m hm => Or.inr ?_⟩
  obtain ⟨peer, -, rfl⟩ := List.mem_map.mp (by simpa [Output.messages, preCampaign] using hm)
  exact ⟨rfl, rfl⟩

theorem tick_waits (hn : n.state ≠ .leader) : Waits n (n.tick env).1 := by
  unfold tick
  split
  · exact absurd (by assumption) hn
  · split
    · unfold handleElectionTimeout
      split
      · exact preCampaign_waits env
      · exact campaign_waits env
    · exact .silent rfl rfl

theorem handleVoteResponse_waits (htype : msg.msgType = .voteResponse)
    (hcrowned : ¬ n.Crowned msg) : Waits n (n.handleVoteResponse env msg) := by
  unfold handleVoteResponse
  split
  · exact .silent rfl rfl
  · rename_i hcounts
    rw [not_or, not_not, not_not] at hcounts
    simp only
    split
    · rename_i hquorum
      exact absurd ⟨htype, hcounts.1, hcounts.2, hquorum⟩ hcrowned
    · split
      · exact .silent rfl rfl
      · exact .silent rfl rfl

theorem handlePreVoteResponse_waits : Waits n (n.handlePreVoteResponse env msg) := by
  unfold handlePreVoteResponse
  split
  · exact .silent rfl rfl
  · simp only
    split
    · have hwaits := campaign_waits (n := n.countVote msg) env
      exact ⟨hwaits.log, hwaits.asks⟩
    · exact .silent rfl rfl

def Answers (msg : Message) : Prop :=
  msg.msgType = .voteResponse ∨ msg.msgType = .preVoteResponse

theorem step_waits (hanswers : Answers msg) (hcrowned : ¬ n.Crowned msg) :
    Waits n (n.step env msg) := by
  -- A node that steps down for the term of the message is no candidate.
  have hstill : ¬ (n.observeTerm env msg).Crowned msg := by
    intro hcrowns
    rcases Nat.lt_or_ge n.term msg.term with hterm | hterm
    · exact absurd ((observeTerm_higher env hterm).2.2.symm.trans hcrowns.2.1) (by simp)
    · rw [observeTerm_same env hterm] at hcrowns
      exact hcrowned hcrowns
  have hwaits : Waits (n.observeTerm env msg) (n.step env msg) := by
    rcases hanswers with htype | htype
    · rw [step, handle, htype]
      exact handleVoteResponse_waits env htype hstill
    · rw [step, handle, htype]
      exact handlePreVoteResponse_waits env
  have hlog := observeTerm_log env n msg
  refine ⟨hwaits.log.trans hlog, fun m hm => ?_⟩
  rcases hwaits.asks m hm with hvote | hpre
  · exact Or.inl hvote
  · rw [lastTerm, lastIndex, logTerm, hlog] at hpre
    exact Or.inr hpre

theorem call_waits {call : Call} (hn : n.state ≠ .leader) (hanswers : ∀ m ∈ call.msg, Answers m)
    (hcrowned : ∀ m ∈ call.msg, ¬ n.Crowned m) : Waits n (n.call call) := by
  have hlead : n.isLeader = false := by simpa [isLeader] using hn
  cases call with
  | tick env => exact tick_waits env hn
  | step env msg => exact step_waits env (hanswers msg rfl) (hcrowned msg rfl)
  | readStates => exact .silent rfl rfl
  | propose data =>
    rw [RaftNode.call, propose, hlead]
    exact .silent rfl rfl
  | readIndex ctx =>
    rw [RaftNode.call, readIndex, hlead]
    exact .silent rfl rfl
  | ready =>
    rw [RaftNode.call, takeReady, if_pos hn]
    exact .silent rfl rfl

/-! ## Voters asked from outside -/

/-- To the voters the call at most moves the node up to a term. -/
structure Observes (n n' : RaftNode) : Prop where
  config : n'.config = n.config
  confState : n'.confState = n.confState
  commitIndex : n'.commitIndex = n.commitIndex
  core : n'.bare.core = n.bare.core ∨ n.term < n'.term ∧ n'.bare.core =
    { n.bare.core with
      term := n'.term, votedFor := 0, state := .follower, votes := ∅, progress := ∅ }

theorem Observes.refl (n : RaftNode) : Observes n n := ⟨rfl, rfl, rfl, Or.inl rfl⟩

/-- Whoever asks for a pre-vote in term zero changes nothing. -/
theorem step_preAsked (htype : msg.msgType = .requestPreVote) (hterm : msg.term = 0) :
    Observes n (n.step env msg).node ∧ ∀ m ∈ (n.step env msg).messages,
      m.to_ = msg.from_ ∧ Answers m := by
  rw [step_same env (by omega), handle, htype]
  refine ⟨.refl n, fun m hm => ?_⟩
  have hone : m = _ := List.mem_singleton.mp hm
  rw [hone]
  exact ⟨rfl, Or.inr rfl⟩

theorem observeTerm_observes : Observes n (n.observeTerm env msg) := by
  refine ⟨observeTerm_config env n msg, observeTerm_confState env n msg,
    observeTerm_commitIndex env n msg, ?_⟩
  rcases Nat.lt_or_ge n.term msg.term with hterm | hterm
  · have hfollows := (observeTerm_higher env hterm).1
    refine Or.inr ⟨by omega, ?_⟩
    rw [hfollows, observeTerm, if_pos hterm, ← bare_becomeFollower]
    exact becomeFollower_core_of_lt env _ hterm
  · left
    rw [observeTerm_same env hterm]

theorem Observes.term_le {n' : RaftNode} (hobs : Observes n n') : n.term ≤ n'.term := by
  rcases hobs.core with hsame | ⟨hlt, -⟩
  · exact Nat.le_of_eq (congrArg Core.term hsame).symm
  · exact Nat.le_of_lt hlt

theorem Observes.wired {S : Setup} {i : NodeId} {n' : RaftNode} (hobs : Observes n n')
    (hw : Wired S i n.bare) : Wired S i n'.bare := by
  have hconf : n'.bare.confState = n.bare.confState := by
    show ConfState.new n'.confState.voters = ConfState.new n.confState.voters
    rw [hobs.confState]
  refine hw.of_eq hobs.config hconf ?_
  rcases hobs.core with hsame | ⟨-, hmoved⟩
  · exact Or.inl (congrArg Core.progress hsame)
  · exact Or.inr (congrArg Core.progress hmoved)

theorem Observes.trans {n' n'' : RaftNode} (hobs : Observes n n') (hobs' : Observes n' n'') :
    Observes n n'' := by
  refine ⟨hobs'.config.trans hobs.config, hobs'.confState.trans hobs.confState,
    hobs'.commitIndex.trans hobs.commitIndex, ?_⟩
  rcases hobs'.core with hsame | ⟨hlt, hmoved⟩
  · have hterm : n''.term = n'.term := congrArg Core.term hsame
    rw [hsame, hterm]
    exact hobs.core
  · right
    rw [hmoved]
    rcases hobs.core with hsame | ⟨hlt', hmoved'⟩
    · have hterm : n'.term = n.term := congrArg Core.term hsame
      rw [hsame]
      exact ⟨by omega, rfl⟩
    · rw [hmoved']
      exact ⟨by omega, rfl⟩

/-- A vote that goes outside is none to the voters. -/
theorem handleRequestVote_outside (houtside : msg.from_ ∉ n.confState.voters) :
    Observes n (n.handleRequestVote env msg).node := by
  unfold handleRequestVote
  split
  · exact .refl n
  · cases hgrant : n.canVote msg && n.logOk msg with
    | false => exact .refl n
    | true =>
      have hfree := (canVote_iff.mp (Bool.and_eq_true_iff.mp hgrant).1).1
      have hspent : inside n.confState.voters msg.from_ = inside n.confState.voters n.votedFor := by
        rw [inside, inside, if_neg houtside]
        rcases hfree with hnone | hsame
        · rw [hnone, ite_self]
        · rw [hsame, if_neg houtside]
      refine ⟨rfl, rfl, rfl, Or.inl ?_⟩
      show { n.bare.core with votedFor := inside n.confState.voters msg.from_ } = n.bare.core
      rw [hspent]
      rfl

theorem handleRequestVote_answers : ∀ m ∈ (n.handleRequestVote env msg).messages,
    m.to_ = msg.from_ ∧ Answers m := by
  intro m hm
  unfold handleRequestVote at hm
  split at hm
  · have hone : m = _ := List.mem_singleton.mp hm
    rw [hone]
    exact ⟨rfl, Or.inl rfl⟩
  · have hone : m = _ := List.mem_singleton.mp hm
    rw [hone]
    exact ⟨rfl, Or.inl rfl⟩

theorem step_asked (htype : msg.msgType = .requestVote) (houtside : msg.from_ ∉ n.confState.voters) :
    Observes n (n.step env msg).node ∧ ∀ m ∈ (n.step env msg).messages,
      m.to_ = msg.from_ ∧ Answers m := by
  have hconf := observeTerm_confState env n msg
  rw [step_requestVote env htype]
  exact ⟨(observeTerm_observes env).trans (handleRequestVote_outside env (by rwa [hconf])),
    handleRequestVote_answers env⟩

/-- A voter that has voted outside refuses a voter. -/
theorem step_spent (hfrom : msg.from_ ∈ n.confState.voters) (hspent : n.Spent (.step env msg)) :
    (n.step env msg).node = n ∧ ∀ m ∈ (n.step env msg).messages,
      m.msgType = .voteResponse ∧ m.reject = true := by
  obtain ⟨htype, hterm, hvote⟩ := hspent
  have hrefused : (n.canVote msg && n.logOk msg) = false := by
    by_contra hgrant
    rw [Bool.not_eq_false] at hgrant
    rcases (canVote_iff.mp (Bool.and_eq_true_iff.mp hgrant).1).1 with hnone | hsame
    · exact hvote (by rw [hnone, inside_zero])
    · exact hvote (inside_mem (by rwa [hsame]))
  rw [step_requestVote env htype, observeTerm_same env (by omega), handleRequestVote, hrefused]
  split
  · refine ⟨rfl, fun m hm => ?_⟩
    have hone : m = _ := List.mem_singleton.mp hm
    rw [hone]
    exact ⟨rfl, rfl⟩
  · refine ⟨rfl, fun m hm => ?_⟩
    have hone : m = _ := List.mem_singleton.mp hm
    rw [hone]
    exact ⟨rfl, rfl⟩

theorem call_spent {call : Call} (hfrom : ∀ m ∈ call.msg, m.from_ ∈ n.confState.voters)
    (hspent : n.Spent call) : (n.call call).node = n ∧ ∀ m ∈ (n.call call).messages,
      m.msgType = .voteResponse ∧ m.reject = true := by
  cases call with
  | step env msg => exact step_spent env (hfrom msg rfl) hspent
  | tick env => exact hspent.elim
  | propose data => exact hspent.elim
  | readIndex ctx => exact hspent.elim
  | readStates => exact hspent.elim
  | ready => exact hspent.elim

end RaftNode

open RaftNode

/-! ## The voters of a cluster -/

namespace Membership

/-- Every node starts as `new_with_conf` leaves it. -/
structure Fresh (M : Membership) : Prop where
  nonzero : 0 ∉ M.voters
  hardState : ∀ i, M.hardState i = { term := 0, votedFor := 0, commitIndex := 0 }
  log : ∀ i, M.log i = [LogEntry.new 1 0 []]

variable (M : Membership)

def setup (hnonzero : 0 ∉ M.voters) : Setup :=
  { voters := M.voters
    nonzero := hnonzero
    config := M.config
    config_id := M.config_id
    boot := M.boot }

def Inner (m : Message) : Prop := m.from_ ∈ M.voters ∧ m.to_ ∈ M.voters

instance (m : Message) : Decidable (M.Inner m) := inferInstanceAs (Decidable (_ ∧ _))

/-- A request to a voter from outside, or an answer to one. -/
def Aside (m : Message) : Prop :=
  m.from_ ∉ M.voters ∧ m.to_ ∈ M.voters ∧
      (m.msgType = .requestVote ∨ m.msgType = .requestPreVote ∧ m.term = 0) ∨
    m.from_ ∈ M.voters ∧ m.to_ ∉ M.voters ∧ Answers m

/-- The cluster as its voters see it. -/
def inner (c : Cluster) : Cluster :=
  { node := fun i => if i ∈ M.voters then (c.node i).bare
      else newWithConf (M.boot i) (M.config i) M.voters
    net := c.net.filter fun m => M.Inner m }

def Among (e : Event) : Prop := e.node ∈ M.voters ∧ ∀ m ∈ e.call.msg, m.from_ ∈ M.voters

instance (e : Event) : Decidable (M.Among e) := inferInstanceAs (Decidable (_ ∧ _))

end Membership

/-- Nodes outside the voters do not lead and have no log, and all they exchange with
voters is votes. -/
structure Calm (M : Membership) (c : Cluster) : Prop where
  polled : Polled M c
  leader : ∀ i, (c.node i).state = .leader → i ∈ M.voters
  log : ∀ i, i ∉ M.voters → (c.node i).log = [LogEntry.new 1 0 []]
  progress : ∀ i p, p ∈ (c.node i).progress → p ∈ M.voters
  wire : ∀ m ∈ c.net, M.Inner m ∨ M.Aside m

variable {M : Membership} {c : Cluster} {e : Event}

theorem calm_start (hfresh : M.Fresh) : Calm M M.start :=
  ⟨polled_start M, fun _ hlead => absurd hlead (by simp [Membership.start, restored]),
    fun i _ => hfresh.log i, fun _ _ hp => absurd hp (AList.notMem_empty _),
    fun _ hm => absurd hm List.not_mem_nil⟩

/-- Calls that voters make or answer send to voters. -/
theorem Calm.to_mem (hc : Calm M c) (hasker : ∀ m ∈ e.call.msg, m.from_ ∈ M.voters) {m : Message}
    (hm : m ∈ ((c.node e.node).call e.call).messages) : m.to_ ∈ M.voters := by
  rcases ((call_polls e.call).addressed m hm).to_ with hpeer | hkey | ⟨msg, hmsg, hto⟩
  · exact (hc.polled.mem_peers.mp hpeer).1
  · exact hc.progress e.node m.to_ hkey
  · rw [hto]
    exact hasker msg hmsg

theorem Calm.from_eq (hc : Calm M c) {m : Message}
    (hm : m ∈ ((c.node e.node).call e.call).messages) : m.from_ = e.node := by
  rw [((call_polls e.call).addressed m hm).from_, hc.polled.id_eq]

structure Asked (M : Membership) (c : Cluster) (e : Event) : Prop where
  voter : e.node ∈ M.voters
  observes : Observes (c.node e.node) ((c.node e.node).call e.call).node
  answers : ∀ m ∈ ((c.node e.node).call e.call).messages, m.to_ ∉ M.voters ∧ Answers m

/-- An event of a calm cluster is one among the voters, one that asks a voter from
outside, or one outside. -/
theorem Calm.cases (hc : Calm M c) (hsent : Sent c e) :
    M.Among e ∨ Asked M c e ∨
      e.node ∉ M.voters ∧ ∀ m ∈ e.call.msg, m.from_ ∈ M.voters ∧ Answers m := by
  by_cases hvoter : e.node ∈ M.voters
  · by_cases hasker : ∀ m ∈ e.call.msg, m.from_ ∈ M.voters
    · exact Or.inl ⟨hvoter, hasker⟩
    · simp only [not_forall] at hasker
      obtain ⟨msg, hmsg, houtside⟩ := hasker
      obtain ⟨env, rfl⟩ := Event.eq_deliver hmsg
      have hasked : Observes (c.node msg.to_) ((c.node msg.to_).step env msg).node ∧
          ∀ m ∈ ((c.node msg.to_).step env msg).messages, m.to_ = msg.from_ ∧ Answers m := by
        rcases hc.wire msg hsent with hinner | ⟨-, -, htype | ⟨htype, hterm⟩⟩ | hanswer
        · exact absurd hinner.1 houtside
        · refine step_asked env htype ?_
          rwa [hc.polled.confState]
        · exact step_preAsked env htype hterm
        · exact absurd hanswer.1 houtside
      refine Or.inr (Or.inl ⟨hvoter, hasked.1, fun m hm => ?_⟩)
      obtain ⟨hto, hanswers⟩ := hasked.2 m hm
      exact ⟨by rwa [hto], hanswers⟩
  · refine Or.inr (Or.inr ⟨hvoter, fun m hm => ?_⟩)
    obtain ⟨hmem, hto⟩ := hsent.msg hm
    rcases hc.wire m hmem with hinner | hask | hanswer
    · exact absurd (hto ▸ hinner.2) hvoter
    · exact absurd (hto ▸ hask.2.1) hvoter
    · exact ⟨hanswer.1, hanswer.2.2⟩

theorem Calm.waits (hc : Calm M c) (hcrowns : ¬ CrownsOutsider M c e) (hi : e.node ∉ M.voters)
    (hanswers : ∀ m ∈ e.call.msg, m.from_ ∈ M.voters ∧ Answers m) :
    Waits (c.node e.node) ((c.node e.node).call e.call) := by
  refine call_waits (fun hlead => hi (hc.leader _ hlead)) (fun m hm => (hanswers m hm).2)
    fun m hm hcrowned => ?_
  obtain ⟨env, rfl⟩ := Event.eq_deliver hm
  exact hcrowns ⟨hi, hcrowned⟩

theorem Calm.apply (hc : Calm M c) (hsent : Sent c e) (hcrowns : ¬ CrownsOutsider M c e) :
    Calm M (c.apply e) := by
  have hpolls := call_polls (n := c.node e.node) e.call
  have hnode := c.apply_node_self e
  have hfair := (hc.polled.fair_iff hc.leader hsent).mpr hcrowns
  refine ⟨hc.polled.apply hsent, hfair.leader, fun i hi => ?_, fun i p hp => ?_, fun m hm => ?_⟩
  · by_cases hcalled : i = e.node
    · subst hcalled
      rcases hc.cases hsent with hamong | hasked | ⟨-, hanswers⟩
      · exact absurd hamong.1 hi
      · exact absurd hasked.voter hi
      · rw [hnode, (hc.waits hcrowns hi hanswers).log]
        exact hc.log _ hi
    · rw [c.apply_node_ne e hcalled]
      exact hc.log i hi
  · by_cases hcalled : i = e.node
    · rw [hcalled, hnode] at hp
      rcases hpolls.progress p hp with hold | hpeer
      · exact hc.progress e.node p hold
      · exact (hc.polled.mem_peers.mp hpeer).1
    · rw [c.apply_node_ne e hcalled] at hp
      exact hc.progress i p hp
  · rw [c.apply_eq] at hm
    rcases List.mem_append.mp hm with hold | hnew
    · exact hc.wire m hold
    · have hself := hc.from_eq hnew
      rcases hc.cases hsent with ⟨hvoter, hasker⟩ | hasked | ⟨hi, hanswers⟩
      · exact Or.inl ⟨hself ▸ hvoter, hc.to_mem hasker hnew⟩
      · obtain ⟨hto, hanswer⟩ := hasked.answers m hnew
        exact Or.inr (Or.inr ⟨hself ▸ hasked.voter, hto, hanswer⟩)
      · have hlast : (c.node e.node).lastTerm = 0 := by
          rw [lastTerm, logTerm, lastIndex, hc.log _ hi]
          rfl
        have hasks := (hc.waits hcrowns hi hanswers).asks m hnew
        rw [hlast] at hasks
        exact Or.inr (Or.inl ⟨hself ▸ hi, hc.to_mem (fun m hm => (hanswers m hm).1) hnew, hasks⟩)

/-! ## The voters alone -/

theorem Cluster.eq_of_nodes {c c' : Cluster} (hnode : ∀ i, c.node i = c'.node i)
    (hnet : c.net = c'.net) : c = c' := by
  cases c
  cases c'
  congr
  exact funext hnode

theorem inner_node {i : NodeId} (hi : i ∈ M.voters) : (M.inner c).node i = (c.node i).bare :=
  if_pos hi

theorem inner_node_outside {i : NodeId} (hi : i ∉ M.voters) :
    (M.inner c).node i = newWithConf (M.boot i) (M.config i) M.voters :=
  if_neg hi

theorem bare_restored (env : Env) (config : Config) {state : PersistentState}
    (hvote : state.hardState.votedFor = 0) (log : List LogEntry) :
    (restored env config state log).bare =
      restored env config { state with confState := ConfState.new state.confState.voters } log := by
  show { restored env config state log with
    votedFor := inside state.confState.voters state.hardState.votedFor
    confState := ConfState.new state.confState.voters
    progress := mapValues Progress.bare ∅ } = _
  rw [hvote, inside_zero, ← hvote]
  rfl

theorem inner_start (hfresh : M.Fresh) :
    M.inner M.start = Cluster.init (M.setup hfresh.nonzero) := by
  refine Cluster.eq_of_nodes (fun i => ?_) rfl
  by_cases hi : i ∈ M.voters
  · rw [inner_node hi]
    show (restored (M.boot i) (M.config i) _ (M.log i)).bare =
      newWithConf (M.boot i) (M.config i) M.voters
    rw [hfresh.hardState, hfresh.log, bare_restored _ _ rfl, newWithConf_eq]
    rfl
  · exact inner_node_outside hi

/-- A call of a voter, as the voters see it. -/
theorem inner_update {i : NodeId} {o : Output} (hi : i ∈ M.voters) :
    M.inner (c.update i o) =
      (M.inner c).update i { node := o.node.bare, built := o.messages.filter fun m => M.Inner m } := by
  refine Cluster.eq_of_nodes (fun j => ?_) ?_
  · by_cases hj : j = i
    · subst hj
      rw [inner_node hi, Cluster.update_node_self, Cluster.update_node_self]
    · show (if j ∈ M.voters then (Function.update c.node i o.node j).bare else _) =
        Function.update (M.inner c).node i o.node.bare j
      rw [Function.update_of_ne hj, Function.update_of_ne hj]
      rfl
  · show (c.net ++ o.messages).filter _ = c.net.filter _ ++ ([] ++ o.messages.filter _)
    rw [List.filter_append, List.nil_append]

theorem inner_update_outside {i : NodeId} {o : Output} (hi : i ∉ M.voters)
    (hms : ∀ m ∈ o.messages, m.from_ = i) : M.inner (c.update i o) = M.inner c := by
  refine Cluster.eq_of_nodes (fun j => ?_) ?_
  · by_cases hj : j = i
    · subst hj
      rw [inner_node_outside hi, inner_node_outside hi]
    · show (if j ∈ M.voters then (Function.update c.node i o.node j).bare else _) = _
      rw [Function.update_of_ne hj]
      rfl
  · show (c.net ++ o.messages).filter _ = c.net.filter _
    rw [List.filter_append, List.append_right_eq_self, List.filter_eq_nil_iff]
    intro m hm hinner
    exact hi (hms m hm ▸ (of_decide_eq_true hinner).1)

/-- What the voters have and send keeps the invariants of a cluster of voters. -/
def Held (M : Membership) (hnonzero : 0 ∉ M.voters) (c : Cluster) : Prop :=
  ∃ h, Safe (M.setup hnonzero) True (M.inner c) h ∧ Backed (M.setup hnonzero) (M.inner c) h

variable {hnonzero : 0 ∉ M.voters}

theorem held_start (hfresh : M.Fresh) : Held M hfresh.nonzero M.start := by
  rw [Held, inner_start hfresh]
  exact ⟨Chronicle.init, .init _ True, .init _⟩

theorem Held.observed (hh : Held M hnonzero c) {i : NodeId} {o : Output} (hi : i ∈ M.voters)
    (hobs : Observes (c.node i) o.node) (hreports : Reports o)
    (hrefuses : ∀ m ∈ o.messages, M.Inner m → m.msgType = .voteResponse ∧ m.reject = true) :
    Held M hnonzero (c.update i o) := by
  obtain ⟨h, hs, hb⟩ := hh
  have hnode : (M.inner c).node i = (c.node i).bare := inner_node hi
  have hcore : (M.inner c).view.core i = (c.node i).bare.core := congrArg RaftNode.core hnode
  have hms : ∀ m ∈ o.messages.filter fun m => M.Inner m, m ∈ o.messages ∧ M.Inner m := by
    intro m hm
    exact ⟨(List.mem_filter.mp hm).1, of_decide_eq_true (List.mem_filter.mp hm).2⟩
  have hsend : ∀ v : View, ∀ m ∈ Output.messages
      { node := o.node.bare, built := o.messages.filter fun m => M.Inner m }, Sendable v i m := by
    intro v m hm
    obtain ⟨hmem, hinner⟩ := hms m hm
    obtain ⟨htype, hreject⟩ := hrefuses m hmem hinner
    rw [Sendable, htype]
    exact hreject
  have hrefined : Refined (M.setup hnonzero) True (M.inner c).view i
      { node := o.node.bare, built := o.messages.filter fun m => M.Inner m } := by
    rcases hobs.core with hsame | ⟨hlt, hmoved⟩
    · exact Refined.send hi (hsame.trans hcore.symm) (hsend _)
    · refine Refined.cons (m := .observe i o.node.term) o.node.bare.core ⟨hi, ?_⟩ ?_
        (Refined.send hi (View.set_core_self _ i _ _).symm (hsend _))
      · rw [hcore]
        exact hlt
      · show View.set _ i _ _ = View.set _ i _ _
        rw [hcore, hmoved]
  obtain ⟨moves, hmoves⟩ := hrefined
  rw [← Cluster.view_update] at hmoves
  obtain ⟨h', hx, helection, hlogs, hdurable⟩ := hmoves.safe hs.election hs.logs hs.durable
  have hwired : Wired (M.setup hnonzero) i o.node.bare := by
    have hbefore := hs.wired i
    rw [hnode] at hbefore
    exact hobs.wired hbefore
  rw [Held, inner_update hi]
  refine ⟨h', ⟨hs.wired.update hwired, helection, hlogs, hdurable⟩, hb.update hx ?_ ?_⟩
  · intro m hm
    exact hreports m (hms m hm).1
  · have hknown := hb.node i
    rw [hnode] at hknown
    exact (hknown.mono hx fun m hm => List.mem_append_left _ hm).le
      (Nat.le_of_eq hobs.commitIndex) hobs.term_le

theorem Cluster.update_congr (c : Cluster) (i : NodeId) {o o' : Output} (hnode : o.node = o'.node)
    (hms : o.messages = o'.messages) : c.update i o = c.update i o' := by
  rw [Cluster.update, Cluster.update, hnode, hms]

/-- The voters see an event among them as an event of a cluster of voters. -/
theorem inner_apply (hc : Calm M c) (hamong : M.Among e)
    (hunspent : ¬ (c.node e.node).Spent e.call) : M.inner (c.apply e) = (M.inner c).apply e := by
  obtain ⟨hvoter, hasker⟩ := hamong
  have hid : (c.node e.node).id ∈ (c.node e.node).confState.voters := by
    rwa [hc.polled.id_eq, hc.polled.confState]
  have hcall := bare_call hid (by rwa [hc.polled.confState]) hunspent
  rw [c.apply_eq, inner_update hvoter, (M.inner c).apply_eq, inner_node hvoter, hcall]
  refine Cluster.update_congr _ _ rfl ?_
  rw [Output.bare_messages]
  show [] ++ List.filter _ _ = _
  rw [List.nil_append, List.filter_eq_self]
  intro m hm
  exact decide_eq_true ⟨hc.from_eq hm ▸ hvoter, hc.to_mem hasker hm⟩

theorem inner_guarded (hamong : M.Among e) (hunspent : ¬ (c.node e.node).Spent e.call)
    (hg : Guarded c e) : Guarded (M.inner c) e := by
  obtain ⟨hvoter, hasker⟩ := hamong
  cases e with
  | deliver msg env =>
    obtain ⟨htail, hvote⟩ := hg
    have hto : (M.inner c).node msg.to_ = (c.node msg.to_).bare := inner_node hvoter
    have hfrom : (M.inner c).node msg.from_ = (c.node msg.from_).bare :=
      inner_node (hasker msg rfl)
    rw [Guarded, hto, bare_observeTerm]
    refine ⟨htail, fun htype hterm hgrant => ?_⟩
    have hinside := inside_observeTerm (n := c.node msg.to_) env htype hunspent
    rw [bare_canVote hinside] at hgrant
    rw [hfrom]
    exact hvote htype hterm hgrant
  | tick i env => trivial
  | propose i data => trivial
  | readIndex i ctx => trivial
  | readStates i => trivial
  | ready i => trivial

theorem inner_enabled (hnonzero : 0 ∉ M.voters) (hamong : M.Among e) (hsent : Sent c e) :
    Cluster.Enabled (M.setup hnonzero) (M.inner c) e := by
  obtain ⟨hvoter, hasker⟩ := hamong
  cases e with
  | deliver msg env =>
    exact ⟨List.mem_filter.mpr ⟨hsent, decide_eq_true ⟨hasker msg rfl, hvoter⟩⟩, hvoter⟩
  | tick i env => exact hvoter
  | propose i data => exact hvoter
  | readIndex i ctx => exact hvoter
  | readStates i => exact hvoter
  | ready i => exact hvoter

theorem Calm.held (hc : Calm M c) (hh : Held M hnonzero c) (hsent : Sent c e)
    (hguarded : M.Among e → Guarded c e) : Held M hnonzero (c.apply e) := by
  rcases hc.cases hsent with hamong | hasked | ⟨hi, -⟩
  · by_cases hspent : (c.node e.node).Spent e.call
    · obtain ⟨hnode, hrefuses⟩ := call_spent (by
        rw [hc.polled.confState]
        exact hamong.2) hspent
      rw [c.apply_eq]
      refine hh.observed hamong.1 ?_ (call_reports e.call) fun m hm _ => hrefuses m hm
      rw [hnode]
      exact .refl _
    · obtain ⟨h, hs, hb⟩ := hh
      have he := inner_enabled hnonzero hamong hsent
      have hg := inner_guarded hamong hspent (hguarded hamong)
      obtain ⟨h', hx, hs'⟩ := hs.apply he fun _ => hg
      rw [Held, inner_apply hc hamong hspent]
      exact ⟨h', hs', hb.apply hs hs' hx he⟩
  · rw [c.apply_eq]
    refine hh.observed hasked.voter hasked.observes (call_reports e.call) fun m hm hinner => ?_
    exact absurd hinner.2 (hasked.answers m hm).1
  · rw [Held, c.apply_eq, inner_update_outside hi fun m hm => hc.from_eq hm]
    exact hh

/-! ## Runs -/

/-- A leader's commit index covers only what a majority of the voters has. -/
def Covered (M : Membership) (c : Cluster) : Prop :=
  ∀ i, (c.node i).state = .leader → ∀ k, 0 < k → k ≤ (c.node i).commitIndex →
    OnMajority M.voters c i k

theorem OnMajority.of_inner {i : NodeId} {k : Nat} (hi : i ∈ M.voters)
    (hin : OnMajority M.voters (M.inner c) i k) : OnMajority M.voters c i k := by
  obtain ⟨q, hq, entry, hmine, htheirs⟩ := hin
  rw [inner_node hi] at hmine
  refine ⟨q, hq, entry, hmine, fun p hp => ?_⟩
  have hstored := htheirs p hp
  rw [inner_node (hq.subset p hp)] at hstored
  exact hstored

theorem Held.covered (hh : Held M hnonzero c) (hc : Calm M c) : Covered M c := by
  obtain ⟨h, hs, hb⟩ := hh
  intro i hlead k hpos hk
  have hi := hc.leader i hlead
  have hnode : (M.inner c).node i = (c.node i).bare := inner_node hi
  refine .of_inner hi (hb.onMajority hs ?_ hpos ?_)
  · rw [hnode]
    exact hlead
  · rw [hnode]
    exact hk

/-- Only voters lead, and leaders have a majority of the voters, as long as no vote
response gives a node outside the voters its quorum.  Then commit indices cover what
a majority has, as long as the voters keep to the guards of leader completeness. -/
theorem learners_inert (M : Membership) (es : List Event)
    (hsent : Each Cluster.apply Sent M.start es) :
    (Each Cluster.apply (Fair M) M.start es ↔
        Each Cluster.apply (fun c e => ¬ CrownsOutsider M c e) M.start es) ∧
      (M.Fresh → Each Cluster.apply
          (fun c e => ¬ CrownsOutsider M c e ∧ (M.Among e → Guarded c e)) M.start es →
        Each Cluster.apply (fun c e => Fair M c e ∧ Covered M (c.apply e)) M.start es) := by
  have hfair : Each Cluster.apply (Fair M) M.start es ↔
      Each Cluster.apply (fun c e => ¬ CrownsOutsider M c e) M.start es := by
    have hiff := each_congr (f := Cluster.apply) (s := M.start) (l := es)
      (Q := fun c => Polled M c ∧ ∀ i, (c.node i).state = .leader → i ∈ M.voters)
      (p := fun c e => Sent c e ∧ Fair M c e) (q := fun c e => Sent c e ∧ ¬ CrownsOutsider M c e)
      (fun c e hc hstep => ⟨hc.1.apply hstep.1, hstep.2.leader⟩)
      (fun c e hc => and_congr_right fun hs => hc.1.fair_iff hc.2 hs)
      ⟨polled_start M, fun i hlead => absurd hlead (by simp [Membership.start, restored])⟩
    rw [each_and, each_and] at hiff
    exact ⟨fun hfair => (hiff.mp ⟨hsent, hfair⟩).2, fun hcrowns => (hiff.mpr ⟨hsent, hcrowns⟩).2⟩
  refine ⟨hfair, fun hfresh hsteps => ?_⟩
  have hkept := (each_and.mpr ⟨hsent, hsteps⟩).kept (Q := fun c => Calm M c ∧ Held M hfresh.nonzero c)
    (fun c e hc hstep => ⟨hc.1.apply hstep.1 hstep.2.1, hc.1.held hc.2 hstep.1 hstep.2.2⟩)
    ⟨calm_start hfresh, held_start hfresh⟩
  refine each_and.mpr ⟨hfair.mpr (each_and.mp hsteps).1, fun before e after hes => ?_⟩
  obtain ⟨hcalm, hheld⟩ := hkept before e after hes
  exact hheld.covered hcalm

section Sample

/-- Voters 1, 2 and 3, and the learner 4. -/
def quartet : Membership :=
  { confState := { ConfState.new [1, 2, 3] with learners := [4] }
    config := fun i => { id := i, preVote := i = 4 }
    config_id := fun _ => rfl
    boot := fun _ => { now := 0, jitter := 0 }
    hardState := fun _ => { term := 0, votedFor := 0, commitIndex := 0 }
    log := fun _ => [LogEntry.new 1 0 []] }

theorem quartet_fresh : quartet.Fresh := ⟨by decide, fun _ => rfl, fun _ => rfl⟩

def standing : List Event :=
  [.tick 4 late, .tick 4 later,
   .deliver { msgType := .requestVote, from_ := 4, to_ := 3, term := 1, index := 1 } later]

/-- The answer is lost.  Node 1 leads that term with the vote of node 2, and commits. -/
def watched : List Event := standing ++ committing

def takeover : List Event :=
  standing ++ [.deliver { msgType := .voteResponse, from_ := 3, to_ := 4, term := 1 } later]

theorem learners_inert_watched :
    (Each Cluster.apply (Fair quartet) quartet.start watched ↔
        Each Cluster.apply (fun c e => ¬ CrownsOutsider quartet c e) quartet.start watched) ∧
      OnMajority quartet.voters (watched.foldl Cluster.apply quartet.start) 1 2 := by
  have hinert := learners_inert quartet watched (by decide)
  have hsteps : Each Cluster.apply (fun c e => ¬ CrownsOutsider quartet c e ∧
      (quartet.Among e → Guarded c e)) quartet.start watched := by decide
  have hlast := hinert.2 quartet_fresh hsteps (watched.take 10) (.deliver (answerOf 2 false) late)
    [] rfl
  exact ⟨hinert.1, hlast.2 1 (by decide) 2 (by decide) (by decide)⟩

/-- Its own vote and one of three are a quorum for the learner. -/
theorem not_learners_inert_takeover :
    ¬ ∀ (M : Membership) (es : List Event), Each Cluster.apply Sent M.start es →
      Each Cluster.apply (fun c e => Fair M c e ∧ Covered M (c.apply e)) M.start es := by
  intro hinert
  have hlast := hinert quartet takeover (by decide) standing
    (.deliver { msgType := .voteResponse, from_ := 3, to_ := 4, term := 1 } later) [] rfl
  exact absurd (hlast.1.leader 4 (by decide)) (by decide)

end Sample

end Raft
end RTDB
