import RTDB.Lib.Runs
import RTDB.Raft.Refine

/-!
# Persisting before answering

A node is started again from the hard state that it last handed out.  A change
of term or vote that it did not hand out is then forgotten: the term of a
message other than a vote request, and the term and vote of every campaign.
-/

namespace RTDB
namespace Raft

open Runs

/-! ## Starting from storage -/

structure PersistentState where
  hardState : HardState
  confState : ConfState
  deriving DecidableEq, Repr

/-- What a node reads when it starts.  No limit stands for `usize::MAX`. -/
structure Storage (ε : Type) where
  initialState : Except ε PersistentState
  entries : Nat → Nat → Option Nat → Except ε (List LogEntry)
  firstIndex : Except ε Nat
  lastIndex : Except ε Nat

def Storage.log {ε : Type} (store : Storage ε) (firstIndex lastIndex : Nat) :
    Except ε (List LogEntry) :=
  if lastIndex ≥ firstIndex then store.entries firstIndex (lastIndex + 1) none else .ok []

namespace RaftNode

variable {ε : Type}

/-- The node `new` builds from what it has read. -/
def restored (env : Env) (config : Config) (state : PersistentState) (log : List LogEntry) :
    RaftNode :=
  { config
    term := state.hardState.term
    votedFor := state.hardState.votedFor
    log
    commitIndex := state.hardState.commitIndex
    lastApplied := state.hardState.commitIndex
    progress := ∅
    state := .follower
    leaderId := 0
    electionTimeout :=
      randomElectionTimeout env config.electionTimeoutMin config.electionTimeoutMax
    lastElectionReset := env.now
    lastHeartbeat := env.now
    votes := ∅
    readStates := []
    pendingReads := []
    pendingSnapshot := none
    quorumRecentlyActive := true
    confState := state.confState
    inJointConsensus := false }

def new (env : Env) (config : Config) (store : Storage ε) : Except ε RaftNode := do
  let initialState ← store.initialState
  let firstIndex ← store.firstIndex
  let lastIndex ← store.lastIndex
  let log ← store.log firstIndex lastIndex
  return restored env config initialState log

theorem bind_ok {α β : Type} {x : Except ε α} {f : α → Except ε β} {b : β}
    (h : x >>= f = .ok b) : ∃ a, x = .ok a ∧ f a = .ok b := by
  cases x with
  | error e => cases h
  | ok a => exact ⟨a, rfl, h⟩

theorem new_ok {env : Env} {config : Config} {store : Storage ε} {n : RaftNode}
    (hnew : new env config store = .ok n) :
    ∃ state log, store.initialState = .ok state ∧ n = restored env config state log := by
  obtain ⟨state, hstate, hnew⟩ := bind_ok hnew
  obtain ⟨firstIndex, -, hnew⟩ := bind_ok hnew
  obtain ⟨lastIndex, -, hnew⟩ := bind_ok hnew
  obtain ⟨log, -, hnew⟩ := bind_ok hnew
  exact ⟨state, log, hstate, (Except.ok.inj hnew).symm⟩

/-- `new_with_conf` starts like storage that holds one no-op. -/
theorem newWithConf_eq (env : Env) (config : Config) (voters : List NodeId) :
    newWithConf env config voters = restored env config
      { hardState := { term := 0, votedFor := 0, commitIndex := 0 }
        confState := ConfState.new voters } [LogEntry.new 1 0 []] := rfl

end RaftNode

/-! ## What a call hands out -/

namespace Output

/-- The hard state of the ready. -/
def hardState (o : Output) : Option HardState := o.ready.bind Ready.hardState

/-- The responses that grant a vote. -/
def grants (o : Output) : List Message :=
  o.messages.filter fun m => m.msgType = .voteResponse && !m.reject

/-- The votes a call of node `n` casts, each in its term: those it grants, and its
own when it begins a campaign. -/
def cast (n : RaftNode) (o : Output) : List (Nat × NodeId) :=
  o.grants.map (fun m => (m.term, m.to_)) ++
    if n.term < o.node.term ∧ o.node.state = .candidate then [(o.node.term, o.node.id)] else []

theorem grants_eq_nil {o : Output} (hms : ∀ m ∈ o.messages, m.msgType ≠ .voteResponse) :
    o.grants = [] := by
  rw [grants, List.filter_eq_nil_iff]
  intro m hm
  simp [hms m hm]

end Output

namespace RaftNode

variable {n : RaftNode} {msg : Message} {o : Output} (env : Env)

/-- The pre-vote response that makes the node a candidate. -/
def PreElected (n : RaftNode) (msg : Message) : Prop :=
  msg.msgType = .preVoteResponse ∧ n.state = .preCandidate ∧ msg.term = n.term ∧
    isQuorum n.confState.voters.length (n.countVote msg).grantedVotes = true

instance (n : RaftNode) (msg : Message) : Decidable (n.PreElected msg) :=
  inferInstanceAs (Decidable (_ ∧ _))

/-- A new term or vote is handed out. -/
def Persists (n : RaftNode) (o : Output) : Prop :=
  o.node.term ≠ n.term ∨ o.node.votedFor ≠ n.votedFor → o.hardState = some o.node.hardState

instance (n : RaftNode) (o : Output) : Decidable (n.Persists o) :=
  inferInstanceAs (Decidable (_ → _))

/-- The call stays in the term.  A vote is cast by an answer to who asks for it, and
the ready hands it out. -/
structure Stays (asks : NodeId → Prop) (n : RaftNode) (o : Output) : Prop where
  config : o.node.config = n.config
  term : o.node.term = n.term
  state : o.node.state = .candidate → n.state = .candidate
  hardState : o.hardState = none ∨ o.hardState = some o.node.hardState
  vote : o.node.votedFor = n.votedFor ∨
    n.votedFor = 0 ∧ n.id ≠ 0 ∧ o.hardState = some o.node.hardState
  grants : ∀ m ∈ o.grants, asks m.to_ ∧ m.term = o.node.term ∧ m.to_ = o.node.votedFor ∧
    o.hardState = some o.node.hardState

/-- The call begins a campaign, and hands out nothing. -/
structure Campaigns (n : RaftNode) (o : Output) : Prop where
  config : o.node.config = n.config
  term : o.node.term = n.term + 1
  votedFor : o.node.votedFor = n.id
  hardState : o.hardState = none
  grants : o.grants = []

variable {asks : NodeId → Prop}

theorem Stays.silent (hconfig : o.node.config = n.config) (hterm : o.node.term = n.term)
    (hvote : o.node.votedFor = n.votedFor) (hstate : o.node.state = .candidate → n.state = .candidate)
    (hready : o.hardState = none ∨ o.hardState = some o.node.hardState)
    (hms : ∀ m ∈ o.messages, m.msgType ≠ .voteResponse ∨ m.reject = true) : Stays asks n o := by
  refine ⟨hconfig, hterm, hstate, hready, Or.inl hvote, fun m hm => ?_⟩
  obtain ⟨hmem, hgrant⟩ := List.mem_filter.mp hm
  rcases hms m hmem with htype | hreject
  · simp [htype] at hgrant
  · simp [hreject] at hgrant

theorem handleHeartbeat_stays : Stays asks n (n.handleHeartbeat env msg) := by
  unfold handleHeartbeat
  simp only
  split <;> exact .silent rfl rfl rfl (fun hs => hs) (Or.inl rfl) (by simp [Output.messages, Message.new])

theorem handleAppendEntries_stays : Stays asks n (n.handleAppendEntries env msg) := by
  unfold handleAppendEntries
  simp only
  split
  · exact .silent rfl rfl rfl (fun hs => hs) (Or.inl rfl)
      (by simp [Output.messages, Message.new, Message.withReject])
  · split <;> exact .silent rfl rfl rfl (fun hs => hs) (Or.inl rfl)
      (by simp [Output.messages, Message.new, Message.withReject])

theorem advanceCommitIndex_config (n : RaftNode) : n.advanceCommitIndex.config = n.config := by
  unfold advanceCommitIndex
  split
  · rfl
  · split <;> rfl

theorem handleAppendResponse_stays : Stays asks n (n.handleAppendResponse msg) := by
  unfold handleAppendResponse
  split
  · exact .silent rfl rfl rfl (fun hs => hs) (Or.inl rfl) (by simp [Output.messages])
  · split
    · exact .silent rfl rfl rfl (fun hs => hs) (Or.inl rfl) (by simp [Output.messages])
    · rename_i progress _
      split
      · exact .silent rfl rfl rfl (fun hs => hs) (Or.inl rfl) (by simp [Output.messages])
      · have hcore := advanceCommitIndex_core
          { n with progress := n.progress.insert msg.from_ (progress.becomeAccept msg.index) }
        refine .silent (advanceCommitIndex_config _) (congrArg Core.term hcore)
          (congrArg Core.votedFor hcore) (fun hs => ?_) (Or.inl rfl) (by simp [Output.messages])
        exact (congrArg Core.state hcore).symm.trans hs

/-- Only a node without a vote in the term, or with one for the same candidate,
grants it, and it hands the vote out with the answer. -/
theorem handleRequestVote_stays :
    Stays (fun c => c = msg.from_) n (n.handleRequestVote env msg) := by
  unfold handleRequestVote
  split
  · exact .silent rfl rfl rfl (fun hs => hs) (Or.inl rfl)
      (by simp [Output.messages, Message.new, Message.withReject])
  · simp only
    cases hgrant : n.canVote msg && n.logOk msg with
    | false =>
      exact .silent rfl rfl rfl (fun hs => hs) (Or.inr rfl) (by simp [Output.messages])
    | true =>
      obtain ⟨hfree, hown⟩ := canVote_iff.mp (Bool.and_eq_true_iff.mp hgrant).1
      refine ⟨rfl, rfl, fun hs => hs, Or.inr rfl, ?_, fun m hm => ?_⟩
      · rcases hfree with hnone | hsame
        · exact Or.inr ⟨hnone, fun hid => hown (hnone.trans hid.symm), rfl⟩
        · exact Or.inl hsame.symm
      · have hmem := (List.mem_filter.mp hm).1
        simp only [Output.messages, Option.map_some, Option.getD_some, List.append_nil,
          List.mem_singleton] at hmem
        rw [hmem]
        exact ⟨rfl, rfl, rfl, rfl⟩

theorem handleVoteResponse_stays : Stays asks n (n.handleVoteResponse env msg) := by
  unfold handleVoteResponse
  split
  · exact .silent rfl rfl rfl (fun hs => hs) (Or.inl rfl) (by simp [Output.messages])
  · rename_i hcand
    rw [not_or, not_not] at hcand
    simp only
    split
    · refine .silent rfl rfl rfl (fun _ => hcand.1) (Or.inr rfl) ?_
      simp [Output.messages, buildAppendAcks]
    · split
      · refine .silent rfl rfl ?_ (fun _ => hcand.1) (Or.inl rfl) (by simp [Output.messages])
        simp [becomeFollower, resetElectionTimeout, reset, countVote]
      · exact .silent rfl rfl rfl (fun hs => hs) (Or.inl rfl) (by simp [Output.messages])

theorem handleRequestPreVote_stays : Stays asks n (n.handleRequestPreVote env msg) :=
  .silent rfl rfl rfl (fun hs => hs) (Or.inl rfl) (by simp [Output.messages, handleRequestPreVote])

theorem handleInstallSnapshot_stays : Stays asks n (n.handleInstallSnapshot env msg) := by
  unfold handleInstallSnapshot
  split
  · exact .silent rfl rfl rfl (fun hs => hs) (Or.inl rfl) (by simp [Output.messages])
  · simp only
    split <;> exact .silent rfl rfl rfl (fun hs => hs) (Or.inl rfl) (by simp [Output.messages])

theorem handleSnapshotResponse_stays : Stays asks n (n.handleSnapshotResponse msg) := by
  unfold handleSnapshotResponse
  split
  · exact .silent rfl rfl rfl (fun hs => hs) (Or.inl rfl) (by simp [Output.messages])
  · split
    · exact .silent rfl rfl rfl (fun hs => hs) (Or.inl rfl) (by simp [Output.messages])
    · split <;> exact .silent rfl rfl rfl (fun hs => hs) (Or.inl rfl) (by simp [Output.messages])

theorem campaign_campaigns : Campaigns n (n.campaign env) := by
  refine ⟨rfl, rfl, rfl, rfl, Output.grants_eq_nil fun m hm => ?_⟩
  obtain ⟨peer, -, rfl⟩ := List.mem_map.mp (by simpa [Output.messages, campaign] using hm)
  simp

theorem handle_campaigns (helected : n.PreElected msg) : Campaigns n (n.handle env msg) := by
  obtain ⟨htype, hstate, hterm, hquorum⟩ := helected
  have hhandle : n.handle env msg = (n.countVote msg).campaign env := by
    rw [handle, htype]
    show n.handlePreVoteResponse env msg = _
    rw [handlePreVoteResponse, if_neg (by simp [hstate, hterm])]
    exact if_pos hquorum
  rw [hhandle]
  have hcount := campaign_campaigns (n := n.countVote msg) env
  exact ⟨hcount.config, hcount.term, hcount.votedFor, hcount.hardState, hcount.grants⟩

def Asks (msg : Message) (c : NodeId) : Prop := msg.msgType = .requestVote ∧ c = msg.from_

theorem handle_stays (helected : ¬ n.PreElected msg) :
    Stays (Asks msg) n (n.handle env msg) := by
  unfold handle
  split
  · exact handleHeartbeat_stays env
  · exact handleAppendEntries_stays env
  · exact handleAppendResponse_stays
  · rename_i htype
    have hstays : Stays (fun c => c = msg.from_) n (n.handleRequestVote env msg) :=
      handleRequestVote_stays env
    exact ⟨hstays.config, hstays.term, hstays.state, hstays.hardState, hstays.vote,
      fun m hm => ⟨⟨htype, (hstays.grants m hm).1⟩, (hstays.grants m hm).2⟩⟩
  · exact handleVoteResponse_stays env
  · exact handleRequestPreVote_stays env
  · rename_i htype
    unfold handlePreVoteResponse
    split
    · exact .silent rfl rfl rfl (fun hs => hs) (Or.inl rfl) (by simp [Output.messages])
    · rename_i hcounts
      rw [not_or, not_not, not_not] at hcounts
      have hquorum : ¬ isQuorum (n.countVote msg).confState.voters.length
          (n.countVote msg).grantedVotes = true :=
        fun hquorum => helected ⟨htype, hcounts.1, hcounts.2, hquorum⟩
      simp only
      rw [if_neg hquorum]
      exact .silent rfl rfl rfl (fun hs => hs) (Or.inl rfl) (by simp [Output.messages])
  · exact handleInstallSnapshot_stays env
  · exact handleSnapshotResponse_stays
  · exact .silent rfl rfl rfl (fun hs => hs) (Or.inl rfl) (by simp [Output.messages])

/-! ## One message -/

theorem observeTerm_config (n : RaftNode) (msg : Message) :
    (n.observeTerm env msg).config = n.config := by
  unfold observeTerm
  split <;> rfl

theorem observeTerm_same (hle : msg.term ≤ n.term) : n.observeTerm env msg = n := by
  rw [observeTerm, if_neg (Nat.not_lt.mpr hle)]

theorem step_same (hle : msg.term ≤ n.term) : n.step env msg = n.handle env msg := by
  rw [step, observeTerm_same env hle]

theorem observeTerm_higher (hterm : msg.term > n.term) :
    (n.observeTerm env msg).term = msg.term ∧ (n.observeTerm env msg).votedFor = 0 ∧
      (n.observeTerm env msg).state = .follower := by
  have hcore := becomeFollower_core_of_lt env
    (if msg.msgType = .appendEntries then msg.from_ else 0) hterm
  rw [observeTerm, if_pos hterm]
  exact ⟨congrArg Core.term hcore, congrArg Core.votedFor hcore, congrArg Core.state hcore⟩

theorem step_stays (hterm : msg.term > n.term) :
    Stays (Asks msg) (n.observeTerm env msg) (n.step env msg) := by
  refine handle_stays env fun helected => ?_
  have hstate := (observeTerm_higher env hterm).2.2.symm.trans helected.2.1
  exact absurd hstate (by simp)

/-- A follower hands out a hard state only when it is asked for its vote. -/
theorem handle_hardState_follower (hstate : n.state = .follower) (htype : msg.msgType ≠ .requestVote) :
    (n.handle env msg).hardState = none := by
  unfold handle
  split
  · unfold handleHeartbeat
    simp only
    split <;> rfl
  · unfold handleAppendEntries
    simp only
    split
    · rfl
    · split <;> rfl
  · rw [handleAppendResponse, if_pos (by simp [hstate])]
    rfl
  · rename_i hvote
    exact absurd hvote htype
  · rw [handleVoteResponse, if_pos (by simp [hstate])]
    rfl
  · rfl
  · rw [handlePreVoteResponse, if_pos (by simp [hstate])]
    rfl
  · unfold handleInstallSnapshot
    split
    · rfl
    · simp only
      split <;> rfl
  · rw [handleSnapshotResponse, if_pos (by simp [hstate])]
    rfl
  · rfl

theorem handleRequestVote_hardState (hterm : ¬ msg.term < n.term) :
    (n.handleRequestVote env msg).hardState = some (n.handleRequestVote env msg).node.hardState := by
  rw [handleRequestVote, if_neg hterm]
  rfl

theorem step_requestVote (htype : msg.msgType = .requestVote) :
    n.step env msg = (n.observeTerm env msg).handleRequestVote env msg := by
  rw [step, handle, htype]

/-- A granted vote is on the wire. -/
theorem mem_grants (hterm : ¬ msg.term < n.term) (hgrant : (n.canVote msg && n.logOk msg) = true) :
    ({ msgType := .voteResponse, from_ := n.id, to_ := msg.from_, term := n.term } : Message) ∈
      (n.handleRequestVote env msg).grants := by
  rw [handleRequestVote, if_neg hterm]
  simp [Output.grants, Output.messages, hgrant, resetElectionTimeout, id]

/-- When a message hands out the term and vote it brings about: exactly when it
is of no higher term or asks for the vote, and wins no pre-election. -/
theorem persists_iff (n : RaftNode) (msg : Message) :
    n.Persists (n.step env msg) ↔
      (msg.term ≤ n.term ∨ msg.msgType = .requestVote) ∧ ¬ n.PreElected msg := by
  rcases Nat.lt_or_ge n.term msg.term with hterm | hterm
  · have hobserve := observeTerm_higher env hterm
    have hstays := step_stays env hterm
    have hnew : (n.step env msg).node.term ≠ n.term := by
      rw [hstays.term, hobserve.1]
      omega
    have hnot : ¬ n.PreElected msg := by
      intro helected
      have heq := helected.2.2.1
      omega
    constructor
    · intro hpersists
      refine ⟨Or.inr ?_, hnot⟩
      by_contra htype
      have hnone := handle_hardState_follower env hobserve.2.2 htype
      have hsome := hpersists (Or.inl hnew)
      rw [step, hnone] at hsome
      exact absurd hsome (by simp)
    · rintro ⟨hle | htype, -⟩ -
      · omega
      · have hterm : ¬ msg.term < (n.observeTerm env msg).term := by
          rw [hobserve.1]
          omega
        rw [step_requestVote env htype]
        exact handleRequestVote_hardState env hterm
  · rw [step_same env hterm]
    by_cases helected : n.PreElected msg
    · have hcampaigns := handle_campaigns env helected
      constructor
      · intro hpersists
        have hsome := hpersists (Or.inl (by rw [hcampaigns.term]; omega))
        rw [hcampaigns.hardState] at hsome
        exact absurd hsome (by simp)
      · exact fun hcond => absurd helected hcond.2
    · have hstays := handle_stays env helected
      refine ⟨fun _ => ⟨Or.inl hterm, helected⟩, fun _ hchanged => ?_⟩
      rcases hchanged with hchanged | hchanged
      · exact absurd hstays.term hchanged
      · rcases hstays.vote with hkept | ⟨-, -, hsome⟩
        · exact absurd hkept hchanged
        · exact hsome

/-! ## One call -/

/-- What a call of node `n` does to its vote, and which votes it casts. -/
structure Ballots (n : RaftNode) (o : Output) : Prop where
  config : o.node.config = n.config
  le : n.term ≤ o.node.term
  vote : o.node.term = n.term → o.node.votedFor = n.votedFor ∨ n.votedFor = 0 ∧ n.id ≠ 0
  cast : ∀ v ∈ o.cast n, v.1 = o.node.term ∧ v.2 = o.node.votedFor ∧ (v.2 = 0 → n.id = 0) ∧
    (o.hardState = some o.node.hardState ∨ n.term < o.node.term)
  hardState : ∀ h, o.hardState = some h → h = o.node.hardState

theorem Campaigns.ballots (hcampaigns : Campaigns n o) : Ballots n o := by
  have hterm := hcampaigns.term
  refine ⟨hcampaigns.config, by omega, fun hsame => by omega, fun v hv => ?_, fun h hh => ?_⟩
  · rw [Output.cast, hcampaigns.grants, List.map_nil, List.nil_append] at hv
    split at hv
    · rw [List.mem_singleton.mp hv]
      have hid : o.node.id = n.id := congrArg Config.id hcampaigns.config
      refine ⟨rfl, hid.trans hcampaigns.votedFor.symm, fun hzero => hid.symm.trans hzero, ?_⟩
      exact Or.inr (by omega)
    · exact absurd hv List.not_mem_nil
  · rw [hcampaigns.hardState] at hh
    exact absurd hh (by simp)

/-- A call that stays in its term, behind the preamble that may have entered it. -/
theorem Stays.ballots {n₁ : RaftNode} (hstays : Stays asks n₁ o) (hconfig : n₁.config = n.config)
    (hentered : n₁ = n ∨ n.term < n₁.term ∧ n₁.state = .follower)
    (hasks : ∀ c, asks c → c ≠ 0) : Ballots n o := by
  have hterm := hstays.term
  refine ⟨hstays.config.trans hconfig, ?_, fun hsame => ?_, fun v hv => ?_, fun h hh => ?_⟩
  · rcases hentered with rfl | ⟨hlt, -⟩ <;> omega
  · rcases hentered with rfl | ⟨hlt, -⟩
    · rcases hstays.vote with hkept | ⟨hnone, hid, -⟩
      · exact Or.inl hkept
      · exact Or.inr ⟨hnone, hid⟩
    · omega
  · rcases List.mem_append.mp hv with hgrant | hown
    · obtain ⟨m, hm, rfl⟩ := List.mem_map.mp hgrant
      obtain ⟨hasked, hmterm, hto, hsome⟩ := hstays.grants m hm
      exact ⟨hmterm, hto, fun hzero => absurd hzero (hasks _ hasked), Or.inl hsome⟩
    · -- A node that stays in its term begins no campaign.
      split at hown
      · rename_i hbegun
        have hcandidate := hstays.state hbegun.2
        rcases hentered with rfl | ⟨-, hfollower⟩
        · omega
        · exact absurd (hfollower.symm.trans hcandidate) (by simp)
      · exact absurd hown List.not_mem_nil
  · rcases hstays.hardState with hnone | hsome
    · rw [hnone] at hh
      exact absurd hh (by simp)
    · exact (Option.some.inj (hsome.symm.trans hh)).symm

theorem step_ballots (hasked : msg.msgType = .requestVote → msg.from_ ≠ 0) :
    Ballots n (n.step env msg) := by
  have hasks : ∀ c, Asks msg c → c ≠ 0 := by
    rintro c ⟨htype, rfl⟩
    exact hasked htype
  rcases Nat.lt_or_ge n.term msg.term with hterm | hterm
  · obtain ⟨hentered, -, hstate⟩ := observeTerm_higher env hterm
    exact (step_stays env hterm).ballots (observeTerm_config env n msg)
      (Or.inr ⟨by omega, hstate⟩) hasks
  · rw [step_same env hterm]
    by_cases helected : n.PreElected msg
    · exact (handle_campaigns env helected).ballots
    · exact (handle_stays env helected).ballots rfl (Or.inl rfl) hasks

theorem Ballots.silent (hconfig : o.node.config = n.config) (hterm : o.node.term = n.term)
    (hvote : o.node.votedFor = n.votedFor) (hstate : o.node.state = .candidate → n.state = .candidate)
    (hready : o.hardState = none ∨ o.hardState = some o.node.hardState)
    (hms : ∀ m ∈ o.messages, m.msgType ≠ .voteResponse) : Ballots n o := by
  have hstays : Stays (fun _ => False) n o :=
    .silent hconfig hterm hvote hstate hready fun m hm => Or.inl (hms m hm)
  exact hstays.ballots rfl (Or.inl rfl) fun _ hfalse => hfalse.elim

theorem tick_ballots (n : RaftNode) : Ballots n (n.tick env).1 := by
  unfold tick
  split
  · split
    · exact .silent rfl rfl rfl (fun hs => hs) (Or.inl rfl) (by simp [Output.messages])
    · split
      · unfold checkQuorum
        simp only
        split
        · refine .silent rfl rfl ?_ (fun hs => ?_) (Or.inl rfl) (by simp [Output.messages])
          · simp [becomeFollower, resetElectionTimeout, reset]
          · simp [becomeFollower, resetElectionTimeout] at hs
        · exact .silent rfl rfl rfl (fun hs => hs) (Or.inl rfl) (by simp [Output.messages])
      · exact .silent rfl rfl rfl (fun hs => hs) (Or.inl rfl) (by simp [Output.messages])
  · split
    · unfold handleElectionTimeout
      split
      · refine .silent rfl rfl rfl (fun hs => ?_) (Or.inl rfl) (fun m hm => ?_)
        · simp [preCampaign, becomePreCandidate, resetElectionTimeout] at hs
        · obtain ⟨peer, -, rfl⟩ := List.mem_map.mp (by simpa [Output.messages, preCampaign] using hm)
          simp
      · exact (campaign_campaigns env).ballots
    · exact .silent rfl rfl rfl (fun hs => hs) (Or.inl rfl) (by simp [Output.messages])

theorem takeReady_ballots (n : RaftNode) :
    Ballots n { node := n.takeReady.1, ready := n.takeReady.2 } := by
  by_cases hlead : n.state = .leader
  · rw [takeReady_leader hlead]
    refine .silent rfl rfl rfl (fun hs => hs) (Or.inr rfl) (fun m hm => ?_)
    have hmem : m ∈ n.leaderReady.messages := by simpa [Output.messages] using hm
    obtain ⟨p, -, rfl⟩ := List.mem_map.mp hmem
    unfold replicate
    split <;> simp
  · rw [takeReady, if_pos hlead]
    exact .silent rfl rfl rfl (fun hs => hs) (Or.inl rfl) (by simp [Output.messages])

end RaftNode

/-! ## A node and its restarts -/

inductive Call where
  | tick (env : Env)
  | step (env : Env) (msg : Message)
  | propose (data : List UInt8)
  | readIndex (ctx : List UInt8)
  | readStates
  | ready

def RaftNode.call (n : RaftNode) : Call → Output
  | .tick env => (n.tick env).1
  | .step env msg => n.step env msg
  | .propose data => { node := (n.propose data).1 }
  | .readIndex ctx => { node := (n.readIndex ctx).1 }
  | .readStates => { node := n.takeReadStates.1 }
  | .ready => { node := n.takeReady.1, ready := n.takeReady.2 }

def Call.Named : Call → Prop
  | .step _ msg => msg.msgType = .requestVote → msg.from_ ≠ 0
  | _ => True

theorem RaftNode.call_ballots {c : Call} (hnamed : c.Named) (n : RaftNode) :
    Ballots n (n.call c) := by
  have hsilent : ∀ n' : RaftNode, n'.config = n.config → n'.term = n.term →
      n'.votedFor = n.votedFor → n'.state = n.state → Ballots n { node := n' } := by
    intro n' hconfig hterm hvote hstate
    exact .silent hconfig hterm hvote (fun hs => hstate.symm.trans hs) (Or.inl rfl)
      (by simp [Output.messages])
  cases c with
  | tick env => exact tick_ballots env n
  | step env msg => exact step_ballots env hnamed
  | propose data =>
    refine hsilent _ ?_ ?_ ?_ ?_ <;> unfold propose <;> split <;> rfl
  | readIndex ctx =>
    refine hsilent _ ?_ ?_ ?_ ?_ <;> unfold readIndex <;> split <;> rfl
  | readStates => exact hsilent _ rfl rfl rfl rfl
  | ready => exact takeReady_ballots n

/-- A node, the hard state it handed out last (or was started from), and every vote
it has cast. -/
structure Life where
  node : RaftNode
  emitted : HardState
  cast : List (Nat × NodeId)

/-- A restart finds the last hard state in storage, and anything else there. -/
inductive LifeEvent (ε : Type) where
  | call (c : Call)
  | restart (env : Env) (confState : ConfState) (store : Storage ε)

namespace Life

variable {ε : Type}

def start (env : Env) (config : Config) (state : PersistentState) (log : List LogEntry) : Life :=
  { node := RaftNode.restored env config state log, emitted := state.hardState, cast := [] }

def take (l : Life) (o : Output) : Life :=
  { node := o.node, emitted := o.hardState.getD l.emitted, cast := l.cast ++ o.cast l.node }

/-- A restart that fails is no restart. -/
def apply (l : Life) : LifeEvent ε → Life
  | .call c => l.take (l.node.call c)
  | .restart env confState store =>
    match RaftNode.new env l.node.config
        { store with initialState := .ok { hardState := l.emitted, confState } } with
    | .ok node => { l with node }
    | .error _ => l

/-- The node has read its last hard state and some log. -/
def restarted (l : Life) (env : Env) (confState : ConfState) (log : List LogEntry) : Life :=
  { l with
    node := RaftNode.restored env l.node.config { hardState := l.emitted, confState } log }

/-- The condition on an event: no restart loses a vote of a later term than the hard
state that was handed out last. -/
def Keeps (l : Life) : LifeEvent ε → Prop
  | .call c => c.Named
  | .restart _ _ _ => ∀ v ∈ l.cast, v.1 ≤ l.emitted.term

/-- No term has votes for two candidates. -/
def VotesOnce (l : Life) : Prop :=
  ∀ t a b, (t, a) ∈ l.cast → (t, b) ∈ l.cast → a = b

/-- The votes cast are behind the node, or its vote; and behind the hard state, or
its vote. -/
structure Sound (l : Life) : Prop where
  held : ∀ v ∈ l.cast, v.1 ≤ l.node.term ∧ (v.1 = l.node.term → v.2 = l.node.votedFor)
  named : ∀ v ∈ l.cast, v.2 = 0 → l.node.id = 0
  le : l.emitted.term ≤ l.node.term
  covered : ∀ v ∈ l.cast, v.1 = l.emitted.term → v.2 = l.emitted.votedFor
  once : l.VotesOnce

theorem sound_start (env : Env) (config : Config) (state : PersistentState) (log : List LogEntry) :
    (start env config state log).Sound :=
  ⟨fun _ hv => absurd hv List.not_mem_nil, fun _ hv => absurd hv List.not_mem_nil,
    Nat.le_refl _, fun _ hv => absurd hv List.not_mem_nil,
    fun _ _ _ ha => absurd ha List.not_mem_nil⟩

theorem Sound.take {l : Life} {o : Output} (hl : l.Sound) (ho : l.node.Ballots o) :
    (l.take o).Sound := by
  have hle := ho.le
  have hid : o.node.id = l.node.id := congrArg Config.id ho.config
  have hheld : ∀ v ∈ (l.take o).cast, v.1 ≤ o.node.term ∧ (v.1 = o.node.term →
      v.2 = o.node.votedFor) := by
    intro v hv
    rcases List.mem_append.mp hv with hold | hnew
    · obtain ⟨hvle, hvote⟩ := hl.held v hold
      refine ⟨Nat.le_trans hvle hle, fun hsame => ?_⟩
      have hkept : o.node.term = l.node.term := by omega
      have hmine := hvote (hsame.trans hkept)
      rcases ho.vote hkept with heq | ⟨hzero, hne⟩
      · exact hmine.trans heq.symm
      · exact absurd (hl.named v hold (hmine.trans hzero)) hne
    · obtain ⟨hterm, hvote, -⟩ := ho.cast v hnew
      exact ⟨Nat.le_of_eq hterm, fun _ => hvote⟩
  refine ⟨hheld, fun v hv => ?_, ?_, fun v hv => ?_, fun t a b ha hb => ?_⟩
  · show v.2 = 0 → o.node.id = 0
    rw [hid]
    rcases List.mem_append.mp hv with hold | hnew
    · exact hl.named v hold
    · exact (ho.cast v hnew).2.2.1
  · show (o.hardState.getD l.emitted).term ≤ o.node.term
    cases hready : o.hardState with
    | none => exact Nat.le_trans hl.le hle
    | some h =>
      rw [ho.hardState h hready]
      exact Nat.le_refl _
  · show v.1 = (o.hardState.getD l.emitted).term → v.2 = (o.hardState.getD l.emitted).votedFor
    cases hready : o.hardState with
    | some h =>
      rw [ho.hardState h hready]
      exact (hheld v hv).2
    | none =>
      intro hcovered
      change v.1 = l.emitted.term at hcovered
      rcases List.mem_append.mp hv with hold | hnew
      · exact hl.covered v hold hcovered
      · -- Without a hard state only a campaign casts a vote, in a later term.
        obtain ⟨hterm, -, -, hsome | hlt⟩ := ho.cast v hnew
        · exact absurd (hready.symm.trans hsome) (by simp)
        · have hbehind := hl.le
          omega
  · by_cases hterm : t = o.node.term
    · exact ((hheld _ ha).2 hterm).trans ((hheld _ hb).2 hterm).symm
    · have hold : ∀ c, (t, c) ∈ (l.take o).cast → (t, c) ∈ l.cast := by
        intro c hc
        rcases List.mem_append.mp hc with hold | hnew
        · exact hold
        · exact absurd (ho.cast _ hnew).1 hterm
      exact hl.once t a b (hold a ha) (hold b hb)

theorem Sound.restart {l : Life} (hl : l.Sound) (env : Env) (confState : ConfState)
    (log : List LogEntry) (hcast : ∀ v ∈ l.cast, v.1 ≤ l.emitted.term) :
    (l.restarted env confState log).Sound :=
  ⟨fun v hv => ⟨hcast v hv, hl.covered v hv⟩, hl.named, Nat.le_refl _, hl.covered, hl.once⟩

theorem Sound.apply {l : Life} (hl : l.Sound) {e : LifeEvent ε} (he : l.Keeps e) :
    (l.apply e).Sound := by
  cases e with
  | call c => exact hl.take (RaftNode.call_ballots he l.node)
  | restart env confState store =>
    rw [Life.apply]
    split
    · rename_i node hnew
      obtain ⟨state, log, hstate, rfl⟩ := RaftNode.new_ok hnew
      obtain rfl := Except.ok.inj hstate
      exact hl.restart env confState log he
    · exact hl

/-- A restart that loses a vote of a later term lets the node vote again in it, for
whoever asks first. -/
theorem votes_again {l : Life} (env : Env) (confState : ConfState) (log : List LogEntry)
    {t : Nat} {a : NodeId} (hlost : l.emitted.term < t) (hvote : (t, a) ∈ l.cast)
    (hlog : termAt log log.length < t) (hid : l.node.id ≠ 0) {msg : Message}
    (htype : msg.msgType = .requestVote) (hterm : msg.term = t) (hne : msg.from_ ≠ a) :
    ¬ ((l.restarted env confState log).apply (.call (.step env msg) : LifeEvent ε)).VotesOnce := by
  intro honce
  have hhigher : msg.term > (l.restarted env confState log).node.term := by
    rw [hterm]
    exact hlost
  obtain ⟨hentered, hfree, -⟩ := RaftNode.observeTerm_higher env hhigher
  have hlogs := observeTerm_log env (l.restarted env confState log).node msg
  have hsame : ((l.restarted env confState log).node.observeTerm env msg).id = l.node.id :=
    congrArg Config.id (RaftNode.observeTerm_config env _ msg)
  have hcan : ((l.restarted env confState log).node.observeTerm env msg).canVote msg = true := by
    refine canVote_iff.mpr ⟨Or.inl hfree, ?_⟩
    rw [hfree, hsame]
    exact hid.symm
  have hok : ((l.restarted env confState log).node.observeTerm env msg).logOk msg = true := by
    rw [RaftNode.logOk, RaftNode.lastTerm, RaftNode.logTerm, RaftNode.lastIndex, hlogs,
      Bool.or_eq_true, decide_eq_true_eq, hterm]
    exact Or.inl hlog
  have hgrant := RaftNode.mem_grants env (by rw [hentered]; omega)
    (Bool.and_eq_true_iff.mpr ⟨hcan, hok⟩)
  have hcast : (t, msg.from_) ∈ ((l.restarted env confState log).node.step env msg).cast
      (l.restarted env confState log).node := by
    rw [RaftNode.step_requestVote env htype]
    refine List.mem_append_left _ (List.mem_map.mpr ⟨_, hgrant, ?_⟩)
    rw [hentered, hterm]
  exact hne (honce t msg.from_ a (List.mem_append_right _ hcast) (List.mem_append_left _ hvote))

end Life

/-- When a message hands out the term and the vote it brings about; and a node that
is started again from the hard state it handed out last never votes for two
candidates in one term, in every life whose events keep what is known of its votes. -/
theorem persists_and_votes_once (ε : Type) :
    (∀ (env : Env) (n : RaftNode) (msg : Message), n.Persists (n.step env msg) ↔
      (msg.term ≤ n.term ∨ msg.msgType = .requestVote) ∧ ¬ n.PreElected msg) ∧
    ∀ (env : Env) (config : Config) (state : PersistentState) (log : List LogEntry)
      (events : List (LifeEvent ε)),
      Each Life.apply Life.Keeps (Life.start env config state log) events →
        (events.foldl Life.apply (Life.start env config state log)).VotesOnce := by
  refine ⟨fun env n msg => RaftNode.persists_iff env n msg, fun env config state log events heach => ?_⟩
  have hsound := Each.foldl (Q := fun l : Life => l.Sound) (fun _ _ hl he => hl.apply he)
    (Life.sound_start env config state log) heach
  exact hsound.once

section Sample

def freshState : PersistentState :=
  { hardState := { term := 0, votedFor := 0, commitIndex := 0 }, confState := ConfState.new [1, 2, 3] }

def eager : Config := { id := 1, preVote := false }

def clock : Env := { now := 1000, jitter := 0 }

def emptyStore : Storage Unit :=
  { initialState := .error (), entries := fun _ _ _ => .ok [], firstIndex := .ok 1, lastIndex := .ok 0 }

def request (candidate : NodeId) : Message :=
  { msgType := .requestVote, from_ := candidate, to_ := 1, term := 1 }

/-- Node 2 asks, the node is started again, and node 3 asks in the same term. -/
def askedTwice : List (LifeEvent Unit) :=
  [ .call (.step clock (request 2)), .restart clock freshState.confState emptyStore,
    .call (.step clock (request 3)) ]

def born : Life := Life.start { now := 0, jitter := 0 } eager freshState []

theorem askedTwice_keeps : Each Life.apply Life.Keeps born askedTwice := by
  rw [askedTwice, each_cons, each_cons, each_cons]
  refine ⟨fun _ => ?_, fun v hv => ?_, fun _ => ?_, each_nil _⟩
  · decide
  · have hcast : (Life.apply born (.call (.step clock (request 2)) : LifeEvent Unit)).cast =
        [(1, 2)] := by decide
    rw [hcast, List.mem_singleton] at hv
    rw [hv]
    decide
  · decide

theorem persists_and_votes_once_asked :
    (born.node.Persists (born.node.step clock (request 2)) ↔
        ((request 2).term ≤ born.node.term ∨ (request 2).msgType = .requestVote) ∧
          ¬ born.node.PreElected (request 2)) ∧
      (askedTwice.foldl Life.apply born).VotesOnce :=
  ⟨(persists_and_votes_once Unit).1 clock born.node (request 2),
    (persists_and_votes_once Unit).2 _ eager freshState [] askedTwice askedTwice_keeps⟩

/-- A heartbeat brings a term that is not handed out.  A campaign hands out neither
its term nor its vote, and after a restart the node votes in that term again. -/
theorem not_persists_heartbeat :
    ¬ born.node.Persists (born.node.step clock
        { msgType := .heartbeat, from_ := 2, to_ := 1, term := 1 }) ∧
      ¬ (([ .call (.tick clock), .restart clock freshState.confState emptyStore,
          .call (.step clock (request 2)) ] : List (LifeEvent Unit)).foldl Life.apply
            born).VotesOnce := by
  refine ⟨by decide, fun honce => ?_⟩
  exact absurd (honce 1 1 2 (by decide) (by decide)) (by decide)

end Sample

end Raft
end RTDB
