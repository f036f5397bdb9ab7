import RTDB.Raft.Polls

/-!
# What a leader knows of its peers

Match and next index of a peer move with its answers.  An acceptance names the
length of a log that is the leader's so far, and only raises the match index.  A
rejection lowers the next index alone, and an old one may lower it too far.
-/

namespace RTDB
namespace Raft

open Reign

namespace RaftNode

variable {n n' : RaftNode} {msg : Message} {p : NodeId} {pr pr' : Progress} (env : Env)

/-! ## Where the progress of a peer comes from -/

/-- A leader that leads on in its term. -/
structure Remains (n n' : RaftNode) : Prop where
  state : n.state = .leader
  term : n'.term = n.term

/-- A call of `n` that hands it `msg` leaves the leader `n'` with progress `pr'` of `p`. -/
inductive Tracks (n : RaftNode) (msg : Option Message) (n' : RaftNode) (p : NodeId)
    (pr' : Progress) : Prop where
  | fresh (hlead : n.state ≠ .leader) (hmatch : pr'.matchIndex = 0) (hnext : 0 < pr'.nextIndex)
  | kept (hleads : Remains n n') (hpr : n.progress.lookup p = some pr')
  | refused (hleads : Remains n n') (m : Message) (hm : m ∈ msg) (htype : m.msgType = .appendResponse)
      (hreject : m.reject = true) (hterm : m.term = n.term) (hfrom : m.from_ = p) (pr : Progress)
      (hpr : n.progress.lookup p = some pr) (heq : pr' = backOff pr m.rejectHint)
  | accepted (hleads : Remains n n') (m : Message) (hm : m ∈ msg)
      (htype : m.msgType = .appendResponse) (haccept : m.reject = false) (hterm : m.term = n.term)
      (hfrom : m.from_ = p) (pr : Progress) (hpr : n.progress.lookup p = some pr)
      (heq : pr' = pr.becomeAccept m.index)
  | installed (m : Message) (hm : m ∈ msg) (htype : m.msgType = .snapshotResponse)

/-- A call that leaves role, term and progress alone. -/
theorem Tracks.same {msg : Option Message} (hstate : n'.state = n.state) (hterm : n'.term = n.term)
    (hprogress : n'.progress = n.progress) (hlead : n'.state = .leader)
    (hp : n'.progress.lookup p = some pr') : Tracks n msg n' p pr' := by
  refine .kept ⟨hstate.symm.trans hlead, hterm⟩ ?_
  rw [← hprogress]
  exact hp

theorem handleAppendResponse_tracks (htype : msg.msgType = .appendResponse)
    (hlead : (n.handleAppendResponse msg).node.state = .leader)
    (hp : (n.handleAppendResponse msg).node.progress.lookup p = some pr') :
    Tracks n (some msg) (n.handleAppendResponse msg).node p pr' := by
  unfold handleAppendResponse at hlead hp ⊢
  split
  · rename_i hidle
    rw [if_pos hidle] at hlead hp
    exact .same rfl rfl rfl hlead hp
  · rename_i hanswers
    rw [if_neg hanswers] at hlead hp
    rw [not_or, not_not, not_not] at hanswers
    split
    · rename_i hnone
      rw [hnone] at hlead hp
      exact .same rfl rfl rfl hlead hp
    · rename_i progress hprogress
      rw [hprogress] at hlead hp
      simp only at hlead hp
      split
      · rename_i hreject
        rw [if_pos hreject] at hp
        have hlook : (n.progress.insert msg.from_ (backOff progress msg.rejectHint)).lookup p =
          some pr' := hp
        by_cases hfrom : p = msg.from_
        · subst hfrom
          rw [AList.lookup_insert, Option.some.injEq] at hlook
          exact .refused ⟨hanswers.1, rfl⟩ msg rfl htype hreject hanswers.2 rfl progress hprogress
            hlook.symm
        · rw [AList.lookup_insert_ne hfrom] at hlook
          exact .kept ⟨hanswers.1, rfl⟩ hlook
      · rename_i haccept
        rw [if_neg haccept] at hp
        have hcore := advanceCommitIndex_core
          { n with progress := n.progress.insert msg.from_ (progress.becomeAccept msg.index) }
        have hlook : (n.progress.insert msg.from_ (progress.becomeAccept msg.index)).lookup p =
            some pr' := by
          rw [← hp]
          exact congrArg (fun core => core.progress.lookup p) hcore.symm
        have hleads : Remains n (advanceCommitIndex { n with
            progress := n.progress.insert msg.from_ (progress.becomeAccept msg.index) }) :=
          ⟨hanswers.1, congrArg Core.term hcore⟩
        by_cases hfrom : p = msg.from_
        · subst hfrom
          rw [AList.lookup_insert, Option.some.injEq] at hlook
          exact .accepted hleads msg rfl htype (Bool.not_eq_true _ ▸ haccept) hanswers.2 rfl progress
            hprogress hlook.symm
        · rw [AList.lookup_insert_ne hfrom] at hlook
          exact .kept hleads hlook

theorem handleVoteResponse_tracks (hlead : (n.handleVoteResponse env msg).node.state = .leader)
    (hp : (n.handleVoteResponse env msg).node.progress.lookup p = some pr') :
    Tracks n (some msg) (n.handleVoteResponse env msg).node p pr' := by
  unfold handleVoteResponse at hlead hp ⊢
  split
  · rename_i hidle
    rw [if_pos hidle] at hlead hp
    exact .same rfl rfl rfl hlead hp
  · rename_i hcand
    rw [if_neg hcand] at hlead hp
    rw [not_or, not_not, not_not] at hcand
    simp only at hlead hp ⊢
    split
    · rename_i hquorum
      rw [if_pos hquorum] at hp
      have hlook : (n.countVote msg).initialProgress.lookup p = some pr' := hp
      rw [lookup_initialProgress] at hlook
      split at hlook
      · obtain rfl := Option.some.inj hlook
        exact .fresh (by simp [hcand.1]) rfl (Nat.succ_pos _)
      · exact absurd hlook (by simp)
    · rename_i hquorum
      rw [if_neg hquorum] at hlead
      split at hlead
      · exact absurd hlead (by simp [becomeFollower, resetElectionTimeout])
      · exact absurd (hcand.1.symm.trans hlead) (by simp)

/-- Messages that ask, and not answer, leave role, term and progress alone. -/
theorem handle_asked (hasks : msg.msgType = .heartbeat ∨ msg.msgType = .appendEntries ∨
    msg.msgType = .requestVote ∨ msg.msgType = .requestPreVote ∨ msg.msgType = .installSnapshot) :
    (n.handle env msg).node.state = n.state ∧ (n.handle env msg).node.term = n.term ∧
      (n.handle env msg).node.progress = n.progress := by
  rcases hasks with htype | htype | htype | htype | htype
  · rw [handle.eq_def, htype]
    simp only [handleHeartbeat]
    split <;> exact ⟨rfl, rfl, rfl⟩
  · rw [handle.eq_def, htype]
    simp only [handleAppendEntries]
    split
    · exact ⟨rfl, rfl, rfl⟩
    · split <;> exact ⟨rfl, rfl, rfl⟩
  · rw [handle.eq_def, htype]
    simp only [handleRequestVote]
    split
    · exact ⟨rfl, rfl, rfl⟩
    · split <;> exact ⟨rfl, rfl, rfl⟩
  · rw [handle.eq_def, htype]
    exact ⟨rfl, rfl, rfl⟩
  · rw [handle.eq_def, htype]
    simp only [handleInstallSnapshot]
    split
    · exact ⟨rfl, rfl, rfl⟩
    · split <;> exact ⟨rfl, rfl, rfl⟩

theorem handlePreVoteResponse_not_leader (hpre : n.state = .preCandidate) :
    (n.handlePreVoteResponse env msg).node.state ≠ .leader := by
  unfold handlePreVoteResponse
  split
  · simp [hpre]
  · simp only
    split
    · simp [campaign, becomeCandidate, resetElectionTimeout]
    · show n.state ≠ .leader
      simp [hpre]

theorem handle_tracks (hlead : (n.handle env msg).node.state = .leader)
    (hp : (n.handle env msg).node.progress.lookup p = some pr') :
    Tracks n (some msg) (n.handle env msg).node p pr' := by
  have hasked := @handle_asked n msg env
  cases htype : msg.msgType with
  | heartbeat =>
    obtain ⟨hstate, hterm, hprogress⟩ := hasked (by simp [htype])
    exact .same hstate hterm hprogress hlead hp
  | appendEntries =>
    obtain ⟨hstate, hterm, hprogress⟩ := hasked (by simp [htype])
    exact .same hstate hterm hprogress hlead hp
  | appendResponse =>
    rw [handle.eq_def, htype] at hlead hp ⊢
    exact handleAppendResponse_tracks htype hlead hp
  | requestVote =>
    obtain ⟨hstate, hterm, hprogress⟩ := hasked (by simp [htype])
    exact .same hstate hterm hprogress hlead hp
  | voteResponse =>
    rw [handle.eq_def, htype] at hlead hp ⊢
    exact handleVoteResponse_tracks env hlead hp
  | requestPreVote =>
    obtain ⟨hstate, hterm, hprogress⟩ := hasked (by simp [htype])
    exact .same hstate hterm hprogress hlead hp
  | preVoteResponse =>
    rw [handle.eq_def, htype] at hlead hp ⊢
    by_cases hpre : n.state = .preCandidate
    · exact absurd hlead (handlePreVoteResponse_not_leader env hpre)
    · have hsame : n.handlePreVoteResponse env msg = { node := n } := by
        rw [handlePreVoteResponse, if_pos (Or.inl hpre)]
      simp only [hsame] at hlead hp ⊢
      exact .same rfl rfl rfl hlead hp
  | installSnapshot =>
    obtain ⟨hstate, hterm, hprogress⟩ := hasked (by simp [htype])
    exact .same hstate hterm hprogress hlead hp
  | snapshotResponse => exact .installed msg rfl htype
  | timeoutNow =>
    rw [handle.eq_def, htype] at hlead hp ⊢
    exact .same rfl rfl rfl hlead hp

theorem step_tracks (hlead : (n.step env msg).node.state = .leader)
    (hp : (n.step env msg).node.progress.lookup p = some pr') :
    Tracks n (some msg) (n.step env msg).node p pr' := by
  have hterm := step_leader_le env hlead
  rw [step_same env hterm] at hlead hp ⊢
  exact handle_tracks env hlead hp

theorem tick_leader (hlead : n.state = .leader) : (n.tick env).1.node =
    if env.now - n.lastHeartbeat ≥ n.config.heartbeatInterval then
      { n with lastHeartbeat := env.now }
    else if n.config.checkQuorum then n.checkQuorum env else n := by
  unfold tick
  split
  · split
    · rfl
    · split <;> rfl
  · rename_i hother
    exact absurd hlead hother

theorem tick_tracks (hlead : (n.tick env).1.node.state = .leader)
    (hp : (n.tick env).1.node.progress.lookup p = some pr') :
    Tracks n none (n.tick env).1.node p pr' := by
  by_cases hstate : n.state = .leader
  · rw [tick_leader env hstate] at hlead hp ⊢
    split
    · rename_i hbeat
      rw [if_pos hbeat] at hlead hp
      exact .same rfl rfl rfl hlead hp
    · rename_i hbeat
      rw [if_neg hbeat] at hlead hp
      split
      · rename_i hcheck
        rw [if_pos hcheck] at hlead hp
        simp only [checkQuorum] at hlead hp ⊢
        split
        · rename_i hlost
          rw [if_pos hlost] at hlead
          exact absurd hlead (by simp [becomeFollower, resetElectionTimeout])
        · rename_i hactive
          rw [if_neg hactive] at hlead hp
          exact .same rfl rfl rfl hlead hp
      · rename_i hcheck
        rw [if_neg hcheck] at hlead hp
        exact .same rfl rfl rfl hlead hp
  · rcases (tick_polls (n := n) env).leader hlead with hold | ⟨m, hm, -⟩
    · exact absurd hold hstate
    · exact absurd hm (by simp)

theorem call_tracks (call : Call) (hlead : (n.call call).node.state = .leader)
    (hp : (n.call call).node.progress.lookup p = some pr') :
    Tracks n call.msg (n.call call).node p pr' := by
  cases call with
  | tick env => exact tick_tracks env hlead hp
  | step env msg => exact step_tracks env hlead hp
  | readStates => exact .same rfl rfl rfl hlead hp
  | propose data =>
    have hkept : (n.propose data).1.state = n.state ∧ (n.propose data).1.term = n.term ∧
        (n.propose data).1.progress = n.progress := by
      rw [propose]
      split <;> exact ⟨rfl, rfl, rfl⟩
    exact .same hkept.1 hkept.2.1 hkept.2.2 hlead hp
  | readIndex ctx =>
    have hkept : (n.readIndex ctx).1.state = n.state ∧ (n.readIndex ctx).1.term = n.term ∧
        (n.readIndex ctx).1.progress = n.progress := by
      rw [readIndex]
      split <;> exact ⟨rfl, rfl, rfl⟩
    exact .same hkept.1 hkept.2.1 hkept.2.2 hlead hp
  | ready =>
    have hkept : n.takeReady.1.state = n.state ∧ n.takeReady.1.term = n.term ∧
        n.takeReady.1.progress = n.progress := by
      rw [takeReady]
      split <;> exact ⟨rfl, rfl, rfl⟩
    exact .same hkept.1 hkept.2.1 hkept.2.2 hlead hp

/-! ## Rejections -/

/-- The rejection leaves the next index behind what is known to match: nothing is, or
one back and the hint are both behind it. -/
def SparesMatch (n : RaftNode) (msg : Message) : Prop :=
  n.state = .leader → msg.msgType = .appendResponse → msg.reject = true → msg.term = n.term →
    ∀ pr ∈ n.progress.lookup msg.from_, pr.matchIndex = 0 ∨
      pr.matchIndex + 1 < pr.nextIndex ∧ (msg.rejectHint = 0 ∨ pr.matchIndex < msg.rejectHint)

instance (n : RaftNode) (msg : Message) : Decidable (n.SparesMatch msg) :=
  inferInstanceAs (Decidable (_ → _ → _ → _ → _))

theorem backOff_matchIndex (pr : Progress) (hint : Nat) :
    (backOff pr hint).matchIndex = pr.matchIndex := rfl

theorem backOff_behind {hint : Nat} (hbehind : pr.matchIndex < pr.nextIndex) :
    (backOff pr hint).matchIndex < (backOff pr hint).nextIndex ↔ pr.matchIndex = 0 ∨
      pr.matchIndex + 1 < pr.nextIndex ∧ (hint = 0 ∨ pr.matchIndex < hint) := by
  rw [backOff_matchIndex]
  simp only [backOff, Progress.becomeReject]
  split
  · split <;> omega
  · split <;> omega

theorem becomeAccept_new {index : Nat} (hnew : pr.matchIndex < index) :
    (pr.becomeAccept index).nextIndex = index + 1 ∧ (pr.becomeAccept index).matchIndex = index := by
  simp only [Progress.becomeAccept]
  rw [if_pos hnew]
  exact ⟨rfl, rfl⟩

theorem becomeAccept_old {index : Nat} (hold : index ≤ pr.matchIndex) :
    (pr.becomeAccept index).nextIndex = pr.nextIndex ∧
      (pr.becomeAccept index).matchIndex = pr.matchIndex := by
  simp only [Progress.becomeAccept]
  rw [if_neg (by omega)]
  exact ⟨rfl, rfl⟩

theorem becomeAccept_behind {index : Nat} (hbehind : pr.matchIndex < pr.nextIndex) :
    (pr.becomeAccept index).matchIndex < (pr.becomeAccept index).nextIndex := by
  rcases Nat.lt_or_ge pr.matchIndex index with hnew | hold
  · obtain ⟨hnext, hmatch⟩ := becomeAccept_new hnew
    omega
  · obtain ⟨hnext, hmatch⟩ := becomeAccept_old hold
    omega

theorem becomeAccept_matchIndex (pr : Progress) (index : Nat) :
    pr.matchIndex ≤ (pr.becomeAccept index).matchIndex ∧
      ((pr.becomeAccept index).matchIndex = pr.matchIndex ∨
        (pr.becomeAccept index).matchIndex = index) := by
  rcases Nat.lt_or_ge pr.matchIndex index with hnew | hold
  · have hmatch := (becomeAccept_new hnew).2
    omega
  · have hmatch := (becomeAccept_old hold).2
    omega

/-- An answer moves the progress of its sender, and leaves log, role and term alone. -/
theorem step_answer (hlead : n.state = .leader) (htype : msg.msgType = .appendResponse)
    (hterm : msg.term = n.term) (hpr : n.progress.lookup msg.from_ = some pr) :
    (n.step env msg).node.core = { n.core with
        progress := n.progress.insert msg.from_
          (if msg.reject then backOff pr msg.rejectHint else pr.becomeAccept msg.index) } ∧
      (n.step env msg).node.config = n.config := by
  have hstep : n.step env msg = n.handleAppendResponse msg := by
    rw [step_same env (Nat.le_of_eq hterm), handle.eq_def, htype]
  rw [hstep, handleAppendResponse, if_neg (by simp [hlead, hterm]), hpr]
  simp only
  split
  · exact ⟨rfl, rfl⟩
  · refine ⟨?_, (advanceCommitIndex_conf _).1⟩
    rw [advanceCommitIndex_core]
    rfl

/-- The progress a rejection leaves, whoever reads it next. -/
theorem step_refused (hlead : n.state = .leader) (htype : msg.msgType = .appendResponse)
    (hreject : msg.reject = true) (hterm : msg.term = n.term)
    (hpr : n.progress.lookup msg.from_ = some pr) :
    (n.step env msg).node.state = .leader ∧
      (n.step env msg).node.progress.lookup msg.from_ = some (backOff pr msg.rejectHint) := by
  have hcore := (step_answer env hlead htype hterm hpr).1
  rw [if_pos hreject] at hcore
  have hprogress := congrArg Core.progress hcore
  refine ⟨(congrArg Core.state hcore).trans hlead, ?_⟩
  show (n.step env msg).node.core.progress.lookup msg.from_ = _
  rw [hprogress]
  exact AList.lookup_insert _

/-! ## Acceptances -/

theorem campaign_messages {m : Message} (hm : m ∈ (n.campaign env).messages) :
    m.msgType = .requestVote := by
  obtain ⟨peer, -, rfl⟩ := List.mem_map.mp (by simpa [Output.messages, campaign] using hm)
  rfl

/-- Only an append is answered as one. -/
theorem handle_appendResponse {m : Message} (hm : m ∈ (n.handle env msg).messages)
    (htype : m.msgType = .appendResponse) : msg.msgType = .appendEntries := by
  have hone : ∀ {m' : Message}, m ∈ [m'] → m'.msgType ≠ .appendResponse → False := by
    intro m' hm' hother
    rw [List.mem_singleton.mp hm'] at htype
    exact hother htype
  cases hkind : msg.msgType with
  | appendEntries => rfl
  | heartbeat =>
    rw [handle.eq_def, hkind] at hm
    simp only [handleHeartbeat] at hm
    split at hm
    · exact absurd hm List.not_mem_nil
    · exact (hone hm (by simp [Message.new])).elim
  | requestVote =>
    rw [handle.eq_def, hkind] at hm
    simp only [handleRequestVote] at hm
    split at hm
    · exact (hone hm (by simp [Message.new, Message.withReject])).elim
    · exact (hone hm (by simp)).elim
  | requestPreVote =>
    rw [handle.eq_def, hkind] at hm
    exact (hone hm (by simp)).elim
  | installSnapshot =>
    rw [handle.eq_def, hkind] at hm
    simp only [handleInstallSnapshot] at hm
    split at hm
    · exact absurd hm List.not_mem_nil
    · split at hm
      · exact absurd hm List.not_mem_nil
      · exact (hone hm (by simp)).elim
  | appendResponse =>
    rw [handle.eq_def, hkind] at hm
    simp only [handleAppendResponse] at hm
    split at hm
    · exact absurd hm List.not_mem_nil
    · split at hm
      · exact absurd hm List.not_mem_nil
      · split at hm <;> exact absurd hm List.not_mem_nil
  | voteResponse =>
    rw [handle.eq_def, hkind] at hm
    simp only [handleVoteResponse] at hm
    split at hm
    · exact absurd hm List.not_mem_nil
    · split at hm
      · obtain ⟨peer, -, rfl⟩ := List.mem_map.mp
          (by simpa [Output.messages, buildAppendAcks] using hm)
        exact absurd htype (by simp)
      · split at hm <;> exact absurd hm List.not_mem_nil
  | preVoteResponse =>
    rw [handle.eq_def, hkind] at hm
    simp only [handlePreVoteResponse] at hm
    split at hm
    · exact absurd hm List.not_mem_nil
    · split at hm
      · exact absurd htype (by simp [campaign_messages (n := n.countVote msg) env hm])
      · exact absurd hm List.not_mem_nil
  | snapshotResponse =>
    rw [handle.eq_def, hkind] at hm
    simp only [handleSnapshotResponse] at hm
    split at hm
    · exact absurd hm List.not_mem_nil
    · split at hm
      · exact absurd hm List.not_mem_nil
      · split at hm <;> exact absurd hm List.not_mem_nil
  | timeoutNow =>
    rw [handle.eq_def, hkind] at hm
    exact absurd hm List.not_mem_nil

theorem preCampaign_messages {m : Message} (hm : m ∈ (n.preCampaign env).messages) :
    m.msgType = .requestPreVote := by
  obtain ⟨peer, -, rfl⟩ := List.mem_map.mp (by simpa [Output.messages, preCampaign] using hm)
  rfl

theorem tick_messages : ∀ m ∈ (n.tick env).1.messages, m.msgType ≠ .appendResponse := by
  intro m hm
  unfold tick at hm
  split at hm
  · split at hm
    · exact absurd hm List.not_mem_nil
    · split at hm <;> exact absurd hm List.not_mem_nil
  · split at hm
    · simp only [handleElectionTimeout] at hm
      split at hm
      · simp [preCampaign_messages env hm]
      · simp [campaign_messages env hm]
    · exact absurd hm List.not_mem_nil

theorem takeReady_messages :
    ∀ m ∈ (n.call .ready).messages, m.msgType ≠ .appendResponse := by
  intro m hm
  by_cases hlead : n.state = .leader
  · have hmem : m ∈ n.leaderReady.messages := by
      rw [RaftNode.call, takeReady_leader hlead] at hm
      simpa [Output.messages] using hm
    obtain ⟨p, -, rfl⟩ := List.mem_map.mp hmem
    unfold replicate
    split <;> simp
  · rw [RaftNode.call, takeReady, if_pos hlead] at hm
    exact absurd hm List.not_mem_nil

theorem call_appendResponse {call : Call} {m : Message} (hm : m ∈ (n.call call).messages)
    (htype : m.msgType = .appendResponse) :
    ∃ env msg, call = .step env msg ∧ msg.msgType = .appendEntries := by
  cases call with
  | step env msg => exact ⟨env, msg, rfl, handle_appendResponse env hm htype⟩
  | tick env => exact absurd htype (tick_messages env m hm)
  | readStates => exact absurd hm List.not_mem_nil
  | propose data => exact absurd hm List.not_mem_nil
  | readIndex ctx => exact absurd hm List.not_mem_nil
  | ready => exact absurd htype (takeReady_messages m hm)

/-- The acceptance of an append names the length of the log it leaves. -/
theorem step_accepted {m : Message} (hkind : msg.msgType = .appendEntries)
    (hm : m ∈ (n.step env msg).messages) (haccept : m.reject = false) :
    n.Accepts msg ∧ m.from_ = n.id ∧ m.to_ = msg.from_ ∧ m.term = msg.term ∧
      m.index = (n.step env msg).node.log.length := by
  have hstale : msg.term < (n.observeTerm env msg).term ↔ msg.term < n.term :=
    observeTerm_stale env
  have hprev := @observeTerm_prevMatches n msg env
  have hid : (n.observeTerm env msg).id = n.id :=
    congrArg Config.id (observeTerm_config env n msg)
  have hle := @le_observeTerm n msg env
  have hstep : n.step env msg = (n.observeTerm env msg).handleAppendEntries env msg := by
    rw [step, handle.eq_def, hkind]
  rw [hstep] at hm ⊢
  unfold handleAppendEntries at hm ⊢
  simp only at hm ⊢
  split at hm
  · rw [List.mem_singleton.mp hm] at haccept
    exact absurd haccept (by simp [Message.withReject])
  · rename_i hfresh
    split at hm
    · rw [List.mem_singleton.mp hm] at haccept
      exact absurd haccept (by simp [Message.withReject])
    · rename_i hmeets
      rw [if_neg hfresh, if_neg hmeets]
      have hfresh' : ¬ msg.term < (n.observeTerm env msg).term := hfresh
      have hkept : ¬ (!(n.observeTerm env msg).prevMatches msg) = true := hmeets
      have hmeets' : (n.observeTerm env msg).prevMatches msg = true := by simpa using hkept
      rw [hstale] at hfresh'
      obtain rfl := List.mem_singleton.mp hm
      refine ⟨⟨by omega, hprev.symm.trans hmeets'⟩, hid, rfl, ?_, rfl⟩
      show (n.observeTerm env msg).term = msg.term
      have hnot := hstale.not.mpr hfresh'
      omega

end RaftNode

open RaftNode

/-! ## What an acceptance says -/

/-- The sender of the acceptance holds the log of its leader up to the index, unless the
leader has left the term. -/
structure Agrees (h : Chronicle) (c : Cluster) (m : Message) : Prop where
  reign : ∃ r, h.reign m.term = some r ∧ m.index ≤ r.log.length
  term : m.term ≤ (c.node m.to_).term
  held : m.index ≤ (c.node m.from_).lastIndex
  led : (c.node m.to_).term = m.term → m.index ≤ (c.node m.to_).lastIndex
  same : (c.node m.to_).term = m.term →
    (c.node m.from_).log.take m.index = (c.node m.to_).log.take m.index

/-- An acceptance is true when it is sent. -/
theorem Safe.agrees {S : Setup} {strict : Prop} {c : Cluster} {h : Chronicle} {e : Event}
    {m : Message} (hs : Safe S strict c h) (hsent : Sent c e)
    (hm : m ∈ ((c.node e.node).call e.call).messages) (htype : m.msgType = .appendResponse)
    (haccept : m.reject = false) : Agrees h (c.apply e) m := by
  obtain ⟨env, msg, hcall, hkind⟩ := call_appendResponse hm htype
  obtain ⟨env, rfl⟩ := @Event.eq_deliver e msg (by rw [hcall]; rfl)
  obtain ⟨hacc, hfrom, hto, hterm, hindex⟩ := step_accepted env hkind hm haccept
  have hprev : PrevMatches (c.view.core msg.to_).log msg := by
    have hmeets := hacc.2
    rw [prevMatches, Bool.or_eq_true, decide_eq_true_eq, decide_eq_true_eq] at hmeets
    exact hmeets
  obtain ⟨r, hr, hleader, hpos, hother, -, hpre, -, -⟩ := hs.logs.appendToLog_eq hsent hkind hprev
  have hself : m.from_ = msg.to_ := by
    rw [hfrom]
    exact (hs.wired msg.to_).id_eq
  have hlog : ((c.apply (.deliver msg env)).node m.from_).log = appendToLog (c.node msg.to_).log msg := by
    rw [hself, c.apply_deliver]
    exact (step_append env hkind hacc).1
  have hlen : m.index = ((c.apply (.deliver msg env)).node m.from_).log.length := by
    rw [hindex, hself, c.apply_deliver]
    rfl
  have hkeeps : (c.apply (.deliver msg env)).node m.to_ = c.node m.to_ :=
    c.apply_node_ne _ (by rw [hto]; exact hother.symm)
  -- The leader of the term has its reign's log while it stays in the term.
  have hown : (c.node m.to_).term = m.term → (c.node m.to_).log = r.log := by
    intro hsame
    have hr' : h.reign (c.node m.to_).term = some r := by rw [hsame, hterm, hr]
    exact (hs.logs.recorded m.to_).own (by show 0 < (c.node m.to_).term; omega) r hr'
      (hleader.trans hto.symm)
  have hpre' : ((c.apply (.deliver msg env)).node m.from_).log <+: r.log := by
    rw [hlog]
    exact hpre
  refine ⟨⟨r, by rw [hterm, hr], by rw [hlen]; exact hpre'.length_le⟩, ?_, Nat.le_of_eq hlen,
    fun hsame => ?_, fun hsame => ?_⟩
  · have hself := (hs.election.elected _ r hpos hr).1
    have hle := hs.election.solicited _ _ _ hself
    rw [hkeeps, hterm, hto, ← hleader]
    exact hle
  · rw [hkeeps] at hsame ⊢
    rw [lastIndex, hown hsame, hlen]
    exact hpre'.length_le
  · rw [hkeeps] at hsame ⊢
    rw [hown hsame, hlen, List.take_length]
    exact List.prefix_iff_eq_take.mp hpre'

/-! ## Runs -/

/-- In event `j` peer `p` answered its leader `i` of term `t` that the logs are the same up
to `index`, and so they were. -/
structure Answered (S : Setup) (es : List Event) (j : Nat) (i p : NodeId) (t index : Nat) :
    Prop where
  during : j < es.length
  answer : ∃ m ∈ (((Cluster.after S es j).node es[j].node).call es[j].call).messages,
    m.msgType = .appendResponse ∧ m.reject = false ∧ m.from_ = p ∧ m.to_ = i ∧ m.term = t ∧
      m.index = index
  held : index ≤ ((Cluster.after S es (j + 1)).node p).lastIndex
  led : index ≤ ((Cluster.after S es (j + 1)).node i).lastIndex
  same : ((Cluster.after S es (j + 1)).node p).log.take index =
    ((Cluster.after S es (j + 1)).node i).log.take index

/-- The leader `i` has progress `pr` of `p`. -/
def Follows (c : Cluster) (i p : NodeId) (pr : Progress) : Prop :=
  (c.node i).state = .leader ∧ (c.node i).progress.lookup p = some pr

instance (c : Cluster) (i p : NodeId) (pr : Progress) : Decidable (Follows c i p pr) :=
  inferInstanceAs (Decidable (_ ∧ _))

/-- What a leader may rely on in the progress of its peers, all through a run. -/
structure ProgressSound (S : Setup) (es : List Event) : Prop where
  behind : ∀ k i p pr, Follows (Cluster.after S es k) i p pr → pr.matchIndex < pr.nextIndex
  bounded : ∀ k i p pr, Follows (Cluster.after S es k) i p pr →
    pr.matchIndex ≤ ((Cluster.after S es k).node i).lastIndex
  answered : ∀ k i p pr, Follows (Cluster.after S es k) i p pr → pr.matchIndex = 0 ∨
    ∃ j < k, Answered S es j i p ((Cluster.after S es k).node i).term pr.matchIndex
  monotone : ∀ k k' i p t pr pr', k ≤ k' →
    (∀ q, k ≤ q → q ≤ k' → Leads (Cluster.after S es q) i t) →
    Follows (Cluster.after S es k) i p pr → Follows (Cluster.after S es k') i p pr' →
    pr.matchIndex ≤ pr'.matchIndex

variable {S : Setup} {es : List Event} {i p : NodeId} {pr pr' : Progress}

/-- An acceptance on the wire was sent in some event. -/
theorem exists_sent {m : Message} :
    ∀ k, m ∈ (Cluster.after S es k).net → ∃ j < k, ∃ hj : j < es.length,
      m ∈ (((Cluster.after S es j).node es[j].node).call es[j].call).messages := by
  intro k
  induction k with
  | zero => exact fun hm => absurd hm List.not_mem_nil
  | succ k ih =>
    intro hm
    rcases Nat.lt_or_ge k es.length with hk | hk
    · rw [Cluster.after_succ hk, Cluster.apply_eq] at hm
      rcases List.mem_append.mp hm with hold | hnew
      · obtain ⟨j, hlt, hj, hsent⟩ := ih hold
        exact ⟨j, by omega, hj, hsent⟩
      · exact ⟨k, Nat.lt_succ_self k, hk, hnew⟩
    · rw [Cluster.after_of_le hk] at hm
      obtain ⟨j, hlt, hj, hsent⟩ := ih hm
      exact ⟨j, by omega, hj, hsent⟩

theorem Cluster.term_le_after (S : Setup) (es : List Event) (i : NodeId) {j k : Nat} (hjk : j ≤ k) :
    ((Cluster.after S es j).node i).term ≤ ((Cluster.after S es k).node i).term := by
  induction hjk with
  | refl => exact Nat.le_refl _
  | step hle ih =>
    rename_i k
    rcases Nat.lt_or_ge k es.length with hk | hk
    · rw [Cluster.after_succ hk]
      exact Nat.le_trans ih (Cluster.term_le_apply _ _ _)
    · rw [Cluster.after_of_le hk]
      exact ih

theorem Follows.tracks {c : Cluster} {e : Event} (hf : Follows (c.apply e) i p pr') :
    (i = e.node ∧ Tracks (c.node i) e.call.msg ((c.apply e).node i) p pr') ∨
      Follows c i p pr' ∧ (c.apply e).node i = c.node i := by
  by_cases hi : i = e.node
  · subst hi
    obtain ⟨hlead, hp⟩ := hf
    rw [c.apply_node_self] at hlead hp ⊢
    exact Or.inl ⟨rfl, call_tracks e.call hlead hp⟩
  · have hsame := c.apply_node_ne e hi
    rw [Follows, hsame] at hf
    exact Or.inr ⟨hf, hsame⟩

/-- A match index is zero or the index of an acceptance on the wire. -/
def Reported (c : Cluster) (i p : NodeId) (k : Nat) : Prop :=
  k = 0 ∨ ∃ m ∈ c.net, m.msgType = .appendResponse ∧ m.reject = false ∧ m.from_ = p ∧ m.to_ = i ∧
    m.term = (c.node i).term ∧ m.index = k

theorem Reported.apply {c : Cluster} {k : Nat} (hr : Reported c i p k) (e : Event)
    (hterm : ((c.apply e).node i).term = (c.node i).term) : Reported (c.apply e) i p k := by
  rcases hr with hzero | ⟨m, hm, htype, haccept, hfrom, hto, hmterm, hindex⟩
  · exact Or.inl hzero
  · exact Or.inr ⟨m, c.net_subset_apply e m hm, htype, haccept, hfrom, hto, hmterm.trans hterm.symm,
      hindex⟩

section Reached

variable (hv : Cluster.Valid S (Cluster.init S) es)

include hv

/-- Nobody answers a snapshot: none is ever sent. -/
theorem no_snapshotResponse (k : Nat) :
    ∀ m ∈ (Cluster.after S es k).net, m.msgType ≠ .snapshotResponse := by
  intro m hm
  obtain ⟨h, hs⟩ := Safe.reached hv k
  exact (hs.logs.faithful m hm).answer

theorem Follows.reported : ∀ {k pr}, Follows (Cluster.after S es k) i p pr →
    Reported (Cluster.after S es k) i p pr.matchIndex := by
  intro k
  induction k with
  | zero =>
    intro pr hf
    exact absurd hf.1 (by simp [Cluster.after, Cluster.run, Cluster.init, newWithConf])
  | succ k ih =>
    intro pr hf
    rcases Nat.lt_or_ge k es.length with hk | hk
    · have henabled := hv.enabled hk
      rw [Cluster.after_succ hk] at hf ⊢
      rcases hf.tracks with ⟨hi, htracks⟩ | ⟨hold, hnode⟩
      · cases htracks with
        | fresh hlead hmatch hnext => exact Or.inl hmatch
        | kept hleads hpr => exact (ih ⟨hleads.state, hpr⟩).apply _ hleads.term
        | refused hleads m hm htype hreject hterm hfrom pr₀ hpr heq =>
          rw [heq, backOff_matchIndex]
          exact (ih ⟨hleads.state, hpr⟩).apply _ hleads.term
        | accepted hleads m hm htype haccept hterm hfrom pr₀ hpr heq =>
          rw [heq]
          rcases (becomeAccept_matchIndex pr₀ m.index).2 with hsame | hnew
          · rw [hsame]
            exact (ih ⟨hleads.state, hpr⟩).apply _ hleads.term
          · obtain ⟨hmem, hto⟩ := henabled.sent.msg hm
            rw [hnew]
            exact Or.inr ⟨m, Cluster.net_subset_apply _ _ m hmem, htype, haccept, hfrom,
              hto.trans hi.symm, hterm.trans hleads.term.symm, rfl⟩
        | installed m hm htype =>
          exact absurd htype (no_snapshotResponse hv k m (henabled.sent.msg hm).1)
      · exact (ih hold).apply _ (by rw [hnode])
    · rw [Cluster.after_of_le hk] at hf ⊢
      exact ih hf

/-- What is known to match was answered, and is in the leader's log still. -/
theorem Follows.answered {k : Nat} (hf : Follows (Cluster.after S es k) i p pr) :
    pr.matchIndex = 0 ∨
      (∃ j < k, Answered S es j i p ((Cluster.after S es k).node i).term pr.matchIndex) ∧
        pr.matchIndex ≤ ((Cluster.after S es k).node i).lastIndex := by
  rcases hf.reported hv with hzero | ⟨m, hm, htype, haccept, hfrom, hto, hterm, hindex⟩
  · exact Or.inl hzero
  · obtain ⟨j, hlt, hj, hsent⟩ := exists_sent k hm
    obtain ⟨h, h', hx, hs, hs', -⟩ := Safe.two False hv (fun hf => hf.elim) (Nat.le_of_lt hlt)
    have hagrees := hs.agrees (hv.enabled hj).sent hsent htype haccept
    rw [← Cluster.after_succ hj] at hagrees
    -- The leader was in the term when the answer was sent, and is in it now.
    have hthen : ((Cluster.after S es (j + 1)).node m.to_).term = m.term := by
      have hle := Cluster.term_le_after S es m.to_ (show j + 1 ≤ k by omega)
      have hge := hagrees.term
      rw [hto] at hle hge ⊢
      omega
    subst hfrom hto
    rw [← hindex]
    refine Or.inr ⟨⟨j, hlt, hj, ⟨m, hsent, htype, haccept, rfl, rfl, hterm, rfl⟩, hagrees.held,
      hagrees.led hthen, hagrees.same hthen⟩, ?_⟩
    obtain ⟨r, hr, hle⟩ := hagrees.reign
    obtain ⟨r', hr', -, hbase, hown⟩ := hx.reign _ r hr
    obtain ⟨s, hs₁, -, hlog⟩ := hs'.reign (i := m.to_) ⟨hf.1, rfl⟩
    rw [← hterm, hr'] at hs₁
    obtain rfl := Option.some.inj hs₁
    have hgrown := (log_isPrefix_log hbase hown).length_le
    rw [lastIndex, hlog]
    omega

/-- One event of a leader raises a match index or leaves it. -/
theorem Follows.match_le {k : Nat} {t : Nat} (hlead : Leads (Cluster.after S es k) i t)
    (hf' : Follows (Cluster.after S es (k + 1)) i p pr') :
    ∃ pr, Follows (Cluster.after S es k) i p pr ∧ pr.matchIndex ≤ pr'.matchIndex := by
  rcases Nat.lt_or_ge k es.length with hk | hk
  · rw [Cluster.after_succ hk] at hf'
    rcases hf'.tracks with ⟨-, htracks⟩ | ⟨hold, -⟩
    · cases htracks with
      | fresh hidle hmatch hnext => exact absurd hlead.1 hidle
      | kept hleads hpr => exact ⟨pr', ⟨hleads.state, hpr⟩, Nat.le_refl _⟩
      | refused hleads m hm htype hreject hterm hfrom pr hpr heq =>
        exact ⟨pr, ⟨hleads.state, hpr⟩, by rw [heq, backOff_matchIndex]⟩
      | accepted hleads m hm htype haccept hterm hfrom pr hpr heq =>
        exact ⟨pr, ⟨hleads.state, hpr⟩, by rw [heq]; exact (becomeAccept_matchIndex pr _).1⟩
      | installed m hm htype =>
        exact absurd htype (no_snapshotResponse hv k m ((hv.enabled hk).sent.msg hm).1)
    · exact ⟨pr', hold, Nat.le_refl _⟩
  · rw [Cluster.after_of_le hk] at hf'
    exact ⟨pr', hf', Nat.le_refl _⟩

theorem Follows.match_le_of_leads {k k' t : Nat} (hle : k ≤ k')
    (hleads : ∀ q, k ≤ q → q ≤ k' → Leads (Cluster.after S es q) i t)
    (hf : Follows (Cluster.after S es k) i p pr) :
    ∀ {pr'}, Follows (Cluster.after S es k') i p pr' → pr.matchIndex ≤ pr'.matchIndex := by
  induction hle with
  | refl =>
    intro pr' hf'
    obtain rfl := Option.some.inj (hf.2.symm.trans hf'.2)
    exact Nat.le_refl _
  | step hle ih =>
    rename_i q
    intro pr' hf'
    have hle' : k ≤ q := hle
    obtain ⟨pr₁, hf₁, hstep⟩ := Follows.match_le hv (hleads q hle' (by omega)) hf'
    have hbefore := ih (fun q hq hq' => hleads q hq (by omega)) hf₁
    omega

end Reached

/-- Over one event the next index stays behind the match index exactly when no rejection
takes it there. -/
theorem Follows.behind {c : Cluster} {e : Event} (hsent : Sent c e)
    (hanswer : ∀ m ∈ c.net, m.msgType ≠ .snapshotResponse)
    (hbehind : ∀ i p pr, Follows c i p pr → pr.matchIndex < pr.nextIndex) :
    (∀ i p pr, Follows (c.apply e) i p pr → pr.matchIndex < pr.nextIndex) ↔
      ∀ msg ∈ e.call.msg, (c.node e.node).SparesMatch msg := by
  constructor
  · intro hafter msg hmsg hlead htype hreject hterm pr hpr
    obtain ⟨env, rfl⟩ := Event.eq_deliver hmsg
    have hpr' : (c.node msg.to_).progress.lookup msg.from_ = some pr := hpr
    obtain ⟨hlead', hlook⟩ := step_refused env hlead htype hreject hterm hpr'
    have hfollows : Follows (c.apply (.deliver msg env)) msg.to_ msg.from_
        (backOff pr msg.rejectHint) := by
      rw [Follows, c.apply_deliver]
      exact ⟨hlead', hlook⟩
    exact (backOff_behind (hbehind _ _ _ ⟨hlead, hpr'⟩)).mp (hafter _ _ _ hfollows)
  · intro hspares i p pr' hf
    rcases hf.tracks with ⟨rfl, htracks⟩ | ⟨hold, -⟩
    · cases htracks with
      | fresh hidle hmatch hnext => omega
      | kept hleads hpr => exact hbehind _ _ _ ⟨hleads.state, hpr⟩
      | refused hleads m hm htype hreject hterm hfrom pr hpr heq =>
        subst hfrom heq
        exact (backOff_behind (hbehind _ _ _ ⟨hleads.state, hpr⟩)).mpr
          (hspares m hm hleads.state htype hreject hterm pr hpr)
      | accepted hleads m hm htype haccept hterm hfrom pr hpr heq =>
        subst heq
        exact becomeAccept_behind (hbehind _ _ _ ⟨hleads.state, hpr⟩)
      | installed m hm htype => exact absurd htype (hanswer m (hsent.msg hm).1)
    · exact hbehind _ _ _ hold

/-- What a leader may rely on in the progress of its peers it may rely on all through a
run exactly when no delivered rejection takes a next index back to what is known to
match. -/
theorem progress_sound_iff (S : Setup) (es : List Event)
    (hv : Cluster.Valid S (Cluster.init S) es) :
    ProgressSound S es ↔ ∀ k (hk : k < es.length), ∀ msg ∈ es[k].call.msg,
      ((Cluster.after S es k).node es[k].node).SparesMatch msg := by
  have hanswer := no_snapshotResponse hv
  constructor
  · intro hsound k hk
    refine (Follows.behind (hv.enabled hk).sent (hanswer k) (hsound.behind k)).mp ?_
    rw [← Cluster.after_succ hk]
    exact hsound.behind (k + 1)
  · intro hspares
    refine ⟨fun k => ?_, fun k i p pr hf => ?_, fun k i p pr hf => ?_,
      fun k k' i p t pr pr' hle hleads hf hf' => hf.match_le_of_leads hv hle hleads hf'⟩
    · induction k with
      | zero =>
        intro i p pr hf
        exact absurd hf.1 (by simp [Cluster.after, Cluster.run, Cluster.init, newWithConf])
      | succ k ih =>
        rcases Nat.lt_or_ge k es.length with hk | hk
        · rw [Cluster.after_succ hk]
          exact (Follows.behind (hv.enabled hk).sent (hanswer k) ih).mpr (hspares k hk)
        · rw [Cluster.after_of_le hk]
          exact ih
    · rcases hf.answered hv with hzero | ⟨-, hle⟩
      · omega
      · exact hle
    · rcases hf.answered hv with hzero | ⟨hanswered, -⟩
      · exact Or.inl hzero
      · exact Or.inr hanswered

set_option maxRecDepth 20000

theorem progress_sound_committing :
    ProgressSound trio committing ↔ ∀ k (hk : k < committing.length),
      ∀ msg ∈ committing[k].call.msg,
        ((Cluster.after trio committing k).node committing[k].node).SparesMatch msg :=
  progress_sound_iff trio committing (by decide)

/-- The rejection of the first append arrives again when the second one has matched. -/
def repeating : List Event := committing ++ [.deliver (answerOf 0 true) late]

theorem not_progress_sound_repeating :
    Cluster.Valid trio (Cluster.init trio) repeating ∧ ¬ ProgressSound trio repeating := by
  refine ⟨by decide, fun hsound => ?_⟩
  have hfollows : ∃ pr ∈ ((Cluster.after trio repeating 9).node 1).progress.lookup 2,
      Follows (Cluster.after trio repeating 9) 1 2 pr ∧ pr.nextIndex ≤ pr.matchIndex := by decide
  obtain ⟨pr, -, hf, hle⟩ := hfollows
  have hlt := hsound.behind 9 1 2 pr hf
  omega

end Raft
end RTDB
