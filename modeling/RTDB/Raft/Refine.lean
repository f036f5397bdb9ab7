import RTDB.Raft.Moves

/-!
# Every call is a few moves

The refinement between the node of the source and the elementary moves: one call
of a node, with the messages it puts on the wire, is a list of enabled moves of
the cluster's view.
-/

namespace RTDB
namespace Raft

open Quorum Reign

/-! ## Slices of a log -/

theorem takeEntries_isPrefix (maxSize : Option Nat) :
    ∀ (l : List LogEntry) (size : Nat) (first : Bool), takeEntries maxSize size first l <+: l := by
  intro l
  induction l with
  | nil => intro size first; exact List.prefix_rfl
  | cons e rest ih =>
    intro size first
    simp only [takeEntries]
    split
    · exact List.nil_prefix
    · split
      · exact List.prefix_append [e] rest
      · exact List.cons_prefix_cons.mpr ⟨rfl, ih _ _⟩

theorem takeEntries_ne_nil {maxSize : Option Nat} {size : Nat} {l : List LogEntry} (hl : l ≠ []) :
    takeEntries maxSize size true l ≠ [] := by
  cases l with
  | nil => exact absurd rfl hl
  | cons e rest =>
    simp only [takeEntries, Bool.not_true, Bool.and_false, Bool.false_eq_true, if_false]
    split <;> simp

theorem getEntries_slice {n : RaftNode} {k : Nat} (maxSize : Option Nat)
    (hk : ¬ k > n.lastIndex) (hpos : 0 < n.lastIndex) :
    n.getEntries k maxSize ≠ [] ∧ n.getEntries k maxSize <+: n.log.drop (k - 1) := by
  unfold RaftNode.lastIndex at hk hpos
  unfold RaftNode.getEntries
  simp only
  rw [if_neg (show ¬ k - 1 ≥ n.log.length by omega)]
  refine ⟨takeEntries_ne_nil ?_, takeEntries_isPrefix _ _ _ _⟩
  rw [Ne, List.drop_eq_nil_iff]
  omega

/-! ## The wiring of a node -/

/-- Node `i` keeps its configuration, and no progress about itself. -/
structure Wired (S : Setup) (i : NodeId) (n : RaftNode) : Prop where
  config : n.config = S.config i
  confState : n.confState = ConfState.new S.voters
  self : n.progress.lookup i = none

namespace Wired

variable {S : Setup} {i : NodeId} {n n' : RaftNode}

theorem id_eq (h : Wired S i n) : n.id = i := by
  rw [RaftNode.id, h.config, S.config_id]

theorem voters (h : Wired S i n) : n.confState.voters = S.voters := by
  rw [h.confState]
  rfl

theorem mem_peers (h : Wired S i n) {p : NodeId} : p ∈ n.peers ↔ p ∈ S.voters ∧ p ≠ i := by
  rw [RaftNode.peers, List.mem_filter, h.voters, h.id_eq]
  simp

theorem of_eq (h : Wired S i n) (hc : n'.config = n.config) (hs : n'.confState = n.confState)
    (hp : n'.progress = n.progress ∨ n'.progress = ∅) : Wired S i n' := by
  refine ⟨hc.trans h.config, hs.trans h.confState, ?_⟩
  rcases hp with hp | hp
  · rw [hp]
    exact h.self
  · rw [hp]
    exact AList.lookup_empty i

theorem track (h : Wired S i n) (hc : n'.config = n.config) (hs : n'.confState = n.confState)
    {p : NodeId} {pr pr' : Progress} (hp : n.progress.lookup p = some pr)
    (hn : n'.progress = n.progress.insert p pr') : Wired S i n' := by
  refine ⟨hc.trans h.config, hs.trans h.confState, ?_⟩
  have hne : i ≠ p := by
    rintro rfl
    rw [h.self] at hp
    exact absurd hp (by simp)
  rw [hn, AList.lookup_insert_ne hne]
  exact h.self

end Wired

/-! ## The progress of a new leader -/

theorem lookup_foldl_insert (f : NodeId → Progress) (p : NodeId) :
    ∀ (ps : List NodeId) (m : NodeMap Progress),
      (ps.foldl (fun m q => m.insert q (f q)) m).lookup p =
        if p ∈ ps then some (f p) else m.lookup p := by
  intro ps
  induction ps with
  | nil => intro m; rfl
  | cons q rest ih =>
    intro m
    rw [List.foldl_cons, ih]
    by_cases hrest : p ∈ rest
    · rw [if_pos hrest, if_pos (List.mem_cons_of_mem q hrest)]
    · by_cases hpq : p = q
      · subst hpq
        rw [if_neg hrest, if_pos List.mem_cons_self, AList.lookup_insert]
      · rw [if_neg hrest, AList.lookup_insert_ne hpq, if_neg]
        intro hmem
        rcases List.mem_cons.mp hmem with h | h
        · exact hpq h
        · exact hrest h

theorem lookup_initialProgress (n : RaftNode) (p : NodeId) :
    n.initialProgress.lookup p =
      if p ∈ n.peers then some (Progress.new (n.lastIndex + 1) (n.confState.isLearner p))
      else none := by
  rw [RaftNode.initialProgress, lookup_foldl_insert]
  rfl

/-! ## Lists of moves -/

theorem View.set_set (v : View) (i : NodeId) (a b : Core) (ms ms' : List Message) :
    (v.set i a ms).set i b ms' = v.set i b (ms ++ ms') := by
  show View.mk _ _ = View.mk _ _
  rw [View.set_net, List.append_assoc]
  congr 1
  show Function.update (Function.update v.core i a) i b = _
  rw [Function.update_idem]

theorem View.set_self (v : View) (i : NodeId) : v.set i (v.core i) [] = v := by
  show View.mk _ _ = View.mk _ _
  rw [Function.update_eq_self, List.append_nil]

variable {S : Setup} {strict : Prop}

theorem Moves.one {v v' : View} {m : Move} (hm : m.Enabled S strict v) (hv : m.apply v = v') :
    Moves S strict v [m] v' := ⟨hm, hv.symm⟩

/-- A call of node `i` in view `v`, and the moves it is made of. -/
def Refined (S : Setup) (strict : Prop) (v : View) (i : NodeId) (o : Output) : Prop :=
  ∃ ms, Moves S strict v ms (v.set i o.node.core o.messages)

theorem Refined.send {v : View} {i : NodeId} {o : Output} (hi : i ∈ S.voters)
    (hcore : o.node.core = v.core i) (hms : ∀ m ∈ o.messages, Sendable v i m) :
    Refined S strict v i o := by
  refine ⟨[.send i o.messages], Moves.one ⟨hi, hms⟩ ?_⟩
  rw [hcore]
  rfl

/-- A move to `core₁` followed by the rest of the call from there. -/
theorem Refined.cons {v : View} {i : NodeId} {o : Output} {m : Move} (core₁ : Core)
    (hm : m.Enabled S strict v) (hv : m.apply v = v.set i core₁ [])
    (hrest : Refined S strict (v.set i core₁ []) i o) : Refined S strict v i o := by
  obtain ⟨ms, hms⟩ := hrest
  rw [View.set_set, List.nil_append] at hms
  refine ⟨m :: ms, hm, ?_⟩
  rw [hv]
  exact hms

/-! ## The handlers -/

section Handlers

variable {v : View} {i : NodeId} {n : RaftNode} {msg : Message}

theorem refined_handleHeartbeat (env : Env) (hi : i ∈ S.voters) (hn : v.core i = n.core) :
    Refined S strict v i (n.handleHeartbeat env msg) := by
  unfold RaftNode.handleHeartbeat
  simp only
  split
  · refine Refined.send hi hn.symm (fun m hm => ?_)
    exact absurd hm (by simp [Output.messages])
  · refine Refined.send hi hn.symm (fun m hm => ?_)
    obtain rfl := List.mem_singleton.mp (by simpa [Output.messages] using hm)
    exact Or.inl rfl

theorem prevMatches_iff : n.prevMatches msg = true ↔ PrevMatches n.log msg := by
  rw [RaftNode.prevMatches, Bool.or_eq_true, decide_eq_true_eq, decide_eq_true_eq]
  rfl

/-- The strict guard of an append, read off the node. -/
def AppendGuard (strict : Prop) (n : RaftNode) (msg : Message) : Prop :=
  strict → ¬ msg.term < n.term → n.prevMatches msg = true → KeepsTail n.log msg

theorem refined_handleAppendEntries (env : Env) (hi : i ∈ S.voters) (hn : v.core i = n.core)
    (hw : Wired S i n) (hmem : msg ∈ v.net) (htype : msg.msgType = .appendEntries)
    (hto : msg.to_ = i) (hle : msg.term ≤ n.term) (hg : AppendGuard strict n msg) :
    Refined S strict v i (n.handleAppendEntries env msg) := by
  unfold RaftNode.handleAppendEntries
  simp only
  split
  · refine Refined.send hi hn.symm (fun m hm => ?_)
    obtain rfl := List.mem_singleton.mp (by simpa [Output.messages] using hm)
    rfl
  · rename_i hstale
    split
    · refine Refined.send hi hn.symm (fun m hm => ?_)
      obtain rfl := List.mem_singleton.mp (by simpa [Output.messages] using hm)
      rfl
    · rename_i hprev
      have hterm : msg.term = n.term := by
        have : ¬ msg.term < n.term := hstale
        omega
      have hprev' : n.prevMatches msg = true := by
        cases hp : n.prevMatches msg
        · exact absurd (show (!n.prevMatches msg) = true by rw [hp]; rfl) hprev
        · rfl
      have hmatch : PrevMatches n.log msg := prevMatches_iff.mp hprev'
      refine ⟨[.append i msg], Moves.one ⟨hi, hmem, htype, hto, ?_, ?_, ?_⟩ ?_⟩
      · rw [hn]
        exact hterm
      · rw [hn]
        exact hmatch
      · intro hs
        rw [hn]
        exact hg hs hstale hprev'
      · show v.set i _ _ = v.set i _ _
        rw [hn]
        have hid : n.id = i := hw.id_eq
        simp [Output.messages, acceptanceOf, RaftNode.core, RaftNode.resetElectionTimeout,
          RaftNode.lastIndex, RaftNode.id, hterm] at hid ⊢
        rw [hid]

theorem advanceCommitIndex_core (n : RaftNode) : n.advanceCommitIndex.core = n.core := by
  unfold RaftNode.advanceCommitIndex
  split
  · rfl
  · split <;> rfl

theorem refined_handleAppendResponse (hi : i ∈ S.voters) (hn : v.core i = n.core)
    (hmem : msg ∈ v.net) (htype : msg.msgType = .appendResponse) :
    Refined S strict v i (n.handleAppendResponse msg) := by
  unfold RaftNode.handleAppendResponse
  split
  · exact Refined.send hi hn.symm (fun m hm => absurd hm (by simp [Output.messages]))
  · rename_i hlead
    rw [not_or, not_not, not_not] at hlead
    split
    · exact Refined.send hi hn.symm (fun m hm => absurd hm (by simp [Output.messages]))
    · rename_i pr hpr
      -- Only the sender's progress changes; its match index is kept or acknowledged.
      have track : ∀ pr' : Progress, (pr'.matchIndex = pr.matchIndex ∨
          (msg.reject = false ∧ pr'.matchIndex = msg.index)) →
          (Move.track i (n.progress.insert msg.from_ pr')).Enabled S strict v := by
        intro pr' hmatch
        refine ⟨hi, by rw [hn]; exact hlead.1, fun p q hq => ?_⟩
        rw [hn]
        by_cases hp : p = msg.from_
        · subst hp
          rw [AList.lookup_insert] at hq
          obtain rfl := Option.some.inj hq
          rcases hmatch with hkeep | ⟨hacc, hindex⟩
          · exact Or.inr (Or.inl ⟨pr, hpr, hkeep.symm⟩)
          · exact Or.inr (Or.inr ⟨msg, ⟨hmem, htype, hacc, rfl, hlead.2⟩, hindex.symm⟩)
        · rw [AList.lookup_insert_ne hp] at hq
          exact Or.inr (Or.inl ⟨q, hq, rfl⟩)
      split
      · have hkeep : (RaftNode.backOff pr msg.rejectHint).matchIndex = pr.matchIndex := rfl
        refine ⟨_, Moves.one (track _ (Or.inl hkeep)) ?_⟩
        show v.set i _ _ = v.set i _ _
        rw [hn]
        rfl
      · rename_i hacc
        refine ⟨_, Moves.one (track (pr.becomeAccept msg.index) ?_) ?_⟩
        · unfold Progress.becomeAccept
          simp only
          split
          · exact Or.inr ⟨by simpa using hacc, rfl⟩
          · exact Or.inl rfl
        · show v.set i _ _ = v.set i _ _
          rw [hn, advanceCommitIndex_core]
          rfl

/-- The strict guard of a vote, asked for only when the vote is granted. -/
def VoteGuard (strict : Prop) (v : View) (i : NodeId) (n : RaftNode) (msg : Message) : Prop :=
  strict → ¬ msg.term < n.term → (n.canVote msg && n.logOk msg) = true →
    CandidateUpToDate v i msg

theorem canVote_iff : n.canVote msg = true ↔
    (n.votedFor = 0 ∨ n.votedFor = msg.from_) ∧ n.votedFor ≠ n.id := by
  simp [RaftNode.canVote]

theorem refined_handleRequestVote (env : Env) (hi : i ∈ S.voters) (hn : v.core i = n.core)
    (hw : Wired S i n) (hmem : msg ∈ v.net) (htype : msg.msgType = .requestVote)
    (hto : msg.to_ = i) (hle : msg.term ≤ n.term) (hg : VoteGuard strict v i n msg) :
    Refined S strict v i (n.handleRequestVote env msg) := by
  unfold RaftNode.handleRequestVote
  split
  · refine Refined.send hi hn.symm (fun m hm => ?_)
    obtain rfl := List.mem_singleton.mp (by simpa [Output.messages] using hm)
    rfl
  · rename_i hstale
    have hterm : msg.term = n.term := by omega
    cases hgrant : n.canVote msg && n.logOk msg
    · refine Refined.send hi (by simp [hn]) (fun m hm => ?_)
      obtain rfl := List.mem_singleton.mp (by simpa [Output.messages] using hm)
      rfl
    · have hcan := canVote_iff.mp (Bool.and_eq_true_iff.mp hgrant).1
      rw [hw.id_eq] at hcan
      refine ⟨[.grant i msg], Moves.one ⟨hi, hmem, htype, hto, ?_, ?_, ?_, ?_⟩ ?_⟩
      · rw [hn]
        exact hterm
      · rw [hn]
        exact hcan.1
      · rw [hn]
        exact hcan.2
      · exact fun hs => hg hs hstale hgrant
      · show v.set i _ _ = v.set i _ _
        have hid : n.config.id = i := hw.id_eq
        rw [hn]
        simp [Output.messages, grantTo, RaftNode.core, RaftNode.resetElectionTimeout,
          RaftNode.id, hterm, hid]

theorem quorum_granted {votes : NodeMap Bool} {total : Nat}
    (hq : isQuorum total (votes.entries.filter (fun e => e.2)).length = true) :
    total < 2 * (passing votes fun granted => granted).card := by
  rw [card_passing]
  unfold isQuorum at hq
  rw [decide_eq_true_eq] at hq
  omega

theorem Wired.becomeLeader {n : RaftNode} (hw : Wired S i n) : Wired S i n.becomeLeader := by
  refine ⟨hw.config, hw.confState, ?_⟩
  show n.initialProgress.lookup i = none
  rw [lookup_initialProgress, if_neg]
  exact fun hmem => (hw.mem_peers.mp hmem).2 rfl

/-- What a fresh leader sends is a slice of its log: the no-op at its end. -/
theorem sendable_buildAppendAcks (hn : v.core i = n.becomeLeader.core)
    (hw : Wired S i n.becomeLeader) (hlog : n.log ≠ []) :
    ∀ m ∈ n.becomeLeader.buildAppendAcks.messages, Sendable v i m := by
  intro m hm
  obtain ⟨p, hp, rfl⟩ := List.mem_map.mp hm
  have hpos : 0 < n.log.length := List.length_pos_iff.mpr hlog
  have hlen : n.becomeLeader.log.length = n.log.length + 1 := by simp [RaftNode.becomeLeader]
  have hentries : (if n.becomeLeader.log.length > 1 then
      n.becomeLeader.log.getLast?.toList else []) = [n.core.newEntry []] := by
    rw [if_pos (by omega)]
    simp [RaftNode.becomeLeader, Core.newEntry, RaftNode.core, RaftNode.lastIndex]
  refine ⟨⟨?_, hw.id_eq, ?_, (hw.mem_peers.mp hp).2⟩, ?_, ?_, ?_⟩
  · rw [hn]
    rfl
  · rw [hn]
    rfl
  · show (if n.becomeLeader.log.length > 1 then _ else _) ≠ []
    rw [hentries]
    simp
  · show n.becomeLeader.log.length - 1 ≤ (v.core i).log.length
    rw [hn]
    exact Nat.sub_le _ _
  · show (if n.becomeLeader.log.length > 1 then _ else _) <+: (v.core i).log.drop (_ - 1)
    rw [hentries, hn]
    show _ <+: n.becomeLeader.log.drop (n.becomeLeader.log.length - 1)
    rw [hlen]
    simp [RaftNode.becomeLeader, Core.newEntry, RaftNode.core, RaftNode.lastIndex]

/-- Following one's own term keeps term and vote. -/
theorem becomeFollower_core (env : Env) (n : RaftNode) (leaderId : NodeId) :
    (n.becomeFollower env n.term leaderId).core =
      { n.core with state := .follower, votes := ∅, progress := ∅ } := by
  simp [RaftNode.becomeFollower, RaftNode.reset, RaftNode.resetElectionTimeout, RaftNode.core]

theorem refined_handleVoteResponse (env : Env) (hi : i ∈ S.voters) (hn : v.core i = n.core)
    (hw : Wired S i n) (hlog : n.log ≠ []) (hmem : msg ∈ v.net)
    (htype : msg.msgType = .voteResponse) (hto : msg.to_ = i) :
    Refined S strict v i (n.handleVoteResponse env msg) := by
  unfold RaftNode.handleVoteResponse
  split
  · exact Refined.send hi hn.symm (fun m hm => absurd hm (by simp [Output.messages]))
  · rename_i hcand
    rw [not_or, not_not, not_not] at hcand
    simp only
    -- The response is counted first; what follows depends on the counts.
    have hw₁ : Wired S i (n.countVote msg) := hw.of_eq rfl rfl (Or.inl rfl)
    refine Refined.cons (m := .tally i msg) (n.countVote msg).core ?_ ?_ ?_
    · refine ⟨hi, hmem, htype, hto, ?_, ?_⟩
      · rw [hn]
        exact hcand.2
      · rw [hn]
        exact hcand.1
    · show v.set i _ _ = v.set i _ _
      rw [hn]
      rfl
    have hcore₁ := View.set_core_self v i (n.countVote msg).core []
    split
    · rename_i hq
      refine Refined.cons (m := .lead i (n.countVote msg).initialProgress)
        (n.countVote msg).becomeLeader.core ?_ ?_ ?_
      · refine ⟨hi, ?_, ?_, fun p pr hp => ?_⟩
        · rw [hcore₁]
          exact hcand.1
        · rw [hcore₁]
          rw [hw₁.voters] at hq
          exact quorum_granted hq
        · rw [lookup_initialProgress] at hp
          split at hp
          · obtain rfl := Option.some.inj hp
            rfl
          · exact absurd hp (by simp)
      · show View.set _ i _ _ = View.set _ i _ _
        rw [hcore₁]
        rfl
      · have hcore₂ := View.set_core_self (v.set i (n.countVote msg).core []) i
          (n.countVote msg).becomeLeader.core []
        refine Refined.send hi hcore₂.symm (fun m hm => ?_)
        refine sendable_buildAppendAcks hcore₂ hw₁.becomeLeader hlog m ?_
        simpa [Output.messages] using hm
    · split
      · refine Refined.cons (m := .rest i .follower ∅ ∅)
          ((n.countVote msg).becomeFollower env (n.countVote msg).term 0).core
          ⟨hi, Or.inl rfl⟩ ?_ ?_
        · rw [becomeFollower_core]
          show View.set _ i _ _ = View.set _ i _ _
          rw [hcore₁]
        · exact Refined.send hi (View.set_core_self _ i _ _).symm
            (fun m hm => absurd hm (by simp [Output.messages]))
      · exact Refined.send hi hcore₁.symm (fun m hm => absurd hm (by simp [Output.messages]))

/-! ## Campaigns and pre-votes -/

theorem refined_campaign (env : Env) (hi : i ∈ S.voters) (hn : v.core i = n.core)
    (hw : Wired S i n) : Refined S strict v i (n.campaign env) := by
  have hid : n.config.id = i := hw.id_eq
  refine ⟨[.campaign i (n.campaign env).messages], Moves.one ⟨hi, fun m hm => ?_⟩ ?_⟩
  · have hm' : m ∈ (n.campaign env).built := by simpa [Output.messages, RaftNode.campaign] using hm
    obtain ⟨p, hp, rfl⟩ := List.mem_map.mp hm'
    have hw' : Wired S i (n.becomeCandidate env) := hw.of_eq rfl rfl (Or.inr rfl)
    refine ⟨rfl, hw'.id_eq, (hw'.mem_peers.mp hp).2, ?_⟩
    rw [hn]
    rfl
  · show v.set i _ _ = v.set i _ _
    rw [hn, ← hid]
    rfl

theorem refined_preCampaign (env : Env) (hi : i ∈ S.voters) (hn : v.core i = n.core) :
    Refined S strict v i (n.preCampaign env) := by
  refine Refined.cons (m := .rest i .preCandidate ((∅ : NodeMap Bool).insert n.id true) n.progress)
    (n.becomePreCandidate env).core ⟨hi, Or.inr rfl⟩ ?_ ?_
  · show v.set i _ _ = v.set i _ _
    rw [hn]
    rfl
  · refine Refined.send hi (View.set_core_self _ i _ _).symm (fun m hm => ?_)
    have hm' : m ∈ (n.preCampaign env).built := by
      simpa [Output.messages, RaftNode.preCampaign] using hm
    obtain ⟨p, -, rfl⟩ := List.mem_map.mp hm'
    exact trivial

theorem refined_handleRequestPreVote (env : Env) (hi : i ∈ S.voters) (hn : v.core i = n.core) :
    Refined S strict v i (n.handleRequestPreVote env msg) := by
  refine Refined.send hi hn.symm (fun m hm => ?_)
  obtain rfl := List.mem_singleton.mp
    (by simpa [Output.messages, RaftNode.handleRequestPreVote] using hm)
  exact trivial

theorem refined_handlePreVoteResponse (env : Env) (hi : i ∈ S.voters) (hn : v.core i = n.core)
    (hw : Wired S i n) : Refined S strict v i (n.handlePreVoteResponse env msg) := by
  unfold RaftNode.handlePreVoteResponse
  split
  · exact Refined.send hi hn.symm (fun m hm => absurd hm (by simp [Output.messages]))
  · rename_i hpre
    rw [not_or, not_not, not_not] at hpre
    simp only
    refine Refined.cons (m := .rest i .preCandidate (n.countVote msg).votes n.progress)
      (n.countVote msg).core ⟨hi, Or.inr rfl⟩ ?_ ?_
    · show v.set i _ _ = v.set i _ _
      rw [hn, ← hpre.1]
      rfl
    · have hcore₁ := View.set_core_self v i (n.countVote msg).core []
      split
      · exact refined_campaign env hi hcore₁ (hw.of_eq rfl rfl (Or.inl rfl))
      · exact Refined.send hi hcore₁.symm (fun m hm => absurd hm (by simp [Output.messages]))

theorem refined_tick (env : Env) (hi : i ∈ S.voters) (hn : v.core i = n.core)
    (hw : Wired S i n) : Refined S strict v i (n.tick env).1 := by
  have idle : ∀ n' : RaftNode, n'.core = n.core → Refined S strict v i { node := n' } :=
    fun n' h => Refined.send hi (h.trans hn.symm)
      (fun m hm => absurd hm (by simp [Output.messages]))
  have timeout : Refined S strict v i (n.handleElectionTimeout env) := by
    unfold RaftNode.handleElectionTimeout
    split
    · exact refined_preCampaign env hi hn
    · exact refined_campaign env hi hn hw
  unfold RaftNode.tick
  split
  · split
    · exact idle _ rfl
    · split
      · unfold RaftNode.checkQuorum
        simp only
        split
        · refine ⟨[.rest i .follower ∅ ∅], Moves.one ⟨hi, Or.inl rfl⟩ ?_⟩
          have hcore : ∀ b : Bool, ({ n.becomeFollower env n.term 0 with
              quorumRecentlyActive := b } : RaftNode).core =
                { n.core with state := .follower, votes := ∅, progress := ∅ } :=
            fun b => becomeFollower_core env n 0
          show v.set i _ _ = v.set i _ _
          rw [hcore, hn]
          rfl
        · exact idle _ rfl
      · exact idle _ rfl
  · split
    · exact timeout
    · exact idle _ rfl

/-! ## Proposals, reads and ready -/

theorem refined_propose (data : List UInt8) (hi : i ∈ S.voters) (hn : v.core i = n.core) :
    Refined S strict v i { node := (n.propose data).1 } := by
  unfold RaftNode.propose
  split
  · exact Refined.send hi hn.symm (fun m hm => absurd hm (by simp [Output.messages]))
  · rename_i hlead
    refine ⟨[.propose i data], Moves.one ⟨hi, ?_⟩ ?_⟩
    · rw [hn]
      show n.state = .leader
      simpa [RaftNode.isLeader] using hlead
    · show v.set i _ _ = v.set i _ _
      rw [hn]
      rfl

theorem refined_readIndex (ctx : List UInt8) (hi : i ∈ S.voters) (hn : v.core i = n.core) :
    Refined S strict v i { node := (n.readIndex ctx).1 } := by
  refine Refined.send hi ?_ (fun m hm => absurd hm (by simp [Output.messages]))
  rw [hn]
  show (n.readIndex ctx).1.core = n.core
  unfold RaftNode.readIndex
  split <;> rfl

theorem refined_takeReadStates (hi : i ∈ S.voters) (hn : v.core i = n.core) :
    Refined S strict v i { node := n.takeReadStates.1 } :=
  Refined.send hi (hn.symm ▸ rfl) (fun m hm => absurd hm (by simp [Output.messages]))

/-- What `ready` sends to a peer is a heartbeat of the leader or a slice of its log. -/
theorem sendable_replicate (hn : v.core i = n.core) (hw : Wired S i n) (hlead : n.state = .leader)
    (hlog : n.log ≠ []) {p : NodeId} {pr : Progress} (hp : n.progress.lookup p = some pr) :
    Sendable v i (n.replicate p pr) := by
  have hne : p ≠ i := by
    rintro rfl
    rw [hw.self] at hp
    exact absurd hp (by simp)
  have hauth : ∀ m : Message, m.from_ = n.id → m.to_ = p → m.term = n.term → Authored v i m := by
    intro m hfrom hto hterm
    refine ⟨?_, hfrom.trans hw.id_eq, ?_, ?_⟩
    · rw [hn]
      exact hlead
    · rw [hn]
      exact hterm
    · rw [hto]
      exact hne
  unfold RaftNode.replicate
  split
  · exact Or.inr (hauth _ rfl rfl rfl)
  · rename_i hnext
    have hpos : 0 < n.lastIndex := List.length_pos_iff.mpr hlog
    have hslice := getEntries_slice (some n.config.maxMsgSize) hnext hpos
    refine ⟨hauth _ rfl rfl rfl, hslice.1, ?_, ?_⟩
    · rw [hn]
      show pr.nextIndex - 1 ≤ n.log.length
      unfold RaftNode.lastIndex at hnext
      omega
    · rw [hn]
      exact hslice.2

/-- A leader's ready is never empty: it carries the hard state. -/
theorem takeReady_leader (hlead : n.state = .leader) :
    n.takeReady = (n.markApplied, some n.leaderReady) := by
  rw [RaftNode.takeReady, if_neg (by rw [not_not]; exact hlead)]
  rfl

theorem refined_takeReady (hi : i ∈ S.voters) (hn : v.core i = n.core) (hw : Wired S i n)
    (hlog : n.log ≠ []) :
    Refined S strict v i { node := n.takeReady.1, ready := n.takeReady.2 } := by
  by_cases hlead : n.state = .leader
  · rw [takeReady_leader hlead]
    refine Refined.send hi hn.symm (fun m hm => ?_)
    have hm' : m ∈ n.leaderReady.messages := by simpa [Output.messages] using hm
    obtain ⟨⟨p, pr⟩, hp, rfl⟩ := List.mem_map.mp hm'
    have hlook := AList.mem_lookup_iff.mpr (List.mem_filter.mp hp).1
    exact sendable_replicate hn hw hlead hlog hlook
  · rw [RaftNode.takeReady, if_pos hlead]
    exact Refined.send hi hn.symm (fun m hm => absurd hm (by simp [Output.messages]))

/-! ## Observing a term, and the whole of `step` -/

theorem becomeFollower_core_of_lt (env : Env) {term : Nat} (leaderId : NodeId)
    (hlt : n.term < term) :
    (n.becomeFollower env term leaderId).core =
      { n.core with term, votedFor := 0, state := .follower, votes := ∅, progress := ∅ } := by
  have hne : n.term ≠ term := by omega
  simp [RaftNode.becomeFollower, RaftNode.reset, RaftNode.resetElectionTimeout, RaftNode.core, hne]

theorem le_observeTerm (env : Env) : msg.term ≤ (n.observeTerm env msg).term := by
  unfold RaftNode.observeTerm
  split
  · exact Nat.le_refl _
  · omega

theorem Wired.observeTerm (env : Env) (hw : Wired S i n) : Wired S i (n.observeTerm env msg) := by
  unfold RaftNode.observeTerm
  split
  · exact hw.of_eq rfl rfl (Or.inr rfl)
  · exact hw

theorem observeTerm_log (env : Env) (n : RaftNode) (msg : Message) :
    (n.observeTerm env msg).log = n.log := by
  unfold RaftNode.observeTerm
  split <;> rfl

/-- The guards of a delivery, read off the node after it has observed the term. -/
structure StepGuard (strict : Prop) (v : View) (i : NodeId) (n : RaftNode) (msg : Message) :
    Prop where
  append : msg.msgType = .appendEntries → AppendGuard strict n msg
  vote : msg.msgType = .requestVote → VoteGuard strict v i n msg

theorem refined_handle (env : Env) (hi : i ∈ S.voters) (hn : v.core i = n.core)
    (hw : Wired S i n) (hlog : n.log ≠ []) (hmem : msg ∈ v.net) (hto : msg.to_ = i)
    (hle : msg.term ≤ n.term) (hinstall : msg.msgType ≠ .installSnapshot)
    (hanswer : msg.msgType ≠ .snapshotResponse) (hg : StepGuard strict v i n msg) :
    Refined S strict v i (n.handle env msg) := by
  unfold RaftNode.handle
  split
  · exact refined_handleHeartbeat env hi hn
  · rename_i htype
    exact refined_handleAppendEntries env hi hn hw hmem htype hto hle (hg.append htype)
  · rename_i htype
    exact refined_handleAppendResponse hi hn hmem htype
  · rename_i htype
    exact refined_handleRequestVote env hi hn hw hmem htype hto hle (hg.vote htype)
  · rename_i htype
    exact refined_handleVoteResponse env hi hn hw hlog hmem htype hto
  · exact refined_handleRequestPreVote env hi hn
  · exact refined_handlePreVoteResponse env hi hn hw
  · rename_i htype
    exact absurd htype hinstall
  · rename_i htype
    exact absurd htype hanswer
  · exact Refined.send hi hn.symm (fun m hm => absurd hm (by simp [Output.messages]))

theorem refined_step (env : Env) (hi : i ∈ S.voters) (hn : v.core i = n.core)
    (hw : Wired S i n) (hlog : n.log ≠ []) (hmem : msg ∈ v.net) (hto : msg.to_ = i)
    (hinstall : msg.msgType ≠ .installSnapshot) (hanswer : msg.msgType ≠ .snapshotResponse)
    (hg : StepGuard strict (v.set i (n.observeTerm env msg).core []) i
      (n.observeTerm env msg) msg) :
    Refined S strict v i (n.step env msg) := by
  have hhandle : Refined S strict (v.set i (n.observeTerm env msg).core []) i
      ((n.observeTerm env msg).handle env msg) := by
    refine refined_handle env hi (View.set_core_self v i _ []) (hw.observeTerm env) ?_ ?_ hto
      (le_observeTerm env) hinstall hanswer hg
    · rw [observeTerm_log]
      exact hlog
    · rw [View.set_net, List.append_nil]
      exact hmem
  by_cases hterm : msg.term > n.term
  · refine Refined.cons (m := .observe i msg.term) _ ⟨hi, ?_⟩ ?_ hhandle
    · rw [hn]
      exact hterm
    · show v.set i _ _ = v.set i _ _
      rw [hn, RaftNode.observeTerm, if_pos hterm, becomeFollower_core_of_lt env _ hterm]
  · have hsame : n.observeTerm env msg = n := if_neg hterm
    rw [hsame, ← hn, View.set_self] at hhandle
    rw [RaftNode.step, hsame]
    exact hhandle

end Handlers

/-! ## Wiring is kept -/

section Wiring

variable {i : NodeId} {n : RaftNode} {msg : Message}

theorem Wired.init (S : Setup) (i : NodeId) :
    Wired S i (RaftNode.newWithConf (S.boot i) (S.config i) S.voters) :=
  ⟨rfl, rfl, AList.lookup_empty i⟩

theorem Wired.campaign (env : Env) (hw : Wired S i n) : Wired S i (n.campaign env).node :=
  hw.of_eq rfl rfl (Or.inr rfl)

theorem Wired.preCampaign (env : Env) (hw : Wired S i n) : Wired S i (n.preCampaign env).node :=
  hw.of_eq rfl rfl (Or.inl rfl)

theorem Wired.tick (env : Env) (hw : Wired S i n) : Wired S i (n.tick env).1.node := by
  unfold RaftNode.tick
  split
  · split
    · exact hw.of_eq rfl rfl (Or.inl rfl)
    · split
      · unfold RaftNode.checkQuorum
        simp only
        split
        · exact hw.of_eq rfl rfl (Or.inr rfl)
        · exact hw.of_eq rfl rfl (Or.inl rfl)
      · exact hw
  · split
    · unfold RaftNode.handleElectionTimeout
      split
      · exact hw.preCampaign env
      · exact hw.campaign env
    · exact hw

theorem Wired.advanceCommitIndex (hw : Wired S i n) : Wired S i n.advanceCommitIndex := by
  unfold RaftNode.advanceCommitIndex
  split
  · exact hw
  · split
    · exact hw.of_eq rfl rfl (Or.inl rfl)
    · exact hw

theorem Wired.handle (env : Env) (hw : Wired S i n) : Wired S i (n.handle env msg).node := by
  unfold RaftNode.handle
  split
  · unfold RaftNode.handleHeartbeat
    simp only
    split <;> exact hw.of_eq rfl rfl (Or.inl rfl)
  · unfold RaftNode.handleAppendEntries
    simp only
    split
    · exact hw.of_eq rfl rfl (Or.inl rfl)
    · split <;> exact hw.of_eq rfl rfl (Or.inl rfl)
  · unfold RaftNode.handleAppendResponse
    split
    · exact hw
    · split
      · exact hw
      · rename_i pr hpr
        split
        · exact hw.track rfl rfl hpr rfl
        · have haccept : Wired S i { n with
              progress := n.progress.insert msg.from_ (pr.becomeAccept msg.index) } :=
            hw.track rfl rfl hpr rfl
          exact haccept.advanceCommitIndex
  · unfold RaftNode.handleRequestVote
    split
    · exact hw
    · simp only
      split
      · exact hw.of_eq rfl rfl (Or.inl rfl)
      · exact hw
  · unfold RaftNode.handleVoteResponse
    have hcount : Wired S i (n.countVote msg) := hw.of_eq rfl rfl (Or.inl rfl)
    split
    · exact hw
    · simp only
      split
      · exact hcount.becomeLeader
      · split
        · exact hcount.of_eq rfl rfl (Or.inr rfl)
        · exact hcount
  · exact hw
  · unfold RaftNode.handlePreVoteResponse
    have hcount : Wired S i (n.countVote msg) := hw.of_eq rfl rfl (Or.inl rfl)
    split
    · exact hw
    · simp only
      split
      · exact hcount.campaign env
      · exact hcount
  · unfold RaftNode.handleInstallSnapshot
    split
    · exact hw
    · simp only
      split <;> exact hw.of_eq rfl rfl (Or.inl rfl)
  · unfold RaftNode.handleSnapshotResponse
    split
    · exact hw
    · split
      · exact hw
      · rename_i pr hpr
        split
        · exact hw.track rfl rfl hpr rfl
        · exact hw
  · exact hw

theorem Wired.propose (data : List UInt8) (hw : Wired S i n) : Wired S i (n.propose data).1 := by
  unfold RaftNode.propose
  split
  · exact hw
  · exact hw.of_eq rfl rfl (Or.inl rfl)

theorem Wired.readIndex (ctx : List UInt8) (hw : Wired S i n) : Wired S i (n.readIndex ctx).1 := by
  unfold RaftNode.readIndex
  split
  · exact hw
  · exact hw.of_eq rfl rfl (Or.inl rfl)

theorem Wired.takeReady (hw : Wired S i n) : Wired S i n.takeReady.1 := by
  unfold RaftNode.takeReady
  split
  · exact hw
  · exact hw.of_eq rfl rfl (Or.inl rfl)

end Wiring

/-! ## Events -/

def Event.node : Event → NodeId
  | .tick i _ | .propose i _ | .readIndex i _ | .readStates i | .ready i => i
  | .deliver msg _ => msg.to_

/-- An append that node `n` accepts leaves the tail of its log alone. -/
def AppendKeepsTail (n : RaftNode) (msg : Message) : Prop :=
  msg.msgType = .appendEntries → ¬ msg.term < n.term → n.prevMatches msg = true →
    KeepsTail n.log msg

/-- A vote that node `n` grants goes to a candidate with a log at least as up to
date as its own. -/
def VoteUpToDate (c : Cluster) (n : RaftNode) (msg : Message) : Prop :=
  msg.msgType = .requestVote → ¬ msg.term < n.term → (n.canVote msg && n.logOk msg) = true →
    (c.node msg.from_).state = .candidate → (c.node msg.from_).term = msg.term →
      UpToDate LogEntry.term (c.node msg.from_).log n.log

/-- The guards under which committed entries survive, for one event.  Only a
delivery can break them. -/
def Guarded (c : Cluster) : Event → Prop
  | .deliver msg env =>
    AppendKeepsTail ((c.node msg.to_).observeTerm env msg) msg ∧
      VoteUpToDate c ((c.node msg.to_).observeTerm env msg) msg
  | _ => True

instance (c : Cluster) : (e : Event) → Decidable (Guarded c e)
  | .deliver msg env =>
    have : Decidable (AppendKeepsTail ((c.node msg.to_).observeTerm env msg) msg) :=
      inferInstanceAs (Decidable (_ → _))
    have : Decidable (VoteUpToDate c ((c.node msg.to_).observeTerm env msg) msg) :=
      inferInstanceAs (Decidable (_ → _))
    inferInstanceAs (Decidable (_ ∧ _))
  | .tick _ _ | .propose _ _ | .readIndex _ _ | .readStates _ | .ready _ => isTrue trivial

theorem VoteUpToDate.candidate {c : Cluster} {n : RaftNode} {msg : Message}
    (hg : VoteUpToDate c n msg) (htype : msg.msgType = .requestVote)
    (hterm : ¬ msg.term < n.term) (hgrant : (n.canVote msg && n.logOk msg) = true) :
    CandidateUpToDate (c.view.set msg.to_ n.core []) msg.to_ msg := by
  intro hstate hsame
  rw [View.set_core_self]
  by_cases hfrom : msg.from_ = msg.to_
  · rw [hfrom, View.set_core_self]
    exact .refl _
  · rw [View.set_core_ne _ _ _ hfrom] at hstate hsame ⊢
    exact hg htype hterm hgrant hstate hsame

theorem Cluster.Enabled.node_mem {c : Cluster} {e : Event} (h : Cluster.Enabled S c e) :
    e.node ∈ S.voters := by
  cases e with
  | deliver msg env => exact h.2
  | tick i env => exact h
  | propose i data => exact h
  | readIndex i ctx => exact h
  | readStates i => exact h
  | ready i => exact h

def Cluster.Wired (S : Setup) (c : Cluster) : Prop := ∀ i, Raft.Wired S i (c.node i)

theorem Cluster.Wired.update {c : Cluster} (hw : c.Wired S) {i : NodeId} {o : Output}
    (ho : Raft.Wired S i o.node) : (c.update i o).Wired S := by
  intro j
  show Raft.Wired S j (Function.update c.node i o.node j)
  by_cases hj : j = i
  · subst hj
    rw [Function.update_self]
    exact ho
  · rw [Function.update_of_ne hj]
    exact hw j

theorem Cluster.Wired.apply {c : Cluster} (hw : c.Wired S) (e : Event) : (c.apply e).Wired S := by
  cases e with
  | tick i env => exact hw.update ((hw i).tick env)
  | deliver msg env => exact hw.update (((hw msg.to_).observeTerm env).handle env)
  | propose i data => exact hw.update ((hw i).propose data)
  | readIndex i ctx => exact hw.update ((hw i).readIndex ctx)
  | readStates i => exact hw.update ((hw i).of_eq rfl rfl (Or.inl rfl))
  | ready i => exact hw.update ((hw i).takeReady)

/-- What the moves need of a view: every log has an entry, and nobody sends
snapshots. -/
structure Plain (v : View) : Prop where
  log : ∀ i, (v.core i).log ≠ []
  install : ∀ m ∈ v.net, m.msgType ≠ .installSnapshot
  answer : ∀ m ∈ v.net, m.msgType ≠ .snapshotResponse

/-- An event of the cluster is a few moves of its view. -/
theorem moves_of_event {strict : Prop} {c : Cluster} {e : Event} (hw : c.Wired S)
    (hp : Plain c.view) (he : Cluster.Enabled S c e) (hg : strict → Guarded c e) :
    ∃ ms, Moves S strict c.view ms (c.apply e).view := by
  have hi := he.node_mem
  cases e with
  | tick i env =>
    rw [Cluster.apply, Cluster.view_update]
    exact refined_tick env hi rfl (hw i)
  | deliver msg env =>
    rw [Cluster.apply, Cluster.view_update]
    refine refined_step env hi rfl (hw msg.to_) (hp.log msg.to_) he.1 rfl
      (hp.install msg he.1) (hp.answer msg he.1) ⟨fun ht hs => ?_, fun ht hs => ?_⟩
    · exact (hg hs).1 ht
    · exact (hg hs).2.candidate ht
  | propose i data =>
    rw [Cluster.apply, Cluster.view_update]
    exact refined_propose data hi rfl
  | readIndex i ctx =>
    rw [Cluster.apply, Cluster.view_update]
    exact refined_readIndex ctx hi rfl
  | readStates i =>
    rw [Cluster.apply, Cluster.view_update]
    exact refined_takeReadStates hi rfl
  | ready i =>
    rw [Cluster.apply, Cluster.view_update]
    exact refined_takeReady hi rfl (hw i) (hp.log i)

end Raft
end RTDB
