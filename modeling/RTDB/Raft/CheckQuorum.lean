import RTDB.Lib.Runs
import RTDB.Raft.Progress

/-!
# Check quorum

The leader counts the peers whose progress is flagged.  An accepted response sets the flag of its
sender, and only the next election takes it back.
-/

namespace RTDB
namespace Raft

namespace RaftNode

variable {n : RaftNode} {msg : Message} {p : NodeId} (env : Env)

/-- The peers whose progress is flagged. -/
def activePeers (n : RaftNode) : List NodeId :=
  (n.progress.entries.filter (fun p => p.2.recentActive)).map Sigma.fst

theorem mem_activePeers : p ∈ n.activePeers ↔ ∃ pr ∈ n.progress.lookup p, pr.recentActive = true := by
  rw [activePeers, List.mem_map]
  constructor
  · rintro ⟨⟨q, pr⟩, hentry, rfl⟩
    obtain ⟨hmem, hflag⟩ := List.mem_filter.mp hentry
    exact ⟨pr, AList.mem_lookup_iff.mpr hmem, hflag⟩
  · rintro ⟨pr, hpr, hflag⟩
    exact ⟨⟨p, pr⟩, List.mem_filter.mpr ⟨AList.mem_lookup_iff.mp hpr, hflag⟩, rfl⟩

theorem nodup_activePeers (n : RaftNode) : n.activePeers.Nodup := by
  have hkeys : (n.progress.entries.map Sigma.fst).Nodup := n.progress.nodupKeys
  exact hkeys.sublist (List.Sublist.map _ List.filter_sublist)

/-- A leader that saw its quorum active stays one if it is active still. -/
theorem checkQuorum_leader_iff (hlead : n.state = .leader) (hactive : n.quorumRecentlyActive = true) :
    (n.checkQuorum env).state = .leader ↔ n.quorumSize ≤ n.activePeers.length + 1 := by
  have hcount : (n.progress.entries.filter (fun p => p.2.recentActive)).length =
      n.activePeers.length := (List.length_map _).symm
  simp only [checkQuorum, hcount, hactive, Bool.and_true]
  by_cases hquorum : n.quorumSize ≤ n.activePeers.length + 1
  · simp [hquorum, hlead]
  · simp [hquorum, becomeFollower, resetElectionTimeout]

/-! ## One call -/

/-- The peer whose response the call has the leader accept. -/
def accepts (n : RaftNode) (c : Call) : Option NodeId :=
  c.msg.bind fun msg =>
    if n.state = .leader ∧ msg.msgType = .appendResponse ∧ msg.reject = false ∧
        msg.term = n.term ∧ msg.from_ ∈ n.peers then some msg.from_
    else none

/-- The call evaluates the quorum: it is a tick of a leader that owes no heartbeat. -/
def Evaluates (n : RaftNode) : Call → Prop
  | .tick env => n.state = .leader ∧ env.now - n.lastHeartbeat < n.config.heartbeatInterval ∧
      n.config.checkQuorum = true
  | _ => False

instance (n : RaftNode) : (c : Call) → Decidable (n.Evaluates c)
  | .tick env => inferInstanceAs (Decidable (n.state = .leader ∧
      env.now - n.lastHeartbeat < n.config.heartbeatInterval ∧ n.config.checkQuorum = true))
  | .step _ _ | .propose _ | .readIndex _ | .readStates | .ready => isFalse fun h => h

theorem Evaluates.leader {n : RaftNode} {c : Call} (hevaluates : n.Evaluates c) :
    n.state = .leader := by
  cases c with
  | tick env => exact hevaluates.1
  | step env msg => exact hevaluates.elim
  | propose data => exact hevaluates.elim
  | readIndex ctx => exact hevaluates.elim
  | readStates => exact hevaluates.elim
  | ready => exact hevaluates.elim

theorem evaluates_call {c : Call} (hevaluates : n.Evaluates c) :
    ∃ env, (n.call c).node = n.checkQuorum env := by
  cases c with
  | tick env =>
    obtain ⟨hlead, hearly, hcheck⟩ := hevaluates
    refine ⟨env, ?_⟩
    rw [call, tick_leader env hlead, if_neg (Nat.not_le.mpr hearly), if_pos hcheck]
  | step env msg => exact hevaluates.elim
  | propose data => exact hevaluates.elim
  | readIndex ctx => exact hevaluates.elim
  | readStates => exact hevaluates.elim
  | ready => exact hevaluates.elim

/-- The leader's progress has the voters other than itself for keys. -/
def Covers (n : RaftNode) : Prop := ∀ p, p ∈ n.progress ↔ p ∈ n.peers

/-- What a call does to the flags of a leader: it moves the progress of one peer at most, and sets
the flag of the peer whose response it accepts. -/
inductive Flags (n : RaftNode) (accepted : Option NodeId) (n' : RaftNode) : Prop
  | kept (hprogress : n'.progress = n.progress) (hnone : accepted = none)
  | moved (p : NodeId) (pr pr' : Progress) (hpr : n.progress.lookup p = some pr)
      (hprogress : n'.progress = n.progress.insert p pr') (hnone : accepted = none)
      (hflag : pr'.recentActive = pr.recentActive)
  | set (p : NodeId) (pr pr' : Progress) (hpr : n.progress.lookup p = some pr)
      (hprogress : n'.progress = n.progress.insert p pr') (haccepted : accepted = some p)
      (hflag : pr'.recentActive = true)

theorem Flags.keys {accepted : Option NodeId} {n' : RaftNode} (hflags : Flags n accepted n')
    (q : NodeId) :
    q ∈ n'.progress ↔ q ∈ n.progress := by
  have hinsert : ∀ (p : NodeId) (pr pr' : Progress), n.progress.lookup p = some pr →
      (q ∈ n.progress.insert p pr' ↔ q ∈ n.progress) := by
    intro p pr pr' hpr
    refine ⟨mem_insert_progress hpr, fun hq => (AList.mem_insert _).mpr (Or.inr hq)⟩
  cases hflags with
  | kept hprogress hnone => rw [hprogress]
  | moved p pr pr' hpr hprogress hnone hflag =>
    rw [hprogress]
    exact hinsert p pr pr' hpr
  | set p pr pr' hpr hprogress haccepted hflag =>
    rw [hprogress]
    exact hinsert p pr pr' hpr

theorem Flags.mem_activePeers {accepted : Option NodeId} {n' : RaftNode} (hflags : Flags n accepted n')
    (q : NodeId) : q ∈ n'.activePeers ↔ q ∈ n.activePeers ∨ accepted = some q := by
  rw [RaftNode.mem_activePeers, RaftNode.mem_activePeers]
  cases hflags with
  | kept hprogress hnone =>
    rw [hprogress, hnone]
    simp
  | moved p pr pr' hpr hprogress hnone hflag =>
    rw [hprogress, hnone]
    by_cases hq : q = p
    · subst hq
      rw [AList.lookup_insert, hpr]
      simp [hflag]
    · rw [AList.lookup_insert_ne hq]
      simp
  | set p pr pr' hpr hprogress haccepted hflag =>
    rw [hprogress, haccepted]
    by_cases hq : q = p
    · subst hq
      rw [AList.lookup_insert]
      simp [hflag]
    · rw [AList.lookup_insert_ne hq]
      simp [Ne.symm hq]

theorem accepts_step (hcovers : n.Covers) (hlead : n.state = .leader) :
    n.accepts (.step env msg) =
      if msg.msgType = .appendResponse ∧ msg.reject = false ∧ msg.term = n.term ∧
        msg.from_ ∈ n.progress then some msg.from_ else none := by
  rw [accepts]
  simp [Call.msg, hlead, hcovers msg.from_]

theorem handleAppendResponse_flags (htype : msg.msgType = .appendResponse) (hcovers : n.Covers)
    (hlead : n.state = .leader) :
    Flags n (n.accepts (.step env msg)) (n.handleAppendResponse msg).node := by
  have haccepts := @accepts_step n msg env hcovers hlead
  unfold handleAppendResponse
  split
  · rename_i hidle
    have hterm : msg.term ≠ n.term := hidle.resolve_left (fun hnot => hnot hlead)
    exact .kept rfl (haccepts.trans (if_neg fun hall => hterm hall.2.2.1))
  · rename_i hanswers
    rw [not_or, not_not, not_not] at hanswers
    split
    · rename_i hnone
      refine .kept rfl (haccepts.trans (if_neg fun hall => ?_))
      exact AList.lookup_eq_none.mp hnone hall.2.2.2
    · rename_i pr hpr
      have hmem : msg.from_ ∈ n.progress := AList.lookup_isSome.mp (by rw [hpr]; rfl)
      split
      · rename_i hreject
        refine .moved msg.from_ pr _ hpr rfl (haccepts.trans (if_neg fun hall => ?_)) rfl
        exact absurd (hreject.symm.trans hall.2.1) (by simp)
      · rename_i haccept
        have hcore := advanceCommitIndex_core
          { n with progress := n.progress.insert msg.from_ (pr.becomeAccept msg.index) }
        refine .set msg.from_ pr _ hpr (congrArg Core.progress hcore) (haccepts.trans ?_) rfl
        exact if_pos ⟨htype, Bool.not_eq_true _ ▸ haccept, hanswers.2, hmem⟩

theorem handleSnapshotResponse_flags (htype : msg.msgType = .snapshotResponse) (hcovers : n.Covers)
    (hlead : n.state = .leader) :
    Flags n (n.accepts (.step env msg)) (n.handleSnapshotResponse msg).node := by
  have hnone : n.accepts (.step env msg) = none := by
    rw [accepts_step env hcovers hlead, if_neg (by simp [htype])]
  unfold handleSnapshotResponse
  split
  · exact .kept rfl hnone
  · split
    · exact .kept rfl hnone
    · rename_i pr hpr
      split
      · exact .moved msg.from_ pr _ hpr rfl hnone rfl
      · exact .kept rfl hnone

theorem handle_flags (hcovers : n.Covers) (hlead : n.state = .leader) :
    Flags n (n.accepts (.step env msg)) (n.handle env msg).node := by
  have hnone (hother : msg.msgType ≠ .appendResponse) : n.accepts (.step env msg) = none := by
    rw [accepts_step env hcovers hlead, if_neg (fun hall => hother hall.1)]
  have hasked := @handle_asked n msg env
  cases htype : msg.msgType with
  | heartbeat => exact .kept (hasked (by simp [htype])).2.2 (hnone (by simp [htype]))
  | appendEntries => exact .kept (hasked (by simp [htype])).2.2 (hnone (by simp [htype]))
  | appendResponse =>
    rw [handle.eq_def, htype]
    exact handleAppendResponse_flags env htype hcovers hlead
  | requestVote => exact .kept (hasked (by simp [htype])).2.2 (hnone (by simp [htype]))
  | voteResponse =>
    rw [handle.eq_def, htype]
    refine .kept ?_ (hnone (by simp [htype]))
    show (n.handleVoteResponse env msg).node.progress = n.progress
    rw [handleVoteResponse, if_pos (Or.inl (by simp [hlead]))]
  | requestPreVote => exact .kept (hasked (by simp [htype])).2.2 (hnone (by simp [htype]))
  | preVoteResponse =>
    rw [handle.eq_def, htype]
    refine .kept ?_ (hnone (by simp [htype]))
    show (n.handlePreVoteResponse env msg).node.progress = n.progress
    rw [handlePreVoteResponse, if_pos (Or.inl (by simp [hlead]))]
  | installSnapshot => exact .kept (hasked (by simp [htype])).2.2 (hnone (by simp [htype]))
  | snapshotResponse =>
    rw [handle.eq_def, htype]
    exact handleSnapshotResponse_flags env htype hcovers hlead
  | timeoutNow =>
    rw [handle.eq_def, htype]
    exact .kept rfl (hnone (by simp [htype]))

/-- A leader that leads on after a call. -/
theorem call_flags (c : Call) (hcovers : n.Covers) (hlead : n.state = .leader)
    (hlead' : (n.call c).node.state = .leader) : Flags n (n.accepts c) (n.call c).node := by
  cases c with
  | tick env =>
    refine .kept ?_ rfl
    rw [call] at hlead' ⊢
    rw [tick_leader env hlead] at hlead' ⊢
    split
    · rfl
    · rename_i hearly
      rw [if_neg hearly] at hlead'
      split
      · rename_i hcheck
        rw [if_pos hcheck] at hlead'
        simp only [checkQuorum] at hlead' ⊢
        split
        · rename_i hlost
          rw [if_pos hlost] at hlead'
          exact absurd hlead' (by simp [becomeFollower, resetElectionTimeout])
        · rfl
      · rfl
  | step env msg =>
    rw [call, step_same env (step_leader_le env hlead')]
    exact handle_flags env hcovers hlead
  | propose data =>
    refine .kept ?_ rfl
    rw [call, propose]
    split <;> rfl
  | readIndex ctx =>
    refine .kept ?_ rfl
    rw [call, readIndex]
    split <;> rfl
  | readStates => exact .kept rfl rfl
  | ready =>
    refine .kept ?_ rfl
    rw [call, takeReady]
    split <;> rfl

theorem advanceCommitIndex_quorumRecentlyActive (n : RaftNode) :
    n.advanceCommitIndex.quorumRecentlyActive = n.quorumRecentlyActive := by
  unfold advanceCommitIndex
  split
  · rfl
  · split <;> rfl

theorem handleAppendResponse_quorumRecentlyActive (n : RaftNode) (msg : Message) :
    (n.handleAppendResponse msg).node.quorumRecentlyActive = n.quorumRecentlyActive := by
  unfold handleAppendResponse
  split
  · rfl
  · split
    · rfl
    · split
      · rfl
      · exact advanceCommitIndex_quorumRecentlyActive _

theorem handle_quorumRecentlyActive (hactive : n.quorumRecentlyActive = true) :
    (n.handle env msg).node.quorumRecentlyActive = true := by
  rw [handle.eq_def]
  split
  · simp only [handleHeartbeat]
    split <;> exact hactive
  · simp only [handleAppendEntries]
    split
    · exact hactive
    · split <;> exact hactive
  · exact (handleAppendResponse_quorumRecentlyActive n msg).trans hactive
  · simp only [handleRequestVote]
    split
    · exact hactive
    · split <;> exact hactive
  · simp only [handleVoteResponse]
    split
    · exact hactive
    · split
      · rfl
      · split <;> exact hactive
  · exact hactive
  · simp only [handlePreVoteResponse]
    split
    · exact hactive
    · split <;> exact hactive
  · simp only [handleInstallSnapshot]
    split
    · exact hactive
    · split <;> exact hactive
  · simp only [handleSnapshotResponse]
    split
    · exact hactive
    · split
      · exact hactive
      · split <;> exact hactive
  · exact hactive

/-- A leader that leads on has seen its quorum active. -/
theorem call_quorumRecentlyActive (c : Call) (hactive : n.quorumRecentlyActive = true)
    (hlead : n.state = .leader) (hlead' : (n.call c).node.state = .leader) :
    (n.call c).node.quorumRecentlyActive = true := by
  cases c with
  | tick env =>
    rw [call] at hlead' ⊢
    rw [tick_leader env hlead] at hlead' ⊢
    split
    · exact hactive
    · rename_i hearly
      rw [if_neg hearly] at hlead'
      split
      · rename_i hcheck
        rw [if_pos hcheck] at hlead'
        have hquorum := (checkQuorum_leader_iff env hlead hactive).mp hlead'
        rw [activePeers, List.length_map] at hquorum
        simp only [checkQuorum]
        exact decide_eq_true hquorum
      · exact hactive
  | step env msg =>
    rw [call, step]
    refine handle_quorumRecentlyActive env ?_
    rw [observeTerm]
    split <;> exact hactive
  | propose data =>
    rw [call, propose]
    split <;> exact hactive
  | readIndex ctx =>
    rw [call, readIndex]
    split <;> exact hactive
  | readStates => exact hactive
  | ready =>
    rw [call, takeReady]
    split <;> exact hactive

theorem call_peers (n : RaftNode) (c : Call) : (n.call c).node.peers = n.peers := by
  have hpolls := call_polls (n := n) c
  rw [peers, peers, id, id, hpolls.config, hpolls.confState]

/-! ## Elections -/

theorem call_elected (c : Call) (hidle : n.state ≠ .leader) (hlead' : (n.call c).node.state = .leader) :
    ∃ msg, (n.call c).node = (n.countVote msg).becomeLeader := by
  rcases (call_polls c).leader hlead' with hlead | ⟨msg, hmsg, hcrowned⟩
  · exact absurd hlead hidle
  · cases c with
    | step env m =>
      obtain rfl := Option.some.inj hmsg
      refine ⟨m, ?_⟩
      rw [call, step_crowned_eq env hcrowned]
    | tick env => exact absurd hmsg (by simp [Call.msg])
    | propose data => exact absurd hmsg (by simp [Call.msg])
    | readIndex ctx => exact absurd hmsg (by simp [Call.msg])
    | readStates => exact absurd hmsg (by simp [Call.msg])
    | ready => exact absurd hmsg (by simp [Call.msg])

theorem becomeLeader_covers (n : RaftNode) : n.becomeLeader.Covers := by
  intro p
  show p ∈ n.initialProgress ↔ p ∈ n.peers
  rw [← AList.lookup_isSome, lookup_initialProgress]
  split
  · rename_i hp
    exact iff_of_true rfl hp
  · rename_i hp
    exact iff_of_false (by simp) hp

theorem becomeLeader_activePeers (n : RaftNode) : p ∉ n.becomeLeader.activePeers := by
  intro hp
  obtain ⟨pr, hpr, hflag⟩ := mem_activePeers.mp hp
  have hlook : n.initialProgress.lookup p = some pr := hpr
  rw [lookup_initialProgress] at hlook
  split at hlook
  · obtain rfl := Option.some.inj hlook
    exact absurd hflag (by simp [Progress.new])
  · exact absurd hlook (by simp)

end RaftNode

open RaftNode

/-! ## Runs -/

/-- A node, with the peers whose responses it accepted as a leader: since it last evaluated its
quorum, and since its election. -/
structure Watched where
  node : RaftNode
  recent : List NodeId := []
  ever : List NodeId := []

def note (ps : List NodeId) : Option NodeId → List NodeId
  | none => ps
  | some p => ps.insert p

theorem mem_note {ps : List NodeId} {accepted : Option NodeId} {q : NodeId} :
    q ∈ note ps accepted ↔ q ∈ ps ∨ accepted = some q := by
  cases accepted with
  | none => simp [note]
  | some p => rw [note, List.mem_insert_iff, Option.some.injEq, or_comm, eq_comm]

theorem nodup_note {ps : List NodeId} (hnodup : ps.Nodup) (accepted : Option NodeId) :
    (note ps accepted).Nodup := by
  cases accepted with
  | none => exact hnodup
  | some p => exact hnodup.insert

namespace Watched

/-- A call on the node.  An evaluation starts the next interval, an election the first one. -/
def call (w : Watched) (c : Call) : Watched :=
  if w.node.state = .leader then
    { node := (w.node.call c).node
      recent := if w.node.Evaluates c then [] else note w.recent (w.node.accepts c)
      ever := note w.ever (w.node.accepts c) }
  else { node := (w.node.call c).node }

theorem call_node (w : Watched) (c : Call) : (w.call c).node = (w.node.call c).node := by
  rw [call]
  split <;> rfl

/-- An evaluation leaves the node a leader if it accepted responses of a quorum, itself counted,
since the last one, and only then. -/
def Judged (w : Watched) (c : Call) : Prop :=
  w.node.Evaluates c →
    ((w.call c).node.state = .leader ↔ w.node.quorumSize ≤ w.recent.length + 1)

/-- A quorum that has answered since the election has answered since the last evaluation. -/
def Renewed (w : Watched) (c : Call) : Prop :=
  w.node.Evaluates c → w.node.quorumSize ≤ w.ever.length + 1 →
    w.node.quorumSize ≤ w.recent.length + 1

instance (w : Watched) (c : Call) : Decidable (w.Judged c) := inferInstanceAs (Decidable (_ → _))

instance (w : Watched) (c : Call) : Decidable (w.Renewed c) := inferInstanceAs (Decidable (_ → _))

/-- What a leader has flagged is what it has accepted since its election. -/
structure Flagged (w : Watched) : Prop where
  active : w.node.state = .leader → w.node.quorumRecentlyActive = true
  covers : w.node.state = .leader → w.node.Covers
  flags : w.node.state = .leader → ∀ p, p ∈ w.node.activePeers ↔ p ∈ w.ever
  ever : w.ever.Nodup
  recent : w.recent.Nodup
  subset : ∀ p ∈ w.recent, p ∈ w.ever

theorem flagged_start {n : RaftNode} (hidle : n.state ≠ .leader) : Flagged { node := n } :=
  ⟨fun hlead => absurd hlead hidle, fun hlead => absurd hlead hidle,
    fun hlead => absurd hlead hidle, List.nodup_nil, List.nodup_nil, fun _ hp => hp⟩

theorem Flagged.elected {w : Watched} (c : Call) (hidle : w.node.state ≠ .leader) :
    (w.call c).Flagged := by
  rw [call, if_neg hidle]
  refine ⟨fun hlead => ?_, fun hlead => ?_, fun hlead p => ?_, List.nodup_nil, List.nodup_nil,
    fun _ hp => hp⟩
  · obtain ⟨msg, hnode⟩ := call_elected c hidle hlead
    show (w.node.call c).node.quorumRecentlyActive = true
    rw [hnode]
    rfl
  · obtain ⟨msg, hnode⟩ := call_elected c hidle hlead
    show (w.node.call c).node.Covers
    rw [hnode]
    exact becomeLeader_covers _
  · obtain ⟨msg, hnode⟩ := call_elected c hidle hlead
    show p ∈ (w.node.call c).node.activePeers ↔ p ∈ []
    rw [hnode]
    exact iff_of_false (becomeLeader_activePeers _) List.not_mem_nil

theorem Flagged.leads {w : Watched} (hw : w.Flagged) (c : Call) (hlead : w.node.state = .leader) :
    (w.call c).Flagged := by
  have hcovers := hw.covers hlead
  rw [call, if_pos hlead]
  refine ⟨fun hlead' => ?_, fun hlead' p => ?_, fun hlead' p => ?_, nodup_note hw.ever _, ?_, ?_⟩
  · exact call_quorumRecentlyActive c (hw.active hlead) hlead hlead'
  · show p ∈ (w.node.call c).node.progress ↔ p ∈ (w.node.call c).node.peers
    rw [(call_flags c hcovers hlead hlead').keys p, hcovers p, call_peers]
  · show p ∈ (w.node.call c).node.activePeers ↔ p ∈ note w.ever (w.node.accepts c)
    rw [(call_flags c hcovers hlead hlead').mem_activePeers p, hw.flags hlead p, mem_note]
  · show List.Nodup (if w.node.Evaluates c then [] else note w.recent (w.node.accepts c))
    split
    · exact List.nodup_nil
    · exact nodup_note hw.recent _
  · show ∀ p ∈ if w.node.Evaluates c then [] else note w.recent (w.node.accepts c),
      p ∈ note w.ever (w.node.accepts c)
    intro p hp
    split at hp
    · exact absurd hp List.not_mem_nil
    · rw [mem_note] at hp ⊢
      exact hp.imp_left (hw.subset p)

theorem Flagged.call {w : Watched} (hw : w.Flagged) (c : Call) : (w.call c).Flagged := by
  by_cases hlead : w.node.state = .leader
  · exact hw.leads c hlead
  · exact Flagged.elected c hlead

/-- The evaluation counts what was accepted since the election. -/
theorem Flagged.evaluates {w : Watched} {c : Call} (hw : w.Flagged) (hevaluates : w.node.Evaluates c) :
    (w.call c).node.state = .leader ↔ w.node.quorumSize ≤ w.ever.length + 1 := by
  have hlead := Evaluates.leader hevaluates
  obtain ⟨env, hnode⟩ := evaluates_call hevaluates
  have hperm : w.node.activePeers.Perm w.ever :=
    (List.perm_ext_iff_of_nodup (nodup_activePeers _) hw.ever).mpr (hw.flags hlead)
  rw [call_node, hnode, checkQuorum_leader_iff env hlead (hw.active hlead), hperm.length_eq]

theorem Flagged.judged_iff {w : Watched} {c : Call} (hw : w.Flagged) : w.Judged c ↔ w.Renewed c := by
  have hle : w.recent.length ≤ w.ever.length :=
    (List.subperm_of_subset hw.recent hw.subset).length_le
  constructor
  · intro hjudged hevaluates hever
    exact (hjudged hevaluates).mp ((hw.evaluates hevaluates).mpr hever)
  · intro hrenewed hevaluates
    rw [hw.evaluates hevaluates]
    exact ⟨hrenewed hevaluates, fun hrecent => by omega⟩

end Watched

/-- Check quorum deposes a leader that did not hear from a quorum between two evaluations, and no
other, exactly when no quorum that answered since the election falls silent for an interval. -/
theorem check_quorum_iff (n : RaftNode) (hidle : n.state ≠ .leader) (calls : List Call) :
    Runs.Each Watched.call Watched.Judged { node := n } calls ↔
      Runs.Each Watched.call Watched.Renewed { node := n } calls :=
  Runs.each_congr (fun _ c hw _ => hw.call c) (fun _ _ hw => hw.judged_iff)
    (Watched.flagged_start hidle)

def voter : RaftNode := newWithConf { now := 0, jitter := 0 } { id := 1, preVote := false } [1, 2, 3]

/-- Node 2 votes for node 1, which sends its heartbeat and hears from nobody. -/
def deserted : List Call :=
  [.tick late, .step late { msgType := .voteResponse, from_ := 2, to_ := 1, term := 1 },
    .tick late, .tick late]

theorem check_quorum_deserted : Runs.Each Watched.call Watched.Judged { node := voter } deserted :=
  (check_quorum_iff voter (by decide) deserted).mpr (by decide)

/-- Node 2 answers once.  Two evaluations follow. -/
def answeredOnce : List Call :=
  [.tick late, .step late { msgType := .voteResponse, from_ := 2, to_ := 1, term := 1 },
    .tick late, .step late (answerOf 2 false), .tick late, .tick late]

theorem not_check_quorum_answeredOnce :
    ¬ Runs.Each Watched.call Watched.Judged { node := voter } answeredOnce := by
  decide

end Raft
end RTDB
