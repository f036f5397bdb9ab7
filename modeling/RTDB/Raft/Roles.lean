import RTDB.Raft.Polls

/-!
# Roles and leader ids

State and leader id are written apart.  Heartbeats, appends and snapshots of a
node's own term name the leader without a look at the state, so a leader or a
candidate that one of them reaches is left with the name of another node.
-/

namespace RTDB
namespace Raft

open Runs

/-! ## One node -/

/-- Leaders, and only they, name themselves as the leader; candidates name nobody. -/
structure RoleConsistent (n : RaftNode) : Prop where
  leader : n.state = .leader ↔ n.leaderId = n.id
  candidate : n.state = .candidate → n.leaderId = 0

/-- The message speaks for the leader of its term. -/
def Message.Speaks (m : Message) : Prop :=
  m.msgType = .heartbeat ∨ m.msgType = .appendEntries ∨ m.msgType = .installSnapshot

instance (m : Message) : Decidable m.Speaks := inferInstanceAs (Decidable (_ ∨ _))

namespace RaftNode

/-- The node leads or stands in the term of a message that speaks for its leader. -/
def Disputes (n : RaftNode) (msg : Message) : Prop :=
  msg.Speaks ∧ msg.term = n.term ∧ (n.state = .leader ∨ n.state = .candidate)

instance (n : RaftNode) (msg : Message) : Decidable (n.Disputes msg) :=
  inferInstanceAs (Decidable (_ ∧ _))

variable {n n' : RaftNode} {msg : Message} (env : Env)

theorem roleConsistent_congr (hroles : RoleConsistent n) (hstate : n'.state = n.state)
    (hleader : n'.leaderId = n.leaderId) (hconfig : n'.config = n.config) : RoleConsistent n' := by
  have hid : n'.id = n.id := congrArg Config.id hconfig
  refine ⟨?_, ?_⟩
  · rw [hstate, hleader, hid]
    exact hroles.leader
  · rw [hstate, hleader]
    exact hroles.candidate

/-- A node that neither leads nor stands. -/
theorem roleConsistent_idle (hlead : n.state ≠ .leader) (hcand : n.state ≠ .candidate) :
    RoleConsistent n ↔ n.leaderId ≠ n.id :=
  ⟨fun hroles hself => hlead (hroles.leader.mpr hself),
    fun hother => ⟨⟨fun h => absurd h hlead, fun h => absurd h hother⟩, fun h => absurd h hcand⟩⟩

theorem roleConsistent_becomeFollower {leaderId : NodeId} (hother : leaderId ≠ n.id) (term : Nat) :
    RoleConsistent (n.becomeFollower env term leaderId) :=
  (roleConsistent_idle (by simp [becomeFollower, resetElectionTimeout])
    (by simp [becomeFollower, resetElectionTimeout])).mpr hother

theorem roleConsistent_campaign (hid : n.id ≠ 0) : RoleConsistent (n.campaign env).node :=
  ⟨⟨fun h => absurd h (by simp [campaign, becomeCandidate, resetElectionTimeout]),
    fun h => absurd h hid.symm⟩, fun _ => rfl⟩

/-- Naming another node as the leader is right for all but leaders and candidates. -/
theorem roleConsistent_named (hstate : n'.state = n.state) (hleader : n'.leaderId = msg.from_)
    (hconfig : n'.config = n.config) (hfrom : msg.from_ ≠ n.id) (hzero : msg.from_ ≠ 0) :
    RoleConsistent n' ↔ ¬ (n.state = .leader ∨ n.state = .candidate) := by
  have hother : n'.leaderId ≠ n'.id := by
    rw [hleader, show n'.id = n.id from congrArg Config.id hconfig]
    exact hfrom
  constructor
  · rintro hroles (hlead | hcand)
    · exact hother (hroles.leader.mp (hstate.trans hlead))
    · exact hzero (hleader.symm.trans (hroles.candidate (hstate.trans hcand)))
  · intro hidle
    rw [not_or] at hidle
    refine (roleConsistent_idle ?_ ?_).mpr hother
    · rw [hstate]
      exact hidle.1
    · rw [hstate]
      exact hidle.2

theorem advanceCommitIndex_role (n : RaftNode) : n.advanceCommitIndex.state = n.state ∧
    n.advanceCommitIndex.leaderId = n.leaderId := by
  unfold advanceCommitIndex
  split
  · exact ⟨rfl, rfl⟩
  · split <;> exact ⟨rfl, rfl⟩

section Handlers

variable (hroles : RoleConsistent n)

include hroles

theorem handleAppendResponse_roles : RoleConsistent (n.handleAppendResponse msg).node := by
  unfold handleAppendResponse
  split
  · exact hroles
  · split
    · exact hroles
    · split
      · exact roleConsistent_congr hroles rfl rfl rfl
      · rename_i progress _ _
        have hrole := advanceCommitIndex_role
          { n with progress := n.progress.insert msg.from_ (progress.becomeAccept msg.index) }
        have hconf := advanceCommitIndex_conf
          { n with progress := n.progress.insert msg.from_ (progress.becomeAccept msg.index) }
        exact roleConsistent_congr hroles hrole.1 hrole.2 hconf.1

theorem handleRequestVote_roles : RoleConsistent (n.handleRequestVote env msg).node := by
  unfold handleRequestVote
  split
  · exact hroles
  · simp only
    split <;> exact roleConsistent_congr hroles rfl rfl rfl

theorem handleVoteResponse_roles (hid : n.id ≠ 0) :
    RoleConsistent (n.handleVoteResponse env msg).node := by
  unfold handleVoteResponse
  split
  · exact hroles
  · simp only
    split
    · exact ⟨⟨fun _ => rfl, fun _ => rfl⟩, fun hcand => absurd hcand (by simp [becomeLeader])⟩
    · split
      · exact roleConsistent_becomeFollower (n := n.countVote msg) env (Ne.symm hid) _
      · exact roleConsistent_congr hroles rfl rfl rfl

theorem handlePreVoteResponse_roles (hid : n.id ≠ 0) :
    RoleConsistent (n.handlePreVoteResponse env msg).node := by
  unfold handlePreVoteResponse
  split
  · exact hroles
  · simp only
    split
    · exact roleConsistent_campaign (n := n.countVote msg) env hid
    · exact roleConsistent_congr hroles rfl rfl rfl

theorem handleSnapshotResponse_roles : RoleConsistent (n.handleSnapshotResponse msg).node := by
  unfold handleSnapshotResponse
  split
  · exact hroles
  · split
    · exact hroles
    · split
      · exact roleConsistent_congr hroles rfl rfl rfl
      · exact hroles

end Handlers

/-- A message that speaks for a leader and is not stale names that leader. -/
theorem handle_named (hspeaks : msg.Speaks) (hterm : ¬ msg.term < n.term) :
    (n.handle env msg).node.state = n.state ∧ (n.handle env msg).node.leaderId = msg.from_ ∧
      (n.handle env msg).node.config = n.config := by
  rcases hspeaks with htype | htype | htype
  · rw [handle, htype]
    show (n.handleHeartbeat env msg).node.state = _ ∧ _
    unfold handleHeartbeat
    simp only
    rw [if_neg (show ¬ msg.term < (n.resetElectionTimeout env).term from hterm)]
    exact ⟨rfl, rfl, rfl⟩
  · rw [handle, htype]
    show (n.handleAppendEntries env msg).node.state = _ ∧ _
    unfold handleAppendEntries
    simp only
    rw [if_neg (show ¬ msg.term < (n.resetElectionTimeout env).term from hterm)]
    split <;> exact ⟨rfl, rfl, rfl⟩
  · rw [handle, htype]
    show (n.handleInstallSnapshot env msg).node.state = _ ∧ _
    unfold handleInstallSnapshot
    rw [if_neg hterm]
    simp only
    split <;> exact ⟨rfl, rfl, rfl⟩

/-- Other messages, and stale ones, keep the roles as they are meant. -/
theorem handle_roles (hroles : RoleConsistent n) (hid : n.id ≠ 0)
    (hquiet : ¬ msg.Speaks ∨ msg.term < n.term) : RoleConsistent (n.handle env msg).node := by
  have hstale : msg.Speaks → msg.term < n.term := by
    rcases hquiet with hnot | hlt
    · exact fun hspeaks => absurd hspeaks hnot
    · exact fun _ => hlt
  unfold handle
  split
  · rename_i htype
    unfold handleHeartbeat
    simp only
    rw [if_pos (show msg.term < (n.resetElectionTimeout env).term from hstale (Or.inl htype))]
    exact roleConsistent_congr hroles rfl rfl rfl
  · rename_i htype
    unfold handleAppendEntries
    simp only
    rw [if_pos (show msg.term < (n.resetElectionTimeout env).term from
      hstale (Or.inr (Or.inl htype)))]
    exact roleConsistent_congr hroles rfl rfl rfl
  · exact handleAppendResponse_roles hroles
  · exact handleRequestVote_roles env hroles
  · exact handleVoteResponse_roles env hroles hid
  · exact roleConsistent_congr hroles rfl rfl rfl
  · exact handlePreVoteResponse_roles env hroles hid
  · rename_i htype
    rw [handleInstallSnapshot, if_pos (hstale (Or.inr (Or.inr htype)))]
    exact hroles
  · exact handleSnapshotResponse_roles hroles
  · exact hroles

/-- After a message of another node the roles are as they are meant exactly when the
node does not dispute it. -/
theorem step_roles_iff (hroles : RoleConsistent n) (hid : n.id ≠ 0) (hfrom : msg.from_ ≠ n.id)
    (hzero : msg.from_ ≠ 0) : RoleConsistent (n.step env msg).node ↔ ¬ n.Disputes msg := by
  rcases Nat.lt_or_ge n.term msg.term with hterm | hterm
  · -- A higher term first makes the node a follower of nobody, or of the sender.
    have hother : (if msg.msgType = .appendEntries then msg.from_ else 0) ≠ n.id := by
      split
      · exact hfrom
      · exact hid.symm
    have hobserved : n.observeTerm env msg = n.becomeFollower env msg.term
        (if msg.msgType = .appendEntries then msg.from_ else 0) := by
      rw [observeTerm, if_pos hterm]
    rw [step, hobserved]
    have hfollows := roleConsistent_becomeFollower env hother msg.term
    refine iff_of_true ?_ (fun hdisputes => absurd hdisputes.2.1 (by omega))
    by_cases hspeaks : msg.Speaks
    · obtain ⟨hstate, hleader, hconfig⟩ :=
        handle_named (n := n.becomeFollower env msg.term _) env hspeaks (Nat.lt_irrefl _)
      refine (roleConsistent_named hstate hleader hconfig hfrom hzero).mpr ?_
      simp [becomeFollower, resetElectionTimeout]
    · exact handle_roles env hfollows hid (Or.inl hspeaks)
  · rw [step_same env hterm]
    by_cases hnamed : msg.Speaks ∧ ¬ msg.term < n.term
    · obtain ⟨hstate, hleader, hconfig⟩ := handle_named env hnamed.1 hnamed.2
      rw [roleConsistent_named hstate hleader hconfig hfrom hzero]
      have hequal : msg.term = n.term := by omega
      exact not_congr ⟨fun hrole => ⟨hnamed.1, hequal, hrole⟩, fun hdisputes => hdisputes.2.2⟩
    · have hquiet : ¬ msg.Speaks ∨ msg.term < n.term := by tauto
      refine iff_of_true (handle_roles env hroles hid hquiet) (fun hdisputes => hnamed ?_)
      exact ⟨hdisputes.1, by have := hdisputes.2.1; omega⟩

theorem tick_roles (hroles : RoleConsistent n) (hid : n.id ≠ 0) :
    RoleConsistent (n.tick env).1.node := by
  unfold tick
  split
  · split
    · exact roleConsistent_congr hroles rfl rfl rfl
    · split
      · unfold checkQuorum
        simp only
        split
        · exact roleConsistent_congr (roleConsistent_becomeFollower env hid.symm n.term) rfl rfl rfl
        · exact roleConsistent_congr hroles rfl rfl rfl
      · exact hroles
  · split
    · unfold handleElectionTimeout
      split
      · rename_i hpre
        rw [Bool.and_eq_true, decide_eq_true_eq] at hpre
        have hother : n.leaderId ≠ n.id :=
          (roleConsistent_idle (by simp [hpre.2]) (by simp [hpre.2])).mp hroles
        refine (roleConsistent_idle ?_ ?_).mpr hother
        · simp [preCampaign, becomePreCandidate, resetElectionTimeout]
        · simp [preCampaign, becomePreCandidate, resetElectionTimeout]
      · exact roleConsistent_campaign env hid
    · exact hroles

theorem takeReady_roles (hroles : RoleConsistent n) : RoleConsistent n.takeReady.1 := by
  unfold takeReady
  split
  · exact hroles
  · exact roleConsistent_congr hroles rfl rfl rfl

/-- A call keeps the roles exactly when it delivers nothing the node disputes. -/
theorem call_roles_iff {call : Call} (hroles : RoleConsistent n) (hid : n.id ≠ 0)
    (hfrom : ∀ m ∈ call.msg, m.from_ ≠ n.id ∧ m.from_ ≠ 0) :
    RoleConsistent (n.call call).node ↔ ∀ m ∈ call.msg, ¬ n.Disputes m := by
  cases call with
  | step env msg =>
    obtain ⟨hother, hzero⟩ := hfrom msg rfl
    rw [RaftNode.call, step_roles_iff env hroles hid hother hzero]
    simp [Call.msg]
  | tick env => exact iff_of_true (tick_roles env hroles hid) (by simp [Call.msg])
  | ready => exact iff_of_true (takeReady_roles hroles) (by simp [Call.msg])
  | readStates => exact iff_of_true (roleConsistent_congr hroles rfl rfl rfl) (by simp [Call.msg])
  | propose data =>
    refine iff_of_true ?_ (by simp [Call.msg])
    rw [RaftNode.call, propose]
    split
    · exact hroles
    · exact roleConsistent_congr hroles rfl rfl rfl
  | readIndex ctx =>
    refine iff_of_true ?_ (by simp [Call.msg])
    rw [RaftNode.call, readIndex]
    split
    · exact hroles
    · exact roleConsistent_congr hroles rfl rfl rfl

end RaftNode

open RaftNode

/-! ## Runs -/

/-- The roles of every voter are as they are meant. -/
def Cluster.RolesConsistent (S : Setup) (c : Cluster) : Prop :=
  ∀ i ∈ S.voters, RoleConsistent (c.node i)

instance (n : RaftNode) : Decidable (RoleConsistent n) :=
  decidable_of_iff ((n.state = .leader ↔ n.leaderId = n.id) ∧
      (n.state = .candidate → n.leaderId = 0))
    ⟨fun hroles => ⟨hroles.1, hroles.2⟩, fun hroles => ⟨hroles.1, hroles.2⟩⟩

instance (S : Setup) (c : Cluster) : Decidable (c.RolesConsistent S) :=
  inferInstanceAs (Decidable (∀ i ∈ S.voters, RoleConsistent (c.node i)))

/-- The event delivers a message that its receiver disputes. -/
def Disputed (c : Cluster) (e : Event) : Prop :=
  ∃ msg ∈ e.call.msg, (c.node e.node).Disputes msg

instance (c : Cluster) : (e : Event) → Decidable (Disputed c e)
  | .deliver msg env => decidable_of_iff ((c.node msg.to_).Disputes msg) (by
      simp [Disputed, Event.call, Call.msg, Event.node])
  | .tick _ _ | .propose _ _ | .readIndex _ _ | .readStates _ | .ready _ =>
    isFalse (by simp [Disputed, Event.call, Call.msg])

variable {S : Setup} {c : Cluster} {e : Event}

theorem Routed.roles_iff (hc : Routed S c) (hroles : c.RolesConsistent S)
    (he : Cluster.Enabled S c e) : (c.apply e).RolesConsistent S ↔ ¬ Disputed c e := by
  have hmem := he.node_mem
  have hid : (c.node e.node).id ≠ 0 := by
    rw [(hc.wired e.node).id_eq]
    exact fun hzero => S.nonzero (hzero ▸ hmem)
  have hfrom : ∀ m ∈ e.call.msg, m.from_ ≠ (c.node e.node).id ∧ m.from_ ≠ 0 := by
    intro m hm
    obtain ⟨hsent, hto⟩ := he.sent.msg hm
    obtain ⟨hvoter, hne⟩ := hc.net m hsent
    rw [(hc.wired e.node).id_eq, ← hto]
    exact ⟨hne.symm, fun hzero => S.nonzero (hzero ▸ hvoter)⟩
  have hcall := call_roles_iff (hroles e.node hmem) hid hfrom
  have hquiet : (¬ Disputed c e) ↔ ∀ m ∈ e.call.msg, ¬ (c.node e.node).Disputes m := by
    simp [Disputed]
  rw [hquiet, ← hcall, ← c.apply_node_self]
  constructor
  · exact fun hall => hall e.node hmem
  · intro hself i hi
    by_cases hnode : i = e.node
    · rw [hnode]
      exact hself
    · rw [c.apply_node_ne e hnode]
      exact hroles i hi

theorem rolesConsistent_init (S : Setup) : (Cluster.init S).RolesConsistent S := by
  intro i hi
  refine (roleConsistent_idle (by simp [Cluster.init, newWithConf])
    (by simp [Cluster.init, newWithConf])).mpr ?_
  show 0 ≠ (S.config i).id
  rw [S.config_id]
  exact fun hzero => S.nonzero (hzero ▸ hi)

/-- The roles are as they are meant all through a run exactly when no leader and no
candidate receives a heartbeat, an append or a snapshot of its own term. -/
theorem roles_consistent_iff (S : Setup) (es : List Event)
    (hv : Cluster.Valid S (Cluster.init S) es) :
    (∀ k, (Cluster.after S es k).RolesConsistent S) ↔
      ∀ k (hk : k < es.length), ¬ Disputed (Cluster.after S es k) es[k] := by
  constructor
  · intro hroles k hk
    rw [← (Routed.after hv k).roles_iff (hroles k) (hv.enabled hk), ← Cluster.after_succ hk]
    exact hroles (k + 1)
  · intro hquiet k
    induction k with
    | zero => exact rolesConsistent_init S
    | succ k ih =>
      rcases Nat.lt_or_ge k es.length with hk | hk
      · rw [Cluster.after_succ hk, (Routed.after hv k).roles_iff ih (hv.enabled hk)]
        exact hquiet k hk
      · rw [Cluster.after_of_le hk]
        exact ih

set_option maxRecDepth 20000

theorem roles_consistent_committing :
    (∀ k, (Cluster.after trio committing k).RolesConsistent trio) ↔
      ∀ k (hk : k < committing.length), ¬ Disputed (Cluster.after trio committing k)
        committing[k] :=
  roles_consistent_iff trio committing (by decide)

/-- A follower answers a heartbeat of its leader with one of its own. -/
def beating : List Event :=
  committing ++
    [.ready 1,
      .deliver { msgType := .heartbeat, from_ := 1, to_ := 2, term := 1, commit := 2 } late,
      .deliver { msgType := .heartbeat, from_ := 2, to_ := 1, term := 1 } late]

/-- The leader that gets the answer takes the follower for the leader. -/
theorem not_roles_consistent_beating :
    Cluster.Valid trio (Cluster.init trio) beating ∧
      ¬ ∀ k, (Cluster.after trio beating k).RolesConsistent trio := by
  refine ⟨by decide, fun hroles => ?_⟩
  have hlast : ¬ (Cluster.after trio beating 11).RolesConsistent trio := by decide
  exact hlast (hroles 11)

end Raft
end RTDB
