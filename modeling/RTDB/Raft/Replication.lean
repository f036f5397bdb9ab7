import RTDB.Raft.Commit
import RTDB.Raft.Restart

/-!
# Commit indices and majorities

Under the guards of leader completeness every commit index, and every one that a
message carries, goes back to a leader that counted a majority.  A leader's log
holds what was counted, and so do the logs of that majority.
-/

namespace RTDB
namespace Raft

open Quorum Reign

variable {S : Setup} {v v' : View} {h h' : Chronicle}

/-! ## What is known to be committed -/

/-- A leader of a term up to `t` committed the first `k` entries. -/
def Known (S : Setup) (v : View) (h : Chronicle) (k t : Nat) : Prop :=
  k = 0 ∨ ∃ u r c, Committed S v h u r c ∧ k ≤ c ∧ u ≤ t

theorem Known.le {k k' t t' : Nat} (hk : Known S v h k t) (hle : k' ≤ k) (ht : t ≤ t') :
    Known S v h k' t' := by
  rcases hk with rfl | ⟨u, r, c, hc, hkc, hut⟩
  · exact Or.inl (Nat.le_zero.mp hle)
  · exact Or.inr ⟨u, r, c, hc, Nat.le_trans hle hkc, Nat.le_trans hut ht⟩

theorem Known.mono {k t : Nat} (hk : Known S v h k t) (hx : h.Extends h')
    (hnet : ∀ m ∈ v.net, m ∈ v'.net) : Known S v' h' k t := by
  rcases hk with rfl | ⟨u, r, c, hc, hkc, hut⟩
  · exact Or.inl rfl
  · obtain ⟨r', hc', -⟩ := hc.mono hx hnet
    exact Or.inr ⟨u, r', c, hc', hkc, hut⟩

/-- Commit indices on nodes and on the wire are known. -/
structure Backed (S : Setup) (c : Cluster) (h : Chronicle) : Prop where
  node : ∀ i, Known S c.view h (c.node i).commitIndex (c.node i).term
  net : ∀ m ∈ c.net, Known S c.view h m.commit m.term

theorem Backed.init (S : Setup) : Backed S (Cluster.init S) Chronicle.init :=
  ⟨fun _ => Or.inl rfl, fun _ hm => absurd hm List.not_mem_nil⟩

/-! ## What a call reports -/

/-- A message carries no commit index, or the sender's. -/
def Reports (o : Output) : Prop :=
  ∀ m ∈ o.messages, m.commit = 0 ∨ m.commit = o.node.commitIndex ∧ m.term = o.node.term

namespace RaftNode

variable {n : RaftNode} {msg : Message} (env : Env)

theorem handle_reports : Reports (n.handle env msg) := by
  unfold handle
  split
  · unfold handleHeartbeat
    simp only
    split <;> simp [Reports, Output.messages, Message.new]
  · unfold handleAppendEntries
    simp only
    split
    · simp [Reports, Output.messages, Message.new, Message.withReject]
    · split <;> simp [Reports, Output.messages, Message.new, Message.withReject]
  · unfold handleAppendResponse
    split
    · simp [Reports, Output.messages]
    · split
      · simp [Reports, Output.messages]
      · split <;> simp [Reports, Output.messages]
  · unfold handleRequestVote
    split <;> simp [Reports, Output.messages, Message.new, Message.withReject]
  · unfold handleVoteResponse
    split
    · simp [Reports, Output.messages]
    · simp only
      split
      · simp [Reports, Output.messages, buildAppendAcks]
      · split <;> simp [Reports, Output.messages]
  · simp [Reports, Output.messages, handleRequestPreVote]
  · unfold handlePreVoteResponse
    split
    · simp [Reports, Output.messages]
    · simp only
      split <;> simp [Reports, Output.messages, campaign]
  · unfold handleInstallSnapshot
    split
    · simp [Reports, Output.messages]
    · simp only
      split <;> simp [Reports, Output.messages]
  · unfold handleSnapshotResponse
    split
    · simp [Reports, Output.messages]
    · split
      · simp [Reports, Output.messages]
      · split <;> simp [Reports, Output.messages]
  · simp [Reports, Output.messages]

theorem tick_reports : Reports (n.tick env).1 := by
  unfold tick
  split
  · split
    · simp [Reports, Output.messages]
    · split <;> simp [Reports, Output.messages]
  · split
    · unfold handleElectionTimeout
      split <;> simp [Reports, Output.messages, preCampaign, campaign]
    · simp [Reports, Output.messages]

theorem takeReady_reports : Reports { node := n.takeReady.1, ready := n.takeReady.2 } := by
  by_cases hlead : n.state = .leader
  · rw [takeReady_leader hlead]
    intro m hm
    have hmem : m ∈ n.leaderReady.messages := by simpa [Output.messages] using hm
    obtain ⟨p, -, rfl⟩ := List.mem_map.mp hmem
    right
    unfold replicate
    split <;> exact ⟨rfl, rfl⟩
  · rw [takeReady, if_pos hlead]
    simp [Reports, Output.messages]

theorem call_reports (c : Call) : Reports (n.call c) := by
  cases c with
  | tick env => exact tick_reports env
  | step env msg => exact handle_reports env
  | ready => exact takeReady_reports
  | propose data => simp [call, Reports, Output.messages]
  | readIndex ctx => simp [call, Reports, Output.messages]
  | readStates => simp [call, Reports, Output.messages]

/-- A step leaves no node behind the term of the message. -/
theorem le_term_step : n.term ≤ (n.step env msg).node.term ∧
    msg.term ≤ (n.step env msg).node.term := by
  rcases Nat.lt_or_ge n.term msg.term with hterm | hterm
  · rw [(step_stays env hterm).term, (observeTerm_higher env hterm).1]
    omega
  · rw [step_same env hterm]
    by_cases helected : n.PreElected msg
    · rw [(handle_campaigns env helected).term]
      omega
    · rw [(handle_stays env helected).term]
      omega

theorem le_term_call (c : Call) : n.term ≤ (n.call c).node.term := by
  cases c with
  | step env msg => exact (le_term_step env).1
  | tick env => exact (tick_ballots env n).le
  | propose data => exact (call_ballots (c := .propose data) trivial n).le
  | readIndex ctx => exact (call_ballots (c := .readIndex ctx) trivial n).le
  | readStates => exact Nat.le_refl _
  | ready => exact (takeReady_ballots n).le

end RaftNode

open RaftNode

/-! ## One event -/

def Event.call : Event → Call
  | .tick _ env => .tick env
  | .deliver msg env => .step env msg
  | .propose _ data => .propose data
  | .readIndex _ ctx => .readIndex ctx
  | .readStates _ => .readStates
  | .ready _ => .ready

theorem Cluster.apply_eq (c : Cluster) (e : Event) :
    c.apply e = c.update e.node ((c.node e.node).call e.call) := by
  cases e <;> rfl

theorem Cluster.apply_node_self (c : Cluster) (e : Event) :
    (c.apply e).node e.node = ((c.node e.node).call e.call).node := by
  rw [apply_eq, c.update_node_self]

theorem Cluster.term_le_apply (c : Cluster) (e : Event) (i : NodeId) :
    (c.node i).term ≤ ((c.apply e).node i).term := by
  by_cases hi : i = e.node
  · subst hi
    rw [c.apply_node_self]
    exact le_term_call e.call
  · rw [c.apply_node_ne e hi]

theorem Backed.update {c : Cluster} {i : NodeId} {o : Output} (hb : Backed S c h)
    (hx : h.Extends h') (hreports : Reports o)
    (hnode : Known S (c.update i o).view h' o.node.commitIndex o.node.term) :
    Backed S (c.update i o) h' := by
  have hnet : ∀ m ∈ c.view.net, m ∈ (c.update i o).view.net := fun m hm => List.mem_append_left _ hm
  refine ⟨fun j => ?_, fun m hm => ?_⟩
  · by_cases hj : j = i
    · subst hj
      rw [c.update_node_self]
      exact hnode
    · show Known S (c.update i o).view h' (Function.update c.node i o.node j).commitIndex
        (Function.update c.node i o.node j).term
      rw [Function.update_of_ne hj]
      exact (hb.node j).mono hx hnet
  · rcases List.mem_append.mp hm with hold | hnew
    · exact (hb.net m hold).mono hx hnet
    · rcases hreports m hnew with hzero | ⟨hcommit, hterm⟩
      · exact Or.inl hzero
      · rw [hcommit, hterm]
        exact hnode

/-- An event moves the commit index of a node by what a message tells it, or by
counting. -/
theorem Safe.commit_apply {strict : Prop} {c : Cluster} {h : Chronicle} {e : Event}
    (hs : Safe S strict c h) (he : Cluster.Enabled S c e) (i : NodeId) :
    ((c.apply e).node i).commitIndex ≤ (c.node i).commitIndex ∨
      (∃ msg ∈ c.net, ((c.apply e).node i).commitIndex ≤ msg.commit ∧
        msg.term ≤ ((c.apply e).node i).term) ∨
      Counted (c.node i) ((c.apply e).node i) := by
  have hgrown : (∀ msg env, e = .deliver msg env → msg.to_ = i → msg.msgType ≠ .heartbeat ∧
      msg.msgType ≠ .appendEntries ∧ msg.msgType ≠ .installSnapshot) →
      ((c.apply e).node i).commitIndex ≤ (c.node i).commitIndex ∨
        Counted (c.node i) ((c.apply e).node i) := by
    intro hmsg
    rcases (c.apply_grown e i hmsg).commit with hsame | hcount
    · exact Or.inl (Nat.le_of_eq hsame)
    · exact Or.inr hcount
  by_cases hdeliver : ∃ msg env, e = .deliver msg env ∧ msg.to_ = i ∧
      (msg.msgType = .heartbeat ∨ msg.msgType = .appendEntries)
  · obtain ⟨msg, env, rfl, rfl, htype⟩ := hdeliver
    have hmem := he.1
    rw [c.apply_deliver]
    have hle : msg.term ≤ ((c.node msg.to_).step env msg).node.term := (le_term_step env).2
    rcases htype with htype | htype
    · have hcommit := (step_heartbeat (n := c.node msg.to_) env htype).2
      rcases Nat.le_total (c.node msg.to_).commitIndex msg.commit with hup | hup
      · refine Or.inr (Or.inl ⟨msg, hmem, ?_, hle⟩)
        rw [hcommit]
        split <;> omega
      · left
        rw [hcommit]
        split <;> omega
    · by_cases hacc : (c.node msg.to_).Accepts msg
      · have hcommit := (step_append (n := c.node msg.to_) env htype hacc).2
        rw [hcommit]
        split
        · exact Or.inr (Or.inl ⟨msg, hmem, Nat.min_le_left _ _, hle⟩)
        · exact Or.inl (Nat.le_refl _)
      · left
        exact Nat.le_of_eq (step_append_refused (n := c.node msg.to_) env htype hacc).2
  · have hkept := hgrown (fun msg env he' hto => ?_)
    · rcases hkept with hle | hcount
      · exact Or.inl hle
      · exact Or.inr (Or.inr hcount)
    · subst he'
      refine ⟨fun htype => ?_, fun htype => ?_, (hs.logs.faithful msg he.1).install⟩
      · exact hdeliver ⟨msg, env, rfl, hto, Or.inl htype⟩
      · exact hdeliver ⟨msg, env, rfl, hto, Or.inr htype⟩

theorem Backed.apply {c : Cluster} {h h' : Chronicle} {e : Event} (hb : Backed S c h)
    (hs : Safe S True c h) (hs' : Safe S True (c.apply e) h') (hx : h.Extends h')
    (he : Cluster.Enabled S c e) : Backed S (c.apply e) h' := by
  have hnet : ∀ m ∈ c.view.net, m ∈ (c.apply e).view.net := c.net_subset_apply e
  have hnode : Known S (c.apply e).view h' ((c.apply e).node e.node).commitIndex
      ((c.apply e).node e.node).term := by
    rcases hs.commit_apply he e.node with hle | ⟨msg, hmem, hle, hterm⟩ | hcount
    · exact ((hb.node e.node).mono hx hnet).le hle (c.term_le_apply e e.node)
    · exact ((hb.net msg hmem).mono hx hnet).le hle hterm
    · -- The leader's own count commits in its own term.
      have hup := hcount.up
      have hquorum := hcount.quorum
      obtain ⟨r, hcom, -⟩ := committed_of_quorum (hs'.durable trivial) hs'.election hs'.logs rfl
        (hs'.wired e.node) hcount.state (by omega) hcount.own
      exact Or.inr ⟨_, r, _, hcom, Nat.le_of_eq hquorum.symm, Nat.le_refl _⟩
  rw [c.apply_node_self] at hnode
  rw [c.apply_eq] at hnode ⊢
  exact hb.update hx (call_reports e.call) hnode

/-! ## Runs -/

/-- The majority that stored what is committed holds it still. -/
theorem Committed.held {c : Cluster} {t k : Nat} {r : Reign NodeId LogEntry}
    (hc : Committed S c.view h t r k) (hs : Safe S True c h) :
    ∃ q, Majority S.voters q ∧ ∀ p ∈ q, r.log.take k <+: (c.node p).log := by
  obtain ⟨q, hq, hstored⟩ := hc.stored
  refine ⟨q, hq, fun p hp => ?_⟩
  rcases (hs.durable trivial).kept p t r k (hstored p hp) with hheld | ⟨w, s, htw, -, hw, hlost⟩
  · exact hheld
  · exact absurd (hc.base (hs.durable trivial) hs.logs htw hw) hlost

/-- A leader of the term or a later one holds what is committed. -/
theorem Committed.leader {c : Cluster} {t k : Nat} {r : Reign NodeId LogEntry} {i : NodeId}
    (hc : Committed S c.view h t r k) (hs : Safe S True c h) (hlead : (c.node i).state = .leader)
    (ht : t ≤ (c.node i).term) : r.log.take k <+: (c.node i).log := by
  obtain ⟨s, hs', -, hlog⟩ := hs.reign ⟨hlead, rfl⟩
  rw [hlog]
  rcases Nat.lt_or_ge t (c.node i).term with hlt | hge
  · exact (hc.base (hs.durable trivial) hs.logs hlt hs').trans s.base_isPrefix
  · have hsame : t = (c.node i).term := Nat.le_antisymm ht hge
    have hreign := hc.reign
    rw [hsame] at hreign
    rw [Option.some.inj (hs'.symm.trans hreign)]
    exact List.take_prefix _ _

/-- A majority has the entry that the leader has at position `k`. -/
def OnMajority (voters : List NodeId) (c : Cluster) (i : NodeId) (k : Nat) : Prop :=
  ∃ q, Majority voters q ∧ ∃ e, (c.node i).log[k - 1]? = some e ∧
    ∀ p ∈ q, (c.node p).log[k - 1]? = some e

theorem Backed.onMajority {c : Cluster} (hb : Backed S c h) (hs : Safe S True c h) {i : NodeId}
    (hlead : (c.node i).state = .leader) {k : Nat} (hpos : 0 < k)
    (hk : k ≤ (c.node i).commitIndex) : OnMajority S.voters c i k := by
  rcases hb.node i with hzero | ⟨t, r, c', hcom, hle, ht⟩
  · omega
  · obtain ⟨q, hq, hheld⟩ := hcom.held hs
    obtain ⟨e, hget, hmine⟩ := getElem?_of_take_isPrefix (hcom.leader hs hlead ht) hpos
      (by omega : k ≤ c') hcom.le
    refine ⟨q, hq, e, hmine, fun p hp => ?_⟩
    obtain ⟨e', hget', htheirs⟩ := getElem?_of_take_isPrefix (hheld p hp) hpos
      (by omega : k ≤ c') hcom.le
    rw [htheirs, ← hget', hget]

end Raft
end RTDB
