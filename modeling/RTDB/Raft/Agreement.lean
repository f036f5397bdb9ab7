import RTDB.Raft.Application
import RTDB.Raft.Progress
import RTDB.Raft.Runtime

/-!
# State machine safety

Under the guards of leader completeness no two nodes disagree about a position that
both know to be committed, at whatever moments they are asked.  A heartbeat moves the
commit index of a follower without looking at its log, so the argument follows the
heartbeat back: a leader sends one only to a peer whose next index has passed the end
of the log, and only an acceptance of that peer takes it there.
-/

namespace RTDB
namespace Raft

open Quorum Reign RaftNode

variable {S : Setup} {es : List Event} {v v' : View} {h h' : Chronicle} {c : Cluster} {e : Event}

/-! ## Committed prefixes -/

/-- The first `k` entries of `l` were committed by a leader of a term up to `t`. -/
def Sealed (S : Setup) (v : View) (h : Chronicle) (l : List LogEntry) (k t : Nat) : Prop :=
  k = 0 ∨ ∃ u r c, Committed S v h u r c ∧ k ≤ c ∧ u ≤ t ∧ l.take k = r.log.take k

/-- Peer `p` accepted the log of the leader of term `t` up to `k` at least. -/
def Took (v : View) (p : NodeId) (t k : Nat) : Prop := ∃ m, Acceptance v p t m ∧ k ≤ m.index

theorem take_eq_of_isPrefix {l l' : List LogEntry} {c k : Nat} (hpre : l.take c <+: l')
    (hkc : k ≤ c) (hc : c ≤ l.length) : l'.take k = l.take k := by
  obtain ⟨tail, rfl⟩ := hpre
  rw [List.take_append_of_le_length (by rw [List.length_take]; omega), List.take_take,
    Nat.min_eq_left hkc]

theorem Sealed.length_le {l : List LogEntry} {k t : Nat} (hs : Sealed S v h l k t) :
    k ≤ l.length := by
  rcases hs with rfl | ⟨u, r, c, hcom, hkc, -, htake⟩
  · exact Nat.zero_le _
  · have hlen := congrArg List.length htake
    have hle := hcom.le
    rw [List.length_take, List.length_take] at hlen
    omega

theorem Sealed.mono {l l' : List LogEntry} {k t t' : Nat} (hs : Sealed S v h l k t)
    (hx : h.Extends h') (hnet : ∀ m ∈ v.net, m ∈ v'.net) (hlog : l.take k <+: l') (ht : t ≤ t') :
    Sealed S v' h' l' k t' := by
  have hlen := hs.length_le
  rcases hs with rfl | ⟨u, r, c, hcom, hkc, hut, htake⟩
  · exact Or.inl rfl
  · obtain ⟨r', hcom', hr'⟩ := hcom.mono hx hnet
    refine Or.inr ⟨u, r', c, hcom', hkc, Nat.le_trans hut ht, ?_⟩
    have hcut := congrArg (List.take k) hr'
    rw [List.take_take, List.take_take, Nat.min_eq_left hkc] at hcut
    rw [take_eq_of_isPrefix hlog (Nat.le_refl k) hlen, htake, hcut]

theorem Took.mono {p : NodeId} {t k k' : Nat} (ht : Took v p t k)
    (hnet : ∀ m ∈ v.net, m ∈ v'.net) (hle : k' ≤ k) : Took v' p t k' := by
  obtain ⟨m, hacc, hk⟩ := ht
  exact ⟨m, hacc.mono hnet, Nat.le_trans hle hk⟩

/-- A reign of the term of a commit or of a later one has what was committed. -/
theorem Committed.isPrefix_log {u t k : Nat} {r s : Reign NodeId LogEntry}
    (hc : Committed S v h u r k) (hd : Durable S v h) (hl : Logs v h) (hut : u ≤ t)
    (hs : h.reign t = some s) : r.log.take k <+: s.log := by
  rcases Nat.lt_or_ge u t with hlt | hge
  · exact (hc.base hd hl hlt hs).trans s.base_isPrefix
  · obtain rfl : u = t := Nat.le_antisymm hut hge
    obtain rfl := Option.some.inj (hc.reign.symm.trans hs)
    exact List.take_prefix _ _

/-- Two sealed prefixes are the same where both reach. -/
theorem Sealed.get_eq {l l' : List LogEntry} {k k' t t' i : Nat} (hs : Sealed S v h l k t)
    (hs' : Sealed S v h l' k' t') (hd : Durable S v h) (hl : Logs v h) (hpos : 0 < i)
    (hik : i ≤ k) (hik' : i ≤ k') : ∃ e, l[i - 1]? = some e ∧ l'[i - 1]? = some e := by
  have hlen := hs.length_le
  have hlen' := hs'.length_le
  have hsame : l.take i = l'.take i := by
    rcases hs with rfl | ⟨u, r, c, hcom, hkc, -, htake⟩
    · omega
    · rcases hs' with rfl | ⟨u', r', c', hcom', hkc', -, htake'⟩
      · omega
      · have hr : l.take i = r.log.take i := by
          have hcut := congrArg (List.take i) htake
          rw [List.take_take, List.take_take, Nat.min_eq_left hik] at hcut
          exact hcut
        have hr' : l'.take i = r'.log.take i := by
          have hcut := congrArg (List.take i) htake'
          rw [List.take_take, List.take_take, Nat.min_eq_left hik'] at hcut
          exact hcut
        rw [hr, hr']
        -- The reign of the later term has what the earlier one committed.
        rcases Nat.le_total u u' with huu | huu
        · exact (take_eq_of_isPrefix (hcom.isPrefix_log hd hl huu hcom'.reign)
            (Nat.le_trans hik hkc) hcom.le).symm
        · exact take_eq_of_isPrefix (hcom'.isPrefix_log hd hl huu hcom.reign)
            (Nat.le_trans hik' hkc') hcom'.le
  obtain ⟨a, hget⟩ : ∃ a, l[i - 1]? = some a :=
    ⟨l[i - 1], List.getElem?_eq_getElem (by omega)⟩
  refine ⟨a, hget, ?_⟩
  rw [← List.getElem?_take_of_lt (show i - 1 < i by omega), ← hsame,
    List.getElem?_take_of_lt (by omega), hget]

/-! ## Heartbeats on the wire -/

namespace RaftNode

variable {n : RaftNode} {msg : Message} (env : Env)

/-- The heartbeats a handler sends answer one, and carry no commit index. -/
theorem handle_heartbeat : ∀ m ∈ (n.handle env msg).messages, m.msgType = .heartbeat →
    m.commit = 0 := by
  unfold handle
  split
  · unfold handleHeartbeat
    simp only
    split <;> simp [Output.messages, Message.new]
  · unfold handleAppendEntries
    simp only
    split
    · simp [Output.messages, Message.new, Message.withReject]
    · split <;> simp [Output.messages, Message.new, Message.withReject]
  · unfold handleAppendResponse
    split
    · simp [Output.messages]
    · split
      · simp [Output.messages]
      · split <;> simp [Output.messages]
  · unfold handleRequestVote
    split <;> simp [Output.messages, Message.new, Message.withReject]
  · unfold handleVoteResponse
    split
    · simp [Output.messages]
    · simp only
      split
      · simp [Output.messages, buildAppendAcks]
      · split <;> simp [Output.messages]
  · simp [Output.messages, handleRequestPreVote]
  · unfold handlePreVoteResponse
    split
    · simp [Output.messages]
    · simp only
      split <;> simp [Output.messages, campaign]
  · unfold handleInstallSnapshot
    split
    · simp [Output.messages]
    · simp only
      split <;> simp [Output.messages]
  · unfold handleSnapshotResponse
    split
    · simp [Output.messages]
    · split
      · simp [Output.messages]
      · split <;> simp [Output.messages]
  · simp [Output.messages]

theorem tick_commit : ∀ m ∈ (n.tick env).1.messages, m.commit = 0 := by
  unfold tick
  split
  · split
    · simp [Output.messages]
    · split <;> simp [Output.messages]
  · split
    · unfold handleElectionTimeout
      split <;> simp [Output.messages, preCampaign, campaign]
    · simp [Output.messages]

/-- Only a leader's `ready` sends a commit index in a heartbeat, and only to a peer whose
next index is past the log. -/
theorem call_heartbeat (call : Call) {m : Message} (hm : m ∈ (n.call call).messages)
    (htype : m.msgType = .heartbeat) : m.commit = 0 ∨ n.state = .leader ∧
      ∃ p pr, n.progress.lookup p = some pr ∧ n.lastIndex < pr.nextIndex ∧
        m = n.replicate p pr := by
  cases call with
  | tick env => exact Or.inl (tick_commit env m hm)
  | step env msg => exact Or.inl (handle_heartbeat env m hm htype)
  | ready =>
    right
    by_cases hlead : n.state = .leader
    · have hmem : m ∈ n.leaderReady.messages := by
        rw [call, takeReady_leader hlead] at hm
        simpa [Output.messages] using hm
      obtain ⟨⟨p, pr⟩, hp, rfl⟩ := List.mem_map.mp hmem
      have hlook := AList.mem_lookup_iff.mpr (List.mem_filter.mp hp).1
      refine ⟨hlead, p, pr, hlook, ?_, rfl⟩
      by_contra hnext
      rw [replicate, if_neg hnext] at htype
      exact absurd htype (by simp)
    · rw [call, takeReady, if_pos hlead] at hm
      exact absurd hm (by simp [Output.messages])
  | propose data => exact absurd hm (by simp [call, Output.messages])
  | readIndex ctx => exact absurd hm (by simp [call, Output.messages])
  | readStates => exact absurd hm (by simp [call, Output.messages])

end RaftNode

/-! ## The invariant -/

/-- Every commit index covers a sealed prefix of its node's log.  What a leader has sent
a peer before heartbeats, and what a heartbeat announces, the peer has taken. -/
structure Firm (S : Setup) (c : Cluster) (h : Chronicle) : Prop where
  safe : Safe S True c h
  backed : Backed S c h
  node : ∀ i, Sealed S c.view h (c.node i).log (c.node i).commitIndex (c.node i).term
  next : ∀ i p pr, Follows c i p pr →
    pr.nextIndex ≤ (c.node i).lastIndex ∨ Took c.view p (c.node i).term (pr.nextIndex - 1)
  beat : ∀ m ∈ c.net, m.msgType = .heartbeat → m.commit = 0 ∨ Took c.view m.to_ m.term m.commit

theorem Firm.init (S : Setup) : Firm S (Cluster.init S) Chronicle.init :=
  ⟨.init S True, .init S, fun _ => Or.inl rfl, fun _ _ _ hf => absurd hf.1 (by simp
    [Cluster.init, newWithConf]), fun _ hm => absurd hm List.not_mem_nil⟩

/-- A leader that leads on in its term keeps its log. -/
theorem Safe.leader_log {strict : Prop} (hs : Safe S strict c h) (hs' : Safe S strict (c.apply e) h')
    (hx : h.Extends h') {i : NodeId} (hlead : (c.node i).state = .leader)
    (hlead' : ((c.apply e).node i).state = .leader)
    (hterm : ((c.apply e).node i).term = (c.node i).term) :
    (c.node i).log <+: ((c.apply e).node i).log := by
  obtain ⟨r, hr, -, hlog⟩ := hs.reign ⟨hlead, rfl⟩
  obtain ⟨r', hr', -, hlog'⟩ := hs'.reign ⟨hlead', hterm⟩
  obtain ⟨s, hs, -, hb, ho⟩ := hx.reign _ r hr
  obtain rfl := Option.some.inj (hr'.symm.trans hs)
  rw [hlog, hlog']
  exact log_isPrefix_log hb ho

/-! ## What a delivery leaves sealed -/

/-- A node that took the leader's log up to `k` in a term not behind its own holds it. -/
theorem Firm.holds (hf : Firm S c h) {p : NodeId} {t k : Nat} (ht : Took c.view p t k)
    (hterm : (c.node p).term ≤ t) :
    ∃ s, h.reign t = some s ∧ k ≤ s.log.length ∧ s.log.take k <+: (c.node p).log := by
  obtain ⟨m, hacc, hk⟩ := ht
  obtain ⟨-, hpos, -, s, hs, hindex⟩ := (hf.safe.durable trivial).acked p t m hacc
  have hstored : Stored c.view h p t s k :=
    ⟨hpos, hs, Nat.le_trans hk hindex, Or.inr ⟨m, hacc, hk⟩⟩
  refine ⟨s, hs, hstored.le, ?_⟩
  rcases (hf.safe.durable trivial).kept p t s k hstored with hheld | ⟨w, -, htw, hw, -⟩
  · exact hheld
  · have hw' : w < (c.node p).term + 1 := hw
    omega

/-- The commit index a heartbeat brings covers what the follower shares with its leader. -/
theorem Firm.heartbeat (hf : Firm S c h) {msg : Message} (hmem : msg ∈ c.net)
    (htype : msg.msgType = .heartbeat) (hterm : (c.node msg.to_).term ≤ msg.term) :
    Sealed S c.view h (c.node msg.to_).log msg.commit msg.term := by
  rcases hf.beat msg hmem htype with hzero | htook
  · exact Or.inl hzero
  · obtain ⟨s, hs, hle, hheld⟩ := hf.holds htook hterm
    rcases hf.backed.net msg hmem with hzero | ⟨u, r, k, hcom, hck, hut⟩
    · exact Or.inl hzero
    · refine Or.inr ⟨u, r, k, hcom, hck, hut, ?_⟩
      have hpre := hcom.isPrefix_log (hf.safe.durable trivial) hf.safe.logs hut hs
      rw [take_eq_of_isPrefix hheld (Nat.le_refl _) hle, take_eq_of_isPrefix hpre hck hcom.le]

/-- An append that spares the tail leaves every sealed entry, and its own commit index
seals no more than what it leaves. -/
theorem Firm.append (hf : Firm S c h) {msg : Message} {env : Env} (hmem : msg ∈ c.net)
    (htype : msg.msgType = .appendEntries) (hacc : (c.node msg.to_).Accepts msg)
    (hg : Guarded c (.deliver msg env)) :
    (c.node msg.to_).log.take (c.node msg.to_).commitIndex <+: appendToLog (c.node msg.to_).log msg ∧
      ∀ k, k ≤ msg.commit → k ≤ (appendToLog (c.node msg.to_).log msg).length →
        Sealed S c.view h (appendToLog (c.node msg.to_).log msg) k msg.term := by
  have hdurable := hf.safe.durable trivial
  have hprev : PrevMatches (c.view.core msg.to_).log msg := prevMatches_iff.mp hacc.2
  obtain ⟨s, hs, -, -, -, heq, hpre, hne, hindex⟩ := hf.safe.logs.appendToLog_eq hmem htype hprev
  change appendToLog (c.node msg.to_).log msg = _ at heq
  change appendToLog (c.node msg.to_).log msg <+: _ at hpre
  constructor
  · rcases hf.node msg.to_ with hzero | ⟨u, r, k, hcom, hck, hut, htake⟩
    · rw [hzero, List.take_zero]
      exact List.nil_prefix
    · have hkeeps : KeepsTail (c.node msg.to_).log msg := by
        have hkept := hg.1
        rw [AppendKeepsTail, observeTerm_log, observeTerm_prevMatches] at hkept
        refine hkept htype (fun hstale => ?_) hacc.2
        have hle := (observeTerm_stale (n := c.node msg.to_) env).mp hstale
        have := hacc.1
        omega
      have hut' : u ≤ msg.term := Nat.le_trans hut hacc.1
      have hlead : (c.node msg.to_).log.take (c.node msg.to_).commitIndex <+: s.log := by
        rw [htake]
        exact (List.take_isPrefix_take.mpr (Or.inl hck)).trans
          (hcom.isPrefix_log hdurable hf.safe.logs hut' hs)
      exact isPrefix_of_length_le hlead hpre
        (hkeeps.length_le hne heq hindex hpre (List.take_prefix _ _) hlead)
  · intro k hk hlen
    rcases hf.backed.net msg hmem with hzero | ⟨u, r, c', hcom, hck, hut⟩
    · left
      omega
    · refine Or.inr ⟨u, r, c', hcom, by omega, hut, ?_⟩
      have hlead := hcom.isPrefix_log hdurable hf.safe.logs hut hs
      rw [← take_eq_of_isPrefix hlead (by omega) hcom.le]
      exact (take_eq_of_isPrefix ((List.take_prefix _ _).trans hpre) (Nat.le_refl k) hlen).symm

/-! ## One event -/

/-- What an event leaves at one node: the sealed prefix stays and may grow. -/
structure Advances (S : Setup) (v : View) (h : Chronicle) (n n' : RaftNode) : Prop where
  sealed_ : Sealed S v h n'.log n'.commitIndex n'.term
  kept : n.log.take n.commitIndex <+: n'.log
  up : n.commitIndex ≤ n'.commitIndex

theorem Firm.advances (hf : Firm S c h) (hs' : Safe S True (c.apply e) h') (hx : h.Extends h')
    (he : Cluster.Enabled S c e) (hg : Guarded c e) (i : NodeId) :
    Advances S (c.apply e).view h' (c.node i) ((c.apply e).node i) := by
  have hnet : ∀ m ∈ c.view.net, m ∈ (c.apply e).view.net := c.net_subset_apply e
  have hterm := c.term_le_apply e i
  have hsame : ((c.apply e).node i).log = (c.node i).log →
      ((c.apply e).node i).commitIndex = (c.node i).commitIndex →
      Advances S (c.apply e).view h' (c.node i) ((c.apply e).node i) := by
    intro hlog hcommit
    refine ⟨?_, ?_, Nat.le_of_eq hcommit.symm⟩
    · rw [hlog, hcommit]
      exact (hf.node i).mono hx hnet (List.take_prefix _ _) hterm
    · rw [hlog]
      exact List.take_prefix _ _
  by_cases hdeliver : ∃ msg env, e = .deliver msg env ∧ msg.to_ = i ∧
      (msg.msgType = .heartbeat ∨ msg.msgType = .appendEntries)
  · obtain ⟨msg, env, rfl, rfl, htype⟩ := hdeliver
    have hmem := he.1
    have hle : msg.term ≤ ((c.node msg.to_).step env msg).node.term := (le_term_step env).2
    rw [c.apply_deliver] at hsame hterm ⊢
    rcases htype with htype | htype
    · obtain ⟨hlog, hcommit⟩ := step_heartbeat (n := c.node msg.to_) env htype
      by_cases hobeys : (c.node msg.to_).term ≤ msg.term ∧
          (c.node msg.to_).commitIndex < msg.commit
      · rw [if_pos hobeys.1, Nat.max_eq_right (Nat.le_of_lt hobeys.2)] at hcommit
        refine ⟨?_, ?_, by rw [hcommit]; exact Nat.le_of_lt hobeys.2⟩
        · rw [hlog, hcommit]
          exact (hf.heartbeat hmem htype hobeys.1).mono hx hnet (List.take_prefix _ _) hle
        · rw [hlog]
          exact List.take_prefix _ _
      · refine hsame hlog ?_
        rw [hcommit]
        split <;> omega
    · by_cases hacc : (c.node msg.to_).Accepts msg
      · obtain ⟨hlog, hcommit⟩ := step_append (n := c.node msg.to_) env htype hacc
        obtain ⟨hkept, hsealed⟩ := hf.append hmem htype hacc hg
        rw [hf.safe.lastNewIndex_eq hmem htype hacc] at hcommit
        have hcovers : (c.node msg.to_).commitIndex ≤
            (appendToLog (c.node msg.to_).log msg).length := by
          have hlen := hkept.length_le
          rw [List.length_take, Nat.min_eq_left (hf.node msg.to_).length_le] at hlen
          exact hlen
        refine ⟨?_, by rw [hlog]; exact hkept, by rw [hcommit]; split <;> omega⟩
        rw [hlog, hcommit]
        split
        · exact (hsealed _ (Nat.min_le_left _ _) (Nat.min_le_right _ _)).mono hx hnet
            (List.take_prefix _ _) hle
        · exact (hf.node msg.to_).mono hx hnet hkept hterm
      · obtain ⟨hlog, hcommit⟩ := step_append_refused (n := c.node msg.to_) env htype hacc
        exact hsame hlog hcommit
  · -- Nothing else cuts a log, and only a leader's count moves a commit index.
    have hgrown := c.apply_grown e i (fun msg env he' hto => by
      subst he'
      exact ⟨fun htype => hdeliver ⟨msg, env, rfl, hto, Or.inl htype⟩,
        fun htype => hdeliver ⟨msg, env, rfl, hto, Or.inr htype⟩,
        (hf.safe.logs.faithful msg he.1).install⟩)
    have hkept : (c.node i).log.take (c.node i).commitIndex <+: ((c.apply e).node i).log :=
      (List.take_prefix _ _).trans hgrown.log
    rcases hgrown.commit with hcommit | hcount
    · refine ⟨?_, hkept, Nat.le_of_eq hcommit.symm⟩
      rw [hcommit]
      exact (hf.node i).mono hx hnet hkept hterm
    · have hup := hcount.up
      have hquorum := hcount.quorum
      obtain ⟨r, hcom, hlog⟩ := committed_of_quorum (hs'.durable trivial) hs'.election hs'.logs rfl
        (hs'.wired i) hcount.state (by omega) hcount.own
      rw [hquorum] at hcom
      exact ⟨Or.inr ⟨_, r, _, hcom, Nat.le_refl _, Nat.le_refl _, by rw [hlog]⟩, hkept,
        Nat.le_of_lt hup⟩

/-- The next index of a fresh leader is the place of its no-op. -/
theorem next_of_crowned {c : Cluster} (he : Cluster.Enabled S c e) {i p : NodeId} {pr : Progress}
    (hi : i = e.node) (hlead : (c.node i).state ≠ .leader) (hf : Follows (c.apply e) i p pr) :
    pr.nextIndex ≤ ((c.apply e).node i).lastIndex := by
  subst hi
  obtain ⟨hstate, hpr⟩ := hf
  rw [c.apply_node_self] at hstate hpr ⊢
  rcases (call_polls e.call).leader hstate with hold | ⟨msg, hmsg, hcrowned⟩
  · exact absurd hold hlead
  · obtain ⟨env, rfl⟩ := Event.eq_deliver hmsg
    have hstep : (c.node msg.to_).call (.step env msg) = _ := step_crowned_eq env hcrowned
    change ((c.node msg.to_).call (.step env msg)).node.progress.lookup p = some pr at hpr
    change pr.nextIndex ≤ ((c.node msg.to_).call (.step env msg)).node.lastIndex
    rw [hstep] at hpr ⊢
    change ((c.node msg.to_).countVote msg).initialProgress.lookup p = some pr at hpr
    rw [lookup_initialProgress] at hpr
    split at hpr
    · obtain rfl := Option.some.inj hpr
      show ((c.node msg.to_).countVote msg).log.length + 1 ≤
        (((c.node msg.to_).countVote msg).log ++ [_]).length
      rw [List.length_append, List.length_singleton]
    · exact absurd hpr (by simp)

theorem backOff_nextIndex_le (pr : Progress) (hint : Nat) :
    (backOff pr hint).nextIndex ≤ max pr.nextIndex 1 := by
  simp only [backOff, Progress.becomeReject]
  split <;> split <;> omega

/-- What the leader has sent a peer before heartbeats, after one more event. -/
theorem Firm.next_apply (hf : Firm S c h) (hs' : Safe S True (c.apply e) h') (hx : h.Extends h')
    (he : Cluster.Enabled S c e) {i p : NodeId} {pr' : Progress} (hf' : Follows (c.apply e) i p pr') :
    pr'.nextIndex ≤ ((c.apply e).node i).lastIndex ∨
      Took (c.apply e).view p ((c.apply e).node i).term (pr'.nextIndex - 1) := by
  have hnet : ∀ m ∈ c.view.net, m ∈ (c.apply e).view.net := c.net_subset_apply e
  -- A smaller next index than a known one, for a leader that leads on.
  have hless : ∀ pr, Follows c i p pr → ((c.apply e).node i).term = (c.node i).term →
      pr'.nextIndex ≤ max pr.nextIndex 1 → pr'.nextIndex ≤ ((c.apply e).node i).lastIndex ∨
        Took (c.apply e).view p ((c.apply e).node i).term (pr'.nextIndex - 1) := by
    intro pr hold hterm hle
    have hlog := (hf.safe.leader_log hs' hx hold.1 hf'.1 hterm).length_le
    have hpos : 0 < (c.node i).log.length :=
      List.length_pos_iff.mpr (hf.safe.logs.recorded i).nonempty
    rcases hf.next i p pr hold with hlast | htook
    · left
      unfold lastIndex at hlast ⊢
      omega
    · rw [hterm]
      exact Or.inr (htook.mono hnet (by omega))
  rcases hf'.tracks with ⟨hi, htracks⟩ | ⟨hold, hnode⟩
  · cases htracks with
    | fresh hlead hmatch hnext => exact Or.inl (next_of_crowned he hi hlead hf')
    | kept hleads hpr => exact hless pr' ⟨hleads.state, hpr⟩ hleads.term (Nat.le_max_left _ _)
    | refused hleads m hm htype hreject hterm hfrom pr hpr heq =>
      refine hless pr ⟨hleads.state, hpr⟩ hleads.term ?_
      rw [heq]
      exact backOff_nextIndex_le pr _
    | accepted hleads m hm htype haccept hterm hfrom pr hpr heq =>
      rcases Nat.lt_or_ge pr.matchIndex m.index with hnew | hstale
      · have hacc : Acceptance c.view p ((c.apply e).node i).term m :=
          ⟨(he.sent.msg hm).1, htype, haccept, hfrom, hterm.trans hleads.term.symm⟩
        refine Or.inr ⟨m, hacc.mono hnet, ?_⟩
        rw [heq, (becomeAccept_new hnew).1]
        exact Nat.le_of_eq (Nat.add_sub_cancel _ _)
      · refine hless pr ⟨hleads.state, hpr⟩ hleads.term ?_
        rw [heq, (becomeAccept_old hstale).1]
        exact Nat.le_max_left _ _
    | installed m hm htype =>
      exact absurd htype (hf.safe.logs.faithful m (he.sent.msg hm).1).answer
  · exact hless pr' hold (by rw [hnode]) (Nat.le_max_left _ _)

/-- What a heartbeat announces was taken before it was sent. -/
theorem Firm.beat_apply (hf : Firm S c h) {m : Message} (hm : m ∈ (c.apply e).net)
    (htype : m.msgType = .heartbeat) :
    m.commit = 0 ∨ Took (c.apply e).view m.to_ m.term m.commit := by
  have hnet : ∀ m ∈ c.view.net, m ∈ (c.apply e).view.net := c.net_subset_apply e
  rw [c.apply_eq] at hm
  rcases List.mem_append.mp hm with hold | hnew
  · rcases hf.beat m hold htype with hzero | htook
    · exact Or.inl hzero
    · exact Or.inr (htook.mono hnet (Nat.le_refl _))
  · rcases call_heartbeat e.call hnew htype with hzero | ⟨hlead, p, pr, hpr, hpast, rfl⟩
    · exact Or.inl hzero
    · right
      have hlen := (hf.node e.node).length_le
      unfold replicate
      rw [if_pos hpast]
      unfold lastIndex at hpast
      rcases hf.next e.node p pr ⟨hlead, hpr⟩ with hlast | htook
      · unfold lastIndex at hlast
        omega
      · exact htook.mono hnet (show (c.node e.node).commitIndex ≤ _ by omega)

theorem Firm.apply (hf : Firm S c h) (he : Cluster.Enabled S c e) (hg : Guarded c e) :
    ∃ h', h.Extends h' ∧ Firm S (c.apply e) h' := by
  obtain ⟨h', hx, hs'⟩ := hf.safe.apply he (fun _ => hg)
  exact ⟨h', hx, hs', hf.backed.apply hf.safe hs' hx he,
    fun i => (hf.advances hs' hx he hg i).sealed_, fun _ _ _ hf' => hf.next_apply hs' hx he hf',
    fun _ hm htype => hf.beat_apply hm htype⟩

/-! ## Runs -/

theorem Firm.run (hf : Firm S c h) (hv : Cluster.Valid S c es) (hg : GuardedRun c es) :
    ∃ h', h.Extends h' ∧ Firm S (c.run es) h' ∧ ∀ m ∈ c.net, m ∈ (c.run es).net := by
  induction es generalizing c h with
  | nil => exact ⟨h, .refl h, hf, fun _ hm => hm⟩
  | cons e rest ih =>
    obtain ⟨h₁, hx₁, hf₁⟩ := hf.apply hv.1 hg.1
    obtain ⟨h₂, hx₂, hf₂, hnet⟩ := ih hf₁ hv.2 hg.2
    exact ⟨h₂, hx₁.trans hx₂, hf₂, fun m hm => hnet m (c.net_subset_apply e m hm)⟩

theorem guarded_at (hg : GuardedRun (Cluster.init S) es) {k : Nat} (hk : k < es.length) :
    Guarded (Cluster.after S es k) es[k] := by
  rw [← List.take_append_drop k es, guardedRun_append, List.drop_eq_getElem_cons hk] at hg
  exact hg.2.1

section Reached

variable (hv : Cluster.Valid S (Cluster.init S) es) (hg : GuardedRun (Cluster.init S) es)

include hv hg

theorem Firm.two {j k : Nat} (hjk : j ≤ k) :
    ∃ h h', h.Extends h' ∧ Firm S (Cluster.after S es j) h ∧ Firm S (Cluster.after S es k) h' ∧
      ∀ m ∈ (Cluster.after S es j).net, m ∈ (Cluster.after S es k).net := by
  obtain ⟨n, rfl⟩ := Nat.exists_eq_add_of_le hjk
  have hguards : GuardedRun (Cluster.init S) (es.take j) ∧
      GuardedRun (Cluster.after S es j) ((es.drop j).take n) := by
    rw [← List.take_append_drop (j + n) es, guardedRun_append, List.take_add,
      guardedRun_append] at hg
    exact hg.1
  obtain ⟨h, -, hf, -⟩ := (Firm.init S).run (hv.take j) hguards.1
  obtain ⟨h', hx, hf', hnet⟩ := hf.run (hv.segment j n) hguards.2
  refine ⟨h, h', hx, hf, ?_, fun m hm => ?_⟩
  · rw [Cluster.after_add]
    exact hf'
  · rw [Cluster.after_add]
    exact hnet m hm

theorem agree_of_le {j k : Nat} (hjk : j ≤ k) {a b : NodeId} {i : Nat} (hpos : 0 < i)
    (ha : i ≤ ((Cluster.after S es j).node a).commitIndex)
    (hb : i ≤ ((Cluster.after S es k).node b).commitIndex) :
    ∃ e, ((Cluster.after S es j).node a).log[i - 1]? = some e ∧
      ((Cluster.after S es k).node b).log[i - 1]? = some e := by
  obtain ⟨h, h', hx, hf, hf', hnet⟩ := Firm.two hv hg hjk
  have hsealed : Sealed S (Cluster.after S es k).view h' ((Cluster.after S es j).node a).log
      ((Cluster.after S es j).node a).commitIndex ((Cluster.after S es j).node a).term :=
    (hf.node a).mono hx hnet (List.take_prefix _ _) (Nat.le_refl _)
  exact hsealed.get_eq (hf'.node b) (hf'.safe.durable trivial) hf'.safe.logs hpos ha hb

end Reached

/-- State machine safety: in a guarded run, what is committed at a position is the same
entry on every node that knows the position to be committed, whenever it knows. -/
theorem state_machine_safety (S : Setup) (es : List Event)
    (hv : Cluster.Valid S (Cluster.init S) es) (hg : GuardedRun (Cluster.init S) es) (j k : Nat)
    (a b : NodeId) (i : Nat) (hpos : 0 < i)
    (ha : i ≤ ((Cluster.after S es j).node a).commitIndex)
    (hb : i ≤ ((Cluster.after S es k).node b).commitIndex) :
    ∃ e, ((Cluster.after S es j).node a).log[i - 1]? = some e ∧
      ((Cluster.after S es k).node b).log[i - 1]? = some e := by
  rcases Nat.le_total j k with hjk | hkj
  · exact agree_of_le hv hg hjk hpos ha hb
  · obtain ⟨e, he, he'⟩ := agree_of_le hv hg hkj hpos hb ha
    exact ⟨e, he', he⟩

/-- Node 2 of `trio` learns from a heartbeat that the no-op is committed. -/
def informing : List Event :=
  committing ++ [.ready 1,
    .deliver { msgType := .heartbeat, from_ := 1, to_ := 2, term := 1, commit := 2 } late]

theorem state_machine_safety_informing :
    ∃ e, ((Cluster.after trio informing 8).node 1).log[1]? = some e ∧
      ((Cluster.after trio informing 10).node 2).log[1]? = some e :=
  state_machine_safety trio informing (by decide) (by decide) 8 10 1 2 2 (by decide) (by decide)
    (by decide)

theorem commit_sound_of_guarded (S : Setup) (es : List Event)
    (hv : Cluster.Valid S (Cluster.init S) es) (hg : GuardedRun (Cluster.init S) es) :
    CommitSound S es := by
  refine ⟨fun k i => ?_, fun k i => ?_⟩
  · obtain ⟨h, -, -, hf, -⟩ := Firm.two hv hg (Nat.le_refl k)
    exact (hf.node i).length_le
  · rcases Nat.lt_or_ge k es.length with hk | hk
    · obtain ⟨h, -, -, hf, -⟩ := Firm.two hv hg (Nat.le_refl k)
      have hguard := guarded_at hg hk
      obtain ⟨h', hx, hs'⟩ := hf.safe.apply (hv.enabled hk) (fun _ => hguard)
      rw [Cluster.after_succ hk]
      exact (hf.advances hs' hx (hv.enabled hk) hguard i).up
    · rw [Cluster.after_of_le hk]

theorem commit_sound_of_guarded_informing : CommitSound trio informing :=
  commit_sound_of_guarded trio informing (by decide) (by decide)

/-! ## What the nodes hand over -/

def Event.handed (c : Cluster) (i : NodeId) : Event → List LogEntry
  | .ready j => if j = i then (NodeCall.ready.apply (c.node i)).2 else []
  | _ => []

def handedOver (i : NodeId) (c : Cluster) : List Event → List LogEntry
  | [] => []
  | e :: es => e.handed c i ++ handedOver i (c.apply e) es

/-- A leader asked for entries has nothing in its log that is not committed. -/
def ReadyRun (c : Cluster) : List Event → Prop
  | [] => True
  | e :: es => (∀ i, e = .ready i → ReadyCommitted (c.node i) .ready) ∧ ReadyRun (c.apply e) es

instance (n : RaftNode) : Decidable (ReadyCommitted n .ready) :=
  decidable_of_iff (n.state = .leader → n.lastApplied < n.commitIndex → n.commitIndex = n.lastIndex)
    ⟨fun hall _ => hall, fun hall => hall rfl⟩

instance decidableReadyRun : (es : List Event) → (c : Cluster) → Decidable (ReadyRun c es)
  | [], _ => isTrue trivial
  | e :: es, c =>
    have := decidableReadyRun es (c.apply e)
    have : Decidable (∀ i, e = .ready i → ReadyCommitted (c.node i) .ready) :=
      match e with
      | .ready i => decidable_of_iff (ReadyCommitted (c.node i) .ready)
          ⟨fun hready _ hj => (Event.ready.inj hj) ▸ hready, fun hall => hall i rfl⟩
      | .tick _ _ | .deliver _ _ | .propose _ _ | .readIndex _ _ | .readStates _ =>
        isTrue fun _ he => nomatch he
    inferInstanceAs (Decidable (_ ∧ ReadyRun (c.apply e) es))

/-- The log up to the mark has been handed over, and the mark is committed. -/
structure Drained (n : RaftNode) (delivered : List LogEntry) : Prop where
  applied : Applied 0 n delivered
  le : n.lastApplied ≤ n.commitIndex

theorem Applied.kept {n n' : RaftNode} {delivered : List LogEntry} {k : Nat}
    (ha : Applied 0 n delivered) (hle : n.lastApplied ≤ k) (hlog : n.log.take k <+: n'.log)
    (hmark : n'.lastApplied = n.lastApplied) : Applied 0 n' delivered := by
  obtain ⟨htake, hlen⟩ := ha
  rw [Nat.sub_zero, List.drop_zero] at htake
  rw [Nat.sub_zero] at hlen
  have hcount := congrArg List.length htake
  rw [hlen, List.length_take] at hcount
  have hpre : n.log.take n.lastApplied <+: n'.log :=
    (List.take_isPrefix_take.mpr (Or.inl hle)).trans hlog
  refine ⟨?_, by rw [hmark, Nat.sub_zero, hlen]⟩
  rw [hmark, Nat.sub_zero, List.drop_zero, htake]
  exact (take_eq_of_isPrefix hpre (Nat.le_refl _) (by omega)).symm

/-- Only `ready` moves the mark of a node. -/
theorem Firm.lastApplied_apply (hf : Firm S c h) (he : Cluster.Enabled S c e) {i : NodeId}
    (hready : e ≠ .ready i) : ((c.apply e).node i).lastApplied = (c.node i).lastApplied := by
  by_cases hi : i = e.node
  · subst hi
    rw [c.apply_node_self]
    cases e with
    | tick j env => exact (tick_keeps env _).2
    | deliver msg env =>
      have hinstall := (hf.safe.logs.faithful msg he.1).install
      exact (step_log env (fun hinstalls => hinstall hinstalls.1)).1
    | propose j data =>
      show ((c.node j).propose data).1.lastApplied = (c.node j).lastApplied
      unfold propose
      split <;> rfl
    | readIndex j ctx =>
      show ((c.node j).readIndex ctx).1.lastApplied = (c.node j).lastApplied
      unfold readIndex
      split <;> rfl
    | readStates j => rfl
    | ready j => exact absurd rfl hready
  · rw [c.apply_node_ne e hi]

theorem Drained.apply (hf : Firm S c h) (he : Cluster.Enabled S c e) (hg : Guarded c e) {i : NodeId}
    (hready : ∀ j, e = .ready j → ReadyCommitted (c.node j) .ready) {delivered : List LogEntry}
    (hd : Drained (c.node i) delivered) :
    Drained ((c.apply e).node i) (delivered ++ e.handed c i) := by
  by_cases hmine : e = .ready i
  · subst hmine
    have hidx := (hf.safe.logs.recorded i).indexed hf.safe.logs.indexed
    have hcall := (hd.applied.call_iff (Nat.zero_le _) hidx .ready).mpr (hready i rfl)
    have hnode : (c.apply (.ready i)).node i = (NodeCall.ready.apply (c.node i)).1 :=
      c.apply_node_self (.ready i)
    have hhanded : (Event.ready i).handed c i = (NodeCall.ready.apply (c.node i)).2 := if_pos rfl
    rw [hnode, hhanded]
    refine ⟨hcall.1, ?_⟩
    have hle := hd.le
    by_cases hlead : (c.node i).state = .leader
    · rw [NodeCall.ready_leader hlead]
      show (if _ then _ else _) ≤ (c.node i).commitIndex
      split
      · exact Nat.le_refl _
      · exact hle
    · rw [NodeCall.ready_follower hlead]
      exact hle
  · have hquiet : e.handed c i = [] := by
      cases e with
      | ready j => exact if_neg (fun hj => hmine (congrArg Event.ready hj))
      | tick j env => rfl
      | deliver msg env => rfl
      | propose j data => rfl
      | readIndex j ctx => rfl
      | readStates j => rfl
    obtain ⟨h', hx, hs'⟩ := hf.safe.apply he (fun _ => hg)
    have hadv := hf.advances hs' hx he hg i
    have hmark := hf.lastApplied_apply he hmine
    rw [hquiet, List.append_nil]
    refine ⟨hd.applied.kept hd.le hadv.kept hmark, ?_⟩
    rw [hmark]
    exact Nat.le_trans hd.le hadv.up

theorem Drained.run (hf : Firm S c h) (hv : Cluster.Valid S c es) (hg : GuardedRun c es)
    (hready : ReadyRun c es) {i : NodeId} {delivered : List LogEntry}
    (hd : Drained (c.node i) delivered) :
    Drained ((c.run es).node i) (delivered ++ handedOver i c es) := by
  induction es generalizing c h delivered with
  | nil =>
    rw [handedOver, List.append_nil]
    exact hd
  | cons e rest ih =>
    obtain ⟨h₁, hx, hf₁⟩ := hf.apply hv.1 hg.1
    have hrest := ih hf₁ hv.2 hg.2 hready.2 (hd.apply hf hv.1 hg.1 hready.1)
    rw [handedOver, ← List.append_assoc]
    exact hrest

/-- Replicas apply one sequence: in a guarded run whose leaders are asked for entries only
while their whole log is committed, each node hands over its log up to its mark, each entry
once and in order, and of two nodes one hands over a beginning of what the other does. -/
theorem replicas_apply_one_sequence (S : Setup) (es : List Event)
    (hv : Cluster.Valid S (Cluster.init S) es) (hg : GuardedRun (Cluster.init S) es)
    (hready : ReadyRun (Cluster.init S) es) (a b : NodeId) :
    handedOver a (Cluster.init S) es =
        ((Cluster.run (Cluster.init S) es).node a).log.take
          ((Cluster.run (Cluster.init S) es).node a).lastApplied ∧
      (handedOver a (Cluster.init S) es <+: handedOver b (Cluster.init S) es ∨
        handedOver b (Cluster.init S) es <+: handedOver a (Cluster.init S) es) := by
  obtain ⟨h, -, hf, -⟩ := (Firm.init S).run hv hg
  have hdrained : ∀ i, Drained ((Cluster.run (Cluster.init S) es).node i)
      (handedOver i (Cluster.init S) es) := by
    intro i
    have hstart : Drained ((Cluster.init S).node i) [] := ⟨⟨rfl, rfl⟩, Nat.le_refl _⟩
    exact hstart.run (Firm.init S) hv hg hready
  have htake : ∀ i, handedOver i (Cluster.init S) es =
      ((Cluster.run (Cluster.init S) es).node i).log.take
        ((Cluster.run (Cluster.init S) es).node i).lastApplied := by
    intro i
    have happlied := (hdrained i).applied.1
    rw [Nat.sub_zero, List.drop_zero] at happlied
    exact happlied
  -- The shorter of two sealed prefixes begins the longer.
  have hbegins : ∀ i j, ((Cluster.run (Cluster.init S) es).node i).lastApplied ≤
      ((Cluster.run (Cluster.init S) es).node j).lastApplied →
      handedOver i (Cluster.init S) es <+: handedOver j (Cluster.init S) es := by
    intro i j hle
    rw [htake i, htake j, List.prefix_iff_getElem?]
    intro k hk
    rw [List.length_take] at hk
    have hi := (hdrained i).le
    have hj := (hdrained j).le
    obtain ⟨e, hget, hget'⟩ := (hf.node i).get_eq (hf.node j) (hf.safe.durable trivial)
      hf.safe.logs (Nat.succ_pos k) (by omega) (by omega)
    rw [Nat.succ_sub_one] at hget hget'
    rw [List.getElem?_take_of_lt (by omega), hget', ← List.getElem?_eq_getElem,
      List.getElem?_take_of_lt (by omega), hget]
  refine ⟨htake a, ?_⟩
  rcases Nat.le_total ((Cluster.run (Cluster.init S) es).node a).lastApplied
    ((Cluster.run (Cluster.init S) es).node b).lastApplied with hle | hle
  · exact Or.inl (hbegins a b hle)
  · exact Or.inr (hbegins b a hle)

def sendOf (index : Nat) (entries : List LogEntry) : Event :=
  .deliver { msgType := .appendEntries, from_ := 2, to_ := 3, term := 2, index, entries } later

def replyOf (index : Nat) (reject : Bool) : Event :=
  .deliver { msgType := .appendResponse, from_ := 3, to_ := 2, term := 2, index, reject } later

/-- Nodes 1 and 2 lead in turn, and each hands over the log it has committed. -/
def succession : List Event :=
  committing ++ .ready 1 :: electing later 2 3 2 2 ++
    [sendOf 2 [LogEntry.new 3 2 []], replyOf 0 true, .ready 2,
     sendOf 1 [noop, LogEntry.new 3 2 []], replyOf 0 true, .ready 2,
     sendOf 0 [root, noop, LogEntry.new 3 2 []], replyOf 3 false, .ready 2]

theorem replicas_apply_one_sequence_succession :
    handedOver 1 (Cluster.init trio) succession =
        ((Cluster.run (Cluster.init trio) succession).node 1).log.take
          ((Cluster.run (Cluster.init trio) succession).node 1).lastApplied ∧
      (handedOver 1 (Cluster.init trio) succession <+: handedOver 2 (Cluster.init trio) succession ∨
        handedOver 2 (Cluster.init trio) succession <+:
          handedOver 1 (Cluster.init trio) succession) :=
  replicas_apply_one_sequence trio succession (by decide) (by decide) (by decide) 1 2

example : handedOver 1 (Cluster.init trio) succession = [root, noop] ∧
    handedOver 2 (Cluster.init trio) succession = [root, noop, LogEntry.new 3 2 []] := by
  decide

end Raft
end RTDB
