import RTDB.Raft.Safety

/-!
# What a call does to the log and the commit index

Four handlers write the commit index.  A heartbeat raises it to the sender's,
whatever the log holds; an accepted append cuts the log behind its previous index
and may set the commit index back to its last entry; a leader counts
acknowledgements; a snapshot replaces both.  Nothing else lowers or cuts either.
-/

namespace RTDB
namespace Raft

open Quorum Reign

namespace RaftNode

variable {n n' : RaftNode} {msg : Message} (env : Env)

/-- The node takes the entries of the message: it is not stale, and the log meets
its previous index. -/
def Accepts (n : RaftNode) (msg : Message) : Prop :=
  n.term ≤ msg.term ∧ n.prevMatches msg = true

instance (n : RaftNode) (msg : Message) : Decidable (n.Accepts msg) :=
  inferInstanceAs (Decidable (_ ∧ _))

/-- A leader counted acknowledgements: the commit index is a quorum index of its
own term now. -/
structure Counted (n n' : RaftNode) : Prop where
  was : n.state = .leader
  state : n'.state = .leader
  term : n'.term = n.term
  log : n'.log = n.log
  up : n.commitIndex < n'.commitIndex
  quorum : n'.quorumIndex = n'.commitIndex
  own : n'.logTerm n'.quorumIndex = n'.term

/-- The log may only have grown, and the commit index only by counting. -/
structure Grown (n n' : RaftNode) : Prop where
  log : n.log <+: n'.log
  commit : n'.commitIndex = n.commitIndex ∨ Counted n n'

theorem Grown.same (hlog : n'.log = n.log) (hcommit : n'.commitIndex = n.commitIndex) :
    Grown n n' := by
  refine ⟨?_, Or.inl hcommit⟩
  rw [hlog]

theorem Grown.concat (e : LogEntry) (hlog : n'.log = n.log ++ [e])
    (hcommit : n'.commitIndex = n.commitIndex) : Grown n n' := by
  refine ⟨?_, Or.inl hcommit⟩
  rw [hlog]
  exact List.prefix_append _ _

/-! ## Observing a term -/

theorem observeTerm_commitIndex (n : RaftNode) (msg : Message) :
    (n.observeTerm env msg).commitIndex = n.commitIndex := by
  unfold observeTerm
  split <;> rfl

theorem observeTerm_stale : msg.term < (n.observeTerm env msg).term ↔ msg.term < n.term := by
  unfold observeTerm
  split
  · rename_i hgt
    show msg.term < msg.term ↔ msg.term < n.term
    omega
  · rfl

theorem observeTerm_prevMatches :
    (n.observeTerm env msg).prevMatches msg = n.prevMatches msg := by
  rw [prevMatches, prevMatches, logTerm, logTerm, observeTerm_log]

/-! ## The handlers that write the commit index -/

theorem step_heartbeat (htype : msg.msgType = .heartbeat) :
    (n.step env msg).node.log = n.log ∧ (n.step env msg).node.commitIndex =
      if n.term ≤ msg.term then max n.commitIndex msg.commit else n.commitIndex := by
  have hstep : n.step env msg = (n.observeTerm env msg).handleHeartbeat env msg := by
    rw [step, handle, htype]
  have hstale : msg.term < ((n.observeTerm env msg).resetElectionTimeout env).term ↔
      msg.term < n.term := observeTerm_stale env
  have hlog := observeTerm_log env n msg
  have hcommit := observeTerm_commitIndex env n msg
  rw [hstep, handleHeartbeat]
  simp only
  by_cases hle : n.term ≤ msg.term
  · rw [if_neg (by omega), if_pos hle, ← hcommit]
    exact ⟨hlog, rfl⟩
  · rw [if_pos (by omega), if_neg hle]
    exact ⟨hlog, hcommit⟩

theorem step_append (htype : msg.msgType = .appendEntries) (hacc : n.Accepts msg) :
    (n.step env msg).node.log = appendToLog n.log msg ∧ (n.step env msg).node.commitIndex =
      if msg.commit > n.commitIndex then min msg.commit (lastNewIndex msg)
      else n.commitIndex := by
  have hstep : n.step env msg = (n.observeTerm env msg).handleAppendEntries env msg := by
    rw [step, handle, htype]
  have hstale : msg.term < ((n.observeTerm env msg).resetElectionTimeout env).term ↔
      msg.term < n.term := observeTerm_stale env
  have hprev : (n.observeTerm env msg).prevMatches msg = true := by
    rw [observeTerm_prevMatches]
    exact hacc.2
  have hle := hacc.1
  rw [hstep, handleAppendEntries]
  simp only
  rw [if_neg (by omega), if_neg]
  · rw [← observeTerm_log env n msg,
      ← observeTerm_commitIndex env n msg]
    exact ⟨rfl, rfl⟩
  · show ¬ (!(n.observeTerm env msg).prevMatches msg) = true
    rw [hprev]
    simp

theorem step_append_refused (htype : msg.msgType = .appendEntries) (hacc : ¬ n.Accepts msg) :
    (n.step env msg).node.log = n.log ∧
      (n.step env msg).node.commitIndex = n.commitIndex := by
  have hstep : n.step env msg = (n.observeTerm env msg).handleAppendEntries env msg := by
    rw [step, handle, htype]
  have hlog := observeTerm_log env n msg
  have hcommit := observeTerm_commitIndex env n msg
  have hstale : msg.term < ((n.observeTerm env msg).resetElectionTimeout env).term ↔
      msg.term < n.term := observeTerm_stale env
  rw [hstep, handleAppendEntries]
  simp only
  by_cases hlt : msg.term < n.term
  · rw [if_pos (hstale.mpr hlt)]
    exact ⟨hlog, hcommit⟩
  · rw [if_neg (fun h => hlt (hstale.mp h)), if_pos]
    · exact ⟨hlog, hcommit⟩
    · show (!(n.observeTerm env msg).prevMatches msg) = true
      rw [observeTerm_prevMatches, Bool.not_eq_true']
      cases hp : n.prevMatches msg with
      | false => rfl
      | true => exact absurd ⟨by omega, hp⟩ hacc

/-! ## All the other calls -/

theorem advanceCommitIndex_grown (n : RaftNode) : Grown n n.advanceCommitIndex := by
  unfold advanceCommitIndex
  split
  · exact .same rfl rfl
  · rename_i hlead
    rw [not_not] at hlead
    split
    · rename_i hup
      exact ⟨List.prefix_rfl, Or.inr ⟨hlead, hlead, rfl, rfl, hup.1, rfl, hup.2⟩⟩
    · exact .same rfl rfl

theorem handleAppendResponse_grown : Grown n (n.handleAppendResponse msg).node := by
  unfold handleAppendResponse
  split
  · exact .same rfl rfl
  · split
    · exact .same rfl rfl
    · rename_i progress _
      split
      · exact .same rfl rfl
      · -- Taking note of the answer changes neither log nor commit index.
        have hadv := advanceCommitIndex_grown
          { n with progress := n.progress.insert msg.from_ (progress.becomeAccept msg.index) }
        refine ⟨hadv.log, ?_⟩
        rcases hadv.commit with hsame | hcount
        · exact Or.inl hsame
        · exact Or.inr ⟨hcount.was, hcount.state, hcount.term, hcount.log, hcount.up,
            hcount.quorum, hcount.own⟩

theorem handleRequestVote_grown : Grown n (n.handleRequestVote env msg).node := by
  unfold handleRequestVote
  split
  · exact .same rfl rfl
  · simp only
    split <;> exact .same rfl rfl

theorem handleVoteResponse_grown : Grown n (n.handleVoteResponse env msg).node := by
  unfold handleVoteResponse
  split
  · exact .same rfl rfl
  · simp only
    split
    · exact .concat _ rfl rfl
    · split <;> exact .same rfl rfl

theorem handlePreVoteResponse_grown : Grown n (n.handlePreVoteResponse env msg).node := by
  unfold handlePreVoteResponse
  split
  · exact .same rfl rfl
  · simp only
    split <;> exact .same rfl rfl

theorem handleSnapshotResponse_grown : Grown n (n.handleSnapshotResponse msg).node := by
  unfold handleSnapshotResponse
  split
  · exact .same rfl rfl
  · split
    · exact .same rfl rfl
    · split <;> exact .same rfl rfl

theorem handle_grown (hbeat : msg.msgType ≠ .heartbeat) (happend : msg.msgType ≠ .appendEntries)
    (hinstall : msg.msgType ≠ .installSnapshot) : Grown n (n.handle env msg).node := by
  unfold handle
  split
  · rename_i htype
    exact absurd htype hbeat
  · rename_i htype
    exact absurd htype happend
  · exact handleAppendResponse_grown
  · exact handleRequestVote_grown env
  · exact handleVoteResponse_grown env
  · exact .same rfl rfl
  · exact handlePreVoteResponse_grown env
  · rename_i htype
    exact absurd htype hinstall
  · exact handleSnapshotResponse_grown
  · exact .same rfl rfl

/-- A node that steps down for the term of a message counts nothing in that call. -/
theorem step_grown (hbeat : msg.msgType ≠ .heartbeat) (happend : msg.msgType ≠ .appendEntries)
    (hinstall : msg.msgType ≠ .installSnapshot) : Grown n (n.step env msg).node := by
  have hgrown := handle_grown (n := n.observeTerm env msg) env hbeat happend hinstall
  by_cases hterm : msg.term > n.term
  · have hlog := observeTerm_log env n msg
    have hcommit := observeTerm_commitIndex env n msg
    refine ⟨hlog ▸ hgrown.log, ?_⟩
    rcases hgrown.commit with hsame | hcount
    · exact Or.inl (hsame.trans hcommit)
    · have hfollower : (n.observeTerm env msg).state = .follower := by
        rw [observeTerm, if_pos hterm]
        rfl
      exact absurd (hfollower.symm.trans hcount.was) (by simp)
  · have hsame : n.observeTerm env msg = n := if_neg hterm
    rw [step, hsame]
    rw [hsame] at hgrown
    exact hgrown

theorem tick_grown (n : RaftNode) : Grown n (n.tick env).1.node := by
  unfold tick
  split
  · split
    · exact .same rfl rfl
    · split
      · unfold checkQuorum
        simp only
        split <;> exact .same rfl rfl
      · exact .same rfl rfl
  · split
    · unfold handleElectionTimeout
      split <;> exact .same rfl rfl
    · exact .same rfl rfl

theorem propose_grown (n : RaftNode) (data : List UInt8) : Grown n (n.propose data).1 := by
  unfold propose
  split
  · exact .same rfl rfl
  · exact .concat _ rfl rfl

theorem readIndex_grown (n : RaftNode) (ctx : List UInt8) : Grown n (n.readIndex ctx).1 := by
  unfold readIndex
  split <;> exact .same rfl rfl

theorem takeReady_grown (n : RaftNode) : Grown n n.takeReady.1 := by
  unfold takeReady
  split <;> exact .same rfl rfl

/-- A heartbeat or an append leaves no node a leader of a higher term. -/
theorem step_leader (htype : msg.msgType = .heartbeat ∨ msg.msgType = .appendEntries)
    (hlead : (n.step env msg).node.state = .leader) : msg.term ≤ n.term := by
  have hstate : (n.step env msg).node.state = (n.observeTerm env msg).state := by
    rw [step, handle]
    rcases htype with htype | htype <;> rw [htype]
    · show (handleHeartbeat env _ msg).node.state = _
      unfold handleHeartbeat
      simp only
      split <;> rfl
    · show (handleAppendEntries env _ msg).node.state = _
      unfold handleAppendEntries
      simp only
      split
      · rfl
      · split <;> rfl
  by_contra hlt
  have hfollower : (n.observeTerm env msg).state = .follower := by
    rw [observeTerm, if_pos (by omega)]
    rfl
  rw [hstate, hfollower] at hlead
  exact absurd hlead (by simp)

end RaftNode

open RaftNode

/-! ## One event of the cluster -/

theorem Cluster.update_node_self (c : Cluster) (i : NodeId) (o : Output) :
    (c.update i o).node i = o.node := by
  show Function.update c.node i o.node i = o.node
  rw [Function.update_self]

theorem Cluster.apply_node_ne (c : Cluster) (e : Event) {i : NodeId} (hne : i ≠ e.node) :
    (c.apply e).node i = c.node i := by
  cases e <;> exact Function.update_of_ne hne _ _

theorem Cluster.apply_deliver (c : Cluster) (msg : Message) (env : Env) :
    (c.apply (.deliver msg env)).node msg.to_ = ((c.node msg.to_).step env msg).node :=
  c.update_node_self msg.to_ _

/-- An event other than the delivery of a heartbeat, an append or a snapshot. -/
theorem Cluster.apply_grown (c : Cluster) (e : Event) (i : NodeId)
    (hmsg : ∀ msg env, e = .deliver msg env → msg.to_ = i → msg.msgType ≠ .heartbeat ∧
      msg.msgType ≠ .appendEntries ∧ msg.msgType ≠ .installSnapshot) :
    Grown (c.node i) ((c.apply e).node i) := by
  by_cases hi : i = e.node
  · subst hi
    cases e with
    | tick j env =>
      show Grown (c.node j) ((c.update j _).node j)
      rw [c.update_node_self]
      exact tick_grown env _
    | deliver msg env =>
      obtain ⟨hbeat, happend, hinstall⟩ := hmsg msg env rfl rfl
      show Grown (c.node msg.to_) ((c.apply (.deliver msg env)).node msg.to_)
      rw [c.apply_deliver]
      exact step_grown env hbeat happend hinstall
    | propose j data =>
      show Grown (c.node j) ((c.update j _).node j)
      rw [c.update_node_self]
      exact propose_grown _ data
    | readIndex j ctx =>
      show Grown (c.node j) ((c.update j _).node j)
      rw [c.update_node_self]
      exact readIndex_grown _ ctx
    | readStates j =>
      show Grown (c.node j) ((c.update j _).node j)
      rw [c.update_node_self]
      exact .same rfl rfl
    | ready j =>
      show Grown (c.node j) ((c.update j _).node j)
      rw [c.update_node_self]
      exact takeReady_grown _
  · rw [c.apply_node_ne e hi]
    exact .same rfl rfl

set_option maxRecDepth 20000

variable {S : Setup} {es : List Event}

theorem Safe.reached (hv : Cluster.Valid S (Cluster.init S) es) (k : Nat) :
    ∃ h, Safe S False (Cluster.after S es k) h := by
  obtain ⟨h, -, hs, -⟩ := (Safe.init S False).run (hv.take k) (fun hf => hf.elim)
  exact ⟨h, hs⟩

/-- The leader of a term is no receiver of what that leader sends. -/
theorem Safe.not_to_leader {strict : Prop} {c : Cluster} {h : Chronicle} {m : Message} {a : NodeId}
    {t : Nat} (hs : Safe S strict c h) (hlead : Leads c a t) (hterm : m.term = t)
    {r : Reign NodeId LogEntry} (hr : h.reign m.term = some r) (hfrom : r.leader = m.from_)
    (hto : m.to_ ≠ m.from_) : m.to_ ≠ a := by
  obtain ⟨r', hr', hleader, -⟩ := hs.reign hlead
  rw [hterm, hr'] at hr
  obtain rfl := Option.some.inj hr
  rw [← hleader, hfrom]
  exact hto

/-! ## Leader completeness -/

/-- In event `k` of the run the leader `a` of term `t` moves its commit index
over position `i`. -/
structure Commits (S : Setup) (es : List Event) (k : Nat) (a : NodeId) (t i : Nat) : Prop where
  during : k < es.length
  before : Leads (Cluster.after S es k) a t
  after : Leads (Cluster.after S es (k + 1)) a t
  up : ((Cluster.after S es k).node a).commitIndex < i
  covers : i ≤ ((Cluster.after S es (k + 1)).node a).commitIndex

/-- A leader moves its commit index by counting only. -/
theorem Commits.counted {k i t : Nat} {a : NodeId} (hv : Cluster.Valid S (Cluster.init S) es)
    (hc : Commits S es k a t i) :
    Counted ((Cluster.after S es k).node a) ((Cluster.after S es (k + 1)).node a) := by
  obtain ⟨h, hs⟩ := Safe.reached hv k
  have hen := hv.enabled hc.during
  have hstate := hc.after.1
  have hup := hc.up
  have hcovers := hc.covers
  rw [Cluster.after_succ hc.during] at hstate hcovers ⊢
  have hk := hc.during
  have hgrown := (Cluster.after S es k).apply_grown es[k] a ?_
  · rcases hgrown.commit with hsame | hcount
    · omega
    · exact hcount
  -- No heartbeat and no append of its own term moves a leader's commit index.
  intro msg env he hto
  rw [he] at hen hstate hcovers
  subst hto
  rw [Cluster.apply_deliver] at hstate hcovers
  have hfaith := hs.logs.faithful msg hen.1
  have hterm := hc.before.2
  refine ⟨fun htype => ?_, fun htype => ?_, hfaith.install⟩
  · have hle := step_leader env (Or.inl htype) hstate
    have hcommit := (step_heartbeat (n := (Cluster.after S es k).node msg.to_) env htype).2
    rw [hcommit] at hcovers
    split at hcovers
    · rename_i hge
      rcases hfaith.heartbeat htype with hz | ⟨r, hr, hfrom, hne⟩
      · omega
      · exact hs.not_to_leader hc.before (by omega) hr hfrom hne rfl
    · omega
  · have hle := step_leader env (Or.inr htype) hstate
    obtain ⟨r, hr, hfrom, -, hne, -⟩ := hfaith.append htype
    by_cases hacc : ((Cluster.after S es k).node msg.to_).Accepts msg
    · have hge := hacc.1
      exact hs.not_to_leader hc.before (by omega) hr hfrom hne rfl
    · have hcommit := (step_append_refused env htype hacc).2
      rw [hcommit] at hcovers
      omega

/-- What a leader counted is committed in the sense of the chronicle. -/
theorem Commits.committed {k i t : Nat} {a : NodeId} {h : Chronicle}
    (hv : Cluster.Valid S (Cluster.init S) es) (hc : Commits S es k a t i)
    (hs : Safe S True (Cluster.after S es (k + 1)) h) :
    ∃ r c, Committed S (Cluster.after S es (k + 1)).view h t r c ∧ i ≤ c ∧
      r.log = ((Cluster.after S es (k + 1)).node a).log := by
  have hcount := hc.counted hv
  have hup := hcount.up
  have hquorum := hcount.quorum
  obtain ⟨r, hcom, hlog⟩ := committed_of_quorum (hs.durable trivial) hs.election hs.logs rfl
    (hs.wired a) hcount.state (by omega) hcount.own
  rw [hc.after.2, hquorum] at hcom
  exact ⟨r, _, hcom, hc.covers, hlog⟩

/-- Every leader of a later term, anywhere in the run, holds what a leader committed. -/
def LeaderCompleteness (S : Setup) (es : List Event) : Prop :=
  ∀ k a t i, Commits S es k a t i → ∀ j b u, t < u → Leads (Cluster.after S es j) b u →
    ∃ e, ((Cluster.after S es (k + 1)).node a).log[i - 1]? = some e ∧
      ((Cluster.after S es j).node b).log[i - 1]? = some e

theorem getElem?_of_take_isPrefix {l l' : List LogEntry} {c i : Nat} (hpre : l.take c <+: l')
    (hpos : 0 < i) (hic : i ≤ c) (hc : c ≤ l.length) :
    ∃ e, l[i - 1]? = some e ∧ l'[i - 1]? = some e := by
  have hget : l[i - 1]? = some l[i - 1] := List.getElem?_eq_getElem (by omega)
  refine ⟨l[i - 1], hget, ?_⟩
  obtain ⟨tail, rfl⟩ := hpre
  rw [List.getElem?_append_left (by rw [List.length_take]; omega),
    List.getElem?_take_of_lt (by omega)]
  exact hget

/-- Leader completeness, for every run whose votes go to up-to-date candidates and
whose appends keep the tails they do not contradict.  The code checks neither:
the term it compares with a voter's last one is that of the campaign. -/
theorem leader_completeness (S : Setup) (es : List Event)
    (hv : Cluster.Valid S (Cluster.init S) es) (hg : GuardedRun (Cluster.init S) es) :
    LeaderCompleteness S es := by
  intro k a t i hc j b u htu hb
  have hpos : 0 < i := Nat.lt_of_le_of_lt (Nat.zero_le _) hc.up
  rcases Nat.le_total j (k + 1) with hjk | hkj
  · -- The later term was won before the commit; its reign is in the chronicle of the commit.
    obtain ⟨h, h', hx, hs, hs', -⟩ := Safe.two True hv (fun _ => hg) hjk
    obtain ⟨r, c, hcom, hic, hlog⟩ := hc.committed hv hs'
    obtain ⟨s, hsu, -, hblog⟩ := hs.reign hb
    obtain ⟨s', hsu', -, hbase, -⟩ := hx.reign u s hsu
    have hpre := hcom.base (hs'.durable trivial) hs'.logs htu hsu'
    rw [hbase, hlog] at hpre
    rw [hblog]
    exact getElem?_of_take_isPrefix (hpre.trans s.base_isPrefix) hpos hic (hlog ▸ hcom.le)
  · obtain ⟨h, h', hx, hs, hs', hnet⟩ := Safe.two True hv (fun _ => hg) hkj
    obtain ⟨r, c, hcom, hic, hlog⟩ := hc.committed hv hs
    obtain ⟨r', hcom', htake⟩ : ∃ r', Committed S (Cluster.after S es j).view h' t r' c ∧
        r'.log.take c = r.log.take c := hcom.mono hx hnet
    obtain ⟨s, hsu, -, hblog⟩ := hs'.reign hb
    have hpre := hcom'.base (hs'.durable trivial) hs'.logs htu hsu
    rw [htake, hlog] at hpre
    rw [hblog]
    exact getElem?_of_take_isPrefix (hpre.trans s.base_isPrefix) hpos hic (hlog ▸ hcom.le)

/-! Two runs of `trio`.  Node 1 leads term 1, brings its whole log to node 2 and
commits its no-op.  Then node 2 succeeds it, or node 3 does, whose log lacks the
committed entry. -/

def root : LogEntry := LogEntry.new 1 0 []

def noop : LogEntry := LogEntry.new 2 1 []

/-- An append of the leader 1 of term 1 to node 2. -/
def appendOf (index : Nat) (entries : List LogEntry) : Message :=
  { msgType := .appendEntries, from_ := 1, to_ := 2, term := 1, index, entries }

def answerOf (index : Nat) (reject : Bool) : Message :=
  { msgType := .appendResponse, from_ := 2, to_ := 1, term := 1, index, reject }

/-- Node 2 refuses the no-op alone, so the leader goes back to the start of its log. -/
def catchingUp : List Event :=
  electing late 1 2 1 1 ++
    [.deliver (appendOf 1 [noop]) late, .deliver (answerOf 0 true) late, .ready 1]

def committing : List Event :=
  catchingUp ++ [.deliver (appendOf 0 [root, noop]) late, .deliver (answerOf 2 false) late]

def succeeding : List Event := committing ++ electing later 2 3 2 2

def usurping : List Event := committing ++ .tick 3 late :: electing later 3 2 2 1

theorem leader_completeness_succeeding :
    Commits trio succeeding 7 1 1 2 ∧ Leads (Cluster.after trio succeeding 11) 2 2 ∧
      LeaderCompleteness trio succeeding := by
  have hc : Commits trio succeeding 7 1 1 2 :=
    ⟨by decide, by decide, by decide, by decide, by decide⟩
  have hv : Cluster.Valid trio (Cluster.init trio) succeeding := by decide
  have hg : GuardedRun (Cluster.init trio) succeeding := by decide
  exact ⟨hc, by decide, leader_completeness trio succeeding hv hg⟩

/-- Node 2 votes for node 3, whose term is new and whose log is short. -/
theorem not_leader_completeness_usurping :
    Cluster.Valid trio (Cluster.init trio) usurping ∧ ¬ LeaderCompleteness trio usurping := by
  refine ⟨by decide, fun hall => ?_⟩
  have hc : Commits trio usurping 7 1 1 2 :=
    ⟨by decide, by decide, by decide, by decide, by decide⟩
  obtain ⟨e, h₁, h₃⟩ := hall 7 1 1 2 hc 12 3 2 (by decide) (by decide)
  have hdiff : ((Cluster.after trio usurping 8).node 1).log[1]? ≠
      ((Cluster.after trio usurping 12).node 3).log[1]? := by decide
  exact hdiff (h₁.trans h₃.symm)

/-! ## Committed entries at one node -/

def KeepsCommitted (n n' : RaftNode) : Prop :=
  ∀ k e, k < n.commitIndex → n.log[k]? = some e → n'.log[k]? = some e

/-- An append that is accepted brings, or starts behind, the last entry that is
known to be committed. -/
def SparesCommitted (n : RaftNode) (msg : Message) : Prop :=
  msg.msgType = .appendEntries → n.Accepts msg →
    min n.commitIndex n.lastIndex ≤ msg.index ∨
      ∃ e ∈ msg.entries[min n.commitIndex n.lastIndex - msg.index - 1]?,
        e.term = n.logTerm (min n.commitIndex n.lastIndex)

theorem keepsCommitted_iff {n n' : RaftNode} :
    KeepsCommitted n n' ↔ n.log.take (min n.commitIndex n.lastIndex) <+: n'.log := by
  unfold RaftNode.lastIndex
  constructor
  · intro hk
    rw [List.prefix_iff_getElem?]
    intro k hlt
    rw [List.length_take] at hlt
    rw [List.getElem_take]
    exact hk k _ (by omega) (List.getElem?_eq_getElem (by omega))
  · rintro ⟨tail, htail⟩ k e hk hget
    have hlt := (List.getElem?_eq_some_iff.mp hget).1
    rw [← htail, List.getElem?_append_left (by rw [List.length_take]; omega),
      List.getElem?_take_of_lt (by omega)]
    exact hget

theorem keepsCommitted_of_isPrefix {n n' : RaftNode} (hpre : n.log <+: n'.log) :
    KeepsCommitted n n' :=
  keepsCommitted_iff.mpr ((List.take_prefix _ _).trans hpre)

/-- Behind an accepted append the log is the leader's up to the last new entry,
so what was committed survives when the leader's entry there is the node's own. -/
theorem Safe.append_keeps {strict : Prop} {c : Cluster} {h : Chronicle} {msg : Message}
    (hs : Safe S strict c h) (hmem : msg ∈ c.net) (htype : msg.msgType = .appendEntries)
    (hacc : (c.node msg.to_).Accepts msg) {k : Nat} (hk : k ≤ (c.node msg.to_).log.length) :
    (c.node msg.to_).log.take k <+: appendToLog (c.node msg.to_).log msg ↔
      k ≤ msg.index ∨ ∃ e ∈ msg.entries[k - msg.index - 1]?,
        e.term = termAt (c.node msg.to_).log k := by
  have hprev : PrevMatches (c.node msg.to_).log msg := prevMatches_iff.mp hacc.2
  have hl := (hs.logs.recorded msg.to_).founded
  obtain ⟨r, hr, -, hpos, -, heq, hpre, -, hindex⟩ :=
    hs.logs.appendToLog_eq (i := msg.to_) hmem htype hprev
  have hl' := (hs.logs.sound.log_founded hr).of_isPrefix hpre
  change Founded LogEntry.term h.reign (c.node msg.to_).log at hl
  change appendToLog (c.node msg.to_).log msg = _ at heq
  change Founded LogEntry.term h.reign (appendToLog (c.node msg.to_).log msg) at hl'
  have hshift : ∀ m, msg.index < m →
      (appendToLog (c.node msg.to_).log msg)[m - 1]? = msg.entries[m - msg.index - 1]? := by
    intro m hm
    rw [heq, List.getElem?_append_right (by rw [List.length_take]; omega), List.length_take,
      Nat.min_eq_left hindex]
    congr 1
    omega
  constructor
  · intro hkeep
    by_cases hle : k ≤ msg.index
    · exact Or.inl hle
    · right
      obtain ⟨a, hget, hterm⟩ := termAt_of_pos (k := k) (by omega) hk
      refine ⟨a, ?_, hterm.symm⟩
      rw [← hshift k (by omega)]
      obtain ⟨tail, htail⟩ := hkeep
      show _ = some a
      rw [← htail, List.getElem?_append_left (by rw [List.length_take]; omega),
        List.getElem?_take_of_lt (by omega)]
      exact hget
  · intro hcond
    by_cases hle : k ≤ msg.index
    · obtain ⟨-, htake⟩ := hprev.take_eq hl hr hpos
      have hsub : (c.node msg.to_).log.take k <+: (c.node msg.to_).log.take msg.index :=
        List.take_isPrefix_take.mpr (Or.inl hle)
      refine hsub.trans ?_
      rw [htake, heq]
      exact List.prefix_append _ _
    · rcases hcond with hle' | ⟨e, he, hterm⟩
      · exact absurd hle' hle
      · obtain ⟨a, hget, hterma⟩ := termAt_of_pos (k := k) (by omega) hk
        have hget' : (appendToLog (c.node msg.to_).log msg)[k - 1]? = some e := by
          rw [hshift k (by omega)]
          exact he
        have hsame := hl.take_eq hl' hget hget' (hterma.symm.trans hterm.symm)
        rw [Nat.sub_add_cancel (by omega)] at hsame
        rw [hsame]
        exact List.take_prefix _ _

/-- When a delivery keeps committed entries: exactly when an append it accepts
spares them.  An older, shorter append of the same leader does not. -/
theorem committed_kept_iff (S : Setup) (es : List Event)
    (hv : Cluster.Valid S (Cluster.init S) es) (msg : Message)
    (hmem : msg ∈ (Cluster.run (Cluster.init S) es).net) (env : Env) :
    KeepsCommitted ((Cluster.run (Cluster.init S) es).node msg.to_)
        (((Cluster.run (Cluster.init S) es).node msg.to_).step env msg).node ↔
      SparesCommitted ((Cluster.run (Cluster.init S) es).node msg.to_) msg := by
  obtain ⟨h, -, hs, -⟩ := (Safe.init S False).run hv (fun hf => hf.elim)
  have hinstall := (hs.logs.faithful msg hmem).install
  by_cases htype : msg.msgType = .appendEntries
  · by_cases hacc : ((Cluster.run (Cluster.init S) es).node msg.to_).Accepts msg
    · have hlog := (step_append env htype hacc).1
      have hkeeps := hs.append_keeps hmem htype hacc
        (k := min ((Cluster.run (Cluster.init S) es).node msg.to_).commitIndex
          ((Cluster.run (Cluster.init S) es).node msg.to_).lastIndex) (Nat.min_le_right _ _)
      rw [keepsCommitted_iff, hlog, hkeeps]
      constructor
      · exact fun hk _ _ => hk
      · exact fun hk => hk htype hacc
    · have hlog := (step_append_refused env htype hacc).1
      constructor
      · exact fun _ _ hacc' => absurd hacc' hacc
      · exact fun _ => keepsCommitted_of_isPrefix (by rw [hlog])
  · constructor
    · exact fun _ htype' => absurd htype' htype
    · intro _
      by_cases hbeat : msg.msgType = .heartbeat
      · exact keepsCommitted_of_isPrefix (by rw [(step_heartbeat env hbeat).1])
      · exact keepsCommitted_of_isPrefix (step_grown env hbeat htype hinstall).log

/-- Node 2 has all three entries of the leader and learns that they are committed. -/
def overtaking : List Event :=
  catchingUp ++
    [.propose 1 [7], .ready 1,
     .deliver (appendOf 0 [root, noop, LogEntry.new 3 1 [7]]) late,
     .deliver (answerOf 3 false) late, .ready 1,
     .deliver { msgType := .heartbeat, from_ := 1, to_ := 2, term := 1, commit := 3 } late]

/-- The append with all three arrives once more. -/
theorem committed_kept_again :
    ((Cluster.run (Cluster.init trio) overtaking).node 2).commitIndex = 3 ∧
      KeepsCommitted ((Cluster.run (Cluster.init trio) overtaking).node 2)
        (((Cluster.run (Cluster.init trio) overtaking).node 2).step late
          (appendOf 0 [root, noop, LogEntry.new 3 1 [7]])).node :=
  ⟨by decide, (committed_kept_iff trio overtaking (by decide)
    (appendOf 0 [root, noop, LogEntry.new 3 1 [7]]) (by decide) late).mpr
    fun _ _ => Or.inr ⟨LogEntry.new 3 1 [7], by decide, by decide⟩⟩

/-- The append that was sent before the proposal arrives last, and cuts it off. -/
theorem not_committed_kept_overtaking :
    Cluster.Valid trio (Cluster.init trio) overtaking ∧
      appendOf 0 [root, noop] ∈ (Cluster.run (Cluster.init trio) overtaking).net ∧
      ¬ KeepsCommitted ((Cluster.run (Cluster.init trio) overtaking).node 2)
        (((Cluster.run (Cluster.init trio) overtaking).node 2).step late
          (appendOf 0 [root, noop])).node := by
  refine ⟨by decide, by decide, fun hkeep => ?_⟩
  have hlost := hkeep 2 (LogEntry.new 3 1 [7]) (by decide) (by decide)
  exact absurd hlost (by decide)

/-! ## Bounds of the commit index -/

/-- Over the run, no commit index falls or passes the end of its log. -/
structure CommitSound (S : Setup) (es : List Event) : Prop where
  bounded : ∀ k i, ((Cluster.after S es k).node i).commitIndex ≤
    ((Cluster.after S es k).node i).lastIndex
  monotone : ∀ k i, ((Cluster.after S es k).node i).commitIndex ≤
    ((Cluster.after S es (k + 1)).node i).commitIndex

/-- A heartbeat that is obeyed names a commit index within the log; an append that
is accepted ends no earlier than the commit index. -/
def CommitInRange (c : Cluster) : Event → Prop
  | .deliver msg _ =>
    (msg.msgType = .heartbeat → (c.node msg.to_).term ≤ msg.term →
      msg.commit ≤ (c.node msg.to_).lastIndex) ∧
    (msg.msgType = .appendEntries → (c.node msg.to_).Accepts msg →
      (c.node msg.to_).commitIndex ≤ lastNewIndex msg)
  | _ => True

/-- Log and commit index of one node, before and after. -/
def CommitStep (n n' : RaftNode) : Prop :=
  n.commitIndex ≤ n'.commitIndex ∧ n'.commitIndex ≤ n'.lastIndex

theorem RaftNode.Grown.commitStep {n n' : RaftNode} (hgrown : Grown n n')
    (hpos : n.state = .leader → 0 < n.term) (hle : n.commitIndex ≤ n.lastIndex) :
    CommitStep n n' := by
  have hlen := hgrown.log.length_le
  unfold CommitStep
  unfold RaftNode.lastIndex at hle ⊢
  rcases hgrown.commit with hsame | hcount
  · omega
  · have hup := hcount.up
    have hterm := hcount.term
    have hown := hcount.own
    have hquorum := hcount.quorum
    have hpos' := hpos hcount.was
    have hbound := (termAt_pos (by omega) hown).2
    omega

/-- The last new index of an append on the wire is the length of the log it leaves. -/
theorem Safe.lastNewIndex_eq {strict : Prop} {c : Cluster} {h : Chronicle} {msg : Message}
    (hs : Safe S strict c h) (hmem : msg ∈ c.net) (htype : msg.msgType = .appendEntries)
    (hacc : (c.node msg.to_).Accepts msg) :
    lastNewIndex msg = (appendToLog (c.node msg.to_).log msg).length := by
  obtain ⟨r, hr, -, -, -, heq, hpre, hne, -⟩ :=
    hs.logs.appendToLog_eq (i := msg.to_) hmem htype (prevMatches_iff.mp hacc.2)
  have hidx := (hs.logs.indexed _ r hr).of_isPrefix hpre
  change appendToLog (c.node msg.to_).log msg = _ at heq
  change Indexed (appendToLog (c.node msg.to_).log msg) at hidx
  obtain ⟨last, hlast⟩ : ∃ last, msg.entries.getLast? = some last :=
    ⟨_, List.getLast?_eq_some_getLast hne⟩
  have hend : (appendToLog (c.node msg.to_).log msg).getLast? = some last := by
    rw [heq, List.getLast?_append, hlast]
    rfl
  have hpos : 0 < (appendToLog (c.node msg.to_).log msg).length := by
    have := List.length_pos_iff.mpr hne
    rw [heq, List.length_append]
    omega
  rw [List.getLast?_eq_getElem?] at hend
  have hindex := hidx _ _ hend
  rw [lastNewIndex, hlast]
  show last.index = _
  omega

/-- A delivery, seen at the node it goes to. -/
theorem Safe.deliver_commitStep_iff {strict : Prop} {c : Cluster} {h : Chronicle} {msg : Message}
    (hs : Safe S strict c h) (hmem : msg ∈ c.net) (env : Env)
    (hpos : (c.node msg.to_).state = .leader → 0 < (c.node msg.to_).term)
    (hle : (c.node msg.to_).commitIndex ≤ (c.node msg.to_).lastIndex) :
    CommitStep (c.node msg.to_) ((c.node msg.to_).step env msg).node ↔
      CommitInRange c (.deliver msg env) := by
  have hinstall := (hs.logs.faithful msg hmem).install
  show _ ↔ (_ ∧ _)
  unfold CommitStep RaftNode.lastIndex at *
  by_cases hbeat : msg.msgType = .heartbeat
  · obtain ⟨hlog, hcommit⟩ := step_heartbeat (n := c.node msg.to_) env hbeat
    rw [hlog, hcommit]
    constructor
    · intro hstep
      refine ⟨fun _ hterm => ?_, fun happend => absurd (hbeat.symm.trans happend) (by simp)⟩
      rw [if_pos hterm] at hstep
      omega
    · intro hrange
      by_cases hterm : (c.node msg.to_).term ≤ msg.term
      · have hrange' := hrange.1 hbeat hterm
        rw [if_pos hterm]
        omega
      · rw [if_neg hterm]
        omega
  · by_cases happend : msg.msgType = .appendEntries
    · by_cases hacc : (c.node msg.to_).Accepts msg
      · obtain ⟨hlog, hcommit⟩ := step_append env happend hacc
        have hlast := hs.lastNewIndex_eq hmem happend hacc
        rw [hlog, hcommit, ← hlast]
        constructor
        · intro hstep
          refine ⟨fun hbeat' => absurd hbeat' hbeat, fun _ _ => ?_⟩
          split at hstep <;> omega
        · intro hrange
          have hrange' := hrange.2 happend hacc
          split <;> omega
      · obtain ⟨hlog, hcommit⟩ := step_append_refused env happend hacc
        rw [hlog, hcommit]
        constructor
        · exact fun _ => ⟨fun hbeat' => absurd hbeat' hbeat, fun _ hacc' => absurd hacc' hacc⟩
        · exact fun _ => ⟨Nat.le_refl _, hle⟩
    · have hstep := (step_grown (n := c.node msg.to_) env hbeat happend hinstall).commitStep
        hpos hle
      constructor
      · exact fun _ => ⟨fun hbeat' => absurd hbeat' hbeat, fun happend' =>
          absurd happend' happend⟩
      · exact fun _ => hstep

theorem Safe.commitStep_iff {strict : Prop} {c : Cluster} {h : Chronicle} {e : Event}
    (hs : Safe S strict c h) (hen : Cluster.Enabled S c e)
    (hle : ∀ i, (c.node i).commitIndex ≤ (c.node i).lastIndex) :
    (∀ i, CommitStep (c.node i) ((c.apply e).node i)) ↔ CommitInRange c e := by
  have hpos : ∀ i, (c.node i).state = .leader → 0 < (c.node i).term :=
    fun i hlead => ((hs.election.standing i).candidacy (Or.inr hlead)).2.2
  have hgrown : ∀ i, (∀ msg env, e = .deliver msg env → msg.to_ = i → msg.msgType ≠ .heartbeat ∧
      msg.msgType ≠ .appendEntries ∧ msg.msgType ≠ .installSnapshot) →
      CommitStep (c.node i) ((c.apply e).node i) :=
    fun i hmsg => (c.apply_grown e i hmsg).commitStep (hpos i) (hle i)
  cases e with
  | deliver msg env =>
    rw [← hs.deliver_commitStep_iff hen.1 env (hpos msg.to_) (hle msg.to_), ← c.apply_deliver]
    constructor
    · exact fun hstep => hstep msg.to_
    · intro hstep i
      by_cases hi : i = msg.to_
      · rw [hi]
        exact hstep
      · rw [c.apply_node_ne (.deliver msg env) hi]
        exact ⟨Nat.le_refl _, hle i⟩
  | tick i env => exact ⟨fun _ => trivial, fun _ j => hgrown j (by simp)⟩
  | propose i data => exact ⟨fun _ => trivial, fun _ j => hgrown j (by simp)⟩
  | readIndex i ctx => exact ⟨fun _ => trivial, fun _ j => hgrown j (by simp)⟩
  | readStates i => exact ⟨fun _ => trivial, fun _ j => hgrown j (by simp)⟩
  | ready i => exact ⟨fun _ => trivial, fun _ j => hgrown j (by simp)⟩

theorem Cluster.after_of_le {k : Nat} (hk : es.length ≤ k) :
    Cluster.after S es (k + 1) = Cluster.after S es k := by
  rw [Cluster.after, Cluster.after, List.take_of_length_le (by omega),
    List.take_of_length_le hk]

/-- When the commit index behaves over a run: exactly when every heartbeat that is
obeyed and every append that is accepted leaves it in range. -/
theorem commit_sound_iff (S : Setup) (es : List Event)
    (hv : Cluster.Valid S (Cluster.init S) es) :
    CommitSound S es ↔
      ∀ k (hk : k < es.length), CommitInRange (Cluster.after S es k) es[k] := by
  constructor
  · intro hsound k hk
    obtain ⟨h, hs⟩ := Safe.reached hv k
    rw [← hs.commitStep_iff (hv.enabled hk) (hsound.bounded k), ← Cluster.after_succ hk]
    exact fun i => ⟨hsound.monotone k i, hsound.bounded (k + 1) i⟩
  · intro hrange
    have hstep : ∀ k, (∀ i, ((Cluster.after S es k).node i).commitIndex ≤
        ((Cluster.after S es k).node i).lastIndex) → ∀ i,
        CommitStep ((Cluster.after S es k).node i) ((Cluster.after S es (k + 1)).node i) := by
      intro k hle
      rcases Nat.lt_or_ge k es.length with hk | hk
      · obtain ⟨h, hs⟩ := Safe.reached hv k
        rw [Cluster.after_succ hk, hs.commitStep_iff (hv.enabled hk) hle]
        exact hrange k hk
      · rw [Cluster.after_of_le hk]
        exact fun i => ⟨Nat.le_refl _, hle i⟩
    have hbounded : ∀ k i, ((Cluster.after S es k).node i).commitIndex ≤
        ((Cluster.after S es k).node i).lastIndex := by
      intro k
      induction k with
      | zero => exact fun i => Nat.zero_le _
      | succ k ih => exact fun i => (hstep k ih i).2
    exact ⟨hbounded, fun k i => (hstep k (hbounded k) i).1⟩

theorem commit_sound_catchingUp :
    CommitSound trio catchingUp ↔ ∀ k (hk : k < catchingUp.length),
      CommitInRange (Cluster.after trio catchingUp k) catchingUp[k] :=
  commit_sound_iff trio catchingUp (by decide)

/-- The late append leaves two entries under a commit index of three. -/
theorem not_commit_sound_overtaking :
    Cluster.Valid trio (Cluster.init trio)
        (overtaking ++ [.deliver (appendOf 0 [root, noop]) late]) ∧
      ¬ CommitSound trio (overtaking ++ [.deliver (appendOf 0 [root, noop]) late]) := by
  refine ⟨by decide, fun hsound => ?_⟩
  have hbound := hsound.bounded 13 2
  exact absurd hbound (by decide)

end Raft
end RTDB
