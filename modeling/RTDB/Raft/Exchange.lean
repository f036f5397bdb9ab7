import RTDB.Raft.Progress
import Mathlib.Data.Nat.Find

/-!
# A leader and one peer

Ready processing on a leader, the append it has for one peer, and the peer's answer:
what one such round does to the two of them.  A rejection moves the next index alone.
An acceptance leaves the peer with the leader's log up to the end of the batch.
-/

namespace RTDB
namespace Raft

/-! ## Batches -/

/-- What ready processing counts for entries: their data, and 32 bytes for each. -/
def wireSize : List LogEntry → Nat
  | [] => 0
  | entry :: rest => entry.data.length + 32 + wireSize rest

/-- How many entries go in one message: as many as fit, and one in any case. -/
def fitting (maxSize : Nat) (l : List LogEntry) : Nat :=
  max 1 (Nat.findGreatest (fun m => wireSize (l.take m) ≤ maxSize) l.length)

/-- Behind the first entry the loop takes the most that fit. -/
theorem takeEntries_fit (maxSize : Nat) : ∀ (l : List LogEntry) (size : Nat), size ≤ maxSize →
    size + wireSize (l.take (takeEntries (some maxSize) size false l).length) ≤ maxSize ∧
      ∀ m, (takeEntries (some maxSize) size false l).length < m → m ≤ l.length →
        maxSize < size + wireSize (l.take m) := by
  intro l
  induction l with
  | nil => exact fun size hsize => ⟨hsize, fun m hm hle => absurd hm (Nat.not_lt.mpr hle)⟩
  | cons e rest ih =>
    intro size hsize
    by_cases hover : maxSize < size + (e.data.length + 32)
    · have hnone : takeEntries (some maxSize) size false (e :: rest) = [] := by
        simp [takeEntries, hover]
      rw [hnone]
      refine ⟨hsize, fun m hm _ => ?_⟩
      obtain ⟨m, rfl⟩ := Nat.exists_eq_add_of_lt hm
      show maxSize < size + (e.data.length + 32 + wireSize (rest.take _))
      omega
    · have hmore : takeEntries (some maxSize) size false (e :: rest) =
          e :: takeEntries (some maxSize) (size + (e.data.length + 32)) false rest := by
        simp [takeEntries, hover]
      obtain ⟨hfit, hmost⟩ := ih (size + (e.data.length + 32)) (by omega)
      rw [hmore]
      refine ⟨?_, fun m hm hle => ?_⟩
      · show size + (e.data.length + 32 + wireSize (rest.take _)) ≤ maxSize
        omega
      · cases m with
        | zero => exact absurd hm (Nat.not_lt_zero _)
        | succ m =>
          have hafter := hmost m (by simpa using hm) (by simpa using hle)
          show maxSize < size + (e.data.length + 32 + wireSize (rest.take m))
          omega

theorem takeEntries_length {maxSize : Nat} {l : List LogEntry} (hl : l ≠ []) :
    (takeEntries (some maxSize) 0 true l).length = fitting maxSize l := by
  cases l with
  | nil => exact absurd rfl hl
  | cons e rest =>
    by_cases hover : maxSize < e.data.length + 32
    · have hone : takeEntries (some maxSize) 0 true (e :: rest) = [e] := by
        simp [takeEntries, hover]
      have hnone : Nat.findGreatest (fun m => wireSize ((e :: rest).take m) ≤ maxSize)
          (e :: rest).length = 0 := by
        rw [Nat.findGreatest_eq_zero_iff]
        intro m hm _
        cases m with
        | zero => omega
        | succ m =>
          show ¬ e.data.length + 32 + wireSize (rest.take m) ≤ maxSize
          omega
      rw [hone, fitting, hnone]
      rfl
    · have hmore : takeEntries (some maxSize) 0 true (e :: rest) =
          e :: takeEntries (some maxSize) (e.data.length + 32) false rest := by
        simp [takeEntries, hover]
      obtain ⟨hfit, hmost⟩ := takeEntries_fit maxSize rest (e.data.length + 32) (by omega)
      have hlen := (takeEntries_isPrefix (some maxSize) rest (e.data.length + 32) false).length_le
      have hgreatest : Nat.findGreatest (fun m => wireSize ((e :: rest).take m) ≤ maxSize)
          (e :: rest).length =
            (takeEntries (some maxSize) (e.data.length + 32) false rest).length + 1 := by
        rw [Nat.findGreatest_eq_iff]
        refine ⟨Nat.succ_le_succ hlen, fun _ => hfit, fun m hm hle => ?_⟩
        cases m with
        | zero => omega
        | succ m =>
          have hafter := hmost m (by omega) (by simpa using hle)
          show ¬ e.data.length + 32 + wireSize (rest.take m) ≤ maxSize
          omega
      rw [hmore, fitting, hgreatest, List.length_cons]
      omega

/-! ## Rounds -/

/-- The first message of a type that goes to `p`. -/
def firstTo (type : MessageType) (p : NodeId) (ms : List Message) : Option Message :=
  ms.find? fun m => m.msgType = type ∧ m.to_ = p

structure Pair where
  leader : RaftNode
  follower : RaftNode

namespace Pair

/-- Ready processing on the leader, the append it has for the follower, if it has one,
and the answer.  `clock` is what the two nodes read. -/
def exchange (clock : NodeId → Env) (s : Pair) : Pair :=
  let asked := s.leader.call .ready
  match firstTo .appendEntries s.follower.id asked.messages with
  | none => { leader := asked.node, follower := s.follower }
  | some append =>
    let answered := s.follower.step (clock s.follower.id) append
    match firstTo .appendResponse s.leader.id answered.messages with
    | none => { leader := asked.node, follower := answered.node }
    | some answer =>
      { leader := (asked.node.step (clock s.leader.id) answer).node, follower := answered.node }

def rounds (clock : Nat → NodeId → Env) (s : Pair) : Nat → Pair
  | 0 => s
  | k + 1 => (rounds clock s k).exchange (clock k)

/-- What every exchange keeps holds after every round. -/
theorem rounds_kept {Q : Pair → Prop} (hstep : ∀ clock s, Q s → Q (exchange clock s))
    (clock : Nat → NodeId → Env) {s : Pair} (hs : Q s) (k : Nat) : Q (s.rounds clock k) := by
  induction k with
  | zero => exact hs
  | succ k ih => exact hstep (clock k) _ ih

/-- After some round the follower has the leader's log. -/
def CatchesUp (clock : Nat → NodeId → Env) (s : Pair) : Prop :=
  ∃ k, (s.rounds clock k).follower.log = (s.rounds clock k).leader.log

end Pair

namespace RaftNode

variable {n : RaftNode} {msg : Message} {p : NodeId} {pr : Progress} (env : Env)

def Sends (n : RaftNode) (pr : Progress) : Prop :=
  pr.paused = false ∧ pr.nextIndex ≤ n.lastIndex

instance (n : RaftNode) (pr : Progress) : Decidable (n.Sends pr) :=
  inferInstanceAs (Decidable (_ ∧ _))

theorem mem_ready_append {m : Message} (hlead : n.state = .leader)
    (hpr : n.progress.lookup p = some pr) :
    (m ∈ (n.call .ready).messages ∧ m.msgType = .appendEntries ∧ m.to_ = p) ↔
      n.Sends pr ∧ m = n.replicate p pr := by
  have hmessages : (n.call .ready).messages = n.leaderReady.messages := by
    rw [RaftNode.call, takeReady_leader hlead]
    simp [Output.messages]
  have htype : ∀ q : NodeId, ∀ pr' : Progress, (n.replicate q pr').to_ = q ∧
      ((n.replicate q pr').msgType = .appendEntries ↔ pr'.nextIndex ≤ n.lastIndex) := by
    intro q pr'
    unfold replicate
    split
    · exact ⟨rfl, by simp; omega⟩
    · exact ⟨rfl, by simp; omega⟩
  rw [hmessages, leaderReady]
  constructor
  · rintro ⟨hm, happend, hto⟩
    obtain ⟨⟨q, pr'⟩, hmem, rfl⟩ := List.mem_map.mp hm
    obtain ⟨hentry, hopen⟩ := List.mem_filter.mp hmem
    obtain rfl : q = p := (htype q pr').1.symm.trans hto
    have hlook := AList.mem_lookup_iff.mpr hentry
    rw [hpr, Option.mem_some_iff] at hlook
    subst hlook
    exact ⟨⟨by simpa using hopen, (htype q pr).2.mp happend⟩, rfl⟩
  · rintro ⟨⟨hopen, hnext⟩, rfl⟩
    refine ⟨List.mem_map.mpr ⟨⟨p, pr⟩, List.mem_filter.mpr ⟨?_, by simp [hopen]⟩, rfl⟩,
      (htype p pr).2.mpr hnext, (htype p pr).1⟩
    exact AList.mem_lookup_iff.mp hpr

/-- The append of ready processing for one peer: none, or the one that replicates to it. -/
theorem firstTo_ready (hlead : n.state = .leader) (hpr : n.progress.lookup p = some pr) :
    firstTo .appendEntries p (n.call .ready).messages =
      if n.Sends pr then some (n.replicate p pr) else none := by
  cases hfound : firstTo .appendEntries p (n.call .ready).messages with
  | some m =>
    have hfirst : m ∈ (n.call .ready).messages ∧ m.msgType = .appendEntries ∧ m.to_ = p :=
      ⟨List.mem_of_find?_eq_some hfound, by simpa using List.find?_some hfound⟩
    obtain ⟨hsends, rfl⟩ := (mem_ready_append hlead hpr).mp hfirst
    rw [if_pos hsends]
  | none =>
    rw [if_neg]
    intro hsends
    obtain ⟨hm, hmatch⟩ := (mem_ready_append hlead hpr).mpr ⟨hsends, rfl⟩
    exact absurd hmatch (by simpa using List.find?_eq_none.mp hfound _ hm)

/-! ### The follower's answers -/

theorem step_append_handle (htype : msg.msgType = .appendEntries) :
    n.step env msg = (n.observeTerm env msg).handleAppendEntries env msg := by
  rw [step, handle.eq_def, htype]

theorem observeTerm_id : (n.observeTerm env msg).id = n.id :=
  congrArg Config.id (observeTerm_config env n msg)

theorem observeTerm_term (hle : n.term ≤ msg.term) : (n.observeTerm env msg).term = msg.term := by
  unfold observeTerm
  split
  · rfl
  · omega

theorem step_append_accepts (htype : msg.msgType = .appendEntries) (hacc : n.Accepts msg) :
    (n.step env msg).messages =
        [{ msgType := .appendResponse, from_ := n.id, to_ := msg.from_, term := msg.term,
           index := (appendToLog n.log msg).length }] ∧
      (n.step env msg).node.term = msg.term ∧ (n.step env msg).node.id = n.id := by
  have hid := @observeTerm_id n msg env
  have hterm := observeTerm_term env hacc.1
  have hprev := (@observeTerm_prevMatches n msg env).trans hacc.2
  have hlog := observeTerm_log env n msg
  rw [step_append_handle env htype, ← hid, ← hlog, ← hterm]
  unfold handleAppendEntries
  simp only
  rw [if_neg (by show ¬ msg.term < (n.observeTerm env msg).term; omega)]
  rw [if_neg]
  · exact ⟨rfl, rfl, rfl⟩
  · show ¬ (!(n.observeTerm env msg).prevMatches msg) = true
    simp [hprev]

theorem step_append_misses (htype : msg.msgType = .appendEntries) (hle : n.term ≤ msg.term)
    (hmiss : n.prevMatches msg = false) :
    (n.step env msg).messages = [(Message.new .appendResponse n.id msg.from_ msg.term).withReject
        (n.findConflictHint msg.index)] ∧
      (n.step env msg).node.term = msg.term ∧ (n.step env msg).node.id = n.id := by
  have hid := @observeTerm_id n msg env
  have hterm := observeTerm_term env hle
  have hprev := (@observeTerm_prevMatches n msg env).trans hmiss
  have hhint : n.findConflictHint msg.index = (n.observeTerm env msg).findConflictHint msg.index := by
    rw [findConflictHint, findConflictHint, logTerm, logTerm, observeTerm_log env n msg]
  rw [step_append_handle env htype, ← hid, hhint, ← hterm]
  unfold handleAppendEntries
  simp only
  rw [if_neg (by show ¬ msg.term < (n.observeTerm env msg).term; omega)]
  rw [if_pos]
  · exact ⟨rfl, rfl, rfl⟩
  · show (!(n.observeTerm env msg).prevMatches msg) = true
    simp [hprev]

theorem step_append_stale (htype : msg.msgType = .appendEntries) (hlt : msg.term < n.term) :
    (n.step env msg).messages = [(Message.new .appendResponse n.id msg.from_ n.term).withReject
        n.lastIndex] ∧
      (n.step env msg).node.term = n.term := by
  rw [step_append_handle env htype, observeTerm_same env (Nat.le_of_lt hlt)]
  unfold handleAppendEntries
  simp only
  rw [if_pos (by show msg.term < n.term; exact hlt)]
  exact ⟨rfl, rfl⟩

/-- An answer of a later term ends the lead, and leaves the log alone. -/
theorem step_answer_later (htype : msg.msgType = .appendResponse) (hlt : n.term < msg.term) :
    (n.step env msg).node.state = .follower ∧ (n.step env msg).node.log = n.log := by
  have hstate := (observeTerm_higher env hlt).2.2
  have hstep : n.step env msg = { node := n.observeTerm env msg } := by
    rw [step, handle.eq_def, htype]
    show (n.observeTerm env msg).handleAppendResponse msg = _
    rw [handleAppendResponse, if_pos (Or.inl (by rw [hstate]; decide))]
  rw [hstep]
  exact ⟨hstate, observeTerm_log env n msg⟩

/-! ### Where a batch ends -/

/-- Where the batch behind index `p` ends. -/
def batchEnd (n : RaftNode) (p : Nat) : Nat :=
  p + fitting n.config.maxMsgSize (n.log.drop p)

theorem batchEnd_eq {k : Nat} (hk : k < n.lastIndex) :
    n.batchEnd k = k + (n.getEntries (k + 1) (some n.config.maxMsgSize)).length := by
  unfold lastIndex at hk
  have hne : n.log.drop k ≠ [] := by
    rw [Ne, List.drop_eq_nil_iff]
    omega
  rw [batchEnd, ← takeEntries_length hne, getEntries, Nat.add_sub_cancel,
    if_neg (Nat.not_le.mpr hk)]

theorem batchEnd_spec {k : Nat} (hk : k < n.lastIndex) :
    n.getEntries (k + 1) (some n.config.maxMsgSize) ≠ [] ∧
      n.getEntries (k + 1) (some n.config.maxMsgSize) <+: n.log.drop k ∧
      k < n.batchEnd k ∧ n.batchEnd k ≤ n.lastIndex := by
  obtain ⟨hne, hslice⟩ := getEntries_slice (n := n) (k := k + 1) (some n.config.maxMsgSize)
    (by omega) (by omega)
  have hlen := hslice.length_le
  have hpos := List.length_pos_iff.mpr hne
  rw [List.length_drop, Nat.add_sub_cancel] at hlen
  rw [batchEnd_eq hk]
  unfold lastIndex at hk ⊢
  exact ⟨hne, hslice, by omega, by omega⟩

theorem take_batchEnd {k : Nat} (hk : k < n.lastIndex) :
    n.log.take k ++ n.getEntries (k + 1) (some n.config.maxMsgSize) = n.log.take (n.batchEnd k) := by
  have hslice := (batchEnd_spec hk).2.1
  rw [batchEnd_eq hk, List.take_add, ← List.prefix_iff_eq_take.mp hslice]

end RaftNode

open RaftNode

/-! ## The pair while the leader leads -/

/-- A follower meets an append behind index `p` of a leader of term `t`. -/
def Meets (l : List LogEntry) (t p : Nat) : Prop := p = 0 ∨ termAt l p = t

instance (l : List LogEntry) (t p : Nat) : Decidable (Meets l t p) :=
  inferInstanceAs (Decidable (_ ∨ _))

namespace Pair

/-- The leader is still the one that started, but for what it committed and applied and
for its peers, and has progress `pr` of the follower, which is in no later term. -/
structure Linked (n : RaftNode) (s : Pair) (pr : Progress) : Prop where
  state : s.leader.state = .leader
  term : s.leader.term = n.term
  log : s.leader.log = n.log
  config : s.leader.config = n.config
  progress : s.leader.progress.lookup s.follower.id = some pr
  follows : s.follower.term ≤ n.term

variable {n : RaftNode} {s : Pair} {pr : Progress} (clock : NodeId → Env)

theorem Linked.append (hs : Linked n s pr) (hsends : n.Sends pr) :
    ∃ m, firstTo .appendEntries s.follower.id (s.leader.call .ready).messages = some m ∧
      m.msgType = .appendEntries ∧ m.from_ = s.leader.id ∧ m.term = n.term ∧
      m.index = pr.nextIndex - 1 ∧
      m.entries = n.getEntries pr.nextIndex (some n.config.maxMsgSize) := by
  have hsends' : s.leader.Sends pr := by
    rw [Sends, lastIndex, hs.log]
    exact hsends
  have hnext : ¬ pr.nextIndex > s.leader.lastIndex := Nat.not_lt.mpr hsends'.2
  rw [firstTo_ready hs.state hs.progress, if_pos hsends']
  refine ⟨_, rfl, ?_⟩
  rw [replicate, if_neg hnext]
  refine ⟨rfl, rfl, hs.term, rfl, ?_⟩
  show s.leader.getEntries pr.nextIndex (some s.leader.config.maxMsgSize) = _
  rw [getEntries, getEntries, hs.log, hs.config]

/-- No append for the follower: the round changes nothing of the pair. -/
theorem Linked.quiet (hs : Linked n s pr) (hsilent : ¬ n.Sends pr) :
    Linked n (s.exchange clock) pr ∧ (s.exchange clock).follower = s.follower := by
  have hsilent' : ¬ s.leader.Sends pr := by
    rw [Sends, lastIndex, hs.log]
    exact hsilent
  have hround : s.exchange clock = { leader := s.leader.markApplied, follower := s.follower } := by
    rw [exchange]
    simp only
    rw [firstTo_ready hs.state hs.progress, if_neg hsilent', RaftNode.call,
      takeReady_leader hs.state]
  rw [hround]
  exact ⟨⟨hs.state, hs.term, hs.log, hs.config, hs.progress, hs.follows⟩, rfl⟩

/-- What the answer of the follower does to the pair. -/
theorem Linked.answered (hs : Linked n s pr) {append answer : Message}
    (happend : firstTo .appendEntries s.follower.id (s.leader.call .ready).messages = some append)
    (hanswer : (s.follower.step (clock s.follower.id) append).messages = [answer])
    (htype : answer.msgType = .appendResponse) (hto : answer.to_ = s.leader.id)
    (hfrom : answer.from_ = s.follower.id) (hterm : answer.term = n.term)
    (hid : (s.follower.step (clock s.follower.id) append).node.id = s.follower.id)
    (hfollows : (s.follower.step (clock s.follower.id) append).node.term ≤ n.term) :
    Linked n (s.exchange clock)
        (if answer.reject then backOff pr answer.rejectHint else pr.becomeAccept answer.index) ∧
      (s.exchange clock).follower = (s.follower.step (clock s.follower.id) append).node := by
  have hfirst : firstTo .appendResponse s.leader.id [answer] = some answer := by
    simp [firstTo, htype, hto]
  have hround : s.exchange clock =
      { leader := (s.leader.markApplied.step (clock s.leader.id) answer).node
        follower := (s.follower.step (clock s.follower.id) append).node } := by
    rw [exchange]
    simp only
    rw [happend]
    simp only
    rw [hanswer, hfirst, RaftNode.call, takeReady_leader hs.state]
  have hpr : s.leader.markApplied.progress.lookup answer.from_ = some pr := by
    rw [hfrom]
    exact hs.progress
  obtain ⟨hcore, hconfig⟩ := step_answer (n := s.leader.markApplied) (clock s.leader.id) hs.state
    htype (hterm.trans hs.term.symm) hpr
  rw [hround]
  refine ⟨⟨(congrArg Core.state hcore).trans hs.state, (congrArg Core.term hcore).trans hs.term,
    (congrArg Core.log hcore).trans hs.log, hconfig.trans hs.config, ?_, hfollows⟩, rfl⟩
  show (s.leader.markApplied.step _ answer).node.core.progress.lookup
    (s.follower.step _ append).node.id = _
  rw [hcore, hid, ← hfrom]
  exact AList.lookup_insert _

/-- The follower does not meet the append: the leader goes back, by the hint. -/
theorem Linked.refused (hs : Linked n s pr) (hsends : n.Sends pr)
    (hmiss : ¬ Meets s.follower.log n.term (pr.nextIndex - 1)) :
    Linked n (s.exchange clock) (backOff pr (s.follower.findConflictHint (pr.nextIndex - 1))) ∧
      (s.exchange clock).follower.log = s.follower.log := by
  obtain ⟨append, happend, htype, hfrom, hterm, hindex, -⟩ := hs.append hsends
  have hprev : s.follower.prevMatches append = false := by
    rw [← Bool.not_eq_true, prevMatches_iff, PrevMatches, hindex, hterm]
    exact hmiss
  have hle : s.follower.term ≤ append.term := by
    rw [hterm]
    exact hs.follows
  obtain ⟨hanswer, hterm', hid⟩ := step_append_misses (clock s.follower.id) htype hle hprev
  have hround := hs.answered clock happend hanswer rfl hfrom rfl hterm hid
    (Nat.le_of_eq (hterm'.trans hterm))
  rw [hindex] at hround
  refine ⟨hround.1, ?_⟩
  rw [hround.2]
  refine (step_append_refused _ htype ?_).1
  rw [Accepts, hprev]
  simp

/-- The follower meets the append, with a log that is the leader's so far: it has the
leader's log up to the end of the batch afterwards, and says so. -/
theorem Linked.accepted (hs : Linked n s pr) (hsends : n.Sends pr) (hnext : 0 < pr.nextIndex)
    (hindexed : Indexed n.log) (hmeets : Meets s.follower.log n.term (pr.nextIndex - 1))
    (hlen : pr.nextIndex - 1 ≤ s.follower.log.length)
    (htake : s.follower.log.take (pr.nextIndex - 1) = n.log.take (pr.nextIndex - 1)) :
    Linked n (s.exchange clock) (pr.becomeAccept (n.batchEnd (pr.nextIndex - 1))) ∧
      (s.exchange clock).follower.log = n.log.take (n.batchEnd (pr.nextIndex - 1)) := by
  obtain ⟨append, happend, htype, hfrom, hterm, hindex, hentries⟩ := hs.append hsends
  have hacc : s.follower.Accepts append := by
    refine ⟨by rw [hterm]; exact hs.follows, ?_⟩
    rw [prevMatches_iff, PrevMatches, hindex, hterm]
    exact hmeets
  have hlt : pr.nextIndex - 1 < n.lastIndex := by
    have hle := hsends.2
    omega
  obtain ⟨hne, hslice, -, hend⟩ := batchEnd_spec hlt
  have hjoin := take_batchEnd hlt
  rw [show pr.nextIndex - 1 + 1 = pr.nextIndex by omega] at hne hslice hjoin
  have hlog : appendToLog s.follower.log append = n.log.take (n.batchEnd (pr.nextIndex - 1)) := by
    rw [← hjoin, ← hentries, ← hindex]
    refine appendToLog_of_take hindexed ?_ ?_ ?_ ?_
    · rw [hentries]
      exact hne
    · rw [hentries, hindex]
      exact hslice
    · rw [hindex]
      exact hlen
    · rw [hindex]
      exact htake
  obtain ⟨hanswer, hterm', hid⟩ := step_append_accepts (clock s.follower.id) htype hacc
  have hround := hs.answered clock happend hanswer rfl hfrom rfl hterm hid
    (Nat.le_of_eq (hterm'.trans hterm))
  have hreached : (appendToLog s.follower.log append).length = n.batchEnd (pr.nextIndex - 1) := by
    rw [hlog, List.length_take]
    exact Nat.min_eq_left hend
  rw [hreached] at hround
  refine ⟨hround.1, ?_⟩
  rw [hround.2, (step_append _ htype hacc).1, hlog]

end Pair

end Raft
end RTDB
