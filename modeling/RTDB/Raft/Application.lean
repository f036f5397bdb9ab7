import RTDB.Raft.Commit

/-!
# What a leader hands over for application

`ready` hands over everything behind the last applied entry and then moves that
mark to the commit index.  Entries past the commit index go out with the rest,
and go out again once they are committed.
-/

namespace RTDB
namespace Raft

open RaftNode

inductive NodeCall where
  | propose (data : List UInt8)
  /-- An append response, whatever its other fields. -/
  | respond (msg : Message) (env : Env)
  | ready

def NodeCall.apply (n : RaftNode) : NodeCall → RaftNode × List LogEntry
  | .propose data => ((n.propose data).1, [])
  | .respond msg env => ((n.step env { msg with msgType := .appendResponse }).node, [])
  | .ready => (n.takeReady.1, (n.takeReady.2.map Ready.committedEntries).getD [])

/-- The node after the first calls of a list, and all entries handed over so far. -/
def runCalls (n : RaftNode) (calls : List NodeCall) : RaftNode × List LogEntry :=
  calls.foldl (fun s call => ((call.apply s.1).1, s.2 ++ (call.apply s.1).2)) (n, [])

theorem runCalls_concat (n : RaftNode) (calls : List NodeCall) (call : NodeCall) :
    runCalls n (calls ++ [call]) = ((call.apply (runCalls n calls).1).1,
      (runCalls n calls).2 ++ (call.apply (runCalls n calls).1).2) := by
  rw [runCalls, List.foldl_append]
  rfl

/-- The entries handed over are those behind position `start` and up to the last
applied one: all of them, each once and in order. -/
def Applied (start : Nat) (n : RaftNode) (delivered : List LogEntry) : Prop :=
  delivered = (n.log.drop start).take (n.lastApplied - start) ∧
    delivered.length = n.lastApplied - start

/-- Over the calls, every entry is handed over once and only when committed. -/
structure ExactlyOnce (n : RaftNode) (calls : List NodeCall) : Prop where
  applied : ∀ k, Applied n.lastApplied (runCalls n (calls.take k)).1
    (runCalls n (calls.take k)).2
  committed : ∀ k (hk : k < calls.length),
    ∀ e ∈ (calls[k].apply (runCalls n (calls.take k)).1).2,
      e.index ≤ (runCalls n (calls.take k)).1.commitIndex

/-- A leader with entries to hand over has committed its whole log. -/
def ReadyCommitted (n : RaftNode) (call : NodeCall) : Prop :=
  call = .ready → n.state = .leader → n.lastApplied < n.commitIndex → n.commitIndex = n.lastIndex

/-! ## One call -/

theorem takeEntries_none (size : Nat) (first : Bool) (l : List LogEntry) :
    takeEntries none size first l = l := by
  induction l generalizing size first with
  | nil => rfl
  | cons e rest ih =>
    show e :: takeEntries none (size + (e.data.length + 32)) false rest = e :: rest
    rw [ih]

theorem getEntries_none (n : RaftNode) (k : Nat) : n.getEntries k none = n.log.drop (k - 1) := by
  show (if k - 1 ≥ n.log.length then [] else takeEntries none 0 true (n.log.drop (k - 1))) = _
  by_cases hge : k - 1 ≥ n.log.length
  · rw [if_pos hge, List.drop_eq_nil_of_le hge]
  · rw [if_neg hge, takeEntries_none]

theorem handleAppendResponse_keeps (n : RaftNode) (msg : Message) :
    (n.handleAppendResponse msg).node.log = n.log ∧
      (n.handleAppendResponse msg).node.lastApplied = n.lastApplied := by
  unfold handleAppendResponse
  split
  · exact ⟨rfl, rfl⟩
  · split
    · exact ⟨rfl, rfl⟩
    · split
      · exact ⟨rfl, rfl⟩
      · unfold advanceCommitIndex
        simp only
        split
        · exact ⟨rfl, rfl⟩
        · split <;> exact ⟨rfl, rfl⟩

theorem NodeCall.apply_keeps (n : RaftNode) (call : NodeCall) (hcall : call ≠ .ready) :
    n.log <+: (call.apply n).1.log ∧ (call.apply n).1.lastApplied = n.lastApplied ∧
      (call.apply n).2 = [] := by
  cases call with
  | propose data =>
    refine ⟨(propose_grown n data).log, ?_, rfl⟩
    show (n.propose data).1.lastApplied = n.lastApplied
    unfold RaftNode.propose
    split <;> rfl
  | respond msg env =>
    have hkeeps := handleAppendResponse_keeps
      (n.observeTerm env { msg with msgType := .appendResponse })
      { msg with msgType := .appendResponse }
    have hlog := observeTerm_log env n { msg with msgType := .appendResponse }
    have happlied :
        (n.observeTerm env { msg with msgType := .appendResponse }).lastApplied =
          n.lastApplied := by
      unfold observeTerm
      split <;> rfl
    refine ⟨?_, hkeeps.2.trans happlied, rfl⟩
    show n.log <+: (handleAppendResponse _ _).node.log
    rw [hkeeps.1, hlog]
  | ready => exact absurd rfl hcall

theorem NodeCall.ready_follower {n : RaftNode} (hlead : n.state ≠ .leader) :
    NodeCall.ready.apply n = (n, []) := by
  show (n.takeReady.1, (n.takeReady.2.map Ready.committedEntries).getD []) = (n, [])
  rw [takeReady, if_pos hlead]
  rfl

theorem NodeCall.ready_leader {n : RaftNode} (hlead : n.state = .leader) :
    NodeCall.ready.apply n = (n.markApplied, n.committedEntries) := by
  show (n.takeReady.1, (n.takeReady.2.map Ready.committedEntries).getD []) = _
  rw [takeReady_leader hlead]
  rfl

/-- Nothing to hand over: the node and its mark stay. -/
theorem NodeCall.ready_idle {n : RaftNode} (hle : n.commitIndex ≤ n.lastApplied) :
    (NodeCall.ready.apply n).1.log = n.log ∧
      (NodeCall.ready.apply n).1.lastApplied = n.lastApplied ∧
      (NodeCall.ready.apply n).2 = [] := by
  by_cases hlead : n.state = .leader
  · rw [ready_leader hlead, committedEntries,
      if_neg (show ¬ n.commitIndex > n.lastApplied by omega)]
    refine ⟨rfl, ?_, rfl⟩
    show (if n.commitIndex > n.lastApplied then n.commitIndex else n.lastApplied) = _
    rw [if_neg (by omega)]
  · rw [ready_follower hlead]
    exact ⟨rfl, rfl, rfl⟩

/-- Something to hand over: the whole log behind the mark goes out. -/
theorem NodeCall.ready_busy {n : RaftNode} (hlead : n.state = .leader)
    (hlt : n.lastApplied < n.commitIndex) :
    (NodeCall.ready.apply n).1.log = n.log ∧
      (NodeCall.ready.apply n).1.lastApplied = n.commitIndex ∧
      (NodeCall.ready.apply n).2 = n.log.drop n.lastApplied := by
  rw [ready_leader hlead, committedEntries, if_pos hlt, getEntries_none]
  refine ⟨rfl, ?_, by rw [Nat.add_sub_cancel]⟩
  show (if n.commitIndex > n.lastApplied then n.commitIndex else n.lastApplied) = _
  rw [if_pos hlt]

variable {start : Nat} {n n' : RaftNode} {delivered : List LogEntry}

/-- A longer log with the same mark has handed over the same entries. -/
theorem Applied.keep (ha : Applied start n delivered) (hlog : n.log <+: n'.log)
    (happlied : n'.lastApplied = n.lastApplied) : Applied start n' delivered := by
  obtain ⟨hslice, hlen⟩ := ha
  refine ⟨?_, by rw [happlied, hlen]⟩
  obtain ⟨tail, htail⟩ := hlog
  have hcount := congrArg List.length hslice
  rw [hlen, List.length_take, List.length_drop] at hcount
  rw [happlied, hslice, ← htail]
  by_cases hstart : start ≤ n.log.length
  · rw [List.drop_append_of_le_length hstart,
      List.take_append_of_le_length (by rw [List.length_drop]; omega)]
  · have hzero : n.lastApplied - start = 0 := by omega
    rw [hzero, List.take_zero, List.take_zero]

theorem Applied.length_eq (hle : start ≤ n.lastApplied) (ha : Applied start n delivered) :
    start + delivered.length = n.lastApplied := by
  have := ha.2
  omega

/-- Handing over the rest of the log is right exactly when all of it is committed. -/
theorem Applied.ready_iff (hle : start ≤ n.lastApplied) (ha : Applied start n delivered)
    (hidx : Indexed n.log) (hlead : n.state = .leader) (hlt : n.lastApplied < n.commitIndex) :
    (Applied start (NodeCall.ready.apply n).1 (delivered ++ (NodeCall.ready.apply n).2) ∧
      ∀ e ∈ (NodeCall.ready.apply n).2, e.index ≤ n.commitIndex) ↔
      n.commitIndex = n.lastIndex := by
  obtain ⟨hlog, happlied, hout⟩ := NodeCall.ready_busy hlead hlt
  have hsum := ha.length_eq hle
  unfold Applied lastIndex
  rw [hlog, happlied, hout, List.length_append, List.length_drop]
  constructor
  · rintro ⟨⟨-, hlen⟩, -⟩
    omega
  · intro hall
    refine ⟨⟨?_, by omega⟩, fun e he => ?_⟩
    · have hwhole : (n.log.drop start).take (n.commitIndex - start) = n.log.drop start :=
        List.take_of_length_le (by rw [List.length_drop]; omega)
      have hrest : n.log.drop n.lastApplied =
          (n.log.drop start).drop (n.lastApplied - start) := by
        rw [List.drop_drop]
        congr 1
        omega
      rw [hwhole, ha.1, hrest, List.take_append_drop]
    · obtain ⟨k, hk⟩ := List.mem_iff_getElem?.mp he
      rw [List.getElem?_drop] at hk
      have hindex := hidx _ e hk
      have hbound := (List.getElem?_eq_some_iff.mp hk).1
      omega

/-- One call keeps the account exactly when a busy `ready` finds its log committed. -/
theorem Applied.call_iff (hle : start ≤ n.lastApplied) (ha : Applied start n delivered)
    (hidx : Indexed n.log) (call : NodeCall) :
    (Applied start (call.apply n).1 (delivered ++ (call.apply n).2) ∧
      ∀ e ∈ (call.apply n).2, e.index ≤ n.commitIndex) ↔ ReadyCommitted n call := by
  have hquiet : n.log <+: (call.apply n).1.log → (call.apply n).1.lastApplied = n.lastApplied →
      (call.apply n).2 = [] → Applied start (call.apply n).1 (delivered ++ (call.apply n).2) ∧
        ∀ e ∈ (call.apply n).2, e.index ≤ n.commitIndex := by
    intro hlog happlied hout
    rw [hout, List.append_nil]
    exact ⟨ha.keep hlog happlied, fun e he => absurd he (by simp)⟩
  by_cases hcall : call = .ready
  · subst hcall
    by_cases hbusy : n.state = .leader ∧ n.lastApplied < n.commitIndex
    · rw [ha.ready_iff hle hidx hbusy.1 hbusy.2]
      exact ⟨fun hall _ _ _ => hall, fun hall => hall rfl hbusy.1 hbusy.2⟩
    · refine ⟨fun _ _ hlead hlt => absurd ⟨hlead, hlt⟩ hbusy, fun _ => ?_⟩
      by_cases hlead : n.state = .leader
      · have hle' : n.commitIndex ≤ n.lastApplied := by
          by_contra hlt
          exact hbusy ⟨hlead, by omega⟩
        obtain ⟨hlog, happlied, hout⟩ := NodeCall.ready_idle hle'
        exact hquiet (by rw [hlog]) happlied hout
      · rw [NodeCall.ready_follower hlead] at hquiet ⊢
        exact hquiet List.prefix_rfl rfl rfl
  · obtain ⟨hlog, happlied, hout⟩ := NodeCall.apply_keeps n call hcall
    exact ⟨fun _ hready => absurd hready hcall, fun _ => hquiet hlog happlied hout⟩

theorem NodeCall.apply_indexed (hidx : Indexed n.log) (call : NodeCall) :
    Indexed (call.apply n).1.log := by
  cases call with
  | propose data =>
    show Indexed (n.propose data).1.log
    unfold RaftNode.propose
    split
    · exact hidx
    · exact hidx.concat rfl
  | respond msg env =>
    show Indexed (handleAppendResponse _ _).node.log
    rw [(handleAppendResponse_keeps _ _).1, observeTerm_log]
    exact hidx
  | ready =>
    by_cases hlead : n.state = .leader
    · rw [ready_leader hlead]
      exact hidx
    · rw [ready_follower hlead]
      exact hidx

theorem NodeCall.le_lastApplied (n : RaftNode) (call : NodeCall) :
    n.lastApplied ≤ (call.apply n).1.lastApplied := by
  by_cases hcall : call = .ready
  · subst hcall
    by_cases hlead : n.state = .leader
    · rw [ready_leader hlead]
      show n.lastApplied ≤ if n.commitIndex > n.lastApplied then n.commitIndex else n.lastApplied
      split <;> omega
    · rw [ready_follower hlead]
  · rw [(apply_keeps n call hcall).2.1]

/-! ## Runs of calls -/

variable {calls : List NodeCall}

theorem runCalls_take_succ {k : Nat} (hk : k < calls.length) :
    runCalls n (calls.take (k + 1)) =
      ((calls[k].apply (runCalls n (calls.take k)).1).1,
        (runCalls n (calls.take k)).2 ++ (calls[k].apply (runCalls n (calls.take k)).1).2) := by
  rw [List.take_add_one, List.getElem?_eq_getElem hk]
  exact runCalls_concat n (calls.take k) _

theorem runCalls_indexed (hidx : Indexed n.log) (calls : List NodeCall) :
    Indexed (runCalls n calls).1.log ∧ n.lastApplied ≤ (runCalls n calls).1.lastApplied := by
  induction calls using List.reverseRecOn with
  | nil => exact ⟨hidx, Nat.le_refl _⟩
  | append_singleton rest call ih =>
    rw [runCalls_concat]
    exact ⟨NodeCall.apply_indexed ih.1 call, Nat.le_trans ih.2 (NodeCall.le_lastApplied _ call)⟩

/-- Exactly-once, committed-only application: it holds over a list of calls exactly
when each `ready` of a leader with entries to hand over finds the whole log committed. -/
theorem exactly_once_iff (n : RaftNode) (calls : List NodeCall) (hidx : Indexed n.log) :
    ExactlyOnce n calls ↔ ∀ k (hk : k < calls.length),
      ReadyCommitted (runCalls n (calls.take k)).1 calls[k] := by
  have hstep : ∀ k (hk : k < calls.length),
      Applied n.lastApplied (runCalls n (calls.take k)).1 (runCalls n (calls.take k)).2 →
      ((Applied n.lastApplied (runCalls n (calls.take (k + 1))).1
          (runCalls n (calls.take (k + 1))).2 ∧
        ∀ e ∈ (calls[k].apply (runCalls n (calls.take k)).1).2,
          e.index ≤ (runCalls n (calls.take k)).1.commitIndex) ↔
        ReadyCommitted (runCalls n (calls.take k)).1 calls[k]) := by
    intro k hk ha
    obtain ⟨hidx', hle⟩ := runCalls_indexed hidx (calls.take k)
    rw [runCalls_take_succ hk]
    exact ha.call_iff hle hidx' calls[k]
  constructor
  · intro honce k hk
    exact (hstep k hk (honce.applied k)).mp ⟨honce.applied (k + 1), honce.committed k hk⟩
  · intro hready
    have happlied : ∀ k, Applied n.lastApplied (runCalls n (calls.take k)).1
        (runCalls n (calls.take k)).2 := by
      intro k
      induction k with
      | zero =>
        show Applied n.lastApplied n []
        exact ⟨by rw [Nat.sub_self, List.take_zero], by rw [Nat.sub_self]; rfl⟩
      | succ k ih =>
        by_cases hk : k < calls.length
        · exact ((hstep k hk ih).mpr (hready k hk)).1
        · rw [List.take_of_length_le (by omega)] at ih ⊢
          exact ih
    exact ⟨happlied, fun k hk => ((hstep k hk (happlied k)).mpr (hready k hk)).2⟩

def elected : RaftNode := (Cluster.run (Cluster.init trio) (electing late 1 2 1 1)).node 1

theorem exactly_once_elected :
    ExactlyOnce elected [.respond (answerOf 2 false) late, .ready] := by
  have hlog : elected.log = [root, noop] := by decide
  refine (exactly_once_iff elected _ (fun k e hk => ?_)).mpr (fun k hk => ?_)
  · rw [hlog] at hk
    match k with
    | 0 => exact (Option.some.inj hk) ▸ rfl
    | 1 => exact (Option.some.inj hk) ▸ rfl
    | k + 2 => simp at hk
  · match k with
    | 0 => exact fun hready => absurd hready (by simp)
    | 1 => exact fun _ _ _ => by decide
    | k + 2 => exact absurd hk (by simp)

/-- A proposal pending when the no-op commits is handed over with it. -/
theorem not_exactly_once_elected :
    ¬ ExactlyOnce elected [.propose [7], .respond (answerOf 2 false) late, .ready] := by
  intro honce
  have hbound := honce.committed 2 (by decide) (LogEntry.new 3 1 [7]) (by decide)
  exact absurd hbound (by decide)

end Raft
end RTDB
