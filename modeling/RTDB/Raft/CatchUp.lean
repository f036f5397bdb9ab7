import RTDB.Raft.Exchange

/-!
# Catching up

A leader and one peer, with nothing between them but the appends that ready
processing builds for the peer and its answers.  A rejection only lowers the next
index, down to an index whose entry has the leader's own term, or to the start of
the log.  From there a batch is accepted.  The next one is accepted again when the
batch ends at an entry of the leader's term, and otherwise the peer falls back to
the start of the log, where the same batch tells the leader nothing new.
-/

namespace RTDB
namespace Raft

open RaftNode Reign

variable {l : List LogEntry} {t : Nat}

/-! ## Terms along a log -/

def Rising (l : List LogEntry) : Prop := ∀ j ≤ l.length, ∀ i ≤ j, termAt l i ≤ termAt l j

instance (l : List LogEntry) : Decidable (Rising l) :=
  inferInstanceAs (Decidable (∀ j ≤ l.length, ∀ i ≤ j, termAt l i ≤ termAt l j))

theorem termAt_zero (l : List LogEntry) : termAt l 0 = 0 := by
  rw [termAt, if_pos rfl]

theorem termAt_take {j k : Nat} (hjk : j ≤ k) : termAt (l.take k) j = termAt l j := by
  by_cases hzero : j = 0
  · rw [hzero, termAt_zero, termAt_zero]
  · have hlen : (l.take k).length < j ↔ l.length < j := by
      rw [List.length_take]
      omega
    have hget : (l.take k)[j - 1]? = l[j - 1]? := List.getElem?_take_of_lt (by omega)
    simp only [termAt, hzero, hlen, hget]

theorem Rising.take (hl : Rising l) (k : Nat) : Rising (l.take k) := by
  intro j hj i hij
  rw [List.length_take] at hj
  rw [termAt_take (by omega), termAt_take (by omega)]
  exact hl j (by omega) i hij

theorem termAt_le (hb : ∀ e ∈ l, e.term ≤ t) (k : Nat) : termAt l k ≤ t := by
  by_cases hk : 0 < k ∧ k ≤ l.length
  · obtain ⟨e, hget, hterm⟩ := termAt_of_pos hk.1 hk.2
    rw [hterm]
    exact hb e (List.mem_of_getElem? hget)
  · by_contra hgt
    exact hk (termAt_pos (t := termAt l k) (by omega) rfl)

/-! ## The conflict hint -/

/-- The hint is the last index up to `i` whose entry has another term. -/
theorem conflictHintFrom_spec (l : List LogEntry) (t i : Nat) :
    conflictHintFrom l t i ≤ i ∧
      (∀ j, conflictHintFrom l t i < j → j ≤ i → termAt l j = t) ∧
      (0 < conflictHintFrom l t i → termAt l (conflictHintFrom l t i) ≠ t) := by
  induction i with
  | zero => exact ⟨Nat.le_refl 0, fun j hj hle => by omega, fun hpos => absurd hpos (Nat.lt_irrefl 0)⟩
  | succ i ih =>
    obtain ⟨hle, hsame, hother⟩ := ih
    rw [conflictHintFrom]
    split
    · rename_i hdiffers
      exact ⟨Nat.le_refl _, fun j hj hle => by omega, fun _ => hdiffers⟩
    · rename_i hequal
      rw [not_not] at hequal
      refine ⟨by omega, fun j hj hji => ?_, hother⟩
      rcases Nat.lt_or_ge i j with hlast | hearlier
      · rw [show j = i + 1 by omega]
        exact hequal
      · exact hsame j hj hearlier

/-- The previous index of the append after a rejection at `p`. -/
def fallBack (p hint : Nat) : Nat := if hint = 0 then p - 1 else hint - 1

theorem fallBack_lt {p hint : Nat} (hp : 0 < p) (hle : hint ≤ p) : fallBack p hint < p := by
  unfold fallBack
  split <;> omega

theorem backOff_prev {pr : Progress} {hint : Nat} (hnext : 1 < pr.nextIndex)
    (hle : hint ≤ pr.nextIndex - 1) :
    (RaftNode.backOff pr hint).nextIndex - 1 = fallBack (pr.nextIndex - 1) hint ∧
      0 < (RaftNode.backOff pr hint).nextIndex := by
  simp only [RaftNode.backOff, Progress.becomeReject, fallBack]
  split <;> split <;> omega

/-- Where a follower first meets a leader of term `t` that goes back from `p`: at `p`
itself, before its last entry when `p` lies behind its log, or at the start. -/
def firstMet (l : List LogEntry) (t p : Nat) : Nat :=
  if termAt l p = t then p
  else if l.length < p ∧ termAt l (l.length - 1) = t then l.length - 1
  else 0

theorem firstMet_of_meets {p : Nat} (ht : 0 < t) (hp : Meets l t p) : firstMet l t p = p := by
  rcases hp with rfl | hterm
  · rw [firstMet, termAt_zero, if_neg (by omega), if_neg (by omega)]
  · rw [firstMet, if_pos hterm]

/-- An entry of an earlier term leaves only the start. -/
theorem firstMet_of_earlier {p : Nat} (hin : p ≤ l.length) (hmiss : termAt l p ≠ t) :
    firstMet l t p = 0 := by
  rw [firstMet, if_neg hmiss, if_neg (by omega)]

/-- Going back once does not change where the follower meets the leader. -/
theorem firstMet_fallBack {p : Nat} (hl : Rising l) (hb : ∀ k, termAt l k ≤ t) (ht : 0 < t)
    (hp : 0 < p) (hmiss : termAt l p ≠ t) :
    firstMet l t (fallBack p (conflictHintFrom l (termAt l p) p)) = firstMet l t p := by
  obtain ⟨hle, hsame, hother⟩ := conflictHintFrom_spec l (termAt l p) p
  have hlt := fallBack_lt hp hle
  rcases Nat.lt_or_ge l.length p with hout | hin
  · -- Behind the log every term is zero.
    have hzero : termAt l p = 0 := termAt_of_lt hout
    rw [hzero] at hle hsame hother hlt ⊢
    by_cases hnone : conflictHintFrom l 0 p = 0
    · have hall : ∀ j, j ≤ p → termAt l j = 0 := by
        intro j hj
        by_cases hj' : j = 0
        · rw [hj', termAt_zero]
        · exact hsame j (by omega) hj
      have hback := hall _ (Nat.le_of_lt hlt)
      have hend := hall (l.length - 1) (by omega)
      have hne : ¬ 0 = t := by omega
      rw [firstMet, firstMet, hback, hzero, hend, if_neg hne, if_neg hne,
        if_neg (fun h => hne h.2), if_neg (fun h => hne h.2)]
    · have hpos : termAt l (conflictHintFrom l 0 p) ≠ 0 := hother (by omega)
      obtain ⟨-, hwithin⟩ := termAt_pos (Nat.pos_of_ne_zero hpos) rfl
      have hlast : conflictHintFrom l 0 p = l.length := by
        by_contra hbefore
        have hend := hsame l.length (by omega) (by omega)
        have hrise := hl l.length (Nat.le_refl _) (conflictHintFrom l 0 p) (by omega)
        omega
      have hback : fallBack p (conflictHintFrom l 0 p) = l.length - 1 := by
        rw [fallBack, if_neg hnone, hlast]
      rw [hback, firstMet, firstMet, hzero, if_neg (show ¬ 0 = t by omega)]
      by_cases hmeets : termAt l (l.length - 1) = t
      · rw [if_pos hmeets, if_pos ⟨hout, hmeets⟩]
      · rw [if_neg hmeets, if_neg (by omega), if_neg (by omega)]
  · have hrise := hl p hin _ (Nat.le_of_lt hlt)
    have hbound := hb p
    rw [firstMet_of_earlier hin hmiss, firstMet_of_earlier (by omega) (by omega)]

/-! ## Logs of a leader and of its followers -/

structure Presides (n : RaftNode) : Prop where
  state : n.state = .leader
  pos : 0 < n.term
  indexed : Indexed n.log
  rising : Rising n.log
  last : n.lastTerm = n.term

/-- A log that matches the leader's: they are the same up to an entry of its term. -/
structure Trails (n : RaftNode) (l : List LogEntry) : Prop where
  rising : Rising l
  bounded : ∀ e ∈ l, e.term ≤ n.term
  shares : ∀ k ≤ l.length, termAt l k = n.term → l.take k = n.log.take k

section Logs

variable {n : RaftNode}

theorem Presides.bounded (hn : Presides n) (k : Nat) : termAt n.log k ≤ n.term := by
  rcases Nat.lt_or_ge n.log.length k with hout | hin
  · rw [termAt_of_lt hout]
    exact Nat.zero_le _
  · have hrise := hn.rising _ (Nat.le_refl _) k hin
    have hlast : termAt n.log n.log.length = n.term := hn.last
    omega

/-- Behind an entry of the leader's term there are only more of them. -/
theorem Presides.own (hn : Presides n) {j k : Nat} (hj : termAt n.log j = n.term) (hjk : j ≤ k)
    (hk : k ≤ n.lastIndex) : termAt n.log k = n.term := by
  have hrise := hn.rising k hk j hjk
  have hbound := hn.bounded k
  omega

theorem Presides.trails_take (hn : Presides n) (k : Nat) : Trails n (n.log.take k) := by
  refine ⟨hn.rising.take k, fun e he => ?_, fun j hj _ => ?_⟩
  · obtain ⟨j, hj, rfl⟩ := List.mem_iff_getElem.mp (List.mem_of_mem_take he)
    obtain ⟨e, hget, hterm⟩ := @termAt_of_pos n.log _ (Nat.succ_pos j) hj
    have hbound : termAt n.log j.succ ≤ n.term := hn.bounded (j + 1)
    have hsame : n.log[j]? = some e := hget
    rw [List.getElem?_eq_getElem hj, Option.some.injEq] at hsame
    rw [hsame]
    omega
  · rw [List.length_take] at hj
    rw [List.take_take, Nat.min_eq_left (by omega)]

theorem Trails.meets (hl : Trails n l) (hpos : 0 < n.term) {p : Nat} (hmeets : Meets l n.term p) :
    p ≤ l.length ∧ l.take p = n.log.take p := by
  rcases hmeets with rfl | hterm
  · exact ⟨Nat.zero_le _, rfl⟩
  · have hle := (termAt_pos hpos hterm).2
    exact ⟨hle, hl.shares p hle hterm⟩

/-- Where the follower meets the leader, so does every log that is the leader's so far. -/
theorem Trails.meets_take (hl : Trails n l) (hpos : 0 < n.term) {p k : Nat}
    (hmeets : Meets l n.term p) (hpk : p ≤ k) : Meets (n.log.take k) n.term p := by
  rcases hmeets with rfl | hterm
  · exact Or.inl rfl
  · right
    have hsame := (hl.meets hpos (Or.inr hterm)).2
    rw [termAt_take hpk, ← hterm, ← termAt_take (Nat.le_refl p), ← hsame,
      termAt_take (Nat.le_refl p)]

end Logs

namespace Pair

variable {n : RaftNode} {s : Pair} {pr : Progress} (clock : NodeId → Env)

/-- The leader is about to send an append to the follower, whose log is `l`. -/
structure Poised (n : RaftNode) (l : List LogEntry) (s : Pair) (pr : Progress) : Prop where
  linked : Linked n s pr
  log : s.follower.log = l
  sends : n.Sends pr
  next : 0 < pr.nextIndex

/-- A rejection: the leader is poised again, further back. -/
theorem Poised.refused (hs : Poised n l s pr) (hl : Trails n l) (hpos : 0 < n.term)
    (hmiss : ¬ Meets l n.term (pr.nextIndex - 1)) :
    ∃ pr', Poised n l (s.exchange clock) pr' ∧ pr'.matchIndex = pr.matchIndex ∧
      pr'.nextIndex < pr.nextIndex ∧
      firstMet l n.term (pr'.nextIndex - 1) = firstMet l n.term (pr.nextIndex - 1) := by
  obtain ⟨hlinked, rfl, hsends, hnext⟩ := hs
  rw [Meets, not_or] at hmiss
  have hp : 0 < pr.nextIndex - 1 := Nat.pos_of_ne_zero hmiss.1
  have hle := (conflictHintFrom_spec s.follower.log
    (s.follower.logTerm (pr.nextIndex - 1)) (pr.nextIndex - 1)).1
  obtain ⟨hlinked', hlog⟩ := hlinked.refused clock hsends
    (by rw [Meets, not_or]; exact hmiss)
  obtain ⟨hback, hnext'⟩ := @backOff_prev pr _ (by omega) hle
  have hlt := fallBack_lt hp hle
  refine ⟨_, ⟨hlinked', hlog, ⟨rfl, ?_⟩, hnext'⟩, rfl, ?_, ?_⟩
  · have hin := hsends.2
    unfold findConflictHint
    omega
  · unfold findConflictHint
    omega
  · rw [findConflictHint, hback]
    exact firstMet_fallBack hl.rising (termAt_le hl.bounded) hpos hp hmiss.2

theorem Poised.accepted (hs : Poised n l s pr) (hn : Presides n) (hl : Trails n l)
    (hmeets : Meets l n.term (pr.nextIndex - 1)) :
    Linked n (s.exchange clock) (pr.becomeAccept (n.batchEnd (pr.nextIndex - 1))) ∧
      (s.exchange clock).follower.log = n.log.take (n.batchEnd (pr.nextIndex - 1)) := by
  obtain ⟨hlinked, rfl, hsends, hnext⟩ := hs
  obtain ⟨hlen, htake⟩ := hl.meets hn.pos hmeets
  exact hlinked.accepted clock hsends hnext hn.indexed hmeets hlen htake

/-- A batch that ends before the log does leaves the leader poised for the next append. -/
theorem Poised.accepted_part (hs : Poised n l s pr) (hn : Presides n) (hl : Trails n l)
    (hmeets : Meets l n.term (pr.nextIndex - 1))
    (hpart : n.batchEnd (pr.nextIndex - 1) < n.lastIndex) :
    Poised n (n.log.take (n.batchEnd (pr.nextIndex - 1))) (s.exchange clock)
      (pr.becomeAccept (n.batchEnd (pr.nextIndex - 1))) := by
  obtain ⟨hlinked, hlog⟩ := hs.accepted clock hn hl hmeets
  have hin := hs.sends.2
  have hnext := hs.next
  rcases Nat.lt_or_ge pr.matchIndex (n.batchEnd (pr.nextIndex - 1)) with hnew | hold
  · have hafter := (becomeAccept_new hnew).1
    exact ⟨hlinked, hlog, ⟨rfl, by omega⟩, by omega⟩
  · have hafter := (becomeAccept_old hold).1
    exact ⟨hlinked, hlog, ⟨rfl, by omega⟩, by omega⟩

/-! ## The follower that catches up -/

section Sufficient

variable {clock : Nat → NodeId → Env}

theorem Linked.caughtUp {k : Nat} (hs : Linked n (s.rounds clock k) pr)
    (hlog : (s.rounds clock k).follower.log = n.log) : s.CatchesUp clock :=
  ⟨k, hlog.trans hs.log.symm⟩

/-- Going back ends where the follower meets the leader. -/
theorem Poised.exists_meets (hl : Trails n l) (hpos : 0 < n.term) {k : Nat}
    (hs : Poised n l (s.rounds clock k) pr) :
    ∃ k' pr', Poised n l (s.rounds clock k') pr' ∧ pr'.matchIndex = pr.matchIndex ∧
      Meets l n.term (pr'.nextIndex - 1) ∧
      pr'.nextIndex - 1 = firstMet l n.term (pr.nextIndex - 1) := by
  -- Each rejection lowers the next index.
  induction hnext : pr.nextIndex using Nat.strong_induction_on generalizing k pr with
  | _ next ih =>
    subst hnext
    by_cases hmeets : Meets l n.term (pr.nextIndex - 1)
    · exact ⟨k, pr, hs, rfl, hmeets, (firstMet_of_meets hpos hmeets).symm⟩
    · obtain ⟨pr₁, hs₁, hmatch₁, hlower, hfirst₁⟩ := hs.refused (clock k) hl hpos hmeets
      obtain ⟨k', pr', hs', hmatch, hmeets', hfirst⟩ := ih _ hlower (k := k + 1) hs₁ rfl
      exact ⟨k', pr', hs', hmatch.trans hmatch₁, hmeets', hfirst.trans hfirst₁⟩

/-- From an entry of the leader's term on every batch is met, and brings the next. -/
theorem Poised.climbs (hn : Presides n) {e k : Nat}
    (hs : Poised n (n.log.take e) (s.rounds clock k) pr) (hnext : pr.nextIndex = e + 1)
    (hmatch : pr.matchIndex = e) (hown : termAt n.log e = n.term) : s.CatchesUp clock := by
  -- What is left of the log shrinks.
  induction hleft : n.lastIndex - e using Nat.strong_induction_on generalizing k e pr with
  | _ left ih =>
    subst hleft
    have hprev : pr.nextIndex - 1 = e := by omega
    have hmeets : Meets (n.log.take e) n.term (pr.nextIndex - 1) := by
      right
      rw [hprev, termAt_take (Nat.le_refl e), hown]
    have hlt : e < n.lastIndex := by
      have hin := hs.sends.2
      omega
    obtain ⟨-, -, hgrows, hend⟩ := batchEnd_spec hlt
    have hl := hn.trails_take e
    rcases Nat.lt_or_eq_of_le hend with hpart | hall
    · have hpart' : n.batchEnd (pr.nextIndex - 1) < n.lastIndex := by
        rw [hprev]
        exact hpart
      have hs' := hs.accepted_part (clock k) hn hl hmeets hpart'
      obtain ⟨hafter, hknown⟩ := @becomeAccept_new pr (n.batchEnd (pr.nextIndex - 1))
        (by rw [hprev, hmatch]; exact hgrows)
      rw [hprev] at hs' hafter hknown
      exact ih _ (by omega) (k := k + 1) hs' hafter hknown
        (hn.own hown (Nat.le_of_lt hgrows) hend) rfl
    · obtain ⟨hlinked, hlog⟩ := hs.accepted (clock k) hn hl hmeets
      rw [hprev, hall] at hlog
      exact Linked.caughtUp (k := k + 1) hlinked (hlog.trans (List.take_length))

/-- A first batch that ends at an entry of the leader's term, and is news to it or all
there is. -/
theorem Poised.catchesUp (hn : Presides n) (hl : Trails n l) {k : Nat}
    (hs : Poised n l (s.rounds clock k) pr)
    (hown : n.logTerm (n.batchEnd (firstMet l n.term (pr.nextIndex - 1))) = n.term)
    (hnews : pr.matchIndex < n.batchEnd (firstMet l n.term (pr.nextIndex - 1)) ∨
      n.batchEnd (firstMet l n.term (pr.nextIndex - 1)) = n.lastIndex) :
    s.CatchesUp clock := by
  obtain ⟨k', pr', hs', hmatch, hmeets, hfirst⟩ := hs.exists_meets hl hn.pos
  rw [← hfirst, ← hmatch] at hnews
  rw [← hfirst] at hown
  have hend : n.batchEnd (pr'.nextIndex - 1) ≤ n.lastIndex := by
    have hin := hs'.sends.2
    have hnext := hs'.next
    exact (batchEnd_spec (by omega)).2.2.2
  rcases Nat.lt_or_eq_of_le hend with hpart | hall
  · have hnew : pr'.matchIndex < n.batchEnd (pr'.nextIndex - 1) := by omega
    obtain ⟨hafter, hknown⟩ := becomeAccept_new hnew
    exact (hs'.accepted_part (clock k') hn hl hmeets hpart).climbs hn (k := k' + 1) hafter
      hknown hown
  · obtain ⟨hlinked, hlog⟩ := hs'.accepted (clock k') hn hl hmeets
    rw [hall] at hlog
    exact Linked.caughtUp (k := k' + 1) hlinked (hlog.trans List.take_length)

end Sufficient

/-! ## The follower that does not -/

/-- The leader goes back to index `p` again and again: the follower has the log it started
with, or what it had after the batch from there, and then the batch is no news. -/
structure Circles (n : RaftNode) (l : List LogEntry) (known p : Nat) (s : Pair) (pr : Progress)
    (held : List LogEntry) : Prop where
  poised : Poised n held s pr
  first : firstMet held n.term (pr.nextIndex - 1) = p
  held : held = l ∧ pr.matchIndex = known ∨
    held = n.log.take (n.batchEnd p) ∧ n.batchEnd p ≤ pr.matchIndex

theorem Circles.exchange {known p : Nat} {held : List LogEntry} (hs : Circles n l known p s pr held)
    (hn : Presides n) (hl : Trails n l) (hpart : n.batchEnd p < n.lastIndex)
    (hfails : n.logTerm (n.batchEnd p) = n.term → n.batchEnd p ≤ known) :
    ∃ pr' held', Circles n l known p (s.exchange clock) pr' held' := by
  obtain ⟨hpoised, hfirst, hheld⟩ := hs
  have htrails : Trails n held := by
    rcases hheld with ⟨rfl, -⟩ | ⟨rfl, -⟩
    · exact hl
    · exact hn.trails_take _
  by_cases hmeets : Meets held n.term (pr.nextIndex - 1)
  · have hhere : p = pr.nextIndex - 1 := by
      rw [← hfirst]
      exact firstMet_of_meets hn.pos hmeets
    subst hhere
    have hpoised' := hpoised.accepted_part clock hn htrails hmeets hpart
    have hgrows : pr.nextIndex - 1 < n.batchEnd (pr.nextIndex - 1) := by
      have hin := hpoised.sends.2
      have hnext := hpoised.next
      exact (batchEnd_spec (by omega)).2.2.1
    have hmeets' := htrails.meets_take hn.pos hmeets (Nat.le_of_lt hgrows)
    rcases Nat.lt_or_ge pr.matchIndex (n.batchEnd (pr.nextIndex - 1)) with hnew | hold
    · -- The batch is news, so it ends in an earlier term, and the leader starts over.
      obtain ⟨hafter, hknown⟩ := becomeAccept_new hnew
      have hearlier : termAt n.log (n.batchEnd (pr.nextIndex - 1)) ≠ n.term := by
        intro hown
        have hle := hfails hown
        omega
      have hstart : pr.nextIndex - 1 = 0 := by
        rcases hmeets' with hzero | hterm
        · exact hzero
        · rw [termAt_take (Nat.le_of_lt hgrows)] at hterm
          exact absurd (hn.own hterm (Nat.le_of_lt hgrows) (Nat.le_of_lt hpart)) hearlier
      refine ⟨_, _, hpoised', ?_, Or.inr ⟨rfl, Nat.le_of_eq hknown.symm⟩⟩
      rw [hafter, Nat.add_sub_cancel, hstart]
      rw [hstart] at hearlier hpart
      apply firstMet_of_earlier
      · rw [List.length_take]
        exact Nat.le_min.mpr ⟨Nat.le_refl _, Nat.le_of_lt hpart⟩
      · rw [termAt_take (Nat.le_refl _)]
        exact hearlier
    · obtain ⟨hafter, hknown⟩ := becomeAccept_old hold
      refine ⟨_, _, hpoised', ?_, Or.inr ⟨rfl, by omega⟩⟩
      rw [hafter]
      exact firstMet_of_meets hn.pos hmeets'
  · obtain ⟨pr', hpoised', hmatch, -, hfirst'⟩ :=
      hpoised.refused clock htrails hn.pos hmeets
    exact ⟨pr', held, hpoised', hfirst'.trans hfirst, by rw [hmatch]; exact hheld⟩

/-- A follower of a later term stands aside: it keeps its log, and its first answer ends
the lead. -/
structure Aside (l l' : List LogEntry) (s : Pair) : Prop where
  follower : s.follower.log = l
  leader : s.leader.log = l'
  stands : s.leader.state ≠ .leader ∨
    s.leader.term < s.follower.term ∧ ∃ pr, s.leader.progress.lookup s.follower.id = some pr

theorem Aside.exchange {l' : List LogEntry} (hs : Aside l l' s) : Aside l l' (s.exchange clock) := by
  obtain ⟨hfollower, hleader, hstands⟩ := hs
  by_cases hlead : s.leader.state = .leader
  · obtain ⟨hlt, pr, hpr⟩ := hstands.resolve_left (fun hidle => hidle hlead)
    have hready : s.leader.call .ready =
        { node := s.leader.markApplied, ready := some s.leader.leaderReady } := by
      rw [RaftNode.call, takeReady_leader hlead]
    have happend := firstTo_ready hlead hpr
    by_cases hsends : s.leader.Sends pr
    · rw [if_pos hsends] at happend
      obtain ⟨-, htype, -⟩ := (mem_ready_append hlead hpr).mpr ⟨hsends, rfl⟩
      have hsent : s.leader.replicate s.follower.id pr =
          { msgType := .appendEntries, from_ := s.leader.id, to_ := s.follower.id,
            term := s.leader.term, index := pr.nextIndex - 1,
            entries := s.leader.getEntries pr.nextIndex (some s.leader.config.maxMsgSize),
            commit := s.leader.commitIndex } := by
        rw [replicate, if_neg (Nat.not_lt.mpr hsends.2)]
      have hstale : (s.leader.replicate s.follower.id pr).term < s.follower.term := by
        rw [hsent]
        exact hlt
      obtain ⟨hanswer, -⟩ := step_append_stale (clock s.follower.id) htype hstale
      have hfirst : firstTo .appendResponse s.leader.id
          (s.follower.step (clock s.follower.id) (s.leader.replicate s.follower.id pr)).messages =
            some ((Message.new .appendResponse s.follower.id s.leader.id s.follower.term).withReject
              s.follower.lastIndex) := by
        rw [hanswer, hsent]
        simp [firstTo, Message.new, Message.withReject]
      have hkept := (step_append_refused (n := s.follower) (clock s.follower.id) htype
        (fun hacc => Nat.not_lt.mpr hacc.1 hstale)).1
      obtain ⟨hstate, hlog⟩ := @step_answer_later s.leader.markApplied
        ((Message.new .appendResponse s.follower.id s.leader.id s.follower.term).withReject
          s.follower.lastIndex) (clock s.leader.id) rfl hlt
      rw [Pair.exchange]
      simp only
      rw [happend]
      simp only
      rw [hfirst, hready]
      exact ⟨hkept.trans hfollower, hlog.trans hleader, Or.inl (by rw [hstate]; decide)⟩
    · rw [if_neg hsends] at happend
      rw [Pair.exchange]
      simp only
      rw [happend, hready]
      exact ⟨hfollower, hleader, Or.inr ⟨hlt, pr, hpr⟩⟩
  · have hnone : s.leader.call .ready = { node := s.leader } := by
      rw [RaftNode.call, takeReady, if_pos hlead]
    rw [Pair.exchange, hnone]
    exact ⟨hfollower, hleader, Or.inl hlead⟩

end Pair

/-! ## When a follower catches up -/

open Pair

/-- A leader with progress `pr` of a follower, whose log matches its own unless the
follower has gone on to a later term. -/
structure Paired (L F : RaftNode) (pr : Progress) : Prop where
  presides : Presides L
  progress : L.progress.lookup F.id = some pr
  next : 0 < pr.nextIndex
  trails : F.term ≤ L.term → Trails L F.log

/-- Where the first batch that the follower accepts ends. -/
def firstEnd (L F : RaftNode) (pr : Progress) : Nat :=
  L.batchEnd (firstMet F.log L.term (pr.nextIndex - 1))

/-- The follower is in no later term, there is an append for it, and the first batch it
accepts ends at an entry of the leader's term and is news to the leader, or all there is. -/
structure Lands (L F : RaftNode) (pr : Progress) : Prop where
  follows : F.term ≤ L.term
  sends : L.Sends pr
  own : L.logTerm (firstEnd L F pr) = L.term
  news : pr.matchIndex < firstEnd L F pr ∨ firstEnd L F pr = L.lastIndex

section Catching

variable {L F : RaftNode} {pr : Progress} (clock : Nat → NodeId → Env)

theorem Paired.linked (h : Paired L F pr) (hle : F.term ≤ L.term) : Linked L ⟨L, F⟩ pr :=
  ⟨h.presides.state, rfl, rfl, rfl, h.progress, hle⟩

theorem Paired.catchesUp (h : Paired L F pr) (hlands : Lands L F pr) :
    CatchesUp clock ⟨L, F⟩ := by
  have hpoised : Poised L F.log (Pair.rounds clock ⟨L, F⟩ 0) pr :=
    ⟨h.linked hlands.follows, rfl, hlands.sends, h.next⟩
  exact hpoised.catchesUp h.presides (h.trails hlands.follows) hlands.own hlands.news

theorem Paired.quiet_rounds (h : Paired L F pr) (hle : F.term ≤ L.term) (hsilent : ¬ L.Sends pr)
    (k : Nat) : Linked L (Pair.rounds clock ⟨L, F⟩ k) pr ∧
      (Pair.rounds clock ⟨L, F⟩ k).follower = F := by
  refine rounds_kept (Q := fun s => Linked L s pr ∧ s.follower = F) ?_ clock ⟨h.linked hle, rfl⟩ k
  intro clock s hs
  obtain ⟨hlinked, hsame⟩ := hs.1.quiet clock hsilent
  exact ⟨hlinked, hsame.trans hs.2⟩

theorem Paired.aside_rounds (h : Paired L F pr) (hlater : L.term < F.term) (k : Nat) :
    Aside F.log L.log (Pair.rounds clock ⟨L, F⟩ k) :=
  rounds_kept (fun clock _ hs => hs.exchange clock) clock
    ⟨rfl, rfl, Or.inr ⟨hlater, pr, h.progress⟩⟩ k

theorem Paired.circles_rounds (h : Paired L F pr) (hle : F.term ≤ L.term) (hsends : L.Sends pr)
    (hpart : firstEnd L F pr < L.lastIndex)
    (hfails : L.logTerm (firstEnd L F pr) = L.term → firstEnd L F pr ≤ pr.matchIndex) (k : Nat) :
    ∃ pr' held, Circles L F.log pr.matchIndex (firstMet F.log L.term (pr.nextIndex - 1))
      (Pair.rounds clock ⟨L, F⟩ k) pr' held := by
  refine rounds_kept (Q := fun s => ∃ pr' held, Circles L F.log pr.matchIndex
    (firstMet F.log L.term (pr.nextIndex - 1)) s pr' held) ?_ clock
    ⟨pr, F.log, ⟨h.linked hle, rfl, hsends, h.next⟩, rfl, Or.inl ⟨rfl, rfl⟩⟩ k
  rintro clock s ⟨pr', held, hs⟩
  exact hs.exchange clock h.presides (h.trails hle) hpart hfails

theorem firstEnd_le (hnext : 0 < pr.nextIndex) (hsends : L.Sends pr) :
    firstEnd L F pr ≤ L.lastIndex := by
  have hin := hsends.2
  refine (batchEnd_spec (n := L) ?_).2.2.2
  unfold firstMet
  split
  · omega
  · split <;> omega

/-- A follower whose first batch does not land never has the leader's log. -/
theorem Paired.not_catchesUp (h : Paired L F pr) (hdiffers : F.log ≠ L.log)
    (hnot : ¬ Lands L F pr) : ¬ CatchesUp clock ⟨L, F⟩ := by
  rintro ⟨k, hk⟩
  rcases Nat.lt_or_ge L.term F.term with hlater | hle
  · have haside := h.aside_rounds clock hlater k
    rw [haside.follower, haside.leader] at hk
    exact hdiffers hk
  · by_cases hsends : L.Sends pr
    · -- The batch does not reach the end of the log, which has the leader's term.
      have hpart : firstEnd L F pr < L.lastIndex := by
        apply Nat.lt_of_le_of_ne (firstEnd_le h.next hsends)
        intro hall
        apply hnot ⟨hle, hsends, ?_, Or.inr hall⟩
        rw [hall]
        exact h.presides.last
      have hfails : L.logTerm (firstEnd L F pr) = L.term → firstEnd L F pr ≤ pr.matchIndex := by
        intro hown
        by_contra hgt
        exact hnot ⟨hle, hsends, hown, Or.inl (Nat.not_le.mp hgt)⟩
      obtain ⟨pr', held, hpoised, -, hheld⟩ :=
        h.circles_rounds clock hle hsends hpart hfails k
      rw [hpoised.linked.log, hpoised.log] at hk
      rcases hheld with ⟨hstart, -⟩ | ⟨hbatch, -⟩
      · exact hdiffers (hstart.symm.trans hk)
      · have hlen := congrArg List.length (hbatch.symm.trans hk)
        rw [List.length_take] at hlen
        unfold firstEnd lastIndex at hpart
        omega
    · obtain ⟨hlinked, hsame⟩ := h.quiet_rounds clock hle hsends k
      rw [hlinked.log, hsame] at hk
      exact hdiffers hk

/-- A follower catches up exactly when it has the leader's log already, or its first batch
lands. -/
theorem catches_up_iff (clock : Nat → NodeId → Env) (L F : RaftNode) (pr : Progress)
    (h : Paired L F pr) : CatchesUp clock ⟨L, F⟩ ↔ F.log = L.log ∨ Lands L F pr := by
  constructor
  · intro hcatches
    by_contra hnot
    rw [not_or] at hnot
    exact h.not_catchesUp clock hnot.1 hnot.2 hcatches
  · rintro (hsame | hlands)
    · exact ⟨0, hsame⟩
    · exact h.catchesUp clock hlands

end Catching

/-! ## Leaders and followers of a run -/

theorem Rising.of_founded {h : Chronicle} (hs : Sound LogEntry.term h.reign)
    (hl : Founded LogEntry.term h.reign l) : Rising l := by
  intro j hj i hij
  by_cases hi : i = 0
  · rw [hi, termAt_zero]
    exact Nat.zero_le _
  · obtain ⟨a, hget, hterm⟩ := @termAt_of_pos l _ (Nat.pos_of_ne_zero hi) (by omega)
    obtain ⟨b, hget', hterm'⟩ := @termAt_of_pos l j (by omega) hj
    rw [hterm, hterm']
    exact hl.term_mono hs (by omega) hget hget'

theorem last_own_iff {h : Chronicle} (hs : Sound LogEntry.term h.reign)
    {r : Reign NodeId LogEntry} (ht : 0 < t) (hr : h.reign t = some r) :
    termAt r.log r.log.length = t ↔ r.own ≠ [] := by
  constructor
  · intro hterm hnone
    obtain ⟨hlen, hle⟩ := termAt_pos ht hterm
    obtain ⟨e, hget, hlast⟩ := termAt_of_pos hlen hle
    have hbase : e ∈ r.base := by
      have hmem := List.mem_of_getElem? hget
      rw [Reign.log, hnone, List.append_nil] at hmem
      exact hmem
    have hlt := hs.base_term hr e hbase
    omega
  · intro hown
    have hlen := List.length_pos_iff.mpr hown
    have hlog : r.log.length = r.base.length + r.own.length := List.length_append
    obtain ⟨e, hget, hlast⟩ := @termAt_of_pos r.log _ (by omega) (Nat.le_refl _)
    rw [hlast]
    rw [Reign.log, List.getElem?_append_right (by rw [← Reign.log]; omega)] at hget
    exact hs.own_term hr e (List.mem_of_getElem? hget)

theorem RaftNode.becomeLeader_last (n : RaftNode) : n.becomeLeader.lastTerm = n.term := by
  have hlog : n.becomeLeader.log = n.log ++ [LogEntry.new (n.lastIndex + 1) n.term []] := rfl
  have hlen : n.becomeLeader.log.length = n.log.length + 1 := by
    rw [hlog, List.length_append]
    rfl
  obtain ⟨e, hget, hlast⟩ := @termAt_of_pos n.becomeLeader.log _ (by omega)
    (Nat.le_refl _)
  rw [lastTerm, logTerm, lastIndex, hlast]
  rw [hlen, hlog, Nat.add_sub_cancel, List.getElem?_concat_length, Option.some.injEq] at hget
  rw [← hget]
  rfl

section Reached

variable {S : Setup} {es : List Event} {i p : NodeId} {pr : Progress}
  (hv : Cluster.Valid S (Cluster.init S) es)

include hv

/-- The log of a leader ends in its term as long as it leads. -/
theorem RaftNode.Remains.lastTerm {k : Nat}
    (hleads : Remains ((Cluster.after S es k).node i) ((Cluster.after S es (k + 1)).node i))
    (hlead : ((Cluster.after S es (k + 1)).node i).state = .leader)
    (hlast : ((Cluster.after S es k).node i).lastTerm = ((Cluster.after S es k).node i).term) :
    ((Cluster.after S es (k + 1)).node i).lastTerm =
      ((Cluster.after S es (k + 1)).node i).term := by
  obtain ⟨h, h', hx, hs, hs', -⟩ := Safe.two False hv (fun hf => hf.elim) (Nat.le_succ k)
  have hpos : 0 < ((Cluster.after S es k).node i).term :=
    ((hs.election.standing i).candidacy (Or.inr hleads.state)).2.2
  obtain ⟨r, hr, -, hlog⟩ := hs.reign ⟨hleads.state, rfl⟩
  obtain ⟨r', hr', -, hlog'⟩ := hs'.reign ⟨hlead, hleads.term⟩
  obtain ⟨s, hs₁, -, -, hown⟩ := hx.reign _ r hr
  obtain rfl : r' = s := Option.some.inj (hr'.symm.trans hs₁)
  rw [RaftNode.lastTerm, logTerm, lastIndex, hlog,
    last_own_iff hs.logs.sound hpos hr] at hlast
  rw [RaftNode.lastTerm, logTerm, lastIndex, hlog', hleads.term,
    last_own_iff hs'.logs.sound hpos hr']
  intro hnone
  rw [hnone, List.prefix_nil] at hown
  exact hlast hown

/-- Next indices are positive, and the log of a leader ends in its term. -/
theorem Follows.started : ∀ {k pr}, Follows (Cluster.after S es k) i p pr → 0 < pr.nextIndex ∧
    ((Cluster.after S es k).node i).lastTerm = ((Cluster.after S es k).node i).term := by
  intro k
  induction k with
  | zero =>
    intro pr hf
    exact absurd hf.1 (by simp [Cluster.after, Cluster.run, Cluster.init, newWithConf])
  | succ k ih =>
    intro pr hf
    rcases Nat.lt_or_ge k es.length with hk | hk
    · have hlead := hf.1
      have hafter := Cluster.after_succ (S := S) hk
      rw [hafter] at hf
      rcases hf.tracks with ⟨hi, htracks⟩ | ⟨hold, hnode⟩
      · rw [← hafter] at htracks
        cases htracks with
        | fresh hidle hmatch hnext =>
          refine ⟨hnext, ?_⟩
          subst hi
          rw [hafter, Cluster.apply_node_self] at hlead ⊢
          rcases (call_polls es[k].call).leader hlead with hbefore | ⟨m, hm, hcrowned⟩
          · exact absurd hbefore hidle
          · obtain ⟨env, hdeliver⟩ := Event.eq_deliver hm
            rw [hdeliver] at hcrowned ⊢
            show (RaftNode.step env _ m).node.lastTerm = (RaftNode.step env _ m).node.term
            rw [step_crowned_eq env hcrowned]
            exact becomeLeader_last _
        | kept hleads hpr =>
          obtain ⟨hnext, hlast⟩ := ih ⟨hleads.state, hpr⟩
          exact ⟨hnext, hleads.lastTerm hv hlead hlast⟩
        | refused hleads m hm htype hreject hterm hfrom pr₀ hpr heq =>
          obtain ⟨-, hlast⟩ := ih ⟨hleads.state, hpr⟩
          rw [heq]
          exact ⟨Nat.lt_of_lt_of_le Nat.zero_lt_one (Nat.le_max_right _ _),
            hleads.lastTerm hv hlead hlast⟩
        | accepted hleads m hm htype haccept hterm hfrom pr₀ hpr heq =>
          obtain ⟨hnext, hlast⟩ := ih ⟨hleads.state, hpr⟩
          refine ⟨?_, hleads.lastTerm hv hlead hlast⟩
          rw [heq]
          rcases Nat.lt_or_ge pr₀.matchIndex m.index with hnew | hknown
          · rw [(becomeAccept_new hnew).1]
            exact Nat.succ_pos _
          · rw [(becomeAccept_old hknown).1]
            exact hnext
        | installed m hm htype =>
          exact absurd htype (no_snapshotResponse hv k m ((hv.enabled hk).sent.msg hm).1)
      · rw [hafter, hnode]
        exact ih hold
    · rw [Cluster.after_of_le hk] at hf ⊢
      exact ih hf

/-- In every reached state a leader and a peer it has progress of are paired. -/
theorem Follows.paired {k : Nat} (hf : Follows (Cluster.after S es k) i p pr) :
    Paired ((Cluster.after S es k).node i) ((Cluster.after S es k).node p) pr := by
  obtain ⟨h, hs⟩ := Safe.reached hv k
  obtain ⟨hnext, hlast⟩ := hf.started hv
  have hpos := ((hs.election.standing i).candidacy (Or.inr hf.1)).2.2
  have hi := hs.logs.recorded i
  have hp := hs.logs.recorded p
  refine ⟨⟨hf.1, hpos, hi.indexed hs.logs.indexed, .of_founded hs.logs.sound hi.founded, hlast⟩,
    ?_, hnext, fun hle => ⟨.of_founded hs.logs.sound hp.founded, fun e he => ?_, fun j hj hown => ?_⟩⟩
  · rw [(hs.wired p).id_eq]
    exact hf.2
  · exact Nat.le_trans (hp.bounded e he) hle
  · obtain ⟨r, hr, -, hlog⟩ := hs.reign ⟨hf.1, rfl⟩
    obtain ⟨hj₀, -⟩ := termAt_pos hpos hown
    obtain ⟨e, hget, hterm⟩ := termAt_of_pos hj₀ hj
    have hpre : ((Cluster.after S es k).node p).log.take (j - 1 + 1) <+: r.log :=
      hp.founded.take_isPrefix hr hget (hterm.symm.trans hown)
    rw [Nat.sub_add_cancel hj₀] at hpre
    have htake := List.prefix_iff_eq_take.mp hpre
    rw [List.length_take, Nat.min_eq_left hj] at htake
    rw [hlog]
    exact htake

end Reached

set_option maxRecDepth 20000

def crowned (S : Setup) : Pair :=
  { leader := (Cluster.after S (electing late 1 2 1 1) 3).node 1
    follower := (Cluster.after S (electing late 1 2 1 1) 3).node 2 }

theorem catches_up_elected : CatchesUp (fun _ _ => late) (crowned trio) := by
  have hv : Cluster.Valid trio (Cluster.init trio) (electing late 1 2 1 1) := by decide
  have hf : Follows (Cluster.after trio (electing late 1 2 1 1) 3) 1 2 (Progress.new 2 false) := by
    decide
  have hlands : Lands (crowned trio).leader (crowned trio).follower (Progress.new 2 false) :=
    ⟨by decide, by decide, by decide, by decide⟩
  exact (catches_up_iff _ _ _ _ (hf.paired hv)).mpr (Or.inr hlands)

/-- Messages bring one entry each. -/
def narrow : Setup :=
  { trio with config := fun i => { id := i, preVote := false, maxMsgSize := 32 }
              config_id := fun _ => rfl }

theorem not_catches_up_elected :
    Paired (crowned narrow).leader (crowned narrow).follower (Progress.new 2 false) ∧
      ¬ CatchesUp (fun _ _ => late) (crowned narrow) := by
  have hv : Cluster.Valid narrow (Cluster.init narrow) (electing late 1 2 1 1) := by decide
  have hf : Follows (Cluster.after narrow (electing late 1 2 1 1) 3) 1 2 (Progress.new 2 false) := by
    decide
  have hpaired := hf.paired hv
  exact ⟨hpaired, hpaired.not_catchesUp _ (by decide) (fun hlands => absurd hlands.own (by decide))⟩

end Raft
end RTDB
