import RTDB.Raft.Logs

/-!
# Committed entries and later leaders

The strict invariant.  It holds along moves whose guards are met: a granted vote
goes to a candidate whose log is at least as up to date, and an accepted append
never cuts off a tail it does not contradict.  Then a node keeps what it accepted
from a leader until a later reign has lost it, a voter vouches for the log it
votes for, and a commit by counting acceptances outlives every election.
-/

namespace RTDB
namespace Raft

open Quorum Reign

variable {S : Setup} {v v' : View} {h h' : Chronicle} {i : NodeId}

/-! ## Stored prefixes -/

/-- Node `p` once held the first `k` entries of the reign `r` of term `t`. -/
structure Stored (v : View) (h : Chronicle) (p : NodeId) (t : Nat) (r : Reign NodeId LogEntry)
    (k : Nat) : Prop where
  pos : 0 < t
  reign : h.reign t = some r
  le : k ≤ r.log.length
  evidence : r.leader = p ∨ ∃ m, Acceptance v p t m ∧ k ≤ m.index

/-- Some reign after `t` and before `u` started without `l`. -/
def Lost (h : Chronicle) (t u : Nat) (l : List LogEntry) : Prop :=
  ∃ w s, t < w ∧ w < u ∧ h.reign w = some s ∧ ¬ l <+: s.base

/-- All that `p` stored before term `u` is dominated by `l` or lost already. -/
def Vouches (v : View) (h : Chronicle) (p : NodeId) (l : List LogEntry) (u : Nat) : Prop :=
  ∀ t r k, t < u → Stored v h p t r k → r.base.length < k →
    Lost h t u (r.log.take k) ∨ Dominates LogEntry.term l t k

/-- An acceptance on the wire counts entries its reign has. -/
def Acked (S : Setup) (v : View) (h : Chronicle) (p : NodeId) (t : Nat) (m : Message) : Prop :=
  p ∈ S.voters ∧ 0 < t ∧ t ≤ (v.core p).term ∧ ∃ r, h.reign t = some r ∧ m.index ≤ r.log.length

/-- The leader counts only what was accepted in its term. -/
def Matched (v : View) (n : Core) : Prop :=
  n.state = .leader → ∀ p pr, n.progress.lookup p = some pr →
    pr.matchIndex = 0 ∨ ∃ m, Acceptance v p n.term m ∧ m.index = pr.matchIndex

structure Durable (S : Setup) (v : View) (h : Chronicle) : Prop where
  acked : ∀ p t m, Acceptance v p t m → Acked S v h p t m
  kept : ∀ p t r k, Stored v h p t r k →
    r.log.take k <+: (v.core p).log ∨ Lost h t ((v.core p).term + 1) (r.log.take k)
  polled : ∀ c p, (v.core c).state = .candidate → h.reign (v.core c).term = none →
    h.vote p (v.core c).term = some c → Vouches v h p (v.core c).log (v.core c).term
  chosen : ∀ u s, 0 < u → h.reign u = some s → ∃ q, Majority S.voters q ∧
    ∀ p ∈ q, u ≤ (v.core p).term ∧ Vouches v h p s.base u
  matched : ∀ j, Matched v (v.core j)

/-! ## What grows -/

theorem Lost.mono {t u u' : Nat} {l : List LogEntry} (hlost : Lost h t u l) (hx : h.Extends h')
    (hu : u ≤ u') : Lost h' t u' l := by
  obtain ⟨w, s, htw, hwu, hs, hnot⟩ := hlost
  obtain ⟨s', hs', -, hb, -⟩ := hx.reign w s hs
  refine ⟨w, s', htw, by omega, hs', ?_⟩
  rw [hb]
  exact hnot

theorem Acceptance.mono {p : NodeId} {t : Nat} {m : Message} (ha : Acceptance v p t m)
    (hnet : ∀ m ∈ v.net, m ∈ v'.net) : Acceptance v' p t m :=
  ⟨hnet m ha.sent, ha.msgType, ha.accepted, ha.by_, ha.term⟩

theorem take_log_eq {r r' : Reign NodeId LogEntry} {k : Nat} (hb : r'.base = r.base)
    (ho : r.own <+: r'.own) (hk : k ≤ r.log.length) : r'.log.take k = r.log.take k := by
  obtain ⟨tail, htail⟩ := log_isPrefix_log hb ho
  rw [← htail, List.take_append_of_le_length hk]

/-- What is stored stays stored, as part of the same reign. -/
theorem Stored.mono {p : NodeId} {t k : Nat} {r : Reign NodeId LogEntry}
    (hst : Stored v h p t r k) (hx : h.Extends h') (hnet : ∀ m ∈ v.net, m ∈ v'.net) :
    ∃ r', Stored v' h' p t r' k ∧ r'.log.take k = r.log.take k ∧ r'.base = r.base := by
  obtain ⟨r', hr', hleader, hb, ho⟩ := hx.reign t r hst.reign
  have hlog := log_isPrefix_log hb ho
  refine ⟨r', ⟨hst.pos, hr', Nat.le_trans hst.le hlog.length_le, ?_⟩,
    take_log_eq hb ho hst.le, hb⟩
  rcases hst.evidence with hled | ⟨m, hm, hk⟩
  · exact Or.inl (hleader.trans hled)
  · exact Or.inr ⟨m, hm.mono hnet, hk⟩

theorem Matched.mono {n : Core} (hm : Matched v n) (hnet : ∀ m ∈ v.net, m ∈ v'.net) :
    Matched v' n := by
  intro hlead p pr hp
  rcases hm hlead p pr hp with hz | ⟨m, hacc, heq⟩
  · exact Or.inl hz
  · exact Or.inr ⟨m, hacc.mono hnet, heq⟩

theorem net_subset_set (v : View) (i : NodeId) (core : Core) (ms : List Message) :
    ∀ m ∈ v.net, m ∈ (v.set i core ms).net :=
  fun _ hm => List.mem_append_left ms hm

/-- A log that holds a stored prefix dominates it. -/
theorem Stored.dominates {p : NodeId} {t k : Nat} {r : Reign NodeId LogEntry} {l : List LogEntry}
    (hst : Stored v h p t r k) (hs : Sound LogEntry.term h.reign)
    (hl : Founded LogEntry.term h.reign l) (hown : r.base.length < k) (hold : r.log.take k <+: l) :
    Dominates LogEntry.term l t k :=
  hl.dominates hs hst.reign hown hst.le hold

/-- A node vouches for its own log in the term it is about to enter. -/
theorem Durable.vouches_own (hd : Durable S v h) (hl : Logs v h) (p : NodeId) :
    Vouches v h p (v.core p).log ((v.core p).term + 1) := by
  intro t r k _ hst hown
  rcases hd.kept p t r k hst with hheld | hlost
  · exact Or.inr (hst.dominates hl.sound (hl.recorded p).founded hown hheld)
  · exact Or.inl hlost

/-- A node vouches for any log at least as up to date as its own, in a term
nobody reigns in. -/
theorem Durable.vouches_upToDate (hd : Durable S v h) (hl : Logs v h) {p : NodeId}
    {l : List LogEntry} (hup : UpToDate LogEntry.term l (v.core p).log)
    (hnone : h.reign (v.core p).term = none) : Vouches v h p l (v.core p).term := by
  intro t r k htu hst hown
  rcases hd.vouches_own hl p t r k (Nat.lt_succ_of_lt htu) hst hown with hlost | hdom
  · obtain ⟨w, s, htw, hwu, hs, hnot⟩ := hlost
    have hne : w ≠ (v.core p).term := by
      rintro rfl
      rw [hnone] at hs
      exact absurd hs (by simp)
    exact Or.inl ⟨w, s, htw, by omega, hs, hnot⟩
  · exact Or.inr (hdom.of_upToDate hup)

/-! ## Moves that begin no reign and accept nothing -/

/-- Without new reigns and acceptances nothing new is stored. -/
theorem Stored.of_quiet {p : NodeId} {t k : Nat} {r : Reign NodeId LogEntry}
    (hreign : h'.reign = h.reign) (hacc : ∀ p t m, Acceptance v' p t m → Acceptance v p t m)
    (hst : Stored v' h' p t r k) : Stored v h p t r k := by
  refine ⟨hst.pos, hreign ▸ hst.reign, hst.le, ?_⟩
  rcases hst.evidence with hled | ⟨m, hm, hk⟩
  · exact Or.inl hled
  · exact Or.inr ⟨m, hacc p t m hm, hk⟩

theorem Lost.of_reign {t u : Nat} {l : List LogEntry} (hreign : h'.reign = h.reign)
    (hlost : Lost h t u l) : Lost h' t u l := by
  obtain ⟨w, s, htw, hwu, hs, hnot⟩ := hlost
  exact ⟨w, s, htw, hwu, hreign ▸ hs, hnot⟩

theorem Vouches.of_quiet {p : NodeId} {l : List LogEntry} {u : Nat}
    (hreign : h'.reign = h.reign) (hacc : ∀ p t m, Acceptance v' p t m → Acceptance v p t m)
    (hv : Vouches v h p l u) : Vouches v' h' p l u := by
  intro t r k htu hst hown
  rcases hv t r k htu (hst.of_quiet hreign hacc) hown with hlost | hdom
  · exact Or.inl (hlost.of_reign hreign)
  · exact Or.inr hdom

theorem acceptance_set_old {core : Core} {ms : List Message}
    (hms : ∀ m ∈ ms, m.msgType = .appendResponse → m.reject = true) :
    ∀ p t m, Acceptance (v.set i core ms) p t m → Acceptance v p t m := by
  intro p t m hm
  rcases List.mem_append.mp hm.sent with hold | hnew
  · exact ⟨hold, hm.msgType, hm.accepted, hm.by_, hm.term⟩
  · have hrej := hms m hnew hm.msgType
    rw [hm.accepted] at hrej
    exact absurd hrej (by simp)

/-- Node `i` keeps its log, sends no acceptance and begins no reign.  Who
vouches for a candidate is left to show. -/
theorem Durable.quiet {core : Core} {ms : List Message} (hd : Durable S v h)
    (hreign : h'.reign = h.reign) (hlog : core.log = (v.core i).log)
    (hterm : (v.core i).term ≤ core.term)
    (hms : ∀ m ∈ ms, m.msgType = .appendResponse → m.reject = true)
    (hmatched : Matched v core)
    (hpolled : ∀ c p, ((v.set i core ms).core c).state = .candidate →
      h.reign ((v.set i core ms).core c).term = none →
      h'.vote p ((v.set i core ms).core c).term = some c →
      Vouches v h p ((v.set i core ms).core c).log ((v.set i core ms).core c).term) :
    Durable S (v.set i core ms) h' := by
  have hacc : ∀ p t m, Acceptance (v.set i core ms) p t m → Acceptance v p t m :=
    acceptance_set_old hms
  have hnet := net_subset_set v i core ms
  have hlogs : ∀ j, ((v.set i core ms).core j).log = (v.core j).log := by
    intro j
    by_cases hj : j = i
    · subst hj
      rw [View.set_core_self]
      exact hlog
    · rw [View.set_core_ne v core ms hj]
  refine ⟨fun p t m hm => ?_, fun p t r k hst => ?_, fun c p hcand hnone hvote => ?_,
    fun u s hu hs => ?_, fun j => ?_⟩
  · obtain ⟨hp, hpos, hle, hr⟩ := hd.acked p t m (hacc p t m hm)
    exact ⟨hp, hpos, Nat.le_trans hle (term_le_set hterm p), hreign ▸ hr⟩
  · rw [hlogs]
    rcases hd.kept p t r k (hst.of_quiet hreign hacc) with hheld | hlost
    · exact Or.inl hheld
    · refine Or.inr (Lost.of_reign hreign ?_)
      exact hlost.mono (.refl h) (Nat.succ_le_succ (term_le_set hterm p))
  · rw [hreign] at hnone
    exact (hpolled c p hcand hnone hvote).of_quiet hreign hacc
  · obtain ⟨q, hq, hall⟩ := hd.chosen u s hu (hreign ▸ hs)
    refine ⟨q, hq, fun p hp => ⟨Nat.le_trans (hall p hp).1 (term_le_set hterm p), ?_⟩⟩
    exact (hall p hp).2.of_quiet hreign hacc
  · by_cases hj : j = i
    · subst hj
      rw [View.set_core_self]
      exact hmatched.mono hnet
    · rw [View.set_core_ne v core ms hj]
      exact (hd.matched j).mono hnet

/-- Nothing new to vouch for: no vote is cast, and a candidate stays one. -/
theorem Durable.quiet_same {core : Core} {ms : List Message} (hd : Durable S v h)
    (hlog : core.log = (v.core i).log) (hterm : (v.core i).term ≤ core.term)
    (hcand : core.state = .candidate →
      (v.core i).state = .candidate ∧ core.term = (v.core i).term)
    (hms : ∀ m ∈ ms, m.msgType = .appendResponse → m.reject = true)
    (hmatched : Matched v core) : Durable S (v.set i core ms) h := by
  refine hd.quiet rfl hlog hterm hms hmatched (fun c p hc hnone hvote => ?_)
  by_cases hci : c = i
  · subst hci
    rw [View.set_core_self] at hc hnone hvote ⊢
    obtain ⟨hstate, hsame⟩ := hcand hc
    rw [hsame] at hnone hvote ⊢
    rw [hlog]
    exact hd.polled c p hstate hnone hvote
  · rw [View.set_core_ne v core ms hci] at hc hnone hvote ⊢
    exact hd.polled c p hc hnone hvote

theorem Durable.campaign {requests : List Message} (hd : Durable S v h) (hl : Logs v h)
    (he : Election S v h)
    (hreq : ∀ m ∈ requests, m.msgType = .requestVote) :
    Durable S (Move.apply v (.campaign i requests)) (h.note v (.campaign i requests)) := by
  show Durable S (Move.apply v (.campaign i requests)) (h.recordVote i ((v.core i).term + 1) i)
  refine hd.quiet rfl rfl (Nat.le_succ _)
    (fun m hm ht => absurd (ht.symm.trans (hreq m hm)) (by simp))
    (fun hs => absurd hs (by simp)) (fun c p hc hnone hvote => ?_)
  by_cases hci : c = i
  · subst hci
    rw [View.set_core_self] at hvote ⊢
    rcases vote_recordVote hvote with hold | ⟨rfl, -, -⟩
    · have hle := he.solicited p _ c hold
      exact absurd hle (Nat.not_succ_le_self _)
    · exact hd.vouches_own hl p
  · rw [View.set_core_ne v _ _ hci] at hc hnone hvote ⊢
    rcases vote_recordVote hvote with hold | ⟨-, -, heq⟩
    · exact hd.polled c p hc hnone hold
    · exact absurd heq hci

/-- A vote under its guard vouches for the candidate it goes to. -/
theorem Durable.grant {msg : Message} (hd : Durable S v h) (hl : Logs v h) (he : Election S v h)
    (hm : (Move.grant i msg).Enabled S True v) :
    Durable S (Move.apply v (.grant i msg)) (h.note v (.grant i msg)) := by
  obtain ⟨hi, hmem, htype, hto, hterm, hfree, hown, hguard⟩ := hm
  have hst := he.standing i
  have hidle : ∀ s, s = RaftState.candidate ∨ s = .leader → (v.core i).state ≠ s := by
    rintro s hs rfl
    exact hown (hst.candidacy hs).1
  show Durable S (Move.apply v (.grant i msg)) (h.recordVote i msg.term msg.from_)
  refine hd.quiet rfl rfl (Nat.le_refl _) ?_
    (fun hs => absurd hs (hidle _ (Or.inr rfl))) (fun c p hc hnone hvote => ?_)
  · intro m hm ht
    obtain rfl := List.mem_singleton.mp hm
    exact absurd ht (by simp [grantTo])
  · by_cases hci : c = i
    · subst hci
      rw [View.set_core_self] at hc
      exact absurd hc (hidle _ (Or.inl rfl))
    · rw [View.set_core_ne v _ _ hci] at hc hnone hvote ⊢
      rcases vote_recordVote hvote with hold | ⟨rfl, hu, rfl⟩
      · exact hd.polled c p hc hnone hold
      · have hup := hguard trivial hc hu
        rw [hu, hterm] at hnone ⊢
        exact hd.vouches_upToDate hl hup hnone

/-! ## Moves that write history -/

/-- Node `i` adds to the reign or to the acceptances of its own term only. -/
structure Growth (i : NodeId) (v : View) (h : Chronicle) (v' : View) (h' : Chronicle) : Prop where
  advance : Advance i h h'
  reign : ∀ t, t ≠ (v.core i).term → h'.reign t = h.reign t
  acceptance : ∀ p t m, Acceptance v' p t m →
    Acceptance v p t m ∨ (p = i ∧ t = (v.core i).term)

/-- What is stored is stored already, or by `i` in its own term. -/
theorem Stored.of_growth {p : NodeId} {t k : Nat} {r' : Reign NodeId LogEntry}
    (hg : Growth i v h v' h') (hd : Durable S v h) (hst : Stored v' h' p t r' k) :
    (∃ r, Stored v h p t r k ∧ r'.log.take k = r.log.take k ∧ r'.base = r.base) ∨
      (p = i ∧ t = (v.core i).term) := by
  by_cases hnew : p = i ∧ t = (v.core i).term
  · exact Or.inr hnew
  left
  have hold : ∀ m, Acceptance v' p t m → Acceptance v p t m := by
    intro m hm
    rcases hg.acceptance p t m hm with hm | hm
    · exact hm
    · exact absurd hm hnew
  by_cases ht : t = (v.core i).term
  · -- The reign may have grown, but neither led by `p` nor past what `p` accepted.
    have hpi : p ≠ i := fun hp => hnew ⟨hp, ht⟩
    rcases hg.advance.reigns t r' hst.reign with hsame | hled
    · refine ⟨r', ⟨hst.pos, hsame, hst.le, ?_⟩, rfl, rfl⟩
      rcases hst.evidence with hl | ⟨m, hm, hk⟩
      · exact Or.inl hl
      · exact Or.inr ⟨m, hold m hm, hk⟩
    · rcases hst.evidence with hl | ⟨m, hm, hk⟩
      · exact absurd (hl.symm.trans hled) hpi
      · obtain ⟨-, -, -, r, hr, hle⟩ := hd.acked p t m (hold m hm)
        obtain ⟨s, hs, -, hb, ho⟩ := hg.advance.extend.reign t r hr
        obtain rfl := Option.some.inj (hst.reign.symm.trans hs)
        have hkr : k ≤ r.log.length := Nat.le_trans hk hle
        exact ⟨r, ⟨hst.pos, hr, hkr, Or.inr ⟨m, hold m hm, hk⟩⟩, take_log_eq hb ho hkr, hb⟩
  · refine ⟨r', ⟨hst.pos, (hg.reign t ht) ▸ hst.reign, hst.le, ?_⟩, rfl, rfl⟩
    rcases hst.evidence with hl | ⟨m, hm, hk⟩
    · exact Or.inl hl
    · exact Or.inr ⟨m, hold m hm, hk⟩

theorem Vouches.of_growth {p : NodeId} {l : List LogEntry} {u : Nat} (hg : Growth i v h v' h')
    (hd : Durable S v h) (hle : u ≤ (v.core p).term) (hv : Vouches v h p l u) :
    Vouches v' h' p l u := by
  intro t r' k htu hst hown
  rcases hst.of_growth hg hd with ⟨r, hold, htake, hbase⟩ | ⟨rfl, rfl⟩
  · rw [hbase] at hown
    rw [htake]
    rcases hv t r k htu hold hown with hlost | hdom
    · exact Or.inl (hlost.mono hg.advance.extend (Nat.le_refl _))
    · exact Or.inr hdom
  · omega

/-- Node `i` stays in its term.  What it keeps, and who chose a new reign, is
left to show. -/
theorem Durable.grow {core : Core} {ms : List Message} (hd : Durable S v h) (he : Election S v h)
    (hg : Growth i v h (v.set i core ms) h') (hvote : h'.vote = h.vote)
    (hterm : core.term = (v.core i).term)
    (hacked : ∀ m, Acceptance (v.set i core ms) i (v.core i).term m → i ∈ S.voters ∧
      0 < (v.core i).term ∧ ∃ r, h'.reign (v.core i).term = some r ∧ m.index ≤ r.log.length)
    (hkept : ∀ t r k, Stored (v.set i core ms) h' i t r k →
      r.log.take k <+: core.log ∨ Lost h' t (core.term + 1) (r.log.take k))
    (hcand : core.state = .candidate → ∃ r, h'.reign core.term = some r)
    (hchosen : ∀ u s, 0 < u → h'.reign u = some s →
      (∃ s₀, h.reign u = some s₀ ∧ s.base = s₀.base) ∨
        ∃ q, Majority S.voters q ∧ ∀ p ∈ q, u ≤ (v.core p).term ∧ Vouches v h p s.base u)
    (hmatched : Matched v core) : Durable S (v.set i core ms) h' := by
  have hnet := net_subset_set v i core ms
  have hmono : ∀ j, (v.core j).term ≤ ((v.set i core ms).core j).term :=
    term_le_set (Nat.le_of_eq hterm.symm)
  refine ⟨fun p t m hm => ?_, fun p t r k hst => ?_, fun c p hc hnone hv => ?_,
    fun u s hu hs => ?_, fun j => ?_⟩
  · rcases hg.acceptance p t m hm with hold | ⟨rfl, rfl⟩
    · obtain ⟨hp, hpos, hle, r, hr, hm⟩ := hd.acked p t m hold
      obtain ⟨r', hr', -, hb, ho⟩ := hg.advance.extend.reign t r hr
      exact ⟨hp, hpos, Nat.le_trans hle (hmono p), r', hr',
        Nat.le_trans hm (log_isPrefix_log hb ho).length_le⟩
    · obtain ⟨hi, hpos, hr⟩ := hacked m hm
      exact ⟨hi, hpos, hmono p, hr⟩
  · by_cases hp : p = i
    · subst hp
      rw [View.set_core_self]
      exact hkept t r k hst
    · rw [View.set_core_ne v core ms hp]
      rcases hst.of_growth hg hd with ⟨r₀, hold, htake, -⟩ | ⟨hpi, -⟩
      · rw [htake]
        rcases hd.kept p t r₀ k hold with hheld | hlost
        · exact Or.inl hheld
        · exact Or.inr (hlost.mono hg.advance.extend (Nat.le_refl _))
      · exact absurd hpi hp
  · by_cases hci : c = i
    · subst hci
      rw [View.set_core_self] at hc hnone
      obtain ⟨r, hr⟩ := hcand hc
      rw [hr] at hnone
      exact absurd hnone (by simp)
    · rw [View.set_core_ne v core ms hci] at hc hnone hv ⊢
      rw [hvote] at hv
      have hnone' : h.reign (v.core c).term = none := by
        cases hr : h.reign (v.core c).term with
        | none => rfl
        | some r =>
          obtain ⟨r', hr', -⟩ := hg.advance.extend.reign _ r hr
          rw [hr'] at hnone
          exact absurd hnone (by simp)
      refine (hd.polled c p hc hnone' hv).of_growth hg hd ?_
      by_contra hlt
      rw [(he.standing p).future _ (by omega)] at hv
      exact absurd hv (by simp)
  · rcases hchosen u s hu hs with ⟨s₀, hs₀, hb⟩ | ⟨q, hq, hall⟩
    · obtain ⟨q, hq, hall⟩ := hd.chosen u s₀ hu hs₀
      refine ⟨q, hq, fun p hp => ⟨Nat.le_trans (hall p hp).1 (hmono p), ?_⟩⟩
      rw [hb]
      exact (hall p hp).2.of_growth hg hd (hall p hp).1
    · exact ⟨q, hq, fun p hp => ⟨Nat.le_trans (hall p hp).1 (hmono p),
        (hall p hp).2.of_growth hg hd (hall p hp).1⟩⟩
  · by_cases hj : j = i
    · subst hj
      rw [View.set_core_self]
      exact hmatched.mono hnet
    · rw [View.set_core_ne v core ms hj]
      exact (hd.matched j).mono hnet

/-- The reign of a leader that only appends to its log keeps all it stored. -/
theorem Durable.kept_leader {core : Core} {ms : List Message} {s : Reign NodeId LogEntry}
    (hd : Durable S v h) (hg : Growth i v h (v.set i core ms) h')
    (hreign : h'.reign (v.core i).term = some s) (hlog : core.log = s.log)
    (hpre : (v.core i).log <+: core.log) (hterm : core.term = (v.core i).term) :
    ∀ t r k, Stored (v.set i core ms) h' i t r k →
      r.log.take k <+: core.log ∨ Lost h' t (core.term + 1) (r.log.take k) := by
  intro t r k hst
  rcases hst.of_growth hg hd with ⟨r₀, hold, htake, -⟩ | ⟨-, rfl⟩
  · rw [htake, hterm]
    rcases hd.kept i t r₀ k hold with hheld | hlost
    · exact Or.inl (hheld.trans hpre)
    · exact Or.inr (hlost.mono hg.advance.extend (Nat.le_refl _))
  · obtain rfl := Option.some.inj (hst.reign.symm.trans hreign)
    rw [hlog]
    exact Or.inl (List.take_prefix _ _)

theorem Durable.lead {progress : NodeMap Progress} (hd : Durable S v h) (he : Election S v h)
    (hcand : (v.core i).state = .candidate)
    (hq : S.voters.length < 2 * (passing (v.core i).votes fun granted => granted).card)
    (hprogress : ∀ p pr, progress.lookup p = some pr → pr.matchIndex = 0) :
    Durable S (Move.apply v (.lead i progress)) (h.note v (.lead i progress)) := by
  have hst := he.standing i
  have hnone := he.reign_none hcand hq
  have hself := begin_self h.reign (v.core i).term
    { leader := i, base := (v.core i).log, own := [(v.core i).newEntry []] }
  have hg : Growth i v h (Move.apply v (.lead i progress)) (h.note v (.lead i progress)) :=
    ⟨advance_record (extends_begin hnone _) rfl, fun t ht => begin_ne h.reign _ ht,
      fun p t m hm => Or.inl (acceptance_set_old (by simp) p t m hm)⟩
  refine hd.grow he hg rfl rfl (fun m hm => ?_)
    (hd.kept_leader hg hself rfl (List.prefix_append _ _) rfl)
    (fun hs => absurd hs (by simp)) (fun u s _ hs => ?_)
    (fun _ p pr hp => Or.inl (hprogress p pr hp))
  · -- Nobody has accepted anything in a term without a reign.
    obtain ⟨-, -, -, r, hr, -⟩ := hd.acked i _ m (acceptance_set_old (by simp) i _ m hm)
    rw [hnone] at hr
    exact absurd hr (by simp)
  · by_cases hu : u = (v.core i).term
    · subst hu
      obtain rfl := Option.some.inj (hself.symm.trans hs)
      refine Or.inr ⟨passing (v.core i).votes fun granted => granted, ⟨fun p hp => ?_, hq⟩,
        fun p hp => ?_⟩ <;> obtain ⟨b, hlook, rfl⟩ := (mem_passing _ _).mp hp
      · exact (hst.counted hcand p hlook).1
      · have hvote := (hst.counted hcand p hlook).2
        refine ⟨?_, hd.polled i p hcand hnone hvote⟩
        by_contra hlt
        rw [(he.standing p).future _ (by omega)] at hvote
        exact absurd hvote (by simp)
    · left
      refine ⟨s, ?_, rfl⟩
      rw [← begin_ne h.reign _ hu]
      exact hs

theorem Durable.propose {data : List UInt8} (hd : Durable S v h) (he : Election S v h)
    (hl : Logs v h) (hlead : (v.core i).state = .leader) :
    Durable S (Move.apply v (.propose i data)) (h.note v (.propose i data)) := by
  have hst := he.standing i
  have hpos := (hst.candidacy (Or.inr hlead)).2.2
  obtain ⟨r, hr, hleader⟩ := hst.leading hlead
  have hlog := (hl.recorded i).own hpos r hr hleader
  have hself := begin_self h.reign (v.core i).term (r.enact ((v.core i).newEntry data))
  rw [Chronicle.note_propose hr]
  have hg : Growth i v h (Move.apply v (.propose i data))
      (h.record (v.core i).term (r.enact ((v.core i).newEntry data))) :=
    ⟨advance_record (extends_enact hr _) hleader, fun t ht => begin_ne h.reign _ ht,
      fun p t m hm => Or.inl (acceptance_set_old (by simp) p t m hm)⟩
  refine hd.grow he hg rfl rfl (fun m hm => ?_)
    (hd.kept_leader hg hself ?_ (List.prefix_append _ _) rfl)
    (fun hs => absurd (hlead.symm.trans hs) (by simp)) (fun u s _ hs => ?_)
    (fun _ => hd.matched i hlead)
  · obtain ⟨hi, ht, hle, s, hs, hm⟩ :=
      hd.acked i _ m (acceptance_set_old (by simp) i _ m hm)
    obtain ⟨s', hs', -, hb, ho⟩ := hg.advance.extend.reign _ s hs
    exact ⟨hi, ht, s', hs', Nat.le_trans hm (log_isPrefix_log hb ho).length_le⟩
  · rw [enact_log, hlog]
  · left
    by_cases hu : u = (v.core i).term
    · subst hu
      obtain rfl := Option.some.inj (hself.symm.trans hs)
      exact ⟨r, hr, rfl⟩
    · refine ⟨s, ?_, rfl⟩
      rw [← begin_ne h.reign _ hu]
      exact hs

/-! ## Accepting an append under its guard -/

/-- Two prefixes of one log, the first no longer than the second. -/
theorem isPrefix_of_length_le {l a b : List LogEntry} (ha : a <+: l) (hb : b <+: l)
    (hle : a.length ≤ b.length) : a <+: b := List.prefix_of_prefix_length_le ha hb hle

/-- An append that keeps the tail cuts no stored prefix that the leader of its
term also has. -/
theorem KeepsTail.length_le {l l' lead pre : List LogEntry} {m : Message}
    (hk : KeepsTail l m) (hne : m.entries ≠ []) (hl' : l' = lead.take m.index ++ m.entries)
    (hindex : m.index ≤ lead.length) (hlead : l' <+: lead) (hpre : pre <+: l)
    (hpre' : pre <+: lead) : pre.length ≤ l'.length := by
  have hlen : l'.length = m.index + m.entries.length := by
    rw [hl', List.length_append, List.length_take, Nat.min_eq_left hindex]
  have hcount : 0 < m.entries.length := List.length_pos_iff.mpr hne
  by_contra hlt
  rcases hk with hshort | ⟨last, hlast, hdiff⟩
  · have := hpre.length_le
    omega
  · -- The last entry of the message is the leader's, and so is the one found there.
    have hget : l'[l'.length - 1]? = some last := by
      rw [← List.getLast?_eq_getElem?, hl', List.getLast?_append,
        show m.entries.getLast? = some last from hlast]
      rfl
    have hsame : l[l'.length - 1]? = some last := by
      have hlast' : lead[l'.length - 1]? = some last := by
        obtain ⟨tail, htail⟩ := hlead
        rw [← htail, List.getElem?_append_left (by omega)]
        exact hget
      have hpreget : pre[l'.length - 1]? = some last := by
        obtain ⟨tail, htail⟩ := hpre'
        rw [← htail, List.getElem?_append_left (by omega)] at hlast'
        exact hlast'
      obtain ⟨tail, htail⟩ := hpre
      rw [← htail, List.getElem?_append_left (by omega)]
      exact hpreget
    have hle := hpre.length_le
    obtain ⟨e, he, hterm⟩ := termAt_of_pos (show 0 < m.index + m.entries.length by omega)
      (show m.index + m.entries.length ≤ l.length by omega)
    rw [← hlen, hsame] at he
    rw [hterm, ← Option.some.inj he] at hdiff
    exact hdiff rfl

/-- The only new acceptance of an append is the one it sends. -/
theorem acceptance_append {m m' : Message} {p t : Nat} (hterm : m.term = (v.core i).term)
    (hm' : Acceptance (Move.apply v (.append i m)) p t m') :
    Acceptance v p t m' ∨ (p = i ∧ t = (v.core i).term ∧
      m'.index = (RaftNode.appendToLog (v.core i).log m).length) := by
  rcases List.mem_append.mp hm'.sent with hold | hnew
  · exact Or.inl ⟨hold, hm'.msgType, hm'.accepted, hm'.by_, hm'.term⟩
  · have hm₀ := List.mem_singleton.mp hnew
    refine Or.inr ⟨?_, ?_, ?_⟩
    · rw [← hm'.by_, hm₀]
      rfl
    · rw [← hm'.term, hm₀]
      exact hterm
    · rw [hm₀]
      rfl

theorem Durable.append {m : Message} (hd : Durable S v h) (he : Election S v h) (hl : Logs v h)
    (hm : (Move.append i m).Enabled S True v) :
    Durable S (Move.apply v (.append i m)) h := by
  obtain ⟨hi, hmem, htype, hto, hterm, hprev, hkeeps⟩ := hm
  obtain ⟨s, hs, hleader, hpos, hother, heq, hpre, hne, hindex⟩ :=
    hl.appendToLog_eq hmem htype hprev
  rw [hterm] at hs hpos
  have hnotled : s.leader ≠ i := by
    rw [hleader, ← hto]
    exact hother.symm
  have hg : Growth i v h (Move.apply v (.append i m)) h := by
    refine ⟨Advance.refl i h, fun _ _ => rfl, fun p t m' hm' => ?_⟩
    rcases acceptance_append hterm hm' with hold | ⟨hp, ht, -⟩
    · exact Or.inl hold
    · exact Or.inr ⟨hp, ht⟩
  refine hd.grow he hg rfl rfl (fun m' hm' => ?_) (fun t r k hst => ?_)
    (fun _ => ⟨s, hs⟩) (fun u s' _ hs' => Or.inl ⟨s', hs', rfl⟩) (hd.matched i)
  · refine ⟨hi, hpos, s, hs, ?_⟩
    rcases acceptance_append hterm hm' with hold | ⟨-, -, hidx⟩
    · obtain ⟨-, -, -, r, hr, hle⟩ := hd.acked i _ m' hold
      rw [hs] at hr
      obtain rfl := Option.some.inj hr
      exact hle
    · rw [hidx]
      exact hpre.length_le
  · show r.log.take k <+: RaftNode.appendToLog (v.core i).log m ∨
      Lost h t ((v.core i).term + 1) (r.log.take k)
    -- A stored prefix the leader of this term has as well survives the cut.
    have survive : r.log.take k <+: (v.core i).log → r.log.take k <+: s.log →
        r.log.take k <+: RaftNode.appendToLog (v.core i).log m := by
      intro hmine hhis
      exact isPrefix_of_length_le hhis hpre
        ((hkeeps trivial).length_le hne heq hindex hpre hmine hhis)
    have hold : Stored v h i t r k → r.log.take k <+: RaftNode.appendToLog (v.core i).log m ∨
        Lost h t ((v.core i).term + 1) (r.log.take k) := by
      intro hst'
      rcases hd.kept i t r k hst' with hheld | hlost
      · by_cases hbase : r.log.take k <+: s.log
        · exact Or.inl (survive hheld hbase)
        · -- The leader of this term never had it.
          refine Or.inr ⟨(v.core i).term, s, ?_, Nat.lt_succ_self _, hs, fun hb => ?_⟩
          · have hle : t ≤ (v.core i).term := by
              rcases hst'.evidence with hled | ⟨m', hm', -⟩
              · have hvote := (he.elected t r hst'.pos hst'.reign).1
                rw [hled] at hvote
                by_contra hlt
                rw [(he.standing i).future t (by omega)] at hvote
                exact absurd hvote (by simp)
              · exact (hd.acked i t m' hm').2.2.1
            have hne' : t ≠ (v.core i).term := by
              rintro rfl
              obtain rfl := Option.some.inj (hst'.reign.symm.trans hs)
              exact hbase (List.take_prefix _ _)
            omega
          · exact hbase (hb.trans s.base_isPrefix)
      · exact Or.inr hlost
    rcases hst.evidence with hled | ⟨m', hm', hk⟩
    · exact hold ⟨hst.pos, hst.reign, hst.le, Or.inl hled⟩
    · rcases acceptance_append hterm hm' with hacc' | ⟨-, rfl, hidx⟩
      · exact hold ⟨hst.pos, hst.reign, hst.le, Or.inr ⟨m', hacc', hk⟩⟩
      · obtain rfl := Option.some.inj (hst.reign.symm.trans hs)
        refine Or.inl (isPrefix_of_length_le (List.take_prefix _ _) hpre ?_)
        rw [List.length_take, ← hidx]
        exact Nat.le_trans (Nat.min_le_left _ _) hk

/-! ## The step lemma -/

theorem Durable.step {m : Move} (hd : Durable S v h) (he : Election S v h) (hl : Logs v h)
    (hm : m.Enabled S True v) : Durable S (m.apply v) (h.note v m) := by
  cases m with
  | send i ms =>
    refine hd.quiet_same rfl (Nat.le_refl _) (fun hs => ⟨hs, rfl⟩) (fun m hmem htype => ?_)
      (hd.matched i)
    have hsend := hm.2 m hmem
    rw [Sendable, htype] at hsend
    exact hsend
  | observe i term =>
    exact hd.quiet_same rfl (Nat.le_of_lt hm.2) (fun hs => absurd hs (by simp)) (by simp)
      (fun hs => absurd hs (by simp))
  | rest i state votes progress =>
    have hidle : state ≠ .candidate ∧ state ≠ .leader := by
      rcases hm.2 with rfl | rfl <;> simp
    exact hd.quiet_same rfl (Nat.le_refl _) (fun hs => absurd hs hidle.1) (by simp)
      (fun hs => absurd hs hidle.2)
  | campaign i requests => exact hd.campaign hl he (fun m hmem => (hm.2 m hmem).1)
  | grant i msg => exact hd.grant hl he hm
  | tally i msg =>
    exact hd.quiet_same rfl (Nat.le_refl _) (fun hs => ⟨hs, rfl⟩) (by simp) (hd.matched i)
  | lead i progress =>
    obtain ⟨-, hcand, hq, hprogress⟩ := hm
    exact hd.lead he hcand hq hprogress
  | append i msg => exact hd.append he hl hm
  | propose i data => exact hd.propose he hl hm.2
  | track i progress =>
    refine hd.quiet_same rfl (Nat.le_refl _) (fun hs => ⟨hs, rfl⟩) (by simp)
      (fun hlead p pr hp => ?_)
    rcases hm.2.2 p pr hp with hz | ⟨pr', hpr', hsame⟩ | hacc
    · exact Or.inl hz
    · rcases hd.matched i hlead p pr' hpr' with hz | ⟨m, hacc, heq⟩
      · exact Or.inl (hsame.symm.trans hz)
      · exact Or.inr ⟨m, hacc, heq.trans hsame⟩
    · exact Or.inr hacc

theorem Durable.init (S : Setup) : Durable S (Cluster.init S).view Chronicle.init := by
  have hacc : ∀ p t m, ¬ Acceptance (Cluster.init S).view p t m := by
    intro p t m hm
    have hsent := hm.sent
    simp [Cluster.view, Cluster.init] at hsent
  have hreign : ∀ t r, 0 < t → Chronicle.init.reign t = some r → False := by
    intro t r ht hr
    rw [show Chronicle.init.reign t = none from begin_ne (fun _ => none) _ (by omega)] at hr
    exact absurd hr (by simp)
  refine ⟨fun p t m hm => absurd hm (hacc p t m), fun p t r k hst =>
    (hreign t r hst.pos hst.reign).elim, fun c p hc => ?_, fun u s hu hs =>
    (hreign u s hu hs).elim, fun j hs => ?_⟩
  · simp [Cluster.view, Cluster.init, RaftNode.newWithConf, RaftNode.core] at hc
  · simp [Cluster.view, Cluster.init, RaftNode.newWithConf, RaftNode.core] at hs

/-! ## Commitment -/

/-- A majority stored the first `k` entries of the reign `r` of term `t`, the last
of them the reign's own. -/
structure Committed (S : Setup) (v : View) (h : Chronicle) (t : Nat)
    (r : Reign NodeId LogEntry) (k : Nat) : Prop where
  reign : h.reign t = some r
  pos : 0 < t
  le : k ≤ r.log.length
  own : r.base.length < k
  stored : ∃ q, Majority S.voters q ∧ ∀ p ∈ q, Stored v h p t r k

theorem Committed.mono {t k : Nat} {r : Reign NodeId LogEntry} (hc : Committed S v h t r k)
    (hx : h.Extends h') (hnet : ∀ m ∈ v.net, m ∈ v'.net) :
    ∃ r', Committed S v' h' t r' k ∧ r'.log.take k = r.log.take k := by
  obtain ⟨r', hr', hleader, hb, ho⟩ := hx.reign t r hc.reign
  have hlog := log_isPrefix_log hb ho
  obtain ⟨q, hq, hall⟩ := hc.stored
  refine ⟨r', ⟨hr', hc.pos, Nat.le_trans hc.le hlog.length_le, hb ▸ hc.own, q, hq,
    fun p hp => ?_⟩, take_log_eq hb ho hc.le⟩
  obtain ⟨r'', hst, -⟩ := (hall p hp).mono hx hnet
  obtain rfl := Option.some.inj (hr'.symm.trans hst.reign)
  exact hst

/-- Leader completeness: the base of every later reign starts with the committed
entries, since the majority that elected it shares a voter with the one that
stored them. -/
theorem Committed.base {t k u : Nat} {r s : Reign NodeId LogEntry} (hc : Committed S v h t r k)
    (hd : Durable S v h) (hl : Logs v h) (htu : t < u) (hs : h.reign u = some s) :
    r.log.take k <+: s.base := by
  have hown := hc.own
  refine completeness hl.sound hc.reign (by omega) hc.le (fun u s htu hs => ?_) u s htu hs
  obtain ⟨q, hq, hall⟩ := hc.stored
  obtain ⟨q', hq', hall'⟩ := hd.chosen u s (by omega) hs
  obtain ⟨p, hp, hp'⟩ := hq.inter hq'
  exact (hall' p hp').2 t r k htu (hall p hp) hc.own

/-- The peers at or past the quorum index are a majority, with the node itself. -/
theorem majority_quorumIndex {n : RaftNode} (hw : Wired S i n) (hpos : 0 < n.quorumIndex) :
    S.voters.length <
      2 * (insert i (passing n.progress fun pr => n.quorumIndex ≤ pr.matchIndex)).card := by
  have hnotin : i ∉ passing n.progress fun pr => n.quorumIndex ≤ pr.matchIndex := by
    intro hmem
    obtain ⟨pr, hlook, -⟩ := (mem_passing _ _).mp hmem
    rw [hw.self] at hlook
    exact absurd hlook (by simp)
  rw [Finset.card_insert_of_notMem hnotin, card_passing]
  obtain ⟨a, hrank⟩ : ∃ a, ((n.progress.entries.map (fun p => p.2.matchIndex) ++
      [n.lastIndex]).insertionSort (· ≥ ·))[n.quorumSize - 1]? = some a := by
    cases ha : ((n.progress.entries.map (fun p => p.2.matchIndex) ++
      [n.lastIndex]).insertionSort (· ≥ ·))[n.quorumSize - 1]? with
    | some a => exact ⟨a, rfl⟩
    | none =>
      have hzero : n.quorumIndex = 0 := by
        show List.getD _ _ _ = 0
        rw [List.getD_eq_getElem?_getD, ha]
        rfl
      omega
  have ha : a = n.quorumIndex := by
    show a = List.getD _ _ _
    rw [List.getD_eq_getElem?_getD, hrank]
    rfl
  subst ha
  have hrank' := rank_le_countP hrank
  rw [List.countP_append, List.countP_map, List.countP_singleton,
    List.countP_eq_length_filter] at hrank'
  have hsize : n.quorumSize - 1 = S.voters.length / 2 := by
    rw [RaftNode.quorumSize, hw.voters]
    rfl
  have hself : (if decide (n.quorumIndex ≤ n.lastIndex) = true then 1 else 0) ≤ 1 := by
    split <;> omega
  have hfilter : (n.progress.entries.filter
      ((fun x => decide (n.quorumIndex ≤ x)) ∘ fun p => p.2.matchIndex)).length =
      (n.progress.entries.filter (fun e => n.quorumIndex ≤ e.2.matchIndex)).length := rfl
  omega

/-- The acceptances a leader counts for a quorum index of its own term commit it. -/
theorem committed_of_quorum {n : RaftNode} (hd : Durable S v h) (he : Election S v h)
    (hl : Logs v h) (hn : v.core i = n.core) (hw : Wired S i n) (hlead : n.state = .leader)
    (hpos : 0 < n.quorumIndex) (hterm : n.logTerm n.quorumIndex = n.term) :
    ∃ r, Committed S v h n.term r n.quorumIndex ∧ r.log = n.log := by
  have hlead' : (v.core i).state = .leader := by
    rw [hn]
    exact hlead
  have hst := he.standing i
  obtain ⟨-, hi, hpos'⟩ := hst.candidacy (Or.inr hlead')
  obtain ⟨r, hr, hleader⟩ := hst.leading hlead'
  have hlog := (hl.recorded i).own hpos' r hr hleader
  have hmatched := hd.matched i hlead'
  have hfounded := (hl.recorded i).founded
  rw [hn] at hr hpos' hlog hmatched hfounded
  obtain ⟨hk, hle⟩ := termAt_pos hpos' hterm
  obtain ⟨e, hget, heq⟩ := termAt_of_pos hk hle
  have hown := hfounded.base_length_le hl.sound hr hget (heq.symm.trans hterm)
  have hler : n.quorumIndex ≤ r.log.length := hlog ▸ hle
  have hcount := majority_quorumIndex hw hpos
  refine ⟨r, ⟨hr, hpos', hler, by omega, _, ⟨fun p hp => ?_, hcount⟩, fun p hp => ?_⟩, hlog.symm⟩
  · rcases Finset.mem_insert.mp hp with rfl | hp
    · exact hi
    · obtain ⟨pr, hlook, htest⟩ := (mem_passing _ _).mp hp
      rw [decide_eq_true_eq] at htest
      rcases hmatched p pr hlook with hz | ⟨m, hacc, -⟩
      · omega
      · exact (hd.acked p _ m hacc).1
  · rcases Finset.mem_insert.mp hp with rfl | hp
    · exact ⟨hpos', hr, hler, Or.inl hleader⟩
    · obtain ⟨pr, hlook, htest⟩ := (mem_passing _ _).mp hp
      rw [decide_eq_true_eq] at htest
      rcases hmatched p pr hlook with hz | ⟨m, hacc, hidx⟩
      · omega
      · exact ⟨hpos', hr, hler, Or.inr ⟨m, hacc, by omega⟩⟩

end Raft
end RTDB
