import RTDB.Raft.Refine

/-!
# Elections

Why a term has one leader.  A voter's vote in a term is written in the chronicle
once, a counted vote is backed by it, and a reign begins only on a majority of
such votes.
-/

namespace RTDB
namespace Raft

open Quorum Reign

variable {S : Setup} {v : View} {h h' : Chronicle} {i : NodeId}

/-! ## The invariant -/

structure Standing (S : Setup) (h : Chronicle) (i : NodeId) (n : Core) : Prop where
  ballot : h.vote i n.term = if n.votedFor = 0 then none else some n.votedFor
  future : ∀ t, n.term < t → h.vote i t = none
  candidacy : n.state = .candidate ∨ n.state = .leader →
    n.votedFor = i ∧ i ∈ S.voters ∧ 0 < n.term
  counted : n.state = .candidate → ∀ p, n.votes.lookup p = some true →
    p ∈ S.voters ∧ h.vote p n.term = some i
  leading : n.state = .leader → ∃ r, h.reign n.term = some r ∧ r.leader = i
  unreigned : n.state = .candidate → ∀ r, h.reign n.term = some r → r.leader ≠ i

/-- What a message on the wire says about votes. -/
structure Honest (S : Setup) (v : View) (h : Chronicle) (m : Message) : Prop where
  granted : m.msgType = .voteResponse → m.reject = false →
    m.from_ ∈ S.voters ∧ h.vote m.from_ m.term = some m.to_
  requested : m.msgType = .requestVote →
    m.from_ ∈ S.voters ∧ m.to_ ≠ m.from_ ∧ m.term ≤ (v.core m.from_).term

/-- `l` was elected in term `t`, by its own vote among others. -/
def Elected (S : Setup) (h : Chronicle) (t : Nat) (l : NodeId) : Prop :=
  h.vote l t = some l ∧ ∃ q, Majority S.voters q ∧ ∀ p ∈ q, h.vote p t = some l

structure Election (S : Setup) (v : View) (h : Chronicle) : Prop where
  standing : ∀ i, Standing S h i (v.core i)
  honest : ∀ m ∈ v.net, Honest S v h m
  solicited : ∀ p t c, h.vote p t = some c → t ≤ (v.core c).term
  elected : ∀ t r, 0 < t → h.reign t = some r → Elected S h t r.leader
  genesis : h.reign 0 = some Raft.genesis

theorem Elected.mono {t : Nat} {l : NodeId} (he : Elected S h t l) (hx : h.Extends h') :
    Elected S h' t l := by
  obtain ⟨hself, q, hq, hvotes⟩ := he
  exact ⟨hx.vote _ _ _ hself, q, hq, fun p hp => hx.vote _ _ _ (hvotes p hp)⟩

/-- Two leaders elected in one term are one node. -/
theorem Elected.unique {t : Nat} {a b : NodeId} (ha : Elected S h t a) (hb : Elected S h t b) :
    a = b := by
  obtain ⟨-, p, hp, hpa⟩ := ha
  obtain ⟨-, q, hq, hqb⟩ := hb
  obtain ⟨x, hxp, hxq⟩ := hp.inter hq
  have heq := (hpa x hxp).symm.trans (hqb x hxq)
  exact Option.some.inj heq

/-! ## The frame of a move -/

/-- The chronicle moves on by votes of node `i` and reigns of node `i` only. -/
structure Advance (i : NodeId) (h h' : Chronicle) : Prop where
  extend : h.Extends h'
  others : ∀ p, p ≠ i → h'.vote p = h.vote p
  reigns : ∀ t r, h'.reign t = some r → h.reign t = some r ∨ r.leader = i

theorem Advance.refl (i : NodeId) (h : Chronicle) : Advance i h h :=
  ⟨.refl h, fun _ _ => rfl, fun _ _ hr => Or.inl hr⟩

/-- What the other nodes say stays true. -/
theorem Standing.frame {j : NodeId} {n : Core} (hs : Standing S h j n) (ha : Advance i h h')
    (hne : j ≠ i) : Standing S h' j n := by
  refine ⟨?_, ?_, hs.candidacy, ?_, ?_, ?_⟩
  · rw [ha.others j hne]
    exact hs.ballot
  · rw [ha.others j hne]
    exact hs.future
  · intro hcand p hp
    obtain ⟨hmem, hvote⟩ := hs.counted hcand p hp
    exact ⟨hmem, ha.extend.vote _ _ _ hvote⟩
  · intro hlead
    obtain ⟨r, hr, hleader⟩ := hs.leading hlead
    obtain ⟨r', hr', hleader', -⟩ := ha.extend.reign _ r hr
    exact ⟨r', hr', hleader'.trans hleader⟩
  · intro hcand r hr
    rcases ha.reigns _ r hr with hold | heq
    · exact hs.unreigned hcand r hold
    · rw [heq]
      exact hne.symm

theorem term_le_set {core : Core} {ms : List Message} (hterm : (v.core i).term ≤ core.term)
    (j : NodeId) : (v.core j).term ≤ ((v.set i core ms).core j).term := by
  by_cases hj : j = i
  · subst hj
    rw [View.set_core_self]
    exact hterm
  · rw [View.set_core_ne v core ms hj]

theorem Honest.mono {v' : View} {m : Message} (hm : Honest S v h m) (hx : h.Extends h')
    (hterm : ∀ j, (v.core j).term ≤ (v'.core j).term) : Honest S v' h' m := by
  refine ⟨fun htype hacc => ?_, fun htype => ?_⟩
  · obtain ⟨hmem, hvote⟩ := hm.granted htype hacc
    exact ⟨hmem, hx.vote _ _ _ hvote⟩
  · obtain ⟨hmem, hne, hle⟩ := hm.requested htype
    exact ⟨hmem, hne, Nat.le_trans hle (hterm _)⟩

/-- Node `i` moves to `core` and sends `ms`: what is left to show is about `i`,
its messages, and the votes and reigns that are new. -/
theorem Election.set {core : Core} {ms : List Message} (he : Election S v h)
    (ha : Advance i h h') (hs : Standing S h' i core) (hterm : (v.core i).term ≤ core.term)
    (hms : ∀ m ∈ ms, Honest S (v.set i core ms) h' m)
    (hvotes : ∀ p t c, h'.vote p t = some c →
      h.vote p t = some c ∨ t ≤ ((v.set i core ms).core c).term)
    (hreigns : ∀ t r, 0 < t → h'.reign t = some r →
      (∃ r₀, h.reign t = some r₀ ∧ r₀.leader = r.leader) ∨ Elected S h' t r.leader)
    (hgenesis : h'.reign 0 = h.reign 0) : Election S (v.set i core ms) h' := by
  refine ⟨fun j => ?_, fun m hm => ?_, fun p t c hv => ?_, fun t r ht hr => ?_, ?_⟩
  · by_cases hj : j = i
    · subst hj
      rw [View.set_core_self]
      exact hs
    · rw [View.set_core_ne v core ms hj]
      exact (he.standing j).frame ha hj
  · rcases List.mem_append.mp hm with hm | hm
    · exact (he.honest m hm).mono ha.extend (term_le_set hterm)
    · exact hms m hm
  · rcases hvotes p t c hv with hold | hnew
    · exact Nat.le_trans (he.solicited p t c hold) (term_le_set hterm c)
    · exact hnew
  · rcases hreigns t r ht hr with ⟨r₀, hr₀, heq⟩ | hnew
    · rw [← heq]
      exact (he.elected t r₀ ht hr₀).mono ha.extend
    · exact hnew
  · rw [hgenesis]
    exact he.genesis

theorem Election.set_same {core : Core} {ms : List Message} (he : Election S v h)
    (hs : Standing S h i core) (hterm : (v.core i).term ≤ core.term)
    (hms : ∀ m ∈ ms, Honest S (v.set i core ms) h m) : Election S (v.set i core ms) h :=
  he.set (Advance.refl i h) hs hterm hms (fun _ _ _ hv => Or.inl hv)
    (fun _ r _ hr => Or.inl ⟨r, hr, rfl⟩) rfl

/-- A message that neither grants nor asks for a vote. -/
theorem Honest.of_idle {m : Message} (hg : m.msgType = .voteResponse → m.reject = true)
    (hr : m.msgType ≠ .requestVote) : Honest S v h m := by
  refine ⟨fun htype hacc => ?_, fun htype => absurd htype hr⟩
  rw [hg htype] at hacc
  exact absurd hacc (by simp)

/-! ## Writing a vote -/

theorem recordVote_self (h : Chronicle) (i : NodeId) (t : Nat) (c : NodeId) :
    (h.recordVote i t c).vote i t = some c := by
  show Function.update h.vote i (Function.update (h.vote i) t (some c)) i t = some c
  rw [Function.update_self, Function.update_self]

theorem recordVote_other_term (h : Chronicle) (i : NodeId) {t u : Nat} (c : NodeId) (hne : u ≠ t) :
    (h.recordVote i t c).vote i u = h.vote i u := by
  show Function.update h.vote i (Function.update (h.vote i) t (some c)) i u = h.vote i u
  rw [Function.update_self, Function.update_of_ne hne]

theorem recordVote_other (h : Chronicle) {i p : NodeId} (t : Nat) (c : NodeId) (hne : p ≠ i) :
    (h.recordVote i t c).vote p = h.vote p := by
  show Function.update h.vote i (Function.update (h.vote i) t (some c)) p = h.vote p
  rw [Function.update_of_ne hne]

theorem vote_recordVote {p c c' : NodeId} {t u : Nat}
    (hv : (h.recordVote i t c).vote p u = some c') :
    h.vote p u = some c' ∨ (p = i ∧ u = t ∧ c' = c) := by
  by_cases hp : p = i
  · subst hp
    by_cases hu : u = t
    · subst hu
      rw [recordVote_self] at hv
      exact Or.inr ⟨rfl, rfl, (Option.some.inj hv).symm⟩
    · rw [recordVote_other_term h p c hu] at hv
      exact Or.inl hv
  · rw [recordVote_other h t c hp] at hv
    exact Or.inl hv

theorem advance_recordVote {t : Nat} {c : NodeId}
    (hfree : h.vote i t = none ∨ h.vote i t = some c) : Advance i h (h.recordVote i t c) := by
  refine ⟨⟨fun p u c' hv => ?_, .refl _⟩, fun p hp => recordVote_other h t c hp,
    fun _ _ hr => Or.inl hr⟩
  by_cases hp : p = i
  · subst hp
    by_cases hu : u = t
    · subst hu
      rw [hv] at hfree
      rcases hfree with hnone | hsome
      · exact absurd hnone (by simp)
      · rw [recordVote_self, hsome]
    · rw [recordVote_other_term h p c hu]
      exact hv
  · rw [recordVote_other h t c hp]
    exact hv

/-! ## Each move keeps the invariant -/

/-- A node that is neither candidate nor leader only has to account for its vote. -/
theorem Standing.of_idle {n : Core} (hc : n.state ≠ .candidate) (hl : n.state ≠ .leader)
    (hb : h.vote i n.term = if n.votedFor = 0 then none else some n.votedFor)
    (hf : ∀ t, n.term < t → h.vote i t = none) : Standing S h i n :=
  ⟨hb, hf, fun hs => absurd hs (not_or.mpr ⟨hc, hl⟩), fun hs => absurd hs hc,
    fun hs => absurd hs hl, fun hs => absurd hs hc⟩

theorem Election.send {ms : List Message} (he : Election S v h)
    (hms : ∀ m ∈ ms, Sendable v i m) : Election S (v.set i (v.core i) ms) h := by
  refine he.set_same (he.standing i) (Nat.le_refl _) (fun m hm => ?_)
  have hsend := hms m hm
  refine Honest.of_idle (fun htype => ?_) (fun htype => ?_)
  · rw [Sendable, htype] at hsend
    exact hsend
  · rw [Sendable, htype] at hsend
    exact hsend

theorem Election.observe {term : Nat} (he : Election S v h) (hlt : (v.core i).term < term) :
    Election S (Move.apply v (.observe i term)) h := by
  have hfuture := (he.standing i).future
  refine he.set_same (Standing.of_idle (by simp) (by simp) ?_ ?_) (Nat.le_of_lt hlt) (by simp)
  · rw [if_pos rfl]
    exact hfuture term hlt
  · intro t ht
    have ht' : term < t := ht
    exact hfuture t (by omega)

theorem Election.rest {state : RaftState} {votes : NodeMap Bool} {progress : NodeMap Progress}
    (he : Election S v h) (hstate : state = .follower ∨ state = .preCandidate) :
    Election S (Move.apply v (.rest i state votes progress)) h := by
  refine he.set_same (Standing.of_idle ?_ ?_ (he.standing i).ballot (he.standing i).future)
    (Nat.le_refl _) (by simp)
  · rcases hstate with rfl | rfl <;> simp
  · rcases hstate with rfl | rfl <;> simp

/-- A candidate of a fresh term has one vote, its own, and nobody reigns by it yet. -/
theorem Election.campaign {requests : List Message} (he : Election S v h) (hi : i ∈ S.voters)
    (hreq : ∀ m ∈ requests, m.msgType = .requestVote ∧ m.from_ = i ∧ m.to_ ≠ i ∧
      m.term = (v.core i).term + 1) :
    Election S (Move.apply v (.campaign i requests)) (h.note v (.campaign i requests)) := by
  have hfuture := (he.standing i).future
  have hne : i ≠ 0 := fun h0 => S.nonzero (h0 ▸ hi)
  show Election S (Move.apply v (.campaign i requests)) (h.recordVote i ((v.core i).term + 1) i)
  refine he.set (advance_recordVote (Or.inl (hfuture _ (by omega)))) ?_ (Nat.le_succ _)
    (fun m hm => ?_)
    (fun p t c hv => ?_) (fun _ r _ hr => Or.inl ⟨r, hr, rfl⟩) rfl
  · refine ⟨?_, fun t ht => ?_, fun _ => ⟨rfl, hi, Nat.succ_pos _⟩, fun _ p hp => ?_,
      fun hs => absurd hs (by simp), fun _ r hr hlead => ?_⟩
    · show (h.recordVote i ((v.core i).term + 1) i).vote i ((v.core i).term + 1) = _
      rw [recordVote_self, if_neg hne]
    · have ht' : (v.core i).term + 1 < t := ht
      rw [recordVote_other_term h i i (by omega)]
      exact hfuture t (by omega)
    · have hpi : p = i := by
        by_contra hp'
        rw [AList.lookup_insert_ne hp'] at hp
        exact absurd hp (by simp)
      subst hpi
      exact ⟨hi, recordVote_self h p _ p⟩
    · have hself := (he.elected _ r (Nat.succ_pos _) hr).1
      rw [hlead, hfuture _ (Nat.lt_succ_self _)] at hself
      exact absurd hself (by simp)
  · obtain ⟨htype, hfrom, hto, hterm⟩ := hreq m hm
    refine ⟨fun htype' => absurd (htype.symm.trans htype') (by simp), fun _ => ?_⟩
    rw [hfrom, View.set_core_self]
    exact ⟨hi, hto, Nat.le_of_eq hterm⟩
  · rcases vote_recordVote hv with hold | ⟨-, rfl, rfl⟩
    · exact Or.inl hold
    · right
      rw [View.set_core_self]

/-- A granted vote is the voter's only one in its term. -/
theorem Election.advance_grant {strict : Prop} {msg : Message} (he : Election S v h)
    (hm : (Move.grant i msg).Enabled S strict v) : Advance i h (h.note v (.grant i msg)) := by
  obtain ⟨-, hmem, htype, -, hterm, hfree, -⟩ := hm
  obtain ⟨hfrom, -⟩ := (he.honest msg hmem).requested htype
  have hfrom0 : msg.from_ ≠ 0 := fun h0 => S.nonzero (h0 ▸ hfrom)
  refine advance_recordVote ?_
  rw [hterm, (he.standing i).ballot]
  rcases hfree with h0 | hsame
  · rw [if_pos h0]
    exact Or.inl rfl
  · rw [hsame, if_neg hfrom0]
    exact Or.inr rfl

theorem Election.grant {strict : Prop} {msg : Message} (he : Election S v h)
    (hm : (Move.grant i msg).Enabled S strict v) :
    Election S (Move.apply v (.grant i msg)) (h.note v (.grant i msg)) := by
  have hadv := he.advance_grant hm
  obtain ⟨hi, hmem, htype, hto, hterm, -, hown, -⟩ := hm
  have hst := he.standing i
  obtain ⟨hfrom, hne, hle⟩ := (he.honest msg hmem).requested htype
  have hfrom0 : msg.from_ ≠ 0 := fun h0 => S.nonzero (h0 ▸ hfrom)
  have hidle : (v.core i).state ≠ .candidate ∧ (v.core i).state ≠ .leader :=
    ⟨fun hs => hown (hst.candidacy (Or.inl hs)).1, fun hs => hown (hst.candidacy (Or.inr hs)).1⟩
  show Election S (Move.apply v (.grant i msg)) (h.recordVote i msg.term msg.from_)
  refine he.set hadv
    (Standing.of_idle hidle.1 hidle.2 ?_ fun t ht => ?_) (Nat.le_refl _) (fun m hm => ?_)
    (fun p t c hv => ?_) (fun _ r _ hr => Or.inl ⟨r, hr, rfl⟩) rfl
  · show (h.recordVote i msg.term msg.from_).vote i (v.core i).term = _
    rw [← hterm, recordVote_self, if_neg hfrom0]
  · have ht' : (v.core i).term < t := ht
    rw [recordVote_other_term h i msg.from_ (by omega)]
    exact hst.future t ht
  · obtain rfl := List.mem_singleton.mp hm
    refine ⟨fun _ _ => ⟨hi, recordVote_self h i _ _⟩, fun htype' => absurd htype' ?_⟩
    show ¬ MessageType.voteResponse = .requestVote
    simp
  · rcases vote_recordVote hv with hold | ⟨-, rfl, rfl⟩
    · exact Or.inl hold
    · right
      rw [View.set_core_ne v _ _ (by rw [← hto]; exact hne.symm)]
      exact hle

theorem Election.tally {msg : Message} (he : Election S v h) (hmem : msg ∈ v.net)
    (htype : msg.msgType = .voteResponse) (hto : msg.to_ = i)
    (hterm : msg.term = (v.core i).term) (hcand : (v.core i).state = .candidate) :
    Election S (Move.apply v (.tally i msg)) h := by
  have hst := he.standing i
  refine he.set_same ⟨hst.ballot, hst.future, hst.candidacy, fun _ p hp => ?_, hst.leading,
    hst.unreigned⟩ (Nat.le_refl _) (by simp)
  have hp' : ((v.core i).votes.insert msg.from_ (!msg.reject)).lookup p = some true := hp
  by_cases hfrom : p = msg.from_
  · subst hfrom
    rw [AList.lookup_insert, Option.some.injEq, Bool.not_eq_true'] at hp'
    have hgranted := (he.honest msg hmem).granted htype hp'
    rw [hterm, hto] at hgranted
    exact hgranted
  · rw [AList.lookup_insert_ne hfrom] at hp'
    exact hst.counted hcand p hp'

/-! ## Reigns -/

theorem advance_record {t : Nat} {r : Reign NodeId LogEntry} (hx : Reign.Extends h.reign
    (h.record t r).reign) (hr : r.leader = i) : Advance i h (h.record t r) := by
  refine ⟨⟨fun _ _ _ hv => hv, hx⟩, fun _ _ => rfl, fun u s hs => ?_⟩
  by_cases hu : u = t
  · subst hu
    obtain rfl := Option.some.inj ((begin_self h.reign u r).symm.trans hs)
    exact Or.inr hr
  · left
    rw [← begin_ne h.reign r hu]
    exact hs

/-- The votes a candidate counted elect it. -/
theorem Standing.elected {n : Core} (hs : Standing S h i n) (hcand : n.state = .candidate)
    (hq : S.voters.length < 2 * (passing n.votes fun granted => granted).card) :
    Elected S h n.term i := by
  obtain ⟨hvoted, hi, -⟩ := hs.candidacy (Or.inl hcand)
  have hne : i ≠ 0 := fun h0 => S.nonzero (h0 ▸ hi)
  have hback : ∀ p ∈ passing n.votes fun granted => granted,
      p ∈ S.voters ∧ h.vote p n.term = some i := by
    intro p hp
    obtain ⟨b, hlook, rfl⟩ := (mem_passing _ _).mp hp
    exact hs.counted hcand p hlook
  refine ⟨?_, _, ⟨fun p hp => (hback p hp).1, hq⟩, fun p hp => (hback p hp).2⟩
  rw [hs.ballot, hvoted, if_neg hne]

/-- Nobody reigns in the term of a candidate that has a majority. -/
theorem Election.reign_none (he : Election S v h) (hcand : (v.core i).state = .candidate)
    (hq : S.voters.length < 2 * (passing (v.core i).votes fun granted => granted).card) :
    h.reign (v.core i).term = none := by
  have hst := he.standing i
  cases hr : h.reign (v.core i).term with
  | none => rfl
  | some r =>
    have hold := he.elected _ r (hst.candidacy (Or.inl hcand)).2.2 hr
    exact absurd (hold.unique (hst.elected hcand hq)) (hst.unreigned hcand r hr)

theorem Election.lead {progress : NodeMap Progress} (he : Election S v h)
    (hcand : (v.core i).state = .candidate)
    (hq : S.voters.length < 2 * (passing (v.core i).votes fun granted => granted).card) :
    Election S (Move.apply v (.lead i progress)) (h.note v (.lead i progress)) := by
  have hst := he.standing i
  have hpos := (hst.candidacy (Or.inl hcand)).2.2
  have hnone := he.reign_none hcand hq
  show Election S (Move.apply v (.lead i progress)) (h.record (v.core i).term
    { leader := i, base := (v.core i).log, own := [(v.core i).newEntry []] })
  refine he.set
    (advance_record (extends_begin hnone _) rfl)
    ⟨hst.ballot, hst.future, fun _ => hst.candidacy (Or.inl hcand),
      fun hs => absurd hs (by simp), fun _ => ⟨_, begin_self _ _ _, rfl⟩,
      fun hs => absurd hs (by simp)⟩
    (Nat.le_refl _) (by simp) (fun _ _ _ hv => Or.inl hv) (fun t r _ hr => ?_) ?_
  · by_cases ht : t = (v.core i).term
    · subst ht
      obtain rfl := Option.some.inj ((begin_self h.reign _ _).symm.trans hr)
      exact Or.inr (hst.elected hcand hq)
    · left
      refine ⟨r, ?_, rfl⟩
      rw [← begin_ne h.reign _ ht]
      exact hr
  · exact begin_ne h.reign _ (by omega)

theorem Election.propose {data : List UInt8} (he : Election S v h)
    (hlead : (v.core i).state = .leader) :
    Election S (Move.apply v (.propose i data)) (h.note v (.propose i data)) := by
  have hst := he.standing i
  have hpos := (hst.candidacy (Or.inr hlead)).2.2
  obtain ⟨r, hr, hleader⟩ := hst.leading hlead
  rw [Chronicle.note_propose hr]
  refine he.set (advance_record (extends_enact hr _) hleader)
    ⟨hst.ballot, hst.future, hst.candidacy, fun hs => absurd (hlead.symm.trans hs) (by simp),
      fun _ => ⟨_, begin_self _ _ _, hleader⟩, fun hs => absurd (hlead.symm.trans hs) (by simp)⟩
    (Nat.le_refl _) (by simp) (fun _ _ _ hv => Or.inl hv) (fun t s _ hs => ?_) ?_
  · left
    by_cases ht : t = (v.core i).term
    · subst ht
      obtain rfl := Option.some.inj ((begin_self h.reign _ _).symm.trans hs)
      exact ⟨r, hr, rfl⟩
    · refine ⟨s, ?_, rfl⟩
      rw [← begin_ne h.reign _ ht]
      exact hs
  · exact begin_ne h.reign _ (by omega)

/-! ## The step lemma -/

/-- A move that writes no history and changes neither term, vote, role nor
counted votes. -/
theorem Election.quiet {core : Core} {ms : List Message} (he : Election S v h)
    (hterm : core.term = (v.core i).term) (hvoted : core.votedFor = (v.core i).votedFor)
    (hstate : core.state = (v.core i).state) (hvotes : core.votes = (v.core i).votes)
    (hms : ∀ m ∈ ms, Honest S (v.set i core ms) h m) : Election S (v.set i core ms) h := by
  have hst := he.standing i
  refine he.set_same ⟨?_, ?_, ?_, ?_, ?_, ?_⟩ (Nat.le_of_eq hterm.symm) hms
  · rw [hterm, hvoted]
    exact hst.ballot
  · rw [hterm]
    exact hst.future
  · rw [hterm, hvoted, hstate]
    exact hst.candidacy
  · rw [hterm, hstate, hvotes]
    exact hst.counted
  · rw [hterm, hstate]
    exact hst.leading
  · rw [hterm, hstate]
    exact hst.unreigned

theorem Election.step {strict : Prop} {m : Move} (he : Election S v h)
    (hm : m.Enabled S strict v) : Election S (m.apply v) (h.note v m) := by
  cases m with
  | send i ms => exact he.send hm.2
  | observe i term => exact he.observe hm.2
  | rest i state votes progress => exact he.rest hm.2
  | campaign i requests => exact he.campaign hm.1 hm.2
  | grant i msg => exact he.grant hm
  | tally i msg =>
    obtain ⟨-, hmem, htype, hto, hterm, hcand⟩ := hm
    exact he.tally hmem htype hto hterm hcand
  | lead i progress =>
    obtain ⟨-, hcand, hq, -⟩ := hm
    exact he.lead hcand hq
  | append i msg =>
    refine he.quiet rfl rfl rfl rfl (fun m hmem => ?_)
    obtain rfl := List.mem_singleton.mp hmem
    exact Honest.of_idle (by simp [acceptanceOf]) (by simp [acceptanceOf])
  | propose i data => exact he.propose hm.2
  | track i progress => exact he.quiet rfl rfl rfl rfl (by simp)

theorem Election.extends_note {strict : Prop} {m : Move} (he : Election S v h)
    (hm : m.Enabled S strict v) : h.Extends (h.note v m) := by
  cases m with
  | campaign i requests =>
    exact (advance_recordVote (Or.inl ((he.standing i).future _ (Nat.lt_succ_self _)))).extend
  | grant i msg => exact (he.advance_grant hm).extend
  | lead i progress =>
    obtain ⟨-, hcand, hq, -⟩ := hm
    exact ⟨fun _ _ _ hv => hv, extends_begin (he.reign_none hcand hq) _⟩
  | propose i data =>
    obtain ⟨r, hr, -⟩ := (he.standing i).leading hm.2
    rw [Chronicle.note_propose hr]
    exact ⟨fun _ _ _ hv => hv, extends_enact hr _⟩
  | send _ _ => exact .refl h
  | observe _ _ => exact .refl h
  | rest _ _ _ _ => exact .refl h
  | tally _ _ => exact .refl h
  | append _ _ => exact .refl h
  | track _ _ => exact .refl h

theorem Election.init (S : Setup) : Election S (Cluster.init S).view Chronicle.init := by
  have hreign : ∀ t r, 0 < t → Chronicle.init.reign t = some r → False := by
    intro t r ht hr
    rw [show Chronicle.init.reign t = none from begin_ne (fun _ => none) _ (by omega)] at hr
    exact absurd hr (by simp)
  have hgenesis : Chronicle.init.reign 0 = some Raft.genesis := begin_self (fun _ => none) 0 _
  refine ⟨fun i => ?_, fun m hm => absurd hm (by simp [Cluster.view, Cluster.init]),
    fun p t c hv => absurd hv (by simp [Chronicle.init]),
    fun t r ht hr => (hreign t r ht hr).elim, hgenesis⟩
  exact Standing.of_idle (by simp [Cluster.view, Cluster.init, RaftNode.newWithConf, RaftNode.core])
    (by simp [Cluster.view, Cluster.init, RaftNode.newWithConf, RaftNode.core]) rfl (fun _ _ => rfl)

end Raft
end RTDB
