import RTDB.Raft.Election

/-!
# Logs

Why logs match.  Every log is founded on the chronicle's reigns, every append
message is a slice of the log of its term's leader, and a follower that accepts
one holds a prefix of that leader's log afterwards: the term compared at the
previous index is the sender's own, so the entry found there is the sender's too.
-/

namespace RTDB
namespace Raft

open Quorum Reign

variable {S : Setup} {v : View} {h h' : Chronicle} {i : NodeId}

/-- Entries carry their own positions. -/
def Indexed (l : List LogEntry) : Prop := ∀ k e, l[k]? = some e → e.index = k + 1

theorem Indexed.of_isPrefix {l l' : List LogEntry} (hl : Indexed l) (hp : l' <+: l) :
    Indexed l' := by
  intro k e hk
  obtain ⟨tail, rfl⟩ := hp
  refine hl k e ?_
  rw [List.getElem?_append_left (List.getElem?_eq_some_iff.mp hk).1]
  exact hk

theorem Indexed.concat {l : List LogEntry} {e : LogEntry} (hl : Indexed l)
    (he : e.index = l.length + 1) : Indexed (l ++ [e]) := by
  intro k e' hk
  rcases Nat.lt_or_ge k l.length with hlt | hge
  · rw [List.getElem?_append_left hlt] at hk
    exact hl k e' hk
  · rw [List.getElem?_append_right hge] at hk
    have hlen := (List.getElem?_eq_some_iff.mp hk).1
    rw [List.length_singleton] at hlen
    obtain rfl : k = l.length := by omega
    rw [Nat.sub_self] at hk
    obtain rfl : e = e' := by simpa using hk
    exact he

/-! ## Positions of a log -/

theorem termAt_of_pos {log : List LogEntry} {k : Nat} (hk : 0 < k) (hle : k ≤ log.length) :
    ∃ e, log[k - 1]? = some e ∧ termAt log k = e.term := by
  have hget : log[k - 1]? = some log[k - 1] := List.getElem?_eq_getElem (by omega)
  refine ⟨log[k - 1], hget, ?_⟩
  rw [termAt, if_neg (show ¬ k = 0 by omega), if_neg (show ¬ log.length < k by omega), hget]
  rfl

theorem termAt_of_lt {log : List LogEntry} {k : Nat} (hlt : log.length < k) :
    termAt log k = 0 := by
  rw [termAt, if_neg (show ¬ k = 0 by omega), if_pos hlt]

theorem termAt_pos {log : List LogEntry} {k t : Nat} (ht : 0 < t) (hk : termAt log k = t) :
    0 < k ∧ k ≤ log.length := by
  refine ⟨?_, ?_⟩
  · by_contra hzero
    rw [termAt, if_pos (show k = 0 by omega)] at hk
    omega
  · by_contra hlt
    rw [termAt_of_lt (by omega)] at hk
    omega

/-! ## The invariant -/

/-- The log of node `i`, as history has it. -/
structure Recorded (h : Chronicle) (i : NodeId) (n : Core) : Prop where
  founded : Founded LogEntry.term h.reign n.log
  nonempty : n.log ≠ []
  bounded : ∀ e ∈ n.log, e.term ≤ n.term
  own : 0 < n.term → ∀ r, h.reign n.term = some r → r.leader = i → n.log = r.log

structure Faithful (h : Chronicle) (m : Message) : Prop where
  append : m.msgType = .appendEntries → ∃ r, h.reign m.term = some r ∧ r.leader = m.from_ ∧
    0 < m.term ∧ m.to_ ≠ m.from_ ∧ m.entries ≠ [] ∧ m.index ≤ r.log.length ∧
    m.entries <+: r.log.drop m.index
  heartbeat : m.msgType = .heartbeat → m.commit = 0 ∨
    ∃ r, h.reign m.term = some r ∧ r.leader = m.from_ ∧ m.to_ ≠ m.from_
  install : m.msgType ≠ .installSnapshot
  answer : m.msgType ≠ .snapshotResponse

structure Logs (v : View) (h : Chronicle) : Prop where
  sound : Sound LogEntry.term h.reign
  indexed : ∀ t r, h.reign t = some r → Indexed r.log
  recorded : ∀ i, Recorded h i (v.core i)
  faithful : ∀ m ∈ v.net, Faithful h m

theorem Logs.plain (hl : Logs v h) : Plain v :=
  ⟨fun i => (hl.recorded i).nonempty, fun m hm => (hl.faithful m hm).install,
    fun m hm => (hl.faithful m hm).answer⟩

theorem Recorded.indexed {n : Core} (hn : Recorded h i n)
    (hidx : ∀ t r, h.reign t = some r → Indexed r.log) : Indexed n.log := by
  intro k e hk
  obtain ⟨r, hr, hpre⟩ := hn.founded k e hk
  refine (hidx _ r hr).of_isPrefix hpre k e ?_
  rw [List.getElem?_take_of_lt (by omega)]
  exact hk

theorem Faithful.mono {m : Message} (hm : Faithful h m) (hx : h.Extends h') : Faithful h' m := by
  refine ⟨fun htype => ?_, fun htype => ?_, hm.install, hm.answer⟩
  · obtain ⟨r, hr, hleader, hpos, hto, hne, hindex, hslice⟩ := hm.append htype
    obtain ⟨r', hr', hleader', hb, ho⟩ := hx.reign _ r hr
    have hlog := log_isPrefix_log hb ho
    obtain ⟨tail, htail⟩ := hlog
    refine ⟨r', hr', hleader'.trans hleader, hpos, hto, hne, ?_, ?_⟩
    · rw [← htail, List.length_append]
      omega
    · rw [← htail, List.drop_append_of_le_length hindex]
      exact hslice.trans (List.prefix_append _ _)
  · rcases hm.heartbeat htype with hz | ⟨r, hr, hleader, hto⟩
    · exact Or.inl hz
    · obtain ⟨r', hr', hleader', -⟩ := hx.reign _ r hr
      exact Or.inr ⟨r', hr', hleader'.trans hleader, hto⟩

theorem Recorded.frame {j : NodeId} {n : Core} (hn : Recorded h j n) (ha : Advance i h h')
    (hne : j ≠ i) : Recorded h' j n := by
  refine ⟨hn.founded.mono ha.extend.reign, hn.nonempty, hn.bounded, fun hpos r hr hleader => ?_⟩
  rcases ha.reigns _ r hr with hold | hi
  · exact hn.own hpos r hold hleader
  · exact absurd (hleader.symm.trans hi) hne

theorem Logs.set {core : Core} {ms : List Message} (hl : Logs v h) (ha : Advance i h h')
    (hsound : Sound LogEntry.term h'.reign) (hidx : ∀ t r, h'.reign t = some r → Indexed r.log)
    (hcore : Recorded h' i core) (hms : ∀ m ∈ ms, Faithful h' m) : Logs (v.set i core ms) h' := by
  refine ⟨hsound, hidx, fun j => ?_, fun m hm => ?_⟩
  · by_cases hj : j = i
    · subst hj
      rw [View.set_core_self]
      exact hcore
    · rw [View.set_core_ne v core ms hj]
      exact (hl.recorded j).frame ha hj
  · rcases List.mem_append.mp hm with hm | hm
    · exact (hl.faithful m hm).mono ha.extend
    · exact hms m hm

theorem Logs.set_same {core : Core} {ms : List Message} (hl : Logs v h) (ha : Advance i h h')
    (hreign : h'.reign = h.reign) (hcore : Recorded h' i core) (hms : ∀ m ∈ ms, Faithful h' m) :
    Logs (v.set i core ms) h' := by
  refine hl.set ha ?_ ?_ hcore hms
  · rw [hreign]
    exact hl.sound
  · rw [hreign]
    exact hl.indexed

/-! ## Accepting an append -/

/-- Where the previous index is met, the log is the leader's up to there: the
term found there is the leader's own. -/
theorem PrevMatches.take_eq {l : List LogEntry} {m : Message} {r : Reign NodeId LogEntry}
    (hprev : PrevMatches l m) (hl : Founded LogEntry.term h.reign l)
    (hr : h.reign m.term = some r) (hpos : 0 < m.term) :
    m.index ≤ l.length ∧ l.take m.index = r.log.take m.index := by
  rcases hprev with hzero | hterm
  · rw [hzero]
    exact ⟨Nat.zero_le _, rfl⟩
  · obtain ⟨hk, hle⟩ := termAt_pos hpos hterm
    obtain ⟨e, hget, heq⟩ := termAt_of_pos hk hle
    have hpre := hl.take_isPrefix hr hget (heq.symm.trans hterm)
    rw [Nat.sub_add_cancel hk] at hpre
    have htake := List.prefix_iff_eq_take.mp hpre
    rw [List.length_take, Nat.min_eq_left hle] at htake
    exact ⟨hle, htake⟩

/-- A log that is another one up to the previous index holds that one, and the
message's slice of it, after the append. -/
theorem appendToLog_of_take {l l' : List LogEntry} {m : Message} (hidx : Indexed l')
    (hentries : m.entries ≠ []) (hslice : m.entries <+: l'.drop m.index) (hle : m.index ≤ l.length)
    (htake : l.take m.index = l'.take m.index) :
    RaftNode.appendToLog l m = l'.take m.index ++ m.entries := by
  have hkeep : truncateLog l (m.index + 1) = l'.take m.index := by
    rw [truncateLog, ← htake]
    split
    · rfl
    · rw [List.take_of_length_le (by omega)]
  have hfilter : m.entries.filter (fun entry => ¬ entry.index < m.index + 1) = m.entries := by
    rw [List.filter_eq_self]
    intro e he
    obtain ⟨j, hj, rfl⟩ := List.mem_iff_getElem.mp he
    have hget : l'[m.index + j]? = some m.entries[j] := by
      rw [← List.getElem?_drop]
      obtain ⟨tail, htail⟩ := hslice
      rw [← htail, List.getElem?_append_left hj, List.getElem?_eq_getElem hj]
    have hi := hidx _ _ hget
    rw [decide_eq_true_eq]
    omega
  have hfalse : ¬ m.entries.isEmpty = true := by
    rw [List.isEmpty_iff]
    exact hentries
  rw [RaftNode.appendToLog, if_neg hfalse, hkeep, hfilter]

/-- The log of a follower that accepts an append message: the leader's, up to
the previous index, and the message's entries behind it. -/
theorem appendToLog_eq {l : List LogEntry} {m : Message} {r : Reign NodeId LogEntry}
    (hl : Founded LogEntry.term h.reign l) (hidx : Indexed r.log) (hr : h.reign m.term = some r)
    (hpos : 0 < m.term) (hentries : m.entries ≠ []) (hslice : m.entries <+: r.log.drop m.index)
    (hprev : PrevMatches l m) :
    RaftNode.appendToLog l m = r.log.take m.index ++ m.entries := by
  obtain ⟨hle, htake⟩ := hprev.take_eq hl hr hpos
  exact appendToLog_of_take hidx hentries hslice hle htake

theorem take_append_slice_isPrefix {l s : List LogEntry} {k : Nat} (hs : s <+: l.drop k) :
    l.take k ++ s <+: l := by
  have hjoin : l.take k ++ l.drop k = l := List.take_append_drop k l
  conv_rhs => rw [← hjoin]
  exact (List.prefix_append_right_inj _).mpr hs

theorem Logs.appendToLog_eq {m : Message} (hl : Logs v h) (hmem : m ∈ v.net)
    (htype : m.msgType = .appendEntries) (hprev : PrevMatches (v.core i).log m) :
    ∃ r, h.reign m.term = some r ∧ r.leader = m.from_ ∧ 0 < m.term ∧ m.to_ ≠ m.from_ ∧
      RaftNode.appendToLog (v.core i).log m = r.log.take m.index ++ m.entries ∧
      RaftNode.appendToLog (v.core i).log m <+: r.log ∧ m.entries ≠ [] ∧
      m.index ≤ r.log.length := by
  obtain ⟨r, hr, hleader, hpos, hto, hne, hindex, hslice⟩ := (hl.faithful m hmem).append htype
  have hi := hl.recorded i
  have heq := Raft.appendToLog_eq hi.founded (hl.indexed _ r hr) hr hpos hne hslice hprev
  refine ⟨r, hr, hleader, hpos, hto, heq, ?_, hne, hindex⟩
  rw [heq]
  exact take_append_slice_isPrefix hslice

theorem Logs.append {m : Message} (hl : Logs v h) (hmem : m ∈ v.net)
    (htype : m.msgType = .appendEntries) (hto : m.to_ = i) (hterm : m.term = (v.core i).term)
    (hprev : PrevMatches (v.core i).log m) : Logs (Move.apply v (.append i m)) h := by
  obtain ⟨r, hr, hleader, -, hother, heq, hpre, hne, -⟩ := hl.appendToLog_eq hmem htype hprev
  refine hl.set_same (Advance.refl i h) rfl ⟨?_, ?_, fun e he => ?_, fun _ s hs hled => ?_⟩
    (fun m' hm' => ?_)
  · exact (hl.sound.log_founded hr).of_isPrefix hpre
  · show RaftNode.appendToLog (v.core i).log m ≠ []
    rw [heq]
    simp [hne]
  · have hle := hl.sound.log_term_le hr (hpre.subset he)
    show e.term ≤ (v.core i).term
    omega
  · -- The leader of the term does not send to itself.
    have hs' : h.reign (v.core i).term = some s := hs
    rw [← hterm, hr] at hs'
    obtain rfl := Option.some.inj hs'
    exact absurd (hto.trans (hled.symm.trans hleader)) hother
  · obtain rfl := List.mem_singleton.mp hm'
    refine ⟨?_, ?_, ?_, ?_⟩ <;> simp [acceptanceOf]

/-! ## The other moves -/

/-- A node in a term of its own making leads no reign. -/
theorem Standing.not_led {n : Core} (hs : Standing S h i n) {t : Nat} (ht : n.term < t)
    {r : Reign NodeId LogEntry} (he : Elected S h t r.leader) : r.leader ≠ i := by
  intro hlead
  have hself := he.1
  rw [hlead, hs.future t ht] at hself
  exact absurd hself (by simp)

/-- A node that enters a new term keeps its log. -/
theorem Recorded.newTerm {n n' : Core} {t : Nat} (hn : Recorded h i n) (hlog : n'.log = n.log)
    (ht : n.term < t) (hterm : n'.term = t) (hreign : h'.reign = h.reign)
    (hfree : ∀ r, h.reign t = some r → r.leader ≠ i) : Recorded h' i n' := by
  refine ⟨?_, ?_, fun e he => ?_, fun _ r hr hlead => ?_⟩
  · rw [hlog, hreign]
    exact hn.founded
  · rw [hlog]
    exact hn.nonempty
  · rw [hlog] at he
    have := hn.bounded e he
    omega
  · rw [hterm, hreign] at hr
    exact absurd hlead (hfree r hr)

theorem Recorded.keep {n n' : Core} (hn : Recorded h i n) (hlog : n'.log = n.log)
    (hterm : n'.term = n.term) (hreign : h'.reign = h.reign) : Recorded h' i n' := by
  refine ⟨?_, ?_, ?_, ?_⟩
  · rw [hlog, hreign]
    exact hn.founded
  · rw [hlog]
    exact hn.nonempty
  · rw [hlog, hterm]
    exact hn.bounded
  · rw [hlog, hterm, hreign]
    exact hn.own

theorem Authored.reign {m : Message} (he : Election S v h) (ha : Authored v i m) :
    ∃ r, h.reign m.term = some r ∧ r.leader = m.from_ ∧ 0 < m.term ∧ m.to_ ≠ m.from_ := by
  obtain ⟨r, hr, hleader⟩ := (he.standing i).leading ha.state
  have hpos := ((he.standing i).candidacy (Or.inr ha.state)).2.2
  rw [← ha.term] at hr hpos
  rw [ha.by_]
  exact ⟨r, hr, hleader, hpos, ha.other⟩

theorem Logs.faithful_of_sendable {m : Message} (hl : Logs v h) (he : Election S v h)
    (hm : Sendable v i m) : Faithful h m := by
  refine ⟨fun htype => ?_, fun htype => ?_, fun htype => ?_, fun htype => ?_⟩ <;>
    rw [Sendable, htype] at hm
  · obtain ⟨hauth, hne, hindex, hslice⟩ := hm
    obtain ⟨r, hr, hleader, hpos, hto⟩ := hauth.reign he
    have hlog : (v.core i).log = r.log := by
      refine (hl.recorded i).own ?_ r ?_ ?_
      · rw [← hauth.term]
        exact hpos
      · rw [← hauth.term]
        exact hr
      · rw [hleader]
        exact hauth.by_
    rw [hlog] at hindex hslice
    exact ⟨r, hr, hleader, hpos, hto, hne, hindex, hslice⟩
  · rcases hm with hz | hauth
    · exact Or.inl hz
    · obtain ⟨r, hr, hleader, -, hto⟩ := hauth.reign he
      exact Or.inr ⟨r, hr, hleader, hto⟩
  · exact hm
  · exact hm

theorem Logs.lead {progress : NodeMap Progress} (hl : Logs v h)
    (hnone : h.reign (v.core i).term = none) :
    Logs (Move.apply v (.lead i progress)) (h.note v (.lead i progress)) := by
  have hi := hl.recorded i
  have hx := extends_begin hnone
    { leader := i, base := (v.core i).log, own := [(v.core i).newEntry []] }
  -- An entry of the term itself would need a reign of the term.
  have hbase : ∀ e ∈ (v.core i).log, e.term < (v.core i).term := by
    intro e he
    obtain ⟨k, hk⟩ := List.mem_iff_getElem?.mp he
    obtain ⟨r, hr, -⟩ := hi.founded k e hk
    have hle := hi.bounded e he
    have hne : e.term ≠ (v.core i).term := by
      intro heq
      rw [heq, hnone] at hr
      exact absurd hr (by simp)
    omega
  have hsound := hl.sound.begin hnone (r :=
      { leader := i, base := (v.core i).log, own := [(v.core i).newEntry []] }) hi.founded hbase
    (fun e he => by rw [List.mem_singleton.mp he]; rfl)
  refine hl.set (advance_record hx rfl) hsound (fun t r hr => ?_) ⟨?_, ?_, fun e he => ?_, ?_⟩
    (by simp)
  · by_cases ht : t = (v.core i).term
    · subst ht
      obtain rfl := Option.some.inj ((begin_self h.reign _ _).symm.trans hr)
      exact (hi.indexed hl.indexed).concat rfl
    · refine hl.indexed t r ?_
      rw [← begin_ne h.reign _ ht]
      exact hr
  · exact hsound.log_founded (begin_self h.reign (v.core i).term _)
  · show (v.core i).log ++ [(v.core i).newEntry []] ≠ []
    simp
  · exact hsound.log_term_le (begin_self h.reign (v.core i).term _) he
  · intro _ r hr _
    obtain rfl := Option.some.inj ((begin_self h.reign _ _).symm.trans hr)
    rfl

theorem Logs.propose {data : List UInt8} (hl : Logs v h) (he : Election S v h)
    (hlead : (v.core i).state = .leader) :
    Logs (Move.apply v (.propose i data)) (h.note v (.propose i data)) := by
  have hi := hl.recorded i
  have hpos := ((he.standing i).candidacy (Or.inr hlead)).2.2
  obtain ⟨r, hr, hleader⟩ := (he.standing i).leading hlead
  have hlog := hi.own hpos r hr hleader
  have hnew : (v.core i).log ++ [(v.core i).newEntry data] =
      (r.enact ((v.core i).newEntry data)).log := by
    rw [enact_log, hlog]
  have hself := begin_self h.reign (v.core i).term (r.enact ((v.core i).newEntry data))
  have hsound := hl.sound.enact hr (e := (v.core i).newEntry data) rfl
  rw [Chronicle.note_propose hr]
  refine hl.set (advance_record (extends_enact hr _) hleader) hsound (fun t s hs => ?_)
    ⟨?_, ?_, fun e he => ?_, ?_⟩ (by simp)
  · by_cases ht : t = (v.core i).term
    · subst ht
      obtain rfl := Option.some.inj (hself.symm.trans hs)
      rw [← hnew]
      exact (hi.indexed hl.indexed).concat rfl
    · refine hl.indexed t s ?_
      rw [← begin_ne h.reign _ ht]
      exact hs
  · show Founded LogEntry.term _ ((v.core i).log ++ [(v.core i).newEntry data])
    rw [hnew]
    exact hsound.log_founded hself
  · show (v.core i).log ++ [(v.core i).newEntry data] ≠ []
    simp
  · have he' : e ∈ (v.core i).log ++ [(v.core i).newEntry data] := he
    rw [hnew] at he'
    exact hsound.log_term_le hself he'
  · intro _ s hs _
    obtain rfl := Option.some.inj (hself.symm.trans hs)
    exact hnew

theorem Logs.step {strict : Prop} {m : Move} (hl : Logs v h) (he : Election S v h)
    (hm : m.Enabled S strict v) : Logs (m.apply v) (h.note v m) := by
  cases m with
  | send i ms =>
    exact hl.set_same (Advance.refl i h) rfl (hl.recorded i)
      (fun m hmem => hl.faithful_of_sendable he (hm.2 m hmem))
  | observe i term =>
    refine hl.set_same (Advance.refl i h) rfl ((hl.recorded i).newTerm rfl hm.2 rfl rfl
      (fun r hr => (he.standing i).not_led hm.2 (he.elected term r ?_ hr))) (by simp)
    exact Nat.lt_of_le_of_lt (Nat.zero_le _) hm.2
  | rest i state votes progress =>
    exact hl.set_same (Advance.refl i h) rfl ((hl.recorded i).keep rfl rfl rfl) (by simp)
  | campaign i requests =>
    have hlt : (v.core i).term < (v.core i).term + 1 := Nat.lt_succ_self _
    refine hl.set_same (advance_recordVote (Or.inl ((he.standing i).future _ hlt))) rfl
      ((hl.recorded i).newTerm rfl hlt rfl rfl
        (fun r hr => (he.standing i).not_led hlt (he.elected _ r (Nat.succ_pos _) hr)))
      (fun m hmem => ?_)
    have htype := (hm.2 m hmem).1
    refine ⟨?_, ?_, ?_, ?_⟩ <;> simp [htype]
  | grant i msg =>
    refine hl.set_same (i := i) ?_ rfl ((hl.recorded i).keep rfl rfl rfl) (fun m hmem => ?_)
    · exact he.advance_grant hm
    · obtain rfl := List.mem_singleton.mp hmem
      refine ⟨?_, ?_, ?_, ?_⟩ <;> simp [grantTo]
  | tally i msg =>
    exact hl.set_same (Advance.refl i h) rfl ((hl.recorded i).keep rfl rfl rfl) (by simp)
  | lead i progress =>
    obtain ⟨-, hcand, hq, -⟩ := hm
    exact hl.lead (he.reign_none hcand hq)
  | append i msg =>
    obtain ⟨-, hmem, htype, hto, hterm, hprev, -⟩ := hm
    exact hl.append hmem htype hto hterm hprev
  | propose i data => exact hl.propose he hm.2
  | track i progress =>
    exact hl.set_same (Advance.refl i h) rfl ((hl.recorded i).keep rfl rfl rfl) (by simp)

theorem Logs.init (S : Setup) : Logs (Cluster.init S).view Chronicle.init := by
  have hreign : ∀ t r, Chronicle.init.reign t = some r → t = 0 ∧ r = Raft.genesis := by
    intro t r hr
    by_cases ht : t = 0
    · subst ht
      exact ⟨rfl, (Option.some.inj ((begin_self (fun _ => none) 0 _).symm.trans hr)).symm⟩
    · rw [show Chronicle.init.reign t = none from begin_ne (fun _ => none) _ ht] at hr
      exact absurd hr (by simp)
  have hgenesis : Chronicle.init.reign 0 = some Raft.genesis := begin_self (fun _ => none) 0 _
  have honly : ∀ k e, [LogEntry.new 1 0 []][k]? = some e → k = 0 ∧ LogEntry.new 1 0 [] = e := by
    intro k e hk
    obtain ⟨hlt, hget⟩ := List.getElem?_eq_some_iff.mp hk
    obtain rfl : k = 0 := Nat.lt_one_iff.mp hlt
    exact ⟨rfl, hget⟩
  refine ⟨⟨fun hr => ?_, fun hr => ?_, fun hr => ?_⟩, fun t r hr => ?_, fun i => ⟨?_, ?_, ?_, ?_⟩,
    fun m hm => absurd hm (by simp [Cluster.view, Cluster.init])⟩
  · obtain ⟨rfl, rfl⟩ := hreign _ _ hr
    exact Founded.nil
  · obtain ⟨rfl, rfl⟩ := hreign _ _ hr
    simp [Raft.genesis]
  · obtain ⟨rfl, rfl⟩ := hreign _ _ hr
    simp [Raft.genesis, LogEntry.new]
  · obtain ⟨rfl, rfl⟩ := hreign _ _ hr
    intro k e hk
    obtain ⟨rfl, rfl⟩ := honly k e hk
    rfl
  · intro k e hk
    obtain ⟨rfl, rfl⟩ := honly k e hk
    exact ⟨_, hgenesis, List.prefix_rfl⟩
  · exact List.cons_ne_nil _ _
  · intro e he
    rw [List.mem_singleton.mp he]
    exact Nat.le_refl _
  · exact fun hpos => absurd hpos (Nat.lt_irrefl 0)

end Raft
end RTDB
