import Mathlib.Data.List.Infix
import Mathlib.Logic.Function.Basic

/-!
# Reigns and the logs they leave behind

A replicated log grows under leaders that succeed each other.  The leader of a
term starts from the log it had when it was elected and appends entries of its
own term.  A `Reign` records both parts.  The annals record at most one reign
for each term, and a log is `Founded` on the annals when each of its entries sits
where the leader of that entry's term put it, behind the same entries.

Founded logs that agree on the term of one position agree up to there.  An entry
that enough voters stored survives in the base of each later reign provided each
of them was elected by a voter whose stored entries its base dominates; this is
`completeness`, and its proof is an induction over terms alone.
-/

namespace RTDB

/-- The rule of one leader: the log it was elected with, and what it added. -/
structure Reign (N E : Type*) where
  leader : N
  base : List E
  own : List E

namespace Reign

variable {N E : Type*}

def log (r : Reign N E) : List E := r.base ++ r.own

theorem base_isPrefix (r : Reign N E) : r.base <+: r.log := List.prefix_append _ _

/-- At most one reign for each term. -/
abbrev Annals (N E : Type*) := Nat → Option (Reign N E)

/-! ## Growth of the annals -/

def Extends (h h' : Annals N E) : Prop :=
  ∀ t r, h t = some r →
    ∃ r', h' t = some r' ∧ r'.leader = r.leader ∧ r'.base = r.base ∧ r.own <+: r'.own

theorem Extends.refl (h : Annals N E) : Extends h h :=
  fun _ r hr => ⟨r, hr, rfl, rfl, List.prefix_rfl⟩

theorem Extends.trans {h₁ h₂ h₃ : Annals N E} (h₁₂ : Extends h₁ h₂) (h₂₃ : Extends h₂ h₃) :
    Extends h₁ h₃ := by
  intro t r hr
  obtain ⟨r₂, hr₂, hl₂, hb₂, ho₂⟩ := h₁₂ t r hr
  obtain ⟨r₃, hr₃, hl₃, hb₃, ho₃⟩ := h₂₃ t r₂ hr₂
  exact ⟨r₃, hr₃, hl₃.trans hl₂, hb₃.trans hb₂, ho₂.trans ho₃⟩

theorem log_isPrefix_log {r r' : Reign N E} (hb : r'.base = r.base) (ho : r.own <+: r'.own) :
    r.log <+: r'.log := by
  rw [log, log, hb]
  exact (List.prefix_append_right_inj _).mpr ho

def begin (h : Annals N E) (t : Nat) (r : Reign N E) : Annals N E := Function.update h t (some r)

theorem begin_self (h : Annals N E) (t : Nat) (r : Reign N E) : begin h t r t = some r := by
  rw [begin, Function.update_self]

theorem begin_ne (h : Annals N E) {t u : Nat} (r : Reign N E) (hne : u ≠ t) :
    begin h t r u = h u := by
  rw [begin, Function.update_of_ne hne]

theorem extends_begin {h : Annals N E} {t : Nat} (hnone : h t = none) (r : Reign N E) :
    Extends h (begin h t r) := by
  intro u s hs
  have hne : u ≠ t := by
    rintro rfl
    rw [hnone] at hs
    exact absurd hs (by simp)
  exact ⟨s, by rw [begin_ne h r hne, hs], rfl, rfl, List.prefix_rfl⟩

/-- A reign with one more entry of its own. -/
def enact (r : Reign N E) (e : E) : Reign N E := { r with own := r.own ++ [e] }

theorem enact_log (r : Reign N E) (e : E) : (r.enact e).log = r.log ++ [e] := by
  simp [enact, log]

theorem extends_enact {h : Annals N E} {t : Nat} {r : Reign N E} (hr : h t = some r) (e : E) :
    Extends h (begin h t (r.enact e)) := by
  intro u s hs
  by_cases hut : u = t
  · subst hut
    obtain rfl : r = s := Option.some.inj (hr.symm.trans hs)
    exact ⟨r.enact e, begin_self h u _, rfl, rfl, List.prefix_append _ _⟩
  · exact ⟨s, by rw [begin_ne h _ hut, hs], rfl, rfl, List.prefix_rfl⟩

/-! ## Founded logs -/

section Founded

variable (termOf : E → Nat)

/-- Each entry sits where the leader of its term put it, behind the same entries. -/
def Founded (h : Annals N E) (l : List E) : Prop :=
  ∀ k e, l[k]? = some e → ∃ r, h (termOf e) = some r ∧ l.take (k + 1) <+: r.log

/-- The base of a reign is founded and older than the reign; its own entries
carry its term. -/
structure Sound (h : Annals N E) : Prop where
  founded : ∀ {t r}, h t = some r → Founded termOf h r.base
  base_term : ∀ {t r}, h t = some r → ∀ e ∈ r.base, termOf e < t
  own_term : ∀ {t r}, h t = some r → ∀ e ∈ r.own, termOf e = t

variable {termOf} {h h' : Annals N E} {l l' : List E}

theorem Founded.nil : Founded termOf h ([] : List E) := by
  intro k e hk
  simp at hk

theorem Founded.mono (hx : Extends h h') (hl : Founded termOf h l) : Founded termOf h' l := by
  intro k e hk
  obtain ⟨r, hr, hpre⟩ := hl k e hk
  obtain ⟨r', hr', _, hb, ho⟩ := hx _ r hr
  exact ⟨r', hr', hpre.trans (log_isPrefix_log hb ho)⟩

theorem Founded.of_isPrefix (hl : Founded termOf h l) (hp : l' <+: l) : Founded termOf h l' := by
  intro k e hk
  obtain ⟨tail, rfl⟩ := hp
  have hlt : k < l'.length := (List.getElem?_eq_some_iff.mp hk).1
  obtain ⟨r, hr, hpre⟩ := hl k e (by rw [List.getElem?_append_left hlt]; exact hk)
  rw [List.take_append_of_le_length (by omega)] at hpre
  exact ⟨r, hr, hpre⟩

theorem Sound.log_term_le (hs : Sound termOf h) {t : Nat} {r : Reign N E} (hr : h t = some r)
    {e : E} (he : e ∈ r.log) : termOf e ≤ t := by
  rcases List.mem_append.mp he with he | he
  · exact Nat.le_of_lt (hs.base_term hr e he)
  · exact Nat.le_of_eq (hs.own_term hr e he)

/-- The log of a leader is founded: its base is, and its own entries stand in
its own log. -/
theorem Sound.log_founded (hs : Sound termOf h) {t : Nat} {r : Reign N E} (hr : h t = some r) :
    Founded termOf h r.log := by
  intro k e hk
  rcases Nat.lt_or_ge k r.base.length with hlt | hge
  · have hk' : r.base[k]? = some e := by
      rw [log, List.getElem?_append_left hlt] at hk
      exact hk
    obtain ⟨s, hsome, hpre⟩ := hs.founded hr k e hk'
    refine ⟨s, hsome, ?_⟩
    rw [log, List.take_append_of_le_length (by omega)]
    exact hpre
  · have hown : e ∈ r.own := by
      rw [log, List.getElem?_append_right hge] at hk
      exact List.mem_of_getElem? hk
    rw [hs.own_term hr e hown]
    exact ⟨r, hr, List.take_prefix _ _⟩

/-- Log matching: one position with equal terms makes two founded logs equal up
to it. -/
theorem Founded.take_eq (hl : Founded termOf h l) (hl' : Founded termOf h l') {k : Nat} {e e' : E}
    (hk : l[k]? = some e) (hk' : l'[k]? = some e') (hterm : termOf e = termOf e') :
    l.take (k + 1) = l'.take (k + 1) := by
  obtain ⟨r, hr, hpre⟩ := hl k e hk
  obtain ⟨r', hr', hpre'⟩ := hl' k e' hk'
  rw [hterm] at hr
  obtain rfl : r = r' := Option.some.inj (hr.symm.trans hr')
  have hlen : (l.take (k + 1)).length = (l'.take (k + 1)).length := by
    have h₁ := (List.getElem?_eq_some_iff.mp hk).1
    have h₂ := (List.getElem?_eq_some_iff.mp hk').1
    rw [List.length_take, List.length_take]
    omega
  rw [List.prefix_iff_eq_take.mp hpre, List.prefix_iff_eq_take.mp hpre', hlen]

/-- The entry a founded log holds at a position of a reign's own term is the
leader's, and so is everything before it. -/
theorem Founded.take_isPrefix (hl : Founded termOf h l) {t k : Nat} {r : Reign N E} {e : E}
    (hr : h t = some r) (hk : l[k]? = some e) (hterm : termOf e = t) :
    l.take (k + 1) <+: r.log := by
  obtain ⟨r', hr', hpre⟩ := hl k e hk
  rw [hterm, hr] at hr'
  obtain rfl := Option.some.inj hr'
  exact hpre

/-- Terms never fall along a founded log. -/
theorem Founded.term_mono (hs : Sound termOf h) (hl : Founded termOf h l) {i j : Nat} {a b : E}
    (hij : i ≤ j) (ha : l[i]? = some a) (hb : l[j]? = some b) : termOf a ≤ termOf b := by
  obtain ⟨r, hr, hpre⟩ := hl j b hb
  refine hs.log_term_le hr (hpre.subset ?_)
  have hi : (l.take (j + 1))[i]? = some a := by
    rw [List.getElem?_take_of_lt (by omega)]
    exact ha
  exact List.mem_of_getElem? hi

/-- An entry of a reign's term lies behind the base of the reign. -/
theorem Founded.base_length_le (hs : Sound termOf h) (hl : Founded termOf h l) {t k : Nat}
    {r : Reign N E} {e : E} (hr : h t = some r) (hk : l[k]? = some e) (hterm : termOf e = t) :
    r.base.length ≤ k := by
  by_contra hlt
  have hpre := hl.take_isPrefix hr hk hterm
  have hke : r.log[k]? = some e := by
    have hkl : (l.take (k + 1))[k]? = some e := by
      rw [List.getElem?_take_of_lt (by omega)]
      exact hk
    obtain ⟨tail, htail⟩ := hpre
    rw [← htail, List.getElem?_append_left (List.getElem?_eq_some_iff.mp hkl).1]
    exact hkl
  rw [log, List.getElem?_append_left (by omega)] at hke
  have := hs.base_term hr e (List.mem_of_getElem? hke)
  omega

theorem Sound.begin (hs : Sound termOf h) {t : Nat} {r : Reign N E} (hnone : h t = none)
    (hf : Founded termOf h r.base) (hb : ∀ e ∈ r.base, termOf e < t)
    (ho : ∀ e ∈ r.own, termOf e = t) : Sound termOf (Reign.begin h t r) := by
  have hx := extends_begin hnone r
  refine ⟨fun {u s} hu => ?_, fun {u s} hu => ?_, fun {u s} hu => ?_⟩ <;> by_cases hut : u = t
  · subst hut
    obtain rfl := Option.some.inj ((begin_self h u r).symm.trans hu)
    exact hf.mono hx
  · rw [begin_ne h r hut] at hu
    exact (hs.founded hu).mono hx
  · subst hut
    obtain rfl := Option.some.inj ((begin_self h u r).symm.trans hu)
    exact hb
  · rw [begin_ne h r hut] at hu
    exact hs.base_term hu
  · subst hut
    obtain rfl := Option.some.inj ((begin_self h u r).symm.trans hu)
    exact ho
  · rw [begin_ne h r hut] at hu
    exact hs.own_term hu

theorem Sound.enact (hs : Sound termOf h) {t : Nat} {r : Reign N E} (hr : h t = some r) {e : E}
    (he : termOf e = t) : Sound termOf (Reign.begin h t (r.enact e)) := by
  have hx := extends_enact hr e
  refine ⟨fun {u s} hu => ?_, fun {u s} hu => ?_, fun {u s} hu => ?_⟩ <;> by_cases hut : u = t
  · subst hut
    obtain rfl := Option.some.inj ((begin_self h u _).symm.trans hu)
    exact (hs.founded hr).mono hx
  · rw [begin_ne h _ hut] at hu
    exact (hs.founded hu).mono hx
  · subst hut
    obtain rfl := Option.some.inj ((begin_self h u _).symm.trans hu)
    show ∀ a ∈ r.base, termOf a < u
    exact hs.base_term hr
  · rw [begin_ne h _ hut] at hu
    exact hs.base_term hu
  · subst hut
    obtain rfl := Option.some.inj ((begin_self h u _).symm.trans hu)
    intro a ha
    rcases List.mem_append.mp ha with ha | ha
    · exact hs.own_term hr a ha
    · rw [List.mem_singleton.mp ha]
      exact he
  · rw [begin_ne h _ hut] at hu
    exact hs.own_term hu

end Founded

/-! ## Up-to-dateness and completeness -/

section Completeness

variable (termOf : E → Nat)

def lastTermOf (l : List E) : Nat := (l.getLast?.map termOf).getD 0

/-- `l` reaches at least as far as an entry of term `t` at length `i` does. -/
def Dominates (l : List E) (t i : Nat) : Prop :=
  t < lastTermOf termOf l ∨ (lastTermOf termOf l = t ∧ i ≤ l.length)

/-- `l` is at least as up to date as `l'`: a later last term, or the same one
and no fewer entries. -/
def UpToDate (l l' : List E) : Prop :=
  lastTermOf termOf l' < lastTermOf termOf l ∨
    (lastTermOf termOf l' = lastTermOf termOf l ∧ l'.length ≤ l.length)

instance (l l' : List E) : Decidable (UpToDate termOf l l') :=
  inferInstanceAs (Decidable (_ ∨ _))

variable {termOf} {h : Annals N E} {l l' : List E}

theorem UpToDate.refl (l : List E) : UpToDate termOf l l := Or.inr ⟨rfl, Nat.le_refl _⟩

theorem Dominates.of_upToDate {t i : Nat} (hu : UpToDate termOf l l')
    (hd : Dominates termOf l' t i) : Dominates termOf l t i := by
  unfold UpToDate at hu
  unfold Dominates at hd ⊢
  omega

theorem lastTermOf_eq {e : E} (he : l[l.length - 1]? = some e) :
    lastTermOf termOf l = termOf e := by
  rw [lastTermOf, List.getLast?_eq_getElem?, he]
  rfl

theorem exists_last {l : List E} (hl : 0 < l.length) : ∃ e, l[l.length - 1]? = some e :=
  ⟨l[l.length - 1], List.getElem?_eq_getElem (by omega)⟩

/-- A founded log that holds the first `i` entries of a reign, the last of them
the reign's own, dominates that position. -/
theorem Founded.dominates (hs : Sound termOf h) (hl : Founded termOf h l) {t i : Nat}
    {r : Reign N E} (hr : h t = some r) (hown : r.base.length < i) (hi : i ≤ r.log.length)
    (hold : r.log.take i <+: l) : Dominates termOf l t i := by
  have hlen : i ≤ l.length := by
    have := hold.length_le
    rw [List.length_take] at this
    omega
  obtain ⟨a, hget⟩ : ∃ a, r.log[i - 1]? = some a := ⟨_, List.getElem?_eq_getElem (by omega)⟩
  have hterm : termOf a = t := by
    refine hs.own_term hr a ?_
    rw [log, List.getElem?_append_right (by omega)] at hget
    exact List.mem_of_getElem? hget
  have hgetl : l[i - 1]? = some a := by
    obtain ⟨tail, rfl⟩ := hold
    rw [List.getElem?_append_left (by rw [List.length_take]; omega),
      List.getElem?_take_of_lt (by omega)]
    exact hget
  obtain ⟨e, he⟩ := exists_last (l := l) (by omega)
  have hmono := hl.term_mono hs (i := i - 1) (j := l.length - 1) (by omega) hgetl he
  rw [hterm] at hmono
  rw [Dominates, lastTermOf_eq he]
  omega

/-- Entries of one reign that every later election had to dominate, unless an
earlier one already lost them, are in the base of every later reign. -/
theorem completeness (hs : Sound termOf h) {t i : Nat} {r : Reign N E} (hr : h t = some r)
    (hpos : 0 < i) (hi : i ≤ r.log.length)
    (helect : ∀ u s, t < u → h u = some s →
      (∃ w s', t < w ∧ w < u ∧ h w = some s' ∧ ¬ r.log.take i <+: s'.base) ∨
        Dominates termOf s.base t i) :
    ∀ u s, t < u → h u = some s → r.log.take i <+: s.base := by
  intro u
  induction u using Nat.strong_induction_on with
  | _ u ih =>
    intro s htu hu
    rcases helect u s htu hu with ⟨w, s', htw, hwu, hw, hlost⟩ | hdom
    · exact absurd (ih w hwu s' htw hw) hlost
    have hnonempty : 0 < s.base.length := by
      rcases hdom with hlt | ⟨_, hle⟩
      · by_contra hzero
        have hnil : s.base = [] := List.eq_nil_of_length_eq_zero (by omega)
        rw [lastTermOf, hnil] at hlt
        simp at hlt
      · omega
    obtain ⟨e, he⟩ := exists_last hnonempty
    obtain ⟨s', hs', hpre⟩ := hs.founded hu _ e he
    rw [Nat.sub_add_cancel hnonempty, List.take_length] at hpre
    rw [Dominates, lastTermOf_eq he] at hdom
    rcases hdom with hlater | ⟨hsame, hle⟩
    · -- The base ends in a later reign, which by induction started from the entries.
      have hlt : termOf e < u := hs.base_term hu e (List.mem_of_getElem? he)
      have hbase := ih (termOf e) hlt s' hlater hs'
      have hlonger := (hs.founded hu).base_length_le hs hs' he rfl
      exact hbase.trans (List.prefix_of_prefix_length_le s'.base_isPrefix hpre (by omega))
    · -- The base ends in the same reign and is long enough.
      rw [hsame, hr] at hs'
      obtain rfl := Option.some.inj hs'
      refine List.prefix_of_prefix_length_le (List.take_prefix _ _) hpre ?_
      rw [List.length_take]
      omega

end Completeness

end Reign
end RTDB
