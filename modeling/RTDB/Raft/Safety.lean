import RTDB.Raft.Completeness

/-!
# Safety over runs

The invariants of the last three modules hold of every cluster a run reaches,
with a chronicle that grows along the run.  Election safety and log matching are
read off them.
-/

namespace RTDB
namespace Raft

open Quorum Reign

variable {S : Setup} {es : List Event}

/-- Every event of the run meets its guards where it happens. -/
def GuardedRun (c : Cluster) : List Event → Prop
  | [] => True
  | e :: es => Guarded c e ∧ GuardedRun (c.apply e) es

instance decidableGuardedRun : (es : List Event) → (c : Cluster) → Decidable (GuardedRun c es)
  | [], _ => isTrue trivial
  | e :: es, c =>
    have := decidableGuardedRun es (c.apply e)
    inferInstanceAs (Decidable (Guarded c e ∧ GuardedRun (c.apply e) es))

/-- What is known of a reached cluster; the last part only under the guards. -/
structure Safe (S : Setup) (strict : Prop) (c : Cluster) (h : Chronicle) : Prop where
  wired : c.Wired S
  election : Election S c.view h
  logs : Logs c.view h
  durable : strict → Durable S c.view h

theorem Safe.init (S : Setup) (strict : Prop) : Safe S strict (Cluster.init S) Chronicle.init :=
  ⟨fun i => .init S i, .init S, .init S, fun _ => .init S⟩

/-! ## One event -/

/-- The invariants pass through a list of moves, and history grows. -/
theorem Moves.safe {strict : Prop} {v v' : View} {ms : List Move} {h : Chronicle}
    (he : Election S v h) (hl : Logs v h) (hd : strict → Durable S v h)
    (hms : Moves S strict v ms v') :
    ∃ h', h.Extends h' ∧ Election S v' h' ∧ Logs v' h' ∧ (strict → Durable S v' h') := by
  induction ms generalizing v h with
  | nil =>
    obtain rfl : v' = v := hms
    exact ⟨h, .refl h, he, hl, hd⟩
  | cons m rest ih =>
    obtain ⟨hm, hrest⟩ := hms
    have hd' : strict → Durable S (m.apply v) (h.note v m) := by
      intro hs
      have hm' : m.Enabled S True v := by
        have htrue : strict = True := propext ⟨fun _ => trivial, fun _ => hs⟩
        rw [htrue] at hm
        exact hm
      exact (hd hs).step he hl hm'
    obtain ⟨h', hx, hsafe⟩ := ih (he.step hm) (hl.step he hm) hd' hrest
    exact ⟨h', (he.extends_note hm).trans hx, hsafe⟩

theorem Safe.apply {strict : Prop} {c : Cluster} {h : Chronicle} {e : Event}
    (hs : Safe S strict c h) (he : Cluster.Enabled S c e) (hg : strict → Guarded c e) :
    ∃ h', h.Extends h' ∧ Safe S strict (c.apply e) h' := by
  obtain ⟨ms, hms⟩ := moves_of_event hs.wired hs.logs.plain he hg
  obtain ⟨h', hx, he', hl', hd'⟩ := hms.safe hs.election hs.logs hs.durable
  exact ⟨h', hx, hs.wired.apply e, he', hl', hd'⟩

theorem Cluster.net_subset_apply (c : Cluster) (e : Event) : ∀ m ∈ c.net, m ∈ (c.apply e).net := by
  cases e <;> exact fun _ hm => List.mem_append_left _ hm

/-! ## Runs -/

theorem Safe.run {strict : Prop} {c : Cluster} {h : Chronicle} (hs : Safe S strict c h)
    (hv : Cluster.Valid S c es) (hg : strict → GuardedRun c es) :
    ∃ h', h.Extends h' ∧ Safe S strict (c.run es) h' ∧ ∀ m ∈ c.net, m ∈ (c.run es).net := by
  induction es generalizing c h with
  | nil => exact ⟨h, .refl h, hs, fun _ hm => hm⟩
  | cons e rest ih =>
    obtain ⟨h₁, hx₁, hs₁⟩ := hs.apply hv.1 (fun hst => (hg hst).1)
    obtain ⟨h₂, hx₂, hs₂, hnet⟩ := ih hs₁ hv.2 (fun hst => (hg hst).2)
    exact ⟨h₂, hx₁.trans hx₂, hs₂, fun m hm => hnet m (c.net_subset_apply e m hm)⟩

theorem guardedRun_append {c : Cluster} {es es' : List Event} :
    GuardedRun c (es ++ es') ↔ GuardedRun c es ∧ GuardedRun (c.run es) es' := by
  induction es generalizing c with
  | nil =>
    show GuardedRun c es' ↔ True ∧ GuardedRun c es'
    rw [true_and]
  | cons e rest ih =>
    show Guarded c e ∧ GuardedRun (c.apply e) (rest ++ es') ↔
      (Guarded c e ∧ GuardedRun (c.apply e) rest) ∧ GuardedRun ((c.apply e).run rest) es'
    rw [ih, and_assoc]

/-- One chronicle for two positions of a run: what the earlier one records, the
later one still does. -/
theorem Safe.two (strict : Prop) (hv : Cluster.Valid S (Cluster.init S) es)
    (hg : strict → GuardedRun (Cluster.init S) es) {j k : Nat} (hjk : j ≤ k) :
    ∃ h h', h.Extends h' ∧ Safe S strict (Cluster.after S es j) h ∧
      Safe S strict (Cluster.after S es k) h' ∧
      ∀ m ∈ (Cluster.after S es j).net, m ∈ (Cluster.after S es k).net := by
  obtain ⟨n, rfl⟩ := Nat.exists_eq_add_of_le hjk
  have hsplit : es.take j ++ (es.drop j).take n ++ es.drop (j + n) = es := by
    rw [← List.take_add, List.take_append_drop]
  have hguards : strict → GuardedRun (Cluster.init S) (es.take j) ∧
      GuardedRun (Cluster.after S es j) ((es.drop j).take n) := by
    intro hst
    have hall := hg hst
    rw [← hsplit, guardedRun_append, guardedRun_append] at hall
    exact hall.1
  obtain ⟨h, -, hs, -⟩ := (Safe.init S strict).run (hv.take j) (fun hst => (hguards hst).1)
  obtain ⟨h', hx, hs', hnet⟩ := hs.run (hv.segment j n) (fun hst => (hguards hst).2)
  refine ⟨h, h', hx, hs, ?_, fun m hm => ?_⟩
  · rw [Cluster.after_add]
    exact hs'
  · rw [Cluster.after_add]
    exact hnet m hm

/-! ## Election safety -/

def Leads (c : Cluster) (i : NodeId) (t : Nat) : Prop :=
  (c.node i).state = .leader ∧ (c.node i).term = t

instance (c : Cluster) (i : NodeId) (t : Nat) : Decidable (Leads c i t) :=
  inferInstanceAs (Decidable (_ ∧ _))

theorem Safe.reign {strict : Prop} {c : Cluster} {h : Chronicle} {i : NodeId} {t : Nat}
    (hs : Safe S strict c h) (hlead : Leads c i t) :
    ∃ r, h.reign t = some r ∧ r.leader = i ∧ (c.node i).log = r.log := by
  obtain ⟨hstate, rfl⟩ := hlead
  have hst := hs.election.standing i
  obtain ⟨r, hr, hleader⟩ := hst.leading hstate
  exact ⟨r, hr, hleader,
    (hs.logs.recorded i).own (hst.candidacy (Or.inr hstate)).2.2 r hr hleader⟩

theorem leader_unique_of_le (hv : Cluster.Valid S (Cluster.init S) es) {j k : Nat} (hjk : j ≤ k)
    {a b : NodeId} {t : Nat} (ha : Leads (Cluster.after S es j) a t)
    (hb : Leads (Cluster.after S es k) b t) : a = b := by
  obtain ⟨h, h', hx, hs, hs', -⟩ := Safe.two False hv (fun hf => hf.elim) hjk
  obtain ⟨r, hr, hra, -⟩ := hs.reign ha
  obtain ⟨r', hr', hrb, -⟩ := hs'.reign hb
  obtain ⟨s, hs, hsr, -⟩ := hx.reign t r hr
  obtain rfl := Option.some.inj (hs.symm.trans hr')
  rw [← hra, ← hrb, hsr]

/-- Election safety: over a whole run, at most one node is ever leader of a term. -/
theorem election_safety (S : Setup) (es : List Event) (hv : Cluster.Valid S (Cluster.init S) es)
    (j k : Nat) (a b : NodeId) (t : Nat) (ha : Leads (Cluster.after S es j) a t)
    (hb : Leads (Cluster.after S es k) b t) : a = b := by
  rcases Nat.le_total j k with hjk | hkj
  · exact leader_unique_of_le hv hjk ha hb
  · exact (leader_unique_of_le hv hkj hb ha).symm

/-! ## Log matching -/

/-- Log matching: entries carry their positions, and two logs that hold entries
of one index and one term are equal up to there. -/
theorem log_matching (S : Setup) (es : List Event) (hv : Cluster.Valid S (Cluster.init S) es) :
    (∀ i k e, ((Cluster.run (Cluster.init S) es).node i).log[k]? = some e → e.index = k + 1) ∧
    ∀ i j, ∀ a ∈ ((Cluster.run (Cluster.init S) es).node i).log,
      ∀ b ∈ ((Cluster.run (Cluster.init S) es).node j).log,
        a.index = b.index → a.term = b.term →
          ((Cluster.run (Cluster.init S) es).node i).log.take a.index =
            ((Cluster.run (Cluster.init S) es).node j).log.take a.index := by
  obtain ⟨h, -, hs, -⟩ := (Safe.init S False).run hv (fun hf => hf.elim)
  have hindexed : ∀ i, Indexed ((Cluster.run (Cluster.init S) es).node i).log :=
    fun i => (hs.logs.recorded i).indexed hs.logs.indexed
  refine ⟨fun i k e hk => hindexed i k e hk, fun i j a ha b hb hidx hterm => ?_⟩
  obtain ⟨k, hk⟩ := List.mem_iff_getElem?.mp ha
  obtain ⟨k', hk'⟩ := List.mem_iff_getElem?.mp hb
  have hka := hindexed i k a hk
  have hkb := hindexed j k' b hk'
  obtain rfl : k = k' := by omega
  rw [hka]
  exact (hs.logs.recorded i).founded.take_eq (hs.logs.recorded j).founded hk hk' hterm

/-! ## A small cluster -/

/-- Three voters that start elections without a pre-vote. -/
def trio : Setup :=
  { voters := [1, 2, 3]
    nonzero := by decide
    config := fun i => { id := i, preVote := false }
    config_id := fun _ => rfl
    boot := fun _ => { now := 0, jitter := 0 } }

/-- Two clock readings, each late enough for an election time-out. -/
def late : Env := { now := 1000, jitter := 0 }
def later : Env := { now := 2000, jitter := 0 }

/-- Node `i` asks the others for their votes in term `t`, `j` grants its own, and
`i` takes the lead. -/
def electing (env : Env) (i j : NodeId) (t index : Nat) : List Event :=
  [.tick i env,
   .deliver { msgType := .requestVote, from_ := i, to_ := j, term := t, index } env,
   .deliver { msgType := .voteResponse, from_ := j, to_ := i, term := t } env]

/-- Node 3 campaigns first and is passed over: its term has no leader but node 1. -/
def contested : List Event := .tick 3 late :: electing late 1 2 1 1

theorem election_safety_trio : Leads (Cluster.after trio contested 4) 1 1 ∧ 1 = 1 := by
  have hv : Cluster.Valid trio (Cluster.init trio) contested := by decide
  have hlead : Leads (Cluster.after trio contested 4) 1 1 := by decide
  exact ⟨hlead, election_safety trio contested hv 4 4 1 1 1 hlead hlead⟩

/-- The new leader has an entry its voter lacks; the entry they share matches. -/
theorem log_matching_trio :
    ((Cluster.run (Cluster.init trio) contested).node 1).log.take 1 =
      ((Cluster.run (Cluster.init trio) contested).node 2).log.take 1 := by
  have hv : Cluster.Valid trio (Cluster.init trio) contested := by decide
  exact (log_matching trio contested hv).2 1 2 (LogEntry.new 1 0 []) (by decide)
    (LogEntry.new 1 0 []) (by decide) rfl rfl

end Raft
end RTDB
