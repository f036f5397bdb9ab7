import Mathlib.Algebra.Group.Nat.Defs
import Mathlib.Data.List.Induction
import RTDB.Lib.Runs
import RTDB.Storage.Types

/-!
# Failover limits

The failover manager of `cluster/failover.rs`.  A call checks the policy, the number of
failovers under way and the time since the last one, each under its own lock, and only
then counts itself and stamps its start.
-/

namespace RTDB
namespace Cluster
namespace Failover

open Storage (wrappingAdd wrappingAdd_eq wrappingSub wrappingSub_eq)

inductive FailoverAction where
  | promoteLeader (shardId newLeader : Nat)
  | replaceNode (failedNode : Nat)
  | rebalance
  deriving DecidableEq, Repr

structure FailoverEvent where
  timestamp : Nat
  action : FailoverAction
  success : Bool
  error : Option String
  deriving DecidableEq, Repr

inductive FailoverPolicy where
  | automatic
  | manual
  | disabled
  deriving DecidableEq, Repr

/-- The part of the configuration that failovers read; the limit is a `usize`. -/
structure FailoverConfig where
  autoFailoverEnabled : Bool
  maxConcurrentFailovers : Nat
  failoverCooldown : Nat
  fits : maxConcurrentFailovers < 2 ^ 64
  deriving DecidableEq, Repr

structure FailoverManager where
  config : FailoverConfig
  activeFailovers : Nat
  lastFailover : Option Nat
  policy : FailoverPolicy
  eventLog : List FailoverEvent
  currentEpoch : Nat
  deriving DecidableEq, Repr

def maxLogSize : Nat := 1000

def notAllowed : String := "Failover not allowed"

inductive Stage where
  | permitted (action : FailoverAction)
  | loaded (action : FailoverAction)
  | admitted (action : FailoverAction)
  | counted (action : FailoverAction)
  | timed (action : FailoverAction) (start : Nat)
  | started (action : FailoverAction)
  | acted (action : FailoverAction)
  | ended (action : FailoverAction)
  | reported (event : FailoverEvent)
  | done
  | refused (error : String)
  deriving DecidableEq, Repr

namespace FailoverManager

def new (config : FailoverConfig) : FailoverManager :=
  { config, activeFailovers := 0, lastFailover := none, policy := .automatic, eventLog := []
    currentEpoch := 0 }

/-- The check of the policy and of the switch. -/
def permit (m : FailoverManager) (action : FailoverAction) : Stage :=
  if m.policy = .automatic ∧ m.config.autoFailoverEnabled = true then .permitted action
  else .refused notAllowed

def enter (m : FailoverManager) : FailoverManager :=
  { m with activeFailovers := wrappingAdd m.activeFailovers 1 }

def leave (m : FailoverManager) : FailoverManager :=
  { m with activeFailovers := wrappingSub m.activeFailovers 1 }

/-- Promotion counts the epoch; none of the actions fails. -/
def act (m : FailoverManager) : FailoverAction → FailoverManager
  | .promoteLeader _ _ => { m with currentEpoch := wrappingAdd m.currentEpoch 1 }
  | .replaceNode _ => m
  | .rebalance => m

def logEvent (m : FailoverManager) (event : FailoverEvent) : FailoverManager :=
  let log := m.eventLog ++ [event]
  { m with eventLog := log.drop (log.length - maxLogSize) }

@[simp] theorem logEvent_config (m : FailoverManager) (event : FailoverEvent) :
    (m.logEvent event).config = m.config := by
  rw [logEvent]

@[simp] theorem logEvent_activeFailovers (m : FailoverManager) (event : FailoverEvent) :
    (m.logEvent event).activeFailovers = m.activeFailovers := by
  rw [logEvent]

@[simp] theorem logEvent_lastFailover (m : FailoverManager) (event : FailoverEvent) :
    (m.logEvent event).lastFailover = m.lastFailover := by
  rw [logEvent]

def advance (m : FailoverManager) (now : Nat) : Stage → Option (Stage × FailoverManager)
  | .permitted action =>
    if m.config.maxConcurrentFailovers ≤ m.activeFailovers then some (.refused notAllowed, m)
    else some (.loaded action, m)
  | .loaded action =>
    match m.lastFailover with
    | none => some (.admitted action, m)
    | some last =>
      if now - last < m.config.failoverCooldown then some (.refused notAllowed, m)
      else some (.admitted action, m)
  | .admitted action => some (.counted action, m.enter)
  | .counted action => some (.timed action now, m)
  | .timed action start => some (.started action, { m with lastFailover := some start })
  | .started action => some (.acted action, m.act action)
  | .acted action => some (.ended action, m.leave)
  | .ended action =>
    some (.reported { timestamp := now, action, success := true, error := none }, m)
  | .reported event => some (.done, m.logEvent event)
  | .done | .refused _ => none

end FailoverManager

/-! ## Runs -/

namespace Stage

def running : Stage → Bool
  | .counted _ | .timed _ _ | .started _ | .acted _ => true
  | _ => false

/-- Past the counter, with the start not yet stamped. -/
def admitting : Stage → Bool
  | .loaded _ | .admitted _ | .counted _ | .timed _ _ => true
  | _ => false

def loading : Stage → Bool
  | .permitted _ => true
  | _ => false

def ready : Stage → Bool
  | .loaded _ | .admitted _ => true
  | _ => false

def cooled (clock : Nat) : Stage → Option Nat
  | .admitted _ | .counted _ => some clock
  | .timed _ start => some start
  | _ => none

/-- The start that the next step stamps. -/
def stamp : Stage → List Nat
  | .timed _ start => [start]
  | _ => []

end Stage

/-- A manager with its calls, the starts in the order they are stamped, and the time. -/
structure Running where
  manager : FailoverManager
  calls : List Stage
  starts : List Nat
  clock : Nat

inductive Step where
  | execute (action : FailoverAction) (now : Nat)
  | proceed (call now : Nat)
  | setPolicy (policy : FailoverPolicy) (now : Nat)
  deriving DecidableEq, Repr

def Step.now : Step → Nat
  | .execute _ now => now
  | .proceed _ now => now
  | .setPolicy _ now => now

namespace Running

def start (config : FailoverConfig) : Running :=
  { manager := FailoverManager.new config, calls := [], starts := [], clock := 0 }

/-- Time does not run back. -/
def perform (r : Running) (step : Step) : Option Running :=
  if step.now < r.clock then none
  else
    match step with
    | .execute action now => some { r with calls := r.calls ++ [r.manager.permit action], clock := now }
    | .setPolicy policy now => some { r with manager := { r.manager with policy }, clock := now }
    | .proceed call now =>
      (r.calls[call]?).bind fun stage =>
        (r.manager.advance now stage).map fun next =>
          { manager := next.2, calls := r.calls.set call next.1, starts := r.starts ++ stage.stamp
            clock := now }

def run (r : Running) (steps : List Step) : Option Running := steps.foldlM perform r

structure Limits (r : Running) : Prop where
  bounded : r.calls.countP Stage.running ≤ r.manager.config.maxConcurrentFailovers
  apart : r.starts.Pairwise fun s t => s + r.manager.config.failoverCooldown ≤ t
  counter : r.manager.activeFailovers = r.calls.countP Stage.running

/-- A call reads the counter while no other call is on its way from there to the stamp. -/
def Alone (r : Running) : Step → Prop
  | .proceed call _ =>
    (r.calls[call]?).any Stage.loading = true → ∀ stage ∈ r.calls, stage.admitting = false
  | _ => True

end Running

open Running

/-- At most one call is on its way from the counter to the stamp, and what it found there
still holds. -/
structure Running.Limited (r : Running) : Prop where
  counter : r.manager.activeFailovers = r.calls.countP Stage.running
  bounded : r.manager.activeFailovers ≤ r.manager.config.maxConcurrentFailovers
  alone : ∀ (i j : Nat) (p q : Stage), r.calls[i]? = some p → r.calls[j]? = some q →
    p.admitting = true → q.admitting = true → i = j
  room : ∀ (i : Nat) (p : Stage), r.calls[i]? = some p → p.ready = true →
    r.manager.activeFailovers < r.manager.config.maxConcurrentFailovers
  past : ∀ t ∈ r.starts, t ≤ r.clock
  last : r.manager.lastFailover = r.starts.getLast?
  apart : r.starts.Pairwise fun s t => s + r.manager.config.failoverCooldown ≤ t
  cooled : ∀ (i : Nat) (p : Stage) (b : Nat), r.calls[i]? = some p → p.cooled r.clock = some b →
    b ≤ r.clock ∧ ∀ t ∈ r.starts, t + r.manager.config.failoverCooldown ≤ b

variable {r r' : Running}

theorem Running.Limited.limits (hr : r.Limited) : r.Limits :=
  { bounded := hr.counter ▸ hr.bounded, apart := hr.apart, counter := hr.counter }

theorem limited_start (config : FailoverConfig) : (start config).Limited :=
  { counter := rfl
    bounded := Nat.zero_le _
    alone := fun _ _ _ _ hp => absurd hp (by simp [start])
    room := fun _ _ hp => absurd hp (by simp [start])
    past := fun _ ht => absurd ht List.not_mem_nil
    last := rfl
    apart := List.Pairwise.nil
    cooled := fun _ _ _ hp => absurd hp (by simp [start]) }

theorem Stage.admitting_of_ready {p : Stage} (hp : p.ready = true) : p.admitting = true := by
  cases p <;> first
    | rfl
    | exact absurd hp Bool.false_ne_true

theorem Stage.admitting_of_cooled {p : Stage} {clock b : Nat} (hp : p.cooled clock = some b) :
    p.admitting = true := by
  cases p <;> first
    | rfl
    | exact absurd hp (by simp [Stage.cooled])

theorem Stage.cooled_later {p : Stage} {clock now b : Nat} (hp : p.cooled now = some b)
    (hnow : clock ≤ now) : ∃ b', p.cooled clock = some b' ∧ b' ≤ b ∧ (b = b' ∨ b = now) := by
  cases p with
  | admitted action =>
    obtain rfl := Option.some.inj hp
    exact ⟨clock, rfl, hnow, Or.inr rfl⟩
  | counted action =>
    obtain rfl := Option.some.inj hp
    exact ⟨clock, rfl, hnow, Or.inr rfl⟩
  | timed action start =>
    obtain rfl := Option.some.inj hp
    exact ⟨start, rfl, Nat.le_refl _, Or.inl rfl⟩
  | _ => exact absurd hp (by simp [Stage.cooled])

theorem set_cases {calls : List Stage} {i j : Nat} {p q : Stage}
    (hq : (calls.set i p)[j]? = some q) : (j = i ∧ q = p) ∨ (j ≠ i ∧ calls[j]? = some q) := by
  by_cases hij : i = j
  · subst hij
    rw [List.getElem?_set_self'] at hq
    obtain ⟨_, -, hqp⟩ := Option.map_eq_some_iff.mp hq
    exact Or.inl ⟨rfl, hqp.symm⟩
  · rw [List.getElem?_set_ne hij] at hq
    exact Or.inr ⟨Ne.symm hij, hq⟩

theorem running_set {calls : List Stage} {i : Nat} {p : Stage} (p' : Stage) (hp : calls[i]? = some p) :
    (calls.set i p').countP Stage.running + p.running.toNat =
      calls.countP Stage.running + p'.running.toNat := by
  obtain ⟨hi, rfl⟩ := List.getElem?_eq_some_iff.mp hp
  have hpos : calls[i].running = true → 0 < calls.countP Stage.running := fun hrunning =>
    List.countP_pos_iff.mpr ⟨calls[i], List.getElem_mem hi, hrunning⟩
  rw [List.countP_set hi]
  cases hold : calls[i].running with
  | false => cases p'.running <;> simp
  | true =>
    have hcount := hpos hold
    cases p'.running <;> simp <;> omega

/-! ## Steps -/

theorem Running.Limited.later {now : Nat} (hr : r.Limited) (hnow : r.clock ≤ now) :
    ({ r with clock := now } : Running).Limited :=
  { counter := hr.counter
    bounded := hr.bounded
    alone := hr.alone
    room := hr.room
    past := fun t ht => Nat.le_trans (hr.past t ht) hnow
    last := hr.last
    apart := hr.apart
    cooled := fun i p b hp hb => by
      obtain ⟨b', hb', hle, hcases⟩ := Stage.cooled_later hb hnow
      obtain ⟨hclock, hcool⟩ := hr.cooled i p b' hp hb'
      refine ⟨?_, fun t ht => Nat.le_trans (hcool t ht) hle⟩
      rcases hcases with rfl | rfl
      · exact Nat.le_trans hclock hnow
      · exact Nat.le_refl _ }

/-- A step of a call that leaves the counter and the stamp as they are, without passing
the counter or the cooldown unseen. -/
theorem Running.Limited.move {i : Nat} {p p' : Stage} {m : FailoverManager} (hr : r.Limited)
    (hp : r.calls[i]? = some p) (hconfig : m.config = r.manager.config)
    (hactive : m.activeFailovers = r.manager.activeFailovers)
    (hlast : m.lastFailover = r.manager.lastFailover) (hrunning : p'.running = p.running)
    (hadmitting : p'.admitting = true → p.admitting = true)
    (hready : p'.ready = true → p.ready = true)
    (hcooled : ∀ b, p'.cooled r.clock = some b →
      b ≤ r.clock ∧ ∀ t ∈ r.starts, t + r.manager.config.failoverCooldown ≤ b) :
    ({ r with manager := m, calls := r.calls.set i p' } : Running).Limited := by
  have hcount := running_set p' hp
  rw [hrunning, Nat.add_right_cancel_iff] at hcount
  have hback : ∀ (j : Nat) (q : Stage), (r.calls.set i p')[j]? = some q → q.admitting = true →
      ∃ q', r.calls[j]? = some q' ∧ q'.admitting = true := by
    intro j q hq hqa
    rcases set_cases hq with ⟨rfl, rfl⟩ | ⟨-, hold⟩
    · exact ⟨p, hp, hadmitting hqa⟩
    · exact ⟨q, hold, hqa⟩
  refine ⟨?_, ?_, fun j k q q' hq hq' hqa hqa' => ?_, fun j q hq hqr => ?_, hr.past,
    hlast.trans hr.last, ?_, fun j q b hq hb => ?_⟩
  · exact hactive.trans (hr.counter.trans hcount.symm)
  · rw [hactive, hconfig]
    exact hr.bounded
  · obtain ⟨p₁, hp₁, ha₁⟩ := hback j q hq hqa
    obtain ⟨p₂, hp₂, ha₂⟩ := hback k q' hq' hqa'
    exact hr.alone j k p₁ p₂ hp₁ hp₂ ha₁ ha₂
  · rw [hactive, hconfig]
    rcases set_cases hq with ⟨rfl, rfl⟩ | ⟨-, hold⟩
    · exact hr.room j p hp (hready hqr)
    · exact hr.room j q hold hqr
  · rw [hconfig]
    exact hr.apart
  · rw [hconfig]
    rcases set_cases hq with ⟨rfl, rfl⟩ | ⟨-, hold⟩
    · exact hcooled b hb
    · exact hr.cooled j q b hold hb

/-- A step that takes a call off the way from the counter to the stamp, or leaves it off. -/
theorem Running.Limited.settle {i : Nat} {p p' : Stage} {m : FailoverManager} (hr : r.Limited)
    (hp : r.calls[i]? = some p) (hconfig : m.config = r.manager.config)
    (hactive : m.activeFailovers = r.manager.activeFailovers)
    (hlast : m.lastFailover = r.manager.lastFailover) (hrunning : p'.running = p.running)
    (hsettled : p'.admitting = false) :
    ({ r with manager := m, calls := r.calls.set i p' } : Running).Limited := by
  have hnot : p'.admitting ≠ true := by
    rw [hsettled]
    exact Bool.false_ne_true
  exact hr.move hp hconfig hactive hlast hrunning (fun h => absurd h hnot)
    (fun h => absurd (Stage.admitting_of_ready h) hnot)
    (fun b hb => absurd (Stage.admitting_of_cooled hb) hnot)

theorem Running.Limited.load {i : Nat} {action : FailoverAction} (hr : r.Limited)
    (hp : r.calls[i]? = some (.permitted action))
    (hnone : ∀ stage ∈ r.calls, stage.admitting = false)
    (hroom : r.manager.activeFailovers < r.manager.config.maxConcurrentFailovers) :
    ({ r with calls := r.calls.set i (.loaded action) } : Running).Limited := by
  have hout : ∀ {j : Nat} {q : Stage}, r.calls[j]? = some q → q.admitting ≠ true := by
    intro j q hq hqa
    rw [hnone q (List.mem_of_getElem? hq)] at hqa
    exact Bool.false_ne_true hqa
  have hcount := running_set (.loaded action) hp
  refine ⟨hr.counter.trans hcount.symm, hr.bounded, fun j k q q' hq hq' hqa hqa' => ?_,
    fun _ _ _ _ => hroom, hr.past, hr.last, hr.apart, fun j q b hq hb => ?_⟩
  · rcases set_cases hq with ⟨rfl, -⟩ | ⟨-, hold⟩
    · rcases set_cases hq' with ⟨rfl, -⟩ | ⟨-, hold'⟩
      · rfl
      · exact absurd hqa' (hout hold')
    · exact absurd hqa (hout hold)
  · rcases set_cases hq with ⟨rfl, rfl⟩ | ⟨-, hold⟩
    · exact absurd hb (by simp [Stage.cooled])
    · exact absurd (Stage.admitting_of_cooled hb) (hout hold)

theorem Running.Limited.count {i : Nat} {action : FailoverAction} {m : FailoverManager}
    (hr : r.Limited) (hp : r.calls[i]? = some (.admitted action))
    (hconfig : m.config = r.manager.config)
    (hactive : m.activeFailovers = r.manager.activeFailovers + 1)
    (hlast : m.lastFailover = r.manager.lastFailover) :
    ({ r with manager := m, calls := r.calls.set i (.counted action) } : Running).Limited := by
  have hroom := hr.room i _ hp rfl
  have hcount : (r.calls.set i (.counted action)).countP Stage.running =
      r.calls.countP Stage.running + 1 := running_set (.counted action) hp
  have hadmitting : ∀ {j : Nat} {q : Stage}, (r.calls.set i (.counted action))[j]? = some q →
      q.admitting = true → j = i := by
    intro j q hq hqa
    rcases set_cases hq with ⟨rfl, -⟩ | ⟨-, hold⟩
    · rfl
    · exact hr.alone j i q _ hold hp hqa rfl
  refine ⟨?_, ?_, fun j k q q' hq hq' hqa hqa' => ?_, fun j q hq hqr => ?_, hr.past,
    hlast.trans hr.last, ?_, fun j q b hq hb => ?_⟩
  · rw [hactive, hr.counter, hcount]
  · rw [hactive, hconfig]
    exact hroom
  · rw [hadmitting hq hqa, hadmitting hq' hqa']
  · rcases set_cases hq with ⟨rfl, rfl⟩ | ⟨hne, -⟩
    · exact absurd hqr (by simp [Stage.ready])
    · exact absurd (hadmitting hq (Stage.admitting_of_ready hqr)) hne
  · rw [hconfig]
    exact hr.apart
  · rw [hconfig]
    rcases set_cases hq with ⟨rfl, rfl⟩ | ⟨-, hold⟩
    · exact hr.cooled j _ b hp hb
    · exact hr.cooled j q b hold hb

theorem Running.Limited.stamped {i : Nat} {action : FailoverAction} {start : Nat} (hr : r.Limited)
    (hp : r.calls[i]? = some (.timed action start)) :
    ({ r with
       manager := { r.manager with lastFailover := some start }
       calls := r.calls.set i (.started action)
       starts := r.starts ++ [start] } : Running).Limited := by
  have hcount := running_set (.started action) hp
  obtain ⟨hclock, hcool⟩ := hr.cooled i _ start hp rfl
  have hnone : ∀ {j : Nat} {q : Stage}, (r.calls.set i (.started action))[j]? = some q →
      q.admitting ≠ true := by
    intro j q hq hqa
    rcases set_cases hq with ⟨-, rfl⟩ | ⟨hne, hold⟩
    · exact absurd hqa (by simp [Stage.admitting])
    · exact hne (hr.alone j i q _ hold hp hqa rfl)
  refine ⟨hr.counter.trans (Nat.add_right_cancel hcount).symm, hr.bounded,
    fun j k q q' hq _ hqa _ => absurd hqa (hnone hq),
    fun j q hq hqr => absurd (Stage.admitting_of_ready hqr) (hnone hq), fun t ht => ?_, ?_, ?_,
    fun j q b hq hb => absurd (Stage.admitting_of_cooled hb) (hnone hq)⟩
  · rcases List.mem_append.mp ht with ht | ht
    · exact hr.past t ht
    · rw [List.mem_singleton.mp ht]
      exact hclock
  · simp
  · refine List.pairwise_append.mpr ⟨hr.apart, List.pairwise_singleton _ _, fun s hs t ht => ?_⟩
    rw [List.mem_singleton.mp ht]
    exact hcool s hs

theorem Running.Limited.finish {i : Nat} {action : FailoverAction} {m : FailoverManager}
    (hr : r.Limited) (hp : r.calls[i]? = some (.acted action))
    (hconfig : m.config = r.manager.config)
    (hactive : m.activeFailovers + 1 = r.manager.activeFailovers)
    (hlast : m.lastFailover = r.manager.lastFailover) :
    ({ r with manager := m, calls := r.calls.set i (.ended action) } : Running).Limited := by
  have hbounded := hr.bounded
  have hcounter := hr.counter
  have hcount : (r.calls.set i (.ended action)).countP Stage.running + 1 =
      r.calls.countP Stage.running := running_set (.ended action) hp
  have hold : ∀ {j : Nat} {q : Stage}, (r.calls.set i (.ended action))[j]? = some q →
      q.admitting = true → r.calls[j]? = some q := by
    intro j q hq hqa
    rcases set_cases hq with ⟨-, rfl⟩ | ⟨-, hold⟩
    · exact absurd hqa (by simp [Stage.admitting])
    · exact hold
  refine ⟨?_, ?_, fun j k q q' hq hq' hqa hqa' => ?_, fun j q hq hqr => ?_, hr.past,
    hlast.trans hr.last, ?_, fun j q b hq hb => ?_⟩
  · show m.activeFailovers = (r.calls.set i (.ended action)).countP Stage.running
    omega
  · rw [hconfig]
    show m.activeFailovers ≤ _
    omega
  · exact hr.alone j k q q' (hold hq hqa) (hold hq' hqa') hqa hqa'
  · have hroom := hr.room j q (hold hq (Stage.admitting_of_ready hqr)) hqr
    rw [hconfig]
    show m.activeFailovers < _
    omega
  · rw [hconfig]
    exact hr.apart
  · rw [hconfig]
    exact hr.cooled j q b (hold hq (Stage.admitting_of_cooled hb)) hb

theorem Running.Limited.leave_active {i : Nat} {action : FailoverAction} (hr : r.Limited)
    (hp : r.calls[i]? = some (.acted action)) :
    r.manager.leave.activeFailovers + 1 = r.manager.activeFailovers := by
  have hfits := r.manager.config.fits
  have hbounded := hr.bounded
  have hpos : 0 < r.calls.countP Stage.running :=
    List.countP_pos_iff.mpr ⟨_, List.mem_of_getElem? hp, rfl⟩
  rw [← hr.counter] at hpos
  have hless : wrappingSub r.manager.activeFailovers 1 = r.manager.activeFailovers - 1 :=
    wrappingSub_eq hpos (by omega)
  show wrappingSub r.manager.activeFailovers 1 + 1 = r.manager.activeFailovers
  rw [hless]
  omega

theorem Running.Limited.enter_active {i : Nat} {action : FailoverAction} (hr : r.Limited)
    (hp : r.calls[i]? = some (.admitted action)) :
    r.manager.enter.activeFailovers = r.manager.activeFailovers + 1 := by
  have hroom := hr.room i _ hp rfl
  have hfits := r.manager.config.fits
  exact wrappingAdd_eq (by omega)

theorem Running.Limited.execute (hr : r.Limited) (action : FailoverAction) :
    ({ r with calls := r.calls ++ [r.manager.permit action] } : Running).Limited := by
  have hpermit : (r.manager.permit action).running = false ∧
      (r.manager.permit action).admitting = false := by
    rw [FailoverManager.permit]
    split <;> exact ⟨rfl, rfl⟩
  have hold : ∀ {j : Nat} {q : Stage}, (r.calls ++ [r.manager.permit action])[j]? = some q →
      q.admitting = true → r.calls[j]? = some q := by
    intro j q hq hqa
    rw [List.getElem?_append] at hq
    split at hq
    · exact hq
    · have hnew := List.mem_singleton.mp (List.mem_of_getElem? hq)
      rw [hnew, hpermit.2] at hqa
      exact absurd hqa Bool.false_ne_true
  refine ⟨?_, hr.bounded, fun j k q q' hq hq' hqa hqa' => ?_, fun j q hq hqr => ?_, hr.past, hr.last,
    hr.apart, fun j q b hq hb => ?_⟩
  · rw [List.countP_append, List.countP_singleton, hpermit.1]
    exact hr.counter
  · exact hr.alone j k q q' (hold hq hqa) (hold hq' hqa') hqa hqa'
  · exact hr.room j q (hold hq (Stage.admitting_of_ready hqr)) hqr
  · exact hr.cooled j q b (hold hq (Stage.admitting_of_cooled hb)) hb

theorem Running.Limited.setPolicy (hr : r.Limited) (policy : FailoverPolicy) :
    ({ r with manager := { r.manager with policy } } : Running).Limited :=
  { counter := hr.counter
    bounded := hr.bounded
    alone := hr.alone
    room := hr.room
    past := hr.past
    last := hr.last
    apart := hr.apart
    cooled := hr.cooled }

theorem Running.Limited.cooled_of_last (hr : r.Limited) {last now : Nat}
    (hlast : r.manager.lastFailover = some last)
    (hcool : last + r.manager.config.failoverCooldown ≤ now) :
    ∀ t ∈ r.starts, t + r.manager.config.failoverCooldown ≤ now := by
  intro t ht
  obtain ⟨before, hsplit⟩ := List.getLast?_eq_some_iff.mp (hr.last.symm.trans hlast)
  have hapart := hr.apart
  rw [hsplit] at ht hapart
  rcases List.mem_append.mp ht with ht | ht
  · have hle := (List.pairwise_append.mp hapart).2.2 t ht last List.mem_cons_self
    omega
  · rw [List.mem_singleton.mp ht]
    exact hcool

theorem advance_limited {call now : Nat} {stage stage' : Stage} {m : FailoverManager}
    (hr : r.Limited) (hnow : r.clock = now) (hcall : r.calls[call]? = some stage)
    (halone : stage.loading = true → ∀ stage ∈ r.calls, stage.admitting = false)
    (hadvance : r.manager.advance now stage = some (stage', m)) :
    ({ manager := m, calls := r.calls.set call stage', starts := r.starts ++ stage.stamp
       clock := now } : Running).Limited := by
  subst hnow
  cases stage with
  | permitted action =>
    simp only [Stage.stamp, List.append_nil]
    simp only [FailoverManager.advance] at hadvance
    split at hadvance
    case isTrue =>
      obtain ⟨rfl, rfl⟩ := Prod.mk.inj (Option.some.inj hadvance)
      exact hr.settle hcall rfl rfl rfl rfl rfl
    case isFalse hroom =>
      obtain ⟨rfl, rfl⟩ := Prod.mk.inj (Option.some.inj hadvance)
      exact hr.load hcall (halone rfl) (Nat.lt_of_not_le hroom)
  | loaded action =>
    simp only [Stage.stamp, List.append_nil]
    simp only [FailoverManager.advance] at hadvance
    split at hadvance
    case h_1 hnone =>
      obtain ⟨rfl, rfl⟩ := Prod.mk.inj (Option.some.inj hadvance)
      have hstarts : r.starts = [] := List.getLast?_eq_none_iff.mp (hr.last.symm.trans hnone)
      refine hr.move hcall rfl rfl rfl rfl (fun _ => rfl) (fun _ => rfl) fun b hb => ?_
      obtain rfl := Option.some.inj hb
      rw [hstarts]
      exact ⟨Nat.le_refl _, fun t ht => absurd ht List.not_mem_nil⟩
    case h_2 last hlast =>
      split at hadvance
      case isTrue =>
        obtain ⟨rfl, rfl⟩ := Prod.mk.inj (Option.some.inj hadvance)
        exact hr.settle hcall rfl rfl rfl rfl rfl
      case isFalse hcool =>
        obtain ⟨rfl, rfl⟩ := Prod.mk.inj (Option.some.inj hadvance)
        have hpast := hr.past last (List.mem_of_getLast? (hr.last.symm.trans hlast))
        refine hr.move hcall rfl rfl rfl rfl (fun _ => rfl) (fun _ => rfl) fun b hb => ?_
        obtain rfl := Option.some.inj hb
        exact ⟨Nat.le_refl _, hr.cooled_of_last hlast (by omega)⟩
  | admitted action =>
    simp only [Stage.stamp, List.append_nil]
    obtain ⟨rfl, rfl⟩ := Prod.mk.inj (Option.some.inj hadvance)
    exact hr.count hcall (by rw [FailoverManager.enter]) (hr.enter_active hcall)
      (by rw [FailoverManager.enter])
  | counted action =>
    simp only [Stage.stamp, List.append_nil]
    obtain ⟨rfl, rfl⟩ := Prod.mk.inj (Option.some.inj hadvance)
    exact hr.move hcall rfl rfl rfl rfl (fun _ => rfl) (fun h => absurd h Bool.false_ne_true)
      fun b hb => hr.cooled call _ b hcall hb
  | timed action start =>
    obtain ⟨rfl, rfl⟩ := Prod.mk.inj (Option.some.inj hadvance)
    exact hr.stamped hcall
  | started action =>
    simp only [Stage.stamp, List.append_nil]
    obtain ⟨rfl, rfl⟩ := Prod.mk.inj (Option.some.inj hadvance)
    have hact : (r.manager.act action).config = r.manager.config ∧
        (r.manager.act action).activeFailovers = r.manager.activeFailovers ∧
        (r.manager.act action).lastFailover = r.manager.lastFailover := by
      cases action <;> exact ⟨rfl, rfl, rfl⟩
    exact hr.settle hcall hact.1 hact.2.1 hact.2.2 rfl rfl
  | acted action =>
    simp only [Stage.stamp, List.append_nil]
    obtain ⟨rfl, rfl⟩ := Prod.mk.inj (Option.some.inj hadvance)
    exact hr.finish hcall (by rw [FailoverManager.leave]) (hr.leave_active hcall)
      (by rw [FailoverManager.leave])
  | ended action =>
    simp only [Stage.stamp, List.append_nil]
    obtain ⟨rfl, rfl⟩ := Prod.mk.inj (Option.some.inj hadvance)
    exact hr.settle hcall rfl rfl rfl rfl rfl
  | reported event =>
    simp only [Stage.stamp, List.append_nil]
    obtain ⟨rfl, rfl⟩ := Prod.mk.inj (Option.some.inj hadvance)
    exact hr.settle hcall (FailoverManager.logEvent_config ..)
      (FailoverManager.logEvent_activeFailovers ..) (FailoverManager.logEvent_lastFailover ..) rfl rfl
  | done => exact absurd hadvance (by simp [FailoverManager.advance])
  | refused error => exact absurd hadvance (by simp [FailoverManager.advance])

theorem perform_limited (r : Running) (step : Step) (r' : Running) (hr : r.Limited)
    (halone : r.Alone step) (hperform : r.perform step = some r') : r'.Limited := by
  unfold perform at hperform
  split at hperform
  case isTrue => exact absurd hperform (by simp)
  case isFalse hpast =>
    have hnow : r.clock ≤ step.now := Nat.le_of_not_lt hpast
    cases step with
    | execute action now =>
      obtain rfl := Option.some.inj hperform
      exact (hr.execute action).later hnow
    | setPolicy policy now =>
      obtain rfl := Option.some.inj hperform
      exact (hr.setPolicy policy).later hnow
    | proceed call now =>
      obtain ⟨stage, hcall, hnext⟩ := Option.bind_eq_some_iff.mp hperform
      obtain ⟨⟨stage', m⟩, hadvance, rfl⟩ := Option.map_eq_some_iff.mp hnext
      have hlater : ({ r with clock := now } : Running).Limited := hr.later hnow
      refine advance_limited (r := { r with clock := now }) hlater rfl hcall (fun hloading => halone ?_)
        hadvance
      rw [hcall]
      exact hloading

instance (r : Running) (step : Step) : Decidable (r.Alone step) :=
  match step with
  | .execute _ _ => isTrue trivial
  | .setPolicy _ _ => isTrue trivial
  | .proceed _ _ => inferInstanceAs (Decidable (_ → _))

/-- The limits hold in every run in which no call reads the counter while another one is on its
way from there to the stamp. -/
theorem failover_limits (config : FailoverConfig) (steps : List Step)
    (halone : Runs.Along perform Running.Alone (start config) steps) (r : Running)
    (hrun : (start config).run steps = some r) : r.Limits :=
  (Runs.Along.foldlM perform_limited (limited_start config) halone hrun).limits

def tenApart (maxConcurrentFailovers : Nat) (fits : maxConcurrentFailovers < 2 ^ 64) : FailoverConfig :=
  { autoFailoverEnabled := true, maxConcurrentFailovers, failoverCooldown := 10, fits }

/-- One failover is under way when the next one starts, ten ticks later. -/
def inTurn : List Step :=
  [.execute .rebalance 0, .proceed 0 0, .proceed 0 0, .proceed 0 1, .proceed 0 1, .proceed 0 1,
   .execute (.promoteLeader 3 2) 2, .setPolicy .manual 5, .proceed 1 11, .proceed 1 11, .proceed 1 11,
   .proceed 1 11, .proceed 1 12]

theorem failover_limits_in_turn :
    ∃ r, (start (tenApart 2 (by decide))).run inTurn = some r ∧ r.starts = [1, 11] ∧ r.Limits := by
  have hsome : ((start (tenApart 2 (by decide))).run inTurn).isSome = true := by decide
  obtain ⟨r, hr⟩ := Option.isSome_iff_exists.mp hsome
  have hstarts : ((start (tenApart 2 (by decide))).run inTurn).map Running.starts = some [1, 11] := by
    decide
  rw [hr] at hstarts
  exact ⟨r, hr, Option.some.inj hstarts, failover_limits _ _ (by decide) r hr⟩

/-- The second call reads the counter before the first one counts itself. -/
def together : List Step :=
  [.execute .rebalance 0, .execute .rebalance 0, .proceed 0 0, .proceed 1 0, .proceed 0 0, .proceed 1 0,
   .proceed 0 0, .proceed 1 0, .proceed 0 0, .proceed 1 0, .proceed 0 0, .proceed 1 0]

theorem not_failover_limits_together :
    ∃ r, (start (tenApart 1 (by decide))).run together = some r ∧
      r.calls.countP Stage.running = 2 ∧ r.starts = [0, 0] ∧ ¬ r.Limits := by
  have hsome : ((start (tenApart 1 (by decide))).run together).isSome = true := by decide
  obtain ⟨r, hr⟩ := Option.isSome_iff_exists.mp hsome
  have hview : ((start (tenApart 1 (by decide))).run together).map (fun r =>
      (r.calls.countP Stage.running, r.starts, r.manager.config.maxConcurrentFailovers)) =
      some (2, [0, 0], 1) := by decide
  rw [hr] at hview
  obtain ⟨hrunning, hview⟩ := Prod.mk.inj (Option.some.inj hview)
  obtain ⟨hstarts, hmax⟩ := Prod.mk.inj hview
  refine ⟨r, hr, hrunning, hstarts, fun hlimits => ?_⟩
  have hbounded := hlimits.bounded
  omega

end Failover
end Cluster
end RTDB
