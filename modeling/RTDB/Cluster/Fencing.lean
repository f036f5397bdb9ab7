import Mathlib.Logic.Function.Basic
import RTDB.Cluster.Failover

/-!
# Epochs and fencing

The failover systems of `cluster/failover.rs`, which exchange heartbeats.  A promotion counts the
epoch of the node it runs on and a heartbeat carries the epoch of its sender; the receiver feeds
its failure detector and reads nothing else of it.
-/

namespace RTDB
namespace Cluster
namespace Failover

open Storage (wrappingAdd wrappingAdd_eq)

structure Heartbeat where
  nodeId : Nat
  seq : Nat
  timestamp : Nat
  epoch : Nat
  metadata : AList fun _ : String => String

structure FencingToken where
  epoch : Nat
  nodeId : Nat
  term : Nat
  deriving DecidableEq, Repr

inductive FencingError where
  | epochMismatch (provided required : Nat)
  | invalidToken
  | nodeNotLeader (nodeId : Nat)
  deriving DecidableEq, Repr

def FencingToken.validate (token : FencingToken) (minEpoch : Nat) : Except FencingError Unit :=
  if minEpoch ≤ token.epoch then .ok () else .error (.epochMismatch token.epoch minEpoch)

/-! ## The health monitor -/

structure PhiAccrualDetector where
  intervals : List Nat
  windowSize : Nat
  lastHeartbeat : Option Nat
  sampleCount : Nat
  warmupCount : Nat
  deriving DecidableEq, Repr

namespace PhiAccrualDetector

def new (windowSize warmupCount : Nat) : PhiAccrualDetector :=
  { intervals := [], windowSize, lastHeartbeat := none, sampleCount := 0, warmupCount }

def heartbeat (d : PhiAccrualDetector) (now : Nat) : PhiAccrualDetector :=
  match d.lastHeartbeat with
  | none => { d with lastHeartbeat := some now }
  | some last =>
    let kept := if d.windowSize ≤ d.intervals.length then d.intervals.drop 1 else d.intervals
    { d with
      intervals := kept ++ [now - last]
      sampleCount := d.sampleCount + 1
      lastHeartbeat := some now }

end PhiAccrualDetector

inductive NodeHealth where
  | healthy
  | suspicious
  | failed
  | unknown
  deriving DecidableEq, Repr

/-- The arithmetic of the failure detector, on `f64`. -/
structure Suspicion (F : Type) where
  phi : PhiAccrualDetector → Nat → Option F
  half : F → F

/-- The monitor, without its epoch, which it shares with the failover manager. -/
structure HealthMonitor (F : Type) where
  localNodeId : Nat
  phiThreshold : F
  phiWindowSize : Nat
  warmupCount : Nat
  detectors : AList fun _ : Nat => PhiAccrualDetector
  healthStatus : AList fun _ : Nat => NodeHealth
  metadata : AList fun _ : Nat => AList fun _ : String => String

namespace HealthMonitor

variable {F : Type}

def new (localNodeId : Nat) (phiThreshold : F) (phiWindowSize warmupCount : Nat) : HealthMonitor F :=
  { localNodeId, phiThreshold, phiWindowSize, warmupCount, detectors := ∅, healthStatus := ∅
    metadata := ∅ }

def registerNode (m : HealthMonitor F) (nodeId : Nat) : HealthMonitor F :=
  if nodeId = m.localNodeId then m
  else
    { m with
      detectors := m.detectors.insert nodeId (PhiAccrualDetector.new m.phiWindowSize m.warmupCount)
      healthStatus := m.healthStatus.insert nodeId .unknown }

variable [LE F] [DecidableLE F]

def health (m : HealthMonitor F) (suspicion : Suspicion F) (phi : F) : NodeHealth :=
  if m.phiThreshold ≤ phi then .failed
  else if suspicion.half m.phiThreshold ≤ phi then .suspicious
  else .healthy

def recordHeartbeat (m : HealthMonitor F) (suspicion : Suspicion F) (now nodeId : Nat) :
    HealthMonitor F :=
  match m.detectors.lookup nodeId with
  | none => m
  | some detector =>
    let detector := detector.heartbeat now
    let recorded := { m with detectors := m.detectors.insert nodeId detector }
    match suspicion.phi detector now with
    | none => recorded
    | some phi =>
      { recorded with healthStatus := m.healthStatus.insert nodeId (m.health suspicion phi) }

/-- The epoch of the heartbeat is not read. -/
def processHeartbeat (m : HealthMonitor F) (suspicion : Suspicion F) (now : Nat)
    (heartbeat : Heartbeat) : HealthMonitor F :=
  let nodeId := heartbeat.nodeId
  if nodeId = m.localNodeId then m
  else
    let registered := if nodeId ∈ m.detectors then m else m.registerNode nodeId
    let recorded := registered.recordHeartbeat suspicion now nodeId
    { recorded with metadata := recorded.metadata.insert nodeId heartbeat.metadata }

end HealthMonitor

/-! ## A node -/

theorem FailoverManager.enter_currentEpoch (m : FailoverManager) :
    m.enter.currentEpoch = m.currentEpoch := by
  rw [FailoverManager.enter]

theorem FailoverManager.leave_currentEpoch (m : FailoverManager) :
    m.leave.currentEpoch = m.currentEpoch := by
  rw [FailoverManager.leave]

theorem FailoverManager.logEvent_currentEpoch (m : FailoverManager) (event : FailoverEvent) :
    (m.logEvent event).currentEpoch = m.currentEpoch := by
  rw [FailoverManager.logEvent]

/-- The monitor and the manager with its calls under way. -/
structure FailoverSystem (F : Type) where
  healthMonitor : HealthMonitor F
  failovers : Running

namespace FailoverSystem

variable {F : Type}

def new (healthMonitor : HealthMonitor F) (config : FailoverConfig) : FailoverSystem F :=
  { healthMonitor, failovers := Running.start config }

def currentEpoch (s : FailoverSystem F) : Nat := s.failovers.manager.currentEpoch

def createHeartbeat (s : FailoverSystem F) (now : Nat) : Heartbeat :=
  { nodeId := s.healthMonitor.localNodeId, seq := 0, timestamp := now, epoch := s.currentEpoch
    metadata := ∅ }

def generateFencingToken (s : FailoverSystem F) (term : Nat) : FencingToken :=
  { epoch := s.currentEpoch, nodeId := s.healthMonitor.localNodeId, term }

def validateFencingToken (s : FailoverSystem F) (token : FencingToken) : Except FencingError Unit :=
  token.validate s.currentEpoch

theorem validateFencingToken_error {s : FailoverSystem F} {token : FencingToken}
    (hlt : token.epoch < s.currentEpoch) :
    s.validateFencingToken token = .error (.epochMismatch token.epoch s.currentEpoch) := by
  rw [validateFencingToken, FencingToken.validate, if_neg (Nat.not_le.mpr hlt)]

/-- The epoch that a call moves to with its next step, which promotes. -/
def promoted (epoch : Nat) : Stage → Option Nat
  | .started (.promoteLeader _ _) => some (wrappingAdd epoch 1)
  | _ => none

def promotes (s : FailoverSystem F) : Step → Option Nat
  | .proceed call _ => (s.failovers.calls[call]?).bind (promoted s.currentEpoch)
  | _ => none

theorem currentEpoch_advance {m m' : FailoverManager} {now : Nat} {stage stage' : Stage}
    (hadvance : m.advance now stage = some (stage', m')) :
    m'.currentEpoch = (promoted m.currentEpoch stage).getD m.currentEpoch := by
  cases stage with
  | permitted action =>
    simp only [FailoverManager.advance] at hadvance
    split at hadvance <;> obtain ⟨-, rfl⟩ := Prod.mk.inj (Option.some.inj hadvance) <;> rfl
  | loaded action =>
    simp only [FailoverManager.advance] at hadvance
    split at hadvance
    · obtain ⟨-, rfl⟩ := Prod.mk.inj (Option.some.inj hadvance)
      rfl
    · split at hadvance <;> obtain ⟨-, rfl⟩ := Prod.mk.inj (Option.some.inj hadvance) <;> rfl
  | started action =>
    obtain ⟨-, rfl⟩ := Prod.mk.inj (Option.some.inj hadvance)
    cases action <;> rfl
  | admitted action =>
    rw [FailoverManager.advance] at hadvance
    obtain ⟨-, hentered⟩ := Prod.mk.inj (Option.some.inj hadvance)
    rw [← hentered, FailoverManager.enter_currentEpoch]
    rfl
  | acted action =>
    rw [FailoverManager.advance] at hadvance
    obtain ⟨-, hleft⟩ := Prod.mk.inj (Option.some.inj hadvance)
    rw [← hleft, FailoverManager.leave_currentEpoch]
    rfl
  | reported event =>
    rw [FailoverManager.advance] at hadvance
    obtain ⟨-, hlogged⟩ := Prod.mk.inj (Option.some.inj hadvance)
    rw [← hlogged, FailoverManager.logEvent_currentEpoch]
    rfl
  | done => exact absurd hadvance (by simp [FailoverManager.advance])
  | refused error => exact absurd hadvance (by simp [FailoverManager.advance])
  | _ =>
    obtain ⟨-, rfl⟩ := Prod.mk.inj (Option.some.inj hadvance)
    rfl

/-- Only a promotion moves the epoch. -/
theorem currentEpoch_perform {s : FailoverSystem F} {step : Step} {failovers : Running}
    (hperform : s.failovers.perform step = some failovers) :
    failovers.manager.currentEpoch = (s.promotes step).getD s.currentEpoch := by
  simp only [Running.perform] at hperform
  split at hperform
  · exact absurd hperform (by simp)
  · cases step with
    | execute action now =>
      rw [← Option.some.inj hperform]
      rfl
    | setPolicy policy now =>
      rw [← Option.some.inj hperform]
      rfl
    | proceed call now =>
      obtain ⟨stage, hstage, hnext⟩ := Option.bind_eq_some_iff.mp hperform
      obtain ⟨next, hadvance, rfl⟩ := Option.map_eq_some_iff.mp hnext
      rw [promotes, hstage, Option.bind_some]
      exact currentEpoch_advance hadvance

end FailoverSystem

/-! ## Nodes that exchange heartbeats -/

/-- The nodes, the heartbeats made so far, and the epochs that each node has been promoted to or has
processed a heartbeat of. -/
structure Nodes (ι F : Type) where
  systems : ι → FailoverSystem F
  sent : List Heartbeat
  known : ι → List Nat

/-- A heartbeat made is delivered at any time, any number of times or never. -/
inductive NodeStep (ι : Type) where
  | failover (node : ι) (step : Step)
  | createHeartbeat (node : ι) (now : Nat)
  | deliver (node : ι) (heartbeat now : Nat)

namespace Nodes

variable {ι F : Type}

def start (monitors : ι → HealthMonitor F) (configs : ι → FailoverConfig) : Nodes ι F :=
  { systems := fun node => FailoverSystem.new (monitors node) (configs node), sent := []
    known := fun _ => [] }

def epoch (s : Nodes ι F) (node : ι) : Nat := (s.systems node).currentEpoch

/-- No node is behind an epoch that it knows of. -/
def UpToDate (s : Nodes ι F) : Prop := ∀ node, ∀ e ∈ s.known node, e ≤ s.epoch node

def Fenced (s : Nodes ι F) : Prop :=
  ∀ node, ∀ e ∈ s.known node, ∀ token : FencingToken, token.epoch < e →
    ∃ error, (s.systems node).validateFencingToken token = .error error

theorem upToDate_start (monitors : ι → HealthMonitor F) (configs : ι → FailoverConfig) :
    (start monitors configs : Nodes ι F).UpToDate :=
  fun _ _ hmem => absurd hmem List.not_mem_nil

theorem UpToDate.fenced {s : Nodes ι F} (hs : s.UpToDate) : s.Fenced := by
  intro node e hmem token hlt
  exact ⟨_, FailoverSystem.validateFencingToken_error (Nat.lt_of_lt_of_le hlt (hs node e hmem))⟩

/-- A promotion goes to the next epoch, unless there is none. -/
theorem promotes_eq {s : Nodes ι F} {node : ι} {step : Step} {e : Nat}
    (hpromotes : (s.systems node).promotes step = some e) : e = wrappingAdd (s.epoch node) 1 := by
  cases step with
  | proceed call now =>
    obtain ⟨stage, -, hstage⟩ := Option.bind_eq_some_iff.mp hpromotes
    unfold FailoverSystem.promoted at hstage
    split at hstage
    · exact (Option.some.inj hstage).symm
    · exact absurd hstage (by simp)
  | _ => exact absurd hpromotes (by simp [FailoverSystem.promotes])

variable [DecidableEq ι] [LE F] [DecidableLE F]

def perform (suspicion : Suspicion F) (s : Nodes ι F) : NodeStep ι → Option (Nodes ι F)
  | .failover node step =>
    ((s.systems node).failovers.perform step).map fun failovers =>
      { s with
        systems := Function.update s.systems node { s.systems node with failovers }
        known :=
          Function.update s.known node (s.known node ++ ((s.systems node).promotes step).toList) }
  | .createHeartbeat node now => some { s with sent := s.sent ++ [(s.systems node).createHeartbeat now] }
  | .deliver node heartbeat now =>
    (s.sent[heartbeat]?).map fun h =>
      { s with
        systems :=
          Function.update s.systems node
            { s.systems node with
              healthMonitor := (s.systems node).healthMonitor.processHeartbeat suspicion now h }
        known := Function.update s.known node (s.known node ++ [h.epoch]) }

def run (suspicion : Suspicion F) (s : Nodes ι F) (steps : List (NodeStep ι)) : Option (Nodes ι F) :=
  steps.foldlM (perform suspicion) s

def Safe (suspicion : Suspicion F) (s : Nodes ι F) (step : NodeStep ι) : Prop :=
  ∀ s', s.perform suspicion step = some s' →
    (∀ node, s.epoch node ≤ s'.epoch node) ∧ s'.UpToDate ∧ s'.Fenced

/-- A heartbeat delivered is not ahead of its receiver, and no promotion is from the last epoch. -/
def NotAhead (s : Nodes ι F) : NodeStep ι → Prop
  | .failover node step => ((s.systems node).promotes step).isSome = true → s.epoch node + 1 < 2 ^ 64
  | .createHeartbeat _ _ => True
  | .deliver node heartbeat _ => ∀ h, s.sent[heartbeat]? = some h → h.epoch ≤ s.epoch node

variable {suspicion : Suspicion F} {s s' : Nodes ι F} {step : NodeStep ι}

theorem perform_failover {node : ι} {step : Step}
    (hperform : s.perform suspicion (.failover node step) = some s') :
    ∃ failovers, (s.systems node).failovers.perform step = some failovers ∧
      s'.systems = Function.update s.systems node { s.systems node with failovers } ∧
      s'.known =
        Function.update s.known node (s.known node ++ ((s.systems node).promotes step).toList) := by
  obtain ⟨failovers, hstep, rfl⟩ := Option.map_eq_some_iff.mp hperform
  exact ⟨failovers, hstep, rfl, rfl⟩

/-- A delivery leaves the epoch of every node as it is. -/
theorem perform_deliver {node : ι} {heartbeat now : Nat}
    (hperform : s.perform suspicion (.deliver node heartbeat now) = some s') :
    ∃ h, s.sent[heartbeat]? = some h ∧ (∀ node', s'.epoch node' = s.epoch node') ∧
      s'.known = Function.update s.known node (s.known node ++ [h.epoch]) := by
  obtain ⟨h, hsent, rfl⟩ := Option.map_eq_some_iff.mp hperform
  refine ⟨h, hsent, fun node' => ?_, rfl⟩
  by_cases hnode : node' = node
  · subst hnode
    simp only [epoch, Function.update_self]
    rfl
  · simp only [epoch, Function.update_of_ne hnode]

theorem epoch_failover {node : ι} {step : Step}
    (hperform : s.perform suspicion (.failover node step) = some s') (node' : ι) :
    s'.epoch node' =
      if node' = node then ((s.systems node).promotes step).getD (s.epoch node) else s.epoch node' := by
  obtain ⟨failovers, hstep, hsystems, -⟩ := perform_failover hperform
  rw [epoch, hsystems]
  split
  case isTrue hnode =>
    rw [hnode, Function.update_self]
    exact FailoverSystem.currentEpoch_perform hstep
  case isFalse hnode => rw [Function.update_of_ne hnode, epoch]

/-- Counting up goes back at the last epoch, and only there. -/
theorem le_wrappingAdd_one_iff (e : Nat) (hfits : e < 2 ^ 64) :
    e ≤ wrappingAdd e 1 ↔ e + 1 < 2 ^ 64 := by
  rw [wrappingAdd]
  omega

/-- A step that promotes moves its node to an epoch that it then knows of. -/
theorem upToDate_failover {node : ι} {step : Step} (hs : s.UpToDate)
    (hperform : s.perform suspicion (.failover node step) = some s')
    (hforward : ∀ node', s.epoch node' ≤ s'.epoch node') : s'.UpToDate := by
  obtain ⟨-, -, -, hknown⟩ := perform_failover hperform
  intro node' e hmem
  rw [hknown] at hmem
  by_cases hnode : node' = node
  · subst hnode
    rw [Function.update_self] at hmem
    rcases List.mem_append.mp hmem with hold | hnew
    · exact Nat.le_trans (hs node' e hold) (hforward node')
    · rw [epoch_failover hperform node', if_pos rfl, Option.mem_toList.mp hnew]
      exact Nat.le_refl _
  · rw [Function.update_of_ne hnode] at hmem
    exact Nat.le_trans (hs node' e hmem) (hforward node')

theorem forward_failover {node : ι} {step : Step}
    (hperform : s.perform suspicion (.failover node step) = some s')
    (hfits : ((s.systems node).promotes step).isSome = true → s.epoch node + 1 < 2 ^ 64) (node' : ι) :
    s.epoch node' ≤ s'.epoch node' := by
  rw [epoch_failover hperform node']
  split
  case isTrue hnode =>
    rw [hnode]
    cases hpromotes : (s.systems node).promotes step with
    | none => exact Nat.le_refl _
    | some e =>
      have hbelow := hfits (by rw [hpromotes]; rfl)
      rw [Option.getD_some, promotes_eq hpromotes, wrappingAdd_eq hbelow]
      exact Nat.le_succ _
  case isFalse => exact Nat.le_refl _

theorem upToDate_deliver {node : ι} {heartbeat now : Nat} (hs : s.UpToDate)
    (hperform : s.perform suspicion (.deliver node heartbeat now) = some s')
    (hbehind : ∀ h, s.sent[heartbeat]? = some h → h.epoch ≤ s.epoch node) : s'.UpToDate := by
  obtain ⟨h, hsent, hepoch, hknown⟩ := perform_deliver hperform
  intro node' e hmem
  rw [hepoch node']
  rw [hknown] at hmem
  by_cases hnode : node' = node
  · subst hnode
    rw [Function.update_self] at hmem
    rcases List.mem_append.mp hmem with hold | hnew
    · exact hs node' e hold
    · rw [List.mem_singleton.mp hnew]
      exact hbehind h hsent
  · rw [Function.update_of_ne hnode] at hmem
    exact hs node' e hmem

def Fits (s : Nodes ι F) : Prop := ∀ node, s.epoch node < 2 ^ 64

/-- The step is safe if its node learns of no epoch ahead of its own, which does not go back. -/
theorem safe_iff (hs : s.UpToDate) (hfits : s.Fits) (hperform : s.perform suspicion step = some s') :
    s.Safe suspicion step ↔ s.NotAhead step := by
  have honly : s.Safe suspicion step ↔
      (∀ node, s.epoch node ≤ s'.epoch node) ∧ s'.UpToDate := by
    constructor
    · intro hsafe
      exact ⟨(hsafe s' hperform).1, (hsafe s' hperform).2.1⟩
    · intro hboth s'' hperform'
      rw [hperform] at hperform'
      rw [← Option.some.inj hperform']
      exact ⟨hboth.1, hboth.2, hboth.2.fenced⟩
  rw [honly]
  cases step with
  | failover node step =>
    constructor
    · intro hboth hpromotes
      obtain ⟨e, he⟩ := Option.isSome_iff_exists.mp hpromotes
      have hforward := hboth.1 node
      rw [epoch_failover hperform, if_pos rfl, he, Option.getD_some, promotes_eq he] at hforward
      exact (le_wrappingAdd_one_iff _ (hfits node)).mp hforward
    · intro hnext
      have hforward := forward_failover hperform hnext
      exact ⟨hforward, upToDate_failover hs hperform hforward⟩
  | createHeartbeat node now =>
    rw [← Option.some.inj hperform]
    exact iff_of_true ⟨fun _ => Nat.le_refl _, hs⟩ trivial
  | deliver node heartbeat now =>
    constructor
    · intro hboth h hsent
      obtain ⟨h', hsent', hepoch, hknown⟩ := perform_deliver hperform
      rw [hsent] at hsent'
      rw [← hepoch node, Option.some.inj hsent']
      refine hboth.2 node h'.epoch ?_
      rw [hknown, Function.update_self]
      exact List.mem_append_right _ (List.mem_singleton_self _)
    · intro hbehind
      obtain ⟨-, -, hepoch, -⟩ := perform_deliver hperform
      exact ⟨fun node' => Nat.le_of_eq (hepoch node').symm, upToDate_deliver hs hperform hbehind⟩

theorem fits_perform (hfits : s.Fits) (hperform : s.perform suspicion step = some s') : s'.Fits := by
  cases step with
  | failover node step =>
    intro node'
    rw [epoch_failover hperform node']
    split
    case isTrue hnode =>
      cases hpromotes : (s.systems node).promotes step with
      | none => exact hfits node
      | some e =>
        rw [Option.getD_some, promotes_eq hpromotes]
        exact Nat.mod_lt _ (Nat.two_pow_pos 64)
    case isFalse => exact hfits node'
  | createHeartbeat node now =>
    rw [← Option.some.inj hperform]
    exact hfits
  | deliver node heartbeat now =>
    obtain ⟨-, -, hepoch, -⟩ := perform_deliver hperform
    intro node'
    rw [hepoch node']
    exact hfits node'

/-- In every run the epochs never go back, no node is behind an epoch that it was promoted to or
has processed a heartbeat of, and older tokens are rejected, exactly when every heartbeat delivered
is not ahead of its receiver and no promotion is from the last epoch. -/
theorem stale_leaders_fenced_iff (suspicion : Suspicion F) (monitors : ι → HealthMonitor F)
    (configs : ι → FailoverConfig) (steps : List (NodeStep ι)) (s : Nodes ι F)
    (hrun : run suspicion (start monitors configs) steps = some s) :
    Runs.Along (perform suspicion) (Safe suspicion) (start monitors configs) steps ↔
      Runs.Along (perform suspicion) NotAhead (start monitors configs) steps :=
  Runs.along_congr (Q := fun s => s.UpToDate ∧ s.Fits)
    (fun _ _ _ hs hsafe hperform => ⟨(hsafe _ hperform).2.1, fits_perform hs.2 hperform⟩)
    (fun _ _ _ hs hperform => safe_iff hs.1 hs.2 hperform)
    ⟨upToDate_start monitors configs, fun _ => Nat.two_pow_pos 64⟩ hrun


end Nodes

/-! ## Two nodes -/

open Nodes

instance {ι F : Type} (s : Nodes ι F) : (step : NodeStep ι) → Decidable (s.NotAhead step)
  | .failover node step =>
    inferInstanceAs
      (Decidable (((s.systems node).promotes step).isSome = true → s.epoch node + 1 < 2 ^ 64))
  | .createHeartbeat _ _ => isTrue trivial
  | .deliver node heartbeat _ =>
    inferInstanceAs (Decidable (∀ h ∈ s.sent[heartbeat]?, h.epoch ≤ s.epoch node))

def sampleSuspicion : Suspicion Nat := { phi := fun _ _ => none, half := fun threshold => threshold / 2 }

def pair : Nodes Bool Nat :=
  start (fun node => HealthMonitor.new node.toNat 8 1000 10) fun _ => tenApart 1 (by decide)

def promotion : List (NodeStep Bool) :=
  .failover false (.execute (.promoteLeader 0 1) 0) ::
    List.replicate 7 (.failover false (.proceed 0 0))

def hearing : List (NodeStep Bool) := promotion ++ [.createHeartbeat true 1, .deliver false 0 1]

theorem stale_leaders_fenced_hearing :
    Runs.Along (perform sampleSuspicion) (Safe sampleSuspicion) pair hearing := by
  have hthrough : (run sampleSuspicion pair hearing).isSome = true := by decide
  obtain ⟨s, hrun⟩ := Option.isSome_iff_exists.mp hthrough
  exact (stale_leaders_fenced_iff sampleSuspicion _ _ hearing s hrun).mpr (by decide)

def behind : List (NodeStep Bool) := promotion ++ [.createHeartbeat false 1, .deliver true 0 1]

/-- The heartbeat carries epoch 1 and leaves its receiver at epoch 0. -/
theorem not_stale_leaders_fenced_behind :
    ¬Runs.Along (perform sampleSuspicion) (Safe sampleSuspicion) pair behind := by
  intro halong
  have hend : (run sampleSuspicion pair behind).map (fun s => (s.known true, s.epoch true)) =
      some ([1], 0) := by decide
  obtain ⟨s, hrun, hstate⟩ := Option.map_eq_some_iff.mp hend
  obtain ⟨hknown, hepoch⟩ := Prod.mk.inj hstate
  have hupToDate : s.UpToDate :=
    halong.foldlM (fun _ _ _ _ hsafe hperform => (hsafe _ hperform).2.1) (upToDate_start _ _) hrun
  have hle := hupToDate true 1 (by rw [hknown]; exact List.mem_singleton_self 1)
  rw [hepoch] at hle
  omega

end Failover
end Cluster
end RTDB
