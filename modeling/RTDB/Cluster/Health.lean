import RTDB.Cluster.Fencing
import RTDB.Lib.Locks

/-!
# The health monitor and its locks

The calls of `HealthMonitor` in `cluster/failover.rs` with the locks they take: the shards of
its three maps, the lock around each detector and the lock of the watch channel.  A guard is
held to the end of the block it is bound in unless it is dropped before, and an iterator holds
the shard it is in whatever happens to the entry it gave out.
-/

namespace RTDB
namespace Cluster
namespace Failover

open Locks (DashMap Routine)
open Locks.Routine (under)

/-- The floating-point part of `phi`: the level of the intervals recorded and the time since the
last heartbeat. -/
structure PhiArithmetic (F : Type) where
  level : List Nat → Nat → F
  half : F → F
  zero : F

def PhiAccrualDetector.phi {F : Type} (arithmetic : PhiArithmetic F) (d : PhiAccrualDetector)
    (now : Nat) : Option F :=
  if d.sampleCount < d.warmupCount then none
  else
    match d.lastHeartbeat with
    | none => none
    | some last =>
      if d.intervals.isEmpty then none else some (arithmetic.level d.intervals (now - last))

def PhiArithmetic.suspicion {F : Type} (arithmetic : PhiArithmetic F) : Suspicion F :=
  { phi := PhiAccrualDetector.phi arithmetic, half := arithmetic.half }

structure NodeHealthInfo (F : Type) where
  nodeId : Nat
  health : NodeHealth
  phiValue : F
  lastHeartbeat : Nat
  heartbeatSeq : Nat
  metadata : AList fun _ : String => String

inductive MonitorLock (n : Nat) where
  | detectors (shard : Fin n)
  | healthStatus (shard : Fin n)
  | metadata (shard : Fin n)
  | detector (nodeId : Nat)
  | healthTx
  deriving DecidableEq, Repr

/-- Where each map puts a node; the maps have hashers of their own. -/
structure MonitorShards (n : Nat) where
  detectors : Nat → Fin n
  healthStatus : Nat → Fin n
  metadata : Nat → Fin n

/-- The monitor with its timeout and the value in its watch channel. -/
structure WatchedMonitor (F : Type) extends HealthMonitor F where
  suspicionTimeout : Nat
  healthTx : List (Nat × NodeHealth)

namespace WatchedMonitor

variable {F : Type} {n : Nat}

def new (localNodeId : Nat) (phiThreshold : F) (phiWindowSize warmupCount suspicionTimeout : Nat) :
    WatchedMonitor F :=
  { HealthMonitor.new localNodeId phiThreshold phiWindowSize warmupCount with
    suspicionTimeout, healthTx := [] }

section Calls

variable (shards : MonitorShards n)

def detectorMap : DashMap (MonitorLock n) (WatchedMonitor F) Nat PhiAccrualDetector :=
  { shards := n, shardOf := shards.detectors, lock := .detectors, entries := fun m => m.detectors
    store := fun detectors m => { m with detectors } }

def healthMap : DashMap (MonitorLock n) (WatchedMonitor F) Nat NodeHealth :=
  { shards := n, shardOf := shards.healthStatus, lock := .healthStatus
    entries := fun m => m.healthStatus
    store := fun healthStatus m => { m with healthStatus } }

def metadataMap :
    DashMap (MonitorLock n) (WatchedMonitor F) Nat (AList fun _ : String => String) :=
  { shards := n, shardOf := shards.metadata, lock := .metadata, entries := fun m => m.metadata
    store := fun metadata m => { m with metadata } }

def getAllHealth : Routine (MonitorLock n) (WatchedMonitor F) (List (Nat × NodeHealth)) :=
  (healthMap shards).iterate fun nodeId health => pure (nodeId, health)

def send (health : List (Nat × NodeHealth)) : Routine (MonitorLock n) (WatchedMonitor F) Unit :=
  under .healthTx .exclusive (Routine.modify fun m => { m with healthTx := health })

def broadcastHealth : Routine (MonitorLock n) (WatchedMonitor F) Unit := do
  let health ← getAllHealth shards
  send health

/-- The insertions of `register_node`, for a node that is not the local one. -/
def startMonitoring (nodeId : Nat) : Routine (MonitorLock n) (WatchedMonitor F) Unit := do
  let detector ← Routine.read fun m => PhiAccrualDetector.new m.phiWindowSize m.warmupCount
  (detectorMap shards).insert nodeId detector
  (healthMap shards).insert nodeId .unknown
  broadcastHealth shards

def registerNode (nodeId : Nat) : Routine (MonitorLock n) (WatchedMonitor F) Unit := do
  let localNodeId ← Routine.read fun m => m.localNodeId
  if nodeId = localNodeId then pure () else startMonitoring shards nodeId

def ensureRegistered (nodeId : Nat) : Routine (MonitorLock n) (WatchedMonitor F) Unit := do
  let known ← (detectorMap shards).containsKey nodeId
  if known then pure () else registerNode shards nodeId

def unregisterNode (nodeId : Nat) : Routine (MonitorLock n) (WatchedMonitor F) Unit := do
  let _ ← (detectorMap shards).remove nodeId
  let _ ← (healthMap shards).remove nodeId
  let _ ← (metadataMap shards).remove nodeId
  broadcastHealth shards

def getHealth (nodeId : Nat) : Routine (MonitorLock n) (WatchedMonitor F) NodeHealth := do
  let localNodeId ← Routine.read fun m => m.localNodeId
  if nodeId = localNodeId then pure .healthy
  else do
    let health ← (healthMap shards).get nodeId
    pure (health.getD .unknown)

variable (arithmetic : PhiArithmetic F)

/-- The clock is read for the level, and again for a node without a heartbeat. -/
def nodeInfo (judged now : Nat → Nat) (nodeId : Nat) (health : NodeHealth) :
    Routine (MonitorLock n) (WatchedMonitor F) (NodeHealthInfo F) := do
  let (phiValue, lastHeartbeat) ← (detectorMap shards).withRef nodeId .shared
    (pure (arithmetic.zero, now nodeId)) fun detector =>
      under (.detector nodeId) .shared (pure
        ((detector.phi arithmetic (judged nodeId)).getD arithmetic.zero,
          detector.lastHeartbeat.getD (now nodeId)))
  let metadata ← (metadataMap shards).get nodeId
  pure { nodeId, health, phiValue, lastHeartbeat, heartbeatSeq := 0, metadata := metadata.getD ∅ }

def getHealthInfo (judged now : Nat → Nat) :
    Routine (MonitorLock n) (WatchedMonitor F) (List (NodeHealthInfo F)) :=
  (healthMap shards).iterate (nodeInfo shards arithmetic judged now)

section HealthChecks

variable (clock : Nat → Nat)

def markFailed (nodeId : Nat) : Routine (MonitorLock n) (WatchedMonitor F) Unit := do
  (healthMap shards).insert nodeId .failed
  broadcastHealth shards

/-- The guard of the detector is dropped before the status is written, and so is the entry, but not
the iterator that gave it out. -/
def checkNode (nodeId : Nat) (currentHealth : NodeHealth) :
    Routine (MonitorLock n) (WatchedMonitor F) Unit :=
  (detectorMap shards).withRef nodeId .shared (pure ()) fun detector => do
    let lastHeartbeat ← under (.detector nodeId) .shared (pure detector.lastHeartbeat)
    let suspicionTimeout ← Routine.read fun m => m.suspicionTimeout
    match lastHeartbeat with
    | none => pure ()
    | some last =>
      if suspicionTimeout < clock nodeId - last ∧ currentHealth ≠ .failed then
        markFailed shards nodeId
      else pure ()

def runHealthChecks : Routine (MonitorLock n) (WatchedMonitor F) (List Unit) :=
  (healthMap shards).iterate (checkNode shards clock)

end HealthChecks

variable [LE F] [DecidableLE F]

/-- The status of a node after a level; its entry is held while a change is broadcast. -/
def updateHealth (nodeId : Nat) (phi : F) : Routine (MonitorLock n) (WatchedMonitor F) Unit := do
  let newHealth ← Routine.read fun m => m.health arithmetic.suspicion phi
  (healthMap shards).withEntryOrInsert nodeId .unknown fun status =>
    if status ≠ newHealth then do
      (healthMap shards).put nodeId newHealth
      broadcastHealth shards
    else pure ()

def recordHeartbeat (nodeId recorded judged : Nat) :
    Routine (MonitorLock n) (WatchedMonitor F) Unit :=
  (detectorMap shards).withRef nodeId .shared (pure ()) fun detector =>
    under (.detector nodeId) .exclusive do
      (detectorMap shards).put nodeId (detector.heartbeat recorded)
      match (detector.heartbeat recorded).phi arithmetic judged with
      | none => pure ()
      | some phi => updateHealth shards arithmetic nodeId phi

/-- The clock is read for the heartbeat and again for the level. -/
def processHeartbeat (heartbeat : Heartbeat) (recorded judged : Nat) :
    Routine (MonitorLock n) (WatchedMonitor F) Unit := do
  let localNodeId ← Routine.read fun m => m.localNodeId
  if heartbeat.nodeId = localNodeId then pure ()
  else do
    ensureRegistered shards heartbeat.nodeId
    recordHeartbeat shards arithmetic heartbeat.nodeId recorded judged
    (metadataMap shards).insert heartbeat.nodeId heartbeat.metadata

end Calls

/-! ## Which calls come to their end -/

section Ends

variable {shards : MonitorShards n} {arithmetic : PhiArithmetic F} {m : WatchedMonitor F}
  {held : Locks.Held (MonitorLock n)} {nodeId : Nat}

open Locks Locks.Routine Locks.DashMap

theorem keeps_getAllHealth : Keeps (getAllHealth shards) held m :=
  keeps_iterate fun _ _ _ => keeps_pure _ _ _

theorem completes_getAllHealth_iff :
    Completes (getAllHealth shards) held m ↔ ∀ i, held.Grants (.healthStatus i) .shared := by
  rw [getAllHealth, completes_iterate_iff fun _ _ _ => keeps_pure _ _ _]
  exact and_iff_left fun nodeId health _ => completes_pure _ _ _

theorem broadcastHealth_granted (hshards : ∀ i, held.Grants (.healthStatus i) .shared)
    (hsend : held.Grants .healthTx .exclusive) :
    ∃ health, broadcastHealth shards held m = .ok ((), { m with healthTx := health }) := by
  obtain ⟨health, m', hall⟩ : Completes (getAllHealth shards) held m :=
    completes_getAllHealth_iff.mpr hshards
  obtain rfl := keeps_getAllHealth health m' hall
  refine ⟨health, ?_⟩
  rw [broadcastHealth, bind_apply hall, send, under_granted hsend]
  rfl

/-- A broadcast reads every status, so no guard on one of them may be held. -/
theorem not_completes_broadcastHealth {i : Fin n}
    (hheld : (MonitorLock.healthStatus i, Mode.exclusive) ∈ held) :
    ¬Completes (broadcastHealth shards) held m := by
  intro hcompletes
  obtain ⟨health, m', hall, -⟩ := completes_bind_iff.mp hcompletes
  have hgrants := completes_getAllHealth_iff.mp (completes_of_eq hall) i
  exact not_grants_of_exclusive _ hheld hgrants

theorem startMonitoring_eq (shards : MonitorShards n) (nodeId : Nat) (m : WatchedMonitor F) :
    ∃ health, startMonitoring shards nodeId [] m = .ok ((),
      { m with
        detectors :=
          m.detectors.insert nodeId (PhiAccrualDetector.new m.phiWindowSize m.warmupCount)
        healthStatus := m.healthStatus.insert nodeId .unknown
        healthTx := health }) := by
  rw [startMonitoring, bind_apply rfl, bind_apply (insert_granted (grants_nil _ _)),
    bind_apply (insert_granted (grants_nil _ _))]
  exact broadcastHealth_granted (fun i => grants_nil _ _) (grants_nil _ _)

theorem registerNode_eq (shards : MonitorShards n) (m : WatchedMonitor F)
    (hforeign : nodeId ≠ m.localNodeId) :
    registerNode shards nodeId [] m = startMonitoring shards nodeId [] m := by
  rw [registerNode, bind_apply rfl, if_neg hforeign]

theorem completes_registerNode (shards : MonitorShards n) (nodeId : Nat) (m : WatchedMonitor F) :
    Completes (registerNode shards nodeId) [] m := by
  by_cases hlocal : nodeId = m.localNodeId
  · refine ⟨(), m, ?_⟩
    rw [registerNode, bind_apply rfl, if_pos hlocal, pure_apply]
  · obtain ⟨health, hstart⟩ := startMonitoring_eq shards nodeId m
    rw [Completes, registerNode_eq shards m hlocal]
    exact completes_of_eq hstart

theorem ensureRegistered_of_some {detector : PhiAccrualDetector}
    (hknown : m.detectors.lookup nodeId = some detector) :
    ensureRegistered shards nodeId [] m = .ok ((), m) := by
  have hcontains : (detectorMap shards).containsKey nodeId [] m = .ok (true, m) := by
    rw [containsKey_granted (grants_nil _ _)]
    show Except.ok ((m.detectors.lookup nodeId).isSome, m) = _
    rw [hknown, Option.isSome_some]
  rw [ensureRegistered, bind_apply hcontains, if_pos rfl, pure_apply]

theorem ensureRegistered_of_none (hforeign : nodeId ≠ m.localNodeId)
    (hnew : m.detectors.lookup nodeId = none) :
    ensureRegistered shards nodeId [] m = startMonitoring shards nodeId [] m := by
  have hcontains : (detectorMap shards).containsKey nodeId [] m = .ok (false, m) := by
    rw [containsKey_granted (grants_nil _ _)]
    show Except.ok ((m.detectors.lookup nodeId).isSome, m) = _
    rw [hnew, Option.isSome_none]
  rw [ensureRegistered, bind_apply hcontains, if_neg (by simp), registerNode_eq shards m hforeign]

theorem unregisterNode_eq (shards : MonitorShards n) (nodeId : Nat) (m : WatchedMonitor F) :
    ∃ health, unregisterNode shards nodeId [] m = .ok ((),
      { m with
        detectors := m.detectors.erase nodeId
        healthStatus := m.healthStatus.erase nodeId
        metadata := m.metadata.erase nodeId
        healthTx := health }) := by
  rw [unregisterNode, bind_apply (remove_granted (grants_nil _ _)),
    bind_apply (remove_granted (grants_nil _ _)), bind_apply (remove_granted (grants_nil _ _))]
  exact broadcastHealth_granted (fun i => grants_nil _ _) (grants_nil _ _)

theorem completes_unregisterNode (shards : MonitorShards n) (nodeId : Nat)
    (m : WatchedMonitor F) : Completes (unregisterNode shards nodeId) [] m := by
  obtain ⟨health, hsent⟩ := unregisterNode_eq shards nodeId m
  exact completes_of_eq hsent

theorem keeps_getHealth (shards : MonitorShards n) (nodeId : Nat) (m : WatchedMonitor F) :
    Keeps (getHealth shards nodeId) [] m := by
  refine keeps_bind (keeps_read _ _ _) fun localNodeId => ?_
  split
  · exact keeps_pure _ _ _
  · exact keeps_bind (keeps_of_eq (get_granted (grants_nil _ _))) fun _ => keeps_pure _ _ _

theorem completes_getHealth (shards : MonitorShards n) (nodeId : Nat) (m : WatchedMonitor F) :
    Completes (getHealth shards nodeId) [] m := by
  rw [getHealth, Completes, bind_apply rfl]
  split
  · exact completes_pure _ _ _
  · exact completes_bind_pure_iff.mpr (completes_of_eq (get_granted (grants_nil _ _)))

theorem completes_getAllHealth (shards : MonitorShards n) (m : WatchedMonitor F) :
    Completes (getAllHealth shards) [] m :=
  completes_getAllHealth_iff.mpr fun _ => grants_nil _ _

/-! ### Rounds over the statuses -/

/-- What an iterator over the statuses holds at a node. -/
def atNode (shards : MonitorShards n) (nodeId : Nat) : Held (MonitorLock n) :=
  [(.healthStatus (shards.healthStatus nodeId), .shared)]

/-- What is held with a reference to the detector of the node. -/
def atDetector (shards : MonitorShards n) (nodeId : Nat) : Held (MonitorLock n) :=
  (.detectors (shards.detectors nodeId), .shared) :: atNode shards nodeId

theorem atNode_grants_detectors (shards : MonitorShards n) (nodeId : Nat) :
    (atNode shards nodeId).Grants (.detectors (shards.detectors nodeId)) .shared :=
  grants_of_forall_ne (by simp [atNode]) _

theorem atNode_grants_metadata (shards : MonitorShards n) (nodeId : Nat) :
    (atNode shards nodeId).Grants (.metadata (shards.metadata nodeId)) .shared :=
  grants_of_forall_ne (by simp [atNode]) _

theorem atDetector_grants_detector (shards : MonitorShards n) (nodeId : Nat) :
    (atDetector shards nodeId).Grants (.detector nodeId) .shared :=
  grants_of_forall_ne (by simp [atDetector, atNode]) _

/-- What is read of the detector and of the metadata is behind other locks than the status. -/
theorem nodeInfo_eq (shards : MonitorShards n) (arithmetic : PhiArithmetic F)
    (judged now : Nat → Nat) (nodeId : Nat) (health : NodeHealth) (m : WatchedMonitor F) :
    ∃ info, nodeInfo shards arithmetic judged now nodeId health (atNode shards nodeId) m =
      .ok (info, m) := by
  have hread : ∃ found, (detectorMap shards).withRef nodeId .shared
      (pure (arithmetic.zero, now nodeId)) (fun detector =>
        under (.detector nodeId) .shared (pure
          ((detector.phi arithmetic (judged nodeId)).getD arithmetic.zero,
            detector.lastHeartbeat.getD (now nodeId)))) (atNode shards nodeId) m =
      .ok (found, m) := by
    have hshard := atNode_grants_detectors shards nodeId
    cases hdetector : m.detectors.lookup nodeId with
    | none => exact ⟨_, withRef_of_none hshard hdetector⟩
    | some detector =>
      exact ⟨_, (withRef_of_some hshard hdetector).trans
        (under_granted (atDetector_grants_detector shards nodeId))⟩
  obtain ⟨found, hfound⟩ := hread
  rw [nodeInfo, bind_apply hfound]
  exact ⟨_, bind_apply (get_granted (atNode_grants_metadata shards nodeId))⟩

theorem completes_getHealthInfo (shards : MonitorShards n) (arithmetic : PhiArithmetic F)
    (judged now : Nat → Nat) (m : WatchedMonitor F) :
    Completes (getHealthInfo shards arithmetic judged now) [] m := by
  have hinfo := fun nodeId health => nodeInfo_eq shards arithmetic judged now nodeId health m
  refine (completes_iterate_iff fun nodeId health _ => ?_).mpr
    ⟨fun i => grants_nil _ _, fun nodeId health _ => ?_⟩
  · obtain ⟨info, heq⟩ := hinfo nodeId health
    exact keeps_of_eq heq
  · obtain ⟨info, heq⟩ := hinfo nodeId health
    exact completes_of_eq heq

theorem keeps_getHealthInfo (shards : MonitorShards n) (arithmetic : PhiArithmetic F)
    (judged now : Nat → Nat) (m : WatchedMonitor F) :
    Keeps (getHealthInfo shards arithmetic judged now) [] m := by
  refine keeps_iterate fun nodeId health _ => ?_
  obtain ⟨info, heq⟩ := nodeInfo_eq shards arithmetic judged now nodeId health m
  exact keeps_of_eq heq

/-- The last heartbeat of the node is further back than the timeout. -/
def TimedOut (m : WatchedMonitor F) (clock : Nat → Nat) (nodeId : Nat) : Prop :=
  ∃ detector last, m.detectors.lookup nodeId = some detector ∧
    detector.lastHeartbeat = some last ∧ m.suspicionTimeout < clock nodeId - last

section HealthChecks

variable {clock : Nat → Nat} {health : NodeHealth}

theorem checkNode_of_some {detector : PhiAccrualDetector}
    (hdetector : m.detectors.lookup nodeId = some detector) :
    checkNode shards clock nodeId health (atNode shards nodeId) m =
      (match detector.lastHeartbeat with
        | none => pure ()
        | some last =>
          if m.suspicionTimeout < clock nodeId - last ∧ health ≠ .failed then
            markFailed shards nodeId
          else pure () : Routine (MonitorLock n) (WatchedMonitor F) Unit)
        (atDetector shards nodeId) m := by
  rw [checkNode]
  refine (withRef_of_some (atNode_grants_detectors shards nodeId) hdetector).trans ?_
  exact bind_apply (under_granted (atDetector_grants_detector shards nodeId))

/-- A node in time and a node that has failed already need nothing. -/
theorem checkNode_eq (hquiet : TimedOut m clock nodeId → health = .failed) :
    checkNode shards clock nodeId health (atNode shards nodeId) m = .ok ((), m) := by
  cases hdetector : m.detectors.lookup nodeId with
  | none => exact withRef_of_none (atNode_grants_detectors shards nodeId) hdetector
  | some detector =>
    rw [checkNode_of_some hdetector]
    cases hlast : detector.lastHeartbeat with
    | none => rfl
    | some last =>
      show (if _ then markFailed shards nodeId else pure ()) (atDetector shards nodeId) m = _
      rw [if_neg, pure_apply]
      rintro ⟨hlate, halive⟩
      exact halive (hquiet ⟨detector, last, hdetector, hlast, hlate⟩)

/-- The status of a node is written to the shard that the iterator is in. -/
theorem not_completes_checkNode (hlate : TimedOut m clock nodeId) (halive : health ≠ .failed) :
    ¬Completes (checkNode shards clock nodeId health) (atNode shards nodeId) m := by
  obtain ⟨detector, last, hdetector, hlast, hlate⟩ := hlate
  rw [Completes, checkNode_of_some hdetector, hlast]
  show ¬Completes (if _ then markFailed shards nodeId else pure ()) (atDetector shards nodeId) m
  rw [if_pos ⟨hlate, halive⟩]
  intro hcompletes
  obtain ⟨_, m', hinsert, -⟩ := completes_bind_iff.mp hcompletes
  have hiterator : (.healthStatus (shards.healthStatus nodeId), .shared) ∈
      atDetector shards nodeId := List.mem_cons_of_mem _ List.mem_cons_self
  exact not_grants_exclusive hiterator (completes_under_iff.mp (completes_of_eq hinsert)).1

theorem completes_checkNode_iff :
    Completes (checkNode shards clock nodeId health) (atNode shards nodeId) m ↔
      (TimedOut m clock nodeId → health = .failed) := by
  constructor
  · intro hcompletes hlate
    by_contra halive
    exact not_completes_checkNode hlate halive hcompletes
  · intro hquiet
    exact completes_of_eq (checkNode_eq hquiet)

theorem keeps_checkNode : Keeps (checkNode shards clock nodeId health) (atNode shards nodeId) m := by
  by_cases hquiet : TimedOut m clock nodeId → health = .failed
  · exact keeps_of_eq (checkNode_eq hquiet)
  · exact keeps_of_not_completes fun hcompletes => hquiet (completes_checkNode_iff.mp hcompletes)

theorem keeps_runHealthChecks : Keeps (runHealthChecks shards clock) [] m :=
  keeps_iterate fun _ _ _ => keeps_checkNode

/-- A round comes to its end when it meets no node that it has to mark as failed. -/
theorem completes_runHealthChecks_iff :
    Completes (runHealthChecks shards clock) [] m ↔
      ∀ nodeId health, m.healthStatus.lookup nodeId = some health →
        TimedOut m clock nodeId → health = .failed := by
  refine (completes_iterate_iff fun nodeId health _ => keeps_checkNode).trans ?_
  rw [and_iff_right fun i => grants_nil _ _]
  exact forall₃_congr fun nodeId health _ => completes_checkNode_iff

end HealthChecks

/-! ### Heartbeats -/

theorem phi_heartbeat_new (arithmetic : PhiArithmetic F) (windowSize warmupCount now later : Nat) :
    ((PhiAccrualDetector.new windowSize warmupCount).heartbeat now).phi arithmetic later = none := by
  show (if 0 < warmupCount then none else none) = none
  rw [ite_self]

/-- Two monitors that answer alike. -/
structure Agrees (m m' : HealthMonitor F) : Prop where
  detectors : m.detectors = m'.detectors
  healthStatus : ∀ nodeId, m.healthStatus.lookup nodeId = m'.healthStatus.lookup nodeId
  metadata : m.metadata = m'.metadata

theorem Agrees.insert_metadata {m m' : HealthMonitor F} (hagrees : Agrees m m') (nodeId : Nat)
    (metadata : AList fun _ : String => String) :
    Agrees { m with metadata := m.metadata.insert nodeId metadata }
      { m' with metadata := m'.metadata.insert nodeId metadata } :=
  ⟨hagrees.detectors, hagrees.healthStatus, congrArg (AList.insert nodeId metadata) hagrees.metadata⟩

section Heartbeats

variable [LE F] [DecidableLE F] {phi : F} {recorded judged : Nat}

/-- The status of a node may be broadcast only while nothing of it is held: a level goes through when
it leaves the status as it is. -/
theorem completes_updateHealth_iff
    (hgrants : held.Grants (.healthStatus (shards.healthStatus nodeId)) .exclusive) :
    Completes (updateHealth shards arithmetic nodeId phi) held m ↔
      m.health arithmetic.suspicion phi = (m.healthStatus.lookup nodeId).getD .unknown := by
  have hchange : ∀ (status : NodeHealth) (m' : WatchedMonitor F),
      Completes (if status ≠ m.health arithmetic.suspicion phi then do
          (healthMap shards).put nodeId (m.health arithmetic.suspicion phi)
          broadcastHealth shards
        else pure ()) ((.healthStatus (shards.healthStatus nodeId), .exclusive) :: held) m' ↔
        m.health arithmetic.suspicion phi = status := by
    intro status m'
    by_cases heq : status = m.health arithmetic.suspicion phi
    · rw [if_neg (not_not.mpr heq)]
      exact iff_of_true (completes_pure _ _ _) heq.symm
    · rw [if_pos heq, Completes, bind_apply rfl]
      exact iff_of_false (not_completes_broadcastHealth List.mem_cons_self)
        fun hsame => heq hsame.symm
  rw [updateHealth, Completes, bind_apply rfl]
  cases hstatus : m.healthStatus.lookup nodeId with
  | none =>
    rw [withEntryOrInsert_of_none hgrants hstatus]
    exact hchange .unknown _
  | some status =>
    rw [withEntryOrInsert_of_some hgrants hstatus]
    exact hchange status m

/-- The level that the heartbeat leaves its sender with is the status the sender has. -/
def Unchanged (arithmetic : PhiArithmetic F) (m : WatchedMonitor F)
    (nodeId recorded judged : Nat) : Prop :=
  ∀ detector, m.detectors.lookup nodeId = some detector →
    ∀ phi, (detector.heartbeat recorded).phi arithmetic judged = some phi →
      m.health arithmetic.suspicion phi = (m.healthStatus.lookup nodeId).getD .unknown

/-- What is held when the level of a heartbeat is looked at. -/
def atHeartbeat (shards : MonitorShards n) (nodeId : Nat) : Held (MonitorLock n) :=
  [(.detector nodeId, .exclusive), (.detectors (shards.detectors nodeId), .shared)]

theorem atHeartbeat_grants_status (shards : MonitorShards n) (nodeId : Nat) :
    (atHeartbeat shards nodeId).Grants (.healthStatus (shards.healthStatus nodeId)) .exclusive :=
  grants_of_forall_ne (by simp [atHeartbeat]) _

theorem recordHeartbeat_of_some {detector : PhiAccrualDetector}
    (hdetector : m.detectors.lookup nodeId = some detector) :
    recordHeartbeat shards arithmetic nodeId recorded judged [] m =
      (match (detector.heartbeat recorded).phi arithmetic judged with
        | none => pure ()
        | some phi => updateHealth shards arithmetic nodeId phi :
          Routine (MonitorLock n) (WatchedMonitor F) Unit) (atHeartbeat shards nodeId)
        { m with detectors := m.detectors.insert nodeId (detector.heartbeat recorded) } := by
  have hlock : Held.Grants [(MonitorLock.detectors (shards.detectors nodeId), Mode.shared)]
      (MonitorLock.detector nodeId) .exclusive := grants_of_forall_ne (by simp) _
  rw [recordHeartbeat, withRef_of_some (grants_nil _ _) hdetector]
  exact (under_granted hlock).trans (bind_apply rfl)

theorem completes_recordHeartbeat_iff :
    Completes (recordHeartbeat shards arithmetic nodeId recorded judged) [] m ↔
      Unchanged arithmetic m nodeId recorded judged := by
  cases hdetector : m.detectors.lookup nodeId with
  | none =>
    rw [recordHeartbeat, Completes, withRef_of_none (grants_nil _ _) hdetector]
    refine iff_of_true (completes_pure _ _ _) fun detector hlookup => ?_
    exact absurd (hdetector.symm.trans hlookup) (by simp)
  | some detector =>
    rw [Completes, recordHeartbeat_of_some hdetector]
    cases hphi : (detector.heartbeat recorded).phi arithmetic judged with
    | none =>
      refine iff_of_true (completes_pure _ _ _) fun found hlookup phi hlevel => ?_
      obtain rfl := Option.some.inj (hdetector.symm.trans hlookup)
      exact absurd (hphi.symm.trans hlevel) (by simp)
    | some phi =>
      refine (completes_updateHealth_iff (atHeartbeat_grants_status shards nodeId)).trans ?_
      constructor
      · intro hsame found hlookup level hlevel
        obtain rfl := Option.some.inj (hdetector.symm.trans hlookup)
        obtain rfl := Option.some.inj (hphi.symm.trans hlevel)
        exact hsame
      · intro hunchanged
        exact hunchanged detector hdetector phi hphi

/-- A node that was not known has no level yet. -/
theorem completes_processHeartbeat_iff {heartbeat : Heartbeat} :
    Completes (processHeartbeat shards arithmetic heartbeat recorded judged) [] m ↔
      (heartbeat.nodeId ≠ m.localNodeId →
        Unchanged arithmetic m heartbeat.nodeId recorded judged) := by
  have hlast : ∀ m' : WatchedMonitor F,
      Completes (recordHeartbeat shards arithmetic heartbeat.nodeId recorded judged >>= fun _ =>
        (metadataMap shards).insert heartbeat.nodeId heartbeat.metadata) [] m' ↔
        Unchanged arithmetic m' heartbeat.nodeId recorded judged := by
    intro m'
    rw [completes_bind_iff]
    constructor
    · rintro ⟨_, m'', hrecord, -⟩
      exact completes_recordHeartbeat_iff.mp (completes_of_eq hrecord)
    · intro hunchanged
      obtain ⟨_, m'', hrecord⟩ : Completes
          (recordHeartbeat shards arithmetic heartbeat.nodeId recorded judged) [] m' :=
        completes_recordHeartbeat_iff.mpr hunchanged
      exact ⟨_, m'', hrecord, completes_of_eq (insert_granted (grants_nil _ _))⟩
  by_cases hlocal : heartbeat.nodeId = m.localNodeId
  · rw [processHeartbeat, Completes, bind_apply rfl, if_pos hlocal]
    exact iff_of_true (completes_pure _ _ _) fun hforeign => absurd hlocal hforeign
  · rw [processHeartbeat, Completes, bind_apply rfl, if_neg hlocal, imp_iff_right hlocal]
    cases hdetector : m.detectors.lookup heartbeat.nodeId with
    | some detector =>
      rw [bind_apply (ensureRegistered_of_some hdetector)]
      exact hlast m
    | none =>
      obtain ⟨health, hstart⟩ := startMonitoring_eq shards heartbeat.nodeId m
      rw [← ensureRegistered_of_none hlocal hdetector] at hstart
      rw [bind_apply hstart]
      refine (hlast _).trans (iff_of_true ?_ ?_)
      · intro detector hlookup phi hphi
        obtain rfl := Option.some.inj ((AList.lookup_insert m.detectors).symm.trans hlookup)
        exact absurd ((phi_heartbeat_new arithmetic _ _ _ _).symm.trans hphi) (by simp)
      · intro detector hlookup
        exact absurd (hdetector.symm.trans hlookup) (by simp)

/-! ### The state behind a heartbeat -/

theorem health_ne_unknown (m : HealthMonitor F) (suspicion : Suspicion F) (phi : F) :
    m.health suspicion phi ≠ .unknown := by
  unfold HealthMonitor.health
  split
  · simp
  · split <;> simp

/-- A level that goes through is the status already written. -/
theorem updateHealth_eq {m' : WatchedMonitor F}
    (hgrants : held.Grants (.healthStatus (shards.healthStatus nodeId)) .exclusive)
    (hupdate : updateHealth shards arithmetic nodeId phi held m = .ok ((), m')) :
    m' = m ∧ m.healthStatus.lookup nodeId = some (m.health arithmetic.suspicion phi) := by
  have hsame := (completes_updateHealth_iff hgrants).mp (completes_of_eq hupdate)
  have hstatus : m.healthStatus.lookup nodeId = some (m.health arithmetic.suspicion phi) := by
    cases hlookup : m.healthStatus.lookup nodeId with
    | none =>
      rw [hlookup] at hsame
      exact absurd hsame (health_ne_unknown _ _ _)
    | some status =>
      rw [hlookup] at hsame
      exact congrArg some hsame.symm
  rw [updateHealth, bind_apply rfl, withEntryOrInsert_of_some hgrants hstatus,
    if_neg (not_not.mpr rfl), pure_apply] at hupdate
  exact ⟨(Prod.mk.inj (Except.ok.inj hupdate)).2.symm, hstatus⟩

/-- A heartbeat that goes through is recorded as without locks. -/
theorem recordHeartbeat_agrees {now : Nat} {m' : WatchedMonitor F}
    (hrecord : recordHeartbeat shards arithmetic nodeId now now [] m = .ok ((), m')) :
    Agrees m'.toHealthMonitor
      (m.toHealthMonitor.recordHeartbeat arithmetic.suspicion now nodeId) := by
  rw [HealthMonitor.recordHeartbeat]
  cases hdetector : m.detectors.lookup nodeId with
  | none =>
    rw [recordHeartbeat, withRef_of_none (grants_nil _ _) hdetector, pure_apply] at hrecord
    obtain ⟨-, rfl⟩ := Prod.mk.inj (Except.ok.inj hrecord)
    exact ⟨rfl, fun _ => rfl, rfl⟩
  | some detector =>
    rw [recordHeartbeat_of_some hdetector] at hrecord
    have hlevel : arithmetic.suspicion.phi (detector.heartbeat now) now =
        (detector.heartbeat now).phi arithmetic now := rfl
    cases hphi : (detector.heartbeat now).phi arithmetic now with
    | none =>
      rw [hphi] at hrecord
      obtain ⟨-, rfl⟩ := Prod.mk.inj (Except.ok.inj hrecord)
      simp only [hlevel, hphi]
      exact ⟨rfl, fun _ => rfl, rfl⟩
    | some phi =>
      rw [hphi] at hrecord
      obtain ⟨rfl, hstatus⟩ := updateHealth_eq (atHeartbeat_grants_status shards nodeId) hrecord
      simp only [hlevel, hphi]
      refine ⟨rfl, fun other => ?_, rfl⟩
      by_cases hother : other = nodeId
      · rw [hother]
        exact hstatus.trans (AList.lookup_insert m.healthStatus).symm
      · exact (AList.lookup_insert_ne hother).symm

/-- A heartbeat that goes through leaves what the monitor without locks is left with. -/
theorem processHeartbeat_agrees {heartbeat : Heartbeat} {now : Nat} {m' : WatchedMonitor F}
    (hprocess : processHeartbeat shards arithmetic heartbeat now now [] m = .ok ((), m')) :
    Agrees m'.toHealthMonitor
      (m.toHealthMonitor.processHeartbeat arithmetic.suspicion now heartbeat) := by
  have hlast : ∀ (known : WatchedMonitor F),
      (recordHeartbeat shards arithmetic heartbeat.nodeId now now >>= fun _ =>
        (metadataMap shards).insert heartbeat.nodeId heartbeat.metadata) [] known = .ok ((), m') →
      Agrees m'.toHealthMonitor
        { known.toHealthMonitor.recordHeartbeat arithmetic.suspicion now heartbeat.nodeId with
          metadata := AList.insert heartbeat.nodeId heartbeat.metadata
            (known.toHealthMonitor.recordHeartbeat arithmetic.suspicion now
              heartbeat.nodeId).metadata } := by
    intro known hrest
    obtain ⟨_, recorded, hrecord, -⟩ := completes_bind_iff.mp (completes_of_eq hrest)
    rw [bind_apply hrecord, insert_granted (grants_nil _ _)] at hrest
    obtain ⟨-, rfl⟩ := Prod.mk.inj (Except.ok.inj hrest)
    exact (recordHeartbeat_agrees hrecord).insert_metadata _ _
  rw [processHeartbeat, bind_apply rfl] at hprocess
  rw [HealthMonitor.processHeartbeat]
  by_cases hlocal : heartbeat.nodeId = m.localNodeId
  · rw [if_pos hlocal, pure_apply] at hprocess
    obtain ⟨-, rfl⟩ := Prod.mk.inj (Except.ok.inj hprocess)
    simp only [if_pos hlocal]
    exact ⟨rfl, fun _ => rfl, rfl⟩
  · rw [if_neg hlocal] at hprocess
    simp only [if_neg hlocal]
    cases hdetector : m.detectors.lookup heartbeat.nodeId with
    | some detector =>
      rw [bind_apply (ensureRegistered_of_some hdetector)] at hprocess
      have hknown : heartbeat.nodeId ∈ m.detectors :=
        AList.lookup_isSome.mp (by rw [hdetector, Option.isSome_some])
      simp only [if_pos hknown]
      exact hlast m hprocess
    | none =>
      obtain ⟨health, hstart⟩ := startMonitoring_eq shards heartbeat.nodeId m
      rw [← ensureRegistered_of_none hlocal hdetector] at hstart
      rw [bind_apply hstart] at hprocess
      simp only [if_neg (AList.lookup_eq_none.mp hdetector)]
      rw [HealthMonitor.registerNode, if_neg hlocal]
      exact hlast _ hprocess

end Heartbeats

end Ends

end WatchedMonitor

end Failover
end Cluster
end RTDB
