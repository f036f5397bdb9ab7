import RTDB.Cluster.SelfWaits

/-!
# Nodes that fall silent

Runs of calls of the health monitor, one at a time, with the time at which each registered node was
last heard of.  A round of `run_health_checks` is to find the nodes that were silent for longer than
the timeout.
-/

namespace RTDB
namespace Cluster
namespace Failover

open Locks (Routine)
open Locks.Routine (Completes Keeps alone bind_apply pure_apply completes_of_eq)

variable {F : Type} {n : Nat}

/-- The level is past its warm-up or not, whatever the time. -/
theorem PhiAccrualDetector.phi_eq_none {arithmetic : PhiArithmetic F} {d : PhiAccrualDetector}
    {now later : Nat} (hnone : d.phi arithmetic now = none) : d.phi arithmetic later = none := by
  unfold phi at hnone ⊢
  split at hnone
  · next hwarm => exact if_pos hwarm
  · next hpast =>
    rw [if_neg hpast]
    split at hnone
    · rfl
    · split at hnone
      · next hempty => exact if_pos hempty
      · exact absurd hnone (by simp)

theorem PhiAccrualDetector.lastHeartbeat_heartbeat (d : PhiAccrualDetector) (now : Nat) :
    (d.heartbeat now).lastHeartbeat = some now := by
  unfold heartbeat
  split <;> rfl

/-- The monitor, with the time at which each registered node was last heard of: when it was
registered, or when it sent its last heartbeat. -/
structure Watch (F : Type) where
  monitor : WatchedMonitor F
  heard : AList fun _ : Nat => Nat

namespace Watch

def start (localNodeId : Nat) (phiThreshold : F)
    (phiWindowSize warmupCount suspicionTimeout : Nat) : Watch F where
  monitor := .new localNodeId phiThreshold phiWindowSize warmupCount suspicionTimeout
  heard := ∅

/-- The times behind a call that was made at a time. -/
def hear (w : Watch F) (now : Nat) : MonitorCall → AList fun _ : Nat => Nat
  | .registerNode nodeId =>
    if nodeId = w.monitor.localNodeId then w.heard else w.heard.insert nodeId now
  | .unregisterNode nodeId => w.heard.erase nodeId
  | .processHeartbeat heartbeat recorded _ =>
    if heartbeat.nodeId = w.monitor.localNodeId then w.heard
    else w.heard.insert heartbeat.nodeId recorded
  | .runHealthChecks _ | .getHealth _ | .getAllHealth | .getHealthInfo _ _ => w.heard

def Overdue (w : Watch F) (clock : Nat → Nat) (nodeId : Nat) : Prop :=
  ∃ last, w.heard.lookup nodeId = some last ∧ w.monitor.suspicionTimeout < clock nodeId - last

section Perform

variable [LE F] [DecidableLE F] (shards : MonitorShards n) (arithmetic : PhiArithmetic F)

def perform (w : Watch F) (call : MonitorCall × Nat) : Option (Watch F) :=
  ((call.1.routine shards arithmetic).alone w.monitor).map fun monitor =>
    { monitor, heard := w.hear call.2 call.1 }

/-- The detector of the node is past its warm-up and as high as the threshold. -/
def Suspected (w : Watch F) (clock : Nat → Nat) (nodeId : Nat) : Prop :=
  ∃ detector phi, w.monitor.detectors.lookup nodeId = some detector ∧
    detector.phi arithmetic (clock nodeId) = some phi ∧ w.monitor.phiThreshold ≤ phi

/-- A round comes to its end, and every node that is overdue or suspected has failed behind it. -/
def Detects (w : Watch F) (clock : Nat → Nat) : Prop :=
  ∃ results after, WatchedMonitor.runHealthChecks shards clock [] w.monitor = .ok (results, after) ∧
    ∀ nodeId, w.Overdue clock nodeId ∨ w.Suspected arithmetic clock nodeId →
      after.healthStatus.lookup nodeId = some .failed

end Perform

variable (arithmetic : PhiArithmetic F)

/-- What holds between calls: no status was ever found, no detector is past its warm-up, and each
last heartbeat is what the node was last heard of by. -/
structure Silent (w : Watch F) : Prop where
  unknown : ∀ nodeId health, w.monitor.healthStatus.lookup nodeId = some health → health = .unknown
  warming : ∀ nodeId detector, w.monitor.detectors.lookup nodeId = some detector →
    ∀ now, detector.phi arithmetic now = none
  heard : ∀ nodeId detector, w.monitor.detectors.lookup nodeId = some detector →
    ∀ last, detector.lastHeartbeat = some last → w.heard.lookup nodeId = some last

variable {arithmetic} {w w' : Watch F}

theorem silent_start (localNodeId : Nat) (phiThreshold : F)
    (phiWindowSize warmupCount suspicionTimeout : Nat) :
    (start localNodeId phiThreshold phiWindowSize warmupCount suspicionTimeout).Silent
      arithmetic where
  unknown nodeId health hlookup := absurd hlookup (by simp [start, WatchedMonitor.new,
    HealthMonitor.new])
  warming nodeId detector hlookup := absurd hlookup (by simp [start, WatchedMonitor.new,
    HealthMonitor.new])
  heard nodeId detector hlookup := absurd hlookup (by simp [start, WatchedMonitor.new,
    HealthMonitor.new])

theorem Silent.insert {nodeId : Nat} {detector : PhiAccrualDetector} {time : Nat}
    (hsilent : w.Silent arithmetic)
    (hdetectors : w'.monitor.detectors = w.monitor.detectors.insert nodeId detector)
    (hstatus : ∀ other health, w'.monitor.healthStatus.lookup other = some health →
      health = .unknown)
    (hheard : w'.heard = w.heard.insert nodeId time)
    (hwarming : ∀ now, detector.phi arithmetic now = none)
    (hlast : ∀ last, detector.lastHeartbeat = some last → last = time) : w'.Silent arithmetic where
  unknown := hstatus
  warming other found hlookup := by
    rw [hdetectors] at hlookup
    by_cases hother : other = nodeId
    · rw [hother, AList.lookup_insert] at hlookup
      rw [← Option.some.inj hlookup]
      exact hwarming
    · rw [AList.lookup_insert_ne hother] at hlookup
      exact hsilent.warming other found hlookup
  heard other found hlookup last hfound := by
    rw [hdetectors] at hlookup
    rw [hheard]
    by_cases hother : other = nodeId
    · rw [hother, AList.lookup_insert] at hlookup ⊢
      rw [← Option.some.inj hlookup] at hfound
      rw [hlast last hfound]
    · rw [AList.lookup_insert_ne hother] at hlookup ⊢
      exact hsilent.heard other found hlookup last hfound

open Locks Locks.Routine Locks.DashMap

/-- A call that leaves the monitor and the times alone. -/
theorem Silent.kept {α : Type} {t : Routine (MonitorLock n) (WatchedMonitor F) α}
    (hsilent : w.Silent arithmetic) (hkeeps : Keeps t [] w.monitor) {monitor : WatchedMonitor F}
    {result : Unit} (hrun : (t >>= fun _ => pure ()) [] w.monitor = .ok (result, monitor)) :
    ({ monitor, heard := w.heard } : Watch F).Silent arithmetic := by
  have hsame := keeps_bind hkeeps (fun _ => keeps_pure () [] w.monitor) result monitor hrun
  rw [hsame]
  exact hsilent

theorem phi_new (windowSize warmupCount now : Nat) :
    (PhiAccrualDetector.new windowSize warmupCount).phi arithmetic now = none := by
  show (if 0 < warmupCount then none else none) = none
  rw [ite_self]

theorem unknown_insert (hsilent : w.Silent arithmetic) (nodeId : Nat) (other : Nat)
    (health : NodeHealth)
    (hlookup : (w.monitor.healthStatus.insert nodeId .unknown).lookup other = some health) :
    health = .unknown := by
  by_cases hother : other = nodeId
  · rw [hother, AList.lookup_insert] at hlookup
    exact (Option.some.inj hlookup).symm
  · rw [AList.lookup_insert_ne hother] at hlookup
    exact hsilent.unknown other health hlookup

variable {shards : MonitorShards n}

theorem Silent.registerNode {nodeId now : Nat} {monitor : WatchedMonitor F}
    (hsilent : w.Silent arithmetic)
    (hregister : WatchedMonitor.registerNode shards nodeId [] w.monitor = .ok ((), monitor)) :
    ({ monitor, heard := w.hear now (.registerNode nodeId) } : Watch F).Silent arithmetic := by
  by_cases hlocal : nodeId = w.monitor.localNodeId
  · rw [WatchedMonitor.registerNode, bind_apply rfl, if_pos hlocal, pure_apply] at hregister
    obtain ⟨-, rfl⟩ := Prod.mk.inj (Except.ok.inj hregister)
    rw [hear, if_pos hlocal]
    exact hsilent
  · obtain ⟨health, hstart⟩ := WatchedMonitor.startMonitoring_eq shards nodeId w.monitor
    rw [WatchedMonitor.registerNode_eq shards w.monitor hlocal, hstart] at hregister
    obtain ⟨-, rfl⟩ := Prod.mk.inj (Except.ok.inj hregister)
    rw [hear, if_neg hlocal]
    exact hsilent.insert rfl (unknown_insert hsilent nodeId) rfl (phi_new _ _)
      fun last hfound => absurd hfound (by simp [PhiAccrualDetector.new])

theorem Silent.unregisterNode {nodeId now : Nat} {monitor : WatchedMonitor F}
    (hsilent : w.Silent arithmetic)
    (hunregister : WatchedMonitor.unregisterNode shards nodeId [] w.monitor = .ok ((), monitor)) :
    ({ monitor, heard := w.hear now (.unregisterNode nodeId) } : Watch F).Silent arithmetic := by
  obtain ⟨health, hend⟩ := WatchedMonitor.unregisterNode_eq shards nodeId w.monitor
  obtain ⟨-, rfl⟩ := Prod.mk.inj (Except.ok.inj (hend.symm.trans hunregister))
  refine ⟨fun other found hlookup => ?_, fun other found hlookup => ?_,
    fun other found hlookup last hfound => ?_⟩
  · by_cases hother : other = nodeId
    · rw [hother] at hlookup
      exact absurd ((AList.lookup_erase _ _).symm.trans hlookup) (by simp)
    · exact hsilent.unknown other found ((AList.lookup_erase_ne hother).symm.trans hlookup)
  · by_cases hother : other = nodeId
    · rw [hother] at hlookup
      exact absurd ((AList.lookup_erase _ _).symm.trans hlookup) (by simp)
    · exact hsilent.warming other found ((AList.lookup_erase_ne hother).symm.trans hlookup)
  · by_cases hother : other = nodeId
    · rw [hother] at hlookup
      exact absurd ((AList.lookup_erase _ _).symm.trans hlookup) (by simp)
    · have hbefore := hsilent.heard other found
        ((AList.lookup_erase_ne hother).symm.trans hlookup) last hfound
      exact (AList.lookup_erase_ne hother).trans hbefore

section Calls

variable [LE F] [DecidableLE F]

/-- A heartbeat that goes through finds no level: the first one would be a status. -/
theorem recordHeartbeat_of_unknown {m m' : WatchedMonitor F} {nodeId recorded judged : Nat}
    {detector : PhiAccrualDetector} (hdetector : m.detectors.lookup nodeId = some detector)
    (hunknown : ∀ health, m.healthStatus.lookup nodeId = some health → health = .unknown)
    (hrecord : WatchedMonitor.recordHeartbeat shards arithmetic nodeId recorded judged [] m =
      .ok ((), m')) :
    (detector.heartbeat recorded).phi arithmetic judged = none ∧
      m' = { m with detectors := m.detectors.insert nodeId (detector.heartbeat recorded) } := by
  have hsame := WatchedMonitor.completes_recordHeartbeat_iff.mp (completes_of_eq hrecord)
    detector hdetector
  rw [WatchedMonitor.recordHeartbeat_of_some hdetector] at hrecord
  cases hphi : (detector.heartbeat recorded).phi arithmetic judged with
  | none =>
    rw [hphi] at hrecord
    exact ⟨rfl, (Prod.mk.inj (Except.ok.inj hrecord)).2.symm⟩
  | some phi =>
    have hstatus : (m.healthStatus.lookup nodeId).getD .unknown = .unknown := by
      cases hlookup : m.healthStatus.lookup nodeId with
      | none => rfl
      | some health => exact hunknown health hlookup
    rw [hstatus] at hsame
    exact absurd (hsame phi hphi) (WatchedMonitor.health_ne_unknown _ _ _)

theorem Silent.processHeartbeat {heartbeat : Heartbeat} {recorded judged now : Nat}
    {monitor : WatchedMonitor F} (hsilent : w.Silent arithmetic)
    (hprocess : WatchedMonitor.processHeartbeat shards arithmetic heartbeat recorded judged []
      w.monitor = .ok ((), monitor)) :
    ({ monitor, heard := w.hear now (.processHeartbeat heartbeat recorded judged) } :
      Watch F).Silent arithmetic := by
  have hlast : ∀ (known : WatchedMonitor F) (detector : PhiAccrualDetector),
      known.detectors.lookup heartbeat.nodeId = some detector →
      (∀ nodeId health, known.healthStatus.lookup nodeId = some health → health = .unknown) →
      known.detectors.insert heartbeat.nodeId (detector.heartbeat recorded) =
        w.monitor.detectors.insert heartbeat.nodeId (detector.heartbeat recorded) →
      (WatchedMonitor.recordHeartbeat shards arithmetic heartbeat.nodeId recorded judged >>=
        fun _ => (WatchedMonitor.metadataMap shards).insert heartbeat.nodeId heartbeat.metadata)
          [] known = .ok ((), monitor) →
      ({ monitor, heard := w.heard.insert heartbeat.nodeId recorded } : Watch F).Silent
        arithmetic := by
    intro known detector hdetector hunknown hinsert hrest
    obtain ⟨_, behind, hrecord, -⟩ := completes_bind_iff.mp (completes_of_eq hrest)
    obtain ⟨hwarming, rfl⟩ := recordHeartbeat_of_unknown hdetector (hunknown _) hrecord
    rw [bind_apply hrecord, insert_granted (grants_nil _ _)] at hrest
    obtain ⟨-, rfl⟩ := Prod.mk.inj (Except.ok.inj hrest)
    refine hsilent.insert hinsert hunknown rfl
      (fun later => PhiAccrualDetector.phi_eq_none hwarming) fun last hfound => ?_
    rw [PhiAccrualDetector.lastHeartbeat_heartbeat] at hfound
    exact (Option.some.inj hfound).symm
  rw [WatchedMonitor.processHeartbeat, bind_apply rfl] at hprocess
  by_cases hlocal : heartbeat.nodeId = w.monitor.localNodeId
  · rw [if_pos hlocal, pure_apply] at hprocess
    obtain ⟨-, rfl⟩ := Prod.mk.inj (Except.ok.inj hprocess)
    rw [hear, if_pos hlocal]
    exact hsilent
  · rw [if_neg hlocal] at hprocess
    rw [hear, if_neg hlocal]
    cases hdetector : w.monitor.detectors.lookup heartbeat.nodeId with
    | some detector =>
      rw [bind_apply (WatchedMonitor.ensureRegistered_of_some hdetector)] at hprocess
      exact hlast w.monitor detector hdetector hsilent.unknown rfl hprocess
    | none =>
      obtain ⟨health, hstart⟩ := WatchedMonitor.startMonitoring_eq shards heartbeat.nodeId w.monitor
      rw [← WatchedMonitor.ensureRegistered_of_none hlocal hdetector] at hstart
      rw [bind_apply hstart] at hprocess
      exact hlast _ _ (AList.lookup_insert _) (unknown_insert hsilent heartbeat.nodeId)
        (AList.insert_insert _) hprocess

theorem silent_perform {call : MonitorCall × Nat} (hsilent : w.Silent arithmetic)
    (hperform : w.perform shards arithmetic call = some w') : w'.Silent arithmetic := by
  obtain ⟨monitor, halone, rfl⟩ := Option.map_eq_some_iff.mp hperform
  obtain ⟨_, hrun⟩ := alone_eq_some_iff.mp halone
  obtain ⟨call, now⟩ := call
  cases call with
  | registerNode nodeId => exact hsilent.registerNode hrun
  | unregisterNode nodeId => exact hsilent.unregisterNode hrun
  | processHeartbeat heartbeat recorded judged => exact hsilent.processHeartbeat hrun
  | runHealthChecks clock => exact hsilent.kept WatchedMonitor.keeps_runHealthChecks hrun
  | getHealth nodeId =>
    exact hsilent.kept (WatchedMonitor.keeps_getHealth shards nodeId w.monitor) hrun
  | getAllHealth => exact hsilent.kept WatchedMonitor.keeps_getAllHealth hrun
  | getHealthInfo judged now =>
    refine hsilent.kept ?_ hrun
    exact WatchedMonitor.keeps_getHealthInfo shards arithmetic judged now w.monitor

/-- From the start, a round detects what it is to detect exactly if no registered node is overdue:
no other call leaves a status behind, and a round that is to write one waits for itself. -/
theorem detects_iff {localNodeId : Nat} {phiThreshold : F}
    {phiWindowSize warmupCount suspicionTimeout : Nat} {calls : List (MonitorCall × Nat)}
    (hrun : calls.foldlM (perform shards arithmetic)
      (start localNodeId phiThreshold phiWindowSize warmupCount suspicionTimeout) = some w)
    (clock : Nat → Nat) :
    w.Detects shards arithmetic clock ↔ ∀ nodeId, ¬w.Overdue clock nodeId := by
  have hsilent : w.Silent arithmetic := Runs.foldlM_keeps
    (fun _ _ _ hsilent hperform => silent_perform hsilent hperform)
    (silent_start localNodeId phiThreshold phiWindowSize warmupCount suspicionTimeout) hrun
  constructor
  · rintro ⟨results, after, hround, hfailed⟩ nodeId hoverdue
    obtain rfl := WatchedMonitor.keeps_runHealthChecks results after hround
    exact absurd (hsilent.unknown nodeId .failed (hfailed nodeId (Or.inl hoverdue))) (by simp)
  · intro hnone
    have hcompletes : Completes (WatchedMonitor.runHealthChecks shards clock) [] w.monitor := by
      refine WatchedMonitor.completes_runHealthChecks_iff.mpr fun nodeId health _ hlate => ?_
      obtain ⟨detector, last, hdetector, hlast, hlate⟩ := hlate
      exact absurd ⟨last, hsilent.heard nodeId detector hdetector last hlast, hlate⟩ (hnone nodeId)
    obtain ⟨results, after, hround⟩ := hcompletes
    refine ⟨results, after, hround, fun nodeId hor => ?_⟩
    rcases hor with hoverdue | ⟨detector, phi, hdetector, hphi, -⟩
    · exact absurd hoverdue (hnone nodeId)
    · rw [hsilent.warming nodeId detector hdetector] at hphi
      exact absurd hphi (by simp)

end Calls

open Supervision (sampleShards sampleArithmetic)

def sampleWatch : Watch Nat := start 1 8 1000 1 10

/-- A node that is heard of in time, and then no more. -/
theorem detects_oneHeartbeat :
    ∃ w, [(.registerNode 2, 0), (.processHeartbeat ⟨2, 0, 5, 0, ∅⟩ 5 5, 5)].foldlM
        (perform sampleShards.toMonitorShards sampleArithmetic)
        sampleWatch = some w ∧
      w.Detects sampleShards.toMonitorShards sampleArithmetic (fun _ => 15) ∧
      ¬w.Detects sampleShards.toMonitorShards sampleArithmetic
        (fun _ => 16) := by
  have hrun : ∃ w, [(.registerNode 2, 0), (.processHeartbeat ⟨2, 0, 5, 0, ∅⟩ 5 5, 5)].foldlM
      (perform sampleShards.toMonitorShards sampleArithmetic)
      sampleWatch = some w ∧ w.monitor.suspicionTimeout = 10 ∧
        w.heard = AList.insert 2 5 (AList.insert 2 0 ∅) :=
    ⟨_, rfl, rfl, rfl⟩
  obtain ⟨w, hrun, htimeout, hheard⟩ := hrun
  refine ⟨w, hrun, (detects_iff hrun _).mpr ?_, fun hdetects => ?_⟩
  · rintro nodeId ⟨last, hlookup, hlate⟩
    rw [hheard, AList.insert_insert] at hlookup
    rw [htimeout] at hlate
    by_cases hnode : nodeId = 2
    · rw [hnode, AList.lookup_insert] at hlookup
      rw [← Option.some.inj hlookup] at hlate
      exact absurd hlate (Nat.lt_irrefl 10)
    · rw [AList.lookup_insert_ne hnode, AList.lookup_empty] at hlookup
      exact absurd hlookup (by simp)
  · refine (detects_iff hrun _).mp hdetects 2 ⟨5, ?_, ?_⟩
    · rw [hheard, AList.lookup_insert]
    · rw [htimeout]
      decide

/-- Node 2 is registered and never heard of, and the round behind the timeout leaves it as it is.
Node 2 is heard of once, and the round behind the timeout does not come back. -/
theorem not_detects_silent :
    (∃ w, [(.registerNode 2, 0)].foldlM
        (perform sampleShards.toMonitorShards sampleArithmetic)
        sampleWatch = some w ∧
      w.Overdue (fun _ => 11) 2 ∧
      ∃ results after, WatchedMonitor.runHealthChecks sampleShards.toMonitorShards
          (fun _ => 11) [] w.monitor = .ok (results, after) ∧
        after.healthStatus.lookup 2 = some .unknown) ∧
    ∃ w, [(.processHeartbeat ⟨2, 0, 0, 0, ∅⟩ 0 0, 0)].foldlM
        (perform sampleShards.toMonitorShards sampleArithmetic)
        sampleWatch = some w ∧
      w.Overdue (fun _ => 11) 2 ∧
      ¬Completes (WatchedMonitor.runHealthChecks sampleShards.toMonitorShards
        fun _ => 11) [] w.monitor := by
  refine ⟨⟨_, rfl, ⟨0, rfl, by decide⟩, _, _, rfl, rfl⟩, _, rfl, ⟨0, rfl, by decide⟩, ?_⟩
  rw [WatchedMonitor.completes_runHealthChecks_iff]
  intro hall
  exact absurd (hall 2 .unknown rfl ⟨_, 0, rfl, rfl, by decide⟩) (by decide)

end Watch

end Failover
end Cluster
end RTDB
