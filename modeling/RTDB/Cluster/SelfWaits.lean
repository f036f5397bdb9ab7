import RTDB.Cluster.Membership

/-!
# Calls that wait for themselves

Runs of calls of the health monitor and the membership manager, one at a time.  A call that
asks for a lock it holds itself never comes back, and the run is over.
-/

namespace RTDB
namespace Cluster
namespace Failover

open Locks (Routine)
open Locks.Routine (Completes completes_bind_pure_iff isSome_alone_iff)

variable {F : Type} {n : Nat}

/-- Every reading of a clock is an argument of the call. -/
inductive MonitorCall where
  | registerNode (nodeId : Nat)
  | unregisterNode (nodeId : Nat)
  | processHeartbeat (heartbeat : Heartbeat) (recorded judged : Nat)
  | runHealthChecks (clock : Nat → Nat)
  | getHealth (nodeId : Nat)
  | getAllHealth
  | getHealthInfo (judged now : Nat → Nat)

inductive MemberCall where
  | addMember (nodeId : Nat) (address : String) (now : Nat)
  | activateMember (nodeId now : Nat)
  | removeMember (nodeId : Nat)
  | updateMetadata (nodeId : Nat) (metadata : AList fun _ : String => String) (now : Nat)
  | getActiveMembers
  | getAllMembers
  | memberCount
  | activeMemberCount
  | hasQuorum

namespace MonitorCall

variable [LE F] [DecidableLE F] (shards : MonitorShards n) (arithmetic : PhiArithmetic F)

def routine : MonitorCall → Routine (MonitorLock n) (WatchedMonitor F) Unit
  | .registerNode nodeId => WatchedMonitor.registerNode shards nodeId
  | .unregisterNode nodeId => WatchedMonitor.unregisterNode shards nodeId
  | .processHeartbeat heartbeat recorded judged =>
    WatchedMonitor.processHeartbeat shards arithmetic heartbeat recorded judged
  | .runHealthChecks clock => do
    let _ ← WatchedMonitor.runHealthChecks shards clock
    pure ()
  | .getHealth nodeId => do
    let _ ← WatchedMonitor.getHealth shards nodeId
    pure ()
  | .getAllHealth => do
    let _ ← WatchedMonitor.getAllHealth shards
    pure ()
  | .getHealthInfo judged now => do
    let _ ← WatchedMonitor.getHealthInfo shards arithmetic judged now
    pure ()

/-- No status changes while it is held: the heartbeat of another node leaves the status of its sender
as it is, and the round meets no node that it has to mark as failed. -/
def LeavesStatus (m : WatchedMonitor F) : MonitorCall → Prop
  | .processHeartbeat heartbeat recorded judged =>
    heartbeat.nodeId ≠ m.localNodeId →
      WatchedMonitor.Unchanged arithmetic m heartbeat.nodeId recorded judged
  | .runHealthChecks clock =>
    ∀ nodeId health, m.healthStatus.lookup nodeId = some health →
      WatchedMonitor.TimedOut m clock nodeId → health = .failed
  | _ => True

theorem completes_iff {m : WatchedMonitor F} {call : MonitorCall} :
    Completes (call.routine shards arithmetic) [] m ↔ call.LeavesStatus arithmetic m := by
  cases call with
  | registerNode nodeId =>
    exact iff_of_true (WatchedMonitor.completes_registerNode shards nodeId m) trivial
  | unregisterNode nodeId =>
    exact iff_of_true (WatchedMonitor.completes_unregisterNode shards nodeId m) trivial
  | processHeartbeat heartbeat recorded judged =>
    exact WatchedMonitor.completes_processHeartbeat_iff
  | runHealthChecks clock =>
    exact completes_bind_pure_iff.trans WatchedMonitor.completes_runHealthChecks_iff
  | getHealth nodeId =>
    refine iff_of_true (completes_bind_pure_iff.mpr ?_) trivial
    exact WatchedMonitor.completes_getHealth shards nodeId m
  | getAllHealth =>
    refine iff_of_true (completes_bind_pure_iff.mpr ?_) trivial
    exact WatchedMonitor.completes_getAllHealth shards m
  | getHealthInfo judged now =>
    refine iff_of_true (completes_bind_pure_iff.mpr ?_) trivial
    exact WatchedMonitor.completes_getHealthInfo shards arithmetic judged now m

end MonitorCall

namespace MemberCall

variable (shardOf : Nat → Fin n)

def routine : MemberCall → Routine (MemberLock n) MembershipManager Unit
  | .addMember nodeId address now => MembershipManager.addMember shardOf nodeId address now
  | .activateMember nodeId now => MembershipManager.activateMember shardOf nodeId now
  | .removeMember nodeId => MembershipManager.removeMember shardOf nodeId
  | .updateMetadata nodeId metadata now =>
    MembershipManager.updateMetadata shardOf nodeId metadata now
  | .getActiveMembers => do
    let _ ← MembershipManager.getActiveMembers shardOf
    pure ()
  | .getAllMembers => do
    let _ ← MembershipManager.getAllMembers shardOf
    pure ()
  | .memberCount => do
    let _ ← MembershipManager.memberCount shardOf
    pure ()
  | .activeMemberCount => do
    let _ ← MembershipManager.activeMemberCount shardOf
    pure ()
  | .hasQuorum => do
    let _ ← MembershipManager.hasQuorum shardOf
    pure ()

/-- A node that is activated is not a member. -/
def ActivatesNone (m : MembershipManager) : MemberCall → Prop
  | .activateMember nodeId _ => nodeId ∉ m.members
  | _ => True

theorem completes_iff {m : MembershipManager} {call : MemberCall} :
    Completes (call.routine shardOf) [] m ↔ call.ActivatesNone m := by
  cases call with
  | addMember nodeId address now =>
    exact iff_of_true (MembershipManager.completes_addMember shardOf nodeId address now m) trivial
  | activateMember nodeId now => exact MembershipManager.completes_activateMember_iff
  | removeMember nodeId =>
    exact iff_of_true (MembershipManager.completes_removeMember shardOf nodeId m) trivial
  | updateMetadata nodeId metadata now =>
    refine iff_of_true ?_ trivial
    exact MembershipManager.completes_updateMetadata shardOf nodeId metadata now m
  | getActiveMembers =>
    refine iff_of_true (completes_bind_pure_iff.mpr ?_) trivial
    exact completes_bind_pure_iff.mpr (MembershipManager.completes_members m)
  | getAllMembers =>
    refine iff_of_true (completes_bind_pure_iff.mpr ?_) trivial
    exact MembershipManager.completes_members m
  | memberCount =>
    refine iff_of_true (completes_bind_pure_iff.mpr ?_) trivial
    exact MembershipManager.completes_memberCount shardOf m
  | activeMemberCount =>
    refine iff_of_true (completes_bind_pure_iff.mpr ?_) trivial
    exact MembershipManager.completes_activeMemberCount shardOf m
  | hasQuorum =>
    refine iff_of_true (completes_bind_pure_iff.mpr ?_) trivial
    exact MembershipManager.completes_hasQuorum shardOf m

end MemberCall

/-! ## Runs -/

/-- The two of a `FailoverSystem` that the calls are made on. -/
structure Supervision (F : Type) where
  healthMonitor : WatchedMonitor F
  membership : MembershipManager

inductive SupervisionCall where
  | healthMonitor (call : MonitorCall)
  | membership (call : MemberCall)

/-- The shards of every map. -/
structure SupervisionShards (n : Nat) extends MonitorShards n where
  members : Nat → Fin n

namespace Supervision

variable [LE F] [DecidableLE F] (shards : SupervisionShards n) (arithmetic : PhiArithmetic F)

def perform (s : Supervision F) : SupervisionCall → Option (Supervision F)
  | .healthMonitor call =>
    ((call.routine shards.toMonitorShards arithmetic).alone s.healthMonitor).map fun healthMonitor =>
      { s with healthMonitor }
  | .membership call =>
    ((call.routine shards.members).alone s.membership).map fun membership => { s with membership }

/-- The call changes no status that it holds and activates no member. -/
def Settles (s : Supervision F) : SupervisionCall → Prop
  | .healthMonitor call => call.LeavesStatus arithmetic s.healthMonitor
  | .membership call => call.ActivatesNone s.membership

theorem isSome_perform_iff {s : Supervision F} {call : SupervisionCall} :
    (s.perform shards arithmetic call).isSome = true ↔ s.Settles arithmetic call := by
  cases call with
  | healthMonitor call =>
    rw [perform, Option.isSome_map, isSome_alone_iff]
    exact MonitorCall.completes_iff shards.toMonitorShards arithmetic
  | membership call =>
    rw [perform, Option.isSome_map, isSome_alone_iff]
    exact MemberCall.completes_iff shards.members

/-- One shard for every map, and a level that is the time since the last heartbeat. -/
def sampleShards : SupervisionShards 1 :=
  { detectors := fun _ => 0, healthStatus := fun _ => 0, metadata := fun _ => 0
    members := fun _ => 0 }

def sampleArithmetic : PhiArithmetic Nat :=
  { level := fun _ elapsed => elapsed, half := fun threshold => threshold / 2, zero := 0 }

def sampleStart : Supervision Nat :=
  { healthMonitor := WatchedMonitor.new 1 8 1000 1 10, membership := MembershipManager.new 1 }

/-- The second heartbeat makes a node healthy. -/
example : ([.healthMonitor (.processHeartbeat ⟨2, 0, 0, 0, ∅⟩ 0 0),
    .healthMonitor (.processHeartbeat ⟨2, 1, 1, 0, ∅⟩ 1 1)].foldlM
      (perform sampleShards sampleArithmetic) sampleStart).isSome = false := by
  decide

/-- A node has been silent for longer than the timeout. -/
example : ([.healthMonitor (.processHeartbeat ⟨2, 0, 0, 0, ∅⟩ 0 0),
    .healthMonitor (.runHealthChecks fun _ => 11)].foldlM
      (perform sampleShards sampleArithmetic) sampleStart).isSome = false := by
  decide

end Supervision

end Failover
end Cluster
end RTDB
