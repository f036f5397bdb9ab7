import RTDB.Cluster.Health

/-!
# Cluster membership and its locks

The calls of `MembershipManager` in `cluster/failover.rs` with the shards they lock.  A member
is activated through a reference that is alive while the members are broadcast.
-/

namespace RTDB
namespace Cluster
namespace Failover

open Storage (wrappingAdd)
open Locks (DashMap Routine)
open Locks.Routine (under)

inductive MembershipStatus where
  | active
  | joining
  | leaving
  | removed
  deriving DecidableEq, Repr

structure ClusterMember where
  nodeId : Nat
  address : String
  status : MembershipStatus
  joinedAt : Nat
  lastSeen : Nat
  metadata : AList fun _ : String => String

inductive MemberLock (n : Nat) where
  | members (shard : Fin n)
  | changeTx
  deriving DecidableEq, Repr

/-- The manager, with the value in its watch channel. -/
structure MembershipManager where
  localNodeId : Nat
  members : AList fun _ : Nat => ClusterMember
  epoch : Nat
  changeTx : List ClusterMember

namespace MembershipManager

variable {n : Nat}

def new (localNodeId : Nat) : MembershipManager :=
  { localNodeId, members := ∅, epoch := 0, changeTx := [] }

section Calls

variable (shardOf : Nat → Fin n)

def memberMap : DashMap (MemberLock n) MembershipManager Nat ClusterMember :=
  { shards := n, shardOf, lock := .members, entries := fun m => m.members
    store := fun members m => { m with members } }

def getAllMembers : Routine (MemberLock n) MembershipManager (List ClusterMember) :=
  (memberMap shardOf).iterate fun _ member => pure member

def send (members : List ClusterMember) : Routine (MemberLock n) MembershipManager Unit :=
  under .changeTx .exclusive (Routine.modify fun m => { m with changeTx := members })

def broadcastMembers : Routine (MemberLock n) MembershipManager Unit := do
  let members ← getAllMembers shardOf
  send members

/-- The epoch is an atomic counter, which no lock is around. -/
def countEpoch : Routine (MemberLock n) MembershipManager Unit :=
  Routine.modify fun m => { m with epoch := wrappingAdd m.epoch 1 }

def addMember (nodeId : Nat) (address : String) (now : Nat) :
    Routine (MemberLock n) MembershipManager Unit := do
  (memberMap shardOf).insert nodeId
    { nodeId, address, status := .joining, joinedAt := now, lastSeen := now, metadata := ∅ }
  countEpoch
  broadcastMembers shardOf

/-- The reference to the member lives to the end of the block, behind the broadcast. -/
def activateMember (nodeId now : Nat) : Routine (MemberLock n) MembershipManager Unit :=
  (memberMap shardOf).withRef nodeId .exclusive (pure ()) fun member => do
    (memberMap shardOf).put nodeId { member with status := .active, lastSeen := now }
    broadcastMembers shardOf

def removeMember (nodeId : Nat) : Routine (MemberLock n) MembershipManager Unit := do
  let removed ← (memberMap shardOf).remove nodeId
  match removed with
  | none => pure ()
  | some _ => do
    countEpoch
    broadcastMembers shardOf

def updateMetadata (nodeId : Nat) (metadata : AList fun _ : String => String) (now : Nat) :
    Routine (MemberLock n) MembershipManager Unit :=
  (memberMap shardOf).withRef nodeId .exclusive (pure ()) fun member =>
    (memberMap shardOf).put nodeId { member with metadata, lastSeen := now }

def getActiveMembers : Routine (MemberLock n) MembershipManager (List ClusterMember) := do
  let members ← (memberMap shardOf).iterate fun _ member => pure member
  pure (members.filter fun member => member.status = .active)

def memberCount : Routine (MemberLock n) MembershipManager Nat :=
  (memberMap shardOf).len

def activeMemberCount : Routine (MemberLock n) MembershipManager Nat := do
  let members ← (memberMap shardOf).iterate fun _ member => pure member
  pure (members.countP fun member => member.status = .active)

/-- More than half of the members are active. -/
def hasQuorum : Routine (MemberLock n) MembershipManager Bool := do
  let active ← activeMemberCount shardOf
  let total ← memberCount shardOf
  pure (total / 2 < active)

end Calls

/-! ## Which calls come to their end -/

section Ends

variable {shardOf : Nat → Fin n} {m : MembershipManager} {held : Locks.Held (MemberLock n)}
  {nodeId : Nat}

open Locks Locks.Routine Locks.DashMap

theorem completes_members_iff :
    Completes ((memberMap shardOf).iterate fun _ member => pure member) held m ↔
      ∀ i, held.Grants (.members i) .shared := by
  rw [completes_iterate_iff fun _ _ _ => keeps_pure _ _ _]
  exact and_iff_left fun _ _ _ => completes_pure _ _ _

/-- A broadcast reads every member, so no guard on one of them may be held. -/
theorem completes_broadcastMembers_iff :
    Completes (broadcastMembers shardOf) held m ↔
      (∀ i, held.Grants (.members i) .shared) ∧ held.Grants .changeTx .exclusive := by
  rw [broadcastMembers, completes_bind_iff]
  constructor
  · rintro ⟨members, m', hall, hsend⟩
    exact ⟨completes_members_iff.mp (completes_of_eq hall), (completes_under_iff.mp hsend).1⟩
  · rintro ⟨hshards, hsend⟩
    obtain ⟨members, m', hall⟩ : Completes (getAllMembers shardOf) held m :=
      completes_members_iff.mpr hshards
    exact ⟨members, m', hall, completes_under_iff.mpr ⟨hsend, (), _, rfl⟩⟩

theorem completes_broadcastMembers (m : MembershipManager) :
    Completes (broadcastMembers shardOf) [] m :=
  completes_broadcastMembers_iff.mpr ⟨fun _ => grants_nil _ _, grants_nil _ _⟩

theorem completes_addMember (shardOf : Nat → Fin n) (nodeId : Nat) (address : String) (now : Nat)
    (m : MembershipManager) : Completes (addMember shardOf nodeId address now) [] m := by
  rw [addMember, Completes, bind_apply (insert_granted (grants_nil _ _)), bind_apply rfl]
  exact completes_broadcastMembers _

/-- The broadcast waits for the shard of the member that is being activated. -/
theorem completes_activateMember_iff {now : Nat} :
    Completes (activateMember shardOf nodeId now) [] m ↔ nodeId ∉ m.members := by
  rw [← AList.lookup_eq_none]
  cases hmember : m.members.lookup nodeId with
  | none =>
    rw [activateMember, Completes, withRef_of_none (grants_nil _ _) hmember]
    exact iff_of_true (completes_pure _ _ _) rfl
  | some member =>
    rw [activateMember, Completes, withRef_of_some (grants_nil _ _) hmember, bind_apply rfl]
    refine iff_of_false (fun hcompletes => ?_) (by simp)
    have hgrants := (completes_broadcastMembers_iff.mp hcompletes).1 (shardOf nodeId)
    exact not_grants_of_exclusive _ List.mem_cons_self hgrants

theorem completes_removeMember (shardOf : Nat → Fin n) (nodeId : Nat) (m : MembershipManager) :
    Completes (removeMember shardOf nodeId) [] m := by
  rw [removeMember, Completes, bind_apply (remove_granted (grants_nil _ _))]
  cases (memberMap shardOf).entries m |>.lookup nodeId with
  | none => exact completes_pure _ _ _
  | some member =>
    show Completes (countEpoch >>= fun _ => broadcastMembers shardOf) [] _
    rw [Completes, bind_apply rfl]
    exact completes_broadcastMembers _

/-- The reference is not held across another access. -/
theorem completes_updateMetadata (shardOf : Nat → Fin n) (nodeId : Nat)
    (metadata : AList fun _ : String => String) (now : Nat) (m : MembershipManager) :
    Completes (updateMetadata shardOf nodeId metadata now) [] m := by
  rw [updateMetadata, Completes]
  cases hmember : m.members.lookup nodeId with
  | none =>
    rw [withRef_of_none (grants_nil _ _) hmember]
    exact completes_pure _ _ _
  | some member =>
    rw [withRef_of_some (grants_nil _ _) hmember]
    exact ⟨(), _, rfl⟩

theorem completes_members (m : MembershipManager) :
    Completes ((memberMap shardOf).iterate fun _ member => pure member) [] m :=
  completes_members_iff.mpr fun _ => grants_nil _ _

theorem completes_activeMemberCount (shardOf : Nat → Fin n) (m : MembershipManager) :
    Completes (activeMemberCount shardOf) [] m :=
  completes_bind_pure_iff.mpr (completes_members m)

theorem completes_memberCount (shardOf : Nat → Fin n) (m : MembershipManager) :
    Completes (memberCount shardOf) [] m :=
  completes_len_iff.mpr fun _ => grants_nil _ _

theorem completes_hasQuorum (shardOf : Nat → Fin n) (m : MembershipManager) :
    Completes (hasQuorum shardOf) [] m := by
  obtain ⟨active, m', hactive⟩ := completes_activeMemberCount shardOf m
  rw [hasQuorum, Completes, bind_apply hactive]
  exact completes_bind_pure_iff.mpr (completes_memberCount shardOf m')

end Ends

end MembershipManager

end Failover
end Cluster
end RTDB
