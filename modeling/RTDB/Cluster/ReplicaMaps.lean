import RTDB.Cluster.Replication

/-!
# The two maps of the replica tracker

The tracker keeps the replicas of each shard and the shards of each node.  They are two
readings of one relation between shards and nodes, however replicas are registered,
removed and assigned.
-/

namespace RTDB
namespace Cluster

open ReplicaTracker

def ReplicaTracker.getNodeShards (t : ReplicaTracker) (nodeId : NodeId) : Finset ShardId :=
  (t.nodeShards nodeId).getD ∅

def ReplicaTracker.Hosts (t : ReplicaTracker) (shardId : ShardId) (nodeId : NodeId) : Prop :=
  ∃ r ∈ t.getReplicas shardId, r.nodeId = nodeId

/-- A node is said to have a shard exactly when a replica of the shard is on it. -/
def Mirrored (t : ReplicaTracker) : Prop :=
  ∀ shardId nodeId, shardId ∈ t.getNodeShards nodeId ↔ t.Hosts shardId nodeId

variable {t : ReplicaTracker} {s : ShardId} {n : NodeId}

/-! ## Registering -/

theorem hosts_registerReplica (replica : ShardReplica) :
    (t.registerReplica replica).Hosts s n ↔
      t.Hosts s n ∨ (s = replica.shardId ∧ n = replica.nodeId) := by
  rw [Hosts, Hosts, registerReplica_replicas]
  by_cases hs : s = replica.shardId
  · subst hs
    rw [if_pos rfl]
    constructor
    · rintro ⟨r, hr, hnode⟩
      rcases List.mem_append.mp hr with hold | hnew
      · exact Or.inl ⟨r, hold, hnode⟩
      · rw [List.mem_singleton] at hnew
        exact Or.inr ⟨rfl, by rw [← hnode, hnew]⟩
    · rintro (⟨r, hr, hnode⟩ | ⟨-, hnode⟩)
      · exact ⟨r, List.mem_append_left _ hr, hnode⟩
      · exact ⟨replica, List.mem_append_right _ (List.mem_singleton_self replica), hnode.symm⟩
  · rw [if_neg hs, List.append_nil]
    exact ⟨Or.inl, fun h => h.resolve_right fun hnew => hs hnew.1⟩

theorem mem_registerReplica (replica : ShardReplica) :
    s ∈ (t.registerReplica replica).getNodeShards n ↔
      s ∈ t.getNodeShards n ∨ (s = replica.shardId ∧ n = replica.nodeId) := by
  show s ∈ (Function.update t.nodeShards replica.nodeId
    (some (insert replica.shardId ((t.nodeShards replica.nodeId).getD ∅))) n).getD ∅ ↔ _
  by_cases hn : n = replica.nodeId
  · subst hn
    rw [Function.update_self, Option.getD_some, Finset.mem_insert, or_comm, getNodeShards]
    exact or_congr_right (and_iff_left rfl).symm
  · rw [Function.update_of_ne hn, getNodeShards]
    exact ⟨Or.inl, fun h => h.resolve_right fun hnew => hn hnew.2⟩

theorem Mirrored.register (ht : Mirrored t) (replica : ShardReplica) :
    Mirrored (t.registerReplica replica) := by
  intro s n
  rw [mem_registerReplica, hosts_registerReplica, ht s n]

theorem Mirrored.registerAll (ht : Mirrored t) (replicas : List ShardReplica) :
    Mirrored (replicas.foldl registerReplica t) := by
  induction replicas generalizing t with
  | nil => exact ht
  | cons replica replicas ih => exact ih (ht.register replica)

/-! ## Removing -/

/-- All replicas of the shard on the node go. -/
theorem removeReplica_getReplicas (t : ReplicaTracker) (shardId : ShardId) (nodeId : NodeId)
    (s : ShardId) :
    (t.removeReplica shardId nodeId).getReplicas s =
      if s = shardId then (t.getReplicas s).filter fun r => r.nodeId ≠ nodeId
      else t.getReplicas s := by
  show (Function.update t.shardReplicas shardId ((t.shardReplicas shardId).map
    fun replicas => replicas.filter fun r => r.nodeId ≠ nodeId) s).getD [] = _
  by_cases hs : s = shardId
  · subst hs
    rw [Function.update_self, if_pos rfl, getReplicas]
    cases t.shardReplicas s with
    | none => rfl
    | some replicas => rfl
  · rw [Function.update_of_ne hs, if_neg hs, getReplicas]

theorem hosts_removeReplica (shardId : ShardId) (nodeId : NodeId) :
    (t.removeReplica shardId nodeId).Hosts s n ↔ t.Hosts s n ∧ ¬(s = shardId ∧ n = nodeId) := by
  rw [Hosts, Hosts, removeReplica_getReplicas]
  by_cases hs : s = shardId
  · rw [if_pos hs]
    constructor
    · rintro ⟨r, hr, hnode⟩
      obtain ⟨hmem, hkept⟩ := List.mem_filter.mp hr
      rw [decide_eq_true_eq] at hkept
      exact ⟨⟨r, hmem, hnode⟩, fun hgone => hkept (hnode.trans hgone.2)⟩
    · rintro ⟨⟨r, hr, hnode⟩, hkept⟩
      refine ⟨r, List.mem_filter.mpr ⟨hr, decide_eq_true fun hgone => hkept ⟨hs, ?_⟩⟩, hnode⟩
      exact hnode.symm.trans hgone
  · rw [if_neg hs]
    exact (and_iff_left fun hgone => hs hgone.1).symm

theorem mem_removeReplica (shardId : ShardId) (nodeId : NodeId) :
    s ∈ (t.removeReplica shardId nodeId).getNodeShards n ↔
      s ∈ t.getNodeShards n ∧ ¬(s = shardId ∧ n = nodeId) := by
  show s ∈ (Function.update t.nodeShards nodeId
    ((t.nodeShards nodeId).map fun shards => shards.erase shardId) n).getD ∅ ↔ _
  by_cases hn : n = nodeId
  · subst hn
    rw [Function.update_self, getNodeShards]
    cases t.nodeShards n with
    | none => simp
    | some shards => simp [and_comm]
  · rw [Function.update_of_ne hn, getNodeShards]
    exact (and_iff_left fun hgone => hn hgone.2).symm

theorem Mirrored.remove (ht : Mirrored t) (shardId : ShardId) (nodeId : NodeId) :
    Mirrored (t.removeReplica shardId nodeId) := by
  intro s n
  rw [mem_removeReplica, hosts_removeReplica, ht s n]

/-! ## All calls -/

theorem mirrored_new (replicationFactor : Nat) : Mirrored (new replicationFactor) := by
  intro s n
  exact iff_of_false (Finset.notMem_empty s) fun ⟨_, hr, _⟩ => List.not_mem_nil hr

theorem Mirrored.call (ht : Mirrored t) (call : ReplicaTracker.Call) : Mirrored (call.perform t) := by
  cases call with
  | register replica => exact ht.register replica
  | remove shardId nodeId => exact ht.remove shardId nodeId
  | assign now shardId candidateNodes => exact ht.registerAll _

theorem Mirrored.calls (ht : Mirrored t) (calls : List ReplicaTracker.Call) :
    Mirrored (t.perform calls) := by
  induction calls generalizing t with
  | nil => exact ht
  | cons call calls ih => exact ih (ht.call call)

/-- Whatever was registered, removed and assigned, a shard is among those of a node exactly
when one of its replicas is on the node. -/
theorem replica_maps_mirror (replicationFactor : Nat) (calls : List ReplicaTracker.Call)
    (shardId : ShardId) (nodeId : NodeId) :
    shardId ∈ ((new replicationFactor).perform calls).getNodeShards nodeId ↔
      ∃ r ∈ ((new replicationFactor).perform calls).getReplicas shardId, r.nodeId = nodeId :=
  (mirrored_new replicationFactor).calls calls shardId nodeId

end Cluster
end RTDB
