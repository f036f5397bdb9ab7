import Mathlib.Algebra.Group.Nat.Defs
import Mathlib.Data.List.AList

/-!
# Cluster topology

`cluster/config.rs` and the part of `ClusterManager` that keeps the topology.  The
values of a hash map come in some order that the map alone does not determine, so
whatever goes over the nodes is handed the order as an `Iteration`.
-/

namespace RTDB
namespace Cluster

inductive NodeStatus where
  | joining
  | active
  | suspect
  | offline
  | leaving
  deriving DecidableEq, Repr

abbrev ShardId := Nat

/-- What is known of a node; `Addr` stands for socket addresses. -/
structure NodeInfo (Addr : Type) where
  id : String
  address : Addr
  status : NodeStatus
  shards : List ShardId
  capacity : Nat
  load : Nat
  lastHeartbeat : Nat
  deriving DecidableEq, Repr

abbrev Nodes (Addr : Type) := AList (fun _ : String => NodeInfo Addr)

variable {Addr : Type}

/-- One order in which a hash map may yield its values. -/
structure Iteration (Addr : Type) where
  values : Nodes Addr → List (NodeInfo Addr)
  perm : ∀ nodes, (values nodes).Perm (nodes.entries.map Sigma.snd)

def Iteration.forward : Iteration Addr :=
  { values := fun nodes => nodes.entries.map Sigma.snd
    perm := fun _ => List.Perm.refl _ }

def Iteration.backward : Iteration Addr :=
  { values := fun nodes => (nodes.entries.map Sigma.snd).reverse
    perm := fun _ => List.reverse_perm _ }

structure ClusterTopology (Addr : Type) where
  version : Nat
  shardToNode : ShardId → Option String
  shardReplicas : ShardId → Option (List String)
  nodes : Nodes Addr
  keyed : ∀ id info, nodes.lookup id = some info → info.id = id

namespace ClusterTopology

def new : ClusterTopology Addr :=
  { version := 1
    shardToNode := fun _ => none
    shardReplicas := fun _ => none
    nodes := ∅
    keyed := fun _ _ hinfo => absurd hinfo (by simp) }

theorem keyed_insert {nodes : Nodes Addr}
    (hkeyed : ∀ id info, nodes.lookup id = some info → info.id = id) (node : NodeInfo Addr)
    (id : String) (info : NodeInfo Addr) (hinfo : (nodes.insert node.id node).lookup id = some info) :
    info.id = id := by
  by_cases hid : id = node.id
  · subst hid
    rw [AList.lookup_insert, Option.some.injEq] at hinfo
    rw [← hinfo]
  · rw [AList.lookup_insert_ne hid] at hinfo
    exact hkeyed id info hinfo

theorem keyed_erase {nodes : Nodes Addr}
    (hkeyed : ∀ id info, nodes.lookup id = some info → info.id = id) (nodeId id : String)
    (info : NodeInfo Addr) (hinfo : (nodes.erase nodeId).lookup id = some info) : info.id = id := by
  by_cases hid : id = nodeId
  · subst hid
    rw [AList.lookup_erase] at hinfo
    exact absurd hinfo (by simp)
  · rw [AList.lookup_erase_ne hid] at hinfo
    exact hkeyed id info hinfo

def addNode (t : ClusterTopology Addr) (node : NodeInfo Addr) : ClusterTopology Addr :=
  { t with
    nodes := t.nodes.insert node.id node
    version := t.version + 1
    keyed := keyed_insert t.keyed node }

def removeNode (t : ClusterTopology Addr) (nodeId : String) : ClusterTopology Addr :=
  { nodes := t.nodes.erase nodeId
    shardToNode := fun shard => (t.shardToNode shard).filter (· ≠ nodeId)
    shardReplicas := fun shard => (t.shardReplicas shard).map fun ids => ids.filter (· ≠ nodeId)
    version := t.version + 1
    keyed := keyed_erase t.keyed nodeId }

def getNodeForShard (t : ClusterTopology Addr) (shard : ShardId) : Option (NodeInfo Addr) :=
  (t.shardToNode shard).bind t.nodes.lookup

def activeNodes (it : Iteration Addr) (t : ClusterTopology Addr) : List (NodeInfo Addr) :=
  (it.values t.nodes).filter fun n => n.status = .active

/-- The number of shards `rebalance_shards` assigns. -/
def shardCount : Nat := 256

/-- The loop of `rebalance_shards` over the ids of the active nodes. -/
def assign (ids : List String) : ShardId → Option String :=
  (List.range shardCount).foldl
    (fun shards shard => Function.update shards shard ids[shard % ids.length]?) fun _ => none

/-- Round robin over the active nodes, in the order the map yields them. -/
def rebalanceShards (it : Iteration Addr) (t : ClusterTopology Addr) : ClusterTopology Addr :=
  let active := t.activeNodes it
  if active.isEmpty then t
  else { t with shardToNode := assign (active.map NodeInfo.id), version := t.version + 1 }

end ClusterTopology

/-- The state of a cluster manager, its request router left out. -/
structure ClusterManager (Addr : Type) where
  localNodeId : String
  shardCount : Nat
  topology : ClusterTopology Addr

namespace ClusterManager

def addNode (it : Iteration Addr) (m : ClusterManager Addr) (node : NodeInfo Addr) :
    ClusterManager Addr :=
  { m with topology := (m.topology.addNode node).rebalanceShards it }

def removeNode (it : Iteration Addr) (m : ClusterManager Addr) (nodeId : String) :
    ClusterManager Addr :=
  { m with topology := (m.topology.removeNode nodeId).rebalanceShards it }

/-- The shard of a vector, `hash` being the hash of its id; none where the source divides
by zero.  The cast to a shard id keeps 32 bits. -/
def getShardForVector (hash : Nat → Nat) (m : ClusterManager Addr) (vectorId : Nat) :
    Option ShardId :=
  if m.shardCount = 0 then none else some (hash vectorId % m.shardCount % 2 ^ 32)

def getNodeForVector (hash : Nat → Nat) (m : ClusterManager Addr) (vectorId : Nat) :
    Option (Option String) :=
  (m.getShardForVector hash vectorId).map fun shard =>
    (m.topology.getNodeForShard shard).map NodeInfo.id

end ClusterManager

/-! ## Active nodes -/

open ClusterTopology

def activeEntries (nodes : Nodes Addr) : List (Sigma fun _ : String => NodeInfo Addr) :=
  nodes.entries.filter fun p => p.2.status = .active

theorem activeNodes_perm (it : Iteration Addr) (t : ClusterTopology Addr) :
    (t.activeNodes it).Perm ((activeEntries t.nodes).map Sigma.snd) := by
  have hfilter := (it.perm t.nodes).filter fun n => decide (n.status = .active)
  rw [List.filter_map] at hfilter
  exact hfilter

theorem ids_perm (it : Iteration Addr) (t : ClusterTopology Addr) :
    ((t.activeNodes it).map NodeInfo.id).Perm ((activeEntries t.nodes).map Sigma.fst) := by
  have hids : (activeEntries t.nodes).map (NodeInfo.id ∘ Sigma.snd) =
      (activeEntries t.nodes).map Sigma.fst := by
    refine List.map_congr_left fun p hp => ?_
    exact t.keyed p.1 p.2 (AList.mem_lookup_iff.mpr (List.mem_filter.mp hp).1)
  rw [← hids, ← List.map_map]
  exact (activeNodes_perm it t).map NodeInfo.id

theorem activeIds_nodup (nodes : Nodes Addr) : ((activeEntries nodes).map Sigma.fst).Nodup :=
  nodes.keys_nodup.sublist (List.filter_sublist.map Sigma.fst)

/-- With at most one active node there is one order. -/
theorem ids_eq (it it' : Iteration Addr) (t t' : ClusterTopology Addr) (hnodes : t.nodes = t'.nodes)
    (hone : (activeEntries t.nodes).length ≤ 1) :
    (t.activeNodes it).map NodeInfo.id = (t'.activeNodes it').map NodeInfo.id := by
  have hperm := (ids_perm it t).trans ((hnodes ▸ ids_perm it' t').symm)
  cases hids : (t.activeNodes it).map NodeInfo.id with
  | nil =>
    rw [hids] at hperm
    exact hperm.nil_eq
  | cons id rest =>
    have hlen := (ids_perm it t).length_eq
    rw [hids, List.length_cons, List.length_map] at hlen
    obtain rfl := List.eq_nil_of_length_eq_zero (l := rest) (by omega)
    rw [hids] at hperm
    exact (List.perm_singleton.mp hperm.symm).symm

/-! ## Rebalancing -/

theorem rebalanceShards_nodes (it : Iteration Addr) (t : ClusterTopology Addr) :
    (t.rebalanceShards it).nodes = t.nodes := by
  unfold rebalanceShards
  simp only
  split <;> rfl

theorem rebalanceShards_shards (it : Iteration Addr) (t : ClusterTopology Addr) :
    (t.rebalanceShards it).shardToNode =
      if activeEntries t.nodes = [] then t.shardToNode
      else assign ((t.activeNodes it).map NodeInfo.id) := by
  have hlen := (ids_perm it t).length_eq
  rw [List.length_map, List.length_map] at hlen
  unfold rebalanceShards
  simp only [List.isEmpty_iff]
  by_cases hnone : activeEntries t.nodes = []
  · rw [hnone, List.length_nil] at hlen
    rw [if_pos (List.eq_nil_of_length_eq_zero hlen), if_pos hnone]
  · have hsome : t.activeNodes it ≠ [] := by
      intro hnil
      rw [hnil, List.length_nil] at hlen
      exact hnone (List.eq_nil_of_length_eq_zero hlen.symm)
    rw [if_neg hsome, if_neg hnone]

theorem update_loop (owner : ShardId → Option String) (shard : ShardId) (loop : List ShardId)
    (shards : ShardId → Option String) :
    loop.foldl (fun shards shard => Function.update shards shard (owner shard)) shards shard =
      if shard ∈ loop then owner shard else shards shard := by
  induction loop generalizing shards with
  | nil => rfl
  | cons s loop ih =>
    rw [List.foldl_cons, ih]
    by_cases hmem : shard ∈ loop
    · rw [if_pos hmem, if_pos (List.mem_cons_of_mem s hmem)]
    · by_cases hs : shard = s
      · subst hs
        rw [if_neg hmem, if_pos List.mem_cons_self, Function.update_self]
      · rw [if_neg hmem, Function.update_of_ne hs, if_neg (by simp [hs, hmem])]

theorem assign_eq (ids : List String) (shard : ShardId) :
    assign ids shard = if shard < ClusterTopology.shardCount then ids[shard % ids.length]? else none := by
  rw [assign, update_loop fun shard => ids[shard % ids.length]?]
  simp only [List.mem_range]

end Cluster
end RTDB
