import RTDB.Cluster.StateMachine

/-!
# Shard ownership on replicas

Replicas apply the same registrations and removals of nodes, each going over its own
hash map in its own order.  `rebalance_shards` deals the shards out in that order, so
two replicas agree on the owners as long as there is one order to deal them out in.
-/

namespace RTDB
namespace Cluster

open ClusterTopology RaftStateMachine

variable {Addr : Type}

inductive NodeCommand where
  | register (nodeId address : String)
  | deregister (nodeId : String)
  deriving DecidableEq, Repr

def joined (nodeId : String) (socketAddr : Addr) : NodeInfo Addr :=
  { id := nodeId, address := socketAddr, status := .active, shards := [], capacity := 0,
    load := 0, lastHeartbeat := 0 }

namespace NodeCommand

def perform (wire : Wire Addr) (it : Iteration Addr) (m : RaftStateMachine Addr) :
    NodeCommand → RaftStateMachine Addr
  | .register nodeId address => (m.applyRegisterNode wire it nodeId address).1
  | .deregister nodeId => (m.applyDeregisterNode it nodeId).1

/-- A registration under an address that does not parse changes nothing. -/
def effective (wire : Wire Addr) : NodeCommand → Bool
  | .register _ address => (wire.address address).isOk
  | .deregister _ => true

def change (wire : Wire Addr) (nodes : Nodes Addr) : NodeCommand → Nodes Addr
  | .register nodeId address =>
    match wire.address address with
    | .error _ => nodes
    | .ok socketAddr => nodes.insert nodeId (joined nodeId socketAddr)
  | .deregister nodeId => nodes.erase nodeId

end NodeCommand

open NodeCommand

def nodesAfter (wire : Wire Addr) (nodes : Nodes Addr) (cmds : List NodeCommand) : Nodes Addr :=
  cmds.foldl (change wire) nodes

/-- The replica after some commands, its map yielding the nodes in the order `its k` at
command `k`. -/
def replay (wire : Wire Addr) (its : Nat → Iteration Addr) (m : RaftStateMachine Addr) :
    List NodeCommand → RaftStateMachine Addr
  | [] => m
  | c :: cmds => replay wire (fun k => its (k + 1)) (c.perform wire (its 0) m) cmds

/-- Whatever the orders are, the two replicas have the same owners for all shards and
vectors. -/
def ReplicasAgree (wire : Wire Addr) (hash : Nat → Nat) (m m' : RaftStateMachine Addr)
    (cmds : List NodeCommand) : Prop :=
  ∀ its its' : Nat → Iteration Addr,
    (replay wire its m cmds).cluster.topology.shardToNode =
        (replay wire its' m' cmds).cluster.topology.shardToNode ∧
      ∀ vectorId, (replay wire its m cmds).cluster.getNodeForVector hash vectorId =
        (replay wire its' m' cmds).cluster.getNodeForVector hash vectorId

/-! ## One command -/

variable {wire : Wire Addr} {it : Iteration Addr} {m : RaftStateMachine Addr}

theorem register_nonempty (nodes : Nodes Addr) (nodeId : String) (socketAddr : Addr) :
    activeEntries (nodes.insert nodeId (joined nodeId socketAddr)) ≠ [] := by
  refine List.ne_nil_of_mem (a := ⟨nodeId, joined nodeId socketAddr⟩) ?_
  rw [activeEntries, AList.entries_insert]
  exact List.mem_filter.mpr ⟨List.mem_cons_self, rfl⟩

/-- Once its last active node is gone, there was at most that one before. -/
theorem active_le_of_erase {nodes : Nodes Addr} {nodeId : String}
    (hnone : activeEntries (nodes.erase nodeId) = []) : (activeEntries nodes).length ≤ 1 := by
  have hkeys : ∀ id ∈ (activeEntries nodes).map Sigma.fst, id = nodeId := by
    intro id hid
    obtain ⟨p, hp, rfl⟩ := List.mem_map.mp hid
    by_contra hne
    have hlookup : p.2 ∈ (nodes.erase nodeId).lookup p.1 := by
      rw [AList.lookup_erase_ne hne]
      exact AList.mem_lookup_iff.mpr (List.mem_filter.mp hp).1
    have hmem : p ∈ activeEntries (nodes.erase nodeId) :=
      List.mem_filter.mpr ⟨AList.mem_lookup_iff.mp hlookup, (List.mem_filter.mp hp).2⟩
    rw [hnone] at hmem
    exact absurd hmem List.not_mem_nil
  have hnodup := activeIds_nodup nodes
  rw [List.eq_replicate_of_mem hkeys, List.nodup_replicate, List.length_map] at hnodup
  exact hnodup

theorem address_of_effective {nodeId address : String}
    (heffective : (NodeCommand.register nodeId address).effective wire = true) :
    ∃ socketAddr, wire.address address = .ok socketAddr := by
  rw [effective] at heffective
  cases haddress : wire.address address with
  | ok socketAddr => exact ⟨socketAddr, rfl⟩
  | error e =>
    rw [haddress] at heffective
    exact absurd heffective (by simp [Except.isOk, Except.toBool])

theorem error_of_idle {nodeId address : String}
    (hidle : (NodeCommand.register nodeId address).effective wire = false) :
    ∃ e, wire.address address = .error e := by
  rw [effective] at hidle
  cases haddress : wire.address address with
  | error e => exact ⟨e, rfl⟩
  | ok socketAddr =>
    rw [haddress] at hidle
    exact absurd hidle (by simp [Except.isOk, Except.toBool])

theorem perform_idle {c : NodeCommand} (hidle : c.effective wire = false) :
    c.perform wire it m = m := by
  cases c with
  | deregister nodeId => exact absurd hidle (by simp [effective])
  | register nodeId address =>
    obtain ⟨e, haddress⟩ := error_of_idle hidle
    rw [perform, applyRegisterNode, haddress]

theorem perform_nodes (c : NodeCommand) : (c.perform wire it m).nodes = c.change wire m.nodes := by
  cases c with
  | deregister nodeId => exact rebalanceShards_nodes it _
  | register nodeId address =>
    rw [perform, applyRegisterNode, change]
    cases wire.address address with
    | error e => rfl
    | ok socketAddr => exact rebalanceShards_nodes it _

theorem perform_shardCount (c : NodeCommand) :
    (c.perform wire it m).cluster.shardCount = m.cluster.shardCount := by
  cases c with
  | deregister nodeId => rfl
  | register nodeId address =>
    rw [perform, applyRegisterNode]
    cases wire.address address <;> rfl

/-- With an active node left the shards are dealt out anew. -/
theorem perform_shards {c : NodeCommand} (heffective : c.effective wire = true)
    (hsome : activeEntries (c.change wire m.nodes) ≠ []) :
    (c.perform wire it m).cluster.topology.shardToNode =
      assign (((c.perform wire it m).cluster.topology.activeNodes it).map NodeInfo.id) := by
  have hdealt : ∀ t : ClusterTopology Addr, activeEntries t.nodes ≠ [] →
      (t.rebalanceShards it).shardToNode =
        assign (((t.rebalanceShards it).activeNodes it).map NodeInfo.id) := by
    intro t ht
    rw [rebalanceShards_shards, if_neg ht, activeNodes, activeNodes, rebalanceShards_nodes]
  cases c with
  | deregister nodeId => exact hdealt (m.cluster.topology.removeNode nodeId) hsome
  | register nodeId address =>
    obtain ⟨socketAddr, haddress⟩ := address_of_effective heffective
    rw [change, haddress] at hsome
    rw [perform, applyRegisterNode, haddress]
    exact hdealt (m.cluster.topology.addNode (joined nodeId socketAddr)) hsome

theorem perform_none {c : NodeCommand} (heffective : c.effective wire = true)
    (hnone : activeEntries (c.change wire m.nodes) = []) :
    ∃ nodeId, c = .deregister nodeId ∧
      (c.perform wire it m).cluster.topology.shardToNode =
        fun shard => (m.cluster.topology.shardToNode shard).filter (· ≠ nodeId) := by
  cases c with
  | deregister nodeId =>
    refine ⟨nodeId, rfl, ?_⟩
    exact (rebalanceShards_shards it (m.cluster.topology.removeNode nodeId)).trans (if_pos hnone)
  | register nodeId address =>
    obtain ⟨socketAddr, haddress⟩ := address_of_effective heffective
    rw [change, haddress] at hnone
    exact absurd hnone (register_nonempty m.nodes nodeId socketAddr)

/-! ## Runs -/

theorem replay_concat (cmds : List NodeCommand) (c : NodeCommand) :
    ∀ (its : Nat → Iteration Addr) (m : RaftStateMachine Addr), replay wire its m (cmds ++ [c]) =
      c.perform wire (its cmds.length) (replay wire its m cmds) := by
  induction cmds with
  | nil => exact fun its m => rfl
  | cons d cmds ih => exact fun its m => ih (fun k => its (k + 1)) (d.perform wire (its 0) m)

theorem nodesAfter_concat (nodes : Nodes Addr) (cmds : List NodeCommand) (c : NodeCommand) :
    nodesAfter wire nodes (cmds ++ [c]) = c.change wire (nodesAfter wire nodes cmds) := by
  rw [nodesAfter, List.foldl_append]
  rfl

theorem replay_nodes (its : Nat → Iteration Addr) (m : RaftStateMachine Addr)
    (cmds : List NodeCommand) : (replay wire its m cmds).nodes = nodesAfter wire m.nodes cmds := by
  induction cmds using List.reverseRecOn with
  | nil => rfl
  | append_singleton cmds c ih => rw [replay_concat, nodesAfter_concat, perform_nodes, ih]

theorem replay_shardCount (its : Nat → Iteration Addr) (m : RaftStateMachine Addr)
    (cmds : List NodeCommand) :
    (replay wire its m cmds).cluster.shardCount = m.cluster.shardCount := by
  induction cmds using List.reverseRecOn with
  | nil => rfl
  | append_singleton cmds c ih => rw [replay_concat, perform_shardCount, ih]

theorem change_idle {nodes : Nodes Addr} {c : NodeCommand} (hidle : c.effective wire = false) :
    c.change wire nodes = nodes := by
  cases c with
  | deregister nodeId => exact absurd hidle (by simp [effective])
  | register nodeId address =>
    obtain ⟨e, haddress⟩ := error_of_idle hidle
    rw [change, haddress]

/-- After a command that counts, the shards are dealt out in one of the orders used. -/
theorem replay_shards (its : Nat → Iteration Addr) (m : RaftStateMachine Addr)
    {cmds : List NodeCommand} (heffective : ∃ c ∈ cmds, c.effective wire = true)
    (hsome : activeEntries (nodesAfter wire m.nodes cmds) ≠ []) :
    ∃ k, (replay wire its m cmds).cluster.topology.shardToNode =
      assign (((replay wire its m cmds).cluster.topology.activeNodes (its k)).map NodeInfo.id) := by
  induction cmds using List.reverseRecOn with
  | nil =>
    obtain ⟨c, hc, -⟩ := heffective
    exact absurd hc List.not_mem_nil
  | append_singleton cmds c ih =>
    rw [nodesAfter_concat] at hsome
    rw [replay_concat]
    cases hc : c.effective wire with
    | true =>
      rw [← replay_nodes its] at hsome
      exact ⟨cmds.length, perform_shards hc hsome⟩
    | false =>
      rw [change_idle hc] at hsome
      rw [perform_idle hc]
      obtain ⟨d, hd, hdeffective⟩ := heffective
      rcases List.mem_append.mp hd with hbefore | hlast
      · exact ih ⟨d, hbefore, hdeffective⟩ hsome
      · rw [List.mem_singleton.mp hlast, hc] at hdeffective
        exact absurd hdeffective Bool.false_ne_true

theorem shards_eq {m m' : RaftStateMachine Addr} (htopology : m.cluster.topology = m'.cluster.topology)
    (its its' : Nat → Iteration Addr) {cmds : List NodeCommand}
    (hwhen : (∀ c ∈ cmds, c.effective wire = false) ∨
      (activeEntries (nodesAfter wire m.nodes cmds)).length ≤ 1) :
    (replay wire its m cmds).cluster.topology.shardToNode =
      (replay wire its' m' cmds).cluster.topology.shardToNode := by
  have hnodes : m.nodes = m'.nodes := congrArg ClusterTopology.nodes htopology
  induction cmds using List.reverseRecOn with
  | nil => exact congrArg ClusterTopology.shardToNode htopology
  | append_singleton cmds c ih =>
    cases hc : c.effective wire with
    | false =>
      rw [replay_concat, replay_concat, perform_idle hc, perform_idle hc]
      refine ih (hwhen.imp (fun h d hd => h d (List.mem_append_left _ hd)) fun h => ?_)
      rw [nodesAfter_concat, change_idle hc] at h
      exact h
    | true =>
      have hone : (activeEntries (nodesAfter wire m.nodes (cmds ++ [c]))).length ≤ 1 := by
        refine hwhen.resolve_left fun h => ?_
        rw [h c (by simp)] at hc
        exact Bool.false_ne_true hc
      by_cases hsome : activeEntries (nodesAfter wire m.nodes (cmds ++ [c])) = []
      · rw [nodesAfter_concat] at hsome
        have hsome' := hsome
        rw [hnodes, ← replay_nodes its'] at hsome'
        rw [← replay_nodes its] at hsome
        obtain ⟨nodeId, rfl, hshards⟩ := @perform_none _ _ (its cmds.length) _ _ hc hsome
        obtain ⟨nodeId', hsame, hshards'⟩ := @perform_none _ _ (its' cmds.length) _ _ hc hsome'
        obtain rfl := NodeCommand.deregister.inj hsame
        have hbefore := active_le_of_erase hsome
        rw [replay_nodes] at hbefore
        rw [replay_concat, replay_concat, hshards, hshards', ih (Or.inr hbefore)]
      · have heffective : ∃ d ∈ cmds ++ [c], d.effective wire = true := ⟨c, by simp, hc⟩
        obtain ⟨k, hk⟩ := replay_shards its m heffective hsome
        obtain ⟨k', hk'⟩ := replay_shards its' m' heffective (hnodes ▸ hsome)
        have hafter := @replay_nodes _ wire its m (cmds ++ [c])
        have hafter' := @replay_nodes _ wire its' m' (cmds ++ [c])
        rw [hk, hk']
        refine congrArg assign (ids_eq (its k) (its' k') _ _ ?_ ?_)
        · exact hafter.trans (hnodes ▸ hafter'.symm)
        · exact (congrArg (fun nodes => (activeEntries nodes).length) hafter).trans_le hone

/-- Two orders of two nodes start differently. -/
theorem assign_backward_ne {t t' : ClusterTopology Addr} (hnodes : t.nodes = t'.nodes)
    (htwo : 2 ≤ (activeEntries t.nodes).length) :
    assign ((t.activeNodes Iteration.forward).map NodeInfo.id) ≠
      assign ((t'.activeNodes Iteration.backward).map NodeInfo.id) := by
  have hbackward : (t'.activeNodes Iteration.backward).map NodeInfo.id =
      ((t.activeNodes Iteration.forward).map NodeInfo.id).reverse := by
    rw [activeNodes, activeNodes, ← hnodes, ← List.map_reverse, ← List.filter_reverse]
    rfl
  have hperm := ids_perm Iteration.forward t
  have hnodup := hperm.nodup_iff.mpr (activeIds_nodup t.nodes)
  have hlen := hperm.length_eq
  rw [List.length_map (f := Sigma.fst)] at hlen
  rw [hbackward]
  generalize (t.activeNodes Iteration.forward).map NodeInfo.id = ids at hnodup hlen
  intro hsame
  have hfirst := congrFun hsame 0
  have hin : 0 < ClusterTopology.shardCount := by decide
  rw [assign_eq, assign_eq, if_pos hin, if_pos hin, Nat.zero_mod, Nat.zero_mod,
    List.getElem?_reverse (by omega), Nat.sub_zero] at hfirst
  have hzero := (List.getElem?_inj (by omega) hnodup).mp hfirst
  omega

/-- With two active nodes left, replicas that go over their maps in opposite orders
disagree. -/
theorem not_replicasAgree {hash : Nat → Nat} {m m' : RaftStateMachine Addr}
    (htopology : m.cluster.topology = m'.cluster.topology) {cmds : List NodeCommand}
    (heffective : ∃ c ∈ cmds, c.effective wire = true)
    (htwo : 2 ≤ (activeEntries (nodesAfter wire m.nodes cmds)).length) :
    ¬ReplicasAgree wire hash m m' cmds := by
  have hnodes : m.nodes = m'.nodes := congrArg ClusterTopology.nodes htopology
  have hsome : activeEntries (nodesAfter wire m.nodes cmds) ≠ [] :=
    List.ne_nil_of_length_pos (by omega)
  obtain ⟨_, hforward⟩ := replay_shards (fun _ => Iteration.forward) m heffective hsome
  obtain ⟨_, hbackward⟩ := replay_shards (fun _ => Iteration.backward) m' heffective (hnodes ▸ hsome)
  have hafter := @replay_nodes _ wire (fun _ => Iteration.forward) m cmds
  have hafter' := @replay_nodes _ wire (fun _ => Iteration.backward) m' cmds
  intro hagree
  have hshards := (hagree (fun _ => Iteration.forward) fun _ => Iteration.backward).1
  rw [hforward, hbackward] at hshards
  refine absurd hshards (assign_backward_ne (hafter.trans (hnodes ▸ hafter'.symm)) ?_)
  exact htwo.trans_eq (congrArg (fun nodes => (activeEntries nodes).length) hafter.symm)

/-- Replicas agree on the owners exactly when the commands change nothing or leave at
most one active node. -/
theorem replicas_agree_iff (wire : Wire Addr) (hash : Nat → Nat) (m m' : RaftStateMachine Addr)
    (htopology : m.cluster.topology = m'.cluster.topology)
    (hcount : m.cluster.shardCount = m'.cluster.shardCount) (cmds : List NodeCommand) :
    ReplicasAgree wire hash m m' cmds ↔
      (∀ c ∈ cmds, c.effective wire = false) ∨
        (activeEntries (nodesAfter wire m.nodes cmds)).length ≤ 1 := by
  have hnodes : m.nodes = m'.nodes := congrArg ClusterTopology.nodes htopology
  constructor
  · intro hagree
    by_contra hwhen
    rw [not_or, not_le] at hwhen
    obtain ⟨hsome, htwo⟩ := hwhen
    have heffective : ∃ c ∈ cmds, c.effective wire = true := by simpa using hsome
    exact not_replicasAgree htopology heffective htwo hagree
  · intro hwhen its its'
    have hshards := shards_eq htopology its its' hwhen
    have hafter : (replay wire its m cmds).cluster.topology.nodes =
        (replay wire its' m' cmds).cluster.topology.nodes :=
      (replay_nodes its m cmds).trans (hnodes ▸ (replay_nodes its' m' cmds).symm)
    have hcounts : (replay wire its m cmds).cluster.shardCount =
        (replay wire its' m' cmds).cluster.shardCount := by
      rw [replay_shardCount, replay_shardCount, hcount]
    refine ⟨hshards, fun vectorId => ?_⟩
    simp only [ClusterManager.getNodeForVector, ClusterManager.getShardForVector, getNodeForShard,
      hshards, hafter, hcounts]

/-! ## Two nodes -/

def localWire : Wire Nat :=
  { creationWire with
    address := fun text =>
      if text = "127.0.0.1:7000" then .ok (2130706433 * 65536 + 7000)
      else .error "invalid socket address syntax" }

/-- The same machine on another node. -/
def otherMachine : RaftStateMachine Nat :=
  RaftStateMachine.new ∅ { localNodeId := "o", shardCount := 256, topology := ClusterTopology.new }

/-- The second registration has a bad address. -/
theorem replicas_agree_single :
    ReplicasAgree localWire id emptyMachine otherMachine
      [.register "a" "127.0.0.1:7000", .register "b" "localhost"] :=
  (replicas_agree_iff localWire id emptyMachine otherMachine rfl rfl
    [.register "a" "127.0.0.1:7000", .register "b" "localhost"]).mpr (Or.inr (by decide))

theorem not_replicas_agree_pair :
    ¬ReplicasAgree localWire id emptyMachine otherMachine
      [.register "a" "127.0.0.1:7000", .register "b" "127.0.0.1:7000"] :=
  not_replicasAgree rfl ⟨.register "a" "127.0.0.1:7000", by decide, by decide⟩ (by decide)

end Cluster
end RTDB
