import Mathlib.Data.Int.CardIntervalMod
import RTDB.Cluster.Config

/-!
# Complete and balanced shards

Initialisation gives the local node as many shards as are configured, a rebalance deals
out a fixed number of them, and the shard of a vector is taken modulo the configured
number again.
-/

namespace RTDB
namespace Cluster

open ClusterTopology

variable {Addr : Type}

/-- The part of the configuration that initialisation reads. -/
structure ClusterConfig (Addr : Type) where
  nodeId : String
  bindAddr : Addr
  seedNodes : List String
  shardCount : Nat

/-- The configured shards as shard ids: the cast keeps 32 bits of the bound. -/
def shardIds (shardCount : Nat) : List ShardId := List.range (shardCount % 2 ^ 32)

def ClusterConfig.localNode (config : ClusterConfig Addr) (now : Nat) : NodeInfo Addr :=
  { id := config.nodeId, address := config.bindAddr, status := .active,
    shards := shardIds config.shardCount, capacity := 100000000, load := 0, lastHeartbeat := now }

namespace ClusterManager

def newCluster (config : ClusterConfig Addr) : ClusterManager Addr :=
  { localNodeId := config.nodeId, shardCount := config.shardCount, topology := ClusterTopology.new }

def initSingleNode (config : ClusterConfig Addr) (now : Nat) (m : ClusterManager Addr) :
    ClusterManager Addr :=
  let joined := m.topology.addNode (config.localNode now)
  { m with
    topology :=
      { joined with
        shardToNode := (shardIds m.shardCount).foldl
          (fun shards shard => Function.update shards shard (some m.localNodeId))
          joined.shardToNode } }

/-- With seeds configured the manager would join their cluster, which is not implemented. -/
def init (config : ClusterConfig Addr) (now : Nat) (m : ClusterManager Addr) : ClusterManager Addr :=
  if config.seedNodes.isEmpty then m.initSingleNode config now else m

/-- The default configuration under a fresh node id. -/
def newStandalone (nodeId : String) (bindAddr : Addr) (now : Nat) : ClusterManager Addr :=
  let config : ClusterConfig Addr :=
    { nodeId := nodeId, bindAddr := bindAddr, seedNodes := [], shardCount := 256 }
  (newCluster config).initSingleNode config now

end ClusterManager

open ClusterManager

/-- The managers that initialisation yields. -/
inductive Initialised : ClusterManager Addr → Prop where
  | standalone (nodeId : String) (bindAddr : Addr) (now : Nat) :
      Initialised (newStandalone nodeId bindAddr now)
  | cluster (config : ClusterConfig Addr) (now : Nat) :
      Initialised ((newCluster config).init config now)

inductive NodeCall (Addr : Type) where
  | addNode (node : NodeInfo Addr)
  | removeNode (nodeId : String)

def NodeCall.perform (it : Iteration Addr) (m : ClusterManager Addr) :
    NodeCall Addr → ClusterManager Addr
  | .addNode node => m.addNode it node
  | .removeNode nodeId => m.removeNode it nodeId

/-- The calls one after the other, each with the order its map yields the nodes in. -/
def ClusterManager.perform (m : ClusterManager Addr) (calls : List (Iteration Addr × NodeCall Addr)) :
    ClusterManager Addr :=
  calls.foldl (fun m call => call.2.perform call.1 m) m

def ClusterManager.Active (m : ClusterManager Addr) (id : String) : Prop :=
  ∃ info, m.topology.nodes.lookup id = some info ∧ info.status = .active

/-- How many of the first `n` shards the node has. -/
def ClusterManager.held (m : ClusterManager Addr) (id : String) (n : Nat) : Nat :=
  n.count fun shard => m.topology.shardToNode shard = some id

/-- Each configured shard has an active node, and no active node has two shards more than
another, whichever shards are counted. -/
structure CompleteBalanced (m : ClusterManager Addr) : Prop where
  complete : ∀ shard < m.shardCount, ∃ id, m.topology.shardToNode shard = some id ∧ m.Active id
  balanced : ∀ a b, m.Active a → m.Active b → ∀ n, m.held a n ≤ m.held b n + 1

/-! ## Dealing out -/

/-- The shards below `n` that round robin gives to the node at position `j` of `k`. -/
theorem count_round_robin {k j n : Nat} (hj : j < k) :
    n / k ≤ n.count (fun shard => shard % k = j) ∧
      n.count (fun shard => shard % k = j) ≤ n / k + 1 := by
  have hcount := Nat.count_modEq_card n (by omega : 0 < k) j
  have hsame : n.count (fun shard => shard ≡ j [MOD k]) = n.count (fun shard => shard % k = j) := by
    simp only [Nat.ModEq, Nat.mod_eq_of_lt hj]
  rw [hsame] at hcount
  rw [hcount]
  split <;> omega

theorem count_below (p : Nat → Prop) [DecidablePred p] (bound n : Nat) :
    n.count (fun shard => shard < bound ∧ p shard) = (min n bound).count p := by
  induction n with
  | zero => simp
  | succ n ih =>
    rw [Nat.count_succ, ih]
    by_cases hn : n < bound
    · rw [Nat.min_eq_left (by omega), Nat.min_eq_left (by omega), Nat.count_succ]
      simp only [hn, true_and]
    · rw [Nat.min_eq_right (by omega), Nat.min_eq_right (by omega)]
      simp only [hn, false_and, if_false, Nat.add_zero]

theorem assign_some_iff {ids : List String} (hnodup : ids.Nodup) {j : Nat} (hj : j < ids.length)
    (shard : ShardId) :
    assign ids shard = some ids[j] ↔ shard < ClusterTopology.shardCount ∧ shard % ids.length = j := by
  have hpos : 0 < ids.length := by omega
  have hmod := Nat.mod_lt shard hpos
  rw [assign_eq]
  by_cases hshard : shard < ClusterTopology.shardCount
  · rw [if_pos hshard, List.getElem?_eq_getElem hmod, Option.some.injEq, hnodup.getElem_inj_iff]
    exact ⟨fun h => ⟨hshard, h⟩, fun h => h.2⟩
  · rw [if_neg hshard]
    exact ⟨fun h => absurd h (by simp), fun h => absurd h.1 hshard⟩

theorem assign_balanced {ids : List String} (hnodup : ids.Nodup) {a b : String} (ha : a ∈ ids)
    (hb : b ∈ ids) (n : Nat) :
    n.count (fun shard => assign ids shard = some a) ≤
      n.count (fun shard => assign ids shard = some b) + 1 := by
  have hshare : ∀ c ∈ ids, ∃ j < ids.length, n.count (fun shard => assign ids shard = some c) =
      (min n ClusterTopology.shardCount).count (fun shard => shard % ids.length = j) := by
    intro c hc
    obtain ⟨j, hj, rfl⟩ := List.mem_iff_getElem.mp hc
    refine ⟨j, hj, ?_⟩
    rw [← count_below]
    simp only [assign_some_iff hnodup hj]
  obtain ⟨i, hi, hshareA⟩ := hshare a ha
  obtain ⟨j, hj, hshareB⟩ := hshare b hb
  have hupper := (count_round_robin (n := min n ClusterTopology.shardCount) hi).2
  have hlower := (count_round_robin (n := min n ClusterTopology.shardCount) hj).1
  rw [hshareA, hshareB]
  omega

theorem assign_complete {ids : List String} (hids : ids ≠ []) {shard : ShardId}
    (hshard : shard < ClusterTopology.shardCount) : ∃ id ∈ ids, assign ids shard = some id := by
  have hmod := Nat.mod_lt shard (List.length_pos_iff.mpr hids)
  refine ⟨ids[shard % ids.length], List.getElem_mem hmod, ?_⟩
  rw [assign_eq, if_pos hshard, List.getElem?_eq_getElem hmod]

/-! ## Active nodes -/

theorem active_iff_mem (m : ClusterManager Addr) (id : String) :
    m.Active id ↔ id ∈ (activeEntries m.topology.nodes).map Sigma.fst := by
  constructor
  · rintro ⟨info, hinfo, hactive⟩
    refine List.mem_map.mpr ⟨⟨id, info⟩, List.mem_filter.mpr ⟨?_, by simpa using hactive⟩, rfl⟩
    exact AList.mem_lookup_iff.mp hinfo
  · intro hid
    obtain ⟨p, hp, rfl⟩ := List.mem_map.mp hid
    obtain ⟨hentry, hactive⟩ := List.mem_filter.mp hp
    exact ⟨p.2, AList.mem_lookup_iff.mpr hentry, by simpa using hactive⟩

/-- After a call that leaves an active node, the shards are dealt out to the active ones. -/
theorem perform_deals (it : Iteration Addr) (m : ClusterManager Addr) (call : NodeCall Addr)
    (hsome : ∃ id, (call.perform it m).Active id) :
    ∃ ids : List String, ids.Nodup ∧ (∀ id, id ∈ ids ↔ (call.perform it m).Active id) ∧
      (call.perform it m).topology.shardToNode = assign ids := by
  have hdealt : ∃ t : ClusterTopology Addr, (call.perform it m).topology = t.rebalanceShards it := by
    cases call with
    | addNode node => exact ⟨_, rfl⟩
    | removeNode nodeId => exact ⟨_, rfl⟩
  obtain ⟨t, ht⟩ := hdealt
  have hnodes : (call.perform it m).topology.nodes = t.nodes := by
    rw [ht, rebalanceShards_nodes]
  have hperm := ids_perm it t
  refine ⟨(t.activeNodes it).map NodeInfo.id, hperm.nodup_iff.mpr (activeIds_nodup t.nodes), ?_, ?_⟩
  · intro id
    rw [active_iff_mem, hnodes, hperm.mem_iff]
  · obtain ⟨id, hid⟩ := hsome
    rw [active_iff_mem, hnodes] at hid
    have hne : activeEntries t.nodes ≠ [] := by
      intro hnil
      rw [hnil] at hid
      exact absurd hid List.not_mem_nil
    rw [ht, rebalanceShards_shards, if_neg hne]

theorem perform_shard_count (m : ClusterManager Addr) (calls : List (Iteration Addr × NodeCall Addr)) :
    (m.perform calls).shardCount = m.shardCount := by
  induction calls generalizing m with
  | nil => rfl
  | cons call calls ih =>
    refine (ih (call.2.perform call.1 m)).trans ?_
    cases call.2 <;> rfl

theorem dealt_completeBalanced_iff {m : ClusterManager Addr} {ids : List String}
    (hnodup : ids.Nodup) (hactive : ∀ id, id ∈ ids ↔ m.Active id) (hsome : ∃ id, m.Active id)
    (hshards : m.topology.shardToNode = assign ids) :
    CompleteBalanced m ↔ m.shardCount ≤ ClusterTopology.shardCount := by
  have hids : ids ≠ [] := by
    obtain ⟨id, hid⟩ := hsome
    exact List.ne_nil_of_mem ((hactive id).mpr hid)
  constructor
  · intro hm
    by_contra hmore
    obtain ⟨id, hid, -⟩ := hm.complete ClusterTopology.shardCount (by omega)
    rw [hshards, assign_eq, if_neg (Nat.lt_irrefl _)] at hid
    exact absurd hid (by simp)
  · intro hle
    refine ⟨fun shard hshard => ?_, fun a b ha hb n => ?_⟩
    · obtain ⟨id, hid, howner⟩ := assign_complete hids (show shard < ClusterTopology.shardCount by omega)
      exact ⟨id, by rw [hshards, howner], (hactive id).mp hid⟩
    · rw [ClusterManager.held, ClusterManager.held, hshards]
      exact assign_balanced hnodup ((hactive a).mpr ha) ((hactive b).mpr hb) n

/-! ## Initialisation -/

/-- The local node alone has the shards that a shard id can name. -/
theorem single_shards (config : ClusterConfig Addr) (now : Nat) (shard : ShardId) :
    ((newCluster config).initSingleNode config now).topology.shardToNode shard =
      if shard < config.shardCount % 2 ^ 32 then some config.nodeId else none := by
  refine (update_loop (fun _ => some config.nodeId) shard (shardIds config.shardCount) _).trans ?_
  rw [shardIds]
  simp only [List.mem_range]
  rfl

theorem single_active_iff (config : ClusterConfig Addr) (now : Nat) (id : String) :
    ((newCluster config).initSingleNode config now).Active id ↔ id = config.nodeId := by
  have hlookup : ((newCluster config).initSingleNode config now).topology.nodes =
      (∅ : Nodes Addr).insert config.nodeId (config.localNode now) := rfl
  rw [ClusterManager.Active, hlookup]
  constructor
  · rintro ⟨info, hinfo, -⟩
    by_contra hne
    rw [AList.lookup_insert_ne hne, AList.lookup_empty] at hinfo
    exact absurd hinfo (by simp)
  · rintro rfl
    exact ⟨_, AList.lookup_insert _, rfl⟩

theorem single_completeBalanced_iff (config : ClusterConfig Addr) (now : Nat) :
    CompleteBalanced ((newCluster config).initSingleNode config now) ↔ config.shardCount < 2 ^ 32 := by
  constructor
  · intro hm
    by_contra hmore
    have hmod := Nat.mod_lt config.shardCount (by decide : 0 < 2 ^ 32)
    have hlt : config.shardCount % 2 ^ 32 < config.shardCount := by omega
    obtain ⟨id, hid, -⟩ := hm.complete (config.shardCount % 2 ^ 32) hlt
    rw [single_shards, if_neg (Nat.lt_irrefl _)] at hid
    exact absurd hid (by simp)
  · intro hlt
    refine ⟨fun shard hshard => ⟨config.nodeId, ?_, ?_⟩, fun a b ha hb n => ?_⟩
    · rw [single_shards, Nat.mod_eq_of_lt hlt]
      exact if_pos hshard
    · exact (single_active_iff config now config.nodeId).mpr rfl
    · rw [(single_active_iff config now a).mp ha, (single_active_iff config now b).mp hb]
      exact Nat.le_succ _

theorem initialised_completeBalanced_iff {m : ClusterManager Addr} (hm : Initialised m)
    (hsome : ∃ id, m.Active id) : CompleteBalanced m ↔ m.shardCount < 2 ^ 32 := by
  cases hm with
  | standalone nodeId bindAddr now => exact single_completeBalanced_iff _ now
  | cluster config now =>
    rw [ClusterManager.init] at hsome ⊢
    split at hsome
    case isTrue hseeds =>
      rw [if_pos hseeds]
      exact single_completeBalanced_iff config now
    case isFalse hseeds =>
      obtain ⟨id, info, hinfo, -⟩ := hsome
      exact absurd hinfo (by simp [newCluster, ClusterTopology.new])

/-- The shards are complete and balanced exactly when no more are configured than a
rebalance deals out, or none took place and shard ids can name them all. -/
theorem complete_balanced_iff {m : ClusterManager Addr} (hm : Initialised m)
    (calls : List (Iteration Addr × NodeCall Addr)) (hsome : ∃ id, (m.perform calls).Active id) :
    CompleteBalanced (m.perform calls) ↔
      m.shardCount ≤ ClusterTopology.shardCount ∨ (calls = [] ∧ m.shardCount < 2 ^ 32) := by
  have hdealt : ClusterTopology.shardCount < 2 ^ 32 := by decide
  induction calls using List.reverseRecOn with
  | nil =>
    refine (initialised_completeBalanced_iff hm hsome).trans ?_
    constructor
    · exact fun hlt => Or.inr ⟨rfl, hlt⟩
    · rintro (hle | ⟨-, hlt⟩)
      · exact hle.trans_lt hdealt
      · exact hlt
  | append_singleton calls call _ =>
    have hlast : m.perform (calls ++ [call]) = call.2.perform call.1 (m.perform calls) := by
      rw [ClusterManager.perform, List.foldl_append]
      rfl
    have hcount := perform_shard_count m (calls ++ [call])
    rw [hlast] at hsome hcount ⊢
    obtain ⟨ids, hnodup, hactive, hshards⟩ := perform_deals call.1 (m.perform calls) call.2 hsome
    rw [dealt_completeBalanced_iff hnodup hactive hsome hshards, hcount]
    simp

/-! ## A node joins -/

/-- One shard more than a rebalance deals out. -/
def wideConfig : ClusterConfig Nat :=
  { nodeId := "a", bindAddr := 0, seedNodes := [], shardCount := 257 }

def wideManager : ClusterManager Nat := (newCluster wideConfig).init wideConfig 0

def peerNode : NodeInfo Nat :=
  { id := "b", address := 1, status := .active, shards := [], capacity := 0, load := 0,
    lastHeartbeat := 0 }

theorem complete_balanced_three_shards :
    CompleteBalanced (((newCluster { wideConfig with shardCount := 3 }).init
      { wideConfig with shardCount := 3 } 0).perform [(Iteration.forward, .addNode peerNode)]) :=
  (complete_balanced_iff (Initialised.cluster _ 0) [(Iteration.forward, .addNode peerNode)]
    ⟨"b", peerNode, by decide, rfl⟩).mpr (Or.inl (by decide))

/-- The last shard is lost. -/
theorem not_complete_balanced_wide :
    Initialised wideManager ∧
      (∃ id, (wideManager.perform [(Iteration.forward, .addNode peerNode)]).Active id) ∧
      ¬CompleteBalanced (wideManager.perform [(Iteration.forward, .addNode peerNode)]) := by
  have hsome : ∃ id, (wideManager.perform [(Iteration.forward, .addNode peerNode)]).Active id :=
    ⟨"b", peerNode, by decide, rfl⟩
  refine ⟨Initialised.cluster wideConfig 0, hsome, fun hm => ?_⟩
  obtain ⟨ids, hnodup, hactive, hshards⟩ :=
    perform_deals Iteration.forward wideManager (.addNode peerNode) hsome
  have hle := (dealt_completeBalanced_iff hnodup hactive hsome hshards).mp hm
  exact absurd hle (by decide)

end Cluster
end RTDB
