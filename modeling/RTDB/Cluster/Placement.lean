import Mathlib.Algebra.GroupWithZero.Nat
import RTDB.Cluster.HashRing
import RTDB.Lib.FirstSeen
import RTDB.Storage.Types

/-!
# Replica placement

`HashRing::get_nodes`: going around the ring from the key, the first nodes met.  `ShardRouter`
places shards and vectors by it.  Both make room beforehand for all that is asked for, which panics
where it is too much.
-/

namespace RTDB
namespace Cluster

open Storage

namespace HashRing

/-- The loop over a range of the ring, with the nodes seen and the nodes taken so far. -/
def takeDistinct (count : Nat) :
    List (Nat × String) → List String × List String → List String × List String
  | [], state => state
  | (_, node) :: range, (seen, result) =>
    let fresh := node ∉ seen
    let seen := if fresh then node :: seen else seen
    let result := if fresh ∧ result.length < count then result ++ [node] else result
    if count ≤ result.length then (seen, result) else takeDistinct count range (seen, result)

variable (hash : String → Nat)

/-- Room for `count` references is made in the result and in the set of the nodes seen. -/
def CountFits (count : Nat) : Prop := VecFits 8 count ∧ HashSetFits count

instance (count : Nat) : Decidable (CountFits count) := inferInstanceAs (Decidable (_ ∧ _))

/-- The nodes that hold a key: the primary and its replicas; none for a panic. -/
def getNodes (r : HashRing) (key : String) (count : Nat) : Option (List String) :=
  if r.ring.entries = [] ∨ count = 0 then some []
  else if CountFits count then
    let tail := takeDistinct count (r.ring.entries.filter fun e => hash key ≤ e.1) ([], [])
    some (if tail.2.length < count then (takeDistinct count r.ring.entries tail).2 else tail.2)
  else none

/-- The nodes in the order in which they are met around the ring from a key. -/
def clockwise (r : HashRing) (key : String) : List String :=
  (r.ring.around (hash key)).map Prod.snd

/-- A placement: the right number of different nodes of the ring, in the order in which
they are met from the key, none of those met before one of them left out. -/
structure Placed (r : HashRing) (key : String) (count : Nat) (placed : List String) : Prop where
  length_eq : placed.length = min count r.nodes.length
  distinct : placed.Nodup
  members : ∀ node ∈ placed, node ∈ r.nodes
  in_order : placed.Pairwise fun a b =>
    (r.clockwise hash key).idxOf a < (r.clockwise hash key).idxOf b
  first : ∀ a ∈ r.nodes, ∀ b ∈ placed,
    (r.clockwise hash key).idxOf a < (r.clockwise hash key).idxOf b → a ∈ placed

variable {hash : String → Nat} {r : HashRing} {nodeIds : List String}

/-! ## The loop -/

theorem takeDistinct_seen {count hashed : Nat} {node : String} {range : List (Nat × String)}
    {seen result : List String} (hroom : result.length < count) (hnode : node ∈ seen) :
    takeDistinct count ((hashed, node) :: range) (seen, result) =
      takeDistinct count range (seen, result) := by
  have hmore : ¬count ≤ result.length := by omega
  simp [takeDistinct, hnode, hmore]

theorem takeDistinct_fresh {count hashed : Nat} {node : String} {range : List (Nat × String)}
    {seen result : List String} (hroom : result.length < count) (hnode : node ∉ seen) :
    takeDistinct count ((hashed, node) :: range) (seen, result) =
      if count ≤ (result ++ [node]).length then (node :: seen, result ++ [node])
      else takeDistinct count range (node :: seen, result ++ [node]) := by
  simp [takeDistinct, hnode, hroom]

/-- After the nodes met in `past` the loop goes on to the first `count` different ones. -/
theorem takeDistinct_eq {count : Nat} (range : List (Nat × String)) {seen past : List String}
    (hseen : ∀ node, node ∈ seen ↔ node ∈ past) (hroom : past.eraseDups.length < count) :
    let all := past ++ range.map Prod.snd
    let out := takeDistinct count range (seen, past.eraseDups)
    out.2 = all.eraseDups.take count ∧
      (out.2.length < count → ∀ node, node ∈ out.1 ↔ node ∈ all) := by
  induction range generalizing seen past with
  | nil =>
    intro all out
    have hall : all = past := List.append_nil past
    rw [hall, List.take_of_length_le (by omega)]
    exact ⟨rfl, fun _ => hseen⟩
  | cons e range ih =>
    intro all out
    have hall : all = (past ++ [e.2]) ++ range.map Prod.snd := by
      rw [List.append_assoc, List.singleton_append]
      rfl
    have hconcat := FirstSeen.eraseDups_concat past e.2
    by_cases hnew : e.2 ∈ past
    · rw [if_pos hnew] at hconcat
      have hout : out = takeDistinct count range (seen, (past ++ [e.2]).eraseDups) := by
        rw [hconcat]
        exact takeDistinct_seen hroom ((hseen e.2).mpr hnew)
      rw [hall, hout]
      refine ih (fun node => ?_) (hconcat ▸ hroom)
      rw [hseen, List.mem_append, List.mem_singleton]
      exact (or_iff_left_of_imp fun heq => heq ▸ hnew).symm
    · rw [if_neg hnew] at hconcat
      have hout : out = if count ≤ (past ++ [e.2]).eraseDups.length then
          (e.2 :: seen, (past ++ [e.2]).eraseDups)
          else takeDistinct count range (e.2 :: seen, (past ++ [e.2]).eraseDups) := by
        rw [hconcat]
        exact takeDistinct_fresh hroom fun h => hnew ((hseen e.2).mp h)
      rw [hall, hout]
      split
      · next hfull =>
        have hlen : (past ++ [e.2]).eraseDups.length = count := by
          rw [hconcat, List.length_append, List.length_singleton] at hfull ⊢
          omega
        rw [@List.eraseDups_append _ _ _ (past ++ [e.2]), ← hlen, List.take_left]
        exact ⟨rfl, fun hlt => absurd hlt (Nat.lt_irrefl _)⟩
      · next hmore =>
        refine ih (fun node => ?_) (by omega)
        rw [List.mem_cons, hseen, List.mem_append, List.mem_singleton, or_comm]

/-- The first scan meets the nodes from the key on, the second one all of them. -/
theorem rescan_eq (r : HashRing) (key : String) :
    let past := (r.ring.entries.filter fun e => hash key ≤ e.1).map Prod.snd
    (past ++ r.ring.entries.map Prod.snd).eraseDups = (r.clockwise hash key).eraseDups := by
  intro past
  have hall : past ++ r.ring.entries.map Prod.snd = r.clockwise hash key ++ past := by
    rw [clockwise, SortedMap.around, SortedMap.entries_split (hash key), List.map_append,
      List.map_append, List.append_assoc, ← SortedMap.entries_split]
  rw [hall]
  refine FirstSeen.eraseDups_append_subset fun node hnode => ?_
  rw [clockwise, SortedMap.around, List.map_append]
  exact List.mem_append_left _ hnode

/-- The two scans take the first nodes met around the ring. -/
theorem getNodes_eq (r : HashRing) (key : String) (count : Nat) :
    r.getNodes hash key count =
      if r.ring.entries = [] ∨ CountFits count then
        some ((r.clockwise hash key).eraseDups.take count)
      else none := by
  rw [getNodes]
  split
  · next hnone =>
    rcases hnone with hempty | rfl
    · rw [if_pos (Or.inl hempty), clockwise, SortedMap.around, hempty]
      simp
    · rw [if_pos (Or.inr (by decide)), List.take_zero]
  · next hsome =>
    obtain ⟨hentries, hcount⟩ := not_or.mp hsome
    have hfirst := @takeDistinct_eq count
      (r.ring.entries.filter fun e => hash key ≤ e.1) [] [] (fun _ => Iff.rfl)
      (Nat.pos_of_ne_zero hcount)
    rw [List.eraseDups_nil, List.nil_append] at hfirst
    generalize hpast : (r.ring.entries.filter fun e => hash key ≤ e.1).map Prod.snd = past at hfirst
    generalize takeDistinct count (r.ring.entries.filter fun e => hash key ≤ e.1) ([], []) = tail
      at hfirst ⊢
    obtain ⟨seen, result⟩ := tail
    obtain ⟨rfl, hseen⟩ := hfirst
    have hall := @rescan_eq hash r key
    rw [hpast] at hall
    by_cases hfits : CountFits count
    · rw [if_pos hfits, if_pos (Or.inr hfits)]
      dsimp only at hseen ⊢
      congr 1
      split
      · next hmore =>
        have hroom : past.eraseDups.length < count := by
          rw [List.length_take] at hmore
          omega
        rw [List.take_of_length_le hroom.le, (takeDistinct_eq _ (hseen hmore) hroom).1, hall]
      · next hfull =>
        have hlen : count ≤ past.eraseDups.length := by
          rw [List.length_take] at hfull
          omega
        rw [← hall, List.eraseDups_append, List.take_append_of_le_length hlen]
    · rw [if_neg hfits, if_neg (not_or.mpr ⟨hentries, hfits⟩)]

/-! ## The nodes on the ring -/

theorem mem_clockwise (hr : Fits hash nodeIds r) (hvirtual : 1 ≤ r.virtualNodes) (key node : String) :
    node ∈ r.clockwise hash key ↔ node ∈ r.nodes := by
  rw [clockwise, List.mem_map]
  constructor
  · rintro ⟨e, he, rfl⟩
    exact ((hr.holds e.1 e.2).mp (SortedMap.mem_around.mp he)).1
  · intro hnode
    exact ⟨(hash (vnodeKey node 0), node),
      SortedMap.mem_around.mpr ((hr.holds _ node).mpr ⟨hnode, 0, hvirtual, rfl⟩), rfl⟩

theorem nodup_perform (hash : String → Nat) (calls : List Call) (hr : r.nodes.Nodup) :
    (r.perform hash calls).nodes.Nodup := by
  induction calls generalizing r with
  | nil => exact hr
  | cons call calls ih =>
    cases call with
    | addNode nodeId =>
      refine ih (r := r.addNode hash nodeId) ?_
      rw [addNode]
      split
      · exact hr
      · next hnew => exact hr.append (List.nodup_singleton _) (List.disjoint_singleton.mpr hnew)
    | removeNode nodeId => exact ih (r := r.removeNode hash nodeId) (hr.filter _)

theorem placed_take (hr : Fits hash nodeIds r) (hnodup : r.nodes.Nodup)
    (hvirtual : 1 ≤ r.virtualNodes) (key : String) (count : Nat) :
    Placed hash r key count ((r.clockwise hash key).eraseDups.take count) := by
  have hmem : ∀ node, node ∈ (r.clockwise hash key).eraseDups ↔ node ∈ r.nodes := fun node => by
    rw [List.mem_eraseDups, mem_clockwise hr hvirtual]
  have hperm := (List.perm_ext_iff_of_nodup (FirstSeen.nodup_eraseDups _) hnodup).mpr hmem
  have htake := List.take_sublist count (r.clockwise hash key).eraseDups
  exact
    { length_eq := by rw [List.length_take, hperm.length_eq]
      distinct := (FirstSeen.nodup_eraseDups _).sublist htake
      members := fun node hnode => (hmem node).mp (htake.subset hnode)
      in_order := (FirstSeen.pairwise_eraseDups _).sublist htake
      first := fun a ha b hb hlt =>
        FirstSeen.mem_take_eraseDups ((mem_clockwise hr hvirtual key a).mpr ha) hb hlt }

theorem head?_take_clockwise (r : HashRing) (key : String) {count : Nat} (hcount : 1 ≤ count) :
    ((r.clockwise hash key).eraseDups.take count).head? = r.getNode hash key := by
  rw [getNode, SortedMap.successor_eq_head?, List.head?_take, if_neg (by omega),
    FirstSeen.head?_eraseDups, clockwise, List.head?_map]

theorem entries_eq_nil_iff (hr : Fits hash nodeIds r) (hvirtual : 1 ≤ r.virtualNodes) :
    r.ring.entries = [] ↔ r.nodes = [] := by
  rw [List.eq_nil_iff_forall_not_mem, List.eq_nil_iff_forall_not_mem]
  constructor
  · intro hnone node hnode
    exact hnone _ ((hr.holds (hash (vnodeKey node 0)) node).mpr ⟨hnode, 0, hvirtual, rfl⟩)
  · intro hnone e he
    exact hnone e.2 ((hr.holds e.1 e.2).mp he).1

/-- A key is placed on as many different nodes as are asked for and there are, the first ones around
the ring from the key on, beginning with the node it belongs to. -/
def Places (hash : String → Nat) (r : HashRing) (key : String) (count : Nat) : Prop :=
  ∃ placed, r.getNodes hash key count = some placed ∧ Placed hash r key count placed ∧
    (1 ≤ count → placed.head? = r.getNode hash key)

/-- On the ring that any calls lead to, keys are placed for every count that room can be made for;
without a node, for every count. -/
theorem replica_placement_iff (hash : String → Nat) (virtualNodes : Nat)
    (hvirtual : 1 ≤ virtualNodes) (calls : List Call)
    (hnone : NoCollision hash virtualNodes (calls.map Call.nodeId)) (key : String) (count : Nat) :
    let r := (withVirtualNodes virtualNodes).perform hash calls
    Places hash r key count ↔ r.nodes = [] ∨ CountFits count := by
  intro r
  have hknown : ∀ call ∈ calls, call.nodeId ∈ calls.map Call.nodeId := fun call hcall =>
    List.mem_map_of_mem hcall
  obtain ⟨hr, hkept⟩ := fits_perform (r := withVirtualNodes virtualNodes) calls hnone
    (fits_withVirtualNodes virtualNodes) hknown
  have hvirtual' : 1 ≤ r.virtualNodes := hkept ▸ hvirtual
  rw [Places, getNodes_eq, ← entries_eq_nil_iff hr hvirtual']
  constructor
  · rintro ⟨placed, hplaced, -⟩
    by_contra hpanic
    rw [if_neg hpanic] at hplaced
    exact absurd hplaced (by simp)
  · intro hfits
    rw [if_pos hfits]
    exact ⟨_, rfl, placed_take hr (nodup_perform hash calls List.nodup_nil) hvirtual' key count,
      head?_take_clockwise r key⟩

theorem replica_placement_spread :
    let r := (withVirtualNodes 2).perform spread [.addNode "a", .addNode "b"]
    r.getNodes spread "k" 3 = some ["a", "b"] ∧ Places spread r "k" 3 :=
  ⟨by decide, (replica_placement_iff spread 2 (by decide) [.addNode "a", .addNode "b"] (by decide)
    "k" 3).mpr (Or.inr (by decide))⟩

/-- All that a `usize` can ask for is too much for the one node there is. -/
theorem not_replica_placement_all :
    ¬∀ (hash : String → Nat) (virtualNodes : Nat), 1 ≤ virtualNodes → ∀ calls : List Call,
      NoCollision hash virtualNodes (calls.map Call.nodeId) → ∀ key count,
        Places hash ((withVirtualNodes virtualNodes).perform hash calls) key count := by
  intro hplaces
  obtain ⟨placed, hplaced, -⟩ :=
    hplaces spread 1 (by decide) [.addNode "a"] (by decide) "k" (2 ^ 64 - 1)
  have hpanic : ((withVirtualNodes 1).perform spread [.addNode "a"]).getNodes spread "k"
      (2 ^ 64 - 1) = none := by decide
  exact absurd (hpanic.symm.trans hplaced) (by simp)

end HashRing

/-! ## The shard router -/

structure ShardRouter where
  ring : HashRing
  shardCount : Nat

namespace ShardRouter

open HashRing

def new (shardCount : Nat) : ShardRouter := { ring := HashRing.new, shardCount }

variable (hash : String → Nat)

def addNode (router : ShardRouter) (nodeId : String) : ShardRouter :=
  { router with ring := router.ring.addNode hash nodeId }

def removeNode (router : ShardRouter) (nodeId : String) : ShardRouter :=
  { router with ring := router.ring.removeNode hash nodeId }

def getNodeForVector (router : ShardRouter) (vectorId : Nat) : Option String :=
  router.ring.getNode hash s!"vector-{vectorId}"

def getNodesForVector (router : ShardRouter) (vectorId replicationFactor : Nat) :
    Option (List String) :=
  router.ring.getNodes hash s!"vector-{vectorId}" replicationFactor

def getNodeForShard (router : ShardRouter) (shardId : Nat) : Option String :=
  router.ring.getNode hash s!"shard-{shardId}"

/-- Room is made for all shards; then their number is cut to 32 bits. -/
def calculateShardMapping (router : ShardRouter) : Option (List (Nat × String)) :=
  if VecFits 32 router.shardCount then
    some ((List.range (router.shardCount % 2 ^ 32)).filterMap fun shardId =>
      (router.getNodeForShard hash shardId).map fun node => (shardId, node))
  else none

def perform (router : ShardRouter) (calls : List Call) : ShardRouter :=
  calls.foldl (fun router call =>
    match call with
    | .addNode nodeId => router.addNode hash nodeId
    | .removeNode nodeId => router.removeNode hash nodeId) router

variable {hash} {nodeIds : List String} {router : ShardRouter}

theorem perform_eq (hash : String → Nat) (calls : List Call) (router : ShardRouter) :
    router.perform hash calls = { router with ring := router.ring.perform hash calls } := by
  induction calls generalizing router with
  | nil => rfl
  | cons call calls ih =>
    cases call with
    | addNode nodeId => exact ih (router.addNode hash nodeId)
    | removeNode nodeId => exact ih (router.removeNode hash nodeId)

theorem fits_new {calls : List Call} (shardCount : Nat) (hnone : NoCollision hash 150 nodeIds)
    (hknown : ∀ call ∈ calls, call.nodeId ∈ nodeIds) :
    Fits hash nodeIds ((new shardCount).perform hash calls).ring ∧
      ((new shardCount).perform hash calls).ring.virtualNodes = 150 := by
  rw [perform_eq]
  exact fits_perform calls hnone (fits_withVirtualNodes 150) hknown

theorem ring_eq {r r' : HashRing} (hr : Fits hash nodeIds r) (hr' : Fits hash nodeIds r')
    (hvirtual : r.virtualNodes = r'.virtualNodes) (hnodes : ∀ n, n ∈ r.nodes ↔ n ∈ r'.nodes) :
    r.ring = r'.ring := by
  refine SortedMap.eq_of_mem_iff fun e => ?_
  rw [hr.holds e.1 e.2, hr'.holds e.1 e.2, hnodes, hvirtual]

theorem getNode_isSome {r : HashRing} (hr : Fits hash nodeIds r) (hvirtual : 1 ≤ r.virtualNodes)
    (key : String) : (∃ node ∈ r.nodes, r.getNode hash key = some node) ∨
      (r.nodes = [] ∧ r.getNode hash key = none) := by
  rw [getNode, SortedMap.successor_eq_head?]
  have hmem := mem_clockwise hr hvirtual key
  rw [clockwise] at hmem
  cases haround : r.ring.around (hash key) with
  | nil =>
    rw [haround] at hmem
    refine Or.inr ⟨List.eq_nil_iff_forall_not_mem.mpr fun node hnode => ?_, rfl⟩
    exact List.not_mem_nil ((hmem node).mpr hnode)
  | cons e l =>
    rw [haround] at hmem
    exact Or.inl ⟨e.2, (hmem e.2).mp List.mem_cons_self, rfl⟩

/-- Routers that came to the same nodes, in whatever order and however often nodes came and went,
place every shard, vector and replica alike. -/
theorem routers_agree (hash : String → Nat) (shardCount : Nat) (calls calls' : List Call)
    (hnone : NoCollision hash 150 ((calls ++ calls').map Call.nodeId))
    (hnodes : ∀ n, n ∈ ((new shardCount).perform hash calls).ring.nodes ↔
      n ∈ ((new shardCount).perform hash calls').ring.nodes) :
    ((new shardCount).perform hash calls).calculateShardMapping hash =
        ((new shardCount).perform hash calls').calculateShardMapping hash ∧
      (∀ vectorId, ((new shardCount).perform hash calls).getNodeForVector hash vectorId =
        ((new shardCount).perform hash calls').getNodeForVector hash vectorId) ∧
      ∀ vectorId count, ((new shardCount).perform hash calls).getNodesForVector hash vectorId count =
        ((new shardCount).perform hash calls').getNodesForVector hash vectorId count := by
  obtain ⟨hr, hvirtual⟩ := fits_new shardCount hnone fun call hcall =>
    List.mem_map_of_mem (List.mem_append_left calls' hcall)
  obtain ⟨hr', hvirtual'⟩ := fits_new shardCount hnone fun call hcall =>
    List.mem_map_of_mem (List.mem_append_right calls hcall)
  have hring := ring_eq hr hr' (hvirtual.trans hvirtual'.symm) hnodes
  have hcount : ((new shardCount).perform hash calls).shardCount =
      ((new shardCount).perform hash calls').shardCount := by rw [perform_eq, perform_eq]
  refine ⟨?_, fun vectorId => ?_, fun vectorId count => ?_⟩
  · simp only [calculateShardMapping, getNodeForShard, getNode, hring, hcount]
  · rw [getNodeForVector, getNodeForVector, getNode, getNode, hring]
  · rw [getNodesForVector, getNodesForVector, getNodes, getNodes, hring]

def placeOf (nodeIds : List String) (key : String) : Nat :=
  (nodeIds.flatMap fun nodeId => (List.range 150).map (vnodeKey nodeId)).idxOf key

theorem noCollision_placeOf {nodeIds l : List String} (hknown : ∀ n ∈ l, n ∈ nodeIds) :
    NoCollision (placeOf nodeIds) 150 l := by
  have hmem : ∀ n ∈ l, ∀ i < 150,
      vnodeKey n i ∈ nodeIds.flatMap fun nodeId => (List.range 150).map (vnodeKey nodeId) :=
    fun n hn i hi => List.mem_flatMap.mpr
      ⟨n, hknown n hn, List.mem_map_of_mem (List.mem_range.mpr hi)⟩
  intro a ha b hb i hi j hj heq
  exact (List.idxOf_inj (hmem a ha i hi)).mp heq

/-- A node that went and came back. -/
theorem routers_agree_back :
    ((new 2).perform (placeOf ["a", "b"]) [.addNode "a", .addNode "b"]).calculateShardMapping
        (placeOf ["a", "b"]) =
      ((new 2).perform (placeOf ["a", "b"]) [.addNode "b", .addNode "a", .removeNode "b",
        .addNode "b"]).calculateShardMapping (placeOf ["a", "b"]) :=
  have hfirst : ((new 2).perform (placeOf ["a", "b"]) [.addNode "a", .addNode "b"]).ring.nodes =
      ["a", "b"] := by decide +kernel
  have hsecond : ((new 2).perform (placeOf ["a", "b"]) [.addNode "b", .addNode "a", .removeNode "b",
      .addNode "b"]).ring.nodes = ["a", "b"] := by decide +kernel
  (routers_agree _ 2 [.addNode "a", .addNode "b"]
    [.addNode "b", .addNode "a", .removeNode "b", .addNode "b"]
    (noCollision_placeOf (by decide)) (fun n => by rw [hfirst, hsecond])).1

/-- While there is a node, each shard has one, and a node that goes leaves the shards of the others
where they are. -/
theorem shard_mapping (hash : String → Nat) {shardCount : Nat} (hfits : VecFits 32 shardCount)
    (calls : List Call) (nodeId : String)
    (hnone : NoCollision hash 150 (nodeId :: calls.map Call.nodeId)) :
    let router := (new shardCount).perform hash calls
    ∃ mapping mapping', router.calculateShardMapping hash = some mapping ∧
      (router.removeNode hash nodeId).calculateShardMapping hash = some mapping' ∧
      (router.ring.nodes ≠ [] → mapping.map Prod.fst = List.range (shardCount % 2 ^ 32)) ∧
      (∀ shard ∈ mapping, shard.2 ∈ router.ring.nodes) ∧
      ∀ shard ∈ mapping, shard.2 ≠ nodeId → shard ∈ mapping' := by
  intro router
  have hknown : ∀ call ∈ calls, call.nodeId ∈ nodeId :: calls.map Call.nodeId := fun call hcall =>
    List.mem_cons_of_mem nodeId (List.mem_map_of_mem hcall)
  obtain ⟨hr, hvirtual⟩ := fits_new shardCount hnone hknown
  have hnone' : NoCollision hash router.ring.virtualNodes (nodeId :: calls.map Call.nodeId) :=
    hvirtual ▸ hnone
  have hsome := getNode_isSome hr (by rw [hvirtual]; decide)
  have hcount : router.shardCount = shardCount := by
    change ((new shardCount).perform hash calls).shardCount = shardCount
    rw [perform_eq]
    rfl
  have hroom : VecFits 32 router.shardCount := hcount.symm ▸ hfits
  refine ⟨_, _, if_pos hroom, if_pos hroom, fun hne => ?_, fun shard hshard => ?_,
    fun shard hshard hother => ?_⟩
  · rw [hcount, List.map_filterMap]
    refine (List.filterMap_congr fun shardId _ => ?_).trans List.filterMap_some
    rcases hsome s!"shard-{shardId}" with ⟨node, -, hnode⟩ | ⟨hempty, -⟩
    · rw [getNodeForShard, hnode]
      rfl
    · exact absurd hempty hne
  · obtain ⟨shardId, -, hnode⟩ := List.mem_filterMap.mp hshard
    obtain ⟨node, hnode, rfl⟩ := Option.map_eq_some_iff.mp hnode
    rcases hsome s!"shard-{shardId}" with ⟨node', hin, hnode'⟩ | ⟨-, hnode'⟩
    · rw [getNodeForShard, hnode'] at hnode
      exact Option.some.inj hnode ▸ hin
    · rw [getNodeForShard, hnode'] at hnode
      exact absurd hnode (by simp)
  · obtain ⟨shardId, hrange, hnode⟩ := List.mem_filterMap.mp hshard
    obtain ⟨node, howns, rfl⟩ := Option.map_eq_some_iff.mp hnode
    refine List.mem_filterMap.mpr ⟨shardId, hrange, Option.map_eq_some_iff.mpr ⟨node, ?_, rfl⟩⟩
    have hremoved := removeNode_fits hnone' hr List.mem_cons_self
    have hring := ring_filter hr hremoved rfl fun n => by
      rw [HashRing.removeNode, List.mem_filter, decide_eq_true_iff]
    by_contra hmoved
    have howner : router.getNodeForShard hash shardId = some nodeId :=
      getNode_filter hring fun heq => hmoved (heq.symm.trans howns)
    rw [howner] at howns
    exact hother (Option.some.inj howns).symm

theorem shard_mapping_two :
    let router := (new 2).perform (placeOf ["a", "b"]) [.addNode "a", .addNode "b"]
    ∃ mapping, router.calculateShardMapping (placeOf ["a", "b"]) = some mapping ∧
      mapping.map Prod.fst = [0, 1] ∧ ∀ shard ∈ mapping, shard.2 ∈ ["a", "b"] := by
  intro router
  obtain ⟨mapping, -, hmapping, -, hshards, hnodes, -⟩ :=
    shard_mapping (placeOf ["a", "b"]) (show VecFits 32 2 by decide) [.addNode "a", .addNode "b"] "b"
      (noCollision_placeOf (by decide))
  have hring : ((new 2).perform (placeOf ["a", "b"]) [.addNode "a", .addNode "b"]).ring.nodes =
      ["a", "b"] := by decide +kernel
  rw [hring] at hshards hnodes
  exact ⟨mapping, hmapping, hshards (List.cons_ne_nil "a" ["b"]), hnodes⟩

end ShardRouter

end Cluster
end RTDB
