import Mathlib.Data.Finset.Union
import RTDB.Cluster.Router
import RTDB.Lib.TopK

/-!
# Scatter and gather

A broadcast search asks every active node, each of which routes the query again.  The scores are
distances; the merge puts the greatest first, and keeps what came twice.  Scores are linearly
ordered: a score that is not a number, at which the sort of the merge panics, is left out.
-/

namespace RTDB
namespace Cluster

open Bytes Storage StorageRouter TopK

structure ScoredResult (D : Type) where
  id : VectorId
  score : D
  nodeId : String
  deriving DecidableEq, Repr

section Search

variable {Addr C D : Type} [LinearOrder D]
  (search : C → List UInt32 → Nat → Except RTDB.Error (List (VectorId × D)))

def StorageRouter.localSearch (r : StorageRouter Addr C) (collection : String)
    (vector : List UInt32) (topK : Nat) : Except RouterError (List (ScoredResult D)) :=
  match r.collections collection with
  | none => .error (.collectionNotFound collection)
  | some c =>
    match search c vector topK with
    | .error e => .error (.collection e)
    | .ok results => .ok (results.map fun s => { id := s.1, score := s.2, nodeId := r.nodeId })

/-- What `scatter_search` makes of the answers, in the order in which they arrive. -/
def gather (topK : Nat) (answers : List (String × Except RouterError (List (VectorId × D)))) :
    Except RouterError (List (ScoredResult D)) :=
  let allResults := answers.flatMap fun answer =>
    match answer.2 with
    | .ok results => results.map fun s => { id := s.1, score := s.2, nodeId := answer.1 }
    | .error _ => []
  let failedNodes := answers.filter fun answer =>
    match answer.2 with
    | .ok _ => false
    | .error _ => true
  if allResults.isEmpty && failedNodes.length > 0 then
    .error (.storage "All scatter-gather searches failed")
  else .ok ((allResults.mergeSort fun a b => decide (b.score ≤ a.score)).take topK)

variable (hash : Nat → Nat) (net : Network Addr C) (collection : String) (topK : Nat)

/-- A search of a single shard that every node it comes to answers.  The handler of `search` sends
back ids and scores. -/
inductive SingleShard : String → List UInt32 → List (VectorId × D) → Prop where
  | here {node : String} {vector : List UInt32} {results : List (ScoredResult D)} (draw : UInt64) :
      node ∈ net.members → (net.router node).route hash draw.toNat = some .here →
      (net.router node).localSearch search collection vector topK = .ok results →
      SingleShard node vector (results.map fun s => (s.id, s.score))
  | remote {node other : String} {vector : List UInt32} {results : List (VectorId × D)}
      (draw : UInt64) :
      node ∈ net.members → (net.router node).route hash draw.toNat = some (.remote other) →
      other ∈ (net.router node).connectionPools →
      SingleShard other (wordsOf (wordBytes vector)) results →
      SingleShard node vector results

variable (it : Iteration Addr) (node : String) (vector : List UInt32)

/-- `search` with `broadcast`, every node answering: the answers as they arrive, and the results.
The handler of `batch_search` searches a single shard for each query. -/
inductive Broadcast : List (String × List (VectorId × D)) → List (ScoredResult D) → Prop where
  | alone {results : List (ScoredResult D)} :
      (net.router node).cluster.topology.activeNodes it = [] →
      (net.router node).localSearch search collection vector topK = .ok results →
      Broadcast [] results
  | scatter {arrivals : List (String × List (VectorId × D))} {results : List (ScoredResult D)} :
      (net.router node).cluster.topology.activeNodes it ≠ [] →
      (arrivals.map Prod.fst).Perm
        (((net.router node).cluster.topology.activeNodes it).map NodeInfo.id) →
      (∀ arrival ∈ arrivals, arrival.1 ∈ (net.router node).connectionPools ∧
        SingleShard search hash net collection topK arrival.1 (wordsOf (wordBytes vector))
          arrival.2) →
      gather topK (arrivals.map fun arrival => (arrival.1, .ok arrival.2)) = .ok results →
      Broadcast arrivals results

/-! ## What is searched -/

/-- Each node's own search is exact: it finds the nearest of what the node holds, with their
distances. -/
def Exact (held : String → Finset VectorId) (dist : VectorId → D) : Prop :=
  ∀ node ∈ net.members, ∃ ids, Nearest dist topK (held node) ids ∧
    (net.router node).localSearch search collection vector topK =
      .ok (ids.map fun id => { id, score := dist id, nodeId := (net.router node).nodeId })

/-- The vectors of the cluster: those of the active nodes, or of the node itself if it knows none. -/
def clusterIds (held : String → Finset VectorId) : Finset VectorId :=
  if (net.router node).cluster.topology.activeNodes it = [] then held node
  else (((net.router node).cluster.topology.activeNodes it).map NodeInfo.id).toFinset.biUnion held

/-- The nearest vectors of the cluster, nearest first, with their distances. -/
def Right (dist : VectorId → D) (pool : Finset VectorId) (results : List (ScoredResult D)) : Prop :=
  Nearest dist topK pool (results.map ScoredResult.id) ∧ ∀ s ∈ results, s.score = dist s.id

def answeredIds (arrivals : List (String × List (VectorId × D))) : List VectorId :=
  arrivals.flatMap fun arrival => arrival.2.map Prod.fst

end Search

/-! ## The merge -/

section Merge

variable {Addr C D : Type} [LinearOrder D]
  {search : C → List UInt32 → Nat → Except RTDB.Error (List (VectorId × D))} {hash : Nat → Nat}
  {net : Network Addr C} {collection : String} {topK : Nat} {it : Iteration Addr} {node : String}
  {vector : List UInt32} {held : String → Finset VectorId} {dist : VectorId → D}

theorem singleShard_scores (hexact : Exact search net collection topK vector held dist)
    {results : List (VectorId × D)}
    (hshard : SingleShard search hash net collection topK node vector results) :
    ∀ s ∈ results, s.2 = dist s.1 := by
  generalize hsame : vector = searched at hshard
  induction hshard with
  | here draw hmember hroute hlocal =>
    obtain ⟨ids, -, hfound⟩ := hexact _ hmember
    rw [hsame] at hfound
    obtain rfl := Except.ok.inj (hlocal.symm.trans hfound)
    intro s hs
    obtain ⟨scored, hscored, rfl⟩ := List.mem_map.mp hs
    obtain ⟨id, -, rfl⟩ := List.mem_map.mp hscored
    rfl
  | remote draw hmember hroute hpool hshard ih => exact ih (by rw [wordsOf_wordBytes, hsame])

theorem gather_ok (topK : Nat) (arrivals : List (String × List (VectorId × D))) :
    gather topK (arrivals.map fun arrival => (arrival.1, .ok arrival.2)) =
      .ok (((arrivals.flatMap fun arrival =>
        arrival.2.map fun s => { id := s.1, score := s.2, nodeId := arrival.1 }).mergeSort
          fun a b : ScoredResult D => decide (b.score ≤ a.score)).take topK) := by
  rw [gather, List.flatMap_map, List.filter_map, List.length_map]
  have hnone : arrivals.filter ((fun answer : String × Except RouterError (List (VectorId × D)) =>
      match answer.2 with
      | .ok _ => false
      | .error _ => true) ∘ fun arrival => (arrival.1, .ok arrival.2)) = [] :=
    List.filter_eq_nil_iff.mpr fun arrival _ hfailed => Bool.noConfusion hfailed
  rw [hnone]
  simp

/-- The merge sorts the ids by their distances. -/
theorem gathered_ids {arrivals : List (String × List (VectorId × D))}
    (hscores : ∀ arrival ∈ arrivals, ∀ s ∈ arrival.2, s.2 = dist s.1)
    {results : List (ScoredResult D)}
    (hgather : gather topK (arrivals.map fun arrival => (arrival.1, .ok arrival.2)) = .ok results) :
    results.map ScoredResult.id = (farthestFirst dist (answeredIds arrivals)).take topK ∧
      ∀ s ∈ results, s.score = dist s.id := by
  rw [gather_ok, Except.ok.injEq] at hgather
  have hall : ∀ s ∈ arrivals.flatMap fun arrival =>
      arrival.2.map fun s => (⟨s.1, s.2, arrival.1⟩ : ScoredResult D), s.score = dist s.id := by
    intro s hs
    obtain ⟨arrival, harrival, hs⟩ := List.mem_flatMap.mp hs
    obtain ⟨t, ht, rfl⟩ := List.mem_map.mp hs
    exact hscores arrival harrival t ht
  subst hgather
  constructor
  · rw [List.map_take, farthestFirst]
    congr 1
    rw [List.map_mergeSort (s := farther dist), answeredIds, List.map_flatMap]
    · simp only [List.map_map, Function.comp_def]
    · intro a ha b hb
      rw [hall a ha, hall b hb]
      rfl
  · intro s hs
    exact hall s (List.mem_mergeSort.mp (List.mem_of_mem_take hs))

/-- A broadcast search is right when it has no node to ask or nothing to look for, and else exactly
when what it is answered first ties for the nearest. -/
theorem broadcast_right_iff (hnode : node ∈ net.members)
    (hexact : Exact search net collection topK vector held dist)
    {arrivals : List (String × List (VectorId × D))} {results : List (ScoredResult D)}
    (hrun : Broadcast search hash net collection topK it node vector arrivals results) :
    Right topK dist (clusterIds net it node held) results ↔
      (net.router node).cluster.topology.activeNodes it = [] ∨ topK = 0 ∨
        Tied dist topK (clusterIds net it node held) (answeredIds arrivals) := by
  cases hrun with
  | alone hnone hlocal =>
    obtain ⟨ids, hnearest, hfound⟩ := hexact node hnode
    obtain rfl := Except.ok.inj (hlocal.symm.trans hfound)
    refine iff_of_true ⟨?_, fun s hs => ?_⟩ (Or.inl hnone)
    · rw [clusterIds, if_pos hnone, List.map_map]
      exact (List.map_id'' (fun _ => rfl) ids).symm ▸ hnearest
    · obtain ⟨id, -, rfl⟩ := List.mem_map.mp hs
      rfl
  | scatter hsome hnodes harrivals hgather =>
    have hscores : ∀ arrival ∈ arrivals, ∀ s ∈ arrival.2, s.2 = dist s.1 := by
      intro arrival harrival
      have hshard := (harrivals arrival harrival).2
      rw [wordsOf_wordBytes] at hshard
      exact singleShard_scores hexact hshard
    obtain ⟨hids, hright⟩ := gathered_ids hscores hgather
    rw [Right, and_iff_left hright, hids, nearest_farthestFirst_iff, or_iff_right hsome]

end Merge

/-! ## One active node -/

/-- A collection as its ids in the order of their distances. -/
def takeSearch (c : List (VectorId × Nat)) (_ : List UInt32) (topK : Nat) :
    Except RTDB.Error (List (VectorId × Nat)) := .ok (c.take topK)

/-- A node without vectors in front of the active node, which has two. -/
def fronted : Network Unit (List (VectorId × Nat)) where
  members := ["front", "store"]
  router name :=
    { nodeId := name
      cluster :=
        { localNodeId := name
          shardCount := 1
          topology :=
            { ClusterTopology.new.addNode (sampleNode "store") with
              shardToNode := fun _ => some "store" } }
      connectionPools := ["store"]
      collections := fun _ => some (if name = "store" then [(1, 1), (2, 2)] else []) }

def frontedHeld (name : String) : Finset VectorId := if name = "store" then {1, 2} else ∅

theorem fronted_exact {topK : Nat} (hk : topK = 1 ∨ topK = 2) :
    Exact takeSearch fronted "vectors" topK [] frontedHeld id := by
  intro node hnode
  rcases List.mem_pair.mp hnode with rfl | rfl
  · refine ⟨[], ?_, by rcases hk with rfl | rfl <;> rfl⟩
    rcases hk with rfl | rfl <;>
      exact ⟨by decide, by decide, by decide, by decide, by decide⟩
  · refine ⟨[1, 2].take topK, ?_, by rcases hk with rfl | rfl <;> rfl⟩
    rcases hk with rfl | rfl <;>
      exact ⟨by decide, by decide, by decide, by decide, by decide⟩

theorem fronted_run (topK : Nat) :
    ∃ results, Broadcast takeSearch id fronted "vectors" topK .forward "front" []
      [("store", [(1, 1), (2, 2)].take topK)] results := by
  have hmember : "store" ∈ fronted.members := by decide
  have hroute : (fronted.router "store").route id (0 : UInt64).toNat = some .here := by decide
  refine ⟨_, Broadcast.scatter (by decide) (List.Perm.refl _) (fun arrival harrival => ?_)
    (gather_ok topK _)⟩
  rw [List.mem_singleton.mp harrival]
  refine ⟨List.mem_singleton_self "store", ?_⟩
  have hlocal : (fronted.router "store").localSearch takeSearch "vectors" [] topK =
      .ok (([(1, 1), (2, 2)].take topK).map fun s => { id := s.1, score := s.2, nodeId := "store" }) := rfl
  have hshard := SingleShard.here 0 hmember hroute hlocal
  rw [List.map_map, show ((fun s : ScoredResult Nat => (s.id, s.score)) ∘ fun s : VectorId × Nat =>
    (⟨s.1, s.2, "store"⟩ : ScoredResult Nat)) = id from rfl, List.map_id] at hshard
  exact hshard

theorem broadcast_right_one :
    ∃ results, Broadcast takeSearch id fronted "vectors" 1 .forward "front" []
        [("store", [(1, 1)])] results ∧
      Right 1 id (clusterIds fronted .forward "front" frontedHeld) results := by
  obtain ⟨results, hrun⟩ := fronted_run 1
  refine ⟨results, hrun, (broadcast_right_iff (by decide) (fronted_exact (Or.inl rfl)) hrun).mpr
    (Or.inr (Or.inr ?_))⟩
  exact ⟨by decide, by decide, by decide, by decide, by decide⟩

/-- Two vectors come back with the farther one first. -/
theorem not_broadcast_right_two :
    ¬ ∀ (net : Network Unit (List (VectorId × Nat))) (node : String) (topK : Nat)
      (held : String → Finset VectorId), node ∈ net.members →
      Exact takeSearch net "vectors" topK [] held id → ∀ arrivals results,
        Broadcast takeSearch id net "vectors" topK .forward node [] arrivals results →
          Right topK id (clusterIds net .forward node held) results := by
  intro hall
  obtain ⟨results, hrun⟩ := fronted_run 2
  have hright := hall fronted "front" 2 frontedHeld (by decide) (fronted_exact (Or.inr rfl)) _ _ hrun
  cases hrun with
  | scatter hsome hnodes harrivals hgather =>
    have hscores : ∀ arrival ∈ [("store", [(1, 1), (2, 2)].take 2)], ∀ s ∈ arrival.2,
        s.2 = id s.1 := by decide
    obtain ⟨hids, -⟩ := gathered_ids hscores hgather
    rw [Right, hids, nearest_farthestFirst_iff] at hright
    rcases hright.1 with htwo | ⟨hle, -⟩
    · exact absurd htwo (by decide)
    · exact absurd hle (by decide)

end Cluster
end RTDB
