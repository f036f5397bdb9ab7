import RTDB.Index.DeltaEncoding
import RTDB.Index.Hnsw

/-!
# The optimized HNSW index

`index/hnsw_optimized.rs`.  The hash maps are tree maps; the level that `add` draws and the order
that a heap gives its elements away in are inputs, and so is the arithmetic of `f32`.  The norms,
which only `add` writes, are left out, and so is the prefetching.
-/

namespace RTDB
namespace Index

open Storage BestFirst

variable {P D F : Type}

inductive Metric where
  | euclidean
  | cosine
  | dot
  | manhattan
  deriving DecidableEq, Repr

/-- The values of the metrics in `Distance::calculate`, the distance of the `DistanceCalculator`,
and `f32` as the results need it: outside NaN, negation turns the order around. -/
structure Floats (D : Type) [LinearOrder D] where
  value : Metric → List UInt32 → List UInt32 → D
  euclidean : List UInt32 → List UInt32 → D
  max : D
  neg : D → D
  isNan : D → Bool
  isNan_neg : ∀ a, isNan (neg a) = isNan a
  neg_le_neg : ∀ a b, isNan a = false → isNan b = false → (neg a ≤ neg b ↔ b ≤ a)

/-- The orders that the heaps of a call give their elements away in. -/
structure HeapOrder (D : Type) where
  order : Nat → List (D × VectorId) → List (D × VectorId)
  perm : ∀ n results, (order n results).Perm results

/-- In the order of the queue. -/
def HeapOrder.sorted : HeapOrder D := { order := fun _ results => results, perm := fun _ _ => .refl _ }

structure OptimizedLayer where
  edges : Std.TreeMap VectorId DeltaEncodedNeighbors

structure HnswIndexOptimized (P : Type) where
  config : HnswConfig
  layers : List OptimizedLayer
  maxLayer : Nat
  entryPoint : Option VectorId
  vectors : Std.TreeMap VectorId (Vector P)

namespace HnswIndexOptimized

/-- The distance that is asked for is not kept. -/
def withConfig (config : HnswConfig) (_distance : Metric) : HnswIndexOptimized P :=
  { config, layers := [], maxLayer := 0, entryPoint := none, vectors := ∅ }

def new (distance : Metric) : HnswIndexOptimized P :=
  withConfig { m := 16, efConstruct := 200, ef := 128 } distance

def neighbors (index : HnswIndexOptimized P) (layerIdx : Nat) (id : VectorId) : List VectorId :=
  match index.layers[layerIdx]?.bind fun layer => layer.edges[id]? with
  | none => []
  | some encoded => encoded.decode

variable [LinearOrder D]

def distanceTo (index : HnswIndexOptimized P) (floats : Floats D) (query : List UInt32)
    (id : VectorId) : Option D :=
  match index.vectors[id]? with
  | none => none
  | some v => if query.length ≠ v.data.length then none else some (floats.euclidean query v.data)

/-- The comparison of the sort fails at NaN, which a sort of two or more comes across. -/
def sortResults (floats : Floats D) (results : List (ScoredVector P D)) :
    Option (List (ScoredVector P D)) :=
  if 2 ≤ results.length ∧ (results.any fun r => floats.isNan r.score) = true then none
  else some (results.mergeSort fun a b => decide (b.score ≤ a.score))

/-- The loop of `search_layer`; each stored vector is taken from the heap once at most. -/
def found (index : HnswIndexOptimized P) (floats : Floats D) (query : List UInt32)
    (entry : VectorId) (ef layerIdx : Nat) : List (D × VectorId) :=
  BestFirst.search (index.distanceTo floats query) (index.neighbors layerIdx) ef
    index.vectors.size entry

def searchLayer (index : HnswIndexOptimized P) (floats : Floats D)
    (order : List (D × VectorId) → List (D × VectorId)) (query : Vector P) (entry : VectorId)
    (ef layerIdx : Nat) : Option (List (ScoredVector P D)) :=
  sortResults floats <| (order (index.found floats query.data entry ef layerIdx)).map
    fun result => { id := result.2, score := floats.neg result.1, vector := none, payload := none }

/-! ## Adding -/

def trim (index : HnswIndexOptimized P) (floats : Floats D) (fromId : VectorId)
    (neighbors : List VectorId) : List VectorId :=
  if neighbors.length > index.config.m then
    match index.vectors[fromId]? with
    | none => neighbors
    | some fromVec =>
      let key := fun nid : VectorId =>
        match index.vectors[nid]? with
        | none => floats.max
        | some nvec =>
          if fromVec.data.length ≠ nvec.data.length then floats.max
          else floats.euclidean fromVec.data nvec.data
      ((neighbors.mergeSort fun a b => decide (key a ≤ key b)).take index.config.m).mergeSort
  else neighbors

def addBidirectionalEdge (index : HnswIndexOptimized P) (floats : Floats D) (fromId toId : VectorId)
    (layerIdx : Nat) : HnswIndexOptimized P :=
  match index.layers[layerIdx]? with
  | none => index
  | some layer =>
    let neighbors := index.neighbors layerIdx fromId
    if neighbors.contains toId then index
    else
      let neighbors := index.trim floats fromId (neighbors ++ [toId]).mergeSort
      let edges := layer.edges.insert fromId (DeltaEncodedNeighbors.fromSorted neighbors)
      { index with layers := index.layers.set layerIdx { edges } }

def connectToNeighbors (index : HnswIndexOptimized P) (floats : Floats D) (newId : VectorId)
    (neighbors : List (ScoredVector P D)) (layerIdx : Nat) : HnswIndexOptimized P :=
  let selected := (neighbors.take index.config.m).map ScoredVector.id
  if selected.isEmpty then index
  else
    let layers :=
      match index.layers[layerIdx]? with
      | none => index.layers
      | some layer =>
        let edges := layer.edges.insert newId (DeltaEncodedNeighbors.fromSorted selected.mergeSort)
        index.layers.set layerIdx { edges }
    selected.foldl
      (fun index neighborId => index.addBidirectionalEdge floats neighborId newId layerIdx)
      { index with layers }

/-- One round of the loop of `add`, with the current entry. -/
def insertLayer (floats : Floats D) (heap : HeapOrder D) (id : VectorId) (vector : Vector P)
    (s : HnswIndexOptimized P × VectorId) (layerIdx : Nat) :
    Option (HnswIndexOptimized P × VectorId) :=
  let ef := if layerIdx = 0 then s.1.config.efConstruct else 1
  (s.1.searchLayer floats (heap.order layerIdx) vector s.2 ef layerIdx).map fun neighbors =>
    match neighbors with
    | [] => s
    | first :: _ => (s.1.connectToNeighbors floats id neighbors layerIdx, first.id)

/-- The highest layer is raised before it is compared with the level, so that the entry point
stays. -/
def add (index : HnswIndexOptimized P) (floats : Floats D) (heap : HeapOrder D) (id : VectorId)
    (vector : Vector P) (level : Nat) : Option (HnswIndexOptimized P) :=
  let layers := index.layers ++ List.replicate (level + 1 - index.layers.length) { edges := ∅ }
  let index := { index with
    layers, maxLayer := max index.maxLayer level, vectors := index.vectors.insert id vector }
  match index.entryPoint with
  | none => some { index with entryPoint := some id }
  | some entry =>
    ((List.range (min index.maxLayer level + 1)).reverse.foldlM
      (insertLayer floats heap id vector) (index, entry)).map fun s =>
        if level > s.1.maxLayer then { s.1 with entryPoint := some id } else s.1

/-! ## Searching -/

/-- The search through the layers, the lowest one included. -/
def descend (index : HnswIndexOptimized P) (floats : Floats D) (heap : HeapOrder D)
    (query : Vector P) (ef : Nat) (entry : VectorId) (layers : List Nat) : Option VectorId :=
  layers.foldlM
    (fun current layerIdx =>
      (index.searchLayer floats (heap.order (layerIdx + 1)) query current
        (if layerIdx = 0 then ef else 1) layerIdx).map
        fun neighbors => HNSWIndex.landing neighbors current) entry

def search (index : HnswIndexOptimized P) (floats : Floats D) (heap : HeapOrder D)
    (request : SearchRequest F) : Option (Except String (List (ScoredVector P D))) :=
  let query : Vector P := { data := request.vector, payload := none }
  let ef := (request.params.bind SearchParams.hnswEf).getD index.config.ef
  match index.entryPoint with
  | none => some (.error "Empty index")
  | some entry =>
    (index.descend floats heap query ef entry (List.range (index.maxLayer + 1)).reverse).bind
      fun current =>
        (index.searchLayer floats (heap.order 0) query current ef 0).map
          fun results => .ok (results.take request.limit)

end HnswIndexOptimized

end Index
end RTDB
