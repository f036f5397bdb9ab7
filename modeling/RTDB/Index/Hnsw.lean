import RTDB.Lib.BestFirst
import RTDB.Types

/-!
# The HNSW index

`index/hnsw.rs`.  The hash maps are tree maps; the level that `add` draws is an
input.  The loop of `search_layer` is `BestFirst.search`: its two heaps, its set
of visited ids and the order of its tests are the source's.
-/

namespace RTDB
namespace Index

open Storage BestFirst

variable {P D F : Type}

structure Layer where
  edges : Std.TreeMap VectorId (List VectorId)

def edgesIn (layers : List Layer) (layerIdx : Nat) (id : VectorId) : Option (List VectorId) :=
  layers[layerIdx]?.bind fun layer => layer.edges[id]?

structure HNSWIndex (P D : Type) where
  config : HnswConfig
  distance : Distance D
  layers : List Layer
  maxLayer : Nat
  entryPoint : Option VectorId
  vectors : Std.TreeMap VectorId (Vector P)

namespace HNSWIndex

def new (config : HnswConfig) (distance : Distance D) : HNSWIndex P D :=
  { config, distance, layers := [], maxLayer := 0, entryPoint := none, vectors := ∅ }

/-- The method `distance`: of a vector and a stored one, if that is possible. -/
def distanceTo (index : HNSWIndex P D) (a : List UInt32) (id : VectorId) : Option D :=
  match index.vectors[id]? with
  | none => none
  | some b => (index.distance.calculate a b.data).toOption

def edges (index : HNSWIndex P D) (layerIdx : Nat) (id : VectorId) : Option (List VectorId) :=
  edgesIn index.layers layerIdx id

/-- Each stored vector is taken from the heap once at most. -/
def searchLayer [LinearOrder D] (index : HNSWIndex P D) (query : Vector P) (entry : VectorId)
    (ef layerIdx : Nat) : List (ScoredVector P D) :=
  (BestFirst.search (index.distanceTo query.data) (fun id => (index.edges layerIdx id).getD []) ef
      index.vectors.size entry).map
    fun result => { id := result.2, score := result.1, vector := none, payload := none }

def selectNeighbors (candidates : List (ScoredVector P D)) (m : Nat) : List VectorId :=
  (candidates.take m).map ScoredVector.id

/-- The nearest result, or the entry again when there is none. -/
def landing (nearest : List (ScoredVector P D)) (entry : VectorId) : VectorId :=
  match nearest with
  | [] => entry
  | first :: _ => first.id

/-- The search through the upper layers, in the order given. -/
def descend [LinearOrder D] (index : HNSWIndex P D) (query : Vector P) (entry : VectorId)
    (layers : List Nat) : VectorId :=
  layers.foldl
    (fun current layerIdx => landing (index.searchLayer query current 1 layerIdx) current) entry

/-! ## Adding -/

def extendLayers (layers : List Layer) (level : Nat) : List Layer :=
  layers ++ List.replicate (level + 1 - layers.length) { edges := ∅ }

/-- A reverse edge goes only to a neighbor that has a list. -/
def addReverse (id : VectorId) (edges : Std.TreeMap VectorId (List VectorId))
    (neighbor : VectorId) : Std.TreeMap VectorId (List VectorId) :=
  match edges[neighbor]? with
  | none => edges
  | some list => if list.contains id then edges else edges.insert neighbor (list ++ [id])

def connectEdges (layer : Layer) (id : VectorId) (neighbors : List VectorId) : Layer :=
  { edges := neighbors.foldl (addReverse id) (layer.edges.insert id neighbors) }

/-- One round of the loop that adds connections, with the current entry. -/
def connectLayer [LinearOrder D] (id : VectorId) (vector : Vector P) (s : HNSWIndex P D × VectorId)
    (layerIdx : Nat) : HNSWIndex P D × VectorId :=
  let (index, current) := s
  let ef := if layerIdx = 0 then index.config.efConstruct else index.config.m
  let nearest := index.searchLayer vector current ef layerIdx
  let neighbors := selectNeighbors nearest index.config.m
  let layers :=
    match index.layers[layerIdx]? with
    | none => index.layers
    | some layer => index.layers.set layerIdx (connectEdges layer id neighbors)
  ({ index with layers }, landing nearest current)

def connect [LinearOrder D] (index : HNSWIndex P D) (id : VectorId) (vector : Vector P)
    (level : Nat) (entry : VectorId) : HNSWIndex P D :=
  let current := index.descend vector entry
    (List.range' (level + 1) (index.layers.length - (level + 1))).reverse
  ((List.range (min level (index.layers.length - 1) + 1)).reverse.foldl (connectLayer id vector)
    (index, current)).1

def promote (index : HNSWIndex P D) (id : VectorId) (level : Nat) : HNSWIndex P D :=
  if level > index.maxLayer then { index with maxLayer := level, entryPoint := some id } else index

/-- The index with enough layers and the new vector, before any connection. -/
def grow (index : HNSWIndex P D) (id : VectorId) (vector : Vector P) (level : Nat) :
    HNSWIndex P D :=
  { index with
    layers := extendLayers index.layers level, vectors := index.vectors.insert id vector }

def add [LinearOrder D] (index : HNSWIndex P D) (id : VectorId) (vector : Vector P) (level : Nat) :
    HNSWIndex P D :=
  let index := index.grow id vector level
  let index :=
    match index.entryPoint with
    | some entry => index.connect id vector level entry
    | none => { index with entryPoint := some id }
  index.promote id level

/-! ## Removing and searching -/

def removeEdges (layer : Layer) (id : VectorId) : Layer :=
  { edges := (layer.edges.erase id).map fun _ list => list.filter fun e => e ≠ id }

/-- The entry point stays. -/
def remove (index : HNSWIndex P D) (id : VectorId) : HNSWIndex P D :=
  { index with
    layers := index.layers.map fun layer => removeEdges layer id
    vectors := index.vectors.erase id }

def search [LinearOrder D] (index : HNSWIndex P D) (request : SearchRequest F) :
    List (ScoredVector P D) :=
  match index.entryPoint with
  | none => []
  | some entry =>
    let query : Vector P := { data := request.vector, payload := none }
    let ef := (request.params.bind SearchParams.hnswEf).getD index.config.ef
    let current := index.descend query entry (List.range' 1 (index.layers.length - 1)).reverse
    (index.searchLayer query current (max ef request.limit) 0).take request.limit

/-! ## What does not change -/

@[simp] theorem promote_vectors (index : HNSWIndex P D) (id : VectorId) (level : Nat) :
    (index.promote id level).vectors = index.vectors := by
  rw [promote]
  split <;> rfl

@[simp] theorem promote_layers (index : HNSWIndex P D) (id : VectorId) (level : Nat) :
    (index.promote id level).layers = index.layers := by
  rw [promote]
  split <;> rfl

theorem landing_of_forall {p : VectorId → Prop} {results : List (ScoredVector P D)}
    {entry : VectorId} (hall : ∀ r ∈ results, p r.id) (hentry : p entry) :
    p (landing results entry) := by
  cases results with
  | nil => exact hentry
  | cons first rest => exact hall first List.mem_cons_self

@[simp] theorem remove_vectors (index : HNSWIndex P D) (id : VectorId) :
    (index.remove id).vectors = index.vectors.erase id := rfl

variable [LinearOrder D]

theorem connectLayer_frame (id : VectorId) (vector : Vector P) (s : HNSWIndex P D × VectorId)
    (layerIdx : Nat) :
    ∃ layers, (connectLayer id vector s layerIdx).1 = { s.1 with layers } ∧
      layers.length = s.1.layers.length := by
  rw [connectLayer]
  refine ⟨_, rfl, ?_⟩
  split
  · rfl
  · exact List.length_set

theorem connectLayers_frame (id : VectorId) (vector : Vector P) (layerIdxs : List Nat)
    (s : HNSWIndex P D × VectorId) :
    ∃ layers, (layerIdxs.foldl (connectLayer id vector) s).1 = { s.1 with layers } ∧
      layers.length = s.1.layers.length := by
  induction layerIdxs generalizing s with
  | nil => exact ⟨s.1.layers, rfl, rfl⟩
  | cons layerIdx layerIdxs ih =>
    obtain ⟨layers, hone, hlength⟩ := connectLayer_frame id vector s layerIdx
    obtain ⟨layers', hrest, hlength'⟩ := ih (connectLayer id vector s layerIdx)
    refine ⟨layers', ?_, ?_⟩
    · rw [List.foldl_cons, hrest, hone]
    · rw [hlength', hone, hlength]

/-- Connecting changes edges only. -/
theorem connect_frame (index : HNSWIndex P D) (id : VectorId) (vector : Vector P) (level : Nat)
    (entry : VectorId) :
    ∃ layers, index.connect id vector level entry = { index with layers } ∧
      layers.length = index.layers.length :=
  connectLayers_frame id vector _ (index, _)

@[simp] theorem add_vectors (index : HNSWIndex P D) (id : VectorId) (vector : Vector P)
    (level : Nat) : (index.add id vector level).vectors = index.vectors.insert id vector := by
  rw [add, promote_vectors]
  split
  · rename_i entry _
    obtain ⟨layers, hconnect, -⟩ := connect_frame (index.grow id vector level) id vector level entry
    rw [hconnect]
    rfl
  · rfl

/-- Within `ef`, a smaller limit only cuts the results. -/
theorem search_limit (index : HNSWIndex P D) (request request' : SearchRequest F)
    (hsame : request'.vector = request.vector ∧ request'.params = request.params)
    (hlimit : request.limit ≤ request'.limit)
    (hef : request'.limit ≤ (request.params.bind SearchParams.hnswEf).getD index.config.ef) :
    index.search request = (index.search request').take request.limit := by
  rw [search, search, hsame.1, hsame.2]
  cases index.entryPoint with
  | none => exact List.take_nil.symm
  | some entry =>
    dsimp only
    rw [List.take_take, Nat.min_eq_left hlimit, Nat.max_eq_left hef,
      Nat.max_eq_left (hlimit.trans hef)]

end HNSWIndex

end Index
end RTDB
