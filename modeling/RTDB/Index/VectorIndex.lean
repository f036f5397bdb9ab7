import Mathlib.Data.List.Basic
import RTDB.Types

/-!
# The HNSW index of the vector index layer

`HnswIndex` of `index/vector_index.rs`.  Nodes are known by their positions.  The layer that
`random_layer` draws is an input, and so is the arithmetic of `f32`, of which nothing is assumed.  A
call that indexes out of range panics, and so does a sort that comes across NaN.  What an insertion has
written by then stays: the locks let the next call in.
-/

namespace RTDB
namespace Index
namespace VectorIndex

variable {D α : Type}

inductive SimilarityMetric where
  | cosine
  | euclidean
  | dotProduct
  deriving DecidableEq, Repr

structure Floats (D : Type) where
  distance : SimilarityMetric → List UInt32 → List UInt32 → D
  negInfinity : D
  max : D → D → D
  lt : D → D → Bool
  eq : D → D → Bool
  isNan : D → Bool

inductive Panic where
  | outOfRange
  | nan
  deriving DecidableEq, Repr

structure HnswConfig where
  m : Nat
  efConstruction : Nat
  efSearch : Nat
  maxLayer : Nat
  deriving DecidableEq, Repr

def HnswConfig.default : HnswConfig :=
  { m := 16, efConstruction := 128, efSearch := 64, maxLayer := 0 }

structure HnswNode where
  id : Nat
  vector : List UInt32
  connections : List (List Nat)
  maxLayer : Nat
  deriving DecidableEq, Repr

structure HnswIndex where
  config : HnswConfig
  dimension : Nat
  metric : SimilarityMetric
  nodes : List HnswNode
  entryPoint : Option Nat
  count : Nat
  deriving DecidableEq, Repr

def HnswIndex.new (config : HnswConfig) (dimension : Nat) (metric : SimilarityMetric) : HnswIndex :=
  { config, dimension, metric, nodes := [], entryPoint := none, count := 0 }

/-- The indexing of a slice. -/
def nodeAt (nodes : List HnswNode) (i : Nat) : Except Panic HnswNode :=
  match nodes[i]? with
  | none => .error .outOfRange
  | some node => .ok node

/-! ## Searching a layer -/

structure Search (D : Type) where
  visited : List Nat
  candidates : List (D × Nat)
  results : List (D × Nat)

def worstDistance (floats : Floats D) (results : List (D × Nat)) : D :=
  (results.map Prod.fst).foldl floats.max floats.negInfinity

/-- One neighbor; when the results are full, it takes the place of the first that is the worst. -/
def visit (floats : Floats D) (dist : List UInt32 → D) (ef : Nat) (nodes : List HnswNode)
    (s : Search D) (neighbor : Nat) : Except Panic (Search D) :=
  if neighbor ∈ s.visited then .ok s
  else
    (nodeAt nodes neighbor).map fun node =>
      let neighborDist := dist node.vector
      let worst := worstDistance floats s.results
      if s.results.length < ef then
        { visited := neighbor :: s.visited
          candidates := (neighborDist, neighbor) :: s.candidates
          results := s.results ++ [(neighborDist, neighbor)] }
      else if floats.lt neighborDist worst then
        { visited := neighbor :: s.visited
          candidates := (neighborDist, neighbor) :: s.candidates
          results := s.results.eraseP (fun r => floats.eq r.1 worst) ++ [(neighborDist, neighbor)] }
      else { s with visited := neighbor :: s.visited }

def walk (floats : Floats D) (dist : List UInt32 → D) (ef layer : Nat) (nodes : List HnswNode) :
    Nat → Search D → Except Panic (List (D × Nat))
  | 0, s => .ok s.results
  | fuel + 1, s =>
    match s.candidates with
    | [] => .ok s.results
    | (d, curr) :: candidates =>
      if floats.lt (worstDistance floats s.results) d && decide (ef ≤ s.results.length) then
        .ok s.results
      else do
        let node ← nodeAt nodes curr
        let s ← ((node.connections[layer]?).getD []).foldlM (visit floats dist ef nodes)
          { s with candidates }
        walk floats dist ef layer nodes fuel s

/-- A stable sort; of two or more, each is compared. -/
def sortByDistance (floats : Floats D) (l : List (D × Nat)) : Except Panic (List (D × Nat)) :=
  if 2 ≤ l.length ∧ (l.any fun r => floats.isNan r.1) = true then .error .nan
  else .ok (l.mergeSort fun a b => !floats.lt b.1 a.1)

/-- Each node is taken from the stack once at most. -/
def searchLayer (floats : Floats D) (metric : SimilarityMetric) (query : List UInt32)
    (entryPoint ef layer : Nat) (nodes : List HnswNode) : Except Panic (List (D × Nat)) := do
  let node ← nodeAt nodes entryPoint
  let entry := (floats.distance metric query node.vector, entryPoint)
  let results ← walk floats (floats.distance metric query) ef layer nodes nodes.length
    { visited := [entryPoint], candidates := [entry], results := [entry] }
  sortByDistance floats results

/-- The nearest candidate, or the current entry again. -/
def landing (candidates : List (D × Nat)) (currEp : Nat) : Nat :=
  match candidates with
  | [] => currEp
  | (_, nearest) :: _ => nearest

/-- The search through the upper layers, in the order given. -/
def descend (floats : Floats D) (metric : SimilarityMetric) (query : List UInt32)
    (nodes : List HnswNode) (entry : Nat) (layers : List Nat) : Except Panic Nat :=
  layers.foldlM
    (fun currEp l => (searchLayer floats metric query currEp 1 l nodes).map fun result =>
      landing result currEp) entry

/-! ## Inserting -/

/-- The assignment `nodes[i].connections[l] = list`. -/
def setConnections (nodes : List HnswNode) (i l : Nat) (list : List Nat) :
    Except Panic (List HnswNode) := do
  let node ← nodeAt nodes i
  if l < node.connections.length then
    .ok (nodes.set i { node with connections := node.connections.set l list })
  else .error .outOfRange

structure Building where
  nodes : List HnswNode
  currEp : Nat
  neighborsAtLayer : List (Nat × List Nat)

def connectLayer (floats : Floats D) (config : HnswConfig) (metric : SimilarityMetric)
    (query : List UInt32) (nodeIdx : Nat) (s : Building) (l : Nat) : Except Panic Building := do
  let ef := if l = 0 then config.efConstruction else config.m
  let candidates ← searchLayer floats metric query s.currEp ef l s.nodes
  let neighbors := (candidates.take config.m).map Prod.snd
  let nodes ← setConnections s.nodes nodeIdx l neighbors
  .ok { nodes, currEp := landing candidates s.currEp
        neighborsAtLayer := s.neighborsAtLayer ++ [(l, neighbors)] }

/-- The nearest `m` of a list that has grown too long. -/
def prune (floats : Floats D) (config : HnswConfig) (metric : SimilarityMetric)
    (nodes : List HnswNode) (vector : List UInt32) (connections : List Nat) :
    Except Panic (List Nat) :=
  if connections.length > config.m * 2 then do
    let withDist ← connections.mapM fun n =>
      (nodeAt nodes n).map fun node => (floats.distance metric vector node.vector, n)
    let withDist ← sortByDistance floats withDist
    .ok ((withDist.take config.m).map Prod.snd)
  else .ok connections

abbrev Update := Nat × Nat × List Nat

/-- The new list of a neighbor, unless it has the new node or is not on the layer. -/
def backLink (floats : Floats D) (config : HnswConfig) (metric : SimilarityMetric)
    (nodes : List HnswNode) (nodeIdx l : Nat) (updates : List Update) (neighborIdx : Nat) :
    Except Panic (List Update) := do
  let node ← nodeAt nodes neighborIdx
  match node.connections[l]? with
  | none => .ok updates
  | some connections =>
    if connections.contains nodeIdx then .ok updates
    else do
      let list ← prune floats config metric nodes node.vector (connections ++ [nodeIdx])
      .ok (updates ++ [(neighborIdx, l, list)])

/-- All updates, from the lists as they are before the first of them. -/
def collectUpdates (floats : Floats D) (config : HnswConfig) (metric : SimilarityMetric)
    (nodes : List HnswNode) (nodeIdx : Nat) (neighborsAtLayer : List (Nat × List Nat)) :
    Except Panic (List Update) :=
  neighborsAtLayer.foldlM
    (fun updates entry => entry.2.foldlM (backLink floats config metric nodes nodeIdx entry.1) updates)
    []

/-- A panic in the midst of an insertion, with the nodes as they are then. -/
structure Stopped where
  panic : Panic
  nodes : List HnswNode

def leaving (nodes : List HnswNode) (x : Except Panic α) : Except Stopped α :=
  x.mapError fun panic => { panic, nodes }

def applyUpdates (nodes : List HnswNode) (updates : List Update) : Except Stopped (List HnswNode) :=
  updates.foldlM
    (fun nodes update => leaving nodes (setConnections nodes update.1 update.2.1 update.2.2)) nodes

namespace HnswIndex

/-- The new node is connected from a layer that it shares with the entry point. -/
def connect (index : HnswIndex) (floats : Floats D) (nodes : List HnswNode) (ep : Nat)
    (vector : List UInt32) (layer : Nat) : Except Stopped (List HnswNode × Nat) := do
  let nodeIdx := index.nodes.length
  let epNode ← leaving nodes (nodeAt nodes ep)
  let epMaxLayer := epNode.maxLayer
  let currEp ← leaving nodes (descend floats index.metric vector nodes ep
    (List.range' (layer + 1) (epMaxLayer - layer)).reverse)
  let s ← (List.range (min layer epMaxLayer + 1)).reverse.foldlM
    (fun s l =>
      leaving s.nodes (connectLayer floats index.config index.metric vector nodeIdx s l))
    { nodes, currEp, neighborsAtLayer := [] }
  let updates ← leaving s.nodes
    (collectUpdates floats index.config index.metric s.nodes nodeIdx s.neighborsAtLayer)
  let nodes ← applyUpdates s.nodes updates
  .ok (nodes, if layer > epMaxLayer then nodeIdx else ep)

/-- The index that is left, and what the call comes back with.  The new node is there before anything
is searched; the entry point and the count come last. -/
def insert (index : HnswIndex) (floats : Floats D) (id : Nat) (vector : List UInt32) (layer : Nat) :
    HnswIndex × Except Panic (Except Error Unit) :=
  if vector.length ≠ index.dimension then
    (index, .ok (.error (.invalidDimension index.dimension vector.length)))
  else
    let nodes := index.nodes ++
      [{ id, vector, connections := List.replicate (layer + 1) [], maxLayer := layer }]
    match index.entryPoint with
    | none => ({ index with
        nodes, entryPoint := some index.nodes.length, count := index.count + 1 }, .ok (.ok ()))
    | some ep =>
      match index.connect floats nodes ep vector layer with
      | .error stopped => ({ index with nodes := stopped.nodes }, .error stopped.panic)
      | .ok connected => ({ index with
          nodes := connected.1, entryPoint := some connected.2, count := index.count + 1 }, .ok (.ok ()))

structure SearchResult (D : Type) where
  id : Nat
  distance : D

def search (index : HnswIndex) (floats : Floats D) (query : List UInt32) (k : Nat) :
    Except Panic (Except Error (List (SearchResult D))) :=
  if query.length ≠ index.dimension then
    .ok (.error (.invalidDimension index.dimension query.length))
  else
    match index.entryPoint with
    | none => .ok (.ok [])
    | some ep => do
      let epNode ← nodeAt index.nodes ep
      let currEp ← descend floats index.metric query index.nodes ep
        (List.range' 1 epNode.maxLayer).reverse
      let candidates ← searchLayer floats index.metric query currEp (max index.config.efSearch k) 0
        index.nodes
      let results ← (candidates.take k).mapM fun candidate =>
        (nodeAt index.nodes candidate.2).map fun node =>
          ({ id := node.id, distance := candidate.1 } : SearchResult D)
      .ok (.ok results)

end HnswIndex

end VectorIndex
end Index
end RTDB
