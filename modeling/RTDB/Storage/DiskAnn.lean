import RTDB.Index.HnswOptimized
import RTDB.Lib.Bytes
import RTDB.Lib.FarthestFirst
import RTDB.Lib.TopK

/-!
# Beam search

`DiskANNIndex` of `storage/mmap.rs`.  The arithmetic of `f32` is an input, ordered as `OrderedFloat`
orders it; distances of codes are made of squares of differences of bytes and are never NaN.  So is
the order in which the heap of the results gives its elements away.  Of the memory-mapped file it
matters to a search which vectors are stored; the file itself, `MmapVectorStorage`, comes at the end.
-/

namespace RTDB
namespace Storage
namespace DiskAnn

open FarthestFirst Index

variable {D : Type}

structure Floats (D : Type) where
  zero : D
  max : D
  ofU8 : UInt8 → D
  ofBits : UInt32 → D
  add : D → D → D
  sub : D → D → D
  mul : D → D → D
  square : D → D
  sqrt : D → D

structure DiskSearchConfig where
  beamWidth : Nat
  searchListSize : Nat
  k : Nat
  deriving DecidableEq, Repr

/-- `add` gives every code its neighbors. -/
structure DiskANNIndex where
  config : DiskSearchConfig
  pqVectors : List (List UInt8)
  graph : List (List Nat)
  vectorStorage : List (List UInt32)
  entryPoint : Nat
  nodes : graph.length = pqVectors.length

namespace DiskANNIndex

def new (config : DiskSearchConfig) (vectorStorage : List (List UInt32)) : DiskANNIndex :=
  { config, pqVectors := [], graph := [], vectorStorage, entryPoint := 0, nodes := rfl }

def add (index : DiskANNIndex) (pqCode : List UInt8) (neighbors : List Nat) : DiskANNIndex × Nat :=
  ({ index with
      pqVectors := index.pqVectors ++ [pqCode]
      graph := index.graph ++ [neighbors]
      nodes := by rw [List.length_append, List.length_append, index.nodes]; rfl },
    index.pqVectors.length)

def setEntryPoint (index : DiskANNIndex) (id : Nat) : DiskANNIndex :=
  { index with entryPoint := id }

section Search

variable (index : DiskANNIndex) (fl : Floats D) (queryPq : List UInt8)
  (queryFull : Option (List UInt32))

def pqDistance (nodeId : Nat) : D :=
  match index.pqVectors[nodeId]? with
  | none => fl.max
  | some code =>
    fl.sqrt ((List.zipWith (fun a b => fl.mul (fl.sub (fl.ofU8 a) (fl.ofU8 b))
      (fl.sub (fl.ofU8 a) (fl.ofU8 b))) code queryPq).foldl fl.add fl.zero)

def l2Distance (a b : List UInt32) : D :=
  fl.sqrt ((List.zipWith (fun x y => fl.square (fl.sub (fl.ofBits x) (fl.ofBits y))) a b).foldl
    fl.add fl.zero)

/-- The distance that a candidate is queued by; for a full query only stored vectors are queued. -/
def candidateDistance (nodeId : Nat) : D :=
  match queryFull with
  | none => index.pqDistance fl queryPq nodeId
  | some q => ((index.vectorStorage[nodeId]?).map (l2Distance fl q)).getD fl.max

/-- The neighbors that are queued, chunk by chunk; there are no chunks of length 0. -/
def expand (nodeId : Nat) : Option (List Nat) :=
  match index.graph[nodeId]? with
  | none => some []
  | some neighbors =>
    if index.config.beamWidth = 0 then none
    else
      match queryFull with
      | none => some neighbors
      | some _ => some (neighbors.filter fun id => (index.vectorStorage[id]?).isSome)

variable [LinearOrder D]

def visited : Option (List Nat) :=
  (search (index.candidateDistance fl queryPq queryFull) (index.expand queryFull)
    index.config.searchListSize ((index.graph.map List.length).sum + 1) fl.zero
    index.entryPoint).map FarthestFirst.Search.visited

def searchBeam (heap : HeapOrder D) (k : Nat) : Option (List (Nat × D)) :=
  (index.visited fl queryPq queryFull).map fun visited =>
    let results := visited.map fun nodeId => (index.pqDistance fl queryPq nodeId, nodeId)
    (((heap.order 0 results).map fun r => (r.2, r.1)).take k).mergeSort
      fun a b => decide (a.2 ≤ b.2)

end Search

/-! ## The nodes that are visited -/

section Visited

variable (index : DiskANNIndex) (queryFull : Option (List UInt32))

def edges (nodeId : Nat) : List Nat := index.graph.getD nodeId []

/-- There is a path from the entry point. -/
def Reachable (nodeId : Nat) : Prop := Reached index.edges index.entryPoint nodeId

def queued : Nat → List Nat := neighbors (index.expand queryFull)

variable {index queryFull}

theorem queued_subset (nodeId : Nat) :
    (index.queued queryFull nodeId).Sublist (index.edges nodeId) := by
  rw [queued, neighbors, expand, edges, List.getD]
  cases index.graph[nodeId]? with
  | none => exact List.Sublist.refl _
  | some ids =>
    by_cases hbeam : index.config.beamWidth = 0
    · simp only [if_pos hbeam]
      exact List.nil_sublist _
    · simp only [if_neg hbeam]
      cases queryFull with
      | none => exact List.Sublist.refl _
      | some q => exact List.filter_sublist

theorem expand_eq_none_iff {nodeId : Nat} :
    index.expand queryFull nodeId = none ↔
      index.config.beamWidth = 0 ∧ nodeId < index.pqVectors.length := by
  rw [expand, ← index.nodes]
  cases hnode : index.graph[nodeId]? with
  | none => simpa using fun _ => List.getElem?_eq_none_iff.mp hnode
  | some ids =>
    have hlt := (List.getElem?_eq_some_iff.mp hnode).1
    by_cases hbeam : index.config.beamWidth = 0
    · simp [hbeam, hlt]
    · cases queryFull <;> simp [hbeam]

theorem queued_of_le {nodeId : Nat} (hle : index.pqVectors.length ≤ nodeId) :
    index.queued queryFull nodeId = [] := by
  rw [← index.nodes] at hle
  rw [queued, neighbors, expand, List.getElem?_eq_none hle, Option.getD_some]

/-- With chunks of length 0 only an entry point without neighbors can be visited. -/
theorem expand_ne_none
    (hbeam : index.config.beamWidth ≠ 0 ∨ index.pqVectors.length ≤ index.entryPoint) {nodeId : Nat}
    (hreached : Reached (index.queued queryFull) index.entryPoint nodeId) :
    index.expand queryFull nodeId ≠ none := by
  rw [ne_eq, expand_eq_none_iff]
  rintro ⟨hzero, hlt⟩
  have hentry := hbeam.resolve_left (not_not.mpr hzero)
  rcases Relation.ReflTransGen.cases_head hreached with rfl | ⟨next, hedge, -⟩
  · omega
  · rw [queued_of_le hentry] at hedge
    exact absurd hedge List.not_mem_nil

theorem left_lt :
    left (index.expand queryFull) (List.range index.graph.length) [] <
      (index.graph.map List.length).sum + 1 := by
  refine Nat.lt_succ_of_le ?_
  have hall : index.graph.map List.length =
      (List.range index.graph.length).map fun nodeId => (index.edges nodeId).length := by
    refine List.ext_getElem (by simp) fun i hi hi' => ?_
    rw [List.length_map] at hi
    simp [edges, hi]
  rw [hall, left]
  refine List.sum_le_sum fun nodeId _ => ?_
  rw [if_neg (by simp)]
  exact (queued_subset nodeId).length_le

variable [LinearOrder D] (fl : Floats D) (queryPq : List UInt8) (queryFull)

theorem visited_spec
    (hbeam : index.config.beamWidth ≠ 0 ∨ index.pqVectors.length ≤ index.entryPoint) :
    ∃ vs, index.visited fl queryPq queryFull = some vs ∧
      Visits (index.candidateDistance fl queryPq queryFull) (index.queued queryFull)
        index.config.searchListSize index.entryPoint vs := by
  have hkeys : ∀ nodeId, index.queued queryFull nodeId ≠ [] →
      nodeId ∈ List.range index.graph.length := by
    intro nodeId hne
    refine List.mem_range.mpr (Nat.lt_of_not_le fun hle => hne (queued_of_le ?_))
    rw [← index.nodes]
    exact hle
  have hspec : ∃ s, search (index.candidateDistance fl queryPq queryFull) (index.expand queryFull)
        index.config.searchListSize ((index.graph.map List.length).sum + 1) fl.zero
        index.entryPoint = some s ∧
      Visits (index.candidateDistance fl queryPq queryFull) (index.queued queryFull)
        index.config.searchListSize index.entryPoint s.visited :=
    search_visits (fun _ => expand_ne_none hbeam) hkeys left_lt fl.zero
  obtain ⟨s, hsearch, hvisits⟩ := hspec
  exact ⟨s.visited, by rw [visited, hsearch, Option.map_some], hvisits⟩

theorem visited_eq_none (hbeam : index.config.beamWidth = 0)
    (hentry : index.entryPoint < index.pqVectors.length) :
    index.visited fl queryPq queryFull = none := by
  rw [visited, search_of_none (expand_eq_none_iff.mpr ⟨hbeam, hentry⟩) (Nat.succ_pos _),
    Option.map_none]

end Visited

/-! ## What is returned -/

section Returned

variable [LinearOrder D] {index : DiskANNIndex} {fl : Floats D} {queryPq : List UInt8}
  {queryFull : Option (List UInt32)} {k : Nat} {vs : List Nat}

/-- The search with a heap that gives the nodes away in an order. -/
theorem searchBeam_of_order (hvisited : index.visited fl queryPq queryFull = some vs)
    {heap : HeapOrder D} {order : List Nat}
    (horder : heap.order 0 (vs.map fun nodeId => (index.pqDistance fl queryPq nodeId, nodeId)) =
      order.map fun nodeId => (index.pqDistance fl queryPq nodeId, nodeId)) :
    index.searchBeam fl queryPq queryFull heap k =
      some ((TopK.nearestFirst (index.pqDistance fl queryPq) (order.take k)).map
        fun nodeId => (nodeId, index.pqDistance fl queryPq nodeId)) := by
  have hsort : (TopK.nearestFirst (index.pqDistance fl queryPq) (order.take k)).map
        (fun nodeId => (nodeId, index.pqDistance fl queryPq nodeId)) =
      ((order.take k).map fun nodeId => (nodeId, index.pqDistance fl queryPq nodeId)).mergeSort
        fun a b => decide (a.2 ≤ b.2) := List.map_mergeSort fun _ _ _ _ => rfl
  rw [hsort, searchBeam, hvisited, Option.map_some]
  simp only [horder, List.map_map, List.map_take]
  rfl

/-- The first `k` of the visited nodes, in some order, come nearest first. -/
theorem searchBeam_eq (hvisited : index.visited fl queryPq queryFull = some vs)
    (heap : HeapOrder D) :
    ∃ order : List Nat, order.Perm vs ∧
      index.searchBeam fl queryPq queryFull heap k =
        some ((TopK.nearestFirst (index.pqDistance fl queryPq) (order.take k)).map
          fun nodeId => (nodeId, index.pqDistance fl queryPq nodeId)) := by
  have hperm := heap.perm 0 (vs.map fun nodeId => (index.pqDistance fl queryPq nodeId, nodeId))
  refine ⟨(heap.order 0 (vs.map fun nodeId =>
    (index.pqDistance fl queryPq nodeId, nodeId))).map Prod.snd, ?_,
    searchBeam_of_order hvisited ?_⟩
  · refine (hperm.map Prod.snd).trans (List.Perm.of_eq ?_)
    rw [List.map_map]
    exact List.map_id vs
  · rw [List.map_map]
    refine (List.map_id _).symm.trans (List.map_congr_left fun r hr => ?_)
    obtain ⟨nodeId, -, rfl⟩ := List.mem_map.mp (hperm.mem_iff.mp hr)
    rfl

/-- The heap may give the nodes away in any order. -/
theorem exists_heap (hvisited : index.visited fl queryPq queryFull = some vs) {order : List Nat}
    (hperm : order.Perm vs) :
    ∃ heap : HeapOrder D, index.searchBeam fl queryPq queryFull heap k =
      some ((TopK.nearestFirst (index.pqDistance fl queryPq) (order.take k)).map
        fun nodeId => (nodeId, index.pqDistance fl queryPq nodeId)) := by
  let pair := fun nodeId : Nat => (index.pqDistance fl queryPq nodeId, nodeId)
  let heap : HeapOrder D :=
    { order := fun _ results => if results = vs.map pair then order.map pair else results
      perm := by
        intro _ results
        split
        · next heq =>
          rw [heq]
          exact hperm.map pair
        · exact .refl _ }
  exact ⟨heap, searchBeam_of_order hvisited (if_pos rfl)⟩

variable (index fl queryPq queryFull k)

/-- Whatever order the heap has, the nearest visited nodes are returned, all of them indexed, and
with room for all that can be reached all of it is visited. -/
def ReturnsNearest : Prop :=
  ∃ vs, index.visited fl queryPq queryFull = some vs ∧
    (∀ heap : HeapOrder D, ∃ found, index.searchBeam fl queryPq queryFull heap k = some found ∧
      (∀ r ∈ found, r.2 = index.pqDistance fl queryPq r.1 ∧ r.1 < index.pqVectors.length) ∧
      TopK.Nearest (index.pqDistance fl queryPq) k vs.toFinset (found.map Prod.fst)) ∧
    ({nodeId | index.Reachable nodeId}.encard < index.config.searchListSize →
      ∀ nodeId, index.Reachable nodeId → nodeId ∈ vs)

/-- To cut the visited nodes anywhere does no harm. -/
def Harmless (vs : List Nat) : Prop :=
  k = 0 ∨ (∀ a ∈ vs, a < index.pqVectors.length) ∧
    (vs.length ≤ k ∨ ∀ a ∈ vs, ∀ b ∈ vs,
      index.pqDistance fl queryPq a ≤ index.pqDistance fl queryPq b)

variable {index fl queryPq queryFull k}

/-- Any visited node can be among the first, unless there are none. -/
theorem front_indexed_iff :
    (∀ order : List Nat, order.Perm vs → ∀ a ∈ order.take k, a < index.pqVectors.length) ↔
      k = 0 ∨ ∀ a ∈ vs, a < index.pqVectors.length := by
  constructor
  · intro hall
    refine or_iff_not_imp_left.mpr fun hk a ha => ?_
    refine hall (a :: vs.erase a) (List.perm_cons_erase ha).symm a ?_
    obtain ⟨n, rfl⟩ := Nat.exists_eq_succ_of_ne_zero hk
    rw [List.take_succ_cons]
    exact List.mem_cons_self
  · rintro (rfl | hall) order hperm a ha
    · exact absurd ha (by simp)
    · exact hall a (hperm.mem_iff.mp (List.mem_of_mem_take ha))

theorem harmless_iff (hvisited : index.visited fl queryPq queryFull = some vs) (hnodup : vs.Nodup) :
    (∀ heap : HeapOrder D, ∃ found, index.searchBeam fl queryPq queryFull heap k = some found ∧
      (∀ r ∈ found, r.2 = index.pqDistance fl queryPq r.1 ∧ r.1 < index.pqVectors.length) ∧
      TopK.Nearest (index.pqDistance fl queryPq) k vs.toFinset (found.map Prod.fst)) ↔
    index.Harmless fl queryPq k vs := by
  have hids : ∀ l : List Nat, (l.map fun nodeId => (nodeId, index.pqDistance fl queryPq nodeId)).map
      Prod.fst = l := by
    intro l
    rw [List.map_map]
    exact List.map_id l
  have horders : (∀ heap : HeapOrder D, ∃ found,
      index.searchBeam fl queryPq queryFull heap k = some found ∧
      (∀ r ∈ found, r.2 = index.pqDistance fl queryPq r.1 ∧ r.1 < index.pqVectors.length) ∧
      TopK.Nearest (index.pqDistance fl queryPq) k vs.toFinset (found.map Prod.fst)) ↔
    ∀ order : List Nat, order.Perm vs → (∀ a ∈ order.take k, a < index.pqVectors.length) ∧
      TopK.Nearest (index.pqDistance fl queryPq) k vs.toFinset
        (TopK.nearestFirst (index.pqDistance fl queryPq) (order.take k)) := by
    constructor
    · intro hall order hperm
      obtain ⟨heap, hheap⟩ := exists_heap (k := k) hvisited hperm
      obtain ⟨found, hfound, hindexed, hnearest⟩ := hall heap
      obtain rfl := Option.some.inj (hheap.symm.trans hfound)
      rw [hids] at hnearest
      refine ⟨fun a ha => ?_, hnearest⟩
      have hmem : a ∈ TopK.nearestFirst (index.pqDistance fl queryPq) (order.take k) :=
        (TopK.nearestFirst_perm _).mem_iff.mpr ha
      exact (hindexed _ (List.mem_map_of_mem hmem)).2
    · intro hall heap
      obtain ⟨order, hperm, hfound⟩ := searchBeam_eq (k := k) hvisited heap
      obtain ⟨hindexed, hnearest⟩ := hall order hperm
      refine ⟨_, hfound, fun r hr => ?_, by rw [hids]; exact hnearest⟩
      obtain ⟨a, ha, rfl⟩ := List.mem_map.mp hr
      exact ⟨rfl, hindexed a ((TopK.nearestFirst_perm _).mem_iff.mp ha)⟩
  rw [horders, forall₂_and, TopK.nearest_cut_every_iff hnodup (fun a => List.mem_toFinset.symm),
    front_indexed_iff, Harmless]
  tauto

/-- With room for all that can be reached, all of it is visited exactly if it is queued. -/
theorem reachable_visited_iff
    (hvisits : Visits (index.candidateDistance fl queryPq queryFull) (index.queued queryFull)
      index.config.searchListSize index.entryPoint vs)
    (hroom : {nodeId | index.Reachable nodeId}.encard < index.config.searchListSize) :
    (∀ nodeId, index.Reachable nodeId → nodeId ∈ vs) ↔
      ∀ nodeId, index.Reachable nodeId →
        Reached (index.queued queryFull) index.entryPoint nodeId := by
  have hmore : ∀ nodeId, Reached (index.queued queryFull) index.entryPoint nodeId →
      index.Reachable nodeId := fun nodeId hreached =>
    Relation.ReflTransGen.mono (fun a b hedge => (queued_subset a).subset hedge) _ _ hreached
  constructor
  · intro hall nodeId hreachable
    exact hvisits.walked.reached nodeId (hall nodeId hreachable)
  · intro hall nodeId hreachable
    exact hvisits.mem_of_reached hmore hroom (hall nodeId hreachable)

/-- The search is right when it does not panic, when no cut of what a farthest-first walk visits
does harm, and when room for all that can be reached means that all of it is queued. -/
theorem returnsNearest_iff :
    index.ReturnsNearest fl queryPq queryFull k ↔
      (index.config.beamWidth ≠ 0 ∨ index.pqVectors.length ≤ index.entryPoint) ∧
      (∀ vs, Visits (index.candidateDistance fl queryPq queryFull) (index.queued queryFull)
        index.config.searchListSize index.entryPoint vs → index.Harmless fl queryPq k vs) ∧
      ({nodeId | index.Reachable nodeId}.encard < index.config.searchListSize →
        ∀ nodeId, index.Reachable nodeId →
          Reached (index.queued queryFull) index.entryPoint nodeId) := by
  by_cases hbeam : index.config.beamWidth ≠ 0 ∨ index.pqVectors.length ≤ index.entryPoint
  · obtain ⟨vs, hvisited, hvisits⟩ := visited_spec queryFull fl queryPq hbeam
    have hharmless : _ ↔ index.Harmless fl queryPq k vs :=
      harmless_iff hvisited hvisits.walked.nodup
    constructor
    · rintro ⟨vs', hvisited', hfound, hreach⟩
      obtain rfl := Option.some.inj (hvisited.symm.trans hvisited')
      refine ⟨hbeam, fun vs' hvisits' => ?_, fun hroom => ?_⟩
      · rw [hvisits'.unique hvisits]
        exact hharmless.mp hfound
      · exact (reachable_visited_iff hvisits hroom).mp (hreach hroom)
    · rintro ⟨-, hall, hreach⟩
      refine ⟨vs, hvisited, hharmless.mpr (hall vs hvisits), fun hroom => ?_⟩
      exact (reachable_visited_iff hvisits hroom).mpr (hreach hroom)
  · obtain ⟨hzero, hentry⟩ := not_or.mp hbeam
    rw [not_not] at hzero
    have hnone := visited_eq_none queryFull fl queryPq hzero (not_le.mp hentry)
    constructor
    · rintro ⟨vs, hvisited, -⟩
      exact absurd (hnone.symm.trans hvisited) (by simp)
    · rintro ⟨hbeam', -⟩
      exact absurd hbeam' hbeam

end Returned

/-! ## Two nodes -/

/-- Bytes and their squares are integers; so are the roots of the squares. -/
def sampleFloats : Floats Int where
  zero := 0
  max := (2 ^ 24 - 1) * 2 ^ 104
  ofU8 := fun b => b.toNat
  ofBits := fun bits => bits.toNat
  add := fun x y => x + y
  sub := fun x y => x - y
  mul := fun x y => x * y
  square := fun x => x * x
  sqrt := fun x => Nat.sqrt x.toNat

/-- The entry point has the code of the query, and one neighbor. -/
def sampleIndex : DiskANNIndex :=
  (((new { beamWidth := 4, searchListSize := 64, k := 10 } []).add [0] [1]).1.add [1] []).1

/-- Of the two visited nodes the heap may give away the farther one. -/
theorem not_returnsNearest :
    ¬∀ (index : DiskANNIndex) (queryPq : List UInt8) (queryFull : Option (List UInt32)) (k : Nat),
      index.ReturnsNearest sampleFloats queryPq queryFull k := by
  intro hall
  obtain ⟨vs, hvisited, hfound, -⟩ := hall sampleIndex [0] none 1
  have hsample : sampleIndex.visited sampleFloats [0] none = some [0, 1] := by decide +kernel
  obtain rfl := Option.some.inj (hsample.symm.trans hvisited)
  have hharmless := (harmless_iff hvisited (by decide)).mp hfound
  rw [Harmless] at hharmless
  revert hharmless
  decide +kernel

end DiskANNIndex

/-! ## The file under the vectors -/

structure MmapVectorStorage where
  dimension : Nat
  mmap : List UInt8
  count : Nat
  vectorSize : Nat
  deriving DecidableEq, Repr

namespace MmapVectorStorage

open Bytes

/-- The count starts anew, whatever the file has. -/
def mapped (file : List UInt8) (dimension : Nat) : MmapVectorStorage :=
  { dimension, mmap := file, count := 0, vectorSize := dimension * 4 }

def create (dimension capacity : Nat) : MmapVectorStorage :=
  mapped (List.replicate (dimension * 4 * capacity) 0) dimension

/-- `none` is the division by the size of a vector when that is zero. -/
def openFile (file : List UInt8) (dimension : Nat) : Option MmapVectorStorage :=
  if dimension * 4 = 0 then none else some (mapped file dimension)

/-- `none` is a slice out of range. -/
def get (s : MmapVectorStorage) (idx : Nat) : Option (Option (List UInt32)) :=
  if idx ≥ s.count then some none
  else if s.mmap.length < idx * s.vectorSize + s.vectorSize then none
  else some (some (wordsOf ((s.mmap.drop (idx * s.vectorSize)).take s.vectorSize)))

def append (s : MmapVectorStorage) (vector : List UInt32) : MmapVectorStorage × Except Error Nat :=
  if vector.length ≠ s.dimension then (s, .error (.invalidDimension s.dimension vector.length))
  else if s.count * s.vectorSize + s.vectorSize > s.mmap.length then
    (s, .error (.storage (.storage "Storage full")))
  else
    ({ s with
        mmap := writeAt s.mmap (s.count * s.vectorSize) (wordBytes vector)
        count := s.count + 1 },
      .ok s.count)

/-- One call after the other, those that fail included. -/
def appendAll (s : MmapVectorStorage) (vectors : List (List UInt32)) : MmapVectorStorage :=
  vectors.foldl (fun s vector => (s.append vector).1) s

/-- A file of so many bytes has room for another vector. -/
def Room (dimension bytes count : Nat) : Prop := (count + 1) * (dimension * 4) ≤ bytes

instance (dimension bytes count : Nat) : Decidable (Room dimension bytes count) :=
  inferInstanceAs (Decidable (_ ≤ _))

/-- The vectors of the dimension, as long as there is room. -/
def kept (dimension bytes : Nat) (vectors : List (List UInt32)) : List (List UInt32) :=
  if dimension = 0 then vectors.filter (·.length = dimension)
  else (vectors.filter (·.length = dimension)).take (bytes / (dimension * 4))

variable {file : List UInt8} {dimension : Nat} {stored : List (List UInt32)}
  {s : MmapVectorStorage} {vector : List UInt32}

/-- The vectors at the front of the file, one behind the other, and what was there behind them. -/
structure Holds (file : List UInt8) (dimension : Nat) (stored : List (List UInt32))
    (s : MmapVectorStorage) : Prop where
  vectorSize : s.vectorSize = dimension * 4
  count : s.count = stored.length
  lengths : ∀ v ∈ stored, v.length = dimension
  fits : stored.length * (dimension * 4) ≤ file.length
  mmap : s.mmap = stored.flatMap wordBytes ++ file.drop (stored.length * (dimension * 4))
  dimension : s.dimension = dimension

theorem holds_mapped (file : List UInt8) (dimension : Nat) :
    Holds file dimension [] (mapped file dimension) where
  dimension := rfl
  vectorSize := rfl
  count := rfl
  lengths v hv := absurd hv List.not_mem_nil
  fits := by
    rw [List.length_nil, Nat.zero_mul]
    exact Nat.zero_le _
  mmap := by
    rw [List.length_nil, Nat.zero_mul]
    rfl

theorem length_stored (hlengths : ∀ v ∈ stored, v.length = dimension) :
    (stored.flatMap wordBytes).length = stored.length * (dimension * 4) := by
  induction stored with
  | nil => rw [List.flatMap_nil, List.length_nil, List.length_nil, Nat.zero_mul]
  | cons v stored ih =>
    obtain ⟨hv, hrest⟩ := List.forall_mem_cons.mp hlengths
    rw [List.flatMap_cons, List.length_append, length_wordBytes, hv, ih hrest, List.length_cons,
      Nat.succ_mul, Nat.add_comm]

theorem Holds.length (hs : Holds file dimension stored s) : s.mmap.length = file.length := by
  rw [hs.mmap, List.length_append, length_stored hs.lengths, List.length_drop]
  exact Nat.add_sub_cancel' hs.fits

/-- What is read at the place of a vector is the vector. -/
theorem Holds.get (hs : Holds file dimension stored s) (idx : Nat) :
    s.get idx = some stored[idx]? := by
  rw [MmapVectorStorage.get, hs.count, hs.vectorSize, hs.length]
  by_cases hidx : idx < stored.length
  · have hend : idx * (dimension * 4) + dimension * 4 ≤ stored.length * (dimension * 4) := by
      rw [← Nat.succ_mul]
      exact Nat.mul_le_mul_right _ hidx
    rw [if_neg (not_le.mpr hidx), if_neg (not_lt.mpr (hend.trans hs.fits)),
      List.getElem?_eq_getElem hidx]
    have hsplit : stored = stored.take idx ++ stored[idx] :: stored.drop (idx + 1) := by
      rw [← List.drop_eq_getElem_cons hidx, List.take_append_drop]
    have hfront : ((stored.take idx).flatMap wordBytes).length = idx * (dimension * 4) := by
      rw [length_stored fun v hv => hs.lengths v (List.mem_of_mem_take hv), List.length_take,
        Nat.min_eq_left hidx.le]
    have hblock : (wordBytes stored[idx]).length = dimension * 4 := by
      rw [length_wordBytes, hs.lengths _ (List.getElem_mem hidx)]
    have hbytes : stored.flatMap wordBytes = (stored.take idx).flatMap wordBytes ++
        (wordBytes stored[idx] ++ (stored.drop (idx + 1)).flatMap wordBytes) := by
      rw [← List.flatMap_cons, ← List.flatMap_append, ← hsplit]
    rw [hs.mmap, hbytes, List.append_assoc, List.append_assoc, ← hfront, List.drop_left,
      ← hblock, List.take_left, wordsOf_wordBytes]
  · rw [if_pos (not_lt.mp hidx), List.getElem?_eq_none (not_lt.mp hidx)]

/-- A vector comes behind the others, or nothing changes. -/
theorem Holds.append (hs : Holds file dimension stored s) (vector : List UInt32) :
    Holds file dimension
        (if vector.length = dimension ∧ Room dimension file.length stored.length then
          stored ++ [vector] else stored) (s.append vector).1 ∧
      (s.append vector).2 =
        if vector.length ≠ dimension then .error (.invalidDimension dimension vector.length)
        else if Room dimension file.length stored.length then .ok stored.length
        else .error (.storage (.storage "Storage full")) := by
  rw [MmapVectorStorage.append, hs.dimension, hs.count, hs.vectorSize, hs.length]
  by_cases hlength : vector.length = dimension
  · rw [if_neg (not_not.mpr hlength), if_neg (not_not.mpr hlength)]
    by_cases hroom : Room dimension file.length stored.length
    · have hend : stored.length * (dimension * 4) + dimension * 4 ≤ file.length := by
        rw [← Nat.succ_mul]
        exact hroom
      rw [if_neg (not_lt.mpr hend), if_pos ⟨hlength, hroom⟩, if_pos hroom]
      refine ⟨⟨rfl, ?_, ?_, ?_, ?_, rfl⟩, rfl⟩
      · rw [List.length_append, List.length_singleton]
      · refine List.forall_mem_append.mpr ⟨hs.lengths, List.forall_mem_singleton.mpr hlength⟩
      · rw [List.length_append, List.length_singleton]
        exact hroom
      · have hblock : (wordBytes vector).length = dimension * 4 := by
          rw [length_wordBytes, hlength]
        have hfront := length_stored hs.lengths
        show writeAt s.mmap _ _ = _
        rw [writeAt, hs.mmap, hblock, ← hfront, List.take_left, List.drop_append,
          List.drop_eq_nil_of_le (Nat.le_add_right _ _), Nat.add_sub_cancel_left,
          List.nil_append, List.drop_drop, hfront, List.flatMap_append, List.flatMap_singleton,
          List.length_append, List.length_singleton, Nat.succ_mul]
    · have hend : file.length < stored.length * (dimension * 4) + dimension * 4 := by
        rw [← Nat.succ_mul]
        exact not_le.mp hroom
      rw [if_pos hend, if_neg fun hboth => hroom hboth.2, if_neg hroom]
      exact ⟨hs, rfl⟩
  · rw [if_pos hlength, if_neg fun hboth => hlength hboth.1, if_pos hlength]
    exact ⟨hs, rfl⟩

theorem room_iff {bytes count : Nat} (hdimension : dimension ≠ 0) :
    Room dimension bytes count ↔ count < bytes / (dimension * 4) := by
  rw [Room, ← Nat.le_div_iff_mul_le (by omega)]
  exact Iff.rfl

/-- One vector more is kept when it has the dimension and there is room. -/
theorem kept_concat (dimension bytes : Nat) (vectors : List (List UInt32)) (vector : List UInt32) :
    kept dimension bytes (vectors ++ [vector]) =
      if vector.length = dimension ∧ Room dimension bytes (kept dimension bytes vectors).length then
        kept dimension bytes vectors ++ [vector]
      else kept dimension bytes vectors := by
  rw [kept, kept, List.filter_append, List.filter_singleton]
  generalize vectors.filter (·.length = dimension) = front
  by_cases hlength : vector.length = dimension
  · rw [decide_eq_true hlength]
    by_cases hzero : dimension = 0
    · have hroom : Room dimension bytes front.length := by
        rw [Room, hzero, Nat.zero_mul, Nat.mul_zero]
        exact Nat.zero_le bytes
      rw [if_pos hzero, if_pos hzero, if_pos ⟨hlength, hroom⟩]
      rfl
    · rw [if_neg hzero, if_neg hzero]
      by_cases hlt : front.length < bytes / (dimension * 4)
      · rw [List.take_of_length_le hlt.le, if_pos ⟨hlength, (room_iff hzero).mpr hlt⟩,
          List.take_of_length_le (by simpa using hlt)]
        rfl
      · rw [if_neg fun hboth => ?_, List.take_append_of_le_length (not_lt.mp hlt)]
        have hroom := (room_iff hzero).mp hboth.2
        rw [List.length_take] at hroom
        omega
  · rw [decide_eq_false hlength, if_neg (c := vector.length = dimension ∧ _) (hlength ·.1),
      Bool.cond_false, List.append_nil]

theorem Holds.appendAll (file : List UInt8) (dimension : Nat) (vectors : List (List UInt32)) :
    Holds file dimension (kept dimension file.length vectors)
      ((mapped file dimension).appendAll vectors) := by
  induction vectors using List.reverseRecOn with
  | nil =>
    have hnone : kept dimension file.length [] = [] := by
      rw [kept, List.filter_nil, List.take_nil, ite_self]
    rw [hnone]
    exact holds_mapped file dimension
  | append_singleton vectors vector ih =>
    rw [kept_concat, MmapVectorStorage.appendAll, List.foldl_append]
    exact (ih.append vector).1

/-- What `open` and `create` give, over the bytes of the file. -/
def Opened (file : List UInt8) (dimension : Nat) (s : MmapVectorStorage) : Prop :=
  openFile file dimension = some s ∨
    ∃ capacity, file = List.replicate (dimension * 4 * capacity) 0 ∧ s = create dimension capacity

theorem Opened.eq (hopened : Opened file dimension s) : s = mapped file dimension := by
  rcases hopened with hopen | ⟨capacity, rfl, rfl⟩
  · rw [openFile] at hopen
    split at hopen
    · exact absurd hopen.symm (Option.some_ne_none s)
    · exact (Option.some.inj hopen).symm
  · rfl

/-- Whatever was appended to whatever file: the vectors that it had room for are read back at their
places, no read leaves the map, and the next append answers with the place of its vector. -/
theorem get_appendAll (hopened : Opened file dimension s) (vectors : List (List UInt32)) :
    (∀ idx, (s.appendAll vectors).get idx = some (kept dimension file.length vectors)[idx]?) ∧
      (s.appendAll vectors).mmap.length = file.length ∧
      ∀ vector, ((s.appendAll vectors).append vector).2 =
        if vector.length ≠ dimension then .error (.invalidDimension dimension vector.length)
        else if Room dimension file.length (kept dimension file.length vectors).length then
          .ok (kept dimension file.length vectors).length
        else .error (.storage (.storage "Storage full")) := by
  obtain rfl := hopened.eq
  have hs := Holds.appendAll file dimension vectors
  exact ⟨hs.get, hs.length, fun vector => (hs.append vector).2⟩

theorem get_appendAll_two :
    ((create 1 2).appendAll [[7], [1, 2], [9], [3]]).get 1 = some (some [9]) := by
  have hopened : Opened (List.replicate 8 0) 1 (create 1 2) := Or.inr ⟨2, rfl, rfl⟩
  rw [(get_appendAll hopened [[7], [1, 2], [9], [3]]).1]
  decide

end MmapVectorStorage

end DiskAnn
end Storage
end RTDB
