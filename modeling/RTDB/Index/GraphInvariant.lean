import RTDB.Index.VectorIndex
import RTDB.Lib.BestFirst
import RTDB.Lib.Outcomes
import RTDB.Lib.Runs

/-!
# The graph of the vector index

The lists of a node lead to other nodes of their layer, to each once, and are not longer than they
may be.  An insertion keeps this even if it panics, so that no search indexes out of range.  The entry
point is a node of the highest layer unless an insertion panicked above it.
-/

namespace RTDB
namespace Index
namespace VectorIndex

open Outcomes

variable {D : Type}

def levels (nodes : List HnswNode) : List Nat := nodes.map HnswNode.maxLayer

def OnLayer (levels : List Nat) (l n : Nat) : Prop := ∃ top ∈ levels[n]?, l ≤ top

structure ListOk (levels : List Nat) (m i l : Nat) (list : List Nat) : Prop where
  onLayer : ∀ n ∈ list, OnLayer levels l n
  noSelf : i ∉ list
  nodup : list.Nodup
  length : list.length ≤ 2 * m

structure NodeOk (levels : List Nat) (m i : Nat) (node : HnswNode) : Prop where
  layers : node.connections.length = node.maxLayer + 1
  lists : ∀ l list, node.connections[l]? = some list → ListOk levels m i l list

def GraphOk (m : Nat) (nodes : List HnswNode) : Prop :=
  ∀ i node, nodes[i]? = some node → NodeOk (levels nodes) m i node

def IsNode (levels : List Nat) : Option Nat → Prop
  | none => levels = []
  | some e => e < levels.length

def IsTop (levels : List Nat) : Option Nat → Prop
  | none => levels = []
  | some e => ∃ top ∈ levels[e]?, ∀ t ∈ levels, t ≤ top

structure HnswIndex.Linked (index : HnswIndex) : Prop where
  graph : GraphOk index.config.m index.nodes
  entry : IsNode (levels index.nodes) index.entryPoint

structure HnswIndex.Valid (index : HnswIndex) : Prop where
  graph : GraphOk index.config.m index.nodes
  entry : IsTop (levels index.nodes) index.entryPoint

def vectors (nodes : List HnswNode) : List (List UInt32) := nodes.map HnswNode.vector

/-- Only a distance between two of the vectors can be in the way, by being NaN. -/
def NanOnly (floats : Floats D) (metric : SimilarityMetric) (vs : List (List UInt32))
    (panic : Panic) : Prop :=
  panic = .nan ∧ ∃ a ∈ vs, ∃ b ∈ vs, floats.isNan (floats.distance metric a b) = true

/-! ## Layers -/

variable {nodes old : List HnswNode} {lv : List Nat} {m i l n layer : Nat} {node : HnswNode}
  {list : List Nat} {vs : List (List UInt32)}

theorem OnLayer.lt (hon : OnLayer lv l n) : n < lv.length := by
  obtain ⟨top, htop, -⟩ := hon
  exact (List.getElem?_eq_some_iff.mp htop).1

theorem OnLayer.mono {l' : Nat} (hon : OnLayer lv l n) (hle : l' ≤ l) : OnLayer lv l' n := by
  obtain ⟨top, htop, hl⟩ := hon
  exact ⟨top, htop, hle.trans hl⟩

theorem OnLayer.append (hon : OnLayer lv l n) (more : List Nat) : OnLayer (lv ++ more) l n := by
  obtain ⟨top, htop, hl⟩ := hon
  refine ⟨top, ?_, hl⟩
  rw [List.getElem?_append_left (List.getElem?_eq_some_iff.mp htop).1]
  exact htop

theorem onLayer_iff : OnLayer (levels nodes) l n ↔ ∃ node, nodes[n]? = some node ∧ l ≤ node.maxLayer := by
  rw [OnLayer, levels, List.getElem?_map]
  constructor
  · rintro ⟨top, htop, hl⟩
    obtain ⟨node, hnode, rfl⟩ := Option.map_eq_some_iff.mp htop
    exact ⟨node, hnode, hl⟩
  · rintro ⟨node, hnode, hl⟩
    exact ⟨node.maxLayer, by rw [hnode]; rfl, hl⟩

theorem vector_mem (hvs : ∀ v ∈ vectors nodes, v ∈ vs) (hnode : nodes[i]? = some node) :
    node.vector ∈ vs :=
  hvs _ (List.mem_map_of_mem (List.mem_of_getElem? hnode))

theorem nodeAt_eq (hnode : nodes[i]? = some node) : nodeAt nodes i = .ok node := by
  rw [nodeAt, hnode]

/-! ## Searches -/

/-- The lists of the layer lead from nodes of the property to such nodes only. -/
def Closed (nodes : List HnswNode) (l : Nat) (p : Nat → Prop) : Prop :=
  ∀ i, p i → ∃ node, nodes[i]? = some node ∧ ∀ n ∈ (node.connections[l]?).getD [], p n

theorem GraphOk.closed (hgraph : GraphOk m nodes) (l : Nat) :
    Closed nodes l (OnLayer (levels nodes) l) := by
  intro i hon
  obtain ⟨node, hnode, -⟩ := onLayer_iff.mp hon
  refine ⟨node, hnode, fun n hn => ?_⟩
  cases hlist : node.connections[l]? with
  | none =>
    rw [hlist] at hn
    exact absurd hn List.not_mem_nil
  | some list =>
    rw [hlist] at hn
    exact ((hgraph i node hnode).lists l list hlist).onLayer n hn

section Search

variable {floats : Floats D} {metric : SimilarityMetric} {query : List UInt32} {ef fuel : Nat}
  {p : Nat → Prop} {s : Search D}

/-- Results of the property, each once and at a distance from the query. -/
structure Found (floats : Floats D) (metric : SimilarityMetric) (query : List UInt32)
    (vs : List (List UInt32)) (p : Nat → Prop) (results : List (D × Nat)) : Prop where
  all : ∀ r ∈ results, p r.2
  nodup : (results.map Prod.snd).Nodup
  distance : ∀ r ∈ results, ∃ v ∈ vs, r.1 = floats.distance metric query v

structure Within (floats : Floats D) (metric : SimilarityMetric) (query : List UInt32)
    (vs : List (List UInt32)) (p : Nat → Prop) (s : Search D) : Prop where
  found : Found floats metric query vs p s.results
  seen : ∀ r ∈ s.results, r.2 ∈ s.visited
  candidates : ∀ c ∈ s.candidates, p c.2

/-- A new neighbor comes to the results that are kept. -/
theorem Within.push (hs : Within floats metric query vs p s) {kept : List (D × Nat)}
    (hkept : kept.Sublist s.results) (hn : p n) (hnew : n ∉ s.visited) {v : List UInt32}
    (hv : v ∈ vs) :
    Within floats metric query vs p
      { visited := n :: s.visited
        candidates := (floats.distance metric query v, n) :: s.candidates
        results := kept ++ [(floats.distance metric query v, n)] } where
  found := by
    refine ⟨fun r hr => ?_, ?_, fun r hr => ?_⟩
    · rcases List.mem_append.mp hr with hr | hr
      · exact hs.found.all r (hkept.subset hr)
      · rw [List.mem_singleton.mp hr]
        exact hn
    · rw [List.map_append]
      refine (hs.found.nodup.sublist (hkept.map Prod.snd)).append (List.nodup_singleton n) ?_
      refine List.disjoint_singleton.mpr fun hmem => hnew ?_
      obtain ⟨r, hr, heq⟩ := List.mem_map.mp hmem
      rw [← show r.2 = n from heq]
      exact hs.seen r (hkept.subset hr)
    · rcases List.mem_append.mp hr with hr | hr
      · exact hs.found.distance r (hkept.subset hr)
      · rw [List.mem_singleton.mp hr]
        exact ⟨v, hv, rfl⟩
  seen := by
    intro r hr
    rcases List.mem_append.mp hr with hr | hr
    · exact List.mem_cons_of_mem n (hs.seen r (hkept.subset hr))
    · rw [List.mem_singleton.mp hr]
      exact List.mem_cons_self
  candidates := List.forall_mem_cons.mpr ⟨hn, hs.candidates⟩

theorem visit_gives {stops : Panic → Prop} (hclosed : Closed nodes l p)
    (hvs : ∀ v ∈ vectors nodes, v ∈ vs) (hs : Within floats metric query vs p s) (hn : p n) :
    Gives stops (Within floats metric query vs p)
      (visit floats (floats.distance metric query) ef nodes s n) := by
  obtain ⟨node, hnode, -⟩ := hclosed n hn
  rw [visit]
  split
  · exact hs
  · rename_i hnew
    rw [nodeAt_eq hnode]
    show Within floats metric query vs p _
    have hv := vector_mem hvs hnode
    dsimp only
    split
    · exact hs.push (List.Sublist.refl _) hn hnew hv
    · split
      · exact hs.push List.eraseP_sublist hn hnew hv
      · exact ⟨hs.found, fun r hr => List.mem_cons_of_mem n (hs.seen r hr), hs.candidates⟩

theorem walk_gives {stops : Panic → Prop} (hclosed : Closed nodes l p)
    (hvs : ∀ v ∈ vectors nodes, v ∈ vs) (hs : Within floats metric query vs p s) :
    Gives stops (Found floats metric query vs p)
      (walk floats (floats.distance metric query) ef l nodes fuel s) := by
  induction fuel generalizing s with
  | zero => exact hs.found
  | succ fuel ih =>
    rw [walk]
    split
    · exact hs.found
    · rename_i d curr candidates hcandidates
      split
      · exact hs.found
      · have hcurr : p curr := by
          refine hs.candidates (d, curr) ?_
          rw [hcandidates]
          exact List.mem_cons_self
        have hpopped : Within floats metric query vs p { s with candidates } := by
          refine ⟨hs.found, hs.seen, fun c hc => hs.candidates c ?_⟩
          rw [hcandidates]
          exact List.mem_cons_of_mem _ hc
        obtain ⟨node, hnode, hneighbors⟩ := hclosed curr hcurr
        rw [nodeAt_eq hnode]
        refine (Gives.foldlM hpopped fun s n hn hs => ?_).bind fun s hs => ih hs
        exact visit_gives hclosed hvs hs (hneighbors n hn)

theorem sortByDistance_gives {l : List (D × Nat)}
    (hdistance : ∀ r ∈ l, ∃ a ∈ vs, ∃ b ∈ vs, r.1 = floats.distance metric a b) :
    Gives (NanOnly floats metric vs) (List.Perm · l) (sortByDistance floats l) := by
  rw [sortByDistance]
  split
  · rename_i hnan
    obtain ⟨r, hr, hnan⟩ := List.any_eq_true.mp hnan.2
    obtain ⟨a, ha, b, hb, heq⟩ := hdistance r hr
    rw [heq] at hnan
    exact ⟨rfl, a, ha, b, hb, hnan⟩
  · exact List.mergeSort_perm l _

theorem searchLayer_gives (hclosed : Closed nodes l p) (hvs : ∀ v ∈ vectors nodes, v ∈ vs)
    (metric : SimilarityMetric) (hquery : query ∈ vs) {entry : Nat} (hentry : p entry) (ef : Nat) :
    Gives (NanOnly floats metric vs) (fun results => (∀ r ∈ results, p r.2) ∧ (results.map Prod.snd).Nodup)
      (searchLayer floats metric query entry ef l nodes) := by
  obtain ⟨node, hnode, -⟩ := hclosed entry hentry
  rw [searchLayer, nodeAt_eq hnode]
  have hstart : Within floats metric query vs p
      { visited := [entry]
        candidates := [(floats.distance metric query node.vector, entry)]
        results := [(floats.distance metric query node.vector, entry)] } := by
    refine ⟨⟨?_, List.nodup_singleton entry, ?_⟩, ?_, ?_⟩
    · exact List.forall_mem_singleton.mpr hentry
    · exact List.forall_mem_singleton.mpr ⟨node.vector, vector_mem hvs hnode, rfl⟩
    · exact List.forall_mem_singleton.mpr List.mem_cons_self
    · exact List.forall_mem_singleton.mpr hentry
  refine (walk_gives hclosed hvs hstart).bind fun results hfound => ?_
  refine (sortByDistance_gives fun r hr => ?_).imp fun sorted hperm => ⟨fun r hr => ?_, ?_⟩
  · exact ⟨query, hquery, hfound.distance r hr⟩
  · exact hfound.all r (hperm.mem_iff.mp hr)
  · exact (hperm.map Prod.snd).nodup_iff.mpr hfound.nodup

end Search

section Layers

variable {floats : Floats D} {metric : SimilarityMetric} {query : List UInt32} {entry : Nat}

/-- A node is on all layers below the bound. -/
def Below (lv : List Nat) (bound n : Nat) : Prop := ∀ l < bound, OnLayer lv l n

theorem OnLayer.below (hon : OnLayer lv l n) : Below lv l n := fun _ hlt => hon.mono hlt.le

theorem landing_onLayer {candidates : List (D × Nat)} (hall : ∀ r ∈ candidates, OnLayer lv l r.2)
    (hn : OnLayer lv l n) : OnLayer lv l (landing candidates n) := by
  cases candidates with
  | nil => exact hn
  | cons nearest rest => exact hall nearest List.mem_cons_self

theorem descend_gives (hclosed : ∀ l, Closed nodes l (OnLayer lv l))
    (hvs : ∀ v ∈ vectors nodes, v ∈ vs) (metric : SimilarityMetric) (hquery : query ∈ vs)
    (low count : Nat) (hentry : Below lv (low + count) entry) :
    Gives (NanOnly floats metric vs) (Below lv low)
      (descend floats metric query nodes entry (List.range' low count).reverse) := by
  refine Gives.foldlM_down hentry fun l currEp _ _ hcurr => ?_
  have hon : OnLayer lv l currEp := hcurr l (Nat.lt_succ_self l)
  refine (searchLayer_gives (hclosed l) hvs metric hquery hon 1).map fun results hresults => ?_
  exact (landing_onLayer hresults.1 hon).below

end Layers

/-! ## Assignments -/

theorem getElem?_set_of_ne {i j : Nat} (hne : j ≠ i) : (nodes.set i node)[j]? = nodes[j]? :=
  List.getElem?_set_ne (Ne.symm hne)

theorem setConnections_gives {stops : Panic → Prop} (hgraph : GraphOk m nodes)
    (hon : OnLayer (levels nodes) l i) (hlist : ListOk (levels nodes) m i l list) :
    Gives stops (fun nodes' => GraphOk m nodes' ∧ levels nodes' = levels nodes ∧
      vectors nodes' = vectors nodes ∧ ∀ j, j ≠ i → nodes'[j]? = nodes[j]?)
      (setConnections nodes i l list) := by
  obtain ⟨node, hnode, hl⟩ := onLayer_iff.mp hon
  have hok := hgraph i node hnode
  have hlt : l < node.connections.length := by
    rw [hok.layers]
    omega
  obtain ⟨hi, hget⟩ := List.getElem?_eq_some_iff.mp hnode
  rw [setConnections, nodeAt_eq hnode]
  show Gives stops _ (if l < node.connections.length then _ else _)
  rw [if_pos hlt]
  have hmap : ∀ {β : Type} (f : HnswNode → β), f { node with
      connections := node.connections.set l list } = f node →
        (nodes.set i { node with connections := node.connections.set l list }).map f =
          nodes.map f := by
    intro β f hf
    rw [List.map_set, hf, ← hget, ← List.map_set, List.set_getElem_self]
  have hlevels := hmap HnswNode.maxLayer rfl
  refine ⟨fun j other hother => ?_, hlevels, hmap HnswNode.vector rfl,
    fun j hne => getElem?_set_of_ne hne⟩
  change NodeOk (List.map HnswNode.maxLayer _) m j other
  rw [hlevels]
  by_cases hji : j = i
  · rw [hji, List.getElem?_set_self hi] at hother
    rw [hji, ← Option.some.inj hother]
    refine ⟨by rw [List.length_set]; exact hok.layers, fun k list' hlist' => ?_⟩
    by_cases hkl : l = k
    · rw [← hkl, List.getElem?_set_self hlt] at hlist'
      rw [← hkl, ← Option.some.inj hlist']
      exact hlist
    · rw [List.getElem?_set_ne hkl] at hlist'
      exact hok.lists k list' hlist'
  · rw [getElem?_set_of_ne hji] at hother
    exact hgraph j other hother

/-! ## The new node -/

/-- The graph with one node more, whose lists lead to the others; these are as they were. -/
structure Grown (m : Nat) (old : List HnswNode) (vector : List UInt32) (layer : Nat)
    (nodes : List HnswNode) : Prop where
  graph : GraphOk m nodes
  levels : levels nodes = VectorIndex.levels old ++ [layer]
  vectors : vectors nodes = VectorIndex.vectors old ++ [vector]
  same : ∀ i < old.length, nodes[i]? = old[i]?

theorem OnLayer.lt_length (hon : OnLayer (levels old) l n) : n < old.length := by
  have hlt := hon.lt
  rwa [levels, List.length_map] at hlt

theorem ListOk.append {more : List Nat} (hlist : ListOk lv m i l list) :
    ListOk (lv ++ more) m i l list :=
  { hlist with onLayer := fun n hn => (hlist.onLayer n hn).append more }

theorem levels_append (old : List HnswNode) (node : HnswNode) :
    levels (old ++ [node]) = levels old ++ [node.maxLayer] := List.map_append

theorem grown_append (hold : GraphOk m old) (id : Nat) (vector : List UInt32) (layer : Nat) :
    Grown m old vector layer (old ++
      [{ id, vector, connections := List.replicate (layer + 1) [], maxLayer := layer }]) where
  graph := by
    intro i node hnode
    rw [levels_append]
    rcases Nat.lt_or_ge i old.length with hi | hi
    · rw [List.getElem?_append_left hi] at hnode
      have hok := hold i node hnode
      exact ⟨hok.layers, fun l list hlist => (hok.lists l list hlist).append⟩
    · rw [List.getElem?_append_right hi, List.getElem?_singleton] at hnode
      split at hnode
      · rw [← Option.some.inj hnode]
        refine ⟨List.length_replicate, fun l list hlist => ?_⟩
        have hempty : list = [] := List.eq_of_mem_replicate (List.mem_of_getElem? hlist)
        rw [hempty]
        exact ⟨fun n hn => absurd hn List.not_mem_nil, List.not_mem_nil, List.nodup_nil,
          Nat.zero_le _⟩
      · exact absurd hnode (by simp)
  levels := levels_append old _
  vectors := List.map_append
  same := fun i hi => List.getElem?_append_left hi

theorem Grown.closed (hold : GraphOk m old) (hgrown : Grown m old vector layer nodes) (l : Nat) :
    Closed nodes l (OnLayer (VectorIndex.levels old) l) := by
  intro i hon
  obtain ⟨node, hnode, hneighbors⟩ := hold.closed l i hon
  exact ⟨node, (hgrown.same i hon.lt_length).trans hnode, hneighbors⟩

theorem Grown.onLayer_new (hgrown : Grown m old vector layer nodes) (hl : l ≤ layer) :
    OnLayer (VectorIndex.levels nodes) l old.length := by
  refine ⟨layer, ?_, hl⟩
  rw [hgrown.levels, List.getElem?_append_right (by rw [VectorIndex.levels, List.length_map]),
    VectorIndex.levels, List.length_map, Nat.sub_self]
  rfl

theorem Grown.onLayer_old (hgrown : Grown m old vector layer nodes)
    (hon : OnLayer (VectorIndex.levels old) l n) : OnLayer (VectorIndex.levels nodes) l n := by
  rw [hgrown.levels]
  exact hon.append [layer]

section Insert

variable {floats : Floats D} {config : HnswConfig} {metric : SimilarityMetric}
  {query vector : List UInt32} {ef : Nat}

/-- The vectors that an insertion measures. -/
theorem Grown.measured (hgrown : Grown m old vector layer nodes) :
    ∀ v ∈ VectorIndex.vectors nodes, v ∈ VectorIndex.vectors old ++ [vector] := fun v hv => by
  rw [← hgrown.vectors]
  exact hv

def Chosen (old : List HnswNode) (layer : Nat) (neighborsAtLayer : List (Nat × List Nat)) : Prop :=
  ∀ entry ∈ neighborsAtLayer, entry.1 ≤ layer ∧
    ∀ n ∈ entry.2, OnLayer (levels old) entry.1 n

/-- What the loop keeps that gives the new node its neighbors; the layers below the bound come
next. -/
structure Growing (m : Nat) (old : List HnswNode) (vector : List UInt32) (layer bound : Nat)
    (s : Building) : Prop where
  grown : Grown m old vector layer s.nodes
  current : Below (levels old) bound s.currEp
  chosen : Chosen old layer s.neighborsAtLayer

theorem connectLayer_gives (hold : GraphOk config.m old) {s : Building}
    (hs : Growing config.m old vector layer (l + 1) s) (hl : l ≤ layer) :
    Gives (NanOnly floats metric (vectors old ++ [vector])) (Growing config.m old vector layer l)
      (connectLayer floats config metric vector old.length s l) := by
  have hon : OnLayer (levels old) l s.currEp := hs.current l (Nat.lt_succ_self l)
  have hvector : vector ∈ vectors old ++ [vector] := by simp
  rw [connectLayer]
  refine (searchLayer_gives (hs.grown.closed hold l) hs.grown.measured metric hvector hon _).bind
    fun candidates hcandidates => ?_
  have hneighbors : ∀ n ∈ (candidates.take config.m).map Prod.snd, OnLayer (levels old) l n := by
    intro n hn
    obtain ⟨r, hr, rfl⟩ := List.mem_map.mp hn
    exact hcandidates.1 r (List.mem_of_mem_take hr)
  have hlist : ListOk (levels s.nodes) config.m old.length l
      ((candidates.take config.m).map Prod.snd) := by
    refine ⟨fun n hn => hs.grown.onLayer_old (hneighbors n hn), fun hself => ?_, ?_, ?_⟩
    · exact absurd (hneighbors _ hself).lt_length (Nat.lt_irrefl _)
    · exact hcandidates.2.sublist ((List.take_sublist _ _).map Prod.snd)
    · rw [List.length_map, List.length_take]
      omega
  refine (setConnections_gives hs.grown.graph (hs.grown.onLayer_new hl) hlist).bind
    fun nodes hnodes => ?_
  obtain ⟨hgraph, hlevels, hvectors, hsame⟩ := hnodes
  refine ⟨⟨hgraph, hlevels.trans hs.grown.levels, hvectors.trans hs.grown.vectors, fun i hi => ?_⟩,
    (landing_onLayer hcandidates.1 hon).below, fun entry hentry => ?_⟩
  · rw [hsame i (Nat.ne_of_lt hi)]
    exact hs.grown.same i hi
  · rcases List.mem_append.mp hentry with hentry | hentry
    · exact hs.chosen entry hentry
    · rw [List.mem_singleton.mp hentry]
      exact ⟨hl, hneighbors⟩

/-! ## The neighbors -/

def UpdatesOk (levels : List Nat) (m : Nat) (updates : List Update) : Prop :=
  ∀ update ∈ updates, OnLayer levels update.2.1 update.1 ∧
    ListOk levels m update.1 update.2.1 update.2.2

theorem measured_ids {R : D × Nat → Prop} {withDist : List (D × Nat)}
    (hall : List.Forall₂ (fun n r => r.2 = n ∧ R r) list withDist) :
    withDist.map Prod.snd = list ∧ ∀ r ∈ withDist, R r := by
  induction hall with
  | nil => exact ⟨rfl, fun r hr => absurd hr List.not_mem_nil⟩
  | cons hfirst _ ih =>
    rw [List.map_cons, hfirst.1, ih.1]
    exact ⟨rfl, List.forall_mem_cons.mpr ⟨hfirst.2, ih.2⟩⟩

theorem prune_gives (hvs : ∀ v ∈ vectors nodes, v ∈ vs) (hvector : vector ∈ vs)
    (hon : ∀ n ∈ list, OnLayer (levels nodes) l n) (hself : i ∉ list) (hnodup : list.Nodup) :
    Gives (NanOnly floats metric vs) (ListOk (levels nodes) config.m i l)
      (prune floats config metric nodes vector list) := by
  rw [prune]
  split
  · have hmeasured : Gives (NanOnly floats metric vs)
        (List.Forall₂
          (fun n (r : D × Nat) => r.2 = n ∧ ∃ v ∈ vs, r.1 = floats.distance metric vector v) list)
        (list.mapM fun n => (nodeAt nodes n).map fun node =>
          (floats.distance metric vector node.vector, n)) := by
      refine Gives.mapM fun n hn => ?_
      obtain ⟨node, hnode, -⟩ := onLayer_iff.mp (hon n hn)
      rw [nodeAt_eq hnode]
      exact ⟨rfl, node.vector, vector_mem hvs hnode, rfl⟩
    refine hmeasured.bind fun withDist hdist => ?_
    obtain ⟨hids, hall⟩ := measured_ids hdist
    have hsort : Gives (NanOnly floats metric vs) (List.Perm · withDist)
        (sortByDistance floats withDist) :=
      sortByDistance_gives fun r hr => ⟨vector, hvector, hall r hr⟩
    refine hsort.bind fun sorted hperm => ?_
    have hsub : ((sorted.take config.m).map Prod.snd).Sublist (sorted.map Prod.snd) :=
      (List.take_sublist _ _).map Prod.snd
    have hids' : (sorted.map Prod.snd).Perm list := hids ▸ hperm.map Prod.snd
    refine ⟨fun n hn => hon n (hids'.subset (hsub.subset hn)),
      fun hmem => hself (hids'.subset (hsub.subset hmem)),
      (hids'.nodup_iff.mpr hnodup).sublist hsub, ?_⟩
    rw [List.length_map, List.length_take]
    omega
  · rename_i hshort
    exact ⟨hon, hself, hnodup, by omega⟩

/-- The list of a neighbor takes the new node in. -/
theorem backLink_gives (hgrown : Grown config.m old vector layer nodes) (hl : l ≤ layer)
    (hn : OnLayer (levels old) l n) {updates : List Update}
    (hupdates : UpdatesOk (levels nodes) config.m updates) :
    Gives (NanOnly floats metric (vectors old ++ [vector])) (UpdatesOk (levels nodes) config.m)
      (backLink floats config metric nodes old.length l updates n) := by
  have hon : OnLayer (levels nodes) l n := hgrown.onLayer_old hn
  obtain ⟨node, hnode, -⟩ := onLayer_iff.mp hon
  rw [backLink, nodeAt_eq hnode]
  refine Gives.bind (P := fun found => found = node) rfl fun found hfound => ?_
  rw [hfound]
  split
  · exact hupdates
  · rename_i connections hconnections
    have hold := (hgrown.graph n node hnode).lists l connections hconnections
    split
    · exact hupdates
    · rename_i hnew
      have hne : n ≠ old.length := Nat.ne_of_lt hn.lt_length
      have hpruned : Gives (NanOnly floats metric (vectors old ++ [vector]))
          (ListOk (levels nodes) config.m n l)
          (prune floats config metric nodes node.vector (connections ++ [old.length])) := by
        refine prune_gives hgrown.measured (vector_mem hgrown.measured hnode) (fun a ha => ?_)
          (fun ha => ?_) ?_
        · rcases List.mem_append.mp ha with ha | ha
          · exact hold.onLayer a ha
          · rw [List.mem_singleton.mp ha]
            exact hgrown.onLayer_new hl
        · rcases List.mem_append.mp ha with ha | ha
          · exact hold.noSelf ha
          · exact hne (List.mem_singleton.mp ha)
        · refine hold.nodup.append (List.nodup_singleton _) (List.disjoint_singleton.mpr ?_)
          exact fun hmem => hnew (List.contains_iff_mem.mpr hmem)
      refine hpruned.bind fun list hlist update hupdate => ?_
      rcases List.mem_append.mp hupdate with hupdate | hupdate
      · exact hupdates update hupdate
      · rw [List.mem_singleton.mp hupdate]
        exact ⟨hon, hlist⟩

theorem collectUpdates_gives (hgrown : Grown config.m old vector layer nodes)
    {neighborsAtLayer : List (Nat × List Nat)} (hchosen : Chosen old layer neighborsAtLayer) :
    Gives (NanOnly floats metric (vectors old ++ [vector])) (UpdatesOk (levels nodes) config.m)
      (collectUpdates floats config metric nodes old.length neighborsAtLayer) := by
  refine Gives.foldlM (fun update hupdate => absurd hupdate List.not_mem_nil)
    fun updates entry hentry hupdates => ?_
  obtain ⟨hl, hneighbors⟩ := hchosen entry hentry
  exact Gives.foldlM hupdates fun updates n hn hupdates =>
    backLink_gives hgrown hl (hneighbors n hn) hupdates

theorem applyUpdates_gives {stops : Stopped → Prop} (hgraph : GraphOk m nodes)
    {updates : List Update} (hupdates : UpdatesOk (levels nodes) m updates) :
    Gives stops (fun nodes' => GraphOk m nodes' ∧ levels nodes' = levels nodes)
      (applyUpdates nodes updates) := by
  refine Gives.foldlM ⟨hgraph, rfl⟩ fun nodes' update hupdate hnodes' => ?_
  obtain ⟨hgraph', hlevels⟩ := hnodes'
  obtain ⟨hon, hlist⟩ := hupdates update hupdate
  rw [← hlevels] at hon hlist
  have hset : Gives (fun _ => False) _ _ := setConnections_gives hgraph' hon hlist
  exact (hset.imp fun nodes'' hnodes'' => ⟨hnodes''.1, hnodes''.2.1.trans hlevels⟩).mapError
    fun _ hfalse => hfalse.elim

end Insert

/-! ## Insertions -/

namespace HnswIndex

variable {index : HnswIndex} {vector : List UInt32}

/-- The search through the layers above those that the new node shares with the entry point. -/
theorem descend_shared (floats : Floats D) (hclosed : ∀ l, Closed nodes l (OnLayer lv l))
    (hvs : ∀ v ∈ vectors nodes, v ∈ vs) (metric : SimilarityMetric) (hvector : vector ∈ vs)
    {ep top : Nat} (hep : top ∈ lv[ep]?) (layer : Nat) :
    Gives (NanOnly floats metric vs) (Below lv (min layer top + 1))
      (descend floats metric vector nodes ep (List.range' (layer + 1) (top - layer)).reverse) := by
  have hbelow : Below lv (top + 1) ep := fun l hl => ⟨top, hep, by omega⟩
  by_cases hlayer : layer ≤ top
  · have hsame : layer + 1 + (top - layer) = top + 1 := by omega
    rw [Nat.min_eq_left hlayer]
    exact descend_gives hclosed hvs metric hvector (layer + 1) (top - layer) (hsame ▸ hbelow)
  · rw [Nat.min_eq_right (by omega), Nat.sub_eq_zero_of_le (by omega)]
    exact hbelow

/-- Where an insertion stops: at a distance that is NaN, with the new node in the graph. -/
def StopsGrown (index : HnswIndex) (floats : Floats D) (vector : List UInt32) (layer : Nat)
    (stopped : Stopped) : Prop :=
  NanOnly floats index.metric (vectors index.nodes ++ [vector]) stopped.panic ∧
    Grown index.config.m index.nodes vector layer stopped.nodes

theorem leaving_gives {α : Type} {floats : Floats D} {P : α → Prop} {x : Except Panic α}
    (hgrown : Grown index.config.m index.nodes vector layer nodes)
    (hx : Gives (NanOnly floats index.metric (vectors index.nodes ++ [vector])) P x) :
    Gives (StopsGrown index floats vector layer) P (leaving nodes x) :=
  hx.mapError fun _ hnan => ⟨hnan, hgrown⟩

theorem connect_gives (floats : Floats D) (hgraph : GraphOk index.config.m index.nodes)
    {ep top : Nat} (hget : top ∈ (levels index.nodes)[ep]?)
    (hgrown : Grown index.config.m index.nodes vector layer nodes) :
    Gives (StopsGrown index floats vector layer) (fun connected =>
        GraphOk index.config.m connected.1 ∧ levels connected.1 = levels index.nodes ++ [layer] ∧
          connected.2 = if layer > top then index.nodes.length else ep)
      (index.connect floats nodes ep vector layer) := by
  have hon : OnLayer (levels index.nodes) top ep := ⟨top, hget, le_rfl⟩
  obtain ⟨epNode, hepNode, -⟩ := onLayer_iff.mp hon
  have hmax : epNode.maxLayer = top := by
    have hlevel : (levels index.nodes)[ep]? = some epNode.maxLayer := by
      rw [levels, List.getElem?_map, hepNode]
      rfl
    exact Option.some.inj (hlevel.symm.trans hget)
  rw [connect, nodeAt_eq ((hgrown.same ep hon.lt_length).trans hepNode)]
  refine Gives.bind (P := (· = epNode)) rfl fun node hnode => ?_
  rw [hnode, hmax]
  have hdescend := descend_shared floats (hgrown.closed hgraph) hgrown.measured index.metric
    (show vector ∈ vectors index.nodes ++ [vector] by simp) hget layer
  refine (leaving_gives hgrown hdescend).bind fun currEp hcurr => ?_
  have hloop : Gives (StopsGrown index floats vector layer)
      (Growing index.config.m index.nodes vector layer 0)
      ((List.range (min layer top + 1)).reverse.foldlM
        (fun s l => leaving s.nodes
          (connectLayer floats index.config index.metric vector index.nodes.length s l))
        { nodes, currEp, neighborsAtLayer := [] }) := by
    rw [List.range_eq_range']
    refine Gives.foldlM_down ?_ fun l s _ hl hs =>
      leaving_gives hs.grown (connectLayer_gives hgraph hs (by omega))
    rw [Nat.zero_add]
    exact ⟨hgrown, hcurr, fun entry hentry => absurd hentry List.not_mem_nil⟩
  refine hloop.bind fun s hs => ?_
  refine (leaving_gives hs.grown (collectUpdates_gives hs.grown hs.chosen)).bind
    fun updates hupdates => ?_
  refine (applyUpdates_gives hs.grown.graph hupdates).bind fun nodes' hnodes' => ?_
  exact ⟨hnodes'.1, hnodes'.2.trans hs.grown.levels, rfl⟩

def Climbs (index : HnswIndex) (layer : Nat) : Bool :=
  (index.entryPoint.bind fun ep => index.nodes[ep]?).any fun node => node.maxLayer < layer

/-- What an insertion leaves: the index as it was, one with a node more, or, behind a panic, one whose
entry point does not count the node yet. -/
inductive Left (index : HnswIndex) (floats : Floats D) (vector : List UInt32) (layer : Nat) :
    HnswIndex → Except Panic (Except Error Unit) → Prop
  | refused (hdim : vector.length ≠ index.dimension) :
      Left index floats vector layer index
        (.ok (.error (.invalidDimension index.dimension vector.length)))
  | first {nodes : List HnswNode} (hnone : index.nodes = []) (hgraph : GraphOk index.config.m nodes)
      (hlevels : levels nodes = [layer]) :
      Left index floats vector layer
        { index with nodes, entryPoint := some 0, count := index.count + 1 } (.ok (.ok ()))
  | inserted {nodes : List HnswNode} {ep top : Nat} (hep : index.entryPoint = some ep)
      (hget : top ∈ (levels index.nodes)[ep]?) (hgraph : GraphOk index.config.m nodes)
      (hlevels : levels nodes = levels index.nodes ++ [layer]) :
      Left index floats vector layer
        { index with
          nodes, entryPoint := some (if layer > top then index.nodes.length else ep)
          count := index.count + 1 } (.ok (.ok ()))
  | stopped {nodes : List HnswNode} {ep : Nat} {panic : Panic} (hep : index.entryPoint = some ep)
      (hdim : vector.length = index.dimension)
      (hnan : NanOnly floats index.metric (vectors index.nodes ++ [vector]) panic)
      (hgraph : GraphOk index.config.m nodes)
      (hlevels : levels nodes = levels index.nodes ++ [layer]) :
      Left index floats vector layer { index with nodes } (.error panic)

theorem Linked.insert (floats : Floats D) (hlinked : index.Linked) (id : Nat)
    (vector : List UInt32) (layer : Nat) :
    Left index floats vector layer (index.insert floats id vector layer).1
      (index.insert floats id vector layer).2 := by
  rw [HnswIndex.insert]
  split
  · next hdim => exact .refused hdim
  · next hdim =>
    have hgrown := grown_append hlinked.graph id vector layer
    have hentry := hlinked.entry
    cases hep : index.entryPoint with
    | none =>
      rw [hep] at hentry
      have hnone : index.nodes = [] := List.map_eq_nil_iff.mp hentry
      have hlevels := hgrown.levels
      simp only [hnone] at hgrown hlevels ⊢
      exact .first hnone hgrown.graph hlevels
    | some ep =>
      rw [hep] at hentry
      have hget : (levels index.nodes)[ep] ∈ (levels index.nodes)[ep]? :=
        List.getElem?_eq_getElem hentry
      have hconnect := connect_gives floats hlinked.graph hget hgrown
      dsimp only
      generalize index.connect floats _ ep vector layer = connected at hconnect ⊢
      cases connected with
      | error stopped =>
        have hleft := Left.stopped hep (not_not.mp hdim) hconnect.1 hconnect.2.graph
          hconnect.2.levels
        rw [hep] at hleft
        exact hleft
      | ok connected =>
        obtain ⟨nodes, entry⟩ := connected
        obtain ⟨hgraph, hlevels, rfl⟩ := hconnect
        exact .inserted hep hget hgraph hlevels

theorem isNode_of_isTop {entry : Option Nat} (htop : IsTop lv entry) : IsNode lv entry := by
  cases entry with
  | none => exact htop
  | some e =>
    obtain ⟨top, hget, -⟩ := htop
    exact (List.getElem?_eq_some_iff.mp hget).1

theorem Valid.linked (hvalid : index.Valid) : index.Linked where
  graph := hvalid.graph
  entry := isNode_of_isTop hvalid.entry

variable {floats : Floats D} {left : HnswIndex} {outcome : Except Panic (Except Error Unit)}

/-- However an insertion ends, the lists are in order and the entry point is a node. -/
theorem Left.linked (hlinked : index.Linked) (hleft : Left index floats vector layer left outcome) :
    left.Linked := by
  cases hleft with
  | refused => exact hlinked
  | first _ hgraph hlevels =>
    refine ⟨hgraph, ?_⟩
    show 0 < (levels _).length
    rw [hlevels]
    exact Nat.one_pos
  | @inserted nodes ep top hep hget hgraph hlevels =>
    refine ⟨hgraph, ?_⟩
    show (if layer > top then index.nodes.length else ep) < (levels nodes).length
    have hlt : ep < (levels index.nodes).length := (List.getElem?_eq_some_iff.mp hget).1
    rw [levels, List.length_map] at hlt
    rw [hlevels, List.length_append, levels, List.length_map, List.length_singleton]
    split <;> omega
  | @stopped nodes ep _ hep _ _ hgraph hlevels =>
    refine ⟨hgraph, ?_⟩
    have hentry := hlinked.entry
    rw [hep] at hentry
    show IsNode (levels nodes) index.entryPoint
    rw [hep, hlevels]
    exact Nat.lt_of_lt_of_le hentry (by simp)

/-- The highest of the old entry point and the new node. -/
theorem isTop_append {ep top : Nat} (hep : top ∈ lv[ep]?) (hall : ∀ t ∈ lv, t ≤ top) :
    IsTop (lv ++ [layer]) (some (if layer > top then lv.length else ep)) := by
  have hlt : ep < lv.length := (List.getElem?_eq_some_iff.mp hep).1
  by_cases hlayer : layer > top
  · rw [if_pos hlayer]
    refine ⟨layer, by rw [List.getElem?_concat_length]; rfl, fun t ht => ?_⟩
    rcases List.mem_append.mp ht with ht | ht
    · exact (hall t ht).trans hlayer.le
    · exact (List.mem_singleton.mp ht).le
  · rw [if_neg hlayer]
    refine ⟨top, by rw [List.getElem?_append_left hlt]; exact hep, fun t ht => ?_⟩
    rcases List.mem_append.mp ht with ht | ht
    · exact hall t ht
    · rw [List.mem_singleton.mp ht]
      omega

theorem climbs_iff {ep top : Nat} (hep : index.entryPoint = some ep)
    (hget : top ∈ (levels index.nodes)[ep]?) : index.Climbs layer = true ↔ layer > top := by
  obtain ⟨node, hnode, rfl⟩ := Option.map_eq_some_iff.mp
    ((List.getElem?_map (f := HnswNode.maxLayer)).symm.trans hget)
  rw [Climbs, hep, Option.bind_some, hnode]
  exact decide_eq_true_iff

/-- The entry point stays a node of the highest layer, unless a panic stops an insertion above it. -/
theorem Left.valid_iff (hvalid : index.Valid) (hleft : Left index floats vector layer left outcome) :
    left.Valid ↔ ¬(index.Climbs layer = true ∧ ∃ panic, outcome = .error panic) := by
  have hgraph := (hleft.linked hvalid.linked).graph
  have hentry := hvalid.entry
  cases hleft with
  | refused => exact iff_of_true hvalid fun ⟨_, _, hpanic⟩ => absurd hpanic (by simp)
  | first _ _ hlevels =>
    refine iff_of_true ⟨hgraph, ?_⟩ fun ⟨_, _, hpanic⟩ => absurd hpanic (by simp)
    show IsTop (levels _) (some 0)
    rw [hlevels]
    exact ⟨layer, rfl, fun t ht => (List.mem_singleton.mp ht).le⟩
  | @inserted nodes ep top hep hget _ hlevels =>
    refine iff_of_true ⟨hgraph, ?_⟩ fun ⟨_, _, hpanic⟩ => absurd hpanic (by simp)
    rw [hep] at hentry
    obtain ⟨top', hget', hall⟩ := hentry
    obtain rfl : top' = top := Option.some.inj (hget'.symm.trans hget)
    show IsTop (levels nodes) (some _)
    have hlength : (levels index.nodes).length = index.nodes.length := List.length_map _
    rw [hlevels, ← hlength]
    exact isTop_append hget hall
  | @stopped nodes ep panic hep hdim hnan _ hlevels =>
    rw [hep] at hentry
    obtain ⟨top, hget, hall⟩ := hentry
    rw [climbs_iff hep hget]
    constructor
    · rintro ⟨-, htop⟩ ⟨hhigh, -⟩
      change IsTop (levels nodes) index.entryPoint at htop
      rw [hep, hlevels] at htop
      obtain ⟨top', hget', hall'⟩ := htop
      rw [List.getElem?_append_left (List.getElem?_eq_some_iff.mp hget).1] at hget'
      obtain rfl : top' = top := Option.some.inj (hget'.symm.trans hget)
      exact absurd (hall' layer (by simp)) (Nat.not_le.mpr hhigh)
    · intro hlow
      have htop : IsTop (levels index.nodes ++ [layer]) _ := isTop_append hget hall
      rw [if_neg fun hhigh => hlow ⟨hhigh, panic, rfl⟩] at htop
      refine ⟨hgraph, ?_⟩
      show IsTop (levels nodes) index.entryPoint
      rw [hep, hlevels]
      exact htop

/-- The vectors that are there and the new one are at distances that can be compared. -/
def Comparable (floats : Floats D) (index : HnswIndex) (vector : List UInt32) : Prop :=
  ∀ a ∈ vectors index.nodes ++ [vector], ∀ b ∈ vectors index.nodes ++ [vector],
    floats.isNan (floats.distance index.metric a b) = false

instance (floats : Floats D) (index : HnswIndex) (vector : List UInt32) :
    Decidable (Comparable floats index vector) :=
  inferInstanceAs (Decidable (∀ a ∈ _, ∀ b ∈ _, _ = _))

theorem Left.not_comparable {panic : Panic}
    (hleft : Left index floats vector layer left (.error panic)) :
    vector.length = index.dimension ∧ ¬Comparable floats index vector := by
  cases hleft with
  | stopped _ hdim hnan =>
    refine ⟨hdim, fun hcompare => ?_⟩
    obtain ⟨-, a, ha, b, hb, hisNan⟩ := hnan
    exact absurd (hisNan.symm.trans (hcompare a ha b hb)) (by decide)

theorem valid_new (config : HnswConfig) (dimension : Nat) (metric : SimilarityMetric) :
    (new config dimension metric).Valid where
  graph i node hnode := absurd hnode (by simp [new])
  entry := rfl

/-- A search of a graph that keeps the invariant indexes nothing that is not there. -/
theorem Linked.search (floats : Floats D) (hlinked : index.Linked) (query : List UInt32) (k : Nat) :
    Gives (NanOnly floats index.metric (vectors index.nodes ++ [query])) (fun _ => True)
      (index.search floats query k) := by
  rw [HnswIndex.search]
  split
  · trivial
  · have hentry := hlinked.entry
    cases hep : index.entryPoint with
    | none => trivial
    | some ep =>
      rw [hep] at hentry
      have hclosed := fun l => hlinked.graph.closed l
      have hvs : ∀ v ∈ vectors index.nodes, v ∈ vectors index.nodes ++ [query] := fun v hv =>
        List.mem_append_left _ hv
      have hquery : query ∈ vectors index.nodes ++ [query] := by simp
      obtain ⟨epNode, hepNode, hle⟩ :=
        onLayer_iff.mp ⟨_, List.getElem?_eq_getElem hentry, le_rfl⟩
      dsimp only
      rw [nodeAt_eq hepNode]
      have hbelow : Below (levels index.nodes) (1 + epNode.maxLayer) ep := fun l hl =>
        onLayer_iff.mpr ⟨epNode, hepNode, by omega⟩
      refine (descend_gives hclosed hvs index.metric hquery 1 epNode.maxLayer hbelow).bind
        fun currEp hcurr => ?_
      refine (searchLayer_gives (hclosed 0) hvs index.metric hquery
        (hcurr 0 Nat.zero_lt_one) _).bind fun candidates hcandidates => ?_
      have hresults : Gives (NanOnly floats index.metric (vectors index.nodes ++ [query]))
          (List.Forall₂ (fun _ _ => True) (candidates.take k))
          ((candidates.take k).mapM fun candidate =>
            (nodeAt index.nodes candidate.2).map fun node =>
              ({ id := node.id, distance := candidate.1 } : SearchResult D)) := by
        refine Gives.mapM fun candidate hcandidate => ?_
        obtain ⟨node, hnode, -⟩ :=
          onLayer_iff.mp (hcandidates.1 candidate (List.mem_of_mem_take hcandidate))
        rw [nodeAt_eq hnode]
        trivial
      exact hresults.bind fun _ _ => trivial

/-! ## Runs -/

structure Insertion where
  id : Nat
  vector : List UInt32
  layer : Nat

def Insertion.perform (floats : Floats D) (index : HnswIndex) (insertion : Insertion) : HnswIndex :=
  (index.insert floats insertion.id insertion.vector insertion.layer).1

/-- One insertion after the other, those that are refused and those that panic included. -/
def run (floats : Floats D) (index : HnswIndex) (insertions : List Insertion) : HnswIndex :=
  insertions.foldl (Insertion.perform floats) index

/-- Above the entry point only vectors are inserted that can be compared. -/
def Insertion.Sound (floats : Floats D) (index : HnswIndex) (insertion : Insertion) : Prop :=
  insertion.vector.length = index.dimension → index.Climbs insertion.layer = true →
    Comparable floats index insertion.vector

instance (floats : Floats D) (index : HnswIndex) (insertion : Insertion) :
    Decidable (insertion.Sound floats index) :=
  inferInstanceAs (Decidable (_ → _ → _))

/-- Every sequence of insertions, whatever layers are drawn and whatever panics, leaves lists in order,
and an entry point that is a node. -/
theorem linked_run (floats : Floats D) (config : HnswConfig) (dimension : Nat)
    (metric : SimilarityMetric) (insertions : List Insertion) :
    (run floats (new config dimension metric) insertions).Linked := by
  have hstep : ∀ (index : HnswIndex) (insertion : Insertion), index.Linked →
      (insertion.perform floats index).Linked := fun index insertion hlinked =>
    (hlinked.insert floats insertion.id insertion.vector insertion.layer).linked hlinked
  rw [run]
  refine List.foldlRecOn insertions _ (valid_new config dimension metric).linked ?_
  exact fun index hlinked insertion _ => hstep index insertion hlinked

/-- The distances of samples with one component; that of NaN is none. -/
def sampleFloats : Floats (Option Int) where
  distance _ a b :=
    if 0x7FC00000 ∈ a ++ b then none
    else some ((a.map UInt32.toNat).sum - (b.map UInt32.toNat).sum : Int).natAbs
  negInfinity := some (-1)
  max x y :=
    match x, y with
    | none, y => y
    | x, none => x
    | some x, some y => some (max x y)
  lt x y := x.any fun x => y.any fun y => x < y
  eq x y := x.any fun x => y.any fun y => x = y
  isNan := Option.isNone

end HnswIndex

/-! ## Enough fuel -/

section Fuel

variable {floats : Floats D} {dist : List UInt32 → D} {ef fuel : Nat} {s : Search D}

/-- The pops that are left at most: one for each candidate, and one for each node that is still to
be seen. -/
def pending (nodes : List HnswNode) (s : Search D) : Nat :=
  ((List.range nodes.length).filter fun n => decide (n ∉ s.visited)).length + s.candidates.length

theorem visit_pending (bound : Nat) (hs : pending nodes s ≤ bound) :
    Gives (fun _ => True) (fun s' => pending nodes s' ≤ bound) (visit floats dist ef nodes s n) := by
  rw [visit]
  split
  · exact hs
  · rename_i hnew
    cases hnode : nodes[n]? with
    | none =>
      rw [nodeAt, hnode]
      trivial
    | some node =>
      have hlt : n < nodes.length := (List.getElem?_eq_some_iff.mp hnode).1
      have hless := BestFirst.length_filter_cons_lt (List.mem_range.mpr hlt) hnew
      rw [nodeAt_eq hnode]
      show pending nodes _ ≤ bound
      rw [pending] at hs
      dsimp only
      split
      · rw [pending]
        dsimp only [List.length_cons]
        omega
      · split
        · rw [pending]
          dsimp only [List.length_cons]
          omega
        · rw [pending]
          dsimp only
          omega

/-- More fuel than there are nodes to see changes nothing. -/
theorem walk_fuel (layer more : Nat) (hfuel : pending nodes s ≤ fuel) :
    walk floats dist ef layer nodes (fuel + more) s = walk floats dist ef layer nodes fuel s := by
  induction fuel generalizing s with
  | zero =>
    have hempty : s.candidates = [] := by
      rw [pending] at hfuel
      exact List.length_eq_zero_iff.mp (by omega)
    cases more with
    | zero => rfl
    | succ more => rw [Nat.zero_add, walk, walk, hempty]
  | succ fuel ih =>
    rw [Nat.succ_add, walk, walk]
    split
    · rfl
    · rename_i d curr candidates hcandidates
      split
      · rfl
      · have hpop : pending nodes { s with candidates } ≤ fuel := by
          rw [pending, hcandidates, List.length_cons] at hfuel
          rw [pending]
          dsimp only
          omega
        cases nodeAt nodes curr with
        | error panic => rfl
        | ok node =>
          have hloop : Gives (fun _ => True) (fun s => pending nodes s ≤ fuel)
              (((node.connections[layer]?).getD []).foldlM (visit floats dist ef nodes)
                { s with candidates }) :=
            Gives.foldlM hpop fun s n _ hs => visit_pending fuel hs
          show (((node.connections[layer]?).getD []).foldlM (visit floats dist ef nodes)
              { s with candidates } >>= fun s => walk floats dist ef layer nodes (fuel + more) s) =
            (((node.connections[layer]?).getD []).foldlM (visit floats dist ef nodes)
              { s with candidates } >>= fun s => walk floats dist ef layer nodes fuel s)
          cases hfold : ((node.connections[layer]?).getD []).foldlM (visit floats dist ef nodes)
              { s with candidates } with
          | error panic => rfl
          | ok s' =>
            rw [hfold] at hloop
            exact ih hloop

theorem walk_start_fuel (floats : Floats D) (dist : List UInt32 → D) (ef layer more : Nat)
    {entry : Nat} (hentry : entry < nodes.length) (d : D) :
    walk floats dist ef layer nodes (nodes.length + more)
        { visited := [entry], candidates := [(d, entry)], results := [(d, entry)] } =
      walk floats dist ef layer nodes nodes.length
        { visited := [entry], candidates := [(d, entry)], results := [(d, entry)] } := by
  refine walk_fuel layer more ?_
  have hless := BestFirst.length_filter_cons_lt (List.mem_range.mpr hentry)
    (List.not_mem_nil : entry ∉ [])
  have hall := List.length_filter_le (fun n => decide (n ∉ ([] : List Nat))) (List.range nodes.length)
  rw [List.length_range] at hall
  rw [pending]
  dsimp only [List.length_cons, List.length_nil]
  omega

end Fuel

end VectorIndex
end Index
end RTDB
