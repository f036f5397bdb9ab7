import RTDB.Index.Hnsw
import RTDB.Lib.Runs

/-!
# What a search finds

The bottom layer of an index is linked when every stored vector has a list there
with all the others on it, and every list leads to stored vectors only.  A
search from a stored entry point then finds everything.  The first vector gets
no list, and the entry point is not replaced when it is removed: a run keeps the
index linked as long as neither matters.
-/

namespace RTDB
namespace Index

open Storage BestFirst Runs

variable {P D F : Type}

namespace HNSWIndex

/-! ## Lists of edges -/

theorem getElem?_addReverse (id : VectorId) (edges : Std.TreeMap VectorId (List VectorId))
    (neighbor a : VectorId) :
    (addReverse id edges neighbor)[a]? =
      edges[a]?.map fun list => if a = neighbor ∧ id ∉ list then list ++ [id] else list := by
  rw [addReverse]
  by_cases ha : a = neighbor
  · subst ha
    cases hlist : edges[a]? with
    | none => simp [hlist]
    | some list =>
      by_cases hmem : id ∈ list
      · simp [hmem, hlist]
      · simp [hmem]
  · have hsame : (fun list => if a = neighbor ∧ id ∉ list then list ++ [id] else list) =
        (fun list : List VectorId => list) := by
      funext list
      rw [if_neg fun h => ha h.1]
    rw [hsame, Option.map_id']
    split
    · rfl
    · split
      · rfl
      · rw [Std.TreeMap.getElem?_insert, if_neg]
        rw [Nat.compare_eq_eq]
        exact Ne.symm ha

theorem getElem?_foldl_addReverse (id : VectorId) (neighbors : List VectorId)
    (edges : Std.TreeMap VectorId (List VectorId)) (a : VectorId) :
    (neighbors.foldl (addReverse id) edges)[a]? =
      edges[a]?.map fun list => if a ∈ neighbors ∧ id ∉ list then list ++ [id] else list := by
  induction neighbors generalizing edges with
  | nil => simp
  | cons neighbor neighbors ih =>
    rw [List.foldl_cons, ih, getElem?_addReverse, Option.map_map]
    congr 1
    funext list
    by_cases ha : a = neighbor
    · by_cases hmem : id ∈ list
      · simp [ha, hmem]
      · simp [ha, hmem]
    · simp [ha]

theorem getElem?_connectEdges (layer : Layer) (id : VectorId) (neighbors : List VectorId)
    (a : VectorId) :
    (connectEdges layer id neighbors).edges[a]? =
      if a = id then some neighbors
      else layer.edges[a]?.map fun list =>
        if a ∈ neighbors ∧ id ∉ list then list ++ [id] else list := by
  rw [connectEdges, getElem?_foldl_addReverse, Std.TreeMap.getElem?_insert]
  simp only [Nat.compare_eq_eq]
  by_cases ha : a = id
  · subst ha
    rw [if_pos rfl, if_pos rfl, Option.map_some, if_neg fun h => h.2 h.1]
  · rw [if_neg (Ne.symm ha), if_neg ha]

theorem edgesIn_extendLayers (layers : List Layer) (level layerIdx : Nat) (a : VectorId) :
    edgesIn (extendLayers layers level) layerIdx a = edgesIn layers layerIdx a := by
  rw [edgesIn, edgesIn, extendLayers]
  by_cases hlayer : layerIdx < layers.length
  · rw [List.getElem?_append_left hlayer]
  · rw [List.getElem?_append_right (Nat.le_of_not_lt hlayer), List.getElem?_replicate,
      List.getElem?_eq_none (Nat.le_of_not_lt hlayer)]
    split
    · exact Std.TreeMap.getElem?_emptyc
    · rfl

theorem edgesIn_set (layers : List Layer) (layer : Layer) {k : Nat} (hk : k < layers.length)
    (layerIdx : Nat) (a : VectorId) :
    edgesIn (layers.set k layer) layerIdx a =
      if k = layerIdx then layer.edges[a]? else edgesIn layers layerIdx a := by
  rw [edgesIn, edgesIn, List.getElem?_set]
  split
  · rename_i heq
    subst heq
    rfl
  · rfl

theorem edgesIn_removeEdges (layers : List Layer) (id : VectorId) (layerIdx : Nat) (a : VectorId) :
    edgesIn (layers.map fun layer => removeEdges layer id) layerIdx a =
      if a = id then none
      else (edgesIn layers layerIdx a).map fun list => list.filter fun e => e ≠ id := by
  rw [edgesIn, edgesIn, List.getElem?_map]
  cases layers[layerIdx]? with
  | none => simp
  | some layer =>
    show (removeEdges layer id).edges[a]? = _
    rw [removeEdges, Std.TreeMap.getElem?_map, Std.TreeMap.getElem?_erase]
    simp only [Nat.compare_eq_eq]
    by_cases ha : a = id
    · rw [if_pos ha.symm, if_pos ha]
      rfl
    · rw [if_neg (Ne.symm ha), if_neg ha]
      rfl

/-! ## Searches of a layer -/

section SearchLayer

variable [LinearOrder D] {index : HNSWIndex P D} {dim : Nat}

def Dims (index : HNSWIndex P D) (dim : Nat) : Prop :=
  ∀ (id : VectorId) (vector : Vector P), index.vectors[id]? = some vector → vector.data.length = dim

omit [LinearOrder D] in
theorem distanceTo_isSome (hdims : index.Dims dim) {query : List UInt32}
    (hquery : query.length = dim) (id : VectorId) :
    (index.distanceTo query id).isSome ↔ id ∈ index.vectors := by
  rw [Std.TreeMap.mem_iff_isSome_getElem?, distanceTo]
  cases hstored : index.vectors[id]? with
  | none => simp
  | some vector =>
    have hlength := hdims id vector hstored
    simp [Distance.calculate, hlength, hquery, Except.toOption]

def Within (p : VectorId → Prop) (layers : List Layer) (layerIdx : Nat) : Prop :=
  ∀ a list, edgesIn layers layerIdx a = some list → ∀ b ∈ list, p b

theorem ids_searchLayer (index : HNSWIndex P D) (query : Vector P) (entry : VectorId)
    (ef layerIdx : Nat) :
    (index.searchLayer query entry ef layerIdx).map ScoredVector.id =
      (BestFirst.search (index.distanceTo query.data)
        (fun id => (index.edges layerIdx id).getD []) ef index.vectors.size entry).map Prod.snd := by
  rw [searchLayer, List.map_map]
  rfl

theorem mem_searchLayer {query : Vector P} {entry : VectorId} {ef layerIdx : Nat} {id : VectorId}
    (hid : id ∈ (index.searchLayer query entry ef layerIdx).map ScoredVector.id) :
    id ∈ index.vectors ∧ Reached (index.distanceTo query.data)
      (fun id => (index.edges layerIdx id).getD []) entry id := by
  rw [ids_searchLayer] at hid
  obtain ⟨r, hr, rfl⟩ := List.mem_map.mp hid
  obtain ⟨hdist, hreached⟩ := mem_search hr
  refine ⟨?_, hreached⟩
  rw [Std.TreeMap.mem_iff_isSome_getElem?]
  rw [distanceTo] at hdist
  cases hstored : index.vectors[r.2]? with
  | none =>
    rw [hstored] at hdist
    exact absurd hdist (by simp)
  | some vector => rfl

omit [LinearOrder D] in
theorem within_reached {p : VectorId → Prop} {layerIdx : Nat} {dist : VectorId → Option D}
    (hwithin : Within p index.layers layerIdx) {entry id : VectorId} (hentry : p entry)
    (hreached : Reached dist (fun id => (index.edges layerIdx id).getD []) entry id) : p id := by
  induction hreached with
  | refl => exact hentry
  | tail _ hedge _ =>
    rename_i b c _ _
    have hmem := hedge.1
    cases hlist : index.edges layerIdx b with
    | none =>
      simp only [hlist] at hmem
      exact absurd hmem List.not_mem_nil
    | some list =>
      simp only [hlist] at hmem
      exact hwithin b list hlist c hmem

theorem landing_within {p : VectorId → Prop} {layerIdx ef : Nat}
    (hwithin : Within p index.layers layerIdx) (query : Vector P) {entry : VectorId}
    (hentry : p entry) : p (landing (index.searchLayer query entry ef layerIdx) entry) := by
  refine landing_of_forall (fun r hr => ?_) hentry
  exact within_reached hwithin hentry (mem_searchLayer (List.mem_map.mpr ⟨r, hr, rfl⟩)).2

theorem descend_within (index : HNSWIndex P D) {p : VectorId → Prop} (hwithin : ∀ k, Within p index.layers k)
    (query : Vector P) (layers : List Nat) {entry : VectorId} (hentry : p entry) :
    p (index.descend query entry layers) := by
  induction layers generalizing entry with
  | nil => exact hentry
  | cons k layers ih => exact ih (landing_within (hwithin k) query hentry)

theorem searchLayer_nodup (index : HNSWIndex P D) (query : Vector P) (entry : VectorId)
    (ef layerIdx : Nat) :
    ((index.searchLayer query entry ef layerIdx).map ScoredVector.id).Nodup := by
  rw [ids_searchLayer]
  exact search_nodup _ _ _ _ _

theorem searchLayer_length_le (index : HNSWIndex P D) (query : Vector P) (entry : VectorId)
    (ef layerIdx : Nat) :
    (index.searchLayer query entry ef layerIdx).length ≤ index.vectors.size := by
  have hsub : (index.searchLayer query entry ef layerIdx).map ScoredVector.id ⊆
      index.vectors.keys := fun id hid => Std.TreeMap.mem_keys.mpr (mem_searchLayer hid).1
  have hle := (List.subperm_of_subset (searchLayer_nodup index query entry ef layerIdx) hsub).length_le
  rwa [List.length_map, Std.TreeMap.length_keys] at hle

/-- A search of a layer with room for everything. -/
theorem mem_searchLayer_wide (hdims : index.Dims dim) {query : Vector P}
    (hquery : query.data.length = dim) {entry : VectorId} (hentry : entry ∈ index.vectors)
    {ef : Nat} (hef : index.vectors.size ≤ ef) (layerIdx : Nat) (id : VectorId) :
    id ∈ (index.searchLayer query entry ef layerIdx).map ScoredVector.id ↔
      Reached (index.distanceTo query.data) (fun id => (index.edges layerIdx id).getD [])
        entry id := by
  rw [ids_searchLayer]
  have hkeys : ∀ key, (index.distanceTo query.data key).isSome → key ∈ index.vectors.keys :=
    fun key hkey => Std.TreeMap.mem_keys.mpr ((distanceTo_isSome hdims hquery key).mp hkey)
  have hlength : index.vectors.keys.length = index.vectors.size := Std.TreeMap.length_keys
  exact mem_search_wide hkeys (by omega) (by omega)
    ((distanceTo_isSome hdims hquery entry).mpr hentry) id

end SearchLayer

/-! ## Linked indexes -/

structure Linked (index : HNSWIndex P D) (dim : Nat) : Prop where
  dims : index.Dims dim
  entry : ∀ id ∈ index.vectors, ∃ entry ∈ index.vectors, index.entryPoint = some entry
  closed : ∀ k, Within (· ∈ index.vectors) index.layers k
  complete : ∀ a ∈ index.vectors, ∀ b ∈ index.vectors, a ≠ b →
    ∃ list, index.edges 0 a = some list ∧ b ∈ list

theorem linked_new (config : HnswConfig) (distance : Distance D) (dim : Nat) :
    (new config distance : HNSWIndex P D).Linked dim where
  dims id vector hstored := by
    rw [new, Std.TreeMap.getElem?_emptyc] at hstored
    exact absurd hstored (by simp)
  entry id hid := absurd hid Std.TreeMap.not_mem_emptyc
  closed k a list hlist := absurd hlist (by simp [new, edgesIn])
  complete a ha := absurd ha Std.TreeMap.not_mem_emptyc

section Search

variable [LinearOrder D] {index : HNSWIndex P D} {dim : Nat}

omit [LinearOrder D] in
theorem Linked.reached (hlinked : index.Linked dim) {query : Vector P}
    (hquery : query.data.length = dim) {a b : VectorId} (ha : a ∈ index.vectors)
    (hb : b ∈ index.vectors) :
    Reached (index.distanceTo query.data) (fun id => (index.edges 0 id).getD []) a b := by
  by_cases hab : a = b
  · subst hab
    exact .refl
  · obtain ⟨list, hlist, hmem⟩ := hlinked.complete a ha b hb hab
    refine .single ⟨?_, (distanceTo_isSome hlinked.dims hquery b).mpr hb⟩
    simp only [hlist]
    exact hmem

theorem Linked.search (hlinked : index.Linked dim) {request : SearchRequest F}
    (hdim : request.vector.length = dim) (hlimit : index.vectors.size ≤ request.limit) :
    ((index.search request).map ScoredVector.id).Perm index.vectors.keys := by
  rw [HNSWIndex.search]
  cases hentry : index.entryPoint with
  | none =>
    have hempty : index.vectors.keys = [] := by
      refine List.eq_nil_iff_forall_not_mem.mpr fun id hid => ?_
      obtain ⟨entry, -, hsome⟩ := hlinked.entry id (Std.TreeMap.mem_keys.mp hid)
      rw [hentry] at hsome
      exact absurd hsome (by simp)
    rw [hempty]
    exact List.Perm.refl _
  | some entry =>
    dsimp only
    rw [List.take_of_length_le ((searchLayer_length_le _ _ _ _ _).trans hlimit)]
    refine (List.perm_ext_iff_of_nodup (searchLayer_nodup _ _ _ _ _) ?_).mpr fun id => ?_
    · exact Std.TreeMap.nodup_keys
    · rw [Std.TreeMap.mem_keys]
      constructor
      · intro hid
        exact (mem_searchLayer hid).1
      · intro hid
        obtain ⟨entry', hstored, hsome⟩ := hlinked.entry id hid
        obtain rfl : entry = entry' := Option.some.inj (hentry.symm.trans hsome)
        have hlands : index.descend { data := request.vector, payload := none } entry
            (List.range' 1 (index.layers.length - 1)).reverse ∈ index.vectors :=
          descend_within index hlinked.closed _ _ hstored
        exact (mem_searchLayer_wide hlinked.dims hdim hlands
          (hlimit.trans (Nat.le_max_right _ _)) 0 id).mpr (hlinked.reached hdim hlands hid)

end Search

/-! ## Adding -/

section Connect

variable [LinearOrder D] {index : HNSWIndex P D} {id : VectorId} {vector : Vector P}

def chosen (vector : Vector P) (s : HNSWIndex P D × VectorId) (k : Nat) : List VectorId :=
  selectNeighbors
    (s.1.searchLayer vector s.2 (if k = 0 then s.1.config.efConstruct else s.1.config.m) k)
    s.1.config.m

theorem chosen_stored {s : HNSWIndex P D × VectorId} {k : Nat} {a : VectorId}
    (ha : a ∈ chosen vector s k) : a ∈ s.1.vectors := by
  rw [chosen, selectNeighbors] at ha
  exact (mem_searchLayer ((List.take_sublist _ _).map ScoredVector.id |>.subset ha)).1

theorem edgesIn_connectLayer (id : VectorId) (vector : Vector P) (s : HNSWIndex P D × VectorId)
    {k : Nat} (hk : k < s.1.layers.length) (layerIdx : Nat) (a : VectorId) :
    edgesIn (connectLayer id vector s k).1.layers layerIdx a =
      if k = layerIdx then
        if a = id then some (chosen vector s k)
        else (edgesIn s.1.layers k a).map fun list =>
          if a ∈ chosen vector s k ∧ id ∉ list then list ++ [id] else list
      else edgesIn s.1.layers layerIdx a := by
  have hlayer : s.1.layers[k]? = some s.1.layers[k] := List.getElem?_eq_getElem hk
  rw [connectLayer]
  dsimp only
  have hold : edgesIn s.1.layers k a = s.1.layers[k].edges[a]? := by
    rw [edgesIn, hlayer]
    rfl
  rw [hlayer, edgesIn_set _ _ hk, getElem?_connectEdges, hold]
  rfl

/-- The state of the loop over the layers before the rounds `ks`: those layers
are as they were, and the current entry has the property. -/
structure Round (index : HNSWIndex P D) (p : VectorId → Prop) (ks : List Nat)
    (s : HNSWIndex P D × VectorId) : Prop where
  frame : ∃ layers, s.1 = { index with layers } ∧ layers.length = index.layers.length
  closed : ∀ k, Within (· ∈ index.vectors) s.1.layers k
  fresh : ∀ k ∈ ks, ∀ a, edgesIn s.1.layers k a = edgesIn index.layers k a
  lands : p s.2

omit [LinearOrder D] in
theorem Round.frame_vectors {p : VectorId → Prop} {ks : List Nat} {s : HNSWIndex P D × VectorId}
    (hs : Round index p ks s) :
    s.1.vectors = index.vectors ∧ s.1.config = index.config ∧
      s.1.layers.length = index.layers.length := by
  obtain ⟨layers, hframe, hlength⟩ := hs.frame
  rw [hframe]
  exact ⟨rfl, rfl, hlength⟩

theorem Round.closed_connect {p : VectorId → Prop} {ks : List Nat}
    {s : HNSWIndex P D × VectorId} (hs : Round index p ks s) (hid : id ∈ index.vectors) {k : Nat}
    (hk : k < index.layers.length) (layerIdx : Nat) :
    Within (· ∈ index.vectors) (connectLayer id vector s k).1.layers layerIdx := by
  obtain ⟨hvectors, -, hlength⟩ := hs.frame_vectors
  intro a list hlist b hb
  rw [edgesIn_connectLayer id vector s (by omega)] at hlist
  split at hlist
  · split at hlist
    · obtain rfl := Option.some.inj hlist
      rw [← hvectors]
      exact chosen_stored hb
    · obtain ⟨old, hold, rfl⟩ := Option.map_eq_some_iff.mp hlist
      split at hb
      · rcases List.mem_append.mp hb with hb | hb
        · exact hs.closed k a old hold b hb
        · rw [List.mem_singleton.mp hb]
          exact hid
      · exact hs.closed k a old hold b hb
  · exact hs.closed layerIdx a list hlist b hb

theorem Round.step {p : VectorId → Prop} (hp : ∀ k, Within p index.layers k)
    (hid : id ∈ index.vectors) {k : Nat} {ks : List Nat} (hk : k < index.layers.length)
    (hnew : k ∉ ks) {s : HNSWIndex P D × VectorId} (hs : Round index p (k :: ks) s) :
    Round index p ks (connectLayer id vector s k) := by
  obtain ⟨-, -, hlength⟩ := hs.frame_vectors
  refine ⟨?_, hs.closed_connect hid hk, fun k' hk' a => ?_, ?_⟩
  · obtain ⟨layers, hframe, hlayers⟩ := hs.frame
    obtain ⟨layers', hconnect, hlayers'⟩ := connectLayer_frame id vector s k
    refine ⟨layers', ?_, hlayers'.trans hlength⟩
    rw [hconnect, hframe]
  · rw [edgesIn_connectLayer id vector s (by omega), if_neg]
    · exact hs.fresh k' (List.mem_cons_of_mem k hk') a
    · rintro rfl
      exact hnew hk'
  · have hwithin : Within p s.1.layers k := by
      intro a list hlist
      rw [hs.fresh k List.mem_cons_self a] at hlist
      exact hp k a list hlist
    exact landing_within hwithin vector hs.lands

theorem Round.steps (vector : Vector P) {p : VectorId → Prop} (hp : ∀ k, Within p index.layers k)
    (hid : id ∈ index.vectors) (ks rest : List Nat) (hks : ∀ k ∈ ks, k < index.layers.length)
    (hnodup : (ks ++ rest).Nodup) {s : HNSWIndex P D × VectorId}
    (hs : Round index p (ks ++ rest) s) :
    Round index p rest (ks.foldl (connectLayer id vector) s) := by
  induction ks generalizing s with
  | nil => exact hs
  | cons k ks ih =>
    rw [List.cons_append, List.nodup_cons] at hnodup
    exact ih (fun k' hk' => hks k' (List.mem_cons_of_mem k hk')) hnodup.2
      (hs.step hp hid (hks k List.mem_cons_self) hnodup.1)

/-- The round of the bottom layer, with room for everything: where every vector
but the new one has a list of all the others, so do all. -/
theorem Round.complete {dim : Nat} (stored : VectorId → Prop)
    (hstored : ∀ a, a ∈ index.vectors ↔ a = id ∨ stored a)
    {s : HNSWIndex P D × VectorId}
    (hs : Round index (fun a => (∃ b, stored b) → stored a) [0] s)
    (hlayers : 0 < index.layers.length) (hdims : index.Dims dim) (hvector : vector.data.length = dim)
    (hm : index.vectors.size ≤ index.config.m)
    (hef : index.vectors.size ≤ index.config.efConstruct)
    (hkeyed : ∀ a, stored a → a ≠ id → (index.edges 0 a).isSome)
    (hcomplete : ∀ a, stored a → ∀ b, stored b → a ≠ b → ∃ list, index.edges 0 a = some list ∧ b ∈ list)
    {a b : VectorId} (ha : a ∈ index.vectors) (hb : b ∈ index.vectors) (hab : a ≠ b) :
    ∃ list, edgesIn (connectLayer id vector s 0).1.layers 0 a = some list ∧ b ∈ list := by
  obtain ⟨hvectors, hconfig, hlength⟩ := hs.frame_vectors
  have hfresh : ∀ a, s.1.edges 0 a = index.edges 0 a := hs.fresh 0 List.mem_cons_self
  have hsdims : s.1.Dims dim := by
    intro a v hv
    rw [hvectors] at hv
    exact hdims a v hv
  have hall : ∀ c, stored c → c ∈ chosen vector s 0 := by
    intro c hc
    have hcurrent : stored s.2 := hs.lands ⟨c, hc⟩
    have hmem : s.2 ∈ s.1.vectors := by
      rw [hvectors]
      exact (hstored s.2).mpr (Or.inr hcurrent)
    have hreached : Reached (s.1.distanceTo vector.data) (fun id => (s.1.edges 0 id).getD [])
        s.2 c := by
      by_cases hsame : s.2 = c
      · rw [hsame]
        exact .refl
      · obtain ⟨list, hlist, hc'⟩ := hcomplete s.2 hcurrent c hc hsame
        refine .single ⟨?_, (distanceTo_isSome hsdims hvector c).mpr ?_⟩
        · simp only [hfresh, hlist]
          exact hc'
        · rw [hvectors]
          exact (hstored c).mpr (Or.inr hc)
    have hwide : s.1.vectors.size ≤ s.1.config.efConstruct := by
      rw [hvectors, hconfig]
      exact hef
    have hfound := (mem_searchLayer_wide hsdims hvector hmem hwide 0 c).mpr hreached
    have hle := searchLayer_length_le s.1 vector s.2 s.1.config.efConstruct 0
    rw [hvectors] at hle
    rw [chosen, if_pos rfl, selectNeighbors, List.take_of_length_le]
    · exact hfound
    · rw [hconfig] at hle ⊢
      exact hle.trans hm
  rw [edgesIn_connectLayer id vector s (by omega), if_pos rfl]
  by_cases haid : a = id
  · rw [if_pos haid]
    have hbstored : stored b := ((hstored b).mp hb).resolve_left fun hbid => hab (haid.trans hbid.symm)
    exact ⟨_, rfl, hall b hbstored⟩
  · have hastored : stored a := ((hstored a).mp ha).resolve_left haid
    rw [if_neg haid]
    obtain ⟨list, hlist⟩ := Option.isSome_iff_exists.mp (hkeyed a hastored haid)
    have hold : edgesIn s.1.layers 0 a = some list := (hfresh a).trans hlist
    rw [hold, Option.map_some]
    refine ⟨_, rfl, ?_⟩
    by_cases hbid : b = id
    · subst hbid
      by_cases hmem : b ∈ list
      · rw [if_neg fun h => h.2 hmem]
        exact hmem
      · rw [if_pos ⟨hall a hastored, hmem⟩]
        exact List.mem_append_right _ List.mem_cons_self
    · have hbstored : stored b := ((hstored b).mp hb).resolve_left hbid
      obtain ⟨list', hlist', hmem⟩ := hcomplete a hastored b hbstored hab
      obtain rfl : list = list' := Option.some.inj (hlist.symm.trans hlist')
      split
      · exact List.mem_append_left _ hmem
      · exact hmem

end Connect

/-! ## Runs -/

inductive IndexStep (P : Type) where
  | add (id : VectorId) (vector : Vector P) (level : Nat)
  | remove (id : VectorId)

def apply [LinearOrder D] (index : HNSWIndex P D) : IndexStep P → HNSWIndex P D
  | .add id vector level => index.add id vector level
  | .remove id => index.remove id

def run [LinearOrder D] (config : HnswConfig) (distance : Distance D) (steps : List (IndexStep P)) :
    HNSWIndex P D :=
  steps.foldl apply (new config distance)

/-- The condition on the state before a step.  An addition needs room, finds
every other vector with a list on the bottom layer, and leaves a stored entry
point; a removal takes the entry point last. -/
def Keeps (index : HNSWIndex P D) (dim : Nat) : IndexStep P → Prop
  | .add id vector level =>
    vector.data.length = dim ∧
      (index.vectors.insert id vector).size ≤ min index.config.m index.config.efConstruct ∧
      (∀ other ∈ index.vectors.keys, other ≠ id → (index.edges 0 other).isSome) ∧
      ∀ entry ∈ index.entryPoint,
        entry ∈ index.vectors ∨ entry = id ∨ index.maxLayer < level
  | .remove id => index.entryPoint = some id → ∀ other ∈ index.vectors.keys, other = id

instance (index : HNSWIndex P D) (dim : Nat) (step : IndexStep P) :
    Decidable (index.Keeps dim step) :=
  match step with
  | .add _ _ _ => inferInstanceAs (Decidable (_ ∧ _ ∧ _ ∧ _))
  | .remove _ => inferInstanceAs (Decidable (_ → _))

section Run

variable [LinearOrder D] {index : HNSWIndex P D} {dim : Nat}

omit [LinearOrder D] in
theorem mem_insert_vectors {id a : VectorId} {vector : Vector P} :
    a ∈ index.vectors.insert id vector ↔ a = id ∨ a ∈ index.vectors := by
  rw [Std.TreeMap.mem_insert, Nat.compare_eq_eq, eq_comm]

omit [LinearOrder D] in
theorem dims_insert (hdims : index.Dims dim) (id : VectorId) {vector : Vector P}
    (hvector : vector.data.length = dim) (a : VectorId) (v : Vector P)
    (hv : (index.vectors.insert id vector)[a]? = some v) : v.data.length = dim := by
  rw [Std.TreeMap.getElem?_insert] at hv
  split at hv
  · rw [← Option.some.inj hv]
    exact hvector
  · exact hdims a v hv

theorem add_none {id : VectorId} {vector : Vector P} {level : Nat}
    (hentry : index.entryPoint = none) :
    index.add id vector level =
      ({ index.grow id vector level with entryPoint := some id } : HNSWIndex P D).promote
        id level := by
  have hgrow : (index.grow id vector level).entryPoint = none := hentry
  rw [HNSWIndex.add]
  simp only [hgrow]

theorem add_some {id : VectorId} {vector : Vector P} {level : Nat} {entry : VectorId}
    (hentry : index.entryPoint = some entry) :
    index.add id vector level =
      ((index.grow id vector level).connect id vector level entry).promote id level := by
  have hgrow : (index.grow id vector level).entryPoint = some entry := hentry
  rw [HNSWIndex.add]
  simp only [hgrow]

omit [LinearOrder D] in
theorem promote_entryPoint (id : VectorId) (level : Nat) :
    (index.promote id level).entryPoint =
      if level > index.maxLayer then some id else index.entryPoint := by
  rw [promote]
  split <;> rfl

omit [LinearOrder D] in
theorem Linked.within_grow (hlinked : index.Linked dim) (id : VectorId) (vector : Vector P)
    (level k : Nat) : Within (· ∈ index.vectors) (index.grow id vector level).layers k := by
  intro a list hlist
  rw [grow, edgesIn_extendLayers] at hlist
  exact hlinked.closed k a list hlist

theorem Linked.connect (hlinked : index.Linked dim) {id : VectorId} {vector : Vector P}
    {level : Nat} (hkeeps : index.Keeps dim (.add id vector level)) {entry : VectorId}
    (hentry : index.entryPoint = some entry) :
    (∀ k, Within (· ∈ index.vectors.insert id vector)
        ((index.grow id vector level).connect id vector level entry).layers k) ∧
      ∀ a ∈ index.vectors.insert id vector, ∀ b ∈ index.vectors.insert id vector, a ≠ b →
        ∃ list, edgesIn ((index.grow id vector level).connect id vector level entry).layers 0 a =
          some list ∧ b ∈ list := by
  obtain ⟨hvector, hroom, hkeyed, -⟩ := hkeeps
  have hid : id ∈ (index.grow id vector level).vectors := mem_insert_vectors.mpr (Or.inl rfl)
  have hlength : level < (index.grow id vector level).layers.length := by
    rw [grow, extendLayers, List.length_append, List.length_replicate]
    omega
  -- The current entry is stored before, if anything is.
  have hp : ∀ k, Within (fun a => (∃ b, b ∈ index.vectors) → a ∈ index.vectors)
      (index.grow id vector level).layers k :=
    fun k a list hlist b hb _ => hlinked.within_grow id vector level k a list hlist b hb
  have hfirst : (∃ b, b ∈ index.vectors) → entry ∈ index.vectors := by
    rintro ⟨b, hb⟩
    obtain ⟨entry', hstored, hsome⟩ := hlinked.entry b hb
    rwa [Option.some.inj (hentry.symm.trans hsome)]
  have hrounds :
      (List.range (min level ((index.grow id vector level).layers.length - 1) + 1)).reverse =
        ((List.range level).map Nat.succ).reverse ++ [0] := by
    rw [Nat.min_eq_left (by omega), List.range_succ_eq_map, List.reverse_cons]
  have hnodup : (((List.range level).map Nat.succ).reverse ++ [0]).Nodup := by
    rw [← List.reverse_cons, ← List.range_succ_eq_map, List.nodup_reverse]
    exact List.nodup_range
  have hlayer : ∀ k ∈ ((List.range level).map Nat.succ).reverse ++ [0],
      k < (index.grow id vector level).layers.length := by
    intro k hk
    rw [← List.reverse_cons, ← List.range_succ_eq_map, List.mem_reverse, List.mem_range] at hk
    omega
  rw [HNSWIndex.connect, hrounds, List.foldl_append, List.foldl_cons, List.foldl_nil]
  have hcurrent := descend_within (index.grow id vector level) hp vector
    (List.range' (level + 1) ((index.grow id vector level).layers.length - (level + 1))).reverse
    hfirst
  generalize (index.grow id vector level).descend vector entry _ = current at hcurrent ⊢
  have hstart : Round (index.grow id vector level)
      (fun a => (∃ b, b ∈ index.vectors) → a ∈ index.vectors)
      (((List.range level).map Nat.succ).reverse ++ [0]) (index.grow id vector level, current) := by
    refine ⟨⟨_, rfl, rfl⟩, fun k a list hlist b hb => ?_, fun _ _ _ => rfl, hcurrent⟩
    exact mem_insert_vectors.mpr
      (Or.inr (hlinked.within_grow id vector level k a list hlist b hb))
  have hupper := hstart.steps vector hp hid _ [0]
    (fun k hk => hlayer k (List.mem_append_left _ hk)) hnodup
  refine ⟨hupper.closed_connect hid (by omega), fun a ha b hb hab => ?_⟩
  have hedges : ∀ a, (index.grow id vector level).edges 0 a = index.edges 0 a :=
    fun a => edgesIn_extendLayers index.layers level 0 a
  refine hupper.complete (· ∈ index.vectors) (fun a => mem_insert_vectors) (by omega)
    (dims_insert hlinked.dims id hvector) hvector (hroom.trans (Nat.min_le_left _ _))
    (hroom.trans (Nat.min_le_right _ _)) (fun a ha hne => ?_) (fun a ha b hb hab => ?_) ha hb hab
  · rw [hedges]
    exact hkeyed a (Std.TreeMap.mem_keys.mpr ha) hne
  · rw [hedges]
    exact hlinked.complete a ha b hb hab

theorem Linked.add (hlinked : index.Linked dim) {id : VectorId} {vector : Vector P} {level : Nat}
    (hkeeps : index.Keeps dim (.add id vector level)) : (index.add id vector level).Linked dim := by
  have hdims := dims_insert hlinked.dims id hkeeps.1
  have hid : id ∈ index.vectors.insert id vector := mem_insert_vectors.mpr (Or.inl rfl)
  cases hentry : index.entryPoint with
  | none =>
    have hempty : ∀ a, a ∉ index.vectors := by
      intro a ha
      obtain ⟨entry, -, hsome⟩ := hlinked.entry a ha
      rw [hentry] at hsome
      exact absurd hsome (by simp)
    rw [add_none hentry]
    refine ⟨?_, fun _ _ => ⟨id, ?_, ?_⟩, fun k a list hlist b hb => ?_, fun a ha b hb hab => ?_⟩
    · rw [Dims, promote_vectors]
      exact hdims
    · rw [promote_vectors]
      exact hid
    · rw [promote_entryPoint]
      split <;> rfl
    · rw [promote_layers] at hlist
      exact absurd (hlinked.within_grow id vector level k a list hlist b hb) (hempty b)
    · rw [promote_vectors] at ha hb
      have haid := (mem_insert_vectors.mp ha).resolve_right (hempty a)
      have hbid := (mem_insert_vectors.mp hb).resolve_right (hempty b)
      exact absurd (haid.trans hbid.symm) hab
  | some entry =>
    obtain ⟨hclosed, hcomplete⟩ := hlinked.connect hkeeps hentry
    obtain ⟨layers, hconnect, -⟩ := connect_frame (index.grow id vector level) id vector level entry
    rw [add_some hentry]
    have hvectors : (((index.grow id vector level).connect id vector level entry).promote
        id level).vectors = index.vectors.insert id vector := by
      rw [promote_vectors, hconnect]
      rfl
    refine ⟨?_, fun a _ => ?_, fun k => ?_, ?_⟩
    · rw [Dims, hvectors]
      exact hdims
    · rw [hvectors, promote_entryPoint]
      split
      · exact ⟨id, hid, rfl⟩
      · rename_i hlevel
        rw [hconnect] at hlevel ⊢
        refine ⟨entry, mem_insert_vectors.mpr ?_, hentry⟩
        rcases hkeeps.2.2.2 entry hentry with hstored | hsame | hpromoted
        · exact Or.inr hstored
        · exact Or.inl hsame
        · exact absurd hpromoted hlevel
    · rw [promote_layers, hvectors]
      exact hclosed k
    · rw [hvectors]
      simp only [edges, promote_layers]
      exact hcomplete

omit [LinearOrder D] in
theorem Linked.remove (hlinked : index.Linked dim) {id : VectorId}
    (hkeeps : index.Keeps dim (.remove id)) : (index.remove id).Linked dim := by
  have hmem : ∀ a, a ∈ (index.remove id).vectors ↔ a ≠ id ∧ a ∈ index.vectors := by
    intro a
    rw [remove_vectors, Std.TreeMap.mem_erase, Ne, Nat.compare_eq_eq, eq_comm]
  refine ⟨fun a v hv => ?_, fun a ha => ?_, fun k a list hlist b hb => ?_, fun a ha b hb hab => ?_⟩
  · rw [remove_vectors, Std.TreeMap.getElem?_erase] at hv
    split at hv
    · exact absurd hv (by simp)
    · exact hlinked.dims a v hv
  · obtain ⟨hne, hstored⟩ := (hmem a).mp ha
    obtain ⟨entry, hentry, hsome⟩ := hlinked.entry a hstored
    refine ⟨entry, (hmem entry).mpr ⟨?_, hentry⟩, hsome⟩
    rintro rfl
    exact hne (hkeeps hsome a (Std.TreeMap.mem_keys.mpr hstored))
  · rw [HNSWIndex.remove, edgesIn_removeEdges] at hlist
    split at hlist
    · exact absurd hlist (by simp)
    · obtain ⟨old, hold, rfl⟩ := Option.map_eq_some_iff.mp hlist
      obtain ⟨hbold, hbid⟩ := List.mem_filter.mp hb
      exact (hmem b).mpr ⟨by simpa using hbid, hlinked.closed k a old hold b hbold⟩
  · obtain ⟨haid, hastored⟩ := (hmem a).mp ha
    obtain ⟨hbid, hbstored⟩ := (hmem b).mp hb
    obtain ⟨list, hlist, hmemb⟩ := hlinked.complete a hastored b hbstored hab
    refine ⟨list.filter fun e => e ≠ id, ?_, List.mem_filter.mpr ⟨hmemb, by simpa using hbid⟩⟩
    have hold : edgesIn index.layers 0 a = some list := hlist
    rw [edges, HNSWIndex.remove, edgesIn_removeEdges, if_neg haid, hold]
    rfl

theorem Linked.apply (hlinked : index.Linked dim) {step : IndexStep P}
    (hkeeps : index.Keeps dim step) : (index.apply step).Linked dim := by
  cases step with
  | add id vector level => exact hlinked.add hkeeps
  | remove id => exact hlinked.remove hkeeps

theorem linked_run (config : HnswConfig) (distance : Distance D) (dim : Nat)
    (steps : List (IndexStep P))
    (hkeeps : ∀ before step after, steps = before ++ step :: after →
      (run config distance before).Keeps dim step) : (run config distance steps).Linked dim := by
  have heach : Each apply (fun index step => index.Keeps dim step) (new config distance) steps :=
    hkeeps
  exact Each.foldl (Q := fun index : HNSWIndex P D => index.Linked dim)
    (fun _ _ hlinked hstep => hlinked.apply hstep) (linked_new config distance dim) heach

end Run

/-- After every run whose steps keep the index linked, a search for as many
vectors as are stored returns them all. -/
theorem search_returns_all [LinearOrder D] (config : HnswConfig) (distance : Distance D) (dim : Nat)
    (steps : List (IndexStep P))
    (hkeeps : ∀ before step after, steps = before ++ step :: after →
      (run config distance before).Keeps dim step)
    (request : SearchRequest F) (hdim : request.vector.length = dim)
    (hlimit : (run config distance steps).vectors.size ≤ request.limit) :
    (((run config distance steps).search request).map ScoredVector.id).Perm
      (run config distance steps).vectors.keys :=
  (linked_run config distance dim steps hkeeps).search hdim hlimit

/-- The first vector is added again before the second one comes. -/
def addedTwice : List (IndexStep Unit) :=
  [ .add 1 { data := [0], payload := none } 0,
    .add 1 { data := [0], payload := none } 0,
    .add 2 { data := [0x3F800000], payload := none } 1 ]

theorem addedTwice_keeps (before : List (IndexStep Unit)) (step : IndexStep Unit)
    (after : List (IndexStep Unit)) (hsteps : addedTwice = before ++ step :: after) :
    (run HnswConfig.default sampleDistance before).Keeps 1 step := by
  rcases before with _ | ⟨_, _ | ⟨_, _ | ⟨_, _ | _⟩⟩⟩
  all_goals
    simp only [addedTwice, List.nil_append, List.cons_append, List.cons.injEq, List.nil_eq,
      reduceCtorEq, and_false] at hsteps
  · obtain ⟨rfl, -⟩ := hsteps
    decide +kernel
  · obtain ⟨rfl, rfl, -⟩ := hsteps
    decide +kernel
  · obtain ⟨rfl, rfl, rfl, -⟩ := hsteps
    decide +kernel

theorem search_returns_all_addedTwice :
    (((run HnswConfig.default sampleDistance addedTwice).search
        (SearchRequest.new [0] 2 : SearchRequest Unit)).map ScoredVector.id).Perm
      (run HnswConfig.default sampleDistance addedTwice).vectors.keys :=
  search_returns_all HnswConfig.default sampleDistance 1 addedTwice addedTwice_keeps _ rfl
    (by decide +kernel)

/-- Two vectors are added, each at level 0, and the search finds the first. -/
theorem not_search_returns_all_added :
    ¬ (((run HnswConfig.default sampleDistance
        [.add 1 { data := [0], payload := (none : Option Unit) } 0,
          .add 2 { data := [0x3F800000], payload := none } 0]).search
        (SearchRequest.new [0] 2 : SearchRequest Unit)).map ScoredVector.id).Perm
      (run HnswConfig.default sampleDistance
        [.add 1 { data := [0], payload := (none : Option Unit) } 0,
          .add 2 { data := [0x3F800000], payload := none } 0]).vectors.keys := by
  decide +kernel

end HNSWIndex

end Index
end RTDB
