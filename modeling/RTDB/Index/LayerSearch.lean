import RTDB.Index.Reach

/-!
# What a search of a layer keeps

`search_layer` of `index/hnsw.rs` comes to an end on every graph and keeps the best of what it has
visited.  A stored vector that has no distance to the query is passed over, and so is what lies
behind it.
-/

namespace RTDB
namespace Index

open Storage BestFirst

variable {P D : Type}

namespace HNSWIndex

/-- A vector that edges of the layer lead to from the entry, over vectors that have a distance to
the query, as it has. -/
def Reaches (index : HNSWIndex P D) (query : Vector P) (layerIdx : Nat) (entry id : VectorId) :
    Prop :=
  (index.distanceTo query.data entry).isSome ∧
    Reached (index.distanceTo query.data) (fun id => (index.edges layerIdx id).getD []) entry id

/-- Of the visited vectors that have a distance, the nearest `ef`, nearest first. -/
structure KeepsBest [LinearOrder D] (index : HNSWIndex P D) (query : Vector P) (entry : VectorId)
    (ef layerIdx : Nat) (visited : List VectorId) (results : List (ScoredVector P D)) : Prop where
  sorted : results.Pairwise fun a b => a.score ≤ b.score
  nodup : (results.map ScoredVector.id).Nodup
  stored : ∀ r ∈ results, r.id ∈ index.vectors
  score : ∀ r ∈ results, index.distanceTo query.data r.id = some r.score
  reached : ∀ r ∈ results, index.Reaches query layerIdx entry r.id
  distinct : visited.Nodup
  seen : ∀ r ∈ results, r.id ∈ visited
  length : results.length =
    min ef (visited.filter fun id => (index.distanceTo query.data id).isSome).length
  nearest : ∀ id ∈ visited, id ∉ results.map ScoredVector.id →
    ∀ d ∈ index.distanceTo query.data id, ∀ r ∈ results, r.score ≤ d
  all : index.vectors.size ≤ ef → ∀ id, index.Reaches query layerIdx entry id →
    id ∈ results.map ScoredVector.id

variable [LinearOrder D] {index : HNSWIndex P D} {query : Vector P} {entry : VectorId}
  {ef layerIdx : Nat}

omit [LinearOrder D] in
theorem distanceTo_stored {a : List UInt32} {id : VectorId}
    (hdist : (index.distanceTo a id).isSome) : id ∈ index.vectors.keys := by
  rw [Std.TreeMap.mem_keys, Std.TreeMap.mem_iff_isSome_getElem?]
  rw [distanceTo] at hdist
  cases hstored : index.vectors[id]? with
  | none =>
    rw [hstored] at hdist
    exact absurd hdist (by simp)
  | some vector => rfl

omit [LinearOrder D] in
theorem start_none (hnone : index.distanceTo query.data entry = none) :
    start (index.distanceTo query.data) entry = { visited := [], candidates := [], results := [] } := by
  rw [start, hnone]

theorem searchLayer_sound (index : HNSWIndex P D) (query : Vector P) (entry : VectorId)
    (ef layerIdx : Nat) :
    ∃ f, Sound (index.distanceTo query.data) (fun id => (index.edges layerIdx id).getD []) entry f ∧
      (index.searchLayer query entry ef layerIdx).map (fun r => (r.score, r.id)) = f.results := by
  obtain ⟨f, hsound, hsearch⟩ := search_sound (index.distanceTo query.data)
    (fun id => (index.edges layerIdx id).getD []) ef index.vectors.size entry
  refine ⟨f, hsound, ?_⟩
  rw [searchLayer, hsearch, List.map_map]
  exact List.map_id _

theorem searchLayer_sorted (index : HNSWIndex P D) (query : Vector P) (entry : VectorId)
    (ef layerIdx : Nat) :
    (index.searchLayer query entry ef layerIdx).Pairwise fun a b => a.score ≤ b.score := by
  obtain ⟨f, hsound, hresults⟩ := searchLayer_sound index query entry ef layerIdx
  have hsorted := hsound.sorted
  rw [← hresults, List.pairwise_map] at hsorted
  exact hsorted.imp Nearer.fst_le

theorem score_searchLayer {r : ScoredVector P D}
    (hr : r ∈ index.searchLayer query entry ef layerIdx) :
    index.distanceTo query.data r.id = some r.score := by
  obtain ⟨f, hsound, hresults⟩ := searchLayer_sound index query entry ef layerIdx
  have hmem : (r.score, r.id) ∈ f.results := by
    rw [← hresults]
    exact List.mem_map.mpr ⟨r, hr, rfl⟩
  exact (hsound.results _ hmem).1

theorem keepsBest_of_best {f : Frontier VectorId D}
    (hentry : (index.distanceTo query.data entry).isSome ∨ f.results = [])
    (hsound : Sound (index.distanceTo query.data) (fun id => (index.edges layerIdx id).getD [])
      entry f) (hbest : Best (index.distanceTo query.data) ef f)
    (hsearch : BestFirst.search (index.distanceTo query.data)
      (fun id => (index.edges layerIdx id).getD []) ef index.vectors.size entry = f.results) :
    index.KeepsBest query entry ef layerIdx f.visited (index.searchLayer query entry ef layerIdx) := by
  have hids : (index.searchLayer query entry ef layerIdx).map ScoredVector.id =
      f.results.map Prod.snd := by
    rw [ids_searchLayer, hsearch]
  have hresult : ∀ r ∈ index.searchLayer query entry ef layerIdx, (r.score, r.id) ∈ f.results := by
    intro r hr
    rw [searchLayer, hsearch] at hr
    obtain ⟨item, hitem, rfl⟩ := List.mem_map.mp hr
    exact hitem
  refine ⟨searchLayer_sorted index query entry ef layerIdx,
    searchLayer_nodup index query entry ef layerIdx, fun r hr => ?_, fun r hr => score_searchLayer hr,
    fun r hr => ?_, hbest.distinct, fun r hr => hsound.visited _ (hresult r hr), ?_,
    fun id hid hnot d hd r hr => ?_, fun hwide id hreaches => ?_⟩
  · exact (mem_searchLayer (List.mem_map.mpr ⟨r, hr, rfl⟩)).1
  · refine ⟨hentry.resolve_right fun hempty => ?_, (hsound.results _ (hresult r hr)).2⟩
    have hmem := hresult r hr
    rw [hempty] at hmem
    exact List.not_mem_nil hmem
  · rw [searchLayer, hsearch, List.length_map]
    exact hbest.length hsound
  · rw [hids] at hnot
    have hkept := (hbest.kept id hid d hd).resolve_left fun hmem =>
      hnot (List.mem_map.mpr ⟨(d, id), hmem, rfl⟩)
    exact hkept.2 _ (hresult r hr)
  · have hlength : index.vectors.keys.length = index.vectors.size := Std.TreeMap.length_keys
    rw [ids_searchLayer]
    exact (mem_search_wide (fun key hkey => distanceTo_stored hkey) (by omega) (by omega)
      hreaches.1 id).mpr hreaches.2

/-- The loop ends, whatever the graph, with the best of what it has visited. -/
theorem search_layer_keeps_best (index : HNSWIndex P D) (query : Vector P) (entry : VectorId)
    {ef : Nat} (hef : 1 ≤ ef) (layerIdx : Nat) :
    ∃ f, Relation.ReflTransGen
        (Expands (index.distanceTo query.data) (fun id => (index.edges layerIdx id).getD []) ef)
          (start (index.distanceTo query.data) entry) f ∧ Halted ef f ∧
      (index.searchLayer query entry ef layerIdx).map (fun r => (r.score, r.id)) = f.results ∧
      index.KeepsBest query entry ef layerIdx f.visited
        (index.searchLayer query entry ef layerIdx) := by
  have hlength : index.vectors.keys.length = index.vectors.size := Std.TreeMap.length_keys
  obtain ⟨f, hruns, hhalted, hsound, hbest, hsearch⟩ :=
    search_best (fun id => (index.edges layerIdx id).getD []) (fun key hkey => distanceTo_stored hkey)
      hef hlength.le entry
  refine ⟨f, hruns, hhalted, ?_, keepsBest_of_best ?_ hsound hbest hsearch⟩
  · rw [searchLayer, hsearch, List.map_map]
    exact List.map_id _
  · cases hdist : index.distanceTo query.data entry with
    | some d => exact Or.inl rfl
    | none =>
      right
      rw [← hsearch, BestFirst.search, start_none hdist]
      cases index.vectors.size with
      | zero => rfl
      | succ n => rfl

def lone : HNSWIndex Unit Nat :=
  (new HnswConfig.default sampleDistance).add 7 { data := [0x3F800000], payload := none } 0

def three : HNSWIndex Unit Nat :=
  (lone.add 8 { data := [0x40000000], payload := none } 1).add 9 { data := [0], payload := none } 0

/-- The two best are kept, with three nodes on the layer. -/
theorem search_layer_keeps_best_three :
    ∃ f, Relation.ReflTransGen
        (Expands (three.distanceTo [0]) (fun id => (three.edges 0 id).getD []) 2)
          (start (three.distanceTo [0]) 7) f ∧ Halted 2 f ∧
      (three.searchLayer { data := [0], payload := none } 7 2 0).map (fun r => (r.score, r.id)) =
        f.results ∧
      three.KeepsBest { data := [0], payload := none } 7 2 0 f.visited
        (three.searchLayer { data := [0], payload := none } 7 2 0) :=
  search_layer_keeps_best three { data := [0], payload := none } 7 (by decide) 0

/-- A query of two components has no distance to the one vector, which is not found. -/
theorem not_search_layer_all_lone :
    7 ∈ lone.vectors ∧ lone.vectors.size ≤ 1 ∧
      Relation.ReflTransGen (fun a b => b ∈ (lone.edges 0 a).getD []) 7 7 ∧
      lone.searchLayer { data := [0, 0], payload := none } 7 1 0 = [] := by
  refine ⟨by decide +kernel, by decide +kernel, .refl, by decide +kernel⟩

end HNSWIndex

end Index
end RTDB
