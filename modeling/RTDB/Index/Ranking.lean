import Mathlib.Algebra.Group.Int.Defs
import RTDB.Index.HnswOptimized
import RTDB.Index.LayerSearch
import RTDB.Lib.TopK

/-!
# The order of results under a metric

Both HNSW indexes put the smallest distance first.  That is the best under each metric but the inner
product; and the optimized index takes the Euclidean distance, whatever metric it was made for.
-/

namespace RTDB
namespace Index

open Storage BestFirst TopK

variable {P D F : Type} [LinearOrder D]

def Metric.distance (floats : Floats D) (metric : Metric) : Distance D :=
  { score := floats.value metric }

def Metric.AtLeast (metric : Metric) (a b : D) : Prop :=
  match metric with
  | .dot => b ≤ a
  | _ => a ≤ b

instance (metric : Metric) (a b : D) : Decidable (metric.AtLeast a b) :=
  match metric with
  | .dot => inferInstanceAs (Decidable (b ≤ a))
  | .euclidean | .cosine | .manhattan => inferInstanceAs (Decidable (a ≤ b))

def dataOf (vectors : Std.TreeMap VectorId (Vector P)) (id : VectorId) : List UInt32 :=
  (vectors[id]?.map Vector.data).getD []

def Metric.BestMatches (metric : Metric) (floats : Floats D) (query : List UInt32) (limit : Nat)
    (vectors : Std.TreeMap VectorId (Vector P)) (ids : List VectorId) : Prop :=
  match metric with
  | .dot => Nearest (fun id => OrderDual.toDual (floats.value .dot query (dataOf vectors id))) limit
      vectors.keys.toFinset ids
  | metric => Nearest (fun id => floats.value metric query (dataOf vectors id)) limit
      vectors.keys.toFinset ids

/-- The stored vectors have the dimension of the query, and edges lead from each to every other. -/
structure Connected (vectors : Std.TreeMap VectorId (Vector P))
    (neighbors : VectorId → List VectorId) (entryPoint : Option VectorId) (query : List UInt32) :
    Prop where
  dims : ∀ (id : VectorId) (v : Vector P), vectors[id]? = some v → v.data.length = query.length
  entry : ∀ id ∈ vectors, ∃ entry ∈ vectors, entryPoint = some entry
  linked : ∀ a ∈ vectors, ∀ b ∈ vectors,
    Relation.ReflTransGen (fun a b => b ∈ neighbors a ∧ b ∈ vectors) a b

variable {vectors : Std.TreeMap VectorId (Vector P)} {neighbors : VectorId → List VectorId}
  {entryPoint : Option VectorId} {query : List UInt32} {floats : Floats D} {metric : Metric}
  {limit : Nat}

omit [LinearOrder D] in
theorem Connected.reached {dist : VectorId → Option D}
    (hconnected : Connected vectors neighbors entryPoint query)
    (hdist : ∀ id, (dist id).isSome ↔ id ∈ vectors) {a b : VectorId} (ha : a ∈ vectors)
    (hb : b ∈ vectors) : Reached dist neighbors a b :=
  (hconnected.linked a ha b hb).lift id fun _ c hedge => ⟨hedge.1, (hdist c).mpr hedge.2⟩

omit [LinearOrder D] in
/-- When anything is stored, the entry point is. -/
theorem Connected.stored (hconnected : Connected vectors neighbors entryPoint query)
    {entry id : VectorId} (hentry : entryPoint = some entry) (hid : id ∈ vectors) :
    entry ∈ vectors := by
  obtain ⟨entry', hstored, hsome⟩ := hconnected.entry id hid
  rwa [Option.some.inj (hentry.symm.trans hsome)]

omit [LinearOrder D] in
/-- An index in which each vector has an edge to every other. -/
theorem connected_of_keys
    (hdims : ∀ id ∈ vectors.keys, ∀ v ∈ vectors[id]?, v.data.length = query.length)
    (hentry : ∃ entry ∈ vectors.keys, entryPoint = some entry)
    (hlinked : ∀ a ∈ vectors.keys, ∀ b ∈ vectors.keys, a = b ∨ b ∈ neighbors a) :
    Connected vectors neighbors entryPoint query where
  dims id v hv := by
    refine hdims id (Std.TreeMap.mem_keys.mpr ?_) v hv
    rw [Std.TreeMap.mem_iff_isSome_getElem?, hv]
    rfl
  entry _ _ := by
    obtain ⟨entry, hkey, hentry⟩ := hentry
    exact ⟨entry, Std.TreeMap.mem_keys.mp hkey, hentry⟩
  linked a ha b hb := by
    rcases hlinked a (Std.TreeMap.mem_keys.mpr ha) b (Std.TreeMap.mem_keys.mpr hb) with rfl | hedge
    · exact .refl
    · exact .single ⟨hedge, hb⟩

theorem mem_keys_toFinset {id : VectorId} : id ∈ vectors.keys.toFinset ↔ id ∈ vectors :=
  List.mem_toFinset.trans Std.TreeMap.mem_keys

/-- A sort by a score has the best in front, in whatever order the list was, when each of a pair
that can come first is at least as good as the other. -/
theorem Metric.bestMatches_by_score_iff {S : Type} [LinearOrder S] {score : VectorId → S} :
    (∀ l : List VectorId, l.Nodup → (∀ id, id ∈ l ↔ id ∈ vectors.keys.toFinset) →
        metric.BestMatches floats query limit vectors ((farthestFirst score l).take limit)) ↔
      ∀ a ∈ vectors.keys.toFinset, ∀ b ∈ vectors.keys.toFinset, a ≠ b → score b ≤ score a →
        (vectors.keys.toFinset.filter fun c => score a < score c).card < limit →
          metric.AtLeast (floats.value metric query (dataOf vectors a))
            (floats.value metric query (dataOf vectors b)) := by
  cases metric with
  | dot => exact nearest_by_score_iff
  | euclidean => exact nearest_by_score_iff
  | cosine => exact nearest_by_score_iff
  | manhattan => exact nearest_by_score_iff

/-! ## The index -/

namespace HNSWIndex

variable {index : HNSWIndex P D}

theorem descend_stored (index : HNSWIndex P D) (query : Vector P) (layers : List Nat)
    {entry : VectorId} (hentry : entry ∈ index.vectors) :
    index.descend query entry layers ∈ index.vectors := by
  induction layers generalizing entry with
  | nil => exact hentry
  | cons layerIdx layers ih =>
    have hstored : ∀ r ∈ index.searchLayer query entry 1 layerIdx, r.id ∈ index.vectors :=
      fun r hr => (mem_searchLayer (List.mem_map.mpr ⟨r, hr, rfl⟩)).1
    exact ih (landing_of_forall hstored hentry)

theorem distanceTo_value (hdistance : index.distance = metric.distance floats) {id : VectorId}
    {d : D} (hd : index.distanceTo query id = some d) :
    d = floats.value metric query (dataOf index.vectors id) := by
  rw [distanceTo] at hd
  cases hstored : index.vectors[id]? with
  | none =>
    rw [hstored] at hd
    exact absurd hd (by simp)
  | some v =>
    simp only [hstored, hdistance, Distance.calculate] at hd
    split at hd
    · exact absurd hd (by simp [Except.toOption])
    · rw [dataOf, hstored]
      exact (Option.some.inj hd).symm

/-- A search finds all stored vectors, in the order of their values. -/
theorem search_sorted (hdistance : index.distance = metric.distance floats)
    (request : SearchRequest F)
    (hconnected : Connected index.vectors (fun id => (index.edges 0 id).getD []) index.entryPoint
      request.vector)
    (hef : index.vectors.size ≤
      (request.params.bind SearchParams.hnswEf).getD index.config.ef) :
    ∃ ids : List VectorId, (index.search request).map ScoredVector.id = ids.take request.limit ∧
      ids.Nodup ∧ (∀ id, id ∈ ids ↔ id ∈ index.vectors.keys.toFinset) ∧
        ids.Pairwise fun a b => floats.value metric request.vector (dataOf index.vectors a) ≤
          floats.value metric request.vector (dataOf index.vectors b) := by
  rw [search]
  cases hentry : index.entryPoint with
  | none =>
    refine ⟨[], List.take_nil.symm, List.nodup_nil, fun id => ?_, List.Pairwise.nil⟩
    refine iff_of_false List.not_mem_nil fun hid => ?_
    obtain ⟨entry, -, hsome⟩ := hconnected.entry id (mem_keys_toFinset.mp hid)
    rw [hentry] at hsome
    exact absurd hsome (by simp)
  | some entry =>
    dsimp only
    generalize hcurrent : index.descend { data := request.vector, payload := none } entry
      (List.range' 1 (index.layers.length - 1)).reverse = current
    refine ⟨_, List.map_take, searchLayer_nodup _ _ _ _ _, fun id => ?_, ?_⟩
    · rw [mem_keys_toFinset]
      refine ⟨fun hid => (mem_searchLayer hid).1, fun hid => ?_⟩
      have hlands : current ∈ index.vectors := by
        rw [← hcurrent]
        exact descend_stored index _ _ (hconnected.stored hentry hid)
      exact (mem_searchLayer_wide hconnected.dims rfl hlands
        (hef.trans (Nat.le_max_left _ _)) 0 id).mpr
          (hconnected.reached (distanceTo_isSome hconnected.dims rfl) hlands hid)
    · rw [List.pairwise_map]
      refine (searchLayer_sorted _ _ _ _ _).imp_of_mem fun hr hr' hle => ?_
      rw [← distanceTo_value hdistance (score_searchLayer hr),
        ← distanceTo_value hdistance (score_searchLayer hr')]
      exact hle

/-- The smallest value first is the best first, but for the inner product. -/
theorem search_bestMatches_iff (hdistance : index.distance = metric.distance floats)
    (request : SearchRequest F)
    (hconnected : Connected index.vectors (fun id => (index.edges 0 id).getD []) index.entryPoint
      request.vector)
    (hef : index.vectors.size ≤
      (request.params.bind SearchParams.hnswEf).getD index.config.ef) :
    metric.BestMatches floats request.vector request.limit index.vectors
        ((index.search request).map ScoredVector.id) ↔
      metric ≠ .dot ∨ request.limit = 0 ∨ ∀ a ∈ index.vectors, ∀ b ∈ index.vectors,
        floats.value metric request.vector (dataOf index.vectors a) =
          floats.value metric request.vector (dataOf index.vectors b) := by
  obtain ⟨ids, hids, hnodup, hmem, hsorted⟩ := search_sorted hdistance request hconnected hef
  rw [hids]
  have hplain : Nearest (fun id => floats.value metric request.vector (dataOf index.vectors id))
      request.limit index.vectors.keys.toFinset (ids.take request.limit) :=
    nearest_take_of_sorted hnodup hmem hsorted
  cases metric with
  | euclidean => exact iff_of_true hplain (Or.inl (by simp))
  | cosine => exact iff_of_true hplain (Or.inl (by simp))
  | manhattan => exact iff_of_true hplain (Or.inl (by simp))
  | dot =>
    rw [or_iff_right (not_not.mpr rfl), Metric.BestMatches,
      nearest_take_of_reversed hnodup hmem hsorted]
    simp only [mem_keys_toFinset, OrderDual.toDual_inj]

end HNSWIndex

/-! ## The optimized index -/

namespace HnswIndexOptimized

variable {index : HnswIndexOptimized P} {entry : VectorId} {ef layerIdx : Nat}

/-- The distance that results are sorted by. -/
def euclideanTo (index : HnswIndexOptimized P) (floats : Floats D) (query : List UInt32)
    (id : VectorId) : D :=
  floats.euclidean query (dataOf index.vectors id)

theorem distanceTo_eq {id : VectorId} {d : D} (hd : index.distanceTo floats query id = some d) :
    d = index.euclideanTo floats query id ∧ id ∈ index.vectors := by
  rw [distanceTo] at hd
  cases hstored : index.vectors[id]? with
  | none =>
    rw [hstored] at hd
    exact absurd hd (by simp)
  | some v =>
    simp only [hstored] at hd
    split at hd
    · exact absurd hd (by simp)
    · rw [euclideanTo, dataOf, hstored, Std.TreeMap.mem_iff_isSome_getElem?, hstored]
      exact ⟨(Option.some.inj hd).symm, rfl⟩

theorem distanceTo_isSome
    (hdims : ∀ (id : VectorId) (v : Vector P), index.vectors[id]? = some v →
      v.data.length = query.length) (id : VectorId) :
    (index.distanceTo floats query id).isSome ↔ id ∈ index.vectors := by
  rw [Std.TreeMap.mem_iff_isSome_getElem?, distanceTo]
  cases hstored : index.vectors[id]? with
  | none => simp
  | some v => simp [hdims id v hstored]

/-! ## What the loop finds -/

theorem mem_found {r : D × VectorId} (hr : r ∈ index.found floats query entry ef layerIdx) :
    r.1 = index.euclideanTo floats query r.2 ∧ r.2 ∈ index.vectors :=
  distanceTo_eq (mem_search hr).1

theorem found_nodup (index : HnswIndexOptimized P) (floats : Floats D) (query : List UInt32)
    (entry : VectorId) (ef layerIdx : Nat) :
    ((index.found floats query entry ef layerIdx).map Prod.snd).Nodup :=
  search_nodup _ _ _ _ _

theorem found_length_le (index : HnswIndexOptimized P) (floats : Floats D) (query : List UInt32)
    (entry : VectorId) (ef layerIdx : Nat) :
    (index.found floats query entry ef layerIdx).length ≤ index.vectors.size := by
  have hsub : (index.found floats query entry ef layerIdx).map Prod.snd ⊆ index.vectors.keys := by
    intro id hid
    obtain ⟨r, hr, rfl⟩ := List.mem_map.mp hid
    exact Std.TreeMap.mem_keys.mpr (mem_found hr).2
  have hle := (List.subperm_of_subset (found_nodup index floats query entry ef layerIdx) hsub).length_le
  rwa [List.length_map, Std.TreeMap.length_keys] at hle

/-- With room for all, the loop finds all stored vectors. -/
theorem mem_found_wide
    (hconnected : Connected index.vectors (index.neighbors 0) index.entryPoint query)
    (hef : index.vectors.size ≤ ef) {id : VectorId} (hentry : id ∈ index.vectors → entry ∈ index.vectors) :
    id ∈ (index.found floats query entry ef 0).map Prod.snd ↔ id ∈ index.vectors := by
  have hlength : index.vectors.keys.length = index.vectors.size := Std.TreeMap.length_keys
  have hdist : ∀ id, (index.distanceTo floats query id).isSome ↔ id ∈ index.vectors :=
    distanceTo_isSome hconnected.dims
  constructor
  · intro hid
    obtain ⟨r, hr, rfl⟩ := List.mem_map.mp hid
    exact (mem_found hr).2
  · intro hid
    have hkeys : ∀ key, (index.distanceTo floats query key).isSome → key ∈ index.vectors.keys :=
      fun key hkey => Std.TreeMap.mem_keys.mpr ((hdist key).mp hkey)
    exact (mem_search_wide hkeys (by omega) hlength.le ((hdist entry).mpr (hentry hid)) id).mpr
      (hconnected.reached hdist (hentry hid) hid)

/-! ## What comes back -/

/-- A comparison of two distances fails. -/
def Panics (index : HnswIndexOptimized P) (floats : Floats D) (query : List UInt32) : Prop :=
  2 ≤ index.vectors.size ∧ ∃ id ∈ index.vectors, floats.isNan (index.euclideanTo floats query id) = true

variable {order : List (D × VectorId) → List (D × VectorId)}

/-- Where no comparison fails, the results are what the loop finds, best score first. -/
theorem searchLayer_calm (horder : ∀ l, (order l).Perm l) {query : Vector P}
    (hcalm : ¬index.Panics floats query.data) (entry : VectorId) (ef layerIdx : Nat) :
    ∃ results, index.searchLayer floats order query entry ef layerIdx = some results ∧
      results.map ScoredVector.id =
        farthestFirst (fun id => floats.neg (index.euclideanTo floats query.data id))
          ((order (index.found floats query.data entry ef layerIdx)).map Prod.snd) := by
  have hfound : ∀ r ∈ order (index.found floats query.data entry ef layerIdx),
      r.1 = index.euclideanTo floats query.data r.2 ∧ r.2 ∈ index.vectors := fun r hr =>
    mem_found ((horder _).mem_iff.mp hr)
  have hlength := (horder (index.found floats query.data entry ef layerIdx)).length_eq
  have hle := found_length_le index floats query.data entry ef layerIdx
  rw [searchLayer, sortResults, if_neg]
  · refine ⟨_, rfl, ?_⟩
    rw [farthestFirst, List.map_mergeSort (s := farther fun id =>
      floats.neg (index.euclideanTo floats query.data id)), List.map_map]
    · rfl
    · intro a ha b hb
      obtain ⟨r, hr, rfl⟩ := List.mem_map.mp ha
      obtain ⟨r', hr', rfl⟩ := List.mem_map.mp hb
      rw [farther, (hfound r hr).1, (hfound r' hr').1]
  · rintro ⟨htwo, hnan⟩
    rw [List.length_map] at htwo
    obtain ⟨scored, hscored, hnan⟩ := List.any_eq_true.mp hnan
    obtain ⟨r, hr, rfl⟩ := List.mem_map.mp hscored
    rw [floats.isNan_neg, (hfound r hr).1] at hnan
    exact hcalm ⟨by omega, r.2, (hfound r hr).2, hnan⟩

theorem searchLayer_panics (horder : ∀ l, (order l).Perm l) {query : Vector P}
    (hconnected : Connected index.vectors (index.neighbors 0) index.entryPoint query.data)
    (hef : index.vectors.size ≤ ef) (hentry : entry ∈ index.vectors)
    (hpanics : index.Panics floats query.data) :
    index.searchLayer floats order query entry ef 0 = none := by
  obtain ⟨htwo, id, hid, hnan⟩ := hpanics
  have hmem : ∀ id, id ∈ (index.found floats query.data entry ef 0).map Prod.snd ↔
      id ∈ index.vectors := fun id => mem_found_wide hconnected hef fun _ => hentry
  rw [searchLayer, sortResults, if_pos]
  refine ⟨?_, List.any_eq_true.mpr ?_⟩
  · have hsub : index.vectors.keys ⊆ (index.found floats query.data entry ef 0).map Prod.snd :=
      fun id hid => (hmem id).mpr (Std.TreeMap.mem_keys.mp hid)
    have hle := (List.subperm_of_subset Std.TreeMap.nodup_keys hsub).length_le
    rw [List.length_map, Std.TreeMap.length_keys] at hle
    rw [List.length_map, (horder _).length_eq]
    omega
  · obtain ⟨r, hr, rfl⟩ := List.mem_map.mp ((hmem id).mpr hid)
    refine ⟨_, List.mem_map.mpr ⟨r, (horder _).mem_iff.mpr hr, rfl⟩, ?_⟩
    rw [floats.isNan_neg, (mem_found hr).1]
    exact hnan

theorem landing_stored (horder : ∀ l, (order l).Perm l) {query : Vector P}
    {results : List (ScoredVector P D)} (hentry : entry ∈ index.vectors)
    (hsearch : index.searchLayer floats order query entry ef layerIdx = some results) :
    HNSWIndex.landing results entry ∈ index.vectors := by
  rw [searchLayer, sortResults] at hsearch
  split at hsearch
  · exact absurd hsearch (by simp)
  · refine HNSWIndex.landing_of_forall (p := fun id => id ∈ index.vectors) (fun r hr => ?_) hentry
    rw [← Option.some.inj hsearch, List.mem_mergeSort] at hr
    obtain ⟨pair, hpair, rfl⟩ := List.mem_map.mp hr
    exact (mem_found ((horder _).mem_iff.mp hpair)).2

theorem descend_stored (heap : HeapOrder D) {query : Vector P} {layers : List Nat}
    {current : VectorId} (hentry : entry ∈ index.vectors)
    (hdescend : index.descend floats heap query ef entry layers = some current) :
    current ∈ index.vectors := by
  induction layers generalizing entry with
  | nil =>
    rw [← Option.some.inj hdescend]
    exact hentry
  | cons layerIdx layers ih =>
    rw [descend, List.foldlM_cons] at hdescend
    obtain ⟨next, hnext, hrest⟩ := Option.bind_eq_some_iff.mp hdescend
    obtain ⟨results, hresults, rfl⟩ := Option.map_eq_some_iff.mp hnext
    exact ih (landing_stored (heap.perm _) hentry hresults) hrest

theorem descend_calm (heap : HeapOrder D) {query : Vector P}
    (hcalm : ¬index.Panics floats query.data) (ef : Nat) (entry : VectorId) (layers : List Nat) :
    ∃ current, index.descend floats heap query ef entry layers = some current := by
  induction layers generalizing entry with
  | nil => exact ⟨entry, rfl⟩
  | cons layerIdx layers ih =>
    obtain ⟨results, hresults, -⟩ := searchLayer_calm (heap.perm (layerIdx + 1)) hcalm entry
      (if layerIdx = 0 then ef else 1) layerIdx
    obtain ⟨current, hcurrent⟩ := ih (HNSWIndex.landing results entry)
    refine ⟨current, ?_⟩
    rw [descend, List.foldlM_cons, hresults]
    exact hcurrent

/-! ## Whole searches -/

def width (index : HnswIndexOptimized P) (request : SearchRequest F) : Nat :=
  (request.params.bind SearchParams.hnswEf).getD index.config.ef

/-- Where no comparison fails, a search returns the first of a sort of what the last loop finds. -/
theorem search_calm (heap : HeapOrder D) {request : SearchRequest F}
    (hcalm : ¬index.Panics floats request.vector) (hentry : index.entryPoint = some entry) :
    ∃ current results, (entry ∈ index.vectors → current ∈ index.vectors) ∧
      index.search floats heap request = some (.ok results) ∧
      results.map ScoredVector.id =
        (farthestFirst (fun id => floats.neg (index.euclideanTo floats request.vector id))
          ((heap.order 0 (index.found floats request.vector current (index.width request) 0)).map
            Prod.snd)).take request.limit := by
  let query : Vector P := { data := request.vector, payload := none }
  have hquery : ¬index.Panics floats query.data := hcalm
  obtain ⟨current, hcurrent⟩ := descend_calm heap hquery (index.width request) entry
    (List.range (index.maxLayer + 1)).reverse
  obtain ⟨results, hresults, hids⟩ :=
    searchLayer_calm (heap.perm 0) hquery current (index.width request) 0
  refine ⟨current, results.take request.limit, fun hstored => descend_stored heap hstored hcurrent,
    ?_, ?_⟩
  · rw [width] at hcurrent hresults
    rw [search, hentry]
    dsimp only
    rw [hcurrent, Option.bind_some, hresults, Option.map_some]
  · rw [List.map_take, hids]

theorem search_panics (heap : HeapOrder D) {request : SearchRequest F}
    (hconnected : Connected index.vectors (index.neighbors 0) index.entryPoint request.vector)
    (hef : index.vectors.size ≤ index.width request)
    (hpanics : index.Panics floats request.vector) : index.search floats heap request = none := by
  obtain ⟨id, hid, -⟩ := hpanics.2
  obtain ⟨entry, hstored, hentry⟩ := hconnected.entry id hid
  rw [width] at hef
  rw [search, hentry]
  dsimp only
  cases hdescend : index.descend floats heap { data := request.vector, payload := none }
      ((request.params.bind SearchParams.hnswEf).getD index.config.ef) entry
      (List.range (index.maxLayer + 1)).reverse with
  | none => rfl
  | some current =>
    rw [Option.bind_some, searchLayer_panics (heap.perm 0) hconnected hef
      (descend_stored heap hstored hdescend) hpanics, Option.map_none]

theorem exists_heap (floats : Floats D)
    (hconnected : Connected index.vectors (index.neighbors 0) index.entryPoint query)
    (hef : index.vectors.size ≤ ef) {l : List VectorId} (hnodup : l.Nodup)
    (hmem : ∀ id, id ∈ l ↔ id ∈ index.vectors.keys.toFinset) :
    ∃ heap : HeapOrder D, ∀ current, (∀ id ∈ index.vectors, current ∈ index.vectors) →
      (heap.order 0 (index.found floats query current ef 0)).map Prod.snd = l := by
  let pairs := l.map fun id => (index.euclideanTo floats query id, id)
  refine ⟨{ order := fun _ results => if pairs.Perm results then pairs else results, perm := ?_ },
    fun current hcurrent => ?_⟩
  · intro _ results
    split
    · assumption
    · exact List.Perm.refl results
  · have hids : ((index.found floats query current ef 0).map Prod.snd).Perm l := by
      refine (List.perm_ext_iff_of_nodup (found_nodup _ _ _ _ _ _) hnodup).mpr fun id => ?_
      rw [mem_found_wide hconnected hef (hcurrent id), hmem, mem_keys_toFinset]
    have hpairs : pairs.Perm (index.found floats query current ef 0) := by
      have hsame : ((index.found floats query current ef 0).map Prod.snd).map
          (fun id => (index.euclideanTo floats query id, id)) =
            index.found floats query current ef 0 := by
        rw [List.map_map]
        refine (List.map_congr_left fun r hr => ?_).trans (List.map_id _)
        exact Prod.ext (mem_found hr).1.symm rfl
      rw [← hsame]
      exact hids.symm.map _
    show (if pairs.Perm (index.found floats query current ef 0) then pairs else _).map Prod.snd = l
    rw [if_pos hpairs, List.map_map]
    exact List.map_id _

/-- The index has an entry point, no distance is compared with NaN, and the vectors that the
Euclidean distance can put in front are as good under the metric as what it puts behind them. -/
def RanksAs (index : HnswIndexOptimized P) (floats : Floats D) (metric : Metric)
    (query : List UInt32) (limit : Nat) : Prop :=
  index.entryPoint.isSome ∧
    (index.vectors.size ≤ 1 ∨
      ∀ id ∈ index.vectors, floats.isNan (index.euclideanTo floats query id) = false) ∧
    ∀ a ∈ index.vectors, ∀ b ∈ index.vectors, a ≠ b →
      index.euclideanTo floats query a ≤ index.euclideanTo floats query b →
        (index.vectors.keys.toFinset.filter fun c =>
          index.euclideanTo floats query c < index.euclideanTo floats query a).card < limit →
        metric.AtLeast (floats.value metric query (dataOf index.vectors a))
          (floats.value metric query (dataOf index.vectors b))

theorem not_panics_iff : ¬index.Panics floats query ↔ index.vectors.size ≤ 1 ∨
    ∀ id ∈ index.vectors, floats.isNan (index.euclideanTo floats query id) = false := by
  rw [Panics, not_and_or, Nat.not_le, Nat.lt_succ_iff]
  simp

/-- Two different vectors that can be compared. -/
theorem neg_le_neg_iff (hcalm : ¬index.Panics floats query) {a b : VectorId}
    (ha : a ∈ index.vectors) (hb : b ∈ index.vectors) :
    floats.neg (index.euclideanTo floats query a) ≤ floats.neg (index.euclideanTo floats query b) ↔
      index.euclideanTo floats query b ≤ index.euclideanTo floats query a := by
  by_cases hab : a = b
  · rw [hab]
    exact iff_of_true le_rfl le_rfl
  · rcases not_panics_iff.mp hcalm with hfew | hnumbers
    · have hsub : [a, b] ⊆ index.vectors.keys := by
        intro id hid
        rw [Std.TreeMap.mem_keys]
        rcases List.mem_pair.mp hid with rfl | rfl
        · exact ha
        · exact hb
      have hle := (List.subperm_of_subset (List.nodup_cons.mpr
        ⟨by simpa using hab, List.nodup_singleton b⟩) hsub).length_le
      rw [Std.TreeMap.length_keys, List.length_cons, List.length_singleton] at hle
      omega
    · exact floats.neg_le_neg _ _ (hnumbers a ha) (hnumbers b hb)

/-- Scores compare as the distances do, the other way round. -/
theorem pairs_iff (hcalm : ¬index.Panics floats query) :
    (∀ a ∈ index.vectors.keys.toFinset, ∀ b ∈ index.vectors.keys.toFinset, a ≠ b →
      floats.neg (index.euclideanTo floats query b) ≤ floats.neg (index.euclideanTo floats query a) →
        (index.vectors.keys.toFinset.filter fun c =>
          floats.neg (index.euclideanTo floats query a) <
            floats.neg (index.euclideanTo floats query c)).card < limit →
        metric.AtLeast (floats.value metric query (dataOf index.vectors a))
          (floats.value metric query (dataOf index.vectors b))) ↔
    ∀ a ∈ index.vectors, ∀ b ∈ index.vectors, a ≠ b →
      index.euclideanTo floats query a ≤ index.euclideanTo floats query b →
        (index.vectors.keys.toFinset.filter fun c =>
          index.euclideanTo floats query c < index.euclideanTo floats query a).card < limit →
        metric.AtLeast (floats.value metric query (dataOf index.vectors a))
          (floats.value metric query (dataOf index.vectors b)) := by
  simp only [mem_keys_toFinset]
  refine forall₂_congr fun a ha => forall₂_congr fun b hb => ?_
  have hfilter : (index.vectors.keys.toFinset.filter fun c =>
      floats.neg (index.euclideanTo floats query a) < floats.neg (index.euclideanTo floats query c)) =
        index.vectors.keys.toFinset.filter fun c =>
          index.euclideanTo floats query c < index.euclideanTo floats query a := by
    refine Finset.filter_congr fun c hc => ?_
    rw [← not_le, ← not_le, neg_le_neg_iff hcalm (mem_keys_toFinset.mp hc) ha]
  rw [neg_le_neg_iff hcalm hb ha, hfilter]

/-- The order of the Euclidean distance is right under the metric when it cannot put a vector in
front of a better one. -/
theorem search_bestMatches_iff (request : SearchRequest F)
    (hconnected : Connected index.vectors (index.neighbors 0) index.entryPoint request.vector)
    (hef : index.vectors.size ≤ index.width request) :
    (∀ heap : HeapOrder D, ∃ results, index.search floats heap request = some (.ok results) ∧
      metric.BestMatches floats request.vector request.limit index.vectors
        (results.map ScoredVector.id)) ↔
      index.RanksAs floats metric request.vector request.limit := by
  constructor
  · intro hall
    have hcalm : ¬index.Panics floats request.vector := by
      intro hpanics
      obtain ⟨results, hsearch, -⟩ := hall HeapOrder.sorted
      rw [search_panics HeapOrder.sorted hconnected hef hpanics] at hsearch
      exact absurd hsearch (by simp)
    have hsome : index.entryPoint.isSome := by
      obtain ⟨results, hsearch, -⟩ := hall HeapOrder.sorted
      cases hentry : index.entryPoint with
      | some entry => rfl
      | none =>
        rw [search, hentry] at hsearch
        exact absurd hsearch (by simp)
    refine ⟨hsome, not_panics_iff.mp hcalm, (pairs_iff hcalm).mp ?_⟩
    refine Metric.bestMatches_by_score_iff.mp fun l hnodup hmem => ?_
    obtain ⟨heap, hheap⟩ := exists_heap floats hconnected hef hnodup hmem
    obtain ⟨results, hsearch, hbest⟩ := hall heap
    obtain ⟨entry, hentry⟩ := Option.isSome_iff_exists.mp hsome
    obtain ⟨current, results', hstored, hsearch', hids⟩ := search_calm heap hcalm hentry
    obtain rfl : results = results' := by
      rw [hsearch] at hsearch'
      exact Except.ok.inj (Option.some.inj hsearch')
    rw [hids, hheap current fun id hid => hstored (hconnected.stored hentry hid)] at hbest
    exact hbest
  · rintro ⟨hsome, hnumbers, hpairs⟩ heap
    have hcalm : ¬index.Panics floats request.vector := not_panics_iff.mpr hnumbers
    obtain ⟨entry, hentry⟩ := Option.isSome_iff_exists.mp hsome
    obtain ⟨current, results, hstored, hsearch, hids⟩ := search_calm heap hcalm hentry
    refine ⟨results, hsearch, ?_⟩
    rw [hids]
    refine Metric.bestMatches_by_score_iff.mpr ((pairs_iff hcalm).mpr hpairs) _ ?_ fun id => ?_
    · exact ((heap.perm 0 _).map Prod.snd).nodup_iff.mpr (found_nodup _ _ _ _ _ _)
    · rw [((heap.perm 0 _).map Prod.snd).mem_iff, mem_keys_toFinset]
      exact mem_found_wide hconnected hef fun hid => hstored (hconnected.stored hentry hid)

end HnswIndexOptimized

/-! ## Both -/

/-- Results are ranked by the metric: by `HNSWIndex` when the smallest value is the best, and by
`HnswIndexOptimized` when the Euclidean distance agrees with the metric. -/
theorem ranked_by_metric_iff (floats : Floats D) (metric : Metric) (request : SearchRequest F)
    (index : HNSWIndex P D) (hdistance : index.distance = metric.distance floats)
    (hconnected : Connected index.vectors (fun id => (index.edges 0 id).getD []) index.entryPoint
      request.vector)
    (hef : index.vectors.size ≤ (request.params.bind SearchParams.hnswEf).getD index.config.ef)
    (optimized : HnswIndexOptimized P)
    (hconnected' : Connected optimized.vectors (optimized.neighbors 0) optimized.entryPoint
      request.vector)
    (hef' : optimized.vectors.size ≤ optimized.width request) :
    (metric.BestMatches floats request.vector request.limit index.vectors
        ((index.search request).map ScoredVector.id) ↔
      metric ≠ .dot ∨ request.limit = 0 ∨ ∀ a ∈ index.vectors, ∀ b ∈ index.vectors,
        floats.value metric request.vector (dataOf index.vectors a) =
          floats.value metric request.vector (dataOf index.vectors b)) ∧
    ((∀ heap : HeapOrder D, ∃ results,
        optimized.search floats heap request = some (.ok results) ∧
          metric.BestMatches floats request.vector request.limit optimized.vectors
            (results.map ScoredVector.id)) ↔
      optimized.RanksAs floats metric request.vector request.limit) :=
  ⟨index.search_bestMatches_iff hdistance request hconnected hef,
    optimized.search_bestMatches_iff request hconnected' hef'⟩

def sampleFloats : Floats Int where
  value metric a b :=
    let x : Int := (a.map sampleValue).sum
    let y : Int := (b.map sampleValue).sum
    match metric with
    | .dot => x * y
    | .cosine => if x = 0 ∨ y = 0 then 1 else 0
    | _ => (x - y).natAbs
  euclidean a b := (((a.map sampleValue).sum : Int) - (b.map sampleValue).sum).natAbs
  max := 2 ^ 128
  neg := (- ·)
  isNan _ := false
  isNan_neg _ := rfl
  neg_le_neg _ _ _ _ := Int.neg_le_neg_iff

/-- The vectors 1.0 and 2.0, the first of them added twice to get a list of edges. -/
def oneTwo : HNSWIndex Unit Int :=
  (((HNSWIndex.new .default (Metric.dot.distance sampleFloats)).add 1
      { data := [0x3F800000], payload := none } 0).add 1
      { data := [0x3F800000], payload := none } 0).add 2 { data := [0x40000000], payload := none } 0

def oneTwoOptimized : HnswIndexOptimized Unit :=
  (((HnswIndexOptimized.withConfig .default .dot).add sampleFloats HeapOrder.sorted 1
      { data := [0x3F800000], payload := none } 0).bind fun index =>
    index.add sampleFloats HeapOrder.sorted 2
      { data := [0x40000000], payload := none } 0).getD (HnswIndexOptimized.new .dot)

def nearOne : SearchRequest Unit := SearchRequest.new [0x3F800000] 2

theorem oneTwo_connected :
    Connected oneTwo.vectors (fun id => (oneTwo.edges 0 id).getD []) oneTwo.entryPoint
      nearOne.vector :=
  connected_of_keys (by decide +kernel) ⟨1, by decide +kernel⟩ (by decide +kernel)

theorem oneTwoOptimized_connected :
    Connected oneTwoOptimized.vectors (oneTwoOptimized.neighbors 0) oneTwoOptimized.entryPoint
      nearOne.vector :=
  connected_of_keys (by decide +kernel) ⟨1, by decide +kernel⟩ (by decide +kernel)

theorem ranked_by_metric_oneTwo :
    (Metric.dot.BestMatches sampleFloats nearOne.vector nearOne.limit oneTwo.vectors
        ((oneTwo.search nearOne).map ScoredVector.id) ↔
      Metric.dot ≠ .dot ∨ nearOne.limit = 0 ∨ ∀ a ∈ oneTwo.vectors, ∀ b ∈ oneTwo.vectors,
        sampleFloats.value .dot nearOne.vector (dataOf oneTwo.vectors a) =
          sampleFloats.value .dot nearOne.vector (dataOf oneTwo.vectors b)) ∧
    ((∀ heap : HeapOrder Int, ∃ results,
        oneTwoOptimized.search sampleFloats heap nearOne = some (.ok results) ∧
          Metric.dot.BestMatches sampleFloats nearOne.vector nearOne.limit oneTwoOptimized.vectors
            (results.map ScoredVector.id)) ↔
      oneTwoOptimized.RanksAs sampleFloats .dot nearOne.vector nearOne.limit) :=
  ranked_by_metric_iff sampleFloats .dot nearOne oneTwo rfl oneTwo_connected (by decide +kernel)
    oneTwoOptimized oneTwoOptimized_connected (by decide +kernel)

/-- The inner products are 1 and 2.  One index puts the smaller one first, and so does the other, the
Euclidean distances being 0 and 1. -/
theorem not_ranked_by_metric_oneTwo :
    (oneTwo.search nearOne).map ScoredVector.id = [1, 2] ∧
      ¬Metric.dot.BestMatches sampleFloats nearOne.vector nearOne.limit oneTwo.vectors [1, 2] ∧
      ¬∀ heap : HeapOrder Int, ∃ results,
        oneTwoOptimized.search sampleFloats heap nearOne = some (.ok results) ∧
          Metric.dot.BestMatches sampleFloats nearOne.vector nearOne.limit oneTwoOptimized.vectors
            (results.map ScoredVector.id) := by
  refine ⟨by decide +kernel, fun hbest => ?_, fun hall => ?_⟩
  · have hfirst := (List.pairwise_cons.mp hbest.sorted).1 2 (List.mem_singleton_self 2)
    exact absurd hfirst (by decide +kernel)
  · obtain ⟨-, -, hpairs⟩ := (oneTwoOptimized.search_bestMatches_iff nearOne
      oneTwoOptimized_connected (by decide +kernel)).mp hall
    have hworse := hpairs 1 (by decide +kernel) 2 (by decide +kernel) (by decide) (by decide +kernel)
      (by decide +kernel)
    exact absurd hworse (by decide +kernel)

end Index
end RTDB
