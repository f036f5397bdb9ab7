import RTDB.Index.MetadataIndex
import RTDB.Lib.Runs
import RTDB.Types

/-!
# The hybrid search engine

The engine of `index/hybrid_search.rs` over a vector index, with its metadata index, its store
of metadata and its cache.  Re-inserting an id leaves its old metadata in the index.
-/

namespace RTDB
namespace Index

open Storage (VectorId Vector)

/-- What the engine uses of a `VectorIndex`. -/
class VectorIndex (I : Type) (F D : outParam Type) where
  add : I → VectorId → Vector (Payload F) → Except Error Unit × I
  search : I → SearchRequest F → Except Error (List (ScoredVector (Payload F) D))

structure SearchResult (D : Type) where
  id : VectorId
  distance : D
  vector : Option (List UInt32)
  deriving DecidableEq, Repr

inductive SearchError where
  | index (e : Error)
  | query (msg : String)
  deriving DecidableEq, Repr

/-! ## The cache -/

structure QueryCacheKey where
  queryHash : Nat
  filterHash : Nat
  k : Nat
  deriving DecidableEq, Repr

structure CachedResult (D : Type) where
  results : List (SearchResult D)
  timestamp : Nat
  ttl : Nat

structure QueryCache (D : Type) where
  cache : AList fun _ : QueryCacheKey => CachedResult D
  hitCount : Nat
  missCount : Nat
  defaultTtl : Nat

/-- The hash of a query's bits, and of a filter as it is printed. -/
structure Hasher (F : Type) where
  query : List UInt32 → Nat
  filter : Option (FilterCondition F) → Nat

def Hasher.makeKey {F : Type} (hasher : Hasher F) (query : List UInt32)
    (filter : Option (FilterCondition F)) (k : Nat) : QueryCacheKey :=
  { queryHash := hasher.query query, filterHash := hasher.filter filter, k }

namespace QueryCache

variable {D : Type}

def new (defaultTtl : Nat) : QueryCache D :=
  { cache := ∅, hitCount := 0, missCount := 0, defaultTtl }

def get (c : QueryCache D) (key : QueryCacheKey) (now : Nat) :
    Option (List (SearchResult D)) × QueryCache D :=
  match c.cache.lookup key with
  | some entry =>
    if now - entry.timestamp > entry.ttl then (none, { c with missCount := c.missCount + 1 })
    else (some entry.results, { c with hitCount := c.hitCount + 1 })
  | none => (none, { c with missCount := c.missCount + 1 })

def put (c : QueryCache D) (key : QueryCacheKey) (now : Nat) (results : List (SearchResult D)) :
    QueryCache D :=
  { c with cache := c.cache.insert key { results, timestamp := now, ttl := c.defaultTtl } }

end QueryCache

/-! ## The engine -/

structure HybridSearchEngine (I D : Type) where
  vectorIndex : I
  metadataIndex : MetadataIndex
  cache : QueryCache D
  metadataStore : AList fun _ : VectorId => Metadata

namespace HybridSearchEngine

variable {I F D : Type} [VectorIndex I F D]

def new (vectorIndex : I) : HybridSearchEngine I D :=
  { vectorIndex, metadataIndex := MetadataIndex.new, cache := QueryCache.new 60, metadataStore := ∅ }

def insert (e : HybridSearchEngine I D) (id : VectorId) (vector : List UInt32) (metadata : Metadata) :
    Except Error Unit × HybridSearchEngine I D :=
  match VectorIndex.add e.vectorIndex id { data := vector, payload := some [] } with
  | (.error err, vectorIndex) => (.error err, { e with vectorIndex })
  | (.ok (), vectorIndex) =>
    (.ok (),
      { e with
        vectorIndex
        metadataIndex := e.metadataIndex.index id metadata
        metadataStore := e.metadataStore.insert id metadata })

/-- `MetadataIndex::remove`, with the metadata in the store. -/
def unindex (e : HybridSearchEngine I D) (id : VectorId) : HybridSearchEngine I D :=
  match e.metadataStore.lookup id with
  | none => e
  | some metadata => { e with metadataIndex := e.metadataIndex.remove id metadata }

end HybridSearchEngine

/-! ## Runs -/

inductive EngineCall where
  | insert (id : VectorId) (vector : List UInt32) (metadata : Metadata)
  | remove (id : VectorId)

structure Filed (I D : Type) where
  engine : HybridSearchEngine I D
  current : VectorId → Option Metadata

namespace Filed

variable {I F D : Type} [VectorIndex I F D]

def start (vectorIndex : I) : Filed I D :=
  { engine := HybridSearchEngine.new vectorIndex, current := fun _ => none }

/-- A vector is live from its insertion, if that succeeds, to its removal. -/
def perform (s : Filed I D) : EngineCall → Filed I D
  | .insert id vector metadata =>
    match s.engine.insert id vector metadata with
    | (.error _, engine) => { s with engine }
    | (.ok (), engine) => { engine, current := Function.update s.current id (some metadata) }
  | .remove id => { engine := s.engine.unindex id, current := Function.update s.current id none }

/-- The call fails, or repeats what metadata the id already has. -/
def Renews (s : Filed I D) : EngineCall → Prop
  | .insert id vector metadata =>
    (VectorIndex.add s.engine.vectorIndex id { data := vector, payload := some [] }).1 = .ok () →
      ∀ old, s.current id = some old →
        ∀ field value, old.lookup field = some value → metadata.lookup field = some value
  | .remove _ => True

/-- The index is in step with the live vectors, and their metadata is in the store. -/
structure Kept (s : Filed I D) : Prop where
  inStep : s.engine.metadataIndex.InStep s.current
  stored : ∀ id metadata, s.current id = some metadata →
    s.engine.metadataStore.lookup id = some metadata

variable {s : Filed I D} {call : EngineCall}

theorem kept_start (vectorIndex : I) : (start vectorIndex : Filed I D).Kept :=
  { inStep := MetadataIndex.inStep_new
    stored := fun _ _ hnone => absurd hnone (by simp [start]) }

theorem perform_insert (s : Filed I D) (id : VectorId) (vector : List UInt32) (metadata : Metadata) :
    (∃ err vectorIndex, VectorIndex.add s.engine.vectorIndex id { data := vector, payload := some [] } =
        (.error err, vectorIndex) ∧
      s.perform (.insert id vector metadata) = { s with engine := { s.engine with vectorIndex } }) ∨
    (∃ vectorIndex, VectorIndex.add s.engine.vectorIndex id { data := vector, payload := some [] } =
        (.ok (), vectorIndex) ∧
      s.perform (.insert id vector metadata) =
        { engine :=
            { s.engine with
              vectorIndex
              metadataIndex := s.engine.metadataIndex.index id metadata
              metadataStore := s.engine.metadataStore.insert id metadata }
          current := Function.update s.current id (some metadata) }) := by
  simp only [perform, HybridSearchEngine.insert]
  cases hadd : VectorIndex.add s.engine.vectorIndex id { data := vector, payload := some [] } with
  | mk result vectorIndex =>
    cases result with
    | error err => exact Or.inl ⟨err, vectorIndex, rfl, rfl⟩
    | ok _ => exact Or.inr ⟨vectorIndex, rfl, rfl⟩

theorem Kept.insert {id : VectorId} {metadata : Metadata} {vectorIndex : I} (hs : s.Kept)
    (hkeep : ∀ old, s.current id = some old →
      ∀ field value, old.lookup field = some value → metadata.lookup field = some value) :
    ({ engine :=
        { s.engine with
          vectorIndex
          metadataIndex := s.engine.metadataIndex.index id metadata
          metadataStore := s.engine.metadataStore.insert id metadata }
       current := Function.update s.current id (some metadata) } : Filed I D).Kept := by
  refine { inStep := hs.inStep.index hkeep, stored := ?_ }
  show ∀ id' metadata', Function.update s.current id (some metadata) id' = some metadata' →
    (s.engine.metadataStore.insert id metadata).lookup id' = some metadata'
  intro id' metadata' hcurrent
  by_cases hid : id' = id
  · rw [hid, Function.update_self] at hcurrent
    rw [hid, AList.lookup_insert]
    exact hcurrent
  · rw [Function.update_of_ne hid] at hcurrent
    rw [AList.lookup_insert_ne hid]
    exact hs.stored id' metadata' hcurrent

theorem Kept.remove (hs : s.Kept) (id : VectorId) : (s.perform (.remove id)).Kept := by
  have hstored : ∀ id' metadata', Function.update s.current id none id' = some metadata' →
      s.engine.metadataStore.lookup id' = some metadata' := by
    intro id' metadata' hcurrent
    by_cases hid : id' = id
    · rw [hid, Function.update_self] at hcurrent
      exact absurd hcurrent (by simp)
    · rw [Function.update_of_ne hid] at hcurrent
      exact hs.stored id' metadata' hcurrent
  simp only [perform, HybridSearchEngine.unindex]
  cases hstore : s.engine.metadataStore.lookup id with
  | none =>
    have hnone : s.current id = none := by
      cases hcurrent : s.current id with
      | none => rfl
      | some metadata =>
        rw [hs.stored id metadata hcurrent] at hstore
        exact absurd hstore (by simp)
    have hself : Function.update s.current id none = s.current := by
      rw [← hnone, Function.update_eq_self]
    refine { inStep := ?_, stored := hstored }
    show s.engine.metadataIndex.InStep (Function.update s.current id none)
    rw [hself]
    exact hs.inStep
  | some metadata =>
    refine { inStep := hs.inStep.remove fun old hold => ?_, stored := hstored }
    rw [hs.stored id old hold] at hstore
    exact Option.some.inj hstore

theorem perform_kept (hs : s.Kept) (hcall : s.Renews call) : (s.perform call).Kept := by
  cases call with
  | insert id vector metadata =>
    rcases perform_insert s id vector metadata with ⟨_, vectorIndex, -, hperform⟩ | ⟨_, hadd, hperform⟩
    · rw [hperform]
      exact { inStep := hs.inStep, stored := hs.stored }
    · rw [hperform]
      exact hs.insert (hcall (by rw [hadd]))
  | remove id => exact hs.remove id

/-! ## Answers -/

variable [LT F] [LE F] [DecidableLT F] [DecidableLE F] (parse : String → Option F)

/-- What the index answers to the filter, if it does, are the live vectors that satisfy it. -/
def Answers (s : Filed I D) (filter : FilterCondition F) : Prop :=
  ∀ ids, s.engine.metadataIndex.getMatchingIds filter = some ids →
    ∀ id, id ∈ ids ↔
      ∃ metadata, s.current id = some metadata ∧ filter.evaluate parse metadata = true

/-- No live vector satisfies the filter only by a condition that the index does not answer. -/
def Covers (s : Filed I D) (filter : FilterCondition F) : Prop :=
  ∀ id metadata, s.current id = some metadata → filter.evaluate parse metadata = true →
    filter.indexed metadata = true

variable {parse} {filter : FilterCondition F}

omit [VectorIndex I F D] in
/-- In step, the index answers with the vectors that satisfy the filter by what it answers. -/
theorem Kept.answers_iff (hs : s.Kept)
    (hsome : (s.engine.metadataIndex.getMatchingIds filter).isSome = true) :
    s.Answers parse filter ↔ s.Covers parse filter := by
  obtain ⟨ids, hids⟩ := Option.isSome_iff_exists.mp hsome
  have hmem : ∀ id, id ∈ ids ↔
      ∃ metadata, s.current id = some metadata ∧ filter.indexed metadata = true := by
    intro id
    have hfinds := s.engine.metadataIndex.mem_getMatchingIds id filter
    rw [hids, Option.getD_some] at hfinds
    exact hfinds.trans (hs.inStep.finds_iff filter)
  constructor
  · intro hanswers id metadata hcurrent hevaluate
    have hid := (hanswers ids hids id).mpr ⟨metadata, hcurrent, hevaluate⟩
    obtain ⟨metadata', hcurrent', hindexed⟩ := (hmem id).mp hid
    rw [hcurrent] at hcurrent'
    rw [Option.some.inj hcurrent']
    exact hindexed
  · intro hcovers ids' hids' id
    rw [hids] at hids'
    rw [← Option.some.inj hids', hmem]
    refine exists_congr fun metadata => and_congr_right fun hcurrent => ?_
    exact ⟨FilterCondition.evaluate_of_indexed filter, hcovers id metadata hcurrent⟩

/-- A re-insertion that drops a value leaves the id with the value in the index. -/
theorem Kept.stale (parse : String → Option F) (hs : s.Kept) (hcall : ¬s.Renews call) :
    ∃ field value, ¬(s.perform call).Answers parse (.eq field value) := by
  cases call with
  | insert id vector metadata =>
    simp only [Renews, not_forall] at hcall
    obtain ⟨hok, old, hold, field, value, hvalue, hdropped⟩ := hcall
    refine ⟨field, value, ?_⟩
    rcases perform_insert s id vector metadata with ⟨_, _, hadd, -⟩ | ⟨vectorIndex, -, hperform⟩
    · rw [hadd] at hok
      exact absurd hok (by simp)
    · rw [hperform]
      intro hanswers
      have hid : id ∈ (s.engine.metadataIndex.index id metadata).idsOf field value :=
        MetadataIndex.mem_index.mpr (Or.inl ((hs.inStep id field value).mpr ⟨old, hold, hvalue⟩))
      rw [MetadataIndex.idsOf] at hid
      cases hanswer : ((s.engine.metadataIndex.index id metadata).indexes.lookup field).bind
          fun fieldIndex => fieldIndex.lookup value with
      | none =>
        rw [hanswer] at hid
        exact absurd hid (Finset.notMem_empty id)
      | some ids =>
        rw [hanswer, Option.getD_some] at hid
        obtain ⟨metadata', hcurrent, hevaluate⟩ := (hanswers ids hanswer id).mp hid
        have hnew : Function.update s.current id (some metadata) id = some metadata' := hcurrent
        rw [Function.update_self] at hnew
        rw [← Option.some.inj hnew, FilterCondition.evaluate] at hevaluate
        obtain ⟨value', hlookup, heq⟩ := Option.any_eq_true _ _ |>.mp hevaluate
        rw [hlookup, beq_iff_eq.mp heq] at hdropped
        exact hdropped rfl
  | remove id => exact absurd trivial hcall

def run (vectorIndex : I) (calls : List EngineCall) : Filed I D :=
  calls.foldl perform (start vectorIndex)

/-- In a run whose insertions all renew, an answer of the index is right exactly when it covers
the filter; and an insertion that does not leaves a wrong answer. -/
theorem metadata_index_iff (parse : String → Option F) (vectorIndex : I) (calls : List EngineCall) :
    (Runs.Each perform Renews (start vectorIndex) calls →
      ∀ before after, calls = before ++ after → ∀ filter : FilterCondition F,
        ((run vectorIndex before).engine.metadataIndex.getMatchingIds filter).isSome = true →
          ((run vectorIndex before).Answers parse filter ↔
            (run vectorIndex before).Covers parse filter)) ∧
      (¬Runs.Each perform Renews (start vectorIndex) calls →
        ∃ before after field value, calls = before ++ after ∧
          ¬(run vectorIndex before).Answers parse (.eq field value)) := by
  constructor
  · rintro heach before after rfl filter hsome
    have hkept : (run vectorIndex before).Kept :=
      Runs.Each.foldl (fun s call hs hcall => perform_kept hs hcall) (kept_start vectorIndex)
        heach.before
    exact hkept.answers_iff hsome
  · intro hnot
    obtain ⟨before, call, after, hcalls, heach, hcall⟩ := Runs.exists_first_not hnot
    have hkept : (run vectorIndex before).Kept :=
      Runs.Each.foldl (fun s call hs hcall => perform_kept hs hcall) (kept_start vectorIndex) heach
    obtain ⟨field, value, hwrong⟩ := hkept.stale parse hcall
    refine ⟨before ++ [call], after, field, value, ?_, ?_⟩
    · rw [hcalls, List.append_assoc, List.singleton_append]
    · rw [run, List.foldl_append]
      exact hwrong

/-! ## A colour that changes -/

end Filed

structure Arrivals where
  ids : List VectorId

instance : VectorIndex Arrivals Rat Nat where
  add index id _ := (.ok (), { ids := index.ids.filter (· ≠ id) ++ [id] })
  search index request :=
    .ok ((index.ids.take request.limit).map fun id =>
      { id, score := 0, vector := none, payload := none })

def colour (value : String) : Metadata := AList.insert "colour" value ∅

/-- No colour is a number. -/
def parseColour : String → Option Rat := fun _ => none

def repainted : List EngineCall :=
  [.insert 1 [] (colour "red"), .insert 1 [] (colour "blue")]

theorem not_answers_repainted :
    ¬(Filed.run { ids := [] : Arrivals } repainted).Answers parseColour (.eq "colour" "red") := by
  intro hanswers
  have hids : (Filed.run { ids := [] : Arrivals } repainted).engine.metadataIndex.getMatchingIds
      (.eq "colour" "red" : FilterCondition Rat) = some {1} := by decide
  have hcurrent : (Filed.run { ids := [] : Arrivals } repainted).current 1 = some (colour "blue") := rfl
  obtain ⟨metadata, hmetadata, hred⟩ := (hanswers {1} hids 1).mp (Finset.mem_singleton_self 1)
  rw [hcurrent] at hmetadata
  rw [← Option.some.inj hmetadata] at hred
  exact absurd hred (by decide)

end Index
end RTDB
