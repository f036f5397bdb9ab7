import Mathlib.Algebra.Field.Rat
import Mathlib.Data.Finset.Card
import RTDB.Index.HybridSearch
import RTDB.Lib.Cut

/-!
# Search strategies

`search` of `index/hybrid_search.rs`.  Each strategy takes ten times as many results as are
wanted from the vector index and keeps what passes: by the metadata index before, by the stored
metadata after.
-/

namespace RTDB
namespace Index

open Storage (VectorId)

inductive SearchStrategy where
  | preFilter
  | postFilter
  | auto
  deriving DecidableEq, Repr

namespace MetadataIndex

variable {F : Type} [NatCast F] [One F] [Add F] [Sub F] [Mul F] [Div F]

def estimateSelectivity (m : MetadataIndex) : FilterCondition F → F
  | .eq field value =>
    match (m.indexes.lookup field).bind fun fieldIndex => fieldIndex.lookup value with
    | some ids => (ids.card : F) / (((m.fieldCounts.lookup field).getD 1 : Nat) : F)
    | none => 1
  | .and left right => m.estimateSelectivity left * m.estimateSelectivity right
  | .or left right =>
    let s1 := m.estimateSelectivity left
    let s2 := m.estimateSelectivity right
    s1 + s2 - s1 * s2
  | _ => 1

end MetadataIndex

namespace HybridSearchEngine

variable {I F D : Type} [VectorIndex I F D] [One D] [Sub D]

/-- A score is turned into a distance. -/
def toResult (s : ScoredVector (Payload F) D) : SearchResult D :=
  { id := s.id, distance := 1 - s.score, vector := none }

def doVectorSearch (e : HybridSearchEngine I D) (query : List UInt32) (k : Nat) :
    Except SearchError (List (SearchResult D)) :=
  match VectorIndex.search e.vectorIndex (SearchRequest.new query k) with
  | .error err => .error (.index err)
  | .ok scored => .ok (scored.map toResult)

/-- `k * 10` as a `usize`. -/
def fetched (k : Nat) : Nat := k * 10 % 2 ^ 64

def preFilterSearch (e : HybridSearchEngine I D) (query : List UInt32) (k : Nat) :
    Option (FilterCondition F) → Except SearchError (List (SearchResult D))
  | none => e.doVectorSearch query k
  | some filter =>
    match e.metadataIndex.getMatchingIds filter with
    | none => .error (.query "Filter not indexable")
    | some candidateIds =>
      if candidateIds = ∅ then .ok []
      else
        (e.doVectorSearch query (fetched k)).map fun allResults =>
          (allResults.filter fun r => r.id ∈ candidateIds).take k

/-- The loop of `post_filter_search`, which ends when it has `k` results. -/
def retain (keep : SearchResult D → Bool) (k : Nat) :
    List (SearchResult D) → List (SearchResult D) → List (SearchResult D)
  | [], results => results
  | candidate :: rest, results =>
    if keep candidate then
      if k ≤ (results ++ [candidate]).length then results ++ [candidate]
      else retain keep k rest (results ++ [candidate])
    else retain keep k rest results

/-- The vector index ranks its vectors: if it answers, with the front of the ranking. -/
def Ranks (e : HybridSearchEngine I D) (query : List UInt32) (limit : Nat)
    (ranking : List (ScoredVector (Payload F) D)) : Prop :=
  ∀ scored, VectorIndex.search e.vectorIndex (SearchRequest.new query limit) = .ok scored →
    scored = ranking.take limit

variable {e : HybridSearchEngine I D} {query : List UInt32} {k limit : Nat} {filter : FilterCondition F}
  {ids : Finset VectorId} {ranking : List (ScoredVector (Payload F) D)} {keep : SearchResult D → Bool}
  {results : List (SearchResult D)}

omit [One D] [Sub D] in
/-- The loop takes the first matches until it has enough. -/
theorem retain_eq {candidates : List (SearchResult D)} (hresults : results.length < k) :
    retain keep k candidates results =
      results ++ (candidates.filter keep).take (k - results.length) := by
  induction candidates generalizing results with
  | nil => simp [retain]
  | cons candidate rest ih =>
    have hlength : (results ++ [candidate]).length = results.length + 1 := by simp
    rw [retain]
    cases hkeep : keep candidate with
    | false =>
      rw [if_neg Bool.false_ne_true, List.filter_cons_of_neg (by simp [hkeep])]
      exact ih hresults
    | true =>
      have hpos : k - results.length = k - results.length - 1 + 1 := by omega
      rw [if_pos rfl, List.filter_cons_of_pos hkeep, hpos, List.take_succ_cons]
      split
      case isTrue henough =>
        have hzero : k - results.length - 1 = 0 := by omega
        rw [hzero, List.take_zero]
      case isFalse hmore =>
        have hrest : k - (results ++ [candidate]).length = k - results.length - 1 := by omega
        rw [ih (Nat.lt_of_not_le hmore), hrest, List.append_assoc, List.singleton_append]

theorem doVectorSearch_eq {scored : List (ScoredVector (Payload F) D)}
    (hranks : e.Ranks query limit ranking)
    (hscored : VectorIndex.search e.vectorIndex (SearchRequest.new query limit) = .ok scored) :
    e.doVectorSearch query limit = .ok ((ranking.map toResult).take limit) := by
  rw [doVectorSearch, hscored]
  dsimp only
  rw [hranks scored hscored, List.map_take]

theorem preFilterSearch_eq (hresults : e.doVectorSearch query (fetched k) = .ok results)
    (hids : e.metadataIndex.getMatchingIds filter = some ids) :
    e.preFilterSearch query k (some filter) = .ok ((results.filter fun r => r.id ∈ ids).take k) := by
  rw [preFilterSearch, hids]
  dsimp only
  split
  case isTrue hempty => simp [hempty]
  case isFalse =>
    rw [hresults]
    rfl

variable [LT F] [LE F] [DecidableLT F] [DecidableLE F]

def passes (e : HybridSearchEngine I D) (parse : String → Option F) (filter : FilterCondition F)
    (r : SearchResult D) : Bool :=
  (e.metadataStore.lookup r.id).any fun metadata => filter.evaluate parse metadata

def postFilterSearch (e : HybridSearchEngine I D) (parse : String → Option F) (query : List UInt32)
    (k : Nat) : Option (FilterCondition F) → Except SearchError (List (SearchResult D))
  | none => e.doVectorSearch query k
  | some filter =>
    (e.doVectorSearch query (fetched k)).map fun candidates =>
      retain (e.passes parse filter) k candidates []

variable {parse : String → Option F}

/-- Nothing is fetched where nothing is wanted. -/
theorem postFilterSearch_eq (hresults : e.doVectorSearch query (fetched k) = .ok results)
    (hlength : results.length ≤ fetched k) :
    e.postFilterSearch parse query k (some filter) =
      .ok ((results.filter (e.passes parse filter)).take k) := by
  rw [postFilterSearch, hresults, Except.map]
  cases k with
  | zero =>
    rw [List.eq_nil_of_length_eq_zero (Nat.le_zero.mp hlength)]
    rfl
  | succ k => rw [retain_eq (Nat.zero_lt_succ k), List.nil_append, List.length_nil, Nat.sub_zero]

variable [NatCast F] [One F] [Add F] [Sub F] [Mul F] [Div F]

/-- What `search` does when the cache has no answer; `tenth` is the bound on a selective filter. -/
def searchUncached (e : HybridSearchEngine I D) (parse : String → Option F) (tenth : F)
    (query : List UInt32) (k : Nat) (filter : Option (FilterCondition F)) :
    SearchStrategy → Except SearchError (List (SearchResult D))
  | .preFilter => e.preFilterSearch query k filter
  | .postFilter => e.postFilterSearch parse query k filter
  | .auto =>
    match filter with
    | none => e.doVectorSearch query k
    | some f =>
      if e.metadataIndex.estimateSelectivity f < tenth then e.preFilterSearch query k filter
      else e.postFilterSearch parse query k filter

def search (e : HybridSearchEngine I D) (hasher : Hasher F) (now : Nat) (parse : String → Option F)
    (tenth : F) (query : List UInt32) (k : Nat) (filter : Option (FilterCondition F))
    (strategy : SearchStrategy) :
    Except SearchError (List (SearchResult D)) × HybridSearchEngine I D :=
  let key := hasher.makeKey query filter k
  match e.cache.get key now with
  | (some cached, cache) => (.ok cached, { e with cache })
  | (none, cache) =>
    match e.searchUncached parse tenth query k filter strategy with
    | .error err => (.error err, { e with cache })
    | .ok results => (.ok results, { e with cache := cache.put key now results })

def best (e : HybridSearchEngine I D) (parse : String → Option F)
    (ranking : List (ScoredVector (Payload F) D)) (k : Nat) (filter : FilterCondition F) :
    List (SearchResult D) :=
  ((ranking.map toResult).filter (e.passes parse filter)).take k

/-! ## What the strategies answer -/

variable {tenth : F}

theorem search_empty_cache {hasher : Hasher F} {now : Nat} {strategy : SearchStrategy}
    {filter : Option (FilterCondition F)} (hcache : e.cache.cache = ∅) :
    (e.search hasher now parse tenth query k filter strategy).1 =
      e.searchUncached parse tenth query k filter strategy := by
  rw [search, QueryCache.get, hcache, AList.lookup_empty]
  dsimp only
  split <;> simp_all

/-- Every strategy is one of the two. -/
theorem searchUncached_forall (P : Except SearchError (List (SearchResult D)) → Prop) :
    (∀ strategy, P (e.searchUncached parse tenth query k (some filter) strategy)) ↔
      P (e.preFilterSearch query k (some filter)) ∧
        P (e.postFilterSearch parse query k (some filter)) := by
  constructor
  · intro hall
    exact ⟨hall .preFilter, hall .postFilter⟩
  · rintro ⟨hpre, hpost⟩ strategy
    cases strategy with
    | preFilter => exact hpre
    | postFilter => exact hpost
    | auto =>
      rw [searchUncached]
      split
      · exact hpre
      · exact hpost

/-- With an empty cache all strategies answer with the best ranked vectors that satisfy the filter
exactly when the vector index answers, the two sources of metadata agree on the ranking up to the
last of these vectors, and these are among the results that are fetched. -/
theorem search_strategies_iff (hasher : Hasher F) (now : Nat) (parse : String → Option F) (tenth : F)
    (e : HybridSearchEngine I D) (hcache : e.cache.cache = ∅) (query : List UInt32) (k : Nat)
    (filter : FilterCondition F) (ids : Finset VectorId)
    (hids : e.metadataIndex.getMatchingIds filter = some ids)
    (ranking : List (ScoredVector (Payload F) D)) (hranks : e.Ranks query (fetched k) ranking) :
    (∀ strategy, (e.search hasher now parse tenth query k (some filter) strategy).1 =
        .ok (e.best parse ranking k filter)) ↔
      (∃ scored, VectorIndex.search e.vectorIndex (SearchRequest.new query (fetched k)) = .ok scored) ∧
        Cut.AgreeBefore (e.passes parse filter) (fun r => r.id ∈ ids) k
          ((ranking.map toResult).take (fetched k)) ∧
        (k ≤ ((ranking.map toResult).take (fetched k)).countP (e.passes parse filter) ∨
          ∀ r ∈ (ranking.map toResult).drop (fetched k), e.passes parse filter r = false) := by
  simp only [search_empty_cache hcache]
  rw [searchUncached_forall fun answer => answer = .ok (e.best parse ranking k filter)]
  cases hscored : VectorIndex.search e.vectorIndex (SearchRequest.new query (fetched k)) with
  | error err =>
    have hfails : e.postFilterSearch parse query k (some filter) = .error (.index err) := by
      rw [postFilterSearch, doVectorSearch, hscored]
      rfl
    simp [hfails]
  | ok scored =>
    have hresults := doVectorSearch_eq hranks hscored
    rw [preFilterSearch_eq hresults hids, postFilterSearch_eq hresults (List.length_take_le _ _),
      ← Cut.take_filter_iff, ← Cut.front_iff, Except.ok.injEq, Except.ok.injEq, best]
    constructor
    · rintro ⟨hpre, hpost⟩
      exact ⟨⟨scored, rfl⟩, hpost.trans hpre.symm, hpost⟩
    · rintro ⟨-, hsame, hpost⟩
      exact ⟨hsame.symm.trans hpost, hpost⟩

end HybridSearchEngine

/-! ## Two colours -/

open HybridSearchEngine

def sampleHasher : Hasher Rat := { query := fun _ => 0, filter := fun _ => 0 }

def paintedEngine (calls : List EngineCall) : HybridSearchEngine Arrivals Nat :=
  (Filed.run { ids := [] } calls).engine

def arrival (id : VectorId) : ScoredVector (Payload Rat) Nat :=
  { id, score := 0, vector := none, payload := none }

/-- The nearest vector is blue. -/
def redSecond : List EngineCall := [.insert 2 [] (colour "blue"), .insert 1 [] (colour "red")]

theorem search_strategies_red :
    (paintedEngine redSecond).metadataIndex.getMatchingIds (.eq "colour" "red" : FilterCondition Rat) =
        some {1} ∧
      ∀ strategy,
        ((paintedEngine redSecond).search sampleHasher 0 parseColour (1 / 10) [] 1
            (some (.eq "colour" "red")) strategy).1 =
          .ok ((paintedEngine redSecond).best parseColour [arrival 2, arrival 1] 1
            (.eq "colour" "red")) := by
  have hids : (paintedEngine redSecond).metadataIndex.getMatchingIds
      (.eq "colour" "red" : FilterCondition Rat) = some {1} := by decide
  refine ⟨hids, (search_strategies_iff sampleHasher 0 parseColour (1 / 10) (paintedEngine redSecond) rfl
    [] 1 (.eq "colour" "red") {1} hids [arrival 2, arrival 1]
    (fun scored hscored => (Except.ok.inj hscored).symm)).mpr ⟨⟨[arrival 2, arrival 1], rfl⟩, ?_, ?_⟩⟩
  · decide
  · exact Or.inl (by decide)

/-- The index still has the colour before the last one, the store does not. -/
theorem not_search_strategies_repainted :
    (paintedEngine repainted).metadataIndex.getMatchingIds (.eq "colour" "red" : FilterCondition Rat) =
        some {1} ∧
      (paintedEngine repainted).Ranks [] (fetched 1) [arrival 1] ∧
      ¬∀ strategy,
        ((paintedEngine repainted).search sampleHasher 0 parseColour (1 / 10) [] 1
            (some (.eq "colour" "red")) strategy).1 =
          .ok ((paintedEngine repainted).best parseColour [arrival 1] 1 (.eq "colour" "red")) := by
  refine ⟨by decide, fun scored hscored => (Except.ok.inj hscored).symm, fun hall => ?_⟩
  have hpre : ((paintedEngine repainted).search sampleHasher 0 parseColour (1 / 10) [] 1
      (some (.eq "colour" "red")) .preFilter).1 =
        .ok [{ id := 1, distance := 1, vector := none }] := by
    decide
  have hbest : (paintedEngine repainted).best parseColour [arrival 1] 1 (.eq "colour" "red") = [] := by
    decide
  rw [hall, hbest] at hpre
  exact absurd (Except.ok.inj hpre) (by simp)

end Index
end RTDB
