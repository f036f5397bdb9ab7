import RTDB.Api.Qdrant
import RTDB.Collection.FilteredSearch

/-!
# Three ways to search

`search_points`, `search_batch` and `query_points` of `api/qdrant_compat.rs` each build the request
to the collection themselves.  Only the first one validates, passes the filter on and returns
vectors.
-/

namespace RTDB
namespace Api
namespace Qdrant

open Storage Index

variable {F D T : Type}

/-- An answer without its time. -/
structure ApiResponse (T : Type) where
  result : Option T
  status : String
  error : Option String
  deriving DecidableEq, Repr

def ApiResponse.success (result : T) : ApiResponse T :=
  { result := some result, status := "ok", error := none }

def ApiResponse.failure (message : String) : ApiResponse T :=
  { result := none, status := "error", error := some message }

structure ScoredPoint (F D : Type) where
  id : PointId
  version : Nat
  score : D
  payload : Option (Payload F)
  vector : Option (List UInt32)

structure SearchParamsConfig where
  hnswEf : Option Nat
  deriving DecidableEq, Repr

structure SearchRequest (F : Type) where
  vector : List UInt32
  limit : Nat
  offset : Option Nat
  filter : Option (Filter F)
  params : Option SearchParamsConfig
  withVector : Option Bool
  withPayload : Bool
  scoreThreshold : Option UInt32

structure QueryRequest (F : Type) where
  query : Option (List UInt32)
  limit : Nat
  filter : Option (Filter F)
  params : Option SearchParamsConfig

/-- The request to the collection: of the fields that its `search` reads, with `Some` parameters. -/
def coreRequest (vector : List UInt32) (limit : Nat) (withPayload withVector : Bool)
    (filter : Option (RTDB.Filter F)) (params : Option SearchParamsConfig) :
    RTDB.SearchRequest F :=
  { vector, limit, withPayload := some (.bool withPayload), withVector, filter
    params := some { hnswEf := params.bind SearchParamsConfig.hnswEf } }

def scoredPoint (vector : Option (List UInt32)) (r : ScoredVector (Payload F) D) :
    ScoredPoint F D :=
  { id := .integer r.id, version := 0, score := r.score, payload := r.payload, vector }

section Handlers

variable [LinearOrder D] [LT F] [LE F] [DecidableLT F] [DecidableLE F]
  (isAlphanumeric : Char → Bool) (lower : String → String) (render : Value F → String)
  (codec : Codec (Payload F)) (collections : String → Option (Collection (Payload F) D))
  (name : String)

def searchPoints (request : SearchRequest F) : ApiResponse (List (ScoredPoint F D)) :=
  match collections name with
  | none => .failure ("Collection not found: " ++ "Collection not found: " ++ name)
  | some collection =>
    match validateSearchRequest isAlphanumeric name request.vector request.limit request.offset
        (some collection.config.dimension) with
    | .error validationError => .failure validationError.text
    | .ok () =>
      let searchRequest := coreRequest request.vector request.limit request.withPayload
        (request.withVector.getD false) (request.filter.map (Filter.toCoreFilter render))
        request.params
      match collection.search codec lower searchRequest with
      | .ok results =>
        .success (results.map fun r =>
          scoredPoint (if request.withVector.getD false then r.vector else none) r)
      | .error e => .failure (errorText e)

/-- What a batch answers to one of its requests. -/
def searchOne (request : SearchRequest F) : List (ScoredPoint F D) :=
  match collections name with
  | some collection =>
    let coreReq := coreRequest request.vector request.limit request.withPayload
      (request.withVector.getD false) none request.params
    match collection.search codec lower coreReq with
    | .ok searchResults => searchResults.map (scoredPoint none)
    | .error _ => []
  | none => []

def searchBatch (searches : List (SearchRequest F)) : ApiResponse (List (List (ScoredPoint F D))) :=
  .success (searches.map (searchOne lower codec collections name))

def queryPoints (request : QueryRequest F) : ApiResponse (List (ScoredPoint F D)) :=
  match request.query with
  | none => .failure "Query vector is required"
  | some vector =>
    match collections name with
    | none => .failure ("Collection not found: " ++ name)
    | some collection =>
      match collection.search codec lower
          (coreRequest vector request.limit true false none request.params) with
      | .ok results => .success (results.map (scoredPoint none))
      | .error e => .failure (errorText e)

end Handlers

/-- The search request of a query, with the default values elsewhere. -/
def QueryRequest.toSearch (request : QueryRequest F) (vector : List UInt32) : SearchRequest F :=
  { vector, limit := request.limit, offset := none, filter := request.filter
    params := request.params, withVector := none, withPayload := true, scoreThreshold := none }

/-! ## The search of the collection -/

/-- A result without its vector is the same where no vector was fetched. -/
theorem scoredPoint_eq_iff {codec : Codec (Payload F)} {c : Collection (Payload F) D}
    (vector : List UInt32) (limit : Nat) (withPayload withVector : Bool)
    (params : Option SearchParamsConfig) {r : ScoredVector (Payload F) D} (hr : r.vector = none) :
    let r' := c.fetch codec (coreRequest vector limit withPayload withVector none params) r
    (scoredPoint (if withVector then r'.vector else none) r' = scoredPoint none r' ↔
      (withVector = true → okSome (c.storage.get codec r.id) = none)) := by
  intro r'
  rw [scoredPoint, scoredPoint, ScoredPoint.mk.injEq]
  cases withVector with
  | false => simp
  | true =>
    have hpayload : (c.fetchPayload codec r).vector = none ∧ (c.fetchPayload codec r).id = r.id := by
      rw [Collection.fetchPayload]
      split
      · exact ⟨hr, rfl⟩
      · exact ⟨hr, rfl⟩
    have hfetched : ∀ q : ScoredVector (Payload F) D, q.vector = none → q.id = r.id →
        ((c.fetchVector codec q).vector = none ↔ okSome (c.storage.get codec r.id) = none) := by
      intro q hq hid
      rw [Collection.fetchVector, hid]
      cases okSome (c.storage.get codec r.id) with
      | none => simp [hq]
      | some v => simp
    have hvector : r'.vector = none ↔ okSome (c.storage.get codec r.id) = none := by
      cases withPayload with
      | false => exact hfetched r hr rfl
      | true => exact hfetched _ hpayload.1 hpayload.2
    simp only [if_true, true_and, forall_const]
    exact hvector

section Search

variable [LinearOrder D]

def found (c : Collection (Payload F) D) (vector : List UInt32) (limit : Nat)
    (params : Option SearchParamsConfig) : List (ScoredVector (Payload F) D) :=
  c.index.search (coreRequest vector limit true false none params : RTDB.SearchRequest F)

theorem found_spec (c : Collection (Payload F) D) (vector : List UInt32) (limit : Nat)
    (params : Option SearchParamsConfig) :
    (found c vector limit params).length ≤ limit ∧
      ∀ r ∈ found c vector limit params, r.vector = none := by
  rw [found, HNSWIndex.search]
  split
  · exact ⟨Nat.zero_le _, fun r hr => absurd hr List.not_mem_nil⟩
  · refine ⟨List.length_take_le _ _, fun r hr => ?_⟩
    obtain ⟨result, -, rfl⟩ := List.mem_map.mp (List.mem_of_mem_take hr)
    rfl

variable [LT F] [LE F] [DecidableLT F] [DecidableLE F]
  {isAlphanumeric : Char → Bool} {lower : String → String} {render : Value F → String}
  {codec : Codec (Payload F)} {collections : String → Option (Collection (Payload F) D)}
  {name : String} {c : Collection (Payload F) D}

def passes (lower : String → String) (codec : Codec (Payload F)) (c : Collection (Payload F) D)
    (filter : Option (RTDB.Filter F)) (r : ScoredVector (Payload F) D) : Bool :=
  filter.all fun f => c.retains codec lower f r

omit [LinearOrder D] in
theorem filter_passes_none (lower : String → String) (codec : Codec (Payload F))
    (c : Collection (Payload F) D) (l : List (ScoredVector (Payload F) D)) :
    l.filter (passes lower codec c none) = l :=
  List.filter_eq_self.mpr fun _ _ => rfl

theorem search_core (lower : String → String) (codec : Codec (Payload F)) {vector : List UInt32}
    (hdim : vector.length = c.config.dimension) (limit : Nat) (withPayload withVector : Bool)
    (filter : Option (RTDB.Filter F)) (params : Option SearchParamsConfig) :
    c.search codec lower (coreRequest vector limit withPayload withVector filter params) =
      .ok (((found c vector limit params).filter (passes lower codec c filter)).map
        (c.fetch codec (coreRequest vector limit withPayload withVector none params))) := by
  have hlength := (found_spec c vector limit params).1
  have hfiltered := (List.length_filter_le (passes lower codec c filter)
    (found c vector limit params)).trans hlength
  cases filter with
  | none =>
    have hlong : ¬(coreRequest vector limit withPayload withVector none params :
        RTDB.SearchRequest F).vector.length ≠ c.config.dimension := not_not.mpr hdim
    rw [filter_passes_none, Collection.search, if_neg hlong]
    dsimp only [coreRequest]
    rw [← List.take_eq_take_min]
    exact congrArg (fun l => Except.ok (List.map _ l)) (List.take_of_length_le hlength)
  | some f =>
    rw [Collection.search_of_dimension codec lower c rfl hdim]
    exact congrArg (fun l => Except.ok (List.map _ l)) (List.take_of_length_le hfiltered)

/-- The filtered list is the whole one, read in another way, when all entries pass and read the same
in both ways. -/
theorem map_filter_eq_map_iff {α β : Type} {p : α → Bool} {f g : α → β} {l : List α} :
    (l.filter p).map f = l.map g ↔ ∀ x ∈ l, p x = true ∧ f x = g x := by
  constructor
  · intro heq
    have hlength := congrArg List.length heq
    rw [List.length_map, List.length_map] at hlength
    have hall := List.filter_eq_self.mp (List.filter_sublist.eq_of_length hlength)
    rw [List.filter_eq_self.mpr hall] at heq
    exact fun x hx => ⟨hall x hx, List.map_inj_left.mp heq x hx⟩
  · intro hall
    rw [List.filter_eq_self.mpr fun x hx => (hall x hx).1]
    exact List.map_inj_left.mpr fun x hx => (hall x hx).2

/-! ## Where the answers agree -/

/-- All that the index finds passes the filter, and no vector is there to be returned. -/
def Undropped (lower : String → String) (render : Value F → String) (codec : Codec (Payload F))
    (c : Collection (Payload F) D) (request : SearchRequest F) : Prop :=
  ∀ r ∈ found c request.vector request.limit request.params,
    passes lower codec c (request.filter.map (Filter.toCoreFilter render)) r = true ∧
      (request.withVector.getD false = true → okSome (c.storage.get codec r.id) = none)

theorem searchPoints_valid (hc : collections name = some c) {request : SearchRequest F}
    (hvalid : validateSearchRequest isAlphanumeric name request.vector request.limit request.offset
      (some c.config.dimension) = .ok ())
    (hdim : request.vector.length = c.config.dimension) :
    searchPoints isAlphanumeric lower render codec collections name request =
      .success (((found c request.vector request.limit request.params).filter
        (passes lower codec c (request.filter.map (Filter.toCoreFilter render)))).map fun r =>
          let r := c.fetch codec (coreRequest request.vector request.limit request.withPayload
            (request.withVector.getD false) none request.params) r
          scoredPoint (if request.withVector.getD false then r.vector else none) r) := by
  rw [searchPoints, hc]
  dsimp only
  rw [hvalid]
  dsimp only
  rw [search_core lower codec hdim]
  dsimp only
  rw [List.map_map]
  rfl

theorem searchOne_eq (hc : collections name = some c) {request : SearchRequest F}
    (hdim : request.vector.length = c.config.dimension) :
    searchOne lower codec collections name request =
      (found c request.vector request.limit request.params).map fun r =>
        scoredPoint none (c.fetch codec (coreRequest request.vector request.limit
          request.withPayload (request.withVector.getD false) none request.params) r) := by
  rw [searchOne, hc]
  dsimp only
  rw [search_core lower codec hdim, filter_passes_none]
  dsimp only
  rw [List.map_map]
  rfl

/-- A batch answers a valid request as a search does exactly when it drops nothing of it. -/
theorem searchOne_iff (hc : collections name = some c) {request : SearchRequest F}
    (hvalid : validateSearchRequest isAlphanumeric name request.vector request.limit request.offset
      (some c.config.dimension) = .ok ())
    (hdim : request.vector.length = c.config.dimension) :
    some (searchOne lower codec collections name request) =
        (searchPoints isAlphanumeric lower render codec collections name request).result ↔
      Undropped lower render codec c request := by
  rw [searchPoints_valid hc hvalid hdim, searchOne_eq hc hdim, ApiResponse.success, Option.some.injEq,
    eq_comm, map_filter_eq_map_iff]
  refine forall₂_congr fun r hr => and_congr_right' ?_
  exact scoredPoint_eq_iff _ _ _ _ _ ((found_spec c _ _ _).2 r hr)

def Accepted (isAlphanumeric : Char → Bool) (collections : String → Option (Collection (Payload F) D))
    (name : String) (request : SearchRequest F) : Prop :=
  ∃ c, collections name = some c ∧
    validateSearchRequest isAlphanumeric name request.vector request.limit request.offset
      (some c.config.dimension) = .ok ()

theorem valid_of_ok {vector : List UInt32} {limit dimension : Nat} {offset : Option Nat}
    (hok : validateSearchRequest isAlphanumeric name vector limit offset (some dimension) = .ok ()) :
    ValidSearch isAlphanumeric name vector limit offset dimension := by
  rcases validateSearchRequest_cases isAlphanumeric name vector limit offset dimension with
    h | ⟨herror, -⟩ | ⟨errors, herror, -⟩
  · exact h.2
  · exact absurd (hok.symm.trans herror) (by simp)
  · exact absurd (hok.symm.trans herror) (by simp)

theorem searchBatch_iff {searches : List (SearchRequest F)}
    (haccepted : ∀ request ∈ searches, Accepted isAlphanumeric collections name request) :
    (∀ i : Nat, (searchBatch lower codec collections name searches).result.bind (·[i]?) =
        searches[i]?.bind fun request =>
          (searchPoints isAlphanumeric lower render codec collections name request).result) ↔
      ∀ request ∈ searches, ∀ c, collections name = some c →
        Undropped lower render codec c request := by
  have hone : ∀ request ∈ searches,
      (some (searchOne lower codec collections name request) =
          (searchPoints isAlphanumeric lower render codec collections name request).result ↔
        ∀ c, collections name = some c → Undropped lower render codec c request) := by
    intro request hrequest
    obtain ⟨c, hc, hok⟩ := haccepted request hrequest
    rw [searchOne_iff hc hok (valid_of_ok hok).dimension_eq]
    constructor
    · intro h c' hc'
      obtain rfl := Option.some.inj (hc.symm.trans hc')
      exact h
    · intro h
      exact h c hc
  have helement : ∀ i : Nat, (searchBatch lower codec collections name searches).result.bind (·[i]?) =
      searches[i]?.bind fun request => some (searchOne lower codec collections name request) := by
    intro i
    rw [searchBatch, ApiResponse.success, Option.bind_some, List.getElem?_map]
    cases searches[i]? <;> rfl
  constructor
  · intro hall request hrequest
    obtain ⟨i, hi⟩ := List.mem_iff_getElem?.mp hrequest
    have hsame := hall i
    rw [helement, hi] at hsame
    exact (hone request hrequest).mp hsame
  · intro hall i
    rw [helement]
    cases hi : searches[i]? with
    | none => rfl
    | some request =>
      have hmem := List.mem_of_getElem? hi
      exact (hone request hmem).mpr (hall request hmem)

theorem queryPoints_eq (hc : collections name = some c) {request : QueryRequest F}
    {vector : List UInt32} (hquery : request.query = some vector) :
    queryPoints lower codec collections name request =
      if vector.length = c.config.dimension then
        .success (searchOne lower codec collections name (request.toSearch vector))
      else .failure (errorText (.invalidDimension c.config.dimension vector.length)) := by
  rw [queryPoints, hquery]
  dsimp only
  rw [hc]
  dsimp only
  by_cases hdim : vector.length = c.config.dimension
  · have hdim' : (request.toSearch vector).vector.length = c.config.dimension := hdim
    rw [if_pos hdim, search_core lower codec hdim, filter_passes_none, searchOne_eq hc hdim']
    dsimp only
    rw [List.map_map]
    rfl
  · have herror : c.search codec lower
        (coreRequest vector request.limit true false none request.params) =
          .error (.invalidDimension c.config.dimension vector.length) := by
      rw [Collection.search]
      exact if_pos hdim
    rw [if_neg hdim, herror]

/-- Texts that start differently differ. -/
theorem ne_append_of_head {s t : String} {a b : Char} (hab : a ≠ b) (hs : s.toList.head? = some a)
    (ht : t.toList.head? = some b) (rest : String) : s ≠ t ++ rest := by
  rintro rfl
  rw [String.toList_append, List.head?_append, ht, Option.some_or] at hs
  exact hab (Option.some.inj hs).symm

theorem text_validationFailed (errors : List ValidationError) (expected actual : Nat) :
    (ApiError.validationFailed errors).text ≠ errorText (.invalidDimension expected actual) := by
  show "Validation failed" ≠ "Invalid vector dimension: expected " ++ toString expected ++ ", got " ++
    toString actual
  rw [String.append_assoc, String.append_assoc]
  exact ne_append_of_head (a := 'V') (b := 'I') (by decide) (by decide) (by decide) _

/-- A text said twice is another text. -/
theorem append_append_ne {said : String} (hsaid : 0 < said.length) (rest : String) :
    said ++ said ++ rest ≠ said ++ rest := by
  intro htext
  have hlen := congrArg String.length htext
  rw [String.length_append, String.length_append, String.length_append] at hlen
  omega

/-- A query answers as the search with the same fields exactly when both tell the dimension, or the
search is valid and nothing of it is dropped. -/
theorem queryPoints_iff {request : QueryRequest F} {vector : List UInt32}
    (hquery : request.query = some vector) :
    queryPoints lower codec collections name request =
        searchPoints isAlphanumeric lower render codec collections name
          (request.toSearch vector) ↔
      ∃ c, collections name = some c ∧
        ((validateCollectionName isAlphanumeric name = .ok () ∧ vector ≠ [] ∧
            vector.length ≠ c.config.dimension) ∨
          (ValidSearch isAlphanumeric name vector request.limit none c.config.dimension ∧
            Undropped lower render codec c (request.toSearch vector))) := by
  cases hc : collections name with
  | none =>
    refine iff_of_false (fun hsame => ?_) (by simp)
    rw [queryPoints, hquery] at hsame
    dsimp only at hsame
    rw [hc, searchPoints, hc] at hsame
    have htext := congrArg ApiResponse.error hsame
    exact append_append_ne (by decide) name (Option.some.inj htext).symm
  | some c =>
    rw [queryPoints_eq hc hquery]
    have hcases := validateSearchRequest_cases isAlphanumeric name vector request.limit none
      c.config.dimension
    simp only [Option.some.injEq, exists_eq_left']
    rcases hcases with ⟨hok, hvalid⟩ | ⟨herror, hmisfit⟩ | ⟨errors, herror, hinvalid, hfits⟩
    · rw [if_pos hvalid.dimension_eq, or_iff_right fun h => h.2.2 hvalid.dimension_eq,
        and_iff_right hvalid, ← searchOne_iff hc hok hvalid.dimension_eq,
        searchPoints_valid hc hok hvalid.dimension_eq]
      constructor
      · intro h
        exact congrArg ApiResponse.result h
      · intro h
        exact congrArg ApiResponse.success (Option.some.inj h)
    · refine iff_of_true ?_ (Or.inl hmisfit)
      rw [if_neg hmisfit.2.2, searchPoints, hc]
      dsimp only
      rw [QueryRequest.toSearch]
      dsimp only
      rw [herror]
      rfl
    · refine iff_of_false (fun hsame => ?_) (not_or.mpr ⟨hfits, fun h => hinvalid h.1⟩)
      have hsearch : searchPoints isAlphanumeric lower render codec collections name
          (request.toSearch vector) = .failure (ApiError.validationFailed errors).text := by
        rw [searchPoints, hc]
        dsimp only [QueryRequest.toSearch]
        rw [herror]
      rw [hsearch] at hsame
      split at hsame
      · exact absurd (congrArg ApiResponse.result hsame)
          (by simp [ApiResponse.success, ApiResponse.failure])
      · exact text_validationFailed errors _ _
          (Option.some.inj (congrArg ApiResponse.error hsame)).symm

/-- A batch answers the requests that a search accepts as the search does, and a query as the search
with the same fields, exactly where the filter and the vectors that they drop make no difference; a
query moreover has to be valid, unless only its dimension is wrong. -/
theorem searches_agree_iff (isAlphanumeric : Char → Bool) (lower : String → String)
    (render : Value F → String) (codec : Codec (Payload F))
    (collections : String → Option (Collection (Payload F) D)) (name : String) :
    (∀ searches : List (SearchRequest F),
      (∀ request ∈ searches, Accepted isAlphanumeric collections name request) →
        ((∀ i : Nat, (searchBatch lower codec collections name searches).result.bind (·[i]?) =
            searches[i]?.bind fun request =>
              (searchPoints isAlphanumeric lower render codec collections name request).result) ↔
          ∀ request ∈ searches, ∀ c, collections name = some c →
            Undropped lower render codec c request)) ∧
      ∀ (request : QueryRequest F) (vector : List UInt32), request.query = some vector →
        (queryPoints lower codec collections name request =
            searchPoints isAlphanumeric lower render codec collections name
              (request.toSearch vector) ↔
          ∃ c, collections name = some c ∧
            ((validateCollectionName isAlphanumeric name = .ok () ∧ vector ≠ [] ∧
                vector.length ≠ c.config.dimension) ∨
              (ValidSearch isAlphanumeric name vector request.limit none c.config.dimension ∧
                Undropped lower render codec c (request.toSearch vector)))) :=
  ⟨fun _ haccepted => searchBatch_iff haccepted, fun _ _ hquery => queryPoints_iff hquery⟩

end Search

/-! ## A filter that is dropped -/

section Sample

open Collection (sample)

def sampleRender (_ : Value Nat) : String := ""

/-- A request for the nearest vector, with a filter or none. -/
def nearest (filter : Option (Filter Nat)) : SearchRequest Nat :=
  { vector := [0x3F800000], limit := 1, offset := none, filter, params := none, withVector := none
    withPayload := true, scoreThreshold := none }

def red : Filter Nat :=
  { must := some [{ key := "color", condition := .keyword "red" }], should := none, mustNot := none }

theorem searches_agree_sample :
    ∀ i : Nat, (searchBatch String.toLower (textCodec [] []) (fun _ => some sample) "points"
        [nearest none]).result.bind (·[i]?) =
      [nearest none][i]?.bind fun request =>
        (searchPoints Char.isAlphanum String.toLower sampleRender (textCodec [] []) (fun _ => some sample)
          "points" request).result := by
  refine ((searches_agree_iff Char.isAlphanum String.toLower sampleRender (textCodec [] [])
    (fun _ => some sample) "points").1 [nearest none] ?_).mpr ?_
  · intro request hrequest
    obtain rfl := List.mem_singleton.mp hrequest
    exact ⟨sample, rfl, by decide +kernel⟩
  · intro request hrequest c hc r hr
    obtain rfl := List.mem_singleton.mp hrequest
    exact ⟨rfl, fun h => absurd h (by decide)⟩

/-- The search finds no red point, the batch one that is not red. -/
theorem not_searches_agree_sample :
    Accepted Char.isAlphanum (fun _ => some sample) "points" (nearest (some red)) ∧
      ¬∀ i : Nat, (searchBatch String.toLower (textCodec [] []) (fun _ => some sample) "points"
          [nearest (some red)]).result.bind (·[i]?) =
        [nearest (some red)][i]?.bind fun request =>
          (searchPoints Char.isAlphanum String.toLower sampleRender (textCodec [] [])
            (fun _ => some sample) "points" request).result := by
  refine ⟨⟨sample, rfl, by decide +kernel⟩, fun hall => ?_⟩
  have hfirst := congrArg (Option.map List.length) (hall 0)
  exact absurd hfirst (by decide +kernel)

end Sample

end Qdrant
end Api
end RTDB
