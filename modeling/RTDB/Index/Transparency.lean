import RTDB.Index.Strategies

/-!
# Transparency of the query cache

`search` and `clear_cache` of `index/hybrid_search.rs` over runs.  An insertion leaves the cache
as it is and the key of an entry says nothing of the strategy, so that a search may be answered
with what another one found.
-/

namespace RTDB
namespace Index

open Storage (VectorId)

namespace QueryCache

variable {D : Type} {c : QueryCache D} {key : QueryCacheKey} {now : Nat}

def invalidate (c : QueryCache D) : QueryCache D := { c with cache := ∅ }

/-- Looking a key up only counts. -/
theorem get_cache (c : QueryCache D) (key : QueryCacheKey) (now : Nat) :
    (c.get key now).2.cache = c.cache := by
  rw [get]
  split
  · split <;> rfl
  · rfl

theorem lookup_of_get {results : List (SearchResult D)} (hget : (c.get key now).1 = some results) :
    ∃ entry, c.cache.lookup key = some entry ∧ entry.results = results := by
  rw [get] at hget
  split at hget
  case h_1 entry hentry =>
    split at hget
    · exact absurd hget (by simp)
    · exact ⟨entry, hentry, Option.some.inj hget⟩
  case h_2 => exact absurd hget (by simp)

end QueryCache

/-! ## Routes -/

/-- How a search is carried out: by the vector index alone, or with the filter before or after. -/
inductive Route where
  | plain
  | preFilter
  | postFilter
  deriving DecidableEq, Repr

namespace HybridSearchEngine

variable {I F D : Type}

def clearCache (e : HybridSearchEngine I D) : HybridSearchEngine I D :=
  { e with cache := e.cache.invalidate }

structure SameContents (e e' : HybridSearchEngine I D) : Prop where
  vectorIndex : e.vectorIndex = e'.vectorIndex
  metadataIndex : e.metadataIndex = e'.metadataIndex
  metadataStore : e.metadataStore = e'.metadataStore

variable [VectorIndex I F D]

theorem insert_cache (e : HybridSearchEngine I D) (id : VectorId) (vector : List UInt32)
    (metadata : Metadata) : (e.insert id vector metadata).2.cache = e.cache := by
  rw [insert]
  split <;> rfl

variable [One D] [Sub D] [LT F] [LE F] [DecidableLT F] [DecidableLE F]
  {e e' : HybridSearchEngine I D} {hasher : Hasher F} {now : Nat} {parse : String → Option F}
  {tenth : F} {query : List UInt32} {k : Nat} {filter : Option (FilterCondition F)}
  {strategy strategy' : SearchStrategy}

def searchBy (e : HybridSearchEngine I D) (parse : String → Option F) (query : List UInt32) (k : Nat)
    (filter : Option (FilterCondition F)) : Route → Except SearchError (List (SearchResult D))
  | .plain => e.doVectorSearch query k
  | .preFilter => e.preFilterSearch query k filter
  | .postFilter => e.postFilterSearch parse query k filter

/-- The cache has no part in a search that it does not answer. -/
theorem searchBy_congr (hsame : e.SameContents e') (route : Route) :
    e.searchBy parse query k filter route = e'.searchBy parse query k filter route := by
  cases e with
  | mk vectorIndex metadataIndex cache metadataStore =>
    cases e' with
    | mk vectorIndex' metadataIndex' cache' metadataStore' =>
      obtain rfl : vectorIndex = vectorIndex' := hsame.vectorIndex
      obtain rfl : metadataIndex = metadataIndex' := hsame.metadataIndex
      obtain rfl : metadataStore = metadataStore' := hsame.metadataStore
      cases route <;> cases filter <;> rfl

variable [NatCast F] [One F] [Add F] [Sub F] [Mul F] [Div F]

def route (e : HybridSearchEngine I D) (tenth : F) : Option (FilterCondition F) → SearchStrategy → Route
  | none, _ => .plain
  | some _, .preFilter => .preFilter
  | some _, .postFilter => .postFilter
  | some f, .auto => if e.metadataIndex.estimateSelectivity f < tenth then .preFilter else .postFilter

theorem searchUncached_eq : e.searchUncached parse tenth query k filter strategy =
    e.searchBy parse query k filter (e.route tenth filter strategy) := by
  cases filter with
  | none => cases strategy <;> rfl
  | some f =>
    cases strategy with
    | preFilter => rfl
    | postFilter => rfl
    | auto =>
      rw [searchUncached, route]
      split <;> rfl

theorem searchUncached_congr (hsame : e.SameContents e')
    (hroute : e.route tenth filter strategy = e'.route tenth filter strategy') :
    e.searchUncached parse tenth query k filter strategy =
      e'.searchUncached parse tenth query k filter strategy' := by
  rw [searchUncached_eq, searchUncached_eq, hroute]
  exact searchBy_congr hsame _

/-- A search is answered by the cache, or fails, or files what it finds. -/
theorem search_cases (e : HybridSearchEngine I D) (hasher : Hasher F) (now : Nat)
    (parse : String → Option F) (tenth : F) (query : List UInt32) (k : Nat)
    (filter : Option (FilterCondition F)) (strategy : SearchStrategy) :
    (∃ results, (e.cache.get (hasher.makeKey query filter k) now).1 = some results ∧
      e.search hasher now parse tenth query k filter strategy =
        (.ok results, { e with cache := (e.cache.get (hasher.makeKey query filter k) now).2 })) ∨
    ((e.cache.get (hasher.makeKey query filter k) now).1 = none ∧
      ∃ err, e.searchUncached parse tenth query k filter strategy = .error err ∧
        e.search hasher now parse tenth query k filter strategy =
          (.error err, { e with cache := (e.cache.get (hasher.makeKey query filter k) now).2 })) ∨
    ((e.cache.get (hasher.makeKey query filter k) now).1 = none ∧
      ∃ results, e.searchUncached parse tenth query k filter strategy = .ok results ∧
        e.search hasher now parse tenth query k filter strategy =
          (.ok results,
            { e with
              cache :=
                (e.cache.get (hasher.makeKey query filter k) now).2.put
                  (hasher.makeKey query filter k) now results })) := by
  rw [search]
  cases hget : e.cache.get (hasher.makeKey query filter k) now with
  | mk answer cache =>
    cases answer with
    | some results => exact Or.inl ⟨results, rfl, rfl⟩
    | none =>
      cases hsearch : e.searchUncached parse tenth query k filter strategy with
      | error err => exact Or.inr (Or.inl ⟨rfl, err, rfl, rfl⟩)
      | ok results => exact Or.inr (Or.inr ⟨rfl, results, rfl, rfl⟩)

end HybridSearchEngine

/-! ## Runs with a cache -/

inductive CachedCall (F : Type) where
  | insert (id : VectorId) (vector : List UInt32) (metadata : Metadata)
  | search (now : Nat) (query : List UInt32) (k : Nat) (filter : Option (FilterCondition F))
      (strategy : SearchStrategy)
  | clearCache

/-- The search that filed an entry, and the engine it was made on. -/
structure Origin (I F D : Type) where
  engine : HybridSearchEngine I D
  query : List UInt32
  k : Nat
  filter : Option (FilterCondition F)
  strategy : SearchStrategy

structure CachedEngine (I F D : Type) where
  engine : HybridSearchEngine I D
  origins : QueryCacheKey → Option (Origin I F D)

namespace CachedEngine

variable {I F D : Type} [VectorIndex I F D] [One D] [Sub D] [LT F] [LE F] [DecidableLT F]
  [DecidableLE F] [NatCast F] [One F] [Add F] [Sub F] [Mul F] [Div F]

def start (vectorIndex : I) : CachedEngine I F D :=
  { engine := HybridSearchEngine.new vectorIndex, origins := fun _ => none }

variable (hasher : Hasher F) (parse : String → Option F) (tenth : F)

/-- What the search that filed the entry found. -/
def answer (o : Origin I F D) : Except SearchError (List (SearchResult D)) :=
  o.engine.searchUncached parse tenth o.query o.k o.filter o.strategy

def perform (s : CachedEngine I F D) : CachedCall F → CachedEngine I F D
  | .insert id vector metadata => { s with engine := (s.engine.insert id vector metadata).2 }
  | .search now query k filter strategy =>
    let key := hasher.makeKey query filter k
    { engine := (s.engine.search hasher now parse tenth query k filter strategy).2
      origins :=
        match (s.engine.cache.get key now).1,
            s.engine.searchUncached parse tenth query k filter strategy with
        | none, .ok _ =>
          Function.update s.origins key (some { engine := s.engine, query, k, filter, strategy })
        | _, _ => s.origins }
  | .clearCache => { engine := s.engine.clearCache, origins := fun _ => none }

/-- The call answers as it would with an empty cache. -/
def Transparent (s : CachedEngine I F D) : CachedCall F → Prop
  | .search now query k filter strategy =>
    (s.engine.search hasher now parse tenth query k filter strategy).1 =
      (s.engine.clearCache.search hasher now parse tenth query k filter strategy).1
  | _ => True

/-- An entry that answers was filed for this query and filter, by this route, and the vectors and
metadata are what they were. -/
def Current (s : CachedEngine I F D) : CachedCall F → Prop
  | .search now query k filter strategy =>
    ∀ o, s.origins (hasher.makeKey query filter k) = some o →
      (s.engine.cache.get (hasher.makeKey query filter k) now).1.isSome = true →
        o.query = query ∧ o.filter = filter ∧ o.engine.SameContents s.engine ∧
          o.engine.route tenth filter o.strategy = s.engine.route tenth filter strategy
  | _ => True

/-- Every entry has an origin, which is where its results are from. -/
def Traced (s : CachedEngine I F D) : Prop :=
  ∀ key entry, s.engine.cache.cache.lookup key = some entry →
    ∃ o, s.origins key = some o ∧ hasher.makeKey o.query o.filter o.k = key ∧
      answer parse tenth o = .ok entry.results

variable {hasher parse tenth} {s : CachedEngine I F D} {call : CachedCall F}

theorem traced_start (vectorIndex : I) :
    Traced hasher parse tenth (start vectorIndex : CachedEngine I F D) := by
  intro key entry hentry
  exact absurd hentry (by simp [start, HybridSearchEngine.new, QueryCache.new])

theorem Traced.search (hs : s.Traced hasher parse tenth) (now : Nat) (query : List UInt32) (k : Nat)
    (filter : Option (FilterCondition F)) (strategy : SearchStrategy) :
    (s.perform hasher parse tenth (.search now query k filter strategy)).Traced hasher parse tenth := by
  have hcache := s.engine.cache.get_cache (hasher.makeKey query filter k) now
  simp only [perform]
  rcases s.engine.search_cases hasher now parse tenth query k filter strategy with
    ⟨results, hget, hsearch⟩ | ⟨hget, err, huncached, hsearch⟩ | ⟨hget, results, huncached, hsearch⟩
  · rw [hsearch, hget]
    intro key entry hentry
    rw [hcache] at hentry
    exact hs key entry hentry
  · rw [hsearch, hget, huncached]
    intro key entry hentry
    rw [hcache] at hentry
    exact hs key entry hentry
  · rw [hsearch, hget, huncached]
    intro key entry hentry
    rw [QueryCache.put, hcache] at hentry
    by_cases hkey : key = hasher.makeKey query filter k
    · rw [hkey, AList.lookup_insert] at hentry
      rw [hkey, ← Option.some.inj hentry]
      exact ⟨_, Function.update_self _ _ _, rfl, huncached⟩
    · rw [AList.lookup_insert_ne hkey] at hentry
      obtain ⟨o, horigin, ho, hanswer⟩ := hs key entry hentry
      refine ⟨o, ?_, ho, hanswer⟩
      show Function.update s.origins _ _ key = some o
      rw [Function.update_of_ne hkey]
      exact horigin

theorem Traced.perform (hs : s.Traced hasher parse tenth) :
    (s.perform hasher parse tenth call).Traced hasher parse tenth := by
  cases call with
  | insert id vector metadata =>
    intro key entry hentry
    rw [CachedEngine.perform, HybridSearchEngine.insert_cache] at hentry
    exact hs key entry hentry
  | search now query k filter strategy => exact hs.search now query k filter strategy
  | clearCache =>
    intro key entry hentry
    exact absurd hentry
      (by simp [CachedEngine.perform, HybridSearchEngine.clearCache, QueryCache.invalidate])

/-- A search is answered by the index, or by an entry with what its origin found. -/
theorem Traced.transparent (hs : s.Traced hasher parse tenth) (hcall : s.Current hasher tenth call) :
    s.Transparent hasher parse tenth call := by
  cases call with
  | search now query k filter strategy =>
    have hempty : (s.engine.clearCache.search hasher now parse tenth query k filter strategy).1 =
        s.engine.searchUncached parse tenth query k filter strategy := by
      rw [HybridSearchEngine.search_empty_cache rfl]
      exact HybridSearchEngine.searchUncached_congr ⟨rfl, rfl, rfl⟩ (by cases filter <;> rfl)
    rw [Transparent, hempty]
    rcases s.engine.search_cases hasher now parse tenth query k filter strategy with
      ⟨results, hget, hsearch⟩ | ⟨-, err, huncached, hsearch⟩ | ⟨-, results, huncached, hsearch⟩
    · obtain ⟨entry, hentry, hresults⟩ := QueryCache.lookup_of_get hget
      obtain ⟨o, horigin, hkey, hanswer⟩ := hs _ entry hentry
      obtain ⟨hquery, hfilter, hsame, hroute⟩ := hcall o horigin (by rw [hget]; rfl)
      have hk : o.k = k := congrArg QueryCacheKey.k hkey
      rw [answer, hquery, hfilter, hk, hresults] at hanswer
      rw [hsearch, ← hanswer]
      exact HybridSearchEngine.searchUncached_congr hsame hroute
    · rw [hsearch, huncached]
    · rw [hsearch, huncached]
  | insert id vector metadata => trivial
  | clearCache => trivial

/-- In a run in which every entry that answers is current, every search answers as it would with
an empty cache. -/
theorem cache_transparent (hasher : Hasher F) (parse : String → Option F) (tenth : F) (vectorIndex : I)
    (calls : List (CachedCall F))
    (hcurrent : Runs.Each (perform hasher parse tenth) (Current hasher tenth)
      (start vectorIndex : CachedEngine I F D) calls) :
    Runs.Each (perform hasher parse tenth) (Transparent hasher parse tenth)
      (start vectorIndex : CachedEngine I F D) calls := by
  intro before call after hcalls
  have htraced : Traced hasher parse tenth
      (before.foldl (perform hasher parse tenth) (start vectorIndex : CachedEngine I F D)) :=
    Runs.Each.foldl (p := fun _ _ => True) (fun s call hs _ => hs.perform) (traced_start vectorIndex)
      fun _ _ _ _ => trivial
  exact htraced.transparent (hcurrent before call after hcalls)

end CachedEngine

/-! ## Two searches -/

open CachedEngine

/-- The second search comes by another route, the last one after a new vector and with the cache
cleared. -/
def clearedCalls : List (CachedCall Rat) :=
  [.insert 7 [] (colour "red"), .search 0 [] 1 none .auto, .search 1 [] 1 none .preFilter,
    .clearCache, .insert 8 [] (colour "blue"), .search 2 [] 2 none .auto]

theorem cache_transparent_cleared :
    Runs.Each (perform sampleHasher parseColour (1 / 10)) (Transparent sampleHasher parseColour (1 / 10))
      (start { ids := [] } : CachedEngine Arrivals Rat Nat) clearedCalls := by
  refine cache_transparent sampleHasher parseColour (1 / 10) ({ ids := [] } : Arrivals) clearedCalls ?_
  simp only [clearedCalls, Runs.each_cons]
  refine ⟨trivial, ?_, ?_, trivial, trivial, ?_, Runs.each_nil _⟩
  · intro o ho
    exact absurd ho (by simp [CachedEngine.perform, start])
  · intro o ho _
    obtain rfl := Option.some.inj ho
    exact ⟨rfl, rfl, ⟨rfl, rfl, rfl⟩, rfl⟩
  · intro o ho
    exact absurd ho (by simp [CachedEngine.perform])

def staleCalls : List (CachedCall Rat) :=
  [.search 0 [] 1 none .auto, .insert 7 [] (colour "red"), .search 1 [] 1 none .auto]

theorem not_cache_transparent_stale :
    ¬Runs.Each (perform sampleHasher parseColour (1 / 10))
      (Transparent sampleHasher parseColour (1 / 10))
      (start { ids := [] } : CachedEngine Arrivals Rat Nat) staleCalls := by
  intro heach
  have hlast := heach [.search 0 [] 1 none .auto, .insert 7 [] (colour "red")] _ [] rfl
  exact absurd hlast (by unfold Transparent; decide)

end Index
end RTDB
