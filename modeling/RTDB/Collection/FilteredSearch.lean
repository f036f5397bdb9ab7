import RTDB.Collection.Collection
import RTDB.Storage.Scan

/-!
# Filtered search

The filter is applied to what the index returns, and the index has cut its
ranking at the limit already: matches behind the limit are lost, and are not
missed only when every vector before it matches.
-/

namespace RTDB

open Storage Index

variable {F D : Type}

/-! ## Filtering a cut list -/

section Cut

variable {α : Type} (p : α → Bool) (l : List α) (k : Nat)

theorem filter_take_of_all (hall : ∀ x ∈ l.take k, p x = true) :
    (l.take k).filter p = (l.filter p).take k := by
  have hfront : (l.take k).filter p = l.take k := List.filter_eq_self.mpr hall
  have hsplit : l.filter p = l.take k ++ (l.drop k).filter p := by
    conv_lhs => rw [← List.take_append_drop k l]
    rw [List.filter_append, hfront]
  rw [hfront, hsplit]
  rcases Nat.le_total k l.length with hle | hge
  · rw [List.take_left' (List.length_take_of_le hle)]
  · rw [List.drop_eq_nil_of_le hge, List.filter_nil, List.append_nil, List.take_take, Nat.min_self]

theorem filter_take_of_none (hnone : ∀ x ∈ l.drop k, ¬ p x = true) :
    (l.take k).filter p = (l.filter p).take k := by
  have hsplit : l.filter p = (l.take k).filter p := by
    conv_lhs => rw [← List.take_append_drop k l]
    rw [List.filter_append, List.filter_eq_nil_iff.mpr hnone, List.append_nil]
  have hlength : ((l.take k).filter p).length ≤ k :=
    (List.length_filter_le p _).trans (List.length_take_le k l)
  rw [hsplit, List.take_of_length_le hlength]

/-- Cutting before filtering loses nothing when all before the cut pass, or
nothing behind it does. -/
theorem length_filter_take_iff :
    ((l.take k).filter p).length = ((l.filter p).take k).length ↔
      (∀ x ∈ l.take k, p x = true) ∨ ∀ x ∈ l.drop k, ¬ p x = true := by
  constructor
  · intro hlength
    by_contra hneither
    obtain ⟨hsome, hbehind⟩ := not_or.mp hneither
    have hsplit : l.filter p = (l.take k).filter p ++ (l.drop k).filter p := by
      conv_lhs => rw [← List.take_append_drop k l]
      rw [List.filter_append]
    have hshort : ((l.take k).filter p).length < (l.take k).length := by
      refine List.length_filter_lt_length_iff_exists.mpr ?_
      push Not at hsome
      exact hsome
    have hmore : 0 < ((l.drop k).filter p).length := by
      refine List.length_filter_pos_iff.mpr ?_
      push Not at hbehind
      exact hbehind
    have hcut := List.length_take_le k l
    rw [List.length_take, hsplit, List.length_append] at hlength
    omega
  · rintro (hall | hnone)
    · rw [filter_take_of_all p l k hall]
    · rw [filter_take_of_none p l k hnone]

end Cut

namespace Collection

variable [LinearOrder D] [LT F] [LE F] [DecidableLT F] [DecidableLE F]
  (codec : Codec (Payload F)) (lower : String → String)

/-- The index ranks all live vectors so: it returns the front of the list, up to
the limit. -/
structure Ranks (codec : Codec (Payload F)) (c : Collection (Payload F) D)
    (request : SearchRequest F) (ranking : List (ScoredVector (Payload F) D)) : Prop where
  live : ∀ id, id ∈ ranking.map ScoredVector.id ↔ (okSome (c.storage.get codec id)).isSome
  distinct : (ranking.map ScoredVector.id).Nodup
  front : c.index.search request = ranking.take request.limit

theorem search_of_dimension (c : Collection (Payload F) D) {request : SearchRequest F}
    {filter : Filter F} (hfilter : request.filter = some filter)
    (hdim : request.vector.length = c.config.dimension) :
    c.search codec lower request =
      .ok ((((c.index.search request).filter (c.retains codec lower filter)).take
        request.limit).map (c.fetch codec request)) := by
  rw [search, if_neg (not_not.mpr hdim), hfilter]
  dsimp only
  rw [← List.take_eq_take_min]

/-- Filtered search returns the first matches of the ranking, up to the limit,
exactly when every vector before the limit matches or none behind it does. -/
theorem search_filtered_iff (c : Collection (Payload F) D) (request : SearchRequest F)
    (filter : Filter F) (hfilter : request.filter = some filter)
    (ranking : List (ScoredVector (Payload F) D)) (hranks : Ranks codec c request ranking) :
    c.search codec lower request =
        .ok (((ranking.filter (c.retains codec lower filter)).take request.limit).map
          (c.fetch codec request)) ↔
      request.vector.length = c.config.dimension ∧
        ((∀ r ∈ ranking.take request.limit, c.retains codec lower filter r = true) ∨
          ∀ r ∈ ranking.drop request.limit, ¬ c.retains codec lower filter r = true) := by
  by_cases hdim : request.vector.length = c.config.dimension
  · have hcut : (((ranking.take request.limit).filter (c.retains codec lower filter)).take
        request.limit) = (ranking.take request.limit).filter (c.retains codec lower filter) :=
      List.take_of_length_le
        ((List.length_filter_le _ _).trans (List.length_take_le _ _))
    rw [search_of_dimension codec lower c hfilter hdim, hranks.front, hcut, and_iff_right hdim,
      ← length_filter_take_iff]
    constructor
    · intro hsearch
      have hlists := congrArg List.length (Except.ok.inj hsearch)
      rwa [List.length_map, List.length_map] at hlists
    · intro hlength
      rcases (length_filter_take_iff _ _ _).mp hlength with hall | hnone
      · rw [filter_take_of_all _ _ _ hall]
      · rw [filter_take_of_none _ _ _ hnone]
  · rw [search, if_pos hdim]
    simp [hdim]

/-! ## Two vectors, the second nearest -/

/-- Where there is nothing but the active memtable, its vectors are the live
ones. -/
theorem get_in_memory {P : Type} (codec : Codec P) (s : System P)
    (htables : s.engine.tables = []) (hqueue : s.engine.immutable.length = 0) (id : VectorId)
    (vector : Vector P) :
    s.get codec id = .ok (some vector) ↔ (id, vector) ∈ s.engine.memtable.puts := by
  have hqueued : s.engine.queued id = none := by
    rw [StorageEngine.queued, List.length_eq_zero_iff.mp hqueue]
    rfl
  have hnone : s.fromTables codec id = .ok none := by
    rw [System.fromTables, StorageEngine.getFromSstables, htables]
    rfl
  rw [System.get_eq_answer, System.entry, hqueued, Option.or_none, hnone, mem_puts]
  rcases s.engine.memtable.get id with _ | stored | _
  · simp [answer]
  · simp [answer]
  · simp [answer]

theorem live_in_memory {P : Type} {codec : Codec P} (s : System P)
    (htables : s.engine.tables = []) (hqueue : s.engine.immutable.length = 0) (id : VectorId) :
    (okSome (s.get codec id)).isSome ↔ id ∈ s.engine.memtable.puts.map Prod.fst := by
  rw [List.mem_map]
  constructor
  · intro hlive
    rcases hget : s.get codec id with e | _ | vector
    · rw [hget] at hlive
      exact absurd hlive (by simp [okSome])
    · rw [hget] at hlive
      exact absurd hlive (by simp [okSome])
    · exact ⟨(id, vector), (get_in_memory codec s htables hqueue id vector).mp hget, rfl⟩
  · rintro ⟨⟨id', vector⟩, hmem, rfl⟩
    rw [(get_in_memory codec s htables hqueue id' vector).mpr hmem]
    rfl

section Sample

def sample : Collection (Payload Nat) Nat :=
  ((create { dimension := 1, distance := sampleDistance, hnswConfig := none }).upsert
    (textCodec [] []) (fun _ => 0)
    [ { id := 1, vector := { data := [0], payload := none }, timestamp := 1, level := 0 },
      { id := 2, vector := { data := [0x3F800000], payload := none }, timestamp := 2
        level := 1 } ]).1

def idFilter (ids : List VectorId) : Filter Nat := .mk (some [.hasId ids]) none none

def sampleRequest (ids : List VectorId) : SearchRequest Nat :=
  { vector := [0x3F800000], limit := 1, withPayload := none, withVector := false
    filter := some (idFilter ids), params := none }

def sampleRanking : List (ScoredVector (Payload Nat) Nat) :=
  sample.index.search (SearchRequest.new [0x3F800000] 2 : SearchRequest Nat)

theorem sampleRanking_ids : sampleRanking.map ScoredVector.id = [2, 1] := by
  decide +kernel

theorem sample_live (id : VectorId) :
    (okSome (sample.storage.get (textCodec [] []) id)).isSome ↔ id = 1 ∨ id = 2 := by
  have hputs : sample.storage.engine.memtable.puts.map Prod.fst = [1, 2] := by decide +kernel
  rw [live_in_memory _ (by decide +kernel) (by decide +kernel), hputs]
  simp

theorem ranks_sample (ids : List VectorId) :
    Ranks (textCodec [] []) sample (sampleRequest ids) sampleRanking where
  live id := by
    rw [sampleRanking_ids, sample_live]
    simp [or_comm]
  distinct := by
    rw [sampleRanking_ids]
    decide
  front := by
    have hef : 2 ≤ sample.index.config.ef := by decide +kernel
    exact HNSWIndex.search_limit sample.index (sampleRequest ids) _ ⟨rfl, rfl⟩
      (Nat.le_succ 1) hef

theorem search_filtered_sample :
    sample.search (textCodec [] []) String.toLower (sampleRequest [1, 2]) =
      .ok (((sampleRanking.filter
        (sample.retains (textCodec [] []) String.toLower (idFilter [1, 2]))).take 1).map
          (sample.fetch (textCodec [] []) (sampleRequest [1, 2]))) := by
  refine (search_filtered_iff (textCodec [] []) String.toLower sample (sampleRequest [1, 2])
    (idFilter [1, 2]) rfl sampleRanking (ranks_sample [1, 2])).mpr ⟨by decide +kernel, Or.inl ?_⟩
  decide +kernel

theorem sampleRanking_search :
    ((sample.search (textCodec [] []) String.toLower (sampleRequest [1])).map
        (List.map ScoredVector.id) = .ok []) ∧
      ((((sampleRanking.filter
        (sample.retains (textCodec [] []) String.toLower (idFilter [1]))).take 1).map
          (sample.fetch (textCodec [] []) (sampleRequest [1]))).map ScoredVector.id = [1]) := by
  decide +kernel

/-- Only the farther vector passes, and nothing is found. -/
theorem not_search_filtered_sample :
    Ranks (textCodec [] []) sample (sampleRequest [1]) sampleRanking ∧
      sample.search (textCodec [] []) String.toLower (sampleRequest [1]) ≠
        .ok (((sampleRanking.filter
          (sample.retains (textCodec [] []) String.toLower (idFilter [1]))).take 1).map
            (sample.fetch (textCodec [] []) (sampleRequest [1]))) := by
  refine ⟨ranks_sample [1], fun hsearch => ?_⟩
  obtain ⟨hempty, hone⟩ := sampleRanking_search
  rw [hsearch] at hempty
  exact absurd (hone.symm.trans (Except.ok.inj hempty)) (by decide)

end Sample

end Collection

end RTDB
