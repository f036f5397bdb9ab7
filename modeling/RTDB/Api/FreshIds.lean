import RTDB.Api.Inserts
import RTDB.Collection.InStep

/-!
# Ids that nobody named

An entity without an id gets its position in the request.  What that means for the entities that are
stored already, and when a call stores what it reports.
-/

namespace RTDB
namespace Api

open Storage Collection Outcomes Runs

variable {P F D : Type}

/-! ## What entities ask for -/

def idField (entity : Json F) : Option (Json F) := entity.asObject.bind fun obj => obj.lookup "id"

def askedId (entity : Json F) : Option UInt64 :=
  ((idField entity).bind Json.asI64).map Int64.toUInt64

def Names (entity : Json F) (n : UInt64) : Prop := idField entity = some (.number (.posInt n))

def HasVector (floats : Floats F) (entity : Json F) (idx : Nat) (vector : Vector (Map F)) : Prop :=
  ∃ obj v vectorData, entity.asObject = some obj ∧ vectorField obj = some v ∧
    extractVectorData floats v idx = .ok vectorData ∧ vector = entityVector obj vectorData

def askedIds (req : InsertRequest F) : List (Option UInt64) :=
  (req.data.asArray.getD []).map askedId

theorem toUInt64_ofNat (idx : Nat) : (Int64.ofNat idx).toUInt64 = UInt64.ofNat idx := rfl

theorem entityId_eq {entity : Json F} {obj : Map F} (hobj : entity.asObject = some obj) (idx : Nat) :
    entityId obj idx = (askedId entity).getD (UInt64.ofNat idx) := by
  rw [entityId, askedId, idField, hobj, Option.bind_some, Option.getD_map, ← toUInt64_ofNat]

/-- The handler takes an id that fits into an `i64` as it is. -/
theorem askedId_of_names {entity : Json F} {n : UInt64} (hnames : Names entity n)
    (hfits : n.toNat < 2 ^ 63) : askedId entity = some n := by
  have hle : n ≤ 0x7FFFFFFFFFFFFFFF := UInt64.le_iff_toNat_le.mpr (Nat.le_of_lt_succ hfits)
  rw [askedId, hnames, Option.bind_some, Json.asI64, Number.asI64, if_pos hle, Option.map_some,
    UInt64.toUInt64_toInt64]

theorem askedId_of_none {entity : Json F} (hnone : idField entity = none) :
    askedId entity = none := by
  rw [askedId, hnone]
  rfl

theorem readEntity_ok {floats : Floats F} {expectedDim idx : Nat} {entity : Json F}
    {v : UInt64 × Vector (Map F)} (hread : readEntity floats expectedDim idx entity = .ok v) :
    v.1 = (askedId entity).getD (UInt64.ofNat idx) ∧ HasVector floats entity idx v.2 := by
  rw [readEntity] at hread
  split at hread
  · exact absurd hread (by simp)
  · rename_i obj hobj
    split at hread
    · exact absurd hread (by simp)
    · rename_i field hfield
      split at hread
      · exact absurd hread (by simp)
      · rename_i vectorData hdata
        split at hread
        · exact absurd hread (by simp)
        · obtain rfl := Except.ok.inj hread
          exact ⟨entityId_eq hobj idx, obj, field, vectorData, hobj, hfield, hdata, rfl⟩

/-! ## Positions as ids -/

/-- The vectors have the ids that were asked for, and their positions where none was. -/
structure Numbered (asked : List (Option UInt64)) (vectors : List (UInt64 × Vector P)) : Prop where
  small : vectors.length ≤ 10000
  id_eq : ∀ (k : Nat) (v : UInt64 × Vector P), vectors[k]? = some v →
    ∃ a, asked[k]? = some a ∧ v.1 = a.getD (UInt64.ofNat k)

/-- No position that is to be an id is stored under or asked for, and entities that ask for one id
have one vector. -/
structure Apart (found : VectorId → Option (Vector P)) (asked : List (Option UInt64))
    (vectors : List (UInt64 × Vector P)) : Prop where
  fresh : ∀ k : Nat, asked[k]? = some none → found k = none ∧ some (UInt64.ofNat k) ∉ asked
  same : ∀ (j k : Nat) n, asked[j]? = some (some n) → asked[k]? = some (some n) →
    vectors[j]?.map Prod.snd = vectors[k]?.map Prod.snd

section Numbers

variable {asked : List (Option UInt64)} {vectors : List (UInt64 × Vector P)}
  {found : VectorId → Option (Vector P)}

theorem toNat_ofNat_of_small {k : Nat} (hk : k < 10000) : (UInt64.ofNat k).toNat = k :=
  UInt64.toNat_ofNat_of_lt' (by show k < 2 ^ 64; omega)

theorem Numbered.lt (hnumbered : Numbered asked vectors) {k : Nat} {v : UInt64 × Vector P}
    (hv : vectors[k]? = some v) : k < 10000 :=
  Nat.lt_of_lt_of_le (List.getElem?_eq_some_iff.mp hv).1 hnumbered.small

theorem Numbered.id_of_none (hnumbered : Numbered asked vectors) {k : Nat}
    {v : UInt64 × Vector P} (hv : vectors[k]? = some v) (hnone : asked[k]? = some none) :
    v.1.toNat = k := by
  obtain ⟨a, ha, hid⟩ := hnumbered.id_eq k v hv
  obtain rfl := Option.some.inj (hnone.symm.trans ha)
  rw [hid]
  exact toNat_ofNat_of_small (hnumbered.lt hv)

/-- An id that nobody asked for is that of one vector. -/
theorem Apart.id_ne (hapart : Apart found asked vectors) (hnumbered : Numbered asked vectors)
    {j k : Nat} {v w : UInt64 × Vector P} (hv : vectors[k]? = some v) (hw : vectors[j]? = some w)
    (hnone : asked[k]? = some none) (hne : j ≠ k) : w.1 ≠ v.1 := by
  intro heq
  obtain ⟨a, ha, hid⟩ := hnumbered.id_eq j w hw
  have hk := hnumbered.id_of_none hv hnone
  cases a with
  | none =>
    have hj := hnumbered.id_of_none hw ha
    rw [heq, hk] at hj
    exact hne hj.symm
  | some n =>
    rw [Option.getD_some] at hid
    refine (hapart.fresh k hnone).2 (List.mem_of_getElem? (i := j) ?_)
    rw [ha, ← hid, heq, ← hk, UInt64.ofNat_toNat]

theorem Apart.vector_eq (hapart : Apart found asked vectors) (hnumbered : Numbered asked vectors)
    {j k : Nat} {v w : UInt64 × Vector P} (hv : vectors[k]? = some v) (hw : vectors[j]? = some w)
    (heq : w.1 = v.1) : w.2 = v.2 := by
  by_cases hjk : j = k
  · rw [hjk, hv] at hw
    rw [Option.some.inj hw]
  · obtain ⟨a, ha, hid⟩ := hnumbered.id_eq j w hw
    obtain ⟨b, hb, hid'⟩ := hnumbered.id_eq k v hv
    cases b with
    | none => exact absurd heq (hapart.id_ne hnumbered hv hw hb hjk)
    | some n =>
      cases a with
      | none => exact absurd heq.symm (hapart.id_ne hnumbered hw hv ha (Ne.symm hjk))
      | some m =>
        obtain rfl : m = n := by
          rw [Option.getD_some] at hid hid'
          rw [← hid, heq, hid']
        have hsame := hapart.same j k m ha hb
        rw [hv, hw] at hsame
        exact Option.some.inj hsame

theorem mem_items {draws : Draws} {item : UpsertItem P} (hitem : item ∈ draws.items vectors) :
    ∃ (k : Nat) (v : UInt64 × Vector P), vectors[k]? = some v ∧ item.id = v.1.toNat ∧ item.vector = v.2 := by
  obtain ⟨⟨v, k⟩, hv, rfl⟩ := List.mem_map.mp hitem
  exact ⟨k, v, List.mk_mem_zipIdx_iff_getElem?.mp hv, rfl, rfl⟩

theorem exists_item (draws : Draws) {k : Nat} {v : UInt64 × Vector P} (hv : vectors[k]? = some v) :
    ∃ item ∈ draws.items vectors, item.id = v.1.toNat ∧ item.vector = v.2 :=
  ⟨_, List.mem_map_of_mem (List.mk_mem_zipIdx_iff_getElem?.mpr hv), rfl, rfl⟩

end Numbers

section Upserts

variable [LinearOrder D] {codec : Codec P} {crc32c : List UInt8 → UInt32} {c : Collection P D}
  {asked : List (Option UInt64)} {vectors : List (UInt64 × Vector P)} {draws : Draws}

/-- What is stored stays unless its id is asked for, also when the upsert fails. -/
theorem upsert_stays (hnumbered : Numbered asked vectors)
    (hapart : Apart (c.found codec) asked vectors)
    (hkeeps : ∀ r ∈ rounds (upsertItem codec crc32c) c (draws.items vectors),
      r.1.PutKeeps codec r.2)
    {id : VectorId} {vector : Vector P} (hfound : c.found codec id = some vector)
    (hasked : ∀ a ∈ asked, a.map UInt64.toNat ≠ some id) :
    (c.upsert codec crc32c (draws.items vectors)).1.found codec id = some vector := by
  rw [found_upsert_of_not_mem codec crc32c hkeeps, hfound]
  rintro item hitem rfl
  obtain ⟨k, v, hv, hid, -⟩ := mem_items hitem
  obtain ⟨a, ha, hid'⟩ := hnumbered.id_eq k v hv
  cases a with
  | none =>
    rw [hid, hnumbered.id_of_none hv ha, (hapart.fresh k ha).1] at hfound
    exact absurd hfound (by simp)
  | some n =>
    refine hasked (some n) (List.mem_of_getElem? ha) ?_
    rw [hid, hid', Option.getD_some, Option.map_some]

theorem upsert_stores (hnumbered : Numbered asked vectors)
    (hapart : Apart (c.found codec) asked vectors)
    (hkeeps : ∀ r ∈ rounds (upsertItem codec crc32c) c (draws.items vectors),
      r.1.PutKeeps codec r.2)
    {info : OperationInfo} (hok : (c.upsert codec crc32c (draws.items vectors)).2 = .ok info)
    {k : Nat} {v : UInt64 × Vector P} (hv : vectors[k]? = some v) :
    (c.upsert codec crc32c (draws.items vectors)).1.found codec v.1.toNat = some v.2 := by
  obtain ⟨item, hitem, hid, hvector⟩ := exists_item draws hv
  rw [← hid, ← hvector]
  refine found_upsert_of_mem codec crc32c hkeeps hok hitem fun other hother hsame => ?_
  obtain ⟨j, w, hw, hid', hvector'⟩ := mem_items hother
  rw [hvector, hvector']
  refine hapart.vector_eq hnumbered hv hw (UInt64.toNat_inj.mp ?_)
  rw [← hid', hsame, hid]

end Upserts

/-! ## Histories of inserts -/

/-- An insert, or a write of a background flush of the collection. -/
inductive Event (F : Type) where
  | insertEntities (req : InsertRequest F) (draws : Draws)
  | insertBatch (collectionName : String) (vectors : List (List UInt32)) (transport : Transport)
      (draws : Draws)
  | flush (collectionName : String) (task timestamp : Nat)

def storedIn (codec : Codec (Map F)) (collections : Collections F D) (name : String)
    (id : VectorId) : Option (Vector (Map F)) :=
  (collections name).bind fun c => c.found codec id

def Event.asked (name : String) : Event F → List (Option UInt64)
  | .insertEntities req _ => if req.collectionName = name then askedIds req else []
  | .insertBatch collectionName vectors _ _ =>
    if collectionName = name then vectors.map fun _ => none else []
  | .flush _ _ _ => []

section Histories

variable [LinearOrder D] (codec : Codec (Map F)) (crc32c : List UInt8 → UInt32)
  (floats : Floats F) (isAlphanumeric : Char → Bool)

def apply (collections : Collections F D) : Event F → Collections F D
  | .insertEntities req draws => (insertEntitiesV2 codec crc32c floats collections req draws).1
  | .insertBatch name vectors transport draws =>
    (insertBatch codec crc32c isAlphanumeric collections name vectors transport draws).1
  | .flush name task timestamp =>
    match collections name with
    | none => collections
    | some c =>
      Function.update collections name
        (some { c with storage := c.storage.runTask codec task timestamp })

/-- What is stored stays, unless an entity asks for its id. -/
def KeepsStored (collections : Collections F D) (event : Event F) : Prop :=
  ∀ name id vector, storedIn codec collections name id = some vector →
    (∀ a ∈ event.asked name, a.map UInt64.toNat ≠ some id) →
      storedIn codec (apply codec crc32c floats isAlphanumeric collections event) name id =
        some vector

/-- The entities of a call that succeeds are stored under the ids that it reports, or under their
positions where it reports none; an id that an entity has is the one reported, and one that no
entity has is that of no other entity and was not stored before. -/
def StoresEntities (collections : Collections F D) (event : Event F) : Prop :=
  let after := apply codec crc32c floats isAlphanumeric collections event
  match event with
  | .insertEntities req draws =>
    ∀ data entities, (insertEntitiesV2 codec crc32c floats collections req draws).2.data = some data →
      req.data.asArray = some entities → ∀ (k : Nat) entity, entities[k]? = some entity →
        ∃ id vector, data.insertIds[k]? = some (.number (.posInt id)) ∧
          HasVector floats entity k vector ∧
          storedIn codec after req.collectionName id.toNat = some vector ∧
          (∀ n, Names entity n → id = n) ∧
          (idField entity = none →
            storedIn codec collections req.collectionName id.toNat = none ∧
              ∀ j, j ≠ k → data.insertIds[j]? ≠ some (.number (.posInt id)))
  | .insertBatch name vectors transport draws =>
    (insertBatch codec crc32c isAlphanumeric collections name vectors transport draws).2 = .ok () →
      ∀ (k : Nat) vector, vectors[k]? = some vector →
        storedIn codec after name k = some { data := vector, payload := none } ∧
          storedIn codec collections name k = none
  | .flush _ _ _ => True

/-- Ids are numbers below 2^63, those of a request are apart, and storage keeps and takes what it is
given; a batch that succeeds has passed the server's checks. -/
def Meets (collections : Collections F D) : Event F → Prop
  | .insertEntities req draws =>
    ∀ c vectors, readRequest floats collections req = .ok (c, vectors) →
      (∀ entity ∈ req.data.asArray.getD [], ∀ n, Names entity n → n.toNat < 2 ^ 63) ∧
        Apart (c.found codec) (askedIds req) vectors ∧
        ∀ r ∈ rounds (upsertItem codec crc32c) c (draws.items vectors), r.1.PutKeeps codec r.2
  | .insertBatch name vectors transport draws =>
    (∀ c points, readPoints isAlphanumeric collections name (batchPoints vectors) = .ok (c, points) →
      (∀ k < vectors.length, c.found codec k = none) ∧
        ∀ r ∈ rounds (upsertItem codec crc32c) c (draws.items points), r.1.PutKeeps codec r.2) ∧
      (transport = .answered → Readable vectors = true → vectors ≠ [] →
        ∃ c points, readPoints isAlphanumeric collections name (batchPoints vectors) =
            .ok (c, points) ∧
          ∀ r ∈ rounds (upsertItem codec crc32c) c (draws.items points), r.1.Takes codec r.2)
  | .flush name task timestamp =>
    ∀ c, collections name = some c →
      FlushKeeps codec (fun vector => vector) c.storage task timestamp

variable {codec crc32c floats isAlphanumeric} {collections : Collections F D}

/-! ### Entities -/

omit [LinearOrder D] in
theorem readRequest_ok {req : InsertRequest F} {c : Collection (Map F) D}
    {vectors : List (UInt64 × Vector (Map F))}
    (hread : readRequest floats collections req = .ok (c, vectors)) :
    collections req.collectionName = some c ∧ Numbered (askedIds req) vectors ∧
      ∀ entities, req.data.asArray = some entities → ∀ (k : Nat) entity,
        entities[k]? = some entity → ∃ v, vectors[k]? = some v ∧
          v.1 = (askedId entity).getD (UInt64.ofNat k) ∧ HasVector floats entity k v.2 := by
  rw [readRequest] at hread
  split at hread
  · exact absurd hread (by simp)
  · rename_i c' hcollection
    split at hread
    · exact absurd hread (by simp)
    · rename_i entities hentities
      split at hread
      · exact absurd hread (by simp)
      · split at hread
        · exact absurd hread (by simp)
        · rename_i hlength
          obtain ⟨vectors', hvectors, hpair⟩ := map_eq_ok hread
          obtain ⟨rfl, rfl⟩ := Prod.mk.inj hpair
          rw [readEntities] at hvectors
          refine ⟨hcollection, { small := ?_, id_eq := fun k v hv => ?_ }, ?_⟩
          · have hlengths := (mapM_eq_ok_iff.mp hvectors).length_eq
            rw [List.length_zipIdx] at hlengths
            omega
          · obtain ⟨⟨entity, j⟩, hentity, hone⟩ := (getElem?_of_mapM hvectors k).2 v hv
            rw [List.getElem?_zipIdx] at hentity
            obtain ⟨entity', hentity', heq⟩ := Option.map_eq_some_iff.mp hentity
            obtain ⟨rfl, rfl⟩ := Prod.mk.inj heq
            rw [Nat.zero_add] at hone
            refine ⟨askedId entity', ?_, (readEntity_ok hone).1⟩
            rw [askedIds, hentities, Option.getD_some, List.getElem?_map, hentity', Option.map_some]
          · intro entities' hentities' k entity hentity
            obtain rfl := Option.some.inj (hentities.symm.trans hentities')
            have hindexed : entities.zipIdx[k]? = some (entity, k) := by
              rw [List.getElem?_zipIdx, hentity, Option.map_some, Nat.zero_add]
            obtain ⟨v, hv, hone⟩ := (getElem?_of_mapM hvectors k).1 _ hindexed
            exact ⟨v, hv, readEntity_ok hone⟩

omit [LinearOrder D] in
theorem storedIn_update_self (name : String) (c : Collection (Map F) D) (id : VectorId) :
    storedIn codec (Function.update collections name (some c)) name id = c.found codec id := by
  rw [storedIn, Function.update_self, Option.bind_some]

omit [LinearOrder D] in
theorem storedIn_update_ne {name other : String} (hne : other ≠ name)
    (c : Option (Collection (Map F) D)) (id : VectorId) :
    storedIn codec (Function.update collections name c) other id =
      storedIn codec collections other id := by
  rw [storedIn, Function.update_of_ne hne, storedIn]

/-- What an upsert in one collection keeps there, it keeps everywhere. -/
theorem keeps_update (asked : String → List (Option UInt64)) {name : String}
    {c : Collection (Map F) D} {vectors : List (UInt64 × Vector (Map F))} {draws : Draws}
    (hcollection : collections name = some c) (hnumbered : Numbered (asked name) vectors)
    (hapart : Apart (c.found codec) (asked name) vectors)
    (hkeeps : ∀ r ∈ rounds (upsertItem codec crc32c) c (draws.items vectors),
      r.1.PutKeeps codec r.2)
    {other : String} {id : VectorId} {vector : Vector (Map F)}
    (hstored : storedIn codec collections other id = some vector)
    (hasked : ∀ a ∈ asked other, a.map UInt64.toNat ≠ some id) :
    storedIn codec (Function.update collections name
      (some (c.upsert codec crc32c (draws.items vectors)).1)) other id = some vector := by
  by_cases hother : other = name
  · subst hother
    rw [storedIn, hcollection, Option.bind_some] at hstored
    rw [storedIn_update_self]
    exact upsert_stays hnumbered hapart hkeeps hstored hasked
  · rw [storedIn_update_ne hother, hstored]

theorem insertEntitiesV2_error {req : InsertRequest F} {message : String} (draws : Draws)
    (hread : readRequest floats collections req = .error message) :
    insertEntitiesV2 codec crc32c floats collections req draws =
      (collections, .error 1 message) := by
  rw [insertEntitiesV2, hread]

theorem insertEntitiesV2_ok {req : InsertRequest F} {c : Collection (Map F) D}
    {vectors : List (UInt64 × Vector (Map F))} (draws : Draws)
    (hread : readRequest floats collections req = .ok (c, vectors)) :
    (insertEntitiesV2 codec crc32c floats collections req draws).1 =
        Function.update collections req.collectionName
          (some (c.upsert codec crc32c (draws.items vectors)).1) ∧
      ∀ data, (insertEntitiesV2 codec crc32c floats collections req draws).2.data = some data →
        (∃ info, (c.upsert codec crc32c (draws.items vectors)).2 = .ok info) ∧
          data.insertIds = vectors.map fun v => .number (.posInt v.1) := by
  rw [insertEntitiesV2, hread]
  dsimp only
  rcases c.upsert codec crc32c (draws.items vectors) with ⟨c', e | info⟩
  · exact ⟨rfl, fun data hdata => absurd hdata (by simp [MilvusResponse.error])⟩
  · refine ⟨rfl, fun data hdata => ⟨⟨info, rfl⟩, ?_⟩⟩
    rw [← Option.some.inj hdata]

theorem keepsStored_insertEntities {req : InsertRequest F} {draws : Draws}
    (hmeets : Meets codec crc32c floats isAlphanumeric collections (.insertEntities req draws)) :
    KeepsStored codec crc32c floats isAlphanumeric collections (.insertEntities req draws) := by
  intro name id vector hstored hasked
  rw [apply]
  cases hread : readRequest floats collections req with
  | error message =>
    rw [insertEntitiesV2_error draws hread]
    exact hstored
  | ok read =>
    obtain ⟨c, vectors⟩ := read
    obtain ⟨hcollection, hnumbered, -⟩ := readRequest_ok hread
    obtain ⟨-, hapart, hkeeps⟩ := hmeets c vectors hread
    rw [(insertEntitiesV2_ok draws hread).1]
    refine keeps_update (fun name => Event.asked name (.insertEntities req draws)) hcollection ?_ ?_
      hkeeps hstored hasked
    · rwa [Event.asked, if_pos rfl]
    · rwa [Event.asked, if_pos rfl]

theorem storesEntities_insertEntities {req : InsertRequest F} {draws : Draws}
    (hmeets : Meets codec crc32c floats isAlphanumeric collections (.insertEntities req draws)) :
    StoresEntities codec crc32c floats isAlphanumeric collections (.insertEntities req draws) := by
  intro data entities hdata hentities k entity hentity
  cases hread : readRequest floats collections req with
  | error message =>
    rw [insertEntitiesV2_error draws hread] at hdata
    exact absurd hdata (by simp [MilvusResponse.error])
  | ok read =>
    obtain ⟨c, vectors⟩ := read
    obtain ⟨hcollection, hnumbered, hvectors⟩ := readRequest_ok hread
    obtain ⟨hfits, hapart, hkeeps⟩ := hmeets c vectors hread
    obtain ⟨⟨info, hok⟩, hids⟩ := (insertEntitiesV2_ok draws hread).2 data hdata
    obtain ⟨v, hv, hid, hvector⟩ := hvectors entities hentities k entity hentity
    have hget : ∀ j : Nat, data.insertIds[j]? = vectors[j]?.map fun w => .number (.posInt w.1) := by
      intro j
      rw [hids, List.getElem?_map]
    refine ⟨v.1, v.2, ?_, hvector, ?_, fun n hnames => ?_, fun hnone => ?_⟩
    · rw [hget, hv, Option.map_some]
    · rw [apply, (insertEntitiesV2_ok draws hread).1, storedIn_update_self]
      exact upsert_stores hnumbered hapart hkeeps hok hv
    · have hmem : entity ∈ req.data.asArray.getD [] := by
        rw [hentities]
        exact List.mem_of_getElem? hentity
      rw [hid, askedId_of_names hnames (hfits entity hmem n hnames), Option.getD_some]
    · have hasked : (askedIds req)[k]? = some none := by
        rw [askedIds, hentities, Option.getD_some, List.getElem?_map, hentity, Option.map_some,
          askedId_of_none hnone]
      refine ⟨?_, fun j hne hj => ?_⟩
      · rw [storedIn, hcollection, Option.bind_some, hnumbered.id_of_none hv hasked]
        exact (hapart.fresh k hasked).1
      · rw [hget] at hj
        obtain ⟨w, hw, heq⟩ := Option.map_eq_some_iff.mp hj
        exact hapart.id_ne hnumbered hv hw hasked hne (Number.posInt.inj (Json.number.inj heq))

/-! ### Batches -/

omit [LinearOrder D] in
theorem readPoints_ok {name : String} {vectors : List (List UInt32)} {c : Collection (Map F) D}
    {points : List (UInt64 × Vector (Map F))}
    (hread : readPoints isAlphanumeric collections name (batchPoints vectors) = .ok (c, points)) :
    collections name = some c ∧ vectors.length ≤ 10000 ∧
      ∀ k : Nat, points[k]? =
        vectors[k]?.map fun vector => (UInt64.ofNat k, { data := vector, payload := none }) := by
  rw [readPoints] at hread
  split at hread
  · exact absurd hread (by simp)
  · rename_i c' hcollection
    split at hread
    · rename_i hvalid
      obtain ⟨rfl, rfl⟩ := Prod.mk.inj (Except.ok.inj hread)
      have hlength : (batchPoints vectors).length ≤ 10000 := by
        simp only [validateUpsertRequest, Bool.and_eq_true, decide_eq_true_eq] at hvalid
        exact hvalid.1.2
      rw [batchPoints, List.length_map, List.length_zipIdx] at hlength
      refine ⟨hcollection, hlength, fun k => ?_⟩
      rw [List.getElem?_map, batchPoints, List.getElem?_map, List.getElem?_zipIdx, Option.map_map,
        Option.map_map, Nat.zero_add]
      rfl
    · exact absurd hread (by simp)

theorem numbered_batch {vectors : List (List UInt32)} {points : List (UInt64 × Vector P)}
    (hlength : vectors.length ≤ 10000)
    (hpoints : ∀ k : Nat, points[k]? =
      vectors[k]?.map fun vector => (UInt64.ofNat k, { data := vector, payload := none })) :
    Numbered (vectors.map fun _ => none) points := by
  refine { small := ?_, id_eq := fun k v hv => ?_ }
  · rcases Nat.lt_or_ge vectors.length points.length with hlt | hge
    · have hpoint := hpoints vectors.length
      rw [List.getElem?_eq_getElem hlt, List.getElem?_eq_none (Nat.le_refl _)] at hpoint
      exact absurd hpoint (by simp)
    · omega
  · rw [hpoints k] at hv
    obtain ⟨vector, hvector, rfl⟩ := Option.map_eq_some_iff.mp hv
    exact ⟨none, by rw [List.getElem?_map, hvector, Option.map_some], rfl⟩

theorem apart_batch {found : VectorId → Option (Vector P)} {vectors : List (List UInt32)}
    (hfound : ∀ k < vectors.length, found k = none) (points : List (UInt64 × Vector P)) :
    Apart found (vectors.map fun _ => none) points := by
  refine { fresh := fun k hk => ⟨?_, by simp⟩, same := fun j k n hj => ?_ }
  · rw [List.getElem?_map] at hk
    obtain ⟨vector, hvector, -⟩ := Option.map_eq_some_iff.mp hk
    exact hfound k (List.getElem?_eq_some_iff.mp hvector).1
  · rw [List.getElem?_map] at hj
    obtain ⟨vector, -, hnone⟩ := Option.map_eq_some_iff.mp hj
    exact absurd hnone (by simp)

theorem upsertPoints_error {name : String} {points : List (UInt64 × List UInt32)}
    {message : String} (draws : Draws)
    (hread : readPoints isAlphanumeric collections name points = .error message) :
    (upsertPoints codec crc32c isAlphanumeric collections name points draws).1 = collections := by
  rw [upsertPoints, hread]

theorem upsertPoints_ok {name : String} {points : List (UInt64 × List UInt32)}
    {c : Collection (Map F) D} {vectors : List (UInt64 × Vector (Map F))} (draws : Draws)
    (hread : readPoints isAlphanumeric collections name points = .ok (c, vectors)) :
    (upsertPoints codec crc32c isAlphanumeric collections name points draws).1 =
      Function.update collections name
        (some (c.upsert codec crc32c (draws.items vectors)).1) := by
  rw [upsertPoints, hread]
  dsimp only
  rcases c.upsert codec crc32c (draws.items vectors) with ⟨c', e | info⟩
  · rfl
  · rfl

theorem insertBatch_cases (collections : Collections F D) (name : String)
    (vectors : List (List UInt32)) (transport : Transport) (draws : Draws) :
    let served := (upsertPoints codec crc32c isAlphanumeric collections name (batchPoints vectors)
      draws).1
    let outcome := insertBatch codec crc32c isAlphanumeric collections name vectors transport draws
    (outcome.1 = collections ∨ outcome.1 = served) ∧
      (outcome.2 = .ok () → transport = .answered ∧ Readable vectors = true ∧ outcome.1 = served) := by
  cases transport with
  | answered =>
    dsimp only
    rw [insertBatch]
    split
    · rename_i hreadable
      exact ⟨.inr rfl, fun _ => ⟨rfl, hreadable, rfl⟩⟩
    · exact ⟨.inl rfl, fun hok => absurd hok (by simp)⟩
  | failed reached error =>
    dsimp only
    rw [insertBatch]
    refine ⟨?_, fun hok => absurd hok (by simp)⟩
    dsimp only
    split
    · exact .inr rfl
    · exact .inl rfl

theorem keepsStored_insertBatch {name : String} {vectors : List (List UInt32)}
    {transport : Transport} {draws : Draws}
    (hmeets : Meets codec crc32c floats isAlphanumeric collections
      (.insertBatch name vectors transport draws)) :
    KeepsStored codec crc32c floats isAlphanumeric collections
      (.insertBatch name vectors transport draws) := by
  intro other id vector hstored hasked
  rw [apply]
  rcases (insertBatch_cases collections name vectors transport draws).1 with heq | heq
  · rw [heq]
    exact hstored
  · rw [heq]
    cases hread : readPoints isAlphanumeric collections name (batchPoints vectors) with
    | error message =>
      rw [upsertPoints_error draws hread]
      exact hstored
    | ok read =>
      obtain ⟨c, points⟩ := read
      obtain ⟨hcollection, hlength, hpoints⟩ := readPoints_ok hread
      obtain ⟨hfound, hkeeps⟩ := hmeets.1 c points hread
      rw [upsertPoints_ok draws hread]
      refine keeps_update
        (fun other => Event.asked other (.insertBatch (F := F) name vectors transport draws))
        hcollection ?_ ?_ hkeeps hstored hasked
      · rw [Event.asked, if_pos rfl]
        exact numbered_batch hlength hpoints
      · rw [Event.asked, if_pos rfl]
        exact apart_batch hfound points

theorem storesEntities_insertBatch {name : String} {vectors : List (List UInt32)}
    {transport : Transport} {draws : Draws}
    (hmeets : Meets codec crc32c floats isAlphanumeric collections
      (.insertBatch name vectors transport draws)) :
    StoresEntities codec crc32c floats isAlphanumeric collections
      (.insertBatch name vectors transport draws) := by
  intro hok k vector hvector
  obtain ⟨hanswered, hreadable, hserved⟩ :=
    (insertBatch_cases collections name vectors transport draws).2 hok
  have hne : vectors ≠ [] := List.ne_nil_of_mem (List.mem_of_getElem? hvector)
  obtain ⟨c, points, hread, htakes⟩ := hmeets.2 hanswered hreadable hne
  obtain ⟨hcollection, hlength, hpoints⟩ := readPoints_ok hread
  obtain ⟨hfound, hkeeps⟩ := hmeets.1 c points hread
  obtain ⟨info, hupsert⟩ := upsert_ok_of_takes codec crc32c htakes
  have hk : k < vectors.length := (List.getElem?_eq_some_iff.mp hvector).1
  have hpoint : points[k]? = some (UInt64.ofNat k, { data := vector, payload := none }) := by
    rw [hpoints k, hvector, Option.map_some]
  refine ⟨?_, ?_⟩
  · have hstored := upsert_stores (numbered_batch hlength hpoints) (apart_batch hfound points)
      hkeeps hupsert hpoint
    rw [toNat_ofNat_of_small (by omega)] at hstored
    rw [apply, hserved, upsertPoints_ok draws hread, storedIn_update_self, hstored]
  · rw [storedIn, hcollection, Option.bind_some]
    exact hfound k hk

/-! ### Runs -/

theorem keepsStored_flush {name : String} {task timestamp : Nat}
    (hmeets : Meets codec crc32c floats isAlphanumeric collections (.flush name task timestamp)) :
    KeepsStored codec crc32c floats isAlphanumeric collections (.flush name task timestamp) := by
  intro other id vector hstored _
  rw [apply]
  split
  · exact hstored
  · rename_i c hcollection
    by_cases hother : other = name
    · subst hother
      have hkeeps := (mirrors_runTask_iff (c.mirrors_found codec) task timestamp).mpr
        (hmeets c hcollection) id
      rw [storedIn, hcollection, Option.bind_some] at hstored
      rw [storedIn_update_self, ← hstored, hkeeps]
      exact Option.map_id'.symm
    · rw [storedIn_update_ne hother, hstored]

/-- In every history whose calls meet the condition, each call that succeeds stores what it reports
under ids that were free, and nothing that is stored is overwritten unless its id is asked for. -/
theorem inserts_never_overwrite {events : List (Event F)}
    (hmeets : Each (apply codec crc32c floats isAlphanumeric)
      (Meets codec crc32c floats isAlphanumeric) collections events) :
    Each (apply codec crc32c floats isAlphanumeric)
      (fun collections event => StoresEntities codec crc32c floats isAlphanumeric collections event ∧
        KeepsStored codec crc32c floats isAlphanumeric collections event) collections events := by
  intro before event after hl
  have hevent := hmeets before event after hl
  cases event with
  | insertEntities req draws =>
    exact ⟨storesEntities_insertEntities hevent, keepsStored_insertEntities hevent⟩
  | insertBatch name vectors transport draws =>
    exact ⟨storesEntities_insertBatch hevent, keepsStored_insertBatch hevent⟩
  | flush name task timestamp => exact ⟨trivial, keepsStored_flush hevent⟩

end Histories

/-! ## Two batches -/

def sampleFloats : Floats Nat where
  ofInt := Int.toNat
  isFinite _ := true
  toF32 f := if f = 1 then 0x3F800000 else 0x40000000

def sampleDraws : Draws := { timestamp := fun _ => 1, level := fun _ => 0 }

def sampleCollections : Collections Nat Nat := fun _ => some (create sampleCollectionConfig)

def sampleCodec : Codec (Map Nat) := textCodec [] []

def sampleRequest : InsertRequest Nat where
  collectionName := "vectors"
  data := .array [.object [("vector", .array [.number (.posInt 1)])]]

def sampleVectors : List (UInt64 × Vector (Map Nat)) :=
  [(0, { data := [0x3F800000], payload := none })]

theorem sampleRequest_meets :
    Meets sampleCodec (fun _ => 0) sampleFloats (fun _ => true) sampleCollections
      (.insertEntities sampleRequest sampleDraws) := by
  intro c vectors hread
  have hsample : readRequest sampleFloats sampleCollections sampleRequest =
      .ok (create sampleCollectionConfig, sampleVectors) := rfl
  obtain ⟨rfl, rfl⟩ := Prod.mk.inj (Except.ok.inj (hsample.symm.trans hread))
  refine ⟨fun entity hentity n hnames => ?_, { fresh := fun k hk => ⟨?_, ?_⟩, same := ?_ }, ?_⟩
  · obtain rfl := List.mem_singleton.mp hentity
    have hnone : (none : Option (Json Nat)) = some (.number (.posInt n)) := hnames
    exact absurd hnone (by simp)
  · rw [found, create_get]
    rfl
  · rw [show askedIds sampleRequest = [none] from rfl]
    simp
  · intro j k n hj
    rw [show askedIds sampleRequest = [none] from rfl] at hj
    exact absurd (List.mem_of_getElem? hj) (by simp)
  · intro r hr
    rw [show sampleDraws.items sampleVectors =
      [{ id := 0, vector := { data := [0x3F800000], payload := none }, timestamp := 1, level := 0 }]
      from rfl, rounds_singleton, List.mem_singleton] at hr
    rw [hr]
    exact fun _ => writeKeeps_of_takenInMemory (by decide +kernel)

/-- An entity that asks for the id 5. -/
def namedRequest : InsertRequest Nat where
  collectionName := "vectors"
  data := .array [.object [("id", .number (.posInt 5)), ("vector", .array [.number (.posInt 2)])]]

/-- The id stays in the payload. -/
def namedVectors : List (UInt64 × Vector (Map Nat)) :=
  [(5, { data := [0x40000000], payload := some [("id", .number (.posInt 5))] })]

def sampleStored : Collection (Map Nat) Nat :=
  ((create sampleCollectionConfig).upsert sampleCodec (fun _ => 0)
    (sampleDraws.items sampleVectors)).1

theorem apply_sampleRequest :
    apply sampleCodec (fun _ => 0) sampleFloats (fun _ => true) sampleCollections
        (.insertEntities sampleRequest sampleDraws) =
      Function.update sampleCollections "vectors" (some sampleStored) := by
  have hsample : readRequest sampleFloats sampleCollections sampleRequest =
      .ok (create sampleCollectionConfig, sampleVectors) := rfl
  exact (insertEntitiesV2_ok sampleDraws hsample).1

theorem namedRequest_meets :
    Meets sampleCodec (fun _ => 0) sampleFloats (fun _ => true)
      (apply sampleCodec (fun _ => 0) sampleFloats (fun _ => true) sampleCollections
        (.insertEntities sampleRequest sampleDraws))
      (.insertEntities namedRequest sampleDraws) := by
  intro c vectors hread
  have hsample : readRequest sampleFloats
      (apply sampleCodec (fun _ => 0) sampleFloats (fun _ => true) sampleCollections
        (.insertEntities sampleRequest sampleDraws)) namedRequest =
      .ok (sampleStored, namedVectors) := by
    rw [apply_sampleRequest, readRequest, show namedRequest.collectionName = "vectors" from rfl,
      Function.update_self]
    rfl
  obtain ⟨rfl, rfl⟩ := Prod.mk.inj (Except.ok.inj (hsample.symm.trans hread))
  have hasked : askedIds namedRequest = [some 5] := rfl
  refine ⟨fun entity hentity n hnames => ?_, { fresh := fun k hk => ?_, same := ?_ }, ?_⟩
  · obtain rfl := List.mem_singleton.mp hentity
    have hid : (some (.number (.posInt 5)) : Option (Json Nat)) = some (.number (.posInt n)) :=
      hnames
    obtain rfl : 5 = n := Number.posInt.inj (Json.number.inj (Option.some.inj hid))
    decide
  · rw [hasked] at hk
    exact absurd (List.mem_of_getElem? hk) (by simp)
  · intro j k n hj hk
    rw [hasked] at hj hk
    obtain rfl : j = 0 := by
      have hlt := (List.getElem?_eq_some_iff.mp hj).1
      exact Nat.lt_one_iff.mp hlt
    obtain rfl : k = 0 := by
      have hlt := (List.getElem?_eq_some_iff.mp hk).1
      exact Nat.lt_one_iff.mp hlt
    rfl
  · intro r hr
    rw [show sampleDraws.items namedVectors =
      [{ id := 5
         vector := { data := [0x40000000], payload := some [("id", .number (.posInt 5))] }
         timestamp := 1, level := 0 }]
      from rfl, rounds_singleton, List.mem_singleton] at hr
    rw [hr]
    exact fun _ => writeKeeps_of_takenInMemory (by decide +kernel)

theorem inserts_never_overwrite_sample :
    Each (apply sampleCodec (fun _ => 0) sampleFloats fun _ => true)
      (fun collections event =>
        StoresEntities sampleCodec (fun _ => 0) sampleFloats (fun _ => true) collections event ∧
          KeepsStored sampleCodec (fun _ => 0) sampleFloats (fun _ => true) collections event)
      sampleCollections
      [.insertEntities sampleRequest sampleDraws, .insertEntities namedRequest sampleDraws] :=
  inserts_never_overwrite
    (each_cons.mpr ⟨sampleRequest_meets, each_cons.mpr ⟨namedRequest_meets, each_nil _⟩⟩)

/-- The vector goes under the id 0, as every first vector of a batch does. -/
theorem sample_stored :
    (storedIn sampleCodec
      (apply sampleCodec (fun _ => 0) sampleFloats (fun _ => true) sampleCollections
        (.insertEntities sampleRequest sampleDraws)) "vectors" 0).isSome = true := by
  decide +kernel

/-- The batch succeeds and its vector takes the place of the one that is stored. -/
theorem not_inserts_never_overwrite_batch :
    ¬∀ (collections : Collections Nat Nat) (events : List (Event Nat)),
      Each (apply sampleCodec (fun _ => 0) sampleFloats fun _ => true)
        (fun collections event =>
          StoresEntities sampleCodec (fun _ => 0) sampleFloats (fun _ => true) collections event ∧
            KeepsStored sampleCodec (fun _ => 0) sampleFloats (fun _ => true) collections event)
        collections events := by
  intro hall
  have hboth := hall sampleCollections
    [.insertEntities sampleRequest sampleDraws,
      .insertBatch "vectors" [[0x40000000]] .answered sampleDraws]
  have hbatch := (each_cons.mp (each_cons.mp hboth).2).1.1
  have hnone := (hbatch rfl 0 [0x40000000] rfl).2
  have hsome := sample_stored
  rw [hnone] at hsome
  exact absurd hsome (by simp)

end Api
end RTDB
