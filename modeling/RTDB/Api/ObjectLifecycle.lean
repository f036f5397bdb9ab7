import RTDB.Api.Weaviate

/-!
# The life of an object

A history of calls on the object handlers, beside what its creations, updates and deletions make of
each id.
-/

namespace RTDB
namespace Api
namespace Weaviate

open Storage Collection Qdrant Runs

variable {F D : Type}

structure Stored (F : Type) where
  class_ : String
  vector : List UInt32
  properties : Map F

def stored (floats : Floats F) (object : WeaviateObject F) : Option (Stored F) :=
  (vectorData floats object).bind fun vector =>
    object.properties.asObject.map fun properties => { class_ := object.class_, vector, properties }

/-- A call that changes objects, or a write of a background flush.  A deletion comes with the order
in which it meets the collections. -/
inductive Request (F : Type) where
  | create (object : WeaviateObject F) (draw : Draw)
  | update (id : String) (object : WeaviateObject F) (draw : Draw)
  | delete (id : String) (listing : List (String × Nat))
  | flush (name : String) (task timestamp : Nat)

def Request.id : Request F → Option String
  | .create object draw => some (object.id.getD draw.uuid)
  | .update id _ _ => some id
  | .delete id _ => some id
  | .flush _ _ _ => none

/-- The collections, and the object that was stored last under each id unless it was deleted since. -/
structure History (F D : Type) where
  collections : Collections F D
  live : String → Option (Stored F)

namespace History

/-- Each class is a new collection. -/
def start (classes : List (String × CollectionConfig D)) : History F D :=
  { collections := fun name => (classes.lookup name).map Collection.create, live := fun _ => none }

def answered (h : History F D) (id : String) (object : Option (Stored F))
    (outcome : Collections F D × Response F) : History F D :=
  { collections := outcome.1
    live :=
      match outcome.2 with
      | .object _ => Function.update h.live id object
      | _ => h.live }

section Steps

variable [LinearOrder D] (codec : Codec (Map F)) (crc32c : List UInt8 → UInt32) (floats : Floats F)
  (hash : String → VectorId)

def step (h : History F D) : Request F → History F D
  | .create object draw =>
    h.answered (object.id.getD draw.uuid) (stored floats object)
      (createObject codec crc32c floats hash h.collections object draw)
  | .update id object draw =>
    h.answered id (stored floats object)
      (updateObject codec crc32c floats hash h.collections id object draw)
  | .delete id listing =>
    { collections := (deleteObject codec crc32c h.collections id listing).1
      live := Function.update h.live id none }
  | .flush name task timestamp =>
    { h with
      collections := Function.update h.collections name ((h.collections name).map fun c =>
        { c with storage := c.storage.runTask codec task timestamp }) }

/-! ## The property -/

def Lists (collections : Collections F D) (listing : List String) : Prop :=
  listing.Nodup ∧ ∀ name, name ∈ listing ↔ (collections name).isSome = true

/-- The answer of `get_object` for what is stored. -/
def Answers : Option (Stored F) → Response F → Prop
  | some st, .object o =>
    o.class_ = st.class_ ∧ o.vector = some st.vector ∧ o.properties = .object st.properties
  | none, .error _ => True
  | _, _ => False

/-- In whatever order the collections are listed, every id gets the object that is live under it, or
an error. -/
def Agrees (ids : Set String) (h : History F D) : Prop :=
  ∀ id ∈ ids, ∀ listing, Lists h.collections listing →
    Answers (h.live id) (getObject codec h.collections listing id)

def StoresInOneClass (h : History F D) (id : String) (object : WeaviateObject F) (draw : Draw) : Prop :=
  ∀ c data properties, h.collections object.class_ = some c → vectorData floats object = some data →
    object.properties.asObject = some properties →
      c.Takes codec (objectItem hash id data properties draw) →
        ∀ st, h.live id = some st → st.class_ = object.class_

/-- No id is live in two classes. -/
def InOneClass (h : History F D) : Request F → Prop
  | .create object draw =>
    h.StoresInOneClass codec floats hash (object.id.getD draw.uuid) object draw
  | .update id object draw => h.StoresInOneClass codec floats hash id object draw
  | _ => True

/-! ## The condition -/

/-- An object that its class takes has a number for an id, and storage leaves every vector where a
reader finds it. -/
def StoreMeets (h : History F D) (id : String) (object : WeaviateObject F) (draw : Draw) : Prop :=
  ∀ c data properties, h.collections object.class_ = some c → vectorData floats object = some data →
    object.properties.asObject = some properties →
      (c.Takes codec (objectItem hash id data properties draw) → ∃ n, parseU64 id = some n) ∧
        c.PutKeeps codec (objectItem hash id data properties draw)

/-- The first listed class that takes the deletion of a live id is the class of the id, and storage
keeps the other vectors of the class. -/
def Meets (h : History F D) : Request F → Prop
  | .create object draw => h.StoreMeets codec floats hash (object.id.getD draw.uuid) object draw
  | .update id object draw => h.StoreMeets codec floats hash id object draw
  | .delete id listing =>
    ∀ n, parseU64 id = some n →
      (∀ st, h.live id = some st →
        (taker codec h.collections n listing).map Prod.fst = some st.class_) ∧
      ∀ p ∈ taker codec h.collections n listing, ∀ c, h.collections p.1 = some c →
        WriteKeeps codec (fun vector => vector) (c.found codec) c.storage (.delete n p.2)
  | .flush name task timestamp =>
    ∀ c, h.collections name = some c →
      FlushKeeps codec (fun vector => vector) c.storage task timestamp

end Steps

/-! ## The invariant -/

/-- What a reader of a class finds under the number of an id. -/
def inClass (live : Option (Stored F)) (name : String) : Option (Vector (Map F)) :=
  live.bind fun st =>
    if st.class_ = name then some { data := st.vector, payload := some st.properties } else none

/-- Under the number of an id the collections have what is live under the id. -/
structure Follows (codec : Codec (Map F)) (ids : Set String) (h : History F D) : Prop where
  numeric : ∀ id st, h.live id = some st → ∃ n, parseU64 id = some n
  listed : ∀ id st, h.live id = some st → (h.collections st.class_).isSome = true
  stored : ∀ id ∈ ids, ∀ n, parseU64 id = some n → ∀ name,
    storedIn codec h.collections name n = inClass (h.live id) name

variable {codec : Codec (Map F)} {ids : Set String} {h : History F D}

theorem follows_start (classes : List (String × CollectionConfig D)) :
    (start classes : History F D).Follows codec ids where
  numeric id st hlive := absurd hlive (by simp [start])
  listed id st hlive := absurd hlive (by simp [start])
  stored id hid n hn name := by
    rw [storedIn, start]
    dsimp only
    cases classes.lookup name with
    | none => rfl
    | some config =>
      rw [Option.map_some, Option.bind_some, Collection.found, create_get]
      rfl

theorem Follows.agrees (hfollows : h.Follows codec ids) : h.Agrees codec ids := by
  intro id hid listing hlists
  cases hn : parseU64 id with
  | none =>
    have hnone : listing.findSome? (objectIn codec h.collections id) = none :=
      List.findSome?_eq_none_iff.mpr fun name _ => objectIn_eq_none hn name
    cases hlive : h.live id with
    | none =>
      rw [getObject, hnone]
      trivial
    | some st =>
      obtain ⟨n, hn'⟩ := hfollows.numeric id st hlive
      exact absurd (hn.symm.trans hn') (by simp)
  | some n =>
    have hobject : ∀ name, objectIn codec h.collections id name = _ := fun name => by
      rw [objectIn_eq hn, hfollows.stored id hid n hn]
    cases hlive : h.live id with
    | none =>
      have hnone : listing.findSome? (objectIn codec h.collections id) = none := by
        refine List.findSome?_eq_none_iff.mpr fun name _ => ?_
        rw [hobject, hlive]
        rfl
      rw [getObject, hnone]
      trivial
    | some st =>
      have hclass : (listing.findSome? (objectIn codec h.collections id)).isSome = true := by
        have hmem := (hlists.2 st.class_).mpr (hfollows.listed id st hlive)
        refine List.findSome?_isSome_iff.mpr ⟨st.class_, hmem, ?_⟩
        rw [hobject, hlive, inClass, Option.bind_some, if_pos rfl]
        rfl
      obtain ⟨object, hfound⟩ := Option.isSome_iff_exists.mp hclass
      obtain ⟨name, hname, heq⟩ := List.exists_of_findSome?_eq_some hfound
      rw [getObject, hfound]
      rw [hobject, hlive, inClass, Option.bind_some] at heq
      split at heq
      · rename_i hsame
        rw [← Option.some.inj heq]
        exact ⟨hsame.symm, rfl, rfl⟩
      · exact absurd heq (by simp)

/-! ## The steps -/

theorem Follows.congr (hfollows : h.Follows codec ids) {collections : Collections F D}
    (hlisted : ∀ name, (collections name).isSome = (h.collections name).isSome)
    (hstored : ∀ name n, storedIn codec collections name n = storedIn codec h.collections name n) :
    (History.mk collections h.live).Follows codec ids where
  numeric := hfollows.numeric
  listed id st hlive := (hlisted _).trans (hfollows.listed id st hlive)
  stored id hid n hn name := (hstored name n).trans (hfollows.stored id hid n hn name)

/-- What lies under an id changes in the one class that has it before and after. -/
theorem Follows.overwrite (hfollows : h.Follows codec ids)
    (hspelt : ∀ id ∈ ids, ∀ id' ∈ ids, ∀ n, parseU64 id = some n → parseU64 id' = some n → id = id')
    {id name : String} {n : Nat} (hid : id ∈ ids) (hn : parseU64 id = some n)
    {c c' : Collection (Map F) D} (hcollection : h.collections name = some c)
    {object : Option (Stored F)}
    (hfound : c'.found codec = Function.update (c.found codec) n (inClass object name))
    (hwas : ∀ st, h.live id = some st → st.class_ = name)
    (hnow : ∀ st, object = some st → st.class_ = name) :
    (History.mk (Function.update h.collections name (some c'))
      (Function.update h.live id object)).Follows codec ids where
  numeric id' st hlive := by
    dsimp only at hlive
    rw [Function.update_apply] at hlive
    split at hlive
    · rename_i hsame
      exact ⟨n, by rw [hsame, hn]⟩
    · exact hfollows.numeric id' st hlive
  listed id' st hlive := by
    dsimp only at hlive ⊢
    rw [Function.update_apply] at hlive ⊢
    split
    · rfl
    · rename_i hother
      split at hlive
      · exact absurd (hnow st hlive) hother
      · exact hfollows.listed id' st hlive
  stored id' hid' n' hn' other := by
    dsimp only
    by_cases hother : other = name
    · subst hother
      have hbefore := hfollows.stored id' hid' n' hn' other
      rw [storedIn, hcollection, Option.bind_some] at hbefore
      rw [storedIn_update_self, hfound]
      by_cases hsame : id' = id
      · subst hsame
        rw [Option.some.inj (hn'.symm.trans hn), Function.update_self, Function.update_self]
      · have hne : n' ≠ n := fun heq => hsame (hspelt id' hid' id hid n (heq ▸ hn') hn)
        rw [Function.update_of_ne hne, Function.update_of_ne hsame, hbefore]
    · rw [storedIn_update_ne hother, hfollows.stored id' hid' n' hn' other]
      by_cases hsame : id' = id
      · subst hsame
        have hnone : ∀ live : Option (Stored F), (∀ st, live = some st → st.class_ = name) →
            inClass live other = none := by
          intro live hclass
          cases live with
          | none => rfl
          | some st => exact if_neg fun heq => hother (heq.symm.trans (hclass st rfl))
        rw [Function.update_self, hnone _ hwas, hnone _ hnow]
      · rw [Function.update_of_ne hsame]

section Steps

variable [LinearOrder D] {crc32c : List UInt8 → UInt32} {floats : Floats F} {hash : String → VectorId}

omit [LinearOrder D] in
theorem isSome_update_map (collections : Collections F D) (name : String)
    (g : Collection (Map F) D → Collection (Map F) D) (other : String) :
    (Function.update collections name ((collections name).map g) other).isSome =
      (collections other).isSome := by
  rw [Function.update_apply]
  split
  · rename_i hname
    rw [Option.isSome_map, hname]
  · rfl

/-- No call makes a class or takes one away. -/
theorem isSome_stores {id : String} {object : WeaviateObject F} {draw : Draw}
    {collections : Collections F D} {outcome : Collections F D × Response F}
    (hstores : Stores codec crc32c floats hash collections id object draw outcome) (name : String) :
    (outcome.1 name).isSome = (collections name).isSome := by
  have hupdate : ∀ {c c' : Collection (Map F) D}, collections object.class_ = some c →
      (Function.update collections object.class_ (some c') name).isSome =
        (collections name).isSome := by
    intro c c' hcollection
    rw [← isSome_update_map collections object.class_ (fun _ => c') name, hcollection,
      Option.map_some]
  cases hstores with
  | refused response hresponse => rfl
  | done c data properties response hcollection => exact hupdate hcollection
  | failed c data properties response hcollection => exact hupdate hcollection

theorem Follows.stores (hfollows : h.Follows codec ids)
    (hspelt : ∀ id ∈ ids, ∀ id' ∈ ids, ∀ n, parseU64 id = some n → parseU64 id' = some n → id = id')
    {id : String} (hid : id ∈ ids) {object : WeaviateObject F} {draw : Draw}
    (hone : h.StoresInOneClass codec floats hash id object draw)
    (hmeets : h.StoreMeets codec floats hash id object draw)
    {outcome : Collections F D × Response F}
    (hstores : Stores codec crc32c floats hash h.collections id object draw outcome) :
    (h.answered id (Weaviate.stored floats object) outcome).Follows codec ids := by
  have hlisted := isSome_stores hstores
  cases hstores with
  | refused response hresponse =>
    rw [answered]
    cases response with
    | object o => exact absurd rfl (hresponse o)
    | empty => exact hfollows
    | error message => exact hfollows
    | panicked => exact hfollows
  | done c data properties response hcollection hdata hproperties hok hresponse =>
    obtain ⟨info, hok⟩ := hok
    obtain ⟨o, rfl⟩ := hresponse
    have htakes := (upsert_singleton_ok_iff codec crc32c c _).mp ⟨info, hok⟩
    obtain ⟨hnumber, hkeeps⟩ := hmeets c data properties hcollection hdata hproperties
    obtain ⟨n, hn⟩ := hnumber htakes
    have hfound := found_upsert_singleton codec crc32c hkeeps
    rw [hok] at hfound
    have hstored : Weaviate.stored floats object =
        some { class_ := object.class_, vector := data, properties } := by
      rw [Weaviate.stored, hdata, hproperties]
      rfl
    rw [hstored]
    refine hfollows.overwrite hspelt hid hn hcollection ?_
      (hone c data properties hcollection hdata hproperties htakes) fun st hst => ?_
    · rw [hfound, overlay]
      dsimp only [objectItem]
      rw [numericId, hn, inClass, Option.bind_some, if_pos rfl]
      rfl
    · rw [← Option.some.inj hst]
  | failed c data properties response hcollection hdata hproperties hfail hresponse =>
    obtain ⟨e, hfail⟩ := hfail
    have hfound := found_upsert_singleton codec crc32c
      (hmeets c data properties hcollection hdata hproperties).2
    rw [hfail] at hfound
    have hsame : (History.mk (Function.update h.collections object.class_
        (some (c.upsert codec crc32c [objectItem hash id data properties draw]).1))
          h.live).Follows codec ids := by
      refine hfollows.congr hlisted fun name n => ?_
      by_cases hother : name = object.class_
      · rw [hother, storedIn_update_self, hfound, storedIn, hcollection]
        rfl
      · exact storedIn_update_ne hother _ n
    rw [answered]
    cases response with
    | object o => exact absurd rfl (hresponse o)
    | empty => exact hsame
    | error message => exact hsame
    | panicked => exact hsame

omit [LinearOrder D] in
theorem Follows.deletes (hfollows : h.Follows codec ids)
    (hspelt : ∀ id ∈ ids, ∀ id' ∈ ids, ∀ n, parseU64 id = some n → parseU64 id' = some n → id = id')
    {id : String} (hid : id ∈ ids) {listing : List (String × Nat)}
    (hmeets : h.Meets codec floats hash (.delete id listing)) :
    (History.mk (deleteObject codec crc32c h.collections id listing).1
      (Function.update h.live id none)).Follows codec ids := by
  show (History.mk (deleteFrom codec crc32c id h.collections listing).1 _).Follows codec ids
  have hnothing : h.live id = none → Function.update h.live id none = h.live := fun hlive => by
    rw [← hlive, Function.update_eq_self]
  cases hn : parseU64 id with
  | none =>
    have hlive : h.live id = none := by
      refine Option.eq_none_iff_forall_ne_some.mpr fun st hst => ?_
      obtain ⟨n, hn'⟩ := hfollows.numeric id st hst
      exact absurd (hn.symm.trans hn') (by simp)
    rw [deleteFrom_eq_of_none hn, hnothing hlive]
    exact hfollows
  | some n =>
    obtain ⟨hclass, hkeeps⟩ := hmeets n hn
    rw [deleteFrom_eq hn]
    cases htaker : taker codec h.collections n listing with
    | none =>
      have hlive : h.live id = none := by
        refine Option.eq_none_iff_forall_ne_some.mpr fun st hst => ?_
        have hnone := hclass st hst
        rw [htaker] at hnone
        exact absurd hnone (by simp)
      rw [hnothing hlive]
      exact hfollows
    | some p =>
      have htakes := List.find?_some htaker
      rw [Bool.and_eq_true, Option.isSome_iff_exists] at htakes
      obtain ⟨⟨c, hcollection⟩, haccepted⟩ := htakes
      have htaken : accepted codec (.delete n p.2 : Record (Map F)) ≠ [] := by
        intro hnil
        rw [hnil] at haccepted
        exact absurd haccepted (by simp)
      dsimp only
      rw [hcollection, Option.map_some]
      refine hfollows.overwrite hspelt hid hn hcollection ?_ (fun st hst => ?_)
        fun st hst => absurd hst (by simp)
      · exact found_delete_singleton codec crc32c htaken (hkeeps p htaker c hcollection)
      · have hname := hclass st hst
        rw [htaker, Option.map_some] at hname
        exact (Option.some.inj hname).symm

omit [LinearOrder D] in
theorem isSome_deleteFrom (id : String) (collections : Collections F D)
    (listing : List (String × Nat)) (name : String) :
    ((deleteFrom codec crc32c id collections listing).1 name).isSome = (collections name).isSome := by
  cases hn : parseU64 id with
  | none => rw [deleteFrom_eq_of_none hn]
  | some n =>
    rw [deleteFrom_eq hn]
    cases taker codec collections n listing with
    | none => rfl
    | some p => exact isSome_update_map collections p.1 _ name

theorem isSome_step (h : History F D) (request : Request F) (name : String) :
    ((h.step codec crc32c floats hash request).collections name).isSome =
      (h.collections name).isSome := by
  cases request with
  | create object draw => exact isSome_stores (createObject_stores object draw) name
  | update id object draw => exact isSome_stores (updateObject_stores id object draw) name
  | delete id listing => exact isSome_deleteFrom id h.collections listing name
  | flush other task timestamp => exact isSome_update_map h.collections other _ name

theorem Follows.step (hfollows : h.Follows codec ids)
    (hspelt : ∀ id ∈ ids, ∀ id' ∈ ids, ∀ n, parseU64 id = some n → parseU64 id' = some n → id = id')
    {request : Request F} (hid : ∀ id, request.id = some id → id ∈ ids)
    (hone : h.InOneClass codec floats hash request) (hmeets : h.Meets codec floats hash request) :
    (h.step codec crc32c floats hash request).Follows codec ids := by
  cases request with
  | create object draw =>
    exact hfollows.stores hspelt (hid _ rfl) hone hmeets (createObject_stores object draw)
  | update id object draw =>
    exact hfollows.stores hspelt (hid _ rfl) hone hmeets (updateObject_stores id object draw)
  | delete id listing => exact hfollows.deletes hspelt (hid _ rfl) hmeets
  | flush name task timestamp =>
    have hlisted := @isSome_step F D codec _ crc32c floats hash h (.flush name task timestamp)
    refine hfollows.congr hlisted fun other n => ?_
    by_cases hother : other = name
    · subst hother
      rw [storedIn, storedIn, Function.update_self]
      cases hcollection : h.collections other with
      | none => rfl
      | some c =>
        have hkeeps := (mirrors_runTask_iff (c.mirrors_found codec) task timestamp).mpr
          (hmeets c hcollection) n
        exact (hkeeps.trans Option.map_id').symm
    · exact storedIn_update_ne hother _ n

end Steps

/-! ## Two objects -/

def emptyPayloadText : Record (Map Nat) → String
  | .put id vector timestamp =>
    "\x7b\"Put\":\x7b\"id\":" ++ toString id ++ ",\"vector\":\x7b\"data\":[" ++
      ",".intercalate (vector.data.map componentText) ++ "],\"payload\":\x7b\x7d\x7d,\"timestamp\":" ++
      toString timestamp ++ "\x7d\x7d"
  | .delete id timestamp => recordText (.delete id timestamp : Record (Map Nat))

def emptyPayloadCodec : Codec (Map Nat) :=
  { sampleCodec with toVec := fun r => .ok (ascii (emptyPayloadText r)) }

def sampleClasses : List (String × CollectionConfig Nat) := [("A", sampleCollectionConfig)]

def sampleDraw : Draw := { uuid := "", created := 1, updated := 1, timestamp := 1, level := 0 }

def creation (id : String) : Request Nat :=
  .create
    { id := some id
      class_ := "A"
      properties := .object []
      vector := some [0x3F800000]
      creationTimeUnix := none
      lastUpdateTimeUnix := none
      additional := none }
    sampleDraw

def sampleHash : String → VectorId := fun _ => 8186225505942432243

theorem creation_inOneClass (id : String) :
    (start sampleClasses).InOneClass emptyPayloadCodec sampleFloats sampleHash (creation id) :=
  fun _ _ _ _ _ _ _ st hlive => absurd hlive (Option.some_ne_none st).symm

theorem storeMeets_of_takenInMemory {F D : Type} [LinearOrder D] {codec : Codec (Map F)}
    {floats : Floats F} {hash : String → VectorId} {h : History F D} {id : String} {n : Nat}
    {object : WeaviateObject F} {draw : Draw} (hn : parseU64 id = some n)
    (htaken : ((h.collections object.class_).bind fun c => (vectorData floats object).bind fun data =>
      object.properties.asObject.map fun properties =>
        let item := objectItem hash id data properties draw
        TakenInMemory codec c.storage (.put item.id item.vector item.timestamp)) = some true) :
    h.StoreMeets codec floats hash id object draw := by
  intro c data properties hcollection hdata hproperties
  rw [hcollection, Option.bind_some, hdata, Option.bind_some, hproperties,
    Option.map_some] at htaken
  exact ⟨fun _ => ⟨n, hn⟩, fun _ => writeKeeps_of_takenInMemory (Option.some.inj htaken)⟩

theorem inOneClass_of_map_class {F D : Type} {codec : Codec (Map F)} {floats : Floats F}
    {hash : String → VectorId} {h : History F D} {id : String} {object : WeaviateObject F}
    {draw : Draw} (hclass : (h.live id).map Stored.class_ = some object.class_) :
    h.StoresInOneClass codec floats hash id object draw := by
  intro _ _ _ _ _ _ _ st hlive
  rw [hlive, Option.map_some] at hclass
  exact Option.some.inj hclass

/-- Another vector for the object. -/
def revision : Request Nat :=
  .update "1"
    { id := some "1"
      class_ := "A"
      properties := .object []
      vector := some [0x40000000]
      creationTimeUnix := none
      lastUpdateTimeUnix := none
      additional := none }
    { sampleDraw with timestamp := 2 }

def sampleAfter (requests : List (Request Nat)) : History Nat Nat :=
  requests.foldl (step emptyPayloadCodec (fun _ => 0) sampleFloats sampleHash) (start sampleClasses)

theorem deletion_meets :
    (sampleAfter [creation "1", revision]).Meets emptyPayloadCodec sampleFloats sampleHash
      (.delete "1" [("A", 3)]) := by
  intro n hn
  obtain rfl : 1 = n := Option.some.inj ((by decide : parseU64 "1" = some 1).symm.trans hn)
  have htaker : taker emptyPayloadCodec (sampleAfter [creation "1", revision]).collections 1
      [("A", 3)] = some ("A", 3) := by decide +kernel
  have htaken : ((sampleAfter [creation "1", revision]).collections "A").map (fun c =>
      TakenInMemory emptyPayloadCodec c.storage (.delete 1 3)) = some true := by decide +kernel
  have hclass : ((sampleAfter [creation "1", revision]).live "1").map Stored.class_ =
      some "A" := by decide +kernel
  rw [htaker]
  refine ⟨fun st hlive => ?_, fun p hp c hcollection => ?_⟩
  · rw [hlive, Option.map_some] at hclass
    rw [Option.map_some, Option.some.inj hclass]
  · obtain rfl := Option.some.inj hp
    rw [hcollection, Option.map_some] at htaken
    exact writeKeeps_of_takenInMemory (Option.some.inj htaken)

theorem creation_stored :
    (((start sampleClasses).step emptyPayloadCodec (fun _ => 0) sampleFloats sampleHash
      (creation "a")).live "a").isSome = true := by
  decide +kernel

theorem creation_listed :
    Lists ((start sampleClasses).step emptyPayloadCodec (fun _ => 0) sampleFloats sampleHash
      (creation "a")).collections ["A"] := by
  refine ⟨List.nodup_singleton _, fun name => ?_⟩
  rw [isSome_step, start, List.mem_singleton]
  show _ ↔ (Option.map create (List.lookup name [("A", sampleCollectionConfig)])).isSome = true
  rw [Option.isSome_map, List.lookup_cons]
  cases hname : name == "A" with
  | true => exact iff_of_true (beq_iff_eq.mp hname) rfl
  | false => exact iff_of_false (beq_eq_false_iff_ne.mp hname) Bool.false_ne_true

end History
end Weaviate
end Api
end RTDB
