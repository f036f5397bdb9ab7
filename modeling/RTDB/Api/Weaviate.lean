import RTDB.Api.FreshIds
import RTDB.Api.Qdrant

/-!
# Objects of the Weaviate API

The object handlers of `api/weaviate_compat.rs`.  Collections know their vectors by number.
`create_object` and `update_object` hash an id that is not one; `get_object` and `delete_object` look
for numbers only, collection by collection in the order of a hash map.
-/

namespace RTDB
namespace Api
namespace Weaviate

open Storage Collection Qdrant

variable {F D : Type}

structure WeaviateObject (F : Type) where
  id : Option String
  class_ : String
  properties : Json F
  vector : Option (List UInt32)
  creationTimeUnix : Option Int
  lastUpdateTimeUnix : Option Int
  additional : Option (Json F)

inductive Response (F : Type) where
  | object (object : WeaviateObject F)
  | empty
  | error (message : String)
  | panicked

/-- What a call draws: an id, the time of its answer, and the clock reading and the level of its put. -/
structure Draw where
  uuid : String
  created : Int
  updated : Int
  timestamp : Nat
  level : Nat

section Objects

variable (floats : Floats F)

/-- The loop over the names of fields that a vector may stand in.  A field that is no array is passed
over, an array that is not all numbers ends the loop. -/
def extractVectorFromFields (obj : Map F) : List String → Option (List UInt32)
  | [] => none
  | fieldName :: rest =>
    match (obj.lookup fieldName).bind Json.asArray with
    | some arr => arr.mapM fun val => (val.asF64 floats).map floats.toF32
    | none => extractVectorFromFields obj rest

def extractVectorFromProperties (properties : Json F) : Option (List UInt32) :=
  properties.asObject.bind fun obj =>
    extractVectorFromFields floats obj ["vector", "embedding", "embeddings", "vec"]

def vectorData (object : WeaviateObject F) : Option (List UInt32) :=
  match object.vector with
  | some vector => some vector
  | none => extractVectorFromProperties floats object.properties

end Objects

/-- The number of an id, or its hash. -/
def numericId (hash : String → VectorId) (id : String) : VectorId := (parseU64 id).getD (hash id)

def objectItem (hash : String → VectorId) (id : String) (data : List UInt32) (properties : Map F)
    (draw : Draw) : UpsertItem (Map F) :=
  { id := numericId hash id
    vector := { data, payload := some properties }
    timestamp := draw.timestamp
    level := draw.level }

section Handlers

variable [LinearOrder D] (codec : Codec (Map F)) (crc32c : List UInt8 → UInt32) (floats : Floats F)
  (hash : String → VectorId) (collections : Collections F D)

def createObject (object : WeaviateObject F) (draw : Draw) : Collections F D × Response F :=
  match collections object.class_ with
  | none => (collections, .error ("Class not found: Collection not found: " ++ object.class_))
  | some collection =>
    let id := object.id.getD draw.uuid
    match vectorData floats object with
    | none => (collections, .error "No vector data provided")
    | some data =>
      if data.length ≠ collection.config.dimension then
        (collections, .error ("Vector dimension mismatch: expected " ++
          toString collection.config.dimension ++ ", got " ++ toString data.length))
      else
        match object.properties.asObject with
        | none => (collections, .panicked)
        | some properties =>
          let outcome := collection.upsert codec crc32c [objectItem hash id data properties draw]
          (Function.update collections object.class_ (some outcome.1),
            match outcome.2 with
            | .ok _ =>
              .object { object with
                id := some id
                creationTimeUnix := some draw.created
                lastUpdateTimeUnix := some draw.updated }
            | .error e => .error ("Failed to create object: " ++ errorText e))

def updateObject (id : String) (object : WeaviateObject F) (draw : Draw) :
    Collections F D × Response F :=
  match collections object.class_ with
  | none => (collections, .error ("Class not found: Collection not found: " ++ object.class_))
  | some collection =>
    match vectorData floats object with
    | none => (collections, .error "No vector data provided")
    | some data =>
      match object.properties.asObject with
      | none => (collections, .panicked)
      | some properties =>
        let outcome := collection.upsert codec crc32c [objectItem hash id data properties draw]
        (Function.update collections object.class_ (some outcome.1),
          match outcome.2 with
          | .ok _ => .object { object with id := some id, lastUpdateTimeUnix := some draw.updated }
          | .error e => .error ("Failed to update object: " ++ errorText e))

omit [LinearOrder D] in
def objectIn (id : String) (name : String) : Option (WeaviateObject F) :=
  (collections name).bind fun collection =>
    (parseU64 id).bind fun numericId =>
      match collection.get codec numericId with
      | .ok (some point) =>
        some
          { id := some id
            class_ := name
            properties := .object (point.payload.getD [])
            vector := some point.vector
            creationTimeUnix := none
            lastUpdateTimeUnix := none
            additional := none }
      | _ => none

omit [LinearOrder D] in
def getObject (listing : List String) (id : String) : Response F :=
  match listing.findSome? (objectIn codec collections id) with
  | some object => .object object
  | none => .error ("Object with ID '" ++ id ++ "' not found")

omit [LinearOrder D] in
/-- The loop of `delete_object` over the collections, each with a clock reading. -/
def deleteFrom (id : String) (collections : Collections F D) :
    List (String × Nat) → Collections F D × Bool
  | [] => (collections, false)
  | (name, timestamp) :: listing =>
    match collections name, parseU64 id with
    | some collection, some numericId =>
      match collection.delete codec crc32c [(numericId, timestamp)] with
      | (collection, .ok _) => (Function.update collections name (some collection), true)
      | (collection, .error _) =>
        deleteFrom id (Function.update collections name (some collection)) listing
    | _, _ => deleteFrom id collections listing

omit [LinearOrder D] in
def deleteObject (id : String) (listing : List (String × Nat)) : Collections F D × Response F :=
  let (collections, deleted) := deleteFrom codec crc32c id collections listing
  (collections, if deleted then .empty else .error ("Object with ID '" ++ id ++ "' not found"))

end Handlers

/-! ## What a handler does -/

section Outcomes

variable [LinearOrder D] {codec : Codec (Map F)} {crc32c : List UInt8 → UInt32} {floats : Floats F}
  {hash : String → VectorId} {collections : Collections F D}

/-- A call that stores an object under an id answers with it, or changes nothing, or upserts in vain. -/
inductive Stores (codec : Codec (Map F)) (crc32c : List UInt8 → UInt32) (floats : Floats F)
    (hash : String → VectorId) (collections : Collections F D) (id : String)
    (object : WeaviateObject F) (draw : Draw) : Collections F D × Response F → Prop
  | refused (response : Response F) (hresponse : ∀ o, response ≠ .object o) :
    Stores codec crc32c floats hash collections id object draw (collections, response)
  | done (collection : Collection (Map F) D) (data : List UInt32) (properties : Map F)
      (response : Response F) (hcollection : collections object.class_ = some collection)
      (hdata : vectorData floats object = some data)
      (hproperties : object.properties.asObject = some properties)
      (hok : ∃ info, (collection.upsert codec crc32c
        [objectItem hash id data properties draw]).2 = .ok info)
      (hresponse : ∃ o, response = .object o) :
    Stores codec crc32c floats hash collections id object draw
      (Function.update collections object.class_
        (some (collection.upsert codec crc32c [objectItem hash id data properties draw]).1), response)
  | failed (collection : Collection (Map F) D) (data : List UInt32) (properties : Map F)
      (response : Response F) (hcollection : collections object.class_ = some collection)
      (hdata : vectorData floats object = some data)
      (hproperties : object.properties.asObject = some properties)
      (hfail : ∃ e, (collection.upsert codec crc32c
        [objectItem hash id data properties draw]).2 = .error e)
      (hresponse : ∀ o, response ≠ .object o) :
    Stores codec crc32c floats hash collections id object draw
      (Function.update collections object.class_
        (some (collection.upsert codec crc32c [objectItem hash id data properties draw]).1), response)

theorem createObject_stores (object : WeaviateObject F) (draw : Draw) :
    Stores codec crc32c floats hash collections (object.id.getD draw.uuid) object draw
      (createObject codec crc32c floats hash collections object draw) := by
  rw [createObject]
  split
  · exact .refused _ (fun o => by simp)
  · rename_i collection hcollection
    dsimp only
    split
    · exact .refused _ (fun o => by simp)
    · rename_i data hdata
      split
      · exact .refused _ (fun o => by simp)
      · split
        · exact .refused _ (fun o => by simp)
        · rename_i properties hproperties
          cases hresult : (collection.upsert codec crc32c
              [objectItem hash (object.id.getD draw.uuid) data properties draw]).2 with
          | ok info =>
            exact .done collection data properties _ hcollection hdata hproperties ⟨info, hresult⟩
              ⟨_, rfl⟩
          | error e =>
            exact .failed collection data properties _ hcollection hdata hproperties ⟨e, hresult⟩
              (fun o => by simp)

theorem updateObject_stores (id : String) (object : WeaviateObject F) (draw : Draw) :
    Stores codec crc32c floats hash collections id object draw
      (updateObject codec crc32c floats hash collections id object draw) := by
  rw [updateObject]
  split
  · exact .refused _ (fun o => by simp)
  · rename_i collection hcollection
    split
    · exact .refused _ (fun o => by simp)
    · rename_i data hdata
      split
      · exact .refused _ (fun o => by simp)
      · rename_i properties hproperties
        dsimp only
        cases hresult : (collection.upsert codec crc32c
            [objectItem hash id data properties draw]).2 with
        | ok info =>
          exact .done collection data properties _ hcollection hdata hproperties ⟨info, hresult⟩
            ⟨_, rfl⟩
        | error e =>
          exact .failed collection data properties _ hcollection hdata hproperties ⟨e, hresult⟩
            (fun o => by simp)

omit [LinearOrder D] in
/-- `get_object` finds what a reader of the collection finds under the number of the id. -/
theorem objectIn_eq {id : String} {n : Nat} (hn : parseU64 id = some n) (name : String) :
    objectIn codec collections id name = (storedIn codec collections name n).map fun vector =>
      { id := some id, class_ := name, properties := .object (vector.payload.getD [])
        vector := some vector.data, creationTimeUnix := none, lastUpdateTimeUnix := none
        additional := none } := by
  rw [objectIn, storedIn]
  cases hcollection : collections name with
  | none => rfl
  | some collection =>
    rw [hn, Option.bind_some, Option.bind_some, Option.bind_some, Collection.found, Collection.get]
    rcases collection.storage.get codec n with e | _ | vector
    · rfl
    · rfl
    · rfl

omit [LinearOrder D] in
theorem objectIn_eq_none {id : String} (hn : parseU64 id = none) (name : String) :
    objectIn codec collections id name = none := by
  rw [objectIn, hn]
  cases collections name <;> rfl

/-- The first listed collection whose log takes the deletion. -/
def taker (codec : Codec (Map F)) (collections : Collections F D) (n : VectorId)
    (listing : List (String × Nat)) : Option (String × Nat) :=
  listing.find? fun p =>
    (collections p.1).isSome && !(accepted codec (.delete n p.2 : Record (Map F))).isEmpty

omit [LinearOrder D] in
theorem deleteFrom_eq_of_none {id : String} (hn : parseU64 id = none) (listing : List (String × Nat)) :
    deleteFrom codec crc32c id collections listing = (collections, false) := by
  induction listing with
  | nil => rfl
  | cons p listing ih =>
    rw [deleteFrom, hn]
    cases collections p.1 with
    | none => exact ih
    | some collection => exact ih

omit [LinearOrder D] in
/-- The deletion goes to the first collection that takes it, whether it has the id or not. -/
theorem deleteFrom_eq {id : String} {n : Nat} (hn : parseU64 id = some n)
    (listing : List (String × Nat)) :
    deleteFrom codec crc32c id collections listing =
      match taker codec collections n listing with
      | none => (collections, false)
      | some p =>
        (Function.update collections p.1
          ((collections p.1).map fun c => (c.delete codec crc32c [(n, p.2)]).1), true) := by
  induction listing with
  | nil => rfl
  | cons p listing ih =>
    obtain ⟨name, timestamp⟩ := p
    rw [deleteFrom, taker, List.find?_cons]
    cases hcollection : collections name with
    | none => exact ih
    | some collection =>
      rw [hn]
      rcases delete_singleton_cases codec crc32c collection n timestamp with
        ⟨hnone, e, hdelete⟩ | ⟨hsome, ⟨info, hok⟩, -, -⟩
      · have hsame : Function.update collections name (some collection) = collections := by
          rw [← hcollection, Function.update_eq_self]
        simp only [hdelete, hsame, hnone, List.isEmpty_nil, Bool.not_true, Bool.and_false]
        exact ih
      · have htaken : (accepted codec (.delete n timestamp : Record (Map F))).isEmpty = false := by
          rw [List.isEmpty_eq_false_iff]
          exact hsome
        generalize houtcome : collection.delete codec crc32c [(n, timestamp)] = outcome at hok
        obtain ⟨collection', result⟩ := outcome
        dsimp only at hok
        subst hok
        simp only [houtcome, htaken, Option.isSome_some, Bool.not_false, Bool.and_true, hcollection,
          Option.map_some]

end Outcomes

end Weaviate
end Api
end RTDB
