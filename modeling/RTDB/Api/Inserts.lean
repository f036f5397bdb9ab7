import RTDB.Collection.Upserts

/-!
# Inserts over the network

`insert_entities_v2` of `api/milvus_compat.rs`, and `RtdbClient::insert_batch` of `client/mod.rs`
with the `upsert_points` of `api/qdrant_compat.rs` that serves it.  The servers share their
collections.
-/

namespace RTDB
namespace Api

open Storage

/-! ## JSON -/

/-- A number of `serde_json`; `F` is `f64`. -/
inductive Number (F : Type) where
  | posInt (n : UInt64)
  | negInt (n : Int64)
  | float (f : F)
  deriving DecidableEq, Repr

/-- The fields of an object have different names. -/
inductive Json (F : Type) where
  | null
  | bool (b : Bool)
  | number (n : Number F)
  | string (s : String)
  | array (values : List (Json F))
  | object (fields : List (String × Json F))

/-- `serde_json::Map<String, Value>`. -/
abbrev Map (F : Type) := List (String × Json F)

/-- The arithmetic of floats that inserts use: `as f64` on integers and `as f32`. -/
structure Floats (F : Type) where
  ofInt : Int → F
  isFinite : F → Bool
  toF32 : F → UInt32

variable {F D : Type}

def Number.asI64 : Number F → Option Int64
  | .posInt n => if n ≤ 0x7FFFFFFFFFFFFFFF then some n.toInt64 else none
  | .negInt n => some n
  | .float _ => none

def Number.asF64 (floats : Floats F) : Number F → F
  | .posInt n => floats.ofInt n.toNat
  | .negInt n => floats.ofInt n.toInt
  | .float f => f

namespace Json

def asI64 : Json F → Option Int64
  | .number n => n.asI64
  | _ => none

def asF64 (floats : Floats F) : Json F → Option F
  | .number n => some (n.asF64 floats)
  | _ => none

def asArray : Json F → Option (List (Json F))
  | .array values => some values
  | _ => none

def asObject : Json F → Option (Map F)
  | .object fields => some fields
  | _ => none

end Json

def errorText : Error → String
  | .invalidDimension expected actual =>
    "Invalid vector dimension: expected " ++ toString expected ++ ", got " ++ toString actual
  | .storage (.storage msg) => "Storage error: " ++ msg
  | .storage (.serialization msg) => "Serialization error: " ++ msg
  | .storage (.panic msg) => msg

/-! ## The server -/

abbrev Collections (F D : Type) := String → Option (Collection (Map F) D)

/-- The clock readings of the puts of an upsert and the levels that its index draws. -/
structure Draws where
  timestamp : Nat → Nat
  level : Nat → Nat

def Draws.items {P : Type} (draws : Draws) (vectors : List (UInt64 × Vector P)) :
    List (UpsertItem P) :=
  vectors.zipIdx.map fun v =>
    { id := v.1.1.toNat, vector := v.1.2
      timestamp := draws.timestamp v.2, level := draws.level v.2 }

structure MilvusResponse (T : Type) where
  code : Int
  message : Option String
  data : Option T
  deriving DecidableEq, Repr

namespace MilvusResponse

variable {T : Type}

def success (data : T) : MilvusResponse T := { code := 0, message := none, data := some data }

def error (code : Int) (message : String) : MilvusResponse T :=
  { code, message := some message, data := none }

end MilvusResponse

structure InsertRequest (F : Type) where
  collectionName : String
  data : Json F

structure InsertData (F : Type) where
  insertCount : Nat
  insertIds : List (Json F)

/-! ### The entities of a request -/

section Entities

variable (floats : Floats F)

def extractVectorData (value : Json F) (entityIdx : Nat) : Except String (List UInt32) :=
  match value.asArray with
  | some arr =>
    arr.zipIdx.mapM fun val =>
      match val.1.asF64 floats with
      | some f =>
        if floats.isFinite f then .ok (floats.toF32 f)
        else
          .error ("Invalid vector value at entity " ++ toString entityIdx ++ ", index " ++
            toString val.2 ++ ": non-finite number")
      | none =>
        .error ("Invalid vector data at entity " ++ toString entityIdx ++ ", index " ++
          toString val.2 ++ ": not a number")
  | none => .error ("Vector must be an array at entity " ++ toString entityIdx)

def isVectorField (fieldName : String) : Bool :=
  fieldName == "vector" || fieldName == "embedding" || fieldName == "embeddings" ||
    fieldName == "vec"

def vectorField (obj : Map F) : Option (Json F) :=
  (obj.lookup "vector").or <| (obj.lookup "embedding").or <|
    (obj.lookup "embeddings").or (obj.lookup "vec")

/-- The id of an entity, or its position when it has none that is an `i64`. -/
def entityId (obj : Map F) (idx : Nat) : UInt64 :=
  (((obj.lookup "id").bind Json.asI64).getD (Int64.ofNat idx)).toUInt64

def entityVector (obj : Map F) (vectorData : List UInt32) : Vector (Map F) :=
  let payload := obj.filter fun field => !isVectorField field.1
  { data := vectorData, payload := if payload.isEmpty then none else some payload }

/-- One round of the loop over the entities. -/
def readEntity (expectedDim idx : Nat) (entity : Json F) :
    Except String (UInt64 × Vector (Map F)) :=
  match entity.asObject with
  | none => .error ("Entity " ++ toString idx ++ " is not an object")
  | some obj =>
    match vectorField obj with
    | none =>
      .error ("Missing vector field at entity " ++ toString idx ++
        " (tried: vector, embedding, embeddings, vec)")
    | some v =>
      match extractVectorData floats v idx with
      | .error message => .error message
      | .ok vectorData =>
        if vectorData.length ≠ expectedDim then
          .error ("Vector dimension mismatch at entity " ++ toString idx ++ ": expected " ++
            toString expectedDim ++ ", got " ++ toString vectorData.length)
        else .ok (entityId obj idx, entityVector obj vectorData)

def readEntities (expectedDim : Nat) (entities : List (Json F)) :
    Except String (List (UInt64 × Vector (Map F))) :=
  entities.zipIdx.mapM fun entity => readEntity floats expectedDim entity.2 entity.1

def readRequest (collections : Collections F D) (req : InsertRequest F) :
    Except String (Collection (Map F) D × List (UInt64 × Vector (Map F))) :=
  match collections req.collectionName with
  | none => .error ("Collection not found: Collection not found: " ++ req.collectionName)
  | some c =>
    match req.data.asArray with
    | none => .error "Data must be an array"
    | some entities =>
      if entities.isEmpty then .error "Empty data array provided"
      else if entities.length > 10000 then .error "Batch size too large (max 10000 entities)"
      else (readEntities floats c.config.dimension entities).map fun vectors => (c, vectors)

end Entities

/-! ### Calls -/

section Calls

variable [LinearOrder D] (codec : Codec (Map F)) (crc32c : List UInt8 → UInt32)

def insertEntitiesV2 (floats : Floats F) (collections : Collections F D) (req : InsertRequest F)
    (draws : Draws) : Collections F D × MilvusResponse (InsertData F) :=
  match readRequest floats collections req with
  | .error message => (collections, .error 1 message)
  | .ok (c, vectors) =>
    match c.upsert codec crc32c (draws.items vectors) with
    | (c, .ok _) =>
      (Function.update collections req.collectionName (some c),
        .success
          { insertCount := vectors.length % 2 ^ 32
            insertIds := vectors.map fun v => .number (.posInt v.1) })
    | (c, .error e) =>
      (Function.update collections req.collectionName (some c),
        .error 1 ("Insert failed: " ++ errorText e))

/-- An exponent that is not all ones. -/
def isFiniteF32 (bits : UInt32) : Bool := (bits >>> 23) &&& 0xFF != 0xFF

section Validation

variable (isAlphanumeric : Char → Bool)

def validateCollectionName (name : String) : Bool :=
  !name.isEmpty && decide (name.utf8ByteSize ≤ 255) &&
    name.toList.all fun c => isAlphanumeric c || c == '_' || c == '-'

def validateVectorArray (expectedDimension : Nat) (arr : List UInt32) : Bool :=
  decide (arr.length = expectedDimension) && !arr.isEmpty && decide (arr.length ≤ 65536) &&
    arr.all isFiniteF32

/-- Whether points with integer ids and without payload pass; of the errors nothing is told but that
there are some. -/
def validateUpsertRequest (collectionName : String) (points : List (UInt64 × List UInt32))
    (expectedDimension : Nat) : Bool :=
  validateCollectionName isAlphanumeric collectionName && !points.isEmpty &&
    decide (points.length ≤ 10000) &&
    points.all fun point => validateVectorArray expectedDimension point.2

/-- The points of a request with its collection, if it passes. -/
def readPoints (collections : Collections F D) (name : String)
    (points : List (UInt64 × List UInt32)) :
    Except String (Collection (Map F) D × List (UInt64 × Vector (Map F))) :=
  match collections name with
  | none => .error ("Collection not found: Collection not found: " ++ name)
  | some c =>
    if validateUpsertRequest isAlphanumeric name points c.config.dimension then
      .ok (c, points.map fun point => (point.1, { data := point.2, payload := none }))
    else .error "Validation failed"

/-- Either answer has the status 200. -/
def upsertPoints (collections : Collections F D) (name : String)
    (points : List (UInt64 × List UInt32)) (draws : Draws) :
    Collections F D × Except String OperationInfo :=
  match readPoints isAlphanumeric collections name points with
  | .error message => (collections, .error message)
  | .ok (c, vectors) =>
    match c.upsert codec crc32c (draws.items vectors) with
    | (c, .ok info) => (Function.update collections name (some c), .ok info)
    | (c, .error e) => (Function.update collections name (some c), .error (errorText e))

/-- Whether the handler answers the request, or the client gets another status or none; then the
server may have served it. -/
inductive Transport where
  | answered
  | failed (served : Bool) (error : String)
  deriving DecidableEq, Repr

def batchPoints (vectors : List (List UInt32)) : List (UInt64 × List UInt32) :=
  vectors.zipIdx.map fun v => (UInt64.ofNat v.2, v.1)

/-- The server can read the request: a component that is not finite is sent as `null`. -/
def Readable (vectors : List (List UInt32)) : Bool := vectors.all fun v => v.all isFiniteF32

def insertBatch (collections : Collections F D) (collectionName : String)
    (vectors : List (List UInt32)) (transport : Transport) (draws : Draws) :
    Collections F D × Except String Unit :=
  let served :=
    (upsertPoints codec crc32c isAlphanumeric collections collectionName (batchPoints vectors)
      draws).1
  match transport with
  | .answered =>
    if Readable vectors then (served, .ok ())
    else (collections, .error "Failed to insert batch: 422 Unprocessable Entity")
  | .failed reached error => (if reached && Readable vectors then served else collections, .error error)

end Validation

end Calls

end Api
end RTDB
