import RTDB.Api.ScrollPoints

/-!
# Points that are upserted

`upsert_points` and `retrieve_points` of `api/qdrant_compat.rs` with the validation of
`api/validation.rs`, and `upsert` of the `PointsService` of `api/grpc.rs`.
-/

namespace RTDB
namespace Api
namespace Qdrant

open Storage

variable {F P D : Type}

/-! ## Requests -/

inductive VectorInput where
  | plain (vector : List UInt32)
  | named (vectors : AList fun _ : String => List UInt32)

/-- A `PointStruct` of a request. -/
structure PointInput (F : Type) where
  id : PointId
  vector : VectorInput
  payload : Option (Map F)

structure PointsBatch (F : Type) where
  ids : List PointId
  vectors : List (List UInt32)
  payloads : Option (List (Map F))

structure UpsertPointsRequest (F : Type) where
  points : List (PointInput F)
  batch : Option (PointsBatch F)

/-! ## Validation -/

def Number.asU64 : Number F → Option UInt64
  | .posInt n => some n
  | .negInt _ | .float _ => none

def Json.get : Json F → String → Option (Json F)
  | .object fields, key => fields.lookup key
  | _, _ => none

section Validation

variable (floats : Floats F)

abbrev Errors := List ValidationError

def checkComponent (fieldName : String) (component : Json F × Nat) : Errors :=
  match component.1.asF64 floats with
  | some f =>
    if floats.isFinite f then []
    else
      [{ field := fieldName ++ "[" ++ toString component.2 ++ "]"
         message := "Vector components must be finite numbers (no NaN or Infinity)"
         code := "INVALID_VALUE" }]
  | none =>
    [{ field := fieldName ++ "[" ++ toString component.2 ++ "]"
       message := "Vector components must be numbers"
       code := "INVALID_TYPE" }]

def checkBounds (fieldName : String) (arr : List (Json F)) : Errors :=
  if arr.isEmpty then
    [{ field := fieldName, message := "Vector cannot be empty", code := "MIN_LENGTH" }]
  else if 65536 < arr.length then
    [{ field := fieldName, message := "Vector dimension cannot exceed 65,536"
       code := "MAX_LENGTH" }]
  else []

def validateVectorArray (arr : List (Json F)) (expectedDimension : Option Nat)
    (fieldName : String) : Errors :=
  let rest := checkBounds fieldName arr ++ arr.zipIdx.flatMap (checkComponent floats fieldName)
  match expectedDimension with
  | some expectedDim =>
    if arr.length ≠ expectedDim then
      [{ field := fieldName
         message :=
          "Vector dimension must be " ++ toString expectedDim ++ " but got " ++ toString arr.length
         code := "INVALID_DIMENSION" }]
    else rest
  | none => rest

def validateNamedVector (expectedDimension : Option Nat) (field : String × Json F) : Errors :=
  match field.2 with
  | .array arr => validateVectorArray floats arr expectedDimension ("vector." ++ field.1)
  | _ =>
    [{ field := "vector." ++ field.1, message := "Named vector must be an array of numbers"
       code := "INVALID_TYPE" }]

def validateVectorValue (vector : Json F) (expectedDimension : Option Nat) : Errors :=
  match vector with
  | .array arr => validateVectorArray floats arr expectedDimension "vector"
  | .object obj => obj.flatMap (validateNamedVector floats expectedDimension)
  | _ =>
    [{ field := "vector"
       message := "Vector must be an array of numbers or object with named vectors"
       code := "INVALID_TYPE" }]

def isValidPointId : Json F → Bool
  | .number n => (Number.asU64 n).isSome
  | .string s => !s.isEmpty && decide (s.utf8ByteSize ≤ 255)
  | _ => false

def validateId : Option (Json F) → Errors
  | some idValue =>
    if isValidPointId idValue then []
    else
      [{ field := "id", message := "Point ID must be a positive integer or non-empty string"
         code := "INVALID_FORMAT" }]
  | none => [{ field := "id", message := "Point ID is required", code := "REQUIRED" }]

def validatePayload : Json F → Errors
  | .object _ | .null => []
  | _ =>
    [{ field := "payload", message := "Payload must be a JSON object or null"
       code := "INVALID_TYPE" }]

def validatePointData (point : Json F) (expectedDimension : Option Nat) : Errors :=
  validateId (Json.get point "id") ++
    (match Json.get point "vector" with
      | some vectorValue => validateVectorValue floats vectorValue expectedDimension
      | none => [{ field := "vector", message := "Vector is required", code := "REQUIRED" }]) ++
    match Json.get point "payload" with
    | some payloadValue => validatePayload payloadValue
    | none => []

/-- The errors of a point, under its position. -/
def pointErrors (expectedDimension : Option Nat) (point : Json F × Nat) : Errors :=
  (validatePointData floats point.1 expectedDimension).map fun error =>
    { error with field := "points[" ++ toString point.2 ++ "]." ++ error.field }

def validateUpsertRequest (isAlphanumeric : Char → Bool) (collectionName : String)
    (vectors : List (Json F)) (expectedDimension : Option Nat) : Except ApiError Unit := do
  validated (validateCollectionName isAlphanumeric collectionName)
  if vectors.isEmpty then
    invalid "points" "At least one point must be provided" "REQUIRED"
  else if 10000 < vectors.length then
    invalid "points" "Cannot upsert more than 10,000 points at once" "MAX_BATCH_SIZE"
  else
    let errors := vectors.zipIdx.flatMap (pointErrors floats expectedDimension)
    if errors.isEmpty then .ok () else .error (.validationFailed errors)

end Validation

/-! ## What is validated, and what is stored -/

section Points

variable (floats : Floats F) (widen : UInt32 → F)

/-- `Number::from_f64` of a component `as f64`. -/
def fromF64 (f : UInt32) : Option (Number F) :=
  if floats.isFinite (widen f) then some (.float (widen f)) else none

def PointId.toJson : PointId → Json F
  | .integer n => .number (.posInt (UInt64.ofNat n))
  | .string s => .string s

def payloadField (payload : Option (Map F)) : List (String × Json F) :=
  match payload with
  | some payload => [("payload", .object payload)]
  | none => []

def serialized (vector : List UInt32) : Json F :=
  .array (vector.map fun f => ((fromF64 floats widen f).map Json.number).getD .null)

/-- `serde_json::to_value`. -/
def PointInput.toValue (p : PointInput F) : Json F :=
  .object
    ([("id", p.id.toJson),
      ("vector",
        match p.vector with
        | .plain vector => serialized floats widen vector
        | .named vectors =>
          .object (vectors.entries.map fun entry => (entry.1, serialized floats widen entry.2)))] ++
      payloadField p.payload)

namespace PointsBatch

def payload (batch : PointsBatch F) (i : Nat) : Option (Map F) :=
  batch.payloads.bind fun payloads => payloads[i]?

/-- A component that is not finite is replaced by 0. -/
def pointsData (batch : PointsBatch F) : List (Json F) :=
  (batch.ids.zip batch.vectors).zipIdx.map fun point =>
    .object
      ([("id", point.1.1.toJson),
        ("vector",
          .array (point.1.2.map fun f =>
            .number ((fromF64 floats widen f).getD (.posInt 0))))] ++
        payloadField (batch.payload point.2))

def triples (batch : PointsBatch F) : List (PointId × List UInt32 × Option (Map F)) :=
  (batch.ids.zip batch.vectors).zipIdx.map fun point =>
    (point.1.1, point.1.2, batch.payload point.2)

end PointsBatch

def VectorInput.stored : VectorInput → List UInt32
  | .plain vector => vector
  | .named vectors => (vectors.lookup "default").getD []

namespace UpsertPointsRequest

def pointsData (request : UpsertPointsRequest F) : List (Json F) :=
  match request.batch with
  | some batch => batch.pointsData floats widen
  | none => request.points.map (PointInput.toValue floats widen)

def triples (request : UpsertPointsRequest F) :
    List (PointId × List UInt32 × Option (Map F)) :=
  match request.batch with
  | some batch => batch.triples
  | none => request.points.map fun p => (p.id, p.vector.stored, p.payload)

def vectors (request : UpsertPointsRequest F) : List (Nat × Vector (Map F)) :=
  request.triples.filterMap fun point =>
    point.1.asU64.map fun idNum => (idNum, { data := point.2.1, payload := point.2.2 })

end UpsertPointsRequest

end Points

/-- The items of an upsert, with the clock readings of their puts and the levels that the index
draws. -/
def upsertItems (draws : Draws) (vectors : List (Nat × Vector P)) : List (UpsertItem P) :=
  vectors.zipIdx.map fun v =>
    { id := v.1.1, vector := v.1.2, timestamp := draws.timestamp v.2, level := draws.level v.2 }

/-! ## The handlers -/

section Handlers

variable [LinearOrder D] (codec : Codec (Map F)) (crc32c : List UInt8 → UInt32)

def upsertPoints (isAlphanumeric : Char → Bool) (floats : Floats F) (widen : UInt32 → F)
    (collections : Collections F D) (name : String) (request : UpsertPointsRequest F)
    (draws : Draws) : Collections F D × Except String OperationInfo :=
  match collections name with
  | none => (collections, .error ("Collection not found: Collection not found: " ++ name))
  | some c =>
    match validateUpsertRequest floats isAlphanumeric name (request.pointsData floats widen)
        (some c.config.dimension) with
    | .error e => (collections, .error e.text)
    | .ok () =>
      match c.upsert codec crc32c (upsertItems draws request.vectors) with
      | (c, .ok info) => (Function.update collections name (some c), .ok info)
      | (c, .error e) => (Function.update collections name (some c), .error (errorText e))

structure GrpcPoint where
  id : UInt64
  vector : List UInt32

structure PointsOperation where
  operationId : Nat
  status : String
  deriving DecidableEq, Repr

def grpcVectors (points : List GrpcPoint) : List (Nat × Vector (Map F)) :=
  points.map fun p => (p.id.toNat, { data := p.vector, payload := none })

/-- `PointsService::upsert`: what becomes of the upsert is not looked at. -/
def grpcUpsert (collections : Collections F D) (name : String) (points : List GrpcPoint)
    (draws : Draws) : Collections F D × PointsOperation :=
  match collections name with
  | none =>
    (collections, { operationId := 0, status := "Collection '" ++ name ++ "' not found" })
  | some c =>
    (Function.update collections name
        (some (c.upsert codec crc32c (upsertItems draws (grpcVectors points))).1),
      { operationId := 1, status := "ok" })

end Handlers

structure RetrieveRequest where
  ids : List PointId
  withVector : Option Bool
  withPayload : Bool

/-- One round of the loop over the ids. -/
def retrievePoint (get : Nat → Except RTDBError (Option (RetrievedVector P)))
    (request : RetrieveRequest) (id : PointId) : List (PointStruct P) :=
  match id.asU64 with
  | some idNum =>
    match get idNum with
    | .ok (some vector) =>
      [{ id, vector := if request.withVector.getD false then vector.vector else []
         payload := vector.payload }]
    | .ok none | .error _ => []
  | none => []

def retrievePoints (codec : Codec (Map F)) (collections : Collections F D) (name : String)
    (request : RetrieveRequest) : Except String (List (PointStruct (Map F))) :=
  match collections name with
  | some c => .ok (request.ids.flatMap (retrievePoint (c.get codec) request))
  | none => .error ("Collection not found: " ++ name)

end Qdrant
end Api
end RTDB
