import RTDB.Api.Inserts

/-!
# Requests of the Qdrant API

What the handlers of `api/qdrant_compat.rs` share: ids and filters of requests, and the validation
of `api/error.rs` and `api/validation.rs`.
-/

namespace RTDB
namespace Api
namespace Qdrant

open Storage

variable {F : Type}

/-! ## Ids -/

/-- `+` of `u64`; `none` is an overflow. -/
def checkedAdd (a b : Nat) : Option Nat := if a + b < 2 ^ 64 then some (a + b) else none

def parseDigits (value : Nat) : List Char → Option Nat
  | [] => some value
  | c :: rest =>
    if c.isDigit then
      let next := value * 10 + (c.toNat - '0'.toNat)
      if next < 2 ^ 64 then parseDigits next rest else none
    else none

def parseU64 (s : String) : Option Nat :=
  match s.toList with
  | [] => none
  | ['+'] => none
  | '+' :: rest => parseDigits 0 rest
  | chars => parseDigits 0 chars

inductive PointId where
  | integer (id : Nat)
  | string (s : String)
  deriving DecidableEq, Repr

def PointId.asU64 : PointId → Option Nat
  | .integer id => some id
  | .string s => parseU64 s

/-! ## Filters -/

inductive MatchCondition (F : Type) where
  | value (value : Value F)
  | keyword (keyword : String)
  | text (text : String)
  | integer (integer : Int)

structure Condition (F : Type) where
  key : String
  condition : MatchCondition F

structure Filter (F : Type) where
  must : Option (List (Condition F))
  should : Option (List (Condition F))
  mustNot : Option (List (Condition F))

/-- `render` is `to_string` of a JSON value. -/
def MatchCondition.toCoreMatch (render : Value F → String) : MatchCondition F → Match F
  | .value v =>
    match v.asStr with
    | some s => .value (.keyword s)
    | none =>
      match v.asI64 with
      | some i => .value (.integer i)
      | none => .value (.keyword (render v))
  | .keyword s => .value (.keyword s)
  | .text s => .text s
  | .integer i => .integer i

def Condition.toCoreCondition (render : Value F → String) (c : Condition F) : RTDB.Condition F :=
  .field { key := c.key, matchCond := c.condition.toCoreMatch render }

def Filter.toCoreFilter (render : Value F → String) (filter : Filter F) : RTDB.Filter F :=
  .mk (filter.must.map (List.map (Condition.toCoreCondition render)))
    (filter.should.map (List.map (Condition.toCoreCondition render)))
    (filter.mustNot.map (List.map (Condition.toCoreCondition render)))

/-! ## Errors and validation -/

structure ValidationError where
  field : String
  message : String
  code : String
  deriving DecidableEq, Repr

inductive ApiError where
  | collectionNotFound (name : String)
  | invalidVectorDimension (expected actual : Nat)
  | validationFailed (errors : List ValidationError)
  deriving DecidableEq, Repr

def ApiError.text : ApiError → String
  | .collectionNotFound name => "Collection not found: " ++ name
  | .invalidVectorDimension expected actual =>
    "Invalid vector dimension: expected " ++ toString expected ++ ", got " ++ toString actual
  | .validationFailed _ => "Validation failed"

/-- `map_err(|e| ApiError::ValidationFailed { errors: vec![e] })`, and `?` on a `ValidationError`. -/
def validated : Except ValidationError Unit → Except ApiError Unit
  | .ok () => .ok ()
  | .error e => .error (.validationFailed [e])

section Validation

variable (isAlphanumeric : Char → Bool)

def validateCollectionName (name : String) : Except ValidationError Unit :=
  if name.isEmpty then
    .error
      { field := "name", message := "Collection name cannot be empty", code := "REQUIRED" }
  else if name.utf8ByteSize > 255 then
    .error
      { field := "name", message := "Collection name cannot exceed 255 characters"
        code := "MAX_LENGTH" }
  else if !name.toList.all fun c => isAlphanumeric c || c == '_' || c == '-' then
    .error
      { field := "name"
        message :=
          "Collection name can only contain alphanumeric characters, underscores, and hyphens"
        code := "INVALID_FORMAT" }
  else .ok ()

def validateLimit (limit : Nat) : Except ValidationError Unit :=
  if limit = 0 then
    .error
      { field := "limit", message := "Limit must be greater than 0", code := "MIN_VALUE" }
  else if limit > 10000 then
    .error { field := "limit", message := "Limit cannot exceed 10000", code := "MAX_VALUE" }
  else .ok ()

def invalid (field message code : String) : Except ApiError Unit :=
  .error (.validationFailed [{ field, message, code }])

def checkVector (vector : List UInt32) : Except ApiError Unit :=
  if vector = [] then invalid "vector" "Query vector cannot be empty" "REQUIRED" else .ok ()

def checkDimension (vector : List UInt32) : Option Nat → Except ApiError Unit
  | none => .ok ()
  | some expectedDim =>
    if vector.length ≠ expectedDim then .error (.invalidVectorDimension expectedDim vector.length)
    else .ok ()

def checkValues (vector : List UInt32) : Except ApiError Unit :=
  match vector.findIdx? fun value => !isFiniteF32 value with
  | some i =>
    invalid ("vector[" ++ toString i ++ "]") "Vector values must be finite (no NaN or Infinity)"
      "INVALID_VALUE"
  | none => .ok ()

def checkOffset : Option Nat → Except ApiError Unit
  | none => .ok ()
  | some off =>
    if off > 1000000 then invalid "offset" "Offset cannot exceed 1,000,000" "MAX_VALUE" else .ok ()

def validateSearchRequest (collectionName : String) (vector : List UInt32) (limit : Nat)
    (offset expectedDimension : Option Nat) : Except ApiError Unit := do
  validated (validateCollectionName isAlphanumeric collectionName)
  checkVector vector
  checkDimension vector expectedDimension
  checkValues vector
  validated (validateLimit limit)
  checkOffset offset

/-- The rules on names are those of the validation of upserts. -/
theorem validateCollectionName_ok (name : String) :
    validateCollectionName isAlphanumeric name = .ok () ↔
      Api.validateCollectionName isAlphanumeric name = true := by
  rw [validateCollectionName, Api.validateCollectionName]
  by_cases hempty : name.isEmpty
  · simp [hempty]
  · by_cases hlong : name.utf8ByteSize > 255
    · simp [hempty, hlong]
    · have hfits : name.utf8ByteSize ≤ 255 := by omega
      rw [if_neg hempty, if_neg hlong]
      cases hchars : name.toList.all fun c => isAlphanumeric c || c == '_' || c == '-' with
      | false => simp
      | true => simp [hempty, hfits]

theorem validateLimit_ok (limit : Nat) : validateLimit limit = .ok () ↔ 1 ≤ limit ∧ limit ≤ 10000 := by
  rw [validateLimit]
  split
  · simp_all
  · split
    · simp_all
    · simp
      omega

structure ValidSearch (collectionName : String) (vector : List UInt32) (limit : Nat)
    (offset : Option Nat) (dimension : Nat) : Prop where
  name : validateCollectionName isAlphanumeric collectionName = .ok ()
  some_vector : vector ≠ []
  dimension_eq : vector.length = dimension
  finite : ∀ value ∈ vector, isFiniteF32 value = true
  limit : validateLimit limit = .ok ()
  offset : ∀ off, offset = some off → off ≤ 1000000

theorem validated_cases (outcome : Except ValidationError Unit) :
    (outcome = .ok () ∧ validated outcome = .ok ()) ∨
      (outcome ≠ .ok () ∧ ∃ errors, validated outcome = .error (.validationFailed errors)) := by
  cases outcome with
  | ok => exact Or.inl ⟨rfl, rfl⟩
  | error e => exact Or.inr ⟨by simp, [e], rfl⟩

theorem checkValues_cases (vector : List UInt32) :
    ((∀ value ∈ vector, isFiniteF32 value = true) ∧ checkValues vector = .ok ()) ∨
      (¬(∀ value ∈ vector, isFiniteF32 value = true) ∧
        ∃ errors, checkValues vector = .error (.validationFailed errors)) := by
  rw [checkValues]
  cases hindex : vector.findIdx? fun value => !isFiniteF32 value with
  | none =>
    refine Or.inl ⟨fun value hvalue => ?_, rfl⟩
    simpa using List.findIdx?_eq_none_iff.mp hindex value hvalue
  | some i =>
    refine Or.inr ⟨fun hall => ?_, _, rfl⟩
    obtain ⟨hi, hbad, -⟩ := List.findIdx?_eq_some_iff_getElem.mp hindex
    simp [hall _ (List.getElem_mem hi)] at hbad

theorem checkOffset_cases (offset : Option Nat) :
    ((∀ off, offset = some off → off ≤ 1000000) ∧ checkOffset offset = .ok ()) ∨
      (¬(∀ off, offset = some off → off ≤ 1000000) ∧
        ∃ errors, checkOffset offset = .error (.validationFailed errors)) := by
  cases offset with
  | none => exact Or.inl ⟨by simp, rfl⟩
  | some off =>
    rw [checkOffset]
    split
    · next hbig => exact Or.inr ⟨fun hall => absurd (hall off rfl) (by omega), _, rfl⟩
    · next hsmall => exact Or.inl ⟨fun o ho => by obtain rfl := Option.some.inj ho; omega, rfl⟩

/-- A search request passes, is told the dimension, or fails the validation otherwise. -/
theorem validateSearchRequest_cases (collectionName : String) (vector : List UInt32) (limit : Nat)
    (offset : Option Nat) (dimension : Nat) :
    let outcome :=
      validateSearchRequest isAlphanumeric collectionName vector limit offset (some dimension)
    let valid := ValidSearch isAlphanumeric collectionName vector limit offset dimension
    let misfit := validateCollectionName isAlphanumeric collectionName = .ok () ∧ vector ≠ [] ∧
      vector.length ≠ dimension
    (outcome = .ok () ∧ valid) ∨
      (outcome = .error (.invalidVectorDimension dimension vector.length) ∧ misfit) ∨
      (∃ errors, outcome = .error (.validationFailed errors) ∧ ¬valid ∧ ¬misfit) := by
  intro outcome valid misfit
  rcases validated_cases (validateCollectionName isAlphanumeric collectionName) with
    ⟨hname, hok⟩ | ⟨hname, errors, herror⟩
  · by_cases hvector : vector = []
    · have hout : outcome = invalid "vector" "Query vector cannot be empty" "REQUIRED" := by
        show validateSearchRequest _ _ _ _ _ _ = _
        rw [validateSearchRequest, hok, checkVector, if_pos hvector]
        rfl
      exact Or.inr (Or.inr ⟨_, hout, fun h => h.some_vector hvector, fun h => h.2.1 hvector⟩)
    · by_cases hdim : vector.length = dimension
      · have hfits : ¬misfit := fun h => h.2.2 hdim
        have hout : outcome = (checkValues vector >>= fun _ =>
            validated (validateLimit limit) >>= fun _ => checkOffset offset) := by
          show validateSearchRequest _ _ _ _ _ _ = _
          rw [validateSearchRequest, hok, checkVector, if_neg hvector, checkDimension,
            if_neg (not_not.mpr hdim)]
          rfl
        rcases checkValues_cases vector with ⟨hvalues, hvok⟩ | ⟨hvalues, errors, hverror⟩
        · rw [hvok] at hout
          rcases validated_cases (validateLimit limit) with ⟨hlimit, hlok⟩ | ⟨hlimit, errors, hlerror⟩
          · rw [hlok] at hout
            rcases checkOffset_cases offset with ⟨hoffset, hook⟩ | ⟨hoffset, errors, hoerror⟩
            · exact Or.inl ⟨hout.trans hook, hname, hvector, hdim, hvalues, hlimit, hoffset⟩
            · exact Or.inr (Or.inr ⟨errors, hout.trans hoerror, fun h => hoffset h.offset, hfits⟩)
          · rw [hlerror] at hout
            exact Or.inr (Or.inr ⟨errors, hout, fun h => hlimit h.limit, hfits⟩)
        · rw [hverror] at hout
          exact Or.inr (Or.inr ⟨errors, hout, fun h => hvalues h.finite, hfits⟩)
      · refine Or.inr (Or.inl ⟨?_, hname, hvector, hdim⟩)
        show validateSearchRequest _ _ _ _ _ _ = _
        rw [validateSearchRequest, hok, checkVector, if_neg hvector, checkDimension, if_pos hdim]
        rfl
  · refine Or.inr (Or.inr ⟨errors, ?_, fun h => hname h.name, fun h => hname h.1⟩)
    show validateSearchRequest _ _ _ _ _ _ = _
    rw [validateSearchRequest, herror]
    rfl

end Validation

end Qdrant
end Api
end RTDB
