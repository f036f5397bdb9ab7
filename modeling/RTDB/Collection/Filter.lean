import Mathlib.Data.List.Infix
import RTDB.Types

/-!
# Filters

`filter.rs`.  `lower` is `str::to_lowercase`; a payload and the objects inside it
are looked up by their keys.
-/

namespace RTDB

open Storage

variable {F : Type}

namespace Value

def get : Value F → String → Option (Value F)
  | .object fields, key => fields.lookup key
  | _, _ => none

def asI64 : Value F → Option Int
  | .number asI64 _ => asI64
  | _ => none

def asF64 : Value F → Option F
  | .number _ asF64 => asF64
  | _ => none

def asStr : Value F → Option String
  | .string s => some s
  | _ => none

end Value

namespace FilterEvaluator

def containsText (text pattern : String) : Bool := decide (pattern.toList <:+: text.toList)

/-- The text, read backwards, without the brackets it ends in. -/
def trimBrackets : List Char → List Char
  | ']' :: '[' :: rest => trimBrackets rest
  | text => text

/-- `trim_end_matches("[]")`. -/
def trimEndMatches (part : String) : String :=
  String.ofList (trimBrackets part.toList.reverse).reverse

/-- The loop over the parts of a key: `lookup` is what the parts before lead to.
A projection ends the walk at its array. -/
def walkParts (projection : Bool) (lookup : String → Option (Value F)) :
    List String → Option (Value F)
  | [] => none
  | part :: rest =>
    if projection && decide ("[]".toList <:+ part.toList) then lookup (trimEndMatches part)
    else
      match rest with
      | [] => lookup part
      | next :: rest =>
        walkParts projection (fun key => (lookup part).bind fun value => value.get key)
          (next :: rest)

def getNestedValue (payload : Payload F) (key : String) : Option (Value F) :=
  walkParts (containsText key "[]") (fun part => payload.lookup part)
    ((key.toList.splitOn '.').map String.ofList)

def evaluateValueMatch (matchVal : MatchValue) (value : Value F) : Bool :=
  match matchVal, value with
  | .keyword keyword, .string s => s == keyword
  | .keyword keyword, .array values => values.any fun v => v.asStr == some keyword
  | .integer i, .number asI64 _ => asI64 == some i
  | .integer i, .array values => values.any fun v => v.asI64 == some i
  | _, _ => false

variable [LT F] [LE F] [DecidableLT F] [DecidableLE F]

def evaluateRange (range : Range F) (value : Value F) : Bool :=
  match value.asF64 with
  | none => false
  | some n =>
    range.gt.all (fun gt => n > gt) && range.gte.all (fun gte => n ≥ gte) &&
      range.lt.all (fun lt => n < lt) && range.lte.all (fun lte => n ≤ lte)

variable (lower : String → String)

def evaluateMatch (matchCond : Match F) (value : Value F) : Bool :=
  match matchCond with
  | .value matchVal => evaluateValueMatch matchVal value
  | .integer i => value.asI64 == some i
  | .text text =>
    match value.asStr with
    | none => false
    | some s => containsText (lower s) (lower text)
  | .range range => evaluateRange range value

def evaluateFieldCondition (condition : FieldCondition F) (vector : Vector (Payload F)) : Bool :=
  match vector.payload with
  | none => false
  | some payload =>
    match getNestedValue payload condition.key with
    | none => false
    | some value => evaluateMatch lower condition.matchCond value

end FilterEvaluator

open FilterEvaluator

variable [LT F] [LE F] [DecidableLT F] [DecidableLE F] (lower : String → String)

mutual

def FilterEvaluator.matches (id : VectorId) (vector : Vector (Payload F)) : Filter F → Bool
  | .mk must should mustNot =>
    (match must with
      | none => true
      | some conditions => evaluateAll id vector conditions) &&
    (match should with
      | none => true
      | some [] => true
      | some (condition :: conditions) => evaluateAny id vector (condition :: conditions)) &&
    (match mustNot with
      | none => true
      | some conditions => !evaluateAny id vector conditions)

def FilterEvaluator.evaluateCondition (id : VectorId) (vector : Vector (Payload F)) :
    Condition F → Bool
  | .field condition => evaluateFieldCondition lower condition vector
  | .filter nested => FilterEvaluator.matches id vector nested
  | .hasId ids => ids.contains id

/-- The loop over `must`. -/
def FilterEvaluator.evaluateAll (id : VectorId) (vector : Vector (Payload F)) :
    List (Condition F) → Bool
  | [] => true
  | condition :: conditions =>
    evaluateCondition id vector condition && evaluateAll id vector conditions

/-- The loops over `should` and `must_not`. -/
def FilterEvaluator.evaluateAny (id : VectorId) (vector : Vector (Payload F)) :
    List (Condition F) → Bool
  | [] => false
  | condition :: conditions =>
    evaluateCondition id vector condition || evaluateAny id vector conditions

end

end RTDB
