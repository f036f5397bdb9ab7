import Mathlib.Algebra.GroupWithZero.Nat
import RTDB.Storage.Types

/-!
# Types of the crate

`lib.rs`: configurations, requests, filters and results, as far as collections
and their index use them.  `f64` is a type with its comparisons; of a JSON
number, what `as_i64` and `as_f64` give.
-/

namespace RTDB

open Storage

/-- An error of a collection: its own, or one that storage returned. -/
inductive Error where
  | invalidDimension (expected actual : Nat)
  | storage (e : RTDBError)
  deriving DecidableEq, Repr

inductive Value (F : Type) where
  | null
  | bool (b : Bool)
  | number (asI64 : Option Int) (asF64 : Option F)
  | string (s : String)
  | array (values : List (Value F))
  | object (fields : List (String × Value F))

abbrev Payload (F : Type) := List (String × Value F)

/-! ## Distances -/

/-- A metric, on vectors of one dimension.  `D` is `OrderedFloat<f32>`, whose
arithmetic is not modelled. -/
structure Distance (D : Type) where
  score : List UInt32 → List UInt32 → D

def Distance.calculate {D : Type} (distance : Distance D) (a b : List UInt32) : Except Error D :=
  if a.length ≠ b.length then .error (.invalidDimension a.length b.length)
  else .ok (distance.score a b)

structure HnswConfig where
  m : Nat
  efConstruct : Nat
  ef : Nat
  deriving DecidableEq, Repr

def HnswConfig.default : HnswConfig := { m := 16, efConstruct := 100, ef := 10 }

structure CollectionConfig (D : Type) where
  dimension : Nat
  distance : Distance D
  hnswConfig : Option HnswConfig

def sampleValue (bits : UInt32) : Nat :=
  if bits = 0x3F800000 then 1 else if bits = 0x40000000 then 2 else 0

/-- The Euclidean distance of samples with one component. -/
def sampleDistance : Distance Nat where
  score a b :=
    let x := (a.map sampleValue).sum
    let y := (b.map sampleValue).sum
    (x - y) + (y - x)

/-! ## Filters -/

structure Range (F : Type) where
  gt : Option F
  gte : Option F
  lt : Option F
  lte : Option F

inductive MatchValue where
  | keyword (keyword : String)
  | integer (integer : Int)
  deriving DecidableEq, Repr

inductive Match (F : Type) where
  | value (value : MatchValue)
  | integer (integer : Int)
  | text (text : String)
  | range (range : Range F)

structure FieldCondition (F : Type) where
  key : String
  matchCond : Match F

mutual

inductive Filter (F : Type) where
  | mk (must should mustNot : Option (List (Condition F)))

inductive Condition (F : Type) where
  | field (condition : FieldCondition F)
  | filter (nested : Filter F)
  | hasId (ids : List VectorId)

end

/-! ## Searching -/

inductive WithPayload where
  | bool (b : Bool)
  | includes (fields : List String)
  | excludes (fields : List String)
  deriving DecidableEq, Repr

structure SearchParams where
  hnswEf : Option Nat
  deriving DecidableEq, Repr

structure SearchRequest (F : Type) where
  vector : List UInt32
  limit : Nat
  withPayload : Option WithPayload
  withVector : Bool
  filter : Option (Filter F)
  params : Option SearchParams

def SearchRequest.new {F : Type} (vector : List UInt32) (limit : Nat) : SearchRequest F :=
  { vector, limit, withPayload := none, withVector := false, filter := none, params := none }

structure ScoredVector (P D : Type) where
  id : VectorId
  score : D
  vector : Option (List UInt32)
  payload : Option P
  deriving DecidableEq

end RTDB
