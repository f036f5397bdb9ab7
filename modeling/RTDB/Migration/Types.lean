import Mathlib.Data.String.Basic
import RTDB.Collection.Filter
import RTDB.Lib.SortedMap

/-!
# Types of the migration tools

`migration/mod.rs`: records, batches, transformation rules and configurations, as far as the
batch processor uses them.  A vector's components are the bit patterns of its floats.  A `HashMap`
is kept in the order of its keys, one of the orders in which it may be gone through; only which of
several errors comes first depends on it.
-/

namespace RTDB

namespace Value

def asArray {F : Type} : Value F → Option (List (Value F))
  | .array values => some values
  | _ => none

def asObject {F : Type} : Value F → Option (Payload F)
  | .object fields => some fields
  | _ => none

end Value

namespace Migration

/-- The variants of `RTDBError` that migrations return; `panic` is none of the source's and ends a call
as an error does. -/
inductive Error where
  | io (msg : String)
  | network (msg : String)
  | serialization (msg : String)
  | config (msg : String)
  | validation (msg : String)
  | migration (msg : String)
  | panic (msg : String)
  deriving DecidableEq, Repr

abbrev Metadata (F : Type) := SortedMap String (Value F)

structure VectorRecord (F : Type) where
  id : String
  vector : List UInt32
  metadata : Metadata F

/-- The checkpoint a batch carries.  Its timestamp is never read. -/
structure Checkpoint where
  offset : Nat
  batchId : Nat
  deriving DecidableEq, Repr

structure VectorBatch (F : Type) where
  records : List (VectorRecord F)
  batchId : Nat
  checkpointData : Option Checkpoint

inductive ConversionType where
  | stringToNumber
  | numberToString
  | arrayToString
  | stringToArray
  deriving DecidableEq, Repr

inductive FilterCondition where
  | exists
  | notNull
  | minLength (n : Nat)
  | maxLength (n : Nat)
  | regex (pattern : String)
  deriving DecidableEq, Repr

inductive TransformationRule where
  | dimensionReduction (fromDimension toDimension : Nat) (method : String)
  | metadataFilter (query : String)
  | fieldRename (field newName : String)
  | fieldMap (field : String) (mapping : SortedMap String String)
  | fieldConvert (field : String) (conversion : ConversionType)
  | fieldFilter (field : String) (condition : FilterCondition)

structure ValidationConfig where
  validateVectors : Bool
  validateMetadata : Bool
  vectorDimension : Option Nat
  requiredFields : List String
  deriving DecidableEq, Repr

def ValidationConfig.default : ValidationConfig :=
  { validateVectors := true, validateMetadata := true, vectorDimension := none, requiredFields := [] }

inductive MigrationStrategy where
  | stream
  | dualWrite
  | blueGreen
  | snapshot
  deriving DecidableEq, Repr

structure MigrationConfig where
  batchSize : Nat
  maxConcurrency : Nat
  dryRun : Bool
  resume : Bool
  strategy : MigrationStrategy
  transformations : List TransformationRule
  validation : ValidationConfig
  /-- The batch size is a `usize`. -/
  batchSize_lt : batchSize < 2 ^ 64

def MigrationConfig.default : MigrationConfig where
  batchSize := 1000
  maxConcurrency := 4
  dryRun := false
  resume := false
  strategy := .stream
  transformations := []
  validation := .default
  batchSize_lt := by decide

/-- What the standard library and `serde_json` do with floats, with text and with the length of
JSON. -/
structure Formats (F : Type) where
  parseF64 : String → Option F
  f64ToString : F → String
  isFinite : F → Bool
  asF32 : F → UInt32
  fromStr : String → Except String (Value F)
  metadataFromStr : String → Option (Metadata F)
  metadataLen : Metadata F → Option Nat

def sampleFormats : Formats Unit where
  parseF64 _ := none
  f64ToString _ := "0"
  isFinite _ := true
  asF32 _ := 0
  fromStr text := if text = "\x7b\x7d" then .ok (.object []) else .error "expected value"
  metadataFromStr _ := none
  metadataLen _ := some 2

end Migration
end RTDB
