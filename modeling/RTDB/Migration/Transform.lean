import Mathlib.Data.List.DropRight
import RTDB.Migration.Types

/-!
# Processing a batch

`process_batch` of `migration/mod.rs`, with the transformation rules it applies, and
`validate_record` of `migration/validation.rs`.
-/

namespace RTDB
namespace Migration

variable {F : Type}

/-! ## Text -/

/-- Unicode `White_Space`, which `str::trim` removes. -/
def isWhiteSpace (c : Char) : Bool :=
  let n := c.toNat
  (9 ≤ n && n ≤ 13) || n == 0x20 || n == 0x85 || n == 0xA0 || n == 0x1680 ||
    (0x2000 ≤ n && n ≤ 0x200A) || n == 0x2028 || n == 0x2029 || n == 0x202F || n == 0x205F ||
    n == 0x3000

def trim (text : List Char) : List Char := (text.dropWhile isWhiteSpace).rdropWhile isWhiteSpace

/-! ## Transformation rules -/

/-- `Value::from(f64)`. -/
def valueFromF64 (formats : Formats F) (f : F) : Value F :=
  if formats.isFinite f then .number none (some f) else .null

def convert (formats : Formats F) (conversion : ConversionType) (value : Value F) : Value F :=
  match conversion with
  | .stringToNumber =>
    match value.asStr.bind formats.parseF64 with
    | some f => valueFromF64 formats f
    | none => value
  | .numberToString =>
    match value.asF64 with
    | some f => .string (formats.f64ToString f)
    | none => value
  | .arrayToString =>
    match value.asArray with
    | some values => .string (",".intercalate (values.filterMap Value.asStr))
    | none => value
  | .stringToArray =>
    match value.asStr with
    | some s =>
      .array ((s.toList.splitOn ',').map fun part => .string (String.ofList (trim part)))
    | none => value

def ruleApplied (formats : Formats F) (record : VectorRecord F) :
    TransformationRule → VectorRecord F
  | .dimensionReduction fromDimension toDimension _ =>
    if record.vector.length = fromDimension ∧ toDimension < fromDimension then
      { record with vector := record.vector.take toDimension }
    else record
  | .metadataFilter _ => record
  | .fieldRename field newName =>
    match record.metadata.get? field with
    | some value => { record with metadata := (record.metadata.erase field).insert newName value }
    | none => record
  | .fieldMap field mapping =>
    match ((record.metadata.get? field).bind Value.asStr).bind mapping.get? with
    | some mapped => { record with metadata := record.metadata.insert field (.string mapped) }
    | none => record
  | .fieldConvert field conversion =>
    match record.metadata.get? field with
    | some value =>
      { record with metadata := record.metadata.insert field (convert formats conversion value) }
    | none => record
  | .fieldFilter _ _ => record

/-- No rule fails. -/
def applyTransformationRule (formats : Formats F) (record : VectorRecord F)
    (rule : TransformationRule) : Except Error (VectorRecord F) :=
  .ok (ruleApplied formats record rule)

def applyTransformations (formats : Formats F) (rules : List TransformationRule)
    (records : List (VectorRecord F)) : Except Error (List (VectorRecord F)) :=
  records.mapM fun record => rules.foldlM (applyTransformationRule formats) record

def transform (formats : Formats F) (rules : List TransformationRule) (record : VectorRecord F) :
    VectorRecord F :=
  rules.foldl (ruleApplied formats) record

theorem foldlM_applyTransformationRule (formats : Formats F) (rules : List TransformationRule)
    (record : VectorRecord F) :
    rules.foldlM (applyTransformationRule formats) record = .ok (transform formats rules record) := by
  induction rules generalizing record with
  | nil => rfl
  | cons rule rules ih =>
    rw [List.foldlM_cons]
    exact ih (ruleApplied formats record rule)

theorem applyTransformations_eq (formats : Formats F) (rules : List TransformationRule)
    (records : List (VectorRecord F)) :
    applyTransformations formats rules records = .ok (records.map (transform formats rules)) := by
  induction records with
  | nil => rfl
  | cons record records ih =>
    unfold applyTransformations at ih ⊢
    rw [List.mapM_cons, foldlM_applyTransformationRule, ih]
    rfl

/-! ## Validation -/

/-- An `f32` is finite unless its exponent is all ones. -/
def isFiniteF32 (bits : UInt32) : Bool := (bits >>> 23) &&& 0xFF != 0xFF

def showNonFinite (bits : UInt32) : String :=
  if bits &&& 0x7FFFFF != 0 then "NaN" else if bits &&& 0x80000000 == 0 then "inf" else "-inf"

def validateComponents : Nat → List UInt32 → Except Error Unit
  | _, [] => .ok ()
  | i, bits :: rest =>
    if isFiniteF32 bits then validateComponents (i + 1) rest
    else .error (.validation s!"Invalid vector value at index {i}: {showNonFinite bits}")

def validateVector (vector : List UInt32) (expectedDimension : Option Nat) : Except Error Unit := do
  if vector.isEmpty then
    throw (.validation "Vector cannot be empty")
  if let some expectedDim := expectedDimension then
    if vector.length ≠ expectedDim then
      throw (.validation
        s!"Vector dimension mismatch: expected {expectedDim}, got {vector.length}")
  validateComponents 0 vector

/-- `^[a-zA-Z_][a-zA-Z0-9_]*$`. -/
def isFieldName (name : String) : Bool :=
  match name.toList with
  | [] => false
  | c :: rest => (c.isAlpha || c == '_') && rest.all fun c => c.isAlphanum || c == '_'

def validateMetadataValue (fieldName : String) : Value F → Except Error Unit
  | .string s =>
    if 10000 < s.utf8ByteSize then
      .error (.validation
        s!"String field '{fieldName}' too long: {s.utf8ByteSize} characters (limit: 10000)")
    else .ok ()
  | .array values =>
    if 1000 < values.length then
      .error (.validation
        s!"Array field '{fieldName}' too long: {values.length} elements (limit: 1000)")
    else .ok ()
  | .object fields =>
    if 100 < fields.length then
      .error (.validation
        s!"Object field '{fieldName}' has too many keys: {fields.length} (limit: 100)")
    else .ok ()
  | _ => .ok ()

def estimateMetadataSize (formats : Formats F) (metadata : Metadata F) : Nat :=
  (formats.metadataLen metadata).getD 0

def validateMetadata (formats : Formats F) (metadata : Metadata F) (requiredFields : List String) :
    Except Error Unit := do
  if let some field := requiredFields.find? fun field => (metadata.get? field).isNone then
    throw (.validation s!"Required field '{field}' is missing from metadata")
  if let some entry := metadata.entries.find? fun entry => !isFieldName entry.1 then
    throw (.validation (s!"Invalid field name '{entry.1}': must start with letter or underscore, " ++
      "contain only alphanumeric characters and underscores"))
  if 1024 * 1024 < estimateMetadataSize formats metadata then
    throw (.validation
      s!"Metadata too large: {estimateMetadataSize formats metadata} bytes (limit: 1MB)")
  forM metadata.entries fun entry => validateMetadataValue entry.1 entry.2

def invalidChars : List Char := "/\\?%*:|\"<>\x00".toList

def validateId (id : String) : Except Error Unit := do
  if id.isEmpty then
    throw (.validation "Record ID cannot be empty")
  if 255 < id.utf8ByteSize then
    throw (.validation s!"Record ID too long: {id.utf8ByteSize} characters (limit: 255)")
  if let some c := invalidChars.find? fun c => id.toList.contains c then
    throw (.validation s!"Record ID contains invalid character: '{c}'")

def validateRecord (formats : Formats F) (config : ValidationConfig) (record : VectorRecord F) :
    Except Error Unit := do
  if config.validateVectors then
    validateVector record.vector config.vectorDimension
  if config.validateMetadata then
    validateMetadata formats record.metadata config.requiredFields
  validateId record.id

theorem forM_eq_ok_iff {α : Type} {f : α → Except Error Unit} {l : List α} :
    forM l f = .ok () ↔ ∀ a ∈ l, f a = .ok () := by
  induction l with
  | nil => simp [pure, Except.pure]
  | cons a l ih =>
    rw [List.forM_cons, List.forall_mem_cons, ← ih]
    cases f a with
    | error e => simp [bind, Except.bind]
    | ok u => simp [bind, Except.bind]

/-! ## Batches -/

/-- What `process_batch` returns, and the records it passed to `insert_batch` if it got there. -/
structure Processed (F : Type) where
  result : Except Error Unit
  inserted : Option (List (VectorRecord F))

/-- `insert` is what `insert_batch` answers if it is called. -/
def processBatch (formats : Formats F) (config : MigrationConfig) (batch : VectorBatch F)
    (insert : Except Error Unit) : Processed F :=
  if config.dryRun then
    { result := forM batch.records (validateRecord formats config.validation), inserted := none }
  else
    match applyTransformations formats config.transformations batch.records with
    | .error e => { result := .error e, inserted := none }
    | .ok transformed =>
      match forM transformed (validateRecord formats config.validation) with
      | .error e => { result := .error e, inserted := none }
      | .ok () => { result := insert, inserted := some transformed }

section processBatch

variable {formats : Formats F} {config : MigrationConfig} {batch : VectorBatch F}
  {insert : Except Error Unit}

def AllValid (formats : Formats F) (config : MigrationConfig) (records : List (VectorRecord F)) :
    Prop :=
  ∀ record ∈ records,
    validateRecord formats config.validation (transform formats config.transformations record) =
      .ok ()

theorem processBatch_dryRun (hdry : config.dryRun = true) :
    (processBatch formats config batch insert).inserted = none := by
  rw [processBatch, if_pos hdry]

theorem processBatch_of_allValid (hdry : config.dryRun = false)
    (hvalid : AllValid formats config batch.records) :
    processBatch formats config batch insert =
      { result := insert
        inserted := some (batch.records.map (transform formats config.transformations)) } := by
  have hall : forM (batch.records.map (transform formats config.transformations))
      (validateRecord formats config.validation) = .ok () := by
    rw [forM_eq_ok_iff, List.forall_mem_map]
    exact hvalid
  simp only [processBatch, hdry, Bool.false_eq_true, if_false, applyTransformations_eq, hall]

theorem processBatch_of_not_allValid (hdry : config.dryRun = false)
    (hinvalid : ¬ AllValid formats config batch.records) :
    ∃ e, processBatch formats config batch insert = { result := .error e, inserted := none } := by
  have hall : forM (batch.records.map (transform formats config.transformations))
      (validateRecord formats config.validation) ≠ .ok () := by
    rw [Ne, forM_eq_ok_iff, List.forall_mem_map]
    exact hinvalid
  simp only [processBatch, hdry, Bool.false_eq_true, if_false, applyTransformations_eq]
  cases hcheck : forM (batch.records.map (transform formats config.transformations))
      (validateRecord formats config.validation) with
  | error e => exact ⟨e, rfl⟩
  | ok u => exact absurd hcheck hall

/-- A batch that is processed is inserted whole. -/
theorem inserted_of_result_ok (hdry : config.dryRun = false)
    (hok : (processBatch formats config batch insert).result = .ok ()) :
    (processBatch formats config batch insert).inserted =
      some (batch.records.map (transform formats config.transformations)) := by
  by_cases hvalid : AllValid formats config batch.records
  · rw [processBatch_of_allValid hdry hvalid]
  · obtain ⟨e, he⟩ := processBatch_of_not_allValid hdry hvalid
    rw [he] at hok
    exact absurd hok (by simp)

end processBatch

end Migration
end RTDB
