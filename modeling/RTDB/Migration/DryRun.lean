import RTDB.Migration.Transform

/-!
# Dry runs

`process_batch` as a dry run and as a real run of the same batch.  A dry run
validates the records as they were read, a real run what the rules make of
them: a shorter vector, and other metadata.
-/

namespace RTDB
namespace Migration

variable {F : Type}

/-! ## What the rules do to a record -/

/-- The length that a rule leaves of a vector of length `n`. -/
def reducedTo (n : Nat) : TransformationRule → Nat
  | .dimensionReduction fromDimension toDimension _ =>
    if n = fromDimension ∧ toDimension < fromDimension then toDimension else n
  | _ => n

def metadataApplied (formats : Formats F) (metadata : Metadata F) : TransformationRule → Metadata F
  | .fieldRename field newName =>
    match metadata.get? field with
    | some value => (metadata.erase field).insert newName value
    | none => metadata
  | .fieldMap field mapping =>
    match ((metadata.get? field).bind Value.asStr).bind mapping.get? with
    | some mapped => metadata.insert field (.string mapped)
    | none => metadata
  | .fieldConvert field conversion =>
    match metadata.get? field with
    | some value => metadata.insert field (convert formats conversion value)
    | none => metadata
  | _ => metadata

theorem reducedTo_le (n : Nat) (rule : TransformationRule) : reducedTo n rule ≤ n := by
  cases rule with
  | dimensionReduction fromDimension toDimension method =>
    show (if _ then _ else _) ≤ n
    split <;> omega
  | _ => exact Nat.le_refl n

theorem foldl_reducedTo_le (rules : List TransformationRule) (n : Nat) :
    rules.foldl reducedTo n ≤ n := by
  induction rules generalizing n with
  | nil => exact Nat.le_refl n
  | cons rule rules ih => exact (ih (reducedTo n rule)).trans (reducedTo_le n rule)

theorem ruleApplied_eq (formats : Formats F) (record : VectorRecord F)
    (rule : TransformationRule) :
    ruleApplied formats record rule =
      { record with
        vector := record.vector.take (reducedTo record.vector.length rule)
        metadata := metadataApplied formats record.metadata rule } := by
  cases rule with
  | dimensionReduction fromDimension toDimension method =>
    simp only [ruleApplied, reducedTo, metadataApplied]
    split
    · rfl
    · rw [List.take_length]
  | fieldRename field newName =>
    simp only [ruleApplied, reducedTo, metadataApplied, List.take_length]
    cases record.metadata.get? field <;> rfl
  | fieldMap field mapping =>
    simp only [ruleApplied, reducedTo, metadataApplied, List.take_length]
    cases ((record.metadata.get? field).bind Value.asStr).bind mapping.get? <;> rfl
  | fieldConvert field conversion =>
    simp only [ruleApplied, reducedTo, metadataApplied, List.take_length]
    cases record.metadata.get? field <;> rfl
  | metadataFilter query => simp only [ruleApplied, reducedTo, metadataApplied, List.take_length]
  | fieldFilter field condition =>
    simp only [ruleApplied, reducedTo, metadataApplied, List.take_length]

/-- The rules cut a vector by its length alone, rewrite the metadata by themselves, and leave the
id. -/
theorem transform_eq (formats : Formats F) (rules : List TransformationRule)
    (record : VectorRecord F) :
    transform formats rules record =
      { record with
        vector := record.vector.take (rules.foldl reducedTo record.vector.length)
        metadata := rules.foldl (metadataApplied formats) record.metadata } := by
  rw [transform]
  induction rules generalizing record with
  | nil => rw [List.foldl_nil, List.foldl_nil, List.foldl_nil, List.take_length]
  | cons rule rules ih =>
    have hle := foldl_reducedTo_le rules (reducedTo record.vector.length rule)
    have hlength : (record.vector.take (reducedTo record.vector.length rule)).length =
        reducedTo record.vector.length rule := by
      rw [List.length_take]
      exact Nat.min_eq_left (reducedTo_le _ _)
    rw [List.foldl_cons, ih, ruleApplied_eq, List.foldl_cons, List.foldl_cons]
    simp only [hlength, List.take_take, Nat.min_eq_left hle]

/-! ## What the checks ask -/

/-- What `validate_vector` asks of the first `n` components of a vector. -/
def VectorPasses (config : ValidationConfig) (vector : List UInt32) (n : Nat) : Prop :=
  config.validateVectors = true →
    0 < n ∧ (∀ dimension, config.vectorDimension = some dimension → n = dimension) ∧
      ∀ bits ∈ vector.take n, isFiniteF32 bits = true

def MetadataPasses (formats : Formats F) (config : ValidationConfig) (metadata : Metadata F) :
    Prop :=
  config.validateMetadata = true →
    validateMetadata formats metadata config.requiredFields = .ok ()

theorem validateComponents_eq_ok_iff {i : Nat} {vector : List UInt32} :
    validateComponents i vector = .ok () ↔ ∀ bits ∈ vector, isFiniteF32 bits = true := by
  induction vector generalizing i with
  | nil => simp [validateComponents]
  | cons bits rest ih =>
    rw [validateComponents, List.forall_mem_cons]
    split
    · rename_i hfinite
      rw [ih]
      simp [hfinite]
    · rename_i hnot
      simp [hnot]

theorem validateVector_eq_ok_iff {vector : List UInt32} {expectedDimension : Option Nat} :
    validateVector vector expectedDimension = .ok () ↔
      0 < vector.length ∧ (∀ dimension, expectedDimension = some dimension →
        vector.length = dimension) ∧ ∀ bits ∈ vector, isFiniteF32 bits = true := by
  rw [← validateComponents_eq_ok_iff (i := 0)]
  cases vector with
  | nil => simp [validateVector, throw, throwThe, MonadExceptOf.throw, bind, Except.bind]
  | cons bits rest =>
    cases expectedDimension with
    | none => simp [validateVector]
    | some dimension =>
      by_cases hdimension : rest.length + 1 = dimension
      · subst hdimension
        simp [validateVector]
      · simp [validateVector, hdimension, throw, throwThe, MonadExceptOf.throw, bind, Except.bind]

/-- A check that a flag turns on, and what follows. -/
theorem flagged_eq_ok_iff {flag : Bool} {check rest : Except Error Unit} :
    (if flag = true then check >>= fun _ => rest else rest) = .ok () ↔
      (flag = true → check = .ok ()) ∧ rest = .ok () := by
  cases flag with
  | false => simp
  | true =>
    cases check with
    | error e => simp [bind, Except.bind]
    | ok u => simp [bind, Except.bind]

theorem validateRecord_eq_ok_iff {formats : Formats F} {config : ValidationConfig}
    {record : VectorRecord F} :
    validateRecord formats config record = .ok () ↔
      VectorPasses config record.vector record.vector.length ∧
        MetadataPasses formats config record.metadata ∧ validateId record.id = .ok () := by
  have hvector : VectorPasses config record.vector record.vector.length ↔
      (config.validateVectors = true →
        validateVector record.vector config.vectorDimension = .ok ()) := by
    rw [VectorPasses, List.take_length, validateVector_eq_ok_iff]
  rw [hvector, MetadataPasses]
  exact flagged_eq_ok_iff.trans (and_congr_right fun _ => flagged_eq_ok_iff)

/-! ## Both runs of a batch -/

/-- What `process_batch` returns for a target that accepts every batch. -/
def processed (formats : Formats F) (config : MigrationConfig) (dryRun : Bool)
    (batch : VectorBatch F) : Except Error Unit :=
  (processBatch formats { config with dryRun } batch (.ok ())).result

theorem processed_dryRun (formats : Formats F) (config : MigrationConfig) (batch : VectorBatch F) :
    processed formats config true batch = .ok () ↔
      ∀ record ∈ batch.records, validateRecord formats config.validation record = .ok () := by
  rw [processed, processBatch, if_pos rfl]
  exact forM_eq_ok_iff

theorem processed_real (formats : Formats F) (config : MigrationConfig) (batch : VectorBatch F) :
    processed formats config false batch = .ok () ↔
      AllValid formats config batch.records := by
  have hdry : ({ config with dryRun := false } : MigrationConfig).dryRun = false := rfl
  constructor
  · intro hok
    by_contra hnot
    have hprocess : ∃ e, processBatch formats { config with dryRun := false } batch (.ok ()) =
        { result := .error e, inserted := none } := processBatch_of_not_allValid hdry hnot
    obtain ⟨e, he⟩ := hprocess
    rw [processed, he] at hok
    exact absurd hok (by simp)
  · intro hvalid
    rw [processed, processBatch_of_allValid hdry hvalid]

/-- The vector and the metadata of every record pass as they were read. -/
def PassesAsRead (formats : Formats F) (config : MigrationConfig)
    (records : List (VectorRecord F)) : Prop :=
  ∀ record ∈ records, VectorPasses config.validation record.vector record.vector.length ∧
    MetadataPasses formats config.validation record.metadata

/-- They pass after the rules: the first components of the vector, and the rewritten metadata. -/
def PassesAfterRules (formats : Formats F) (config : MigrationConfig)
    (records : List (VectorRecord F)) : Prop :=
  ∀ record ∈ records,
    VectorPasses config.validation record.vector
        (config.transformations.foldl reducedTo record.vector.length) ∧
      MetadataPasses formats config.validation
        (config.transformations.foldl (metadataApplied formats) record.metadata)

def IdsPass (records : List (VectorRecord F)) : Prop :=
  ∀ record ∈ records, validateId record.id = .ok ()

theorem processed_dryRun_iff (formats : Formats F) (config : MigrationConfig)
    (batch : VectorBatch F) :
    processed formats config true batch = .ok () ↔
      PassesAsRead formats config batch.records ∧ IdsPass batch.records := by
  rw [processed_dryRun, PassesAsRead, IdsPass, ← forall₂_and]
  refine forall₂_congr fun record _ => ?_
  rw [validateRecord_eq_ok_iff, and_assoc]

theorem processed_real_iff (formats : Formats F) (config : MigrationConfig)
    (batch : VectorBatch F) :
    processed formats config false batch = .ok () ↔
      PassesAfterRules formats config batch.records ∧ IdsPass batch.records := by
  rw [processed_real, AllValid, PassesAfterRules, IdsPass, ← forall₂_and]
  refine forall₂_congr fun record _ => ?_
  have hle := foldl_reducedTo_le config.transformations record.vector.length
  rw [validateRecord_eq_ok_iff, and_assoc, transform_eq]
  simp only [VectorPasses, List.length_take, List.take_take, Nat.min_eq_left hle, Nat.min_self]

/-- A dry run of a batch predicts its real run exactly when an id is refused, or the vectors and
metadata pass as they were read just if they pass after the rules. -/
theorem dryRun_predicts_iff (formats : Formats F) (config : MigrationConfig)
    (batch : VectorBatch F) :
    (processed formats config true batch = .ok () ↔ processed formats config false batch = .ok ()) ↔
      ¬ IdsPass batch.records ∨
        (PassesAsRead formats config batch.records ↔
          PassesAfterRules formats config batch.records) := by
  rw [processed_dryRun_iff, processed_real_iff]
  by_cases hids : IdsPass batch.records
  · simp only [hids, and_true, not_true, false_or]
  · simp only [hids, and_false, not_false_iff, true_or]

/-- Vectors of two components that a rule cuts to one, which is the dimension to check. -/
def reducingConfig : MigrationConfig :=
  { MigrationConfig.default with
    transformations := [.dimensionReduction 2 1 "truncate"]
    validation := { ValidationConfig.default with vectorDimension := some 1 } }

def reducedBatch : VectorBatch Unit :=
  { records := [{ id := "a", vector := [0x3F800000, 0x40000000], metadata := .empty }]
    batchId := 0
    checkpointData := none }

/-- The dry run refuses the batch, and the real run goes through. -/
theorem not_dryRun_predicts :
    ¬(processed sampleFormats reducingConfig true reducedBatch = .ok () ↔
      processed sampleFormats reducingConfig false reducedBatch = .ok ()) := by
  decide

end Migration
end RTDB
