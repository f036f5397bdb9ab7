import RTDB.Lib.Linear
import RTDB.Lib.Names
import RTDB.Lib.Repeats
import RTDB.Migration.Transform
import Mathlib.Data.Finset.Card

/-!
# Validation in batches

The batch validator takes a record for a duplicate if it remembers its id, and it remembers the ids
that it has seen, of valid and of invalid records, up to a capacity.
-/

namespace RTDB
namespace Migration

open Repeats
open Linear (getElem?_concat_cases)

variable {F : Type}

def Error.toString : Error → String
  | .io msg => s!"IO error: {msg}"
  | .network msg => s!"Network error: {msg}"
  | .serialization msg => s!"Serialization error: {msg}"
  | .config msg => s!"Configuration error: {msg}"
  | .validation msg => s!"Validation error: {msg}"
  | .migration msg => s!"Migration error: {msg}"
  | .panic msg => msg

structure DuplicateChecker where
  seenIds : Finset String := ∅
  maxIds : Nat := 1000000
  deriving DecidableEq

namespace DuplicateChecker

variable (checker : DuplicateChecker) (id : String)

def isDuplicate : Bool := id ∈ checker.seenIds

def addId : DuplicateChecker :=
  if checker.seenIds.card < checker.maxIds then
    { checker with seenIds := insert id checker.seenIds }
  else checker

def clear : DuplicateChecker := { checker with seenIds := ∅ }

end DuplicateChecker

structure ValidationStats where
  totalProcessed : UInt64 := 0
  validCount : UInt64 := 0
  invalidCount : UInt64 := 0
  duplicateCount : UInt64 := 0
  deriving DecidableEq, Repr

structure InvalidRecord (F : Type) where
  record : VectorRecord F
  error : String

structure ValidationResult (F : Type) where
  validRecords : List (VectorRecord F) := []
  invalidRecords : List (InvalidRecord F) := []
  duplicateRecords : List (VectorRecord F) := []
  stats : ValidationStats

/-- `check_duplicates` is read by `new` alone. -/
structure BatchValidator where
  config : ValidationConfig
  duplicateChecker : Option DuplicateChecker
  stats : ValidationStats

namespace BatchValidator

def new (config : ValidationConfig) (checkDuplicates : Bool) : BatchValidator where
  config := config
  duplicateChecker := if checkDuplicates then some {} else none
  stats := {}

/-- One turn of the loop.  The stats of the result are set at the end. -/
def validateOne (formats : Formats F) (loop : BatchValidator × ValidationResult F)
    (record : VectorRecord F) : BatchValidator × ValidationResult F :=
  let (v, result) := loop
  if v.duplicateChecker.any (·.isDuplicate record.id) then
    ({ v with stats := { v.stats with duplicateCount := v.stats.duplicateCount + 1 } },
      { result with duplicateRecords := result.duplicateRecords ++ [record] })
  else
    let v := { v with duplicateChecker := v.duplicateChecker.map (DuplicateChecker.addId · record.id) }
    match validateRecord formats v.config record with
    | .ok () =>
      ({ v with stats := { v.stats with validCount := v.stats.validCount + 1 } },
        { result with validRecords := result.validRecords ++ [record] })
    | .error e =>
      ({ v with stats := { v.stats with invalidCount := v.stats.invalidCount + 1 } },
        { result with
          invalidRecords := result.invalidRecords ++ [{ record := record, error := e.toString }] })

def validateBatch (formats : Formats F) (v : BatchValidator) (records : List (VectorRecord F)) :
    BatchValidator × ValidationResult F :=
  let (v, result) := records.foldl (validateOne formats) (v, { stats := v.stats })
  let stats :=
    { v.stats with totalProcessed := v.stats.totalProcessed + UInt64.ofNat records.length }
  ({ v with stats := stats }, { result with stats := stats })

def resetStats (v : BatchValidator) : BatchValidator :=
  { v with stats := {}, duplicateChecker := v.duplicateChecker.map DuplicateChecker.clear }

def validateBatches (formats : Formats F) (v : BatchValidator) :
    List (List (VectorRecord F)) → List (ValidationResult F)
  | [] => []
  | records :: batches =>
    let (v', result) := v.validateBatch formats records
    result :: v'.validateBatches formats batches

end BatchValidator

/-! ## What is promised -/

/-- The records of a call that are not taken for duplicates. -/
def ValidationResult.checked (result : ValidationResult F) : List (VectorRecord F) :=
  result.validRecords ++ result.invalidRecords.map InvalidRecord.record

def tally (results : List (ValidationResult F)) : ValidationStats where
  totalProcessed := UInt64.ofNat
    (results.flatMap fun result => result.checked ++ result.duplicateRecords).length
  validCount := UInt64.ofNat (results.flatMap ValidationResult.validRecords).length
  invalidCount := UInt64.ofNat (results.flatMap ValidationResult.invalidRecords).length
  duplicateCount := UInt64.ofNat (results.flatMap ValidationResult.duplicateRecords).length

def firstIds (records : List (VectorRecord F)) : List String :=
  remembered VectorRecord.id 1000000 records

structure Checked (batches : List (List (VectorRecord F))) (results : List (ValidationResult F)) :
    Prop where
  answered : results.length = batches.length
  lands : ∀ (i : Nat) (batch : List (VectorRecord F)) (result : ValidationResult F),
    batches[i]? = some batch → results[i]? = some result →
      batch.Perm (result.checked ++ result.duplicateRecords)
  counted : ∀ i result, results[i]? = some result → result.stats = tally (results.take (i + 1))
  apart : ∀ id ∈ firstIds batches.flatten,
    ((results.flatMap ValidationResult.checked).map VectorRecord.id).count id ≤ 1
  earlier : ∀ i result, results[i]? = some result → ∀ r ∈ result.duplicateRecords,
    r.id ∈ firstIds (batches.take (i + 1)).flatten ∧
      ∃ s ∈ (results.take (i + 1)).flatMap ValidationResult.checked,
        s.id = r.id ∧ [s, r].Sublist (batches.take (i + 1)).flatten

/-! ## The loop -/

section Loop

variable {formats : Formats F} {config : ValidationConfig} {v : BatchValidator}
  {before done records : List (VectorRecord F)} {record : VectorRecord F}
  {loop : BatchValidator × ValidationResult F} {base : ValidationStats}

def isValid (formats : Formats F) (config : ValidationConfig) (record : VectorRecord F) : Bool :=
  (validateRecord formats config record).toBool

def invalidOf (formats : Formats F) (config : ValidationConfig) (record : VectorRecord F) :
    Option (InvalidRecord F) :=
  match validateRecord formats config record with
  | .ok () => none
  | .error e => some { record := record, error := e.toString }

structure BatchValidator.Knows (config : ValidationConfig) (before : List (VectorRecord F))
    (v : BatchValidator) : Prop where
  config : v.config = config
  checker : v.duplicateChecker = some { seenIds := (firstIds before).toFinset }

def ValidationStats.plus (base : ValidationStats) (result : ValidationResult F) :
    ValidationStats where
  totalProcessed := base.totalProcessed
  validCount := base.validCount + UInt64.ofNat result.validRecords.length
  invalidCount := base.invalidCount + UInt64.ofNat result.invalidRecords.length
  duplicateCount := base.duplicateCount + UInt64.ofNat result.duplicateRecords.length

structure Looped (formats : Formats F) (config : ValidationConfig) (before : List (VectorRecord F))
    (base : ValidationStats) (done : List (VectorRecord F))
    (loop : BatchValidator × ValidationResult F) : Prop where
  knows : loop.1.Knows config (before ++ done)
  valid : loop.2.validRecords =
    (fresh VectorRecord.id 1000000 before done).filter (isValid formats config)
  invalid : loop.2.invalidRecords =
    (fresh VectorRecord.id 1000000 before done).filterMap (invalidOf formats config)
  duplicate : loop.2.duplicateRecords = repeats VectorRecord.id 1000000 before done
  stats : loop.1.stats = base.plus loop.2

theorem BatchValidator.Knows.isDuplicate (hv : v.Knows config before) (record : VectorRecord F) :
    v.duplicateChecker.any (·.isDuplicate record.id) = true ↔ record.id ∈ firstIds before := by
  rw [hv.checker, Option.any_some, DuplicateChecker.isDuplicate, decide_eq_true_eq,
    List.mem_toFinset]

theorem nodup_firstIds (records : List (VectorRecord F)) : (firstIds records).Nodup :=
  (FirstSeen.nodup_eraseDups _).sublist (List.take_sublist _ _)

theorem addId_firstIds (hnew : record.id ∉ firstIds before) :
    ({ seenIds := (firstIds before).toFinset } : DuplicateChecker).addId record.id =
      { seenIds := (firstIds (before ++ [record])).toFinset } := by
  rw [DuplicateChecker.addId, List.toFinset_card_of_nodup (nodup_firstIds before)]
  rw [firstIds, firstIds, remembered_concat hnew]
  split
  · rw [List.toFinset_append, List.toFinset_cons, List.toFinset_nil, insert_empty_eq,
      Finset.union_comm, ← Finset.insert_eq]
  · rfl

theorem Looped.validateOne (hloop : Looped formats config before base done loop) :
    Looped formats config before base (done ++ [record])
      (BatchValidator.validateOne formats loop record) := by
  obtain ⟨v, result⟩ := loop
  obtain ⟨hknows, hvalid, hinvalid, hduplicate, hstats⟩ := hloop
  have hasked := hknows.isDuplicate record
  have hof : ∀ n, UInt64.ofNat (n + 1) = UInt64.ofNat n + 1 := fun n => UInt64.ofNat_add n 1
  have hcounts : v.stats = base.plus result := hstats
  rw [BatchValidator.validateOne]
  by_cases hseen : record.id ∈ firstIds (before ++ done)
  · rw [if_pos (hasked.mpr hseen)]
    have hsame : firstIds (before ++ (done ++ [record])) = firstIds (before ++ done) := by
      rw [← List.append_assoc]
      exact remembered_concat_of_mem hseen
    refine ⟨⟨hknows.config, ?_⟩, ?_, ?_, ?_, ?_⟩
    · rw [hsame]
      exact hknows.checker
    · rw [fresh_concat_of_mem hseen]
      exact hvalid
    · rw [fresh_concat_of_mem hseen]
      exact hinvalid
    · rw [repeats_concat_of_mem hseen]
      exact congrArg (· ++ [record]) hduplicate
    · simp only [hcounts, ValidationStats.plus, List.length_append, List.length_singleton, hof,
        UInt64.add_assoc]
  · rw [if_neg (mt hasked.mp hseen)]
    have hadded : v.duplicateChecker.map (DuplicateChecker.addId · record.id) =
        some { seenIds := (firstIds (before ++ (done ++ [record]))).toFinset } := by
      rw [hknows.checker, Option.map_some, addId_firstIds hseen, List.append_assoc]
    have hconfig : v.config = config := hknows.config
    simp only [hconfig]
    cases hcheck : validateRecord formats config record
    all_goals
      refine ⟨⟨rfl, hadded⟩, ?_, ?_, ?_, ?_⟩
      · rw [fresh_concat hseen, List.filter_append, ← hvalid]
        simp [isValid, hcheck, Except.toBool]
      · rw [fresh_concat hseen, List.filterMap_append, ← hinvalid]
        simp [invalidOf, hcheck]
      · rw [repeats_concat hseen]
        exact hduplicate
      · simp only [hcounts, ValidationStats.plus, List.length_append, List.length_singleton, hof,
          UInt64.add_assoc]

theorem Looped.foldl (hloop : Looped formats config before base done loop)
    (records : List (VectorRecord F)) :
    Looped formats config before base (done ++ records)
      (records.foldl (BatchValidator.validateOne formats) loop) := by
  induction records generalizing done loop with
  | nil =>
    rw [List.append_nil]
    exact hloop
  | cons record records ih =>
    rw [List.foldl_cons, ← List.singleton_append, ← List.append_assoc]
    exact ih hloop.validateOne

theorem looped_nil (hv : v.Knows config before) :
    Looped formats config before v.stats [] (v, { stats := v.stats }) := by
  refine ⟨by rwa [List.append_nil], rfl, rfl, rfl, ?_⟩
  simp [ValidationStats.plus]

structure Judged (formats : Formats F) (config : ValidationConfig)
    (before records : List (VectorRecord F)) (base : ValidationStats)
    (called : BatchValidator × ValidationResult F) : Prop where
  knows : called.1.Knows config (before ++ records)
  checked : called.2.checked.Perm (fresh VectorRecord.id 1000000 before records)
  duplicate : called.2.duplicateRecords = repeats VectorRecord.id 1000000 before records
  stats : called.1.stats = { base.plus called.2 with
    totalProcessed := base.totalProcessed + UInt64.ofNat records.length }
  told : called.2.stats = called.1.stats

/-- Every record that is not a duplicate passes its validation or has its error. -/
theorem perm_checked (records : List (VectorRecord F)) :
    (records.filter (isValid formats config) ++
      (records.filterMap (invalidOf formats config)).map InvalidRecord.record).Perm records := by
  induction records with
  | nil => exact List.Perm.refl _
  | cons record records ih =>
    cases hcheck : validateRecord formats config record with
    | ok u =>
      rw [List.filter_cons_of_pos (by simp [isValid, hcheck, Except.toBool]),
        List.filterMap_cons_none (by simp [invalidOf, hcheck])]
      exact ih.cons record
    | error e =>
      rw [List.filter_cons_of_neg (by simp [isValid, hcheck, Except.toBool]),
        List.filterMap_cons_some (b := { record := record, error := e.toString })
          (by simp [invalidOf, hcheck]), List.map_cons]
      exact List.perm_middle.trans (ih.cons record)

theorem judged_validateBatch (hv : v.Knows config before) (records : List (VectorRecord F)) :
    Judged formats config before records v.stats (v.validateBatch formats records) := by
  have hstart : Looped formats config before v.stats [] (v, { stats := v.stats }) := looped_nil hv
  have hloop := hstart.foldl records
  rw [List.nil_append] at hloop
  refine ⟨⟨hloop.knows.config, hloop.knows.checker⟩, ?_, hloop.duplicate, ?_, rfl⟩
  · rw [ValidationResult.checked, BatchValidator.validateBatch]
    simp only [hloop.valid, hloop.invalid]
    exact perm_checked _
  · simp only [BatchValidator.validateBatch, hloop.stats, ValidationStats.plus]

/-! ## Runs -/

namespace BatchValidator

def after (formats : Formats F) (v : BatchValidator) (batches : List (List (VectorRecord F))) :
    BatchValidator :=
  batches.foldl (fun v records => (v.validateBatch formats records).1) v

theorem validateBatches_concat (v : BatchValidator) (batches : List (List (VectorRecord F)))
    (records : List (VectorRecord F)) :
    v.validateBatches formats (batches ++ [records]) = v.validateBatches formats batches ++
      [((v.after formats batches).validateBatch formats records).2] := by
  induction batches generalizing v with
  | nil => rfl
  | cons batch batches ih => exact congrArg _ (ih _)

end BatchValidator

structure Sound (config : ValidationConfig) (batches : List (List (VectorRecord F)))
    (results : List (ValidationResult F)) (v : BatchValidator) : Prop where
  knows : v.Knows config batches.flatten
  stats : v.stats = tally results
  taken : (results.flatMap ValidationResult.checked).Perm
    (fresh VectorRecord.id 1000000 [] batches.flatten)
  checked : Checked batches results

variable {batches : List (List (VectorRecord F))} {results : List (ValidationResult F)}
  {called : BatchValidator × ValidationResult F}

theorem sound_new : Sound config ([] : List (List (VectorRecord F))) []
    (BatchValidator.new config true) := by
  have hnone : firstIds ([] : List (VectorRecord F)) = [] := remembered_nil
  refine ⟨⟨rfl, ?_⟩, rfl, List.Perm.refl _, rfl, ?_, ?_, ?_, ?_⟩
  · rw [List.flatten_nil, hnone]
    rfl
  · exact fun i batch result hbatch => absurd hbatch (by simp)
  · exact fun i result hresult => absurd hresult (by simp)
  · rw [List.flatten_nil, hnone]
    exact fun id hid => absurd hid List.not_mem_nil
  · exact fun i result hresult => absurd hresult (by simp)

/-- The duplicates of one more call. -/
theorem Judged.earlier {records : List (VectorRecord F)}
    (hcalled : Judged formats config batches.flatten records base called)
    (hfresh : ((results ++ [called.2]).flatMap ValidationResult.checked).Perm
      (fresh VectorRecord.id 1000000 [] (batches.flatten ++ records)))
    {r : VectorRecord F} (hr : r ∈ called.2.duplicateRecords) :
    r.id ∈ firstIds (batches.flatten ++ records) ∧
      ∃ s ∈ (results ++ [called.2]).flatMap ValidationResult.checked,
        s.id = r.id ∧ [s, r].Sublist (batches.flatten ++ records) := by
  rw [hcalled.duplicate] at hr
  obtain ⟨front, rest, rfl, hknown⟩ := mem_repeats.mp hr
  obtain ⟨s, hs, hid⟩ := exists_fresh hknown
  rw [← List.append_assoc] at hfresh ⊢
  refine ⟨(remembered_append _ _).subset hknown, s, hfresh.mem_iff.mpr ?_, hid, ?_⟩
  · rw [fresh_append]
    exact List.mem_append_left _ hs
  · have hmem := fresh_perm.mem_iff.mpr (List.mem_append_left _ hs)
    exact (List.singleton_sublist.mpr hmem).append
      (List.singleton_sublist.mpr List.mem_cons_self)

theorem Judged.tally {records : List (VectorRecord F)}
    (hcalled : Judged formats config batches.flatten records (tally results) called) :
    called.1.stats = Migration.tally (results ++ [called.2]) := by
  have hall : (called.2.checked ++ called.2.duplicateRecords).length = records.length := by
    rw [hcalled.duplicate]
    exact ((hcalled.checked.append_right _).trans fresh_perm.symm).length_eq
  rw [hcalled.stats, ← hall]
  simp only [Migration.tally, ValidationStats.plus, List.flatMap_append, List.flatMap_singleton,
    List.length_append, UInt64.ofNat_add]

theorem Sound.call (hs : Sound config batches results v) {records : List (VectorRecord F)}
    (hcalled : Judged formats config batches.flatten records v.stats called) :
    Sound config (batches ++ [records]) (results ++ [called.2]) called.1 := by
  have hflatten : (batches ++ [records]).flatten = batches.flatten ++ records := by
    rw [List.flatten_append, List.flatten_singleton]
  have hfresh : ((results ++ [called.2]).flatMap ValidationResult.checked).Perm
      (fresh VectorRecord.id 1000000 [] (batches.flatten ++ records)) := by
    rw [List.flatMap_append, List.flatMap_singleton, fresh_append]
    exact hs.taken.append hcalled.checked
  have hstats : called.1.stats = Migration.tally (results ++ [called.2]) := by
    have hbase := hcalled
    rw [hs.stats] at hbase
    exact hbase.tally
  have hlength := hs.checked.answered
  have hall : (results ++ [called.2]).take (results.length + 1) = results ++ [called.2] :=
    List.take_of_length_le (by rw [List.length_append, List.length_singleton])
  have hall' : ((batches ++ [records]).take (results.length + 1)).flatten =
      batches.flatten ++ records := by
    rw [← hflatten, List.take_of_length_le]
    rw [List.length_append, List.length_singleton, hlength]
  refine ⟨hflatten ▸ hcalled.knows, hstats, hflatten ▸ hfresh, ?_, ?_, ?_, ?_, ?_⟩
  · rw [List.length_append, List.length_append, hlength]
    rfl
  · intro i batch result hbatch hresult
    rcases getElem?_concat_cases hresult with hresult | ⟨rfl, rfl⟩
    · have hi := (List.getElem?_eq_some_iff.mp hresult).1
      rw [List.getElem?_append_left (by omega)] at hbatch
      exact hs.checked.lands i batch result hbatch hresult
    · rw [hlength, List.getElem?_concat_length] at hbatch
      rw [← Option.some.inj hbatch, hcalled.duplicate]
      exact fresh_perm.trans (hcalled.checked.symm.append_right _)
  · intro i result hresult
    rcases getElem?_concat_cases hresult with hresult | ⟨rfl, rfl⟩
    · have hi := (List.getElem?_eq_some_iff.mp hresult).1
      rw [List.take_append_of_le_length (by omega)]
      exact hs.checked.counted i result hresult
    · rw [hall, hcalled.told]
      exact hstats
  · intro id hid
    rw [hflatten] at hid
    rw [(hfresh.map VectorRecord.id).count_eq]
    exact count_fresh_le hid
  · intro i result hresult
    rcases getElem?_concat_cases hresult with hresult | ⟨rfl, rfl⟩
    · have hi := (List.getElem?_eq_some_iff.mp hresult).1
      rw [List.take_append_of_le_length (by omega), List.take_append_of_le_length (by omega)]
      exact hs.checked.earlier i result hresult
    · rw [hall, hall']
      exact fun r hr => hcalled.earlier hfresh hr

theorem sound_validateBatches (formats : Formats F) (config : ValidationConfig)
    (batches : List (List (VectorRecord F))) :
    Sound config batches ((BatchValidator.new config true).validateBatches formats batches)
      ((BatchValidator.new config true).after formats batches) := by
  induction batches using List.reverseRecOn with
  | nil => exact sound_new
  | append_singleton batches records ih =>
    have hcalled : Judged formats config _ records _ _ := judged_validateBatch ih.knows records
    have hafter : (BatchValidator.new config true).after formats (batches ++ [records]) =
        (((BatchValidator.new config true).after formats batches).validateBatch formats records).1 :=
      List.foldl_append
    rw [BatchValidator.validateBatches_concat, hafter]
    exact ih.call hcalled

theorem validRecords_validateBatches (records : List (VectorRecord F)) :
    ((BatchValidator.new config true).validateBatches formats [records]).flatMap
        ValidationResult.validRecords =
      (fresh VectorRecord.id 1000000 [] records).filter (isValid formats config) := by
  have hnew : (BatchValidator.new config true).Knows config ([] : List (VectorRecord F)) :=
    sound_new.knows
  have hstart : Looped formats config [] _ [] _ := looped_nil hnew
  exact (List.append_nil _).trans (hstart.foldl records).valid

end Loop

/-- A record is a duplicate if its id came before, and the ids that are remembered are the first
million. -/
theorem checked_validateBatches (formats : Formats F) (config : ValidationConfig)
    (batches : List (List (VectorRecord F))) :
    Checked batches ((BatchValidator.new config true).validateBatches formats batches) :=
  (sound_validateBatches formats config batches).checked

/-- The second record is valid, and the first is not. -/
def retried : List (VectorRecord Unit) :=
  [{ id := "a", vector := [], metadata := .empty },
    { id := "a", vector := [0x3F800000], metadata := .empty }]

theorem not_earlier_valid : ¬∀ (config : ValidationConfig)
    (batches : List (List (VectorRecord Unit))) (i : Nat) (result : ValidationResult Unit),
    ((BatchValidator.new config true).validateBatches sampleFormats batches)[i]? = some result →
      ∀ r ∈ result.duplicateRecords,
        ∃ s ∈ (((BatchValidator.new config true).validateBatches sampleFormats batches).take
          (i + 1)).flatMap ValidationResult.validRecords, s.id = r.id := by
  intro hearlier
  obtain ⟨s, hs, -⟩ := hearlier .default [retried] 0 _ rfl _ List.mem_cons_self
  exact absurd (List.length_pos_of_mem hs) (by decide)

/-- A valid record with a number for its id. -/
def labelled (n : Nat) : VectorRecord Unit :=
  { id := String.ofList (Nat.toDigits 10 n), vector := [0x3F800000], metadata := .empty }

theorem labelled_id_inj {m n : Nat} (hid : (labelled m).id = (labelled n).id) : m = n :=
  Names.toDigits_inj (String.ofList_inj.mp hid)

theorem remembered_labelled (n : Nat) :
    remembered VectorRecord.id n ((List.range n).map labelled) =
      ((List.range n).map labelled).map VectorRecord.id := by
  have hnodup : (((List.range n).map labelled).map VectorRecord.id).Nodup := by
    rw [List.map_map]
    exact List.nodup_range.map fun _ _ hid => labelled_id_inj hid
  rw [remembered, FirstSeen.eraseDups_of_nodup hnodup, List.take_of_length_le (by simp)]

/-- A record that comes twice when the checker is full is returned as valid twice. -/
theorem not_valid_apart : ¬∀ (config : ValidationConfig)
    (batches : List (List (VectorRecord Unit))),
    ((((BatchValidator.new config true).validateBatches sampleFormats batches).flatMap
      ValidationResult.validRecords).map VectorRecord.id).Nodup := by
  intro hall
  have hnodup := hall .default
    [(List.range 1000000).map labelled ++ [labelled 1000000, labelled 1000000]]
  have hfull : (remembered VectorRecord.id 1000000
      ((List.range 1000000).map labelled)).length = 1000000 := by
    rw [remembered_labelled, List.length_map, List.length_map, List.length_range]
  have hnew : ∀ r ∈ [labelled 1000000, labelled 1000000],
      r.id ∉ remembered VectorRecord.id 1000000 ((List.range 1000000).map labelled) := by
    intro r hr hmem
    have hlast : r = labelled 1000000 := by simpa using hr
    rw [remembered_labelled, hlast, List.map_map, List.mem_map] at hmem
    obtain ⟨k, hk, hid⟩ := hmem
    rw [labelled_id_inj hid] at hk
    exact absurd (List.mem_range.mp hk) (Nat.lt_irrefl _)
  have hvalid : isValid sampleFormats .default (labelled 1000000) = true := by
    decide
  rw [validRecords_validateBatches, fresh_append, List.nil_append, fresh_beyond hfull hnew,
    List.filter_append, List.map_append] at hnodup
  have htwice := (List.nodup_append'.mp hnodup).2.1
  rw [List.filter_cons_of_pos hvalid, List.filter_cons_of_pos hvalid] at htwice
  exact absurd htwice (by simp)

/-- A record is taken for a duplicate of one that was not valid, and two records of one id are
returned as valid. -/
theorem not_checked_by_valid :
    (¬∀ (config : ValidationConfig) (batches : List (List (VectorRecord Unit))) (i : Nat)
      (result : ValidationResult Unit),
      ((BatchValidator.new config true).validateBatches sampleFormats batches)[i]? = some result →
        ∀ r ∈ result.duplicateRecords,
          ∃ s ∈ (((BatchValidator.new config true).validateBatches sampleFormats batches).take
            (i + 1)).flatMap ValidationResult.validRecords, s.id = r.id) ∧
      ¬∀ (config : ValidationConfig) (batches : List (List (VectorRecord Unit))),
        ((((BatchValidator.new config true).validateBatches sampleFormats batches).flatMap
          ValidationResult.validRecords).map VectorRecord.id).Nodup :=
  ⟨not_earlier_valid, not_valid_apart⟩

end Migration
end RTDB
