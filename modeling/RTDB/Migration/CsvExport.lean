import RTDB.Lib.Fields
import RTDB.Migration.CsvPages

/-!
# Exporting comma-separated values

`CsvWriter` of `migration/formats.rs`: the columns are those of the first record, and a record is
written as it is, whatever the columns are.  Only values with a comma or a quote are quoted.
-/

namespace RTDB
namespace Migration

open Batches Bytes Storage

variable {F : Type}

/-- `to_string` of numbers, and what `serde_json` makes of arrays and objects. -/
structure CsvFormats (F : Type) extends TextFormats F where
  f32ToString : UInt32 → String
  numberToString : Option Int → Option F → String
  valueToString : Value F → Option String

structure CsvWriter where
  /-- What the path holds, the bytes that are still in the buffer included. -/
  file : Option (List UInt8)
  recordsWritten : Nat
  opened : Bool
  headersWritten : Bool

namespace CsvWriter

def new (file : Option (List UInt8)) : CsvWriter :=
  { file, recordsWritten := 0, opened := false, headersWritten := false }

def ensureWriter (w : CsvWriter) : CsvWriter :=
  if w.opened then w else { w with file := some [], opened := true }

/-- `writeln!` of joined values. -/
def writeLine (w : CsvWriter) (values : List String) : CsvWriter :=
  { w with file := w.file.map (· ++ utf8 (",".intercalate values ++ "\n")) }

def headers (record : VectorRecord F) : List String :=
  "id" :: ((if record.vector.isEmpty then [] else ["vector"]) ++ record.metadata.entries.map Prod.fst)

def writeHeaders (w : CsvWriter) (record : VectorRecord F) : CsvWriter :=
  if w.headersWritten then w
  else { w.ensureWriter.writeLine (headers record) with headersWritten := true }

def vectorStr (formats : CsvFormats F) (vector : List UInt32) : String :=
  ";".intercalate (vector.map formats.f32ToString)

def valueStr (formats : CsvFormats F) : Value F → String
  | .string s => s
  | .number asI64 asF64 => formats.numberToString asI64 asF64
  | .bool b => if b then "true" else "false"
  | .array values => (formats.valueToString (.array values)).getD "null"
  | .object fields => (formats.valueToString (.object fields)).getD "null"
  | .null => "null"

def escapedValue (text : String) : String :=
  if ',' ∈ text.toList ∨ '"' ∈ text.toList then
    String.ofList ('"' :: (Fields.doubled '"' text.toList ++ ['"']))
  else text

def values (formats : CsvFormats F) (record : VectorRecord F) : List String :=
  record.id :: ((if record.vector.isEmpty then [] else [vectorStr formats record.vector]) ++
    record.metadata.entries.map fun field => escapedValue (valueStr formats field.2))

def writeBatch (formats : CsvFormats F) (w : CsvWriter) (records : List (VectorRecord F)) : CsvWriter :=
  match records with
  | [] => w
  | first :: _ =>
    let w := (w.writeHeaders first).ensureWriter
    let w := records.foldl (fun w record => w.writeLine (values formats record)) w
    { w with recordsWritten := wrappingAdd w.recordsWritten records.length }

end CsvWriter

/-- What is at the path after an export.  `finalize` only empties the buffer. -/
def csvExported (formats : CsvFormats F) (before : Option (List UInt8))
    (batches : List (List (VectorRecord F))) : Option (List UInt8) :=
  (batches.foldl (CsvWriter.writeBatch formats) (CsvWriter.new before)).file

/-! ## What an export is for -/

/-- `read_batch`, which opens the file. -/
def CsvReader.readFile (formats : TextFormats F) (file : Option (List UInt8)) (reader : CsvReader)
    (batchSize : Nat) : Except Error (List (VectorRecord F) × CsvReader) :=
  match file with
  | none => .error (.io "Failed to open CSV file: No such file or directory (os error 2)")
  | some bytes => CsvReader.readBatch formats bytes reader batchSize

/-- Batch after batch, up to an empty one, the records come back in order. -/
def CsvReadsBack (formats : TextFormats F) (file : Option (List UInt8)) (batchSize : Nat)
    (records : List (VectorRecord F)) : Prop :=
  ∃ batches, Delivers (fun reader => CsvReader.readFile formats file reader batchSize) CsvReader.new
    batches ∧ batches.flatten = records

/-- A finite `f32` is printed with digits, a sign and a point, and parsed as it was. -/
structure PrintsFloats (formats : CsvFormats F) : Prop where
  parses : ∀ f, isFiniteF32 f = true → formats.parseF32 (formats.f32ToString f) = some f
  digits : ∀ f, isFiniteF32 f = true → ∀ c ∈ (formats.f32ToString f).toList,
    c.isDigit = true ∨ c = '-' ∨ c = '.'

/-- A key of metadata that is no column of the reader's own. -/
structure MetadataKey (key : String) : Prop where
  comma : ',' ∉ key.toList
  quote : '"' ∉ key.toList
  spaces : trim key.toList = key.toList
  other : key ≠ "id" ∧ key ≠ "vector" ∧ key ≠ "embedding"

/-- A record with these metadata keys, whose values are texts that are taken for nothing else. -/
structure Exportable (formats : CsvFormats F) (keys : List String) (record : VectorRecord F) : Prop where
  id : record.id ≠ ""
  finite : ∀ f ∈ record.vector, isFiniteF32 f = true
  keys : record.metadata.entries.map Prod.fst = keys
  texts : ∀ field ∈ record.metadata.entries, ∃ s, field.2 = .string s ∧ formats.parseF64 s = none ∧
    CsvReader.lowercase s ≠ "true" ∧ CsvReader.lowercase s ≠ "false"

/-! ## What is written -/

def csvLine (values : List String) : List Char := [','].intercalate (values.map String.toList)

def csvText (rows : List (List String)) : List Char := (rows.map csvLine).flatMap (· ++ ['\n'])

/-- The header line, and a line for each record. -/
def exportedRows (formats : CsvFormats F) : List (VectorRecord F) → List (List String)
  | [] => []
  | first :: rest => CsvWriter.headers first :: (first :: rest).map (CsvWriter.values formats)

variable {formats : CsvFormats F}

theorem utf8_line (values : List String) :
    utf8 (",".intercalate values ++ "\n") = utf8 (String.ofList (csvLine values ++ ['\n'])) := by
  refine congrArg utf8 (String.toList_inj.mp ?_)
  have hsep : ",".toList = [','] := rfl
  have hend : "\n".toList = ['\n'] := rfl
  rw [String.toList_append, String.toList_intercalate, hsep, hend, String.toList_ofList, csvLine]

theorem utf8_csvText_append (rows more : List (List String)) :
    utf8 (String.ofList (csvText (rows ++ more))) =
      utf8 (String.ofList (csvText rows)) ++ utf8 (String.ofList (csvText more)) := by
  rw [utf8_ofList, utf8_ofList, utf8_ofList, csvText, List.map_append, List.flatMap_append,
    List.flatMap_append, csvText, csvText]

def CsvWriter.behind (rows : List (List String)) (count : Nat) : CsvWriter :=
  { file := some (utf8 (String.ofList (csvText rows))), recordsWritten := count
    opened := true, headersWritten := true }

theorem CsvWriter.writeLine_behind (rows : List (List String)) (count : Nat) (values : List String) :
    (CsvWriter.behind rows count).writeLine values = CsvWriter.behind (rows ++ [values]) count := by
  have hline : utf8 (",".intercalate values ++ "\n") = utf8 (String.ofList (csvText [values])) := by
    rw [utf8_line, csvText, List.map_singleton, List.flatMap_singleton]
  rw [writeLine, behind, behind, utf8_csvText_append, hline]
  rfl

variable (formats) in
theorem CsvWriter.writeLines_behind (rows : List (List String)) (count : Nat)
    (records : List (VectorRecord F)) :
    records.foldl (fun w record => w.writeLine (CsvWriter.values formats record))
        (CsvWriter.behind rows count) =
      CsvWriter.behind (rows ++ records.map (CsvWriter.values formats)) count := by
  induction records generalizing rows with
  | nil => rw [List.foldl_nil, List.map_nil, List.append_nil]
  | cons record records ih =>
    rw [List.foldl_cons, writeLine_behind, ih, List.append_assoc, List.singleton_append, List.map_cons]

variable (formats) in
/-- A batch is written behind what there is, and the first one behind its header line. -/
theorem CsvWriter.writeBatch_behind (rows : List (List String)) (count : Nat)
    (records : List (VectorRecord F)) :
    ∃ count', CsvWriter.writeBatch formats (CsvWriter.behind rows count) records =
      CsvWriter.behind (rows ++ records.map (CsvWriter.values formats)) count' := by
  cases records with
  | nil => exact ⟨count, by rw [List.map_nil, List.append_nil]; rfl⟩
  | cons first rest =>
    refine ⟨wrappingAdd count (first :: rest).length, ?_⟩
    have hopened : ((CsvWriter.behind rows count).writeHeaders first).ensureWriter =
      CsvWriter.behind rows count := rfl
    have hlines := writeLines_behind formats rows count (first :: rest)
    rw [writeBatch, hopened, hlines]
    rfl

variable (formats) in
theorem CsvWriter.writeBatch_new (before : Option (List UInt8)) (first : VectorRecord F)
    (rest : List (VectorRecord F)) :
    ∃ count, CsvWriter.writeBatch formats (CsvWriter.new before) (first :: rest) =
      CsvWriter.behind (exportedRows formats (first :: rest)) count := by
  refine ⟨wrappingAdd 0 (first :: rest).length, ?_⟩
  have hheaders : ((CsvWriter.new before).writeHeaders first).ensureWriter =
      CsvWriter.behind [CsvWriter.headers first] 0 := writeLine_behind [] 0 (CsvWriter.headers first)
  have hlines := writeLines_behind formats [CsvWriter.headers first] 0 (first :: rest)
  rw [writeBatch, hheaders, hlines]
  rfl

variable (formats) in
theorem CsvWriter.writeBatches_behind (rows : List (List String)) (count : Nat)
    (batches : List (List (VectorRecord F))) :
    ∃ count', batches.foldl (CsvWriter.writeBatch formats) (CsvWriter.behind rows count) =
      CsvWriter.behind (rows ++ batches.flatten.map (CsvWriter.values formats)) count' := by
  induction batches generalizing rows count with
  | nil => exact ⟨count, by rw [List.flatten_nil, List.map_nil, List.append_nil]; rfl⟩
  | cons batch batches ih =>
    obtain ⟨count', hbatch⟩ := writeBatch_behind formats rows count batch
    obtain ⟨count'', hbatches⟩ := ih (rows ++ batch.map (CsvWriter.values formats)) count'
    refine ⟨count'', ?_⟩
    rw [List.foldl_cons, hbatch, hbatches, List.flatten_cons, List.map_append, List.append_assoc]

/-- Without a record nothing is written, not even a file. -/
theorem csvExported_eq (before : Option (List UInt8)) (batches : List (List (VectorRecord F))) :
    csvExported formats before batches =
      if batches.flatten = [] then before
      else some (utf8 (String.ofList (csvText (exportedRows formats batches.flatten)))) := by
  rw [csvExported]
  induction batches with
  | nil => rfl
  | cons batch batches ih =>
    cases batch with
    | nil => exact ih
    | cons first rest =>
      obtain ⟨count, hbatch⟩ := CsvWriter.writeBatch_new formats before first rest
      obtain ⟨count', hbatches⟩ :=
        CsvWriter.writeBatches_behind formats (exportedRows formats (first :: rest)) count batches
      rw [List.foldl_cons, hbatch, hbatches, if_neg (by simp)]
      rw [List.flatten_cons, List.cons_append, exportedRows, exportedRows, ← List.cons_append,
        List.map_append]
      rfl

end Migration
end RTDB
