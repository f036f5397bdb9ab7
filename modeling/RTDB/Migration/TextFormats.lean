import RTDB.Lib.Bytes
import RTDB.Lib.Lines
import RTDB.Migration.Transform

/-!
# The text formats

`JsonlReader` and `CsvReader` of `migration/formats.rs`.  The one keeps the file open where it is; the
other opens it anew with each batch and skips what it has counted.
-/

namespace RTDB
namespace Migration

open Bytes Storage

variable {F : Type}

/-- What `serde_json` and the standard library make of text. -/
structure TextFormats (F : Type) where
  /-- Into a `JsonlRecord`, which becomes a record. -/
  recordFromStr : String → Except String (VectorRecord F)
  vectorFromStr : String → Option (List UInt32)
  parseF32 : String → Option UInt32
  parseF64 : String → Option F
  isFinite : F → Bool
  /-- The number 0 as a float. -/
  zero : F

namespace AsyncBufReader

/-- `read_line`, with what it leaves; nothing when no byte is left. -/
def readLine (what : String) (file : List UInt8) : Except Error (Option (List Char × List UInt8)) :=
  match Lines.takeLine 10 file with
  | ([], _) => .ok none
  | (line, rest) =>
    match ofUtf8? line with
    | some text => .ok (some (text.toList, rest))
    | none => .error (.io s!"Failed to read {what}: stream did not contain valid UTF-8")

/-- A line is read if it is text. -/
theorem readLine_cases (what : String) (file : List UInt8) :
    (file = [] ∧ readLine what file = .ok none) ∨
      ∃ line, Lines.lines 10 file = line :: Lines.lines 10 (Lines.takeLine 10 file).2 ∧
        ((∃ text, ofUtf8? line = some text ∧
            readLine what file = .ok (some (text.toList, (Lines.takeLine 10 file).2))) ∨
          (ofUtf8? line = none ∧ ∃ e, readLine what file = .error e)) := by
  rcases Lines.takeLine_cases 10 file with rfl | ⟨c, line, rest, htake, hlines⟩
  · exact Or.inl ⟨rfl, rfl⟩
  · refine Or.inr ⟨c :: line, ?_, ?_⟩
    · rw [hlines, htake]
    · simp only [readLine, htake]
      cases htext : ofUtf8? (c :: line) with
      | none => exact Or.inr ⟨rfl, _, rfl⟩
      | some text => exact Or.inl ⟨text, rfl, rfl⟩

end AsyncBufReader

/-! ## JSON lines -/

structure JsonlReader where
  /-- What is left of the file. -/
  file : List UInt8
  currentLine : Nat
  deriving DecidableEq, Repr

namespace JsonlReader

def new (file : List UInt8) : JsonlReader := { file, currentLine := 0 }

/-- The loop over at most so many lines.  A blank one takes a round. -/
def readLines (formats : TextFormats F) : Nat → JsonlReader →
    Except Error (List (VectorRecord F) × JsonlReader)
  | 0, reader => .ok ([], reader)
  | n + 1, reader =>
    match AsyncBufReader.readLine "line" reader.file with
    | .error e => .error e
    | .ok none => .ok ([], reader)
    | .ok (some (line, rest)) =>
      if (trim line).isEmpty then readLines formats n { reader with file := rest }
      else
        match formats.recordFromStr (String.ofList (trim line)) with
        | .error e =>
          .error (.serialization s!"Failed to parse JSON line {reader.currentLine + 1}: {e}")
        | .ok record =>
          (readLines formats n { file := rest, currentLine := reader.currentLine + 1 }).map fun r =>
            (record :: r.1, r.2)

/-- Room for a whole batch is made first; a record takes 96 bytes. -/
def readBatch (formats : TextFormats F) (batchSize : Nat) (reader : JsonlReader) :
    Except Error (List (VectorRecord F) × JsonlReader) :=
  if VecFits 96 batchSize then readLines formats batchSize reader
  else .error (.panic "capacity overflow")

end JsonlReader

/-! ## Comma-separated values -/

structure CsvReader where
  currentLine : Nat
  headers : Option (List String)
  deriving DecidableEq, Repr

namespace CsvReader

def new : CsvReader := { currentLine := 0, headers := none }

/-- `trim_matches('"')`. -/
def trimQuotes (text : List Char) : List Char :=
  (text.dropWhile (· == '"')).rdropWhile (· == '"')

/-- The values of a trimmed line. -/
def cells (line : List Char) : List String :=
  (line.splitOn ',').map fun value => String.ofList (trimQuotes (trim value))

def readHeaders (file : List UInt8) (reader : CsvReader) : Except Error (List String × CsvReader) :=
  match reader.headers with
  | some headers => .ok (headers, reader)
  | none =>
    match AsyncBufReader.readLine "CSV header" file with
    | .error e => .error e
    | .ok none => .error (.serialization "Empty CSV file")
    | .ok (some (line, _)) =>
      .ok (cells (trim line), { reader with headers := some (cells (trim line)) })

/-- `to_lowercase`, as far as it is looked at: no letter but an ASCII one has a letter of these names as
its lower case. -/
def lowercase (text : String) : String := String.ofList (text.toList.map Char.toLower)

def namesId (header : String) : Bool := lowercase header = "id" || lowercase header = "_id"

def namesVector (header : String) : Bool :=
  lowercase header = "vector" || lowercase header = "embedding" || lowercase header = "embeddings"

def metadataValue (formats : TextFormats F) (value : String) : Value F :=
  match formats.parseF64 value with
  | some num =>
    if formats.isFinite num then .number none (some num) else .number (some 0) (some formats.zero)
  | none =>
    if lowercase value = "true" then .bool true
    else if lowercase value = "false" then .bool false
    else .string value

def setField (formats : TextFormats F) (record : VectorRecord F) (field : String × String) :
    VectorRecord F :=
  if namesId field.1 then { record with id := field.2 }
  else if namesVector field.1 then
    if field.2.toList.head? = some '[' ∧ field.2.toList.getLast? = some ']' then
      match formats.vectorFromStr field.2 with
      | some vector => { record with vector }
      | none => record
    else
      { record with
        vector :=
          (field.2.toList.splitOn ';').filterMap fun v => formats.parseF32 (String.ofList (trim v)) }
  else { record with metadata := record.metadata.insert field.1 (metadataValue formats field.2) }

def rowRecord (formats : TextFormats F) (headers values : List String) (currentLine : Nat) :
    VectorRecord F :=
  (headers.zip values).foldl (setField formats)
    { id := s!"csv_row_{currentLine}", vector := [], metadata := SortedMap.empty }

/-- The lines up to the offset, which the counter counts while there are any. -/
def skip : Nat → Nat → List UInt8 → Except Error (Nat × List UInt8)
  | 0, currentLine, file => .ok (currentLine, file)
  | n + 1, currentLine, file =>
    match AsyncBufReader.readLine "line" file with
    | .error e => .error e
    | .ok none => .ok (currentLine, file)
    | .ok (some (_, rest)) => skip n (currentLine + 1) rest

/-- The loop over at most so many lines.  Only a row counts. -/
def rows (formats : TextFormats F) (headers : List String) : Nat → Nat → List UInt8 →
    Except Error (List (VectorRecord F) × Nat)
  | 0, currentLine, _ => .ok ([], currentLine)
  | n + 1, currentLine, file =>
    match AsyncBufReader.readLine "line" file with
    | .error e => .error e
    | .ok none => .ok ([], currentLine)
    | .ok (some (line, rest)) =>
      if (trim line).isEmpty then rows formats headers n currentLine rest
      else if (cells (trim line)).length ≠ headers.length then rows formats headers n currentLine rest
      else
        (rows formats headers n (currentLine + 1) rest).map fun r =>
          (rowRecord formats headers (cells (trim line)) currentLine :: r.1, r.2)

/-- The counter begins at 1 behind the header line and is left to the next batch as it is, which skips
as many lines: one more than rows were read. -/
def readBatch (formats : TextFormats F) (file : List UInt8) (reader : CsvReader) (batchSize : Nat) :
    Except Error (List (VectorRecord F) × CsvReader) := do
  let (headers, reader) ← readHeaders file reader
  let header ← AsyncBufReader.readLine "line" file
  let (currentLine, rest) ← skip reader.currentLine 1 ((header.map Prod.snd).getD [])
  let (records, currentLine) ← rows formats headers batchSize currentLine rest
  return (records, { reader with currentLine })

end CsvReader
end Migration
end RTDB
