import RTDB.Lib.Bytes
import RTDB.Lib.Reader
import RTDB.Migration.Types

/-!
# The binary format

`BinaryWriter` and `BinaryReader` of `migration/formats.rs`: a header with the number of records, and
the records, each field of unknown size behind its length.  The header is only written with the first
record, and the reader takes any short read of the first length of a record for the end.
-/

namespace RTDB
namespace Migration

open Bytes Storage

variable {F : Type}

/-- `serde_json` on metadata, and what `String::from_utf8` says of bytes that are no text. -/
structure RecordFormats (F : Type) where
  metadataToVec : Metadata F → List UInt8
  metadataFromSlice : List UInt8 → Except String (Metadata F)
  utf8Error : List UInt8 → String

def magic : List UInt8 := utf8 "RTDB"

def headerBytes (totalRecords : Nat) : List UInt8 := magic ++ (leBytes 4 1 ++ leBytes 8 totalRecords)

def encodeRecord (formats : RecordFormats F) (record : VectorRecord F) : List UInt8 :=
  leBytes 4 (utf8 record.id).length ++ (utf8 record.id ++
    (leBytes 4 record.vector.length ++ (wordBytes record.vector ++
      (leBytes 4 (formats.metadataToVec record.metadata).length ++
        formats.metadataToVec record.metadata))))

def encodeRecords (formats : RecordFormats F) (records : List (VectorRecord F)) : List UInt8 :=
  records.flatMap (encodeRecord formats)

/-! ## Writing -/

structure BinaryWriter where
  /-- What the path holds, the bytes that are still in the buffer included. -/
  file : Option (List UInt8)
  recordsWritten : Nat
  opened : Bool
  headerWritten : Bool

namespace BinaryWriter

def new (file : Option (List UInt8)) : BinaryWriter :=
  { file, recordsWritten := 0, opened := false, headerWritten := false }

/-- Creating the file empties it. -/
def ensureWriter (w : BinaryWriter) : BinaryWriter :=
  if w.opened then w else { w with file := some [], opened := true }

def writeAll (w : BinaryWriter) (data : List UInt8) : BinaryWriter :=
  { w with file := w.file.map (· ++ data) }

def writeHeader (w : BinaryWriter) (totalRecords : Nat) : BinaryWriter :=
  if w.headerWritten then w
  else { w.ensureWriter.writeAll (headerBytes totalRecords) with headerWritten := true }

def writeBatch (formats : RecordFormats F) (w : BinaryWriter) (records : List (VectorRecord F)) :
    BinaryWriter :=
  if records.isEmpty then w
  else
    let w := (w.writeHeader 0).ensureWriter
    let w := records.foldl (fun w record => w.writeAll (encodeRecord formats record)) w
    { w with recordsWritten := wrappingAdd w.recordsWritten records.length }

/-- The count goes over the placeholder, if there is a file. -/
def finalize (w : BinaryWriter) : BinaryWriter :=
  if w.opened then { w with file := w.file.map fun bytes => writeAt bytes 8 (leBytes 8 w.recordsWritten) }
  else w

end BinaryWriter

def exported (formats : RecordFormats F) (before : Option (List UInt8))
    (batches : List (List (VectorRecord F))) : Option (List UInt8) :=
  (batches.foldl (BinaryWriter.writeBatch formats) (BinaryWriter.new before)).finalize.file

/-! ## Reading -/

/-- The error of a read that meets the end of the file. -/
def shortRead (what : String) : Error := .io s!"Failed to read {what}: failed to fill whole buffer"

structure BinaryReader where
  currentOffset : Nat
  totalRecords : Option Nat
  deriving DecidableEq, Repr

namespace BinaryReader

def new : BinaryReader := { currentOffset := 0, totalRecords := none }

def header : Reader UInt8 Error Nat := do
  let start ← Reader.exact 4 (shortRead "magic")
  Reader.ofExcept (if start ≠ magic then .error (.serialization "Invalid binary format magic")
    else .ok ())
  let version ← Reader.exact 4 (shortRead "version")
  Reader.ofExcept (if leNat version ≠ 1 then
      .error (.serialization s!"Unsupported binary format version: {leNat version}")
    else .ok ())
  let recordCount ← Reader.exact 8 (shortRead "record count")
  return leNat recordCount

def readHeader (file : Option (List UInt8)) : Except Error BinaryReader :=
  match file with
  | none => .error (.io "Failed to open binary file: No such file or directory (os error 2)")
  | some bytes => (header bytes).map fun r => { currentOffset := 16, totalRecords := some r.1 }

/-- The header is read with the first batch. -/
def ensureHeader (file : Option (List UInt8)) (reader : BinaryReader) : Except Error BinaryReader :=
  if reader.totalRecords.isNone then readHeader file else .ok reader

def metadata (formats : RecordFormats F) (metadataLen : Nat) : Reader UInt8 Error (Metadata F) :=
  if 0 < metadataLen then do
    let bytes ← Reader.exact metadataLen (shortRead "metadata")
    Reader.ofExcept ((formats.metadataFromSlice bytes).mapError fun e =>
      .serialization s!"Failed to parse metadata: {e}")
  else return SortedMap.empty

def fields (formats : RecordFormats F) (idLen : Nat) : Reader UInt8 Error (VectorRecord F) := do
  let idBytes ← Reader.exact idLen (shortRead "ID")
  let id ← Reader.ofExcept (match ofUtf8? idBytes with
    | some id => .ok id
    | none => .error (.serialization s!"Invalid UTF-8 in ID: {formats.utf8Error idBytes}"))
  let vectorDim ← Reader.exact 4 (shortRead "vector dimension")
  let vectorBytes ← Reader.exact (leNat vectorDim * 4) (shortRead "vector")
  let metadataLen ← Reader.exact 4 (shortRead "metadata length")
  let metadata ← metadata formats (leNat metadataLen)
  return { id, vector := wordsOf vectorBytes, metadata }

/-- The loop over at most `batchSize` records, and the bytes it leaves.  A length that cannot be read
is taken for the end, and nothing is left then. -/
def records (formats : RecordFormats F) : Nat → List UInt8 →
    Except Error (List (VectorRecord F) × List UInt8)
  | 0, bytes => .ok ([], bytes)
  | n + 1, bytes =>
    if bytes.length < 4 then .ok ([], [])
    else
      match fields formats (leNat (bytes.take 4)) (bytes.drop 4) with
      | .error e => .error e
      | .ok (record, rest) => (records formats n rest).map fun r => (record :: r.1, r.2)

def readBatch (formats : RecordFormats F) (file : Option (List UInt8)) (reader : BinaryReader)
    (batchSize : Nat) : Except Error (List (VectorRecord F) × BinaryReader) := do
  let reader ← ensureHeader file reader
  let bytes := file.getD []
  let (records, rest) ← records formats batchSize (bytes.drop reader.currentOffset)
  return (records, { reader with currentOffset := bytes.length - rest.length })

def getTotalCount (reader : BinaryReader) : Option Nat := reader.totalRecords

def reset (reader : BinaryReader) : BinaryReader := { reader with currentOffset := 16 }

def readBatches (formats : RecordFormats F) (file : Option (List UInt8)) : BinaryReader → List Nat →
    Except Error (List (List (VectorRecord F)) × BinaryReader)
  | reader, [] => .ok ([], reader)
  | reader, batchSize :: sizes => do
    let (batch, reader) ← readBatch formats file reader batchSize
    let (batches, reader) ← readBatches formats file reader sizes
    return (batch :: batches, reader)

end BinaryReader

/-! ## What an export is for -/

/-- Whatever the batch sizes are, the records come back in order, and the header counts them. -/
def ReadsBack (formats : RecordFormats F) (file : Option (List UInt8))
    (records : List (VectorRecord F)) : Prop :=
  ∀ sizes : List Nat, (∀ n ∈ sizes, 1 ≤ n) → ∃ batches reader,
    BinaryReader.readBatches formats file BinaryReader.new sizes = .ok (batches, reader) ∧
      batches.flatten = records.take sizes.sum ∧
      (sizes ≠ [] → reader.getTotalCount = some records.length)

/-- No reading that comes to an empty batch has brought fewer than `count` records. -/
def NoneMissing (formats : RecordFormats F) (file : Option (List UInt8)) (count : Nat) : Prop :=
  ∀ sizes : List Nat, (∀ n ∈ sizes, 1 ≤ n) → ∀ batches reader,
    BinaryReader.readBatches formats file BinaryReader.new sizes = .ok (batches, reader) →
      batches.getLast? = some [] → count ≤ batches.flatten.length

/-- An export that is read back, and that misses nothing silently when it is cut off. -/
structure Dependable (formats : RecordFormats F) (file : Option (List UInt8))
    (records : List (VectorRecord F)) (cut : Nat) : Prop where
  readsBack : ReadsBack formats file records
  noneMissing : ∀ bytes, file = some bytes → cut < bytes.length →
    NoneMissing formats (some (bytes.take cut)) records.length

/-- The sizes of a record are `u32`s, and `serde_json` reads its metadata as it wrote them. -/
structure Storable (formats : RecordFormats F) (record : VectorRecord F) : Prop where
  id : record.id.utf8ByteSize < 2 ^ 32
  metadata : (formats.metadataToVec record.metadata).length < 2 ^ 32
  written : formats.metadataToVec record.metadata ≠ []
  reads : formats.metadataFromSlice (formats.metadataToVec record.metadata) = .ok record.metadata

end Migration
end RTDB
