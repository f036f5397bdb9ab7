import RTDB.Lib.Bytes
import RTDB.Storage.Types

/-!
# The write-ahead log

`storage/wal.rs`.  The directory maps file numbers to the bytes of the files
`wal-<number>.log`; the checksum function is a parameter.  The open file is
written at its end, which `current_size` always names.
-/

namespace RTDB
namespace Storage

open Bytes

def walMagic : Nat := 0x57414C21

def walVersion : Nat := 1

def headerSize : Nat := 16

def maxRecordSize : Nat := 16 * 1024 * 1024

inductive EntryType where
  | full
  | first
  | middle
  | last
  deriving DecidableEq, Repr

def EntryType.toU8 : EntryType → UInt8
  | .full => 1
  | .first => 2
  | .middle => 3
  | .last => 4

def EntryType.fromU8 (v : UInt8) : Option EntryType :=
  if v = 1 then some .full
  else if v = 2 then some .first
  else if v = 3 then some .middle
  else if v = 4 then some .last
  else none

structure EntryHeader where
  crc : UInt32
  entryType : EntryType
  length : Nat

namespace EntryHeader

/-- Eight bytes: checksum, type, and the low three bytes of the length. -/
def encode (h : EntryHeader) : List UInt8 :=
  leBytes 4 h.crc.toNat ++ [h.entryType.toU8] ++ (leBytes 4 h.length).take 3

def decode (data : List UInt8) : Except RTDBError EntryHeader :=
  if data.length < 8 then .error (.storage "Invalid header size")
  else
    match EntryType.fromU8 (data.getD 4 0) with
    | none => .error (.storage ("Invalid entry type: " ++ toString (data.getD 4 0)))
    | some entryType =>
      .ok { crc := UInt32.ofNat (leNat (data.take 4)), entryType,
            length := leNat ((data.drop 5).take 3) }

end EntryHeader

structure WALEntry where
  data : List UInt8
  deriving DecidableEq, Repr

/-- The files of a log directory, by number. -/
abbrev WalDir := Std.TreeMap Nat (List UInt8)

structure WAL where
  dir : WalDir
  currentFileNo : Nat
  maxFileSize : Nat
  currentSize : Nat

/-- The header of a log file: magic, version, reserved, padding. -/
def fileHeader : List UInt8 :=
  leBytes 4 walMagic ++ leBytes 2 walVersion ++ leBytes 8 0 ++ leBytes 2 0

namespace WAL

/-- `WAL::open`: the file with the largest number, created with number zero in an
empty directory. -/
def openAt (dir : WalDir) (maxFileSize : Nat) : WAL :=
  let maxFileNo := dir.keys.foldl max 0
  match dir[maxFileNo]? with
  | some bytes => { dir, currentFileNo := maxFileNo, maxFileSize, currentSize := bytes.length }
  | none =>
    { dir := dir.insert maxFileNo fileHeader, currentFileNo := maxFileNo, maxFileSize,
      currentSize := headerSize }

def write (w : WAL) (data : List UInt8) : WAL :=
  { w with
    dir := w.dir.insert w.currentFileNo
      (writeAt (w.dir.getD w.currentFileNo []) w.currentSize data)
    currentSize := w.currentSize + data.length }

def rotate (w : WAL) : WAL :=
  let fileNo := w.currentFileNo + 1
  { w with
    dir := w.dir.insert fileNo (writeAt (w.dir.getD fileNo []) 0 fileHeader)
    currentFileNo := fileNo
    currentSize := headerSize }

/-- `append`: the log after it, and the position of the record. -/
def append (crc32c : List UInt8 → UInt32) (w : WAL) (data : List UInt8) :
    Except RTDBError (WAL × Nat) :=
  if data.length > maxRecordSize then
    .error (.storage ("Record too large: " ++ toString data.length ++ " > " ++
      toString maxRecordSize))
  else
    let w := if w.currentSize + (8 + data.length) > w.maxFileSize then w.rotate else w
    let position := (w.currentFileNo * w.maxFileSize + w.currentSize) % 2 ^ 64
    let header : EntryHeader := { crc := crc32c data, entryType := .full, length := data.length }
    .ok ((w.write header.encode).write data, position)

end WAL

/-! ## Reading -/

/-- The loop of `read_file` from `offset` on.  Each round takes eight bytes or
more, so as much fuel as there are bytes is enough. -/
def readRecords (crc32c : List UInt8 → UInt32) :
    Nat → Nat → List UInt8 → Except RTDBError (List WALEntry)
  | 0, _, _ => .ok []
  | fuel + 1, offset, rest =>
    if rest.length < 8 then .ok []
    else
      match EntryHeader.decode (rest.take 8) with
      | .error e => .error e
      | .ok header =>
        if (rest.drop 8).length < header.length then .ok []
        else if crc32c ((rest.drop 8).take header.length) ≠ header.crc then
          .error (.storage ("CRC mismatch at offset " ++ toString offset))
        else
          (readRecords crc32c fuel (offset + 8 + header.length)
            ((rest.drop 8).drop header.length)).map
              (WALEntry.mk ((rest.drop 8).take header.length) :: ·)

/-- Eight hexadecimal digits, as `{:08x}` prints them. -/
def hex8 (n : Nat) : String :=
  let digits := Nat.toDigits 16 n
  String.ofList (List.replicate (8 - digits.length) '0' ++ digits)

def readFile (crc32c : List UInt8 → UInt32) (buf : List UInt8) :
    Except RTDBError (List WALEntry) :=
  if buf.length < headerSize then .ok []
  else if leNat (buf.take 4) ≠ walMagic then
    .error (.storage ("Invalid WAL magic: " ++ hex8 (leNat (buf.take 4))))
  else readRecords crc32c buf.length headerSize (buf.drop headerSize)

def readFiles (crc32c : List UInt8 → UInt32) (dir : WalDir) :
    List Nat → Except RTDBError (List WALEntry)
  | [] => .ok []
  | fileNo :: rest =>
    match readFile crc32c (dir.getD fileNo []) with
    | .error e => .error e
    | .ok entries => (readFiles crc32c dir rest).map (entries ++ ·)

/-- `read_entries`: all files in the order of their numbers. -/
def WAL.readEntries (crc32c : List UInt8 → UInt32) (w : WAL) :
    Except RTDBError (List WALEntry) := readFiles crc32c w.dir w.dir.keys

end Storage
end RTDB
