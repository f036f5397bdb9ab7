import RTDB.Lib.Bytes
import RTDB.Storage.Types

/-!
# Tables

`storage/sstable.rs`.  A table file holds blocks of entries in the order of
their ids, an index of the blocks, metadata, a footer and a trailer.
-/

namespace RTDB
namespace Storage

open Bytes

def sstableVersion : Nat := 1

def sstableMagic : Nat := 0x53535442

variable {P : Type}

/-! ## Blocks -/

structure Block (P : Type) where
  entries : List (VectorId × Vector P)
  size : Nat
  maxSize : Nat

namespace Block

def new (maxSize : Nat) : Block P := { entries := [], size := 0, maxSize }

def entrySize (codec : Codec P) (vector : Vector P) : Nat :=
  8 + 4 + vector.data.length * 4 +
    vector.payload.elim 0 fun p => (codec.payloadToVec p).length

/-- `none` when the block is full; a first entry always fits. -/
def add (codec : Codec P) (b : Block P) (id : VectorId) (vector : Vector P) : Option (Block P) :=
  let size := entrySize codec vector
  if b.size + size > b.maxSize ∧ b.entries ≠ [] then none
  else some { b with entries := b.entries ++ [(id, vector)], size := b.size + size }

def encodeEntry (codec : Codec P) (entry : VectorId × Vector P) : List UInt8 :=
  leBytes 8 entry.1 ++ leBytes 4 entry.2.data.length ++
    entry.2.data.flatMap (fun x => leBytes 4 x.toNat) ++
    match entry.2.payload with
    | some p =>
      let payloadBytes := codec.payloadToVec p
      leBytes 4 payloadBytes.length ++ payloadBytes
    | none => leBytes 4 0

/-- No compression is implemented: every kind leaves the data as it is. -/
def encode (codec : Codec P) (b : Block P) : List UInt8 :=
  leBytes 4 b.entries.length ++ b.entries.flatMap (encodeEntry codec)

end Block

structure IndexEntry where
  key : VectorId
  offset : Nat
  size : Nat
  deriving DecidableEq, Repr

/-! ## Writing -/

structure SSTableBuilder (P : Type) where
  file : List UInt8
  block : Block P
  index : List IndexEntry
  metadata : SSTableMeta
  entryCount : Nat
  firstKey : Option VectorId
  position : Nat

def encodeIndex (index : List IndexEntry) : List UInt8 :=
  leBytes 4 index.length ++
    index.flatMap fun entry => leBytes 8 entry.key ++ leBytes 8 entry.offset ++ leBytes 4 entry.size

structure Footer where
  indexOffset : Nat
  indexSize : Nat
  metaOffset : Nat

def Footer.encode (f : Footer) : List UInt8 :=
  leBytes 8 f.indexOffset ++ leBytes 8 f.indexSize ++ leBytes 8 f.metaOffset

def Footer.decode (data : List UInt8) : Except RTDBError Footer :=
  if data.length < 24 then .error (.storage "Invalid footer")
  else
    .ok
      { indexOffset := leNat (data.take 8)
        indexSize := leNat ((data.drop 8).take 8)
        metaOffset := leNat ((data.drop 16).take 8) }

namespace SSTableBuilder

def create (dimension : Nat) (compression : CompressionType) (blockSize level : Nat) :
    SSTableBuilder P where
  file := []
  block := Block.new blockSize
  index := []
  metadata :=
    { version := sstableVersion, dimension, entryCount := 0, minId := 2 ^ 64 - 1, maxId := 0,
      compression, blockSize, level }
  entryCount := 0
  firstKey := none
  position := 0

def flushBlock (codec : Codec P) (b : SSTableBuilder P) : SSTableBuilder P :=
  if b.block.entries = [] then b
  else
    let written : SSTableBuilder P :=
      match b.firstKey with
      | none => b
      | some firstKey =>
        let blockData := b.block.encode codec
        { b with
          index := b.index ++
            [{ key := firstKey, offset := b.position, size := blockData.length % 2 ^ 32 }]
          file := b.file ++ blockData
          position := b.position + blockData.length }
    { written with block := Block.new b.metadata.blockSize, firstKey := none }

def add (codec : Codec P) (b : SSTableBuilder P) (id : VectorId) (vector : Vector P) :
    SSTableBuilder P :=
  let b := { b with firstKey := some (b.firstKey.getD id) }
  let b :=
    match b.block.add codec id vector with
    | some block => { b with block }
    | none =>
      let b := b.flushBlock codec
      { b with
        block := (b.block.add codec id vector).getD b.block
        firstKey := some id }
  { b with
    metadata := { b.metadata with
      minId := min b.metadata.minId id
      maxId := max b.metadata.maxId id }
    entryCount := b.entryCount + 1 }

def finish (codec : Codec P) (b : SSTableBuilder P) : List UInt8 :=
  let b := b.flushBlock codec
  let indexData := encodeIndex b.index
  let metaBytes := codec.metaToVec { b.metadata with entryCount := b.entryCount }
  let footer : Footer :=
    { indexOffset := b.position, indexSize := indexData.length,
      metaOffset := b.position + indexData.length }
  b.file ++ indexData ++ metaBytes ++ footer.encode ++ leBytes 4 sstableMagic ++
    leBytes 4 sstableVersion

/-- Create, add every entry, finish. -/
def build (codec : Codec P) (dimension blockSize level : Nat)
    (entries : List (VectorId × Vector P)) : List UInt8 :=
  (entries.foldl (fun b entry => b.add codec entry.1 entry.2)
    (create dimension .none blockSize level)).finish codec

end SSTableBuilder

/-! ## Reading -/

/-- The place of a table file: level directory and time stamp. -/
structure Path where
  level : Nat
  timestamp : Nat
  deriving DecidableEq, Repr

structure SSTable where
  metadata : SSTableMeta
  index : List IndexEntry
  path : Path
  deriving DecidableEq, Repr

def noSuchFile : RTDBError := .storage "No such file or directory (os error 2)"

/-- Seek to an offset from the start, make a buffer, and read exactly `size`
bytes into it. -/
def readAt (file : List UInt8) (offset size : Nat) : Except RTDBError (List UInt8) :=
  if offset ≥ 2 ^ 63 then .error (.storage "Invalid argument (os error 22)")
  else if size ≥ 2 ^ 63 then .error (.panic "capacity overflow")
  else if size = 0 then .ok []
  else if offset + size ≤ file.length then .ok ((file.drop offset).take size)
  else .error (.storage "failed to fill whole buffer")

/-- As `readAt`, from `distance` bytes before the end. -/
def readFromEnd (file : List UInt8) (distance size : Nat) : Except RTDBError (List UInt8) :=
  if file.length < distance then .error (.storage "Invalid argument (os error 22)")
  else readAt file (file.length - distance) size

/-- The loop of `decode_index`: it checks for sixteen bytes and takes twenty. -/
def decodeIndexEntries : Nat → List UInt8 → Except RTDBError (List IndexEntry)
  | 0, _ => .ok []
  | count + 1, data =>
    if data.length < 16 then .ok []
    else if data.length < 20 then
      .error (.panic "index out of bounds")
    else
      (decodeIndexEntries count (data.drop 20)).map
        ({ key := leNat (data.take 8), offset := leNat ((data.drop 8).take 8),
           size := leNat ((data.drop 16).take 4) } :: ·)

def decodeIndex (data : List UInt8) : Except RTDBError (List IndexEntry) :=
  if data.length < 4 then .ok []
  else decodeIndexEntries (leNat (data.take 4)) (data.drop 4)

def decodeComponents : Nat → List UInt8 → List UInt32
  | 0, _ => []
  | dim + 1, data => UInt32.ofNat (leNat (data.take 4)) :: decodeComponents dim (data.drop 4)

/-- The loop of `decode_block`: it stops where an entry is cut off. -/
def decodeEntries (codec : Codec P) :
    Nat → List UInt8 → Except RTDBError (List (VectorId × Vector P))
  | 0, _ => .ok []
  | count + 1, data =>
    if data.length < 8 then .ok []
    else if data.length < 12 then .ok []
    else
      let id := leNat (data.take 8)
      let dim := leNat ((data.drop 8).take 4)
      let data := data.drop 12
      if data.length < dim * 4 then .ok []
      else if (data.drop (dim * 4)).length < 4 then .ok []
      else
        let vectorData := decodeComponents dim data
        let payloadLen := leNat ((data.drop (dim * 4)).take 4)
        let rest := data.drop (dim * 4 + 4)
        if payloadLen > 0 then
          if rest.length < payloadLen then .ok []
          else
            match codec.payloadFromSlice (rest.take payloadLen) with
            | .error e => .error (.serialization e)
            | .ok payload =>
              (decodeEntries codec count (rest.drop payloadLen)).map
                ((id, { data := vectorData, payload }) :: ·)
        else
          (decodeEntries codec count rest).map
            ((id, { data := vectorData, payload := none }) :: ·)

def decodeBlock (codec : Codec P) (data : List UInt8) :
    Except RTDBError (List (VectorId × Vector P)) :=
  if data.length < 4 then .ok []
  else decodeEntries codec (leNat (data.take 4)) (data.drop 4)

namespace SSTable

/-- `SSTable::open` on the bytes of the file at `path`. -/
def openFile (codec : Codec P) (path : Path) (file : List UInt8) : Except RTDBError SSTable :=
  match readFromEnd file 8 8 with
  | .error e => .error e
  | .ok trailer =>
    let magic := leNat (trailer.take 4)
    let version := leNat (trailer.drop 4)
    if magic ≠ sstableMagic then
      .error (.storage ("Invalid SSTable magic: " ++ toString magic))
    else if version ≠ sstableVersion then
      .error (.storage ("Unsupported version: " ++ toString version))
    else
      match readFromEnd file 32 24 with
      | .error e => .error e
      | .ok footerBuf =>
        match Footer.decode footerBuf with
        | .error e => .error e
        | .ok footer =>
          let metaEnd := file.length - 32
          if metaEnd ≤ footer.metaOffset then
            .error (.storage ("Invalid meta_offset: " ++ toString footer.metaOffset ++ " >= " ++
              toString metaEnd))
          else
            match readAt file footer.metaOffset (metaEnd - footer.metaOffset) with
            | .error e => .error e
            | .ok metaBuf =>
              match codec.metaFromSlice metaBuf with
              | .error e => .error (.serialization e)
              | .ok metadata =>
                match readAt file footer.indexOffset footer.indexSize with
                | .error e => .error e
                | .ok indexBuf =>
                  match decodeIndex indexBuf with
                  | .error e => .error e
                  | .ok index => .ok { metadata, index, path }

/-- The binary search of `find_block`, on at most `fuel` rounds; the interval
shrinks in each, so the length of the index is enough. -/
def findBlockLoop (index : List IndexEntry) (key : VectorId) : Nat → Nat → Nat → Nat
  | 0, low, _ => low
  | fuel + 1, low, high =>
    if low < high then
      let mid := (low + high) / 2
      match index[mid]? with
      | none => low
      | some entry =>
        if entry.key ≤ key then findBlockLoop index key fuel (mid + 1) high
        else findBlockLoop index key fuel low mid
    else low

def findBlock (t : SSTable) (key : VectorId) : Nat :=
  findBlockLoop t.index key t.index.length 0 t.index.length - 1

/-- `load_block_read`: it opens the table's file again, as it is now. -/
def loadBlock (codec : Codec P) (file : Option (List UInt8)) (entry : IndexEntry) :
    Except RTDBError (List (VectorId × Vector P)) :=
  match file with
  | none => .error noSuchFile
  | some file =>
    match readAt file entry.offset entry.size with
    | .error e => .error e
    | .ok data => decodeBlock codec data

def get (codec : Codec P) (t : SSTable) (file : Option (List UInt8)) (id : VectorId) :
    Except RTDBError (Option (Vector P)) :=
  if id < t.metadata.minId ∨ id > t.metadata.maxId then .ok none
  else
    match t.index[t.findBlock id]? with
    | none => .ok none
    | some entry =>
      match loadBlock codec file entry with
      | .error e => .error e
      | .ok block => .ok ((block.find? fun kv => kv.1 = id).map Prod.snd)

/-- The blocks of an index from the starting block on, up to the first entry
behind `stop`. -/
def scanBlocks (codec : Codec P) (file : Option (List UInt8)) (start stop : VectorId) :
    List IndexEntry → Except RTDBError (List (VectorId × Vector P))
  | [] => .ok []
  | entry :: rest =>
    match loadBlock codec file entry with
    | .error e => .error e
    | .ok block =>
      let results := (block.takeWhile fun kv => kv.1 ≤ stop).filter fun kv => kv.1 ≥ start
      if block.any fun kv => kv.1 > stop then .ok results
      else (scanBlocks codec file start stop rest).map (results ++ ·)

def scan (codec : Codec P) (t : SSTable) (file : Option (List UInt8))
    (start stop : Option VectorId) :
    Except RTDBError (List (VectorId × Vector P)) :=
  let start := start.getD t.metadata.minId
  let stop := stop.getD t.metadata.maxId
  scanBlocks codec file start stop (t.index.drop (t.findBlock start))

def mayContain (t : SSTable) (id : VectorId) : Bool :=
  id ≥ t.metadata.minId && id ≤ t.metadata.maxId

end SSTable

end Storage
end RTDB
