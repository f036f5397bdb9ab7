import RTDB.Lib.Layers
import RTDB.Storage.MemTable
import RTDB.Storage.SSTable
import RTDB.Storage.Wal

/-!
# The storage engine

`storage/engine.rs`.  An engine works on a directory of table files and starts
background tasks that write memtables there; both outlive it.  Clocks are
inputs: a call that takes the time has it as an argument.  `flush` has no model:
it locks the handle, calls `trigger_flush`, which locks it again, and never
returns.
-/

namespace RTDB
namespace Storage

variable {P : Type}

structure StorageConfig where
  walSegmentSize : Nat
  memtableSizeThreshold : Nat
  blockSize : Nat
  deriving DecidableEq, Repr

abbrev Files := Nat → Std.TreeMap Nat (List UInt8)

def Files.write (files : Files) (path : Path) (bytes : List UInt8) : Files :=
  Function.update files path.level ((files path.level).insert path.timestamp bytes)

def Files.read (files : Files) (path : Path) : Option (List UInt8) :=
  (files path.level)[path.timestamp]?

theorem Files.read_write_self (files : Files) (path : Path) (bytes : List UInt8) :
    (files.write path bytes).read path = some bytes := by
  rw [Files.read, Files.write, Function.update_self, Std.TreeMap.getElem?_insert_self]

theorem Files.read_write_ne (files : Files) {path path' : Path} (bytes : List UInt8)
    (hpath : path' ≠ path) : (files.write path bytes).read path' = files.read path' := by
  obtain ⟨level, timestamp⟩ := path
  obtain ⟨level', timestamp'⟩ := path'
  rw [Files.read, Files.read, Files.write]
  by_cases hlevel : level' = level
  · subst hlevel
    have htimestamp : timestamp ≠ timestamp' := fun heq => hpath (by rw [heq])
    rw [Function.update_self, Std.TreeMap.getElem?_insert]
    simp [htimestamp]
  · rw [Function.update_of_ne hlevel]

structure StorageEngine (P : Type) where
  config : StorageConfig
  wal : WAL
  memtable : MemTable P
  immutable : List (MemTable P)
  levels : List (List SSTable)
  vectorCount : Nat
  flushHandle : Bool

/-- A spawned flush: its copy of the configuration and what it has not written. -/
structure FlushTask (P : Type) where
  config : StorageConfig
  immutable : List (MemTable P)

structure System (P : Type) where
  engine : StorageEngine P
  files : Files
  tasks : List (FlushTask P)

/-! ## Opening -/

/-- The loop of `recover` over the entries of the log. -/
def recoverEntries (codec : Codec P) (memtable : MemTable P) :
    List WALEntry → Except RTDBError (MemTable P)
  | [] => .ok memtable
  | entry :: entries =>
    match codec.fromSlice entry.data with
    | .error e => .error (.serialization e)
    | .ok (.put id vector _) =>
      match memtable.put codec id vector with
      | (_, .error e) => .error e
      | (memtable, .ok ()) => recoverEntries codec memtable entries
    | .ok (.delete id _) => recoverEntries codec (memtable.delete codec id) entries

def recover (codec : Codec P) (crc32c : List UInt8 → UInt32) (wal : WAL) (memtable : MemTable P) :
    Except RTDBError (MemTable P) :=
  match wal.readEntries crc32c with
  | .error e => .error e
  | .ok entries => recoverEntries codec memtable entries

/-- The tables of one level, in the order of their names.  A file that does not
open is skipped with a warning. -/
def loadLevel (codec : Codec P) (level : Nat) :
    List (Nat × List UInt8) → Except RTDBError (List SSTable)
  | [] => .ok []
  | (timestamp, bytes) :: rest =>
    match SSTable.openFile codec { level, timestamp } bytes with
    | .ok table => (loadLevel codec level rest).map (table :: ·)
    | .error (.panic msg) => .error (.panic msg)
    | .error _ => loadLevel codec level rest

def loadSstables (codec : Codec P) (files : Files) : Except RTDBError (List (List SSTable)) :=
  (List.range 7).mapM fun level => loadLevel codec level (files level).toList

def StorageEngine.openAt (codec : Codec P) (crc32c : List UInt8 → UInt32) (config : StorageConfig)
    (walDir : WalDir) (files : Files) : Except RTDBError (StorageEngine P) :=
  let wal := WAL.openAt walDir config.walSegmentSize
  match recover codec crc32c wal (MemTable.new config.memtableSizeThreshold) with
  | .error e => .error e
  | .ok memtable =>
    match loadSstables codec files with
    | .error e => .error e
    | .ok levels =>
      .ok
        { config, wal, memtable, immutable := [], levels
          vectorCount :=
            levels.flatten.foldl (fun count table => wrappingAdd count table.metadata.entryCount) 0
          flushHandle := false }

/-- An engine opened in an empty directory. -/
def System.create (config : StorageConfig) : System P where
  engine :=
    { config, wal := WAL.openAt ∅ config.walSegmentSize
      memtable := MemTable.new config.memtableSizeThreshold, immutable := []
      levels := List.replicate 7 [], vectorCount := 0, flushHandle := false }
  files := fun _ => ∅
  tasks := []

def sampleConfig (memtableSizeThreshold : Nat) : StorageConfig :=
  { walSegmentSize := 2 ^ 26, memtableSizeThreshold, blockSize := 4096 }

theorem System.create_openAt (codec : Codec P) (crc32c : List UInt8 → UInt32)
    (config : StorageConfig) :
    StorageEngine.openAt codec crc32c config ∅ (fun _ => ∅) =
      .ok (System.create config : System P).engine := by
  have hread : (WAL.openAt ∅ config.walSegmentSize).readEntries crc32c = .ok [] := rfl
  have hload : loadSstables codec (fun _ => ∅) = .ok (List.replicate 7 []) := rfl
  rw [StorageEngine.openAt, recover, hread, hload]
  rfl

/-! ## Reading -/

/-- The tables in the order in which they are asked: level by level, the newest
of a level first. -/
def searchOrder (levels : List (List SSTable)) : List SSTable := levels.flatMap List.reverse

namespace StorageEngine

def tables (e : StorageEngine P) : List SSTable := searchOrder e.levels

/-- The entry of the first queued memtable that has one. -/
def queued (e : StorageEngine P) (id : VectorId) : Option (MemTableEntry P) :=
  e.immutable.findSome? fun memtable => memtable.get id

def getFromMemtables (e : StorageEngine P) (id : VectorId) : Option (Vector P) :=
  match e.memtable.get id with
  | some (.put v) => some v
  | some .delete => none
  | none =>
    match e.queued id with
    | some (.put v) => some v
    | some .delete => none
    | none => none

/-- `SSTable::open(path)?.get(id)`: the table as its file is now. -/
def getFromFile (codec : Codec P) (files : Files) (path : Path) (id : VectorId) :
    Except RTDBError (Option (Vector P)) :=
  match files.read path with
  | none => .error noSuchFile
  | some bytes =>
    match SSTable.openFile codec path bytes with
    | .error err => .error err
    | .ok table => table.get codec (some bytes) id

/-- The first table whose range covers the id decides. -/
def getFromSstables (codec : Codec P) (files : Files) (e : StorageEngine P) (id : VectorId) :
    Except RTDBError (Option (Vector P)) :=
  match e.tables.find? fun table => table.mayContain id with
  | none => .ok none
  | some table => getFromFile codec files table.path id

/-- `SSTable::open(path)?.scan(start, end)`. -/
def scanFile (codec : Codec P) (files : Files) (start stop : Option VectorId) (path : Path) :
    Except RTDBError (List (VectorId × Vector P)) :=
  match files.read path with
  | none => .error noSuchFile
  | some bytes =>
    match SSTable.openFile codec path bytes with
    | .error err => .error err
    | .ok table => table.scan codec (some bytes) start stop

def inRange (id : VectorId) (start stop : Option VectorId) : Bool :=
  match start, stop with
  | some s, some e => id ≥ s && id ≤ e
  | some s, none => id ≥ s
  | none, some e => id ≤ e
  | none, none => true

/-- One round of the first loop of `scan`: the vectors in the bounds, and the
deleted ids. -/
def scanEntry (start stop : Option VectorId)
    (found : Std.TreeMap VectorId (Vector P) × List VectorId)
    (kv : VectorId × MemTableEntry P) : Std.TreeMap VectorId (Vector P) × List VectorId :=
  match kv.2 with
  | .put v => (if inRange kv.1 start stop then found.1.insert kv.1 v else found.1, found.2)
  | .delete => (found.1, kv.1 :: found.2)

def scanMemtable (memtable : MemTable P) (start stop : Option VectorId) :
    Std.TreeMap VectorId (Vector P) × List VectorId :=
  memtable.entries.toList.foldl (scanEntry start stop) (∅, [])

/-- The second loop. -/
def scanTables (codec : Codec P) (files : Files) (deleted : List VectorId)
    (start stop : Option VectorId) (results : Std.TreeMap VectorId (Vector P)) :
    List SSTable → Except RTDBError (Std.TreeMap VectorId (Vector P))
  | [] => .ok results
  | table :: rest =>
    match scanFile codec files start stop table.path with
    | .error e => .error e
    | .ok entries =>
      scanTables codec files deleted start stop
        (Layers.fill (fun id => deleted.contains id) results entries) rest

end StorageEngine

namespace System

/-- The queue of immutable memtables is not looked at.  The results are kept in
the order of their ids, into which the source sorts them at the end. -/
def scan (codec : Codec P) (s : System P) (start stop : Option VectorId) :
    Except RTDBError (List (VectorId × Vector P)) :=
  let (results, deleted) := StorageEngine.scanMemtable s.engine.memtable start stop
  (StorageEngine.scanTables codec s.files deleted start stop results s.engine.tables).map
    Std.TreeMap.toList

def get (codec : Codec P) (s : System P) (id : VectorId) : Except RTDBError (Option (Vector P)) :=
  match s.engine.getFromMemtables id with
  | some vector => .ok (some vector)
  | none => s.engine.getFromSstables codec s.files id

/-! ## Rotation and flushing -/

/-- `maybe_flush`, second step: an empty memtable takes the place of the active
one. -/
def swap (s : System P) : System P :=
  { s with
    engine := { s.engine with memtable := MemTable.new s.engine.config.memtableSizeThreshold } }

/-- Third step: a memtable joins the queue. -/
def push (s : System P) (memtable : MemTable P) : System P :=
  { s with engine := { s.engine with immutable := s.engine.immutable ++ [memtable] } }

/-- Fourth step: the queue goes to a task, unless one was ever started; the
handle is never cleared. -/
def triggerFlush (s : System P) : System P :=
  if s.engine.flushHandle then s
  else
    { s with
      engine := { s.engine with immutable := [], flushHandle := true }
      tasks := s.tasks ++ [{ config := s.engine.config, immutable := s.engine.immutable }] }

def maybeFlush (s : System P) : System P :=
  if s.engine.memtable.shouldFlush then (s.swap.push s.engine.memtable).triggerFlush else s

/-- The bytes that `flush_memtable` writes: vectors only, no tombstones. -/
def flushedTable (codec : Codec P) (config : StorageConfig) (memtable : MemTable P) : List UInt8 :=
  SSTableBuilder.build codec 0 config.blockSize 0 memtable.puts

def flushMemtable (codec : Codec P) (s : System P) (config : StorageConfig)
    (memtable : MemTable P) (timestamp : Nat) : System P :=
  { s with
    files := s.files.write { level := 0, timestamp } (flushedTable codec config memtable) }

/-- The `k`-th task writes its next memtable. -/
def runTask (codec : Codec P) (s : System P) (k timestamp : Nat) : System P :=
  match s.tasks[k]? with
  | some { config, immutable := memtable :: rest } =>
    { s.flushMemtable codec config memtable timestamp with
      tasks := s.tasks.set k { config, immutable := rest } }
  | _ => s

/-! ## Writing -/

/-- The log part of `put` and `delete`. -/
def log (codec : Codec P) (crc32c : List UInt8 → UInt32) (s : System P) (record : Record P) :
    Except RTDBError (System P) :=
  match codec.toVec record with
  | .error e => .error (.serialization e)
  | .ok data =>
    match s.engine.wal.append crc32c data with
    | .error e => .error e
    | .ok (wal, _) => .ok { s with engine := { s.engine with wal } }

def put (codec : Codec P) (crc32c : List UInt8 → UInt32) (s : System P) (id : VectorId)
    (vector : Vector P) (timestamp : Nat) : System P × Except RTDBError Unit :=
  match s.log codec crc32c (.put id vector timestamp) with
  | .error e => (s, .error e)
  | .ok s =>
    match s.engine.memtable.put codec id vector with
    | (memtable, .error e) => ({ s with engine := { s.engine with memtable } }, .error e)
    | (memtable, .ok ()) =>
      let s := maybeFlush { s with engine := { s.engine with memtable } }
      ({ s with
          engine := { s.engine with vectorCount := wrappingAdd s.engine.vectorCount 1 } }, .ok ())

def delete (codec : Codec P) (crc32c : List UInt8 → UInt32) (s : System P) (id : VectorId)
    (timestamp : Nat) : System P × Except RTDBError Unit :=
  match s.log codec crc32c (.delete id timestamp) with
  | .error e => (s, .error e)
  | .ok s =>
    (maybeFlush
      { s with engine := { s.engine with memtable := s.engine.memtable.delete codec id } }, .ok ())

/-! ## Compaction -/

/-- The entries of the tables in one map, later tables over earlier ones. -/
def mergeEntries (codec : Codec P) (files : Files) (merged : Std.TreeMap VectorId (Vector P)) :
    List SSTable → Except RTDBError (Std.TreeMap VectorId (Vector P))
  | [] => .ok merged
  | table :: rest =>
    match table.scan codec (files.read table.path) none none with
    | .error e => .error e
    | .ok entries =>
      mergeEntries codec files (entries.foldl (fun m kv => m.insert kv.1 kv.2) merged) rest

def mergeSstables (codec : Codec P) (files : Files) (sstables : List SSTable) (path : Path) :
    Except RTDBError Files :=
  match mergeEntries codec files ∅ sstables with
  | .error e => .error e
  | .ok merged =>
    match merged.toList with
    | [] => .ok files
    | (id, vector) :: rest =>
      .ok (files.write path
        (SSTableBuilder.build codec vector.data.length 4096 path.level ((id, vector) :: rest)))

/-- `compact_level`.  The inputs are drained from the level first, and stay
drained when merging fails; their files stay in any case. -/
def compactLevel (codec : Codec P) (s : System P) (level timestamp : Nat) :
    System P × Except RTDBError Unit :=
  if level ≥ 6 then (s, .ok ())
  else
    match s.engine.levels[level]? with
    | none => (s, .ok ())
    | some sstables =>
      if sstables.length < 4 then (s, .ok ())
      else
        let drained :=
          { s.engine with levels := s.engine.levels.set level (sstables.drop 4) }
        match mergeSstables codec s.files (sstables.take 4) { level := level + 1, timestamp } with
        | .error e => ({ s with engine := drained }, .error e)
        | .ok files =>
          match loadSstables codec files with
          | .error e => ({ s with engine := drained, files }, .error e)
          | .ok levels => ({ s with engine := { s.engine with levels }, files }, .ok ())

end System

end Storage
end RTDB
