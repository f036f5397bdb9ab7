import RTDB.Lib.Runs
import RTDB.Storage.Replay
import RTDB.Storage.Rotation
import RTDB.Storage.TableFile

/-!
# Runs of an engine

A session is an engine with its directory and background tasks, the last
successful write to each id, and the records its log took.  It starts in an
empty directory and goes on through calls, flushes, compactions and reopenings
in any order.
-/

namespace RTDB
namespace Storage

open History Runs

variable {P : Type}

structure Session (P : Type) where
  system : System P
  last : VectorId → Option (Option (Vector P))
  logged : List (Record P × List UInt8)

inductive Event (P : Type) where
  /-- A `put` or a `delete`, given as the record it logs. -/
  | write (record : Record P)
  | flush (task timestamp : Nat)
  | compactLevel (level timestamp : Nat)
  /-- The engine is dropped; its tasks run on, unless the process dies. -/
  | reopen (config : StorageConfig) (crash : Bool)

def System.write (codec : Codec P) (crc : List UInt8 → UInt32) (s : System P) :
    Record P → System P × Except RTDBError Unit
  | .put id vector timestamp => s.put codec crc id vector timestamp
  | .delete id timestamp => s.delete codec crc id timestamp

/-- The record with its text, if the log takes it. -/
def accepted (codec : Codec P) (record : Record P) : List (Record P × List UInt8) :=
  match codec.toVec record with
  | .ok data => if data.length ≤ maxRecordSize then [(record, data)] else []
  | .error _ => []

namespace Session

def create (config : StorageConfig) : Session P :=
  { system := System.create config, last := fun _ => none, logged := [] }

def write (codec : Codec P) (crc : List UInt8 → UInt32) (s : Session P) (record : Record P) :
    Session P :=
  let (system, result) := s.system.write codec crc record
  { system
    last :=
      match result with
      | .ok () => Function.update s.last record.id (some record.outcome)
      | .error _ => s.last
    logged := s.logged ++ accepted codec record }

def step (codec : Codec P) (crc : List UInt8 → UInt32) (s : Session P) :
    Event P → Option (Session P)
  | .write record => some (s.write codec crc record)
  | .flush task timestamp => some { s with system := s.system.runTask codec task timestamp }
  | .compactLevel level timestamp =>
    some { s with system := (s.system.compactLevel codec level timestamp).1 }
  | .reopen config crash =>
    match StorageEngine.openAt codec crc config s.system.engine.wal.dir s.system.files with
    | .error _ => none
    | .ok engine =>
      some { s with system :=
        { s.system with engine, tasks := if crash then [] else s.system.tasks } }

def run (codec : Codec P) (crc : List UInt8 → UInt32) (config : StorageConfig)
    (events : List (Event P)) : Option (Session P) :=
  events.foldlM (step codec crc) (create config)

theorem run_concat (codec : Codec P) (crc : List UInt8 → UInt32) (config : StorageConfig)
    (events : List (Event P)) (event : Event P) :
    run codec crc config (events ++ [event]) =
      (run codec crc config events).bind fun s => s.step codec crc event := by
  rw [run, List.foldlM_append]
  simp only [List.foldlM_cons, List.foldlM_nil, bind_pure]
  rfl

end Session

/-! ## What a call does -/

/-- The active memtable after a call that the log took. -/
def written (codec : Codec P) (m : MemTable P) : Record P → MemTable P
  | .put id vector _ => (m.put codec id vector).1
  | .delete id _ => m.delete codec id

def Refused (m : MemTable P) (record : Record P) : Prop :=
  record.outcome ≠ none ∧ m.get record.id = some .delete

theorem get_written_refused {codec : Codec P} {m : MemTable P} {record : Record P}
    (hrefused : Refused m record) (id : VectorId) :
    (written codec m record).get id = if record.id = id then none else m.get id := by
  cases record with
  | put id' vector timestamp =>
    have hget : m.get id' = some .delete := hrefused.2
    rw [written, MemTable.put_refused codec vector hget]
    exact MemTable.get_erase m id' id
  | delete id' timestamp => exact absurd rfl hrefused.1

theorem get_written {codec : Codec P} {m : MemTable P} {record : Record P}
    (haccepted : ¬ Refused m record) (id : VectorId) :
    (written codec m record).get id =
      if record.id = id then some (MemTableEntry.ofOutcome record.outcome) else m.get id := by
  cases record with
  | put id' vector timestamp =>
    have hget : m.get id' ≠ some .delete :=
      fun htomb => haccepted ⟨Option.some_ne_none vector, htomb⟩
    obtain ⟨m', hput, hget'⟩ := MemTable.put_accepted codec vector hget
    rw [written, hput]
    exact hget' id
  | delete id' timestamp => exact MemTable.get_delete codec m id' id

def System.within (s : System P) (wal : WAL) (memtable : MemTable P) : System P :=
  { s with engine := { s.engine with wal, memtable } }

/-- A call is turned away by the log, refused by the memtable, or goes through to
the flush check. -/
inductive Call (codec : Codec P) (crc : List UInt8 → UInt32) (s : System P) (record : Record P) :
    System P × Except RTDBError Unit → Prop
  | unlogged (e : RTDBError) (hnone : accepted codec record = []) :
    Call codec crc s record (s, .error e)
  | refused (wal : WAL) (data : List UInt8) (e : RTDBError)
      (hdata : accepted codec record = [(record, data)])
      (hlog : ∀ ds, Holds crc s.engine.wal ds → Holds crc wal (ds ++ [data]))
      (hrefused : Refused s.engine.memtable record) :
    Call codec crc s record (s.within wal (written codec s.engine.memtable record), .error e)
  | done (wal : WAL) (data : List UInt8) (count : Nat)
      (hdata : accepted codec record = [(record, data)])
      (hlog : ∀ ds, Holds crc s.engine.wal ds → Holds crc wal (ds ++ [data]))
      (haccepted : ¬ Refused s.engine.memtable record) (t : System P)
      (ht : t = (s.within wal (written codec s.engine.memtable record)).maybeFlush) :
    Call codec crc s record
      ({ t with engine := { t.engine with vectorCount := count } }, .ok ())

theorem log_cases (codec : Codec P) (crc : List UInt8 → UInt32) (s : System P)
    (record : Record P) :
    (accepted codec record = [] ∧ ∃ e, s.log codec crc record = .error e) ∨
      ∃ wal data, accepted codec record = [(record, data)] ∧
        (∀ ds, Holds crc s.engine.wal ds → Holds crc wal (ds ++ [data])) ∧
        s.log codec crc record = .ok { s with engine := { s.engine with wal } } := by
  rw [accepted, System.log]
  cases codec.toVec record with
  | error e => exact Or.inl ⟨rfl, _, rfl⟩
  | ok data =>
    by_cases hsize : data.length ≤ maxRecordSize
    · obtain ⟨wal, position, happend⟩ := append_ok crc s.engine.wal hsize
      refine Or.inr ⟨wal, data, if_pos hsize, fun ds hds => (append_holds hds happend).1, ?_⟩
      simp only [happend]
    · refine Or.inl ⟨if_neg hsize, ?_⟩
      simp only [append_too_large hsize]
      exact ⟨_, rfl⟩

theorem write_call (codec : Codec P) (crc : List UInt8 → UInt32) (s : System P)
    (record : Record P) : Call codec crc s record (s.write codec crc record) := by
  rcases log_cases codec crc s record with ⟨hnone, e, hlog⟩ | ⟨wal, data, hdata, hholds, hlog⟩
  · cases record with
    | put id vector timestamp =>
      rw [System.write, System.put, hlog]
      exact .unlogged e hnone
    | delete id timestamp =>
      rw [System.write, System.delete, hlog]
      exact .unlogged e hnone
  · cases record with
    | delete id timestamp =>
      rw [System.write, System.delete, hlog]
      exact .done wal data _ hdata hholds (fun hrefused => hrefused.1 rfl) _ rfl
    | put id vector timestamp =>
      rw [System.write, System.put, hlog]
      by_cases hget : s.engine.memtable.get id = some .delete
      · have hput := MemTable.put_refused codec vector hget
        have hcall := Call.refused (s := s) wal data (.storage "Unexpected delete entry") hdata
          hholds ⟨Option.some_ne_none vector, hget⟩
        rw [written, hput] at hcall
        simp only [hput]
        exact hcall
      · obtain ⟨m', hput, -⟩ := MemTable.put_accepted codec vector hget
        have hcall := Call.done (s := s) wal data
          (wrappingAdd ((s.within wal m').maybeFlush).engine.vectorCount 1) hdata hholds
          (fun hrefused => hget hrefused.2) _ rfl
        rw [written, hput] at hcall
        simp only [hput]
        exact hcall

/-! ## What the flush check does -/

section MaybeFlush

variable (s : System P)

/-- The files, the log and the tables stay; the active memtable stays or is new. -/
theorem maybeFlush_frame :
    s.maybeFlush.files = s.files ∧ s.maybeFlush.engine.wal = s.engine.wal ∧
      s.maybeFlush.engine.levels = s.engine.levels ∧
      (s.maybeFlush.engine.memtable = s.engine.memtable ∨
        s.maybeFlush.engine.memtable = MemTable.new s.engine.config.memtableSizeThreshold) := by
  rw [System.maybeFlush]
  split
  · rw [System.triggerFlush]
    split
    · exact ⟨rfl, rfl, rfl, Or.inr rfl⟩
    · exact ⟨rfl, rfl, rfl, Or.inr rfl⟩
  · exact ⟨rfl, rfl, rfl, Or.inl rfl⟩

theorem fromTables_maybeFlush (codec : Codec P) (id : VectorId) :
    s.maybeFlush.fromTables codec id = s.fromTables codec id := by
  obtain ⟨hfiles, -, hlevels, -⟩ := maybeFlush_frame s
  rw [System.fromTables, StorageEngine.getFromSstables, StorageEngine.tables, hlevels, hfiles]
  rfl

/-- A rotation turns the read order around: what was active comes last, or is
gone to a task together with the queue. -/
theorem entry_maybeFlush (id : VectorId) :
    s.maybeFlush.entry id =
      if s.engine.memtable.shouldFlush then
        if s.engine.flushHandle then (s.engine.queued id).or (s.engine.memtable.get id) else none
      else s.entry id := by
  rw [System.maybeFlush]
  split
  · cases hhandle : s.engine.flushHandle with
    | true =>
      rw [System.triggerFlush, if_pos (show (s.swap.push s.engine.memtable).engine.flushHandle =
        true from hhandle), entry_push, entry_swap]
      rfl
    | false =>
      rw [entry_take _ _ (show (s.swap.push s.engine.memtable).engine.flushHandle =
        false from hhandle)]
      exact MemTable.get_new _ id
  · rfl

end MaybeFlush

/-! ## The invariant -/

theorem accepted_text {codec : Codec P} {record : Record P} {data : List UInt8}
    (hdata : accepted codec record = [(record, data)]) :
    codec.toVec record = .ok data ∧ data.length ≤ maxRecordSize := by
  rw [accepted] at hdata
  cases htext : codec.toVec record with
  | error e =>
    rw [htext] at hdata
    exact absurd hdata (by simp)
  | ok text =>
    simp only [htext] at hdata
    split at hdata
    · rename_i hsize
      obtain rfl : text = data := by simpa using hdata
      exact ⟨rfl, hsize⟩
    · exact absurd hdata (by simp)

theorem Logged.append {codec : Codec P} {crc : List UInt8 → UInt32} {wal wal' : WAL}
    {logged : List (Record P × List UInt8)} (hlog : Logged codec crc wal logged)
    {record : Record P} {data : List UInt8} (hdata : accepted codec record = [(record, data)])
    (hwal : ∀ ds, Holds crc wal ds → Holds crc wal' (ds ++ [data])) :
    Logged codec crc wal' (logged ++ accepted codec record) := by
  obtain ⟨htext, hsize⟩ := accepted_text hdata
  rw [hdata]
  refine ⟨?_, fun l hl => ?_, fun l hl => ?_⟩
  · rw [List.map_append]
    exact hwal _ hlog.holds
  · rcases List.mem_append.mp hl with hl | hl
    · exact hlog.sizes l hl
    · rw [List.mem_singleton.mp hl]
      exact hsize
  · rcases List.mem_append.mp hl with hl | hl
    · exact hlog.texts l hl
    · rw [List.mem_singleton.mp hl]
      exact htext

/-- An entry of the memtable is a tombstone just when the last successful write
to its id was a deletion. -/
def Agrees (m : MemTable P) (last : VectorId → Option (Option (Vector P))) : Prop :=
  ∀ id entry, m.get id = some entry → (entry = .delete ↔ last id = some none)

theorem agrees_new (sizeThreshold : Nat) (last : VectorId → Option (Option (Vector P))) :
    Agrees (MemTable.new sizeThreshold) last := by
  intro id entry hget
  rw [MemTable.get_new] at hget
  exact absurd hget (by simp)

theorem ofOutcome_eq_delete {outcome : Option (Vector P)} :
    MemTableEntry.ofOutcome outcome = .delete ↔ some outcome = some none := by
  cases outcome <;> simp [MemTableEntry.ofOutcome]

theorem Agrees.refused {codec : Codec P} {m : MemTable P}
    {last : VectorId → Option (Option (Vector P))} (hm : Agrees m last) {record : Record P}
    (hrefused : Refused m record) : Agrees (written codec m record) last := by
  intro id entry hget
  rw [get_written_refused hrefused] at hget
  split at hget
  · exact absurd hget (by simp)
  · exact hm id entry hget

theorem Agrees.written {m : MemTable P} {last : VectorId → Option (Option (Vector P))}
    (hm : Agrees m last) (codec : Codec P) {record : Record P}
    (haccepted : ¬ Refused m record) :
    Agrees (written codec m record)
      (Function.update last record.id (some record.outcome)) := by
  intro id entry hget
  rw [get_written haccepted] at hget
  by_cases hid : record.id = id
  · subst hid
    rw [if_pos rfl] at hget
    rw [Function.update_self, ← Option.some.inj hget]
    exact ofOutcome_eq_delete
  · rw [if_neg hid] at hget
    rw [Function.update_of_ne (Ne.symm hid)]
    exact hm id entry hget

structure Session.Sound (codec : Codec P) (crc : List UInt8 → UInt32) (s : Session P) : Prop where
  logged : Logged codec crc s.system.engine.wal s.logged
  loadable : Loadable codec s.system.files
  agrees : Agrees s.system.engine.memtable s.last
  deleted : ∀ id, s.last id = some none → (id, none) ∈ history s.logged
  steady : Steady (history s.logged) → ∀ id, s.last id = latest (history s.logged) id

namespace Session

theorem sound_create (codec : Codec P) (crc : List UInt8 → UInt32) (config : StorageConfig) :
    (create config : Session P).Sound codec crc where
  logged := ⟨openAt_empty crc config.walSegmentSize, fun l hl => absurd hl List.not_mem_nil,
    fun l hl => absurd hl List.not_mem_nil⟩
  loadable := loadable_empty codec
  agrees := agrees_new _ _
  deleted id hid := absurd hid (by simp [create])
  steady _ id := rfl

theorem history_append (logged : List (Record P × List UInt8)) {record : Record P}
    {data : List UInt8} :
    history (logged ++ [(record, data)]) = history logged ++ [(record.id, record.outcome)] := by
  rw [history, List.map_append]
  rfl

theorem Sound.write {codec : Codec P} {crc : List UInt8 → UInt32} {s : Session P}
    (hs : s.Sound codec crc) (record : Record P) : (s.write codec crc record).Sound codec crc := by
  have hcall := write_call codec crc s.system record
  rw [Session.write]
  generalize s.system.write codec crc record = outcome at hcall
  cases hcall with
  | unlogged e hnone =>
    rw [hnone, List.append_nil]
    exact hs
  | refused wal data e hdata hlog hrefused =>
    refine ⟨hs.logged.append hdata hlog, hs.loadable, hs.agrees.refused hrefused, ?_, ?_⟩
    · intro id hid
      rw [hdata, history_append]
      exact List.mem_append_left _ (hs.deleted id hid)
    · -- The log now has a vector after a deletion.
      rw [hdata, history_append]
      intro hsteady
      have hdeleted := (hs.agrees record.id .delete hrefused.2).mp rfl
      exact absurd (hs.deleted record.id hdeleted) ((steady_concat.mp hsteady).2 hrefused.1)
  | done wal data count hdata hlog haccepted t ht =>
    obtain ⟨hfiles, hwal, -, hmemtable⟩ := maybeFlush_frame
      (s.system.within wal (written codec s.system.engine.memtable record))
    rw [← ht] at hfiles hwal hmemtable
    refine ⟨?_, ?_, ?_, ?_, ?_⟩
    · show Logged codec crc t.engine.wal _
      rw [hwal]
      exact hs.logged.append hdata hlog
    · show Loadable codec t.files
      rw [hfiles]
      exact hs.loadable
    · show Agrees t.engine.memtable _
      rcases hmemtable with hsame | hnew
      · rw [hsame]
        exact hs.agrees.written codec haccepted
      · rw [hnew]
        exact agrees_new _ _
    · intro id hid
      replace hid : Function.update s.last record.id (some record.outcome) id = some none := hid
      rw [hdata, history_append]
      by_cases hrecord : id = record.id
      · subst hrecord
        rw [Function.update_self] at hid
        rw [Option.some.inj hid]
        exact List.mem_append_right _ List.mem_cons_self
      · rw [Function.update_of_ne hrecord] at hid
        exact List.mem_append_left _ (hs.deleted id hid)
    · rw [hdata, history_append]
      intro hsteady id
      show Function.update s.last record.id (some record.outcome) id = _
      rw [latest_concat, Function.update_apply, hs.steady (steady_concat.mp hsteady).1 id]
      simp only [eq_comm]

theorem loadable_runTask {codec : Codec P} {s : System P} (hs : Loadable codec s.files)
    (task timestamp : Nat) : Loadable codec (s.runTask codec task timestamp).files := by
  rw [System.runTask]
  split
  · exact hs.write _ _ _ _ _
  · exact hs

theorem Sound.flush {codec : Codec P} {crc : List UInt8 → UInt32} {s : Session P}
    (hs : s.Sound codec crc) (task timestamp : Nat) :
    Sound codec crc { s with system := s.system.runTask codec task timestamp } := by
  have hengine : (s.system.runTask codec task timestamp).engine = s.system.engine := by
    rw [System.runTask]
    split <;> rfl
  refine ⟨?_, loadable_runTask hs.loadable task timestamp, ?_, hs.deleted, hs.steady⟩
  · rw [hengine]
    exact hs.logged
  · rw [hengine]
    exact hs.agrees

theorem loadable_merge {codec : Codec P} {files files' : Files} (hfiles : Loadable codec files)
    {sstables : List SSTable} {path : Path}
    (hmerge : System.mergeSstables codec files sstables path = .ok files') :
    Loadable codec files' := by
  rw [System.mergeSstables] at hmerge
  split at hmerge
  · exact absurd hmerge (by simp)
  · split at hmerge
    · rw [← Except.ok.inj hmerge]
      exact hfiles
    · rw [← Except.ok.inj hmerge]
      exact hfiles.write _ _ _ _ _

/-- Compaction only changes the list of tables and the files. -/
theorem compactLevel_frame (codec : Codec P) (s : System P) (level timestamp : Nat) :
    ∃ levels files, (s.compactLevel codec level timestamp).1 =
        { s with engine := { s.engine with levels }, files } ∧
      (Loadable codec s.files → Loadable codec files) := by
  rw [System.compactLevel]
  split
  · exact ⟨_, _, rfl, id⟩
  · split
    · exact ⟨_, _, rfl, id⟩
    · split
      · exact ⟨_, _, rfl, id⟩
      · split
        · exact ⟨_, _, rfl, id⟩
        · rename_i files hmerge
          split
          · exact ⟨_, _, rfl, fun hfiles => loadable_merge hfiles hmerge⟩
          · exact ⟨_, _, rfl, fun hfiles => loadable_merge hfiles hmerge⟩

theorem Sound.compactLevel {codec : Codec P} {crc : List UInt8 → UInt32} {s : Session P}
    (hs : s.Sound codec crc) (level timestamp : Nat) :
    Sound codec crc { s with system := (s.system.compactLevel codec level timestamp).1 } := by
  obtain ⟨levels, files, hcompact, hfiles⟩ := compactLevel_frame codec s.system level timestamp
  rw [hcompact]
  exact ⟨hs.logged, hfiles hs.loadable, hs.agrees, hs.deleted, hs.steady⟩

/-! ## Reopening -/

/-- The engine that a reopening gives. -/
theorem openAt_cases {codec : Codec P} {crc : List UInt8 → UInt32} {config : StorageConfig}
    {walDir : WalDir} {files : Files} {engine : StorageEngine P}
    (hopen : StorageEngine.openAt codec crc config walDir files = .ok engine) :
    engine.wal = WAL.openAt walDir config.walSegmentSize ∧ engine.immutable = [] ∧
      recover codec crc (WAL.openAt walDir config.walSegmentSize)
        (MemTable.new config.memtableSizeThreshold) = .ok engine.memtable ∧
      loadSstables codec files = .ok engine.levels := by
  rw [StorageEngine.openAt] at hopen
  split at hopen
  · exact absurd hopen (by simp)
  · rename_i memtable hrec
    split at hopen
    · exact absurd hopen (by simp)
    · rename_i levels hload
      rw [← Except.ok.inj hopen]
      exact ⟨rfl, rfl, hrec, hload⟩

/-- What a successful reopening says about the log, and what it leaves in the
memtable. -/
theorem Sound.recovered {codec : Codec P} (hcodec : codec.Lawful) {crc : List UInt8 → UInt32}
    {s : Session P} (hs : s.Sound codec crc) {config : StorageConfig} {engine : StorageEngine P}
    (hopen : StorageEngine.openAt codec crc config s.system.engine.wal.dir s.system.files =
      .ok engine) :
    Steady (history s.logged) ∧ ∃ records, ReadBack codec s.logged records ∧
      Steady (records.map Record.change) ∧
      Latest engine.memtable (records.map Record.change) ∧
      (history s.logged).map shape = (records.map Record.change).map shape := by
  obtain ⟨-, -, hrec, -⟩ := openAt_cases hopen
  have hlog := hs.logged.openAt config.walSegmentSize
  obtain ⟨records, hread⟩ := recover_readBack hcodec hlog hrec
  obtain ⟨hsteady, hlatest⟩ := recover_latest hlog hread hrec
  have hshape := hread.shape_eq hcodec hlog
  exact ⟨hsteady.of_shape hshape.symm, records, hread, hsteady, hlatest, hshape⟩

theorem Sound.reopen {codec : Codec P} (hcodec : codec.Lawful) {crc : List UInt8 → UInt32}
    {s : Session P} (hs : s.Sound codec crc) {config : StorageConfig} {engine : StorageEngine P}
    (hopen : StorageEngine.openAt codec crc config s.system.engine.wal.dir s.system.files =
      .ok engine) (tasks : List (FlushTask P)) :
    Sound codec crc { s with system := { s.system with engine, tasks } } := by
  obtain ⟨hwal, -, -, -⟩ := openAt_cases hopen
  obtain ⟨hsteady, records, -, hback, hlatest, hshape⟩ := hs.recovered hcodec hopen
  refine ⟨?_, hs.loadable, ?_, hs.deleted, hs.steady⟩
  · show Logged codec crc engine.wal s.logged
    rw [hwal]
    exact hs.logged.openAt config.walSegmentSize
  · intro id entry hget
    rw [hlatest id] at hget
    rw [hs.steady hsteady id]
    constructor
    · rintro rfl
      have hnone : latest (records.map Record.change) id = some none := by
        rcases hlast : latest (records.map Record.change) id with _ | _ | vector
        · rw [hlast] at hget
          exact absurd hget (by simp)
        · rfl
        · rw [hlast] at hget
          exact absurd hget (by simp [MemTableEntry.ofOutcome])
      exact hsteady.latest_of_mem (mem_none_of_shape (mem_of_latest hnone) hshape.symm)
    · intro hdeleted
      have hmem := mem_none_of_shape (mem_of_latest hdeleted) hshape
      rw [hback.latest_of_mem hmem] at hget
      exact (Option.some.inj hget).symm

/-! ## Runs -/

theorem Sound.step {codec : Codec P} (hcodec : codec.Lawful) {crc : List UInt8 → UInt32}
    {s s' : Session P} (hs : s.Sound codec crc) {event : Event P}
    (hstep : s.step codec crc event = some s') : s'.Sound codec crc := by
  cases event with
  | write record =>
    rw [← Option.some.inj hstep]
    exact hs.write record
  | flush task timestamp =>
    rw [← Option.some.inj hstep]
    exact hs.flush task timestamp
  | compactLevel level timestamp =>
    rw [← Option.some.inj hstep]
    exact hs.compactLevel level timestamp
  | reopen config crash =>
    rw [Session.step] at hstep
    split at hstep
    · exact absurd hstep (by simp)
    · rename_i engine hopen
      rw [← Option.some.inj hstep]
      exact hs.reopen hcodec hopen _

theorem sound_run {codec : Codec P} (hcodec : codec.Lawful) (crc : List UInt8 → UInt32)
    (config : StorageConfig) (events : List (Event P)) {s : Session P}
    (hrun : run codec crc config events = some s) : s.Sound codec crc :=
  foldlM_keeps (Q := fun s => s.Sound codec crc) (fun _ _ _ hs hstep => hs.step hcodec hstep)
    (sound_create codec crc config) hrun

end Session

end Storage
end RTDB
