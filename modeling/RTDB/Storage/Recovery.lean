import RTDB.Storage.Deletion

/-!
# Crash recovery

Reopening the directory of a session gives back the last successful write to
each id exactly when the log reads back, no vector follows a deletion of its id
there, and no table on disk shows an id that was deleted.
-/

namespace RTDB
namespace Storage

open History

variable {P : Type}

namespace Session

/-- Reopening succeeds, and a reader then finds what the last successful write
to an id left. -/
def Recovers (codec : Codec P) (crc : List UInt8 → UInt32) (config : StorageConfig)
    (s : Session P) : Prop :=
  ∃ engine, StorageEngine.openAt codec crc config s.system.engine.wal.dir s.system.files =
      .ok engine ∧
    ∀ id outcome, s.last id = some outcome →
      System.get codec { s.system with engine } id = .ok outcome

structure Recoverable (codec : Codec P) (s : Session P) : Prop where
  steady : Steady (history s.logged)
  reads : ∃ records, ReadBack codec s.logged records ∧
    ∀ id, latest (records.map Record.change) id = latest (history s.logged) id
  absent : ∀ levels, loadSstables codec s.system.files = .ok levels →
    ∀ id, latest (history s.logged) id = some none →
      Absent codec s.system.files (searchOrder levels) id

section Opened

variable {codec : Codec P} {crc : List UInt8 → UInt32} {config : StorageConfig} {s : Session P}
  {engine : StorageEngine P}

/-- What a reader finds right after opening. -/
theorem get_opened
    (hopen : StorageEngine.openAt codec crc config s.system.engine.wal.dir s.system.files =
      .ok engine) (id : VectorId) :
    System.get codec { s.system with engine } id =
      answer (engine.memtable.get id) (System.fromTables codec { s.system with engine } id) := by
  obtain ⟨-, hqueue, -, -⟩ := openAt_cases hopen
  have hqueued : engine.queued id = none := by
    rw [StorageEngine.queued, hqueue]
    rfl
  rw [System.get_eq_answer, System.entry]
  show answer ((engine.memtable.get id).or (engine.queued id)) _ = _
  rw [hqueued, Option.or_none]

theorem recoverable_of_recovers (hcodec : codec.Lawful) (hs : s.Sound codec crc)
    (hrec : s.Recovers codec crc config) : s.Recoverable codec := by
  obtain ⟨engine, hopen, hget⟩ := hrec
  obtain ⟨hsteady, records, hread, hback, hlatest, hshape⟩ := hs.recovered hcodec hopen
  obtain ⟨-, -, -, hload⟩ := openAt_cases hopen
  have hlast := hs.steady hsteady
  refine ⟨hsteady, ⟨records, hread, fun id => ?_⟩, fun levels hlevels id hid => ?_⟩
  · have hkind := latest_of_shape hshape id
    -- The records differ from what was written in their vectors at most.
    rcases hwritten : latest (history s.logged) id with _ | _ | vector
    · rw [hwritten] at hkind
      exact Option.map_eq_none_iff.mp hkind.symm
    · have hmem := mem_none_of_shape (mem_of_latest hwritten) hshape
      exact hback.latest_of_mem hmem
    · rw [hwritten] at hkind
      obtain ⟨outcome, hrecord, hsome⟩ := Option.map_eq_some_iff.mp hkind.symm
      obtain ⟨vector', rfl⟩ := Option.isSome_iff_exists.mp hsome
      have hvector := hget id (some vector) ((hlast id).trans hwritten)
      rw [get_opened hopen, hlatest id, hrecord] at hvector
      have heq : some vector' = some vector := Except.ok.inj hvector
      rw [hrecord, heq]
  · have hnone := hget id none ((hlast id).trans hid)
    rw [get_opened hopen, answer_eq_none_iff] at hnone
    rw [hload] at hlevels
    rw [← Except.ok.inj hlevels]
    exact absent_iff.mpr hnone.2

theorem recovers_of_recoverable (hcodec : codec.Lawful) (hs : s.Sound codec crc)
    (hrec : s.Recoverable codec) : s.Recovers codec crc config := by
  obtain ⟨hsteady, ⟨records, hread, hsame⟩, habsent⟩ := hrec
  have hlog := hs.logged.openAt config.walSegmentSize
  obtain ⟨memtable, hrecover⟩ := (recover_ok_iff hcodec hlog config.memtableSizeThreshold).mpr
    ⟨⟨records, hread⟩, hsteady⟩
  obtain ⟨-, hlatest⟩ := recover_latest hlog hread hrecover
  obtain ⟨levels, hload⟩ := hs.loadable.load
  obtain ⟨engine, hopen⟩ : ∃ engine, StorageEngine.openAt codec crc config
      s.system.engine.wal.dir s.system.files = .ok engine := by
    rw [StorageEngine.openAt, hrecover, hload]
    exact ⟨_, rfl⟩
  obtain ⟨-, -, hmemtable, hlevels⟩ := openAt_cases hopen
  refine ⟨engine, hopen, fun id outcome hlast => ?_⟩
  have hentry : engine.memtable.get id = some (MemTableEntry.ofOutcome outcome) := by
    rw [hrecover] at hmemtable
    rw [← Except.ok.inj hmemtable, hlatest id, hsame id, ← hs.steady hsteady id, hlast]
    rfl
  rw [get_opened hopen, hentry]
  cases outcome with
  | some vector => rfl
  | none =>
    have hid : latest (history s.logged) id = some none := by rw [← hs.steady hsteady id, hlast]
    exact absent_iff.mp (habsent engine.levels hlevels id hid)

end Opened

/-- Crash recovery at any point of any run. -/
theorem recovers_iff {codec : Codec P} (hcodec : codec.Lawful) {crc : List UInt8 → UInt32}
    {config : StorageConfig} {events : List (Event P)} {s : Session P}
    (hrun : run codec crc config events = some s) (config' : StorageConfig) :
    s.Recovers codec crc config' ↔ s.Recoverable codec := by
  have hs := sound_run hcodec crc config events hrun
  exact ⟨recoverable_of_recovers hcodec hs, recovers_of_recoverable hcodec hs⟩

/-- A vector put in, deleted, and put in again. -/
def reinserting : List (Event Unit) :=
  [ .write (.put 1 { data := [0x3F800000], payload := none } 1),
    .write (.delete 1 2),
    .write (.put 1 { data := [0x3F800000], payload := none } 3) ]

/-- The second put is refused, but stays in the log, which no memtable replays. -/
theorem reinserting_openAt :
    (run sampleCodec (fun _ => 0) (sampleConfig (2 ^ 26)) reinserting).map (fun s =>
        (StorageEngine.openAt sampleCodec (fun _ => 0) (sampleConfig (2 ^ 26))
          s.system.engine.wal.dir s.system.files).map fun engine => engine.vectorCount) =
      some (.error (.storage "Unexpected delete entry")) := by
  decide +kernel

theorem not_recovers_of_openAt {s : Session Unit} {config : StorageConfig} {e : RTDBError}
    (hopen : (StorageEngine.openAt sampleCodec (fun _ => 0) config s.system.engine.wal.dir
      s.system.files).map (fun engine => engine.vectorCount) = .error e) :
    ¬ s.Recovers sampleCodec (fun _ => 0) config := by
  rintro ⟨engine, hok, -⟩
  rw [hok] at hopen
  exact absurd hopen (by simp [Except.map])

theorem not_recovers_reinserting :
    ∃ s, run sampleCodec (fun _ => 0) (sampleConfig (2 ^ 26)) reinserting = some s ∧
      ¬ s.Recovers sampleCodec (fun _ => 0) (sampleConfig (2 ^ 26)) := by
  obtain ⟨s, hrun, hs⟩ := Option.map_eq_some_iff.mp reinserting_openAt
  exact ⟨s, hrun, not_recovers_of_openAt hs⟩

theorem recovers_reinserting :
    ∃ s, run sampleCodec (fun _ => 0) (sampleConfig (2 ^ 26)) reinserting = some s ∧
      ¬ s.Recoverable sampleCodec := by
  obtain ⟨s, hrun, hs⟩ := Option.map_eq_some_iff.mp reinserting_openAt
  exact ⟨s, hrun, fun hrec => not_recovers_of_openAt hs
    ((recovers_iff sampleCodec_lawful hrun _).mpr hrec)⟩

end Session

end Storage
end RTDB
