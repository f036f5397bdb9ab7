import RTDB.Storage.Session

/-!
# Deleted vectors

A tombstone shadows older versions only while it is the newest memtable entry of
its id: a reader who meets it goes on to the tables, and neither a flush nor a
merge writes it down.  A run keeps its deletions exactly when no step of it
uncovers an older version.
-/

namespace RTDB
namespace Storage

open History Runs

variable {P : Type}

/-- The first of the tables whose range covers the id, if any, does not have
it. -/
def Absent (codec : Codec P) (files : Files) (tables : List SSTable) (id : VectorId) : Prop :=
  ∀ table, (tables.find? fun table => table.mayContain id) = some table →
    StorageEngine.getFromFile codec files table.path id = .ok none

theorem absent_iff {codec : Codec P} {s : System P} {id : VectorId} :
    Absent codec s.files s.engine.tables id ↔ s.fromTables codec id = .ok none := by
  rw [Absent, System.fromTables, StorageEngine.getFromSstables]
  cases hfind : s.engine.tables.find? fun table => table.mayContain id with
  | none => simp
  | some table =>
    constructor
    · intro hall
      exact hall table rfl
    · intro hget table' htable
      rw [← Option.some.inj htable]
      exact hget

/-- A memtable entry that hides nothing. -/
def NotPut (entry : Option (MemTableEntry P)) : Prop := ∀ vector, entry ≠ some (.put vector)

theorem notPut_none : NotPut (none : Option (MemTableEntry P)) := fun _ => by simp

theorem notPut_or {a b : Option (MemTableEntry P)} :
    NotPut (a.or b) ↔ NotPut a ∧ (a = none → NotPut b) := by
  cases a with
  | none => simp [notPut_none]
  | some entry => simp

theorem answer_eq_none_iff {entry : Option (MemTableEntry P)}
    {tables : Except RTDBError (Option (Vector P))} :
    answer entry tables = .ok none ↔ NotPut entry ∧ tables = .ok none := by
  rcases entry with _ | vector | _
  · simp [answer, NotPut]
  · simp [answer, NotPut]
  · simp [answer, NotPut]

namespace Session

/-- A reader finds nothing under an id whose last successful write deleted it. -/
def DeletionsHold (codec : Codec P) (s : Session P) : Prop :=
  ∀ id, s.last id = some none → s.system.get codec id = .ok none

theorem deletionsHold_iff {codec : Codec P} {s : Session P} :
    s.DeletionsHold codec ↔ ∀ id, s.last id = some none →
      NotPut (s.system.entry id) ∧ Absent codec s.system.files s.system.engine.tables id := by
  refine forall_congr' fun id => imp_congr_right fun _ => ?_
  rw [System.get_eq_answer, answer_eq_none_iff, absent_iff]

/-- The condition under which a step uncovers no deleted id, on the state before
it.  A refused put takes a tombstone away, a rotation asks the queue before it,
and the other steps change which table answers. -/
def Covered (codec : Codec P) (crc : List UInt8 → UInt32) (s : Session P) : Event P → Prop
  | .write record =>
    accepted codec record ≠ [] →
      (Refused s.system.engine.memtable record → NotPut (s.system.engine.queued record.id)) ∧
        (record.outcome = none →
          Absent codec s.system.files s.system.engine.tables record.id) ∧
        (¬ Refused s.system.engine.memtable record →
          (written codec s.system.engine.memtable record).shouldFlush = true →
            s.system.engine.flushHandle = true →
              ∀ id, (written codec s.system.engine.memtable record).get id = some .delete →
                NotPut (s.system.engine.queued id))
  | .flush task timestamp =>
    ∀ config memtable rest, s.system.tasks[task]? = some { config, immutable := memtable :: rest } →
      ∀ id, s.last id = some none →
        Absent codec
          (s.system.files.write { level := 0, timestamp }
            (System.flushedTable codec config memtable)) s.system.engine.tables id
  | .compactLevel level timestamp =>
    level < 6 → ∀ sstables, s.system.engine.levels[level]? = some sstables → 4 ≤ sstables.length →
      ∀ id, s.last id = some none →
        match System.mergeSstables codec s.system.files (sstables.take 4)
            { level := level + 1, timestamp } with
        | .error _ =>
          Absent codec s.system.files
            (searchOrder (s.system.engine.levels.set level (sstables.drop 4))) id
        | .ok files =>
          ∀ levels, loadSstables codec files = .ok levels →
            Absent codec files (searchOrder levels) id
  | .reopen config _ =>
    (∃ engine, StorageEngine.openAt codec crc config s.system.engine.wal.dir s.system.files =
        .ok engine) →
      ∀ levels, loadSstables codec s.system.files = .ok levels →
        ∀ id, s.last id = some none → Absent codec s.system.files (searchOrder levels) id

/-! ## One step -/

section Step

variable {codec : Codec P} {crc : List UInt8 → UInt32} {s : Session P}

theorem notPut_of_agrees {m : MemTable P} {last : VectorId → Option (Option (Vector P))}
    (hm : Agrees m last) {id : VectorId} (hid : last id = some none) : NotPut (m.get id) := by
  intro vector hget
  exact absurd ((hm id _ hget).mpr hid) (by simp)

theorem entry_within (wal : WAL) (m : MemTable P) (id : VectorId) :
    (s.system.within wal m).entry id = (m.get id).or (s.system.engine.queued id) := rfl

/-- A refused put uncovers at most its own id, by what the queue has for it. -/
theorem covered_refused (hs : s.Sound codec crc) (hdeleted : s.DeletionsHold codec)
    {record : Record P} (hrefused : Refused s.system.engine.memtable record) (wal : WAL) :
    (∀ id, s.last id = some none →
        NotPut ((s.system.within wal (written codec s.system.engine.memtable record)).entry id) ∧
          Absent codec s.system.files s.system.engine.tables id) ↔
      NotPut (s.system.engine.queued record.id) := by
  rw [deletionsHold_iff] at hdeleted
  constructor
  · intro hall
    have hid := (hall record.id ((hs.agrees record.id .delete hrefused.2).mp rfl)).1
    rw [entry_within, get_written_refused hrefused, if_pos rfl, Option.none_or] at hid
    exact hid
  · intro hqueued id hid
    refine ⟨?_, (hdeleted id hid).2⟩
    rw [entry_within, get_written_refused hrefused]
    split
    · rename_i hrecord
      subst hrecord
      exact hqueued
    · exact (hdeleted id hid).1

theorem covered_done (hs : s.Sound codec crc) (hdeleted : s.DeletionsHold codec)
    {record : Record P} (haccepted : ¬ Refused s.system.engine.memtable record) (wal : WAL) :
    (∀ id, Function.update s.last record.id (some record.outcome) id = some none →
        NotPut ((s.system.within wal
          (written codec s.system.engine.memtable record)).maybeFlush.entry id) ∧
          Absent codec s.system.files s.system.engine.tables id) ↔
      (record.outcome = none → Absent codec s.system.files s.system.engine.tables record.id) ∧
        ((written codec s.system.engine.memtable record).shouldFlush = true →
          s.system.engine.flushHandle = true →
            ∀ id, (written codec s.system.engine.memtable record).get id = some .delete →
              NotPut (s.system.engine.queued id)) := by
  rw [deletionsHold_iff] at hdeleted
  have hagrees := hs.agrees.written codec haccepted
  have hwithin : (s.system.within wal
      (written codec s.system.engine.memtable record)).engine.memtable =
        written codec s.system.engine.memtable record := rfl
  have hhandle : (s.system.within wal
      (written codec s.system.engine.memtable record)).engine.flushHandle =
        s.system.engine.flushHandle := rfl
  have hqueue (id : VectorId) : (s.system.within wal
      (written codec s.system.engine.memtable record)).engine.queued id =
        s.system.engine.queued id := rfl
  simp only [entry_maybeFlush, hwithin, hhandle, hqueue, entry_within]
  constructor
  · intro hall
    refine ⟨fun houtcome => (hall record.id ?_).2, fun hflush hset id hget => ?_⟩
    · rw [Function.update_self, houtcome]
    · have hid := (hall id ((hagrees id .delete hget).mp rfl)).1
      rw [if_pos hflush, if_pos hset] at hid
      exact (notPut_or.mp hid).1
  · rintro ⟨htables, hrotate⟩ id hid
    have hnotPut := notPut_of_agrees hagrees hid
    have hbehind : (written codec s.system.engine.memtable record).get id = none →
        NotPut (s.system.engine.queued id) := by
      intro hnone
      rw [get_written haccepted] at hnone
      split at hnone
      · exact absurd hnone (by simp)
      · rename_i hrecord
        rw [Function.update_of_ne (Ne.symm hrecord)] at hid
        exact (notPut_or.mp (hdeleted id hid).1).2 hnone
    constructor
    · split
      · rename_i hflush
        split
        · rename_i hset
          refine notPut_or.mpr ⟨?_, fun _ => hnotPut⟩
          cases hget : (written codec s.system.engine.memtable record).get id with
          | none => exact hbehind hget
          | some entry =>
            obtain rfl := (hagrees id entry hget).mpr hid
            exact hrotate hflush hset id hget
        · exact notPut_none
      · exact notPut_or.mpr ⟨hnotPut, hbehind⟩
    · by_cases hrecord : id = record.id
      · subst hrecord
        rw [Function.update_self] at hid
        exact htables (Option.some.inj hid)
      · rw [Function.update_of_ne hrecord] at hid
        exact (hdeleted id hid).2

theorem covered_write (hs : s.Sound codec crc) (hdeleted : s.DeletionsHold codec)
    (record : Record P) :
    (s.write codec crc record).DeletionsHold codec ↔ s.Covered codec crc (.write record) := by
  rw [deletionsHold_iff]
  have hcall := write_call codec crc s.system record
  rw [Session.write, Covered]
  generalize s.system.write codec crc record = outcome at hcall
  cases hcall with
  | unlogged e hnone =>
    constructor
    · intro _ hsome
      exact absurd hnone hsome
    · intro _
      exact deletionsHold_iff.mp hdeleted
  | refused wal data e hdata hlog hrefused =>
    refine (covered_refused hs hdeleted hrefused wal).trans
      ⟨fun hqueued _ => ?_, fun hcovered => ?_⟩
    · exact ⟨fun _ => hqueued, fun hnone => absurd hnone hrefused.1,
        fun haccepted => absurd hrefused haccepted⟩
    · exact (hcovered (by simp [hdata])).1 hrefused
  | done wal data count hdata hlog haccepted t ht =>
    obtain ⟨hfiles, -, hlevels, -⟩ := maybeFlush_frame
      (s.system.within wal (written codec s.system.engine.memtable record))
    have htables : t.engine.tables = s.system.engine.tables := by
      rw [ht, StorageEngine.tables, hlevels]
      rfl
    have hdone := covered_done hs hdeleted haccepted wal
    rw [← ht] at hdone hfiles
    show (∀ id, Function.update s.last record.id (some record.outcome) id = some none →
      NotPut (t.entry id) ∧ Absent codec t.files t.engine.tables id) ↔ _
    rw [htables, hfiles]
    refine hdone.trans ⟨fun hcovered _ => ?_, fun hcovered => ?_⟩
    · exact ⟨fun hrefused => absurd hrefused haccepted, hcovered.1, fun _ => hcovered.2⟩
    · obtain ⟨-, habsent, hrotate⟩ := hcovered (by simp [hdata])
      exact ⟨habsent, hrotate haccepted⟩

/-- Where no memtable has a vector for a deleted id, the tables decide. -/
theorem deletionsHold_tables {system : System P}
    (hentry : ∀ id, s.last id = some none → NotPut (system.entry id)) :
    DeletionsHold codec { s with system } ↔
      ∀ id, s.last id = some none → Absent codec system.files system.engine.tables id := by
  rw [deletionsHold_iff]
  refine forall_congr' fun id => imp_congr_right fun hid => ?_
  exact and_iff_right (hentry id hid)

theorem covered_flush (hdeleted : s.DeletionsHold codec) (task timestamp : Nat) :
    DeletionsHold codec { s with system := s.system.runTask codec task timestamp } ↔
      s.Covered codec crc (.flush task timestamp) := by
  have hentry : ∀ id, s.last id = some none →
      NotPut ((s.system.runTask codec task timestamp).entry id) := by
    intro id hid
    have hsame : (s.system.runTask codec task timestamp).entry id = s.system.entry id := by
      rw [System.runTask]
      split <;> rfl
    rw [hsame]
    exact (deletionsHold_iff.mp hdeleted id hid).1
  rw [deletionsHold_tables hentry, Covered]
  cases htask : s.system.tasks[task]? with
  | none =>
    rw [System.runTask, htask]
    simpa using fun id hid => (deletionsHold_iff.mp hdeleted id hid).2
  | some flushTask =>
    obtain ⟨config, _ | ⟨memtable, rest⟩⟩ := flushTask
    · rw [System.runTask, htask]
      simpa using fun id hid => (deletionsHold_iff.mp hdeleted id hid).2
    · rw [System.runTask, htask]
      constructor
      · intro hall config' memtable' rest' heq id hid
        obtain ⟨rfl, rfl, rfl⟩ : config = config' ∧ memtable = memtable' ∧ rest = rest' := by
          simpa using heq
        exact hall id hid
      · intro hall
        exact hall config memtable rest rfl

theorem covered_compactLevel (hs : s.Sound codec crc) (hdeleted : s.DeletionsHold codec)
    (level timestamp : Nat) :
    DeletionsHold codec { s with system := (s.system.compactLevel codec level timestamp).1 } ↔
      s.Covered codec crc (.compactLevel level timestamp) := by
  have hentry : ∀ id, s.last id = some none →
      NotPut ((s.system.compactLevel codec level timestamp).1.entry id) := by
    intro id hid
    obtain ⟨levels, files, hcompact, -⟩ := compactLevel_frame codec s.system level timestamp
    rw [hcompact]
    exact (deletionsHold_iff.mp hdeleted id hid).1
  have hbefore := fun id hid => (deletionsHold_iff.mp hdeleted id hid).2
  rw [deletionsHold_tables hentry, Covered, System.compactLevel]
  by_cases hlevel : level < 6
  · rw [if_neg (by omega)]
    cases hlisted : s.system.engine.levels[level]? with
    | none => simpa [hlevel] using hbefore
    | some sstables =>
      by_cases hlength : 4 ≤ sstables.length
      · simp only [hlevel, true_implies, Option.some.injEq, forall_eq', hlength,
          if_neg (show ¬ sstables.length < 4 by omega)]
        cases hmerge : System.mergeSstables codec s.system.files (sstables.take 4)
            { level := level + 1, timestamp } with
        | error e => exact Iff.rfl
        | ok files =>
          obtain ⟨levels, hload⟩ := (loadable_merge hs.loadable hmerge).load
          simp only [hload, Except.ok.injEq, forall_eq']
          exact Iff.rfl
      · simpa [hlength, show sstables.length < 4 by omega] using hbefore
  · rw [if_pos (by omega)]
    simpa [hlevel] using hbefore

theorem covered_reopen (hcodec : codec.Lawful) (hs : s.Sound codec crc) {config : StorageConfig}
    (crash : Bool) {engine : StorageEngine P}
    (hopen : StorageEngine.openAt codec crc config s.system.engine.wal.dir s.system.files =
      .ok engine) (tasks : List (FlushTask P)) :
    DeletionsHold codec { s with system := { s.system with engine, tasks } } ↔
      s.Covered codec crc (.reopen config crash) := by
  obtain ⟨-, hqueue, -, hload⟩ := openAt_cases hopen
  have hagrees : Agrees engine.memtable s.last := (hs.reopen hcodec hopen tasks).agrees
  have hentry : ∀ id, s.last id = some none →
      NotPut (System.entry { s.system with engine, tasks } id) := by
    intro id hid
    have hqueued : engine.queued id = none := by
      rw [StorageEngine.queued, hqueue]
      rfl
    refine notPut_or.mpr ⟨notPut_of_agrees hagrees hid, fun _ => ?_⟩
    show NotPut (engine.queued id)
    rw [hqueued]
    exact notPut_none
  rw [deletionsHold_tables hentry, Covered]
  constructor
  · intro hall _ levels hlevels id hid
    rw [hload] at hlevels
    rw [← Except.ok.inj hlevels]
    exact hall id hid
  · intro hall
    exact hall ⟨engine, hopen⟩ engine.levels hload

/-- A step keeps the deletions exactly when it is covered. -/
theorem covered_step (hcodec : codec.Lawful) (hs : s.Sound codec crc)
    (hdeleted : s.DeletionsHold codec) (event : Event P) :
    (∀ s', s.step codec crc event = some s' → s'.DeletionsHold codec) ↔
      s.Covered codec crc event := by
  cases event with
  | write record =>
    rw [← covered_write hs hdeleted record]
    simp [Session.step]
  | flush task timestamp =>
    rw [← covered_flush hdeleted task timestamp]
    simp [Session.step]
  | compactLevel level timestamp =>
    rw [← covered_compactLevel hs hdeleted level timestamp]
    simp [Session.step]
  | reopen config crash =>
    rw [Session.step]
    cases hopen : StorageEngine.openAt codec crc config s.system.engine.wal.dir s.system.files with
    | error e => simp [Covered, hopen]
    | ok engine =>
      rw [← covered_reopen hcodec hs crash hopen (if crash then [] else s.system.tasks)]
      simp

end Step

/-! ## Runs -/

theorem deletionsHold_run {codec : Codec P} (hcodec : codec.Lawful) (crc : List UInt8 → UInt32)
    (config : StorageConfig) (events : List (Event P))
    (hcovered : ∀ before event after s, events = before ++ event :: after →
      run codec crc config before = some s → s.Covered codec crc event) {s : Session P}
    (hrun : run codec crc config events = some s) : s.DeletionsHold codec :=
  (foldlM_invariant (Q := fun s => s.Sound codec crc ∧ s.DeletionsHold codec)
    (fun _ event s' hs hevent hstep => ⟨hs.1.step hcodec hstep,
      (covered_step hcodec hs.1 hs.2 event).mpr hevent s' hstep⟩)
    ⟨sound_create codec crc config, fun id hid => absurd hid (by simp [create])⟩ hcovered hrun).2

/-- In every run the deletions hold in each state reached exactly when every step
is covered. -/
theorem deletions_hold_iff {codec : Codec P} (hcodec : codec.Lawful)
    (crc : List UInt8 → UInt32) (config : StorageConfig) (events : List (Event P)) :
    (∀ before s, before <+: events → run codec crc config before = some s →
        s.DeletionsHold codec) ↔
      ∀ before event after s, events = before ++ event :: after →
        run codec crc config before = some s → s.Covered codec crc event := by
  constructor
  · intro hhold before event after s hevents hrun
    have hbefore : before <+: events := hevents ▸ List.prefix_append before (event :: after)
    have hnext : before ++ [event] <+: events := ⟨after, by rw [hevents, ← List.append_cons]⟩
    refine (covered_step hcodec (sound_run hcodec crc config before hrun)
      (hhold before s hbefore hrun) event).mp fun s' hstep => hhold _ s' hnext ?_
    rw [run_concat, hrun]
    exact hstep
  · rintro hcovered before s ⟨rest, rfl⟩ hrun
    refine deletionsHold_run hcodec crc config before
      (fun before' event after s' hevents => ?_) hrun
    refine hcovered before' event (after ++ rest) s' ?_
    rw [hevents, List.append_assoc]
    rfl

/-- The memtable of a put is flushed, the engine reopened, the id deleted. -/
def resurfacing : List (Event Unit) :=
  [ .write (.put 1 { data := [0x3F800000], payload := none } 1),
    .flush 0 10,
    .reopen (sampleConfig 70) false,
    .write (.delete 1 2) ]

/-- The deletion succeeds, and the table still gives the vector. -/
theorem resurfacing_get :
    (run sampleCodec (fun _ => 0) (sampleConfig 70) resurfacing).map (fun s => (s.last 1, s.system.get sampleCodec 1)) =
      some (some none, .ok (some { data := [0x3F800000], payload := none })) := by
  decide +kernel

theorem not_deletions_hold_resurfacing :
    ∃ s, run sampleCodec (fun _ => 0) (sampleConfig 70) resurfacing = some s ∧ ¬ s.DeletionsHold sampleCodec := by
  obtain ⟨s, hrun, hs⟩ := Option.map_eq_some_iff.mp resurfacing_get
  refine ⟨s, hrun, fun hhold => ?_⟩
  have hget := hhold 1 (congrArg Prod.fst hs)
  exact absurd (hget.symm.trans (congrArg Prod.snd hs)) (by simp)

theorem deletions_hold_resurfacing :
    ¬ ∀ before event after s, resurfacing = before ++ event :: after →
      run sampleCodec (fun _ => 0) (sampleConfig 70) before = some s →
        s.Covered sampleCodec (fun _ => 0) event := by
  intro hcovered
  obtain ⟨s, hrun, hs⟩ := Option.map_eq_some_iff.mp resurfacing_get
  have hhold := (deletions_hold_iff sampleCodec_lawful (fun _ => 0) _ resurfacing).mpr hcovered
    resurfacing s (List.prefix_refl _) hrun 1 (congrArg Prod.fst hs)
  exact absurd (hhold.symm.trans (congrArg Prod.snd hs)) (by simp)

end Session

end Storage
end RTDB
