import RTDB.Collection.Collection
import RTDB.Storage.Deletion

/-!
# A map kept beside storage

A collection's index holds what it should find in storage, and so does anyone
who follows the calls that succeed.  A call leaves such a map and storage in
agreement exactly when the places that a reader is left with show what the map
has.
-/

namespace RTDB

open Storage

variable {P β : Type}

/-- What a reader finds, given the newest memtable entry and the tables' answer. -/
def shown (f : Vector P → β) (entry : Option (MemTableEntry P))
    (tables : Except RTDBError (Option (Vector P))) : Option β :=
  (okSome (answer entry tables)).map f

theorem shown_notPut (f : Vector P → β) {entry : Option (MemTableEntry P)} (hentry : NotPut entry)
    (tables : Except RTDBError (Option (Vector P))) :
    shown f entry tables = (okSome tables).map f := by
  rcases entry with _ | vector | _
  · rfl
  · exact absurd rfl (hentry vector)
  · rfl

/-- The map has under each id what a reader finds there. -/
def Mirrors (codec : Codec P) (f : Vector P → β) (view : VectorId → Option β) (s : System P) :
    Prop :=
  ∀ id, view id = (okSome (s.get codec id)).map f

theorem mirrors_iff {codec : Codec P} {f : Vector P → β} {view : VectorId → Option β}
    {s : System P} :
    Mirrors codec f view s ↔ ∀ id, view id = shown f (s.entry id) (s.fromTables codec id) := by
  refine forall_congr' fun id => ?_
  rw [System.get_eq_answer, shown]

def viewAfter (f : Vector P → β) (view : VectorId → Option β) (record : Record P) :
    Except RTDBError Unit → VectorId → Option β
  | .ok () => Function.update view record.id (record.outcome.map f)
  | .error _ => view

theorem viewAfter_ok (f : Vector P → β) (view : VectorId → Option β) (record : Record P)
    (id : VectorId) :
    viewAfter f view record (.ok ()) id =
      if record.id = id then record.outcome.map f else view id := by
  rw [viewAfter, Function.update_apply]
  simp only [eq_comm]

/-- The condition on a call: a put that is refused for a tombstone leaves the
reader to the queue, a deletion without rotation to the tables, and a rotation
to the queue and the new memtable or, when it starts the flush, to the tables
for every id. -/
def WriteKeeps (codec : Codec P) (f : Vector P → β) (view : VectorId → Option β) (s : System P)
    (record : Record P) : Prop :=
  accepted codec record ≠ [] →
    (Refused s.engine.memtable record →
      shown f (s.engine.queued record.id) (s.fromTables codec record.id) =
        shown f none (s.fromTables codec record.id)) ∧
    (¬ Refused s.engine.memtable record →
      ((written codec s.engine.memtable record).shouldFlush = false → record.outcome = none →
        shown f none (s.fromTables codec record.id) = none) ∧
      ((written codec s.engine.memtable record).shouldFlush = true → ∀ id,
        Function.update view record.id (record.outcome.map f) id =
          if s.engine.flushHandle then
            shown f ((s.engine.queued id).or ((written codec s.engine.memtable record).get id))
              (s.fromTables codec id)
          else shown f none (s.fromTables codec id)))

/-- The condition on a background write: a table that it replaces shows the same
where no memtable has a vector. -/
def FlushKeeps (codec : Codec P) (f : Vector P → β) (s : System P) (task timestamp : Nat) : Prop :=
  ∀ config memtable rest, s.tasks[task]? = some { config, immutable := memtable :: rest } →
    ∀ id, NotPut (s.entry id) →
      ∀ table, (s.engine.tables.find? fun table => table.mayContain id) = some table →
        table.path = { level := 0, timestamp } →
          (okSome (StorageEngine.getFromFile codec
              (s.files.write table.path (System.flushedTable codec config memtable))
              table.path id)).map f =
            (okSome (StorageEngine.getFromFile codec s.files table.path id)).map f

section Step

variable {codec : Codec P} {f : Vector P → β} {view : VectorId → Option β} {s : System P}

theorem mirrors_refused_iff (hview : Mirrors codec f view s) {record : Record P}
    (hrefused : Refused s.engine.memtable record) (wal : WAL) :
    Mirrors codec f view (s.within wal (written codec s.engine.memtable record)) ↔
      shown f (s.engine.queued record.id) (s.fromTables codec record.id) =
        shown f none (s.fromTables codec record.id) := by
  rw [mirrors_iff] at hview ⊢
  have hentry : ∀ id, (s.within wal (written codec s.engine.memtable record)).entry id =
      if record.id = id then s.engine.queued id else s.entry id := by
    intro id
    show ((written codec s.engine.memtable record).get id).or (s.engine.queued id) = _
    rw [get_written_refused hrefused]
    split
    · exact Option.none_or
    · rfl
  have hbefore : view record.id = shown f none (s.fromTables codec record.id) := by
    have htombstone : s.entry record.id = some .delete := by
      rw [System.entry, hrefused.2, Option.some_or]
    rw [hview record.id, htombstone]
    rfl
  constructor
  · intro hall
    have hid := hall record.id
    rw [hentry, if_pos rfl, hbefore] at hid
    exact hid.symm
  · intro hqueue id
    rw [hentry]
    split
    · rename_i hid
      subst hid
      rw [hbefore]
      exact hqueue.symm
    · exact hview id

theorem mirrors_done_iff (hview : Mirrors codec f view s) {record : Record P}
    (haccepted : ¬ Refused s.engine.memtable record) (wal : WAL) :
    Mirrors codec f (Function.update view record.id (record.outcome.map f))
        (s.within wal (written codec s.engine.memtable record)).maybeFlush ↔
      ((written codec s.engine.memtable record).shouldFlush = false → record.outcome = none →
        shown f none (s.fromTables codec record.id) = none) ∧
      ((written codec s.engine.memtable record).shouldFlush = true → ∀ id,
        Function.update view record.id (record.outcome.map f) id =
          if s.engine.flushHandle then
            shown f ((s.engine.queued id).or ((written codec s.engine.memtable record).get id))
              (s.fromTables codec id)
          else shown f none (s.fromTables codec id)) := by
  rw [mirrors_iff] at hview ⊢
  have htables : ∀ id, (s.within wal
      (written codec s.engine.memtable record)).maybeFlush.fromTables codec id =
        s.fromTables codec id :=
    fun id => fromTables_maybeFlush (s.within wal (written codec s.engine.memtable record)) codec id
  have hentry := entry_maybeFlush (s.within wal (written codec s.engine.memtable record))
  have hwithin : (s.within wal (written codec s.engine.memtable record)).engine.memtable =
      written codec s.engine.memtable record := rfl
  simp only [hwithin] at hentry
  cases hflush : (written codec s.engine.memtable record).shouldFlush with
  | true =>
    have hplaces : ∀ id, shown f ((s.within wal
        (written codec s.engine.memtable record)).maybeFlush.entry id) (s.fromTables codec id) =
          if s.engine.flushHandle then
            shown f ((s.engine.queued id).or ((written codec s.engine.memtable record).get id))
              (s.fromTables codec id)
          else shown f none (s.fromTables codec id) := by
      intro id
      rw [hentry, if_pos hflush]
      show shown f (if s.engine.flushHandle then _ else none) _ = _
      split
      · rfl
      · rfl
    simp only [htables, hplaces]
    simp
  | false =>
    have hplace : ∀ id, (s.within wal
        (written codec s.engine.memtable record)).maybeFlush.entry id =
          if record.id = id then some (MemTableEntry.ofOutcome record.outcome) else s.entry id := by
      intro id
      rw [hentry, if_neg (by simp [hflush])]
      show ((written codec s.engine.memtable record).get id).or (s.engine.queued id) = _
      rw [get_written haccepted]
      split
      · exact Option.some_or
      · rfl
    simp only [htables, hplace]
    constructor
    · intro hall
      refine ⟨fun _ houtcome => ?_, fun htrue => absurd htrue (by simp)⟩
      have hid := hall record.id
      rw [Function.update_self, if_pos rfl, houtcome] at hid
      exact hid.symm
    · rintro ⟨hdelete, -⟩ id
      by_cases hid : id = record.id
      · subst hid
        rw [Function.update_self, if_pos rfl]
        cases houtcome : record.outcome with
        | some vector => rfl
        | none => exact (hdelete trivial houtcome).symm
      · rw [Function.update_of_ne hid, if_neg (Ne.symm hid)]
        exact hview id

theorem mirrors_write_iff (crc : List UInt8 → UInt32) (hview : Mirrors codec f view s) (record : Record P) :
    Mirrors codec f (viewAfter f view record (s.write codec crc record).2)
        (s.write codec crc record).1 ↔ WriteKeeps codec f view s record := by
  have hcall := write_call codec crc s record
  generalize s.write codec crc record = outcome at hcall
  rw [WriteKeeps]
  cases hcall with
  | unlogged e hnone => exact ⟨fun _ hsome => absurd hnone hsome, fun _ => hview⟩
  | refused wal data e hdata hlog hrefused =>
    refine (mirrors_refused_iff hview hrefused wal).trans
      ⟨fun hqueue _ => ⟨fun _ => hqueue, fun haccepted => absurd hrefused haccepted⟩,
        fun hkeeps => (hkeeps (by simp [hdata])).1 hrefused⟩
  | done wal data count hdata hlog haccepted t ht =>
    have hdone := mirrors_done_iff hview haccepted wal
    rw [← ht] at hdone
    -- The count is no place that a reader looks at.
    refine Iff.trans (Iff.refl (Mirrors codec f _ t)) (hdone.trans
      ⟨fun hkeeps _ => ⟨fun hrefused => absurd hrefused haccepted, fun _ => hkeeps⟩,
        fun hkeeps => (hkeeps (by simp [hdata])).2 haccepted⟩)

theorem mirrors_runTask_iff (hview : Mirrors codec f view s) (task timestamp : Nat) :
    Mirrors codec f view (s.runTask codec task timestamp) ↔
      FlushKeeps codec f s task timestamp := by
  rw [mirrors_iff] at hview ⊢
  have hentry : ∀ id, (s.runTask codec task timestamp).entry id = s.entry id := by
    intro id
    rw [System.runTask]
    split <;> rfl
  simp only [hentry, hview]
  rw [FlushKeeps]
  cases htask : s.tasks[task]? with
  | none =>
    rw [System.runTask, htask]
    simp
  | some flushTask =>
    obtain ⟨config, _ | ⟨memtable, rest⟩⟩ := flushTask
    · rw [System.runTask, htask]
      simp
    · simp only [Option.some.injEq, FlushTask.mk.injEq, List.cons.injEq, and_imp]
      constructor
      · rintro hall _ _ _ rfl rfl rfl id hnotPut
        have hid := hall id
        rw [shown_notPut f hnotPut, shown_notPut f hnotPut] at hid
        exact (fromTables_runTask codec s id (fun result => (okSome result).map f) timestamp
          htask).mp hid.symm
      · intro hkeeps id
        by_cases hnotPut : NotPut (s.entry id)
        · rw [shown_notPut f hnotPut, shown_notPut f hnotPut]
          exact ((fromTables_runTask codec s id (fun result => (okSome result).map f) timestamp
            htask).mpr (hkeeps config memtable rest rfl rfl rfl id hnotPut)).symm
        · obtain ⟨vector, hvector⟩ : ∃ vector, s.entry id = some (.put vector) := by
            simpa [NotPut] using hnotPut
          rw [hvector]
          rfl

end Step

end RTDB
