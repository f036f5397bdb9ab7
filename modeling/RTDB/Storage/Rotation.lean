import RTDB.Storage.Engine

/-!
# Rotation and flushing, seen by a reader

The four steps that carry a memtable from the active place to a table file, one
by one and in any order, on any engine.  A step is unseen by a reader of an id
only when the places left to search give the answer that the step takes away.
-/

namespace RTDB
namespace Storage

variable {P : Type}

/-! ## The layers of a read -/

/-- What a reader makes of the newest memtable entry: a tombstone counts as no
entry, so the tables answer. -/
def answer (entry : Option (MemTableEntry P)) (tables : Except RTDBError (Option (Vector P))) :
    Except RTDBError (Option (Vector P)) :=
  match entry with
  | some (.put vector) => .ok (some vector)
  | some .delete => tables
  | none => tables

theorem answer_eq_tables_iff (entry : Option (MemTableEntry P))
    (tables : Except RTDBError (Option (Vector P))) :
    answer entry tables = tables ↔
      ∀ vector, entry = some (.put vector) → tables = .ok (some vector) := by
  rcases entry with _ | vector | _
  · simp [answer]
  · constructor
    · intro heq other hother
      obtain rfl : vector = other := by simpa using hother
      exact heq.symm
    · intro htables
      exact (htables vector rfl).symm
  · simp [answer]

theorem answer_eq_some_iff {entry : Option (MemTableEntry P)}
    {tables : Except RTDBError (Option (Vector P))} {vector : Vector P} :
    answer entry tables = .ok (some vector) ↔
      entry = some (.put vector) ∨
        (∀ other, entry ≠ some (.put other)) ∧ tables = .ok (some vector) := by
  rcases entry with _ | other | _
  · simp [answer]
  · simp [answer]
  · simp [answer]

namespace System

/-- The entry of the newest memtable that has one. -/
def entry (s : System P) (id : VectorId) : Option (MemTableEntry P) :=
  (s.engine.memtable.get id).or (s.engine.queued id)

def fromTables (codec : Codec P) (s : System P) (id : VectorId) :
    Except RTDBError (Option (Vector P)) :=
  s.engine.getFromSstables codec s.files id

theorem get_eq_answer (codec : Codec P) (s : System P) (id : VectorId) :
    s.get codec id = answer (s.entry id) (s.fromTables codec id) := by
  rw [get, StorageEngine.getFromMemtables, entry, fromTables]
  rcases s.engine.memtable.get id with _ | vector | _
  · rw [Option.none_or]
    rcases s.engine.queued id with _ | vector | _ <;> rfl
  · rfl
  · rfl

end System

/-- The first table whose range covers the id has this vector for it. -/
def Stored (codec : Codec P) (s : System P) (id : VectorId) (vector : Vector P) : Prop :=
  ∃ table, (s.engine.tables.find? fun table => table.mayContain id) = some table ∧
    StorageEngine.getFromFile codec s.files table.path id = .ok (some vector)

theorem stored_iff {codec : Codec P} {s : System P} {id : VectorId} {vector : Vector P} :
    Stored codec s id vector ↔ s.fromTables codec id = .ok (some vector) := by
  rw [Stored, System.fromTables, StorageEngine.getFromSstables]
  cases hfind : s.engine.tables.find? fun table => table.mayContain id with
  | none =>
    constructor
    · rintro ⟨table, htable, -⟩
      exact absurd htable (by simp)
    · intro hget
      exact absurd hget (by simp)
  | some table =>
    constructor
    · rintro ⟨table', htable, hget⟩
      rw [Option.some.inj htable]
      exact hget
    · intro hget
      exact ⟨table, rfl, hget⟩

/-! ## The steps -/

inductive RotationStep (P : Type) where
  | swap
  | push (memtable : MemTable P)
  | take
  | write (task timestamp : Nat)

def RotationStep.apply (codec : Codec P) (s : System P) : RotationStep P → System P
  | .swap => s.swap
  | .push memtable => s.push memtable
  | .take => s.triggerFlush
  | .write task timestamp => s.runTask codec task timestamp

/-- The condition on the state before a step under which a reader of the id does
not see it. -/
def Unseen (codec : Codec P) (s : System P) (id : VectorId) : RotationStep P → Prop
  | .swap =>
    match s.engine.memtable.get id with
    | none => True
    | some (.put vector) =>
      s.engine.queued id = some (.put vector) ∨
        (∀ other, s.engine.queued id ≠ some (.put other)) ∧ Stored codec s id vector
    | some .delete =>
      ∀ vector, s.engine.queued id = some (.put vector) → Stored codec s id vector
  | .push memtable =>
    s.entry id = none → ∀ vector, memtable.get id = some (.put vector) → Stored codec s id vector
  | .take =>
    s.engine.flushHandle = false → s.engine.memtable.get id = none →
      ∀ vector, s.engine.queued id = some (.put vector) → Stored codec s id vector
  | .write task timestamp =>
    ∀ config memtable rest, s.tasks[task]? = some { config, immutable := memtable :: rest } →
      (∀ vector, s.entry id ≠ some (.put vector)) →
        ∀ table, (s.engine.tables.find? fun table => table.mayContain id) = some table →
          table.path = { level := 0, timestamp } →
            StorageEngine.getFromFile codec
                (s.files.write table.path (System.flushedTable codec config memtable))
                table.path id =
              StorageEngine.getFromFile codec s.files table.path id

section Steps

variable (codec : Codec P) (s : System P) (id : VectorId)

theorem entry_swap : s.swap.entry id = s.engine.queued id := by
  have hempty : s.swap.engine.memtable.get id = none := MemTable.get_new _ id
  rw [System.entry, hempty, Option.none_or]
  rfl

theorem entry_push (memtable : MemTable P) :
    (s.push memtable).entry id = (s.entry id).or (memtable.get id) := by
  have hqueued : (s.push memtable).engine.queued id =
      (s.engine.queued id).or (memtable.get id) := by
    show (s.engine.immutable ++ [memtable]).findSome? _ = _
    rw [List.findSome?_append, List.findSome?_singleton]
    rfl
  rw [System.entry, hqueued, System.entry, Option.or_assoc]
  rfl

theorem entry_take (hhandle : s.engine.flushHandle = false) :
    s.triggerFlush.entry id = s.engine.memtable.get id := by
  rw [System.triggerFlush, if_neg (by simp [hhandle]), System.entry]
  show (s.engine.memtable.get id).or none = _
  rw [Option.or_none]

theorem swap_unseen_iff : s.swap.get codec id = s.get codec id ↔ Unseen codec s id .swap := by
  have htables : s.swap.fromTables codec id = s.fromTables codec id := rfl
  rw [System.get_eq_answer, System.get_eq_answer, entry_swap, htables, System.entry, Unseen]
  simp only [stored_iff]
  rcases s.engine.memtable.get id with _ | vector | _
  · simp
  · exact answer_eq_some_iff
  · exact answer_eq_tables_iff _ _

theorem push_unseen_iff (memtable : MemTable P) :
    (s.push memtable).get codec id = s.get codec id ↔ Unseen codec s id (.push memtable) := by
  have htables : (s.push memtable).fromTables codec id = s.fromTables codec id := rfl
  rw [System.get_eq_answer, System.get_eq_answer, entry_push, htables, Unseen]
  simp only [stored_iff]
  cases hentry : s.entry id with
  | none =>
    rw [Option.none_or]
    have hiff := answer_eq_tables_iff (memtable.get id) (s.fromTables codec id)
    simpa [answer] using hiff
  | some entry => simp

theorem take_unseen_iff :
    s.triggerFlush.get codec id = s.get codec id ↔ Unseen codec s id .take := by
  rw [Unseen]
  cases hhandle : s.engine.flushHandle with
  | true =>
    rw [System.triggerFlush, if_pos hhandle]
    simp
  | false =>
    have htables : s.triggerFlush.fromTables codec id = s.fromTables codec id := by
      rw [System.triggerFlush, if_neg (by simp [hhandle])]
      rfl
    rw [System.get_eq_answer, System.get_eq_answer, entry_take s id hhandle, htables,
      System.entry]
    simp only [stored_iff, true_implies]
    cases hactive : s.engine.memtable.get id with
    | none =>
      rw [Option.none_or]
      have hiff := answer_eq_tables_iff (s.engine.queued id) (s.fromTables codec id)
      rw [eq_comm]
      simpa [answer] using hiff
    | some entry => simp

/-- A write changes what the tables answer only through the first covering
table, when the file has that table's name; so does what a reader makes of the
answer. -/
theorem fromTables_runTask {γ : Type*} (g : Except RTDBError (Option (Vector P)) → γ)
    (timestamp : Nat) {task : Nat} {config : StorageConfig} {memtable : MemTable P}
    {rest : List (MemTable P)}
    (htask : s.tasks[task]? = some { config, immutable := memtable :: rest }) :
    g ((s.runTask codec task timestamp).fromTables codec id) = g (s.fromTables codec id) ↔
      ∀ table, (s.engine.tables.find? fun table => table.mayContain id) = some table →
        table.path = { level := 0, timestamp } →
          g (StorageEngine.getFromFile codec
              (s.files.write table.path (System.flushedTable codec config memtable))
              table.path id) =
            g (StorageEngine.getFromFile codec s.files table.path id) := by
  have hrun : (s.runTask codec task timestamp).fromTables codec id =
      s.engine.getFromSstables codec (s.files.write { level := 0, timestamp }
        (System.flushedTable codec config memtable)) id := by
    rw [System.fromTables, System.runTask, htask]
    rfl
  rw [hrun, System.fromTables, StorageEngine.getFromSstables, StorageEngine.getFromSstables]
  cases hfind : s.engine.tables.find? fun table => table.mayContain id with
  | none => simp
  | some table =>
    simp only [Option.some.injEq, forall_eq']
    by_cases hpath : table.path = { level := 0, timestamp }
    · rw [hpath]
      simp
    · rw [StorageEngine.getFromFile, StorageEngine.getFromFile, Files.read_write_ne _ _ hpath]
      simp [hpath]

theorem write_unseen_iff (task timestamp : Nat) :
    (s.runTask codec task timestamp).get codec id = s.get codec id ↔
      Unseen codec s id (.write task timestamp) := by
  have hentry : (s.runTask codec task timestamp).entry id = s.entry id := by
    rw [System.runTask]
    split <;> rfl
  rw [System.get_eq_answer, System.get_eq_answer, hentry, Unseen]
  cases htask : s.tasks[task]? with
  | none =>
    rw [System.runTask, htask]
    simp
  | some flushTask =>
    obtain ⟨config, _ | ⟨memtable, rest⟩⟩ := flushTask
    · rw [System.runTask, htask]
      simp
    · have htables := fromTables_runTask codec s id (fun result => result) timestamp htask
      simp only [Option.some.injEq, FlushTask.mk.injEq, List.cons.injEq, and_imp]
      rcases s.entry id with _ | vector | _
      · simpa [answer] using htables
      · simp [answer]
      · simpa [answer] using htables

theorem step_unseen_iff (step : RotationStep P) :
    (step.apply codec s).get codec id = s.get codec id ↔ Unseen codec s id step := by
  cases step with
  | swap => exact swap_unseen_iff codec s id
  | push memtable => exact push_unseen_iff codec s id memtable
  | take => exact take_unseen_iff codec s id
  | write task timestamp => exact write_unseen_iff codec s id task timestamp

end Steps

/-! ## Interleavings -/

/-- The steps in the order in which they happen, whoever makes them. -/
def runRotation (codec : Codec P) (s : System P) (steps : List (RotationStep P)) : System P :=
  steps.foldl (RotationStep.apply codec) s

/-- At every point of an interleaving the reader's answer outlives the step
exactly when the step meets its condition there. -/
theorem rotation_unseen_iff (codec : Codec P) (s : System P) (id : VectorId)
    (steps : List (RotationStep P)) :
    (∀ before step after, steps = before ++ step :: after →
        (runRotation codec s (before ++ [step])).get codec id =
          (runRotation codec s before).get codec id) ↔
      ∀ before step after, steps = before ++ step :: after →
        Unseen codec (runRotation codec s before) id step := by
  have hstep : ∀ before step, runRotation codec s (before ++ [step]) =
      RotationStep.apply codec (runRotation codec s before) step := by
    intro before step
    rw [runRotation, List.foldl_append]
    rfl
  constructor
  · intro hget before step after hsteps
    have hat := hget before step after hsteps
    rw [hstep] at hat
    exact (step_unseen_iff codec _ id step).mp hat
  · intro hunseen before step after hsteps
    rw [hstep]
    exact (step_unseen_iff codec _ id step).mpr (hunseen before step after hsteps)

/-- An engine inside `put`, whose active memtable has just grown over the
threshold. -/
def grown : System Unit :=
  let s := System.create (sampleConfig 70)
  { s with
    engine := { s.engine with
      memtable := (s.engine.memtable.put sampleCodec 1
        { data := [0x3F800000], payload := none }).1 } }

/-- Swapping the memtable out takes the vector away until it is pushed. -/
theorem not_rotation_unseen_grown :
    grown.engine.memtable.shouldFlush = true ∧
      grown.get sampleCodec 1 = .ok (some { data := [0x3F800000], payload := none }) ∧
      (runRotation sampleCodec grown [.swap]).get sampleCodec 1 = .ok none := by
  decide +kernel

end Storage
end RTDB
