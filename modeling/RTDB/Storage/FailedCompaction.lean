import RTDB.Storage.Compaction

/-!
# Compactions that fail

`compact_level` where the operating system refuses some of its calls.  The
inputs leave their level before anything that can fail, and nothing puts them
back.
-/

namespace RTDB
namespace Storage

variable {P : Type}

/-- A write of the merged table that fails: its file is not opened, or is cut off
behind some of its bytes. -/
inductive WriteFault where
  | create (msg : String)
  | cut (written : Nat) (msg : String)
  deriving DecidableEq, Repr

/-- The calls of one compaction that the operating system refuses. -/
structure Faults where
  createDir : Option String
  read : Path → Option String
  write : Option WriteFault
  reload : Option String

def noFaults : Faults := { createDir := none, read := fun _ => none, write := none, reload := none }

/-- An error that the caller gets to see; a panic is none. -/
def Fails {α : Type} (result : Except RTDBError α) : Prop :=
  ∃ e, result = .error e ∧ ∀ msg, e ≠ .panic msg

namespace System

variable (codec : Codec P) (faults : Faults)

/-- `sstable.scan(None, None)`. -/
def readTable (files : Files) (table : SSTable) : Except RTDBError (List (VectorId × Vector P)) :=
  match faults.read table.path with
  | some msg => .error (.storage msg)
  | none => table.scan codec (files.read table.path) none none

/-- `mergeEntries` with faults. -/
def mergeEntriesWith (files : Files) (merged : Std.TreeMap VectorId (Vector P)) :
    List SSTable → Except RTDBError (Std.TreeMap VectorId (Vector P))
  | [] => .ok merged
  | table :: rest =>
    match readTable codec faults files table with
    | .error e => .error e
    | .ok entries =>
      mergeEntriesWith files (entries.foldl (fun m kv => m.insert kv.1 kv.2) merged) rest

/-- What the builder leaves in the directory, and its answer. -/
def writeTable (files : Files) (path : Path) (bytes : List UInt8) : Files × Except RTDBError Unit :=
  match faults.write with
  | none => (files.write path bytes, .ok ())
  | some (.create msg) => (files, .error (.storage msg))
  | some (.cut written msg) => (files.write path (bytes.take written), .error (.storage msg))

def mergeSstablesWith (files : Files) (sstables : List SSTable) (path : Path) :
    Files × Except RTDBError Unit :=
  match mergeEntriesWith codec faults files ∅ sstables with
  | .error e => (files, .error e)
  | .ok merged =>
    match merged.toList with
    | [] => (files, .ok ())
    | (id, vector) :: rest =>
      writeTable faults files path
        (SSTableBuilder.build codec vector.data.length 4096 path.level ((id, vector) :: rest))

def loadSstablesWith (files : Files) : Except RTDBError (List (List SSTable)) :=
  match faults.reload with
  | some msg => .error (.storage msg)
  | none => loadSstables codec files

def compactLevelWith (s : System P) (level timestamp : Nat) : System P × Except RTDBError Unit :=
  if level ≥ 6 then (s, .ok ())
  else
    match s.engine.levels[level]? with
    | none => (s, .ok ())
    | some sstables =>
      if sstables.length < 4 then (s, .ok ())
      else
        let drained : System P :=
          { s with
            engine := { s.engine with levels := s.engine.levels.set level (sstables.drop 4) } }
        match faults.createDir with
        | some msg => (drained, .error (.storage msg))
        | none =>
          match mergeSstablesWith codec faults s.files (sstables.take 4)
              { level := level + 1, timestamp } with
          | (files, .error e) => ({ drained with files }, .error e)
          | (files, .ok ()) =>
            match loadSstablesWith codec faults files with
            | .error e => ({ drained with files }, .error e)
            | .ok levels => ({ s with engine := { s.engine with levels }, files }, .ok ())

end System

/-! ## Without faults -/

section NoFaults

variable (codec : Codec P)

theorem readTable_noFaults (files : Files) (table : SSTable) :
    System.readTable codec noFaults files table =
      table.scan codec (files.read table.path) none none := rfl

theorem mergeEntriesWith_noFaults (files : Files) (merged : Std.TreeMap VectorId (Vector P))
    (tables : List SSTable) :
    System.mergeEntriesWith codec noFaults files merged tables =
      System.mergeEntries codec files merged tables := by
  induction tables generalizing merged with
  | nil => rfl
  | cons table rest ih =>
    rw [System.mergeEntriesWith, System.mergeEntries, readTable_noFaults]
    cases table.scan codec (files.read table.path) none none with
    | error e => rfl
    | ok entries => exact ih _

theorem mergeSstablesWith_noFaults (files : Files) (tables : List SSTable) (path : Path) :
    System.mergeSstablesWith codec noFaults files tables path =
      ((System.mergeSstables codec files tables path).toOption.getD files,
        (System.mergeSstables codec files tables path).map fun _ => ()) := by
  rw [System.mergeSstablesWith, System.mergeSstables, mergeEntriesWith_noFaults]
  cases System.mergeEntries codec files ∅ tables with
  | error e => rfl
  | ok merged =>
    dsimp only
    cases merged.toList <;> rfl

/-- Where nothing is refused this is the compaction of the engine. -/
theorem compactLevelWith_noFaults (s : System P) (level timestamp : Nat) :
    s.compactLevelWith codec noFaults level timestamp = s.compactLevel codec level timestamp := by
  rw [System.compactLevelWith, System.compactLevel]
  by_cases hlevel : level ≥ 6
  · rw [if_pos hlevel, if_pos hlevel]
  · rw [if_neg hlevel, if_neg hlevel]
    cases s.engine.levels[level]? with
    | none => rfl
    | some sstables =>
      by_cases hlength : sstables.length < 4
      · simp only [if_pos hlength]
      · simp only [if_neg hlength, mergeSstablesWith_noFaults]
        cases System.mergeSstables codec s.files (sstables.take 4)
            { level := level + 1, timestamp } with
        | error e => rfl
        | ok files =>
          cases hload : loadSstables codec files <;>
            simp [noFaults, System.loadSstablesWith, Except.toOption, Except.map, hload]

end NoFaults

/-! ## What fails -/

section Outcomes

variable (codec : Codec P) (faults : Faults)

def Readable (files : Files) (table : SSTable) : Prop :=
  ∃ entries, System.readTable codec faults files table = .ok entries

def FirstUnreadable (files : Files) (tables : List SSTable) : Prop :=
  ∃ before table after, tables = before ++ table :: after ∧
    (∀ t ∈ before, Readable codec faults files t) ∧
    Fails (System.readTable codec faults files table)

variable {codec faults}

theorem not_fails_ok {α : Type} (a : α) : ¬ Fails (.ok a : Except RTDBError α) := by
  rintro ⟨e, herr, -⟩
  exact absurd herr (by simp)

theorem fails_error_congr {α β : Type} {e : RTDBError} :
    Fails (.error e : Except RTDBError α) ↔ Fails (.error e : Except RTDBError β) := by
  simp only [Fails, Except.error.injEq]

theorem fails_storage {α : Type} (msg : String) :
    Fails (.error (.storage msg) : Except RTDBError α) := ⟨_, rfl, fun _ => by simp⟩

theorem firstUnreadable_cons {files : Files} {table : SSTable} {rest : List SSTable} :
    FirstUnreadable codec faults files (table :: rest) ↔
      Fails (System.readTable codec faults files table) ∨
        Readable codec faults files table ∧ FirstUnreadable codec faults files rest := by
  constructor
  · rintro ⟨before, first, after, hsplit, hbefore, hfails⟩
    cases before with
    | nil =>
      obtain ⟨rfl, -⟩ := List.cons.inj hsplit
      exact Or.inl hfails
    | cons t before =>
      obtain ⟨rfl, hrest⟩ := List.cons.inj hsplit
      exact Or.inr ⟨hbefore _ List.mem_cons_self, before, first, after, hrest,
        fun t ht => hbefore t (List.mem_cons_of_mem _ ht), hfails⟩
  · rintro (hfails | ⟨hreadable, before, first, after, rfl, hbefore, hfails⟩)
    · exact ⟨[], table, rest, rfl, fun t ht => absurd ht List.not_mem_nil, hfails⟩
    · exact ⟨table :: before, first, after, rfl, List.forall_mem_cons.mpr ⟨hreadable, hbefore⟩,
        hfails⟩

theorem mergeEntriesWith_fails_iff {files : Files} (merged : Std.TreeMap VectorId (Vector P))
    {tables : List SSTable} :
    Fails (System.mergeEntriesWith codec faults files merged tables) ↔
      FirstUnreadable codec faults files tables := by
  induction tables generalizing merged with
  | nil =>
    refine iff_of_false (not_fails_ok merged) ?_
    rintro ⟨before, table, after, hsplit, -⟩
    exact absurd hsplit (by simp)
  | cons table rest ih =>
    rw [System.mergeEntriesWith, firstUnreadable_cons, Readable]
    cases hread : System.readTable codec faults files table with
    | error e => simpa using fails_error_congr
    | ok entries => simpa [not_fails_ok] using ih _

theorem mergeEntriesWith_ok_iff {files : Files} (merged : Std.TreeMap VectorId (Vector P))
    {tables : List SSTable} :
    (∃ m, System.mergeEntriesWith codec faults files merged tables = .ok m) ↔
      ∀ table ∈ tables, Readable codec faults files table := by
  induction tables generalizing merged with
  | nil => exact iff_of_true ⟨merged, rfl⟩ fun table htable => absurd htable List.not_mem_nil
  | cons table rest ih =>
    rw [System.mergeEntriesWith, List.forall_mem_cons, Readable]
    cases hread : System.readTable codec faults files table with
    | error e => simp
    | ok entries => simpa using ih _

theorem isEmpty_foldl_insert (entries : List (VectorId × Vector P))
    (merged : Std.TreeMap VectorId (Vector P)) :
    (entries.foldl (fun m kv => m.insert kv.1 kv.2) merged).isEmpty =
      (merged.isEmpty && entries.isEmpty) := by
  induction entries generalizing merged with
  | nil => simp
  | cons entry entries ih => rw [List.foldl_cons, ih, Std.TreeMap.isEmpty_insert]; simp

/-- Nothing is merged where no table has an entry. -/
theorem mergeEntriesWith_isEmpty {files : Files} {merged m : Std.TreeMap VectorId (Vector P)}
    {tables : List SSTable}
    (hmerge : System.mergeEntriesWith codec faults files merged tables = .ok m) :
    m.isEmpty = true ↔ merged.isEmpty = true ∧
      ∀ table ∈ tables, System.readTable codec faults files table = .ok [] := by
  induction tables generalizing merged with
  | nil =>
    rw [Except.ok.inj hmerge]
    simp
  | cons table rest ih =>
    rw [System.mergeEntriesWith] at hmerge
    rw [List.forall_mem_cons]
    cases hread : System.readTable codec faults files table with
    | error e =>
      rw [hread] at hmerge
      exact absurd hmerge (by simp)
    | ok entries =>
      rw [hread] at hmerge
      rw [ih hmerge, isEmpty_foldl_insert, Bool.and_eq_true, List.isEmpty_iff, and_assoc,
        Except.ok.injEq]

def HasEntries (codec : Codec P) (faults : Faults) (files : Files) (tables : List SSTable) : Prop :=
  ∃ table ∈ tables, System.readTable codec faults files table ≠ .ok []

theorem writeTable_fails_iff {files : Files} {path : Path} {bytes : List UInt8} :
    Fails (System.writeTable faults files path bytes).2 ↔ faults.write ≠ none := by
  rw [System.writeTable]
  cases hwrite : faults.write with
  | none => simpa using not_fails_ok ()
  | some fault => cases fault <;> simpa using fails_storage _

theorem writeTable_ok_iff {files : Files} {path : Path} {bytes : List UInt8} :
    (System.writeTable faults files path bytes).2 = .ok () ↔ faults.write = none := by
  rw [System.writeTable]
  cases hwrite : faults.write with
  | none => simp
  | some fault => cases fault <;> simp

section Merge

variable {files : Files} {tables : List SSTable} (path : Path)

/-- Merging after all inputs gave their entries. -/
theorem mergeSstablesWith_of_readable
    (hreadable : ∀ table ∈ tables, Readable codec faults files table) :
    ((System.mergeSstablesWith codec faults files tables path).2 = .ok () ∨
        Fails (System.mergeSstablesWith codec faults files tables path).2) ∧
      (Fails (System.mergeSstablesWith codec faults files tables path).2 ↔
        HasEntries codec faults files tables ∧ faults.write ≠ none) := by
  obtain ⟨merged, hmerge⟩ := (mergeEntriesWith_ok_iff ∅).mpr hreadable
  have hempty := mergeEntriesWith_isEmpty hmerge
  have hentries : HasEntries codec faults files tables ↔ merged.toList ≠ [] := by
    rw [HasEntries, Ne, ← List.isEmpty_iff, Std.TreeMap.isEmpty_toList, hempty]
    simp
  rw [hentries, System.mergeSstablesWith, hmerge]
  dsimp only
  cases merged.toList with
  | nil => simp [not_fails_ok]
  | cons entry rest =>
    obtain ⟨id, vector⟩ := entry
    refine ⟨?_, by rw [writeTable_fails_iff]; simp⟩
    by_cases hwrite : faults.write = none
    · exact Or.inl (writeTable_ok_iff.mpr hwrite)
    · exact Or.inr (writeTable_fails_iff.mpr hwrite)

theorem mergeSstablesWith_of_not_readable
    (hnot : ¬ ∀ table ∈ tables, Readable codec faults files table) :
    (System.mergeSstablesWith codec faults files tables path).2 ≠ .ok () ∧
      (Fails (System.mergeSstablesWith codec faults files tables path).2 ↔
        FirstUnreadable codec faults files tables) := by
  rw [← mergeEntriesWith_fails_iff ∅, System.mergeSstablesWith]
  cases hmerge : System.mergeEntriesWith codec faults files ∅ tables with
  | error e => exact ⟨by simp, fails_error_congr⟩
  | ok merged => exact absurd ((mergeEntriesWith_ok_iff ∅).mp ⟨merged, hmerge⟩) hnot

end Merge

theorem not_firstUnreadable {files : Files} {tables : List SSTable}
    (hreadable : ∀ table ∈ tables, Readable codec faults files table) :
    ¬ FirstUnreadable codec faults files tables := by
  rw [← mergeEntriesWith_fails_iff ∅]
  obtain ⟨merged, hmerge⟩ := (mergeEntriesWith_ok_iff ∅).mpr hreadable
  rw [hmerge]
  exact not_fails_ok merged

theorem not_fails_map {α β : Type} {f : α → β} {result : Except RTDBError α}
    (hnot : ¬ Fails result) : ¬ Fails (result.map f) := by
  cases result with
  | error e => exact fun hfails => hnot (fails_error_congr.mp hfails)
  | ok a => exact not_fails_ok _

/-- Files that do not open are skipped. -/
theorem loadLevel_not_fails (level : Nat) (listed : List (Nat × List UInt8)) :
    ¬ Fails (loadLevel codec level listed) := by
  induction listed with
  | nil => exact not_fails_ok _
  | cons file listed ih =>
    obtain ⟨timestamp, bytes⟩ := file
    rw [loadLevel]
    cases SSTable.openFile codec { level, timestamp } bytes with
    | ok table => exact not_fails_map ih
    | error e =>
      cases e with
      | panic msg =>
        rintro ⟨e, herr, hnopanic⟩
        exact hnopanic msg (Except.error.inj herr).symm
      | storage msg => exact ih
      | serialization msg => exact ih

theorem not_fails_mapM {α β : Type} {f : α → Except RTDBError β} {l : List α}
    (hl : ∀ a ∈ l, ¬ Fails (f a)) : ¬ Fails (l.mapM f) := by
  induction l with
  | nil => exact not_fails_ok _
  | cons a l ih =>
    obtain ⟨hfirst, hrest⟩ := List.forall_mem_cons.mp hl
    rw [List.mapM_cons]
    cases hf : f a with
    | error e =>
      rw [hf] at hfirst
      exact fun hfails => hfirst (fails_error_congr.mp hfails)
    | ok b => exact not_fails_map (ih hrest)

/-- Only a refused call makes the reload fail. -/
theorem loadSstablesWith_fails_iff (files : Files) :
    Fails (System.loadSstablesWith codec faults files) ↔ faults.reload ≠ none := by
  rw [System.loadSstablesWith]
  cases faults.reload with
  | some msg => exact iff_of_true (fails_storage msg) (by simp)
  | none =>
    exact iff_of_false (not_fails_mapM fun level _ => loadLevel_not_fails level _) (by simp)

/-! ## What a failure leaves -/

variable (codec faults) in
/-- There are tables to compact, and a call on the way does not succeed. -/
def Disturbed (s : System P) (level : Nat) : Prop :=
  ∃ tables, level < 6 ∧ s.engine.levels[level]? = some tables ∧ 4 ≤ tables.length ∧
    (faults.createDir ≠ none ∨ FirstUnreadable codec faults s.files (tables.take 4) ∨
      (∀ table ∈ tables.take 4, Readable codec faults s.files table) ∧
        (HasEntries codec faults s.files (tables.take 4) ∧ faults.write ≠ none ∨
          faults.reload ≠ none))

variable {s : System P} {level : Nat} (timestamp : Nat)

/-- Behind a merge that went through, only the listing of the tables can fail. -/
theorem disturbed_merged_iff {files : Files} {inputs : List SSTable}
    (hreadable : ∀ table ∈ inputs, Readable codec faults files table)
    (hwritten : ¬ (HasEntries codec faults files inputs ∧ faults.write ≠ none)) :
    (FirstUnreadable codec faults files inputs ∨
      (∀ table ∈ inputs, Readable codec faults files table) ∧
        (HasEntries codec faults files inputs ∧ faults.write ≠ none ∨ faults.reload ≠ none)) ↔
      faults.reload ≠ none := by
  constructor
  · rintro (hunreadable | ⟨-, hwrite | hrefused⟩)
    · exact absurd hunreadable (not_firstUnreadable hreadable)
    · exact absurd hwrite hwritten
    · exact hrefused
  · exact fun hrefused => Or.inr ⟨hreadable, Or.inr hrefused⟩

/-- A call with something to compact: the inputs are gone from their level whenever it fails. -/
theorem compactLevelWith_of_enough {tables : List SSTable} (hlevel : level < 6)
    (htables : s.engine.levels[level]? = some tables) (hlength : 4 ≤ tables.length) :
    (Fails (s.compactLevelWith codec faults level timestamp).2 ↔
      faults.createDir ≠ none ∨ FirstUnreadable codec faults s.files (tables.take 4) ∨
        (∀ table ∈ tables.take 4, Readable codec faults s.files table) ∧
          (HasEntries codec faults s.files (tables.take 4) ∧ faults.write ≠ none ∨
            faults.reload ≠ none)) ∧
      (Fails (s.compactLevelWith codec faults level timestamp).2 →
        (s.compactLevelWith codec faults level timestamp).1.engine.levels =
          s.engine.levels.set level (tables.drop 4)) := by
  rw [System.compactLevelWith, if_neg (by omega), htables]
  simp only [if_neg (show ¬ tables.length < 4 by omega)]
  cases hdir : faults.createDir with
  | some msg => exact ⟨iff_of_true (fails_storage msg) (Or.inl (by simp)), fun _ => rfl⟩
  | none =>
    have hdropped : ∀ p : Prop, ((none : Option String) ≠ none ∨ p ↔ p) := fun p => by simp
    rw [hdropped]
    dsimp only
    by_cases hreadable : ∀ table ∈ tables.take 4, Readable codec faults s.files table
    · have hmerge := mergeSstablesWith_of_readable { level := level + 1, timestamp } hreadable
      generalize System.mergeSstablesWith codec faults s.files (tables.take 4)
        { level := level + 1, timestamp } = outcome at hmerge ⊢
      obtain ⟨files, result⟩ := outcome
      obtain ⟨hends, hmerge⟩ := hmerge
      cases result with
      | error e =>
        have hfails : Fails (.error e : Except RTDBError Unit) := hends.resolve_left (by simp)
        exact ⟨iff_of_true hfails (Or.inr ⟨hreadable, Or.inl (hmerge.mp hfails)⟩), fun _ => rfl⟩
      | ok u =>
        have hwritten := mt hmerge.mpr (not_fails_ok u)
        have hreload : Fails (System.loadSstablesWith codec faults files) ↔ faults.reload ≠ none :=
          loadSstablesWith_fails_iff files
        rw [disturbed_merged_iff hreadable hwritten, ← hreload]
        dsimp only
        cases System.loadSstablesWith codec faults files with
        | error e => exact ⟨fails_error_congr, fun _ => rfl⟩
        | ok levels =>
          exact ⟨iff_of_false (not_fails_ok ()) (not_fails_ok levels),
            fun hfails => absurd hfails (not_fails_ok ())⟩
    · have hmerge := mergeSstablesWith_of_not_readable { level := level + 1, timestamp }
        hreadable
      generalize System.mergeSstablesWith codec faults s.files (tables.take 4)
        { level := level + 1, timestamp } = outcome at hmerge ⊢
      obtain ⟨files, result⟩ := outcome
      obtain ⟨hnot, hmerge⟩ := hmerge
      cases result with
      | error e =>
        refine ⟨hmerge.trans ⟨Or.inl, ?_⟩, fun _ => rfl⟩
        exact fun hunreadable => hunreadable.resolve_right fun hall => hreadable hall.1
      | ok u => exact absurd rfl hnot

theorem compactLevelWith_fails_iff :
    Fails (s.compactLevelWith codec faults level timestamp).2 ↔
      Disturbed codec faults s level := by
  constructor
  · intro hfails
    by_cases henough : ∃ tables, level < 6 ∧ s.engine.levels[level]? = some tables ∧
        4 ≤ tables.length
    · obtain ⟨tables, hlevel, htables, hlength⟩ := henough
      exact ⟨tables, hlevel, htables, hlength,
        (compactLevelWith_of_enough timestamp hlevel htables hlength).1.mp hfails⟩
    · rw [System.compactLevelWith] at hfails
      split at hfails
      · exact absurd hfails (not_fails_ok ())
      · split at hfails
        · exact absurd hfails (not_fails_ok ())
        · rename_i tables htables
          split at hfails
          · exact absurd hfails (not_fails_ok ())
          · exact absurd ⟨tables, by omega, htables, by omega⟩ henough
  · rintro ⟨tables, hlevel, htables, hlength, hdisturbed⟩
    exact (compactLevelWith_of_enough timestamp hlevel htables hlength).1.mpr hdisturbed

/-- The inputs are gone from their level. -/
theorem compactLevelWith_drains
    (hfails : Fails (s.compactLevelWith codec faults level timestamp).2) :
    (s.compactLevelWith codec faults level timestamp).1.tableCount level + 4 =
      s.tableCount level := by
  obtain ⟨tables, hlevel, htables, hlength, -⟩ := (compactLevelWith_fails_iff timestamp).mp hfails
  have hlt : level < s.engine.levels.length := (List.getElem?_eq_some_iff.mp htables).1
  rw [System.tableCount, (compactLevelWith_of_enough timestamp hlevel htables hlength).2 hfails,
    System.tableCount, List.getD_eq_getElem?_getD, List.getD_eq_getElem?_getD,
    List.getElem?_set_self hlt, htables, Option.getD_some, Option.getD_some, List.length_drop]
  omega

variable (codec faults) in
/-- A failed call leaves the levels, and what every get and scan answers. -/
def FailureKeeps (s : System P) (level timestamp : Nat) : Prop :=
  Fails (s.compactLevelWith codec faults level timestamp).2 →
    (s.compactLevelWith codec faults level timestamp).1.engine.levels = s.engine.levels ∧
      (∀ id, (s.compactLevelWith codec faults level timestamp).1.get codec id = s.get codec id) ∧
      ∀ start stop, (s.compactLevelWith codec faults level timestamp).1.scan codec start stop =
        s.scan codec start stop

/-- A compaction changes nothing when it fails exactly where nothing makes it fail. -/
theorem failureKeeps_iff (codec : Codec P) (faults : Faults) (s : System P)
    (level timestamp : Nat) :
    FailureKeeps codec faults s level timestamp ↔ ¬ Disturbed codec faults s level := by
  rw [← compactLevelWith_fails_iff timestamp]
  constructor
  · intro hkeeps hfails
    have hdrains := compactLevelWith_drains timestamp hfails
    have hsame : (s.compactLevelWith codec faults level timestamp).1.tableCount level =
        s.tableCount level := by rw [System.tableCount, (hkeeps hfails).1, System.tableCount]
    omega
  · exact fun hnot hfails => absurd hfails hnot

end Outcomes

/-- The second of four tables cannot be read. -/
def unreadable : Faults :=
  { noFaults with
    read := fun path =>
      if path = { level := 0, timestamp := 10 } then some "Input/output error (os error 5)"
      else none }

/-- The call fails, and the level has lost its four tables. -/
theorem not_failureKeeps : ¬ FailureKeeps mergedCodec unreadable fourTables 0 100 := by
  have hoff : (fourTables.compactLevelWith mergedCodec unreadable 0 100).2 =
      .error (.storage "Input/output error (os error 5)") := by
    rw [fourTables, fourFiles, mergedCodec_eq]
    decide +kernel
  have hfails : Fails (fourTables.compactLevelWith mergedCodec unreadable 0 100).2 := by
    rw [hoff]
    exact fails_storage _
  intro hkeeps
  have hdrains := compactLevelWith_drains 100 hfails
  have hsame : (fourTables.compactLevelWith mergedCodec unreadable 0 100).1.tableCount 0 =
      fourTables.tableCount 0 := by rw [System.tableCount, (hkeeps hfails).1, System.tableCount]
  omega

end Storage
end RTDB
