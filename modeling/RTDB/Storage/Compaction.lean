import RTDB.Storage.Scan

/-!
# Compaction

The merged table goes to the next level, but the files of the inputs are never
removed, and the levels are read back from the directory.  So the level that was
compacted has all of its tables again.
-/

namespace RTDB
namespace Storage

open Outcomes

variable {P : Type}

/-! ## Levels and their directories -/

/-- Every level is what its directory holds. -/
theorem loadSstables_level {codec : Codec P} {files : Files} {levels : List (List SSTable)}
    (hload : loadSstables codec files = .ok levels) {level : Nat} (hlevel : level < 7) :
    ∃ tables, loadLevel codec level (files level).toList = .ok tables ∧
      levels[level]? = some tables := by
  obtain ⟨tables, htables, hlevel⟩ := (getElem?_of_mapM hload level).1 level (by simp [hlevel])
  exact ⟨tables, hlevel, htables⟩

/-- The files of a level that open. -/
def opens (codec : Codec P) (level : Nat) (file : Nat × List UInt8) : Bool :=
  match SSTable.openFile codec { level, timestamp := file.1 } file.2 with
  | .ok _ => true
  | .error _ => false

theorem loadLevel_length {codec : Codec P} {level : Nat} {listed : List (Nat × List UInt8)}
    {tables : List SSTable} (hload : loadLevel codec level listed = .ok tables) :
    tables.length = listed.countP (opens codec level) := by
  induction listed generalizing tables with
  | nil =>
    obtain rfl := Except.ok.inj hload
    rfl
  | cons file listed ih =>
    obtain ⟨timestamp, bytes⟩ := file
    rw [loadLevel] at hload
    rw [List.countP_cons]
    cases hopen : SSTable.openFile codec { level, timestamp } bytes with
    | ok table =>
      simp only [hopen] at hload
      obtain ⟨tables', htables', rfl⟩ := map_eq_ok hload
      have hcount : opens codec level (timestamp, bytes) = true := by rw [opens, hopen]
      rw [List.length_cons, ih htables', if_pos hcount]
    | error e =>
      have hcount : opens codec level (timestamp, bytes) = false := by rw [opens, hopen]
      have hrest : loadLevel codec level listed = .ok tables := by
        cases e with
        | panic msg =>
          simp only [hopen] at hload
          exact absurd hload (by simp)
        | storage msg => simpa only [hopen] using hload
        | serialization msg => simpa only [hopen] using hload
      rw [ih hrest, hcount]
      rfl

/-! ## A successful compaction -/

theorem mergeSstables_files {codec : Codec P} {files files' : Files} {sstables : List SSTable}
    {path : Path} (hmerge : System.mergeSstables codec files sstables path = .ok files') :
    files' = files ∨ ∃ bytes, files' = files.write path bytes := by
  rw [System.mergeSstables] at hmerge
  split at hmerge
  · exact absurd hmerge (by simp)
  · split at hmerge
    · exact Or.inl (Except.ok.inj hmerge).symm
    · exact Or.inr ⟨_, (Except.ok.inj hmerge).symm⟩

/-- What a successful call does to a level with four tables or more. -/
theorem compactLevel_ok {codec : Codec P} {s s' : System P} {level timestamp : Nat}
    {tables : List SSTable} (hlevel : level < 6) (htables : s.engine.levels[level]? = some tables)
    (hlength : 4 ≤ tables.length)
    (hcompact : s.compactLevel codec level timestamp = (s', .ok ())) :
    ∃ levels files, loadSstables codec files = .ok levels ∧
      (files = s.files ∨ ∃ bytes, files = s.files.write { level := level + 1, timestamp } bytes) ∧
      s' = { s with engine := { s.engine with levels }, files } := by
  rw [System.compactLevel, if_neg (by omega), htables] at hcompact
  simp only [if_neg (show ¬ tables.length < 4 by omega)] at hcompact
  cases hmerge : System.mergeSstables codec s.files (tables.take 4)
      { level := level + 1, timestamp } with
  | error e =>
    rw [hmerge] at hcompact
    exact absurd (congrArg Prod.snd hcompact) (by simp)
  | ok files =>
    simp only [hmerge] at hcompact
    cases hload : loadSstables codec files with
    | error e =>
      rw [hload] at hcompact
      exact absurd (congrArg Prod.snd hcompact) (by simp)
    | ok levels =>
      rw [hload] at hcompact
      exact ⟨levels, files, hload, mergeSstables_files hmerge, (congrArg Prod.fst hcompact).symm⟩

def System.tableCount (s : System P) (level : Nat) : Nat := (s.engine.levels.getD level []).length

section Compacted

variable {codec : Codec P} {s s' : System P} {level timestamp : Nat} {tables : List SSTable}

/-- Every other level, the compacted one among them, keeps its tables. -/
theorem compactLevel_keeps (hload : loadSstables codec s.files = .ok s.engine.levels)
    (hlevel : level < 6) (htables : s.engine.levels[level]? = some tables)
    (hlength : 4 ≤ tables.length)
    (hcompact : s.compactLevel codec level timestamp = (s', .ok ())) {other : Nat}
    (hother : other < 7) (hne : other ≠ level + 1) :
    s'.engine.levels[other]? = s.engine.levels[other]? := by
  obtain ⟨levels, files, hload', hfiles, rfl⟩ :=
    compactLevel_ok hlevel htables hlength hcompact
  have hdir : files other = s.files other := by
    rcases hfiles with rfl | ⟨bytes, rfl⟩
    · rfl
    · exact Function.update_of_ne hne _ _
  obtain ⟨before, hbefore, hlevels⟩ := loadSstables_level hload hother
  obtain ⟨after, hafter, hlevels'⟩ := loadSstables_level hload' hother
  rw [hdir, hbefore] at hafter
  rw [hlevels', hlevels, Except.ok.inj hafter]

/-! ## Progress -/

/-- What a compaction is for. -/
structure Compacts (codec : Codec P) (s s' : System P) (level : Nat) : Prop where
  get : ∀ id, s'.fromTables codec id = s.fromTables codec id
  scan : ∀ start stop, s'.scan codec start stop = s.scan codec start stop
  shrinks : s'.tableCount level + 4 = s.tableCount level
  grows : s'.tableCount (level + 1) ≤ s.tableCount (level + 1) + 1

/-- No successful compaction takes tables from its level. -/
theorem not_compacts (hload : loadSstables codec s.files = .ok s.engine.levels)
    (hlevel : level < 6) (htables : s.engine.levels[level]? = some tables)
    (hlength : 4 ≤ tables.length)
    (hcompact : s.compactLevel codec level timestamp = (s', .ok ())) :
    ¬ Compacts codec s s' level := by
  intro hcompacts
  have hkeeps := compactLevel_keeps hload hlevel htables hlength hcompact
    (show level < 7 by omega) (by omega)
  have hcount := hcompacts.shrinks
  simp only [System.tableCount, List.getD_eq_getElem?_getD, hkeeps] at hcount
  omega

end Compacted

/-! ## Four tables -/

/-- The metadata of the table into which four versions of a vector are merged. -/
def mergedMeta : SSTableMeta := { sampleMeta with dimension := 1, level := 1 }

def mergedCodec : Codec Unit := sampleCodecWith [sampleMeta, mergedMeta]

/-- The text of the metadata up to the digits of dimension and level, as bytes: the kernel is slow
to take a text apart. -/
def mergedText (dimension level : UInt8) : List UInt8 :=
  [123, 34, 118, 101, 114, 115, 105, 111, 110, 34, 58, 49, 44, 34, 100, 105, 109, 101, 110, 115, 105,
    111, 110, 34, 58, dimension, 44, 34, 101, 110, 116, 114, 121, 95, 99, 111, 117, 110, 116, 34, 58,
    49, 44, 34, 109, 105, 110, 95, 105, 100, 34, 58, 49, 44, 34, 109, 97, 120, 95, 105, 100, 34, 58,
    49, 44, 34, 99, 111, 109, 112, 114, 101, 115, 115, 105, 111, 110, 34, 58, 34, 78, 111, 110, 101,
    34, 44, 34, 98, 108, 111, 99, 107, 95, 115, 105, 122, 101, 34, 58, 52, 48, 57, 54, 44, 34, 108,
    101, 118, 101, 108, 34, 58, level, 125]

def readyCodec : Codec Unit :=
  { sampleCodec with
    metaToVec := fun m =>
      if m = sampleMeta then mergedText 48 48
      else if m = mergedMeta then mergedText 49 49
      else ascii (metaText m)
    metaFromSlice := fun bytes =>
      if mergedText 48 48 = bytes then .ok sampleMeta
      else if mergedText 49 49 = bytes then .ok mergedMeta
      else .error "not a sample" }

theorem mergedCodec_eq : mergedCodec = readyCodec := by
  have hsample : ascii (metaText sampleMeta) = mergedText 48 48 := by decide +kernel
  have hmerged : ascii (metaText mergedMeta) = mergedText 49 49 := by decide +kernel
  rw [mergedCodec, sampleCodecWith, readyCodec, Codec.mk.injEq]
  refine ⟨rfl, rfl, rfl, rfl, funext fun m => ?_, funext fun bytes => ?_⟩
  · by_cases hfirst : m = sampleMeta
    · rw [if_pos hfirst, hfirst, hsample]
    · rw [if_neg hfirst]
      by_cases hsecond : m = mergedMeta
      · rw [if_pos hsecond, hsecond, hmerged]
      · rw [if_neg hsecond]
  · rw [List.find?_cons, List.find?_cons, hsample, hmerged]
    by_cases hfirst : mergedText 48 48 = bytes
    · rw [if_pos hfirst, decide_eq_true hfirst]
    · rw [if_neg hfirst, decide_eq_false hfirst]
      by_cases hsecond : mergedText 49 49 = bytes
      · rw [if_pos hsecond, decide_eq_true hsecond]
      · rw [if_neg hsecond, decide_eq_false hsecond]
        rfl

def fourFiles : Files :=
  [0x3F800000, 0x40000000, 0x40400000, 0x40800000].foldlIdx
    (fun i files component =>
      files.write { level := 0, timestamp := 10 * i }
        (SSTableBuilder.build mergedCodec 0 4096 0
          [(1, { data := [component], payload := none })]))
    fun _ => ∅

def fourTables : System Unit where
  engine :=
    { (System.create (sampleConfig 4096) : System Unit).engine with
      levels := (loadSstables mergedCodec fourFiles).toOption.getD [] }
  files := fourFiles
  tasks := []

theorem fourTables_compact :
    loadSstables mergedCodec fourTables.files = .ok fourTables.engine.levels ∧
      fourTables.engine.levels.map List.length = [4, 0, 0, 0, 0, 0, 0] ∧
      (fourTables.compactLevel mergedCodec 0 100).2 = .ok () ∧
      (fourTables.compactLevel mergedCodec 0 100).1.engine.levels.map List.length =
        [4, 1, 0, 0, 0, 0, 0] := by
  rw [fourTables, fourFiles, mergedCodec_eq]
  decide +kernel

theorem tableCount_eq (s : System P) (level : Nat) :
    s.tableCount level = (s.engine.levels.map List.length).getD level 0 := by
  rw [System.tableCount, List.getD_eq_getElem?_getD, List.getD_eq_getElem?_getD, List.getElem?_map]
  cases s.engine.levels[level]? <;> rfl

/-- The compaction succeeds, and the level still has its four tables. -/
theorem not_compacts_fourTables :
    loadSstables mergedCodec fourTables.files = .ok fourTables.engine.levels ∧
      fourTables.tableCount 0 = 4 ∧
      (fourTables.compactLevel mergedCodec 0 100).2 = .ok () ∧
      ¬ Compacts mergedCodec fourTables (fourTables.compactLevel mergedCodec 0 100).1 0 := by
  obtain ⟨hload, hbefore, hok, hafter⟩ := fourTables_compact
  refine ⟨hload, by rw [tableCount_eq, hbefore]; rfl, hok, fun hcompacts => ?_⟩
  have hcount := hcompacts.shrinks
  rw [tableCount_eq, tableCount_eq, hbefore, hafter] at hcount
  exact absurd hcount (by decide)

theorem fourTables_stay :
    ∃ s', fourTables.compactLevel mergedCodec 0 100 = (s', .ok ()) ∧
      ¬ Compacts mergedCodec fourTables s' 0 := by
  obtain ⟨hload, hbefore, hok, -⟩ := fourTables_compact
  obtain ⟨tables, htables, hlength⟩ :
      ∃ tables, fourTables.engine.levels[0]? = some tables ∧ tables.length = 4 := by
    have hfirst := congrArg (fun lengths : List Nat => lengths[0]?) hbefore
    rw [List.getElem?_map] at hfirst
    exact Option.map_eq_some_iff.mp hfirst
  generalize hcompact : fourTables.compactLevel mergedCodec 0 100 = outcome at hok ⊢
  obtain ⟨s', result⟩ := outcome
  obtain rfl : result = .ok () := hok
  exact ⟨s', rfl, not_compacts hload (by decide) htables (by omega) hcompact⟩

end Storage
end RTDB
