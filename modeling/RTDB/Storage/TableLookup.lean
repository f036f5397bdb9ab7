import RTDB.Storage.Engine
import RTDB.Storage.TableRoundTrip

/-!
# Lookups in the tables of all levels

The first table whose range covers an id decides, whether it has the id or not.
-/

namespace RTDB
namespace Storage

open Layers StorageEngine

variable {P : Type} {codec : Codec P} {files : Files} {e : StorageEngine P}
  {contents : SSTable → List (VectorId × Vector P)}

/-- Every table is the map of its contents: its file opens as the table, and gives what they list. -/
structure Shelved (codec : Codec P) (files : Files) (e : StorageEngine P)
    (contents : SSTable → List (VectorId × Vector P)) : Prop where
  sorted : ∀ table ∈ e.tables, (contents table).Pairwise (·.1 < ·.1)
  reads : ∀ table ∈ e.tables, ∃ bytes, files.read table.path = some bytes ∧
    SSTable.openFile codec table.path bytes = .ok table ∧
      ∀ id, table.get codec (some bytes) id = .ok (held (contents table) id)

theorem openFile_path {path : Path} {file : List UInt8} {table : SSTable}
    (hopen : SSTable.openFile codec path file = .ok table) : table.path = path := by
  simp only [SSTable.openFile] at hopen
  repeat' split at hopen
  all_goals cases hopen
  rfl

namespace Shelved

variable {table : SSTable} {id : VectorId} {v : Vector P}

theorem getFromFile (hshelved : Shelved codec files e contents) (htable : table ∈ e.tables)
    (id : VectorId) :
    StorageEngine.getFromFile codec files table.path id = .ok (held (contents table) id) := by
  obtain ⟨bytes, hread, hopen, hget⟩ := hshelved.reads table htable
  simp only [StorageEngine.getFromFile, hread, hopen]
  exact hget id

/-- A table covers what it has. -/
theorem mayContain (hshelved : Shelved codec files e contents) (htable : table ∈ e.tables)
    (hheld : held (contents table) id = some v) : table.mayContain id = true := by
  obtain ⟨bytes, -, -, hget⟩ := hshelved.reads table htable
  have hfound := hget id
  rw [SSTable.get, hheld] at hfound
  split at hfound
  · exact absurd (Except.ok.inj hfound) (by simp)
  · next hrange =>
    rw [not_or] at hrange
    rw [SSTable.mayContain, Bool.and_eq_true]
    exact ⟨by simpa using hrange.1, by simpa using hrange.2⟩

/-- The first table that covers the id has it, or none has. -/
def Decided (e : StorageEngine P) (contents : SSTable → List (VectorId × Vector P)) (id : VectorId) :
    Prop :=
  ∀ table, (e.tables.find? fun table => table.mayContain id) = some table →
    held (contents table) id = none → ∀ other ∈ e.tables, held (contents other) id = none

theorem firstHeld_eq_none_iff {tables : List SSTable} :
    firstHeld (tables.map contents) id = none ↔ ∀ table ∈ tables, held (contents table) id = none := by
  rw [firstHeld, List.findSome?_eq_none_iff, List.forall_mem_map]

/-- What the first table that covers the id has is what the first one has that has anything. -/
theorem firstHeld_of_find {tables : List SSTable} (hcovers : ∀ table ∈ tables, ∀ v,
      held (contents table) id = some v → table.mayContain id = true)
    (hfind : (tables.find? fun table => table.mayContain id) = some table)
    (hheld : held (contents table) id = some v) :
    firstHeld (tables.map contents) id = some v := by
  induction tables with
  | nil => exact absurd hfind (by simp)
  | cons first tables ih =>
    obtain ⟨hfirst, hcovers⟩ := List.forall_mem_cons.mp hcovers
    rw [List.map_cons, firstHeld_cons]
    rw [List.find?_cons] at hfind
    cases hrange : first.mayContain id with
    | true =>
      rw [hrange] at hfind
      obtain rfl := Option.some.inj hfind
      rw [hheld, Option.some_or]
    | false =>
      rw [hrange] at hfind
      have hnone : held (contents first) id = none := by
        rw [Option.eq_none_iff_forall_ne_some]
        intro w hw
        exact absurd (hrange.symm.trans (hfirst w hw)) (by simp)
      rw [hnone, Option.none_or]
      exact ih hcovers hfind

end Shelved

/-- A lookup gives what the first table with the id has, exactly when that is the first to cover it or
there is none. -/
theorem lookup_first_iff (hshelved : Shelved codec files e contents) (id : VectorId) :
    e.getFromSstables codec files id = .ok (firstHeld (e.tables.map contents) id) ↔
      Shelved.Decided e contents id := by
  rw [getFromSstables, Shelved.Decided]
  cases hfind : e.tables.find? fun table => table.mayContain id with
  | none =>
    have hnone : firstHeld (e.tables.map contents) id = none := by
      rw [Shelved.firstHeld_eq_none_iff]
      intro table htable
      rw [Option.eq_none_iff_forall_ne_some]
      intro v hv
      exact List.find?_eq_none.mp hfind table htable (hshelved.mayContain htable hv)
    exact iff_of_true (by rw [hnone]) fun table htable => absurd htable (by simp)
  | some table =>
    have htable := List.mem_of_find?_eq_some hfind
    show StorageEngine.getFromFile codec files table.path id = _ ↔ _
    rw [hshelved.getFromFile htable]
    cases hheld : held (contents table) id with
    | some v =>
      have hfirst := Shelved.firstHeld_of_find (fun table htable v hv => hshelved.mayContain htable hv)
        hfind hheld
      refine iff_of_true (by rw [hfirst]) fun other hother hnone => ?_
      obtain rfl := Option.some.inj hother
      exact absurd (hheld.symm.trans hnone) (by simp)
    | none =>
      constructor
      · intro hsame _ _ _
        exact Shelved.firstHeld_eq_none_iff.mp (Except.ok.inj hsame).symm
      · intro hdecided
        rw [Shelved.firstHeld_eq_none_iff.mpr (hdecided table rfl hheld)]

/-! ## Two tables -/

/-- A table of ids 1 and 3, and an older one of id 2. -/
def newerEntries : List (VectorId × Vector Unit) :=
  [(1, { data := [0x3F800000], payload := none }), (3, { data := [0x40400000], payload := none })]

def olderEntries : List (VectorId × Vector Unit) := [(2, { data := [0x40000000], payload := none })]

def rangeCodec : Codec Unit :=
  sampleCodecWith [tableMeta 0 .none 4096 0 newerEntries, tableMeta 0 .none 4096 0 olderEntries]

def rangePath (timestamp : Nat) : Path := { level := 0, timestamp }

def rangeBytes (entries : List (VectorId × Vector Unit)) : List UInt8 :=
  tableBytes rangeCodec 0 .none 4096 0 entries

def rangeTable (timestamp : Nat) (entries : List (VectorId × Vector Unit)) : SSTable :=
  ((SSTable.openFile rangeCodec (rangePath timestamp) (rangeBytes entries)).toOption).getD
    { metadata := sampleMeta, index := [], path := rangePath timestamp }

def rangeFiles : Files :=
  Files.write (Files.write (fun _ => ∅) (rangePath 10) (rangeBytes olderEntries)) (rangePath 20)
    (rangeBytes newerEntries)

def rangeEngine : StorageEngine Unit :=
  { (System.create (sampleConfig 4096) : System Unit).engine with
    levels := [[rangeTable 10 olderEntries, rangeTable 20 newerEntries], [], [], [], [], [], []] }

def rangeContents (table : SSTable) : List (VectorId × Vector Unit) :=
  if table.path = rangePath 20 then newerEntries else olderEntries

theorem rangeTable_opens (timestamp : Nat) {entries : List (VectorId × Vector Unit)}
    (htrips : RoundTrips rangeCodec (rangePath timestamp) (rangeBytes entries) entries) :
    SSTable.openFile rangeCodec (rangePath timestamp) (rangeBytes entries) =
        .ok (rangeTable timestamp entries) ∧
      ∀ id, (rangeTable timestamp entries).get rangeCodec (some (rangeBytes entries)) id =
        .ok (held entries id) := by
  obtain ⟨table, hopen, hget, -⟩ := htrips
  have htable : rangeTable timestamp entries = table := by
    rw [rangeTable, hopen]
    rfl
  rw [htable]
  exact ⟨hopen, hget⟩

theorem newerEntries_trips :
    RoundTrips rangeCodec (rangePath 20) (rangeBytes newerEntries) newerEntries :=
  roundTrips_of_fits (rangePath 20) (sampleCodecWith_faithful (by decide +kernel) (by decide +kernel))
    (by decide) (by unfold Writable; decide)
    { block := by decide +kernel, blocks := by decide +kernel, file := by decide +kernel }

theorem olderEntries_trips :
    RoundTrips rangeCodec (rangePath 10) (rangeBytes olderEntries) olderEntries :=
  roundTrips_of_fits (rangePath 10) (sampleCodecWith_faithful (by decide +kernel) (by decide +kernel))
    (by decide) (by unfold Writable; decide)
    { block := by decide +kernel, blocks := by decide +kernel, file := by decide +kernel }

theorem rangeTable_paths : (rangeTable 20 newerEntries).path = rangePath 20 ∧
    (rangeTable 10 olderEntries).path = rangePath 10 :=
  ⟨openFile_path (rangeTable_opens 20 newerEntries_trips).1,
    openFile_path (rangeTable_opens 10 olderEntries_trips).1⟩

theorem rangeEngine_tables :
    rangeEngine.tables = [rangeTable 20 newerEntries, rangeTable 10 olderEntries] := rfl

theorem rangeEngine_shelved : Shelved rangeCodec rangeFiles rangeEngine rangeContents := by
  obtain ⟨hnewer, holder⟩ := rangeTable_paths
  have hfirst : rangeContents (rangeTable 20 newerEntries) = newerEntries := if_pos hnewer
  have hsecond : rangeContents (rangeTable 10 olderEntries) = olderEntries := by
    rw [rangeContents, holder, if_neg (by decide)]
  have hread : rangeFiles.read (rangePath 20) = some (rangeBytes newerEntries) :=
    Files.read_write_self _ _ _
  have hread' : rangeFiles.read (rangePath 10) = some (rangeBytes olderEntries) := by
    rw [rangeFiles, Files.read_write_ne _ _ (by decide), Files.read_write_self]
  constructor
  · rw [rangeEngine_tables, List.forall_mem_cons, List.forall_mem_singleton, hfirst, hsecond]
    exact ⟨by decide, by decide⟩
  · rw [rangeEngine_tables, List.forall_mem_cons, List.forall_mem_singleton, hfirst, hsecond, hnewer,
      holder]
    exact ⟨⟨_, hread, rangeTable_opens 20 newerEntries_trips⟩,
      ⟨_, hread', rangeTable_opens 10 olderEntries_trips⟩⟩

theorem lookup_first_range :
    Shelved rangeCodec rangeFiles rangeEngine rangeContents ∧
      (rangeEngine.getFromSstables rangeCodec rangeFiles 3 =
          .ok (firstHeld (rangeEngine.tables.map rangeContents) 3) ↔
        Shelved.Decided rangeEngine rangeContents 3) :=
  ⟨rangeEngine_shelved, lookup_first_iff rangeEngine_shelved 3⟩

/-- The newer table covers id 2, which only the older one has. -/
theorem not_lookup_first_range :
    Shelved rangeCodec rangeFiles rangeEngine rangeContents ∧
      rangeEngine.getFromSstables rangeCodec rangeFiles 2 = .ok none ∧
      firstHeld (rangeEngine.tables.map rangeContents) 2 =
        some { data := [0x40000000], payload := none } := by
  obtain ⟨hnewer, holder⟩ := rangeTable_paths
  refine ⟨rangeEngine_shelved, by decide +kernel, ?_⟩
  rw [rangeEngine_tables, List.map_cons, List.map_cons, rangeContents, rangeContents, hnewer, holder,
    if_pos rfl, if_neg (by decide)]
  decide

end Storage
end RTDB
