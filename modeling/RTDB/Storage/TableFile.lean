import RTDB.Storage.Engine

/-!
# Files that the builder wrote

Whatever is added to a builder, opening the finished file does not panic: the
footer points at the index, and the index decodes entry by entry.
-/

namespace RTDB
namespace Storage

open Bytes Outcomes

variable {P : Type}

/-! ## The builder's position -/

namespace SSTableBuilder

variable (codec : Codec P)

/-- The builder knows where its file ends. -/
def AtEnd (b : SSTableBuilder P) : Prop := b.position = b.file.length

theorem AtEnd.flushBlock {b : SSTableBuilder P} (hb : b.AtEnd) : (b.flushBlock codec).AtEnd := by
  rw [SSTableBuilder.flushBlock]
  split
  · exact hb
  · cases b.firstKey with
    | none => exact hb
    | some firstKey =>
      show b.position + _ = (b.file ++ _).length
      rw [List.length_append, show b.position = b.file.length from hb]

theorem AtEnd.add {b : SSTableBuilder P} (hb : b.AtEnd) (id : VectorId) (vector : Vector P) :
    (b.add codec id vector).AtEnd := by
  rw [SSTableBuilder.add]
  split
  · exact hb
  · exact AtEnd.flushBlock codec (b := { b with firstKey := some (b.firstKey.getD id) }) hb

theorem AtEnd.foldl (entries : List (VectorId × Vector P)) {b : SSTableBuilder P} (hb : b.AtEnd) :
    (entries.foldl (fun b entry => b.add codec entry.1 entry.2) b).AtEnd := by
  induction entries generalizing b with
  | nil => exact hb
  | cons entry entries ih => exact ih (hb.add codec entry.1 entry.2)

end SSTableBuilder

/-! ## Opening -/

/-- The call ends, with a value or an error that a caller can see. -/
def NoPanic {α : Type} (result : Except RTDBError α) : Prop :=
  ∀ msg, result ≠ .error (.panic msg)

theorem NoPanic.error {α β : Type} {result : Except RTDBError α} {e : RTDBError}
    (hresult : NoPanic result) (herr : result = .error e) :
    NoPanic (.error e : Except RTDBError β) := by
  intro msg hpanic
  obtain rfl : e = .panic msg := Except.error.inj hpanic
  exact hresult msg herr

theorem noPanic_storage {α : Type} (msg : String) :
    NoPanic (.error (.storage msg) : Except RTDBError α) := fun _ => by simp

theorem encodeIndex_entries_length (index : List IndexEntry) :
    (index.flatMap fun entry =>
      leBytes 8 entry.key ++ leBytes 8 entry.offset ++ leBytes 4 entry.size).length =
        20 * index.length := by
  induction index with
  | nil => rfl
  | cons entry index ih =>
    rw [List.flatMap_cons, List.length_append, ih, List.length_cons]
    simp only [List.length_append, length_leBytes]
    omega

theorem decodeIndexEntries_noPanic (count : Nat) {data : List UInt8} (hdata : 20 ∣ data.length) :
    NoPanic (decodeIndexEntries count data) := by
  induction count generalizing data with
  | zero => exact fun msg => by simp [decodeIndexEntries]
  | succ count ih =>
    obtain ⟨n, hn⟩ := hdata
    rw [decodeIndexEntries]
    split
    · exact fun msg => by simp
    · rw [if_neg (by omega)]
      have hrest : 20 ∣ (data.drop 20).length := by
        rw [List.length_drop]
        exact ⟨n - 1, by omega⟩
      intro msg
      have hih := ih hrest msg
      cases hread : decodeIndexEntries count (data.drop 20) with
      | error e =>
        rw [hread] at hih
        exact fun herr => hih (congrArg _ (Except.error.inj herr))
      | ok entries => simp [Except.map]

theorem decodeIndex_noPanic (index : List IndexEntry) :
    NoPanic (decodeIndex (encodeIndex index)) := by
  rw [decodeIndex]
  split
  · exact fun msg => by simp
  · refine decodeIndexEntries_noPanic _ ⟨index.length, ?_⟩
    rw [encodeIndex, List.drop_left' (length_leBytes 4 _), encodeIndex_entries_length]

theorem readAt_noPanic {file : List UInt8} {offset size : Nat} (hsize : size < 2 ^ 63) :
    NoPanic (readAt file offset size) := by
  intro msg
  rw [readAt]
  split
  · simp
  · rw [if_neg (by omega)]
    split
    · simp
    · split <;> simp

/-- Reading a part of a file gives that part, unless it begins too far out to be
addressed. -/
theorem readAt_part {front part rest bytes : List UInt8} (hpart : part.length < 2 ^ 63)
    (hread : readAt (front ++ (part ++ rest)) front.length part.length = .ok bytes) :
    bytes = part := by
  rw [readAt] at hread
  split at hread
  · exact absurd hread (by simp)
  · rw [if_neg (by omega)] at hread
    split at hread
    · rename_i hempty
      rw [List.eq_nil_of_length_eq_zero hempty]
      exact (Except.ok.inj hread).symm
    · rw [List.drop_left' rfl, List.take_left' rfl] at hread
      split at hread
      · exact (Except.ok.inj hread).symm
      · exact absurd hread (by simp)

theorem readFromEnd_part (front part rest : List UInt8) {bytes : List UInt8} {distance size : Nat}
    (hdistance : (part ++ rest).length = distance) (hsize : part.length = size)
    (hpart : size < 2 ^ 63)
    (hread : readFromEnd (front ++ (part ++ rest)) distance size = .ok bytes) :
    bytes = part := by
  subst hsize
  rw [readFromEnd, if_neg (by rw [List.length_append]; omega), List.length_append, hdistance,
    Nat.add_sub_cancel] at hread
  exact readAt_part hpart hread

theorem readFromEnd_noPanic {file : List UInt8} {distance size : Nat} (hsize : size < 2 ^ 63) :
    NoPanic (readFromEnd file distance size) := by
  rw [readFromEnd]
  split
  · exact fun msg => by simp
  · exact readAt_noPanic hsize

theorem footer_decode_encode {f : Footer} (hoffset : f.indexOffset < 2 ^ 64)
    (hsize : f.indexSize < 2 ^ 64) (hmeta : f.metaOffset < 2 ^ 64) :
    Footer.decode f.encode = .ok f := by
  have hlen : f.encode.length = 24 := by simp [Footer.encode]
  have hfirst : f.encode.take 8 = leBytes 8 f.indexOffset := by
    rw [Footer.encode, List.append_assoc, List.take_left' (length_leBytes 8 _)]
  have hrest : f.encode.drop 8 = leBytes 8 f.indexSize ++ leBytes 8 f.metaOffset := by
    rw [Footer.encode, List.append_assoc, List.drop_left' (length_leBytes 8 _)]
  have hlast : f.encode.drop 16 = leBytes 8 f.metaOffset := by
    rw [← List.drop_drop (i := 8) (j := 8), hrest, List.drop_left' (length_leBytes 8 _)]
  rw [Footer.decode, if_neg (by omega), hfirst, hrest, hlast,
    List.take_left' (length_leBytes 8 _), List.take_of_length_le (by rw [length_leBytes]),
    leNat_leBytes_of_lt hoffset, leNat_leBytes_of_lt hsize, leNat_leBytes_of_lt hmeta]

theorem readFromEnd_lt {file bytes : List UInt8} {distance size : Nat}
    (hread : readFromEnd file distance size = .ok bytes) : file.length < 2 ^ 63 + distance := by
  rw [readFromEnd] at hread
  split at hread
  · omega
  · rw [readAt] at hread
    split at hread
    · exact absurd hread (by simp)
    · omega

/-- The layout of a finished file: blocks, index, metadata, footer, trailer. -/
def tableFile (blocks index metadata : List UInt8) : List UInt8 :=
  blocks ++ index ++ metadata ++
    (Footer.mk blocks.length index.length (blocks.length + index.length)).encode ++
    leBytes 4 sstableMagic ++ leBytes 4 sstableVersion

theorem trailer_leNat :
    leNat ((leBytes 4 sstableMagic ++ leBytes 4 sstableVersion).take 4) = sstableMagic ∧
      leNat ((leBytes 4 sstableMagic ++ leBytes 4 sstableVersion).drop 4) = sstableVersion := by
  rw [List.take_left' (length_leBytes 4 _), List.drop_left' (length_leBytes 4 _)]
  exact ⟨leNat_leBytes_of_lt (by decide), leNat_leBytes_of_lt (by decide)⟩

theorem tableFile_length (blocks index metadata : List UInt8) :
    (tableFile blocks index metadata).length =
      blocks.length + index.length + metadata.length + 32 := by
  simp only [tableFile, Footer.encode, List.length_append, length_leBytes]

section Opening

variable {blocks index metadata bytes : List UInt8}

theorem read_trailer (hread : readFromEnd (tableFile blocks index metadata) 8 8 = .ok bytes) :
    bytes = leBytes 4 sstableMagic ++ leBytes 4 sstableVersion := by
  rw [tableFile, List.append_assoc, ← List.append_nil (leBytes 4 sstableMagic ++ _)] at hread
  exact readFromEnd_part _ _ [] (by simp) (by simp) (by decide) hread

theorem read_footer (hread : readFromEnd (tableFile blocks index metadata) 32 24 = .ok bytes) :
    bytes = (Footer.mk blocks.length index.length (blocks.length + index.length)).encode := by
  rw [tableFile, List.append_assoc, List.append_assoc] at hread
  exact readFromEnd_part _ _ _ (by simp [Footer.encode]) (by simp [Footer.encode]) (by decide) hread

theorem read_index (hlen : index.length < 2 ^ 63)
    (hread : readAt (tableFile blocks index metadata) blocks.length index.length = .ok bytes) :
    bytes = index := by
  have hsplit : ∃ rest, tableFile blocks index metadata = blocks ++ (index ++ rest) := by
    rw [tableFile]
    simp only [List.append_assoc]
    exact ⟨_, rfl⟩
  obtain ⟨rest, hrest⟩ := hsplit
  rw [hrest] at hread
  exact readAt_part hlen hread

theorem openFile_noPanic (codec : Codec P) (path : Path) (hindex : NoPanic (decodeIndex index)) :
    NoPanic (SSTable.openFile codec path (tableFile blocks index metadata)) := by
  have hlen := tableFile_length blocks index metadata
  rw [SSTable.openFile]
  cases htrailer : readFromEnd (tableFile blocks index metadata) 8 8 with
  | error e => exact (readFromEnd_noPanic (by decide)).error htrailer
  | ok trailer =>
    have hlt := readFromEnd_lt htrailer
    obtain rfl := read_trailer htrailer
    simp only [trailer_leNat, ne_eq, not_true_eq_false, if_false]
    cases hfooter : readFromEnd (tableFile blocks index metadata) 32 24 with
    | error e => exact (readFromEnd_noPanic (by decide)).error hfooter
    | ok footerBuf =>
      obtain rfl := read_footer hfooter
      simp only [footer_decode_encode (f := Footer.mk blocks.length index.length
        (blocks.length + index.length)) (show _ < _ by dsimp only; omega)
        (show _ < _ by dsimp only; omega) (show _ < _ by dsimp only; omega)]
      split
      · exact noPanic_storage _
      · cases hmeta : readAt (tableFile blocks index metadata) (blocks.length + index.length)
            ((tableFile blocks index metadata).length - 32 - (blocks.length + index.length)) with
        | error e => exact (readAt_noPanic (by omega)).error hmeta
        | ok metaBuf =>
          dsimp only
          cases codec.metaFromSlice metaBuf with
          | error e => exact fun msg => by simp
          | ok metadata' =>
            dsimp only
            cases hread : readAt (tableFile blocks index metadata) blocks.length index.length with
            | error e => exact (readAt_noPanic (by omega)).error hread
            | ok indexBuf =>
              obtain rfl := read_index (by omega) hread
              dsimp only
              cases hdecode : decodeIndex indexBuf with
              | error e => exact hindex.error hdecode
              | ok entries => exact fun msg => by simp

end Opening

theorem finish_eq (codec : Codec P) {b : SSTableBuilder P} (hb : b.AtEnd) :
    ∃ index metadata, b.finish codec =
      tableFile (b.flushBlock codec).file (encodeIndex index) metadata := by
  have hend : (b.flushBlock codec).position = (b.flushBlock codec).file.length :=
    hb.flushBlock codec
  rw [SSTableBuilder.finish]
  simp only [hend]
  exact ⟨_, _, rfl⟩

/-- No file that the builder finishes makes opening panic. -/
theorem build_noPanic (codec : Codec P) (path : Path) (dimension blockSize level : Nat)
    (entries : List (VectorId × Vector P)) :
    NoPanic (SSTable.openFile codec path
      (SSTableBuilder.build codec dimension blockSize level entries)) := by
  have hstart : (SSTableBuilder.create dimension .none blockSize level : SSTableBuilder P).AtEnd :=
    rfl
  obtain ⟨index, metadata, hfinish⟩ := finish_eq codec (hstart.foldl codec entries)
  rw [SSTableBuilder.build, hfinish]
  exact openFile_noPanic codec path (decodeIndex_noPanic index)

/-! ## Loading a directory -/

/-- Every file of the directory opens without a panic. -/
def Loadable (codec : Codec P) (files : Files) : Prop :=
  ∀ path bytes, files.read path = some bytes → NoPanic (SSTable.openFile codec path bytes)

theorem loadable_empty (codec : Codec P) : Loadable codec (fun _ => ∅) := by
  intro path bytes hread
  rw [Files.read, Std.TreeMap.getElem?_emptyc] at hread
  exact absurd hread (by simp)

theorem Loadable.write {codec : Codec P} {files : Files} (hfiles : Loadable codec files)
    (path : Path) (dimension blockSize level : Nat) (entries : List (VectorId × Vector P)) :
    Loadable codec
      (files.write path (SSTableBuilder.build codec dimension blockSize level entries)) := by
  intro path' bytes hread
  by_cases hpath : path' = path
  · subst hpath
    rw [Files.read_write_self] at hread
    rw [← Option.some.inj hread]
    exact build_noPanic codec path' dimension blockSize level entries
  · rw [Files.read_write_ne files _ hpath] at hread
    exact hfiles path' bytes hread

theorem loadLevel_ok {codec : Codec P} {level : Nat} (listed : List (Nat × List UInt8))
    (hlisted : ∀ file ∈ listed,
      NoPanic (SSTable.openFile codec { level, timestamp := file.1 } file.2)) :
    ∃ tables, loadLevel codec level listed = .ok tables := by
  induction listed with
  | nil => exact ⟨[], rfl⟩
  | cons file listed ih =>
    obtain ⟨tables, htables⟩ := ih fun file' hfile' => hlisted file' (List.mem_cons_of_mem _ hfile')
    have hfile := hlisted file List.mem_cons_self
    obtain ⟨timestamp, bytes⟩ := file
    rw [loadLevel]
    rcases hopen : SSTable.openFile codec { level, timestamp } bytes with e | table
    · cases e with
      | panic msg => exact absurd hopen (hfile msg)
      | storage msg => exact ⟨tables, htables⟩
      | serialization msg => exact ⟨tables, htables⟩
    · simp only [htables]
      exact ⟨table :: tables, rfl⟩

theorem Loadable.load {codec : Codec P} {files : Files} (hfiles : Loadable codec files) :
    ∃ levels, loadSstables codec files = .ok levels := by
  refine mapM_ok _ fun level _ => loadLevel_ok _ fun file hfile => ?_
  have hread : files.read { level, timestamp := file.1 } = some file.2 := by
    rw [Files.read]
    exact Std.TreeMap.mem_toList_iff_getElem?_eq_some.mp hfile
  exact hfiles _ _ hread

end Storage
end RTDB
