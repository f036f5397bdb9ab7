import RTDB.Lib.Paging
import RTDB.Migration.Clients

/-!
# What is extracted from files

A page of JSON lines is counted in lines, and a page of a Parquet file ends with the chunk it begins
in; the producer goes on by `batch_size` all the same, and takes the first empty page for the end.
-/

namespace RTDB
namespace Migration

open Storage Paging Producer

variable {F : Type}

/-- The producer runs from the start of the source to its end, and sends the records in order. -/
def Complete (source : SourceClient Unit F) (batchSize : Nat) (records : List (VectorRecord F)) :
    Prop :=
  ∃ batches, Extracts source batchSize (Producer.start batchSize () none) batches (.ok ()) ∧
    sent batches = records

section pages

variable {source : SourceClient Unit F} {batchSize : Nat} {page : Nat → List (VectorRecord F)}

/-- From page `k` on, the producer sends the pages up to the first empty one. -/
theorem extracts_pages
    (hfetch : ∀ k, source.fetchBatch () (k * batchSize) batchSize = (.ok (page k), ())) (n : Nat) :
    ∀ k batchId : Nat, (∀ j, k ≤ j → j < k + n → page j ≠ [] ∧ j * batchSize + batchSize < 2 ^ 64) →
      page (k + n) = [] →
      ∃ batches, Extracts source batchSize { client := (), offset := k * batchSize, batchId } batches
          (.ok ()) ∧
        sent batches = (List.range' k n).flatMap page := by
  induction n with
  | zero =>
    intro k batchId _ hend
    rw [Nat.add_zero] at hend
    have hturn := turn_of_empty (p := { client := (), offset := k * batchSize, batchId })
      ((hfetch k).trans (by rw [hend]))
    exact ⟨[], (extracts_of_stop hturn).mpr ⟨rfl, rfl⟩, rfl⟩
  | succ n ih =>
    intro k batchId hpages hend
    obtain ⟨hne, hfits⟩ := hpages k (Nat.le_refl k) (by omega)
    have hturn := turn_of_records (p := { client := (), offset := k * batchSize, batchId })
      (hfetch k) hne
    rw [wrappingAdd_eq hfits, ← Nat.succ_mul] at hturn
    obtain ⟨batches, hrest, hsent⟩ := ih (k + 1) (wrappingAdd batchId 1)
      (fun j hj hlt => hpages j (by omega) (by omega)) (by rw [Nat.add_right_comm]; exact hend)
    refine ⟨_, (extracts_of_batch hturn).mpr ⟨batches, rfl, hrest⟩, ?_⟩
    rw [List.range'_succ, List.flatMap_cons, ← hsent]
    rfl

/-- The extraction is complete if the pages before the first empty one hold all records. -/
theorem complete_iff {records : List (VectorRecord F)} {K : Nat}
    (hfetch : ∀ k, source.fetchBatch () (k * batchSize) batchSize = (.ok (page k), ()))
    (hpages : ∀ k, k < K → page k ≠ [] ∧ k * batchSize + batchSize < 2 ^ 64) (hend : page K = []) :
    Complete source batchSize records ↔ (List.range K).flatMap page = records := by
  obtain ⟨batches, hextracts, hsent⟩ := extracts_pages hfetch K 0 0
    (fun j _ hlt => hpages j (by omega)) (by rw [Nat.zero_add]; exact hend)
  rw [Nat.zero_mul] at hextracts
  rw [← List.range_eq_range'] at hsent
  constructor
  · rintro ⟨batches', hextracts', rfl⟩
    rw [← hsent, (hextracts.unique hextracts').1]
  · intro heq
    exact ⟨batches, hextracts, hsent.trans heq⟩

/-- Offsets inside the source do not wrap. -/
theorem offset_fits {k size : Nat} (hbatch : batchSize < 2 ^ 64) (hsize : size < 2 ^ 63)
    (hinside : k * batchSize < size) : k * batchSize + batchSize < 2 ^ 64 := by
  cases k with
  | zero => omega
  | succ k =>
    rw [Nat.succ_mul] at hinside ⊢
    omega

end pages

/-! ## JSON lines -/

section jsonl

variable {formats : Formats F} {batchSize : Nat}

/-- Behind a page of lines without a record there is no record. -/
def JsonlFile.NoGap (file : JsonlFile formats) (batchSize : Nat) : Prop :=
  ∀ k, (∀ line ∈ ((lines file.contents).drop (k * batchSize)).take batchSize,
      recordOfLine formats line = none) →
    ∀ line ∈ (lines file.contents).drop (k * batchSize), recordOfLine formats line = none

theorem jsonl_complete_iff (file : JsonlFile formats) (hpos : 1 ≤ batchSize)
    (hbatch : batchSize < 2 ^ 64) :
    Complete file.source batchSize file.records ↔ file.NoGap batchSize := by
  let page : Nat → List (VectorRecord F) := fun k =>
    (((lines file.contents).drop (k * batchSize)).take batchSize).filterMap (recordOfLine formats)
  have hfetch : ∀ k, file.source.fetchBatch () (k * batchSize) batchSize = (.ok (page k), ()) :=
    fun k => Prod.ext (file.fetchBatch_eq (k * batchSize) batchSize) rfl
  have hsize : (lines file.contents).length < 2 ^ 63 :=
    Nat.lt_of_le_of_lt (length_lines_le file.contents) file.fits
  have hpast : ∀ k, (lines file.contents).length ≤ k * batchSize → page k = [] := by
    intro k hk
    show (((lines file.contents).drop (k * batchSize)).take batchSize).filterMap _ = []
    rw [List.drop_eq_nil_of_le hk, List.take_nil, List.filterMap_nil]
  obtain ⟨K, -, hend, hfirst⟩ := exists_first (p := fun k => page k = [])
    (hpast (lines file.contents).length (Nat.le_mul_of_pos_right _ hpos))
  have hpages : ∀ k, k < K → page k ≠ [] ∧ k * batchSize + batchSize < 2 ^ 64 := by
    intro k hk
    have hinside : k * batchSize < (lines file.contents).length := by
      by_contra hnot
      exact hfirst k hk (hpast k (Nat.le_of_not_lt hnot))
    exact ⟨hfirst k hk, offset_fits hbatch hsize hinside⟩
  have hsplit : file.records =
      ((lines file.contents).take (K * batchSize)).filterMap (recordOfLine formats) ++
        ((lines file.contents).drop (K * batchSize)).filterMap (recordOfLine formats) := by
    rw [← List.filterMap_append, List.take_append_drop, JsonlFile.records]
  rw [complete_iff hfetch hpages hend, flatMap_windows_filterMap, hsplit, List.self_eq_append_right,
    List.filterMap_eq_nil_iff]
  constructor
  · intro hnone k hempty line hline
    have hle : K ≤ k := by
      by_contra hlt
      exact hfirst k (Nat.lt_of_not_le hlt) (List.filterMap_eq_nil_iff.mpr hempty)
    refine hnone line ?_
    have hdrop : (lines file.contents).drop (k * batchSize) =
        ((lines file.contents).drop (K * batchSize)).drop ((k - K) * batchSize) := by
      rw [List.drop_drop, ← Nat.add_mul, Nat.add_sub_cancel' hle]
    rw [hdrop] at hline
    exact List.mem_of_mem_drop hline
  · intro hgap
    exact hgap K (List.filterMap_eq_nil_iff.mp hend)

theorem reduceOption_map_eq {α β : Type*} (f : α → Option β) (l : List α) :
    (l.map f).reduceOption = l.filterMap f := by
  rw [List.reduceOption, List.filterMap_map]
  rfl

/-- The slots of a file of JSON lines are its lines. -/
theorem JsonlFile.serves (file : JsonlFile formats) :
    Serves file.source ((lines file.contents).map (recordOfLine formats)) where
  page := by
    intro client offset limit page next hfetch
    have hpage := (file.fetchBatch_eq offset limit).symm.trans (congrArg Prod.fst hfetch)
    refine ⟨limit, Nat.le_refl limit, ?_⟩
    rw [← List.map_drop, ← List.map_take, reduceOption_map_eq]
    exact (Except.ok.inj hpage).symm
  fits := by
    rw [List.length_map]
    exact Nat.lt_of_le_of_lt (length_lines_le file.contents) file.fits

end jsonl

/-! ## Parquet -/

section parquet

variable {formats : Formats F} {batchSize : Nat}

/-- A page that begins inside a chunk ends in it as well, or the chunk is the last one. -/
def ParquetFile.Aligned (file : ParquetFile formats) (batchSize : Nat) : Prop :=
  ∀ k, k * batchSize < file.records.length →
    k * batchSize % 1000 = 0 ∨ k * batchSize % 1000 + batchSize ≤ 1000 ∨
      file.records.length ≤ (k * batchSize / 1000 + 1) * 1000

theorem pageOf_sublist (rows : List (VectorRecord F)) (offset limit : Nat) :
    (pageOf rows offset limit).Sublist ((rows.drop offset).take limit) := by
  rw [pageOf]
  split
  · exact List.Sublist.refl _
  · rw [List.take_take]
    exact (List.take_prefix_take_left (Nat.min_le_left _ _)).sublist

theorem length_pageOf (rows : List (VectorRecord F)) (offset limit : Nat) :
    (pageOf rows offset limit).length =
      if offset % 1000 = 0 then min limit (rows.length - offset)
      else min limit (min (1000 - offset % 1000) (rows.length - offset)) := by
  rw [pageOf]
  split
  · rw [List.length_take, List.length_drop]
  · rw [List.length_take, List.length_take, List.length_drop]

theorem pageOf_eq_nil_iff {rows : List (VectorRecord F)} {offset limit : Nat} (hpos : 1 ≤ limit) :
    pageOf rows offset limit = [] ↔ rows.length ≤ offset := by
  rw [← List.length_eq_zero_iff, length_pageOf]
  split <;> omega

theorem pageOf_eq_iff {rows : List (VectorRecord F)} {offset limit : Nat}
    (hinside : offset < rows.length) :
    pageOf rows offset limit = (rows.drop offset).take limit ↔
      offset % 1000 = 0 ∨ offset % 1000 + limit ≤ 1000 ∨ rows.length ≤ (offset / 1000 + 1) * 1000 := by
  have hlength : ((rows.drop offset).take limit).length = min limit (rows.length - offset) := by
    rw [List.length_take, List.length_drop]
  have hpage := length_pageOf rows offset limit
  constructor
  · intro heq
    rw [heq, hlength] at hpage
    split at hpage <;> omega
  · intro haligned
    refine (pageOf_sublist rows offset limit).eq_of_length ?_
    rw [hpage, hlength]
    split <;> omega

theorem parquet_complete_iff (file : ParquetFile formats) (hpos : 1 ≤ batchSize)
    (hbatch : batchSize < 2 ^ 64) :
    Complete file.source batchSize file.records ↔ file.Aligned batchSize := by
  let page : Nat → List (VectorRecord F) := fun k => pageOf file.records (k * batchSize) batchSize
  have hfetch : ∀ k, file.source.fetchBatch () (k * batchSize) batchSize = (.ok (page k), ()) :=
    fun k => Prod.ext (file.fetchBatch_eq (k * batchSize) batchSize) rfl
  have hempty : ∀ k, page k = [] ↔ file.records.length ≤ k * batchSize :=
    fun k => pageOf_eq_nil_iff hpos
  obtain ⟨K, -, hend, hfirst⟩ := exists_first (p := fun k => page k = [])
    ((hempty file.records.length).mpr (Nat.le_mul_of_pos_right _ hpos))
  have hinside : ∀ k, k < K → k * batchSize < file.records.length := fun k hk =>
    Nat.lt_of_not_le fun hle => hfirst k hk ((hempty k).mpr hle)
  have hpages : ∀ k, k < K → page k ≠ [] ∧ k * batchSize + batchSize < 2 ^ 64 := fun k hk =>
    ⟨hfirst k hk, offset_fits hbatch file.length_records_lt (hinside k hk)⟩
  have hwhole : file.records =
      (List.range K).flatMap fun k => (file.records.drop (k * batchSize)).take batchSize := by
    rw [flatMap_windows, List.take_of_length_le ((hempty K).mp hend)]
  have hpart := flatMap_eq_iff fun k (_ : k ∈ List.range K) =>
    pageOf_sublist file.records (k * batchSize) batchSize
  rw [← hwhole] at hpart
  rw [complete_iff hfetch hpages hend, hpart]
  constructor
  · intro hpage k hk
    have hlt : k < K := by
      by_contra hnot
      have hle := Nat.mul_le_mul_right batchSize (Nat.le_of_not_lt hnot)
      have hpast := (hempty K).mp hend
      omega
    exact (pageOf_eq_iff hk).mp (hpage k (List.mem_range.mpr hlt))
  · intro haligned k hk
    have hin := hinside k (List.mem_range.mp hk)
    exact (pageOf_eq_iff hin).mpr (haligned k hin)

/-- The slots of a Parquet file are its rows. -/
theorem ParquetFile.serves (file : ParquetFile formats) :
    Serves file.source (file.records.map some) where
  page := by
    intro client offset limit page next hfetch
    have hpage := (file.fetchBatch_eq offset limit).symm.trans (congrArg Prod.fst hfetch)
    have hpart := Except.ok.inj hpage
    rw [pageOf] at hpart
    split at hpart
    · refine ⟨limit, Nat.le_refl limit, ?_⟩
      rw [← List.map_drop, ← List.map_take, reduceOption_map_some]
      exact hpart.symm
    · refine ⟨min limit (1000 - offset % 1000), Nat.min_le_left _ _, ?_⟩
      rw [← List.map_drop, ← List.map_take, reduceOption_map_some, ← List.take_take]
      exact hpart.symm
  fits := by
    rw [List.length_map]
    exact file.length_records_lt

end parquet

/-! ## Both -/

/-- Every record of a file is sent once and in order exactly when no page without a record has a
record behind it, and no page that begins inside a chunk runs past its end while rows follow. -/
theorem extraction_complete_iff {formats : Formats F} {batchSize : Nat} (hpos : 1 ≤ batchSize)
    (hbatch : batchSize < 2 ^ 64) :
    (∀ file : JsonlFile formats,
      Complete file.source batchSize file.records ↔ file.NoGap batchSize) ∧
    (∀ file : ParquetFile formats,
      Complete file.source batchSize file.records ↔ file.Aligned batchSize) :=
  ⟨fun file => jsonl_complete_iff file hpos hbatch, fun file => parquet_complete_iff file hpos hbatch⟩

def objectLine : List Char := ['\x7b', '\x7d']

theorem fromStr_objectLine {line : List Char}
    (hline : String.ofList (trim line) = "\x7b\x7d") :
    sampleFormats.fromStr (String.ofList (trim line)) = .ok (.object []) := by
  simp only [sampleFormats, hline, if_true]

/-- A blank line between two objects. -/
def blankBetween : JsonlFile sampleFormats where
  contents := objectLine ++ '\n' :: '\n' :: objectLine
  parses := by
    intro line hline hfull
    have hlines : lines (objectLine ++ '\n' :: '\n' :: objectLine) =
        [objectLine ++ ['\n'], ['\n'], objectLine] := by decide
    rw [hlines] at hline
    rcases List.mem_cons.mp hline with rfl | hline
    · exact ⟨_, fromStr_objectLine (by decide)⟩
    rcases List.mem_cons.mp hline with rfl | hline
    · exact absurd hfull (by decide)
    · rw [List.mem_singleton.mp hline]
      exact ⟨_, fromStr_objectLine (by decide)⟩
  fits := by decide

/-- With pages of two lines, each page has a record. -/
theorem extraction_complete_blankBetween :
    Complete blankBetween.source 2 blankBetween.records := by
  refine ((extraction_complete_iff (by decide) (by decide)).1 blankBetween).mpr ?_
  rintro (_ | _ | k) hnone line hline
  · have hfirst := hnone (objectLine ++ ['\n']) (by decide)
    rw [recordOfLine, fromStr_objectLine (by decide)] at hfirst
    exact absurd hfirst (by decide)
  · exact hnone line hline
  · have hlength : (lines blankBetween.contents).length = 3 := by decide
    rw [List.drop_eq_nil_of_le (by omega)] at hline
    exact absurd hline List.not_mem_nil

def blankFirst : JsonlFile sampleFormats where
  contents := '\n' :: objectLine
  parses := by
    intro line hline hfull
    rcases List.mem_cons.mp hline with rfl | hline
    · exact absurd hfull (by decide)
    · rw [List.mem_singleton.mp hline]
      exact ⟨_, fromStr_objectLine (by decide)⟩
  fits := by decide

/-- With pages of one line, the blank line ends the extraction. -/
theorem not_extraction_complete_blank : ¬ Complete blankFirst.source 1 blankFirst.records := by
  rw [jsonl_complete_iff blankFirst (by decide) (by decide)]
  intro hgap
  have hnone := hgap 0 (by decide) objectLine (by decide)
  rw [recordOfLine, fromStr_objectLine (by decide)] at hnone
  exact absurd hnone (by decide)

end Migration
end RTDB
