import RTDB.Migration.CsvRows

/-!
# Reading an export

Which records come back from a file of comma-separated values that was written with them.
-/

namespace RTDB
namespace Migration

open Batches Bytes Storage

variable {F : Type}

/-! ## The lines of an export -/

section Rows

variable {formats : CsvFormats F} {keys : List String} {first record : VectorRecord F}

theorem oneField_escapedValue {text : String} (htext : OneField text) :
    OneField (CsvWriter.escapedValue text) := by
  rw [CsvWriter.escapedValue]
  split
  · have hmem : ∀ c, c ∈ '"' :: (Fields.doubled '"' text.toList ++ ['"']) → c = '"' ∨ c ∈ text.toList := by
      intro c hc
      rw [List.mem_cons, List.mem_append, List.mem_singleton] at hc
      rcases hc with rfl | hc | rfl
      · exact Or.inl rfl
      · exact Or.inr (Fields.mem_of_mem_doubled hc)
      · exact Or.inl rfl
    rw [OneField, String.toList_ofList]
    exact ⟨fun hc => (hmem _ hc).elim (by decide) htext.1,
      fun hc => (hmem _ hc).elim (by decide) htext.2⟩
  · exact htext

theorem oneField_values (hprints : PrintsFloats formats) (hrecord : Exportable formats keys record)
    (hunbroken : Unbroken record) : ∀ value ∈ CsvWriter.values formats record, OneField value := by
  intro value hvalue
  rw [CsvWriter.values, List.mem_cons, List.mem_append] at hvalue
  rcases hvalue with rfl | hvalue | hvalue
  · exact hunbroken.id
  · split at hvalue
    · exact absurd hvalue List.not_mem_nil
    · rw [List.mem_singleton.mp hvalue]
      constructor <;> intro hc <;>
        rcases of_mem_vectorStr hprints hrecord.finite hc with h | h | h | h <;>
          exact absurd h (by decide)
  · obtain ⟨entry, hentry, rfl⟩ := List.mem_map.mp hvalue
    obtain ⟨s, hs, -⟩ := hrecord.texts entry hentry
    rw [hs, CsvWriter.valueStr]
    exact oneField_escapedValue (hunbroken.texts entry hentry s hs)

theorem oneField_headers (hunbroken : Unbroken record) :
    ∀ header ∈ CsvWriter.headers record, OneField header := by
  intro header hheader
  rw [CsvWriter.headers, List.mem_cons, List.mem_append] at hheader
  rcases hheader with rfl | hheader | hheader
  · exact ⟨by decide, by decide⟩
  · split at hheader
    · exact absurd hheader List.not_mem_nil
    · rw [List.mem_singleton.mp hheader]
      exact ⟨by decide, by decide⟩
  · obtain ⟨entry, hentry, rfl⟩ := List.mem_map.mp hheader
    exact (hunbroken.keys entry hentry).1

/-- The reader finds the columns as they were written. -/
theorem cells_headers (hkeys : ∀ key ∈ keys, MetadataKey key) (hrecord : Exportable formats keys record)
    (hunbroken : Unbroken record) :
    CsvReader.cells (csvLine (CsvWriter.headers record)) = CsvWriter.headers record := by
  rw [CsvReader.cells_csvLine (by simp [CsvWriter.headers])
    fun header hheader => (oneField_headers hunbroken header hheader).1]
  refine (List.map_congr_left fun header hheader => ?_).trans (List.map_id _)
  show CsvReader.cell header.toList = header
  rw [CsvWriter.headers, List.mem_cons, List.mem_append] at hheader
  rcases hheader with rfl | hheader | hheader
  · decide
  · split at hheader
    · exact absurd hheader List.not_mem_nil
    · rw [List.mem_singleton.mp hheader]
      decide
  · rw [hrecord.keys] at hheader
    have hkey := hkeys header hheader
    refine (CsvReader.cell_eq_self_iff header).mpr ⟨Fields.strip_of_forall fun c hc => ?_, hkey.spaces⟩
    exact beq_eq_false_iff_ne.mpr fun heq => hkey.quote (heq ▸ hc)

/-- Lines of one-line values are the lines of the text. -/
theorem lines_csvText {rows : List (List String)} (hrows : ∀ row ∈ rows, ∀ value ∈ row, OneField value) :
    Lines.lines '\n' (csvText rows) = rows.map fun row => csvLine row ++ ['\n'] := by
  have hlines : ∀ line ∈ rows.map csvLine, '\n' ∉ line := by
    intro line hline hnewline
    obtain ⟨row, hrow, rfl⟩ := List.mem_map.mp hline
    rcases Fields.of_mem_intercalate hnewline with h | ⟨field, hfield, hnewline⟩
    · exact absurd h (by decide)
    · obtain ⟨value, hvalue, rfl⟩ := List.mem_map.mp hfield
      exact (hrows row hrow value hvalue).2 hnewline
  rw [csvText, Lines.lines_flatMap_concat hlines, List.map_map]
  rfl

/-- A record has the columns of another if both have a vector or neither has one. -/
theorem headers_eq_of_vector (hrecord : Exportable formats keys record) (hfirst : Exportable formats keys first)
    (hvector : record.vector = [] ↔ first.vector = []) :
    CsvWriter.headers record = CsvWriter.headers first := by
  rw [CsvWriter.headers, CsvWriter.headers, hrecord.keys, hfirst.keys]
  simp only [List.isEmpty_iff, hvector]

/-- A line has as many values as there are columns only then. -/
theorem length_values_iff (hrecord : Exportable formats keys record) (hfirst : Exportable formats keys first) :
    (CsvWriter.values formats record).length = (CsvWriter.headers first).length ↔
      (record.vector = [] ↔ first.vector = []) := by
  have hkeys : record.metadata.entries.length = first.metadata.entries.length := by
    have hlength := congrArg List.length (hrecord.keys.trans hfirst.keys.symm)
    rwa [List.length_map, List.length_map] at hlength
  rw [CsvWriter.values, CsvWriter.headers, List.length_cons, List.length_cons, List.length_append,
    List.length_append, List.length_map, List.length_map, hkeys]
  by_cases hvector : record.vector = [] <;> by_cases hvector' : first.vector = [] <;>
    simp [hvector, hvector']

theorem cells_values (hprints : PrintsFloats formats) (hrecord : Exportable formats keys record)
    (hunbroken : Unbroken record) :
    CsvReader.cells (trim (csvLine (CsvWriter.values formats record) ++ ['\n'])) =
      rereadValues formats record := by
  rw [CsvReader.cells_trim, CsvReader.cells_newline, CsvReader.cells_csvLine (by simp [CsvWriter.values])
    fun value hvalue => (oneField_values hprints hrecord hunbroken value hvalue).1, rereadValues]

theorem rowOf?_values (hprints : PrintsFloats formats) (hrecord : Exportable formats keys record)
    (hfirst : Exportable formats keys first) (hunbroken : Unbroken record) {row : List String}
    (hrow : rowOf? (CsvWriter.headers first) (csvLine (CsvWriter.values formats record) ++ ['\n']) =
      some row) :
    (record.vector = [] ↔ first.vector = []) ∧ row = rereadValues formats record := by
  rw [rowOf?, cells_values hprints hrecord hunbroken] at hrow
  split at hrow
  · exact absurd hrow (by simp)
  · split at hrow
    · next hlength =>
      rw [rereadValues, List.length_map] at hlength
      exact ⟨(length_values_iff hrecord hfirst).mp hlength, (Option.some.inj hrow).symm⟩
    · exact absurd hrow (by simp)

theorem rowOf?_of_plain (hprints : PrintsFloats formats) (hrecord : Exportable formats keys record)
    (hfirst : Exportable formats keys first) (hunbroken : Unbroken record) (hplain : PlainId record.id)
    (hvector : record.vector = [] ↔ first.vector = []) :
    rowOf? (CsvWriter.headers first) (csvLine (CsvWriter.values formats record) ++ ['\n']) =
      some (rereadValues formats record) := by
  have hsomething : trim (csvLine (CsvWriter.values formats record) ++ ['\n']) ≠ [] := by
    intro hblank
    -- The id does not begin with a space.
    obtain ⟨c, rest, hid⟩ := List.exists_cons_of_ne_nil
      (fun hnil => hrecord.id (String.toList_eq_nil_iff.mp hnil) : record.id.toList ≠ [])
    have hc : isWhiteSpace c = false :=
      (Fields.strip_eq_self_iff.mp hplain.spaces).1 c (by rw [hid]; rfl)
    have hmem : c ∈ csvLine (CsvWriter.values formats record) := by
      refine Fields.subset_intercalate (List.mem_map_of_mem List.mem_cons_self) ?_
      rw [hid]
      exact List.mem_cons_self
    have hspace := Fields.strip_eq_nil_iff.mp hblank c (List.mem_append_left _ hmem)
    rw [hc] at hspace
    exact absurd hspace (by simp)
  have hlength : (rereadValues formats record).length = (CsvWriter.headers first).length := by
    rw [rereadValues, List.length_map]
    exact (length_values_iff hrecord hfirst).mpr hvector
  rw [rowOf?, cells_values hprints hrecord hunbroken, if_neg (by simpa using hsomething), if_pos hlength]

end Rows

/-! ## Files of rows -/

section Files

variable {formats : TextFormats F} {headers : List String} {ls : List (List UInt8)} {n : Nat}

theorem length_csvBatch_le (headers : List String) (ls : List (List UInt8)) (n k : Nat) :
    (csvBatch headers ls n k).length ≤ min n (ls.length - csvOffset headers ls n k) := by
  rw [← List.length_drop, ← List.length_take]
  exact List.length_filterMap_le _ _

/-- Where the batches have as many rows as the file has lines, there is but one: a second one begins
behind a line that is not read. -/
theorem one_batch {K : Nat} (hne : ls ≠ []) (hbatches : ∀ k, k < K → csvBatch headers ls n k ≠ [])
    (hall : ((List.range K).flatMap (csvBatch headers ls n)).length = ls.length) :
    K = 1 ∧ ls.length ≤ n := by
  have hpos := List.length_pos_iff.mpr hne
  cases K with
  | zero =>
    rw [List.range_zero, List.flatMap_nil, List.length_nil] at hall
    omega
  | succ k =>
    have hlast := List.length_pos_iff.mpr (hbatches k (Nat.lt_succ_self k))
    have hle := length_csvBatch_le headers ls n k
    have hoffset := csvOffset_eq headers ls n k
    rw [List.range_succ, List.flatMap_append, List.length_append, List.flatMap_singleton] at hall
    obtain rfl : k = 0 := by omega
    rw [List.range_zero, List.flatMap_nil, List.length_nil] at hall hoffset
    exact ⟨rfl, by omega⟩

/-- A file with a line for each record gives them back if they fit into one batch, and each is read from
its line. -/
theorem readsBack_iff_of_lines {bytes : List UInt8} (hheaders : csvHeaders? bytes = some headers)
    (htext : AllText (csvLines bytes)) {records : List (VectorRecord F)}
    (hlines : (csvLines bytes).length = records.length) (hne : records ≠ []) :
    CsvReadsBack formats (some bytes) n records ↔
      records.length ≤ n ∧ numbered formats headers 1 (csvRows headers (csvLines bytes)) = records := by
  have hgood : ∀ k, AllText ((csvLines bytes).take k) :=
    fun k line hline => htext line (List.mem_of_mem_take hline)
  have hsome : csvLines bytes ≠ [] := fun hnil => hne (List.length_eq_zero_iff.mp (by rw [← hlines, hnil]; rfl))
  have hfirst : csvPage formats headers (csvLines bytes) n 0 =
      numbered formats headers 1 (csvRows headers ((csvLines bytes).take n)) := rfl
  refine Iff.trans ((CsvReader.paged formats hheaders n).delivers_iff records) ?_
  constructor
  · rintro ⟨K, hbefore, -, hpages⟩
    have hbatches : ∀ k, k < K → csvBatch headers (csvLines bytes) n k ≠ [] :=
      fun k hk hnil => (hbefore k hk).2 (csvPage_eq_nil_iff.mpr hnil)
    have hall : ((List.range K).flatMap (csvBatch headers (csvLines bytes) n)).length =
        (csvLines bytes).length := by
      have hlength := congrArg List.length hpages
      rw [length_pages] at hlength
      rw [hlength, hlines]
    obtain ⟨rfl, hfits⟩ := one_batch hsome hbatches hall
    rw [List.range_one, List.flatMap_singleton, hfirst, List.take_of_length_le hfits] at hpages
    exact ⟨hlines ▸ hfits, hpages⟩
  · rintro ⟨hfits, hrecords⟩
    rw [← hlines] at hfits
    rw [List.take_of_length_le hfits, hrecords] at hfirst
    refine ⟨1, fun k hk => ⟨hgood _, ?_⟩, ⟨hgood _, ?_⟩, ?_⟩
    · obtain rfl : k = 0 := Nat.lt_one_iff.mp hk
      rw [hfirst]
      exact hne
    · -- The second batch begins behind the end.
      have hcount : (csvBatch headers (csvLines bytes) n 0).length = records.length := by
        rw [← hfirst, csvPage, length_numbered]
      have hle := length_csvBatch_le headers (csvLines bytes) n 1
      have hoffset : csvOffset headers (csvLines bytes) n 1 =
          0 + (1 + (csvBatch headers (csvLines bytes) n 0).length) := rfl
      rw [csvPage_eq_nil_iff, ← List.length_eq_zero_iff]
      omega
    · rw [List.range_one, List.flatMap_singleton, hfirst]

theorem forall_row_of_numbered {lineOf : VectorRecord F → List UInt8} {records : List (VectorRecord F)}
    {i : Nat} (hrecords : numbered formats headers i (csvRows headers (records.map lineOf)) = records) :
    ∀ record ∈ records, ∃ row j, csvRow? headers (lineOf record) = some row ∧
      CsvReader.rowRecord formats headers row j = record := by
  induction records generalizing i with
  | nil => exact fun record hrecord => absurd hrecord List.not_mem_nil
  | cons first rest ih =>
    rw [csvRows, List.map_cons, List.filterMap_cons] at hrecords
    cases hrow : csvRow? headers (lineOf first) with
    | none =>
      simp only [hrow] at hrecords
      have hlength := congrArg List.length hrecords
      have hle := List.length_filterMap_le (csvRow? headers) (rest.map lineOf)
      rw [length_numbered, List.length_cons] at hlength
      rw [List.length_map] at hle
      omega
    | some row =>
      simp only [hrow] at hrecords
      obtain ⟨hfirst, hrest⟩ := List.cons.inj hrecords
      intro record hrecord
      rcases List.mem_cons.mp hrecord with rfl | hrecord
      · exact ⟨row, i, hrow, hfirst⟩
      · exact ih hrest record hrecord

theorem numbered_of_forall_row {lineOf : VectorRecord F → List UInt8} {records : List (VectorRecord F)}
    (i : Nat) (hrows : ∀ record ∈ records, ∃ row, csvRow? headers (lineOf record) = some row ∧
      ∀ j, CsvReader.rowRecord formats headers row j = record) :
    numbered formats headers i (csvRows headers (records.map lineOf)) = records := by
  induction records generalizing i with
  | nil => rfl
  | cons first rest ih =>
    obtain ⟨⟨row, hrow, hfirst⟩, hrows⟩ := List.forall_mem_cons.mp hrows
    rw [csvRows, List.map_cons, List.filterMap_cons, hrow]
    show numbered formats headers i (row :: csvRows headers (rest.map lineOf)) = _
    rw [numbered_cons, hfirst, ih (i + 1) hrows]

end Files

/-! ## The round trip -/

structure PlainKey (key : String) : Prop where
  newline : '\n' ∉ key.toList
  namesId : CsvReader.namesId key = false
  namesVector : CsvReader.namesVector key = false

/-- What is written is read as it was: the records fit into one batch and have all of them a vector or
none, and nothing in them is mistaken for something else. -/
structure CsvPlain (keys : List String) (records : List (VectorRecord F)) (n : Nat) : Prop where
  fits : records.length ≤ n
  keys : ∀ key ∈ keys, PlainKey key
  vectors : (∀ record ∈ records, record.vector = []) ∨ ∀ record ∈ records, record.vector ≠ []
  records : ∀ record ∈ records, PlainRecord record

/-- A file with a header line, and without a row in the first batch. -/
def EmptyCsv (n : Nat) (file : Option (List UInt8)) : Prop :=
  ∃ bytes headers, file = some bytes ∧ csvHeaders? bytes = some headers ∧
    AllText ((csvLines bytes).take n) ∧ csvRows headers ((csvLines bytes).take n) = []

theorem csvReadsBack_nil_iff {formats : TextFormats F} {file : Option (List UInt8)} {n : Nat} :
    CsvReadsBack formats file n [] ↔ EmptyCsv n file := by
  constructor
  · intro hback
    cases file with
    | none =>
      obtain ⟨batches, hbatches, -⟩ := hback
      exact absurd rfl (hbatches.ne_error _)
    | some bytes =>
      obtain ⟨headers, hheaders, -⟩ := exists_row_of_readsBack hback
      obtain ⟨K, hbefore, ⟨hgood, hend⟩, hpages⟩ :=
        ((CsvReader.paged formats hheaders n).delivers_iff []).mp hback
      obtain rfl : K = 0 := by
        by_contra hK
        have hfirst := List.flatMap_eq_nil_iff.mp hpages 0 (List.mem_range.mpr (Nat.pos_of_ne_zero hK))
        exact (hbefore 0 (Nat.pos_of_ne_zero hK)).2 hfirst
      rw [csvOffset, Nat.zero_add] at hgood
      exact ⟨bytes, headers, rfl, hheaders, hgood, csvPage_eq_nil_iff.mp hend⟩
  · rintro ⟨bytes, headers, rfl, hheaders, hgood, hrows⟩
    refine ((CsvReader.paged formats hheaders n).delivers_iff []).mpr
      ⟨0, fun k hk => absurd hk (Nat.not_lt_zero k), ⟨?_, csvPage_eq_nil_iff.mpr hrows⟩, rfl⟩
    rw [csvOffset, Nat.zero_add]
    exact hgood

section RoundTrip

variable {formats : CsvFormats F} {keys : List String} {first record : VectorRecord F}
  {rest : List (VectorRecord F)}

theorem Unbroken.plainKey (hunbroken : Unbroken record) (hrecord : Exportable formats keys record)
    {key : String} (hkey : key ∈ keys) : PlainKey key := by
  rw [← hrecord.keys] at hkey
  obtain ⟨entry, hentry, rfl⟩ := List.mem_map.mp hkey
  obtain ⟨hfield, hnamesId, hnamesVector⟩ := hunbroken.keys entry hentry
  exact { newline := hfield.2, namesId := hnamesId, namesVector := hnamesVector }

theorem PlainRecord.unbroken (hplain : PlainRecord record) (hrecord : Exportable formats keys record)
    (hkeys : ∀ key ∈ keys, MetadataKey key) (hplainKeys : ∀ key ∈ keys, PlainKey key) :
    Unbroken record := by
  refine { id := hplain.id.field, keys := fun entry hentry => ?_
           texts := fun entry hentry s hs => (hplain.texts entry hentry s hs).field }
  have hmem : entry.1 ∈ keys := hrecord.keys ▸ List.mem_map_of_mem hentry
  have hkey := hplainKeys entry.1 hmem
  exact ⟨⟨(hkeys entry.1 hmem).comma, hkey.newline⟩, hkey.namesId, hkey.namesVector⟩

def exportedLine (formats : CsvFormats F) (record : VectorRecord F) : List UInt8 :=
  utf8 (String.ofList (csvLine (CsvWriter.values formats record) ++ ['\n']))

/-- Where nothing is broken, an export is a header line and a line for each record. -/
theorem lines_export (hprints : PrintsFloats formats)
    (hrecords : ∀ record ∈ first :: rest, Exportable formats keys record)
    (hunbroken : ∀ record ∈ first :: rest, Unbroken record) :
    Lines.lines 10 (utf8 (String.ofList (csvText (exportedRows formats (first :: rest))))) =
      utf8 (String.ofList (csvLine (CsvWriter.headers first) ++ ['\n'])) ::
        (first :: rest).map (exportedLine formats) := by
  have hrows : ∀ row ∈ exportedRows formats (first :: rest), ∀ value ∈ row, OneField value := by
    intro row hrow
    rcases List.mem_cons.mp hrow with rfl | hrow
    · exact oneField_headers (hunbroken first List.mem_cons_self)
    · obtain ⟨record, hrecord, rfl⟩ := List.mem_map.mp hrow
      exact oneField_values hprints (hrecords record hrecord) (hunbroken record hrecord)
  rw [lines_utf8, lines_csvText hrows, List.map_map, exportedRows, List.map_cons, List.map_map]
  rfl

theorem csvHeaders_export (hprints : PrintsFloats formats) (hkeys : ∀ key ∈ keys, MetadataKey key)
    (hrecords : ∀ record ∈ first :: rest, Exportable formats keys record)
    (hunbroken : ∀ record ∈ first :: rest, Unbroken record) :
    csvHeaders? (utf8 (String.ofList (csvText (exportedRows formats (first :: rest))))) =
      some (CsvWriter.headers first) := by
  have hfirst := List.mem_cons_self (a := first) (l := rest)
  rw [csvHeaders?, lines_export hprints hrecords hunbroken, List.head?_cons, Option.bind_some,
    ofUtf8?_utf8, Option.map_some, String.toList_ofList, CsvReader.cells_trim, CsvReader.cells_newline,
    cells_headers hkeys (hrecords first hfirst) (hunbroken first hfirst)]

/-- Records that are not broken come back if they fit into one batch and each is read from its row. -/
theorem readsBack_export_iff (hprints : PrintsFloats formats) (hkeys : ∀ key ∈ keys, MetadataKey key)
    (hrecords : ∀ record ∈ first :: rest, Exportable formats keys record)
    (hunbroken : ∀ record ∈ first :: rest, Unbroken record) (n : Nat) :
    CsvReadsBack formats.toTextFormats
        (some (utf8 (String.ofList (csvText (exportedRows formats (first :: rest)))))) n (first :: rest) ↔
      (first :: rest).length ≤ n ∧ ∀ record ∈ first :: rest,
        (record.vector = [] ↔ first.vector = []) ∧ PlainRecord record := by
  have hlines : csvLines (utf8 (String.ofList (csvText (exportedRows formats (first :: rest))))) =
      (first :: rest).map (exportedLine formats) := by
    rw [csvLines, lines_export hprints hrecords hunbroken]
    rfl
  have htext : AllText (csvLines (utf8 (String.ofList (csvText (exportedRows formats (first :: rest)))))) := by
    intro line hline
    rw [hlines] at hline
    obtain ⟨record, -, rfl⟩ := List.mem_map.mp hline
    rw [exportedLine, ofUtf8?_utf8]
    rfl
  have hexportable := hrecords first List.mem_cons_self
  rw [readsBack_iff_of_lines (csvHeaders_export hprints hkeys hrecords hunbroken) htext
    (by rw [hlines, List.length_map]) (List.cons_ne_nil first rest), hlines]
  refine and_congr_right fun _ => ?_
  constructor
  · intro hnumbered record hrecord
    obtain ⟨row, j, hrow, hsame⟩ := forall_row_of_numbered hnumbered record hrecord
    rw [exportedLine, csvRow?_utf8] at hrow
    obtain ⟨hvector, rfl⟩ := rowOf?_values hprints (hrecords record hrecord) hexportable
      (hunbroken record hrecord) hrow
    rw [← headers_eq_of_vector (hrecords record hrecord) hexportable hvector] at hsame
    exact ⟨hvector, (rowRecord_reread_iff hprints (hrecords record hrecord) (hunbroken record hrecord) j).mp
      hsame⟩
  · intro hplain
    refine numbered_of_forall_row 1 fun record hrecord => ?_
    obtain ⟨hvector, hplain⟩ := hplain record hrecord
    refine ⟨rereadValues formats record, ?_, fun j => ?_⟩
    · rw [exportedLine, csvRow?_utf8]
      exact rowOf?_of_plain hprints (hrecords record hrecord) hexportable (hunbroken record hrecord)
        hplain.id hvector
    · rw [← headers_eq_of_vector (hrecords record hrecord) hexportable hvector]
      exact (rowRecord_reread_iff hprints (hrecords record hrecord) (hunbroken record hrecord) j).mpr hplain

/-- An export comes back exactly when it is plain, or when nothing was written over a file without
rows. -/
theorem csv_round_trip_iff (hprints : PrintsFloats formats) (hkeys : ∀ key ∈ keys, MetadataKey key)
    {batches : List (List (VectorRecord F))}
    (hrecords : ∀ record ∈ batches.flatten, Exportable formats keys record)
    (before : Option (List UInt8)) (n : Nat) :
    CsvReadsBack formats.toTextFormats (csvExported formats before batches) n batches.flatten ↔
      (batches.flatten = [] ∧ EmptyCsv n before) ∨
        (batches.flatten ≠ [] ∧ CsvPlain keys batches.flatten n) := by
  rw [csvExported_eq]
  generalize batches.flatten = records at hrecords ⊢
  cases records with
  | nil =>
    rw [if_pos rfl, csvReadsBack_nil_iff]
    exact ⟨fun hempty => Or.inl ⟨rfl, hempty⟩,
      fun hcases => hcases.elim And.right fun hplain => absurd rfl hplain.1⟩
  | cons first rest =>
    rw [if_neg (List.cons_ne_nil first rest)]
    have hfirst := List.mem_cons_self (a := first) (l := rest)
    constructor
    · intro hback
      -- What was read is not broken, so nothing that was written is.
      have hunbroken := unbroken_of_readsBack hback
      obtain ⟨hfits, hplain⟩ := (readsBack_export_iff hprints hkeys hrecords hunbroken n).mp hback
      refine Or.inr ⟨List.cons_ne_nil first rest,
        { fits := hfits
          keys := fun key hkey => (hunbroken first hfirst).plainKey (hrecords first hfirst) hkey
          vectors := ?_
          records := fun record hrecord => (hplain record hrecord).2 }⟩
      by_cases hvector : first.vector = []
      · exact Or.inl fun record hrecord => (hplain record hrecord).1.mpr hvector
      · exact Or.inr fun record hrecord hnil => hvector ((hplain record hrecord).1.mp hnil)
    · rintro (⟨hnil, -⟩ | ⟨-, hplain⟩)
      · exact absurd hnil (List.cons_ne_nil first rest)
      · have hunbroken : ∀ record ∈ first :: rest, Unbroken record := fun record hrecord =>
          (hplain.records record hrecord).unbroken (hrecords record hrecord) hkeys hplain.keys
        refine (readsBack_export_iff hprints hkeys hrecords hunbroken n).mpr ⟨hplain.fits, ?_⟩
        intro record hrecord
        refine ⟨?_, hplain.records record hrecord⟩
        rcases hplain.vectors with hnone | hall
        · exact iff_of_true (hnone record hrecord) (hnone first hfirst)
        · exact iff_of_false (hall record hrecord) (hall first hfirst)

end RoundTrip

/-! ## Two notes -/

/-- One is printed as `f32::to_string` does, and nothing is a number but floats. -/
def noteFormats : CsvFormats Unit where
  recordFromStr _ := .error "expected value"
  vectorFromStr _ := none
  parseF32 text :=
    if text = "1" then some 0x3F800000
    else some (UInt32.ofNat (Nat.ofDigitChars 10 (text.toList.drop 1) 0))
  parseF64 _ := none
  isFinite _ := true
  zero := ()
  f32ToString f := if f = 0x3F800000 then "1" else String.ofList ('-' :: Nat.toDigits 10 f.toNat)
  numberToString _ _ := "0"
  valueToString _ := none

theorem noteFormats_prints : PrintsFloats noteFormats where
  parses f _ := by
    by_cases hone : f = 0x3F800000
    · rw [hone]
      rfl
    · have hsign : String.ofList ('-' :: Nat.toDigits 10 f.toNat) ≠ "1" := by
        intro heq
        have hchars := congrArg String.toList heq
        rw [String.toList_ofList] at hchars
        exact absurd (List.cons.inj hchars).1 (by decide)
      simp only [noteFormats, hone, if_false, hsign, String.toList_ofList, List.drop_succ_cons, List.drop_zero]
      simp
  digits f _ c hc := by
    by_cases hone : f = 0x3F800000
    · simp only [noteFormats, hone, if_true] at hc
      rw [show c = '1' by simpa using hc]
      decide
    · simp only [noteFormats, hone, if_false, String.toList_ofList, List.mem_cons] at hc
      rcases hc with rfl | hdigit
      · exact Or.inr (Or.inl rfl)
      · exact Or.inl (Nat.isDigit_of_mem_toDigits (by decide) (by decide) hdigit)

def noted (id text : String) : VectorRecord Unit where
  id
  vector := [0x3F800000]
  metadata := { entries := [("note", .string text)], sorted := List.pairwise_singleton _ _ }

theorem noted_exportable {id text : String} (hid : id ≠ "") (htrue : CsvReader.lowercase text ≠ "true")
    (hfalse : CsvReader.lowercase text ≠ "false") : Exportable noteFormats ["note"] (noted id text) where
  id := hid
  finite f hf := by
    rw [List.mem_singleton.mp hf]
    rfl
  keys := rfl
  texts entry hentry := by
    rw [List.mem_singleton.mp hentry]
    exact ⟨text, rfl, rfl, htrue, hfalse⟩

theorem note_key : ∀ key ∈ ["note"], MetadataKey key := by
  intro key hkey
  rw [List.mem_singleton.mp hkey]
  exact { comma := by decide, quote := by decide, spaces := by decide, other := by decide }

theorem noted_plain {id text : String} (hid : PlainId id) (htext : PlainText text) :
    PlainRecord (noted id text) where
  id := hid
  texts entry hentry s hs := by
    rw [List.mem_singleton.mp hentry] at hs
    exact Value.string.inj hs ▸ htext

/-- Plain texts come back. -/
theorem csv_round_trip_plain :
    CsvReadsBack noteFormats.toTextFormats
      (csvExported noteFormats none [[noted "a" "ripe"], [noted "b" "not yet"]]) 2
      [noted "a" "ripe", noted "b" "not yet"] := by
  have hexportable : ∀ record ∈ [[noted "a" "ripe"], [noted "b" "not yet"]].flatten,
      Exportable noteFormats ["note"] record := by
    refine List.forall_mem_cons.mpr ⟨?_, List.forall_mem_singleton.mpr ?_⟩
    · exact noted_exportable (by decide) (by decide) (by decide)
    · exact noted_exportable (by decide) (by decide) (by decide)
  have hplain : CsvPlain ["note"] [noted "a" "ripe", noted "b" "not yet"] 2 :=
    { fits := Nat.le_refl 2
      keys := List.forall_mem_singleton.mpr
        { newline := by decide, namesId := by decide, namesVector := by decide }
      vectors := Or.inr (List.forall_mem_cons.mpr
        ⟨List.cons_ne_nil _ _, List.forall_mem_singleton.mpr (List.cons_ne_nil _ _)⟩)
      records := List.forall_mem_cons.mpr
        ⟨noted_plain { field := by decide, spaces := by decide, quotes := by decide }
          { field := by decide, spaces := by decide, quote := by decide },
        List.forall_mem_singleton.mpr
          (noted_plain { field := by decide, spaces := by decide, quotes := by decide }
            { field := by decide, spaces := by decide, quote := by decide })⟩ }
  exact (csv_round_trip_iff noteFormats_prints note_key hexportable none 2).mpr
    (Or.inr ⟨List.cons_ne_nil _ _, hplain⟩)

/-- A comma does not come back, quoted as it is. -/
theorem not_csv_round_trip_comma :
    PrintsFloats noteFormats ∧ (∀ key ∈ ["note"], MetadataKey key) ∧
      Exportable noteFormats ["note"] (noted "a" "ripe, red") ∧
      ¬ CsvReadsBack noteFormats.toTextFormats (csvExported noteFormats none [[noted "a" "ripe, red"]]) 2
        [noted "a" "ripe, red"] := by
  refine ⟨noteFormats_prints, note_key, noted_exportable (by decide) (by decide) (by decide), fun hback => ?_⟩
  rw [csvExported_eq, if_neg (by simp)] at hback
  have hunbroken := unbroken_of_readsBack hback (noted "a" "ripe, red") List.mem_cons_self
  have hfield := hunbroken.texts ("note", .string "ripe, red") List.mem_cons_self "ripe, red" rfl
  exact absurd hfield.1 (by decide)

end Migration
end RTDB
