import RTDB.Migration.CsvExport

/-!
# Rows of an export

What a line of text is read as, and which records are read from the lines they were written to.
-/

namespace RTDB
namespace Migration

open Batches Bytes Storage

variable {F : Type}

/-! ## Cells -/

def CsvReader.cell (text : List Char) : String := String.ofList (CsvReader.trimQuotes (trim text))

theorem CsvReader.cells_eq (line : List Char) :
    CsvReader.cells line = (line.splitOn ',').map CsvReader.cell := rfl

theorem CsvReader.cells_eq_stripped (line : List Char) :
    CsvReader.cells line =
      (Fields.stripped ',' isWhiteSpace line).map fun text => String.ofList (CsvReader.trimQuotes text) := by
  rw [Fields.stripped, List.map_map]
  rfl

theorem CsvReader.cells_trim (line : List Char) : CsvReader.cells (trim line) = CsvReader.cells line := by
  rw [cells_eq_stripped, cells_eq_stripped]
  exact congrArg _ (Fields.stripped_strip (show isWhiteSpace ',' = false by decide) line)

theorem CsvReader.cells_newline (line : List Char) :
    CsvReader.cells (line ++ ['\n']) = CsvReader.cells line := by
  rw [cells_eq_stripped, cells_eq_stripped,
    Fields.stripped_concat_of_pos (by decide) (show isWhiteSpace '\n' = true by decide)]

theorem CsvReader.cell_subset (text : List Char) : (CsvReader.cell text).toList ⊆ text := by
  rw [cell, String.toList_ofList]
  exact ((Fields.strip_sublist (· == '"') _).trans (Fields.strip_sublist isWhiteSpace text)).subset

/-- A cell is cut off at the commas. -/
theorem CsvReader.of_mem_cells {line : List Char} {text : String} (htext : text ∈ CsvReader.cells line) :
    ',' ∉ text.toList ∧ text.toList ⊆ line := by
  rw [cells_eq] at htext
  obtain ⟨value, hvalue, rfl⟩ := List.mem_map.mp htext
  exact ⟨fun hcomma => Fields.sep_not_mem_of_mem_splitOn hvalue (cell_subset value hcomma),
    List.Subset.trans (cell_subset value) (Fields.subset_of_mem_splitOn hvalue)⟩

/-- Values without a comma are read one by one. -/
theorem CsvReader.cells_csvLine {values : List String} (hne : values ≠ [])
    (hcomma : ∀ value ∈ values, ',' ∉ value.toList) :
    CsvReader.cells (csvLine values) = values.map fun value => CsvReader.cell value.toList := by
  have hparts : ∀ part ∈ values.map String.toList, ',' ∉ part := by
    intro part hpart
    obtain ⟨value, hvalue, rfl⟩ := List.mem_map.mp hpart
    exact hcomma value hvalue
  rw [cells_eq, csvLine, List.splitOn_intercalate ',' hparts (by simpa using hne), List.map_map]
  rfl

def OneField (text : String) : Prop := ',' ∉ text.toList ∧ '\n' ∉ text.toList

instance (text : String) : Decidable (OneField text) :=
  inferInstanceAs (Decidable (',' ∉ text.toList ∧ '\n' ∉ text.toList))

/-- What a line that is read gives is of one line. -/
theorem oneField_of_mem_cells {text : List Char} {line : List Char} (hline : line ∈ Lines.lines '\n' text)
    {value : String} (hvalue : value ∈ CsvReader.cells (trim line)) : OneField value := by
  rw [CsvReader.cells_trim] at hvalue
  obtain ⟨front, hfront, rfl | rfl⟩ := Lines.of_mem_lines hline
  · obtain ⟨hcomma, hsubset⟩ := CsvReader.of_mem_cells hvalue
    exact ⟨hcomma, fun hnewline => hfront (hsubset hnewline)⟩
  · rw [CsvReader.cells_newline] at hvalue
    obtain ⟨hcomma, hsubset⟩ := CsvReader.of_mem_cells hvalue
    exact ⟨hcomma, fun hnewline => hfront (hsubset hnewline)⟩

/-! ## The lines of a text -/

/-- The bytes of a text are cut at its line breaks. -/
theorem lines_utf8 (text : List Char) :
    Lines.lines 10 (utf8 (String.ofList text)) =
      (Lines.lines '\n' text).map fun line => utf8 (String.ofList line) := by
  have hother : ∀ c : Char, c ≠ '\n' → 10 ∉ String.utf8EncodeChar c ∧ String.utf8EncodeChar c ≠ [] := by
    intro c hc
    refine ⟨fun hmem => hc (Char.ext (UInt32.toNat_inj.mp ?_)), utf8EncodeChar_ne_nil c⟩
    exact eq_of_mem_utf8EncodeChar (show (10 : UInt8).toNat < 128 by decide) hmem
  rw [utf8_ofList, Lines.lines_flatMap (show String.utf8EncodeChar '\n' = [10] by decide) hother]
  simp only [utf8_ofList]

def rowOf? (headers : List String) (line : List Char) : Option (List String) :=
  if (trim line).isEmpty then none
  else if (CsvReader.cells (trim line)).length = headers.length then some (CsvReader.cells (trim line))
  else none

theorem csvRow?_utf8 (headers : List String) (line : List Char) :
    csvRow? headers (utf8 (String.ofList line)) = rowOf? headers line := by
  rw [csvRow?, ofUtf8?_utf8, Option.bind_some, String.toList_ofList, rowOf?]

/-- Every header and every value of a row is one field. -/
theorem oneField_of_csvHeaders {text : List Char} {headers : List String}
    (hheaders : csvHeaders? (utf8 (String.ofList text)) = some headers) :
    ∀ header ∈ headers, OneField header := by
  intro header hmem
  rw [csvHeaders?, lines_utf8, List.head?_map] at hheaders
  cases hfirst : (Lines.lines '\n' text).head? with
  | none =>
    rw [hfirst] at hheaders
    exact absurd hheaders (by simp)
  | some line =>
    rw [hfirst, Option.map_some, Option.bind_some, ofUtf8?_utf8, Option.map_some,
      String.toList_ofList] at hheaders
    rw [← Option.some.inj hheaders] at hmem
    exact oneField_of_mem_cells (List.mem_of_mem_head? hfirst) hmem

theorem oneField_of_csvRows {text : List Char} {headers row : List String}
    (hrow : row ∈ csvRows headers (csvLines (utf8 (String.ofList text)))) :
    ∀ value ∈ row, OneField value := by
  intro value hmem
  obtain ⟨bytes, hbytes, hread⟩ := List.mem_filterMap.mp hrow
  rw [csvLines, lines_utf8] at hbytes
  obtain ⟨line, hline, rfl⟩ := List.mem_map.mp (List.mem_of_mem_drop hbytes)
  rw [csvRow?_utf8, rowOf?] at hread
  split at hread
  · exact absurd hread (by simp)
  · split at hread
    · rw [← Option.some.inj hread] at hmem
      exact oneField_of_mem_cells hline hmem
    · exact absurd hread (by simp)

/-! ## Records of rows -/

section TextFormats

variable {formats : TextFormats F} {start : String} {fields : List (String × String)}

structure DrawnFrom (formats : TextFormats F) (start : String) (fields : List (String × String))
    (record : VectorRecord F) : Prop where
  id : record.id = start ∨ ∃ field ∈ fields, record.id = field.2
  metadata : ∀ entry ∈ record.metadata.entries, ∃ field ∈ fields, entry.1 = field.1 ∧
    CsvReader.namesId field.1 = false ∧ CsvReader.namesVector field.1 = false ∧
      entry.2 = CsvReader.metadataValue formats field.2

theorem DrawnFrom.setField {record : VectorRecord F} (hdrawn : DrawnFrom formats start fields record)
    {field : String × String} (hfield : field ∈ fields) :
    DrawnFrom formats start fields (CsvReader.setField formats record field) := by
  rw [CsvReader.setField]
  split
  · exact { id := Or.inr ⟨field, hfield, rfl⟩, metadata := hdrawn.metadata }
  · next hid =>
    split
    · split
      · split <;> exact { id := hdrawn.id, metadata := hdrawn.metadata }
      · exact { id := hdrawn.id, metadata := hdrawn.metadata }
    · next hvector =>
      refine { id := hdrawn.id, metadata := fun entry hentry => ?_ }
      rcases SortedMap.mem_insert.mp hentry with rfl | ⟨hentry, -⟩
      · exact ⟨field, hfield, rfl, by simpa using hid, by simpa using hvector, rfl⟩
      · exact hdrawn.metadata entry hentry

theorem DrawnFrom.foldl {record : VectorRecord F} (hdrawn : DrawnFrom formats start fields record)
    {more : List (String × String)} (hmore : more ⊆ fields) :
    DrawnFrom formats start fields (more.foldl (CsvReader.setField formats) record) := by
  induction more generalizing record with
  | nil => exact hdrawn
  | cons field more ih =>
    obtain ⟨hfield, hmore⟩ := List.cons_subset.mp hmore
    exact ih (hdrawn.setField hfield) hmore

theorem drawnFrom_rowRecord (formats : TextFormats F) (headers values : List String) (i : Nat) :
    DrawnFrom formats s!"csv_row_{i}" (headers.zip values)
      (CsvReader.rowRecord formats headers values i) := by
  refine DrawnFrom.foldl ?_ (List.Subset.refl _)
  exact { id := Or.inl rfl, metadata := fun _ hentry => absurd hentry List.not_mem_nil }

theorem string_of_metadataValue {value s : String}
    (hvalue : CsvReader.metadataValue formats value = .string s) : value = s := by
  rw [CsvReader.metadataValue] at hvalue
  split at hvalue
  · split at hvalue <;> exact absurd hvalue (by simp)
  · split at hvalue
    · exact absurd hvalue (by simp)
    · split at hvalue
      · exact absurd hvalue (by simp)
      · exact Value.string.inj hvalue

theorem oneField_rowId (i : Nat) : OneField s!"csv_row_{i}" := by
  have hchars : ∀ c ∈ (s!"csv_row_{i}").toList, c ∈ "csv_row_".toList ∨ c.isDigit = true := by
    intro c hc
    have hsplit : (s!"csv_row_{i}").toList = "csv_row_".toList ++ Nat.toDigits 10 i := by
      simp [toString, Nat.repr]
    rw [hsplit] at hc
    exact (List.mem_append.mp hc).imp id fun hdigit =>
      Nat.isDigit_of_mem_toDigits (by decide) (by decide) hdigit
  exact ⟨fun hc => absurd (hchars _ hc) (by decide), fun hc => absurd (hchars _ hc) (by decide)⟩

/-- What a record of an exported text holds is of one field each. -/
structure Unbroken (record : VectorRecord F) : Prop where
  id : OneField record.id
  keys : ∀ entry ∈ record.metadata.entries, OneField entry.1 ∧
    CsvReader.namesId entry.1 = false ∧ CsvReader.namesVector entry.1 = false
  texts : ∀ entry ∈ record.metadata.entries, ∀ s, entry.2 = .string s → OneField s

theorem unbroken_rowRecord {headers row : List String} (hheaders : ∀ header ∈ headers, OneField header)
    (hrow : ∀ value ∈ row, OneField value) (i : Nat) :
    Unbroken (CsvReader.rowRecord formats headers row i) := by
  have hdrawn := drawnFrom_rowRecord formats headers row i
  refine { id := ?_, keys := fun entry hentry => ?_, texts := fun entry hentry s hs => ?_ }
  · rcases hdrawn.id with hid | ⟨field, hfield, hid⟩
    · rw [hid]
      exact oneField_rowId i
    · rw [hid]
      exact hrow _ (List.of_mem_zip hfield).2
  · obtain ⟨field, hfield, hkey, hnamesId, hnamesVector, -⟩ := hdrawn.metadata entry hentry
    rw [hkey]
    exact ⟨hheaders _ (List.of_mem_zip hfield).1, hnamesId, hnamesVector⟩
  · obtain ⟨field, hfield, -, -, -, hvalue⟩ := hdrawn.metadata entry hentry
    rw [← string_of_metadataValue (hvalue.symm.trans hs)]
    exact hrow _ (List.of_mem_zip hfield).2

/-- Every record that is read is one of a row. -/
theorem exists_row_of_readsBack {bytes : List UInt8} {n : Nat} {records : List (VectorRecord F)}
    (hback : CsvReadsBack formats (some bytes) n records) :
    ∃ headers, csvHeaders? bytes = some headers ∧
      ∀ record ∈ records, ∃ row ∈ csvRows headers (csvLines bytes), ∃ i,
        record = CsvReader.rowRecord formats headers row i := by
  cases hheaders : csvHeaders? bytes with
  | none =>
    obtain ⟨e, he⟩ := CsvReader.readBatch_new_error formats hheaders n
    obtain ⟨batches, hbatches, -⟩ := hback
    exact absurd he (hbatches.ne_error e)
  | some headers =>
    obtain ⟨K, -, -, rfl⟩ := ((CsvReader.paged formats hheaders n).delivers_iff records).mp hback
    refine ⟨headers, rfl, fun record hrecord => ?_⟩
    obtain ⟨k, -, hpage⟩ := List.mem_flatMap.mp hrecord
    obtain ⟨⟨row, i⟩, hrow, rfl⟩ := List.mem_map.mp hpage
    have hbatch : row ∈ csvBatch headers (csvLines bytes) n k := List.fst_mem_of_mem_zipIdx hrow
    obtain ⟨line, hline, hread⟩ := List.mem_filterMap.mp hbatch
    exact ⟨row, List.mem_filterMap.mpr ⟨line, List.mem_of_mem_drop (List.mem_of_mem_take hline), hread⟩,
      i, rfl⟩

/-- Nothing that is read of a text is broken. -/
theorem unbroken_of_readsBack {text : List Char} {n : Nat} {records : List (VectorRecord F)}
    (hback : CsvReadsBack formats (some (utf8 (String.ofList text))) n records) :
    ∀ record ∈ records, Unbroken record := by
  obtain ⟨headers, hheaders, hrows⟩ := exists_row_of_readsBack hback
  intro record hrecord
  obtain ⟨row, hrow, i, rfl⟩ := hrows record hrecord
  exact unbroken_rowRecord (oneField_of_csvHeaders hheaders) (oneField_of_csvRows hrow) i

end TextFormats

/-! ## Values that are written and read -/

theorem CsvReader.cell_eq_self_iff (text : String) :
    CsvReader.cell text.toList = text ↔
      CsvReader.trimQuotes text.toList = text.toList ∧ trim text.toList = text.toList := by
  rw [← String.toList_inj, cell, String.toList_ofList]
  exact Fields.strip_strip_eq_self_iff

/-- Quotes that are doubled come back doubled or not at all. -/
theorem cell_escapedValue_iff {text : String} (hcomma : ',' ∉ text.toList) :
    CsvReader.cell (CsvWriter.escapedValue text).toList = text ↔
      '"' ∉ text.toList ∧ trim text.toList = text.toList := by
  by_cases hquote : '"' ∈ text.toList
  · have hescaped : (CsvWriter.escapedValue text).toList =
        '"' :: (Fields.doubled '"' text.toList ++ ['"']) := by
      rw [CsvWriter.escapedValue, if_pos (Or.inr hquote), String.toList_ofList]
    have htrim : trim ('"' :: (Fields.doubled '"' text.toList ++ ['"'])) =
        '"' :: (Fields.doubled '"' text.toList ++ ['"']) := by
      refine Fields.strip_eq_self_iff.mpr ⟨fun c hc => ?_, fun c hc => ?_⟩
      · obtain rfl : '"' = c := Option.some.inj hc
        decide
      · rw [← List.cons_append, List.getLast?_concat] at hc
        obtain rfl : '"' = c := Option.some.inj hc
        decide
    have hquotes : CsvReader.trimQuotes ('"' :: (Fields.doubled '"' text.toList ++ ['"'])) =
        Fields.strip (· == '"') (Fields.doubled '"' text.toList) := Fields.strip_quoted '"' _
    rw [hescaped, CsvReader.cell, htrim, hquotes, ← String.toList_inj, String.toList_ofList]
    exact iff_of_false (Fields.strip_doubled_ne hquote) fun hplain => hplain.1 hquote
  · have hescaped : CsvWriter.escapedValue text = text := by
      rw [CsvWriter.escapedValue, if_neg (by simp [hcomma, hquote])]
    have hquotes : CsvReader.trimQuotes text.toList = text.toList :=
      Fields.strip_of_forall fun c hc => beq_eq_false_iff_ne.mpr fun heq => hquote (heq ▸ hc)
    rw [hescaped, CsvReader.cell_eq_self_iff]
    exact ⟨fun hboth => ⟨hquote, hboth.2⟩, fun hplain => ⟨hquotes, hplain.2⟩⟩

theorem isWhiteSpace_of_digit {c : Char} (hc : c.isDigit = true ∨ c = '-' ∨ c = '.') :
    isWhiteSpace c = false := by
  rcases hc with hdigit | rfl | rfl
  · simp only [Char.isDigit, Bool.and_eq_true, decide_eq_true_eq, ge_iff_le, UInt32.le_iff_toNat_le]
      at hdigit
    simp only [isWhiteSpace, Bool.or_eq_false_iff, Bool.and_eq_false_iff, decide_eq_false_iff_not,
      beq_eq_false_iff_ne, Char.toNat]
    have hlow : 48 ≤ c.val.toNat := hdigit.1
    have hhigh : c.val.toNat ≤ 57 := hdigit.2
    omega
  · decide
  · decide

section Floats

variable {formats : CsvFormats F} {vector : List UInt32}

theorem toList_vectorStr (formats : CsvFormats F) (vector : List UInt32) :
    (CsvWriter.vectorStr formats vector).toList =
      [';'].intercalate (vector.map fun f => (formats.f32ToString f).toList) := by
  rw [CsvWriter.vectorStr, String.toList_intercalate, List.map_map]
  rfl

theorem of_mem_vectorStr (hprints : PrintsFloats formats) (hfinite : ∀ f ∈ vector, isFiniteF32 f = true)
    {c : Char} (hc : c ∈ (CsvWriter.vectorStr formats vector).toList) :
    c = ';' ∨ c.isDigit = true ∨ c = '-' ∨ c = '.' := by
  rw [toList_vectorStr] at hc
  rcases Fields.of_mem_intercalate hc with hc | ⟨part, hpart, hc⟩
  · exact Or.inl hc
  · obtain ⟨f, hf, rfl⟩ := List.mem_map.mp hpart
    exact Or.inr (hprints.digits f (hfinite f hf) c hc)

theorem cell_vectorStr (hprints : PrintsFloats formats) (hfinite : ∀ f ∈ vector, isFiniteF32 f = true) :
    CsvReader.cell (CsvWriter.vectorStr formats vector).toList = CsvWriter.vectorStr formats vector := by
  refine (CsvReader.cell_eq_self_iff _).mpr
    ⟨Fields.strip_of_forall fun c hc => ?_, Fields.strip_of_forall fun c hc => ?_⟩
  · rcases of_mem_vectorStr hprints hfinite hc with rfl | hdigit | rfl | rfl
    · rfl
    · exact beq_eq_false_iff_ne.mpr fun heq => absurd (heq ▸ hdigit) (by decide)
    · rfl
    · rfl
  · rcases of_mem_vectorStr hprints hfinite hc with rfl | hdigit
    · decide
    · exact isWhiteSpace_of_digit hdigit

/-- A vector that is printed is parsed again. -/
theorem setField_vector (hprints : PrintsFloats formats) (hfinite : ∀ f ∈ vector, isFiniteF32 f = true)
    (hne : vector ≠ []) (record : VectorRecord F) :
    CsvReader.setField formats.toTextFormats record ("vector", CsvWriter.vectorStr formats vector) =
      { record with vector } := by
  have hbracket : (CsvWriter.vectorStr formats vector).toList.head? ≠ some '[' := by
    intro hhead
    rcases of_mem_vectorStr hprints hfinite (List.mem_of_mem_head? hhead) with h | h | h | h <;>
      exact absurd h (by decide)
  have hparts : ∀ part ∈ vector.map fun f => (formats.f32ToString f).toList, ';' ∉ part := by
    intro part hpart hsemicolon
    obtain ⟨f, hf, rfl⟩ := List.mem_map.mp hpart
    rcases hprints.digits f (hfinite f hf) _ hsemicolon with h | h | h <;> exact absurd h (by decide)
  have hparsed : ((vector.map fun f => (formats.f32ToString f).toList).filterMap fun v =>
      formats.parseF32 (String.ofList (trim v))) = vector := by
    rw [List.filterMap_map]
    refine (List.filterMap_congr fun f hf => ?_).trans List.filterMap_some
    have htrim : trim (formats.f32ToString f).toList = (formats.f32ToString f).toList :=
      Fields.strip_of_forall fun c hc =>
        isWhiteSpace_of_digit (hprints.digits f (hfinite f hf) c hc)
    rw [Function.comp_apply, htrim, String.ofList_toList, hprints.parses f (hfinite f hf)]
  have hnames : CsvReader.namesId "vector" = false ∧ CsvReader.namesVector "vector" = true := by decide
  simp only [CsvReader.setField, hnames, Bool.false_eq_true, if_false, if_true, hbracket, false_and]
  rw [toList_vectorStr, List.splitOn_intercalate ';' hparts (by simpa using hne), hparsed]

end Floats

/-! ## The row of a record -/

theorem foldl_setField_metadata {formats : TextFormats F} {fields : List (String × String)}
    (hfields : ∀ field ∈ fields,
      CsvReader.namesId field.1 = false ∧ CsvReader.namesVector field.1 = false)
    (record : VectorRecord F) :
    fields.foldl (CsvReader.setField formats) record =
      { record with
        metadata := (fields.map fun field => (field.1, CsvReader.metadataValue formats field.2)).foldl
          (fun m e => m.insert e.1 e.2) record.metadata } := by
  induction fields generalizing record with
  | nil => rfl
  | cons field fields ih =>
    obtain ⟨⟨hid, hvector⟩, hfields⟩ := List.forall_mem_cons.mp hfields
    rw [List.foldl_cons, ih hfields]
    simp only [CsvReader.setField, hid, hvector, Bool.false_eq_true, if_false]
    rfl

theorem setField_namesId (formats : TextFormats F) (record : VectorRecord F) (value : String) :
    CsvReader.setField formats record ("id", value) = { record with id := value } := by
  have hnames : CsvReader.namesId "id" = true := by decide
  simp only [CsvReader.setField, hnames, if_true]

section Rows

variable {formats : CsvFormats F} {keys : List String} {record : VectorRecord F}

def rereadValues (formats : CsvFormats F) (record : VectorRecord F) : List String :=
  (CsvWriter.values formats record).map fun value => CsvReader.cell value.toList

def rereadTexts (formats : CsvFormats F) (record : VectorRecord F) : List (String × String) :=
  record.metadata.entries.map fun entry =>
    (entry.1, CsvReader.cell (CsvWriter.escapedValue (CsvWriter.valueStr formats entry.2)).toList)

/-- What the reader makes of a value of metadata that was written. -/
def rereadValue (formats : CsvFormats F) (value : Value F) : Value F :=
  CsvReader.metadataValue formats.toTextFormats
    (CsvReader.cell (CsvWriter.escapedValue (CsvWriter.valueStr formats value)).toList)

theorem zip_rereadValues (formats : CsvFormats F) (record : VectorRecord F) :
    (CsvWriter.headers record).zip (rereadValues formats record) =
      ("id", CsvReader.cell record.id.toList) ::
        ((if record.vector.isEmpty then []
          else [("vector", CsvReader.cell (CsvWriter.vectorStr formats record.vector).toList)]) ++
            rereadTexts formats record) := by
  have htexts : (record.metadata.entries.map Prod.fst).zip
      ((record.metadata.entries.map fun entry =>
        CsvWriter.escapedValue (CsvWriter.valueStr formats entry.2)).map fun value =>
          CsvReader.cell value.toList) = rereadTexts formats record := by
    rw [List.map_map, List.zip_map']
    rfl
  rw [CsvWriter.headers, rereadValues, CsvWriter.values, List.map_cons, List.zip_cons_cons,
    List.map_append]
  split
  · rw [List.map_nil, List.nil_append, List.nil_append, htexts, List.nil_append]
  · rw [List.map_singleton, List.singleton_append, List.singleton_append, List.zip_cons_cons, htexts,
      List.singleton_append]

/-- A record is read from its own columns, value by value. -/
theorem rowRecord_reread (hprints : PrintsFloats formats)
    (hfinite : ∀ f ∈ record.vector, isFiniteF32 f = true)
    (hkeys : ∀ entry ∈ record.metadata.entries,
      CsvReader.namesId entry.1 = false ∧ CsvReader.namesVector entry.1 = false) (i : Nat) :
    ∃ metadata : Metadata F,
      metadata.entries = record.metadata.entries.map (fun entry => (entry.1, rereadValue formats entry.2)) ∧
      CsvReader.rowRecord formats.toTextFormats (CsvWriter.headers record) (rereadValues formats record) i =
        { id := CsvReader.cell record.id.toList, vector := record.vector, metadata } := by
  have hfields : ∀ field ∈ rereadTexts formats record,
      CsvReader.namesId field.1 = false ∧ CsvReader.namesVector field.1 = false := by
    intro field hfield
    obtain ⟨entry, hentry, rfl⟩ := List.mem_map.mp hfield
    exact hkeys entry hentry
  have hvalues : ((rereadTexts formats record).map fun field =>
      (field.1, CsvReader.metadataValue formats.toTextFormats field.2)) =
        record.metadata.entries.map fun entry => (entry.1, rereadValue formats entry.2) := by
    rw [rereadTexts, List.map_map]
    rfl
  have hsorted : ((SortedMap.empty (K := String) (V := Value F)).entries ++
      record.metadata.entries.map fun entry => (entry.1, rereadValue formats entry.2)).Pairwise
        fun a b => a.1 < b.1 := List.pairwise_map.mpr record.metadata.sorted
  refine ⟨_, SortedMap.entries_foldl_insert hsorted, ?_⟩
  rw [CsvReader.rowRecord, zip_rereadValues, List.foldl_cons, List.foldl_append, setField_namesId, ← hvalues]
  by_cases hvector : record.vector = []
  · rw [hvector, List.isEmpty_nil, if_pos rfl, List.foldl_nil, foldl_setField_metadata hfields]
  · rw [if_neg (by simpa using hvector), List.foldl_cons, List.foldl_nil, cell_vectorStr hprints hfinite,
      setField_vector hprints hfinite hvector, foldl_setField_metadata hfields]

/-- An id that is read as it was written. -/
structure PlainId (id : String) : Prop where
  field : OneField id
  spaces : trim id.toList = id.toList
  quotes : CsvReader.trimQuotes id.toList = id.toList

structure PlainText (text : String) : Prop where
  field : OneField text
  spaces : trim text.toList = text.toList
  quote : '"' ∉ text.toList

structure PlainRecord (record : VectorRecord F) : Prop where
  id : PlainId record.id
  texts : ∀ entry ∈ record.metadata.entries, ∀ s, entry.2 = .string s → PlainText s

theorem rereadValue_eq_iff {s : String} (hcomma : ',' ∉ s.toList) (hnumber : formats.parseF64 s = none)
    (htrue : CsvReader.lowercase s ≠ "true") (hfalse : CsvReader.lowercase s ≠ "false") :
    rereadValue formats (.string s) = .string s ↔ '"' ∉ s.toList ∧ trim s.toList = s.toList := by
  rw [← cell_escapedValue_iff hcomma, rereadValue, CsvWriter.valueStr]
  constructor
  · exact fun hvalue => string_of_metadataValue hvalue
  · intro hcell
    rw [hcell, CsvReader.metadataValue]
    simp only [hnumber, if_neg htrue, if_neg hfalse]

/-- A record that is not broken comes back from its line if it is plain, whichever line that is. -/
theorem rowRecord_reread_iff (hprints : PrintsFloats formats) (hrecord : Exportable formats keys record)
    (hunbroken : Unbroken record) (i : Nat) :
    CsvReader.rowRecord formats.toTextFormats (CsvWriter.headers record) (rereadValues formats record) i =
      record ↔ PlainRecord record := by
  obtain ⟨metadata, hentries, hrow⟩ := rowRecord_reread hprints hrecord.finite
    (fun entry hentry => (hunbroken.keys entry hentry).2) i
  have hsame : CsvReader.rowRecord formats.toTextFormats (CsvWriter.headers record)
      (rereadValues formats record) i = record ↔
        CsvReader.cell record.id.toList = record.id ∧
          ∀ entry ∈ record.metadata.entries, rereadValue formats entry.2 = entry.2 := by
    rw [hrow]
    constructor
    · intro heq
      refine ⟨congrArg VectorRecord.id heq, fun entry hentry => ?_⟩
      have hmap := hentries.symm.trans (congrArg (fun r => r.metadata.entries) heq)
      have hid := hmap.trans (List.map_id record.metadata.entries).symm
      exact congrArg Prod.snd (List.map_inj_left.mp hid entry hentry)
    · rintro ⟨hid, hvalues⟩
      have hmetadata : metadata = record.metadata := by
        refine SortedMap.entries_injective (hentries.trans ?_)
        refine (List.map_congr_left fun entry hentry => ?_).trans (List.map_id record.metadata.entries)
        rw [hvalues entry hentry]
        rfl
      rw [hid, hmetadata]
  rw [hsame, CsvReader.cell_eq_self_iff]
  constructor
  · rintro ⟨⟨hquotes, hspaces⟩, hvalues⟩
    refine { id := { field := hunbroken.id, spaces := hspaces, quotes := hquotes }, texts := ?_ }
    intro entry hentry s hs
    obtain ⟨s', hs', hnumber, htrue, hfalse⟩ := hrecord.texts entry hentry
    obtain rfl : s' = s := Value.string.inj (hs'.symm.trans hs)
    have hfield := hunbroken.texts entry hentry s' hs
    have hvalue := hvalues entry hentry
    rw [hs] at hvalue
    obtain ⟨hquote, hspaces⟩ := (rereadValue_eq_iff hfield.1 hnumber htrue hfalse).mp hvalue
    exact { field := hfield, spaces := hspaces, quote := hquote }
  · intro hplain
    refine ⟨⟨hplain.id.quotes, hplain.id.spaces⟩, fun entry hentry => ?_⟩
    obtain ⟨s, hs, hnumber, htrue, hfalse⟩ := hrecord.texts entry hentry
    have htext := hplain.texts entry hentry s hs
    rw [hs]
    exact (rereadValue_eq_iff htext.field.1 hnumber htrue hfalse).mpr ⟨htext.quote, htext.spaces⟩

end Rows

end Migration
end RTDB
