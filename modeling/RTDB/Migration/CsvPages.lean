import RTDB.Lib.Batches
import RTDB.Lib.Names
import RTDB.Migration.TextFormats

/-!
# Batches of comma-separated values

Where the CSV reader begins its batches, and what it reads there.
-/

namespace RTDB
namespace Migration

open Batches Bytes

variable {F : Type} {formats : TextFormats F} {headers : List String}

/-! ## The rows of a file -/

/-- The values of a line that is not blank, if there are as many as headers. -/
def csvRow? (headers : List String) (line : List UInt8) : Option (List String) :=
  (ofUtf8? line).bind fun text =>
    if (trim text.toList).isEmpty then none
    else if (CsvReader.cells (trim text.toList)).length = headers.length then
      some (CsvReader.cells (trim text.toList))
    else none

def csvRows (headers : List String) (ls : List (List UInt8)) : List (List String) :=
  ls.filterMap (csvRow? headers)

def csvHeaders? (bytes : List UInt8) : Option (List String) :=
  ((Lines.lines 10 bytes).head?.bind ofUtf8?).map fun text => CsvReader.cells (trim text.toList)

def csvLines (bytes : List UInt8) : List (List UInt8) := (Lines.lines 10 bytes).drop 1

/-- Records of rows that are counted from `i` on. -/
def numbered (formats : TextFormats F) (headers : List String) (i : Nat) (rows : List (List String)) :
    List (VectorRecord F) :=
  (rows.zipIdx i).map fun row => CsvReader.rowRecord formats headers row.1 row.2

def csvRecords (formats : TextFormats F) (bytes : List UInt8) : List (VectorRecord F) :=
  match csvHeaders? bytes with
  | none => []
  | some headers => numbered formats headers 1 (csvRows headers (csvLines bytes))

theorem numbered_cons (i : Nat) (row : List String) (rows : List (List String)) :
    numbered formats headers i (row :: rows) =
      CsvReader.rowRecord formats headers row i :: numbered formats headers (i + 1) rows := rfl

@[simp] theorem length_numbered (i : Nat) (rows : List (List String)) :
    (numbered formats headers i rows).length = rows.length := by
  rw [numbered, List.length_map, List.length_zipIdx]

theorem numbered_eq_nil_iff {i : Nat} {rows : List (List String)} :
    numbered formats headers i rows = [] ↔ rows = [] := by
  rw [← List.length_eq_zero_iff, length_numbered, List.length_eq_zero_iff]

theorem numbered_append (i : Nat) (rows more : List (List String)) :
    numbered formats headers i (rows ++ more) =
      numbered formats headers i rows ++ numbered formats headers (i + rows.length) more := by
  rw [numbered, List.zipIdx_append, List.map_append]
  rfl

theorem getElem?_numbered (i j : Nat) (rows : List (List String)) :
    (numbered formats headers i rows)[j]? =
      rows[j]?.map fun row => CsvReader.rowRecord formats headers row (i + j) := by
  rw [numbered, List.getElem?_map, List.getElem?_zipIdx, Option.map_map]
  rfl

theorem length_of_mem_csvRows {ls : List (List UInt8)} {row : List String}
    (hrow : row ∈ csvRows headers ls) : row.length = headers.length := by
  obtain ⟨line, -, hline⟩ := List.mem_filterMap.mp hrow
  obtain ⟨text, -, htext⟩ := Option.bind_eq_some_iff.mp hline
  split at htext
  · exact absurd htext (by simp)
  · split at htext
    · next hlength => exact Option.some.inj htext ▸ hlength
    · exact absurd htext (by simp)

/-! ## Records with an id of their own -/

theorem setField_id (r : VectorRecord F) (id : String) {field : String × String}
    (hfield : CsvReader.namesId field.1 = false) :
    CsvReader.setField formats { r with id } field = { CsvReader.setField formats r field with id } := by
  simp only [CsvReader.setField, hfield]
  split
  · exact absurd ‹false = true› (by simp)
  · split
    · split
      · split <;> rfl
      · rfl
    · rfl

theorem foldl_setField_id (r : VectorRecord F) (id : String) {fields : List (String × String)}
    (hfields : ∀ field ∈ fields, CsvReader.namesId field.1 = false) :
    fields.foldl (CsvReader.setField formats) { r with id } =
      { fields.foldl (CsvReader.setField formats) r with id } := by
  induction fields generalizing r with
  | nil => rfl
  | cons field fields ih =>
    obtain ⟨hfield, hfields⟩ := List.forall_mem_cons.mp hfields
    rw [List.foldl_cons, setField_id r id hfield, ih _ hfields]
    rfl

/-- A column of ids leaves nothing of the count. -/
theorem foldl_setField_forget (r : VectorRecord F) (id id' : String) {fields : List (String × String)}
    (hfields : ∃ field ∈ fields, CsvReader.namesId field.1 = true) :
    fields.foldl (CsvReader.setField formats) { r with id } =
      fields.foldl (CsvReader.setField formats) { r with id := id' } := by
  induction fields generalizing r with
  | nil => exact absurd hfields (by simp)
  | cons field fields ih =>
    rw [List.foldl_cons, List.foldl_cons]
    cases hfield : CsvReader.namesId field.1 with
    | true => simp only [CsvReader.setField, hfield, if_true]
    | false =>
      rw [setField_id r id hfield, setField_id r id' hfield]
      refine ih _ ?_
      obtain ⟨other, hmem, hother⟩ := hfields
      rcases List.mem_cons.mp hmem with rfl | hmem
      · rw [hfield] at hother
        exact absurd hother (by simp)
      · exact ⟨other, hmem, hother⟩

def HasId (headers : List String) : Prop := ∃ header ∈ headers, CsvReader.namesId header = true

theorem rowRecord_forget (hid : HasId headers) {values : List String}
    (hlength : values.length = headers.length) (i j : Nat) :
    CsvReader.rowRecord formats headers values i = CsvReader.rowRecord formats headers values j := by
  obtain ⟨header, hmem, hheader⟩ := hid
  have hzip : (headers.zip values).map Prod.fst = headers := List.map_fst_zip (Nat.le_of_eq hlength.symm)
  rw [← hzip] at hmem
  obtain ⟨field, hfield, rfl⟩ := List.mem_map.mp hmem
  exact foldl_setField_forget { id := "", vector := [], metadata := SortedMap.empty } _ _
    ⟨field, hfield, hheader⟩

theorem numbered_forget (hid : HasId headers) (i j : Nat) {rows : List (List String)}
    (hrows : ∀ row ∈ rows, row.length = headers.length) :
    numbered formats headers i rows = numbered formats headers j rows := by
  induction rows generalizing i j with
  | nil => rfl
  | cons row rows ih =>
    obtain ⟨hrow, hrows⟩ := List.forall_mem_cons.mp hrows
    rw [numbered_cons, numbered_cons, rowRecord_forget hid hrow i j, ih (i + 1) (j + 1) hrows]

theorem rowRecord_id (hid : ¬ HasId headers) (values : List String) (i : Nat) :
    (CsvReader.rowRecord formats headers values i).id = s!"csv_row_{i}" := by
  have hfields : ∀ field ∈ headers.zip values, CsvReader.namesId field.1 = false := by
    intro field hfield
    by_contra hnames
    exact hid ⟨field.1, (List.of_mem_zip hfield).1, by simpa using hnames⟩
  exact congrArg VectorRecord.id
    (foldl_setField_id { id := "", vector := [], metadata := SortedMap.empty } s!"csv_row_{i}" hfields)

theorem rowId_inj {i j : Nat} (hij : s!"csv_row_{i}" = s!"csv_row_{j}") : i = j := by
  refine Names.toDigits_inj ?_
  simpa using congrArg String.toList hij

/-! ## One batch -/

def AllText (ls : List (List UInt8)) : Prop := ∀ line ∈ ls, (ofUtf8? line).isSome = true

theorem CsvReader.rows_ok {n : Nat} (currentLine : Nat) {file : List UInt8}
    (htext : AllText ((Lines.lines 10 file).take n)) :
    CsvReader.rows formats headers n currentLine file =
      .ok (numbered formats headers currentLine (csvRows headers ((Lines.lines 10 file).take n)),
        currentLine + (csvRows headers ((Lines.lines 10 file).take n)).length) := by
  induction n generalizing currentLine file with
  | zero =>
    rw [List.take_zero]
    rfl
  | succ n ih =>
    rw [CsvReader.rows]
    rcases AsyncBufReader.readLine_cases "line" file with ⟨rfl, hread⟩ | ⟨line, hlines, hline⟩
    · rw [hread]
      rfl
    · rw [hlines, List.take_succ_cons] at htext ⊢
      obtain ⟨hfirst, hrest⟩ := List.forall_mem_cons.mp htext
      rcases hline with ⟨text, hsome, hread⟩ | ⟨hnone, -⟩
      · simp only [hread, csvRows, List.filterMap_cons, csvRow?, hsome, Option.bind_some]
        by_cases hblank : (trim text.toList).isEmpty = true
        · rw [if_pos hblank, if_pos hblank]
          exact ih currentLine hrest
        · rw [if_neg hblank, if_neg hblank]
          by_cases hcount : (CsvReader.cells (trim text.toList)).length = headers.length
          · rw [if_neg (not_not_intro hcount), if_pos hcount, ih (currentLine + 1) hrest]
            simp only [Except.map, numbered_cons, List.length_cons, csvRows]
            rw [Nat.add_assoc, Nat.add_comm 1]
          · rw [if_pos hcount, if_neg hcount]
            exact ih currentLine hrest
      · rw [hnone] at hfirst
        exact absurd hfirst (by simp)

theorem CsvReader.rows_error {n : Nat} (currentLine : Nat) {file : List UInt8}
    (hbad : ¬ AllText ((Lines.lines 10 file).take n)) :
    ∃ e, CsvReader.rows formats headers n currentLine file = .error e := by
  induction n generalizing currentLine file with
  | zero => exact absurd (fun line hline => absurd hline (by simp)) hbad
  | succ n ih =>
    rw [CsvReader.rows]
    rcases AsyncBufReader.readLine_cases "line" file with ⟨rfl, hread⟩ | ⟨line, hlines, hline⟩
    · exact absurd (fun line hline => absurd hline (by simp [Lines.lines])) hbad
    · rw [hlines, List.take_succ_cons, AllText, List.forall_mem_cons] at hbad
      rcases hline with ⟨text, htext, hread⟩ | ⟨hnone, e, hread⟩
      · have hmore : ¬ AllText ((Lines.lines 10 (Lines.takeLine 10 file).2).take n) :=
          fun hrest => hbad ⟨by rw [htext]; rfl, hrest⟩
        simp only [hread]
        split
        · exact ih currentLine hmore
        · split
          · exact ih currentLine hmore
          · obtain ⟨e, he⟩ := ih (currentLine + 1) hmore
            exact ⟨e, by rw [he]; rfl⟩
      · exact ⟨e, by rw [hread]⟩

theorem CsvReader.skip_ok {n : Nat} (currentLine : Nat) {file : List UInt8}
    (htext : AllText ((Lines.lines 10 file).take n)) :
    CsvReader.skip n currentLine file =
      .ok (currentLine + min n (Lines.lines 10 file).length, Lines.dropLines 10 n file) := by
  induction n generalizing currentLine file with
  | zero =>
    rw [Nat.zero_min]
    rfl
  | succ n ih =>
    rw [CsvReader.skip]
    rcases AsyncBufReader.readLine_cases "line" file with ⟨rfl, hread⟩ | ⟨line, hlines, hline⟩
    · rw [hread, Lines.dropLines_nil]
      rfl
    · rw [hlines, List.take_succ_cons] at htext
      obtain ⟨hfirst, hrest⟩ := List.forall_mem_cons.mp htext
      rcases hline with ⟨text, -, hread⟩ | ⟨hnone, -⟩
      · simp only [hread]
        rw [ih (currentLine + 1) hrest, hlines, List.length_cons, Lines.dropLines, Nat.succ_min_succ,
          Nat.add_assoc, Nat.add_comm 1]
      · rw [hnone] at hfirst
        exact absurd hfirst (by simp)

theorem CsvReader.skip_error {n : Nat} (currentLine : Nat) {file : List UInt8}
    (hbad : ¬ AllText ((Lines.lines 10 file).take n)) :
    ∃ e, CsvReader.skip n currentLine file = .error e := by
  induction n generalizing currentLine file with
  | zero => exact absurd (fun line hline => absurd hline (by simp)) hbad
  | succ n ih =>
    rw [CsvReader.skip]
    rcases AsyncBufReader.readLine_cases "line" file with ⟨rfl, hread⟩ | ⟨line, hlines, hline⟩
    · exact absurd (fun line hline => absurd hline (by simp [Lines.lines])) hbad
    · rw [hlines, List.take_succ_cons, AllText, List.forall_mem_cons] at hbad
      rcases hline with ⟨text, htext, hread⟩ | ⟨hnone, e, hread⟩
      · simp only [hread]
        exact ih (currentLine + 1) fun hrest => hbad ⟨by rw [htext]; rfl, hrest⟩
      · exact ⟨e, by rw [hread]⟩

/-! ## Batch after batch -/

/-- The lines that are skipped in front of batch `k`: for each batch before one more than its rows. -/
def csvOffset (headers : List String) (ls : List (List UInt8)) (n : Nat) : Nat → Nat
  | 0 => 0
  | k + 1 =>
    csvOffset headers ls n k +
      (1 + (csvRows headers ((ls.drop (csvOffset headers ls n k)).take n)).length)

def csvBatch (headers : List String) (ls : List (List UInt8)) (n k : Nat) : List (List String) :=
  csvRows headers ((ls.drop (csvOffset headers ls n k)).take n)

def csvPage (formats : TextFormats F) (headers : List String) (ls : List (List UInt8)) (n k : Nat) :
    List (VectorRecord F) :=
  numbered formats headers (1 + csvOffset headers ls n k) (csvBatch headers ls n k)

theorem csvPage_eq_nil_iff {ls : List (List UInt8)} {n k : Nat} :
    csvPage formats headers ls n k = [] ↔ csvBatch headers ls n k = [] := numbered_eq_nil_iff

theorem csvOffset_succ (headers : List String) (ls : List (List UInt8)) (n k : Nat) :
    csvOffset headers ls n (k + 1) = csvOffset headers ls n k + (1 + (csvBatch headers ls n k).length) :=
  rfl

theorem csvOffset_eq (headers : List String) (ls : List (List UInt8)) (n k : Nat) :
    csvOffset headers ls n k = k + ((List.range k).flatMap (csvBatch headers ls n)).length := by
  induction k with
  | zero => rfl
  | succ k ih =>
    rw [csvOffset_succ, ih, List.range_succ, List.flatMap_append, List.length_append,
      List.flatMap_singleton]
    omega

def CsvReader.before (headers : List String) (ls : List (List UInt8)) (n : Nat) : Nat → CsvReader
  | 0 => CsvReader.new
  | k + 1 => { currentLine := csvOffset headers ls n (k + 1), headers := some headers }

/-- A file with a header line, and what is below it. -/
theorem exists_header {bytes : List UInt8} (hheaders : csvHeaders? bytes = some headers)
    (what : String) :
    ∃ line rest, AsyncBufReader.readLine what bytes = .ok (some (line, rest)) ∧
      CsvReader.cells (trim line) = headers ∧ Lines.lines 10 rest = csvLines bytes := by
  obtain ⟨text, htext, rfl⟩ := Option.map_eq_some_iff.mp hheaders
  rcases AsyncBufReader.readLine_cases what bytes with ⟨rfl, -⟩ | ⟨line, hlines, hline⟩
  · exact absurd htext (by simp [Lines.lines])
  · rw [hlines, List.head?_cons, Option.bind_some] at htext
    rcases hline with ⟨text', htext', hread⟩ | ⟨hnone, -⟩
    · obtain rfl : text = text' := Option.some.inj (htext.symm.trans htext')
      exact ⟨_, _, hread, rfl, by rw [csvLines, hlines]; rfl⟩
    · rw [hnone] at htext
      exact absurd htext (by simp)

theorem CsvReader.readHeaders_before {bytes : List UInt8} (hheaders : csvHeaders? bytes = some headers)
    (ls : List (List UInt8)) (n k : Nat) :
    CsvReader.readHeaders bytes (CsvReader.before headers ls n k) =
      .ok (headers, { currentLine := csvOffset headers ls n k, headers := some headers }) := by
  cases k with
  | zero =>
    obtain ⟨line, rest, hread, rfl, -⟩ := exists_header hheaders "CSV header"
    simp only [CsvReader.readHeaders, CsvReader.before, CsvReader.new, hread]
    rfl
  | succ k => rfl

theorem allText_take_add {ls : List (List UInt8)} {m n : Nat} :
    AllText (ls.take (m + n)) ↔ AllText (ls.take m) ∧ AllText ((ls.drop m).take n) := by
  rw [List.take_add, AllText, List.forall_mem_append]
  rfl

variable (formats) in
theorem CsvReader.readBatch_before {bytes : List UInt8} (hheaders : csvHeaders? bytes = some headers)
    (ls : List (List UInt8)) (n k : Nat) :
    ∃ rest, Lines.lines 10 rest = csvLines bytes ∧
      CsvReader.readBatch formats bytes (CsvReader.before headers ls n k) n =
        (CsvReader.skip (csvOffset headers ls n k) 1 rest >>= fun s =>
          (CsvReader.rows formats headers n s.1 s.2).map fun r =>
            (r.1, { currentLine := r.2, headers := some headers })) := by
  obtain ⟨line, rest, hread, -, hlines⟩ := exists_header hheaders "line"
  refine ⟨rest, hlines, ?_⟩
  rw [CsvReader.readBatch, CsvReader.readHeaders_before hheaders]
  show (AsyncBufReader.readLine "line" bytes >>= fun header => _) = _
  rw [hread]
  show (CsvReader.skip (csvOffset headers ls n k) 1 rest >>= fun s => _) = _
  refine congrArg _ (funext fun s => ?_)
  show (CsvReader.rows formats headers n s.1 s.2 >>= fun r => _) = _
  cases CsvReader.rows formats headers n s.1 s.2 with
  | error e => rfl
  | ok r => rfl

variable (formats) in
theorem CsvReader.paged {bytes : List UInt8} (hheaders : csvHeaders? bytes = some headers) (n : Nat) :
    Paged (fun reader => CsvReader.readBatch formats bytes reader n)
      (CsvReader.before headers (csvLines bytes) n)
      (fun k => AllText ((csvLines bytes).take (csvOffset headers (csvLines bytes) n k + n)))
      (csvPage formats headers (csvLines bytes) n) where
  reads k hgood := by
    obtain ⟨rest, hlines, hread⟩ := CsvReader.readBatch_before formats hheaders (csvLines bytes) n k
    generalize csvLines bytes = ls at hgood hlines hread ⊢
    have hoffset := csvOffset_succ headers ls n k
    rw [csvPage]
    rw [csvBatch] at hoffset ⊢
    generalize csvOffset headers ls n k = o at hgood hread hoffset ⊢
    obtain ⟨hskipped, hwindow⟩ := allText_take_add.mp hgood
    have hdrop : Lines.lines 10 (Lines.dropLines 10 o rest) = ls.drop o := by
      rw [Lines.lines_dropLines, hlines]
    rw [← hlines] at hskipped
    rw [← hdrop] at hwindow
    have hbatch : CsvReader.readBatch formats bytes (CsvReader.before headers ls n k) n =
        .ok (numbered formats headers (1 + min o ls.length) (csvRows headers ((ls.drop o).take n)),
          { currentLine := 1 + min o ls.length + (csvRows headers ((ls.drop o).take n)).length
            headers := some headers }) := by
      rw [hread, CsvReader.skip_ok 1 hskipped, hlines]
      show (CsvReader.rows formats headers n _ _).map _ = _
      rw [CsvReader.rows_ok _ hwindow, hdrop]
      rfl
    by_cases hnone : csvRows headers ((ls.drop o).take n) = []
    · rw [hnone] at hbatch ⊢
      exact ⟨_, hbatch, fun hne => absurd rfl hne⟩
    · -- There is a row, so the end was not met on the way to it.
      have hbefore : o < ls.length := by
        by_contra hend
        rw [List.drop_eq_nil_of_le (Nat.le_of_not_lt hend), List.take_nil] at hnone
        exact hnone rfl
      rw [Nat.min_eq_left (Nat.le_of_lt hbefore)] at hbatch
      refine ⟨_, hbatch, fun _ => ?_⟩
      rw [CsvReader.before, hoffset, ← Nat.add_assoc, Nat.add_comm 1 o]
  fails k hbad := by
    obtain ⟨rest, hlines, hread⟩ := CsvReader.readBatch_before formats hheaders (csvLines bytes) n k
    show ∃ e, CsvReader.readBatch formats bytes _ n = .error e
    generalize csvLines bytes = ls at hbad hlines hread ⊢
    generalize csvOffset headers ls n k = o at hbad hread ⊢
    rw [allText_take_add] at hbad
    rw [hread]
    by_cases hskipped : AllText ((Lines.lines 10 rest).take o)
    · have hwindow : ¬ AllText ((Lines.lines 10 (Lines.dropLines 10 o rest)).take n) := by
        rw [Lines.lines_dropLines, hlines]
        rw [hlines] at hskipped
        exact fun hwindow => hbad ⟨hskipped, hwindow⟩
      rw [CsvReader.skip_ok 1 hskipped]
      have herror : ∃ e, CsvReader.rows formats headers n (1 + min o (Lines.lines 10 rest).length)
          (Lines.dropLines 10 o rest) = .error e := CsvReader.rows_error _ hwindow
      obtain ⟨e, he⟩ := herror
      refine ⟨e, ?_⟩
      show (CsvReader.rows formats headers n _ _).map _ = _
      rw [he]
      rfl
    · obtain ⟨e, he⟩ := CsvReader.skip_error 1 hskipped
      exact ⟨e, by rw [he]; rfl⟩

/-! ## Whole files -/

/-- As long as the batches have rows: what is read of the file is text, behind a batch without a row
there is none, and the lines a batch with rows moves on by hold the rows it has read and no others.  The
second batch and those behind it are only right if the rows have ids of their own. -/
def CsvWhole (bytes : List UInt8) (n : Nat) : Prop :=
  ∃ headers, csvHeaders? bytes = some headers ∧
    ∀ k, (∀ j, j < k → csvBatch headers (csvLines bytes) n j ≠ []) →
      AllText ((csvLines bytes).take (csvOffset headers (csvLines bytes) n k + n)) ∧
        (csvBatch headers (csvLines bytes) n k = [] →
          csvRows headers ((csvLines bytes).drop (csvOffset headers (csvLines bytes) n k)) = []) ∧
        (csvBatch headers (csvLines bytes) n k ≠ [] → (k = 0 ∨ HasId headers) ∧
          csvRows headers (((csvLines bytes).drop (csvOffset headers (csvLines bytes) n k)).take
            (1 + (csvBatch headers (csvLines bytes) n k).length)) =
              csvBatch headers (csvLines bytes) n k)

variable {ls : List (List UInt8)} {n : Nat}

variable (headers ls) in
theorem csvRows_take_add (c m : Nat) :
    csvRows headers (ls.take (c + m)) =
      csvRows headers (ls.take c) ++ csvRows headers ((ls.drop c).take m) := by
  rw [List.take_add, csvRows, List.filterMap_append]
  rfl

variable (headers ls) in
theorem csvRows_take_append_drop (c : Nat) :
    csvRows headers (ls.take c) ++ csvRows headers (ls.drop c) = csvRows headers ls := by
  rw [csvRows, csvRows, ← List.filterMap_append, List.take_append_drop, csvRows]

variable (headers ls) in
theorem csvRows_take_initial (c : Nat) : csvRows headers (ls.take c) <+: csvRows headers ls :=
  ⟨_, csvRows_take_append_drop headers ls c⟩

theorem pages_of_whole
    (hwhole : ∀ k, (∀ j, j < k → csvBatch headers ls n j ≠ []) → csvBatch headers ls n k ≠ [] →
      (k = 0 ∨ HasId headers) ∧ csvRows headers ((ls.drop (csvOffset headers ls n k)).take
        (1 + (csvBatch headers ls n k).length)) = csvBatch headers ls n k)
    {m : Nat} (hm : ∀ j, j < m → csvBatch headers ls n j ≠ []) :
    (List.range m).flatMap (csvPage formats headers ls n) =
      numbered formats headers 1 (csvRows headers (ls.take (csvOffset headers ls n m))) := by
  induction m with
  | zero => rfl
  | succ m ih =>
    have hbefore : ∀ j, j < m → csvBatch headers ls n j ≠ [] := fun j hj => hm j (Nat.lt_succ_of_lt hj)
    obtain ⟨hcount, hrows⟩ := hwhole m hbefore (hm m (Nat.lt_succ_self m))
    rw [List.range_succ, List.flatMap_append, List.flatMap_singleton, ih hbefore, csvPage,
      csvOffset_succ, csvRows_take_add, hrows, numbered_append]
    refine congrArg _ ?_
    rcases hcount with rfl | hid
    · rfl
    · exact numbered_forget hid _ _ fun row hrow => length_of_mem_csvRows hrow

theorem csvOffset_le (headers : List String) (ls : List (List UInt8)) (n k : Nat) :
    k ≤ csvOffset headers ls n k := by
  rw [csvOffset_eq]
  exact Nat.le_add_right _ _

variable (formats) in
theorem csv_delivers_of_whole {bytes : List UInt8} (hwhole : CsvWhole bytes n) :
    ∃ bs, Delivers (fun reader => CsvReader.readBatch formats bytes reader n) CsvReader.new bs ∧
      bs.flatten = csvRecords formats bytes := by
  obtain ⟨headers, hheaders, hwhole⟩ := hwhole
  have hrecords : csvRecords formats bytes =
      numbered formats headers 1 (csvRows headers (csvLines bytes)) := by
    rw [csvRecords, hheaders]
  rw [hrecords]
  refine ((CsvReader.paged formats hheaders n).delivers_iff _).mpr ?_
  generalize csvLines bytes = ls at hwhole ⊢
  have hlast : csvBatch headers ls n ls.length = [] := by
    rw [csvBatch, List.drop_eq_nil_of_le (csvOffset_le headers ls n _), List.take_nil]
    rfl
  obtain ⟨K, -, hempty, hfirst⟩ := Paging.exists_first (p := fun k => csvBatch headers ls n k = []) hlast
  refine ⟨K, fun k hk => ⟨?_, ?_⟩, ⟨(hwhole K hfirst).1, csvPage_eq_nil_iff.mpr hempty⟩, ?_⟩
  · exact (hwhole k fun j hj => hfirst j (Nat.lt_trans hj hk)).1
  · exact fun hnil => hfirst k hk (csvPage_eq_nil_iff.mp hnil)
  · rw [pages_of_whole (fun k hk => (hwhole k hk).2.2) hfirst, ← csvRows_take_append_drop headers ls
      (csvOffset headers ls n K), (hwhole K hfirst).2.1 hempty, List.append_nil]

/-! ## Only whole files -/

/-- How many rows there are among so many lines. -/
def rowsBefore (headers : List String) (ls : List (List UInt8)) (c : Nat) : Nat :=
  (csvRows headers (ls.take c)).length

variable (headers ls) in
theorem rowsBefore_add (c m : Nat) : rowsBefore headers ls (c + m) =
    rowsBefore headers ls c + (csvRows headers ((ls.drop c).take m)).length :=
  Paging.length_filterMap_take_add (csvRow? headers) ls c m

variable (headers ls) in
theorem rowsBefore_drop (c : Nat) :
    rowsBefore headers ls c + (csvRows headers (ls.drop c)).length = (csvRows headers ls).length := by
  rw [← csvRows_take_append_drop headers ls c, List.length_append]
  rfl

/-- The first row of a batch, by its place in the file. -/
theorem getElem?_rowsBefore {k : Nat} {row : List String} {more : List (List String)}
    (hbatch : csvBatch headers ls n k = row :: more) :
    (csvRows headers ls)[rowsBefore headers ls (csvOffset headers ls n k)]? = some row := by
  obtain ⟨rest, hrest⟩ := csvRows_take_initial headers (ls.drop (csvOffset headers ls n k)) n
  rw [← csvRows_take_append_drop headers ls (csvOffset headers ls n k), ← hrest, ← csvBatch, hbatch,
    rowsBefore, List.getElem?_append_right (Nat.le_refl _), Nat.sub_self]
  rfl

theorem length_pages (k : Nat) :
    ((List.range k).flatMap (csvPage formats headers ls n)).length =
      ((List.range k).flatMap (csvBatch headers ls n)).length := by
  rw [List.length_flatMap, List.length_flatMap]
  simp only [csvPage, length_numbered]

/-- Where the pages make up the records, each begins behind as many rows as were read. -/
theorem rowsBefore_of_pages {K : Nat} (hbatches : ∀ k, k < K → csvBatch headers ls n k ≠ [])
    (hpages : (List.range K).flatMap (csvPage formats headers ls n) =
      numbered formats headers 1 (csvRows headers ls))
    (hdistinct : HasId headers → (numbered formats headers 1 (csvRows headers ls)).Nodup) {k : Nat}
    (hk : k < K) :
    rowsBefore headers ls (csvOffset headers ls n k) =
        ((List.range k).flatMap (csvBatch headers ls n)).length ∧ (k = 0 ∨ HasId headers) := by
  obtain ⟨row, more, hbatch⟩ := List.exists_cons_of_ne_nil (hbatches k hk)
  have hrow := getElem?_rowsBefore hbatch
  have hplace := Paging.getElem?_flatMap_range (csvPage formats headers ls n) hk
    (fun hnil => hbatches k hk (csvPage_eq_nil_iff.mp hnil))
  rw [hpages, length_pages, csvPage, hbatch, numbered_cons, List.head?_cons] at hplace
  by_cases hid : HasId headers
  · refine ⟨?_, Or.inr hid⟩
    have hlength : row.length = headers.length :=
      length_of_mem_csvRows (hbatch ▸ List.mem_cons_self : row ∈ csvBatch headers ls n k)
    have hsame : (numbered formats headers 1 (csvRows headers ls))[
        rowsBefore headers ls (csvOffset headers ls n k)]? =
          some (CsvReader.rowRecord formats headers row (1 + csvOffset headers ls n k)) := by
      rw [getElem?_numbered, hrow, Option.map_some, rowRecord_forget hid hlength]
    exact (List.getElem?_inj (List.getElem?_eq_some_iff.mp hsame).1 (hdistinct hid)).mp
      (hsame.trans hplace.symm)
  · rw [getElem?_numbered] at hplace
    obtain ⟨other, -, hother⟩ := Option.map_eq_some_iff.mp hplace
    have hids := congrArg VectorRecord.id hother
    rw [rowRecord_id hid, rowRecord_id hid] at hids
    have hcount := rowId_inj hids
    rw [csvOffset_eq] at hcount
    obtain rfl : k = 0 := by omega
    exact ⟨rfl, Or.inl rfl⟩

theorem rowsBefore_end {K : Nat} (hend : csvBatch headers ls n K = [])
    (hall : ((List.range K).flatMap (csvBatch headers ls n)).length = (csvRows headers ls).length)
    (hrows : ∀ k, k < K → rowsBefore headers ls (csvOffset headers ls n k) =
      ((List.range k).flatMap (csvBatch headers ls n)).length) :
    rowsBefore headers ls (csvOffset headers ls n K) = (csvRows headers ls).length := by
  cases K with
  | zero => exact hall
  | succ K =>
    have hlast := hrows K (Nat.lt_succ_self K)
    have hwindow := rowsBefore_add headers ls (csvOffset headers ls n K) n
    have hbehind := rowsBefore_add headers ls (csvOffset headers ls n (K + 1)) n
    have hmore := rowsBefore_add headers ls (csvOffset headers ls n K + n)
      (1 + (csvBatch headers ls n K).length)
    have hle := rowsBefore_drop headers ls (csvOffset headers ls n (K + 1))
    rw [← csvBatch] at hwindow hbehind
    rw [hend, List.length_nil] at hbehind
    rw [List.range_succ, List.flatMap_append, List.length_append, List.flatMap_singleton] at hall
    rw [csvOffset_succ] at hbehind hle ⊢
    rw [show csvOffset headers ls n K + n + (1 + (csvBatch headers ls n K).length) =
      csvOffset headers ls n K + (1 + (csvBatch headers ls n K).length) + n by omega] at hmore
    omega

/-- Without a header line nothing is read. -/
theorem CsvReader.readBatch_new_error (formats : TextFormats F) {bytes : List UInt8}
    (hnone : csvHeaders? bytes = none) (n : Nat) :
    ∃ e, CsvReader.readBatch formats bytes CsvReader.new n = .error e := by
  have herror : ∃ e, CsvReader.readHeaders bytes CsvReader.new = .error e := by
    rcases AsyncBufReader.readLine_cases "CSV header" bytes with
      ⟨rfl, hread⟩ | ⟨line, hlines, ⟨text, htext, -⟩ | ⟨-, e, hread⟩⟩
    · exact ⟨_, rfl⟩
    · rw [csvHeaders?, hlines, List.head?_cons, Option.bind_some, htext] at hnone
      exact absurd hnone (by simp)
    · refine ⟨e, ?_⟩
      simp only [CsvReader.readHeaders, CsvReader.new, hread]
  obtain ⟨e, he⟩ := herror
  exact ⟨e, by rw [CsvReader.readBatch, he]; rfl⟩

theorem csv_whole_of_delivers {bytes : List UInt8}
    (hdistinct : ∀ headers, csvHeaders? bytes = some headers → HasId headers →
      (csvRecords formats bytes).Nodup)
    (hbs : ∃ bs, Delivers (fun reader => CsvReader.readBatch formats bytes reader n) CsvReader.new bs ∧
      bs.flatten = csvRecords formats bytes) : CsvWhole bytes n := by
  cases hheaders : csvHeaders? bytes with
  | none =>
    obtain ⟨bs, hbs, -⟩ := hbs
    obtain ⟨e, he⟩ := CsvReader.readBatch_new_error formats hheaders n
    exact absurd he (hbs.ne_error e)
  | some headers =>
    have hrecords : csvRecords formats bytes =
        numbered formats headers 1 (csvRows headers (csvLines bytes)) := by
      rw [csvRecords, hheaders]
    have hdistinct := hdistinct headers hheaders
    rw [hrecords] at hbs hdistinct
    obtain ⟨K, hbefore, ⟨htext, hend⟩, hpages⟩ :=
      ((CsvReader.paged formats hheaders n).delivers_iff _).mp hbs
    refine ⟨headers, hheaders, ?_⟩
    generalize csvLines bytes = ls at *
    have hend := csvPage_eq_nil_iff.mp hend
    have hbatches : ∀ k, k < K → csvBatch headers ls n k ≠ [] :=
      fun k hk hnil => (hbefore k hk).2 (csvPage_eq_nil_iff.mpr hnil)
    have hall : ((List.range K).flatMap (csvBatch headers ls n)).length =
        (csvRows headers ls).length := by
      have hlength := congrArg List.length hpages
      rw [length_pages, length_numbered] at hlength
      exact hlength
    have hplaces := fun k hk => rowsBefore_of_pages hbatches hpages hdistinct (k := k) hk
    have hlast := rowsBefore_end hend hall fun k hk => (hplaces k hk).1
    intro k hk
    rcases Nat.lt_trichotomy k K with hlt | rfl | hgt
    · refine ⟨(hbefore k hlt).1, fun hnil => absurd hnil (hbatches k hlt),
        fun _ => ⟨(hplaces k hlt).2, ?_⟩⟩
      have hnext : rowsBefore headers ls (csvOffset headers ls n (k + 1)) =
          ((List.range (k + 1)).flatMap (csvBatch headers ls n)).length := by
        rcases Nat.lt_or_ge (k + 1) K with hlt' | hge
        · exact (hplaces (k + 1) hlt').1
        · obtain rfl : K = k + 1 := by omega
          rw [hlast, hall]
      have hpassed := rowsBefore_add headers ls (csvOffset headers ls n k)
        (1 + (csvBatch headers ls n k).length)
      rw [← csvOffset_succ, hnext, (hplaces k hlt).1, List.range_succ, List.flatMap_append,
        List.length_append, List.flatMap_singleton] at hpassed
      exact (List.prefix_of_prefix_length_le (csvRows_take_initial headers _ _)
        (csvRows_take_initial headers _ n) (by rw [← csvBatch]; omega)).eq_of_length (by rw [← csvBatch]; omega)
    · refine ⟨htext, fun _ => ?_, fun hne => absurd hend hne⟩
      have hsplit := rowsBefore_drop headers ls (csvOffset headers ls n k)
      rw [hlast] at hsplit
      exact List.length_eq_zero_iff.mp (by omega)
    · exact absurd hend (hk K hgt)

end Migration
end RTDB
