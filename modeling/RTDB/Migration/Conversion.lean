import RTDB.Migration.BinaryRoundTrip
import RTDB.Migration.Convert
import RTDB.Migration.CsvPages

/-!
# What a conversion transfers

A conversion ends with the first empty batch.  In the binary format only the end of the file gives one;
among lines of text blank ones can, and the batches of the CSV reader do not begin where the last one
ended.
-/

namespace RTDB
namespace Migration

open Batches Bytes Outcomes Storage

variable {F : Type}

/-! ## JSON lines -/

section Jsonl

variable {formats : TextFormats F}

/-- A line that is blank or holds a record. -/
def JsonlReadable (formats : TextFormats F) (line : List UInt8) : Prop :=
  ∃ text, ofUtf8? line = some text ∧ ((trim text.toList).isEmpty = true ∨
    ∃ record, formats.recordFromStr (String.ofList (trim text.toList)) = .ok record)

def jsonlRecord? (formats : TextFormats F) (line : List UInt8) : Option (VectorRecord F) :=
  (ofUtf8? line).bind fun text =>
    if (trim text.toList).isEmpty then none
    else (formats.recordFromStr (String.ofList (trim text.toList))).toOption

def jsonlRecords (formats : TextFormats F) (bytes : List UInt8) : List (VectorRecord F) :=
  (Lines.lines 10 bytes).filterMap (jsonlRecord? formats)

theorem JsonlReader.readLines_ok {n : Nat} {file : List UInt8} (currentLine : Nat)
    (hreadable : ∀ line ∈ (Lines.lines 10 file).take n, JsonlReadable formats line) :
    JsonlReader.readLines formats n { file, currentLine } =
      .ok (((Lines.lines 10 file).take n).filterMap (jsonlRecord? formats),
        { file := Lines.dropLines 10 n file
          currentLine := currentLine +
            (((Lines.lines 10 file).take n).filterMap (jsonlRecord? formats)).length }) := by
  induction n generalizing file currentLine with
  | zero =>
    rw [List.take_zero]
    rfl
  | succ n ih =>
    rw [JsonlReader.readLines]
    rcases AsyncBufReader.readLine_cases "line" file with ⟨rfl, hread⟩ | ⟨line, hlines, hline⟩
    · rw [hread, Lines.dropLines_nil]
      rfl
    · rw [hlines, List.take_succ_cons] at hreadable ⊢
      obtain ⟨⟨text, htext, hrecord⟩, hrest⟩ := List.forall_mem_cons.mp hreadable
      rcases hline with ⟨text', htext', hread⟩ | ⟨hnone, -⟩
      · obtain rfl : text = text' := Option.some.inj (htext.symm.trans htext')
        simp only [hread, List.filterMap_cons, jsonlRecord?, htext, Option.bind_some, Lines.dropLines]
        by_cases hblank : (trim text.toList).isEmpty = true
        · rw [if_pos hblank, if_pos hblank]
          exact ih currentLine hrest
        · obtain ⟨record, hrecord⟩ := hrecord.resolve_left hblank
          rw [if_neg hblank, if_neg hblank, hrecord]
          simp only [ih (currentLine + 1) hrest, Except.map, Except.toOption, List.length_cons]
          rw [Nat.add_assoc, Nat.add_comm 1]
      · rw [hnone] at htext
        exact absurd htext (by simp)

theorem JsonlReader.readLines_error {n : Nat} {file : List UInt8} (currentLine : Nat)
    (hbad : ¬ ∀ line ∈ (Lines.lines 10 file).take n, JsonlReadable formats line) :
    ∃ e, JsonlReader.readLines formats n { file, currentLine } = .error e := by
  induction n generalizing file currentLine with
  | zero => exact absurd (fun line hline => absurd hline (by simp)) hbad
  | succ n ih =>
    rw [JsonlReader.readLines]
    rcases AsyncBufReader.readLine_cases "line" file with ⟨rfl, hread⟩ | ⟨line, hlines, hline⟩
    · exact absurd (fun line hline => absurd hline (by simp [Lines.lines])) hbad
    · rw [hlines, List.take_succ_cons, List.forall_mem_cons] at hbad
      rcases hline with ⟨text, htext, hread⟩ | ⟨hnone, e, hread⟩
      · simp only [hread]
        by_cases hblank : (trim text.toList).isEmpty = true
        · rw [if_pos hblank]
          exact ih currentLine fun hrest => hbad ⟨⟨text, htext, Or.inl hblank⟩, hrest⟩
        · rw [if_neg hblank]
          cases hrecord : formats.recordFromStr (String.ofList (trim text.toList)) with
          | error e => exact ⟨_, rfl⟩
          | ok record =>
            obtain ⟨e, he⟩ := ih (currentLine + 1)
              fun hrest => hbad ⟨⟨text, htext, Or.inr ⟨record, hrecord⟩⟩, hrest⟩
            exact ⟨e, by rw [he]; rfl⟩
      · exact ⟨e, by rw [hread]⟩

def JsonlReader.behind (formats : TextFormats F) (bytes : List UInt8) (n k : Nat) : JsonlReader where
  file := Lines.dropLines 10 (k * n) bytes
  currentLine := (((Lines.lines 10 bytes).take (k * n)).filterMap (jsonlRecord? formats)).length

def jsonlBatch (formats : TextFormats F) (bytes : List UInt8) (n k : Nat) : List (VectorRecord F) :=
  (((Lines.lines 10 bytes).drop (k * n)).take n).filterMap (jsonlRecord? formats)

variable (formats) in
theorem JsonlReader.paged (bytes : List UInt8) (n : Nat) :
    Paged (JsonlReader.readBatch formats n) (JsonlReader.behind formats bytes n)
      (fun k => VecFits 96 n ∧
        ∀ line ∈ ((Lines.lines 10 bytes).drop (k * n)).take n, JsonlReadable formats line)
      (jsonlBatch formats bytes n) where
  reads k hgood := by
    rw [← Lines.lines_dropLines] at hgood
    obtain ⟨hfits, hgood⟩ := hgood
    have hread := JsonlReader.readLines_ok (JsonlReader.behind formats bytes n k).currentLine hgood
    rw [Lines.lines_dropLines] at hread
    refine ⟨_, (if_pos hfits).trans hread, fun _ => ?_⟩
    simp only [JsonlReader.behind]
    rw [← Lines.dropLines_add, ← List.length_append, ← List.filterMap_append, ← List.take_add,
      ← Nat.succ_mul]
  fails k hbad := by
    rw [← Lines.lines_dropLines] at hbad
    by_cases hfits : VecFits 96 n
    · obtain ⟨e, he⟩ := JsonlReader.readLines_error
        (JsonlReader.behind formats bytes n k).currentLine fun hgood => hbad ⟨hfits, hgood⟩
      exact ⟨e, (if_pos hfits).trans he⟩
    · exact ⟨.panic "capacity overflow", if_neg hfits⟩

/-- Room can be made for a batch, up to the first batch without a record no line is malformed, and none
behind it has a record. -/
def JsonlWhole (formats : TextFormats F) (bytes : List UInt8) (n : Nat) : Prop :=
  VecFits 96 n ∧ ∀ k, (∀ j, j < k → jsonlBatch formats bytes n j ≠ []) →
    (∀ line ∈ ((Lines.lines 10 bytes).drop (k * n)).take n, JsonlReadable formats line) ∧
      (jsonlBatch formats bytes n k = [] →
        ((Lines.lines 10 bytes).drop (k * n)).filterMap (jsonlRecord? formats) = [])

theorem jsonlRecords_split (bytes : List UInt8) (n K : Nat) :
    jsonlRecords formats bytes = (List.range K).flatMap (jsonlBatch formats bytes n) ++
      ((Lines.lines 10 bytes).drop (K * n)).filterMap (jsonlRecord? formats) := by
  have hbatches : (List.range K).flatMap (jsonlBatch formats bytes n) =
      ((Lines.lines 10 bytes).take (K * n)).filterMap (jsonlRecord? formats) :=
    Paging.flatMap_windows_filterMap _ _ n K
  rw [hbatches, ← List.filterMap_append, List.take_append_drop, jsonlRecords]

variable (formats) in
theorem jsonl_delivers_iff (bytes : List UInt8) {n : Nat} (hn : 1 ≤ n) :
    (∃ bs, Delivers (JsonlReader.readBatch formats n) (JsonlReader.new bytes) bs ∧
      bs.flatten = jsonlRecords formats bytes) ↔ JsonlWhole formats bytes n := by
  have hstart : JsonlReader.new bytes = JsonlReader.behind formats bytes n 0 := by
    rw [JsonlReader.behind, Nat.zero_mul]
    rfl
  rw [hstart, (JsonlReader.paged formats bytes n).delivers_iff]
  constructor
  · rintro ⟨K, hbefore, ⟨⟨hfits, hgood⟩, hempty⟩, hflat⟩
    refine ⟨hfits, fun k hk => ?_⟩
    rw [jsonlRecords_split bytes n K] at hflat
    have hnone := List.self_eq_append_right.mp hflat
    rcases Nat.lt_trichotomy k K with hlt | rfl | hgt
    · exact ⟨(hbefore k hlt).1.2, fun h => absurd h (hbefore k hlt).2⟩
    · exact ⟨hgood, fun _ => hnone⟩
    · exact absurd hempty (hk K hgt)
  · rintro ⟨hfits, hwhole⟩
    have hlast : jsonlBatch formats bytes n (Lines.lines 10 bytes).length = [] := by
      rw [jsonlBatch, List.drop_eq_nil_of_le (Nat.le_mul_of_pos_right _ hn), List.take_nil,
        List.filterMap_nil]
    obtain ⟨K, -, hempty, hfirst⟩ :=
      Paging.exists_first (p := fun k => jsonlBatch formats bytes n k = []) hlast
    refine ⟨K, fun k hk => ?_, ⟨⟨hfits, (hwhole K hfirst).1⟩, hempty⟩, ?_⟩
    · exact ⟨⟨hfits, (hwhole k fun j hj => hfirst j (Nat.lt_trans hj hk)).1⟩, hfirst k hk⟩
    · rw [jsonlRecords_split bytes n K, (hwhole K hfirst).2 hempty, List.append_nil]

end Jsonl
/-! ## The binary format -/

section Binary

variable {formats : RecordFormats F} {bytes body rest : List UInt8} {rs b : List (VectorRecord F)}

/-- The records in front of the end, or of the first one that is malformed. -/
def binaryRecordsIn (formats : RecordFormats F) : Nat → List UInt8 → List (VectorRecord F)
  | 0, _ => []
  | n + 1, body =>
    if body.length < 4 then []
    else
      match BinaryReader.fields formats (leNat (body.take 4)) (body.drop 4) with
      | .error _ => []
      | .ok (record, rest) => record :: binaryRecordsIn formats n rest

def binaryRecords (formats : RecordFormats F) (bytes : List UInt8) : List (VectorRecord F) :=
  match BinaryReader.header bytes with
  | .error _ => []
  | .ok (_, body) => binaryRecordsIn formats body.length body

inductive HoldsRecords (formats : RecordFormats F) : List UInt8 → List (VectorRecord F) → Prop where
  | done {body : List UInt8} (hshort : body.length < 4) : HoldsRecords formats body []
  | more {body rest : List UInt8} {record : VectorRecord F} {rs : List (VectorRecord F)}
      (hlong : ¬ body.length < 4)
      (hfields : BinaryReader.fields formats (leNat (body.take 4)) (body.drop 4) = .ok (record, rest))
      (hrest : HoldsRecords formats rest rs) : HoldsRecords formats body (record :: rs)

theorem HoldsRecords.nil_iff (hbody : HoldsRecords formats [] rs) : rs = [] := by
  cases hbody with
  | done => rfl
  | more hlong => exact absurd (show ([] : List UInt8).length < 4 by decide) hlong

theorem length_of_fields {idLen : Nat} {record : VectorRecord F}
    (hfields : BinaryReader.fields formats idLen body = .ok (record, rest)) :
    rest.length ≤ body.length :=
  (fields_local idLen).length_le hfields

theorem HoldsRecords.records_eq (hbody : HoldsRecords formats body rs) {n : Nat} (hn : body.length ≤ n) :
    binaryRecordsIn formats n body = rs := by
  induction hbody generalizing n with
  | done hshort =>
    cases n with
    | zero => rfl
    | succ n => rw [binaryRecordsIn, if_pos hshort]
  | @more body rest record rs hlong hfields hrest ih =>
    have hless := length_of_fields hfields
    rw [List.length_drop] at hless
    cases n with
    | zero => omega
    | succ n =>
      simp only [binaryRecordsIn, if_neg hlong, hfields]
      rw [ih (by omega)]

theorem HoldsRecords.read (hbody : HoldsRecords formats body rs) (n : Nat) :
    ∃ rest, BinaryReader.records formats n body = .ok (rs.take n, rest) ∧
      HoldsRecords formats rest (rs.drop n) := by
  induction hbody generalizing n with
  | @done body hshort =>
    cases n with
    | zero => exact ⟨body, rfl, .done hshort⟩
    | succ n => exact ⟨[], records_short n hshort, .done (by decide)⟩
  | @more body rest record rs hlong hfields hrest ih =>
    cases n with
    | zero => exact ⟨body, rfl, .more hlong hfields hrest⟩
    | succ n =>
      obtain ⟨rest', hread, hholds⟩ := ih n
      refine ⟨rest', ?_, hholds⟩
      simp only [BinaryReader.records, if_neg hlong, hfields, hread]
      rfl

theorem holds_of_records {n : Nat} (hread : BinaryReader.records formats n body = .ok (b, rest))
    (hrest : HoldsRecords formats rest rs) : HoldsRecords formats body (b ++ rs) := by
  induction n generalizing body b with
  | zero =>
    obtain ⟨rfl, rfl⟩ := Prod.mk.inj (Except.ok.inj hread)
    exact hrest
  | succ n ih =>
    rw [BinaryReader.records] at hread
    by_cases hshort : body.length < 4
    · rw [if_pos hshort] at hread
      obtain ⟨rfl, rfl⟩ := Prod.mk.inj (Except.ok.inj hread)
      rw [hrest.nil_iff]
      exact .done hshort
    · rw [if_neg hshort] at hread
      cases hfields : BinaryReader.fields formats (leNat (body.take 4)) (body.drop 4) with
      | error e =>
        rw [hfields] at hread
        exact absurd hread (by simp)
      | ok r =>
        simp only [hfields] at hread
        obtain ⟨a, hmore, heq⟩ := map_eq_ok hread
        obtain ⟨rfl, rfl⟩ := Prod.mk.inj heq
        exact .more hshort hfields (ih hmore)

/-- Only the end gives an empty batch. -/
theorem short_of_records_nil {n : Nat} (hn : 1 ≤ n)
    (hread : BinaryReader.records formats n body = .ok ([], rest)) : body.length < 4 := by
  obtain ⟨n, rfl⟩ := Nat.exists_eq_add_of_le' hn
  by_contra hlong
  rw [BinaryReader.records, if_neg hlong] at hread
  split at hread
  · exact absurd hread (by simp)
  · obtain ⟨a, -, heq⟩ := map_eq_ok hread
    exact absurd (Prod.mk.inj heq).1 (by simp)

variable {reader : BinaryReader} {count n : Nat} {bs : List (List (VectorRecord F))}

theorem holds_of_delivers (hn : 1 ≤ n) (hcount : reader.totalRecords = some count)
    (hbs : Delivers (fun reader => BinaryReader.readBatch formats (some bytes) reader n) reader bs) :
    HoldsRecords formats (bytes.drop reader.currentOffset) bs.flatten := by
  induction hbs with
  | done hread => exact .done (short_of_records_nil hn (BinaryReader.readBatch_ok hcount hread).1)
  | more hread _ _ ih =>
    obtain ⟨hrecords, hcount'⟩ := BinaryReader.readBatch_ok hcount hread
    rw [List.flatten_cons]
    exact holds_of_records hrecords (ih hcount')

theorem HoldsRecords.delivers (hn : 1 ≤ n) (hcount : reader.totalRecords = some count)
    (hbody : HoldsRecords formats (bytes.drop reader.currentOffset) rs) :
    ∃ bs, Delivers (fun reader => BinaryReader.readBatch formats (some bytes) reader n) reader bs ∧
      bs.flatten = rs := by
  induction hlength : rs.length using Nat.strong_induction_on generalizing reader rs with
  | _ m ih =>
    subst hlength
    obtain ⟨rest, hread, hholds⟩ := hbody.read n
    have hbatch : BinaryReader.readBatch formats (some bytes) reader n =
        .ok (rs.take n, { reader with currentOffset := bytes.length - rest.length }) := by
      rw [BinaryReader.readBatch_eq hcount, hread]
      rfl
    by_cases hnil : rs = []
    · subst hnil
      rw [List.take_nil] at hbatch
      exact ⟨[], .done hbatch, rfl⟩
    · have hpos := List.length_pos_iff.mpr hnil
      have hdrop : bytes.drop (bytes.length - rest.length) = rest := drop_offset hread
      rw [← hdrop] at hholds
      obtain ⟨bs, hbs, hflatten⟩ := ih (rs.drop n).length (by rw [List.length_drop]; omega)
        (show ({ reader with currentOffset := bytes.length - rest.length } : BinaryReader).totalRecords =
          some count from hcount) hholds rfl
      refine ⟨rs.take n :: bs, .more hbatch (fun htake => ?_) hbs, ?_⟩
      · rcases List.take_eq_nil_iff.mp htake with rfl | h
        · omega
        · exact hnil h
      · rw [List.flatten_cons, hflatten, List.take_append_drop]

/-- A file in which every record is well formed. -/
def BinaryWhole (formats : RecordFormats F) (bytes : List UInt8) : Prop :=
  ∃ count body rs, BinaryReader.header bytes = .ok (count, body) ∧ HoldsRecords formats body rs

variable (formats) in
theorem binary_delivers_iff (bytes : List UInt8) (hn : 1 ≤ n) :
    (∃ bs, Delivers (fun reader => BinaryReader.readBatch formats (some bytes) reader n)
      BinaryReader.new bs ∧ bs.flatten = binaryRecords formats bytes) ↔ BinaryWhole formats bytes := by
  cases hheader : BinaryReader.header bytes with
  | error e =>
    refine iff_of_false ?_ ?_
    · have hfails : BinaryReader.readBatch formats (some bytes) BinaryReader.new n = .error e := by
        show (Except.map _ (BinaryReader.header bytes) >>= fun r => _) = _
        rw [hheader]
        rfl
      rintro ⟨bs, hbs, -⟩
      exact hbs.ne_error e hfails
    · rintro ⟨count, body, rs, hread, -⟩
      exact absurd (hheader.symm.trans hread) (by simp)
  | ok r =>
    obtain ⟨count, body⟩ := r
    have hbody : bytes.drop (behindHeader count).currentOffset = body := by
      rw [header_ok hheader]
      exact List.drop_left' (length_headerBytes count)
    have hnew := readBatch_new formats hheader n
    constructor
    · rintro ⟨bs, hbs, -⟩
      have hholds := holds_of_delivers hn rfl (hbs.congr hnew)
      rw [hbody] at hholds
      exact ⟨count, body, _, hheader, hholds⟩
    · rintro ⟨count', body', rs, hread, hholds⟩
      obtain ⟨rfl, rfl⟩ := Prod.mk.inj (Except.ok.inj (hheader.symm.trans hread))
      rw [← hbody] at hholds
      obtain ⟨bs, hbs, hflatten⟩ :=
        hholds.delivers hn (show (behindHeader count).totalRecords = _ from rfl)
      refine ⟨bs, hbs.congr hnew.symm, ?_⟩
      rw [hbody] at hholds
      rw [hflatten, binaryRecords, hheader]
      exact (hholds.records_eq (Nat.le_refl _)).symm

end Binary

/-! ## Every format -/

/-- The formats whose readers are the repository's own. -/
inductive DataFormat where
  | jsonl
  | csv
  | binary
  deriving DecidableEq, Repr

section Formats

variable (text : TextFormats F) (binary : RecordFormats F) (bytes : List UInt8) (batchSize : Nat)

def createReader : DataFormat → FormatReader F
  | .jsonl =>
    { State := JsonlReader, start := JsonlReader.new bytes, readBatch := JsonlReader.readBatch text }
  | .csv =>
    { State := CsvReader, start := CsvReader.new
      readBatch := fun batchSize reader => CsvReader.readBatch text bytes reader batchSize }
  | .binary =>
    { State := BinaryReader, start := BinaryReader.new
      readBatch := fun batchSize reader => BinaryReader.readBatch binary (some bytes) reader batchSize }

def wellFormedRecords : DataFormat → List (VectorRecord F)
  | .jsonl => jsonlRecords text bytes
  | .csv => csvRecords text bytes
  | .binary => binaryRecords binary bytes

/-- What a file has to be like for the batches to make it up. -/
def Whole : DataFormat → Prop
  | .jsonl => JsonlWhole text bytes batchSize
  | .csv => CsvWhole bytes batchSize
  | .binary => BinaryWhole binary bytes

/-- No two rows with an id column make the same record. -/
def DistinctRows (format : DataFormat) : Prop :=
  format = .csv → ∀ headers, csvHeaders? bytes = some headers → HasId headers →
    (csvRecords text bytes).Nodup

end Formats

theorem length_binaryRecordsIn_le (formats : RecordFormats F) (n : Nat) (body : List UInt8) :
    (binaryRecordsIn formats n body).length ≤ n := by
  induction n generalizing body with
  | zero => exact Nat.le_refl 0
  | succ n ih =>
    rw [binaryRecordsIn]
    split
    · exact Nat.zero_le _
    · split
      · exact Nat.zero_le _
      · exact Nat.succ_le_succ (ih _)

variable (text : TextFormats F) (binary : RecordFormats F)

/-- A record takes a byte at least. -/
theorem length_wellFormedRecords_le (bytes : List UInt8) (format : DataFormat) :
    (wellFormedRecords text binary bytes format).length ≤ bytes.length := by
  have hlines : (Lines.lines 10 bytes).length ≤ bytes.length := Lines.length_lines_le bytes
  cases format with
  | jsonl => exact Nat.le_trans (List.length_filterMap_le _ _) hlines
  | csv =>
    show (csvRecords text bytes).length ≤ _
    rw [csvRecords]
    split
    · exact Nat.zero_le _
    · rw [length_numbered]
      have hrows := List.length_filterMap_le (csvRow? ‹List String›) (csvLines bytes)
      have hbelow : (csvLines bytes).length ≤ (Lines.lines 10 bytes).length := by
        rw [csvLines, List.length_drop]
        omega
      exact Nat.le_trans hrows (Nat.le_trans hbelow hlines)
  | binary =>
    show (binaryRecords binary bytes).length ≤ _
    rw [binaryRecords]
    split
    · exact Nat.zero_le _
    · next count body hheader =>
      have hbody := length_binaryRecordsIn_le binary body.length body
      have hlength := congrArg List.length (header_ok hheader)
      rw [List.length_append] at hlength
      omega

theorem InputFile.transfers_iff (file : InputFile) (format : DataFormat) (batchSize : Nat) :
    Transfers (createReader text binary file.bytes format) batchSize
        (wellFormedRecords text binary file.bytes format) ↔
      ∃ bs, Delivers ((createReader text binary file.bytes format).readBatch batchSize)
        (createReader text binary file.bytes format).start bs ∧
          bs.flatten = wellFormedRecords text binary file.bytes format := by
  have hlength := length_wellFormedRecords_le text binary file.bytes format
  have hfits := file.fits
  exact FormatConverter.transfers_iff (by omega)

/-- A conversion transfers a file whose batches make it up, and no other, but where equal rows stand in
for one another. -/
theorem conversion_transfers (file : InputFile) (format : DataFormat) {batchSize : Nat}
    (hsize : 1 ≤ batchSize) :
    (Whole text binary file.bytes batchSize format →
      Transfers (createReader text binary file.bytes format) batchSize
        (wellFormedRecords text binary file.bytes format)) ∧
    (DistinctRows text file.bytes format →
      Transfers (createReader text binary file.bytes format) batchSize
        (wellFormedRecords text binary file.bytes format) →
      Whole text binary file.bytes batchSize format) := by
  rw [InputFile.transfers_iff]
  cases format with
  | jsonl =>
    have hiff := jsonl_delivers_iff text file.bytes hsize
    exact ⟨hiff.mpr, fun _ => hiff.mp⟩
  | csv => exact ⟨csv_delivers_of_whole text, fun hdistinct => csv_whole_of_delivers (hdistinct rfl)⟩
  | binary =>
    have hiff := binary_delivers_iff binary file.bytes hsize
    exact ⟨hiff.mpr, fun _ => hiff.mp⟩

def recordText (id : String) : String := "\x7b\"id\":\"" ++ id ++ "\",\"vector\":[1.0]\x7d"

def plainText : TextFormats Unit where
  recordFromStr line :=
    match ["a", "b", "c"].find? fun id => line = recordText id with
    | some id => .ok { plainRecord with id }
    | none => .error "expected value"
  vectorFromStr _ := none
  parseF32 _ := none
  parseF64 _ := none
  isFinite _ := true
  zero := ()

def recordFile : InputFile where
  bytes := utf8 (recordText "a" ++ "\n\n" ++ recordText "b" ++ "\n" ++ recordText "c" ++ "\n")
  fits := by decide +kernel

/-- A blank line does no harm in a batch that has a record. -/
theorem conversion_transfers_record :
    1 ≤ 2 ∧ Transfers (createReader plainText plainFormats recordFile.bytes .jsonl) 2
      (wellFormedRecords plainText plainFormats recordFile.bytes .jsonl) := by
  refine ⟨by decide, (conversion_transfers plainText plainFormats recordFile .jsonl (by decide)).1
    ⟨by decide, fun k _ => ⟨fun line hline => ?_, fun hnone => ?_⟩⟩⟩
  · have hlines : Lines.lines 10 recordFile.bytes =
        [recordText "a" ++ "\n", "\n", recordText "b" ++ "\n", recordText "c" ++ "\n"].map utf8 := by
      decide +kernel
    have hin := List.mem_of_mem_drop (List.mem_of_mem_take hline)
    rw [hlines] at hin
    obtain ⟨text, htext, rfl⟩ := List.mem_map.mp hin
    refine ⟨text, ofUtf8?_utf8 text, ?_⟩
    simp only [List.mem_cons, List.not_mem_nil, or_false] at htext
    rcases htext with rfl | rfl | rfl | rfl
    · exact Or.inr ⟨{ plainRecord with id := "a" }, rfl⟩
    · exact Or.inl (by decide)
    · exact Or.inr ⟨{ plainRecord with id := "b" }, rfl⟩
    · exact Or.inr ⟨{ plainRecord with id := "c" }, rfl⟩
  · match k with
    | 0 => exact absurd (congrArg List.length hnone) (by decide +kernel)
    | 1 => exact absurd (congrArg List.length hnone) (by decide +kernel)
    | k + 2 =>
      have hlength : (Lines.lines 10 recordFile.bytes).length = 4 := by decide +kernel
      rw [List.drop_eq_nil_of_le (by omega), List.filterMap_nil]

def blankFile : InputFile where
  bytes := utf8 ("\n" ++ recordText "a" ++ "\n")
  fits := by decide

def rowsFile : InputFile where
  bytes := utf8 "id\na\nb\n"
  fits := by decide

/-- A blank line ends a conversion, there is no room for a batch of all sizes, and the row behind a batch
is lost. -/
theorem not_conversion_transfers_blank :
    ¬ Transfers (createReader plainText plainFormats blankFile.bytes .jsonl) 1
        (wellFormedRecords plainText plainFormats blankFile.bytes .jsonl) ∧
      ¬ Transfers (createReader plainText plainFormats recordFile.bytes .jsonl) (2 ^ 64 - 1)
        (wellFormedRecords plainText plainFormats recordFile.bytes .jsonl) ∧
      ¬ Transfers (createReader plainText plainFormats rowsFile.bytes .csv) 1
        (wellFormedRecords plainText plainFormats rowsFile.bytes .csv) := by
  rw [InputFile.transfers_iff, InputFile.transfers_iff, InputFile.transfers_iff]
  refine ⟨?_, ?_, ?_⟩
  · rintro ⟨bs, hbs, hflatten⟩
    have hnone : JsonlReader.readBatch plainText 1 (JsonlReader.new blankFile.bytes) =
        .ok ([], { file := utf8 (recordText "a" ++ "\n"), currentLine := 0 }) := rfl
    obtain rfl : bs = [] := hbs.unique (.done hnone)
    exact absurd (congrArg List.length hflatten) (by decide)
  · rintro ⟨bs, hbs, -⟩
    have hpanic : JsonlReader.readBatch plainText (2 ^ 64 - 1) (JsonlReader.new recordFile.bytes) =
        .error (.panic "capacity overflow") := if_neg (by decide)
    exact hbs.ne_error _ hpanic
  · rintro ⟨bs, hbs, hflatten⟩
    have hfirst : CsvReader.readBatch plainText rowsFile.bytes CsvReader.new 1 =
        .ok ([CsvReader.rowRecord plainText ["id"] ["a"] 1],
          { currentLine := 2, headers := some ["id"] }) := rfl
    have hsecond : CsvReader.readBatch plainText rowsFile.bytes
        { currentLine := 2, headers := some ["id"] } 1 =
          .ok ([], { currentLine := 3, headers := some ["id"] }) := rfl
    obtain rfl : bs = [[CsvReader.rowRecord plainText ["id"] ["a"] 1]] :=
      hbs.unique (.more hfirst (by simp) (.done hsecond))
    exact absurd (congrArg List.length hflatten) (by decide)

end Migration
end RTDB
