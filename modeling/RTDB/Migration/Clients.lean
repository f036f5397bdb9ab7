import RTDB.Lib.Lines
import RTDB.Migration.Producer
import RTDB.Migration.Transform

/-!
# Sources in files

`JsonlSourceClient` and `ParquetSourceClient` of `migration/clients.rs`.  Both read the file anew
with each `fetch_batch`, up to the offset and from there on.
-/

namespace RTDB
namespace Migration

variable {F : Type}

/-! ## JSON lines -/

/-- `read_line`: a line with its newline, and what follows. -/
def readLine : List Char → List Char × List Char
  | [] => ([], [])
  | c :: rest =>
    if c = '\n' then ([c], rest) else (c :: (readLine rest).1, (readLine rest).2)

/-- The text as `read_line` reads it. -/
def lines : List Char → List (List Char)
  | [] => []
  | c :: rest =>
    if c = '\n' then [c] :: lines rest
    else
      match lines rest with
      | [] => [[c]]
      | line :: more => (c :: line) :: more

theorem readLine_eq (text : List Char) : readLine text = Lines.takeLine '\n' text := by
  induction text with
  | nil => rfl
  | cons c rest ih => rw [readLine, Lines.takeLine, ih]

theorem lines_eq (text : List Char) : lines text = Lines.lines '\n' text := by
  induction text with
  | nil => rfl
  | cons c rest ih =>
    rw [lines, Lines.lines, ih]
    cases Lines.lines '\n' rest <;> rfl

theorem readLine_cases (text : List Char) :
    text = [] ∨ ∃ c line rest, readLine text = (c :: line, rest) ∧
      lines text = (c :: line) :: lines rest := by
  rw [readLine_eq, lines_eq]
  rcases Lines.takeLine_cases '\n' text with hnil | ⟨c, line, rest, hread, hlines⟩
  · exact Or.inl hnil
  · exact Or.inr ⟨c, line, rest, hread, by rw [hlines, lines_eq]⟩

theorem length_lines_le (text : List Char) : (lines text).length ≤ text.length := by
  rw [lines_eq]
  exact Lines.length_lines_le text

def firstOf (fields : Payload F) (keys : List String) : Option (Value F) :=
  keys.findSome? fun key => fields.lookup key

def reservedKeys : List String := ["id", "_id", "vector", "embedding", "embeddings", "vec"]

/-- `v.as_f64().unwrap_or(0.0) as f32`. -/
def component (formats : Formats F) (value : Value F) : UInt32 :=
  match value.asF64 with
  | some f => formats.asF32 f
  | none => 0

def recordOfObject (formats : Formats F) (fields : Payload F) : VectorRecord F where
  id :=
    (((firstOf fields ["id", "_id"]).bind fun value =>
      value.asStr.or (value.asI64.map toString)).getD "unknown")
  vector :=
    (((firstOf fields ["vector", "embedding", "embeddings", "vec"]).bind Value.asArray).map fun values =>
      values.map (component formats)).getD []
  metadata :=
    (fields.filter fun field => !reservedKeys.contains field.1).foldl
      (fun metadata field => metadata.insert field.1 field.2) SortedMap.empty

namespace JsonlSourceClient

/-- The lines up to the offset are read and dropped; `currentLine` counts them. -/
def skipTo : Nat → Nat → List Char → Nat × List Char
  | 0, currentLine, text => (currentLine, text)
  | n + 1, currentLine, text =>
    match readLine text with
    | ([], _) => (currentLine, text)
    | (_, rest) => skipTo n (currentLine + 1) rest

/-- The loop over at most `limit` lines.  A blank line is not counted in `currentLine`, which only
the error shows. -/
def readBatch (formats : Formats F) : Nat → Nat → List Char → Except Error (List (VectorRecord F))
  | 0, _, _ => .ok []
  | n + 1, currentLine, text =>
    match readLine text with
    | ([], _) => .ok []
    | (line, rest) =>
      if (trim line).isEmpty then readBatch formats n currentLine rest
      else
        match formats.fromStr (String.ofList (trim line)) with
        | .error e =>
          .error (.serialization s!"Failed to parse JSON line {currentLine + 1}: {e}")
        | .ok value =>
          (readBatch formats n (currentLine + 1) rest).map fun records =>
            match value.asObject with
            | some fields => recordOfObject formats fields :: records
            | none => records

def fetchBatch (formats : Formats F) (contents : List Char) (offset limit : Nat) :
    Except Error (List (VectorRecord F)) :=
  readBatch formats limit (skipTo offset 0 contents).1 (skipTo offset 0 contents).2

end JsonlSourceClient

/-- A file of JSON lines: every line is blank or holds a JSON value. -/
structure JsonlFile (formats : Formats F) where
  contents : List Char
  parses : ∀ line ∈ lines contents, (trim line).isEmpty = false →
    ∃ value, formats.fromStr (String.ofList (trim line)) = .ok value
  /-- The length of a file is an `i64`. -/
  fits : contents.length < 2 ^ 63

def recordOfLine (formats : Formats F) (line : List Char) : Option (VectorRecord F) :=
  if (trim line).isEmpty then none
  else
    match formats.fromStr (String.ofList (trim line)) with
    | .error _ => none
    | .ok value => value.asObject.map (recordOfObject formats)

namespace JsonlFile

variable {formats : Formats F}

def source (file : JsonlFile formats) : SourceClient Unit F where
  fetchBatch := fun client offset limit =>
    (JsonlSourceClient.fetchBatch formats file.contents offset limit, client)

/-- The records of the file. -/
def records (file : JsonlFile formats) : List (VectorRecord F) :=
  (lines file.contents).filterMap (recordOfLine formats)

end JsonlFile

theorem lines_skipTo (n currentLine : Nat) (text : List Char) :
    lines (JsonlSourceClient.skipTo n currentLine text).2 = (lines text).drop n := by
  induction n generalizing currentLine text with
  | zero => rfl
  | succ n ih =>
    rcases readLine_cases text with rfl | ⟨c, line, rest, hread, hlines⟩
    · rfl
    · rw [hlines, List.drop_succ_cons, ← ih (currentLine + 1), JsonlSourceClient.skipTo, hread]

/-- Where every line parses, a page is the records of `limit` lines. -/
theorem readBatch_eq {formats : Formats F} (limit currentLine : Nat) {text : List Char}
    (hparses : ∀ line ∈ lines text, (trim line).isEmpty = false →
      ∃ value, formats.fromStr (String.ofList (trim line)) = .ok value) :
    JsonlSourceClient.readBatch formats limit currentLine text =
      .ok (((lines text).take limit).filterMap (recordOfLine formats)) := by
  induction limit generalizing currentLine text with
  | zero => rw [List.take_zero, List.filterMap_nil, JsonlSourceClient.readBatch]
  | succ n ih =>
    rcases readLine_cases text with rfl | ⟨c, line, rest, hread, hlines⟩
    · rfl
    · rw [hlines] at hparses ⊢
      have hrest : ∀ l ∈ lines rest, (trim l).isEmpty = false →
          ∃ value, formats.fromStr (String.ofList (trim l)) = .ok value :=
        fun l hl => hparses l (List.mem_cons_of_mem _ hl)
      rw [List.take_succ_cons, List.filterMap_cons]
      simp only [JsonlSourceClient.readBatch, hread, recordOfLine]
      by_cases hblank : (trim (c :: line)).isEmpty = true
      · simp only [hblank, if_true]
        exact ih currentLine hrest
      · obtain ⟨value, hvalue⟩ := hparses (c :: line) List.mem_cons_self
          (by simpa using hblank)
        simp only [hblank, hvalue, ih (currentLine + 1) hrest]
        cases value.asObject with
        | none => rfl
        | some fields => rfl

theorem JsonlFile.fetchBatch_eq {formats : Formats F} (file : JsonlFile formats)
    (offset limit : Nat) :
    JsonlSourceClient.fetchBatch formats file.contents offset limit =
      .ok ((((lines file.contents).drop offset).take limit).filterMap (recordOfLine formats)) := by
  rw [JsonlSourceClient.fetchBatch, ← lines_skipTo offset 0]
  refine readBatch_eq limit _ fun line hline => file.parses line ?_
  rw [lines_skipTo] at hline
  exact List.mem_of_mem_drop hline

/-! ## Parquet -/

inductive ListValue where
  | float32 (values : List UInt32)
  | other
  deriving DecidableEq, Repr

/-- A column, by what `downcast_ref` finds it to be. -/
inductive Column where
  | utf8 (values : List (Option String))
  | list (values : List ListValue)
  | other
  deriving DecidableEq, Repr

structure RecordBatch where
  numRows : Nat
  columns : List (String × Column)
  deriving DecidableEq, Repr

namespace ParquetSourceClient

/-- A null in a text column reads as the empty text, except in the metadata. -/
def recordOfRow (formats : Formats F) (ids : List (Option String)) (vectors : List ListValue)
    (metadata : Option Column) (i : Nat) : Except Error (VectorRecord F) :=
  match vectors.getD i .other with
  | .other => .error (.migration "Invalid vector data type")
  | .float32 vector =>
    .ok
      { id := (ids.getD i none).getD ""
        vector
        metadata :=
          match metadata with
          | some (.utf8 texts) =>
            ((texts.getD i none).bind formats.metadataFromStr).getD SortedMap.empty
          | _ => SortedMap.empty }

def convertBatchToRecords (formats : Formats F) (batch : RecordBatch) :
    Except Error (List (VectorRecord F)) := do
  let some idColumn := batch.columns.lookup "id"
    | throw (.migration "Missing 'id' column in Parquet")
  let some vectorColumn :=
      ["vector", "embedding", "embeddings", "vec"].findSome? fun name => batch.columns.lookup name
    | throw (.migration "Missing vector column")
  let .utf8 ids := idColumn
    | throw (.migration "Invalid 'id' column type")
  let .list vectors := vectorColumn
    | throw (.migration "Invalid 'vector' column type")
  (List.range batch.numRows).mapM
    (recordOfRow formats ids vectors (batch.columns.lookup "metadata"))

/-- The loop that fills a page from the chunks that are left. -/
def collect (formats : Formats F) (limit : Nat) : Nat → List RecordBatch →
    Except Error (List (VectorRecord F))
  | _, [] => .ok []
  | collected, batch :: stream =>
    if collected < limit then do
      let records ← convertBatchToRecords formats batch
      let toTake := min records.length (limit - collected)
      let rest ← collect formats limit (collected + toTake) stream
      return records.take toTake ++ rest
    else .ok []

/-- The loop that skips to the offset.  Where the offset lies inside a chunk, the page is the rest of
that chunk. -/
def skip (formats : Formats F) (offset limit : Nat) : Nat → List RecordBatch →
    Except Error (List (VectorRecord F))
  | _, [] => collect formats limit 0 []
  | currentPos, batch :: stream =>
    if currentPos < offset then
      if currentPos + batch.numRows ≤ offset then
        skip formats offset limit (currentPos + batch.numRows) stream
      else do
        let records ← convertBatchToRecords formats batch
        return (records.drop (offset - currentPos)).take limit
    else collect formats limit 0 (batch :: stream)

def fetchBatch (formats : Formats F) (stream : List RecordBatch) (offset limit : Nat) :
    Except Error (List (VectorRecord F)) :=
  skip formats offset limit 0 stream

end ParquetSourceClient

def rowsOf (formats : Formats F) (batch : RecordBatch) : List (VectorRecord F) :=
  match ParquetSourceClient.convertBatchToRecords formats batch with
  | .ok records => records
  | .error _ => []

def Chunked : List RecordBatch → Prop
  | [] => True
  | [last] => 1 ≤ last.numRows ∧ last.numRows ≤ 1000
  | batch :: next :: rest => batch.numRows = 1000 ∧ Chunked (next :: rest)

structure ParquetFile (formats : Formats F) where
  /-- What `with_batch_size(1000)` streams. -/
  chunks : List RecordBatch
  chunked : Chunked chunks
  converts : ∀ batch ∈ chunks,
    ∃ records, ParquetSourceClient.convertBatchToRecords formats batch = .ok records
  /-- The number of rows is an `i64`. -/
  fits : (chunks.map RecordBatch.numRows).sum < 2 ^ 63

namespace ParquetFile

variable {formats : Formats F}

def source (file : ParquetFile formats) : SourceClient Unit F where
  fetchBatch := fun client offset limit =>
    (ParquetSourceClient.fetchBatch formats file.chunks offset limit, client)

/-- The records of the file. -/
def records (file : ParquetFile formats) : List (VectorRecord F) :=
  file.chunks.flatMap (rowsOf formats)

end ParquetFile

section parquet

variable {formats : Formats F}

theorem convert_eq {batch : RecordBatch}
    (hconverts : ∃ records, ParquetSourceClient.convertBatchToRecords formats batch = .ok records) :
    ParquetSourceClient.convertBatchToRecords formats batch = .ok (rowsOf formats batch) := by
  obtain ⟨records, hrecords⟩ := hconverts
  rw [rowsOf, hrecords]

theorem length_of_convert {batch : RecordBatch} {records : List (VectorRecord F)}
    (hrecords : ParquetSourceClient.convertBatchToRecords formats batch = .ok records) :
    records.length = batch.numRows := by
  unfold ParquetSourceClient.convertBatchToRecords at hrecords
  split at hrecords
  · split at hrecords
    · split at hrecords
      · split at hrecords
        · rw [← (Outcomes.mapM_eq_ok_iff.mp hrecords).length_eq, List.length_range]
        · exact absurd hrecords (by simp [throw, throwThe, MonadExceptOf.throw])
      · exact absurd hrecords (by simp [throw, throwThe, MonadExceptOf.throw])
    · exact absurd hrecords (by simp [throw, throwThe, MonadExceptOf.throw])
  · exact absurd hrecords (by simp [throw, throwThe, MonadExceptOf.throw])

theorem length_rowsOf {batch : RecordBatch}
    (hconverts : ∃ records, ParquetSourceClient.convertBatchToRecords formats batch = .ok records) :
    (rowsOf formats batch).length = batch.numRows :=
  length_of_convert (convert_eq hconverts)

theorem collect_eq {limit : Nat} (collected : Nat) {chunks : List RecordBatch}
    (hconverts : ∀ batch ∈ chunks,
      ∃ records, ParquetSourceClient.convertBatchToRecords formats batch = .ok records) :
    ParquetSourceClient.collect formats limit collected chunks =
      .ok ((chunks.flatMap (rowsOf formats)).take (limit - collected)) := by
  induction chunks generalizing collected with
  | nil => rw [ParquetSourceClient.collect, List.flatMap_nil, List.take_nil]
  | cons batch chunks ih =>
    rw [ParquetSourceClient.collect]
    by_cases hmore : collected < limit
    · have hrest := ih (collected + min (rowsOf formats batch).length (limit - collected))
        fun b hb => hconverts b (List.mem_cons_of_mem batch hb)
      have hleft : limit - (collected + min (rowsOf formats batch).length (limit - collected)) =
          limit - collected - (rowsOf formats batch).length := by omega
      have htake : (rowsOf formats batch).take (limit - collected) =
          (rowsOf formats batch).take (min (rowsOf formats batch).length (limit - collected)) := by
        rw [List.take_eq_take_min, Nat.min_comm]
      rw [if_pos hmore, convert_eq (hconverts batch List.mem_cons_self), List.flatMap_cons,
        List.take_append, htake, ← hleft]
      simp only [bind, Except.bind, pure, Except.pure, hrest]
    · rw [if_neg hmore, Nat.sub_eq_zero_of_le (by omega), List.take_zero]

/-- A page of the rows from the offset on: cut at the end of the chunk the offset lies in. -/
def pageOf (rows : List (VectorRecord F)) (offset limit : Nat) : List (VectorRecord F) :=
  if offset % 1000 = 0 then (rows.drop offset).take limit
  else ((rows.drop offset).take (1000 - offset % 1000)).take limit

/-- One chunk is passed by when the offset lies behind it. -/
theorem pageOf_append {first rest : List (VectorRecord F)} {offset limit : Nat}
    (hfull : first.length = 1000) (hbehind : 1000 ≤ offset) :
    pageOf (first ++ rest) offset limit = pageOf rest (offset - 1000) limit := by
  have hmod : (offset - 1000) % 1000 = offset % 1000 := by omega
  have hdrop : (first ++ rest).drop offset = rest.drop (offset - 1000) := by
    rw [List.drop_append, List.drop_eq_nil_of_le (by omega), List.nil_append, hfull]
  rw [pageOf, pageOf, hmod, hdrop]

theorem pageOf_nil (offset limit : Nat) : pageOf ([] : List (VectorRecord F)) offset limit = [] := by
  simp [pageOf]

theorem numRows_le {batch : RecordBatch} {chunks : List RecordBatch}
    (hchunked : Chunked (batch :: chunks)) : batch.numRows ≤ 1000 := by
  cases chunks with
  | nil => exact hchunked.2
  | cons next chunks => exact Nat.le_of_eq hchunked.1

/-- What is left of the first chunk. -/
theorem rest_of_chunk {batch : RecordBatch} {chunks : List RecordBatch}
    (hchunked : Chunked (batch :: chunks))
    (hlength : (rowsOf formats batch).length = batch.numRows) {d : Nat} (hd : d ≤ batch.numRows) :
    ((rowsOf formats batch ++ chunks.flatMap (rowsOf formats)).drop d).take (1000 - d) =
      (rowsOf formats batch).drop d := by
  rw [List.drop_append_of_le_length (by omega)]
  cases chunks with
  | nil =>
    have hlast : batch.numRows ≤ 1000 := hchunked.2
    rw [List.flatMap_nil, List.append_nil, List.take_of_length_le]
    rw [List.length_drop]
    omega
  | cons next chunks =>
    have hfull : batch.numRows = 1000 := hchunked.1
    refine List.take_left' ?_
    rw [List.length_drop, hlength, hfull]

theorem skip_eq {offset limit : Nat} (pos : Nat) {chunks : List RecordBatch}
    (hconverts : ∀ batch ∈ chunks,
      ∃ records, ParquetSourceClient.convertBatchToRecords formats batch = .ok records)
    (hchunked : Chunked chunks) (haligned : pos % 1000 = 0) (hpos : pos ≤ offset) :
    ParquetSourceClient.skip formats offset limit pos chunks =
      .ok (pageOf (chunks.flatMap (rowsOf formats)) (offset - pos) limit) := by
  induction chunks generalizing pos with
  | nil =>
    rw [ParquetSourceClient.skip, ParquetSourceClient.collect, List.flatMap_nil, pageOf_nil]
  | cons batch chunks ih =>
    have hbatch := hconverts batch List.mem_cons_self
    have hlength := length_rowsOf hbatch
    have hrest : ∀ b ∈ chunks,
        ∃ records, ParquetSourceClient.convertBatchToRecords formats b = .ok records :=
      fun b hb => hconverts b (List.mem_cons_of_mem batch hb)
    rw [ParquetSourceClient.skip]
    by_cases hbefore : pos < offset
    · rw [if_pos hbefore]
      by_cases hwhole : pos + batch.numRows ≤ offset
      · rw [if_pos hwhole, List.flatMap_cons]
        cases chunks with
        | nil =>
          have hdrop : (rowsOf formats batch).drop (offset - pos) = [] :=
            List.drop_eq_nil_of_le (by omega)
          rw [ParquetSourceClient.skip, ParquetSourceClient.collect, List.flatMap_nil,
            List.append_nil, pageOf, hdrop, List.take_nil, List.take_nil, List.take_nil, ite_self]
        | cons next chunks =>
          have hfull : batch.numRows = 1000 := hchunked.1
          rw [ih (pos + batch.numRows) hrest hchunked.2 (by omega) hwhole,
            pageOf_append (by omega) (by omega), hfull, Nat.sub_sub]
      · have hinside : (offset - pos) % 1000 = offset - pos := by
          have hle : batch.numRows ≤ 1000 := numRows_le hchunked
          exact Nat.mod_eq_of_lt (by omega)
        rw [if_neg hwhole, convert_eq hbatch, List.flatMap_cons, pageOf, hinside,
          if_neg (by omega), rest_of_chunk hchunked hlength (by omega)]
        rfl
    · have hat : offset - pos = 0 := by omega
      rw [if_neg hbefore, collect_eq 0 hconverts, hat, pageOf, if_pos rfl, Nat.sub_zero,
        List.drop_zero]

theorem ParquetFile.fetchBatch_eq (file : ParquetFile formats) (offset limit : Nat) :
    ParquetSourceClient.fetchBatch formats file.chunks offset limit =
      .ok (pageOf file.records offset limit) :=
  skip_eq 0 file.converts file.chunked rfl (Nat.zero_le offset)

theorem ParquetFile.length_records_lt (file : ParquetFile formats) :
    file.records.length < 2 ^ 63 := by
  have hlength : file.chunks.map (fun batch => (rowsOf formats batch).length) =
      file.chunks.map RecordBatch.numRows :=
    List.map_congr_left fun batch hbatch => length_rowsOf (file.converts batch hbatch)
  rw [ParquetFile.records, List.length_flatMap, hlength]
  exact file.fits

end parquet

end Migration
end RTDB
