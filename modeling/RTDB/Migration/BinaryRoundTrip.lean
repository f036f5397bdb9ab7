import RTDB.Migration.Binary

/-!
# Exports in the binary format

An export of at least one record, none of them with 2^32 components, is read back.  Cut off within the
first four bytes of a record, it is read as if it ended there.
-/

namespace RTDB
namespace Migration

open Bytes Outcomes Storage Reader

variable {F : Type} {formats : RecordFormats F}

/-! ## Records -/

theorem fields_local (idLen : Nat) : Local (BinaryReader.fields formats idLen) := by
  have hmetadata : ∀ n, Local (BinaryReader.metadata formats n) := by
    intro n
    rw [BinaryReader.metadata]
    split
    · exact (Local.exact _ _).bind fun _ => Local.ofExcept _
    · exact Local.pure _
  exact (Local.exact _ _).bind fun _ => (Local.ofExcept _).bind fun _ => (Local.exact _ _).bind fun _ =>
    (Local.exact _ _).bind fun _ => (Local.exact _ _).bind fun _ => (hmetadata _).bind fun _ =>
      Local.pure _

/-- The bytes of a record behind the length of its id. -/
def fieldBytes (formats : RecordFormats F) (record : VectorRecord F) : List UInt8 :=
  utf8 record.id ++ (leBytes 4 record.vector.length ++ (wordBytes record.vector ++
    (leBytes 4 (formats.metadataToVec record.metadata).length ++
      formats.metadataToVec record.metadata)))

theorem encodeRecord_eq (record : VectorRecord F) :
    encodeRecord formats record = leBytes 4 (utf8 record.id).length ++ fieldBytes formats record := rfl

variable (formats) in
theorem length_encodeRecord (record : VectorRecord F) :
    4 ≤ (encodeRecord formats record).length := by
  rw [encodeRecord_eq, List.length_append, length_leBytes]
  omega

variable {record : VectorRecord F}

theorem Storable.reads_metadata (hrecord : Storable formats record) :
    Reads (BinaryReader.metadata formats (formats.metadataToVec record.metadata).length)
      (formats.metadataToVec record.metadata) record.metadata := by
  have hpos : 0 < (formats.metadataToVec record.metadata).length :=
    List.length_pos_iff.mpr hrecord.written
  have hparse : (formats.metadataFromSlice (formats.metadataToVec record.metadata)).mapError
      (fun e => Error.serialization s!"Failed to parse metadata: {e}") = .ok record.metadata := by
    rw [hrecord.reads]
    rfl
  rw [BinaryReader.metadata, if_pos hpos]
  exact Reads.nil_bind (Reads.exact rfl _) (Reads.ofExcept hparse)

theorem Storable.reads_fields (hrecord : Storable formats record)
    (hshort : record.vector.length < 2 ^ 32) :
    Reads (BinaryReader.fields formats (utf8 record.id).length) (fieldBytes formats record) record := by
  have hdim : leNat (leBytes 4 record.vector.length) = record.vector.length :=
    leNat_leBytes_of_lt hshort
  have hlen : leNat (leBytes 4 (formats.metadataToVec record.metadata).length) =
      (formats.metadataToVec record.metadata).length := leNat_leBytes_of_lt hrecord.metadata
  have hvector : (wordBytes record.vector).length = leNat (leBytes 4 record.vector.length) * 4 := by
    rw [hdim, length_wordBytes]
  have hmetadata := hrecord.reads_metadata
  rw [← hlen] at hmetadata
  have hlast : Reads (pure (VectorRecord.mk record.id (wordsOf (wordBytes record.vector))
      record.metadata) : Reader UInt8 Error (VectorRecord F)) [] record := by
    rw [wordsOf_wordBytes]
    exact Reads.pure record
  refine Reads.bind (Reads.exact rfl _) (Reads.bind_nil (Reads.ofExcept (x := record.id) ?_) ?_)
  · rw [ofUtf8?_utf8]
  refine Reads.bind (Reads.exact (length_leBytes 4 _) _) (Reads.bind (Reads.exact hvector _) ?_)
  exact Reads.bind (Reads.exact (length_leBytes 4 _) _) (Reads.nil_bind hmetadata hlast)

theorem fields_dimension {idLen : Nat} {bytes rest : List UInt8}
    (hread : BinaryReader.fields formats idLen bytes = .ok (record, rest)) :
    record.vector.length < 2 ^ 32 := by
  obtain ⟨idBytes, b₁, -, hread⟩ := bind_ok hread
  obtain ⟨id, b₂, -, hread⟩ := bind_ok hread
  obtain ⟨vectorDim, b₃, hdim, hread⟩ := bind_ok hread
  obtain ⟨vectorBytes, b₄, hvector, hread⟩ := bind_ok hread
  obtain ⟨metadataLen, b₅, -, hread⟩ := bind_ok hread
  obtain ⟨metadata, b₆, -, hread⟩ := bind_ok hread
  have hfour := (exact_ok hdim).1
  have hlength := (exact_ok hvector).1
  have hlt := leNat_lt vectorDim
  rw [hfour] at hlt
  rw [← (Prod.mk.inj (Except.ok.inj hread)).1]
  show (wordsOf vectorBytes).length < 2 ^ 32
  rw [length_wordsOf, hlength]
  omega

/-! ## The loop over the records -/

variable {bytes rest tail : List UInt8} {rs : List (VectorRecord F)}

theorem records_short (n : Nat) (hshort : bytes.length < 4) :
    BinaryReader.records formats (n + 1) bytes = .ok ([], []) := by
  rw [BinaryReader.records, if_pos hshort]

theorem records_nil (n : Nat) : BinaryReader.records formats n [] = .ok ([], []) := by
  cases n with
  | zero => rfl
  | succ n => exact records_short n (by decide)

theorem records_cons (hrecord : Storable formats record) (hshort : record.vector.length < 2 ^ 32)
    (n : Nat) (rest : List UInt8) :
    BinaryReader.records formats (n + 1) (encodeRecord formats record ++ rest) =
      (BinaryReader.records formats n rest).map fun r => (record :: r.1, r.2) := by
  have hlen : (leBytes 4 (utf8 record.id).length).length = 4 := length_leBytes 4 _
  have hsize : (utf8 record.id).length < 256 ^ 4 := by
    rw [length_utf8]
    exact hrecord.id
  rw [encodeRecord_eq, List.append_assoc, BinaryReader.records,
    if_neg (by rw [List.length_append]; omega), List.take_left' hlen, List.drop_left' hlen,
    leNat_leBytes_of_lt hsize, hrecord.reads_fields hshort rest]

/-- What the loop leaves is the end of what it was given. -/
theorem records_suffix {n : Nat} (hread : BinaryReader.records formats n bytes = .ok (rs, rest)) :
    ∃ front, bytes = front ++ rest := by
  induction n generalizing bytes rs with
  | zero =>
    obtain ⟨-, rfl⟩ := Prod.mk.inj (Except.ok.inj hread)
    exact ⟨[], rfl⟩
  | succ n ih =>
    rw [BinaryReader.records] at hread
    split at hread
    · obtain ⟨-, rfl⟩ := Prod.mk.inj (Except.ok.inj hread)
      exact ⟨bytes, (List.append_nil bytes).symm⟩
    · split at hread
      · exact absurd hread (by simp)
      · rename_i first mid hfields
        obtain ⟨r, hmore, heq⟩ := map_eq_ok hread
        obtain ⟨-, rfl⟩ := Prod.mk.inj heq
        obtain ⟨piece, hpiece, -⟩ := fields_local _ _ _ _ hfields
        obtain ⟨front, hfront⟩ := ih hmore
        refine ⟨bytes.take 4 ++ (piece ++ front), ?_⟩
        rw [List.append_assoc, List.append_assoc, ← hfront, ← hpiece, List.take_append_drop]

/-- Two loops, one behind the other. -/
theorem records_add (m n : Nat) (bytes : List UInt8) :
    BinaryReader.records formats (m + n) bytes = (do
      let a ← BinaryReader.records formats m bytes
      let b ← BinaryReader.records formats n a.2
      .ok (a.1 ++ b.1, b.2)) := by
  induction m generalizing bytes with
  | zero =>
    rw [Nat.zero_add]
    show _ = (BinaryReader.records formats n bytes >>= fun b => _)
    cases BinaryReader.records formats n bytes with
    | error e => rfl
    | ok b => rfl
  | succ m ih =>
    rw [Nat.succ_add, BinaryReader.records, BinaryReader.records]
    split
    · show _ = (BinaryReader.records formats n [] >>= fun b => _)
      rw [records_nil]
      rfl
    · split
      · rfl
      · rename_i first mid hfields
        rw [ih mid]
        cases BinaryReader.records formats m mid with
        | error e => rfl
        | ok a =>
          show Except.map _ (BinaryReader.records formats n a.2 >>= fun b => _) =
            (BinaryReader.records formats n a.2 >>= fun b => _)
          cases BinaryReader.records formats n a.2 with
          | error e => rfl
          | ok b => rfl

/-- Whole records, and at most three bytes behind them. -/
theorem records_encodeRecords (hstorable : ∀ r ∈ rs, Storable formats r)
    (hshort : ∀ r ∈ rs, r.vector.length < 2 ^ 32) (htail : tail.length < 4) (n : Nat) :
    BinaryReader.records formats n (encodeRecords formats rs ++ tail) =
      .ok (rs.take n, if n ≤ rs.length then encodeRecords formats (rs.drop n) ++ tail else []) := by
  induction rs generalizing n with
  | nil =>
    cases n with
    | zero => rfl
    | succ n => exact records_short n htail
  | cons record rs ih =>
    obtain ⟨hrecord, hrs⟩ := List.forall_mem_cons.mp hstorable
    obtain ⟨hdim, hdims⟩ := List.forall_mem_cons.mp hshort
    cases n with
    | zero => rfl
    | succ n =>
      rw [encodeRecords, List.flatMap_cons, List.append_assoc, ← encodeRecords,
        records_cons hrecord hdim, ih hrs hdims n]
      simp only [Except.map, List.take_succ_cons, List.drop_succ_cons, List.length_cons,
        Nat.succ_le_succ_iff]

/-- A vector that is read has fewer than 2^32 components. -/
theorem records_dimension {n : Nat} (hread : BinaryReader.records formats n bytes = .ok (rs, rest)) :
    ∀ r ∈ rs, r.vector.length < 2 ^ 32 := by
  induction n generalizing bytes rs rest with
  | zero =>
    obtain ⟨rfl, -⟩ := Prod.mk.inj (Except.ok.inj hread)
    exact fun _ hmem => absurd hmem List.not_mem_nil
  | succ n ih =>
    rw [BinaryReader.records] at hread
    split at hread
    · obtain ⟨rfl, -⟩ := Prod.mk.inj (Except.ok.inj hread)
      exact fun _ hmem => absurd hmem List.not_mem_nil
    · split at hread
      · exact absurd hread (by simp)
      · rename_i first mid hfields
        obtain ⟨r, hmore, heq⟩ := map_eq_ok hread
        obtain ⟨rfl, -⟩ := Prod.mk.inj heq
        refine List.forall_mem_cons.mpr ⟨fields_dimension hfields, ih hmore⟩

/-! ## Batch after batch -/

theorem BinaryReader.readBatch_eq {reader : BinaryReader} {count : Nat} (hcount : reader.totalRecords = some count)
    (batchSize : Nat) :
    BinaryReader.readBatch formats (some bytes) reader batchSize =
      (BinaryReader.records formats batchSize (bytes.drop reader.currentOffset)).map fun r =>
        (r.1, { reader with currentOffset := bytes.length - r.2.length }) := by
  have hopen : BinaryReader.ensureHeader (some bytes) reader = .ok reader := by
    rw [BinaryReader.ensureHeader, hcount]
    rfl
  rw [BinaryReader.readBatch, hopen]
  show (BinaryReader.records formats batchSize (bytes.drop reader.currentOffset) >>= fun r => _) = _
  cases BinaryReader.records formats batchSize (bytes.drop reader.currentOffset) with
  | error e => rfl
  | ok r => rfl

/-- The next batch begins where the last one ended. -/
theorem drop_offset {reader : BinaryReader} {n : Nat} {a : List (VectorRecord F) × List UInt8}
    (hread : BinaryReader.records formats n (bytes.drop reader.currentOffset) = .ok a) :
    bytes.drop (bytes.length - a.2.length) = a.2 := by
  obtain ⟨front, hfront⟩ := records_suffix (show BinaryReader.records _ _ _ = .ok (a.1, a.2) from hread)
  have hsplit : bytes = (bytes.take reader.currentOffset ++ front) ++ a.2 := by
    rw [List.append_assoc, ← hfront, List.take_append_drop]
  generalize bytes.take reader.currentOffset ++ front = before at hsplit
  rw [hsplit, List.length_append, Nat.add_sub_cancel, List.drop_left' rfl]

theorem BinaryReader.readBatch_ok {reader reader' : BinaryReader} {count n : Nat} {batch : List (VectorRecord F)}
    (hcount : reader.totalRecords = some count)
    (hread : BinaryReader.readBatch formats (some bytes) reader n = .ok (batch, reader')) :
    BinaryReader.records formats n (bytes.drop reader.currentOffset) =
        .ok (batch, bytes.drop reader'.currentOffset) ∧ reader'.totalRecords = some count := by
  rw [BinaryReader.readBatch_eq hcount] at hread
  obtain ⟨a, hrecords, heq⟩ := map_eq_ok hread
  obtain ⟨rfl, rfl⟩ := Prod.mk.inj heq
  refine ⟨?_, hcount⟩
  show _ = Except.ok (a.1, bytes.drop (bytes.length - a.2.length))
  rw [drop_offset hrecords, hrecords]

/-- The batches together are what one loop reads. -/
theorem readBatches_ok {reader reader' : BinaryReader} {count : Nat} {sizes : List Nat}
    {batches : List (List (VectorRecord F))} (hcount : reader.totalRecords = some count)
    (hread : BinaryReader.readBatches formats (some bytes) reader sizes = .ok (batches, reader')) :
    (∃ rest, BinaryReader.records formats sizes.sum (bytes.drop reader.currentOffset) =
        .ok (batches.flatten, rest)) ∧ reader'.totalRecords = some count := by
  induction sizes generalizing reader batches with
  | nil =>
    obtain ⟨rfl, rfl⟩ := Prod.mk.inj (Except.ok.inj hread)
    exact ⟨⟨_, rfl⟩, hcount⟩
  | cons n sizes ih =>
    obtain ⟨⟨batch, mid⟩, hfirst, hread⟩ := bind_eq_ok hread
    obtain ⟨⟨more, last⟩, hmore, hread⟩ := bind_eq_ok hread
    obtain ⟨rfl, rfl⟩ := Prod.mk.inj (Except.ok.inj hread)
    obtain ⟨hbatch, hmid⟩ := BinaryReader.readBatch_ok hcount hfirst
    obtain ⟨⟨rest, hrest⟩, hlast⟩ := ih hmid hmore
    refine ⟨⟨rest, ?_⟩, hlast⟩
    rw [List.sum_cons, records_add, hbatch]
    show (BinaryReader.records formats sizes.sum (bytes.drop mid.currentOffset) >>= fun b => _) = _
    rw [hrest]
    rfl

theorem readBatches_of_records {reader : BinaryReader} {count : Nat} {sizes : List Nat}
    (hcount : reader.totalRecords = some count)
    (hread : BinaryReader.records formats sizes.sum (bytes.drop reader.currentOffset) =
      .ok (rs, rest)) :
    ∃ batches reader', BinaryReader.readBatches formats (some bytes) reader sizes =
      .ok (batches, reader') ∧ batches.flatten = rs ∧ reader'.totalRecords = some count := by
  induction sizes generalizing reader rs with
  | nil =>
    obtain ⟨rfl, -⟩ := Prod.mk.inj (Except.ok.inj hread)
    exact ⟨[], reader, rfl, rfl, hcount⟩
  | cons n sizes ih =>
    rw [List.sum_cons, records_add] at hread
    obtain ⟨a, hfirst, hread⟩ := bind_eq_ok hread
    obtain ⟨b, hmore, hread⟩ := bind_eq_ok hread
    obtain ⟨rfl, rfl⟩ := Prod.mk.inj (Except.ok.inj hread)
    let mid : BinaryReader := { reader with currentOffset := bytes.length - a.2.length }
    have hbatch : BinaryReader.readBatch formats (some bytes) reader n = .ok (a.1, mid) := by
      rw [BinaryReader.readBatch_eq hcount, hfirst]
      rfl
    have hmid : BinaryReader.records formats sizes.sum (bytes.drop mid.currentOffset) = .ok b := by
      show BinaryReader.records formats sizes.sum (bytes.drop (bytes.length - a.2.length)) = .ok b
      rw [drop_offset hfirst]
      exact hmore
    obtain ⟨batches, last, hbatches, hflatten, hlast⟩ := ih (show mid.totalRecords = some count from hcount) hmid
    refine ⟨a.1 :: batches, last, ?_, ?_, hlast⟩
    · rw [BinaryReader.readBatches, hbatch]
      show (BinaryReader.readBatches formats (some bytes) mid sizes >>= fun r => _) = _
      rw [hbatches]
      rfl
    · rw [List.flatten_cons, hflatten]

/-! ## The header -/

theorem length_headerBytes (count : Nat) : (headerBytes count).length = 16 := by
  rw [headerBytes, List.length_append, List.length_append, length_leBytes, length_leBytes]
  rfl

theorem reads_header {count : Nat} (hcount : count < 2 ^ 64) :
    Reads BinaryReader.header (headerBytes count) count := by
  have hlast : Reads (pure (leNat (leBytes 8 count)) : Reader UInt8 Error Nat) [] count := by
    rw [leNat_leBytes_of_lt hcount]
    exact Reads.pure count
  refine Reads.bind (Reads.exact rfl _) (Reads.bind_nil (Reads.ofExcept (x := ()) rfl) ?_)
  refine Reads.bind (Reads.exact (length_leBytes 4 1) _) (Reads.bind_nil (Reads.ofExcept (x := ()) ?_) ?_)
  · rw [leNat_leBytes_of_lt (by decide)]
    rfl
  · exact Reads.nil_bind (Reads.exact (length_leBytes 8 count) _) hlast

theorem header_ok {count : Nat} (hread : BinaryReader.header bytes = .ok (count, rest)) :
    bytes = headerBytes count ++ rest := by
  obtain ⟨start, b₁, hstart, hread⟩ := bind_ok hread
  obtain ⟨_, b₂, hmagic, hread⟩ := bind_ok hread
  obtain ⟨version, b₃, hversion, hread⟩ := bind_ok hread
  obtain ⟨_, b₄, hone, hread⟩ := bind_ok hread
  obtain ⟨recordCount, b₅, hcount, hread⟩ := bind_ok hread
  obtain ⟨rfl, rfl⟩ := Prod.mk.inj (Except.ok.inj hread)
  obtain ⟨-, rfl⟩ := exact_ok hstart
  obtain ⟨hsame, rfl⟩ := ofExcept_ok hmagic
  obtain ⟨hfour, rfl⟩ := exact_ok hversion
  obtain ⟨hfirst, rfl⟩ := ofExcept_ok hone
  obtain ⟨height, rfl⟩ := exact_ok hcount
  have hstart : start = magic := by
    by_contra hne
    rw [if_pos hne] at hsame
    exact absurd hsame (by simp)
  have hversion : leNat version = 1 := by
    by_contra hne
    rw [if_pos hne] at hfirst
    exact absurd hfirst (by simp)
  rw [headerBytes, hstart, ← hversion, ← hfour, ← height, leBytes_leNat, leBytes_leNat,
    List.append_assoc, List.append_assoc]

def behindHeader (count : Nat) : BinaryReader := { currentOffset := 16, totalRecords := some count }

variable (formats) in
/-- The first batch comes behind the header. -/
theorem readBatch_new {count : Nat} (hread : BinaryReader.header bytes = .ok (count, rest)) (n : Nat) :
    BinaryReader.readBatch formats (some bytes) BinaryReader.new n =
      BinaryReader.readBatch formats (some bytes) (behindHeader count) n := by
  have hheader : BinaryReader.ensureHeader (some bytes) BinaryReader.new =
      BinaryReader.ensureHeader (some bytes) (behindHeader count) := by
    show (BinaryReader.header bytes).map _ = _
    rw [hread]
    rfl
  rw [BinaryReader.readBatch, hheader, BinaryReader.readBatch]

theorem readBatches_new {count : Nat} (hread : BinaryReader.header bytes = .ok (count, rest))
    {sizes : List Nat} (hsizes : sizes ≠ []) :
    BinaryReader.readBatches formats (some bytes) BinaryReader.new sizes =
      BinaryReader.readBatches formats (some bytes) (behindHeader count) sizes := by
  obtain ⟨n, sizes, rfl⟩ := List.exists_cons_of_ne_nil hsizes
  rw [BinaryReader.readBatches, BinaryReader.readBatches, readBatch_new formats hread]

/-- A reading of anything comes behind a header. -/
theorem header_of_readBatches {file : Option (List UInt8)} {sizes : List Nat} (hsizes : sizes ≠ [])
    {batches : List (List (VectorRecord F))} {reader : BinaryReader}
    (hread : BinaryReader.readBatches formats file BinaryReader.new sizes = .ok (batches, reader)) :
    ∃ bytes count body, file = some bytes ∧ BinaryReader.header bytes = .ok (count, body) := by
  obtain ⟨n, sizes, rfl⟩ := List.exists_cons_of_ne_nil hsizes
  obtain ⟨_, hfirst, -⟩ := bind_eq_ok hread
  obtain ⟨_, hheader, -⟩ := bind_eq_ok hfirst
  cases file with
  | none =>
    exact absurd hheader (by simp [BinaryReader.ensureHeader, BinaryReader.new, BinaryReader.readHeader])
  | some bytes =>
    obtain ⟨⟨count, body⟩, hcount, -⟩ := map_eq_ok hheader
    exact ⟨bytes, count, body, rfl, hcount⟩

theorem readBatches_new_ok {file : Option (List UInt8)} {sizes : List Nat} (hsizes : sizes ≠ [])
    {batches : List (List (VectorRecord F))} {reader : BinaryReader}
    (hread : BinaryReader.readBatches formats file BinaryReader.new sizes = .ok (batches, reader)) :
    ∃ count body rest, file = some (headerBytes count ++ body) ∧
      BinaryReader.records formats sizes.sum body = .ok (batches.flatten, rest) ∧
      reader.totalRecords = some count := by
  obtain ⟨bytes, count, body, rfl, hheader⟩ := header_of_readBatches hsizes hread
  rw [readBatches_new hheader hsizes] at hread
  obtain ⟨⟨rest, hrest⟩, hcount⟩ := readBatches_ok rfl hread
  have hdrop : (headerBytes count ++ body).drop 16 = body := List.drop_left' (length_headerBytes count)
  rw [header_ok hheader] at hrest ⊢
  exact ⟨count, body, rest, rfl, hdrop ▸ hrest, hcount⟩

/-! ## What is read back -/

/-- A file of whole records, with a few bytes behind them. -/
theorem readsBack_of_whole (hcount : rs.length < 2 ^ 64) (hstorable : ∀ r ∈ rs, Storable formats r)
    (hshort : ∀ r ∈ rs, r.vector.length < 2 ^ 32) (htail : tail.length < 4) :
    ReadsBack formats (some (headerBytes rs.length ++ (encodeRecords formats rs ++ tail))) rs := by
  intro sizes hsizes
  by_cases hnone : sizes = []
  · subst hnone
    exact ⟨[], BinaryReader.new, rfl, rfl, fun hne => absurd rfl hne⟩
  · have hheader := reads_header hcount (encodeRecords formats rs ++ tail)
    have hdrop : (headerBytes rs.length ++ (encodeRecords formats rs ++ tail)).drop 16 =
        encodeRecords formats rs ++ tail := List.drop_left' (length_headerBytes _)
    have hrecords := records_encodeRecords hstorable hshort htail sizes.sum
    rw [← hdrop] at hrecords
    obtain ⟨batches, reader, hbatches, hflatten, hreader⟩ :=
      readBatches_of_records (show (behindHeader rs.length).totalRecords = some rs.length from rfl) hrecords
    rw [← readBatches_new hheader hnone] at hbatches
    exact ⟨batches, reader, hbatches, hflatten, fun _ => hreader⟩

theorem ReadsBack.dimensions {file : Option (List UInt8)} (hback : ReadsBack formats file rs) :
    ∀ r ∈ rs, r.vector.length < 2 ^ 32 := by
  obtain ⟨batches, reader, hread, hflatten, -⟩ := hback [rs.length + 1] (by simp)
  obtain ⟨count, body, rest, -, hrecords, -⟩ := readBatches_new_ok (by simp) hread
  rw [hflatten, List.take_of_length_le (by simp)] at hrecords
  exact records_dimension hrecords

/-- What an export without a record leaves is read as one: the path held a header that counts none. -/
def EmptyExport (file : Option (List UInt8)) : Prop :=
  ∃ tail, file = some (headerBytes 0 ++ tail) ∧ tail.length < 4

theorem readsBack_nil_iff {file : Option (List UInt8)} :
    ReadsBack formats file [] ↔ EmptyExport file := by
  constructor
  · intro hback
    obtain ⟨batches, reader, hread, hflatten, hcount⟩ := hback [1] (by simp)
    obtain ⟨count, body, rest, hfile, hrecords, htotal⟩ := readBatches_new_ok (by simp) hread
    have hzero : count = 0 := Option.some.inj (htotal.symm.trans (hcount (by simp)))
    refine ⟨body, hzero ▸ hfile, ?_⟩
    by_contra hlong
    rw [hflatten] at hrecords
    have hfirst : BinaryReader.records formats (0 + 1) body = .ok ([], rest) := hrecords
    rw [BinaryReader.records, if_neg hlong] at hfirst
    split at hfirst
    · exact absurd hfirst (by simp)
    · obtain ⟨r, -, heq⟩ := map_eq_ok hfirst
      exact absurd (Prod.mk.inj heq).1 (by simp)
  · rintro ⟨tail, rfl, htail⟩
    have hback : ReadsBack formats (some (headerBytes ([] : List (VectorRecord F)).length ++
        (encodeRecords formats [] ++ tail))) [] :=
      readsBack_of_whole (Nat.two_pow_pos 64) (fun _ hmem => absurd hmem List.not_mem_nil)
        (fun _ hmem => absurd hmem List.not_mem_nil) htail
    exact hback

/-! ## What is written -/

def writing (formats : RecordFormats F) (rs : List (VectorRecord F)) : BinaryWriter :=
  { file := some (headerBytes 0 ++ encodeRecords formats rs), recordsWritten := rs.length % 2 ^ 64
    opened := true, headerWritten := true }

theorem writeAll_nil (w : BinaryWriter) : w.writeAll [] = w := by
  rcases w with ⟨_ | bytes, n, opened, headerWritten⟩
  · rfl
  · rw [BinaryWriter.writeAll, Option.map_some, List.append_nil]

theorem writeAll_append (w : BinaryWriter) (a b : List UInt8) :
    (w.writeAll a).writeAll b = w.writeAll (a ++ b) := by
  rcases w with ⟨_ | bytes, n, opened, headerWritten⟩
  · rfl
  · show BinaryWriter.mk (some ((bytes ++ a) ++ b)) n opened headerWritten = _
    rw [List.append_assoc]
    rfl

theorem writeAll_records (rs : List (VectorRecord F)) (w : BinaryWriter) :
    rs.foldl (fun w record => w.writeAll (encodeRecord formats record)) w =
      w.writeAll (encodeRecords formats rs) := by
  induction rs generalizing w with
  | nil => exact (writeAll_nil w).symm
  | cons record rs ih =>
    rw [List.foldl_cons, ih, writeAll_append, encodeRecords, encodeRecords, List.flatMap_cons]

theorem writeBatch_new (before : Option (List UInt8)) {batch : List (VectorRecord F)}
    (hbatch : batch ≠ []) :
    BinaryWriter.writeBatch formats (BinaryWriter.new before) batch = writing formats batch := by
  rw [BinaryWriter.writeBatch, if_neg (by simpa using hbatch)]
  simp only [writeAll_records]
  show { BinaryWriter.writeAll _ (encodeRecords formats batch) with
    recordsWritten := (0 + batch.length) % 2 ^ 64 } = _
  rw [Nat.zero_add]
  rfl

theorem writeBatch_writing (rs batch : List (VectorRecord F)) :
    BinaryWriter.writeBatch formats (writing formats rs) batch = writing formats (rs ++ batch) := by
  rw [BinaryWriter.writeBatch]
  split
  · rename_i hnil
    rw [List.isEmpty_iff.mp hnil, List.append_nil]
  · simp only [writeAll_records]
    show BinaryWriter.mk (some ((headerBytes 0 ++ encodeRecords formats rs) ++
      encodeRecords formats batch)) ((rs.length % 2 ^ 64 + batch.length) % 2 ^ 64) true true = _
    rw [writing, encodeRecords, encodeRecords, encodeRecords, List.flatMap_append, List.append_assoc,
      Nat.mod_add_mod, List.length_append]

theorem writeBatches_writing (rs : List (VectorRecord F)) (batches : List (List (VectorRecord F))) :
    batches.foldl (BinaryWriter.writeBatch formats) (writing formats rs) =
      writing formats (rs ++ batches.flatten) := by
  induction batches generalizing rs with
  | nil => rw [List.foldl_nil, List.flatten_nil, List.append_nil]
  | cons batch batches ih =>
    rw [List.foldl_cons, writeBatch_writing, ih, List.flatten_cons, List.append_assoc]

theorem writeBatches_new (before : Option (List UInt8)) (batches : List (List (VectorRecord F))) :
    batches.foldl (BinaryWriter.writeBatch formats) (BinaryWriter.new before) =
      if batches.flatten = [] then BinaryWriter.new before else writing formats batches.flatten := by
  induction batches with
  | nil => rfl
  | cons batch batches ih =>
    rw [List.foldl_cons, List.flatten_cons]
    by_cases hbatch : batch = []
    · subst hbatch
      exact ih
    · rw [writeBatch_new before hbatch, writeBatches_writing, if_neg (by simp [hbatch])]

/-- The count goes where the placeholder was. -/
theorem writeAt_header (count : Nat) (body : List UInt8) :
    writeAt (headerBytes 0 ++ body) 8 (leBytes 8 count) = headerBytes count ++ body := by
  have hfront : (magic ++ leBytes 4 1).length = 8 := rfl
  have hplace : (magic ++ leBytes 4 1 ++ leBytes 8 0).length = 8 + (leBytes 8 count).length := by
    rw [length_leBytes]
    rfl
  have hbytes : headerBytes 0 ++ body = (magic ++ leBytes 4 1 ++ leBytes 8 0) ++ body := by
    rw [headerBytes, ← List.append_assoc magic]
  have htake : ((magic ++ leBytes 4 1 ++ leBytes 8 0) ++ body).take 8 = magic ++ leBytes 4 1 := by
    rw [List.append_assoc (magic ++ leBytes 4 1)]
    exact List.take_left' hfront
  rw [writeAt, hbytes, htake, List.drop_left' hplace, headerBytes, ← List.append_assoc magic]

theorem exported_eq {batches : List (List (VectorRecord F))} (hcount : batches.flatten.length < 2 ^ 64)
    (before : Option (List UInt8)) :
    exported formats before batches =
      if batches.flatten = [] then before
      else some (headerBytes batches.flatten.length ++ encodeRecords formats batches.flatten) := by
  rw [exported, writeBatches_new]
  split
  · rfl
  · show some (writeAt _ 8 (leBytes 8 (batches.flatten.length % 2 ^ 64))) = _
    rw [writeAt_header, Nat.mod_eq_of_lt hcount]

/-! ## Cuts -/

def startOf (formats : RecordFormats F) (rs : List (VectorRecord F)) (k : Nat) : Nat :=
  16 + (encodeRecords formats (rs.take k)).length

/-- The file does not end within the first four bytes of a record. -/
def CutSeen (formats : RecordFormats F) (rs : List (VectorRecord F)) (cut : Nat) : Prop :=
  ∀ k, k < rs.length → cut < startOf formats rs k ∨ startOf formats rs k + 4 ≤ cut

variable (formats) in
theorem startOf_succ {k : Nat} (hk : k < rs.length) :
    startOf formats rs (k + 1) = startOf formats rs k + (encodeRecord formats rs[k]).length := by
  rw [startOf, startOf, List.take_succ_eq_append_getElem hk, encodeRecords, encodeRecords,
    List.flatMap_append, List.length_append, List.flatMap_singleton]
  omega

variable (formats) in
/-- Records begin at least four bytes apart. -/
theorem startOf_lt {j k : Nat} (hjk : j < k) (hk : k ≤ rs.length) :
    startOf formats rs j + 4 ≤ startOf formats rs k := by
  induction k with
  | zero => omega
  | succ k ih =>
    have hlength := length_encodeRecord formats rs[k]
    have hsucc := startOf_succ formats (show k < rs.length by omega)
    rcases Nat.lt_or_ge j k with hlt | hge
    · have hbefore := ih hlt (by omega)
      omega
    · have hsame : j = k := by omega
      subst hsame
      omega

/-- Bytes of records that end too early end inside one of them. -/
theorem exists_cut {q : Nat} (hq : q < (encodeRecords formats rs).length) :
    ∃ k, ∃ hk : k < rs.length, ∃ front back, back ≠ [] ∧
      (encodeRecords formats rs).take q = encodeRecords formats (rs.take k) ++ front ∧
      encodeRecord formats rs[k] = front ++ back ∧ 16 + q = startOf formats rs k + front.length := by
  induction rs generalizing q with
  | nil => exact absurd hq (Nat.not_lt_zero q)
  | cons record rs ih =>
    rw [encodeRecords, List.flatMap_cons, List.length_append, ← encodeRecords] at hq
    rcases Nat.lt_or_ge q (encodeRecord formats record).length with hlt | hge
    · refine ⟨0, Nat.zero_lt_succ _, (encodeRecord formats record).take q,
        (encodeRecord formats record).drop q, ?_, ?_, ?_, ?_⟩
      · rw [ne_eq, List.drop_eq_nil_iff]
        omega
      · rw [encodeRecords, List.flatMap_cons, List.take_append_of_le_length (Nat.le_of_lt hlt)]
        rfl
      · exact (List.take_append_drop q _).symm
      · rw [List.length_take, Nat.min_eq_left (Nat.le_of_lt hlt)]
        rfl
    · obtain ⟨k, hk, front, back, hback, htake, hsplit, hlength⟩ :=
        ih (q := q - (encodeRecord formats record).length) (by omega)
      refine ⟨k + 1, Nat.succ_lt_succ hk, front, back, hback, ?_, hsplit, ?_⟩
      · rw [encodeRecords, List.flatMap_cons, ← encodeRecords, List.take_append,
          List.take_of_length_le hge, htake, List.take_succ_cons, encodeRecords, encodeRecords,
          List.flatMap_cons, List.append_assoc]
      · rw [startOf, List.take_succ_cons, encodeRecords, List.flatMap_cons, List.length_append,
          ← encodeRecords]
        rw [startOf] at hlength
        omega

theorem cutSeen_iff {k cut : Nat} (hk : k < rs.length) {front : List UInt8}
    (hcut : cut = startOf formats rs k + front.length)
    (hinside : front.length < (encodeRecord formats rs[k]).length) :
    CutSeen formats rs cut ↔ 4 ≤ front.length := by
  constructor
  · intro hseen
    have hhere := hseen k hk
    omega
  · intro hlong j hj
    have hsucc := startOf_succ formats hk
    rcases Nat.lt_trichotomy j k with hlt | heq | hgt
    · have hbefore := startOf_lt formats hlt (Nat.le_of_lt hk)
      omega
    · subst heq
      omega
    · rcases Nat.lt_or_ge (k + 1) j with hlt | hge
      · have hbehind := startOf_lt formats hlt (Nat.le_of_lt hj)
        omega
      · have hsame : j = k + 1 := by omega
        subst hsame
        omega

/-- In front of a record that is cut behind its first four bytes, no more than what is whole is read. -/
theorem records_cut {front back : List UInt8} (hrecord : Storable formats record)
    (hdim : record.vector.length < 2 ^ 32) (hsplit : encodeRecord formats record = front ++ back)
    (hback : back ≠ []) (hlong : 4 ≤ front.length) (hstorable : ∀ r ∈ rs, Storable formats r)
    (hshort : ∀ r ∈ rs, r.vector.length < 2 ^ 32) {n : Nat} {read : List (VectorRecord F)}
    (hread : BinaryReader.records formats n (encodeRecords formats rs ++ front) = .ok (read, rest)) :
    read.length = n := by
  induction rs generalizing n read rest with
  | nil =>
    cases n with
    | zero =>
      rw [← (Prod.mk.inj (Except.ok.inj hread)).1]
      rfl
    | succ n =>
      have hlen : (leBytes 4 (utf8 record.id).length).length = 4 := length_leBytes 4 _
      have hsize : (utf8 record.id).length < 256 ^ 4 := by
        rw [length_utf8]
        exact hrecord.id
      have htake : front.take 4 = leBytes 4 (utf8 record.id).length := by
        have hwhole := congrArg (List.take 4) hsplit
        rw [encodeRecord_eq, List.take_left' hlen, List.take_append_of_le_length hlong] at hwhole
        exact hwhole.symm
      have hdrop : fieldBytes formats record = front.drop 4 ++ back := by
        have hwhole := congrArg (List.drop 4) hsplit
        rw [encodeRecord_eq, List.drop_left' hlen, List.drop_append_of_le_length hlong] at hwhole
        exact hwhole
      obtain ⟨e, herror⟩ := (fields_local _).cut (hrecord.reads_fields hdim) hdrop hback
      rw [encodeRecords, List.flatMap_nil, List.nil_append, BinaryReader.records,
        if_neg (Nat.not_lt.mpr hlong), htake, leNat_leBytes_of_lt hsize, herror] at hread
      exact absurd hread (by simp)
  | cons first rs ih =>
    obtain ⟨hfirst, hrs⟩ := List.forall_mem_cons.mp hstorable
    obtain ⟨hfirstDim, hdims⟩ := List.forall_mem_cons.mp hshort
    cases n with
    | zero =>
      rw [← (Prod.mk.inj (Except.ok.inj hread)).1]
      rfl
    | succ n =>
      rw [encodeRecords, List.flatMap_cons, List.append_assoc, ← encodeRecords,
        records_cons hfirst hfirstDim] at hread
      obtain ⟨r, hmore, heq⟩ := map_eq_ok hread
      rw [← (Prod.mk.inj heq).1, List.length_cons, ih hrs hdims hmore]

/-! ## Reading to the end -/

theorem length_records_le {n : Nat} (hread : BinaryReader.records formats n bytes = .ok (rs, rest)) :
    rs.length ≤ n := by
  induction n generalizing bytes rs rest with
  | zero =>
    rw [← (Prod.mk.inj (Except.ok.inj hread)).1]
    exact Nat.le_refl 0
  | succ n ih =>
    rw [BinaryReader.records] at hread
    split at hread
    · rw [← (Prod.mk.inj (Except.ok.inj hread)).1]
      exact Nat.zero_le _
    · split at hread
      · exact absurd hread (by simp)
      · obtain ⟨r, hmore, heq⟩ := map_eq_ok hread
        rw [← (Prod.mk.inj heq).1, List.length_cons]
        exact Nat.succ_le_succ (ih hmore)

theorem length_readBatch_le {file : Option (List UInt8)} {reader reader' : BinaryReader} {n : Nat}
    {batch : List (VectorRecord F)}
    (hread : BinaryReader.readBatch formats file reader n = .ok (batch, reader')) :
    batch.length ≤ n := by
  obtain ⟨_, -, hread⟩ := bind_eq_ok hread
  obtain ⟨⟨read, rest⟩, hrecords, hread⟩ := bind_eq_ok hread
  rw [← (Prod.mk.inj (Except.ok.inj hread)).1]
  exact length_records_le hrecords

/-- Readings that come to an empty batch have asked for more than they got. -/
theorem readBatches_asked {file : Option (List UInt8)} {reader reader' : BinaryReader}
    {sizes : List Nat} (hsizes : ∀ n ∈ sizes, 1 ≤ n) {batches : List (List (VectorRecord F))}
    (hread : BinaryReader.readBatches formats file reader sizes = .ok (batches, reader'))
    (hlast : batches.getLast? = some []) : batches.flatten.length < sizes.sum := by
  induction sizes generalizing reader reader' batches with
  | nil =>
    obtain ⟨rfl, -⟩ := Prod.mk.inj (Except.ok.inj hread)
    exact absurd hlast (by simp)
  | cons n sizes ih =>
    obtain ⟨hpos, hmore⟩ := List.forall_mem_cons.mp hsizes
    obtain ⟨⟨batch, mid⟩, hfirst, hread⟩ := bind_eq_ok hread
    obtain ⟨⟨more, last⟩, hrest, hread⟩ := bind_eq_ok hread
    obtain ⟨rfl, -⟩ := Prod.mk.inj (Except.ok.inj hread)
    have hbatch := length_readBatch_le hfirst
    rw [List.flatten_cons, List.length_append, List.sum_cons]
    cases more with
    | nil =>
      obtain rfl : batch = [] := Option.some.inj hlast
      show 0 + 0 < n + sizes.sum
      omega
    | cons next more =>
      rw [List.getLast?_cons_cons] at hlast
      have hless := ih hmore hrest hlast
      omega

/-- Where the cut leaves fewer than four bytes of a record, the reading ends there. -/
theorem readBatches_unseen {count : Nat} {front : List UInt8} (hcount : count < 2 ^ 64)
    (hfront : front.length < 4) (hk : rs.length < count) (hstorable : ∀ r ∈ rs, Storable formats r)
    (hshort : ∀ r ∈ rs, r.vector.length < 2 ^ 32) :
    ∃ reader, BinaryReader.readBatches formats
      (some (headerBytes count ++ (encodeRecords formats rs ++ front))) BinaryReader.new [count, 1] =
        .ok ([rs, []], reader) := by
  have hdrop : (headerBytes count ++ (encodeRecords formats rs ++ front)).drop 16 =
      encodeRecords formats rs ++ front := List.drop_left' (length_headerBytes count)
  have hrecords := records_encodeRecords hstorable hshort hfront count
  rw [if_neg (by omega), List.take_of_length_le (by omega), ← hdrop] at hrecords
  rw [readBatches_new (reads_header hcount _) (by simp)]
  generalize headerBytes count ++ (encodeRecords formats rs ++ front) = bytes at hrecords
  have hfirst : BinaryReader.readBatch formats (some bytes) (behindHeader count) count =
      .ok (rs, { behindHeader count with currentOffset := bytes.length }) := by
    rw [BinaryReader.readBatch_eq rfl]
    show (BinaryReader.records formats count (bytes.drop 16)).map _ = _
    rw [hrecords]
    rfl
  have hsecond : BinaryReader.readBatch formats (some bytes)
      { behindHeader count with currentOffset := bytes.length } 1 =
        .ok ([], { behindHeader count with currentOffset := bytes.length }) := by
    rw [BinaryReader.readBatch_eq rfl]
    show (BinaryReader.records formats 1 (bytes.drop bytes.length)).map _ = _
    rw [List.drop_length]
    rfl
  refine ⟨{ behindHeader count with currentOffset := bytes.length }, ?_⟩
  rw [BinaryReader.readBatches, hfirst]
  show (BinaryReader.readBatches formats (some bytes) _ [1] >>= fun r => _) = _
  rw [BinaryReader.readBatches, hsecond]
  rfl

/-- A cut is noticed unless it leaves a record fewer than four bytes. -/
theorem noneMissing_iff (hcount : rs.length < 2 ^ 64) (hstorable : ∀ r ∈ rs, Storable formats r)
    (hshort : ∀ r ∈ rs, r.vector.length < 2 ^ 32) {cut : Nat}
    (hcut : cut < (headerBytes rs.length ++ encodeRecords formats rs).length) :
    NoneMissing formats (some ((headerBytes rs.length ++ encodeRecords formats rs).take cut))
      rs.length ↔ CutSeen formats rs cut := by
  have hsixteen := length_headerBytes rs.length
  rw [List.length_append, hsixteen] at hcut
  have hasked : ∀ {sizes : List Nat} {batches : List (List (VectorRecord F))} {reader : BinaryReader}
      {file : Option (List UInt8)},
      BinaryReader.readBatches formats file BinaryReader.new sizes = .ok (batches, reader) →
        batches.getLast? = some [] → sizes ≠ [] := by
    rintro sizes batches reader file hread hlast rfl
    rw [← (Prod.mk.inj (Except.ok.inj hread)).1] at hlast
    exact absurd hlast (by simp)
  rcases Nat.lt_or_ge cut 16 with hlt | hge
  · refine iff_of_true (fun sizes hsizes batches reader hread hlast => ?_)
      (fun k _ => Or.inl (by rw [startOf]; omega))
    obtain ⟨count, body, rest, hfile, -, -⟩ := readBatches_new_ok (hasked hread hlast) hread
    have hlength := congrArg List.length (Option.some.inj hfile)
    rw [List.length_take, List.length_append, List.length_append, hsixteen,
      length_headerBytes] at hlength
    omega
  · obtain ⟨k, hk, front, back, hback, htake, hsplit, hwhere⟩ :=
      exists_cut (show cut - 16 < (encodeRecords formats rs).length by omega)
    have hfile : (headerBytes rs.length ++ encodeRecords formats rs).take cut =
        headerBytes rs.length ++ (encodeRecords formats (rs.take k) ++ front) := by
      rw [List.take_append, List.take_of_length_le (by omega), hsixteen, htake]
    have hinside : front.length < (encodeRecord formats rs[k]).length := by
      have hpos := List.length_pos_iff.mpr hback
      rw [hsplit, List.length_append]
      omega
    have hfew : (rs.take k).length < rs.length := by
      rw [List.length_take]
      omega
    have hstorable' : ∀ r ∈ rs.take k, Storable formats r :=
      fun r hr => hstorable r (List.mem_of_mem_take hr)
    have hshort' : ∀ r ∈ rs.take k, r.vector.length < 2 ^ 32 :=
      fun r hr => hshort r (List.mem_of_mem_take hr)
    rw [cutSeen_iff hk (show cut = startOf formats rs k + front.length by omega) hinside, hfile]
    constructor
    · intro hnone
      by_contra hfront
      obtain ⟨reader, hread⟩ := readBatches_unseen hcount (Nat.lt_of_not_le hfront) hfew
        hstorable' hshort'
      have hle := hnone [rs.length, 1] (by simp; omega) _ _ hread rfl
      rw [List.flatten_cons, List.flatten_cons, List.flatten_nil, List.append_nil,
        List.append_nil] at hle
      omega
    · intro hlong sizes hsizes batches reader hread hlast
      obtain ⟨count, body, rest, hsame, hrecords, -⟩ := readBatches_new_ok (hasked hread hlast) hread
      have hbody : encodeRecords formats (rs.take k) ++ front = body := by
        have hdrop := congrArg (List.drop 16) (Option.some.inj hsame)
        rw [List.drop_left' hsixteen, List.drop_left' (length_headerBytes count)] at hdrop
        exact hdrop
      rw [← hbody] at hrecords
      have hsum := records_cut (hstorable _ (List.getElem_mem hk)) (hshort _ (List.getElem_mem hk))
        hsplit hback hlong hstorable' hshort' hrecords
      have hless := readBatches_asked hsizes hread hlast
      omega

/-- An export is dependable exactly when it has a record, or replaces an export that had none, no
vector has 2^32 components, and a cut does not leave a record fewer than four bytes. -/
theorem binary_round_trip_iff (before : Option (List UInt8))
    {batches : List (List (VectorRecord F))} (hcount : batches.flatten.length < 2 ^ 64)
    (hstorable : ∀ r ∈ batches.flatten, Storable formats r) (cut : Nat) :
    Dependable formats (exported formats before batches) batches.flatten cut ↔
      (batches.flatten ≠ [] ∨ EmptyExport before) ∧
        (∀ r ∈ batches.flatten, r.vector.length < 2 ^ 32) ∧ CutSeen formats batches.flatten cut := by
  rw [exported_eq hcount]
  by_cases hnone : batches.flatten = []
  · rw [if_pos hnone, hnone]
    constructor
    · intro hdependable
      exact ⟨Or.inr (readsBack_nil_iff.mp hdependable.readsBack),
        fun _ hmem => absurd hmem List.not_mem_nil, fun k hk => absurd hk (Nat.not_lt_zero k)⟩
    · rintro ⟨hempty, -, -⟩
      exact
        { readsBack := readsBack_nil_iff.mpr (hempty.resolve_left fun hne => hne rfl)
          noneMissing := fun _ _ _ _ _ _ _ _ _ => Nat.zero_le _ }
  · rw [if_neg hnone]
    constructor
    · intro hdependable
      have hshort := hdependable.readsBack.dimensions
      refine ⟨Or.inl hnone, hshort, ?_⟩
      rcases Nat.lt_or_ge cut (headerBytes batches.flatten.length ++
          encodeRecords formats batches.flatten).length with hlt | hge
      · exact (noneMissing_iff hcount hstorable hshort hlt).mp (hdependable.noneMissing _ rfl hlt)
      · intro k hk
        have hend := startOf_lt formats hk (Nat.le_refl _)
        rw [List.length_append, length_headerBytes] at hge
        rw [startOf, startOf, List.take_length] at hend
        exact Or.inr (by rw [startOf]; omega)
    · rintro ⟨-, hshort, hseen⟩
      have hback := readsBack_of_whole hcount hstorable hshort (show ([] : List UInt8).length < 4 by decide)
      rw [List.append_nil] at hback
      refine { readsBack := hback, noneMissing := fun bytes hbytes hlt => ?_ }
      rw [← Option.some.inj hbytes] at hlt ⊢
      exact (noneMissing_iff hcount hstorable hshort hlt).mpr hseen

def plainFormats : RecordFormats Unit where
  metadataToVec _ := [0x7B, 0x7D]
  metadataFromSlice bytes := if bytes = [0x7B, 0x7D] then .ok SortedMap.empty else .error "expected value"
  utf8Error _ := "invalid utf-8 sequence"

def plainRecord : VectorRecord Unit := { id := "a", vector := [0x3F800000], metadata := SortedMap.empty }

def plainBatches : List (List (VectorRecord Unit)) :=
  [[plainRecord], [{ plainRecord with id := "b", vector := [0x3F800000, 0] },
    { plainRecord with id := "c", vector := [] }]]

theorem plainRecord_storable : ∀ r ∈ plainBatches.flatten, Storable plainFormats r := by
  intro r hr
  rcases List.mem_cons.mp hr with rfl | hr
  · exact { id := by decide, metadata := by decide, written := by decide, reads := rfl }
  rcases List.mem_cons.mp hr with rfl | hr
  · exact { id := by decide, metadata := by decide, written := by decide, reads := rfl }
  · rw [List.mem_singleton.mp hr]
    exact { id := by decide, metadata := by decide, written := by decide, reads := rfl }

/-- Cut behind the length of the second id. -/
theorem binary_round_trip_plain :
    Dependable plainFormats (exported plainFormats none plainBatches) plainBatches.flatten 39 :=
  (binary_round_trip_iff none (show plainBatches.flatten.length < 2 ^ 64 by decide)
    plainRecord_storable 39).mpr
    ⟨Or.inl (by decide), by decide, by unfold CutSeen; decide⟩

/-- Cut behind the header, a file reads as one without records, and an export without records leaves
nothing to read. -/
theorem not_binary_round_trip_plain :
    Storable plainFormats plainRecord ∧
      ¬ Dependable plainFormats (exported plainFormats none [[plainRecord]]) [plainRecord] 16 ∧
      ¬ Dependable plainFormats (exported plainFormats none []) [] 0 := by
  have hstorable : ∀ r ∈ [plainRecord], Storable plainFormats r := fun r hr =>
    plainRecord_storable r (List.mem_append_left _ hr)
  refine ⟨hstorable _ (by simp), fun hdependable => ?_, fun hdependable => ?_⟩
  · have hcount : [plainRecord].length < 2 ^ 64 := by decide
    rw [exported_eq (show [[plainRecord]].flatten.length < 2 ^ 64 from hcount),
      if_neg (by simp)] at hdependable
    have hlength : 16 < (headerBytes 1 ++ encodeRecords plainFormats [plainRecord]).length := by
      decide
    have hseen := (noneMissing_iff hcount hstorable (by decide) hlength).mp
      (hdependable.noneMissing _ rfl hlength)
    have hfirst : 16 < 16 ∨ 16 + 4 ≤ 16 := hseen 0 (by decide)
    omega
  · obtain ⟨tail, hfile, -⟩ := readsBack_nil_iff.mp hdependable.readsBack
    exact absurd hfile (by simp [exported, BinaryWriter.new, BinaryWriter.finalize])

end Migration
end RTDB
