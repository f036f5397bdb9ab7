import Mathlib.Algebra.GroupWithZero.Nat
import RTDB.Storage.WalRoundTrip

/-!
# A torn tail

A crash cuts the last file anywhere.  The reading loop stops without an error
where a frame is not complete; but a log that is opened again is written behind
the torn bytes, and the loop then takes what follows for the rest of the frame.
-/

namespace RTDB
namespace Storage

open Bytes Outcomes

variable {crc : List UInt8 → UInt32}

/-! ## What the reading loop takes -/

/-- The frame of a record with any of the four types: the loop does not look at
it. -/
def typedFrame (crc : List UInt8 → UInt32) (t : EntryType) (d : List UInt8) : List UInt8 :=
  EntryHeader.encode { crc := crc d, entryType := t, length := d.length } ++ d

def Stops (rest : List UInt8) : Prop :=
  rest.length < 8 ∨ ∃ header, EntryHeader.decode (rest.take 8) = .ok header ∧
    (rest.drop 8).length < header.length

/-- The bytes begin with the frames of the records `ds`, and then the loop
stops. -/
inductive Reads (crc : List UInt8 → UInt32) : List UInt8 → List (List UInt8) → Prop
  | stop {rest : List UInt8} (hstop : Stops rest) : Reads crc rest []
  | frame (t : EntryType) {d rest : List UInt8} {ds : List (List UInt8)}
      (hd : d.length < 2 ^ 24) (hrest : Reads crc rest ds) :
      Reads crc (typedFrame crc t d ++ rest) (d :: ds)

theorem Reads.small {bytes : List UInt8} {ds : List (List UInt8)} (hreads : Reads crc bytes ds) :
    ∀ d ∈ ds, d.length < 2 ^ 24 := by
  induction hreads with
  | stop hstop => exact fun d hd => absurd hd List.not_mem_nil
  | frame t hd hrest ih => exact List.forall_mem_cons.mpr ⟨hd, ih⟩

theorem Reads.length_le {bytes : List UInt8} {ds : List (List UInt8)}
    (hreads : Reads crc bytes ds) : (ds.flatMap (Storage.frame crc)).length ≤ bytes.length := by
  induction hreads with
  | stop hstop => exact Nat.zero_le _
  | frame t hd hrest ih =>
    rw [List.flatMap_cons, List.length_append, List.length_append, frame_length, typedFrame,
      List.length_append, encode_length]
    omega

/-- Complete frames in front change nothing. -/
theorem Reads.frames {rest : List UInt8} {ds ds' : List (List UInt8)}
    (hsmall : ∀ d ∈ ds, d.length < 2 ^ 24) (hrest : Reads crc rest ds') :
    Reads crc (ds.flatMap (Storage.frame crc) ++ rest) (ds ++ ds') := by
  induction ds with
  | nil => exact hrest
  | cons d ds ih =>
    obtain ⟨hd, hds⟩ := List.forall_mem_cons.mp hsmall
    rw [List.flatMap_cons, List.append_assoc]
    exact .frame .full hd (ih hds)

theorem fromU8_eq_some {v : UInt8} {t : EntryType} (hv : EntryType.fromU8 v = some t) :
    t.toU8 = v := by
  unfold EntryType.fromU8 at hv
  split at hv
  · rename_i h; rw [h, ← Option.some.inj hv]; rfl
  · split at hv
    · rename_i h; rw [h, ← Option.some.inj hv]; rfl
    · split at hv
      · rename_i h; rw [h, ← Option.some.inj hv]; rfl
      · split at hv
        · rename_i h; rw [h, ← Option.some.inj hv]; rfl
        · exact absurd hv (by simp)

/-- A header that is read is the one that was written. -/
theorem encode_of_decode {bytes : List UInt8} {header : EntryHeader} (hlen : bytes.length = 8)
    (hdecode : EntryHeader.decode bytes = .ok header) :
    header.encode = bytes ∧ header.length < 2 ^ 24 := by
  obtain ⟨b₀, b₁, b₂, b₃, b₄, b₅, b₆, b₇, rfl⟩ :
      ∃ b₀ b₁ b₂ b₃ b₄ b₅ b₆ b₇, bytes = [b₀, b₁, b₂, b₃, b₄, b₅, b₆, b₇] := by
    match bytes, hlen with
    | [b₀, b₁, b₂, b₃, b₄, b₅, b₆, b₇], _ => exact ⟨_, _, _, _, _, _, _, _, rfl⟩
  rw [EntryHeader.decode, if_neg (by rw [hlen]; decide)] at hdecode
  cases htype : EntryType.fromU8 b₄ with
  | none =>
    simp only [List.getD_cons_succ, List.getD_cons_zero, htype] at hdecode
    exact absurd hdecode (by simp)
  | some t =>
    simp only [List.getD_cons_succ, List.getD_cons_zero, htype] at hdecode
    rw [← Except.ok.inj hdecode]
    have hcrc : leNat [b₀, b₁, b₂, b₃] < 2 ^ 32 := by
      have hpow : 256 ^ 4 = 2 ^ 32 := by decide
      rw [← hpow]
      exact leNat_lt [b₀, b₁, b₂, b₃]
    have hlength : leNat [b₅, b₆, b₇] < 2 ^ 24 := by
      have hpow : 256 ^ 3 = 2 ^ 24 := by decide
      rw [← hpow]
      exact leNat_lt [b₅, b₆, b₇]
    have hback : (UInt32.ofNat (leNat [b₀, b₁, b₂, b₃])).toNat = leNat [b₀, b₁, b₂, b₃] := by
      rw [UInt32.toNat_ofNat', Nat.mod_eq_of_lt hcrc]
    refine ⟨?_, hlength⟩
    show leBytes 4 (UInt32.ofNat (leNat [b₀, b₁, b₂, b₃])).toNat ++ [t.toU8] ++
      (leBytes 4 (leNat [b₅, b₆, b₇])).take 3 = _
    have hfour : leBytes 4 (leNat [b₀, b₁, b₂, b₃]) = [b₀, b₁, b₂, b₃] :=
      leBytes_leNat [b₀, b₁, b₂, b₃]
    have hthree : leBytes 3 (leNat [b₅, b₆, b₇]) = [b₅, b₆, b₇] := leBytes_leNat [b₅, b₆, b₇]
    rw [hback, fromU8_eq_some htype, take_leBytes _ (show 3 ≤ 4 by decide), hfour, hthree]
    rfl

theorem readRecords_typed (fuel offset : Nat) (t : EntryType) {d : List UInt8} (rest : List UInt8)
    (hd : d.length < 2 ^ 24) :
    readRecords crc (fuel + 1) offset (typedFrame crc t d ++ rest) =
      (readRecords crc fuel (offset + 8 + d.length) rest).map (WALEntry.mk d :: ·) := by
  have hlen := encode_length { crc := crc d, entryType := t, length := d.length }
  rw [readRecords, typedFrame, List.append_assoc, if_neg (by rw [List.length_append]; omega),
    List.take_left' hlen, List.drop_left' hlen, decode_encode]
  simp only [Nat.mod_eq_of_lt hd]
  rw [if_neg (by rw [List.length_append]; omega), List.take_left' rfl, List.drop_left' rfl,
    if_neg (by simp)]

/-- What the loop reads, as a relation on the bytes. -/
theorem readRecords_ok_iff {fuel offset : Nat} {bytes : List UInt8} {ds : List (List UInt8)}
    (hfuel : bytes.length ≤ fuel) :
    readRecords crc fuel offset bytes = .ok (ds.map WALEntry.mk) ↔ Reads crc bytes ds := by
  constructor
  · induction fuel generalizing offset bytes ds with
    | zero =>
      intro hread
      obtain rfl : ds = [] := List.map_eq_nil_iff.mp (Except.ok.inj hread).symm
      exact .stop (Or.inl (by omega))
    | succ fuel ih =>
      intro hread
      rw [readRecords] at hread
      split at hread
      · rename_i hshort
        obtain rfl : ds = [] := List.map_eq_nil_iff.mp (Except.ok.inj hread).symm
        exact .stop (Or.inl hshort)
      · rename_i hlong
        have hhead : (bytes.take 8).length = 8 := by
          rw [List.length_take]
          omega
        cases hdecode : EntryHeader.decode (bytes.take 8) with
        | error e =>
          rw [hdecode] at hread
          exact absurd hread (by simp)
        | ok header =>
          simp only [hdecode] at hread
          obtain ⟨hencode, hsmall⟩ := encode_of_decode hhead hdecode
          split at hread
          · rename_i hcut
            obtain rfl : ds = [] := List.map_eq_nil_iff.mp (Except.ok.inj hread).symm
            exact .stop (Or.inr ⟨header, hdecode, hcut⟩)
          · rename_i hwhole
            split at hread
            · exact absurd hread (by simp)
            · rename_i hcrc
              obtain ⟨es, hes, hds⟩ := map_eq_ok hread
              obtain ⟨d, ds, rfl, hd, rfl⟩ := List.map_eq_cons_iff.mp hds.symm
              have hdata : (bytes.drop 8).take header.length = d := (WALEntry.mk.inj hd).symm
              have hlen : d.length = header.length := by
                rw [← hdata, List.length_take]
                omega
              have hframe : typedFrame crc header.entryType d = bytes.take 8 ++ d := by
                rw [typedFrame, ← hencode, hlen, ← hdata, not_not.mp hcrc]
              have hsplit : bytes = typedFrame crc header.entryType d ++
                  (bytes.drop 8).drop header.length := by
                rw [hframe, List.append_assoc, ← hdata, List.take_append_drop,
                  List.take_append_drop]
              rw [hsplit]
              refine .frame header.entryType (hlen ▸ hsmall) (ih ?_ hes)
              rw [List.length_drop, List.length_drop]
              omega
  · intro hreads
    induction hreads generalizing fuel offset with
    | @stop rest hstop =>
      cases fuel with
      | zero => rfl
      | succ fuel =>
        rw [readRecords]
        split
        · rfl
        · rename_i hlong
          obtain ⟨header, hdecode, hcut⟩ := hstop.resolve_left hlong
          simp only [hdecode]
          rw [if_pos hcut]
          rfl
    | @frame t d rest ds hd hrest ih =>
      rw [typedFrame, List.length_append, List.length_append, encode_length] at hfuel
      obtain ⟨f, rfl⟩ : ∃ f, fuel = f + 1 := ⟨fuel - 1, by omega⟩
      rw [readRecords_typed f offset t rest hd, ih (by omega)]
      rfl

/-- Behind complete frames the loop reads on as if it began there. -/
theorem reads_frames_iff {rest : List UInt8} {ds ds' : List (List UInt8)} :
    Reads crc (ds.flatMap (frame crc) ++ rest) (ds ++ ds') ↔
      (∀ d ∈ ds, d.length < 2 ^ 24) ∧ Reads crc rest ds' := by
  constructor
  · intro hreads
    have hsmall := fun d hd => hreads.small d (List.mem_append_left ds' hd)
    obtain ⟨fuel, offset, hfuel, hread⟩ := readRecords_frames crc ds rest _ 0 hsmall (Nat.le_refl _)
    rw [(readRecords_ok_iff (Nat.le_refl _)).mpr hreads, List.map_append] at hread
    obtain ⟨es, hes, heq⟩ := map_eq_ok hread.symm
    obtain rfl := List.append_cancel_left heq
    exact ⟨hsmall, (readRecords_ok_iff hfuel).mp hes⟩
  · intro ⟨hsmall, hrest⟩
    exact hrest.frames hsmall

theorem readFile_reads {rest : List UInt8} {ds : List (List UInt8)} :
    readFile crc (fileHeader ++ rest) = .ok (ds.map WALEntry.mk) ↔ Reads crc rest ds := by
  have hmagic : leNat ((fileHeader ++ rest).take 4) = walMagic := by
    rw [List.take_append_of_le_length (by decide)]
    rfl
  rw [readFile, if_neg (by rw [List.length_append, fileHeader_length]; omega),
    if_neg (by rw [hmagic]; simp), List.drop_left' fileHeader_length]
  exact readRecords_ok_iff (by rw [List.length_append]; omega)

/-- No record that is read has `2 ^ 24` bytes. -/
theorem readFile_ok_small {bytes : List UInt8} {es : List WALEntry}
    (hread : readFile crc bytes = .ok es) : ∀ e ∈ es, e.data.length < 2 ^ 24 := by
  have hes : es = (es.map WALEntry.data).map WALEntry.mk := by
    rw [List.map_map]
    exact (List.map_id es).symm
  rw [readFile] at hread
  split at hread
  · obtain rfl := Except.ok.inj hread
    exact fun e he => absurd he List.not_mem_nil
  · split at hread
    · exact absurd hread (by simp)
    · rw [hes, readRecords_ok_iff (by rw [List.length_drop]; omega)] at hread
      intro e he
      exact hread.small e.data (List.mem_map_of_mem he)

theorem readAll_ok_small {files : List (List UInt8)} {es : List WALEntry}
    (hread : readAll crc files = .ok es) : ∀ e ∈ es, e.data.length < 2 ^ 24 := by
  induction files generalizing es with
  | nil =>
    obtain rfl := Except.ok.inj hread
    exact fun e he => absurd he List.not_mem_nil
  | cons bytes files ih =>
    obtain ⟨entries, es', hfile, hrest, rfl⟩ := readAll_cons_ok.mp hread
    exact List.forall_mem_append.mpr ⟨readFile_ok_small hfile, ih hrest⟩

/-! ## A cut file -/

def fileLength (ds : List (List UInt8)) : Nat :=
  headerSize + (ds.map fun d => 8 + d.length).sum

theorem flatMap_frame_length (crc : List UInt8 → UInt32) (ds : List (List UInt8)) :
    (ds.flatMap (frame crc)).length = (ds.map fun d => 8 + d.length).sum := by
  rw [List.length_flatMap]
  simp only [frame_length]

theorem fileBytes_length (crc : List UInt8 → UInt32) (ds : List (List UInt8)) :
    (fileBytes crc ds).length = fileLength ds := by
  rw [fileBytes, List.length_append, fileHeader_length, flatMap_frame_length, fileLength]

/-- The records whose frames lie wholly within the first `room` bytes. -/
def whole (room : Nat) : List (List UInt8) → List (List UInt8)
  | [] => []
  | d :: ds => if 8 + d.length ≤ room then d :: whole (room - (8 + d.length)) ds else []

/-- What a cut after `c` bytes leaves of the record it goes through. -/
def torn (crc : List UInt8 → UInt32) (c : Nat) (ds : List (List UInt8)) : List UInt8 :=
  ((fileBytes crc ds).take c).drop (fileLength (whole (c - headerSize) ds))

theorem take_frames (crc : List UInt8 → UInt32) (ds : List (List UInt8)) (room : Nat) :
    (ds.flatMap (frame crc)).take room = (whole room ds).flatMap (frame crc) ++
      ((ds.flatMap (frame crc)).take room).drop ((whole room ds).flatMap (frame crc)).length := by
  induction ds generalizing room with
  | nil => simp [whole]
  | cons d ds ih =>
    rw [whole]
    split
    · rename_i hfits
      have hroom : room = (frame crc d).length + (room - (8 + d.length)) := by
        rw [frame_length]
        omega
      have htake : ((d :: ds).flatMap (frame crc)).take room =
          frame crc d ++ (ds.flatMap (frame crc)).take (room - (8 + d.length)) := by
        rw [List.flatMap_cons, hroom, List.take_length_add_append, frame_length,
          Nat.add_sub_cancel_left]
      rw [htake, List.flatMap_cons, List.length_append, List.drop_length_add_append,
        List.append_assoc, ← ih]
    · rw [List.flatMap_nil, List.length_nil, List.drop_zero, List.nil_append]

theorem take_fileBytes {c : Nat} (hc : headerSize ≤ c) (ds : List (List UInt8)) :
    (fileBytes crc ds).take c =
      fileBytes crc (whole (c - headerSize) ds) ++ torn crc c ds := by
  have hcut : c = fileHeader.length + (c - headerSize) := by
    rw [fileHeader_length]
    omega
  have htake : (fileBytes crc ds).take c =
      fileHeader ++ (ds.flatMap (frame crc)).take (c - headerSize) := by
    rw [fileBytes, hcut, List.take_length_add_append, fileHeader_length, Nat.add_sub_cancel_left]
  rw [torn, htake, ← fileBytes_length crc, fileBytes, List.length_append,
    List.drop_length_add_append, List.append_assoc, ← take_frames]

/-- New records can follow a cut after `c` bytes of a file with the records `ds`:
either not even the file header is whole and nothing is written behind it, or
what is left of the torn record begins, with the new frames behind it, with whole
frames of the new records, and no complete frame follows. -/
def Resumes (crc : List UInt8 → UInt32) (c : Nat) (ds fresh : List (List UInt8)) : Prop :=
  (c < headerSize ∧ fresh = []) ∨
    (headerSize ≤ c ∧ Reads crc (torn crc c ds ++ fresh.flatMap (frame crc)) fresh)

theorem whole_zero (ds : List (List UInt8)) : whole 0 ds = [] := by
  cases ds with
  | nil => rfl
  | cons d ds => rw [whole, if_neg (by omega)]

theorem readFile_headless {c : Nat} (hc : c < headerSize) (ds fresh : List (List UInt8)) :
    readFile crc ((fileBytes crc ds).take c ++ fresh.flatMap (frame crc)) =
      .ok (fresh.map WALEntry.mk) ↔ fresh = [] := by
  have htake : ((fileBytes crc ds).take c).length = c := by
    rw [List.length_take, fileBytes_length, fileLength]
    omega
  constructor
  · intro hread
    rw [readFile] at hread
    split at hread
    · exact List.map_eq_nil_iff.mp (Except.ok.inj hread).symm
    · rename_i hlong
      split at hread
      · exact absurd hread (by simp)
      · -- The new frames do not fit behind the sixteen bytes that are skipped.
        have hreads := (readRecords_ok_iff (by rw [List.length_drop]; omega)).mp hread
        have hle := hreads.length_le
        rw [List.length_drop, List.length_append, htake] at hle
        rw [List.length_append, htake] at hlong
        omega
  · rintro rfl
    rw [readFile, if_pos]
    · rfl
    · rw [List.flatMap_nil, List.append_nil, htake]
      exact hc

theorem readFile_cut {c : Nat} {ds fresh : List (List UInt8)} :
    readFile crc ((fileBytes crc ds).take c ++ fresh.flatMap (frame crc)) =
        .ok ((whole (c - headerSize) ds ++ fresh).map WALEntry.mk) ↔
      (∀ d ∈ whole (c - headerSize) ds, d.length < 2 ^ 24) ∧ Resumes crc c ds fresh := by
  rcases Nat.lt_or_ge c headerSize with hc | hc
  · have hnone : whole (c - headerSize) ds = [] := by
      rw [Nat.sub_eq_zero_of_le (Nat.le_of_lt hc), whole_zero]
    rw [hnone, List.nil_append, readFile_headless hc]
    constructor
    · exact fun hfresh => ⟨fun d hd => absurd hd List.not_mem_nil, Or.inl ⟨hc, hfresh⟩⟩
    · rintro ⟨-, ⟨-, hfresh⟩ | ⟨hc', -⟩⟩
      · exact hfresh
      · omega
  · rw [take_fileBytes hc, fileBytes, List.append_assoc, List.append_assoc, readFile_reads,
      reads_frames_iff]
    constructor
    · rintro ⟨hsmall, hreads⟩
      exact ⟨hsmall, Or.inr ⟨hc, hreads⟩⟩
    · rintro ⟨hsmall, ⟨hc', -⟩ | ⟨-, hreads⟩⟩
      · omega
      · exact ⟨hsmall, hreads⟩

/-! ## Where the records lie -/

structure Placement where
  closed : List (List (List UInt8))
  current : List (List UInt8)
  maxFileSize : Nat
  deriving DecidableEq, Repr

namespace Placement

def apply (p : Placement) : WalOp → Placement
  | .append data =>
    if data.length ≤ maxRecordSize then
      if fileLength p.current + (8 + data.length) > p.maxFileSize then
        { p with closed := p.closed ++ [p.current], current := [data] }
      else { p with current := p.current ++ [data] }
    else p
  | .reopen maxFileSize => { p with maxFileSize }

/-- The records wholly before a cut of the open file after `c` bytes. -/
def before (p : Placement) (c : Nat) : List (List UInt8) :=
  p.closed.flatten ++ whole (c - headerSize) p.current

end Placement

def place (maxFileSize : Nat) (ops : List WalOp) : Placement :=
  ops.foldl Placement.apply { closed := [], current := [], maxFileSize }

structure Placed (crc : List UInt8 → UInt32) (w : WAL) (p : Placement) : Prop where
  filed : Filed crc w p.closed p.current
  limit : w.maxFileSize = p.maxFileSize

theorem openAt_limit (dir : WalDir) (maxFileSize : Nat) :
    (WAL.openAt dir maxFileSize).maxFileSize = maxFileSize := by
  rw [WAL.openAt]
  cases dir[dir.keys.foldl max 0]? <;> rfl

theorem Placed.apply {w : WAL} {p : Placement} (hp : Placed crc w p) (op : WalOp) :
    Placed crc (op.apply crc w) (p.apply op) := by
  cases op with
  | reopen maxFileSize =>
    exact ⟨filed_iff.mpr ((filed_iff.mp hp.filed).openAt maxFileSize), openAt_limit _ _⟩
  | append data =>
    rw [Placement.apply]
    split
    · rename_i hd
      obtain ⟨w', position, happend⟩ := append_ok crc w hd
      obtain ⟨hlimit, hlayout⟩ := (filed_iff.mp hp.filed).append happend
      rw [fileBytes_length, hp.limit] at hlayout
      rw [WalOp.apply_append happend]
      split
      · rename_i hfull
        rw [if_pos hfull] at hlayout
        refine ⟨filed_iff.mpr ?_, hlimit.trans hp.limit⟩
        rw [List.map_append, ← List.nil_append [data], fileBytes_concat]
        exact hlayout
      · rename_i hfull
        rw [if_neg hfull] at hlayout
        refine ⟨filed_iff.mpr ?_, hlimit.trans hp.limit⟩
        rw [fileBytes_concat]
        exact hlayout
    · rename_i hd
      rw [WalOp.apply_too_large hd]
      exact hp

theorem place_placed (crc : List UInt8 → UInt32) (maxFileSize : Nat) (ops : List WalOp) :
    Placed crc (runWal crc maxFileSize ops) (place maxFileSize ops) := by
  have hrun : ∀ (w : WAL) (p : Placement), Placed crc w p →
      Placed crc (ops.foldl (WalOp.apply crc) w) (ops.foldl Placement.apply p) := by
    induction ops with
    | nil => exact fun w p hp => hp
    | cons op ops ih => exact fun w p hp => ih _ _ (hp.apply op)
  exact hrun _ _ ⟨openAt_empty_filed crc maxFileSize, openAt_limit _ _⟩

/-! ## Writing behind the cut -/

/-- The log after its open file was cut after `c` bytes. -/
def WAL.cut (w : WAL) (c : Nat) : WalDir :=
  w.dir.insert w.currentFileNo ((w.dir.getD w.currentFileNo []).take c)

/-- The records that go into an open file of `size` bytes, before the log takes
the next file. -/
def fitting (maxFileSize : Nat) : Nat → List (List UInt8) → List (List UInt8)
  | _, [] => []
  | size, d :: ds =>
    if size + (8 + d.length) > maxFileSize then []
    else d :: fitting maxFileSize (size + (8 + d.length)) ds

theorem Layout.cut {w : WAL} {files : List (List UInt8)} {last : List UInt8}
    (hl : Layout w files last) (c maxFileSize : Nat) :
    Layout (WAL.openAt (w.cut c) maxFileSize) files (last.take c) := by
  have hcut : Layout { w with dir := w.cut c, currentSize := (last.take c).length } files
      (last.take c) := by
    refine ⟨fun i => ?_, hl.current, rfl⟩
    show (w.dir.insert w.currentFileNo _)[i]? = _
    rw [hl.getD_last]
    exact hl.insert_files (last.take c) i
  exact hcut.openAt maxFileSize

/-- After some appends: the first records are behind the bytes of the open file,
the rest lie in files of their own. -/
theorem Layout.appends (crc : List UInt8 → UInt32) {w : WAL} {files : List (List UInt8)} {last : List UInt8}
    (hl : Layout w files last) (ds : List (List UInt8)) :
    ∃ (files' : List (List UInt8)) (last' : List UInt8) (later : List (List (List UInt8))),
      Layout ((ds.map WalOp.append).foldl (WalOp.apply crc) w) files' last' ∧
      files' ++ [last'] = files ++
        (last ++ (fitting w.maxFileSize last.length
          (appended (ds.map WalOp.append))).flatMap (Storage.frame crc)) ::
            later.map (fileBytes crc) ∧
      appended (ds.map WalOp.append) =
        fitting w.maxFileSize last.length (appended (ds.map WalOp.append)) ++ later.flatten := by
  induction ds generalizing w files last with
  | nil => exact ⟨files, last, [], hl, by simp [appended, fitting], rfl⟩
  | cons d ds ih =>
    rw [List.map_cons, List.foldl_cons, appended]
    split
    · rename_i hd
      obtain ⟨w', position, happend⟩ := append_ok crc w hd
      obtain ⟨hlimit, hlayout⟩ := hl.append happend
      rw [WalOp.apply_append happend, fitting]
      split
      · rename_i hfull
        rw [if_pos hfull] at hlayout
        obtain ⟨files', last', later, hl', hfiles, hall⟩ := ih hlayout
        rw [hlimit] at hfiles hall
        refine ⟨files', last', (d :: fitting w.maxFileSize (fileHeader ++ Storage.frame crc d).length
          (appended (ds.map WalOp.append))) :: later, hl', ?_, ?_⟩
        · rw [hfiles, List.map_cons, fileBytes, List.flatMap_cons, List.flatMap_nil,
            List.append_nil, List.append_assoc, List.append_assoc]
          rfl
        · rw [List.nil_append, List.flatten_cons, List.cons_append, ← hall]
      · rename_i hfull
        rw [if_neg hfull] at hlayout
        obtain ⟨files', last', later, hl', hfiles, hall⟩ := ih hlayout
        rw [hlimit, List.length_append, frame_length] at hfiles hall
        refine ⟨files', last', later, hl', ?_, ?_⟩
        · rw [hfiles, List.flatMap_cons, List.append_assoc]
        · rw [List.cons_append, ← hall]
    · rename_i hd
      rw [WalOp.apply_too_large hd]
      exact ih hl

/-! ## Where the cut falls -/

theorem whole_append (ds rest : List (List UInt8)) (room : Nat) :
    whole ((ds.map fun d => 8 + d.length).sum + room) (ds ++ rest) = ds ++ whole room rest := by
  induction ds with
  | nil => rw [List.map_nil, List.sum_nil, Nat.zero_add]; rfl
  | cons d ds ih =>
    rw [List.map_cons, List.sum_cons, List.cons_append, whole, if_pos (by omega), Nat.add_assoc,
      Nat.add_sub_cancel_left, ih]
    rfl

/-- A cut `k` bytes into the frame of the record `d`, or right before it. -/
theorem torn_within (crc : List UInt8 → UInt32) {d : List UInt8} {k : Nat}
    (hk : k < 8 + d.length)
    (ds rest : List (List UInt8)) :
    torn crc (fileLength ds + k) (ds ++ d :: rest) = (frame crc d).take k := by
  have hroom : fileLength ds + k - headerSize = (ds.map fun d => 8 + d.length).sum + k := by
    rw [fileLength]
    omega
  have hwhole : whole k (d :: rest) = [] := by rw [whole, if_neg (by omega)]
  rw [torn, hroom, whole_append, hwhole, List.append_nil, ← fileBytes_length crc, fileBytes,
    fileBytes, List.flatMap_append, ← List.append_assoc, List.take_length_add_append,
    List.drop_left' rfl, List.flatMap_cons, List.take_append_of_le_length]
  rw [frame_length]
  omega

/-- Where the header of the torn record is whole, the loop takes as many bytes as
it says, and a next record of another length is lost. -/
theorem not_reads_torn_header {d d' rest : List UInt8} {ds : List (List UInt8)} {k : Nat}
    (hd : d.length < 2 ^ 24) (hk : 8 ≤ k) (hlen : d'.length ≠ d.length) :
    ¬ Reads crc ((frame crc d).take k ++ rest) (d' :: ds) := by
  intro hreads
  generalize hbytes : (frame crc d).take k ++ rest = bytes at hreads
  cases hreads with
  | @frame t _ rest' _ hd' hrest' =>
    have htake : ((frame crc d).take k ++ rest).take 8 =
        EntryHeader.encode { crc := crc d, entryType := .full, length := d.length } := by
      have hframe : (frame crc d).take 8 =
          EntryHeader.encode { crc := crc d, entryType := .full, length := d.length } :=
        List.take_left' (encode_length _)
      rw [List.take_append_of_le_length, List.take_take, Nat.min_eq_left hk, hframe]
      rw [List.length_take, frame_length]
      omega
    have htake' : (typedFrame crc t d' ++ rest').take 8 =
        EntryHeader.encode { crc := crc d', entryType := t, length := d'.length } := by
      rw [typedFrame, List.append_assoc]
      exact List.take_left' (encode_length _)
    rw [hbytes, htake'] at htake
    have hdecode := congrArg EntryHeader.decode htake
    rw [decode_encode, decode_encode] at hdecode
    have hmod : d'.length % 2 ^ 24 = d.length % 2 ^ 24 :=
      congrArg EntryHeader.length (Except.ok.inj hdecode)
    rw [Nat.mod_eq_of_lt hd', Nat.mod_eq_of_lt hd] at hmod
    exact hlen hmod

/-! ## Torn-tail recovery -/

theorem Placed.cut_iff {w : WAL} {p : Placement} (hp : Placed crc w p) (c maxFileSize : Nat)
    (ds : List (List UInt8)) :
    ((ds.map WalOp.append).foldl (WalOp.apply crc)
        (WAL.openAt (w.cut c) maxFileSize)).readEntries crc =
      .ok ((p.before c ++ appended (ds.map WalOp.append)).map WALEntry.mk) ↔
    (∀ d ∈ p.before c ++ appended (ds.map WalOp.append), d.length < 2 ^ 24) ∧
      Resumes crc c p.current
        (fitting maxFileSize (min c (fileLength p.current))
          (appended (ds.map WalOp.append))) := by
  have hcut := (filed_iff.mp hp.filed).cut c maxFileSize
  obtain ⟨files', last', later, hl', hfiles, hall⟩ := hcut.appends crc ds
  rw [openAt_limit, List.length_take, fileBytes_length] at hfiles hall
  generalize hfresh : fitting maxFileSize (min c (fileLength p.current))
    (appended (ds.map WalOp.append)) = fresh at hfiles hall ⊢
  rw [hl'.readEntries, hfiles, hall, Placement.before]
  constructor
  · intro hread
    have hsmall : ∀ d ∈ p.closed.flatten ++ whole (c - headerSize) p.current ++
        (fresh ++ later.flatten), d.length < 2 ^ 24 :=
      fun d hd => readAll_ok_small hread (WALEntry.mk d) (List.mem_map_of_mem hd)
    refine ⟨hsmall, ?_⟩
    obtain ⟨⟨hclosed, -⟩, -, hlater⟩ : ((∀ d ∈ p.closed.flatten, d.length < 2 ^ 24) ∧
        ∀ d ∈ whole (c - headerSize) p.current, d.length < 2 ^ 24) ∧
        (∀ d ∈ fresh, d.length < 2 ^ 24) ∧ ∀ d ∈ later.flatten, d.length < 2 ^ 24 := by
      simpa only [List.forall_mem_append] using hsmall
    obtain ⟨es₁, es₂, hes₁, hes₂, heq⟩ := readAll_append_ok.mp hread
    obtain ⟨entries, es₃, hfile, hes₃, rfl⟩ := readAll_cons_ok.mp hes₂
    rw [readAll_small _ hclosed] at hes₁
    rw [readAll_small _ hlater] at hes₃
    obtain rfl := Except.ok.inj hes₁
    obtain rfl := Except.ok.inj hes₃
    have hentries : entries =
        (whole (c - headerSize) p.current ++ fresh).map WALEntry.mk := by
      simp only [List.map_append, List.append_assoc] at heq
      have htail := List.append_cancel_left heq
      rw [← List.append_assoc] at htail
      rw [List.map_append]
      exact (List.append_cancel_right htail).symm
    rw [hentries] at hfile
    exact (readFile_cut.mp hfile).2
  · rintro ⟨hsmall, hresumes⟩
    obtain ⟨⟨hclosed, hwhole⟩, -, hlater⟩ : ((∀ d ∈ p.closed.flatten, d.length < 2 ^ 24) ∧
        ∀ d ∈ whole (c - headerSize) p.current, d.length < 2 ^ 24) ∧
        (∀ d ∈ fresh, d.length < 2 ^ 24) ∧ ∀ d ∈ later.flatten, d.length < 2 ^ 24 := by
      simpa only [List.forall_mem_append] using hsmall
    rw [readAll_append_ok]
    refine ⟨_, _, readAll_small _ hclosed, readAll_cons_ok.mpr
      ⟨_, _, readFile_cut.mpr ⟨hwhole, hresumes⟩, readAll_small _ hlater, rfl⟩, ?_⟩
    simp only [List.map_append, List.append_assoc]

/-- The log comes back without the torn record and with every new one exactly
when all of them are shorter than `2 ^ 24` bytes and the new ones can follow the
cut. -/
theorem torn_tail_iff (crc : List UInt8 → UInt32) (maxFileSize : Nat) (ops : List WalOp)
    (c maxFileSize' : Nat) (ds : List (List UInt8)) :
    ((ds.map WalOp.append).foldl (WalOp.apply crc)
        (WAL.openAt ((runWal crc maxFileSize ops).cut c) maxFileSize')).readEntries crc =
      .ok (((place maxFileSize ops).before c ++ appended (ds.map WalOp.append)).map WALEntry.mk) ↔
    (∀ d ∈ (place maxFileSize ops).before c ++ appended (ds.map WalOp.append),
        d.length < 2 ^ 24) ∧
      Resumes crc c (place maxFileSize ops).current
        (fitting maxFileSize' (min c (fileLength (place maxFileSize ops).current))
          (appended (ds.map WalOp.append))) :=
  (place_placed crc maxFileSize ops).cut_iff c maxFileSize' ds

/-- CRC-32C, bit by bit. -/
def crc32c (data : List UInt8) : UInt32 :=
  let round (crc : UInt32) (byte : UInt8) : UInt32 :=
    (List.range 8).foldl
      (fun crc _ => if crc &&& 1 = 1 then (crc >>> 1) ^^^ 0x82F63B78 else crc >>> 1)
      (crc ^^^ byte.toUInt32)
  data.foldl round 0xFFFFFFFF ^^^ 0xFFFFFFFF

/-- The check value of the checksum. -/
example : crc32c [0x31, 0x32, 0x33, 0x34, 0x35, 0x36, 0x37, 0x38, 0x39] = 0xE3069283 := by
  decide +kernel

/-- A record of three bytes is cut behind its first byte, and a record of one
byte goes behind the torn bytes: whatever the checksum, it is not read back. -/
theorem cut_data_lost (crc : List UInt8 → UInt32) :
    ¬ (([[9]].map WalOp.append).foldl (WalOp.apply crc)
        (WAL.openAt ((runWal crc (2 ^ 26) [.append [1, 2, 3]]).cut 25) (2 ^ 26))).readEntries crc =
      .ok [WALEntry.mk [9]] := by
  intro hread
  have hplace : place (2 ^ 26) [.append [1, 2, 3]] =
      { closed := [], current := [[1, 2, 3]], maxFileSize := 2 ^ 26 } := by decide +kernel
  have hp := place_placed crc (2 ^ 26) [.append [1, 2, 3]]
  rw [hplace] at hp
  obtain ⟨-, hresumes⟩ := (hp.cut_iff 25 (2 ^ 26) [[9]]).mp hread
  rcases hresumes with ⟨hc, -⟩ | ⟨-, hreads⟩
  · exact absurd hc (by decide)
  · have htorn : torn crc 25 [[1, 2, 3]] = (frame crc [1, 2, 3]).take 9 :=
      torn_within crc (show 9 < 8 + [1, 2, 3].length by decide) [] []
    rw [htorn] at hreads
    exact not_reads_torn_header (by decide) (by decide) (by decide) hreads

theorem not_torn_tail_cut_data :
    ¬ (([[9]].map WalOp.append).foldl (WalOp.apply crc32c)
        (WAL.openAt ((runWal crc32c (2 ^ 26) [.append [1, 2, 3]]).cut 25)
          (2 ^ 26))).readEntries crc32c =
      .ok (((place (2 ^ 26) [.append [1, 2, 3]]).before 25 ++
        appended ([[9]].map WalOp.append)).map WALEntry.mk) :=
  cut_data_lost crc32c

end Storage
end RTDB
