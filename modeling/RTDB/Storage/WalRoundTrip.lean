import RTDB.Storage.WalLayout

/-!
# What the log gives back

The directory always holds the file header and the frames of the appended
records, file by file.  A record shorter than `2 ^ 24` bytes reads back; one of
exactly that length, which `append` still accepts, leaves a zero in the three
length bytes of its frame.
-/

namespace RTDB
namespace Storage

open Bytes

variable {crc : List UInt8 → UInt32}

/-! ## Frames -/

/-- What `append` writes for a record. -/
def frame (crc : List UInt8 → UInt32) (d : List UInt8) : List UInt8 :=
  EntryHeader.encode { crc := crc d, entryType := .full, length := d.length } ++ d

/-- A log file with the given records. -/
def fileBytes (crc : List UInt8 → UInt32) (ds : List (List UInt8)) : List UInt8 :=
  fileHeader ++ ds.flatMap (frame crc)

theorem encode_length (h : EntryHeader) : h.encode.length = 8 := by
  simp [EntryHeader.encode]

theorem fromU8_toU8 (t : EntryType) : EntryType.fromU8 t.toU8 = some t := by
  cases t <;> rfl

/-- The header comes back with its length modulo `2 ^ 24`. -/
theorem decode_encode (h : EntryHeader) :
    EntryHeader.decode h.encode = .ok { h with length := h.length % 2 ^ 24 } := by
  obtain ⟨b₀, b₁, b₂, b₃, hcrc⟩ : ∃ b₀ b₁ b₂ b₃, leBytes 4 h.crc.toNat = [b₀, b₁, b₂, b₃] :=
    ⟨_, _, _, _, rfl⟩
  obtain ⟨c₀, c₁, c₂, hlen⟩ : ∃ c₀ c₁ c₂, leBytes 3 h.length = [c₀, c₁, c₂] := ⟨_, _, _, rfl⟩
  have henc : h.encode = [b₀, b₁, b₂, b₃, h.entryType.toU8, c₀, c₁, c₂] := by
    rw [EntryHeader.encode, take_leBytes h.length (show 3 ≤ 4 by decide), hcrc, hlen]
    rfl
  have hcrc' : leNat [b₀, b₁, b₂, b₃] = h.crc.toNat := by
    rw [← hcrc, leNat_leBytes_of_lt (show h.crc.toNat < 256 ^ 4 from h.crc.toNat_lt)]
  have hlen' : leNat [c₀, c₁, c₂] = h.length % 2 ^ 24 := by
    have hpow : 256 ^ 3 = 2 ^ 24 := by decide
    rw [← hlen, leNat_leBytes, hpow]
  have htype : EntryType.fromU8 (h.encode.getD 4 0) = some h.entryType := by
    rw [henc]
    exact fromU8_toU8 h.entryType
  have hsize : ¬ h.encode.length < 8 := by rw [encode_length]; decide
  have hread : h.encode.take 4 = [b₀, b₁, b₂, b₃] ∧ (h.encode.drop 5).take 3 = [c₀, c₁, c₂] := by
    rw [henc]
    exact ⟨rfl, rfl⟩
  simp only [EntryHeader.decode, hsize, htype, hread, hcrc', hlen', if_false, UInt32.ofNat_toNat]

theorem frame_length (d : List UInt8) : (frame crc d).length = 8 + d.length := by
  rw [frame, List.length_append, encode_length]

theorem readRecords_frame (fuel offset : Nat) (d rest : List UInt8) :
    readRecords crc (fuel + 1) offset (frame crc d ++ rest) =
      if (d ++ rest).length < d.length % 2 ^ 24 then .ok []
      else if crc ((d ++ rest).take (d.length % 2 ^ 24)) ≠ crc d then
        .error (.storage ("CRC mismatch at offset " ++ toString offset))
      else (readRecords crc fuel (offset + 8 + d.length % 2 ^ 24)
        ((d ++ rest).drop (d.length % 2 ^ 24))).map
          (WALEntry.mk ((d ++ rest).take (d.length % 2 ^ 24)) :: ·) := by
  have hsplit : frame crc d ++ rest =
      EntryHeader.encode { crc := crc d, entryType := .full, length := d.length } ++
        (d ++ rest) := by
    rw [frame, List.append_assoc]
  have hlen := encode_length { crc := crc d, entryType := .full, length := d.length }
  rw [readRecords, hsplit, if_neg (by rw [List.length_append]; omega), List.take_left' hlen,
    List.drop_left' hlen, decode_encode]

theorem readRecords_small {fuel : Nat} (offset : Nat) {d : List UInt8} (rest : List UInt8)
    (hd : d.length < 2 ^ 24) :
    readRecords crc (fuel + 1) offset (frame crc d ++ rest) =
      (readRecords crc fuel (offset + 8 + d.length) rest).map (WALEntry.mk d :: ·) := by
  rw [readRecords_frame, Nat.mod_eq_of_lt hd, if_neg (by rw [List.length_append]; omega),
    List.take_left' rfl, List.drop_left' rfl, if_neg (by simp)]

/-- A record of `2 ^ 24` bytes reads as an empty one, if it passes the checksum. -/
theorem readRecords_big {fuel offset : Nat} {d rest : List UInt8} {es : List WALEntry}
    (hd : d.length = 2 ^ 24)
    (hread : readRecords crc (fuel + 1) offset (frame crc d ++ rest) = .ok es) :
    [WALEntry.mk []] <+: es := by
  rw [readRecords_frame, hd, Nat.mod_self, if_neg (by omega), List.take_zero] at hread
  split at hread
  · exact absurd hread (by simp)
  · cases hrest : readRecords crc fuel (offset + 8 + 0) ((d ++ rest).drop 0) with
    | error e =>
      rw [hrest] at hread
      exact absurd hread (by simp [Except.map])
    | ok es' =>
      rw [hrest] at hread
      obtain rfl : WALEntry.mk [] :: es' = es := Except.ok.inj hread
      exact List.prefix_append [WALEntry.mk []] es'

theorem readRecords_nil (fuel offset : Nat) : readRecords crc fuel offset [] = .ok [] := by
  cases fuel <;> rfl

/-- Reading through the frames of small records. -/
theorem readRecords_frames (crc : List UInt8 → UInt32) (ds : List (List UInt8)) (rest : List UInt8)
    (fuel offset : Nat) (hds : ∀ d ∈ ds, d.length < 2 ^ 24)
    (hfuel : (ds.flatMap (frame crc) ++ rest).length ≤ fuel) :
    ∃ fuel' offset', rest.length ≤ fuel' ∧
      readRecords crc fuel offset (ds.flatMap (frame crc) ++ rest) =
        (readRecords crc fuel' offset' rest).map (ds.map WALEntry.mk ++ ·) := by
  induction ds generalizing fuel offset with
  | nil =>
    refine ⟨fuel, offset, hfuel, ?_⟩
    show readRecords crc fuel offset rest = (readRecords crc fuel offset rest).map (fun x => x)
    cases readRecords crc fuel offset rest <;> rfl
  | cons d ds ih =>
    have hd := hds d List.mem_cons_self
    rw [List.flatMap_cons, List.append_assoc, List.length_append, frame_length] at hfuel
    obtain ⟨f, rfl⟩ : ∃ f, fuel = f + 1 := ⟨fuel - 1, by omega⟩
    obtain ⟨fuel', offset', hfuel', hread⟩ := ih f (offset + 8 + d.length)
      (fun d' hd' => hds d' (List.mem_cons_of_mem d hd')) (by omega)
    refine ⟨fuel', offset', hfuel', ?_⟩
    rw [List.flatMap_cons, List.append_assoc, readRecords_small offset _ hd, hread]
    cases readRecords crc fuel' offset' rest <;> rfl

/-! ## Files -/

theorem fileHeader_length : fileHeader.length = headerSize := rfl

theorem readFile_eq (ds : List (List UInt8)) :
    readFile crc (fileBytes crc ds) = readRecords crc (fileBytes crc ds).length headerSize
      (ds.flatMap (frame crc)) := by
  have hmagic : leNat ((fileBytes crc ds).take 4) = walMagic := by
    rw [fileBytes, List.take_append_of_le_length (by decide)]
    rfl
  rw [readFile, if_neg, if_neg (by rw [hmagic]; simp)]
  · rw [fileBytes, List.drop_left' fileHeader_length]
  · rw [fileBytes, List.length_append, fileHeader_length]
    omega

theorem flatMap_length_le (crc : List UInt8 → UInt32) (ds : List (List UInt8)) :
    (ds.flatMap (frame crc)).length ≤ (fileBytes crc ds).length := by
  rw [fileBytes, List.length_append]
  omega

theorem readFile_small {ds : List (List UInt8)} (hds : ∀ d ∈ ds, d.length < 2 ^ 24) :
    readFile crc (fileBytes crc ds) = .ok (ds.map WALEntry.mk) := by
  obtain ⟨fuel, offset, -, hread⟩ := readRecords_frames crc ds []
    (fileBytes crc ds).length headerSize hds (by
      rw [List.append_nil]
      exact flatMap_length_le crc ds)
  rw [List.append_nil, readRecords_nil] at hread
  rw [readFile_eq, hread]
  show Except.ok (ds.map WALEntry.mk ++ []) = _
  rw [List.append_nil]

/-- What a file gives back starts with its records up to the first of `2 ^ 24`
bytes, and then holds an empty one. -/
theorem readFile_big {before after : List (List UInt8)} {big : List UInt8} {es : List WALEntry}
    (hbefore : ∀ d ∈ before, d.length < 2 ^ 24) (hbig : big.length = 2 ^ 24)
    (hread : readFile crc (fileBytes crc (before ++ big :: after)) = .ok es) :
    before.map WALEntry.mk ++ [WALEntry.mk []] <+: es := by
  have hsplit : (before ++ big :: after).flatMap (frame crc) =
      before.flatMap (frame crc) ++ (frame crc big ++ after.flatMap (frame crc)) := by
    rw [List.flatMap_append, List.flatMap_cons]
  have hfuel := flatMap_length_le crc (before ++ big :: after)
  rw [readFile_eq, hsplit] at hread
  rw [hsplit] at hfuel
  obtain ⟨fuel, offset, hfuel', hframes⟩ :=
    readRecords_frames crc before _ _ headerSize hbefore hfuel
  rw [hframes] at hread
  rw [List.length_append, frame_length] at hfuel'
  obtain ⟨f, rfl⟩ : ∃ f, fuel = f + 1 := ⟨fuel - 1, by omega⟩
  cases hrest : readRecords crc (f + 1) offset (frame crc big ++ after.flatMap (frame crc)) with
  | error e =>
    rw [hrest] at hread
    exact absurd hread (by simp [Except.map])
  | ok es' =>
    rw [hrest] at hread
    obtain rfl : before.map WALEntry.mk ++ es' = es := Except.ok.inj hread
    exact (List.prefix_append_right_inj _).mpr (readRecords_big hbig hrest)

/-! ## The directory -/

/-- The log holds `parts`, the records of each file; the last file is `last`. -/
structure Filed (crc : List UInt8 → UInt32) (w : WAL) (parts : List (List (List UInt8)))
    (last : List (List UInt8)) : Prop where
  files : ∀ i : Nat, w.dir[i]? = ((parts ++ [last])[i]?).map (fileBytes crc)
  current : w.currentFileNo = parts.length
  size : w.currentSize = (fileBytes crc last).length

/-- The log holds exactly the records `ds`, in order. -/
def Holds (crc : List UInt8 → UInt32) (w : WAL) (ds : List (List UInt8)) : Prop :=
  ∃ parts last, Filed crc w parts last ∧ (parts ++ [last]).flatten = ds

theorem filed_iff {w : WAL} {parts : List (List (List UInt8))} {last : List (List UInt8)} :
    Filed crc w parts last ↔ Layout w (parts.map (fileBytes crc)) (fileBytes crc last) := by
  have hfiles : parts.map (fileBytes crc) ++ [fileBytes crc last] =
      (parts ++ [last]).map (fileBytes crc) := by
    rw [List.map_append, List.map_singleton]
  constructor
  · intro hf
    refine ⟨fun i => ?_, ?_, hf.size⟩
    · rw [hf.files, hfiles, List.getElem?_map]
    · rw [hf.current, List.length_map]
  · intro hl
    refine ⟨fun i => ?_, ?_, hl.size⟩
    · rw [hl.bytes, hfiles, List.getElem?_map]
    · rw [hl.current, List.length_map]

theorem Layout.frame {w : WAL} {files : List (List UInt8)} {last : List UInt8}
    (hl : Layout w files last) (d : List UInt8) :
    Layout ((w.write (EntryHeader.encode
      { crc := crc d, entryType := .full, length := d.length })).write d) files
        (last ++ Storage.frame crc d) := by
  rw [Storage.frame, ← List.append_assoc]
  exact (hl.write _).write d

theorem Layout.append {w w' : WAL} {files : List (List UInt8)} {last d : List UInt8}
    {position : Nat} (hl : Layout w files last) (happend : w.append crc d = .ok (w', position)) :
    w'.maxFileSize = w.maxFileSize ∧
      if last.length + (8 + d.length) > w.maxFileSize then
        Layout w' (files ++ [last]) (fileHeader ++ Storage.frame crc d)
      else Layout w' files (last ++ Storage.frame crc d) := by
  rw [WAL.append] at happend
  split at happend
  · exact absurd happend (by simp)
  · obtain ⟨rfl, -⟩ := Prod.mk.inj (Except.ok.inj happend)
    rw [hl.size]
    split
    · exact ⟨rfl, hl.rotate.frame d⟩
    · exact ⟨rfl, hl.frame d⟩

theorem fileBytes_concat (crc : List UInt8 → UInt32) (ds : List (List UInt8)) (d : List UInt8) :
    fileBytes crc (ds ++ [d]) = fileBytes crc ds ++ frame crc d := by
  rw [fileBytes, fileBytes, List.flatMap_append, List.flatMap_singleton, List.append_assoc]

theorem append_ok (crc : List UInt8 → UInt32) (w : WAL) {d : List UInt8}
    (hd : d.length ≤ maxRecordSize) :
    ∃ w' position, w.append crc d = .ok (w', position) := by
  rw [WAL.append, if_neg (by omega)]
  exact ⟨_, _, rfl⟩

theorem append_too_large {w : WAL} {d : List UInt8} (hd : ¬ d.length ≤ maxRecordSize) :
    w.append crc d = .error (.storage ("Record too large: " ++ toString d.length ++ " > " ++
      toString maxRecordSize)) := by
  rw [WAL.append, if_pos (by omega)]

theorem append_holds {w w' : WAL} {d : List UInt8} {ds : List (List UInt8)} {position : Nat}
    (hw : Holds crc w ds) (happend : w.append crc d = .ok (w', position)) :
    Holds crc w' (ds ++ [d]) ∧ d.length ≤ maxRecordSize := by
  obtain ⟨parts, last, hf, hflat⟩ := hw
  constructor
  · have hlayout := ((filed_iff.mp hf).append happend).2
    split at hlayout
    · refine ⟨parts ++ [last], [d], filed_iff.mpr ?_, ?_⟩
      · rw [List.map_append, ← List.nil_append [d], fileBytes_concat]
        exact hlayout
      · rw [List.flatten_append, hflat]
        rfl
    · refine ⟨parts, last ++ [d], filed_iff.mpr ?_, ?_⟩
      · rw [fileBytes_concat]
        exact hlayout
      · rw [← hflat, List.flatten_append, List.flatten_append, List.append_assoc]
        simp
  · by_contra hd
    rw [append_too_large hd] at happend
    exact absurd happend (by simp)

theorem openAt_empty_filed (crc : List UInt8 → UInt32) (maxFileSize : Nat) :
    Filed crc (WAL.openAt ∅ maxFileSize) [] [] := by
  refine ⟨fun i => ?_, rfl, rfl⟩
  show ((∅ : WalDir).insert 0 fileHeader)[i]? = _
  rw [Std.TreeMap.getElem?_insert]
  simp only [Nat.compare_eq_eq]
  by_cases hi : 0 = i
  · subst hi
    rfl
  · rw [if_neg hi, List.getElem?_eq_none (show ([] ++ [[]] : List (List (List UInt8))).length ≤ i by
      simp; omega)]
    simp

theorem openAt_empty (crc : List UInt8 → UInt32) (maxFileSize : Nat) :
    Holds crc (WAL.openAt ∅ maxFileSize) [] := ⟨[], [], openAt_empty_filed crc maxFileSize, rfl⟩

/-- Reopening takes up the last file where it ends. -/
theorem openAt_holds {w : WAL} {ds : List (List UInt8)} (hw : Holds crc w ds) (maxFileSize : Nat) :
    Holds crc (WAL.openAt w.dir maxFileSize) ds := by
  obtain ⟨parts, last, hf, hflat⟩ := hw
  exact ⟨parts, last, filed_iff.mpr ((filed_iff.mp hf).openAt maxFileSize), hflat⟩

/-! ## Reading the directory -/

theorem Filed.readEntries {w : WAL} {parts : List (List (List UInt8))}
    {last : List (List UInt8)} (hf : Filed crc w parts last) :
    w.readEntries crc = readAll crc ((parts ++ [last]).map (fileBytes crc)) := by
  rw [(filed_iff.mp hf).readEntries, List.map_append, List.map_singleton]

/-- Files of small records are read back. -/
theorem readAll_small (all : List (List (List UInt8)))
    (hsmall : ∀ d ∈ all.flatten, d.length < 2 ^ 24) :
    readAll crc (all.map (fileBytes crc)) = .ok (all.flatten.map WALEntry.mk) := by
  induction all with
  | nil => rfl
  | cons ds all ih =>
    rw [List.flatten_cons] at hsmall
    obtain ⟨hds, hall⟩ := List.forall_mem_append.mp hsmall
    rw [List.map_cons, List.flatten_cons, List.map_append, readAll_cons_ok]
    exact ⟨_, _, readFile_small hds, ih hall, rfl⟩

theorem readEntries_small {w : WAL} {ds : List (List UInt8)} (hw : Holds crc w ds)
    (hds : ∀ d ∈ ds, d.length < 2 ^ 24) : w.readEntries crc = .ok (ds.map WALEntry.mk) := by
  obtain ⟨parts, last, hf, rfl⟩ := hw
  rw [hf.readEntries]
  exact readAll_small _ hds

/-- A member of a joined list lies behind the first part, or in it. -/
theorem append_eq_split {α : Type*} {l rest before after : List α} {big : α}
    (heq : l ++ rest = before ++ big :: after) :
    (∃ mid, before = l ++ mid ∧ rest = mid ++ big :: after) ∨
      ∃ tail, l = before ++ big :: tail := by
  rcases List.append_eq_append_iff.mp heq with ⟨mid, hbefore, hrest⟩ | ⟨mid, hl, hrest⟩
  · exact Or.inl ⟨mid, hbefore, hrest⟩
  · cases mid with
    | nil => exact Or.inl ⟨[], by rw [hl, List.append_nil, List.append_nil], hrest.symm⟩
    | cons b tail =>
      obtain ⟨rfl, -⟩ := List.cons.inj hrest
      exact Or.inr ⟨tail, hl⟩

/-- A record of `2 ^ 24` bytes leaves its mark on what is read: an empty record
in its place, if reading succeeds at all. -/
theorem readAll_big {all : List (List (List UInt8))} {big : List UInt8}
    (hbig : big.length = 2 ^ 24) {after before : List (List UInt8)}
    (hbefore : ∀ d ∈ before, d.length < 2 ^ 24) (hflat : all.flatten = before ++ big :: after)
    {es : List WALEntry} (hread : readAll crc (all.map (fileBytes crc)) = .ok es) :
    before.map WALEntry.mk ++ [WALEntry.mk []] <+: es := by
  induction all generalizing before es with
  | nil => exact absurd hflat (by simp)
  | cons ds all ih =>
    rw [List.flatten_cons] at hflat
    rw [List.map_cons, readAll_cons_ok] at hread
    obtain ⟨entries, es', hfile, hrest, rfl⟩ := hread
    rcases append_eq_split hflat with ⟨mid, rfl, hmid⟩ | ⟨tail, rfl⟩
    · -- The record lies in a later file, and this one reads back.
      obtain ⟨hsmall, hsmall'⟩ := List.forall_mem_append.mp hbefore
      rw [readFile_small hsmall] at hfile
      obtain rfl := Except.ok.inj hfile
      rw [List.map_append, List.append_assoc]
      exact (List.prefix_append_right_inj _).mpr (ih hsmall' hmid hrest)
    · exact (readFile_big hbefore hbig hfile).trans (List.prefix_append _ _)

theorem readEntries_big {w : WAL} {before after : List (List UInt8)} {big : List UInt8}
    {es : List WALEntry} (hw : Holds crc w (before ++ big :: after))
    (hbefore : ∀ d ∈ before, d.length < 2 ^ 24) (hbig : big.length = 2 ^ 24)
    (hread : w.readEntries crc = .ok es) : before.map WALEntry.mk ++ [WALEntry.mk []] <+: es := by
  obtain ⟨parts, last, hf, hflat⟩ := hw
  rw [hf.readEntries] at hread
  exact readAll_big hbig hbefore hflat hread

/-- The first record of `2 ^ 24` bytes, if there is one. -/
theorem exists_first_big {ds : List (List UInt8)} (hle : ∀ d ∈ ds, d.length ≤ maxRecordSize)
    (hbig : ¬ ∀ d ∈ ds, d.length < 2 ^ 24) :
    ∃ before big after, ds = before ++ big :: after ∧ (∀ d ∈ before, d.length < 2 ^ 24) ∧
      big.length = 2 ^ 24 := by
  induction ds with
  | nil => exact absurd (by simp) hbig
  | cons d ds ih =>
    have hd := hle d List.mem_cons_self
    by_cases hsmall : d.length < 2 ^ 24
    · obtain ⟨before, big, after, rfl, hbefore, hlen⟩ :=
        ih (fun d' hd' => hle d' (List.mem_cons_of_mem d hd'))
          (fun hall => hbig (List.forall_mem_cons.mpr ⟨hsmall, hall⟩))
      exact ⟨d :: before, big, after, rfl, List.forall_mem_cons.mpr ⟨hsmall, hbefore⟩, hlen⟩
    · refine ⟨[], d, ds, rfl, by simp, ?_⟩
      have hmax : maxRecordSize = 2 ^ 24 := by decide
      omega

/-- What is read is what was appended exactly when no record has `2 ^ 24` bytes. -/
theorem readEntries_iff {w : WAL} {ds : List (List UInt8)} (hw : Holds crc w ds)
    (hle : ∀ d ∈ ds, d.length ≤ maxRecordSize) :
    w.readEntries crc = .ok (ds.map WALEntry.mk) ↔ ∀ d ∈ ds, d.length < 2 ^ 24 := by
  constructor
  · intro hread
    by_contra hbig
    obtain ⟨before, big, after, rfl, hbefore, hlen⟩ := exists_first_big hle hbig
    have hpre := readEntries_big hw hbefore hlen hread
    rw [List.map_append, List.map_cons] at hpre
    have hhead := (List.prefix_append_right_inj _).mp hpre
    have hempty : WALEntry.mk [] = WALEntry.mk big := by
      obtain ⟨tail, htail⟩ := hhead
      exact (List.cons.inj htail).1
    obtain rfl : [] = big := WALEntry.mk.inj hempty
    exact absurd hlen (by decide)
  · exact readEntries_small hw

/-! ## Round trip -/

/-- An append, or a close and a reopening with some size limit. -/
inductive WalOp where
  | append (data : List UInt8)
  | reopen (maxFileSize : Nat)

/-- A rejected append leaves the log as it is. -/
def WalOp.apply (crc : List UInt8 → UInt32) (w : WAL) : WalOp → WAL
  | .append data =>
    match w.append crc data with
    | .ok (w', _) => w'
    | .error _ => w
  | .reopen maxFileSize => WAL.openAt w.dir maxFileSize

theorem WalOp.apply_append {w w' : WAL} {data : List UInt8} {position : Nat}
    (happend : w.append crc data = .ok (w', position)) :
    (WalOp.append data).apply crc w = w' := by
  rw [WalOp.apply, happend]

theorem WalOp.apply_too_large {w : WAL} {data : List UInt8}
    (hdata : ¬ data.length ≤ maxRecordSize) : (WalOp.append data).apply crc w = w := by
  rw [WalOp.apply, append_too_large hdata]

/-- A log opened in an empty directory, after some operations. -/
def runWal (crc : List UInt8 → UInt32) (maxFileSize : Nat) (ops : List WalOp) : WAL :=
  ops.foldl (WalOp.apply crc) (WAL.openAt ∅ maxFileSize)

/-- The byte strings that `append` accepted, in order. -/
def appended : List WalOp → List (List UInt8)
  | [] => []
  | .append data :: ops =>
    if data.length ≤ maxRecordSize then data :: appended ops else appended ops
  | .reopen _ :: ops => appended ops

theorem appended_le (ops : List WalOp) : ∀ d ∈ appended ops, d.length ≤ maxRecordSize := by
  induction ops with
  | nil => exact fun d hd => absurd hd (by simp [appended])
  | cons op ops ih =>
    cases op with
    | reopen maxFileSize => exact ih
    | append data =>
      rw [appended]
      split
      · rename_i hd
        exact List.forall_mem_cons.mpr ⟨hd, ih⟩
      · exact ih

theorem foldl_holds (ops : List WalOp) {w : WAL} {ds : List (List UInt8)} (hw : Holds crc w ds) :
    Holds crc (ops.foldl (WalOp.apply crc) w) (ds ++ appended ops) := by
  induction ops generalizing w ds with
  | nil =>
    rw [appended, List.append_nil]
    exact hw
  | cons op ops ih =>
    rw [List.foldl_cons]
    cases op with
    | reopen maxFileSize => exact ih (openAt_holds hw maxFileSize)
    | append data =>
      rw [appended]
      by_cases hd : data.length ≤ maxRecordSize
      · obtain ⟨w', position, happend⟩ := append_ok crc w hd
        have hnext := ih (append_holds hw happend).1
        rw [List.append_assoc] at hnext
        rw [if_pos hd, WalOp.apply_append happend]
        exact hnext
      · rw [if_neg hd, WalOp.apply_too_large hd]
        exact ih hw

/-- The round trip: what was accepted is read back, in order, exactly when no
accepted string fills the size limit.  Its length then no longer fits the three
bytes of the frame. -/
theorem wal_round_trip_iff (crc : List UInt8 → UInt32) (maxFileSize : Nat) (ops : List WalOp) :
    (runWal crc maxFileSize ops).readEntries crc = .ok ((appended ops).map WALEntry.mk) ↔
      ∀ d ∈ appended ops, d.length < 2 ^ 24 :=
  readEntries_iff (foldl_holds ops (openAt_empty crc maxFileSize)) (appended_le ops)

theorem not_round_trip_of_full {d : List UInt8} (hd : d.length = 2 ^ 24) :
    ¬ (runWal crc (2 ^ 26) [.append d]).readEntries crc = .ok [WALEntry.mk d] := by
  have happended : appended [.append d] = [d] := by
    rw [appended, if_pos (show d.length ≤ maxRecordSize from Nat.le_of_eq hd)]
    rfl
  have hw : Holds crc (runWal crc (2 ^ 26) [.append d]) [d] := by
    have hfold := foldl_holds [.append d] (openAt_empty crc (2 ^ 26))
    rw [happended] at hfold
    exact hfold
  have hle : ∀ d' ∈ [d], d'.length ≤ maxRecordSize := by
    rw [← happended]
    exact appended_le [.append d]
  intro hread
  have hsmall := (readEntries_iff hw hle).mp hread d List.mem_cons_self
  omega

/-- Sixteen mebibytes of zeros, in one append. -/
theorem not_wal_round_trip_limit :
    ¬ (runWal (fun _ => 0) (2 ^ 26) [.append (List.replicate maxRecordSize 0)]).readEntries
        (fun _ => 0) = .ok [WALEntry.mk (List.replicate maxRecordSize 0)] :=
  not_round_trip_of_full List.length_replicate

end Storage
end RTDB
