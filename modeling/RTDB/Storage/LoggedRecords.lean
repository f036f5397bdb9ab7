import RTDB.Storage.Replay

/-!
# Records in the log

`put` appends the text of a record to the log, and `recover` parses every entry of it.  One that does
not parse ends the recovery.
-/

namespace RTDB
namespace Storage

open Outcomes

variable {P : Type} {codec : Codec P} {crc : List UInt8 → UInt32}

/-- The records that `recover` parses. -/
def loggedRecords (codec : Codec P) (crc : List UInt8 → UInt32) (w : WAL) :
    Except RTDBError (List (Record P)) := do
  let entries ← w.readEntries crc
  entries.mapM fun entry => (codec.fromSlice entry.data).mapError .serialization

theorem loggedRecords_of_recover {w : WAL} {m m' : MemTable P}
    (hrecover : recover codec crc w m = .ok m') :
    ∃ records, loggedRecords codec crc w = .ok records := by
  rw [recover] at hrecover
  cases hread : w.readEntries crc with
  | error e =>
    rw [hread] at hrecover
    exact absurd hrecover (by simp)
  | ok entries =>
    rw [hread] at hrecover
    obtain ⟨records, hall⟩ := recoverEntries_parses entries hrecover
    refine ⟨records, ?_⟩
    rw [loggedRecords, hread, ok_bind, mapM_eq_ok_iff]
    refine hall.imp fun entry r hr => ?_
    rw [hr]
    rfl

/-- A log parses when no record fills the size limit and each of them parses. -/
theorem loggedRecords_eq_ok_iff {w : WAL} {ds : List (List UInt8)} {records : List (Record P)}
    (hw : Holds crc w ds) (hle : ∀ d ∈ ds, d.length ≤ maxRecordSize)
    (hempty : ∃ e, codec.fromSlice [] = .error e) :
    loggedRecords codec crc w = .ok records ↔
      (∀ d ∈ ds, d.length < 2 ^ 24) ∧ ds.mapM codec.fromSlice = .ok records := by
  have hparse : ∀ bytes r, (codec.fromSlice bytes).mapError RTDBError.serialization = .ok r ↔
      codec.fromSlice bytes = .ok r := by
    intro bytes r
    cases codec.fromSlice bytes <;> simp [Except.mapError]
  rw [mapM_eq_ok_iff]
  constructor
  · intro hlogged
    obtain ⟨entries, hread, hlogged⟩ := bind_eq_ok hlogged
    rw [mapM_eq_ok_iff] at hlogged
    simp only [hparse] at hlogged
    have hsmall : ∀ d ∈ ds, d.length < 2 ^ 24 := by
      by_contra hbig
      obtain ⟨before, big, after, rfl, hbefore, hlen⟩ := exists_first_big hle hbig
      -- The record reads as an empty text.
      have hmem : WALEntry.mk [] ∈ entries :=
        (readEntries_big hw hbefore hlen hread).subset (by simp)
      obtain ⟨r, -, hr⟩ := forall₂_exists hlogged hmem
      obtain ⟨e, he⟩ := hempty
      exact absurd (he.symm.trans hr) (by simp)
    rw [readEntries_small hw hsmall] at hread
    obtain rfl := Except.ok.inj hread
    rw [List.forall₂_map_left_iff] at hlogged
    exact ⟨hsmall, hlogged⟩
  · rintro ⟨hsmall, hall⟩
    rw [loggedRecords, readEntries_small hw hsmall, ok_bind, mapM_eq_ok_iff,
      List.forall₂_map_left_iff]
    simp only [hparse]
    exact hall

/-- Whatever was logged before, and however the log was opened: after the append of its text, the
log gives the record behind the others. -/
def LogKept (codec : Codec P) (crc : List UInt8 → UInt32) (r : Record P) : Prop :=
  ∀ maxFileSize ops records data w' position,
    loggedRecords codec crc (runWal crc maxFileSize ops) = .ok records →
      codec.toVec r = .ok data →
        (runWal crc maxFileSize ops).append crc data = .ok (w', position) →
          loggedRecords codec crc w' = .ok (records ++ [r])

theorem runWal_holds (crc : List UInt8 → UInt32) (maxFileSize : Nat) (ops : List WalOp) :
    Holds crc (runWal crc maxFileSize ops) (appended ops) :=
  foldl_holds ops (openAt_empty crc maxFileSize)

theorem loggedRecords_append_iff {w w' : WAL} {ds : List (List UInt8)} {data : List UInt8}
    {records records' : List (Record P)} {position : Nat} (hw : Holds crc w ds)
    (hle : ∀ d ∈ ds, d.length ≤ maxRecordSize) (hempty : ∃ e, codec.fromSlice [] = .error e)
    (hlogged : loggedRecords codec crc w = .ok records)
    (happend : w.append crc data = .ok (w', position)) :
    loggedRecords codec crc w' = .ok records' ↔ data.length < 2 ^ 24 ∧
      ∃ r, codec.fromSlice data = .ok r ∧ records' = records ++ [r] := by
  obtain ⟨hw', hdata⟩ := append_holds hw happend
  have hle' : ∀ d ∈ ds ++ [data], d.length ≤ maxRecordSize :=
    List.forall_mem_append.mpr ⟨hle, List.forall_mem_singleton.mpr hdata⟩
  obtain ⟨hsmall, hall⟩ := (loggedRecords_eq_ok_iff hw hle hempty).mp hlogged
  rw [loggedRecords_eq_ok_iff hw' hle' hempty, List.forall_mem_append, List.forall_mem_singleton,
    List.mapM_append, hall, ok_bind, List.mapM_cons, List.mapM_nil]
  cases codec.fromSlice data with
  | error e =>
    constructor
    · rintro ⟨-, hlast⟩
      exact absurd hlast (by simp [bind, Except.bind])
    · rintro ⟨-, r, hr, -⟩
      exact absurd hr (by simp)
  | ok r =>
    constructor
    · rintro ⟨⟨-, hlen⟩, hlast⟩
      exact ⟨hlen, r, rfl, (Except.ok.inj hlast).symm⟩
    · rintro ⟨hlen, r', hr, rfl⟩
      obtain rfl := Except.ok.inj hr
      exact ⟨⟨hsmall, hlen⟩, rfl⟩

/-- A record that `put` logs is kept when `append` refuses its text, and otherwise when the text is
shorter than the size limit and reads back. -/
theorem logKept_iff_reads {r : Record P} {data : List UInt8} (hdata : codec.toVec r = .ok data)
    (hempty : ∃ e, codec.fromSlice [] = .error e) :
    LogKept codec crc r ↔ maxRecordSize < data.length ∨
      (data.length < maxRecordSize ∧ codec.fromSlice data = .ok r) := by
  have hmax : maxRecordSize = 2 ^ 24 := by decide
  constructor
  · intro hkept
    rw [or_iff_not_imp_left]
    intro hfits
    obtain ⟨w', position, happend⟩ := append_ok crc (runWal crc 0 []) (Nat.not_lt.mp hfits)
    have hw := runWal_holds crc 0 []
    have hlogged : loggedRecords codec crc (runWal crc 0 []) = .ok [] :=
      (loggedRecords_eq_ok_iff hw (appended_le []) hempty).mpr ⟨by simp [appended], rfl⟩
    have hnext := hkept 0 [] [] data w' position hlogged hdata happend
    rw [loggedRecords_append_iff hw (appended_le []) hempty hlogged happend] at hnext
    obtain ⟨hlen, r', hr, hrecords⟩ := hnext
    obtain rfl : r = r' := by simpa using hrecords
    exact ⟨hmax ▸ hlen, hr⟩
  · intro hcases maxFileSize ops records data' w' position hlogged hdata' happend
    obtain rfl : data = data' := Except.ok.inj (hdata.symm.trans hdata')
    have hw := runWal_holds crc maxFileSize ops
    obtain hlarge | ⟨hlen, hr⟩ := hcases
    · rw [append_too_large (Nat.not_le.mpr hlarge)] at happend
      exact absurd happend (by simp)
    · exact (loggedRecords_append_iff hw (appended_le ops) hempty hlogged happend).mpr
        ⟨hmax ▸ hlen, r, hr, rfl⟩

/-- One record that does not parse, and recovery gets nowhere. -/
theorem recover_fails {w : WAL} {ds : List (List UInt8)} (hw : Holds crc w ds)
    (hle : ∀ d ∈ ds, d.length ≤ maxRecordSize) (hempty : ∃ e, codec.fromSlice [] = .error e)
    {d : List UInt8} (hd : d ∈ ds) (hparse : ∀ r, codec.fromSlice d ≠ .ok r) (m : MemTable P) :
    ∃ e, recover codec crc w m = .error e := by
  cases hrecover : recover codec crc w m with
  | error e => exact ⟨e, rfl⟩
  | ok m' =>
    obtain ⟨records, hlogged⟩ := loggedRecords_of_recover hrecover
    have hall := ((loggedRecords_eq_ok_iff hw hle hempty).mp hlogged).2
    obtain ⟨r, -, hr⟩ := forall₂_exists (mapM_eq_ok_iff.mp hall) hd
    exact absurd hr (hparse r)

/-! ## What a log determines -/

/-- Where a frame ends its bytes tell, unless the three bytes of the length are zero. -/
theorem frame_append_inj {d d' rest rest' : List UInt8} (hd : d ≠ []) (hd' : d' ≠ [])
    (hlen : d.length ≤ maxRecordSize) (hlen' : d'.length ≤ maxRecordSize)
    (hsame : frame crc d ++ rest = frame crc d' ++ rest') : d = d' ∧ rest = rest' := by
  rw [frame, frame, List.append_assoc, List.append_assoc] at hsame
  obtain ⟨hheader, htail⟩ := List.append_inj hsame (by rw [encode_length, encode_length])
  have hdecode := congrArg EntryHeader.decode hheader
  rw [decode_encode, decode_encode] at hdecode
  have hmod : d.length % 2 ^ 24 = d'.length % 2 ^ 24 :=
    congrArg EntryHeader.length (Except.ok.inj hdecode)
  have hpos := List.length_pos_iff.mpr hd
  have hpos' := List.length_pos_iff.mpr hd'
  have hmax : maxRecordSize = 2 ^ 24 := by decide
  exact List.append_inj htail (by omega)

theorem frames_inj {ds ds' : List (List UInt8)}
    (hds : ∀ d ∈ ds, d ≠ [] ∧ d.length ≤ maxRecordSize)
    (hds' : ∀ d ∈ ds', d ≠ [] ∧ d.length ≤ maxRecordSize)
    (hsame : ds.flatMap (frame crc) = ds'.flatMap (frame crc)) : ds = ds' := by
  have hsome : ∀ (d rest : List UInt8), frame crc d ++ rest ≠ [] := by
    intro d rest hnil
    have hlen := congrArg List.length hnil
    rw [List.length_append, frame_length, List.length_nil] at hlen
    omega
  induction ds generalizing ds' with
  | nil =>
    cases ds' with
    | nil => rfl
    | cons d' ds' => exact absurd hsame.symm (hsome d' _)
  | cons d ds ih =>
    cases ds' with
    | nil => exact absurd hsame (hsome d _)
    | cons d' ds' =>
      obtain ⟨hd, hds⟩ := List.forall_mem_cons.mp hds
      obtain ⟨hd', hds'⟩ := List.forall_mem_cons.mp hds'
      rw [List.flatMap_cons, List.flatMap_cons] at hsame
      obtain ⟨hfirst, hrest⟩ := frame_append_inj hd.1 hd'.1 hd.2 hd'.2 hsame
      rw [hfirst, ih hds hds' hrest]

/-- A log holds no two lists of records, if none of them is empty. -/
theorem holds_unique {w : WAL} {ds ds' : List (List UInt8)} (hw : Holds crc w ds)
    (hw' : Holds crc w ds') (hds : ∀ d ∈ ds, d ≠ [] ∧ d.length ≤ maxRecordSize)
    (hds' : ∀ d ∈ ds', d ≠ [] ∧ d.length ≤ maxRecordSize) : ds = ds' := by
  obtain ⟨parts, last, hf, rfl⟩ := hw
  obtain ⟨parts', last', hf', rfl⟩ := hw'
  have hbytes : (parts ++ [last]).map (fileBytes crc) = (parts' ++ [last']).map (fileBytes crc) := by
    refine List.ext_getElem? fun i => ?_
    rw [List.getElem?_map, List.getElem?_map, ← hf.files, ← hf'.files]
  have hframes : (parts ++ [last]).map (·.flatMap (frame crc)) =
      (parts' ++ [last']).map (·.flatMap (frame crc)) := by
    have hdrop := congrArg (List.map (List.drop fileHeader.length)) hbytes
    simpa only [List.map_map, Function.comp_def, fileBytes, List.drop_left] using hdrop
  have hflat : ∀ all : List (List (List UInt8)), all.flatten.flatMap (frame crc) =
      (all.map (·.flatMap (frame crc))).flatten := by
    intro all
    rw [List.flatMap_def, List.map_flatten, List.flatten_flatten, List.map_map]
    rfl
  exact frames_inj hds hds' (by rw [hflat, hflat, hframes])

end Storage
end RTDB
