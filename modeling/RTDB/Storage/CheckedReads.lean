import RTDB.Lib.Outcomes
import RTDB.Storage.TableFile

/-!
# Table files of any content

The decoders of `storage/sstable.rs` with every index into a buffer and every
difference checked, as the source has them, on a file of arbitrary bytes.  They
agree with the decoders of the other modules, so that those show every panic.
-/

namespace RTDB
namespace Storage

open Bytes Outcomes

variable {P : Type}

/-! ## Checked operations -/

def outOfBounds : RTDBError := .panic "index out of bounds"

/-- `data[i]`. -/
def byteAt (data : List UInt8) (i : Nat) : Except RTDBError UInt8 :=
  match data[i]? with
  | some b => .ok b
  | none => .error outOfBounds

/-- `from_le_bytes([data[offset], data[offset + 1], ...])`, of `n` bytes. -/
def leAt (data : List UInt8) (offset n : Nat) : Except RTDBError Nat :=
  ((List.range n).mapM fun i => byteAt data (offset + i)).map leNat

/-- `&data[offset..offset + n]`. -/
def sliceAt (data : List UInt8) (offset n : Nat) : Except RTDBError (List UInt8) :=
  if offset + n ≤ data.length then .ok ((data.drop offset).take n)
  else .error (.panic "range end index out of range")

/-- `a - b`. -/
def checkedSub (a b : Nat) : Except RTDBError Nat :=
  if b ≤ a then .ok (a - b) else .error (.panic "attempt to subtract with overflow")

theorem mapM_byteAt {data : List UInt8} {offset n : Nat} (hfits : offset + n ≤ data.length) :
    ((List.range n).mapM fun i => byteAt data (offset + i)) =
      .ok ((data.drop offset).take n) := by
  induction n with
  | zero => rfl
  | succ n ih =>
    have hlt : offset + n < data.length := by omega
    have hget : (data.drop offset)[n]? = some data[offset + n] := by
      rw [List.getElem?_drop, List.getElem?_eq_getElem hlt]
    have hbyte : byteAt data (offset + n) = .ok data[offset + n] := by
      rw [byteAt, List.getElem?_eq_getElem hlt]
    rw [List.range_succ, List.mapM_append, ih (by omega), ok_bind, List.mapM_cons, hbyte,
      List.take_add_one, hget]
    rfl

theorem leAt_eq {data : List UInt8} {offset n : Nat} (hfits : offset + n ≤ data.length) :
    leAt data offset n = .ok (leNat ((data.drop offset).take n)) := by
  rw [leAt, mapM_byteAt hfits]
  rfl

theorem leAt_outside {data : List UInt8} {offset n : Nat} (hin : offset ≤ data.length)
    (hout : data.length < offset + n) : leAt data offset n = .error outOfBounds := by
  have hbytes : ((List.range n).mapM fun i => byteAt data (offset + i)) = .error outOfBounds := by
    induction n with
    | zero => exact absurd hin (by omega)
    | succ n ih =>
      rw [List.range_succ, List.mapM_append]
      by_cases hfits : offset + n ≤ data.length
      · have hbyte : byteAt data (offset + n) = .error outOfBounds := by
          rw [byteAt, List.getElem?_eq_none (by omega)]
        rw [mapM_byteAt hfits, ok_bind, List.mapM_cons, hbyte]
        rfl
      · rw [ih (by omega)]
        rfl
  rw [leAt, hbytes]
  rfl

theorem sliceAt_eq {data : List UInt8} {offset n : Nat} (hfits : offset + n ≤ data.length) :
    sliceAt data offset n = .ok ((data.drop offset).take n) := if_pos hfits

theorem checkedSub_eq {a b : Nat} (hle : b ≤ a) : checkedSub a b = .ok (a - b) := if_pos hle

/-! ## The decoders, with their offsets -/

namespace Checked

variable (codec : Codec P)

def decodeFooter (data : List UInt8) : Except RTDBError Footer :=
  if data.length < 24 then .error (.storage "Invalid footer")
  else do
    let indexOffset ← leAt data 0 8
    let indexSize ← leAt data 8 8
    let metaOffset ← leAt data 16 8
    .ok { indexOffset, indexSize, metaOffset }

/-- The test asks for sixteen bytes from `offset` on, and twenty are read. -/
def decodeIndexEntries (data : List UInt8) : Nat → Nat → Except RTDBError (List IndexEntry)
  | 0, _ => .ok []
  | count + 1, offset =>
    if offset + 16 > data.length then .ok []
    else do
      let key ← leAt data offset 8
      let blockOffset ← leAt data (offset + 8) 8
      let size ← leAt data (offset + 16) 4
      let rest ← decodeIndexEntries data count (offset + 20)
      .ok ({ key, offset := blockOffset, size } :: rest)

def decodeIndex (data : List UInt8) : Except RTDBError (List IndexEntry) :=
  if data.length < 4 then .ok []
  else do
    let count ← leAt data 0 4
    decodeIndexEntries data count 4

def decodePayload (payloadBytes : List UInt8) : Except RTDBError (Option P) :=
  match codec.payloadFromSlice payloadBytes with
  | .error e => .error (.serialization e)
  | .ok payload => .ok payload

def decodeEntries (data : List UInt8) :
    Nat → Nat → Except RTDBError (List (VectorId × Vector P))
  | 0, _ => .ok []
  | count + 1, offset =>
    if offset + 8 > data.length then .ok []
    else do
      let id ← leAt data offset 8
      if offset + 8 + 4 > data.length then .ok []
      else do
        let dim ← leAt data (offset + 8) 4
        if offset + 12 + dim * 4 > data.length then .ok []
        else do
          let vectorData ← (List.range dim).mapM fun i => leAt data (offset + 12 + i * 4) 4
          let offset := offset + 12 + dim * 4
          if offset + 4 > data.length then .ok []
          else do
            let payloadLen ← leAt data offset 4
            if payloadLen > 0 then
              if offset + 4 + payloadLen > data.length then .ok []
              else do
                let payloadBytes ← sliceAt data (offset + 4) payloadLen
                let payload ← decodePayload codec payloadBytes
                let rest ← decodeEntries data count (offset + 4 + payloadLen)
                .ok ((id, { data := vectorData.map UInt32.ofNat, payload }) :: rest)
            else do
              let rest ← decodeEntries data count (offset + 4)
              .ok ((id, { data := vectorData.map UInt32.ofNat, payload := none }) :: rest)

def decodeBlock (data : List UInt8) : Except RTDBError (List (VectorId × Vector P)) :=
  if data.length < 4 then .ok []
  else do
    let count ← leAt data 0 4
    decodeEntries codec data count 4

def openFile (path : Path) (file : List UInt8) : Except RTDBError SSTable := do
  let trailer ← readFromEnd file 8 8
  let magic ← leAt trailer 0 4
  let version ← leAt trailer 4 4
  if magic ≠ sstableMagic then
    .error (.storage ("Invalid SSTable magic: " ++ toString magic))
  else if version ≠ sstableVersion then
    .error (.storage ("Unsupported version: " ++ toString version))
  else do
    let footerBuf ← readFromEnd file 32 24
    let footer ← decodeFooter footerBuf
    let metaEnd ← checkedSub file.length 32
    if metaEnd ≤ footer.metaOffset then
      .error (.storage ("Invalid meta_offset: " ++ toString footer.metaOffset ++ " >= " ++
        toString metaEnd))
    else do
      let metaSize ← checkedSub metaEnd footer.metaOffset
      let metaBuf ← readAt file footer.metaOffset metaSize
      match codec.metaFromSlice metaBuf with
      | .error e => .error (.serialization e)
      | .ok metadata => do
        let indexBuf ← readAt file footer.indexOffset footer.indexSize
        let index ← decodeIndex indexBuf
        .ok { metadata, index, path }

/-- `self.index[i]`. -/
def entryAt (index : List IndexEntry) (i : Nat) : Except RTDBError IndexEntry :=
  match index[i]? with
  | some entry => .ok entry
  | none => .error outOfBounds

def findBlockLoop (index : List IndexEntry) (key : VectorId) :
    Nat → Nat → Nat → Except RTDBError Nat
  | 0, low, _ => .ok low
  | fuel + 1, low, high =>
    if low < high then do
      let entry ← entryAt index ((low + high) / 2)
      if entry.key ≤ key then findBlockLoop index key fuel ((low + high) / 2 + 1) high
      else findBlockLoop index key fuel low ((low + high) / 2)
    else .ok low

def findBlock (t : SSTable) (key : VectorId) : Except RTDBError Nat := do
  let low ← findBlockLoop t.index key t.index.length 0 t.index.length
  .ok (low - 1)

def loadBlock (file : Option (List UInt8)) (entry : IndexEntry) :
    Except RTDBError (List (VectorId × Vector P)) :=
  match file with
  | none => .error noSuchFile
  | some file => do
    let data ← readAt file entry.offset entry.size
    decodeBlock codec data

def get (t : SSTable) (file : Option (List UInt8)) (id : VectorId) :
    Except RTDBError (Option (Vector P)) :=
  if id < t.metadata.minId ∨ id > t.metadata.maxId then .ok none
  else do
    let blockIdx ← findBlock t id
    if blockIdx ≥ t.index.length then .ok none
    else do
      let entry ← entryAt t.index blockIdx
      let block ← loadBlock codec file entry
      .ok ((block.find? fun kv => kv.1 = id).map Prod.snd)

/-- The blocks from the `i`-th on. -/
def scanBlocks (t : SSTable) (file : Option (List UInt8)) (start stop : VectorId) :
    Nat → Nat → Except RTDBError (List (VectorId × Vector P))
  | 0, _ => .ok []
  | count + 1, i => do
    let entry ← entryAt t.index i
    let block ← loadBlock codec file entry
    let results := (block.takeWhile fun kv => kv.1 ≤ stop).filter fun kv => kv.1 ≥ start
    if block.any fun kv => kv.1 > stop then .ok results
    else do
      let rest ← scanBlocks t file start stop count (i + 1)
      .ok (results ++ rest)

def scan (t : SSTable) (file : Option (List UInt8)) (start stop : Option VectorId) :
    Except RTDBError (List (VectorId × Vector P)) := do
  let startBlock ← findBlock t (start.getD t.metadata.minId)
  scanBlocks codec t file (start.getD t.metadata.minId) (stop.getD t.metadata.maxId)
    (t.index.length - startBlock) startBlock

/-! ## They are the decoders of the other modules -/

variable {codec}

theorem decodeFooter_eq (data : List UInt8) : decodeFooter data = Footer.decode data := by
  rw [decodeFooter, Footer.decode]
  split
  · rfl
  · rw [leAt_eq (by omega), leAt_eq (by omega), leAt_eq (by omega), List.drop_zero]
    rfl

theorem decodeIndexEntries_eq (data : List UInt8) (count offset : Nat) :
    decodeIndexEntries data count offset =
      Storage.decodeIndexEntries count (data.drop offset) := by
  induction count generalizing offset with
  | zero => rfl
  | succ count ih =>
    rw [decodeIndexEntries, Storage.decodeIndexEntries, List.length_drop]
    by_cases hshort : offset + 16 > data.length
    · rw [if_pos hshort, if_pos (by omega)]
    · rw [if_neg hshort, if_neg (by omega), leAt_eq (by omega), leAt_eq (by omega), ok_bind, ok_bind]
      by_cases hcut : data.length < offset + 20
      · rw [leAt_outside (by omega) (by omega), if_pos (by omega)]
        rfl
      · rw [leAt_eq (by omega), if_neg (by omega), ok_bind, ih, List.drop_drop, List.drop_drop,
          List.drop_drop]
        cases Storage.decodeIndexEntries count (data.drop (offset + 20)) <;> rfl

theorem decodeIndex_eq (data : List UInt8) : decodeIndex data = Storage.decodeIndex data := by
  rw [decodeIndex, Storage.decodeIndex]
  split
  · rfl
  · rw [leAt_eq (by omega), ok_bind, decodeIndexEntries_eq, List.drop_zero]

theorem decodeComponents_eq (dim : Nat) (data : List UInt8) :
    decodeComponents dim data =
      (List.range dim).map fun i => UInt32.ofNat (leNat ((data.drop (i * 4)).take 4)) := by
  induction dim generalizing data with
  | zero => rfl
  | succ dim ih =>
    rw [decodeComponents, ih, List.range_succ_eq_map, List.map_cons, List.map_map, Nat.zero_mul,
      List.drop_zero]
    refine congrArg _ (List.map_congr_left fun i _ => ?_)
    show _ = UInt32.ofNat (leNat ((data.drop ((i + 1) * 4)).take 4))
    rw [List.drop_drop, Nat.succ_mul, Nat.add_comm]

theorem mapM_components (data : List UInt8) (offset dim : Nat)
    (hfits : offset + dim * 4 ≤ data.length) :
    ∃ words, ((List.range dim).mapM fun i => leAt data (offset + i * 4) 4) = .ok words ∧
      words.map UInt32.ofNat = decodeComponents dim (data.drop offset) := by
  refine ⟨_, mapM_eq_map (g := fun i => leNat (((data.drop offset).drop (i * 4)).take 4))
    fun i hi => ?_, ?_⟩
  · have hlt := List.mem_range.mp hi
    rw [leAt_eq (by omega), List.drop_drop]
  · rw [decodeComponents_eq, List.map_map]
    rfl

theorem decodeEntries_eq (data : List UInt8) (count offset : Nat) :
    decodeEntries codec data count offset =
      Storage.decodeEntries codec count (data.drop offset) := by
  induction count generalizing offset with
  | zero => rfl
  | succ count ih =>
    rw [decodeEntries, Storage.decodeEntries, List.length_drop]
    by_cases hid : offset + 8 > data.length
    · rw [if_pos hid, if_pos (by omega)]
    rw [if_neg hid, if_neg (by omega), leAt_eq (by omega), ok_bind]
    by_cases hdim : offset + 8 + 4 > data.length
    · rw [if_pos hdim, if_pos (by omega)]
    rw [if_neg hdim, if_neg (by omega), leAt_eq (by omega), ok_bind]
    simp only [List.drop_drop, List.length_drop]
    generalize leNat ((data.drop (offset + 8)).take 4) = dim
    by_cases hdata : offset + 12 + dim * 4 > data.length
    · rw [if_pos hdata, if_pos (by omega)]
    obtain ⟨words, hwords, hcomponents⟩ := mapM_components data (offset + 12) dim (by omega)
    rw [if_neg hdata, if_neg (by omega), hwords, ok_bind, ← hcomponents]
    have hsum : offset + 12 + (dim * 4 + 4) = offset + 12 + dim * 4 + 4 := by omega
    rw [hsum]
    by_cases hlen : offset + 12 + dim * 4 + 4 > data.length
    · rw [if_pos hlen, if_pos (by omega)]
    rw [if_neg hlen, if_neg (by omega), leAt_eq (by omega), ok_bind]
    generalize leNat ((data.drop (offset + 12 + dim * 4)).take 4) = payloadLen
    by_cases hpayload : payloadLen > 0
    · rw [if_pos hpayload, if_pos hpayload]
      by_cases hcut : offset + 12 + dim * 4 + 4 + payloadLen > data.length
      · rw [if_pos hcut, if_pos (by omega)]
      rw [if_neg hcut, if_neg (by omega), sliceAt_eq (by omega), ok_bind, ih, decodePayload]
      cases codec.payloadFromSlice
          ((data.drop (offset + 12 + dim * 4 + 4)).take payloadLen) with
      | error e => rfl
      | ok payload =>
        cases Storage.decodeEntries codec count
          (data.drop (offset + 12 + dim * 4 + 4 + payloadLen)) <;> rfl
    · rw [if_neg hpayload, if_neg hpayload, ih]
      cases Storage.decodeEntries codec count (data.drop (offset + 12 + dim * 4 + 4)) <;> rfl

theorem decodeBlock_eq (data : List UInt8) :
    decodeBlock codec data = Storage.decodeBlock codec data := by
  rw [decodeBlock, Storage.decodeBlock]
  split
  · rfl
  · rw [leAt_eq (by omega), ok_bind, decodeEntries_eq, List.drop_zero]

theorem loadBlock_eq (file : Option (List UInt8)) (entry : IndexEntry) :
    loadBlock codec file entry = SSTable.loadBlock codec file entry := by
  cases file with
  | none => rfl
  | some file =>
    rw [loadBlock, SSTable.loadBlock]
    cases readAt file entry.offset entry.size with
    | error e => rfl
    | ok data => exact decodeBlock_eq data

theorem readAt_length {file bytes : List UInt8} {offset size : Nat}
    (hread : readAt file offset size = .ok bytes) : bytes.length = size := by
  rw [readAt] at hread
  split at hread
  · exact absurd hread (by simp)
  · split at hread
    · exact absurd hread (by simp)
    · split at hread
      · rw [← Except.ok.inj hread]
        exact Eq.symm ‹size = 0›
      · split at hread
        · rw [← Except.ok.inj hread, List.length_take, List.length_drop]
          omega
        · exact absurd hread (by simp)

theorem readFromEnd_ok {file bytes : List UInt8} {distance size : Nat}
    (hread : readFromEnd file distance size = .ok bytes) :
    distance ≤ file.length ∧ bytes.length = size := by
  rw [readFromEnd] at hread
  split at hread
  · exact absurd hread (by simp)
  · exact ⟨by omega, readAt_length hread⟩

theorem openFile_eq (path : Path) (file : List UInt8) :
    openFile codec path file = SSTable.openFile codec path file := by
  rw [openFile, SSTable.openFile]
  cases htrailer : readFromEnd file 8 8 with
  | error e => rfl
  | ok trailer =>
    obtain ⟨-, hlength⟩ := readFromEnd_ok htrailer
    have htake : (trailer.drop 4).take 4 = trailer.drop 4 :=
      List.take_of_length_le (by rw [List.length_drop]; omega)
    rw [ok_bind, leAt_eq (by omega), leAt_eq (by omega), ok_bind, ok_bind, List.drop_zero, htake]
    dsimp only
    split
    · rfl
    split
    · rfl
    cases hfooter : readFromEnd file 32 24 with
    | error e => rfl
    | ok footerBuf =>
      obtain ⟨hend, -⟩ := readFromEnd_ok hfooter
      rw [ok_bind, decodeFooter_eq]
      dsimp only
      cases Footer.decode footerBuf with
      | error e => rfl
      | ok footer =>
        rw [ok_bind, checkedSub_eq hend, ok_bind]
        dsimp only
        split
        · rfl
        rw [checkedSub_eq (by omega), ok_bind]
        cases readAt file footer.metaOffset (file.length - 32 - footer.metaOffset) with
        | error e => rfl
        | ok metaBuf =>
          rw [ok_bind]
          dsimp only
          cases codec.metaFromSlice metaBuf with
          | error e => rfl
          | ok metadata =>
            dsimp only
            cases readAt file footer.indexOffset footer.indexSize with
            | error e => rfl
            | ok indexBuf =>
              rw [ok_bind, decodeIndex_eq]
              dsimp only
              cases Storage.decodeIndex indexBuf <;> rfl

theorem findBlockLoop_eq (index : List IndexEntry) (key : VectorId) (fuel low : Nat) {high : Nat}
    (hhigh : high ≤ index.length) :
    findBlockLoop index key fuel low high = .ok (SSTable.findBlockLoop index key fuel low high) := by
  induction fuel generalizing low high with
  | zero => rfl
  | succ fuel ih =>
    rw [findBlockLoop, SSTable.findBlockLoop]
    split
    · have hmid : (low + high) / 2 < index.length := by omega
      have hentry : entryAt index ((low + high) / 2) = .ok index[(low + high) / 2] := by
        rw [entryAt, List.getElem?_eq_getElem hmid]
      rw [hentry, ok_bind]
      dsimp only
      rw [List.getElem?_eq_getElem hmid]
      dsimp only
      split
      · exact ih _ hhigh
      · exact ih _ (by omega)
    · rfl

theorem findBlock_eq (t : SSTable) (key : VectorId) : findBlock t key = .ok (t.findBlock key) := by
  rw [findBlock, findBlockLoop_eq t.index key _ 0 (Nat.le_refl _)]
  rfl

theorem get_eq (t : SSTable) (file : Option (List UInt8)) (id : VectorId) :
    get codec t file id = t.get codec file id := by
  rw [get, SSTable.get]
  split
  · rfl
  rw [findBlock_eq, ok_bind]
  by_cases hlt : t.findBlock id < t.index.length
  · rw [if_neg (by omega), entryAt, List.getElem?_eq_getElem hlt, ok_bind, loadBlock_eq]
    dsimp only
    cases SSTable.loadBlock codec file t.index[t.findBlock id] <;> rfl
  · rw [if_pos (by omega), List.getElem?_eq_none (by omega)]

theorem scanBlocks_eq (t : SSTable) (file : Option (List UInt8)) (start stop : VectorId)
    (count i : Nat) (hcount : count = t.index.length - i) :
    scanBlocks codec t file start stop count i =
      SSTable.scanBlocks codec file start stop (t.index.drop i) := by
  induction count generalizing i with
  | zero =>
    rw [List.drop_of_length_le (by omega)]
    rfl
  | succ count ih =>
    have hlt : i < t.index.length := by omega
    rw [scanBlocks, List.drop_eq_getElem_cons hlt, SSTable.scanBlocks, entryAt,
      List.getElem?_eq_getElem hlt, ok_bind, loadBlock_eq, ih (i + 1) (by omega)]
    cases SSTable.loadBlock codec file t.index[i] with
    | error e => rfl
    | ok block =>
      rw [ok_bind]
      dsimp only
      split
      · rfl
      · cases SSTable.scanBlocks codec file start stop (t.index.drop (i + 1)) <;> rfl

theorem scan_eq (t : SSTable) (file : Option (List UInt8)) (start stop : Option VectorId) :
    scan codec t file start stop = t.scan codec file start stop := by
  rw [scan, SSTable.scan, findBlock_eq, ok_bind]
  exact scanBlocks_eq t file _ _ _ _ rfl

end Checked

/-! ## Opening -/

theorem noPanic_ok {α : Type} (a : α) : NoPanic (.ok a : Except RTDBError α) := fun msg => by simp

theorem not_noPanic {α : Type} (msg : String) :
    ¬ NoPanic (.error (.panic msg) : Except RTDBError α) := fun hnone => hnone msg rfl

theorem noPanic_map {α β : Type} {f : α → β} {result : Except RTDBError α} :
    NoPanic (result.map f) ↔ NoPanic result := by
  cases result with
  | error e => simp [NoPanic, Except.map]
  | ok a => exact iff_of_true (noPanic_ok _) (noPanic_ok _)

/-- The entries of an index of `count` entries leave the buffer when what lies behind its last whole
entry passes the test. -/
theorem decodeIndexEntries_noPanic_iff (count : Nat) (data : List UInt8) :
    NoPanic (decodeIndexEntries count data) ↔
      ¬(data.length / 20 < count ∧ 16 ≤ data.length % 20) := by
  induction count generalizing data with
  | zero => exact iff_of_true (noPanic_ok _) (by omega)
  | succ count ih =>
    rw [decodeIndexEntries]
    by_cases hshort : data.length < 16
    · rw [if_pos hshort]
      exact iff_of_true (noPanic_ok _) (by omega)
    rw [if_neg hshort]
    by_cases hcut : data.length < 20
    · rw [if_pos hcut]
      exact iff_of_false (not_noPanic _) (by omega)
    rw [if_neg hcut, noPanic_map, ih, List.length_drop]
    omega

/-- The trailer, the footer and the metadata of the file are accepted. -/
structure Headed (codec : Codec P) (file : List UInt8) (footer : Footer) : Prop where
  long : 32 ≤ file.length
  /-- Offsets of files are positive `i64`. -/
  short : file.length < 2 ^ 63 + 8
  magic : leNat ((file.drop (file.length - 8)).take 4) = sstableMagic
  version : leNat ((file.drop (file.length - 4)).take 4) = sstableVersion
  decoded : Footer.decode ((file.drop (file.length - 32)).take 24) = .ok footer
  metaOffset : footer.metaOffset < file.length - 32
  metadata : ∃ m, codec.metaFromSlice
    ((file.drop footer.metaOffset).take (file.length - 32 - footer.metaOffset)) = .ok m

/-- The index that the footer points at: it is too large for any buffer, or it is in the file, has
more entries than fit, and sixteen bytes or more behind the last whole one. -/
def BadIndex (file : List UInt8) (footer : Footer) : Prop :=
  footer.indexOffset < 2 ^ 63 ∧
    (2 ^ 63 ≤ footer.indexSize ∨
      footer.indexOffset + footer.indexSize ≤ file.length ∧ 4 ≤ footer.indexSize ∧
        (footer.indexSize - 4) / 20 < leNat ((file.drop footer.indexOffset).take 4) ∧
        16 ≤ (footer.indexSize - 4) % 20)

theorem readIndex_noPanic_iff (file : List UInt8) (footer : Footer) :
    NoPanic (readAt file footer.indexOffset footer.indexSize >>= decodeIndex) ↔
      ¬ BadIndex file footer := by
  rw [readAt, BadIndex]
  by_cases hoffset : footer.indexOffset ≥ 2 ^ 63
  · rw [if_pos hoffset]
    exact iff_of_true (noPanic_storage _) (by omega)
  rw [if_neg hoffset]
  by_cases hlarge : footer.indexSize ≥ 2 ^ 63
  · rw [if_pos hlarge]
    exact iff_of_false (not_noPanic _) (by omega)
  rw [if_neg hlarge]
  by_cases hempty : footer.indexSize = 0
  · rw [if_pos hempty]
    exact iff_of_true (noPanic_ok _) (by omega)
  rw [if_neg hempty]
  by_cases hfits : footer.indexOffset + footer.indexSize ≤ file.length
  · have hlength : ((file.drop footer.indexOffset).take footer.indexSize).length =
        footer.indexSize := by
      rw [List.length_take, List.length_drop]
      omega
    rw [if_pos hfits, ok_bind, decodeIndex, hlength]
    by_cases hcount : footer.indexSize < 4
    · rw [if_pos hcount]
      exact iff_of_true (noPanic_ok _) (by omega)
    rw [if_neg hcount, decodeIndexEntries_noPanic_iff, List.length_drop, hlength, List.take_take,
      Nat.min_eq_left (by omega)]
    omega
  · rw [if_neg hfits]
    exact iff_of_true (noPanic_storage _) (by omega)

theorem readAt_eq {file : List UInt8} {offset size : Nat} (hoffset : offset < 2 ^ 63)
    (hsize : size < 2 ^ 63) (hpos : 0 < size) (hfits : offset + size ≤ file.length) :
    readAt file offset size = .ok ((file.drop offset).take size) := by
  rw [readAt, if_neg (by omega), if_neg (by omega), if_neg (by omega), if_pos hfits]

theorem readFromEnd_eq {file : List UInt8} {distance size : Nat} (hlong : distance ≤ file.length)
    (hshort : file.length - distance < 2 ^ 63) (hsize : size ≤ distance) (hpos : 0 < size)
    (hsmall : size < 2 ^ 63) :
    readFromEnd file distance size = .ok ((file.drop (file.length - distance)).take size) := by
  rw [readFromEnd, if_neg (by omega), readAt_eq hshort hsmall hpos (by omega)]

theorem openFile_of_headed {codec : Codec P} {path : Path} {file : List UInt8} {footer : Footer}
    (hheaded : Headed codec file footer) :
    NoPanic (SSTable.openFile codec path file) ↔
      NoPanic (readAt file footer.indexOffset footer.indexSize >>= decodeIndex) := by
  obtain ⟨hlong, hshort, hmagic, hversion, hfooter, hmeta, m, hm⟩ := hheaded
  rw [SSTable.openFile, readFromEnd_eq (by omega) (by omega) (by omega) (by omega) (by omega)]
  dsimp only
  have hlast : ((file.drop (file.length - 8)).take 8).drop 4 =
      (file.drop (file.length - 4)).take 4 := by
    rw [List.drop_take, List.drop_drop, show file.length - 8 + 4 = file.length - 4 by omega]
  rw [List.take_take, Nat.min_eq_left (by omega), hmagic, hlast, hversion,
    if_neg (not_not.mpr rfl), if_neg (not_not.mpr rfl),
    readFromEnd_eq hlong (by omega) (by omega) (by omega) (by omega)]
  dsimp only
  rw [hfooter]
  dsimp only
  rw [if_neg (by omega), readAt_eq (by omega) (by omega) (by omega) (by omega)]
  dsimp only
  rw [hm]
  dsimp only
  cases readAt file footer.indexOffset footer.indexSize with
  | error e => simp [NoPanic, bind, Except.bind]
  | ok indexBuf =>
    rw [ok_bind]
    dsimp only
    cases decodeIndex indexBuf with
    | error e => simp [NoPanic]
    | ok index => exact iff_of_true (noPanic_ok _) (noPanic_ok _)

theorem footer_decode_noPanic (data : List UInt8) : NoPanic (Footer.decode data) := by
  rw [Footer.decode]
  split
  · exact noPanic_storage _
  · exact noPanic_ok _

/-- A file that is not accepted so far gives an error. -/
theorem openFile_noPanic_of_not_headed {codec : Codec P} (path : Path) {file : List UInt8}
    (hnot : ∀ footer, ¬ Headed codec file footer) : NoPanic (SSTable.openFile codec path file) := by
  rw [SSTable.openFile]
  cases htrailer : readFromEnd file 8 8 with
  | error e => exact (readFromEnd_noPanic (by decide)).error htrailer
  | ok trailer =>
    have hshort := readFromEnd_lt htrailer
    have hlong := (Checked.readFromEnd_ok htrailer).1
    rw [readFromEnd_eq hlong (by omega) (by omega) (by omega) (by omega)] at htrailer
    obtain rfl := Except.ok.inj htrailer
    have hlast : ((file.drop (file.length - 8)).take 8).drop 4 =
        (file.drop (file.length - 4)).take 4 := by
      rw [List.drop_take, List.drop_drop, show file.length - 8 + 4 = file.length - 4 by omega]
    dsimp only
    rw [List.take_take, Nat.min_eq_left (by omega), hlast]
    split
    · exact noPanic_storage _
    rename_i hmagic
    split
    · exact noPanic_storage _
    rename_i hversion
    cases hfooter : readFromEnd file 32 24 with
    | error e => exact (readFromEnd_noPanic (by decide)).error hfooter
    | ok footerBuf =>
      have hfoot := (Checked.readFromEnd_ok hfooter).1
      rw [readFromEnd_eq hfoot (by omega) (by omega) (by omega) (by omega)] at hfooter
      obtain rfl := Except.ok.inj hfooter
      dsimp only
      cases hdecode : Footer.decode ((file.drop (file.length - 32)).take 24) with
      | error e => exact (footer_decode_noPanic _).error hdecode
      | ok footer =>
        dsimp only
        split
        · exact noPanic_storage _
        rename_i hmeta
        cases hread : readAt file footer.metaOffset (file.length - 32 - footer.metaOffset) with
        | error e => exact (readAt_noPanic (by omega)).error hread
        | ok metaBuf =>
          rw [readAt_eq (by omega) (by omega) (by omega) (by omega)] at hread
          obtain rfl := Except.ok.inj hread
          dsimp only
          cases hm : codec.metaFromSlice ((file.drop footer.metaOffset).take
              (file.length - 32 - footer.metaOffset)) with
          | error e => exact fun msg => by simp
          | ok m =>
            exact absurd ⟨hfoot, by omega, not_not.mp hmagic, not_not.mp hversion, hdecode,
              by omega, m, hm⟩ (hnot footer)

theorem openFile_noPanic_iff (codec : Codec P) (path : Path) (file : List UInt8) :
    NoPanic (SSTable.openFile codec path file) ↔
      ¬ ∃ footer, Headed codec file footer ∧ BadIndex file footer := by
  by_cases hheaded : ∃ footer, Headed codec file footer
  · obtain ⟨footer, hheaded⟩ := hheaded
    rw [openFile_of_headed hheaded, readIndex_noPanic_iff]
    refine not_congr ⟨fun hbad => ⟨footer, hheaded, hbad⟩, ?_⟩
    rintro ⟨footer', hheaded', hbad⟩
    have hsame := hheaded.decoded.symm.trans hheaded'.decoded
    rw [Except.ok.inj hsame]
    exact hbad
  · refine iff_of_true (openFile_noPanic_of_not_headed path (not_exists.mp hheaded)) ?_
    rintro ⟨footer, hfooter, -⟩
    exact hheaded ⟨footer, hfooter⟩

/-! ## Reading -/

theorem decodeEntries_noPanic (codec : Codec P) (count : Nat) (data : List UInt8) :
    NoPanic (decodeEntries codec count data) := by
  induction count generalizing data with
  | zero => exact noPanic_ok _
  | succ count ih =>
    rw [decodeEntries]
    split
    · exact noPanic_ok _
    split
    · exact noPanic_ok _
    dsimp only
    split
    · exact noPanic_ok _
    split
    · exact noPanic_ok _
    split
    · split
      · exact noPanic_ok _
      split
      · exact fun msg => by simp
      · exact noPanic_map.mpr (ih _)
    · exact noPanic_map.mpr (ih _)

theorem decodeBlock_noPanic (codec : Codec P) (data : List UInt8) :
    NoPanic (decodeBlock codec data) := by
  rw [decodeBlock]
  split
  · exact noPanic_ok _
  · exact decodeEntries_noPanic codec _ _

/-- The sizes in an index are `u32`. -/
def SmallBlocks (index : List IndexEntry) : Prop := ∀ entry ∈ index, entry.size < 2 ^ 32

theorem decodeIndexEntries_small {count : Nat} {data : List UInt8} {index : List IndexEntry}
    (hdecode : decodeIndexEntries count data = .ok index) : SmallBlocks index := by
  induction count generalizing data index with
  | zero =>
    obtain rfl := Except.ok.inj hdecode
    exact fun entry hentry => absurd hentry List.not_mem_nil
  | succ count ih =>
    rw [decodeIndexEntries] at hdecode
    split at hdecode
    · obtain rfl := Except.ok.inj hdecode
      exact fun entry hentry => absurd hentry List.not_mem_nil
    split at hdecode
    · exact absurd hdecode (by simp)
    obtain ⟨rest, hrest, rfl⟩ := map_eq_ok hdecode
    refine List.forall_mem_cons.mpr ⟨?_, ih hrest⟩
    have hlt := leNat_lt ((data.drop 16).take 4)
    have hlength : ((data.drop 16).take 4).length ≤ 4 := List.length_take_le 4 _
    calc leNat ((data.drop 16).take 4) < 256 ^ ((data.drop 16).take 4).length := hlt
      _ ≤ 256 ^ 4 := Nat.pow_le_pow_right (by decide) hlength
      _ = 2 ^ 32 := by decide

theorem decodeIndex_small {data : List UInt8} {index : List IndexEntry}
    (hdecode : decodeIndex data = .ok index) : SmallBlocks index := by
  rw [decodeIndex] at hdecode
  split at hdecode
  · obtain rfl := Except.ok.inj hdecode
    exact fun entry hentry => absurd hentry List.not_mem_nil
  · exact decodeIndexEntries_small hdecode

theorem openFile_small {codec : Codec P} {path : Path} {file : List UInt8} {t : SSTable}
    (hopen : SSTable.openFile codec path file = .ok t) : SmallBlocks t.index := by
  simp only [SSTable.openFile] at hopen
  repeat' split at hopen
  all_goals cases hopen
  exact decodeIndex_small ‹_›

theorem loadBlock_noPanic (codec : Codec P) (file : Option (List UInt8)) {entry : IndexEntry}
    (hsize : entry.size < 2 ^ 32) : NoPanic (SSTable.loadBlock codec file entry) := by
  cases file with
  | none => exact noPanic_storage _
  | some file =>
    rw [SSTable.loadBlock]
    cases hread : readAt file entry.offset entry.size with
    | error e => exact (readAt_noPanic (by omega)).error hread
    | ok data => exact decodeBlock_noPanic codec data

theorem get_noPanic (codec : Codec P) {t : SSTable} (hsmall : SmallBlocks t.index)
    (file : Option (List UInt8)) (id : VectorId) : NoPanic (t.get codec file id) := by
  rw [SSTable.get]
  split
  · exact noPanic_ok _
  cases hentry : t.index[t.findBlock id]? with
  | none => exact noPanic_ok _
  | some entry =>
    have hblock := loadBlock_noPanic codec file (hsmall entry (List.mem_of_getElem? hentry))
    dsimp only
    cases hload : SSTable.loadBlock codec file entry with
    | error e => exact hblock.error hload
    | ok block => exact noPanic_ok _

theorem scanBlocks_noPanic (codec : Codec P) (file : Option (List UInt8)) (start stop : VectorId)
    {index : List IndexEntry} (hsmall : SmallBlocks index) :
    NoPanic (SSTable.scanBlocks codec file start stop index) := by
  induction index with
  | nil => exact noPanic_ok _
  | cons entry rest ih =>
    obtain ⟨hfirst, hrest⟩ := List.forall_mem_cons.mp hsmall
    rw [SSTable.scanBlocks]
    cases hload : SSTable.loadBlock codec file entry with
    | error e => exact (loadBlock_noPanic codec file hfirst).error hload
    | ok block =>
      dsimp only
      split
      · exact noPanic_ok _
      · exact noPanic_map.mpr (ih hrest)

theorem scan_noPanic (codec : Codec P) {t : SSTable} (hsmall : SmallBlocks t.index)
    (file : Option (List UInt8)) (start stop : Option VectorId) :
    NoPanic (t.scan codec file start stop) := by
  rw [SSTable.scan]
  exact scanBlocks_noPanic codec file _ _ fun entry hentry =>
    hsmall entry (List.mem_of_mem_drop hentry)

/-- Opening a file, and then every `get` and `scan` on whatever the file holds by then, end with a
value or an error, no index or difference out of range. -/
def ReadsInBounds (codec : Codec P) (path : Path) (file : List UInt8) : Prop :=
  NoPanic (Checked.openFile codec path file) ∧
    ∀ t, Checked.openFile codec path file = .ok t → ∀ now : Option (List UInt8),
      (∀ id, NoPanic (Checked.get codec t now id)) ∧
        ∀ start stop, NoPanic (Checked.scan codec t now start stop)

theorem reads_in_bounds_iff (codec : Codec P) (path : Path) (file : List UInt8) :
    ReadsInBounds codec path file ↔
      ¬ ∃ footer, Headed codec file footer ∧ BadIndex file footer := by
  rw [ReadsInBounds, Checked.openFile_eq, openFile_noPanic_iff, and_iff_left]
  intro t hopen now
  have hsmall := openFile_small hopen
  refine ⟨fun id => ?_, fun start stop => ?_⟩
  · rw [Checked.get_eq]
    exact get_noPanic codec hsmall now id
  · rw [Checked.scan_eq]
    exact scan_noPanic codec hsmall now start stop

/-- A table whose index has room for all of its one entry but the size. -/
def cutIndexFile : List UInt8 :=
  tableFile [] (leBytes 4 1 ++ List.replicate 16 0) (ascii sampleMetaText)

theorem not_reads_in_bounds :
    ¬ ReadsInBounds sampleCodec { level := 0, timestamp := 0 } cutIndexFile := by
  intro hreads
  have hpanic : Checked.openFile sampleCodec { level := 0, timestamp := 0 } cutIndexFile =
      .error outOfBounds := by decide +kernel
  exact hreads.1 _ hpanic

end Storage
end RTDB
