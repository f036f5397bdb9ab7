import Mathlib.Algebra.GroupWithZero.Nat
import RTDB.Storage.TableBuilder

/-!
# Tables, written and read

Opening a finished file gives back the index of its blocks, a lookup finds the
block by binary search, and a scan walks the blocks in order.  A table comes back
exactly when no block and no list of blocks is too long for the field that holds
its length.
-/

namespace RTDB
namespace Storage

open Bytes Layers StorageEngine

variable {P : Type}

/-! ## Reading parts of a file -/

theorem readAt_take {front part : List UInt8} (rest : List UInt8) {n : Nat}
    (hfront : front.length < 2 ^ 63) (hn : n < 2 ^ 63) (hle : n ≤ part.length) :
    readAt (front ++ (part ++ rest)) front.length n = .ok (part.take n) := by
  rw [readAt, if_neg (by omega), if_neg (by omega)]
  split
  · rename_i hzero
    rw [hzero]
    rfl
  · rw [if_pos (by rw [List.length_append, List.length_append]; omega), List.drop_left' rfl,
      List.take_append_of_le_length hle]

theorem readAt_whole {front part : List UInt8} (rest : List UInt8)
    (hfront : front.length < 2 ^ 63) (hpart : part.length < 2 ^ 63) :
    readAt (front ++ (part ++ rest)) front.length part.length = .ok part := by
  rw [readAt_take rest hfront hpart (Nat.le_refl _), List.take_length]

theorem readFromEnd_whole (front part rest : List UInt8) {distance size : Nat}
    (hdistance : (part ++ rest).length = distance) (hsize : part.length = size)
    (hfront : front.length < 2 ^ 63) (hpart : size < 2 ^ 63) :
    readFromEnd (front ++ (part ++ rest)) distance size = .ok part := by
  subst hsize
  rw [readFromEnd, if_neg (by rw [List.length_append]; omega), List.length_append, hdistance,
    Nat.add_sub_cancel, readAt_whole rest hfront hpart]

/-- A finished file that is not too long opens. -/
theorem openFile_tableFile {codec : Codec P} {path : Path} {blocks index metadata : List UInt8}
    {m : SSTableMeta} {entries : List IndexEntry}
    (hlength : (tableFile blocks index metadata).length < 2 ^ 63 + 8) (hne : metadata ≠ [])
    (hmeta : codec.metaFromSlice metadata = .ok m) (hindex : decodeIndex index = .ok entries) :
    SSTable.openFile codec path (tableFile blocks index metadata) =
      .ok { metadata := m, index := entries, path } := by
  have hlen := tableFile_length blocks index metadata
  have hpos : 0 < metadata.length := List.length_pos_iff.mpr hne
  have htrailer : readFromEnd (tableFile blocks index metadata) 8 8 =
      .ok (leBytes 4 sstableMagic ++ leBytes 4 sstableVersion) := by
    rw [tableFile, List.append_assoc, ← List.append_nil (leBytes 4 sstableMagic ++ _)]
    refine readFromEnd_whole _ _ [] (by simp) (by simp) ?_ (by decide)
    simp only [List.length_append, Footer.encode, length_leBytes]
    omega
  have hfooter : readFromEnd (tableFile blocks index metadata) 32 24 =
      .ok (Footer.mk blocks.length index.length (blocks.length + index.length)).encode := by
    rw [tableFile, List.append_assoc, List.append_assoc]
    refine readFromEnd_whole _ _ _ (by simp [Footer.encode]) (by simp [Footer.encode]) ?_
      (by decide)
    simp only [List.length_append]
    omega
  have hsize : (tableFile blocks index metadata).length - 32 - (blocks.length + index.length) =
      metadata.length := by omega
  have hmetaBuf : readAt (tableFile blocks index metadata) (blocks.length + index.length)
      metadata.length = .ok metadata := by
    rw [tableFile, ← List.length_append, List.append_assoc, List.append_assoc, List.append_assoc]
    refine readAt_whole _ ?_ (by omega)
    rw [List.length_append]
    omega
  have hindexBuf : readAt (tableFile blocks index metadata) blocks.length index.length =
      .ok index := by
    rw [tableFile]
    simp only [List.append_assoc]
    exact readAt_whole _ (by omega) (by omega)
  have hdecode := footer_decode_encode
    (f := Footer.mk blocks.length index.length (blocks.length + index.length))
    (show blocks.length < 2 ^ 64 by omega) (show index.length < 2 ^ 64 by omega)
    (show blocks.length + index.length < 2 ^ 64 by omega)
  rw [SSTable.openFile, htrailer]
  simp only [trailer_leNat, ne_eq, not_true_eq_false, if_false, hfooter, hdecode]
  rw [if_neg (by omega), hsize]
  simp only [hmetaBuf, hmeta, hindexBuf, hindex]

theorem openFile_lt {codec : Codec P} {path : Path} {file : List UInt8} {table : SSTable}
    (hopen : SSTable.openFile codec path file = .ok table) : file.length < 2 ^ 63 + 8 := by
  rw [SSTable.openFile] at hopen
  cases htrailer : readFromEnd file 8 8 with
  | error e =>
    rw [htrailer] at hopen
    exact absurd hopen (by simp)
  | ok trailer => exact readFromEnd_lt htrailer

/-! ## The index -/

theorem decodeIndexEntries_encode {index : List IndexEntry} (count : Nat)
    (hindex : ∀ entry ∈ index,
      entry.key < 2 ^ 64 ∧ entry.offset < 2 ^ 64 ∧ entry.size < 2 ^ 32) :
    decodeIndexEntries count (index.flatMap fun entry =>
        leBytes 8 entry.key ++ leBytes 8 entry.offset ++ leBytes 4 entry.size) =
      .ok (index.take count) := by
  induction index generalizing count with
  | nil =>
    cases count with
    | zero => rfl
    | succ count => rfl
  | cons entry index ih =>
    cases count with
    | zero => rfl
    | succ count =>
      obtain ⟨⟨hkey, hoffset, hsize⟩, hindex⟩ := List.forall_mem_cons.mp hindex
      have hkey' : leNat (leBytes 8 entry.key) = entry.key := leNat_leBytes_of_lt hkey
      have hoffset' : leNat (leBytes 8 entry.offset) = entry.offset := leNat_leBytes_of_lt hoffset
      have hsize' : leNat (leBytes 4 entry.size) = entry.size := leNat_leBytes_of_lt hsize
      have hlength : (leBytes 8 entry.key ++ leBytes 8 entry.offset ++
          leBytes 4 entry.size).length = 20 := by simp
      rw [List.flatMap_cons]
      generalize hrest : (index.flatMap fun entry =>
        leBytes 8 entry.key ++ leBytes 8 entry.offset ++ leBytes 4 entry.size) = rest at ih
      have hfields : (leBytes 8 entry.key ++ leBytes 8 entry.offset ++
            leBytes 4 entry.size ++ rest).take 8 = leBytes 8 entry.key ∧
          ((leBytes 8 entry.key ++ leBytes 8 entry.offset ++
            leBytes 4 entry.size ++ rest).drop 8).take 8 = leBytes 8 entry.offset ∧
          ((leBytes 8 entry.key ++ leBytes 8 entry.offset ++
            leBytes 4 entry.size ++ rest).drop 16).take 4 = leBytes 4 entry.size := by
        have hdrop : (leBytes 8 entry.key ++ leBytes 8 entry.offset ++
            leBytes 4 entry.size ++ rest).drop 8 =
              leBytes 8 entry.offset ++ (leBytes 4 entry.size ++ rest) := by
          simp only [List.append_assoc]
          exact List.drop_left' (length_leBytes 8 _)
        refine ⟨?_, ?_, ?_⟩
        · simp only [List.append_assoc]
          exact List.take_left' (length_leBytes 8 _)
        · rw [hdrop, List.take_left' (length_leBytes 8 _)]
        · rw [← List.drop_drop (i := 8) (j := 8), hdrop, List.drop_left' (length_leBytes 8 _),
            List.take_left' (length_leBytes 4 _)]
      rw [decodeIndexEntries, if_neg (by rw [List.length_append]; omega),
        if_neg (by rw [List.length_append]; omega), List.drop_left' hlength, ih count hindex]
      simp only [hfields, hkey', hoffset', hsize', List.take_succ_cons]
      rfl

/-- The index comes back up to its length modulo `2 ^ 32`. -/
theorem decodeIndex_encode {index : List IndexEntry} (hindex : ∀ entry ∈ index,
      entry.key < 2 ^ 64 ∧ entry.offset < 2 ^ 64 ∧ entry.size < 2 ^ 32) :
    decodeIndex (encodeIndex index) = .ok (index.take (index.length % 2 ^ 32)) := by
  have hcount : leNat (leBytes 4 index.length) = index.length % 2 ^ 32 :=
    leNat_leBytes 4 index.length
  rw [decodeIndex, encodeIndex, if_neg (by rw [List.length_append, length_leBytes]; omega),
    List.take_left' (length_leBytes 4 _), List.drop_left' (length_leBytes 4 _), hcount,
    decodeIndexEntries_encode _ hindex]

/-! ## The binary search -/

/-- The keys before `low` are not larger than `key`, those from `high` on are. -/
structure Between (index : List IndexEntry) (key : VectorId) (low high : Nat) : Prop where
  le : low ≤ high
  bound : high ≤ index.length
  below : ∀ i entry, index[i]? = some entry → i < low → entry.key ≤ key
  above : ∀ i entry, index[i]? = some entry → high ≤ i → key < entry.key

section Search

variable {index : List IndexEntry} {key : VectorId} {low high : Nat}

theorem key_lt_key (hsorted : index.Pairwise (·.key < ·.key)) {i j : Nat} {a b : IndexEntry}
    (ha : index[i]? = some a) (hb : index[j]? = some b) (hij : i < j) : a.key < b.key := by
  obtain ⟨hi, rfl⟩ := List.getElem?_eq_some_iff.mp ha
  obtain ⟨hj, rfl⟩ := List.getElem?_eq_some_iff.mp hb
  exact List.pairwise_iff_getElem.mp hsorted i j hi hj hij

theorem Between.right (hb : Between index key low high) (hsorted : index.Pairwise (·.key < ·.key))
    {mid : Nat} {entry : IndexEntry} (hentry : index[mid]? = some entry) (hmid : mid < high)
    (hkey : entry.key ≤ key) : Between index key (mid + 1) high := by
  refine ⟨by omega, hb.bound, fun i entry' hentry' hi => ?_, hb.above⟩
  rcases Nat.lt_or_ge i mid with hlt | hge
  · exact Nat.le_trans (Nat.le_of_lt (key_lt_key hsorted hentry' hentry hlt)) hkey
  · obtain rfl : i = mid := by omega
    rw [← Option.some.inj (hentry.symm.trans hentry')]
    exact hkey

theorem Between.left (hb : Between index key low high) (hsorted : index.Pairwise (·.key < ·.key))
    {mid : Nat} {entry : IndexEntry} (hentry : index[mid]? = some entry) (hlow : low ≤ mid)
    (hmid : mid < high) (hkey : ¬ entry.key ≤ key) : Between index key low mid := by
  have hbound := hb.bound
  refine ⟨hlow, by omega, hb.below, fun i entry' hentry' hi => ?_⟩
  rcases Nat.lt_or_ge mid i with hlt | hge
  · exact Nat.lt_trans (Nat.lt_of_not_le hkey) (key_lt_key hsorted hentry hentry' hlt)
  · obtain rfl : i = mid := by omega
    rw [← Option.some.inj (hentry.symm.trans hentry')]
    exact Nat.lt_of_not_le hkey

/-- The loop closes the interval. -/
theorem findBlockLoop_between (hsorted : index.Pairwise (·.key < ·.key)) (fuel : Nat)
    (hb : Between index key low high) (hfuel : high - low ≤ fuel) :
    Between index key (SSTable.findBlockLoop index key fuel low high)
      (SSTable.findBlockLoop index key fuel low high) := by
  induction fuel generalizing low high with
  | zero =>
    have hle := hb.le
    obtain rfl : low = high := by omega
    exact hb
  | succ fuel ih =>
    rw [SSTable.findBlockLoop]
    split
    · rename_i hlt
      have hbound := hb.bound
      have hentry := List.getElem?_eq_getElem (show (low + high) / 2 < index.length by omega)
      simp only [hentry]
      split
      · rename_i hkey
        exact ih (hb.right hsorted hentry (by omega) hkey) (by omega)
      · rename_i hkey
        exact ih (hb.left hsorted hentry (by omega) (by omega) hkey) (by omega)
    · have hle := hb.le
      obtain rfl : low = high := by omega
      exact hb

end Search

/-- The block before the first one that begins behind the key. -/
theorem findBlock_spec {table : SSTable} (hsorted : table.index.Pairwise (·.key < ·.key))
    (key : VectorId) :
    ∃ n ≤ table.index.length, table.findBlock key = n - 1 ∧
      ∀ i entry, table.index[i]? = some entry → (entry.key ≤ key ↔ i < n) := by
  have hstart : Between table.index key 0 table.index.length := by
    refine ⟨Nat.zero_le _, Nat.le_refl _, fun i entry _ hi => absurd hi (Nat.not_lt_zero i), ?_⟩
    intro i entry hentry hi
    rw [List.getElem?_eq_none hi] at hentry
    exact absurd hentry (by simp)
  have hend := findBlockLoop_between hsorted table.index.length hstart (Nat.le_refl _)
  refine ⟨_, hend.bound, rfl, fun i entry hentry => ⟨fun hkey => ?_, hend.below i entry hentry⟩⟩
  by_contra hi
  exact absurd hkey (Nat.not_le_of_lt (hend.above i entry hentry (Nat.le_of_not_lt hi)))

/-! ## Blocks in a row -/

/-- Blocks of entries in the order of their ids. -/
structure Rows (blocks : List (List (VectorId × Vector P))) : Prop where
  ne_nil : ∀ es ∈ blocks, es ≠ []
  sorted : blocks.flatten.Pairwise (·.1 < ·.1)

section Rows

variable {blocks : List (List (VectorId × Vector P))} {es es' : List (VectorId × Vector P)}
  {kv : VectorId × Vector P} {i j : Nat}

theorem Rows.block_sorted (hrows : Rows blocks) (hes : es ∈ blocks) : es.Pairwise (·.1 < ·.1) :=
  (List.pairwise_flatten.mp hrows.sorted).1 es hes

theorem Rows.take (hrows : Rows blocks) (n : Nat) : Rows (blocks.take n) := by
  refine ⟨fun es hes => hrows.ne_nil es (List.mem_of_mem_take hes), ?_⟩
  obtain ⟨hblocks, hpairs⟩ := List.pairwise_flatten.mp hrows.sorted
  exact List.pairwise_flatten.mpr
    ⟨fun es hes => hblocks es (List.mem_of_mem_take hes), hpairs.sublist (List.take_sublist n _)⟩

theorem Rows.lt_of_lt (hrows : Rows blocks) (hes : blocks[i]? = some es)
    (hes' : blocks[j]? = some es') (hij : i < j) :
    ∀ kv ∈ es, ∀ kv' ∈ es', kv.1 < kv'.1 := by
  obtain ⟨hi, rfl⟩ := List.getElem?_eq_some_iff.mp hes
  obtain ⟨hj, rfl⟩ := List.getElem?_eq_some_iff.mp hes'
  exact List.pairwise_iff_getElem.mp (List.pairwise_flatten.mp hrows.sorted).2 i j hi hj hij

theorem Rows.firstId_mem (hrows : Rows blocks) (hes : es ∈ blocks) :
    ∃ kv ∈ es, firstId es = kv.1 := by
  obtain ⟨kv, rest, rfl⟩ := List.exists_cons_of_ne_nil (hrows.ne_nil es hes)
  exact ⟨kv, List.mem_cons_self, rfl⟩

theorem Rows.firstId_le (hrows : Rows blocks) (hes : es ∈ blocks) (hkv : kv ∈ es) :
    firstId es ≤ kv.1 := by
  have hsorted := hrows.block_sorted hes
  obtain ⟨kv', rest, rfl⟩ := List.exists_cons_of_ne_nil (hrows.ne_nil es hes)
  rcases List.mem_cons.mp hkv with rfl | hkv
  · exact Nat.le_refl _
  · exact Nat.le_of_lt ((List.pairwise_cons.mp hsorted).1 kv hkv)

end Rows

theorem indexOf_length (codec : Codec P) (offset : Nat)
    (blocks : List (List (VectorId × Vector P))) :
    (indexOf codec offset blocks).length = blocks.length := by
  induction blocks generalizing offset with
  | nil => rfl
  | cons es blocks ih => rw [indexOf, List.length_cons, ih, List.length_cons]

theorem indexOf_take (codec : Codec P) (offset n : Nat)
    (blocks : List (List (VectorId × Vector P))) :
    (indexOf codec offset blocks).take n = indexOf codec offset (blocks.take n) := by
  induction blocks generalizing offset n with
  | nil => simp [indexOf]
  | cons es blocks ih =>
    cases n with
    | zero => rfl
    | succ n => rw [indexOf, List.take_succ_cons, List.take_succ_cons, indexOf, ih]

theorem indexOf_keys (codec : Codec P) (offset : Nat)
    (blocks : List (List (VectorId × Vector P))) :
    (indexOf codec offset blocks).map IndexEntry.key = blocks.map firstId := by
  induction blocks generalizing offset with
  | nil => rfl
  | cons es blocks ih => rw [indexOf, List.map_cons, List.map_cons, ih]

theorem indexOf_getElem? (codec : Codec P) (offset : Nat)
    {blocks : List (List (VectorId × Vector P))} {i : Nat} {es : List (VectorId × Vector P)}
    (hes : blocks[i]? = some es) :
    (indexOf codec offset blocks)[i]? =
      some { key := firstId es
             offset := offset + ((blocks.take i).flatMap (blockBytes codec)).length
             size := (blockBytes codec es).length % 2 ^ 32 } := by
  induction blocks generalizing offset i with
  | nil => exact absurd hes (by simp)
  | cons es' blocks ih =>
    cases i with
    | zero =>
      obtain rfl : es' = es := Option.some.inj hes
      rfl
    | succ i =>
      rw [indexOf, List.getElem?_cons_succ, ih _ hes, List.take_succ_cons, List.flatMap_cons,
        List.length_append, Nat.add_assoc]

theorem Rows.index_sorted {blocks : List (List (VectorId × Vector P))} (hrows : Rows blocks)
    (codec : Codec P) (offset : Nat) :
    (indexOf codec offset blocks).Pairwise (·.key < ·.key) := by
  have hkeys : ((indexOf codec offset blocks).map IndexEntry.key).Pairwise (· < ·) := by
    rw [indexOf_keys, List.pairwise_map]
    refine (List.pairwise_flatten.mp hrows.sorted).2.imp_of_mem fun hes hes' hlt => ?_
    obtain ⟨kv, hkv, heq⟩ := hrows.firstId_mem hes
    obtain ⟨kv', hkv', heq'⟩ := hrows.firstId_mem hes'
    rw [heq, heq']
    exact hlt kv hkv kv' hkv'
  exact List.pairwise_map.mp hkeys

theorem indexOf_drop (codec : Codec P) (offset n : Nat)
    (blocks : List (List (VectorId × Vector P))) :
    (indexOf codec offset blocks).drop n =
      indexOf codec (offset + ((blocks.take n).flatMap (blockBytes codec)).length)
        (blocks.drop n) := by
  induction blocks generalizing offset n with
  | nil => simp [indexOf]
  | cons es blocks ih =>
    cases n with
    | zero => rfl
    | succ n =>
      rw [indexOf, List.drop_succ_cons, List.drop_succ_cons, List.take_succ_cons, ih,
        List.flatMap_cons, List.length_append, Nat.add_assoc]

/-! ## Lookups -/

/-- A block is read up to its length modulo `2 ^ 32`. -/
theorem loadBlock_part (codec : Codec P) {front : List UInt8} (rest : List UInt8)
    (es : List (VectorId × Vector P)) (key : VectorId) (hfront : front.length < 2 ^ 63) :
    SSTable.loadBlock codec (some (front ++ (blockBytes codec es ++ rest)))
        { key, offset := front.length, size := (blockBytes codec es).length % 2 ^ 32 } =
      decodeBlock codec
        ((blockBytes codec es).take ((blockBytes codec es).length % 2 ^ 32)) := by
  have hmod : (blockBytes codec es).length % 2 ^ 32 < 2 ^ 32 := Nat.mod_lt _ (by decide)
  have hread := readAt_take rest hfront
    (show (blockBytes codec es).length % 2 ^ 32 < 2 ^ 63 by omega) (Nat.mod_le _ _)
  simp only [SSTable.loadBlock, hread]

/-- The table is an index of these blocks, with which the file begins. -/
structure Opened (codec : Codec P) (table : SSTable) (file : List UInt8)
    (blocks : List (List (VectorId × Vector P))) : Prop where
  rows : Rows blocks
  writable : ∀ es ∈ blocks, ∀ entry ∈ es, Writable entry
  index : table.index = indexOf codec 0 blocks
  bytes : blocks.flatMap (blockBytes codec) <+: file
  short : (blocks.flatMap (blockBytes codec)).length < 2 ^ 63
  bounds : ∀ es ∈ blocks, ∀ kv ∈ es, table.metadata.minId ≤ kv.1 ∧ kv.1 ≤ table.metadata.maxId

section Opened

variable {codec : Codec P} {table : SSTable} {file : List UInt8}
  {blocks : List (List (VectorId × Vector P))}

theorem Opened.findBlock (hopened : Opened codec table file blocks) (key : VectorId) :
    ∃ n ≤ blocks.length, table.findBlock key = n - 1 ∧
      ∀ (i : Nat) (es : List (VectorId × Vector P)), blocks[i]? = some es →
        (firstId es ≤ key ↔ i < n) := by
  have hsorted := hopened.rows.index_sorted codec 0
  rw [← hopened.index] at hsorted
  obtain ⟨n, hn, hfind, hkeys⟩ := findBlock_spec hsorted key
  rw [hopened.index, indexOf_length] at hn
  refine ⟨n, hn, hfind, fun i es hes => ?_⟩
  exact hkeys i _ (by rw [hopened.index, indexOf_getElem? codec 0 hes])

theorem Opened.findBlock_mem (hopened : Opened codec table file blocks) {i : Nat}
    {es : List (VectorId × Vector P)} (hes : blocks[i]? = some es) {kv : VectorId × Vector P}
    (hkv : kv ∈ es) : table.findBlock kv.1 = i := by
  obtain ⟨n, hn, hfind, hkeys⟩ := hopened.findBlock kv.1
  have hlow := (hkeys i es hes).mp (hopened.rows.firstId_le (List.mem_of_getElem? hes) hkv)
  have hhigh : ¬ i + 1 < n := by
    intro hlt
    obtain ⟨es', hes'⟩ : ∃ es', blocks[i + 1]? = some es' :=
      ⟨_, List.getElem?_eq_getElem (show i + 1 < blocks.length by omega)⟩
    obtain ⟨kv', hkv', hfirst⟩ := hopened.rows.firstId_mem (List.mem_of_getElem? hes')
    have hbehind := hopened.rows.lt_of_lt hes hes' (Nat.lt_succ_self i) kv hkv kv' hkv'
    have hle := (hkeys (i + 1) es' hes').mpr hlt
    rw [hfirst] at hle
    exact absurd hle (Nat.not_le_of_lt hbehind)
  omega

theorem split_at {α : Type*} {l : List α} {i : Nat} {a : α} (ha : l[i]? = some a) :
    l = l.take i ++ a :: l.drop (i + 1) := by
  obtain ⟨hi, rfl⟩ := List.getElem?_eq_some_iff.mp ha
  rw [← List.drop_eq_getElem_cons hi, List.take_append_drop]

/-- The entry of the index at a block, and what is read there. -/
theorem Opened.load (hopened : Opened codec table file blocks) {i : Nat}
    {es : List (VectorId × Vector P)} (hes : blocks[i]? = some es) :
    ∃ entry, table.index[i]? = some entry ∧ SSTable.loadBlock codec (some file) entry =
      decodeBlock codec
        ((blockBytes codec es).take ((blockBytes codec es).length % 2 ^ 32)) := by
  obtain ⟨rest, hfile⟩ := hopened.bytes
  have hsplit := congrArg (List.flatMap (blockBytes codec)) (split_at hes)
  rw [List.flatMap_append, List.flatMap_cons] at hsplit
  have hshort := hopened.short
  rw [hsplit, List.length_append] at hshort
  refine ⟨_, by rw [hopened.index, indexOf_getElem? codec 0 hes], ?_⟩
  rw [← hfile, hsplit, List.append_assoc, List.append_assoc, Nat.zero_add]
  exact loadBlock_part codec _ es _ (by omega)

/-- A lookup within the range reads the block that `find_block` names. -/
theorem get_loaded {id : VectorId} {entry : IndexEntry}
    (hrange : ¬ (id < table.metadata.minId ∨ id > table.metadata.maxId))
    (hentry : table.index[table.findBlock id]? = some entry) :
    table.get codec (some file) id =
      (SSTable.loadBlock codec (some file) entry).map (held · id) := by
  rw [SSTable.get, if_neg hrange]
  simp only [hentry]
  cases SSTable.loadBlock codec (some file) entry <;> rfl

theorem Opened.get_mem (hopened : Opened codec table file blocks) {i : Nat}
    {es : List (VectorId × Vector P)} (hes : blocks[i]? = some es) {kv : VectorId × Vector P}
    (hkv : kv ∈ es) :
    table.get codec (some file) kv.1 = (decodeBlock codec
      ((blockBytes codec es).take ((blockBytes codec es).length % 2 ^ 32))).map (held · kv.1) := by
  obtain ⟨hmin, hmax⟩ := hopened.bounds es (List.mem_of_getElem? hes) kv hkv
  obtain ⟨entry, hentry, hload⟩ := hopened.load hes
  rw [← hload]
  refine get_loaded ?_ (by rw [hopened.findBlock_mem hes hkv, hentry])
  exact not_or.mpr ⟨Nat.not_lt_of_le hmin, Nat.not_lt_of_le hmax⟩

theorem distinct_of_sorted {l : List (VectorId × Vector P)} (hl : l.Pairwise (·.1 < ·.1)) :
    l.Pairwise (·.1 ≠ ·.1) := hl.imp fun hlt => Nat.ne_of_lt hlt

/-- With blocks that fit, every lookup gives what the blocks list. -/
theorem Opened.get (hopened : Opened codec table file blocks) {m : SSTableMeta}
    (hcodec : codec.Faithful m) (hsmall : ∀ es ∈ blocks, (blockBytes codec es).length < 2 ^ 32)
    (id : VectorId) : table.get codec (some file) id = .ok (held blocks.flatten id) := by
  have hdecode : ∀ es ∈ blocks, decodeBlock codec
      ((blockBytes codec es).take ((blockBytes codec es).length % 2 ^ 32)) = .ok es := by
    intro es hes
    rw [Nat.mod_eq_of_lt (hsmall es hes), List.take_length]
    exact decodeBlock_whole hcodec (hopened.writable es hes) (hsmall es hes)
  cases hheld : held blocks.flatten id with
  | some v =>
    obtain ⟨es, hes, hkv⟩ := List.mem_flatten.mp (mem_of_held hheld)
    obtain ⟨i, hi⟩ := List.mem_iff_getElem?.mp hes
    rw [hopened.get_mem hi hkv, hdecode es hes]
    show Except.ok (held es id) = _
    rw [(held_eq_some_iff (distinct_of_sorted (hopened.rows.block_sorted hes))).mpr hkv]
  | none =>
    have hnone : ∀ es ∈ blocks, held es id = none := by
      intro es hes
      rw [held_eq_none_iff] at hheld ⊢
      exact fun v hv => hheld v (List.mem_flatten.mpr ⟨es, hes, hv⟩)
    by_cases hrange : id < table.metadata.minId ∨ id > table.metadata.maxId
    · rw [SSTable.get, if_pos hrange]
    · obtain ⟨n, hn, hfind, -⟩ := hopened.findBlock id
      cases hes : blocks[n - 1]? with
      | none =>
        have hentry : table.index[table.findBlock id]? = none := by
          rw [hfind, hopened.index, List.getElem?_eq_none_iff, indexOf_length,
            ← List.getElem?_eq_none_iff]
          exact hes
        rw [SSTable.get, if_neg hrange, hentry]
      | some es =>
        obtain ⟨entry, hentry, hload⟩ := hopened.load hes
        rw [← hfind] at hentry
        rw [get_loaded hrange hentry, hload, hdecode es (List.mem_of_getElem? hes)]
        show Except.ok (held es id) = _
        rw [hnone es (List.mem_of_getElem? hes)]

/-! ## Scans -/

theorem takeWhile_eq_filter {stop : VectorId} {es : List (VectorId × Vector P)}
    (hes : es.Pairwise (·.1 < ·.1)) :
    (es.takeWhile fun kv => kv.1 ≤ stop) = es.filter fun kv => kv.1 ≤ stop := by
  induction es with
  | nil => rfl
  | cons kv es ih =>
    obtain ⟨hfirst, hes⟩ := List.pairwise_cons.mp hes
    rw [List.takeWhile_cons, List.filter_cons, ih hes]
    split
    · rfl
    · rename_i hbehind
      symm
      rw [List.filter_eq_nil_iff]
      intro kv' hkv' hle
      have hlt := hfirst kv' hkv'
      simp only [decide_eq_true_eq] at hbehind hle
      exact hbehind (Nat.le_trans (Nat.le_of_lt hlt) hle)

/-- Walking blocks that lie in a row. -/
theorem scanBlocks_row {m : SSTableMeta} (hcodec : codec.Faithful m) (start stop : VectorId)
    (front rest : List UInt8) (hrows : Rows blocks)
    (hwritable : ∀ es ∈ blocks, ∀ entry ∈ es, Writable entry)
    (hsmall : ∀ es ∈ blocks, (blockBytes codec es).length < 2 ^ 32)
    (hshort : (front ++ blocks.flatMap (blockBytes codec)).length < 2 ^ 63) :
    SSTable.scanBlocks codec (some (front ++ (blocks.flatMap (blockBytes codec) ++ rest))) start
        stop (indexOf codec front.length blocks) =
      .ok (blocks.flatten.filter fun kv => decide (start ≤ kv.1) && decide (kv.1 ≤ stop)) := by
  induction blocks generalizing front with
  | nil => rfl
  | cons es blocks ih =>
    obtain ⟨hne, hnes⟩ := List.forall_mem_cons.mp hrows.ne_nil
    obtain ⟨hwritable, hwritables⟩ := List.forall_mem_cons.mp hwritable
    obtain ⟨hsmall, hsmalls⟩ := List.forall_mem_cons.mp hsmall
    have hsorted := hrows.sorted
    rw [List.flatten_cons, List.pairwise_append] at hsorted
    obtain ⟨hes, hblocks, hbehind⟩ := hsorted
    rw [List.flatMap_cons, ← List.append_assoc] at hshort
    have hfront : front.length < 2 ^ 63 := by
      rw [List.length_append, List.length_append] at hshort
      omega
    have hload := loadBlock_part codec (blocks.flatMap (blockBytes codec) ++ rest) es (firstId es)
      hfront
    rw [Nat.mod_eq_of_lt hsmall, List.take_length, decodeBlock_whole hcodec hwritable hsmall]
      at hload
    have hrest := ih (front ++ blockBytes codec es) ⟨hnes, hblocks⟩ hwritables hsmalls hshort
    rw [List.append_assoc, List.length_append] at hrest
    have hresults : ((es.takeWhile fun kv => kv.1 ≤ stop).filter fun kv => kv.1 ≥ start) =
        es.filter fun kv => decide (start ≤ kv.1) && decide (kv.1 ≤ stop) := by
      rw [takeWhile_eq_filter hes, List.filter_filter]
    rw [List.flatMap_cons, List.append_assoc, indexOf, SSTable.scanBlocks, Nat.mod_eq_of_lt hsmall]
    simp only [hload, hresults]
    rw [List.flatten_cons, List.filter_append]
    split
    · rename_i hany
      obtain ⟨kv, hkv, hstop⟩ := List.any_eq_true.mp hany
      have hnone : (blocks.flatten.filter fun kv =>
          decide (start ≤ kv.1) && decide (kv.1 ≤ stop)) = [] := by
        rw [List.filter_eq_nil_iff]
        intro kv' hkv' hin
        have hlt := hbehind kv hkv kv' hkv'
        simp only [Bool.and_eq_true, decide_eq_true_eq] at hin hstop
        exact absurd (Nat.lt_trans hstop hlt) (Nat.not_lt_of_le hin.2)
      rw [hnone, List.append_nil]
    · rw [hrest]
      rfl

theorem Rows.drop (hrows : Rows blocks) (n : Nat) : Rows (blocks.drop n) := by
  refine ⟨fun es hes => hrows.ne_nil es (List.mem_of_mem_drop hes), ?_⟩
  obtain ⟨hblocks, hpairs⟩ := List.pairwise_flatten.mp hrows.sorted
  exact List.pairwise_flatten.mpr
    ⟨fun es hes => hblocks es (List.mem_of_mem_drop hes), hpairs.sublist (List.drop_sublist n _)⟩

/-- What lies before the block where a scan starts lies before its bounds. -/
theorem Opened.before_start (hopened : Opened codec table file blocks) (start : VectorId) :
    ∀ kv ∈ (blocks.take (table.findBlock start)).flatten, kv.1 < start := by
  intro kv hkv
  obtain ⟨n, hn, hfind, hkeys⟩ := hopened.findBlock start
  obtain ⟨es, hes, hkv⟩ := List.mem_flatten.mp hkv
  obtain ⟨i, hi⟩ := List.mem_iff_getElem?.mp hes
  rw [hfind, List.getElem?_take] at hi
  split at hi
  · rename_i hlt
    obtain ⟨es', hes'⟩ : ∃ es', blocks[n - 1]? = some es' :=
      ⟨_, List.getElem?_eq_getElem (show n - 1 < blocks.length by omega)⟩
    obtain ⟨kv', hkv', hfirst⟩ := hopened.rows.firstId_mem (List.mem_of_getElem? hes')
    have hbehind := hopened.rows.lt_of_lt hi hes' hlt kv hkv kv' hkv'
    have hle := (hkeys (n - 1) es' hes').mpr (by omega)
    rw [hfirst] at hle
    exact Nat.lt_of_lt_of_le hbehind hle
  · exact absurd hi (by simp)

/-- With blocks that fit, a scan lists what lies in the bounds. -/
theorem Opened.scan (hopened : Opened codec table file blocks) {m : SSTableMeta}
    (hcodec : codec.Faithful m) (hsmall : ∀ es ∈ blocks, (blockBytes codec es).length < 2 ^ 32)
    (start stop : Option VectorId) :
    table.scan codec (some file) start stop =
      .ok (blocks.flatten.filter fun kv => inRange kv.1 start stop) := by
  obtain ⟨rest, hfile⟩ := hopened.bytes
  have hbefore := hopened.before_start (start.getD table.metadata.minId)
  rw [SSTable.scan]
  generalize table.findBlock (start.getD table.metadata.minId) = k at hbefore ⊢
  have hsplit : blocks.flatMap (blockBytes codec) =
      (blocks.take k).flatMap (blockBytes codec) ++ (blocks.drop k).flatMap (blockBytes codec) := by
    rw [← List.flatMap_append, List.take_append_drop]
  have hshort := hopened.short
  rw [hsplit] at hshort
  have hrow := scanBlocks_row hcodec (start.getD table.metadata.minId)
    (stop.getD table.metadata.maxId) ((blocks.take k).flatMap (blockBytes codec)) rest
    (hopened.rows.drop k)
    (fun es hes => hopened.writable es (List.mem_of_mem_drop hes))
    (fun es hes => hsmall es (List.mem_of_mem_drop hes)) hshort
  have hrange : ∀ kv ∈ blocks.flatten, inRange kv.1 start stop =
      (decide (start.getD table.metadata.minId ≤ kv.1) &&
        decide (kv.1 ≤ stop.getD table.metadata.maxId)) := by
    intro kv hkv
    obtain ⟨es, hes, hkv⟩ := List.mem_flatten.mp hkv
    obtain ⟨hmin, hmax⟩ := hopened.bounds es hes kv hkv
    cases start <;> cases stop <;> simp [inRange, hmin, hmax]
  have hnone : (blocks.take k).flatten.filter (fun kv =>
      decide (start.getD table.metadata.minId ≤ kv.1) &&
        decide (kv.1 ≤ stop.getD table.metadata.maxId)) = [] := by
    rw [List.filter_eq_nil_iff]
    intro kv hkv hin
    simp only [Bool.and_eq_true, decide_eq_true_eq] at hin
    exact absurd (hbefore kv hkv) (Nat.not_lt_of_le hin.1)
  have hflatten : blocks.flatten = (blocks.take k).flatten ++ (blocks.drop k).flatten := by
    rw [← List.flatten_append, List.take_append_drop]
  rw [hopened.index, indexOf_drop, Nat.zero_add, ← hfile, hsplit, List.append_assoc, hrow,
    List.filter_congr hrange, hflatten, List.filter_append, hnone, List.nil_append]

end Opened

/-! ## Tables -/

theorem foldl_min_le (entries : List (VectorId × Vector P)) (first : VectorId) :
    entries.foldl (fun m entry => min m entry.1) first ≤ first ∧
      ∀ kv ∈ entries, entries.foldl (fun m entry => min m entry.1) first ≤ kv.1 := by
  induction entries generalizing first with
  | nil => exact ⟨Nat.le_refl _, fun kv hkv => absurd hkv List.not_mem_nil⟩
  | cons entry entries ih =>
    obtain ⟨hfirst, hall⟩ := ih (min first entry.1)
    exact ⟨Nat.le_trans hfirst (Nat.min_le_left _ _),
      List.forall_mem_cons.mpr ⟨Nat.le_trans hfirst (Nat.min_le_right _ _), hall⟩⟩

theorem le_foldl_max (entries : List (VectorId × Vector P)) (first : VectorId) :
    first ≤ entries.foldl (fun m entry => max m entry.1) first ∧
      ∀ kv ∈ entries, kv.1 ≤ entries.foldl (fun m entry => max m entry.1) first := by
  induction entries generalizing first with
  | nil => exact ⟨Nat.le_refl _, fun kv hkv => absurd hkv List.not_mem_nil⟩
  | cons entry entries ih =>
    obtain ⟨hfirst, hall⟩ := ih (max first entry.1)
    exact ⟨Nat.le_trans (Nat.le_max_left _ _) hfirst,
      List.forall_mem_cons.mpr ⟨Nat.le_trans (Nat.le_max_right _ _) hfirst, hall⟩⟩

def tableBytes (codec : Codec P) (dimension : Nat) (compression : CompressionType)
    (blockSize level : Nat) (entries : List (VectorId × Vector P)) : List UInt8 :=
  (entries.foldl (fun b entry => b.add codec entry.1 entry.2)
    (SSTableBuilder.create dimension compression blockSize level)).finish codec

def RoundTrips (codec : Codec P) (path : Path) (file : List UInt8)
    (entries : List (VectorId × Vector P)) : Prop :=
  ∃ table, SSTable.openFile codec path file = .ok table ∧
    (∀ id, table.get codec (some file) id = .ok (held entries id)) ∧
    ∀ start stop, table.scan codec (some file) start stop =
      .ok (entries.filter fun kv => inRange kv.1 start stop)

/-- The bytes of a table: those of its entries, 24 for each block and its place in the index, the
metadata, and 36 more. -/
def tableLength (codec : Codec P) (dimension : Nat) (compression : CompressionType)
    (blockSize level : Nat) (entries : List (VectorId × Vector P)) : Nat :=
  (entries.map fun entry =>
      16 + entry.2.data.length * 4 + (payloadText codec entry.2.payload).length).sum +
    24 * (splitBlocks codec blockSize [] 0 entries).length +
      (codec.metaToVec (tableMeta dimension compression blockSize level entries)).length + 36

/-- The lengths of the table fit their fields. -/
structure Fits (codec : Codec P) (dimension : Nat) (compression : CompressionType)
    (blockSize level : Nat) (entries : List (VectorId × Vector P)) : Prop where
  block : ∀ es ∈ splitBlocks codec blockSize [] 0 entries, (blockBytes codec es).length < 2 ^ 32
  blocks : (splitBlocks codec blockSize [] 0 entries).length < 2 ^ 32
  file : tableLength codec dimension compression blockSize level entries < 2 ^ 63 + 8

section Table

variable {codec : Codec P} {path : Path} {dimension blockSize level : Nat}
  {compression : CompressionType} {entries : List (VectorId × Vector P)}

theorem splitBlocks_rows (codec : Codec P) (blockSize : Nat) (hsorted : entries.Pairwise (·.1 < ·.1)) :
    Rows (splitBlocks codec blockSize [] 0 entries) := by
  refine ⟨splitBlocks_ne_nil codec blockSize [] 0 entries, ?_⟩
  rw [splitBlocks_flatten]
  exact hsorted

theorem flatMap_take_isPrefix (codec : Codec P) (n : Nat)
    (blocks : List (List (VectorId × Vector P))) :
    (blocks.take n).flatMap (blockBytes codec) <+: blocks.flatMap (blockBytes codec) := by
  refine ⟨(blocks.drop n).flatMap (blockBytes codec), ?_⟩
  rw [← List.flatMap_append, List.take_append_drop]

theorem length_flatMap_blockBytes (codec : Codec P) (blocks : List (List (VectorId × Vector P))) :
    (blocks.flatMap (blockBytes codec)).length =
      (blocks.flatten.map fun entry =>
        16 + entry.2.data.length * 4 + (payloadText codec entry.2.payload).length).sum +
          4 * blocks.length := by
  induction blocks with
  | nil => rfl
  | cons es blocks ih =>
    have hentries : (es.flatMap (Block.encodeEntry codec)).length = (es.map fun entry =>
        16 + entry.2.data.length * 4 + (payloadText codec entry.2.payload).length).sum := by
      rw [List.length_flatMap]
      simp only [encodeEntry_length]
    rw [List.flatMap_cons, List.length_append, blockBytes_length, ih, hentries, List.flatten_cons,
      List.map_append, List.sum_append, List.length_cons]
    omega

theorem length_tableBytes (codec : Codec P) (dimension : Nat) (compression : CompressionType)
    (blockSize level : Nat) (entries : List (VectorId × Vector P)) :
    (tableBytes codec dimension compression blockSize level entries).length =
      tableLength codec dimension compression blockSize level entries := by
  have hall := splitBlocks_flatten codec blockSize [] 0 entries
  rw [List.nil_append] at hall
  rw [tableBytes, finish_tableFile, tableFile_length, length_flatMap_blockBytes, hall, encodeIndex,
    List.length_append, length_leBytes, encodeIndex_entries_length, indexOf_length, tableLength]
  omega

theorem open_tableBytes (path : Path)
    (hcodec : codec.Faithful (tableMeta dimension compression blockSize level entries))
    (hsorted : entries.Pairwise (·.1 < ·.1)) (hentries : ∀ entry ∈ entries, Writable entry)
    (hlength : (tableBytes codec dimension compression blockSize level entries).length <
      2 ^ 63 + 8) :
    ∃ table,
      SSTable.openFile codec path (tableBytes codec dimension compression blockSize level entries) =
        .ok table ∧
      Opened codec table (tableBytes codec dimension compression blockSize level entries)
        ((splitBlocks codec blockSize [] 0 entries).take
          ((splitBlocks codec blockSize [] 0 entries).length % 2 ^ 32)) := by
  have hrows := splitBlocks_rows codec blockSize hsorted
  have hmem : ∀ es ∈ splitBlocks codec blockSize [] 0 entries, ∀ entry ∈ es, entry ∈ entries := by
    intro es hes entry hentry
    have hall := splitBlocks_flatten codec blockSize [] 0 entries
    rw [List.nil_append] at hall
    rw [← hall]
    exact List.mem_flatten.mpr ⟨es, hes, hentry⟩
  rw [tableBytes, finish_tableFile] at hlength ⊢
  generalize splitBlocks codec blockSize [] 0 entries = blocks at *
  have htotal := tableFile_length (blocks.flatMap (blockBytes codec))
    (encodeIndex (indexOf codec 0 blocks))
    (codec.metaToVec (tableMeta dimension compression blockSize level entries))
  have hindex : ∀ entry ∈ indexOf codec 0 blocks,
      entry.key < 2 ^ 64 ∧ entry.offset < 2 ^ 64 ∧ entry.size < 2 ^ 32 := by
    intro entry hentry
    obtain ⟨i, hi⟩ := List.mem_iff_getElem?.mp hentry
    have hlt := (List.getElem?_eq_some_iff.mp hi).1
    rw [indexOf_length] at hlt
    have hes := List.getElem?_eq_getElem hlt
    rw [indexOf_getElem? codec 0 hes] at hi
    obtain rfl := Option.some.inj hi
    obtain ⟨kv, hkv, hfirst⟩ := hrows.firstId_mem (List.mem_of_getElem? hes)
    have hprefix := flatMap_take_isPrefix codec i blocks
    have hle := hprefix.length_le
    refine ⟨?_, ?_, Nat.mod_lt _ (by decide)⟩
    · show firstId _ < _
      rw [hfirst]
      exact (hentries kv (hmem _ (List.mem_of_getElem? hes) kv hkv)).1
    · show 0 + _ < _
      omega
  refine ⟨_, openFile_tableFile hlength hcodec.metadata_ne_nil hcodec.metadata
    (decodeIndex_encode hindex), ?_⟩
  rw [indexOf_length]
  have hprefix := flatMap_take_isPrefix codec (blocks.length % 2 ^ 32) blocks
  have hle := hprefix.length_le
  refine ⟨hrows.take _, fun es hes entry hentry => ?_, indexOf_take codec 0 _ blocks, ?_, by omega,
    fun es hes kv hkv => ?_⟩
  · exact hentries entry (hmem es (List.mem_of_mem_take hes) entry hentry)
  · refine hprefix.trans ?_
    rw [tableFile]
    simp only [List.append_assoc]
    exact List.prefix_append _ _
  · have hkv := hmem es (List.mem_of_mem_take hes) kv hkv
    exact ⟨(foldl_min_le entries _).2 kv hkv, (le_foldl_max entries _).2 kv hkv⟩

/-- A block that comes back whole fits its field. -/
theorem Opened.block_small {table : SSTable} {file : List UInt8}
    {blocks : List (List (VectorId × Vector P))} {m : SSTableMeta} (hcodec : codec.Faithful m)
    (hopened : Opened codec table file blocks)
    (hget : ∀ es ∈ blocks, ∀ kv ∈ es, table.get codec (some file) kv.1 = .ok (some kv.2)) :
    ∀ es ∈ blocks, (blockBytes codec es).length < 2 ^ 32 := by
  intro es hes
  by_contra hlong
  obtain ⟨i, hi⟩ := List.mem_iff_getElem?.mp hes
  have hne := hopened.rows.ne_nil es hes
  have hmod : (blockBytes codec es).length % 2 ^ 32 < 2 ^ 32 := Nat.mod_lt _ (by decide)
  have hread : ∀ kv ∈ es, (decodeBlock codec
      ((blockBytes codec es).take ((blockBytes codec es).length % 2 ^ 32))).map (held · kv.1) =
        .ok (some kv.2) := by
    intro kv hkv
    rw [← hopened.get_mem hi hkv]
    exact hget es hes kv hkv
  cases hdecode : decodeBlock codec
      ((blockBytes codec es).take ((blockBytes codec es).length % 2 ^ 32)) with
  | error e =>
    obtain ⟨kv, hkv⟩ := List.exists_mem_of_ne_nil es hne
    have herror := hread kv hkv
    rw [hdecode] at herror
    exact absurd herror (by simp [Except.map])
  | ok l =>
    obtain ⟨kv, hkv, hlost⟩ := decodeBlock_lossy hcodec (hopened.writable es hes)
      (distinct_of_sorted (hopened.rows.block_sorted hes)) hne
      (by omega) hdecode
    have hkept := hread kv hkv
    rw [hdecode] at hkept
    exact hlost (Except.ok.inj hkept)

theorem fits_of_roundTrips
    (hcodec : codec.Faithful (tableMeta dimension compression blockSize level entries))
    (hsorted : entries.Pairwise (·.1 < ·.1)) (hentries : ∀ entry ∈ entries, Writable entry)
    (htrips : RoundTrips codec path
      (tableBytes codec dimension compression blockSize level entries) entries) :
    Fits codec dimension compression blockSize level entries := by
  obtain ⟨table, hopen, hget, -⟩ := htrips
  have hlength := openFile_lt hopen
  obtain ⟨table', hopen', hopened⟩ := open_tableBytes path hcodec hsorted hentries hlength
  obtain rfl : table' = table := Except.ok.inj (hopen'.symm.trans hopen)
  have hall := splitBlocks_flatten codec blockSize [] 0 entries
  have hrows := splitBlocks_rows codec blockSize hsorted
  rw [List.nil_append] at hall
  have hkept : ∀ es ∈ splitBlocks codec blockSize [] 0 entries, ∀ kv ∈ es,
      table'.get codec (some (tableBytes codec dimension compression blockSize level entries))
        kv.1 = .ok (some kv.2) := by
    intro es hes kv hkv
    have hmem : kv ∈ entries := by
      rw [← hall]
      exact List.mem_flatten.mpr ⟨es, hes, hkv⟩
    rw [hget, (held_eq_some_iff (distinct_of_sorted hsorted)).mpr hmem]
  generalize hblocks : splitBlocks codec blockSize [] 0 entries = blocks at hopened hall hrows hkept
  have hsmall := hopened.block_small hcodec
    fun es hes kv hkv => hkept es (List.mem_of_mem_take hes) kv hkv
  have hcount : blocks.length < 2 ^ 32 := by
    by_contra hmany
    have hmod : blocks.length % 2 ^ 32 < 2 ^ 32 := Nat.mod_lt _ (by decide)
    -- The first block that the index has lost.
    have hlost := List.getElem?_eq_getElem (show blocks.length % 2 ^ 32 < blocks.length by omega)
    obtain ⟨kv, hkv, -⟩ := hrows.firstId_mem (List.mem_of_getElem? hlost)
    have hfound := hkept _ (List.mem_of_getElem? hlost) kv hkv
    rw [hopened.get hcodec hsmall] at hfound
    obtain ⟨es, hes, hmem⟩ := List.mem_flatten.mp (mem_of_held (Except.ok.inj hfound))
    obtain ⟨i, hi⟩ := List.mem_iff_getElem?.mp hes
    rw [List.getElem?_take] at hi
    split at hi
    · rename_i hlt
      exact absurd (hrows.lt_of_lt hi hlost hlt _ hmem kv hkv) (Nat.lt_irrefl _)
    · exact absurd hi (by simp)
  rw [Nat.mod_eq_of_lt hcount, List.take_length, ← hblocks] at hsmall
  rw [← hblocks] at hcount
  exact ⟨hsmall, hcount, length_tableBytes codec dimension compression blockSize level entries ▸ hlength⟩

theorem roundTrips_of_fits
    (path : Path) (hcodec : codec.Faithful (tableMeta dimension compression blockSize level entries))
    (hsorted : entries.Pairwise (·.1 < ·.1)) (hentries : ∀ entry ∈ entries, Writable entry)
    (hfits : Fits codec dimension compression blockSize level entries) :
    RoundTrips codec path (tableBytes codec dimension compression blockSize level entries)
      entries := by
  obtain ⟨table, hopen, hopened⟩ := open_tableBytes path hcodec hsorted hentries
    (length_tableBytes codec dimension compression blockSize level entries ▸ hfits.file)
  have hall := splitBlocks_flatten codec blockSize [] 0 entries
  rw [List.nil_append] at hall
  rw [Nat.mod_eq_of_lt hfits.blocks, List.take_length] at hopened
  have hget := hopened.get hcodec hfits.block
  have hscan := hopened.scan hcodec hfits.block
  rw [hall] at hget hscan
  exact ⟨table, hopen, hget, hscan⟩

/-- A table comes back exactly when its lengths fit. -/
theorem round_trips_iff
    (path : Path) (hcodec : codec.Faithful (tableMeta dimension compression blockSize level entries))
    (hsorted : entries.Pairwise (·.1 < ·.1)) (hentries : ∀ entry ∈ entries, Writable entry) :
    RoundTrips codec path (tableBytes codec dimension compression blockSize level entries) entries ↔
      Fits codec dimension compression blockSize level entries :=
  ⟨fits_of_roundTrips hcodec hsorted hentries, roundTrips_of_fits path hcodec hsorted hentries⟩

end Table

/-- One entry makes one block. -/
theorem splitBlocks_singleton (codec : Codec P) (blockSize : Nat) (entry : VectorId × Vector P) :
    splitBlocks codec blockSize [] 0 [entry] = [[entry]] := by
  rw [splitBlocks, if_neg (by simp), List.nil_append, splitBlocks, if_neg (by simp)]

theorem sampleCodec_faithful : sampleCodec.Faithful sampleMeta where
  payload p := by cases p; decide +kernel
  payload_ne_nil p := by cases p; decide +kernel
  payload_cut p k hk := by
    cases p
    have hlength : (sampleCodec.payloadToVec PUnit.unit).length = 2 := by decide +kernel
    refine ⟨"not a sample", ?_⟩
    obtain rfl | rfl : k = 0 ∨ k = 1 := by omega
    · decide +kernel
    · decide +kernel
  metadata := by decide +kernel
  metadata_ne_nil := by decide +kernel

/-- A vector so long that the block has `2 ^ 32` bytes. -/
def longEntry : VectorId × Vector Unit :=
  (1, { data := List.replicate (2 ^ 30 - 5) 0, payload := none })

theorem writable_longEntry : Writable longEntry := by
  have hlength : longEntry.2.data.length = 2 ^ 30 - 5 := List.length_replicate
  exact ⟨by decide, by rw [hlength]; decide⟩

theorem not_round_trips_long :
    ¬ RoundTrips sampleCodec { level := 0, timestamp := 10 }
      (tableBytes sampleCodec 0 .none 4096 0 [longEntry]) [longEntry] := by
  intro htrips
  have hfits := fits_of_roundTrips sampleCodec_faithful (List.pairwise_singleton _ _)
    (List.forall_mem_singleton.mpr writable_longEntry) htrips
  have hblock := hfits.block [longEntry]
    (by rw [splitBlocks_singleton]; exact List.mem_singleton_self _)
  have hlength : longEntry.2.data.length = 2 ^ 30 - 5 := List.length_replicate
  rw [blockBytes_length, List.flatMap_singleton, encodeEntry_length, hlength] at hblock
  omega

theorem sampleCodecWith_faithful {metas : List SSTableMeta} {m : SSTableMeta}
    (hmeta : (sampleCodecWith metas).metaFromSlice ((sampleCodecWith metas).metaToVec m) = .ok m)
    (hne : (sampleCodecWith metas).metaToVec m ≠ []) : (sampleCodecWith metas).Faithful m :=
  let hsample := sampleCodec_faithful
  { payload := fun p => hsample.payload p
    payload_ne_nil := fun p => hsample.payload_ne_nil p
    payload_cut := fun p k hk => hsample.payload_cut p k hk
    metadata := hmeta
    metadata_ne_nil := hne }

/-- Three entries, of which two have room in a block. -/
def smallEntries : List (VectorId × Vector Unit) :=
  [(1, { data := [0x3F800000], payload := none }), (4, { data := [0x40000000], payload := none }),
    (9, { data := [0x40400000], payload := none })]

theorem round_trips_small :
    let codec := sampleCodecWith [tableMeta 0 .none 32 0 smallEntries]
    (splitBlocks codec 32 [] 0 smallEntries).length = 2 ∧
      RoundTrips codec { level := 0, timestamp := 10 } (tableBytes codec 0 .none 32 0 smallEntries)
        smallEntries :=
  ⟨by decide, (round_trips_iff { level := 0, timestamp := 10 }
    (sampleCodecWith_faithful (by decide +kernel) (by decide +kernel)) (by decide)
    (by unfold Writable; decide)).mpr
    { block := by decide +kernel, blocks := by decide +kernel, file := by decide +kernel }⟩

end Storage
end RTDB
