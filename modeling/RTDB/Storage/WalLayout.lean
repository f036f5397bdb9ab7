import RTDB.Storage.Wal

/-!
# The files of a log

Which bytes lie in which file, whatever they are: the numbers run from zero, the
last file is the one being written, and it is written at its end.
-/

namespace RTDB
namespace Storage

open Bytes

variable {crc : List UInt8 → UInt32}

/-- The log is made of the contents `files`, and of `last` in its open file. -/
structure Layout (w : WAL) (files : List (List UInt8)) (last : List UInt8) : Prop where
  bytes : ∀ i : Nat, w.dir[i]? = (files ++ [last])[i]?
  current : w.currentFileNo = files.length
  size : w.currentSize = last.length

namespace Layout

variable {w : WAL} {files : List (List UInt8)} {last : List UInt8}

theorem last_file (hl : Layout w files last) : w.dir[w.currentFileNo]? = some last := by
  rw [hl.bytes, hl.current, List.getElem?_concat_length]

theorem getD_last (hl : Layout w files last) : w.dir.getD w.currentFileNo [] = last := by
  rw [Std.TreeMap.getD_eq_getD_getElem?, hl.last_file]
  rfl

theorem insert_files (hl : Layout w files last) (bytes : List UInt8) (i : Nat) :
    (w.dir.insert w.currentFileNo bytes)[i]? = (files ++ [bytes])[i]? := by
  rw [Std.TreeMap.getElem?_insert, hl.bytes, hl.current]
  simp only [Nat.compare_eq_eq]
  by_cases hi : files.length = i
  · rw [if_pos hi, ← hi, List.getElem?_concat_length]
  · rw [if_neg hi]
    rcases Nat.lt_or_ge i files.length with hlt | hge
    · rw [List.getElem?_append_left hlt, List.getElem?_append_left hlt]
    · rw [List.getElem?_eq_none (by rw [List.length_append, List.length_singleton]; omega),
        List.getElem?_eq_none (by rw [List.length_append, List.length_singleton]; omega)]

theorem write (hl : Layout w files last) (data : List UInt8) :
    Layout (w.write data) files (last ++ data) := by
  refine ⟨fun i => ?_, hl.current, ?_⟩
  · show (w.dir.insert w.currentFileNo (writeAt _ w.currentSize data))[i]? = _
    rw [hl.getD_last, hl.size, writeAt_length]
    exact hl.insert_files _ i
  · show w.currentSize + data.length = _
    rw [hl.size, List.length_append]

theorem rotate (hl : Layout w files last) : Layout w.rotate (files ++ [last]) fileHeader := by
  have hempty : w.dir[w.currentFileNo + 1]? = none := by
    rw [hl.bytes, hl.current, List.getElem?_eq_none]
    rw [List.length_append, List.length_singleton]
  have hnew : writeAt (w.dir.getD (w.currentFileNo + 1) []) 0 fileHeader = fileHeader := by
    rw [Std.TreeMap.getD_eq_getD_getElem?, hempty]
    rfl
  refine ⟨fun i => ?_, ?_, rfl⟩
  · show (w.dir.insert (w.currentFileNo + 1) _)[i]? = _
    rw [Std.TreeMap.getElem?_insert, hnew, hl.bytes, hl.current]
    simp only [Nat.compare_eq_eq]
    have hlen : (files ++ [last]).length = files.length + 1 := by
      rw [List.length_append, List.length_singleton]
    by_cases hi : files.length + 1 = i
    · rw [if_pos hi, ← hi, ← hlen, List.getElem?_concat_length]
    · rw [if_neg hi]
      rcases Nat.lt_or_ge i (files ++ [last]).length with hlt | hge
      · rw [List.getElem?_append_left hlt]
      · rw [List.getElem?_eq_none hge,
          List.getElem?_eq_none (by rw [List.length_append, List.length_singleton]; omega)]
  · show w.currentFileNo + 1 = _
    rw [hl.current, List.length_append, List.length_singleton]

theorem keys (hl : Layout w files last) : w.dir.keys = List.range (files.length + 1) := by
  refine eq_range_of_sorted (pairwise_keys _) (fun i => ?_)
  rw [Std.TreeMap.mem_keys, Std.TreeMap.mem_iff_isSome_getElem?, hl.bytes, isSome_getElem?,
    List.length_append, List.length_singleton]

end Layout

theorem foldl_max_range (n : Nat) : (List.range (n + 1)).foldl max 0 = n := by
  induction n with
  | zero => rfl
  | succ n ih =>
    rw [List.range_succ, List.foldl_append, ih]
    show max n (n + 1) = n + 1
    omega

/-- Opening takes up the last file where it ends. -/
theorem Layout.openAt {w : WAL} {files : List (List UInt8)} {last : List UInt8}
    (hl : Layout w files last) (maxFileSize : Nat) :
    Layout (WAL.openAt w.dir maxFileSize) files last := by
  have hmax : w.dir.keys.foldl max 0 = w.currentFileNo := by
    rw [hl.keys, foldl_max_range, hl.current]
  have hopen : WAL.openAt w.dir maxFileSize =
      WAL.mk w.dir w.currentFileNo maxFileSize last.length := by
    have hlast := hl.last_file
    rw [WAL.openAt]
    simp only [hmax, hlast]
  rw [hopen]
  exact ⟨hl.bytes, hl.current, rfl⟩

/-! ## Reading file by file -/

def readAll (crc : List UInt8 → UInt32) : List (List UInt8) → Except RTDBError (List WALEntry)
  | [] => .ok []
  | bytes :: rest =>
    match readFile crc bytes with
    | .error e => .error e
    | .ok entries => (readAll crc rest).map (entries ++ ·)

theorem readFiles_range' {dir : WalDir} (all : List (List UInt8)) (n k : Nat)
    (hn : k + n = all.length) (hall : ∀ i : Nat, dir[i]? = all[i]?) :
    readFiles crc dir (List.range' k n) = readAll crc (all.drop k) := by
  induction n generalizing k with
  | zero =>
    rw [List.drop_eq_nil_of_le (by omega)]
    rfl
  | succ n ih =>
    have hk : k < all.length := by omega
    have hget : dir.getD k [] = all[k] := by
      rw [Std.TreeMap.getD_eq_getD_getElem?, hall, List.getElem?_eq_getElem hk]
      rfl
    have hrest := ih (k + 1) (by omega)
    rw [List.range'_succ, List.drop_eq_getElem_cons hk]
    cases hread : readFile crc all[k] with
    | error e => simp only [readFiles, readAll, hget, hread]
    | ok entries => simp only [readFiles, readAll, hget, hread, hrest]

theorem Layout.readEntries {w : WAL} {files : List (List UInt8)} {last : List UInt8}
    (hl : Layout w files last) : w.readEntries crc = readAll crc (files ++ [last]) := by
  rw [WAL.readEntries, hl.keys, List.range_eq_range']
  refine readFiles_range' (files ++ [last]) (files.length + 1) 0 ?_ hl.bytes
  rw [List.length_append, List.length_singleton, Nat.zero_add]

theorem readAll_cons_ok {bytes : List UInt8} {rest : List (List UInt8)} {es : List WALEntry} :
    readAll crc (bytes :: rest) = .ok es ↔
      ∃ entries es', readFile crc bytes = .ok entries ∧ readAll crc rest = .ok es' ∧
        es = entries ++ es' := by
  rw [readAll]
  cases readFile crc bytes with
  | error e => simp
  | ok entries =>
    cases readAll crc rest with
    | error e => simp [Except.map]
    | ok es' => simp [Except.map, eq_comm]

theorem readAll_append_ok {files files' : List (List UInt8)} {es : List WALEntry} :
    readAll crc (files ++ files') = .ok es ↔
      ∃ es₁ es₂, readAll crc files = .ok es₁ ∧ readAll crc files' = .ok es₂ ∧
        es = es₁ ++ es₂ := by
  induction files generalizing es with
  | nil => simp [readAll, eq_comm]
  | cons bytes files ih =>
    rw [List.cons_append, readAll_cons_ok]
    simp only [ih, readAll_cons_ok]
    constructor
    · rintro ⟨entries, -, hread, ⟨es₁, es₂, hfiles, hfiles', rfl⟩, rfl⟩
      exact ⟨entries ++ es₁, es₂, ⟨entries, es₁, hread, hfiles, rfl⟩, hfiles',
        (List.append_assoc _ _ _).symm⟩
    · rintro ⟨-, es₂, ⟨entries, es₁, hread, hfiles, rfl⟩, hfiles', rfl⟩
      exact ⟨entries, es₁ ++ es₂, hread, ⟨es₁, es₂, hfiles, hfiles', rfl⟩,
        List.append_assoc _ _ _⟩

end Storage
end RTDB
