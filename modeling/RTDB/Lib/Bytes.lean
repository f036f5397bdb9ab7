import Mathlib.Algebra.Group.Nat.Defs
import Mathlib.Data.List.AList
import Mathlib.Data.List.Infix

/-!
# Little-endian numbers and sorted keys

A number written in `n` bytes, least significant first, reads back modulo
`256 ^ n`; 32-bit words and text read back as they are.  A strictly increasing
list of numbers is known by its members; the keys of a tree map are one.
-/

namespace RTDB
namespace Bytes

/-- The low `n` bytes of `x`. -/
def leBytes : Nat → Nat → List UInt8
  | 0, _ => []
  | n + 1, x => UInt8.ofNat x :: leBytes n (x / 256)

def leNat : List UInt8 → Nat
  | [] => 0
  | b :: bs => b.toNat + 256 * leNat bs

@[simp] theorem length_leBytes (n x : Nat) : (leBytes n x).length = n := by
  induction n generalizing x with
  | zero => rfl
  | succ n ih => rw [leBytes, List.length_cons, ih]

theorem leNat_leBytes (n x : Nat) : leNat (leBytes n x) = x % 256 ^ n := by
  induction n generalizing x with
  | zero =>
    rw [Nat.pow_zero, Nat.mod_one]
    rfl
  | succ n ih =>
    have hbyte : (UInt8.ofNat x).toNat = x % 256 := UInt8.toNat_ofNat'
    rw [leBytes, leNat, ih, hbyte, Nat.pow_succ', Nat.mod_mul]

theorem leNat_leBytes_of_lt {n x : Nat} (hx : x < 256 ^ n) : leNat (leBytes n x) = x := by
  rw [leNat_leBytes, Nat.mod_eq_of_lt hx]

theorem take_leBytes {n k : Nat} (x : Nat) (hk : k ≤ n) : (leBytes n x).take k = leBytes k x := by
  induction k generalizing n x with
  | zero => rfl
  | succ k ih =>
    obtain ⟨n, rfl⟩ : ∃ m, n = m + 1 := ⟨n - 1, by omega⟩
    rw [leBytes, leBytes, List.take_succ_cons, ih _ (by omega)]

theorem leNat_lt (l : List UInt8) : leNat l < 256 ^ l.length := by
  induction l with
  | nil => exact Nat.one_pos
  | cons b bs ih =>
    have hb := b.toNat_lt
    rw [leNat, List.length_cons, Nat.pow_succ']
    omega

theorem leBytes_leNat (l : List UInt8) : leBytes l.length (leNat l) = l := by
  induction l with
  | nil => rfl
  | cons b bs ih =>
    have hb := b.toNat_lt
    have hbyte : UInt8.ofNat (b.toNat + 256 * leNat bs) = b := by
      rw [← UInt8.toNat_inj, UInt8.toNat_ofNat']
      omega
    have hrest : (b.toNat + 256 * leNat bs) / 256 = leNat bs := by omega
    rw [leNat, List.length_cons, leBytes, hbyte, hrest, ih]

/-! ## Overwriting -/

/-- Write `data` into `bytes` from position `pos` on. -/
def writeAt (bytes : List UInt8) (pos : Nat) (data : List UInt8) : List UInt8 :=
  bytes.take pos ++ data ++ bytes.drop (pos + data.length)

/-- At the end, writing appends. -/
theorem writeAt_length (bytes data : List UInt8) :
    writeAt bytes bytes.length data = bytes ++ data := by
  rw [writeAt, List.take_length, List.drop_eq_nil_of_le (by omega), List.append_nil]

/-! ## Words -/

/-- The bytes of 32-bit words, least significant first. -/
def wordBytes (words : List UInt32) : List UInt8 := words.flatMap fun word => leBytes 4 word.toNat

/-- Four bytes make a word; up to three that are left over are dropped. -/
def wordsOf : List UInt8 → List UInt32
  | a :: b :: c :: d :: rest => UInt32.ofNat (leNat [a, b, c, d]) :: wordsOf rest
  | _ => []

theorem length_wordBytes (words : List UInt32) : (wordBytes words).length = words.length * 4 := by
  induction words with
  | nil => rfl
  | cons word words ih =>
    have hword : (leBytes 4 word.toNat).length = 4 := length_leBytes 4 _
    rw [wordBytes, List.flatMap_cons, List.length_append, ← wordBytes, ih, hword, List.length_cons]
    omega

theorem wordsOf_append {front : List UInt8} (hfront : front.length = 4) (rest : List UInt8) :
    wordsOf (front ++ rest) = UInt32.ofNat (leNat front) :: wordsOf rest := by
  match front, hfront with
  | [_, _, _, _], _ => rfl

theorem wordsOf_wordBytes (words : List UInt32) : wordsOf (wordBytes words) = words := by
  induction words with
  | nil => rfl
  | cons word words ih =>
    have hlt : word.toNat < 256 ^ 4 := word.toNat_lt
    rw [wordBytes, List.flatMap_cons, wordsOf_append (length_leBytes 4 _), leNat_leBytes_of_lt hlt,
      UInt32.ofNat_toNat, ← wordBytes, ih]

theorem length_wordsOf (bytes : List UInt8) : (wordsOf bytes).length = bytes.length / 4 := by
  fun_induction wordsOf bytes with
  | case1 a b c d rest ih =>
    simp only [List.length_cons, ih]
    omega
  | case2 bytes hshort =>
    have hlt : bytes.length < 4 := by
      by_contra hlong
      match bytes, hshort with
      | [], _ | [_], _ | [_, _], _ | [_, _, _], _ => simp at hlong
      | a :: b :: c :: d :: rest, hshort => exact hshort a b c d rest rfl
    rw [List.length_nil]
    omega

/-! ## Text -/

def utf8 (text : String) : List UInt8 := text.toByteArray.data.toList

def ofUtf8? (bytes : List UInt8) : Option String := String.fromUTF8? ⟨bytes.toArray⟩

theorem length_utf8 (text : String) : (utf8 text).length = text.utf8ByteSize := by
  rw [utf8, Array.length_toList]
  rfl

theorem ofUtf8?_utf8 (text : String) : ofUtf8? (utf8 text) = some text := by
  rw [ofUtf8?, utf8, Array.toArray_toList, String.fromUTF8?, dif_pos text.isValidUTF8]
  rfl

theorem utf8_ofList (text : List Char) :
    utf8 (String.ofList text) = text.flatMap String.utf8EncodeChar := by
  rw [utf8, String.toByteArray_ofList, List.utf8Encode, List.data_toByteArray]

/-- A byte below 128 is in the code of the character it stands for, and in no other. -/
theorem eq_of_mem_utf8EncodeChar {b : UInt8} (hb : b.toNat < 128) {c : Char}
    (hmem : b ∈ String.utf8EncodeChar c) : c.toNat = b.toNat := by
  have hbyte : ∀ n, b = UInt8.ofNat n → n < 256 → b.toNat = n := by
    intro n heq hn
    rw [heq, UInt8.toNat_ofNat', Nat.mod_eq_of_lt hn]
  rw [String.utf8EncodeChar] at hmem
  split at hmem
  · next hv => exact (hbyte _ (List.mem_singleton.mp hmem) (by omega)).symm
  · -- The bytes of a longer code have their highest bit set.
    exfalso
    split at hmem
    · rcases List.mem_pair.mp hmem with h | h <;> have := hbyte _ h (by omega) <;> omega
    · split at hmem
      · simp only [List.mem_cons, List.not_mem_nil, or_false] at hmem
        rcases hmem with h | h | h <;> have := hbyte _ h (by omega) <;> omega
      · simp only [List.mem_cons, List.not_mem_nil, or_false] at hmem
        rcases hmem with h | h | h | h <;> have := hbyte _ h (by omega) <;> omega

theorem utf8EncodeChar_ne_nil (c : Char) : String.utf8EncodeChar c ≠ [] := by
  intro hnil
  have hlength := String.length_utf8EncodeChar c
  rw [hnil] at hlength
  exact absurd c.utf8Size_pos (by simp [← hlength])

/-! ## Sorted keys -/

theorem eq_range_of_sorted {l : List Nat} {n : Nat} (hl : l.Pairwise (· < ·))
    (hmem : ∀ i, i ∈ l ↔ i < n) : l = List.range n := by
  have hnodup : l.Nodup := hl.imp (fun h => Nat.ne_of_lt h)
  have hperm : l.Perm (List.range n) :=
    (List.perm_ext_iff_of_nodup hnodup List.nodup_range).mpr
      (fun i => (hmem i).trans List.mem_range.symm)
  exact hperm.eq_of_pairwise (fun _ _ _ _ h h' => absurd h (Nat.lt_asymm h')) hl
    List.pairwise_lt_range

theorem pairwise_keys {β : Type*} (t : Std.TreeMap Nat β) : t.keys.Pairwise (· < ·) := by
  have hord : t.keys.Pairwise (fun a b => compare a b = .lt) := Std.TreeMap.ordered_keys
  exact hord.imp (fun h => Nat.compare_eq_lt.mp h)

end Bytes
end RTDB
