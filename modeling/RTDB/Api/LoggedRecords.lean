import RTDB.Api.RecordText
import RTDB.Lib.Names
import RTDB.Storage.LoggedRecords

/-!
# Logged records

Which vectors can be put without making the log unreadable.
-/

namespace RTDB
namespace Api

open Outcomes Storage

variable {F : Type}

namespace SerdeJson

variable {serde : SerdeJson F} {base : Codec (Map F)} {crc : List UInt8 → UInt32}

/-- The parser on a text: it follows containers to a depth of 127, and finds nothing in an empty
text. -/
structure ReadsText (serde : SerdeJson F) (tree : Tree) : Prop where
  back : tree.depth ≤ 127 → serde.parse (serde.print tree) = .ok tree
  refused : 127 < tree.depth → ∃ e, serde.parse (serde.print tree) = .error e
  empty : ∃ e, serde.parse [] = .error e

/-- The text of a vector is read as it was. -/
structure Legible (serde : SerdeJson F) (vector : Vector (Map F)) : Prop where
  components : ∀ x ∈ vector.data, isFiniteF32 x = true ∧ serde.parseF32 (serde.f32Text x) = some x
  payload : ∀ payload, vector.payload = some payload →
    (serde.valueTree (.object payload)).depth ≤ 124 ∧
      ∀ f ∈ (Json.object payload).floats, serde.ReadsFloat f

theorem fromSlice_nil {tree : Tree} (htext : serde.ReadsText tree) :
    ∃ e, (serde.codec base).fromSlice [] = .error e := by
  obtain ⟨e, he⟩ := htext.empty
  refine ⟨e, ?_⟩
  show serde.parse [] >>= serde.recordOf = .error e
  rw [he]
  rfl

theorem fromSlice_recordText {record : Record (Map F)}
    (htext : serde.ReadsText (serde.recordTree record)) {r : Record (Map F)} :
    (serde.codec base).fromSlice (serde.recordText record) = .ok r ↔
      (serde.recordTree record).depth ≤ 127 ∧ serde.recordOf (serde.recordTree record) = .ok r := by
  show serde.parse (serde.print (serde.recordTree record)) >>= serde.recordOf = .ok r ↔ _
  by_cases hdepth : (serde.recordTree record).depth ≤ 127
  · rw [htext.back hdepth, ok_bind, and_iff_right hdepth]
  · obtain ⟨e, he⟩ := htext.refused (Nat.not_le.mp hdepth)
    rw [he]
    simp [bind, Except.bind, hdepth]

theorem fromSlice_put_iff (hints : serde.ReadsIntegers) (id timestamp : UInt64)
    {vector : Vector (Map F)}
    (hvector : ∀ payload, vector.payload = some payload → (Json.object payload).WellFormed)
    (htext : serde.ReadsText (serde.recordTree (.put id.toNat vector timestamp.toNat))) :
    (serde.codec base).fromSlice
        (serde.recordText (.put id.toNat vector timestamp.toNat)) =
        .ok (.put id.toNat vector timestamp.toNat) ↔ serde.Legible vector := by
  rw [fromSlice_recordText htext, depth_recordTree_le_iff, recordOf_put_iff hints,
    vectorOf_vectorTree_iff hints hvector]
  constructor
  · rintro ⟨hdepth, hdata, hfloats⟩
    exact ⟨hdata, fun payload hpayload => ⟨hdepth payload hpayload, hfloats payload hpayload⟩⟩
  · intro hlegible
    exact ⟨fun payload hpayload => (hlegible.payload payload hpayload).1, hlegible.components,
      fun payload hpayload => (hlegible.payload payload hpayload).2⟩

/-- A component that is not finite is written as null, which no reader of floats takes. -/
theorem fromSlice_not_finite {id timestamp : Nat} {vector : Vector (Map F)} {x : UInt32}
    (htext : serde.ReadsText (serde.recordTree (.put id vector timestamp)))
    (hx : x ∈ vector.data) (hfinite : isFiniteF32 x = false) (r : Record (Map F)) :
    (serde.codec base).fromSlice (serde.recordText (.put id vector timestamp)) ≠ .ok r := by
  intro hread
  have hrecord := ((fromSlice_recordText htext).mp hread).2
  rw [recordOf_put] at hrecord
  obtain ⟨id', -, hrecord⟩ := bind_eq_ok hrecord
  obtain ⟨vector', hvector, -⟩ := bind_eq_ok hrecord
  rw [vectorOf_vectorTree] at hvector
  obtain ⟨data, hdata, -⟩ := bind_eq_ok hvector
  obtain ⟨y, -, hy⟩ := forall₂_exists (mapM_eq_ok_iff.mp hdata)
    (List.mem_map_of_mem hx)
  rw [componentTree, hfinite] at hy
  exact absurd hy (by simp [componentOf])

theorem openAt_fails {id timestamp : Nat} {vector : Vector (Map F)} {x : UInt32}
    (htext : serde.ReadsText (serde.recordTree (.put id vector timestamp)))
    (hx : x ∈ vector.data) (hfinite : isFiniteF32 x = false) {maxFileSize : Nat}
    {ops : List WalOp} {w' : WAL} {position : Nat}
    (happend : (runWal crc maxFileSize ops).append crc
      (serde.recordText (.put id vector timestamp)) = .ok (w', position))
    (config : StorageConfig) (files : Files) :
    ∃ e, StorageEngine.openAt (serde.codec base) crc config w'.dir files = .error e := by
  obtain ⟨hw', hdata⟩ := append_holds (runWal_holds crc maxFileSize ops) happend
  have hle : ∀ d ∈ appended ops ++ [serde.recordText (.put id vector timestamp)],
      d.length ≤ maxRecordSize :=
    List.forall_mem_append.mpr ⟨appended_le ops, List.forall_mem_singleton.mpr hdata⟩
  obtain ⟨e, he⟩ := recover_fails (openAt_holds hw' config.walSegmentSize) hle
    (fromSlice_nil htext) (by simp) (fromSlice_not_finite htext hx hfinite)
    (MemTable.new config.memtableSizeThreshold)
  refine ⟨e, ?_⟩
  rw [StorageEngine.openAt, he]

/-! ### Samples -/

mutual

/-- The text of a tree whose strings need no escapes. -/
def treeText : Tree → String
  | .null => "null"
  | .bool b => if b then "true" else "false"
  | .number token => token
  | .string s => "\"" ++ s ++ "\""
  | .array items => "[" ++ String.intercalate "," (itemTexts items) ++ "]"
  | .object fields => "\x7b" ++ String.intercalate "," (fieldTexts fields) ++ "\x7d"

def itemTexts : List Tree → List String
  | [] => []
  | item :: items => treeText item :: itemTexts items

def fieldTexts : List (String × Tree) → List String
  | [] => []
  | (name, item) :: fields => ("\"" ++ name ++ "\":" ++ treeText item) :: fieldTexts fields

end

def samplePut (fields : List (String × Tree)) : Tree :=
  .object [("Put", .object
    [("id", .number "1"), ("vector", .object fields), ("timestamp", .number "1")])]

/-- The records of a vector with a payload, and of one whose component is infinite. -/
def sampleTrees : List Tree :=
  [ samplePut [("data", .array [.number "1.0"]), ("payload", .object [("n", .number "7")])],
    samplePut [("data", .array [.null])] ]

def sampleSerde : SerdeJson UInt64 where
  print tree := ascii (treeText tree)
  parse bytes :=
    match sampleTrees.find? fun tree => ascii (treeText tree) = bytes with
    | some tree => .ok tree
    | none => .error "not a sample"
  f32Text _ := "1.0"
  f64Text _ := "1.0"
  parseF32 token := if token = "1.0" then some 0x3F800000 else none
  parseNumber token :=
    match token.toList with
    | '-' :: digits =>
      if digits.all Char.isDigit then
        some (.negInt (Int64.ofInt (-(Nat.ofDigitChars 10 digits 0 : Int))))
      else none
    | digits =>
      if digits.all Char.isDigit then
        some (.posInt (UInt64.ofNat (Nat.ofDigitChars 10 digits 0)))
      else none

def samplePayload : Map UInt64 := [("n", .number (.posInt 7))]

theorem all_isDigit_toDigits (n : Nat) : (Nat.toDigits 10 n).all Char.isDigit = true :=
  List.all_eq_true.mpr fun _ hdigit => Nat.isDigit_of_mem_toDigits (by decide) (by decide) hdigit

theorem sampleSerde_readsIntegers : sampleSerde.ReadsIntegers where
  posInt n := by
    have hdigits : (Nat.repr n.toNat).toList = Nat.toDigits 10 n.toNat := by simp [Nat.repr]
    simp only [sampleSerde, hdigits]
    split
    · rename_i digits hhyphen
      refine absurd ?_ (Names.hyphen_notMem_toDigits n.toNat)
      rw [hhyphen]
      exact List.mem_cons_self
    · rw [if_pos (all_isDigit_toDigits _), Nat.ofDigitChars_toDigits (by decide) (by decide),
        UInt64.ofNat_toNat]
  negInt n hn := by
    obtain ⟨k, hk⟩ := Int.eq_negSucc_of_lt_zero (Int64.lt_iff_toInt_lt.mp hn)
    have hback : Int64.ofInt (Int.negSucc k) = n := by
      rw [← hk, Int64.ofInt_toInt]
    have hdigits : (Int.repr n.toInt).toList = '-' :: Nat.toDigits 10 (k + 1) := by
      rw [hk]
      simp [Int.repr, Nat.repr]
    simp only [sampleSerde, hdigits]
    rw [if_pos (all_isDigit_toDigits _), Nat.ofDigitChars_toDigits (by decide) (by decide)]
    exact congrArg (fun n => some (Number.negInt n)) hback

theorem sampleSerde_readsText {tree : Tree} (htree : tree ∈ sampleTrees) :
    sampleSerde.ReadsText tree := by
  have hdepth : ∀ tree ∈ sampleTrees, tree.depth ≤ 127 := by decide +kernel
  have hempty : ∀ tree ∈ sampleTrees, ascii (treeText tree) ≠ [] := by decide +kernel
  refine ⟨fun _ => ?_, fun hdeep => absurd (hdepth tree htree) (Nat.not_le.mpr hdeep),
    ⟨"not a sample", ?_⟩⟩
  · have hother : ascii (treeText (samplePut [("data", .array [.number "1.0"]),
        ("payload", .object [("n", .number "7")])])) ≠
        ascii (treeText (samplePut [("data", .array [.null])])) := by
      decide +kernel
    rcases List.mem_pair.mp htree with rfl | rfl
    · simp [sampleSerde, sampleTrees]
    · simp [sampleSerde, sampleTrees, hother]
  · have hnone : sampleTrees.find? (fun tree => ascii (treeText tree) = []) = none := by
      simpa using hempty
    simp only [sampleSerde, hnone]

/-! ### Which records are kept -/

/-- A record whose text is longer than the size limit is not logged at all.  Of the others, those
are kept whose vector is legible and whose text is shorter than the limit. -/
theorem logKept_iff (base : Codec (Map F)) (crc : List UInt8 → UInt32)
    (hints : serde.ReadsIntegers) (id timestamp : UInt64) {vector : Vector (Map F)}
    (hvector : ∀ payload, vector.payload = some payload → (Json.object payload).WellFormed)
    (htext : serde.ReadsText (serde.recordTree (.put id.toNat vector timestamp.toNat))) :
    LogKept (serde.codec base) crc (.put id.toNat vector timestamp.toNat) ↔
      maxRecordSize < (serde.recordText (.put id.toNat vector timestamp.toNat)).length ∨
        ((serde.recordText (.put id.toNat vector timestamp.toNat)).length < maxRecordSize ∧
          serde.Legible vector) := by
  rw [logKept_iff_reads rfl (fromSlice_nil htext),
    fromSlice_put_iff hints id timestamp hvector htext]

def sampleBase : Codec (Map UInt64) where
  toVec _ := .error "not a sample"
  fromSlice _ := .error "not a sample"
  payloadToVec payload := ascii (treeText (sampleSerde.valueTree (.object payload)))
  payloadFromSlice _ := .error "not a sample"
  metaToVec := Storage.sampleCodec.metaToVec
  metaFromSlice := Storage.sampleCodec.metaFromSlice

theorem logKept_iff_payload :
    LogKept (sampleSerde.codec sampleBase) (fun _ => 0)
      (.put 1 { data := [0x3F800000], payload := some samplePayload } 1) := by
  have hwellFormed : ∀ payload, some samplePayload = some payload →
      (Json.object payload).WellFormed := by
    intro payload hpayload
    rw [← Option.some.inj hpayload]
    simp [samplePayload, Json.WellFormed, Json.fieldsWellFormed, Number.WellFormed]
  have htext : sampleSerde.ReadsText (sampleSerde.recordTree
      (.put 1 { data := [0x3F800000], payload := some samplePayload } 1)) :=
    sampleSerde_readsText List.mem_cons_self
  refine (logKept_iff sampleBase (fun _ => 0) sampleSerde_readsIntegers 1 1 hwellFormed htext).mpr
    (Or.inr ⟨by decide +kernel, ?_, ?_⟩)
  · intro x hx
    rw [List.mem_singleton.mp hx]
    decide +kernel
  · intro payload hpayload
    rw [← Option.some.inj hpayload]
    simp [samplePayload, valueTree, fieldTrees, Tree.depth, Tree.depthFields, Json.floats,
      Json.fieldsFloats]

theorem not_logKept :
    ¬ LogKept (sampleSerde.codec sampleBase) (fun _ => 0)
      (.put 1 { data := [0x7F800000], payload := none } 1) := by
  have htext : sampleSerde.ReadsText (sampleSerde.recordTree
      (.put 1 { data := [0x7F800000], payload := none } 1)) :=
    sampleSerde_readsText (List.mem_cons_of_mem _ List.mem_cons_self)
  rw [logKept_iff_reads rfl (fromSlice_nil htext)]
  rintro (hlarge | ⟨-, hread⟩)
  · exact absurd hlarge (by decide +kernel)
  · exact fromSlice_not_finite htext List.mem_cons_self (by decide) _ hread

end SerdeJson

end Api
end RTDB
