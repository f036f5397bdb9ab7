import RTDB.Lib.Names
import RTDB.Lib.Replace
import RTDB.Migration.Types

/-!
# Checkpoint files

`CheckpointManager` of `migration/checkpoint.rs`, over the files of its directory.  A save writes a
temporary file and renames it; the steps of saves interleave, and the program may end at any of
them.  `uuid` and `serde_json` are parameters.
-/

namespace RTDB
namespace Migration

open Replace

/-- What the manager uses of `uuid` and `serde_json`; a value's text is bytes. -/
structure Serde (U J : Type) where
  display : U → List Char
  parseStr : List Char → Option U
  toStringPretty : J → List UInt8
  fromStr : List UInt8 → Except String J

/-- What is shown or written is read back. -/
structure Serde.Faithful {U J : Type} (serde : Serde U J) : Prop where
  parse : ∀ id, serde.parseStr (serde.display id) = some id
  display_ne_nil : ∀ id, serde.display id ≠ []
  round : ∀ v, serde.fromStr (serde.toStringPretty v) = .ok v

/-! ## File names -/

/-- What stands before and behind the last dot of a name, unless nothing stands before it. -/
def dotParts (name : List Char) : Option (List Char × List Char) :=
  match name.reverse.dropWhile (· ≠ '.') with
  | [] => none
  | _ :: front =>
    if front = [] then none
    else some (front.reverse, (name.reverse.takeWhile (· ≠ '.')).reverse)

def fileStem (name : List Char) : List Char := ((dotParts name).map Prod.fst).getD name

def extension (name : List Char) : Option (List Char) := (dotParts name).map Prod.snd

def withExtension (name ext : List Char) : List Char := fileStem name ++ '.' :: ext

theorem dotParts_dot {front ext : List Char} (hfront : front ≠ []) (hext : '.' ∉ ext) :
    dotParts (front ++ '.' :: ext) = some (front, ext) := by
  have hreverse : (front ++ '.' :: ext).reverse = ext.reverse ++ '.' :: front.reverse := by
    rw [List.reverse_append, List.reverse_cons, List.append_assoc]
    rfl
  have hkeep : ∀ c ∈ ext.reverse, decide (c ≠ '.') = true := fun c hc =>
    decide_eq_true fun heq => hext (heq ▸ List.mem_reverse.mp hc)
  rw [dotParts, hreverse, List.dropWhile_append_of_pos hkeep, List.takeWhile_append_of_pos hkeep]
  simp [hfront]

section Manager

variable {U J : Type} (serde : Serde U J)

def checkpointName (id : U) : List Char := serde.display id ++ ".json".toList

def tempName (id : U) : List Char := withExtension (checkpointName serde id) "tmp".toList

variable {serde}

theorem dotParts_checkpointName (hserde : serde.Faithful) (id : U) :
    dotParts (checkpointName serde id) = some (serde.display id, "json".toList) :=
  dotParts_dot (hserde.display_ne_nil id) (by decide)

theorem tempName_eq (hserde : serde.Faithful) (id : U) :
    tempName serde id = serde.display id ++ '.' :: "tmp".toList := by
  rw [tempName, withExtension, fileStem, dotParts_checkpointName hserde]
  rfl

theorem dotParts_tempName (hserde : serde.Faithful) (id : U) :
    dotParts (tempName serde id) = some (serde.display id, "tmp".toList) := by
  rw [tempName_eq hserde]
  exact dotParts_dot (hserde.display_ne_nil id) (by decide)

theorem display_inj (hserde : serde.Faithful) {id other : U}
    (heq : serde.display id = serde.display other) : id = other :=
  Option.some.inj ((hserde.parse id).symm.trans ((congrArg _ heq).trans (hserde.parse other)))

/-- Each migration has a temporary file and a checkpoint file. -/
def checkpointLayout (hserde : serde.Faithful) : Layout U (List Char) J UInt8 where
  temp := tempName serde
  target := checkpointName serde
  encode := serde.toStringPretty
  pad := 0
  temp_inj := by
    intro id other heq
    rw [tempName_eq hserde, tempName_eq hserde] at heq
    exact display_inj hserde (List.append_cancel_right heq)
  target_inj := fun _ _ heq => display_inj hserde (List.append_cancel_right heq)
  apart := by
    intro id other heq
    have hparts := congrArg dotParts heq
    rw [dotParts_tempName hserde, dotParts_checkpointName hserde] at hparts
    exact absurd (Prod.mk.inj (Option.some.inj hparts)).2 (by decide)

/-- A directory and the saves at work on it: `save_checkpoint` is a writer, and
`delete_checkpoint` and `cleanup_old_checkpoints` remove checkpoint files. -/
abbrev Checkpoints (U J : Type) := Disk U (List Char) J UInt8

variable (serde)

def loadCheckpoint (d : Checkpoints U J) (id : U) : Except Error (Option J) :=
  match (d.names (checkpointName serde id)).bind fun n => d.files[n]? with
  | none => .ok none
  | some bytes =>
    match serde.fromStr bytes with
    | .ok checkpoint => .ok (some checkpoint)
    | .error e => .error (.serialization s!"Failed to deserialize checkpoint: {e}")

/-- The migrations among the entries of the directory. -/
def listCheckpoints (entries : List (List Char)) : List U :=
  entries.filterMap fun name =>
    if extension name = some "json".toList then serde.parseStr (fileStem name) else none

variable {serde} [DecidableEq U] {hserde : serde.Faithful} {id : U} {d : Checkpoints U J}
  {saved : Option J}

/-! ## Samples -/

def sampleSerde : Serde Bool Bool where
  display id :=
    if id then "ffffffff-ffff-ffff-ffff-ffffffffffff".toList
    else "00000000-0000-0000-0000-000000000000".toList
  parseStr text :=
    if text = "ffffffff-ffff-ffff-ffff-ffffffffffff".toList then some true
    else if text = "00000000-0000-0000-0000-000000000000".toList then some false
    else none
  toStringPretty v := if v then [0x74, 0x72, 0x75, 0x65] else [0x66, 0x61, 0x6C, 0x73, 0x65]
  fromStr bytes :=
    if bytes = [0x74, 0x72, 0x75, 0x65] then .ok true
    else if bytes = [0x66, 0x61, 0x6C, 0x73, 0x65] then .ok false
    else .error "expected value"

theorem sampleSerde_faithful : sampleSerde.Faithful where
  parse := by decide
  display_ne_nil := by decide
  round := by decide

def sampleLayout : Layout Bool (List Char) Bool UInt8 := checkpointLayout sampleSerde_faithful

/-- A checkpoint is saved beside the save of another migration, and a second one is cut off. -/
def sampleSteps : List (Replace.Action Bool Bool) :=
  [.call false true, .create 0, .write 0 2, .call true false, .create 1, .write 1 9, .write 0 9,
    .rename 0, .call false false, .create 1, .write 1 3, .crash]

def sampleAfter (steps : List (Replace.Action Bool Bool)) : Checkpoints Bool Bool :=
  steps.foldl (fun d a => (step sampleLayout d a).getD d) Disk.empty

def sampleDisk : Checkpoints Bool Bool := sampleAfter sampleSteps

/-! ## Loading -/

theorem sampleDisk_run : Run sampleLayout false sampleDisk (some true) := by
  have hcalled : Run sampleLayout false _ _ := (Run.start.step (a := .call false true)
    (fun _ w hw => absurd hw List.not_mem_nil) rfl).step (a := .create 0) trivial rfl
  have hother := ((hcalled.step (a := .write 0 2) trivial rfl).step (a := .call true false)
    (fun h => absurd h (by decide)) rfl).step (a := .create 1) trivial rfl
  have hrenamed := ((hother.step (a := .write 1 9) trivial rfl).step (a := .write 0 9)
    trivial rfl).step (a := .rename 0) trivial rfl
  have hagain := hrenamed.step (a := .call false false) (by
    intro _ w hw
    obtain rfl := List.mem_singleton.mp hw
    decide) rfl
  exact ((hagain.step (a := .create 1) trivial rfl).step (a := .write 1 3) trivial rfl).step
    (a := .crash) trivial rfl

-- Two saves of one migration at a time write into one temporary file.
example : loadCheckpoint sampleSerde (sampleAfter [.call false true, .call false false, .create 0,
    .create 1, .write 0 9, .write 1 2, .rename 0]) false =
      .error (.serialization "Failed to deserialize checkpoint: expected value") := rfl

/-- The list holds exactly the migrations with a checkpoint. -/
theorem listCheckpoints_of_run {entries : List (List Char)}
    (hrun : Run (checkpointLayout hserde) id d saved)
    (hentries : ∀ name, name ∈ entries ↔ d.names name ≠ none) :
    id ∈ listCheckpoints serde entries ↔ saved ≠ none := by
  obtain ⟨⟨owner, howned⟩, hintact⟩ := hrun.intact
  have hsaved : saved ≠ none ↔ d.names (checkpointName serde id) ≠ none := by
    have htarget := hintact.target
    change (d.names (checkpointName serde id)).bind (fun n => d.files[n]?) = _ at htarget
    cases hname : d.names (checkpointName serde id) with
    | none =>
      rw [hname, Option.bind_none] at htarget
      rw [Option.map_eq_none_iff.mp htarget.symm]
      exact ⟨fun hne => absurd rfl hne, fun hne => absurd rfl hne⟩
    | some n =>
      have hn := (howned.names _ n hname).1
      rw [hname, Option.bind_some, List.getElem?_eq_getElem hn] at htarget
      obtain ⟨v, hv, -⟩ := Option.map_eq_some_iff.mp htarget.symm
      rw [hv]
      exact ⟨fun _ => Option.some_ne_none n, fun _ => Option.some_ne_none v⟩
  rw [hsaved, listCheckpoints, List.mem_filterMap]
  constructor
  · rintro ⟨name, hname, hid⟩
    split_ifs at hid with hjson
    have hheld := (hentries name).mp hname
    obtain ⟨n, hn⟩ := Option.ne_none_iff_exists'.mp hheld
    rcases (howned.names name n hn).2 with rfl | rfl
    · change (dotParts (tempName serde (owner n))).map Prod.snd = _ at hjson
      rw [dotParts_tempName hserde] at hjson
      have htmp : "tmp".toList = "json".toList := Option.some.inj hjson
      exact absurd htmp (by decide)
    · change serde.parseStr (((dotParts (checkpointName serde (owner n))).map Prod.fst).getD _) = _
        at hid
      rw [dotParts_checkpointName hserde] at hid
      have howner := (hserde.parse (owner n)).symm.trans hid
      rw [← Option.some.inj howner]
      exact hheld
  · intro hname
    refine ⟨checkpointName serde id, (hentries _).mpr hname, ?_⟩
    rw [extension, fileStem, dotParts_checkpointName hserde]
    exact (if_pos rfl).trans (hserde.parse id)

theorem listCheckpoints_of_run_sample :
    false ∈ listCheckpoints sampleSerde
      [checkpointName sampleSerde false, tempName sampleSerde true, tempName sampleSerde false] ↔
        some true ≠ none := by
  refine listCheckpoints_of_run sampleDisk_run fun name => ?_
  constructor
  · intro hname
    simp only [List.mem_cons, List.not_mem_nil, or_false] at hname
    rcases hname with rfl | rfl | rfl
    · decide
    · decide
    · decide
  · intro hname
    by_contra hother
    simp only [List.mem_cons, List.not_mem_nil, or_false, not_or] at hother
    obtain ⟨htarget, hopen, htemp⟩ := hother
    refine hname ((Function.update_of_ne htemp _ _).trans ((Function.update_of_ne htemp _ _).trans
      ((Function.update_of_ne htarget _ _).trans ((Function.update_of_ne hopen _ _).trans
        (Function.update_of_ne htemp _ _)))))

end Manager

end Migration
end RTDB
