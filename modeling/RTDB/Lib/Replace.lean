import Mathlib.Data.List.Count
import Mathlib.Logic.Function.Basic

/-!
# Replacing a file by renaming another

Writers of a directory each write a value to a temporary file and then give it its lasting name.
Names lead to files, and a writer keeps the file it opened whatever becomes of the names.  Steps of
the writers interleave, any of them may be the last, and lasting names may be removed.  If a key's
writers do not overlap, what lies under its lasting name is always the whole of what its last
writer to finish wrote, whatever the writers of other keys do.
-/

namespace RTDB
namespace Replace

/-- The two names of each key, and how values are written. -/
structure Layout (K N V B : Type) where
  temp : K → N
  target : K → N
  encode : V → List B
  pad : B
  temp_inj : Function.Injective temp
  target_inj : Function.Injective target
  apart : ∀ k l, temp k ≠ target l

/-- A writer, with the file it has opened and how far it has written. -/
structure Writer (K V : Type) where
  key : K
  value : V
  file : Option (Nat × Nat)

/-- A file that no name leads to any more stays in the list. -/
structure Disk (K N V B : Type) where
  names : N → Option Nat
  files : List (List B)
  writers : List (Writer K V)

inductive Action (K V : Type) where
  | call (key : K) (value : V)
  | create (i : Nat)
  | write (i count : Nat)
  | rename (i : Nat)
  | remove (key : K)
  | crash

/-- Writing at a place in a file, which may lie behind its end. -/
def overwrite {B : Type} (pad : B) (place : Nat) (chunk old : List B) : List B :=
  old.take place ++ List.replicate (place - old.length) pad ++ chunk ++
    old.drop (place + chunk.length)

section Steps

variable {K N V B : Type} [DecidableEq K] [DecidableEq N] (layout : Layout K N V B)

def Disk.empty : Disk K N V B := { names := fun _ => none, files := [], writers := [] }

/-- A file that is there is cut to nothing. -/
def Disk.create (d : Disk K N V B) (i : Nat) (w : Writer K V) : Disk K N V B :=
  match d.names (layout.temp w.key) with
  | some n =>
    { d with files := d.files.set n [], writers := d.writers.set i { w with file := some (n, 0) } }
  | none =>
    { names := Function.update d.names (layout.temp w.key) (some d.files.length)
      files := d.files ++ [[]]
      writers := d.writers.set i { w with file := some (d.files.length, 0) } }

def Disk.write (d : Disk K N V B) (i : Nat) (w : Writer K V) (n place count : Nat) :
    Disk K N V B :=
  let chunk := ((layout.encode w.value).drop place).take count
  { d with
    files := d.files.modify n (overwrite layout.pad place chunk)
    writers := d.writers.set i { w with file := some (n, place + chunk.length) } }

/-- Without a temporary file the rename fails. -/
def Disk.rename (d : Disk K N V B) (i : Nat) (w : Writer K V) : Disk K N V B :=
  match d.names (layout.temp w.key) with
  | some n =>
    { d with
      names := Function.update (Function.update d.names (layout.target w.key) (some n))
        (layout.temp w.key) none
      writers := d.writers.eraseIdx i }
  | none => { d with writers := d.writers.eraseIdx i }

def step (d : Disk K N V B) : Action K V → Option (Disk K N V B)
  | .call key value =>
    some { d with writers := d.writers ++ [{ key := key, value := value, file := none }] }
  | .create i => d.writers[i]?.bind fun w => if w.file = none then some (d.create layout i w) else none
  | .write i count =>
    d.writers[i]?.bind fun w => w.file.map fun file => d.write layout i w file.1 file.2 count
  | .rename i =>
    d.writers[i]?.bind fun w => w.file.bind fun file =>
      if file.2 = (layout.encode w.value).length then some (d.rename layout i w) else none
  | .remove key => some { d with names := Function.update d.names (layout.target key) none }
  | .crash => some { d with writers := [] }

def Disk.read (d : Disk K N V B) (key : K) : Option (List B) :=
  (d.names (layout.target key)).bind fun n => d.files[n]?

def Free (key : K) (d : Disk K N V B) : Action K V → Prop
  | .call k _ => k = key → ∀ w ∈ d.writers, w.key ≠ key
  | _ => True

def effect (key : K) (d : Disk K N V B) (a : Action K V) (saved : Option V) : Option V :=
  match a with
  | .rename i =>
    (d.writers[i]?).elim saved fun w => if w.key = key then some w.value else saved
  | .remove k => if k = key then none else saved
  | _ => saved

/-- A run in which the writers of a key do not overlap, and the last value of the key. -/
inductive Run (key : K) : Disk K N V B → Option V → Prop
  | start : Run key Disk.empty none
  | step {d d' : Disk K N V B} {a : Action K V} {saved : Option V} (hrun : Run key d saved)
      (hfree : Free key d a) (hstep : step layout d a = some d') :
      Run key d' (effect key d a saved)

/-! ## Files belong to keys -/

/-- Only the two names of its key lead to a file, and only writers of the key have it open. -/
structure Owned (owner : Nat → K) (d : Disk K N V B) : Prop where
  names : ∀ x n, d.names x = some n →
    n < d.files.length ∧ (x = layout.temp (owner n) ∨ x = layout.target (owner n))
  writers : ∀ w ∈ d.writers, ∀ n place, w.file = some (n, place) →
    n < d.files.length ∧ owner n = w.key

/-- What is under the lasting name is the saved value.  At most one writer is at work, on the
temporary file, and has written the front of its value. -/
structure Intact (key : K) (saved : Option V) (d : Disk K N V B) : Prop where
  target : d.read layout key = saved.map layout.encode
  alone : (d.writers.map Writer.key).count key ≤ 1
  apart : ∀ n, d.names (layout.temp key) = some n → d.names (layout.target key) ≠ some n
  progress : ∀ w ∈ d.writers, w.key = key → ∀ n place, w.file = some (n, place) →
    d.names (layout.temp key) = some n ∧ place ≤ (layout.encode w.value).length ∧
      d.files[n]? = some ((layout.encode w.value).take place)

variable {layout} {owner : Nat → K} {d d' : Disk K N V B} {key : K} {saved : Option V}
  {w v : Writer K V} {i n place count : Nat} {a : Action K V}

omit [DecidableEq K] [DecidableEq N] in
theorem split_at {l : List (Writer K V)} (hi : l[i]? = some w) :
    l = l.take i ++ w :: l.drop (i + 1) := by
  obtain ⟨hlt, hget⟩ := List.getElem?_eq_some_iff.mp hi
  conv_lhs => rw [← List.take_append_drop i l, List.drop_eq_getElem_cons hlt, hget]

omit [DecidableEq N] in
/-- A writer that is the only one with its key leaves none. -/
theorem ne_of_mem_eraseIdx {l : List (Writer K V)} (halone : (l.map Writer.key).count key ≤ 1)
    (hi : l[i]? = some w) (hw : w.key = key) (hv : v ∈ l.eraseIdx i) : v.key ≠ key := by
  intro hkey
  rw [split_at hi, List.map_append, List.map_cons, List.count_append, hw,
    List.count_cons_self] at halone
  have hcount : 0 < ((l.eraseIdx i).map Writer.key).count key :=
    List.count_pos_iff.mpr (List.mem_map.mpr ⟨v, hv, hkey⟩)
  rw [List.eraseIdx_eq_take_drop_succ, List.map_append, List.count_append] at hcount
  omega

omit [DecidableEq K] [DecidableEq N] in
theorem mem_set {l : List (Writer K V)} (hv : v ∈ l.set i w) : v = w ∨ v ∈ l.eraseIdx i := by
  by_cases hlt : i < l.length
  · rw [List.set_eq_take_append_cons_drop, if_pos hlt] at hv
    rw [List.eraseIdx_eq_take_drop_succ, List.mem_append]
    rcases List.mem_append.mp hv with hv | hv
    · exact Or.inr (Or.inl hv)
    · exact (List.mem_cons.mp hv).imp_right Or.inr
  · rw [List.set_eq_of_length_le (Nat.le_of_not_lt hlt)] at hv
    rw [List.eraseIdx_of_length_le (Nat.le_of_not_lt hlt)]
    exact Or.inr hv

omit [DecidableEq K] [DecidableEq N] in
theorem keys_set {l : List (Writer K V)} (hi : l[i]? = some w) (file : Option (Nat × Nat)) :
    (l.set i { w with file := file }).map Writer.key = l.map Writer.key := by
  obtain ⟨hlt, hget⟩ := List.getElem?_eq_some_iff.mp hi
  conv_rhs => rw [split_at hi]
  rw [List.set_eq_take_append_cons_drop, if_pos hlt, List.map_append, List.map_append]
  rfl

omit [DecidableEq K] [DecidableEq N] in
theorem owned_empty : Owned layout owner Disk.empty where
  names := fun x n hname => absurd hname (by simp [Disk.empty])
  writers := fun w hw => absurd hw List.not_mem_nil

omit [DecidableEq K] [DecidableEq N] in
theorem Owned.temp_owner (hd : Owned layout owner d) (hname : d.names (layout.temp key) = some n) :
    n < d.files.length ∧ owner n = key := by
  obtain ⟨hn, hfrom⟩ := hd.names _ n hname
  refine ⟨hn, ?_⟩
  rcases hfrom with hfrom | hfrom
  · exact (layout.temp_inj hfrom).symm
  · exact absurd hfrom (layout.apart key (owner n))

omit [DecidableEq K] [DecidableEq N] in
theorem Owned.target_owner (hd : Owned layout owner d)
    (hname : d.names (layout.target key) = some n) : n < d.files.length ∧ owner n = key := by
  obtain ⟨hn, hfrom⟩ := hd.names _ n hname
  refine ⟨hn, ?_⟩
  rcases hfrom with hfrom | hfrom
  · exact absurd hfrom.symm (layout.apart (owner n) key)
  · exact (layout.target_inj hfrom).symm

omit [DecidableEq K] in
theorem Owned.create (hd : Owned layout owner d) :
    ∃ owner', Owned layout owner' (d.create layout i w) := by
  rw [Disk.create]
  cases htemp : d.names (layout.temp w.key) with
  | some m =>
    obtain ⟨hm, howner⟩ := hd.temp_owner htemp
    refine ⟨owner, fun x n hname => ?_, fun v hv n place hfile => ?_⟩
    · rw [List.length_set]
      exact hd.names x n hname
    · rw [List.length_set]
      rcases mem_set hv with rfl | hv
      · obtain ⟨rfl, -⟩ := Prod.mk.inj (Option.some.inj hfile)
        exact ⟨hm, howner⟩
      · exact hd.writers v (List.mem_of_mem_eraseIdx hv) n place hfile
  | none =>
    have hold : ∀ n < d.files.length,
        Function.update owner d.files.length w.key n = owner n := fun n hn =>
      Function.update_of_ne (Nat.ne_of_lt hn) _ _
    refine ⟨Function.update owner d.files.length w.key,
      fun x n hname => ?_, fun v hv n place hfile => ?_⟩
    · rw [List.length_append, List.length_singleton]
      dsimp only at hname
      rw [Function.update_apply] at hname
      split_ifs at hname with hx
      · obtain rfl := Option.some.inj hname
        rw [Function.update_self]
        exact ⟨Nat.lt_succ_self _, Or.inl hx⟩
      · obtain ⟨hn, hname⟩ := hd.names x n hname
        rw [hold n hn]
        exact ⟨Nat.lt_succ_of_lt hn, hname⟩
    · rw [List.length_append, List.length_singleton]
      rcases mem_set hv with rfl | hv
      · obtain ⟨rfl, -⟩ := Prod.mk.inj (Option.some.inj hfile)
        exact ⟨Nat.lt_succ_self _, Function.update_self _ _ _⟩
      · obtain ⟨hn, hkey⟩ := hd.writers v (List.mem_of_mem_eraseIdx hv) n place hfile
        rw [hold n hn]
        exact ⟨Nat.lt_succ_of_lt hn, hkey⟩

omit [DecidableEq K] [DecidableEq N] in
theorem Owned.write (hd : Owned layout owner d) (hi : d.writers[i]? = some w)
    (hfile : w.file = some (n, place)) : Owned layout owner (d.write layout i w n place count) where
  names := by
    intro x m hname
    rw [Disk.write, List.length_modify]
    exact hd.names x m hname
  writers := by
    intro v hv m at' hat
    rw [Disk.write, List.length_modify]
    rcases mem_set hv with rfl | hv
    · obtain ⟨rfl, -⟩ := Prod.mk.inj (Option.some.inj hat)
      exact hd.writers w (List.mem_of_getElem? hi) n place hfile
    · exact hd.writers v (List.mem_of_mem_eraseIdx hv) m at' hat

omit [DecidableEq K] in
theorem Owned.rename (hd : Owned layout owner d) : Owned layout owner (d.rename layout i w) := by
  rw [Disk.rename]
  cases htemp : d.names (layout.temp w.key) with
  | none =>
    exact ⟨hd.names, fun v hv => hd.writers v (List.mem_of_mem_eraseIdx hv)⟩
  | some m =>
    refine ⟨fun x n hname => ?_, fun v hv => hd.writers v (List.mem_of_mem_eraseIdx hv)⟩
    dsimp only at hname
    rw [Function.update_apply, Function.update_apply] at hname
    split_ifs at hname with hx hy
    · obtain rfl := Option.some.inj hname
      obtain ⟨hm, howner⟩ := hd.temp_owner htemp
      rw [howner]
      exact ⟨hm, Or.inr hy⟩
    · exact hd.names x n hname

omit [DecidableEq K] in
/-- After each step files still belong to keys. -/
theorem Owned.step (hd : Owned layout owner d) (hstep : step layout d a = some d') :
    ∃ owner', Owned layout owner' d' := by
  cases a with
  | call k value =>
    obtain rfl := Option.some.inj hstep
    refine ⟨owner, hd.names, fun w hw n place hfile => ?_⟩
    rcases List.mem_append.mp hw with hw | hw
    · exact hd.writers w hw n place hfile
    · rw [List.mem_singleton.mp hw] at hfile
      exact absurd hfile (by simp)
  | create i =>
    obtain ⟨w, hi, hstep⟩ := Option.bind_eq_some_iff.mp hstep
    split_ifs at hstep
    obtain rfl := Option.some.inj hstep
    exact hd.create
  | write i count =>
    obtain ⟨w, hi, hstep⟩ := Option.bind_eq_some_iff.mp hstep
    obtain ⟨file, hfile, rfl⟩ := Option.map_eq_some_iff.mp hstep
    exact ⟨owner, hd.write hi hfile⟩
  | rename i =>
    obtain ⟨w, hi, hstep⟩ := Option.bind_eq_some_iff.mp hstep
    obtain ⟨file, hfile, hstep⟩ := Option.bind_eq_some_iff.mp hstep
    split_ifs at hstep
    obtain rfl := Option.some.inj hstep
    exact ⟨owner, hd.rename⟩
  | remove k =>
    obtain rfl := Option.some.inj hstep
    refine ⟨owner, fun x n hname => ?_, hd.writers⟩
    dsimp only at hname
    rw [Function.update_apply] at hname
    split_ifs at hname
    exact hd.names x n hname
  | crash =>
    obtain rfl := Option.some.inj hstep
    exact ⟨owner, hd.names, fun w hw => absurd hw List.not_mem_nil⟩

/-! ## What a key's names lead to -/

omit [DecidableEq N] in
theorem intact_empty : Intact layout key none Disk.empty where
  target := rfl
  alone := Nat.zero_le 1
  apart := fun n hname => absurd hname (by simp [Disk.empty])
  progress := fun w hw => absurd hw List.not_mem_nil

omit [DecidableEq N] in
theorem Intact.frame (hd : Intact layout key saved d) (howned : Owned layout owner d)
    (htemp : d'.names (layout.temp key) = d.names (layout.temp key))
    (htarget : d'.names (layout.target key) = d.names (layout.target key))
    (hfiles : ∀ n < d.files.length, owner n = key → d'.files[n]? = d.files[n]?)
    (hwriters : ∀ v ∈ d'.writers, v.key = key → v ∈ d.writers)
    (hcount : (d'.writers.map Writer.key).count key ≤ (d.writers.map Writer.key).count key) :
    Intact layout key saved d' where
  target := by
    rw [← hd.target, Disk.read, Disk.read, htarget]
    cases hname : d.names (layout.target key) with
    | none => rfl
    | some n =>
      obtain ⟨hn, howner⟩ := howned.target_owner hname
      exact hfiles n hn howner
  alone := Nat.le_trans hcount hd.alone
  apart := by
    rw [htemp, htarget]
    exact hd.apart
  progress := by
    intro v hv hkey n place hfile
    obtain ⟨hname, hplace, hcontent⟩ := hd.progress v (hwriters v hv hkey) hkey n place hfile
    obtain ⟨hn, howner⟩ := howned.writers v (hwriters v hv hkey) n place hfile
    rw [htemp, hfiles n hn (howner.trans hkey)]
    exact ⟨hname, hplace, hcontent⟩

theorem Intact.create (hd : Intact layout key saved d) (howned : Owned layout owner d)
    (hi : d.writers[i]? = some w) (hkey : w.key = key) :
    Intact layout key saved (d.create layout i w) := by
  subst hkey
  have halone : ∀ file, ((d.writers.set i { w with file := file }).map Writer.key).count w.key ≤ 1 :=
    fun file => by
      rw [keys_set hi]
      exact hd.alone
  rw [Disk.create]
  cases htemp : d.names (layout.temp w.key) with
  | some m =>
    have hm := (howned.temp_owner htemp).1
    refine ⟨?_, halone _, hd.apart, fun v hv hkey n place hfile => ?_⟩
    · rw [← hd.target, Disk.read, Disk.read]
      cases hname : d.names (layout.target w.key) with
      | none => rfl
      | some n =>
        have hne : m ≠ n := fun heq => hd.apart m htemp (heq ▸ hname)
        exact List.getElem?_set_ne hne
    · rcases mem_set hv with rfl | hv
      · obtain ⟨rfl, rfl⟩ := Prod.mk.inj (Option.some.inj hfile)
        exact ⟨htemp, Nat.zero_le _, List.getElem?_set_self hm⟩
      · exact absurd hkey (ne_of_mem_eraseIdx hd.alone hi rfl hv)
  | none =>
    have hother : Function.update d.names (layout.temp w.key) (some d.files.length)
        (layout.target w.key) = d.names (layout.target w.key) :=
      Function.update_of_ne (layout.apart w.key w.key).symm _ _
    refine ⟨?_, halone _, fun n hname => ?_, fun v hv hkey n place hfile => ?_⟩
    · rw [← hd.target, Disk.read, Disk.read]
      dsimp only
      rw [hother]
      cases hname : d.names (layout.target w.key) with
      | none => rfl
      | some n => exact List.getElem?_append_left (howned.target_owner hname).1
    · dsimp only at hname ⊢
      rw [Function.update_self] at hname
      obtain rfl := Option.some.inj hname
      rw [hother]
      exact fun hlong => Nat.lt_irrefl _ (howned.target_owner hlong).1
    · rcases mem_set hv with rfl | hv
      · obtain ⟨rfl, rfl⟩ := Prod.mk.inj (Option.some.inj hfile)
        refine ⟨Function.update_self _ _ _, Nat.zero_le _, ?_⟩
        exact List.getElem?_concat_length
      · exact absurd hkey (ne_of_mem_eraseIdx hd.alone hi rfl hv)

theorem overwrite_take {B : Type} (pad : B) (content : List B) (place count : Nat)
    (hplace : place ≤ content.length) :
    overwrite pad place ((content.drop place).take count) (content.take place) =
      content.take (place + ((content.drop place).take count).length) := by
  have hlength : (content.take place).length = place := by
    rw [List.length_take, Nat.min_eq_left hplace]
  have hbehind : (content.take place).drop (place + ((content.drop place).take count).length) = [] :=
    List.drop_of_length_le (by rw [hlength]; exact Nat.le_add_right _ _)
  have hchunk : (content.drop place).take ((content.drop place).take count).length =
      (content.drop place).take count := by
    rw [List.length_take, List.take_eq_take_iff]
    omega
  rw [overwrite, hbehind, hlength, Nat.sub_self, List.replicate_zero, List.append_nil,
    List.append_nil, List.take_take, Nat.min_self, List.take_add, hchunk]

omit [DecidableEq N] in
/-- What is written goes on where the file ends. -/
theorem Intact.write (hd : Intact layout key saved d) (hi : d.writers[i]? = some w)
    (hkey : w.key = key) (hfile : w.file = some (n, place)) :
    Intact layout key saved (d.write layout i w n place count) := by
  subst hkey
  obtain ⟨hname, hplace, hcontent⟩ := hd.progress w (List.mem_of_getElem? hi) rfl n place hfile
  refine ⟨?_, ?_, hd.apart, fun v hv hkey m at' hat => ?_⟩
  · rw [← hd.target, Disk.read, Disk.read, Disk.write]
    cases htarget : d.names (layout.target w.key) with
    | none => rfl
    | some m =>
      have hne : n ≠ m := fun heq => hd.apart n hname (heq ▸ htarget)
      exact List.getElem?_modify_ne _ _ hne
  · rw [Disk.write, keys_set hi]
    exact hd.alone
  · rcases mem_set hv with rfl | hv
    · obtain ⟨rfl, rfl⟩ := Prod.mk.inj (Option.some.inj hat)
      refine ⟨hname, ?_, ?_⟩
      · change place + _ ≤ (layout.encode w.value).length
        rw [List.length_take, List.length_drop]
        omega
      · rw [Disk.write, List.getElem?_modify_eq, hcontent]
        exact congrArg some (overwrite_take _ _ _ _ hplace)
    · exact absurd hkey (ne_of_mem_eraseIdx hd.alone hi rfl hv)

/-- The renamed file is the whole value. -/
theorem Intact.rename (hd : Intact layout key saved d) (hi : d.writers[i]? = some w)
    (hkey : w.key = key) (hfile : w.file = some (n, place))
    (hdone : place = (layout.encode w.value).length) :
    Intact layout key (some w.value) (d.rename layout i w) := by
  subst hkey
  obtain ⟨hname, -, hcontent⟩ := hd.progress w (List.mem_of_getElem? hi) rfl n place hfile
  have hnone : ∀ v ∈ d.writers.eraseIdx i, v.key ≠ w.key := fun v hv =>
    ne_of_mem_eraseIdx hd.alone hi rfl hv
  rw [Disk.rename, hname]
  refine ⟨?_, ?_, fun m hm => ?_, fun v hv hkey => absurd hkey (hnone v hv)⟩
  · rw [Disk.read]
    dsimp only
    rw [Function.update_of_ne (layout.apart w.key w.key).symm, Function.update_self,
      Option.bind_some, hcontent, hdone, List.take_length]
    rfl
  · exact Nat.le_trans (((List.eraseIdx_sublist _ _).map _).count_le _) hd.alone
  · dsimp only at hm
    rw [Function.update_self] at hm
    exact absurd hm (by simp)

theorem Intact.create_other (hd : Intact layout key saved d) (howned : Owned layout owner d)
    (hi : d.writers[i]? = some w) (hkey : w.key ≠ key) :
    Intact layout key saved (d.create layout i w) := by
  have hwriters : ∀ file, ∀ v ∈ d.writers.set i { w with file := file }, v.key = key →
      v ∈ d.writers := by
    intro file v hv hv'
    rcases mem_set hv with rfl | hv
    · exact absurd hv' hkey
    · exact List.mem_of_mem_eraseIdx hv
  have hcount : ∀ file, ((d.writers.set i { w with file := file }).map Writer.key).count key ≤
      (d.writers.map Writer.key).count key := fun file => Nat.le_of_eq (by rw [keys_set hi])
  rw [Disk.create]
  cases htemp : d.names (layout.temp w.key) with
  | some m =>
    refine hd.frame howned rfl rfl (fun n _ howner => ?_) (hwriters _) (hcount _)
    refine List.getElem?_set_ne fun heq => hkey ?_
    rw [← (howned.temp_owner htemp).2, heq, howner]
  | none =>
    refine hd.frame howned ?_ ?_ (fun n hn _ => List.getElem?_append_left hn) (hwriters _) (hcount _)
    · exact Function.update_of_ne (fun heq => hkey (layout.temp_inj heq).symm) _ _
    · exact Function.update_of_ne (layout.apart w.key key).symm _ _

omit [DecidableEq N] in
theorem Intact.write_other (hd : Intact layout key saved d) (howned : Owned layout owner d)
    (hi : d.writers[i]? = some w) (hkey : w.key ≠ key) (hfile : w.file = some (n, place)) :
    Intact layout key saved (d.write layout i w n place count) := by
  refine hd.frame howned rfl rfl (fun m _ howner => ?_) (fun v hv hv' => ?_) ?_
  · refine List.getElem?_modify_ne _ _ fun heq => hkey ?_
    rw [← (howned.writers w (List.mem_of_getElem? hi) n place hfile).2, heq, howner]
  · rcases mem_set hv with rfl | hv
    · exact absurd hv' hkey
    · exact List.mem_of_mem_eraseIdx hv
  · exact Nat.le_of_eq (congrArg (List.count key) (keys_set hi _))

theorem Intact.rename_other (hd : Intact layout key saved d) (howned : Owned layout owner d)
    (hkey : w.key ≠ key) : Intact layout key saved (d.rename layout i w) := by
  have hcount : ((d.writers.eraseIdx i).map Writer.key).count key ≤
      (d.writers.map Writer.key).count key := ((List.eraseIdx_sublist _ _).map _).count_le _
  rw [Disk.rename]
  cases d.names (layout.temp w.key) with
  | none =>
    exact hd.frame howned rfl rfl (fun _ _ _ => rfl) (fun v hv _ => List.mem_of_mem_eraseIdx hv)
      hcount
  | some m =>
    refine hd.frame howned ?_ ?_ (fun _ _ _ => rfl) (fun v hv _ => List.mem_of_mem_eraseIdx hv)
      hcount
    · exact (Function.update_of_ne (fun heq => hkey (layout.temp_inj heq).symm) _ _).trans
        (Function.update_of_ne (layout.apart key w.key) _ _)
    · exact (Function.update_of_ne (layout.apart w.key key).symm _ _).trans
        (Function.update_of_ne (fun heq => hkey (layout.target_inj heq).symm) _ _)

omit [DecidableEq N] in
theorem Intact.call (hd : Intact layout key saved d) {k : K} {value : V}
    (hfree : k = key → ∀ w ∈ d.writers, w.key ≠ key) :
    Intact layout key saved
      { d with writers := d.writers ++ [{ key := k, value := value, file := none }] } where
  target := hd.target
  alone := by
    rw [List.map_append, List.count_append, List.map_singleton, List.count_singleton]
    by_cases hkey : k = key
    · have hnone : (d.writers.map Writer.key).count key = 0 := by
        rw [List.count_eq_zero, List.mem_map]
        rintro ⟨w, hw, hwkey⟩
        exact hfree hkey w hw hwkey
      rw [hnone, Nat.zero_add]
      split
      · exact Nat.le_refl 1
      · exact Nat.zero_le 1
    · rw [if_neg (by simpa using hkey)]
      exact hd.alone
  apart := hd.apart
  progress := by
    intro w hw hkey n place hfile
    rcases List.mem_append.mp hw with hw | hw
    · exact hd.progress w hw hkey n place hfile
    · rw [List.mem_singleton.mp hw] at hfile
      exact absurd hfile (by simp)

theorem Intact.remove (hd : Intact layout key saved d) (howned : Owned layout owner d) (k : K) :
    Intact layout key (if k = key then none else saved)
      { d with names := Function.update d.names (layout.target k) none } := by
  by_cases hkey : k = key
  · subst hkey
    have htemp : Function.update d.names (layout.target k) none (layout.temp k) =
        d.names (layout.temp k) := Function.update_of_ne (layout.apart k k) _ _
    rw [if_pos rfl]
    refine ⟨?_, hd.alone, fun n _ => ?_, fun v hv hkey n place hfile => ?_⟩
    · rw [Disk.read]
      dsimp only
      rw [Function.update_self]
      rfl
    · dsimp only
      rw [Function.update_self]
      simp
    · dsimp only
      rw [htemp]
      exact hd.progress v hv hkey n place hfile
  · rw [if_neg hkey]
    refine hd.frame howned ?_ ?_ (fun _ _ _ => rfl) (fun v hv _ => hv) (Nat.le_refl _)
    · exact Function.update_of_ne (layout.apart key k) _ _
    · exact Function.update_of_ne (fun heq => hkey (layout.target_inj heq).symm) _ _

theorem Intact.step (hd : Intact layout key saved d) (howned : Owned layout owner d)
    (hfree : Free key d a) (hstep : step layout d a = some d') :
    Intact layout key (effect key d a saved) d' := by
  cases a with
  | call k value =>
    obtain rfl := Option.some.inj hstep
    exact hd.call hfree
  | create i =>
    obtain ⟨w, hi, hstep⟩ := Option.bind_eq_some_iff.mp hstep
    split_ifs at hstep
    obtain rfl := Option.some.inj hstep
    by_cases hkey : w.key = key
    · exact hd.create howned hi hkey
    · exact hd.create_other howned hi hkey
  | write i count =>
    obtain ⟨w, hi, hstep⟩ := Option.bind_eq_some_iff.mp hstep
    obtain ⟨file, hfile, rfl⟩ := Option.map_eq_some_iff.mp hstep
    by_cases hkey : w.key = key
    · exact hd.write hi hkey hfile
    · exact hd.write_other howned hi hkey hfile
  | rename i =>
    obtain ⟨w, hi, hstep⟩ := Option.bind_eq_some_iff.mp hstep
    obtain ⟨file, hfile, hstep⟩ := Option.bind_eq_some_iff.mp hstep
    split_ifs at hstep with hdone
    obtain rfl := Option.some.inj hstep
    rw [effect, hi, Option.elim_some]
    by_cases hkey : w.key = key
    · rw [if_pos hkey]
      exact hd.rename hi hkey hfile hdone
    · rw [if_neg hkey]
      exact hd.rename_other howned hkey
  | remove k =>
    obtain rfl := Option.some.inj hstep
    exact hd.remove howned k
  | crash =>
    obtain rfl := Option.some.inj hstep
    exact hd.frame howned rfl rfl (fun _ _ _ => rfl) (fun v hv _ => absurd hv List.not_mem_nil)
      (Nat.zero_le _)

theorem Run.intact (hrun : Run layout key d saved) :
    (∃ owner, Owned layout owner d) ∧ Intact layout key saved d := by
  induction hrun with
  | start => exact ⟨⟨fun _ => key, owned_empty⟩, intact_empty⟩
  | step _ hfree hstep ih =>
    obtain ⟨⟨owner, howned⟩, hintact⟩ := ih
    exact ⟨howned.step hstep, hintact.step howned hfree hstep⟩

end Steps

end Replace
end RTDB
