import RTDB.Raft.Application
import RTDB.Lib.Runs

/-!
# The log in memory

`MemStorage` keeps the entries of the log in a vector and finds them by their
distance from the index of the first one.  A snapshot replaces the entries it is
applied over, and leaves those it is created over where they are.

The abstract log has positions instead of stored indices.  The storage is that log,
except that it throws away a batch that begins in the snapshot, and that it
cannot read nothing from an empty vector.
-/

namespace RTDB
namespace Raft

open Runs

/-- How a call ends: with a value, an error and its text, or a panic. -/
inductive Outcome (α : Type) where
  | ok (value : α)
  | error (text : String)
  | crash
  deriving DecidableEq, Repr

/-- The call does what is asked for, or refuses where nothing is. -/
def Outcome.Matches {α β : Type} (o : Outcome α) (f : α → β) (asked : Option β) : Prop :=
  match o with
  | .ok value => asked = some (f value)
  | .error _ => asked = none
  | .crash => False

instance {α β : Type} [DecidableEq β] (o : Outcome α) (f : α → β) (asked : Option β) :
    Decidable (o.Matches f asked) :=
  match o with
  | .ok value => inferInstanceAs (Decidable (asked = some (f value)))
  | .error _ => inferInstanceAs (Decidable (asked = none))
  | .crash => isFalse id

/-! ## The storage -/

structure MemStorageCore where
  hardState : HardState
  confState : ConfState
  entries : List LogEntry
  snapshot : Snapshot
  deriving DecidableEq, Repr

namespace MemStorageCore

def new : MemStorageCore :=
  { hardState := { term := 0, votedFor := 0, commitIndex := 0 }
    confState := ConfState.new []
    entries := []
    snapshot :=
      { metadata := { index := 0, term := 0, confState := ConfState.new [] }, data := [] } }

def firstIndex (core : MemStorageCore) : Nat :=
  match core.entries.head? with
  | some e => e.index
  | none => core.snapshot.metadata.index + 1

def lastIndex (core : MemStorageCore) : Nat :=
  match core.entries.getLast? with
  | some e => e.index
  | none => core.snapshot.metadata.index

def append (core : MemStorageCore) (entries : List LogEntry) : Outcome MemStorageCore :=
  match entries.head? with
  | none => .ok core
  | some head =>
    let first := head.index
    -- "Already compacted"
    if first ≤ core.snapshot.metadata.index then .ok core
    else
      let offset := (core.entries.head?.map LogEntry.index).getD 1
      if first < offset then .crash
      else .ok { core with entries := core.entries.take (first - offset) ++ entries }

def term (core : MemStorageCore) (idx : Nat) : Outcome Nat :=
  if idx = 0 then .ok 0
  else if idx = core.snapshot.metadata.index then .ok core.snapshot.metadata.term
  else
    let first := core.firstIndex
    let last := core.lastIndex
    if idx < first ∨ idx > last then .error s!"index {idx} out of range [{first}, {last}]"
    else
      match core.entries.head? with
      | none => .crash
      | some head =>
        match core.entries[idx - head.index]? with
        | none => .crash
        | some entry => .ok entry.term

/-- `entries` of the source.  No limit stands for `usize::MAX`. -/
def entriesIn (core : MemStorageCore) (low high : Nat) (maxSize : Option Nat) :
    Outcome (List LogEntry) :=
  let first := core.firstIndex
  let next := core.lastIndex + 1
  if low > high then .error s!"low {low} > high {high}"
  else if low < first then .error s!"low {low} is less than first index {first}"
  else if high > next then .error s!"high {high} is greater than last index + 1 {next}"
  else
    match core.entries.head? with
    | none => .crash
    | some head =>
      let lo := low - head.index
      let hi := high - head.index
      if hi > core.entries.length then .crash
      else .ok (takeEntries maxSize 0 true ((core.entries.drop lo).take (hi - lo)))

def createSnapshot (core : MemStorageCore) (index : Nat) (confState : ConfState)
    (data : List UInt8) : Outcome MemStorageCore :=
  let existing := core.snapshot.metadata.index
  if index ≤ existing then
    .error s!"snapshot index {index} is not greater than existing {existing}"
  else
    match core.term index with
    | .error text => .error text
    | .crash => .crash
    | .ok term => .ok { core with snapshot := { metadata := { index, term, confState }, data } }

def applySnapshot (core : MemStorageCore) (snapshot : Snapshot) : Outcome MemStorageCore :=
  let index := snapshot.metadata.index
  let existing := core.snapshot.metadata.index
  if index < existing then .error s!"snapshot index {index} is older than existing {existing}"
  else .ok
    { snapshot
      hardState := { core.hardState with term := snapshot.metadata.term, commitIndex := index }
      confState := snapshot.metadata.confState
      entries := [] }

end MemStorageCore

/-! ## The abstract log -/

/-- A snapshot, and the entries from `first` on, one to each index. -/
structure SnapshotLog where
  snapshot : Snapshot
  first : Nat
  entries : List LogEntry
  deriving DecidableEq

namespace SnapshotLog

def next (log : SnapshotLog) : Nat := log.first + log.entries.length

def entry (log : SnapshotLog) (index : Nat) : Option LogEntry :=
  if index < log.first then none else log.entries[index - log.first]?

/-- The log below the batch, and the batch: from the first index of the batch on that
the snapshot does not hold. -/
def append (log : SnapshotLog) (batch : List LogEntry) : SnapshotLog :=
  match batch.head? with
  | none => log
  | some head =>
    let start := max head.index (log.snapshot.metadata.index + 1)
    { log with
      entries := log.entries.take (start - log.first) ++ batch.drop (start - head.index) }

def term (log : SnapshotLog) (index : Nat) : Option Nat :=
  if index = 0 then some 0
  else if index = log.snapshot.metadata.index then some log.snapshot.metadata.term
  else (log.entry index).map LogEntry.term

def slice (log : SnapshotLog) (low high : Nat) : Option (List LogEntry) :=
  if log.first ≤ low ∧ low ≤ high ∧ high ≤ log.next then
    some ((log.entries.drop (low - log.first)).take (high - low))
  else none

/-- A snapshot of the log up to an entry it holds. -/
def createSnapshot (log : SnapshotLog) (index : Nat) (confState : ConfState) (data : List UInt8) :
    Option SnapshotLog :=
  if index ≤ log.snapshot.metadata.index then none
  else (log.entry index).map fun entry =>
    { log with snapshot := { metadata := { index, term := entry.term, confState }, data } }

/-- A snapshot that is not older takes the place of the log. -/
def applySnapshot (log : SnapshotLog) (snapshot : Snapshot) : Option SnapshotLog :=
  if snapshot.metadata.index < log.snapshot.metadata.index then none
  else some { snapshot, first := snapshot.metadata.index + 1, entries := [] }

end SnapshotLog

def Consecutive (first : Nat) (l : List LogEntry) : Prop :=
  ∀ k e, l[k]? = some e → e.index = first + k

instance (first : Nat) (l : List LogEntry) : Decidable (Consecutive first l) :=
  decidable_of_iff (∀ k : Fin l.length, l[k].index = first + k) (by
    constructor
    · intro hall k e hk
      obtain ⟨hlt, rfl⟩ := List.getElem?_eq_some_iff.mp hk
      exact hall ⟨k, hlt⟩
    · intro hall k
      exact hall k l[k] (List.getElem?_eq_getElem k.isLt))

theorem Consecutive.drop {first : Nat} {l : List LogEntry} (hl : Consecutive first l) (n : Nat) :
    Consecutive (first + n) (l.drop n) := by
  intro k e hk
  rw [List.getElem?_drop] at hk
  have hindex := hl (n + k) e hk
  omega

/-- A batch over consecutive entries, right behind those that stay. -/
theorem Consecutive.take_append {first n : Nat} {l batch : List LogEntry} (hl : Consecutive first l)
    (hbatch : Consecutive (first + n) batch) (hn : n ≤ l.length) :
    Consecutive first (l.take n ++ batch) := by
  intro k e hk
  have hlen : (l.take n).length = n := List.length_take_of_le hn
  rcases Nat.lt_or_ge k n with hlt | hge
  · rw [List.getElem?_append_left (by omega), List.getElem?_take_of_lt hlt] at hk
    exact hl k e hk
  · rw [List.getElem?_append_right (by omega), hlen] at hk
    have hindex := hbatch _ e hk
    omega

namespace MemStorageCore

/-- The log a storage stands for. -/
def log (core : MemStorageCore) : SnapshotLog :=
  { snapshot := core.snapshot, first := core.firstIndex, entries := core.entries }

/-! ## Reachable storages -/

/-- The entries are consecutive, begin no later than behind the snapshot, and reach up
to it with its term. -/
structure Sound (core : MemStorageCore) : Prop where
  consecutive : Consecutive core.firstIndex core.entries
  first_le : core.firstIndex ≤ core.snapshot.metadata.index + 1
  covers : core.snapshot.metadata.index < core.firstIndex + core.entries.length
  term : ∀ e ∈ core.log.entry core.snapshot.metadata.index, e.term = core.snapshot.metadata.term

variable {core core' : MemStorageCore}

theorem log_entry (core : MemStorageCore) (index : Nat) : core.log.entry index =
    if index < core.firstIndex then none else core.entries[index - core.firstIndex]? := rfl

/-- Over entries a snapshot moves no index. -/
theorem log_snapshot (hne : core.entries ≠ []) (snapshot : Snapshot) :
    log { core with snapshot } = { core.log with snapshot } := by
  obtain ⟨e, rest, hcons⟩ := List.exists_cons_of_ne_nil hne
  simp only [log, firstIndex, hcons, List.head?_cons]

theorem firstIndex_nil (hnil : core.entries = []) :
    core.firstIndex = core.snapshot.metadata.index + 1 := by
  rw [firstIndex, hnil]
  rfl

theorem firstIndex_head {head : LogEntry} (hhead : core.entries.head? = some head) :
    core.firstIndex = head.index := by
  rw [firstIndex, hhead]

theorem lastIndex_nil (hnil : core.entries = []) :
    core.lastIndex = core.snapshot.metadata.index := by
  rw [lastIndex, hnil]
  rfl

theorem lastIndex_of_consecutive (hcons : Consecutive core.firstIndex core.entries) :
    core.lastIndex + 1 = core.firstIndex + core.entries.length := by
  cases hlast : core.entries.getLast? with
  | none =>
    have hnil := List.getLast?_eq_none_iff.mp hlast
    rw [lastIndex_nil hnil, firstIndex_nil hnil, hnil]
    rfl
  | some e =>
    rw [List.getLast?_eq_getElem?] at hlast
    have hindex := hcons _ e hlast
    have hlt := (List.getElem?_eq_some_iff.mp hlast).1
    rw [lastIndex, List.getLast?_eq_getElem?, hlast]
    show e.index + 1 = _
    omega

theorem Sound.lastIndex_eq (hs : Sound core) :
    core.lastIndex + 1 = core.firstIndex + core.entries.length :=
  lastIndex_of_consecutive hs.consecutive

theorem sound_new : Sound new := by
  refine ⟨fun k e hk => absurd hk (by simp [new]), Nat.le_refl _, Nat.zero_lt_one, fun e he => ?_⟩
  exact absurd he (by simp [log, SnapshotLog.entry, new, firstIndex])

/-! ## Appends -/

/-- A batch that can follow the log: consecutive, and no gap before it. -/
def Follows (core : MemStorageCore) (batch : List LogEntry) : Prop :=
  ∀ head ∈ batch.head?, Consecutive head.index batch ∧ head.index ≤ core.lastIndex + 1

variable {batch : List LogEntry} {head : LogEntry}

theorem Sound.append_eq (hs : Sound core) (hhead : batch.head? = some head)
    (hbehind : core.snapshot.metadata.index < head.index) :
    core.append batch = .ok
      { core with entries := core.entries.take (head.index - core.firstIndex) ++ batch } := by
  have hfirst := hs.first_le
  rw [append, hhead]
  simp only
  rw [if_neg (by omega)]
  cases hold : core.entries.head? with
  | none =>
    rw [List.head?_eq_none_iff.mp hold, Option.map_none, Option.getD_none, if_neg (by omega)]
    simp
  | some e =>
    rw [Option.map_some, Option.getD_some, ← firstIndex_head hold, if_neg (by omega)]

theorem Sound.appended (hs : Sound core) (hhead : batch.head? = some head)
    (hfollows : core.Follows batch) (hbehind : core.snapshot.metadata.index < head.index) :
    Sound { core with entries := core.entries.take (head.index - core.firstIndex) ++ batch } ∧
      firstIndex { core with
        entries := core.entries.take (head.index - core.firstIndex) ++ batch } =
          core.firstIndex := by
  have hfirst := hs.first_le
  have hlast := hs.lastIndex_eq
  obtain ⟨hbatch, hgap⟩ := hfollows head hhead
  have hpos : 0 < batch.length := by
    cases batch with
    | nil => exact absurd hhead (by simp)
    | cons e rest => exact Nat.succ_pos _
  have hlen : (core.entries.take (head.index - core.firstIndex)).length =
      head.index - core.firstIndex := by
    rw [List.length_take]
    omega
  have hsame : firstIndex { core with
      entries := core.entries.take (head.index - core.firstIndex) ++ batch } =
        core.firstIndex := by
    rcases Nat.eq_or_lt_of_le (show core.firstIndex ≤ head.index by omega) with heq | hlt
    · refine Eq.trans ?_ heq.symm
      apply firstIndex_head
      rw [heq, Nat.sub_self, List.take_zero, List.nil_append]
      exact hhead
    · cases hold : core.entries.head? with
      | none =>
        rw [List.head?_eq_none_iff.mp hold, List.length_nil] at hlast
        omega
      | some e =>
        rw [firstIndex_head hold]
        refine firstIndex_head ?_
        rw [List.head?_append, List.head?_take, if_neg (by rw [firstIndex_head hold] at hlt; omega),
          hold]
        rfl
  refine ⟨⟨?_, ?_, ?_, ?_⟩, hsame⟩
  · have hstart : core.firstIndex + (head.index - core.firstIndex) = head.index := by omega
    rw [hsame]
    exact hs.consecutive.take_append (hstart.symm ▸ hbatch) (by omega)
  · rw [hsame]
    exact hs.first_le
  · rw [hsame]
    simp only [List.length_append, hlen]
    omega
  · intro e he
    refine hs.term e ?_
    rw [Option.mem_def, log_entry] at he ⊢
    rw [hsame] at he
    split at he
    · exact absurd he (by simp)
    · rename_i hle
      rw [if_neg hle]
      have hback : ¬ core.snapshot.metadata.index < core.firstIndex := hle
      have hlt : core.snapshot.metadata.index - core.firstIndex <
          head.index - core.firstIndex := by omega
      rw [List.getElem?_append_left (by rw [hlen]; exact hlt), List.getElem?_take_of_lt hlt] at he
      exact he

/-- An append is meant for what it brings behind the snapshot: it begins there, or the
log holds it already. -/
def Reaches (core : MemStorageCore) (batch : List LogEntry) : Prop :=
  ∀ head ∈ batch.head?, core.snapshot.metadata.index < head.index ∨
    core.entries.drop (core.snapshot.metadata.index + 1 - core.firstIndex) =
      batch.drop (core.snapshot.metadata.index + 1 - head.index)

theorem Sound.log_append (hs : Sound core) (hhead : batch.head? = some head)
    (hfollows : core.Follows batch) (hbehind : core.snapshot.metadata.index < head.index) :
    log { core with entries := core.entries.take (head.index - core.firstIndex) ++ batch } =
      core.log.append batch := by
  have hsame := (hs.appended hhead hfollows hbehind).2
  have hstart : max head.index (core.snapshot.metadata.index + 1) = head.index := by omega
  rw [SnapshotLog.append, hhead]
  simp only [log, hsame, hstart, Nat.sub_self, List.drop_zero]

/-- An append does to the storage what it does to the log exactly when it reaches what
it is meant for. -/
theorem append_held {head : LogEntry} (hhead : batch.head? = some head)
    (hheld : head.index ≤ core.snapshot.metadata.index) : core.append batch = .ok core := by
  rw [append, hhead]
  exact if_pos hheld

theorem Sound.append_iff (hs : Sound core) (hfollows : core.Follows batch) :
    (core.append batch).Matches log (some (core.log.append batch)) ↔ core.Reaches batch := by
  cases hhead : batch.head? with
  | none =>
    refine iff_of_true ?_ fun head hmem => absurd hmem (by simp [hhead])
    rw [append, SnapshotLog.append, hhead]
    rfl
  | some head =>
    rcases Nat.lt_or_ge core.snapshot.metadata.index head.index with hbehind | hheld
    · refine iff_of_true ?_ fun head' hmem => ?_
      · rw [hs.append_eq hhead hbehind]
        exact congrArg some (hs.log_append hhead hfollows hbehind).symm
      rw [hhead, Option.mem_def, Option.some.injEq] at hmem
      subst hmem
      exact Or.inl hbehind
    · -- The code returns early and leaves the log as it is.
      have hkeeps := append_held hhead hheld
      have hstart : max head.index (core.snapshot.metadata.index + 1) =
          core.snapshot.metadata.index + 1 := by omega
      have hlog : core.log.append batch = { core.log with
          entries := core.entries.take (core.snapshot.metadata.index + 1 - core.firstIndex) ++
            batch.drop (core.snapshot.metadata.index + 1 - head.index) } := by
        rw [SnapshotLog.append, hhead]
        simp only [log, hstart]
      have hreaches : core.Reaches batch ↔
          core.entries.drop (core.snapshot.metadata.index + 1 - core.firstIndex) =
            batch.drop (core.snapshot.metadata.index + 1 - head.index) := by
        constructor
        · intro hreach
          rcases hreach head hhead with hlt | heq
          · omega
          · exact heq
        · intro heq head' hmem
          rw [hhead, Option.mem_def, Option.some.injEq] at hmem
          subst hmem
          exact Or.inr heq
      rw [hreaches, hkeeps]
      constructor
      · intro hsame
        have hentries := congrArg SnapshotLog.entries ((Option.some.inj hsame).symm.trans hlog)
        have hsplit : core.entries =
            core.entries.take (core.snapshot.metadata.index + 1 - core.firstIndex) ++
              batch.drop (core.snapshot.metadata.index + 1 - head.index) := hentries
        refine List.append_cancel_left ((List.take_append_drop _ core.entries).trans hsplit)
      · intro heq
        rw [hlog, ← heq, List.take_append_drop]
        rfl

theorem Sound.append (hs : Sound core) (hfollows : core.Follows batch)
    (hok : core.append batch = .ok core') : Sound core' := by
  cases hhead : batch.head? with
  | none =>
    rw [MemStorageCore.append, hhead, Outcome.ok.injEq] at hok
    rwa [← hok]
  | some head =>
    rcases Nat.lt_or_ge core.snapshot.metadata.index head.index with hbehind | hheld
    · rw [hs.append_eq hhead hbehind, Outcome.ok.injEq] at hok
      rw [← hok]
      exact (hs.appended hhead hfollows hbehind).1
    · rw [append_held hhead hheld, Outcome.ok.injEq] at hok
      rwa [← hok]

/-! ## Reads -/

theorem Sound.entry_eq_none (hs : Sound core) (index : Nat) :
    core.log.entry index = none ↔ index < core.firstIndex ∨ core.lastIndex < index := by
  have hlast := hs.lastIndex_eq
  rw [log_entry]
  split
  · exact iff_of_true rfl (Or.inl (by assumption))
  · rw [List.getElem?_eq_none_iff]
    omega

theorem Sound.term_matches (hs : Sound core) (index : Nat) :
    (core.term index).Matches id (core.log.term index) := by
  have hlast := hs.lastIndex_eq
  rw [MemStorageCore.term, SnapshotLog.term]
  by_cases hzero : index = 0
  · rw [if_pos hzero, if_pos hzero]
    rfl
  · rw [if_neg hzero, if_neg hzero]
    by_cases hsnap : index = core.snapshot.metadata.index
    · rw [if_pos hsnap, if_pos (show index = core.log.snapshot.metadata.index from hsnap)]
      rfl
    · rw [if_neg hsnap, if_neg (show ¬ index = core.log.snapshot.metadata.index from hsnap)]
      simp only
      by_cases hout : index < core.firstIndex ∨ index > core.lastIndex
      · rw [if_pos hout, (hs.entry_eq_none _).mpr hout]
        rfl
      · rw [if_neg hout, log_entry, if_neg (by omega)]
        cases hhead : core.entries.head? with
        | none =>
          have hnil := List.head?_eq_none_iff.mp hhead
          have hfirst := firstIndex_nil hnil
          have hback := lastIndex_nil hnil
          omega
        | some head =>
          have hget : core.entries[index - core.firstIndex]? =
              some core.entries[index - core.firstIndex] :=
            List.getElem?_eq_getElem (by omega)
          simp only
          rw [← firstIndex_head hhead, hget]
          rfl

def Readable (core : MemStorageCore) (low high : Nat) : Prop :=
  core.entries ≠ [] ∨ low ≠ core.firstIndex ∨ high ≠ core.firstIndex

theorem Sound.entriesIn_iff (hs : Sound core) (low high : Nat) (maxSize : Option Nat) :
    (core.entriesIn low high maxSize).Matches id
        ((core.log.slice low high).map (takeEntries maxSize 0 true)) ↔
      core.Readable low high := by
  have hlast := hs.lastIndex_eq
  have hslice : core.log.slice low high =
      if core.firstIndex ≤ low ∧ low ≤ high ∧ high ≤ core.lastIndex + 1 then
        some ((core.entries.drop (low - core.firstIndex)).take (high - low))
      else none := by
    rw [hlast]
    rfl
  rw [entriesIn, hslice]
  simp only
  by_cases hin : core.firstIndex ≤ low ∧ low ≤ high ∧ high ≤ core.lastIndex + 1
  · rw [if_neg (by omega), if_neg (by omega), if_neg (by omega), if_pos hin, Option.map_some]
    cases hhead : core.entries.head? with
    | none =>
      -- Nothing is asked for, and the offset is read all the same.
      have hnil := List.head?_eq_none_iff.mp hhead
      rw [hnil, List.length_nil] at hlast
      refine iff_of_false (fun hcrash => hcrash) ?_
      rintro (hne | hlow | hhigh)
      · exact hne hnil
      · omega
      · omega
    | some head =>
      have hne : core.entries ≠ [] := by
        intro hnil
        rw [hnil] at hhead
        exact absurd hhead (by simp)
      refine iff_of_true ?_ (Or.inl hne)
      simp only
      rw [← firstIndex_head hhead, if_neg (by omega),
        show high - core.firstIndex - (low - core.firstIndex) = high - low by omega]
      rfl
  · rw [if_neg hin, Option.map_none]
    refine iff_of_true ?_ (Or.inr ?_)
    · split
      · rfl
      · split
        · rfl
        · rw [if_pos (by omega)]
          rfl
    · by_contra hboth
      rw [not_or, not_not, not_not] at hboth
      omega

/-- Without a limit the slice is read whole. -/
theorem Sound.entriesIn_whole (hs : Sound core) {low high : Nat} (hread : core.Readable low high) :
    (core.entriesIn low high none).Matches id (core.log.slice low high) := by
  have hmatches := (hs.entriesIn_iff low high none).mpr hread
  have hwhole : takeEntries none 0 true = id := funext fun l => takeEntries_none 0 true l
  rw [hwhole, Option.map_id] at hmatches
  exact hmatches

/-! ## Snapshots -/

/-- Behind the snapshot a term is that of an entry. -/
theorem log_term_of_new {index : Nat} (hnew : core.snapshot.metadata.index < index) :
    core.log.term index = (core.log.entry index).map LogEntry.term := by
  have hother : ¬ index = core.log.snapshot.metadata.index := by
    show ¬ index = core.snapshot.metadata.index
    omega
  rw [SnapshotLog.term, if_neg (by omega), if_neg hother]

theorem Sound.createSnapshot_matches (hs : Sound core) (index : Nat) (confState : ConfState)
    (data : List UInt8) : (core.createSnapshot index confState data).Matches log
      (core.log.createSnapshot index confState data) := by
  have hterm := hs.term_matches index
  rw [createSnapshot, SnapshotLog.createSnapshot]
  by_cases hold : index ≤ core.snapshot.metadata.index
  · rw [if_pos hold, if_pos (show index ≤ core.log.snapshot.metadata.index from hold)]
    rfl
  · rw [if_neg hold, if_neg (show ¬ index ≤ core.log.snapshot.metadata.index from hold)]
    rw [log_term_of_new (Nat.not_le.mp hold)] at hterm
    cases hgot : core.term index with
    | crash =>
      rw [hgot] at hterm
      exact hterm
    | error text =>
      rw [hgot] at hterm
      have hnone : core.log.entry index = none := by simpa [Outcome.Matches] using hterm
      rw [hnone]
      rfl
    | ok value =>
      rw [hgot] at hterm
      obtain ⟨e, he, hvalue⟩ := Option.map_eq_some_iff.mp hterm
      have hvalue' : e.term = value := hvalue
      have hheld : core.entries ≠ [] := by
        intro hnil
        rw [log_entry, hnil] at he
        simp at he
      rw [he, Option.map_some, hvalue']
      exact congrArg some (log_snapshot hheld _).symm

theorem Sound.createSnapshot (hs : Sound core) {index : Nat} {confState : ConfState}
    {data : List UInt8} (hok : core.createSnapshot index confState data = .ok core') :
    Sound core' := by
  have hmatches := hs.createSnapshot_matches index confState data
  rw [hok] at hmatches
  rw [MemStorageCore.createSnapshot] at hok
  split at hok
  · exact absurd hok (by simp)
  · rename_i hnew
    split at hok
    · exact absurd hok (by simp)
    · exact absurd hok (by simp)
    · rename_i value hterm
      rw [Outcome.ok.injEq] at hok
      -- The term found there is that of the entry the snapshot ends with.
      have hmatch := hs.term_matches index
      rw [hterm] at hmatch
      rw [log_term_of_new (Nat.not_le.mp hnew)] at hmatch
      obtain ⟨e, he, hvalue⟩ := Option.map_eq_some_iff.mp hmatch
      have hin := hs.entry_eq_none index
      rw [he] at hin
      have hrange := hin.not.mp (by simp)
      have hlast := hs.lastIndex_eq
      have hheld : core.entries ≠ [] := by
        intro hnil
        rw [log_entry, hnil] at he
        simp at he
      have hlog := log_snapshot hheld
        { metadata := { index, term := value, confState }, data }
      have hfirst : core'.firstIndex = core.firstIndex := by
        rw [← hok]
        exact congrArg SnapshotLog.first hlog
      subst hok
      refine ⟨?_, ?_, ?_, fun e' he' => ?_⟩
      · rw [hfirst]
        exact hs.consecutive
      · rw [hfirst]
        show core.firstIndex ≤ index + 1
        omega
      · rw [hfirst]
        show index < core.firstIndex + core.entries.length
        omega
      · rw [hlog] at he'
        have hsame : core.log.entry index = some e' := he'
        rw [he] at hsame
        obtain rfl := Option.some.inj hsame
        exact hvalue

theorem applySnapshot_matches (core : MemStorageCore) (snapshot : Snapshot) :
    (core.applySnapshot snapshot).Matches log (core.log.applySnapshot snapshot) := by
  rw [applySnapshot, SnapshotLog.applySnapshot]
  by_cases hold : snapshot.metadata.index < core.snapshot.metadata.index
  · rw [if_pos hold, if_pos (show _ < core.log.snapshot.metadata.index from hold)]
    rfl
  · rw [if_neg hold, if_neg (show ¬ _ < core.log.snapshot.metadata.index from hold)]
    rfl

theorem Sound.applySnapshot {snapshot : Snapshot}
    (hok : core.applySnapshot snapshot = .ok core') : Sound core' := by
  rw [MemStorageCore.applySnapshot] at hok
  split at hok
  · exact absurd hok (by simp)
  · rw [Outcome.ok.injEq] at hok
    subst hok
    refine ⟨fun k e hk => absurd hk (by simp), Nat.le_refl _, Nat.lt_succ_self _, fun e he => ?_⟩
    exact absurd he (by simp [log_entry, firstIndex])

end MemStorageCore

/-! ## Runs -/

inductive StorageCall where
  | append (batch : List LogEntry)
  | createSnapshot (index : Nat) (confState : ConfState) (data : List UInt8)
  | applySnapshot (snapshot : Snapshot)
  | term (index : Nat)
  | entries (low high : Nat) (maxSize : Option Nat)

open MemStorageCore

/-- The storage a call leaves behind: the new one if it ends well. -/
def Outcome.left (o : Outcome MemStorageCore) (core : MemStorageCore) : MemStorageCore :=
  match o with
  | .ok core' => core'
  | .error _ => core
  | .crash => core

namespace StorageCall

def apply (core : MemStorageCore) : StorageCall → MemStorageCore
  | .append batch => (core.append batch).left core
  | .createSnapshot index confState data => (core.createSnapshot index confState data).left core
  | .applySnapshot snapshot => (core.applySnapshot snapshot).left core
  | .term _ => core
  | .entries _ _ _ => core

/-- Batches are consecutive and leave no gap. -/
def Allowed (core : MemStorageCore) : StorageCall → Prop
  | .append batch => core.Follows batch
  | _ => True

/-- The call does to the storage what it does to the log, and answers what the log
answers. -/
def Answers (core : MemStorageCore) : StorageCall → Prop
  | .append batch => (core.append batch).Matches log (some (core.log.append batch))
  | .createSnapshot index confState data => (core.createSnapshot index confState data).Matches log
      (core.log.createSnapshot index confState data)
  | .applySnapshot snapshot =>
      (core.applySnapshot snapshot).Matches log (core.log.applySnapshot snapshot)
  | .term index => (core.term index).Matches id (core.log.term index)
  | .entries low high maxSize => (core.entriesIn low high maxSize).Matches id
      ((core.log.slice low high).map (takeEntries maxSize 0 true))

/-- The storage behaves as the log does, and its entries stay consecutive. -/
structure Refines (core : MemStorageCore) (call : StorageCall) : Prop where
  answers : call.Answers core
  consecutive : Consecutive (call.apply core).firstIndex (call.apply core).entries

/-- The batch reaches what it is meant for, and the read is of something. -/
def Meets (core : MemStorageCore) : StorageCall → Prop
  | .append batch => core.Reaches batch
  | .entries low high _ => core.Readable low high
  | _ => True

instance (core : MemStorageCore) : (call : StorageCall) → Decidable (call.Allowed core)
  | .append batch => inferInstanceAs (Decidable (∀ head ∈ batch.head?, _ ∧ _))
  | .createSnapshot _ _ _ | .applySnapshot _ | .term _ | .entries _ _ _ => isTrue trivial

instance (core : MemStorageCore) : (call : StorageCall) → Decidable (call.Answers core)
  | .append batch =>
    inferInstanceAs (Decidable ((core.append batch).Matches log (some (core.log.append batch))))
  | .createSnapshot index confState data => inferInstanceAs (Decidable
      ((core.createSnapshot index confState data).Matches log
        (core.log.createSnapshot index confState data)))
  | .applySnapshot snapshot => inferInstanceAs (Decidable
      ((core.applySnapshot snapshot).Matches log (core.log.applySnapshot snapshot)))
  | .term index => inferInstanceAs (Decidable ((core.term index).Matches id (core.log.term index)))
  | .entries low high maxSize => inferInstanceAs (Decidable
      ((core.entriesIn low high maxSize).Matches id
        ((core.log.slice low high).map (takeEntries maxSize 0 true))))

variable {core : MemStorageCore} {call : StorageCall}

theorem sound_left {o : Outcome MemStorageCore} (hs : Sound core)
    (hok : ∀ core', o = .ok core' → Sound core') : Sound (o.left core) := by
  cases o with
  | ok core' => exact hok core' rfl
  | error text => exact hs
  | crash => exact hs

theorem sound_apply (hs : Sound core) (hallowed : call.Allowed core) : Sound (call.apply core) := by
  cases call with
  | append batch => exact sound_left hs fun _ hok => hs.append hallowed hok
  | createSnapshot index confState data => exact sound_left hs fun _ hok => hs.createSnapshot hok
  | applySnapshot snapshot => exact sound_left hs fun _ hok => Sound.applySnapshot hok
  | term index => exact hs
  | entries low high maxSize => exact hs

theorem answers_iff (hs : Sound core) (hallowed : call.Allowed core) :
    call.Answers core ↔ call.Meets core := by
  cases call with
  | append batch => exact hs.append_iff hallowed
  | createSnapshot index confState data =>
    exact iff_of_true (hs.createSnapshot_matches index confState data) trivial
  | applySnapshot snapshot => exact iff_of_true (core.applySnapshot_matches snapshot) trivial
  | term index => exact iff_of_true (hs.term_matches index) trivial
  | entries low high maxSize => exact hs.entriesIn_iff low high maxSize

theorem refines_iff (hs : Sound core) (hallowed : call.Allowed core) :
    call.Refines core ↔ call.Meets core := by
  rw [← answers_iff hs hallowed]
  exact ⟨fun hrefines => hrefines.answers,
    fun hanswers => ⟨hanswers, (sound_apply hs hallowed).consecutive⟩⟩

end StorageCall

/-- Two entries, a snapshot of both, and a third entry behind it. -/
def compacting (first : Nat) : List StorageCall :=
  [.append [LogEntry.new 1 1 [1], LogEntry.new 2 1 [2]],
    .createSnapshot 2 (ConfState.new [1]) [9],
    .append ([LogEntry.new 2 1 [2], LogEntry.new 3 2 [3]].drop (first - 2)),
    .entries 2 4 none]

end Raft
end RTDB
