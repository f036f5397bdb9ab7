import RTDB.Raft.MemStorage

/-!
# Compacting the log in memory

`MemStorage::compact` finds the entries to keep by their distance from the first stored one, behind
guards that compare with the index of the snapshot.  Entries before that index may be gone already,
and all entries up to the last one may be asked for.
-/

namespace RTDB
namespace Raft

open Runs

/-- The same answer, up to the text of an error. -/
def Outcome.Agrees {α : Type} : Outcome α → Outcome α → Prop
  | .ok a, .ok b => a = b
  | .error _, .error _ => True
  | .crash, .crash => True
  | _, _ => False

theorem Outcome.Agrees.refl {α : Type} (o : Outcome α) : o.Agrees o := by
  cases o with
  | ok a => exact rfl
  | error text => trivial
  | crash => trivial

/-- Two answers agree that are errors on the same condition, and the same otherwise. -/
theorem Outcome.Agrees.of_ite {α : Type} {out : Prop} [Decidable out] {o o' v v' : Outcome α}
    (ho : if out then ∃ text, o = .error text else o = v)
    (ho' : if out then ∃ text, o' = .error text else o' = v') (hsame : v = v') : o.Agrees o' := by
  split at ho
  · next hout =>
    rw [if_pos hout] at ho'
    obtain ⟨text, rfl⟩ := ho
    obtain ⟨text', rfl⟩ := ho'
    trivial
  · next hin =>
    rw [if_neg hin] at ho'
    rw [ho, ho', hsame]
    exact .refl _

namespace MemStorageCore

def withConfState (confState : ConfState) : MemStorageCore := { new with confState }

def initializeWithEntries (core : MemStorageCore) (entries : List LogEntry) : MemStorageCore :=
  { core with entries }

def setHardState (core : MemStorageCore) (hardState : HardState) : MemStorageCore :=
  { core with hardState }

def compact (core : MemStorageCore) (compactIndex : Nat) : Outcome MemStorageCore :=
  if compactIndex < core.snapshot.metadata.index then .ok core
  else if compactIndex > core.lastIndex then
    .error s!"compact index {compactIndex} exceeds last index {core.lastIndex}"
  else
    match core.entries.head? with
    | none => .crash
    | some head =>
      let offset := head.index
      if compactIndex + 1 < offset then .crash
      else
        let pos := compactIndex + 1 - offset
        if pos > core.entries.length then .crash
        else .ok { core with entries := core.entries.drop pos }

/-! ## Reachable storages -/

/-- The calls that change a storage, from outside or by the node it belongs to. -/
inductive Op where
  | call (call : StorageCall)
  | initializeWithEntries (entries : List LogEntry)
  | setHardState (hardState : HardState)
  | compact (compactIndex : Nat)

def Op.apply (core : MemStorageCore) : Op → MemStorageCore
  | .call c => c.apply core
  | .initializeWithEntries entries => core.initializeWithEntries entries
  | .setHardState hardState => core.setHardState hardState
  | .compact compactIndex => (core.compact compactIndex).left core

/-- Entries come with consecutive indices, and a batch leaves no gap behind the last one. -/
def Op.Allowed (core : MemStorageCore) : Op → Prop
  | .call c => c.Allowed core
  | .initializeWithEntries entries => ∀ head ∈ entries.head?, Consecutive head.index entries
  | .setHardState _ => True
  | .compact _ => True

instance (core : MemStorageCore) : (op : Op) → Decidable (op.Allowed core)
  | .call c => inferInstanceAs (Decidable (c.Allowed core))
  | .initializeWithEntries entries =>
    inferInstanceAs (Decidable (∀ head ∈ entries.head?, Consecutive head.index entries))
  | .setHardState _ | .compact _ => isTrue trivial

/-- The stored entries have consecutive indices. -/
def Unbroken (core : MemStorageCore) : Prop :=
  ∀ head ∈ core.entries.head?, Consecutive head.index core.entries

variable {core core' : MemStorageCore}

theorem Unbroken.consecutive (hcore : core.Unbroken) : Consecutive core.firstIndex core.entries := by
  cases hhead : core.entries.head? with
  | none =>
    rw [List.head?_eq_none_iff.mp hhead]
    exact fun k e hk => absurd hk (by simp)
  | some head =>
    rw [firstIndex_head hhead]
    exact hcore head hhead

/-- The entries are consecutive from some index on, so from the first one's on. -/
theorem unbroken_of_consecutive {start : Nat} (hall : Consecutive start core.entries) :
    core.Unbroken := by
  intro head hhead
  have hindex := hall 0 head (by rw [← List.head?_eq_getElem?]; exact hhead)
  rw [hindex]
  exact hall

theorem unbroken_append {batch : List LogEntry} (hcore : core.Unbroken) (hfollows : core.Follows batch)
    (hok : core.append batch = .ok core') : core'.Unbroken := by
  rw [append] at hok
  cases hbatch : batch.head? with
  | none =>
    rw [hbatch] at hok
    rw [← Outcome.ok.inj hok]
    exact hcore
  | some first =>
    rw [hbatch] at hok
    dsimp only at hok
    split at hok
    · rw [← Outcome.ok.inj hok]
      exact hcore
    · split at hok
      · exact absurd hok (by simp)
      · next hbehind hoffset =>
        obtain ⟨hcons, hgap⟩ := hfollows first hbatch
        rw [← Outcome.ok.inj hok]
        cases hold : core.entries.head? with
        | none =>
          rw [List.head?_eq_none_iff.mp hold]
          intro head hhead
          rw [List.take_nil, List.nil_append, hbatch] at hhead
          obtain rfl := Option.some.inj hhead
          simpa using hcons
        | some old =>
          rw [hold, Option.map_some, Option.getD_some] at hoffset
          rw [Option.map_some, Option.getD_some]
          have hlast := lastIndex_of_consecutive hcore.consecutive
          rw [firstIndex_head hold] at hlast
          have hstart : old.index + (first.index - old.index) = first.index := by omega
          have hall : Consecutive old.index
              (core.entries.take (first.index - old.index) ++ batch) :=
            (hcore old hold).take_append (hstart.symm ▸ hcons) (by omega)
          exact unbroken_of_consecutive hall

theorem unbroken_compact {compactIndex : Nat} (hcore : core.Unbroken)
    (hok : core.compact compactIndex = .ok core') : core'.Unbroken := by
  rw [compact] at hok
  split at hok
  · rw [← Outcome.ok.inj hok]
    exact hcore
  · split at hok
    · exact absurd hok (by simp)
    · cases hhead : core.entries.head? with
      | none =>
        rw [hhead] at hok
        exact absurd hok (by simp)
      | some head =>
        rw [hhead] at hok
        dsimp only at hok
        split at hok
        · exact absurd hok (by simp)
        · split at hok
          · exact absurd hok (by simp)
          · rw [← Outcome.ok.inj hok]
            exact unbroken_of_consecutive ((hcore head hhead).drop (compactIndex + 1 - head.index))

theorem unbroken_left {o : Outcome MemStorageCore} (hcore : core.Unbroken)
    (hok : ∀ core', o = .ok core' → core'.Unbroken) : (o.left core).Unbroken := by
  cases o with
  | ok core' => exact hok core' rfl
  | error text => exact hcore
  | crash => exact hcore

theorem unbroken_call {call : StorageCall} (hcore : core.Unbroken) (hallowed : call.Allowed core) :
    (call.apply core).Unbroken := by
  cases call with
  | append batch => exact unbroken_left hcore fun _ hok => unbroken_append hcore hallowed hok
  | createSnapshot index confState data =>
    refine unbroken_left hcore fun core' hok => ?_
    rw [createSnapshot] at hok
    split at hok
    · exact absurd hok (by simp)
    · split at hok
      · exact absurd hok (by simp)
      · exact absurd hok (by simp)
      · rw [← Outcome.ok.inj hok]
        exact hcore
  | applySnapshot snapshot =>
    refine unbroken_left hcore fun core' hok => ?_
    rw [applySnapshot] at hok
    split at hok
    · exact absurd hok (by simp)
    · rw [← Outcome.ok.inj hok]
      exact fun head hhead => absurd hhead (by simp)
  | term index => exact hcore
  | entries low high maxSize => exact hcore

theorem unbroken_op {op : Op} (hcore : core.Unbroken) (hallowed : op.Allowed core) :
    (op.apply core).Unbroken := by
  cases op with
  | call c => exact unbroken_call hcore hallowed
  | initializeWithEntries entries => exact hallowed
  | setHardState hardState => exact hcore
  | compact compactIndex => exact unbroken_left hcore fun _ hok => unbroken_compact hcore hok

/-! ## What a compaction leaves -/

structure KeptAbove (compactIndex : Nat) (core core' : MemStorageCore) : Prop where
  lastIndex : core'.lastIndex = core.lastIndex
  term : ∀ index, compactIndex < index → (core'.term index).Agrees (core.term index)
  entries : ∀ low high maxSize, compactIndex < low →
    (core'.entriesIn low high maxSize).Agrees (core.entriesIn low high maxSize)

/-- A compaction does not panic, and if it succeeds nothing changes above its index. -/
structure CompactsSafely (core : MemStorageCore) (compactIndex : Nat) : Prop where
  no_crash : core.compact compactIndex ≠ .crash
  kept : ∀ core', core.compact compactIndex = .ok core' → KeptAbove compactIndex core core'

/-- The index is below the snapshot or above the log, or it is that of a stored entry but the last, or
the one right before the first entry. -/
def Compactable (core : MemStorageCore) (compactIndex : Nat) : Prop :=
  compactIndex < core.snapshot.metadata.index ∨ core.lastIndex < compactIndex ∨
    (core.firstIndex ≤ compactIndex + 1 ∧ compactIndex < core.lastIndex)

theorem KeptAbove.refl (compactIndex : Nat) (core : MemStorageCore) :
    KeptAbove compactIndex core core :=
  { lastIndex := rfl
    term := fun _ _ => .refl _
    entries := fun _ _ _ _ => .refl _ }

/-- The entries from an index on that is at most the last one. -/
theorem compact_eq (hcore : core.Unbroken) {compactIndex : Nat}
    (hsnap : core.snapshot.metadata.index ≤ compactIndex) (hlast : compactIndex ≤ core.lastIndex)
    (hne : core.entries ≠ []) (hfirst : core.firstIndex ≤ compactIndex + 1) :
    core.compact compactIndex =
      .ok { core with entries := core.entries.drop (compactIndex + 1 - core.firstIndex) } := by
  have hlen := lastIndex_of_consecutive hcore.consecutive
  rw [compact, if_neg (by omega), if_neg (by omega)]
  cases hhead : core.entries.head? with
  | none => exact absurd (List.head?_eq_none_iff.mp hhead) hne
  | some head =>
    rw [firstIndex_head hhead] at hfirst hlen ⊢
    dsimp only
    rw [if_neg (by omega), if_neg (by omega)]

/-- Where an entry is left, the log goes on from right behind the index to where it ended. -/
theorem compacted (hcore : core.Unbroken) {compactIndex : Nat}
    (hlast : compactIndex < core.lastIndex) (hfirst : core.firstIndex ≤ compactIndex + 1) :
    let core' :=
      { core with entries := core.entries.drop (compactIndex + 1 - core.firstIndex) }
    core'.entries ≠ [] ∧ core'.firstIndex = compactIndex + 1 ∧ core'.lastIndex = core.lastIndex := by
  intro core'
  have hlen := lastIndex_of_consecutive hcore.consecutive
  have hcons := hcore.consecutive.drop (compactIndex + 1 - core.firstIndex)
  have hne : core'.entries ≠ [] := by
    intro hnil
    have hlength := congrArg List.length hnil
    rw [List.length_drop, List.length_nil] at hlength
    omega
  have hfirst' : core'.firstIndex = compactIndex + 1 := by
    obtain ⟨head, rest, hentries⟩ := List.exists_cons_of_ne_nil hne
    have hindex := hcons 0 head (by rw [show core.entries.drop _ = head :: rest from hentries]; rfl)
    have hhead : core'.entries.head? = some head := by
      rw [hentries]
      rfl
    rw [firstIndex_head hhead]
    omega
  have hunbroken : Consecutive core'.firstIndex core'.entries := by
    rw [hfirst']
    rwa [show core.firstIndex + (compactIndex + 1 - core.firstIndex) = compactIndex + 1 by omega]
      at hcons
  have hlen' := lastIndex_of_consecutive hunbroken
  have hlength : core'.entries.length =
      core.entries.length - (compactIndex + 1 - core.firstIndex) := List.length_drop
  refine ⟨hne, hfirst', by omega⟩

/-- A term behind the snapshot is that of the entry, where there is one. -/
theorem term_agrees (hne : core.entries ≠ []) (index : Nat) (hpos : index ≠ 0)
    (hsnap : index ≠ core.snapshot.metadata.index) (hfirst : core.firstIndex ≤ index) :
    if core.lastIndex < index then ∃ text, core.term index = .error text
    else core.term index =
      (core.entries[index - core.firstIndex]?).elim .crash fun entry => .ok entry.term := by
  rw [term, if_neg hpos, if_neg hsnap]
  dsimp only
  split
  · next hout =>
    rw [if_pos (Or.inr hout)]
    exact ⟨_, rfl⟩
  · next hin =>
    rw [if_neg (by omega)]
    cases hhead : core.entries.head? with
    | none => exact absurd (List.head?_eq_none_iff.mp hhead) hne
    | some head =>
      rw [firstIndex_head hhead]
      dsimp only
      cases core.entries[index - head.index]? <;> rfl

/-- A read from the first index on is of the entries, as far as they go. -/
theorem entriesIn_agrees (hne : core.entries ≠ []) {low : Nat} (high : Nat) (maxSize : Option Nat)
    (hfirst : core.firstIndex ≤ low)
    (hlen : core.lastIndex + 1 = core.firstIndex + core.entries.length) :
    if high < low ∨ core.lastIndex + 1 < high then
      ∃ text, core.entriesIn low high maxSize = .error text
    else core.entriesIn low high maxSize =
      .ok (takeEntries maxSize 0 true
        ((core.entries.drop (low - core.firstIndex)).take (high - low))) := by
  rw [entriesIn]
  dsimp only
  split
  · next hout =>
    by_cases horder : low > high
    · rw [if_pos horder]
      exact ⟨_, rfl⟩
    · rw [if_neg horder, if_neg (by omega), if_pos (by omega)]
      exact ⟨_, rfl⟩
  · next hin =>
    rw [if_neg (by omega), if_neg (by omega), if_neg (by omega)]
    cases hhead : core.entries.head? with
    | none => exact absurd (List.head?_eq_none_iff.mp hhead) hne
    | some head =>
      rw [firstIndex_head hhead] at hlen hfirst ⊢
      dsimp only
      rw [if_neg (by omega), show high - head.index - (low - head.index) = high - low by omega]

theorem keptAbove_compacted (hcore : core.Unbroken) {compactIndex : Nat}
    (hsnap : core.snapshot.metadata.index ≤ compactIndex) (hlast : compactIndex < core.lastIndex)
    (hfirst : core.firstIndex ≤ compactIndex + 1) :
    KeptAbove compactIndex core
      { core with entries := core.entries.drop (compactIndex + 1 - core.firstIndex) } := by
  obtain ⟨hne', hfirst', hlast'⟩ := compacted hcore hlast hfirst
  generalize hcore' : ({ core with
    entries := core.entries.drop (compactIndex + 1 - core.firstIndex) } : MemStorageCore) = core'
    at hne' hfirst' hlast'
  have hentries : core'.entries = core.entries.drop (compactIndex + 1 - core.firstIndex) := by
    rw [← hcore']
  have hsnapshot : core'.snapshot = core.snapshot := by rw [← hcore']
  have hne : core.entries ≠ [] := fun hnil => hne' (by rw [hentries, hnil, List.drop_nil])
  have hlen := lastIndex_of_consecutive hcore.consecutive
  have hlen' : core'.lastIndex + 1 = core'.firstIndex + core'.entries.length := by
    rw [hentries, List.length_drop]
    omega
  refine ⟨hlast', fun index habove => ?_, fun low high maxSize habove => ?_⟩
  · have hold := term_agrees hne index (by omega) (by omega) (by omega)
    have hnew := term_agrees hne' index (by omega) (by rw [hsnapshot]; omega) (by omega)
    rw [hlast'] at hnew
    refine .of_ite hnew hold ?_
    rw [hentries, List.getElem?_drop, hfirst',
      show compactIndex + 1 - core.firstIndex + (index - (compactIndex + 1)) =
        index - core.firstIndex by omega]
  · have hold := entriesIn_agrees hne high maxSize (show core.firstIndex ≤ low by omega) hlen
    have hnew := entriesIn_agrees hne' high maxSize
      (show core'.firstIndex ≤ low by omega) hlen'
    rw [hlast'] at hnew
    refine .of_ite hnew hold ?_
    rw [hentries, List.drop_drop, hfirst',
      show compactIndex + 1 - core.firstIndex + (low - (compactIndex + 1)) =
        low - core.firstIndex by omega]

/-- Without any entry the log falls back to the snapshot, and cannot even read nothing behind it. -/
theorem not_safe_at_end (hcore : core.Unbroken) {compactIndex : Nat} (hne : core.entries ≠ [])
    (hfirst : core.firstIndex ≤ compactIndex + 1) (hend : compactIndex = core.lastIndex)
    (hok : core.compact compactIndex =
      .ok { core with entries := core.entries.drop (compactIndex + 1 - core.firstIndex) }) :
    ¬core.CompactsSafely compactIndex := by
  intro hsafe
  have hlen := lastIndex_of_consecutive hcore.consecutive
  have hkept := hsafe.kept _ hok
  have hdrop : core.entries.drop (compactIndex + 1 - core.firstIndex) = [] :=
    List.drop_eq_nil_of_le (by omega)
  rw [hdrop] at hkept
  have hsame : core.snapshot.metadata.index = core.lastIndex := hkept.lastIndex
  have hread := hkept.entries (compactIndex + 1) (compactIndex + 1) none (Nat.lt_succ_self _)
  have hold := entriesIn_agrees hne (compactIndex + 1) none hfirst hlen
  have hnew : ({ core with entries := [] } : MemStorageCore).entriesIn (compactIndex + 1)
      (compactIndex + 1) none = .crash := by
    rw [entriesIn, firstIndex_nil rfl, lastIndex_nil rfl]
    dsimp only
    rw [if_neg (by omega), if_neg (by omega), if_neg (by omega)]
    rfl
  rw [if_neg (by omega)] at hold
  rw [hold, hnew] at hread
  exact hread

/-- A compaction is safe exactly for such an index. -/
theorem compactsSafely_iff (hcore : core.Unbroken) (compactIndex : Nat) :
    core.CompactsSafely compactIndex ↔ core.Compactable compactIndex := by
  rcases Nat.lt_or_ge compactIndex core.snapshot.metadata.index with hold | hsnap
  · have hsame : core.compact compactIndex = .ok core := by rw [compact, if_pos hold]
    refine iff_of_true ⟨by rw [hsame]; simp, fun core' hok => ?_⟩ (Or.inl hold)
    rw [← Outcome.ok.inj (hsame.symm.trans hok)]
    exact .refl _ _
  rcases Nat.lt_or_ge core.lastIndex compactIndex with hbeyond | hlast
  · refine iff_of_true ⟨?_, fun core' hok => ?_⟩ (Or.inr (Or.inl hbeyond))
    · rw [compact, if_neg (by omega), if_pos hbeyond]
      simp
    · rw [compact, if_neg (by omega), if_pos hbeyond] at hok
      exact absurd hok (by simp)
  have hcases : core.Compactable compactIndex ↔
      core.firstIndex ≤ compactIndex + 1 ∧ compactIndex < core.lastIndex := by
    rw [Compactable, or_iff_right (by omega), or_iff_right (by omega)]
  rw [hcases]
  by_cases hnil : core.entries = []
  · have hempty : core.compact compactIndex = .crash := by
      rw [compact, if_neg (by omega), if_neg (by omega), hnil]
      rfl
    have hsame := lastIndex_nil hnil
    exact iff_of_false (fun hsafe => hsafe.no_crash hempty) (by omega)
  by_cases hfirst : core.firstIndex ≤ compactIndex + 1
  · have hok := compact_eq hcore hsnap hlast hnil hfirst
    rcases Nat.eq_or_lt_of_le hlast with hend | hinside
    · exact iff_of_false (not_safe_at_end hcore hnil hfirst hend hok) (by omega)
    · refine iff_of_true ⟨by rw [hok]; simp, fun core' hok' => ?_⟩ ⟨hfirst, hinside⟩
      rw [← Outcome.ok.inj (hok.symm.trans hok')]
      exact keptAbove_compacted hcore hsnap hinside hfirst
  · have hgone : core.compact compactIndex = .crash := by
      obtain ⟨head, rest, hentries⟩ := List.exists_cons_of_ne_nil hnil
      have hhead : core.entries.head? = some head := by
        rw [hentries]
        rfl
      rw [firstIndex_head hhead] at hfirst
      rw [compact, if_neg (by omega), if_neg (by omega), hhead]
      exact if_pos (by omega)
    exact iff_of_false (fun hsafe => hsafe.no_crash hgone) (fun h => hfirst h.1)

/-- After any calls a compaction is safe exactly for an index below the snapshot or above the log, or
from right before the first entry to right before the last one. -/
theorem compact_safe_iff (confState : ConfState) (ops : List Op)
    (hallowed : Each Op.apply Op.Allowed (withConfState confState) ops) (compactIndex : Nat) :
    (ops.foldl Op.apply (withConfState confState)).CompactsSafely compactIndex ↔
      (ops.foldl Op.apply (withConfState confState)).Compactable compactIndex :=
  compactsSafely_iff
    (Each.foldl (Q := Unbroken) (fun _ _ hcore hop => unbroken_op hcore hop)
      (fun _ hhead => absurd hhead (by simp [withConfState, new])) hallowed) compactIndex

def threeEntries : List Op :=
  [.call (.append [LogEntry.new 1 1 [1], LogEntry.new 2 1 [2], LogEntry.new 3 2 [3]]),
    .call (.createSnapshot 2 (ConfState.new [1]) [9])]

theorem compact_safe_threeEntries :
    (threeEntries.foldl Op.apply (withConfState (ConfState.new []))).CompactsSafely 2 :=
  (compact_safe_iff (ConfState.new []) threeEntries (by decide) 2).mpr (Or.inr (Or.inr (by decide)))

/-- A fresh storage panics at index 0. -/
theorem not_compact_safe_fresh :
    Each Op.apply Op.Allowed (withConfState (ConfState.new [])) [] ∧
      ¬CompactsSafely (withConfState (ConfState.new [])) 0 :=
  ⟨each_nil _, fun hsafe => hsafe.no_crash rfl⟩

end MemStorageCore
end Raft
end RTDB
