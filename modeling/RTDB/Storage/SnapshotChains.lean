import Mathlib.Logic.Relation
import RTDB.Storage.SnapshotRuns

/-!
# Incremental snapshots

A chain of snapshots, each with what changed since the one before it.  `restore_snapshot` reads the
file of the snapshot it is given, and `cleanup_old_snapshots` goes by age.
-/

namespace RTDB
namespace Storage

variable {F : Type}

/-- A snapshot by its id, with what was put into it. -/
abbrev Link (F : Type) := String × List (VectorId × Vector (Payload F))

/-- The version in the latest snapshot that has the vector; the latest one comes first. -/
def latestVersion (chain : List (Link F)) (id : VectorId) : Option (Vector (Payload F)) :=
  chain.findSome? fun link => link.2.lookup id

namespace Shelf

structure Holds (s : Shelf F) (link : Link F) (parent : Option String) : Prop where
  kept : s.kept link.1 = some link.2
  parent : ∃ metadata, s.manager.snapshots.lookup link.1 = some metadata ∧ metadata.parentId = parent

/-- A snapshot and those before it, down to a full one. -/
def Chain (s : Shelf F) (link : Link F) : List (Link F) → Prop
  | [] => s.Holds link none
  | earlier :: rest => s.Holds link (some earlier.1) ∧ Chain s earlier rest

theorem Chain.last_kept {s : Shelf F} {link : Link F} {earlier : List (Link F)}
    (hchain : s.Chain link earlier) : s.kept link.1 = some link.2 := by
  cases earlier with
  | nil => exact hchain.kept
  | cons parent rest => exact hchain.1.kept

/-- Restoring the last snapshot of the chain gives every vector in its latest version. -/
def Reconstructs (env : SnapshotEnv F) (s : Shelf F) (link : Link F) (earlier : List (Link F)) : Prop :=
  ∃ restored, s.manager.restoreSnapshot env link.1 = .ok restored ∧
    ∀ id, restored.lookup id = latestVersion (link :: earlier) id

/-- The last snapshot has every vector of the chain. -/
def HasAll (link : Link F) (earlier : List (Link F)) : Prop :=
  ∀ before ∈ earlier, ∀ pair ∈ before.2, pair.1 ∈ link.2.map Prod.fst

end Shelf

theorem lookup_eq_none_iff_notMem {vectors : List (VectorId × Vector (Payload F))} {id : VectorId} :
    vectors.lookup id = none ↔ id ∉ vectors.map Prod.fst := by
  rw [List.lookup_eq_none_iff, List.mem_map]
  constructor
  · rintro hnone ⟨pair, hmem, rfl⟩
    exact absurd (hnone pair hmem) (by simp)
  · intro hnot pair hmem
    exact bne_iff_ne.mpr fun hid => hnot ⟨pair, hmem, hid.symm⟩

/-- The latest snapshot has the latest version of everything exactly when it has everything. -/
theorem lookup_eq_latestVersion_iff (link : Link F) (earlier : List (Link F)) :
    (∀ id, link.2.lookup id = latestVersion (link :: earlier) id) ↔ Shelf.HasAll link earlier := by
  constructor
  · intro hlatest before hbefore pair hpair
    by_contra hmissing
    have hnone := lookup_eq_none_iff_notMem.mpr hmissing
    have hall := hlatest pair.1
    rw [hnone, latestVersion, List.findSome?_cons, hnone] at hall
    have hpast := List.findSome?_eq_none_iff.mp hall.symm before hbefore
    exact lookup_eq_none_iff_notMem.mp hpast (List.mem_map_of_mem hpair)
  · intro hall id
    rw [latestVersion, List.findSome?_cons]
    cases hhere : link.2.lookup id with
    | some vector => rfl
    | none =>
      refine (List.findSome?_eq_none_iff.mpr fun before hbefore => ?_).symm
      rw [lookup_eq_none_iff_notMem] at hhere ⊢
      intro hmem
      obtain ⟨pair, hpair, rfl⟩ := List.mem_map.mp hmem
      exact hhere (hall before hbefore pair hpair)

/-! ## Clean-up -/

namespace SnapshotManager

variable {m : SnapshotManager} {id : String} {now : Nat}

/-- A snapshot depends on its parent, and on what that depends on. -/
def DependsOn (m : SnapshotManager) : String → String → Prop :=
  Relation.TransGen fun child parent =>
    ∃ metadata, m.snapshots.lookup child = some metadata ∧ metadata.parentId = some parent

/-- Nothing that a retained snapshot depends on is removed. -/
def KeepsParents (m : SnapshotManager) (now : Nat) : Prop :=
  ∀ child ancestor, m.DependsOn child ancestor →
    child ∈ (m.cleanupOldSnapshots now).2.snapshots → ancestor ∈ m.snapshots →
      ancestor ∈ (m.cleanupOldSnapshots now).2.snapshots

/-- No snapshot is past its retention while one that depends on it is not. -/
def OldLast (m : SnapshotManager) (now : Nat) : Prop :=
  ∀ child ancestor metadata metadata', m.DependsOn child ancestor →
    m.snapshots.lookup child = some metadata → m.snapshots.lookup ancestor = some metadata' →
      m.expired now metadata' = true → m.expired now metadata = true

/-- A deletion succeeds unless there is nothing to delete. -/
theorem deleteSnapshot_cases (m : SnapshotManager) (id : String) :
    (m.deleteSnapshot id).2.snapshots.lookup id = none ∧
      ((m.deleteSnapshot id).1 = true ∨ m.snapshots.lookup id = none) := by
  rw [deleteSnapshot]
  split
  case isTrue => exact ⟨AList.lookup_erase _ _, Or.inl rfl⟩
  case isFalse habsent =>
    have hnone := AList.lookup_eq_none.mpr habsent
    exact ⟨hnone, Or.inr hnone⟩

theorem deleteSnapshot_none {id' : String} (hnone : m.snapshots.lookup id = none) :
    (m.deleteSnapshot id').2.snapshots.lookup id = none := by
  by_cases hid : id = id'
  · rw [hid]
    exact (m.deleteSnapshot_cases id').1
  · exact (lookup_deleteSnapshot_of_ne hid).2.trans hnone

/-- What is gone stays gone. -/
theorem cleanupLoop_none {old : SnapshotMetadata → Bool}
    {entries : List (Sigma fun _ : String => SnapshotMetadata)} {acc : Nat × SnapshotManager}
    (hnone : acc.2.snapshots.lookup id = none) :
    (cleanupLoop old entries acc).2.snapshots.lookup id = none := by
  induction entries generalizing acc with
  | nil => exact hnone
  | cons entry rest ih =>
    rw [cleanupLoop]
    split
    case isTrue => exact ih (deleteSnapshot_none hnone)
    case isFalse => exact ih hnone

theorem cleanupLoop_old {old : SnapshotMetadata → Bool}
    {entries : List (Sigma fun _ : String => SnapshotMetadata)} {acc : Nat × SnapshotManager}
    (hold : ∃ entry ∈ entries, entry.1 = id ∧ old entry.2 = true) :
    (cleanupLoop old entries acc).2.snapshots.lookup id = none := by
  induction entries generalizing acc with
  | nil =>
    obtain ⟨entry, hmem, -⟩ := hold
    exact absurd hmem List.not_mem_nil
  | cons entry rest ih =>
    obtain ⟨found, hmem, hid, hfound⟩ := hold
    rw [cleanupLoop]
    rcases List.mem_cons.mp hmem with rfl | hmem
    · rw [hid]
      obtain ⟨hgone, hdeleted⟩ := acc.2.deleteSnapshot_cases id
      split
      case isTrue => exact cleanupLoop_none hgone
      case isFalse hnot =>
        exact cleanupLoop_none (hdeleted.resolve_left fun hyes => hnot ⟨hfound, hyes⟩)
    · split
      · exact ih ⟨found, hmem, hid, hfound⟩
      · exact ih ⟨found, hmem, hid, hfound⟩

/-- The snapshots past their retention are removed and no others. -/
theorem mem_cleanupOldSnapshots_iff :
    id ∈ (m.cleanupOldSnapshots now).2.snapshots ↔
      ∃ metadata, m.snapshots.lookup id = some metadata ∧ m.expired now metadata = false := by
  rw [← AList.lookup_isSome]
  cases hmetadata : m.snapshots.lookup id with
  | none =>
    have hgone : (m.cleanupOldSnapshots now).2.snapshots.lookup id = none := cleanupLoop_none hmetadata
    simp [hgone]
  | some metadata =>
    cases hold : m.expired now metadata with
    | false =>
      have hyoung : (m.snapshots.lookup id).any (m.expired now) = false := by
        rw [hmetadata, Option.any_some, hold]
      rw [(lookup_cleanupOldSnapshots hyoung).2, hmetadata]
      exact iff_of_true rfl ⟨metadata, rfl, hold⟩
    | true =>
      have hgone : (m.cleanupOldSnapshots now).2.snapshots.lookup id = none :=
        cleanupLoop_old ⟨⟨id, metadata⟩, AList.mem_lookup_iff.mp hmetadata, rfl, hold⟩
      rw [hgone]
      refine iff_of_false (by simp) ?_
      rintro ⟨metadata', hsame, hyoung⟩
      rw [← Option.some.inj hsame, hold] at hyoung
      exact absurd hyoung (by simp)

theorem keepsParents_iff : m.KeepsParents now ↔ m.OldLast now := by
  constructor
  · intro hkeeps child ancestor metadata metadata' hdepends hchild hancestor hold
    by_contra hyoung
    have hretained := hkeeps child ancestor hdepends
      (mem_cleanupOldSnapshots_iff.mpr ⟨metadata, hchild, Bool.eq_false_iff.mpr hyoung⟩)
      (AList.lookup_isSome.mp (by rw [hancestor]; rfl))
    obtain ⟨same, hsame, hfresh⟩ := mem_cleanupOldSnapshots_iff.mp hretained
    rw [hancestor] at hsame
    rw [← Option.some.inj hsame, hold] at hfresh
    exact absurd hfresh (by simp)
  · intro hlast child ancestor hdepends hretained hmem
    obtain ⟨metadata, hchild, hyoung⟩ := mem_cleanupOldSnapshots_iff.mp hretained
    obtain ⟨metadata', hancestor⟩ := Option.isSome_iff_exists.mp (AList.lookup_isSome.mpr hmem)
    refine mem_cleanupOldSnapshots_iff.mpr ⟨metadata', hancestor, ?_⟩
    by_contra hold
    have hexpired := hlast child ancestor metadata metadata' hdepends hchild hancestor
      (Bool.not_eq_false _ ▸ hold)
    rw [hyoung] at hexpired
    exact absurd hexpired (by simp)

end SnapshotManager

namespace Shelf

end Shelf

/-! ## A full snapshot and what changed -/

open Storage.Shelf

def sampleVector (bits : UInt32) : Vector (Payload Rat) := { data := [bits], payload := none }

def fullStamp : Stamp := { collection := "docs", seconds := 5, snapshotType := .full }

/-- The incremental snapshot is taken on the fortieth day. -/
def changedStamp : Stamp := { collection := "docs", seconds := 3456000, snapshotType := .incremental }

def fullLink : Link Rat := (fullStamp.id, [(1, sampleVector 0), (2, sampleVector 0)])

def changedLink (vectors : List (VectorId × Vector (Payload Rat))) : Link Rat :=
  (changedStamp.id, vectors)

def fullRequest : SnapshotRequest Rat :=
  { collection := "docs", vectors := fullLink.2, walSequence := 0, parentId := none }

def changedRequest (vectors : List (VectorId × Vector (Payload Rat))) : SnapshotRequest Rat :=
  { collection := "docs", vectors, walSequence := 0, parentId := some fullLink.1 }

def twoSnapshots (vectors : List (VectorId × Vector (Payload Rat))) : List (SnapshotCall Rat) :=
  [.create fullRequest (5 * second) (5 * second) .whole,
    .create (changedRequest vectors) (40 * day) (40 * day) .whole]

def shelved (vectors : List (VectorId × Vector (Payload Rat))) : Shelf Rat :=
  (twoSnapshots vectors).foldl (perform sampleEnv) (start 30)

theorem restorable_sampleVector {id : VectorId} (hid : id < 2 ^ 64) (bits : UInt32) :
    Restorable (id, sampleVector bits) :=
  { id := hid, payload := rfl, length := by show 18 + 4 * 1 + 0 < 2 ^ 32; omega }

theorem restorable_fullLink : ∀ pair ∈ fullLink.2, Restorable pair := by
  intro pair hmem
  rcases List.mem_cons.mp hmem with rfl | hmem
  · exact restorable_sampleVector (by decide) 0
  · rw [List.mem_singleton.mp hmem]
    exact restorable_sampleVector (by decide) 0

theorem sound_twoSnapshots {vectors : List (VectorId × Vector (Payload Rat))}
    (hvectors : ∀ pair ∈ vectors, Restorable pair) :
    Runs.Each (perform sampleEnv) Sound (start 30) (twoSnapshots vectors) := by
  simp only [twoSnapshots, Runs.each_cons]
  refine ⟨⟨List.not_mem_nil, restorable_fullLink⟩, ⟨?_, hvectors⟩, Runs.each_nil _⟩
  intro hmem
  have hstamp : changedStamp = fullStamp := List.mem_singleton.mp hmem
  exact absurd hstamp (by decide)

theorem id_ne : fullStamp.id ≠ changedStamp.id := fun hid => absurd (Stamp.id_inj hid) (by decide)

theorem lookup_changed (vectors : List (VectorId × Vector (Payload Rat))) :
    (shelved vectors).manager.snapshots.lookup changedStamp.id =
      some (SnapshotManager.metadataOf sampleEnv (changedRequest vectors) (40 * day) (40 * day)) :=
  AList.lookup_insert _

theorem lookup_full (vectors : List (VectorId × Vector (Payload Rat))) :
    (shelved vectors).manager.snapshots.lookup fullStamp.id =
      some (SnapshotManager.metadataOf sampleEnv fullRequest (5 * second) (5 * second)) :=
  (AList.lookup_insert_ne id_ne).trans (AList.lookup_insert _)

theorem kept_shelved (vectors : List (VectorId × Vector (Payload Rat))) :
    (shelved vectors).kept =
      Function.update (Function.update (fun _ => none) fullStamp.id (some fullLink.2)) changedStamp.id
        (some vectors) := rfl

theorem chain_twoSnapshots (vectors : List (VectorId × Vector (Payload Rat))) :
    (shelved vectors).Chain (changedLink vectors) [fullLink] :=
  { left :=
      { kept := by rw [kept_shelved]; exact Function.update_self _ _ _
        parent := ⟨_, lookup_changed vectors, rfl⟩ }
    right :=
      { kept := by
          rw [kept_shelved, fullLink, Function.update_of_ne id_ne, Function.update_self]
        parent := ⟨_, lookup_full vectors, rfl⟩ } }

end Storage
end RTDB
