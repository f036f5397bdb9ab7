import RTDB.Api.Inserts
import RTDB.Lib.FileTree
import Std.Data.TreeMap.Lemmas

/-!
# The directories of collections

A collection lives in the directory that its name leads to when it is joined to the base path.
Names are joined as they come, and `delete_collection` removes what they lead to.
-/

namespace RTDB

open FileTree FileTree.Tree

variable {B C : Type}

/-- The base path has been read by `new`, so that it is not empty. -/
structure CollectionManager (C : Type) where
  collections : Std.TreeMap String C
  basePath : String
  named : basePath ≠ ""

/-- A number with zeros in front, as the names of files have it. -/
def padded (width n : Nat) : String :=
  String.ofList (List.replicate (width - (Nat.repr n).length) '0') ++ Nat.repr n

/-- Where a collection keeps its files, seen from its directory. -/
inductive Kept : List String → Prop
  | config : Kept ["config.json"]
  | wal (fileNo : Nat) : Kept ["storage", "wal", "wal-" ++ padded 8 fileNo ++ ".log"]
  | table (level timestamp : Nat) :
    Kept ["storage", "level-" ++ Nat.repr level, padded 20 timestamp ++ ".sst"]

namespace CollectionManager

variable (m : CollectionManager C) (fs : FileSystem B) (name : String)

def path : String := join m.basePath name

def deleteCollection : CollectionManager C × FileSystem B × Except Refusal Unit :=
  let m' := { m with collections := m.collections.erase name }
  if (fs.resolve (m.path name)).isSome then
    let removed := fs.removeDirAll (m.path name)
    (m', removed.1, removed.2)
  else (m', fs, .ok ())

structure Owns (place : List String) : Prop where
  registered : name ∈ m.collections
  stored : ∃ content, fs.tree.node place = some (.file content)
  kept : ∃ dir rel, fs.resolve (m.path name) = some dir ∧ Kept rel ∧ place = dir ++ rel

def Inside (place : List String) : Prop :=
  ∃ base, fs.resolve m.basePath = some base ∧ base <+: place

/-- A deletion leaves all as it was but what lies in the base path and is not another's. -/
def TouchesOnly : Prop :=
  ∀ place, (m.deleteCollection fs name).2.1.tree.node place ≠ fs.tree.node place →
    m.Inside fs place ∧ ∀ other, other ≠ name → ¬m.Owns fs other place

/-- A directory in the base path, or one that stays and holds nothing but the base path, at which
and below which no other collection keeps a file. -/
structure Apart (dir : List String) : Prop where
  inside : m.Inside fs dir ∨ (endsInDots (m.path name) = true ∨ dir = []) ∧
    ∀ place, dir <+: place → place ≠ dir → fs.tree.node place ≠ none → m.Inside fs place
  others : ∀ other place, other ≠ name → m.Owns fs other place → ¬dir <+: place

variable {m fs name}

theorem Inside.below {dir place : List String} (hinside : m.Inside fs dir)
    (hbelow : dir <+: place) : m.Inside fs place := by
  obtain ⟨base, hbase, hdir⟩ := hinside
  exact ⟨base, hbase, hdir.trans hbelow⟩

theorem deleteCollection_tree :
    (m.deleteCollection fs name).2.1 = (fs.removeDirAll (m.path name)).1 := by
  rw [deleteCollection]
  cases hresolve : fs.resolve (m.path name) with
  | none =>
    rw [FileSystem.removeDirAll, hresolve]
    rfl
  | some dir => rfl

/-- A deletion changes what goes with the directory, and that is what it finds there. -/
theorem deleteCollection_changes_iff (place : List String) :
    (m.deleteCollection fs name).2.1.tree.node place ≠ fs.tree.node place ↔
      fs.Takes (m.path name) place ∧ fs.tree.node place ≠ none := by
  rw [deleteCollection_tree]
  by_cases htakes : fs.Takes (m.path name) place
  · rw [fs.removeDirAll_of_takes htakes, and_iff_right htakes, ne_comm]
  · rw [fs.removeDirAll_of_not_takes htakes]
    simp [htakes]

theorem Apart.inside_of_goes {dir place : List String} (hapart : m.Apart fs name dir)
    (hgoes : Goes dir (endsInDots (m.path name)) place) (hnode : fs.tree.node place ≠ none) :
    m.Inside fs place := by
  rcases hapart.inside with hinside | ⟨hstays, hbelow⟩
  · exact hinside.below hgoes.1
  · refine hbelow place hgoes.1 (fun heq => ?_) hnode
    obtain ⟨hdots, hroot⟩ := hgoes.2 heq
    rcases hstays with hstays | hstays
    · exact absurd (hstays.symm.trans hdots) (by decide)
    · exact hroot hstays

theorem TouchesOnly.apart (htouches : m.TouchesOnly fs name) {dir : List String}
    (hopens : fs.Opens (m.path name) dir) : m.Apart fs name dir := by
  have hgone : ∀ place, Goes dir (endsInDots (m.path name)) place → fs.tree.node place ≠ none →
      m.Inside fs place ∧ ∀ other, other ≠ name → ¬m.Owns fs other place :=
    fun place hgoes hnode =>
      htouches place ((deleteCollection_changes_iff place).mpr ⟨⟨dir, hopens, hgoes⟩, hnode⟩)
  constructor
  · by_cases hstays : endsInDots (m.path name) = true ∨ dir = []
    · refine Or.inr ⟨hstays, fun place hbelow hne hnode => ?_⟩
      exact (hgone place ⟨hbelow, fun heq => absurd heq hne⟩ hnode).1
    · obtain ⟨hdots, hroot⟩ := not_or.mp hstays
      have hgoes : Goes dir (endsInDots (m.path name)) dir :=
        ⟨List.prefix_rfl, fun _ => ⟨Bool.eq_false_iff.mpr hdots, hroot⟩⟩
      exact Or.inl (hgone dir hgoes (by simp [hopens.2])).1
  · intro other place hother howns hbelow
    obtain ⟨content, hfile⟩ := howns.stored
    -- what is removed is a directory, and a file is none
    have hne : place ≠ dir := by
      rintro rfl
      exact absurd (hopens.2.symm.trans hfile) (by simp)
    exact (hgone place ⟨hbelow, fun heq => absurd heq hne⟩ (by simp [hfile])).2 other hother howns

theorem touchesOnly_of_apart (hapart : ∀ dir, fs.Opens (m.path name) dir → m.Apart fs name dir) :
    m.TouchesOnly fs name := by
  intro place hchanged
  obtain ⟨⟨dir, hopens, hgoes⟩, hnode⟩ := (deleteCollection_changes_iff place).mp hchanged
  have hdir := hapart dir hopens
  exact ⟨hdir.inside_of_goes hgoes hnode,
    fun other hother howns => hdir.others other place hother howns hgoes.1⟩

end CollectionManager
end RTDB
