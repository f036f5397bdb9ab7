import Mathlib.Data.List.Infix

/-!
# File trees

Directories and files under one root, without links.  A place is the list of names that leads
to it from the root; a path is the text that a program names a place by.
-/

namespace RTDB
namespace FileTree

inductive Node (B : Type*) where
  | dir
  | file (content : B)
  deriving DecidableEq, Repr

/-- Whatever lies at a place lies in a directory. -/
structure Tree (N B : Type*) where
  node : List N → Option (Node B)
  root : node [] = some .dir
  parent : ∀ place name, node (place ++ [name]) ≠ none → node place = some .dir

variable {N B : Type*}

namespace Tree

variable (t : Tree N B)

/-- A tree without some places, and without what lies in them. -/
def prune (gone : List N → Prop) [DecidablePred gone] (hroot : ¬gone [])
    (hdown : ∀ place name, gone place → gone (place ++ [name])) : Tree N B where
  node := fun place => if gone place then none else t.node place
  root := by
    rw [if_neg hroot]
    exact t.root
  parent := by
    intro place name hsome
    by_cases hgone : gone (place ++ [name])
    · exact absurd (if_pos hgone) hsome
    · rw [if_neg hgone] at hsome
      rw [if_neg fun hplace => hgone (hdown place name hplace)]
      exact t.parent place name hsome

/-- What goes with a directory: all that lies in it, and the directory if it does not stay. -/
def Goes (dir : List N) (stays : Bool) (place : List N) : Prop :=
  dir <+: place ∧ (place = dir → stays = false ∧ dir ≠ [])

instance [DecidableEq N] (dir : List N) (stays : Bool) : DecidablePred (Goes dir stays) :=
  fun place => inferInstanceAs (Decidable (dir <+: place ∧ (place = dir → _ ∧ dir ≠ [])))

theorem not_goes_root (dir : List N) (stays : Bool) : ¬Goes dir stays [] := by
  rintro ⟨hfront, hstays⟩
  have hdir := List.prefix_nil.mp hfront
  exact (hstays hdir.symm).2 hdir

theorem Goes.append {dir : List N} {stays : Bool} {place : List N} {name : N}
    (hgoes : Goes dir stays place) : Goes dir stays (place ++ [name]) := by
  refine ⟨hgoes.1.trans (List.prefix_append place [name]), fun heq => ?_⟩
  have hlong := hgoes.1.length_le
  rw [← heq, List.length_append, List.length_singleton] at hlong
  omega

def clear [DecidableEq N] (dir : List N) (stays : Bool) : Tree N B :=
  t.prune (Goes dir stays) (not_goes_root dir stays) fun _ _ hgoes => hgoes.append

theorem clear_node [DecidableEq N] (dir : List N) (stays : Bool) (place : List N) :
    (t.clear dir stays).node place = if Goes dir stays place then none else t.node place := rfl

def ofFiles [DecidableEq N] (files : List (List N × B)) : Tree N B where
  node := fun place =>
    if place = [] ∨ ∃ f ∈ files, place <+: f.1 ∧ place ≠ f.1 then some .dir
    else (files.lookup place).map .file
  root := if_pos (Or.inl rfl)
  parent := by
    intro place name hsome
    have hlonger : ∃ f ∈ files, place ++ [name] <+: f.1 := by
      by_cases hdir : place ++ [name] = [] ∨
          ∃ f ∈ files, place ++ [name] <+: f.1 ∧ place ++ [name] ≠ f.1
      · obtain ⟨f, hf, hfront, -⟩ := hdir.resolve_left (by simp)
        exact ⟨f, hf, hfront⟩
      · rw [if_neg hdir] at hsome
        rw [ne_eq, Option.map_eq_none_iff, ← ne_eq, Option.ne_none_iff_isSome,
          List.lookup_isSome_iff] at hsome
        obtain ⟨f, hf, heq⟩ := hsome
        exact ⟨f, hf, by rw [beq_iff_eq.mp heq]⟩
    obtain ⟨f, hf, hfront⟩ := hlonger
    refine if_pos (Or.inr ⟨f, hf, (List.prefix_append place [name]).trans hfront, ?_⟩)
    rintro rfl
    have hlong := hfront.length_le
    rw [List.length_append, List.length_singleton] at hlong
    omega

/-! ## Walking -/

inductive Step (N : Type*) where
  | stay
  | up
  | down (name : N)

/-- A step sets out from a directory, and a walk ends where something lies. -/
def walk : List N → List (Step N) → Option (List N)
  | place, [] => (t.node place).map fun _ => place
  | place, step :: steps =>
    match t.node place, step with
    | some .dir, .stay => walk place steps
    | some .dir, .up => walk place.dropLast steps
    | some .dir, .down name => walk (place ++ [name]) steps
    | _, _ => none

theorem walk_of_none {place : List N} (hnone : t.node place = none) (steps : List (Step N)) :
    t.walk place steps = none := by
  cases steps with
  | nil => rw [walk, hnone, Option.map_none]
  | cons step steps => simp [walk, hnone]

end Tree

/-! ## Paths -/

open FileTree.Tree

def isAbsolute (path : String) : Bool := path.toList.head? == some '/'

def join (base name : String) : String :=
  if isAbsolute name then name
  else if base = "" ∨ base.toList.getLast? = some '/' then base ++ name
  else base ++ "/" ++ name

def names (path : String) : List (List Char) := path.toList.splitOn '/'

def stepOf (name : List Char) : Step String :=
  if name = [] ∨ name = ['.'] then .stay
  else if name = ['.', '.'] then .up
  else .down (String.ofList name)

def steps (path : String) : List (Step String) := (names path).map stepOf

/-- The last name is one that a directory can not be removed by. -/
def endsInDots (path : String) : Bool :=
  ((names path).filter (· ≠ [])).getLast?.any fun name => name = ['.'] ∨ name = ['.', '.']

/-! ## What a process sees -/

/-- A tree, the directory that a process is in, and the bytes that a path may have. -/
structure FileSystem (B : Type*) where
  tree : Tree String B
  cwd : List String
  longest : Nat

inductive Refusal where
  | notFound
  | notADirectory
  | busy
  deriving DecidableEq, Repr

namespace FileSystem

variable (fs : FileSystem B)

def resolve (path : String) : Option (List String) :=
  if path = "" ∨ fs.longest < path.utf8ByteSize then none
  else fs.tree.walk (if isAbsolute path then [] else fs.cwd) (steps path)

def Opens (path : String) (dir : List String) : Prop :=
  fs.resolve path = some dir ∧ fs.tree.node dir = some .dir

/-- All that lies in the directory goes.  The directory itself is removed last, by its path. -/
def removeDirAll (path : String) : FileSystem B × Except Refusal Unit :=
  match fs.resolve path with
  | none => (fs, .error .notFound)
  | some dir =>
    match fs.tree.node dir with
    | some .dir =>
      ({ fs with tree := fs.tree.clear dir (endsInDots path) },
        if endsInDots path ∨ dir = [] then .error .busy else .ok ())
    | _ => (fs, .error .notADirectory)

def Takes (path : String) (place : List String) : Prop :=
  ∃ dir, fs.Opens path dir ∧ Goes dir (endsInDots path) place

theorem removeDirAll_of_takes {path : String} {place : List String}
    (htakes : fs.Takes path place) : (fs.removeDirAll path).1.tree.node place = none := by
  obtain ⟨dir, ⟨hresolve, hdir⟩, hgoes⟩ := htakes
  simp only [removeDirAll, hresolve, hdir]
  rw [clear_node, if_pos hgoes]

theorem removeDirAll_of_not_takes {path : String} {place : List String}
    (htakes : ¬fs.Takes path place) :
    (fs.removeDirAll path).1.tree.node place = fs.tree.node place := by
  rw [removeDirAll]
  cases hresolve : fs.resolve path with
  | none => rfl
  | some dir =>
    rcases hdir : fs.tree.node dir with _ | _ | content
    · simp only [hdir]
    · simp only [hdir]
      rw [clear_node, if_neg fun hgoes => htakes ⟨dir, ⟨hresolve, hdir⟩, hgoes⟩]
    · simp only [hdir]

end FileSystem

end FileTree
end RTDB
