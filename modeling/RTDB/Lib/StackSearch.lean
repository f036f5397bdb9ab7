import Mathlib.Algebra.Order.BigOperators.Group.Finset
import Mathlib.Data.Finset.Card
import Mathlib.Logic.Relation

/-!
# Searching for a path with a stack

The search takes the node on top of the stack, with the path that led to it.  The first visit to a
node puts its neighbors on the stack, unless the path is as long as the limit.  A path it returns
visits no node twice.  If the limit leaves room for every node that can be reached, the search
fails only where there is no path.
-/

namespace RTDB
namespace StackSearch

/-- The top of the stack comes first. -/
structure Search (V E : Type) where
  visited : Finset V
  stack : List (V × List E)

def start {V E : Type} (first : V) : Search V E := { visited := ∅, stack := [(first, [])] }

/-- What a node puts on the stack: its last neighbor on top. -/
def pushes {V E : Type} (edges : V → List (E × V)) (node : V) (path : List E) :
    List (V × List E) :=
  (edges node).reverse.map fun edge => (edge.2, path ++ [edge.1])

section Run

variable {V E : Type} [DecidableEq V]

/-- The path to the goal, or nothing if the stack runs empty.  Without fuel there is no answer. -/
def search (edges : V → List (E × V)) (goal : V) (limit : Nat) :
    Nat → Search V E → Option (Option (List E))
  | 0, _ => none
  | fuel + 1, s =>
    match s.stack with
    | [] => some none
    | (node, path) :: rest =>
      if node = goal then some (some path)
      else if node ∉ s.visited ∧ path.length < limit then
        search edges goal limit fuel
          { visited := insert node s.visited, stack := pushes edges node path ++ rest }
      else search edges goal limit fuel { visited := insert node s.visited, stack := rest }

inductive Walk (edges : V → List (E × V)) (first : V) : V → List E → List V → Prop
  | stay : Walk edges first first [] []
  | step {node next : V} {path : List E} {left : List V} {e : E}
      (hwalk : Walk edges first node path left) (hedge : (e, next) ∈ edges node) :
      Walk edges first next (path ++ [e]) (left ++ [node])

def Linked (edges : V → List (E × V)) (node next : V) : Prop := ∃ e, (e, next) ∈ edges node

variable {edges : V → List (E × V)} {first goal node last : V} {limit fuel : Nat} {path found : List E}
  {left : List V} {rest : List (V × List E)} {s : Search V E} {nodes : Finset V}

omit [DecidableEq V] in
theorem Walk.length_left (hwalk : Walk edges first last path left) : left.length = path.length := by
  induction hwalk with
  | stay => rfl
  | step _ _ ih => rw [List.length_append, List.length_append, ih]; rfl

omit [DecidableEq V] in
theorem Walk.reaches (hwalk : Walk edges first last path left) :
    Relation.ReflTransGen (Linked edges) first last := by
  induction hwalk with
  | stay => exact Relation.ReflTransGen.refl
  | step _ hedge ih => exact ih.tail ⟨_, hedge⟩

omit [DecidableEq V] in
/-- Nodes that the edges do not lead out of. -/
theorem Walk.inside (hwalk : Walk edges first last path left) (hfirst : first ∈ nodes)
    (hclosed : ∀ v ∈ nodes, ∀ edge ∈ edges v, edge.2 ∈ nodes) :
    last ∈ nodes ∧ ∀ v ∈ left, v ∈ nodes := by
  induction hwalk with
  | stay => exact ⟨hfirst, fun v hv => absurd hv List.not_mem_nil⟩
  | step _ hedge ih =>
    refine ⟨hclosed _ ih.1 _ hedge, fun v hv => ?_⟩
    rcases List.mem_append.mp hv with hv | hv
    · exact ih.2 v hv
    · rw [List.mem_singleton.mp hv]
      exact ih.1

omit [DecidableEq V] in
theorem mem_pushes {entry : V × List E} :
    entry ∈ pushes edges node path ↔ ∃ e, (e, entry.1) ∈ edges node ∧ entry.2 = path ++ [e] := by
  rw [pushes, List.mem_map]
  constructor
  · rintro ⟨edge, hedge, rfl⟩
    exact ⟨edge.1, List.mem_reverse.mp hedge, rfl⟩
  · rintro ⟨e, hedge, hpath⟩
    exact ⟨(e, entry.1), List.mem_reverse.mpr hedge, Prod.ext rfl hpath.symm⟩

/-! ## The paths on the stack -/

/-- Each path on the stack is a walk over visited nodes, none of them twice, and the goal is not
among them. -/
structure Kept (edges : V → List (E × V)) (first goal : V) (limit : Nat) (s : Search V E) : Prop where
  goal_new : goal ∉ s.visited
  walks : ∀ entry ∈ s.stack, entry.2.length ≤ limit ∧
    ∃ left, Walk edges first entry.1 entry.2 left ∧ left.Nodup ∧ ∀ v ∈ left, v ∈ s.visited

omit [DecidableEq V] in
theorem kept_start : Kept edges first goal limit (start first) where
  goal_new := Finset.notMem_empty goal
  walks := by
    intro entry hentry
    rw [List.mem_singleton.mp hentry]
    exact ⟨Nat.zero_le limit, [], Walk.stay, List.nodup_nil, fun v hv => absurd hv List.not_mem_nil⟩

theorem Kept.pop (hs : Kept edges first goal limit s) (hstack : s.stack = (node, path) :: rest)
    (hgoal : node ≠ goal) :
    Kept edges first goal limit { visited := insert node s.visited, stack := rest } where
  goal_new := by
    rw [Finset.mem_insert, not_or]
    exact ⟨hgoal.symm, hs.goal_new⟩
  walks := by
    intro entry hentry
    obtain ⟨hlength, left, hwalk, hnodup, hseen⟩ :=
      hs.walks entry (hstack ▸ List.mem_cons_of_mem _ hentry)
    exact ⟨hlength, left, hwalk, hnodup, fun v hv => Finset.mem_insert_of_mem (hseen v hv)⟩

theorem Kept.push (hs : Kept edges first goal limit s) (hstack : s.stack = (node, path) :: rest)
    (hgoal : node ≠ goal) (hnew : node ∉ s.visited) (hroom : path.length < limit) :
    Kept edges first goal limit
      { visited := insert node s.visited, stack := pushes edges node path ++ rest } where
  goal_new := (hs.pop hstack hgoal).goal_new
  walks := by
    intro entry hentry
    rcases List.mem_append.mp hentry with hentry | hentry
    · obtain ⟨e, hedge, hpath⟩ := mem_pushes.mp hentry
      obtain ⟨-, left, hwalk, hnodup, hseen⟩ :=
        hs.walks (node, path) (hstack ▸ List.mem_cons_self)
      refine ⟨?_, left ++ [node], ?_, ?_, ?_⟩
      · rw [hpath, List.length_append, List.length_singleton]
        exact hroom
      · rw [hpath]
        exact hwalk.step hedge
      · exact List.nodup_append.mpr ⟨hnodup, List.nodup_singleton node, fun v hv w hw heq =>
          hnew (List.mem_singleton.mp hw ▸ heq ▸ hseen v hv)⟩
      · intro v hv
        rcases List.mem_append.mp hv with hv | hv
        · exact Finset.mem_insert_of_mem (hseen v hv)
        · rw [List.mem_singleton.mp hv]
          exact Finset.mem_insert_self node s.visited
    · exact (hs.pop hstack hgoal).walks entry hentry

/-- A path that is found is a walk to the goal within the limit that visits no node twice. -/
theorem Kept.search (hs : Kept edges first goal limit s)
    (hfound : search edges goal limit fuel s = some (some found)) :
    found.length ≤ limit ∧ ∃ left, Walk edges first goal found left ∧ (left ++ [goal]).Nodup := by
  induction fuel generalizing s with
  | zero => exact absurd hfound (by simp [StackSearch.search])
  | succ fuel ih =>
    rw [StackSearch.search] at hfound
    split at hfound
    · exact absurd (Option.some.inj hfound) (by simp)
    · next node path rest hstack =>
      split_ifs at hfound with hgoal hvisit
      · obtain ⟨hlength, left, hwalk, hnodup, hseen⟩ :=
          hs.walks (node, path) (hstack ▸ List.mem_cons_self)
        obtain rfl := Option.some.inj (Option.some.inj hfound)
        subst hgoal
        refine ⟨hlength, left, hwalk, List.nodup_append.mpr
          ⟨hnodup, List.nodup_singleton node, fun v hv w hw heq => ?_⟩⟩
        exact hs.goal_new (List.mem_singleton.mp hw ▸ heq ▸ hseen v hv)
      · exact ih (hs.push hstack hgoal hvisit.1 hvisit.2) hfound
      · exact ih (hs.pop hstack hgoal) hfound

/-! ## What the stack still covers -/

/-- The first node and every neighbor of a visited node are visited or on the stack. -/
structure Covers (edges : V → List (E × V)) (first : V) (s : Search V E) : Prop where
  first_seen : first ∈ s.visited ∨ first ∈ s.stack.map Prod.fst
  closed : ∀ v ∈ s.visited, ∀ edge ∈ edges v, edge.2 ∈ s.visited ∨ edge.2 ∈ s.stack.map Prod.fst

omit [DecidableEq V] in
theorem covers_start : Covers edges first (start first) where
  first_seen := Or.inr List.mem_cons_self
  closed := fun v hv => absurd hv (Finset.notMem_empty v)

theorem seen_pop {v : V} (more : List (V × List E)) (hstack : s.stack = (node, path) :: rest)
    (hv : v ∈ s.visited ∨ v ∈ s.stack.map Prod.fst) :
    v ∈ insert node s.visited ∨ v ∈ (more ++ rest).map Prod.fst := by
  rcases hv with hv | hv
  · exact Or.inl (Finset.mem_insert_of_mem hv)
  · rw [hstack, List.map_cons, List.mem_cons] at hv
    rcases hv with hv | hv
    · exact Or.inl (hv ▸ Finset.mem_insert_self _ _)
    · rw [List.map_append, List.mem_append]
      exact Or.inr (Or.inr hv)

theorem Covers.push (hs : Covers edges first s) (hstack : s.stack = (node, path) :: rest) :
    Covers edges first
      { visited := insert node s.visited, stack := pushes edges node path ++ rest } where
  first_seen := seen_pop _ hstack hs.first_seen
  closed := by
    intro v hv edge hedge
    rcases Finset.mem_insert.mp hv with rfl | hv
    · right
      rw [List.map_append, List.mem_append]
      exact Or.inl (List.mem_map.mpr
        ⟨(edge.2, path ++ [edge.1]), mem_pushes.mpr ⟨edge.1, hedge, rfl⟩, rfl⟩)
    · exact seen_pop _ hstack (hs.closed v hv edge hedge)

theorem Covers.pop (hs : Covers edges first s) (hstack : s.stack = (node, path) :: rest)
    (hold : node ∈ s.visited) :
    Covers edges first { visited := insert node s.visited, stack := rest } where
  first_seen := seen_pop [] hstack hs.first_seen
  closed := by
    intro v hv edge hedge
    rw [Finset.insert_eq_of_mem hold] at hv
    exact seen_pop [] hstack (hs.closed v hv edge hedge)

omit [DecidableEq V] in
/-- With the stack empty, everything that can be reached was visited. -/
theorem Covers.visited (hs : Covers edges first s) (hstack : s.stack = [])
    (hreach : Relation.ReflTransGen (Linked edges) first last) : last ∈ s.visited := by
  have hnone : ∀ v : V, v ∉ s.stack.map Prod.fst := fun v hv => by
    rw [hstack] at hv
    exact List.not_mem_nil hv
  induction hreach with
  | refl => exact hs.first_seen.resolve_right (hnone first)
  | tail _ hedge ih =>
    obtain ⟨e, hedge⟩ := hedge
    exact (hs.closed _ ih _ hedge).resolve_right (hnone _)

/-- Before a node that is not visited yet, a path without a node twice leaves room for that node
and the goal. -/
theorem Kept.room (hs : Kept edges first goal limit s) (hstack : s.stack = (node, path) :: rest)
    (hgoal : node ≠ goal) (hnew : node ∉ s.visited) (hfirst : first ∈ nodes)
    (hclosed : ∀ v ∈ nodes, ∀ edge ∈ edges v, edge.2 ∈ nodes) (hmem : goal ∈ nodes)
    (hlimit : nodes.card ≤ limit + 1) : path.length < limit := by
  obtain ⟨-, left, hwalk, hnodup, hseen⟩ := hs.walks (node, path) (hstack ▸ List.mem_cons_self)
  obtain ⟨hnode, hleft⟩ := hwalk.inside hfirst hclosed
  have hlength : left.length = path.length := hwalk.length_left
  have hsub : insert node (insert goal left.toFinset) ⊆ nodes := by
    intro v hv
    rw [Finset.mem_insert, Finset.mem_insert, List.mem_toFinset] at hv
    rcases hv with rfl | rfl | hv
    · exact hnode
    · exact hmem
    · exact hleft v hv
  have hcard := Finset.card_le_card hsub
  rw [Finset.card_insert_of_notMem, Finset.card_insert_of_notMem, List.toFinset_card_of_nodup hnodup,
    hlength] at hcard
  · omega
  · rw [List.mem_toFinset]
    exact fun hin => hs.goal_new (hseen goal hin)
  · rw [Finset.mem_insert, List.mem_toFinset, not_or]
    exact ⟨hgoal, fun hin => hnew (hseen node hin)⟩

/-- With room for all nodes that can be reached, the search does not give up on a goal among
them. -/
theorem search_ne_none (hs : Kept edges first goal limit s) (hcovers : Covers edges first s)
    (hreach : Relation.ReflTransGen (Linked edges) first goal) (hfirst : first ∈ nodes)
    (hclosed : ∀ v ∈ nodes, ∀ edge ∈ edges v, edge.2 ∈ nodes) (hmem : goal ∈ nodes)
    (hlimit : nodes.card ≤ limit + 1) : search edges goal limit fuel s ≠ some none := by
  induction fuel generalizing s with
  | zero => simp [search]
  | succ fuel ih =>
    rw [search]
    split
    · next hstack => exact absurd (hcovers.visited hstack hreach) hs.goal_new
    · next node path rest hstack =>
      split_ifs with hgoal hvisit
      · simp
      · exact ih (hs.push hstack hgoal hvisit.1 hvisit.2) (hcovers.push hstack)
      · have hold : node ∈ s.visited := by
          by_contra hnew
          exact hvisit ⟨hnew, hs.room hstack hgoal hnew hfirst hclosed hmem hlimit⟩
        exact ih (hs.pop hstack hgoal) (hcovers.pop hstack hold)

/-! ## How long it takes -/

/-- The nodes that are on the stack or may still come there. -/
def work (edges : V → List (E × V)) (nodes : Finset V) (s : Search V E) : Nat :=
  s.stack.length + ∑ v ∈ nodes \ s.visited, (edges v).length

theorem sum_remaining_le (edges : V → List (E × V)) (nodes : Finset V)
    (visited : Finset V) (node : V) :
    ∑ v ∈ nodes \ insert node visited, (edges v).length ≤ ∑ v ∈ nodes \ visited, (edges v).length :=
  Finset.sum_le_sum_of_subset (Finset.sdiff_subset_sdiff (le_refl nodes) (Finset.subset_insert _ _))

theorem work_pop (hstack : s.stack = (node, path) :: rest) :
    work edges nodes { visited := insert node s.visited, stack := rest } < work edges nodes s := by
  have hsum := sum_remaining_le edges nodes s.visited node
  simp only [work, hstack, List.length_cons]
  omega

theorem work_push (hstack : s.stack = (node, path) :: rest) (hnew : node ∉ s.visited)
    (hnodes : ∀ v, edges v ≠ [] → v ∈ nodes) :
    work edges nodes { visited := insert node s.visited, stack := pushes edges node path ++ rest } <
      work edges nodes s := by
  have hpushes : (pushes edges node path).length = (edges node).length := by simp [pushes]
  have hsum : (edges node).length + ∑ v ∈ nodes \ insert node s.visited, (edges v).length ≤
      ∑ v ∈ nodes \ s.visited, (edges v).length := by
    by_cases hedges : edges node = []
    · rw [hedges, List.length_nil, Nat.zero_add]
      exact sum_remaining_le edges nodes s.visited node
    · have hmem : node ∈ nodes \ s.visited := Finset.mem_sdiff.mpr ⟨hnodes node hedges, hnew⟩
      rw [Finset.sdiff_insert, Finset.add_sum_erase _ (fun v => (edges v).length) hmem]
  simp only [work, hstack, List.length_cons, List.length_append, hpushes]
  omega

/-- With fuel for all that may come onto the stack, the search ends. -/
theorem search_ends (hnodes : ∀ v, edges v ≠ [] → v ∈ nodes)
    (hfuel : work edges nodes s < fuel) : search edges goal limit fuel s ≠ none := by
  induction fuel generalizing s with
  | zero => exact absurd hfuel (Nat.not_lt_zero _)
  | succ fuel ih =>
    rw [search]
    split
    · simp
    · next node path rest hstack =>
      split_ifs with hgoal hvisit
      · simp
      · exact ih (Nat.lt_of_lt_of_le (work_push hstack hvisit.1 hnodes) (Nat.lt_succ_iff.mp hfuel))
      · exact ih (Nat.lt_of_lt_of_le (work_pop hstack) (Nat.lt_succ_iff.mp hfuel))

end Run

end StackSearch
end RTDB
