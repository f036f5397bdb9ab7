import Mathlib.Data.Finset.Card
import Mathlib.Data.List.Chain
import Mathlib.Logic.Relation

/-!
# Depth-first search for a cycle

The search keeps the nodes it has seen, the nodes whose neighbours it is at, and the path of
those.  It stops at a neighbour that is on the path.  What it has seen and left leads to no cycle.
-/

namespace RTDB
namespace CycleSearch

variable {α : Type} [DecidableEq α]

structure Search (α : Type) where
  visited : Finset α
  recStack : Finset α
  path : List α

/-- A cycle, or the search that found none. -/
abbrev Outcome (α : Type) := Except (List α) (Search α)

namespace Search

def empty : Search α := { visited := ∅, recStack := ∅, path := [] }

def enter (s : Search α) (node : α) : Search α :=
  { visited := insert node s.visited, recStack := insert node s.recStack, path := s.path ++ [node] }

def leave (s : Search α) (node : α) : Search α :=
  { s with recStack := s.recStack.erase node, path := s.path.dropLast }

end Search

def andThen (next : Search α → Option (Outcome α)) : Outcome α → Option (Outcome α)
  | .error cycle => some (.error cycle)
  | .ok s => next s

/-- The loop over the neighbours of a node.  It fails at a node on the stack that is not on the
path. -/
def explore (visit : α → Search α → Option (Outcome α)) : List α → Search α → Option (Outcome α)
  | [], s => some (.ok s)
  | neighbor :: rest, s =>
    if neighbor ∉ s.visited then (visit neighbor s).bind (andThen (explore visit rest))
    else if neighbor ∈ s.recStack then
      (s.path.idxOf? neighbor).map fun cycleStart => .error (s.path.drop cycleStart)
    else explore visit rest s

/-- The search from a node, with calls nested at most `fuel` deep. -/
def dfs (neighbors : α → List α) : Nat → α → Search α → Option (Outcome α)
  | 0, _, _ => none
  | fuel + 1, node, s =>
    (explore (dfs neighbors fuel) (neighbors node) (s.enter node)).map
      (Except.map fun s' => s'.leave node)

/-- The search from each node that is not seen yet. -/
def searchAll (neighbors : α → List α) (fuel : Nat) : List α → Search α → Option (Outcome α)
  | [], s => some (.ok s)
  | node :: rest, s =>
    if node ∉ s.visited then
      (dfs neighbors fuel node s).bind (andThen (searchAll neighbors fuel rest))
    else searchAll neighbors fuel rest s

/-! ## Cycles -/

/-- Each node has an edge to the next, and the last one to the first. -/
structure IsCycle (neighbors : α → List α) (cycle : List α) : Prop where
  nonempty : cycle ≠ []
  chain : cycle.IsChain fun a b => b ∈ neighbors a
  closes : cycle.head nonempty ∈ neighbors (cycle.getLast nonempty)

/-- No edges lead from a node back to it. -/
def Acyclic (neighbors : α → List α) : Prop :=
  ∀ a, ¬Relation.TransGen (fun a b => b ∈ neighbors a) a a

abbrev Ends (neighbors : α → List α) (node : α) : Prop := Acc (fun b a => b ∈ neighbors a) node

variable {neighbors : α → List α} {nodes : Finset α} {visit : α → Search α → Option (Outcome α)}
  {fuel : Nat} {node : α} {l cycle : List α} {s : Search α}

omit [DecidableEq α] in
theorem isChain_reaches {first : α} (hchain : (first :: l).IsChain fun a b => b ∈ neighbors a)
    {last : α} (hlast : last ∈ (first :: l).getLast?) :
    Relation.ReflTransGen (fun a b => b ∈ neighbors a) first last := by
  induction l generalizing first with
  | nil =>
    rw [List.getLast?_singleton, Option.mem_some_iff] at hlast
    rw [hlast]
  | cons next l ih =>
    rw [List.isChain_cons_cons] at hchain
    rw [List.getLast?_cons_cons] at hlast
    exact Relation.ReflTransGen.head hchain.1 (ih hchain.2 hlast)

omit [DecidableEq α] in
theorem IsCycle.not_acyclic (hcycle : IsCycle neighbors cycle) : ¬Acyclic neighbors := by
  intro hacyclic
  obtain ⟨hne, hchain, hcloses⟩ := hcycle
  cases cycle with
  | nil => exact hne rfl
  | cons first l =>
    have hreach := isChain_reaches hchain (List.getLast?_eq_some_getLast hne)
    exact hacyclic first (Relation.TransGen.tail' hreach hcloses)

omit [DecidableEq α] in
/-- A node whose ways all end is on no cycle. -/
theorem Ends.not_transGen (hends : Ends neighbors node) :
    ¬Relation.TransGen (fun a b => b ∈ neighbors a) node node := by
  have hacc : Acc (Relation.TransGen fun b a => b ∈ neighbors a) node := hends.transGen
  induction hacc with
  | intro x _ ih =>
    intro hloop
    have hback : Relation.TransGen (fun b a => b ∈ neighbors a) x x :=
      Relation.transGen_swap.mp hloop
    exact ih x hback hends hloop

/-! ## What the search keeps -/

/-- The stack is the path, which goes along edges, and the nodes that are seen and not on it lead
to no cycle. -/
structure Traced (neighbors : α → List α) (s : Search α) : Prop where
  chain : s.path.IsChain fun a b => b ∈ neighbors a
  nodup : s.path.Nodup
  stack : s.recStack = s.path.toFinset
  seen : ∀ x ∈ s.path, x ∈ s.visited
  ends : ∀ x ∈ s.visited, x ∉ s.path → Ends neighbors x

theorem traced_empty : Traced neighbors Search.empty where
  chain := List.isChain_nil
  nodup := List.nodup_nil
  stack := rfl
  seen := fun _ hx => absurd hx List.not_mem_nil
  ends := fun x hx => absurd hx (Finset.notMem_empty x)

/-- A node comes onto the path after one that has an edge to it. -/
theorem Traced.enter (hs : Traced neighbors s) (hnew : node ∉ s.visited)
    (hedge : ∀ last ∈ s.path.getLast?, node ∈ neighbors last) :
    Traced neighbors (s.enter node) where
  chain := by
    refine hs.chain.append (List.isChain_singleton node) fun last hlast x hx => ?_
    rw [List.head?_cons, Option.mem_some_iff] at hx
    rw [← hx]
    exact hedge last hlast
  nodup := by
    refine hs.nodup.append (List.nodup_singleton node) (List.disjoint_singleton.mpr ?_)
    exact fun hmem => hnew (hs.seen node hmem)
  stack := by
    show insert node s.recStack = (s.path ++ [node]).toFinset
    rw [hs.stack, List.toFinset_append, Finset.union_comm]
    rfl
  seen := by
    intro x hx
    rcases List.mem_append.mp hx with hx | hx
    · exact Finset.mem_insert_of_mem (hs.seen x hx)
    · rw [List.mem_singleton.mp hx]
      exact Finset.mem_insert_self node s.visited
  ends := by
    intro x hx hnot
    have hne : x ≠ node := fun h => hnot (List.mem_append_right _ (List.mem_singleton.mpr h))
    exact hs.ends x (Finset.mem_of_mem_insert_of_ne hx hne)
      fun h => hnot (List.mem_append_left _ h)

/-- A node whose neighbours all lead nowhere leaves the path. -/
theorem Traced.leave {path : List α} (hs : Traced neighbors s) (hpath : s.path = path ++ [node])
    (hends : ∀ b ∈ neighbors node, Ends neighbors b) :
    Traced neighbors (s.leave node) ∧ (s.leave node).path = path := by
  have hdrop : (s.leave node).path = path := by
    show s.path.dropLast = path
    rw [hpath, List.dropLast_concat]
  have hnot : node ∉ path := by
    have hnodup := hs.nodup
    rw [hpath, List.nodup_append] at hnodup
    exact fun hmem => hnodup.2.2 node hmem node (List.mem_singleton_self node) rfl
  refine ⟨⟨?_, ?_, ?_, ?_, ?_⟩, hdrop⟩
  · exact hs.chain.dropLast
  · exact hs.nodup.sublist (List.dropLast_sublist s.path)
  · rw [hdrop]
    show s.recStack.erase node = path.toFinset
    rw [hs.stack, hpath, List.toFinset_append, Finset.union_comm]
    show (insert node path.toFinset).erase node = path.toFinset
    exact Finset.erase_insert fun h => hnot (List.mem_toFinset.mp h)
  · exact fun x hx => hs.seen x (List.dropLast_subset s.path hx)
  · intro x hx hleft
    rw [hdrop] at hleft
    by_cases heq : x = node
    · rw [heq]
      exact Acc.intro node fun b hb => hends b hb
    · refine hs.ends x hx fun hmem => ?_
      rw [hpath] at hmem
      rcases List.mem_append.mp hmem with hmem | hmem
      · exact hleft hmem
      · exact heq (List.mem_singleton.mp hmem)

/-- A neighbour of the last node that is on the stack closes a cycle. -/
theorem Traced.isCycle {path : List α} {neighbor : α} (hs : Traced neighbors s)
    (hpath : s.path = path ++ [node]) (hedge : neighbor ∈ neighbors node)
    (hstack : neighbor ∈ s.recStack) :
    ∃ cycleStart, s.path.idxOf? neighbor = some cycleStart ∧
      IsCycle neighbors (s.path.drop cycleStart) := by
  rw [hs.stack, List.mem_toFinset] at hstack
  obtain ⟨cycleStart, hfound⟩ := Option.isSome_iff_exists.mp (List.isSome_idxOf?.mpr hstack)
  obtain ⟨hlt, hget, -⟩ := List.idxOf?_eq_some_iff.mp hfound
  have hne : s.path.drop cycleStart ≠ [] := by
    intro hnil
    have hlength := List.drop_eq_nil_iff.mp hnil
    omega
  refine ⟨cycleStart, hfound, hne, hs.chain.drop cycleStart, ?_⟩
  have hhead : (s.path.drop cycleStart).head hne = neighbor := by
    rw [List.head_drop, hget]
  have hlast : (s.path.drop cycleStart).getLast hne = node := by
    rw [List.getLast_drop, List.getLast_congr _ (by simp) hpath, List.getLast_concat]
  rw [hhead, hlast]
  exact hedge

/-! ## What the search comes back with -/

/-- A cycle, or a search with the same path after which the nodes lead to no cycle. -/
def Exact (neighbors : α → List α) (s : Search α) (l : List α) : Outcome α → Prop
  | .error cycle => IsCycle neighbors cycle
  | .ok s' => Traced neighbors s' ∧ s'.path = s.path ∧ s.visited ⊆ s'.visited ∧
      ∀ b ∈ l, Ends neighbors b

def Returns (neighbors : α → List α) (s : Search α) (l : List α)
    (result : Option (Outcome α)) : Prop :=
  ∃ outcome, result = some outcome ∧ Exact neighbors s l outcome

theorem Traced.returns (hs : Traced neighbors s) : Returns neighbors s [] (some (.ok s)) :=
  ⟨.ok s, rfl, hs, rfl, Finset.Subset.refl _, fun _ hb => absurd hb List.not_mem_nil⟩

theorem Returns.andThen {b : α} {rest : List α} {result : Option (Outcome α)}
    {next : Search α → Option (Outcome α)} (hresult : Returns neighbors s [b] result)
    (hnext : ∀ s', Traced neighbors s' → s'.path = s.path → s.visited ⊆ s'.visited →
      Returns neighbors s' rest (next s')) :
    Returns neighbors s (b :: rest) (result.bind (andThen next)) := by
  obtain ⟨outcome, rfl, hexact⟩ := hresult
  cases outcome with
  | error cycle => exact ⟨.error cycle, rfl, hexact⟩
  | ok s₁ =>
    obtain ⟨htraced, hpath, hseen, hends⟩ := hexact
    obtain ⟨outcome, hrest, hexact⟩ := hnext s₁ htraced hpath hseen
    refine ⟨outcome, hrest, ?_⟩
    cases outcome with
    | error cycle => exact hexact
    | ok s' =>
      obtain ⟨htraced', hpath', hseen', hends'⟩ := hexact
      refine ⟨htraced', hpath'.trans hpath, Finset.Subset.trans hseen hseen', ?_⟩
      exact List.forall_mem_cons.mpr ⟨hends b List.mem_cons_self, hends'⟩

/-- A node that the search has been through needs no call. -/
theorem Returns.skip {b : α} {rest : List α} {result : Option (Outcome α)}
    (hresult : Returns neighbors s rest result) (hends : Ends neighbors b) :
    Returns neighbors s (b :: rest) result := by
  obtain ⟨outcome, hrest, hexact⟩ := hresult
  refine ⟨outcome, hrest, ?_⟩
  cases outcome with
  | error cycle => exact hexact
  | ok s' => exact ⟨hexact.1, hexact.2.1, hexact.2.2.1,
      List.forall_mem_cons.mpr ⟨hends, hexact.2.2.2⟩⟩

theorem explore_returns {path : List α} (hs : Traced neighbors s) (hpath : s.path = path ++ [node])
    (hl : ∀ b ∈ l, b ∈ neighbors node) (hclosed : ∀ b ∈ neighbors node, b ∈ nodes)
    (hfuel : (nodes \ s.visited).card ≤ fuel)
    (hvisit : ∀ b s', Traced neighbors s' → (∀ last ∈ s'.path.getLast?, b ∈ neighbors last) →
      b ∈ nodes → b ∉ s'.visited → (nodes \ s'.visited).card ≤ fuel →
        Returns neighbors s' [b] (visit b s')) :
    Returns neighbors s l (explore visit l s) := by
  induction l generalizing s with
  | nil => exact hs.returns
  | cons neighbor rest ih =>
    have hedge : neighbor ∈ neighbors node := hl neighbor List.mem_cons_self
    have hrest : ∀ b ∈ rest, b ∈ neighbors node := fun b hb => hl b (List.mem_cons_of_mem _ hb)
    rw [explore]
    split
    case isTrue hnew =>
      have hcall : Returns neighbors s [neighbor] (visit neighbor s) := by
        refine hvisit neighbor s hs ?_ (hclosed neighbor hedge) hnew hfuel
        intro last hlast
        rw [hpath, List.getLast?_concat, Option.mem_some_iff] at hlast
        rw [← hlast]
        exact hedge
      refine hcall.andThen fun s' hs' hpath' hseen => ih hs' (hpath'.trans hpath) hrest ?_
      exact Nat.le_trans
        (Finset.card_le_card (Finset.sdiff_subset_sdiff (Finset.Subset.refl _) hseen)) hfuel
    case isFalse hnew =>
      split
      case isTrue hstack =>
        obtain ⟨cycleStart, hfound, hcycle⟩ := hs.isCycle hpath hedge hstack
        rw [hfound, Option.map_some]
        exact ⟨_, rfl, hcycle⟩
      case isFalse hstack =>
        rw [hs.stack, List.mem_toFinset] at hstack
        exact (ih hs hpath hrest hfuel).skip (hs.ends neighbor (not_not.mp hnew) hstack)

/-- Each call sees a node more, so as much fuel as there are nodes left is enough. -/
theorem dfs_returns (hclosed : ∀ a, ∀ b ∈ neighbors a, b ∈ nodes) (hs : Traced neighbors s)
    (hedge : ∀ last ∈ s.path.getLast?, node ∈ neighbors last) (hnode : node ∈ nodes)
    (hnew : node ∉ s.visited) (hfuel : (nodes \ s.visited).card ≤ fuel) :
    Returns neighbors s [node] (dfs neighbors fuel node s) := by
  induction fuel generalizing node s with
  | zero =>
    have hleft : node ∈ nodes \ s.visited := Finset.mem_sdiff.mpr ⟨hnode, hnew⟩
    have hpos : 0 < (nodes \ s.visited).card := Finset.card_pos.mpr ⟨node, hleft⟩
    omega
  | succ fuel ih =>
    have hless : (nodes \ (s.enter node).visited).card < (nodes \ s.visited).card := by
      refine Finset.card_lt_card (Finset.ssubset_iff_of_subset ?_ |>.mpr ⟨node, ?_, ?_⟩)
      · exact Finset.sdiff_subset_sdiff (Finset.Subset.refl _) (Finset.subset_insert node s.visited)
      · exact Finset.mem_sdiff.mpr ⟨hnode, hnew⟩
      · exact fun hmem => (Finset.mem_sdiff.mp hmem).2 (Finset.mem_insert_self node s.visited)
    have hloop : Returns neighbors (s.enter node) (neighbors node)
        (explore (dfs neighbors fuel) (neighbors node) (s.enter node)) :=
      explore_returns (hs.enter hnew hedge) rfl (fun b hb => hb) (hclosed node) (by omega)
        fun b s' hs' hedge' hb hunseen hleft => ih hs' hedge' hb hunseen hleft
    obtain ⟨outcome, hexplore, hexact⟩ := hloop
    rw [dfs, hexplore, Option.map_some]
    refine ⟨_, rfl, ?_⟩
    cases outcome with
    | error cycle => exact hexact
    | ok s₁ =>
      obtain ⟨htraced, hpath, hseen, hends⟩ := hexact
      obtain ⟨hleave, hback⟩ := htraced.leave hpath hends
      refine ⟨hleave, hback, Finset.Subset.trans (Finset.subset_insert node s.visited) hseen, ?_⟩
      intro b hb
      rw [List.mem_singleton.mp hb]
      exact Acc.intro node fun next hnext => hends next hnext

theorem searchAll_returns (hclosed : ∀ a, ∀ b ∈ neighbors a, b ∈ nodes) (hs : Traced neighbors s)
    (hstart : s.path = []) (hl : ∀ b ∈ l, b ∈ nodes) (hfuel : nodes.card ≤ fuel) :
    Returns neighbors s l (searchAll neighbors fuel l s) := by
  induction l generalizing s with
  | nil => exact hs.returns
  | cons root rest ih =>
    have hrest : ∀ b ∈ rest, b ∈ nodes := fun b hb => hl b (List.mem_cons_of_mem _ hb)
    rw [searchAll]
    split
    case isTrue hnew =>
      have hleft : (nodes \ s.visited).card ≤ fuel :=
        Nat.le_trans (Finset.card_le_card Finset.sdiff_subset) hfuel
      have hcall : Returns neighbors s [root] (dfs neighbors fuel root s) := by
        refine dfs_returns hclosed hs ?_ (hl root List.mem_cons_self) hnew hleft
        rw [hstart]
        exact fun last hlast => absurd hlast (by simp)
      exact hcall.andThen fun s' hs' hpath _ => ih hs' (hpath.trans hstart) hrest
    case isFalse hnew =>
      refine (ih hs hstart hrest).skip (hs.ends root (not_not.mp hnew) ?_)
      rw [hstart]
      exact List.not_mem_nil

/-- A search from all nodes that have neighbours finds a cycle, or there is none. -/
theorem searchAll_exact (hclosed : ∀ a, ∀ b ∈ neighbors a, b ∈ nodes) (hl : ∀ b ∈ l, b ∈ nodes)
    (hroots : ∀ a, neighbors a ≠ [] → a ∈ l) (hfuel : nodes.card ≤ fuel) :
    ∃ outcome, searchAll neighbors fuel l Search.empty = some outcome ∧
      ((∃ s, outcome = .ok s) ↔ Acyclic neighbors) ∧
        ∀ cycle, outcome = .error cycle → IsCycle neighbors cycle := by
  obtain ⟨outcome, hsearch, hexact⟩ := searchAll_returns hclosed traced_empty rfl hl hfuel
  refine ⟨outcome, hsearch, ?_⟩
  cases outcome with
  | error cycle =>
    have hcycle : IsCycle neighbors cycle := hexact
    refine ⟨iff_of_false (by simp) hcycle.not_acyclic, fun cycle' heq => ?_⟩
    rw [← Except.error.inj heq]
    exact hcycle
  | ok s =>
    have hends : ∀ b ∈ l, Ends neighbors b := hexact.2.2.2
    refine ⟨iff_of_true ⟨s, rfl⟩ fun a hloop => ?_, fun cycle heq => absurd heq (by simp)⟩
    obtain ⟨b, hedge, -⟩ := Relation.TransGen.head'_iff.mp hloop
    have hroot : a ∈ l := hroots a (List.ne_nil_of_mem hedge)
    exact (hends a hroot).not_transGen hloop

omit [DecidableEq α] in
/-- Where every edge goes up there is no cycle. -/
theorem acyclic_of_rank {rank : α → Nat} (hrank : ∀ a, ∀ b ∈ neighbors a, rank a < rank b) :
    Acyclic neighbors := by
  intro a hloop
  have hup : ∀ b, Relation.TransGen (fun a b => b ∈ neighbors a) a b → rank a < rank b := by
    intro b hreach
    induction hreach with
    | single hedge => exact hrank a _ hedge
    | tail _ hedge ih => exact Nat.lt_trans ih (hrank _ _ hedge)
  exact Nat.lt_irrefl _ (hup a hloop)

end CycleSearch
end RTDB
