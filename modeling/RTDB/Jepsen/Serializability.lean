import Mathlib.Data.List.NodupEquivFin
import Mathlib.Data.List.Permutation
import RTDB.Jepsen.Types
import RTDB.Lib.CycleSearch

/-!
# The serializability checker

The checker of `jepsen/checkers.rs` draws an edge from a transaction to each later one of the
history that shares a key with it, and looks for a cycle.  The search is exact on every graph, but
all edges of this one go one way.
-/

namespace RTDB
namespace Jepsen

open CycleSearch (Search searchAll searchAll_exact IsCycle Acyclic acyclic_of_rank)

variable {V : Type}

abbrev Graph := AList fun _ : Uuid => List Uuid

structure SerializabilityChecker where
  strict : Bool
  deriving DecidableEq, Repr

namespace SerializabilityChecker

def new : SerializabilityChecker := { strict := false }

end SerializabilityChecker

def TransactionOp.key : TransactionOp V → String
  | .read key => key
  | .write key _ => key

/-- Two transactions depend on each other when they share a key. -/
def hasDependency (op1 op2 : Operation V) : Bool :=
  match op1.op, op2.op with
  | .transaction ops1, .transaction ops2 =>
    (ops1.map TransactionOp.key).any fun key => (ops2.map TransactionOp.key).contains key
  | _, _ => false

/-- The inner loop: the transactions after `op1`. -/
def addDependencies (op1 : Operation V) (later : List (Operation V)) (graph : Graph) : Graph :=
  later.foldl
    (fun graph op2 => if hasDependency op1 op2 then pushAt graph op1.id op2.id else graph) graph

def addAll : List (Operation V) → Graph → Graph
  | [], graph => graph
  | op1 :: later, graph => addAll later (addDependencies op1 later graph)

def buildDependencyGraph (ops : List (Operation V)) : Graph := addAll ops ∅

def neighbors (graph : Graph) (node : Uuid) : List Uuid := (graph.lookup node).getD []

def nodes (graph : Graph) : List Uuid := graph.keys ++ graph.entries.flatMap Sigma.snd

/-- `find_cycle` with `dfs_cycle`; nested calls are at different nodes, so their number bounds
the depth. -/
def findCycle (it : Iteration Uuid (List Uuid)) (graph : Graph) : Option (Option (List Uuid)) :=
  (searchAll (neighbors graph) (nodes graph).length ((it.entries graph).map Sigma.fst)
    Search.empty).map fun outcome =>
      match outcome with
      | .error cycle => some cycle
      | .ok _ => none

def Operation.isTransaction (op : Operation V) : Bool :=
  match op.op with
  | .transaction _ => true
  | _ => false

namespace SerializabilityChecker

def violation (c : SerializabilityChecker) (cycle : List Uuid) : Violation :=
  { violationType := if c.strict then .strictSerializabilityViolation else .serializabilityViolation
    operations := cycle
    description := "Cycle detected in transaction dependency graph" }

def findSerializabilityViolations (c : SerializabilityChecker) (it : Iteration Uuid (List Uuid))
    (ops : List (Operation V)) : Option (List Violation) :=
  (findCycle it (buildDependencyGraph ops)).map fun cycle => cycle.toList.map c.violation

def check (c : SerializabilityChecker) (it : Iteration Uuid (List Uuid)) (h : History V) :
    Option CheckerResult :=
  let txnOps := h.operations.filter fun op => op.isTransaction && op.completeTime.isSome
  (c.findSerializabilityViolations it txnOps).map fun violations =>
    { valid := violations.isEmpty
      model := if c.strict then .strictSerializability else .serializability
      violations
      operationsAnalyzed := txnOps.length }

end SerializabilityChecker

/-! ## What the checker is for -/

/-- The operations of a committed transaction, each with what it returned. -/
def Operation.committed (op : Operation V) : Option (List (TransactionOp V × Option V)) :=
  match op.op, op.completeTime, op.result with
  | .transaction ops, some _, some (.transactionOk results) => some (ops.zip results)
  | _, _, _ => none

/-- One operation on a store, if that is what it returned. -/
def serve [DecidableEq V] (store : String → Option V) :
    TransactionOp V × Option V → Option (String → Option V)
  | (.read key, returned) => if store key = returned then some store else none
  | (.write key value, _) => some (Function.update store key (some value))

/-- Some serial order of the committed transactions explains what they read. -/
def History.Serializable [DecidableEq V] (initial : String → Option V) (h : History V) : Prop :=
  ∃ order : List (List (TransactionOp V × Option V)),
    order.Perm (h.operations.filterMap Operation.committed) ∧
      (order.flatten.foldlM serve initial).isSome = true

instance [DecidableEq V] (initial : String → Option V) (h : History V) :
    Decidable (h.Serializable initial) :=
  decidable_of_iff
    (∃ order ∈ (h.operations.filterMap Operation.committed).permutations',
      (order.flatten.foldlM serve initial).isSome = true)
    (exists_congr fun _ => and_congr_left fun _ => List.mem_permutations')

/-! ## The graph -/

variable {ops later : List (Operation V)} {op1 : Operation V} {graph : Graph} {a b : Uuid}

theorem neighbors_pushAt (key value : Uuid) :
    neighbors (pushAt graph key value) a = neighbors graph a ++ if a = key then [value] else [] :=
  lookup_pushAt

theorem mem_addDependencies : b ∈ neighbors (addDependencies op1 later graph) a ↔
    b ∈ neighbors graph a ∨
      (a = op1.id ∧ ∃ op2 ∈ later, hasDependency op1 op2 = true ∧ op2.id = b) := by
  induction later generalizing graph with
  | nil => simp [addDependencies]
  | cons op2 later ih =>
    have hstep : addDependencies op1 (op2 :: later) graph =
        addDependencies op1 later
          (if hasDependency op1 op2 then pushAt graph op1.id op2.id else graph) := rfl
    rw [hstep, ih]
    split
    case isTrue hdep =>
      rw [neighbors_pushAt, List.mem_append]
      by_cases ha : a = op1.id
      · simp only [ha, if_true, List.mem_singleton, true_and, List.exists_mem_cons_iff, hdep]
        rw [or_assoc, eq_comm]
      · simp only [ha, if_false, List.not_mem_nil, false_and, or_false]
    case isFalse hdep =>
      simp only [List.exists_mem_cons_iff, hdep, Bool.false_eq_true, false_and, false_or]

/-- An edge goes from a transaction to a later one that depends on it. -/
theorem mem_addAll : b ∈ neighbors (addAll ops graph) a ↔
    b ∈ neighbors graph a ∨
      ∃ op1 op2, [op1, op2].Sublist ops ∧ hasDependency op1 op2 = true ∧ op1.id = a ∧ op2.id = b := by
  induction ops generalizing graph with
  | nil => simp [addAll]
  | cons op later ih =>
    rw [addAll, ih, mem_addDependencies, or_assoc]
    refine or_congr_right ⟨?_, ?_⟩
    · rintro (⟨rfl, op2, hop2, hdep, rfl⟩ | ⟨op1, op2, hsub, hdep⟩)
      · exact ⟨op, op2, (List.singleton_sublist.mpr hop2).cons_cons op, hdep, rfl, rfl⟩
      · exact ⟨op1, op2, hsub.cons op, hdep⟩
    · rintro ⟨op1, op2, hsub, hdep, rfl, rfl⟩
      cases hsub with
      | cons _ hrest => exact Or.inr ⟨op1, op2, hrest, hdep, rfl, rfl⟩
      | cons_cons _ hrest => exact Or.inl ⟨rfl, op2, List.singleton_sublist.mp hrest, hdep, rfl⟩

theorem mem_buildDependencyGraph : b ∈ neighbors (buildDependencyGraph ops) a ↔
    ∃ op1 op2, [op1, op2].Sublist ops ∧ hasDependency op1 op2 = true ∧ op1.id = a ∧ op2.id = b := by
  rw [buildDependencyGraph, mem_addAll]
  exact or_iff_right (by simp [neighbors])

/-- Edges go from earlier to later ids. -/
theorem dependency_later (hunique : (ops.map Operation.id).Nodup)
    (hedge : b ∈ neighbors (buildDependencyGraph ops) a) :
    (ops.map Operation.id).idxOf a < (ops.map Operation.id).idxOf b := by
  obtain ⟨op1, op2, hsub, -, rfl, rfl⟩ := mem_buildDependencyGraph.mp hedge
  have hpair : (ops.map Operation.id).Pairwise fun a b =>
      (ops.map Operation.id).idxOf a < (ops.map Operation.id).idxOf b := by
    rw [List.pairwise_iff_getElem]
    intro i j hi hj hij
    rw [hunique.idxOf_getElem i hi, hunique.idxOf_getElem j hj]
    exact hij
  exact List.pairwise_iff_forall_sublist.mp hpair (hsub.map Operation.id)

theorem neighbors_nodes (hedge : b ∈ neighbors graph a) : b ∈ nodes graph := by
  rw [neighbors] at hedge
  cases hlookup : graph.lookup a with
  | none =>
    rw [hlookup] at hedge
    exact absurd hedge List.not_mem_nil
  | some targets =>
    rw [hlookup, Option.getD_some] at hedge
    refine List.mem_append_right _ (List.mem_flatMap.mpr ⟨⟨a, targets⟩, ?_, hedge⟩)
    exact AList.mem_lookup_iff.mp hlookup

/-! ## The search -/

variable {it : Iteration Uuid (List Uuid)}

theorem neighbors_key (hne : neighbors graph a ≠ []) : a ∈ graph.keys := by
  by_contra hkey
  rw [neighbors, AList.lookup_eq_none.mpr hkey, Option.getD_none] at hne
  exact hne rfl

/-- The search of a graph, from its keys in any order. -/
theorem searchGraph_exact (it : Iteration Uuid (List Uuid)) (graph : Graph) :
    ∃ outcome, searchAll (neighbors graph) (nodes graph).length
        ((it.entries graph).map Sigma.fst) Search.empty = some outcome ∧
      ((∃ s, outcome = .ok s) ↔ Acyclic (neighbors graph)) ∧
        ∀ cycle, outcome = .error cycle → IsCycle (neighbors graph) cycle := by
  have hkeys : ∀ b, b ∈ (it.entries graph).map Sigma.fst ↔ b ∈ graph.keys := fun b =>
    ((it.perm graph).map Sigma.fst).mem_iff
  have hclosed : ∀ a, ∀ b ∈ neighbors graph a, b ∈ (nodes graph).toFinset := fun a b hedge =>
    List.mem_toFinset.mpr (neighbors_nodes hedge)
  have hroots : ∀ b ∈ (it.entries graph).map Sigma.fst, b ∈ (nodes graph).toFinset := fun b hb =>
    List.mem_toFinset.mpr (List.mem_append_left _ ((hkeys b).mp hb))
  exact searchAll_exact hclosed hroots (fun a hne => (hkeys a).mpr (neighbors_key hne))
    (List.toFinset_card_le (nodes graph))

/-- The search comes back on every graph, and with a cycle if, and only if, there is one. -/
theorem find_cycle_exact (it : Iteration Uuid (List Uuid)) (graph : Graph) :
    ∃ result, findCycle it graph = some result ∧
      (result = none ↔ Acyclic (neighbors graph)) ∧
        ∀ cycle, result = some cycle → IsCycle (neighbors graph) cycle := by
  obtain ⟨outcome, hsearch, hnone, hcycle⟩ := searchGraph_exact it graph
  rw [findCycle, hsearch, Option.map_some]
  refine ⟨_, rfl, ?_⟩
  cases outcome with
  | error cycle =>
    refine ⟨iff_of_false (by simp) fun hacyclic => ?_, fun cycle' heq => ?_⟩
    · exact absurd (hnone.mpr hacyclic) (by simp)
    · rw [← Option.some.inj heq]
      exact hcycle cycle rfl
  | ok s => exact ⟨iff_of_true rfl (hnone.mp ⟨s, rfl⟩), fun cycle heq => absurd heq (by simp)⟩

theorem findCycle_build (hunique : (ops.map Operation.id).Nodup) :
    findCycle it (buildDependencyGraph ops) = some none := by
  obtain ⟨outcome, hsearch, hnone, -⟩ := searchGraph_exact it (buildDependencyGraph ops)
  obtain ⟨s, rfl⟩ := hnone.mpr (acyclic_of_rank fun a b hedge => dependency_later hunique hedge)
  rw [findCycle, hsearch, Option.map_some]

theorem check_valid (c : SerializabilityChecker) (it : Iteration Uuid (List Uuid)) (h : History V) :
    ∃ result, c.check it h = some result ∧ result.valid = true := by
  have hunique : ((h.operations.filter fun op =>
      op.isTransaction && op.completeTime.isSome).map Operation.id).Nodup :=
    h.unique.sublist (List.filter_sublist.map Operation.id)
  have hnone : c.findSerializabilityViolations it (h.operations.filter fun op =>
      op.isTransaction && op.completeTime.isSome) = some [] := by
    rw [SerializabilityChecker.findSerializabilityViolations, findCycle_build hunique]
    rfl
  refine ⟨_, by rw [SerializabilityChecker.check, hnone, Option.map_some], rfl⟩

/-- The verdict says whether a history is serializable if, and only if, it is. -/
theorem serializability_iff [DecidableEq V] (initial : String → Option V) (c : SerializabilityChecker)
    (it : Iteration Uuid (List Uuid)) (h : History V) :
    ∃ result, c.check it h = some result ∧
      ((result.valid = true ↔ h.Serializable initial) ↔ h.Serializable initial) := by
  obtain ⟨result, hcheck, hvalid⟩ := check_valid c it h
  refine ⟨result, hcheck, ?_⟩
  rw [hvalid]
  simp

/-- Each of two transactions reads the key that the other one writes, before it does. -/
def writeSkew : History Nat :=
  { operations := [
      { id := 1, process := 0, op := .transaction [.read "x", .write "y" 1], invokeTime := 0
        completeTime := some 2, result := some (.transactionOk [none, some 1]), error := none
        interval := by simp },
      { id := 2, process := 1, op := .transaction [.read "y", .write "x" 1], invokeTime := 1
        completeTime := some 3, result := some (.transactionOk [none, some 1]), error := none
        interval := by simp }]
    unique := by decide }

theorem not_serializability_skew :
    ∃ result, SerializabilityChecker.new.check Iteration.forward writeSkew = some result ∧
      result.valid = true ∧ ¬writeSkew.Serializable fun _ => none := by
  obtain ⟨result, hcheck, hvalid⟩ := check_valid SerializabilityChecker.new Iteration.forward writeSkew
  exact ⟨result, hcheck, hvalid, by decide⟩

end Jepsen
end RTDB
