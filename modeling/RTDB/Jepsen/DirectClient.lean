import Mathlib.Data.List.Permutation
import RTDB.Jepsen.Types
import RTDB.Lib.Conflict

/-!
# The direct client

The operations of `jepsen/direct_client.rs` as programs on the collection that the clients of
a `DirectClientCluster` share.  A program gets and upserts one vector at a time, and others do
so in between; a key stands for the vector id that it hashes to.

The collection is a map whose gets and upserts are atomic and succeed: an upsert that fails because
its record is over 16 MiB is left out, and so is the moment of a rotation in which a full memtable is
in neither place.
-/

namespace RTDB
namespace Jepsen

open Conflict (Program State Step)

variable {V : Type}

/-- What the client uses of `serde_json::Value`. -/
structure Json (V : Type) where
  null : V
  bool : Bool → V
  asI64 : V → Option Int
  ofI64 : Int → V
  asArray : V → Option (List V)
  ofArray : List V → V

/-- The sum of two `i64`, which wraps. -/
def addI64 (a b : Int) : Int := (a + b).bmod (2 ^ 64)

namespace DirectJepsenClient

section Operations

variable (keyToVectorId : String → UInt64)

def executeRead (key : String) : Program UInt64 V (OperationResult V) := do
  let value ← Program.read (keyToVectorId key)
  pure (.readOk value)

def executeWrite (key : String) (value : V) : Program UInt64 V (OperationResult V) := do
  Program.write (keyToVectorId key) value
  pure .writeOk

variable (json : Json V)

def executeIncrement (key : String) (delta : Int) : Program UInt64 V (OperationResult V) := do
  let readResult ← executeRead keyToVectorId key
  let currentValue :=
    match readResult with
    | .readOk (some v) => (json.asI64 v).getD 0
    | _ => 0
  let newValue := addI64 currentValue delta
  let _ ← executeWrite keyToVectorId key (json.ofI64 newValue)
  pure (.incrementOk newValue)

/-- The list under the key; what is no list counts as an empty one. -/
def listOf (readResult : OperationResult V) : List V :=
  match readResult with
  | .readOk (some v) => (json.asArray v).getD []
  | _ => []

def executeAppend (key : String) (value : V) : Program UInt64 V (OperationResult V) := do
  let readResult ← executeRead keyToVectorId key
  let list := listOf json readResult ++ [value]
  let _ ← executeWrite keyToVectorId key (json.ofArray list)
  pure .appendOk

/-- The operations of a transaction, one after the other, and their results. -/
def executeOps : List (TransactionOp V) → Program UInt64 V (List (Option V))
  | [] => pure []
  | .read key :: ops => do
    let result ← executeRead keyToVectorId key
    let results ← executeOps ops
    match result with
    | .readOk value => pure (value :: results)
    | _ => pure results
  | .write key value :: ops => do
    let _ ← executeWrite keyToVectorId key value
    let results ← executeOps ops
    pure (some (json.bool true) :: results)

def executeTransaction (ops : List (TransactionOp V)) :
    Program UInt64 V (OperationResult V) := do
  let results ← executeOps keyToVectorId json ops
  pure (.transactionOk results)

variable [DecidableEq V]

/-- The swap is made when the value is the old one, or when there is none and the old one is null. -/
def executeCas (key : String) (old new : V) : Program UInt64 V (OperationResult V) := do
  let readResult ← executeRead keyToVectorId key
  let matched :=
    match readResult with
    | .readOk (some current) => decide (current = old)
    | .readOk none => decide (old = json.null)
    | _ => false
  if matched then do
    let _ ← executeWrite keyToVectorId key new
    pure (.casOk true)
  else pure (.casOk false)

/-- Nothing is written when the set has the value. -/
def executeSetAdd (key : String) (value : V) : Program UInt64 V (OperationResult V) := do
  let readResult ← executeRead keyToVectorId key
  let set := listOf json readResult
  if value ∈ set then pure .setAddOk
  else do
    let _ ← executeWrite keyToVectorId key (json.ofArray (set ++ [value]))
    pure .setAddOk

def execute : OperationType V → Program UInt64 V (OperationResult V)
  | .read key => executeRead keyToVectorId key
  | .write key value => executeWrite keyToVectorId key value
  | .cas key old new => executeCas keyToVectorId json key old new
  | .increment key delta => executeIncrement keyToVectorId json key delta
  | .append key value => executeAppend keyToVectorId json key value
  | .setAdd key element => executeSetAdd keyToVectorId json key element
  | .transaction ops => executeTransaction keyToVectorId json ops

end Operations

end DirectJepsenClient

/-! ## The clients of a cluster -/

/-- The collection and the operations under way on it, whichever client they are of. -/
abbrev DirectClientCluster (V : Type) :=
  State (OperationType V) UInt64 V (OperationResult V)

namespace DirectClientCluster

open DirectJepsenClient (execute)

/-- The collection of a new cluster is empty. -/
def new : DirectClientCluster V := State.start fun _ => none

variable [DecidableEq V] {keyToVectorId : String → UInt64} {json : Json V}

/-- In every run no access of which is by an operation that comes before one it clashes with, the
operations are atomic: wherever none under way has written, what they returned and what is stored
is what they do one after the other. -/
theorem operations_atomic {steps : List (Step (OperationType V))} {s : DirectClientCluster V}
    (halong : Runs.Along (State.perform (execute keyToVectorId json)) State.KeepsOrder new steps)
    (hrun : steps.foldlM (State.perform (execute keyToVectorId json)) new = some s)
    (hsettled : s.Settled) :
    ∃ order, order.Perm s.ended ∧
      Linear.Explains (Conflict.alone (execute keyToVectorId json)) s.calls (fun _ => none) order
        s.contents :=
  State.run_explains halong hrun hsettled

/-- Values that are numbers or null, and keys that all have one id. -/
def sampleJson : Json (Option Int) :=
  { null := none, bool := fun _ => none, asI64 := id, ofI64 := some, asArray := fun _ => none
    ofArray := fun _ => none }

/-- An increment under way and a read that goes between its get and its upsert. -/
def sampleOverlap : List (Step (OperationType (Option Int))) :=
  [.invoke (.increment "x" 1), .invoke (.read "x"), .access 0, .access 1, .access 0, .finish 0,
    .finish 1]

def sampleOverlapped : DirectClientCluster (Option Int) :=
  { contents := Function.update (fun _ => none) 0 (some (some 1))
    running :=
      [{ call := { op := .increment "x" 1, invoked := 0, outcome := some (.incrementOk 1, 5) }
         rest := .done (.incrementOk 1) },
        { call := { op := .read "x", invoked := 1, outcome := some (.readOk none, 6) }
          rest := .done (.readOk none) }]
    clock := 7
    trace :=
      [{ time := 2, call := 0, key := 0, action := .got none },
        { time := 3, call := 1, key := 0, action := .got none },
        { time := 4, call := 0, key := 0, action := .put (some 1) }] }

theorem operations_atomic_overlap : ∃ order, order.Perm sampleOverlapped.ended ∧
    Linear.Explains (Conflict.alone (execute (fun _ => 0) sampleJson)) sampleOverlapped.calls
      (fun _ => none) order sampleOverlapped.contents := by
  have hrun : sampleOverlap.foldlM (State.perform (execute (fun _ => 0) sampleJson)) new =
      some sampleOverlapped := rfl
  refine operations_atomic ?_ hrun (by decide)
  refine (Runs.along_cons rfl).mpr ⟨trivial, (Runs.along_cons rfl).mpr ⟨trivial, ?_⟩⟩
  refine (Runs.along_cons rfl).mpr ⟨State.keepsOrder_of_quiet (by decide) (by decide), ?_⟩
  refine (Runs.along_cons rfl).mpr ⟨State.keepsOrder_of_quiet (by decide) (by decide), ?_⟩
  refine (Runs.along_cons rfl).mpr ⟨State.keepsOrder_of_quiet (by decide) (by decide), ?_⟩
  exact (Runs.along_cons rfl).mpr ⟨trivial, (Runs.along_cons rfl).mpr ⟨trivial, trivial⟩⟩

def sampleSteps : List (Step (OperationType (Option Int))) :=
  [.invoke (.increment "x" 1), .invoke (.increment "x" 1), .access 0, .access 1, .access 0,
    .access 1, .finish 0, .finish 1]

/-- The second upsert has gone over the first. -/
def sampleLost : DirectClientCluster (Option Int) :=
  { contents := Function.update (Function.update (fun _ => none) 0 (some (some 1))) 0 (some (some 1))
    running :=
      [{ call := { op := .increment "x" 1, invoked := 0, outcome := some (.incrementOk 1, 6) }
         rest := .done (.incrementOk 1) },
        { call := { op := .increment "x" 1, invoked := 1, outcome := some (.incrementOk 1, 7) }
          rest := .done (.incrementOk 1) }]
    clock := 8
    trace :=
      [{ time := 2, call := 0, key := 0, action := .got none },
        { time := 3, call := 1, key := 0, action := .got none },
        { time := 4, call := 0, key := 0, action := .put (some 1) },
        { time := 5, call := 1, key := 0, action := .put (some 1) }] }

theorem run_sampleSteps :
    sampleSteps.foldlM (State.perform (execute (fun _ => 0) sampleJson)) new = some sampleLost :=
  rfl

/-- Whichever increment comes second returns 2. -/
theorem sampleLost_not_explained (order : List Nat) (hperm : order.Perm sampleLost.ended) :
    ¬Linear.Explains (Conflict.alone (execute (fun _ => 0) sampleJson)) sampleLost.calls
      (fun _ => none) order sampleLost.contents := by
  intro hexplains
  have horder : order = [0, 1] ∨ order = [1, 0] := by
    have hmem : order ∈ [0, 1].permutations' := List.mem_permutations'.mpr hperm
    simpa [List.permutations'] using hmem
  have hserves := hexplains.serves
  rcases horder with rfl | rfl
  all_goals
    obtain ⟨_, ⟨first, hfirst, -, rfl⟩, _, ⟨second, hsecond, hresult, -⟩, -⟩ := hserves
    obtain rfl := Option.some.inj hfirst
    obtain rfl := Option.some.inj hsecond
    exact absurd (hresult _ rfl) (by decide)

/-- Two increments get the value before either has upserted its own, and both return 1. -/
theorem not_operations_atomic_increment :
    ¬∀ (steps : List (Step (OperationType (Option Int))))
      (s : DirectClientCluster (Option Int)),
      steps.foldlM (State.perform (execute (fun _ => 0) sampleJson)) new = some s → s.Settled →
        ∃ order, order.Perm s.ended ∧
          Linear.Explains (Conflict.alone (execute (fun _ => 0) sampleJson)) s.calls
            (fun _ => none) order s.contents := by
  intro hall
  obtain ⟨order, hperm, hexplains⟩ := hall sampleSteps sampleLost run_sampleSteps (by decide)
  exact sampleLost_not_explained order hperm hexplains

end DirectClientCluster

end Jepsen
end RTDB
