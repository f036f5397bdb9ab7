import Mathlib.Data.List.AList

/-!
# Histories of operations

The operations, results and histories of `jepsen/mod.rs`, and what a checker reports.  `V`
stands for `serde_json::Value` with its equality; of a violation's context and of the
metadata, which the checkers leave empty or only fill in, nothing is kept but the count.
-/

namespace RTDB
namespace Jepsen

abbrev Uuid := Nat

inductive TransactionOp (V : Type) where
  | read (key : String)
  | write (key : String) (value : V)
  deriving DecidableEq, Repr

inductive OperationType (V : Type) where
  | read (key : String)
  | write (key : String) (value : V)
  | cas (key : String) (old new : V)
  | transaction (ops : List (TransactionOp V))
  | append (key : String) (value : V)
  | setAdd (key : String) (element : V)
  | increment (key : String) (delta : Int)
  deriving DecidableEq, Repr

inductive OperationResult (V : Type) where
  | readOk (value : Option V)
  | writeOk
  | casOk (success : Bool)
  | transactionOk (results : List (Option V))
  | appendOk
  | setAddOk
  | incrementOk (value : Int)
  deriving DecidableEq, Repr

/-- An operation completes, if it does, no sooner than it is invoked. -/
structure Operation (V : Type) where
  id : Uuid
  process : Nat
  op : OperationType V
  invokeTime : Nat
  completeTime : Option Nat
  result : Option (OperationResult V)
  error : Option String
  interval : ∀ time ∈ completeTime, invokeTime ≤ time
  deriving DecidableEq

/-- A history; its operations have unique ids. -/
structure History (V : Type) where
  operations : List (Operation V)
  unique : (operations.map Operation.id).Nodup

inductive ConsistencyModel where
  | linearizable
  | linearizability
  | sequential
  | sequentialConsistency
  | strictSerializability
  | serializability
  | eventual
  | causalConsistency
  deriving DecidableEq, Repr

inductive ViolationType where
  | readAfterWrite
  | writeAfterRead
  | concurrentWrites
  | staleRead
  | lostUpdate
  | linearizabilityViolation
  | strictSerializabilityViolation
  | serializabilityViolation
  deriving DecidableEq, Repr

structure Violation where
  violationType : ViolationType
  operations : List Uuid
  description : String
  deriving DecidableEq, Repr

structure CheckerResult where
  valid : Bool
  model : ConsistencyModel
  violations : List Violation
  operationsAnalyzed : Nat
  deriving DecidableEq, Repr

/-- One order in which a hash map may yield its entries. -/
structure Iteration (α β : Type) where
  entries : AList (fun _ : α => β) → List (Sigma fun _ : α => β)
  perm : ∀ map, (entries map).Perm map.entries

def Iteration.forward {α β : Type} : Iteration α β :=
  { entries := AList.entries, perm := fun _ => List.Perm.refl _ }

/-- The map after `map.entry(key).or_default().push(value)`. -/
def pushAt {α β : Type} [DecidableEq α] (map : AList fun _ : α => List β) (key : α) (value : β) :
    AList fun _ : α => List β :=
  map.insert key ((map.lookup key).getD [] ++ [value])

theorem lookup_pushAt {α β : Type} [DecidableEq α] {map : AList fun _ : α => List β} {key a : α}
    {value : β} : ((pushAt map key value).lookup a).getD [] =
      (map.lookup a).getD [] ++ if a = key then [value] else [] := by
  rw [pushAt]
  split
  case isTrue hkey => rw [hkey, AList.lookup_insert, Option.getD_some]
  case isFalse hkey => rw [AList.lookup_insert_ne hkey, List.append_nil]

end Jepsen
end RTDB
