import Mathlib.Data.String.Basic
import Mathlib.Order.Nat
import RTDB.Lib.SortedMap

/-!
# Cross-region replication

`replication/cross_region.rs`.  Each region counts its own operations in a vector clock,
logs the operations it knows, and resolves an incoming operation against the logged ones
that are concurrent with it and affect the same resource.
-/

namespace RTDB
namespace Replication

/-! ## Vector clocks -/

structure VectorClock where
  clocks : SortedMap String Nat
  deriving DecidableEq

inductive VectorClockOrdering where
  | less
  | greater
  | equal
  | concurrent
  deriving DecidableEq, Repr

namespace VectorClock

def new : VectorClock := { clocks := SortedMap.empty }

/-- The count of a node; zero where the clock has none. -/
def time (c : VectorClock) (nodeId : String) : Nat := (c.clocks.get? nodeId).getD 0

/-- The counts have 64 bits. -/
def increment (c : VectorClock) (nodeId : String) : VectorClock :=
  { clocks := c.clocks.insert nodeId ((c.time nodeId + 1) % 2 ^ 64) }

def update (c other : VectorClock) : VectorClock :=
  other.clocks.entries.foldl
    (fun c e => { clocks := c.clocks.insert e.1 (max (c.time e.1) e.2) }) c

def allNodes (c other : VectorClock) : List String :=
  c.clocks.entries.map Prod.fst ++ other.clocks.entries.map Prod.fst

def compare (c other : VectorClock) : VectorClockOrdering :=
  let selfGreater := (c.allNodes other).any fun n => other.time n < c.time n
  let otherGreater := (c.allNodes other).any fun n => c.time n < other.time n
  match selfGreater, otherGreater with
  | true, false => .greater
  | false, true => .less
  | false, false => .equal
  | true, true => .concurrent

end VectorClock

/-! ## Operations -/

inductive OperationType where
  | insert
  | update
  | delete
  | createCollection
  | deleteCollection
  deriving DecidableEq, Repr

structure ReplicatedOperation where
  id : Nat
  operationType : OperationType
  data : List UInt8
  vectorClock : VectorClock
  timestamp : Nat
  region : String
  deriving DecidableEq

inductive ReplicationError where
  | regionNotFound (region : String)
  | conflictResolutionFailed (reason : String)
  deriving DecidableEq, Repr

inductive ConflictResolution where
  | lastWriterWins
  | firstWriterWins
  | vectorClockMerge
  | customResolver (name : String)
  deriving DecidableEq, Repr

/-- The part of a region's configuration that resolution reads. -/
structure RegionConfig where
  regionId : String
  conflictResolution : ConflictResolution
  deriving DecidableEq, Repr

/-- A resolver registered under a name. -/
abbrev CustomResolver :=
  ReplicatedOperation → List ReplicatedOperation → Except ReplicationError ReplicatedOperation

/-- A replicator without its channels, and with the operations passed to
`apply_operation`, which the source only logs. -/
structure CrossRegionReplicator where
  localRegion : String
  regions : String → Option RegionConfig
  vectorClock : VectorClock
  operationLog : List ReplicatedOperation
  customResolvers : String → Option CustomResolver
  applied : List ReplicatedOperation

namespace CrossRegionReplicator

def new (localRegion : String) : CrossRegionReplicator :=
  { localRegion, regions := fun _ => none, vectorClock := VectorClock.new, operationLog := []
    customResolvers := fun _ => none, applied := [] }

def addRegion (s : CrossRegionReplicator) (config : RegionConfig) : CrossRegionReplicator :=
  { s with regions := Function.update s.regions config.regionId (some config) }

def incrementClock (s : CrossRegionReplicator) : CrossRegionReplicator :=
  { s with vectorClock := s.vectorClock.increment s.localRegion }

/-- A local operation with the clock as it is. -/
def makeOperation (s : CrossRegionReplicator) (id now : Nat) (operationType : OperationType)
    (data : List UInt8) : ReplicatedOperation :=
  { id, operationType, data, vectorClock := s.vectorClock, timestamp := now, region := s.localRegion }

def logOperation (s : CrossRegionReplicator) (op : ReplicatedOperation) : CrossRegionReplicator :=
  { s with operationLog := s.operationLog ++ [op] }

/-- A call that nothing interrupts; the operation goes out to the other regions. -/
def replicateOperation (s : CrossRegionReplicator) (id now : Nat) (operationType : OperationType)
    (data : List UInt8) : CrossRegionReplicator × ReplicatedOperation :=
  let s' := s.incrementClock
  let op := s'.makeOperation id now operationType data
  (s'.logOperation op, op)

end CrossRegionReplicator

/-! ## Conflicts -/

def sameResource (data1 data2 : List UInt8) : Bool := data1 = data2

def operationsConflict (op1 op2 : ReplicatedOperation) : Bool :=
  match op1.operationType, op2.operationType with
  | .update, .update => sameResource op1.data op2.data
  | .update, .delete => sameResource op1.data op2.data
  | .delete, .update => sameResource op1.data op2.data
  | .delete, .delete => sameResource op1.data op2.data
  | _, _ => false

def inConflict (op existing : ReplicatedOperation) : Bool :=
  op.vectorClock.compare existing.vectorClock = .concurrent && operationsConflict op existing

def latest (op : ReplicatedOperation) (conflicts : List ReplicatedOperation) : ReplicatedOperation :=
  conflicts.foldl (fun latestOp conflict =>
    if latestOp.timestamp < conflict.timestamp then conflict else latestOp) op

def earliest (op : ReplicatedOperation) (conflicts : List ReplicatedOperation) :
    ReplicatedOperation :=
  conflicts.foldl (fun earliestOp conflict =>
    if conflict.timestamp < earliestOp.timestamp then conflict else earliestOp) op

def mergeOperationData (op : ReplicatedOperation) (conflicts : List ReplicatedOperation) :
    List UInt8 :=
  match op.operationType with
  | .insert => (latest op conflicts).data
  | .update => op.data
  | .delete => op.data
  | _ => op.data

def mergeOperations (id now : Nat) (op : ReplicatedOperation)
    (conflicts : List ReplicatedOperation) : ReplicatedOperation :=
  { id, operationType := op.operationType, data := mergeOperationData op conflicts
    vectorClock := conflicts.foldl (fun clock conflict => clock.update conflict.vectorClock)
      op.vectorClock
    timestamp := now, region := "merged" }

namespace CrossRegionReplicator

def detectConflicts (s : CrossRegionReplicator) (op : ReplicatedOperation) :
    List ReplicatedOperation := s.operationLog.filter (inConflict op)

def resolveCustom (s : CrossRegionReplicator) (op : ReplicatedOperation)
    (conflicts : List ReplicatedOperation) (name : String) :
    Except ReplicationError ReplicatedOperation :=
  match s.customResolvers name with
  | some resolver => resolver op conflicts
  | none => .error (.conflictResolutionFailed s!"Custom resolver '{name}' not found")

def resolveConflicts (s : CrossRegionReplicator) (id now : Nat) (op : ReplicatedOperation)
    (conflicts : List ReplicatedOperation) : Except ReplicationError ReplicatedOperation :=
  match s.regions s.localRegion with
  | none => .error (.regionNotFound s.localRegion)
  | some localConfig =>
    match localConfig.conflictResolution with
    | .lastWriterWins => .ok (latest op conflicts)
    | .firstWriterWins => .ok (earliest op conflicts)
    | .vectorClockMerge => .ok (mergeOperations id now op conflicts)
    | .customResolver name => s.resolveCustom op conflicts name

def updateClock (s : CrossRegionReplicator) (op : ReplicatedOperation) : CrossRegionReplicator :=
  { s with vectorClock := s.vectorClock.update op.vectorClock }

def applyOperation (s : CrossRegionReplicator) (op : ReplicatedOperation) : CrossRegionReplicator :=
  { s with applied := s.applied ++ [op] }

/-- A call that nothing interrupts.  An operation whose conflicts cannot be resolved is
not logged. -/
def handleReplicatedOperation (s : CrossRegionReplicator) (id now : Nat)
    (op : ReplicatedOperation) : CrossRegionReplicator × Except ReplicationError Unit :=
  let s := s.updateClock op
  let conflicts := s.detectConflicts op
  if conflicts.isEmpty then ((s.applyOperation op).logOperation op, .ok ())
  else
    match s.resolveConflicts id now op conflicts with
    | .error e => (s, .error e)
    | .ok winner => ((s.applyOperation winner).logOperation op, .ok ())

end CrossRegionReplicator

/-! ## Facts about clocks -/

namespace VectorClock

theorem time_increment (c : VectorClock) (nodeId n : String) :
    (c.increment nodeId).time n = if n = nodeId then (c.time nodeId + 1) % 2 ^ 64 else c.time n := by
  rw [time, increment, SortedMap.get?_insert]
  split <;> rfl

/-- No count goes down. -/
theorem time_le_update (c other : VectorClock) (n : String) : c.time n ≤ (c.update other).time n := by
  rw [update]
  induction other.clocks.entries generalizing c with
  | nil => exact Nat.le_refl _
  | cons e entries ih =>
    rw [List.foldl_cons]
    refine Nat.le_trans ?_ (ih _)
    rw [time, time, SortedMap.get?_insert]
    by_cases hn : n = e.1
    · rw [if_pos hn, Option.getD_some, ← hn]
      exact Nat.le_max_left _ _
    · rw [if_neg hn]

theorem mem_of_time_pos {c : VectorClock} {n : String} (hpos : 0 < c.time n) :
    n ∈ c.clocks.entries.map Prod.fst := by
  rw [time] at hpos
  cases hget : c.clocks.get? n with
  | none =>
    rw [hget] at hpos
    exact absurd hpos (Nat.lt_irrefl 0)
  | some v => exact List.mem_map.mpr ⟨(n, v), SortedMap.get?_eq_some.mp hget, rfl⟩

/-- A node that a clock is ahead at is one of its nodes. -/
theorem any_ahead_iff (a b : VectorClock) {nodes : List String}
    (hnodes : ∀ n ∈ a.clocks.entries.map Prod.fst, n ∈ nodes) :
    (nodes.any fun n => b.time n < a.time n) = true ↔ ∃ n, b.time n < a.time n := by
  rw [List.any_eq_true]
  constructor
  · rintro ⟨n, -, hn⟩
    exact ⟨n, of_decide_eq_true hn⟩
  · rintro ⟨n, hn⟩
    have hpos := Nat.lt_of_le_of_lt (Nat.zero_le _) hn
    exact ⟨n, hnodes n (mem_of_time_pos hpos), decide_eq_true hn⟩

/-- Each clock is ahead of the other somewhere. -/
theorem compare_concurrent_iff (a b : VectorClock) :
    a.compare b = .concurrent ↔ (∃ n, b.time n < a.time n) ∧ ∃ n, a.time n < b.time n := by
  have hleft : ((a.allNodes b).any fun n => b.time n < a.time n) = true ↔ ∃ n, b.time n < a.time n :=
    any_ahead_iff a b fun _ hn => List.mem_append_left _ hn
  have hright : ((a.allNodes b).any fun n => a.time n < b.time n) = true ↔ ∃ n, a.time n < b.time n :=
    any_ahead_iff b a fun _ hn => List.mem_append_right _ hn
  rw [← hleft, ← hright, compare]
  cases (a.allNodes b).any fun n => b.time n < a.time n <;>
    cases (a.allNodes b).any fun n => a.time n < b.time n <;> simp

theorem compare_concurrent_symm {a b : VectorClock} (h : a.compare b = .concurrent) :
    b.compare a = .concurrent := by
  rw [compare_concurrent_iff] at h ⊢
  exact h.symm

theorem compare_self (a : VectorClock) : a.compare a = .equal := by
  have hnone : ((a.allNodes a).any fun n => a.time n < a.time n) = false := by
    simp [List.any_eq_false]
  rw [compare, hnone]

end VectorClock

end Replication
end RTDB
