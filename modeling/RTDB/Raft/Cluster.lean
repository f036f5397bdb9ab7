import RTDB.Raft.Node
import Mathlib.Logic.Function.Basic

/-!
# Clusters of nodes

Nodes made by `new_with_conf` from one voter list, and the messages they send.
The network keeps every message ever sent: a delivery leaves it there, so a
message can arrive late, twice, out of order or never.  A run is a list of
events, each one call of one node.
-/

namespace RTDB
namespace Raft

/-- The voters, and what each node is created with.  Zero is no node's id. -/
structure Setup where
  voters : List NodeId
  nonzero : 0 ∉ voters
  config : NodeId → Config
  config_id : ∀ i, (config i).id = i
  boot : NodeId → Env

structure Cluster where
  node : NodeId → RaftNode
  net : List Message

/-- One call of one node.  The clock and the random draw of a call are part of
the event, so every interleaving of time-outs is a run. -/
inductive Event where
  | tick (i : NodeId) (env : Env)
  | deliver (msg : Message) (env : Env)
  | propose (i : NodeId) (data : List UInt8)
  | readIndex (i : NodeId) (ctx : List UInt8)
  | readStates (i : NodeId)
  | ready (i : NodeId)

namespace Cluster

def init (S : Setup) : Cluster :=
  { node := fun i => RaftNode.newWithConf (S.boot i) (S.config i) S.voters, net := [] }

def update (c : Cluster) (i : NodeId) (o : Output) : Cluster :=
  { node := Function.update c.node i o.node, net := c.net ++ o.messages }

def apply (c : Cluster) : Event → Cluster
  | .tick i env => c.update i ((c.node i).tick env).1
  | .deliver msg env => c.update msg.to_ ((c.node msg.to_).step env msg)
  | .propose i data => c.update i { node := ((c.node i).propose data).1 }
  | .readIndex i ctx => c.update i { node := ((c.node i).readIndex ctx).1 }
  | .readStates i => c.update i { node := (c.node i).takeReadStates.1 }
  | .ready i => c.update i { node := (c.node i).takeReady.1, ready := (c.node i).takeReady.2 }

/-- Calls are made on voters; only messages that were sent are delivered. -/
def Enabled (S : Setup) (c : Cluster) : Event → Prop
  | .tick i _ | .propose i _ | .readIndex i _ | .readStates i | .ready i => i ∈ S.voters
  | .deliver msg _ => msg ∈ c.net ∧ msg.to_ ∈ S.voters

instance (S : Setup) (c : Cluster) : (e : Event) → Decidable (Enabled S c e)
  | .tick i _ => inferInstanceAs (Decidable (i ∈ S.voters))
  | .deliver msg _ => inferInstanceAs (Decidable (msg ∈ c.net ∧ msg.to_ ∈ S.voters))
  | .propose i _ => inferInstanceAs (Decidable (i ∈ S.voters))
  | .readIndex i _ => inferInstanceAs (Decidable (i ∈ S.voters))
  | .readStates i => inferInstanceAs (Decidable (i ∈ S.voters))
  | .ready i => inferInstanceAs (Decidable (i ∈ S.voters))

/-! ## Runs -/

def run (c : Cluster) : List Event → Cluster
  | [] => c
  | e :: es => run (c.apply e) es

/-- Every event is enabled where it happens. -/
def Valid (S : Setup) (c : Cluster) : List Event → Prop
  | [] => True
  | e :: es => Enabled S c e ∧ Valid S (c.apply e) es

instance decidableValid (S : Setup) : (es : List Event) → (c : Cluster) → Decidable (Valid S c es)
  | [], _ => isTrue trivial
  | e :: es, c =>
    have := decidableValid S es (c.apply e)
    inferInstanceAs (Decidable (Enabled S c e ∧ Valid S (c.apply e) es))

def after (S : Setup) (es : List Event) (k : Nat) : Cluster := run (init S) (es.take k)

theorem run_append (c : Cluster) (es es' : List Event) :
    c.run (es ++ es') = (c.run es).run es' := by
  induction es generalizing c with
  | nil => rfl
  | cons e rest ih => exact ih (c.apply e)

theorem valid_append {S : Setup} {c : Cluster} {es es' : List Event} :
    Valid S c (es ++ es') ↔ Valid S c es ∧ Valid S (c.run es) es' := by
  induction es generalizing c with
  | nil =>
    show Valid S c es' ↔ True ∧ Valid S c es'
    rw [true_and]
  | cons e rest ih =>
    show Enabled S c e ∧ Valid S (c.apply e) (rest ++ es') ↔
      (Enabled S c e ∧ Valid S (c.apply e) rest) ∧ Valid S ((c.apply e).run rest) es'
    rw [ih, and_assoc]

variable {S : Setup} {es : List Event}

theorem Valid.take (h : Valid S (init S) es) (k : Nat) : Valid S (init S) (es.take k) := by
  rw [← List.take_append_drop k es] at h
  exact (valid_append.mp h).1

theorem after_add (S : Setup) (es : List Event) (k n : Nat) :
    after S es (k + n) = (after S es k).run ((es.drop k).take n) := by
  rw [after, after, List.take_add, run_append]

theorem Valid.segment (h : Valid S (init S) es) (k n : Nat) :
    Valid S (after S es k) ((es.drop k).take n) := by
  have hboth := h.take (k + n)
  rw [List.take_add] at hboth
  exact (valid_append.mp hboth).2

theorem after_succ {k : Nat} (hk : k < es.length) :
    after S es (k + 1) = (after S es k).apply es[k] := by
  rw [after_add, List.drop_eq_getElem_cons hk]
  rfl

theorem Valid.enabled (h : Valid S (init S) es) {k : Nat} (hk : k < es.length) :
    Enabled S (after S es k) es[k] := by
  have hone := h.segment k 1
  rw [List.drop_eq_getElem_cons hk] at hone
  exact hone.1

end Cluster
end Raft
end RTDB
