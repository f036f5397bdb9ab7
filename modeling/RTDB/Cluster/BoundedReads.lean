import Mathlib.Data.Fintype.EquivFin
import RTDB.Cluster.ReplicaMaps

/-!
# Reads of bounded staleness

The read balancer of `cluster/replication.rs` goes by the lag that the tracker has stored for
a replica.  A follower's lag is stored when it reports, against the position that the leader
had reported by then; when the leader reports, only its own entry changes.
-/

namespace RTDB
namespace Cluster

open ReplicaTracker Runs

/-! ## Positions and lags -/

namespace ShardReplica

def canServeReads (r : ShardReplica) (maxLagMs : Nat) : Bool :=
  r.isOnline && decide (r.replicationLagMs ≤ maxLagMs)

/-- One sequence number counts as a millisecond; the subtraction saturates. -/
def updateLag (r : ShardReplica) (leaderApplied : Nat) : ShardReplica :=
  if r.role = .leader then { r with replicationLagMs := 0 }
  else { r with replicationLagMs := leaderApplied - r.lastApplied }

def online (isOnline : Bool) (r : ShardReplica) : ShardReplica := { r with isOnline }

def applied (r : ShardReplica) (leaderApplied lastApplied : Nat) : ShardReplica :=
  { r with lastApplied }.updateLag leaderApplied

end ShardReplica

def updateFirst (nodeId : NodeId) (change : ShardReplica → ShardReplica) :
    List ShardReplica → List ShardReplica
  | [] => []
  | r :: replicas =>
    if r.nodeId = nodeId then change r :: replicas else r :: updateFirst nodeId change replicas

def firstOn (nodeId : NodeId) (replicas : List ShardReplica) : Option ShardReplica :=
  replicas.find? fun r => r.nodeId = nodeId

def leaderPosition (replicas : List ShardReplica) : Option Nat :=
  (leaderOf replicas).map ShardReplica.lastApplied

namespace ReplicaTracker

def getLeader (t : ReplicaTracker) (shardId : ShardId) : Option ShardReplica :=
  leaderOf (t.getReplicas shardId)

def changeReplicas (t : ReplicaTracker) (shardId : ShardId)
    (change : List ShardReplica → List ShardReplica) : ReplicaTracker :=
  { t with shardReplicas :=
      Function.update t.shardReplicas shardId ((t.shardReplicas shardId).map change) }

def updateReplicaStatus (t : ReplicaTracker) (shardId : ShardId) (nodeId : NodeId)
    (isOnline : Bool) : ReplicaTracker :=
  t.changeReplicas shardId (updateFirst nodeId (ShardReplica.online isOnline))

def updateReplicationLag (t : ReplicaTracker) (shardId : ShardId) (nodeId : NodeId)
    (lastApplied : Nat) : ReplicaTracker :=
  t.changeReplicas shardId fun replicas =>
    updateFirst nodeId (fun r => r.applied ((leaderPosition replicas).getD 0) lastApplied) replicas

inductive LagCall where
  | register (replica : ShardReplica)
  | status (shardId : ShardId) (nodeId : NodeId) (isOnline : Bool)
  | report (shardId : ShardId) (nodeId : NodeId) (lastApplied : Nat)
  deriving DecidableEq, Repr

def LagCall.perform (t : ReplicaTracker) : LagCall → ReplicaTracker
  | .register replica => t.registerReplica replica
  | .status shardId nodeId isOnline => t.updateReplicaStatus shardId nodeId isOnline
  | .report shardId nodeId lastApplied => t.updateReplicationLag shardId nodeId lastApplied

end ReplicaTracker

/-! ## Selecting -/

/-- The bound is in whole milliseconds. -/
inductive ReadConsistency where
  | strong
  | boundedStaleness (maxLag : Nat)
  | eventual
  | local
  deriving DecidableEq, Repr

structure ReadBalancer where
  replicaTracker : ReplicaTracker
  rrCounters : ShardId → Option Nat

namespace ReadBalancer

def new (replicaTracker : ReplicaTracker) : ReadBalancer :=
  { replicaTracker, rrCounters := fun _ => none }

def getLocalReplica (b : ReadBalancer) (shardId : ShardId) (localNodeId : NodeId)
    (maxLagMs : Nat) : Option ShardReplica :=
  (b.replicaTracker.getReplicas shardId).find? fun r =>
    r.nodeId = localNodeId ∧ r.isOnline = true ∧ r.replicationLagMs ≤ maxLagMs

/-- The counters have 64 bits and wrap. -/
def selectAnyReadable (b : ReadBalancer) (shardId : ShardId) (maxLagMs : Nat) :
    Option ShardReplica × ReadBalancer :=
  let readable := (b.replicaTracker.getReplicas shardId).filter fun r =>
    r.isOnline = true ∧ r.replicationLagMs ≤ maxLagMs
  if readable.isEmpty then (none, b)
  else
    let counter := (b.rrCounters shardId).getD 0
    (readable[counter % readable.length]?,
      { b with rrCounters :=
          Function.update b.rrCounters shardId (some ((counter + 1) % 2 ^ 64)) })

def selectWithin (b : ReadBalancer) (shardId : ShardId) (localNodeId : NodeId) (maxLagMs : Nat) :
    Option ShardReplica × ReadBalancer :=
  match b.getLocalReplica shardId localNodeId maxLagMs with
  | some r => (some r, b)
  | none => b.selectAnyReadable shardId maxLagMs

/-- `as_millis` has 128 bits, and the cast keeps the low 64. -/
def selectReplica (b : ReadBalancer) (shardId : ShardId) (consistency : ReadConsistency)
    (localNodeId : NodeId) : Option ShardReplica × ReadBalancer :=
  match consistency with
  | .strong => (b.replicaTracker.getLeader shardId, b)
  | .boundedStaleness maxLag => b.selectWithin shardId localNodeId (maxLag % 2 ^ 64)
  | .eventual | .local => b.selectWithin shardId localNodeId (2 ^ 64 - 1)

end ReadBalancer

open ReadBalancer

/-! ## What a bounded read is for -/

/-- Whatever selections came before, a replica selected under a bound is online and no farther
behind the leader. -/
def ReadsBounded (t : ReplicaTracker) (shardId : ShardId) : Prop :=
  ∀ (rrCounters : ShardId → Option Nat) (maxLag : Nat) (localNodeId : NodeId) (r : ShardReplica),
    (selectReplica { replicaTracker := t, rrCounters } shardId (.boundedStaleness maxLag)
        localNodeId).1 = some r →
      r.isOnline = true ∧ ∀ leader, t.getLeader shardId = some leader →
        leader.lastApplied ≤ r.lastApplied + maxLag

/-- The stored lag of every follower that may be read accounts for a position of the leader. -/
def Covered (position : Nat) (replicas : List ShardReplica) : Prop :=
  ∀ r ∈ replicas, r.role ≠ .leader → r.canServeReads (2 ^ 64 - 1) = true →
    position ≤ r.lastApplied + r.replicationLagMs

def Current (replicas : List ShardReplica) : Prop :=
  ∀ position ∈ leaderPosition replicas, Covered position replicas

namespace ReplicaTracker.LagCall

/-- A leader is registered only for a shard that has none. -/
def Fits (shardId : ShardId) (t : ReplicaTracker) : LagCall → Prop
  | .register replica => replica.shardId = shardId → replica.role = .leader →
      t.getLeader shardId = none
  | _ => True

/-- The leader comes, and moves, only to positions that the stored lags account for; a follower
comes, and comes back online, only with a lag that accounts for the leader's position. -/
def Keeps (shardId : ShardId) (t : ReplicaTracker) : LagCall → Prop
  | .register replica => replica.shardId = shardId →
      if replica.role = .leader then Covered replica.lastApplied (t.getReplicas shardId)
      else ∀ position ∈ leaderPosition (t.getReplicas shardId), Covered position [replica]
  | .status s nodeId isOnline => s = shardId → isOnline = true →
      ∀ r ∈ firstOn nodeId (t.getReplicas shardId),
        ∀ position ∈ leaderPosition (t.getReplicas shardId), Covered position [r.online isOnline]
  | .report s nodeId lastApplied => s = shardId →
      ∀ r ∈ firstOn nodeId (t.getReplicas shardId), r.role = .leader →
        Covered lastApplied (t.getReplicas shardId)

end ReplicaTracker.LagCall

instance (position : Nat) (replicas : List ShardReplica) : Decidable (Covered position replicas) :=
  inferInstanceAs (Decidable (∀ r ∈ replicas, _ → _ → _))

instance (shardId : ShardId) (t : ReplicaTracker) (call : LagCall) :
    Decidable (call.Fits shardId t) :=
  match call with
  | .register _ => inferInstanceAs (Decidable (_ → _ → _))
  | .status _ _ _ | .report _ _ _ => isTrue trivial

instance (shardId : ShardId) (t : ReplicaTracker) (call : LagCall) :
    Decidable (call.Keeps shardId t) :=
  match call with
  | .register replica => inferInstanceAs (Decidable (replica.shardId = shardId →
      if replica.role = .leader then Covered replica.lastApplied (t.getReplicas shardId)
      else ∀ position ∈ leaderPosition (t.getReplicas shardId), Covered position [replica]))
  | .status s nodeId isOnline => inferInstanceAs (Decidable (s = shardId → isOnline = true →
      ∀ r ∈ firstOn nodeId (t.getReplicas shardId),
        ∀ position ∈ leaderPosition (t.getReplicas shardId), Covered position [r.online isOnline]))
  | .report s nodeId lastApplied => inferInstanceAs (Decidable (s = shardId →
      ∀ r ∈ firstOn nodeId (t.getReplicas shardId), r.role = .leader →
        Covered lastApplied (t.getReplicas shardId)))

/-! ## Selections -/

variable {t : ReplicaTracker} {shardId : ShardId}

/-- A selected replica is one of the shard's, online, and its stored lag is within the bound. -/
theorem selectWithin_spec {b : ReadBalancer} {localNodeId : NodeId} {maxLagMs : Nat}
    {r : ShardReplica} (hr : (b.selectWithin shardId localNodeId maxLagMs).1 = some r) :
    r ∈ b.replicaTracker.getReplicas shardId ∧ r.isOnline = true ∧ r.replicationLagMs ≤ maxLagMs := by
  rw [selectWithin] at hr
  split at hr
  · rename_i own hown
    obtain rfl := Option.some.inj hr
    have hgood := List.find?_some hown
    rw [decide_eq_true_eq] at hgood
    exact ⟨List.mem_of_find?_eq_some hown, hgood.2⟩
  · rw [selectAnyReadable] at hr
    split at hr
    · exact absurd hr (by simp)
    · have hmem := List.mem_filter.mp (List.mem_of_getElem? hr)
      rw [decide_eq_true_eq] at hmem
      exact hmem

/-- Any online replica is selected under a bound that its stored lag is within: for a reader
elsewhere, when the counter has come to it. -/
theorem exists_selection {r : ShardReplica} (hr : r ∈ t.getReplicas shardId)
    (hreadable : r.canServeReads (2 ^ 64 - 1) = true) :
    ∃ rrCounters localNodeId,
      (selectReplica { replicaTracker := t, rrCounters } shardId
        (.boundedStaleness r.replicationLagMs) localNodeId).1 = some r := by
  rw [ShardReplica.canServeReads, Bool.and_eq_true, decide_eq_true_eq] at hreadable
  obtain ⟨elsewhere, helsewhere⟩ :=
    Infinite.exists_notMem_finset ((t.getReplicas shardId).map ShardReplica.nodeId).toFinset
  have hnot : ∀ x ∈ t.getReplicas shardId, x.nodeId ≠ elsewhere := fun x hx heq =>
    helsewhere (List.mem_toFinset.mpr (List.mem_map.mpr ⟨x, hx, heq⟩))
  have hbound : r.replicationLagMs % 2 ^ 64 = r.replicationLagMs := Nat.mod_eq_of_lt (by omega)
  set readable := (t.getReplicas shardId).filter fun x =>
    x.isOnline = true ∧ x.replicationLagMs ≤ r.replicationLagMs with hreadables
  have hin : r ∈ readable :=
    List.mem_filter.mpr ⟨hr, decide_eq_true ⟨hreadable.1, Nat.le_refl _⟩⟩
  obtain ⟨i, hi, hat⟩ := List.getElem_of_mem hin
  refine ⟨fun _ => some i, elsewhere, ?_⟩
  have hnone : getLocalReplica { replicaTracker := t, rrCounters := fun _ => some i } shardId
      elsewhere r.replicationLagMs = none := by
    refine List.find?_eq_none.mpr fun x hx hgood => ?_
    rw [decide_eq_true_eq] at hgood
    exact hnot x hx hgood.1
  have hsome : readable.isEmpty = false := List.isEmpty_eq_false_iff.mpr (List.ne_nil_of_mem hin)
  show (selectWithin _ shardId elsewhere (r.replicationLagMs % 2 ^ 64)).1 = some r
  rw [hbound, selectWithin, hnone]
  show (selectAnyReadable _ shardId r.replicationLagMs).1 = some r
  rw [selectAnyReadable]
  simp only [← hreadables, hsome, Bool.false_eq_true, if_false, Option.getD_some]
  rw [Nat.mod_eq_of_lt hi, List.getElem?_eq_getElem hi, hat]

/-! ## Lists of replicas -/

variable {replicas : List ShardReplica} {nodeId : NodeId} {change : ShardReplica → ShardReplica}

/-- There is one leader at most. -/
def LoneLeader (replicas : List ShardReplica) : Prop :=
  (replicas.map ShardReplica.role).count .leader ≤ 1

theorem updateFirst_cases (nodeId : NodeId) (change : ShardReplica → ShardReplica)
    (replicas : List ShardReplica) :
    (firstOn nodeId replicas = none ∧ updateFirst nodeId change replicas = replicas) ∨
      ∃ front r back, replicas = front ++ r :: back ∧ firstOn nodeId replicas = some r ∧
        updateFirst nodeId change replicas = front ++ change r :: back := by
  induction replicas with
  | nil => exact Or.inl ⟨rfl, rfl⟩
  | cons r replicas ih =>
    rw [firstOn, List.find?_cons, updateFirst]
    by_cases hnode : r.nodeId = nodeId
    · rw [if_pos hnode, decide_eq_true hnode]
      exact Or.inr ⟨[], r, replicas, rfl, rfl, rfl⟩
    · rw [if_neg hnode, decide_eq_false hnode]
      rcases ih with ⟨hnone, hsame⟩ | ⟨front, r', back, hsplit, hfirst, hchange⟩
      · exact Or.inl ⟨hnone, by rw [hsame]⟩
      · exact Or.inr ⟨r :: front, r', back, by rw [hsplit]; rfl, hfirst, by rw [hchange]; rfl⟩

theorem updateFirst_roles (hrole : ∀ r, (change r).role = r.role) (nodeId : NodeId)
    (replicas : List ShardReplica) :
    (updateFirst nodeId change replicas).map ShardReplica.role =
      replicas.map ShardReplica.role := by
  rcases updateFirst_cases nodeId change replicas with ⟨-, hsame⟩ | ⟨front, r, back, hsplit, -, hchange⟩
  · rw [hsame]
  · rw [hchange, hsplit, List.map_append, List.map_append, List.map_cons, List.map_cons, hrole]

theorem applied_role (r : ShardReplica) (leaderApplied lastApplied : Nat) :
    (r.applied leaderApplied lastApplied).role = r.role := by
  rw [ShardReplica.applied, ShardReplica.updateLag]
  split <;> rfl

theorem covered_append {position : Nat} {l l' : List ShardReplica} :
    Covered position (l ++ l') ↔ Covered position l ∧ Covered position l' := by
  rw [Covered, Covered, Covered, List.forall_mem_append]

theorem covered_cons {position : Nat} {r : ShardReplica} {l : List ShardReplica} :
    Covered position (r :: l) ↔ Covered position [r] ∧ Covered position l :=
  covered_append (l := [r])

theorem covered_leader {position : Nat} {r : ShardReplica} (hrole : r.role = .leader) :
    Covered position [r] := by
  intro x hx hfollower
  rw [List.mem_singleton.mp hx] at hfollower
  exact absurd hrole hfollower

/-- The position that a follower's stored lag was taken against is accounted for. -/
theorem covered_applied {r : ShardReplica} (hrole : r.role ≠ .leader) (position lastApplied : Nat) :
    Covered position [r.applied position lastApplied] := by
  intro x hx _ _
  rw [List.mem_singleton.mp hx, ShardReplica.applied, ShardReplica.updateLag, if_neg hrole]
  show position ≤ lastApplied + (position - lastApplied)
  omega

theorem leaderOf_append (l l' : List ShardReplica) :
    leaderOf (l ++ l') = (leaderOf l).or (leaderOf l') := List.find?_append

theorem leaderOf_cons (r : ShardReplica) (l : List ShardReplica) :
    leaderOf (r :: l) = if r.role = .leader then some r else leaderOf l := by
  rw [leaderOf, List.find?_cons]
  by_cases hrole : r.role = .leader
  · rw [decide_eq_true hrole, if_pos hrole]
  · rw [decide_eq_false hrole, if_neg hrole]
    rfl

theorem leaderOf_eq_none_iff : leaderOf replicas = none ↔ .leader ∉ replicas.map ShardReplica.role := by
  rw [leaderOf, List.find?_eq_none, List.mem_map]
  constructor
  · rintro hnone ⟨r, hr, hrole⟩
    exact hnone r hr (decide_eq_true hrole)
  · intro hnone r hr hrole
    exact hnone ⟨r, hr, of_decide_eq_true hrole⟩

theorem LoneLeader.leaderOf_split {front back : List ShardReplica} {r : ShardReplica}
    (hlone : LoneLeader (front ++ r :: back)) (hrole : r.role = .leader) :
    leaderOf (front ++ r :: back) = some r := by
  have hfront : leaderOf front = none := by
    rw [leaderOf_eq_none_iff, ← List.count_pos_iff]
    rw [LoneLeader, List.map_append, List.map_cons, List.count_append, hrole,
      List.count_cons_self] at hlone
    omega
  rw [leaderOf_append, hfront, Option.none_or, leaderOf_cons, if_pos hrole]

/-- A bounded read is right exactly when the stored lags are. -/
theorem readsBounded_iff (hlone : LoneLeader (t.getReplicas shardId)) :
    ReadsBounded t shardId ↔ Current (t.getReplicas shardId) := by
  constructor
  · intro hreads position hposition r hr _ hreadable
    obtain ⟨leader, hleader, rfl⟩ := Option.map_eq_some_iff.mp hposition
    obtain ⟨rrCounters, localNodeId, hselected⟩ := exists_selection hr hreadable
    exact (hreads rrCounters _ localNodeId r hselected).2 leader hleader
  · intro hcurrent rrCounters maxLag localNodeId r hselected
    obtain ⟨hr, honline, hlag⟩ := selectWithin_spec hselected
    have hbound : maxLag % 2 ^ 64 ≤ maxLag := Nat.mod_le _ _
    have hwidth : maxLag % 2 ^ 64 < 2 ^ 64 := Nat.mod_lt _ (by omega)
    refine ⟨honline, fun leader hleader => ?_⟩
    by_cases hrole : r.role = .leader
    · obtain ⟨front, back, hsplit⟩ := List.append_of_mem hr
      replace hleader : leaderOf (t.getReplicas shardId) = some leader := hleader
      rw [show t.getReplicas shardId = front ++ r :: back from hsplit] at hlone hleader
      rw [hlone.leaderOf_split hrole] at hleader
      rw [Option.some.inj hleader]
      omega
    · have hreadable : r.canServeReads (2 ^ 64 - 1) = true := by
        rw [ShardReplica.canServeReads, honline, Bool.true_and, decide_eq_true_eq]
        omega
      have hcovered := hcurrent leader.lastApplied (Option.map_eq_some_iff.mpr ⟨leader, hleader, rfl⟩)
        r hr hrole hreadable
      omega

/-! ## One call -/

theorem changeReplicas_getReplicas {f : List ShardReplica → List ShardReplica} (hnil : f [] = [])
    (s : ShardId) :
    (t.changeReplicas s f).getReplicas shardId =
      if s = shardId then f (t.getReplicas shardId) else t.getReplicas shardId := by
  show (Function.update t.shardReplicas s ((t.shardReplicas s).map f) shardId).getD [] = _
  by_cases hs : s = shardId
  · subst hs
    rw [Function.update_self, if_pos rfl, getReplicas]
    cases t.shardReplicas s with
    | none => exact hnil.symm
    | some replicas => rfl
  · rw [Function.update_of_ne (Ne.symm hs), if_neg hs, getReplicas]

def ReplicaTracker.LagCall.effect (shardId : ShardId) (replicas : List ShardReplica) :
    LagCall → List ShardReplica
  | .register replica => if replica.shardId = shardId then replicas ++ [replica] else replicas
  | .status s nodeId isOnline =>
    if s = shardId then updateFirst nodeId (ShardReplica.online isOnline) replicas else replicas
  | .report s nodeId lastApplied =>
    if s = shardId then
      updateFirst nodeId (fun r => r.applied ((leaderPosition replicas).getD 0) lastApplied) replicas
    else replicas

theorem perform_getReplicas (call : LagCall) :
    (call.perform t).getReplicas shardId = call.effect shardId (t.getReplicas shardId) := by
  cases call with
  | register replica =>
    show (t.registerReplica replica).getReplicas shardId = _
    rw [registerReplica_replicas, LagCall.effect]
    by_cases hs : replica.shardId = shardId
    · rw [if_pos hs.symm, if_pos hs]
    · rw [if_neg (Ne.symm hs), if_neg hs, List.append_nil]
  | status s nodeId isOnline =>
    show (t.changeReplicas s _).getReplicas shardId = _
    rw [changeReplicas_getReplicas (by rfl), LagCall.effect]
  | report s nodeId lastApplied =>
    show (t.changeReplicas s _).getReplicas shardId = _
    rw [changeReplicas_getReplicas (by rfl), LagCall.effect]

theorem loneLeader_perform {call : LagCall} (hlone : LoneLeader (t.getReplicas shardId))
    (hfits : call.Fits shardId t) : LoneLeader ((call.perform t).getReplicas shardId) := by
  rw [perform_getReplicas]
  cases call with
  | register replica =>
    rw [LagCall.effect]
    split
    · rename_i hshard
      rw [LoneLeader, List.map_append, List.count_append, List.map_singleton]
      by_cases hrole : replica.role = .leader
      · have hnone := leaderOf_eq_none_iff.mp (hfits hshard hrole)
        rw [List.count_eq_zero_of_not_mem hnone, hrole]
        exact Nat.le_refl 1
      · rw [List.count_singleton, if_neg (by simpa using hrole)]
        exact hlone
    · exact hlone
  | status s nodeId isOnline =>
    rw [LagCall.effect]
    split
    · have hrole : ∀ r, (ShardReplica.online isOnline r).role = r.role := fun _ => rfl
      rw [LoneLeader, updateFirst_roles hrole]
      exact hlone
    · exact hlone
  | report s nodeId lastApplied =>
    rw [LagCall.effect]
    split
    · rw [LoneLeader, updateFirst_roles fun r => applied_role r _ _]
      exact hlone
    · exact hlone

theorem current_register (replica : ShardReplica) (hcurrent : Current replicas)
    (hfits : replica.role = .leader → leaderOf replicas = none) :
    Current (replicas ++ [replica]) ↔
      if replica.role = .leader then Covered replica.lastApplied replicas
      else ∀ position ∈ leaderPosition replicas, Covered position [replica] := by
  rw [Current, leaderPosition, leaderOf_append, leaderOf_cons]
  by_cases hrole : replica.role = .leader
  · rw [if_pos hrole, if_pos hrole, hfits hrole, Option.none_or]
    constructor
    · exact fun hall => (covered_append.mp (hall _ rfl)).1
    · intro hcovered position hposition
      rw [← Option.some.inj hposition]
      exact covered_append.mpr ⟨hcovered, covered_leader hrole⟩
  · have hnone : leaderOf ([] : List ShardReplica) = none := rfl
    rw [if_neg hrole, if_neg hrole, hnone, Option.or_none]
    refine forall₂_congr fun position hposition => ?_
    rw [covered_append]
    exact and_iff_right (hcurrent position hposition)

theorem leaderPosition_congr {front back : List ShardReplica} {r r' : ShardReplica}
    (hrole : r'.role = r.role) (happlied : r.role = .leader → r'.lastApplied = r.lastApplied) :
    leaderPosition (front ++ r' :: back) = leaderPosition (front ++ r :: back) := by
  rw [leaderPosition, leaderPosition, leaderOf_append, leaderOf_append, leaderOf_cons, leaderOf_cons,
    hrole]
  cases leaderOf front with
  | some leader => rfl
  | none =>
    rw [Option.none_or, Option.none_or]
    by_cases hleads : r.role = .leader
    · rw [if_pos hleads, if_pos hleads, Option.map_some, Option.map_some, happlied hleads]
    · rw [if_neg hleads, if_neg hleads]

/-- A change of one entry that leaves the leader's position alone. -/
theorem current_change {front back : List ShardReplica} {r r' : ShardReplica}
    (hposition : leaderPosition (front ++ r' :: back) = leaderPosition (front ++ r :: back))
    (hcurrent : Current (front ++ r :: back)) :
    Current (front ++ r' :: back) ↔
      ∀ position ∈ leaderPosition (front ++ r :: back), Covered position [r'] := by
  rw [Current, hposition]
  refine forall₂_congr fun position hleader => ?_
  have hold := covered_append.mp (hcurrent position hleader)
  rw [covered_append, covered_cons]
  constructor
  · exact fun h => h.2.1
  · exact fun h => ⟨hold.1, h, (covered_cons.mp hold.2).2⟩

theorem current_status (nodeId : NodeId) (isOnline : Bool) (hcurrent : Current replicas) :
    Current (updateFirst nodeId (ShardReplica.online isOnline) replicas) ↔
      (isOnline = true → ∀ r ∈ firstOn nodeId replicas, ∀ position ∈ leaderPosition replicas,
        Covered position [r.online isOnline]) := by
  rcases updateFirst_cases nodeId (ShardReplica.online isOnline) replicas with
    ⟨hnone, hsame⟩ | ⟨front, r, back, rfl, hfirst, hchange⟩
  · rw [hsame, hnone]
    exact iff_of_true hcurrent fun _ r hr => absurd hr (by simp)
  · have hposition : leaderPosition (front ++ r.online isOnline :: back) =
        leaderPosition (front ++ r :: back) := leaderPosition_congr rfl fun _ => rfl
    rw [hchange, hfirst, current_change hposition hcurrent]
    constructor
    · intro hall _ r' hr'
      rw [← Option.some.inj hr']
      exact hall
    · intro hall position hposition
      by_cases honline : isOnline = true
      · exact hall honline r rfl position hposition
      · intro x hx _ hreadable
        rw [List.mem_singleton.mp hx, ShardReplica.canServeReads, Bool.and_eq_true] at hreadable
        exact absurd hreadable.1 honline

/-- A follower's report sets its lag right; a leader's leaves all lags as they were. -/
theorem current_report (nodeId : NodeId) (lastApplied : Nat) (hlone : LoneLeader replicas)
    (hcurrent : Current replicas) :
    Current (updateFirst nodeId (fun r => r.applied ((leaderPosition replicas).getD 0) lastApplied)
        replicas) ↔
      ∀ r ∈ firstOn nodeId replicas, r.role = .leader → Covered lastApplied replicas := by
  rcases updateFirst_cases nodeId
      (fun r => r.applied ((leaderPosition replicas).getD 0) lastApplied) replicas with
    ⟨hnone, hsame⟩ | ⟨front, r, back, hsplit, hfirst, hchange⟩
  · rw [hsame, hnone]
    exact iff_of_true hcurrent fun r hr => absurd hr (by simp)
  · rw [hchange, hfirst]
    have hrole := applied_role r ((leaderPosition replicas).getD 0) lastApplied
    by_cases hleads : r.role = .leader
    · have hfree : ∀ x : ShardReplica, x.role = .leader → (Covered lastApplied (front ++ x :: back) ↔
          Covered lastApplied front ∧ Covered lastApplied back) := by
        intro x hx
        rw [covered_append, covered_cons, and_iff_right (covered_leader hx)]
      have hlone' : LoneLeader (front ++
          r.applied ((leaderPosition replicas).getD 0) lastApplied :: back) := by
        rw [LoneLeader, List.map_append, List.map_cons, hrole, ← List.map_cons, ← List.map_append,
          ← hsplit]
        exact hlone
      have hposition : (r.applied ((leaderPosition replicas).getD 0) lastApplied).lastApplied =
          lastApplied := by
        rw [ShardReplica.applied, ShardReplica.updateLag]
        split <;> rfl
      rw [Current, leaderPosition, hlone'.leaderOf_split (hrole.trans hleads), Option.map_some,
        hposition]
      constructor
      · intro hall _ _ _
        rw [hsplit, hfree r hleads]
        exact (hfree _ (hrole.trans hleads)).mp (hall lastApplied rfl)
      · intro hall position hleader
        obtain rfl := Option.some.inj hleader
        have hcovered := hall r rfl hleads
        rw [hsplit, hfree r hleads] at hcovered
        exact (hfree _ (hrole.trans hleads)).mpr hcovered
    · refine iff_of_true ?_ fun x hx hxleads => ?_
      · have hsame : leaderPosition (front ++
            r.applied ((leaderPosition replicas).getD 0) lastApplied :: back) =
            leaderPosition (front ++ r :: back) :=
          leaderPosition_congr hrole fun h => absurd h hleads
        rw [hsplit] at hcurrent
        rw [current_change hsame hcurrent, ← hsplit]
        intro position hposition
        rw [hposition, Option.getD_some]
        exact covered_applied hleads position lastApplied
      · rw [← Option.some.inj hx] at hxleads
        exact absurd hxleads hleads

theorem current_perform {call : LagCall} (hlone : LoneLeader (t.getReplicas shardId))
    (hcurrent : Current (t.getReplicas shardId)) (hfits : call.Fits shardId t) :
    Current ((call.perform t).getReplicas shardId) ↔ call.Keeps shardId t := by
  rw [perform_getReplicas]
  cases call with
  | register replica =>
    rw [LagCall.effect, LagCall.Keeps]
    by_cases hshard : replica.shardId = shardId
    · rw [if_pos hshard, current_register replica hcurrent (hfits hshard)]
      exact ⟨fun h _ => h, fun h => h hshard⟩
    · rw [if_neg hshard]
      exact iff_of_true hcurrent fun h => absurd h hshard
  | status s nodeId isOnline =>
    rw [LagCall.effect, LagCall.Keeps]
    by_cases hshard : s = shardId
    · rw [if_pos hshard, current_status nodeId isOnline hcurrent]
      exact ⟨fun h _ => h, fun h => h hshard⟩
    · rw [if_neg hshard]
      exact iff_of_true hcurrent fun h => absurd h hshard
  | report s nodeId lastApplied =>
    rw [LagCall.effect, LagCall.Keeps]
    by_cases hshard : s = shardId
    · rw [if_pos hshard, current_report nodeId lastApplied hlone hcurrent]
      exact ⟨fun h _ => h, fun h => h hshard⟩
    · rw [if_neg hshard]
      exact iff_of_true hcurrent fun h => absurd h hshard

/-! ## Runs -/

def Sound (shardId : ShardId) (t : ReplicaTracker) : Prop :=
  LoneLeader (t.getReplicas shardId) ∧ Current (t.getReplicas shardId)

theorem sound_new (replicationFactor : Nat) (shardId : ShardId) :
    Sound shardId (ReplicaTracker.new replicationFactor) := by
  refine ⟨Nat.zero_le _, fun position hposition => ?_⟩
  replace hposition : (none : Option Nat) = some position := hposition
  exact absurd hposition (by simp)

theorem Sound.readsBounded_perform {call : LagCall} (ht : Sound shardId t)
    (hfits : call.Fits shardId t) :
    ReadsBounded (call.perform t) shardId ↔ call.Keeps shardId t := by
  rw [readsBounded_iff (loneLeader_perform ht.1 hfits), current_perform ht.1 ht.2 hfits]

theorem Sound.perform {call : LagCall} (ht : Sound shardId t) (hfits : call.Fits shardId t)
    (hkeeps : call.Keeps shardId t) : Sound shardId (call.perform t) :=
  ⟨loneLeader_perform ht.1 hfits, (current_perform ht.1 ht.2 hfits).mpr hkeeps⟩

/-- In a run with one leader, bounded reads are right in every state reached exactly when each call
keeps the stored lags current. -/
theorem bounded_staleness_iff (replicationFactor : Nat) (shardId : ShardId) (calls : List LagCall)
    (hone : Each LagCall.perform (fun t call => call.Fits shardId t)
      (ReplicaTracker.new replicationFactor) calls) :
    (∀ before, before <+: calls →
      ReadsBounded (before.foldl LagCall.perform (ReplicaTracker.new replicationFactor)) shardId) ↔
      Each LagCall.perform (fun t call => call.Keeps shardId t)
        (ReplicaTracker.new replicationFactor) calls := by
  have hsound := sound_new replicationFactor shardId
  have hstart := (readsBounded_iff hsound.1).mpr hsound.2
  have hcongr : Each LagCall.perform
      (fun t call => call.Fits shardId t ∧ ReadsBounded (call.perform t) shardId)
        (ReplicaTracker.new replicationFactor) calls ↔
      Each LagCall.perform (fun t call => call.Fits shardId t ∧ call.Keeps shardId t)
        (ReplicaTracker.new replicationFactor) calls :=
    each_congr
      (fun _ _ ht h => ht.perform h.1 ((ht.readsBounded_perform h.1).mp h.2))
      (fun _ _ ht => and_congr_right fun hfits => ht.readsBounded_perform hfits) hsound
  rw [each_and, each_and, and_iff_right hone, and_iff_right hone] at hcongr
  rw [← hcongr]
  exact (each_behind_iff (Q := fun t => ReadsBounded t shardId) hstart).symm

/-- The leader is at 5 when a follower five behind comes, and the follower then reports. -/
def followingCalls : List LagCall :=
  [.register (ShardReplica.newLeader 0 1 "a"), .report 1 "a" 5,
    .register { ShardReplica.newFollower 0 1 "b" with replicationLagMs := 5 }, .report 1 "b" 3]

theorem bounded_staleness_following :
    Each LagCall.perform (fun t call => call.Keeps 1 t) (ReplicaTracker.new 3) followingCalls ∧
      ∀ before, before <+: followingCalls →
        ReadsBounded (before.foldl LagCall.perform (ReplicaTracker.new 3)) 1 := by
  have hkeeps : Each LagCall.perform (fun t call => call.Keeps 1 t) (ReplicaTracker.new 3)
      followingCalls := by
    decide
  exact ⟨hkeeps, (bounded_staleness_iff 3 1 followingCalls (by decide)).mpr hkeeps⟩

def leadingCalls : List LagCall :=
  [.register (ShardReplica.newLeader 0 1 "a"), .register (ShardReplica.newFollower 0 1 "b"),
    .report 1 "a" 100]

/-- The follower is a hundred behind and read under a bound of zero. -/
theorem not_bounded_staleness_leading :
    (selectReplica (ReadBalancer.new (leadingCalls.foldl LagCall.perform (ReplicaTracker.new 3))) 1
        (.boundedStaleness 0) "b").1 = some (ShardReplica.newFollower 0 1 "b") ∧
      ¬∀ before, before <+: leadingCalls →
        ReadsBounded (before.foldl LagCall.perform (ReplicaTracker.new 3)) 1 := by
  have hselected : (selectReplica
      (ReadBalancer.new (leadingCalls.foldl LagCall.perform (ReplicaTracker.new 3))) 1
        (.boundedStaleness 0) "b").1 = some (ShardReplica.newFollower 0 1 "b") := by decide
  refine ⟨hselected, fun hall => ?_⟩
  have hbehind := (hall leadingCalls (List.prefix_refl _) _ 0 "b" _ hselected).2
    { ShardReplica.newLeader 0 1 "a" with lastApplied := 100 } (by decide)
  exact absurd hbehind (by decide)

end Cluster
end RTDB
