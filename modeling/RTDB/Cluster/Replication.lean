import RTDB.Cluster.Config
import RTDB.Lib.Quorum
import RTDB.Lib.Runs
import RTDB.Storage.Types

/-!
# Replicated writes

`cluster/replication.rs`.  A write goes to the leader of a shard and then to its online
followers until enough replicas have acknowledged it.  The coordinator counts entries of
the shard's replica list, and the tracker lets a node have several.
-/

namespace RTDB
namespace Cluster

abbrev NodeId := String

inductive ReplicaRole where
  | leader
  | follower
  | learner
  deriving DecidableEq, Repr

structure ShardReplica where
  shardId : ShardId
  nodeId : NodeId
  role : ReplicaRole
  replicationLagMs : Nat
  lastApplied : Nat
  isOnline : Bool
  createdAt : Nat
  deriving DecidableEq, Repr

namespace ShardReplica

def newLeader (now : Nat) (shardId : ShardId) (nodeId : NodeId) : ShardReplica :=
  { shardId, nodeId, role := .leader, replicationLagMs := 0, lastApplied := 0, isOnline := true,
    createdAt := now }

def newFollower (now : Nat) (shardId : ShardId) (nodeId : NodeId) : ShardReplica :=
  { shardId, nodeId, role := .follower, replicationLagMs := 0, lastApplied := 0, isOnline := true,
    createdAt := now }

end ShardReplica

structure ReplicaTracker where
  shardReplicas : ShardId → Option (List ShardReplica)
  nodeShards : NodeId → Option (Finset ShardId)
  replicationFactor : Nat

namespace ReplicaTracker

def new (replicationFactor : Nat) : ReplicaTracker :=
  { shardReplicas := fun _ => none, nodeShards := fun _ => none, replicationFactor }

def getReplicas (t : ReplicaTracker) (shardId : ShardId) : List ShardReplica :=
  (t.shardReplicas shardId).getD []

/-- The node may have a replica of the shard already. -/
def registerReplica (t : ReplicaTracker) (replica : ShardReplica) : ReplicaTracker :=
  { t with
    shardReplicas := Function.update t.shardReplicas replica.shardId
      (some (t.getReplicas replica.shardId ++ [replica]))
    nodeShards := Function.update t.nodeShards replica.nodeId
      (some (insert replica.shardId ((t.nodeShards replica.nodeId).getD ∅))) }

def removeReplica (t : ReplicaTracker) (shardId : ShardId) (nodeId : NodeId) : ReplicaTracker :=
  { t with
    shardReplicas := Function.update t.shardReplicas shardId
      ((t.shardReplicas shardId).map fun replicas => replicas.filter fun r => r.nodeId ≠ nodeId)
    nodeShards := Function.update t.nodeShards nodeId
      ((t.nodeShards nodeId).map fun shards => shards.erase shardId) }

/-- The first candidate leads.  With a replication factor of zero the number of followers
wraps, so all the others follow. -/
def assigned (replicationFactor now : Nat) (shardId : ShardId) : List NodeId → List ShardReplica
  | [] => []
  | leader :: others =>
    let rf := min replicationFactor (others.length + 1)
    ShardReplica.newLeader now shardId leader ::
      (others.take (Storage.wrappingSub rf 1)).map (ShardReplica.newFollower now shardId)

def assignReplicas (t : ReplicaTracker) (now : Nat) (shardId : ShardId)
    (candidateNodes : List NodeId) : ReplicaTracker × List ShardReplica :=
  let replicas := assigned t.replicationFactor now shardId candidateNodes
  (replicas.foldl registerReplica t, replicas)

inductive Call where
  | register (replica : ShardReplica)
  | remove (shardId : ShardId) (nodeId : NodeId)
  | assign (now : Nat) (shardId : ShardId) (candidateNodes : List NodeId)
  deriving DecidableEq, Repr

def Call.perform (t : ReplicaTracker) : Call → ReplicaTracker
  | .register replica => t.registerReplica replica
  | .remove shardId nodeId => t.removeReplica shardId nodeId
  | .assign now shardId candidateNodes => (t.assignReplicas now shardId candidateNodes).1

def perform (t : ReplicaTracker) (calls : List Call) : ReplicaTracker := calls.foldl Call.perform t

end ReplicaTracker

/-! ## Writes -/

inductive WriteConsistency where
  | all
  | quorum
  | one
  | n (k : Nat)
  deriving DecidableEq, Repr

def WriteConsistency.minAcks (replicationFactor : Nat) : WriteConsistency → Nat
  | .all => replicationFactor
  | .quorum => replicationFactor / 2 + 1
  | .one => 1
  | .n k => min k replicationFactor

/-- The errors of a write; `other` stands for what else a client may return. -/
inductive WriteError where
  | storage (msg : String)
  | consensus (msg : String)
  | other (msg : String)
  deriving DecidableEq, Repr

/-- What the nodes answer.  A follower request is told apart by its place among the
requests of the write, since a node may be asked twice. -/
structure ReplicationClient where
  writeToLeader : NodeId → ShardId → List UInt8 → Except WriteError Nat
  replicateToFollower : Nat → NodeId → ShardId → Nat → List UInt8 → Except WriteError Unit

structure WriteResult where
  sequence : Nat
  acknowledged : Nat
  required : Nat
  latencyMs : Nat
  failedNodes : List NodeId
  deriving DecidableEq, Repr

/-- The answers so far: the count and the failures that the coordinator keeps, and the
nodes whose acknowledgement it counted. -/
structure Answers where
  ackCount : Nat
  failedNodes : List NodeId
  acked : List NodeId
  deriving DecidableEq, Repr

abbrev Task := NodeId × Except WriteError Unit

def Answers.record (a : Answers) : Task → Answers
  | (nodeId, .ok _) => { a with ackCount := a.ackCount + 1, acked := a.acked ++ [nodeId] }
  | (nodeId, .error _) => { a with failedNodes := a.failedNodes ++ [nodeId] }

/-- Wait for the tasks one after the other until enough have acknowledged. -/
def awaitTasks (required : Nat) : List Task → Answers → Answers
  | [], a => a
  | task :: tasks, a =>
    if required ≤ (a.record task).ackCount then a.record task
    else awaitTasks required tasks (a.record task)

/-- The first leader of a replica list. -/
def leaderOf (replicas : List ShardReplica) : Option ShardReplica :=
  replicas.find? fun r => r.role = .leader

/-- The nodes that a write is replicated to. -/
def followersOf (replicas : List ShardReplica) : List NodeId :=
  (replicas.filter fun r => r.role = .follower ∧ r.isOnline = true).map ShardReplica.nodeId

def tasksOf (client : ReplicationClient) (shardId : ShardId) (sequence : Nat) (data : List UInt8)
    (followers : List NodeId) : List Task :=
  followers.zipIdx.map fun p => (p.1, client.replicateToFollower p.2 p.1 shardId sequence data)

/-- The leader counts as an acknowledgement. -/
def gatherAnswers (required : Nat) (leader : NodeId) (tasks : List Task) : Answers :=
  let start : Answers := { ackCount := 1, failedNodes := [], acked := [leader] }
  if 1 < required ∧ tasks ≠ [] then awaitTasks required tasks start else start

/-- A write, with the nodes whose acknowledgements were counted. -/
def coordinateWrite (client : ReplicationClient) (latencyMs : Nat) (t : ReplicaTracker)
    (shardId : ShardId) (data : List UInt8) (consistency : WriteConsistency) :
    Except WriteError (WriteResult × List NodeId) :=
  let replicas := t.getReplicas shardId
  if replicas.isEmpty then
    .error (.storage s!"No replicas found for shard {shardId}")
  else
    match leaderOf replicas with
    | none => .error (.consensus s!"No leader found for shard {shardId}")
    | some leader =>
      let required := consistency.minAcks replicas.length
      match client.writeToLeader leader.nodeId shardId data with
      | .error e => .error e
      | .ok sequence =>
        let answers := gatherAnswers required leader.nodeId
          (tasksOf client shardId sequence data (followersOf replicas))
        if required ≤ answers.ackCount then
          .ok ({ sequence, acknowledged := answers.ackCount, required, latencyMs,
                 failedNodes := answers.failedNodes }, answers.acked)
        else
          .error (.storage
            s!"Write failed: only {answers.ackCount} of {required} required acknowledgments received")

/-! ## Acknowledgements -/

/-- Whatever the nodes answer, a write that succeeds was acknowledged by as many
different nodes as it required. -/
def AckedByDistinct (t : ReplicaTracker) (shardId : ShardId) (consistency : WriteConsistency) : Prop :=
  ∀ (client : ReplicationClient) (latencyMs : Nat) (data : List UInt8) (result : WriteResult)
    (acked : List NodeId),
    coordinateWrite client latencyMs t shardId data consistency = .ok (result, acked) →
      result.required ≤ acked.toFinset.card

/-- Whatever the nodes answer, two quorum writes that succeed have a node in common. -/
def QuorumsOverlap (t t' : ReplicaTracker) (shardId : ShardId) : Prop :=
  ∀ (client client' : ReplicationClient) (latencyMs latencyMs' : Nat) (data data' : List UInt8)
    (result result' : WriteResult) (acked acked' : List NodeId),
    coordinateWrite client latencyMs t shardId data .quorum = .ok (result, acked) →
      coordinateWrite client' latencyMs' t' shardId data' .quorum = .ok (result', acked') →
        ∃ nodeId ∈ acked, nodeId ∈ acked'

/-- The replicas whose acknowledgements can make up what a write requires are on
different nodes: it requires one at most, or more than there are, or no follower is on
the leader's node and no two followers are on one, unless two acknowledgements suffice. -/
def DistinctAckers (replicas : List ShardReplica) (consistency : WriteConsistency) : Prop :=
  ∀ leader, leaderOf replicas = some leader →
    consistency.minAcks replicas.length ≤ 1 ∨
      (followersOf replicas).length + 1 < consistency.minAcks replicas.length ∨
      (leader.nodeId ∉ followersOf replicas ∧
        (consistency.minAcks replicas.length = 2 ∨ (followersOf replicas).Nodup))

theorem awaitTasks_acked {required : Nat} (tasks : List Task) {a : Answers}
    (ha : a.ackCount < required) :
    ∃ s : List NodeId, s.Sublist (tasks.map Prod.fst) ∧
      (awaitTasks required tasks a).acked = a.acked ++ s ∧
      (awaitTasks required tasks a).ackCount = a.ackCount + s.length ∧
      (awaitTasks required tasks a).ackCount ≤ required := by
  induction tasks generalizing a with
  | nil => exact ⟨[], List.Sublist.slnil, (List.append_nil _).symm, rfl, Nat.le_of_lt ha⟩
  | cons task tasks ih =>
    obtain ⟨nodeId, answer⟩ := task
    rw [awaitTasks, List.map_cons]
    cases answer with
    | ok u =>
      by_cases henough : required ≤ (a.record (nodeId, .ok u)).ackCount
      · rw [if_pos henough]
        refine ⟨[nodeId], (List.nil_sublist _).cons_cons nodeId, rfl, rfl, ?_⟩
        show a.ackCount + 1 ≤ required
        omega
      · rw [if_neg henough]
        obtain ⟨s, hsub, hacked, hcount, hle⟩ := ih (Nat.lt_of_not_le henough)
        refine ⟨nodeId :: s, hsub.cons_cons nodeId, ?_, ?_, hle⟩
        · rw [hacked, Answers.record, List.append_assoc]
          rfl
        · rw [hcount, List.length_cons]
          show a.ackCount + 1 + s.length = a.ackCount + (s.length + 1)
          omega
    | error e =>
      have hless : ¬required ≤ (a.record (nodeId, .error e)).ackCount := Nat.not_le.mpr ha
      rw [if_neg hless]
      obtain ⟨s, hsub, hacked, hcount, hle⟩ := ih (Nat.lt_of_not_le hless)
      exact ⟨s, hsub.cons nodeId, hacked, hcount, hle⟩

/-- Followers can answer so that any of them, as many as are missing, are counted. -/
theorem exists_tasks (required : Nat) {followers s : List NodeId} (hsub : s.Sublist followers) :
    ∃ tasks : List Task, tasks.map Prod.fst = followers ∧
      ∀ a : Answers, a.ackCount < required → a.ackCount + s.length = required →
        (awaitTasks required tasks a).acked = a.acked ++ s ∧
        (awaitTasks required tasks a).ackCount = required := by
  induction hsub with
  | slnil =>
    refine ⟨[], rfl, fun a hless hcount => ?_⟩
    rw [List.length_nil] at hcount
    omega
  | @cons s followers nodeId hsub ih =>
    obtain ⟨tasks, hfollowers, hrest⟩ := ih
    refine ⟨(nodeId, .error (.other "")) :: tasks, by rw [List.map_cons, hfollowers], ?_⟩
    intro a hless hcount
    have hmore : ¬required ≤ (a.record (nodeId, .error (.other ""))).ackCount := Nat.not_le.mpr hless
    rw [awaitTasks, if_neg hmore]
    exact hrest _ hless hcount
  | @cons_cons s followers nodeId hsub ih =>
    obtain ⟨tasks, hfollowers, hrest⟩ := ih
    refine ⟨(nodeId, .ok ()) :: tasks, by rw [List.map_cons, hfollowers], ?_⟩
    intro a hless hcount
    rw [List.length_cons] at hcount
    rw [awaitTasks]
    have hrecord : (a.record (nodeId, .ok ())).ackCount = a.ackCount + 1 := rfl
    by_cases hlast : s = []
    · subst hlast
      rw [if_pos (hrecord.symm ▸ Nat.le_of_eq hcount.symm)]
      exact ⟨rfl, hcount⟩
    · have hpos := List.length_pos_iff.mpr hlast
      obtain ⟨hacked, htotal⟩ := hrest (a.record (nodeId, .ok ())) (by omega) (by omega)
      rw [if_neg (by omega)]
      refine ⟨?_, htotal⟩
      rw [Answers.record, List.append_assoc] at hacked
      exact hacked

/-- Enough acknowledgements end the waiting at once. -/
theorem gatherAnswers_acked (required : Nat) (leader : NodeId) (tasks : List Task) :
    ∃ s : List NodeId, s.Sublist (tasks.map Prod.fst) ∧
      (gatherAnswers required leader tasks).acked = leader :: s ∧
      (gatherAnswers required leader tasks).ackCount = s.length + 1 ∧
      (1 < required → s.length + 1 ≤ required) := by
  rw [gatherAnswers]
  by_cases hwait : 1 < required ∧ tasks ≠ []
  · obtain ⟨s, hsub, hacked, hcount, hle⟩ :=
      awaitTasks_acked tasks (a := { ackCount := 1, failedNodes := [], acked := [leader] }) hwait.1
    have htotal : 1 + s.length = s.length + 1 := Nat.add_comm 1 s.length
    rw [if_pos hwait]
    exact ⟨s, hsub, hacked, hcount.trans htotal, fun _ => (hcount.trans htotal).symm.trans_le hle⟩
  · rw [if_neg hwait]
    exact ⟨[], List.nil_sublist _, rfl, rfl, fun hmore => Nat.le_of_lt hmore⟩

theorem tasksOf_followers (client : ReplicationClient) (shardId : ShardId) (sequence : Nat)
    (data : List UInt8) (followers : List NodeId) :
    (tasksOf client shardId sequence data followers).map Prod.fst = followers := by
  rw [tasksOf, List.map_map]
  exact List.zipIdx_map_fst 0 followers

/-- A write that the leader takes. -/
theorem coordinateWrite_eq {client : ReplicationClient} {latencyMs : Nat} {t : ReplicaTracker}
    {shardId : ShardId} {data : List UInt8} {consistency : WriteConsistency} {leader : ShardReplica}
    {sequence : Nat} (hleader : leaderOf (t.getReplicas shardId) = some leader)
    (hsequence : client.writeToLeader leader.nodeId shardId data = .ok sequence) :
    let required := consistency.minAcks (t.getReplicas shardId).length
    let answers := gatherAnswers required leader.nodeId
      (tasksOf client shardId sequence data (followersOf (t.getReplicas shardId)))
    coordinateWrite client latencyMs t shardId data consistency =
      if required ≤ answers.ackCount then
        .ok ({ sequence, acknowledged := answers.ackCount, required, latencyMs,
               failedNodes := answers.failedNodes }, answers.acked)
      else
        .error (.storage
          s!"Write failed: only {answers.ackCount} of {required} required acknowledgments received") := by
  have hsome : (t.getReplicas shardId).isEmpty = false := by
    cases hreplicas : t.getReplicas shardId with
    | nil =>
      rw [hreplicas] at hleader
      exact absurd hleader (by simp [leaderOf])
    | cons r replicas => rfl
  simp only [coordinateWrite, hsome, hleader, hsequence, Bool.false_eq_true, if_false]

/-- A write that succeeds has reached a leader. -/
theorem written_of_ok {client : ReplicationClient} {latencyMs : Nat} {t : ReplicaTracker}
    {shardId : ShardId} {data : List UInt8} {consistency : WriteConsistency}
    {answer : WriteResult × List NodeId}
    (hok : coordinateWrite client latencyMs t shardId data consistency = .ok answer) :
    ∃ leader sequence, leaderOf (t.getReplicas shardId) = some leader ∧
      client.writeToLeader leader.nodeId shardId data = .ok sequence := by
  cases hleader : leaderOf (t.getReplicas shardId) with
  | none =>
    simp only [coordinateWrite, hleader] at hok
    split at hok <;> exact absurd hok (by simp)
  | some leader =>
    cases hsequence : client.writeToLeader leader.nodeId shardId data with
    | error e =>
      simp only [coordinateWrite, hleader, hsequence] at hok
      split at hok <;> exact absurd hok (by simp)
    | ok sequence => exact ⟨leader, sequence, rfl, hsequence⟩

theorem coordinateWrite_ok {client : ReplicationClient} {latencyMs : Nat} {t : ReplicaTracker}
    {shardId : ShardId} {data : List UInt8} {consistency : WriteConsistency} {result : WriteResult}
    {acked : List NodeId}
    (hok : coordinateWrite client latencyMs t shardId data consistency = .ok (result, acked)) :
    ∃ leader s, leaderOf (t.getReplicas shardId) = some leader ∧
      result.required = consistency.minAcks (t.getReplicas shardId).length ∧
      acked = leader.nodeId :: s ∧ s.Sublist (followersOf (t.getReplicas shardId)) ∧
      result.required ≤ s.length + 1 ∧ (1 < result.required → s.length + 1 = result.required) := by
  obtain ⟨leader, sequence, hleader, hsequence⟩ := written_of_ok hok
  rw [coordinateWrite_eq hleader hsequence] at hok
  obtain ⟨s, hsub, hacked, hcount, hle⟩ := gatherAnswers_acked
    (consistency.minAcks (t.getReplicas shardId).length) leader.nodeId
    (tasksOf client shardId sequence data (followersOf (t.getReplicas shardId)))
  rw [tasksOf_followers] at hsub
  split at hok
  case isTrue henough =>
    obtain ⟨hresult, hacks⟩ := Prod.mk.inj (Except.ok.inj hok)
    rw [hcount] at henough
    subst hresult
    exact ⟨leader, s, hleader, rfl, hacks.symm.trans hacked, hsub, henough,
      fun hmore => Nat.le_antisymm (hle hmore) henough⟩
  case isFalse => exact absurd hok (by simp)

/-! ## Distinct nodes -/

theorem card_lt_of_repeats {l : List NodeId} (hrepeats : ¬l.Nodup) : l.toFinset.card < l.length := by
  rw [List.card_toFinset]
  refine Nat.lt_of_le_of_ne l.dedup_sublist.length_le fun hlen => hrepeats ?_
  rw [← l.dedup_sublist.eq_of_length hlen]
  exact l.nodup_dedup

theorem ackedByDistinct_of_distinctAckers {t : ReplicaTracker} {shardId : ShardId}
    {consistency : WriteConsistency}
    (hdistinct : DistinctAckers (t.getReplicas shardId) consistency) :
    AckedByDistinct t shardId consistency := by
  intro client latencyMs data result acked hok
  obtain ⟨leader, s, hleader, hrequired, rfl, hsub, henough, hexact⟩ := coordinateWrite_ok hok
  have hnodup : (leader.nodeId :: s).Nodup → result.required ≤ (leader.nodeId :: s).toFinset.card := by
    intro hnodup
    rw [List.toFinset_card_of_nodup hnodup, List.length_cons]
    exact henough
  rcases hdistinct leader hleader with hone | hfew | ⟨hout, htwo | hfollowers⟩
  · rw [hrequired]
    refine hone.trans (Finset.card_pos.mpr ⟨leader.nodeId, ?_⟩)
    rw [List.mem_toFinset]
    exact List.mem_cons_self
  · have hle := hsub.length_le
    omega
  · have hlen : s.length = 1 := by
      have htotal := hexact (by omega)
      omega
    obtain ⟨nodeId, rfl⟩ := List.length_eq_one_iff.mp hlen
    refine hnodup (List.nodup_cons.mpr ⟨fun hmem => hout ?_, List.nodup_singleton nodeId⟩)
    exact hsub.subset hmem
  · exact hnodup (List.nodup_cons.mpr ⟨fun hmem => hout (hsub.subset hmem), hfollowers.sublist hsub⟩)

/-- Any followers, as many as are missing besides the leader, can be the ones that
acknowledge. -/
theorem exists_write {t : ReplicaTracker} {shardId : ShardId} (consistency : WriteConsistency)
    {leader : ShardReplica} (hleader : leaderOf (t.getReplicas shardId) = some leader)
    {s : List NodeId} (hsub : s.Sublist (followersOf (t.getReplicas shardId))) (hsome : s ≠ [])
    (hlen : s.length + 1 = consistency.minAcks (t.getReplicas shardId).length) :
    ∃ (client : ReplicationClient) (result : WriteResult),
      coordinateWrite client 0 t shardId [] consistency = .ok (result, leader.nodeId :: s) ∧
        result.required = s.length + 1 := by
  obtain ⟨tasks, hfollowers, hawait⟩ :=
    exists_tasks (consistency.minAcks (t.getReplicas shardId).length) hsub
  have hpos := List.length_pos_iff.mpr hsome
  obtain ⟨hacked, hcount⟩ := hawait { ackCount := 1, failedNodes := [], acked := [leader.nodeId] }
    (show 1 < consistency.minAcks _ by omega) (show 1 + s.length = consistency.minAcks _ by omega)
  let client : ReplicationClient :=
    { writeToLeader := fun _ _ _ => .ok 0
      replicateToFollower := fun i _ _ _ _ => (tasks[i]?.map Prod.snd).getD (.ok ()) }
  have htasks : tasksOf client shardId 0 [] (followersOf (t.getReplicas shardId)) = tasks := by
    rw [tasksOf, ← hfollowers]
    refine List.ext_getElem (by simp) fun i hi hi' => ?_
    simp [client, hi']
  have hne : tasks ≠ [] := by
    rintro rfl
    have hle := hsub.length_le
    rw [← hfollowers] at hle
    exact absurd hle (Nat.not_le.mpr hpos)
  have hgather : gatherAnswers (consistency.minAcks (t.getReplicas shardId).length) leader.nodeId tasks =
      awaitTasks (consistency.minAcks (t.getReplicas shardId).length) tasks
        { ackCount := 1, failedNodes := [], acked := [leader.nodeId] } :=
    if_pos ⟨by omega, hne⟩
  refine ⟨client, ?_⟩
  rw [coordinateWrite_eq hleader (show client.writeToLeader _ _ _ = .ok 0 from rfl), htasks, hgather,
    if_pos hcount.ge, hacked]
  exact ⟨_, rfl, hlen.symm⟩

theorem distinctAckers_of_ackedByDistinct {t : ReplicaTracker} {shardId : ShardId}
    {consistency : WriteConsistency} (hacked : AckedByDistinct t shardId consistency) :
    DistinctAckers (t.getReplicas shardId) consistency := by
  intro leader hleader
  by_contra hcond
  simp only [not_or, not_and_or, not_le, not_lt, not_not] at hcond
  obtain ⟨hmore, henough, hrepeat⟩ := hcond
  set required := consistency.minAcks (t.getReplicas shardId).length with hrequired
  set followers := followersOf (t.getReplicas shardId)
  -- a few followers that already repeat a node, among them the leader's
  have hbase : ∃ s : List NodeId, s.Sublist followers ∧ s.length ≤ required - 1 ∧
      ¬(leader.nodeId :: s).Nodup := by
    rcases hrepeat with hin | ⟨htwo, hnodup⟩
    · refine ⟨[leader.nodeId], List.singleton_sublist.mpr hin, ?_, by simp⟩
      show 1 ≤ required - 1
      omega
    · have hpair : ∃ a, [a, a].Sublist followers := by
        by_contra hnone
        exact hnodup (List.nodup_iff_sublist.mpr fun a hsub => hnone ⟨a, hsub⟩)
      obtain ⟨a, hsub⟩ := hpair
      refine ⟨[a, a], hsub, ?_, by simp⟩
      show 2 ≤ required - 1
      omega
  obtain ⟨s, hsub, hlow, hrepeats⟩ := hbase
  obtain ⟨s', hbetween, hsub', hlen⟩ :=
    Quorum.exists_sublist_between hsub hlow (show required - 1 ≤ followers.length by omega)
  have hne : s' ≠ [] := by
    rintro rfl
    rw [List.length_nil] at hlen
    omega
  obtain ⟨client, result, hok, hresult⟩ :=
    exists_write consistency hleader hsub' hne (by omega)
  have hle := hacked client 0 [] result _ hok
  have hlt := card_lt_of_repeats fun hnodup : (leader.nodeId :: s').Nodup =>
    hrepeats (hnodup.sublist (hbetween.cons_cons leader.nodeId))
  rw [List.length_cons] at hlt
  omega

/-! ## Overlap -/

/-- With two leaders there are at most all but two followers. -/
theorem followersOf_length {replicas : List ShardReplica} {leader leader' : ShardReplica}
    (hmem : leader ∈ replicas) (hmem' : leader' ∈ replicas) (hrole : leader.role = .leader)
    (hrole' : leader'.role = .leader) (hne : leader ≠ leader') :
    (followersOf replicas).length + 2 ≤ replicas.length := by
  have htwo : 2 ≤ replicas.countP fun r => r.role = .leader := by
    have hnodup : [leader, leader'].Nodup := by simp [hne]
    have hsubset : [leader, leader'] ⊆ replicas.filter fun r => r.role = .leader := by
      intro r hr
      rcases List.mem_pair.mp hr with rfl | rfl
      · exact List.mem_filter.mpr ⟨hmem, by simp [hrole]⟩
      · exact List.mem_filter.mpr ⟨hmem', by simp [hrole']⟩
    rw [List.countP_eq_length_filter]
    exact (hnodup.subperm hsubset).length_le
  have hrest : (followersOf replicas).length ≤
      replicas.countP fun r => decide ¬decide (r.role = .leader) = true := by
    rw [followersOf, List.length_map, ← List.countP_eq_length_filter]
    refine List.countP_mono_left fun r _ hfollower => ?_
    simp only [decide_eq_true_eq] at hfollower ⊢
    rw [hfollower.1]
    decide
  have htotal := replicas.length_eq_countP_add_countP fun r => decide (r.role = .leader)
  omega

/-- The leader is in both quorums, or there are two leaders and the followers are too
few for two quorums without a common one. -/
theorem quorumsOverlap {t t' : ReplicaTracker} {shardId : ShardId}
    (hsame : (t.getReplicas shardId).Perm (t'.getReplicas shardId)) : QuorumsOverlap t t' shardId := by
  intro client client' latencyMs latencyMs' data data' result result' acked acked' hok hok'
  obtain ⟨leader, s, hleader, hrequired, rfl, hsub, henough, -⟩ := coordinateWrite_ok hok
  obtain ⟨leader', s', hleader', hrequired', rfl, hsub', henough', -⟩ := coordinateWrite_ok hok'
  by_cases hone : leader = leader'
  · subst hone
    exact ⟨leader.nodeId, List.mem_cons_self, List.mem_cons_self⟩
  · have hfollowers : (followersOf (t.getReplicas shardId)).Perm (followersOf (t'.getReplicas shardId)) :=
      (hsame.filter _).map _
    have hfew := followersOf_length (List.mem_of_find?_eq_some hleader)
      (hsame.mem_iff.mpr (List.mem_of_find?_eq_some hleader'))
      (by simpa using List.find?_some hleader) (by simpa using List.find?_some hleader') hone
    have hlen := hsame.length_eq
    have hhalf : result.required = (t.getReplicas shardId).length / 2 + 1 := hrequired
    have hhalf' : result'.required = (t'.getReplicas shardId).length / 2 + 1 := hrequired'
    obtain ⟨nodeId, hin, hin'⟩ := Quorum.exists_common hsub.subperm
      (hsub'.subperm.trans hfollowers.symm.subperm) (by omega)
    exact ⟨nodeId, List.mem_cons_of_mem _ hin, List.mem_cons_of_mem _ hin'⟩

/-! ## Histories -/

open ReplicaTracker

theorem registerReplica_replicas (t : ReplicaTracker) (replica : ShardReplica) (shardId : ShardId) :
    (t.registerReplica replica).getReplicas shardId =
      t.getReplicas shardId ++ if shardId = replica.shardId then [replica] else [] := by
  show (Function.update t.shardReplicas replica.shardId
    (some (t.getReplicas replica.shardId ++ [replica])) shardId).getD [] = _
  by_cases hshard : shardId = replica.shardId
  · subst hshard
    rw [Function.update_self, if_pos rfl, Option.getD_some]
  · rw [Function.update_of_ne hshard, if_neg hshard, List.append_nil, getReplicas]

/-- Quorum writes always overlap; a write is acknowledged by as many different nodes as
it requires exactly when the replicas that can make up the number are on different nodes. -/
theorem quorum_writes_iff (replicationFactor : Nat) (calls calls' : List ReplicaTracker.Call)
    (shardId : ShardId) (consistency : WriteConsistency)
    (hsame : (((new replicationFactor).perform calls).getReplicas shardId).Perm
      (((new replicationFactor).perform calls').getReplicas shardId)) :
    (QuorumsOverlap ((new replicationFactor).perform calls) ((new replicationFactor).perform calls')
        shardId ∧
      AckedByDistinct ((new replicationFactor).perform calls) shardId consistency) ↔
      DistinctAckers (((new replicationFactor).perform calls).getReplicas shardId) consistency := by
  constructor
  · exact fun h => distinctAckers_of_ackedByDistinct h.2
  · exact fun h => ⟨quorumsOverlap hsame, ackedByDistinct_of_distinctAckers h⟩

def spreadCalls : List ReplicaTracker.Call := [.assign 0 1 ["a", "b", "c"]]

theorem quorum_writes_spread :
    QuorumsOverlap ((new 3).perform spreadCalls) ((new 3).perform spreadCalls) 1 ∧
      AckedByDistinct ((new 3).perform spreadCalls) 1 .quorum :=
  (quorum_writes_iff 3 spreadCalls spreadCalls 1 .quorum (List.Perm.refl _)).mpr
    fun leader hleader => by
      obtain rfl : ShardReplica.newLeader 0 1 "a" = leader := Option.some.inj hleader
      exact Or.inr (Or.inr (by decide))

def repeatedCalls : List ReplicaTracker.Call := [.assign 0 1 ["a", "b"], .assign 0 1 ["a", "b"]]

/-- A client whose nodes acknowledge everything. -/
def agreeable : ReplicationClient :=
  { writeToLeader := fun _ _ _ => .ok 0, replicateToFollower := fun _ _ _ _ _ => .ok () }

/-- Three of four are required, and two nodes acknowledge. -/
theorem not_acked_by_distinct_repeated :
    coordinateWrite agreeable 0 ((new 3).perform repeatedCalls) 1 [] .quorum =
        .ok ({ sequence := 0, acknowledged := 3, required := 3, latencyMs := 0, failedNodes := [] },
          ["a", "b", "b"]) ∧
      ["a", "b", "b"].toFinset.card = 2 ∧
      ¬AckedByDistinct ((new 3).perform repeatedCalls) 1 .quorum := by
  have hwrite : coordinateWrite agreeable 0 ((new 3).perform repeatedCalls) 1 [] .quorum =
      .ok ({ sequence := 0, acknowledged := 3, required := 3, latencyMs := 0, failedNodes := [] },
        ["a", "b", "b"]) := by decide
  refine ⟨hwrite, by decide, fun hacked => ?_⟩
  exact absurd (hacked agreeable 0 [] _ _ hwrite) (by decide)

end Cluster
end RTDB
