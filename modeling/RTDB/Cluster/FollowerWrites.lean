import RTDB.Cluster.Replication

/-!
# Who is sent a write

A task of the coordinator is a future: its request goes out when the task is awaited.  The loop that
awaits the tasks leaves at the acknowledgement that makes enough, and the tasks behind it are dropped.
-/

namespace RTDB
namespace Cluster

variable {required : Nat} {tasks : List Task} {a : Answers}

structure FollowerWrite where
  nodeId : NodeId
  shardId : ShardId
  sequence : Nat
  data : List UInt8
  deriving DecidableEq, Repr

def awaited (required : Nat) : List Task → Answers → Nat
  | [], _ => 0
  | task :: tasks, a =>
    if required ≤ (a.record task).ackCount then 1 else awaited required tasks (a.record task) + 1

def gathered (required : Nat) (leader : NodeId) (tasks : List Task) : Nat :=
  if 1 < required ∧ tasks ≠ [] then
    awaited required tasks { ackCount := 1, failedNodes := [], acked := [leader] }
  else 0

def sentWrites (client : ReplicationClient) (t : ReplicaTracker) (shardId : ShardId)
    (data : List UInt8) (consistency : WriteConsistency) : List FollowerWrite :=
  let replicas := t.getReplicas shardId
  match leaderOf replicas with
  | none => []
  | some leader =>
    match client.writeToLeader leader.nodeId shardId data with
    | .error _ => []
    | .ok sequence =>
      let followers := followersOf replicas
      let tasks := tasksOf client shardId sequence data followers
      (followers.take (gathered (consistency.minAcks replicas.length) leader.nodeId tasks)).map
        fun nodeId => { nodeId, shardId, sequence, data }

/-! ## The loop -/

def isAcked (task : Task) : Bool := task.2.isOk

theorem record_ackCount (a : Answers) (task : Task) :
    (a.record task).ackCount = a.ackCount + if isAcked task then 1 else 0 := by
  obtain ⟨nodeId, answer⟩ := task
  cases answer <;> rfl

theorem foldl_record_ackCount (tasks : List Task) (a : Answers) :
    (tasks.foldl Answers.record a).ackCount = a.ackCount + tasks.countP isAcked := by
  induction tasks generalizing a with
  | nil => rfl
  | cons task tasks ih =>
    rw [List.foldl_cons, ih, record_ackCount, List.countP_cons]
    omega

/-- The answers are those of the awaited tasks. -/
theorem awaitTasks_eq_foldl (required : Nat) (tasks : List Task) (a : Answers) :
    awaitTasks required tasks a = (tasks.take (awaited required tasks a)).foldl Answers.record a := by
  induction tasks generalizing a with
  | nil => rfl
  | cons task tasks ih =>
    rw [awaitTasks, awaited]
    split
    · rfl
    · rw [ih, List.take_succ_cons, List.foldl_cons]

theorem lt_awaited_iff (hless : a.ackCount < required) {i : Nat} :
    i < awaited required tasks a ↔
      i < tasks.length ∧ a.ackCount + (tasks.take i).countP isAcked < required := by
  induction tasks generalizing a i with
  | nil => simp [awaited]
  | cons task tasks ih =>
    rw [awaited, List.length_cons]
    have hrecord := record_ackCount a task
    cases i with
    | zero =>
      rw [List.take_zero, List.countP_nil]
      split <;> omega
    | succ i =>
      rw [List.take_succ_cons, List.countP_cons]
      split
      · omega
      · rename_i hmore
        rw [Nat.succ_lt_succ_iff, ih (Nat.lt_of_not_le hmore), hrecord]
        omega

theorem lt_gathered_iff (leader : NodeId) {i : Nat} :
    i < gathered required leader tasks ↔
      i < tasks.length ∧ (tasks.take i).countP isAcked + 1 < required := by
  rw [gathered]
  split
  · rename_i hwait
    rw [lt_awaited_iff hwait.1, Nat.add_comm 1]
  · rename_i hskip
    constructor
    · intro hi
      omega
    · rintro ⟨hi, hmore⟩
      refine absurd ⟨by omega, ?_⟩ hskip
      rintro rfl
      exact absurd hi (Nat.not_lt_zero i)

/-- Enough acknowledge among the awaited exactly when enough would among all. -/
theorem gatherAnswers_enough_iff (leader : NodeId) :
    required ≤ (gatherAnswers required leader tasks).ackCount ↔
      required ≤ tasks.countP isAcked + 1 := by
  rw [gatherAnswers]
  split
  · rename_i hwait
    set start : Answers := { ackCount := 1, failedNodes := [], acked := [leader] }
    set k := awaited required tasks start with hk
    have hstart : start.ackCount = 1 := rfl
    have hsplit : tasks.countP isAcked =
        (tasks.take k).countP isAcked + (tasks.drop k).countP isAcked := by
      rw [← List.countP_append, List.take_append_drop]
    rw [awaitTasks_eq_foldl, ← hk, foldl_record_ackCount, hstart]
    constructor
    · intro henough
      omega
    · intro hall
      -- Behind the last awaited task nothing is left, or enough have answered.
      have hlast := (@lt_awaited_iff required tasks start hwait.1 k).not.mp
        (Nat.lt_irrefl k)
      rw [hstart, not_and_or, not_lt, not_lt] at hlast
      rcases hlast with hend | henough
      · rw [List.take_of_length_le hend]
        omega
      · exact henough
  · rename_i hskip
    rw [not_and_or, not_lt, not_not] at hskip
    show required ≤ 1 ↔ _
    rcases hskip with hone | hnone
    · omega
    · subst hnone
      rw [List.countP_nil]

/-! ## The write -/

/-- A write that succeeds was sent, under the sequence number that it returns, to every online
follower of the shard. -/
def SentToFollowers (client : ReplicationClient) (latencyMs : Nat) (t : ReplicaTracker)
    (shardId : ShardId) (data : List UInt8) (consistency : WriteConsistency) : Prop :=
  ∀ result acked, coordinateWrite client latencyMs t shardId data consistency = .ok (result, acked) →
    ∀ r ∈ t.getReplicas shardId, r.role = .follower → r.isOnline = true →
      { nodeId := r.nodeId, shardId, sequence := result.sequence, data } ∈
        sentWrites client t shardId data consistency

/-- Where the leader takes the write and enough replicas would acknowledge it, every online follower
is listed at some place before which the acknowledgements, the leader's among them, are too few. -/
def FewBefore (client : ReplicationClient) (t : ReplicaTracker) (shardId : ShardId)
    (data : List UInt8) (consistency : WriteConsistency) : Prop :=
  ∀ leader sequence, leaderOf (t.getReplicas shardId) = some leader →
    client.writeToLeader leader.nodeId shardId data = .ok sequence →
      let followers := followersOf (t.getReplicas shardId)
      let tasks := tasksOf client shardId sequence data followers
      let required := consistency.minAcks (t.getReplicas shardId).length
      required ≤ tasks.countP isAcked + 1 → ∀ nodeId ∈ followers,
        ∃ i, followers[i]? = some nodeId ∧ (tasks.take i).countP isAcked + 1 < required

theorem mem_followersOf {replicas : List ShardReplica} {nodeId : NodeId} :
    nodeId ∈ followersOf replicas ↔
      ∃ r ∈ replicas, r.role = .follower ∧ r.isOnline = true ∧ r.nodeId = nodeId := by
  rw [followersOf, List.mem_map]
  constructor
  · rintro ⟨r, hr, hnode⟩
    obtain ⟨hmem, hfollower⟩ := List.mem_filter.mp hr
    rw [decide_eq_true_eq] at hfollower
    exact ⟨r, hmem, hfollower.1, hfollower.2, hnode⟩
  · rintro ⟨r, hmem, hrole, honline, hnode⟩
    exact ⟨r, List.mem_filter.mpr ⟨hmem, decide_eq_true ⟨hrole, honline⟩⟩, hnode⟩

theorem mem_take_iff {α : Type} {l : List α} {k : Nat} {x : α} :
    x ∈ l.take k ↔ ∃ i, i < k ∧ l[i]? = some x := by
  rw [List.mem_take_iff_getElem]
  constructor
  · rintro ⟨i, hi, rfl⟩
    exact ⟨i, by omega, List.getElem?_eq_getElem _⟩
  · rintro ⟨i, hlt, hi⟩
    obtain ⟨hlen, hx⟩ := List.getElem?_eq_some_iff.mp hi
    exact ⟨i, by omega, hx⟩

section Taken

variable {client : ReplicationClient} {latencyMs : Nat} {t : ReplicaTracker} {shardId : ShardId}
  {data : List UInt8} {consistency : WriteConsistency} {leader : ShardReplica} {sequence : Nat}

theorem coordinateWrite_ok_iff (hleader : leaderOf (t.getReplicas shardId) = some leader)
    (hsequence : client.writeToLeader leader.nodeId shardId data = .ok sequence) :
    (∃ result acked, coordinateWrite client latencyMs t shardId data consistency = .ok (result, acked) ∧
        result.sequence = sequence) ↔
      consistency.minAcks (t.getReplicas shardId).length ≤
        (tasksOf client shardId sequence data (followersOf (t.getReplicas shardId))).countP isAcked + 1 := by
  rw [← gatherAnswers_enough_iff leader.nodeId, coordinateWrite_eq hleader hsequence]
  split
  · rename_i henough
    exact iff_of_true ⟨_, _, rfl, rfl⟩ henough
  · rename_i hfew
    refine iff_of_false ?_ hfew
    rintro ⟨result, acked, hok, -⟩
    exact absurd hok (by simp)

theorem mem_sentWrites (hleader : leaderOf (t.getReplicas shardId) = some leader)
    (hsequence : client.writeToLeader leader.nodeId shardId data = .ok sequence) {nodeId : NodeId} :
    { nodeId, shardId, sequence, data } ∈ sentWrites client t shardId data consistency ↔
      ∃ i, (followersOf (t.getReplicas shardId))[i]? = some nodeId ∧
        ((tasksOf client shardId sequence data (followersOf (t.getReplicas shardId))).take i).countP
            isAcked + 1 < consistency.minAcks (t.getReplicas shardId).length := by
  have hlength : (tasksOf client shardId sequence data (followersOf (t.getReplicas shardId))).length =
      (followersOf (t.getReplicas shardId)).length := by
    rw [← List.length_map Prod.fst, tasksOf_followers]
  simp only [sentWrites, hleader, hsequence, List.mem_map, FollowerWrite.mk.injEq, and_true,
    exists_eq_right, mem_take_iff, lt_gathered_iff, hlength]
  constructor
  · rintro ⟨i, ⟨-, hfew⟩, hi⟩
    exact ⟨i, hi, hfew⟩
  · rintro ⟨i, hi, hfew⟩
    exact ⟨i, ⟨(List.getElem?_eq_some_iff.mp hi).1, hfew⟩, hi⟩

end Taken

/-- A write that succeeds is sent to every online follower exactly when the acknowledgements before
each of them are too few. -/
theorem sent_to_followers_iff (client : ReplicationClient) (latencyMs : Nat) (t : ReplicaTracker)
    (shardId : ShardId) (data : List UInt8) (consistency : WriteConsistency) :
    SentToFollowers client latencyMs t shardId data consistency ↔
      FewBefore client t shardId data consistency := by
  constructor
  · intro hsent leader sequence hleader hsequence followers tasks required henough nodeId hnode
    obtain ⟨result, acked, hok, hresult⟩ :=
      (@coordinateWrite_ok_iff client latencyMs _ _ _ _ _ _ hleader hsequence).mpr henough
    obtain ⟨r, hr, hrole, honline, rfl⟩ := mem_followersOf.mp hnode
    have hmem := hsent result acked hok r hr hrole honline
    rw [hresult] at hmem
    exact (mem_sentWrites hleader hsequence).mp hmem
  · intro hfew result acked hok r hr hrole honline
    obtain ⟨leader, sequence, hleader, hsequence⟩ := written_of_ok hok
    have hresult : result.sequence = sequence := by
      rw [coordinateWrite_eq hleader hsequence] at hok
      split at hok
      · rw [← (Prod.mk.inj (Except.ok.inj hok)).1]
      · exact absurd hok (by simp)
    have henough := (coordinateWrite_ok_iff hleader hsequence).mp ⟨result, acked, hok, hresult⟩
    rw [hresult, mem_sentWrites hleader hsequence]
    exact hfew leader sequence hleader hsequence henough r.nodeId
      (mem_followersOf.mpr ⟨r, hr, hrole, honline, rfl⟩)

/-- A quorum of the three nodes is complete when the first follower has acknowledged. -/
theorem not_sent_to_followers_spread :
    ¬SentToFollowers agreeable 0 ((ReplicaTracker.new 3).perform spreadCalls) 1 [] .quorum := by
  intro hsent
  have hwrite : coordinateWrite agreeable 0 ((ReplicaTracker.new 3).perform spreadCalls) 1 [] .quorum =
      .ok ({ sequence := 0, acknowledged := 2, required := 2, latencyMs := 0, failedNodes := [] },
        ["a", "b"]) := by decide
  have hmem := hsent _ _ hwrite (ShardReplica.newFollower 0 1 "c") (by decide) rfl rfl
  exact absurd hmem (by decide)

end Cluster
end RTDB
