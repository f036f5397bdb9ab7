import RTDB.Cluster.ReplicaWrites

/-!
# What a batch of replicated entries is answered

A receiver goes on after an entry that it could not insert, and answers with the highest sequence
number of those that it could.
-/

namespace RTDB

open Storage

variable {P D : Type}

namespace Cluster

open Bytes StorageRouter

variable {Addr : Type}

/-- What the client sends: the entries are numbered from the base on. -/
def ClusterClient.batchReplicate (collection : String) (entries : List (VectorId × List UInt32))
    (baseSequence : UInt64) : Proto.BatchReplicateRequest Proto.ReplicateRequest where
  collection := collection
  entries := entries.zipIdx.map fun (entry, idx) =>
    { collection := collection
      id := entry.1
      vector := wordBytes entry.2
      sequenceNumber := (baseSequence + UInt64.ofNat idx).toNat }
  baseSequence := baseSequence.toNat

/-- The inputs of one insert on the receiver: its clock, the level it draws and what another node
answers if the insert goes there. -/
structure InsertInputs where
  timestamp : Nat
  level : Nat
  answer : StorageRouter.InsertAnswer

def arrive (inputs : Nat → InsertInputs)
    (request : Proto.BatchReplicateRequest Proto.ReplicateRequest) :
    Proto.BatchReplicateRequest Arrival where
  collection := request.collection
  entries := request.entries.zipIdx.map fun (entry, idx) =>
    { request := entry
      timestamp := (inputs idx).timestamp
      level := (inputs idx).level
      answer := (inputs idx).answer }
  baseSequence := request.baseSequence

/-- An answer says what became of the entries. -/
structure Truthful (rounds : List (Round Addr P D)) (response : Proto.BatchReplicateResponse) :
    Prop where
  highest : ∀ round ∈ rounds,
    round.arrival.request.sequenceNumber ≤ response.highestAppliedSequence → round.ok = true
  count : response.appliedCount = (rounds.filter Round.ok).length
  success : response.success = true → ∀ round ∈ rounds, round.ok = true

/-- The first entry has the base for its number, so an answer is true of a batch only if all of it
was applied. -/
theorem truthful_iff {rounds : List (Round Addr P D)} {base : Nat}
    {response : Proto.BatchReplicateResponse}
    (hfirst : ∀ round ∈ rounds.head?, round.arrival.request.sequenceNumber = base)
    (hsuccess : response.success = decide (0 < (rounds.filter Round.ok).length))
    (hcount : response.appliedCount = (rounds.filter Round.ok).length)
    (hhighest : response.highestAppliedSequence = (rounds.filter Round.ok).foldl
      (fun highest round => max highest round.arrival.request.sequenceNumber) base) :
    Truthful rounds response ↔ ∀ round ∈ rounds, round.ok = true := by
  refine ⟨fun htrue => ?_, fun hall => ⟨fun round hround _ => hall round hround, hcount,
    fun _ => hall⟩⟩
  by_cases hnone : rounds.filter Round.ok = []
  · cases rounds with
    | nil => exact fun round hround => absurd hround List.not_mem_nil
    | cons round rounds =>
      rw [hnone] at hhighest
      have hbase := hfirst round rfl
      have hok : round.ok = true := by
        refine htrue.highest round List.mem_cons_self ?_
        rw [hbase, hhighest]
        exact le_rfl
      exact absurd hok (List.filter_eq_nil_iff.mp hnone round List.mem_cons_self)
  · refine htrue.success ?_
    rw [hsuccess]
    exact decide_eq_true (List.length_pos_iff.mpr hnone)

theorem number_of_first {collection : String} {entries : List (VectorId × List UInt32)}
    {baseSequence : UInt64} {inputs : Nat → InsertInputs} {rounds : List (Round Addr P D)}
    (hrounds : rounds.map (fun round => (round.collection, round.arrival)) =
      (arrive inputs (ClusterClient.batchReplicate collection entries baseSequence)).entries.map
        fun a => (collection, a)) :
    ∀ round ∈ rounds.head?, round.arrival.request.sequenceNumber = baseSequence.toNat := by
  intro round hround
  cases rounds with
  | nil => exact absurd hround (by simp)
  | cons first rounds =>
    obtain rfl : first = round := Option.some.inj hround
    cases entries with
    | nil => exact absurd hrounds (by simp [arrive, ClusterClient.batchReplicate])
    | cons entry entries =>
      have harrival := (Prod.mk.inj (List.cons.inj hrounds).1).2
      rw [harrival]
      show (baseSequence + UInt64.ofNat 0).toNat = baseSequence.toNat
      exact congrArg UInt64.toNat (UInt64.add_zero baseSequence)

section Answers

variable [LinearOrder D] {codec : Codec P} {crc32c : List UInt8 → UInt32} {hash : Nat → Nat}
  {round : Round Addr P D}

/-- The entry is the node's own and its collection takes it, or the node that it goes to answers that
it was stored. -/
def Round.Passes (codec : Codec P) (hash : Nat → Nat) (round : Round Addr P D) : Prop :=
  round.Taken codec hash ∨
    ∃ node, round.before.route hash round.arrival.request.id = some (.remote node) ∧
      node ∈ round.before.connectionPools ∧ round.arrival.answer = .response true

theorem Round.Made.ok_iff_passes (hmade : round.Made codec crc32c hash) :
    round.ok = true ↔ round.Passes codec hash := by
  rcases hmade.cases with ⟨hroute, houtcome⟩ | ⟨node, request, hroute, houtcome⟩
  · have hhome : round.before.AtHome hash round.arrival.request.id := by
      intro node hother
      rw [hroute] at hother
      exact absurd (Option.some.inj hother) (by simp)
    rw [hmade.ok_iff hhome, Passes, or_iff_left]
    rintro ⟨node, hother, -, -⟩
    rw [hroute] at hother
    exact absurd (Option.some.inj hother) (by simp)
  · have hnever : ¬round.Taken codec hash := by
      rintro ⟨hother, -⟩
      rw [hroute] at hother
      exact absurd (Option.some.inj hother) (by simp)
    have honly : ∀ other, round.before.route hash round.arrival.request.id = some (.remote other) ↔
        other = node := by
      intro other
      rw [hroute, Option.some.injEq, Route.remote.injEq, eq_comm]
    rw [Passes, or_iff_right hnever]
    simp only [honly, exists_eq_left]
    rw [Round.ok, houtcome]
    simp only [remoteInsert]
    by_cases hpool : node ∈ round.before.connectionPools
    · rw [if_pos hpool, and_iff_right hpool]
      cases round.arrival.answer with
      | timeout => simp
      | failed message => simp
      | response success => cases success <;> simp
    · rw [if_neg hpool]
      simp [hpool]

variable (codec crc32c hash) in
def AnswersTruly (r : StorageRouter Addr (Collection P D)) (now : Nat)
    (request : Proto.BatchReplicateRequest Arrival) : Prop :=
  ∀ rounds response, r.batchReplicate codec crc32c hash now request = some (rounds, response) →
    Truthful rounds response

theorem batch_answer_iff (r : StorageRouter Addr (Collection P D)) (now : Nat) (collection : String)
    (entries : List (VectorId × List UInt32)) (baseSequence : UInt64)
    (inputs : Nat → InsertInputs) :
    AnswersTruly codec crc32c hash r now
        (arrive inputs (ClusterClient.batchReplicate collection entries baseSequence)) ↔
      ∀ rounds, r.insertAll codec crc32c hash
        ((arrive inputs (ClusterClient.batchReplicate collection entries baseSequence)).entries.map
          fun a => (collection, a)) = some rounds → ∀ round ∈ rounds, round.Passes codec hash := by
  have hpasses : ∀ rounds, r.insertAll codec crc32c hash
      ((arrive inputs (ClusterClient.batchReplicate collection entries baseSequence)).entries.map
        fun a => (collection, a)) = some rounds →
      ((∀ round ∈ rounds, round.ok = true) ↔ ∀ round ∈ rounds, round.Passes codec hash) := by
    intro rounds hrounds
    obtain ⟨-, hmade⟩ := insertAll_made hrounds
    exact forall₂_congr fun round hround => (hmade round hround).1.ok_iff_passes
  constructor
  · intro htrue rounds hrounds
    rw [← hpasses rounds hrounds]
    have htruthful := htrue rounds _ (congrArg (Option.map _) hrounds)
    exact (truthful_iff (number_of_first (insertAll_made hrounds).1) rfl rfl rfl).mp htruthful
  · intro hall rounds response hserved
    rw [batchReplicate] at hserved
    obtain ⟨rounds', hrounds, hsame⟩ := Option.map_eq_some_iff.mp hserved
    obtain ⟨rfl, rfl⟩ := Prod.mk.inj hsame
    refine (truthful_iff (number_of_first (insertAll_made hrounds).1) rfl rfl rfl).mpr ?_
    exact (hpasses _ hrounds).mpr (hall _ hrounds)

end Answers

/-! ## A node that does not have the collection -/

def bareRouter : StorageRouter Unit (Collection Unit Nat) where
  nodeId := "replica"
  cluster :=
    { localNodeId := "replica"
      shardCount := 1
      topology := ClusterTopology.new.addNode (sampleNode "replica") }
  connectionPools := []
  collections := fun _ => none

/-- Nothing is applied, and the answer says that the first entry was. -/
theorem not_batch_answer_bare : ¬∀ (r : StorageRouter Unit (Collection Unit Nat)) (now : Nat)
    (collection : String) (entries : List (VectorId × List UInt32)) (baseSequence : UInt64)
    (inputs : Nat → InsertInputs), AnswersTruly (textCodec [] []) (fun _ => 0) id r now
      (arrive inputs (ClusterClient.batchReplicate collection entries baseSequence)) := by
  intro hall
  have htrue := hall bareRouter 0 "vectors" [(1, [0x3F800000])] 7 (fun _ => ⟨0, 0, .timeout⟩) _ _ rfl
  exact absurd (htrue.highest _ List.mem_cons_self (by decide)) (by decide)

end Cluster

end RTDB
