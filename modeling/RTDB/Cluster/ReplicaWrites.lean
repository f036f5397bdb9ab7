import RTDB.Cluster.Router
import RTDB.Collection.Upserts

/-!
# What a replica stores

A replica hands what is replicated to it to the insert that routes by shard.  It keeps an entry of
its own only where its view names no other node for the id, or none that it is connected to.
-/

namespace RTDB

open Storage

variable {P D : Type}

namespace Cluster

open Bytes StorageRouter

variable {Addr : Type}

/-! ## One entry -/

namespace StorageRouter

/-- The view names no other node for the id, or none that the node is connected to. -/
def AtHome {C : Type} (hash : Nat → Nat) (r : StorageRouter Addr C) (id : VectorId) : Prop :=
  ∀ node, r.route hash id = some (.remote node) → node ∉ r.connectionPools

def Alike {C : Type} (r r' : StorageRouter Addr C) : Prop :=
  r'.nodeId = r.nodeId ∧ r'.cluster = r.cluster ∧ r'.connectionPools = r.connectionPools

theorem route_eq_none_iff {C : Type} {hash : Nat → Nat} {r : StorageRouter Addr C} {id : VectorId} :
    r.route hash id = none ↔ r.cluster.shardCount = 0 := by
  rw [route, ClusterManager.getNodeForVector, ClusterManager.getShardForVector]
  by_cases hshards : r.cluster.shardCount = 0
  · rw [if_pos hshards]
    exact iff_of_true rfl hshards
  · rw [if_neg hshards]
    exact iff_of_false (Option.some_ne_none _) hshards

theorem Alike.route_eq {C : Type} {hash : Nat → Nat} {r r' : StorageRouter Addr C}
    (halike : r.Alike r') (id : VectorId) : r'.route hash id = r.route hash id := by
  rw [route, route, halike.1, halike.2.1]

theorem Alike.atHome_iff {C : Type} {hash : Nat → Nat} {r r' : StorageRouter Addr C}
    (halike : r.Alike r') (id : VectorId) : r'.AtHome hash id ↔ r.AtHome hash id := by
  rw [AtHome, AtHome, halike.route_eq, halike.2.2]

end StorageRouter

variable [LinearOrder D] {codec : Codec P} {crc32c : List UInt8 → UInt32} {hash : Nat → Nat}

namespace Round

def Made (codec : Codec P) (crc32c : List UInt8 → UInt32) (hash : Nat → Nat)
    (round : Round Addr P D) : Prop :=
  round.before.insert codec crc32c hash round.collection (round.arrival.item P)
    round.arrival.answer = some round.outcome

/-- After the round the node's own collection has just this vector under just this id. -/
def Holds (codec : Codec P) (round : Round Addr P D) : Prop :=
  ∃ c, round.outcome.router.collections round.collection = some c ∧
    okSome (c.storage.get codec round.arrival.request.id) =
      some { data := wordsOf round.arrival.request.vector, payload := none }

def Taken (codec : Codec P) (hash : Nat → Nat) (round : Round Addr P D) : Prop :=
  round.before.route hash round.arrival.request.id = some .here ∧
    ∃ c, round.before.collections round.collection = some c ∧ c.Takes codec (round.arrival.item P)

def Stays (codec : Codec P) (round : Round Addr P D) : Prop :=
  ∀ c, round.before.collections round.collection = some c →
    PutStays codec c.storage round.arrival.request.id (round.arrival.item P).vector
      round.arrival.timestamp

variable {round : Round Addr P D}

/-- What an insert does, by its route. -/
theorem Made.cases (hmade : round.Made codec crc32c hash) :
    (round.before.route hash round.arrival.request.id = some .here ∧
        round.outcome =
          round.before.localInsert codec crc32c round.collection (round.arrival.item P)) ∨
      ∃ node request, round.before.route hash round.arrival.request.id = some (.remote node) ∧
        round.outcome = round.before.remoteInsert node request round.arrival.answer := by
  obtain ⟨route, hroute, houtcome⟩ := Option.map_eq_some_iff.mp hmade
  cases route with
  | here => exact Or.inl ⟨hroute, houtcome.symm⟩
  | remote node => exact Or.inr ⟨node, _, hroute, houtcome.symm⟩

theorem localInsert_forwarded (r : StorageRouter Addr (Collection P D)) (collection : String)
    (item : UpsertItem P) : (r.localInsert codec crc32c collection item).forwarded = [] := by
  rw [localInsert]
  split <;> rfl

theorem Made.alike (hmade : round.Made codec crc32c hash) :
    round.before.Alike round.outcome.router := by
  rcases hmade.cases with ⟨-, houtcome⟩ | ⟨node, request, -, houtcome⟩
  · rw [houtcome, localInsert]
    split <;> exact ⟨rfl, rfl, rfl⟩
  · rw [houtcome]
    exact ⟨rfl, rfl, rfl⟩

theorem Made.forwarded_iff (hmade : round.Made codec crc32c hash) :
    round.outcome.forwarded = [] ↔ round.before.AtHome hash round.arrival.request.id := by
  rcases hmade.cases with ⟨hroute, houtcome⟩ | ⟨node, request, hroute, houtcome⟩
  · rw [houtcome]
    refine iff_of_true (localInsert_forwarded _ _ _) fun node hother => ?_
    rw [hroute] at hother
    exact absurd (Option.some.inj hother) (by simp)
  · rw [houtcome]
    show round.before.forward node _ = [] ↔ _
    rw [forward]
    constructor
    · intro hnone other hother
      rw [hroute, Option.some.injEq, Route.remote.injEq] at hother
      rw [← hother]
      intro hpool
      rw [if_pos hpool] at hnone
      exact List.cons_ne_nil _ _ hnone
    · intro hhome
      rw [if_neg (hhome node hroute)]

theorem Made.ok_iff (hmade : round.Made codec crc32c hash)
    (hhome : round.before.AtHome hash round.arrival.request.id) :
    round.ok = true ↔ round.Taken codec hash := by
  rw [ok, Taken]
  rcases hmade.cases with ⟨hroute, houtcome⟩ | ⟨node, request, hroute, houtcome⟩
  · rw [houtcome, localInsert, and_iff_right hroute]
    cases hcollection : round.before.collections round.collection with
    | none => simp
    | some c =>
      simp only [Option.some.injEq, exists_eq_left']
      rw [← Collection.upsert_singleton_ok_iff codec crc32c]
      rcases (c.upsert codec crc32c [round.arrival.item P]).2 with e | info
      · simp
      · simp
  · have hresult : (round.before.remoteInsert node request round.arrival.answer).result =
        .error (.storage ("No connection pool for node " ++ node)) := if_neg (hhome node hroute)
    rw [houtcome, hresult, hroute]
    simp

theorem Made.holds_iff (hmade : round.Made codec crc32c hash) (htaken : round.Taken codec hash) :
    round.Holds codec ↔ round.Stays codec := by
  obtain ⟨hroute, c, hcollection, htakes⟩ := htaken
  have hafter : round.outcome.router.collections round.collection =
      some (c.upsert codec crc32c [round.arrival.item P]).1 := by
    rcases hmade.cases with ⟨-, houtcome⟩ | ⟨node, request, hother, -⟩
    · rw [houtcome, localInsert, hcollection]
      exact Function.update_self _ _ _
    · rw [hroute] at hother
      exact absurd (Option.some.inj hother) (by simp)
  rw [Holds, Stays, hafter, hcollection]
  simp only [Option.some.injEq, exists_eq_left', forall_eq']
  rw [Collection.upsert_singleton_storage codec crc32c htakes]
  exact get_put_iff htakes.2

end Round

/-! ## One entry after the other -/

theorem insertAll_made {r : StorageRouter Addr (Collection P D)} {arrivals : List (String × Arrival)}
    {rounds : List (Round Addr P D)}
    (hrounds : r.insertAll codec crc32c hash arrivals = some rounds) :
    rounds.map (fun round => (round.collection, round.arrival)) = arrivals ∧
      ∀ round ∈ rounds, round.Made codec crc32c hash ∧ r.Alike round.before := by
  induction arrivals generalizing r rounds with
  | nil =>
    rw [← Option.some.inj hrounds]
    exact ⟨rfl, fun _ hmem => absurd hmem List.not_mem_nil⟩
  | cons arrival arrivals ih =>
    obtain ⟨collection, arrival⟩ := arrival
    obtain ⟨outcome, houtcome, hrest⟩ := Option.bind_eq_some_iff.mp hrounds
    obtain ⟨rest, hothers, rfl⟩ := Option.map_eq_some_iff.mp hrest
    obtain ⟨harrivals, hmade⟩ := ih hothers
    have hfirst : Round.Made codec crc32c hash
        { before := r, collection, arrival, outcome } := houtcome
    refine ⟨by rw [List.map_cons, harrivals], fun round hmem => ?_⟩
    rcases List.mem_cons.mp hmem with rfl | hmem
    · exact ⟨hfirst, rfl, rfl, rfl⟩
    · obtain ⟨hround, hid, hcluster, hpools⟩ := hmade round hmem
      obtain ⟨hid', hcluster', hpools'⟩ := hfirst.alike
      exact ⟨hround, hid.trans hid', hcluster.trans hcluster', hpools.trans hpools'⟩

theorem insertAll_isSome (codec : Codec P) (crc32c : List UInt8 → UInt32) (hash : Nat → Nat)
    {r : StorageRouter Addr (Collection P D)}
    (hshards : r.cluster.shardCount ≠ 0) (arrivals : List (String × Arrival)) :
    ∃ rounds, r.insertAll codec crc32c hash arrivals = some rounds := by
  induction arrivals generalizing r with
  | nil => exact ⟨[], rfl⟩
  | cons arrival arrivals ih =>
    obtain ⟨collection, arrival⟩ := arrival
    have hroute : r.route hash (arrival.item P).id ≠ none := fun hnone =>
      hshards (route_eq_none_iff.mp hnone)
    obtain ⟨route, hroute⟩ := Option.ne_none_iff_exists'.mp hroute
    obtain ⟨outcome, houtcome⟩ : ∃ outcome,
        r.insert codec crc32c hash collection (arrival.item P) arrival.answer = some outcome := by
      rw [StorageRouter.insert, hroute]
      exact ⟨_, rfl⟩
    have hfirst : Round.Made codec crc32c hash
        { before := r, collection, arrival, outcome } := houtcome
    obtain ⟨rounds, hrounds⟩ := ih (r := outcome.router) (by rw [hfirst.alike.2.1]; exact hshards)
    refine ⟨{ before := r, collection, arrival, outcome } :: rounds, ?_⟩
    rw [insertAll, houtcome, Option.bind_some, hrounds]
    rfl

/-! ## The requests of a replica -/

inductive ReplicaRequest where
  | replicate (arrival : Arrival)
  | batchReplicate (request : Proto.BatchReplicateRequest Arrival)
  | streamReplicate (stream : List Arrival) (status : Option String)

/-- The entries with the collections that they go into. -/
def ReplicaRequest.entries : ReplicaRequest → List (String × Arrival)
  | .replicate arrival => [(arrival.request.collection, arrival)]
  | .batchReplicate request => request.entries.map fun a => (request.collection, a)
  | .streamReplicate stream _ => stream.map fun a => (a.request.collection, a)

/-- The rounds that a handler makes, and whether it answers success. -/
def StorageRouter.serve (codec : Codec P) (crc32c : List UInt8 → UInt32) (hash : Nat → Nat)
    (r : StorageRouter Addr (Collection P D)) (now : Nat) :
    ReplicaRequest → Option (List (Round Addr P D) × Bool)
  | .replicate arrival =>
    (r.replicate codec crc32c hash now arrival).map fun served => ([served.1], served.2.success)
  | .batchReplicate request =>
    (r.batchReplicate codec crc32c hash now request).map fun served =>
      (served.1, served.2.success)
  | .streamReplicate stream status =>
    (r.streamReplicate codec crc32c hash now stream status).map fun served =>
      (served.1, match served.2 with | .ok response => response.success | .error _ => false)

/-- A success means that each entry that was counted is in the node's own collection; nothing is
ever forwarded. -/
def StoresOnReplica (codec : Codec P) (crc32c : List UInt8 → UInt32) (hash : Nat → Nat)
    (r : StorageRouter Addr (Collection P D)) (now : Nat) (request : ReplicaRequest) : Prop :=
  ∀ rounds success, r.serve codec crc32c hash now request = some (rounds, success) →
    (∀ round ∈ rounds, round.outcome.forwarded = []) ∧
      (success = true → ∀ round ∈ rounds, round.ok = true → round.Holds codec)

def RoundsStay (codec : Codec P) (hash : Nat → Nat) (rounds : List (Round Addr P D)) :
    ReplicaRequest → Prop
  | .streamReplicate _ status =>
    status = none → (∀ round ∈ rounds, round.Taken codec hash) → ∀ round ∈ rounds, round.Stays codec
  | _ => ∀ round ∈ rounds, round.Taken codec hash → round.Stays codec

/-- What the answer of a handler says about its rounds. -/
def answers (rounds : List (Round Addr P D)) : ReplicaRequest → Bool
  | .streamReplicate _ status => status.isNone && rounds.all Round.ok
  | _ => rounds.any Round.ok

theorem serve_eq (codec : Codec P) (crc32c : List UInt8 → UInt32) (hash : Nat → Nat)
    (r : StorageRouter Addr (Collection P D)) (now : Nat) (request : ReplicaRequest) :
    r.serve codec crc32c hash now request =
      (r.insertAll codec crc32c hash request.entries).map fun rounds =>
        (rounds, answers rounds request) := by
  cases request with
  | replicate arrival =>
    rw [serve, replicate, ReplicaRequest.entries, insertAll]
    rcases r.insert codec crc32c hash arrival.request.collection (arrival.item P)
        arrival.answer with _ | ⟨router, forwarded, e | _⟩
    · rfl
    · rfl
    · rfl
  | batchReplicate request =>
    rw [serve, batchReplicate, Option.map_map]
    refine congrArg (fun f => Option.map f _) (funext fun rounds => Prod.ext rfl ?_)
    show decide (0 < (rounds.filter Round.ok).length) = rounds.any Round.ok
    rw [Bool.eq_iff_iff, decide_eq_true_eq, List.length_filter_pos_iff, List.any_eq_true]
  | streamReplicate stream status =>
    rw [serve, streamReplicate, Option.map_map]
    refine congrArg (fun f => Option.map f _) (funext fun rounds => Prod.ext rfl ?_)
    cases status with
    | some status => rfl
    | none =>
      show decide ((rounds.filter fun round => ¬ round.ok).length = 0) = (true && rounds.all Round.ok)
      rw [Bool.true_and, Bool.eq_iff_iff, decide_eq_true_eq, List.length_eq_zero_iff,
        List.filter_eq_nil_iff, List.all_eq_true]
      simp

/-- With nothing forwarded, the rounds keep what the answer says. -/
theorem roundsStay_iff {rounds : List (Round Addr P D)}
    (hmade : ∀ round ∈ rounds, round.Made codec crc32c hash ∧
      round.before.AtHome hash round.arrival.request.id) (request : ReplicaRequest) :
    (answers rounds request = true → ∀ round ∈ rounds, round.ok = true → round.Holds codec) ↔
      RoundsStay codec hash rounds request := by
  have hok : ∀ round ∈ rounds, (round.ok = true ↔ round.Taken codec hash) :=
    fun round hround => (hmade round hround).1.ok_iff (hmade round hround).2
  have hkept : ∀ round ∈ rounds, round.Taken codec hash → (round.Holds codec ↔ round.Stays codec) :=
    fun round hround htaken => (hmade round hround).1.holds_iff htaken
  have hany : (rounds.any Round.ok = true → ∀ round ∈ rounds, round.ok = true → round.Holds codec) ↔
      ∀ round ∈ rounds, round.Taken codec hash → round.Stays codec := by
    constructor
    · intro hholds round hround htaken
      have htrue := (hok round hround).mpr htaken
      exact (hkept round hround htaken).mp
        (hholds (List.any_eq_true.mpr ⟨round, hround, htrue⟩) round hround htrue)
    · intro hstays _ round hround htrue
      have htaken := (hok round hround).mp htrue
      exact (hkept round hround htaken).mpr (hstays round hround htaken)
  match request with
  | .replicate _ => exact hany
  | .batchReplicate _ => exact hany
  | .streamReplicate _ (some _) =>
    exact iff_of_true (fun hfalse => Bool.noConfusion hfalse) fun hnone => by cases hnone
  | .streamReplicate _ none =>
    show (rounds.all Round.ok = true → _) ↔ (none = none → _)
    rw [List.all_eq_true]
    constructor
    · intro hholds _ htaken round hround
      have htrue : ∀ round ∈ rounds, round.ok = true :=
        fun round hround => (hok round hround).mpr (htaken round hround)
      exact (hkept round hround (htaken round hround)).mp
        (hholds htrue round hround (htrue round hround))
    · intro hstays htrue round hround _
      have htaken : ∀ round ∈ rounds, round.Taken codec hash :=
        fun round hround => (hok round hround).mp (htrue round hround)
      exact (hkept round hround (htaken round hround)).mpr (hstays rfl htaken round hround)

/-- A node stores what it says it stored, and forwards nothing, exactly when its view gives it every
id and its collections keep what they take. -/
theorem replica_stores_iff (r : StorageRouter Addr (Collection P D)) (now : Nat)
    (request : ReplicaRequest) :
    StoresOnReplica codec crc32c hash r now request ↔
      (∀ entry ∈ request.entries, r.AtHome hash entry.2.request.id) ∧
        ∀ rounds, r.insertAll codec crc32c hash request.entries = some rounds →
          RoundsStay codec hash rounds request := by
  have hserved : ∀ rounds, r.insertAll codec crc32c hash request.entries = some rounds →
      r.serve codec crc32c hash now request = some (rounds, answers rounds request) := by
    intro rounds hrounds
    rw [serve_eq, hrounds]
    rfl
  constructor
  · intro hstores
    have hhome : ∀ entry ∈ request.entries, r.AtHome hash entry.2.request.id := by
      intro entry hentry node hroute
      have hshards : r.cluster.shardCount ≠ 0 := fun hnone => by
        rw [route_eq_none_iff.mpr hnone] at hroute
        cases hroute
      obtain ⟨rounds, hrounds⟩ := insertAll_isSome codec crc32c hash hshards request.entries
      obtain ⟨hentries, hmade⟩ := insertAll_made hrounds
      rw [← hentries] at hentry
      obtain ⟨round, hround, rfl⟩ := List.mem_map.mp hentry
      obtain ⟨hforwarded, -⟩ := hstores rounds _ (hserved rounds hrounds)
      have hat := (hmade round hround).1.forwarded_iff.mp (hforwarded round hround)
      exact ((hmade round hround).2.atHome_iff _).mp hat node hroute
    refine ⟨hhome, fun rounds hrounds => ?_⟩
    obtain ⟨hentries, hmade⟩ := insertAll_made hrounds
    refine (roundsStay_iff (fun round hround => ⟨(hmade round hround).1, ?_⟩) request).mp
      (hstores rounds _ (hserved rounds hrounds)).2
    exact ((hmade round hround).2.atHome_iff _).mpr
      (hhome _ (hentries ▸ List.mem_map_of_mem hround))
  · rintro ⟨hhome, hstay⟩ rounds success hserve
    rw [serve_eq] at hserve
    obtain ⟨rounds, hrounds, hsame⟩ := Option.map_eq_some_iff.mp hserve
    obtain ⟨rfl, rfl⟩ := Prod.mk.inj hsame
    obtain ⟨hentries, hmade⟩ := insertAll_made hrounds
    have hat : ∀ round ∈ rounds, round.Made codec crc32c hash ∧
        round.before.AtHome hash round.arrival.request.id :=
      fun round hround => ⟨(hmade round hround).1, ((hmade round hround).2.atHome_iff _).mpr
        (hhome _ (hentries ▸ List.mem_map_of_mem hround))⟩
    exact ⟨fun round hround => (hat round hround).1.forwarded_iff.mpr (hat round hround).2,
      (roundsStay_iff hat request).mpr (hstay rounds hrounds)⟩

/-! ## A replica that is not the primary -/

/-- One shard, whose primary is the other node. -/
def replicaRouter : StorageRouter Unit (Collection Unit Nat) where
  nodeId := "replica"
  cluster :=
    { localNodeId := "replica"
      shardCount := 1
      topology :=
        { (ClusterTopology.new.addNode (sampleNode "primary")).addNode (sampleNode "replica") with
          shardToNode := fun _ => some "primary"
          shardReplicas := fun _ => some ["replica"] } }
  connectionPools := ["primary"]
  collections := fun _ => none

/-- The primary answers that it stored what came back to it. -/
def replicated : Arrival where
  request := { collection := "vectors", id := 1, vector := [0, 0, 0x80, 0x3F], sequenceNumber := 1 }
  timestamp := 0
  level := 0
  answer := .response true

/-- The replica sends the entry to the primary, answers success, and has stored nothing. -/
theorem not_replica_stores_replicated :
    ¬ ∀ (r : StorageRouter Unit (Collection Unit Nat)) (request : ReplicaRequest),
      StoresOnReplica (textCodec [] []) (fun _ => 0) id r 0 request := by
  intro hall
  obtain ⟨hforwarded, -⟩ := hall replicaRouter (.replicate replicated) _ true rfl
  exact absurd (hforwarded _ List.mem_cons_self) (by decide)

end Cluster

end RTDB
