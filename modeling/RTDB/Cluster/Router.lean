import RTDB.Cluster.Config
import RTDB.Collection.Collection
import RTDB.Lib.Bytes

/-!
# Routing

`cluster/storage_router.rs` with the handlers of `cluster/server.rs` behind it and the calls of
`cluster/client.rs` between two nodes.  The shards of a search are drawn at random; a draw, a clock
reading and what another node answers are inputs.
-/

namespace RTDB
namespace Cluster

open Bytes Storage

/-! ## Requests between nodes -/

namespace Proto

structure SearchRequest where
  collection : String
  vector : List UInt8
  topK : Nat
  deriving DecidableEq, Repr

structure BatchSearchRequest where
  collection : String
  vectors : List (List UInt8)
  topK : Nat
  deriving DecidableEq, Repr

structure InsertRequest where
  collection : String
  id : VectorId
  vector : List UInt8
  deriving DecidableEq, Repr

structure VectorEntry where
  id : VectorId
  vector : List UInt8
  deriving DecidableEq, Repr

structure BatchInsertRequest where
  collection : String
  entries : List VectorEntry
  deriving DecidableEq, Repr

structure ReplicateRequest where
  collection : String
  id : VectorId
  vector : List UInt8
  sequenceNumber : Nat
  deriving DecidableEq, Repr

structure BatchReplicateRequest (ε : Type) where
  collection : String
  entries : List ε
  baseSequence : Nat

structure ReplicateResponse where
  success : Bool
  replicatedAt : Nat
  appliedSequence : Nat
  error : String
  deriving DecidableEq, Repr

structure BatchReplicateResponse where
  success : Bool
  replicatedAt : Nat
  highestAppliedSequence : Nat
  appliedCount : Nat
  error : String
  deriving DecidableEq, Repr

end Proto

inductive Rpc where
  | search (request : Proto.SearchRequest)
  | batchSearch (request : Proto.BatchSearchRequest)
  | insert (request : Proto.InsertRequest)
  | batchInsert (request : Proto.BatchInsertRequest)
  deriving DecidableEq, Repr

structure Message where
  node : String
  rpc : Rpc
  deriving DecidableEq, Repr

inductive RouterError where
  | collectionNotFound (collection : String)
  | storage (message : String)
  | collection (e : RTDB.Error)
  deriving DecidableEq, Repr

/-- `to_string()` of an error. -/
def RouterError.toText : RouterError → String
  | .collectionNotFound name => "Collection not found: " ++ name
  | .storage message => "Storage error: " ++ message
  | .collection (.invalidDimension expected actual) =>
    "Invalid vector dimension: expected " ++ toString expected ++ ", got " ++ toString actual
  | .collection (.storage (.storage message)) => "Storage error: " ++ message
  | .collection (.storage (.serialization message)) => "Serialization error: " ++ message
  | .collection (.storage (.panic message)) => message

/-! ## The router -/

/-- The router of a node: its view of the cluster, the nodes its client has connections to, and its
collections by their names. -/
structure StorageRouter (Addr C : Type) where
  nodeId : String
  cluster : ClusterManager Addr
  connectionPools : List String
  collections : String → Option C

/-- Where a request is carried out. -/
inductive Route where
  | here
  | remote (node : String)
  deriving DecidableEq, Repr

namespace StorageRouter

section Routes

variable {Addr C : Type} (hash : Nat → Nat) (r : StorageRouter Addr C)

/-- The `match` on the target node; none where finding it divides by zero. -/
def route (id : Nat) : Option Route :=
  (r.cluster.getNodeForVector hash id).map fun target =>
    match target with
    | some node => if node = r.nodeId then .here else .remote node
    | none => .here

/-- A call of the client, which fails at once without a connection. -/
def forward (node : String) (rpc : Rpc) : List Message :=
  if node ∈ r.connectionPools then [{ node, rpc }] else []

/-! ### What each call forwards -/

def singleShardSearch (draw : UInt64) (collection : String) (vector : List UInt32) (topK : Nat) :
    List Message :=
  match r.route hash draw.toNat with
  | some (.remote node) =>
    r.forward node (.search { collection, vector := wordBytes vector, topK })
  | _ => []

def scatterSearch (it : Iteration Addr) (collection : String) (vector : List UInt32) (topK : Nat) :
    List Message :=
  (r.cluster.topology.activeNodes it).flatMap fun n =>
    r.forward n.id (.batchSearch { collection, vectors := [wordBytes vector], topK })

def insertForwards (collection : String) (id : VectorId) (vector : List UInt32) : List Message :=
  match r.route hash id with
  | some (.remote node) => r.forward node (.insert { collection, id, vector := wordBytes vector })
  | _ => []

/-- `target_node.unwrap_or_else(|| self.node_id.clone())`. -/
def nodeFor (id : VectorId) : Option String :=
  (r.cluster.getNodeForVector hash id).map fun target => target.getD r.nodeId

def nodeGroups (vectors : List (VectorId × List UInt32)) :
    List (String × List (VectorId × List UInt32)) :=
  (vectors.filterMap fun v => r.nodeFor hash v.1).dedup.map fun node =>
    (node, vectors.filter fun v => r.nodeFor hash v.1 = some node)

def batchInsert (collection : String) (vectors : List (VectorId × List UInt32)) : List Message :=
  (r.nodeGroups hash vectors).flatMap fun group =>
    if group.1 = r.nodeId then []
    else r.forward group.1 (.batchInsert
      { collection, entries := group.2.map fun v => { id := v.1, vector := wordBytes v.2 } })

/-! ### The handlers -/

/-- What a node forwards when it handles a request; the `i`-th query of a batch has its own draw. -/
def handle (draws : Nat → UInt64) : Rpc → List Message
  | .search req => r.singleShardSearch hash (draws 0) req.collection (wordsOf req.vector) req.topK
  | .batchSearch req =>
    req.vectors.zipIdx.flatMap fun query =>
      r.singleShardSearch hash (draws query.2) req.collection (wordsOf query.1) req.topK
  | .insert req => r.insertForwards hash req.collection req.id (wordsOf req.vector)
  | .batchInsert req =>
    r.batchInsert hash req.collection (req.entries.map fun e => (e.id, wordsOf e.vector))

end Routes

/-! ### Inserting -/

/-- What comes back for a forwarded insert. -/
inductive InsertAnswer where
  | timeout
  | failed (message : String)
  | response (success : Bool)
  deriving DecidableEq, Repr

/-- What an insert leaves behind. -/
structure InsertOutcome (Addr C : Type) where
  router : StorageRouter Addr C
  forwarded : List Message
  result : Except RouterError Unit

def remoteInsert {Addr C : Type} (r : StorageRouter Addr C) (node : String)
    (request : Proto.InsertRequest) (answer : InsertAnswer) : InsertOutcome Addr C where
  router := r
  forwarded := r.forward node (.insert request)
  result :=
    if node ∈ r.connectionPools then
      match answer with
      | .timeout => .error (.storage ("Insert timeout on node " ++ node))
      | .failed message => .error (.storage ("Insert failed: " ++ message))
      | .response true => .ok ()
      | .response false => .error (.storage "Insert failed")
    else .error (.storage ("No connection pool for node " ++ node))

section Insert

variable {Addr P D : Type} [LinearOrder D] (codec : Codec P) (crc32c : List UInt8 → UInt32)
  (hash : Nat → Nat)

def localInsert (r : StorageRouter Addr (Collection P D)) (collection : String)
    (item : UpsertItem P) : InsertOutcome Addr (Collection P D) :=
  match r.collections collection with
  | none => { router := r, forwarded := [], result := .error (.collectionNotFound collection) }
  | some c =>
    { router :=
        { r with
          collections := Function.update r.collections collection
            (some (c.upsert codec crc32c [item]).1) }
      forwarded := []
      result :=
        match (c.upsert codec crc32c [item]).2 with
        | .error e => .error (.collection e)
        | .ok _ => .ok () }

/-- The payload is dropped on the way to another node. -/
def insert (r : StorageRouter Addr (Collection P D)) (collection : String) (item : UpsertItem P)
    (answer : InsertAnswer) : Option (InsertOutcome Addr (Collection P D)) :=
  (r.route hash item.id).map fun route =>
    match route with
    | .here => r.localInsert codec crc32c collection item
    | .remote node =>
      r.remoteInsert node { collection, id := item.id, vector := wordBytes item.vector.data } answer

end Insert

end StorageRouter

/-! ## Replication -/

/-- A replicated entry as it arrives, with the inputs of its insert. -/
structure Arrival where
  request : Proto.ReplicateRequest
  timestamp : Nat
  level : Nat
  answer : StorageRouter.InsertAnswer

def Arrival.item (P : Type) (a : Arrival) : UpsertItem P where
  id := a.request.id
  vector := { data := wordsOf a.request.vector, payload := none }
  timestamp := a.timestamp
  level := a.level

/-- One entry handled: the router before, the entry and what its insert left. -/
structure Round (Addr P D : Type) where
  before : StorageRouter Addr (Collection P D)
  collection : String
  arrival : Arrival
  outcome : StorageRouter.InsertOutcome Addr (Collection P D)

def Round.ok {Addr P D : Type} (round : Round Addr P D) : Bool :=
  match round.outcome.result with
  | .ok () => true
  | .error _ => false

namespace StorageRouter

section Replicate

variable {Addr P D : Type} [LinearOrder D] (codec : Codec P) (crc32c : List UInt8 → UInt32)
  (hash : Nat → Nat)

def insertAll (r : StorageRouter Addr (Collection P D)) :
    List (String × Arrival) → Option (List (Round Addr P D))
  | [] => some []
  | (collection, arrival) :: arrivals =>
    (r.insert codec crc32c hash collection (arrival.item P) arrival.answer).bind fun outcome =>
      (insertAll outcome.router arrivals).map fun rounds =>
        { before := r, collection, arrival, outcome } :: rounds

/-- "For replication, we store locally without forwarding." -/
def replicate (r : StorageRouter Addr (Collection P D)) (now : Nat) (arrival : Arrival) :
    Option (Round Addr P D × Proto.ReplicateResponse) :=
  (r.insert codec crc32c hash arrival.request.collection (arrival.item P) arrival.answer).map
    fun outcome =>
      ({ before := r, collection := arrival.request.collection, arrival, outcome },
        match outcome.result with
        | .ok () =>
          { success := true, replicatedAt := now
            appliedSequence := arrival.request.sequenceNumber, error := "" }
        | .error e =>
          { success := false, replicatedAt := now
            appliedSequence := arrival.request.sequenceNumber, error := e.toText })

/-- The entries go into the collection of the batch; their own is not read. -/
def batchReplicate (r : StorageRouter Addr (Collection P D)) (now : Nat)
    (request : Proto.BatchReplicateRequest Arrival) :
    Option (List (Round Addr P D) × Proto.BatchReplicateResponse) :=
  (r.insertAll codec crc32c hash (request.entries.map fun a => (request.collection, a))).map
    fun rounds =>
      let applied := rounds.filter Round.ok
      (rounds,
        { success := applied.length > 0
          replicatedAt := now
          highestAppliedSequence := applied.foldl
            (fun highest round => max highest round.arrival.request.sequenceNumber)
            request.baseSequence
          appliedCount := applied.length
          error := if applied.length > 0 then "" else "All replications failed" })

/-- `status` ends the stream with an error of its transport. -/
def streamReplicate (r : StorageRouter Addr (Collection P D)) (now : Nat)
    (stream : List Arrival) (status : Option String) :
    Option (List (Round Addr P D) × Except String Proto.ReplicateResponse) :=
  (r.insertAll codec crc32c hash (stream.map fun a => (a.request.collection, a))).map
    fun rounds =>
      let failed := (rounds.filter fun round => ¬ round.ok).length
      (rounds,
        match status with
        | some status => .error status
        | none =>
          .ok
            { success := failed = 0
              replicatedAt := now
              appliedSequence := (rounds.filter Round.ok).length
              error := if failed = 0 then "" else toString failed ++ " entries failed" })

end Replicate

end StorageRouter

structure Network (Addr C : Type) where
  members : List String
  router : String → StorageRouter Addr C

def sampleNode (id : String) : NodeInfo Unit :=
  { id, address := (), status := .active, shards := [], capacity := 0, load := 0, lastHeartbeat := 0 }

end Cluster
end RTDB
