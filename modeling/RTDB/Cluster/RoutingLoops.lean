import RTDB.Cluster.Router
import RTDB.Lib.Cascade

/-!
# Requests that go round

A handler routes again what was routed to it.  Whether a request comes to rest is up to the views of
the nodes alone.
-/

namespace RTDB
namespace Cluster

open Bytes Cascade Relation Storage StorageRouter

variable {Addr C : Type}

/-! ## What a call forwards -/

/-- A call of a node's router by a client of the cluster. -/
inductive ClientCall where
  | search (collection : String) (vector : List UInt32) (topK : Nat) (broadcast : Bool)
  | insert (collection : String) (id : VectorId) (vector : List UInt32)
  | batchInsert (collection : String) (vectors : List (VectorId × List UInt32))

def StorageRouter.call (hash : Nat → Nat) (it : Iteration Addr) (draw : UInt64)
    (r : StorageRouter Addr C) : ClientCall → List Message
  | .search collection vector topK false => r.singleShardSearch hash draw collection vector topK
  | .search collection vector topK true => r.scatterSearch it collection vector topK
  | .insert collection id vector => r.insertForwards hash collection id vector
  | .batchInsert collection vectors => r.batchInsert hash collection vectors

namespace Network

/-- A message makes its node forward others; a node that is not there forwards nothing. -/
def next (hash : Nat → Nat) (net : Network Addr C) (draws : Nat → UInt64) (message : Message) :
    List Message :=
  if message.node ∈ net.members then (net.router message.node).handle hash draws message.rpc else []

/-- Whatever is drawn, the call causes finitely many requests between nodes. -/
def Settles (hash : Nat → Nat) (it : Iteration Addr) (net : Network Addr C) (node : String)
    (call : ClientCall) : Prop :=
  ∀ (draw : UInt64) (draws : List Nat → Nat → UInt64),
    Ends (net.next hash) draws (numbered ((net.router node).call hash it draw call))

/-! ## The views -/

/-- A node can hand the request for a shard key on to another one. -/
def HandsOn (hash : Nat → Nat) (net : Network Addr C) (key : Nat) (node other : String) : Prop :=
  node ∈ net.members ∧ (net.router node).route hash key = some (.remote other) ∧
    other ∈ (net.router node).connectionPools

/-- For some draw, it hands a search on. -/
def HandsSearchOn (hash : Nat → Nat) (net : Network Addr C) (node other : String) : Prop :=
  ∃ draw : UInt64, net.HandsOn hash draw.toNat node other

/-- No node that the call comes to hands it on in a circle. -/
def NoCircle (hash : Nat → Nat) (it : Iteration Addr) (net : Network Addr C) (node : String) :
    ClientCall → Prop
  | .search _ _ _ false => NoLoop (net.HandsSearchOn hash) node
  | .search _ _ _ true =>
    ∀ info ∈ (net.router node).cluster.topology.activeNodes it,
      info.id ∈ (net.router node).connectionPools → NoLoop (net.HandsSearchOn hash) info.id
  | .insert _ id _ => NoLoop (net.HandsOn hash id) node
  | .batchInsert _ vectors => ∀ v ∈ vectors, NoLoop (net.HandsOn hash v.1) node

variable {hash : Nat → Nat} {net : Network Addr C}

theorem acc_handsOn_iff {key : Nat} {node : String} :
    Acc (fun later node => net.HandsOn hash key node later) node ↔
      NoLoop (net.HandsOn hash key) node :=
  acc_iff_noLoop (fun _ _ hedge => hedge.1) node

theorem acc_handsSearchOn_iff {node : String} :
    Acc (fun later node => net.HandsSearchOn hash node later) node ↔
      NoLoop (net.HandsSearchOn hash) node :=
  acc_iff_noLoop (fun _ _ hedge => hedge.choose_spec.1) node

end Network

/-! ## One message -/

section Messages

variable {hash : Nat → Nat} {r : StorageRouter Addr C}

theorem mem_forward {node : String} {rpc : Rpc} {message : Message} :
    message ∈ r.forward node rpc ↔ node ∈ r.connectionPools ∧ message = { node, rpc } := by
  rw [forward]
  split
  · rename_i hpool
    rw [List.mem_singleton, and_iff_right hpool]
  · rename_i hpool
    exact iff_of_false List.not_mem_nil fun hboth => hpool hboth.1

theorem mem_singleShardSearch {draw : UInt64} {collection : String} {vector : List UInt32}
    {topK : Nat} {message : Message} :
    message ∈ r.singleShardSearch hash draw collection vector topK ↔
      ∃ node, r.route hash draw.toNat = some (.remote node) ∧ node ∈ r.connectionPools ∧
        message = { node, rpc := .search { collection, vector := wordBytes vector, topK } } := by
  rw [singleShardSearch]
  rcases hroute : r.route hash draw.toNat with _ | _ | node
  · simp
  · simp
  · simp [mem_forward]

theorem mem_insertForwards {collection : String} {id : VectorId} {vector : List UInt32}
    {message : Message} :
    message ∈ r.insertForwards hash collection id vector ↔
      ∃ node, r.route hash id = some (.remote node) ∧ node ∈ r.connectionPools ∧
        message = { node, rpc := .insert { collection, id, vector := wordBytes vector } } := by
  rw [insertForwards]
  rcases hroute : r.route hash id with _ | _ | node
  · simp
  · simp
  · simp [mem_forward]

theorem nodeFor_eq_iff {id : VectorId} {node : String} (hnode : node ≠ r.nodeId) :
    r.nodeFor hash id = some node ↔ r.route hash id = some (.remote node) := by
  rw [nodeFor, route]
  rcases r.cluster.getNodeForVector hash id with _ | _ | target
  · simp
  · simp [Ne.symm hnode]
  · simp only [Option.map_some, Option.getD_some, Option.some.injEq]
    split
    · rename_i htarget
      simp [htarget, Ne.symm hnode]
    · simp

theorem mem_batchInsert {collection : String} {vectors : List (VectorId × List UInt32)}
    {message : Message} :
    message ∈ r.batchInsert hash collection vectors ↔
      ∃ node, node ≠ r.nodeId ∧ node ∈ r.connectionPools ∧
        (∃ v ∈ vectors, r.route hash v.1 = some (.remote node)) ∧
        message =
          { node
            rpc := .batchInsert
              { collection
                entries := (vectors.filter fun v => r.nodeFor hash v.1 = some node).map fun v =>
                  { id := v.1, vector := wordBytes v.2 } } } := by
  rw [batchInsert, nodeGroups, List.mem_flatMap]
  constructor
  · rintro ⟨group, hgroup, hmessage⟩
    obtain ⟨node, hnode, rfl⟩ := List.mem_map.mp hgroup
    obtain ⟨v, hv, hfor⟩ := List.mem_filterMap.mp (List.mem_dedup.mp hnode)
    split at hmessage
    · exact absurd hmessage List.not_mem_nil
    · rename_i hother
      obtain ⟨hpool, rfl⟩ := mem_forward.mp hmessage
      exact ⟨node, hother, hpool, ⟨v, hv, (nodeFor_eq_iff hother).mp hfor⟩, rfl⟩
  · rintro ⟨node, hother, hpool, ⟨v, hv, hroute⟩, rfl⟩
    refine ⟨_, List.mem_map.mpr ⟨node, List.mem_dedup.mpr (List.mem_filterMap.mpr
      ⟨v, hv, (nodeFor_eq_iff hother).mpr hroute⟩), rfl⟩, ?_⟩
    rw [if_neg hother]
    exact mem_forward.mpr ⟨hpool, rfl⟩

theorem route_ne_self {key : Nat} {node : String} (hroute : r.route hash key = some (.remote node)) :
    node ≠ r.nodeId := by
  rw [route] at hroute
  rcases htarget : r.cluster.getNodeForVector hash key with _ | _ | target
  · simp [htarget] at hroute
  · simp [htarget] at hroute
  · rw [htarget, Option.map_some, Option.some.injEq] at hroute
    dsimp only at hroute
    split at hroute
    · cases hroute
    · rename_i hother
      rwa [← Route.remote.inj hroute]

end Messages

section Follows

variable {hash : Nat → Nat} {net : Network Addr C}

theorem follows_iff {later message : Message} :
    Follows (net.next hash) later message ↔ message.node ∈ net.members ∧
      ∃ draws, later ∈ (net.router message.node).handle hash draws message.rpc := by
  rw [Follows]
  simp only [Network.next]
  split
  · rename_i hmember
    rw [and_iff_right hmember]
  · rename_i hmember
    simp [hmember]

theorem follows_search_iff {node : String} {req : Proto.SearchRequest} {later : Message} :
    Follows (net.next hash) later { node, rpc := .search req } ↔
      ∃ other, net.HandsSearchOn hash node other ∧
        later = { node := other
                  rpc := .search { req with vector := wordBytes (wordsOf req.vector) } } := by
  rw [follows_iff]
  constructor
  · rintro ⟨hmember, draws, hlater⟩
    obtain ⟨other, hroute, hpool, rfl⟩ := mem_singleShardSearch.mp hlater
    exact ⟨other, ⟨draws 0, hmember, hroute, hpool⟩, rfl⟩
  · rintro ⟨other, ⟨draw, hmember, hroute, hpool⟩, rfl⟩
    exact ⟨hmember, fun _ => draw, mem_singleShardSearch.mpr ⟨other, hroute, hpool, rfl⟩⟩

theorem follows_insert_iff {node : String} {req : Proto.InsertRequest} {later : Message} :
    Follows (net.next hash) later { node, rpc := .insert req } ↔
      ∃ other, net.HandsOn hash req.id node other ∧
        later = { node := other
                  rpc := .insert { req with vector := wordBytes (wordsOf req.vector) } } := by
  rw [follows_iff]
  constructor
  · rintro ⟨hmember, draws, hlater⟩
    obtain ⟨other, hroute, hpool, rfl⟩ := mem_insertForwards.mp hlater
    exact ⟨other, ⟨hmember, hroute, hpool⟩, rfl⟩
  · rintro ⟨other, ⟨hmember, hroute, hpool⟩, rfl⟩
    exact ⟨hmember, fun _ => 0, mem_insertForwards.mpr ⟨other, hroute, hpool, rfl⟩⟩

/-- The ids of a group that goes to another node are those that the node hands on to it. -/
theorem follows_batchInsert {node : String} {req : Proto.BatchInsertRequest} {later : Message}
    (hfollows : Follows (net.next hash) later { node, rpc := .batchInsert req }) :
    ∃ other entries, later = { node := other, rpc := .batchInsert { req with entries } } ∧
      entries ≠ [] ∧ (∀ e ∈ entries, net.HandsOn hash e.id node other) ∧
      entries.map (·.id) =
        (req.entries.map (·.id)).filter fun id =>
          (net.router node).route hash id = some (.remote other) := by
  obtain ⟨hmember, draws, hlater⟩ := follows_iff.mp hfollows
  obtain ⟨other, hother, hpool, ⟨v, hv, hroute⟩, rfl⟩ := mem_batchInsert.mp hlater
  refine ⟨other, _, rfl, ?_, ?_, ?_⟩
  · intro hnil
    rw [List.map_eq_nil_iff, List.filter_eq_nil_iff] at hnil
    exact hnil v hv (decide_eq_true ((nodeFor_eq_iff hother).mpr hroute))
  · intro e he
    obtain ⟨w, hw, rfl⟩ := List.mem_map.mp he
    have hfor := of_decide_eq_true (List.mem_filter.mp hw).2
    exact ⟨hmember, (nodeFor_eq_iff hother).mp hfor, hpool⟩
  · simp only [List.map_map, List.filter_map, Function.comp_def]
    congr 2
    funext e
    exact decide_eq_decide.mpr (nodeFor_eq_iff hother)

theorem exists_follows_batchInsert {node other : String} {req : Proto.BatchInsertRequest}
    {id : VectorId} (hid : id ∈ req.entries.map (·.id)) (hhands : net.HandsOn hash id node other) :
    ∃ later, Follows (net.next hash) later { node, rpc := .batchInsert req } ∧ later.node = other ∧
      ∃ req', later.rpc = .batchInsert req' ∧ id ∈ req'.entries.map (·.id) := by
  obtain ⟨hmember, hroute, hpool⟩ := hhands
  obtain ⟨e, he, rfl⟩ := List.mem_map.mp hid
  have hother := route_ne_self hroute
  refine ⟨_, follows_iff.mpr ⟨hmember, fun _ => 0, mem_batchInsert.mpr ⟨other, hother, hpool,
    ⟨(e.id, wordsOf e.vector), List.mem_map_of_mem he, hroute⟩, rfl⟩⟩, rfl, _, rfl, ?_⟩
  refine List.mem_map.mpr ⟨_, List.mem_map_of_mem (List.mem_filter.mpr
    ⟨List.mem_map_of_mem he, decide_eq_true ((nodeFor_eq_iff hother).mpr hroute)⟩), rfl⟩

/-! ## Descents of messages are descents of nodes -/

theorem acc_search_iff {node : String} (req : Proto.SearchRequest) :
    Acc (Follows (net.next hash)) { node, rpc := .search req } ↔
      NoLoop (net.HandsSearchOn hash) node := by
  rw [← Network.acc_handsSearchOn_iff]
  constructor
  · refine acc_of_sim (r := fun item later => Follows (net.next hash) later item)
      (S := fun message node => message.node = node ∧ ∃ req, message.rpc = .search req) ?_
      ⟨rfl, req, rfl⟩
    rintro ⟨_, _⟩ node ⟨rfl, req, rfl⟩ other hother
    exact ⟨_, follows_search_iff.mpr ⟨other, hother, rfl⟩, rfl, _, rfl⟩
  · refine acc_of_sim (q := fun item later => Follows (net.next hash) later item)
      (S := fun node message => message.node = node ∧ ∃ req, message.rpc = .search req) ?_
      ⟨rfl, req, rfl⟩
    rintro node ⟨_, _⟩ ⟨rfl, req, rfl⟩ later hlater
    obtain ⟨other, hother, rfl⟩ := follows_search_iff.mp hlater
    exact ⟨other, hother, rfl, _, rfl⟩

theorem acc_insert_iff {node : String} {req : Proto.InsertRequest} :
    Acc (Follows (net.next hash)) { node, rpc := .insert req } ↔
      NoLoop (net.HandsOn hash req.id) node := by
  rw [← Network.acc_handsOn_iff]
  constructor
  · refine acc_of_sim (r := fun item later => Follows (net.next hash) later item)
      (S := fun message node => message.node = node ∧
        ∃ req', message.rpc = .insert req' ∧ req'.id = req.id) ?_ ⟨rfl, req, rfl, rfl⟩
    rintro ⟨_, _⟩ node ⟨rfl, req', rfl, hid⟩ other hother
    rw [← hid] at hother
    exact ⟨_, follows_insert_iff.mpr ⟨other, hother, rfl⟩, rfl, _, rfl, hid⟩
  · refine acc_of_sim (q := fun item later => Follows (net.next hash) later item)
      (S := fun node message => message.node = node ∧
        ∃ req', message.rpc = .insert req' ∧ req'.id = req.id) ?_ ⟨rfl, req, rfl, rfl⟩
    rintro node ⟨_, _⟩ ⟨rfl, req', rfl, hid⟩ later hlater
    obtain ⟨other, hother, rfl⟩ := follows_insert_iff.mp hlater
    rw [hid] at hother
    exact ⟨other, hother, rfl, _, rfl, hid⟩

/-- A group gets shorter, or keeps its first entry, which comes closer to its end. -/
theorem acc_batchInsert_of_forall (length : Nat) {node : String} {req : Proto.BatchInsertRequest}
    (hlength : req.entries.length ≤ length)
    (hall : ∀ e ∈ req.entries,
      Acc (fun later node => net.HandsOn hash e.id node later) node) :
    Acc (Follows (net.next hash)) { node, rpc := .batchInsert req } := by
  induction length generalizing node req with
  | zero =>
    refine Acc.intro _ fun later hlater => ?_
    obtain ⟨other, entries, rfl, hne, -, hids⟩ := follows_batchInsert hlater
    rw [List.eq_nil_of_length_eq_zero (by omega : req.entries.length = 0)] at hids
    exact absurd (List.map_eq_nil_iff.mp hids) hne
  | succ length ih =>
    obtain ⟨collection, entries⟩ := req
    cases entries with
    | nil => exact ih (Nat.zero_le _) hall
    | cons first rest =>
      have hfirst := hall first List.mem_cons_self
      generalize hid : first.id = id at hfirst
      induction hfirst generalizing first rest with
      | intro node hacc closer =>
        refine Acc.intro _ fun later hlater => ?_
        obtain ⟨other, entries, rfl, hne, hhands, hids⟩ := follows_batchInsert hlater
        have hreached : ∀ e ∈ entries,
            Acc (fun later node => net.HandsOn hash e.id node later) other := by
          intro e he
          have hin : e.id ∈ (first :: rest).map (·.id) :=
            List.mem_of_mem_filter (hids ▸ List.mem_map_of_mem he)
          obtain ⟨old, hold, heq⟩ := List.mem_map.mp hin
          exact (heq ▸ hall old hold).inv (hhands e he)
        have hcount : entries.length ≤ (first :: rest).length := by
          have hle := congrArg List.length hids
          rw [List.length_map] at hle
          rw [hle]
          exact (List.length_filter_le _ _).trans (List.length_map _).le
        rw [List.map_cons, List.filter_cons] at hids
        split at hids
        · rename_i hkept
          obtain ⟨first', rest', rfl⟩ := List.exists_cons_of_ne_nil hne
          have hsame : first'.id = id := by
            rw [← hid]
            exact (List.cons.inj hids).1
          exact closer other (hsame ▸ hhands first' List.mem_cons_self) first' rest'
            (hcount.trans hlength) hreached hsame
        · refine ih ?_ hreached
          have hle := congrArg List.length hids
          rw [List.length_map] at hle
          have hshort := (List.length_filter_le
            (fun id => (net.router node).route hash id = some (.remote other))
            (rest.map (·.id)))
          rw [List.length_map] at hshort
          rw [List.length_cons] at hlength
          show entries.length ≤ length
          omega

theorem acc_batchInsert_iff {node : String} {req : Proto.BatchInsertRequest} :
    Acc (Follows (net.next hash)) { node, rpc := .batchInsert req } ↔
      ∀ e ∈ req.entries, NoLoop (net.HandsOn hash e.id) node := by
  simp only [← Network.acc_handsOn_iff]
  constructor
  · intro hacc e he
    refine acc_of_sim (r := fun item later => Follows (net.next hash) later item)
      (S := fun message node => message.node = node ∧
        ∃ req', message.rpc = .batchInsert req' ∧ e.id ∈ req'.entries.map (·.id)) ?_
      ⟨rfl, req, rfl, List.mem_map_of_mem he⟩ hacc
    rintro ⟨_, _⟩ node ⟨rfl, req', rfl, hid⟩ other hother
    exact exists_follows_batchInsert hid hother
  · exact acc_batchInsert_of_forall _ (Nat.le_refl _)

/-- A node that is sent one query searches for it as for a search of its own. -/
theorem acc_batchSearch_iff {node collection : String} {vector : List UInt8} {topK : Nat} :
    Acc (Follows (net.next hash))
        { node, rpc := .batchSearch { collection, vectors := [vector], topK } } ↔
      NoLoop (net.HandsSearchOn hash) node := by
  rw [← acc_search_iff { collection, vector, topK }]
  have hsame : ∀ later, Follows (net.next hash) later
      { node, rpc := .batchSearch { collection, vectors := [vector], topK } } ↔
        Follows (net.next hash) later { node, rpc := .search { collection, vector, topK } } := by
    intro later
    rw [follows_iff, follows_iff]
    show _ ∧ (∃ draws, later ∈ List.flatMap _ [(vector, 0)]) ↔ _
    simp only [List.flatMap_singleton]
    rfl
  constructor
  · exact fun hacc => Acc.intro _ fun later hlater => hacc.inv ((hsame later).mpr hlater)
  · exact fun hacc => Acc.intro _ fun later hlater => hacc.inv ((hsame later).mp hlater)

end Follows

/-! ## One call -/

section Calls

variable {hash : Nat → Nat} {it : Iteration Addr} {net : Network Addr C} {node : String}

theorem settles_iff {call : ClientCall} :
    net.Settles hash it node call ↔
      ∀ draw, ∀ message ∈ (net.router node).call hash it draw call,
        Acc (Follows (net.next hash)) message := by
  refine forall_congr' fun draw => ?_
  exact ends_iff

/-- A call that a node forwards as it handles a request of its own. -/
theorem settles_iff_acc (hnode : node ∈ net.members) {call : ClientCall} (rpc : Rpc)
    (hsame : ∀ draw, (net.router node).call hash it draw call =
      (net.router node).handle hash (fun _ => draw) rpc)
    (hdraws : ∀ draws, (net.router node).handle hash draws rpc =
      (net.router node).handle hash (fun _ => draws 0) rpc) :
    net.Settles hash it node call ↔ Acc (Follows (net.next hash)) { node, rpc } := by
  rw [settles_iff]
  constructor
  · intro hall
    refine Acc.intro _ fun later hlater => ?_
    obtain ⟨-, draws, hmem⟩ := follows_iff.mp hlater
    exact hall (draws 0) later (by rw [hsame, ← hdraws]; exact hmem)
  · intro hacc draw message hmessage
    rw [hsame] at hmessage
    exact hacc.inv (follows_iff.mpr ⟨hnode, _, hmessage⟩)

/-- A call causes finitely many requests, whatever is drawn, exactly when the views hand it on in no
circle. -/
theorem routing_settles_iff (hnode : node ∈ net.members) (call : ClientCall) :
    net.Settles hash it node call ↔ net.NoCircle hash it node call := by
  match call with
  | .search collection vector topK false =>
    rw [settles_iff_acc hnode (.search { collection, vector := wordBytes vector, topK })
      (fun draw => ?_) (fun draws => rfl)]
    · exact acc_search_iff _
    · rw [StorageRouter.call, handle, wordsOf_wordBytes]
  | .search collection vector topK true =>
    rw [settles_iff, Network.NoCircle]
    constructor
    · intro hall info hinfo hpool
      have hroot := hall 0 _ (List.mem_flatMap.mpr ⟨info, hinfo, mem_forward.mpr ⟨hpool, rfl⟩⟩)
      exact acc_batchSearch_iff.mp hroot
    · intro hnone draw message hmessage
      obtain ⟨info, hinfo, hmessage⟩ := List.mem_flatMap.mp hmessage
      obtain ⟨hpool, rfl⟩ := mem_forward.mp hmessage
      exact acc_batchSearch_iff.mpr (hnone info hinfo hpool)
  | .insert collection id vector =>
    rw [settles_iff_acc hnode (.insert { collection, id, vector := wordBytes vector })
      (fun draw => ?_) (fun draws => rfl)]
    · exact acc_insert_iff
    · rw [StorageRouter.call, handle, wordsOf_wordBytes]
  | .batchInsert collection vectors =>
    rw [settles_iff_acc hnode (.batchInsert
      { collection
        entries := vectors.map fun v => { id := v.1, vector := wordBytes v.2 } })
      (fun draw => ?_) (fun draws => rfl)]
    · rw [acc_batchInsert_iff, List.forall_mem_map]
      rfl
    · rw [StorageRouter.call, handle, List.map_map]
      simp [Function.comp_def, wordsOf_wordBytes]

end Calls

/-! ## Two nodes -/

def pairTopology : ClusterTopology Unit :=
  { (ClusterTopology.new.addNode (sampleNode "a")).addNode (sampleNode "b") with
    shardToNode := fun shard => if shard = 0 then some "a" else if shard = 1 then some "b" else none }

/-- Both know the same of the cluster, and each is connected to the other. -/
def pair : Network Unit Unit where
  members := ["a", "b"]
  router name :=
    { nodeId := name
      cluster := { localNodeId := name, shardCount := 2, topology := pairTopology }
      connectionPools := if name = "a" then ["b"] else ["a"]
      collections := fun _ => none }

theorem pair_handsOn {node other : String} (hands : pair.HandsOn id 0 node other) :
    node = "b" ∧ other = "a" := by
  obtain ⟨hnode, hroute, -⟩ := hands
  have hkept : (pair.router "a").route id 0 = some .here := by decide
  have hmoved : (pair.router "b").route id 0 = some (.remote "a") := by decide
  rcases List.mem_pair.mp hnode with rfl | rfl
  · rw [hkept] at hroute
    exact absurd hroute (by simp)
  · rw [hmoved, Option.some.injEq, Route.remote.injEq] at hroute
    exact ⟨rfl, hroute.symm⟩

theorem routing_settles_pair :
    pair.Settles id .forward "b" (.insert "vectors" 0 [0x3F800000]) := by
  refine (routing_settles_iff (by decide) _).mpr fun later _ hcycle => ?_
  obtain ⟨other, hfirst, hback⟩ := TransGen.head'_iff.mp hcycle
  obtain ⟨rfl, rfl⟩ := pair_handsOn hfirst
  rcases ReflTransGen.cases_head hback with heq | ⟨next, hnext, -⟩
  · exact absurd heq (by decide)
  · exact absurd (pair_handsOn hnext).1 (by decide)

/-- Of two nodes that agree each can draw a shard of the other, for every search it is sent. -/
theorem not_routing_settles_pair :
    ¬ ∀ (net : Network Unit Unit) (node : String), node ∈ net.members → ∀ call : ClientCall,
      net.Settles id .forward node call := by
  intro hall
  have hsettles := hall pair "a" (by decide) (.search "vectors" [] 1 false)
  rw [settles_iff_acc (by decide) (.search { collection := "vectors", vector := [], topK := 1 })
    (fun _ => rfl) (fun _ => rfl), acc_search_iff] at hsettles
  have hthere : pair.HandsSearchOn id "a" "b" := ⟨1, by decide, by decide, by decide⟩
  have hback : pair.HandsSearchOn id "b" "a" := ⟨0, by decide, by decide, by decide⟩
  exact hsettles "a" ReflTransGen.refl ((TransGen.single hthere).tail hback)

end Cluster
end RTDB
