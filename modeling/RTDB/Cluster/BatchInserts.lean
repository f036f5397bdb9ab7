import RTDB.Cluster.ReplicaWrites
import RTDB.Cluster.RoutingLoops
import RTDB.Collection.Contents
import RTDB.Lib.Groups

/-!
# Batches of inserts

`batch_insert` of `cluster/storage_router.rs` sends the vectors of each node in one request, and
`insert` sends each vector to its node.  A request that arrives is handed to the router of its node
by `cluster/server.rs`, which routes it again.
-/

namespace RTDB

open Storage Bytes

variable {P D : Type}

/-- A vector as a group has it: its data. -/
def UpsertItem.bare (item : UpsertItem P) : UpsertItem P :=
  { item with vector := { data := item.vector.data, payload := none } }

/-- A vector as a request brings it to another node. -/
def UpsertItem.shipped (item : UpsertItem P) : UpsertItem P :=
  { item with vector := { data := wordsOf (wordBytes item.vector.data), payload := none } }

theorem UpsertItem.shipped_eq (item : UpsertItem P) : item.shipped = item.bare := by
  rw [shipped, wordsOf_wordBytes, bare]

theorem UpsertItem.bare_eq {item : UpsertItem P} (hnone : item.vector.payload = none) :
    item.bare = item := by
  rw [bare, ← hnone]

theorem UpsertItem.bare_bare (item : UpsertItem P) : item.bare.bare = item.bare := rfl

namespace Cluster

open Collection (SameContents Ran)
open StorageRouter

variable {Addr C : Type}

structure BatchInsertResult where
  insertedCount : UInt32
  failedNodes : List String

def BatchInsertResult.add (result : BatchInsertResult) (node : String) :
    Option UInt32 → BatchInsertResult
  | some count => { result with insertedCount := result.insertedCount + count }
  | none => { result with failedNodes := result.failedNodes ++ [node] }

namespace Network

def put (net : Network Addr C) (node : String) (r : StorageRouter Addr C) : Network Addr C :=
  { net with router := Function.update net.router node r }

end Network

abbrev NodeGroup (P : Type) := String × List (UpsertItem P)

def StorageRouter.itemGroups (hash : Nat → Nat) (r : StorageRouter Addr C)
    (items : List (UpsertItem P)) : List (NodeGroup P) :=
  Groups.groups (fun item => r.nodeFor hash item.id) UpsertItem.bare items

namespace Network

section Calls

variable [LinearOrder D] (codec : Codec P) (crc32c : List UInt8 → UInt32) (hash : Nat → Nat)

/-- `insert` on a node, where `remote` carries out what is sent to another.  None where it divides
by zero. -/
def insertAt
    (remote : Network Addr (Collection P D) → String → UpsertItem P →
      Option (Network Addr (Collection P D) × InsertAnswer))
    (net : Network Addr (Collection P D)) (node collection : String) (item : UpsertItem P) :
    Option (Network Addr (Collection P D) × Except RouterError Unit) :=
  ((net.router node).route hash item.id).bind fun route =>
    match route with
    | .here =>
      let outcome := (net.router node).localInsert codec crc32c collection item
      some (net.put node outcome.router, outcome.result)
    | .remote target =>
      let request : Proto.InsertRequest :=
        { collection, id := item.id, vector := wordBytes item.vector.data }
      if target ∈ (net.router node).connectionPools then
        (remote net target item.shipped).map fun sent =>
          (sent.1, ((net.router node).remoteInsert target request sent.2).result)
      else some (net, ((net.router node).remoteInsert target request .timeout).result)

/-- A request that is handed on once more than `hops` allows, or to a node that is not there, ends
in a timeout. -/
def insert (collection : String) : Nat → Network Addr (Collection P D) → String → UpsertItem P →
    Option (Network Addr (Collection P D) × Except RouterError Unit)
  | 0, net, node, item =>
    net.insertAt codec crc32c hash (fun net _ _ => some (net, .timeout)) node collection item
  | hops + 1, net, node, item =>
    net.insertAt codec crc32c hash
      (fun net target item =>
        if target ∈ net.members then
          (insert collection hops net target item).map fun sent =>
            (sent.1, .response sent.2.isOk)
        else some (net, .timeout))
      node collection item

def insertAll (collection : String) (hops : Nat) (node : String) :
    Network Addr (Collection P D) → List (UpsertItem P) →
    Option (Network Addr (Collection P D) × List (Except RouterError Unit))
  | net, [] => some (net, [])
  | net, item :: items =>
    (net.insert codec crc32c hash collection hops node item).bind fun done =>
      (insertAll collection hops node done.1 items).map fun rest =>
        (rest.1, done.2 :: rest.2)

def sendGroup
    (remote : Network Addr (Collection P D) → String → List (UpsertItem P) →
      Option (Network Addr (Collection P D) × Option UInt32))
    (net : Network Addr (Collection P D)) (node collection : String)
    (group : NodeGroup P) :
    Option (Network Addr (Collection P D) × Option UInt32) :=
  if group.1 = (net.router node).nodeId then
    match (net.router node).collections collection with
    | none => some (net, none)
    | some c =>
      some
        (net.put node
          { net.router node with
            collections := Function.update (net.router node).collections collection
              (some (c.upsert codec crc32c group.2).1) },
          if (c.upsert codec crc32c group.2).2.isOk then some (UInt32.ofNat group.2.length)
          else none)
  else if group.1 ∈ (net.router node).connectionPools then
    remote net group.1 (group.2.map UpsertItem.shipped)
  else some (net, none)

def sendGroups
    (remote : Network Addr (Collection P D) → String → List (UpsertItem P) →
      Option (Network Addr (Collection P D) × Option UInt32))
    (node collection : String) :
    Network Addr (Collection P D) → BatchInsertResult → List (NodeGroup P) →
    Option (Network Addr (Collection P D) × BatchInsertResult)
  | net, result, [] => some (net, result)
  | net, result, group :: groups =>
    (net.sendGroup codec crc32c remote node collection group).bind fun sent =>
      sendGroups remote node collection sent.1 (result.add group.1 sent.2) groups

/-- `batch_insert` on a node.  The tasks of the groups, each at a node of its own, come in the order
that `order` gives. -/
def batchInsertAt (order : List (NodeGroup P) → List (NodeGroup P))
    (remote : Network Addr (Collection P D) → String → List (UpsertItem P) →
      Option (Network Addr (Collection P D) × Option UInt32))
    (net : Network Addr (Collection P D)) (node collection : String) (items : List (UpsertItem P)) :
    Option (Network Addr (Collection P D) × BatchInsertResult) :=
  if ∃ item ∈ items, (net.router node).nodeFor hash item.id = none then none
  else
    sendGroups codec crc32c remote node collection net { insertedCount := 0, failedNodes := [] }
      (order ((net.router node).itemGroups hash items))

/-- The handler answers with the count, unless a node failed. -/
def batchInsert (order : List (NodeGroup P) → List (NodeGroup P))
    (collection : String) : Nat → Network Addr (Collection P D) → String → List (UpsertItem P) →
    Option (Network Addr (Collection P D) × BatchInsertResult)
  | 0, net, node, items =>
    net.batchInsertAt codec crc32c hash order (fun net _ _ => some (net, none)) node collection items
  | hops + 1, net, node, items =>
    net.batchInsertAt codec crc32c hash order
      (fun net target items =>
        if target ∈ net.members then
          (batchInsert order collection hops net target items).map fun sent =>
            (sent.1, if sent.2.failedNodes.isEmpty then some sent.2.insertedCount else none)
        else some (net, none))
      node collection items

end Calls

/-! ## One topology -/

structure OneTopology (net : Network Addr C) : Prop where
  name : ∀ n ∈ net.members, (net.router n).nodeId = n
  shardCount : ∀ n ∈ net.members, ∀ m ∈ net.members,
    (net.router m).cluster.shardCount = (net.router n).cluster.shardCount
  topology : ∀ n ∈ net.members, ∀ m ∈ net.members,
    (net.router m).cluster.topology = (net.router n).cluster.topology

variable {hash : Nat → Nat}

theorem nodeFor_self_iff {r : StorageRouter Addr C} {id : VectorId} :
    r.nodeFor hash id = some r.nodeId ↔ r.route hash id = some .here := by
  rw [nodeFor, route]
  rcases r.cluster.getNodeForVector hash id with _ | _ | target
  · simp
  · simp
  · simp only [Option.map_some, Option.getD_some, Option.some.injEq]
    split
    · rename_i htarget
      simp [htarget]
    · rename_i htarget
      simp [htarget]

theorem OneTopology.nodeFor_target {net : Network Addr C} (hone : OneTopology net)
    {node target : String} (hnode : node ∈ net.members) (htarget : target ∈ net.members)
    {id : VectorId} (hfor : (net.router node).nodeFor hash id = some target) :
    (net.router target).nodeFor hash id = some target := by
  have hsame : (net.router target).cluster.getNodeForVector hash id =
      (net.router node).cluster.getNodeForVector hash id := by
    rw [ClusterManager.getNodeForVector, ClusterManager.getShardForVector,
      ClusterManager.getNodeForVector, ClusterManager.getShardForVector,
      hone.shardCount node hnode target htarget, hone.topology node hnode target htarget]
  rw [nodeFor, hone.name node hnode] at hfor
  rw [nodeFor, hone.name target htarget, hsame]
  rcases hview : (net.router node).cluster.getNodeForVector hash id with _ | _ | other
  · rw [hview] at hfor
    exact absurd hfor (by simp)
  · rfl
  · rw [hview] at hfor
    exact hfor

/-! ## What a call leaves -/

structure Alike (net net' : Network Addr C) : Prop where
  members : net'.members = net.members
  routers : ∀ n, (net.router n).Alike (net'.router n)

theorem Alike.refl (net : Network Addr C) : Alike net net := ⟨rfl, fun _ => ⟨rfl, rfl, rfl⟩⟩

theorem Alike.trans {net net' net'' : Network Addr C} (hfirst : Alike net net')
    (hnext : Alike net' net'') : Alike net net'' where
  members := hnext.members.trans hfirst.members
  routers n :=
    ⟨(hnext.routers n).1.trans (hfirst.routers n).1,
      (hnext.routers n).2.1.trans (hfirst.routers n).2.1,
      (hnext.routers n).2.2.trans (hfirst.routers n).2.2⟩

theorem Alike.nodeFor_eq {net net' : Network Addr C} (halike : Alike net net') (node : String)
    (id : VectorId) : (net'.router node).nodeFor hash id = (net.router node).nodeFor hash id := by
  rw [nodeFor, nodeFor, (halike.routers node).1, (halike.routers node).2.1]

theorem Alike.oneTopology {net net' : Network Addr C} (halike : Alike net net')
    (hone : OneTopology net) : OneTopology net' where
  name n hn := by
    rw [halike.members] at hn
    rw [(halike.routers n).1, hone.name n hn]
  shardCount n hn m hm := by
    rw [halike.members] at hn hm
    rw [(halike.routers n).2.1, (halike.routers m).2.1, hone.shardCount n hn m hm]
  topology n hn m hm := by
    rw [halike.members] at hn hm
    rw [(halike.routers n).2.1, (halike.routers m).2.1, hone.topology n hn m hm]

section Went

variable [LinearOrder D] {codec : Codec P} {crc32c : List UInt8 → UInt32}
  {net net' net'' : Network Addr (Collection P D)} {node collection : String}

variable (codec crc32c) in
/-- From one network to the other, each node's collection of the name took its share. -/
structure Went (collection : String) (net net' : Network Addr (Collection P D))
    (share : String → List (UpsertItem P)) : Prop where
  alike : Alike net net'
  ran : ∀ n, Ran codec crc32c ((net.router n).collections collection)
    ((net'.router n).collections collection) (share n)
  others : ∀ n name, name ≠ collection →
    (net'.router n).collections name = (net.router n).collections name

def only (node : String) (items : List (UpsertItem P)) (n : String) : List (UpsertItem P) :=
  if n = node then items else []

theorem went_nothing (net : Network Addr (Collection P D)) :
    Went codec crc32c collection net net fun _ => [] where
  alike := .refl net
  ran _ := Collection.ran_nil _
  others _ _ _ := rfl

theorem Went.append {share share' : String → List (UpsertItem P)}
    (hfirst : Went codec crc32c collection net net' share)
    (hnext : Went codec crc32c collection net' net'' share') :
    Went codec crc32c collection net net'' fun n => share n ++ share' n where
  alike := hfirst.alike.trans hnext.alike
  ran n := (hfirst.ran n).append (hnext.ran n)
  others n name hname := (hnext.others n name hname).trans (hfirst.others n name hname)

theorem went_put {c c' : Collection P D} {items : List (UpsertItem P)}
    (hcollection : (net.router node).collections collection = some c)
    (hran : Ran codec crc32c (some c) (some c') items) :
    Went codec crc32c collection net
      (net.put node
        { net.router node with
          collections := Function.update (net.router node).collections collection (some c') })
      (only node items) where
  alike := by
    refine ⟨rfl, fun n => ?_⟩
    show (net.router n).Alike (Function.update net.router node _ n)
    by_cases hn : n = node
    · subst hn
      rw [Function.update_self]
      exact ⟨rfl, rfl, rfl⟩
    · rw [Function.update_of_ne hn]
      exact ⟨rfl, rfl, rfl⟩
  ran n := by
    show Ran codec crc32c _ ((Function.update net.router node _ n).collections collection) _
    rw [only]
    by_cases hn : n = node
    · subst hn
      rw [if_pos rfl, Function.update_self, hcollection]
      dsimp only
      rw [Function.update_self]
      exact hran
    · rw [if_neg hn, Function.update_of_ne hn]
      exact Collection.ran_nil _
  others n name hname := by
    show (Function.update net.router node _ n).collections name = _
    by_cases hn : n = node
    · subst hn
      rw [Function.update_self]
      dsimp only
      rw [Function.update_of_ne hname]
    · rw [Function.update_of_ne hn]

/-! ## Single inserts -/

theorem localInsert_went {item : UpsertItem P}
    (hok : ((net.router node).localInsert codec crc32c collection item).result = .ok ()) :
    Went codec crc32c collection net
      (net.put node ((net.router node).localInsert codec crc32c collection item).router)
      (only node [item]) := by
  rw [localInsert] at hok ⊢
  cases hcollection : (net.router node).collections collection with
  | none =>
    rw [hcollection] at hok
    exact absurd hok (by simp)
  | some c =>
    rw [hcollection] at hok
    rcases hresult : (c.upsert codec crc32c [item]).2 with e | info
    · dsimp only at hok
      rw [hresult] at hok
      exact absurd hok (by simp)
    · exact went_put hcollection (Collection.ran_upsert hresult)

variable {remote : Network Addr (Collection P D) → String → UpsertItem P →
  Option (Network Addr (Collection P D) × InsertAnswer)}

theorem insertAt_home {item : UpsertItem P}
    (hroute : (net.router node).route hash item.id = some .here)
    (hdone : net.insertAt codec crc32c hash remote node collection item = some (net', .ok ())) :
    Went codec crc32c collection net net' (only node [item]) := by
  rw [insertAt, hroute] at hdone
  obtain ⟨rfl, hok⟩ := Prod.mk.inj (Option.some.inj hdone)
  exact localInsert_went hok

theorem remoteInsert_ok_iff {r : StorageRouter Addr C} {target : String}
    {request : Proto.InsertRequest} {answer : InsertAnswer} :
    (r.remoteInsert target request answer).result = .ok () ↔
      target ∈ r.connectionPools ∧ answer = .response true := by
  unfold remoteInsert
  dsimp only
  by_cases hpool : target ∈ r.connectionPools
  · rw [if_pos hpool, and_iff_right hpool]
    rcases answer with _ | message | _ | _ <;> simp
  · rw [if_neg hpool]
    simp [hpool]

theorem insertAt_remote {item : UpsertItem P} {target : String}
    (hroute : (net.router node).route hash item.id = some (.remote target))
    (hdone : net.insertAt codec crc32c hash remote node collection item = some (net', .ok ())) :
    remote net target item.shipped = some (net', .response true) := by
  rw [insertAt, hroute] at hdone
  dsimp only [Option.bind_some] at hdone
  split at hdone
  · obtain ⟨sent, hsent, hsame⟩ := Option.map_eq_some_iff.mp hdone
    obtain ⟨rfl, hresult⟩ := Prod.mk.inj hsame
    rw [hsent, ← (remoteInsert_ok_iff.mp hresult).2]
  · rename_i hpool
    exact absurd (remoteInsert_ok_iff.mp (Prod.mk.inj (Option.some.inj hdone)).2).1 hpool

def arriving (node target : String) (item : UpsertItem P) : UpsertItem P :=
  if target = node then item else item.bare

theorem insert_went (hone : OneTopology net) (hnode : node ∈ net.members) {hops : Nat}
    {item : UpsertItem P}
    (hdone : net.insert codec crc32c hash collection hops node item = some (net', .ok ())) :
    ∃ target, (net.router node).nodeFor hash item.id = some target ∧
      Went codec crc32c collection net net' (only target [arriving node target item]) := by
  have hname := hone.name node hnode
  rcases hroute : (net.router node).route hash item.id with _ | _ | target
  · cases hops <;> (rw [insert, insertAt, hroute] at hdone; cases hdone)
  · refine ⟨node, ?_, ?_⟩
    · have hself := nodeFor_self_iff.mpr hroute
      rw [hname] at hself
      exact hself
    · rw [arriving, if_pos rfl]
      cases hops <;> exact insertAt_home hroute hdone
  · have hother : target ≠ node := hname ▸ route_ne_self hroute
    have hfor : (net.router node).nodeFor hash item.id = some target :=
      (nodeFor_eq_iff (hname.symm ▸ hother)).mpr hroute
    refine ⟨target, hfor, ?_⟩
    rw [arriving, if_neg hother]
    cases hops with
    | zero => exact absurd (insertAt_remote hroute hdone) (by simp)
    | succ hops =>
      have hsent := insertAt_remote hroute hdone
      rw [item.shipped_eq] at hsent
      split at hsent
      · rename_i htarget
        obtain ⟨sent, hinsert, hsame⟩ := Option.map_eq_some_iff.mp hsent
        obtain ⟨rfl, hanswer⟩ := Prod.mk.inj hsame
        have hresult : sent.2 = .ok () := by
          cases hresult : sent.2 with
          | ok u => rfl
          | error e =>
            rw [hresult] at hanswer
            exact absurd hanswer (by simp [Except.isOk, Except.toBool])
        have hhome : (net.router target).route hash item.bare.id = some .here := by
          rw [← nodeFor_self_iff, hone.name target htarget]
          exact hone.nodeFor_target hnode htarget hfor
        rw [show sent = (sent.1, .ok ()) from Prod.ext rfl hresult] at hinsert
        cases hops <;> exact insertAt_home hhome hinsert
      · exact absurd hsent (by simp)

/-- What a list of inserts on the node brings to a node. -/
def arrivals (hash : Nat → Nat) (net : Network Addr C) (node : String)
    (items : List (UpsertItem P)) (n : String) : List (UpsertItem P) :=
  (items.filter fun item => (net.router node).nodeFor hash item.id = some n).map (arriving node n)

theorem insertAll_went (hone : OneTopology net) (hnode : node ∈ net.members) {hops : Nat}
    {items : List (UpsertItem P)} {results : List (Except RouterError Unit)}
    (hdone : net.insertAll codec crc32c hash collection hops node items = some (net', results))
    (hok : ∀ result ∈ results, result = .ok ()) :
    Went codec crc32c collection net net' (arrivals hash net node items) ∧
      ∀ item ∈ items, ∃ target, (net.router node).nodeFor hash item.id = some target := by
  induction items generalizing net results with
  | nil =>
    obtain ⟨rfl, -⟩ := Prod.mk.inj (Option.some.inj hdone)
    exact ⟨went_nothing net, fun item hitem => absurd hitem List.not_mem_nil⟩
  | cons item items ih =>
    rw [insertAll] at hdone
    obtain ⟨first, hfirst, hmap⟩ := Option.bind_eq_some_iff.mp hdone
    obtain ⟨rest, hrest, hsame⟩ := Option.map_eq_some_iff.mp hmap
    obtain ⟨rfl, rfl⟩ := Prod.mk.inj hsame
    obtain ⟨hresult, hresults⟩ := List.forall_mem_cons.mp hok
    rw [show first = (first.1, .ok ()) from Prod.ext rfl hresult] at hfirst
    obtain ⟨target, hfor, hwent⟩ := insert_went hone hnode hfirst
    obtain ⟨hwent', hfors⟩ :=
      ih (hwent.alike.oneTopology hone) (hwent.alike.members ▸ hnode) hrest hresults
    simp only [hwent.alike.nodeFor_eq] at hfors
    refine ⟨?_, List.forall_mem_cons.mpr ⟨⟨target, hfor⟩, hfors⟩⟩
    convert hwent.append hwent' using 2 with n
    rw [arrivals, arrivals, only]
    simp only [hwent.alike.nodeFor_eq]
    by_cases hn : n = target
    · subst hn
      rw [if_pos rfl, List.filter_cons_of_pos (by simp [hfor]), List.map_cons,
        List.singleton_append]
    · rw [if_neg hn, List.filter_cons_of_neg (by simp [hfor, Ne.symm hn]), List.nil_append]

/-! ## Groups -/

theorem sendGroup_home {items : List (UpsertItem P)} {count : UInt32}
    {remote : Network Addr (Collection P D) → String → List (UpsertItem P) →
      Option (Network Addr (Collection P D) × Option UInt32)}
    (hname : (net.router node).nodeId = node)
    (hsent : net.sendGroup codec crc32c remote node collection (node, items) =
      some (net', some count)) :
    Went codec crc32c collection net net' (only node items) ∧
      count = UInt32.ofNat items.length := by
  rw [sendGroup, if_pos hname.symm] at hsent
  cases hcollection : (net.router node).collections collection with
  | none =>
    rw [hcollection] at hsent
    exact absurd hsent (by simp)
  | some c =>
    rw [hcollection] at hsent
    obtain ⟨rfl, hcount⟩ := Prod.mk.inj (Option.some.inj hsent)
    rcases hresult : (c.upsert codec crc32c items).2 with e | info
    · rw [hresult] at hcount
      exact absurd hcount (by simp [Except.isOk, Except.toBool])
    · rw [hresult] at hcount
      exact ⟨went_put hcollection (Collection.ran_upsert hresult),
        (Option.some.inj hcount).symm⟩

section Batches

variable {remote : Network Addr (Collection P D) → String → List (UpsertItem P) →
    Option (Network Addr (Collection P D) × Option UInt32)}
  {order : List (NodeGroup P) → List (NodeGroup P)}
  {result acc : BatchInsertResult} {groups : List (NodeGroup P)}

theorem batchInsertAt_home {items : List (UpsertItem P)}
    (horder : ∀ groups, (order groups).Perm groups) (hname : (net.router node).nodeId = node)
    (hhome : ∀ item ∈ items, (net.router node).nodeFor hash item.id = some node)
    (hdone : net.batchInsertAt codec crc32c hash order remote node collection items =
      some (net', result)) (hfailed : result.failedNodes = []) :
    Went codec crc32c collection net net' (only node (items.map UpsertItem.bare)) ∧
      result.insertedCount = UInt32.ofNat items.length := by
  rw [batchInsertAt] at hdone
  split at hdone
  · exact absurd hdone (by simp)
  · by_cases hsome : items = []
    · subst hsome
      have hnone : order ((net.router node).itemGroups hash ([] : List (UpsertItem P))) = [] :=
        (horder _).eq_nil
      rw [hnone] at hdone
      obtain ⟨rfl, rfl⟩ := Prod.mk.inj (Option.some.inj hdone)
      refine ⟨?_, rfl⟩
      convert went_nothing net using 2 with n
      rw [only]
      split <;> rfl
    · have hone := horder ((net.router node).itemGroups hash items)
      rw [itemGroups, Groups.groups_of_forall hhome hsome] at hone hdone
      rw [List.perm_singleton.mp hone, sendGroups] at hdone
      obtain ⟨sent, hsent, hrest⟩ := Option.bind_eq_some_iff.mp hdone
      obtain ⟨rfl, rfl⟩ := Prod.mk.inj (Option.some.inj hrest)
      rcases hcount : sent.2 with _ | count
      · rw [hcount] at hfailed
        exact absurd hfailed (by simp [BatchInsertResult.add])
      · rw [show sent = (sent.1, some count) from Prod.ext rfl hcount] at hsent
        obtain ⟨hwent, hlength⟩ := sendGroup_home hname hsent
        refine ⟨hwent, ?_⟩
        show 0 + count = _
        rw [hlength, List.length_map, UInt32.zero_add]

variable (codec crc32c hash) in
/-- What is sent to the node of its ids is inserted there, and counted. -/
def Carries (net : Network Addr (Collection P D)) (node collection : String)
    (remote : Network Addr (Collection P D) → String → List (UpsertItem P) →
      Option (Network Addr (Collection P D) × Option UInt32)) : Prop :=
  ∀ before after target items count, Alike net before →
    (∀ item ∈ items, (net.router node).nodeFor hash item.id = some target) →
    remote before target items = some (after, some count) →
    Went codec crc32c collection before after (only target (items.map UpsertItem.bare)) ∧
      count = UInt32.ofNat items.length

theorem sendGroups_failed {before : Network Addr (Collection P D)}
    (hdone : before.sendGroups codec crc32c remote node collection acc groups =
      some (net', result)) : acc.failedNodes <+: result.failedNodes := by
  induction groups generalizing before acc with
  | nil =>
    obtain ⟨-, rfl⟩ := Prod.mk.inj (Option.some.inj hdone)
    exact List.prefix_refl _
  | cons group groups ih =>
    rw [sendGroups] at hdone
    obtain ⟨sent, -, hrest⟩ := Option.bind_eq_some_iff.mp hdone
    have hprefix := ih hrest
    cases hcount : sent.2 with
    | none =>
      rw [hcount] at hprefix
      exact (List.prefix_append _ _).trans hprefix
    | some count =>
      rw [hcount] at hprefix
      exact hprefix

theorem sendGroups_went {before : Network Addr (Collection P D)}
    (hname : (net.router node).nodeId = node)
    (hcarries : Carries hash codec crc32c net node collection remote) (halike : Alike net before)
    (hbare : ∀ group ∈ groups, group.2.map UpsertItem.bare = group.2)
    (hfor : ∀ group ∈ groups, ∀ item ∈ group.2,
      (net.router node).nodeFor hash item.id = some group.1)
    (hdone : before.sendGroups codec crc32c remote node collection acc groups =
      some (net', result)) (hfailed : result.failedNodes = []) :
    acc.failedNodes = [] ∧
      Went codec crc32c collection before net'
        (fun n => (groups.filter fun group => group.1 = n).flatMap Prod.snd) ∧
      result.insertedCount =
        acc.insertedCount + UInt32.ofNat (groups.map fun group => group.2.length).sum := by
  induction groups generalizing before acc with
  | nil =>
    obtain ⟨rfl, rfl⟩ := Prod.mk.inj (Option.some.inj hdone)
    exact ⟨hfailed, went_nothing before, by simp⟩
  | cons group groups ih =>
    rw [sendGroups] at hdone
    obtain ⟨sent, hsent, hrest⟩ := Option.bind_eq_some_iff.mp hdone
    obtain ⟨hbareFirst, hbareRest⟩ := List.forall_mem_cons.mp hbare
    obtain ⟨hforFirst, hforRest⟩ := List.forall_mem_cons.mp hfor
    have hstep : ∀ count, sent.2 = some count →
        Went codec crc32c collection before sent.1 (only group.1 group.2) ∧
          count = UInt32.ofNat group.2.length := by
      intro count hcount
      rw [show sent = (sent.1, some count) from Prod.ext rfl hcount] at hsent
      have hself : (before.router node).nodeId = node := (halike.routers node).1.trans hname
      by_cases hhere : group.1 = node
      · obtain ⟨target, items⟩ := group
        obtain rfl : target = node := hhere
        exact sendGroup_home hself hsent
      · rw [sendGroup, if_neg (hself.symm ▸ hhere)] at hsent
        split at hsent
        · have hforShipped : ∀ item ∈ group.2.map UpsertItem.shipped,
              (net.router node).nodeFor hash item.id = some group.1 :=
            List.forall_mem_map.mpr hforFirst
          obtain ⟨hwent, hlength⟩ :=
            hcarries before sent.1 group.1 _ count halike hforShipped hsent
          have hitems : (group.2.map UpsertItem.shipped).map UpsertItem.bare = group.2 := by
            rw [List.map_map]
            refine Eq.trans (List.map_congr_left fun item _ => ?_) hbareFirst
            rw [Function.comp_apply, item.shipped_eq, item.bare_bare]
          rw [hitems] at hwent
          rw [List.length_map] at hlength
          exact ⟨hwent, hlength⟩
        · exact absurd hsent (by simp)
    rcases hcount : sent.2 with _ | count
    · have hstays := sendGroups_failed hrest
      rw [hcount, hfailed] at hstays
      exact absurd (List.prefix_nil.mp hstays) (by simp [BatchInsertResult.add])
    · obtain ⟨hwent, hlength⟩ := hstep count hcount
      rw [hcount] at hrest
      obtain ⟨hacc, hwent', hinserted⟩ :=
        ih (halike.trans hwent.alike) hbareRest hforRest hrest
      refine ⟨hacc, ?_, ?_⟩
      · convert hwent.append hwent' using 2 with n
        rw [only, List.filter_cons]
        by_cases hn : n = group.1
        · subst hn
          rw [if_pos rfl, if_pos (by simp), List.flatMap_cons]
        · rw [if_neg hn, if_neg (by simpa using Ne.symm hn), List.nil_append]
      · rw [hinserted, List.map_cons, List.sum_cons, UInt32.ofNat_add, ← UInt32.add_assoc, ← hlength]
        rfl

/-- A batch leaves at every node what it holds for it, without the payloads. -/
theorem batchInsertAt_went {items : List (UpsertItem P)}
    (horder : ∀ groups, (order groups).Perm groups) (hname : (net.router node).nodeId = node)
    (hcarries : Carries hash codec crc32c net node collection remote)
    (hdone : net.batchInsertAt codec crc32c hash order remote node collection items =
      some (net', result)) (hfailed : result.failedNodes = []) :
    Went codec crc32c collection net net' (fun n =>
        (items.filter fun item => (net.router node).nodeFor hash item.id = some n).map
          UpsertItem.bare) ∧
      result.insertedCount = UInt32.ofNat items.length := by
  rw [batchInsertAt] at hdone
  split at hdone
  · exact absurd hdone (by simp)
  · rename_i hall
    have hsome : ∀ item ∈ items, ∃ n, (net.router node).nodeFor hash item.id = some n := by
      intro item hitem
      refine Option.ne_none_iff_exists'.mp fun hnone => hall ⟨item, hitem, hnone⟩
    have hgroups := horder ((net.router node).itemGroups hash items)
    rw [itemGroups] at hgroups hdone
    have hbare : ∀ group ∈ order (Groups.groups (fun item => (net.router node).nodeFor hash item.id)
        UpsertItem.bare items), group.2.map UpsertItem.bare = group.2 := by
      intro group hgroup
      refine (List.map_congr_left fun item hitem => ?_).trans (List.map_id _)
      obtain ⟨item', -, -, rfl⟩ := Groups.exists_of_mem (hgroups.mem_iff.mp hgroup) hitem
      exact item'.bare_bare
    have hfor : ∀ group ∈ order (Groups.groups (fun item => (net.router node).nodeFor hash item.id)
        UpsertItem.bare items), ∀ item ∈ group.2,
          (net.router node).nodeFor hash item.id = some group.1 := by
      intro group hgroup item hitem
      obtain ⟨item', -, hkey, rfl⟩ := Groups.exists_of_mem (hgroups.mem_iff.mp hgroup) hitem
      exact hkey
    obtain ⟨-, hwent, hcount⟩ :=
      sendGroups_went hname hcarries (.refl net) hbare hfor hdone hfailed
    refine ⟨?_, ?_⟩
    · convert hwent using 2 with n
      exact (Groups.share_of_perm hgroups n).symm
    · rw [hcount, (hgroups.map _).sum_eq, Groups.sum_length hsome]
      exact UInt32.zero_add _

theorem batchInsert_went {items : List (UpsertItem P)}
    (horder : ∀ groups, (order groups).Perm groups) (hone : OneTopology net)
    (hnode : node ∈ net.members) {hops : Nat}
    (hdone : net.batchInsert codec crc32c hash order collection hops node items =
      some (net', result)) (hfailed : result.failedNodes = []) :
    Went codec crc32c collection net net' (fun n =>
        (items.filter fun item => (net.router node).nodeFor hash item.id = some n).map
          UpsertItem.bare) ∧
      result.insertedCount = UInt32.ofNat items.length := by
  have hname := hone.name node hnode
  cases hops with
  | zero =>
    refine batchInsertAt_went horder hname ?_ hdone hfailed
    intro before after target items count halike hfor hsent
    exact absurd (Prod.mk.inj (Option.some.inj hsent)).2 (by simp)
  | succ hops =>
    refine batchInsertAt_went horder hname ?_ hdone hfailed
    intro before after target items count halike hfor hsent
    dsimp only at hsent
    split at hsent
    · rename_i htarget
      obtain ⟨sent, hbatch, hsame⟩ := Option.map_eq_some_iff.mp hsent
      obtain ⟨rfl, hcount⟩ := Prod.mk.inj hsame
      split at hcount
      · rename_i hempty
        rw [← Option.some.inj hcount]
        have hone' := halike.oneTopology hone
        have hhome : ∀ item ∈ items,
            (before.router target).nodeFor hash item.id = some target := by
          intro item hitem
          refine hone'.nodeFor_target (halike.members ▸ hnode) htarget ?_
          rw [halike.nodeFor_eq, hfor item hitem]
        cases hops <;>
          exact batchInsertAt_home horder (hone'.name target htarget) hhome hbatch
            (List.isEmpty_iff.mp hempty)
      · exact absurd hcount (by simp)
    · exact absurd (Prod.mk.inj (Option.some.inj hsent)).2 (by simp)

end Batches

/-! ## The batch and the single inserts -/

variable (codec) in
/-- A record has a text, and the text tells whether its vector has a payload. -/
structure ShowsPayload : Prop where
  text : ∀ r, codec.toVec r ≠ .ok []
  payload : ∀ id data payload timestamp,
    codec.toVec (.put id { data, payload := some payload } timestamp) ≠
      codec.toVec (.put id { data, payload := none } timestamp)

/-- The batch leaves every collection of the nodes as the single inserts do, and counts them all. -/
structure AsSingles (singles batch : Network Addr (Collection P D)) (result : BatchInsertResult)
    (items : List (UpsertItem P)) : Prop where
  contents : ∀ n ∈ singles.members, ∀ name, Option.Rel SameContents
    ((batch.router n).collections name) ((singles.router n).collections name)
  count : result.insertedCount.toNat = items.length

/-- Where no node fails, a batch is the single inserts exactly if no vector that stays on the node
has a payload and the number of the vectors fits in 32 bits. -/
theorem batch_insert_iff {order : List (NodeGroup P) → List (NodeGroup P)}
    (horder : ∀ groups, (order groups).Perm groups) (hone : OneTopology net)
    (hnode : node ∈ net.members) (hcodec : ShowsPayload codec)
    (hlog : ∀ c, (net.router node).collections collection = some c →
      ∃ logged, Logged codec crc32c c.storage.engine.wal logged)
    {items : List (UpsertItem P)} {hops hops' : Nat} {singles batch : Network Addr (Collection P D)}
    {results : List (Except RouterError Unit)} {result : BatchInsertResult}
    (hsingles :
      net.insertAll codec crc32c hash collection hops node items = some (singles, results))
    (hresults : ∀ r ∈ results, r = .ok ())
    (hbatch : net.batchInsert codec crc32c hash order collection hops' node items =
      some (batch, result)) (hfailed : result.failedNodes = []) :
    AsSingles singles batch result items ↔
      (∀ item ∈ items, (net.router node).nodeFor hash item.id = some node →
        item.vector.payload = none) ∧ items.length < 2 ^ 32 := by
  obtain ⟨hsingle, -⟩ := insertAll_went hone hnode hsingles hresults
  obtain ⟨hwent, hcount⟩ := batchInsert_went horder hone hnode hbatch hfailed
  have htoNat : result.insertedCount.toNat = items.length ↔ items.length < 2 ^ 32 := by
    rw [hcount, UInt32.toNat_ofNat']
    exact ⟨fun hsame => hsame ▸ Nat.mod_lt _ (by decide), Nat.mod_eq_of_lt⟩
  constructor
  · rintro ⟨hcontents, hlength⟩
    refine ⟨?_, htoNat.mp hlength⟩
    intro item hitem hhere
    have hmine : item ∈ items.filter fun item =>
        (net.router node).nodeFor hash item.id = some node :=
      List.mem_filter.mpr ⟨hitem, decide_eq_true hhere⟩
    obtain ⟨c, c₁, hc, hsingles, hok, hleft⟩ :=
      (hsingle.ran node).loop (List.ne_nil_of_mem (List.mem_map_of_mem hmine))
    obtain ⟨d, c₂, hd, hbatch, hok', hleft'⟩ :=
      (hwent.ran node).loop (List.ne_nil_of_mem (List.mem_map_of_mem hmine))
    obtain rfl := Option.some.inj (hc.symm.trans hd)
    have hsame := hcontents node (hsingle.alike.members ▸ hnode) collection
    rw [hbatch, hsingles] at hsame
    obtain ⟨logged, hlogged⟩ := hlog c hc
    have htext := Collection.texts_of_sameContents hlogged hcodec.text hok hok'
      (hleft.symm.trans ((Option.rel_some_some.mp hsame).symm.trans hleft')) item hmine
    rw [arriving, if_pos rfl] at htext
    cases hpayload : item.vector.payload with
    | none => rfl
    | some payload =>
      refine absurd ?_ (hcodec.payload item.id item.vector.data payload item.timestamp)
      rw [← hpayload]
      exact htext
  · rintro ⟨hbare, hlength⟩
    refine ⟨?_, htoNat.mpr hlength⟩
    intro n _ name
    by_cases hname : name = collection
    · subst hname
      have hshare : arrivals hash net node items n =
          (items.filter fun item => (net.router node).nodeFor hash item.id = some n).map
            UpsertItem.bare := by
        refine List.map_congr_left fun item hitem => ?_
        obtain ⟨hmem, hfor⟩ := List.mem_filter.mp hitem
        rw [arriving]
        split
        · rename_i hself
          subst hself
          exact (UpsertItem.bare_eq (hbare item hmem (of_decide_eq_true hfor))).symm
        · rfl
      have hran := hsingle.ran n
      rw [hshare] at hran
      exact (hwent.ran n).same hran
    · rw [hwent.others n name hname, hsingle.others n name hname]
      exact Collection.sameContents_rel_refl _

end Went

end Network

/-! ## A payload that stays -/

/-- The JSON of a record up to its payload, and from there on. -/
def putText (id : VectorId) (data : List UInt32) : String :=
  "\x7b\"Put\":\x7b\"id\":" ++ toString id ++ ",\"vector\":\x7b\"data\":[" ++
    ",".intercalate (data.map componentText) ++ "]"

def stampText (timestamp : Nat) : String :=
  "\x7d,\"timestamp\":" ++ toString timestamp ++ "\x7d\x7d"

def deleteText (id : VectorId) (timestamp : Nat) : String :=
  "\x7b\"Delete\":\x7b\"id\":" ++ toString id ++ ",\"timestamp\":" ++ toString timestamp ++
    "\x7d\x7d"

def payloadText : Record Unit → List UInt8
  | .put id vector timestamp =>
    ascii (putText id vector.data) ++
      (if vector.payload.isSome then ascii ",\"payload\":\x7b\x7d" else []) ++
      ascii (stampText timestamp)
  | .delete id timestamp => ascii (deleteText id timestamp)

def payloadCodec : Codec Unit :=
  { textCodec [] [] with toVec := fun r => .ok (payloadText r) }

theorem append_ne_empty {a b : String} (hb : b ≠ "") : a ++ b ≠ "" := by
  intro hempty
  rw [← String.toList_eq_nil_iff, String.toList_append, List.append_eq_nil_iff] at hempty
  exact hb (String.toList_eq_nil_iff.mp hempty.2)

theorem ascii_ne_nil {text : String} (htext : text ≠ "") : ascii text ≠ [] := by
  intro hnil
  exact htext (String.toList_eq_nil_iff.mp (List.map_eq_nil_iff.mp hnil))

theorem payloadCodec_shows : Network.ShowsPayload payloadCodec where
  text r hempty := by
    have hnil : payloadText r = [] := Except.ok.inj hempty
    cases r with
    | put id vector timestamp =>
      have hstamp : ascii (stampText timestamp) = [] := (List.append_eq_nil_iff.mp hnil).2
      refine ascii_ne_nil (fun hempty => ?_) hstamp
      exact append_ne_empty (by decide +kernel) hempty
    | delete id timestamp =>
      have htext : ascii (deleteText id timestamp) = [] := hnil
      refine ascii_ne_nil (fun hempty => ?_) htext
      exact append_ne_empty (by decide +kernel) hempty
  payload id data payload timestamp hsame := by
    have htext : ascii (putText id data) ++ ascii ",\"payload\":\x7b\x7d" ++
        ascii (stampText timestamp) = ascii (putText id data) ++ [] ++ ascii (stampText timestamp) :=
      Except.ok.inj hsame
    have hmiddle := List.append_cancel_left (List.append_cancel_right htext)
    exact absurd hmiddle (by decide +kernel)

def solo : Network Unit (Collection Unit Nat) where
  members := ["a"]
  router n :=
    { nodeId := n
      cluster :=
        { localNodeId := n
          shardCount := 1
          topology :=
            { ClusterTopology.new.addNode (sampleNode "a") with shardToNode := fun _ => some "a" } }
      connectionPools := []
      collections := fun name =>
        if name = "vectors" then some (Collection.create Collection.sampleCollectionConfig)
        else none }

theorem solo_oneTopology : Network.OneTopology solo where
  name _ _ := rfl
  shardCount _ _ _ _ := rfl
  topology _ _ _ _ := rfl

def soloItem (payload : Option Unit) : UpsertItem Unit where
  id := 1
  vector := { data := [0x3F800000], payload }
  timestamp := 0
  level := 0

def soloSingles (payload : Option Unit) :
    Option (Network Unit (Collection Unit Nat) × List (Except RouterError Unit)) :=
  solo.insertAll payloadCodec (fun _ => 0) id "vectors" 0 "a" [soloItem payload]

def soloBatch (payload : Option Unit) :
    Option (Network Unit (Collection Unit Nat) × BatchInsertResult) :=
  solo.batchInsert payloadCodec (fun _ => 0) id id "vectors" 0 "a" [soloItem payload]

/-- The networks after the single insert and after the batch, with its result. -/
def afterSingles (payload : Option Unit) : Network Unit (Collection Unit Nat) :=
  ((soloSingles payload).getD (solo, [])).1

def afterBatch (payload : Option Unit) : Network Unit (Collection Unit Nat) × BatchInsertResult :=
  (soloBatch payload).getD (solo, { insertedCount := 0, failedNodes := [] })

theorem soloSingles_eq (payload : Option Unit) :
    soloSingles payload = some (afterSingles payload, [.ok ()]) := by
  have hresults : (soloSingles payload).map Prod.snd = some [.ok ()] := by
    cases payload with
    | none => decide +kernel
    | some payload =>
      cases payload
      decide +kernel
  obtain ⟨done, hdone, hsecond⟩ := Option.map_eq_some_iff.mp hresults
  rw [afterSingles, hdone, ← hsecond]
  rfl

theorem soloBatch_eq (payload : Option Unit) :
    soloBatch payload = some (afterBatch payload) ∧ (afterBatch payload).2.failedNodes = [] := by
  have hresults : (soloBatch payload).map (fun done => done.2.failedNodes) = some [] := by
    cases payload with
    | none => decide +kernel
    | some payload =>
      cases payload
      decide +kernel
  obtain ⟨done, hdone, hfailed⟩ := Option.map_eq_some_iff.mp hresults
  rw [afterBatch, hdone]
  exact ⟨rfl, hfailed⟩

theorem solo_logged (c : Collection Unit Nat)
    (hc : (solo.router "a").collections "vectors" = some c) :
    ∃ logged, Logged payloadCodec (fun _ => 0) c.storage.engine.wal logged := by
  obtain rfl := Option.some.inj hc
  exact ⟨[], openAt_empty _ _, fun l hl => absurd hl List.not_mem_nil,
    fun l hl => absurd hl List.not_mem_nil⟩

/-- A vector without a payload. -/
theorem batch_insert_iff_solo :
    Network.AsSingles (afterSingles none) (afterBatch none).1 (afterBatch none).2
      [soloItem none] :=
  (Network.batch_insert_iff (fun groups => .refl groups) solo_oneTopology List.mem_cons_self
    payloadCodec_shows solo_logged (soloSingles_eq none)
    (fun r hr => List.mem_singleton.mp hr)
    ((soloBatch_eq none).1) (soloBatch_eq none).2).mpr
    ⟨fun item hitem _ => by rw [List.mem_singleton.mp hitem]; rfl, by decide⟩

def logSize (c : Option (Collection P D)) : Option Nat :=
  c.map fun c => c.storage.engine.wal.currentSize

theorem logSize_eq {c c' : Option (Collection P D)} (hsame : Option.Rel SameContents c c') :
    logSize c = logSize c' := by
  cases hsame with
  | none => rfl
  | some hsame => rw [logSize, logSize, Option.map_some, Option.map_some, hsame.2.1]

/-- The batch forgets the payload of a vector that stays. -/
theorem not_batch_insert_solo :
    ¬∀ (net : Network Unit (Collection Unit Nat)) (node collection : String)
      (items : List (UpsertItem Unit)) (singles batch : Network Unit (Collection Unit Nat))
      (results : List (Except RouterError Unit)) (result : BatchInsertResult),
      Network.OneTopology net → node ∈ net.members →
      net.insertAll payloadCodec (fun _ => 0) id collection 0 node items = some (singles, results) →
      (∀ r ∈ results, r = .ok ()) →
      net.batchInsert payloadCodec (fun _ => 0) id id collection 0 node items =
        some (batch, result) → result.failedNodes = [] →
      Network.AsSingles singles batch result items := by
  intro hall
  have hsame := (hall solo "a" "vectors" [soloItem (some ())] _ _ _ _ solo_oneTopology
    List.mem_cons_self (soloSingles_eq (some ())) (fun r hr => List.mem_singleton.mp hr)
    (soloBatch_eq (some ())).1 (soloBatch_eq (some ())).2).contents "a" List.mem_cons_self "vectors"
  exact absurd (logSize_eq hsame) (by decide +kernel)

end Cluster
end RTDB
