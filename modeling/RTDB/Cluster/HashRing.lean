import Mathlib.Order.Nat
import RTDB.Lib.Names
import RTDB.Lib.SortedMap

/-!
# The hash ring

`cluster/hash_ring.rs`.  A node stands on the ring at the hashes of its virtual nodes.
-/

namespace RTDB
namespace Cluster

/-- A ring of node ids by hash values. -/
structure HashRing where
  ring : SortedMap Nat String
  nodes : List String
  virtualNodes : Nat

def vnodeKey (nodeId : String) (i : Nat) : String := nodeId ++ "-" ++ toString i

namespace HashRing

def withVirtualNodes (virtualNodes : Nat) : HashRing :=
  { ring := SortedMap.empty, nodes := [], virtualNodes }

def new : HashRing := withVirtualNodes 150

variable (hash : String → Nat)

def addNode (r : HashRing) (nodeId : String) : HashRing :=
  if nodeId ∈ r.nodes then r
  else
    { r with
      ring := (List.range r.virtualNodes).foldl
        (fun ring i => ring.insert (hash (vnodeKey nodeId i)) nodeId) r.ring
      nodes := r.nodes ++ [nodeId] }

def removeNode (r : HashRing) (nodeId : String) : HashRing :=
  { r with
    ring := (List.range r.virtualNodes).foldl
      (fun ring i => ring.erase (hash (vnodeKey nodeId i))) r.ring
    nodes := r.nodes.filter (· ≠ nodeId) }

/-- The node at or after the key, around the ring if there is none. -/
def getNode (r : HashRing) (key : String) : Option String := r.ring.successor (hash key)

inductive Call where
  | addNode (nodeId : String)
  | removeNode (nodeId : String)
  deriving DecidableEq, Repr

def Call.nodeId : Call → String
  | .addNode nodeId => nodeId
  | .removeNode nodeId => nodeId

def Call.perform (r : HashRing) : Call → HashRing
  | .addNode nodeId => r.addNode hash nodeId
  | .removeNode nodeId => r.removeNode hash nodeId

def perform (r : HashRing) (calls : List Call) : HashRing := calls.foldl (Call.perform hash) r

/-- The keys of the nodes' virtual nodes have different hashes. -/
def NoCollision (virtualNodes : Nat) (nodeIds : List String) : Prop :=
  ∀ a ∈ nodeIds, ∀ b ∈ nodeIds, ∀ i < virtualNodes, ∀ j < virtualNodes,
    hash (vnodeKey a i) = hash (vnodeKey b j) → vnodeKey a i = vnodeKey b j

instance (virtualNodes : Nat) (nodeIds : List String) :
    Decidable (NoCollision hash virtualNodes nodeIds) :=
  inferInstanceAs (Decidable (∀ a ∈ nodeIds, ∀ b ∈ nodeIds, ∀ i < virtualNodes,
    ∀ j < virtualNodes, hash (vnodeKey a i) = hash (vnodeKey b j) → vnodeKey a i = vnodeKey b j))

structure Fits (nodeIds : List String) (r : HashRing) : Prop where
  known : ∀ nodeId ∈ r.nodes, nodeId ∈ nodeIds
  holds : ∀ h nodeId, (h, nodeId) ∈ r.ring.entries ↔
    nodeId ∈ r.nodes ∧ ∃ i < r.virtualNodes, hash (vnodeKey nodeId i) = h

/-! ## Virtual nodes -/

/-- The number is what follows the last hyphen. -/
theorem vnodeKey_node {a b : String} {i j : Nat} (hkey : vnodeKey a i = vnodeKey b j) : a = b := by
  have hchars : a.toList ++ '-' :: Nat.toDigits 10 i = b.toList ++ '-' :: Nat.toDigits 10 j := by
    simpa [vnodeKey] using congrArg String.toList hkey
  exact String.toList_inj.mp
    (Names.before_last (Names.hyphen_notMem_toDigits i) (Names.hyphen_notMem_toDigits j) hchars)

variable {hash : String → Nat} {r : HashRing} {nodeIds : List String}

theorem NoCollision.node_eq {virtualNodes : Nat} (hnone : NoCollision hash virtualNodes nodeIds)
    {a b : String} {i j : Nat} (ha : a ∈ nodeIds) (hb : b ∈ nodeIds) (hi : i < virtualNodes)
    (hj : j < virtualNodes) (hhash : hash (vnodeKey a i) = hash (vnodeKey b j)) : a = b :=
  vnodeKey_node (hnone a ha b hb i hi j hj hhash)

/-! ## Loops -/

theorem mem_insert_loop (nodeId : String) (e : Nat × String) (l : List Nat)
    (ring : SortedMap Nat String) :
    e ∈ (l.foldl (fun ring i => ring.insert (hash (vnodeKey nodeId i)) nodeId) ring).entries ↔
      (e.2 = nodeId ∧ ∃ i ∈ l, hash (vnodeKey nodeId i) = e.1) ∨
        (e ∈ ring.entries ∧ ∀ i ∈ l, hash (vnodeKey nodeId i) ≠ e.1) := by
  induction l generalizing ring with
  | nil => simp
  | cons i l ih =>
    have hhead : e = (hash (vnodeKey nodeId i), nodeId) ↔
        e.2 = nodeId ∧ hash (vnodeKey nodeId i) = e.1 := by
      rw [Prod.ext_iff, and_comm, eq_comm (a := e.1)]
    rw [List.foldl_cons, ih, SortedMap.mem_insert, hhead]
    simp only [List.mem_cons, exists_eq_or_imp, forall_eq_or_imp]
    by_cases hlater : ∃ j ∈ l, hash (vnodeKey nodeId j) = e.1
    · have hsome : ¬∀ j ∈ l, hash (vnodeKey nodeId j) ≠ e.1 := fun hnot =>
        hlater.elim fun j hj => hnot j hj.1 hj.2
      simp only [hlater, hsome, and_true, and_false, or_false, or_true]
    · have hnot : ∀ j ∈ l, hash (vnodeKey nodeId j) ≠ e.1 := fun j hj hhash =>
        hlater ⟨j, hj, hhash⟩
      simp only [hlater, and_false, false_or, or_false, and_iff_left hnot, ne_eq,
        eq_comm (a := e.1)]

theorem mem_erase_loop (nodeId : String) (e : Nat × String) (l : List Nat)
    (ring : SortedMap Nat String) :
    e ∈ (l.foldl (fun ring i => ring.erase (hash (vnodeKey nodeId i))) ring).entries ↔
      e ∈ ring.entries ∧ ∀ i ∈ l, hash (vnodeKey nodeId i) ≠ e.1 := by
  induction l generalizing ring with
  | nil => simp
  | cons i l ih =>
    rw [List.foldl_cons, ih, SortedMap.mem_erase]
    simp only [List.mem_cons, forall_eq_or_imp]
    constructor
    · rintro ⟨⟨hmem, hhere⟩, hlater⟩
      exact ⟨hmem, Ne.symm hhere, hlater⟩
    · rintro ⟨hmem, hhere, hlater⟩
      exact ⟨⟨hmem, Ne.symm hhere⟩, hlater⟩

/-! ## Calls -/

theorem fits_withVirtualNodes (virtualNodes : Nat) :
    Fits hash nodeIds (withVirtualNodes virtualNodes) :=
  { known := fun _ hmem => absurd hmem List.not_mem_nil
    holds := fun h nodeId => by simp [withVirtualNodes, SortedMap.empty] }

theorem addNode_virtualNodes (r : HashRing) (nodeId : String) :
    (r.addNode hash nodeId).virtualNodes = r.virtualNodes := by
  rw [addNode]
  split <;> rfl

theorem addNode_nodes {nodeId : String} (hnew : nodeId ∉ r.nodes) :
    (r.addNode hash nodeId).nodes = r.nodes ++ [nodeId] := by
  rw [addNode, if_neg hnew]

theorem addNode_fits (hnone : NoCollision hash r.virtualNodes nodeIds) (hr : Fits hash nodeIds r)
    {nodeId : String} (hknown : nodeId ∈ nodeIds) : Fits hash nodeIds (r.addNode hash nodeId) := by
  by_cases hnew : nodeId ∈ r.nodes
  · rw [addNode, if_pos hnew]
    exact hr
  · refine ⟨fun n hn => ?_, fun h n => ?_⟩
    · rw [addNode_nodes hnew] at hn
      rcases List.mem_append.mp hn with hn | hn
      · exact hr.known n hn
      · rw [List.mem_singleton.mp hn]
        exact hknown
    · rw [addNode_nodes hnew, addNode_virtualNodes]
      rw [addNode, if_neg hnew, mem_insert_loop, hr.holds, List.mem_append, List.mem_singleton]
      simp only [List.mem_range]
      constructor
      · rintro (⟨rfl, hat⟩ | ⟨⟨hn, hat⟩, -⟩)
        · exact ⟨Or.inr rfl, hat⟩
        · exact ⟨Or.inl hn, hat⟩
      · rintro ⟨hn | rfl, hat⟩
        · refine Or.inr ⟨⟨hn, hat⟩, fun i hi hhash => ?_⟩
          obtain ⟨j, hj, rfl⟩ := hat
          rw [hnone.node_eq hknown (hr.known n hn) hi hj hhash] at hnew
          exact hnew hn
        · exact Or.inl ⟨rfl, hat⟩

theorem removeNode_fits (hnone : NoCollision hash r.virtualNodes nodeIds)
    (hr : Fits hash nodeIds r) {nodeId : String} (hknown : nodeId ∈ nodeIds) :
    Fits hash nodeIds (r.removeNode hash nodeId) := by
  refine ⟨fun n hn => hr.known n (List.mem_filter.mp hn).1, fun h n => ?_⟩
  rw [removeNode, mem_erase_loop, hr.holds, List.mem_filter, decide_eq_true_iff]
  simp only [List.mem_range]
  constructor
  · rintro ⟨⟨hn, i, hi, hat⟩, hnot⟩
    refine ⟨⟨hn, ?_⟩, i, hi, hat⟩
    rintro rfl
    exact hnot i hi hat
  · rintro ⟨⟨hn, hne⟩, hat⟩
    refine ⟨⟨hn, hat⟩, fun i hi hhash => hne ?_⟩
    obtain ⟨j, hj, rfl⟩ := hat
    exact (hnone.node_eq hknown (hr.known n hn) hi hj hhash).symm

/-- The ring that fits is determined by the nodes. -/
theorem Fits.ext {r' : HashRing} (hr : Fits hash nodeIds r) (hr' : Fits hash nodeIds r')
    (hnodes : r.nodes = r'.nodes) (hvirtual : r.virtualNodes = r'.virtualNodes) : r = r' := by
  have hring : r.ring = r'.ring := by
    refine SortedMap.eq_of_mem_iff fun e => ?_
    have hmem := hr.holds e.1 e.2
    rw [hnodes, hvirtual, ← hr'.holds] at hmem
    exact hmem
  cases r
  cases r'
  simp_all

theorem fits_perform (calls : List Call) (hnone : NoCollision hash r.virtualNodes nodeIds)
    (hr : Fits hash nodeIds r) (hknown : ∀ call ∈ calls, call.nodeId ∈ nodeIds) :
    Fits hash nodeIds (r.perform hash calls) ∧
      (r.perform hash calls).virtualNodes = r.virtualNodes := by
  induction calls generalizing r with
  | nil => exact ⟨hr, rfl⟩
  | cons call calls ih =>
    have hcall : call.nodeId ∈ nodeIds := hknown call List.mem_cons_self
    have hrest : ∀ call ∈ calls, call.nodeId ∈ nodeIds := fun c hc => hknown c (List.mem_cons_of_mem _ hc)
    cases call with
    | addNode nodeId =>
      have hvirtual : (r.addNode hash nodeId).virtualNodes = r.virtualNodes := addNode_virtualNodes r nodeId
      have hnext := @ih (r.addNode hash nodeId) (hvirtual ▸ hnone) (addNode_fits hnone hr hcall) hrest
      exact ⟨hnext.1, hnext.2.trans hvirtual⟩
    | removeNode nodeId =>
      exact @ih (r.removeNode hash nodeId) hnone (removeNode_fits hnone hr hcall) hrest

/-! ## Consistent hashing -/

/-- The ring without a node is the ring with the entries of that node left out. -/
theorem ring_filter {r' : HashRing} (hr : Fits hash nodeIds r) (hr' : Fits hash nodeIds r')
    (hvirtual : r.virtualNodes = r'.virtualNodes) {nodeId : String}
    (hnodes : ∀ n, n ∈ r'.nodes ↔ n ∈ r.nodes ∧ n ≠ nodeId) :
    r'.ring = r.ring.filter fun e => e.2 ≠ nodeId := by
  refine SortedMap.eq_of_mem_iff fun e => ?_
  have hmem := hr.holds e.1 e.2
  have hmem' := hr'.holds e.1 e.2
  rw [hnodes, ← hvirtual, and_right_comm, ← hmem] at hmem'
  rw [SortedMap.mem_filter, decide_eq_true_iff]
  exact hmem'

/-- Only the keys of that node move. -/
theorem getNode_filter {r' : HashRing} {nodeId : String}
    (hring : r'.ring = r.ring.filter fun e => e.2 ≠ nodeId) {key : String}
    (hmoved : r.getNode hash key ≠ r'.getNode hash key) : r.getNode hash key = some nodeId := by
  rw [getNode, getNode, hring] at hmoved
  exact SortedMap.successor_filter (fun e _ hout => by simpa using hout) hmoved

/-- A new node takes keys and nobody else does, a node that goes gives up its own keys
and nobody else's, and a new node that goes again leaves the ring as it was. -/
theorem consistent_hashing (hash : String → Nat) (virtualNodes : Nat) (calls : List Call)
    (nodeId : String)
    (hnone : NoCollision hash virtualNodes (nodeId :: calls.map Call.nodeId)) :
    let r := (withVirtualNodes virtualNodes).perform hash calls
    (nodeId ∉ r.nodes →
      (∀ key, (r.addNode hash nodeId).getNode hash key ≠ r.getNode hash key →
        (r.addNode hash nodeId).getNode hash key = some nodeId) ∧
      (r.addNode hash nodeId).removeNode hash nodeId = r) ∧
    (∀ key, r.getNode hash key ≠ (r.removeNode hash nodeId).getNode hash key →
      r.getNode hash key = some nodeId) := by
  intro r
  have hknown : ∀ call ∈ calls, call.nodeId ∈ nodeId :: calls.map Call.nodeId := fun call hcall =>
    List.mem_cons_of_mem _ (List.mem_map_of_mem hcall)
  obtain ⟨hr, hvirtual⟩ := fits_perform calls hnone (fits_withVirtualNodes virtualNodes) hknown
  have hnone' : NoCollision hash r.virtualNodes (nodeId :: calls.map Call.nodeId) := hvirtual ▸ hnone
  have hremoved := removeNode_fits hnone' hr List.mem_cons_self
  refine ⟨fun hnew => ?_, fun key => ?_⟩
  · have hadded := addNode_fits hnone' hr (List.mem_cons_self (a := nodeId))
    have hkept : (r.addNode hash nodeId).virtualNodes = r.virtualNodes := addNode_virtualNodes r nodeId
    have hout : ∀ n, n ∈ r.nodes ↔ n ∈ (r.addNode hash nodeId).nodes ∧ n ≠ nodeId := by
      intro n
      rw [addNode_nodes hnew, List.mem_append, List.mem_singleton]
      constructor
      · rintro hn
        exact ⟨Or.inl hn, fun heq => hnew (heq ▸ hn)⟩
      · rintro ⟨hn | hn, hne⟩
        · exact hn
        · exact absurd hn hne
    refine ⟨fun key => getNode_filter (ring_filter hadded hr hkept hout), ?_⟩
    have hback := removeNode_fits (hkept.symm ▸ hnone') hadded List.mem_cons_self
    refine hback.ext hr ?_ hkept
    rw [removeNode, addNode_nodes hnew, List.filter_append, List.filter_eq_self.mpr]
    · simp
    · intro n hn
      exact decide_eq_true fun heq => hnew (heq ▸ hn)
  · refine getNode_filter (ring_filter hr hremoved rfl fun n => ?_)
    rw [removeNode, List.mem_filter, decide_eq_true_iff]

def spread (key : String) : Nat :=
  if key = "a-0" then 10 else if key = "b-0" then 20 else if key = "a-1" then 30
  else if key = "b-1" then 40 else 0

theorem consistent_hashing_spread :
    "b" ∉ ((withVirtualNodes 2).perform spread [.addNode "a"]).nodes ∧
      (((withVirtualNodes 2).perform spread [.addNode "a"]).addNode spread "b").removeNode spread "b" =
        (withVirtualNodes 2).perform spread [.addNode "a"] :=
  ⟨by decide, ((consistent_hashing spread 2 [.addNode "a"] "b" (by decide)).1 (by decide)).2⟩

end HashRing
end Cluster
end RTDB
