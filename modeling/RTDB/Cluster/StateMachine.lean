import RTDB.Cluster.Config
import RTDB.Lib.Bytes
import RTDB.Raft.Types
import Mathlib.Data.List.Induction

/-!
# The state machine

`cluster/raft_apply.rs`: committed entries applied to the collections and the nodes of
a cluster.  What the machine does not decide comes in from outside: how bincode and
the address parser read their input as a `Wire`, and the file system, the clock and
the order of hash maps with each call.
-/

namespace RTDB
namespace Cluster

open Raft

variable {Addr : Type}

/-- The variants of `RTDBError` the machine makes, or passes on from the file system. -/
inductive ApplyError where
  | serialization (text : String)
  | configuration (text : String)
  | io (text : String)
  deriving DecidableEq, Repr

inductive StateMachineCommand where
  | createCollection (name : String) (dimension : Nat) (config : List UInt8)
  | deleteCollection (name : String)
  | updateCollection (name : String) (configUpdate : List UInt8)
  | registerNode (nodeId address : String) (capabilities : List UInt8)
  | deregisterNode (nodeId : String)
  | updateNodeStatus (nodeId : String) (status : Nat)
  | reassignShards (assignments : List UInt8)
  | updateClusterConfig (config : List UInt8)
  | noOp
  deriving DecidableEq, Repr

structure StateMachineSnapshot where
  collections : List String
  lastApplied : Nat
  timestamp : Int
  deriving DecidableEq, Repr

structure Wire (Addr : Type) where
  command : List UInt8 → Except String StateMachineCommand
  serialize : StateMachineSnapshot → Except String (List UInt8)
  deserialize : List UInt8 → Except String StateMachineSnapshot
  address : String → Except String Addr

/-- What bincode writes of the snapshot it reads back. -/
def Wire.Reads (wire : Wire Addr) (snapshot : StateMachineSnapshot) : Prop :=
  ∃ data, wire.serialize snapshot = .ok data ∧ wire.deserialize data = .ok snapshot

/-- What one entry meets outside the machine: the order of the nodes, and how the file
system takes the creation and the removal of a collection. -/
structure ApplyEnv (Addr : Type) where
  iteration : Iteration Addr
  created : Except ApplyError Unit
  removed : Except ApplyError Unit

/-- An entry to apply, with what it meets. -/
abbrev Delivery (Addr : Type) := ApplyEnv Addr × LogEntry

/-- The collections are kept with their dimensions. -/
structure RaftStateMachine (Addr : Type) where
  collections : AList (fun _ : String => Nat)
  cluster : ClusterManager Addr
  lastApplied : Nat

/-- An entry without a command. -/
def isNoOp (entry : LogEntry) : Bool := entry.entryType = .normal && entry.data.isEmpty

namespace RaftStateMachine

def new (collections : AList fun _ : String => Nat) (cluster : ClusterManager Addr) :
    RaftStateMachine Addr :=
  { collections, cluster, lastApplied := 0 }

def nodes (m : RaftStateMachine Addr) : Nodes Addr := m.cluster.topology.nodes

/-! ## Commands -/

def applyCreateCollection (env : ApplyEnv Addr) (m : RaftStateMachine Addr) (name : String)
    (dimension : Nat) : RaftStateMachine Addr × Except ApplyError Unit :=
  if (m.collections.lookup name).isSome then (m, .ok ())
  else
    match env.created with
    | .error e => (m, .error e)
    | .ok () => ({ m with collections := m.collections.insert name dimension }, .ok ())

/-- The collection is gone from memory however its files fare. -/
def applyDeleteCollection (env : ApplyEnv Addr) (m : RaftStateMachine Addr) (name : String) :
    RaftStateMachine Addr × Except ApplyError Unit :=
  ({ m with collections := m.collections.erase name }, env.removed)

def applyRegisterNode (wire : Wire Addr) (it : Iteration Addr) (m : RaftStateMachine Addr)
    (nodeId address : String) : RaftStateMachine Addr × Except ApplyError Unit :=
  match wire.address address with
  | .error e => (m, .error (.configuration s!"Invalid address: {e}"))
  | .ok socketAddr =>
    ({ m with
      cluster := m.cluster.addNode it
        { id := nodeId, address := socketAddr, status := .active, shards := [], capacity := 0,
          load := 0, lastHeartbeat := 0 } }, .ok ())

def applyDeregisterNode (it : Iteration Addr) (m : RaftStateMachine Addr) (nodeId : String) :
    RaftStateMachine Addr × Except ApplyError Unit :=
  ({ m with cluster := m.cluster.removeNode it nodeId }, .ok ())

/-- The other commands are not implemented in the source, and succeed. -/
def applyCommand (wire : Wire Addr) (env : ApplyEnv Addr) (m : RaftStateMachine Addr) :
    StateMachineCommand → RaftStateMachine Addr × Except ApplyError Unit
  | .createCollection name dimension _ => m.applyCreateCollection env name dimension
  | .deleteCollection name => m.applyDeleteCollection env name
  | .registerNode nodeId address _ => m.applyRegisterNode wire env.iteration nodeId address
  | .deregisterNode nodeId => m.applyDeregisterNode env.iteration nodeId
  | .updateCollection _ _ => (m, .ok ())
  | .updateNodeStatus _ _ => (m, .ok ())
  | .reassignShards _ => (m, .ok ())
  | .updateClusterConfig _ => (m, .ok ())
  | .noOp => (m, .ok ())

/-- An entry without a command returns before `last_applied` is stored. -/
def applyEntry (wire : Wire Addr) (m : RaftStateMachine Addr) (d : Delivery Addr) :
    RaftStateMachine Addr × Except ApplyError Unit :=
  match d.2.entryType with
  | .normal =>
    if d.2.data.isEmpty then (m, .ok ())
    else
      match wire.command d.2.data with
      | .error e => (m, .error (.serialization s!"Failed to deserialize command: {e}"))
      | .ok command =>
        match m.applyCommand wire d.1 command with
        | (m, .error e) => (m, .error e)
        | (m, .ok ()) => ({ m with lastApplied := d.2.index }, .ok ())
  | .configChange => ({ m with lastApplied := d.2.index }, .ok ())

/-- The first entry that fails ends the batch. -/
def apply (wire : Wire Addr) (m : RaftStateMachine Addr) :
    List (Delivery Addr) → RaftStateMachine Addr × Except ApplyError Unit
  | [] => (m, .ok ())
  | d :: rest =>
    match m.applyEntry wire d with
    | (m, .error e) => (m, .error e)
    | (m, .ok ()) => m.apply wire rest

/-- The entries of a batch that are applied: those before the first that fails. -/
def applied (wire : Wire Addr) (m : RaftStateMachine Addr) : List (Delivery Addr) → List LogEntry
  | [] => []
  | d :: rest =>
    match m.applyEntry wire d with
    | (_, .error _) => []
    | (m, .ok ()) => d.2 :: m.applied wire rest

/-! ## Snapshots -/

/-- What is written: `listing` is the order in which the map yields the names, `now` the
clock. -/
def content (now : Int) (listing : List String) (m : RaftStateMachine Addr) :
    StateMachineSnapshot :=
  { collections := listing, lastApplied := m.lastApplied, timestamp := now }

def snapshot (wire : Wire Addr) (now : Int) (listing : List String) (m : RaftStateMachine Addr) :
    Except ApplyError (Nat × List UInt8) :=
  match wire.serialize (m.content now listing) with
  | .error e => .error (.serialization s!"Failed to serialize snapshot: {e}")
  | .ok data => .ok (m.lastApplied, data)

def applySnapshot (wire : Wire Addr) (m : RaftStateMachine Addr) (snapshot : Snapshot) :
    RaftStateMachine Addr × Except ApplyError Unit :=
  match wire.deserialize snapshot.data with
  | .error e => (m, .error (.serialization s!"Failed to deserialize snapshot: {e}"))
  | .ok restored => ({ m with lastApplied := restored.lastApplied }, .ok ())

/-! ## What has been applied -/

/-- The index of the last entry with a command, or zero. -/
def lastCommand (done : List LogEntry) : Nat :=
  ((done.filter fun entry => !isNoOp entry).getLast?.map LogEntry.index).getD 0

def lastEntry (done : List LogEntry) : Nat := (done.getLast?.map LogEntry.index).getD 0

theorem lastCommand_concat (done : List LogEntry) (entry : LogEntry) :
    lastCommand (done ++ [entry]) = if isNoOp entry then lastCommand done else entry.index := by
  rw [lastCommand, List.filter_append]
  split
  · rename_i hnoop
    rw [List.filter_cons_of_neg (by simp [hnoop]), List.filter_nil, List.append_nil]
    rfl
  · rename_i hcommand
    rw [List.filter_cons_of_pos (by simpa using hcommand), List.filter_nil, List.getLast?_append]
    rfl

theorem lastEntry_concat (done : List LogEntry) (entry : LogEntry) :
    lastEntry (done ++ [entry]) = entry.index := by
  rw [lastEntry, List.getLast?_append]
  rfl

theorem lastCommand_mem (done : List LogEntry) :
    lastCommand done = 0 ∨ ∃ entry ∈ done, entry.index = lastCommand done := by
  rw [lastCommand]
  cases hlast : (done.filter fun entry => !isNoOp entry).getLast? with
  | none => exact Or.inl rfl
  | some entry => exact Or.inr ⟨entry, (List.mem_filter.mp (List.mem_of_getLast? hlast)).1, rfl⟩

/-- Along a log the two indices are the same unless the last entry has no command. -/
theorem lastCommand_eq_iff {done : List LogEntry} (hpos : ∀ entry ∈ done, 0 < entry.index)
    (hlog : (done.map LogEntry.index).Pairwise (· < ·)) :
    lastCommand done = lastEntry done ↔ ∀ entry ∈ done.getLast?, isNoOp entry = false := by
  rcases List.eq_nil_or_concat done with rfl | ⟨before, entry, rfl⟩
  · exact iff_of_true rfl (by simp)
  · rw [List.concat_eq_append] at hpos hlog ⊢
    rw [lastCommand_concat, lastEntry_concat, List.getLast?_append]
    have hlast : (∀ e ∈ [entry].getLast?.or before.getLast?, isNoOp e = false) ↔
        isNoOp entry = false := by simp
    rw [hlast]
    have hnew := hpos entry (by simp)
    rw [List.map_append, List.pairwise_append] at hlog
    cases hnoop : isNoOp entry with
    | false => simp
    | true =>
      refine iff_of_false ?_ (by simp)
      rw [if_pos rfl]
      rcases lastCommand_mem before with hzero | ⟨old, hold, hindex⟩
      · omega
      · have hlt := hlog.2.2 old.index (List.mem_map_of_mem hold) entry.index (by simp)
        omega

/-! ## Runs -/

variable {wire : Wire Addr} {m : RaftStateMachine Addr}

theorem applyCommand_lastApplied (env : ApplyEnv Addr) (command : StateMachineCommand) :
    (m.applyCommand wire env command).1.lastApplied = m.lastApplied := by
  cases command with
  | createCollection name dimension config =>
    simp only [applyCommand, applyCreateCollection]
    split
    · rfl
    · split <;> rfl
  | registerNode nodeId address capabilities =>
    simp only [applyCommand, applyRegisterNode]
    split <;> rfl
  | deleteCollection name => rfl
  | deregisterNode nodeId => rfl
  | updateCollection name configUpdate => rfl
  | updateNodeStatus nodeId status => rfl
  | reassignShards assignments => rfl
  | updateClusterConfig config => rfl
  | noOp => rfl

/-- An entry that is applied stores its index unless it has no command. -/
theorem applyEntry_ok {m' : RaftStateMachine Addr} {d : Delivery Addr}
    (hok : m.applyEntry wire d = (m', .ok ())) :
    m'.lastApplied = if isNoOp d.2 then m.lastApplied else d.2.index := by
  unfold applyEntry at hok
  cases htype : d.2.entryType with
  | configChange =>
    rw [htype] at hok
    rw [if_neg (by simp [isNoOp, htype]), ← (Prod.mk.inj hok).1]
  | normal =>
    rw [htype] at hok
    simp only at hok
    split at hok
    · rename_i hempty
      rw [if_pos (by simp [isNoOp, htype, hempty]), ← (Prod.mk.inj hok).1]
    · rename_i hdata
      rw [if_neg (by simp [isNoOp, htype, hdata])]
      split at hok
      · exact absurd (congrArg Prod.snd hok) (by simp)
      · split at hok
        · exact absurd (congrArg Prod.snd hok) (by simp)
        · rw [← (Prod.mk.inj hok).1]

/-- One that fails stores nothing. -/
theorem applyEntry_error {m' : RaftStateMachine Addr} {d : Delivery Addr} {e : ApplyError}
    (herror : m.applyEntry wire d = (m', .error e)) : m'.lastApplied = m.lastApplied := by
  unfold applyEntry at herror
  split at herror
  · split at herror
    · exact absurd (congrArg Prod.snd herror) (by simp)
    · split at herror
      · rw [← (Prod.mk.inj herror).1]
      · rename_i command hcommand
        have hkept := @applyCommand_lastApplied _ wire m d.1 command
        split at herror
        · rename_i hfails
          rw [← (Prod.mk.inj herror).1, ← hkept, hfails]
        · exact absurd (congrArg Prod.snd herror) (by simp)
  · exact absurd (congrArg Prod.snd herror) (by simp)

/-- A batch leaves the index of the last command applied so far. -/
theorem apply_lastApplied (batch : List (Delivery Addr)) :
    ∀ {m : RaftStateMachine Addr} {done : List LogEntry}, m.lastApplied = lastCommand done →
      (m.apply wire batch).1.lastApplied = lastCommand (done ++ m.applied wire batch) := by
  induction batch with
  | nil =>
    intro m done hm
    rw [applied, List.append_nil]
    exact hm
  | cons d rest ih =>
    intro m done hm
    rw [apply, applied]
    cases hentry : m.applyEntry wire d with
    | mk m' result =>
      cases result with
      | error e =>
        simp only [List.append_nil]
        rw [applyEntry_error hentry]
        exact hm
      | ok value =>
        have hnext : m'.lastApplied = lastCommand (done ++ [d.2]) := by
          rw [applyEntry_ok hentry, lastCommand_concat, hm]
        simp only
        rw [ih hnext, List.append_assoc, List.singleton_append]

theorem applied_sublist (batch : List (Delivery Addr)) :
    ∀ m : RaftStateMachine Addr, (m.applied wire batch).Sublist (batch.map Prod.snd) := by
  induction batch with
  | nil => exact fun m => List.Sublist.refl _
  | cons d rest ih =>
    intro m
    rw [applied]
    split
    · exact List.nil_sublist _
    · exact (ih _).cons_cons d.2

def run (wire : Wire Addr) (m : RaftStateMachine Addr) (batches : List (List (Delivery Addr))) :
    RaftStateMachine Addr × List LogEntry :=
  batches.foldl (fun s batch => ((s.1.apply wire batch).1, s.2 ++ s.1.applied wire batch)) (m, [])

theorem run_concat (m : RaftStateMachine Addr) (batches : List (List (Delivery Addr)))
    (batch : List (Delivery Addr)) : m.run wire (batches ++ [batch]) =
      (((m.run wire batches).1.apply wire batch).1,
        (m.run wire batches).2 ++ (m.run wire batches).1.applied wire batch) := by
  rw [run, List.foldl_append]
  rfl

theorem run_lastApplied (hm : m.lastApplied = 0) (batches : List (List (Delivery Addr))) :
    (m.run wire batches).1.lastApplied = lastCommand (m.run wire batches).2 := by
  induction batches using List.reverseRecOn with
  | nil => exact hm
  | append_singleton batches batch ih =>
    rw [run_concat]
    exact apply_lastApplied batch ih

theorem run_sublist (m : RaftStateMachine Addr) (batches : List (List (Delivery Addr))) :
    (m.run wire batches).2.Sublist (batches.flatten.map Prod.snd) := by
  induction batches using List.reverseRecOn with
  | nil => exact List.Sublist.refl _
  | append_singleton batches batch ih =>
    rw [run_concat, List.flatten_concat, List.map_append]
    exact ih.append (applied_sublist batch _)

/-! ## Snapshots of a run -/

/-- The snapshot of `original` names the index `last`, and turns `fresh` into a machine
with its collections, nodes and last applied index. -/
def RoundTrips (wire : Wire Addr) (now : Int) (listing : List String) (metadata : SnapshotMetadata)
    (original fresh : RaftStateMachine Addr) (last : Nat) : Prop :=
  ∃ data restored, original.snapshot wire now listing = .ok (last, data) ∧
    fresh.applySnapshot wire { metadata := metadata, data := data } = (restored, .ok ()) ∧
      restored.lastApplied = original.lastApplied ∧
      (∀ name, name ∈ restored.collections ↔ name ∈ original.collections) ∧
      ∀ id, restored.nodes.lookup id = original.nodes.lookup id

/-- A snapshot moves no more than an index. -/
theorem roundTrips_iff {now : Int} {listing : List String} {metadata : SnapshotMetadata}
    {original fresh : RaftStateMachine Addr} {last : Nat}
    (hreads : wire.Reads (original.content now listing)) :
    RoundTrips wire now listing metadata original fresh last ↔
      original.lastApplied = last ∧
      (∀ name, name ∈ fresh.collections ↔ name ∈ original.collections) ∧
      ∀ id, fresh.nodes.lookup id = original.nodes.lookup id := by
  obtain ⟨bytes, hwrite, hread⟩ := hreads
  have hsnapshot : original.snapshot wire now listing = .ok (original.lastApplied, bytes) := by
    rw [snapshot, hwrite]
  have happly : fresh.applySnapshot wire { metadata, data := bytes } =
      ({ fresh with lastApplied := original.lastApplied }, .ok ()) := by
    rw [applySnapshot, hread]
    rfl
  constructor
  · rintro ⟨data, restored, hdata, hrestored, -, hnames, hnodes⟩
    rw [hsnapshot, Except.ok.injEq, Prod.mk.injEq] at hdata
    obtain ⟨hlast, rfl⟩ := hdata
    rw [happly, Prod.mk.injEq] at hrestored
    obtain ⟨rfl, -⟩ := hrestored
    exact ⟨hlast, hnames, hnodes⟩
  · rintro ⟨rfl, hnames, hnodes⟩
    exact ⟨bytes, _, hsnapshot, happly, rfl, hnames, hnodes⟩

end RaftStateMachine

open RaftStateMachine

/-- The snapshot of a machine that has applied part of a log makes a fresh machine its
equal exactly when the fresh one has its collections and nodes already, and the last
entry applied has a command. -/
theorem snapshot_round_trip_iff (wire : Wire Addr) (start fresh : RaftStateMachine Addr)
    (hstart : start.lastApplied = 0) (batches : List (List (Delivery Addr))) (now : Int)
    (listing : List String) (metadata : SnapshotMetadata)
    (hpos : ∀ d ∈ batches.flatten, 0 < d.2.index)
    (hlog : (batches.flatten.map fun d => d.2.index).Pairwise (· < ·))
    (hreads : wire.Reads ((start.run wire batches).1.content now listing)) :
    RoundTrips wire now listing metadata (start.run wire batches).1 fresh
        (lastEntry (start.run wire batches).2) ↔
      (∀ name, name ∈ fresh.collections ↔ name ∈ (start.run wire batches).1.collections) ∧
      (∀ id, fresh.nodes.lookup id = (start.run wire batches).1.nodes.lookup id) ∧
      ∀ entry ∈ (start.run wire batches).2.getLast?, isNoOp entry = false := by
  have hsub := @run_sublist _ wire start batches
  have hdone : ∀ entry ∈ (start.run wire batches).2, 0 < entry.index := by
    intro entry hentry
    obtain ⟨d, hd, rfl⟩ := List.mem_map.mp (hsub.subset hentry)
    exact hpos d hd
  have hincreasing : ((start.run wire batches).2.map LogEntry.index).Pairwise (· < ·) := by
    refine List.Pairwise.sublist (hsub.map LogEntry.index) ?_
    rw [List.map_map]
    exact hlog
  rw [roundTrips_iff hreads, run_lastApplied hstart, lastCommand_eq_iff hdone hincreasing]
  tauto

/-! ## A run with one collection -/

def stringBytes (text : List UInt8) : List UInt8 := Bytes.leBytes 8 text.length ++ text

def creationBytes : List UInt8 :=
  Bytes.leBytes 4 0 ++ stringBytes [97] ++ Bytes.leBytes 8 2 ++ Bytes.leBytes 8 0

def createdSnapshot : StateMachineSnapshot :=
  { collections := ["a"], lastApplied := 2, timestamp := 0 }

def createdBytes : List UInt8 :=
  Bytes.leBytes 8 1 ++ stringBytes [97] ++ Bytes.leBytes 8 2 ++ Bytes.leBytes 8 0

def creationWire : Wire Nat :=
  { command := fun data =>
      if data = creationBytes then .ok (.createCollection "a" 2 [])
      else .error "unexpected end of file"
    serialize := fun snapshot =>
      if snapshot = createdSnapshot then .ok createdBytes else .error "size limit"
    deserialize := fun data =>
      if data = createdBytes then .ok createdSnapshot else .error "unexpected end of file"
    address := fun _ => .error "invalid socket address syntax" }

def emptyMachine : RaftStateMachine Nat :=
  RaftStateMachine.new ∅ { localNodeId := "n", shardCount := 256, topology := ClusterTopology.new }

/-- The entry a leader starts with, then the creation. -/
def creation : List (List (Delivery Nat)) :=
  let env : ApplyEnv Nat := { iteration := Iteration.forward, created := .ok (), removed := .ok () }
  [[(env, LogEntry.new 1 1 []), (env, LogEntry.new 2 1 creationBytes)]]

def createdMachine : RaftStateMachine Nat :=
  { emptyMachine with collections := (∅ : AList _).insert "a" 2, lastApplied := 2 }

theorem run_creation : emptyMachine.run creationWire creation =
    (createdMachine, [LogEntry.new 1 1 [], LogEntry.new 2 1 creationBytes]) := rfl

theorem creationWire_reads : creationWire.Reads (createdMachine.content 0 ["a"]) :=
  ⟨createdBytes, rfl, rfl⟩

/-- A machine that has the collection already is restored. -/
theorem snapshot_round_trip_created :
    RoundTrips creationWire 0 ["a"] { index := 2, term := 1, confState := ConfState.new [1] }
      createdMachine { createdMachine with lastApplied := 0 } 2 :=
  (snapshot_round_trip_iff creationWire emptyMachine { createdMachine with lastApplied := 0 } rfl
    creation 0 ["a"] { index := 2, term := 1, confState := ConfState.new [1] }
    (by decide) (by decide) creationWire_reads).mpr
      ⟨fun _ => Iff.rfl, fun _ => rfl, by decide⟩

/-- An empty machine is not: it has no collection after the snapshot either. -/
theorem not_snapshot_round_trip_empty :
    ¬RoundTrips creationWire 0 ["a"] { index := 2, term := 1, confState := ConfState.new [1] }
      (emptyMachine.run creationWire creation).1 emptyMachine
      (lastEntry (emptyMachine.run creationWire creation).2) := by
  rw [run_creation, roundTrips_iff creationWire_reads]
  rintro ⟨-, hnames, -⟩
  exact absurd ((hnames "a").mpr ((AList.mem_insert _).mpr (Or.inl rfl))) (by decide)

end Cluster
end RTDB
