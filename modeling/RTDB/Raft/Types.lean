import Mathlib.Data.List.AList

/-!
# Core Raft data

The records of `cluster/raft/types.rs`.  Node ids, log indices and terms are
`u64` in the source and natural numbers here: an index or a term only ever
advances by one per event.  A `HashMap` is an association list without repeated
keys.
-/

namespace RTDB
namespace Raft

abbrev NodeId := Nat

abbrev NodeMap (β : Type) := AList (fun _ : NodeId => β)

inductive RaftState where
  | follower
  | candidate
  | leader
  | preCandidate
  deriving DecidableEq, Repr

inductive EntryType where
  | normal
  | configChange
  deriving DecidableEq, Repr

structure LogEntry where
  index : Nat
  term : Nat
  data : List UInt8
  entryType : EntryType
  deriving DecidableEq, Repr

def LogEntry.new (index : Nat) (term : Nat) (data : List UInt8) : LogEntry :=
  { index, term, data, entryType := .normal }

structure HardState where
  term : Nat
  votedFor : NodeId
  commitIndex : Nat
  deriving DecidableEq, Repr

structure ConfState where
  voters : List NodeId
  learners : List NodeId
  votersOutgoing : List NodeId
  autoLeave : Bool
  deriving DecidableEq, Repr

namespace ConfState

def new (voters : List NodeId) : ConfState :=
  { voters, learners := [], votersOutgoing := [], autoLeave := false }

def isLearner (c : ConfState) (nodeId : NodeId) : Bool := c.learners.contains nodeId

end ConfState

structure Progress where
  nextIndex : Nat
  matchIndex : Nat
  paused : Bool
  inflight : Nat
  recentActive : Bool
  isLearner : Bool
  deriving DecidableEq, Repr

namespace Progress

def new (nextIndex : Nat) (isLearner : Bool) : Progress :=
  { nextIndex, matchIndex := 0, paused := false, inflight := 0,
    recentActive := false, isLearner }

def becomeReject (p : Progress) : Progress :=
  { p with
    nextIndex := if p.nextIndex > 1 then p.nextIndex - 1 else p.nextIndex
    paused := false }

def becomeAccept (p : Progress) (index : Nat) : Progress :=
  let p := if index > p.matchIndex then
    { p with matchIndex := index, nextIndex := index + 1 } else p
  { p with paused := false, recentActive := true }

end Progress

structure SnapshotMetadata where
  index : Nat
  term : Nat
  confState : ConfState
  deriving DecidableEq, Repr

structure Snapshot where
  metadata : SnapshotMetadata
  data : List UInt8
  deriving DecidableEq, Repr

inductive MessageType where
  | heartbeat
  | appendEntries
  | appendResponse
  | requestVote
  | voteResponse
  | requestPreVote
  | preVoteResponse
  | installSnapshot
  | snapshotResponse
  | timeoutNow
  deriving DecidableEq, Repr

/-- One message; a field the constructor does not set has the default value of
the source's derived `Default`. -/
structure Message where
  msgType : MessageType
  from_ : NodeId
  to_ : NodeId
  term : Nat
  index : Nat := 0
  entries : List LogEntry := []
  commit : Nat := 0
  reject : Bool := false
  rejectHint : Nat := 0
  snapshot : Option Snapshot := none
  context : List UInt8 := []
  deriving DecidableEq, Repr

namespace Message

def new (msgType : MessageType) (from_ to_ : NodeId) (term : Nat) : Message :=
  { msgType, from_, to_, term }

def withReject (m : Message) (hint : Nat) : Message :=
  { m with reject := true, rejectHint := hint }

end Message

/-- What a handler asks its caller to persist, send and apply. -/
structure Ready where
  hardState : Option HardState := none
  entries : List LogEntry := []
  committedEntries : List LogEntry := []
  messages : List Message := []
  snapshot : Option Snapshot := none
  deriving DecidableEq, Repr

def Ready.isEmpty (r : Ready) : Bool :=
  r.hardState.isNone && r.entries.isEmpty && r.committedEntries.isEmpty &&
    r.messages.isEmpty && r.snapshot.isNone

structure Config where
  id : NodeId
  electionTimeoutMin : Nat := 150
  electionTimeoutMax : Nat := 300
  heartbeatInterval : Nat := 50
  maxMsgSize : Nat := 1024 * 1024
  maxInflight : Nat := 256
  preVote : Bool := true
  checkQuorum : Bool := true
  batchApply : Bool := true
  deriving DecidableEq, Repr

structure ReadState where
  index : Nat
  requestCtx : List UInt8
  deriving DecidableEq, Repr

def isQuorum (voters votes : Nat) : Bool := votes > voters / 2

/-- What one call reads from outside: the clock, and the draw that
`random_election_timeout` makes. -/
structure Env where
  now : Nat
  jitter : Nat
  deriving DecidableEq, Repr

def randomElectionTimeout (env : Env) (min max : Nat) : Nat :=
  min + env.jitter % (max - min + 1)

end Raft
end RTDB
