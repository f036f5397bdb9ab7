import RTDB.Raft.Types
import Mathlib.Data.List.Sort

/-!
# The Raft node

`cluster/raft/node.rs`, method by method.  A method on `&mut self` returns the
new node; the clock reading and the random draw it makes arrive as an `Env`.

`campaign` and `pre_campaign` build one request per peer and leave the sending
to ready processing, so an `Output` carries the built requests beside the
`Ready` the method returns.
-/

namespace RTDB
namespace Raft

/-- The term of the entry at a one-based index, zero outside the log. -/
def termAt (log : List LogEntry) (index : Nat) : Nat :=
  if index = 0 then 0
  else if log.length < index then 0
  else (log[index - 1]?.map LogEntry.term).getD 0

/-- Keep the entries below `fromIndex`. -/
def truncateLog (log : List LogEntry) (fromIndex : Nat) : List LogEntry :=
  if fromIndex ≤ log.length then log.take (fromIndex - 1) else log

def conflictHintFrom (log : List LogEntry) (term : Nat) : Nat → Nat
  | 0 => 0
  | i + 1 => if termAt log (i + 1) ≠ term then i + 1 else conflictHintFrom log term i

/-- The loop of `get_entries`: `size` bytes have been taken, and `first` holds
until one entry has.  No limit stands for `usize::MAX`. -/
def takeEntries (maxSize : Option Nat) (size : Nat) (first : Bool) :
    List LogEntry → List LogEntry
  | [] => []
  | entry :: rest =>
    let size := size + (entry.data.length + 32)
    let exceeds := maxSize.any (· < size)
    if exceeds && !first then []
    else if exceeds then [entry]
    else entry :: takeEntries maxSize size false rest

structure RaftNode where
  config : Config
  term : Nat
  votedFor : NodeId
  log : List LogEntry
  commitIndex : Nat
  lastApplied : Nat
  progress : NodeMap Progress
  state : RaftState
  leaderId : NodeId
  electionTimeout : Nat
  lastElectionReset : Nat
  lastHeartbeat : Nat
  votes : NodeMap Bool
  readStates : List ReadState
  pendingReads : List ReadState
  pendingSnapshot : Option Snapshot
  quorumRecentlyActive : Bool
  confState : ConfState
  inJointConsensus : Bool
  deriving DecidableEq

/-- The node after a call, the `Ready` it returned and the requests it built. -/
structure Output where
  node : RaftNode
  ready : Option Ready := none
  built : List Message := []

/-- Everything a call puts on the wire. -/
def Output.messages (o : Output) : List Message :=
  (o.ready.map Ready.messages).getD [] ++ o.built

namespace RaftNode

/-- `new_with_conf`: a fresh follower whose log holds one no-op of term zero. -/
def newWithConf (env : Env) (config : Config) (voters : List NodeId) : RaftNode :=
  { config
    term := 0
    votedFor := 0
    log := [LogEntry.new 1 0 []]
    commitIndex := 0
    lastApplied := 0
    progress := ∅
    state := .follower
    leaderId := 0
    electionTimeout :=
      randomElectionTimeout env config.electionTimeoutMin config.electionTimeoutMax
    lastElectionReset := env.now
    lastHeartbeat := env.now
    votes := ∅
    readStates := []
    pendingReads := []
    pendingSnapshot := none
    quorumRecentlyActive := true
    confState := ConfState.new voters
    inJointConsensus := false }

/-! ## Accessors -/

def id (n : RaftNode) : NodeId := n.config.id

def isLeader (n : RaftNode) : Bool := n.state = .leader

def lastIndex (n : RaftNode) : Nat := n.log.length

def logTerm (n : RaftNode) (index : Nat) : Nat := termAt n.log index

def lastTerm (n : RaftNode) : Nat := n.logTerm n.lastIndex

def quorumSize (n : RaftNode) : Nat := n.confState.voters.length / 2 + 1

def findConflictHint (n : RaftNode) (index : Nat) : Nat :=
  conflictHintFrom n.log (n.logTerm index) index

def getEntries (n : RaftNode) (fromIndex : Nat) (maxSize : Option Nat) : List LogEntry :=
  let start := fromIndex - 1
  if start ≥ n.log.length then [] else takeEntries maxSize 0 true (n.log.drop start)

def hardState (n : RaftNode) : HardState :=
  { term := n.term, votedFor := n.votedFor, commitIndex := n.commitIndex }

/-- The voters other than the node itself, in configuration order. -/
def peers (n : RaftNode) : List NodeId := n.confState.voters.filter (· ≠ n.id)

/-! ## State transitions -/

def resetElectionTimeout (env : Env) (n : RaftNode) : RaftNode :=
  { n with
    electionTimeout :=
      randomElectionTimeout env n.config.electionTimeoutMin n.config.electionTimeoutMax
    lastElectionReset := env.now }

def reset (n : RaftNode) (term : Nat) : RaftNode :=
  { n with
    term
    votedFor := if n.term ≠ term then 0 else n.votedFor
    leaderId := 0
    progress := ∅
    votes := ∅
    readStates := []
    pendingReads := [] }

def becomeFollower (env : Env) (n : RaftNode) (term : Nat) (leaderId : NodeId) : RaftNode :=
  resetElectionTimeout env { n.reset term with state := .follower, leaderId }

def becomePreCandidate (env : Env) (n : RaftNode) : RaftNode :=
  resetElectionTimeout env
    { n with state := .preCandidate, votes := (∅ : NodeMap Bool).insert n.id true }

def becomeCandidate (env : Env) (n : RaftNode) : RaftNode :=
  let n := { n with term := n.term + 1 }
  resetElectionTimeout env
    { n.reset n.term with
      state := .candidate
      votedFor := n.id
      votes := (∅ : NodeMap Bool).insert n.id true }

/-- Fresh progress for every peer.  A learner's match index is set to the zero
it already has. -/
def initialProgress (n : RaftNode) : NodeMap Progress :=
  n.peers.foldl
    (fun progress nodeId =>
      progress.insert nodeId (Progress.new (n.lastIndex + 1) (n.confState.isLearner nodeId))) ∅

def becomeLeader (n : RaftNode) : RaftNode :=
  { n with
    progress := n.initialProgress
    state := .leader
    leaderId := n.id
    quorumRecentlyActive := true
    log := n.log ++ [LogEntry.new (n.lastIndex + 1) n.term []]
    readStates := n.readStates ++ n.pendingReads
    pendingReads := [] }

/-! ## Campaigns -/

/-- Become a candidate and build one vote request per peer.  The request names
the campaign's term and the last index; the last log term is not in it. -/
def campaign (env : Env) (n : RaftNode) : Output :=
  let n := n.becomeCandidate env
  { node := n
    built := n.peers.map fun peer =>
      { msgType := .requestVote, from_ := n.id, to_ := peer, term := n.term,
        index := n.lastIndex } }

/-- The request of a pre-campaign names the last log term instead. -/
def preCampaign (env : Env) (n : RaftNode) : Output :=
  let n := n.becomePreCandidate env
  { node := n
    built := n.peers.map fun peer =>
      { msgType := .requestPreVote, from_ := n.id, to_ := peer, term := n.lastTerm,
        index := n.lastIndex } }

/-! ## Commit and quorum -/

/-- The largest index a quorum's match indices reach. -/
def quorumIndex (n : RaftNode) : Nat :=
  let matchIndices := n.progress.entries.map (fun p => p.2.matchIndex) ++ [n.lastIndex]
  (matchIndices.insertionSort (· ≥ ·)).getD (n.quorumSize - 1) 0

def advanceCommitIndex (n : RaftNode) : RaftNode :=
  if n.state ≠ .leader then n
  else if n.quorumIndex > n.commitIndex ∧ n.logTerm n.quorumIndex = n.term then
    let commitIndex := n.quorumIndex
    { n with
      commitIndex
      readStates := n.readStates ++ n.pendingReads.filter (·.index ≤ commitIndex)
      pendingReads := n.pendingReads.filter (¬ ·.index ≤ commitIndex) }
  else n

def checkQuorum (env : Env) (n : RaftNode) : RaftNode :=
  let activePeers := (n.progress.entries.filter (fun p => p.2.recentActive)).length
  let active : Bool := activePeers + 1 ≥ n.quorumSize
  let n := if !active && n.quorumRecentlyActive then n.becomeFollower env n.term 0 else n
  { n with quorumRecentlyActive := active }

/-! ## Time -/

def handleElectionTimeout (env : Env) (n : RaftNode) : Output :=
  if n.config.preVote && n.state = .follower then n.preCampaign env else n.campaign env

/-- One tick: the node, whether it asks for ready processing, and the requests
an election timeout built. -/
def tick (env : Env) (n : RaftNode) : Output × Bool :=
  match n.state with
  | .leader =>
    if env.now - n.lastHeartbeat ≥ n.config.heartbeatInterval then
      ({ node := { n with lastHeartbeat := env.now } }, true)
    else if n.config.checkQuorum then ({ node := n.checkQuorum env }, false)
    else ({ node := n }, false)
  | _ =>
    if env.now - n.lastElectionReset ≥ n.electionTimeout then
      (n.handleElectionTimeout env, true)
    else ({ node := n }, false)

/-! ## Message handlers -/

def handleHeartbeat (env : Env) (n : RaftNode) (msg : Message) : Output :=
  let n := n.resetElectionTimeout env
  if msg.term < n.term then { node := n }
  else
    let n := { n with leaderId := msg.from_, commitIndex := max n.commitIndex msg.commit }
    { node := n
      ready := some { messages := [Message.new .heartbeat n.id msg.from_ n.term] } }

/-- Does the log meet the sender's previous index?  The term found there is
compared with the term of the message itself. -/
def prevMatches (n : RaftNode) (msg : Message) : Bool :=
  msg.index = 0 || n.logTerm msg.index = msg.term

/-- The log after the entries of a message: cut behind `msg.index`, then the
entries from there on pushed. -/
def appendToLog (log : List LogEntry) (msg : Message) : List LogEntry :=
  if msg.entries.isEmpty then log
  else truncateLog log (msg.index + 1) ++
    msg.entries.filter (fun entry => ¬ entry.index < msg.index + 1)

/-- Index of the last entry a message brings. -/
def lastNewIndex (msg : Message) : Nat :=
  match msg.entries.getLast? with
  | none => msg.index
  | some entry => entry.index

def handleAppendEntries (env : Env) (n : RaftNode) (msg : Message) : Output :=
  let n := n.resetElectionTimeout env
  if msg.term < n.term then
    { node := n
      ready := some
        { messages := [(Message.new .appendResponse n.id msg.from_ n.term).withReject
            n.lastIndex] } }
  else
    let n := { n with leaderId := msg.from_ }
    if !n.prevMatches msg then
      { node := n
        ready := some
          { messages := [(Message.new .appendResponse n.id msg.from_ n.term).withReject
              (n.findConflictHint msg.index)] } }
    else
      let n := { n with
        log := appendToLog n.log msg
        commitIndex := if msg.commit > n.commitIndex then min msg.commit (lastNewIndex msg)
          else n.commitIndex }
      { node := n
        ready := some
          { messages :=
              [{ msgType := .appendResponse, from_ := n.id, to_ := msg.from_, term := n.term,
                 index := n.lastIndex }]
            entries := msg.entries } }

/-- The progress after a rejection: one back, no further than the hint, and
never below one. -/
def backOff (progress : Progress) (rejectHint : Nat) : Progress :=
  let progress := progress.becomeReject
  let nextIndex := if rejectHint > 0 then min progress.nextIndex rejectHint
    else progress.nextIndex
  { progress with nextIndex := max nextIndex 1 }

def handleAppendResponse (n : RaftNode) (msg : Message) : Output :=
  if n.state ≠ .leader ∨ msg.term ≠ n.term then { node := n }
  else
    match n.progress.lookup msg.from_ with
    | none => { node := n }
    | some progress =>
      if msg.reject then
        { node := { n with
            progress := n.progress.insert msg.from_ (backOff progress msg.rejectHint) } }
      else
        let n := { n with
          progress := n.progress.insert msg.from_ (progress.becomeAccept msg.index) }
        { node := n.advanceCommitIndex }

/-- `can_vote`: no other vote in this term, and not a candidacy of its own. -/
def canVote (n : RaftNode) (msg : Message) : Bool :=
  (n.votedFor = 0 || n.votedFor = msg.from_) && n.votedFor ≠ n.id

/-- `log_ok`: the term of the request, not of the candidate's last entry, is
compared with the voter's last log term. -/
def logOk (n : RaftNode) (msg : Message) : Bool :=
  msg.term > n.lastTerm || (msg.term = n.lastTerm && msg.index ≥ n.lastIndex)

def handleRequestVote (env : Env) (n : RaftNode) (msg : Message) : Output :=
  if msg.term < n.term then
    { node := n
      ready := some
        { messages := [(Message.new .voteResponse n.id msg.from_ n.term).withReject 0] } }
  else
    let granted := n.canVote msg && n.logOk msg
    let n := if granted then
      resetElectionTimeout env { n with votedFor := msg.from_ } else n
    { node := n
      ready := some
        { hardState := some n.hardState
          messages :=
            [{ msgType := .voteResponse, from_ := n.id, to_ := msg.from_, term := n.term,
               reject := !granted }] } }

/-- The messages of a fresh leader: to each peer, its last entry. -/
def buildAppendAcks (n : RaftNode) : Ready :=
  { messages := n.peers.map fun peer =>
      { msgType := .appendEntries, from_ := n.id, to_ := peer, term := n.term,
        index := n.lastIndex - 1, commit := n.commitIndex,
        entries := if n.log.length > 1 then n.log.getLast?.toList else [] }
    hardState := some n.hardState }

def grantedVotes (n : RaftNode) : Nat := (n.votes.entries.filter (fun v => v.2)).length

def rejectedVotes (n : RaftNode) : Nat := (n.votes.entries.filter (fun v => !v.2)).length

/-- Note the sender's answer among the votes. -/
def countVote (n : RaftNode) (msg : Message) : RaftNode :=
  { n with votes := n.votes.insert msg.from_ (!msg.reject) }

def handleVoteResponse (env : Env) (n : RaftNode) (msg : Message) : Output :=
  if n.state ≠ .candidate ∨ msg.term ≠ n.term then { node := n }
  else
    let n := n.countVote msg
    let totalVoters := n.confState.voters.length
    if isQuorum totalVoters n.grantedVotes then
      let n := n.becomeLeader
      { node := n, ready := some n.buildAppendAcks }
    else if isQuorum totalVoters n.rejectedVotes then
      { node := n.becomeFollower env n.term 0 }
    else { node := n }

def handleRequestPreVote (env : Env) (n : RaftNode) (msg : Message) : Output :=
  let leaderRecentlyActive : Bool := n.state = .leader ||
    (n.leaderId ≠ 0 && env.now - n.lastElectionReset < n.config.electionTimeoutMax * 2)
  let granted := n.logOk msg && !leaderRecentlyActive
  { node := n
    ready := some
      { messages :=
          [{ msgType := .preVoteResponse, from_ := n.id, to_ := msg.from_, term := n.term,
             reject := !granted }] } }

def handlePreVoteResponse (env : Env) (n : RaftNode) (msg : Message) : Output :=
  if n.state ≠ .preCandidate ∨ msg.term ≠ n.term then { node := n }
  else
    let n := n.countVote msg
    if isQuorum n.confState.voters.length n.grantedVotes then n.campaign env else { node := n }

def handleInstallSnapshot (env : Env) (n : RaftNode) (msg : Message) : Output :=
  if msg.term < n.term then { node := n }
  else
    let n := { n.resetElectionTimeout env with leaderId := msg.from_ }
    match msg.snapshot with
    | none => { node := n }
    | some snapshot =>
      let n := { n with
        log := []
        commitIndex := snapshot.metadata.index
        lastApplied := snapshot.metadata.index
        pendingSnapshot := none }
      { node := n
        ready := some
          { snapshot := some snapshot
            messages :=
              [{ msgType := .snapshotResponse, from_ := n.id, to_ := msg.from_,
                 term := n.term }] } }

def handleSnapshotResponse (n : RaftNode) (msg : Message) : Output :=
  if n.state ≠ .leader then { node := n }
  else
    match n.progress.lookup msg.from_ with
    | none => { node := n }
    | some progress =>
      if !msg.reject then
        { node := { n with
            progress := n.progress.insert msg.from_
              { progress with
                matchIndex := msg.index, nextIndex := msg.index + 1, paused := false } } }
      else { node := n }

/-- The preamble of `step`: a higher term makes the node a follower of it. -/
def observeTerm (env : Env) (n : RaftNode) (msg : Message) : RaftNode :=
  if msg.term > n.term then
    n.becomeFollower env msg.term (if msg.msgType = .appendEntries then msg.from_ else 0)
  else n

/-- The dispatch of `step` on the message type. -/
def handle (env : Env) (n : RaftNode) (msg : Message) : Output :=
  match msg.msgType with
  | .heartbeat => n.handleHeartbeat env msg
  | .appendEntries => n.handleAppendEntries env msg
  | .appendResponse => n.handleAppendResponse msg
  | .requestVote => n.handleRequestVote env msg
  | .voteResponse => n.handleVoteResponse env msg
  | .requestPreVote => n.handleRequestPreVote env msg
  | .preVoteResponse => n.handlePreVoteResponse env msg
  | .installSnapshot => n.handleInstallSnapshot env msg
  | .snapshotResponse => n.handleSnapshotResponse msg
  | .timeoutNow => { node := n }

def step (env : Env) (n : RaftNode) (msg : Message) : Output :=
  (n.observeTerm env msg).handle env msg

/-! ## Proposals and reads -/

/-- Append a proposal; its index, or nothing when the node is not the leader. -/
def propose (n : RaftNode) (data : List UInt8) : RaftNode × Option Nat :=
  if !n.isLeader then (n, none)
  else
    let index := n.lastIndex + 1
    ({ n with log := n.log ++ [LogEntry.new index n.term data] }, some index)

def readIndex (n : RaftNode) (ctx : List UInt8) : RaftNode × Bool :=
  if !n.isLeader then (n, false)
  else
    ({ n with
      pendingReads := n.pendingReads ++ [{ index := n.commitIndex, requestCtx := ctx }] }, true)

/-- `read_states`: hand over the released reads. -/
def takeReadStates (n : RaftNode) : RaftNode × List ReadState :=
  ({ n with readStates := [] }, n.readStates)

/-! ## Ready generation -/

/-- The message `ready` builds for one peer. -/
def replicate (n : RaftNode) (peer : NodeId) (progress : Progress) : Message :=
  if progress.nextIndex > n.lastIndex then
    { msgType := .heartbeat, from_ := n.id, to_ := peer, term := n.term, commit := n.commitIndex }
  else
    { msgType := .appendEntries, from_ := n.id, to_ := peer, term := n.term,
      index := progress.nextIndex - 1,
      entries := n.getEntries progress.nextIndex (some n.config.maxMsgSize),
      commit := n.commitIndex }

/-- The entries `ready` hands over for application: all of the log behind the
last applied entry. -/
def committedEntries (n : RaftNode) : List LogEntry :=
  if n.commitIndex > n.lastApplied then n.getEntries (n.lastApplied + 1) none else []

def markApplied (n : RaftNode) : RaftNode :=
  { n with
    lastApplied := if n.commitIndex > n.lastApplied then n.commitIndex else n.lastApplied }

def leaderReady (n : RaftNode) : Ready :=
  { messages := (n.progress.entries.filter (fun p => !p.2.paused)).map
      fun p => n.replicate p.1 p.2
    committedEntries := n.committedEntries
    hardState := some n.hardState }

/-- `ready` of the source. -/
def takeReady (n : RaftNode) : RaftNode × Option Ready :=
  if n.state ≠ .leader then (n, none)
  else (n.markApplied, if n.leaderReady.isEmpty then none else some n.leaderReady)

end RaftNode
end Raft
end RTDB
