import RTDB.Raft.Application
import RTDB.Lib.Runs

/-!
# The runtime

`cluster/raft/runtime.rs`: the loop that feeds ticks, commands and messages to a node
and carries out what the node asks for.  What is sent, persisted and answered leaves the
runtime as `Effects`; persisting does nothing in the source.  The state machine is
whatever implements `Apply`; `X` stands for what its calls meet outside the program.
-/

namespace RTDB
namespace Raft

structure Apply (X A E : Type) where
  apply : X → A → List LogEntry → A × Except E Unit
  applySnapshot : X → A → Snapshot → A × Except E Unit
  snapshot : X → A → Except E (Nat × List UInt8)

structure SnapshotConfig where
  interval : Nat := 10000
  minInterval : Nat := 60000
  deriving DecidableEq, Repr

structure ProposeResult where
  index : Nat
  term : Nat
  deriving DecidableEq, Repr

structure ReadIndexResult where
  index : Nat
  term : Nat
  deriving DecidableEq, Repr

structure RaftStatus where
  id : NodeId
  state : RaftState
  term : Nat
  leaderId : NodeId
  commitIndex : Nat
  appliedIndex : Nat
  lastIndex : Nat
  deriving DecidableEq, Repr

inductive RaftCommand where
  | propose (data : List UInt8)
  | readIndex (ctx : List UInt8)
  | status
  | stepDown
  | snapshot
  | shutdown
  deriving DecidableEq, Repr

/-- The responder of a command is named by the data, or the context, of its command. -/
abbrev Responder := List UInt8

structure RaftRuntime (A : Type) where
  raft : RaftNode
  apply : A
  snapshotConfig : SnapshotConfig
  lastSnapshot : Nat
  pendingProposals : List (Nat × Responder)
  pendingReads : List (Nat × Responder)
  shutdown : Bool

/-- What leaves the runtime; `handed` is the batch given to the state machine. -/
structure Effects where
  messages : List Message := []
  handed : List LogEntry := []
  proposed : List (Responder × ProposeResult) := []
  read : List (Responder × ReadIndexResult) := []
  status : Option RaftStatus := none
  deriving DecidableEq, Repr

structure Round (A E : Type) where
  runtime : RaftRuntime A
  effects : Effects
  result : Except E Unit

/-- One round of the loop. -/
inductive RuntimeEvent (X : Type) where
  | tick (x : X) (env : Env)
  | command (x : X) (env : Env) (cmd : RaftCommand)
  | message (x : X) (env : Env) (msg : Message)

/-- What the calls of a round meet outside the program. -/
def RuntimeEvent.world {X : Type} : RuntimeEvent X → X
  | .tick x _ => x
  | .command x _ _ => x
  | .message x _ _ => x

namespace RaftRuntime

variable {X A E : Type}

def new (raft : RaftNode) (apply : A) (now : Nat) : RaftRuntime A :=
  { raft, apply, snapshotConfig := {}, lastSnapshot := now, pendingProposals := [],
    pendingReads := [], shutdown := false }

/-! ## Answers -/

/-- Answer the proposals with an index among the entries, and keep the others. -/
def notifyProposals (r : RaftRuntime A) (entries : List LogEntry) :
    RaftRuntime A × List (Responder × ProposeResult) :=
  let committedIndices := entries.map LogEntry.index
  ({ r with pendingProposals := r.pendingProposals.filter fun p => !committedIndices.contains p.1 },
    (r.pendingProposals.filter fun p => committedIndices.contains p.1).map
      fun p => (p.2, { index := p.1, term := r.raft.term }))

/-- The loop of `notify_reads`: each released read goes to the first pending one that the
commit index has reached. -/
def notifyReads (r : RaftRuntime A) :
    List ReadState → RaftRuntime A × List (Responder × ReadIndexResult)
  | [] => (r, [])
  | read :: reads =>
    match r.pendingReads.findIdx? fun p => p.1 ≤ r.raft.commitIndex with
    | none => notifyReads r reads
    | some i =>
      let (r', answers) := notifyReads { r with pendingReads := r.pendingReads.eraseIdx i } reads
      (r', (r.pendingReads[i]?.toList.map fun p =>
        (p.2, { index := read.index, term := r.raft.term })) ++ answers)

/-! ## Snapshots -/

def triggerSnapshot (ap : Apply X A E) (x : X) (now : Nat) (r : RaftRuntime A) :
    RaftRuntime A × Except E Unit :=
  match ap.snapshot x r.apply with
  | .error e => (r, .error e)
  | .ok _ => ({ r with lastSnapshot := now }, .ok ())

def maybeSnapshot (ap : Apply X A E) (x : X) (now : Nat) (r : RaftRuntime A) :
    RaftRuntime A × Except E Unit :=
  if now - r.lastSnapshot < r.snapshotConfig.minInterval then (r, .ok ())
  else if r.raft.lastApplied ≥ r.snapshotConfig.interval then r.triggerSnapshot ap x now
  else (r, .ok ())

/-! ## Ready -/

/-- The end of `handle_ready`: the released reads. -/
def answerReads (r : RaftRuntime A) (out : Effects) : Round A E :=
  let reads := r.raft.readStates
  let (r, read) := notifyReads { r with raft := r.raft.takeReadStates.1 } reads
  { runtime := r, effects := { out with read }, result := .ok () }

/-- The part of `handle_ready` behind the committed entries. -/
def installSnapshot (ap : Apply X A E) (x : X) (r : RaftRuntime A) (snapshot : Option Snapshot)
    (out : Effects) : Round A E :=
  match snapshot with
  | none => r.answerReads out
  | some snapshot =>
    match ap.applySnapshot x r.apply snapshot with
    | (a, .error e) => { runtime := { r with apply := a }, effects := out, result := .error e }
    | (a, .ok ()) => answerReads { r with apply := a } out

def handleReady (ap : Apply X A E) (x : X) (now : Nat) (r : RaftRuntime A) (ready : Ready) :
    Round A E :=
  let out : Effects := { messages := ready.messages, handed := ready.committedEntries }
  if ready.committedEntries.isEmpty then r.installSnapshot ap x ready.snapshot out
  else
    match ap.apply x r.apply ready.committedEntries with
    | (a, .error e) => { runtime := { r with apply := a }, effects := out, result := .error e }
    | (a, .ok ()) =>
      let (r, proposed) := notifyProposals { r with apply := a } ready.committedEntries
      match r.maybeSnapshot ap x now with
      | (r, .error e) => { runtime := r, effects := { out with proposed }, result := .error e }
      | (r, .ok ()) => r.installSnapshot ap x ready.snapshot { out with proposed }

def sendHeartbeats (r : RaftRuntime A) : List Message :=
  if !r.raft.isLeader then []
  else
    r.raft.peers.map fun peer =>
      { msgType := .heartbeat, from_ := r.raft.id, to_ := peer, term := r.raft.term,
        commit := r.raft.commitIndex }

def processReady (ap : Apply X A E) (x : X) (now : Nat) (r : RaftRuntime A) : Round A E :=
  match r.raft.takeReady with
  | (n, some ready) => handleReady ap x now { r with raft := n } ready
  | (n, none) =>
    let r := { r with raft := n }
    { runtime := r, effects := { messages := r.sendHeartbeats }, result := .ok () }

/-! ## The loop -/

def onTick (ap : Apply X A E) (x : X) (env : Env) (r : RaftRuntime A) : Round A E :=
  let r' := { r with raft := (r.raft.tick env).1.node }
  if (r.raft.tick env).2 then r'.processReady ap x env.now
  else { runtime := r', effects := {}, result := .ok () }

def onCommand (ap : Apply X A E) (x : X) (env : Env) (r : RaftRuntime A) :
    RaftCommand → Round A E
  | .propose data =>
    match r.raft.propose data with
    | (n, some index) =>
      processReady ap x env.now
        { r with raft := n, pendingProposals := r.pendingProposals ++ [(index, data)] }
    | (n, none) =>
      { runtime := { r with raft := n }, result := .ok ()
        effects := { proposed := [(data, { index := 0, term := 0 })] } }
  | .readIndex ctx =>
    match r.raft.readIndex ctx with
    | (n, true) =>
      processReady ap x env.now
        { r with raft := n, pendingReads := r.pendingReads ++ [(n.commitIndex, ctx)] }
    | (n, false) =>
      { runtime := { r with raft := n }, result := .ok ()
        effects := { read := [(ctx, { index := 0, term := 0 })] } }
  | .status =>
    { runtime := r, result := .ok ()
      effects :=
        { status := some
            { id := r.raft.id, state := r.raft.state, term := r.raft.term
              leaderId := r.raft.leaderId, commitIndex := r.raft.commitIndex
              appliedIndex := r.raft.lastApplied, lastIndex := r.raft.lastIndex } } }
  | .stepDown => { runtime := r, effects := {}, result := .ok () }
  | .snapshot =>
    { runtime := (r.triggerSnapshot ap x env.now).1, effects := {}
      result := (r.triggerSnapshot ap x env.now).2 }
  | .shutdown => { runtime := { r with shutdown := true }, effects := {}, result := .ok () }

/-- The requests a campaign builds are dropped. -/
def onMessage (ap : Apply X A E) (x : X) (env : Env) (r : RaftRuntime A) (msg : Message) :
    Round A E :=
  let o := r.raft.step env msg
  match o.ready with
  | some ready => handleReady ap x env.now { r with raft := o.node } ready
  | none => { runtime := { r with raft := o.node }, effects := {}, result := .ok () }

/-- One round of the loop, which a shutdown ends.  An error is logged and forgotten. -/
def step (ap : Apply X A E) (r : RaftRuntime A) (e : RuntimeEvent X) : Round A E :=
  if r.shutdown then { runtime := r, effects := {}, result := .ok () }
  else
    match e with
    | .tick x env => r.onTick ap x env
    | .command x env cmd => r.onCommand ap x env cmd
    | .message x env msg => r.onMessage ap x env msg

end RaftRuntime

/-! ## What a message does to the log -/

namespace RaftNode

variable {n : RaftNode} {msg : Message} (env : Env)

theorem handle_keeps (happend : msg.msgType ≠ .appendEntries) (hvote : msg.msgType ≠ .voteResponse)
    (hinstall : msg.msgType ≠ .installSnapshot) : (n.handle env msg).node.log = n.log ∧
      (n.handle env msg).node.lastApplied = n.lastApplied := by
  rw [handle.eq_def]
  cases htype : msg.msgType with
  | heartbeat =>
    simp only
    unfold handleHeartbeat
    simp only
    split <;> exact ⟨rfl, rfl⟩
  | appendEntries => exact absurd htype happend
  | appendResponse => exact handleAppendResponse_keeps n msg
  | requestVote =>
    simp only
    unfold handleRequestVote
    split
    · exact ⟨rfl, rfl⟩
    · simp only
      split <;> exact ⟨rfl, rfl⟩
  | voteResponse => exact absurd htype hvote
  | requestPreVote => exact ⟨rfl, rfl⟩
  | preVoteResponse =>
    simp only
    unfold handlePreVoteResponse
    split
    · exact ⟨rfl, rfl⟩
    · simp only
      split <;> exact ⟨rfl, rfl⟩
  | installSnapshot => exact absurd htype hinstall
  | snapshotResponse =>
    simp only
    unfold handleSnapshotResponse
    split
    · exact ⟨rfl, rfl⟩
    · split
      · exact ⟨rfl, rfl⟩
      · split <;> exact ⟨rfl, rfl⟩
  | timeoutNow => exact ⟨rfl, rfl⟩

theorem tick_keeps (n : RaftNode) : (n.tick env).1.node.log = n.log ∧
    (n.tick env).1.node.lastApplied = n.lastApplied := by
  unfold tick
  split
  · split
    · exact ⟨rfl, rfl⟩
    · split
      · unfold checkQuorum
        simp only
        split <;> exact ⟨rfl, rfl⟩
      · exact ⟨rfl, rfl⟩
  · split
    · unfold handleElectionTimeout
      split <;> exact ⟨rfl, rfl⟩
    · exact ⟨rfl, rfl⟩

theorem handleVoteResponse_log : (n.handleVoteResponse env msg).node.lastApplied = n.lastApplied ∧
    ((n.handleVoteResponse env msg).node.log = n.log ∨
      (n.handleVoteResponse env msg).node.log =
        n.log ++ [LogEntry.new (n.lastIndex + 1) n.term []]) := by
  unfold handleVoteResponse
  split
  · exact ⟨rfl, Or.inl rfl⟩
  · simp only
    split
    · exact ⟨rfl, Or.inr rfl⟩
    · split <;> exact ⟨rfl, Or.inl rfl⟩

theorem handleAppendEntries_lastApplied :
    (n.handleAppendEntries env msg).node.lastApplied = n.lastApplied := by
  unfold handleAppendEntries
  simp only
  split
  · rfl
  · split <;> rfl

theorem propose_leader (hlead : n.isLeader = true) (data : List UInt8) : n.propose data =
    ({ n with log := n.log ++ [LogEntry.new (n.lastIndex + 1) n.term data] },
      some (n.lastIndex + 1)) :=
  if_neg (by rw [hlead]; decide)

theorem propose_other (hlead : n.isLeader = false) (data : List UInt8) :
    n.propose data = (n, none) :=
  if_pos (by rw [hlead]; decide)

theorem readIndex_leader (hlead : n.isLeader = true) (ctx : List UInt8) : n.readIndex ctx =
    ({ n with
      pendingReads := n.pendingReads ++ [{ index := n.commitIndex, requestCtx := ctx }] }, true) :=
  if_neg (by rw [hlead]; decide)

theorem readIndex_other (hlead : n.isLeader = false) (ctx : List UInt8) :
    n.readIndex ctx = (n, false) :=
  if_pos (by rw [hlead]; decide)

theorem observeTerm_lastApplied : (n.observeTerm env msg).lastApplied = n.lastApplied := by
  unfold observeTerm
  split <;> rfl

/-- A message brings a snapshot that node `n` installs. -/
def Installs (n : RaftNode) (msg : Message) : Prop :=
  msg.msgType = .installSnapshot ∧ n.term ≤ msg.term ∧ msg.snapshot.isSome

instance (n : RaftNode) (msg : Message) : Decidable (n.Installs msg) :=
  inferInstanceAs (Decidable (_ ∧ _ ∧ _))

theorem step_not_installs (htype : msg.msgType = .installSnapshot) (hnot : ¬n.Installs msg) :
    (n.step env msg).node.log = n.log ∧ (n.step env msg).node.lastApplied = n.lastApplied := by
  have hlog := observeTerm_log env n msg
  have happlied := @observeTerm_lastApplied n msg env
  have hstep : n.step env msg = (n.observeTerm env msg).handleInstallSnapshot env msg := by
    rw [step, handle.eq_def, htype]
  rw [hstep, handleInstallSnapshot]
  split
  · exact ⟨hlog, happlied⟩
  · rename_i hfresh
    cases hsnapshot : msg.snapshot with
    | none => exact ⟨hlog, happlied⟩
    | some snapshot =>
      refine absurd ⟨htype, ?_, by rw [hsnapshot]; rfl⟩ hnot
      exact Nat.le_of_not_lt fun hlt => hfresh ((observeTerm_stale env).mpr hlt)

/-- A message adds at most the no-op of a new leader, unless it is an append the node
accepts or a snapshot it installs. -/
theorem step_log (hinstall : ¬n.Installs msg) :
    (n.step env msg).node.lastApplied = n.lastApplied ∧
      ((n.step env msg).node.log = n.log ∨
        (∃ term, (n.step env msg).node.log = n.log ++ [LogEntry.new (n.lastIndex + 1) term []]) ∨
        msg.msgType = .appendEntries ∧ n.Accepts msg ∧
          (n.step env msg).node.log = appendToLog n.log msg) := by
  have hlog := observeTerm_log env n msg
  have happlied := @observeTerm_lastApplied n msg env
  by_cases happend : msg.msgType = .appendEntries
  · have hkept : (n.step env msg).node.lastApplied = n.lastApplied := by
      rw [step, handle.eq_def, happend]
      exact (handleAppendEntries_lastApplied env).trans happlied
    by_cases haccepts : n.Accepts msg
    · exact ⟨hkept, Or.inr (Or.inr ⟨happend, haccepts, (step_append env happend haccepts).1⟩)⟩
    · exact ⟨hkept, Or.inl (step_append_refused env happend haccepts).1⟩
  · by_cases hvote : msg.msgType = .voteResponse
    · have hstep : n.step env msg = (n.observeTerm env msg).handleVoteResponse env msg := by
        rw [step, handle.eq_def, hvote]
      have hvoted := @handleVoteResponse_log (n.observeTerm env msg) msg env
      rw [lastIndex, hlog, happlied] at hvoted
      rw [hstep]
      exact ⟨hvoted.1, hvoted.2.imp_right fun hnew => Or.inl ⟨_, hnew⟩⟩
    · by_cases htype : msg.msgType = .installSnapshot
      · have hkept := step_not_installs env htype hinstall
        exact ⟨hkept.2, Or.inl hkept.1⟩
      · have hkept := handle_keeps (n := n.observeTerm env msg) env happend hvote htype
        rw [hlog, happlied] at hkept
        exact ⟨hkept.2, Or.inl hkept.1⟩

end RaftNode
/-- No handler hands entries over. -/
theorem RaftNode.handle_committed {n : RaftNode} {msg : Message} (env : Env) :
    ∀ ready ∈ (n.handle env msg).ready, ready.committedEntries = [] := by
  rw [handle.eq_def]
  cases msg.msgType with
  | heartbeat =>
    simp only
    unfold handleHeartbeat
    simp only
    split <;> simp
  | appendEntries =>
    simp only
    unfold handleAppendEntries
    simp only
    split
    · simp
    · split <;> simp
  | appendResponse =>
    simp only
    unfold handleAppendResponse
    split
    · simp
    · split
      · simp
      · split <;> simp
  | requestVote =>
    simp only
    unfold handleRequestVote
    split <;> simp
  | voteResponse =>
    simp only
    unfold handleVoteResponse
    split
    · simp
    · simp only
      split
      · simp [buildAppendAcks]
      · split <;> simp
  | requestPreVote => simp [handleRequestPreVote]
  | preVoteResponse =>
    simp only
    unfold handlePreVoteResponse
    split
    · simp
    · simp only
      split <;> simp [campaign]
  | installSnapshot =>
    simp only
    unfold handleInstallSnapshot
    split
    · simp
    · simp only
      split <;> simp
  | snapshotResponse =>
    simp only
    unfold handleSnapshotResponse
    split
    · simp
    · split
      · simp
      · split <;> simp
  | timeoutNow => simp

/-! ## What the runtime does with a ready -/

namespace RaftRuntime

variable {X A E : Type} {ap : Apply X A E}

/-- Only the reads that are handed over, the state machine and the pending commands
change, and proposals are answered only behind a batch that was applied. -/
structure Handled (ap : Apply X A E) (x : X) (r : RaftRuntime A) (entries : List LogEntry)
    (o : Round A E) : Prop where
  raft : o.runtime.raft = { r.raft with readStates := o.runtime.raft.readStates }
  handed : o.effects.handed = entries
  pending : ∀ p ∈ o.runtime.pendingProposals, p ∈ r.pendingProposals
  proposed : ∀ p ∈ o.effects.proposed, 0 < p.2.index →
    (p.2.index, p.1) ∈ r.pendingProposals ∧ entries ≠ [] ∧ (ap.apply x r.apply entries).2 = .ok ()

theorem notifyReads_keeps (reads : List ReadState) : ∀ r : RaftRuntime A,
    (r.notifyReads reads).1.raft = r.raft ∧
      (r.notifyReads reads).1.pendingProposals = r.pendingProposals := by
  induction reads with
  | nil =>
    intro r
    exact ⟨rfl, rfl⟩
  | cons read reads ih =>
    intro r
    rw [notifyReads]
    split
    · exact ih r
    · rename_i i _
      exact ih { r with pendingReads := r.pendingReads.eraseIdx i }

/-- The part behind the committed entries answers no proposal. -/
structure Closes (r : RaftRuntime A) (out : Effects) (o : Round A E) : Prop where
  raft : o.runtime.raft = { r.raft with readStates := o.runtime.raft.readStates }
  pending : o.runtime.pendingProposals = r.pendingProposals
  handed : o.effects.handed = out.handed
  proposed : o.effects.proposed = out.proposed

theorem answerReads_closes (r r' : RaftRuntime A) (hraft : r'.raft = r.raft)
    (hpending : r'.pendingProposals = r.pendingProposals) (out : Effects) :
    Closes r out (r'.answerReads out : Round A E) := by
  obtain ⟨hkraft, hkpending⟩ := notifyReads_keeps r'.raft.readStates
    { r' with raft := r'.raft.takeReadStates.1 }
  have hnode : (r'.answerReads out : Round A E).runtime.raft = { r.raft with readStates := [] } := by
    rw [← hraft]
    exact hkraft
  exact ⟨by rw [hnode], hkpending.trans hpending, rfl, rfl⟩

theorem installSnapshot_closes (x : X) (r : RaftRuntime A) (snapshot : Option Snapshot)
    (out : Effects) : Closes r out (r.installSnapshot ap x snapshot out) := by
  cases snapshot with
  | none => exact answerReads_closes r r rfl rfl out
  | some snapshot =>
    rw [installSnapshot]
    cases ap.applySnapshot x r.apply snapshot with
    | mk a result =>
      cases result with
      | error e => exact ⟨rfl, rfl, rfl, rfl⟩
      | ok value => exact answerReads_closes r { r with apply := a } rfl rfl out

theorem maybeSnapshot_keeps (x : X) (now : Nat) (r : RaftRuntime A) :
    (r.maybeSnapshot ap x now).1.raft = r.raft ∧
      (r.maybeSnapshot ap x now).1.pendingProposals = r.pendingProposals := by
  unfold maybeSnapshot triggerSnapshot
  split
  · exact ⟨rfl, rfl⟩
  · split
    · split <;> exact ⟨rfl, rfl⟩
    · exact ⟨rfl, rfl⟩

theorem handleReady_handled (x : X) (now : Nat) (r : RaftRuntime A) (ready : Ready) :
    Handled ap x r ready.committedEntries (r.handleReady ap x now ready) := by
  rw [handleReady]
  simp only
  split
  · have hcloses := @installSnapshot_closes _ _ _ ap x r ready.snapshot
      { messages := ready.messages, handed := ready.committedEntries }
    refine ⟨hcloses.raft, hcloses.handed, fun p hp => ?_, fun p hp => ?_⟩
    · exact hcloses.pending ▸ hp
    · rw [hcloses.proposed] at hp
      exact absurd hp List.not_mem_nil
  · rename_i hsome
    have hne : ready.committedEntries ≠ [] := by simpa using hsome
    cases happly : ap.apply x r.apply ready.committedEntries with
    | mk a result =>
      cases result with
      | error e => exact ⟨rfl, rfl, fun p hp => hp, fun p hp => absurd hp List.not_mem_nil⟩
      | ok value =>
        have hok : (ap.apply x r.apply ready.committedEntries).2 = .ok () := by rw [happly]
        let notified := notifyProposals { r with apply := a } ready.committedEntries
        have hkept : ∀ p ∈ notified.1.pendingProposals, p ∈ r.pendingProposals :=
          fun p hp => (List.mem_filter.mp hp).1
        have hanswered : ∀ p ∈ notified.2, 0 < p.2.index → (p.2.index, p.1) ∈ r.pendingProposals ∧
            ready.committedEntries ≠ [] ∧ (ap.apply x r.apply ready.committedEntries).2 = .ok () := by
          intro p hp _
          obtain ⟨q, hq, rfl⟩ := List.mem_map.mp hp
          exact ⟨(List.mem_filter.mp hq).1, hne, hok⟩
        obtain ⟨hraft, hpending⟩ := @maybeSnapshot_keeps _ _ _ ap x now notified.1
        simp only
        cases hsnapshot : notified.1.maybeSnapshot ap x now with
        | mk r' result =>
          rw [hsnapshot] at hraft hpending
          cases result with
          | error e =>
            exact ⟨by rw [hraft]; rfl, rfl, fun p hp => hkept p (hpending ▸ hp), hanswered⟩
          | ok value =>
            have hcloses := @installSnapshot_closes _ _ _ ap x r' ready.snapshot
              { messages := ready.messages, handed := ready.committedEntries, proposed := notified.2 }
            refine ⟨?_, hcloses.handed, fun p hp => ?_, fun p hp => ?_⟩
            · rw [hcloses.raft, hraft]
              rfl
            · rw [hcloses.pending, hpending] at hp
              exact hkept p hp
            · rw [hcloses.proposed] at hp
              exact hanswered p hp

/-! ## One round -/

/-- The runtime after the call of the node that a round starts with. -/
def called (r : RaftRuntime A) : RuntimeEvent X → RaftRuntime A
  | .tick _ env => { r with raft := (r.raft.tick env).1.node }
  | .command _ _ (.propose data) =>
    { r with
      raft := (r.raft.propose data).1
      pendingProposals := r.pendingProposals ++
        (r.raft.propose data).2.toList.map fun index => (index, data) }
  | .command _ _ (.readIndex ctx) =>
    { r with
      raft := (r.raft.readIndex ctx).1
      pendingReads := r.pendingReads ++
        if (r.raft.readIndex ctx).2 then [((r.raft.readIndex ctx).1.commitIndex, ctx)] else [] }
  | .command _ _ _ => r
  | .message _ env msg => { r with raft := (r.raft.step env msg).node }

def readies (r : RaftRuntime A) (e : RuntimeEvent X) : Bool :=
  (match e with
    | .tick _ env => (r.raft.tick env).2
    | .command _ _ (.propose _) => true
    | .command _ _ (.readIndex _) => true
    | .command _ _ _ => false
    | .message _ _ _ => false) && (r.called e).raft.isLeader

def batch (r : RaftRuntime A) (e : RuntimeEvent X) : List LogEntry :=
  if r.readies e then (r.called e).raft.committedEntries else []

def advanced (r : RaftRuntime A) (e : RuntimeEvent X) : RaftRuntime A :=
  if r.readies e then { r.called e with raft := (r.called e).raft.markApplied } else r.called e

theorem processReady_leader {r : RaftRuntime A} (hlead : r.raft.isLeader = true) (x : X) (now : Nat) :
    Handled ap x { r with raft := r.raft.markApplied } r.raft.committedEntries
      (r.processReady ap x now) := by
  have hstate : r.raft.state = .leader := of_decide_eq_true hlead
  rw [processReady, takeReady_leader hstate]
  exact handleReady_handled x now { r with raft := r.raft.markApplied } r.raft.leaderReady

theorem processReady_follower {r : RaftRuntime A} (hlead : r.raft.isLeader = false) (x : X)
    (now : Nat) : Handled ap x r [] (r.processReady ap x now) := by
  have hstate : r.raft.state ≠ .leader := of_decide_eq_false hlead
  rw [processReady, RaftNode.takeReady, if_pos hstate]
  exact ⟨rfl, rfl, fun p hp => hp, fun p hp => absurd hp List.not_mem_nil⟩

theorem onMessage_handled (x : X) (env : Env) (r : RaftRuntime A) (msg : Message) :
    Handled ap x { r with raft := (r.raft.step env msg).node } [] (r.onMessage ap x env msg) := by
  rw [onMessage]
  cases hready : (r.raft.step env msg).ready with
  | none => exact ⟨rfl, rfl, fun p hp => hp, fun p hp => absurd hp List.not_mem_nil⟩
  | some ready =>
    have hnone := RaftNode.handle_committed (n := r.raft.observeTerm env msg) env ready hready
    have hhandled := @handleReady_handled _ _ _ ap x env.now
      { r with raft := (r.raft.step env msg).node } ready
    rw [hnone] at hhandled
    exact hhandled

theorem processReady_handled (x : X) (now : Nat) (r : RaftRuntime A) :
    Handled ap x (if r.raft.isLeader then { r with raft := r.raft.markApplied } else r)
      (if r.raft.isLeader then r.raft.committedEntries else []) (r.processReady ap x now) := by
  cases hlead : r.raft.isLeader with
  | true => exact processReady_leader hlead x now
  | false => exact processReady_follower hlead x now

theorem triggerSnapshot_keeps (x : X) (now : Nat) (r : RaftRuntime A) :
    (r.triggerSnapshot ap x now).1.raft = r.raft ∧
      (r.triggerSnapshot ap x now).1.pendingProposals = r.pendingProposals := by
  unfold triggerSnapshot
  split <;> exact ⟨rfl, rfl⟩

/-- A round that takes a ready, whoever leads. -/
theorem handled_ready {r : RaftRuntime A} {e : RuntimeEvent X} {o : Round A E} {now : Nat}
    (hreadies : r.readies e = (r.called e).raft.isLeader)
    (ho : o = (r.called e).processReady ap e.world now) :
    Handled ap e.world (r.advanced e) (r.batch e) o := by
  rw [advanced, batch, hreadies, ho]
  exact processReady_handled e.world now (r.called e)

/-- A round that takes none. -/
theorem handled_quiet {r : RaftRuntime A} {e : RuntimeEvent X} {o : Round A E}
    (hreadies : r.readies e = false) (hraft : o.runtime.raft = (r.called e).raft)
    (hpending : o.runtime.pendingProposals = (r.called e).pendingProposals)
    (hhanded : o.effects.handed = []) (hproposed : ∀ p ∈ o.effects.proposed, p.2.index = 0) :
    Handled ap e.world (r.advanced e) (r.batch e) o := by
  rw [advanced, batch, hreadies]
  refine ⟨by rw [hraft]; rfl, hhanded, fun p hp => ?_, fun p hp hpos => ?_⟩
  · rw [hpending] at hp
    exact hp
  · exact absurd (hproposed p hp) (Nat.ne_of_gt hpos)

theorem onTick_handled (x : X) (env : Env) (r : RaftRuntime A) :
    Handled ap x (r.advanced (.tick x env)) (r.batch (.tick x env)) (r.onTick ap x env) := by
  unfold onTick
  simp only
  split
  · rename_i hneeds
    exact handled_ready (e := .tick x env) (by rw [readies, hneeds, Bool.true_and]) rfl
  · rename_i hneeds
    exact handled_quiet (e := .tick x env) (by rw [readies, Bool.eq_false_of_not_eq_true hneeds]; rfl)
      rfl rfl rfl fun p hp => absurd hp List.not_mem_nil

theorem onPropose_handled (x : X) (env : Env) (r : RaftRuntime A) (data : List UInt8) :
    Handled ap x (r.advanced (.command x env (.propose data)))
      (r.batch (.command x env (.propose data))) (r.onCommand ap x env (.propose data)) := by
  rw [onCommand]
  cases hlead : r.raft.isLeader with
  | true =>
    have hpropose := RaftNode.propose_leader hlead data
    refine @handled_ready _ _ _ _ r (.command x env (.propose data)) _ env.now rfl ?_
    simp only [called, hpropose]
    rfl
  | false =>
    have hpropose := RaftNode.propose_other hlead data
    refine handled_quiet (e := .command x env (.propose data)) ?_ ?_ ?_ ?_ ?_
    · simp only [readies, called, hpropose, Bool.true_and]
      exact hlead
    · simp only [called, hpropose]
    · simp only [called, hpropose]
      exact (List.append_nil _).symm
    · rw [hpropose]
    · rw [hpropose]
      intro p hp
      rw [List.mem_singleton.mp hp]

theorem onReadIndex_handled (x : X) (env : Env) (r : RaftRuntime A) (ctx : List UInt8) :
    Handled ap x (r.advanced (.command x env (.readIndex ctx)))
      (r.batch (.command x env (.readIndex ctx))) (r.onCommand ap x env (.readIndex ctx)) := by
  rw [onCommand]
  cases hlead : r.raft.isLeader with
  | true =>
    have hread := RaftNode.readIndex_leader hlead ctx
    refine @handled_ready _ _ _ _ r (.command x env (.readIndex ctx)) _ env.now rfl ?_
    simp only [called, hread]
    rfl
  | false =>
    have hread := RaftNode.readIndex_other hlead ctx
    refine handled_quiet (e := .command x env (.readIndex ctx)) ?_ ?_ ?_ ?_ ?_
    · simp only [readies, called, hread, Bool.true_and]
      exact hlead
    · simp only [called, hread]
    · rw [hread]
      rfl
    · rw [hread]
    · rw [hread]
      exact fun p hp => absurd hp List.not_mem_nil

theorem step_handled {r : RaftRuntime A} (hup : r.shutdown = false) (e : RuntimeEvent X) :
    Handled ap e.world (r.advanced e) (r.batch e) (r.step ap e) := by
  rw [step.eq_def, if_neg (by rw [hup]; exact Bool.false_ne_true)]
  cases e with
  | tick x env => exact onTick_handled x env r
  | message x env msg => exact onMessage_handled x env r msg
  | command x env cmd =>
    cases cmd with
    | propose data => exact onPropose_handled x env r data
    | readIndex ctx => exact onReadIndex_handled x env r ctx
    | status => exact handled_quiet rfl rfl rfl rfl fun p hp => absurd hp List.not_mem_nil
    | stepDown => exact handled_quiet rfl rfl rfl rfl fun p hp => absurd hp List.not_mem_nil
    | snapshot =>
      obtain ⟨hraft, hpending⟩ := @triggerSnapshot_keeps _ _ _ ap x env.now r
      exact handled_quiet rfl hraft hpending rfl fun p hp => absurd hp List.not_mem_nil
    | shutdown => exact handled_quiet rfl rfl rfl rfl fun p hp => absurd hp List.not_mem_nil

theorem step_shutdown {r : RaftRuntime A} (hdown : r.shutdown = true) (e : RuntimeEvent X) :
    r.step ap e = { runtime := r, effects := {}, result := .ok () } := by
  rw [step.eq_def, if_pos hdown]

theorem advanced_raft (r : RaftRuntime A) (e : RuntimeEvent X) :
    (r.advanced e).raft.log = (r.called e).raft.log ∧
      (r.advanced e).raft.commitIndex = (r.called e).raft.commitIndex ∧
      (r.advanced e).pendingProposals = (r.called e).pendingProposals := by
  unfold advanced
  split <;> exact ⟨rfl, rfl, rfl⟩

/-- A batch is handed over only where the commit index has moved. -/
theorem batch_ne_nil {r : RaftRuntime A} {e : RuntimeEvent X} (hbatch : r.batch e ≠ []) : r.readies e = true ∧
    (r.called e).raft.lastApplied < (r.called e).raft.commitIndex := by
  unfold batch at hbatch
  split at hbatch
  · rename_i hreadies
    refine ⟨hreadies, ?_⟩
    by_contra hle
    rw [RaftNode.committedEntries, if_neg hle] at hbatch
    exact hbatch rfl
  · exact absurd rfl hbatch

theorem advanced_apply (r : RaftRuntime A) (e : RuntimeEvent X) : (r.advanced e).apply = r.apply := by
  unfold advanced
  cases e with
  | tick x env => split <;> rfl
  | message x env msg => split <;> rfl
  | command x env cmd => cases cmd <;> split <;> rfl

end RaftRuntime
end Raft
end RTDB
