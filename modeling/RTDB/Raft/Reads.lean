import RTDB.Raft.Replication

/-!
# Linearizable reads

A read goes out with the commit index its leader had when it took the request.  To say
which request a read answers, requests are numbered: a node passes their contexts on
unread, so a run stays the run it is when the contexts are written anew.
-/

namespace RTDB
namespace Raft

/-! ## Contexts written anew -/

namespace ReadState

def rename (f : List UInt8 → List UInt8) (read : ReadState) : ReadState :=
  { read with requestCtx := f read.requestCtx }

end ReadState

namespace RaftNode

/-- The node with other contexts in its reads. -/
def rename (f : List UInt8 → List UInt8) (n : RaftNode) : RaftNode :=
  { n with
    readStates := n.readStates.map (ReadState.rename f)
    pendingReads := n.pendingReads.map (ReadState.rename f) }

end RaftNode

def Output.rename (f : List UInt8 → List UInt8) (o : Output) : Output :=
  { o with node := o.node.rename f }

def Call.rename (f : List UInt8 → List UInt8) : Call → Call
  | .readIndex ctx => .readIndex (f ctx)
  | .tick env => .tick env
  | .step env msg => .step env msg
  | .propose data => .propose data
  | .readStates => .readStates
  | .ready => .ready

def Event.rename (f : List UInt8 → List UInt8) : Event → Event
  | .readIndex i ctx => .readIndex i (f ctx)
  | .tick i env => .tick i env
  | .deliver msg env => .deliver msg env
  | .propose i data => .propose i data
  | .readStates i => .readStates i
  | .ready i => .ready i

def Cluster.rename (f : List UInt8 → List UInt8) (c : Cluster) : Cluster :=
  { c with node := fun i => (c.node i).rename f }

/-- A choice between two values made before or after a function. -/
theorem ite_map {α β : Type} (g : α → β) {c : Prop} [Decidable c] {a b : α} {a' b' : β}
    (ha : a' = g a) (hb : b' = g b) : (if c then a' else b') = g (if c then a else b) := by
  rw [apply_ite g, ha, hb]

namespace RaftNode

variable {f : List UInt8 → List UInt8} {env : Env} {n : RaftNode} {msg : Message}

theorem becomeLeader_rename (f : List UInt8 → List UInt8) (n : RaftNode) :
    (n.rename f).becomeLeader = n.becomeLeader.rename f := by
  simp only [becomeLeader, rename, List.map_append, List.map_nil]
  rfl

theorem advanceCommitIndex_rename (f : List UInt8 → List UInt8) (n : RaftNode) :
    (n.rename f).advanceCommitIndex = n.advanceCommitIndex.rename f := by
  refine ite_map (rename f) rfl (ite_map (rename f) ?_ rfl)
  simp only [rename, List.map_append, List.filter_map]
  rfl

theorem checkQuorum_rename : (n.rename f).checkQuorum env = (n.checkQuorum env).rename f := by
  let active : Bool :=
    (n.progress.entries.filter (fun p => p.2.recentActive)).length + 1 ≥ n.quorumSize
  have hdown : (if !active && n.quorumRecentlyActive then (n.rename f).becomeFollower env n.term 0
      else n.rename f) =
        (if !active && n.quorumRecentlyActive then n.becomeFollower env n.term 0 else n).rename f :=
    ite_map (rename f) rfl rfl
  exact congrArg (fun n : RaftNode => { n with quorumRecentlyActive := active }) hdown

theorem tick_rename : (n.rename f).tick env = ((n.tick env).1.rename f, (n.tick env).2) := by
  let g : Output × Bool → Output × Bool := fun o => (o.1.rename f, o.2)
  have hcampaign : (n.rename f).handleElectionTimeout env =
      (n.handleElectionTimeout env).rename f :=
    ite_map (Output.rename f) rfl rfl
  have htimeout : g (n.handleElectionTimeout env, true) =
      ((n.rename f).handleElectionTimeout env, true) := by rw [hcampaign]
  have hcheck : g ({ node := n.checkQuorum env }, false) =
      ({ node := (n.rename f).checkQuorum env }, false) := by
    rw [checkQuorum_rename]
    rfl
  have hstate : (n.rename f).state = n.state := rfl
  unfold tick
  rw [hstate]
  cases n.state with
  | leader => exact ite_map g rfl (ite_map g hcheck.symm rfl)
  | follower => exact ite_map g htimeout.symm rfl
  | candidate => exact ite_map g htimeout.symm rfl
  | preCandidate => exact ite_map g htimeout.symm rfl

theorem handleAppendResponse_rename :
    (n.rename f).handleAppendResponse msg = (n.handleAppendResponse msg).rename f := by
  unfold handleAppendResponse
  refine ite_map (Output.rename f) rfl ?_
  have hprogress : (n.rename f).progress = n.progress := rfl
  rw [hprogress]
  cases n.progress.lookup msg.from_ with
  | none => rfl
  | some progress =>
    refine ite_map (Output.rename f) rfl ?_
    exact congrArg (fun n => ({ node := n } : Output)) (advanceCommitIndex_rename f
      { n with progress := n.progress.insert msg.from_ (progress.becomeAccept msg.index) })

theorem handleRequestVote_rename :
    (n.rename f).handleRequestVote env msg = (n.handleRequestVote env msg).rename f := by
  refine ite_map (Output.rename f) rfl ?_
  simp only
  have hguard : ((n.rename f).canVote msg && (n.rename f).logOk msg) =
      (n.canVote msg && n.logOk msg) := rfl
  rw [hguard]
  cases n.canVote msg && n.logOk msg <;> rfl

theorem handleVoteResponse_rename :
    (n.rename f).handleVoteResponse env msg = (n.handleVoteResponse env msg).rename f := by
  refine ite_map (Output.rename f) rfl (ite_map (Output.rename f) ?_
    (ite_map (Output.rename f) rfl rfl))
  exact congrArg (fun n : RaftNode => ({ node := n, ready := some n.buildAppendAcks } : Output))
    (becomeLeader_rename f (n.countVote msg))

theorem handleInstallSnapshot_rename :
    (n.rename f).handleInstallSnapshot env msg = (n.handleInstallSnapshot env msg).rename f := by
  unfold handleInstallSnapshot
  refine ite_map (Output.rename f) rfl ?_
  cases msg.snapshot <;> rfl

theorem handleSnapshotResponse_rename :
    (n.rename f).handleSnapshotResponse msg = (n.handleSnapshotResponse msg).rename f := by
  unfold handleSnapshotResponse
  refine ite_map (Output.rename f) rfl ?_
  have hprogress : (n.rename f).progress = n.progress := rfl
  rw [hprogress]
  cases n.progress.lookup msg.from_ with
  | none => rfl
  | some progress => exact ite_map (Output.rename f) rfl rfl

theorem handle_rename : (n.rename f).handle env msg = (n.handle env msg).rename f := by
  unfold handle
  cases msg.msgType with
  | heartbeat => exact ite_map (Output.rename f) rfl rfl
  | appendEntries => exact ite_map (Output.rename f) rfl (ite_map (Output.rename f) rfl rfl)
  | appendResponse => exact handleAppendResponse_rename
  | requestVote => exact handleRequestVote_rename
  | voteResponse => exact handleVoteResponse_rename
  | requestPreVote => rfl
  | preVoteResponse => exact ite_map (Output.rename f) rfl (ite_map (Output.rename f) rfl rfl)
  | installSnapshot => exact handleInstallSnapshot_rename
  | snapshotResponse => exact handleSnapshotResponse_rename
  | timeoutNow => rfl

theorem step_rename : (n.rename f).step env msg = (n.step env msg).rename f := by
  have hobserve : (n.rename f).observeTerm env msg = (n.observeTerm env msg).rename f :=
    ite_map (rename f) rfl rfl
  rw [step, step, hobserve, handle_rename]

/-- A node passes contexts on. -/
theorem call_rename (f : List UInt8 → List UInt8) (n : RaftNode) (c : Call) :
    (n.rename f).call (c.rename f) = (n.call c).rename f := by
  cases c with
  | tick env => exact congrArg Prod.fst tick_rename
  | step env msg => exact step_rename
  | propose data =>
    have hpropose : (n.rename f).propose data = ((n.propose data).1.rename f, (n.propose data).2) :=
      ite_map (fun p : RaftNode × Option Nat => (p.1.rename f, p.2)) rfl rfl
    exact congrArg (fun p : RaftNode × Option Nat => ({ node := p.1 } : Output)) hpropose
  | readIndex ctx =>
    have hread : (n.rename f).readIndex (f ctx) = ((n.readIndex ctx).1.rename f, (n.readIndex ctx).2) := by
      refine ite_map (fun p : RaftNode × Bool => (p.1.rename f, p.2)) rfl ?_
      simp only [rename, List.map_append]
      rfl
    exact congrArg (fun p : RaftNode × Bool => ({ node := p.1 } : Output)) hread
  | readStates => rfl
  | ready =>
    have hready : (n.rename f).takeReady = (n.takeReady.1.rename f, n.takeReady.2) :=
      ite_map (fun p : RaftNode × Option Ready => (p.1.rename f, p.2)) rfl rfl
    exact congrArg (fun p : RaftNode × Option Ready => ({ node := p.1, ready := p.2 } : Output)) hready

end RaftNode
open RaftNode

theorem Event.node_rename (f : List UInt8 → List UInt8) (e : Event) :
    (e.rename f).node = e.node := by
  cases e <;> rfl

theorem Event.call_rename (f : List UInt8 → List UInt8) (e : Event) :
    (e.rename f).call = e.call.rename f := by
  cases e <;> rfl

namespace Cluster

theorem apply_rename (f : List UInt8 → List UInt8) (c : Cluster) (e : Event) :
    (c.rename f).apply (e.rename f) = (c.apply e).rename f := by
  have hcall : ((c.rename f).node e.node).call (e.call.rename f) =
      ((c.node e.node).call e.call).rename f := RaftNode.call_rename f _ _
  rw [apply_eq, apply_eq, e.node_rename, e.call_rename, hcall]
  refine congrArg₂ Cluster.mk ?_ rfl
  funext i
  by_cases hi : i = e.node
  · subst hi
    simp only [update, Output.rename, Function.update_self]
  · simp only [update, rename, Function.update_of_ne hi]

theorem run_rename (f : List UInt8 → List UInt8) (es : List Event) :
    ∀ c : Cluster, (c.rename f).run (es.map (Event.rename f)) = (c.run es).rename f := by
  induction es with
  | nil => exact fun c => rfl
  | cons e es ih =>
    intro c
    rw [List.map_cons, run, run, apply_rename, ih]

theorem after_rename (f : List UInt8 → List UInt8) (S : Setup) (es : List Event) (k : Nat) :
    after S (es.map (Event.rename f)) k = (after S es k).rename f := by
  rw [after, after, ← List.map_take]
  exact run_rename f (es.take k) (init S)

end Cluster

/-! ## Which request a read answers -/

/-- The run in which the context of each request is as long as the run before it. -/
def numbered (es : List Event) : List Event :=
  es.mapIdx fun k e => e.rename fun _ => List.replicate k 0

def contextAt (es : List Event) (k : Nat) : List UInt8 :=
  match es[k]? with
  | some (.readIndex _ ctx) => ctx
  | _ => []

def released (S : Setup) (es : List Event) (k : Nat) : List ReadState :=
  match es[k]? with
  | some (.readStates i) => ((Cluster.after S es k).node i).takeReadStates.2
  | _ => []

def answers (S : Setup) (es : List Event) (k : Nat) : List Nat :=
  (released S (numbered es) k).map fun read => read.requestCtx.length

theorem numbered_rename (es : List Event) :
    (numbered es).map (Event.rename fun ctx => contextAt es ctx.length) = es := by
  refine List.ext_getElem? fun k => ?_
  rw [List.getElem?_map, numbered, List.getElem?_mapIdx, Option.map_map]
  cases he : es[k]? with
  | none => rfl
  | some e =>
    cases e with
    | readIndex i ctx => simp [Event.rename, contextAt, he]
    | tick i env => rfl
    | deliver msg env => rfl
    | propose i data => rfl
    | readStates i => rfl
    | ready i => rfl

theorem after_numbered (S : Setup) (es : List Event) (k : Nat) : Cluster.after S es k =
    (Cluster.after S (numbered es) k).rename fun ctx => contextAt es ctx.length := by
  rw [← Cluster.after_rename, numbered_rename]

/-- The numbered run releases the same reads. -/
theorem released_numbered (S : Setup) (es : List Event) (k : Nat) : released S es k =
    (released S (numbered es) k).map (ReadState.rename fun ctx => contextAt es ctx.length) := by
  rw [released, released, numbered, List.getElem?_mapIdx]
  cases es[k]? with
  | none => rfl
  | some e =>
    cases e with
    | readStates i =>
      have hafter := congrArg (fun c : Cluster => (c.node i).takeReadStates.2) (after_numbered S es k)
      exact hafter
    | readIndex i ctx => rfl
    | tick i env => rfl
    | deliver msg env => rfl
    | propose i data => rfl
    | ready i => rfl

/-! ## Where reads come from -/

namespace RaftNode

def held (n : RaftNode) : List ReadState := n.readStates ++ n.pendingReads

variable {n : RaftNode} {msg : Message} (env : Env)

theorem held_drop {n' : RaftNode} (hstates : n'.readStates = []) (hpending : n'.pendingReads = []) :
    n'.held ⊆ n.held := by
  rw [held, hstates, hpending]
  exact List.nil_subset _

theorem becomeLeader_held : n.becomeLeader.held ⊆ n.held := by
  intro read hread
  rw [held, becomeLeader, List.append_nil] at hread
  exact hread

theorem advanceCommitIndex_held : n.advanceCommitIndex.held ⊆ n.held := by
  unfold advanceCommitIndex
  split
  · exact List.Subset.refl _
  · split
    · intro read hread
      simp only [held, List.mem_append, List.mem_filter] at hread ⊢
      rcases hread with (hstate | ⟨hpending, -⟩) | ⟨hpending, -⟩
      · exact Or.inl hstate
      · exact Or.inr hpending
      · exact Or.inr hpending
    · exact List.Subset.refl _

theorem checkQuorum_held : (n.checkQuorum env).held ⊆ n.held := by
  unfold checkQuorum
  simp only
  split
  · exact held_drop rfl rfl
  · exact List.Subset.refl _

theorem tick_held : (n.tick env).1.node.held ⊆ n.held := by
  unfold tick
  split
  · split
    · exact List.Subset.refl _
    · split
      · exact checkQuorum_held env
      · exact List.Subset.refl _
  · split
    · unfold handleElectionTimeout
      split
      · exact List.Subset.refl _
      · exact held_drop rfl rfl
    · exact List.Subset.refl _

theorem handleAppendResponse_held : (n.handleAppendResponse msg).node.held ⊆ n.held := by
  unfold handleAppendResponse
  split
  · exact List.Subset.refl _
  · split
    · exact List.Subset.refl _
    · split
      · exact List.Subset.refl _
      · exact advanceCommitIndex_held

theorem handleVoteResponse_held : (n.handleVoteResponse env msg).node.held ⊆ n.held := by
  unfold handleVoteResponse
  split
  · exact List.Subset.refl _
  · simp only
    split
    · exact becomeLeader_held (n := n.countVote msg)
    · split
      · exact held_drop rfl rfl
      · exact List.Subset.refl _

theorem handle_held : (n.handle env msg).node.held ⊆ n.held := by
  unfold handle
  split
  · unfold handleHeartbeat
    simp only
    split <;> exact List.Subset.refl _
  · unfold handleAppendEntries
    simp only
    split
    · exact List.Subset.refl _
    · split <;> exact List.Subset.refl _
  · exact handleAppendResponse_held
  · unfold handleRequestVote
    split
    · exact List.Subset.refl _
    · simp only
      split <;> exact List.Subset.refl _
  · exact handleVoteResponse_held env
  · exact List.Subset.refl _
  · unfold handlePreVoteResponse
    split
    · exact List.Subset.refl _
    · simp only
      split
      · exact held_drop rfl rfl
      · exact List.Subset.refl _
  · unfold handleInstallSnapshot
    split
    · exact List.Subset.refl _
    · simp only
      split <;> exact List.Subset.refl _
  · unfold handleSnapshotResponse
    split
    · exact List.Subset.refl _
    · split
      · exact List.Subset.refl _
      · split <;> exact List.Subset.refl _
  · exact List.Subset.refl _

theorem step_held : (n.step env msg).node.held ⊆ n.held := by
  refine List.Subset.trans (handle_held env) ?_
  unfold observeTerm
  split
  · exact held_drop rfl rfl
  · exact List.Subset.refl _

/-- A new read has the commit index of a leader. -/
theorem call_held {c : Call} {read : ReadState} (hread : read ∈ (n.call c).node.held) :
    read ∈ n.held ∨ ∃ ctx, c = .readIndex ctx ∧ n.state = .leader ∧
      read = { index := n.commitIndex, requestCtx := ctx } := by
  cases c with
  | tick env => exact Or.inl (tick_held env hread)
  | step env msg => exact Or.inl (step_held env hread)
  | propose data =>
    rw [call, propose] at hread
    split at hread <;> exact Or.inl hread
  | readIndex ctx =>
    rw [call, readIndex] at hread
    split at hread
    · exact Or.inl hread
    · rename_i hlead
      rw [held, ← List.append_assoc] at hread
      rcases List.mem_append.mp hread with hold | hnew
      · exact Or.inl hold
      · exact Or.inr ⟨ctx, rfl, by simpa [isLeader] using hlead, List.mem_singleton.mp hnew⟩
  | readStates => exact Or.inl (List.mem_append_right _ hread)
  | ready =>
    rw [call, takeReady] at hread
    split at hread <;> exact Or.inl hread

end RaftNode

/-! ## Runs -/

variable {S : Setup} {es : List Event}

/-- Node `i` took request number `k` with the context `ctx` as a leader, when its commit
index was `index`. -/
structure Accepted (S : Setup) (es : List Event) (i : NodeId) (k : Nat) (ctx : List UInt8)
    (index : Nat) : Prop where
  event : es[k]? = some (.readIndex i ctx)
  state : ((Cluster.after S es k).node i).state = .leader
  index : index = ((Cluster.after S es k).node i).commitIndex

theorem number_length {k : Nat} {i : NodeId} {ctx : List UInt8}
    (hevent : (numbered es)[k]? = some (.readIndex i ctx)) : ctx.length = k := by
  rw [numbered, List.getElem?_mapIdx] at hevent
  obtain ⟨e, -, he⟩ := Option.map_eq_some_iff.mp hevent
  cases e with
  | readIndex j old =>
    injection he with _ hctx
    rw [← hctx, List.length_replicate]
  | tick _ _ | deliver _ _ | propose _ _ | readStates _ | ready _ => exact absurd he (by simp [Event.rename])

/-- The reads a node holds in a numbered run are requests it took before. -/
theorem held_accepted (k : Nat) (i : NodeId) {read : ReadState}
    (hread : read ∈ ((Cluster.after S (numbered es) k).node i).held) :
    read.requestCtx.length < k ∧
      Accepted S (numbered es) i read.requestCtx.length read.requestCtx read.index := by
  induction k with
  | zero => exact absurd hread List.not_mem_nil
  | succ k ih =>
    by_cases hk : k < (numbered es).length
    · rw [Cluster.after_succ hk] at hread
      by_cases hi : i = (numbered es)[k].node
      · subst hi
        rw [Cluster.apply_node_self] at hread
        rcases call_held hread with hold | ⟨ctx, hcall, hstate, rfl⟩
        · exact ⟨Nat.lt_succ_of_lt (ih hold).1, (ih hold).2⟩
        · have hevent : (numbered es)[k]? = some (.readIndex (numbered es)[k].node ctx) := by
            rw [List.getElem?_eq_getElem hk]
            cases he : (numbered es)[k] <;> rw [he] at hcall <;> simp_all [Event.call, Event.node]
          have hlen := number_length hevent
          refine ⟨by simp [hlen], ?_, ?_, ?_⟩ <;> simp only [hlen]
          · exact hevent
          · exact hstate
      · rw [Cluster.apply_node_ne _ _ hi] at hread
        exact ⟨Nat.lt_succ_of_lt (ih hread).1, (ih hread).2⟩
    · rw [Cluster.after_of_le (by omega)] at hread
      exact ⟨Nat.lt_succ_of_lt (ih hread).1, (ih hread).2⟩

/-- A request of the numbered run is one of the run. -/
theorem Accepted.of_numbered {i : NodeId} {k index : Nat} {ctx : List UInt8}
    (ha : Accepted S (numbered es) i k ctx index) : Accepted S es i k (contextAt es k) index := by
  refine ⟨?_, ?_, ?_⟩
  · have hevent := ha.event
    rw [numbered, List.getElem?_mapIdx] at hevent
    obtain ⟨e, he, hnumber⟩ := Option.map_eq_some_iff.mp hevent
    cases e with
    | readIndex j old =>
      injection hnumber with hnode _
      rw [contextAt, he, hnode]
    | tick _ _ | deliver _ _ | propose _ _ | readStates _ | ready _ =>
      exact absurd hnumber (by simp [Event.rename])
  · rw [after_numbered]
    exact ha.state
  · rw [after_numbered]
    exact ha.index

theorem mem_zip_released {k : Nat} {read : ReadState} {a : Nat} :
    (read, a) ∈ (released S es k).zip (answers S es k) ↔
      ∃ old ∈ released S (numbered es) k, old.requestCtx.length = a ∧
        old.rename (fun ctx => contextAt es ctx.length) = read := by
  rw [answers, released_numbered, List.zip_map', List.mem_map]
  constructor
  · rintro ⟨old, hold, heq⟩
    exact ⟨old, hold, (Prod.mk.inj heq).2, (Prod.mk.inj heq).1⟩
  · rintro ⟨old, hold, ha, hread⟩
    exact ⟨old, hold, by rw [ha, hread]⟩

/-- Each read that is released answers a request of the same node with its context, and
carries the commit index the node had then. -/
theorem released_accepted {k : Nat} {read : ReadState} {a : Nat}
    (hread : (read, a) ∈ (released S es k).zip (answers S es k)) :
    ∃ i, es[k]? = some (.readStates i) ∧ a < k ∧
      Accepted S es i a read.requestCtx read.index := by
  obtain ⟨old, hold, rfl, rfl⟩ := mem_zip_released.mp hread
  rw [released, numbered, List.getElem?_mapIdx] at hold
  cases he : es[k]? with
  | none =>
    rw [he] at hold
    exact absurd hold List.not_mem_nil
  | some e =>
    rw [he] at hold
    cases e with
    | readStates i =>
      have hheld : old ∈ ((Cluster.after S (numbered es) k).node i).held :=
        List.mem_append_left _ hold
      obtain ⟨hlt, haccepted⟩ := held_accepted k i hheld
      exact ⟨i, rfl, hlt, haccepted.of_numbered⟩
    | tick _ _ | deliver _ _ | propose _ _ | readIndex _ _ | ready _ =>
      exact absurd hold List.not_mem_nil

/-- Every read carries an index that no node had passed when its request was taken. -/
def Linearizable (S : Setup) (es : List Event) : Prop :=
  ∀ k, ∀ p ∈ (released S es k).zip (answers S es k), ∀ j ≤ p.2, ∀ i,
    ((Cluster.after S es j).node i).commitIndex ≤ p.1.index

/-- If event `k` is a request, it goes to a node whose commit index no node has passed. -/
def Freshest (S : Setup) (es : List Event) (k : Nat) : Prop :=
  ∀ i ctx, es[k]? = some (.readIndex i ctx) → ∀ j ≤ k, ∀ p,
    ((Cluster.after S es j).node p).commitIndex ≤ ((Cluster.after S es k).node i).commitIndex

/-- Reads are linearizable exactly when each one that is released was asked of a node
that knew of every commit. -/
theorem reads_linearizable_iff (S : Setup) (es : List Event) :
    Linearizable S es ↔ ∀ k, ∀ a ∈ answers S es k, Freshest S es a := by
  constructor
  · intro hlinear k a ha i ctx hevent j hj p
    obtain ⟨old, hold, rfl⟩ := List.mem_map.mp ha
    have hread := mem_zip_released.mpr ⟨old, hold, rfl, rfl⟩
    obtain ⟨i', -, -, haccepted⟩ := released_accepted hread
    have hsame := haccepted.event
    rw [hevent, Option.some.injEq] at hsame
    injection hsame with hnode _
    have hle := hlinear k _ hread j hj p
    rw [haccepted.index, ← hnode] at hle
    exact hle
  · rintro hfresh k ⟨read, a⟩ hread j hj p
    obtain ⟨i, -, -, haccepted⟩ := released_accepted hread
    obtain ⟨old, hold, ha, -⟩ := mem_zip_released.mp hread
    have hmem : a ∈ answers S es k := List.mem_map.mpr ⟨old, hold, ha⟩
    exact (hfresh k a hmem i _ haccepted.event j hj p).trans_eq haccepted.index.symm

/-! ## A read of a new leader -/

/-- An append of the leader 2 of term 2 to node 3. -/
def appendTo (index : Nat) (entries : List LogEntry) : Message :=
  { msgType := .appendEntries, from_ := 2, to_ := 3, term := 2, index, entries }

def answerFrom (index : Nat) (reject : Bool) : Message :=
  { msgType := .appendResponse, from_ := 3, to_ := 2, term := 2, index, reject }

/-- Node 2 takes a request right after its election, and commits its own no-op with
node 3, which refuses twice. -/
def reading : List Event :=
  succeeding ++ [.readIndex 2 [7], .deliver (appendTo 2 [LogEntry.new 3 2 []]) later,
    .deliver (answerFrom 0 true) later, .deliver (answerFrom 0 true) later, .ready 2,
    .deliver (appendTo 0 [root, noop, LogEntry.new 3 2 []]) later,
    .deliver (answerFrom 3 false) later, .readStates 2]

/-- The read carries index 0, although node 1 had committed its no-op before. -/
theorem not_reads_linearizable_reading :
    Cluster.Valid trio (Cluster.init trio) reading ∧ ¬ Linearizable trio reading := by
  refine ⟨by decide, fun hlinear => ?_⟩
  have hread : (({ index := 0, requestCtx := [7] } : ReadState), 11) ∈
      (released trio reading 18).zip (answers trio reading 18) := by decide
  exact absurd (hlinear 18 _ hread 11 (by decide) 1) (by decide)

end Raft
end RTDB
