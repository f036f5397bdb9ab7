import RTDB.Cluster.StateMachine
import RTDB.Raft.Runtime

/-!
# Commands on their way to the state machine

The runtime over the state machine of a cluster.  The node moves its mark before
anything is applied, and the machine stops at the first entry that fails, so a command
is skipped unless the whole batch goes through.
-/

namespace RTDB
namespace Cluster

open Raft RaftNode Runs RaftRuntime RaftStateMachine

variable {Addr : Type}

/-- What a round of the runtime meets: what each entry of its batch meets, the clock, and
the order in which the map yields the names. -/
structure World (Addr : Type) where
  env : Nat → ApplyEnv Addr
  now : Int
  listing : AList (fun _ : String => Nat) → List String

def World.deliveries (w : World Addr) (entries : List LogEntry) : List (Delivery Addr) :=
  entries.mapIdx fun k entry => (w.env k, entry)

def machineApply (wire : Wire Addr) : Apply (World Addr) (RaftStateMachine Addr) ApplyError :=
  { apply := fun w m entries => m.apply wire (w.deliveries entries)
    applySnapshot := fun _ m snapshot => m.applySnapshot wire snapshot
    snapshot := fun w m => m.snapshot wire w.now (w.listing m.collections) }

abbrev MachineRuntime (Addr : Type) := RaftRuntime (RaftStateMachine Addr)

/-- One round, and the entries applied in it behind those applied before. -/
def round (wire : Wire Addr) (s : MachineRuntime Addr × List LogEntry)
    (e : RuntimeEvent (World Addr)) : MachineRuntime Addr × List LogEntry :=
  let o := s.1.step (machineApply wire) e
  (o.runtime, s.2 ++ s.1.apply.applied wire (e.world.deliveries o.effects.handed))

def isCommand (entry : LogEntry) : Bool := !isNoOp entry

/-- The commands up to the mark of the node have been applied, each once and in order. -/
def NoneSkipped (s : MachineRuntime Addr × List LogEntry) : Prop :=
  s.2.filter (fun entry => isCommand entry && entry.index ≤ s.1.raft.lastApplied) =
    (s.1.raft.log.take s.1.raft.lastApplied).filter isCommand

/-! ## The condition on a round -/

/-- A message leaves the commands up to the mark in place, and the log numbered: an
append that is accepted does, and no snapshot is installed. -/
def Preserves (n : RaftNode) (msg : Message) : Prop :=
  ¬n.Installs msg ∧ (msg.msgType = .appendEntries → n.Accepts msg →
    Indexed (appendToLog n.log msg) ∧
      ((appendToLog n.log msg).take n.lastApplied).filter isCommand =
        (n.log.take n.lastApplied).filter isCommand)

/-- What is handed over is committed, but for entries without a command, and is applied
without an error. -/
def Goes (wire : Wire Addr) (r : MachineRuntime Addr) (e : RuntimeEvent (World Addr)) : Prop :=
  r.readies e = true → (r.called e).raft.lastApplied < (r.called e).raft.commitIndex →
    (∀ entry ∈ (r.called e).raft.log.drop (r.called e).raft.commitIndex, isNoOp entry = true) ∧
      (r.apply.apply wire (e.world.deliveries (r.batch e))).2 = .ok ()

def Behind (n : RaftNode) (data : List UInt8) : Prop :=
  n.isLeader = true → data ≠ [] → n.lastApplied ≤ n.lastIndex

def Calm (r : MachineRuntime Addr) : RuntimeEvent (World Addr) → Prop
  | .message _ _ msg => Preserves r.raft msg
  | .command _ _ (.propose data) => Behind r.raft data
  | .command _ _ _ => True
  | .tick _ _ => True

/-- The condition on one round; after a shutdown there is none. -/
def Smooth (wire : Wire Addr) (s : MachineRuntime Addr × List LogEntry)
    (e : RuntimeEvent (World Addr)) : Prop :=
  s.1.shutdown = false → Calm s.1 e ∧ Goes wire s.1 e

instance (log : List LogEntry) : Decidable (Indexed log) :=
  decidable_of_iff (∀ k < log.length, ∀ entry ∈ log[k]?, entry.index = k + 1)
    ⟨fun h k entry hk => h k (List.getElem?_eq_some_iff.mp hk).1 entry hk,
      fun h k _ entry hk => h k entry hk⟩

instance (wire : Wire Addr) (s : MachineRuntime Addr × List LogEntry)
    (e : RuntimeEvent (World Addr)) : Decidable (Smooth wire s e) :=
  have : Decidable (Calm s.1 e) :=
    match e with
    | .message _ _ _ => inferInstanceAs (Decidable (_ ∧ (_ → _ → _ ∧ _)))
    | .command _ _ (.propose _) => inferInstanceAs (Decidable (_ → _ → _))
    | .command _ _ (.readIndex _) => isTrue trivial
    | .command _ _ .status => isTrue trivial
    | .command _ _ .stepDown => isTrue trivial
    | .command _ _ .snapshot => isTrue trivial
    | .command _ _ .shutdown => isTrue trivial
    | .tick _ _ => isTrue trivial
  have : Decidable (Goes wire s.1 e) := inferInstanceAs (Decidable (_ → _ → _ ∧ _))
  inferInstanceAs (Decidable (_ → _ ∧ _))

/-! ## The state machine -/

theorem applied_of_ok {wire : Wire Addr} (ds : List (Delivery Addr)) :
    ∀ {m : RaftStateMachine Addr}, (m.apply wire ds).2 = .ok () →
      m.applied wire ds = ds.map Prod.snd := by
  induction ds with
  | nil => exact fun _ => rfl
  | cons d rest ih =>
    intro m hok
    rw [RaftStateMachine.apply] at hok
    rw [applied, List.map_cons]
    cases hentry : m.applyEntry wire d with
    | mk m' result =>
      rw [hentry] at hok
      cases result with
      | error e => exact absurd hok (by simp)
      | ok value => exact congrArg (d.2 :: ·) (ih hok)

theorem deliveries_entries (w : World Addr) (entries : List LogEntry) :
    (w.deliveries entries).map Prod.snd = entries := by
  refine List.ext_getElem? fun k => ?_
  rw [World.deliveries, List.getElem?_map, List.getElem?_mapIdx, Option.map_map]
  exact congrFun Option.map_id entries[k]?

/-! ## The log up to the mark -/

/-- The log is numbered, and the commands applied are those up to the mark. -/
structure Kept (n : RaftNode) (applied : List LogEntry) : Prop where
  indexed : Indexed n.log
  commands : applied.filter isCommand = (n.log.take n.lastApplied).filter isCommand

theorem Kept.noneSkipped {s : MachineRuntime Addr × List LogEntry} (hk : Kept s.1.raft s.2) :
    NoneSkipped s := by
  have hsplit : s.2.filter (fun entry => isCommand entry && entry.index ≤ s.1.raft.lastApplied) =
      (s.2.filter isCommand).filter fun entry => entry.index ≤ s.1.raft.lastApplied := by
    rw [List.filter_filter]
    simp only [Bool.and_comm]
  rw [NoneSkipped, hsplit, hk.commands, List.filter_eq_self]
  intro entry hentry
  obtain ⟨k, hk'⟩ := List.mem_iff_getElem?.mp (List.mem_filter.mp hentry).1
  have hlt := (List.getElem?_eq_some_iff.mp hk').1
  rw [List.length_take] at hlt
  rw [List.getElem?_take_of_lt (by omega)] at hk'
  have hindex := hk.indexed k entry hk'
  simp only [decide_eq_true_eq]
  omega

variable {wire : Wire Addr} {n n' : RaftNode} {applied : List LogEntry}

theorem Kept.same (hk : Kept n applied) (hlog : n'.log = n.log)
    (happlied : n'.lastApplied = n.lastApplied) : Kept n' applied := by
  refine ⟨hlog ▸ hk.indexed, ?_⟩
  rw [hlog, happlied]
  exact hk.commands

/-- A new entry without a command, or behind the mark, changes nothing up to it. -/
theorem Kept.concat (hk : Kept n applied) {term : Nat} {data : List UInt8}
    (hlog : n'.log = n.log ++ [LogEntry.new (n.lastIndex + 1) term data])
    (happlied : n'.lastApplied = n.lastApplied)
    (hbehind : data ≠ [] → n.lastApplied ≤ n.lastIndex) : Kept n' applied := by
  refine ⟨hlog ▸ hk.indexed.concat rfl, ?_⟩
  rw [hlog, happlied, hk.commands]
  by_cases hdata : data = []
  · subst hdata
    have hnone : ([LogEntry.new (n.lastIndex + 1) term []].take
        (n.lastApplied - n.log.length)).filter isCommand = [] := by
      rw [List.filter_eq_nil_iff]
      intro entry hentry
      rw [List.mem_singleton.mp (List.mem_of_mem_take hentry)]
      simp [isCommand, isNoOp, LogEntry.new]
    rw [List.take_append, List.filter_append, hnone, List.append_nil]
  · rw [List.take_append_of_le_length (hbehind hdata)]

theorem Kept.called {r : MachineRuntime Addr} {e : RuntimeEvent (World Addr)}
    (hk : Kept r.raft applied) (hcalm : Calm r e) : Kept (r.called e).raft applied := by
  cases e with
  | tick x env => exact hk.same (tick_keeps env r.raft).1 (tick_keeps env r.raft).2
  | message x env msg =>
    obtain ⟨happlied, hcases⟩ := step_log env hcalm.1
    rcases hcases with hsame | ⟨term, hlonger⟩ | ⟨htype, haccepts, hcut⟩
    · exact hk.same hsame happlied
    · exact hk.concat hlonger happlied fun hdata => absurd rfl hdata
    · obtain ⟨hindexed, hcommands⟩ := hcalm.2 htype haccepts
      refine ⟨?_, ?_⟩ <;> rw [RaftRuntime.called]
      · exact hcut ▸ hindexed
      · rw [hcut, happlied, hcommands]
        exact hk.commands
  | command x env cmd =>
    cases cmd with
    | propose data =>
      cases hlead : r.raft.isLeader with
      | false =>
        rw [RaftRuntime.called, propose_other hlead data]
        exact hk
      | true =>
        rw [RaftRuntime.called, propose_leader hlead data]
        exact hk.concat rfl rfl (hcalm hlead)
    | readIndex ctx =>
      have hread : (r.raft.readIndex ctx).1.log = r.raft.log ∧
          (r.raft.readIndex ctx).1.lastApplied = r.raft.lastApplied := by
        unfold RaftNode.readIndex
        split <;> exact ⟨rfl, rfl⟩
      exact hk.same hread.1 hread.2
    | status => exact hk
    | stepDown => exact hk
    | snapshot => exact hk
    | shutdown => exact hk

/-- Once the whole log has been applied, the mark may move anywhere that leaves no
command behind it. -/
theorem Kept.advance (hk : Kept n applied) (hlog : n'.log = n.log)
    (hbehind : ∀ entry ∈ n.log.drop n'.lastApplied, isNoOp entry = true) :
    Kept n' (applied ++ n.log.drop n.lastApplied) := by
  refine ⟨hlog ▸ hk.indexed, ?_⟩
  have hnone : (n.log.drop n'.lastApplied).filter isCommand = [] := by
    rw [List.filter_eq_nil_iff]
    intro entry hentry
    rw [isCommand, hbehind entry hentry]
    decide
  have hall : ∀ k, (n.log.take k).filter isCommand ++ (n.log.drop k).filter isCommand =
      n.log.filter isCommand := by
    intro k
    rw [← List.filter_append, List.take_append_drop]
  rw [List.filter_append, hk.commands, hall, hlog, ← hall n'.lastApplied, hnone, List.append_nil]

theorem Kept.advanced {r : MachineRuntime Addr} {e : RuntimeEvent (World Addr)}
    (hk : Kept (r.called e).raft applied) (hgoes : Goes wire r e) :
    Kept (r.advanced e).raft
      (applied ++ r.apply.applied wire (e.world.deliveries (r.batch e))) := by
  rw [Goes, RaftRuntime.batch] at hgoes
  rw [RaftRuntime.advanced, RaftRuntime.batch]
  cases hreadies : r.readies e with
  | false => exact (List.append_nil applied).symm ▸ hk
  | true =>
    rw [if_pos rfl, if_pos rfl]
    by_cases hlt : (r.called e).raft.lastApplied < (r.called e).raft.commitIndex
    · obtain ⟨hbehind, hok⟩ := hgoes hreadies hlt
      rw [if_pos hreadies] at hok
      have hentries : (r.called e).raft.committedEntries =
          (r.called e).raft.log.drop (r.called e).raft.lastApplied := by
        rw [committedEntries, if_pos hlt, getEntries_none, Nat.add_sub_cancel]
      have hmark : (r.called e).raft.markApplied.lastApplied = (r.called e).raft.commitIndex :=
        if_pos hlt
      rw [applied_of_ok _ hok, deliveries_entries, hentries]
      refine hk.advance rfl ?_
      rw [hmark]
      exact hbehind
    · have hentries : (r.called e).raft.committedEntries = [] := if_neg hlt
      rw [hentries]
      exact (List.append_nil applied).symm ▸ hk.same rfl (if_neg hlt)

theorem Kept.round {s : MachineRuntime Addr × List LogEntry} {e : RuntimeEvent (World Addr)}
    (hk : Kept s.1.raft s.2) (hsmooth : Smooth wire s e) :
    Kept (round wire s e).1.raft (round wire s e).2 := by
  rw [Cluster.round]
  cases hup : s.1.shutdown with
  | true =>
    rw [step_shutdown hup]
    exact (List.append_nil s.2).symm ▸ hk
  | false =>
    obtain ⟨hcalm, hgoes⟩ := hsmooth hup
    have hhandled := @step_handled _ _ _ (machineApply wire) _ hup e
    have hadvanced := (hk.called hcalm).advanced hgoes
    rw [hhandled.handed]
    refine hadvanced.same ?_ ?_ <;> rw [hhandled.raft]

/-! ## Runs -/

theorem none_skipped (wire : Wire Addr) (raft : RaftNode) (m : RaftStateMachine Addr) (now : Nat)
    (hraft : raft.lastApplied = 0) (hlog : Indexed raft.log)
    (events : List (RuntimeEvent (World Addr)))
    (hsmooth : Each (round wire) (Smooth wire) (RaftRuntime.new raft m now, []) events) :
    NoneSkipped (events.foldl (round wire) (RaftRuntime.new raft m now, [])) := by
  have hstart : Kept raft [] := by
    refine ⟨hlog, ?_⟩
    rw [hraft]
    rfl
  have hkept : Kept (events.foldl (round wire) (RaftRuntime.new raft m now, [])).1.raft
      (events.foldl (round wire) (RaftRuntime.new raft m now, [])).2 :=
    Each.foldl (Q := fun s => Kept s.1.raft s.2) (fun s e hk hs => Kept.round hk hs) hstart hsmooth
  exact hkept.noneSkipped

/-! ## One creation -/

/-- A world in which the creation of a collection ends as given. -/
def worldOf (created : Except ApplyError Unit) : World Nat :=
  { env := fun _ => { iteration := Iteration.forward, created, removed := .ok () }
    now := 0
    listing := fun collections => collections.keys }

def bootedNode : RaftNode := RaftNode.newWithConf (trio.boot 1) (trio.config 1) trio.voters

/-- Node 1 takes the lead, applies its no-op, and then commits the creation of a
collection. -/
def creating (created : Except ApplyError Unit) : List (RuntimeEvent (World Nat)) :=
  let w := worldOf (.ok ())
  [.tick w late, .message w late { msgType := .voteResponse, from_ := 2, to_ := 1, term := 1 },
    .message w late (answerOf 2 false), .tick w later, .command w later (.propose creationBytes),
    .message w later (answerOf 3 false), .tick (worldOf created) { now := 3000, jitter := 0 },
    .tick w { now := 4000, jitter := 0 }]

theorem none_skipped_creating :
    ((creating (.ok ())).foldl (round creationWire)
        (RaftRuntime.new bootedNode emptyMachine 0, [])).1.raft.lastApplied = 3 ∧
      NoneSkipped ((creating (.ok ())).foldl (round creationWire)
        (RaftRuntime.new bootedNode emptyMachine 0, [])) :=
  ⟨by decide, none_skipped creationWire bootedNode emptyMachine 0 rfl (by decide)
    (creating (.ok ())) (by decide)⟩

/-- A full disk makes the creation fail, and it is not handed over again. -/
theorem not_none_skipped_creating :
    ¬NoneSkipped ((creating (.error (.io "No space left on device"))).foldl (round creationWire)
      (RaftRuntime.new bootedNode emptyMachine 0, [])) := by
  unfold NoneSkipped
  decide

end Cluster
end RTDB
