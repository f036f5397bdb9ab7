import RTDB.Migration.Resume

/-!
# Migrations that are completed

`execute_migration` of `migration/mod.rs` with the strategy `Stream`.  Its status tells whether the
calls it waits for returned an error; the producer's task and the batches that fail are none of them.
-/

namespace RTDB
namespace Migration

open Storage Runs

variable {σ F : Type}

/-! ## What can still land -/

/-- What the producer has not fetched. -/
def Producing.rest (slots : List (Option (VectorRecord F))) : Producing σ F → List (VectorRecord F)
  | .fetching p => restOf slots p.offset
  | .sending _ p => restOf slots p.offset
  | .finished _ => []

/-- What has landed, what is on its way, and what may yet be fetched. -/
def Stream.outlook (formats : Formats F) (config : MigrationConfig)
    (slots : List (Option (VectorRecord F))) (s : Stream σ F) : List (VectorRecord F) :=
  s.reach formats config ++ landing formats config (s.producing.rest slots)

/-- A run from the start of the source: its offsets do not wrap, and its batches are not empty. -/
structure Fresh (config : MigrationConfig) (s : Stream σ F) : Prop where
  producing : ∃ next, s.producing.At config.batchSize next
  nonempty : ∀ batch ∈ s.pending, batch.records ≠ []
  closed : s.Closed

section outlook

variable {source : SourceClient σ F} {formats : Formats F} {config : MigrationConfig}
  {slots : List (Option (VectorRecord F))} {s s' : Stream σ F}

/-- An offset inside the source does not wrap with the next step. -/
theorem Fresh.offset_eq {p next : Producer σ} {batch : VectorBatch F} (hfresh : Fresh config s)
    (hserves : Serves source slots) (hp : s.producing = .fetching p)
    (hturn : p.turn source config.batchSize = .batch batch next) :
    next.offset = p.offset + config.batchSize := by
  obtain ⟨n, hat⟩ := hfresh.producing
  rw [hp] at hat
  obtain ⟨rfl, hwrap⟩ := hat
  have hsteady : p.Steady config.batchSize := hwrap
  exact (hsteady.turn hserves config.batchSize_lt hturn).1

theorem fresh_start (client : σ) (disk : Option Checkpoint) :
    Fresh config (Stream.start (F := F) config.batchSize client none disk) where
  producing := ⟨0, rfl, Or.inl rfl⟩
  nonempty := fun batch hmem => absurd hmem List.not_mem_nil
  closed := fun hdone => absurd hdone (by simp [Stream.start])

theorem fresh_move {a : Action} (hserves : Serves source slots) (hfresh : Fresh config s)
    (hmove : Stream.Move source formats config s a s') : Fresh config s' := by
  have hclosed := closed_move hfresh.closed hmove
  have hrest : ∀ batch ∈ s.queue ++ s.producing.held, batch.records ≠ [] := fun batch hmem =>
    hfresh.nonempty batch (by
      rw [Stream.pending, List.append_assoc]
      exact List.mem_append_right _ hmem)
  cases hmove with
  | fetched hp hturn =>
    refine { producing := ⟨_, hfresh.offset_eq hserves hp hturn, Nat.le_add_left _ _⟩, nonempty := ?_,
             closed := hclosed }
    rw [pending_fetched hp]
    intro b hb
    rcases List.mem_append.mp hb with hb | hb
    · exact hfresh.nonempty b hb
    · rw [List.mem_singleton.mp hb]
      exact (page_of_turn hserves hturn).1
  | stopped hp hturn =>
    refine { producing := ⟨0, trivial⟩, nonempty := ?_, closed := hclosed }
    rw [pending_stopped hp]
    exact hfresh.nonempty
  | sent hp _ _ =>
    obtain ⟨n, hat⟩ := hfresh.producing
    rw [hp] at hat
    refine { producing := ⟨n, hat.1, Or.inr hat.2⟩, nonempty := ?_, closed := hclosed }
    rw [pending_sent hp]
    exact hfresh.nonempty
  | dropped hp _ =>
    refine { producing := ⟨0, trivial⟩, nonempty := fun b hb => ?_, closed := hclosed }
    refine hfresh.nonempty b ?_
    rw [Stream.pending, Producing.held, List.append_nil] at hb
    exact List.mem_append_left _ hb
  | received hc hqueue =>
    refine { producing := hfresh.producing, nonempty := ?_, closed := hclosed }
    rw [pending_received hc hqueue]
    exact hfresh.nonempty
  | closed _ _ _ => exact { producing := hfresh.producing, nonempty := hrest, closed := hclosed }
  | processed hc _ =>
    refine { producing := hfresh.producing, nonempty := ?_, closed := hclosed }
    rw [pending_of_held_nil (held_afterProcessed _ _)]
    exact hrest
  | failed _ _ => exact { producing := hfresh.producing, nonempty := hrest, closed := hclosed }
  | saved _ => exact { producing := hfresh.producing, nonempty := hrest, closed := hclosed }
  | unsaved _ => exact { producing := hfresh.producing, nonempty := hrest, closed := hclosed }

theorem length_outlook : (s.outlook formats config slots).length =
    (s.reach formats config).length + (s.producing.rest slots).length := by
  rw [Stream.outlook, List.length_append, length_landing]

/-- No more is ahead behind a step than before it, and as much exactly if the condition holds. -/
def Keeps (formats : Formats F) (config : MigrationConfig) (slots : List (Option (VectorRecord F)))
    (s s' : Stream σ F) (condition : Prop) : Prop :=
  (s'.outlook formats config slots).length ≤ (s.outlook formats config slots).length ∧
    ((s'.outlook formats config slots).length = (s.outlook formats config slots).length ↔ condition)

/-- A fetch keeps what is ahead exactly if the page has all records of its slots. -/
theorem keeps_fetched {p next : Producer σ} {batch : VectorBatch F} (hfresh : Fresh config s)
    (hserves : Serves source slots) (hp : s.producing = .fetching p)
    (hturn : p.turn source config.batchSize = .batch batch next) :
    Keeps formats config slots s { s with producing := .sending batch next }
      (s.Kept source formats config slots .fetch) := by
  obtain ⟨-, hpart, -, -⟩ := page_of_turn hserves hturn
  have hoffset := hfresh.offset_eq hserves hp hturn
  have hsplit := restOf_eq slots p.offset config.batchSize
  have hfull : s.Kept source formats config slots .fetch ↔
      batch.records.length = (window slots p.offset config.batchSize).length := by
    rw [Stream.Kept, hp]
    exact fullPage_of_batch hturn
  have hle := hpart.length_le
  rw [Keeps, hfull, length_outlook, length_outlook, reach_fetched hp, hp, Producing.rest,
    Producing.rest, hoffset, hsplit, List.length_append, List.length_append, length_landing]
  omega

theorem keeps_stopped {p : Producer σ} {result : Except Error Unit}
    (hp : s.producing = .fetching p) (hturn : p.turn source config.batchSize = .stop result) :
    Keeps formats config slots s ({ s with producing := .finished result } : Stream σ F)
      (s.Kept source formats config slots .fetch) := by
  have hfull : s.Kept source formats config slots .fetch ↔ (restOf slots p.offset).length = 0 := by
    rw [Stream.Kept, hp]
    exact fullPage_of_stop hturn
  have hsame : ({ s with producing := .finished result } : Stream σ F).reach formats config =
      s.reach formats config := by
    rw [Stream.reach, Stream.reach, pending_stopped hp]
  rw [Keeps, hfull, length_outlook, length_outlook, hsame, hp, Producing.rest, Producing.rest,
    List.length_nil]
  omega

theorem keeps_of_eq {condition : Prop} (hreach : s'.reach formats config = s.reach formats config)
    (hrest : s'.producing.rest slots = s.producing.rest slots) (hholds : condition) :
    Keeps formats config slots s s' condition := by
  have hsame : s'.outlook formats config slots = s.outlook formats config slots := by
    rw [Stream.outlook, Stream.outlook, hreach, hrest]
  rw [Keeps, hsame]
  exact ⟨Nat.le_refl _, iff_of_true rfl hholds⟩

/-- A batch in hand that does not land is lost. -/
theorem keeps_lost {condition : Prop} {batch : VectorBatch F} (hfresh : Fresh config s)
    (hc : s.consuming = .processing batch) (hheld : s'.consuming.held = [])
    (hqueue : s'.queue = s.queue) (hp : s'.producing = s.producing) (hlanded : s'.landed = s.landed)
    (hnot : ¬ condition) : Keeps formats config slots s s' condition := by
  have hpos := List.length_pos_iff.mpr
    (hfresh.nonempty batch (by rw [pending_processing hc]; exact List.mem_cons_self))
  have hreach : s'.reach formats config =
      s.landed ++ landing formats config (sent (s.queue ++ s.producing.held)) := by
    rw [Stream.reach, pending_of_held_nil hheld, hqueue, hp, hlanded]
  rw [Keeps, length_outlook, length_outlook, hreach, reach_processing hc, hp, List.length_append,
    List.length_append, List.length_append, length_landing batch.records]
  exact ⟨by omega, iff_of_false (by omega) hnot⟩

/-- The steps that lose nothing are those that keep what is ahead, unless the receiver returns an
error. -/
theorem keeps_move {a : Action} (hserves : Serves source slots) (hfresh : Fresh config s)
    (hlive : ∀ e, s'.consuming ≠ .returned (.error e))
    (hmove : Stream.Move source formats config s a s') :
    Keeps formats config slots s s' (s.Kept source formats config slots a) := by
  cases hmove with
  | fetched hp hturn => exact keeps_fetched hfresh hserves hp hturn
  | stopped hp hturn => exact keeps_stopped hp hturn
  | sent hp _ _ =>
    exact keeps_of_eq (by rw [Stream.reach, Stream.reach, pending_sent hp]) (by rw [hp]; rfl) trivial
  | @dropped p batch result hp hc =>
    cases result with
    | error e => exact absurd hc (hlive e)
    | ok _ =>
      obtain ⟨-, result, hfinished⟩ := hfresh.closed hc
      exact absurd (hp.symm.trans hfinished) (by simp)
  | received hc hqueue =>
    exact keeps_of_eq (by rw [Stream.reach, Stream.reach, pending_received hc hqueue]) rfl trivial
  | closed hc _ _ =>
    exact keeps_of_eq (reach_idle (congrArg Consuming.held hc) rfl rfl rfl rfl) rfl trivial
  | @processed batch insert hc hok =>
    cases hdry : config.dryRun with
    | false =>
      refine keeps_of_eq (reach_processed hc hdry hok) rfl ?_
      rw [Stream.Kept, hc]
      exact ⟨hdry, hok⟩
    | true =>
      have hlanded : (s.afterProcessed batch (processBatch formats config batch insert)).landed =
          s.landed := landed_afterProcessed_dryRun hdry
      refine keeps_lost hfresh hc (held_afterProcessed batch _) rfl rfl hlanded fun hkept => ?_
      exact absurd ((kept_process hc hkept).1.symm.trans hdry) (by simp)
  | @failed batch insert e hc herror =>
    have hheld : (s.afterFailed batch
        (processBatch formats config batch insert)).consuming.held = [] := rfl
    refine keeps_lost hfresh hc hheld rfl rfl rfl fun hkept => ?_
    exact absurd (herror.symm.trans (kept_process hc hkept).2) (by simp)
  | @saved checkpoint hc =>
    exact keeps_of_eq (reach_idle (congrArg Consuming.held hc) rfl rfl rfl rfl) rfl trivial
  | unsaved _ => exact absurd rfl (hlive _)

/-- A run from the start of the source that returns has landed every record exactly if no step lost
one. -/
theorem Stream.landed_iff_kept (hserves : Serves source slots)
    {client : σ} {disk : Option Checkpoint} {actions : List Action}
    (hrun : actions.foldlM (Stream.step source formats config)
      (Stream.start config.batchSize client none disk) = some s)
    (hdone : s.consuming = .returned (.ok ())) :
    (landing formats config slots.reduceOption).Subperm s.landed ↔
      Along (Stream.step source formats config) (Stream.Kept source formats config slots)
        (Stream.start config.batchSize client none disk) actions := by
  have hstep : ∀ s a s', Fresh config s → s.step source formats config a = some s' →
      Fresh config s' := fun s a s' hfresh hs' =>
    fresh_move hserves hfresh (Stream.move_of_step hs')
  have hlive : ∀ e, s.consuming ≠ .returned (.error e) := by
    intro e he
    exact absurd (hdone.symm.trans he) (by simp)
  obtain ⟨hle, hiff⟩ := along_iff_load (g := Stream.step source formats config)
    (p := Stream.Kept source formats config slots)
    (R := fun s => ∀ e, s.consuming ≠ .returned (.error e)) hstep
    (fun s a s' hs' hlive e he => hlive e (returned_move he (Stream.move_of_step hs')))
    (fun s a s' hfresh hlive hs' => keeps_move hserves hfresh hlive (Stream.move_of_step hs'))
    (fresh_start client disk) hrun hlive
  have hfresh : Fresh config s := foldlM_keeps hstep (fresh_start client disk) hrun
  obtain ⟨hqueue, result, hp⟩ := hfresh.closed hdone
  have hbegin : (Stream.outlook formats config slots
      (Stream.start config.batchSize client none disk)).length = slots.reduceOption.length := by
    rw [length_outlook]
    exact Nat.zero_add _
  have hend : (s.outlook formats config slots).length = s.landed.length := by
    rw [length_outlook, Stream.reach, pending_of_held_nil (congrArg Consuming.held hdone), hqueue, hp]
    exact congrArg List.length (List.append_nil s.landed)
  rw [hbegin, hend] at hle hiff
  constructor
  · intro hall
    have hge := hall.length_le
    rw [length_landing] at hge
    exact hiff.mp (Nat.le_antisymm hle hge)
  · intro hkept
    have hall : (landing formats config slots.reduceOption).Subperm ([] ++ s.landed) :=
      Stream.landed_of_kept hserves (fun _ hnone => absurd hnone (by simp)) hrun hkept hdone
    exact hall

end outlook

/-! ## The execution -/

inductive MigrationStatus where
  | pending
  | running
  | paused
  | completed
  | failed
  | cancelled
  deriving DecidableEq, Repr

inductive Phase (σ F : Type) where
  | loading
  | connecting (checkpoint : Option Checkpoint)
  | counting (checkpoint : Option Checkpoint)
  | executing (s : Stream σ F)
  | ended (s : Option (Stream σ F))

structure Execution (σ F : Type) where
  status : MigrationStatus
  phase : Phase σ F

/-- The calls that are waited for, with what they answer, and the steps of `stream_migration`. -/
inductive Event where
  | load (read : Except Error Unit)
  | connect (created : Except Error Unit)
  | count (counted : Except Error Unit)
  | stream (a : Action)
  deriving DecidableEq, Repr

/-- The checkpoint that a migration goes on from, which is only read if it is to be resumed. -/
def resumedFrom (config : MigrationConfig) (disk : Option Checkpoint) : Option Checkpoint :=
  if config.resume then disk else none

namespace Execution

def start : Execution σ F := { status := .pending, phase := .loading }

/-- The status behind what `stream_migration` returned. -/
def statusOf : Except Error Unit → MigrationStatus
  | .ok () => .completed
  | .error _ => .failed

def follow (s : Stream σ F) : Execution σ F :=
  match s.consuming with
  | .returned result => { status := statusOf result, phase := .ended (some s) }
  | .receiving | .processing _ | .saving _ => { status := .running, phase := .executing s }

/-- Behind a call before `stream_migration`: an error ends the execution. -/
def proceed (answer : Except Error Unit) (phase : Phase σ F) : Execution σ F :=
  match answer with
  | .ok () => { status := .running, phase }
  | .error _ => { status := .failed, phase := .ended none }

variable (source : SourceClient σ F) (formats : Formats F) (config : MigrationConfig) (client : σ)
  (disk : Option Checkpoint)

def step (x : Execution σ F) (e : Event) : Option (Execution σ F) :=
  match x.phase, e with
  | .loading, .load read =>
    some (proceed (if config.resume then read else .ok ()) (.connecting (resumedFrom config disk)))
  | .connecting checkpoint, .connect created => some (proceed created (.counting checkpoint))
  | .counting checkpoint, .count counted =>
    some (proceed counted (.executing (Stream.start config.batchSize client checkpoint disk)))
  | .executing s, .stream a => (s.step source formats config a).map follow
  | _, _ => none

def landed (x : Execution σ F) : List (VectorRecord F) :=
  match x.phase with
  | .executing s | .ended (some s) => s.landed
  | .loading | .connecting _ | .counting _ | .ended none => []

/-- The steps of `stream_migration` lose nothing. -/
def Kept (slots : List (Option (VectorRecord F))) (x : Execution σ F) (e : Event) : Prop :=
  match x.phase, e with
  | .executing s, .stream a => s.Kept source formats config slots a
  | _, _ => True

instance decidableKept (slots : List (Option (VectorRecord F))) (x : Execution σ F) (e : Event) :
    Decidable (x.Kept source formats config slots e) :=
  match x, e with
  | { phase := .executing s, .. }, .stream a => Migration.decidableKept source formats config slots s a
  | { phase := .executing _, .. }, .load _ | { phase := .executing _, .. }, .connect _
  | { phase := .executing _, .. }, .count _ => isTrue trivial
  | { phase := .loading, .. }, _ | { phase := .connecting _, .. }, _
  | { phase := .counting _, .. }, _ | { phase := .ended _, .. }, _ => isTrue trivial

end Execution

section execution

variable {source : SourceClient σ F} {formats : Formats F} {config : MigrationConfig} {client : σ}
  {disk : Option Checkpoint} {slots : List (Option (VectorRecord F))}

theorem step_ended {s : Option (Stream σ F)} {status : MigrationStatus} {e : Event}
    {x : Execution σ F} :
    Execution.step source formats config client disk { status, phase := .ended s } e ≠ some x := by
  cases e <;> simp [Execution.step]

theorem follow_of_returned {s : Stream σ F} {result : Except Error Unit}
    (hc : s.consuming = .returned result) :
    Execution.follow s = { status := Execution.statusOf result, phase := .ended (some s) } := by
  rw [Execution.follow, hc]

theorem follow_of_not_returned {s : Stream σ F} (hlive : ∀ result, s.consuming ≠ .returned result) :
    Execution.follow s = { status := .running, phase := .executing s } := by
  cases hc : s.consuming with
  | returned result => exact absurd hc (hlive result)
  | receiving => rw [Execution.follow, hc]
  | processing batch => rw [Execution.follow, hc]
  | saving checkpoint => rw [Execution.follow, hc]

def Ran (source : SourceClient σ F) (formats : Formats F) (config : MigrationConfig) (client : σ)
    (disk : Option Checkpoint) (slots : List (Option (VectorRecord F))) (s₀ : Stream σ F)
    (x₀ x : Execution σ F) (events : List Event) : Prop :=
  ∃ actions s, actions.foldlM (Stream.step source formats config) s₀ = some s ∧
    s.consuming = .returned (.ok ()) ∧ x.landed = s.landed ∧
    (Along (Execution.step source formats config client disk)
        (Execution.Kept source formats config slots) x₀ events ↔
      Along (Stream.step source formats config) (Stream.Kept source formats config slots) s₀ actions)

/-- An execution that is completed ran `stream_migration` to its end without an error. -/
theorem executing_run {s₀ : Stream σ F} {events : List Event} {x : Execution σ F}
    (hrun : events.foldlM (Execution.step source formats config client disk)
      { status := .running, phase := .executing s₀ } = some x) (hdone : x.status = .completed) :
    Ran source formats config client disk slots s₀ { status := .running, phase := .executing s₀ } x
      events := by
  induction events generalizing s₀ with
  | nil =>
    rw [← Option.some.inj hrun] at hdone
    exact absurd hdone (by simp)
  | cons e events ih =>
    rw [List.foldlM_cons] at hrun
    obtain ⟨x₁, hfirst, hrest⟩ := Option.bind_eq_some_iff.mp hrun
    cases e with
    | load read => exact absurd hfirst (by simp [Execution.step])
    | connect created => exact absurd hfirst (by simp [Execution.step])
    | count counted => exact absurd hfirst (by simp [Execution.step])
    | stream a =>
      obtain ⟨s₁, hs₁, rfl⟩ := Option.map_eq_some_iff.mp hfirst
      by_cases hlive : ∀ result, s₁.consuming ≠ .returned result
      · have hgo := follow_of_not_returned hlive
        rw [hgo] at hrest hfirst
        obtain ⟨actions, s, hactions, hs, hlanded, halong⟩ := ih hrest
        refine ⟨a :: actions, s, ?_, hs, hlanded, ?_⟩
        · rw [List.foldlM_cons, hs₁]
          exact hactions
        · rw [along_cons hfirst, along_cons hs₁, halong]
          exact Iff.rfl
      · obtain ⟨result, hc⟩ := not_forall_not.mp hlive
        have hended := follow_of_returned hc
        cases events with
        | nil =>
          rw [← Option.some.inj hrest, hended] at hdone ⊢
          cases result with
          | error e => exact absurd hdone (by simp [Execution.statusOf])
          | ok u =>
            refine ⟨[a], s₁, ?_, hc, rfl, ?_⟩
            · rw [List.foldlM_cons, hs₁]
              rfl
            · rw [along_cons hfirst, along_cons hs₁]
              exact Iff.rfl
        | cons e events =>
          rw [List.foldlM_cons, hended] at hrest
          obtain ⟨x₂, hx₂, -⟩ := Option.bind_eq_some_iff.mp hrest
          exact absurd hx₂ step_ended

/-- An ended execution stays as it is. -/
theorem ended_run {s : Option (Stream σ F)} {status : MigrationStatus} {events : List Event}
    {x : Execution σ F}
    (hrun : events.foldlM (Execution.step source formats config client disk)
      { status, phase := .ended s } = some x) : x.status = status := by
  cases events with
  | nil => rw [← Option.some.inj hrun]
  | cons e events =>
    rw [List.foldlM_cons] at hrun
    obtain ⟨x₁, hx₁, -⟩ := Option.bind_eq_some_iff.mp hrun
    exact absurd hx₁ step_ended

/-- The calls before `stream_migration` did not fail where the execution is completed. -/
theorem proceed_run {answer : Except Error Unit} {phase : Phase σ F} {events : List Event}
    {x : Execution σ F}
    (hrun : events.foldlM (Execution.step source formats config client disk)
      (.proceed answer phase) = some x) (hdone : x.status = .completed) :
    Execution.proceed answer phase = { status := .running, phase } := by
  cases answer with
  | error e =>
    have hfailed := ended_run hrun
    exact absurd (hdone.symm.trans hfailed) (by simp)
  | ok u => rfl

/-- A call before `stream_migration` loses nothing. -/
theorem Ran.cons {s₀ : Stream σ F} {x₀ x₁ x : Execution σ F} {e : Event} {events : List Event}
    (hfirst : x₀.step source formats config client disk e = some x₁)
    (hkept : x₀.Kept source formats config slots e)
    (hran : Ran source formats config client disk slots s₀ x₁ x events) :
    Ran source formats config client disk slots s₀ x₀ x (e :: events) := by
  obtain ⟨actions, s, hactions, hs, hlanded, halong⟩ := hran
  refine ⟨actions, s, hactions, hs, hlanded, ?_⟩
  rw [along_cons hfirst, halong]
  exact and_iff_right hkept

theorem call_run {s₀ : Stream σ F} {x₀ x : Execution σ F} {phase : Phase σ F} {events : List Event}
    (hstatus : x₀.status ≠ .completed)
    (hcall : ∀ e x₁, x₀.step source formats config client disk e = some x₁ →
      x₀.Kept source formats config slots e ∧ ∃ answer, x₁ = .proceed answer phase)
    (hnext : ∀ rest : List Event,
      rest.foldlM (Execution.step source formats config client disk)
        { status := .running, phase } = some x →
      Ran source formats config client disk slots s₀ { status := .running, phase } x rest)
    (hrun : events.foldlM (Execution.step source formats config client disk) x₀ = some x)
    (hdone : x.status = .completed) :
    Ran source formats config client disk slots s₀ x₀ x events := by
  cases events with
  | nil =>
    rw [← Option.some.inj hrun] at hdone
    exact absurd hdone hstatus
  | cons e events =>
    rw [List.foldlM_cons] at hrun
    obtain ⟨x₁, hfirst, hrest⟩ := Option.bind_eq_some_iff.mp hrun
    obtain ⟨hkept, answer, rfl⟩ := hcall e x₁ hfirst
    have hgo := proceed_run hrest hdone
    rw [hgo] at hrest hfirst
    exact (hnext events hrest).cons hfirst hkept

theorem counting_run {checkpoint : Option Checkpoint} {events : List Event} {x : Execution σ F}
    (hrun : events.foldlM (Execution.step source formats config client disk)
      { status := .running, phase := .counting checkpoint } = some x)
    (hdone : x.status = .completed) :
    Ran source formats config client disk slots (Stream.start config.batchSize client checkpoint disk)
      { status := .running, phase := .counting checkpoint } x events := by
  refine call_run (by simp) (fun e x₁ hstep => ?_) (fun _ hrest => executing_run hrest hdone) hrun hdone
  cases e with
  | count counted => exact ⟨trivial, counted, (Option.some.inj hstep).symm⟩
  | load read => exact absurd hstep (by simp [Execution.step])
  | connect created => exact absurd hstep (by simp [Execution.step])
  | stream a => exact absurd hstep (by simp [Execution.step])

theorem connecting_run {checkpoint : Option Checkpoint} {events : List Event} {x : Execution σ F}
    (hrun : events.foldlM (Execution.step source formats config client disk)
      { status := .running, phase := .connecting checkpoint } = some x)
    (hdone : x.status = .completed) :
    Ran source formats config client disk slots (Stream.start config.batchSize client checkpoint disk)
      { status := .running, phase := .connecting checkpoint } x events := by
  refine call_run (by simp) (fun e x₁ hstep => ?_) (fun _ hrest => counting_run hrest hdone) hrun hdone
  cases e with
  | connect created => exact ⟨trivial, created, (Option.some.inj hstep).symm⟩
  | load read => exact absurd hstep (by simp [Execution.step])
  | count counted => exact absurd hstep (by simp [Execution.step])
  | stream a => exact absurd hstep (by simp [Execution.step])

theorem completed_run {events : List Event} {x : Execution σ F}
    (hrun : events.foldlM (Execution.step source formats config client disk) .start = some x)
    (hdone : x.status = .completed) :
    Ran source formats config client disk slots
      (Stream.start config.batchSize client (resumedFrom config disk) disk) .start x events := by
  refine call_run (by simp [Execution.start]) (fun e x₁ hstep => ?_)
    (fun _ hrest => connecting_run hrest hdone) hrun hdone
  cases e with
  | load read => exact ⟨trivial, _, (Option.some.inj hstep).symm⟩
  | connect created => exact absurd hstep (by simp [Execution.start, Execution.step])
  | count counted => exact absurd hstep (by simp [Execution.start, Execution.step])
  | stream a => exact absurd hstep (by simp [Execution.start, Execution.step])

/-- A migration that is completed has inserted every record, if it began at the start of the source
exactly if no step lost one. -/
theorem Execution.completed_iff (hserves : Serves source slots) {events : List Event}
    {x : Execution σ F}
    (hrun : events.foldlM (Execution.step source formats config client disk) .start = some x)
    (hdone : x.status = .completed) :
    (resumedFrom config disk = none →
      ((landing formats config slots.reduceOption).Subperm x.landed ↔
        Along (Execution.step source formats config client disk)
          (Execution.Kept source formats config slots) .start events)) ∧
    (∀ earlier, (∀ checkpoint, resumedFrom config disk = some checkpoint →
        (landing formats config (slots.take checkpoint.offset).reduceOption).Subperm earlier) →
      Along (Execution.step source formats config client disk)
        (Execution.Kept source formats config slots) .start events →
      (landing formats config slots.reduceOption).Subperm (earlier ++ x.landed)) := by
  obtain ⟨actions, s, hactions, hs, hlanded, halong⟩ := completed_run hrun hdone
  rw [hlanded, halong]
  constructor
  · intro hfresh
    rw [hfresh] at hactions ⊢
    exact Stream.landed_iff_kept hserves hactions hs
  · intro earlier hbefore hkept
    exact Stream.landed_of_kept hserves hbefore hactions hkept hs

end execution

/-- The calls before `stream_migration` succeed. -/
def setUp : List Event := [.load (.ok ()), .connect (.ok ()), .count (.ok ())]

/-- Two batches that are inserted. -/
theorem completed_twoBatches :
    ∃ x, (setUp ++ (oneBatch ++ oneBatch ++ atEnd).map Event.stream).foldlM
        (Execution.step (fixedSource sampleRecords) sampleFormats sampleConfig () none) .start =
          some x ∧
      x.status = .completed ∧
      (landing sampleFormats sampleConfig sampleRecords).Subperm x.landed := by
  have hkept : Along (Execution.step (fixedSource sampleRecords) sampleFormats sampleConfig () none)
      (Execution.Kept (fixedSource sampleRecords) sampleFormats sampleConfig (sampleRecords.map some))
      .start (setUp ++ (oneBatch ++ oneBatch ++ atEnd).map Event.stream) := by decide
  exact ⟨_, rfl, rfl,
    ((Execution.completed_iff (fixedSource_serves (by decide)).serves rfl rfl).1 rfl).mpr hkept⟩

/-- A source whose two records cannot be fetched. -/
def brokenSource : SourceClient Unit Unit where
  fetchBatch := fun client _ _ => (.error (.network "Failed to fetch batch"), client)

theorem brokenSource_serves : Serves brokenSource (sampleRecords.map some) where
  page := by
    intro client offset limit page next hfetch
    exact absurd (congrArg Prod.fst hfetch) (by simp [brokenSource])
  fits := by decide

/-- The error ends the producer, and the migration is completed with nothing inserted. -/
theorem not_completed_broken :
    Serves brokenSource (sampleRecords.map some) ∧
      ∃ x, (setUp ++ atEnd.map Event.stream).foldlM
          (Execution.step brokenSource sampleFormats sampleConfig () none) .start = some x ∧
        x.status = .completed ∧
        ¬ (landing sampleFormats sampleConfig sampleRecords).Subperm x.landed := by
  refine ⟨brokenSource_serves, _, rfl, rfl, fun hall => ?_⟩
  exact absurd hall.length_le (by decide)

end Migration
end RTDB
