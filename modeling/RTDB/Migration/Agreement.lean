import RTDB.Migration.Resume
import RTDB.Migration.Standstill

/-!
# What the strategies migrate

The records that `stream_migration` passes to `insert_batch`, and those that the dual-write,
blue-green and snapshot strategies pass to it through `execute_streaming`.
-/

namespace RTDB
namespace Migration

open Storage

variable {σ F : Type}

/-! ## The batches of a source -/

namespace Producer

/-- Every fetch of the loop brings all records of its slots, up to an end where none are left. -/
inductive WholePages (source : SourceClient σ F) (slots : List (Option (VectorRecord F)))
    (batchSize : Nat) : Producer σ → Prop where
  | stop {p : Producer σ} {result : Except Error Unit}
      (hturn : p.turn source batchSize = .stop result)
      (hfull : FullPage slots batchSize p.offset
        (source.fetchBatch p.client p.offset batchSize).1) :
      WholePages source slots batchSize p
  | batch {p next : Producer σ} {batch : VectorBatch F}
      (hturn : p.turn source batchSize = .batch batch next)
      (hfull : FullPage slots batchSize p.offset
        (source.fetchBatch p.client p.offset batchSize).1)
      (hrest : WholePages source slots batchSize next) :
      WholePages source slots batchSize p

section batches

variable {source : SourceClient σ F} {slots : List (Option (VectorRecord F))} {batchSize : Nat}
  {p next : Producer σ} {batch : VectorBatch F}

/-- The loop over a source of slots comes to an end. -/
theorem exists_extracts (hserves : Serves source slots) (hbatch : batchSize < 2 ^ 64)
    (hsteady : p.Steady batchSize) :
    ∃ batches result, p.Extracts source batchSize batches result := by
  induction hsize : slots.length - p.offset using Nat.strongRecOn generalizing p with
  | ind n ih =>
    cases hturn : p.turn source batchSize with
    | stop r => exact ⟨[], r, (extracts_of_stop hturn).mpr ⟨rfl, rfl⟩⟩
    | batch batch next =>
      obtain ⟨hne, hpart, hinside, -⟩ := page_of_turn hserves hturn
      obtain ⟨hoffset, hnext⟩ := hsteady.turn hserves hbatch hturn
      have hpos : 0 < batchSize := by
        by_contra hzero
        rw [Nat.eq_zero_of_not_pos hzero] at hpart
        exact hne (List.sublist_nil.mp hpart)
      obtain ⟨batches, result, hrest⟩ := ih (slots.length - next.offset) (by omega) hnext rfl
      exact ⟨batch :: batches, result, (extracts_of_batch hturn).mpr ⟨batches, rfl, hrest⟩⟩

/-- What is sent is a part of the records that are left, and all of them exactly if the pages are
whole. -/
theorem sent_of_extracts (hserves : Serves source slots) (hbatch : batchSize < 2 ^ 64)
    {batches : List (VectorBatch F)} {result : Except Error Unit} (hsteady : p.Steady batchSize)
    (hextracts : p.Extracts source batchSize batches result) :
    (sent batches).Sublist (restOf slots p.offset) ∧
      (sent batches = restOf slots p.offset ↔ p.WholePages source slots batchSize) := by
  induction batches generalizing p with
  | nil =>
    refine ⟨List.nil_sublist _, ?_⟩
    cases hturn : p.turn source batchSize with
    | batch batch next =>
      obtain ⟨rest, heq, -⟩ := (extracts_of_batch hturn).mp hextracts
      exact absurd heq (by simp)
    | stop r =>
      constructor
      · intro hnone
        refine .stop hturn ((fullPage_of_stop hturn).mpr ?_)
        rw [← hnone]
        rfl
      · intro hwhole
        cases hwhole with
        | stop _ hpage =>
          exact (List.length_eq_zero_iff.mp ((fullPage_of_stop hturn).mp hpage)).symm
        | batch hgoes _ _ => exact absurd (hturn.symm.trans hgoes) (by simp)
  | cons first batches ih =>
    cases hturn : p.turn source batchSize with
    | stop r =>
      obtain ⟨heq, -⟩ := (extracts_of_stop hturn).mp hextracts
      exact absurd heq (by simp)
    | batch batch next =>
      obtain ⟨rest, heq, hrest⟩ := (extracts_of_batch hturn).mp hextracts
      obtain ⟨rfl, rfl⟩ := List.cons.inj heq
      obtain ⟨-, hpart, -, -⟩ := page_of_turn hserves hturn
      obtain ⟨hoffset, hnext⟩ := hsteady.turn hserves hbatch hturn
      obtain ⟨hsub, hiff⟩ := ih hnext hrest
      have hsent : sent (first :: batches) = first.records ++ sent batches := List.flatMap_cons
      rw [hoffset] at hsub hiff
      rw [hsent, restOf_eq slots p.offset batchSize]
      refine ⟨hpart.append hsub, ?_⟩
      constructor
      · intro hall
        have hlength := congrArg List.length hall
        rw [List.length_append, List.length_append] at hlength
        have hle := hpart.length_le
        have hle' := hsub.length_le
        exact .batch hturn ((fullPage_of_batch hturn).mpr (by omega))
          (hiff.mp (hsub.eq_of_length (by omega)))
      · intro hwhole
        cases hwhole with
        | stop hstops _ => exact absurd (hturn.symm.trans hstops) (by simp)
        | batch hgoes hpage hrest' =>
          obtain ⟨rfl, rfl⟩ := Turn.batch.inj (hturn.symm.trans hgoes)
          rw [hpart.eq_of_length ((fullPage_of_batch hturn).mp hpage), hiff.mpr hrest']

end batches

end Producer

/-! ## What a batch passes on -/

section parts

variable {formats : Formats F} {config : MigrationConfig} {batch : VectorBatch F}
  {batches : List (VectorBatch F)}

/-- The records of a batch that `process_batch` passes to `insert_batch`. -/
def streamPart (formats : Formats F) (config : MigrationConfig) (batch : VectorBatch F) :
    List (VectorRecord F) :=
  (processBatch formats config batch (.ok ())).inserted.getD []

def strategyPart (config : MigrationConfig) (batch : VectorBatch F) : List (VectorRecord F) :=
  (insertsStreaming config batch).flatten

theorem streamPart_of_allValid (hdry : config.dryRun = false)
    (hvalid : AllValid formats config batch.records) :
    streamPart formats config batch = landing formats config batch.records := by
  rw [streamPart, processBatch_of_allValid hdry hvalid]
  rfl

theorem streamPart_of_not_allValid (hdry : config.dryRun = false)
    (hinvalid : ¬ AllValid formats config batch.records) : streamPart formats config batch = [] := by
  have hfails : ∃ e, processBatch formats config batch (.ok ()) =
      { result := .error e, inserted := none } := processBatch_of_not_allValid hdry hinvalid
  obtain ⟨e, he⟩ := hfails
  rw [streamPart, he]
  rfl

theorem streamPart_dryRun (hdry : config.dryRun = true) : streamPart formats config batch = [] := by
  rw [streamPart, processBatch_dryRun hdry]
  rfl

/-- What is passed on does not depend on the answer. -/
theorem inserted_getD (batch : VectorBatch F) (insert : Except Error Unit) :
    (processBatch formats config batch insert).inserted.getD [] = streamPart formats config batch := by
  cases hdry : config.dryRun with
  | true => rw [streamPart_dryRun hdry, processBatch_dryRun hdry, Option.getD_none]
  | false =>
    by_cases hvalid : AllValid formats config batch.records
    · rw [streamPart_of_allValid hdry hvalid, processBatch_of_allValid hdry hvalid, Option.getD_some]
      rfl
    · have hfails : ∃ e, processBatch formats config batch insert =
          { result := .error e, inserted := none } := processBatch_of_not_allValid hdry hvalid
      obtain ⟨e, he⟩ := hfails
      rw [streamPart_of_not_allValid hdry hvalid, he, Option.getD_none]

theorem length_streamPart_le (formats : Formats F) (batch : VectorBatch F)
    (hdry : config.dryRun = false) :
    (streamPart formats config batch).length ≤ batch.records.length := by
  by_cases hvalid : AllValid formats config batch.records
  · rw [streamPart_of_allValid hdry hvalid, length_landing]
  · rw [streamPart_of_not_allValid hdry hvalid]
    exact Nat.zero_le _

theorem sent_cons (batch : VectorBatch F) (batches : List (VectorBatch F)) :
    sent (batch :: batches) = batch.records ++ sent batches := List.flatMap_cons

theorem length_parts_le (formats : Formats F) (batches : List (VectorBatch F))
    (hdry : config.dryRun = false) :
    (batches.flatMap (streamPart formats config)).length ≤ (sent batches).length := by
  induction batches with
  | nil => exact Nat.le_refl _
  | cons batch batches ih =>
    have hfirst := length_streamPart_le formats batch hdry
    rw [List.flatMap_cons, sent_cons, List.length_append, List.length_append]
    omega

theorem parts_of_allValid (hdry : config.dryRun = false)
    (hvalid : AllValid formats config (sent batches)) :
    batches.flatMap (streamPart formats config) = landing formats config (sent batches) := by
  induction batches with
  | nil => rfl
  | cons batch batches ih =>
    rw [sent_cons] at hvalid ⊢
    obtain ⟨hfirst, hrest⟩ := List.forall_mem_append.mp hvalid
    rw [List.flatMap_cons, streamPart_of_allValid hdry hfirst, ih hrest, landing_append]

/-- Nothing is missing only where every record is valid. -/
theorem allValid_of_length_le (hdry : config.dryRun = false)
    (hall : (sent batches).length ≤ (batches.flatMap (streamPart formats config)).length) :
    AllValid formats config (sent batches) := by
  induction batches with
  | nil => exact fun record hmem => absurd hmem List.not_mem_nil
  | cons batch batches ih =>
    have hfirst := length_streamPart_le formats batch hdry
    have hrest := length_parts_le formats batches hdry
    rw [List.flatMap_cons, sent_cons, List.length_append, List.length_append] at hall
    have hvalid : AllValid formats config batch.records := by
      by_contra hinvalid
      rw [streamPart_of_not_allValid hdry hinvalid, List.length_nil] at hall
      have hempty : batch.records = [] := List.length_eq_zero_iff.mp (by omega)
      rw [hempty] at hinvalid
      exact hinvalid fun record hmem => absurd hmem List.not_mem_nil
    rw [sent_cons]
    exact List.forall_mem_append.mpr ⟨hvalid, ih (by omega)⟩

theorem strategyParts_eq (hdry : config.dryRun = false) :
    batches.flatMap (strategyPart config) = sent batches := by
  have hpart : strategyPart (F := F) config = VectorBatch.records := by
    funext batch
    rw [strategyPart, insertsStreaming, if_neg (Bool.eq_false_iff.mp hdry)]
    exact List.append_nil _
  rw [hpart, sent]

theorem parts_dryRun (hdry : config.dryRun = true) :
    batches.flatMap (streamPart formats config) = [] :=
  List.flatMap_eq_nil_iff.mpr fun _ _ => streamPart_dryRun hdry

theorem strategyParts_dryRun (hdry : config.dryRun = true) :
    batches.flatMap (strategyPart config) = [] := by
  rw [List.flatMap_eq_nil_iff]
  intro batch _
  rw [strategyPart, insertsStreaming, if_pos hdry]
  rfl

end parts

/-! ## The two pipelines -/

section passes

variable {source : SourceClient σ F} {formats : Formats F} {config : MigrationConfig}
  {batches : List (VectorBatch F)}

/-- What was passed on, what is on its way and what is still to be fetched are the batches in order. -/
def Stream.Passes (source : SourceClient σ F) (formats : Formats F) (config : MigrationConfig)
    (batches : List (VectorBatch F)) (s : Stream σ F) : Prop :=
  ∃ rest, s.producing.Left source config.batchSize rest ∧
    s.inserts.flatten ++ (s.pending ++ rest).flatMap (streamPart formats config) =
      batches.flatMap (streamPart formats config)

section stream

variable {s s' : Stream σ F}

/-- A step that passes nothing on, and takes no batch from those on their way. -/
theorem Stream.Passes.same (hpasses : s.Passes source formats config batches)
    (hpending : s'.pending = s.pending) (hinserts : s'.inserts = s.inserts)
    (hleft : ∀ rest, s.producing.Left source config.batchSize rest →
      s'.producing.Left source config.batchSize rest) :
    s'.Passes source formats config batches := by
  obtain ⟨rest, hrest, hall⟩ := hpasses
  refine ⟨rest, hleft rest hrest, ?_⟩
  rw [hpending, hinserts]
  exact hall

theorem Stream.Passes.worked {batch : VectorBatch F} (insert : Except Error Unit)
    (hpasses : s.Passes source formats config batches) (hc : s.consuming = .processing batch)
    (hheld : s'.consuming.held = []) (hqueue : s'.queue = s.queue) (hp : s'.producing = s.producing)
    (hinserts : s'.inserts =
      s.inserts ++ (processBatch formats config batch insert).inserted.toList) :
    s'.Passes source formats config batches := by
  obtain ⟨rest, hrest, hall⟩ := hpasses
  have hflatten : s'.inserts.flatten = s.inserts.flatten ++ streamPart formats config batch := by
    rw [hinserts, ← inserted_getD batch insert, List.flatten_append]
    cases (processBatch formats config batch insert).inserted with
    | none => rfl
    | some records => simp
  rw [pending_processing hc, List.cons_append, List.flatMap_cons] at hall
  refine ⟨rest, ?_, ?_⟩
  · rw [hp]
    exact hrest
  · rw [hflatten, pending_of_held_nil hheld, hqueue, hp, List.append_assoc]
    exact hall

theorem Stream.passes_start {client : σ} {disk : Option Checkpoint} {result : Except Error Unit}
    (hextracts : (Producer.start config.batchSize client none).Extracts source config.batchSize
      batches result) :
    (Stream.start config.batchSize client none disk).Passes source formats config batches :=
  ⟨batches, ⟨result, hextracts⟩, rfl⟩

theorem Stream.passes_move {a : Action} (hclosed : s.Closed)
    (hlive : ∀ e, s'.consuming ≠ .returned (.error e))
    (hpasses : s.Passes source formats config batches)
    (hmove : Stream.Move source formats config s a s') :
    s'.Passes source formats config batches := by
  cases hmove with
  | @fetched p next batch hp hturn =>
    obtain ⟨rest, hrest, hall⟩ := hpasses
    rw [hp] at hrest
    obtain ⟨rest', rfl, hrest'⟩ := hrest.fetched hturn
    refine ⟨rest', hrest', ?_⟩
    rw [pending_fetched hp, List.append_assoc]
    exact hall
  | stopped hp hturn =>
    refine hpasses.same (pending_stopped hp) rfl fun rest hrest => ?_
    rw [hp] at hrest
    exact hrest.stopped hturn
  | sent hp _ _ =>
    refine hpasses.same (pending_sent hp) rfl fun rest hrest => ?_
    rw [hp] at hrest
    exact hrest
  | @dropped next batch result hp hc =>
    cases result with
    | error e => exact absurd hc (hlive e)
    | ok _ =>
      obtain ⟨-, result, hfinished⟩ := hclosed hc
      exact absurd (hp.symm.trans hfinished) (by simp)
  | received hc hqueue => exact hpasses.same (pending_received hc hqueue) rfl fun _ hrest => hrest
  | closed hc _ _ =>
    refine hpasses.same ?_ rfl fun _ hrest => hrest
    exact pending_idle (congrArg Consuming.held hc) rfl rfl rfl
  | @processed batch insert hc _ =>
    exact hpasses.worked insert hc (held_afterProcessed batch _) rfl rfl rfl
  | @failed batch insert e hc _ => exact hpasses.worked insert hc rfl rfl rfl rfl
  | saved hc =>
    refine hpasses.same ?_ rfl fun _ hrest => hrest
    exact pending_idle (congrArg Consuming.held hc) rfl rfl rfl
  | unsaved _ => exact absurd rfl (hlive _)

/-- A run of `stream_migration` that returns has passed on what the batches do. -/
theorem Stream.inserts_of_returned {client : σ} {disk : Option Checkpoint}
    {result : Except Error Unit} {actions : List Action}
    (hextracts : (Producer.start config.batchSize client none).Extracts source config.batchSize
      batches result)
    (hrun : actions.foldlM (Stream.step source formats config)
      (Stream.start config.batchSize client none disk) = some s)
    (hdone : s.consuming = .returned (.ok ())) :
    s.inserts.flatten = batches.flatMap (streamPart formats config) := by
  obtain ⟨hclosed, rest, hrest, hpasses⟩ := Stream.invariant_of_returned
    (fun _ _ _ hclosed hlive hs _ hmove => passes_move hclosed hlive hs hmove)
    (passes_start hextracts) (Runs.along_true _ _) hrun hdone
  obtain ⟨hqueue, result', hp⟩ := hclosed hdone
  rw [hp] at hrest
  obtain rfl : rest = [] := hrest
  rw [pending_of_held_nil (congrArg Consuming.held hdone), hqueue, hp] at hpasses
  rw [← hpasses]
  exact (List.append_nil _).symm

end stream

section executor

variable {s s' : Executor σ F} {w : Work}

/-- The batches that were fetched and not passed on. -/
def Executor.pending (s : Executor σ F) : List (VectorBatch F) :=
  s.tasks.flatMap Task.batches ++ s.executing.held ++ s.queue ++ s.producing.held

/-- What was passed on, what is on its way and what is still to be fetched are the batches in some
order. -/
def Executor.Passes (source : SourceClient σ F) (config : MigrationConfig)
    (batches : List (VectorBatch F)) (s : Executor σ F) : Prop :=
  ∃ rest, s.producing.Left source config.batchSize rest ∧
    (s.inserts.flatten ++ (s.pending ++ rest).flatMap (strategyPart config)).Perm
      (batches.flatMap (strategyPart config))

theorem Executor.Passes.same (hpasses : s.Passes source config batches)
    (hpending : s'.pending = s.pending) (hinserts : s'.inserts = s.inserts)
    (hleft : ∀ rest, s.producing.Left source config.batchSize rest →
      s'.producing.Left source config.batchSize rest) :
    s'.Passes source config batches := by
  obtain ⟨rest, hrest, hall⟩ := hpasses
  refine ⟨rest, hleft rest hrest, ?_⟩
  rw [hpending, hinserts]
  exact hall

/-- Behind `insert_batch` a task has no batch. -/
theorem batches_processBatchStreaming (batch : VectorBatch F) (outcome : Outcome Unit) :
    (processBatchStreaming config batch outcome).batches = [] := by
  unfold processBatchStreaming
  split
  · rfl
  · split
    · split <;> rfl
    · rfl
    · rfl

theorem flatMap_batches_split (before after : List (Task F)) {task : Task F}
    (htask : task.batches = []) :
    (before ++ task :: after).flatMap Task.batches = (before ++ after).flatMap Task.batches := by
  rw [List.flatMap_append, List.flatMap_append, List.flatMap_cons, htask, List.nil_append]

theorem Executor.pending_inserted {before after : List (Task F)} {batch : VectorBatch F}
    {task : Task F} (permits : Nat) (inserts : List (List (VectorRecord F)))
    (htasks : s.tasks = before ++ .inserting batch :: after) (htask : task.batches = []) :
    s.pending.Perm
      (batch :: ({ s with
        tasks := before ++ task :: after
        permits
        inserts } : Executor σ F).pending) := by
  have hpending : s.pending = before.flatMap Task.batches ++ batch ::
      (after.flatMap Task.batches ++ (s.executing.held ++ (s.queue ++ s.producing.held))) := by
    rw [Executor.pending, htasks, List.flatMap_append, List.flatMap_cons]
    simp only [Task.batches, List.append_assoc, List.cons_append, List.nil_append]
  rw [hpending]
  refine List.perm_middle.trans (List.Perm.of_eq ?_)
  rw [Executor.pending, flatMap_batches_split before after htask, List.flatMap_append]
  simp only [List.append_assoc]

theorem Executor.Passes.inserted {before after : List (Task F)} {batch : VectorBatch F}
    {task : Task F} (hpasses : s.Passes source config batches)
    (htasks : s.tasks = before ++ .inserting batch :: after) (htask : task.batches = []) :
    ({ s with
      tasks := before ++ task :: after
      permits := s.permits + task.released
      inserts := s.inserts ++ insertsStreaming config batch } : Executor σ F).Passes source config
        batches := by
  obtain ⟨rest, hrest, hall⟩ := hpasses
  refine ⟨rest, hrest, List.Perm.trans ?_ hall⟩
  have hpending := (pending_inserted (s.permits + task.released)
    (s.inserts ++ insertsStreaming config batch) htasks htask).append_right rest
  show ((s.inserts ++ insertsStreaming config batch).flatten ++ _).Perm _
  rw [List.flatten_append, List.append_assoc]
  refine List.Perm.append_left _ ?_
  exact (hpending.flatMap_right (strategyPart config)).symm

theorem Executor.passes_start {client : σ} {disk : Option Checkpoint}
    {inserts : List (List (VectorRecord F))} {result : Except Error Unit}
    (hnone : inserts.flatten = [])
    (hextracts : (Producer.start config.batchSize client none).Extracts source config.batchSize
      batches result) :
    (Executor.start config client none disk inserts).Passes source config batches := by
  refine ⟨batches, ⟨result, hextracts⟩, ?_⟩
  show (inserts.flatten ++ batches.flatMap (strategyPart config)).Perm _
  rw [hnone, List.nil_append]

theorem Executor.pending_fetched {p next : Producer σ} {batch : VectorBatch F}
    (hp : s.producing = .fetching p) :
    ({ s with producing := .sending batch next } : Executor σ F).pending = s.pending ++ [batch] := by
  rw [Executor.pending, Executor.pending, hp, Producing.held, Producing.held, List.append_nil]

theorem Executor.pending_stopped {p : Producer σ} {result : Except Error Unit}
    (hp : s.producing = .fetching p) :
    ({ s with producing := .finished result } : Executor σ F).pending = s.pending := by
  rw [Executor.pending, Executor.pending, hp]
  rfl

theorem Executor.pending_sent {next : Producer σ} {batch : VectorBatch F}
    (hp : s.producing = .sending batch next) :
    ({ s with producing := .fetching next, queue := s.queue ++ [batch] } : Executor σ F).pending =
      s.pending := by
  simp only [Executor.pending, hp, Producing.held, List.append_nil, List.append_assoc]

theorem Executor.pending_received {batch : VectorBatch F} {rest : List (VectorBatch F)}
    (hexec : s.executing = .receiving) (hqueue : s.queue = batch :: rest) :
    ({ s with queue := rest, executing := .acquiring batch } : Executor σ F).pending = s.pending := by
  simp only [Executor.pending, hexec, hqueue, Executing.held, List.append_assoc, List.cons_append,
    List.nil_append, List.append_nil]

theorem Executor.pending_acquired {batch : VectorBatch F} {next : Executing F}
    (hexec : s.executing = .acquiring batch) (hheld : next.held = []) (permits : Nat) :
    ({ s with
      permits
      tasks := s.tasks ++ [.inserting batch]
      executing := next } : Executor σ F).pending = s.pending := by
  rw [Executor.pending, Executor.pending, hexec, hheld, List.flatMap_append, List.append_nil]
  rfl

theorem Executor.pending_selected {before after : List (Task F)} {outcome : Outcome BatchResult}
    (hexec : s.executing = .selecting) (htasks : s.tasks = before ++ .done outcome :: after) :
    ({ s with tasks := before ++ after, executing := .receiving }.counted outcome :
      Executor σ F).pending = s.pending := by
  have hdone : (Task.done outcome : Task F).batches = [] := rfl
  rw [Executor.pending, Executor.pending, hexec, htasks, flatMap_batches_split before after hdone]
  rfl

theorem Executor.pending_saved {before after : List (Task F)} {result : BatchResult}
    {checkpoint : Checkpoint} (outcome : Outcome BatchResult) (permits : Nat)
    (disk : Option Checkpoint) (htasks : s.tasks = before ++ .saving result checkpoint :: after) :
    ({ s with
      tasks := before ++ .done outcome :: after
      permits
      checkpoint := disk } : Executor σ F).pending = s.pending := by
  have hsaving : (Task.saving result checkpoint : Task F).batches = [] := rfl
  have hdone : (Task.done outcome : Task F).batches = [] := rfl
  rw [Executor.pending, Executor.pending, htasks, flatMap_batches_split before after hsaving,
    flatMap_batches_split before after hdone]

theorem Executor.passes_move (hmanned : s.Manned config)
    (hpasses : s.Passes source config batches) (hmove : Executor.Move source config s w s') :
    s'.Passes source config batches := by
  have hlistening := hmanned.listening
  cases hmove with
  | fetched hp hturn =>
    obtain ⟨rest, hrest, hall⟩ := hpasses
    rw [hp] at hrest
    obtain ⟨rest', rfl, hrest'⟩ := hrest.fetched hturn
    refine ⟨rest', hrest', ?_⟩
    rw [pending_fetched hp, List.append_assoc]
    exact hall
  | stopped hp hturn =>
    refine hpasses.same (pending_stopped hp) rfl fun rest hrest => ?_
    rw [hp] at hrest
    exact hrest.stopped hturn
  | sent hp _ _ =>
    refine hpasses.same (pending_sent hp) rfl fun rest hrest => ?_
    rw [hp] at hrest
    exact hrest
  | dropped _ hexec =>
    rw [hexec] at hlistening
    exact hlistening.elim
  | received hexec hqueue =>
    exact hpasses.same (pending_received hexec hqueue) rfl fun _ hrest => hrest
  | closed _ _ hsenders => exact absurd hsenders hmanned.senders_ne_zero
  | @acquired batch next hexec _ hnext =>
    have hheld : next.held = [] := by
      rw [hnext]
      split <;> rfl
    exact hpasses.same (pending_acquired hexec hheld _) rfl fun _ hrest => hrest
  | selected hexec htasks =>
    exact hpasses.same (pending_selected hexec htasks) rfl fun _ hrest => hrest
  | joined hexec _ =>
    rw [hexec] at hlistening
    exact hlistening.elim
  | returned hexec _ _ =>
    rw [hexec] at hlistening
    exact hlistening.elim
  | @inserted before after batch i outcome task htasks htask =>
    refine hpasses.inserted htasks ?_
    rw [htask]
    exact batches_processBatchStreaming batch outcome
  | saved htasks => exact hpasses.same (pending_saved _ _ _ htasks) rfl fun _ hrest => hrest

/-- A run of `execute_streaming` that has come to rest has passed on what the batches do. -/
theorem Executor.inserts_of_atRest {client : σ} {disk : Option Checkpoint}
    {inserts : List (List (VectorRecord F))} {result : Except Error Unit} {works : List Work}
    (hnone : inserts.flatten = [])
    (hextracts : (Producer.start config.batchSize client none).Extracts source config.batchSize
      batches result)
    (hrun : works.foldlM (Executor.step source config)
      (Executor.start config client none disk inserts) = some s)
    (hrest : s.AtRest) : s.inserts.flatten.Perm (batches.flatMap (strategyPart config)) := by
  have hall : s.Manned config ∧ s.Passes source config batches := by
    refine Runs.foldlM_keeps (Q := fun s => s.Manned config ∧ s.Passes source config batches)
      (fun s w s' hs hstep => ?_)
      ⟨manned_start client none disk inserts, passes_start hnone hextracts⟩ hrun
    have hmove := move_of_step hstep
    exact ⟨manned_move hs.1 hmove, passes_move hs.1 hs.2 hmove⟩
  obtain ⟨-, rest, hleft, hpasses⟩ := hall
  obtain ⟨result', hp⟩ := hrest.producing
  rw [hp] at hleft
  obtain rfl : rest = [] := hleft
  have htasks : s.tasks.flatMap Task.batches = [] := by
    rw [List.flatMap_eq_nil_iff]
    intro task hmem
    cases task with
    | inserting batch => exact absurd (hrest.tasks _ hmem) (by simp [Task.running])
    | saving result checkpoint => rfl
    | done outcome => rfl
  have hpending : s.pending = [] := by
    rw [Executor.pending, htasks, hrest.executing, hrest.queue, hp]
    rfl
  rw [hpending, List.nil_append, List.flatMap_nil, List.append_nil] at hpasses
  exact hpasses

end executor

end passes

/-! ## Agreement -/

/-- What a strategy passes to `insert_batch` before it runs `execute_streaming`: dual-write tests the
target with a batch without records. -/
def MigrationStrategy.opening : MigrationStrategy → List (List (VectorRecord F))
  | .dualWrite => [[]]
  | .stream | .blueGreen | .snapshot => []

theorem flatten_opening (strategy : MigrationStrategy) :
    (strategy.opening : List (List (VectorRecord F))).flatten = [] := by
  cases strategy <;> rfl

section agreement

variable {source : SourceClient σ F} {slots : List (Option (VectorRecord F))} {formats : Formats F}
  {config : MigrationConfig}

/-- The batches of a part of the records pass on the same, and all that is expected, only if nothing is
left out and no record is changed or refused. -/
theorem parts_agree_iff {batches : List (VectorBatch F)} {records : List (VectorRecord F)}
    (hsub : (sent batches).Sublist records) :
    (batches.flatMap (strategyPart config)).Perm (batches.flatMap (streamPart formats config)) ∧
        (batches.flatMap (streamPart formats config)).Perm (landing formats config records) ↔
      (config.dryRun = false ∨ records = []) ∧ sent batches = records ∧
        AllValid formats config records ∧ (landing formats config records).Perm records := by
  cases hdry : config.dryRun with
  | true =>
    rw [strategyParts_dryRun hdry, parts_dryRun hdry]
    constructor
    · rintro ⟨-, hnone⟩
      obtain rfl := List.map_eq_nil_iff.mp hnone.nil_eq.symm
      exact ⟨Or.inr rfl, List.sublist_nil.mp hsub, fun record hmem => absurd hmem List.not_mem_nil,
        List.Perm.nil⟩
    · rintro ⟨hnone, -, -, -⟩
      obtain rfl := hnone.resolve_left (by simp)
      exact ⟨List.Perm.nil, List.Perm.nil⟩
  | false =>
    rw [strategyParts_eq hdry]
    constructor
    · rintro ⟨hsame, hlands⟩
      have hlength := hsame.length_eq
      have hlength' := hlands.length_eq
      rw [length_landing] at hlength'
      have hall : sent batches = records := hsub.eq_of_length (by omega)
      have hvalid : AllValid formats config (sent batches) :=
        allValid_of_length_le hdry (Nat.le_of_eq hlength)
      rw [hall] at hsame hvalid
      exact ⟨Or.inl rfl, hall, hvalid, (hsame.trans hlands).symm⟩
    · rintro ⟨-, rfl, hvalid, hsame⟩
      rw [parts_of_allValid hdry hvalid]
      exact ⟨hsame.symm, List.Perm.refl _⟩

/-- A strategy passes to the target what `stream_migration` passes to it, and that is every record
after all rules, exactly if the run is not dry, the source serves whole pages, every record is valid
after the rules, and the rules leave the records what they are. -/
theorem same_data_iff (hserves : Serves source slots) (hpos : 1 ≤ config.maxConcurrency) {client : σ}
    {disk disk' : Option Checkpoint} {actions : List Action} {s : Stream σ F}
    (hstream : actions.foldlM (Stream.step source formats config)
      (Stream.start config.batchSize client none disk) = some s)
    (hdone : s.consuming = .returned (.ok ()))
    (strategy : MigrationStrategy) {works : List Work} {t : Executor σ F}
    (hstrategy : works.foldlM (Executor.step source config)
      (Executor.start config client none disk' strategy.opening) = some t)
    (hends : ∀ w, t.step source config w = none) :
    t.inserts.flatten.Perm s.inserts.flatten ∧
        s.inserts.flatten.Perm (landing formats config slots.reduceOption) ↔
      (config.dryRun = false ∨ slots.reduceOption = []) ∧
        (Producer.start config.batchSize client none).WholePages source slots config.batchSize ∧
        AllValid formats config slots.reduceOption ∧
        (landing formats config slots.reduceOption).Perm slots.reduceOption := by
  have hsteady : (Producer.start config.batchSize client none).Steady config.batchSize := Or.inl rfl
  obtain ⟨batches, result, hextracts⟩ :=
    Producer.exists_extracts hserves config.batchSize_lt hsteady
  obtain ⟨hsub, hwhole⟩ :=
    Producer.sent_of_extracts hserves config.batchSize_lt hsteady hextracts
  have hrest := Executor.atRest_of_step_none (Executor.manned_run hstrategy) hpos hends
  have hperm := Executor.inserts_of_atRest (flatten_opening strategy) hextracts hstrategy hrest
  have hsame : t.inserts.flatten.Perm (batches.flatMap (streamPart formats config)) ↔
      (batches.flatMap (strategyPart config)).Perm (batches.flatMap (streamPart formats config)) :=
    ⟨hperm.symm.trans, hperm.trans⟩
  rw [Stream.inserts_of_returned hextracts hstream hdone, hsame, ← hwhole]
  exact parts_agree_iff hsub

end agreement

def oneTask : List Work :=
  [.fetch, .send, .receive, .acquire, .insert 0 (.returned (.ok ())), .save 0 (.returned (.ok ())),
    .select 0]

theorem same_data_twoBatches :
    ∃ s t,
      (oneBatch ++ oneBatch ++ atEnd).foldlM
          (Stream.step (fixedSource sampleRecords) sampleFormats sampleConfig)
          (Stream.start 1 () none none) = some s ∧
        s.consuming = .returned (.ok ()) ∧
        (oneTask ++ oneTask ++ [Work.fetch]).foldlM
          (Executor.step (fixedSource sampleRecords) sampleConfig)
          (Executor.start sampleConfig () none none MigrationStrategy.dualWrite.opening) = some t ∧
        t.inserts.flatten.Perm s.inserts.flatten ∧
        s.inserts.flatten.Perm (landing sampleFormats sampleConfig sampleRecords) := by
  have hserves : Serves (fixedSource sampleRecords) (sampleRecords.map some) :=
    (fixedSource_serves (by decide)).serves
  have hwhole : (Producer.start 1 () none).WholePages (fixedSource sampleRecords)
      (sampleRecords.map some) 1 :=
    .batch rfl (by decide) (.batch rfl (by decide) (.stop rfl (by decide)))
  have hvalid : ∀ record ∈ sampleRecords,
      validateRecord sampleFormats sampleConfig.validation (transform sampleFormats [] record) =
        .ok () := by decide
  have hstream : ∃ s, (oneBatch ++ oneBatch ++ atEnd).foldlM
      (Stream.step (fixedSource sampleRecords) sampleFormats sampleConfig)
      (Stream.start 1 () none none) = some s ∧ s.consuming = .returned (.ok ()) := ⟨_, rfl, rfl⟩
  have hstrategy : ∃ t, (oneTask ++ oneTask ++ [Work.fetch]).foldlM
      (Executor.step (fixedSource sampleRecords) sampleConfig)
      (Executor.start sampleConfig () none none MigrationStrategy.dualWrite.opening) = some t ∧
        t.AtRest :=
    ⟨_, rfl, rfl, rfl, ⟨_, rfl⟩, fun task hmem => absurd hmem List.not_mem_nil⟩
  obtain ⟨s, hstream, hdone⟩ := hstream
  obtain ⟨t, hstrategy, hrest⟩ := hstrategy
  exact ⟨s, t, hstream, hdone, hstrategy,
    (same_data_iff hserves (Nat.le_refl 1) hstream hdone .dualWrite hstrategy hrest.step_none).mpr
      ⟨Or.inl rfl, hwhole, hvalid, List.Perm.refl _⟩⟩

/-- A rule that drops the second component of a vector. -/
def truncatingConfig : MigrationConfig :=
  { sampleConfig with transformations := [.dimensionReduction 2 1 "truncate"] }

def wideRecords : List (VectorRecord Unit) :=
  [{ id := "a", vector := [0, 0], metadata := SortedMap.empty }]

/-- `stream_migration` truncates the vector, the task of a strategy passes it on as it is. -/
theorem not_same_data_truncated :
    ∃ s t,
      (oneBatch ++ atEnd).foldlM
          (Stream.step (fixedSource wideRecords) sampleFormats truncatingConfig)
          (Stream.start 1 () none none) = some s ∧
        s.consuming = .returned (.ok ()) ∧
        (oneTask ++ [Work.fetch]).foldlM (Executor.step (fixedSource wideRecords) truncatingConfig)
          (Executor.start truncatingConfig () none none MigrationStrategy.blueGreen.opening) =
            some t ∧
        (∀ w, t.step (fixedSource wideRecords) truncatingConfig w = none) ∧
        ¬ t.inserts.flatten.Perm s.inserts.flatten := by
  refine ⟨_, _, rfl, rfl, rfl, fun w => ?_, fun hsame => ?_⟩
  · exact Executor.AtRest.step_none
      ⟨rfl, rfl, ⟨_, rfl⟩, fun task hmem => absurd hmem List.not_mem_nil⟩ w
  · have hlengths := hsame.map fun record => record.vector.length
    exact absurd hlengths (by decide)

end Migration
end RTDB
