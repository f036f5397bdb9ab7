import Mathlib.Algebra.GroupWithZero.Nat
import RTDB.Migration.Strategies

/-!
# The streaming strategy stands still

Every run of `execute_streaming` over a source that comes to an end comes to an end too, but not by
returning: the function waits for a batch while it holds a sender of its own channel.
-/

namespace RTDB
namespace Migration

variable {σ F : Type}

/-! ## A weight that falls with every step -/

def Task.weight : Task F → Nat
  | .inserting _ => 3
  | .saving _ _ => 2
  | .done _ => 1

def Executing.weight : Executing F → Nat
  | .acquiring _ => 6
  | .receiving | .selecting => 2
  | .joining => 1
  | .returned => 0

def Producing.weight (left : Nat) : Producing σ F → Nat
  | .fetching _ => 7 * left + 1
  | .sending _ _ => 7 * left + 7
  | .finished _ => 0

namespace Executor

def weight (s : Executor σ F) (left : Nat) : Nat :=
  s.producing.weight left + 5 * s.queue.length + s.executing.weight +
    (s.tasks.map Task.weight).sum

def Weighs (source : SourceClient σ F) (config : MigrationConfig) (s : Executor σ F) (n : Nat) :
    Prop :=
  ∃ rest, s.producing.Left source config.batchSize rest ∧ s.weight rest.length = n

variable {source : SourceClient σ F} {config : MigrationConfig} {s s' : Executor σ F} {w : Work}

theorem weight_inserting (batch : VectorBatch F) : (Task.inserting batch).weight = 3 := rfl

theorem weight_saving (result : BatchResult) (checkpoint : Checkpoint) :
    (Task.saving result checkpoint : Task F).weight = 2 := rfl

theorem weight_done (outcome : Outcome BatchResult) : (Task.done outcome : Task F).weight = 1 := rfl

theorem sum_split (f : Task F → Nat) (before after : List (Task F)) (task : Task F) :
    ((before ++ task :: after).map f).sum = (before.map f).sum + f task + (after.map f).sum := by
  rw [List.map_append, List.map_cons, List.sum_append, List.sum_cons, Nat.add_assoc]

/-- `insert_batch` is behind the task. -/
theorem weight_processBatchStreaming_lt (batch : VectorBatch F) (outcome : Outcome Unit) :
    (processBatchStreaming config batch outcome).weight < 3 := by
  unfold processBatchStreaming
  split
  · exact Nat.lt_of_sub_eq_succ rfl
  · split
    · split
      · exact Nat.lt_succ_self 2
      · exact Nat.lt_of_sub_eq_succ rfl
    · exact Nat.lt_of_sub_eq_succ rfl
    · exact Nat.lt_of_sub_eq_succ rfl

theorem weighs_move {n : Nat} (hweighs : s.Weighs source config n)
    (hmove : Move source config s w s') : ∃ n', n' < n ∧ s'.Weighs source config n' := by
  obtain ⟨rest, hleft, rfl⟩ := hweighs
  cases hmove with
  | fetched hp hturn =>
    rw [hp] at hleft
    obtain ⟨rest', rfl, hleft'⟩ := hleft.fetched hturn
    refine ⟨_, ?_, rest', hleft', rfl⟩
    simp only [weight, hp, Producing.weight, List.length_cons]
    omega
  | stopped hp hturn =>
    rw [hp] at hleft
    obtain rfl := hleft.stopped hturn
    refine ⟨_, ?_, [], rfl, rfl⟩
    simp only [weight, hp, Producing.weight, List.length_nil]
    omega
  | sent hp _ _ =>
    rw [hp] at hleft
    refine ⟨_, ?_, rest, hleft, rfl⟩
    simp only [weight, hp, Producing.weight, List.length_append, List.length_singleton]
    omega
  | dropped hp _ =>
    refine ⟨_, ?_, [], rfl, rfl⟩
    simp only [weight, hp, Producing.weight]
    omega
  | received hexec hqueue =>
    refine ⟨_, ?_, rest, hleft, rfl⟩
    simp only [weight, hexec, hqueue, Executing.weight, List.length_cons]
    omega
  | closed hexec _ _ =>
    refine ⟨_, ?_, rest, hleft, rfl⟩
    simp only [weight, hexec, Executing.weight]
    omega
  | @acquired batch next hexec hpermit hnext =>
    have hfrom : s.executing.weight = 6 := by rw [hexec, Executing.weight]
    have hto : next.weight = 2 := by
      rw [hnext]
      split <;> rfl
    refine ⟨_, ?_, rest, hleft, rfl⟩
    simp only [weight, hfrom, hto, sum_split, weight_inserting, List.map_nil, List.sum_nil]
    omega
  | @selected before after outcome i hexec htasks =>
    have hbefore : (s.tasks.map Task.weight).sum =
        (before.map Task.weight).sum + 1 + (after.map Task.weight).sum := by
      rw [htasks, sum_split, weight_done]
    have hafter : ((before ++ after).map Task.weight).sum =
        (before.map Task.weight).sum + (after.map Task.weight).sum := by
      rw [List.map_append, List.sum_append]
    refine ⟨_, ?_, rest, hleft, rfl⟩
    simp only [weight, counted, hexec, hbefore, hafter, Executing.weight]
    omega
  | joined hexec htasks =>
    refine ⟨_, ?_, rest, hleft, rfl⟩
    simp only [weight, counted, htasks, weight_done, List.map_cons, List.sum_cons]
    omega
  | returned hexec _ _ =>
    refine ⟨_, ?_, rest, hleft, rfl⟩
    simp only [weight, hexec, Executing.weight]
    omega
  | @inserted before after batch i outcome task htasks htask =>
    have hlight : task.weight < 3 := by
      rw [htask]
      exact weight_processBatchStreaming_lt batch outcome
    refine ⟨_, ?_, rest, hleft, rfl⟩
    simp only [weight, htasks, sum_split, weight_inserting]
    omega
  | saved htasks =>
    refine ⟨_, ?_, rest, hleft, rfl⟩
    simp only [weight, htasks, sum_split, weight_saving, weight_done]
    omega

/-! ## Where a run stands still -/

/-- The function has not come past its loop. -/
def Listening : Executing F → Prop
  | .receiving | .acquiring _ | .selecting => True
  | .joining | .returned => False

/-- What holds between steps: the function is in its loop, each permit is free or held by a task, and
tasks are selected from only where there are some. -/
structure Manned (config : MigrationConfig) (s : Executor σ F) : Prop where
  listening : Listening s.executing
  permits : s.permits + s.tasks.countP Task.running = config.maxConcurrency
  selecting : s.executing = .selecting → s.tasks ≠ []

theorem manned_start (client : σ) (resumed disk : Option Checkpoint)
    (inserts : List (List (VectorRecord F))) :
    (start config client resumed disk inserts).Manned config where
  listening := trivial
  permits := rfl
  selecting := fun hexec => absurd hexec (by simp [start])

theorem Manned.senders_ne_zero (hmanned : s.Manned config) : s.senders ≠ 0 := by
  have hlistening := hmanned.listening
  rw [senders]
  cases hexec : s.executing with
  | receiving => simp [Executing.senders]
  | acquiring batch => simp [Executing.senders]
  | selecting => simp [Executing.senders]
  | joining =>
    rw [hexec] at hlistening
    exact hlistening.elim
  | returned =>
    rw [hexec] at hlistening
    exact hlistening.elim

theorem countP_split (before after : List (Task F)) (task : Task F) :
    (before ++ task :: after).countP Task.running + task.released =
      (before ++ after).countP Task.running + 1 := by
  rw [List.countP_append, List.countP_append, List.countP_cons, Task.released]
  cases task.running with
  | true => simp only [if_true]; omega
  | false => simp only [Bool.false_eq_true, if_false]; omega

theorem manned_move (hmanned : s.Manned config) (hmove : Move source config s w s') :
    s'.Manned config := by
  have hlistening := hmanned.listening
  have hpermits := hmanned.permits
  cases hmove with
  | fetched _ _ => exact ⟨hlistening, hpermits, hmanned.selecting⟩
  | stopped _ _ => exact ⟨hlistening, hpermits, hmanned.selecting⟩
  | sent _ _ _ => exact ⟨hlistening, hpermits, hmanned.selecting⟩
  | dropped _ _ => exact ⟨hlistening, hpermits, hmanned.selecting⟩
  | received _ _ => exact ⟨trivial, hpermits, fun hexec => absurd hexec (by simp)⟩
  | closed _ _ hsenders => exact absurd hsenders hmanned.senders_ne_zero
  | @acquired batch next hexec hpermit hnext =>
    refine ⟨?_, ?_, fun _ hnil => absurd hnil (by simp)⟩
    · rw [hnext]
      split <;> trivial
    · rw [List.countP_append, List.countP_singleton]
      simp only [Task.running, if_true]
      omega
  | @selected before after outcome i hexec htasks =>
    have hsplit := countP_split before after (.done outcome)
    rw [← htasks] at hsplit
    have hcount : s.tasks.countP Task.running = (before ++ after).countP Task.running :=
      Nat.add_right_cancel hsplit
    refine ⟨trivial, ?_, fun hexec => absurd hexec (by simp [counted])⟩
    rw [hcount] at hpermits
    exact hpermits
  | joined hexec _ =>
    rw [hexec] at hlistening
    exact hlistening.elim
  | returned hexec _ _ =>
    rw [hexec] at hlistening
    exact hlistening.elim
  | @inserted before after batch i outcome task htasks _ =>
    have hsplit := countP_split before after (.inserting batch)
    have hsplit' := countP_split before after task
    rw [← htasks] at hsplit
    have hheld : (Task.inserting batch).released = 0 := rfl
    refine ⟨hlistening, ?_, fun _ hnil => absurd hnil (by simp)⟩
    show s.permits + task.released + (before ++ task :: after).countP Task.running =
      config.maxConcurrency
    omega
  | @saved before after result checkpoint i outcome htasks =>
    have hsplit := countP_split before after (.saving result checkpoint)
    have hsplit' := countP_split before after (.done (afterSave result outcome))
    rw [← htasks] at hsplit
    have hheld : (Task.saving result checkpoint : Task F).released = 0 := rfl
    have hfree : (Task.done (afterSave result outcome) : Task F).released = 1 := rfl
    refine ⟨hlistening, ?_, fun _ hnil => absurd hnil (by simp)⟩
    show s.permits + 1 + (before ++ .done (afterSave result outcome) :: after).countP Task.running =
      config.maxConcurrency
    omega

/-- The producer has finished, every batch was received and worked on, and the function waits for
another one. -/
structure AtRest (s : Executor σ F) : Prop where
  executing : s.executing = .receiving
  queue : s.queue = []
  producing : ∃ result, s.producing = .finished result
  tasks : ∀ task ∈ s.tasks, task.running = false

theorem step_of_running (source : SourceClient σ F) (config : MigrationConfig) {task : Task F}
    (hmem : task ∈ s.tasks) (hrunning : task.running = true) :
    ∃ w, s.step source config w ≠ none := by
  obtain ⟨i, hget⟩ := List.mem_iff_getElem?.mp hmem
  cases task with
  | inserting batch => exact ⟨.insert i .panicked, by simp [step, insert, hget]⟩
  | saving result checkpoint => exact ⟨.save i .panicked, by simp [step, save, hget]⟩
  | done outcome => exact absurd hrunning (by simp [Task.running])

theorem step_of_acquiring {batch : VectorBatch F} (hexec : s.executing = .acquiring batch)
    (hpermit : 0 < s.permits) : s.step source config .acquire ≠ none := by
  simp [step, acquire, hexec, hpermit]

theorem step_of_selecting {outcome : Outcome BatchResult} {rest : List (Task F)}
    (hexec : s.executing = .selecting) (htasks : s.tasks = .done outcome :: rest) :
    s.step source config (.select 0) ≠ none := by
  simp [step, select, hexec, htasks]

theorem step_of_queue {batch : VectorBatch F} {rest : List (VectorBatch F)}
    (hexec : s.executing = .receiving) (hqueue : s.queue = batch :: rest) :
    s.step source config .receive ≠ none := by
  simp [step, receive, hexec, hqueue]

theorem step_of_fetching {p : Producer σ} (hp : s.producing = .fetching p) :
    s.step source config .fetch ≠ none := by
  cases hturn : p.turn source config.batchSize with
  | stop result => simp [step, hp, Producing.fetch, hturn]
  | batch batch next => simp [step, hp, Producing.fetch, hturn]

theorem step_of_sending {batch : VectorBatch F} {next : Producer σ}
    (hp : s.producing = .sending batch next) (hexec : s.executing = .receiving)
    (hroom : s.queue.length < config.maxConcurrency) : s.step source config .send ≠ none := by
  simp [step, send, hp, hexec, hroom]

/-- Nothing can be done only at rest. -/
theorem atRest_of_step_none (hmanned : s.Manned config) (hpos : 1 ≤ config.maxConcurrency)
    (hnone : ∀ w, s.step source config w = none) : s.AtRest := by
  have htasks : ∀ task ∈ s.tasks, task.running = false := by
    intro task hmem
    by_contra hrunning
    obtain ⟨w, hstep⟩ := step_of_running source config hmem
      (Bool.eq_true_of_not_eq_false hrunning)
    exact hstep (hnone w)
  have hfree : 0 < s.permits := by
    have hcount : s.tasks.countP Task.running = 0 := by
      rw [List.countP_eq_zero]
      intro task hmem
      rw [htasks task hmem]
      exact Bool.false_ne_true
    have hpermits := hmanned.permits
    omega
  have hexec : s.executing = .receiving := by
    have hlistening := hmanned.listening
    cases hexec : s.executing with
    | receiving => rfl
    | acquiring batch => exact absurd (hnone .acquire) (step_of_acquiring hexec hfree)
    | selecting =>
      cases hall : s.tasks with
      | nil => exact absurd hall (hmanned.selecting hexec)
      | cons task rest =>
        have hdone := htasks task (by rw [hall]; exact List.mem_cons_self)
        cases task with
        | inserting batch => exact absurd hdone (by simp [Task.running])
        | saving result checkpoint => exact absurd hdone (by simp [Task.running])
        | done outcome => exact absurd (hnone (.select 0)) (step_of_selecting hexec hall)
    | joining =>
      rw [hexec] at hlistening
      exact hlistening.elim
    | returned =>
      rw [hexec] at hlistening
      exact hlistening.elim
  have hqueue : s.queue = [] := by
    cases hqueue : s.queue with
    | nil => rfl
    | cons batch rest => exact absurd (hnone .receive) (step_of_queue hexec hqueue)
  refine ⟨hexec, hqueue, ?_, htasks⟩
  cases hp : s.producing with
  | fetching p => exact absurd (hnone .fetch) (step_of_fetching hp)
  | sending batch next =>
    have hroom : s.queue.length < config.maxConcurrency := by
      rw [hqueue]
      exact hpos
    exact absurd (hnone .send) (step_of_sending hp hexec hroom)
  | finished result => exact ⟨result, rfl⟩

/-- At rest nothing can be done: the channel is not closed while the function holds its own sender. -/
theorem AtRest.step_none (hrest : s.AtRest) (w : Work) : s.step source config w = none := by
  obtain ⟨result, hp⟩ := hrest.producing
  have hget : ∀ (i : Nat) (task : Task F), s.tasks[i]? = some task → task.running = false :=
    fun i task hget => hrest.tasks task (List.mem_of_getElem? hget)
  cases w with
  | fetch => simp [step, hp, Producing.fetch]
  | send => simp [step, send, hp]
  | receive => simp [step, receive, hrest.executing, hrest.queue, senders, Executing.senders]
  | acquire => simp [step, acquire, hrest.executing]
  | select i => simp [step, select, hrest.executing]
  | join => simp [step, join, hrest.executing]
  | insert i outcome =>
    simp only [step, insert]
    split
    · next batch hi => exact absurd (hget i _ hi) (by simp [Task.running])
    · rfl
  | save i outcome =>
    simp only [step, save]
    split
    · next result checkpoint hi => exact absurd (hget i _ hi) (by simp [Task.running])
    · rfl

/-! ## Every run -/

theorem manned_run {client : σ} {resumed disk : Option Checkpoint}
    {inserts : List (List (VectorRecord F))} {works : List Work}
    (hrun : works.foldlM (step source config) (start config client resumed disk inserts) = some s) :
    s.Manned config :=
  Runs.foldlM_keeps (fun _ _ _ hmanned hstep => manned_move hmanned (move_of_step hstep))
    (manned_start client resumed disk inserts) hrun

/-- `execute_streaming` over a source that comes to an end never returns: there are runs that stand
still, every run comes to stand still, and where one stands still the producer has finished and all
batches were received. -/
theorem never_returns {client : σ} {resumed : Option Checkpoint}
    {batches : List (VectorBatch F)} {result : Except Error Unit}
    (hpos : 1 ≤ config.maxConcurrency)
    (hfinite : (Producer.start config.batchSize client resumed).Extracts source config.batchSize
      batches result)
    (disk : Option Checkpoint) (inserts : List (List (VectorRecord F))) :
    (∃ (works : List Work) (s : Executor σ F),
      works.foldlM (step source config) (start config client resumed disk inserts) = some s ∧
        ∀ w, s.step source config w = none) ∧
    Runs.Ends (fun s s' => ∃ w, s.step source config w = some s')
      (fun s => ∀ w, s.step source config w = none) (start config client resumed disk inserts) ∧
    ∀ (works : List Work) (s : Executor σ F),
      works.foldlM (step source config) (start config client resumed disk inserts) = some s →
      s.executing ≠ .returned ∧ ((∀ w, s.step source config w = none) ↔ s.AtRest) := by
  have hweighs : (start config client resumed disk inserts).Weighs source config
      ((start config client resumed disk inserts).weight batches.length) :=
    ⟨batches, ⟨result, hfinite⟩, rfl⟩
  refine ⟨?_, ?_, fun works s hrun => ⟨fun hreturned => ?_, ?_⟩⟩
  · exact Runs.exists_end (fun s n w s' hs hstep => weighs_move hs (move_of_step hstep)) hweighs
  · refine Runs.ends_of_weight (fun s n s' hs hstep => ?_) hweighs
    obtain ⟨w, hw⟩ := hstep
    exact weighs_move hs (move_of_step hw)
  · have hlistening := (manned_run hrun).listening
    rw [hreturned] at hlistening
    exact hlistening
  · exact ⟨atRest_of_step_none (manned_run hrun) hpos, fun hrest => hrest.step_none⟩

end Executor

def oneRecord : List (VectorRecord Unit) :=
  [{ id := "a", vector := [0], metadata := SortedMap.empty }]

theorem never_returns_oneRecord :
    ∃ (works : List Work) (s : Executor Unit Unit),
      works.foldlM (Executor.step (fixedSource oneRecord) .default)
        (Executor.start .default () none none []) = some s ∧
      s.AtRest ∧ s.executing ≠ .returned := by
  have hfinite : (Producer.start 1000 () none).Extracts (fixedSource oneRecord) 1000
      [{ records := oneRecord, batchId := 0,
         checkpointData := some { offset := 1, batchId := 0 } }] (.ok ()) := ⟨2, rfl⟩
  have hpos : 1 ≤ MigrationConfig.default.maxConcurrency := by decide
  obtain ⟨⟨works, s, hrun, hnone⟩, -, hall⟩ := Executor.never_returns hpos hfinite none []
  obtain ⟨hreturned, hrest⟩ := hall works s hrun
  exact ⟨works, s, hrun, hrest.mp hnone, hreturned⟩

/-- Nothing to migrate: the producer finishes, and the function waits for good. -/
theorem stands_still_noRecords :
    ∃ s, [Work.fetch].foldlM (Executor.step (fixedSource ([] : List (VectorRecord Unit))) .default)
        (Executor.start .default () none none []) = some s ∧
      s.executing ≠ .returned ∧ ∀ w, s.step (fixedSource []) .default w = none := by
  refine ⟨_, rfl, by simp [Executor.start], fun w => Executor.AtRest.step_none ?_ w⟩
  exact ⟨rfl, rfl, ⟨_, rfl⟩, fun task hmem => absurd hmem List.not_mem_nil⟩

end Migration
end RTDB
