import Mathlib.Data.List.TakeDrop
import RTDB.Lib.Runs
import RTDB.Migration.Producer

/-!
# The strategies' executor

`execute_streaming` of `migration/strategies.rs`, which the dual-write, blue-green and snapshot
strategies run: a producer task, the function that receives from it, and a task for every batch, as
many at a time as there are permits.
-/

namespace RTDB
namespace Migration

open Storage

variable {σ F : Type}

/-! ## The task of a batch -/

inductive Outcome (α : Type) where
  | returned (result : Except Error α)
  | panicked

structure BatchResult where
  processed : Nat
  failed : Nat
  deriving DecidableEq, Repr

/-- Where the task of a batch stands: before `insert_batch`, before `save_checkpoint`, or at its end. -/
inductive Task (F : Type) where
  | inserting (batch : VectorBatch F)
  | saving (result : BatchResult) (checkpoint : Checkpoint)
  | done (outcome : Outcome BatchResult)

/-- `process_batch_streaming` up to what it waits for next; `insert` is what becomes of `insert_batch`
if it is called. -/
def processBatchStreaming (config : MigrationConfig) (batch : VectorBatch F) (insert : Outcome Unit) :
    Task F :=
  let all : BatchResult := { processed := batch.records.length, failed := 0 }
  if config.dryRun then .done (.returned (.ok all))
  else
    match insert with
    | .returned (.ok ()) =>
      match batch.checkpointData with
      | some checkpoint => .saving all checkpoint
      | none => .done (.returned (.ok all))
    | .returned (.error _) =>
      .done (.returned (.ok { processed := 0, failed := batch.records.length }))
    | .panicked => .done .panicked

def insertsStreaming (config : MigrationConfig) (batch : VectorBatch F) :
    List (List (VectorRecord F)) :=
  if config.dryRun then [] else [batch.records]

/-- What a task adds to the counters; one that failed or panicked counts as one record. -/
def Outcome.counts : Outcome BatchResult → BatchResult
  | .returned (.ok result) => result
  | .returned (.error _) | .panicked => { processed := 0, failed := 1 }

def afterSave (result : BatchResult) : Outcome Unit → Outcome BatchResult
  | .returned (.ok ()) => .returned (.ok result)
  | .returned (.error e) => .returned (.error e)
  | .panicked => .panicked

/-- The checkpoint on disk behind `save_checkpoint`. -/
def savedBy (checkpoint : Checkpoint) (disk : Option Checkpoint) :
    Outcome Unit → Option Checkpoint
  | .returned (.ok ()) => some checkpoint
  | .returned (.error _) | .panicked => disk

namespace Task

def running : Task F → Bool
  | .inserting _ | .saving _ _ => true
  | .done _ => false

/-- The permit is dropped with the task. -/
def released (task : Task F) : Nat := if task.running then 0 else 1

def batches : Task F → List (VectorBatch F)
  | .inserting batch => [batch]
  | .saving _ _ | .done _ => []

end Task

/-! ## The executor -/

/-- Where `execute_streaming` stands. -/
inductive Executing (F : Type) where
  | receiving
  | acquiring (batch : VectorBatch F)
  | selecting
  | joining
  | returned

namespace Executing

/-- The function holds the sender that it cloned for the producer until it returns. -/
def senders : Executing F → Nat
  | .receiving | .acquiring _ | .selecting | .joining => 1
  | .returned => 0

def held : Executing F → List (VectorBatch F)
  | .acquiring batch => [batch]
  | .receiving | .selecting | .joining | .returned => []

end Executing

structure Executor (σ F : Type) where
  producing : Producing σ F
  queue : List (VectorBatch F)
  executing : Executing F
  /-- The permits of the semaphore that are free. -/
  permits : Nat
  tasks : List (Task F)
  /-- What `insert_batch` was called with. -/
  inserts : List (List (VectorRecord F))
  /-- The checkpoint on disk. -/
  checkpoint : Option Checkpoint
  processedRecords : Nat
  failedRecords : Nat

inductive Work where
  | fetch
  | send
  | receive
  | acquire
  | select (i : Nat)
  | join
  | insert (i : Nat) (outcome : Outcome Unit)
  | save (i : Nat) (outcome : Outcome Unit)

namespace Executor

/-- `execute_streaming` at its start, behind the calls of `insert_batch` that the strategy made before
it. -/
def start (config : MigrationConfig) (client : σ) (resumed disk : Option Checkpoint)
    (inserts : List (List (VectorRecord F))) : Executor σ F where
  producing := .fetching (.start config.batchSize client resumed)
  queue := []
  executing := .receiving
  permits := config.maxConcurrency
  tasks := []
  inserts := inserts
  checkpoint := disk
  processedRecords := 0
  failedRecords := 0

def senders (s : Executor σ F) : Nat := s.executing.senders + s.producing.senders

variable (source : SourceClient σ F) (config : MigrationConfig)

/-- A send waits for room, and fails once the receiver is dropped. -/
def send (s : Executor σ F) : Option (Executor σ F) :=
  match s.producing with
  | .sending batch next =>
    match s.executing with
    | .returned => some { s with producing := .finished (.ok ()) }
    | _ =>
      if s.queue.length < config.maxConcurrency then
        some { s with producing := .fetching next, queue := s.queue ++ [batch] }
      else none
  | _ => none

/-- `rx.recv()` waits for a batch, and gives `None` once all senders are dropped. -/
def receive (s : Executor σ F) : Option (Executor σ F) :=
  match s.executing with
  | .receiving =>
    match s.queue with
    | batch :: rest => some { s with queue := rest, executing := .acquiring batch }
    | [] => if s.senders = 0 then some { s with executing := .joining } else none
  | _ => none

/-- A task is spawned once there is a permit for it. -/
def acquire (s : Executor σ F) : Option (Executor σ F) :=
  match s.executing with
  | .acquiring batch =>
    if 0 < s.permits then
      some
        { s with
          permits := s.permits - 1
          tasks := s.tasks ++ [.inserting batch]
          executing :=
            if config.maxConcurrency ≤ s.tasks.length + 1 then .selecting else .receiving }
    else none
  | _ => none

/-- The counters behind a task that was awaited. -/
def counted (s : Executor σ F) (outcome : Outcome BatchResult) : Executor σ F :=
  { s with
    processedRecords := wrappingAdd s.processedRecords outcome.counts.processed
    failedRecords := wrappingAdd s.failedRecords outcome.counts.failed }

/-- `select_all` gives one of the tasks that are done, and the others in some order. -/
def select (i : Nat) (s : Executor σ F) : Option (Executor σ F) :=
  match s.executing with
  | .selecting =>
    match s.tasks[i]? with
    | some (.done outcome) =>
      some ({ s with tasks := s.tasks.eraseIdx i, executing := .receiving }.counted outcome)
    | _ => none
  | _ => none

/-- The remaining tasks are awaited in their order, and then the producer. -/
def join (s : Executor σ F) : Option (Executor σ F) :=
  match s.executing with
  | .joining =>
    match s.tasks with
    | .done outcome :: rest => some ({ s with tasks := rest }.counted outcome)
    | _ :: _ => none
    | [] =>
      match s.producing with
      | .finished _ => some { s with executing := .returned }
      | _ => none
  | _ => none

def insert (i : Nat) (outcome : Outcome Unit) (s : Executor σ F) : Option (Executor σ F) :=
  match s.tasks[i]? with
  | some (.inserting batch) =>
    let task := processBatchStreaming config batch outcome
    some
      { s with
        tasks := s.tasks.set i task
        permits := s.permits + task.released
        inserts := s.inserts ++ insertsStreaming config batch }
  | _ => none

def save (i : Nat) (outcome : Outcome Unit) (s : Executor σ F) : Option (Executor σ F) :=
  match s.tasks[i]? with
  | some (.saving result checkpoint) =>
    let task : Task F := .done (afterSave result outcome)
    some
      { s with
        tasks := s.tasks.set i task
        permits := s.permits + task.released
        checkpoint := savedBy checkpoint s.checkpoint outcome }
  | _ => none

def step (s : Executor σ F) : Work → Option (Executor σ F)
  | .fetch =>
    (s.producing.fetch source config.batchSize).map fun producing => { s with producing }
  | .send => s.send config
  | .receive => s.receive
  | .acquire => s.acquire config
  | .select i => s.select i
  | .join => s.join
  | .insert i outcome => s.insert config i outcome
  | .save i outcome => s.save i outcome

/-- What a step does.  A step of a task splits the tasks at its own. -/
inductive Move : Executor σ F → Work → Executor σ F → Prop where
  | fetched {s : Executor σ F} {p next : Producer σ} {batch : VectorBatch F}
      (hp : s.producing = .fetching p)
      (hturn : p.turn source config.batchSize = .batch batch next) :
      Move s .fetch { s with producing := .sending batch next }
  | stopped {s : Executor σ F} {p : Producer σ} {result : Except Error Unit}
      (hp : s.producing = .fetching p) (hturn : p.turn source config.batchSize = .stop result) :
      Move s .fetch { s with producing := .finished result }
  | sent {s : Executor σ F} {next : Producer σ} {batch : VectorBatch F}
      (hp : s.producing = .sending batch next) (hlistens : s.executing ≠ .returned)
      (hroom : s.queue.length < config.maxConcurrency) :
      Move s .send { s with producing := .fetching next, queue := s.queue ++ [batch] }
  | dropped {s : Executor σ F} {next : Producer σ} {batch : VectorBatch F}
      (hp : s.producing = .sending batch next) (hexec : s.executing = .returned) :
      Move s .send { s with producing := .finished (.ok ()) }
  | received {s : Executor σ F} {batch : VectorBatch F} {rest : List (VectorBatch F)}
      (hexec : s.executing = .receiving) (hqueue : s.queue = batch :: rest) :
      Move s .receive { s with queue := rest, executing := .acquiring batch }
  | closed {s : Executor σ F} (hexec : s.executing = .receiving) (hqueue : s.queue = [])
      (hsenders : s.senders = 0) :
      Move s .receive { s with executing := .joining }
  | acquired {s : Executor σ F} {batch : VectorBatch F} {next : Executing F}
      (hexec : s.executing = .acquiring batch) (hpermit : 0 < s.permits)
      (hnext : next = if config.maxConcurrency ≤ s.tasks.length + 1 then .selecting else .receiving) :
      Move s .acquire
        { s with
          permits := s.permits - 1
          tasks := s.tasks ++ [.inserting batch]
          executing := next }
  | selected {s : Executor σ F} {before after : List (Task F)} {outcome : Outcome BatchResult}
      {i : Nat} (hexec : s.executing = .selecting)
      (htasks : s.tasks = before ++ .done outcome :: after) :
      Move s (.select i)
        ({ s with tasks := before ++ after, executing := .receiving }.counted outcome)
  | joined {s : Executor σ F} {rest : List (Task F)} {outcome : Outcome BatchResult}
      (hexec : s.executing = .joining) (htasks : s.tasks = .done outcome :: rest) :
      Move s .join ({ s with tasks := rest }.counted outcome)
  | returned {s : Executor σ F} {result : Except Error Unit} (hexec : s.executing = .joining)
      (htasks : s.tasks = []) (hp : s.producing = .finished result) :
      Move s .join { s with executing := .returned }
  | inserted {s : Executor σ F} {before after : List (Task F)} {batch : VectorBatch F} {i : Nat}
      {outcome : Outcome Unit} {task : Task F} (htasks : s.tasks = before ++ .inserting batch :: after)
      (htask : task = processBatchStreaming config batch outcome) :
      Move s (.insert i outcome)
        { s with
          tasks := before ++ task :: after
          permits := s.permits + task.released
          inserts := s.inserts ++ insertsStreaming config batch }
  | saved {s : Executor σ F} {before after : List (Task F)} {result : BatchResult}
      {checkpoint : Checkpoint} {i : Nat} {outcome : Outcome Unit}
      (htasks : s.tasks = before ++ .saving result checkpoint :: after) :
      Move s (.save i outcome)
        { s with
          tasks := before ++ .done (afterSave result outcome) :: after
          permits := s.permits + 1
          checkpoint := savedBy checkpoint s.checkpoint outcome }

variable {source config}

theorem exists_split {α : Type} {l : List α} {i : Nat} {a : α} (hget : l[i]? = some a) :
    ∃ before after, l = before ++ a :: after ∧ (∀ b, l.set i b = before ++ b :: after) ∧
      l.eraseIdx i = before ++ after := by
  obtain ⟨hlt, rfl⟩ := List.getElem?_eq_some_iff.mp hget
  refine ⟨l.take i, l.drop (i + 1), ?_, fun b => ?_, List.eraseIdx_eq_take_drop_succ l i⟩
  · rw [← List.drop_eq_getElem_cons hlt, List.take_append_drop]
  · rw [List.set_eq_take_append_cons_drop, if_pos hlt]

theorem move_of_step {s s' : Executor σ F} {w : Work} (hstep : s.step source config w = some s') :
    Move source config s w s' := by
  cases w with
  | fetch =>
    obtain ⟨producing, hfetch, rfl⟩ := Option.map_eq_some_iff.mp hstep
    obtain ⟨p, hp, ⟨batch, next, hturn, rfl⟩ | ⟨result, hturn, rfl⟩⟩ :=
      Producing.fetch_cases hfetch
    · exact .fetched hp hturn
    · exact .stopped hp hturn
  | send =>
    simp only [step, send] at hstep
    split at hstep
    · next batch next hp =>
      split at hstep
      · next hexec =>
        obtain rfl := Option.some.inj hstep
        exact .dropped hp hexec
      · next hlistens =>
        split at hstep
        · next hroom =>
          obtain rfl := Option.some.inj hstep
          exact .sent hp hlistens hroom
        · exact absurd hstep (by simp)
    · exact absurd hstep (by simp)
  | receive =>
    simp only [step, receive] at hstep
    split at hstep
    · next hexec =>
      split at hstep
      · next batch rest hqueue =>
        obtain rfl := Option.some.inj hstep
        exact .received hexec hqueue
      · next hqueue =>
        split at hstep
        · next hsenders =>
          obtain rfl := Option.some.inj hstep
          exact .closed hexec hqueue hsenders
        · exact absurd hstep (by simp)
    · exact absurd hstep (by simp)
  | acquire =>
    simp only [step, acquire] at hstep
    split at hstep
    · next batch hexec =>
      split at hstep
      · next hpermit =>
        obtain rfl := Option.some.inj hstep
        exact .acquired hexec hpermit rfl
      · exact absurd hstep (by simp)
    · exact absurd hstep (by simp)
  | select i =>
    simp only [step, select] at hstep
    split at hstep
    · next hexec =>
      split at hstep
      · next outcome hget =>
        obtain ⟨before, after, htasks, -, herase⟩ := exists_split hget
        obtain rfl := Option.some.inj hstep
        rw [herase]
        exact .selected hexec htasks
      · exact absurd hstep (by simp)
    · exact absurd hstep (by simp)
  | join =>
    simp only [step, join] at hstep
    split at hstep
    · next hexec =>
      split at hstep
      · next outcome rest htasks =>
        obtain rfl := Option.some.inj hstep
        exact .joined hexec htasks
      · exact absurd hstep (by simp)
      · next htasks =>
        split at hstep
        · next result hp =>
          obtain rfl := Option.some.inj hstep
          exact .returned hexec htasks hp
        · exact absurd hstep (by simp)
    · exact absurd hstep (by simp)
  | insert i outcome =>
    simp only [step, insert] at hstep
    split at hstep
    · next batch hget =>
      obtain ⟨before, after, htasks, hset, -⟩ := exists_split hget
      obtain rfl := Option.some.inj hstep
      rw [hset]
      exact .inserted htasks rfl
    · exact absurd hstep (by simp)
  | save i outcome =>
    simp only [step, save] at hstep
    split at hstep
    · next result checkpoint hget =>
      obtain ⟨before, after, htasks, hset, -⟩ := exists_split hget
      obtain rfl := Option.some.inj hstep
      rw [hset]
      exact .saved htasks
    · exact absurd hstep (by simp)

end Executor

end Migration
end RTDB
