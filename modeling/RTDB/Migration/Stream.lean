import RTDB.Lib.Runs
import RTDB.Migration.Producer
import RTDB.Migration.Transform

/-!
# The streaming migration

`stream_migration` of `migration/mod.rs`: a producer task and the loop that receives from it, joined
by a channel of `max_concurrency` places.  What `insert_batch` and `save_checkpoint` answer comes
with the step that calls them.
-/

namespace RTDB
namespace Migration

open Storage

variable {σ F : Type}

/-- Where the receiving loop stands. -/
inductive Consuming (F : Type) where
  | receiving
  | processing (batch : VectorBatch F)
  | saving (checkpoint : Checkpoint)
  | returned (result : Except Error Unit)

structure Stream (σ F : Type) where
  producing : Producing σ F
  queue : List (VectorBatch F)
  consuming : Consuming F
  /-- What `insert_batch` was called with. -/
  inserts : List (List (VectorRecord F))
  /-- What the target took. -/
  landed : List (VectorRecord F)
  /-- The checkpoint on disk. -/
  checkpoint : Option Checkpoint
  processedRecords : Nat
  failedRecords : Nat

inductive Action where
  | fetch
  | send
  | receive
  | process (insert : Except Error Unit)
  | save (written : Except Error Unit)
  deriving DecidableEq, Repr

namespace Stream

/-- A migration that goes on from a checkpoint, with a checkpoint on disk. -/
def start (batchSize : Nat) (client : σ) (resumed disk : Option Checkpoint) : Stream σ F where
  producing := .fetching (.start batchSize client resumed)
  queue := []
  consuming := .receiving
  inserts := []
  landed := []
  checkpoint := disk
  processedRecords := 0
  failedRecords := 0

variable (source : SourceClient σ F) (formats : Formats F) (config : MigrationConfig)

def send (s : Stream σ F) : Option (Stream σ F) :=
  match s.producing with
  | .sending batch next =>
    match s.consuming with
    | .returned _ => some { s with producing := .finished (.ok ()) }
    | _ =>
      if s.queue.length < config.maxConcurrency then
        some { s with producing := .fetching next, queue := s.queue ++ [batch] }
      else none
  | _ => none

/-- `rx.recv()` waits for a batch, and gives `None` once the sender is dropped. -/
def receive (s : Stream σ F) : Option (Stream σ F) :=
  match s.consuming with
  | .receiving =>
    match s.queue with
    | batch :: rest => some { s with queue := rest, consuming := .processing batch }
    | [] =>
      match s.producing with
      | .finished _ => some { s with consuming := .returned (.ok ()) }
      | _ => none
  | _ => none

/-- The loop behind a batch that was processed. -/
def afterProcessed (s : Stream σ F) (batch : VectorBatch F) (processed : Processed F) : Stream σ F :=
  { s with
    consuming :=
      match batch.checkpointData with
      | some checkpoint => .saving checkpoint
      | none => .receiving
    inserts := s.inserts ++ processed.inserted.toList
    landed := s.landed ++ processed.inserted.getD []
    processedRecords := wrappingAdd s.processedRecords batch.records.length }

/-- The loop behind a batch that failed. -/
def afterFailed (s : Stream σ F) (batch : VectorBatch F) (processed : Processed F) : Stream σ F :=
  { s with
    consuming := .receiving
    inserts := s.inserts ++ processed.inserted.toList
    failedRecords := wrappingAdd s.failedRecords batch.records.length }

def process (insert : Except Error Unit) (s : Stream σ F) : Option (Stream σ F) :=
  match s.consuming with
  | .processing batch =>
    let processed := processBatch formats config batch insert
    match processed.result with
    | .ok () => some (s.afterProcessed batch processed)
    | .error _ => some (s.afterFailed batch processed)
  | _ => none

/-- The file is replaced by a rename: a save that fails leaves the old one. -/
def save (written : Except Error Unit) (s : Stream σ F) : Option (Stream σ F) :=
  match s.consuming with
  | .saving checkpoint =>
    match written with
    | .ok () => some { s with checkpoint := some checkpoint, consuming := .receiving }
    | .error e => some { s with consuming := .returned (.error e) }
  | _ => none

def step (s : Stream σ F) : Action → Option (Stream σ F)
  | .fetch =>
    (s.producing.fetch source config.batchSize).map fun producing => { s with producing }
  | .send => s.send config
  | .receive => s.receive
  | .process insert => s.process formats config insert
  | .save written => s.save written

inductive Move : Stream σ F → Action → Stream σ F → Prop where
  | fetched {s : Stream σ F} {p next : Producer σ} {batch : VectorBatch F}
      (hp : s.producing = .fetching p)
      (hturn : p.turn source config.batchSize = .batch batch next) :
      Move s .fetch { s with producing := .sending batch next }
  | stopped {s : Stream σ F} {p : Producer σ} {result : Except Error Unit}
      (hp : s.producing = .fetching p) (hturn : p.turn source config.batchSize = .stop result) :
      Move s .fetch { s with producing := .finished result }
  | sent {s : Stream σ F} {next : Producer σ} {batch : VectorBatch F}
      (hp : s.producing = .sending batch next) (hlistens : ∀ result, s.consuming ≠ .returned result)
      (hroom : s.queue.length < config.maxConcurrency) :
      Move s .send { s with producing := .fetching next, queue := s.queue ++ [batch] }
  | dropped {s : Stream σ F} {next : Producer σ} {batch : VectorBatch F} {result : Except Error Unit}
      (hp : s.producing = .sending batch next) (hc : s.consuming = .returned result) :
      Move s .send { s with producing := .finished (.ok ()) }
  | received {s : Stream σ F} {batch : VectorBatch F} {rest : List (VectorBatch F)}
      (hc : s.consuming = .receiving) (hqueue : s.queue = batch :: rest) :
      Move s .receive { s with queue := rest, consuming := .processing batch }
  | closed {s : Stream σ F} {result : Except Error Unit}
      (hc : s.consuming = .receiving) (hqueue : s.queue = []) (hp : s.producing = .finished result) :
      Move s .receive { s with consuming := .returned (.ok ()) }
  | processed {s : Stream σ F} {batch : VectorBatch F} {insert : Except Error Unit}
      (hc : s.consuming = .processing batch)
      (hok : (processBatch formats config batch insert).result = .ok ()) :
      Move s (.process insert) (s.afterProcessed batch (processBatch formats config batch insert))
  | failed {s : Stream σ F} {batch : VectorBatch F} {insert : Except Error Unit} {e : Error}
      (hc : s.consuming = .processing batch)
      (herror : (processBatch formats config batch insert).result = .error e) :
      Move s (.process insert) (s.afterFailed batch (processBatch formats config batch insert))
  | saved {s : Stream σ F} {checkpoint : Checkpoint} (hc : s.consuming = .saving checkpoint) :
      Move s (.save (.ok ())) { s with checkpoint := some checkpoint, consuming := .receiving }
  | unsaved {s : Stream σ F} {checkpoint : Checkpoint} {e : Error}
      (hc : s.consuming = .saving checkpoint) :
      Move s (.save (.error e)) { s with consuming := .returned (.error e) }

variable {source formats config}

theorem move_of_step {s s' : Stream σ F} {a : Action}
    (hstep : s.step source formats config a = some s') :
    Move source formats config s a s' := by
  cases a with
  | fetch =>
    obtain ⟨producing, hfetch, rfl⟩ := Option.map_eq_some_iff.mp hstep
    obtain ⟨p, hp, ⟨batch, next, hturn, rfl⟩ | ⟨result, hturn, rfl⟩⟩ :=
      Producing.fetch_cases hfetch
    · exact .fetched hp hturn
    · exact .stopped hp hturn
  | send =>
    simp only [step, send] at hstep
    split at hstep
    · next batch next hp =>
      split at hstep
      · next result hc =>
        obtain rfl := Option.some.inj hstep
        exact .dropped hp hc
      · next hlistens =>
        split at hstep
        · next hroom =>
          obtain rfl := Option.some.inj hstep
          exact .sent hp hlistens hroom
        · exact absurd hstep (by simp)
    · exact absurd hstep (by simp)
  | receive =>
    simp only [step, receive] at hstep
    split at hstep
    · next hc =>
      split at hstep
      · next batch rest hqueue =>
        obtain rfl := Option.some.inj hstep
        exact .received hc hqueue
      · next hqueue =>
        split at hstep
        · next result hp =>
          obtain rfl := Option.some.inj hstep
          exact .closed hc hqueue hp
        · exact absurd hstep (by simp)
    · exact absurd hstep (by simp)
  | process insert =>
    simp only [step, process] at hstep
    split at hstep
    · next batch hc =>
      split at hstep
      · next hok =>
        obtain rfl := Option.some.inj hstep
        exact .processed hc hok
      · next e herror =>
        obtain rfl := Option.some.inj hstep
        exact .failed hc herror
    · exact absurd hstep (by simp)
  | save written =>
    simp only [step, save] at hstep
    split at hstep
    · next checkpoint hc =>
      split at hstep
      · obtain rfl := Option.some.inj hstep
        exact .saved hc
      · obtain rfl := Option.some.inj hstep
        exact .unsaved hc
    · exact absurd hstep (by simp)

end Stream

end Migration
end RTDB
