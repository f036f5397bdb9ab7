import Mathlib.Logic.Function.Basic
import RTDB.Storage.Types

/-!
# Change data capture

`streaming/mod.rs`.  An emit call takes one lock after another: a single event gets its number under
the lock of the counters and goes out under that of the channels, and the events of a batch go out one
by one.  Calls run side by side, each lock a step of its own.

A broadcast channel appends what is sent to the buffer of every receiver and overwrites the oldest
event of a full one.  Its capacity is the configured `buffer_size` rounded up to a power of two, which
is at least one (a channel for none panics).  The counter is a `u64` in the source and a natural number here: it advances by
one per event.
-/

namespace RTDB

open Storage

namespace Streaming

variable {V : Type}

inductive ChangeType where
  | insert
  | update
  | delete
  | batch
  deriving DecidableEq, Repr

structure ChangeEvent (V : Type) where
  eventId : String
  collection : String
  vectorId : VectorId
  changeType : ChangeType
  vector : Option V
  previousVector : Option V
  timestampUs : Nat
  transactionId : Option String
  sequenceNumber : Nat
  deriving DecidableEq, Repr

/-! ## Subscriptions -/

/-- A receiver of a channel: how many events had been published before it subscribed, what it has
received, and what waits in its buffer.  It has lagged once an event was overwritten there. -/
structure Receiver (V : Type) where
  since : Nat
  received : List (ChangeEvent V) := []
  pending : List (ChangeEvent V) := []
  lagged : Bool := false
  deriving DecidableEq, Repr

namespace Receiver

def push (capacity : Nat) (event : ChangeEvent V) (r : Receiver V) : Receiver V :=
  if r.pending.length < capacity then { r with pending := r.pending ++ [event] }
  else { r with pending := (r.pending ++ [event]).drop 1, lagged := true }

def tryRecv (r : Receiver V) : Receiver V :=
  match r.pending with
  | [] => r
  | event :: pending => { r with received := r.received ++ [event], pending }

end Receiver

/-! ## Calls -/

inductive Emit (V : Type) where
  | single (changeType : ChangeType) (vectorId : VectorId) (vector previousVector : Option V)
  | batch (changes : List (ChangeType × VectorId × Option V))
  deriving DecidableEq, Repr

structure Call (V : Type) where
  collection : String
  emit : Emit V
  transactionId : Option String
  deriving DecidableEq, Repr

def emitInsert (collection : String) (vectorId : VectorId) (vector : V)
    (transactionId : Option String) : Call V :=
  { collection, emit := .single .insert vectorId (some vector) none, transactionId }

def emitUpdate (collection : String) (vectorId : VectorId) (newVector : V) (oldVector : Option V)
    (transactionId : Option String) : Call V :=
  { collection, emit := .single .update vectorId (some newVector) oldVector, transactionId }

def emitDelete (collection : String) (vectorId : VectorId) (oldVector : Option V)
    (transactionId : Option String) : Call V :=
  { collection, emit := .single .delete vectorId none oldVector, transactionId }

def emitBatch (collection : String) (changes : List (ChangeType × VectorId × Option V))
    (transactionId : Option String) : Call V :=
  { collection, emit := .batch changes, transactionId }

/-- How far a call has come: a single event before and after it got its number, a batch before its
transaction has an id, and then at the change that it publishes next. -/
inductive Phase where
  | begun
  | numbered (sequence : Nat)
  | returned
  | publishing (txnId : String) (idx : Nat)
  deriving DecidableEq, Repr

/-- A call in progress, and how many events had been published when it began. -/
structure Task (V : Type) where
  call : Call V
  began : Nat
  phase : Phase
  deriving DecidableEq, Repr

/-- A published event, with the call it is from, when that call began, and whether it is a single
event. -/
structure Record (V : Type) where
  event : ChangeEvent V
  task : Nat
  began : Nat
  isSingle : Bool
  deriving DecidableEq, Repr

/-- What a step reads of the world: a fresh id and the clock. -/
structure Stamp where
  uuid : String
  nowMicros : Nat
  deriving DecidableEq, Repr

/-- The engine, with the calls on it and the events published so far. -/
structure CdcEngine (V : Type) where
  bufferSize : Nat
  channels : String → Option (List (Receiver V))
  sequenceCounters : String → Option Nat
  tasks : List (Task V)
  published : List (Record V)

namespace CdcEngine

def new (bufferSize : Nat) : CdcEngine V :=
  { bufferSize, channels := fun _ => none, sequenceCounters := fun _ => none, tasks := [],
    published := [] }

def subscribe (e : CdcEngine V) (collection : String) : CdcEngine V :=
  { e with
    channels := Function.update e.channels collection
      (some ((e.channels collection).getD [] ++ [{ since := e.published.length }])) }

def tryRecv (e : CdcEngine V) (collection : String) (i : Nat) : CdcEngine V :=
  { e with
    channels := Function.update e.channels collection
      ((e.channels collection).map fun receivers => receivers.modify i Receiver.tryRecv) }

/-- The last number handed out for the collection. -/
def counter (e : CdcEngine V) (collection : String) : Nat :=
  (e.sequenceCounters collection).getD 0

def nextSequence (e : CdcEngine V) (collection : String) : CdcEngine V × Nat :=
  let counter := e.counter collection + 1
  ({ e with sequenceCounters := Function.update e.sequenceCounters collection (some counter) },
    counter)

def publish (e : CdcEngine V) (record : Record V) : CdcEngine V :=
  let event := record.event
  { e with
    channels := Function.update e.channels event.collection
      ((e.channels event.collection).map fun receivers =>
        receivers.map (Receiver.push e.bufferSize event))
    published := e.published ++ [record] }

def setPhase (e : CdcEngine V) (i : Nat) (phase : Phase) : CdcEngine V :=
  { e with tasks := e.tasks.modify i fun task => { task with phase } }

def begin (e : CdcEngine V) (call : Call V) : CdcEngine V :=
  { e with tasks := e.tasks ++ [{ call, began := e.published.length, phase := .begun }] }

def advance (e : CdcEngine V) (i : Nat) (stamp : Stamp) : CdcEngine V :=
  match e.tasks[i]? with
  | none => e
  | some task =>
    match task.call.emit, task.phase with
    | .single _ _ _ _, .begun =>
      let (e, sequence) := e.nextSequence task.call.collection
      e.setPhase i (.numbered sequence)
    | .single changeType vectorId vector previousVector, .numbered sequence =>
      let event : ChangeEvent V :=
        { eventId := stamp.uuid
          collection := task.call.collection
          vectorId
          changeType
          vector
          previousVector
          timestampUs := stamp.nowMicros
          transactionId := task.call.transactionId
          sequenceNumber := sequence }
      (e.publish { event, task := i, began := task.began, isSingle := true }).setPhase i .returned
    | .batch _, .begun => e.setPhase i (.publishing (task.call.transactionId.getD stamp.uuid) 0)
    | .batch changes, .publishing txnId idx =>
      match changes[idx]? with
      | none => e
      | some (changeType, vectorId, vector) =>
        let event : ChangeEvent V :=
          { eventId := stamp.uuid
            collection := task.call.collection
            vectorId
            changeType
            vector
            previousVector := none
            timestampUs := stamp.nowMicros
            transactionId := some txnId
            sequenceNumber := idx }
        (e.publish { event, task := i, began := task.began, isSingle := false }).setPhase i
          (.publishing txnId (idx + 1))
    | _, _ => e

/-- A step of the engine: a subscription, an event received, a call that begins, or the next lock of
one in progress. -/
inductive Step (V : Type) where
  | subscribe (collection : String)
  | tryRecv (collection : String) (i : Nat)
  | begin (call : Call V)
  | advance (i : Nat) (stamp : Stamp)
  deriving DecidableEq, Repr

def step (e : CdcEngine V) : Step V → CdcEngine V
  | .subscribe collection => e.subscribe collection
  | .tryRecv collection i => e.tryRecv collection i
  | .begin call => e.begin call
  | .advance i stamp => e.advance i stamp

def run (bufferSize : Nat) (steps : List (Step V)) : CdcEngine V := steps.foldl step (new bufferSize)

/-! ## One step -/

/-- What the next lock of a call does: nothing that matters to the events, a number for a single
event, or an event published with it or with its place in the batch. -/
inductive Advances (e : CdcEngine V) (i : Nat) (e' : CdcEngine V) : Prop where
  | same (heq : e' = e)
  | numbers (task : Task V) (htask : e.tasks[i]? = some task) (hphase : task.phase = .begun)
      (hsingle : ∀ changes, task.call.emit ≠ .batch changes)
      (heq : e' = (e.nextSequence task.call.collection).1.setPhase i
        (.numbered (e.counter task.call.collection + 1)))
  | publishes (task : Task V) (htask : e.tasks[i]? = some task) (sequence : Nat)
      (hphase : task.phase = .numbered sequence) (event : ChangeEvent V)
      (hsingle : ∀ changes, task.call.emit ≠ .batch changes)
      (hcollection : event.collection = task.call.collection)
      (hsequence : event.sequenceNumber = sequence)
      (heq : e' = (e.publish { event, task := i, began := task.began, isSingle := true }).setPhase i
        .returned)
  | opens (task : Task V) (htask : e.tasks[i]? = some task) (hphase : task.phase = .begun)
      (txnId : String) (heq : e' = e.setPhase i (.publishing txnId 0))
  | publishesNext (task : Task V) (htask : e.tasks[i]? = some task) (txnId : String) (idx : Nat)
      (hphase : task.phase = .publishing txnId idx) (event : ChangeEvent V)
      (changes : List (ChangeType × VectorId × Option V)) (hbatch : task.call.emit = .batch changes)
      (hidx : idx < changes.length) (hcollection : event.collection = task.call.collection)
      (hsequence : event.sequenceNumber = idx)
      (heq : e' = (e.publish { event, task := i, began := task.began, isSingle := false }).setPhase i
        (.publishing txnId (idx + 1)))

theorem advance_cases (e : CdcEngine V) (i : Nat) (stamp : Stamp) :
    Advances e i (e.advance i stamp) := by
  unfold advance
  split
  · exact .same rfl
  · rename_i task htask
    split
    · rename_i hemit hphase
      exact .numbers task htask hphase (fun changes h => by simp [hemit] at h) rfl
    · rename_i sequence hemit hphase
      exact .publishes task htask sequence hphase _ (fun changes h => by simp [hemit] at h) rfl rfl rfl
    · rename_i changes hemit hphase
      exact .opens task htask hphase _ rfl
    · rename_i changes txnId idx hemit hphase
      split
      · exact .same rfl
      · rename_i hchange
        obtain ⟨hidx, -⟩ := List.getElem?_eq_some_iff.mp hchange
        exact .publishesNext task htask txnId idx hphase _ changes hemit hidx rfl rfl rfl
    · exact .same rfl

end CdcEngine
end Streaming
end RTDB
