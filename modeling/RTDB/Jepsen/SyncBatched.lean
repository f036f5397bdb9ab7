import RTDB.Jepsen.Types
import RTDB.Lib.Conflict
import RTDB.Lib.Runs

/-!
# The buffered client

The client of `jepsen/direct_client_sync_batched.rs`.  A write is acknowledged from the buffer; a
flush drains the buffer under its lock and upserts the batch after the lock is released, so that
batches of several calls are in flight at a time.  Each section under the lock and each call of
the collection is one step.
-/

namespace RTDB
namespace Jepsen

open Linear (Call Path)

variable {V : Type}

inductive BatchedOp (V : Type) where
  | read (key : String)
  | write (key : String) (value : V)
  | flush
  deriving DecidableEq, Repr

/-- What a call returns; of an error nothing is kept. -/
inductive Reply (V : Type) where
  | ok (result : OperationResult V)
  | flushed
  | error
  deriving DecidableEq, Repr

def Reply.acknowledges : Reply V → Bool
  | .ok _ => true
  | _ => false

/-- A write in the buffer or in a batch, with the call it is of. -/
structure BufferedWrite (V : Type) where
  call : Nat
  key : String
  value : V
  deriving DecidableEq, Repr

/-- A batch that a call has drained and not upserted yet. -/
structure Flight (V : Type) where
  call : Nat
  batch : List (BufferedWrite V)
  deriving DecidableEq, Repr

/-- What a call does behind `flush_buffer`. -/
inductive Next (V : Type) where
  | reply (reply : Reply V)
  | get (key : String)
  deriving DecidableEq, Repr

/-- How far a call has come. -/
inductive Stage (V : Type) where
  | push (key : String) (value : V)
  | drain (next : Next V)
  | upsert (next : Next V)
  | get (key : String)
  | done (reply : Reply V)
  deriving DecidableEq, Repr

def Next.stage : Next V → Stage V
  | .reply answer => .done answer
  | .get key => .get key

def BatchedOp.stage : BatchedOp V → Stage V
  | .read key => .drain (.get key)
  | .write key value => .push key value
  | .flush => .drain (.reply .flushed)

/-- What a read or write did to the collection: a batch writes, a read finds a value or none. -/
inductive Effect (V : Type) where
  | wrote (w : BufferedWrite V)
  | got (call : Nat) (key : String) (value : Option V)
  deriving DecidableEq, Repr

structure BatchedCall (V : Type) where
  call : Call (BatchedOp V) (Reply V)
  stage : Stage V

/-- The client and its collection, the calls made of it, and what they have done to the collection
so far. -/
structure SyncBatchedClient (V : Type) where
  batchSize : Nat
  contents : UInt64 → Option V
  buffer : List (BufferedWrite V)
  flights : List (Flight V)
  running : List (BatchedCall V)
  clock : Nat
  applied : List (Effect V)

inductive BatchedStep (V : Type) where
  | invoke (op : BatchedOp V)
  | advance (i : Nat)
  | fail (i written : Nat)
  | finish (i : Nat)
  deriving DecidableEq, Repr

def BatchedCall.giving (r : BatchedCall V) (reply : Reply V) (time : Nat) : BatchedCall V :=
  { r with call := { r.call with outcome := some (reply, time) } }

namespace SyncBatchedClient

def new (batchSize : Nat) : SyncBatchedClient V :=
  { batchSize, contents := fun _ => none, buffer := [], flights := [], running := [], clock := 0
    applied := [] }

def calls (s : SyncBatchedClient V) : List (Call (BatchedOp V) (Reply V)) :=
  s.running.map BatchedCall.call

def batchOf (s : SyncBatchedClient V) (i : Nat) : List (BufferedWrite V) :=
  ((s.flights.find? fun flight => flight.call = i).map Flight.batch).getD []

def moveTo (s : SyncBatchedClient V) (i : Nat) (r : BatchedCall V) (stage : Stage V) :
    SyncBatchedClient V :=
  { s with running := s.running.set i { r with stage }, clock := s.clock + 1 }

section Steps

variable (keyToVectorId : String → UInt64)

def store (contents : UInt64 → Option V) (w : BufferedWrite V) : UInt64 → Option V :=
  Function.update contents (keyToVectorId w.key) (some w.value)

/-- The next section under the lock or call of the collection, which succeeds. -/
def advance (s : SyncBatchedClient V) (i : Nat) (r : BatchedCall V) :
    Option (SyncBatchedClient V) :=
  match r.stage with
  | .push key value =>
    let buffer := s.buffer ++ [{ call := i, key, value }]
    -- whether the buffer is full is looked at before the lock is released
    if s.batchSize ≤ buffer.length then
      some { s.moveTo i r (.drain (.reply (.ok .writeOk))) with buffer }
    else some { s.moveTo i r (.done (.ok .writeOk)) with buffer }
  | .drain next =>
    if s.buffer = [] then some (s.moveTo i r next.stage)
    else
      some { s.moveTo i r (.upsert next) with
        buffer := [], flights := s.flights ++ [{ call := i, batch := s.buffer }] }
  | .upsert next =>
    some { s.moveTo i r next.stage with
      contents := (s.batchOf i).foldl (store keyToVectorId) s.contents
      flights := s.flights.filter fun flight => flight.call ≠ i
      applied := s.applied ++ (s.batchOf i).map .wrote }
  | .get key =>
    let value := s.contents (keyToVectorId key)
    some { s.moveTo i r (.done (.ok (.readOk value))) with
      applied := s.applied ++ [.got i key value] }
  | .done _ => none

/-- The call of the collection fails; an upsert does so behind so many writes of its batch, and the
others are gone. -/
def fail (s : SyncBatchedClient V) (i : Nat) (r : BatchedCall V) (written : Nat) :
    Option (SyncBatchedClient V) :=
  match r.stage with
  | .upsert _ =>
    let batch := (s.batchOf i).take written
    some { s.moveTo i r (.done .error) with
      contents := batch.foldl (store keyToVectorId) s.contents
      flights := s.flights.filter fun flight => flight.call ≠ i
      applied := s.applied ++ batch.map .wrote }
  | .get _ => some (s.moveTo i r (.done .error))
  | _ => none

def finish (s : SyncBatchedClient V) (i : Nat) (r : BatchedCall V) :
    Option (SyncBatchedClient V) :=
  match r.stage, r.call.outcome with
  | .done reply, none =>
    some { s with
      running := s.running.set i (r.giving reply s.clock)
      clock := s.clock + 1 }
  | _, _ => none

def perform (s : SyncBatchedClient V) : BatchedStep V → Option (SyncBatchedClient V)
  | .invoke op =>
    some { s with
      running := s.running ++
        [{ call := { op, invoked := s.clock, outcome := none }, stage := op.stage }]
      clock := s.clock + 1 }
  | .advance i => (s.running[i]?).bind fun r => s.advance keyToVectorId i r
  | .fail i written => (s.running[i]?).bind fun r => s.fail keyToVectorId i r written
  | .finish i => (s.running[i]?).bind fun r => s.finish i r

end Steps

/-! ## When the client is a register map -/

/-- The registers behind a call, and what it returns. -/
def serve (keyToVectorId : String → UInt64) (contents : UInt64 → Option V) :
    BatchedOp V → Reply V × (UInt64 → Option V)
  | .read key => (.ok (.readOk (contents (keyToVectorId key))), contents)
  | .write key value =>
    (.ok .writeOk, Function.update contents (keyToVectorId key) (some value))
  | .flush => (.flushed, contents)

/-- The writes in flight and in the buffer, those drained first in front. -/
def pending (s : SyncBatchedClient V) : List (BufferedWrite V) :=
  s.flights.flatMap Flight.batch ++ s.buffer

def flushed (keyToVectorId : String → UInt64) (s : SyncBatchedClient V) : UInt64 → Option V :=
  s.pending.foldl (store keyToVectorId) s.contents

/-- The calls with what they have acknowledged: an error and a flush acknowledge nothing. -/
def history (s : SyncBatchedClient V) : List (Call (BatchedOp V) (Reply V)) :=
  s.calls.map fun call =>
    { call with outcome := call.outcome.filter fun outcome => outcome.1.acknowledges }

/-- One of the writes comes before a write to the same id that another call has drained and that had
returned before the former was invoked. -/
def Overtakes (keyToVectorId : String → UInt64) (s : SyncBatchedClient V) (i : Nat)
    (writes : List (BufferedWrite V)) : Prop :=
  ∃ flight ∈ s.flights, flight.call ≠ i ∧ ∃ earlier ∈ flight.batch, ∃ w ∈ writes,
    keyToVectorId earlier.key = keyToVectorId w.key ∧
      Linear.Precedes s.calls earlier.call w.call

/-- A write to the id is in flight that had returned before the read was invoked. -/
def Stale (keyToVectorId : String → UInt64) (s : SyncBatchedClient V) (i : Nat) (key : String) :
    Prop :=
  ∃ flight ∈ s.flights, ∃ earlier ∈ flight.batch,
    keyToVectorId earlier.key = keyToVectorId key ∧ Linear.Precedes s.calls earlier.call i

/-- No upsert overtakes and no get is stale; an upsert that fails leaves out the write of the call
itself, if it is one, and no other. -/
def Meets (keyToVectorId : String → UInt64) (s : SyncBatchedClient V) : BatchedStep V → Prop
  | .advance i => ∀ r, s.running[i]? = some r →
      (∀ next, r.stage = .upsert next → ¬s.Overtakes keyToVectorId i (s.batchOf i)) ∧
        ∀ key, r.stage = .get key → ¬s.Stale keyToVectorId i key
  | .fail i written => ∀ r, s.running[i]? = some r → ∀ next, r.stage = .upsert next →
      ¬s.Overtakes keyToVectorId i ((s.batchOf i).take written) ∧
        (∀ w ∈ (s.batchOf i).drop written, w.call = i) ∧
        ∀ key value, r.call.op = .write key value → ∃ w ∈ (s.batchOf i).drop written, w.call = i
  | _ => True

end SyncBatchedClient

/-! ### Effects on the registers -/

namespace Effect

def call : Effect V → Nat
  | .wrote w => w.call
  | .got call _ _ => call

def key : Effect V → String
  | .wrote w => w.key
  | .got _ key _ => key

def access (keyToVectorId : String → UInt64) (e : Effect V) : Conflict.Access UInt64 V :=
  { time := 0, call := e.call, key := keyToVectorId e.key
    action :=
      match e with
      | .wrote w => .put w.value
      | .got _ _ value => .got value }

def Takes (keyToVectorId : String → UInt64) (contents : UInt64 → Option V) (e : Effect V)
    (contents' : UInt64 → Option V) : Prop :=
  (e.access keyToVectorId).Takes contents contents'

variable {keyToVectorId : String → UInt64}

/-- Effects on two registers may change places. -/
theorem takes_comm (a b : Effect V) (s s₁ s₂ : UInt64 → Option V)
    (hne : ¬keyToVectorId a.key = keyToVectorId b.key) (ha : a.Takes keyToVectorId s s₁)
    (hb : b.Takes keyToVectorId s₁ s₂) :
    ∃ s₁', b.Takes keyToVectorId s s₁' ∧ a.Takes keyToVectorId s₁' s₂ :=
  Conflict.Access.takes_comm (fun hclash => hne hclash.1) ha hb

/-- A batch takes effect write by write. -/
theorem path_wrote (batch : List (BufferedWrite V)) (contents : UInt64 → Option V) :
    Path (Takes keyToVectorId) contents (batch.map .wrote)
      (batch.foldl (SyncBatchedClient.store keyToVectorId) contents) := by
  induction batch generalizing contents with
  | nil => rfl
  | cons w batch ih =>
    refine ⟨SyncBatchedClient.store keyToVectorId contents w, ⟨fun value hgot => ?_, rfl⟩, ih _⟩
    exact absurd hgot (by simp [access])

def Of (r : BatchedCall V) : Effect V → Prop
  | .wrote w => r.call.op = .write w.key w.value ∧ (∀ key value, r.stage ≠ .push key value) ∧
      r.stage ≠ .done .error
  | .got _ key value => r.call.op = .read key ∧ r.stage = .done (.ok (.readOk value))

end Effect

end Jepsen
end RTDB
