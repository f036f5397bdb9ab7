import Mathlib.Data.List.ReduceOption
import RTDB.Migration.Types

/-!
# Producing batches

The loop of `produce_batches` in `migration/mod.rs`, which `produce_batches_streaming` in
`migration/strategies.rs` repeats with a pause after each batch.
-/

namespace RTDB
namespace Migration

open Storage

variable {σ F : Type}

/-- `fetch_batch(offset, limit)`, with the state that the client keeps between calls. -/
structure SourceClient (σ F : Type) where
  fetchBatch : σ → Nat → Nat → Except Error (List (VectorRecord F)) × σ

structure Producer (σ : Type) where
  client : σ
  offset : Nat
  batchId : Nat

def Producer.start (batchSize : Nat) (client : σ) : Option Checkpoint → Producer σ
  | some saved => { client, offset := saved.offset, batchId := saved.offset / batchSize }
  | none => { client, offset := 0, batchId := 0 }

/-- What a turn of the loop comes to: the end of the loop, or a batch to send. -/
inductive Turn (σ F : Type) where
  | stop (result : Except Error Unit)
  | batch (batch : VectorBatch F) (next : Producer σ)

namespace Producer

variable (source : SourceClient σ F) (batchSize : Nat)

/-- A turn of the loop up to the send; `next` is the producer behind it. -/
def turn (p : Producer σ) : Turn σ F :=
  match source.fetchBatch p.client p.offset batchSize with
  | (.error e, _) => .stop (.error e)
  | (.ok records, client) =>
    if records.isEmpty then .stop (.ok ())
    else
      .batch
        { records
          batchId := p.batchId
          checkpointData :=
            some { offset := wrappingAdd p.offset records.length, batchId := p.batchId } }
        { client
          offset := wrappingAdd p.offset batchSize
          batchId := wrappingAdd p.batchId 1 }

/-- The batches the loop sends while nothing stands in its way, and what it returns. -/
def produceBatches : Nat → Producer σ → Option (List (VectorBatch F) × Except Error Unit)
  | 0, _ => none
  | fuel + 1, p =>
    match p.turn source batchSize with
    | .stop result => some ([], result)
    | .batch batch next =>
      (produceBatches fuel next).map fun rest => (batch :: rest.1, rest.2)

/-- The loop ends, having sent `batches`. -/
def Extracts (p : Producer σ) (batches : List (VectorBatch F)) (result : Except Error Unit) : Prop :=
  ∃ fuel, produceBatches source batchSize fuel p = some (batches, result)

variable {source batchSize} {p : Producer σ}

theorem turn_of_error {e : Error} {client : σ}
    (hfetch : source.fetchBatch p.client p.offset batchSize = (.error e, client)) :
    p.turn source batchSize = .stop (.error e) := by
  rw [turn, hfetch]

theorem turn_of_empty {client : σ}
    (hfetch : source.fetchBatch p.client p.offset batchSize = (.ok [], client)) :
    p.turn source batchSize = .stop (.ok ()) := by
  rw [turn, hfetch]
  rfl

theorem turn_of_records {records : List (VectorRecord F)} {client : σ}
    (hfetch : source.fetchBatch p.client p.offset batchSize = (.ok records, client))
    (hne : records ≠ []) :
    p.turn source batchSize =
      .batch
        { records
          batchId := p.batchId
          checkpointData :=
            some { offset := wrappingAdd p.offset records.length, batchId := p.batchId } }
        { client
          offset := wrappingAdd p.offset batchSize
          batchId := wrappingAdd p.batchId 1 } := by
  rw [turn, hfetch]
  simp only [List.isEmpty_iff, hne, if_false]

theorem turn_eq_batch {batch : VectorBatch F} {next : Producer σ}
    (hturn : p.turn source batchSize = .batch batch next) :
    ∃ client, source.fetchBatch p.client p.offset batchSize = (.ok batch.records, client) ∧
      batch.records ≠ [] ∧
      batch.checkpointData =
        some { offset := wrappingAdd p.offset batch.records.length, batchId := p.batchId } ∧
      next = { client
               offset := wrappingAdd p.offset batchSize
               batchId := wrappingAdd p.batchId 1 } := by
  rcases hfetch : source.fetchBatch p.client p.offset batchSize with ⟨page, client⟩
  cases page with
  | error e =>
    rw [turn_of_error hfetch] at hturn
    exact absurd hturn (by simp)
  | ok records =>
    by_cases hne : records = []
    · subst hne
      rw [turn_of_empty hfetch] at hturn
      exact absurd hturn (by simp)
    · rw [turn_of_records hfetch hne] at hturn
      obtain ⟨rfl, rfl⟩ := Turn.batch.inj hturn
      exact ⟨client, rfl, hne, rfl, rfl⟩

/-! ## Extraction -/

theorem extracts_of_stop {batches : List (VectorBatch F)} {result r : Except Error Unit}
    (hturn : p.turn source batchSize = .stop r) :
    Extracts source batchSize p batches result ↔ batches = [] ∧ result = r := by
  constructor
  · rintro ⟨fuel, hproduce⟩
    cases fuel with
    | zero => exact absurd hproduce (by simp [produceBatches])
    | succ fuel =>
      simp only [produceBatches, hturn, Option.some.injEq, Prod.mk.injEq] at hproduce
      exact ⟨hproduce.1.symm, hproduce.2.symm⟩
  · rintro ⟨rfl, rfl⟩
    exact ⟨1, by simp only [produceBatches, hturn]⟩

theorem extracts_of_batch {batches : List (VectorBatch F)} {result : Except Error Unit}
    {batch : VectorBatch F} {next : Producer σ}
    (hturn : p.turn source batchSize = .batch batch next) :
    Extracts source batchSize p batches result ↔
      ∃ rest, batches = batch :: rest ∧ Extracts source batchSize next rest result := by
  constructor
  · rintro ⟨fuel, hproduce⟩
    cases fuel with
    | zero => exact absurd hproduce (by simp [produceBatches])
    | succ fuel =>
      simp only [produceBatches, hturn] at hproduce
      obtain ⟨⟨rest, r⟩, hrest, heq⟩ := Option.map_eq_some_iff.mp hproduce
      obtain ⟨rfl, rfl⟩ := Prod.mk.inj heq
      exact ⟨rest, rfl, fuel, hrest⟩
  · rintro ⟨rest, rfl, fuel, hrest⟩
    exact ⟨fuel + 1, by simp only [produceBatches, hturn, hrest, Option.map_some]⟩

/-- The loop sends one list of batches. -/
theorem Extracts.unique {batches batches' : List (VectorBatch F)} {result result' : Except Error Unit}
    (hextracts : Extracts source batchSize p batches result)
    (hextracts' : Extracts source batchSize p batches' result') :
    batches = batches' ∧ result = result' := by
  induction batches generalizing p batches' with
  | nil =>
    cases hturn : p.turn source batchSize with
    | stop r =>
      obtain ⟨-, rfl⟩ := (extracts_of_stop hturn).mp hextracts
      obtain ⟨rfl, rfl⟩ := (extracts_of_stop hturn).mp hextracts'
      exact ⟨rfl, rfl⟩
    | batch batch next =>
      obtain ⟨rest, heq, -⟩ := (extracts_of_batch hturn).mp hextracts
      exact absurd heq (by simp)
  | cons first batches ih =>
    cases hturn : p.turn source batchSize with
    | stop r =>
      obtain ⟨heq, -⟩ := (extracts_of_stop hturn).mp hextracts
      exact absurd heq (by simp)
    | batch batch next =>
      obtain ⟨rest, heq, hrest⟩ := (extracts_of_batch hturn).mp hextracts
      obtain ⟨rest', rfl, hrest'⟩ := (extracts_of_batch hturn).mp hextracts'
      obtain ⟨rfl, rfl⟩ := List.cons.inj heq
      obtain ⟨rfl, rfl⟩ := ih hrest hrest'
      exact ⟨rfl, rfl⟩

/-- The loop does not end where every turn leads to another batch. -/
theorem not_extracts_of_goes {Q : Producer σ → Prop}
    (hgoes : ∀ p, Q p → ∃ batch next, p.turn source batchSize = .batch batch next ∧ Q next)
    {batches : List (VectorBatch F)} {result : Except Error Unit} (hp : Q p) :
    ¬ Extracts source batchSize p batches result := by
  induction batches generalizing p with
  | nil =>
    intro hextracts
    obtain ⟨batch, next, hturn, -⟩ := hgoes p hp
    obtain ⟨rest, heq, -⟩ := (extracts_of_batch hturn).mp hextracts
    exact absurd heq (by simp)
  | cons first batches ih =>
    intro hextracts
    obtain ⟨batch, next, hturn, hnext⟩ := hgoes p hp
    obtain ⟨rest, heq, hrest⟩ := (extracts_of_batch hturn).mp hextracts
    obtain ⟨-, rfl⟩ := List.cons.inj heq
    exact ih hnext hrest

end Producer

def sent (batches : List (VectorBatch F)) : List (VectorRecord F) :=
  batches.flatMap VectorBatch.records

/-! ## The producer's task -/

/-- Where the task stands: before a fetch, before a send, or behind the loop. -/
inductive Producing (σ F : Type) where
  | fetching (p : Producer σ)
  | sending (batch : VectorBatch F) (next : Producer σ)
  | finished (result : Except Error Unit)

namespace Producing

def fetch (source : SourceClient σ F) (batchSize : Nat) : Producing σ F → Option (Producing σ F)
  | .fetching p =>
    match p.turn source batchSize with
    | .stop result => some (.finished result)
    | .batch batch next => some (.sending batch next)
  | _ => none

/-- The task keeps its sender until it is finished. -/
def senders : Producing σ F → Nat
  | .fetching _ | .sending _ _ => 1
  | .finished _ => 0

def Left (source : SourceClient σ F) (batchSize : Nat) : Producing σ F → List (VectorBatch F) → Prop
  | .fetching p, rest => ∃ result, p.Extracts source batchSize rest result
  | .sending _ p, rest => ∃ result, p.Extracts source batchSize rest result
  | .finished _, rest => rest = []

/-- The batch that waits for room in the channel. -/
def held : Producing σ F → List (VectorBatch F)
  | .fetching _ => []
  | .sending batch _ => [batch]
  | .finished _ => []

section left

variable {source : SourceClient σ F} {batchSize : Nat} {p next : Producer σ}
  {batch : VectorBatch F} {rest : List (VectorBatch F)}

theorem Left.fetched (hleft : Left source batchSize (.fetching p) rest)
    (hturn : p.turn source batchSize = .batch batch next) :
    ∃ rest', rest = batch :: rest' ∧ Left source batchSize (.sending batch next) rest' := by
  obtain ⟨result, hextracts⟩ := hleft
  obtain ⟨rest', hrest, hnext⟩ := (Producer.extracts_of_batch hturn).mp hextracts
  exact ⟨rest', hrest, result, hnext⟩

theorem fetch_cases {producing producing' : Producing σ F}
    (hfetch : producing.fetch source batchSize = some producing') :
    ∃ p, producing = .fetching p ∧
      ((∃ batch next, p.turn source batchSize = .batch batch next ∧
          producing' = .sending batch next) ∨
        ∃ result, p.turn source batchSize = .stop result ∧ producing' = .finished result) := by
  cases producing with
  | fetching p =>
    refine ⟨p, rfl, ?_⟩
    cases hturn : p.turn source batchSize with
    | stop result =>
      simp only [fetch, hturn, Option.some.injEq] at hfetch
      exact Or.inr ⟨result, rfl, hfetch.symm⟩
    | batch batch next =>
      simp only [fetch, hturn, Option.some.injEq] at hfetch
      exact Or.inl ⟨batch, next, rfl, hfetch.symm⟩
  | sending batch next => exact absurd hfetch (by simp [fetch])
  | finished result => exact absurd hfetch (by simp [fetch])

theorem Left.stopped {r : Except Error Unit} (hleft : Left source batchSize (.fetching p) rest)
    (hturn : p.turn source batchSize = .stop r) : rest = [] := by
  obtain ⟨result, hextracts⟩ := hleft
  exact ((Producer.extracts_of_stop hturn).mp hextracts).1

end left

end Producing

/-! ## What a source serves -/

/-- A source of slots, each with a record or without: a fetch that succeeds brings the records of some
of the slots from the offset on, at most `limit`. -/
structure Serves (source : SourceClient σ F) (slots : List (Option (VectorRecord F))) : Prop where
  page : ∀ {client offset limit page next},
    source.fetchBatch client offset limit = (.ok page, next) →
      ∃ k, k ≤ limit ∧ page = ((slots.drop offset).take k).reduceOption
  /-- A vector holds at most `isize::MAX` elements. -/
  fits : slots.length < 2 ^ 63

/-- A fixed list of records: a fetch that succeeds brings between one and `limit` of them from the
offset on, and none only at the end. -/
structure ServesRecords (source : SourceClient σ F) (records : List (VectorRecord F)) : Prop where
  page : ∀ {client offset limit page next},
    source.fetchBatch client offset limit = (.ok page, next) →
      page <+: records.drop offset ∧ page.length ≤ limit
  ends : ∀ {client offset limit next}, 1 ≤ limit →
    source.fetchBatch client offset limit = (.ok [], next) → records.length ≤ offset
  fits : records.length < 2 ^ 63

theorem reduceOption_map_some {α : Type*} (l : List α) : (l.map some).reduceOption = l := by
  induction l with
  | nil => rfl
  | cons a l ih => rw [List.map_cons, List.reduceOption_cons_of_some, ih]

theorem ServesRecords.serves {source : SourceClient σ F} {records : List (VectorRecord F)}
    (hserves : ServesRecords source records) : Serves source (records.map some) where
  page := by
    intro client offset limit page next hfetch
    obtain ⟨hpart, hlength⟩ := hserves.page hfetch
    refine ⟨page.length, hlength, ?_⟩
    rw [← List.map_drop, ← List.map_take, reduceOption_map_some]
    exact List.prefix_iff_eq_take.mp hpart
  fits := by
    rw [List.length_map]
    exact hserves.fits

def fixedSource (records : List (VectorRecord F)) : SourceClient Unit F where
  fetchBatch := fun client offset limit => (.ok ((records.drop offset).take limit), client)

theorem fixedSource_serves {records : List (VectorRecord F)} (hfits : records.length < 2 ^ 63) :
    ServesRecords (fixedSource records) records where
  page := by
    intro client offset limit page next hfetch
    obtain rfl := Except.ok.inj (congrArg Prod.fst hfetch)
    exact ⟨List.take_prefix limit _, List.length_take_le limit _⟩
  ends := by
    intro client offset limit next hpos hfetch
    have hnone := Except.ok.inj (congrArg Prod.fst hfetch)
    rcases List.take_eq_nil_iff.mp hnone with hzero | hdrop
    · omega
    · exact List.drop_eq_nil_iff.mp hdrop
  fits := hfits

end Migration
end RTDB
