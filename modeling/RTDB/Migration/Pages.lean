import Mathlib.Data.List.Perm.Subperm
import RTDB.Migration.Stream

/-!
# Pages on their way

The batches between the source and the target, and which steps of a streaming migration lose nothing
of them.
-/

namespace RTDB
namespace Migration

open Storage

variable {σ F : Type}

/-! ## What is on its way -/

def Consuming.held : Consuming F → List (VectorBatch F)
  | .processing batch => [batch]
  | .receiving | .saving _ | .returned _ => []

/-- The batches that were fetched and not processed. -/
def Stream.pending (s : Stream σ F) : List (VectorBatch F) :=
  s.consuming.held ++ s.queue ++ s.producing.held

def landing (formats : Formats F) (config : MigrationConfig) (records : List (VectorRecord F)) :
    List (VectorRecord F) :=
  records.map (transform formats config.transformations)

section steps

variable {formats : Formats F} {config : MigrationConfig} {s : Stream σ F} {batch : VectorBatch F}
  {insert : Except Error Unit}

theorem landing_append (first rest : List (VectorRecord F)) :
    landing formats config (first ++ rest) =
      landing formats config first ++ landing formats config rest :=
  List.map_append

theorem length_landing (records : List (VectorRecord F)) :
    (landing formats config records).length = records.length :=
  List.length_map _

/-- A batch that is processed lands, unless the run is dry. -/
theorem landed_afterProcessed (hdry : config.dryRun = false)
    (hok : (processBatch formats config batch insert).result = .ok ()) :
    (s.afterProcessed batch (processBatch formats config batch insert)).landed =
      s.landed ++ landing formats config batch.records := by
  rw [Stream.afterProcessed, inserted_of_result_ok hdry hok]
  rfl

theorem landed_afterProcessed_dryRun (hdry : config.dryRun = true) :
    (s.afterProcessed batch (processBatch formats config batch insert)).landed = s.landed := by
  rw [Stream.afterProcessed, processBatch_dryRun hdry]
  exact List.append_nil s.landed

end steps

/-! ## Steps that lose nothing -/

def restOf (slots : List (Option (VectorRecord F))) (offset : Nat) : List (VectorRecord F) :=
  (slots.drop offset).reduceOption

/-- The records of the `limit` slots from the offset on. -/
def window (slots : List (Option (VectorRecord F))) (offset limit : Nat) : List (VectorRecord F) :=
  ((slots.drop offset).take limit).reduceOption

/-- A page has all records of its slots, and is empty only where no records are left; a fetch may fail
only there. -/
def FullPage (slots : List (Option (VectorRecord F))) (batchSize offset : Nat) :
    Except Error (List (VectorRecord F)) → Prop
  | .ok page =>
    page.length = (window slots offset batchSize).length ∧
      (page.length = 0 → (restOf slots offset).length = 0)
  | .error _ => (restOf slots offset).length = 0

instance decidableFullPage (slots : List (Option (VectorRecord F))) (batchSize offset : Nat) :
    (answer : Except Error (List (VectorRecord F))) →
      Decidable (FullPage slots batchSize offset answer)
  | .ok page =>
    inferInstanceAs (Decidable (page.length = (window slots offset batchSize).length ∧
      (page.length = 0 → (restOf slots offset).length = 0)))
  | .error _ => inferInstanceAs (Decidable ((restOf slots offset).length = 0))

def Producing.Kept (source : SourceClient σ F) (slots : List (Option (VectorRecord F)))
    (batchSize : Nat) : Producing σ F → Prop
  | .fetching p =>
    FullPage slots batchSize p.offset (source.fetchBatch p.client p.offset batchSize).1
  | .sending _ _ | .finished _ => True

instance decidableProducingKept (source : SourceClient σ F)
    (slots : List (Option (VectorRecord F))) (batchSize : Nat) :
    (producing : Producing σ F) → Decidable (producing.Kept source slots batchSize)
  | .fetching p =>
    decidableFullPage slots batchSize p.offset (source.fetchBatch p.client p.offset batchSize).1
  | .sending _ _ | .finished _ => isTrue trivial

def Consuming.Kept (formats : Formats F) (config : MigrationConfig) (insert : Except Error Unit) :
    Consuming F → Prop
  | .processing batch =>
    config.dryRun = false ∧ (processBatch formats config batch insert).result = .ok ()
  | .receiving | .saving _ | .returned _ => True

instance decidableConsumingKept (formats : Formats F) (config : MigrationConfig)
    (insert : Except Error Unit) :
    (consuming : Consuming F) → Decidable (consuming.Kept formats config insert)
  | .processing batch =>
    inferInstanceAs (Decidable
      (config.dryRun = false ∧ (processBatch formats config batch insert).result = .ok ()))
  | .receiving | .saving _ | .returned _ => isTrue trivial

/-- A step that fetches brings a full page, and one that processes a batch inserts it. -/
def Stream.Kept (source : SourceClient σ F) (formats : Formats F) (config : MigrationConfig)
    (slots : List (Option (VectorRecord F))) (s : Stream σ F) : Action → Prop
  | .fetch => s.producing.Kept source slots config.batchSize
  | .process insert => s.consuming.Kept formats config insert
  | .send | .receive | .save _ => True

instance decidableKept (source : SourceClient σ F) (formats : Formats F) (config : MigrationConfig)
    (slots : List (Option (VectorRecord F))) (s : Stream σ F) :
    (a : Action) → Decidable (s.Kept source formats config slots a)
  | .fetch => decidableProducingKept source slots config.batchSize s.producing
  | .process insert => decidableConsumingKept formats config insert s.consuming
  | .send | .receive | .save _ => isTrue trivial

/-- What has landed or is about to. -/
def Stream.reach (formats : Formats F) (config : MigrationConfig) (s : Stream σ F) :
    List (VectorRecord F) :=
  s.landed ++ landing formats config (sent s.pending)

section reach

variable {source : SourceClient σ F} {formats : Formats F} {config : MigrationConfig}
  {slots : List (Option (VectorRecord F))} {s : Stream σ F}

theorem kept_fetch {p : Producer σ} (hp : s.producing = .fetching p)
    (hkept : s.Kept source formats config slots .fetch) :
    FullPage slots config.batchSize p.offset
      (source.fetchBatch p.client p.offset config.batchSize).1 := by
  rw [Stream.Kept, hp] at hkept
  exact hkept

theorem kept_process {batch : VectorBatch F} {insert : Except Error Unit}
    (hc : s.consuming = .processing batch)
    (hkept : s.Kept source formats config slots (.process insert)) :
    config.dryRun = false ∧ (processBatch formats config batch insert).result = .ok () := by
  rw [Stream.Kept, hc] at hkept
  exact hkept

theorem sent_append (first rest : List (VectorBatch F)) :
    sent (first ++ rest) = sent first ++ sent rest :=
  List.flatMap_append

theorem sent_singleton (batch : VectorBatch F) : sent [batch] = batch.records := by
  simp [sent]

theorem pending_fetched {p next : Producer σ} {batch : VectorBatch F}
    (hp : s.producing = .fetching p) :
    { s with producing := .sending batch next }.pending = s.pending ++ [batch] := by
  rw [Stream.pending, Stream.pending, hp, Producing.held, Producing.held, List.append_nil]

theorem pending_stopped {p : Producer σ} {result : Except Error Unit}
    (hp : s.producing = .fetching p) :
    ({ s with producing := .finished result } : Stream σ F).pending = s.pending := by
  rw [Stream.pending, Stream.pending, hp, Producing.held, Producing.held]

theorem pending_sent {next : Producer σ} {batch : VectorBatch F}
    (hp : s.producing = .sending batch next) :
    { s with producing := .fetching next, queue := s.queue ++ [batch] }.pending = s.pending := by
  rw [Stream.pending, Stream.pending, hp, Producing.held, Producing.held, List.append_nil,
    List.append_assoc]

theorem pending_received {batch : VectorBatch F} {rest : List (VectorBatch F)}
    (hc : s.consuming = .receiving) (hqueue : s.queue = batch :: rest) :
    { s with queue := rest, consuming := .processing batch }.pending = s.pending := by
  rw [Stream.pending, Stream.pending, hc, hqueue]
  rfl

theorem pending_processing {batch : VectorBatch F} (hc : s.consuming = .processing batch) :
    s.pending = batch :: (s.queue ++ s.producing.held) := by
  rw [Stream.pending, hc]
  rfl

theorem pending_of_held_nil (hc : s.consuming.held = []) :
    s.pending = s.queue ++ s.producing.held := by
  rw [Stream.pending, hc, List.nil_append]

/-- Between two batches the receiver has none in hand. -/
theorem pending_idle {s' : Stream σ F} (hheld : s.consuming.held = [])
    (hheld' : s'.consuming.held = []) (hqueue : s'.queue = s.queue)
    (hp : s'.producing = s.producing) : s'.pending = s.pending := by
  rw [pending_of_held_nil hheld, pending_of_held_nil hheld', hqueue, hp]

theorem held_afterProcessed (batch : VectorBatch F) (processed : Processed F) :
    (s.afterProcessed batch processed).consuming.held = [] := by
  rw [Stream.afterProcessed]
  cases batch.checkpointData with
  | none => rfl
  | some checkpoint => rfl

theorem not_returned_afterProcessed (batch : VectorBatch F) (processed : Processed F)
    (result : Except Error Unit) :
    (s.afterProcessed batch processed).consuming ≠ .returned result := by
  rw [Stream.afterProcessed]
  cases batch.checkpointData with
  | none => exact fun h => by cases h
  | some checkpoint => exact fun h => by cases h

theorem reach_idle {s' : Stream σ F} (hheld : s.consuming.held = []) (hheld' : s'.consuming.held = [])
    (hqueue : s'.queue = s.queue) (hp : s'.producing = s.producing) (hlanded : s'.landed = s.landed) :
    s'.reach formats config = s.reach formats config := by
  rw [Stream.reach, Stream.reach, pending_idle hheld hheld' hqueue hp, hlanded]

theorem reach_fetched {p next : Producer σ} {batch : VectorBatch F}
    (hp : s.producing = .fetching p) :
    { s with producing := .sending batch next }.reach formats config =
      s.reach formats config ++ landing formats config batch.records := by
  rw [Stream.reach, Stream.reach, pending_fetched hp, sent_append, landing_append, sent_singleton,
    List.append_assoc]

theorem reach_processing {batch : VectorBatch F} (hc : s.consuming = .processing batch) :
    s.reach formats config =
      s.landed ++ (landing formats config batch.records ++
        landing formats config (sent (s.queue ++ s.producing.held))) := by
  have hsent : sent (batch :: (s.queue ++ s.producing.held)) =
      batch.records ++ sent (s.queue ++ s.producing.held) := List.flatMap_cons
  rw [Stream.reach, pending_processing hc, hsent, landing_append]

/-- A batch that is inserted moves from what is on its way to what has landed. -/
theorem reach_processed {batch : VectorBatch F} {insert : Except Error Unit}
    (hc : s.consuming = .processing batch) (hdry : config.dryRun = false)
    (hok : (processBatch formats config batch insert).result = .ok ()) :
    (s.afterProcessed batch (processBatch formats config batch insert)).reach formats config =
      s.reach formats config := by
  rw [reach_processing hc, Stream.reach, pending_of_held_nil (held_afterProcessed batch _),
    landed_afterProcessed hdry hok, List.append_assoc]
  rfl

/-- The receiver returns without an error only behind an empty channel without a sender. -/
def Stream.Closed (s : Stream σ F) : Prop :=
  s.consuming = .returned (.ok ()) → s.queue = [] ∧ ∃ result, s.producing = .finished result

theorem closed_move {s' : Stream σ F} {a : Action} (hclosed : s.Closed)
    (hmove : Stream.Move source formats config s a s') : s'.Closed := by
  intro hdone
  cases hmove with
  | fetched hp _ =>
    obtain ⟨-, result, hfinished⟩ := hclosed hdone
    exact absurd (hp.symm.trans hfinished) (by simp)
  | stopped _ _ => exact ⟨(hclosed hdone).1, _, rfl⟩
  | sent _ hlistens _ => exact absurd hdone (hlistens _)
  | dropped _ _ => exact ⟨(hclosed hdone).1, _, rfl⟩
  | received _ _ => exact absurd hdone (by simp)
  | closed _ hqueue hp => exact ⟨hqueue, _, hp⟩
  | processed _ _ => exact absurd hdone (not_returned_afterProcessed _ _ _)
  | failed _ _ => exact absurd hdone (by simp [Stream.afterFailed])
  | saved _ => exact absurd hdone (by simp)
  | unsaved _ => exact absurd hdone (by simp)

/-- A receiver that has returned stays so. -/
theorem returned_move {s' : Stream σ F} {a : Action} {result : Except Error Unit}
    (hreturned : s.consuming = .returned result)
    (hmove : Stream.Move source formats config s a s') : s'.consuming = .returned result := by
  cases hmove with
  | fetched _ _ => exact hreturned
  | stopped _ _ => exact hreturned
  | sent _ _ _ => exact hreturned
  | dropped _ _ => exact hreturned
  | received hc _ => exact absurd (hc.symm.trans hreturned) (by simp)
  | closed hc _ _ => exact absurd (hc.symm.trans hreturned) (by simp)
  | processed hc _ => exact absurd (hc.symm.trans hreturned) (by simp)
  | failed hc _ => exact absurd (hc.symm.trans hreturned) (by simp)
  | saved hc => exact absurd (hc.symm.trans hreturned) (by simp)
  | unsaved hc => exact absurd (hc.symm.trans hreturned) (by simp)

/-- A run that returns without an error keeps what its steps keep unless one returns an error. -/
theorem Stream.invariant_of_returned {P : Stream σ F → Prop} {condition : Stream σ F → Action → Prop}
    (hmove : ∀ (s : Stream σ F) (a : Action) (s' : Stream σ F), s.Closed →
      (∀ e, s'.consuming ≠ .returned (.error e)) → P s → condition s a →
      Stream.Move source formats config s a s' → P s')
    {client : σ} {resumed disk : Option Checkpoint} {actions : List Action}
    (hstart : P (Stream.start config.batchSize client resumed disk))
    (halong : Runs.Along (Stream.step source formats config) condition
      (Stream.start config.batchSize client resumed disk) actions)
    (hrun : actions.foldlM (Stream.step source formats config)
      (Stream.start config.batchSize client resumed disk) = some s)
    (hdone : s.consuming = .returned (.ok ())) : s.Closed ∧ P s := by
  have hall : (∃ e, s.consuming = .returned (.error e)) ∨ s.Closed ∧ P s := by
    refine halong.foldlM
      (Q := fun s => (∃ e, s.consuming = .returned (.error e)) ∨ s.Closed ∧ P s)
      (fun s a s' hs hcondition hstep => ?_) (Or.inr ⟨?_, hstart⟩) hrun
    · have hgoes := Stream.move_of_step hstep
      rcases hs with ⟨e, hreturned⟩ | ⟨hclosed, hkept⟩
      · exact Or.inl ⟨e, returned_move hreturned hgoes⟩
      · by_cases hlive : ∃ e, s'.consuming = .returned (.error e)
        · exact Or.inl hlive
        · exact Or.inr ⟨closed_move hclosed hgoes,
            hmove s a s' hclosed (fun e he => hlive ⟨e, he⟩) hkept hcondition hgoes⟩
    · exact fun hdone => absurd hdone (by simp [Stream.start])
  rcases hall with ⟨e, hreturned⟩ | hkept
  · exact absurd (hdone.symm.trans hreturned) (by simp)
  · exact hkept

/-! ### Slots -/

theorem restOf_eq (slots : List (Option (VectorRecord F))) (offset limit : Nat) :
    restOf slots offset = window slots offset limit ++ restOf slots (offset + limit) := by
  rw [restOf, window, restOf, ← List.drop_drop, ← List.reduceOption_append, List.take_append_drop]

theorem take_add_eq (slots : List (Option (VectorRecord F))) (offset limit : Nat) :
    (slots.take (offset + limit)).reduceOption =
      (slots.take offset).reduceOption ++ window slots offset limit := by
  rw [List.take_add, List.reduceOption_append, window]

theorem take_append_restOf (slots : List (Option (VectorRecord F))) (offset : Nat) :
    (slots.take offset).reduceOption ++ restOf slots offset = slots.reduceOption := by
  rw [restOf, ← List.reduceOption_append, List.take_append_drop]

theorem page_of_turn {batchSize : Nat} {p next : Producer σ} {batch : VectorBatch F}
    (hserves : Serves source slots) (hturn : p.turn source batchSize = .batch batch next) :
    batch.records ≠ [] ∧ batch.records.Sublist (window slots p.offset batchSize) ∧
      p.offset < slots.length ∧ next.offset = wrappingAdd p.offset batchSize := by
  obtain ⟨client, hfetch, hne, -, rfl⟩ := Producer.turn_eq_batch hturn
  obtain ⟨k, hk, hpage⟩ := hserves.page hfetch
  refine ⟨hne, ?_, ?_, rfl⟩
  · rw [hpage]
    exact (List.take_prefix_take_left hk).sublist.filterMap id
  · by_contra hpast
    rw [List.drop_eq_nil_of_le (Nat.le_of_not_lt hpast), List.take_nil] at hpage
    exact hne hpage

/-- Where the loop ends, the step loses nothing exactly if no records are left. -/
theorem fullPage_of_stop {batchSize : Nat} {p : Producer σ} {result : Except Error Unit}
    (hturn : p.turn source batchSize = .stop result) :
    FullPage slots batchSize p.offset (source.fetchBatch p.client p.offset batchSize).1 ↔
      (restOf slots p.offset).length = 0 := by
  rcases hfetch : source.fetchBatch p.client p.offset batchSize with ⟨answer, client⟩
  cases answer with
  | error e => exact Iff.rfl
  | ok page =>
    have hempty : page = [] := by
      by_contra hne
      rw [Producer.turn_of_records hfetch hne] at hturn
      exact absurd hturn (by simp)
    subst hempty
    constructor
    · intro hfull
      exact hfull.2 rfl
    · intro hrest
      have hsplit := congrArg List.length (restOf_eq slots p.offset batchSize)
      rw [List.length_append] at hsplit
      exact ⟨by rw [List.length_nil]; omega, fun _ => hrest⟩

theorem fullPage_of_batch {batchSize : Nat} {p next : Producer σ} {batch : VectorBatch F}
    (hturn : p.turn source batchSize = .batch batch next) :
    FullPage slots batchSize p.offset (source.fetchBatch p.client p.offset batchSize).1 ↔
      batch.records.length = (window slots p.offset batchSize).length := by
  obtain ⟨client, hfetch, hne, -, -⟩ := Producer.turn_eq_batch hturn
  have hpos := List.length_pos_iff.mpr hne
  rw [hfetch]
  exact ⟨fun hpage => hpage.1, fun hpage => ⟨hpage, fun hzero => absurd hzero (by omega)⟩⟩

def Producer.Steady (batchSize : Nat) (p : Producer σ) : Prop := p.offset = 0 ∨ batchSize ≤ p.offset

theorem Producer.Steady.turn {batchSize : Nat} {p next : Producer σ} {batch : VectorBatch F}
    (hsteady : p.Steady batchSize) (hserves : Serves source slots)
    (hbatch : batchSize < 2 ^ 64) (hturn : p.turn source batchSize = .batch batch next) :
    next.offset = p.offset + batchSize ∧ next.Steady batchSize := by
  obtain ⟨-, -, hinside, hoffset⟩ := page_of_turn hserves hturn
  have hsize := hserves.fits
  have hwrap : p.offset + batchSize < 2 ^ 64 := by
    rcases hsteady with hzero | hle
    · omega
    · omega
  rw [hoffset, Producer.Steady, hoffset, wrappingAdd_eq hwrap]
  exact ⟨rfl, Or.inr (Nat.le_add_left _ _)⟩

end reach

end Migration
end RTDB
