import RTDB.Migration.Pages

/-!
# Interrupted and resumed migrations

A checkpoint holds an offset in the source: the records before it are taken to have been inserted.
The producer steps by `batch_size`, whatever a page held, and a batch that fails is passed over.
-/

namespace RTDB
namespace Migration

open Storage

variable {σ F : Type}

/-! ## Pages in order -/

/-- A batch that holds a page of the source, with the checkpoint behind it. -/
structure IsPage (records : List (VectorRecord F)) (start : Nat) (batch : VectorBatch F) : Prop where
  nonempty : batch.records ≠ []
  page : batch.records <+: records.drop start
  checkpoint : ∃ batchId,
    batch.checkpointData = some { offset := start + batch.records.length, batchId }

def Follows (records : List (VectorRecord F)) : Nat → List (VectorBatch F) → Nat → Prop
  | first, [], last => first ≤ last
  | first, batch :: rest, last =>
    ∃ start, first ≤ start ∧ IsPage records start batch ∧
      Follows records (start + batch.records.length) rest last

section pages

variable {records : List (VectorRecord F)} {first last start : Nat} {batch : VectorBatch F}
  {batches : List (VectorBatch F)}

theorem IsPage.end_le (hpage : IsPage records start batch) :
    start + batch.records.length ≤ records.length := by
  have hlength := hpage.page.length_le
  have hpos := List.length_pos_iff.mpr hpage.nonempty
  rw [List.length_drop] at hlength
  omega

/-- The records up to the end of a page. -/
theorem IsPage.take_end (hpage : IsPage records start batch) :
    records.take (start + batch.records.length) = records.take start ++ batch.records := by
  rw [List.take_add, ← List.prefix_iff_eq_take.mp hpage.page]

theorem Follows.weaken {first' : Nat} (hle : first' ≤ first)
    (hfollows : Follows records first batches last) : Follows records first' batches last := by
  cases batches with
  | nil => exact Nat.le_trans hle hfollows
  | cons batch batches =>
    obtain ⟨start, hstart, hrest⟩ := hfollows
    exact ⟨start, Nat.le_trans hle hstart, hrest⟩

theorem Follows.concat {last' : Nat} (hfollows : Follows records first batches last)
    (hpage : IsPage records last batch) (hlast : last + batch.records.length ≤ last') :
    Follows records first (batches ++ [batch]) last' := by
  induction batches generalizing first with
  | nil => exact ⟨last, hfollows, hpage, hlast⟩
  | cons b batches ih =>
    obtain ⟨start, hstart, hb, hrest⟩ := hfollows
    exact ⟨start, hstart, hb, ih hrest⟩

/-- What a turn of the loop sends, from a source that serves the records. -/
theorem isPage_of_turn {source : SourceClient σ F} {batchSize : Nat} {p next : Producer σ}
    (hserves : ServesRecords source records) (hturn : p.turn source batchSize = .batch batch next) :
    IsPage records p.offset batch ∧ batch.records.length ≤ batchSize ∧
      next.offset = wrappingAdd p.offset batchSize := by
  obtain ⟨client, hfetch, hne, hcheckpoint, rfl⟩ := Producer.turn_eq_batch hturn
  obtain ⟨hpart, hlength⟩ := hserves.page hfetch
  have hfits : p.offset + batch.records.length < 2 ^ 64 := by
    have hle := hpart.length_le
    have hpos := List.length_pos_iff.mpr hne
    have hsize := hserves.fits
    rw [List.length_drop] at hle
    omega
  rw [wrappingAdd_eq hfits] at hcheckpoint
  exact ⟨⟨hne, hpart, p.batchId, hcheckpoint⟩, hlength, rfl⟩

end pages

/-! ## Order -/

/-- The producer goes on at the offset, which a run from the start of the source has not wrapped. -/
def Producing.At (batchSize next : Nat) : Producing σ F → Prop
  | .fetching p => p.offset = next ∧ (next = 0 ∨ batchSize ≤ next)
  | .sending _ p => p.offset = next ∧ batchSize ≤ next
  | .finished _ => True

/-- The batches on their way hold pages behind `position`, and nothing from behind it has landed. -/
structure InOrder (formats : Formats F) (config : MigrationConfig) (records : List (VectorRecord F))
    (s : Stream σ F) (position next : Nat) : Prop where
  follows : Follows records position s.pending next
  producing : s.producing.At config.batchSize next
  saving : ∀ checkpoint, s.consuming = .saving checkpoint →
    checkpoint.offset = position ∧ 0 < position
  inside : position ≤ records.length
  landed : s.landed.Sublist (landing formats config (records.take position))
  dry : config.dryRun = true → s.landed = []
  processed : config.dryRun = false → s.processedRecords = s.landed.length

section inOrder

variable {source : SourceClient σ F} {formats : Formats F} {config : MigrationConfig}
  {records : List (VectorRecord F)} {s s' : Stream σ F} {position next : Nat}

theorem Follows.of_append {batches rest : List (VectorBatch F)} {first last : Nat}
    (hfollows : Follows records first (batches ++ rest) last) :
    ∃ last', Follows records first batches last' := by
  induction batches generalizing first with
  | nil => exact ⟨first, Nat.le_refl first⟩
  | cons batch batches ih =>
    obtain ⟨start, hstart, hpage, hrest⟩ := hfollows
    obtain ⟨last', hlast⟩ := ih hrest
    exact ⟨last', start, hstart, hpage, hlast⟩

theorem inOrder_start (client : σ) (disk : Option Checkpoint) :
    InOrder formats config records (Stream.start config.batchSize client none disk) 0 0 where
  follows := Nat.le_refl 0
  producing := ⟨rfl, Or.inl rfl⟩
  saving := fun _ hc => absurd hc (by simp [Stream.start])
  inside := Nat.zero_le _
  landed := List.nil_sublist _
  dry := fun _ => rfl
  processed := fun _ => rfl

theorem InOrder.fetched {p p' : Producer σ} {batch : VectorBatch F}
    (hin : InOrder formats config records s position next) (hserves : ServesRecords source records)
    (hp : s.producing = .fetching p) (hturn : p.turn source config.batchSize = .batch batch p') :
    InOrder formats config records { s with producing := .sending batch p' } position
      (next + config.batchSize) := by
  obtain ⟨hpage, hlength, hoffset⟩ := isPage_of_turn hserves hturn
  have hat := hin.producing
  rw [hp] at hat
  obtain ⟨rfl, hwrap⟩ := hat
  have hend := hpage.end_le
  have hpos := List.length_pos_iff.mpr hpage.nonempty
  have hsize := hserves.fits
  have hbatch := config.batchSize_lt
  rw [wrappingAdd_eq (by omega)] at hoffset
  have hfollows := hin.follows
  rw [Stream.pending, hp, Producing.held, List.append_nil] at hfollows
  exact
    { follows := hfollows.concat hpage (by omega)
      producing := ⟨hoffset, by omega⟩
      saving := hin.saving
      inside := hin.inside
      landed := hin.landed
      dry := hin.dry
      processed := hin.processed }

/-- The batch in hand is the first of those on their way. -/
theorem InOrder.head {batch : VectorBatch F} (hin : InOrder formats config records s position next)
    (hc : s.consuming = .processing batch) :
    ∃ start, position ≤ start ∧ IsPage records start batch ∧
      Follows records (start + batch.records.length) (s.queue ++ s.producing.held) next := by
  have hfollows := hin.follows
  rw [Stream.pending, hc] at hfollows
  exact hfollows

theorem InOrder.processed_step {batch : VectorBatch F} {insert : Except Error Unit}
    (hin : InOrder formats config records s position next) (hserves : ServesRecords source records)
    (hc : s.consuming = .processing batch)
    (hok : (processBatch formats config batch insert).result = .ok ()) :
    ∃ position', InOrder formats config records
      (s.afterProcessed batch (processBatch formats config batch insert)) position' next := by
  obtain ⟨start, hstart, hpage, hrest⟩ := hin.head hc
  obtain ⟨batchId, hcheckpoint⟩ := hpage.checkpoint
  have hconsuming : (s.afterProcessed batch (processBatch formats config batch insert)).consuming =
      .saving { offset := start + batch.records.length, batchId } := by
    rw [Stream.afterProcessed, hcheckpoint]
  have hend := hpage.end_le
  have hbefore : s.landed.Sublist (landing formats config (records.take start)) :=
    hin.landed.trans ((List.take_prefix_take_left hstart).sublist.map _)
  refine ⟨start + batch.records.length,
    { follows := ?_, producing := hin.producing, saving := ?_, inside := hend, landed := ?_,
      dry := ?_, processed := ?_ }⟩
  · rw [Stream.pending, hconsuming]
    exact hrest
  · intro checkpoint hsaving
    rw [hconsuming] at hsaving
    have hpos := List.length_pos_iff.mpr hpage.nonempty
    exact ⟨congrArg Checkpoint.offset (Consuming.saving.inj hsaving).symm, by omega⟩
  · rw [hpage.take_end, landing_append]
    cases hdry : config.dryRun with
    | true =>
      rw [landed_afterProcessed_dryRun hdry]
      exact hbefore.trans (List.sublist_append_left _ _)
    | false =>
      rw [landed_afterProcessed hdry hok]
      exact hbefore.append (List.Sublist.refl _)
  · intro hdry
    rw [landed_afterProcessed_dryRun hdry, hin.dry hdry]
  · intro hdry
    have hlength := hbefore.length_le
    have hsize := hserves.fits
    rw [length_landing, List.length_take] at hlength
    rw [landed_afterProcessed hdry hok, List.length_append, length_landing]
    show wrappingAdd s.processedRecords batch.records.length = _
    rw [hin.processed hdry, wrappingAdd_eq (by omega)]

/-- The receiver moves on, and no batch is worked on. -/
theorem InOrder.idle (hin : InOrder formats config records s position next)
    (hpending : s'.pending = s.pending) (hp : s'.producing = s.producing)
    (hsaving : ∀ checkpoint, s'.consuming ≠ .saving checkpoint) (hlanded : s'.landed = s.landed)
    (hprocessed : s'.processedRecords = s.processedRecords) :
    InOrder formats config records s' position next where
  follows := by
    rw [hpending]
    exact hin.follows
  producing := by
    rw [hp]
    exact hin.producing
  saving := fun checkpoint hc => absurd hc (hsaving checkpoint)
  inside := hin.inside
  landed := by
    rw [hlanded]
    exact hin.landed
  dry := by
    rw [hlanded]
    exact hin.dry
  processed := by
    rw [hlanded, hprocessed]
    exact hin.processed

theorem inOrder_move {a : Action} (hserves : ServesRecords source records)
    (hin : InOrder formats config records s position next)
    (hmove : Stream.Move source formats config s a s') :
    ∃ position' next', InOrder formats config records s' position' next' := by
  cases hmove with
  | fetched hp hturn => exact ⟨_, _, hin.fetched hserves hp hturn⟩
  | stopped hp hturn =>
    refine ⟨position, next, { hin with follows := ?_, producing := trivial }⟩
    rw [pending_stopped hp]
    exact hin.follows
  | sent hp hlistens hroom =>
    have hat := hin.producing
    rw [hp] at hat
    refine ⟨position, next, { hin with follows := ?_, producing := ⟨hat.1, Or.inr hat.2⟩ }⟩
    rw [pending_sent hp]
    exact hin.follows
  | dropped hp hc =>
    have hfollows := hin.follows
    rw [Stream.pending] at hfollows
    obtain ⟨last, hlast⟩ := hfollows.of_append
    refine ⟨position, last, { hin with follows := ?_, producing := trivial }⟩
    rw [Stream.pending, Producing.held, List.append_nil]
    exact hlast
  | received hc hqueue =>
    exact ⟨position, next,
      hin.idle (pending_received hc hqueue) rfl (fun _ => by simp) rfl rfl⟩
  | closed hc hqueue hp =>
    refine ⟨position, next, hin.idle ?_ rfl (fun _ => by simp) rfl rfl⟩
    exact pending_idle (congrArg Consuming.held hc) rfl rfl rfl
  | processed hc hok =>
    obtain ⟨position', hin'⟩ := hin.processed_step hserves hc hok
    exact ⟨position', next, hin'⟩
  | failed hc herror =>
    obtain ⟨start, hstart, hpage, hrest⟩ := hin.head hc
    exact ⟨position, next, { hin with
      follows := hrest.weaken (by omega)
      saving := fun checkpoint hsaving => absurd hsaving (by simp [Stream.afterFailed]) }⟩
  | saved hc =>
    refine ⟨position, next, hin.idle ?_ rfl (fun _ => by simp) rfl rfl⟩
    exact pending_idle (congrArg Consuming.held hc) rfl rfl rfl
  | unsaved hc =>
    refine ⟨position, next, hin.idle ?_ rfl (fun _ => by simp) rfl rfl⟩
    exact pending_idle (congrArg Consuming.held hc) rfl rfl rfl

/-- The records before the saved offset have landed. -/
def Stream.Sound (formats : Formats F) (config : MigrationConfig) (records : List (VectorRecord F))
    (s : Stream σ F) : Prop :=
  ∀ checkpoint, s.checkpoint = some checkpoint →
    (landing formats config (records.take checkpoint.offset)).Subperm s.landed

/-- Where a checkpoint is to be saved, as many records were processed as it says, and not in a dry
run. -/
def Consuming.InStep (config : MigrationConfig) (processedRecords : Nat) : Consuming F → Prop
  | .saving checkpoint => config.dryRun = false ∧ processedRecords = checkpoint.offset
  | .receiving | .processing _ | .returned _ => True

instance decidableInStep (config : MigrationConfig) (processedRecords : Nat) :
    (consuming : Consuming F) → Decidable (consuming.InStep config processedRecords)
  | .saving checkpoint =>
    inferInstanceAs (Decidable (config.dryRun = false ∧ processedRecords = checkpoint.offset))
  | .receiving | .processing _ | .returned _ => isTrue trivial

def Stream.SavesInStep (config : MigrationConfig) (s : Stream σ F) : Action → Prop
  | .save (.ok ()) => s.consuming.InStep config s.processedRecords
  | _ => True

instance decidableSavesInStep (config : MigrationConfig) (s : Stream σ F) :
    (a : Action) → Decidable (s.SavesInStep config a)
  | .save (.ok ()) => decidableInStep config s.processedRecords s.consuming
  | .save (.error _) | .fetch | .send | .receive | .process _ => isTrue trivial

theorem Stream.Sound.mono (hcheckpoint : s'.checkpoint = s.checkpoint)
    (hlanded : s.landed.Sublist s'.landed) (hsound : s.Sound formats config records) :
    s'.Sound formats config records := by
  intro checkpoint hsome
  rw [hcheckpoint] at hsome
  exact (hsound checkpoint hsome).trans hlanded.subperm

/-- A save keeps the checkpoint sound exactly if nothing before it is missing. -/
theorem sound_saved_iff {checkpoint : Checkpoint}
    (hin : InOrder formats config records s position next) (hc : s.consuming = .saving checkpoint) :
    Stream.Sound formats config records
        { s with checkpoint := some checkpoint, consuming := .receiving } ↔
      config.dryRun = false ∧ s.processedRecords = checkpoint.offset := by
  obtain ⟨hoffset, hpos⟩ := hin.saving checkpoint hc
  have hinside := hin.inside
  have hlength : (landing formats config (records.take checkpoint.offset)).length =
      checkpoint.offset := by
    rw [length_landing, List.length_take]
    omega
  have hlanded := hin.landed
  rw [← hoffset] at hlanded
  have hle := hlanded.length_le
  constructor
  · intro hsound
    have hge : checkpoint.offset ≤ s.landed.length := by
      rw [← hlength]
      exact (hsound checkpoint rfl).length_le
    cases hdry : config.dryRun with
    | true =>
      rw [hin.dry hdry, List.length_nil] at hge
      omega
    | false =>
      rw [hin.processed hdry]
      exact ⟨rfl, by omega⟩
  · rintro ⟨hdry, hprocessed⟩ saved hsaved
    have hwhole : s.landed = landing formats config (records.take checkpoint.offset) := by
      refine hlanded.eq_of_length ?_
      rw [hlength, ← hprocessed, hin.processed hdry]
    obtain rfl := Option.some.inj hsaved
    rw [← hwhole]

theorem sound_move_iff {a : Action} (hin : InOrder formats config records s position next)
    (hsound : s.Sound formats config records) (hmove : Stream.Move source formats config s a s') :
    s'.Sound formats config records ↔ s.SavesInStep config a := by
  cases hmove with
  | saved hc =>
    rw [sound_saved_iff hin hc, Stream.SavesInStep, hc]
    exact Iff.rfl
  | processed hc hok =>
    exact iff_of_true (hsound.mono (s := s) rfl (List.sublist_append_left _ _)) trivial
  | fetched _ _ => exact iff_of_true (hsound.mono rfl (List.Sublist.refl _)) trivial
  | stopped _ _ => exact iff_of_true (hsound.mono rfl (List.Sublist.refl _)) trivial
  | sent _ _ _ => exact iff_of_true (hsound.mono rfl (List.Sublist.refl _)) trivial
  | dropped _ _ => exact iff_of_true (hsound.mono rfl (List.Sublist.refl _)) trivial
  | received _ _ => exact iff_of_true (hsound.mono rfl (List.Sublist.refl _)) trivial
  | closed _ _ _ => exact iff_of_true (hsound.mono rfl (List.Sublist.refl _)) trivial
  | failed _ _ => exact iff_of_true (hsound.mono rfl (List.Sublist.refl _)) trivial
  | unsaved _ => exact iff_of_true (hsound.mono rfl (List.Sublist.refl _)) trivial

end inOrder

/-! ## A run that loses nothing -/

/-- The producer is at the end of what is covered, or all is. -/
def Producing.Covers (size covered : Nat) : Producing σ F → Prop
  | .fetching p => size ≤ covered ∨ p.offset = covered
  | .sending _ p => size ≤ covered ∨ p.offset = covered
  | .finished _ => size ≤ covered

/-- What landed earlier, what landed in this run and what is on its way make up the records up to where
the producer is. -/
def Stream.Reaches (formats : Formats F) (config : MigrationConfig)
    (slots : List (Option (VectorRecord F))) (earlier : List (VectorRecord F)) (s : Stream σ F) :
    Prop :=
  ∃ covered,
    (landing formats config (slots.take covered).reduceOption).Subperm
        (earlier ++ s.reach formats config) ∧
      s.producing.Covers slots.length covered

section reaches

variable {source : SourceClient σ F} {formats : Formats F} {config : MigrationConfig}
  {slots : List (Option (VectorRecord F))} {earlier : List (VectorRecord F)} {s s' : Stream σ F}

/-- The next page goes on where the ones before it end. -/
theorem covers_fetched {p next : Producer σ} {batch : VectorBatch F} {covered : Nat}
    (hserves : Serves source slots)
    (hturn : p.turn source config.batchSize = .batch batch next)
    (hfull : FullPage slots config.batchSize p.offset
      (source.fetchBatch p.client p.offset config.batchSize).1)
    (hcovers : slots.length ≤ covered ∨ p.offset = covered)
    (hreach : (landing formats config (slots.take covered).reduceOption).Subperm
      (earlier ++ s.reach formats config)) :
    ∃ covered', (landing formats config (slots.take covered').reduceOption).Subperm
        (earlier ++ (s.reach formats config ++ landing formats config batch.records)) ∧
      (slots.length ≤ covered' ∨ next.offset = covered') := by
  obtain ⟨-, hpart, hinside, hoffset⟩ := page_of_turn hserves hturn
  obtain ⟨client, hfetch, -⟩ := Producer.turn_eq_batch hturn
  rw [hfetch] at hfull
  rw [← List.append_assoc]
  rcases hcovers with hall | rfl
  · exact ⟨covered, hreach.trans (List.sublist_append_left _ _).subperm, Or.inl hall⟩
  · refine ⟨p.offset + config.batchSize, ?_, ?_⟩
    · rw [take_add_eq, ← hpart.eq_of_length hfull.1, landing_append]
      exact (List.subperm_append_right _).mpr hreach
    · -- An offset that wraps is behind the end.
      have hsize := hserves.fits
      by_cases hfits : p.offset + config.batchSize < 2 ^ 64
      · rw [hoffset, wrappingAdd_eq hfits]
        exact Or.inr rfl
      · exact Or.inl (by omega)

theorem reaches_move {a : Action} (hserves : Serves source slots) (hclosed : s.Closed)
    (hlive : ∀ e, s'.consuming ≠ .returned (.error e))
    (hreaches : s.Reaches formats config slots earlier)
    (hkept : s.Kept source formats config slots a)
    (hmove : Stream.Move source formats config s a s') :
    s'.Reaches formats config slots earlier := by
  obtain ⟨covered, hreach, hcovers⟩ := hreaches
  cases hmove with
  | fetched hp hturn =>
    rw [hp] at hcovers
    obtain ⟨covered', hreach', hcovers'⟩ :=
      covers_fetched hserves hturn (kept_fetch hp hkept) hcovers hreach
    rw [← reach_fetched hp] at hreach'
    exact ⟨covered', hreach', hcovers'⟩
  | @stopped p result hp hturn =>
    have hnone := List.length_eq_zero_iff.mp ((fullPage_of_stop hturn).mp (kept_fetch hp hkept))
    have hsame : ({ s with producing := .finished result } : Stream σ F).reach formats config =
        s.reach formats config := by
      rw [Stream.reach, Stream.reach, pending_stopped hp]
    rw [hp] at hcovers
    rw [Stream.Reaches, hsame]
    rcases hcovers with hall | rfl
    · exact ⟨covered, hreach, hall⟩
    · refine ⟨slots.length, ?_, Nat.le_refl _⟩
      rw [List.take_length, ← take_append_restOf slots p.offset, hnone, List.append_nil]
      exact hreach
  | sent hp _ _ =>
    rw [hp] at hcovers
    refine ⟨covered, ?_, hcovers⟩
    rw [Stream.reach, pending_sent hp]
    exact hreach
  | @dropped next batch result hp hc =>
    cases result with
    | error e => exact absurd hc (hlive e)
    | ok _ =>
      obtain ⟨-, result, hfinished⟩ := hclosed hc
      exact absurd (hp.symm.trans hfinished) (by simp)
  | received hc hqueue =>
    refine ⟨covered, ?_, hcovers⟩
    rw [Stream.reach, pending_received hc hqueue]
    exact hreach
  | closed hc _ _ =>
    have hsame : ({ s with consuming := .returned (.ok ()) } : Stream σ F).reach formats config =
        s.reach formats config :=
      reach_idle (congrArg Consuming.held hc) rfl rfl rfl rfl
    refine ⟨covered, ?_, hcovers⟩
    rw [hsame]
    exact hreach
  | processed hc hok =>
    refine ⟨covered, ?_, hcovers⟩
    rw [reach_processed hc (kept_process hc hkept).1 hok]
    exact hreach
  | failed hc herror =>
    have hok := (kept_process hc hkept).2
    exact absurd (herror.symm.trans hok) (by simp)
  | @saved checkpoint hc =>
    have hsame : ({ s with checkpoint := some checkpoint, consuming := .receiving } :
        Stream σ F).reach formats config = s.reach formats config :=
      reach_idle (congrArg Consuming.held hc) rfl rfl rfl rfl
    refine ⟨covered, ?_, hcovers⟩
    rw [hsame]
    exact hreach
  | unsaved _ => exact absurd rfl (hlive _)

theorem reaches_start (client : σ) {resumed : Option Checkpoint} (disk : Option Checkpoint)
    (hbefore : ∀ checkpoint, resumed = some checkpoint →
      (landing formats config (slots.take checkpoint.offset).reduceOption).Subperm earlier) :
    (Stream.start config.batchSize client resumed disk).Reaches formats config slots earlier := by
  cases resumed with
  | none => exact ⟨0, List.nil_subperm, Or.inr rfl⟩
  | some checkpoint =>
    exact ⟨checkpoint.offset, (hbefore checkpoint rfl).trans (List.sublist_append_left _ _).subperm,
      Or.inr rfl⟩

/-- A run that loses nothing and returns has landed what had not landed before it. -/
theorem Stream.landed_of_kept (hserves : Serves source slots)
    {client : σ} {resumed disk : Option Checkpoint} {actions : List Action}
    (hbefore : ∀ checkpoint, resumed = some checkpoint →
      (landing formats config (slots.take checkpoint.offset).reduceOption).Subperm earlier)
    (hrun : actions.foldlM (Stream.step source formats config)
      (Stream.start config.batchSize client resumed disk) = some s)
    (hkept : Runs.Along (Stream.step source formats config) (Stream.Kept source formats config slots)
      (Stream.start config.batchSize client resumed disk) actions)
    (hdone : s.consuming = .returned (.ok ())) :
    (landing formats config slots.reduceOption).Subperm (earlier ++ s.landed) := by
  obtain ⟨hclosed, covered, hreach, hcovers⟩ := Stream.invariant_of_returned
    (fun _ _ _ hclosed hlive hs hk hmove => reaches_move hserves hclosed hlive hs hk hmove)
    (reaches_start client disk hbefore) hkept hrun hdone
  obtain ⟨hqueue, result, hp⟩ := hclosed hdone
  rw [hp] at hcovers
  rw [List.take_of_length_le hcovers, Stream.reach,
    pending_of_held_nil (congrArg Consuming.held hdone), hqueue, hp] at hreach
  rw [← List.append_nil s.landed]
  exact hreach

end reaches

/-! ## Two runs -/

/-- In a first run the saved offset never lies behind a record that was not inserted exactly if each
checkpoint is saved in step with what was processed; a second run from there that loses nothing then
has every record inserted. -/
theorem Stream.resume_loses_nothing_iff {source : SourceClient σ F} {formats : Formats F}
    {config : MigrationConfig} {records : List (VectorRecord F)} (hserves : ServesRecords source records)
    {client : σ} {first : List Action} {s : Stream σ F}
    (hfirst : first.foldlM (Stream.step source formats config)
      (Stream.start config.batchSize client none none) = some s) :
    (Runs.Along (Stream.step source formats config) (Stream.SavesInStep config)
        (Stream.start config.batchSize client none none) first ↔
      ∀ before after s', first = before ++ after →
        before.foldlM (Stream.step source formats config)
          (Stream.start config.batchSize client none none) = some s' →
        s'.Sound formats config records) ∧
    (Runs.Along (Stream.step source formats config) (Stream.SavesInStep config)
        (Stream.start config.batchSize client none none) first →
      ∀ (client' : σ) second s',
        second.foldlM (Stream.step source formats config)
          (Stream.start config.batchSize client' s.checkpoint s.checkpoint) = some s' →
        Runs.Along (Stream.step source formats config)
          (Stream.Kept source formats config (records.map some))
          (Stream.start config.batchSize client' s.checkpoint s.checkpoint) second →
        s'.consuming = .returned (.ok ()) →
        (landing formats config records).Subperm (s.landed ++ s'.landed)) := by
  have hiff := Runs.along_iff_kept (g := Stream.step source formats config)
    (p := Stream.SavesInStep config) (R := Stream.Sound formats config records)
    (Q := fun s => ∃ position next, InOrder formats config records s position next)
    (fun s a s' hin hstep => by
      obtain ⟨position, next, hin⟩ := hin
      exact inOrder_move hserves hin (Stream.move_of_step hstep))
    (fun s a s' hin hsound hstep => by
      obtain ⟨position, next, hin⟩ := hin
      exact sound_move_iff hin hsound (Stream.move_of_step hstep))
    ⟨0, 0, inOrder_start client none⟩ (fun checkpoint hsome => absurd hsome (by simp [Stream.start]))
    hfirst
  refine ⟨hiff, fun hsaves client' second s' hsecond hkept hdone => ?_⟩
  have hsound := hiff.mp hsaves first [] s (by simp) hfirst
  rw [← reduceOption_map_some records]
  refine Stream.landed_of_kept hserves.serves (fun checkpoint hsome => ?_) hsecond hkept hdone
  rw [← List.map_take, reduceOption_map_some]
  exact hsound checkpoint hsome

def sampleRecords : List (VectorRecord Unit) :=
  [{ id := "a", vector := [0], metadata := SortedMap.empty },
    { id := "b", vector := [0], metadata := SortedMap.empty }]

def sampleConfig : MigrationConfig where
  batchSize := 1
  maxConcurrency := 1
  dryRun := false
  resume := true
  strategy := .stream
  transformations := []
  validation :=
    { validateVectors := true, validateMetadata := true, vectorDimension := some 1,
      requiredFields := [] }
  batchSize_lt := Nat.one_lt_two_pow (Nat.succ_ne_zero 63)

def sampleRun (resumed : Option Checkpoint) (actions : List Action) : Option (Stream Unit Unit) :=
  actions.foldlM (Stream.step (fixedSource sampleRecords) sampleFormats sampleConfig)
    (Stream.start 1 () resumed resumed)

def oneBatch : List Action := [.fetch, .send, .receive, .process (.ok ()), .save (.ok ())]

def atEnd : List Action := [.fetch, .receive]

/-- The first run stops behind the first record, the second brings the other one. -/
theorem resume_loses_nothing_interrupted :
    ∃ s s', sampleRun none oneBatch = some s ∧
      sampleRun s.checkpoint (oneBatch ++ atEnd) = some s' ∧
      (landing sampleFormats sampleConfig sampleRecords).Subperm (s.landed ++ s'.landed) := by
  have hfirst : Runs.Along (Stream.step (fixedSource sampleRecords) sampleFormats sampleConfig)
      (Stream.SavesInStep sampleConfig) (Stream.start 1 () none none) oneBatch := by decide
  have hsecond : Runs.Along (Stream.step (fixedSource sampleRecords) sampleFormats sampleConfig)
      (Stream.Kept (fixedSource sampleRecords) sampleFormats sampleConfig (sampleRecords.map some))
      (Stream.start 1 () (some { offset := 1, batchId := 0 }) (some { offset := 1, batchId := 0 }))
      (oneBatch ++ atEnd) := by decide
  exact ⟨_, _, rfl, rfl,
    (Stream.resume_loses_nothing_iff (fixedSource_serves (by decide)) rfl).2
      hfirst () _ _ rfl hsecond rfl⟩

/-- The first batch fails, the second is inserted and saved: a run that goes on from there finds the
source at its end, and one record is missing. -/
theorem not_resume_loses_nothing_failed :
    ∃ s s',
      sampleRun none ([.fetch, .send, .receive, .process (.error (.network "down"))] ++ oneBatch) =
        some s ∧
      ¬ s.Sound sampleFormats sampleConfig sampleRecords ∧
      sampleRun s.checkpoint atEnd = some s' ∧ s'.consuming = .returned (.ok ()) ∧
      ¬ (landing sampleFormats sampleConfig sampleRecords).Subperm (s.landed ++ s'.landed) := by
  refine ⟨_, _, rfl, fun hsound => ?_, rfl, rfl, fun hall => ?_⟩
  · exact absurd (hsound { offset := 2, batchId := 1 } rfl).length_le (by decide)
  · exact absurd hall.length_le (by decide)

end Migration
end RTDB
