import Mathlib.Algebra.Order.Field.Rat
import RTDB.Migration.Agreement

/-!
# What a migration counts

`update_processed` of `migration/mod.rs` keeps the progress of a migration.  `stream_migration`
calls it behind every batch, and `execute_streaming` behind every task that it selects and once more
before it returns.  The estimate of the time of completion is left out, with the panic of a date that
is out of range.
-/

namespace RTDB
namespace Migration

open Storage Runs

variable {σ F : Type}

/-! ## The progress -/

/-- The progress as far as `update_processed` reads it.  Of the throughput only the sign is read. -/
structure MigrationProgress where
  totalRecords : Option Nat
  processedRecords : Nat
  failedRecords : Nat
  throughputPerSecond : ℚ

namespace MigrationProgress

def updateProcessed (progress : MigrationProgress) (elapsed : Int) (processed failed : Nat) :
    MigrationProgress :=
  { progress with
    processedRecords := processed
    failedRecords := failed
    throughputPerSecond :=
      if 0 < elapsed then processed / elapsed else progress.throughputPerSecond }

/-- The call takes the processed records from a total that is smaller. -/
def underflows (progress : MigrationProgress) (elapsed : Int) (processed failed : Nat) : Bool :=
  progress.totalRecords.any fun total =>
    decide (0 < (progress.updateProcessed elapsed processed failed).throughputPerSecond) &&
      decide (total < processed)

end MigrationProgress

/-- The progress, with what there is to count. -/
structure Ledger where
  progress : MigrationProgress
  /-- The records that `fetch_batch` gave. -/
  received : Nat
  /-- The records that `insert_batch` took. -/
  inserted : Nat
  underflowed : Bool

namespace Ledger

def start (total : Option Nat) : Ledger where
  progress :=
    { totalRecords := total, processedRecords := 0, failedRecords := 0, throughputPerSecond := 0 }
  received := 0
  inserted := 0
  underflowed := false

def update (l : Ledger) (elapsed : Int) (processed failed : Nat) : Ledger :=
  { l with
    progress := l.progress.updateProcessed elapsed processed failed
    underflowed := l.underflowed || l.progress.underflows elapsed processed failed }

/-- The progress tells what there is to count. -/
def Accurate (l : Ledger) : Prop :=
  l.progress.processedRecords + l.progress.failedRecords = l.received ∧
    l.progress.processedRecords = l.inserted

/-- The source gave no more records than it had counted, nor than a counter can hold. -/
def Fits (l : Ledger) : Prop :=
  l.received < 2 ^ 64 ∧ ∀ total, l.progress.totalRecords = some total → l.received ≤ total

variable {l : Ledger} {elapsed : Int} {processed failed : Nat}

theorem calm_update (hcalm : l.underflowed = false)
    (hle : ∀ total, l.progress.totalRecords = some total → processed ≤ total) :
    (l.update elapsed processed failed).underflowed = false := by
  rw [update, hcalm, Bool.false_or, MigrationProgress.underflows]
  cases htotal : l.progress.totalRecords with
  | none => rfl
  | some total =>
    have hnot : ¬total < processed := Nat.not_lt.mpr (hle total htotal)
    rw [Option.any_some, decide_eq_false hnot, Bool.and_false]

theorem Fits.before {l' : Ledger} (hfits : l'.Fits) (hle : l.received ≤ l'.received)
    (htotal : l'.progress.totalRecords = l.progress.totalRecords) : l.Fits := by
  refine ⟨Nat.lt_of_le_of_lt hle hfits.1, fun total hsome => ?_⟩
  exact Nat.le_trans hle (hfits.2 total (htotal.trans hsome))

end Ledger

/-! ## The streaming migration -/

def Consuming.receives : Consuming F → Bool
  | .receiving => true
  | .processing _ | .saving _ | .returned _ => false

namespace Stream

variable (source : SourceClient σ F) (formats : Formats F) (config : MigrationConfig)

/-- A step with the seconds since the start.  The progress is updated whenever the loop comes
round. -/
def watch (s : Stream σ F × Ledger) (a : Action × Int) : Option (Stream σ F × Ledger) :=
  (s.1.step source formats config a.1).map fun next =>
    let ledger : Ledger :=
      { s.2 with
        received := s.2.received + if a.1 = .fetch then (sent next.producing.held).length else 0
        inserted := next.landed.length }
    (next,
      if !s.1.consuming.receives && next.consuming.receives then
        ledger.update a.2 next.processedRecords next.failedRecords
      else ledger)

end Stream

/-! ## The strategies' executor -/

namespace Executor

def takes (s next : Executor σ F) : Work → Nat
  | .insert _ (.returned (.ok ())) => (next.inserts.drop s.inserts.length).flatten.length
  | _ => 0

/-- The progress is updated behind a task that was selected, and before the function returns. -/
def reports (next : Executor σ F) : Work → Bool
  | .select _ => true
  | .join => next.executing.senders = 0
  | _ => false

variable (source : SourceClient σ F) (config : MigrationConfig)

def isFetch : Work → Bool
  | .fetch => true
  | _ => false

/-- A step with the seconds since the start. -/
def watch (s : Executor σ F × Ledger) (w : Work × Int) : Option (Executor σ F × Ledger) :=
  (s.1.step source config w.1).map fun next =>
    let ledger : Ledger :=
      { s.2 with
        received := s.2.received + if isFetch w.1 then (sent next.producing.held).length else 0
        inserted := s.2.inserted + s.1.takes next w.1 }
    (next,
      if next.reports w.1 then ledger.update w.2 next.processedRecords next.failedRecords
      else ledger)

end Executor

section streaming

variable {source : SourceClient σ F} {formats : Formats F} {config : MigrationConfig}
  {s s' : Stream σ F} {l : Ledger}

def Action.Sound : Action → Prop
  | .save written => written = .ok ()
  | .fetch | .send | .receive | .process _ => True

/-- What holds between steps: every record that came was counted or is on its way, the counter of
the processed records is what was inserted, and the progress shows the counters except before a
checkpoint is saved. -/
structure Stream.Counts (s : Stream σ F) (l : Ledger) : Prop where
  balance : s.processedRecords + s.failedRecords + (sent s.pending).length = l.received
  landed : s.landed.length = s.processedRecords
  inserted : l.inserted = s.landed.length
  shown : (∀ checkpoint, s.consuming ≠ .saving checkpoint) →
    l.progress.processedRecords = s.processedRecords ∧ l.progress.failedRecords = s.failedRecords
  closed : ∀ result, s.consuming = .returned result →
    s.queue = [] ∧ ∃ r, s.producing = .finished r
  calm : l.underflowed = false

theorem Stream.counts_start (client : σ) (resumed disk : Option Checkpoint) (total : Option Nat) :
    (Stream.start (F := F) config.batchSize client resumed disk).Counts (Ledger.start total) where
  balance := rfl
  landed := rfl
  inserted := rfl
  shown _ := ⟨rfl, rfl⟩
  closed _ hc := absurd hc (by simp [Stream.start])
  calm := rfl

/-- A step that counts nothing, and does not come back to the head of the loop. -/
theorem Stream.Counts.moved {received : Nat} (hcounts : s.Counts l)
    (hprocessed : s'.processedRecords = s.processedRecords)
    (hfailed : s'.failedRecords = s.failedRecords) (hlanded : s'.landed = s.landed)
    (hbalance : (sent s'.pending).length = (sent s.pending).length + received)
    (hsaving : ∀ checkpoint, s.consuming = .saving checkpoint → s'.consuming = .saving checkpoint)
    (hclosed : ∀ result, s'.consuming = .returned result →
      s'.queue = [] ∧ ∃ r, s'.producing = .finished r) :
    s'.Counts { l with received := l.received + received, inserted := s'.landed.length } where
  balance := by
    have hbefore := hcounts.balance
    rw [hprocessed, hfailed, hbalance]
    show _ = l.received + received
    omega
  landed := by rw [hlanded, hprocessed, hcounts.landed]
  inserted := rfl
  shown hnot := by
    rw [hprocessed, hfailed]
    exact hcounts.shown fun checkpoint hc => hnot checkpoint (hsaving checkpoint hc)
  closed := hclosed
  calm := hcounts.calm

/-- A step that comes back to the head of the loop, behind a batch that was counted. -/
theorem Stream.Counts.reported {l' : Ledger} (elapsed : Int)
    (hbalance : s'.processedRecords + s'.failedRecords + (sent s'.pending).length = l'.received)
    (hlanded : s'.landed.length = s'.processedRecords) (hinserted : l'.inserted = s'.landed.length)
    (hopen : s'.consuming = .receiving) (hcalm : l'.underflowed = false) (hfits : l'.Fits) :
    s'.Counts (l'.update elapsed s'.processedRecords s'.failedRecords) where
  balance := hbalance
  landed := hlanded
  inserted := hinserted
  shown _ := ⟨rfl, rfl⟩
  closed result hc := absurd (hopen.symm.trans hc) (by simp)
  calm := Ledger.calm_update hcalm fun total htotal => by
    have hle := hfits.2 total htotal
    omega

theorem length_landed_afterProcessed {batch : VectorBatch F} {insert : Except Error Unit}
    (hdry : config.dryRun = false)
    (hok : (processBatch formats config batch insert).result = .ok ()) :
    (s.afterProcessed batch (processBatch formats config batch insert)).landed.length =
      s.landed.length + batch.records.length := by
  rw [landed_afterProcessed hdry hok, List.length_append, length_landing]

theorem Stream.counts_watch {a : Action × Int} {l' : Ledger} (hdry : config.dryRun = false)
    (hcounts : s.Counts l) (hsound : a.1.Sound) (hfits : l'.Fits)
    (hwatch : Stream.watch source formats config (s, l) a = some (s', l')) : s'.Counts l' := by
  obtain ⟨next, hstep, hsame⟩ := Option.map_eq_some_iff.mp hwatch
  obtain ⟨rfl, hledger⟩ := Prod.mk.inj hsame
  obtain ⟨action, elapsed⟩ := a
  have hmove := Stream.move_of_step hstep
  dsimp only at hmove hledger hsound
  have hquiet : (!s.consuming.receives && s.consuming.receives) = false := Bool.not_and_self _
  cases hmove with
  | fetched hp hturn =>
    rw [← hledger, hquiet, if_neg Bool.false_ne_true, if_pos rfl]
    refine hcounts.moved rfl rfl rfl ?_ (fun _ hc => hc) fun result hc => ?_
    · rw [pending_fetched hp, sent_append, List.length_append]
      rfl
    · obtain ⟨-, r, hr⟩ := hcounts.closed result hc
      exact absurd (hp.symm.trans hr) (by simp)
  | stopped hp hturn =>
    rw [← hledger, hquiet, if_neg Bool.false_ne_true, if_pos rfl]
    refine hcounts.moved rfl rfl rfl ?_ (fun _ hc => hc) fun result hc => ?_
    · rw [pending_stopped hp]
      rfl
    · exact ⟨(hcounts.closed result hc).1, _, rfl⟩
  | sent hp hlistens _ =>
    rw [← hledger, hquiet, if_neg Bool.false_ne_true, if_neg (by simp)]
    refine hcounts.moved rfl rfl rfl ?_ (fun _ hc => hc) fun result hc => ?_
    · rw [pending_sent hp, Nat.add_zero]
    · exact absurd hc (hlistens result)
  | dropped hp hc =>
    obtain ⟨-, r, hr⟩ := hcounts.closed _ hc
    exact absurd (hp.symm.trans hr) (by simp)
  | received hc hqueue =>
    rw [← hledger, hc, if_neg (by simp [Consuming.receives]), if_neg (by simp)]
    refine hcounts.moved rfl rfl rfl ?_ (fun checkpoint hsaving => ?_) fun result hreturned => ?_
    · rw [pending_received hc hqueue, Nat.add_zero]
    · exact absurd (hc.symm.trans hsaving) (by simp)
    · exact absurd hreturned (by simp)
  | closed hc hqueue hp =>
    rw [← hledger, hc, if_neg (by simp [Consuming.receives]), if_neg (by simp)]
    refine hcounts.moved rfl rfl rfl ?_ (fun checkpoint hsaving => ?_) fun result _ => ?_
    · have hidle : ({ s with consuming := .returned (.ok ()) } : Stream σ F).pending = s.pending :=
        pending_idle (by rw [hc]; rfl) rfl rfl rfl
      rw [hidle, Nat.add_zero]
    · exact absurd (hc.symm.trans hsaving) (by simp)
    · exact ⟨hqueue, _, hp⟩
  | @processed batch insert hc hok =>
    have hbefore := hcounts.balance
    rw [pending_processing hc, sent_cons, List.length_append] at hbefore
    have hreceived : l'.received = l.received := by
      rw [← hledger]
      split <;> rfl
    have hbound := hfits.1
    rw [hreceived] at hbound
    have hcounter := wrappingAdd_eq (a := s.processedRecords) (b := batch.records.length) (by omega)
    rw [← hledger, hc] at hfits ⊢
    set s' := s.afterProcessed batch (processBatch formats config batch insert) with hs'
    have hprocessed : s'.processedRecords = s.processedRecords + batch.records.length := hcounter
    have hlanded : s'.landed.length = s'.processedRecords := by
      rw [hprocessed, length_landed_afterProcessed hdry hok, hcounts.landed]
    have hbalance : s'.processedRecords + s'.failedRecords + (sent s'.pending).length =
        l.received := by
      rw [hprocessed, pending_of_held_nil (held_afterProcessed batch _)]
      show _ + s.failedRecords + (sent (s.queue ++ s.producing.held)).length = _
      omega
    cases hdata : batch.checkpointData with
    | none =>
      have hopen : s'.consuming = .receiving := by simp [hs', Stream.afterProcessed, hdata]
      rw [hopen, if_pos (by simp [Consuming.receives])] at hfits ⊢
      exact Stream.Counts.reported elapsed hbalance hlanded rfl hopen hcounts.calm hfits
    | some checkpoint =>
      have hsaving : s'.consuming = .saving checkpoint := by
        simp [hs', Stream.afterProcessed, hdata]
      rw [hsaving, if_neg (by simp [Consuming.receives])]
      refine ⟨hbalance, hlanded, rfl, fun hnot => ?_, fun result hreturned => ?_, hcounts.calm⟩
      · exact absurd hsaving (hnot checkpoint)
      · exact absurd (hsaving.symm.trans hreturned) (by simp)
  | @failed batch insert e hc herror =>
    have hbefore := hcounts.balance
    rw [pending_processing hc, sent_cons, List.length_append] at hbefore
    rw [← hledger, hc] at hfits ⊢
    rw [if_pos (by simp [Consuming.receives, Stream.afterFailed])] at hfits ⊢
    have hbound : l.received < 2 ^ 64 := hfits.1
    have hcounter := wrappingAdd_eq (a := s.failedRecords) (b := batch.records.length) (by omega)
    refine Stream.Counts.reported elapsed ?_ hcounts.landed rfl rfl hcounts.calm hfits
    rw [pending_of_held_nil rfl]
    show s.processedRecords + wrappingAdd s.failedRecords batch.records.length +
      (sent (s.queue ++ s.producing.held)).length = l.received
    omega
  | @saved checkpoint hc =>
    have hidle : ({ s with checkpoint := some checkpoint, consuming := .receiving } :
        Stream σ F).pending = s.pending := pending_idle (by rw [hc]; rfl) rfl rfl rfl
    rw [← hledger, hc, if_pos (by simp [Consuming.receives])] at hfits ⊢
    refine Stream.Counts.reported elapsed ?_ hcounts.landed rfl rfl hcounts.calm hfits
    rw [hidle, if_neg (by simp), hcounts.balance]
    rfl
  | unsaved hc => exact absurd hsound (by simp [Action.Sound])

theorem Stream.fits_before {a : Action × Int} {l' : Ledger}
    (hwatch : Stream.watch source formats config (s, l) a = some (s', l')) (hfits : l'.Fits) :
    l.Fits := by
  obtain ⟨next, -, hsame⟩ := Option.map_eq_some_iff.mp hwatch
  obtain ⟨-, rfl⟩ := Prod.mk.inj hsame
  split at hfits
  · exact hfits.before (Nat.le_add_right _ _) rfl
  · exact hfits.before (Nat.le_add_right _ _) rfl

theorem Stream.counts_run (hdry : config.dryRun = false) {client : σ}
    {resumed disk : Option Checkpoint} {total : Option Nat} {actions : List (Action × Int)}
    (hrun : actions.foldlM (Stream.watch source formats config)
      (Stream.start config.batchSize client resumed disk, Ledger.start total) = some (s, l))
    (hsound : ∀ a ∈ actions, a.1.Sound) (hfits : l.Fits) : s.Counts l := by
  have hcounts := foldlM_invariant (Q := fun x : Stream σ F × Ledger => x.2.Fits → x.1.Counts x.2)
    (p := fun _ a => a.1.Sound)
    (fun _ _ _ hbefore hsound hwatch hfits =>
      Stream.counts_watch hdry (hbefore (Stream.fits_before hwatch hfits)) hsound hfits hwatch)
    (fun _ => Stream.counts_start client resumed disk total)
    (fun before a after _ hl _ => hsound a (by rw [hl]; exact List.mem_append_cons_self)) hrun
  exact hcounts hfits

end streaming

section executor

variable {source : SourceClient σ F} {config : MigrationConfig} {s s' : Executor σ F} {w : Work}
  {l : Ledger}

/-- A task does not panic, and a checkpoint is saved. -/
def Work.Sound : Work → Prop
  | .insert _ outcome => outcome ≠ .panicked
  | .save _ outcome => outcome = .returned (.ok ())
  | .fetch | .send | .receive | .acquire | .select _ | .join => True

namespace Task

def load : Task F → Nat
  | .inserting _ => 0
  | .saving result _ => result.processed + result.failed
  | .done outcome => outcome.counts.processed + outcome.counts.failed

def taken : Task F → Nat
  | .inserting _ => 0
  | .saving result _ => result.processed
  | .done outcome => outcome.counts.processed

end Task

theorem load_processBatchStreaming (batch : VectorBatch F) {outcome : Outcome Unit}
    (hsound : outcome ≠ .panicked) :
    (processBatchStreaming config batch outcome).load = batch.records.length := by
  unfold processBatchStreaming
  split
  · exact Nat.add_zero _
  · split
    · split <;> exact Nat.add_zero _
    · exact Nat.zero_add _
    · exact absurd rfl hsound

/-- A batch that was inserted counts as processed, one that was not does not. -/
theorem taken_processBatchStreaming (hdry : config.dryRun = false) (batch : VectorBatch F) (i : Nat)
    (outcome : Outcome Unit) (htasks : s'.inserts = s.inserts ++ insertsStreaming config batch) :
    s.takes s' (.insert i outcome) = (processBatchStreaming config batch outcome).taken := by
  have hinserts : insertsStreaming config batch = [batch.records] := by
    rw [insertsStreaming, hdry, if_neg Bool.false_ne_true]
  unfold processBatchStreaming
  rw [hdry, if_neg Bool.false_ne_true]
  rcases outcome with (e | ⟨⟨⟩⟩) | _
  · rfl
  · rw [Executor.takes, htasks, List.drop_left, hinserts]
    cases batch.checkpointData with
    | none => simp [Task.taken, Outcome.counts]
    | some checkpoint => simp [Task.taken]
  · rfl

namespace Executor

/-- What holds between steps: every record that came was counted, is with a task or is on its way,
the processed records are what was inserted, and the progress shows the counters. -/
structure Counts (s : Executor σ F) (l : Ledger) : Prop where
  balance : s.processedRecords + s.failedRecords + (s.tasks.map Task.load).sum +
    (sent s.pending).length = l.received
  inserted : s.processedRecords + (s.tasks.map Task.taken).sum = l.inserted
  shown : l.progress.processedRecords = s.processedRecords ∧
    l.progress.failedRecords = s.failedRecords
  calm : l.underflowed = false

theorem counts_start (client : σ) (resumed disk : Option Checkpoint)
    (inserts : List (List (VectorRecord F))) (total : Option Nat) :
    (start config client resumed disk inserts).Counts (Ledger.start total) where
  balance := rfl
  inserted := rfl
  shown := ⟨rfl, rfl⟩
  calm := rfl

/-- A step behind which the tasks have as many records to count as before, and the target took no
other. -/
theorem Counts.moved {received : Nat} (hcounts : s.Counts l)
    (hprocessed : s'.processedRecords = s.processedRecords)
    (hfailed : s'.failedRecords = s.failedRecords)
    (hload : (s'.tasks.map Task.load).sum = (s.tasks.map Task.load).sum)
    (htaken : (s'.tasks.map Task.taken).sum = (s.tasks.map Task.taken).sum)
    (hbalance : (sent s'.pending).length = (sent s.pending).length + received) :
    s'.Counts { l with received := l.received + received, inserted := l.inserted + 0 } where
  balance := by
    have hbefore := hcounts.balance
    rw [hprocessed, hfailed, hload, hbalance]
    show _ = l.received + received
    omega
  inserted := by
    rw [hprocessed, htaken]
    exact hcounts.inserted
  shown := by
    rw [hprocessed, hfailed]
    exact hcounts.shown
  calm := hcounts.calm

/-- The ledger behind a step that does not report. -/
theorem Counts.quiet {received inserted : Nat} {elapsed : Int} {reports : Bool}
    (hquiet : reports = false)
    (hcounts : s'.Counts { l with received, inserted }) :
    s'.Counts
      (if reports then
        ({ l with received, inserted } : Ledger).update elapsed s'.processedRecords s'.failedRecords
      else { l with received, inserted }) := by
  rw [hquiet, if_neg Bool.false_ne_true]
  exact hcounts

theorem counts_watch {elapsed : Int} {l' : Ledger} (hdry : config.dryRun = false)
    (hmanned : s.Manned config) (hcounts : s.Counts l) (hsound : w.Sound) (hfits : l'.Fits)
    (hwatch : watch source config (s, l) (w, elapsed) = some (s', l')) : s'.Counts l' := by
  obtain ⟨next, hstep, hsame⟩ := Option.map_eq_some_iff.mp hwatch
  obtain ⟨rfl, hledger⟩ := Prod.mk.inj hsame
  have hmove := move_of_step hstep
  have hlistening := hmanned.listening
  have hbefore := hcounts.balance
  dsimp only at hmove hledger hsound
  cases hmove with
  | fetched hp hturn =>
    rw [← hledger]
    refine Counts.quiet rfl (hcounts.moved rfl rfl rfl rfl ?_)
    rw [pending_fetched hp, sent_append, List.length_append]
    rfl
  | stopped hp hturn =>
    rw [← hledger]
    refine Counts.quiet rfl (hcounts.moved rfl rfl rfl rfl ?_)
    rw [pending_stopped hp]
    rfl
  | sent hp _ _ =>
    rw [← hledger]
    refine Counts.quiet rfl (hcounts.moved rfl rfl rfl rfl ?_)
    rw [pending_sent hp]
    rfl
  | dropped _ hexec =>
    rw [hexec] at hlistening
    exact hlistening.elim
  | received hexec hqueue =>
    rw [← hledger]
    refine Counts.quiet rfl (hcounts.moved rfl rfl rfl rfl ?_)
    rw [pending_received hexec hqueue]
    rfl
  | closed _ _ hsenders => exact absurd hsenders hmanned.senders_ne_zero
  | @acquired batch next hexec _ hnext =>
    have hheld : next.held = [] := by
      rw [hnext]
      split <;> rfl
    rw [← hledger]
    refine Counts.quiet rfl (hcounts.moved rfl rfl ?_ ?_ ?_)
    · rw [sum_split]
      rfl
    · rw [sum_split]
      rfl
    · rw [pending_acquired hexec hheld]
      rfl
  | @selected before after outcome i hexec htasks =>
    rw [htasks, sum_split] at hbefore
    have hload : (Task.done outcome : Task F).load =
      outcome.counts.processed + outcome.counts.failed := rfl
    have hreceived : l'.received = l.received := by
      rw [← hledger]
      rfl
    have hbound := hfits.1
    have hinserted := hcounts.inserted
    rw [htasks, sum_split] at hinserted
    have htaken : (Task.done outcome : Task F).taken = outcome.counts.processed := rfl
    have hprocessed := wrappingAdd_eq (a := s.processedRecords) (b := outcome.counts.processed)
      (by omega)
    have hfailed := wrappingAdd_eq (a := s.failedRecords) (b := outcome.counts.failed) (by omega)
    have hpending : (sent _).length = _ := congrArg (fun l => (sent l).length)
      (pending_selected hexec htasks)
    have htotals : l'.progress.totalRecords = l.progress.totalRecords := by
      rw [← hledger]
      rfl
    rw [← hledger]
    refine ⟨?_, ?_, ⟨rfl, rfl⟩, Ledger.calm_update hcounts.calm fun total htotal => ?_⟩
    · show wrappingAdd s.processedRecords outcome.counts.processed +
        wrappingAdd s.failedRecords outcome.counts.failed + ((before ++ after).map Task.load).sum +
        _ = l.received
      rw [hpending, List.map_append, List.sum_append]
      omega
    · show wrappingAdd s.processedRecords outcome.counts.processed +
        ((before ++ after).map Task.taken).sum = l.inserted
      rw [List.map_append, List.sum_append]
      omega
    · have hle := hfits.2 total (htotals.trans htotal)
      show wrappingAdd s.processedRecords outcome.counts.processed ≤ total
      omega
  | joined hexec _ =>
    rw [hexec] at hlistening
    exact hlistening.elim
  | returned hexec _ _ =>
    rw [hexec] at hlistening
    exact hlistening.elim
  | @inserted before after batch i outcome task htasks htask =>
    have hload : task.load = batch.records.length := by
      rw [htask]
      exact load_processBatchStreaming batch hsound
    have hnone : task.batches = [] := by
      rw [htask]
      exact batches_processBatchStreaming batch outcome
    have hpending := ((pending_inserted (s.permits + task.released)
      (s.inserts ++ insertsStreaming config batch) htasks hnone).flatMap_right
        VectorBatch.records).length_eq
    rw [← hledger]
    refine Counts.quiet rfl ⟨?_, ?_, hcounts.shown, hcounts.calm⟩
    · rw [htasks, sum_split] at hbefore
      show s.processedRecords + s.failedRecords + ((before ++ task :: after).map Task.load).sum +
        _ = l.received
      rw [List.flatMap_cons, List.length_append] at hpending
      rw [sum_split, hload, ← hbefore]
      simp only [Task.load, sent]
      omega
    · show s.processedRecords + ((before ++ task :: after).map Task.taken).sum =
        l.inserted + s.takes _ (.insert i outcome)
      rw [taken_processBatchStreaming hdry batch i outcome (by rfl), ← hcounts.inserted, htasks,
        sum_split, sum_split, ← htask]
      simp only [Task.taken]
      omega
  | @saved before after result checkpoint i outcome htasks =>
    have hsaved : outcome = .returned (.ok ()) := hsound
    rw [← hledger]
    refine Counts.quiet rfl (hcounts.moved rfl rfl ?_ ?_ ?_)
    · rw [htasks, sum_split, sum_split, hsaved]
      rfl
    · rw [htasks, sum_split, sum_split, hsaved]
      rfl
    · rw [pending_saved _ _ _ htasks]
      rfl

/-! ## The tasks that are left -/

/-- What holds between steps: as many tasks are kept as there are permits but one, every batch has
records, and once something was counted a task is left, where there may be several. -/
structure Crew (config : MigrationConfig) (s : Executor σ F) : Prop where
  listens : s.executing ≠ .selecting → s.tasks.length < max 1 config.maxConcurrency
  selects : s.executing = .selecting → s.tasks.length = max 1 config.maxConcurrency
  loads : ∀ task ∈ s.tasks, task.batches = [] → 0 < task.load
  full : ∀ batch ∈ s.pending, 0 < batch.records.length
  left : 2 ≤ config.maxConcurrency → s.tasks = [] → s.processedRecords + s.failedRecords = 0

theorem crew_start (client : σ) (resumed disk : Option Checkpoint)
    (inserts : List (List (VectorRecord F))) :
    (start config client resumed disk inserts).Crew config where
  listens _ := Nat.lt_of_lt_of_le Nat.zero_lt_one (le_max_left 1 _)
  selects hexec := absurd hexec (by simp [start])
  loads task hmem := absurd hmem List.not_mem_nil
  full batch hmem := absurd hmem List.not_mem_nil
  left _ _ := rfl

/-- A step that leaves the tasks alone and counts nothing. -/
theorem Crew.moved (hcrew : s.Crew config) (htasks : s'.tasks = s.tasks)
    (hexec : s'.executing = .selecting ↔ s.executing = .selecting)
    (hprocessed : s'.processedRecords = s.processedRecords)
    (hfailed : s'.failedRecords = s.failedRecords)
    (hfull : ∀ batch ∈ s'.pending, 0 < batch.records.length) : s'.Crew config where
  listens hnot := by
    rw [htasks]
    exact hcrew.listens fun hselecting => hnot (hexec.mpr hselecting)
  selects hselecting := by
    rw [htasks]
    exact hcrew.selects (hexec.mp hselecting)
  loads := by
    rw [htasks]
    exact hcrew.loads
  full := hfull
  left := by
    rw [htasks, hprocessed, hfailed]
    exact hcrew.left

/-- A step of a task that goes well, and does not lose what there is to count. -/
theorem Crew.worked {before after : List (Task F)} {task task' : Task F} (hcrew : s.Crew config)
    (htasks : s.tasks = before ++ task :: after) (htasks' : s'.tasks = before ++ task' :: after)
    (hexec : s'.executing = s.executing) (hload : 0 < task'.load)
    (hfull : ∀ batch ∈ s'.pending, 0 < batch.records.length) : s'.Crew config where
  listens hnot := by
    have hlt := hcrew.listens (hexec ▸ hnot)
    rw [htasks, List.length_append, List.length_cons] at hlt
    rw [htasks', List.length_append, List.length_cons]
    exact hlt
  selects hselecting := by
    have hlength := hcrew.selects (hexec ▸ hselecting)
    rw [htasks, List.length_append, List.length_cons] at hlength
    rw [htasks', List.length_append, List.length_cons]
    exact hlength
  loads other hmem hnone := by
    rw [htasks', List.mem_append, List.mem_cons] at hmem
    rcases hmem with hbefore | rfl | hafter
    · exact hcrew.loads other (by rw [htasks]; exact List.mem_append_left _ hbefore) hnone
    · exact hload
    · refine hcrew.loads other ?_ hnone
      rw [htasks]
      exact List.mem_append_right _ (List.mem_cons_of_mem _ hafter)
  full := hfull
  left _ hnil := absurd (htasks'.symm.trans hnil) (by simp)

theorem crew_move (hmanned : s.Manned config) (hcrew : s.Crew config) (hsound : w.Sound)
    (hmove : Move source config s w s') : s'.Crew config := by
  have hlistening := hmanned.listening
  have hfull := hcrew.full
  cases hmove with
  | @fetched p next batch hp hturn =>
    refine hcrew.moved rfl Iff.rfl rfl rfl fun other hmem => ?_
    rw [pending_fetched hp, List.mem_append, List.mem_singleton] at hmem
    obtain ⟨-, -, hne, -, -⟩ := Producer.turn_eq_batch hturn
    rcases hmem with hmem | rfl
    · exact hfull other hmem
    · exact List.length_pos_of_ne_nil hne
  | stopped hp hturn =>
    refine hcrew.moved rfl Iff.rfl rfl rfl ?_
    rw [pending_stopped hp]
    exact hfull
  | sent hp _ _ =>
    refine hcrew.moved rfl Iff.rfl rfl rfl ?_
    rw [pending_sent hp]
    exact hfull
  | dropped _ hexec =>
    rw [hexec] at hlistening
    exact hlistening.elim
  | received hexec hqueue =>
    refine hcrew.moved rfl ?_ rfl rfl ?_
    · rw [hexec]
      exact iff_of_false (by simp) (by simp)
    · rw [pending_received hexec hqueue]
      exact hfull
  | closed _ _ hsenders => exact absurd hsenders hmanned.senders_ne_zero
  | @acquired batch next hexec _ hnext =>
    have hlt := hcrew.listens (by rw [hexec]; simp)
    have hheld : next.held = [] := by
      rw [hnext]
      split <;> rfl
    refine ⟨fun hnot => ?_, fun hselecting => ?_, fun task hmem hnone => ?_, ?_, ?_⟩
    · have hgt : ¬config.maxConcurrency ≤ s.tasks.length + 1 := fun hle =>
        hnot (hnext.trans (if_pos hle))
      rw [List.length_append, List.length_singleton]
      omega
    · have hle : config.maxConcurrency ≤ s.tasks.length + 1 := by
        by_contra hgt
        rw [if_neg hgt] at hnext
        exact absurd (hnext.symm.trans hselecting) (by simp)
      rw [List.length_append, List.length_singleton]
      omega
    · rw [List.mem_append, List.mem_singleton] at hmem
      rcases hmem with hmem | rfl
      · exact hcrew.loads task hmem hnone
      · exact absurd hnone (by simp [Task.batches])
    · rw [pending_acquired hexec hheld]
      exact hfull
    · exact fun _ hnil => absurd hnil (by simp)
  | @selected before after outcome i hexec htasks =>
    have hlength := hcrew.selects hexec
    rw [htasks, List.length_append, List.length_cons] at hlength
    refine ⟨fun _ => ?_, fun hselecting => absurd hselecting (by simp [counted]),
      fun task hmem => ?_, ?_, fun hseveral hnil => ?_⟩
    · show (before ++ after).length < _
      rw [List.length_append]
      omega
    · refine hcrew.loads task ?_
      rw [htasks]
      rcases List.mem_append.mp hmem with hbefore | hafter
      · exact List.mem_append_left _ hbefore
      · exact List.mem_append_right _ (List.mem_cons_of_mem _ hafter)
    · rw [pending_selected hexec htasks]
      exact hfull
    · have hnone : (before ++ after).length = 0 := congrArg List.length hnil
      rw [List.length_append] at hnone
      omega
  | joined hexec _ =>
    rw [hexec] at hlistening
    exact hlistening.elim
  | returned hexec _ _ =>
    rw [hexec] at hlistening
    exact hlistening.elim
  | @inserted before after batch i outcome task htasks htask =>
    have hnone : task.batches = [] := by
      rw [htask]
      exact batches_processBatchStreaming batch outcome
    have hpending := pending_inserted (s.permits + task.released)
      (s.inserts ++ insertsStreaming config batch) htasks hnone
    refine hcrew.worked htasks rfl rfl ?_ fun other hmem => ?_
    · rw [htask, load_processBatchStreaming batch hsound]
      exact hfull batch (hpending.symm.subset List.mem_cons_self)
    · exact hfull other (hpending.symm.subset (List.mem_cons_of_mem _ hmem))
  | @saved before after result checkpoint i outcome htasks =>
    have hsaved : outcome = .returned (.ok ()) := hsound
    refine hcrew.worked htasks rfl rfl ?_ ?_
    · have hmem : Task.saving result checkpoint ∈ s.tasks := by
        rw [htasks]
        exact List.mem_append_right _ List.mem_cons_self
      have hload := hcrew.loads _ hmem rfl
      rw [hsaved]
      exact hload
    · rw [pending_saved _ _ _ htasks]
      exact hfull

/-- Where a run stands still the progress is right, unless a task that was never selected keeps what
it has to count. -/
theorem accurate_atRest_iff (hcounts : s.Counts l) (hcrew : s.Crew config) (hrest : s.AtRest) :
    l.Accurate ↔ config.maxConcurrency ≤ 1 ∨ l.received = 0 := by
  have hbalance := hcounts.balance
  have hinserted := hcounts.inserted
  have hdone : ∀ task ∈ s.tasks, task.batches = [] := by
    intro task hmem
    have hrunning := hrest.tasks task hmem
    cases task with
    | inserting batch => exact absurd hrunning (by simp [Task.running])
    | saving result checkpoint => rfl
    | done outcome => rfl
  have hpending : s.pending = [] := by
    obtain ⟨result, hp⟩ := hrest.producing
    rw [pending, hrest.executing, hrest.queue, hp, List.flatMap_eq_nil_iff.mpr hdone]
    rfl
  have hempty : (s.tasks.map Task.load).sum = 0 → s.tasks = [] := by
    intro hsum
    rw [List.eq_nil_iff_forall_not_mem]
    intro task hmem
    have hload := hcrew.loads task hmem (hdone task hmem)
    exact absurd (List.sum_eq_zero_iff_forall_eq_nat.mp hsum _ (List.mem_map_of_mem hmem)) hload.ne'
  rw [hpending] at hbalance
  simp only [sent, List.flatMap_nil, List.length_nil] at hbalance
  rw [Ledger.Accurate, hcounts.shown.1, hcounts.shown.2]
  constructor
  · rintro ⟨hsum, -⟩
    by_contra hnot
    obtain ⟨hseveral, hreceived⟩ := not_or.mp hnot
    have hleft := hcrew.left (by omega) (hempty (by omega))
    omega
  · intro hor
    have hnil : s.tasks = [] := by
      rcases hor with hone | hzero
      · have hlt := hcrew.listens (by rw [hrest.executing]; simp)
        rw [max_eq_left hone] at hlt
        exact List.length_eq_zero_iff.mp (by omega)
      · exact hempty (by omega)
    rw [hnil] at hbalance hinserted
    exact ⟨hbalance, hinserted⟩

theorem fits_before {a : Work × Int} {l' : Ledger}
    (hwatch : watch source config (s, l) a = some (s', l')) (hfits : l'.Fits) : l.Fits := by
  obtain ⟨next, -, hsame⟩ := Option.map_eq_some_iff.mp hwatch
  obtain ⟨-, rfl⟩ := Prod.mk.inj hsame
  split at hfits
  · exact hfits.before (Nat.le_add_right _ _) rfl
  · exact hfits.before (Nat.le_add_right _ _) rfl

theorem step_of_watch {a : Work × Int} {l' : Ledger}
    (hwatch : watch source config (s, l) a = some (s', l')) :
    s.step source config a.1 = some s' := by
  obtain ⟨next, hstep, hsame⟩ := Option.map_eq_some_iff.mp hwatch
  obtain ⟨rfl, -⟩ := Prod.mk.inj hsame
  exact hstep

/-- What holds between the steps of a run that go well. -/
structure Kept (config : MigrationConfig) (x : Executor σ F × Ledger) : Prop where
  manned : x.1.Manned config
  crew : x.1.Crew config
  counts : x.2.Fits → x.1.Counts x.2

theorem kept_run (hdry : config.dryRun = false) {client : σ} {resumed disk : Option Checkpoint}
    {inserts : List (List (VectorRecord F))} {total : Option Nat} {works : List (Work × Int)}
    {x : Executor σ F × Ledger}
    (hrun : works.foldlM (watch source config)
      (start config client resumed disk inserts, Ledger.start total) = some x)
    (hsound : ∀ w ∈ works, w.1.Sound) : Kept config x := by
  refine foldlM_invariant (p := fun _ w => w.1.Sound) ?_ ?_ ?_ hrun
  · rintro ⟨s, l⟩ ⟨w, elapsed⟩ ⟨s', l'⟩ hkept hsound hwatch
    have hmove := move_of_step (step_of_watch hwatch)
    refine ⟨manned_move hkept.manned hmove, crew_move hkept.manned hkept.crew hsound hmove, ?_⟩
    intro hfits
    have hcounts := hkept.counts (fits_before hwatch hfits)
    exact counts_watch hdry hkept.manned hcounts hsound hfits hwatch
  · exact ⟨manned_start client resumed disk inserts, crew_start client resumed disk inserts,
      fun _ => counts_start client resumed disk inserts total⟩
  · intro before w after _ hl _
    exact hsound w (by rw [hl]; exact List.mem_append_cons_self)

end Executor

end executor

/-- Every run of `stream_migration` in which the checkpoints are saved, and every run of
`execute_streaming` in which besides no task panics, takes no processed records from a smaller
total.  The progress is right when `stream_migration` returns, and where `execute_streaming` stands
still exactly if it had no more than one permit or no record. -/
theorem accounting_exact (source : SourceClient σ F) (formats : Formats F)
    {config : MigrationConfig} (hdry : config.dryRun = false) (client : σ) (resumed disk : Option Checkpoint)
    (inserts : List (List (VectorRecord F))) (total : Option Nat) :
    (∀ (actions : List (Action × Int)) (s : Stream σ F) (l : Ledger),
      actions.foldlM (Stream.watch source formats config)
        (Stream.start config.batchSize client resumed disk, Ledger.start total) = some (s, l) →
      (∀ a ∈ actions, a.1.Sound) → l.Fits →
      l.underflowed = false ∧ ∀ result, s.consuming = .returned result → l.Accurate) ∧
    ∀ (works : List (Work × Int)) (s : Executor σ F) (l : Ledger),
      works.foldlM (Executor.watch source config)
        (Executor.start config client resumed disk inserts, Ledger.start total) = some (s, l) →
      (∀ w ∈ works, w.1.Sound) → l.Fits →
      l.underflowed = false ∧ s.executing ≠ .returned ∧
        (s.AtRest → (l.Accurate ↔ config.maxConcurrency ≤ 1 ∨ l.received = 0)) := by
  refine ⟨fun actions s l hrun hsound hfits => ?_, fun works s l hrun hsound hfits => ?_⟩
  · have hcounts := Stream.counts_run hdry hrun hsound hfits
    refine ⟨hcounts.calm, fun result hreturned => ?_⟩
    have hbalance := hcounts.balance
    obtain ⟨hqueue, r, hp⟩ := hcounts.closed result hreturned
    have hpending : s.pending = [] := by
      rw [Stream.pending, hreturned, hqueue, hp]
      rfl
    obtain ⟨hprocessed, hfailed⟩ := hcounts.shown fun checkpoint hsaving =>
      absurd (hreturned.symm.trans hsaving) (by simp)
    rw [hpending] at hbalance
    rw [Ledger.Accurate, hprocessed, hfailed, hcounts.inserted, hcounts.landed]
    exact ⟨hbalance, rfl⟩
  · have hkept := Executor.kept_run hdry hrun hsound
    have hcounts := hkept.counts hfits
    refine ⟨hcounts.calm, fun hreturned => ?_, fun hrest => ?_⟩
    · have hlistening := hkept.manned.listening
      rw [hreturned] at hlistening
      exact hlistening
    · exact Executor.accurate_atRest_iff hcounts hkept.crew hrest

def afterSecond {α : Type} (steps : List α) : List (α × Int) := steps.map fun step => (step, 1)

theorem accounting_exact_twoBatches :
    (∃ s l,
      (afterSecond (oneBatch ++ oneBatch ++ atEnd)).foldlM
          (Stream.watch (fixedSource sampleRecords) sampleFormats sampleConfig)
          (Stream.start 1 () none none, Ledger.start (some 2)) = some (s, l) ∧
        l.underflowed = false ∧ l.Accurate) ∧
    ∃ s l,
      (afterSecond (oneTask ++ oneTask ++ [Work.fetch])).foldlM
          (Executor.watch (fixedSource sampleRecords) sampleConfig)
          (Executor.start sampleConfig () none none [], Ledger.start (some 2)) = some (s, l) ∧
        l.underflowed = false ∧ l.Accurate := by
  have hdry : sampleConfig.dryRun = false := rfl
  obtain ⟨hstream, hexecutor⟩ := accounting_exact (fixedSource sampleRecords) sampleFormats hdry ()
    none none [] (some 2)
  have hstreamed : ∃ s l, (afterSecond (oneBatch ++ oneBatch ++ atEnd)).foldlM
      (Stream.watch (fixedSource sampleRecords) sampleFormats sampleConfig)
      (Stream.start 1 () none none, Ledger.start (some 2)) = some (s, l) ∧
        s.consuming = .returned (.ok ()) ∧ l.received = 2 ∧ l.progress.totalRecords = some 2 :=
    ⟨_, _, rfl, rfl, rfl, rfl⟩
  have hexecuted : ∃ s l, (afterSecond (oneTask ++ oneTask ++ [Work.fetch])).foldlM
      (Executor.watch (fixedSource sampleRecords) sampleConfig)
      (Executor.start sampleConfig () none none [], Ledger.start (some 2)) = some (s, l) ∧
        s.AtRest ∧ l.received = 2 ∧ l.progress.totalRecords = some 2 :=
    ⟨_, _, rfl, ⟨rfl, rfl, ⟨_, rfl⟩, fun task hmem => absurd hmem List.not_mem_nil⟩, rfl, rfl⟩
  have hfits : ∀ l : Ledger, l.received = 2 → l.progress.totalRecords = some 2 → l.Fits := by
    intro l hreceived htotal
    refine ⟨by rw [hreceived]; decide, fun total hsome => ?_⟩
    rw [hreceived, ← Option.some.inj (htotal.symm.trans hsome)]
  obtain ⟨s, l, hrun, hreturned, hreceived, htotal⟩ := hstreamed
  obtain ⟨t, k, hworks, hrest, hcame, hcounted⟩ := hexecuted
  have hactions : ∀ a ∈ afterSecond (oneBatch ++ oneBatch ++ atEnd), a.1.Sound := by
    simp [afterSecond, oneBatch, atEnd, Action.Sound]
  have htasks : ∀ w ∈ afterSecond (oneTask ++ oneTask ++ [Work.fetch]), w.1.Sound := by
    simp [afterSecond, oneTask, Work.Sound]
  obtain ⟨hcalm, haccurate⟩ := hstream _ s l hrun hactions (hfits l hreceived htotal)
  obtain ⟨hcalm', -, haccurate'⟩ := hexecutor _ t k hworks htasks (hfits k hcame hcounted)
  exact ⟨⟨s, l, hrun, hcalm, haccurate _ hreturned⟩,
    t, k, hworks, hcalm', (haccurate' hrest).mpr (Or.inl (Nat.le_refl 1))⟩

def pairConfig : MigrationConfig := { sampleConfig with batchSize := 2, batchSize_lt := by decide }

/-- The target takes a batch of two records, and its checkpoint is not saved: `stream_migration`
returns without an update, the task in `execute_streaming` counts as one record that failed.  And
two records from a source that counted one. -/
theorem not_accounting_exact_unsaved :
    (∃ s l,
      (afterSecond [.fetch, .send, .receive, .process (.ok ()),
            .save (.error (.io "Failed to write checkpoint"))]).foldlM
          (Stream.watch (fixedSource sampleRecords) sampleFormats pairConfig)
          (Stream.start 2 () none none, Ledger.start (some 2)) = some (s, l) ∧
        s.consuming = .returned (.error (.io "Failed to write checkpoint")) ∧
        l.received = 2 ∧ l.inserted = 2 ∧
        l.progress.processedRecords = 0 ∧ l.progress.failedRecords = 0) ∧
    (∃ s l,
      (afterSecond [.fetch, .send, .receive, .acquire, .insert 0 (.returned (.ok ())),
            .save 0 (.returned (.error (.io "Failed to write checkpoint"))), .select 0,
            .fetch]).foldlM
          (Executor.watch (fixedSource sampleRecords) pairConfig)
          (Executor.start pairConfig () none none [], Ledger.start (some 2)) = some (s, l) ∧
        s.AtRest ∧ l.received = 2 ∧ l.inserted = 2 ∧
        l.progress.processedRecords = 0 ∧ l.progress.failedRecords = 1) ∧
    ∃ s l,
      (afterSecond oneBatch).foldlM
          (Stream.watch (fixedSource sampleRecords) sampleFormats pairConfig)
          (Stream.start 2 () none none, Ledger.start (some 1)) = some (s, l) ∧
        l.underflowed = true := by
  refine ⟨⟨_, _, rfl, rfl, rfl, rfl, rfl, rfl⟩, ⟨_, _, rfl, ?_, rfl, rfl, rfl, rfl⟩, _, _, rfl, ?_⟩
  · exact ⟨rfl, rfl, ⟨_, rfl⟩, fun task hmem => absurd hmem List.not_mem_nil⟩
  · decide +kernel

end Migration
end RTDB
