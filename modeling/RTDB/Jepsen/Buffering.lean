import RTDB.Jepsen.SyncBatched

/-!
# The buffered client as a register map

What a run has done to the collection and what it is going to do, the invariant that every step
keeps where no upsert overtakes, no get is stale and no upsert loses the write of another call, and
the order of the calls that it yields.

The collection is a map whose gets and upserts are atomic; an upsert may fail, and the moment of a
rotation in which a full memtable is in neither place is left out.
-/

namespace RTDB
namespace Jepsen

open Linear (Call Path)

variable {V : Type}

namespace BatchedOp

def next : BatchedOp V → Next V
  | .read key => .get key
  | .write _ _ => .reply (.ok .writeOk)
  | .flush => .reply .flushed

def Gives : BatchedOp V → Reply V → Prop
  | .read _, reply => ∃ value, reply = .ok (.readOk value)
  | .write _ _, reply => reply = .ok .writeOk
  | .flush, reply => reply = .flushed

end BatchedOp

namespace BatchedCall

def Fits (r : BatchedCall V) : Prop :=
  match r.stage with
  | .push key value => r.call.op = .write key value
  | .drain next => next = r.call.op.next
  | .upsert next => next = r.call.op.next
  | .get key => r.call.op = .read key
  | .done reply => reply = .error ∨ r.call.op.Gives reply

/-- The call is to have its effect. -/
def Counts (r : BatchedCall V) : Prop :=
  match r.stage with
  | .drain next => next = .reply (.ok .writeOk)
  | .upsert next => next = .reply (.ok .writeOk)
  | .done (.ok _) => True
  | _ => False

/-- A read that is behind the draining of its flush. -/
def Waits (r : BatchedCall V) : Prop :=
  match r.stage with
  | .upsert (.get _) => True
  | .get _ => True
  | _ => False

end BatchedCall

namespace SyncBatchedClient

def effects (s : SyncBatchedClient V) : List (Effect V) := s.applied ++ s.pending.map .wrote

/-- Every run keeps this: the effects are those of calls that have come so far, one each, and on each
register they keep to real time. -/
structure Sound (keyToVectorId : String → UInt64) (s : SyncBatchedClient V) : Prop where
  fits : ∀ (i : Nat) (r : BatchedCall V), s.running[i]? = some r → r.Fits
  times : ∀ (i : Nat) (r : BatchedCall V), s.running[i]? = some r →
    r.call.invoked < s.clock ∧
      ∀ outcome ∈ r.call.outcome, r.stage = .done outcome.1 ∧ r.call.invoked ≤ outcome.2
  linked : ∀ e ∈ s.effects, ∃ r, s.running[e.call]? = some r ∧ e.Of r
  complete : ∀ (i : Nat) (r : BatchedCall V), s.running[i]? = some r → r.Counts →
    ∃ e ∈ s.effects, e.call = i
  nodup : (s.effects.map Effect.call).Nodup
  flying : ∀ flight ∈ s.flights, ∃ r next, s.running[flight.call]? = some r ∧
    r.stage = .upsert next
  distinct : (s.flights.map Flight.call).Nodup
  ordered : s.effects.Pairwise fun a b => keyToVectorId a.key = keyToVectorId b.key →
    ¬Linear.Precedes s.calls b.call a.call
  waiting : ∀ (i : Nat) (r : BatchedCall V), s.running[i]? = some r → r.Waits →
    ∀ w ∈ s.buffer, ¬Linear.Precedes s.calls w.call i
  path : Path (Effect.Takes keyToVectorId) (fun _ => none) s.applied s.contents

section Runs

variable {keyToVectorId : String → UInt64} {s s' : SyncBatchedClient V} {i : Nat}
  {r : BatchedCall V}

theorem getElem?_calls {call : Call (BatchedOp V) (Reply V)} :
    s.calls[i]? = some call ↔ ∃ r, s.running[i]? = some r ∧ r.call = call := by
  rw [calls, List.getElem?_map, Option.map_eq_some_iff]

theorem sound_new (batchSize : Nat) : Sound keyToVectorId (new batchSize : SyncBatchedClient V) :=
  { fits := fun i r hr => absurd hr (by simp [new])
    times := fun i r hr => absurd hr (by simp [new])
    linked := fun e he => absurd he (by simp [effects, pending, new])
    complete := fun i r hr => absurd hr (by simp [new])
    nodup := by simp [effects, pending, new]
    flying := fun flight hflight => absurd hflight (by simp [new])
    distinct := by simp [new]
    ordered := by simp [effects, pending, new]
    waiting := fun i r hr => absurd hr (by simp [new])
    path := rfl }

theorem Sound.outcome_eq_none (hs : Sound keyToVectorId s) (hr : s.running[i]? = some r)
    (hactive : ∀ reply, r.stage ≠ .done reply) : r.call.outcome = none := by
  cases houtcome : r.call.outcome with
  | none => rfl
  | some outcome => exact absurd ((hs.times i r hr).2 outcome houtcome).1 (hactive outcome.1)

theorem Sound.not_precedes (hs : Sound keyToVectorId s) (hr : s.running[i]? = some r)
    (hactive : ∀ reply, r.stage ≠ .done reply) (j : Nat) : ¬Linear.Precedes s.calls i j := by
  rintro ⟨call, other, hcall, -, outcome, houtcome, -⟩
  obtain ⟨r', hr', rfl⟩ := getElem?_calls.mp hcall
  obtain rfl := Option.some.inj (hr.symm.trans hr')
  rw [hs.outcome_eq_none hr hactive] at houtcome
  exact absurd houtcome (by simp)

/-- A call that moves to another stage returns nothing yet. -/
theorem calls_moveTo (hr : s.running[i]? = some r) (stage : Stage V) :
    (s.running.set i { r with stage }).map BatchedCall.call = s.calls := by
  obtain ⟨hi, hcall⟩ := List.getElem?_eq_some_iff.mp (getElem?_calls.mpr ⟨r, hr, rfl⟩)
  rw [List.map_set, ← calls]
  show s.calls.set i r.call = s.calls
  rw [← hcall, List.set_getElem_self]

/-- What has to be seen of a call that moves to another stage. -/
structure Moves (keyToVectorId : String → UInt64) (s : SyncBatchedClient V) (i : Nat)
    (r' : BatchedCall V) (s' : SyncBatchedClient V) : Prop where
  fits : r'.Fits
  own : ∀ e ∈ s'.effects, e.call = i → e.Of r'
  others : ∀ e : Effect V, e.call ≠ i → (e ∈ s'.effects ↔ e ∈ s.effects)
  counts : r'.Counts → ∃ e ∈ s'.effects, e.call = i
  nodup : (s'.effects.map Effect.call).Nodup
  flying : ∀ flight ∈ s'.flights,
    flight.call = i ∧ (∃ next, r'.stage = .upsert next) ∨ flight.call ≠ i ∧ flight ∈ s.flights
  distinct : (s'.flights.map Flight.call).Nodup
  ordered : s'.effects.Pairwise fun a b => keyToVectorId a.key = keyToVectorId b.key →
    ¬Linear.Precedes s.calls b.call a.call
  buffer : ∀ w ∈ s'.buffer, w ∈ s.buffer ∨ w.call = i
  waiting : r'.Waits → ∀ w ∈ s'.buffer, ¬Linear.Precedes s.calls w.call i
  path : Path (Effect.Takes keyToVectorId) (fun _ => none) s'.applied s'.contents

theorem Sound.moveTo (hs : Sound keyToVectorId s) (hr : s.running[i]? = some r)
    (hactive : ∀ reply, r.stage ≠ .done reply) {stage : Stage V}
    (hrunning : s'.running = s.running.set i { r with stage }) (hclock : s'.clock = s.clock + 1)
    (hmoves : Moves keyToVectorId s i { r with stage } s') : Sound keyToVectorId s' := by
  have hcalls : s'.calls = s.calls := by
    rw [calls, hrunning]
    exact calls_moveTo hr stage
  have hi : i < s.running.length := (List.getElem?_eq_some_iff.mp hr).1
  have hself : s'.running[i]? = some { r with stage } := by
    rw [hrunning, List.getElem?_set_self hi]
  have hother : ∀ j, j ≠ i → s'.running[j]? = s.running[j]? := by
    intro j hj
    rw [hrunning, List.getElem?_set_ne (Ne.symm hj)]
  have hcases : ∀ (j : Nat) (found : BatchedCall V), s'.running[j]? = some found →
      j = i ∧ found = { r with stage } ∨ j ≠ i ∧ s.running[j]? = some found := by
    intro j found hfound
    rw [hrunning] at hfound
    exact Linear.getElem?_set_cases hfound
  refine { fits := fun j found hfound => ?_, times := fun j found hfound => ?_
           linked := fun e he => ?_, complete := fun j found hfound hcounts => ?_
           nodup := hmoves.nodup, flying := fun flight hflight => ?_
           distinct := hmoves.distinct, ordered := hcalls ▸ hmoves.ordered
           waiting := fun j found hfound hwaits w hw => ?_, path := hmoves.path }
  · rcases hcases j found hfound with ⟨-, rfl⟩ | ⟨-, hold⟩
    · exact hmoves.fits
    · exact hs.fits j found hold
  · rw [hclock]
    rcases hcases j found hfound with ⟨-, rfl⟩ | ⟨-, hold⟩
    · refine ⟨Nat.lt_succ_of_lt (hs.times i r hr).1, fun outcome houtcome => ?_⟩
      rw [hs.outcome_eq_none hr hactive] at houtcome
      exact absurd houtcome (by simp)
    · exact ⟨Nat.lt_succ_of_lt (hs.times j found hold).1, (hs.times j found hold).2⟩
  · by_cases hcall : e.call = i
    · exact ⟨_, hcall ▸ hself, hmoves.own e he hcall⟩
    · rw [hother e.call hcall]
      exact hs.linked e ((hmoves.others e hcall).mp he)
  · rcases hcases j found hfound with ⟨rfl, rfl⟩ | ⟨hj, hold⟩
    · exact hmoves.counts hcounts
    · obtain ⟨e, he, rfl⟩ := hs.complete j found hold hcounts
      exact ⟨e, (hmoves.others e hj).mpr he, rfl⟩
  · rcases hmoves.flying flight hflight with ⟨hcall, next, hstage⟩ | ⟨hcall, hold⟩
    · exact ⟨_, next, hcall ▸ hself, hstage⟩
    · rw [hother flight.call hcall]
      exact hs.flying flight hold
  · rw [hcalls]
    rcases hcases j found hfound with ⟨rfl, rfl⟩ | ⟨hj, hold⟩
    · exact hmoves.waiting hwaits w hw
    · rcases hmoves.buffer w hw with hw | hw
      · exact hs.waiting j found hold hwaits w hw
      · rw [hw]
        exact hs.not_precedes hr hactive j

/-! ### The steps -/

theorem of_moveTo {e : Effect V} (he : e.Of r) (hactive : ∀ reply, r.stage ≠ .done reply)
    {stage : Stage V} (hpush : ∀ key value, stage ≠ .push key value)
    (herror : stage ≠ .done .error) : e.Of { r with stage } := by
  cases e with
  | wrote w => exact ⟨he.1, hpush, herror⟩
  | got call key value => exact absurd he.2 (hactive _)

theorem Sound.flying_ne (hs : Sound keyToVectorId s) (hr : s.running[i]? = some r)
    (hstage : ∀ next, r.stage ≠ .upsert next) : ∀ flight ∈ s.flights, flight.call ≠ i := by
  rintro flight hflight rfl
  obtain ⟨r', next, hr', hnext⟩ := hs.flying flight hflight
  obtain rfl := Option.some.inj (hr.symm.trans hr')
  exact hstage next hnext

theorem Sound.own (hs : Sound keyToVectorId s) (hr : s.running[i]? = some r) {e : Effect V}
    (he : e ∈ s.effects) (hcall : e.call = i) : e.Of r := by
  obtain ⟨r', hr', hof⟩ := hs.linked e he
  rw [hcall] at hr'
  exact Option.some.inj (hr'.symm.trans hr) ▸ hof

/-- A call that has not pushed its write yet has done nothing. -/
theorem Sound.push_new (hs : Sound keyToVectorId s) (hr : s.running[i]? = some r) {key : String}
    {value : V} (hstage : r.stage = .push key value) : ∀ e ∈ s.effects, e.call ≠ i := by
  intro e he hcall
  have hof := hs.own hr he hcall
  cases e with
  | wrote w => exact hof.2.1 key value hstage
  | got call key value => exact absurd (hof.2.symm.trans hstage) (by simp)

theorem Sound.under_way_new (hs : Sound keyToVectorId s) (hr : s.running[i]? = some r)
    (hactive : ∀ reply, r.stage ≠ .done reply)
    (hop : ∀ key value, r.call.op ≠ .write key value) : ∀ e ∈ s.effects, e.call ≠ i := by
  intro e he hcall
  have hof := hs.own hr he hcall
  cases e with
  | wrote w => exact hop w.key w.value hof.1
  | got call key value => exact hactive _ hof.2

theorem Sound.push (hs : Sound keyToVectorId s) (hr : s.running[i]? = some r) {key : String}
    {value : V} (hstage : r.stage = .push key value) {stage : Stage V}
    (hnext : stage = .drain (.reply (.ok .writeOk)) ∨ stage = .done (.ok .writeOk)) :
    Sound keyToVectorId { s.moveTo i r stage with
      buffer := s.buffer ++ [{ call := i, key, value }] } := by
  have hactive : ∀ reply, r.stage ≠ .done reply := by simp [hstage]
  have hnew := hs.push_new hr hstage
  have hop : r.call.op = .write key value := by
    have hfits := hs.fits i r hr
    rwa [BatchedCall.Fits, hstage] at hfits
  have heffects : effects { s.moveTo i r stage with
      buffer := s.buffer ++ [{ call := i, key, value }] } =
        s.effects ++ [.wrote { call := i, key, value }] := by
    simp [effects, pending, SyncBatchedClient.moveTo]
  refine hs.moveTo hr hactive rfl rfl
    { fits := ?_, own := ?_, others := ?_, nodup := ?_
      counts := fun _ => ⟨.wrote { call := i, key, value }, ?_, rfl⟩
      flying := fun flight hflight => .inr ⟨hs.flying_ne hr (by simp [hstage]) flight hflight, hflight⟩
      distinct := hs.distinct, ordered := ?_, buffer := ?_, waiting := ?_, path := hs.path }
  · rcases hnext with rfl | rfl
    · simp [BatchedCall.Fits, hop, BatchedOp.next]
    · simp [BatchedCall.Fits, hop, BatchedOp.Gives]
  · intro e he hcall
    rw [heffects, List.mem_append, List.mem_singleton] at he
    rcases he with he | rfl
    · exact absurd hcall (hnew e he)
    · rcases hnext with rfl | rfl <;> exact ⟨hop, by simp, by simp⟩
  · intro e hcall
    rw [heffects, List.mem_append, List.mem_singleton]
    refine or_iff_left ?_
    rintro rfl
    exact hcall rfl
  · rw [heffects]
    exact List.mem_append_right _ List.mem_cons_self
  · rw [heffects, List.map_append, List.nodup_append]
    refine ⟨hs.nodup, by simp, fun j hj k hk => ?_⟩
    obtain ⟨e, he, rfl⟩ := List.mem_map.mp hj
    rw [List.mem_singleton.mp hk]
    exact hnew e he
  · rw [heffects, List.pairwise_append]
    refine ⟨hs.ordered, List.pairwise_singleton _ _, fun e _ w hw _ => ?_⟩
    rw [List.mem_singleton.mp hw]
    exact hs.not_precedes hr hactive e.call
  · intro w hw
    rcases List.mem_append.mp hw with hw | hw
    · exact .inl hw
    · exact .inr (congrArg BufferedWrite.call (List.mem_singleton.mp hw))
  · intro hwaits
    rcases hnext with rfl | rfl <;> exact hwaits.elim

theorem fits_next {r : BatchedCall V} : BatchedCall.Fits { r with stage := r.call.op.next.stage } := by
  cases hop : r.call.op with
  | read key => simp [BatchedCall.Fits, hop, BatchedOp.next, Next.stage]
  | write key value => simp [BatchedCall.Fits, hop, BatchedOp.next, Next.stage, BatchedOp.Gives]
  | flush => simp [BatchedCall.Fits, hop, BatchedOp.next, Next.stage, BatchedOp.Gives]

theorem counts_next {r : BatchedCall V} {op : BatchedOp V}
    (hcounts : BatchedCall.Counts { r with stage := op.next.stage }) :
    op.next = .reply (.ok .writeOk) := by
  cases op with
  | read key => exact hcounts.elim
  | write key value => rfl
  | flush => exact hcounts.elim

theorem next_stage_ne (op : BatchedOp V) :
    (∀ key value, op.next.stage ≠ .push key value) ∧ op.next.stage ≠ .done .error := by
  cases op <;> simp [BatchedOp.next, Next.stage]

/-- A step that leaves the effects as they are. -/
theorem Sound.moveTo_same (hs : Sound keyToVectorId s) (hr : s.running[i]? = some r)
    (hactive : ∀ reply, r.stage ≠ .done reply) {stage : Stage V}
    (hrunning : s'.running = s.running.set i { r with stage }) (hclock : s'.clock = s.clock + 1)
    (heffects : s'.effects = s.effects) (hfits : BatchedCall.Fits { r with stage })
    (hown : ∀ e ∈ s.effects, e.call = i → e.Of { r with stage })
    (hcounts : BatchedCall.Counts { r with stage } → r.Counts)
    (hflying : ∀ flight ∈ s'.flights,
      flight.call = i ∧ (∃ next, stage = .upsert next) ∨ flight.call ≠ i ∧ flight ∈ s.flights)
    (hdistinct : (s'.flights.map Flight.call).Nodup) (hbuffer : ∀ w ∈ s'.buffer, w ∈ s.buffer)
    (hwaiting : BatchedCall.Waits { r with stage } → s'.buffer = [])
    (hpath : Path (Effect.Takes keyToVectorId) (fun _ => none) s'.applied s'.contents) :
    Sound keyToVectorId s' := by
  refine hs.moveTo hr hactive hrunning hclock
    { fits := hfits, own := heffects ▸ hown, others := fun e _ => by rw [heffects]
      counts := fun hnow => heffects ▸ hs.complete i r hr (hcounts hnow)
      nodup := heffects ▸ hs.nodup, flying := hflying, distinct := hdistinct
      ordered := heffects ▸ hs.ordered, buffer := fun w hw => .inl (hbuffer w hw)
      waiting := fun hwaits w hw => ?_, path := hpath }
  rw [hwaiting hwaits] at hw
  exact absurd hw List.not_mem_nil

theorem Sound.next_of_drain (hs : Sound keyToVectorId s) (hr : s.running[i]? = some r)
    {next : Next V} (hstage : r.stage = .drain next ∨ r.stage = .upsert next) :
    next = r.call.op.next := by
  have hfits := hs.fits i r hr
  rcases hstage with hstage | hstage
  · rwa [BatchedCall.Fits, hstage] at hfits
  · rwa [BatchedCall.Fits, hstage] at hfits

theorem Sound.drain_empty (hs : Sound keyToVectorId s) (hr : s.running[i]? = some r)
    {next : Next V} (hstage : r.stage = .drain next) (hbuffer : s.buffer = []) :
    Sound keyToVectorId (s.moveTo i r next.stage) := by
  obtain rfl := hs.next_of_drain hr (.inl hstage)
  have hactive : ∀ reply, r.stage ≠ .done reply := by simp [hstage]
  obtain ⟨hpush, herror⟩ := next_stage_ne r.call.op
  refine hs.moveTo_same hr hactive rfl rfl rfl fits_next
    (fun e he hcall => of_moveTo (hs.own hr he hcall) hactive hpush herror) (fun hcounts => ?_)
    (fun flight hflight => .inr ⟨hs.flying_ne hr (by simp [hstage]) flight hflight, hflight⟩)
    hs.distinct (fun _ hw => hw) (fun _ => hbuffer) hs.path
  rw [BatchedCall.Counts, hstage]
  exact counts_next hcounts

/-- The batch that was drained is behind those in flight. -/
theorem Sound.drain_batch (hs : Sound keyToVectorId s) (hr : s.running[i]? = some r)
    {next : Next V} (hstage : r.stage = .drain next) :
    Sound keyToVectorId { s.moveTo i r (.upsert next) with
      buffer := [], flights := s.flights ++ [{ call := i, batch := s.buffer }] } := by
  have hactive : ∀ reply, r.stage ≠ .done reply := by simp [hstage]
  have hothers := hs.flying_ne hr (by simp [hstage])
  refine hs.moveTo_same hr hactive rfl rfl ?_ (hs.next_of_drain hr (.inl hstage))
    (fun e he hcall => of_moveTo (hs.own hr he hcall) hactive (by simp) (by simp)) (fun hcounts => ?_)
    (fun flight hflight => ?_) ?_ (fun w hw => absurd hw List.not_mem_nil) (fun _ => rfl) hs.path
  · simp [effects, pending, SyncBatchedClient.moveTo]
  · rw [BatchedCall.Counts, hstage]
    exact hcounts
  · rcases List.mem_append.mp hflight with hold | hnew
    · exact .inr ⟨hothers flight hold, hold⟩
    · exact .inl ⟨congrArg Flight.call (List.mem_singleton.mp hnew), next, rfl⟩
  · rw [List.map_append, List.nodup_append]
    refine ⟨hs.distinct, by simp, fun j hj k hk => ?_⟩
    obtain ⟨flight, hflight, rfl⟩ := List.mem_map.mp hj
    rw [List.mem_singleton.mp hk]
    exact hothers flight hflight

theorem Sound.fail_get (hs : Sound keyToVectorId s) (hr : s.running[i]? = some r) {key : String}
    (hstage : r.stage = .get key) : Sound keyToVectorId (s.moveTo i r (.done .error)) := by
  have hactive : ∀ reply, r.stage ≠ .done reply := by simp [hstage]
  have hop : r.call.op = .read key := by
    have hfits := hs.fits i r hr
    rwa [BatchedCall.Fits, hstage] at hfits
  refine hs.moveTo_same hr hactive rfl rfl rfl (.inl rfl) (fun e he hcall => ?_) False.elim
    (fun flight hflight => .inr ⟨hs.flying_ne hr (by simp [hstage]) flight hflight, hflight⟩)
    hs.distinct (fun _ hw => hw) False.elim hs.path
  exact absurd hcall (hs.under_way_new hr hactive (by simp [hop]) e he)

/-- A read that is not stale finds what comes behind all that has been done and before all that is
pending. -/
theorem Sound.get (hs : Sound keyToVectorId s) (hr : s.running[i]? = some r) {key : String}
    (hstage : r.stage = .get key) (hfresh : ¬s.Stale keyToVectorId i key) :
    Sound keyToVectorId { s.moveTo i r (.done (.ok (.readOk (s.contents (keyToVectorId key))))) with
      applied := s.applied ++ [.got i key (s.contents (keyToVectorId key))] } := by
  have hactive : ∀ reply, r.stage ≠ .done reply := by simp [hstage]
  have hop : r.call.op = .read key := by
    have hfits := hs.fits i r hr
    rwa [BatchedCall.Fits, hstage] at hfits
  have hnew := hs.under_way_new hr hactive (by simp [hop])
  generalize hvalue : s.contents (keyToVectorId key) = value
  have heffects : effects { s.moveTo i r (.done (.ok (.readOk value))) with
      applied := s.applied ++ [.got i key value] } =
        s.applied ++ .got i key value :: s.pending.map .wrote := by
    simp [effects, pending, SyncBatchedClient.moveTo]
  have hmem : ∀ e, e ∈ s.applied ++ .got i key value :: s.pending.map Effect.wrote ↔
      e = .got i key value ∨ e ∈ s.effects := by
    intro e
    simp only [effects, List.mem_append, List.mem_cons]
    tauto
  refine hs.moveTo hr hactive rfl rfl
    { fits := ?_, own := ?_, others := ?_, counts := fun _ => ⟨.got i key value, ?_, rfl⟩, nodup := ?_
      flying := fun flight hflight => .inr ⟨hs.flying_ne hr (by simp [hstage]) flight hflight, hflight⟩
      distinct := hs.distinct, ordered := ?_, buffer := fun w hw => .inl hw, waiting := False.elim
      path := ?_ }
  · simp [BatchedCall.Fits, hop, BatchedOp.Gives]
  · intro e he hcall
    rw [heffects, hmem] at he
    rcases he with rfl | he
    · exact ⟨hop, rfl⟩
    · exact absurd hcall (hnew e he)
  · intro e hcall
    rw [heffects, hmem]
    refine or_iff_right ?_
    rintro rfl
    exact hcall rfl
  · rw [heffects, hmem]
    exact .inl rfl
  · rw [heffects, ((List.perm_middle).map Effect.call).nodup_iff, List.map_cons, List.nodup_cons]
    refine ⟨fun hcall => ?_, hs.nodup⟩
    obtain ⟨e, he, hcall⟩ := List.mem_map.mp hcall
    exact hnew e he hcall
  · rw [heffects, List.pairwise_append, List.pairwise_cons]
    obtain ⟨happlied, hpending, hacross⟩ := List.pairwise_append.mp hs.ordered
    refine ⟨happlied, ⟨fun e he hkey => ?_, hpending⟩, fun a ha b hb => ?_⟩
    · obtain ⟨w, hw, rfl⟩ := List.mem_map.mp he
      rcases List.mem_append.mp hw with hw | hw
      · obtain ⟨flight, hflight, hw⟩ := List.mem_flatMap.mp hw
        exact fun hprecedes => hfresh ⟨flight, hflight, w, hw, hkey.symm, hprecedes⟩
      · exact hs.waiting i r hr (by simp [BatchedCall.Waits, hstage]) w hw
    · rcases List.mem_cons.mp hb with rfl | hb
      · exact fun _ => hs.not_precedes hr hactive a.call
      · exact hacross a ha b hb
  · refine Linear.path_concat.mpr ⟨s.contents, hs.path, fun found hfound => ?_, rfl⟩
    exact hvalue.trans (Conflict.Action.got.inj hfound)

/-! ### Upserts -/

/-- The batch of a call is pending between those drained before and those drained after. -/
theorem Sound.exists_batch (hs : Sound keyToVectorId s) (i : Nat) :
    ∃ front back : List (Flight V),
      s.flights.flatMap Flight.batch =
        front.flatMap Flight.batch ++ (s.batchOf i ++ back.flatMap Flight.batch) ∧
      (s.flights.filter fun flight => flight.call ≠ i) = front ++ back := by
  have hall : ∀ l : List (Flight V), (∀ flight ∈ l, flight.call ≠ i) →
      (l.filter fun flight => flight.call ≠ i) = l :=
    fun l hl => List.filter_eq_self.mpr fun flight hflight => decide_eq_true (hl flight hflight)
  cases hfind : s.flights.find? fun flight => decide (flight.call = i) with
  | none =>
    have hnone : ∀ flight ∈ s.flights, flight.call ≠ i := by
      intro flight hflight
      simpa using List.find?_eq_none.mp hfind flight hflight
    refine ⟨s.flights, [], ?_, ?_⟩
    · simp [batchOf, hfind]
    · rw [hall s.flights hnone, List.append_nil]
  | some flight =>
    obtain ⟨hcall, front, back, heq, hfront⟩ := List.find?_eq_some_iff_append.mp hfind
    rw [decide_eq_true_iff] at hcall
    have hback : ∀ other ∈ back, other.call ≠ i := by
      have hdistinct := hs.distinct
      rw [heq, List.map_append, List.map_cons, List.nodup_append, List.nodup_cons] at hdistinct
      rintro other hother rfl
      exact hdistinct.2.1.1 (hcall ▸ List.mem_map_of_mem hother)
    refine ⟨front, back, ?_, ?_⟩
    · rw [batchOf, hfind, heq, List.flatMap_append, List.flatMap_cons]
      rfl
    · rw [heq, List.filter_append, List.filter_cons_of_neg (by simp [hcall]), hall back hback,
        hall front fun other hother => by simpa using hfront other hother]

def settled (keyToVectorId : String → UInt64) (s : SyncBatchedClient V) (i : Nat)
    (r : BatchedCall V) (stage : Stage V) (taken : List (BufferedWrite V)) : SyncBatchedClient V :=
  { s.moveTo i r stage with
    contents := taken.foldl (store keyToVectorId) s.contents
    flights := s.flights.filter fun flight => flight.call ≠ i
    applied := s.applied ++ taken.map .wrote }

/-- The writes of a batch that are done leave the others where they were. -/
theorem Sound.effects_settled (hs : Sound keyToVectorId s) {taken dropped : List (BufferedWrite V)}
    (hbatch : s.batchOf i = taken ++ dropped) (stage : Stage V) :
    s.effects.Perm ((s.settled keyToVectorId i r stage taken).effects ++ dropped.map .wrote) := by
  obtain ⟨front, back, hflights, hothers⟩ := hs.exists_batch i
  simp only [effects, pending, settled, hflights, hothers, hbatch, List.map_append,
    List.flatMap_append, List.append_assoc]
  rw [← Multiset.coe_eq_coe]
  simp only [← Multiset.coe_add]
  ac_rfl

/-- Of a batch that overtakes nothing some writes are done and the others are gone. -/
theorem Sound.settle (hs : Sound keyToVectorId s) (hr : s.running[i]? = some r) {next : Next V}
    (hstage : r.stage = .upsert next) {stage : Stage V} {taken dropped : List (BufferedWrite V)}
    (hbatch : s.batchOf i = taken ++ dropped) (hovertakes : ¬s.Overtakes keyToVectorId i taken)
    (hfits : BatchedCall.Fits { r with stage })
    (hown : ∀ e ∈ s.effects, e.call = i → e ∈ dropped.map Effect.wrote ∨ e.Of { r with stage })
    (hlost : ∀ w ∈ dropped, w.call = i)
    (hcounts : BatchedCall.Counts { r with stage } → r.Counts ∧ dropped = [])
    (hwaiting : BatchedCall.Waits { r with stage } → r.Waits) :
    Sound keyToVectorId (s.settled keyToVectorId i r stage taken) := by
  have hactive : ∀ reply, r.stage ≠ .done reply := by simp [hstage]
  have hperm := hs.effects_settled (r := r) hbatch stage
  have hnodup := (hperm.map Effect.call).nodup_iff.mp hs.nodup
  rw [List.map_append, List.nodup_append] at hnodup
  have hmem : ∀ e : Effect V, e ∈ s.effects ↔
      e ∈ (s.settled keyToVectorId i r stage taken).effects ∨ e ∈ dropped.map Effect.wrote := by
    intro e
    rw [hperm.mem_iff, List.mem_append]
  refine hs.moveTo hr hactive rfl rfl
    { fits := hfits, own := fun e he hcall => ?_, others := fun e hcall => ?_
      counts := fun hnow => ?_, nodup := hnodup.1, flying := fun flight hflight => ?_
      distinct := ?_, ordered := ?_, buffer := fun w hw => .inl hw
      waiting := fun hwaits => hs.waiting i r hr (hwaiting hwaits), path := ?_ }
  · refine (hown e ((hmem e).mpr (.inl he)) hcall).resolve_left fun hdropped => ?_
    exact hnodup.2.2 e.call (List.mem_map_of_mem he) e.call (List.mem_map_of_mem hdropped) rfl
  · rw [hmem]
    refine (or_iff_left fun hdropped => ?_).symm
    obtain ⟨w, hw, rfl⟩ := List.mem_map.mp hdropped
    exact hcall (hlost w hw)
  · obtain ⟨hbefore, rfl⟩ := hcounts hnow
    obtain ⟨e, he, hcall⟩ := hs.complete i r hr hbefore
    exact ⟨e, ((hmem e).mp he).resolve_right List.not_mem_nil, hcall⟩
  · rw [settled, List.mem_filter, decide_eq_true_iff] at hflight
    exact .inr ⟨hflight.2, hflight.1⟩
  · exact hs.distinct.sublist (List.filter_sublist.map _)
  · obtain ⟨front, back, hflights, hothers⟩ := hs.exists_batch i
    have hordered := hs.ordered
    simp only [effects, pending, settled, hflights, hothers, hbatch, List.map_append,
      List.flatMap_append, List.append_assoc] at hordered ⊢
    refine (Linear.pairwise_swap hordered ?_).sublist ?_
    · intro a ha b hb hkey hprecedes
      obtain ⟨w, hw, rfl⟩ := List.mem_map.mp ha
      obtain ⟨earlier, hearlier, rfl⟩ := List.mem_map.mp hb
      obtain ⟨flight, hflight, hearlier⟩ := List.mem_flatMap.mp hearlier
      have hflight : flight ∈ s.flights.filter fun flight => flight.call ≠ i :=
        hothers ▸ List.mem_append_left _ hflight
      rw [List.mem_filter, decide_eq_true_iff] at hflight
      exact hovertakes ⟨flight, hflight.1, hflight.2, earlier, hearlier, w, hw, hkey.symm, hprecedes⟩
    · -- what was dropped is left out
      refine (List.Sublist.refl _).append ((List.Sublist.refl _).append ?_)
      exact (List.Sublist.refl _).append (List.sublist_append_right _ _)
  · exact Linear.path_append.mpr ⟨s.contents, hs.path, Effect.path_wrote taken s.contents⟩

theorem Sound.upsert (hs : Sound keyToVectorId s) (hr : s.running[i]? = some r) {next : Next V}
    (hstage : r.stage = .upsert next) (hovertakes : ¬s.Overtakes keyToVectorId i (s.batchOf i)) :
    Sound keyToVectorId (s.settled keyToVectorId i r next.stage (s.batchOf i)) := by
  obtain rfl := hs.next_of_drain hr (.inr hstage)
  have hactive : ∀ reply, r.stage ≠ .done reply := by simp [hstage]
  obtain ⟨hpush, herror⟩ := next_stage_ne r.call.op
  refine hs.settle hr hstage (List.append_nil _).symm hovertakes fits_next
    (fun e he hcall => .inr (of_moveTo (hs.own hr he hcall) hactive hpush herror))
    (fun w hw => absurd hw List.not_mem_nil) (fun hcounts => ⟨?_, rfl⟩) (fun hwaits => ?_)
  · rw [BatchedCall.Counts, hstage]
    exact counts_next hcounts
  · rw [BatchedCall.Waits, hstage]
    cases hop : r.call.op with
    | read key => trivial
    | write key value =>
      rw [hop] at hwaits
      exact hwaits.elim
    | flush =>
      rw [hop] at hwaits
      exact hwaits.elim

theorem Sound.fail_upsert (hs : Sound keyToVectorId s) (hr : s.running[i]? = some r)
    {next : Next V} (hstage : r.stage = .upsert next) {written : Nat}
    (hovertakes : ¬s.Overtakes keyToVectorId i ((s.batchOf i).take written))
    (hlost : ∀ w ∈ (s.batchOf i).drop written, w.call = i)
    (hown : ∀ key value, r.call.op = .write key value → ∃ w ∈ (s.batchOf i).drop written, w.call = i) :
    Sound keyToVectorId
      (s.settled keyToVectorId i r (.done .error) ((s.batchOf i).take written)) := by
  have hactive : ∀ reply, r.stage ≠ .done reply := by simp [hstage]
  refine hs.settle hr hstage (List.take_append_drop written _).symm hovertakes (.inl rfl)
    (fun e he hcall => .inl ?_) hlost False.elim False.elim
  have hbatch : ∀ w ∈ (s.batchOf i).drop written, Effect.wrote w ∈ s.effects := by
    intro w hw
    rw [(hs.effects_settled (r := r) (List.take_append_drop written _).symm (.done .error)).mem_iff]
    exact List.mem_append_right _ (List.mem_map_of_mem hw)
  have hop : ∃ key value, r.call.op = .write key value := by
    by_contra hnone
    push Not at hnone
    exact hs.under_way_new hr hactive hnone e he hcall
  obtain ⟨key, value, hop⟩ := hop
  obtain ⟨w, hw, hcallw⟩ := hown key value hop
  -- the call has one effect
  have heq : e = .wrote w :=
    List.inj_on_of_nodup_map hs.nodup he (hbatch w hw) (hcall.trans hcallw.symm)
  rw [heq]
  exact List.mem_map_of_mem hw

/-! ### Calls that begin and return -/

theorem Sound.around (hs : Sound keyToVectorId s) {running : List (BatchedCall V)}
    (hkept : ∀ (j : Nat) (old : BatchedCall V), s.running[j]? = some old →
      ∃ found, running[j]? = some found ∧ found.stage = old.stage ∧ found.call.op = old.call.op)
    (hfrom : ∀ (j : Nat) (found : BatchedCall V), running[j]? = some found →
      (∃ old, s.running[j]? = some old ∧ found.stage = old.stage ∧ found.call.op = old.call.op) ∨
        found.stage = found.call.op.stage)
    (htimes : ∀ (j : Nat) (found : BatchedCall V), running[j]? = some found →
      found.call.invoked < s.clock + 1 ∧
        ∀ outcome ∈ found.call.outcome, found.stage = .done outcome.1 ∧
          found.call.invoked ≤ outcome.2)
    (hprecedes : ∀ (j k : Nat) (old : BatchedCall V), s.running[k]? = some old →
      Linear.Precedes (running.map BatchedCall.call) j k → Linear.Precedes s.calls j k) :
    Sound keyToVectorId { s with running, clock := s.clock + 1 } := by
  refine { fits := fun j found hfound => ?_, times := htimes, linked := fun e he => ?_
           complete := fun j found hfound hcounts => ?_, nodup := hs.nodup
           flying := fun flight hflight => ?_, distinct := hs.distinct
           ordered := hs.ordered.imp_of_mem fun ha _ hnot hkey hlater => ?_
           waiting := fun j found hfound hwaits w hw hearlier => ?_, path := hs.path }
  · rcases hfrom j found hfound with ⟨old, hold, hstage, hop⟩ | hstage
    · have hfits := hs.fits j old hold
      rwa [BatchedCall.Fits, ← hstage, ← hop] at hfits
    · rw [BatchedCall.Fits, hstage]
      cases hop : found.call.op <;> rfl
  · obtain ⟨old, hold, hof⟩ := hs.linked e he
    obtain ⟨found, hfound, hstage, hop⟩ := hkept e.call old hold
    refine ⟨found, hfound, ?_⟩
    cases e with
    | wrote w =>
      rw [Effect.Of, hstage, hop]
      exact hof
    | got call key value =>
      rw [Effect.Of, hstage, hop]
      exact hof
  · rcases hfrom j found hfound with ⟨old, hold, hstage, -⟩ | hstage
    · rw [BatchedCall.Counts, hstage] at hcounts
      exact hs.complete j old hold hcounts
    · rw [BatchedCall.Counts, hstage] at hcounts
      cases hop : found.call.op with
      | read key => exact absurd hcounts (by simp [hop, BatchedOp.stage])
      | write key value => exact absurd hcounts (by simp [hop, BatchedOp.stage])
      | flush => exact absurd hcounts (by simp [hop, BatchedOp.stage])
  · obtain ⟨old, next, hold, hnext⟩ := hs.flying flight hflight
    obtain ⟨found, hfound, hstage, -⟩ := hkept flight.call old hold
    exact ⟨found, next, hfound, hstage.trans hnext⟩
  · obtain ⟨old, hold, -⟩ := hs.linked _ ha
    exact hnot hkey (hprecedes _ _ old hold hlater)
  · rcases hfrom j found hfound with ⟨old, hold, hstage, -⟩ | hstage
    · rw [BatchedCall.Waits, hstage] at hwaits
      exact hs.waiting j old hold hwaits w hw (hprecedes _ _ old hold hearlier)
    · rw [BatchedCall.Waits, hstage] at hwaits
      cases hop : found.call.op with
      | read key => exact absurd hwaits (by simp [hop, BatchedOp.stage])
      | write key value => exact absurd hwaits (by simp [hop, BatchedOp.stage])
      | flush => exact absurd hwaits (by simp [hop, BatchedOp.stage])

theorem Sound.invoke (hs : Sound keyToVectorId s) (op : BatchedOp V) :
    Sound keyToVectorId { s with
      running := s.running ++
        [{ call := { op, invoked := s.clock, outcome := none }, stage := op.stage }]
      clock := s.clock + 1 } := by
  have hold : ∀ (j : Nat) (old : BatchedCall V), s.running[j]? = some old →
      (s.running ++ [{ call := { op, invoked := s.clock, outcome := none }
                       stage := op.stage }])[j]? = some old := by
    intro j old hget
    rw [List.getElem?_append_left (List.getElem?_eq_some_iff.mp hget).1, hget]
  refine hs.around (fun j old hget => ⟨old, hold j old hget, rfl, rfl⟩) (fun j found hfound => ?_)
    (fun j found hfound => ?_) fun j k old hget hprecedes => ?_
  · rcases Linear.getElem?_concat_cases hfound with hfound | ⟨-, rfl⟩
    · exact .inl ⟨found, hfound, rfl, rfl⟩
    · exact .inr rfl
  · rcases Linear.getElem?_concat_cases hfound with hfound | ⟨-, rfl⟩
    · exact ⟨Nat.lt_succ_of_lt (hs.times j found hfound).1, (hs.times j found hfound).2⟩
    · exact ⟨Nat.lt_succ_self _, fun outcome houtcome => absurd houtcome (by simp)⟩
  · obtain ⟨a, b, ha, hb, outcome, houtcome, hlt⟩ := hprecedes
    rw [List.getElem?_map, hold k old hget] at hb
    rw [List.getElem?_map] at ha
    obtain ⟨found, hfound, rfl⟩ := Option.map_eq_some_iff.mp ha
    rcases Linear.getElem?_concat_cases hfound with hfound | ⟨-, rfl⟩
    · exact ⟨found.call, b, getElem?_calls.mpr ⟨found, hfound, rfl⟩,
        getElem?_calls.mpr ⟨old, hget, Option.some.inj hb⟩, outcome, houtcome, hlt⟩
    · exact absurd houtcome (by simp)

theorem Sound.finish (hs : Sound keyToVectorId s) (hr : s.running[i]? = some r) {reply : Reply V}
    (hstage : r.stage = .done reply) :
    Sound keyToVectorId { s with
      running := s.running.set i (r.giving reply s.clock)
      clock := s.clock + 1 } := by
  have hi : i < s.running.length := (List.getElem?_eq_some_iff.mp hr).1
  have hold : ∀ (j : Nat) (old : BatchedCall V), s.running[j]? = some old →
      ∃ found, (s.running.set i (r.giving reply s.clock))[j]? = some found ∧
        found.stage = old.stage ∧ found.call.op = old.call.op ∧
          found.call.invoked = old.call.invoked := by
    intro j old hget
    by_cases hj : j = i
    · obtain rfl := hj
      obtain rfl := Option.some.inj (hr.symm.trans hget)
      exact ⟨_, List.getElem?_set_self hi, rfl, rfl, rfl⟩
    · exact ⟨old, (List.getElem?_set_ne (Ne.symm hj)).trans hget, rfl, rfl, rfl⟩
  refine hs.around (fun j old hget => ?_) (fun j found hfound => ?_) (fun j found hfound => ?_)
    fun j k old hget hprecedes => ?_
  · obtain ⟨found, hfound, hstage, hop, -⟩ := hold j old hget
    exact ⟨found, hfound, hstage, hop⟩
  · rcases Linear.getElem?_set_cases hfound with ⟨rfl, rfl⟩ | ⟨-, hfound⟩
    · exact .inl ⟨r, hr, rfl, rfl⟩
    · exact .inl ⟨found, hfound, rfl, rfl⟩
  · rcases Linear.getElem?_set_cases hfound with ⟨rfl, rfl⟩ | ⟨-, hfound⟩
    · refine ⟨Nat.lt_succ_of_lt (hs.times j r hr).1, fun outcome houtcome => ?_⟩
      rw [← Option.some.inj houtcome]
      exact ⟨hstage, Nat.le_of_lt (hs.times j r hr).1⟩
    · exact ⟨Nat.lt_succ_of_lt (hs.times j found hfound).1, (hs.times j found hfound).2⟩
  · obtain ⟨a, b, ha, hb, outcome, houtcome, hlt⟩ := hprecedes
    obtain ⟨later, hlater, -, -, hinvoked⟩ := hold k old hget
    rw [List.getElem?_map, hlater] at hb
    obtain rfl := Option.some.inj hb
    rw [hinvoked] at hlt
    rw [List.getElem?_map] at ha
    obtain ⟨found, hfound, rfl⟩ := Option.map_eq_some_iff.mp ha
    rcases Linear.getElem?_set_cases hfound with ⟨rfl, rfl⟩ | ⟨-, hfound⟩
    · -- every call so far was invoked before now
      obtain rfl := Option.some.inj houtcome
      exact absurd hlt (Nat.not_lt.mpr (Nat.le_of_lt (hs.times k old hget).1))
    · exact ⟨found.call, old.call, getElem?_calls.mpr ⟨found, hfound, rfl⟩,
        getElem?_calls.mpr ⟨old, hget, rfl⟩, outcome, houtcome, hlt⟩

theorem Sound.advance (hs : Sound keyToVectorId s) (hr : s.running[i]? = some r)
    (hmeets : s.Meets keyToVectorId (.advance i)) (hstep : s.advance keyToVectorId i r = some s') :
    Sound keyToVectorId s' := by
  obtain ⟨hovertakes, hfresh⟩ := hmeets r hr
  rw [SyncBatchedClient.advance] at hstep
  split at hstep
  case h_1 key value hstage =>
    dsimp only at hstep
    split at hstep
    · exact Option.some.inj hstep ▸ hs.push hr hstage (.inl rfl)
    · exact Option.some.inj hstep ▸ hs.push hr hstage (.inr rfl)
  case h_2 next hstage =>
    split at hstep
    case isTrue hbuffer => exact Option.some.inj hstep ▸ hs.drain_empty hr hstage hbuffer
    case isFalse => exact Option.some.inj hstep ▸ hs.drain_batch hr hstage
  case h_3 next hstage => exact Option.some.inj hstep ▸ hs.upsert hr hstage (hovertakes next hstage)
  case h_4 key hstage => exact Option.some.inj hstep ▸ hs.get hr hstage (hfresh key hstage)
  case h_5 => exact absurd hstep (by simp)

theorem Sound.fail (hs : Sound keyToVectorId s) (hr : s.running[i]? = some r) {written : Nat}
    (hmeets : s.Meets keyToVectorId (.fail i written))
    (hstep : s.fail keyToVectorId i r written = some s') : Sound keyToVectorId s' := by
  rw [SyncBatchedClient.fail] at hstep
  split at hstep
  case h_1 next hstage =>
    obtain ⟨hovertakes, hlost, hown⟩ := hmeets r hr next hstage
    exact Option.some.inj hstep ▸ hs.fail_upsert hr hstage hovertakes hlost hown
  case h_2 key hstage => exact Option.some.inj hstep ▸ hs.fail_get hr hstage
  case h_3 => exact absurd hstep (by simp)

/-- One step keeps the invariant. -/
theorem Sound.perform (hs : Sound keyToVectorId s) {step : BatchedStep V}
    (hmeets : s.Meets keyToVectorId step) (hstep : s.perform keyToVectorId step = some s') :
    Sound keyToVectorId s' := by
  cases step with
  | invoke op => exact Option.some.inj hstep ▸ hs.invoke op
  | advance i =>
    obtain ⟨r, hr, hstep⟩ := Option.bind_eq_some_iff.mp hstep
    exact hs.advance hr hmeets hstep
  | fail i written =>
    obtain ⟨r, hr, hstep⟩ := Option.bind_eq_some_iff.mp hstep
    exact hs.fail hr hmeets hstep
  | finish i =>
    obtain ⟨r, hr, hstep⟩ := Option.bind_eq_some_iff.mp hstep
    rw [SyncBatchedClient.finish] at hstep
    split at hstep
    case h_1 reply hstage _ => exact Option.some.inj hstep ▸ hs.finish hr hstage
    case h_2 => exact absurd hstep (by simp)

/-! ### What explains a run -/

theorem mem_history {call : Call (BatchedOp V) (Reply V)} (hcall : s.history[i]? = some call) :
    ∃ r, s.running[i]? = some r ∧ call.op = r.call.op ∧ call.invoked = r.call.invoked ∧
      ∀ outcome ∈ call.outcome, outcome ∈ r.call.outcome ∧ outcome.1.acknowledges := by
  rw [history, List.getElem?_map] at hcall
  obtain ⟨found, hfound, rfl⟩ := Option.map_eq_some_iff.mp hcall
  obtain ⟨r, hr, rfl⟩ := getElem?_calls.mp hfound
  refine ⟨r, hr, rfl, rfl, fun outcome houtcome => ?_⟩
  exact Option.filter_eq_some_iff.mp houtcome

/-- An effect is what its call does alone, and the call gives what it does alone. -/
theorem Sound.serves (hs : Sound keyToVectorId s) {e : Effect V} (he : e ∈ s.effects)
    {contents contents' : UInt64 → Option V} (htakes : e.Takes keyToVectorId contents contents') :
    Linear.Serves (serve keyToVectorId) s.history contents e.call contents' := by
  obtain ⟨r, hr, hof⟩ := hs.linked e he
  obtain ⟨call, hcall⟩ : ∃ call, s.history[e.call]? = some call := by
    rw [history, List.getElem?_map, getElem?_calls.mpr ⟨r, hr, rfl⟩]
    exact ⟨_, rfl⟩
  obtain ⟨r', hr', hop, -, houtcomes⟩ := mem_history hcall
  obtain rfl := Option.some.inj (hr.symm.trans hr')
  refine ⟨call, hcall, fun outcome houtcome => ?_, ?_⟩
  · obtain ⟨houtcome, hack⟩ := houtcomes outcome houtcome
    have hstage := ((hs.times e.call r hr).2 outcome houtcome).1
    cases e with
    | wrote w =>
      have hfits := hs.fits w.call r hr
      rw [BatchedCall.Fits, hstage] at hfits
      rw [hop, hof.1]
      rcases hfits with herror | hgives
      · rw [herror] at hack
        exact absurd hack (by simp [Reply.acknowledges])
      · rw [hof.1] at hgives
        exact hgives
    | got i key value =>
      rw [hop, hof.1]
      have hreply := Stage.done.inj (hstage.symm.trans hof.2)
      rw [hreply, serve, ← htakes.1 value rfl]
      rfl
  · cases e with
    | wrote w =>
      rw [hop, hof.1]
      exact htakes.2
    | got i key value =>
      rw [hop, hof.1]
      exact htakes.2

theorem precedes_of_history {j : Nat} (hprecedes : Linear.Precedes s.history i j) :
    Linear.Precedes s.calls i j := by
  obtain ⟨a, b, ha, hb, outcome, houtcome, hlt⟩ := hprecedes
  obtain ⟨r, hr, -, -, houtcomes⟩ := mem_history ha
  obtain ⟨r', hr', -, hinvoked, -⟩ := mem_history hb
  rw [hinvoked] at hlt
  exact ⟨r.call, r'.call, getElem?_calls.mpr ⟨r, hr, rfl⟩, getElem?_calls.mpr ⟨r', hr', rfl⟩,
    outcome, (houtcomes outcome houtcome).1, hlt⟩

/-- A write or read that was acknowledged has its effect. -/
theorem Sound.exists_effect (hs : Sound keyToVectorId s) {call : Call (BatchedOp V) (Reply V)}
    (hcall : s.history[i]? = some call) (houtcome : call.outcome.isSome) :
    ∃ e ∈ s.effects, e.call = i := by
  obtain ⟨outcome, houtcome⟩ := Option.isSome_iff_exists.mp houtcome
  obtain ⟨r, hr, -, -, houtcomes⟩ := mem_history hcall
  obtain ⟨houtcome, hack⟩ := houtcomes outcome houtcome
  refine hs.complete i r hr ?_
  rw [BatchedCall.Counts, ((hs.times i r hr).2 outcome houtcome).1]
  cases hreply : outcome.1 with
  | ok result => trivial
  | flushed => exact absurd hack (by simp [hreply, Reply.acknowledges])
  | error => exact absurd hack (by simp [hreply, Reply.acknowledges])

/-- A call with an effect returns no error. -/
theorem Sound.outcome_ne_error (hs : Sound keyToVectorId s) {e : Effect V} (he : e ∈ s.effects)
    {call : Call (BatchedOp V) (Reply V)} (hcall : s.calls[e.call]? = some call)
    {outcome : Reply V × Nat} (houtcome : outcome ∈ call.outcome) : outcome.1 ≠ .error := by
  obtain ⟨r, hr, hof⟩ := hs.linked e he
  obtain ⟨r', hr', rfl⟩ := getElem?_calls.mp hcall
  obtain rfl := Option.some.inj (hr.symm.trans hr')
  have hstage := ((hs.times e.call r hr).2 outcome houtcome).1
  intro herror
  rw [herror] at hstage
  cases e with
  | wrote w => exact hof.2.2 hstage
  | got i key value => exact absurd (hof.2.symm.trans hstage) (by simp)

theorem Sound.explains (hs : Sound keyToVectorId s) :
    ∃ order, Linear.Explains (serve keyToVectorId) s.history (fun _ => none) order
        (s.flushed keyToVectorId) ∧
      ∀ i ∈ order, ∀ call, s.calls[i]? = some call → ∀ outcome ∈ call.outcome,
        outcome.1 ≠ .error := by
  classical
  have hspan : ∀ c ∈ s.calls, ∀ outcome ∈ c.outcome, c.invoked ≤ outcome.2 := by
    intro c hc outcome houtcome
    obtain ⟨r, hr, rfl⟩ := List.mem_map.mp hc
    obtain ⟨j, hj⟩ := List.mem_iff_getElem?.mp hr
    exact ((hs.times j r hj).2 outcome houtcome).2
  have hnodup := hs.nodup.of_map
  obtain ⟨l, hperm, hpairwise, hkept⟩ := Linear.exists_order_of_calls hspan hnodup hs.ordered
  have hpath : Path (Effect.Takes keyToVectorId) (fun _ => none) s.effects
      (s.flushed keyToVectorId) :=
    Linear.path_append.mpr ⟨s.contents, hs.path, Effect.path_wrote s.pending s.contents⟩
  have hreordered := Path.reorder (fun a b => keyToVectorId a.key = keyToVectorId b.key)
    Effect.takes_comm hperm.symm hnodup hkept hpath
  refine ⟨l.map Effect.call, { nodup := ?_, returned := ?_, realTime := ?_, serves := ?_ }, ?_⟩
  · exact (hperm.map Effect.call).nodup_iff.mpr hs.nodup
  · intro i call hcall houtcome
    obtain ⟨e, he, rfl⟩ := hs.exists_effect hcall houtcome
    exact List.mem_map_of_mem (hperm.mem_iff.mpr he)
  · rw [List.pairwise_map]
    exact hpairwise.imp fun hnot hprecedes => hnot (precedes_of_history hprecedes)
  · exact hreordered.map fun e he contents contents' htakes => hs.serves (hperm.mem_iff.mp he) htakes
  · intro i hi call hcall outcome houtcome
    obtain ⟨e, he, rfl⟩ := List.mem_map.mp hi
    exact hs.outcome_ne_error (hperm.mem_iff.mp he) hcall houtcome

/-- In every run whose upserts and gets meet the condition the writes and reads that were acknowledged
are those of a register map, one after the other, and none of the writes is lost. -/
theorem linearizable (keyToVectorId : String → UInt64) (batchSize : Nat)
    {steps : List (BatchedStep V)} {s : SyncBatchedClient V}
    (halong : Runs.Along (perform keyToVectorId) (Meets keyToVectorId) (new batchSize) steps)
    (hrun : steps.foldlM (perform keyToVectorId) (new batchSize) = some s) :
    ∃ order, Linear.Explains (serve keyToVectorId) s.history (fun _ => none) order
        (s.flushed keyToVectorId) ∧
      ∀ i ∈ order, ∀ call, s.calls[i]? = some call → ∀ outcome ∈ call.outcome,
        outcome.1 ≠ .error := by
  have hs : Sound keyToVectorId s :=
    halong.foldlM (fun _ _ _ hs hmeets hstep => hs.perform hmeets hstep) (sound_new batchSize) hrun
  exact hs.explains

/-- A call that has the only batch in flight overtakes nothing and reads nothing stale. -/
theorem meets_advance {s : SyncBatchedClient V} {i : Nat}
    (hflights : ∀ flight ∈ s.flights, flight.call = i)
    (hget : ∀ r, s.running[i]? = some r → ∀ key, r.stage = .get key → s.flights = []) :
    s.Meets keyToVectorId (.advance i) := by
  intro r hr
  refine ⟨?_, ?_⟩
  · rintro next - ⟨flight, hflight, hne, -⟩
    exact hne (hflights flight hflight)
  · rintro key hstage ⟨flight, hflight, -⟩
    rw [hget r hr key hstage] at hflight
    exact absurd hflight List.not_mem_nil

end Runs

def sampleId (key : String) : UInt64 := if key = "x" then 0 else 1

/-- A write that is acknowledged from the buffer, and a read that flushes it. -/
def sampleRead : List (BatchedStep Nat) :=
  [.invoke (.write "x" 1), .advance 0, .finish 0, .invoke (.read "x"), .advance 1, .advance 1,
    .advance 1, .finish 1]

def sampleFound : SyncBatchedClient Nat :=
  { batchSize := 2
    contents := Function.update (fun _ => none) 0 (some 1)
    buffer := []
    flights := []
    running :=
      [{ call := { op := .write "x" 1, invoked := 0, outcome := some (.ok .writeOk, 2) }
         stage := .done (.ok .writeOk) },
        { call := { op := .read "x", invoked := 3, outcome := some (.ok (.readOk (some 1)), 7) }
          stage := .done (.ok (.readOk (some 1))) }]
    clock := 8
    applied := [.wrote { call := 0, key := "x", value := 1 }, .got 1 "x" (some 1)] }

theorem linearizable_read : ∃ order,
    Linear.Explains (serve sampleId) sampleFound.history (fun _ => none) order
        (sampleFound.flushed sampleId) ∧
      ∀ i ∈ order, ∀ call, sampleFound.calls[i]? = some call → ∀ outcome ∈ call.outcome,
        outcome.1 ≠ .error := by
  have hrun : sampleRead.foldlM (perform sampleId) (new 2) = some sampleFound := rfl
  refine linearizable sampleId 2 ?_ hrun
  refine (Runs.along_cons rfl).mpr ⟨trivial, (Runs.along_cons rfl).mpr ⟨?_, ?_⟩⟩
  · exact meets_advance (by decide) fun r hr key hstage => rfl
  refine (Runs.along_cons rfl).mpr ⟨trivial, (Runs.along_cons rfl).mpr ⟨trivial, ?_⟩⟩
  refine (Runs.along_cons rfl).mpr ⟨meets_advance (by decide) fun r hr key hstage => rfl, ?_⟩
  refine (Runs.along_cons rfl).mpr ⟨meets_advance (by decide) fun r hr key hstage => ?_, ?_⟩
  · obtain rfl := Option.some.inj hr
    have hupsert : Stage.upsert (Next.get "x") = Stage.get (V := Nat) key := hstage
    exact absurd hupsert (by simp)
  refine (Runs.along_cons rfl).mpr ⟨meets_advance (by decide) fun r hr key hstage => rfl, ?_⟩
  exact (Runs.along_cons rfl).mpr ⟨trivial, trivial⟩

/-- A write that is acknowledged from the buffer, and one that fills the buffer and whose upsert
fails. -/
def sampleFailing : List (BatchedStep Nat) :=
  [.invoke (.write "x" 1), .advance 0, .finish 0, .invoke (.write "y" 2), .advance 1, .advance 1,
    .fail 1 0, .finish 1]

def sampleLost : SyncBatchedClient Nat :=
  { batchSize := 2
    contents := fun _ => none
    buffer := []
    flights := []
    running :=
      [{ call := { op := .write "x" 1, invoked := 0, outcome := some (.ok .writeOk, 2) }
         stage := .done (.ok .writeOk) },
        { call := { op := .write "y" 2, invoked := 3, outcome := some (.error, 7) }
          stage := .done .error }]
    clock := 8
    applied := [] }

theorem run_sampleFailing : sampleFailing.foldlM (perform sampleId) (new 2) = some sampleLost := rfl

/-- The first write alone leaves its value. -/
theorem sampleLost_not_explained (order : List Nat)
    (hreturned : ∀ i ∈ order, ∀ call, sampleLost.calls[i]? = some call →
      ∀ outcome ∈ call.outcome, outcome.1 ≠ .error) :
    ¬Linear.Explains (serve sampleId) sampleLost.history (fun _ => none) order
      (sampleLost.flushed sampleId) := by
  intro hexplains
  have hfirst : ∀ i ∈ order, ∀ call, sampleLost.history[i]? = some call → i = 0 := by
    intro i hi call hcall
    match i with
    | 0 => rfl
    | 1 => exact absurd rfl (hreturned 1 hi _ rfl _ rfl)
    | i + 2 => exact absurd hcall (by simp [sampleLost, history, calls])
  have hmem : 0 ∈ order := hexplains.returned 0 _ rfl rfl
  have hserves := hexplains.serves
  have hnodup := hexplains.nodup
  match order with
  | [] => exact absurd hmem List.not_mem_nil
  | [i] =>
    obtain ⟨_, ⟨call, hcall, -, rfl⟩, hend⟩ := hserves
    obtain rfl := hfirst i List.mem_cons_self call hcall
    obtain rfl := Option.some.inj hcall
    exact absurd (congrFun hend 0) (by decide)
  | i :: j :: rest =>
    obtain ⟨_, ⟨call, hcall, -, rfl⟩, _, ⟨other, hother, -⟩, -⟩ := hserves
    obtain rfl := hfirst i (by simp) call hcall
    obtain rfl := hfirst j (by simp) other hother
    exact absurd hnodup (by simp)

/-- The failing upsert has emptied the buffer of a write that returned. -/
theorem not_linearizable_failing :
    ¬∀ (steps : List (BatchedStep Nat)) (s : SyncBatchedClient Nat),
      steps.foldlM (perform sampleId) (new 2) = some s →
        ∃ order, Linear.Explains (serve sampleId) s.history (fun _ => none) order
            (s.flushed sampleId) ∧
          ∀ i ∈ order, ∀ call, s.calls[i]? = some call → ∀ outcome ∈ call.outcome,
            outcome.1 ≠ .error := by
  intro hall
  obtain ⟨order, hexplains, hreturned⟩ := hall sampleFailing sampleLost run_sampleFailing
  exact sampleLost_not_explained order hreturned hexplains

end SyncBatchedClient

end Jepsen
end RTDB
