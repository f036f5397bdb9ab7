import Mathlib.Data.List.Basic
import RTDB.Streaming.CdcEngine

/-!
# The order of change events

A subscriber receives what is sent after it subscribed, in that order.  Single events are numbered by
the counter of their collection, the events of a batch by their places in it.
-/

namespace RTDB
namespace Streaming

open CdcEngine

variable {V : Type} {e : CdcEngine V} {name : String}

/-! ## Delivery -/

/-- How many of its changes a batch has published. -/
def Phase.done : Phase → Nat
  | .publishing _ idx => idx
  | _ => 0

namespace CdcEngine

/-- The events of a collection published behind the first `n` events. -/
def eventsSince (e : CdcEngine V) (name : String) (n : Nat) : List (ChangeEvent V) :=
  ((e.published.drop n).map Record.event).filter fun event => event.collection = name

/-- A receiver that has not lagged has received, or has in its buffer, every event published since
it subscribed, once and in order. -/
def Delivered (e : CdcEngine V) (name : String) (r : Receiver V) : Prop :=
  r.since ≤ e.published.length ∧
    (r.lagged = false → r.received ++ r.pending = e.eventsSince name r.since)

def AllDelivered (e : CdcEngine V) : Prop :=
  ∀ name receivers, e.channels name = some receivers → ∀ r ∈ receivers, e.Delivered name r

theorem Delivered.tryRecv {r : Receiver V} (hr : e.Delivered name r) : e.Delivered name r.tryRecv := by
  obtain ⟨hsince, hevents⟩ := hr
  rw [Receiver.tryRecv]
  cases hpending : r.pending with
  | nil => exact ⟨hsince, hevents⟩
  | cons event pending =>
    refine ⟨hsince, fun hlagged => ?_⟩
    have hold := hevents hlagged
    rw [hpending] at hold
    show (r.received ++ [event]) ++ pending = _
    rw [List.append_assoc]
    exact hold

theorem eventsSince_publish (record : Record V) {n : Nat} (hn : n ≤ e.published.length) :
    (e.publish record).eventsSince name n =
      e.eventsSince name n ++ if record.event.collection = name then [record.event] else [] := by
  show (((e.published ++ [record]).drop n).map Record.event).filter _ = _
  rw [List.drop_append_of_le_length hn, List.map_append, List.filter_append]
  congr 1
  by_cases hname : record.event.collection = name
  · simp [hname]
  · simp [hname]

theorem Delivered.push {r : Receiver V} (hr : e.Delivered name r) (capacity : Nat) (record : Record V)
    (hname : record.event.collection = name) :
    (e.publish record).Delivered name (r.push capacity record.event) := by
  obtain ⟨hsince, hevents⟩ := hr
  have hle : r.since ≤ (e.published ++ [record]).length := by
    rw [List.length_append]
    exact Nat.le_add_right_of_le hsince
  rw [Receiver.push]
  split
  · refine ⟨hle, fun hlagged => ?_⟩
    show r.received ++ (r.pending ++ [record.event]) = (e.publish record).eventsSince name r.since
    rw [eventsSince_publish record hsince, if_pos hname, ← hevents hlagged, List.append_assoc]
  · exact ⟨hle, fun hlagged => absurd hlagged (by simp)⟩

/-- Nothing is sent to the receivers of another collection. -/
theorem Delivered.other {r : Receiver V} (hr : e.Delivered name r) (record : Record V)
    (hname : record.event.collection ≠ name) : (e.publish record).Delivered name r := by
  obtain ⟨hsince, hevents⟩ := hr
  refine ⟨?_, fun hlagged => ?_⟩
  · show r.since ≤ (e.published ++ [record]).length
    rw [List.length_append]
    exact Nat.le_add_right_of_le hsince
  · rw [eventsSince_publish record hsince, if_neg hname, List.append_nil]
    exact hevents hlagged

theorem AllDelivered.publish (he : e.AllDelivered) (record : Record V) :
    (e.publish record).AllDelivered := by
  intro name receivers hreceivers r hr
  by_cases hname : record.event.collection = name
  · have hchannel : (e.channels name).map (fun receivers =>
        receivers.map (Receiver.push e.bufferSize record.event)) = some receivers := by
      rw [← hreceivers, ← hname]
      exact (Function.update_self _ _ e.channels).symm
    obtain ⟨old, hold, rfl⟩ := Option.map_eq_some_iff.mp hchannel
    obtain ⟨r, hmem, rfl⟩ := List.mem_map.mp hr
    exact (he name old hold r hmem).push e.bufferSize record hname
  · have hchannel : e.channels name = some receivers := by
      rw [← hreceivers]
      exact (Function.update_of_ne (Ne.symm hname) _ e.channels).symm
    exact (he name receivers hchannel r hr).other record hname

theorem AllDelivered.subscribe (he : e.AllDelivered) (collection : String) :
    (e.subscribe collection).AllDelivered := by
  intro name receivers hreceivers r hr
  by_cases hname : name = collection
  · subst hname
    have hchannel : (e.channels name).getD [] ++ [{ since := e.published.length }] = receivers :=
      Option.some.inj ((Function.update_self _ _ e.channels).symm.trans hreceivers)
    rw [← hchannel] at hr
    rcases List.mem_append.mp hr with hold | hnew
    · cases hc : e.channels name with
      | none =>
        rw [hc] at hold
        exact absurd hold List.not_mem_nil
      | some old =>
        rw [hc] at hold
        exact he name old hc r hold
    · rw [List.mem_singleton.mp hnew]
      refine ⟨Nat.le_refl _, fun _ => ?_⟩
      show [] = ((e.published.drop e.published.length).map Record.event).filter _
      rw [List.drop_length]
      rfl
  · have hchannel : e.channels name = some receivers :=
      (Function.update_of_ne hname _ e.channels).symm.trans hreceivers
    exact he name receivers hchannel r hr

theorem AllDelivered.tryRecv (he : e.AllDelivered) (collection : String) (i : Nat) :
    (e.tryRecv collection i).AllDelivered := by
  intro name receivers hreceivers r hr
  by_cases hname : name = collection
  · subst hname
    have hchannel : (e.channels name).map (fun receivers => receivers.modify i Receiver.tryRecv) =
        some receivers := (Function.update_self _ _ e.channels).symm.trans hreceivers
    obtain ⟨old, hold, rfl⟩ := Option.map_eq_some_iff.mp hchannel
    obtain ⟨j, hj⟩ := List.mem_iff_getElem?.mp hr
    rw [List.getElem?_modify] at hj
    obtain ⟨r', hr', rfl⟩ := Option.map_eq_some_iff.mp hj
    have hdelivered := he name old hold r' (List.mem_of_getElem? hr')
    split
    · exact hdelivered.tryRecv
    · exact hdelivered
  · have hchannel : e.channels name = some receivers :=
      (Function.update_of_ne hname _ e.channels).symm.trans hreceivers
    exact he name receivers hchannel r hr

theorem AllDelivered.step (he : e.AllDelivered) (s : Step V) : (e.step s).AllDelivered := by
  cases s with
  | subscribe collection => exact he.subscribe collection
  | tryRecv collection i => exact he.tryRecv collection i
  | begin call => exact he
  | advance i stamp =>
    show (e.advance i stamp).AllDelivered
    cases advance_cases e i stamp with
    | same heq =>
      rw [heq]
      exact he
    | numbers task htask hphase hsingle heq =>
      rw [heq]
      exact he
    | publishes task htask sequence hphase event hsingle hcollection hsequence heq =>
      rw [heq]
      exact he.publish { event, task := i, began := task.began, isSingle := true }
    | opens task htask hphase txnId heq =>
      rw [heq]
      exact he
    | publishesNext task htask txnId idx hphase event changes hbatch hidx hcollection hsequence heq =>
      rw [heq]
      exact he.publish { event, task := i, began := task.began, isSingle := false }

/-- What holds of a new engine and is kept by every step holds after every run. -/
theorem run_invariant {P : CdcEngine V → Prop} {bufferSize : Nat} (hnew : P (new bufferSize))
    (hstep : ∀ e s, P e → P (e.step s)) (steps : List (Step V)) : P (run bufferSize steps) :=
  List.foldlRecOn steps CdcEngine.step hnew (fun e he s _ => hstep e s he)

theorem run_allDelivered (bufferSize : Nat) (steps : List (Step V)) :
    (run bufferSize steps).AllDelivered :=
  run_invariant (fun _ _ h => absurd h (by simp [new])) (fun _ s he => he.step s) steps

/-! ## Single events -/

/-- The single event at a place of what was published is `a`, of the collection. -/
structure SingleAt (e : CdcEngine V) (name : String) (i : Nat) (a : Record V) : Prop where
  published : e.published[i]? = some a
  single : a.isSingle = true
  collection : a.event.collection = name

/-- A call on the collection has its number, and has not published it yet. -/
structure Holds (e : CdcEngine V) (name : String) (k sequence : Nat) (task : Task V) : Prop where
  entry : e.tasks[k]? = some task
  collection : task.call.collection = name
  phase : task.phase = .numbered sequence

/-- Numbers are handed out once.  A single event that was published when a call began has a smaller
number than the event of that call. -/
structure Numbered (e : CdcEngine V) (name : String) : Prop where
  began : ∀ (k : Nat) (task : Task V), e.tasks[k]? = some task → task.began ≤ e.published.length
  recorded : ∀ i a, e.SingleAt name i a → a.began ≤ i
  below : ∀ i a, e.SingleAt name i a → a.event.sequenceNumber ≤ e.counter name
  distinct : ∀ i j a b, e.SingleAt name i a → e.SingleAt name j b → i ≠ j →
    a.event.sequenceNumber ≠ b.event.sequenceNumber
  ordered : ∀ i j a b, e.SingleAt name i a → e.SingleAt name j b → i < b.began →
    a.event.sequenceNumber < b.event.sequenceNumber
  drawn : ∀ k s task, e.Holds name k s task → s ≤ e.counter name
  unused : ∀ k s task i a, e.Holds name k s task → e.SingleAt name i a →
    a.event.sequenceNumber ≠ s ∧ (i < task.began → a.event.sequenceNumber < s)
  apart : ∀ k l s s' task task', e.Holds name k s task → e.Holds name l s' task' → k ≠ l → s ≠ s'

theorem getElem?_setPhase {i k : Nat} {phase : Phase} {task' : Task V}
    (htask' : (e.setPhase i phase).tasks[k]? = some task') :
    ∃ task, e.tasks[k]? = some task ∧ task' = if i = k then { task with phase } else task := by
  have hmodify : (e.tasks.modify i fun task => { task with phase })[k]? = some task' := htask'
  rw [List.getElem?_modify] at hmodify
  obtain ⟨task, htask, rfl⟩ := Option.map_eq_some_iff.mp hmodify
  exact ⟨task, htask, rfl⟩

theorem Holds.of_setPhase {i k s : Nat} {phase : Phase} {task' : Task V}
    (hholds : (e.setPhase i phase).Holds name k s task') :
    (k ≠ i ∧ e.Holds name k s task') ∨ (k = i ∧ phase = .numbered s ∧
      ∃ task, e.tasks[i]? = some task ∧ task.call.collection = name) := by
  obtain ⟨htask', hcollection, hphase⟩ := hholds
  obtain ⟨task, htask, heq⟩ := getElem?_setPhase htask'
  by_cases hk : i = k
  · subst hk
    rw [if_pos rfl] at heq
    subst heq
    exact Or.inr ⟨rfl, hphase, task, htask, hcollection⟩
  · rw [if_neg hk] at heq
    subst heq
    exact Or.inl ⟨Ne.symm hk, htask, hcollection, hphase⟩

theorem SingleAt.of_publish {record a : Record V} {i : Nat}
    (hat : (e.publish record).SingleAt name i a) :
    e.SingleAt name i a ∨ (i = e.published.length ∧ a = record) := by
  obtain ⟨hpublished, hsingle, hcollection⟩ := hat
  have happend : (e.published ++ [record])[i]? = some a := hpublished
  rw [List.getElem?_append] at happend
  split at happend
  · exact Or.inl ⟨happend, hsingle, hcollection⟩
  · rename_i hge
    obtain ⟨hlt, ha⟩ := List.getElem?_eq_some_iff.mp happend
    rw [List.length_singleton] at hlt
    rw [List.getElem_singleton] at ha
    exact Or.inr ⟨by omega, ha.symm⟩

theorem SingleAt.lt {a : Record V} {i : Nat} (hat : e.SingleAt name i a) : i < e.published.length :=
  (List.getElem?_eq_some_iff.mp hat.published).1

/-- A step that hands out no number of the collection and publishes no single event of it. -/
theorem Numbered.of_kept (he : e.Numbered name) {e' : CdcEngine V}
    (hcounter : e'.counter name = e.counter name)
    (hat : ∀ i a, e'.SingleAt name i a → e.SingleAt name i a)
    (hholds : ∀ k s task, e'.Holds name k s task → e.Holds name k s task)
    (hbegan : ∀ (k : Nat) (task : Task V), e'.tasks[k]? = some task →
      task.began ≤ e'.published.length) : e'.Numbered name where
  began := hbegan
  recorded i a ha := he.recorded i a (hat i a ha)
  below i a ha := hcounter ▸ he.below i a (hat i a ha)
  distinct i j a b ha hb := he.distinct i j a b (hat i a ha) (hat j b hb)
  ordered i j a b ha hb := he.ordered i j a b (hat i a ha) (hat j b hb)
  drawn k s task hk := hcounter ▸ he.drawn k s task (hholds k s task hk)
  unused k s task i a hk ha := he.unused k s task i a (hholds k s task hk) (hat i a ha)
  apart k l s s' task task' hk hl :=
    he.apart k l s s' task task' (hholds k s task hk) (hholds l s' task' hl)

theorem Numbered.began_setPhase (he : e.Numbered name) (i : Nat) (phase : Phase) (k : Nat)
    (task' : Task V) (htask' : (e.setPhase i phase).tasks[k]? = some task') :
    task'.began ≤ e.published.length := by
  obtain ⟨task, htask, rfl⟩ := getElem?_setPhase htask'
  have hbegan := he.began k task htask
  split <;> exact hbegan

theorem Numbered.setPhase (he : e.Numbered name) (i : Nat) {phase : Phase}
    (hphase : ∀ s, phase ≠ .numbered s) : (e.setPhase i phase).Numbered name := by
  refine he.of_kept rfl (fun j a ha => ⟨ha.1, ha.2, ha.3⟩) (fun k s task hk => ?_)
    (he.began_setPhase i phase)
  rcases hk.of_setPhase with ⟨-, hold⟩ | ⟨-, hnumbered, -⟩
  · exact hold
  · exact absurd hnumbered (hphase s)

/-- A call gets the number behind the last one. -/
theorem Numbered.numbers (he : e.Numbered name) {i : Nat} {task : Task V}
    (htask : e.tasks[i]? = some task) :
    ((e.nextSequence task.call.collection).1.setPhase i
      (.numbered (e.counter task.call.collection + 1))).Numbered name := by
  by_cases hname : task.call.collection = name
  · subst hname
    set c := e.counter task.call.collection with hc
    set e' := (e.nextSequence task.call.collection).1.setPhase i (.numbered (c + 1))
    have hcounter : e'.counter task.call.collection = c + 1 := by
      show (Function.update e.sequenceCounters task.call.collection (some (c + 1))
        task.call.collection).getD 0 = c + 1
      rw [Function.update_self, Option.getD_some]
    have hat : ∀ {i a}, e'.SingleAt task.call.collection i a → e.SingleAt task.call.collection i a :=
      fun ha => ⟨ha.1, ha.2, ha.3⟩
    have hholds : ∀ {k s t}, e'.Holds task.call.collection k s t →
        (k ≠ i ∧ e.Holds task.call.collection k s t) ∨ (k = i ∧ s = c + 1) := by
      intro k s t hholds
      rcases hholds.of_setPhase with ⟨hk, hold⟩ | ⟨hk, hnumbered, -⟩
      · exact Or.inl ⟨hk, hold.1, hold.2, hold.3⟩
      · exact Or.inr ⟨hk, (Phase.numbered.inj hnumbered).symm⟩
    refine ⟨he.began_setPhase i _, fun i a ha => he.recorded i a (hat ha), fun i a ha => ?_,
      fun i j a b ha hb => he.distinct i j a b (hat ha) (hat hb),
      fun i j a b ha hb => he.ordered i j a b (hat ha) (hat hb), fun k s t hk => ?_,
      fun k s t j a hk ha => ?_, fun k l s s' t t' hk hl hne => ?_⟩
    · rw [hcounter]
      exact Nat.le_succ_of_le (he.below i a (hat ha))
    · rw [hcounter]
      rcases hholds hk with ⟨-, hold⟩ | ⟨-, rfl⟩
      · exact Nat.le_succ_of_le (he.drawn k s t hold)
      · exact Nat.le_refl _
    · rcases hholds hk with ⟨-, hold⟩ | ⟨-, rfl⟩
      · exact he.unused k s t j a hold (hat ha)
      · have hbelow := he.below j a (hat ha)
        exact ⟨by omega, fun _ => by omega⟩
    · rcases hholds hk with ⟨hki, hold⟩ | ⟨hki, rfl⟩
      · rcases hholds hl with ⟨-, hold'⟩ | ⟨-, rfl⟩
        · exact he.apart k l s s' t t' hold hold' hne
        · have hle := he.drawn k s t hold
          omega
      · rcases hholds hl with ⟨-, hold'⟩ | ⟨hli, -⟩
        · have hle := he.drawn l s' t' hold'
          omega
        · exact absurd (hki.trans hli.symm) hne
  · -- The counter and the numbers of another collection stay as they are.
    refine he.of_kept ?_ (fun j a ha => ⟨ha.1, ha.2, ha.3⟩) (fun k s t hk => ?_)
      (he.began_setPhase i _)
    · show (Function.update e.sequenceCounters task.call.collection _ name).getD 0 = _
      rw [Function.update_of_ne (Ne.symm hname)]
      rfl
    · rcases hk.of_setPhase with ⟨-, hold⟩ | ⟨-, -, task', htask', hcollection⟩
      · exact ⟨hold.1, hold.2, hold.3⟩
      · obtain rfl := Option.some.inj (htask.symm.trans htask')
        exact absurd hcollection hname

/-- An event of a batch has no number of the collection. -/
theorem Numbered.publish (he : e.Numbered name) {record : Record V} (hbatch : record.isSingle = false) :
    (e.publish record).Numbered name := by
  refine he.of_kept rfl (fun i a ha => ?_) (fun k s t hk => ⟨hk.1, hk.2, hk.3⟩) (fun k task htask => ?_)
  · rcases ha.of_publish with hold | ⟨-, rfl⟩
    · exact hold
    · exact absurd (ha.single.symm.trans hbatch) (by simp)
  · show task.began ≤ (e.published ++ [record]).length
    rw [List.length_append]
    exact Nat.le_add_right_of_le (he.began k task htask)

/-- A single event is published with the number its call holds. -/
theorem Numbered.publishes (he : e.Numbered name) {i sequence : Nat} {task : Task V}
    (htask : e.tasks[i]? = some task) (hphase : task.phase = .numbered sequence)
    {event : ChangeEvent V} (hcollection : event.collection = task.call.collection)
    (hsequence : event.sequenceNumber = sequence) :
    ((e.publish { event, task := i, began := task.began, isSingle := true }).setPhase i
      .returned).Numbered name := by
  set record : Record V := { event, task := i, began := task.began, isSingle := true } with hrecord
  set e' := (e.publish record).setPhase i .returned
  have hlength : e'.published.length = e.published.length + 1 := List.length_append
  have hat : ∀ {j a}, e'.SingleAt name j a → e.SingleAt name j a ∨
      (j = e.published.length ∧ a = record ∧ e.Holds name i sequence task) := by
    intro j a ha
    have ha' : (e.publish record).SingleAt name j a := ⟨ha.1, ha.2, ha.3⟩
    rcases ha'.of_publish with hold | ⟨hj, rfl⟩
    · exact Or.inl hold
    · exact Or.inr ⟨hj, rfl, htask, hcollection.symm.trans ha.collection, hphase⟩
  have hholds : ∀ {k s t}, e'.Holds name k s t → k ≠ i ∧ e.Holds name k s t := by
    intro k s t hk
    rcases hk.of_setPhase with ⟨hne, hold⟩ | ⟨-, hnumbered, -⟩
    · exact ⟨hne, hold.1, hold.2, hold.3⟩
    · exact absurd hnumbered (by simp)
  have hseq : record.event.sequenceNumber = sequence := hsequence
  refine ⟨fun k task' htask' => ?_, fun j a ha => ?_, fun j a ha => ?_,
    fun j l a b ha hb hne => ?_, fun j l a b ha hb hlt => ?_,
    fun k s t hk => he.drawn k s t (hholds hk).2,
    fun k s t j a hk ha => ?_,
    fun k l s s' t t' hk hl => he.apart k l s s' t t' (hholds hk).2 (hholds hl).2⟩
  · obtain ⟨old, hold, rfl⟩ := getElem?_setPhase htask'
    have hbegan := he.began k old hold
    rw [hlength]
    split <;> exact Nat.le_succ_of_le hbegan
  · rcases hat ha with hold | ⟨rfl, rfl, -⟩
    · exact he.recorded j a hold
    · exact he.began i task htask
  · rcases hat ha with hold | ⟨-, rfl, hi⟩
    · exact he.below j a hold
    · rw [hseq]
      exact he.drawn _ _ _ hi
  · rcases hat ha with hold | ⟨hj, rfl, hi⟩
    · rcases hat hb with hold' | ⟨-, rfl, hi⟩
      · exact he.distinct j l a b hold hold' hne
      · rw [hseq]
        exact (he.unused _ _ _ j a hi hold).1
    · rcases hat hb with hold' | ⟨hl, -, -⟩
      · rw [hseq]
        exact ((he.unused _ _ _ l b hi hold').1).symm
      · exact absurd (hj.trans hl.symm) hne
  · rcases hat ha with hold | ⟨rfl, -, -⟩
    · rcases hat hb with hold' | ⟨-, rfl, hi⟩
      · exact he.ordered j l a b hold hold' hlt
      · rw [hseq]
        exact (he.unused _ _ _ j a hi hold).2 hlt
    · -- No call began behind the last event.
      rcases hat hb with hold' | ⟨-, rfl, -⟩
      · have hrecorded := he.recorded l b hold'
        have hl := hold'.lt
        omega
      · exact absurd (he.began i task htask) (Nat.not_le.mpr hlt)
  · obtain ⟨hki, hold⟩ := hholds hk
    rcases hat ha with hold' | ⟨hj, rfl, hi⟩
    · exact he.unused k s t j a hold hold'
    · have hbegan := he.began k t hold.entry
      rw [hseq]
      exact ⟨he.apart _ _ _ _ _ _ hi hold (Ne.symm hki), fun hlt => by omega⟩

theorem getElem?_begin {call : Call V} {k : Nat} {task : Task V}
    (htask : (e.begin call).tasks[k]? = some task) : e.tasks[k]? = some task ∨
      k = e.tasks.length ∧ task = { call, began := e.published.length, phase := .begun } := by
  have happend : (e.tasks ++ [{ call, began := e.published.length, phase := .begun }])[k]? =
      some task := htask
  rw [List.getElem?_append] at happend
  split at happend
  · exact Or.inl happend
  · rename_i hge
    obtain ⟨hlt, heq⟩ := List.getElem?_eq_some_iff.mp happend
    rw [List.length_singleton] at hlt
    rw [List.getElem_singleton] at heq
    exact Or.inr ⟨by omega, heq.symm⟩

theorem Numbered.begin (he : e.Numbered name) (call : Call V) : (e.begin call).Numbered name := by
  refine he.of_kept rfl (fun i a ha => ⟨ha.1, ha.2, ha.3⟩) (fun k s task hk => ?_)
    (fun k task htask => ?_)
  · rcases getElem?_begin hk.entry with hold | ⟨-, rfl⟩
    · exact ⟨hold, hk.collection, hk.phase⟩
    · exact absurd hk.phase (by simp)
  · rcases getElem?_begin htask with hold | ⟨-, rfl⟩
    · exact he.began k task hold
    · exact Nat.le_refl _

theorem Numbered.step (he : e.Numbered name) (s : Step V) : (e.step s).Numbered name := by
  cases s with
  | subscribe collection =>
    exact he.of_kept rfl (fun i a ha => ⟨ha.1, ha.2, ha.3⟩) (fun k s t hk => ⟨hk.1, hk.2, hk.3⟩)
      he.began
  | tryRecv collection i =>
    exact he.of_kept rfl (fun i a ha => ⟨ha.1, ha.2, ha.3⟩) (fun k s t hk => ⟨hk.1, hk.2, hk.3⟩)
      he.began
  | begin call => exact he.begin call
  | advance i stamp =>
    show (e.advance i stamp).Numbered name
    cases advance_cases e i stamp with
    | same heq =>
      rw [heq]
      exact he
    | numbers task htask hphase hsingle heq =>
      rw [heq]
      exact he.numbers htask
    | publishes task htask sequence hphase event hsingle hcollection hsequence heq =>
      rw [heq]
      exact he.publishes htask hphase hcollection hsequence
    | opens task htask hphase txnId heq =>
      rw [heq]
      exact he.setPhase i (fun s => by simp)
    | publishesNext task htask txnId idx hphase event changes hbatch hidx hcollection hsequence heq =>
      rw [heq]
      exact (he.publish rfl).setPhase i (fun s => by simp)

theorem numbered_new (bufferSize : Nat) (name : String) :
    (new bufferSize : CdcEngine V).Numbered name where
  began k task htask := absurd htask (by simp [new])
  recorded i a ha := absurd ha.published (by simp [new])
  below i a ha := absurd ha.published (by simp [new])
  distinct i j a b ha := absurd ha.published (by simp [new])
  ordered i j a b ha := absurd ha.published (by simp [new])
  drawn k s task hk := absurd hk.entry (by simp [new])
  unused k s task i a hk := absurd hk.entry (by simp [new])
  apart k l s s' task task' hk := absurd hk.entry (by simp [new])

theorem run_numbered (bufferSize : Nat) (steps : List (Step V)) (name : String) :
    (run bufferSize steps).Numbered name :=
  run_invariant (P := fun e => e.Numbered name) (numbered_new bufferSize name)
    (fun _ s he => he.step s) steps

/-! ## Batches -/

def numbersOf (e : CdcEngine V) (k : Nat) : List Nat :=
  (e.published.filter fun record => record.task = k).map fun record => record.event.sequenceNumber

/-- A batch numbers its events by their places. -/
structure Batched (e : CdcEngine V) : Prop where
  issued : ∀ record ∈ e.published, record.task < e.tasks.length
  places : ∀ (k : Nat) (task : Task V) changes, e.tasks[k]? = some task →
    task.call.emit = .batch changes →
      task.phase.done ≤ changes.length ∧ e.numbersOf k = List.range task.phase.done

theorem length_setPhase (i : Nat) (phase : Phase) :
    (e.setPhase i phase).tasks.length = e.tasks.length :=
  List.length_modify _ _ _

theorem Batched.setPhase (he : e.Batched) {i : Nat} {task : Task V} (htask : e.tasks[i]? = some task)
    {phase : Phase}
    (hdone : ∀ changes, task.call.emit = .batch changes → phase.done = task.phase.done) :
    (e.setPhase i phase).Batched := by
  refine ⟨fun record hrecord => ?_, fun k task' changes htask' hbatch => ?_⟩
  · rw [length_setPhase]
    exact he.issued record hrecord
  · obtain ⟨old, hold, rfl⟩ := getElem?_setPhase htask'
    by_cases hk : i = k
    · subst hk
      obtain rfl := Option.some.inj (htask.symm.trans hold)
      rw [if_pos rfl] at hbatch ⊢
      show phase.done ≤ changes.length ∧ e.numbersOf i = List.range phase.done
      rw [hdone changes hbatch]
      exact he.places i task changes htask hbatch
    · rw [if_neg hk] at hbatch ⊢
      exact he.places k old changes hold hbatch

theorem numbersOf_publish (record : Record V) (k : Nat) : (e.publish record).numbersOf k =
    e.numbersOf k ++ if record.task = k then [record.event.sequenceNumber] else [] := by
  show ((e.published ++ [record]).filter _).map _ = _
  rw [List.filter_append, List.map_append]
  congr 1
  by_cases hk : record.task = k
  · simp [hk]
  · simp [hk]

theorem Batched.publish (he : e.Batched) {i : Nat} {task : Task V} (htask : e.tasks[i]? = some task)
    {record : Record V} (hrecord : record.task = i) {phase : Phase}
    (hnext : ∀ changes, task.call.emit = .batch changes → task.phase.done < changes.length ∧
      record.event.sequenceNumber = task.phase.done ∧ phase.done = task.phase.done + 1) :
    ((e.publish record).setPhase i phase).Batched := by
  refine ⟨fun r hr => ?_, fun k task' changes htask' hbatch => ?_⟩
  · rw [length_setPhase]
    show r.task < e.tasks.length
    rcases List.mem_append.mp hr with hold | hnew
    · exact he.issued r hold
    · rw [List.mem_singleton.mp hnew, hrecord]
      exact (List.getElem?_eq_some_iff.mp htask).1
  · obtain ⟨old, hold, rfl⟩ := getElem?_setPhase htask'
    have hold' : e.tasks[k]? = some old := hold
    show _ ∧ (e.publish record).numbersOf k = _
    rw [numbersOf_publish]
    by_cases hk : i = k
    · subst hk
      obtain rfl := Option.some.inj (htask.symm.trans hold')
      rw [if_pos rfl] at hbatch ⊢
      obtain ⟨hlt, hsequence, hdone⟩ := hnext changes hbatch
      rw [if_pos hrecord, (he.places i task changes htask hbatch).2, hsequence]
      show phase.done ≤ changes.length ∧ _ = List.range phase.done
      rw [hdone, List.range_succ]
      exact ⟨hlt, rfl⟩
    · rw [if_neg hk] at hbatch ⊢
      rw [if_neg (fun h => hk (hrecord.symm.trans h)), List.append_nil]
      exact he.places k old changes hold' hbatch

theorem Batched.begin (he : e.Batched) (call : Call V) : (e.begin call).Batched := by
  refine ⟨fun record hrecord => ?_, fun k task changes htask hbatch => ?_⟩
  · show record.task < (e.tasks ++ [_]).length
    rw [List.length_append]
    exact Nat.lt_add_right _ (he.issued record hrecord)
  · rcases getElem?_begin htask with hold | ⟨rfl, rfl⟩
    · exact he.places k task changes hold hbatch
    · refine ⟨Nat.zero_le _, ?_⟩
      show (e.published.filter _).map _ = []
      rw [List.map_eq_nil_iff, List.filter_eq_nil_iff]
      intro record hrecord htask
      exact absurd (he.issued record hrecord) (by simp [of_decide_eq_true htask])

theorem Batched.step (he : e.Batched) (s : Step V) : (e.step s).Batched := by
  cases s with
  | subscribe collection => exact ⟨he.issued, he.places⟩
  | tryRecv collection i => exact ⟨he.issued, he.places⟩
  | begin call => exact he.begin call
  | advance i stamp =>
    show (e.advance i stamp).Batched
    cases advance_cases e i stamp with
    | same heq =>
      rw [heq]
      exact he
    | numbers task htask hphase hsingle heq =>
      rw [heq]
      have hcounted : (e.nextSequence task.call.collection).1.Batched := ⟨he.issued, he.places⟩
      exact hcounted.setPhase htask (fun changes h => absurd h (hsingle changes))
    | publishes task htask sequence hphase event hsingle hcollection hsequence heq =>
      rw [heq]
      exact he.publish htask rfl (fun changes h => absurd h (hsingle changes))
    | opens task htask hphase txnId heq =>
      rw [heq]
      exact he.setPhase htask (fun _ _ => by rw [hphase]; rfl)
    | publishesNext task htask txnId idx hphase event changes hbatch hidx hcollection hsequence heq =>
      rw [heq]
      refine he.publish htask rfl (fun changes' hbatch' => ?_)
      obtain rfl := Emit.batch.inj (hbatch.symm.trans hbatch')
      rw [hphase]
      exact ⟨hidx, hsequence, rfl⟩

theorem run_batched (bufferSize : Nat) (steps : List (Step V)) : (run bufferSize steps).Batched := by
  refine run_invariant ⟨fun _ hrecord => ?_, fun _ _ _ htask => ?_⟩ (fun _ s he => he.step s) steps
  · exact absurd hrecord List.not_mem_nil
  · exact absurd htask (by simp [new])

/-! ## Arrival -/

/-- What a subscriber may rely on.  The order of two single events is known where the call of the
second began behind the first; the events of a batch have the numbers from zero. -/
structure Arrives (e : CdcEngine V) (name : String) : Prop where
  delivered : ∀ receivers, e.channels name = some receivers → ∀ r ∈ receivers, r.lagged = false →
    r.received ++ r.pending = e.eventsSince name r.since
  distinct : ∀ i j a b, e.SingleAt name i a → e.SingleAt name j b → i ≠ j →
    a.event.sequenceNumber ≠ b.event.sequenceNumber
  ordered : ∀ i j a b, e.SingleAt name i a → e.SingleAt name j b → i < b.began →
    a.event.sequenceNumber < b.event.sequenceNumber
  batches : ∀ (k : Nat) (task : Task V) changes, e.tasks[k]? = some task →
    task.call.emit = .batch changes → ∃ n ≤ changes.length, e.numbersOf k = List.range n

/-- Every subscriber sees the numbers of its collection increase, and no number comes twice. -/
def InSequence (e : CdcEngine V) (name : String) : Prop :=
  (∀ receivers, e.channels name = some receivers → ∀ r ∈ receivers, r.lagged = false →
    r.received ++ r.pending = e.eventsSince name r.since ∧
      ((r.received ++ r.pending).map ChangeEvent.sequenceNumber).Pairwise (· < ·)) ∧
  ((e.eventsSince name 0).map ChangeEvent.sequenceNumber).Nodup

end CdcEngine

open CdcEngine

theorem events_arrive (bufferSize : Nat) (steps : List (Step V)) (name : String) :
    (run bufferSize steps).Arrives name where
  delivered receivers hreceivers r hr hlagged :=
    (run_allDelivered bufferSize steps name receivers hreceivers r hr).2 hlagged
  distinct := (run_numbered bufferSize steps name).distinct
  ordered := (run_numbered bufferSize steps name).ordered
  batches k task changes htask hbatch :=
    ⟨task.phase.done, (run_batched bufferSize steps).places k task changes htask hbatch⟩

/-- A subscriber, and two batches of one insert, one after the other. -/
def twoBatches : List (Step Unit) :=
  let stamp : Stamp := { uuid := "", nowMicros := 0 }
  [.subscribe "col", .begin (emitBatch "col" [(.insert, 1, some ())] none), .advance 0 stamp,
    .advance 0 stamp, .begin (emitBatch "col" [(.insert, 2, some ())] none), .advance 1 stamp,
    .advance 1 stamp]

theorem not_in_sequence_twoBatches : ¬(run 10 twoBatches).InSequence "col" := by
  rintro ⟨-, hnodup⟩
  revert hnodup
  decide

end Streaming
end RTDB
