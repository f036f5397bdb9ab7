import Mathlib.Data.List.Induction
import RTDB.Replication.CrossRegion

/-!
# Convergence under last writer wins

A region that has handled some operations on a resource ends with the operation that won
the last conflict.  Two regions end with the same one, whatever reached them in which
order, exactly when one operation wins against every other.
-/

namespace RTDB
namespace Replication

open CrossRegionReplicator

/-- An operation that reaches a region, with the id and time that a merge would get. -/
structure Delivery where
  id : Nat
  now : Nat
  op : ReplicatedOperation

namespace CrossRegionReplicator

def receive (s : CrossRegionReplicator) (d : Delivery) : CrossRegionReplicator :=
  (s.handleReplicatedOperation d.id d.now d.op).1

def deliver (s : CrossRegionReplicator) (ds : List Delivery) : CrossRegionReplicator :=
  ds.foldl receive s

/-- The operation last passed to `apply_operation` for a resource. -/
def lastApplied (s : CrossRegionReplicator) (resource : List UInt8) : Option ReplicatedOperation :=
  (s.applied.filter fun op => sameResource op.data resource).getLast?

/-- The local region resolves by last writer wins. -/
def LastWriterWins (s : CrossRegionReplicator) : Prop :=
  ∃ config, s.regions s.localRegion = some config ∧ config.conflictResolution = .lastWriterWins

end CrossRegionReplicator

variable {resource : List UInt8} {ops : List ReplicatedOperation} {s : CrossRegionReplicator}

/-- A region that has applied nothing to the resource; of the operations on it, it may
have logged its own. -/
structure Ready (resource : List UInt8) (ops : List ReplicatedOperation)
    (s : CrossRegionReplicator) : Prop where
  lastWriterWins : s.LastWriterWins
  logged : ∀ op ∈ s.operationLog, op.data = resource → op ∈ ops
  fresh : s.lastApplied resource = none

/-- Each of the operations is delivered at least once, and no other one on the resource. -/
structure Covers (resource : List UInt8) (ops : List ReplicatedOperation) (ds : List Delivery) :
    Prop where
  all : ∀ op ∈ ops, ∃ d ∈ ds, d.op = op
  only : ∀ d ∈ ds, d.op.data = resource → d.op ∈ ops

/-- Any two regions that have handled the operations agree, and on none that happened
before another. -/
def Converges (resource : List UInt8) (ops : List ReplicatedOperation) : Prop :=
  ∀ (s t : CrossRegionReplicator) (ds es : List Delivery), Ready resource ops s →
    Ready resource ops t → Covers resource ops ds → Covers resource ops es →
      (s.deliver ds).lastApplied resource = (t.deliver es).lastApplied resource ∧
        ∀ op, (s.deliver ds).lastApplied resource = some op →
          ∀ op' ∈ ops, op.vectorClock.compare op'.vectorClock ≠ .less

/-- The operation is in conflict with every other one, and later. -/
def Winner (ops : List ReplicatedOperation) (w : ReplicatedOperation) : Prop :=
  w ∈ ops ∧ ∀ op ∈ ops, op ≠ w → inConflict op w = true ∧ op.timestamp < w.timestamp

instance (ops : List ReplicatedOperation) (w : ReplicatedOperation) : Decidable (Winner ops w) :=
  inferInstanceAs (Decidable (w ∈ ops ∧
    ∀ op ∈ ops, op ≠ w → inConflict op w = true ∧ op.timestamp < w.timestamp))

/-! ## Conflicts -/

theorem inConflict_iff (op existing : ReplicatedOperation) :
    inConflict op existing = true ↔ op.vectorClock.compare existing.vectorClock = .concurrent ∧
      operationsConflict op existing = true := by
  rw [inConflict, Bool.and_eq_true, decide_eq_true_iff]

theorem operationsConflict_data {op existing : ReplicatedOperation}
    (h : operationsConflict op existing = true) : op.data = existing.data := by
  rw [operationsConflict] at h
  split at h
  all_goals first
    | exact of_decide_eq_true h
    | exact absurd h Bool.false_ne_true

theorem inConflict_data {op existing : ReplicatedOperation} (h : inConflict op existing = true) :
    op.data = existing.data := operationsConflict_data ((inConflict_iff op existing).mp h).2

theorem latest_cases (op : ReplicatedOperation) (conflicts : List ReplicatedOperation) :
    latest op conflicts = op ∨
      (latest op conflicts ∈ conflicts ∧ op.timestamp < (latest op conflicts).timestamp) := by
  induction conflicts generalizing op with
  | nil => exact Or.inl rfl
  | cons c conflicts ih =>
    rw [latest, List.foldl_cons, ← latest]
    by_cases hlater : op.timestamp < c.timestamp
    · rw [if_pos hlater]
      right
      rcases ih c with heq | ⟨hmem, hlt⟩
      · rw [heq]
        exact ⟨List.mem_cons_self, hlater⟩
      · exact ⟨List.mem_cons_of_mem c hmem, by omega⟩
    · rw [if_neg hlater]
      exact (ih op).imp id fun h => ⟨List.mem_cons_of_mem c h.1, h.2⟩

theorem latest_of_max {op w : ReplicatedOperation} {conflicts : List ReplicatedOperation}
    (hmax : ∀ c ∈ conflicts, c = w ∨ c.timestamp < w.timestamp)
    (hw : op = w ∨ (w ∈ conflicts ∧ op.timestamp < w.timestamp)) : latest op conflicts = w := by
  induction conflicts generalizing op with
  | nil => exact hw.resolve_right fun h => List.not_mem_nil h.1
  | cons c conflicts ih =>
    obtain ⟨hc, hrest⟩ := List.forall_mem_cons.mp hmax
    rw [latest, List.foldl_cons, ← latest]
    by_cases hlater : op.timestamp < c.timestamp
    · rw [if_pos hlater]
      refine ih hrest ?_
      rcases hc with hc | hc
      · exact Or.inl hc
      · rcases hw with rfl | ⟨hmem, hlt⟩
        · omega
        · rcases List.mem_cons.mp hmem with rfl | hmem
          · exact Or.inl rfl
          · exact Or.inr ⟨hmem, hc⟩
    · rw [if_neg hlater]
      refine ih hrest (hw.imp id fun h => ⟨?_, h.2⟩)
      rcases List.mem_cons.mp h.1 with rfl | hmem
      · exact absurd h.2 hlater
      · exact hmem

/-! ## Deliveries -/

/-- Under last writer wins every operation is handled. -/
theorem receive_eq (hlww : s.LastWriterWins) (d : Delivery) :
    s.receive d = ((s.updateClock d.op).applyOperation
      (latest d.op (s.operationLog.filter (inConflict d.op)))).logOperation d.op := by
  obtain ⟨config, hconfig, hresolution⟩ := hlww
  have hregions : (s.updateClock d.op).regions (s.updateClock d.op).localRegion = some config := hconfig
  have hdetect : (s.updateClock d.op).detectConflicts d.op =
      s.operationLog.filter (inConflict d.op) := rfl
  rw [receive, handleReplicatedOperation]
  simp only [hdetect, resolveConflicts, hregions, hresolution]
  cases s.operationLog.filter (inConflict d.op) with
  | nil => rfl
  | cons c conflicts => rfl

theorem receive_lww (hlww : s.LastWriterWins) (d : Delivery) : (s.receive d).LastWriterWins := by
  rw [receive_eq hlww]
  exact hlww

theorem receive_log (hlww : s.LastWriterWins) (d : Delivery) :
    (s.receive d).operationLog = s.operationLog ++ [d.op] := by
  rw [receive_eq hlww]
  rfl

/-- Only operations on a resource are applied to it. -/
theorem receive_lastApplied (hlww : s.LastWriterWins) (d : Delivery) (resource : List UInt8) :
    (s.receive d).lastApplied resource =
      if d.op.data = resource then some (latest d.op (s.operationLog.filter (inConflict d.op)))
      else s.lastApplied resource := by
  have hdata : (latest d.op (s.operationLog.filter (inConflict d.op))).data = d.op.data := by
    rcases latest_cases d.op (s.operationLog.filter (inConflict d.op)) with heq | ⟨hmem, -⟩
    · rw [heq]
    · exact (inConflict_data (List.mem_filter.mp hmem).2).symm
  have happlied : (s.receive d).applied =
      s.applied ++ [latest d.op (s.operationLog.filter (inConflict d.op))] := by
    rw [receive_eq hlww]
    rfl
  rw [lastApplied, happlied, List.filter_append, List.filter_singleton, sameResource, hdata]
  by_cases hresource : d.op.data = resource
  · simp [hresource]
  · simp [hresource, lastApplied]

theorem deliver_concat (s : CrossRegionReplicator) (ds : List Delivery) (d : Delivery) :
    s.deliver (ds ++ [d]) = (s.deliver ds).receive d := by
  rw [deliver, List.foldl_append]
  rfl

theorem deliver_log (hlww : s.LastWriterWins) (ds : List Delivery) :
    (s.deliver ds).LastWriterWins ∧
      (s.deliver ds).operationLog = s.operationLog ++ ds.map Delivery.op := by
  induction ds using List.reverseRecOn with
  | nil => exact ⟨hlww, (List.append_nil _).symm⟩
  | append_singleton ds d ih =>
    rw [deliver_concat, receive_log ih.1, ih.2, List.map_append, List.append_assoc]
    exact ⟨receive_lww ih.1 d, rfl⟩

/-- Once it is there, the winner stays. -/
theorem winner_lastApplied {w : ReplicatedOperation} (hw : Winner ops w) (hdata : w.data = resource)
    (hs : Ready resource ops s) {ds : List Delivery}
    (honly : ∀ d ∈ ds, d.op.data = resource → d.op ∈ ops) (hseen : ∃ d ∈ ds, d.op = w) :
    (s.deliver ds).lastApplied resource = some w := by
  induction ds using List.reverseRecOn with
  | nil =>
    obtain ⟨d, hd, -⟩ := hseen
    exact absurd hd List.not_mem_nil
  | append_singleton ds d ih =>
    obtain ⟨hlww, hlog⟩ := deliver_log hs.lastWriterWins ds
    have honly' : ∀ d ∈ ds, d.op.data = resource → d.op ∈ ops := fun d hd =>
      honly d (List.mem_append_left _ hd)
    have hbefore : d.op ≠ w → ∃ d ∈ ds, d.op = w := by
      intro hne
      obtain ⟨e, he, heq⟩ := hseen
      rcases List.mem_append.mp he with he | he
      · exact ⟨e, he, heq⟩
      · rw [List.mem_singleton.mp he] at heq
        exact absurd heq hne
    rw [deliver_concat, receive_lastApplied hlww, hlog]
    by_cases hresource : d.op.data = resource
    · rw [if_pos hresource, Option.some.injEq]
      refine latest_of_max (fun c hc => ?_) ?_
      · obtain ⟨hmem, hconflict⟩ := List.mem_filter.mp hc
        have hcdata : c.data = resource := (inConflict_data hconflict).symm.trans hresource
        have hcops : c ∈ ops := by
          rcases List.mem_append.mp hmem with hmem | hmem
          · exact hs.logged c hmem hcdata
          · obtain ⟨e, he, rfl⟩ := List.mem_map.mp hmem
            exact honly' e he hcdata
        by_cases hcw : c = w
        · exact Or.inl hcw
        · exact Or.inr (hw.2 c hcops hcw).2
      · by_cases hdw : d.op = w
        · exact Or.inl hdw
        · obtain ⟨hconflict, hlt⟩ := hw.2 d.op (honly d (by simp) hresource) hdw
          obtain ⟨e, he, heq⟩ := hbefore hdw
          refine Or.inr ⟨List.mem_filter.mpr ⟨List.mem_append_right _ ?_, hconflict⟩, hlt⟩
          exact List.mem_map.mpr ⟨e, he, heq⟩
    · rw [if_neg hresource]
      refine ih honly' (hbefore ?_)
      rintro rfl
      exact hresource hdata

theorem converges_of_winner {w : ReplicatedOperation} (hw : Winner ops w)
    (hresource : ∀ op ∈ ops, op.data = resource) : Converges resource ops := by
  intro s t ds es hs ht hds hes
  have hdata := hresource w hw.1
  have hleft := winner_lastApplied hw hdata hs hds.only (hds.all w hw.1)
  have hright := winner_lastApplied hw hdata ht hes.only (hes.all w hw.1)
  refine ⟨hleft.trans hright.symm, fun op hop op' hop' hless => ?_⟩
  obtain rfl := Option.some.inj (hleft.symm.trans hop)
  by_cases hsame : op' = w
  · rw [hsame, VectorClock.compare_self] at hless
    exact absurd hless (by decide)
  · have hconcurrent := ((inConflict_iff op' w).mp (hw.2 op' hop' hsame).1).1
    rw [VectorClock.compare_concurrent_symm hconcurrent] at hless
    exact absurd hless (by decide)

/-! ## The runs that tell -/

def freshRegion : CrossRegionReplicator :=
  (CrossRegionReplicator.new "local").addRegion { regionId := "local", conflictResolution := .lastWriterWins }

def plainDelivery (op : ReplicatedOperation) : Delivery := { id := 0, now := 0, op }

theorem freshRegion_ready (resource : List UInt8) (ops : List ReplicatedOperation) :
    Ready resource ops freshRegion :=
  { lastWriterWins := ⟨{ regionId := "local", conflictResolution := .lastWriterWins }, rfl, rfl⟩
    logged := fun _ hmem => absurd hmem List.not_mem_nil
    fresh := rfl }

/-- All operations, and one of them again. -/
theorem deliver_again {op : ReplicatedOperation} (hresource : op.data = resource) :
    (freshRegion.deliver ((ops ++ [op]).map plainDelivery)).lastApplied resource =
      some (latest op (ops.filter (inConflict op))) := by
  obtain ⟨hlww, hlog⟩ :=
    deliver_log (freshRegion_ready resource ops).lastWriterWins (ops.map plainDelivery)
  have hops : (ops.map plainDelivery).map Delivery.op = ops := by
    rw [List.map_map]
    exact List.map_id ops
  rw [List.map_append, List.map_singleton, deliver_concat, receive_lastApplied hlww, hlog, hops]
  exact if_pos hresource

theorem covers_again {op : ReplicatedOperation} (hop : op ∈ ops) :
    Covers resource ops ((ops ++ [op]).map plainDelivery) := by
  refine ⟨fun op' hop' => ?_, fun d hd _ => ?_⟩
  · exact ⟨plainDelivery op', List.mem_map_of_mem (List.mem_append_left _ hop'), rfl⟩
  · obtain ⟨op', hop', rfl⟩ := List.mem_map.mp hd
    rcases List.mem_append.mp hop' with hop' | hop'
    · exact hop'
    · rw [List.mem_singleton.mp hop']
      exact hop

/-- The operation that every other one loses to is the one agreed on. -/
theorem winner_of_converges (hresource : ∀ op ∈ ops, op.data = resource)
    (hconverges : Converges resource ops) (hsome : ops ≠ []) : ∃ w, Winner ops w := by
  obtain ⟨op₀, hop₀⟩ := List.exists_mem_of_ne_nil ops hsome
  have hready := freshRegion_ready resource ops
  have hsame : ∀ op ∈ ops, latest op (ops.filter (inConflict op)) =
      latest op₀ (ops.filter (inConflict op₀)) := by
    intro op hop
    have hagree := (hconverges freshRegion freshRegion _ _ hready hready (covers_again hop)
      (covers_again hop₀)).1
    rw [deliver_again (hresource op hop), deliver_again (hresource op₀ hop₀)] at hagree
    exact Option.some.inj hagree
  refine ⟨latest op₀ (ops.filter (inConflict op₀)), ?_, fun op hop hne => ?_⟩
  · rcases latest_cases op₀ (ops.filter (inConflict op₀)) with heq | ⟨hmem, -⟩
    · rw [heq]
      exact hop₀
    · exact (List.mem_filter.mp hmem).1
  · rw [← hsame op hop] at hne ⊢
    rcases latest_cases op (ops.filter (inConflict op)) with heq | ⟨hmem, hlt⟩
    · exact absurd heq.symm hne
    · exact ⟨(List.mem_filter.mp hmem).2, hlt⟩

/-- Regions converge exactly on operations of which one is in conflict with every other
one and later than it. -/
theorem converges_iff (resource : List UInt8) (ops : List ReplicatedOperation)
    (hresource : ∀ op ∈ ops, op.data = resource) :
    Converges resource ops ↔ ops = [] ∨ ∃ w, Winner ops w := by
  constructor
  · intro hconverges
    by_cases hnone : ops = []
    · exact Or.inl hnone
    · exact Or.inr (winner_of_converges hresource hconverges hnone)
  · rintro (rfl | ⟨w, hw⟩)
    · intro s t ds es hs ht hds hes
      have hnone : ∀ {s : CrossRegionReplicator} {ds : List Delivery}, Ready resource [] s →
          Covers resource [] ds → (s.deliver ds).lastApplied resource = none := by
        intro s ds hs hds
        induction ds using List.reverseRecOn with
        | nil => exact hs.fresh
        | append_singleton ds d ih =>
          have hdata : d.op.data ≠ resource := fun h => List.not_mem_nil (hds.only d (by simp) h)
          rw [deliver_concat, receive_lastApplied (deliver_log hs.lastWriterWins ds).1, if_neg hdata]
          exact ih ⟨fun op hop => absurd hop List.not_mem_nil,
            fun d hd => hds.only d (List.mem_append_left _ hd)⟩
      rw [hnone hs hds, hnone ht hes]
      exact ⟨rfl, fun op hop => absurd hop (by simp)⟩
    · exact converges_of_winner hw hresource

/-! ## Two regions update one resource -/

def firstUpdate (region : String) (timestamp : Nat) : ReplicatedOperation :=
  (((CrossRegionReplicator.new region).replicateOperation 0 timestamp .update [1])).2

theorem converges_later : Converges [1] [firstUpdate "a" 5, firstUpdate "b" 7] :=
  (converges_iff [1] [firstUpdate "a" 5, firstUpdate "b" 7] (by decide)).mpr
    (Or.inr ⟨firstUpdate "b" 7, by decide⟩)

/-- At one time, each region keeps what came last. -/
theorem not_converges_tie :
    (freshRegion.deliver [plainDelivery (firstUpdate "a" 5), plainDelivery (firstUpdate "b" 5)]).lastApplied
        [1] = some (firstUpdate "b" 5) ∧
      (freshRegion.deliver [plainDelivery (firstUpdate "b" 5), plainDelivery (firstUpdate "a" 5)]).lastApplied
        [1] = some (firstUpdate "a" 5) ∧
      ¬Converges [1] [firstUpdate "a" 5, firstUpdate "b" 5] := by
  refine ⟨by decide, by decide, fun hconverges => ?_⟩
  obtain ⟨w, hw⟩ := winner_of_converges (by decide) hconverges (by decide)
  rcases List.mem_pair.mp hw.1 with rfl | rfl
  · exact absurd hw (by decide)
  · exact absurd hw (by decide)

end Replication
end RTDB
