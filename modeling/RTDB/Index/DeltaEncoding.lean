import Mathlib.Data.List.Chain
import RTDB.Storage.Types

/-!
# Delta-encoded neighbours

The lists of edges of `index/hnsw_optimized.rs`: the first id and the gaps between the others, in
16 bits each.
-/

namespace RTDB
namespace Index

open Storage

structure DeltaEncodedNeighbors where
  base : VectorId
  deltas : List UInt16
  deriving DecidableEq, Repr

namespace DeltaEncodedNeighbors

/-- The gaps of the ids to the ones before them, clamped to `u16::MAX`. -/
def deltasFrom : VectorId → List VectorId → List UInt16
  | _, [] => []
  | previous, id :: ids =>
    UInt16.ofNat (min (wrappingSub id previous) 65535) :: deltasFrom id ids

def fromSorted : List VectorId → DeltaEncodedNeighbors
  | [] => { base := 0, deltas := [] }
  | base :: ids => { base, deltas := deltasFrom base ids }

def decodeFrom : VectorId → List UInt16 → List VectorId
  | _, [] => []
  | current, delta :: deltas =>
    wrappingAdd current delta.toNat :: decodeFrom (wrappingAdd current delta.toNat) deltas

def decode (encoded : DeltaEncodedNeighbors) : List VectorId :=
  encoded.base :: decodeFrom encoded.base encoded.deltas

def len (encoded : DeltaEncodedNeighbors) : Nat := encoded.deltas.length + 1

/-- The base doubles as the mark of the empty list. -/
def isEmpty (encoded : DeltaEncodedNeighbors) : Bool := encoded.deltas.isEmpty && encoded.base == 0

/-- What is encoded comes back, with its length. -/
structure Lossless (neighbors : List VectorId) : Prop where
  decode : (fromSorted neighbors).decode = neighbors
  len : (fromSorted neighbors).len = neighbors.length
  isEmpty : (fromSorted neighbors).isEmpty = neighbors.isEmpty

/-- The gaps fit into 16 bits. -/
def SmallGaps (neighbors : List VectorId) : Prop := neighbors.IsChain fun a b => b - a ≤ 65535

instance (neighbors : List VectorId) : Decidable (SmallGaps neighbors) :=
  inferInstanceAs (Decidable (neighbors.IsChain _))

variable {previous id : Nat} {ids : List VectorId}

@[simp] theorem length_deltasFrom (previous : VectorId) (ids : List VectorId) :
    (deltasFrom previous ids).length = ids.length := by
  induction ids generalizing previous with
  | nil => rfl
  | cons id ids ih => rw [deltasFrom, List.length_cons, List.length_cons, ih]

/-- One gap leads to the next id, or falls short of it. -/
theorem wrappingAdd_delta (hle : previous ≤ id) (hid : id < 2 ^ 64) :
    wrappingAdd previous (UInt16.ofNat (min (wrappingSub id previous) 65535)).toNat =
      previous + min (id - previous) 65535 := by
  rw [wrappingSub_eq hle hid, UInt16.toNat_ofNat_of_lt' (by rw [UInt16.size]; omega)]
  refine wrappingAdd_eq ?_
  omega

theorem add_min_eq_iff (hle : previous ≤ id) :
    previous + min (id - previous) 65535 = id ↔ id - previous ≤ 65535 := by
  omega

/-- The gaps lead back to the ids exactly when none of them was clamped. -/
theorem decodeFrom_deltasFrom_iff (hids : ∀ id ∈ ids, id < 2 ^ 64)
    (hsorted : (previous :: ids).IsChain (· ≤ ·)) :
    decodeFrom previous (deltasFrom previous ids) = ids ↔ SmallGaps (previous :: ids) := by
  induction ids generalizing previous with
  | nil => exact iff_of_true rfl (List.isChain_singleton previous)
  | cons id ids ih =>
    obtain ⟨hle, hrest⟩ := List.isChain_cons_cons.mp hsorted
    have hid : id < 2 ^ 64 := hids id List.mem_cons_self
    have ih := ih (fun b hb => hids b (List.mem_cons_of_mem _ hb)) hrest
    rw [deltasFrom, decodeFrom, wrappingAdd_delta hle hid, List.cons.injEq, SmallGaps,
      List.isChain_cons_cons]
    by_cases hgap : id - previous ≤ 65535
    · rw [(add_min_eq_iff hle).mpr hgap, ih]
      exact and_congr_left fun _ => iff_of_true rfl hgap
    · exact iff_of_false (fun h => hgap ((add_min_eq_iff hle).mp h.1)) fun h => hgap h.1

theorem isEmpty_fromSorted_cons (base : VectorId) (ids : List VectorId) :
    (fromSorted (base :: ids)).isEmpty = (base :: ids).isEmpty ↔ base :: ids ≠ [0] := by
  cases ids with
  | nil =>
    show (base == 0) = false ↔ [base] ≠ [0]
    simp
  | cons id ids => exact iff_of_true rfl (by simp)

/-- The encoding loses nothing of a sorted list when there is one, it is not that of the id zero
alone, and no gap was clamped. -/
theorem lossless_iff (neighbors : List VectorId) (hids : ∀ id ∈ neighbors, id < 2 ^ 64)
    (hsorted : neighbors.Pairwise (· ≤ ·)) :
    Lossless neighbors ↔ neighbors ≠ [] ∧ neighbors ≠ [0] ∧ SmallGaps neighbors := by
  cases neighbors with
  | nil => exact iff_of_false (fun h => absurd h.decode (by decide)) fun h => h.1 rfl
  | cons base ids =>
    have hdecode : (fromSorted (base :: ids)).decode = base :: ids ↔ SmallGaps (base :: ids) := by
      show base :: decodeFrom base (deltasFrom base ids) = base :: ids ↔ SmallGaps (base :: ids)
      rw [List.cons.injEq, and_iff_right rfl]
      exact decodeFrom_deltasFrom_iff (fun id hid => hids id (List.mem_cons_of_mem _ hid))
        (List.isChain_iff_pairwise.mpr hsorted)
    have hlen : (fromSorted (base :: ids)).len = (base :: ids).length := by
      rw [fromSorted, len, length_deltasFrom, List.length_cons]
    rw [← hdecode, ← isEmpty_fromSorted_cons base ids]
    exact ⟨fun h => ⟨List.cons_ne_nil base ids, h.isEmpty, h.decode⟩,
      fun h => ⟨h.2.2, hlen, h.2.1⟩⟩

theorem lossless_iff_even :
    Lossless [100, 105, 110, 115, 120] ↔
      [100, 105, 110, 115, 120] ≠ ([] : List VectorId) ∧
        [100, 105, 110, 115, 120] ≠ ([0] : List VectorId) ∧ SmallGaps [100, 105, 110, 115, 120] :=
  lossless_iff [100, 105, 110, 115, 120] (by decide) (by decide)

/-- A gap of 65536 comes back as one of 65535, the empty list as that of the id zero, and that of
the id zero counts as empty. -/
theorem not_lossless_wide :
    (fromSorted [0, 65536]).decode = [0, 65535] ∧ (fromSorted []).decode = [0] ∧
      (fromSorted [0]).isEmpty = true ∧ ¬Lossless [0, 65536] ∧ ¬Lossless [] ∧ ¬Lossless [0] := by
  refine ⟨by decide, by decide, by decide, fun h => ?_, fun h => ?_, fun h => ?_⟩
  · exact absurd h.decode (by decide)
  · exact absurd h.decode (by decide)
  · exact absurd h.isEmpty (by decide)

end DeltaEncodedNeighbors

end Index
end RTDB
