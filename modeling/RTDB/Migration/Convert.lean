import RTDB.Lib.Batches
import RTDB.Migration.Types

/-!
# Format conversion

`FormatConverter::convert` of `migration/formats.rs`, over any reader and any writer.
-/

namespace RTDB
namespace Migration

open Batches Storage

variable {F W : Type}

/-- A boxed `FormatReader`. -/
structure FormatReader (F : Type) where
  State : Type
  start : State
  readBatch : Nat → State → Except Error (List (VectorRecord F) × State)

structure FormatWriter (W F : Type) where
  writeBatch : W → List (VectorRecord F) → Except Error W
  finalize : W → Except Error W

structure InputFile where
  bytes : List UInt8
  /-- The length of a file is an `i64`. -/
  fits : bytes.length < 2 ^ 63

namespace FormatConverter

variable (reader : FormatReader F) (writer : FormatWriter W F) (batchSize : Nat)

/-- The loop of `convert`, for so many rounds at most. -/
def convertLoop : Nat → reader.State → W → Nat → Option (Except Error (Nat × W))
  | 0, _, _, _ => none
  | rounds + 1, state, w, totalConverted =>
    match reader.readBatch batchSize state with
    | .error e => some (.error e)
    | .ok (batch, state) =>
      if batch.isEmpty then some ((writer.finalize w).map fun w => (totalConverted, w))
      else
        match writer.writeBatch w batch with
        | .error e => some (.error e)
        | .ok w => convertLoop rounds state w (wrappingAdd totalConverted batch.length)

def convert (rounds : Nat) (w : W) : Option (Except Error (Nat × W)) :=
  convertLoop reader writer batchSize rounds reader.start w 0

end FormatConverter

namespace FormatWriter

/-- Nothing that is written fails. -/
structure Takes (writer : FormatWriter W F) : Prop where
  writes : ∀ w batch, ∃ w', writer.writeBatch w batch = .ok w'
  finalizes : ∀ w, ∃ w', writer.finalize w = .ok w'

def written (writer : FormatWriter W F) : W → List (List (VectorRecord F)) → Except Error W
  | w, [] => writer.finalize w
  | w, batch :: batches => do
    let w ← writer.writeBatch w batch
    written writer w batches

def keeping : FormatWriter (List (List (VectorRecord F))) F where
  writeBatch w batch := .ok (w ++ [batch])
  finalize w := .ok w

theorem keeping_takes : (keeping (F := F)).Takes where
  writes _ _ := ⟨_, rfl⟩
  finalizes _ := ⟨_, rfl⟩

theorem written_keeping (w batches : List (List (VectorRecord F))) :
    keeping.written w batches = .ok (w ++ batches) := by
  induction batches generalizing w with
  | nil => rw [List.append_nil, written, keeping]
  | cons batch batches ih =>
    show keeping.written (w ++ [batch]) batches = _
    rw [ih, List.append_assoc, List.singleton_append]

end FormatWriter

/-- Whatever writer takes them, the records and no others reach it, in order, and are counted. -/
def Transfers (reader : FormatReader F) (batchSize : Nat) (records : List (VectorRecord F)) : Prop :=
  ∀ (W : Type) (writer : FormatWriter W F) (w : W), writer.Takes →
    ∃ rounds batches last, batches.flatten = records ∧ writer.written w batches = .ok last ∧
      FormatConverter.convert reader writer batchSize rounds w = some (.ok (records.length, last))

namespace FormatConverter

variable {reader : FormatReader F} {writer : FormatWriter W F} {batchSize : Nat} {state : reader.State}
  {batches : List (List (VectorRecord F))}

theorem convertLoop_of_delivers (htakes : writer.Takes)
    (hbatches : Delivers (reader.readBatch batchSize) state batches) (w : W) {total : Nat}
    (hfits : total + batches.flatten.length < 2 ^ 64) :
    ∃ last, writer.written w batches = .ok last ∧
      convertLoop reader writer batchSize (batches.length + 1) state w total =
        some (.ok (total + batches.flatten.length, last)) := by
  induction hbatches generalizing w total with
  | done hread =>
    obtain ⟨last, hlast⟩ := htakes.finalizes w
    refine ⟨last, hlast, ?_⟩
    simp only [convertLoop, hread, List.isEmpty_nil, if_true, hlast]
    rfl
  | @more state state' batch batches hread hne hrest ih =>
    obtain ⟨w', hwrite⟩ := htakes.writes w batch
    rw [List.flatten_cons, List.length_append] at hfits ⊢
    have htotal : wrappingAdd total batch.length = total + batch.length := wrappingAdd_eq (by omega)
    obtain ⟨last, hlast, hloop⟩ :=
      ih w' (show total + batch.length + batches.flatten.length < _ by omega)
    refine ⟨last, ?_, ?_⟩
    · rw [FormatWriter.written, hwrite]
      exact hlast
    · rw [List.length_cons, convertLoop, hread]
      simp only [List.isEmpty_iff, hne, if_false, hwrite, htotal, hloop]
      rw [Nat.add_assoc]

/-- A conversion that comes to its end has read up to an empty batch. -/
theorem delivers_of_convertLoop {rounds total count : Nat} {w last : List (List (VectorRecord F))}
    (hloop : convertLoop reader FormatWriter.keeping batchSize rounds state w total =
      some (.ok (count, last))) :
    ∃ batches, Delivers (reader.readBatch batchSize) state batches ∧ last = w ++ batches := by
  induction rounds generalizing state w total with
  | zero => exact absurd hloop (by simp [convertLoop])
  | succ rounds ih =>
    rw [convertLoop] at hloop
    cases hread : reader.readBatch batchSize state with
    | error e =>
      rw [hread] at hloop
      exact absurd hloop (by simp)
    | ok r =>
      obtain ⟨batch, state'⟩ := r
      simp only [hread] at hloop
      split at hloop
      · next hempty =>
        obtain rfl := List.isEmpty_iff.mp hempty
        obtain ⟨-, rfl⟩ := Prod.mk.inj (Except.ok.inj (Option.some.inj hloop))
        exact ⟨[], .done hread, (List.append_nil _).symm⟩
      · next hempty =>
        obtain ⟨batches, hbatches, rfl⟩ := ih hloop
        have hne : batch ≠ [] := fun hnil => hempty (List.isEmpty_iff.mpr hnil)
        refine ⟨batch :: batches, .more hread hne hbatches, ?_⟩
        rw [List.append_assoc, List.singleton_append]

/-- A conversion transfers what the reader delivers. -/
theorem transfers_iff {records : List (VectorRecord F)} (hfits : records.length < 2 ^ 64) :
    Transfers reader batchSize records ↔
      ∃ batches, Delivers (reader.readBatch batchSize) reader.start batches ∧
        batches.flatten = records := by
  constructor
  · intro htransfers
    obtain ⟨rounds, batches, last, rfl, hwritten, hconvert⟩ :=
      htransfers _ FormatWriter.keeping [] FormatWriter.keeping_takes
    obtain ⟨delivered, hdelivered, hlast⟩ := delivers_of_convertLoop hconvert
    rw [FormatWriter.written_keeping, hlast] at hwritten
    obtain rfl : batches = delivered := Except.ok.inj hwritten
    exact ⟨batches, hdelivered, rfl⟩
  · rintro ⟨batches, hbatches, rfl⟩ W writer w htakes
    obtain ⟨last, hlast, hloop⟩ := convertLoop_of_delivers htakes hbatches w
      (show 0 + batches.flatten.length < 2 ^ 64 by omega)
    rw [Nat.zero_add] at hloop
    exact ⟨batches.length + 1, batches, last, rfl, hlast, hloop⟩

end FormatConverter
end Migration
end RTDB
