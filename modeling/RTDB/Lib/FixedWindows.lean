import Mathlib.Algebra.GroupWithZero.Nat
import Mathlib.Data.List.Chain
import Mathlib.Order.Lattice

/-!
# Fixed windows

Calls in windows of one duration: a window starts with the first call that the one before it does
not cover.  A counter that starts anew with each window lets the first calls of every window
through.  How many that are within any stretch of that duration is a matter of neighboring windows.
-/

namespace RTDB
namespace FixedWindows

structure Window where
  start : Nat
  others : List Nat
  deriving DecidableEq, Repr

namespace Window

def calls (w : Window) : List Nat := w.start :: w.others

/-- The call that starts a window is let through without asking. -/
def admitted (limit : Nat) (w : Window) : List Nat := w.calls.take (max 1 limit)

end Window

/-- The newest window comes first. -/
def place (duration : Nat) (ws : List Window) (t : Nat) : List Window :=
  match ws with
  | [] => [{ start := t, others := [] }]
  | w :: older =>
    if duration ≤ t - w.start then { start := t, others := [] } :: w :: older
    else { w with others := w.others ++ [t] } :: older

def windows (duration : Nat) (times : List Nat) : List Window := times.foldl (place duration) []

theorem windows_concat (duration : Nat) (times : List Nat) (t : Nat) :
    windows duration (times ++ [t]) = place duration (windows duration times) t := by
  rw [windows, List.foldl_append, ← windows]
  rfl

theorem windows_eq_nil_iff {duration : Nat} {times : List Nat} :
    windows duration times = [] ↔ times = [] := by
  rcases List.eq_nil_or_concat times with rfl | ⟨front, t, rfl⟩
  · exact iff_of_true rfl rfl
  · rw [List.concat_eq_append, windows_concat]
    refine iff_of_false ?_ (by simp)
    cases windows duration front with
    | nil => simp [place]
    | cons w older =>
      simp only [place]
      split <;> simp

/-! ## Where the windows lie -/

/-- Windows with all their calls, none of them later than `last`. -/
structure Placed (duration last : Nat) (ws : List Window) : Prop where
  covers : ∀ w ∈ ws, ∀ t ∈ w.others, w.start ≤ t ∧ t - w.start < duration
  apart : ws.Pairwise fun later earlier => earlier.start + duration ≤ later.start
  started : ∀ w ∈ ws, w.start ≤ last

theorem placed_nil (duration last : Nat) : Placed duration last [] :=
  ⟨by simp, List.Pairwise.nil, by simp⟩

theorem Placed.later {duration last last' : Nat} {ws : List Window}
    (hws : Placed duration last ws) (hlast : last ≤ last') : Placed duration last' ws :=
  ⟨hws.covers, hws.apart, fun w hw => (hws.started w hw).trans hlast⟩

theorem Placed.place {duration last t : Nat} {ws : List Window} (hws : Placed duration last ws)
    (hlast : last ≤ t) : Placed duration t (place duration ws t) := by
  obtain ⟨hcovers, hapart, hstarted⟩ := hws
  cases ws with
  | nil =>
    refine ⟨?_, List.pairwise_singleton _ _, ?_⟩
    · intro w hw
      rw [List.mem_singleton.mp hw]
      exact fun t ht => absurd ht List.not_mem_nil
    · intro w hw
      rw [List.mem_singleton.mp hw]
  | cons w older =>
    rw [FixedWindows.place]
    have hstart : w.start ≤ t := (hstarted w List.mem_cons_self).trans hlast
    obtain ⟨hbehind, holder⟩ := List.pairwise_cons.mp hapart
    split
    · rename_i hover
      refine ⟨?_, ?_, ?_⟩
      · refine List.forall_mem_cons.mpr ⟨?_, hcovers⟩
        exact fun t ht => absurd ht List.not_mem_nil
      · refine List.pairwise_cons.mpr ⟨fun earlier hearlier => ?_, hapart⟩
        show earlier.start + duration ≤ t
        rcases List.mem_cons.mp hearlier with rfl | hearlier
        · omega
        · have hfar := hbehind earlier hearlier
          omega
      · exact List.forall_mem_cons.mpr ⟨le_rfl, fun w hw => (hstarted w hw).trans hlast⟩
    · rename_i hcovered
      refine ⟨?_, ?_, ?_⟩
      · obtain ⟨hfirst, hrest⟩ := List.forall_mem_cons.mp hcovers
        refine List.forall_mem_cons.mpr ⟨fun t' ht' => ?_, hrest⟩
        rcases List.mem_append.mp ht' with hmem | hlast'
        · exact hfirst t' hmem
        · rw [List.mem_singleton.mp hlast']
          exact ⟨hstart, Nat.lt_of_not_le hcovered⟩
      · exact List.pairwise_cons.mpr ⟨hbehind, holder⟩
      · obtain ⟨hfirst, hrest⟩ := List.forall_mem_cons.mp hstarted
        exact List.forall_mem_cons.mpr
          ⟨hfirst.trans hlast, fun w hw => (hrest w hw).trans hlast⟩

/-! ## How much is let through -/

def within (duration a t : Nat) : Bool := a ≤ t ∧ t < a + duration

def Window.load (limit duration a : Nat) (w : Window) : Nat :=
  (w.admitted limit).countP (within duration a)

def load (limit duration a : Nat) (ws : List Window) : Nat :=
  (ws.map (Window.load limit duration a)).sum

section Load

variable {limit duration a last : Nat} {ws : List Window}

theorem Window.load_le (w : Window) : w.load limit duration a ≤ max 1 limit :=
  List.countP_le_length.trans (List.length_take_le _ _)

theorem Window.load_eq_zero {w : Window} (hduration : 0 < duration)
    (hcovers : ∀ t ∈ w.others, w.start ≤ t ∧ t - w.start < duration)
    (hbefore : w.start + duration ≤ a) : w.load limit duration a = 0 := by
  refine List.countP_eq_zero.mpr fun t ht => ?_
  have hearly : t < a := by
    rcases List.mem_cons.mp (List.mem_of_mem_take ht) with rfl | hmem
    · omega
    · have hcovered := hcovers t hmem
      omega
  simp only [within, decide_eq_true_eq]
  omega

theorem Window.start_lt_of_load {w : Window}
    (hcovers : ∀ t ∈ w.others, w.start ≤ t ∧ t - w.start < duration)
    (hload : w.load limit duration a ≠ 0) : w.start < a + duration := by
  obtain ⟨t, ht, hwithin⟩ := List.countP_pos_iff.mp (Nat.pos_of_ne_zero hload)
  simp only [within, decide_eq_true_eq] at hwithin
  rcases List.mem_cons.mp (List.mem_of_mem_take ht) with rfl | hmem
  · exact hwithin.2
  · exact (hcovers t hmem).1.trans_lt hwithin.2

theorem load_cons (w : Window) (older : List Window) :
    load limit duration a (w :: older) = w.load limit duration a + load limit duration a older := by
  rw [load, List.map_cons, List.sum_cons, ← load]

theorem load_eq_zero_iff : load limit duration a ws = 0 ↔ ∀ w ∈ ws, w.load limit duration a = 0 := by
  induction ws with
  | nil => exact iff_of_true rfl (by simp)
  | cons w older ih => rw [load_cons, Nat.add_eq_zero_iff, ih, List.forall_mem_cons]

/-- Neighboring windows let no more through together than one may. -/
def Spaced (limit duration : Nat) (ws : List Window) : Prop :=
  ws.IsChain fun later earlier =>
    ∀ a, later.load limit duration a + earlier.load limit duration a ≤ limit

theorem load_le_of_spaced (hduration : 0 < duration) (hlimit : 0 < limit)
    (hws : Placed duration last ws) (hspaced : Spaced limit duration ws) :
    load limit duration a ws ≤ limit := by
  obtain ⟨hcovers, hapart, -⟩ := hws
  induction ws with
  | nil => exact Nat.zero_le _
  | cons later ws ih =>
    obtain ⟨hcovers', hrest⟩ := List.forall_mem_cons.mp hcovers
    have htail : Spaced limit duration ws := List.IsChain.tail hspaced
    have hone : later.load limit duration a ≤ max 1 limit := later.load_le
    rw [max_eq_right hlimit] at hone
    rw [load_cons]
    by_cases hnone : later.load limit duration a = 0
    · rw [hnone, Nat.zero_add]
      exact ih htail hrest (List.pairwise_cons.mp hapart).2
    · cases ws with
      | nil => exact hone
      | cons earlier ws =>
        -- Only the window just before the newest can reach into the stretch.
        have hstart := Window.start_lt_of_load hcovers' hnone
        have hpair := (List.isChain_cons_cons.mp hspaced).1 a
        obtain ⟨hnear, hapart'⟩ := List.pairwise_cons.mp hapart
        have hzero : load limit duration a ws = 0 := by
          refine load_eq_zero_iff.mpr fun w hw => ?_
          refine Window.load_eq_zero hduration (hrest w (List.mem_cons_of_mem _ hw)) ?_
          have hfar := (List.pairwise_cons.mp hapart').1 w hw
          have hgap := hnear earlier List.mem_cons_self
          omega
        rw [load_cons, hzero]
        exact hpair

theorem spaced_of_load_le (hload : ∀ a, load limit duration a ws ≤ limit) :
    Spaced limit duration ws := by
  induction ws with
  | nil => exact List.isChain_nil
  | cons later ws ih =>
    have hrest : Spaced limit duration ws := ih fun a => by
      have hle := hload a
      rw [load_cons] at hle
      omega
    cases ws with
    | nil => exact List.isChain_singleton _
    | cons earlier ws =>
      refine List.isChain_cons_cons.mpr ⟨fun a => ?_, hrest⟩
      have hle := hload a
      rw [load_cons, load_cons] at hle
      omega

/-- A counter that starts anew with each window and counts up to the limit lets the call through. -/
def takes (limit duration : Nat) (ws : List Window) (t : Nat) : Bool :=
  match ws with
  | [] => true
  | w :: _ => duration ≤ t - w.start || (w.admitted limit).length < limit

theorem Window.length_admitted (w : Window) :
    (w.admitted limit).length = min (max 1 limit) (w.others.length + 1) := by
  rw [admitted, List.length_take, calls, List.length_cons]

theorem Window.admitted_concat (w : Window) (t : Nat) :
    ({ w with others := w.others ++ [t] } : Window).admitted limit =
      w.admitted limit ++ if (w.admitted limit).length < limit then [t] else [] := by
  have hlength : (w.admitted limit).length = min (max 1 limit) (w.others.length + 1) :=
    w.length_admitted
  show (w.calls ++ [t]).take (max 1 limit) = _
  rw [List.take_append, ← admitted]
  congr 1
  have hcalls : w.calls.length = w.others.length + 1 := rfl
  split
  · rename_i hroom
    have hleft : 1 ≤ max 1 limit - w.calls.length := by omega
    exact List.take_of_length_le hleft
  · rename_i hfull
    have hnone : max 1 limit - w.calls.length = 0 := by omega
    rw [hnone, List.take_zero]

theorem load_place (t : Nat) : load limit duration a (place duration ws t) =
    load limit duration a ws + if takes limit duration ws t && within duration a t then 1 else 0 := by
  have hnew : ∀ older, load limit duration a ({ start := t, others := [] } :: older) =
      load limit duration a older + if within duration a t then 1 else 0 := by
    intro older
    have hone : ({ start := t, others := [] } : Window).admitted limit = [t] :=
      List.take_of_length_le (le_max_left 1 limit)
    rw [load_cons, Window.load, hone, List.countP_singleton, Nat.add_comm]
  cases ws with
  | nil => exact hnew []
  | cons w older =>
    rw [place, takes]
    split
    · rename_i hover
      rw [hnew, decide_eq_true hover, Bool.true_or, Bool.true_and]
    · rename_i hcovered
      rw [decide_eq_false hcovered, Bool.false_or, load_cons, load_cons, Window.load,
        Window.admitted_concat, List.countP_append, ← Window.load]
      split
      · rename_i hroom
        rw [decide_eq_true hroom, Bool.true_and, List.countP_singleton]
        omega
      · rename_i hfull
        rw [decide_eq_false hfull, Bool.false_and, List.countP_nil, if_neg Bool.false_ne_true]
        rfl

/-- What is turned away comes after as many calls of its window as there may be. -/
theorem exists_load_of_not_takes {t : Nat} (hws : Placed duration last ws)
    (htakes : takes limit duration ws t = false) :
    ∃ a, t < a + duration ∧ limit ≤ load limit duration a ws := by
  cases ws with
  | nil => exact absurd htakes (by simp [takes])
  | cons w older =>
    simp only [takes, Bool.or_eq_false_iff, decide_eq_false_iff_not] at htakes
    obtain ⟨hcovered, hfull⟩ := htakes
    have hall : w.load limit duration w.start = (w.admitted limit).length := by
      refine List.countP_eq_length.mpr fun t' ht' => ?_
      simp only [within, decide_eq_true_eq]
      rcases List.mem_cons.mp (List.mem_of_mem_take ht') with rfl | hmem
      · omega
      · have hcalled := hws.covers w List.mem_cons_self t' hmem
        omega
    refine ⟨w.start, by omega, ?_⟩
    rw [load_cons, hall]
    omega

/-- The call that starts a window counts against the limit as well. -/
theorem pos_of_load_le (hduration : 0 < duration) (hws : ws ≠ [])
    (hload : ∀ a, load limit duration a ws ≤ limit) : 0 < limit := by
  cases ws with
  | nil => exact absurd rfl hws
  | cons w older =>
    have hle := hload w.start
    have hpos : 0 < w.load limit duration w.start := by
      refine List.countP_pos_iff.mpr ⟨w.start, ?_, ?_⟩
      · rw [Window.admitted, Window.calls, ← Nat.sub_add_cancel (le_max_left 1 limit)]
        exact List.mem_cons_self
      · simp only [within, decide_eq_true_eq]
        omega
    rw [load_cons] at hle
    omega

end Load

end FixedWindows
end RTDB
