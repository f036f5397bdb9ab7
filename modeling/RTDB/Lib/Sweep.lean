import Mathlib.Data.List.Induction
import Mathlib.Data.List.Pairwise
import Mathlib.Logic.Relation
import Mathlib.Order.BoundedOrder.Basic
import Mathlib.Order.Bounds.Basic
import Mathlib.Order.Lattice

/-!
# Sweeping over intervals

Intervals are taken in the order of their left ends.  One that starts no later than the current
group ends joins the group; any other closes it.  The groups are the classes of intervals that
chains of overlapping ones connect.
-/

namespace RTDB
namespace Sweep

/-- The closed groups with their ends, and the group that is open. -/
structure State (α T : Type) where
  groups : List (List α × T)
  current : List α
  stop : T

section Sweep

variable {α T : Type} [LinearOrder T] [OrderBot T] (lo hi : α → T)

def start : State α T := { groups := [], current := [], stop := ⊥ }

def step (s : State α T) (a : α) : State α T :=
  if s.current = [] ∨ lo a ≤ s.stop then
    { s with current := s.current ++ [a], stop := max s.stop (hi a) }
  else { groups := s.groups ++ [(s.current, s.stop)], current := [a], stop := hi a }

def sweep (l : List α) : State α T := l.foldl (step lo hi) start

/-- All groups, the open one last. -/
def State.parts (s : State α T) : List (List α × T) := s.groups ++ [(s.current, s.stop)]

/-- Two intervals of the list that have a point in common. -/
def Touch (l : List α) (a b : α) : Prop := a ∈ l ∧ b ∈ l ∧ lo a ≤ hi b ∧ lo b ≤ hi a

/-- Chains of intervals that touch. -/
abbrev Joined (l : List α) : α → α → Prop := Relation.ReflTransGen (Touch lo hi l)

variable {lo hi} {l : List α} {a b : α} {s : State α T} {g : List α × T}

theorem sweep_concat (lo hi : α → T) (l : List α) (a : α) :
    sweep lo hi (l ++ [a]) = step lo hi (sweep lo hi l) a := by
  rw [sweep, List.foldl_append]
  rfl

theorem mem_of_current (ha : a ∈ (sweep lo hi l).current) : a ∈ l := by
  induction l using List.reverseRecOn with
  | nil => exact absurd ha List.not_mem_nil
  | append_singleton l b ih =>
    rw [sweep_concat, step] at ha
    split_ifs at ha
    · rcases List.mem_append.mp ha with ha | ha
      · exact List.mem_append_left _ (ih ha)
      · exact List.mem_append_right _ ha
    · exact List.mem_append_right _ ha

omit [OrderBot T] in
theorem Touch.symm (htouch : Touch lo hi l a b) : Touch lo hi l b a :=
  ⟨htouch.2.1, htouch.1, htouch.2.2.2, htouch.2.2.1⟩

omit [OrderBot T] in
theorem Touch.concat (htouch : Touch lo hi l a b) (c : α) : Touch lo hi (l ++ [c]) a b :=
  ⟨List.mem_append_left _ htouch.1, List.mem_append_left _ htouch.2.1, htouch.2.2⟩

omit [OrderBot T] in
theorem joined_concat (hjoined : Joined lo hi l a b) (c : α) : Joined lo hi (l ++ [c]) a b :=
  hjoined.lift id fun _ _ htouch => htouch.concat c

/-- Groups partition what was swept in order, each ends with the last of its intervals and holds
what chains connect, and an earlier one ends before a later one starts. -/
structure Swept (lo hi : α → T) (l : List α) (s : State α T) : Prop where
  members : (s.parts.map Prod.fst).flatten = l
  stops : ∀ g ∈ s.parts, g.1 ≠ [] → IsGreatest {t | ∃ a ∈ g.1, hi a = t} g.2
  joined : ∀ g ∈ s.parts, ∀ a ∈ g.1, ∀ b ∈ g.1, Joined lo hi l a b
  apart : s.parts.Pairwise fun g g' => ∀ a ∈ g.1, ∀ b ∈ g'.1, hi a < lo b
  fresh : s.current = [] → s.groups = [] ∧ s.stop = ⊥

theorem swept_start : Swept lo hi [] start where
  members := rfl
  stops := by
    intro g hg hne
    rw [List.mem_singleton.mp hg] at hne
    exact absurd rfl hne
  joined := by
    intro g hg a ha
    rw [List.mem_singleton.mp hg] at ha
    exact absurd ha List.not_mem_nil
  apart := List.pairwise_singleton _ _
  fresh := fun _ => ⟨rfl, rfl⟩

theorem mem_of_parts (hs : Swept lo hi l s) (hg : g ∈ s.parts) (ha : a ∈ g.1) : a ∈ l := by
  rw [← hs.members]
  exact List.mem_flatten.mpr ⟨g.1, List.mem_map_of_mem hg, ha⟩

theorem Swept.first (hs : Swept lo hi l s) (hcurrent : s.current = []) (a : α) :
    Swept lo hi (l ++ [a]) { s with current := s.current ++ [a], stop := max s.stop (hi a) } := by
  obtain ⟨hgroups, hstop⟩ := hs.fresh hcurrent
  have hl : l = [] := by
    rw [← hs.members, State.parts, hgroups, hcurrent]
    rfl
  have hparts : ∀ g ∈ s.groups ++ [(s.current ++ [a], max s.stop (hi a))], g = ([a], hi a) := by
    intro g hg
    rw [hgroups, hcurrent, hstop, bot_sup_eq] at hg
    exact List.mem_singleton.mp hg
  refine ⟨?_, fun g hg _ => ?_, fun g hg x hx y hy => ?_, ?_, fun hnil => ?_⟩
  · rw [State.parts, hgroups, hcurrent, hl]
    rfl
  · rw [hparts g hg]
    refine ⟨⟨a, List.mem_cons_self, rfl⟩, fun t ht => ?_⟩
    obtain ⟨b, hb, rfl⟩ := ht
    rw [List.mem_singleton.mp hb]
  · rw [hparts g hg] at hx hy
    rw [List.mem_singleton.mp hx, List.mem_singleton.mp hy]
  · rw [State.parts, hgroups]
    exact List.pairwise_singleton _ _
  · exact absurd hnil (by simp)

/-- An interval that starts no later than the open group ends joins it. -/
theorem Swept.join (hs : Swept lo hi l s) (hinterval : lo a ≤ hi a) (hlo : ∀ b ∈ l, lo b ≤ lo a)
    (hcurrent : s.current ≠ []) (hstop : lo a ≤ s.stop) :
    Swept lo hi (l ++ [a]) { s with current := s.current ++ [a], stop := max s.stop (hi a) } := by
  have hopen : (s.current, s.stop) ∈ s.parts := List.mem_append_right _ List.mem_cons_self
  obtain ⟨⟨c, hc, hlast⟩, hgreatest⟩ := hs.stops _ hopen hcurrent
  have hcl : c ∈ l := mem_of_parts hs hopen hc
  -- The interval touches the one that ends last in the group.
  have htouch : Touch lo hi (l ++ [a]) c a :=
    ⟨List.mem_append_left _ hcl, List.mem_append_right _ List.mem_cons_self,
      (hlo c hcl).trans hinterval, hstop.trans (le_of_eq hlast.symm)⟩
  have hold : ∀ g ∈ s.parts, ∀ x ∈ g.1, ∀ y ∈ g.1, Joined lo hi (l ++ [a]) x y :=
    fun g hg x hx y hy => joined_concat (hs.joined g hg x hx y hy) a
  have hapart := hs.apart
  rw [State.parts, List.pairwise_append] at hapart
  refine ⟨?_, fun g hg hne => ?_, fun g hg x hx y hy => ?_, ?_, fun hnil => ?_⟩
  · rw [← hs.members, State.parts, State.parts]
    simp
  · rcases List.mem_append.mp hg with hg | hg
    · exact hs.stops g (List.mem_append_left _ hg) hne
    · rw [List.mem_singleton.mp hg]
      refine ⟨?_, ?_⟩
      · rcases le_total s.stop (hi a) with hle | hle
        · exact ⟨a, List.mem_append_right _ List.mem_cons_self, (max_eq_right hle).symm⟩
        · exact ⟨c, List.mem_append_left _ hc, hlast.trans (max_eq_left hle).symm⟩
      · rintro t ⟨b, hb, rfl⟩
        rcases List.mem_append.mp hb with hb | hb
        · exact (hgreatest ⟨b, hb, rfl⟩).trans (le_max_left _ _)
        · rw [List.mem_singleton.mp hb]
          exact le_max_right _ _
  · rcases List.mem_append.mp hg with hg | hg
    · exact hold g (List.mem_append_left _ hg) x hx y hy
    · rw [List.mem_singleton.mp hg] at hx hy
      have hto : ∀ z ∈ s.current ++ [a], Joined lo hi (l ++ [a]) z c := by
        intro z hz
        rcases List.mem_append.mp hz with hz | hz
        · exact hold _ hopen z hz c hc
        · rw [List.mem_singleton.mp hz]
          exact Relation.ReflTransGen.single htouch.symm
      have hfrom : ∀ z ∈ s.current ++ [a], Joined lo hi (l ++ [a]) c z := by
        intro z hz
        rcases List.mem_append.mp hz with hz | hz
        · exact hold _ hopen c hc z hz
        · rw [List.mem_singleton.mp hz]
          exact Relation.ReflTransGen.single htouch
      exact (hto x hx).trans (hfrom y hy)
  · rw [State.parts, List.pairwise_append]
    refine ⟨hapart.1, List.pairwise_singleton _ _, fun g hg g' hg' x hx y hy => ?_⟩
    rw [List.mem_singleton.mp hg'] at hy
    have hbefore := hapart.2.2 g hg _ List.mem_cons_self x hx
    rcases List.mem_append.mp hy with hy | hy
    · exact hbefore y hy
    · rw [List.mem_singleton.mp hy]
      exact (hbefore c hc).trans_le (hlo c hcl)
  · exact absurd hnil (by simp)

theorem Swept.close (hs : Swept lo hi l s) (hlo : ∀ b ∈ l, lo b ≤ lo a) (hcurrent : s.current ≠ [])
    (hstop : s.stop < lo a) :
    Swept lo hi (l ++ [a])
      { groups := s.groups ++ [(s.current, s.stop)], current := [a], stop := hi a } := by
  have hopen : (s.current, s.stop) ∈ s.parts := List.mem_append_right _ List.mem_cons_self
  obtain ⟨⟨c, hc, -⟩, hgreatest⟩ := hs.stops _ hopen hcurrent
  refine ⟨?_, fun g hg hne => ?_, fun g hg x hx y hy => ?_, ?_, fun hnil => ?_⟩
  · rw [← hs.members, State.parts, State.parts]
    simp
  · rcases List.mem_append.mp hg with hg | hg
    · exact hs.stops g hg hne
    · rw [List.mem_singleton.mp hg]
      refine ⟨⟨a, List.mem_cons_self, rfl⟩, ?_⟩
      rintro t ⟨b, hb, rfl⟩
      rw [List.mem_singleton.mp hb]
  · rcases List.mem_append.mp hg with hg | hg
    · exact joined_concat (hs.joined g hg x hx y hy) a
    · rw [List.mem_singleton.mp hg] at hx hy
      rw [List.mem_singleton.mp hx, List.mem_singleton.mp hy]
  · rw [State.parts, List.pairwise_append]
    refine ⟨hs.apart, List.pairwise_singleton _ _, fun g hg g' hg' x hx y hy => ?_⟩
    rw [List.mem_singleton.mp hg'] at hy
    rw [List.mem_singleton.mp hy]
    rcases List.mem_append.mp hg with hearlier | hlast
    · have hapart := hs.apart
      rw [State.parts, List.pairwise_append] at hapart
      exact (hapart.2.2 g hearlier _ List.mem_cons_self x hx c hc).trans_le
        (hlo c (mem_of_parts hs hopen hc))
    · rw [List.mem_singleton.mp hlast] at hx
      exact (hgreatest ⟨x, hx, rfl⟩).trans_lt hstop
  · exact absurd hnil (by simp)

theorem swept (hinterval : ∀ a ∈ l, lo a ≤ hi a) (hsorted : l.Pairwise fun a b => lo a ≤ lo b) :
    Swept lo hi l (sweep lo hi l) := by
  induction l using List.reverseRecOn with
  | nil => exact swept_start
  | append_singleton l a ih =>
    obtain ⟨hsorted, -, hlo⟩ := List.pairwise_append.mp hsorted
    have hs := ih (fun b hb => hinterval b (List.mem_append_left _ hb)) hsorted
    have ha := hinterval a (List.mem_append_right _ List.mem_cons_self)
    have hbefore : ∀ b ∈ l, lo b ≤ lo a := fun b hb => hlo b hb a List.mem_cons_self
    rw [sweep_concat, step]
    split_ifs with hjoin
    · by_cases hcurrent : (sweep lo hi l).current = []
      · exact hs.first hcurrent a
      · exact hs.join ha hbefore hcurrent (hjoin.resolve_left hcurrent)
    · rw [not_or, not_le] at hjoin
      exact hs.close hbefore hjoin.1 hjoin.2

theorem Swept.apart_of_ne (hs : Swept lo hi l s) {g' : List α × T} (hg : g ∈ s.parts)
    (hg' : g' ∈ s.parts) (hne : g ≠ g') :
    (∀ a ∈ g.1, ∀ b ∈ g'.1, hi a < lo b) ∨ ∀ a ∈ g'.1, ∀ b ∈ g.1, hi a < lo b := by
  have hsymm : Std.Symm fun g g' : List α × T =>
      (∀ a ∈ g.1, ∀ b ∈ g'.1, hi a < lo b) ∨ ∀ a ∈ g'.1, ∀ b ∈ g.1, hi a < lo b :=
    ⟨fun _ _ => Or.symm⟩
  have hpair : s.parts.Pairwise fun g g' =>
      (∀ a ∈ g.1, ∀ b ∈ g'.1, hi a < lo b) ∨ ∀ a ∈ g'.1, ∀ b ∈ g.1, hi a < lo b :=
    hs.apart.imp Or.inl
  exact hpair.forall hg hg' hne

/-- Groups are the classes of intervals that chains connect. -/
theorem Swept.joined_iff (hs : Swept lo hi l s) (ha : a ∈ l) :
    Joined lo hi l a b ↔ ∃ g ∈ s.parts, a ∈ g.1 ∧ b ∈ g.1 := by
  constructor
  · intro hjoined
    have hpart : ∃ g ∈ s.parts, a ∈ g.1 := by
      rw [← hs.members] at ha
      obtain ⟨part, hpart, ha⟩ := List.mem_flatten.mp ha
      obtain ⟨g, hg, rfl⟩ := List.mem_map.mp hpart
      exact ⟨g, hg, ha⟩
    obtain ⟨g, hg, hag⟩ := hpart
    refine ⟨g, hg, hag, ?_⟩
    clear ha
    induction hjoined with
    | refl => exact hag
    | @tail x y _ htouch ih =>
      obtain ⟨-, hy, hxy, hyx⟩ := htouch
      rw [← hs.members] at hy
      obtain ⟨part, hpart, hy⟩ := List.mem_flatten.mp hy
      obtain ⟨g', hg', rfl⟩ := List.mem_map.mp hpart
      -- Two groups are apart, so intervals that touch are in one.
      by_contra hnot
      have hne : g ≠ g' := fun heq => hnot (heq ▸ hy)
      rcases hs.apart_of_ne hg hg' hne with h | h
      · exact absurd (h x ih y hy) (not_lt.mpr hyx)
      · exact absurd (h y hy x ih) (not_lt.mpr hxy)
  · rintro ⟨g, hg, hag, hbg⟩
    exact hs.joined g hg a hag b hbg

end Sweep

end Sweep
end RTDB
