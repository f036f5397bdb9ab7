import Mathlib.Data.Fintype.Card
import Mathlib.Data.List.Flatten
import Mathlib.Data.Set.Finite.List
import Mathlib.Logic.Relation
import Mathlib.Order.WellFounded

/-!
# Cascades

What an item brings about depends on a choice.  The items come level by level; each is known by the
positions that led to it, and has a choice of its own.  Whatever is chosen, the levels come to an end
exactly when no item starts an endless descent; among finitely many items that is so exactly when
none of those it leads to leads back to itself.
-/

namespace RTDB
namespace Cascade

open Relation

variable {α ω : Type*}

section Levels

variable (next : ω → α → List α) (choice : List Nat → ω)

def below (item : List Nat × α) : List (List Nat × α) :=
  (next (choice item.1) item.2).zipIdx.map fun child => (item.1 ++ [child.2], child.1)

def level (roots : List (List Nat × α)) : Nat → List (List Nat × α)
  | 0 => roots
  | depth + 1 => (level roots depth).flatMap (below next choice)

def numbered (roots : List α) : List (List Nat × α) :=
  roots.zipIdx.map fun root => ([root.2], root.1)

/-- Some level is empty, and with it all that follow. -/
def Ends (roots : List (List Nat × α)) : Prop := ∃ depth, level next choice roots depth = []

variable {next choice}

theorem level_succ (roots : List (List Nat × α)) (depth : Nat) :
    level next choice roots (depth + 1) =
      level next choice (roots.flatMap (below next choice)) depth := by
  induction depth with
  | zero => rfl
  | succ depth ih => rw [level, ih, level]

theorem level_append (roots others : List (List Nat × α)) (depth : Nat) :
    level next choice (roots ++ others) depth =
      level next choice roots depth ++ level next choice others depth := by
  induction depth with
  | zero => rfl
  | succ depth ih => rw [level, level, level, ih, List.flatMap_append]

theorem level_eq_nil_mono {roots : List (List Nat × α)} {depth deeper : Nat}
    (hnil : level next choice roots depth = []) (hle : depth ≤ deeper) :
    level next choice roots deeper = [] := by
  induction hle with
  | refl => exact hnil
  | step _ ih => rw [level, ih, List.flatMap_nil]

theorem ends_of_forall {roots : List (List Nat × α)}
    (hall : ∀ root ∈ roots, Ends next choice [root]) : Ends next choice roots := by
  induction roots with
  | nil => exact ⟨0, rfl⟩
  | cons root roots ih =>
    obtain ⟨depth, hroot⟩ := hall root List.mem_cons_self
    obtain ⟨depth', hroots⟩ := ih fun other hmem => hall other (List.mem_cons_of_mem _ hmem)
    refine ⟨max depth depth', ?_⟩
    rw [← List.singleton_append, level_append, level_eq_nil_mono hroot (Nat.le_max_left _ _),
      level_eq_nil_mono hroots (Nat.le_max_right _ _), List.append_nil]

end Levels

def Follows (next : ω → α → List α) (later item : α) : Prop := ∃ chosen, later ∈ next chosen item

section Ends

variable {next : ω → α → List α}

theorem ends_of_acc {item : α} (hacc : Acc (Follows next) item) (choice : List Nat → ω)
    (path : List Nat) : Ends next choice [(path, item)] := by
  induction hacc generalizing path with
  | intro item _ ih =>
    have hbelow : Ends next choice (below next choice (path, item)) := by
      refine ends_of_forall fun child hchild => ?_
      obtain ⟨⟨later, i⟩, hlater, rfl⟩ := List.mem_map.mp hchild
      exact ih later ⟨_, (List.mem_zipIdx' hlater).2 ▸ List.getElem_mem _⟩ _
    obtain ⟨depth, hdepth⟩ := hbelow
    refine ⟨depth + 1, ?_⟩
    rw [level_succ, List.flatMap_singleton, hdepth]

/-- A descent that does not end, one item after the other with the choices between them. -/
theorem exists_descent {item : α} (hnot : ¬ Acc (Follows next) item) :
    ∃ (items : Nat → α) (chosen : Nat → ω),
      items 0 = item ∧ ∀ n, items (n + 1) ∈ next (chosen n) (items n) := by
  have hnext : ∀ stuck : {a // ¬ Acc (Follows next) a},
      ∃ (later : {a // ¬ Acc (Follows next) a}) (chosen : ω), later.1 ∈ next chosen stuck.1 := by
    rintro ⟨a, ha⟩
    obtain ⟨b, hb, chosen, hmem⟩ := exists_not_acc_lt_of_not_acc ha
    exact ⟨⟨b, hb⟩, chosen, hmem⟩
  choose later chosen hmem using hnext
  let items : Nat → {a // ¬ Acc (Follows next) a} := fun n => later^[n] ⟨item, hnot⟩
  refine ⟨fun n => (items n).1, fun n => chosen (items n), rfl, fun n => ?_⟩
  show (later^[n + 1] ⟨item, hnot⟩).1 ∈ _
  rw [Function.iterate_succ_apply']
  exact hmem _

theorem mem_below (choice : List Nat → ω) {path : List Nat} {item later : α}
    (hlater : later ∈ next (choice path) item) :
    ∃ i, (path ++ [i], later) ∈ below next choice (path, item) := by
  obtain ⟨i, hi, rfl⟩ := List.getElem_of_mem hlater
  exact ⟨i, List.mem_map.mpr ⟨(_, i), List.mk_mem_zipIdx_iff_getElem?.mpr
    (List.getElem?_eq_getElem hi), rfl⟩⟩

/-- The levels end for every choice exactly when no root starts an endless descent. -/
theorem ends_iff {roots : List α} :
    (∀ choice : List Nat → ω, Ends next choice (numbered roots)) ↔
      ∀ root ∈ roots, Acc (Follows next) root := by
  constructor
  · intro hends root hroot
    by_contra hnot
    obtain ⟨items, chosen, hfirst, hdescent⟩ := exists_descent hnot
    obtain ⟨depth, hnil⟩ := hends fun path => chosen (path.length - 1)
    have hin : ∀ n, ∃ path : List Nat, path.length = n + 1 ∧
        (path, items n) ∈ level next (fun path => chosen (path.length - 1)) (numbered roots) n := by
      intro n
      induction n with
      | zero =>
        obtain ⟨i, hi, hget⟩ := List.getElem_of_mem hroot
        refine ⟨[i], rfl, List.mem_map.mpr ⟨(_, i), List.mk_mem_zipIdx_iff_getElem?.mpr
          (List.getElem?_eq_getElem hi), ?_⟩⟩
        rw [hget, hfirst]
      | succ n ih =>
        obtain ⟨path, hlength, hmem⟩ := ih
        have hlater : items (n + 1) ∈ next (chosen (path.length - 1)) (items n) := by
          rw [hlength, Nat.add_sub_cancel]
          exact hdescent n
        obtain ⟨i, hi⟩ := mem_below (fun path => chosen (path.length - 1)) hlater
        refine ⟨path ++ [i], ?_, List.mem_flatMap.mpr ⟨_, hmem, hi⟩⟩
        rw [List.length_append, hlength, List.length_singleton]
    obtain ⟨path, -, hmem⟩ := hin depth
    rw [hnil] at hmem
    exact absurd hmem List.not_mem_nil
  · intro hacc choice
    refine ends_of_forall fun item hitem => ?_
    obtain ⟨⟨root, i⟩, hroot, rfl⟩ := List.mem_map.mp hitem
    exact ends_of_acc (hacc root ((List.mem_zipIdx' hroot).2 ▸ List.getElem_mem _)) choice _

end Ends

/-- Where each step of one relation is matched by the other, its descents are no longer. -/
theorem acc_of_sim {β : Type*} {r : α → α → Prop} {q : β → β → Prop} {S : α → β → Prop}
    (hsim : ∀ a b, S a b → ∀ b', q b b' → ∃ a', r a a' ∧ S a' b') {a : α} {b : β} (hab : S a b)
    (hacc : Acc (fun later item => r item later) a) : Acc (fun later item => q item later) b := by
  induction hacc generalizing b with
  | intro a _ ih =>
    refine Acc.intro b fun b' hb => ?_
    obtain ⟨a', ha, hab'⟩ := hsim a b hab b' hb
    exact ih a' ha hab'

/-! ## Descents in a graph -/

section Cycles

variable {edge : α → α → Prop}

/-- No item that the first one leads to leads back to itself. -/
def NoLoop (edge : α → α → Prop) (item : α) : Prop :=
  ∀ later, ReflTransGen edge item later → ¬ TransGen edge later later

theorem noLoop_of_acc {item : α} (hacc : Acc (fun later item => edge item later) item) :
    NoLoop edge item := by
  induction hacc with
  | intro item _ ih =>
    intro later hreach hcycle
    rcases ReflTransGen.cases_head hreach with rfl | ⟨first, hfirst, hrest⟩
    · obtain ⟨first, hfirst, hback⟩ := TransGen.head'_iff.mp hcycle
      exact ih first hfirst _ hback hcycle
    · exact ih first hfirst later hrest hcycle

/-- Where only finitely many items lead on, an endless descent comes back to an item. -/
theorem acc_iff_noLoop {members : List α} (hmembers : ∀ item later, edge item later → item ∈ members)
    (item : α) : Acc (fun later item => edge item later) item ↔ NoLoop edge item := by
  refine ⟨noLoop_of_acc, fun hnone => ?_⟩
  let Reached := {a // a ∈ members ∧ ReflTransGen edge item a}
  have hfinite : Finite Reached :=
    ((List.finite_toSet members).subset fun _ ha => ha.1 : {a | a ∈ members ∧ _}.Finite).to_subtype
  let farther : Reached → Reached → Prop := fun a b => TransGen edge b.1 a.1
  have htrans : IsTrans Reached farther := ⟨fun _ _ _ hab hbc => hbc.trans hab⟩
  have hirrefl : Std.Irrefl farther := ⟨fun a => hnone a.1 a.2.2⟩
  have hwf : WellFounded farther := Finite.wellFounded_of_trans_of_irrefl farther
  have hleaf : ∀ a, a ∉ members → Acc (fun later item => edge item later) a :=
    fun a ha => Acc.intro a fun later hedge => absurd (hmembers a later hedge) ha
  have hreached : ∀ a : Reached, Acc (fun later item => edge item later) a.1 := by
    intro a
    induction a using hwf.induction with
    | h a ih =>
      refine Acc.intro a.1 fun later hedge => ?_
      by_cases hmem : later ∈ members
      · exact ih ⟨later, hmem, a.2.2.tail hedge⟩ (TransGen.single hedge)
      · exact hleaf later hmem
  by_cases hmem : item ∈ members
  · exact hreached ⟨item, hmem, ReflTransGen.refl⟩
  · exact hleaf item hmem

end Cycles

end Cascade
end RTDB
