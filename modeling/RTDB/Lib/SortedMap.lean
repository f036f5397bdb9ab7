import Mathlib.Data.List.Nodup
import Mathlib.Order.Lattice

/-!
# Sorted maps

A map kept as a list of entries with strictly increasing keys, so that equal contents
are equal maps.  Reading it as a ring, a point belongs to the first entry at or after it,
or to the very first one.
-/

namespace RTDB

structure SortedMap (K V : Type) [LinearOrder K] where
  entries : List (K × V)
  sorted : entries.Pairwise fun a b => a.1 < b.1
  deriving DecidableEq

namespace SortedMap

variable {K V : Type} [LinearOrder K]

def empty : SortedMap K V := { entries := [], sorted := List.Pairwise.nil }

def filter (keep : K × V → Bool) (m : SortedMap K V) : SortedMap K V :=
  { entries := m.entries.filter keep, sorted := m.sorted.sublist List.filter_sublist }

def insert (k : K) (v : V) (m : SortedMap K V) : SortedMap K V :=
  { entries := m.entries.filter (fun e => e.1 < k) ++ (k, v) :: m.entries.filter (fun e => k < e.1)
    sorted := by
      have hbelow : ∀ e ∈ m.entries.filter (fun e => e.1 < k), e.1 < k := fun e he => by
        simpa using (List.mem_filter.mp he).2
      have habove : ∀ e ∈ m.entries.filter (fun e => k < e.1), k < e.1 := fun e he => by
        simpa using (List.mem_filter.mp he).2
      refine List.pairwise_append.mpr ⟨m.sorted.sublist List.filter_sublist,
        List.pairwise_cons.mpr ⟨habove, m.sorted.sublist List.filter_sublist⟩, fun a ha b hb => ?_⟩
      rcases List.mem_cons.mp hb with rfl | hb
      · exact hbelow a ha
      · exact (hbelow a ha).trans (habove b hb) }

def erase (k : K) (m : SortedMap K V) : SortedMap K V := m.filter fun e => e.1 ≠ k

def get? (m : SortedMap K V) (k : K) : Option V := (m.entries.find? fun e => e.1 = k).map Prod.snd

def atOrAfter (k : K) (m : SortedMap K V) : Option (K × V) := m.entries.find? fun e => k ≤ e.1

def first (m : SortedMap K V) : Option (K × V) := m.entries.head?

/-- The value a point belongs to. -/
def successor (k : K) (m : SortedMap K V) : Option V :=
  ((m.atOrAfter k).or m.first).map Prod.snd

/-! ## Contents -/

@[simp] theorem mem_filter {keep : K × V → Bool} {m : SortedMap K V} {e : K × V} :
    e ∈ (m.filter keep).entries ↔ e ∈ m.entries ∧ keep e = true := List.mem_filter

@[simp] theorem mem_erase {k : K} {m : SortedMap K V} {e : K × V} :
    e ∈ (m.erase k).entries ↔ e ∈ m.entries ∧ e.1 ≠ k := by
  rw [erase, mem_filter, decide_eq_true_iff]

@[simp] theorem mem_insert {k : K} {v : V} {m : SortedMap K V} {e : K × V} :
    e ∈ (m.insert k v).entries ↔ e = (k, v) ∨ (e ∈ m.entries ∧ e.1 ≠ k) := by
  rw [insert, List.mem_append, List.mem_cons, List.mem_filter, List.mem_filter, decide_eq_true_iff,
    decide_eq_true_iff]
  constructor
  · rintro (⟨hmem, hlt⟩ | heq | ⟨hmem, hlt⟩)
    · exact Or.inr ⟨hmem, hlt.ne⟩
    · exact Or.inl heq
    · exact Or.inr ⟨hmem, hlt.ne'⟩
  · rintro (heq | ⟨hmem, hne⟩)
    · exact Or.inr (Or.inl heq)
    · exact (lt_or_gt_of_ne hne).imp (fun h => ⟨hmem, h⟩) fun h => Or.inr ⟨hmem, h⟩

theorem get?_eq_some {m : SortedMap K V} {k : K} {v : V} : m.get? k = some v ↔ (k, v) ∈ m.entries := by
  constructor
  · intro hget
    obtain ⟨e, hfind, rfl⟩ := Option.map_eq_some_iff.mp hget
    have hk : e.1 = k := by simpa using List.find?_some hfind
    rw [← hk]
    exact List.mem_of_find?_eq_some hfind
  · intro hmem
    have hkeys : (m.entries.map Prod.fst).Nodup := List.pairwise_map.mpr (m.sorted.imp fun h => h.ne)
    have hunique : ∀ e ∈ m.entries, e.1 = k → e = (k, v) := fun e he hk =>
      List.inj_on_of_nodup_map hkeys he hmem hk
    cases hfind : m.entries.find? fun e => decide (e.1 = k) with
    | none => exact absurd (decide_eq_true rfl) (List.find?_eq_none.mp hfind (k, v) hmem)
    | some e =>
      have hk : e.1 = k := by simpa using List.find?_some hfind
      rw [get?, hfind, hunique e (List.mem_of_find?_eq_some hfind) hk]
      rfl

theorem get?_insert (m : SortedMap K V) (k j : K) (v : V) :
    (m.insert k v).get? j = if j = k then some v else m.get? j := by
  refine Option.ext fun w => ?_
  rw [get?_eq_some, mem_insert, Prod.mk.injEq]
  by_cases hj : j = k
  · simp [hj, eq_comm]
  · simp [hj, get?_eq_some]

theorem eq_of_mem_iff {m m' : SortedMap K V} (hmem : ∀ e, e ∈ m.entries ↔ e ∈ m'.entries) :
    m = m' := by
  have hnodup : ∀ m : SortedMap K V, m.entries.Nodup := fun m =>
    m.sorted.imp fun hlt heq => absurd (congrArg Prod.fst heq) hlt.ne
  have hperm := (List.perm_ext_iff_of_nodup (hnodup m) (hnodup m')).mpr hmem
  have hentries : m.entries = m'.entries :=
    hperm.eq_of_pairwise (fun a b _ _ hab hba => absurd hab hba.not_gt) m.sorted m'.sorted
  cases m
  cases m'
  rw [mk.injEq]
  exact hentries

theorem eq_of_get? {m m' : SortedMap K V} (hget : ∀ k, m.get? k = m'.get? k) : m = m' := by
  refine eq_of_mem_iff fun e => ?_
  rw [← get?_eq_some, ← get?_eq_some, hget]

/-- An entry behind the others comes last. -/
theorem entries_insert_last {m : SortedMap K V} {k : K} (hk : ∀ e ∈ m.entries, e.1 < k) (v : V) :
    (m.insert k v).entries = m.entries ++ [(k, v)] := by
  have hbelow : m.entries.filter (fun e => decide (e.1 < k)) = m.entries :=
    List.filter_eq_self.mpr fun e he => decide_eq_true (hk e he)
  have habove : m.entries.filter (fun e => decide (k < e.1)) = [] :=
    List.filter_eq_nil_iff.mpr fun e he => by simpa using (hk e he).le
  show m.entries.filter (fun e => decide (e.1 < k)) ++ (k, v) :: m.entries.filter _ = _
  rw [hbelow, habove]

/-- Entries that are inserted in order are there in order. -/
theorem entries_foldl_insert {m : SortedMap K V} {l : List (K × V)}
    (hsorted : (m.entries ++ l).Pairwise fun a b => a.1 < b.1) :
    (l.foldl (fun m e => m.insert e.1 e.2) m).entries = m.entries ++ l := by
  induction l generalizing m with
  | nil => rw [List.append_nil, List.foldl_nil]
  | cons e l ih =>
    have hlast : ∀ a ∈ m.entries, a.1 < e.1 := fun a ha =>
      (List.pairwise_append.mp hsorted).2.2 a ha e List.mem_cons_self
    have hentries := entries_insert_last hlast e.2
    rw [List.append_cons, ← hentries] at hsorted
    rw [List.foldl_cons, ih hsorted, hentries, ← List.append_cons]

theorem entries_injective {m m' : SortedMap K V} (hentries : m.entries = m'.entries) : m = m' :=
  eq_of_mem_iff fun e => by rw [hentries]

/-! ## Points -/

/-- Where entries of one value are left out, only the points of that value move. -/
theorem successor_filter {m : SortedMap K V} {keep : K × V → Bool} {v : V}
    (hout : ∀ e ∈ m.entries, keep e = false → e.2 = v) {k : K}
    (hmoved : m.successor k ≠ (m.filter keep).successor k) : m.successor k = some v := by
  have hfind : ∀ p : K × V → Bool, (∃ e, m.entries.find? p = some e ∧ e.2 = v) ∨
      (m.entries.filter keep).find? p = m.entries.find? p := by
    intro p
    cases hp : m.entries.find? p with
    | none =>
      refine Or.inr (List.find?_eq_none.mpr fun e he => ?_)
      exact List.find?_eq_none.mp hp e (List.mem_filter.mp he).1
    | some e =>
      cases hkeep : keep e with
      | false => exact Or.inl ⟨e, rfl, hout e (List.mem_of_find?_eq_some hp) hkeep⟩
      | true =>
        obtain ⟨hpe, front, back, hsplit, hfront⟩ := List.find?_eq_some_iff_append.mp hp
        refine Or.inr (List.find?_eq_some_iff_append.mpr
          ⟨hpe, front.filter keep, back.filter keep, ?_, ?_⟩)
        · rw [hsplit, List.filter_append, List.filter_cons_of_pos hkeep]
        · exact fun a ha => hfront a (List.mem_filter.mp ha).1
  have hhead : ∀ l : List (K × V), l.head? = l.find? fun _ => true := by
    intro l
    cases l <;> rfl
  rw [successor, successor, atOrAfter, atOrAfter, first, first, hhead, hhead, filter] at hmoved
  rw [successor, atOrAfter, first, hhead]
  rcases hfind fun e => decide (k ≤ e.1) with ⟨e, hsome, hv⟩ | hsame
  · rw [hsome, Option.some_or, Option.map_some, hv]
  · simp only [hsame] at hmoved
    rcases hfind fun _ => true with ⟨e, hsome, hv⟩ | hsame'
    · cases hnext : m.entries.find? fun e => decide (k ≤ e.1) with
      | none => rw [hsome, Option.none_or, Option.map_some, hv]
      | some e' =>
        rw [hnext, Option.some_or, Option.some_or] at hmoved
        exact absurd rfl hmoved
    · rw [hsame'] at hmoved
      exact absurd rfl hmoved

/-- A point cuts the map in two. -/
theorem entries_split (k : K) (m : SortedMap K V) :
    m.entries = m.entries.filter (fun e => e.1 < k) ++ m.entries.filter (fun e => k ≤ e.1) := by
  have hcut : ∀ l : List (K × V), (l.Pairwise fun a b => a.1 < b.1) →
      l = l.filter (fun e => e.1 < k) ++ l.filter (fun e => k ≤ e.1) := by
    intro l hl
    induction l with
    | nil => rfl
    | cons e l ih =>
      have hrest := List.pairwise_cons.mp hl
      by_cases hlt : e.1 < k
      · have hbelow : (e :: l).filter (fun e => decide (e.1 < k)) =
            e :: l.filter fun e => decide (e.1 < k) := List.filter_cons_of_pos (decide_eq_true hlt)
        have habove : (e :: l).filter (fun e => decide (k ≤ e.1)) =
            l.filter fun e => decide (k ≤ e.1) := List.filter_cons_of_neg (by simpa using hlt)
        rw [hbelow, habove, List.cons_append, ← ih hrest.2]
      · have hle : k ≤ e.1 := not_lt.mp hlt
        have hbelow : (e :: l).filter (fun e => decide (e.1 < k)) = [] := by
          rw [List.filter_eq_nil_iff]
          intro a ha
          rcases List.mem_cons.mp ha with rfl | ha
          · simpa using hle
          · simpa using hle.trans (hrest.1 a ha).le
        have habove : (e :: l).filter (fun e => decide (k ≤ e.1)) = e :: l := by
          rw [List.filter_eq_self]
          intro a ha
          rcases List.mem_cons.mp ha with rfl | ha
          · exact decide_eq_true hle
          · exact decide_eq_true (hle.trans (hrest.1 a ha).le)
        rw [hbelow, habove, List.nil_append]
  exact hcut m.entries m.sorted

/-- The entries met going around from a point. -/
def around (k : K) (m : SortedMap K V) : List (K × V) :=
  m.entries.filter (fun e => k ≤ e.1) ++ m.entries.filter (fun e => e.1 < k)

theorem mem_around {k : K} {m : SortedMap K V} {e : K × V} : e ∈ m.around k ↔ e ∈ m.entries := by
  rw [around, List.mem_append, or_comm, ← List.mem_append, ← entries_split]

/-- A point belongs to what is met first. -/
theorem successor_eq_head? (k : K) (m : SortedMap K V) :
    m.successor k = ((m.around k).head?).map Prod.snd := by
  have hfirst : m.first = (m.entries.filter fun e => e.1 < k).head?.or
      (m.entries.filter fun e => k ≤ e.1).head? := by
    rw [first, ← List.head?_append, ← entries_split]
  rw [successor, around, List.head?_append, hfirst, atOrAfter, ← List.head?_filter]
  cases (m.entries.filter fun e => k ≤ e.1).head? with
  | none => rw [Option.or_none, Option.none_or]
  | some e => rw [Option.some_or, Option.some_or]

end SortedMap
end RTDB
