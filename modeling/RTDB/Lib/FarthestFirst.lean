import Mathlib.Algebra.GroupWithZero.Nat
import Mathlib.Algebra.Order.BigOperators.Group.List
import Mathlib.Data.Set.Card
import RTDB.Lib.BestFirst

/-!
# Farthest-first walks

The walk keeps what it has visited and a queue of candidates, of which it takes out the farthest.
A key is expanded when it is taken out first, and the walk ends when no candidate is left or enough
has been visited.  What it visits, and in which order, can be said without the queue.
-/

namespace RTDB
namespace FarthestFirst

open BestFirst (Nearer push mem_push push_length)

variable {K D : Type*} [LinearOrder K] [LinearOrder D]

/-! ## The order of the visits -/

/-- Next to what has been visited, but not visited. -/
def Frontier (neighbors : K → List K) (vs : List K) (key : K) : Prop :=
  key ∉ vs ∧ ∃ a ∈ vs, key ∈ neighbors a

def Next (dist : K → D) (neighbors : K → List K) (vs : List K) (key : K) : Prop :=
  Frontier neighbors vs key ∧
    ∀ b, Frontier neighbors vs b → Nearer (dist b, b) (dist key, key)

inductive Walked (dist : K → D) (neighbors : K → List K) (entry : K) : List K → Prop
  | start : Walked dist neighbors entry [entry]
  | next {vs : List K} {key : K} (hwalked : Walked dist neighbors entry vs)
      (hnext : Next dist neighbors vs key) : Walked dist neighbors entry (vs ++ [key])

/-- A walk that ends with `limit` visits, or with all that it can visit. -/
structure Visits (dist : K → D) (neighbors : K → List K) (limit : Nat) (entry : K) (vs : List K) :
    Prop where
  walked : Walked dist neighbors entry vs
  length : vs.length ≤ max limit 1
  ended : limit ≤ vs.length ∨ ∀ key, ¬Frontier neighbors vs key

section Order

variable {dist : K → D} {neighbors : K → List K} {limit : Nat} {entry key : K} {vs vs' : List K}

theorem Next.unique {key' : K} (hnext : Next dist neighbors vs key)
    (hnext' : Next dist neighbors vs key') : key = key' := by
  rcases hnext.2 key' hnext'.1 with hlt | ⟨heq, hle⟩
  · rcases hnext'.2 key hnext.1 with hgt | ⟨heq, -⟩
    · exact absurd hlt hgt.asymm
    · exact absurd heq hlt.ne'
  · rcases hnext'.2 key hnext.1 with hgt | ⟨-, hge⟩
    · exact absurd heq hgt.ne'
    · exact le_antisymm hge hle

theorem Walked.ne_nil (hwalked : Walked dist neighbors entry vs) : vs ≠ [] := by
  cases hwalked with
  | start => simp
  | next _ _ => simp

theorem Walked.nodup (hwalked : Walked dist neighbors entry vs) : vs.Nodup := by
  induction hwalked with
  | start => exact List.nodup_singleton entry
  | next _ hnext ih =>
    exact ih.append (List.nodup_singleton _) (List.disjoint_singleton.mpr hnext.1.1)

/-- What comes after the first part of a walk came next to it. -/
theorem Walked.next_of_prefix (hwalked : Walked dist neighbors entry vs') (hne : vs ≠ [])
    (hfront : vs ++ [key] <+: vs') : Next dist neighbors vs key := by
  induction hwalked with
  | start =>
    have hlength := hfront.length_le
    rw [List.length_append, List.length_singleton, List.length_singleton] at hlength
    exact absurd (List.length_pos_iff.mpr hne) (by omega)
  | next _ hnext ih =>
    rcases List.prefix_concat_iff.mp hfront with heq | hfront
    · obtain ⟨rfl, hkey⟩ := List.append_inj' heq rfl
      rw [(List.cons.inj hkey).1]
      exact hnext
    · exact ih hfront

theorem Walked.start_prefix (hwalked : Walked dist neighbors entry vs) : [entry] <+: vs := by
  induction hwalked with
  | start => exact List.prefix_rfl
  | next _ _ ih => exact ih.trans (List.prefix_append _ _)

/-- Of two walks one is the first part of the other. -/
theorem Walked.total (hwalked : Walked dist neighbors entry vs)
    (hwalked' : Walked dist neighbors entry vs') : vs <+: vs' ∨ vs' <+: vs := by
  induction hwalked with
  | start => exact Or.inl hwalked'.start_prefix
  | next hwalked hnext ih =>
    rename_i vs key
    rcases ih with ⟨rest, rfl⟩ | hfront
    · cases rest with
      | nil =>
        rw [List.append_nil]
        exact Or.inr (List.prefix_append vs [key])
      | cons key' rest =>
        have hfront : vs ++ [key'] <+: vs ++ key' :: rest := by
          rw [List.prefix_append_right_inj]
          exact List.prefix_append [key'] rest
        have hnext' := hwalked'.next_of_prefix hwalked.ne_nil hfront
        rw [hnext.unique hnext']
        exact Or.inl hfront
    · exact Or.inr (hfront.trans (List.prefix_append vs [key]))

/-- A walk that has ended is not the first part of a longer one. -/
theorem Visits.eq_of_prefix (hvisits : Visits dist neighbors limit entry vs)
    (hvisits' : Visits dist neighbors limit entry vs') (hfront : vs <+: vs') : vs = vs' := by
  have hne := hvisits.walked.ne_nil
  obtain ⟨rest, rfl⟩ := hfront
  cases rest with
  | nil => rw [List.append_nil]
  | cons key rest =>
    have hnext : Next dist neighbors vs key := by
      refine hvisits'.walked.next_of_prefix hne ?_
      rw [List.prefix_append_right_inj]
      exact List.prefix_append [key] rest
    rcases hvisits.ended with hlimit | hnone
    · have hlength := hvisits'.length
      have hpos := List.length_pos_iff.mpr hne
      rw [List.length_append, List.length_cons] at hlength
      omega
    · exact absurd hnext.1 (hnone key)

theorem Visits.unique (hvisits : Visits dist neighbors limit entry vs)
    (hvisits' : Visits dist neighbors limit entry vs') : vs = vs' := by
  rcases hvisits.walked.total hvisits'.walked with hfront | hfront
  · exact hvisits.eq_of_prefix hvisits' hfront
  · exact (hvisits'.eq_of_prefix hvisits hfront).symm

/-! ## What can be reached -/

def Reached (neighbors : K → List K) : K → K → Prop :=
  Relation.ReflTransGen fun a b => b ∈ neighbors a

theorem Walked.reached (hwalked : Walked dist neighbors entry vs) :
    ∀ v ∈ vs, Reached neighbors entry v := by
  induction hwalked with
  | start =>
    intro v hv
    rw [List.mem_singleton.mp hv]
    exact .refl
  | next _ hnext ih =>
    intro v hv
    rcases List.mem_append.mp hv with hv | hv
    · exact ih v hv
    · obtain ⟨-, a, ha, hedge⟩ := hnext.1
      rw [List.mem_singleton.mp hv]
      exact (ih a ha).tail hedge

theorem mem_of_reached (hwalked : Walked dist neighbors entry vs)
    (hnone : ∀ key, ¬Frontier neighbors vs key) {v : K} (hreached : Reached neighbors entry v) :
    v ∈ vs := by
  induction hreached with
  | refl => exact hwalked.start_prefix.subset List.mem_cons_self
  | tail _ hedge ih =>
    by_contra hnew
    exact hnone _ ⟨hnew, _, ih, hedge⟩

/-- A walk with room for all that can be reached visits it. -/
theorem Visits.mem_of_reached {reachable : K → Prop}
    (hvisits : Visits dist neighbors limit entry vs)
    (hmore : ∀ v, Reached neighbors entry v → reachable v)
    (hroom : {v | reachable v}.encard < limit) {v : K} (hreached : Reached neighbors entry v) :
    v ∈ vs := by
  refine FarthestFirst.mem_of_reached hvisits.walked (hvisits.ended.resolve_left ?_) hreached
  intro hlimit
  have hsub : (vs.toFinset : Set K) ⊆ {v | reachable v} := by
    intro v hv
    exact hmore v (hvisits.walked.reached v (by simpa using hv))
  have hcard := Set.encard_le_encard hsub
  rw [Set.encard_coe_eq_coe_finsetCard, List.toFinset_card_of_nodup hvisits.walked.nodup] at hcard
  exact absurd (hcard.trans_lt hroom) (not_lt.mpr (by exact_mod_cast hlimit))

end Order

/-! ## The walk -/

structure Search (K D : Type*) where
  visited : List K
  candidates : List (D × K)

def enqueue (dist : K → D) (queue : List (D × K)) (keys : List K) : List (D × K) :=
  keys.foldl (fun queue key => push (dist key, key) queue) queue

/-- The queue holds the farthest last.  An expansion may fail, and the walk with it. -/
def walk (dist : K → D) (expand : K → Option (List K)) (limit : Nat) :
    Nat → Search K D → Option (Search K D)
  | 0, s => some s
  | fuel + 1, s =>
    match s.candidates.getLast? with
    | none => some s
    | some (_, key) =>
      if s.visited.contains key then
        walk dist expand limit fuel { s with candidates := s.candidates.dropLast }
      else
        match expand key with
        | none => none
        | some keys =>
          let s : Search K D :=
            { visited := s.visited ++ [key]
              candidates := enqueue dist s.candidates.dropLast keys }
          if limit ≤ s.visited.length then some s else walk dist expand limit fuel s

def search (dist : K → D) (expand : K → Option (List K)) (limit fuel : Nat) (start : D)
    (entry : K) : Option (Search K D) :=
  walk dist expand limit fuel { visited := [], candidates := [(start, entry)] }

section Walk

variable {dist : K → D} {expand : K → Option (List K)} {limit : Nat} {entry : K} {s : Search K D}

def neighbors (expand : K → Option (List K)) (key : K) : List K := (expand key).getD []

theorem mem_enqueue {queue : List (D × K)} {keys : List K} {c : D × K} :
    c ∈ enqueue dist queue keys ↔ c ∈ queue ∨ c.2 ∈ keys ∧ c.1 = dist c.2 := by
  induction keys generalizing queue with
  | nil => simp [enqueue]
  | cons key keys ih =>
    have hkey : c = (dist key, key) ↔ c.2 = key ∧ c.1 = dist c.2 := by
      rw [Prod.ext_iff]
      constructor
      · rintro ⟨hdist, rfl⟩
        exact ⟨rfl, hdist⟩
      · rintro ⟨rfl, hdist⟩
        exact ⟨hdist, rfl⟩
    rw [enqueue, List.foldl_cons, ← enqueue, ih, mem_push, hkey, List.mem_cons]
    tauto

theorem length_enqueue {queue : List (D × K)} {keys : List K} :
    (enqueue dist queue keys).length = queue.length + keys.length := by
  induction keys generalizing queue with
  | nil => rfl
  | cons key keys ih =>
    rw [enqueue, List.foldl_cons, ← enqueue, ih, push_length, List.length_cons]
    omega

theorem sorted_enqueue {queue : List (D × K)} (hsorted : queue.Pairwise Nearer) (keys : List K) :
    (enqueue dist queue keys).Pairwise Nearer := by
  induction keys generalizing queue with
  | nil => exact hsorted
  | cons key keys ih => exact ih (hsorted.orderedInsert _ _)

structure Inv (dist : K → D) (expand : K → Option (List K)) (entry : K) (s : Search K D) :
    Prop where
  walked : Walked dist (neighbors expand) entry s.visited
  sorted : s.candidates.Pairwise Nearer
  sound : ∀ c ∈ s.candidates, c.1 = dist c.2 ∧ ∃ a ∈ s.visited, c.2 ∈ neighbors expand a
  waiting : ∀ key, Frontier (neighbors expand) s.visited key → (dist key, key) ∈ s.candidates

theorem inv_start (dist : K → D) (expand : K → Option (List K)) (entry : K) :
    Inv dist expand entry
      { visited := [entry], candidates := enqueue dist [] (neighbors expand entry) } := by
  refine ⟨.start, sorted_enqueue List.Pairwise.nil _, fun c hc => ?_, ?_⟩
  · obtain ⟨hmem, hdist⟩ := (mem_enqueue.mp hc).resolve_left List.not_mem_nil
    exact ⟨hdist, entry, List.mem_singleton_self entry, hmem⟩
  · rintro key ⟨-, a, ha, hedge⟩
    rw [List.mem_singleton.mp ha] at hedge
    exact mem_enqueue.mpr (Or.inr ⟨hedge, rfl⟩)

/-- A candidate that has been visited is dropped. -/
theorem Inv.drop (hs : Inv dist expand entry s) {front : List (D × K)} {c : D × K}
    (hcandidates : s.candidates = front ++ [c]) (hseen : c.2 ∈ s.visited) :
    Inv dist expand entry { s with candidates := front } := by
  have hsub : front.Sublist s.candidates := by
    rw [hcandidates]
    exact List.sublist_append_left front [c]
  refine ⟨hs.walked, hs.sorted.sublist hsub, fun c' hc' => hs.sound c' (hsub.subset hc'), ?_⟩
  intro key hkey
  have hwaits := hs.waiting key hkey
  rw [hcandidates] at hwaits
  rcases List.mem_append.mp hwaits with hwaits | hwaits
  · exact hwaits
  · rw [← List.mem_singleton.mp hwaits] at hseen
    exact absurd hseen hkey.1

theorem Inv.next (hs : Inv dist expand entry s) {front : List (D × K)} {c : D × K}
    (hcandidates : s.candidates = front ++ [c]) (hnew : c.2 ∉ s.visited) :
    Next dist (neighbors expand) s.visited c.2 := by
  have hmem : c ∈ s.candidates := by
    rw [hcandidates]
    exact List.mem_append_right front (List.mem_singleton_self c)
  obtain ⟨hdist, hedge⟩ := hs.sound c hmem
  refine ⟨⟨hnew, hedge⟩, fun b hb => ?_⟩
  have hwaits := hs.waiting b hb
  have hsorted := hs.sorted
  rw [hcandidates] at hwaits hsorted
  rw [← hdist]
  rcases List.mem_append.mp hwaits with hwaits | hwaits
  · exact (List.pairwise_append.mp hsorted).2.2 _ hwaits c (List.mem_singleton_self c)
  · rw [List.mem_singleton.mp hwaits]
    exact Or.inr ⟨rfl, le_rfl⟩

theorem Inv.visit (hs : Inv dist expand entry s) {front : List (D × K)} {c : D × K}
    (hcandidates : s.candidates = front ++ [c]) (hnew : c.2 ∉ s.visited) :
    Inv dist expand entry
      { visited := s.visited ++ [c.2]
        candidates := enqueue dist front (neighbors expand c.2) } := by
  have hsub : front.Sublist s.candidates := by
    rw [hcandidates]
    exact List.sublist_append_left front [c]
  refine ⟨.next hs.walked (hs.next hcandidates hnew),
    sorted_enqueue (hs.sorted.sublist hsub) _, fun c' hc' => ?_, ?_⟩
  · rcases mem_enqueue.mp hc' with hc' | ⟨hmem, hdist⟩
    · obtain ⟨hdist, a, ha, hedge⟩ := hs.sound c' (hsub.subset hc')
      exact ⟨hdist, a, List.mem_append_left _ ha, hedge⟩
    · exact ⟨hdist, c.2, List.mem_append_right _ (List.mem_singleton_self c.2), hmem⟩
  · rintro key ⟨hkey, a, ha, hedge⟩
    rw [List.mem_append, not_or, List.mem_singleton] at hkey
    rcases List.mem_append.mp ha with ha | ha
    · have hwaits := hs.waiting key ⟨hkey.1, a, ha, hedge⟩
      rw [hcandidates] at hwaits
      rcases List.mem_append.mp hwaits with hwaits | hwaits
      · exact mem_enqueue.mpr (Or.inl hwaits)
      · exact absurd (congrArg Prod.snd (List.mem_singleton.mp hwaits)) hkey.2
    · rw [List.mem_singleton.mp ha] at hedge
      exact mem_enqueue.mpr (Or.inr ⟨hedge, rfl⟩)

/-! ## Enough fuel -/

/-- What the keys that are not visited can still add to the queue. -/
def left (expand : K → Option (List K)) (keys visited : List K) : Nat :=
  (keys.map fun key => if visited.contains key then 0 else (neighbors expand key).length).sum

theorem left_append_le (keys visited : List K) (key : K) :
    left expand keys (visited ++ [key]) ≤ left expand keys visited := by
  refine List.sum_le_sum fun k _ => ?_
  by_cases hk : k ∈ visited
  · rw [if_pos (List.contains_iff_mem.mpr hk),
      if_pos (List.contains_iff_mem.mpr (List.mem_append_left [key] hk))]
  · rw [if_neg (mt List.contains_iff_mem.mp hk)]
    split
    · exact Nat.zero_le _
    · exact le_rfl

theorem left_visit {keys visited : List K} {key : K} (hnew : key ∉ visited)
    (hkeys : neighbors expand key ≠ [] → key ∈ keys) :
    left expand keys (visited ++ [key]) + (neighbors expand key).length ≤
      left expand keys visited := by
  by_cases hnone : neighbors expand key = []
  · rw [hnone]
    exact left_append_le keys visited key
  · have hmem := hkeys hnone
    clear hkeys
    induction keys with
    | nil => exact absurd hmem List.not_mem_nil
    | cons k keys ih =>
      rw [left, left, List.map_cons, List.sum_cons, List.map_cons, List.sum_cons, ← left, ← left]
      by_cases hk : k = key
      · subst hk
        have hle : left expand keys (visited ++ [k]) ≤ left expand keys visited :=
          left_append_le keys visited k
        have hlast : k ∈ visited ++ [k] := List.mem_append_right _ (List.mem_singleton_self k)
        rw [if_neg (mt List.contains_iff_mem.mp hnew), if_pos (List.contains_iff_mem.mpr hlast)]
        omega
      · have hsame : (visited ++ [key]).contains k = visited.contains k := by simp [hk]
        have hrest := ih (List.mem_of_ne_of_mem (Ne.symm hk) hmem)
        simp only [hsame]
        omega

theorem Inv.visits (hs : Inv dist expand entry s) (hshort : s.visited.length ≤ limit)
    (hempty : s.candidates = []) : Visits dist (neighbors expand) limit entry s.visited := by
  refine ⟨hs.walked, le_max_of_le_left hshort, Or.inr fun key hkey => ?_⟩
  have hwaits := hs.waiting key hkey
  rw [hempty] at hwaits
  exact absurd hwaits List.not_mem_nil

/-- With fuel for all that can be queued, the walk comes to its end. -/
theorem walk_visits {keys : List K}
    (hexpand : ∀ key, Reached (neighbors expand) entry key → expand key ≠ none)
    (hkeys : ∀ key, neighbors expand key ≠ [] → key ∈ keys) {fuel : Nat}
    (hs : Inv dist expand entry s) (hshort : s.visited.length < limit)
    (hfuel : left expand keys s.visited + s.candidates.length ≤ fuel) :
    ∃ s', walk dist expand limit fuel s = some s' ∧
      Visits dist (neighbors expand) limit entry s'.visited := by
  induction fuel generalizing s with
  | zero =>
    have hempty : s.candidates = [] := List.length_eq_zero_iff.mp (by omega)
    exact ⟨s, rfl, hs.visits hshort.le hempty⟩
  | succ fuel ih =>
    rw [walk]
    cases hlast : s.candidates.getLast? with
    | none => exact ⟨s, rfl, hs.visits hshort.le (List.getLast?_eq_none_iff.mp hlast)⟩
    | some c =>
      obtain ⟨front, hcandidates⟩ := List.getLast?_eq_some_iff.mp hlast
      have hdrop : s.candidates.dropLast = front := by rw [hcandidates, List.dropLast_concat]
      rw [hcandidates, List.length_append, List.length_singleton] at hfuel
      by_cases hseen : c.2 ∈ s.visited
      · simp only [if_pos (List.contains_iff_mem.mpr hseen), hdrop]
        exact ih (hs.drop hcandidates hseen) hshort (by dsimp only; omega)
      · have hreached := (Walked.next hs.walked (hs.next hcandidates hseen)).reached c.2
          (List.mem_append_right _ (List.mem_singleton_self c.2))
        obtain ⟨more, hmore⟩ := Option.ne_none_iff_exists'.mp (hexpand c.2 hreached)
        have hneighbors : neighbors expand c.2 = more := by rw [neighbors, hmore, Option.getD_some]
        have hnext := hs.visit hcandidates hseen
        have hwork := left_visit hseen (hkeys c.2)
        rw [hneighbors] at hnext hwork
        simp only [if_neg (mt List.contains_iff_mem.mp hseen), hmore, hdrop]
        have hone : (s.visited ++ [c.2]).length = s.visited.length + 1 := by
          rw [List.length_append, List.length_singleton]
        by_cases hlimit : limit ≤ (s.visited ++ [c.2]).length
        · rw [if_pos hlimit]
          exact ⟨_, rfl, hnext.walked, le_max_of_le_left (by dsimp only; omega), Or.inl hlimit⟩
        · rw [if_neg hlimit]
          refine ih hnext (not_le.mp hlimit) ?_
          dsimp only
          rw [length_enqueue]
          omega

theorem search_visits {keys : List K}
    (hexpand : ∀ key, Reached (neighbors expand) entry key → expand key ≠ none)
    (hkeys : ∀ key, neighbors expand key ≠ [] → key ∈ keys) {fuel : Nat}
    (hfuel : left expand keys [] < fuel) (start : D) :
    ∃ s, search dist expand limit fuel start entry = some s ∧
      Visits dist (neighbors expand) limit entry s.visited := by
  obtain ⟨fuel, rfl⟩ : ∃ n, fuel = n + 1 := ⟨fuel - 1, by omega⟩
  obtain ⟨more, hmore⟩ := Option.ne_none_iff_exists'.mp (hexpand entry .refl)
  have hneighbors : neighbors expand entry = more := by rw [neighbors, hmore, Option.getD_some]
  have hfirst := inv_start dist expand entry
  have hwork := left_visit (List.not_mem_nil : entry ∉ []) (hkeys entry)
  rw [hneighbors] at hfirst hwork
  rw [search, walk]
  simp only [List.getLast?_singleton, hmore, List.nil_append,
    List.dropLast_singleton, List.length_singleton]
  by_cases hlimit : limit ≤ 1
  · rw [if_pos hlimit]
    exact ⟨_, rfl, hfirst.walked, le_max_right limit 1, Or.inl hlimit⟩
  · rw [if_neg hlimit]
    refine walk_visits hexpand hkeys hfirst (not_le.mp hlimit) ?_
    rw [List.nil_append] at hwork
    dsimp only
    rw [length_enqueue, List.length_nil]
    omega

/-- An entry that can not be expanded fails the walk at once. -/
theorem search_of_none (hnone : expand entry = none) {fuel : Nat} (hfuel : 0 < fuel) (start : D) :
    search dist expand limit fuel start entry = none := by
  obtain ⟨fuel, rfl⟩ : ∃ n, fuel = n + 1 := ⟨fuel - 1, by omega⟩
  rw [search, walk]
  simp [hnone]

end Walk

end FarthestFirst
end RTDB
