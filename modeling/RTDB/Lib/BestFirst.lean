import Mathlib.Data.List.Sort
import Mathlib.Logic.Relation

/-!
# Best-first search with a bounded result list

The search keeps what it has seen, the candidates still to expand and the best
results so far, at most `ef` of them; the last two are priority queues, kept as
lists in their order.  A key without a distance is passed over.  When `ef` leaves
room for every key that has one, the search finds exactly what is reachable.
-/

namespace RTDB
namespace BestFirst

variable {K D : Type*} [LinearOrder K] [LinearOrder D]

/-- The order of the queues: by distance, then by key. -/
def Nearer (a b : D × K) : Prop := a.1 < b.1 ∨ a.1 = b.1 ∧ a.2 ≤ b.2

instance : DecidableRel (Nearer : D × K → D × K → Prop) :=
  fun a b => inferInstanceAs (Decidable (a.1 < b.1 ∨ a.1 = b.1 ∧ a.2 ≤ b.2))

instance : IsTrans (D × K) Nearer where
  trans a b c := by
    rintro (hab | ⟨hab, hab'⟩) (hbc | ⟨hbc, hbc'⟩)
    · exact Or.inl (hab.trans hbc)
    · exact Or.inl (hbc ▸ hab)
    · exact Or.inl (hab ▸ hbc)
    · exact Or.inr ⟨hab.trans hbc, hab'.trans hbc'⟩

instance : Std.Total (Nearer : D × K → D × K → Prop) where
  total a b := by
    rcases lt_trichotomy a.1 b.1 with hlt | heq | hgt
    · exact Or.inl (Or.inl hlt)
    · rcases le_total a.2 b.2 with hle | hle
      · exact Or.inl (Or.inr ⟨heq, hle⟩)
      · exact Or.inr (Or.inr ⟨heq.symm, hle⟩)
    · exact Or.inr (Or.inl hgt)

theorem Nearer.fst_le {a b : D × K} (h : Nearer a b) : a.1 ≤ b.1 := by
  rcases h with hlt | ⟨heq, -⟩
  · exact hlt.le
  · exact heq.le

/-- The last of a sorted queue is the farthest. -/
theorem fst_le_getLast {queue : List (D × K)} {worst r : D × K} (hsorted : queue.Pairwise Nearer)
    (hworst : worst ∈ queue.getLast?) (hr : r ∈ queue) : r.1 ≤ worst.1 := by
  obtain ⟨front, rfl⟩ := List.getLast?_eq_some_iff.mp hworst
  rcases List.mem_append.mp hr with hr | hr
  · exact ((List.pairwise_append.mp hsorted).2.2 r hr worst List.mem_cons_self).fst_le
  · rw [List.mem_singleton.mp hr]

def push (item : D × K) (queue : List (D × K)) : List (D × K) := queue.orderedInsert Nearer item

@[simp] theorem mem_push {item other : D × K} {queue : List (D × K)} :
    other ∈ push item queue ↔ other = item ∨ other ∈ queue := List.mem_orderedInsert Nearer

theorem push_perm (item : D × K) (queue : List (D × K)) : (push item queue).Perm (item :: queue) :=
  List.perm_orderedInsert Nearer item queue

@[simp] theorem push_length (item : D × K) (queue : List (D × K)) :
    (push item queue).length = queue.length + 1 := List.orderedInsert_length Nearer queue item

structure Frontier (K D : Type*) where
  visited : List K
  candidates : List (D × K)
  results : List (D × K)

/-- One neighbor: the results take it while there is room, and for a farther one
after that. -/
def visit (dist : K → Option D) (ef : Nat) (f : Frontier K D) (key : K) : Frontier K D :=
  if key ∈ f.visited then f
  else
    match dist key with
    | none => { f with visited := key :: f.visited }
    | some d =>
      if f.results.length < ef then
        { visited := key :: f.visited, candidates := push (d, key) f.candidates
          results := push (d, key) f.results }
      else
        match f.results.getLast? with
        | none => { f with visited := key :: f.visited }
        | some worst =>
          if d < worst.1 then
            { visited := key :: f.visited, candidates := push (d, key) f.candidates
              results := push (d, key) f.results.dropLast }
          else { f with visited := key :: f.visited }

/-- The search ends when the best candidate is farther than the worst of a full
list of results. -/
def halts (ef : Nat) (d : D) (results : List (D × K)) : Bool :=
  match results.getLast? with
  | some worst => worst.1 < d && ef ≤ results.length
  | none => false

def walk (dist : K → Option D) (neighbors : K → List K) (ef : Nat) :
    Nat → Frontier K D → List (D × K)
  | 0, f => f.results
  | fuel + 1, f =>
    match f.candidates with
    | [] => f.results
    | (d, key) :: candidates =>
      if halts ef d f.results then f.results
      else walk dist neighbors ef fuel
        ((neighbors key).foldl (visit dist ef) { f with candidates })

def start (dist : K → Option D) (entry : K) : Frontier K D :=
  match dist entry with
  | some d => { visited := [entry], candidates := [(d, entry)], results := [(d, entry)] }
  | none => { visited := [], candidates := [], results := [] }

def search (dist : K → Option D) (neighbors : K → List K) (ef fuel : Nat) (entry : K) :
    List (D × K) :=
  walk dist neighbors ef fuel (start dist entry)

/-! ## One neighbor -/

section Visit

variable {dist : K → Option D} {neighbors : K → List K} {ef : Nat}

inductive Visit (dist : K → Option D) (ef : Nat) (f : Frontier K D) (key : K) :
    Frontier K D → Prop
  | seen (hseen : key ∈ f.visited) : Visit dist ef f key f
  | passed (hnew : key ∉ f.visited) (hpassed : ∀ d ∈ dist key,
      ef ≤ f.results.length ∧ ∀ worst ∈ f.results.getLast?, worst.1 ≤ d) :
    Visit dist ef f key { f with visited := key :: f.visited }
  | taken (hnew : key ∉ f.visited) (d : D) (hd : dist key = some d) (kept : List (D × K))
      (hkept : f.results.length < ef ∧ kept = f.results ∨
        ef ≤ f.results.length ∧ kept = f.results.dropLast ∧
          ∃ worst ∈ f.results.getLast?, d < worst.1) :
    Visit dist ef f key
      { visited := key :: f.visited, candidates := push (d, key) f.candidates
        results := push (d, key) kept }

theorem visit_cases (dist : K → Option D) (ef : Nat) (f : Frontier K D) (key : K) :
    Visit dist ef f key (visit dist ef f key) := by
  rw [visit]
  split
  · rename_i hseen
    exact .seen hseen
  · rename_i hnew
    split
    · rename_i hnone
      exact .passed hnew fun d hd => absurd hd (by rw [hnone]; simp)
    · rename_i d hd
      have hsame : ∀ d' ∈ dist key, d' = d := fun d' hd' =>
        Option.some.inj (hd'.symm.trans hd)
      split
      · rename_i hroom
        exact .taken hnew d hd f.results (Or.inl ⟨hroom, rfl⟩)
      · rename_i hfull
        have hef : ef ≤ f.results.length := Nat.le_of_not_lt hfull
        split
        · rename_i hnone
          refine .passed hnew fun _ _ => ⟨hef, fun worst hworst => ?_⟩
          exact absurd hworst (by rw [hnone]; simp)
        · rename_i worst hlast
          split
          · rename_i hnearer
            exact .taken hnew d hd f.results.dropLast (Or.inr ⟨hef, rfl, worst, hlast, hnearer⟩)
          · rename_i hfarther
            refine .passed hnew fun d' hd' => ⟨hef, fun worst' hworst' => ?_⟩
            rw [hsame d' hd', ← Option.some.inj (hlast.symm.trans hworst')]
            exact not_lt.mp hfarther

end Visit

/-! ## Whole searches -/

section Search

variable {dist : K → Option D} {neighbors : K → List K} {ef : Nat}

/-- A property of frontiers that taking a candidate out and visiting its
neighbors keep, and that holds of the results of every walk then. -/
theorem walk_induction {Q : Frontier K D → Prop}
    (hpop : ∀ f d key candidates, Q f → f.candidates = (d, key) :: candidates →
      halts ef d f.results = false →
      Q ((neighbors key).foldl (visit dist ef) { f with candidates })) :
    ∀ fuel f, Q f → ∃ f', Q f' ∧ walk dist neighbors ef fuel f = f'.results := by
  intro fuel
  induction fuel with
  | zero => exact fun f hf => ⟨f, hf, rfl⟩
  | succ fuel ih =>
    intro f hf
    rw [walk]
    split
    · exact ⟨f, hf, rfl⟩
    · rename_i d key candidates hcandidates
      split
      · exact ⟨f, hf, rfl⟩
      · rename_i hhalts
        exact ih _ (hpop f d key candidates hf hcandidates (by simpa using hhalts))

/-- A step to a neighbor that has a distance. -/
def Edge (dist : K → Option D) (neighbors : K → List K) (a b : K) : Prop :=
  b ∈ neighbors a ∧ (dist b).isSome

def Reached (dist : K → Option D) (neighbors : K → List K) : K → K → Prop :=
  Relation.ReflTransGen (Edge dist neighbors)

/-- What holds of a search from the entry, whatever the room for results. -/
structure Sound (dist : K → Option D) (neighbors : K → List K) (entry : K) (f : Frontier K D) :
    Prop where
  results : ∀ r ∈ f.results, dist r.2 = some r.1 ∧ Reached dist neighbors entry r.2
  candidates : ∀ c ∈ f.candidates, dist c.2 = some c.1 ∧ Reached dist neighbors entry c.2
  visited : ∀ r ∈ f.results, r.2 ∈ f.visited
  sorted : f.results.Pairwise Nearer
  distinct : (f.results.map Prod.snd).Nodup

theorem sound_start (dist : K → Option D) (neighbors : K → List K) (entry : K) :
    Sound dist neighbors entry (start dist entry) := by
  rw [start]
  split
  · rename_i d hd
    have hentry : ∀ r ∈ [(d, entry)], dist r.2 = some r.1 ∧ Reached dist neighbors entry r.2 := by
      intro r hr
      rw [List.mem_singleton.mp hr]
      exact ⟨hd, .refl⟩
    exact ⟨hentry, hentry, by simp, List.pairwise_singleton _ _, List.nodup_singleton _⟩
  · exact ⟨by simp, by simp, by simp, List.Pairwise.nil, List.nodup_nil⟩

theorem Sound.visit {entry : K} {f : Frontier K D} (hf : Sound dist neighbors entry f) {a b : K}
    (ha : Reached dist neighbors entry a) (hb : b ∈ neighbors a) :
    Sound dist neighbors entry (visit dist ef f b) := by
  have hcases := visit_cases dist ef f b
  generalize BestFirst.visit dist ef f b = f' at hcases
  cases hcases with
  | seen _ => exact hf
  | passed _ _ =>
    exact ⟨hf.results, hf.candidates, fun r hr => List.mem_cons_of_mem b (hf.visited r hr),
      hf.sorted, hf.distinct⟩
  | taken hnew d hd kept hkept =>
    have hsub : kept.Sublist f.results := by
      rcases hkept with ⟨-, rfl⟩ | ⟨-, rfl, -⟩
      · exact List.Sublist.refl _
      · exact List.dropLast_sublist _
    have hreached : Reached dist neighbors entry b := ha.tail ⟨hb, by rw [hd]; rfl⟩
    have hitem : ∀ queue : List (D × K),
        (∀ r ∈ queue, dist r.2 = some r.1 ∧ Reached dist neighbors entry r.2) →
          ∀ r ∈ push (d, b) queue, dist r.2 = some r.1 ∧ Reached dist neighbors entry r.2 := by
      intro queue hqueue r hr
      rcases mem_push.mp hr with rfl | hr
      · exact ⟨hd, hreached⟩
      · exact hqueue r hr
    refine ⟨hitem kept fun r hr => hf.results r (hsub.subset hr), hitem _ hf.candidates,
      fun r hr => ?_, (hf.sorted.sublist hsub).orderedInsert _ _, ?_⟩
    · rcases mem_push.mp hr with rfl | hr
      · exact List.mem_cons_self
      · exact List.mem_cons_of_mem b (hf.visited r (hsub.subset hr))
    · rw [((push_perm (d, b) kept).map Prod.snd).nodup_iff, List.map_cons, List.nodup_cons]
      refine ⟨fun hmem => hnew ?_, hf.distinct.sublist (hsub.map Prod.snd)⟩
      obtain ⟨r, hr, hrb⟩ := List.mem_map.mp hmem
      rw [← show r.2 = b from hrb]
      exact hf.visited r (hsub.subset hr)

theorem Sound.expand {entry : K} {f : Frontier K D} (hf : Sound dist neighbors entry f) {a : K}
    (ha : Reached dist neighbors entry a) {bs : List K} (hbs : ∀ b ∈ bs, b ∈ neighbors a) :
    Sound dist neighbors entry (bs.foldl (BestFirst.visit dist ef) f) := by
  induction bs generalizing f with
  | nil => exact hf
  | cons b bs ih =>
    exact ih (hf.visit ha (hbs b List.mem_cons_self))
      fun b' hb' => hbs b' (List.mem_cons_of_mem b hb')

theorem Sound.pop {entry key : K} {d : D} {candidates : List (D × K)} {f : Frontier K D}
    (hf : Sound dist neighbors entry f) (hcandidates : f.candidates = (d, key) :: candidates) :
    Sound dist neighbors entry { f with candidates } ∧ Reached dist neighbors entry key := by
  have hkey : (d, key) ∈ f.candidates := by rw [hcandidates]; exact List.mem_cons_self
  refine ⟨⟨hf.results, fun c hc => hf.candidates c ?_, hf.visited, hf.sorted, hf.distinct⟩,
    (hf.candidates _ hkey).2⟩
  rw [hcandidates]
  exact List.mem_cons_of_mem _ hc

theorem search_sound (dist : K → Option D) (neighbors : K → List K) (ef fuel : Nat) (entry : K) :
    ∃ f, Sound dist neighbors entry f ∧ search dist neighbors ef fuel entry = f.results := by
  refine walk_induction (fun f d key candidates hf hcandidates _ => ?_) fuel _
    (sound_start dist neighbors entry)
  obtain ⟨hpopped, hreached⟩ := hf.pop hcandidates
  exact hpopped.expand hreached fun b hb => hb

/-- Every result is reachable, and comes with its distance. -/
theorem mem_search {fuel : Nat} {entry : K} {r : D × K}
    (hr : r ∈ search dist neighbors ef fuel entry) :
    dist r.2 = some r.1 ∧ Reached dist neighbors entry r.2 := by
  obtain ⟨f, hf, hsearch⟩ := search_sound dist neighbors ef fuel entry
  rw [hsearch] at hr
  exact hf.results r hr

theorem search_nodup (dist : K → Option D) (neighbors : K → List K) (ef fuel : Nat) (entry : K) :
    ((search dist neighbors ef fuel entry).map Prod.snd).Nodup := by
  obtain ⟨f, hf, hsearch⟩ := search_sound dist neighbors ef fuel entry
  rw [hsearch]
  exact hf.distinct

/-! ## Enough fuel -/

/-- The pops that are left at most: one for each candidate, and one for each key
that is still to be seen. -/
def pending (keys : List K) (f : Frontier K D) : Nat :=
  (keys.filter fun key => decide (key ∉ f.visited)).length + f.candidates.length

theorem length_filter_cons_le (keys visited : List K) (key : K) :
    (keys.filter fun k => decide (k ∉ key :: visited)).length ≤
      (keys.filter fun k => decide (k ∉ visited)).length := by
  refine (List.monotone_filter_right keys fun k hk => ?_).length_le
  simp only [List.mem_cons, not_or, decide_eq_true_eq] at hk ⊢
  exact hk.2

theorem length_filter_cons_lt {keys visited : List K} {key : K} (hkey : key ∈ keys)
    (hnew : key ∉ visited) :
    (keys.filter fun k => decide (k ∉ key :: visited)).length <
      (keys.filter fun k => decide (k ∉ visited)).length := by
  have hsame : (keys.filter fun k => decide (k ∉ key :: visited)) =
      (keys.filter fun k => decide (k ∉ visited)).filter fun k => decide (k ≠ key) := by
    rw [List.filter_filter]
    refine List.filter_congr fun k _ => ?_
    by_cases hk : k = key <;> simp [hk]
  rw [hsame]
  refine List.length_filter_lt_length_iff_exists.mpr ⟨key, ?_, by simp⟩
  exact List.mem_filter.mpr ⟨hkey, by simpa using hnew⟩

variable {keys : List K}

theorem pending_visit (hkeys : ∀ key, (dist key).isSome → key ∈ keys) (f : Frontier K D)
    (key : K) : pending keys (visit dist ef f key) ≤ pending keys f := by
  have hcases := visit_cases dist ef f key
  generalize visit dist ef f key = f' at hcases
  cases hcases with
  | seen _ => exact le_refl _
  | passed _ _ => exact Nat.add_le_add_right (length_filter_cons_le keys f.visited key) _
  | taken hnew d hd kept _ =>
    have hlt := length_filter_cons_lt (hkeys key (by rw [hd]; rfl)) hnew
    rw [pending, pending, push_length]
    dsimp only
    omega

theorem pending_expand (ef : Nat) (hkeys : ∀ key, (dist key).isSome → key ∈ keys) (bs : List K)
    (f : Frontier K D) : pending keys (bs.foldl (visit dist ef) f) ≤ pending keys f := by
  induction bs generalizing f with
  | nil => exact le_refl _
  | cons b bs ih => exact (ih _).trans (pending_visit hkeys f b)

omit [LinearOrder D] in
theorem pending_pop (keys : List K) {f : Frontier K D} {item : D × K} {candidates : List (D × K)}
    (hcandidates : f.candidates = item :: candidates) :
    pending keys { f with candidates } + 1 = pending keys f := by
  rw [pending, pending, hcandidates, List.length_cons]
  dsimp only
  omega

omit [LinearOrder D] in
theorem pending_start (hkeys : ∀ key, (dist key).isSome → key ∈ keys) (entry : K) :
    pending keys (start dist entry) ≤ keys.length := by
  rw [start]
  split
  · rename_i d hd
    have hlt := length_filter_cons_lt (hkeys entry (by rw [hd]; rfl))
      (List.not_mem_nil : entry ∉ [])
    have hle := List.length_filter_le (fun k => decide (k ∉ ([] : List K))) keys
    rw [pending]
    dsimp only [List.length_cons, List.length_nil]
    omega
  · exact List.length_filter_le _ _

/-! ## Runs of the loop -/

/-- One round: the nearest candidate is taken out, and its neighbors are visited. -/
inductive Expands (dist : K → Option D) (neighbors : K → List K) (ef : Nat) :
    Frontier K D → Frontier K D → Prop
  | expand (f : Frontier K D) (d : D) (key : K) (candidates : List (D × K))
      (hcandidates : f.candidates = (d, key) :: candidates)
      (hgoes : halts ef d f.results = false) :
      Expands dist neighbors ef f ((neighbors key).foldl (visit dist ef) { f with candidates })

/-- No candidate is left, or the nearest ends the search. -/
def Halted (ef : Nat) (f : Frontier K D) : Prop :=
  ∀ c ∈ f.candidates.head?, halts ef c.1 f.results = true

/-- With fuel for all keys, the loop comes to its end. -/
theorem walk_halts (neighbors : K → List K) (ef : Nat)
    (hkeys : ∀ key, (dist key).isSome → key ∈ keys) {fuel : Nat} {f : Frontier K D}
    (hfuel : pending keys f ≤ fuel) :
    ∃ f', Relation.ReflTransGen (Expands dist neighbors ef) f f' ∧ Halted ef f' ∧
      walk dist neighbors ef fuel f = f'.results := by
  induction fuel generalizing f with
  | zero =>
    have hempty : f.candidates = [] := by
      rw [pending] at hfuel
      exact List.length_eq_zero_iff.mp (by omega)
    refine ⟨f, .refl, fun c hc => ?_, rfl⟩
    rw [hempty] at hc
    exact absurd hc (by simp)
  | succ fuel ih =>
    rw [walk]
    split
    · rename_i hempty
      refine ⟨f, .refl, fun c hc => ?_, rfl⟩
      rw [hempty] at hc
      exact absurd hc (by simp)
    · rename_i d key candidates hcandidates
      split
      · rename_i hhalts
        refine ⟨f, .refl, fun c hc => ?_, rfl⟩
        rw [hcandidates, List.head?_cons, Option.mem_some_iff] at hc
        rw [← hc]
        exact hhalts
      · rename_i hgoes
        have hpop := pending_pop keys hcandidates
        have hexpand := pending_expand ef hkeys (neighbors key) { f with candidates }
        obtain ⟨f', hruns, hhalted, hwalk⟩ :=
          ih (f := (neighbors key).foldl (visit dist ef) { f with candidates }) (by omega)
        have hround : Expands dist neighbors ef f _ :=
          .expand f d key candidates hcandidates (by simpa using hgoes)
        exact ⟨f', .head hround hruns, hhalted, hwalk⟩

theorem Sound.expands {entry : K} {f f' : Frontier K D} (hf : Sound dist neighbors entry f)
    (hround : Expands dist neighbors ef f f') : Sound dist neighbors entry f' := by
  cases hround with
  | expand d key candidates hcandidates _ =>
    obtain ⟨hpopped, hreached⟩ := hf.pop hcandidates
    exact hpopped.expand hreached fun b hb => hb

/-! ## The best of what is seen -/

/-- There is room for the results, and what is seen and not among them is no nearer than any. -/
structure Best (dist : K → Option D) (ef : Nat) (f : Frontier K D) : Prop where
  distinct : f.visited.Nodup
  room : f.results.length ≤ ef
  kept : ∀ key ∈ f.visited, ∀ d ∈ dist key,
    (d, key) ∈ f.results ∨ ef ≤ f.results.length ∧ ∀ r ∈ f.results, r.1 ≤ d

omit [LinearOrder K] in
theorem best_start (dist : K → Option D) (hef : 1 ≤ ef) (entry : K) :
    Best dist ef (start dist entry) := by
  rw [start]
  split
  · rename_i d hd
    refine ⟨List.nodup_singleton entry, hef, fun key hkey d' hd' => Or.inl ?_⟩
    rw [List.mem_singleton.mp hkey] at hd' ⊢
    rw [Option.some.inj (hd'.symm.trans hd)]
    exact List.mem_singleton_self _
  · exact ⟨List.nodup_nil, Nat.zero_le ef, fun key hkey => absurd hkey List.not_mem_nil⟩

theorem Best.visit {entry key : K} {f : Frontier K D} (hsound : Sound dist neighbors entry f)
    (hf : Best dist ef f) : Best dist ef (BestFirst.visit dist ef f key) := by
  have hcases := visit_cases dist ef f key
  generalize BestFirst.visit dist ef f key = f' at hcases
  cases hcases with
  | seen _ => exact hf
  | passed hnew hpassed =>
    refine ⟨List.nodup_cons.mpr ⟨hnew, hf.distinct⟩, hf.room, fun b hb d hd => ?_⟩
    rcases List.mem_cons.mp hb with rfl | hb
    · obtain ⟨hfull, hfarther⟩ := hpassed d hd
      refine Or.inr ⟨hfull, fun r hr => ?_⟩
      obtain ⟨worst, hworst⟩ := Option.ne_none_iff_exists'.mp
        (mt List.getLast?_eq_none_iff.mp (List.ne_nil_of_mem hr))
      exact (fst_le_getLast hsound.sorted hworst hr).trans (hfarther worst hworst)
    · exact hf.kept b hb d hd
  | taken hnew d hd kept hkept =>
    have hdistinct : (key :: f.visited).Nodup := List.nodup_cons.mpr ⟨hnew, hf.distinct⟩
    have hself : ∀ d' ∈ dist key, (d', key) ∈ push (d, key) kept := by
      intro d' hd'
      rw [Option.some.inj (hd'.symm.trans hd)]
      exact mem_push.mpr (Or.inl rfl)
    rcases hkept with ⟨hroom, rfl⟩ | ⟨hfull, rfl, worst, hworst, hnearer⟩
    · refine ⟨hdistinct, ?_, fun b hb d' hd' => Or.inl ?_⟩
      · rw [push_length]
        omega
      · rcases List.mem_cons.mp hb with rfl | hb
        · exact hself d' hd'
        · refine mem_push.mpr (Or.inr ((hf.kept b hb d' hd').resolve_right fun hfull => ?_))
          omega
    · obtain ⟨front, hfront⟩ := List.getLast?_eq_some_iff.mp hworst
      have hlength : (push (d, key) f.results.dropLast).length = f.results.length := by
        rw [push_length, hfront, List.dropLast_concat, List.length_append, List.length_singleton]
      -- What is no nearer than the worst of the results is no nearer than any that stay.
      have hbehind : ∀ d', worst.1 ≤ d' → ∀ r ∈ push (d, key) f.results.dropLast, r.1 ≤ d' := by
        intro d' hle r hr
        rcases mem_push.mp hr with rfl | hr
        · exact (hnearer.trans_le hle).le
        · exact (fst_le_getLast hsound.sorted hworst (List.dropLast_subset _ hr)).trans hle
      refine ⟨hdistinct, hlength.le.trans hf.room, fun b hb d' hd' => ?_⟩
      dsimp only
      rw [hlength]
      rcases List.mem_cons.mp hb with rfl | hb
      · exact Or.inl (hself d' hd')
      · rcases hf.kept b hb d' hd' with hmem | ⟨-, hfarther⟩
        · rw [hfront] at hmem
          rcases List.mem_append.mp hmem with hmem | hmem
          · refine Or.inl (mem_push.mpr (Or.inr ?_))
            rw [hfront, List.dropLast_concat]
            exact hmem
          · refine Or.inr ⟨hfull, hbehind d' ?_⟩
            rw [← List.mem_singleton.mp hmem]
        · exact Or.inr ⟨hfull, hbehind d' (hfarther worst (List.mem_of_mem_getLast? hworst))⟩

theorem Best.expands {entry : K} {f f' : Frontier K D} (hsound : Sound dist neighbors entry f)
    (hf : Best dist ef f) (hround : Expands dist neighbors ef f f') : Best dist ef f' := by
  cases hround with
  | expand d key candidates hcandidates _ =>
    obtain ⟨hpopped, hreached⟩ := hsound.pop hcandidates
    have hloop : ∀ (bs : List K) (g : Frontier K D), (∀ b ∈ bs, b ∈ neighbors key) →
        Sound dist neighbors entry g → Best dist ef g →
          Best dist ef (bs.foldl (BestFirst.visit dist ef) g) := by
      intro bs
      induction bs with
      | nil => exact fun g _ _ hg => hg
      | cons b bs ih =>
        intro g hbs hsound hg
        exact ih _ (fun b' hb' => hbs b' (List.mem_cons_of_mem b hb'))
          (hsound.visit hreached (hbs b List.mem_cons_self)) (hg.visit hsound)
    exact hloop (neighbors key) _ (fun b hb => hb) hpopped ⟨hf.distinct, hf.room, hf.kept⟩

/-- As many results as there is room for, or all that is seen and has a distance. -/
theorem Best.length {entry : K} {f : Frontier K D} (hsound : Sound dist neighbors entry f)
    (hf : Best dist ef f) :
    f.results.length = min ef (f.visited.filter fun key => (dist key).isSome).length := by
  have hseen : f.results.length ≤ (f.visited.filter fun key => (dist key).isSome).length := by
    rw [← List.length_map Prod.snd]
    refine (List.subperm_of_subset hsound.distinct fun key hkey => ?_).length_le
    obtain ⟨r, hr, rfl⟩ := List.mem_map.mp hkey
    refine List.mem_filter.mpr ⟨hsound.visited r hr, ?_⟩
    rw [(hsound.results r hr).1]
    rfl
  have hroom := hf.room
  by_cases hfull : ef ≤ f.results.length
  · omega
  · have hall : (f.visited.filter fun key => (dist key).isSome).length ≤ f.results.length := by
      rw [← List.length_map Prod.snd]
      refine (List.subperm_of_subset (hf.distinct.filter _) fun key hkey => ?_).length_le
      obtain ⟨hmem, hsome⟩ := List.mem_filter.mp hkey
      obtain ⟨d, hd⟩ := Option.isSome_iff_exists.mp hsome
      have hresult := (hf.kept key hmem d hd).resolve_right fun h => hfull h.1
      exact List.mem_map.mpr ⟨(d, key), hresult, rfl⟩
    omega

/-- A search comes to an end with the best of all it has seen. -/
theorem search_best (neighbors : K → List K) (hkeys : ∀ key, (dist key).isSome → key ∈ keys)
    (hef : 1 ≤ ef) {fuel : Nat} (hfuel : keys.length ≤ fuel) (entry : K) :
    ∃ f, Relation.ReflTransGen (Expands dist neighbors ef) (start dist entry) f ∧ Halted ef f ∧
      Sound dist neighbors entry f ∧ Best dist ef f ∧
        search dist neighbors ef fuel entry = f.results := by
  obtain ⟨f, hruns, hhalted, hsearch⟩ :=
    walk_halts neighbors ef hkeys ((pending_start hkeys entry).trans hfuel)
  have hkept : Sound dist neighbors entry f ∧ Best dist ef f := by
    clear hhalted hsearch
    induction hruns with
    | refl => exact ⟨sound_start dist neighbors entry, best_start dist hef entry⟩
    | tail _ hround ih => exact ⟨ih.1.expands hround, ih.2.expands ih.1 hround⟩
  exact ⟨f, hruns, hhalted, hkept.1, hkept.2, hsearch⟩

/-! ## Searches with room for everything -/

/-- With room for every key that has a distance, such a key is a result as soon
as it is seen.  `busy` is the key whose neighbors are being visited. -/
structure Wide (dist : K → Option D) (neighbors : K → List K) (busy : K → Prop)
    (f : Frontier K D) : Prop where
  found : ∀ key ∈ f.visited, (dist key).isSome → ∃ r ∈ f.results, r.2 = key
  waiting : ∀ c ∈ f.candidates, c ∈ f.results
  expanded : ∀ r ∈ f.results, r ∈ f.candidates ∨ busy r.2 ∨ ∀ b ∈ neighbors r.2, b ∈ f.visited

omit [LinearOrder K] [LinearOrder D] in
theorem wide_start (dist : K → Option D) (neighbors : K → List K) (entry : K) :
    Wide dist neighbors (fun _ => False) (start dist entry) := by
  rw [start]
  split
  · exact ⟨by simp, fun c hc => hc, fun r hr => Or.inl hr⟩
  · exact ⟨by simp, by simp, by simp⟩

/-- Distinct keys with a distance leave room for one more. -/
theorem Sound.room {entry : K} {f : Frontier K D} (hf : Sound dist neighbors entry f)
    (hkeys : ∀ key, (dist key).isSome → key ∈ keys) {key : K} (hnew : key ∉ f.visited)
    (hdist : (dist key).isSome) : f.results.length < keys.length := by
  have hdistinct : (key :: f.results.map Prod.snd).Nodup := by
    refine List.nodup_cons.mpr ⟨fun hmem => hnew ?_, hf.distinct⟩
    obtain ⟨r, hr, hrkey⟩ := List.mem_map.mp hmem
    rw [← hrkey]
    exact hf.visited r hr
  have hsub : (key :: f.results.map Prod.snd) ⊆ keys := by
    intro k hk
    rcases List.mem_cons.mp hk with rfl | hk
    · exact hkeys k hdist
    · obtain ⟨r, hr, rfl⟩ := List.mem_map.mp hk
      exact hkeys r.2 (by rw [(hf.results r hr).1]; rfl)
  have hle := (List.subperm_of_subset hdistinct hsub).length_le
  rw [List.length_cons, List.length_map] at hle
  omega

theorem Wide.visit (hkeys : ∀ key, (dist key).isSome → key ∈ keys) (hef : keys.length ≤ ef)
    {busy : K → Prop} {entry : K} {f : Frontier K D} (hsound : Sound dist neighbors entry f)
    (hf : Wide dist neighbors busy f) (b : K) :
    Wide dist neighbors busy (BestFirst.visit dist ef f b) ∧
      ∀ key, key = b ∨ key ∈ f.visited → key ∈ (BestFirst.visit dist ef f b).visited := by
  have hcases := visit_cases dist ef f b
  generalize BestFirst.visit dist ef f b = f' at hcases
  cases hcases with
  | seen hseen =>
    refine ⟨hf, ?_⟩
    rintro key (rfl | hkey)
    · exact hseen
    · exact hkey
  | passed hnew hpassed =>
    have hnone : dist b = none := by
      by_contra hsome
      obtain ⟨d, hd⟩ := Option.ne_none_iff_exists'.mp hsome
      have hfull := (hpassed d hd).1
      have hroom := hsound.room hkeys hnew (Option.isSome_iff_ne_none.mpr hsome)
      omega
    refine ⟨⟨fun key hkey hdist => ?_, hf.waiting, fun r hr => ?_⟩, fun key => List.mem_cons.mpr⟩
    · rcases List.mem_cons.mp hkey with rfl | hkey
      · rw [hnone] at hdist
        exact absurd hdist (by simp)
      · exact hf.found key hkey hdist
    · exact (hf.expanded r hr).imp_right
        (Or.imp_right fun hall b' hb' => List.mem_cons_of_mem b (hall b' hb'))
  | taken hnew d hd kept hkept =>
    obtain rfl : kept = f.results := by
      rcases hkept with ⟨-, heq⟩ | ⟨hfull, -⟩
      · exact heq
      · have hroom := hsound.room hkeys hnew (by rw [hd]; rfl)
        omega
    refine ⟨⟨fun key hkey hdist => ?_, fun c hc => ?_, fun r hr => ?_⟩, fun key => List.mem_cons.mpr⟩
    · rcases List.mem_cons.mp hkey with rfl | hkey
      · exact ⟨(d, key), mem_push.mpr (Or.inl rfl), rfl⟩
      · obtain ⟨r, hr, hrkey⟩ := hf.found key hkey hdist
        exact ⟨r, mem_push.mpr (Or.inr hr), hrkey⟩
    · exact mem_push.mpr ((mem_push.mp hc).imp_right (hf.waiting c))
    · rcases mem_push.mp hr with rfl | hr
      · exact Or.inl (mem_push.mpr (Or.inl rfl))
      · exact (hf.expanded r hr).imp (fun hc => mem_push.mpr (Or.inr hc))
          (Or.imp_right fun hall b' hb' => List.mem_cons_of_mem b (hall b' hb'))

theorem Wide.expand (hkeys : ∀ key, (dist key).isSome → key ∈ keys) (hef : keys.length ≤ ef)
    {busy : K → Prop} {entry a : K} (ha : Reached dist neighbors entry a) {bs : List K}
    (hbs : ∀ b ∈ bs, b ∈ neighbors a) {f : Frontier K D} (hsound : Sound dist neighbors entry f)
    (hf : Wide dist neighbors busy f) :
    Wide dist neighbors busy (bs.foldl (BestFirst.visit dist ef) f) ∧
      ∀ key, key ∈ bs ∨ key ∈ f.visited → key ∈ (bs.foldl (BestFirst.visit dist ef) f).visited := by
  induction bs generalizing f with
  | nil => exact ⟨hf, fun key hkey => hkey.resolve_left List.not_mem_nil⟩
  | cons b bs ih =>
    obtain ⟨hwide, hseen⟩ := hf.visit hkeys hef hsound b
    obtain ⟨hfold, hall⟩ := ih (fun b' hb' => hbs b' (List.mem_cons_of_mem b hb'))
      (hsound.visit ha (hbs b List.mem_cons_self)) hwide
    refine ⟨hfold, fun key hkey => hall key ?_⟩
    rcases hkey with hkey | hkey
    · rcases List.mem_cons.mp hkey with rfl | hkey
      · exact Or.inr (hseen key (Or.inl rfl))
      · exact Or.inl hkey
    · exact Or.inr (hseen key (Or.inr hkey))

/-- A candidate that is a result is no farther than the worst result. -/
theorem Sound.not_halts {entry : K} {f : Frontier K D} (hf : Sound dist neighbors entry f) {c : D × K}
    (hc : c ∈ f.results) : halts ef c.1 f.results = false := by
  rw [halts]
  split
  · rename_i worst hworst
    simp [not_lt.mpr (fst_le_getLast hf.sorted hworst hc)]
  · rfl

theorem walk_wide (hkeys : ∀ key, (dist key).isSome → key ∈ keys) (hef : keys.length ≤ ef)
    {entry : K} {fuel : Nat} {f : Frontier K D} (hsound : Sound dist neighbors entry f)
    (hf : Wide dist neighbors (fun _ => False) f) (hfuel : pending keys f ≤ fuel) :
    ∃ f', Wide dist neighbors (fun _ => False) f' ∧ f'.candidates = [] ∧
      (∀ key ∈ f.visited, key ∈ f'.visited) ∧ walk dist neighbors ef fuel f = f'.results := by
  induction fuel generalizing f with
  | zero =>
    rw [pending] at hfuel
    exact ⟨f, hf, List.length_eq_zero_iff.mp (by omega), fun key hkey => hkey, rfl⟩
  | succ fuel ih =>
    rw [walk]
    split
    · rename_i hempty
      exact ⟨f, hf, hempty, fun key hkey => hkey, rfl⟩
    · rename_i d key candidates hcandidates
      have hpopped : (d, key) ∈ f.candidates := by rw [hcandidates]; exact List.mem_cons_self
      have hrest : ∀ c ∈ candidates, c ∈ f.candidates := by
        intro c hc
        rw [hcandidates]
        exact List.mem_cons_of_mem _ hc
      have hhalts : halts ef d f.results = false := hsound.not_halts (hf.waiting _ hpopped)
      rw [if_neg (by simp [hhalts])]
      obtain ⟨hsound', ha⟩ := hsound.pop hcandidates
      have hwide' : Wide dist neighbors (· = key) { f with candidates } := by
        refine ⟨hf.found, fun c hc => hf.waiting c (hrest c hc), fun r hr => ?_⟩
        rcases hf.expanded r hr with hwaits | hbusy | hall
        · rw [hcandidates] at hwaits
          rcases List.mem_cons.mp hwaits with rfl | hwaits
          · exact Or.inr (Or.inl rfl)
          · exact Or.inl hwaits
        · exact absurd hbusy not_false
        · exact Or.inr (Or.inr hall)
      obtain ⟨hfold, hseen⟩ := hwide'.expand hkeys hef ha (fun b hb => hb) hsound'
      have hnext : Wide dist neighbors (fun _ => False)
          ((neighbors key).foldl (BestFirst.visit dist ef) { f with candidates }) := by
        refine ⟨hfold.found, hfold.waiting, fun r hr => ?_⟩
        rcases hfold.expanded r hr with hwaits | hbusy | hall
        · exact Or.inl hwaits
        · exact Or.inr (Or.inr fun b hb => hseen b (Or.inl (hbusy ▸ hb)))
        · exact Or.inr (Or.inr hall)
      have hpop := pending_pop keys hcandidates
      have hexpand := pending_expand ef hkeys (neighbors key) { f with candidates }
      have hleft : pending keys
          ((neighbors key).foldl (BestFirst.visit dist ef) { f with candidates }) ≤ fuel := by omega
      obtain ⟨f', hf', hempty, hvisited, hwalk⟩ :=
        ih (hsound'.expand ha fun b hb => hb) hnext hleft
      exact ⟨f', hf', hempty, fun k hk => hvisited k (hseen k (Or.inr hk)), hwalk⟩

/-- With room for every key that has a distance, the results are what can be
reached from an entry that has one. -/
theorem mem_search_wide (hkeys : ∀ key, (dist key).isSome → key ∈ keys)
    (hef : keys.length ≤ ef) {fuel : Nat} (hfuel : keys.length ≤ fuel) {entry : K}
    (hentry : (dist entry).isSome) (key : K) :
    key ∈ (search dist neighbors ef fuel entry).map Prod.snd ↔
      Reached dist neighbors entry key := by
  constructor
  · intro hkey
    obtain ⟨r, hr, rfl⟩ := List.mem_map.mp hkey
    exact (mem_search hr).2
  · intro hreached
    obtain ⟨f', hf', hempty, hvisited, hsearch⟩ := walk_wide hkeys hef
      (sound_start dist neighbors entry) (wide_start dist neighbors entry)
      ((pending_start hkeys entry).trans hfuel)
    have hfirst : entry ∈ f'.visited := by
      obtain ⟨d, hd⟩ := Option.isSome_iff_exists.mp hentry
      refine hvisited entry ?_
      rw [start, hd]
      exact List.mem_singleton_self entry
    rw [search, hsearch]
    induction hreached with
    | refl =>
      obtain ⟨r, hr, hrkey⟩ := hf'.found entry hfirst hentry
      exact List.mem_map.mpr ⟨r, hr, hrkey⟩
    | tail _ hedge ih =>
      rename_i b c _
      obtain ⟨r, hr, rfl⟩ := List.mem_map.mp ih
      obtain ⟨hc, hdist⟩ := hedge
      have hseen : c ∈ f'.visited := by
        rcases hf'.expanded r hr with hwaits | hbusy | hall
        · rw [hempty] at hwaits
          exact absurd hwaits List.not_mem_nil
        · exact absurd hbusy not_false
        · exact hall c hc
      obtain ⟨r', hr', hrc⟩ := hf'.found c hseen hdist
      exact List.mem_map.mpr ⟨r', hr', hrc⟩

end Search

end BestFirst
end RTDB
