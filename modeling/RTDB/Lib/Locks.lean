import Mathlib.Algebra.GroupWithZero.Nat
import Mathlib.Data.List.AList
import Mathlib.Data.List.FinRange

/-!
# Locks that are not reentrant

What one thread does when no other thread runs.  A lock it asks for is granted unless the
thread holds it already in a mode that does not go with the new one; such a thread waits
for itself, and nothing of its routine comes after that.
-/

namespace RTDB
namespace Locks

inductive Mode where
  | shared
  | exclusive
  deriving DecidableEq, Repr

/-- The locks a thread holds, the youngest first. -/
abbrev Held (ι : Type) := List (ι × Mode)

def Held.Grants {ι : Type} (held : Held ι) (lock : ι) : Mode → Prop
  | .shared => (lock, Mode.exclusive) ∉ held
  | .exclusive => (lock, Mode.shared) ∉ held ∧ (lock, Mode.exclusive) ∉ held

instance {ι : Type} [DecidableEq ι] (held : Held ι) (lock : ι) :
    (mode : Mode) → Decidable (held.Grants lock mode)
  | .shared => inferInstanceAs (Decidable ((lock, Mode.exclusive) ∉ held))
  | .exclusive =>
    inferInstanceAs (Decidable ((lock, Mode.shared) ∉ held ∧ (lock, Mode.exclusive) ∉ held))

@[simp] theorem grants_nil {ι : Type} (lock : ι) (mode : Mode) :
    Held.Grants ([] : Held ι) lock mode := by
  cases mode with
  | shared => exact List.not_mem_nil
  | exclusive => exact ⟨List.not_mem_nil, List.not_mem_nil⟩

theorem grants_cons_of_ne {ι : Type} {held : Held ι} {lock other : ι} {mode : Mode}
    (hne : other ≠ lock) (taken : Mode) :
    Held.Grants ((other, taken) :: held) lock mode ↔ held.Grants lock mode := by
  have hfirst : ∀ m, (lock, m) ≠ (other, taken) := by
    intro m heq
    exact hne (Prod.mk.inj heq).1.symm
  cases mode with
  | shared =>
    show (lock, Mode.exclusive) ∉ (other, taken) :: held ↔ (lock, Mode.exclusive) ∉ held
    rw [List.mem_cons, not_or, and_iff_right (hfirst _)]
  | exclusive =>
    show (lock, Mode.shared) ∉ (other, taken) :: held ∧
      (lock, Mode.exclusive) ∉ (other, taken) :: held ↔
      (lock, Mode.shared) ∉ held ∧ (lock, Mode.exclusive) ∉ held
    rw [List.mem_cons, List.mem_cons, not_or, not_or, and_iff_right (hfirst _),
      and_iff_right (hfirst _)]

theorem grants_of_forall_ne {ι : Type} {held : Held ι} {lock : ι}
    (hne : ∀ taken ∈ held, taken.1 ≠ lock) (mode : Mode) : held.Grants lock mode := by
  induction held with
  | nil => exact grants_nil lock mode
  | cons taken held ih =>
    rw [List.forall_mem_cons] at hne
    exact (grants_cons_of_ne hne.1 taken.2).mpr (ih hne.2)

theorem not_grants_of_exclusive {ι : Type} {held : Held ι} {lock : ι} (mode : Mode)
    (hheld : (lock, Mode.exclusive) ∈ held) : ¬held.Grants lock mode := by
  cases mode with
  | shared => exact not_not.mpr hheld
  | exclusive => exact fun hgrants => hgrants.2 hheld

theorem not_grants_exclusive {ι : Type} {held : Held ι} {lock : ι} {mode : Mode}
    (hheld : (lock, mode) ∈ held) : ¬held.Grants lock .exclusive := by
  cases mode with
  | shared => exact fun hgrants => hgrants.1 hheld
  | exclusive => exact fun hgrants => hgrants.2 hheld

/-- From the locks the thread holds and the state, the value and the state the thread comes
to, or the lock it holds itself and waits for. -/
def Routine (ι σ α : Type) := Held ι → σ → Except ι (α × σ)

variable {ι σ α β : Type}

namespace Routine

instance : Monad (Routine ι σ) where
  pure a := fun _ s => .ok (a, s)
  bind t f := fun held s =>
    match t held s with
    | .ok (a, s') => f a held s'
    | .error lock => .error lock

theorem pure_apply (a : α) {held : Held ι} {s : σ} :
    (pure a : Routine ι σ α) held s = .ok (a, s) :=
  rfl

theorem bind_apply {t : Routine ι σ α} {f : α → Routine ι σ β} {held : Held ι} {s s' : σ} {a : α}
    (ht : t held s = .ok (a, s')) : (t >>= f) held s = f a held s' := by
  show (match t held s with
    | .ok (a, s') => f a held s'
    | .error lock => .error lock) = f a held s'
  rw [ht]

def read (f : σ → α) : Routine ι σ α :=
  fun _ s => .ok (f s, s)

def modify (f : σ → σ) : Routine ι σ Unit :=
  fun _ s => .ok ((), f s)

/-- The body runs while the thread holds the lock. -/
def under [DecidableEq ι] (lock : ι) (mode : Mode) (body : Routine ι σ α) : Routine ι σ α :=
  fun held s => if held.Grants lock mode then body ((lock, mode) :: held) s else .error lock

def visit (body : β → Routine ι σ α) : List β → Routine ι σ (List α)
  | [] => pure []
  | b :: rest => do
    let a ← body b
    let as ← visit body rest
    pure (a :: as)

/-- The state that the thread leaves when it starts without a lock; none when it waits for itself. -/
def alone (t : Routine ι σ α) (s : σ) : Option σ :=
  match t [] s with
  | .ok (_, s') => some s'
  | .error _ => none

def Completes (t : Routine ι σ α) (held : Held ι) (s : σ) : Prop :=
  ∃ a s', t held s = .ok (a, s')

def Keeps (t : Routine ι σ α) (held : Held ι) (s : σ) : Prop :=
  ∀ a s', t held s = .ok (a, s') → s' = s

theorem completes_of_eq {t : Routine ι σ α} {held : Held ι} {s s' : σ} {a : α}
    (ht : t held s = .ok (a, s')) : Completes t held s :=
  ⟨a, s', ht⟩

theorem alone_eq_some_iff {t : Routine ι σ α} {s s' : σ} :
    t.alone s = some s' ↔ ∃ a, t [] s = .ok (a, s') := by
  unfold alone
  cases t [] s with
  | error lock => simp
  | ok r => exact ⟨fun heq => ⟨r.1, by rw [← Option.some.inj heq]⟩, fun ⟨a, heq⟩ =>
      congrArg some (Prod.mk.inj (Except.ok.inj heq)).2⟩

theorem isSome_alone_iff {t : Routine ι σ α} {s : σ} :
    (t.alone s).isSome = true ↔ Completes t [] s := by
  unfold alone Completes
  cases t [] s with
  | error lock => simp
  | ok r => exact iff_of_true rfl ⟨r.1, r.2, rfl⟩

theorem keeps_of_eq {t : Routine ι σ α} {held : Held ι} {s : σ} {a : α}
    (ht : t held s = .ok (a, s)) : Keeps t held s := by
  intro b s' heq
  exact (Prod.mk.inj (Except.ok.inj (ht.symm.trans heq))).2.symm

theorem keeps_of_not_completes {t : Routine ι σ α} {held : Held ι} {s : σ}
    (hblocked : ¬Completes t held s) : Keeps t held s :=
  fun _ _ heq => absurd (completes_of_eq heq) hblocked

theorem completes_pure (a : α) (held : Held ι) (s : σ) :
    Completes (pure a : Routine ι σ α) held s :=
  ⟨a, s, rfl⟩

theorem keeps_pure (a : α) (held : Held ι) (s : σ) : Keeps (pure a : Routine ι σ α) held s :=
  keeps_of_eq (pure_apply a)

theorem completes_read (f : σ → α) (held : Held ι) (s : σ) :
    Completes (Routine.read f) held s :=
  ⟨f s, s, rfl⟩

theorem keeps_read (f : σ → α) (held : Held ι) (s : σ) : Keeps (Routine.read f) held s :=
  keeps_of_eq rfl

theorem completes_bind_iff {t : Routine ι σ α} {f : α → Routine ι σ β} {held : Held ι} {s : σ} :
    Completes (t >>= f) held s ↔ ∃ a s', t held s = .ok (a, s') ∧ Completes (f a) held s' := by
  cases ht : t held s with
  | error lock =>
    have hblocked : (t >>= f) held s = .error lock := by
      show (match t held s with
        | .ok (a, s') => f a held s'
        | .error lock => .error lock) = .error lock
      rw [ht]
    simp [Completes, hblocked]
  | ok r =>
    obtain ⟨a, s'⟩ := r
    rw [Completes, bind_apply ht]
    constructor
    · intro hrest
      exact ⟨a, s', rfl, hrest⟩
    · rintro ⟨b, s'', heq, hrest⟩
      obtain ⟨rfl, rfl⟩ := Prod.mk.inj (Except.ok.inj heq)
      exact hrest

/-- What is done with the value at the end needs no lock. -/
theorem completes_bind_pure_iff {t : Routine ι σ α} {f : α → β} {held : Held ι} {s : σ} :
    Completes (t >>= fun a => pure (f a)) held s ↔ Completes t held s := by
  rw [completes_bind_iff]
  constructor
  · rintro ⟨a, s', heq, -⟩
    exact completes_of_eq heq
  · rintro ⟨a, s', heq⟩
    exact ⟨a, s', heq, completes_pure (f a) held s'⟩

theorem keeps_bind {t : Routine ι σ α} {f : α → Routine ι σ β} {held : Held ι} {s : σ}
    (ht : Keeps t held s) (hf : ∀ a, Keeps (f a) held s) : Keeps (t >>= f) held s := by
  intro b s'' heq
  obtain ⟨a, s', hfirst, -⟩ := completes_bind_iff.mp (completes_of_eq heq)
  obtain rfl := ht a s' hfirst
  rw [bind_apply hfirst] at heq
  exact hf a b s'' heq

section Under

variable [DecidableEq ι] {lock : ι} {mode : Mode} {body : Routine ι σ α} {held : Held ι} {s : σ}

theorem under_granted (hgrants : held.Grants lock mode) :
    under lock mode body held s = body ((lock, mode) :: held) s :=
  if_pos hgrants

theorem completes_under_iff :
    Completes (under lock mode body) held s ↔
      held.Grants lock mode ∧ Completes body ((lock, mode) :: held) s := by
  by_cases hgrants : held.Grants lock mode
  · rw [Completes, under_granted hgrants]
    exact (and_iff_right hgrants).symm
  · have hblocked : under lock mode body held s = .error lock := if_neg hgrants
    simp [Completes, hblocked, hgrants]

theorem keeps_under (hbody : Keeps body ((lock, mode) :: held) s) :
    Keeps (under lock mode body) held s := by
  intro a s' heq
  obtain ⟨hgrants, -⟩ := completes_under_iff.mp (completes_of_eq heq)
  rw [under_granted hgrants] at heq
  exact hbody a s' heq

end Under

section Visit

variable {body : β → Routine ι σ α} {held : Held ι} {s : σ}

theorem keeps_visit {l : List β} (hkeeps : ∀ b ∈ l, Keeps (body b) held s) :
    Keeps (visit body l) held s := by
  induction l with
  | nil => exact keeps_pure [] held s
  | cons b rest ih =>
    refine keeps_bind (hkeeps b List.mem_cons_self) fun a => ?_
    refine keeps_bind (ih fun c hc => hkeeps c (List.mem_cons_of_mem b hc)) fun as => ?_
    exact keeps_pure (a :: as) held s

/-- A visit whose body leaves the state alone completes exactly when it does on every item. -/
theorem completes_visit_iff {l : List β} (hkeeps : ∀ b ∈ l, Keeps (body b) held s) :
    Completes (visit body l) held s ↔ ∀ b ∈ l, Completes (body b) held s := by
  induction l with
  | nil =>
    exact iff_of_true (completes_pure [] held s) (fun b hb => absurd hb List.not_mem_nil)
  | cons b rest ih =>
    have hrest := ih fun c hc => hkeeps c (List.mem_cons_of_mem b hc)
    rw [List.forall_mem_cons, ← hrest]
    show Completes (body b >>= fun a => visit body rest >>= fun as => pure (a :: as)) held s ↔ _
    rw [completes_bind_iff]
    constructor
    · rintro ⟨a, s', hfirst, hlast⟩
      obtain rfl := hkeeps b List.mem_cons_self a s' hfirst
      obtain ⟨as, s'', hmid, -⟩ := completes_bind_iff.mp hlast
      exact ⟨completes_of_eq hfirst, completes_of_eq hmid⟩
    · rintro ⟨⟨a, s', hfirst⟩, as, s'', hmid⟩
      obtain rfl := hkeeps b List.mem_cons_self a s' hfirst
      exact ⟨a, s', hfirst, completes_bind_iff.mpr
        ⟨as, s'', hmid, completes_pure (a :: as) held s''⟩⟩

end Visit

end Routine

/-! ## Maps in shards

A map of the state that is split into shards, each behind a lock of its own.  A reference to
an entry holds the lock of its shard while it lives, and so does an iterator for the shard
it has come to. -/

structure DashMap (ι σ κ ν : Type) where
  shards : Nat
  shardOf : κ → Fin shards
  lock : Fin shards → ι
  entries : σ → AList fun _ : κ => ν
  store : (AList fun _ : κ => ν) → σ → σ

namespace DashMap

open Routine

variable {κ ν : Type}

def lockOf (map : DashMap ι σ κ ν) (key : κ) : ι :=
  map.lock (map.shardOf key)

def shard (map : DashMap ι σ κ ν) (i : Fin map.shards) (s : σ) : List (Sigma fun _ : κ => ν) :=
  (map.entries s).entries.filter fun entry => map.shardOf entry.1 = i

theorem mem_shard_iff [DecidableEq κ] {map : DashMap ι σ κ ν} {s : σ} {key : κ} {value : ν}
    {i : Fin map.shards} :
    ⟨key, value⟩ ∈ map.shard i s ↔
      (map.entries s).lookup key = some value ∧ map.shardOf key = i := by
  rw [shard, List.mem_filter, decide_eq_true_iff]
  exact and_congr_left fun _ => (AList.mem_lookup_iff (s := map.entries s)).symm

section Rounds

variable [DecidableEq ι] (map : DashMap ι σ κ ν)

/-- One shard after the other, each locked while the body runs on it. -/
def eachShard (body : Fin map.shards → Routine ι σ α) : Routine ι σ (List α) :=
  visit (fun i => under (map.lock i) .shared (body i)) (List.finRange map.shards)

/-- The body runs on an entry while the shard of the entry is locked. -/
def iterate (body : κ → ν → Routine ι σ α) : Routine ι σ (List α) := do
  let found ← map.eachShard fun i => do
    let entries ← Routine.read (map.shard i)
    visit (fun entry => body entry.1 entry.2) entries
  pure found.flatten

/-- The number of entries, shard by shard. -/
def len : Routine ι σ Nat := do
  let counts ← map.eachShard fun i => Routine.read fun s => (map.shard i s).length
  pure counts.sum

variable {map} {held : Held ι} {s : σ}

theorem keeps_eachShard {body : Fin map.shards → Routine ι σ α}
    (hkeeps : ∀ i, Keeps (body i) ((map.lock i, .shared) :: held) s) :
    Keeps (map.eachShard body) held s :=
  keeps_visit fun i _ => keeps_under (hkeeps i)

theorem completes_eachShard_iff {body : Fin map.shards → Routine ι σ α}
    (hkeeps : ∀ i, Keeps (body i) ((map.lock i, .shared) :: held) s) :
    Completes (map.eachShard body) held s ↔
      ∀ i, held.Grants (map.lock i) .shared ∧
        Completes (body i) ((map.lock i, .shared) :: held) s := by
  rw [eachShard, completes_visit_iff fun i _ => keeps_under (hkeeps i)]
  constructor
  · intro hall i
    exact completes_under_iff.mp (hall i (List.mem_finRange i))
  · intro hall i _
    exact completes_under_iff.mpr (hall i)

/-- Only the locks of the shards can keep `len` from its end. -/
theorem completes_len_iff :
    Completes map.len held s ↔ ∀ i, held.Grants (map.lock i) .shared := by
  rw [len, completes_bind_pure_iff, completes_eachShard_iff fun i => keeps_read _ _ _]
  exact forall_congr' fun i => and_iff_left (completes_read _ _ s)

end Rounds

section Entries

variable [DecidableEq ι] [DecidableEq κ] (map : DashMap ι σ κ ν)

/-- The reference is there while the body for a present key runs; without an entry the lock
is given back at once. -/
def withRef (key : κ) (mode : Mode) (absent : Routine ι σ α) (present : ν → Routine ι σ α) :
    Routine ι σ α := fun held s =>
  if held.Grants (map.lockOf key) mode then
    match (map.entries s).lookup key with
    | none => absent held s
    | some value => present value ((map.lockOf key, mode) :: held) s
  else .error (map.lockOf key)

def get (key : κ) : Routine ι σ (Option ν) :=
  under (map.lockOf key) .shared (Routine.read fun s => (map.entries s).lookup key)

def containsKey (key : κ) : Routine ι σ Bool := do
  let value ← map.get key
  pure value.isSome

def put (key : κ) (value : ν) : Routine ι σ Unit :=
  modify fun s => map.store ((map.entries s).insert key value) s

def insert (key : κ) (value : ν) : Routine ι σ Unit :=
  under (map.lockOf key) .exclusive (map.put key value)

def remove (key : κ) : Routine ι σ (Option ν) :=
  under (map.lockOf key) .exclusive do
    let value ← Routine.read fun s => (map.entries s).lookup key
    modify fun s => map.store ((map.entries s).erase key) s
    pure value

/-- The entry is there while the body runs, with this value at first when the key is new. -/
def withEntryOrInsert (key : κ) (value : ν) (body : ν → Routine ι σ α) : Routine ι σ α :=
  under (map.lockOf key) .exclusive do
    match ← Routine.read fun s => (map.entries s).lookup key with
    | some old => body old
    | none => do
      map.put key value
      body value

variable {map} {key : κ} {value : ν} {held : Held ι} {s : σ}

theorem insert_granted (hgrants : held.Grants (map.lockOf key) .exclusive) :
    map.insert key value held s =
      .ok ((), map.store ((map.entries s).insert key value) s) := by
  rw [insert, under_granted hgrants]
  rfl

theorem remove_granted (hgrants : held.Grants (map.lockOf key) .exclusive) :
    map.remove key held s =
      .ok ((map.entries s).lookup key, map.store ((map.entries s).erase key) s) := by
  rw [remove, under_granted hgrants]
  rfl

theorem get_granted (hgrants : held.Grants (map.lockOf key) .shared) :
    map.get key held s = .ok ((map.entries s).lookup key, s) := by
  rw [get, under_granted hgrants]
  rfl

theorem containsKey_granted (hgrants : held.Grants (map.lockOf key) .shared) :
    map.containsKey key held s = .ok (((map.entries s).lookup key).isSome, s) := by
  rw [containsKey, bind_apply (get_granted hgrants), pure_apply]

theorem withRef_of_none {mode : Mode} {absent : Routine ι σ α} {present : ν → Routine ι σ α}
    (hgrants : held.Grants (map.lockOf key) mode) (hnone : (map.entries s).lookup key = none) :
    map.withRef key mode absent present held s = absent held s := by
  rw [withRef, if_pos hgrants, hnone]

theorem withRef_of_some {mode : Mode} {absent : Routine ι σ α} {present : ν → Routine ι σ α}
    (hgrants : held.Grants (map.lockOf key) mode)
    (hsome : (map.entries s).lookup key = some value) :
    map.withRef key mode absent present held s =
      present value ((map.lockOf key, mode) :: held) s := by
  rw [withRef, if_pos hgrants, hsome]

theorem withEntryOrInsert_of_some {body : ν → Routine ι σ α}
    (hgrants : held.Grants (map.lockOf key) .exclusive)
    (hsome : (map.entries s).lookup key = some value) (new : ν) :
    map.withEntryOrInsert key new body held s =
      body value ((map.lockOf key, .exclusive) :: held) s := by
  rw [withEntryOrInsert, under_granted hgrants]
  have hread : (Routine.read fun s => (map.entries s).lookup key : Routine ι σ (Option ν))
      ((map.lockOf key, .exclusive) :: held) s = .ok (some value, s) := by
    rw [← hsome]
    rfl
  rw [bind_apply hread]

theorem withEntryOrInsert_of_none {body : ν → Routine ι σ α}
    (hgrants : held.Grants (map.lockOf key) .exclusive)
    (hnone : (map.entries s).lookup key = none) (new : ν) :
    map.withEntryOrInsert key new body held s =
      body new ((map.lockOf key, .exclusive) :: held)
        (map.store ((map.entries s).insert key new) s) := by
  rw [withEntryOrInsert, under_granted hgrants]
  have hread : (Routine.read fun s => (map.entries s).lookup key : Routine ι σ (Option ν))
      ((map.lockOf key, .exclusive) :: held) s = .ok (none, s) := by
    rw [← hnone]
    rfl
  rw [bind_apply hread]
  rfl

section Iterate

variable {body : κ → ν → Routine ι σ α}
  (hkeeps : ∀ k v, (map.entries s).lookup k = some v →
    Keeps (body k v) ((map.lockOf k, .shared) :: held) s)

include hkeeps

omit [DecidableEq ι] in
theorem keeps_shardBody (i : Fin map.shards) :
    Keeps (Routine.read (map.shard i) >>= visit fun entry => body entry.1 entry.2)
      ((map.lock i, .shared) :: held) s := by
  intro as s' heq
  refine keeps_visit (l := map.shard i s) (fun entry hentry => ?_) as s' heq
  obtain ⟨k, v⟩ := entry
  obtain ⟨hlookup, rfl⟩ := mem_shard_iff.mp hentry
  exact hkeeps k v hlookup

theorem keeps_iterate : Keeps (map.iterate body) held s :=
  keeps_bind (keeps_eachShard (keeps_shardBody hkeeps)) fun _ => keeps_pure _ held s

/-- A round over the map whose body leaves the state alone needs every shard, and completes
exactly when the body does on every entry, with the shard of the entry locked. -/
theorem completes_iterate_iff :
    Completes (map.iterate body) held s ↔
      (∀ i, held.Grants (map.lock i) .shared) ∧
        ∀ k v, (map.entries s).lookup k = some v →
          Completes (body k v) ((map.lockOf k, .shared) :: held) s := by
  have hshard : ∀ i, Completes (Routine.read (map.shard i) >>= visit fun entry =>
      body entry.1 entry.2) ((map.lock i, .shared) :: held) s ↔
      ∀ entry ∈ map.shard i s,
        Completes (body entry.1 entry.2) ((map.lock i, .shared) :: held) s := by
    intro i
    refine completes_visit_iff fun entry hentry => ?_
    obtain ⟨k, v⟩ := entry
    obtain ⟨hlookup, rfl⟩ := mem_shard_iff.mp hentry
    exact hkeeps k v hlookup
  rw [iterate, completes_bind_pure_iff, completes_eachShard_iff (keeps_shardBody hkeeps)]
  constructor
  · intro hall
    refine ⟨fun i => (hall i).1, fun k v hlookup => ?_⟩
    exact (hshard _).mp (hall (map.shardOf k)).2 ⟨k, v⟩ (mem_shard_iff.mpr ⟨hlookup, rfl⟩)
  · rintro ⟨hgrants, hbody⟩ i
    refine ⟨hgrants i, (hshard i).mpr fun entry hentry => ?_⟩
    obtain ⟨k, v⟩ := entry
    obtain ⟨hlookup, rfl⟩ := mem_shard_iff.mp hentry
    exact hbody k v hlookup

end Iterate

end Entries

end DashMap

end Locks
end RTDB
