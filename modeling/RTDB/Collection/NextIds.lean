import RTDB.Collection.InStep

/-!
# Ids that a collection generates

Calls of `upsert` and `next_id` on one collection, in any interleaving of their
loads, stores and additions to `next_id`.  An upsert loads the counter and stores
into it later; `next_id` adds to it in one step.
-/

namespace RTDB

open Storage Index Runs

variable {P D : Type}

namespace Collection

/-! ## Interleavings -/

/-- Where an upsert is in its round. -/
inductive Stage where
  | next
  /-- The vector is in storage and index. -/
  | added (id : VectorId)
  /-- The loaded counter was not past the id. -/
  | behind (id : VectorId)
  deriving DecidableEq, Repr

structure UpsertCall where
  todo : List VectorId
  stage : Stage
  ids : List VectorId
  deriving DecidableEq, Repr

/-- `next_id`, the upserts under way, what the others stored, and what `next_id` returned. -/
structure IdState where
  counter : Nat
  calls : List UpsertCall
  completed : List VectorId
  returned : List VectorId
  deriving DecidableEq, Repr

inductive IdEvent where
  | begin (ids : List VectorId)
  | add (k : Nat)
  | fail (k : Nat)
  | load (k : Nat)
  | store (k : Nat)
  | finish (k : Nat)
  | nextId
  deriving DecidableEq, Repr

namespace IdState

def start (counter : Nat) (held : List VectorId) : IdState :=
  { counter, calls := [], completed := held, returned := [] }

/-- Ids are `u64`. -/
def step (s : IdState) : IdEvent → Option IdState
  | .begin ids =>
    if ∀ id ∈ ids, id < 2 ^ 64 then
      some { s with calls := s.calls ++ [{ todo := ids, stage := .next, ids := [] }] }
    else none
  | .add k =>
    match s.calls[k]? with
    | some { todo := id :: todo, stage := .next, ids } =>
      some { s with calls := s.calls.set k { todo, stage := .added id, ids } }
    | _ => none
  | .fail k =>
    match s.calls[k]? with
    | some { todo := _ :: _, stage := .next, .. } => some { s with calls := s.calls.eraseIdx k }
    | _ => none
  | .load k =>
    match s.calls[k]? with
    | some { todo, stage := .added id, ids } =>
      let stage := if id ≥ s.counter then .behind id else .next
      some { s with calls := s.calls.set k { todo, stage, ids := ids ++ [id] } }
    | _ => none
  | .store k =>
    match s.calls[k]? with
    | some { todo, stage := .behind id, ids } =>
      some { s with
        counter := wrappingAdd id 1
        calls := s.calls.set k { todo, stage := .next, ids } }
    | _ => none
  | .finish k =>
    match s.calls[k]? with
    | some { todo := [], stage := .next, ids } =>
      some { s with calls := s.calls.eraseIdx k, completed := s.completed ++ ids }
    | _ => none
  | .nextId =>
    some { s with counter := wrappingAdd s.counter 1, returned := s.returned ++ [s.counter] }

/-- What `next_id` returns was neither stored by a completed upsert nor returned before. -/
def Fresh (s : IdState) : IdEvent → Prop
  | .nextId => s.counter ∉ s.completed ∧ s.counter ∉ s.returned
  | _ => True

def pending (s : IdState) (k : Nat) : Option VectorId :=
  s.calls[k]?.bind fun call =>
    match call.stage with
    | .behind id => some id
    | _ => none

def Climbs (s : IdState) : IdEvent → Prop
  | .store k => ∀ id ∈ s.pending k, s.counter ≤ id + 1 ∧ id + 1 < 2 ^ 64
  | .nextId => s.counter + 1 < 2 ^ 64
  | _ => True

instance (s : IdState) : (event : IdEvent) → Decidable (s.Climbs event)
  | .store k => inferInstanceAs (Decidable (∀ id ∈ s.pending k, _ ∧ _))
  | .nextId => inferInstanceAs (Decidable (_ < _))
  | .begin _ | .add _ | .fail _ | .load _ | .finish _ => isTrue trivial

instance (s : IdState) : (event : IdEvent) → Decidable (s.Fresh event)
  | .nextId => inferInstanceAs (Decidable (_ ∧ _))
  | .begin _ | .add _ | .fail _ | .load _ | .store _ | .finish _ => isTrue trivial

/-! ## Below the counter -/

/-- Every id that was stored or returned is below the counter, but for those whose successor is
still to be stored. -/
structure Below (s : IdState) : Prop where
  completed : ∀ id ∈ s.completed, id < s.counter
  returned : ∀ id ∈ s.returned, id < s.counter
  calls : ∀ call ∈ s.calls, ∀ id ∈ call.ids, id < s.counter ∨ call.stage = .behind id

theorem Below.fresh {s : IdState} (hs : s.Below) (event : IdEvent) : s.Fresh event := by
  cases event with
  | nextId =>
    exact ⟨fun hmem => Nat.lt_irrefl _ (hs.completed _ hmem),
      fun hmem => Nat.lt_irrefl _ (hs.returned _ hmem)⟩
  | _ => trivial

theorem forall_mem_set {calls : List UpsertCall} {k : Nat} {call : UpsertCall}
    {Q : UpsertCall → Prop} (hall : ∀ other ∈ calls, Q other) (hcall : Q call) :
    ∀ other ∈ calls.set k call, Q other := by
  intro other hother
  rcases List.mem_or_eq_of_mem_set hother with hmem | rfl
  · exact hall other hmem
  · exact hcall

theorem Below.raise {s : IdState} {counter : Nat} (hs : s.Below) (hle : s.counter ≤ counter) :
    Below { s with counter } := by
  obtain ⟨hcompleted, hreturned, hcalls⟩ := hs
  refine ⟨fun id hid => ?_, fun id hid => ?_, fun call hcall id hid => ?_⟩
  · exact (hcompleted id hid).trans_le hle
  · exact (hreturned id hid).trans_le hle
  · exact (hcalls call hcall id hid).imp_left fun hlt => hlt.trans_le hle

theorem Below.set {s : IdState} (hs : s.Below) (k : Nat) {call : UpsertCall}
    (hcall : ∀ id ∈ call.ids, id < s.counter ∨ call.stage = .behind id) :
    Below { s with calls := s.calls.set k call } :=
  ⟨hs.completed, hs.returned, forall_mem_set hs.calls hcall⟩

theorem Below.erase {s : IdState} (hs : s.Below) (k : Nat) :
    Below { s with calls := s.calls.eraseIdx k } :=
  ⟨hs.completed, hs.returned, fun call hcall => hs.calls call (List.mem_of_mem_eraseIdx hcall)⟩

/-- With no successor to store, all ids of an upsert are below the counter. -/
theorem Below.lt {s : IdState} (hs : s.Below) {k : Nat} {call : UpsertCall}
    (hcall : s.calls[k]? = some call) (hstage : ∀ id, call.stage ≠ .behind id) {id : VectorId}
    (hid : id ∈ call.ids) : id < s.counter :=
  (hs.calls call (List.mem_of_getElem? hcall) id hid).resolve_right (hstage id)

theorem Below.load {s : IdState} (hs : s.Below) {k : Nat} {todo : List VectorId} {id : VectorId}
    {ids : List VectorId} (hcall : s.calls[k]? = some { todo, stage := .added id, ids }) :
    Below { s with
      calls := s.calls.set k
        { todo, stage := if id ≥ s.counter then .behind id else .next, ids := ids ++ [id] } } := by
  refine hs.set k fun id' hid' => ?_
  rcases List.mem_append.mp hid' with hmem | hlast
  · exact Or.inl (hs.lt hcall (by simp) hmem)
  · obtain rfl := List.mem_singleton.mp hlast
    show id' < s.counter ∨ (if id' ≥ s.counter then Stage.behind id' else .next) = .behind id'
    split
    · exact Or.inr rfl
    · exact Or.inl (Nat.lt_of_not_le ‹_›)

theorem Below.store {s : IdState} (hs : s.Below) {k : Nat} {todo : List VectorId} {id : VectorId}
    {ids : List VectorId} (hcall : s.calls[k]? = some { todo, stage := .behind id, ids })
    (hle : s.counter ≤ id + 1) :
    Below { s with counter := id + 1, calls := s.calls.set k { todo, stage := .next, ids } } := by
  refine (hs.raise hle).set k fun id' hid' => Or.inl ?_
  rcases hs.calls _ (List.mem_of_getElem? hcall) id' hid' with hlt | hbehind
  · exact hlt.trans_le hle
  · obtain rfl := Stage.behind.inj hbehind
    exact Nat.lt_succ_self id

theorem Below.nextId {s : IdState} (hs : s.Below) :
    Below { s with counter := s.counter + 1, returned := s.returned ++ [s.counter] } := by
  obtain ⟨hcompleted, hreturned, hcalls⟩ := hs.raise (Nat.le_succ s.counter)
  refine ⟨hcompleted, fun id hid => ?_, hcalls⟩
  rcases List.mem_append.mp hid with hmem | hlast
  · exact hreturned id hmem
  · rw [List.mem_singleton.mp hlast]
    exact Nat.lt_succ_self _

theorem Below.step {s s' : IdState} {event : IdEvent} (hs : s.Below) (hclimbs : s.Climbs event)
    (hstep : s.step event = some s') : s'.Below := by
  cases event with
  | begin ids =>
    rw [IdState.step] at hstep
    split at hstep
    · obtain rfl := Option.some.inj hstep
      refine ⟨hs.completed, hs.returned, fun call hcall => ?_⟩
      rcases List.mem_append.mp hcall with hmem | hnew
      · exact hs.calls call hmem
      · rw [List.mem_singleton.mp hnew]
        exact fun id hid => absurd hid List.not_mem_nil
    · exact absurd hstep (by simp)
  | add k =>
    simp only [IdState.step] at hstep
    split at hstep
    · rename_i id todo ids hcall
      obtain rfl := Option.some.inj hstep
      exact hs.set k fun id' hid' => Or.inl (hs.lt hcall (by simp) hid')
    · exact absurd hstep (by simp)
  | fail k =>
    simp only [IdState.step] at hstep
    split at hstep
    · obtain rfl := Option.some.inj hstep
      exact hs.erase k
    · exact absurd hstep (by simp)
  | load k =>
    simp only [IdState.step] at hstep
    split at hstep
    · rename_i todo id ids hcall
      obtain rfl := Option.some.inj hstep
      exact hs.load hcall
    · exact absurd hstep (by simp)
  | store k =>
    simp only [IdState.step] at hstep
    split at hstep
    · rename_i todo id ids hcall
      have hpending : id ∈ s.pending k := by
        rw [pending, hcall]
        rfl
      obtain ⟨hle, hfits⟩ := hclimbs id hpending
      obtain rfl := Option.some.inj hstep
      rw [wrappingAdd_eq hfits]
      exact hs.store hcall hle
    · exact absurd hstep (by simp)
  | finish k =>
    simp only [IdState.step] at hstep
    split at hstep
    · rename_i ids hcall
      obtain rfl := Option.some.inj hstep
      refine ⟨fun id hid => ?_, hs.returned, (hs.erase k).calls⟩
      rcases List.mem_append.mp hid with hmem | hmem
      · exact hs.completed id hmem
      · exact hs.lt hcall (by simp) hmem
    · exact absurd hstep (by simp)
  | nextId =>
    have hfits : s.counter + 1 < 2 ^ 64 := hclimbs
    obtain rfl := Option.some.inj hstep
    rw [wrappingAdd_eq hfits]
    exact hs.nextId

end IdState

/-! ## An upsert by itself -/

section Alone

variable [LinearOrder D] (codec : Codec P) (crc32c : List UInt8 → UInt32)

theorem upsertItem_nextId (c : Collection P D) (item : UpsertItem P) :
    (c.upsertItem codec crc32c item).1.nextId =
      if (c.upsertItem codec crc32c item).2 = .ok () ∧ item.id ≥ c.nextId then
        wrappingAdd item.id 1
      else c.nextId := by
  rw [upsertItem]
  split
  · simp
  · rcases c.storage.put codec crc32c item.id item.vector item.timestamp with ⟨storage, e | _⟩
    · simp
    · simp

omit [LinearOrder D] in
/-- The steps of one round: the store is there just if the counter is not past the id. -/
theorem round_alone {c c' : Collection P D} {id : VectorId} {s : IdState} (todo ids : List VectorId)
    (hcounter : s.counter = c.nextId)
    (hcalls : s.calls = [{ todo := id :: todo, stage := .next, ids }])
    (hnext : c'.nextId = if id ≥ c.nextId then wrappingAdd id 1 else c.nextId) :
    ∃ events : List IdEvent, events.foldlM IdState.step s = some
      { s with
        counter := c'.nextId
        calls := [{ todo, stage := .next, ids := ids ++ [id] }] } := by
  by_cases hpast : id ≥ c.nextId
  · rw [if_pos hpast] at hnext
    refine ⟨[.add 0, .load 0, .store 0], ?_⟩
    simpa [IdState.step, hcalls, hcounter, hpast] using hnext.symm
  · rw [if_neg hpast] at hnext
    refine ⟨[.add 0, .load 0], ?_⟩
    simpa [IdState.step, hcalls, hcounter, hpast] using hnext.symm

/-- The steps of a loop that no other call interrupts. -/
theorem loop_alone (c : Collection P D) (items : List (UpsertItem P)) (s : IdState)
    (ids : List VectorId) (hcounter : s.counter = c.nextId)
    (hcalls : s.calls = [{ todo := items.map UpsertItem.id, stage := .next, ids }]) :
    ∃ (events : List IdEvent) (s' : IdState), events.foldlM IdState.step s = some s' ∧
      s'.counter = (loop (upsertItem codec crc32c) c items).1.nextId ∧ s'.calls = [] ∧
      s'.returned = s.returned ∧
      s'.completed =
        if (loop (upsertItem codec crc32c) c items).2 = .ok () then
          s.completed ++ (ids ++ items.map UpsertItem.id)
        else s.completed := by
  induction items generalizing c s ids with
  | nil =>
    refine ⟨[.finish 0], { s with calls := [], completed := s.completed ++ ids }, ?_, hcounter, rfl,
      rfl, ?_⟩
    · rw [List.foldlM_cons, IdState.step, hcalls]
      rfl
    · rw [loop, if_pos rfl, List.map_nil, List.append_nil]
  | cons item items ih =>
    have hnext := upsertItem_nextId codec crc32c c item
    rw [loop]
    rcases hround : c.upsertItem codec crc32c item with ⟨c', e | _⟩
    · rw [hround] at hnext
      refine ⟨[.fail 0], { s with calls := [] }, ?_, ?_, rfl, rfl, ?_⟩
      · rw [List.foldlM_cons, IdState.step, hcalls]
        rfl
      · rw [hcounter]
        simpa using hnext.symm
      · simp
    · rw [hround] at hnext
      have hraised : c'.nextId =
          if item.id ≥ c.nextId then wrappingAdd item.id 1 else c.nextId := by
        simpa using hnext
      obtain ⟨before, hbefore⟩ :=
        round_alone (items.map UpsertItem.id) ids hcounter hcalls hraised
      obtain ⟨events, s', hevents, hcounter', hcalls', hreturned, hcompleted⟩ :=
        ih c' { s with
          counter := c'.nextId
          calls := [{ todo := items.map UpsertItem.id, stage := .next, ids := ids ++ [item.id] }] }
          (ids ++ [item.id]) rfl rfl
      refine ⟨before ++ events, s', ?_, hcounter', hcalls', hreturned, ?_⟩
      · rw [List.foldlM_append, hbefore]
        exact hevents
      · rw [hcompleted, List.map_cons, List.append_assoc]
        rfl

/-- An upsert by itself leaves the counter that `upsert` leaves, and its ids once it goes through. -/
theorem upsert_alone (c : Collection P D) (items : List (UpsertItem P))
    (hids : ∀ item ∈ items, item.id < 2 ^ 64) (s : IdState) (hcounter : s.counter = c.nextId)
    (hcalls : s.calls = []) :
    ∃ (events : List IdEvent) (s' : IdState), events.foldlM IdState.step s = some s' ∧
      s'.counter = (c.upsert codec crc32c items).1.nextId ∧ s'.calls = [] ∧
      s'.returned = s.returned ∧
      ∀ info, (c.upsert codec crc32c items).2 = .ok info →
        s'.completed = s.completed ++ items.map UpsertItem.id := by
  have hbegin : s.step (.begin (items.map UpsertItem.id)) = some
      { s with calls := [{ todo := items.map UpsertItem.id, stage := .next, ids := [] }] } := by
    rw [IdState.step, if_pos (List.forall_mem_map.mpr hids), hcalls]
    rfl
  obtain ⟨events, s', hevents, hcounter', hcalls', hreturned, hcompleted⟩ :=
    loop_alone codec crc32c c items
      { s with calls := [{ todo := items.map UpsertItem.id, stage := .next, ids := [] }] } []
      hcounter rfl
  refine ⟨.begin (items.map UpsertItem.id) :: events, s', ?_, ?_, hcalls', hreturned,
    fun info hok => ?_⟩
  · rw [List.foldlM_cons, hbegin]
    exact hevents
  · rw [hcounter', upsert]
    rcases loop (upsertItem codec crc32c) c items with ⟨c', e | _⟩ <;> rfl
  · rw [upsert] at hok
    rcases hloop : loop (upsertItem codec crc32c) c items with ⟨c', e | _⟩
    · rw [hloop] at hok
      exact absurd hok (by simp [complete])
    · rw [hcompleted, hloop, if_pos rfl]
      rfl

end Alone

/-! ## A collection at its start -/

/-- A collection that was created, or opened from its directory, and the ids it holds. -/
inductive Starts [LinearOrder D] (codec : Codec P) (crc32c : List UInt8 → UInt32) :
    Collection P D → List VectorId → Prop
  | created (config : CollectionConfig D) : Starts codec crc32c (create config) []
  | opened (config : CollectionConfig D) (walDir : WalDir) (files : Files)
      (tasks : List (FlushTask P)) (level : VectorId → Nat) (c : Collection P D)
      (vectors : List (VectorId × Vector P))
      (hopen : openAt codec crc32c config walDir files tasks level = .ok c)
      (hscan : c.storage.scan codec none none = .ok vectors) :
      Starts codec crc32c c (vectors.map Prod.fst)

theorem le_foldl_max (ids : List Nat) (n : Nat) :
    n ≤ ids.foldl max n ∧ ∀ id ∈ ids, id ≤ ids.foldl max n := by
  induction ids generalizing n with
  | nil => exact ⟨Nat.le_refl n, fun id hid => absurd hid List.not_mem_nil⟩
  | cons first ids ih =>
    obtain ⟨hstart, hids⟩ := ih (max n first)
    refine ⟨(Nat.le_max_left n first).trans hstart, List.forall_mem_cons.mpr ⟨?_, hids⟩⟩
    exact (Nat.le_max_right n first).trans hstart

theorem foldl_max_mem (ids : List Nat) (n : Nat) : ids.foldl max n = n ∨ ids.foldl max n ∈ ids := by
  induction ids generalizing n with
  | nil => exact Or.inl rfl
  | cons first ids ih =>
    rw [List.foldl_cons]
    rcases ih (max n first) with hsame | hmem
    · rw [hsame]
      rcases Nat.le_total n first with hle | hle
      · exact Or.inr (by rw [Nat.max_eq_right hle]; exact List.mem_cons_self)
      · exact Or.inl (Nat.max_eq_left hle)
    · exact Or.inr (List.mem_cons_of_mem _ hmem)

section Starts

variable [LinearOrder D] {codec : Codec P} {crc32c : List UInt8 → UInt32} {c : Collection P D}
  {held : List VectorId}

theorem openAt_ok {config : CollectionConfig D} {walDir : WalDir} {files : Files}
    {tasks : List (FlushTask P)} {level : VectorId → Nat} {vectors : List (VectorId × Vector P)}
    (hopen : openAt codec crc32c config walDir files tasks level = .ok c)
    (hscan : c.storage.scan codec none none = .ok vectors) :
    c.nextId = wrappingAdd ((vectors.map Prod.fst).foldl max 0) 1 := by
  rw [openAt] at hopen
  split at hopen
  · exact absurd hopen (by simp)
  · rename_i engine hengine
    dsimp only at hopen
    split at hopen
    · exact absurd hopen (by simp)
    · rename_i found hfound
      obtain rfl := Except.ok.inj hopen
      have hsame := hfound.symm.trans hscan
      rw [Except.ok.inj hsame]

/-- The ids that a collection starts with are below its counter. -/
theorem Starts.below (hstarts : Starts codec crc32c c held) (hmax : ∀ id ∈ held, id + 1 < 2 ^ 64) :
    (IdState.start c.nextId held).Below := by
  refine ⟨fun id hid => ?_, fun id hid => absurd hid List.not_mem_nil,
    fun call hcall => absurd hcall List.not_mem_nil⟩
  show id < c.nextId
  cases hstarts with
  | created config => exact absurd hid List.not_mem_nil
  | opened config walDir files tasks level c vectors hopen hscan =>
    have hle := (le_foldl_max (vectors.map Prod.fst) 0).2 id hid
    have hfits : (vectors.map Prod.fst).foldl max 0 + 1 < 2 ^ 64 := by
      rcases foldl_max_mem (vectors.map Prod.fst) 0 with hzero | hmem
      · rw [hzero]
        decide
      · exact hmax _ hmem
    rw [openAt_ok hopen hscan, wrappingAdd_eq hfits]
    exact Nat.lt_succ_of_le hle

/-- Generated ids are fresh in every interleaving in which the counter never goes down. -/
theorem next_ids_fresh (hstarts : Starts codec crc32c c held)
    (hmax : ∀ id ∈ held, id + 1 < 2 ^ 64) {events : List IdEvent}
    (hclimbs : Along IdState.step IdState.Climbs (IdState.start c.nextId held) events) :
    Along IdState.step IdState.Fresh (IdState.start c.nextId held) events :=
  hclimbs.imp (fun _ _ _ hs hevent hstep => hs.step hevent hstep) (fun _ event hs _ => hs.fresh event)
    (hstarts.below hmax)

/-- Both upserts load the counter before either stores into it, and the greater id comes last; an id
is generated between the stores. -/
def risingUpserts : List IdEvent :=
  [.begin [10], .begin [3], .add 0, .load 0, .add 1, .load 1, .store 1, .nextId, .store 0, .finish 0,
    .finish 0, .nextId, .nextId]

theorem next_ids_fresh_rising :
    Along IdState.step IdState.Fresh
      (IdState.start (create sampleCollectionConfig : Collection Unit Nat).nextId [])
      risingUpserts := by
  have hstarts : Starts (textCodec [] []) (fun _ => 0)
      (create sampleCollectionConfig : Collection Unit Nat) [] := .created sampleCollectionConfig
  exact next_ids_fresh hstarts (fun _ hid => absurd hid List.not_mem_nil) (by decide)

end Starts

/-- Two upserts load the counter before either stores into it, and the smaller id comes last. -/
def racingUpserts : List IdEvent :=
  [.begin [10], .begin [3], .add 0, .load 0, .add 1, .load 1, .store 0, .store 1, .finish 0,
    .finish 0] ++ List.replicate 7 .nextId

/-- The seventh generated id is the one that the first upsert stored. -/
theorem not_next_ids_fresh :
    ¬ Along IdState.step IdState.Fresh
      (IdState.start (create sampleCollectionConfig : Collection Unit Nat).nextId [])
      racingUpserts := by
  decide

end Collection

end RTDB
