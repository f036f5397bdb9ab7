import RTDB.Collection.Mirror
import RTDB.Lib.Latest

/-!
# What an upsert leaves to a reader

An upsert puts one vector after the other.  A reader finds each of them, and finds the others as
before, as long as storage keeps every put where a reader looks.
-/

namespace RTDB

open Storage

variable {P D : Type}

/-! ## A put that went through -/

/-- A reader finds the vector of a put: a rotation leaves it behind the queue, or takes it away. -/
def PutStays (codec : Codec P) (s : System P) (id : VectorId) (vector : Vector P)
    (timestamp : Nat) : Prop :=
  (written codec s.engine.memtable (.put id vector timestamp)).shouldFlush = true →
    okSome (answer
      (if s.engine.flushHandle then (s.engine.queued id).or (some (.put vector)) else none)
      (s.fromTables codec id)) = some vector

/-- The log takes the put, and no tombstone is in its way. -/
def PutTaken (codec : Codec P) (s : System P) (id : VectorId) (vector : Vector P)
    (timestamp : Nat) : Prop :=
  accepted codec (.put id vector timestamp) ≠ [] ∧
    ¬ Refused s.engine.memtable (.put id vector timestamp)

theorem put_ok_iff (codec : Codec P) (crc32c : List UInt8 → UInt32) (s : System P) (id : VectorId)
    (vector : Vector P) (timestamp : Nat) :
    (s.put codec crc32c id vector timestamp).2 = .ok () ↔ PutTaken codec s id vector timestamp := by
  have hcall := write_call codec crc32c s (.put id vector timestamp)
  rw [System.write] at hcall
  generalize s.put codec crc32c id vector timestamp = outcome at hcall
  cases hcall with
  | unlogged e hnone => exact iff_of_false (by simp) fun htaken => htaken.1 hnone
  | refused wal data e hdata hlog hrefused =>
    exact iff_of_false (by simp) fun htaken => htaken.2 hrefused
  | done wal data count hdata hlog haccepted t ht =>
    exact iff_of_true rfl ⟨by rw [hdata]; exact List.cons_ne_nil _ _, haccepted⟩

theorem get_put_iff {codec : Codec P} {crc32c : List UInt8 → UInt32} {s : System P}
    {id : VectorId} {vector : Vector P} {timestamp : Nat}
    (htaken : PutTaken codec s id vector timestamp) :
    okSome ((s.put codec crc32c id vector timestamp).1.get codec id) = some vector ↔
      PutStays codec s id vector timestamp := by
  have hcall := write_call codec crc32c s (.put id vector timestamp)
  rw [System.write] at hcall
  generalize s.put codec crc32c id vector timestamp = outcome at hcall
  cases hcall with
  | unlogged e hnone => exact absurd hnone htaken.1
  | refused wal data e hdata hlog hrefused => exact absurd hrefused htaken.2
  | done wal data count hdata hlog haccepted t ht =>
    have hget : (written codec s.engine.memtable (.put id vector timestamp)).get id =
        some (.put vector) := (get_written haccepted id).trans (if_pos rfl)
    have htables : t.fromTables codec id = s.fromTables codec id := by
      rw [ht, fromTables_maybeFlush]
      rfl
    have hentry := entry_maybeFlush
      (s.within wal (written codec s.engine.memtable (.put id vector timestamp))) id
    rw [← ht] at hentry
    show okSome (t.get codec id) = some vector ↔ _
    rw [System.get_eq_answer, htables, hentry, PutStays]
    show okSome (answer (if (written codec s.engine.memtable (.put id vector timestamp)).shouldFlush
      then if s.engine.flushHandle then (s.engine.queued id).or
        ((written codec s.engine.memtable (.put id vector timestamp)).get id) else none
      else ((written codec s.engine.memtable (.put id vector timestamp)).get id).or
        (s.engine.queued id)) _) = _ ↔ _
    rw [hget]
    cases hflush : (written codec s.engine.memtable (.put id vector timestamp)).shouldFlush with
    | true =>
      rw [if_pos rfl]
      exact ⟨fun hshown _ => hshown, fun hshown => hshown rfl⟩
    | false => exact iff_of_true rfl fun htrue => Bool.noConfusion htrue

namespace Collection

variable [LinearOrder D] (codec : Codec P) (crc32c : List UInt8 → UInt32)

def Takes (c : Collection P D) (item : UpsertItem P) : Prop :=
  item.vector.data.length = c.config.dimension ∧
    PutTaken codec c.storage item.id item.vector item.timestamp

theorem upsert_singleton_ok_iff (c : Collection P D) (item : UpsertItem P) :
    (∃ info, (c.upsert codec crc32c [item]).2 = .ok info) ↔ c.Takes codec item := by
  rw [Takes, ← put_ok_iff codec crc32c, upsert, loop, upsertItem]
  by_cases hdim : item.vector.data.length = c.config.dimension
  · rw [if_neg (not_not.mpr hdim), and_iff_right hdim]
    rcases c.storage.put codec crc32c item.id item.vector item.timestamp with ⟨storage, e | _⟩
    · simp [complete]
    · simp [complete, loop]
  · rw [if_pos hdim]
    simp [complete, hdim]

theorem upsert_singleton_storage {c : Collection P D} {item : UpsertItem P}
    (htakes : c.Takes codec item) :
    (c.upsert codec crc32c [item]).1.storage =
      (c.storage.put codec crc32c item.id item.vector item.timestamp).1 := by
  have hok := (put_ok_iff codec crc32c _ _ _ _).mpr htakes.2
  rw [upsert, loop, upsertItem, if_neg (not_not.mpr htakes.1)]
  rcases hput : c.storage.put codec crc32c item.id item.vector item.timestamp with ⟨storage, e | _⟩
  · rw [hput] at hok
    cases hok
  · rfl

/-! ## The vectors of an upsert -/

def found (c : Collection P D) (id : VectorId) : Option (Vector P) :=
  okSome (c.storage.get codec id)

/-- What a reader finds once the vector of an item is there. -/
def overlay (found : VectorId → Option (Vector P)) (item : UpsertItem P) :
    VectorId → Option (Vector P) :=
  Function.update found item.id (some item.vector)

/-- Storage leaves every vector where a reader finds it. -/
def PutKeeps (c : Collection P D) (item : UpsertItem P) : Prop :=
  item.vector.data.length = c.config.dimension →
    WriteKeeps codec (fun vector => vector) (c.found codec) c.storage
      (.put item.id item.vector item.timestamp)

omit [LinearOrder D] in
theorem mirrors_found (c : Collection P D) :
    Mirrors codec (fun vector => vector) (c.found codec) c.storage :=
  fun _ => Option.map_id'.symm

theorem found_upsertItem {c : Collection P D} {item : UpsertItem P}
    (hkeeps : c.PutKeeps codec item) :
    (c.upsertItem codec crc32c item).1.found codec =
      match (c.upsertItem codec crc32c item).2 with
      | .ok () => overlay (c.found codec) item
      | .error _ => c.found codec := by
  rw [upsertItem]
  by_cases hdim : item.vector.data.length = c.config.dimension
  · rw [if_neg (not_not.mpr hdim)]
    have hmirrors := (mirrors_write_iff crc32c (c.mirrors_found codec)
      (.put item.id item.vector item.timestamp)).mpr (hkeeps hdim)
    rw [System.write] at hmirrors
    rcases hput : c.storage.put codec crc32c item.id item.vector item.timestamp with
      ⟨storage, e | _⟩
    · rw [hput] at hmirrors
      exact funext fun id => ((hmirrors id).trans Option.map_id').symm
    · rw [hput] at hmirrors
      exact funext fun id => ((hmirrors id).trans Option.map_id').symm
  · rw [if_pos hdim]

/-- The items that go through, up to the first one that does not. -/
def taken (c : Collection P D) : List (UpsertItem P) → List (UpsertItem P)
  | [] => []
  | item :: items =>
    match c.upsertItem codec crc32c item with
    | (c, .ok ()) => item :: taken c items
    | (_, .error _) => []

theorem taken_initial (c : Collection P D) (items : List (UpsertItem P)) :
    c.taken codec crc32c items <+: items := by
  induction items generalizing c with
  | nil => exact List.prefix_refl _
  | cons item items ih =>
    rw [taken]
    split
    · exact (List.prefix_cons_inj item).mpr (ih _)
    · exact List.nil_prefix

theorem taken_of_ok {c : Collection P D} {items : List (UpsertItem P)}
    (hok : (loop (upsertItem codec crc32c) c items).2 = .ok ()) :
    c.taken codec crc32c items = items := by
  induction items generalizing c with
  | nil => rfl
  | cons item items ih =>
    rw [loop] at hok
    rw [taken]
    rcases hround : c.upsertItem codec crc32c item with ⟨c', e | _⟩
    · rw [hround] at hok
      exact absurd hok (by simp)
    · rw [hround] at hok
      exact congrArg (item :: ·) (ih hok)

/-- The items that went through lie over what was found before. -/
theorem found_loop {c : Collection P D} {items : List (UpsertItem P)}
    (hkeeps : ∀ r ∈ rounds (upsertItem codec crc32c) c items, r.1.PutKeeps codec r.2) :
    (loop (upsertItem codec crc32c) c items).1.found codec =
      (c.taken codec crc32c items).foldl overlay (c.found codec) := by
  induction items generalizing c with
  | nil => rfl
  | cons item items ih =>
    have hfirst := found_upsertItem codec crc32c (hkeeps (c, item) List.mem_cons_self)
    rw [rounds] at hkeeps
    rw [loop, taken]
    rcases hround : c.upsertItem codec crc32c item with ⟨c', e | _⟩
    · rw [hround] at hfirst
      exact hfirst
    · rw [hround] at hfirst hkeeps
      have hrest := ih (c := c') fun r hr => hkeeps r (List.mem_cons_of_mem _ hr)
      rw [hfirst] at hrest
      exact hrest

/-- What lies over is the last vector of each id. -/
theorem foldl_overlay (found : VectorId → Option (Vector P)) (items : List (UpsertItem P))
    (id : VectorId) :
    items.foldl overlay found id =
      ((lastWhere (fun item => item.id == id) items).map UpsertItem.vector).or (found id) := by
  induction items using List.reverseRecOn with
  | nil => rfl
  | append_singleton items last ih =>
    rw [List.foldl_append, List.foldl_cons, List.foldl_nil, overlay, Function.update_apply,
      lastWhere_concat, ih]
    by_cases hid : last.id = id
    · rw [if_pos hid.symm, if_pos (beq_iff_eq.mpr hid), Option.map_some, Option.some_or]
    · rw [if_neg fun heq => hid heq.symm, if_neg fun heq => hid (beq_iff_eq.mp heq)]

theorem foldl_overlay_of_not_mem {found : VectorId → Option (Vector P)}
    {items : List (UpsertItem P)} {id : VectorId} (hid : ∀ item ∈ items, item.id ≠ id) :
    items.foldl overlay found id = found id := by
  induction items generalizing found with
  | nil => rfl
  | cons item items ih =>
    rw [List.forall_mem_cons] at hid
    rw [List.foldl_cons, ih hid.2, overlay, Function.update_of_ne (Ne.symm hid.1)]

/-- An item is found when no other has its id with another vector. -/
theorem foldl_overlay_of_mem {found : VectorId → Option (Vector P)} {items : List (UpsertItem P)}
    {item : UpsertItem P} (hitem : item ∈ items)
    (hsame : ∀ other ∈ items, other.id = item.id → other.vector = item.vector) :
    items.foldl overlay found item.id = some item.vector := by
  induction items using List.reverseRecOn with
  | nil => exact absurd hitem List.not_mem_nil
  | append_singleton items last ih =>
    rw [List.foldl_append, List.foldl_cons, List.foldl_nil, overlay, Function.update_apply]
    split
    case isTrue hid =>
      rw [hsame last (List.mem_append_right _ List.mem_cons_self) hid.symm]
    case isFalse hid =>
      rcases List.mem_append.mp hitem with hitem | hlast
      · exact ih hitem fun other hother => hsame other (List.mem_append_left _ hother)
      · exact absurd (congrArg UpsertItem.id (List.mem_singleton.mp hlast)) hid

omit [LinearOrder D] in
theorem found_complete (outcome : Collection P D × Except Error Unit) :
    (complete outcome).1.found codec = outcome.1.found codec := by
  rcases outcome with ⟨c, e | _⟩
  · rfl
  · rfl

/-- A single vector is found once its upsert went through, and nothing changes when it failed. -/
theorem found_upsert_singleton {c : Collection P D} {item : UpsertItem P}
    (hkeeps : c.PutKeeps codec item) :
    (c.upsert codec crc32c [item]).1.found codec =
      match (c.upsert codec crc32c [item]).2 with
      | .ok _ => overlay (c.found codec) item
      | .error _ => c.found codec := by
  have hitem := found_upsertItem codec crc32c hkeeps
  rw [upsert, found_complete, loop]
  rcases hround : c.upsertItem codec crc32c item with ⟨c', e | _⟩
  · rw [hround] at hitem
    exact hitem
  · rw [hround] at hitem
    exact hitem

theorem found_upsert_of_not_mem {c : Collection P D} {items : List (UpsertItem P)}
    (hkeeps : ∀ r ∈ rounds (upsertItem codec crc32c) c items, r.1.PutKeeps codec r.2)
    {id : VectorId} (hid : ∀ item ∈ items, item.id ≠ id) :
    (c.upsert codec crc32c items).1.found codec id = c.found codec id := by
  rw [upsert, found_complete, found_loop codec crc32c hkeeps]
  exact foldl_overlay_of_not_mem fun item hitem =>
    hid item ((taken_initial codec crc32c c items).subset hitem)

theorem loop_of_upsert_ok {c : Collection P D} {items : List (UpsertItem P)} {info : OperationInfo}
    (hok : (c.upsert codec crc32c items).2 = .ok info) :
    (loop (upsertItem codec crc32c) c items).2 = .ok () := by
  rw [upsert] at hok
  rcases hloop : loop (upsertItem codec crc32c) c items with ⟨c', e | _⟩
  · rw [hloop] at hok
    exact absurd hok (by simp [complete])
  · rfl

/-- An upsert that goes through leaves all its vectors. -/
theorem found_upsert_ok {c : Collection P D} {items : List (UpsertItem P)}
    (hkeeps : ∀ r ∈ rounds (upsertItem codec crc32c) c items, r.1.PutKeeps codec r.2)
    {info : OperationInfo} (hok : (c.upsert codec crc32c items).2 = .ok info) :
    (c.upsert codec crc32c items).1.found codec = items.foldl overlay (c.found codec) := by
  rw [upsert, found_complete, found_loop codec crc32c hkeeps,
    taken_of_ok codec crc32c (loop_of_upsert_ok codec crc32c hok)]

theorem found_upsert_of_mem {c : Collection P D} {items : List (UpsertItem P)}
    (hkeeps : ∀ r ∈ rounds (upsertItem codec crc32c) c items, r.1.PutKeeps codec r.2)
    {info : OperationInfo} (hok : (c.upsert codec crc32c items).2 = .ok info)
    {item : UpsertItem P} (hitem : item ∈ items)
    (hsame : ∀ other ∈ items, other.id = item.id → other.vector = item.vector) :
    (c.upsert codec crc32c items).1.found codec item.id = some item.vector := by
  rw [found_upsert_ok codec crc32c hkeeps hok]
  exact foldl_overlay_of_mem hitem hsame

theorem upsert_ok_of_takes {c : Collection P D} {items : List (UpsertItem P)}
    (htakes : ∀ r ∈ rounds (upsertItem codec crc32c) c items, r.1.Takes codec r.2) :
    ∃ info, (c.upsert codec crc32c items).2 = .ok info := by
  have hloop : (loop (upsertItem codec crc32c) c items).2 = .ok () := by
    induction items generalizing c with
    | nil => rfl
    | cons item items ih =>
      obtain ⟨hdim, htaken⟩ := htakes (c, item) List.mem_cons_self
      have hput := (put_ok_iff codec crc32c _ _ _ _).mpr htaken
      rw [rounds] at htakes
      rw [loop]
      rcases hround : c.upsertItem codec crc32c item with ⟨c', e | _⟩
      · rw [upsertItem, if_neg (not_not.mpr hdim)] at hround
        rcases houtcome : c.storage.put codec crc32c item.id item.vector item.timestamp with
          ⟨storage, e' | _⟩
        · rw [houtcome] at hput
          cases hput
        · rw [houtcome] at hround
          cases hround
      · rw [hround] at htakes
        exact ih fun r hr => htakes r (List.mem_cons_of_mem _ hr)
  rw [upsert]
  rcases houtcome : loop (upsertItem codec crc32c) c items with ⟨c', e | _⟩
  · rw [houtcome] at hloop
    cases hloop
  · exact ⟨_, rfl⟩

/-! ## A deletion -/

omit [LinearOrder D] in
/-- No deletion is refused for what is stored: it goes through when the log takes it. -/
theorem delete_singleton_cases (c : Collection P D) (id : VectorId) (timestamp : Nat) :
    (accepted codec (.delete id timestamp) = [] ∧
        ∃ e, c.delete codec crc32c [(id, timestamp)] = (c, .error e)) ∨
      (accepted codec (.delete id timestamp) ≠ [] ∧
        (∃ info, (c.delete codec crc32c [(id, timestamp)]).2 = .ok info) ∧
        (c.storage.write codec crc32c (.delete id timestamp)).2 = .ok () ∧
        (c.delete codec crc32c [(id, timestamp)]).1.storage =
          (c.storage.write codec crc32c (.delete id timestamp)).1) := by
  have hcall := write_call codec crc32c c.storage (.delete id timestamp)
  have hwrite : c.storage.write codec crc32c (.delete id timestamp) =
      c.storage.delete codec crc32c id timestamp := rfl
  generalize houtcome : c.storage.write codec crc32c (.delete id timestamp) = outcome at hcall
  rw [hwrite] at houtcome
  rw [delete, loop, deleteItem, houtcome]
  cases hcall with
  | unlogged e hnone => exact Or.inl ⟨hnone, _, rfl⟩
  | refused wal data e hdata hlog hrefused => exact absurd rfl hrefused.1
  | done wal data count hdata hlog haccepted t ht =>
    exact Or.inr ⟨by rw [hdata]; exact List.cons_ne_nil _ _, ⟨_, rfl⟩, rfl, rfl⟩

omit [LinearOrder D] in
theorem found_delete_singleton {c : Collection P D} {id : VectorId} {timestamp : Nat}
    (haccepted : accepted codec (.delete id timestamp : Record P) ≠ [])
    (hkeeps : WriteKeeps codec (fun vector => vector) (c.found codec) c.storage
      (.delete id timestamp)) :
    (c.delete codec crc32c [(id, timestamp)]).1.found codec =
      Function.update (c.found codec) id none := by
  have hmirrors := (mirrors_write_iff crc32c (c.mirrors_found codec) (.delete id timestamp)).mpr hkeeps
  rcases delete_singleton_cases codec crc32c c id timestamp with ⟨hnone, -⟩ | ⟨-, -, hok, hstorage⟩
  · exact absurd hnone haccepted
  · rw [hok, ← hstorage] at hmirrors
    exact funext fun other => ((hmirrors other).trans Option.map_id').symm

end Collection

end RTDB
