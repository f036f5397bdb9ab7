import RTDB.Collection.InStep
import RTDB.Collection.Upserts

/-!
# Upserts that fail

The loop of `upsert` writes each vector before it looks at the next one.  A log
only grows, so that what an error leaves behind it shows there at the latest.
-/

namespace RTDB

namespace Storage

variable {P : Type}

/-! ## The log grows -/

/-- A log that was appended to is in a later file, or further into the same. -/
def WAL.Later (w w' : WAL) : Prop :=
  w.currentFileNo < w'.currentFileNo ∨
    w.currentFileNo = w'.currentFileNo ∧ w.currentSize < w'.currentSize

theorem WAL.Later.trans {w w' w'' : WAL} (hfirst : w.Later w') (hrest : w'.Later w'') :
    w.Later w'' := by
  unfold Later at *
  omega

theorem WAL.Later.ne {w w' : WAL} (hlater : w.Later w') : w' ≠ w := by
  rintro rfl
  unfold Later at hlater
  omega

theorem append_later {crc : List UInt8 → UInt32} {w w' : WAL} {data : List UInt8} {position : Nat}
    (happend : w.append crc data = .ok (w', position)) : w.Later w' := by
  rw [WAL.append] at happend
  split at happend
  · exact absurd happend (by simp)
  · obtain ⟨rfl, -⟩ := Prod.mk.inj (Except.ok.inj happend)
    split
    · exact Or.inl (Nat.lt_succ_self w.currentFileNo)
    · refine Or.inr ⟨rfl, ?_⟩
      show w.currentSize < w.currentSize + (EntryHeader.encode _).length + data.length
      rw [encode_length]
      omega

theorem maybeFlush_wal (s : System P) : s.maybeFlush.engine.wal = s.engine.wal := by
  rw [System.maybeFlush]
  split
  · rw [System.triggerFlush]
    split <;> rfl
  · rfl

/-- A put that the log does not take leaves everything; otherwise the log has grown. -/
theorem put_later (codec : Codec P) (crc : List UInt8 → UInt32) (s : System P) (id : VectorId)
    (vector : Vector P) (timestamp : Nat) :
    accepted codec (.put id vector timestamp) = [] ∧
        (s.put codec crc id vector timestamp).1 = s ∨
      accepted codec (.put id vector timestamp) ≠ [] ∧
        s.engine.wal.Later (s.put codec crc id vector timestamp).1.engine.wal := by
  rw [System.put, System.log, accepted]
  cases codec.toVec (.put id vector timestamp) with
  | error e => exact Or.inl ⟨rfl, rfl⟩
  | ok data =>
    by_cases hsize : data.length ≤ maxRecordSize
    · obtain ⟨wal, position, happend⟩ := append_ok crc s.engine.wal hsize
      refine Or.inr ⟨by simp [hsize], ?_⟩
      have hlater := append_later happend
      simp only [happend]
      rcases s.engine.memtable.put codec id vector with ⟨memtable, e | _⟩
      · exact hlater
      · show s.engine.wal.Later (System.maybeFlush _).engine.wal
        rw [maybeFlush_wal]
        exact hlater
    · refine Or.inl ⟨if_neg hsize, ?_⟩
      simp only [append_too_large hsize]

end Storage

open Storage

variable {P D : Type}

namespace Collection

variable [LinearOrder D] (codec : Codec P) (crc32c : List UInt8 → UInt32)

/-! ## One item -/

/-- An item of another dimension, or one that the log does not take, is turned away at once. -/
def TurnsAway (c : Collection P D) (item : UpsertItem P) : Prop :=
  item.vector.data.length ≠ c.config.dimension ∨
    accepted codec (.put item.id item.vector item.timestamp) = []

theorem upsertItem_ok_iff (c : Collection P D) (item : UpsertItem P) :
    (c.upsertItem codec crc32c item).2 = .ok () ↔ c.Takes codec item := by
  rw [Takes, ← put_ok_iff codec crc32c, upsertItem]
  by_cases hdim : item.vector.data.length = c.config.dimension
  · rw [if_neg (not_not.mpr hdim), and_iff_right hdim]
    rcases c.storage.put codec crc32c item.id item.vector item.timestamp with ⟨storage, e | _⟩
    · simp
    · simp
  · rw [if_pos hdim]
    simp [hdim]

theorem upsertItem_of_turnsAway {c : Collection P D} {item : UpsertItem P}
    (haway : c.TurnsAway codec item) : ∃ e, c.upsertItem codec crc32c item = (c, .error e) := by
  rw [upsertItem]
  by_cases hdim : item.vector.data.length = c.config.dimension
  · have hnone := haway.resolve_left (not_not.mpr hdim)
    have hnot : ¬ PutTaken codec c.storage item.id item.vector item.timestamp :=
      fun htaken => htaken.1 hnone
    rw [← put_ok_iff codec crc32c] at hnot
    rw [if_neg (not_not.mpr hdim)]
    rcases put_later codec crc32c c.storage item.id item.vector item.timestamp with
      ⟨-, hsame⟩ | ⟨hsome, -⟩
    · rcases hput : c.storage.put codec crc32c item.id item.vector item.timestamp with
        ⟨storage, e | _⟩
      · rw [hput] at hsame
        obtain rfl : storage = c.storage := hsame
        exact ⟨_, rfl⟩
      · exact absurd (congrArg Prod.snd hput) hnot
    · exact absurd hnone hsome
  · rw [if_pos hdim]
    exact ⟨_, rfl⟩

theorem upsertItem_later {c : Collection P D} {item : UpsertItem P}
    (hnot : ¬ c.TurnsAway codec item) :
    c.storage.engine.wal.Later (c.upsertItem codec crc32c item).1.storage.engine.wal := by
  rw [TurnsAway, not_or, not_not] at hnot
  rw [upsertItem, if_neg (not_not.mpr hnot.1)]
  have hlater := (put_later codec crc32c c.storage item.id item.vector item.timestamp).resolve_left
    fun hnone => hnot.2 hnone.1
  rcases hput : c.storage.put codec crc32c item.id item.vector item.timestamp with ⟨storage, e | _⟩
  · rw [hput] at hlater
    exact hlater.2
  · rw [hput] at hlater
    exact hlater.2

/-! ## What an item is told -/

def turnedAwayWith (c : Collection P D) (item : UpsertItem P) : Option Error :=
  if item.vector.data.length ≠ c.config.dimension then
    some (.invalidDimension c.config.dimension item.vector.data.length)
  else
    match codec.toVec (.put item.id item.vector item.timestamp) with
    | .error e => some (.storage (.serialization e))
    | .ok data =>
      if data.length > maxRecordSize then
        some (.storage (.storage
          ("Record too large: " ++ toString data.length ++ " > " ++ toString maxRecordSize)))
      else none

def tombstoneError : Error := .storage (.storage "Unexpected delete entry")

variable {codec} in
omit [LinearOrder D] in
theorem turnedAwayWith_ne_tombstoneError (c : Collection P D) (item : UpsertItem P) :
    c.turnedAwayWith codec item ≠ some tombstoneError := by
  rw [turnedAwayWith]
  split
  · simp [tombstoneError]
  · split
    · simp [tombstoneError]
    · split
      · intro hsame
        have htext := RTDBError.storage.inj (Error.storage.inj (Option.some.inj hsame))
        have hfirst := congrArg (fun s : String => s.toList.head?) htext
        simp at hfirst
      · simp

omit [LinearOrder D] in
theorem turnedAwayWith_eq_none_iff {c : Collection P D} {item : UpsertItem P} :
    c.turnedAwayWith codec item = none ↔ ¬c.TurnsAway codec item := by
  rw [turnedAwayWith, TurnsAway, accepted]
  by_cases hdim : item.vector.data.length = c.config.dimension
  · rw [if_neg (not_not.mpr hdim)]
    cases codec.toVec (.put item.id item.vector item.timestamp) with
    | error e => simp
    | ok data =>
      by_cases hsize : data.length ≤ maxRecordSize
      · simp [hdim, hsize]
      · simp [hsize, Nat.lt_of_not_le hsize]
  · rw [if_pos hdim]
    simp [hdim]

theorem upsertItem_of_turnedAwayWith {c : Collection P D} {item : UpsertItem P} {e : Error}
    (haway : c.turnedAwayWith codec item = some e) :
    c.upsertItem codec crc32c item = (c, .error e) := by
  rw [turnedAwayWith] at haway
  rw [upsertItem]
  by_cases hdim : item.vector.data.length = c.config.dimension
  · rw [if_neg (not_not.mpr hdim)] at haway ⊢
    rw [System.put, System.log]
    cases hrecord : codec.toVec (.put item.id item.vector item.timestamp) with
    | error e' =>
      rw [hrecord] at haway
      rw [← Option.some.inj haway]
    | ok data =>
      rw [hrecord] at haway
      by_cases hsize : data.length ≤ maxRecordSize
      · exact absurd haway (by simp [Nat.not_lt.mpr hsize])
      · dsimp only at haway ⊢
        rw [if_pos (Nat.lt_of_not_le hsize)] at haway
        rw [append_too_large hsize, ← Option.some.inj haway]
  · rw [if_pos hdim] at haway ⊢
    rw [Option.some.inj haway]

theorem upsertItem_of_tombstone {c : Collection P D} {item : UpsertItem P}
    (haway : c.turnedAwayWith codec item = none) (htaken : ¬c.Takes codec item) :
    (c.upsertItem codec crc32c item).2 = .error tombstoneError := by
  rw [turnedAwayWith_eq_none_iff, TurnsAway, not_or, not_not] at haway
  have hrefused : Refused c.storage.engine.memtable (.put item.id item.vector item.timestamp) := by
    by_contra hnot
    exact htaken ⟨haway.1, haway.2, hnot⟩
  have hget : c.storage.engine.memtable.get item.id = some .delete := hrefused.2
  have hput := MemTable.put_refused codec item.vector hget
  rw [upsertItem, if_neg (not_not.mpr haway.1), System.put]
  rcases log_cases codec crc32c c.storage (.put item.id item.vector item.timestamp) with
    ⟨hnone, -⟩ | ⟨wal, data, -, -, hlog⟩
  · exact absurd hnone haway.2
  · rw [hlog]
    simp only [hput]
    rfl

/-! ## The batch -/

/-- What a failed upsert is to leave as it was. -/
def Untouched (c c' : Collection P D) : Prop :=
  c'.storage = c.storage ∧ c'.index = c.index ∧ c'.nextId = c.nextId

/-- No round takes anything out of the log. -/
theorem loop_wal (c : Collection P D) (items : List (UpsertItem P)) :
    (loop (upsertItem codec crc32c) c items).1.storage.engine.wal = c.storage.engine.wal ∨
      c.storage.engine.wal.Later (loop (upsertItem codec crc32c) c items).1.storage.engine.wal := by
  induction items generalizing c with
  | nil => exact Or.inl rfl
  | cons item items ih =>
    rw [loop]
    by_cases haway : c.TurnsAway codec item
    · obtain ⟨e, hround⟩ := upsertItem_of_turnsAway codec crc32c haway
      rw [hround]
      exact Or.inl rfl
    · have hlater := upsertItem_later codec crc32c haway
      rcases hround : c.upsertItem codec crc32c item with ⟨c', e | _⟩
      · rw [hround] at hlater
        exact Or.inr hlater
      · rw [hround] at hlater
        rcases ih c' with hsame | hrest
        · exact Or.inr (hsame ▸ hlater)
        · exact Or.inr (hlater.trans hrest)

theorem loop_later {c : Collection P D} {item : UpsertItem P} (items : List (UpsertItem P))
    (hnot : ¬ c.TurnsAway codec item) :
    c.storage.engine.wal.Later
      (loop (upsertItem codec crc32c) c (item :: items)).1.storage.engine.wal := by
  have hlater := upsertItem_later codec crc32c hnot
  rw [loop]
  rcases hround : c.upsertItem codec crc32c item with ⟨c', e | _⟩
  · rw [hround] at hlater
    exact hlater
  · rw [hround] at hlater
    rcases loop_wal codec crc32c c' items with hsame | hrest
    · exact hsame ▸ hlater
    · exact hlater.trans hrest

/-- An upsert goes through only if every round takes its item. -/
theorem takes_of_upsert_ok {c : Collection P D} {items : List (UpsertItem P)}
    (hok : (loop (upsertItem codec crc32c) c items).2 = .ok ()) :
    ∀ r ∈ rounds (upsertItem codec crc32c) c items, r.1.Takes codec r.2 := by
  induction items generalizing c with
  | nil => exact fun r hr => absurd hr List.not_mem_nil
  | cons item items ih =>
    have htakes := upsertItem_ok_iff codec crc32c c item
    rw [loop] at hok
    rw [rounds]
    rcases hround : c.upsertItem codec crc32c item with ⟨c', e | _⟩
    · rw [hround] at hok
      exact absurd hok (by simp)
    · rw [hround] at hok htakes
      exact List.forall_mem_cons.mpr ⟨htakes.mp rfl, ih hok⟩

/-- An upsert that fails leaves the collection untouched exactly when no item fails, or the first
one is turned away at once. -/
theorem all_or_nothing_iff (c : Collection P D) (vectors : List (UpsertItem P)) :
    (∀ e, (c.upsert codec crc32c vectors).2 = .error e →
        Untouched c (c.upsert codec crc32c vectors).1) ↔
      (∀ r ∈ rounds (upsertItem codec crc32c) c vectors, r.1.Takes codec r.2) ∨
        ∃ item items, vectors = item :: items ∧ c.TurnsAway codec item := by
  constructor
  · intro huntouched
    by_cases htakes : ∀ r ∈ rounds (upsertItem codec crc32c) c vectors, r.1.Takes codec r.2
    · exact Or.inl htakes
    · right
      have herr : ∃ e, (loop (upsertItem codec crc32c) c vectors).2 = .error e := by
        rcases hresult : (loop (upsertItem codec crc32c) c vectors).2 with e | _
        · exact ⟨e, rfl⟩
        · exact absurd (takes_of_upsert_ok codec crc32c hresult) htakes
      obtain ⟨e, herr⟩ := herr
      cases vectors with
      | nil => exact absurd herr (by simp [loop])
      | cons item items =>
        refine ⟨item, items, rfl, ?_⟩
        by_contra hnot
        have hlater := loop_later codec crc32c items hnot
        have hupsert : c.upsert codec crc32c (item :: items) =
            ((loop (upsertItem codec crc32c) c (item :: items)).1, .error e) := by
          rw [upsert]
          rcases hloop : loop (upsertItem codec crc32c) c (item :: items) with ⟨c', result⟩
          rw [hloop] at herr
          obtain rfl : result = .error e := herr
          rfl
        have hsame := (huntouched e (congrArg Prod.snd hupsert)).1
        rw [hupsert] at hsame
        exact hlater.ne (congrArg (fun s : System P => s.engine.wal) hsame)
  · rintro (htakes | ⟨item, items, rfl, haway⟩) e herr
    · obtain ⟨info, hok⟩ := upsert_ok_of_takes codec crc32c htakes
      rw [hok] at herr
      exact absurd herr (by simp)
    · obtain ⟨e', hround⟩ := upsertItem_of_turnsAway codec crc32c haway
      have hupsert : c.upsert codec crc32c (item :: items) = (c, .error e') := by
        rw [upsert, loop, hround]
        rfl
      rw [hupsert]
      exact ⟨rfl, rfl, rfl⟩

def mixedBatch : List (UpsertItem Unit) :=
  [sampleItem,
    { id := 2, vector := { data := [0x3F800000, 0x40000000], payload := none }, timestamp := 2
      level := 0 }]

/-- The call fails, and the first vector and its id stay. -/
theorem not_all_or_nothing :
    ¬ ∀ e, ((create sampleCollectionConfig).upsert (textCodec [] []) (fun _ => 0) mixedBatch).2 =
        .error e →
      Untouched (create sampleCollectionConfig)
        ((create sampleCollectionConfig).upsert (textCodec [] []) (fun _ => 0) mixedBatch).1 := by
  intro huntouched
  have herr : ((create sampleCollectionConfig).upsert (textCodec [] []) (fun _ => 0) mixedBatch).2 =
      .error (.invalidDimension 1 2) := by decide +kernel
  have hnext : ((create sampleCollectionConfig).upsert (textCodec [] []) (fun _ => 0)
      mixedBatch).1.nextId = 2 := by decide +kernel
  have hsame := (huntouched _ herr).2.2
  rw [hnext] at hsame
  exact absurd hsame (by decide)

end Collection

end RTDB
