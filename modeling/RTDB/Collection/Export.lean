import RTDB.Collection.InStep

/-!
# Exporting a collection

`get_all_vectors` asks storage for the ids below a bound that it computes from
`vector_count`, which counts the successful puts and is the sum of the tables'
entry counts after a reopening.  A timeline is a collection with the vectors
that the successful calls left and the records its log took.
-/

namespace RTDB

open Storage Index Runs

variable {P D : Type} [LinearOrder D]

namespace Collection

/-- An export is complete: it lists the live vectors, each under its id, and the
count is their number. -/
def Exports (codec : Codec P) (c : Collection P D) (live : VectorId → Option (Vector P)) : Prop :=
  ∃ pairs, c.getAllVectors codec = .ok pairs ∧ (pairs.map Prod.fst).Nodup ∧
    (∀ id vector, (id, vector) ∈ pairs ↔ live id = some vector) ∧ c.vectorCount = pairs.length

end Collection

structure Timeline (P D : Type) where
  collection : Collection P D
  live : VectorId → Option (Vector P)
  logged : List (Record P × List UInt8)

namespace Timeline

def start (config : CollectionConfig D) : Timeline P D :=
  { collection := Collection.create config, live := fun _ => none, logged := [] }

section Model

variable (codec : Codec P) (crc32c : List UInt8 → UInt32)

/-- The record of a call on the storage of the collection, in the history. -/
def follow (t : Timeline P D) (record : Record P) (collection : Collection P D) : Timeline P D :=
  { collection
    live := viewAfter (fun vector => vector) t.live record
      (t.collection.storage.write codec crc32c record).2
    logged := t.logged ++ accepted codec record }

def upsertItem (t : Timeline P D) (item : UpsertItem P) : Timeline P D × Except Error Unit :=
  let (collection, result) := t.collection.upsertItem codec crc32c item
  if item.vector.data.length ≠ t.collection.config.dimension then ({ t with collection }, result)
  else (t.follow codec crc32c (.put item.id item.vector item.timestamp) collection, result)

def deleteItem (t : Timeline P D) (item : VectorId × Nat) : Timeline P D × Except Error Unit :=
  let (collection, result) := t.collection.deleteItem codec crc32c item
  (t.follow codec crc32c (.delete item.1 item.2) collection, result)

/-- A call, a write of a background flush, or a reopening, with the levels that
the new index draws; the flushes run on unless the process died. -/
inductive Event (P : Type) where
  | upsert (vectors : List (UpsertItem P))
  | delete (ids : List (VectorId × Nat))
  | flush (task timestamp : Nat)
  | reopen (crash : Bool) (level : VectorId → Nat)

/-- A reopening that fails leaves no collection to go on with. -/
def step (t : Timeline P D) : Event P → Option (Timeline P D)
  | .upsert vectors =>
    some { (Collection.loop (upsertItem codec crc32c) t vectors).1 with
      collection := (t.collection.upsert codec crc32c vectors).1 }
  | .delete ids =>
    some { (Collection.loop (deleteItem codec crc32c) t ids).1 with
      collection := (t.collection.delete codec crc32c ids).1 }
  | .flush task timestamp =>
    some { t with collection :=
      { t.collection with storage := t.collection.storage.runTask codec task timestamp } }
  | .reopen crash level =>
    match Collection.openAt codec crc32c t.collection.config t.collection.storage.engine.wal.dir
        t.collection.storage.files (if crash then [] else t.collection.storage.tasks) level with
    | .error _ => none
    | .ok collection => some { t with collection }

def run (config : CollectionConfig D) (events : List (Event P)) : Option (Timeline P D) :=
  events.foldlM (step codec crc32c) (start config)

end Model

/-! ## The condition -/

/-- The condition on the count: a put adds an id that was not live, and the ids
stay below the bound; a deletion takes none that was. -/
def CountKeeps (codec : Codec P) (t : Timeline P D) (record : Record P) : Prop :=
  accepted codec record ≠ [] → ¬ Refused t.collection.storage.engine.memtable record →
    t.live record.id = none ∧
      (record.outcome ≠ none → t.collection.vectorCount + 1 < 2 ^ 64 ∧
        ∀ id, id = record.id ∨ (t.live id).isSome →
          id < Collection.exportBound (t.collection.vectorCount + 1))

def RecordKeeps (codec : Codec P) (t : Timeline P D) (record : Record P) : Prop :=
  WriteKeeps codec (fun vector => vector) t.live t.collection.storage record ∧
    t.CountKeeps codec record

/-- The condition on a reopening: the log and the table files show the live
vectors, and the tables have as many entries as the count says. -/
def ReopenKeeps (codec : Codec P) (t : Timeline P D) : Prop :=
  ∀ records levels, ReadBack codec t.logged records →
    loadSstables codec t.collection.storage.files = .ok levels →
      (∀ id, t.live id =
        shown (fun vector => vector)
          ((History.latest (records.map Record.change) id).map MemTableEntry.ofOutcome)
          (System.fromTables codec
            { t.collection.storage with
              engine := { t.collection.storage.engine with levels } } id)) ∧
      levels.flatten.foldl (fun count table => wrappingAdd count table.metadata.entryCount) 0 =
        t.collection.vectorCount

def UpsertKeeps (codec : Codec P) (t : Timeline P D) (item : UpsertItem P) : Prop :=
  item.vector.data.length = t.collection.config.dimension →
    t.RecordKeeps codec (.put item.id item.vector item.timestamp)

def DeleteKeeps (codec : Codec P) (t : Timeline P D) (item : VectorId × Nat) : Prop :=
  t.RecordKeeps codec (.delete item.1 item.2)

/-- The condition on an event, on the states before its rounds. -/
def Keeps (codec : Codec P) (crc32c : List UInt8 → UInt32) (t : Timeline P D) : Event P → Prop
  | .upsert vectors =>
    ∀ r ∈ rounds (upsertItem codec crc32c) t vectors, r.1.UpsertKeeps codec r.2
  | .delete ids => ∀ r ∈ rounds (deleteItem codec crc32c) t ids, r.1.DeleteKeeps codec r.2
  | .flush task timestamp =>
    FlushKeeps codec (fun vector => vector) t.collection.storage task timestamp
  | .reopen _ _ => t.ReopenKeeps codec

/-! ## The invariant -/

def tabulate {β : Type} (value : Nat → Option β) (bound : Nat) : List (Nat × β) :=
  (List.range bound).filterMap fun key => (value key).map fun b => (key, b)

theorem mem_tabulate {β : Type} {value : Nat → Option β} {bound : Nat}
    (hbound : ∀ key, (value key).isSome → key < bound) (key : Nat) (b : β) :
    (key, b) ∈ tabulate value bound ↔ value key = some b := by
  rw [tabulate, List.mem_filterMap]
  constructor
  · rintro ⟨key', -, hpair⟩
    obtain ⟨b', hvalue, heq⟩ := Option.map_eq_some_iff.mp hpair
    obtain ⟨rfl, rfl⟩ := Prod.mk.inj heq
    exact hvalue
  · intro hvalue
    exact ⟨key, List.mem_range.mpr (hbound key (by rw [hvalue]; rfl)), by rw [hvalue]; rfl⟩

theorem tabulate_keys {β : Type} (value : Nat → Option β) (bound : Nat) :
    ((tabulate value bound).map Prod.fst).Nodup := by
  rw [List.Nodup, List.pairwise_map, tabulate, List.pairwise_filterMap]
  refine List.nodup_range.imp fun hne a ha b hb => ?_
  obtain ⟨_, -, rfl⟩ := Option.map_eq_some_iff.mp ha
  obtain ⟨_, -, rfl⟩ := Option.map_eq_some_iff.mp hb
  exact hne

structure Tracked (codec : Codec P) (crc32c : List UInt8 → UInt32) (t : Timeline P D) : Prop where
  mirrors : Mirrors codec (fun vector => vector) t.live t.collection.storage
  counted : ∃ ids : List VectorId, ids.Nodup ∧ (∀ id, id ∈ ids ↔ (t.live id).isSome) ∧
    t.collection.vectorCount = ids.length
  bounded : ∀ id, (t.live id).isSome → id < Collection.exportBound t.collection.vectorCount
  logged : Logged codec crc32c t.collection.storage.engine.wal t.logged

section Invariant

variable {codec : Codec P} {crc32c : List UInt8 → UInt32} {t : Timeline P D}

omit [LinearOrder D] in
theorem Tracked.exports (ht : t.Tracked codec crc32c) : t.collection.Exports codec t.live := by
  obtain ⟨ids, hnodup, hids, hcount⟩ := ht.counted
  rw [Collection.Exports, Collection.getAllVectors]
  by_cases hzero : t.collection.vectorCount = 0
  · rw [if_pos hzero]
    have hempty : ids = [] := List.length_eq_zero_iff.mp (by omega)
    refine ⟨[], rfl, List.nodup_nil, fun id vector => ?_, by simpa using hzero⟩
    have hnone : ¬ (t.live id).isSome := by
      rw [← hids, hempty]
      exact List.not_mem_nil
    constructor
    · intro hmem
      exact absurd hmem List.not_mem_nil
    · intro hlive
      exact absurd (by rw [hlive]; rfl) hnone
  · rw [if_neg hzero]
    let pairs := tabulate (fun id => okSome (t.collection.storage.get codec id))
      (Collection.exportBound t.collection.vectorCount)
    have hget : ∀ id, okSome (t.collection.storage.get codec id) = t.live id := by
      intro id
      rw [ht.mirrors id, Option.map_id']
    have hmem : ∀ id vector, (id, vector) ∈ pairs ↔ t.live id = some vector := by
      intro id vector
      rw [← hget id]
      apply mem_tabulate
      intro id hsome
      rw [hget] at hsome
      exact ht.bounded id hsome
    have hkeys : (pairs.map Prod.fst).Nodup := tabulate_keys _ _
    have hsame : ∀ id, id ∈ ids ↔ id ∈ pairs.map Prod.fst := by
      intro id
      rw [hids, List.mem_map]
      constructor
      · intro hlive
        obtain ⟨vector, hvector⟩ := Option.isSome_iff_exists.mp hlive
        exact ⟨(id, vector), (hmem id vector).mpr hvector, rfl⟩
      · rintro ⟨⟨id', vector⟩, hpair, rfl⟩
        rw [(hmem _ vector).mp hpair]
        rfl
    have hlength := ((List.perm_ext_iff_of_nodup hnodup hkeys).mpr hsame).length_eq
    rw [List.length_map] at hlength
    exact ⟨pairs, rfl, hkeys, hmem, hcount.trans hlength⟩

end Invariant

end Timeline

/-! ## The count -/

def countAfter (count : Nat) (record : Record P) : Except RTDBError Unit → Nat
  | .ok () => if record.outcome.isSome then wrappingAdd count 1 else count
  | .error _ => count

theorem maybeFlush_count (s : System P) :
    s.maybeFlush.engine.vectorCount = s.engine.vectorCount := by
  rw [System.maybeFlush]
  split
  · rw [System.triggerFlush]
    split
    · rfl
    · rfl
  · rfl

theorem write_count (codec : Codec P) (crc32c : List UInt8 → UInt32) (s : System P)
    (record : Record P) :
    (s.write codec crc32c record).1.engine.vectorCount =
      countAfter s.engine.vectorCount record (s.write codec crc32c record).2 := by
  rcases log_cases codec crc32c s record with ⟨-, e, hlog⟩ | ⟨wal, data, -, -, hlog⟩
  · cases record with
    | put id vector timestamp =>
      rw [System.write, System.put, hlog]
      rfl
    | delete id timestamp =>
      rw [System.write, System.delete, hlog]
      rfl
  · cases record with
    | put id vector timestamp =>
      rw [System.write, System.put, hlog]
      dsimp only
      rcases hput : s.engine.memtable.put codec id vector with ⟨memtable, e | _⟩
      · rfl
      · dsimp only
        rw [maybeFlush_count]
        rfl
    | delete id timestamp =>
      rw [System.write, System.delete, hlog]
      exact maybeFlush_count _

/-- What a call says about its result. -/
theorem write_result (codec : Codec P) (crc32c : List UInt8 → UInt32) (s : System P)
    (record : Record P) :
    ((s.write codec crc32c record).2 = .ok () ∧ accepted codec record ≠ [] ∧
        ¬ Refused s.engine.memtable record) ∨ ∃ e, (s.write codec crc32c record).2 = .error e := by
  have hcall := write_call codec crc32c s record
  generalize s.write codec crc32c record = outcome at hcall
  cases hcall with
  | unlogged e hnone => exact Or.inr ⟨e, rfl⟩
  | refused wal data e hdata hlog hrefused => exact Or.inr ⟨e, rfl⟩
  | done wal data count hdata hlog haccepted t ht =>
    exact Or.inl ⟨rfl, by simp [hdata], haccepted⟩

theorem Storage.Logged.write {codec : Codec P} {crc32c : List UInt8 → UInt32} {s : System P}
    {logged : List (Record P × List UInt8)} (hlogged : Logged codec crc32c s.engine.wal logged)
    (record : Record P) :
    Logged codec crc32c (s.write codec crc32c record).1.engine.wal
      (logged ++ accepted codec record) := by
  have hcall := write_call codec crc32c s record
  generalize s.write codec crc32c record = outcome at hcall
  cases hcall with
  | unlogged e hnone =>
    rw [hnone, List.append_nil]
    exact hlogged
  | refused wal data e hdata hlog hrefused => exact hlogged.append hdata hlog
  | done wal data count hdata hlog haccepted t ht =>
    obtain ⟨-, hwal, -, -⟩ := maybeFlush_frame
      (s.within wal (written codec s.engine.memtable record))
    show Logged codec crc32c t.engine.wal _
    rw [ht, hwal]
    exact hlogged.append hdata hlog

namespace Timeline

/-! ## Steps -/

section Steps

variable {codec : Codec P} {crc32c : List UInt8 → UInt32} {t : Timeline P D}

omit [LinearOrder D] in
theorem Tracked.follow (ht : t.Tracked codec crc32c) {record : Record P}
    (hkeeps : t.RecordKeeps codec record) {c : Collection P D}
    (hc : c.storage = (t.collection.storage.write codec crc32c record).1) :
    (t.follow codec crc32c record c).Tracked codec crc32c := by
  obtain ⟨hwrite, hcount⟩ := hkeeps
  have hmirrors := (mirrors_write_iff crc32c ht.mirrors record).mpr hwrite
  have hafter : c.vectorCount = countAfter t.collection.vectorCount record
      (t.collection.storage.write codec crc32c record).2 := by
    rw [Collection.vectorCount, hc]
    exact write_count codec crc32c t.collection.storage record
  have hlogged := ht.logged.write record
  rw [← hc] at hmirrors hlogged
  obtain ⟨ids, hnodup, hids, hlength⟩ := ht.counted
  -- A deletion of nothing and a call that fails leave the ids and their number.
  have hstays : (t.follow codec crc32c record c).live = t.live →
      Mirrors codec (fun vector => vector) t.live c.storage →
        c.vectorCount = t.collection.vectorCount →
          (t.follow codec crc32c record c).Tracked codec crc32c := by
    intro hlive hmirrors hafter
    refine ⟨?_, ⟨ids, hnodup, ?_, hafter.trans hlength⟩, ?_, hlogged⟩
    · rw [hlive]
      exact hmirrors
    · rw [hlive]
      exact hids
    · rw [hlive]
      intro id hid
      show id < Collection.exportBound c.vectorCount
      rw [hafter]
      exact ht.bounded id hid
  rcases write_result codec crc32c t.collection.storage record with
    ⟨hok, haccepted, hrefused⟩ | ⟨e, herror⟩
  · obtain ⟨hdead, hput⟩ := hcount haccepted hrefused
    rw [hok] at hafter hmirrors
    have hlive : (t.follow codec crc32c record c).live =
        viewAfter (fun vector => vector) t.live record (.ok ()) := by
      rw [Timeline.follow, hok]
    cases houtcome : record.outcome with
    | none =>
      have hsame : viewAfter (fun vector => vector) t.live record (.ok ()) = t.live := by
        rw [viewAfter, houtcome, Option.map_none, ← hdead, Function.update_eq_self]
      rw [countAfter, houtcome] at hafter
      rw [hsame] at hlive hmirrors
      exact hstays hlive hmirrors hafter
    | some vector =>
      obtain ⟨hroom, hbound⟩ := hput (by simp [houtcome])
      have hnext : c.vectorCount = t.collection.vectorCount + 1 := by
        rw [hafter, countAfter, houtcome]
        exact Nat.mod_eq_of_lt hroom
      have hsome : ∀ id, (viewAfter (fun vector => vector) t.live record (.ok ()) id).isSome ↔
          id = record.id ∨ (t.live id).isSome := by
        intro id
        rw [viewAfter_ok, houtcome]
        by_cases hid : record.id = id
        · rw [if_pos hid]
          simp [hid]
        · rw [if_neg hid]
          simp [Ne.symm hid]
      have hfresh : record.id ∉ ids := by
        rw [hids, hdead]
        simp
      refine ⟨?_, ⟨record.id :: ids, List.nodup_cons.mpr ⟨hfresh, hnodup⟩, fun id => ?_, ?_⟩,
        fun id hid => ?_, hlogged⟩
      · rw [hlive]
        exact hmirrors
      · rw [hlive, hsome, List.mem_cons, hids]
      · rw [List.length_cons, ← hlength]
        exact hnext
      · rw [hlive, hsome] at hid
        show id < Collection.exportBound c.vectorCount
        rw [hnext]
        exact hbound id hid
  · rw [herror] at hafter hmirrors
    have hlive : (t.follow codec crc32c record c).live = t.live := by
      rw [Timeline.follow, herror]
      rfl
    exact hstays hlive hmirrors hafter

omit [LinearOrder D] in
theorem Tracked.of_storage (ht : t.Tracked codec crc32c) {c : Collection P D}
    (hc : c.storage = t.collection.storage) :
    ({ t with collection := c } : Timeline P D).Tracked codec crc32c := by
  have hcount : c.vectorCount = t.collection.vectorCount := by
    rw [Collection.vectorCount, hc]
    rfl
  refine ⟨?_, ?_, fun id hid => ?_, ?_⟩
  · rw [hc]
    exact ht.mirrors
  · rw [hcount]
    exact ht.counted
  · rw [hcount]
    exact ht.bounded id hid
  · rw [hc]
    exact ht.logged

theorem Tracked.upsertItem (t : Timeline P D) (item : UpsertItem P)
    (ht : t.Tracked codec crc32c) (hkeeps : t.UpsertKeeps codec item) :
    (t.upsertItem codec crc32c item).1.Tracked codec crc32c := by
  rw [Timeline.upsertItem]
  by_cases hdim : item.vector.data.length = t.collection.config.dimension
  · dsimp only
    rw [if_neg (not_not.mpr hdim)]
    exact ht.follow (hkeeps hdim)
      (Collection.upsertItem_eq codec crc32c t.collection item hdim).1
  · dsimp only
    rw [if_pos hdim]
    refine ht.of_storage ?_
    rw [Collection.upsertItem, if_pos hdim]

omit [LinearOrder D] in
theorem Tracked.deleteItem (t : Timeline P D) (item : VectorId × Nat)
    (ht : t.Tracked codec crc32c) (hkeeps : t.DeleteKeeps codec item) :
    (t.deleteItem codec crc32c item).1.Tracked codec crc32c :=
  ht.follow hkeeps (Collection.deleteItem_eq codec crc32c t.collection item).1

omit [LinearOrder D] in
theorem complete_storage (outcome : Collection P D × Except Error Unit) :
    (Collection.complete outcome).1.storage = outcome.1.storage := by
  rcases outcome with ⟨c, e | _⟩
  · rfl
  · rfl

theorem upsertItem_collection (codec : Codec P) (crc32c : List UInt8 → UInt32) (t : Timeline P D) (item : UpsertItem P) :
    (t.upsertItem codec crc32c item).1.collection =
        (t.collection.upsertItem codec crc32c item).1 ∧
      (t.upsertItem codec crc32c item).2 = (t.collection.upsertItem codec crc32c item).2 := by
  rw [Timeline.upsertItem]
  dsimp only
  split
  · exact ⟨rfl, rfl⟩
  · exact ⟨rfl, rfl⟩

omit [LinearOrder D] in
theorem deleteItem_collection (codec : Codec P) (crc32c : List UInt8 → UInt32) (t : Timeline P D)
    (item : VectorId × Nat) :
    (t.deleteItem codec crc32c item).1.collection =
        (t.collection.deleteItem codec crc32c item).1 ∧
      (t.deleteItem codec crc32c item).2 = (t.collection.deleteItem codec crc32c item).2 :=
  ⟨rfl, rfl⟩

omit [LinearOrder D] in
theorem Tracked.flush (ht : t.Tracked codec crc32c) {task timestamp : Nat}
    (hkeeps : FlushKeeps codec (fun vector => vector) t.collection.storage task timestamp) :
    ({ t with collection :=
      { t.collection with storage := t.collection.storage.runTask codec task timestamp } } :
        Timeline P D).Tracked codec crc32c := by
  have hengine : (t.collection.storage.runTask codec task timestamp).engine =
      t.collection.storage.engine := by
    rw [System.runTask]
    split <;> rfl
  have hcount : (t.collection.storage.runTask codec task timestamp).engine.vectorCount =
      t.collection.vectorCount := by
    rw [hengine]
    rfl
  refine ⟨(mirrors_runTask_iff ht.mirrors task timestamp).mpr hkeeps, ?_, fun id hid => ?_, ?_⟩
  · rw [Collection.vectorCount, hcount]
    exact ht.counted
  · rw [Collection.vectorCount, hcount]
    exact ht.bounded id hid
  · show Logged codec crc32c (t.collection.storage.runTask codec task timestamp).engine.wal _
    rw [hengine]
    exact ht.logged

theorem openAt_storage {config : CollectionConfig D} {walDir : WalDir} {files : Files}
    {tasks : List (FlushTask P)} {level : VectorId → Nat} {c : Collection P D}
    (hopen : Collection.openAt codec crc32c config walDir files tasks level = .ok c) :
    ∃ engine, StorageEngine.openAt codec crc32c StorageConfig.default walDir files = .ok engine ∧
      c.storage = { engine, files, tasks } := by
  rw [Collection.openAt] at hopen
  split at hopen
  · exact absurd hopen (by simp)
  · rename_i engine hengine
    dsimp only at hopen
    split at hopen
    · exact absurd hopen (by simp)
    · rw [← Except.ok.inj hopen]
      exact ⟨engine, hengine, rfl⟩

omit [LinearOrder D] in
theorem openAt_count {config : StorageConfig} {walDir : WalDir} {files : Files}
    {engine : StorageEngine P}
    (hopen : StorageEngine.openAt codec crc32c config walDir files = .ok engine) :
    engine.vectorCount =
      engine.levels.flatten.foldl (fun count table => wrappingAdd count table.metadata.entryCount)
        0 := by
  rw [StorageEngine.openAt] at hopen
  split at hopen
  · exact absurd hopen (by simp)
  · split at hopen
    · exact absurd hopen (by simp)
    · rw [← Except.ok.inj hopen]

theorem Tracked.reopen (hcodec : codec.Lawful) (ht : t.Tracked codec crc32c)
    (hkeeps : t.ReopenKeeps codec) {config : CollectionConfig D} {tasks : List (FlushTask P)}
    {level : VectorId → Nat} {c : Collection P D}
    (hopen : Collection.openAt codec crc32c config t.collection.storage.engine.wal.dir
      t.collection.storage.files tasks level = .ok c) :
    ({ t with collection := c } : Timeline P D).Tracked codec crc32c := by
  obtain ⟨engine, hengine, hstorage⟩ := openAt_storage hopen
  obtain ⟨hwal, hqueue, hrec, hload⟩ := Session.openAt_cases hengine
  have hlog := ht.logged.openAt StorageConfig.default.walSegmentSize
  obtain ⟨records, hread⟩ := recover_readBack hcodec hlog hrec
  obtain ⟨-, hlatest⟩ := recover_latest hlog hread hrec
  obtain ⟨hshown, hentries⟩ := hkeeps records engine.levels hread hload
  have hcount : c.vectorCount = t.collection.vectorCount := by
    rw [Collection.vectorCount, hstorage, ← hentries]
    exact openAt_count hengine
  refine ⟨mirrors_iff.mpr fun id => ?_, ?_, fun id hid => ?_, ?_⟩
  · have hentry : c.storage.entry id =
        (History.latest (records.map Record.change) id).map MemTableEntry.ofOutcome := by
      have hqueued : engine.queued id = none := by
        rw [StorageEngine.queued, hqueue]
        rfl
      rw [hstorage, System.entry, ← hlatest id]
      show (engine.memtable.get id).or (engine.queued id) = _
      rw [hqueued, Option.or_none]
    have htables : c.storage.fromTables codec id = System.fromTables codec
        { t.collection.storage with
          engine := { t.collection.storage.engine with levels := engine.levels } } id := by
      rw [hstorage]
      rfl
    rw [hentry, htables]
    exact hshown id
  · rw [hcount]
    exact ht.counted
  · rw [hcount]
    exact ht.bounded id hid
  · rw [hstorage]
    show Logged codec crc32c engine.wal _
    rw [hwal]
    exact hlog

theorem Tracked.step (hcodec : codec.Lawful) (ht : t.Tracked codec crc32c) {event : Event P}
    (hkeeps : t.Keeps codec crc32c event) {t' : Timeline P D}
    (hstep : t.step codec crc32c event = some t') : t'.Tracked codec crc32c := by
  cases event with
  | upsert vectors =>
    rw [← Option.some.inj hstep]
    have hloop : (Collection.loop (Timeline.upsertItem codec crc32c) t vectors).1.Tracked
        codec crc32c := loop_keeps Tracked.upsertItem ht hkeeps
    refine hloop.of_storage ?_
    rw [Collection.upsert, complete_storage,
      loop_of_sim Timeline.collection (upsertItem_collection codec crc32c)]
  | delete ids =>
    rw [← Option.some.inj hstep]
    have hloop : (Collection.loop (Timeline.deleteItem codec crc32c) t ids).1.Tracked
        codec crc32c := loop_keeps Tracked.deleteItem ht hkeeps
    refine hloop.of_storage ?_
    rw [Collection.delete, complete_storage,
      loop_of_sim Timeline.collection (deleteItem_collection codec crc32c)]
  | flush task timestamp =>
    rw [← Option.some.inj hstep]
    exact ht.flush hkeeps
  | reopen crash level =>
    rw [Timeline.step] at hstep
    split at hstep
    · exact absurd hstep (by simp)
    · rename_i c hopen
      rw [← Option.some.inj hstep]
      exact ht.reopen hcodec hkeeps hopen

omit [LinearOrder D] in
theorem tracked_start (codec : Codec P) (crc32c : List UInt8 → UInt32)
    (config : CollectionConfig D) : (start config : Timeline P D).Tracked codec crc32c where
  mirrors id := by
    have hget : (Collection.create config : Collection P D).storage.get codec id = .ok none :=
      Collection.create_get codec config id
    rw [start, hget]
    rfl
  counted := ⟨[], List.nodup_nil, fun id => by simp [start], rfl⟩
  bounded id hid := absurd hid (by simp [start])
  logged := ⟨openAt_empty crc32c _, fun l hl => absurd hl List.not_mem_nil,
    fun l hl => absurd hl List.not_mem_nil⟩

end Steps

/-- After every run whose steps meet their conditions, an export is complete. -/
theorem export_complete {codec : Codec P} (hcodec : codec.Lawful) (crc32c : List UInt8 → UInt32)
    (config : CollectionConfig D) (events : List (Event P))
    (hkeeps : ∀ before event after t, events = before ++ event :: after →
      run codec crc32c config before = some t → t.Keeps codec crc32c event)
    {t : Timeline P D} (hrun : run codec crc32c config events = some t) :
    t.collection.Exports codec t.live :=
  (foldlM_invariant (Q := fun t : Timeline P D => t.Tracked codec crc32c)
    (fun _ _ _ ht hevent hstep => ht.step hcodec hevent hstep)
    (tracked_start codec crc32c config) hkeeps hrun).exports

/-! ## Two vectors -/

omit [LinearOrder D] in
theorem recordKeeps_of_takenInMemory {codec : Codec P} {t : Timeline P D} {record : Record P}
    (htaken : Collection.TakenInMemory codec t.collection.storage record = true)
    (hnew : t.live record.id = none) (hcount : t.collection.vectorCount + 1 < 2 ^ 64)
    (hid : record.id < Collection.exportBound (t.collection.vectorCount + 1))
    (hlive : ∀ id, (t.live id).isSome →
      id < Collection.exportBound (t.collection.vectorCount + 1)) :
    t.RecordKeeps codec record := by
  refine ⟨Collection.writeKeeps_of_takenInMemory htaken, fun _ _ => ⟨hnew, fun _ => ⟨hcount, ?_⟩⟩⟩
  rintro id (rfl | hsome)
  · exact hid
  · exact hlive id hsome

def secondItem : UpsertItem Unit := { Collection.sampleItem with id := 2 }

/-- The timeline between the rounds of the two vectors. -/
def between : Timeline Unit Nat :=
  ((start Collection.sampleCollectionConfig).upsertItem sampleCodec (fun _ => 0)
    Collection.sampleItem).1

theorem between_live_lt (id : VectorId) (hlive : (between.live id).isSome) : id < 2 := by
  by_cases hid : id = 1
  · rw [hid]
    decide
  · have hnone : between.live id = none := by
      show viewAfter (fun vector => vector) (fun _ => none)
        (.put 1 Collection.sampleItem.vector 1) (.ok ()) id = none
      rw [viewAfter_ok]
      exact if_neg (Ne.symm hid)
    rw [hnone] at hlive
    exact absurd hlive (by simp)

theorem keeps_created (before : List (Event Unit)) (event : Event Unit)
    (after : List (Event Unit)) (t : Timeline Unit Nat)
    (hevents : [.upsert [Collection.sampleItem, secondItem]] = before ++ event :: after)
    (hrun : run sampleCodec (fun _ => 0) Collection.sampleCollectionConfig before = some t) :
    t.Keeps sampleCodec (fun _ => 0) event := by
  rcases before with _ | ⟨_, _ | _⟩
  · obtain ⟨rfl, -⟩ := List.cons.inj hevents
    rw [← Option.some.inj hrun]
    have hrounds : rounds (upsertItem sampleCodec fun _ => 0)
        (start Collection.sampleCollectionConfig) [Collection.sampleItem, secondItem] =
          [(start Collection.sampleCollectionConfig, Collection.sampleItem),
            (between, secondItem)] := rfl
    intro r hr _
    rw [hrounds, List.mem_cons, List.mem_singleton] at hr
    rcases hr with rfl | rfl
    · exact recordKeeps_of_takenInMemory (by decide +kernel) rfl (by decide +kernel)
        (by decide +kernel) fun id hlive => absurd hlive (by simp [start])
    · exact recordKeeps_of_takenInMemory (by decide +kernel) rfl (by decide +kernel)
        (by decide +kernel) fun id hlive =>
          (between_live_lt id hlive).trans_le (by decide +kernel)
  · exact absurd hevents (by simp)
  · exact absurd hevents (by simp)

theorem export_complete_created :
    ∃ t, run sampleCodec (fun _ => 0) Collection.sampleCollectionConfig
        [.upsert [Collection.sampleItem, secondItem]] = some t ∧
      t.collection.Exports sampleCodec t.live := by
  obtain ⟨t, hrun⟩ : ∃ t, run sampleCodec (fun _ => 0) Collection.sampleCollectionConfig
      [.upsert [Collection.sampleItem, secondItem]] = some t := ⟨_, rfl⟩
  exact ⟨t, hrun, export_complete sampleCodec_lawful (fun _ => 0)
    Collection.sampleCollectionConfig _ keeps_created hrun⟩

omit [LinearOrder D] in
theorem getAllVectors_lt {codec : Codec P} {c : Collection P D}
    {pairs : List (VectorId × Vector P)} (hpairs : c.getAllVectors codec = .ok pairs)
    {id : VectorId} {vector : Vector P} (hmem : (id, vector) ∈ pairs) :
    id < Collection.exportBound c.vectorCount := by
  rw [Collection.getAllVectors] at hpairs
  split at hpairs
  · rw [← Except.ok.inj hpairs] at hmem
    exact absurd hmem List.not_mem_nil
  · rw [← Except.ok.inj hpairs] at hmem
    obtain ⟨id', hid, hpair⟩ := List.mem_filterMap.mp hmem
    obtain ⟨vector', -, heq⟩ := Option.map_eq_some_iff.mp hpair
    rw [← (Prod.mk.inj heq).1]
    exact List.mem_range.mp hid

/-- The id of the only vector is the bound. -/
def sparse : List (Event Unit) :=
  [ .upsert [ { id := 1002, vector := { data := [0x3F800000], payload := none }, timestamp := 1
                level := 0 } ] ]

theorem sparse_live :
    (run (textCodec [] []) (fun _ => 0) Collection.sampleCollectionConfig sparse).map (fun t =>
        (t.collection.vectorCount, t.live 1002)) =
      some (1, some { data := [0x3F800000], payload := none }) := by
  decide +kernel

theorem not_export_complete_sparse :
    ∃ t, run (textCodec [] []) (fun _ => 0) Collection.sampleCollectionConfig sparse = some t ∧
      ¬ t.collection.Exports (textCodec [] []) t.live := by
  obtain ⟨t, hrun, ht⟩ := Option.map_eq_some_iff.mp sparse_live
  refine ⟨t, hrun, ?_⟩
  rintro ⟨pairs, hpairs, -, hlive, -⟩
  have hcount : t.collection.vectorCount = 1 := congrArg Prod.fst ht
  have hlt := getAllVectors_lt hpairs ((hlive _ _).mpr (congrArg Prod.snd ht))
  rw [hcount] at hlt
  exact absurd hlt (by decide)

end Timeline

end RTDB
