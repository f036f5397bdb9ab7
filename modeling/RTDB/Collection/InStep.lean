import RTDB.Collection.Mirror
import RTDB.Lib.Runs

/-!
# Index and storage in step

`upsert` and `delete` write to storage and then to the index.  The two stay in
step exactly as long as what a reader of storage finds is what the last
successful call left, whatever a tombstone or a rotation does to it.
-/

namespace RTDB

open Storage Index Outcomes Runs

variable {P D : Type} [LinearOrder D]

namespace Collection

def indexed (c : Collection P D) (id : VectorId) : Option (List UInt32) :=
  c.index.vectors[id]?.map Vector.data

/-- Under every id, the index holds the components that storage returns. -/
def InStep (codec : Codec P) (c : Collection P D) : Prop :=
  Mirrors codec Vector.data c.indexed c.storage

/-! ## Calls -/

section Calls

variable (codec : Codec P) (crc32c : List UInt8 → UInt32)

theorem upsertItem_eq (c : Collection P D) (item : UpsertItem P)
    (hdim : item.vector.data.length = c.config.dimension) :
    (c.upsertItem codec crc32c item).1.storage =
        (c.storage.write codec crc32c (.put item.id item.vector item.timestamp)).1 ∧
      (c.upsertItem codec crc32c item).1.indexed =
        viewAfter Vector.data c.indexed (.put item.id item.vector item.timestamp)
          (c.storage.write codec crc32c (.put item.id item.vector item.timestamp)).2 := by
  rw [upsertItem, if_neg (not_not.mpr hdim), System.write]
  rcases c.storage.put codec crc32c item.id item.vector item.timestamp with ⟨storage, e | _⟩
  · exact ⟨rfl, rfl⟩
  · refine ⟨rfl, funext fun id => ?_⟩
    rw [indexed, HNSWIndex.add_vectors, Std.TreeMap.getElem?_insert, viewAfter_ok]
    simp only [Nat.compare_eq_eq]
    by_cases hid : item.id = id
    · rw [if_pos hid]
      exact Eq.symm (if_pos hid)
    · rw [if_neg hid]
      exact Eq.symm (if_neg hid)

omit [LinearOrder D] in
theorem deleteItem_eq (c : Collection P D) (item : VectorId × Nat) :
    (c.deleteItem codec crc32c item).1.storage =
        (c.storage.write codec crc32c (.delete item.1 item.2)).1 ∧
      (c.deleteItem codec crc32c item).1.indexed =
        viewAfter Vector.data c.indexed (.delete item.1 item.2 : Record P)
          (c.storage.write codec crc32c (.delete item.1 item.2)).2 := by
  rw [deleteItem, System.write]
  rcases c.storage.delete codec crc32c item.1 item.2 with ⟨storage, e | _⟩
  · exact ⟨rfl, rfl⟩
  · refine ⟨rfl, funext fun id => ?_⟩
    rw [indexed, HNSWIndex.remove_vectors, Std.TreeMap.getElem?_erase, viewAfter_ok]
    simp only [Nat.compare_eq_eq]
    by_cases hid : item.1 = id
    · rw [if_pos hid]
      exact Eq.symm (if_pos hid)
    · rw [if_neg hid]
      exact Eq.symm (if_neg hid)

/-- The condition on an item of an upsert: one of another dimension is turned
away. -/
def UpsertKeeps (c : Collection P D) (item : UpsertItem P) : Prop :=
  item.vector.data.length = c.config.dimension →
    WriteKeeps codec Vector.data c.indexed c.storage (.put item.id item.vector item.timestamp)

def DeleteKeeps (c : Collection P D) (item : VectorId × Nat) : Prop :=
  WriteKeeps codec Vector.data c.indexed c.storage (.delete item.1 item.2)

theorem upsertItem_iff (c : Collection P D) (item : UpsertItem P) (hc : c.InStep codec) :
    (c.upsertItem codec crc32c item).1.InStep codec ↔ c.UpsertKeeps codec item := by
  by_cases hdim : item.vector.data.length = c.config.dimension
  · obtain ⟨hstorage, hindexed⟩ := upsertItem_eq codec crc32c c item hdim
    rw [InStep, hstorage, hindexed, mirrors_write_iff crc32c hc, UpsertKeeps]
    exact ⟨fun hkeeps _ => hkeeps, fun hkeeps => hkeeps hdim⟩
  · rw [upsertItem, if_pos hdim, UpsertKeeps]
    exact ⟨fun _ hsame => absurd hsame hdim, fun _ => hc⟩

omit [LinearOrder D] in
theorem deleteItem_iff (c : Collection P D) (item : VectorId × Nat) (hc : c.InStep codec) :
    (c.deleteItem codec crc32c item).1.InStep codec ↔ c.DeleteKeeps codec item := by
  obtain ⟨hstorage, hindexed⟩ := deleteItem_eq codec crc32c c item
  rw [InStep, hstorage, hindexed, mirrors_write_iff crc32c hc, DeleteKeeps]

omit [LinearOrder D] in
theorem inStep_complete {outcome : Collection P D × Except Error Unit}
    (hc : outcome.1.InStep codec) : (complete outcome).1.InStep codec := by
  rcases outcome with ⟨c, e | _⟩
  · exact hc
  · exact hc

/-! ## Runs -/

inductive Event (P : Type) where
  | upsert (vectors : List (UpsertItem P))
  | delete (ids : List (VectorId × Nat))
  | flush (task timestamp : Nat)

def apply (c : Collection P D) : Event P → Collection P D
  | .upsert vectors => (c.upsert codec crc32c vectors).1
  | .delete ids => (c.delete codec crc32c ids).1
  | .flush task timestamp => { c with storage := c.storage.runTask codec task timestamp }

def Throughout (Q : Collection P D → Prop) (c : Collection P D) : Event P → Prop
  | .upsert vectors =>
    ∀ r ∈ rounds (upsertItem codec crc32c) c vectors, Q (r.1.upsertItem codec crc32c r.2).1
  | .delete ids =>
    ∀ r ∈ rounds (deleteItem codec crc32c) c ids, Q (r.1.deleteItem codec crc32c r.2).1
  | .flush task timestamp => Q (c.apply codec crc32c (.flush task timestamp))

/-- The condition on an event, on the states before its rounds. -/
def Keeps (c : Collection P D) : Event P → Prop
  | .upsert vectors =>
    ∀ r ∈ rounds (upsertItem codec crc32c) c vectors, r.1.UpsertKeeps codec r.2
  | .delete ids => ∀ r ∈ rounds (deleteItem codec crc32c) c ids, r.1.DeleteKeeps codec r.2
  | .flush task timestamp => FlushKeeps codec Vector.data c.storage task timestamp

theorem throughout_iff (c : Collection P D) (event : Event P) (hc : c.InStep codec) :
    c.Throughout codec crc32c (InStep codec) event ↔ c.Keeps codec crc32c event := by
  cases event with
  | upsert vectors => exact rounds_iff (upsertItem_iff codec crc32c) hc vectors
  | delete ids => exact rounds_iff (deleteItem_iff codec crc32c) hc ids
  | flush task timestamp => exact mirrors_runTask_iff hc task timestamp

theorem inStep_apply (c : Collection P D) (event : Event P) (hc : c.InStep codec)
    (hall : c.Throughout codec crc32c (InStep codec) event) :
    (c.apply codec crc32c event).InStep codec := by
  cases event with
  | upsert vectors => exact inStep_complete codec (loop_keeps (fun _ _ _ hnext => hnext) hc hall)
  | delete ids => exact inStep_complete codec (loop_keeps (fun _ _ _ hnext => hnext) hc hall)
  | flush task timestamp => exact hall

/-- Index and storage stay in step through every state of a run exactly when
every round of it meets its condition. -/
theorem in_step_iff (c : Collection P D) (hc : c.InStep codec) (events : List (Event P)) :
    Each (apply codec crc32c) (fun c event => c.Throughout codec crc32c (InStep codec) event)
        c events ↔
      Each (apply codec crc32c) (fun c event => c.Keeps codec crc32c event) c events :=
  each_congr (inStep_apply codec crc32c) (throughout_iff codec crc32c) hc

end Calls

/-! ## A new collection, and one with a table -/

omit [LinearOrder D] in
theorem create_get (codec : Codec P) (config : CollectionConfig D) (id : VectorId) :
    (create config : Collection P D).storage.get codec id = .ok none := by
  rw [System.get_eq_answer, System.entry]
  show answer (Option.or (MemTable.get (MemTable.new _) id) none) _ = _
  rw [MemTable.get_new]
  rfl

omit [LinearOrder D] in
theorem inStep_create (codec : Codec P) (config : CollectionConfig D) :
    (create config : Collection P D).InStep codec := by
  intro id
  have hindexed : (create config : Collection P D).indexed id = none := by
    rw [indexed, create, HNSWIndex.new, Std.TreeMap.getElem?_emptyc]
    rfl
  rw [hindexed, create_get]
  rfl

def sampleCollectionConfig : CollectionConfig Nat :=
  { dimension := 1, distance := sampleDistance, hnswConfig := none }

def sampleItem : UpsertItem Unit :=
  { id := 1, vector := { data := [0x3F800000], payload := none }, timestamp := 1, level := 0 }

/-- There is no table, and the record is taken without a flush. -/
def TakenInMemory (codec : Codec P) (s : System P) (record : Record P) : Bool :=
  s.engine.tables.length == 0 && !(written codec s.engine.memtable record).shouldFlush &&
    match s.engine.memtable.get record.id with
    | some .delete => false
    | _ => true

theorem writeKeeps_of_takenInMemory {β : Type} {codec : Codec P} {f : Vector P → β}
    {view : VectorId → Option β} {s : System P} {record : Record P}
    (htaken : TakenInMemory codec s record = true) : WriteKeeps codec f view s record := by
  simp only [TakenInMemory, Bool.and_eq_true, Bool.not_eq_true', beq_iff_eq] at htaken
  obtain ⟨⟨htables, hflush⟩, hentry⟩ := htaken
  refine fun _ => ⟨fun hrefused => ?_, fun _ => ⟨fun _ _ => ?_, fun hfull => ?_⟩⟩
  · rw [hrefused.2] at hentry
    exact absurd hentry (by simp)
  · have hnone : s.fromTables codec record.id = .ok none := by
      rw [← absent_iff]
      intro table htable
      rw [List.length_eq_zero_iff.mp htables] at htable
      exact absurd htable (by simp)
    rw [hnone]
    rfl
  · exact absurd (hflush.symm.trans hfull) (by simp)

def sampleEvents : List (Event Unit) :=
  [.upsert [sampleItem, { sampleItem with id := 2, vector := { data := [0], payload := none } }],
    .delete [(1, 2)]]

theorem in_step_created :
    Each (apply (textCodec [] []) fun _ => 0)
      (fun c event => c.Throughout (textCodec [] []) (fun _ => 0) (InStep (textCodec [] [])) event)
      (create sampleCollectionConfig : Collection Unit Nat) sampleEvents := by
  refine (in_step_iff (textCodec [] []) (fun _ => 0) (create sampleCollectionConfig)
    (inStep_create _ _) sampleEvents).mpr (each_cons.mpr ⟨?_, each_cons.mpr ⟨?_, each_nil _⟩⟩)
  · have hrounds : (rounds (upsertItem (textCodec [] []) fun _ => 0)
        (create sampleCollectionConfig : Collection Unit Nat)
        [sampleItem, { sampleItem with id := 2, vector := { data := [0], payload := none } }]).all
          (fun r => TakenInMemory (textCodec [] []) r.1.storage
            (.put r.2.id r.2.vector r.2.timestamp)) = true := by decide +kernel
    exact fun r hr _ => writeKeeps_of_takenInMemory (List.all_eq_true.mp hrounds r hr)
  · intro r hr
    rw [rounds_singleton, List.mem_singleton] at hr
    rw [hr]
    exact writeKeeps_of_takenInMemory (by decide +kernel)

def sampleRecord : Record Unit := .put 1 { data := [0x3F800000], payload := none } 1

def sampleSystem : System Unit :=
  ((System.create StorageConfig.default).write (textCodec [sampleRecord] [sampleMeta])
    (fun _ => 0) sampleRecord).1

def sampleFiles : Files :=
  Files.write (fun _ => ∅) { level := 0, timestamp := 10 }
    (System.flushedTable (textCodec [sampleRecord] [sampleMeta]) StorageConfig.default
      sampleSystem.engine.memtable)

def sampleOpened : Except Error (Collection Unit Nat) :=
  openAt (textCodec [sampleRecord] [sampleMeta]) (fun _ => 0) sampleCollectionConfig
    sampleSystem.engine.wal.dir sampleFiles [] fun _ => 0

/-- Index, memtable and tables know the id 1 only, with the same components. -/
def KnowsOne (codec : Codec P) (c : Collection P D) (data : List UInt32) : Bool :=
  c.index.vectors.keys == [1] && c.storage.engine.memtable.entries.keys == [1] &&
    c.storage.engine.immutable.length == 0 &&
    c.storage.engine.tables.all (fun t => t.metadata.minId == 1 && t.metadata.maxId == 1) &&
    c.indexed 1 == some data && (okSome (c.storage.get codec 1)).map Vector.data == some data

omit [LinearOrder D] in
theorem inStep_of_knowsOne {codec : Codec P} {c : Collection P D} {data : List UInt32}
    (hc : c.KnowsOne codec data = true) : c.InStep codec := by
  simp only [KnowsOne, Bool.and_eq_true, beq_iff_eq, List.all_eq_true] at hc
  obtain ⟨⟨⟨⟨⟨hindex, hmemtable⟩, hqueue⟩, htables⟩, hdata⟩, hget⟩ := hc
  intro id
  by_cases hid : id = 1
  · subst hid
    rw [hdata, hget]
  · have hindexed : c.indexed id = none := by
      rw [indexed, Std.TreeMap.getElem?_eq_none]
      · rfl
      · rw [← Std.TreeMap.mem_keys, hindex, List.mem_singleton]
        exact hid
    have hentry : c.storage.entry id = none := by
      have hactive : c.storage.engine.memtable.get id = none := by
        rw [MemTable.get, Std.TreeMap.getElem?_eq_none]
        rw [← Std.TreeMap.mem_keys, hmemtable, List.mem_singleton]
        exact hid
      rw [System.entry, hactive, StorageEngine.queued, List.length_eq_zero_iff.mp hqueue]
      rfl
    have hnone : c.storage.fromTables codec id = .ok none := by
      rw [← absent_iff]
      intro table htable
      obtain ⟨hmin, hmax⟩ := htables table (List.mem_of_find?_eq_some htable)
      have hcovers := List.find?_some htable
      rw [SSTable.mayContain, hmin, hmax, Bool.and_eq_true, decide_eq_true_eq,
        decide_eq_true_eq] at hcovers
      exact absurd (Nat.le_antisymm hcovers.2 hcovers.1) hid
    rw [hindexed, System.get_eq_answer, hentry, hnone]
    rfl

theorem sampleOpened_deleted :
    sampleOpened.map (fun c =>
        (c.KnowsOne (textCodec [sampleRecord] [sampleMeta]) [0x3F800000],
          (c.apply (textCodec [sampleRecord] [sampleMeta]) (fun _ => 0) (.delete [(1, 2)])).indexed 1,
          (okSome ((c.apply (textCodec [sampleRecord] [sampleMeta]) (fun _ => 0)
            (.delete [(1, 2)])).storage.get (textCodec [sampleRecord] [sampleMeta]) 1)).map
              Vector.data)) =
      .ok (true, none, some [0x3F800000]) := by
  decide +kernel

/-- The deletion takes the vector out of the index, and the table still gives
it. -/
theorem not_in_step_deleted :
    ∃ c, sampleOpened = .ok c ∧ c.InStep (textCodec [sampleRecord] [sampleMeta]) ∧
      ¬ (c.apply (textCodec [sampleRecord] [sampleMeta]) (fun _ => 0) (.delete [(1, 2)])).InStep
        (textCodec [sampleRecord] [sampleMeta]) := by
  obtain ⟨c, hopen, hc⟩ := map_eq_ok sampleOpened_deleted
  refine ⟨c, hopen, inStep_of_knowsOne (congrArg Prod.fst hc), fun hstep => ?_⟩
  have hone := ((congrArg (fun facts => facts.2.1) hc).symm.trans (hstep 1)).trans
    (congrArg (fun facts => facts.2.2) hc)
  exact absurd hone (by simp)

end Collection

end RTDB
