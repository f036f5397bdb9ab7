import RTDB.Storage.Deletion

/-!
# Scanning

A scan walks the active memtable and every table, newest first; it does not look
at the queue, and it takes an id from the first table that lists it, where `get`
asks the first table whose range covers it.
-/

namespace RTDB
namespace Storage

open Layers Outcomes StorageEngine

variable {P : Type}

/-! ## The memtable's part -/

section Memtable

variable (m : MemTable P) (start stop : Option VectorId)

theorem foldl_scanEntry (l : List (VectorId × MemTableEntry P)) (hl : l.Pairwise (·.1 ≠ ·.1))
    (id : VectorId) :
    (∀ v, (l.foldl (scanEntry start stop) (∅, [])).1[id]? = some v ↔
        (id, .put v) ∈ l ∧ inRange id start stop = true) ∧
      (id ∈ (l.foldl (scanEntry start stop) (∅, [])).2 ↔ (id, .delete) ∈ l) := by
  induction l using List.reverseRecOn with
  | nil => simp
  | append_singleton l kv ih =>
    obtain ⟨hl, -, hlast⟩ := List.pairwise_append.mp hl
    obtain ⟨ihput, ihdelete⟩ := ih hl
    obtain ⟨id', entry⟩ := kv
    have hfresh : ∀ entry', (id', entry') ∉ l :=
      fun entry' hmem => hlast _ hmem (id', entry) List.mem_cons_self rfl
    rw [List.foldl_append, List.foldl_cons, List.foldl_nil]
    cases entry with
    | delete =>
      refine ⟨fun v => ?_, ?_⟩
      · show _[id]? = some v ↔ _
        rw [scanEntry]
        dsimp only
        rw [ihput]
        simp
      · rw [scanEntry]
        dsimp only
        rw [List.mem_cons, ihdelete]
        simp [or_comm]
    | put v' =>
      refine ⟨fun v => ?_, ?_⟩
      · rw [scanEntry]
        dsimp only
        split
        · rename_i hrange
          rw [Std.TreeMap.getElem?_insert]
          simp only [Nat.compare_eq_eq]
          by_cases hid : id' = id
          · subst hid
            rw [if_pos rfl]
            simp [hrange, hfresh, eq_comm]
          · rw [if_neg hid, ihput]
            simp [Ne.symm hid]
        · rename_i hrange
          rw [ihput]
          by_cases hid : id' = id
          · subst hid
            simp [hrange]
          · simp [Ne.symm hid]
      · rw [scanEntry]
        dsimp only
        rw [ihdelete]
        simp

theorem mem_entries {id : VectorId} {entry : MemTableEntry P} :
    (id, entry) ∈ m.entries.toList ↔ m.get id = some entry := by
  rw [Std.TreeMap.mem_toList_iff_getElem?_eq_some, MemTable.get]

theorem mem_puts {id : VectorId} {v : Vector P} :
    (id, v) ∈ m.puts ↔ m.get id = some (.put v) := by
  rw [← mem_entries, MemTable.puts, List.mem_filterMap]
  constructor
  · rintro ⟨⟨id', entry⟩, hmem, hput⟩
    cases entry with
    | delete => exact absurd hput (by simp)
    | put v' =>
      obtain ⟨rfl, rfl⟩ : id' = id ∧ v' = v := by simpa using hput
      exact hmem
  · intro hmem
    exact ⟨(id, .put v), hmem, rfl⟩

theorem entries_distinct : m.entries.toList.Pairwise (·.1 ≠ ·.1) := by
  refine (Std.TreeMap.distinct_keys_toList).imp fun hne heq => hne ?_
  rw [heq, Nat.compare_eq_eq]

theorem scanMemtable_results (id : VectorId) (v : Vector P) :
    (scanMemtable m start stop).1[id]? = some v ↔
      m.get id = some (.put v) ∧ inRange id start stop = true := by
  rw [← mem_entries]
  exact (foldl_scanEntry start stop _ (entries_distinct m) id).1 v

theorem scanMemtable_deleted (id : VectorId) :
    id ∈ (scanMemtable m start stop).2 ↔ m.get id = some .delete := by
  rw [← mem_entries]
  exact (foldl_scanEntry start stop _ (entries_distinct m) id).2

end Memtable

/-! ## The tables' part -/

theorem scanTables_ok_iff {codec : Codec P} {files : Files} {deleted : List VectorId}
    {start stop : Option VectorId} {results results' : Std.TreeMap VectorId (Vector P)}
    {tables : List SSTable} :
    scanTables codec files deleted start stop results tables = .ok results' ↔
      ∃ scans, tables.mapM (fun table => scanFile codec files start stop table.path) =
          .ok scans ∧
        results' = scans.foldl (fill fun id => deleted.contains id) results := by
  induction tables generalizing results with
  | nil => simp [scanTables, pure, Except.pure, eq_comm]
  | cons table tables ih =>
    rw [scanTables, List.mapM_cons]
    cases scanFile codec files start stop table.path with
    | error e => simp [bind, Except.bind]
    | ok entries =>
      rw [ih]
      cases tables.mapM fun table => scanFile codec files start stop table.path with
      | error e => simp [bind, Except.bind]
      | ok scans => simp [bind, Except.bind, pure, Except.pure]

/-- A scan walks the tables as they are listed. -/
theorem scan_ok_iff {codec : Codec P} {s : System P} {start stop : Option VectorId}
    {entries : List (VectorId × Vector P)} :
    s.scan codec start stop = .ok entries ↔
      ∃ scans, s.engine.tables.mapM
          (fun table => scanFile codec s.files start stop table.path) = .ok scans ∧
        entries = (scans.foldl
          (fill fun id => (scanMemtable s.engine.memtable start stop).2.contains id)
          (scanMemtable s.engine.memtable start stop).1).toList := by
  rw [System.scan]
  constructor
  · intro hscan
    obtain ⟨results, hresults, rfl⟩ := map_eq_ok hscan
    obtain ⟨scans, hscans, rfl⟩ := scanTables_ok_iff.mp hresults
    exact ⟨scans, hscans, rfl⟩
  · rintro ⟨scans, hscans, rfl⟩
    dsimp only
    rw [scanTables_ok_iff.mpr ⟨scans, hscans, rfl⟩]
    rfl

/-- What a table lists lies in the bounds. -/
theorem scanBlocks_inRange {codec : Codec P} {file : Option (List UInt8)} {start stop : VectorId}
    {index : List IndexEntry} {entries : List (VectorId × Vector P)}
    (hscan : SSTable.scanBlocks codec file start stop index = .ok entries) :
    ∀ kv ∈ entries, start ≤ kv.1 ∧ kv.1 ≤ stop := by
  induction index generalizing entries with
  | nil =>
    obtain rfl := Except.ok.inj hscan
    exact fun kv hkv => absurd hkv List.not_mem_nil
  | cons entry rest ih =>
    rw [SSTable.scanBlocks] at hscan
    cases hload : SSTable.loadBlock codec file entry with
    | error e =>
      rw [hload] at hscan
      exact absurd hscan (by simp)
    | ok block =>
      simp only [hload] at hscan
      have hresults : ∀ kv ∈ (block.takeWhile fun kv => kv.1 ≤ stop).filter fun kv => kv.1 ≥ start,
          start ≤ kv.1 ∧ kv.1 ≤ stop := by
        intro kv hkv
        obtain ⟨htake, hstart⟩ := List.mem_filter.mp hkv
        have hstop := List.all_eq_true.mp List.all_takeWhile kv htake
        exact ⟨by simpa using hstart, by simpa using hstop⟩
      split at hscan
      · rw [← Except.ok.inj hscan]
        exact hresults
      · obtain ⟨entries', hrest, rfl⟩ := map_eq_ok hscan
        exact List.forall_mem_append.mpr ⟨hresults, ih hrest⟩

theorem scanFile_inRange {codec : Codec P} {files : Files} {start stop : Option VectorId}
    {path : Path} {entries : List (VectorId × Vector P)}
    (hscan : scanFile codec files start stop path = .ok entries) :
    ∀ kv ∈ entries, inRange kv.1 start stop = true := by
  rw [scanFile] at hscan
  split at hscan
  · exact absurd hscan (by simp)
  · split at hscan
    · exact absurd hscan (by simp)
    · intro kv hkv
      obtain ⟨hstart, hstop⟩ := scanBlocks_inRange hscan kv hkv
      cases start <;> cases stop <;> simp_all [inRange]

/-! ## Agreement -/

/-- What `scan` should return: the pairs in the bounds that `get` gives, in order
and once each. -/
structure Lists (codec : Codec P) (s : System P) (start stop : Option VectorId)
    (entries : List (VectorId × Vector P)) : Prop where
  sorted : entries.Pairwise (·.1 < ·.1)
  mem_iff : ∀ id v, (id, v) ∈ entries ↔
    inRange id start stop = true ∧ s.get codec id = .ok (some v)

def ScanAgrees (codec : Codec P) (s : System P) (start stop : Option VectorId) : Prop :=
  ∃ entries, s.scan codec start stop = .ok entries ∧ Lists codec s start stop entries

/-- What a scan makes of an id, when the tables list `scans`. -/
def scanned (s : System P) (scans : List (List (VectorId × Vector P))) (id : VectorId) :
    Option (Vector P) :=
  match s.engine.memtable.get id with
  | some (.put v) => some v
  | some .delete => none
  | none => firstHeld scans id

theorem toList_sorted (m : Std.TreeMap VectorId (Vector P)) : m.toList.Pairwise (·.1 < ·.1) :=
  Std.TreeMap.ordered_keys_toList.imp fun hlt => Nat.compare_eq_lt.mp hlt

theorem mem_scan {s : System P} {start stop : Option VectorId}
    {scans : List (List (VectorId × Vector P))}
    (hrange : ∀ entries ∈ scans, ∀ kv ∈ entries, inRange kv.1 start stop = true)
    (id : VectorId) (v : Vector P) :
    (id, v) ∈ (scans.foldl
        (fill fun id => (scanMemtable s.engine.memtable start stop).2.contains id)
        (scanMemtable s.engine.memtable start stop).1).toList ↔
      inRange id start stop = true ∧ scanned s scans id = some v := by
  have hlisted : firstHeld scans id = some v → inRange id start stop = true := by
    intro hheld
    obtain ⟨entries, hentries, hmem⟩ := mem_of_firstHeld hheld
    exact hrange entries hentries _ hmem
  have hputs := scanMemtable_results s.engine.memtable start stop id
  have hdeleted := scanMemtable_deleted s.engine.memtable start stop id
  have hlookup := getElem?_foldl_fill
    (fun id => (scanMemtable s.engine.memtable start stop).2.contains id) scans
    (scanMemtable s.engine.memtable start stop).1 id
  rw [Std.TreeMap.mem_toList_iff_getElem?_eq_some, hlookup, scanned]
  by_cases hin : inRange id start stop = true
  · simp only [hin, and_true] at hputs
    simp only [hin, true_and, List.contains_iff_mem]
    cases hactive : s.engine.memtable.get id with
    | none =>
      have hnone : (scanMemtable s.engine.memtable start stop).1[id]? = none := by
        rw [Option.eq_none_iff_forall_ne_some]
        exact fun v' hv' => absurd (hactive.symm.trans ((hputs v').mp hv')) (by simp)
      simp [hnone, hdeleted, hactive]
    | some entry =>
      cases entry with
      | put v' =>
        rw [(hputs v').mpr hactive]
        simp
      | delete =>
        have hnone : (scanMemtable s.engine.memtable start stop).1[id]? = none := by
          rw [Option.eq_none_iff_forall_ne_some]
          exact fun v' hv' => absurd (hactive.symm.trans ((hputs v').mp hv')) (by simp)
        simp [hnone, hdeleted, hactive]
  · have hnone : (scanMemtable s.engine.memtable start stop).1[id]? = none := by
      rw [Option.eq_none_iff_forall_ne_some]
      exact fun v' hv' => hin ((hputs v').mp hv').2
    have hheld : firstHeld scans id ≠ some v := fun hheld => hin (hlisted hheld)
    simp [hnone, hin, hheld]

/-- Under which ids the two walks meet the same vector. -/
def Coherent (codec : Codec P) (s : System P) (scans : List (List (VectorId × Vector P)))
    (id : VectorId) : Prop :=
  match s.engine.memtable.get id with
  | some (.put _) => True
  | some .delete => ∀ v, ¬ Stored codec s id v
  | none =>
    match s.engine.queued id with
    | some (.put v) => firstHeld scans id = some v
    | some .delete | none => ∀ v, firstHeld scans id = some v ↔ Stored codec s id v

theorem coherent_iff {codec : Codec P} {s : System P} {scans : List (List (VectorId × Vector P))}
    {id : VectorId} :
    Coherent codec s scans id ↔
      ∀ v, scanned s scans id = some v ↔ s.get codec id = .ok (some v) := by
  have hget : ∀ v, s.get codec id = .ok (some v) ↔
      s.entry id = some (.put v) ∨
        (∀ other, s.entry id ≠ some (.put other)) ∧ Stored codec s id v := by
    intro v
    rw [System.get_eq_answer, answer_eq_some_iff, stored_iff]
  simp only [hget, System.entry, Coherent, scanned]
  rcases s.engine.memtable.get id with _ | v | _
  · rcases s.engine.queued id with _ | v | _
    · simp
    · constructor
      · intro hheld v'
        simp [hheld]
      · intro hall
        simpa using (hall v).mpr (by simp)
    · simp
  · simp
  · simp

/-- A scan agrees with `get` exactly when every table file lists its entries and
the two walks meet the same vector under each id. -/
theorem scan_agrees_iff (codec : Codec P) (s : System P) (start stop : Option VectorId) :
    ScanAgrees codec s start stop ↔
      ∃ scans, s.engine.tables.mapM (fun table => scanFile codec s.files start stop table.path) =
          .ok scans ∧
        ∀ id, inRange id start stop = true → Coherent codec s scans id := by
  have hrange : ∀ scans, s.engine.tables.mapM
      (fun table => scanFile codec s.files start stop table.path) = .ok scans →
        ∀ entries ∈ scans, ∀ kv ∈ entries, inRange kv.1 start stop = true := by
    intro scans hscans entries hentries
    obtain ⟨i, hi⟩ := List.mem_iff_getElem?.mp hentries
    obtain ⟨table, -, htable⟩ := (getElem?_of_mapM hscans i).2 _ hi
    exact scanFile_inRange htable
  simp only [ScanAgrees, scan_ok_iff, coherent_iff]
  constructor
  · rintro ⟨-, ⟨scans, hscans, rfl⟩, hlists⟩
    refine ⟨scans, hscans, fun id hid v => ?_⟩
    have hmem := hlists.mem_iff id v
    rw [mem_scan (hrange scans hscans)] at hmem
    simpa [hid] using hmem
  · rintro ⟨scans, hscans, hall⟩
    refine ⟨_, ⟨scans, hscans, rfl⟩, toList_sorted _, fun id v => ?_⟩
    rw [mem_scan (hrange scans hscans)]
    exact and_congr_right fun hid => hall id hid v

/-- Two puts, each filling the memtable: the second memtable stays in the queue,
because the handle of the first flush is never cleared. -/
def requeued : List (Event Unit) :=
  [ .write (.put 1 { data := [0x3F800000], payload := none } 1),
    .write (.put 1 { data := [0x3F800000], payload := none } 3) ]

theorem requeued_scan :
    (Session.run sampleCodec (fun _ => 0) (sampleConfig 70) requeued).map (fun s =>
        (s.system.get sampleCodec 1, s.system.scan sampleCodec none none)) =
      some (.ok (some { data := [0x3F800000], payload := none }), .ok []) := by
  decide +kernel

theorem not_scan_agrees_requeued :
    ∃ s, Session.run sampleCodec (fun _ => 0) (sampleConfig 70) requeued = some s ∧
      ¬ ScanAgrees sampleCodec s.system none none := by
  obtain ⟨s, hrun, hs⟩ := Option.map_eq_some_iff.mp requeued_scan
  refine ⟨s, hrun, ?_⟩
  rintro ⟨entries, hscan, hlists⟩
  have hget := (hlists.mem_iff 1 _).mpr ⟨rfl, congrArg Prod.fst hs⟩
  obtain rfl : entries = [] := Except.ok.inj (hscan.symm.trans (congrArg Prod.snd hs))
  exact absurd hget List.not_mem_nil

end Storage
end RTDB
