import Mathlib.Logic.Function.Basic
import RTDB.Lib.Names
import RTDB.Lib.Runs
import RTDB.Storage.Snapshot

/-!
# The snapshot manager

`storage/snapshot.rs`.  A snapshot is a file named by its id, which is the collection, the second of
its creation and its type.  Times are nanoseconds since 1970.  The name of a collection is taken to
have no path separator, so that an id is the name of one file of the directory.
-/

namespace RTDB
namespace Storage

inductive SnapshotType where
  | full
  | incremental
  deriving DecidableEq, Repr

def SnapshotType.suffix : SnapshotType → String
  | .full => "full"
  | .incremental => "inc"

structure SnapshotMetadata where
  version : Nat
  id : String
  collection : String
  createdAt : Nat
  vectorCount : Nat
  sizeBytes : Nat
  compression : CompressionType
  checksum : String
  walSequence : Nat
  parentId : Option String
  snapshotType : SnapshotType
  deriving DecidableEq, Repr

def snapshotVersion : Nat := 1

def second : Nat := 1000000000

def day : Nat := 86400 * second

/-- What the id of a snapshot is made of. -/
structure Stamp where
  collection : String
  seconds : Nat
  snapshotType : SnapshotType
  deriving DecidableEq, Repr

def Stamp.id (stamp : Stamp) : String :=
  stamp.collection ++ "-" ++ toString stamp.seconds ++ "-" ++ stamp.snapshotType.suffix

/-- The manager with the `.snap` files of its directory; the `.meta` files are only read when it is
made. -/
structure SnapshotManager where
  retentionDays : Nat
  files : AList fun _ : String => List UInt8
  snapshots : AList fun _ : String => SnapshotMetadata

/-- A snapshot that is asked for; an incremental one names its parent. -/
structure SnapshotRequest (F : Type) where
  collection : String
  vectors : List (VectorId × Vector (Payload F))
  walSequence : Nat
  parentId : Option String

/-- How the files of a snapshot are written: whole, not at all, or in part. -/
inductive Writing where
  | whole
  | refused (msg : String)
  | broken (left : List UInt8) (msg : String)
  deriving DecidableEq, Repr

/-- The encoding of JSON values and SHA-256. -/
structure SnapshotEnv (F : Type) where
  values : ValueCodec F
  sha256 : List UInt8 → String

def SnapshotRequest.snapshotType {F : Type} (request : SnapshotRequest F) : SnapshotType :=
  if request.parentId.isSome then .incremental else .full

def SnapshotRequest.stamp {F : Type} (request : SnapshotRequest F) (now : Nat) : Stamp :=
  { collection := request.collection, seconds := now / second, snapshotType := request.snapshotType }

namespace SnapshotManager

variable {F : Type} (env : SnapshotEnv F)

def new (retentionDays : Nat) : SnapshotManager := { retentionDays, files := ∅, snapshots := ∅ }

def metadataOf (request : SnapshotRequest F) (now written : Nat) : SnapshotMetadata :=
  let data := encodeSnapshot env.values request.vectors
  { version := snapshotVersion, id := (request.stamp now).id, collection := request.collection
    createdAt := written, vectorCount := request.vectors.length, sizeBytes := data.length
    compression := .zstd, checksum := env.sha256 data, walSequence := request.walSequence
    parentId := request.parentId, snapshotType := request.snapshotType }

/-- `create_full_snapshot` and `create_incremental_snapshot`. -/
def createSnapshot (m : SnapshotManager) (request : SnapshotRequest F) (now written : Nat) :
    Writing → Except RTDBError SnapshotMetadata × SnapshotManager
  | .whole =>
    let metadata := metadataOf env request now written
    (.ok metadata,
      { m with
        files := m.files.insert metadata.id (encodeSnapshot env.values request.vectors)
        snapshots := m.snapshots.insert metadata.id metadata })
  | .refused msg => (.error (.storage msg), m)
  | .broken left msg =>
    (.error (.storage msg), { m with files := m.files.insert (request.stamp now).id left })

def restoreSnapshot (m : SnapshotManager) (id : String) :
    Except RTDBError (List (VectorId × Vector (Payload F))) :=
  match m.files.lookup id with
  | none => .error (.storage ("Snapshot not found: " ++ id))
  | some bytes =>
    match m.snapshots.lookup id with
    | none => .error (.storage "Snapshot metadata not found")
    | some metadata =>
      if env.sha256 bytes ≠ metadata.checksum then
        .error (.storage "Snapshot checksum mismatch - data corrupted")
      else readSnapshotData bytes

def deleteSnapshot (m : SnapshotManager) (id : String) : Bool × SnapshotManager :=
  if id ∈ m.snapshots then
    (true, { m with files := m.files.erase id, snapshots := m.snapshots.erase id })
  else (false, m)

def expired (m : SnapshotManager) (now : Nat) (metadata : SnapshotMetadata) : Bool :=
  decide (metadata.createdAt + m.retentionDays * day < now)

/-- The snapshots are those listed before the first deletion. -/
def cleanupLoop (old : SnapshotMetadata → Bool) :
    List (Sigma fun _ : String => SnapshotMetadata) → Nat × SnapshotManager → Nat × SnapshotManager
  | [], acc => acc
  | entry :: rest, acc =>
    if old entry.2 = true ∧ (acc.2.deleteSnapshot entry.1).1 = true then
      cleanupLoop old rest (acc.1 + 1, (acc.2.deleteSnapshot entry.1).2)
    else cleanupLoop old rest acc

def cleanupOldSnapshots (m : SnapshotManager) (now : Nat) : Nat × SnapshotManager :=
  cleanupLoop (m.expired now) m.snapshots.entries (0, m)

end SnapshotManager

/-! ## Runs -/

inductive SnapshotCall (F : Type) where
  | create (request : SnapshotRequest F) (now written : Nat) (writing : Writing)
  | delete (id : String)
  | cleanup (now : Nat)

/-- The manager, the stamps of the snapshots it has made, and what was put into those that have not
been deleted. -/
structure Shelf (F : Type) where
  manager : SnapshotManager
  taken : List Stamp
  kept : String → Option (List (VectorId × Vector (Payload F)))

namespace Shelf

variable {F : Type} (env : SnapshotEnv F)

def start (retentionDays : Nat) : Shelf F :=
  { manager := SnapshotManager.new retentionDays, taken := [], kept := fun _ => none }

def perform (s : Shelf F) : SnapshotCall F → Shelf F
  | .create request now written writing =>
    match s.manager.createSnapshot env request now written writing with
    | (.ok metadata, manager) =>
      { manager, taken := s.taken ++ [request.stamp now]
        kept := Function.update s.kept metadata.id (some request.vectors) }
    | (.error _, manager) => { s with manager }
  | .delete id =>
    { s with
      manager := (s.manager.deleteSnapshot id).2
      kept := Function.update s.kept id none }
  | .cleanup now =>
    { s with
      manager := (s.manager.cleanupOldSnapshots now).2
      kept := fun id =>
        if (s.manager.snapshots.lookup id).any (s.manager.expired now) then none else s.kept id }

/-- The snapshots have different ids, and each is restored as it was put in. -/
structure Faithful (s : Shelf F) : Prop where
  distinct : (s.taken.map Stamp.id).Nodup
  restored : ∀ id vectors, s.kept id = some vectors → s.manager.restoreSnapshot env id = .ok vectors

/-- A snapshot is not of the same collection, second and type as another one, and its vectors can be
read back; one that fails does not break into the file of another one. -/
def Sound (s : Shelf F) : SnapshotCall F → Prop
  | .create request now _ .whole =>
    request.stamp now ∉ s.taken ∧ ∀ pair ∈ request.vectors, Restorable pair
  | .create request now _ (.broken _ _) => s.kept (request.stamp now).id = none
  | _ => True

/-- Nothing is left over from a creation that failed. -/
def unbroken : SnapshotCall F → Bool
  | .create _ _ _ (.broken _ _) => false
  | _ => true

end Shelf

/-! ## Names and files -/

theorem SnapshotType.suffix_inj {t t' : SnapshotType} (hsuffix : t.suffix.toList = t'.suffix.toList) :
    t = t' := by
  cases t <;> cases t' <;> first
    | rfl
    | exact absurd hsuffix (by decide)

/-- An id tells its collection, second and type. -/
theorem Stamp.id_inj {stamp stamp' : Stamp} (hid : stamp.id = stamp'.id) : stamp = stamp' := by
  have hchars : (stamp.collection.toList ++ '-' :: Nat.toDigits 10 stamp.seconds) ++
        '-' :: stamp.snapshotType.suffix.toList =
      (stamp'.collection.toList ++ '-' :: Nat.toDigits 10 stamp'.seconds) ++
        '-' :: stamp'.snapshotType.suffix.toList := by
    simpa [Stamp.id] using congrArg String.toList hid
  have hplain : ∀ t : SnapshotType, '-' ∉ t.suffix.toList := by
    intro t
    cases t <;> decide
  have hfront := Names.before_last (hplain _) (hplain _) hchars
  have htype := SnapshotType.suffix_inj (Names.after_last (hplain _) (hplain _) hchars)
  have hdigits := Names.hyphen_notMem_toDigits
  have hcollection := String.toList_inj.mp (Names.before_last (hdigits _) (hdigits _) hfront)
  have hseconds := Names.toDigits_inj (Names.after_last (hdigits _) (hdigits _) hfront)
  cases stamp
  cases stamp'
  rw [Stamp.mk.injEq]
  exact ⟨hcollection, hseconds, htype⟩

namespace SnapshotManager

variable {F : Type} {env : SnapshotEnv F} {m m' : SnapshotManager} {id : String}

theorem restoreSnapshot_congr (hfile : m'.files.lookup id = m.files.lookup id)
    (hmetadata : m'.snapshots.lookup id = m.snapshots.lookup id) :
    m'.restoreSnapshot env id = m.restoreSnapshot env id := by
  rw [restoreSnapshot, restoreSnapshot, hfile, hmetadata]

theorem restoreSnapshot_createSnapshot (request : SnapshotRequest F) (now written : Nat) :
    (m.createSnapshot env request now written .whole).2.restoreSnapshot env (request.stamp now).id =
      readSnapshotData (encodeSnapshot env.values request.vectors) := by
  have hfile : (m.createSnapshot env request now written .whole).2.files.lookup (request.stamp now).id =
      some (encodeSnapshot env.values request.vectors) := AList.lookup_insert _
  have hmetadata : (m.createSnapshot env request now written .whole).2.snapshots.lookup
      (request.stamp now).id = some (metadataOf env request now written) := AList.lookup_insert _
  rw [restoreSnapshot, hfile, hmetadata]
  dsimp only
  rw [if_neg (fun hne => hne rfl)]

/-- A snapshot that is created is of its own id only. -/
theorem restoreSnapshot_createSnapshot_of_ne (request : SnapshotRequest F) (now written : Nat)
    (writing : Writing) (hid : id ≠ (request.stamp now).id) :
    (m.createSnapshot env request now written writing).2.restoreSnapshot env id =
      m.restoreSnapshot env id := by
  cases writing with
  | whole => exact restoreSnapshot_congr (AList.lookup_insert_ne hid) (AList.lookup_insert_ne hid)
  | refused msg => rfl
  | broken left msg => exact restoreSnapshot_congr (AList.lookup_insert_ne hid) rfl

theorem lookup_deleteSnapshot_of_ne {id' : String} (hid : id ≠ id') :
    (m.deleteSnapshot id').2.files.lookup id = m.files.lookup id ∧
      (m.deleteSnapshot id').2.snapshots.lookup id = m.snapshots.lookup id := by
  rw [deleteSnapshot]
  split
  · exact ⟨AList.lookup_erase_ne hid, AList.lookup_erase_ne hid⟩
  · exact ⟨rfl, rfl⟩

/-- The loop leaves what is not old as it is. -/
theorem lookup_cleanupLoop {old : SnapshotMetadata → Bool}
    {entries : List (Sigma fun _ : String => SnapshotMetadata)} {acc : Nat × SnapshotManager}
    (hyoung : ∀ entry ∈ entries, entry.1 = id → old entry.2 = false) :
    (cleanupLoop old entries acc).2.files.lookup id = acc.2.files.lookup id ∧
      (cleanupLoop old entries acc).2.snapshots.lookup id = acc.2.snapshots.lookup id := by
  induction entries generalizing acc with
  | nil => exact ⟨rfl, rfl⟩
  | cons entry rest ih =>
    have hrest : ∀ later ∈ rest, later.1 = id → old later.2 = false :=
      fun later hmem => hyoung later (List.mem_cons_of_mem entry hmem)
    rw [cleanupLoop]
    split
    case isTrue hold =>
      have hid : id ≠ entry.1 := by
        intro hid
        rw [hyoung entry List.mem_cons_self hid.symm] at hold
        exact absurd hold.1 Bool.false_ne_true
      obtain ⟨hfile, hsnapshot⟩ := lookup_deleteSnapshot_of_ne (m := acc.2) hid
      exact ⟨(ih hrest).1.trans hfile, (ih hrest).2.trans hsnapshot⟩
    case isFalse => exact ih hrest

theorem lookup_cleanupOldSnapshots {now : Nat}
    (hyoung : (m.snapshots.lookup id).any (m.expired now) = false) :
    (m.cleanupOldSnapshots now).2.files.lookup id = m.files.lookup id ∧
      (m.cleanupOldSnapshots now).2.snapshots.lookup id = m.snapshots.lookup id := by
  refine lookup_cleanupLoop fun entry hmem hid => ?_
  have hentry : m.snapshots.lookup id = some entry.2 := by
    rw [← hid]
    exact AList.mem_lookup_iff.mpr hmem
  rw [hentry, Option.any_some] at hyoung
  exact hyoung

end SnapshotManager

/-! ## Steps -/

namespace Shelf

variable {F : Type} {env : SnapshotEnv F} {s : Shelf F} {call : SnapshotCall F}

/-- Faithful, and what is kept has been made. -/
structure Kept (env : SnapshotEnv F) (s : Shelf F) : Prop where
  faithful : s.Faithful env
  made : ∀ id vectors, s.kept id = some vectors → ∃ stamp ∈ s.taken, stamp.id = id

theorem kept_start (retentionDays : Nat) : (start retentionDays : Shelf F).Kept env :=
  { faithful := { distinct := List.nodup_nil, restored := fun _ _ hnone => absurd hnone (by simp [start]) }
    made := fun _ _ hnone => absurd hnone (by simp [start]) }

/-- A new id is one of a new stamp. -/
theorem Kept.nodup_append_iff (hs : s.Kept env) (stamp : Stamp) :
    ((s.taken ++ [stamp]).map Stamp.id).Nodup ↔ stamp ∉ s.taken := by
  rw [List.map_append, List.map_singleton, List.nodup_append]
  constructor
  · intro hnodup hmem
    exact hnodup.2.2 stamp.id (List.mem_map_of_mem hmem) stamp.id (List.mem_singleton_self _) rfl
  · intro hnew
    refine ⟨hs.faithful.distinct, List.nodup_singleton _, fun id hmem id' hmem' hid => hnew ?_⟩
    obtain ⟨other, hother, rfl⟩ := List.mem_map.mp hmem
    rw [List.mem_singleton.mp hmem'] at hid
    rw [← Stamp.id_inj hid]
    exact hother

theorem perform_whole (request : SnapshotRequest F) (now written : Nat) :
    s.perform env (.create request now written .whole) =
      { manager := (s.manager.createSnapshot env request now written .whole).2
        taken := s.taken ++ [request.stamp now]
        kept := Function.update s.kept (request.stamp now).id (some request.vectors) } := rfl

theorem Kept.whole (hs : s.Kept env) {request : SnapshotRequest F} {now written : Nat}
    (hnew : request.stamp now ∉ s.taken) (hvectors : ∀ pair ∈ request.vectors, Restorable pair) :
    (s.perform env (.create request now written .whole)).Kept env := by
  rw [perform_whole]
  refine { faithful := { distinct := (hs.nodup_append_iff _).mpr hnew, restored := ?_ }, made := ?_ }
  · intro id vectors hkept
    dsimp only at hkept ⊢
    by_cases hid : id = (request.stamp now).id
    · rw [hid, Function.update_self] at hkept
      rw [hid, ← Option.some.inj hkept, SnapshotManager.restoreSnapshot_createSnapshot]
      exact (readSnapshotData_iff env.values).mpr hvectors
    · rw [Function.update_of_ne hid] at hkept
      rw [SnapshotManager.restoreSnapshot_createSnapshot_of_ne request now written .whole hid]
      exact hs.faithful.restored id vectors hkept
  · intro id vectors hkept
    dsimp only at hkept
    by_cases hid : id = (request.stamp now).id
    · exact ⟨request.stamp now, List.mem_append_right _ (List.mem_singleton_self _), hid.symm⟩
    · rw [Function.update_of_ne hid] at hkept
      obtain ⟨stamp, hmem, hstamp⟩ := hs.made id vectors hkept
      exact ⟨stamp, List.mem_append_left _ hmem, hstamp⟩

theorem Kept.broken (hs : s.Kept env) {request : SnapshotRequest F} {now written : Nat}
    {left : List UInt8} {msg : String} (hnone : s.kept (request.stamp now).id = none) :
    (s.perform env (.create request now written (.broken left msg))).Kept env := by
  refine { faithful := { distinct := hs.faithful.distinct, restored := ?_ }, made := hs.made }
  intro id vectors hkept
  have hkept' : s.kept id = some vectors := hkept
  have hid : id ≠ (request.stamp now).id := by
    rintro rfl
    rw [hnone] at hkept'
    exact absurd hkept' (by simp)
  rw [← hs.faithful.restored id vectors hkept']
  exact SnapshotManager.restoreSnapshot_createSnapshot_of_ne (m := s.manager) request now written
    (.broken left msg) hid

theorem Kept.delete (hs : s.Kept env) (id : String) : (s.perform env (.delete id)).Kept env := by
  refine { faithful := { distinct := hs.faithful.distinct, restored := ?_ }, made := ?_ }
  all_goals
    intro id' vectors hkept
    have hkept' : Function.update s.kept id none id' = some vectors := hkept
    have hid : id' ≠ id := by
      rintro rfl
      rw [Function.update_self] at hkept'
      exact absurd hkept' (by simp)
    rw [Function.update_of_ne hid] at hkept'
  · obtain ⟨hfile, hmetadata⟩ := SnapshotManager.lookup_deleteSnapshot_of_ne (m := s.manager) hid
    exact (SnapshotManager.restoreSnapshot_congr hfile hmetadata).trans
      (hs.faithful.restored id' vectors hkept')
  · exact hs.made id' vectors hkept'

theorem Kept.cleanup (hs : s.Kept env) (now : Nat) : (s.perform env (.cleanup now)).Kept env := by
  have hyoung : ∀ id vectors, (s.perform env (.cleanup now)).kept id = some vectors →
      (s.manager.snapshots.lookup id).any (s.manager.expired now) = false ∧
        s.kept id = some vectors := by
    intro id vectors hkept
    simp only [perform] at hkept
    split at hkept
    case isTrue => exact absurd hkept (by simp)
    case isFalse hyoung => exact ⟨Bool.eq_false_iff.mpr hyoung, hkept⟩
  refine { faithful := { distinct := hs.faithful.distinct, restored := ?_ }, made := ?_ }
  · intro id vectors hkept
    obtain ⟨hlater, hold⟩ := hyoung id vectors hkept
    obtain ⟨hfile, hmetadata⟩ := SnapshotManager.lookup_cleanupOldSnapshots hlater
    exact (SnapshotManager.restoreSnapshot_congr hfile hmetadata).trans
      (hs.faithful.restored id vectors hold)
  · intro id vectors hkept
    exact hs.made id vectors (hyoung id vectors hkept).2

theorem Kept.perform (hs : s.Kept env) (hsound : s.Sound call) : (s.perform env call).Kept env := by
  cases call with
  | create request now written writing =>
    cases writing with
    | whole => exact hs.whole hsound.1 hsound.2
    | refused msg => exact hs
    | broken left msg => exact hs.broken hsound
  | delete id => exact hs.delete id
  | cleanup now => exact hs.cleanup now

theorem Kept.sound (hs : s.Kept env) (hwhole : unbroken call = true)
    (hfaithful : (s.perform env call).Faithful env) : s.Sound call := by
  cases call with
  | create request now written writing =>
    cases writing with
    | whole =>
      rw [perform_whole] at hfaithful
      have hrestored := hfaithful.restored (request.stamp now).id request.vectors
        (Function.update_self _ _ _)
      rw [SnapshotManager.restoreSnapshot_createSnapshot] at hrestored
      exact ⟨(hs.nodup_append_iff _).mp hfaithful.distinct,
        (readSnapshotData_iff env.values).mp hrestored⟩
    | refused msg => trivial
    | broken left msg => exact absurd hwhole Bool.false_ne_true
  | delete id => trivial
  | cleanup now => trivial

end Shelf

/-! ## Samples -/

open Storage.Shelf

/-- The hashes of the two files of the samples, which have different lengths. -/
def sampleSha256 (bytes : List UInt8) : String :=
  if bytes.length = 26 then "574f95949c72cbf1ca200a6ba7b4af14563ba204d982c8d4677bbb9fcd1dd905"
  else if bytes.length = 34 then "363ae98208e2bc3ebafde920244bb67898b505c3805f0f465326642d135cc79d"
  else "not a sample"

def sampleEnv : SnapshotEnv Rat where
  values :=
    { toBytes := fun value =>
        match value with
        | .string s => Bytes.leBytes 8 s.utf8ByteSize ++ s.toUTF8.data.toList
        | _ => [] }
  sha256 := sampleSha256

def sampleRequest (payload : Option (Payload Rat)) : SnapshotRequest Rat :=
  { collection := "docs", vectors := [(1, { data := [0x3F800000], payload })], walSequence := 0
    parentId := none }

/-- A full snapshot, an incremental one in the same second and a full one in the next. -/
def spaced : List (SnapshotCall Rat) :=
  [.create (sampleRequest none) (5 * second) (5 * second) .whole,
    .create { sampleRequest (some []) with parentId := some "docs-5-full" } (5 * second) (5 * second)
      .whole,
    .create (sampleRequest none) (6 * second) (6 * second) .whole, .delete "docs-5-full"]

end Storage
end RTDB
