import RTDB.Lib.History
import RTDB.Storage.Engine
import RTDB.Storage.WalRoundTrip

/-!
# Replay of the log

`recover` feeds the records of the log to a fresh memtable.  It gets through
exactly when the records parse and none of them puts a vector under an id that
an earlier one deleted; the memtable then holds the last record of each id.
-/

namespace RTDB
namespace Storage

open History

variable {P : Type}

def Record.change (r : Record P) : VectorId × Option (Vector P) := (r.id, r.outcome)

def MemTableEntry.ofOutcome : Option (Vector P) → MemTableEntry P
  | some vector => .put vector
  | none => .delete

/-- The memtable holds the last write of each id. -/
def Latest (m : MemTable P) (h : List (VectorId × Option (Vector P))) : Prop :=
  ∀ id, m.get id = (latest h id).map MemTableEntry.ofOutcome

theorem latest_new (sizeThreshold : Nat) : Latest (MemTable.new sizeThreshold : MemTable P) [] :=
  fun id => MemTable.get_new sizeThreshold id

theorem Latest.delete {m : MemTable P} {h : List (VectorId × Option (Vector P))}
    (hm : Latest m h) (codec : Codec P) (id : VectorId) :
    Latest (m.delete codec id) (h ++ [(id, none)]) := by
  intro id'
  rw [MemTable.get_delete, latest_concat]
  split
  · rfl
  · exact hm id'

/-- A put of an id that was deleted is refused. -/
theorem Latest.put_refused {m : MemTable P} {h : List (VectorId × Option (Vector P))}
    (hm : Latest m h) (hh : Steady h) {id : VectorId} (hmem : (id, none) ∈ h) (codec : Codec P)
    (vector : Vector P) : ∃ m' e, m.put codec id vector = (m', .error e) := by
  have hget : m.get id = some .delete := by
    rw [hm id, hh.latest_of_mem hmem]
    rfl
  exact ⟨_, _, MemTable.put_refused codec vector hget⟩

theorem Latest.put_accepted {m : MemTable P} {h : List (VectorId × Option (Vector P))}
    (hm : Latest m h) {id : VectorId} (hmem : (id, none) ∉ h) (codec : Codec P)
    (vector : Vector P) :
    ∃ m', m.put codec id vector = (m', .ok ()) ∧ Latest m' (h ++ [(id, some vector)]) := by
  have hget : m.get id ≠ some .delete := by
    rw [hm id]
    rcases hlast : latest h id with _ | _ | v
    · simp
    · exact absurd (mem_of_latest hlast) hmem
    · simp [MemTableEntry.ofOutcome]
  obtain ⟨m', hput, hget'⟩ := MemTable.put_accepted codec vector hget
  refine ⟨m', hput, fun id' => ?_⟩
  rw [hget', latest_concat]
  split
  · rfl
  · exact hm id'

/-- What every successful replay has read. -/
theorem recoverEntries_parses {codec : Codec P} (entries : List WALEntry) {m m' : MemTable P}
    (hrec : recoverEntries codec m entries = .ok m') :
    ∃ records,
      List.Forall₂ (fun entry r => codec.fromSlice entry.data = .ok r) entries records := by
  induction entries generalizing m with
  | nil => exact ⟨[], .nil⟩
  | cons entry entries ih =>
    rw [recoverEntries] at hrec
    rcases hparse : codec.fromSlice entry.data with e | r
    · rw [hparse] at hrec
      exact absurd hrec (by simp)
    · rw [hparse] at hrec
      cases r with
      | put id vector timestamp =>
        rcases hput : m.put codec id vector with ⟨m₁, e | u⟩
        · simp only [hput] at hrec
          exact absurd hrec (by simp)
        · simp only [hput] at hrec
          obtain ⟨records, hall⟩ := ih hrec
          exact ⟨_, .cons hparse hall⟩
      | delete id timestamp =>
        obtain ⟨records, hall⟩ := ih hrec
        exact ⟨_, .cons hparse hall⟩

/-- Replay of entries that parse: it succeeds on a steady history only, -/
theorem recoverEntries_steady {codec : Codec P} {entries : List WALEntry}
    {records : List (Record P)}
    (hparse : List.Forall₂ (fun entry r => codec.fromSlice entry.data = .ok r) entries records)
    {m m' : MemTable P} {h : List (VectorId × Option (Vector P))} (hm : Latest m h) (hh : Steady h)
    (hrec : recoverEntries codec m entries = .ok m') : Steady (h ++ records.map Record.change) := by
  induction hparse generalizing m h with
  | nil =>
    rw [List.map_nil, List.append_nil]
    exact hh
  | @cons entry r entries records hr hall ih =>
    simp only [recoverEntries, hr] at hrec
    rw [List.map_cons, List.append_cons]
    cases r with
    | delete id timestamp => exact ih (hm.delete codec id) (steady_delete hh) hrec
    | put id vector timestamp =>
      by_cases hmem : (id, none) ∈ h
      · obtain ⟨m₁, e, hput⟩ := hm.put_refused hh hmem codec vector
        simp only [hput] at hrec
        exact absurd hrec (by simp)
      · obtain ⟨m₁, hput, hm₁⟩ := hm.put_accepted hmem codec vector
        simp only [hput] at hrec
        exact ih hm₁ (steady_concat.mpr ⟨hh, fun _ => hmem⟩) hrec

theorem recoverEntries_latest {codec : Codec P} {entries : List WALEntry}
    {records : List (Record P)}
    (hparse : List.Forall₂ (fun entry r => codec.fromSlice entry.data = .ok r) entries records)
    {m : MemTable P} {h : List (VectorId × Option (Vector P))} (hm : Latest m h)
    (hsteady : Steady (h ++ records.map Record.change)) :
    ∃ m', recoverEntries codec m entries = .ok m' ∧
      Latest m' (h ++ records.map Record.change) := by
  induction hparse generalizing m h with
  | nil =>
    rw [List.map_nil, List.append_nil]
    exact ⟨m, rfl, hm⟩
  | @cons entry r entries records hr hall ih =>
    simp only [recoverEntries, hr]
    rw [List.map_cons, List.append_cons] at hsteady ⊢
    cases r with
    | delete id timestamp => exact ih (hm.delete codec id) hsteady
    | put id vector timestamp =>
      have hfront : Steady (h ++ [(id, some vector)]) := (List.pairwise_append.mp hsteady).1
      have hmem := (steady_concat.mp hfront).2 (Option.some_ne_none vector)
      obtain ⟨m₁, hput, hm₁⟩ := hm.put_accepted hmem codec vector
      simp only [hput]
      exact ih hm₁ hsteady

/-! ## Recovery from a log -/

theorem forall₂_exists {α β : Type*} {R : α → β → Prop} {l : List α} {l' : List β}
    (hall : List.Forall₂ R l l') {a : α} (ha : a ∈ l) : ∃ b ∈ l', R a b := by
  induction hall with
  | nil => exact absurd ha List.not_mem_nil
  | @cons x y l l' hxy hall ih =>
    rcases List.mem_cons.mp ha with rfl | ha
    · exact ⟨y, List.mem_cons_self, hxy⟩
    · obtain ⟨b, hb, hab⟩ := ih ha
      exact ⟨b, List.mem_cons_of_mem y hb, hab⟩

structure Logged (codec : Codec P) (crc : List UInt8 → UInt32) (wal : WAL)
    (logged : List (Record P × List UInt8)) : Prop where
  holds : Holds crc wal (logged.map Prod.snd)
  sizes : ∀ l ∈ logged, l.2.length ≤ maxRecordSize
  texts : ∀ l ∈ logged, codec.toVec l.1 = .ok l.2

/-- The texts are short enough for the log's frames, and parse. -/
structure ReadBack (codec : Codec P) (logged : List (Record P × List UInt8))
    (records : List (Record P)) : Prop where
  small : ∀ l ∈ logged, l.2.length < 2 ^ 24
  parses : List.Forall₂ (fun l r => codec.fromSlice l.2 = .ok r) logged records

def history (logged : List (Record P × List UInt8)) : List (VectorId × Option (Vector P)) :=
  logged.map fun l => l.1.change

theorem Logged.openAt {codec : Codec P} {crc : List UInt8 → UInt32} {wal : WAL}
    {logged : List (Record P × List UInt8)} (hlog : Logged codec crc wal logged)
    (maxFileSize : Nat) : Logged codec crc (WAL.openAt wal.dir maxFileSize) logged :=
  ⟨openAt_holds hlog.holds maxFileSize, hlog.sizes, hlog.texts⟩

/-- Records parsed back write under the same ids, a vector for a vector and a
deletion for a deletion. -/
theorem ReadBack.shape_eq {codec : Codec P} (hcodec : codec.Lawful) {crc : List UInt8 → UInt32}
    {wal : WAL} {logged : List (Record P × List UInt8)} {records : List (Record P)}
    (hlog : Logged codec crc wal logged) (hread : ReadBack codec logged records) :
    (history logged).map shape = (records.map Record.change).map shape := by
  have hparses := hread.parses
  have htexts := hlog.texts
  rw [history, List.map_map, List.map_map]
  clear hlog hread
  induction hparses with
  | nil => rfl
  | @cons l r logged records hr hall ih =>
    have htext := htexts l List.mem_cons_self
    have hshape : shape l.1.change = shape r.change :=
      Prod.ext (hcodec.id_eq l.1 l.2 r htext hr).symm (hcodec.kind_eq l.1 l.2 r htext hr).symm
    rw [List.map_cons, List.map_cons, ih fun l' hl' => htexts l' (List.mem_cons_of_mem l hl')]
    exact congrArg (· :: _) hshape

theorem ReadBack.entries {codec : Codec P} {logged : List (Record P × List UInt8)}
    {records : List (Record P)} (hread : ReadBack codec logged records) :
    List.Forall₂ (fun entry r => codec.fromSlice entry.data = .ok r)
      ((logged.map Prod.snd).map WALEntry.mk) records := by
  rw [List.map_map, List.forall₂_map_left_iff]
  exact hread.parses

theorem ReadBack.recover_eq {codec : Codec P} {crc : List UInt8 → UInt32} {wal : WAL}
    {logged : List (Record P × List UInt8)} {records : List (Record P)}
    (hlog : Logged codec crc wal logged) (hread : ReadBack codec logged records) (m : MemTable P) :
    recover codec crc wal m = recoverEntries codec m ((logged.map Prod.snd).map WALEntry.mk) := by
  have hsmall : ∀ d ∈ logged.map Prod.snd, d.length < 2 ^ 24 :=
    List.forall_mem_map.mpr hread.small
  rw [recover, readEntries_small hlog.holds hsmall]

/-- A recovery that succeeds has read every record back: one that fills the size
limit would come back as an empty text. -/
theorem recover_readBack {codec : Codec P} (hcodec : codec.Lawful) {crc : List UInt8 → UInt32}
    {wal : WAL} {logged : List (Record P × List UInt8)} (hlog : Logged codec crc wal logged)
    {m m' : MemTable P} (hrec : recover codec crc wal m = .ok m') :
    ∃ records, ReadBack codec logged records := by
  rw [recover] at hrec
  rcases hentries : wal.readEntries crc with e | entries
  · rw [hentries] at hrec
    exact absurd hrec (by simp)
  · rw [hentries] at hrec
    obtain ⟨records, hparse⟩ := recoverEntries_parses entries hrec
    by_cases hsmall : ∀ d ∈ logged.map Prod.snd, d.length < 2 ^ 24
    · have hall := readEntries_small hlog.holds hsmall
      rw [hentries] at hall
      obtain rfl := Except.ok.inj hall
      rw [List.map_map, List.forall₂_map_left_iff] at hparse
      exact ⟨records, List.forall_mem_map.mp hsmall, hparse⟩
    · have hsizes : ∀ d ∈ logged.map Prod.snd, d.length ≤ maxRecordSize :=
        List.forall_mem_map.mpr hlog.sizes
      obtain ⟨before, big, after, hsplit, hbefore, hbig⟩ := exists_first_big hsizes hsmall
      have hholds := hlog.holds
      rw [hsplit] at hholds
      obtain ⟨tail, htail⟩ := readEntries_big hholds hbefore hbig hentries
      have hempty : WALEntry.mk [] ∈ entries := by
        rw [← htail]
        simp
      obtain ⟨r, -, hr⟩ := forall₂_exists hparse hempty
      exact absurd hr (hcodec.empty r)

/-- A recovered memtable holds what was read back. -/
theorem recover_latest {codec : Codec P} {crc : List UInt8 → UInt32} {wal : WAL}
    {logged : List (Record P × List UInt8)} (hlog : Logged codec crc wal logged)
    {records : List (Record P)} (hread : ReadBack codec logged records) {sizeThreshold : Nat}
    {m : MemTable P} (hrec : recover codec crc wal (MemTable.new sizeThreshold) = .ok m) :
    Steady (records.map Record.change) ∧ Latest m (records.map Record.change) := by
  rw [hread.recover_eq hlog] at hrec
  have hsteady := recoverEntries_steady hread.entries (latest_new sizeThreshold) steady_nil hrec
  rw [List.nil_append] at hsteady
  obtain ⟨m', hrec', hlatest⟩ := recoverEntries_latest hread.entries (latest_new sizeThreshold)
    (h := []) hsteady
  rw [hrec] at hrec'
  rw [Except.ok.inj hrec']
  exact ⟨hsteady, hlatest⟩

/-- When a log can be recovered. -/
theorem recover_ok_iff {codec : Codec P} (hcodec : codec.Lawful) {crc : List UInt8 → UInt32}
    {wal : WAL} {logged : List (Record P × List UInt8)} (hlog : Logged codec crc wal logged)
    (sizeThreshold : Nat) :
    (∃ m, recover codec crc wal (MemTable.new sizeThreshold) = .ok m) ↔
      (∃ records, ReadBack codec logged records) ∧ Steady (history logged) := by
  constructor
  · rintro ⟨m, hrec⟩
    obtain ⟨records, hread⟩ := recover_readBack hcodec hlog hrec
    have hsteady := (recover_latest hlog hread hrec).1
    exact ⟨⟨records, hread⟩, hsteady.of_shape (hread.shape_eq hcodec hlog).symm⟩
  · rintro ⟨⟨records, hread⟩, hsteady⟩
    have hback := hsteady.of_shape (hread.shape_eq hcodec hlog)
    obtain ⟨m, hrec, -⟩ := recoverEntries_latest hread.entries (latest_new sizeThreshold)
      (h := []) hback
    exact ⟨m, (hread.recover_eq hlog _).trans hrec⟩

end Storage
end RTDB
