import RTDB.Raft.LogCompaction

/-!
# Installing a snapshot

`MemStorage::apply_snapshot` and `handle_install_snapshot` take term, commit index and log from the
snapshot.  Neither compares it with what the node has got to since.
-/

namespace RTDB
namespace Raft

/-- The term and the commit index do not go back. -/
structure HardState.Forward (before after : HardState) : Prop where
  term : before.term ≤ after.term
  commitIndex : before.commitIndex ≤ after.commitIndex

/-- A snapshot accepted by the storage leaves its term and its index. -/
theorem MemStorageCore.applySnapshot_hardState {core core' : MemStorageCore} {snapshot : Snapshot}
    (hok : core.applySnapshot snapshot = .ok core') :
    core'.hardState.term = snapshot.metadata.term ∧
      core'.hardState.commitIndex = snapshot.metadata.index := by
  rw [applySnapshot] at hok
  split at hok
  · exact absurd hok (by simp)
  · rw [← Outcome.ok.inj hok]
    exact ⟨rfl, rfl⟩

namespace RaftNode

/-- The log has an entry at the index of the snapshot, of its term. -/
def Holds (n : RaftNode) (snapshot : Snapshot) : Prop :=
  snapshot.metadata.index ≤ n.lastIndex ∧ n.logTerm snapshot.metadata.index = snapshot.metadata.term

instance (n : RaftNode) (snapshot : Snapshot) : Decidable (n.Holds snapshot) :=
  inferInstanceAs (Decidable (_ ∧ _))

/-- Commit index and last applied index do not go back, and a log that matches the snapshot keeps what
it has behind it. -/
structure Keeps (n : RaftNode) (snapshot : Option Snapshot) (n' : RaftNode) : Prop where
  commitIndex : n.commitIndex ≤ n'.commitIndex
  lastApplied : n.lastApplied ≤ n'.lastApplied
  log : ∀ s ∈ snapshot, n.Holds s → ∀ entry ∈ n.log.drop s.metadata.index, entry ∈ n'.log

/-- The snapshot is at least as far as the node has committed and applied, and no entry stands behind
it in a log that matches it. -/
structure UpToDate (n : RaftNode) (snapshot : Snapshot) : Prop where
  commitIndex : n.commitIndex ≤ snapshot.metadata.index
  lastApplied : n.lastApplied ≤ snapshot.metadata.index
  log : n.Holds snapshot → n.lastIndex ≤ snapshot.metadata.index

/-- What a message installs: its snapshot, if it is not of an earlier term. -/
def installed (n : RaftNode) (msg : Message) : Option Snapshot :=
  if msg.term < n.term then none else msg.snapshot

theorem handleInstallSnapshot_spec (env : Env) (n : RaftNode) (msg : Message) :
    let n' := (n.handleInstallSnapshot env msg).node
    match n.installed msg with
    | none => n'.commitIndex = n.commitIndex ∧ n'.lastApplied = n.lastApplied ∧ n'.log = n.log
    | some snapshot =>
      n'.commitIndex = snapshot.metadata.index ∧ n'.lastApplied = snapshot.metadata.index ∧
        n'.log = [] := by
  intro n'
  by_cases hold : msg.term < n.term
  · have hsame : n' = n := congrArg Output.node (if_pos hold)
    rw [installed, if_pos hold, hsame]
    exact ⟨rfl, rfl, rfl⟩
  · rw [installed, if_neg hold]
    have hnode : n' = (n.handleInstallSnapshot env msg).node := rfl
    rw [handleInstallSnapshot, if_neg hold] at hnode
    cases hsnapshot : msg.snapshot with
    | none =>
      rw [hsnapshot] at hnode
      rw [hnode]
      exact ⟨rfl, rfl, rfl⟩
    | some snapshot =>
      rw [hsnapshot] at hnode
      rw [hnode]
      exact ⟨rfl, rfl, rfl⟩

theorem handleInstallSnapshot_keeps_iff (env : Env) (n : RaftNode) (msg : Message) :
    n.Keeps msg.snapshot (n.handleInstallSnapshot env msg).node ↔
      ∀ snapshot ∈ n.installed msg, n.UpToDate snapshot := by
  have hspec := handleInstallSnapshot_spec env n msg
  dsimp only at hspec
  generalize (n.handleInstallSnapshot env msg).node = n' at hspec ⊢
  cases hinstalled : n.installed msg with
  | none =>
    rw [hinstalled] at hspec
    obtain ⟨hcommit, happlied, hlog⟩ := hspec
    refine iff_of_true ⟨hcommit.ge, happlied.ge, fun s _ _ entry hentry => ?_⟩ (by simp)
    rw [hlog]
    exact List.mem_of_mem_drop hentry
  | some snapshot =>
    rw [hinstalled] at hspec
    obtain ⟨hcommit, happlied, hlog⟩ := hspec
    have hsnapshot : msg.snapshot = some snapshot := by
      rw [installed] at hinstalled
      split at hinstalled
      · exact absurd hinstalled (by simp)
      · exact hinstalled
    constructor
    · intro hkeeps s hs
      obtain rfl := Option.some.inj hs
      refine ⟨hcommit ▸ hkeeps.commitIndex, happlied ▸ hkeeps.lastApplied, fun hholds => ?_⟩
      have hnone : n.log.drop snapshot.metadata.index = [] := by
        rw [List.eq_nil_iff_forall_not_mem]
        intro entry hentry
        have hkept := hkeeps.log snapshot hsnapshot hholds entry hentry
        rw [hlog] at hkept
        exact List.not_mem_nil hkept
      exact List.drop_eq_nil_iff.mp hnone
    · intro hall
      obtain ⟨hc, ha, hl⟩ := hall snapshot rfl
      refine ⟨hcommit ▸ hc, happlied ▸ ha, fun s hs hholds entry hentry => ?_⟩
      obtain rfl := Option.some.inj (hsnapshot.symm.trans hs)
      rw [List.drop_eq_nil_of_le (hl hholds)] at hentry
      exact absurd hentry List.not_mem_nil

end RaftNode

/-- A snapshot that the storage accepts takes its state back unless the snapshot is of the stored term
and up to the stored commit index or later; one that a node gets takes it back unless it is of an
earlier term or the node has got no further. -/
theorem snapshots_forward_iff (core : MemStorageCore) (snapshot : Snapshot) (env : Env)
    (n : RaftNode) (msg : Message) :
    (∀ core', core.applySnapshot snapshot = .ok core' →
      (HardState.Forward core.hardState core'.hardState ↔
        core.hardState.term ≤ snapshot.metadata.term ∧
          core.hardState.commitIndex ≤ snapshot.metadata.index)) ∧
      (n.Keeps msg.snapshot (n.handleInstallSnapshot env msg).node ↔
        ∀ snapshot ∈ n.installed msg, n.UpToDate snapshot) := by
  refine ⟨fun core' hok => ?_, RaftNode.handleInstallSnapshot_keeps_iff env n msg⟩
  obtain ⟨hterm, hcommit⟩ := MemStorageCore.applySnapshot_hardState hok
  rw [← hterm, ← hcommit]
  exact ⟨fun h => ⟨h.term, h.commitIndex⟩, fun h => ⟨h.1, h.2⟩⟩

/-- A storage in a term, with its first entries committed. -/
def storedAt (term commitIndex : Nat) : MemStorageCore :=
  MemStorageCore.new.setHardState { term, votedFor := 0, commitIndex }

def snapshotAt (index term : Nat) : Snapshot :=
  { metadata := { index, term, confState := ConfState.new [1] }, data := [] }

/-- A node in its first term, with two entries of that term committed and applied. -/
def twoApplied : RaftNode :=
  { RaftNode.newWithConf { now := 0, jitter := 0 } { id := 1 } [1, 2, 3] with
    term := 1, log := [LogEntry.new 1 1 [], LogEntry.new 2 1 [7]], commitIndex := 2, lastApplied := 2 }

def installAt (index : Nat) : Message :=
  { msgType := .installSnapshot, from_ := 2, to_ := 1, term := 1
    snapshot := some (snapshotAt index 1) }

theorem snapshots_forward_storedAt :
    (∃ core', (storedAt 1 2).applySnapshot (snapshotAt 3 1) = .ok core' ∧
        HardState.Forward (storedAt 1 2).hardState core'.hardState) ∧
      twoApplied.Keeps (installAt 2).snapshot
        (twoApplied.handleInstallSnapshot { now := 0, jitter := 0 } (installAt 2)).node := by
  obtain ⟨hstorage, hnode⟩ := snapshots_forward_iff (storedAt 1 2) (snapshotAt 3 1)
    { now := 0, jitter := 0 } twoApplied (installAt 2)
  refine ⟨⟨_, rfl, (hstorage _ rfl).mpr (by decide)⟩, hnode.mpr fun snapshot hsnapshot => ?_⟩
  obtain rfl := Option.some.inj hsnapshot
  exact ⟨by decide, by decide, by decide⟩

/-- A snapshot of an earlier term takes the stored term back, and one that comes late the commit index
of the node. -/
theorem not_snapshots_forward_storedAt :
    (∃ core', (storedAt 5 10).applySnapshot (snapshotAt 3 1) = .ok core' ∧
        ¬HardState.Forward (storedAt 5 10).hardState core'.hardState) ∧
      ¬twoApplied.Keeps (installAt 1).snapshot
        (twoApplied.handleInstallSnapshot { now := 0, jitter := 0 } (installAt 1)).node :=
  ⟨⟨_, rfl, fun hforward => absurd hforward.term (by decide)⟩,
    fun hkeeps => absurd hkeeps.commitIndex (by decide)⟩

end Raft
end RTDB
