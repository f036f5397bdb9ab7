import RTDB.Storage.BlockCodec
import RTDB.Storage.TableFile

/-!
# What the builder writes

The entries fall into blocks, each closed when the next entry would make it too
large; the file holds the blocks in a row, and the index says where each begins.
-/

namespace RTDB
namespace Storage

open Bytes

variable {P : Type}

/-! ## Blocks and their index -/

section Spec

variable (codec : Codec P)

/-- The blocks into which entries fall, `current` being the entries of the block
under way and `size` what they take. -/
def splitBlocks (blockSize : Nat) :
    List (VectorId × Vector P) → Nat → List (VectorId × Vector P) →
      List (List (VectorId × Vector P))
  | current, _, [] => if current = [] then [] else [current]
  | current, size, entry :: entries =>
    if size + Block.entrySize codec entry.2 > blockSize ∧ current ≠ [] then
      current :: splitBlocks blockSize [entry] (Block.entrySize codec entry.2) entries
    else
      splitBlocks blockSize (current ++ [entry]) (size + Block.entrySize codec entry.2) entries

theorem splitBlocks_flatten (blockSize : Nat) (current : List (VectorId × Vector P)) (size : Nat)
    (entries : List (VectorId × Vector P)) :
    (splitBlocks codec blockSize current size entries).flatten = current ++ entries := by
  induction entries generalizing current size with
  | nil =>
    rw [splitBlocks]
    split
    · rename_i hempty
      rw [hempty]
      rfl
    · simp
  | cons entry entries ih =>
    rw [splitBlocks]
    split
    · rw [List.flatten_cons, ih]
      simp
    · rw [ih]
      simp

theorem splitBlocks_ne_nil (blockSize : Nat) (current : List (VectorId × Vector P)) (size : Nat)
    (entries : List (VectorId × Vector P)) :
    ∀ es ∈ splitBlocks codec blockSize current size entries, es ≠ [] := by
  induction entries generalizing current size with
  | nil =>
    rw [splitBlocks]
    split
    · simp
    · simpa
  | cons entry entries ih =>
    rw [splitBlocks]
    split
    · rename_i hfull
      exact List.forall_mem_cons.mpr ⟨hfull.2, ih _ _⟩
    · exact ih _ _

def firstId (es : List (VectorId × Vector P)) : VectorId := (es.head?.map Prod.fst).getD 0

def indexOf : Nat → List (List (VectorId × Vector P)) → List IndexEntry
  | _, [] => []
  | offset, es :: blocks =>
    { key := firstId es, offset, size := (blockBytes codec es).length % 2 ^ 32 } ::
      indexOf (offset + (blockBytes codec es).length) blocks

theorem indexOf_concat (offset : Nat) (blocks : List (List (VectorId × Vector P)))
    (es : List (VectorId × Vector P)) :
    indexOf codec offset (blocks ++ [es]) = indexOf codec offset blocks ++
      [{ key := firstId es, offset := offset + (blocks.flatMap (blockBytes codec)).length,
         size := (blockBytes codec es).length % 2 ^ 32 }] := by
  induction blocks generalizing offset with
  | nil => rfl
  | cons es' blocks ih =>
    rw [List.cons_append, indexOf, ih, List.flatMap_cons, List.length_append, Nat.add_assoc]
    rfl

def tableMeta (dimension : Nat) (compression : CompressionType) (blockSize level : Nat)
    (entries : List (VectorId × Vector P)) : SSTableMeta where
  version := sstableVersion
  dimension := dimension
  entryCount := entries.length
  minId := entries.foldl (fun m entry => min m entry.1) (2 ^ 64 - 1)
  maxId := entries.foldl (fun m entry => max m entry.1) 0
  compression := compression
  blockSize := blockSize
  level := level

end Spec

/-! ## The builder -/

namespace SSTableBuilder

variable {codec : Codec P} {b : SSTableBuilder P} {done : List (List (VectorId × Vector P))}
  {current : List (VectorId × Vector P)} {size : Nat}

/-- The builder has written the blocks `done`, and `current` waits in memory. -/
structure Filling (codec : Codec P) (b : SSTableBuilder P)
    (done : List (List (VectorId × Vector P))) (current : List (VectorId × Vector P))
    (size : Nat) : Prop where
  file : b.file = done.flatMap (blockBytes codec)
  index : b.index = indexOf codec 0 done
  position : b.position = b.file.length
  entries : b.block.entries = current
  size : b.block.size = size
  maxSize : b.block.maxSize = b.metadata.blockSize
  firstKey : b.firstKey = current.head?.map Prod.fst

theorem filling_create (codec : Codec P) (dimension : Nat) (compression : CompressionType)
    (blockSize level : Nat) :
    Filling codec (create dimension compression blockSize level : SSTableBuilder P) [] [] 0 :=
  ⟨rfl, rfl, rfl, rfl, rfl, rfl, rfl⟩

theorem flushBlock_empty (hempty : b.block.entries = []) : b.flushBlock codec = b := by
  rw [flushBlock, if_pos hempty]

theorem Filling.flushBlock (hb : Filling codec b done current size) (hcurrent : current ≠ []) :
    Filling codec (b.flushBlock codec) (done ++ [current]) [] 0 ∧
      (b.flushBlock codec).metadata = b.metadata ∧
      (b.flushBlock codec).entryCount = b.entryCount := by
  obtain ⟨kv, rest, rfl⟩ : ∃ kv rest, current = kv :: rest := List.exists_cons_of_ne_nil hcurrent
  have hbytes : b.block.encode codec = blockBytes codec (kv :: rest) := by
    rw [Block.encode, hb.entries]
    rfl
  have hkey : b.firstKey = some kv.1 := hb.firstKey
  rw [SSTableBuilder.flushBlock, if_neg (by rw [hb.entries]; simp)]
  simp only [hkey, hbytes]
  refine ⟨⟨?_, ?_, ?_, rfl, rfl, rfl, rfl⟩, trivial, trivial⟩
  · show b.file ++ _ = _
    rw [hb.file, List.flatMap_append, List.flatMap_singleton]
  · show b.index ++ _ = _
    rw [hb.index, indexOf_concat, ← hb.file, Nat.zero_add, ← hb.position]
    rfl
  · show b.position + _ = (b.file ++ _).length
    rw [hb.position, List.length_append]

/-- Adding to a block that has room. -/
theorem block_add_room {block : Block P} {id : VectorId} {vector : Vector P}
    (hroom : ¬ (block.size + Block.entrySize codec vector > block.maxSize ∧ block.entries ≠ [])) :
    block.add codec id vector =
      some { block with
        entries := block.entries ++ [(id, vector)]
        size := block.size + Block.entrySize codec vector } := by
  rw [Block.add, if_neg hroom]

theorem block_add_full {block : Block P} {id : VectorId} {vector : Vector P}
    (hfull : block.size + Block.entrySize codec vector > block.maxSize ∧ block.entries ≠ []) :
    block.add codec id vector = none := by
  rw [Block.add, if_pos hfull]

def noted (metadata : SSTableMeta) (id : VectorId) : SSTableMeta :=
  { metadata with minId := min metadata.minId id, maxId := max metadata.maxId id }

theorem Filling.add (hb : Filling codec b done current size) (entry : VectorId × Vector P) :
    (if size + Block.entrySize codec entry.2 > b.metadata.blockSize ∧ current ≠ [] then
        Filling codec (b.add codec entry.1 entry.2) (done ++ [current]) [entry]
          (Block.entrySize codec entry.2)
      else
        Filling codec (b.add codec entry.1 entry.2) done (current ++ [entry])
          (size + Block.entrySize codec entry.2)) ∧
      (b.add codec entry.1 entry.2).metadata = noted b.metadata entry.1 ∧
      (b.add codec entry.1 entry.2).entryCount = b.entryCount + 1 := by
  obtain ⟨id, vector⟩ := entry
  rw [SSTableBuilder.add]
  split
  · rename_i hfull
    have hblock : b.block.add codec id vector = none :=
      block_add_full (by rw [hb.size, hb.maxSize, hb.entries]; exact hfull)
    -- The first key of a block under way is set already.
    have hkeyed : Filling codec { b with firstKey := some (b.firstKey.getD id) } done current
        size := by
      refine ⟨hb.file, hb.index, hb.position, hb.entries, hb.size, hb.maxSize, ?_⟩
      obtain ⟨kv, rest, rfl⟩ := List.exists_cons_of_ne_nil hfull.2
      show some (b.firstKey.getD id) = some kv.1
      rw [hb.firstKey]
      rfl
    obtain ⟨hflushed, hmeta, hcount⟩ := hkeyed.flushBlock hfull.2
    simp only [hblock]
    generalize SSTableBuilder.flushBlock codec
      { b with firstKey := some (b.firstKey.getD id) } = t at hflushed hmeta hcount
    have hroom : t.block.add codec id vector =
        some { t.block with
          entries := t.block.entries ++ [(id, vector)]
          size := t.block.size + Block.entrySize codec vector } :=
      block_add_room fun hfull' => hfull'.2 hflushed.entries
    simp only [hroom, Option.getD_some, hmeta, hcount]
    refine ⟨⟨hflushed.file, hflushed.index, hflushed.position, ?_, ?_, ?_, rfl⟩, rfl, trivial⟩
    · rw [hflushed.entries]
      rfl
    · rw [hflushed.size, Nat.zero_add]
    · rw [hflushed.maxSize, hmeta]
  · rename_i hroom
    have hblock : b.block.add codec id vector =
        some { b.block with
          entries := b.block.entries ++ [(id, vector)]
          size := b.block.size + Block.entrySize codec vector } :=
      block_add_room (by rw [hb.size, hb.maxSize, hb.entries]; exact hroom)
    simp only [hblock]
    refine ⟨⟨hb.file, hb.index, hb.position, ?_, ?_, hb.maxSize, ?_⟩, rfl, trivial⟩
    · rw [hb.entries]
    · rw [hb.size]
    · rw [hb.firstKey]
      cases current <;> rfl

/-- What the last flush leaves, after any entries. -/
theorem Filling.foldl (hb : Filling codec b done current size)
    (entries : List (VectorId × Vector P)) :
    (∃ size', Filling codec
        ((entries.foldl (fun b entry => b.add codec entry.1 entry.2) b).flushBlock codec)
        (done ++ splitBlocks codec b.metadata.blockSize current size entries) [] size') ∧
      ((entries.foldl (fun b entry => b.add codec entry.1 entry.2) b).flushBlock codec).metadata =
        { b.metadata with
          minId := entries.foldl (fun m entry => min m entry.1) b.metadata.minId
          maxId := entries.foldl (fun m entry => max m entry.1) b.metadata.maxId } ∧
      ((entries.foldl (fun b entry => b.add codec entry.1 entry.2) b).flushBlock codec).entryCount =
        b.entryCount + entries.length := by
  induction entries generalizing b done current size with
  | nil =>
    rw [List.foldl_nil, splitBlocks]
    by_cases hempty : current = []
    · subst hempty
      rw [flushBlock_empty hb.entries, if_pos rfl, List.append_nil]
      exact ⟨⟨size, hb⟩, rfl, rfl⟩
    · rw [if_neg hempty]
      obtain ⟨hflushed, hmeta, hcount⟩ := hb.flushBlock hempty
      exact ⟨⟨0, hflushed⟩, hmeta, hcount⟩
  | cons entry entries ih =>
    obtain ⟨hadded, hmeta, hcount⟩ := hb.add entry
    rw [List.foldl_cons, splitBlocks]
    split
    · rename_i hfull
      rw [if_pos hfull] at hadded
      have hrest := ih hadded
      rw [hmeta, hcount, List.append_assoc] at hrest
      rw [List.length_cons, Nat.add_comm entries.length, ← Nat.add_assoc]
      exact hrest
    · rename_i hroom
      rw [if_neg hroom] at hadded
      have hrest := ih hadded
      rw [hmeta, hcount] at hrest
      rw [List.length_cons, Nat.add_comm entries.length, ← Nat.add_assoc]
      exact hrest

end SSTableBuilder

theorem finish_tableFile (codec : Codec P) (dimension : Nat) (compression : CompressionType)
    (blockSize level : Nat) (entries : List (VectorId × Vector P)) :
    (entries.foldl (fun b entry => b.add codec entry.1 entry.2)
        (SSTableBuilder.create dimension compression blockSize level)).finish codec =
      tableFile ((splitBlocks codec blockSize [] 0 entries).flatMap (blockBytes codec))
        (encodeIndex (indexOf codec 0 (splitBlocks codec blockSize [] 0 entries)))
        (codec.metaToVec (tableMeta dimension compression blockSize level entries)) := by
  obtain ⟨⟨size, hfilled⟩, hmeta, hcount⟩ :=
    (SSTableBuilder.filling_create codec dimension compression blockSize level).foldl entries
  replace hcount := hcount.trans (Nat.zero_add entries.length)
  rw [SSTableBuilder.finish]
  simp only [hfilled.position, hfilled.file, hfilled.index, hmeta, hcount, List.nil_append]
  rw [tableFile, tableMeta]
  rfl

end Storage
end RTDB
