import Iroh.Blobs.HashSeq

/-! The storage of a blob being downloaded (`store/bao_file.rs`,
`store/mutable_mem_storage.rs`).

A handle writes verified batches of a blob: parents go to the outboard at their
pre-order offset (a function of the size the batch announces, from the
`bao-tree` crate, and a parameter here), leaves to the data at their offset. The
handle starts in memory (`MutableMemStorage`) and moves to three files
(`FileStorage`) when a batch reaches past `max_mem`. In memory the size is the one
announced with the leaf at the highest offset (`SizeInfo`); on file every leaf
writes its size to an 8-byte slot of the sizes file, and the size is the last slot.

A file is its bytes: a write past the end grows it, and the gap reads as zeros.
A `SparseMemFile` is modelled the same way, so persisting it writes its bytes into
the new file (the files are fresh; they are opened without truncation).

The data and the outboard do not depend on when the handle moves to file
(`writeBatches_bytes`). The size does: `SizeInfo::persist`
puts its slot at the offset shifted by the chunk log only, where the file's slots
are shifted by the chunk log and the chunk size, so a persisted size lands past
every slot a later leaf writes and stays the last one. -/

namespace Iroh.Blobs.BaoFile

/-- `write_all_at` on a file. -/
def writeAt (file : List UInt8) (offset : Nat) (bytes : List UInt8) : List UInt8 :=
  let file := file ++ List.replicate (offset - file.length) 0
  file.take offset ++ bytes ++ file.drop (offset + bytes.length)

/-- `u64::to_le_bytes`. -/
def toLeBytes (n : Nat) : List UInt8 := (List.range 8).map fun i => UInt8.ofNat (n / 256 ^ i)

/-- `u64::from_le_bytes`. -/
def fromLeBytes (bytes : List UInt8) : Nat := bytes.foldr (fun b acc => b.toNat + 256 * acc) 0

/-- `IROH_BLOCK_SIZE.chunk_log()`: a block is 16 chunks of 1024 bytes. -/
def chunkLog : Nat := 4

/-- `BaoContentItem`: a parent node with its pair of hashes, or a leaf of data. -/
inductive BaoContentItem (Node : Type) where
  | parent (node : Node) (left right : Hash)
  | leaf (offset : Nat) (data : List UInt8)

/-- `max_offset`: the end of the last leaf of a batch. -/
def maxOffset {Node : Type} (batch : List (BaoContentItem Node)) : Nat :=
  (batch.filterMap fun
    | .leaf offset data => some (offset + data.length)
    | .parent _ _ _ => none).max?.getD 0

/-- `SizeInfo`: the size announced with the leaf at the highest offset. -/
structure SizeInfo where
  offset : Nat
  size : Nat
deriving DecidableEq

namespace SizeInfo

/-- `SizeInfo::default`. -/
def default : SizeInfo := ⟨0, 0⟩

/-- `SizeInfo::write`: a size at an offset at least as high replaces the one kept. -/
def write (s : SizeInfo) (offset size : Nat) : SizeInfo :=
  if offset ≥ s.offset then ⟨offset, size⟩ else s

/-- `SizeInfo::current_size`. -/
def currentSize (s : SizeInfo) : Nat := s.size

/-- `SizeInfo::persist`: the size into its slot of a sizes file. -/
def persist (s : SizeInfo) (target : List UInt8) : List UInt8 :=
  writeAt target ((s.offset >>> chunkLog) <<< 3) (toLeBytes s.size)

end SizeInfo

/-- `FileStorage`: the data, outboard and sizes files. -/
structure FileStorage where
  data : List UInt8
  outboard : List UInt8
  sizes : List UInt8

/-- `MutableMemStorage`. -/
structure MutableMemStorage where
  data : List UInt8
  outboard : List UInt8
  sizes : SizeInfo

/-- `MutableMemStorage::default`. -/
def MutableMemStorage.default : MutableMemStorage := ⟨[], [], .default⟩

section
variable {Node : Type} (preOrderOffset : Nat → Node → Option Nat)

/-- Write a parent's hash pair at its pre-order offset, if the tree of the size has
the node. -/
def writeParent (size : Nat) (outboard : List UInt8) (node : Node) (left right : Hash) : List UInt8 :=
  match preOrderOffset size node with
  | some offset =>
    let o0 := offset * 64
    writeAt (writeAt outboard o0 left.bytes) (o0 + 32) right.bytes
  | none => outboard

namespace MutableMemStorage

/-- One item of `MutableMemStorage::write_batch`. -/
def writeItem (size : Nat) (m : MutableMemStorage) : BaoContentItem Node → MutableMemStorage
  | .parent node left right => { m with outboard := writeParent preOrderOffset size m.outboard node left right }
  | .leaf offset data => { m with sizes := m.sizes.write offset size, data := writeAt m.data offset data }

/-- `MutableMemStorage::write_batch`. -/
def writeBatch (m : MutableMemStorage) (size : Nat) (batch : List (BaoContentItem Node)) : MutableMemStorage :=
  batch.foldl (writeItem preOrderOffset size) m

/-- `MutableMemStorage::current_size`. -/
def currentSize (m : MutableMemStorage) : Nat := m.sizes.currentSize

/-- `MutableMemStorage::persist`: the three files, from the storage. -/
def persist (m : MutableMemStorage) : FileStorage := ⟨m.data, m.outboard, m.sizes.persist []⟩

end MutableMemStorage

namespace FileStorage

/-- `FileStorage::current_size`: the last slot of the sizes file. -/
def currentSize (f : FileStorage) : Nat :=
  if f.sizes.length < 8 then 0 else fromLeBytes (f.sizes.drop (f.sizes.length - 8))

/-- One item of `FileStorage::write_batch`: a leaf writes its size to the slot of
its chunk group. -/
def writeItem (size : Nat) (f : FileStorage) : BaoContentItem Node → FileStorage
  | .parent node left right => { f with outboard := writeParent preOrderOffset size f.outboard node left right }
  | .leaf offset data =>
    let index := (offset >>> (chunkLog + 10)) <<< 3
    { f with data := writeAt f.data offset data, sizes := writeAt f.sizes index (toLeBytes size) }

/-- `FileStorage::write_batch`. -/
def writeBatch (f : FileStorage) (size : Nat) (batch : List (BaoContentItem Node)) : FileStorage :=
  batch.foldl (writeItem preOrderOffset size) f

end FileStorage

/-- `BaoFileStorage`, with the data and outboard of a complete entry. -/
inductive BaoFileStorage where
  | incompleteMem (mem : MutableMemStorage)
  | incompleteFile (file : FileStorage)
  | complete (data outboard : List UInt8)

/-- `HandleChange`: whether a batch moved the handle to file. -/
inductive HandleChange where
  | none
  | memToFile
deriving DecidableEq

namespace BaoFileStorage

/-- `BaoFileHandle::write_batch`: in memory while the batch stays within `max_mem`;
otherwise the memory is persisted first, then the batch goes to the files. A
complete handle ignores the batch. -/
def writeBatch (maxMem : Nat) (storage : BaoFileStorage) (size : Nat) (batch : List (BaoContentItem Node)) :
    BaoFileStorage × HandleChange :=
  match storage with
  | .incompleteMem mem =>
    if maxOffset batch ≤ maxMem then (.incompleteMem (mem.writeBatch preOrderOffset size batch), .none)
    else (.incompleteFile (mem.persist.writeBatch preOrderOffset size batch), .memToFile)
  | .incompleteFile file => (.incompleteFile (file.writeBatch preOrderOffset size batch), .none)
  | .complete data outboard => (.complete data outboard, .none)

/-- `BaoFileHandle::current_size`. -/
def currentSize : BaoFileStorage → Nat
  | .complete data _ => data.length
  | .incompleteMem mem => mem.currentSize
  | .incompleteFile file => file.currentSize

/-- The data bytes of the handle. -/
def data : BaoFileStorage → List UInt8
  | .complete data _ => data
  | .incompleteMem mem => mem.data
  | .incompleteFile file => file.data

/-- The outboard bytes of the handle. -/
def outboard : BaoFileStorage → List UInt8
  | .complete _ outboard => outboard
  | .incompleteMem mem => mem.outboard
  | .incompleteFile file => file.outboard

end BaoFileStorage

/-- The handle after a sequence of batches, each with the size it announces. -/
def writeBatches (maxMem : Nat) (storage : BaoFileStorage) : List (Nat × List (BaoContentItem Node)) →
    BaoFileStorage
  | [] => storage
  | (size, batch) :: batches => writeBatches maxMem (storage.writeBatch preOrderOffset maxMem size batch).1 batches

/-- The same batches applied to memory alone. -/
def memWriteBatches (m : MutableMemStorage) : List (Nat × List (BaoContentItem Node)) → MutableMemStorage
  | [] => m
  | (size, batch) :: batches => memWriteBatches (m.writeBatch preOrderOffset size batch) batches

/-! ### The data and the outboard agree with memory alone -/

/-- A handle holds the bytes memory alone holds. -/
def Agrees (storage : BaoFileStorage) (m : MutableMemStorage) : Prop :=
  (∃ mem, storage = .incompleteMem mem ∧ mem.data = m.data ∧ mem.outboard = m.outboard) ∨
    ∃ file, storage = .incompleteFile file ∧ file.data = m.data ∧ file.outboard = m.outboard

theorem FileStorage.writeItem_bytes {f : FileStorage} {m : MutableMemStorage} (size : Nat)
    (item : BaoContentItem Node) (hd : f.data = m.data) (ho : f.outboard = m.outboard) :
    (f.writeItem preOrderOffset size item).data = (m.writeItem preOrderOffset size item).data ∧
      (f.writeItem preOrderOffset size item).outboard = (m.writeItem preOrderOffset size item).outboard := by
  cases item with
  | parent node left right => exact ⟨hd, by simp only [FileStorage.writeItem, MutableMemStorage.writeItem, ho]⟩
  | leaf offset data => exact ⟨by simp only [FileStorage.writeItem, MutableMemStorage.writeItem, hd], ho⟩

/-- The files take a batch's bytes as memory does. -/
theorem FileStorage.writeBatch_bytes {f : FileStorage} {m : MutableMemStorage} (size : Nat)
    (batch : List (BaoContentItem Node)) (hd : f.data = m.data) (ho : f.outboard = m.outboard) :
    (f.writeBatch preOrderOffset size batch).data = (m.writeBatch preOrderOffset size batch).data ∧
      (f.writeBatch preOrderOffset size batch).outboard = (m.writeBatch preOrderOffset size batch).outboard := by
  induction batch generalizing f m with
  | nil => exact ⟨hd, ho⟩
  | cons item batch ih =>
    obtain ⟨hd', ho'⟩ := FileStorage.writeItem_bytes preOrderOffset size item hd ho
    exact ih hd' ho'

/-- A batch keeps the handle in agreement with memory, whether or not it moves the
handle to file. -/
theorem Agrees.writeBatch {storage : BaoFileStorage} {m : MutableMemStorage} (maxMem size : Nat)
    (batch : List (BaoContentItem Node)) (h : Agrees storage m) :
    Agrees (storage.writeBatch preOrderOffset maxMem size batch).1 (m.writeBatch preOrderOffset size batch) := by
  rcases h with ⟨mem, rfl, hd, ho⟩ | ⟨file, rfl, hd, ho⟩
  · simp only [BaoFileStorage.writeBatch]
    split
    · -- in memory: both memories take the batch as files holding their bytes would
      let f : FileStorage := ⟨mem.data, mem.outboard, []⟩
      obtain ⟨hd₁, ho₁⟩ := FileStorage.writeBatch_bytes preOrderOffset size batch
        (f := f) (m := mem) rfl rfl
      obtain ⟨hd₂, ho₂⟩ := FileStorage.writeBatch_bytes preOrderOffset size batch
        (f := f) (m := m) hd ho
      exact .inl ⟨_, rfl, hd₁.symm.trans hd₂, ho₁.symm.trans ho₂⟩
    · -- the persisted files hold the memory's bytes
      obtain ⟨hd', ho'⟩ := FileStorage.writeBatch_bytes preOrderOffset size batch
        (f := mem.persist) (show mem.data = m.data from hd) (show mem.outboard = m.outboard from ho)
      exact .inr ⟨_, rfl, hd', ho'⟩
  · obtain ⟨hd', ho'⟩ := FileStorage.writeBatch_bytes preOrderOffset size batch hd ho
    exact .inr ⟨_, rfl, hd', ho'⟩

theorem Agrees.writeBatches {storage : BaoFileStorage} {m : MutableMemStorage} (maxMem : Nat)
    (batches : List (Nat × List (BaoContentItem Node))) (h : Agrees storage m) :
    Agrees (writeBatches preOrderOffset maxMem storage batches) (memWriteBatches preOrderOffset m batches) := by
  induction batches generalizing storage m with
  | nil => exact h
  | cons sb batches ih => exact ih (h.writeBatch preOrderOffset maxMem sb.1 sb.2)

theorem Agrees.data {storage : BaoFileStorage} {m : MutableMemStorage} (h : Agrees storage m) :
    storage.data = m.data := by
  rcases h with ⟨mem, rfl, hd, -⟩ | ⟨file, rfl, hd, -⟩ <;> exact hd

theorem Agrees.outboard {storage : BaoFileStorage} {m : MutableMemStorage} (h : Agrees storage m) :
    storage.outboard = m.outboard := by
  rcases h with ⟨mem, rfl, -, ho⟩ | ⟨file, rfl, -, ho⟩ <;> exact ho

/-- **The data and the outboard of a handle do not depend on its memory bound.** After
any batches, the handle holds the data and outboard bytes memory alone would hold. -/
theorem writeBatches_bytes (maxMem : Nat) (batches : List (Nat × List (BaoContentItem Node))) :
    (writeBatches preOrderOffset maxMem (.incompleteMem .default) batches).data =
        (memWriteBatches preOrderOffset .default batches).data ∧
      (writeBatches preOrderOffset maxMem (.incompleteMem .default) batches).outboard =
        (memWriteBatches preOrderOffset .default batches).outboard := by
  have h : Agrees (writeBatches preOrderOffset maxMem (.incompleteMem .default) batches)
      (memWriteBatches preOrderOffset .default batches) :=
    Agrees.writeBatches preOrderOffset maxMem batches (.inl ⟨_, rfl, rfl, rfl⟩)
  exact ⟨h.data, h.outboard⟩

end

/-- A leaf of 16 KiB at offset 16384, announcing 40000 bytes, stays in memory under
a bound of 32768; the next leaf, at 32768 and announcing 50000 bytes, moves the
handle to file. Memory alone takes 50000, the size at the highest offset; the
handle reports 40000, from the slot the persisted size was written to. -/
theorem persisted_size_shadows_later_leaf :
    let batches : List (Nat × List (BaoContentItem Unit)) :=
      [(40000, [.leaf 16384 (List.replicate 16384 1)]), (50000, [.leaf 32768 (List.replicate 16384 2)])]
    (writeBatches (fun _ _ => none) 32768 (.incompleteMem .default) batches).currentSize = 40000 ∧
      (memWriteBatches (fun _ _ => none) .default batches).currentSize = 50000 := by
  intro batches
  exact ⟨by decide +kernel, by decide +kernel⟩

end Iroh.Blobs.BaoFile
