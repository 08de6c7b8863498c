import BadLands.Core.ByteMemory
import BadLands.Core.Word
import BadLands.Crypto.Crc

/-!
# GPT partition tables

What `Device::AddDevice` does with the second sector of a disk: `GPT::IsValid` checks the header
and the array of partition entries, `GPTPartitionFetcher` reads the entries one after another
through a cache of whole blocks.

A header is the sector it lies in. A medium answers each request, the `t`-th one for itself: two
reads of a block may differ. What a read leaves behind the blocks it was asked for is whatever is
in memory there. `Disk` is a medium that answers from fixed contents.
-/
namespace BadLands.Devices.Gpt

open BadLands.Core

/-- `readBlocks t startBlock blocksCount`: the buffer after the `t`-th request, if it succeeds.
mirrors kernel/include/devices/Block/Interface.hpp:23-31 -/
structure Medium where
  getBlocksCount : Nat
  getBlockSize : Nat
  readBlocks : Nat → Nat → Nat → Option ByteMemory

/-- The header, as the bytes of its sector.
mirrors kernel/src/devices/Block/Device.cpp:131-147 -/
structure GPT where
  sector : ByteMemory

namespace GPT

def signature (g : GPT) : Nat := g.sector.read 0 8
def headerSize (g : GPT) : Nat := g.sector.read 12 4
def headerCrc32 (g : GPT) : Nat := g.sector.read 16 4
def myLba (g : GPT) : Nat := g.sector.read 24 8
def firstUsableLba (g : GPT) : Nat := g.sector.read 40 8
def lastUsableLba (g : GPT) : Nat := g.sector.read 48 8
def partitionEntriesLba (g : GPT) : Nat := g.sector.read 72 8
def partitionEntryCount (g : GPT) : Nat := g.sector.read 80 4
def partitionEntrySize (g : GPT) : Nat := g.sector.read 84 4
def partitionEntriesCrc32 (g : GPT) : Nat := g.sector.read 88 4

def batchSize : Nat := 32

def batchArraySize (g : GPT) : Nat := Word.mul batchSize g.partitionEntrySize

/-- `(size + block_size - 1) / block_size`. -/
def blocksFor (size blockSize : Nat) : Nat := Word.sub (Word.add size blockSize) 1 / blockSize

def batchArrayBlocks (g : GPT) (blockSize : Nat) : Nat := blocksFor g.batchArraySize blockSize

/-- The entries of the batch `id`. -/
def batchEntries (g : GPT) (id : Nat) : Nat :=
  let remaining := Word.sub g.partitionEntryCount (Word.mul id g.batchArraySize / g.partitionEntrySize)
  if batchSize < remaining then batchSize else remaining

/-- The loop of `IsPartitionArrayValid` with `n` batches left: the state of the engine at its
end, and the number of requests so far. -/
def checkBatches (g : GPT) (blockSize : Nat) (m : Medium) :
    Nat → Nat → Nat → BitVec 32 → Option (BitVec 32) × Nat
  | 0, _, t, crc => (some crc, t)
  | n + 1, id, t, crc =>
    let size := Word.mul (g.batchEntries id) g.partitionEntrySize
    let lba := Word.add g.partitionEntriesLba (Word.mul id (g.batchArrayBlocks blockSize))
    match m.readBlocks t lba (blocksFor size blockSize) with
    | none => (none, t + 1)
    | some buffer => checkBatches g blockSize m n (id + 1) (t + 1)
        (Crypto.CRC32Engine.update crc (buffer.bytes 0 size))

/-- `allocated`: whether there is memory for `batch_buffer`.
mirrors kernel/src/devices/Block/Device.cpp:151-195 -/
def isPartitionArrayValid (g : GPT) (blockSize : Nat) (m : Medium) (allocated : Bool) (t : Nat) : Bool × Nat :=
  if g.partitionEntrySize < 128 ∨ g.partitionEntrySize > blockSize then (false, t)
  else if g.partitionEntryCount = 0 then (false, t)
  else if g.partitionEntriesLba < 2 ∨ g.partitionEntriesLba ≥ m.getBlocksCount then (false, t)
  else if allocated then
    let batchCount := (g.partitionEntryCount + batchSize - 1) / batchSize
    match checkBatches g blockSize m batchCount 0 t Crypto.CRC32Engine.init with
    | (none, t) => (false, t)
    | (some crc, t) => (decide (g.partitionEntriesCrc32 = (Crypto.CRC32Engine.finalize crc).toNat), t)
  else (false, t)

/-- The header as it is summed up: without its own checksum. -/
def summed (g : GPT) : List (BitVec 8) := (g.sector.write 16 4 0).bytes 0 g.headerSize

/-- mirrors kernel/src/devices/Block/Device.cpp:197-225 -/
def isValid (g : GPT) (lba blockSize : Nat) (m : Medium) (allocated : Bool) (t : Nat) : Bool × Nat :=
  if g.signature ≠ 0x5452415020494645 then (false, t)
  else if g.headerSize < 92 ∨ g.headerSize > blockSize then (false, t)
  else if g.myLba ≠ lba then (false, t)
  else if (Crypto.CRC32 g.summed).toNat ≠ g.headerCrc32 then (false, t)
  else g.isPartitionArrayValid blockSize m allocated t

end GPT

/-! ## The fetcher -/

/-- `cached`: the memory from the start of the cache on; `reads`: the requests so far.
mirrors kernel/src/devices/Block/Device.cpp:240-253 -/
structure Fetcher where
  currentPartition : Nat
  cachedPartitionIndex : Nat
  cachedPartitions : Nat
  cachedBlocks : Nat
  cached : ByteMemory
  reads : Nat

/-- The 128 bytes of an entry, and whether they lie in the cache. -/
structure Entry where
  bytes : List (BitVec 8)
  within : Bool

namespace Fetcher

/-- mirrors kernel/src/devices/Block/Device.cpp:278-280 -/
def construct (cachedPartitions reads : Nat) : Fetcher := ⟨0, 0, cachedPartitions, 0, fun _ => 0, reads⟩

section
variable (g : GPT) (blockSize : Nat) (m : Medium)

/-- mirrors kernel/src/devices/Block/Device.cpp:255-269 -/
def updateCache (f : Fetcher) (partitionIndex : Nat) : Bool × Fetcher :=
  if partitionIndex ≥ g.partitionEntryCount then (false, f)
  else
    let lba := Word.add g.partitionEntriesLba (Word.mul partitionIndex g.partitionEntrySize / blockSize)
    match m.readBlocks f.reads lba f.cachedBlocks with
    | none => (false, { f with reads := f.reads + 1 })
    | some buffer =>
      (true, { f with cached := buffer, reads := f.reads + 1
                      cachedPartitionIndex :=
                        Word.mul (Word.sub lba g.partitionEntriesLba) blockSize / g.partitionEntrySize })

/-- mirrors kernel/src/devices/Block/Device.cpp:271-276 -/
def isPartitionFullyWithinCache (f : Fetcher) (partitionIndex : Nat) : Bool :=
  let partitionEnd := Word.mul partitionIndex g.partitionEntrySize
  let cacheEnd := Word.add (Word.mul f.cachedPartitionIndex g.partitionEntrySize) (Word.mul f.cachedBlocks blockSize)
  partitionEnd ≤ cacheEnd

/-- `allocated`: whether there is memory for the cache.
mirrors kernel/src/devices/Block/Device.cpp:282-305 -/
def initializeCache (f : Fetcher) (allocated : Bool) : Bool × Fetcher :=
  let size := Word.mul f.cachedPartitions g.partitionEntrySize
  let size := if size = 0 then blockSize else size
  let blocks := GPT.blocksFor size blockSize
  let f := { f with cachedBlocks := blocks
                    cachedPartitions := Word.mul blocks blockSize / g.partitionEntrySize }
  if allocated then
    match m.readBlocks f.reads g.partitionEntriesLba blocks with
    | none => (false, { f with reads := f.reads + 1 })
    | some buffer => (true, { f with cached := buffer, reads := f.reads + 1 })
  else (false, f)

/-- mirrors kernel/src/devices/Block/Device.cpp:307-311 -/
def reset (f : Fetcher) (allocated : Bool) : Bool × Fetcher :=
  initializeCache g blockSize m { f with currentPartition := 0, cachedPartitionIndex := 0 } allocated

/-- mirrors kernel/src/devices/Block/Device.cpp:313-315 -/
def hasNext (f : Fetcher) : Bool := f.currentPartition < g.partitionEntryCount

/-- The entry at `currentPartition`, which is read from the cache. -/
def fetch (f : Fetcher) : Entry × Fetcher :=
  let offset := Word.mul (Word.sub f.currentPartition f.cachedPartitionIndex) g.partitionEntrySize
  (⟨f.cached.bytes offset 128, offset + 128 ≤ Word.mul f.cachedBlocks blockSize⟩,
    { f with currentPartition := Word.add f.currentPartition 1 })

/-- mirrors kernel/src/devices/Block/Device.cpp:317-333 -/
def next (f : Fetcher) : Option Entry × Fetcher :=
  if !f.hasNext g then (none, f)
  else if f.currentPartition ≥ Word.add f.cachedPartitionIndex f.cachedPartitions ∨
      !f.isPartitionFullyWithinCache g blockSize f.currentPartition then
    match f.updateCache g blockSize m f.currentPartition with
    | (false, f) => (none, f)
    | (true, f) => ((f.fetch g blockSize).1, (f.fetch g blockSize).2)
  else ((f.fetch g blockSize).1, (f.fetch g blockSize).2)

end

end Fetcher

/-! ## Disks -/

/-- The contents of a disk: block, byte of the block. Block numbers have 64 bits. -/
abbrev Disk := Nat → Nat → BitVec 8

/-- The bytes from the start of the block `lba` on. -/
def Disk.from (d : Disk) (blockSize lba : Nat) : ByteMemory :=
  fun i => d (Word.add lba (i / blockSize)) (i % blockSize)

/-- All requests succeed, with the contents of the disk. -/
def Answers (m : Medium) (d : Disk) : Prop :=
  ∀ t lba n, ∃ buffer, m.readBlocks t lba n = some buffer ∧
    ∀ i, i < n * m.getBlockSize → buffer i = d.from m.getBlockSize lba i

/-- The medium that is that disk. -/
def Disk.medium (d : Disk) (blocksCount blockSize : Nat) : Medium :=
  ⟨blocksCount, blockSize, fun _ lba _ => some (d.from blockSize lba)⟩

theorem Disk.answers (d : Disk) (blocksCount blockSize : Nat) : Answers (d.medium blocksCount blockSize) d :=
  fun _ _ _ => ⟨_, rfl, fun _ _ => rfl⟩

end BadLands.Devices.Gpt
