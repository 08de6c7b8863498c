import BadLands.Devices.Gpt

/-!
# GPT: the checksum of the partition array

`IsPartitionArrayValid` reads the array in batches of 32 entries, each into a buffer of whole
blocks. The start of a batch is counted in such buffers, so when 32 entries do not fill whole
blocks, every batch but the first is read from behind its place. `partitionArray_checked_iff` says
for which geometries the sum is that of the array: those of one batch, and those whose batches
fill whole blocks.
-/
namespace BadLands.Devices.Gpt

open BadLands.Core

/-- What `IsPartitionArrayValid` admits. Block numbers have 64 bits, and the sector that holds
the header is in memory. -/
structure Geometry where
  lba : Nat
  count : Nat
  size : Nat
  blockSize : Nat
  blocksCount : Nat
  size_ge : 128 ≤ size
  size_le : size ≤ blockSize
  size_lt : size < 2 ^ 32
  count_pos : 0 < count
  count_lt : count < 2 ^ 32
  lba_ge : 2 ≤ lba
  lba_lt : lba < blocksCount
  blocks_lt : blocksCount < 2 ^ 64
  block_lt : blockSize < 2 ^ 63

theorem sector_lt : 512 < 2 ^ 63 := by decide

namespace Geometry

/-- The header and the medium have this geometry. -/
structure Has (G : Geometry) (g : GPT) (m : Medium) : Prop where
  lba : g.partitionEntriesLba = G.lba
  count : g.partitionEntryCount = G.count
  size : g.partitionEntrySize = G.size
  blockSize : m.getBlockSize = G.blockSize
  blocksCount : m.getBlocksCount = G.blocksCount

/-- The partition array of a disk. -/
def array (G : Geometry) (d : Disk) : List (BitVec 8) := (d.from G.blockSize G.lba).bytes 0 (G.count * G.size)

/-- Blocks for a whole batch. -/
def batchBlocks (G : Geometry) : Nat := (32 * G.size + G.blockSize - 1) / G.blockSize

def batchEntries (G : Geometry) (id : Nat) : Nat := min 32 (G.count - 32 * id)

def batches (G : Geometry) : Nat := (G.count + 31) / 32

/-- What is read for the batch `id`. -/
def batch (G : Geometry) (d : Disk) (id : Nat) : List (BitVec 8) :=
  (d.from G.blockSize (Word.add G.lba (id * G.batchBlocks))).bytes 0 (G.batchEntries id * G.size)

section
variable (G : Geometry)

theorem blockSize_pos : 0 < G.blockSize := by
  have := G.size_ge
  have := G.size_le
  omega

theorem size_pos : 0 < G.size := by
  have := G.size_ge
  omega

theorem blocksFor_eq {size : Nat} (h : size < 2 ^ 63) :
    GPT.blocksFor size G.blockSize = (size + G.blockSize - 1) / G.blockSize := by
  have hb := G.block_lt
  have hpos := G.blockSize_pos
  unfold GPT.blocksFor
  rw [Word.add_eq (by omega), Word.sub_eq (by omega)]

/-- Whole blocks hold what they are counted for. -/
theorem le_blocksFor (n : Nat) : n ≤ (n + G.blockSize - 1) / G.blockSize * G.blockSize := by
  have hpos := G.blockSize_pos
  have hdiv := Nat.div_add_mod (n + G.blockSize - 1) G.blockSize
  have hmod := Nat.mod_lt (n + G.blockSize - 1) hpos
  rw [Nat.mul_comm] at hdiv
  omega

theorem batchBlocks_le : G.batchBlocks ≤ 32 := by
  have hpos := G.blockSize_pos
  have hle := G.size_le
  unfold batchBlocks
  have : 32 * G.size + G.blockSize - 1 < 33 * G.blockSize := by omega
  have := (Nat.div_lt_iff_lt_mul hpos).mpr this
  omega

variable {G}

section
variable {g : GPT} {m : Medium} {d : Disk}

theorem Has.batchArraySize (h : G.Has g m) : g.batchArraySize = 32 * G.size := by
  have := G.size_lt
  unfold GPT.batchArraySize GPT.batchSize
  rw [h.size, Word.mul_eq (by omega)]

theorem Has.batchArrayBlocks (h : G.Has g m) : g.batchArrayBlocks G.blockSize = G.batchBlocks := by
  have := G.size_lt
  unfold GPT.batchArrayBlocks batchBlocks
  rw [h.batchArraySize, G.blocksFor_eq (by omega)]

theorem entries_mul_lt {n : Nat} (h : n ≤ G.count) : n * G.size < 2 ^ 64 := by
  have h1 : n * G.size ≤ 2 ^ 32 * G.size := Nat.mul_le_mul_right _ (by have := G.count_lt; omega)
  have := G.size_lt
  omega

theorem Has.batchEntries (h : G.Has g m) {id : Nat} (hid : 32 * id < G.count) :
    g.batchEntries id = G.batchEntries id := by
  have hlt : id * (32 * G.size) < 2 ^ 64 := by
    rw [← Nat.mul_assoc, Nat.mul_comm id 32]
    exact entries_mul_lt (by omega)
  unfold GPT.batchEntries Geometry.batchEntries GPT.batchSize
  rw [h.batchArraySize, h.size, h.count, Word.mul_eq hlt, ← Nat.mul_assoc, Nat.mul_div_cancel _ G.size_pos,
    Nat.mul_comm id 32, Word.sub_eq (by omega)]
  dsimp only
  split <;> omega

/-- What the loop sums up. -/
theorem Has.checkBatches (h : G.Has g m) (ha : Answers m d) (n : Nat) : ∀ id t crc, id + n = G.batches →
    ∃ t', g.checkBatches G.blockSize m n id t crc =
      (some (Crypto.CRC32Engine.update crc ((List.range' id n).flatMap (G.batch d))), t') := by
  induction n with
  | zero =>
    intro id t crc _
    exact ⟨t, rfl⟩
  | succ n ih =>
    intro id t crc hid
    have hlast : 32 * id < G.count := by
      unfold batches at hid
      omega
    have hsize : G.batchEntries id * G.size ≤ 32 * G.size := Nat.mul_le_mul_right _ (Nat.min_le_left _ _)
    have hlt : G.batchEntries id * G.size < 2 ^ 63 := by
      have := G.size_lt
      omega
    have hblocks : id * G.batchBlocks < 2 ^ 64 := by
      have hle : id * G.batchBlocks ≤ 2 ^ 32 * 32 :=
        Nat.mul_le_mul (by have := G.count_lt; omega) G.batchBlocks_le
      omega
    obtain ⟨buffer, hread, hbuffer⟩ := ha t (Word.add G.lba (id * G.batchBlocks))
      (GPT.blocksFor (G.batchEntries id * G.size) G.blockSize)
    have hbytes : buffer.bytes 0 (G.batchEntries id * G.size) = G.batch d id := by
      apply ByteMemory.bytes_congr
      intro i hi
      rw [Nat.zero_add, hbuffer i]
      · rw [h.blockSize]
      · rw [h.blockSize, G.blocksFor_eq hlt]
        exact Nat.lt_of_lt_of_le hi (G.le_blocksFor _)
    obtain ⟨t', hrest⟩ := ih (id + 1) (t + 1)
      (Crypto.CRC32Engine.update crc (G.batch d id)) (by omega)
    refine ⟨t', ?_⟩
    rw [GPT.checkBatches, h.batchEntries hlast, h.size, h.lba, h.batchArrayBlocks, Word.mul_eq hblocks,
      Word.mul_eq (Nat.lt_trans hlt (by decide))]
    rw [hread]
    dsimp only
    rw [hbytes, hrest, List.range'_succ, List.flatMap_cons]
    unfold Crypto.CRC32Engine.update
    rw [List.foldl_append]

/-- Batches that are the parts of a memory make it up. -/
theorem flatMap_batches {F : Nat → List (BitVec 8)} {M : ByteMemory} (n : Nat) : ∀ id, id + n = G.batches →
    (∀ k, 32 * k < G.count → F k = M.bytes (32 * k * G.size) (G.batchEntries k * G.size)) →
    (List.range' id n).flatMap F = M.bytes (32 * id * G.size) ((G.count - 32 * id) * G.size) := by
  induction n with
  | zero =>
    intro id hid _
    have hend : G.count - 32 * id = 0 := by
      unfold batches at hid
      omega
    rw [hend, Nat.zero_mul]
    rfl
  | succ n ih =>
    intro id hid hF
    have hlast : 32 * id < G.count := by
      unfold batches at hid
      omega
    rw [List.range'_succ, List.flatMap_cons, ih (id + 1) (by omega) hF, hF id hlast]
    by_cases hfull : 32 ≤ G.count - 32 * id
    · have hentries : G.batchEntries id = 32 := Nat.min_eq_left hfull
      rw [hentries, show 32 * (id + 1) * G.size = 32 * id * G.size + 32 * G.size by
        rw [Nat.mul_add, Nat.add_mul], ← ByteMemory.bytes_append, ← Nat.add_mul]
      congr 2
      omega
    · have hentries : G.batchEntries id = G.count - 32 * id := Nat.min_eq_right (by omega)
      have hnone : G.count - 32 * (id + 1) = 0 := by omega
      rw [hentries, hnone, Nat.zero_mul]
      exact List.append_nil _

theorem word_add_add (a b c : Nat) : Word.add (Word.add a b) c = Word.add a (b + c) := by
  unfold Word.add
  rw [Nat.mod_add_mod, Nat.add_assoc]

/-- The batches follow one another when there is only one, or when each fills its blocks. -/
theorem batch_contiguous (hG : G.count ≤ 32 ∨ G.blockSize ∣ 32 * G.size) (d : Disk) {k : Nat}
    (hk : 32 * k < G.count) :
    G.batch d k = (d.from G.blockSize G.lba).bytes (32 * k * G.size) (G.batchEntries k * G.size) := by
  apply ByteMemory.bytes_congr
  intro i _
  have hpos := G.blockSize_pos
  have hstart : 32 * k * G.size = k * G.batchBlocks * G.blockSize := by
    rcases hG with hone | ⟨c, hc⟩
    · rw [show k = 0 by omega]
      simp
    · have hblocks : G.batchBlocks = c := by
        unfold batchBlocks
        rw [hc, Nat.mul_comm, Nat.add_sub_assoc (by omega), Nat.mul_comm c, Nat.mul_add_div hpos,
          Nat.div_eq_of_lt (by omega), Nat.add_zero]
      rw [hblocks, Nat.mul_comm 32 k, Nat.mul_assoc, hc, Nat.mul_assoc, Nat.mul_comm c]
  unfold Disk.from
  rw [hstart, word_add_add, Nat.zero_add, Nat.add_comm (k * G.batchBlocks * G.blockSize) i,
    Nat.add_mul_div_right _ _ hpos, Nat.add_mul_mod_self_right, Nat.add_comm (i / G.blockSize)]

/-- What the check compares with the stored sum. -/
def summed (G : Geometry) (d : Disk) : List (BitVec 8) := (List.range' 0 G.batches).flatMap (G.batch d)

theorem Has.isPartitionArrayValid {g : GPT} {m : Medium} {d : Disk} (h : G.Has g m) (ha : Answers m d) (t : Nat) :
    (g.isPartitionArrayValid G.blockSize m true t).1 =
      decide (g.partitionEntriesCrc32 = (Crypto.crc32 (G.summed d)).toNat) := by
  have h1 := G.size_ge
  have h2 := G.size_le
  have h3 := G.count_pos
  have h4 := G.lba_ge
  have h5 := G.lba_lt
  obtain ⟨t', hrun⟩ := h.checkBatches ha G.batches 0 t Crypto.CRC32Engine.init (Nat.zero_add _)
  unfold GPT.isPartitionArrayValid
  rw [h.size, h.count, h.lba, h.blocksCount, if_neg (by omega), if_neg (by omega), if_neg (by omega), if_pos rfl]
  have hbatches : (G.count + GPT.batchSize - 1) / GPT.batchSize = G.batches := rfl
  dsimp only
  rw [hbatches, hrun]
  dsimp only
  rw [Crypto.finalize_update]
  rfl

/-- One batch is one request. -/
theorem Has.isPartitionArrayValid_batch {g : GPT} {m : Medium} (h : G.Has g m) (hcount : G.count ≤ 32) {t : Nat}
    {buffer : ByteMemory}
    (hread : m.readBlocks t G.lba (GPT.blocksFor (G.count * G.size) G.blockSize) = some buffer) :
    g.isPartitionArrayValid G.blockSize m true t =
      (decide (g.partitionEntriesCrc32 = (Crypto.crc32 (buffer.bytes 0 (G.count * G.size))).toNat), t + 1) := by
  have h1 := G.size_ge
  have h2 := G.size_le
  have h3 := G.count_pos
  have h4 := G.lba_ge
  have h5 := G.lba_lt
  have h6 := G.blocks_lt
  have hentries : G.batchEntries 0 = G.count := Nat.min_eq_right (by omega)
  have hlba : Word.add G.lba (Word.mul 0 G.batchBlocks) = G.lba := by
    rw [Word.mul_eq (by omega), Nat.zero_mul, Word.add_eq (by omega), Nat.add_zero]
  unfold GPT.isPartitionArrayValid
  rw [h.size, h.count, h.lba, h.blocksCount, if_neg (by omega), if_neg (by omega), if_neg (by omega), if_pos rfl]
  have hbatches : (G.count + GPT.batchSize - 1) / GPT.batchSize = 1 := by
    unfold GPT.batchSize
    omega
  dsimp only
  rw [hbatches, GPT.checkBatches, h.batchEntries (by omega), h.size, h.lba, h.batchArrayBlocks, hentries, hlba,
    Word.mul_eq (entries_mul_lt (Nat.le_refl _)), hread]
  dsimp only
  rw [GPT.checkBatches]
  dsimp only
  rw [Crypto.finalize_update]

theorem summed_contiguous (hG : G.count ≤ 32 ∨ G.blockSize ∣ 32 * G.size) (d : Disk) : G.summed d = G.array d := by
  have h := flatMap_batches G.batches 0 (Nat.zero_add _) fun k hk => batch_contiguous hG d hk
  rw [Nat.mul_zero, Nat.zero_mul, Nat.sub_zero] at h
  exact h

end

/-! ## Headers of a geometry -/

/-- The sector of a header, but for its own checksum. -/
def fields (G : Geometry) (first last crc : Nat) : ByteMemory :=
  let empty : ByteMemory := fun _ => 0
  ((((((((empty.write 0 8 0x5452415020494645).write 12 4 92).write 24 8 1).write 40 8 first).write 48 8 last).write
    72 8 G.lba).write 80 4 G.count).write 84 4 G.size).write 88 4 crc

/-- A header that passes its own check, with the array's checksum `crc`. -/
def header (G : Geometry) (first last crc : Nat) : GPT :=
  ⟨(G.fields first last crc).write 16 4
    (Crypto.CRC32 (((G.fields first last crc).write 16 4 0).bytes 0 92)).toNat⟩

section
variable (first last crc : Nat) {m : Medium}

theorem header_read {a n : Nat} (h : a + n ≤ 16 ∨ 20 ≤ a) :
    (G.header first last crc).sector.read a n = (G.fields first last crc).read a n :=
  ByteMemory.read_write_other (by omega)

theorem header_has (hb : m.getBlockSize = G.blockSize) (hn : m.getBlocksCount = G.blocksCount) :
    G.Has (G.header first last crc) m := by
  have hlba : G.lba < 256 ^ 8 := by
    have := G.lba_lt
    have := G.blocks_lt
    omega
  have hcount : G.count < 256 ^ 4 := by
    have := G.count_lt
    omega
  have hsize : G.size < 256 ^ 4 := by
    have := G.size_lt
    omega
  refine ⟨?_, ?_, ?_, hb, hn⟩
  · unfold GPT.partitionEntriesLba
    rw [header_read first last crc (by omega)]
    unfold fields
    rw [ByteMemory.read_write_other (by omega), ByteMemory.read_write_other (by omega),
      ByteMemory.read_write_other (by omega), ByteMemory.read_write_of_lt hlba]
  · unfold GPT.partitionEntryCount
    rw [header_read first last crc (by omega)]
    unfold fields
    rw [ByteMemory.read_write_other (by omega), ByteMemory.read_write_other (by omega),
      ByteMemory.read_write_of_lt hcount]
  · unfold GPT.partitionEntrySize
    rw [header_read first last crc (by omega)]
    unfold fields
    rw [ByteMemory.read_write_other (by omega), ByteMemory.read_write_of_lt hsize]

theorem header_crc (h : crc < 2 ^ 32) : (G.header first last crc).partitionEntriesCrc32 = crc := by
  unfold GPT.partitionEntriesCrc32
  rw [header_read first last crc (by omega)]
  unfold fields
  exact ByteMemory.read_write_of_lt (by omega)

theorem header_valid (m : Medium) (allocated : Bool) (t : Nat) :
    (G.header first last crc).isValid 1 G.blockSize m allocated t =
      (G.header first last crc).isPartitionArrayValid G.blockSize m allocated t := by
  have hsig : (G.header first last crc).signature = 0x5452415020494645 := by
    unfold GPT.signature
    rw [header_read first last crc (by omega)]
    unfold fields
    iterate 8 rw [ByteMemory.read_write_other (by omega)]
    exact ByteMemory.read_write_of_lt (by omega)
  have hsize : (G.header first last crc).headerSize = 92 := by
    unfold GPT.headerSize
    rw [header_read first last crc (by omega)]
    unfold fields
    iterate 7 rw [ByteMemory.read_write_other (by omega)]
    exact ByteMemory.read_write_of_lt (by omega)
  have hlba : (G.header first last crc).myLba = 1 := by
    unfold GPT.myLba
    rw [header_read first last crc (by omega)]
    unfold fields
    iterate 6 rw [ByteMemory.read_write_other (by omega)]
    exact ByteMemory.read_write_of_lt (by omega)
  have hcrc : (G.header first last crc).headerCrc32 =
      (Crypto.CRC32 (((G.fields first last crc).write 16 4 0).bytes 0 92)).toNat := by
    have hlt := BitVec.isLt (Crypto.CRC32 (((G.fields first last crc).write 16 4 0).bytes 0 92))
    exact ByteMemory.read_write_of_lt (by omega)
  have hsummed : (G.header first last crc).summed = ((G.fields first last crc).write 16 4 0).bytes 0 92 := by
    unfold GPT.summed
    rw [hsize]
    apply ByteMemory.bytes_congr
    intro i _
    unfold header ByteMemory.write
    dsimp only
    split
    · rfl
    · rfl
  have := G.size_ge
  have := G.size_le
  unfold GPT.isValid
  rw [hsig, hsize, hlba, hsummed, hcrc]
  rw [if_neg (by omega), if_neg (by omega), if_neg (by omega), if_neg (fun h => h rfl)]

end

/-! ## One byte that is not read -/

/-- A disk that is empty but for the byte `p` of the partition array. -/
def single (G : Geometry) (p : Nat) : Disk := fun block i =>
  if block = Word.add G.lba (p / G.blockSize) ∧ i = p % G.blockSize then 1 else 0

theorem word_add_cancel {a b c : Nat} (hb : b < 2 ^ 64) (hc : c < 2 ^ 64) (h : Word.add a b = Word.add a c) : b = c := by
  unfold Word.add at h
  omega

/-- Where a disk with one byte differs from an empty one. -/
theorem single_from {p q i : Nat} (hp : p < 2 ^ 64) (hq : q + i / G.blockSize < 2 ^ 64) :
    (G.single p).from G.blockSize (Word.add G.lba q) i = if q * G.blockSize + i = p then 1 else 0 := by
  have hpos := G.blockSize_pos
  have hdiv : (q * G.blockSize + i) / G.blockSize = q + i / G.blockSize := by
    rw [Nat.add_comm, Nat.add_mul_div_right _ _ hpos, Nat.add_comm]
  have hmod : (q * G.blockSize + i) % G.blockSize = i % G.blockSize := by
    rw [Nat.add_comm, Nat.add_mul_mod_self_right]
  unfold Disk.from single
  rw [word_add_add]
  by_cases h : q * G.blockSize + i = p
  · rw [if_pos h, if_pos]
    rw [← h, hdiv, hmod]
    exact ⟨rfl, rfl⟩
  · rw [if_neg h, if_neg]
    rintro ⟨hblock, hoff⟩
    apply h
    have hpdiv : p / G.blockSize < 2 ^ 64 := Nat.lt_of_le_of_lt (Nat.div_le_self _ _) hp
    have hquot := word_add_cancel hq hpdiv hblock
    rw [← Nat.div_add_mod (q * G.blockSize + i) G.blockSize, hdiv, hmod, hquot, hoff, Nat.div_add_mod]

theorem bytes_zero {M : ByteMemory} {a n : Nat} (h : ∀ i, i < n → M (a + i) = 0) : M.bytes a n = List.replicate n 0 := by
  have hbytes : M.bytes a n = ByteMemory.bytes (fun _ => 0) 0 n := ByteMemory.bytes_congr h
  rw [hbytes]
  unfold ByteMemory.bytes
  rw [List.map_const', List.length_range]

/-- The first byte of the second batch lies in the gap. -/
theorem gap_summed (hcount : 32 < G.count) (hG : ¬ G.blockSize ∣ 32 * G.size) :
    G.summed (G.single (32 * G.size)) = List.replicate (G.count * G.size) 0 := by
  have hpos := G.blockSize_pos
  have hsize := G.size_lt
  -- the blocks of a batch hold more than the batch
  have hgap : 32 * G.size < G.batchBlocks * G.blockSize := by
    apply Nat.lt_of_le_of_ne (G.le_blocksFor _)
    intro heq
    exact hG ⟨G.batchBlocks, heq.trans (Nat.mul_comm _ _)⟩
  have hbatch : ∀ k, 32 * k < G.count → G.batch (G.single (32 * G.size)) k =
      ByteMemory.bytes (fun _ => 0) (32 * k * G.size) (G.batchEntries k * G.size) := by
    intro k hk
    apply ByteMemory.bytes_congr
    intro i hi
    rw [Nat.zero_add]
    have hi' : i < 32 * G.size :=
      Nat.lt_of_lt_of_le hi (Nat.mul_le_mul_right _ (Nat.min_le_left _ _))
    have hkb : k * G.batchBlocks ≤ 2 ^ 32 * 32 :=
      Nat.mul_le_mul (by have := G.count_lt; omega) G.batchBlocks_le
    have hib : i / G.blockSize ≤ i := Nat.div_le_self _ _
    rw [single_from (by omega) (by omega), if_neg]
    cases k with
    | zero => omega
    | succ k =>
      rw [Nat.add_mul, Nat.one_mul, Nat.add_mul]
      omega
  have h := flatMap_batches G.batches 0 (Nat.zero_add _) hbatch
  rw [Nat.mul_zero, Nat.zero_mul, Nat.sub_zero] at h
  exact h.trans (bytes_zero fun _ _ => rfl)

theorem gap_array (hcount : 32 < G.count) : ∃ rest, G.count * G.size = 32 * G.size + 1 + rest ∧
    G.array (G.single (32 * G.size)) = List.replicate (32 * G.size) 0 ++ 1 :: List.replicate rest 0 := by
  have hsize := G.size_lt
  have hpos := G.size_pos
  have hlt : 33 * G.size ≤ G.count * G.size := Nat.mul_le_mul_right _ hcount
  have hall := entries_mul_lt (G := G) (Nat.le_refl _)
  have hbyte : ∀ i, i < G.count * G.size → (G.single (32 * G.size)).from G.blockSize G.lba i =
      if i = 32 * G.size then 1 else 0 := by
    intro i hi
    have hib : i / G.blockSize ≤ i := Nat.div_le_self _ _
    have hlba : Word.add G.lba 0 = G.lba := Word.add_eq (by have := G.lba_lt; have := G.blocks_lt; omega)
    have h := single_from (G := G) (p := 32 * G.size) (q := 0) (i := i) (by omega) (by omega)
    rw [hlba, Nat.zero_mul, Nat.zero_add] at h
    exact h
  refine ⟨G.count * G.size - (32 * G.size + 1), by omega, ?_⟩
  unfold array
  rw [show G.count * G.size = 32 * G.size + (1 + (G.count * G.size - (32 * G.size + 1))) by omega,
    ByteMemory.bytes_append, ByteMemory.bytes_append]
  congr 1
  · apply bytes_zero
    intro i hi
    rw [Nat.zero_add, hbyte i (by omega), if_neg (by omega)]
  · rw [show 32 * G.size + (1 + (G.count * G.size - (32 * G.size + 1))) - (32 * G.size + 1) =
      G.count * G.size - (32 * G.size + 1) by omega]
    have hone : ((G.single (32 * G.size)).from G.blockSize G.lba).bytes (0 + 32 * G.size) 1 = [1] := by
      unfold ByteMemory.bytes
      simp only [List.range_one, List.map_cons, List.map_nil, Nat.zero_add, Nat.add_zero]
      rw [hbyte _ (by omega), if_pos rfl]
    rw [hone, bytes_zero fun i hi => ?_]
    · rfl
    · rw [hbyte _ (by omega), if_neg (by omega)]

theorem gap_crc (hcount : 32 < G.count) (hG : ¬ G.blockSize ∣ 32 * G.size) :
    Crypto.crc32 (G.summed (G.single (32 * G.size))) ≠ Crypto.crc32 (G.array (G.single (32 * G.size))) := by
  obtain ⟨rest, hlen, harray⟩ := gap_array hcount
  have hzeros : List.replicate (G.count * G.size) (0 : BitVec 8) =
      List.replicate (32 * G.size) 0 ++ 0 :: List.replicate rest 0 := by
    rw [← List.replicate_succ, List.replicate_append_replicate, hlen]
    congr 1
    omega
  rw [gap_summed hcount hG, harray, hzeros]
  exact Crypto.crc32_ne_of_byte _ _ (by decide)

end

end Geometry

/-! ## The check -/

theorem isPartitionArrayValid_unallocated (g : GPT) (blockSize : Nat) (m : Medium) (t : Nat) :
    (g.isPartitionArrayValid blockSize m false t).1 = false := by
  unfold GPT.isPartitionArrayValid
  split
  · rfl
  split
  · rfl
  split
  · rfl
  · rfl

/-- The answer is right for every header and disk of a geometry exactly when there is memory for
the buffer, and the array is one batch or batches fill whole blocks. -/
theorem partitionArray_checked_iff (G : Geometry) (allocated : Bool) :
    (∀ g m d t, G.Has g m → Answers m d → ((g.isPartitionArrayValid G.blockSize m allocated t).1 = true ↔
      (Crypto.crc32 (G.array d)).toNat = g.partitionEntriesCrc32)) ↔
    allocated = true ∧ (G.count ≤ 32 ∨ G.blockSize ∣ 32 * G.size) := by
  constructor
  · intro h
    -- the header with the checksum of the array has to be accepted
    have haccepted : ∀ d, ((G.header 0 0 (Crypto.crc32 (G.array d)).toNat).isPartitionArrayValid G.blockSize
        (d.medium G.blocksCount G.blockSize) allocated 0).1 = true := by
      intro d
      apply (h _ _ d 0 (Geometry.header_has 0 0 _ rfl rfl) (d.answers _ _)).mpr
      rw [Geometry.header_crc 0 0 _ (BitVec.isLt _)]
    have hallocated : allocated = true := by
      cases allocated with
      | true => rfl
      | false =>
        have hfalse := haccepted fun _ _ => 0
        rw [isPartitionArrayValid_unallocated] at hfalse
        cases hfalse
    refine ⟨hallocated, ?_⟩
    subst hallocated
    by_cases hcount : G.count ≤ 32
    · exact .inl hcount
    · right
      apply Decidable.byContradiction
      intro hG
      have hgap := Geometry.gap_crc (Nat.lt_of_not_le hcount) hG
      have hok := haccepted (G.single (32 * G.size))
      rw [(Geometry.header_has 0 0 _ rfl rfl).isPartitionArrayValid (Disk.answers _ _ _),
        Geometry.header_crc 0 0 _ (BitVec.isLt _), decide_eq_true_eq] at hok
      exact hgap (BitVec.eq_of_toNat_eq hok.symm)
  · rintro ⟨rfl, hG⟩ g m d t hhas hans
    rw [hhas.isPartitionArrayValid hans, Geometry.summed_contiguous hG, decide_eq_true_eq]
    exact eq_comm

/-- 128 entries of 128 bytes on a disk with blocks of 8 KiB: a batch is half a block. -/
def wideBlocks : Geometry where
  lba := 2
  count := 128
  size := 128
  blockSize := 8192
  blocksCount := 1000
  size_ge := by decide
  size_le := by decide
  size_lt := by decide
  count_pos := by decide
  count_lt := by decide
  lba_ge := by decide
  lba_lt := by decide
  blocks_lt := by decide
  block_lt := by decide

/-- The header has the checksum of its array, and is refused. -/
theorem partitionArray_refused_wideBlocks :
    let d := wideBlocks.single 4096
    let g := wideBlocks.header 0 0 (Crypto.crc32 (wideBlocks.array d)).toNat
    wideBlocks.Has g (d.medium 1000 8192) ∧ Answers (d.medium 1000 8192) d ∧
    (Crypto.crc32 (wideBlocks.array d)).toNat = g.partitionEntriesCrc32 ∧
    (g.isPartitionArrayValid 8192 (d.medium 1000 8192) true 0).1 = false := by
  intro d g
  have hhas : wideBlocks.Has g (d.medium 1000 8192) := Geometry.header_has 0 0 _ rfl rfl
  have hcrc : g.partitionEntriesCrc32 = (Crypto.crc32 (wideBlocks.array d)).toNat :=
    Geometry.header_crc 0 0 _ (BitVec.isLt _)
  refine ⟨hhas, d.answers _ _, hcrc.symm, ?_⟩
  have hgap : Crypto.crc32 (wideBlocks.summed d) ≠ Crypto.crc32 (wideBlocks.array d) :=
    Geometry.gap_crc (by decide) (by decide)
  have hrun := hhas.isPartitionArrayValid (d.answers 1000 8192) 0
  rw [hcrc] at hrun
  exact hrun.trans (decide_eq_false fun heq => hgap (BitVec.eq_of_toNat_eq heq.symm))

end BadLands.Devices.Gpt
