import BadLands.Devices.GptArray

/-!
# GPT: fetching the entries

The fetcher holds some blocks of the array and the index of the entry they start with, which it
gets by dividing the byte the blocks start at by the entry size: when no entry starts there, every
offset into the cache is wrong by the remainder. Where the cache lies when an entry is read
depends on the geometry only (`placed`): `delivers_iff_good` says that the fetcher works exactly
when each of these places is good, `good_iff_regular` which geometries these are.
-/
namespace BadLands.Devices.Gpt

open BadLands.Core

namespace Geometry

/-- The blocks of the cache for the argument `cachedPartitions`. -/
def cacheBlocks (G : Geometry) (cachedPartitions : Nat) : Nat :=
  let size := Word.mul cachedPartitions G.size
  GPT.blocksFor (if size = 0 then G.blockSize else size) G.blockSize

/-- The entries that fit into a cache of `C` blocks. -/
def cacheEntries (G : Geometry) (C : Nat) : Nat := C * G.blockSize / G.size

/-- The cache is refilled for the entry `k`: it is behind the cache, or the end of the cache
has no 64-bit offset. `p`: index and block that the cache starts with. -/
def refills (G : Geometry) (C k : Nat) (p : Nat × Nat) : Bool :=
  p.1 + G.cacheEntries C ≤ k || 2 ^ 64 ≤ p.1 * G.size + C * G.blockSize

def move (G : Geometry) (C k : Nat) (p : Nat × Nat) : Nat × Nat :=
  if G.refills C k p then
    (k * G.size / G.blockSize * G.blockSize / G.size, k * G.size / G.blockSize)
  else p

/-- Where the cache lies before the entry `k` is asked for. -/
def before (G : Geometry) (C : Nat) : Nat → Nat × Nat
  | 0 => (0, 0)
  | k + 1 => G.move C k (G.before C k)

/-- Where the cache lies when the entry `k` is read. -/
def placed (G : Geometry) (C k : Nat) : Nat × Nat := G.move C k (G.before C k)

/-- The cache starts with an entry, and holds the entry `k`. -/
def Good (G : Geometry) (C k : Nat) (p : Nat × Nat) : Prop :=
  p.1 * G.size = p.2 * G.blockSize ∧ (k - p.1) * G.size + 128 ≤ C * G.blockSize

end Geometry

/-! ## Calls of a fetcher -/

/-- After `k` calls of `Next`. -/
def Fetcher.nexts (g : GPT) (blockSize : Nat) (m : Medium) (f : Fetcher) : Nat → Fetcher
  | 0 => f
  | k + 1 => ((f.nexts g blockSize m k).next g blockSize m).2

/-- The fetchers that come from one with that argument, by any calls. -/
inductive Reached (g : GPT) (blockSize : Nat) (m : Medium) (cachedPartitions : Nat) : Fetcher → Prop where
  | initialized {reads : Nat} {f : Fetcher} :
      (Fetcher.construct cachedPartitions reads).initializeCache g blockSize m true = (true, f) →
      Reached g blockSize m cachedPartitions f
  | reset {f f' : Fetcher} : Reached g blockSize m cachedPartitions f →
      f.reset g blockSize m true = (true, f') → Reached g blockSize m cachedPartitions f'
  | next {f : Fetcher} : Reached g blockSize m cachedPartitions f →
      Reached g blockSize m cachedPartitions (f.next g blockSize m).2

/-- Those that were just initialized or reset. -/
def Started (g : GPT) (blockSize : Nat) (m : Medium) (cachedPartitions : Nat) (f : Fetcher) : Prop :=
  (∃ reads, (Fetcher.construct cachedPartitions reads).initializeCache g blockSize m true = (true, f)) ∨
  ∃ f₀, Reached g blockSize m cachedPartitions f₀ ∧ f₀.reset g blockSize m true = (true, f)

/-- From there on, `Next` returns the entries in their order. -/
def Delivers (G : Geometry) (g : GPT) (m : Medium) (d : Disk) (f : Fetcher) : Prop :=
  ∀ k, k < G.count → ((f.nexts g G.blockSize m k).next g G.blockSize m).1 =
    some ⟨(d.from G.blockSize G.lba).bytes (k * G.size) 128, true⟩

namespace Geometry

/-! ## The calls, by the places -/

/-- The fetcher is at the entry `k`, its cache at `p`. -/
structure Cache (G : Geometry) (d : Disk) (C : Nat) (f : Fetcher) (k : Nat) (p : Nat × Nat) : Prop where
  current : f.currentPartition = k
  index : f.cachedPartitionIndex = p.1
  partitions : f.cachedPartitions = G.cacheEntries C
  blocks : f.cachedBlocks = C
  bytes : ∀ i, i < C * G.blockSize → f.cached i = d.from G.blockSize (Word.add G.lba p.2) i

section
variable {G : Geometry} {g : GPT} {m : Medium} {d : Disk} {C k : Nat} {f : Fetcher} {p : Nat × Nat}

theorem word_add_zero (G : Geometry) : Word.add G.lba 0 = G.lba :=
  Word.add_eq (by have := G.lba_lt; have := G.blocks_lt; omega)

theorem cacheBlocks_mul_lt (G : Geometry) (c : Nat) : G.cacheBlocks c * G.blockSize < 2 ^ 64 := by
  unfold cacheBlocks GPT.blocksFor
  dsimp only
  refine Nat.lt_of_le_of_lt (Nat.div_mul_le_self _ _) (Word.sub_lt _ (Word.add_lt _ _))

theorem Has.initializeCache (h : G.Has g m) (ha : Answers m d) (f : Fetcher)
    (hf : f.currentPartition = 0 ∧ f.cachedPartitionIndex = 0) :
    ∃ f', f.initializeCache g G.blockSize m true = (true, f') ∧
      G.Cache d (G.cacheBlocks f.cachedPartitions) f' 0 (0, 0) := by
  obtain ⟨buffer, hread, hbytes⟩ := ha f.reads G.lba (G.cacheBlocks f.cachedPartitions)
  have hblocks : GPT.blocksFor (if Word.mul f.cachedPartitions G.size = 0 then G.blockSize
      else Word.mul f.cachedPartitions G.size) G.blockSize = G.cacheBlocks f.cachedPartitions := rfl
  unfold Fetcher.initializeCache
  rw [h.size, h.lba]
  dsimp only
  rw [hblocks, if_pos rfl, hread]
  refine ⟨_, rfl, hf.1, hf.2, ?_, rfl, fun i hi => ?_⟩
  · dsimp only
    rw [Word.mul_eq (G.cacheBlocks_mul_lt _)]
    rfl
  · dsimp only
    rw [hbytes i (by rw [h.blockSize]; exact hi), h.blockSize, word_add_zero]

theorem cacheEntries_mul_le (G : Geometry) (C : Nat) : G.cacheEntries C * G.size ≤ C * G.blockSize :=
  Nat.div_mul_le_self _ _

theorem word_sub_add {a b : Nat} (ha : a < 2 ^ 64) (hb : b < 2 ^ 64) : Word.sub (Word.add a b) a = b := by
  unfold Word.sub Word.add
  split <;> omega

/-- The test that `Next` makes. -/
theorem Cache.refills_iff (hc : G.Cache d C f k p) (h : G.Has g m) (hC : C * G.blockSize < 2 ^ 63)
    (hk : k < G.count) (hp : p.1 ≤ k) :
    (f.currentPartition ≥ Word.add f.cachedPartitionIndex f.cachedPartitions ∨
      (!f.isPartitionFullyWithinCache g G.blockSize f.currentPartition) = true) ↔ G.refills C k p = true := by
  have hcount := G.count_lt
  have hkr : k * G.size < 2 ^ 64 := entries_mul_lt (by omega)
  have hpr : p.1 * G.size ≤ k * G.size := Nat.mul_le_mul_right _ hp
  have hN : G.cacheEntries C ≤ C * G.blockSize := Nat.div_le_self _ _
  have hNr := G.cacheEntries_mul_le C
  unfold Fetcher.isPartitionFullyWithinCache refills
  rw [hc.current, hc.index, hc.partitions, hc.blocks, h.size, Word.add_eq (by omega), Word.mul_eq hkr,
    Word.mul_eq (by omega), Word.mul_eq (by omega)]
  simp only [Bool.not_eq_true', decide_eq_false_iff_not, Bool.or_eq_true, decide_eq_true_eq]
  by_cases hbehind : p.1 + G.cacheEntries C ≤ k
  · exact iff_of_true (.inl hbehind) (.inl hbehind)
  · have hin : k * G.size ≤ p.1 * G.size + C * G.blockSize := by
      have h1 : k * G.size ≤ (p.1 + G.cacheEntries C) * G.size := Nat.mul_le_mul_right _ (by omega)
      rw [Nat.add_mul] at h1
      omega
    unfold Word.add
    constructor
    · rintro (h1 | h1)
      · exact absurd h1 hbehind
      · right
        apply Decidable.byContradiction
        intro hn
        rw [Nat.mod_eq_of_lt (by omega)] at h1
        exact h1 hin
    · rintro (h1 | h1)
      · exact absurd h1 hbehind
      · right
        rw [Nat.mod_eq_sub_mod h1, Nat.mod_eq_of_lt (by omega)]
        omega

theorem Cache.updateCache (hc : G.Cache d C f k p) (h : G.Has g m) (ha : Answers m d) (hk : k < G.count) :
    ∃ f', f.updateCache g G.blockSize m k = (true, f') ∧
      G.Cache d C f' k (k * G.size / G.blockSize * G.blockSize / G.size, k * G.size / G.blockSize) := by
  have hkr : k * G.size < 2 ^ 64 := entries_mul_lt (Nat.le_of_lt hk)
  have hq : k * G.size / G.blockSize < 2 ^ 64 := Nat.lt_of_le_of_lt (Nat.div_le_self _ _) hkr
  have hqb : k * G.size / G.blockSize * G.blockSize < 2 ^ 64 := Nat.lt_of_le_of_lt (Nat.div_mul_le_self _ _) hkr
  have hlba : G.lba < 2 ^ 64 := by
    have := G.lba_lt
    have := G.blocks_lt
    omega
  obtain ⟨buffer, hread, hbytes⟩ := ha f.reads (Word.add G.lba (k * G.size / G.blockSize)) C
  unfold Fetcher.updateCache
  rw [h.count, h.lba, h.size, if_neg (by omega), Word.mul_eq hkr, hc.blocks]
  dsimp only
  rw [hread]
  refine ⟨_, rfl, hc.current, ?_, hc.partitions, rfl, fun i hi => ?_⟩
  · dsimp only
    rw [word_sub_add hlba hq, Word.mul_eq hqb]
  · dsimp only
    rw [hbytes i (by rw [h.blockSize]; exact hi), h.blockSize]

/-- The entry that is read from a cache at `p`. -/
def EntryAt (G : Geometry) (d : Disk) (C k : Nat) (p : Nat × Nat) (e : Entry) : Prop :=
  ∃ buffer : ByteMemory, (∀ i, i < C * G.blockSize → buffer i = d.from G.blockSize (Word.add G.lba p.2) i) ∧
    e = ⟨buffer.bytes ((k - p.1) * G.size) 128, decide ((k - p.1) * G.size + 128 ≤ C * G.blockSize)⟩

theorem Cache.fetch (hc : G.Cache d C f k p) (h : G.Has g m) (hC : C * G.blockSize < 2 ^ 63)
    (hk : k < G.count) (hp : p.1 ≤ k) :
    G.EntryAt d C k p (f.fetch g G.blockSize).1 ∧ G.Cache d C (f.fetch g G.blockSize).2 (k + 1) p := by
  have hcount := G.count_lt
  have hkr : (k - p.1) * G.size < 2 ^ 64 := entries_mul_lt (by omega)
  unfold Fetcher.fetch
  rw [hc.current, hc.index, hc.blocks, h.size, Word.sub_eq hp, Word.mul_eq hkr, Word.mul_eq (by omega),
    Word.add_eq (by omega)]
  exact ⟨⟨f.cached, hc.bytes, rfl⟩, rfl, rfl, hc.partitions, rfl, hc.bytes⟩

theorem move_le (hp : p.1 ≤ k) : (G.move C k p).1 ≤ k := by
  unfold move
  split
  · dsimp only
    apply Nat.le_of_mul_le_mul_right _ G.size_pos
    exact Nat.le_trans (Nat.div_mul_le_self _ _) (Nat.div_mul_le_self _ _)
  · exact hp

/-- One call of `Next`. -/
theorem Cache.next (hc : G.Cache d C f k p) (h : G.Has g m) (ha : Answers m d) (hC : C * G.blockSize < 2 ^ 63)
    (hk : k < G.count) (hp : p.1 ≤ k) : ∃ e, (f.next g G.blockSize m).1 = some e ∧
      G.EntryAt d C k (G.move C k p) e ∧ G.Cache d C (f.next g G.blockSize m).2 (k + 1) (G.move C k p) := by
  have hiff := hc.refills_iff h hC hk hp
  have hle : (G.move C k p).1 ≤ k := move_le hp
  have hnext : f.hasNext g = true := by
    unfold Fetcher.hasNext
    rw [hc.current, h.count]
    exact decide_eq_true hk
  unfold Fetcher.next
  rw [hnext, if_neg (by decide)]
  by_cases hr : G.refills C k p = true
  · have hmove : G.move C k p =
        (k * G.size / G.blockSize * G.blockSize / G.size, k * G.size / G.blockSize) := if_pos hr
    rw [if_pos (hiff.mpr hr), hc.current]
    obtain ⟨f', hupdate, hc'⟩ := hc.updateCache h ha hk
    rw [hupdate]
    rw [← hmove] at hc'
    obtain ⟨he, hc''⟩ := hc'.fetch h hC hk hle
    exact ⟨_, rfl, he, hc''⟩
  · have hmove : G.move C k p = p := if_neg hr
    rw [if_neg fun hn => hr (hiff.mp hn)]
    rw [hmove]
    obtain ⟨he, hc'⟩ := hc.fetch h hC hk hp
    exact ⟨_, rfl, he, hc'⟩

theorem before_le (k : Nat) : (G.before C k).1 ≤ k := by
  induction k with
  | zero => exact Nat.le_refl 0
  | succ k ih => exact Nat.le_succ_of_le (move_le ih)

/-- All the calls of `Next`, one after another. -/
theorem Cache.nexts (hc : G.Cache d C f 0 (0, 0)) (h : G.Has g m) (ha : Answers m d)
    (hC : C * G.blockSize < 2 ^ 63) (k : Nat) : k ≤ G.count →
    G.Cache d C (f.nexts g G.blockSize m k) k (G.before C k) := by
  induction k with
  | zero =>
    intro _
    exact hc
  | succ k ih =>
    intro hk
    obtain ⟨e, -, -, hc'⟩ := (ih (by omega)).next h ha hC (by omega) (before_le k)
    exact hc'

theorem from_add (d : Disk) (q i : Nat) :
    d.from G.blockSize (Word.add G.lba q) i = d.from G.blockSize G.lba (q * G.blockSize + i) := by
  have hpos := G.blockSize_pos
  unfold Disk.from
  rw [word_add_add, Nat.add_comm (q * G.blockSize), Nat.add_mul_div_right _ _ hpos, Nat.add_mul_mod_self_right,
    Nat.add_comm q]

/-- From a good place the entry is right. -/
theorem EntryAt.right {e : Entry} (he : G.EntryAt d C k p e) (hgood : G.Good C k p) (hp : p.1 ≤ k) :
    e = ⟨(d.from G.blockSize G.lba).bytes (k * G.size) 128, true⟩ := by
  obtain ⟨buffer, hbuffer, rfl⟩ := he
  obtain ⟨hstart, hfits⟩ := hgood
  have haddr : p.2 * G.blockSize + (k - p.1) * G.size = k * G.size := by
    rw [← hstart, ← Nat.add_mul, Nat.add_sub_cancel' hp]
  rw [decide_eq_true hfits]
  congr 1
  apply ByteMemory.bytes_congr
  intro i hi
  rw [hbuffer _ (by omega), from_add, ← Nat.add_assoc, haddr]

/-- From a bad place it is wrong on the disk that is empty but for the first byte of the entry. -/
theorem EntryAt.good {e : Entry} (he : G.EntryAt (G.single (k * G.size)) C k p e)
    (hright : e = ⟨((G.single (k * G.size)).from G.blockSize G.lba).bytes (k * G.size) 128, true⟩)
    (hC : C * G.blockSize < 2 ^ 63) (hk : k < G.count) (hp : p.1 ≤ k) (hq : p.2 ≤ k) : G.Good C k p := by
  obtain ⟨buffer, hbuffer, rfl⟩ := he
  have hcount := G.count_lt
  have hsize := G.size_lt
  have hpos := G.size_pos
  have hle : k * G.size ≤ (2 ^ 32 - 2) * G.size := Nat.mul_le_mul_right _ (by omega)
  have hbytes := congrArg Entry.bytes hright
  have hwithin : (k - p.1) * G.size + 128 ≤ C * G.blockSize := of_decide_eq_true (congrArg Entry.within hright)
  refine ⟨?_, hwithin⟩
  -- the first byte
  have hfirst : buffer ((k - p.1) * G.size) = (G.single (k * G.size)).from G.blockSize G.lba (k * G.size) := by
    have hhead := congrArg (fun l => l[0]?) hbytes
    simpa [ByteMemory.bytes, List.getElem?_map, List.getElem?_range] using hhead
  have hone : (G.single (k * G.size)).from G.blockSize G.lba (k * G.size) = 1 := by
    have h := single_from (G := G) (p := k * G.size) (q := 0) (i := k * G.size) (by omega)
      (by have := Nat.div_le_self (k * G.size) G.blockSize; omega)
    rw [word_add_zero, Nat.zero_mul, Nat.zero_add, if_pos rfl] at h
    exact h
  rw [hbuffer _ (by omega), hone, single_from (by omega)
    (by have := Nat.div_le_self ((k - p.1) * G.size) G.blockSize; omega)] at hfirst
  split at hfirst
  · rename_i haddr
    have hsum : (k - p.1) * G.size + p.1 * G.size = k * G.size := by
      rw [← Nat.add_mul, Nat.sub_add_cancel hp]
    omega
  · exact absurd hfirst (by decide)

/-! ## `Reset` -/

/-- The entries that fit need the same blocks again. -/
theorem cacheBlocks_cacheEntries (G : Geometry) {C : Nat} (hpos : 0 < C) (hC : C * G.blockSize < 2 ^ 63) :
    G.cacheBlocks (G.cacheEntries C) = C := by
  have hb := G.block_lt
  have hrb := G.size_le
  have hr := G.size_pos
  have hle := G.cacheEntries_mul_le C
  have hlast : C * G.blockSize < G.cacheEntries C * G.size + G.size := by
    have h := Nat.lt_div_mul_add hr (a := C * G.blockSize)
    exact h
  have hblock : G.blockSize ≤ C * G.blockSize := Nat.le_mul_of_pos_left _ hpos
  have hne : G.cacheEntries C * G.size ≠ 0 := by
    intro hz
    omega
  have hsucc : (C + 1) * G.blockSize = C * G.blockSize + G.blockSize := Nat.succ_mul _ _
  unfold cacheBlocks
  dsimp only
  rw [Word.mul_eq (by omega), if_neg hne, G.blocksFor_eq (by omega)]
  apply Nat.div_eq_of_lt_le
  · omega
  · rw [hsucc]
    omega

theorem next_cachedPartitions (f : Fetcher) : (f.next g G.blockSize m).2.cachedPartitions = f.cachedPartitions := by
  unfold Fetcher.next Fetcher.updateCache Fetcher.fetch
  dsimp only
  split
  · rfl
  split
  · split
    · rename_i f' heq
      split at heq
      · cases heq
        rfl
      · split at heq <;> cases heq
        rfl
    · rename_i f' heq
      split at heq
      · cases heq
      · split at heq <;> cases heq
        rfl
  · rfl

theorem Has.reset (h : G.Has g m) (ha : Answers m d) (hpos : 0 < C) (hC : C * G.blockSize < 2 ^ 63)
    (hf : f.cachedPartitions = G.cacheEntries C) :
    ∃ f', f.reset g G.blockSize m true = (true, f') ∧ G.Cache d C f' 0 (0, 0) := by
  obtain ⟨f', hrun, hc⟩ :=
    h.initializeCache ha { f with currentPartition := 0, cachedPartitionIndex := 0 } ⟨rfl, rfl⟩
  dsimp only at hc
  rw [hf, G.cacheBlocks_cacheEntries hpos hC] at hc
  exact ⟨f', hrun, hc⟩

theorem Has.reached (h : G.Has g m) (ha : Answers m d) {c : Nat} (hpos : 0 < G.cacheBlocks c)
    (hC : G.cacheBlocks c * G.blockSize < 2 ^ 63) (hf : Reached g G.blockSize m c f) :
    f.cachedPartitions = G.cacheEntries (G.cacheBlocks c) := by
  induction hf with
  | initialized hrun =>
    obtain ⟨f', hrun', hc⟩ := h.initializeCache ha (Fetcher.construct c _) ⟨rfl, rfl⟩
    rw [hrun'] at hrun
    cases hrun
    exact hc.partitions
  | reset _ hrun ih =>
    obtain ⟨f', hrun', hc⟩ := h.reset ha hpos hC ih
    rw [hrun'] at hrun
    cases hrun
    exact hc.partitions
  | next _ ih => rw [next_cachedPartitions, ih]

/-- A fetcher that was just initialized or reset. -/
theorem Has.started (h : G.Has g m) (ha : Answers m d) {c : Nat} (hpos : 0 < G.cacheBlocks c)
    (hC : G.cacheBlocks c * G.blockSize < 2 ^ 63) (hf : Started g G.blockSize m c f) :
    G.Cache d (G.cacheBlocks c) f 0 (0, 0) := by
  rcases hf with ⟨reads, hrun⟩ | ⟨f₀, hf₀, hrun⟩
  · obtain ⟨f', hrun', hc⟩ := h.initializeCache ha (Fetcher.construct c reads) ⟨rfl, rfl⟩
    rw [hrun'] at hrun
    cases hrun
    exact hc
  · obtain ⟨f', hrun', hc⟩ := h.reset ha hpos hC (h.reached ha hpos hC hf₀)
    rw [hrun'] at hrun
    cases hrun
    exact hc

end

/-! ## Which places the cache takes -/

theorem move_block_le (G : Geometry) {C k : Nat} {p : Nat × Nat} (hp : p.2 ≤ k) : (G.move C k p).2 ≤ k := by
  unfold move
  split
  · dsimp only
    apply Nat.div_le_of_le_mul
    rw [Nat.mul_comm]
    exact Nat.mul_le_mul_right k G.size_le
  · exact hp

theorem before_block_le (G : Geometry) (C k : Nat) : (G.before C k).2 ≤ k := by
  induction k with
  | zero => exact Nat.le_refl 0
  | succ k ih => exact Nat.le_succ_of_le (G.move_block_le ih)

/-- A header that is accepted, of the disk that is empty but for the first byte of the entry `k`. -/
def headerFor (G : Geometry) (k : Nat) : GPT := G.header 0 0 (Crypto.crc32 (G.summed (G.single (k * G.size)))).toNat

def mediumFor (G : Geometry) (k : Nat) : Medium := (G.single (k * G.size)).medium G.blocksCount G.blockSize

theorem headerFor_has (G : Geometry) (k : Nat) : G.Has (G.headerFor k) (G.mediumFor k) := header_has 0 0 _ rfl rfl

theorem headerFor_valid (G : Geometry) (k t : Nat) :
    ((G.headerFor k).isValid 1 G.blockSize (G.mediumFor k) true t).1 = true := by
  have hcrc : (G.headerFor k).partitionEntriesCrc32 = (Crypto.crc32 (G.summed (G.single (k * G.size)))).toNat :=
    header_crc 0 0 _ (BitVec.isLt _)
  have hans : Answers (G.mediumFor k) (G.single (k * G.size)) := Disk.answers _ _ _
  have hvalid := header_valid (G := G) 0 0 (Crypto.crc32 (G.summed (G.single (k * G.size)))).toNat (G.mediumFor k) true t
  have harray := (G.headerFor_has k).isPartitionArrayValid hans t
  rw [hcrc, decide_eq_true rfl] at harray
  exact (congrArg Prod.fst hvalid).trans harray

/-- There the entry is right only if it is read from a good place. -/
theorem good_of_delivers (G : Geometry) {c k : Nat} (hC : G.cacheBlocks c * G.blockSize < 2 ^ 63) (hk : k < G.count) :
    ∃ f, Started (G.headerFor k) G.blockSize (G.mediumFor k) c f ∧
      (Delivers G (G.headerFor k) (G.mediumFor k) (G.single (k * G.size)) f →
        G.Good (G.cacheBlocks c) k (G.placed (G.cacheBlocks c) k)) := by
  have hhas := G.headerFor_has k
  have hans : Answers (G.mediumFor k) (G.single (k * G.size)) := Disk.answers _ _ _
  obtain ⟨f, hrun, hc⟩ := hhas.initializeCache hans (Fetcher.construct c 0) ⟨rfl, rfl⟩
  refine ⟨f, .inl ⟨0, hrun⟩, fun hdelivers => ?_⟩
  have hc : G.Cache _ (G.cacheBlocks c) f 0 (0, 0) := hc
  obtain ⟨e, he, hentry, -⟩ := (hc.nexts hhas hans hC k (Nat.le_of_lt hk)).next hhas hans hC hk (before_le k)
  rw [hdelivers k hk] at he
  exact hentry.good (Option.some.inj he).symm hC hk (move_le (before_le k))
    (G.move_block_le (G.before_block_le _ k))

/-- The fetcher works for a geometry exactly when it reads every entry from a good place. -/
theorem delivers_iff_good (G : Geometry) (c : Nat) (hC : G.cacheBlocks c * G.blockSize < 2 ^ 63) :
    (∀ g m d allocated t, G.Has g m → Answers m d → (g.isValid 1 G.blockSize m allocated t).1 = true →
      ∀ f, Started g G.blockSize m c f → Delivers G g m d f) ↔
    ∀ k, k < G.count → G.Good (G.cacheBlocks c) k (G.placed (G.cacheBlocks c) k) := by
  constructor
  · intro h k hk
    obtain ⟨f, hf, hgood⟩ := G.good_of_delivers hC hk
    exact hgood (h _ _ _ true 0 (G.headerFor_has k) (Disk.answers _ _ _) (G.headerFor_valid k 0) f hf)
  · intro hgood g m d allocated t hhas hans _ f hf k hk
    have hpos : 0 < G.cacheBlocks c := by
      apply Nat.pos_of_ne_zero
      intro hz
      have h0 := (hgood 0 G.count_pos).2
      rw [hz, Nat.zero_mul] at h0
      omega
    have hc := hhas.started hans hpos hC hf
    obtain ⟨e, he, hentry, -⟩ := (hc.nexts hhas hans hC k (Nat.le_of_lt hk)).next hhas hans hC hk (before_le k)
    rw [he, hentry.right (hgood k hk) (move_le (before_le k))]

end Geometry

end BadLands.Devices.Gpt
