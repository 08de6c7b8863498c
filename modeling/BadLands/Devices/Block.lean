import BadLands.Fs.Status
import Mathlib.Algebra.Group.Nat.Defs

/-!
# Block devices and partitions: confinement of requests

`Partition::Read/Write` and `Device::Read/Write` turn a byte range into one
request for whole blocks. All four share one shape (`transfer`): the end block is
`(offset + count + blockSize - 1) / blockSize` in wrapping 64-bit arithmetic, and
only that quotient is compared with the number of blocks.

`Outcome` records what a call answers, the caller's buffer afterwards and the
requests it issued. `Confined` is what a caller relies on: every issued request
stays inside the block range, and a byte range that leaves it is refused without
touching the device.

When the sum wraps, a small end block passes the bound test while the start block
and the block count are huge (`partition_read_escapes`). `transfer_confined_iff`
says exactly when a call is confined; `accesses_confined_iff` is the same for the
four entry points.
-/
namespace BadLands.Devices.Block

open BadLands.Fs (Status Response)

/-- The driver behind a device: what it reports and how it answers a request.
`readBlocks` returns whether it succeeded and the buffer it leaves.
mirrors kernel/include/devices/Block/Interface.hpp:23-31 -/
structure Interface where
  getBlocksCount : UInt64
  getBlockSize : UInt64
  readBlocks : UInt64 → UInt64 → List UInt8 → Bool × List UInt8
  writeBlocks : UInt64 → UInt64 → List UInt8 → Bool

/-- A request on the interface: first block and number of blocks. -/
inductive Request where
  | read (startBlock blocksCount : UInt64)
  | write (startBlock blocksCount : UInt64)
  deriving DecidableEq, Repr

def Request.start : Request → Nat
  | .read s _ => s.toNat
  | .write s _ => s.toNat

def Request.blocks : Request → Nat
  | .read _ n => n.toNat
  | .write _ n => n.toNat

/-- The request covers only blocks of `[first, first + count)`. -/
def Request.Within (first count : Nat) (r : Request) : Prop :=
  first ≤ r.start ∧ r.start + r.blocks ≤ first + count

structure Outcome where
  response : Response UInt64
  buffer : List UInt8
  requests : List Request

/-- The block arithmetic and the checks common to the four entry points;
`issue` performs the request on the interface. -/
def transfer (blockSize firstBlock blocksCount : UInt64) (mk : UInt64 → UInt64 → Request)
    (issue : UInt64 → UInt64 → Bool × List UInt8) (offset count : UInt64)
    (buffer : List UInt8) : Outcome :=
  let startBlock := offset / blockSize
  let endBlock := (offset + count + blockSize - 1) / blockSize
  let blocks := endBlock - startBlock
  if blocks = 0 then ⟨.ok 0, buffer, []⟩
  else if offset % blockSize ≠ 0 ∨ count % blockSize ≠ 0 then
    ⟨.error .invalidParameter, buffer, []⟩
  else if endBlock > blocksCount then ⟨.error .outOfBounds, buffer, []⟩
  else
    let r := issue (firstBlock + startBlock) blocks
    ⟨if r.1 then .ok (blocks * blockSize) else .error .deviceError, r.2,
      [mk (firstBlock + startBlock) blocks]⟩

/-- The block range of a partition (its ids and GUIDs play no part in transfers).
mirrors kernel/include/devices/Block/Device.hpp:39-45 -/
structure Partition where
  firstBlock : UInt64
  blocksCount : UInt64
  deriving DecidableEq, Repr

/-- mirrors kernel/src/devices/Block/Device.cpp:376-396 -/
def Partition.read (i : Interface) (p : Partition) (offset count : UInt64)
    (buffer : List UInt8) : Outcome :=
  transfer i.getBlockSize p.firstBlock p.blocksCount .read (fun s n => i.readBlocks s n buffer)
    offset count buffer

/-- mirrors kernel/src/devices/Block/Device.cpp:398-418 -/
def Partition.write (i : Interface) (p : Partition) (offset count : UInt64)
    (buffer : List UInt8) : Outcome :=
  transfer i.getBlockSize p.firstBlock p.blocksCount .write
    (fun s n => (i.writeBlocks s n buffer, buffer)) offset count buffer

/-- A whole device is the block range from 0 on.
mirrors kernel/src/devices/Block/Device.cpp:677-697 -/
def Device.read (i : Interface) (offset count : UInt64) (buffer : List UInt8) : Outcome :=
  transfer i.getBlockSize 0 i.getBlocksCount .read (fun s n => i.readBlocks s n buffer)
    offset count buffer

/-- mirrors kernel/src/devices/Block/Device.cpp:699-719 -/
def Device.write (i : Interface) (offset count : UInt64) (buffer : List UInt8) : Outcome :=
  transfer i.getBlockSize 0 i.getBlocksCount .write
    (fun s n => (i.writeBlocks s n buffer, buffer)) offset count buffer

/-! ## Confinement -/

/-- The byte range is non-empty and leaves the `blocksCount` blocks. -/
def Outside (blockSize blocksCount offset count : UInt64) : Prop :=
  count ≠ 0 ∧ blocksCount.toNat * blockSize.toNat < offset.toNat + count.toNat

instance (bs n off cnt : UInt64) : Decidable (Outside bs n off cnt) :=
  inferInstanceAs (Decidable (_ ∧ _))

structure Confined (blockSize firstBlock blocksCount offset count : UInt64) (o : Outcome) :
    Prop where
  inside : ∀ r ∈ o.requests, r.Within firstBlock.toNat blocksCount.toNat
  refused : Outside blockSize blocksCount offset count →
    (∃ e, o.response = .error e) ∧ o.requests = []

def Aligned (blockSize offset count : UInt64) : Prop :=
  offset % blockSize = 0 ∧ count % blockSize = 0

instance (bs off cnt : UInt64) : Decidable (Aligned bs off cnt) :=
  inferInstanceAs (Decidable (_ ∧ _))

/-- The condition on the arguments: either `offset + count + blockSize - 1` fits in 64
bits, and then a request that passes the checks does not wrap the first block; or it
wraps, and the wrapped end block still makes the call end in an error (not aligned, or
past the last block) or falls on the start block for a range that is not outside. -/
def KeepsInside (blockSize firstBlock blocksCount offset count : UInt64) : Prop :=
  if offset.toNat + count.toNat + blockSize.toNat - 1 < 2 ^ 64 then
    Aligned blockSize offset count → count ≠ 0 →
      offset.toNat + count.toNat ≤ blocksCount.toNat * blockSize.toNat →
      firstBlock.toNat + offset.toNat / blockSize.toNat < 2 ^ 64
  else if (offset + count + blockSize - 1) / blockSize = offset / blockSize then
    ¬ Outside blockSize blocksCount offset count
  else
    ¬ Aligned blockSize offset count ∨ blocksCount < (offset + count + blockSize - 1) / blockSize

instance (bs f n off cnt : UInt64) : Decidable (KeepsInside bs f n off cnt) := by
  unfold KeepsInside
  infer_instance

/-! ## When a transfer is confined -/

/-- The end block without a wrap is the last block touched, plus one. -/
theorem endBlock_toNat {bs off cnt : UInt64} (hb : bs ≠ 0)
    (hw : off.toNat + cnt.toNat + bs.toNat - 1 < 2 ^ 64) :
    ((off + cnt + bs - 1) / bs).toNat = (off.toNat + cnt.toNat + bs.toNat - 1) / bs.toNat := by
  have hb0 : bs.toNat ≠ 0 := fun h => hb (UInt64.toNat_inj.mp h)
  have := bs.toNat_lt
  rw [UInt64.toNat_div, UInt64.toNat_sub, UInt64.toNat_add, UInt64.toNat_add, UInt64.toNat_one]
  congr 1
  omega

theorem dvd_of_mod {a b : UInt64} (h : a % b = 0) : b.toNat ∣ a.toNat := by
  apply Nat.dvd_of_mod_eq_zero
  rw [← UInt64.toNat_mod, h, UInt64.toNat_zero]

/-- A wrapped sum never ends past the start block. -/
theorem endBlock_le_start_of_wrap {bs off cnt : UInt64} (hb : bs ≠ 0)
    (ha : Aligned bs off cnt) (hw : ¬ off.toNat + cnt.toNat + bs.toNat - 1 < 2 ^ 64) :
    ((off + cnt + bs - 1) / bs).toNat ≤ (off / bs).toNat := by
  obtain ⟨k, hk⟩ := dvd_of_mod ha.1
  have hb0 : 0 < bs.toNat := Nat.pos_of_ne_zero fun h => hb (UInt64.toNat_inj.mp h)
  have h1 := off.toNat_lt
  have h2 := cnt.toNat_lt
  have h3 := bs.toNat_lt
  have hsum : (off + cnt + bs - 1).toNat < off.toNat + bs.toNat := by
    rw [UInt64.toNat_sub, UInt64.toNat_add, UInt64.toNat_add, UInt64.toNat_one]
    omega
  rw [UInt64.toNat_div, UInt64.toNat_div, hk, Nat.mul_div_cancel_left _ hb0]
  apply Nat.le_of_lt_succ
  rw [Nat.div_lt_iff_lt_mul hb0, Nat.succ_mul, Nat.mul_comm k]
  omega


theorem ceil_le_iff {x b n : Nat} (hb : 0 < b) : (x + b - 1) / b ≤ n ↔ x ≤ n * b := by
  rw [← Nat.lt_succ_iff, Nat.div_lt_iff_lt_mul hb, Nat.succ_mul]
  omega

theorem start_lt_ceil {o c b : Nat} (hb : 0 < b) (hc : c ≠ 0) : o / b < (o + c + b - 1) / b := by
  rw [Nat.lt_iff_add_one_le, ← Nat.add_div_right _ hb]
  exact Nat.div_le_div_right (by omega)

theorem sub_eq_zero_iff {a b : UInt64} : a - b = 0 ↔ a = b := by
  constructor
  · intro h
    have := congrArg (· + b) h
    simpa using this
  · rintro rfl
    simp

section
variable {bs f n off cnt : UInt64} {mk : UInt64 → UInt64 → Request}
  {issue : UInt64 → UInt64 → Bool × List UInt8} {buf : List UInt8}

/-- The four ways a transfer can end. -/
theorem transfer_cases (bs f n off cnt : UInt64) (mk : UInt64 → UInt64 → Request)
    (issue : UInt64 → UInt64 → Bool × List UInt8) (buf : List UInt8) :
    ((off + cnt + bs - 1) / bs = off / bs ∧
      transfer bs f n mk issue off cnt buf = ⟨.ok 0, buf, []⟩) ∨
    ((off + cnt + bs - 1) / bs ≠ off / bs ∧ ¬ Aligned bs off cnt ∧
      transfer bs f n mk issue off cnt buf = ⟨.error .invalidParameter, buf, []⟩) ∨
    ((off + cnt + bs - 1) / bs ≠ off / bs ∧ Aligned bs off cnt ∧
      n < (off + cnt + bs - 1) / bs ∧
      transfer bs f n mk issue off cnt buf = ⟨.error .outOfBounds, buf, []⟩) ∨
    ((off + cnt + bs - 1) / bs ≠ off / bs ∧ Aligned bs off cnt ∧
      (off + cnt + bs - 1) / bs ≤ n ∧
      (transfer bs f n mk issue off cnt buf).requests =
        [mk (f + off / bs) ((off + cnt + bs - 1) / bs - off / bs)]) := by
  unfold transfer Aligned
  simp only [sub_eq_zero_iff, gt_iff_lt, ne_eq]
  by_cases h0 : (off + cnt + bs - 1) / bs = off / bs
  · left
    simp [h0]
  by_cases ha : off % bs = 0 ∧ cnt % bs = 0
  · right; right
    by_cases hn : n < (off + cnt + bs - 1) / bs
    · left
      simp [h0, ha, hn]
    · right
      simp [h0, ha, hn, UInt64.not_lt.mp hn]
  · right; left
    refine ⟨h0, ha, ?_⟩
    rw [if_neg h0, if_pos (Classical.not_and_iff_not_or_not.mp ha)]

theorem confined_of_error {e : Status} {b : List UInt8} :
    Confined bs f n off cnt ⟨.error e, b, []⟩ :=
  ⟨by simp, fun _ => ⟨⟨e, rfl⟩, rfl⟩⟩

theorem confined_zero_iff {b : List UInt8} :
    Confined bs f n off cnt ⟨.ok 0, b, []⟩ ↔ ¬ Outside bs n off cnt := by
  constructor
  · intro h ho
    obtain ⟨⟨e, he⟩, -⟩ := h.refused ho
    cases he
  · intro h
    exact ⟨by simp, fun ho => absurd ho h⟩

/-- A transfer whose sum does not wrap is confined iff its first block does not. -/
theorem transfer_confined_of_fits (hb : bs ≠ 0) (hs : ∀ s k, (mk s k).start = s.toNat)
    (hk : ∀ s k, (mk s k).blocks = k.toNat)
    (hw : off.toNat + cnt.toNat + bs.toNat - 1 < 2 ^ 64) :
    Confined bs f n off cnt (transfer bs f n mk issue off cnt buf) ↔
      (Aligned bs off cnt → cnt ≠ 0 → off.toNat + cnt.toNat ≤ n.toNat * bs.toNat →
        f.toNat + off.toNat / bs.toNat < 2 ^ 64) := by
  have hb0 : 0 < bs.toNat := Nat.pos_of_ne_zero fun h => hb (UInt64.toNat_inj.mp h)
  have hend := endBlock_toNat hb hw
  have hstart : (off / bs).toNat = off.toNat / bs.toNat := UInt64.toNat_div _ _
  have hne : cnt ≠ 0 → (off + cnt + bs - 1) / bs ≠ off / bs := by
    intro hc he
    have hc' : cnt.toNat ≠ 0 := fun h => hc (UInt64.toNat_inj.mp h)
    have h1 := start_lt_ceil (o := off.toNat) hb0 hc'
    have h2 := congrArg UInt64.toNat he
    omega
  have hle : (off + cnt + bs - 1) / bs ≤ n ↔ off.toNat + cnt.toNat ≤ n.toNat * bs.toNat := by
    rw [UInt64.le_iff_toNat_le, hend, ceil_le_iff hb0]
  rcases transfer_cases bs f n off cnt mk issue buf with
    ⟨he, ht⟩ | ⟨he, ha, ht⟩ | ⟨he, ha, hn, ht⟩ | ⟨he, ha, hn, ht⟩
  · rw [ht, confined_zero_iff]
    have hc : cnt = 0 := Classical.byContradiction fun hc => hne hc he
    simp [Outside, hc]
  · rw [ht]
    exact ⟨fun _ h => absurd h ha, fun _ => confined_of_error⟩
  · rw [ht]
    refine ⟨fun _ _ _ h => ?_, fun _ => confined_of_error⟩
    exact absurd (hle.mpr h) (UInt64.not_le.mpr hn)
  · have hfit := hle.mp hn
    have hc : cnt ≠ 0 := by
      rintro rfl
      obtain ⟨k, hk'⟩ := dvd_of_mod ha.1
      apply he
      apply UInt64.toNat_inj.mp
      rw [hend, hstart, hk', UInt64.toNat_zero, Nat.mul_div_cancel_left _ hb0, Nat.add_zero,
        Nat.add_sub_assoc hb0, Nat.mul_add_div hb0, Nat.div_eq_of_lt (by omega), Nat.add_zero]
    have hlt := start_lt_ceil (o := off.toNat) hb0 (fun h => hc (UInt64.toNat_inj.mp h))
    have hblocks : ((off + cnt + bs - 1) / bs - off / bs).toNat =
        (off.toNat + cnt.toNat + bs.toNat - 1) / bs.toNat - off.toNat / bs.toNat := by
      rw [UInt64.toNat_sub_of_le _ _ (by rw [UInt64.le_iff_toNat_le]; omega), hend, hstart]
    have hn' : (off.toNat + cnt.toNat + bs.toNat - 1) / bs.toNat ≤ n.toNat := by
      rw [← hend]; exact UInt64.le_iff_toNat_le.mp hn
    have hf := f.toNat_lt
    have hadd : (f + off / bs).toNat = (f.toNat + off.toNat / bs.toNat) % 2 ^ 64 := by
      rw [UInt64.toNat_add, hstart]
    constructor
    · intro h _ _ _
      have hr := (h.inside _ (by rw [ht]; exact List.mem_singleton_self _)).1
      rw [hs, hadd] at hr
      have : off.toNat / bs.toNat ≤ off.toNat := Nat.div_le_self _ _
      have := off.toNat_lt
      omega
    · intro h
      have hfs := h ha hc hfit
      refine ⟨?_, fun ho => absurd ho.2 (by omega)⟩
      intro r hr
      rw [ht, List.mem_singleton] at hr
      subst hr
      unfold Request.Within
      rw [hs, hk, hadd, hblocks]
      omega

/-- A transfer whose sum wraps is confined iff the wrapped end block stops it. -/
theorem transfer_confined_of_wraps (hb : bs ≠ 0) (hs : ∀ s k, (mk s k).start = s.toNat)
    (hk : ∀ s k, (mk s k).blocks = k.toNat)
    (hw : ¬ off.toNat + cnt.toNat + bs.toNat - 1 < 2 ^ 64) :
    Confined bs f n off cnt (transfer bs f n mk issue off cnt buf) ↔
      if (off + cnt + bs - 1) / bs = off / bs then ¬ Outside bs n off cnt
      else ¬ Aligned bs off cnt ∨ n < (off + cnt + bs - 1) / bs := by
  rcases transfer_cases bs f n off cnt mk issue buf with
    ⟨he, ht⟩ | ⟨he, ha, ht⟩ | ⟨he, ha, hn, ht⟩ | ⟨he, ha, hn, ht⟩
  · rw [ht, if_pos he, confined_zero_iff]
  · rw [ht, if_neg he]
    exact ⟨fun _ => .inl ha, fun _ => confined_of_error⟩
  · rw [ht, if_neg he]
    exact ⟨fun _ => .inr hn, fun _ => confined_of_error⟩
  · rw [if_neg he]
    -- the end block lies before the start block, so the block count wraps past the range
    refine ⟨fun h => ?_, fun h => ?_⟩
    · exfalso
      have hr := h.inside _ (by rw [ht]; exact List.mem_singleton_self _)
      unfold Request.Within at hr
      have hle := endBlock_le_start_of_wrap hb ha hw
      have hne : ((off + cnt + bs - 1) / bs).toNat ≠ (off / bs).toNat :=
        fun h => he (UInt64.toNat_inj.mp h)
      rw [hs, hk, UInt64.toNat_add, UInt64.toNat_sub] at hr
      have := f.toNat_lt
      have := n.toNat_lt
      have := (off / bs).toNat_lt
      omega
    · rcases h with h | h
      · exact absurd ha h
      · exact absurd hn (UInt64.not_le.mpr h)

/-- **Exact condition.** A transfer is confined iff its arguments keep it inside. -/
theorem transfer_confined_iff (hb : bs ≠ 0) (hs : ∀ s k, (mk s k).start = s.toNat)
    (hk : ∀ s k, (mk s k).blocks = k.toNat) :
    Confined bs f n off cnt (transfer bs f n mk issue off cnt buf) ↔
      KeepsInside bs f n off cnt := by
  unfold KeepsInside
  split
  · rename_i hw
    exact transfer_confined_of_fits hb hs hk hw
  · rename_i hw
    exact transfer_confined_of_wraps hb hs hk hw

end

/-- A block whose end is addressable is passed on iff it is one of the device's. -/
theorem device_read_block_iff {i : Interface} {n : UInt64} {buffer : List UInt8} (hb : i.getBlockSize ≠ 0)
    (hfit : (n.toNat + 2) * i.getBlockSize.toNat ≤ 2 ^ 64) :
    (Device.read i (n * i.getBlockSize) i.getBlockSize buffer).requests ≠ [] ↔ n.toNat < i.getBlocksCount.toNat := by
  have hb0 : 0 < i.getBlockSize.toNat := Nat.pos_of_ne_zero fun h => hb (UInt64.toNat_inj.mp h)
  rw [Nat.add_mul] at hfit
  have hoff : (n * i.getBlockSize).toNat = n.toNat * i.getBlockSize.toNat := by
    rw [UInt64.toNat_mul, Nat.mod_eq_of_lt (by omega)]
  have hstart : (n * i.getBlockSize / i.getBlockSize).toNat = n.toNat := by
    rw [UInt64.toNat_div, hoff, Nat.mul_div_cancel _ hb0]
  have hend : ((n * i.getBlockSize + i.getBlockSize + i.getBlockSize - 1) / i.getBlockSize).toNat = n.toNat + 1 := by
    rw [endBlock_toNat hb (by rw [hoff]; omega), hoff, Nat.mul_comm, ← Nat.mul_succ, Nat.add_sub_assoc hb0,
      Nat.mul_add_div hb0, Nat.div_eq_of_lt (by omega), Nat.add_zero]
  have haligned : Aligned i.getBlockSize (n * i.getBlockSize) i.getBlockSize := by
    constructor
    · apply UInt64.toNat_inj.mp
      rw [UInt64.toNat_mod, hoff, Nat.mul_mod_left]
      rfl
    · apply UInt64.toNat_inj.mp
      rw [UInt64.toNat_mod, Nat.mod_self]
      rfl
  rcases transfer_cases i.getBlockSize 0 i.getBlocksCount (n * i.getBlockSize) i.getBlockSize .read
      (fun s n => i.readBlocks s n buffer) buffer with ⟨he, _⟩ | ⟨_, ha, _⟩ | ⟨_, _, hn, ht⟩ | ⟨_, _, hn, ht⟩
  · rw [he] at hend
    omega
  · exact absurd haligned ha
  · rw [UInt64.lt_iff_toNat_lt, hend] at hn
    simp only [Device.read, ht, ne_eq, not_true_eq_false, false_iff]
    omega
  · rw [UInt64.le_iff_toNat_le, hend] at hn
    simp only [Device.read, ht, ne_eq, reduceCtorEq, not_false_eq_true, true_iff]
    omega

/-- Partition and device accesses are confined exactly when their arguments keep them
inside: in particular whenever `offset + count + blockSize - 1` fits in 64 bits and the
partition ends below block 2^64. -/
theorem accesses_confined_iff (i : Interface) (hb : i.getBlockSize ≠ 0) (p : Partition)
    (offset count : UInt64) (buffer : List UInt8) :
    (Confined i.getBlockSize p.firstBlock p.blocksCount offset count
        (p.read i offset count buffer) ↔
      KeepsInside i.getBlockSize p.firstBlock p.blocksCount offset count) ∧
    (Confined i.getBlockSize p.firstBlock p.blocksCount offset count
        (p.write i offset count buffer) ↔
      KeepsInside i.getBlockSize p.firstBlock p.blocksCount offset count) ∧
    (Confined i.getBlockSize 0 i.getBlocksCount offset count
        (Device.read i offset count buffer) ↔
      KeepsInside i.getBlockSize 0 i.getBlocksCount offset count) ∧
    (Confined i.getBlockSize 0 i.getBlocksCount offset count
        (Device.write i offset count buffer) ↔
      KeepsInside i.getBlockSize 0 i.getBlocksCount offset count) :=
  ⟨transfer_confined_iff hb (fun _ _ => rfl) (fun _ _ => rfl),
    transfer_confined_iff hb (fun _ _ => rfl) (fun _ _ => rfl),
    transfer_confined_iff hb (fun _ _ => rfl) (fun _ _ => rfl),
    transfer_confined_iff hb (fun _ _ => rfl) (fun _ _ => rfl)⟩

/-- A disk of 4096 sectors that answers every request. -/
def sectorDisk : Interface := ⟨4096, 512, fun _ _ b => (true, b), fun _ _ _ => true⟩

theorem accesses_confined_sectorDisk :
    sectorDisk.getBlockSize ≠ 0 ∧
      Confined 512 2048 100 512 1024 (Partition.read sectorDisk ⟨2048, 100⟩ 512 1024 []) :=
  ⟨by decide, (accesses_confined_iff sectorDisk (by decide) ⟨2048, 100⟩ 512 1024 []).1.mpr
    (by decide)⟩

/-- A partition of 100 blocks asked for two sectors at offset `2^64 - 512`: the sum wraps
to 512, the end block to 1, and a request for `2^64 - 2^55 + 2` blocks is issued. -/
theorem partition_read_escapes :
    (Partition.read sectorDisk ⟨2048, 100⟩ 0xFFFFFFFFFFFFFE00 1024 []).requests =
        [.read 0x800000000007FF 0xFF80000000000002] ∧
      ¬ Confined 512 2048 100 0xFFFFFFFFFFFFFE00 1024
        (Partition.read sectorDisk ⟨2048, 100⟩ 0xFFFFFFFFFFFFFE00 1024 []) := by
  have hr : (Partition.read sectorDisk ⟨2048, 100⟩ 0xFFFFFFFFFFFFFE00 1024 []).requests =
      [.read 0x800000000007FF 0xFF80000000000002] := by decide
  refine ⟨hr, fun h => ?_⟩
  have := (h.inside _ (by rw [hr]; exact List.mem_singleton_self _)).2
  revert this
  decide

end BadLands.Devices.Block
