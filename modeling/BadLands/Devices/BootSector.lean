import BadLands.Devices.AddDevice
import Mathlib.Tactic.IntervalCases

/-!
# The boot sector and the header, byte by byte

`Device::AddDevice` reads block 0 into a buffer of one block, takes a boot sector of 512 bytes out of
it (`MBR::FromBytes`), and, where that is protective, reads block 1 and takes it for the header of a
partition table (`GPT::IsValid`). `loadSectors` is that part of it with a trace of what it loads from
the two buffers.

`FromBytes` does not ask how long a block is, and it returns null for a sector without the signature;
`AddDevice` does not ask whether it did. `loadSectors_safe_iff` says when no load is out of bounds or
through null.
-/
namespace BadLands.Devices.BootSector

open BadLands.Core BadLands.Devices.Gpt
open BadLands.Devices.AddDevice (Environment loadHeader)

/-- A load from one of the buffers, or from the boot sector object through null. -/
inductive Access where
  | bootSector (offset length : Nat)
  | nullMBR
  | header (offset length : Nat)
  deriving DecidableEq, Repr

/-- The load lies in its buffer, which has one block. -/
def Access.Safe (blockSize : Nat) : Access → Prop
  | .bootSector offset length => offset + length ≤ blockSize
  | .nullMBR => False
  | .header offset length => offset + length ≤ blockSize

/-! ## The boot sector -/

/-- mirrors kernel/src/devices/Block/Device.cpp:48-54 -/
structure PartitionEntry where
  bootIndicator : BitVec 8
  startChs : List (BitVec 8)
  partitionType : BitVec 8
  endChs : List (BitVec 8)
  startLba : Nat
  lbaCount : Nat

/-- mirrors kernel/src/devices/Block/Device.cpp:56-63 -/
def PartitionEntry.isZero (p : PartitionEntry) : Bool :=
  p.bootIndicator == 0 && p.startChs == [0, 0, 0] && p.partitionType == 0 && p.endChs == [0, 0, 0] &&
    p.startLba == 0 && p.lbaCount == 0

/-- mirrors kernel/src/devices/Block/Device.cpp:37-66 -/
structure MBR where
  bootCode : List (BitVec 8)
  diskSignature : Nat
  partitions : Nat → PartitionEntry
  signature : Nat

namespace MBR

def bootCodeLength : Nat := 440
def diskSignatureOffset : Nat := bootCodeLength
def partitionEntriesOffset : Nat := diskSignatureOffset + 4 + 2
def partitionEntrySize : Nat := 16
def signatureOffset : Nat := 510

def entryOffset (i : Nat) : Nat := partitionEntriesOffset + i * partitionEntrySize

/-- The loads of a turn of the loop. -/
def entryAccesses (i : Nat) : List Access :=
  [.bootSector (entryOffset i) 1, .bootSector (entryOffset i + 1) 3, .bootSector (entryOffset i + 4) 1,
    .bootSector (entryOffset i + 5) 3, .bootSector (entryOffset i + 8) 4, .bootSector (entryOffset i + 12) 4]

/-- `allocated`: whether there is memory for the object.
mirrors kernel/src/devices/Block/Device.cpp:68-97 -/
def fromBytes (data : ByteMemory) (allocated : Bool) : Option MBR × List Access :=
  if !allocated then (none, [])
  else
    let mbr : MBR :=
      { bootCode := data.bytes 0 bootCodeLength
        diskSignature := data.read diskSignatureOffset 4
        partitions := fun i =>
          { bootIndicator := data (entryOffset i)
            startChs := data.bytes (entryOffset i + 1) 3
            partitionType := data (entryOffset i + 4)
            endChs := data.bytes (entryOffset i + 5) 3
            startLba := data.read (entryOffset i + 8) 4
            lbaCount := data.read (entryOffset i + 12) 4 }
        signature := data.read signatureOffset 2 }
    let accesses := .bootSector 0 bootCodeLength :: .bootSector diskSignatureOffset 4 ::
      ((List.range 4).flatMap entryAccesses ++ [.bootSector signatureOffset 2])
    if mbr.signature ≠ 0xAA55 then (none, accesses) else (some mbr, accesses)

/-- The loop over the partitions: the one that is not empty, if there is one; `none` when there is
more than one. -/
def nonEmptyPartition (mbr : MBR) : List Nat → Option Nat → Option (Option Nat)
  | [], found => some found
  | i :: is, found =>
    if (mbr.partitions i).isZero then mbr.nonEmptyPartition is found
    else match found with
      | some _ => none
      | none => mbr.nonEmptyPartition is (some i)

/-- mirrors kernel/src/devices/Block/Device.cpp:99-127 -/
def isProtective (mbr : MBR) : Bool :=
  match mbr.nonEmptyPartition (List.range 4) none with
  | some (some i) =>
    let partition := mbr.partitions i
    partition.startChs == [0, 2, 0] && partition.partitionType == 0xEE && partition.startLba == 1
  | _ => false

end MBR

/-! ## The header -/

/-- The fields that `IsPartitionArrayValid` loads. -/
def arrayAccesses : List Access := [.header 84 4, .header 80 4, .header 72 8, .header 88 4]

/-- The loads of `IsValid`, each field once.
mirrors kernel/src/devices/Block/Device.cpp:197-225 -/
def validAccesses (g : GPT) (lba blockSize : Nat) : List Access :=
  .header 0 8 ::
    if g.signature ≠ 0x5452415020494645 then []
    else .header 12 4 ::
      if g.headerSize < 92 ∨ g.headerSize > blockSize then []
      else .header 24 8 ::
        if g.myLba ≠ lba then []
        else [.header 16 4, .header 0 g.headerSize] ++
          if (Crypto.CRC32 g.summed).toNat ≠ g.headerCrc32 then [] else arrayAccesses

/-! ## The device -/

/-- `mbr->IsProtective()`. -/
def callIsProtective (o : Environment) : Option MBR → Bool × List Access
  | none => (o.atNull, [.nullMBR])
  | some mbr => (mbr.isProtective, [])

/-- Block 1.
mirrors kernel/src/devices/Block/Device.cpp:526-544 -/
def loadHeaderSector (m : Medium) (o : Environment) : Except Bool (GPT × Nat) × List Access :=
  if !o.gptSector then (.error true, [])
  else match m.readBlocks 1 1 1 with
    | none => (.error true, [])
    | some sector =>
      let accesses := validAccesses ⟨sector⟩ 1 m.getBlockSize
      match (GPT.mk sector).isValid 1 m.getBlockSize m o.batch 2 with
      | (false, _) => (.error true, accesses)
      | (true, reads) => (.ok (⟨sector⟩, reads), accesses)

/-- Up to the header of the partition table, with the loads.
mirrors kernel/src/devices/Block/Device.cpp:481-544 -/
def loadSectors (m : Medium) (o : Environment) : Except Bool (GPT × Nat) × List Access :=
  if !o.bootSector then (.error false, [])
  else match m.readBlocks 0 0 1 with
    | none => (.error false, [])
    | some sector =>
      let mbr := MBR.fromBytes sector o.mbr
      if !o.device || !o.name || !o.addNode then (.error false, mbr.2)
      else
        let protective := callIsProtective o mbr.1
        if !protective.1 then (.error true, mbr.2 ++ protective.2)
        else
          let header := loadHeaderSector m o
          (header.1, mbr.2 ++ protective.2 ++ header.2)

/-! ## The same, without the loads -/

section
variable {data : ByteMemory} {o : Environment} {m : Medium}

theorem entryOffset_eq (i : Nat) : MBR.entryOffset i = AddDevice.entryOffset i := by
  unfold MBR.entryOffset AddDevice.entryOffset MBR.partitionEntriesOffset MBR.diskSignatureOffset MBR.bootCodeLength
    MBR.partitionEntrySize
  omega

/-- A number is zero iff its bytes are. -/
theorem read_eq_zero (a n : Nat) : data.read a n = 0 ↔ ∀ i, i < n → data (a + i) = 0 := by
  induction n generalizing a with
  | zero => simp [ByteMemory.read]
  | succ n ih =>
    rw [ByteMemory.read]
    constructor
    · intro h i hi
      cases i with
      | zero => exact BitVec.eq_of_toNat_eq (show (data a).toNat = 0 by omega)
      | succ i =>
        have hrest := (ih (a + 1)).mp (by omega) i (by omega)
        rwa [Nat.add_assoc, Nat.add_comm 1] at hrest
    · intro h
      have hfirst : data a = 0 := h 0 (Nat.succ_pos n)
      have hrest : data.read (a + 1) n = 0 := (ih (a + 1)).mpr fun i hi => by
        rw [Nat.add_assoc, Nat.add_comm 1]
        exact h (i + 1) (by omega)
      rw [hfirst, hrest]
      rfl

theorem all_zero_iff (a n : Nat) : (data.bytes a n).all (· == 0) = true ↔ ∀ i, i < n → data (a + i) = 0 := by
  simp [ByteMemory.bytes]

theorem bytes3_eq (a : Nat) : data.bytes a 3 = [data a, data (a + 1), data (a + 2)] := rfl

/-- The boot sector of the bytes. -/
theorem fromBytes_some {mbr : MBR} (h : (MBR.fromBytes data true).1 = some mbr) :
    data.read 510 2 = 0xAA55 ∧ ∀ i, mbr.partitions i =
      { bootIndicator := data (MBR.entryOffset i)
        startChs := data.bytes (MBR.entryOffset i + 1) 3
        partitionType := data (MBR.entryOffset i + 4)
        endChs := data.bytes (MBR.entryOffset i + 5) 3
        startLba := data.read (MBR.entryOffset i + 8) 4
        lbaCount := data.read (MBR.entryOffset i + 12) 4 } := by
  unfold MBR.fromBytes at h
  simp only [Bool.not_true, Bool.false_eq_true, if_false] at h
  split at h
  · cases h
  · next hsig =>
    obtain rfl := Option.some.inj h
    exact ⟨Decidable.not_not.mp hsig, fun _ => rfl⟩

theorem fromBytes_none (h : (MBR.fromBytes data true).1 = none) : data.read 510 2 ≠ 0xAA55 := by
  unfold MBR.fromBytes at h
  simp only [Bool.not_true, Bool.false_eq_true, if_false] at h
  split at h
  · next hsig => exact hsig
  · cases h

theorem isZero_eq {mbr : MBR} (h : (MBR.fromBytes data true).1 = some mbr) (i : Nat) :
    (mbr.partitions i).isZero = AddDevice.isZero data (AddDevice.entryOffset i) := by
  rw [(fromBytes_some h).2 i, ← entryOffset_eq, Bool.eq_iff_iff, AddDevice.isZero, all_zero_iff]
  generalize MBR.entryOffset i = a
  unfold PartitionEntry.isZero
  simp only [bytes3_eq, Bool.and_eq_true, beq_iff_eq, List.cons.injEq, and_true, read_eq_zero]
  constructor
  · rintro ⟨⟨⟨⟨⟨h0, h1, h2, h3⟩, h4⟩, h5, h6, h7⟩, hlba⟩, hcount⟩ k hk
    rcases Nat.lt_or_ge k 8 with hlow | hhigh
    · interval_cases k <;> assumption
    · rcases Nat.lt_or_ge k 12 with hmid | htop
      · have hk' := hlba (k - 8) (by omega)
        rwa [show a + 8 + (k - 8) = a + k by omega] at hk'
      · have hk' := hcount (k - 12) (by omega)
        rwa [show a + 12 + (k - 12) = a + k by omega] at hk'
  · intro hall
    refine ⟨⟨⟨⟨⟨hall 0 (by decide), hall 1 (by decide), hall 2 (by decide), hall 3 (by decide)⟩, hall 4 (by decide)⟩,
      hall 5 (by decide), hall 6 (by decide), hall 7 (by decide)⟩, fun k hk => ?_⟩, fun k hk => ?_⟩
    · rw [Nat.add_assoc]
      exact hall (8 + k) (by omega)
    · rw [Nat.add_assoc]
      exact hall (12 + k) (by omega)

/-- The loop finds the one entry that is not empty. -/
theorem nonEmptyPartition_eq (mbr : MBR) : mbr.nonEmptyPartition (List.range 4) none =
    match (List.range 4).filter fun i => !(mbr.partitions i).isZero with
    | [] => some none
    | [i] => some (some i)
    | _ => none := by
  rw [show List.range 4 = [0, 1, 2, 3] from rfl]
  cases h0 : (mbr.partitions 0).isZero <;> cases h1 : (mbr.partitions 1).isZero <;>
    cases h2 : (mbr.partitions 2).isZero <;> cases h3 : (mbr.partitions 3).isZero <;>
    simp [MBR.nonEmptyPartition, h0, h1, h2, h3]

theorem isProtective_eq {mbr : MBR} {atNull : Bool} (h : (MBR.fromBytes data true).1 = some mbr) :
    mbr.isProtective = AddDevice.isProtective data true atNull := by
  obtain ⟨hsig, hparts⟩ := fromBytes_some h
  have hfilter : ((List.range 4).filter fun i => !(mbr.partitions i).isZero) =
      (List.range 4).filter fun i => !AddDevice.isZero data (AddDevice.entryOffset i) := by
    congr 1
    funext i
    rw [isZero_eq h]
  unfold MBR.isProtective AddDevice.isProtective
  rw [nonEmptyPartition_eq, hfilter]
  simp only [hsig, beq_self_eq_true, Bool.and_self, if_true]
  generalize (List.range 4).filter _ = used
  match used with
  | [] => rfl
  | [i] =>
    simp only [hparts i, entryOffset_eq]
  | _ :: _ :: _ => rfl

theorem callIsProtective_eq (data : ByteMemory) (o : Environment) :
    (callIsProtective o (MBR.fromBytes data o.mbr).1).1 = AddDevice.isProtective data o.mbr o.atNull := by
  cases hmbr : o.mbr with
  | false => rfl
  | true =>
    cases hbytes : (MBR.fromBytes data true).1 with
    | none =>
      have hsig := fromBytes_none hbytes
      simp [callIsProtective, AddDevice.isProtective, hsig]
    | some mbr => exact isProtective_eq hbytes

/-- The trace belongs to `loadHeader`. -/
theorem loadSectors_result (m : Medium) (o : Environment) : (loadSectors m o).1 = loadHeader m o := by
  unfold loadSectors loadHeader loadHeaderSector
  cases o.bootSector with
  | false => rfl
  | true =>
    cases m.readBlocks 0 0 1 with
    | none => rfl
    | some sector =>
      simp only [Bool.not_true, Bool.false_eq_true, if_false, callIsProtective_eq]
      split
      · rfl
      · split
        · rfl
        · split
          · rfl
          · cases m.readBlocks 1 1 1 with
            | none => rfl
            | some header =>
              simp only
              rcases (GPT.mk header).isValid 1 m.getBlockSize m o.batch 2 with ⟨_ | _, reads⟩ <;> rfl

/-! ## When every load is in bounds -/

theorem validAccesses_safe {g : GPT} {lba blockSize : Nat} (h : 512 ≤ blockSize) :
    ∀ a ∈ validAccesses g lba blockSize, a.Safe blockSize := by
  have hfield : ∀ offset length, offset + length ≤ 512 → (Access.header offset length).Safe blockSize :=
    fun offset length hle => Nat.le_trans hle h
  intro a ha
  unfold validAccesses at ha
  rcases List.mem_cons.mp ha with rfl | ha
  · exact hfield 0 8 (by decide)
  split at ha
  · cases ha
  rcases List.mem_cons.mp ha with rfl | ha
  · exact hfield 12 4 (by decide)
  split at ha
  · cases ha
  next hsize =>
  rcases List.mem_cons.mp ha with rfl | ha
  · exact hfield 24 8 (by decide)
  split at ha
  · cases ha
  rcases List.mem_append.mp ha with ha | ha
  · simp only [List.mem_cons, List.not_mem_nil, or_false] at ha
    rcases ha with rfl | rfl
    · exact hfield 16 4 (by decide)
    · -- the checksum goes over the length that the header gives
      show 0 + g.headerSize ≤ blockSize
      omega
  split at ha
  · cases ha
  · simp only [arrayAccesses, List.mem_cons, List.not_mem_nil, or_false] at ha
    rcases ha with rfl | rfl | rfl | rfl
    · exact hfield 84 4 (by decide)
    · exact hfield 80 4 (by decide)
    · exact hfield 72 8 (by decide)
    · exact hfield 88 4 (by decide)

theorem fromBytes_safe_iff (allocated : Bool) (blockSize : Nat) :
    (∀ a ∈ (MBR.fromBytes data allocated).2, a.Safe blockSize) ↔ (allocated = true → 512 ≤ blockSize) := by
  cases allocated with
  | false =>
    constructor
    · intro _ h
      cases h
    · intro _ a ha
      cases ha
  | true =>
    have haccesses : (MBR.fromBytes data true).2 = .bootSector 0 440 :: .bootSector 440 4 ::
        ((List.range 4).flatMap MBR.entryAccesses ++ [.bootSector 510 2]) := by
      unfold MBR.fromBytes
      simp only [Bool.not_true, Bool.false_eq_true, if_false]
      split <;> rfl
    rw [haccesses]
    constructor
    · intro h _
      exact h (.bootSector 510 2) (by simp)
    · intro h a ha
      have hsize := h rfl
      have hall : ∀ a ∈ Access.bootSector 0 440 :: .bootSector 440 4 ::
          ((List.range 4).flatMap MBR.entryAccesses ++ [.bootSector 510 2]), ∃ offset length,
          a = .bootSector offset length ∧ offset + length ≤ 512 := by
        simp [MBR.entryAccesses, List.range_succ, MBR.entryOffset, MBR.partitionEntriesOffset, MBR.diskSignatureOffset,
          MBR.bootCodeLength, MBR.partitionEntrySize]
      obtain ⟨offset, length, rfl, hle⟩ := hall a ha
      exact Nat.le_trans hle hsize

end

/-- What the blocks and the allocations have to be. -/
def SectorsOk (m : Medium) (o : Environment) : Prop :=
  o.bootSector = true → ∀ sector, m.readBlocks 0 0 1 = some sector →
    (o.mbr = true → 512 ≤ m.getBlockSize) ∧
    (o.device = true → o.name = true → o.addNode = true → o.mbr = true ∧ sector.read 510 2 = 0xAA55)

theorem loadHeaderSector_safe {m : Medium} {o : Environment} (h : 512 ≤ m.getBlockSize) :
    ∀ a ∈ (loadHeaderSector m o).2, a.Safe m.getBlockSize := by
  intro a ha
  unfold loadHeaderSector at ha
  split at ha
  · cases ha
  · cases hread : m.readBlocks 1 1 1 with
    | none =>
      rw [hread] at ha
      cases ha
    | some sector =>
      rw [hread] at ha
      simp only at ha
      split at ha
      · exact validAccesses_safe h a ha
      · exact validAccesses_safe h a ha

theorem fromBytes_none_iff {data : ByteMemory} {allocated : Bool} :
    (MBR.fromBytes data allocated).1 = none ↔ ¬ (allocated = true ∧ data.read 510 2 = 0xAA55) := by
  cases allocated with
  | false =>
    constructor
    · intro _ h
      exact Bool.false_ne_true h.1
    · intro _
      rfl
  | true =>
    constructor
    · exact fun h hsig => fromBytes_none h hsig.2
    · intro hsig
      cases h : (MBR.fromBytes data true).1 with
      | none => rfl
      | some mbr => exact absurd ⟨rfl, (fromBytes_some h).1⟩ hsig

/-- Once the device has been added. -/
theorem loadSectors_added_safe_iff {m : Medium} {o : Environment} {sector : ByteMemory} (hboot : o.bootSector = true)
    (hread : m.readBlocks 0 0 1 = some sector) (hadded : o.device = true ∧ o.name = true ∧ o.addNode = true) :
    (∀ a ∈ (loadSectors m o).2, a.Safe m.getBlockSize) ↔
      (o.mbr = true → 512 ≤ m.getBlockSize) ∧ o.mbr = true ∧ sector.read 510 2 = 0xAA55 := by
  have hmbr := @fromBytes_safe_iff sector o.mbr m.getBlockSize
  unfold loadSectors
  simp only [hboot, hread, hadded, Bool.not_true, Bool.or_self, Bool.false_eq_true, if_false]
  constructor
  · intro h
    have hsub : ∀ a, a ∈ (MBR.fromBytes sector o.mbr).2 ++ (callIsProtective o (MBR.fromBytes sector o.mbr).1).2 →
        a.Safe m.getBlockSize := by
      intro a ha
      apply h
      split
      · exact ha
      · exact List.mem_append_left _ ha
    refine ⟨hmbr.mp fun a ha => hsub a (List.mem_append_left _ ha), ?_⟩
    apply Decidable.byContradiction
    intro hnot
    exact hsub .nullMBR (by simp [fromBytes_none_iff.mpr hnot, callIsProtective])
  · rintro ⟨hsize, halloc, hsignature⟩ a ha
    cases hbytes : (MBR.fromBytes sector o.mbr).1 with
    | none => exact absurd ⟨halloc, hsignature⟩ (fromBytes_none_iff.mp hbytes)
    | some mbr =>
      simp only [hbytes, callIsProtective, List.append_nil] at ha
      split at ha
      · exact hmbr.mpr hsize a ha
      · rcases List.mem_append.mp ha with ha | ha
        · exact hmbr.mpr hsize a ha
        · exact loadHeaderSector_safe (hsize halloc) a ha

/-- The two sectors are taken apart without a load out of bounds or through null iff blocks have at
least 512 bytes and block 0 has the signature, once it has been read and the device has been added. -/
theorem loadSectors_safe_iff (m : Medium) (o : Environment) :
    (∀ a ∈ (loadSectors m o).2, a.Safe m.getBlockSize) ↔ SectorsOk m o := by
  have hnone : (loadSectors m o).2 = [] → ∀ a ∈ (loadSectors m o).2, a.Safe m.getBlockSize := by
    intro htrace a ha
    rw [htrace] at ha
    cases ha
  unfold SectorsOk
  cases hboot : o.bootSector with
  | false =>
    refine iff_of_true (hnone ?_) fun h => by cases h
    unfold loadSectors
    rw [hboot]
    rfl
  | true =>
    cases hread : m.readBlocks 0 0 1 with
    | none =>
      refine iff_of_true (hnone ?_) fun _ sector h => by cases h
      unfold loadSectors
      rw [hboot, hread]
      rfl
    | some sector =>
      by_cases hadded : o.device = true ∧ o.name = true ∧ o.addNode = true
      · rw [loadSectors_added_safe_iff hboot hread hadded]
        constructor
        · rintro ⟨hsize, hsig⟩ - _ ⟨⟩
          exact ⟨hsize, fun _ _ _ => hsig⟩
        · intro h
          obtain ⟨hsize, hsig⟩ := h rfl sector rfl
          exact ⟨hsize, hsig hadded.1 hadded.2.1 hadded.2.2⟩
      · have hfails : (!o.device || !o.name || !o.addNode) = true := by
          simp only [not_and_or, Bool.not_eq_true] at hadded
          rcases hadded with h | h | h <;> simp [h]
        have htrace : (loadSectors m o).2 = (MBR.fromBytes sector o.mbr).2 := by
          unfold loadSectors
          simp only [hboot, hread, Bool.not_true, Bool.false_eq_true, if_false, if_pos hfails]
        rw [htrace, fromBytes_safe_iff]
        constructor
        · rintro h - _ ⟨⟩
          exact ⟨h, fun hdevice hname hnode => absurd ⟨hdevice, hname, hnode⟩ hadded⟩
        · exact fun h => (h rfl sector rfl).1

/-- A blank disk: both blocks are zeros. -/
def blankDisk : Medium := ⟨2048, 512, fun _ _ _ => some fun _ => 0⟩

def plenty : Environment :=
  ⟨true, true, false, true, true, true, true, true, true, true, true, fun _ => true, fun _ => true⟩

/-- A blank block 0 gives no boot sector, and `IsProtective` is called through null. -/
theorem loadSectors_calls_null : .nullMBR ∈ (loadSectors blankDisk plenty).2 ∧
    ¬ ∀ m o, ∀ a ∈ (loadSectors m o).2, a.Safe m.getBlockSize := by
  have hnull : Access.nullMBR ∈ (loadSectors blankDisk plenty).2 := by decide
  exact ⟨hnull, fun h => h blankDisk plenty .nullMBR hnull⟩

end BadLands.Devices.BootSector
