import BadLands.Core.ByteMemory
import BadLands.Devices.Block
import BadLands.Usb.BulkOnly

/-!
# The SCSI driver: capacity and transfers

`Driver::ReadCapacity` asks for the capacity with READ CAPACITY(10) and, where that is at its end,
with READ CAPACITY(16). `ReadBlocks` and `WriteBlocks` split a transfer into commands of at most
the controller's transfer length; both are one loop (`transferBlocks`) over one command encoder
(`sendCommandFor`).

A command is its bytes, and `decode` is the device's reading of them. `Consecutive` says that a list
of commands covers a range of blocks piece after piece, each piece at its place in the buffer.

* `transfers_consecutive`: the commands of a successful call are `Consecutive`.
* `transfers_end_iff`: the loop steps by `limit / blockSize` blocks, which is no step for blocks
  longer than the limit, and its size is the product modulo `2 ^ 64`.
* `readCapacity_off_by_one`: the recorded number of blocks is the address of the last one.
-/
namespace BadLands.Devices.Scsi

open BadLands.Core

/-- The buffers of a command: the bytes of the command, and the address of the data.
mirrors kernel/include/devices/Storage/Controller.hpp:26-33 -/
structure CommandPayload where
  commandBuffer : List (BitVec 8)
  dataLength : UInt64
  dataBuffer : UInt64
  isInputTransfer : Bool
  lun : BitVec 8
  deriving DecidableEq, Repr

/-- What `SendCommand` returns and leaves in the data buffer. -/
structure Reply where
  success : Bool
  data : ByteMemory

/-- A controller with what it answers to its `i`-th command. The limit is a constant of the
controller's class and leaves room for one more block.
mirrors kernel/include/devices/Storage/Controller.hpp:35-37 -/
structure Controller where
  getMaxDataTransferLength : UInt64
  reply : Nat → Reply
  room : getMaxDataTransferLength.toNat + 2 ^ 32 ≤ 2 ^ 64

/-- The kernel's controller. -/
def bulkOnly (reply : Nat → Reply) : Controller where
  getMaxDataTransferLength := UInt64.ofNat Usb.BulkOnly.getMaxDataTransferLength
  reply := reply
  room := by decide

/-- The commands a controller has been sent. -/
abbrev Issued := List CommandPayload

def Controller.sendCommand (c : Controller) (payload : CommandPayload) (issued : Issued) : Reply × Issued :=
  (c.reply issued.length, issued ++ [payload])

/-- mirrors kernel/include/devices/Storage/SCSI/Driver.hpp:31-34 -/
structure CapacityInformation where
  blocksCount : UInt64
  blockSize : UInt64
  deriving DecidableEq, Repr

/-- mirrors kernel/include/devices/Storage/SCSI/Driver.hpp:36-48 -/
structure Driver where
  lun : BitVec 8
  capacity : CapacityInformation := ⟨0, 0⟩
  useExtendedMethods : Bool := false
  deriving DecidableEq, Repr

/-! ## The capacity -/

/-- `rawResponse`: where the response is on the stack.
mirrors kernel/src/devices/Storage/SCSI/Driver.cpp:33-62 -/
def readCapacity10 (c : Controller) (d : Driver) (rawResponse : UInt64) (issued : Issued) :
    Option CapacityInformation × Issued :=
  let r := c.sendCommand ⟨[0x25, 0, 0, 0, 0, 0, 0, 0, 0, 0], 8, rawResponse, true, d.lun⟩ issued
  if !r.1.success then (none, r.2)
  else
    (some
      { blocksCount := UInt64.ofNat (ByteMemory.byteswap 4 (r.1.data.read 0 4))
        blockSize := UInt64.ofNat (ByteMemory.byteswap 4 (r.1.data.read 4 4)) },
      r.2)

/-- mirrors kernel/src/devices/Storage/SCSI/Driver.cpp:64-90 -/
def readCapacity16 (c : Controller) (d : Driver) (rawResponse : UInt64) (issued : Issued) :
    Option CapacityInformation × Issued :=
  let r := c.sendCommand ⟨[0x9E, 0x10, 0, 0, 0, 0, 0, 0, 0, 0, 0, 0, 0, 12, 0, 0], 12, rawResponse, true, d.lun⟩ issued
  if !r.1.success then (none, r.2)
  else
    (some
      { blocksCount := UInt64.ofNat (ByteMemory.byteswap 8 (r.1.data.read 0 8))
        blockSize := UInt64.ofNat (ByteMemory.byteswap 4 (r.1.data.read 8 4)) },
      r.2)

/-- mirrors kernel/src/devices/Storage/SCSI/Driver.cpp:92-107 -/
def readCapacity (c : Controller) (d : Driver) (raw10 raw16 : UInt64) (issued : Issued) :
    Option CapacityInformation × Driver × Issued :=
  let r := readCapacity10 c d raw10 issued
  match r.1 with
  | none => (none, d, r.2)
  | some capacity10 =>
    if capacity10.blocksCount = 0xFFFFFFFF ∧ c.getMaxDataTransferLength ≥ 16 then
      let d := { d with useExtendedMethods := true }
      let r := readCapacity16 c d raw16 r.2
      (r.1, d, r.2)
    else (some capacity10, d, r.2)

/-- `addDevice` is the block layer, which is handed the driver as its interface.
mirrors kernel/src/devices/Storage/SCSI/Driver.cpp:328-362 -/
def postInitialization (c : Controller) (addDevice : Driver → Issued → Bool × Issued) (d : Driver)
    (raw10 raw16 : UInt64) (issued : Issued) : Bool × Driver × Issued :=
  let r := readCapacity c d raw10 raw16 issued
  match r.1 with
  | none => (false, r.2)
  | some capacity =>
    let d := { r.2.1 with capacity := capacity }
    if d.capacity.blocksCount = 0 ∨ d.capacity.blockSize = 0 then (false, d, r.2.2)
    else
      let added := addDevice d r.2.2
      (added.1, d, added.2)

/-! ## Transfers -/

/-- The conversion to `uint8_t`. -/
def byte (v : UInt64) : BitVec 8 := BitVec.ofNat 8 v.toNat

/-- mirrors kernel/src/devices/Storage/SCSI/Driver.cpp:129-140, 228-239 -/
def commandBuffer10 (opcode : BitVec 8) (startBlock blocksCount : UInt64) : List (BitVec 8) :=
  [opcode, 0, byte (startBlock >>> 24), byte (startBlock >>> 16), byte (startBlock >>> 8), byte startBlock, 0,
    byte (blocksCount >>> 8), byte blocksCount, 0]

/-- mirrors kernel/src/devices/Storage/SCSI/Driver.cpp:168-185, 267-284 -/
def commandBuffer16 (opcode : BitVec 8) (startBlock blocksCount : UInt64) : List (BitVec 8) :=
  [opcode, 0, byte (startBlock >>> 56), byte (startBlock >>> 48), byte (startBlock >>> 40), byte (startBlock >>> 32),
    byte (startBlock >>> 24), byte (startBlock >>> 16), byte (startBlock >>> 8), byte startBlock,
    byte (blocksCount >>> 24), byte (blocksCount >>> 16), byte (blocksCount >>> 8), byte blocksCount, 0, 0]

/-- The two senders, which differ in the opcodes and the direction. -/
def sendCommandFor (opcode10 opcode16 : BitVec 8) (isInputTransfer : Bool) (c : Controller) (d : Driver)
    (startBlock blocksCount buffer : UInt64) (issued : Issued) : Bool × Issued :=
  let transferSize := blocksCount * d.capacity.blockSize
  if transferSize > c.getMaxDataTransferLength then (false, issued)
  else if !d.useExtendedMethods then
    if blocksCount > 0xFFFF then (false, issued)
    else
      let r := c.sendCommand
        ⟨commandBuffer10 opcode10 startBlock blocksCount, transferSize, buffer, isInputTransfer, d.lun⟩ issued
      (r.1.success, r.2)
  else if blocksCount > 0xFFFFFFFF then (false, issued)
  else
    let r := c.sendCommand
      ⟨commandBuffer16 opcode16 startBlock blocksCount, transferSize, buffer, isInputTransfer, d.lun⟩ issued
    (r.1.success, r.2)

/-- mirrors kernel/src/devices/Storage/SCSI/Driver.cpp:109-206 -/
def sendReadCommand : Controller → Driver → UInt64 → UInt64 → UInt64 → Issued → Bool × Issued :=
  sendCommandFor 0x28 0x88 true

/-- mirrors kernel/src/devices/Storage/SCSI/Driver.cpp:208-305 -/
def sendWriteCommand : Controller → Driver → UInt64 → UInt64 → UInt64 → Issued → Bool × Issued :=
  sendCommandFor 0x2A 0x8A false

/-- The loop of a transfer and what follows it, for so many turns; `none` when they do not suffice. -/
def transferLoop (send : UInt64 → UInt64 → UInt64 → Issued → Bool × Issued) (limit blockSize : UInt64) :
    Nat → UInt64 → UInt64 → UInt64 → Issued → Option (Bool × Issued)
  | 0, _, _, _, _ => none
  | fuel + 1, startBlock, transferSize, buffer, issued =>
    if transferSize > limit then
      let blocksToTransfer := limit / blockSize
      let r := send startBlock blocksToTransfer buffer issued
      if !r.1 then some (false, r.2)
      else
        transferLoop send limit blockSize fuel (startBlock + blocksToTransfer)
          (transferSize - blocksToTransfer * blockSize) (buffer + blocksToTransfer * blockSize) r.2
    else if transferSize > 0 then
      some (send startBlock ((transferSize + blockSize - 1) / blockSize) buffer issued)
    else some (true, issued)

/-- A transfer with one of the senders. -/
def transferBlocks (send : Controller → Driver → UInt64 → UInt64 → UInt64 → Issued → Bool × Issued) (fuel : Nat)
    (c : Controller) (d : Driver) (startBlock blocksCount buffer : UInt64) (issued : Issued) : Option (Bool × Issued) :=
  transferLoop (send c d) c.getMaxDataTransferLength d.capacity.blockSize fuel startBlock
    (blocksCount * d.capacity.blockSize) buffer issued

/-- mirrors kernel/src/devices/Storage/SCSI/Driver.cpp:364-389 -/
def readBlocks : Nat → Controller → Driver → UInt64 → UInt64 → UInt64 → Issued → Option (Bool × Issued) :=
  transferBlocks sendReadCommand

/-- mirrors kernel/src/devices/Storage/SCSI/Driver.cpp:391-416 -/
def writeBlocks : Nat → Controller → Driver → UInt64 → UInt64 → UInt64 → Issued → Option (Bool × Issued) :=
  transferBlocks sendWriteCommand

/-! ## What the device reads -/

/-- A transfer command as the device reads it. -/
structure Transfer where
  isInputTransfer : Bool
  lba : Nat
  blocks : Nat
  deriving DecidableEq, Repr

/-- READ(10), WRITE(10), READ(16) and WRITE(16). -/
def decode : List (BitVec 8) → Option Transfer
  | [opcode, _, b0, b1, b2, b3, _, n0, n1, _] =>
    let lba := ByteMemory.bigEndian [b0, b1, b2, b3]
    let blocks := ByteMemory.bigEndian [n0, n1]
    if opcode = 0x28 then some ⟨true, lba, blocks⟩
    else if opcode = 0x2A then some ⟨false, lba, blocks⟩
    else none
  | [opcode, _, b0, b1, b2, b3, b4, b5, b6, b7, n0, n1, n2, n3, _, _] =>
    let lba := ByteMemory.bigEndian [b0, b1, b2, b3, b4, b5, b6, b7]
    let blocks := ByteMemory.bigEndian [n0, n1, n2, n3]
    if opcode = 0x88 then some ⟨true, lba, blocks⟩
    else if opcode = 0x8A then some ⟨false, lba, blocks⟩
    else none
  | _ => none

/-- The commands, in this order, cover the blocks from `first` up to `last`, each as `Piece` says. -/
def Consecutive (Piece : Nat → Nat → CommandPayload → Prop) (last : Nat) : Nat → List CommandPayload → Prop
  | first, [] => first = last
  | first, p :: rest => ∃ blocks, Piece first blocks p ∧ Consecutive Piece last (first + blocks) rest

/-- The command moves `blocks` blocks from `first` on, at their place in the transfer that begins with
block `start` at `buffer`. -/
structure Piece (c : Controller) (d : Driver) (isInputTransfer : Bool) (start : Nat) (buffer : UInt64)
    (first blocks : Nat) (p : CommandPayload) : Prop where
  decoded : decode p.commandBuffer = some ⟨isInputTransfer, first, blocks⟩
  nonempty : 0 < blocks
  direction : p.isInputTransfer = isInputTransfer
  lun : p.lun = d.lun
  place : p.dataBuffer = buffer + UInt64.ofNat ((first - start) * d.capacity.blockSize.toNat)
  length : p.dataLength.toNat = blocks * d.capacity.blockSize.toNat
  limited : blocks * d.capacity.blockSize.toNat ≤ c.getMaxDataTransferLength.toNat

theorem bigEndian_byte2 {v : UInt64} (h : v.toNat < 2 ^ 16) :
    ByteMemory.bigEndian [byte (v >>> 8), byte v] = v.toNat := by
  have hdigits := ByteMemory.bigEndian_digits v.toNat 2
  rw [Nat.mod_eq_of_lt (show v.toNat < 256 ^ 2 by omega)] at hdigits
  simpa [byte, UInt64.toNat_shiftRight, Nat.shiftRight_eq_div_pow, List.range_succ] using hdigits

theorem bigEndian_byte4 {v : UInt64} (h : v.toNat < 2 ^ 32) :
    ByteMemory.bigEndian [byte (v >>> 24), byte (v >>> 16), byte (v >>> 8), byte v] = v.toNat := by
  have hdigits := ByteMemory.bigEndian_digits v.toNat 4
  rw [Nat.mod_eq_of_lt (show v.toNat < 256 ^ 4 by omega)] at hdigits
  simpa [byte, UInt64.toNat_shiftRight, Nat.shiftRight_eq_div_pow, List.range_succ] using hdigits

theorem bigEndian_byte8 (v : UInt64) :
    ByteMemory.bigEndian [byte (v >>> 56), byte (v >>> 48), byte (v >>> 40), byte (v >>> 32), byte (v >>> 24),
      byte (v >>> 16), byte (v >>> 8), byte v] = v.toNat := by
  have hdigits := ByteMemory.bigEndian_digits v.toNat 8
  rw [Nat.mod_eq_of_lt (show v.toNat < 256 ^ 8 from v.toNat_lt)] at hdigits
  simpa [byte, UInt64.toNat_shiftRight, Nat.shiftRight_eq_div_pow, List.range_succ] using hdigits

/-- The sender of a direction. -/
def sender : Bool → Controller → Driver → UInt64 → UInt64 → UInt64 → Issued → Bool × Issued
  | true => sendReadCommand
  | false => sendWriteCommand

/-- What the length field of the driver's commands holds. -/
def Driver.lengthField (d : Driver) : Nat := if d.useExtendedMethods then 0xFFFFFFFF else 0xFFFF

/-- The checks of a sender. -/
def Sendable (c : Controller) (d : Driver) (blocks : Nat) : Prop :=
  blocks * d.capacity.blockSize.toNat ≤ c.getMaxDataTransferLength.toNat ∧ blocks ≤ d.lengthField

instance (c : Controller) (d : Driver) (blocks : Nat) : Decidable (Sendable c d blocks) :=
  inferInstanceAs (Decidable (_ ∧ _))

/-- The command that a sender sends. -/
def payloadFor (isInputTransfer : Bool) (d : Driver) (startBlock blocksCount buffer : UInt64) : CommandPayload where
  commandBuffer :=
    if d.useExtendedMethods then commandBuffer16 (if isInputTransfer then 0x88 else 0x8A) startBlock blocksCount
    else commandBuffer10 (if isInputTransfer then 0x28 else 0x2A) startBlock blocksCount
  dataLength := blocksCount * d.capacity.blockSize
  dataBuffer := buffer
  isInputTransfer := isInputTransfer
  lun := d.lun

section
variable {c : Controller} {d : Driver} {input : Bool} {startBlock blocksCount buffer : UInt64} {issued out : Issued}

theorem decode_payloadFor (hwide : d.useExtendedMethods = false → startBlock.toNat < 2 ^ 32)
    (hfield : blocksCount.toNat ≤ d.lengthField) :
    decode (payloadFor input d startBlock blocksCount buffer).commandBuffer =
      some ⟨input, startBlock.toNat, blocksCount.toNat⟩ := by
  unfold Driver.lengthField at hfield
  by_cases hext : d.useExtendedMethods
  · rw [if_pos hext] at hfield
    have hlba := bigEndian_byte8 startBlock
    have hblocks := bigEndian_byte4 (v := blocksCount) (by omega)
    cases input <;> simp [payloadFor, commandBuffer16, decode, hext, hlba, hblocks]
  · rw [if_neg hext] at hfield
    have hlba := bigEndian_byte4 (hwide (by simpa using hext))
    have hblocks := bigEndian_byte2 (v := blocksCount) (by omega)
    cases input <;> simp [payloadFor, commandBuffer10, decode, hext, hlba, hblocks]

/-- A sender on a product that fits: the checks, then the command. -/
theorem sender_eq (hfit : blocksCount.toNat * d.capacity.blockSize.toNat < 2 ^ 64) :
    sender input c d startBlock blocksCount buffer issued =
      if Sendable c d blocksCount.toNat then
        ((c.reply issued.length).success, issued ++ [payloadFor input d startBlock blocksCount buffer])
      else (false, issued) := by
  have hsize : (blocksCount * d.capacity.blockSize).toNat = blocksCount.toNat * d.capacity.blockSize.toNat := by
    rw [UInt64.toNat_mul, Nat.mod_eq_of_lt hfit]
  have hlong : (blocksCount * d.capacity.blockSize > c.getMaxDataTransferLength) ↔
      ¬ blocksCount.toNat * d.capacity.blockSize.toNat ≤ c.getMaxDataTransferLength.toNat := by
    rw [gt_iff_lt, UInt64.lt_iff_toNat_lt, hsize, Nat.not_le]
  have h10 : (blocksCount > 0xFFFF) ↔ ¬ blocksCount.toNat ≤ 0xFFFF := by
    rw [gt_iff_lt, UInt64.lt_iff_toNat_lt, Nat.not_le]
    rfl
  have h16 : (blocksCount > 0xFFFFFFFF) ↔ ¬ blocksCount.toNat ≤ 0xFFFFFFFF := by
    rw [gt_iff_lt, UInt64.lt_iff_toNat_lt, Nat.not_le]
    rfl
  have hsend : sender input = sendCommandFor (if input then 0x28 else 0x2A) (if input then 0x88 else 0x8A) input := by
    cases input <;> rfl
  rw [hsend]
  unfold sendCommandFor Sendable Driver.lengthField payloadFor
  simp only [hlong, h10, h16]
  by_cases hs : blocksCount.toNat * d.capacity.blockSize.toNat ≤ c.getMaxDataTransferLength.toNat
  · by_cases hext : d.useExtendedMethods
    · by_cases hn : blocksCount.toNat ≤ 0xFFFFFFFF <;> simp [hs, hext, hn, Controller.sendCommand]
    · by_cases hn : blocksCount.toNat ≤ 0xFFFF <;> simp [hs, hext, hn, Controller.sendCommand]
  · simp [hs]

/-! ## The loop -/

/-- The blocks of a turn. -/
def turnBlocks (c : Controller) (d : Driver) : Nat := c.getMaxDataTransferLength.toNat / d.capacity.blockSize.toNat

/-- The bytes of a turn. -/
def turnBytes (c : Controller) (d : Driver) : Nat := turnBlocks c d * d.capacity.blockSize.toNat

/-- The loop of a transfer in a direction. -/
abbrev loop (input : Bool) (c : Controller) (d : Driver) (fuel : Nat) (startBlock transferSize buffer : UInt64)
    (issued : Issued) : Option (Bool × Issued) :=
  transferLoop (sender input c d) c.getMaxDataTransferLength d.capacity.blockSize fuel startBlock transferSize buffer
    issued

theorem turnBytes_le (c : Controller) (d : Driver) : turnBytes c d ≤ c.getMaxDataTransferLength.toNat :=
  Nat.div_mul_le_self _ _

theorem toNat_turn (c : Controller) (d : Driver) :
    (c.getMaxDataTransferLength / d.capacity.blockSize).toNat = turnBlocks c d :=
  UInt64.toNat_div _ _

theorem toNat_turnBytes (c : Controller) (d : Driver) :
    (c.getMaxDataTransferLength / d.capacity.blockSize * d.capacity.blockSize).toNat = turnBytes c d := by
  have hle := turnBytes_le c d
  have hlt := c.getMaxDataTransferLength.toNat_lt
  unfold turnBytes at *
  rw [UInt64.toNat_mul, toNat_turn, Nat.mod_eq_of_lt (by omega)]

variable {fuel : Nat} {transferSize : UInt64}

/-- What fits into one command is sent, if it is anything. -/
theorem loop_rest (h : transferSize.toNat ≤ c.getMaxDataTransferLength.toNat) :
    loop input c d (fuel + 1) startBlock transferSize buffer issued =
      if transferSize.toNat = 0 then some (true, issued)
      else some (sender input c d startBlock ((transferSize + d.capacity.blockSize - 1) / d.capacity.blockSize) buffer
        issued) := by
  have hover : ¬ transferSize > c.getMaxDataTransferLength := by
    rw [gt_iff_lt, UInt64.lt_iff_toNat_lt]
    omega
  unfold loop transferLoop
  rw [if_neg hover]
  by_cases hzero : transferSize.toNat = 0
  · have hpos : ¬ transferSize > 0 := by
      rw [gt_iff_lt, UInt64.lt_iff_toNat_lt]
      simp [hzero]
    rw [if_neg hpos, if_pos hzero]
  · have hpos : transferSize > 0 := by
      rw [gt_iff_lt, UInt64.lt_iff_toNat_lt]
      simp only [UInt64.toNat_zero]
      omega
    rw [if_pos hpos, if_neg hzero]

/-- A turn goes on where its command may be sent and succeeds. -/
theorem loop_turn (h : c.getMaxDataTransferLength.toNat < transferSize.toNat) :
    loop input c d (fuel + 1) startBlock transferSize buffer issued =
      if turnBlocks c d ≤ d.lengthField ∧ (c.reply issued.length).success = true then
        loop input c d fuel (startBlock + c.getMaxDataTransferLength / d.capacity.blockSize)
          (transferSize - c.getMaxDataTransferLength / d.capacity.blockSize * d.capacity.blockSize)
          (buffer + c.getMaxDataTransferLength / d.capacity.blockSize * d.capacity.blockSize)
          (issued ++ [payloadFor input d startBlock (c.getMaxDataTransferLength / d.capacity.blockSize) buffer])
      else
        some (false, if turnBlocks c d ≤ d.lengthField then
          issued ++ [payloadFor input d startBlock (c.getMaxDataTransferLength / d.capacity.blockSize) buffer]
        else issued) := by
  have hover : transferSize > c.getMaxDataTransferLength := UInt64.lt_iff_toNat_lt.mpr h
  have hle := turnBytes_le c d
  have hlt := c.getMaxDataTransferLength.toNat_lt
  unfold turnBytes at hle
  have hfit : (c.getMaxDataTransferLength / d.capacity.blockSize).toNat * d.capacity.blockSize.toNat < 2 ^ 64 := by
    rw [toNat_turn]
    omega
  have hsend := @sender_eq c d input startBlock _ buffer issued hfit
  have hsendable : Sendable c d (turnBlocks c d) ↔ turnBlocks c d ≤ d.lengthField := ⟨fun h => h.2, fun h => ⟨hle, h⟩⟩
  rw [toNat_turn] at hsend
  simp only [hsendable] at hsend
  unfold loop
  rw [transferLoop, if_pos hover]
  simp only [hsend]
  by_cases hfield : turnBlocks c d ≤ d.lengthField
  · by_cases hreply : (c.reply issued.length).success <;> simp [hfield, hreply]
  · simp [hfield]

/-- The size after a turn. -/
theorem toNat_afterTurn (h : c.getMaxDataTransferLength.toNat < transferSize.toNat) :
    (transferSize - c.getMaxDataTransferLength / d.capacity.blockSize * d.capacity.blockSize).toNat =
      transferSize.toNat - turnBytes c d := by
  have hle := turnBytes_le c d
  rw [UInt64.toNat_sub_of_le _ _ (by rw [UInt64.le_iff_toNat_le, toNat_turnBytes]; omega), toNat_turnBytes]

theorem turnBytes_pos (h : 0 < turnBlocks c d) (hb : 0 < d.capacity.blockSize.toNat) : 0 < turnBytes c d :=
  Nat.mul_pos h hb

/-- Blocks longer than the limit are never transferred. -/
theorem loop_stuck (hturn : turnBlocks c d = 0) (h : c.getMaxDataTransferLength.toNat < transferSize.toNat) :
    loop input c d fuel startBlock transferSize buffer issued ≠ some (true, out) := by
  have hzero : c.getMaxDataTransferLength / d.capacity.blockSize = 0 := by
    apply UInt64.toNat_inj.mp
    rw [toNat_turn, hturn]
    rfl
  induction fuel generalizing issued with
  | zero => simp [transferLoop]
  | succ fuel ih =>
    rw [loop_turn h]
    split
    · rw [hzero, UInt64.zero_mul, UInt64.sub_zero, UInt64.add_zero, UInt64.add_zero]
      exact ih
    · simp

/-! ## The commands of a successful transfer -/

/-- What `PostInitialization` leaves: fields of 32 bits, and READ(10) only for so many blocks. -/
structure Driver.Inv (d : Driver) : Prop where
  blockSize : d.capacity.blockSize.toNat < 2 ^ 32
  narrow : d.useExtendedMethods = false → d.capacity.blocksCount.toNat < 2 ^ 32

theorem consecutive_cons {P : Nat → Nat → CommandPayload → Prop} {last first blocks : Nat} {p : CommandPayload}
    {rest : List CommandPayload} (hp : P first blocks p) (hrest : Consecutive P last (first + blocks) rest) :
    Consecutive P last first (p :: rest) :=
  ⟨blocks, hp, hrest⟩

/-- The command for `blocks` blocks that may be sent is a piece of the transfer. -/
theorem piece_payloadFor {start : Nat} {base : UInt64} (hinv : d.Inv) (hsend : Sendable c d blocksCount.toNat)
    (hpos : 0 < blocksCount.toNat) (hend : startBlock.toNat + blocksCount.toNat ≤ d.capacity.blocksCount.toNat)
    (hplace : buffer = base + UInt64.ofNat ((startBlock.toNat - start) * d.capacity.blockSize.toNat)) :
    Piece c d input start base startBlock.toNat blocksCount.toNat
      (payloadFor input d startBlock blocksCount buffer) where
  decoded := decode_payloadFor (fun h => by have := hinv.narrow h; omega) hsend.2
  nonempty := hpos
  direction := rfl
  lun := rfl
  place := hplace
  length := by
    have hle := hsend.1
    have hlt := c.getMaxDataTransferLength.toNat_lt
    show (blocksCount * d.capacity.blockSize).toNat = _
    rw [UInt64.toNat_mul, Nat.mod_eq_of_lt (by omega)]
  limited := hsend.1

/-- The blocks of the last command of a transfer: its size, rounded up. -/
theorem toNat_ceil (hinv : d.Inv) (hb : 0 < d.capacity.blockSize.toNat)
    (hrest : transferSize.toNat ≤ c.getMaxDataTransferLength.toNat) :
    ((transferSize + d.capacity.blockSize - 1) / d.capacity.blockSize).toNat =
      (transferSize.toNat + d.capacity.blockSize.toNat - 1) / d.capacity.blockSize.toNat := by
  have hroom := c.room
  have hsmall := hinv.blockSize
  have hsum : (transferSize + d.capacity.blockSize - 1).toNat =
      transferSize.toNat + d.capacity.blockSize.toNat - 1 := by
    rw [UInt64.toNat_sub, UInt64.toNat_add, UInt64.toNat_one]
    omega
  rw [UInt64.toNat_div, hsum]

theorem ceil_mul {blocks size : Nat} (h : 0 < size) : (blocks * size + size - 1) / size = blocks := by
  rw [Nat.add_sub_assoc h, Nat.mul_comm, Nat.mul_add_div h, Nat.div_eq_of_lt (by omega), Nat.add_zero]

/-- The buffer moves on with the blocks. -/
theorem place_turn {start : Nat} {base : UInt64} (hstart : start ≤ startBlock.toNat)
    (hnext : (startBlock + c.getMaxDataTransferLength / d.capacity.blockSize).toNat = startBlock.toNat + turnBlocks c d)
    (hplace : buffer = base + UInt64.ofNat ((startBlock.toNat - start) * d.capacity.blockSize.toNat)) :
    buffer + c.getMaxDataTransferLength / d.capacity.blockSize * d.capacity.blockSize =
      base + UInt64.ofNat (((startBlock + c.getMaxDataTransferLength / d.capacity.blockSize).toNat - start) *
        d.capacity.blockSize.toNat) := by
  have hturn : c.getMaxDataTransferLength / d.capacity.blockSize * d.capacity.blockSize = UInt64.ofNat (turnBytes c d) := by
    rw [← toNat_turnBytes, UInt64.ofNat_toNat]
  rw [hplace, hturn, hnext, show startBlock.toNat + turnBlocks c d - start =
    startBlock.toNat - start + turnBlocks c d by omega, Nat.add_mul, UInt64.ofNat_add, UInt64.add_assoc]
  rfl

/-- From any point of a transfer on, a loop that succeeds has covered the rest. -/
theorem loop_consecutive {start last : Nat} {base : UInt64} (hinv : d.Inv) (hb : 0 < d.capacity.blockSize.toNat)
    (hlast : last ≤ d.capacity.blocksCount.toNat) (hstart : start ≤ startBlock.toNat) (hfirst : startBlock.toNat ≤ last)
    (hsize : transferSize.toNat = (last - startBlock.toNat) * d.capacity.blockSize.toNat)
    (hplace : buffer = base + UInt64.ofNat ((startBlock.toNat - start) * d.capacity.blockSize.toNat))
    (h : loop input c d fuel startBlock transferSize buffer issued = some (true, out)) :
    ∃ cmds, out = issued ++ cmds ∧ Consecutive (Piece c d input start base) last startBlock.toNat cmds := by
  induction fuel generalizing startBlock transferSize buffer issued with
  | zero => simp [transferLoop] at h
  | succ fuel ih =>
    rcases Nat.lt_or_ge c.getMaxDataTransferLength.toNat transferSize.toNat with hover | hrest
    · rcases Nat.eq_zero_or_pos (turnBlocks c d) with hturn | hturn
      · exact absurd h (loop_stuck hturn hover)
      · rw [loop_turn hover] at h
        split at h
        · next hsent =>
          have hle := turnBytes_le c d
          have hblocks : turnBlocks c d < last - startBlock.toNat := by
            apply Nat.lt_of_mul_lt_mul_right (a := d.capacity.blockSize.toNat)
            rw [← hsize]
            exact Nat.lt_of_le_of_lt hle hover
          have hbound := d.capacity.blocksCount.toNat_lt
          have hnext : (startBlock + c.getMaxDataTransferLength / d.capacity.blockSize).toNat =
              startBlock.toNat + turnBlocks c d := by
            rw [UInt64.toNat_add, toNat_turn, Nat.mod_eq_of_lt (by omega)]
          have hsize' := toNat_afterTurn (d := d) hover
          rw [hsize, turnBytes, ← Nat.sub_mul, Nat.sub_sub, ← hnext] at hsize'
          have hplace' := place_turn hstart hnext hplace
          obtain ⟨cmds, hout, hcmds⟩ := ih (by omega) (by omega) hsize' hplace' h
          have hpiece : Piece c d input start base startBlock.toNat
              (c.getMaxDataTransferLength / d.capacity.blockSize).toNat
              (payloadFor input d startBlock (c.getMaxDataTransferLength / d.capacity.blockSize) buffer) :=
            piece_payloadFor hinv (by rw [toNat_turn]; exact ⟨hle, hsent.1⟩) (by rw [toNat_turn]; exact hturn)
              (by rw [toNat_turn]; omega) hplace
          rw [toNat_turn] at hpiece
          rw [hnext] at hcmds
          exact ⟨_ :: cmds, by rw [hout, List.append_assoc]; rfl, consecutive_cons hpiece hcmds⟩
        · simp at h
    · rw [loop_rest hrest] at h
      split at h
      · next hzero =>
        rw [hzero] at hsize
        rcases Nat.mul_eq_zero.mp hsize.symm with hnone | hnone
        · have hout : issued = out := by simpa using h
          exact ⟨[], by rw [hout, List.append_nil], show startBlock.toNat = last by omega⟩
        · omega
      · next hpos =>
        have hblocks := toNat_ceil hinv hb hrest
        rw [hsize, ceil_mul hb] at hblocks
        have hfit : ((transferSize + d.capacity.blockSize - 1) / d.capacity.blockSize).toNat *
            d.capacity.blockSize.toNat < 2 ^ 64 := by
          rw [hblocks, ← hsize]
          exact transferSize.toNat_lt
        rw [sender_eq hfit] at h
        split at h
        · next hsend =>
          have hout : issued ++ _ = out := (Prod.mk.inj (Option.some.inj h)).2
          have hsome : last - startBlock.toNat ≠ 0 := by
            intro hnone
            rw [hnone, Nat.zero_mul] at hsize
            omega
          have hpiece := @piece_payloadFor c d input startBlock _ buffer start base hinv hsend (by omega) (by omega) hplace
          rw [hblocks] at hpiece
          refine ⟨_, hout.symm, consecutive_cons hpiece ?_⟩
          show startBlock.toNat + (last - startBlock.toNat) = last
          omega
        · simp at h

/-! ## The drivers of a controller -/

/-- The drivers that `Create` and any calls of `PostInitialization` leave. -/
inductive Reachable (c : Controller) : Driver → Prop where
  | create (lun : BitVec 8) : Reachable c { lun := lun }
  | postInitialization (addDevice : Driver → Issued → Bool × Issued) (raw10 raw16 : UInt64) {issued out : Issued}
      {d d' : Driver} {ok : Bool} (h : Reachable c d)
      (hpost : postInitialization c addDevice d raw10 raw16 issued = (ok, d', out)) : Reachable c d'

theorem toNat_swapped {m : ByteMemory} {a n : Nat} (h : n ≤ 8) :
    (UInt64.ofNat (ByteMemory.byteswap n (m.read a n))).toNat = ByteMemory.bigEndian (m.bytes a n) := by
  have hlt := ByteMemory.bigEndian_lt (m.bytes a n)
  have hpow : 256 ^ n ≤ 256 ^ 8 := Nat.pow_le_pow_right (by decide) h
  rw [ByteMemory.bytes_length] at hlt
  rw [ByteMemory.byteswap_read, UInt64.toNat_ofNat_of_lt' (show _ < 2 ^ 64 by omega)]

/-- What the device said last about its capacity: the address of its last block, and the length of a
block, as they stand in the response to the command. -/
def reported (c : Controller) (issued : Issued) : Nat × Nat :=
  let response := (c.reply (issued.length - 1)).data
  if (issued.getLast?.map fun p => p.commandBuffer.length) = some 16 then
    (ByteMemory.bigEndian (response.bytes 0 8), ByteMemory.bigEndian (response.bytes 8 4))
  else (ByteMemory.bigEndian (response.bytes 0 4), ByteMemory.bigEndian (response.bytes 4 4))

/-- The capacity is what was reported, in fields of `n` bytes and of four. -/
structure Recorded (c : Controller) (issued : Issued) (n : Nat) (cap : CapacityInformation) : Prop where
  blocksCount : cap.blocksCount.toNat = (reported c issued).1
  blockSize : cap.blockSize.toNat = (reported c issued).2
  blocksCount_lt : cap.blocksCount.toNat < 256 ^ n
  blockSize_lt : cap.blockSize.toNat < 2 ^ 32

/-- A capacity that is taken from two fields of the response. -/
theorem recorded_fields {n : Nat} {response : ByteMemory} (hn : n ≤ 8)
    (h : reported c out = (ByteMemory.bigEndian (response.bytes 0 n), ByteMemory.bigEndian (response.bytes n 4))) :
    Recorded c out n ⟨UInt64.ofNat (ByteMemory.byteswap n (response.read 0 n)),
      UInt64.ofNat (ByteMemory.byteswap 4 (response.read n 4))⟩ := by
  have hcount := toNat_swapped (m := response) (a := 0) hn
  have hsize := toNat_swapped (m := response) (a := n) (n := 4) (by decide)
  have hcount_lt := ByteMemory.bigEndian_lt (response.bytes 0 n)
  have hsize_lt := ByteMemory.bigEndian_lt (response.bytes n 4)
  rw [ByteMemory.bytes_length] at hcount_lt hsize_lt
  exact ⟨by rw [h]; exact hcount, by rw [h]; exact hsize, hcount.trans_lt hcount_lt, hsize.trans_lt hsize_lt⟩

theorem readCapacity10_some {raw : UInt64} {cap : CapacityInformation}
    (h : readCapacity10 c d raw issued = (some cap, out)) : Recorded c out 4 cap := by
  unfold readCapacity10 Controller.sendCommand at h
  by_cases hok : (c.reply issued.length).success
  · simp only [hok] at h
    obtain ⟨hcap, rfl⟩ := Prod.mk.inj h
    obtain rfl := Option.some.inj hcap
    exact recorded_fields (by decide) (by simp [reported])
  · simp [hok] at h

theorem readCapacity16_some {raw : UInt64} {cap : CapacityInformation}
    (h : readCapacity16 c d raw issued = (some cap, out)) : Recorded c out 8 cap := by
  unfold readCapacity16 Controller.sendCommand at h
  by_cases hok : (c.reply issued.length).success
  · simp only [hok] at h
    obtain ⟨hcap, rfl⟩ := Prod.mk.inj h
    obtain rfl := Option.some.inj hcap
    exact recorded_fields (by decide) (by simp [reported])
  · simp [hok] at h

/-- A capacity of more than 32 bits comes with the extended commands. -/
theorem readCapacity_some {raw10 raw16 : UInt64} {cap : CapacityInformation} {d' : Driver}
    (h : readCapacity c d raw10 raw16 issued = (some cap, d', out)) :
    Recorded c out 8 cap ∧ (d'.useExtendedMethods = false → cap.blocksCount.toNat < 2 ^ 32) := by
  unfold readCapacity at h
  rcases hr : readCapacity10 c d raw10 issued with ⟨_ | capacity10, issued'⟩
  · simp [hr] at h
  · have h10 := readCapacity10_some hr
    simp only [hr] at h
    split at h
    · obtain ⟨hcap, hrest⟩ := Prod.mk.inj h
      obtain ⟨rfl, hout⟩ := Prod.mk.inj hrest
      exact ⟨readCapacity16_some (Prod.ext hcap hout), by simp⟩
    · obtain ⟨hcap, hrest⟩ := Prod.mk.inj h
      obtain ⟨rfl, rfl⟩ := Prod.mk.inj hrest
      obtain rfl := Option.some.inj hcap
      have hlt := h10.blocksCount_lt
      exact ⟨⟨h10.blocksCount, h10.blockSize, by omega, h10.blockSize_lt⟩, fun _ => hlt⟩

theorem readCapacity_keeps {raw10 raw16 : UInt64} :
    (readCapacity c d raw10 raw16 issued).2.1.capacity = d.capacity ∧
      (d.useExtendedMethods = true → (readCapacity c d raw10 raw16 issued).2.1.useExtendedMethods = true) := by
  unfold readCapacity
  rcases readCapacity10 c d raw10 issued with ⟨_ | capacity10, issued'⟩
  · exact ⟨rfl, id⟩
  · simp only
    split
    · exact ⟨rfl, fun _ => rfl⟩
    · exact ⟨rfl, id⟩

theorem inv_postInitialization {addDevice : Driver → Issued → Bool × Issued} {raw10 raw16 : UInt64} {ok : Bool}
    {d' : Driver} (hinv : d.Inv) (h : postInitialization c addDevice d raw10 raw16 issued = (ok, d', out)) : d'.Inv := by
  have hkeeps := @readCapacity_keeps c d issued raw10 raw16
  unfold postInitialization at h
  rcases hr : readCapacity c d raw10 raw16 issued with ⟨_ | cap, d₁, out₁⟩
  · -- the driver keeps its capacity, whatever it has learnt about the commands
    rw [hr] at h hkeeps
    obtain ⟨hcap : d₁.capacity = d.capacity, hext : d.useExtendedMethods = true → d₁.useExtendedMethods = true⟩ := hkeeps
    obtain rfl : d₁ = d' := (Prod.mk.inj (Prod.mk.inj h).2).1
    refine ⟨by rw [hcap]; exact hinv.blockSize, fun hnot => ?_⟩
    rw [hcap]
    apply hinv.narrow
    cases hd : d.useExtendedMethods with
    | true => rw [hext hd] at hnot; cases hnot
    | false => rfl
  · obtain ⟨hrec, hnarrow⟩ := readCapacity_some hr
    have hinv' : Driver.Inv { d₁ with capacity := cap } := ⟨hrec.blockSize_lt, hnarrow⟩
    simp only [hr] at h
    split at h
    · exact (Prod.mk.inj (Prod.mk.inj h).2).1 ▸ hinv'
    · exact (Prod.mk.inj (Prod.mk.inj h).2).1 ▸ hinv'

theorem Reachable.inv (h : Reachable c d) : d.Inv := by
  induction h with
  | create lun => exact ⟨show 0 < 2 ^ 32 by decide, fun _ => show 0 < 2 ^ 32 by decide⟩
  | postInitialization _ _ _ _ hpost ih => exact inv_postInitialization ih hpost

end

/-- A successful transfer of blocks that exist has been issued as commands that cover them in order. -/
theorem transfers_consecutive {c : Controller} {d : Driver} (hd : Reachable c d) (hb : d.capacity.blockSize ≠ 0)
    {start count : UInt64} (hin : start.toNat + count.toNat ≤ d.capacity.blocksCount.toNat)
    (hfit : count.toNat * d.capacity.blockSize.toNat < 2 ^ 64) {buffer : UInt64} {issued out : Issued} {fuel : Nat} :
    (readBlocks fuel c d start count buffer issued = some (true, out) →
      ∃ cmds, out = issued ++ cmds ∧
        Consecutive (Piece c d true start.toNat buffer) (start.toNat + count.toNat) start.toNat cmds) ∧
    (writeBlocks fuel c d start count buffer issued = some (true, out) →
      ∃ cmds, out = issued ++ cmds ∧
        Consecutive (Piece c d false start.toNat buffer) (start.toNat + count.toNat) start.toNat cmds) := by
  have hb' : 0 < d.capacity.blockSize.toNat := Nat.pos_of_ne_zero fun h => hb (UInt64.toNat_inj.mp h)
  have hsize : (count * d.capacity.blockSize).toNat =
      (start.toNat + count.toNat - start.toNat) * d.capacity.blockSize.toNat := by
    rw [Nat.add_sub_cancel_left, UInt64.toNat_mul, Nat.mod_eq_of_lt hfit]
  have hplace : buffer = buffer + UInt64.ofNat ((start.toNat - start.toNat) * d.capacity.blockSize.toNat) := by
    rw [Nat.sub_self, Nat.zero_mul]
    exact (UInt64.add_zero buffer).symm
  have hcover := fun input => @loop_consecutive c d input start buffer issued out fuel
    (count * d.capacity.blockSize) start.toNat (start.toNat + count.toNat) buffer hd.inv hb' hin (Nat.le_refl _)
    (Nat.le_add_right _ _) hsize hplace
  exact ⟨hcover true, hcover false⟩

/-- A device that answers every command with these bytes. -/
def answering (bytes : List (BitVec 8)) : Controller := bulkOnly fun _ => ⟨true, fun i => bytes.getD i 0⟩

/-- It says that its last block is block 8192, and that a block has 512 bytes. -/
def sectors : Controller := answering [0, 0, 0x20, 0, 0, 0, 2, 0]

theorem sectors_reachable : Reachable sectors { lun := 0, capacity := ⟨8192, 512⟩ } :=
  .postInitialization (fun _ issued => (true, issued)) 0 0 (.create 0)
    (rfl : postInitialization sectors (fun _ issued => (true, issued)) { lun := 0 } 0 0 [] =
      (true, { lun := 0, capacity := ⟨8192, 512⟩ }, _))

/-- 5000 of its sectors are read with two commands. -/
theorem transfers_consecutive_sectors :
    ∃ out, readBlocks 3 sectors { lun := 0, capacity := ⟨8192, 512⟩ } 8 5000 0x100000 [] = some (true, out) ∧
      out.length = 2 ∧ ∃ cmds, out = [] ++ cmds ∧
        Consecutive (Piece sectors { lun := 0, capacity := ⟨8192, 512⟩ } true 8 0x100000) 5008 8 cmds :=
  ⟨_, rfl, rfl, (@transfers_consecutive sectors _ sectors_reachable (by decide) 8 5000 (by decide) (by decide) 0x100000
    [] _ 3).1 rfl⟩

/-! ## When a transfer ends -/

/-- The number of turns of a transfer of `size` bytes. -/
def turns (c : Controller) (d : Driver) (size : Nat) : Nat :=
  if size ≤ c.getMaxDataTransferLength.toNat then 0
  else (size - c.getMaxDataTransferLength.toNat + turnBytes c d - 1) / turnBytes c d

/-- What the turns leave. -/
def restBytes (c : Controller) (d : Driver) (size : Nat) : Nat := size - turns c d size * turnBytes c d

def restBlocks (c : Controller) (d : Driver) (size : Nat) : Nat :=
  (restBytes c d size + d.capacity.blockSize.toNat - 1) / d.capacity.blockSize.toNat

/-- The number of commands. -/
def commands (c : Controller) (d : Driver) (size : Nat) : Nat :=
  turns c d size + if restBytes c d size = 0 then 0 else 1

/-- Every command of a transfer of `size` bytes may be sent, and those from `first` on succeed. -/
structure Completes (c : Controller) (d : Driver) (size first : Nat) : Prop where
  turn : 0 < turns c d size → turnBlocks c d ≤ d.lengthField
  rest : 0 < restBytes c d size → Sendable c d (restBlocks c d size)
  replies : ∀ i, i < commands c d size → (c.reply (first + i)).success = true

/-- More than one command is needed, and a block is longer than a command may transfer. -/
def Stuck (c : Controller) (d : Driver) (size : Nat) : Prop :=
  c.getMaxDataTransferLength.toNat < size ∧ c.getMaxDataTransferLength.toNat < d.capacity.blockSize.toNat

theorem turns_rest {c : Controller} {d : Driver} {size : Nat} (h : size ≤ c.getMaxDataTransferLength.toNat) :
    turns c d size = 0 ∧ restBytes c d size = size := by
  have hturns : turns c d size = 0 := if_pos h
  refine ⟨hturns, ?_⟩
  rw [restBytes, hturns, Nat.zero_mul, Nat.sub_zero]

theorem turns_turn {c : Controller} {d : Driver} {size : Nat} (hstep : 0 < turnBytes c d)
    (h : c.getMaxDataTransferLength.toNat < size) :
    turns c d size = turns c d (size - turnBytes c d) + 1 ∧
      restBytes c d size = restBytes c d (size - turnBytes c d) := by
  have hturns : turns c d size = turns c d (size - turnBytes c d) + 1 := by
    unfold turns
    rw [if_neg (by omega)]
    split
    · rw [Nat.zero_add, Nat.div_eq_iff hstep]
      omega
    · rw [← Nat.add_div_right _ hstep]
      congr 1
      omega
  refine ⟨hturns, ?_⟩
  rw [restBytes, restBytes, hturns, Nat.add_mul, Nat.one_mul]
  omega

section
variable {c : Controller} {d : Driver} {input : Bool} {startBlock buffer transferSize : UInt64} {issued out : Issued}
  {fuel size first : Nat}

/-- The first of the turns. -/
theorem completes_turn (hstep : 0 < turnBytes c d) (h : c.getMaxDataTransferLength.toNat < size) :
    Completes c d size first ↔ (turnBlocks c d ≤ d.lengthField ∧ (c.reply first).success = true) ∧
      Completes c d (size - turnBytes c d) (first + 1) := by
  obtain ⟨hturns, hrest⟩ := turns_turn hstep h
  have hblocks : restBlocks c d size = restBlocks c d (size - turnBytes c d) := by rw [restBlocks, hrest, restBlocks]
  have hcommands : commands c d size = commands c d (size - turnBytes c d) + 1 := by
    rw [commands, commands, hturns, hrest]
    omega
  constructor
  · intro hall
    refine ⟨⟨hall.turn (by omega), hall.replies 0 (by omega)⟩, fun _ => hall.turn (by omega), ?_, ?_⟩
    · rw [← hrest, ← hblocks]
      exact hall.rest
    · intro i hi
      rw [Nat.add_assoc, Nat.add_comm 1]
      exact hall.replies (i + 1) (by omega)
  · rintro ⟨⟨hfield, hreply⟩, hall⟩
    refine ⟨fun _ => hfield, ?_, ?_⟩
    · rw [hrest, hblocks]
      exact hall.rest
    · intro i hi
      cases i with
      | zero => exact hreply
      | succ i =>
        rw [Nat.add_comm i, ← Nat.add_assoc]
        exact hall.replies i (by omega)

/-- No turn is left. -/
theorem completes_rest (h : size ≤ c.getMaxDataTransferLength.toNat) :
    Completes c d size first ↔ size = 0 ∨
      (Sendable c d ((size + d.capacity.blockSize.toNat - 1) / d.capacity.blockSize.toNat) ∧
        (c.reply first).success = true) := by
  obtain ⟨hturns, hrest⟩ := turns_rest (d := d) h
  have hblocks : restBlocks c d size = (size + d.capacity.blockSize.toNat - 1) / d.capacity.blockSize.toNat := by
    rw [restBlocks, hrest]
  have hcommands : commands c d size = if size = 0 then 0 else 1 := by rw [commands, hturns, hrest, Nat.zero_add]
  rw [← hblocks]
  constructor
  · intro hall
    rcases Nat.eq_zero_or_pos size with hzero | hpos
    · exact .inl hzero
    · refine .inr ⟨hall.rest (by omega), hall.replies 0 ?_⟩
      rw [hcommands, if_neg (by omega)]
      exact Nat.one_pos
  · rintro (hzero | ⟨hsend, hreply⟩)
    · exact ⟨by omega, by omega, fun i hi => by rw [hcommands, if_pos hzero] at hi; omega⟩
    · refine ⟨by omega, fun _ => hsend, fun i hi => ?_⟩
      have hone : i = 0 := by
        rw [hcommands] at hi
        split at hi <;> omega
      rw [hone]
      exact hreply

theorem loop_rest_success (hinv : d.Inv) (hb : 0 < d.capacity.blockSize.toNat)
    (h : transferSize.toNat ≤ c.getMaxDataTransferLength.toNat) :
    (∃ out, loop input c d (fuel + 1) startBlock transferSize buffer issued = some (true, out)) ↔
      Completes c d transferSize.toNat issued.length := by
  have hceil := toNat_ceil hinv hb h
  have hfit : ((transferSize + d.capacity.blockSize - 1) / d.capacity.blockSize).toNat * d.capacity.blockSize.toNat
      < 2 ^ 64 := by
    have hle := Nat.div_mul_le_self (transferSize.toNat + d.capacity.blockSize.toNat - 1) d.capacity.blockSize.toNat
    have hroom := c.room
    have hsmall := hinv.blockSize
    rw [hceil]
    omega
  rw [completes_rest h, loop_rest h, ← hceil]
  by_cases hzero : transferSize.toNat = 0
  · simp [hzero]
  · rw [if_neg hzero, sender_eq hfit]
    by_cases hsend : Sendable c d ((transferSize + d.capacity.blockSize - 1) / d.capacity.blockSize).toNat
    · rw [if_pos hsend]
      simp [hzero, hsend, -UInt64.toNat_div]
    · rw [if_neg hsend]
      simp [hzero, hsend, -UInt64.toNat_div]

theorem turnBytes_pos_of_not_stuck (hb : 0 < d.capacity.blockSize.toNat) (h : ¬ Stuck c d size)
    (hover : c.getMaxDataTransferLength.toNat < size) : 0 < turnBytes c d := by
  have hle : d.capacity.blockSize.toNat ≤ c.getMaxDataTransferLength.toNat :=
    Nat.le_of_not_lt fun hlt => h ⟨hover, hlt⟩
  exact turnBytes_pos (Nat.div_pos hle hb) hb

/-- A loop whose turns get on ends, and says whether its commands have completed. -/
theorem loop_ends (hinv : d.Inv) (hb : 0 < d.capacity.blockSize.toNat) (h : ¬ Stuck c d transferSize.toNat) :
    (∃ fuel result, loop input c d fuel startBlock transferSize buffer issued = some result) ∧
    ((∃ fuel out, loop input c d fuel startBlock transferSize buffer issued = some (true, out)) ↔
      Completes c d transferSize.toNat issued.length) := by
  induction hsize : transferSize.toNat using Nat.strongRecOn generalizing startBlock transferSize buffer issued with
  | ind size ih =>
    subst hsize
    rcases Nat.lt_or_ge c.getMaxDataTransferLength.toNat transferSize.toNat with hover | hrest
    · have hstep := turnBytes_pos_of_not_stuck hb h hover
      have hafter := toNat_afterTurn (d := d) hover
      have hnot : ¬ Stuck c d (transferSize.toNat - turnBytes c d) := fun hs => h ⟨hover, hs.2⟩
      obtain ⟨hreturns, hsuccess⟩ := @ih _ (by omega) (startBlock + c.getMaxDataTransferLength / d.capacity.blockSize)
        (buffer + c.getMaxDataTransferLength / d.capacity.blockSize * d.capacity.blockSize) _
        (issued ++ [payloadFor input d startBlock (c.getMaxDataTransferLength / d.capacity.blockSize) buffer])
        (by rw [hafter]; exact hnot) hafter
      rw [List.length_append, List.length_singleton] at hsuccess
      rw [completes_turn hstep hover, ← hsuccess]
      by_cases hgo : turnBlocks c d ≤ d.lengthField ∧ (c.reply issued.length).success = true
      · obtain ⟨fuel, result, hrun⟩ := hreturns
        refine ⟨⟨fuel + 1, result, by rw [loop_turn hover, if_pos hgo]; exact hrun⟩, ?_⟩
        constructor
        · rintro ⟨fuel, out, hrun⟩
          cases fuel with
          | zero => simp [transferLoop] at hrun
          | succ fuel =>
            rw [loop_turn hover, if_pos hgo] at hrun
            exact ⟨hgo, fuel, out, hrun⟩
        · rintro ⟨_, fuel, out, hrun⟩
          exact ⟨fuel + 1, out, by rw [loop_turn hover, if_pos hgo]; exact hrun⟩
      · refine ⟨⟨1, _, by rw [loop_turn hover, if_neg hgo]⟩, ⟨?_, fun hall => absurd hall.1 hgo⟩⟩
        rintro ⟨fuel, out, hrun⟩
        cases fuel with
        | zero => simp [transferLoop] at hrun
        | succ fuel =>
          rw [loop_turn hover, if_neg hgo] at hrun
          simp at hrun
    · refine ⟨?_, ?_⟩
      · refine ⟨1, ?_⟩
        rw [loop_rest hrest]
        split
        · exact ⟨_, rfl⟩
        · exact ⟨_, rfl⟩
      · constructor
        · rintro ⟨fuel, out, hrun⟩
          cases fuel with
          | zero => simp [transferLoop] at hrun
          | succ fuel => exact (loop_rest_success hinv hb hrest).mp ⟨out, hrun⟩
        · intro hall
          exact ⟨1, (loop_rest_success hinv hb hrest).mpr hall⟩

/-- A loop that is stuck sends a command for no blocks until one fails. -/
theorem loop_stuck_ends_iff (h : Stuck c d transferSize.toNat) :
    (∃ fuel result, loop input c d fuel startBlock transferSize buffer issued = some result) ↔
      ∃ i, (c.reply (issued.length + i)).success = false := by
  have hturn : turnBlocks c d = 0 := Nat.div_eq_of_lt h.2
  have hzero : c.getMaxDataTransferLength / d.capacity.blockSize = 0 := by
    apply UInt64.toNat_inj.mp
    rw [toNat_turn, hturn]
    rfl
  have hsame : ∀ fuel issued, (c.reply issued.length).success = true →
      loop input c d (fuel + 1) startBlock transferSize buffer issued =
        loop input c d fuel startBlock transferSize buffer (issued ++ [payloadFor input d startBlock 0 buffer]) := by
    intro fuel issued hreply
    rw [loop_turn h.1, if_pos ⟨by omega, hreply⟩, hzero, UInt64.zero_mul, UInt64.sub_zero, UInt64.add_zero,
      UInt64.add_zero]
  constructor
  · rintro ⟨fuel, result, hrun⟩
    induction fuel generalizing issued with
    | zero => simp [transferLoop] at hrun
    | succ fuel ih =>
      cases hreply : (c.reply issued.length).success with
      | false => exact ⟨0, hreply⟩
      | true =>
        rw [hsame fuel issued hreply] at hrun
        obtain ⟨i, hi⟩ := ih hrun
        rw [List.length_append, List.length_singleton, Nat.add_assoc] at hi
        exact ⟨1 + i, hi⟩
  · rintro ⟨i, hi⟩
    induction i generalizing issued with
    | zero =>
      refine ⟨1, ?_⟩
      rw [Nat.add_zero] at hi
      rw [loop_turn h.1, if_neg (by simp [hi])]
      exact ⟨_, rfl⟩
    | succ i ih =>
      cases hreply : (c.reply issued.length).success with
      | false =>
        refine ⟨1, ?_⟩
        rw [loop_turn h.1, if_neg (by simp [hreply])]
        exact ⟨_, rfl⟩
      | true =>
        have hi' : (c.reply ((issued ++ [payloadFor input d startBlock 0 buffer]).length + i)).success = false := by
          rw [List.length_append, List.length_singleton, Nat.add_assoc, Nat.add_comm 1]
          exact hi
        obtain ⟨fuel, result, hrun⟩ := ih hi'
        exact ⟨fuel + 1, result, by rw [hsame fuel issued hreply]; exact hrun⟩

end

/-- A call returns, and where the product of its arguments does not fit it does not report the
transfer of what is left of it. -/
structure Ends (run : Nat → Option (Bool × Issued)) (size : Nat) : Prop where
  returns : ∃ fuel result, run fuel = some result
  honest : 2 ^ 64 ≤ size → ∀ fuel out, run fuel ≠ some (true, out)

/-- Stuck transfers meet a failure, and a wrapped product is not one that can be transferred. -/
structure EndsWhen (c : Controller) (d : Driver) (count : UInt64) (first : Nat) : Prop where
  progress : Stuck c d (count * d.capacity.blockSize).toNat → ∃ i, (c.reply (first + i)).success = false
  overflow : 2 ^ 64 ≤ count.toNat * d.capacity.blockSize.toNat → ¬ Stuck c d (count * d.capacity.blockSize).toNat →
    ¬ Completes c d (count * d.capacity.blockSize).toNat first

section
variable {c : Controller} {d : Driver} {input : Bool} {startBlock count buffer : UInt64} {issued : Issued}

theorem loop_ends_iff (hinv : d.Inv) (hb : 0 < d.capacity.blockSize.toNat) :
    Ends (fun fuel => loop input c d fuel startBlock (count * d.capacity.blockSize) buffer issued)
        (count.toNat * d.capacity.blockSize.toNat) ↔
      EndsWhen c d count issued.length := by
  by_cases hstuck : Stuck c d (count * d.capacity.blockSize).toNat
  · have hiff := @loop_stuck_ends_iff c d input startBlock buffer _ issued hstuck
    constructor
    · exact fun h => ⟨fun _ => hiff.mp h.returns, fun _ hnot => absurd hstuck hnot⟩
    · exact fun h => ⟨hiff.mpr (h.progress hstuck), fun _ _ _ => loop_stuck (Nat.div_eq_of_lt hstuck.2) hstuck.1⟩
  · obtain ⟨hreturns, hsuccess⟩ := @loop_ends c d input startBlock buffer _ issued hinv hb hstuck
    constructor
    · refine fun h => ⟨fun hs => absurd hs hstuck, fun hwrap _ hall => ?_⟩
      obtain ⟨fuel, out, hrun⟩ := hsuccess.mpr hall
      exact h.honest hwrap fuel out hrun
    · exact fun h => ⟨hreturns, fun hwrap fuel out hrun => h.overflow hwrap hstuck (hsuccess.mp ⟨fuel, out, hrun⟩)⟩

end

/-- When `ReadBlocks` and `WriteBlocks` end, and report no wrapped transfer. -/
theorem transfers_end_iff {c : Controller} {d : Driver} (hd : Reachable c d) (hb : d.capacity.blockSize ≠ 0)
    (start count buffer : UInt64) (issued : Issued) :
    (Ends (fun fuel => readBlocks fuel c d start count buffer issued) (count.toNat * d.capacity.blockSize.toNat) ↔
      EndsWhen c d count issued.length) ∧
    (Ends (fun fuel => writeBlocks fuel c d start count buffer issued) (count.toNat * d.capacity.blockSize.toNat) ↔
      EndsWhen c d count issued.length) := by
  have hb' : 0 < d.capacity.blockSize.toNat := Nat.pos_of_ne_zero fun h => hb (UInt64.toNat_inj.mp h)
  exact ⟨@loop_ends_iff c d true start count buffer issued hd.inv hb',
    @loop_ends_iff c d false start count buffer issued hd.inv hb'⟩

/-- Blocks of 4 MB, twice what a command may transfer. -/
def largeBlocks : Controller := answering [0, 0, 0, 15, 0, 0x40, 0, 0]

theorem largeBlocks_reachable : Reachable largeBlocks { lun := 0, capacity := ⟨15, 0x400000⟩ } :=
  .postInitialization (fun _ issued => (true, issued)) 0 0 (.create 0)
    (rfl : postInitialization largeBlocks (fun _ issued => (true, issued)) { lun := 0 } 0 0 [] =
      (true, { lun := 0, capacity := ⟨15, 0x400000⟩ }, _))

theorem largeBlocks_stuck : Stuck largeBlocks { lun := 0, capacity := ⟨15, 0x400000⟩ } 0x400000 :=
  ⟨by decide, by decide⟩

/-- Ten sectors do end. -/
theorem transfers_end_sectors :
    Ends (fun fuel => readBlocks fuel sectors { lun := 0, capacity := ⟨8192, 512⟩ } 0 10 0x100000 []) (10 * 512) := by
  refine (transfers_end_iff sectors_reachable (by decide) 0 10 0x100000 []).1.mpr ⟨fun h => ?_, fun h => ?_⟩
  · exact absurd h.1 (by decide)
  · exact absurd h (by decide)

/-- The first of the large blocks is never read: the loop sends commands for no blocks for ever. -/
theorem transfers_do_not_end :
    ¬ ∀ (c : Controller) (d : Driver), Reachable c d → d.capacity.blocksCount ≠ 0 → d.capacity.blockSize ≠ 0 →
      ∀ (start count buffer : UInt64) (issued : Issued),
        Ends (fun fuel => readBlocks fuel c d start count buffer issued)
          (count.toNat * d.capacity.blockSize.toNat) := by
  intro h
  have hends := h _ _ largeBlocks_reachable (by decide) (by decide) 0 1 0x100000 []
  obtain ⟨i, hi⟩ := (@loop_stuck_ends_iff largeBlocks { lun := 0, capacity := ⟨15, 0x400000⟩ } true 0 0x100000 0x400000
    [] largeBlocks_stuck).mp hends.returns
  cases hi

/-! ## The recorded capacity -/

/-- The capacity is what the device reports: one more block than the address of the last, and a block
is passed on to the driver iff it has such an address. -/
structure Faithful (c : Controller) (issued : Issued) (cap : CapacityInformation) : Prop where
  blocksCount : cap.blocksCount.toNat = (reported c issued).1 + 1
  blockSize : cap.blockSize.toNat = (reported c issued).2
  accepted : ∀ i : Block.Interface, i.getBlocksCount = cap.blocksCount → i.getBlockSize = cap.blockSize →
    ∀ n : UInt64, (n.toNat + 2) * cap.blockSize.toNat ≤ 2 ^ 64 → ∀ buffer,
      (Block.Device.read i (n * cap.blockSize) cap.blockSize buffer).requests ≠ [] ↔ n.toNat ≤ (reported c issued).1

/-- The recorded number of blocks is one less than the device has: its last block is refused. -/
theorem readCapacity_off_by_one {c : Controller} {d d' : Driver} {raw10 raw16 : UInt64} {issued out : Issued}
    {cap : CapacityInformation} (h : readCapacity c d raw10 raw16 issued = (some cap, d', out)) :
    ¬ Faithful c out cap ∧
      ∀ i : Block.Interface, i.getBlocksCount = cap.blocksCount → i.getBlockSize = cap.blockSize →
        cap.blockSize ≠ 0 → ∀ n : UInt64, (n.toNat + 2) * cap.blockSize.toNat ≤ 2 ^ 64 → ∀ buffer,
          ((Block.Device.read i (n * cap.blockSize) cap.blockSize buffer).requests ≠ [] ↔
            n.toNat < (reported c out).1) := by
  have hcount := (readCapacity_some h).1.blocksCount
  constructor
  · intro hf
    have hone := hf.blocksCount
    omega
  · intro i hblocks hsize hb n hfit buffer
    rw [← hcount, ← hblocks]
    rw [← hsize] at hb hfit ⊢
    exact Block.device_read_block_iff hb hfit

/-- Of the sectors, block 8192 is there and is refused. -/
theorem readCapacity_off_by_one_sectors :
    ∃ d out, readCapacity sectors { lun := 0 } 0 0 [] = (some ⟨8192, 512⟩, d, out) ∧
      ¬ Faithful sectors out ⟨8192, 512⟩ :=
  ⟨_, _, rfl, (@readCapacity_off_by_one sectors { lun := 0 } _ 0 0 [] _ ⟨8192, 512⟩ rfl).1⟩

theorem readCapacity_not_faithful :
    ¬ ∀ (c : Controller) (d d' : Driver) (raw10 raw16 : UInt64) (issued out : Issued) (cap : CapacityInformation),
      readCapacity c d raw10 raw16 issued = (some cap, d', out) → Faithful c out cap := by
  intro h
  have hf := h sectors { lun := 0 } _ 0 0 [] _ ⟨8192, 512⟩ rfl
  have hone : 8192 = 8192 + 1 := hf.blocksCount
  omega

end BadLands.Devices.Scsi
