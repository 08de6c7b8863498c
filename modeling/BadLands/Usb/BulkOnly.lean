import BadLands.Usb.Trb
import Mathlib.Tactic.IntervalCases

/-!
# Bulk-only transport

`BBB::Driver::SendCommand` sends a command wrapper, moves the data and receives a status wrapper.
The three transfers go through one buffer and one Normal TRB each (`SendNormalBuffer`).

What the device and its controller do is a `Behaviour`: for each stage whether the endpoint has a
ring, the bytes that arrive and the event that is handled before the wait ends. `decode` is the
controller's reading of a Normal TRB.

`transferLength_decoded_iff`: the length field has 17 bits, so the controller reads the length that
was asked for exactly below 128 KB, while `SendCommand` accepts up to 2 MB.
-/
namespace BadLands.Usb

/-! ## Normal TRBs -/

/-- mirrors kernel/include/devices/USB/xHCI/TRB.hpp:188-201 -/
structure NormalDescriptor where
  bufferPointer : BitVec 64
  transferLength : BitVec 32
  tdSize : BitVec 8
  interrupterTarget : BitVec 16
  cycle : Bool
  evaluateNextTRB : Bool
  interruptOnShortPacket : Bool
  noSnoop : Bool
  chain : Bool
  interruptOnCompletion : Bool
  immediateData : Bool
  blockEventInterrupt : Bool
  deriving DecidableEq, Repr

namespace TRB

/-- mirrors kernel/src/devices/USB/xHCI/TRB.cpp:44-48 -/
def getCompletionCode (t : TRB) : BitVec 32 := getPacked t.data2 0xFF000000#32 24

/-- mirrors kernel/src/devices/USB/xHCI/TRB.cpp:56-62 -/
def getPointer (t : TRB) : BitVec 64 := t.data1 ++ t.data0

end TRB

/-- mirrors kernel/src/devices/USB/xHCI/TRB.cpp:334-363 -/
def NormalTRB.create (descriptor : NormalDescriptor) : TRB :=
  let trb := TRB.zero
  let trb := trb.setDataBufferPointer descriptor.bufferPointer
  let trb := trb.setTRBTransferLength descriptor.transferLength
  let trb := trb.setTDSize descriptor.tdSize
  let trb := trb.setInterrupterTarget descriptor.interrupterTarget
  let trb := trb.setCycle descriptor.cycle
  let trb := trb.setENT descriptor.evaluateNextTRB
  let trb := trb.setISP descriptor.interruptOnShortPacket
  let trb := trb.setNoSnoop descriptor.noSnoop
  let trb := trb.setChain descriptor.chain
  let trb := trb.setInterruptOnCompletion descriptor.interruptOnCompletion
  let trb := trb.setImmediateData descriptor.immediateData
  let trb := trb.setTRBType 1#32
  if descriptor.blockEventInterrupt then { trb with data3 := trb.data3 ||| 0x00000200#32 } else trb

/-- A one-bit field of the last word, as the controller reads it. -/
def TRB.flag (t : TRB) (shift : Nat) : Bool := t.data3.getLsbD shift

/-- The fields of a Normal TRB, as the controller reads them: 17 bits of length, 5 of TD size, 10 of
interrupter target. -/
def NormalTRB.decode (t : TRB) : NormalDescriptor where
  bufferPointer := t.data1 ++ t.data0
  transferLength := getPacked t.data2 0x0001FFFF#32 0
  tdSize := (getPacked t.data2 0x003E0000#32 17).setWidth 8
  interrupterTarget := (getPacked t.data2 0xFFC00000#32 22).setWidth 16
  cycle := t.flag 0
  evaluateNextTRB := t.flag 1
  interruptOnShortPacket := t.flag 2
  noSnoop := t.flag 3
  chain := t.flag 4
  interruptOnCompletion := t.flag 5
  immediateData := t.flag 6
  blockEventInterrupt := t.flag 9

section
variable {target mask other value : BitVec 32} {shift : Nat}

theorem modifyPacked_getLsbD (i : Nat) : (modifyPacked target mask shift value).getLsbD i =
    if mask.getLsbD i then decide (i < 32) && (!decide (i < shift) && value.getLsbD (i - shift))
    else target.getLsbD i := by
  unfold modifyPacked
  rw [BitVec.getLsbD_or, BitVec.getLsbD_and, BitVec.getLsbD_and, BitVec.getLsbD_not, BitVec.getLsbD_shiftLeft]
  by_cases hi : i < 32
  · cases mask.getLsbD i with
    | true => simp [hi]
    | false => simp [hi]
  · simp [hi, BitVec.getLsbD_of_ge, Nat.le_of_not_lt hi]

theorem getPacked_other {at' : Nat} (h : ~~~mask &&& other = other) :
    getPacked (modifyPacked target mask shift value) other at' = getPacked target other at' := by
  unfold getPacked
  rw [modifyPacked_other h]

theorem getPacked_same : getPacked (modifyPacked target mask shift value) mask shift =
    ((value <<< shift) &&& mask) >>> shift := by
  unfold getPacked
  rw [modifyPacked_same]

end

namespace NormalTRB

theorem create_data2 (x : NormalDescriptor) : (create x).data2 =
    modifyPacked (modifyPacked (modifyPacked 0#32 0x0001FFFF#32 0 x.transferLength)
      0x003E0000#32 17 (x.tdSize.setWidth 32)) 0xFFC00000#32 22 (x.interrupterTarget.setWidth 32) := by
  unfold create
  split
  · rfl
  · rfl

theorem create_pointer (x : NormalDescriptor) : (create x).data1 ++ (create x).data0 = x.bufferPointer := by
  have hwords : (create x).data1 ++ (create x).data0 =
      (x.bufferPointer >>> 32).setWidth 32 ++ x.bufferPointer.setWidth 32 := by
    unfold create
    split
    · rfl
    · rfl
  rw [hwords, append_halves]

def flagBit (flag : Bool) : BitVec 32 := if flag then 1#32 else 0#32

theorem create_data3 (x : NormalDescriptor) : (create x).data3 =
    (let w := modifyPacked 0#32 0x00000001#32 0 (flagBit x.cycle)
     let w := modifyPacked w 0x00000002#32 1 (flagBit x.evaluateNextTRB)
     let w := modifyPacked w 0x00000004#32 2 (flagBit x.interruptOnShortPacket)
     let w := modifyPacked w 0x00000008#32 3 (flagBit x.noSnoop)
     let w := modifyPacked w 0x00000010#32 4 (flagBit x.chain)
     let w := modifyPacked w 0x00000020#32 5 (flagBit x.interruptOnCompletion)
     let w := modifyPacked w 0x00000040#32 6 (flagBit x.immediateData)
     let w := modifyPacked w 0x0000FC00#32 10 1#32
     if x.blockEventInterrupt then w ||| 0x00000200#32 else w) := by
  unfold create
  split
  · rfl
  · rfl

theorem flagBit_zero (flag : Bool) : (flagBit flag).getLsbD 0 = flag := by
  cases flag <;> decide

/-- The controller reads the descriptor back, with the three numbers cut to their fields. -/
theorem decode_create (x : NormalDescriptor) : decode (create x) = { x with
    transferLength := x.transferLength &&& 0x0001FFFF#32
    tdSize := x.tdSize &&& 0x1F#8
    interrupterTarget := x.interrupterTarget &&& 0x03FF#16 } := by
  have hflags : ∀ shift, (create x).flag shift = (create x).data3.getLsbD shift := fun _ => rfl
  unfold decode
  congr 1
  · exact create_pointer x
  · rw [create_data2, getPacked_other (by decide), getPacked_other (by decide), getPacked_same]
    simp
  · rw [create_data2, getPacked_other (by decide), getPacked_same]
    apply BitVec.eq_of_getLsbD_eq
    intro i hi
    interval_cases i <;> simp
  · rw [create_data2, getPacked_same]
    apply BitVec.eq_of_getLsbD_eq
    intro i hi
    interval_cases i <;> simp
  -- the flags: only the store to the bit itself counts
  all_goals
    rw [hflags, create_data3]
    cases x.blockEventInterrupt <;>
      simp only [if_true, BitVec.getLsbD_or, modifyPacked_getLsbD, BitVec.reduceGetLsb, flagBit_zero, Nat.reduceLT,
        Nat.reduceSub, Nat.lt_irrefl, Nat.sub_self, decide_true, decide_false, Bool.not_false, Bool.true_and,
        Bool.or_false, Bool.false_eq_true, if_false, Bool.false_or, Bool.not_true]

theorem create_getType (x : NormalDescriptor) : (create x).getType = 1#32 := by
  have hbei : ∀ w : BitVec 32, (w ||| 0x00000200#32) &&& 0x0000FC00#32 = w &&& 0x0000FC00#32 := by
    intro w
    rw [BitVec.and_or_distrib_right]
    simp
  have htype : (create x).data3 &&& 0x0000FC00#32 = (1#32 <<< 10) &&& 0x0000FC00#32 := by
    rw [create_data3]
    cases x.blockEventInterrupt with
    | true => exact (hbei _).trans modifyPacked_same
    | false => exact modifyPacked_same
  unfold TRB.getType getPacked
  rw [htype]
  decide

end NormalTRB

/-! ## The driver -/

namespace BulkOnly

/-- A pointer and what is there, or null. -/
abbrev Buffer := Option (Nat → BitVec 8)

/-- mirrors kernel/include/devices/Storage/Controller.hpp:26-33 -/
structure CommandPayload where
  commandLength : Nat
  commandBuffer : Buffer
  dataLength : Nat
  dataBuffer : Buffer
  isInputTransfer : Bool
  lun : BitVec 8

/-- mirrors kernel/include/devices/USB/MassStorage/BBB/Driver.hpp:51-57 -/
structure CBW where
  signature : BitVec 32
  tag : BitVec 32
  dataTransferLength : BitVec 32
  flags : BitVec 8
  lun : BitVec 8
  commandLength : BitVec 8
  commandBlock : Nat → BitVec 8

def CBW.SIZE : Nat := 31
def CSW.SIZE : Nat := 13
def CSW.SIGNATURE : BitVec 32 := 0x53425355#32

/-- mirrors kernel/include/devices/USB/MassStorage/BBB/Driver.hpp:60,91,122-123 -/
def getMaxCommandLength : Nat := 16
def getMaxDataTransferLength : Nat := 2 * 1024 * 1024

/-- `stack` is what the command block holds before, which is not initialised.
mirrors kernel/include/devices/USB/MassStorage/BBB/Driver.hpp:63-78 -/
def CBW.create (payload : CommandPayload) (commandBuffer : Nat → BitVec 8) (tag : BitVec 32)
    (stack : Nat → BitVec 8) : CBW where
  signature := 0x43425355#32
  tag := tag
  dataTransferLength := BitVec.ofNat 32 payload.dataLength
  flags := if payload.isInputTransfer ∧ payload.dataLength > 0 then 0x80#8 else 0x00#8
  lun := payload.lun
  commandLength := BitVec.ofNat 8 payload.commandLength
  commandBlock := fun i =>
    if i < payload.commandLength ∧ i < getMaxCommandLength then commandBuffer i else stack i

/-- A word in memory, least significant byte first. -/
def wordBytes (w : BitVec 32) : List (BitVec 8) :=
  [w.setWidth 8, (w >>> 8).setWidth 8, (w >>> 16).setWidth 8, (w >>> 24).setWidth 8]

def wordAt (bytes : Nat → BitVec 8) (i : Nat) : BitVec 32 :=
  bytes (i + 3) ++ bytes (i + 2) ++ bytes (i + 1) ++ bytes i

/-- The 31 bytes of a command wrapper. -/
def CBW.bytes (cbw : CBW) : List (BitVec 8) :=
  wordBytes cbw.signature ++ wordBytes cbw.tag ++ wordBytes cbw.dataTransferLength ++
    [cbw.flags, cbw.lun, cbw.commandLength] ++ (List.range getMaxCommandLength).map cbw.commandBlock

/-- mirrors kernel/include/devices/USB/MassStorage/BBB/Driver.hpp:81-85 -/
structure CSW where
  signature : BitVec 32
  tag : BitVec 32
  dataResidue : BitVec 32
  status : BitVec 8
  deriving DecidableEq, Repr

/-- The status wrapper that 13 bytes are. -/
def CSW.ofBytes (bytes : Nat → BitVec 8) : CSW := ⟨wordAt bytes 0, wordAt bytes 4, wordAt bytes 8, bytes 12⟩

/-- `bytes` over the start of `memory`, as `memcpy` or the controller puts them. -/
def overlay (memory : Nat → BitVec 8) (bytes : List (BitVec 8)) : Nat → BitVec 8 :=
  fun i => (bytes[i]?).getD (memory i)

/-- `bytes` over the first `n` of `memory`. -/
def copy (memory bytes : Nat → BitVec 8) (n : Nat) : Nat → BitVec 8 :=
  fun i => if i < n then bytes i else memory i

/-- One transfer of a call, by the endpoint it goes to. -/
structure Transfer where
  endpoint : BitVec 8
  isInput : Bool
  trb : TRB
  deriving DecidableEq, Repr

/-- `lastSentTrb` is the physical address of the TRB. `transfers`: what was handed to the rings so far.
mirrors kernel/include/devices/USB/MassStorage/BBB/Driver.hpp:94-100 -/
structure Driver where
  bulkIn : BitVec 8
  bulkOut : BitVec 8
  currentTag : BitVec 32
  ioBuffer : Nat → BitVec 8
  physIoBuffer : BitVec 64
  lastSentTrb : Option (BitVec 64)
  lastTransferResult : TRB
  transferComplete : Bool
  transfers : List Transfer

/-- What happens in one stage. `ring`: the cycle of the endpoint's ring, when there is one; `address`:
where the TRB is put; `bytes`: what the device returns; `event`: a transfer event that is signalled
before the wait ends. -/
structure Stage where
  ring : Option Bool
  address : BitVec 64
  bytes : List (BitVec 8)
  event : Option TRB

/-- `available`: the device can be made busy. -/
structure Behaviour where
  available : Bool
  stack : Nat → BitVec 8
  command : Stage
  data : Stage
  status : Stage

/-- mirrors kernel/src/devices/USB/MassStorage/BBB/Driver.cpp:287-290 -/
def handleEvent (d : Driver) (trb : TRB) : Driver := { d with lastTransferResult := trb, transferComplete := true }

/-- The device passes an event on to the driver that waits for its TRB.
mirrors kernel/src/devices/USB/xHCI/Device.cpp:1352-1372,1745-1750 -/
def signalTransferComplete (d : Driver) (trb : TRB) : Driver :=
  if d.lastSentTrb = some trb.getPointer then handleEvent d trb else d

/-- mirrors kernel/src/devices/USB/MassStorage/BBB/Driver.cpp:65-78 -/
def normalDescriptor (physIoBuffer : BitVec 64) (length : BitVec 32) (cycle : Bool) : NormalDescriptor where
  bufferPointer := physIoBuffer
  transferLength := length
  tdSize := 0#8
  interrupterTarget := 0#16
  cycle := cycle
  evaluateNextTRB := false
  interruptOnShortPacket := true
  noSnoop := false
  chain := false
  interruptOnCompletion := true
  immediateData := false
  blockEventInterrupt := false

/-- The device moves at most what the controller reads in the TRB. The wait ends with the flag set or
after a second; the flag is then cleared.
mirrors kernel/src/devices/USB/MassStorage/BBB/Driver.cpp:52-91 -/
def sendNormalBuffer (d : Driver) (stage : Stage) (length : BitVec 32) (endpoint : BitVec 8) (isInput : Bool) :
    Driver × Bool :=
  match stage.ring with
  | none => (d, false)
  | some cycle =>
    let trb := NormalTRB.create (normalDescriptor d.physIoBuffer length cycle)
    let moved := stage.bytes.take (NormalTRB.decode trb).transferLength.toNat
    let d := { d with
      transfers := d.transfers ++ [⟨endpoint, isInput, trb⟩]
      lastSentTrb := some stage.address
      ioBuffer := if isInput then overlay d.ioBuffer moved else d.ioBuffer }
    let d := stage.event.elim d (signalTransferComplete d)
    ({ d with lastSentTrb := none, transferComplete := false }, d.transferComplete)

/-- `hang`: the loop behind a command wrapper that was not sent. -/
inductive Outcome where
  | success
  | failure
  | hang
  deriving DecidableEq, Repr

/-- What a call leaves: the driver, the caller's buffer and what it returns. -/
structure Call where
  driver : Driver
  dataBuffer : Buffer
  outcome : Outcome

/-- The command stage.
mirrors kernel/src/devices/USB/MassStorage/BBB/Driver.cpp:353-356 -/
def sendWrapper (d : Driver) (stage : Stage) (cbw : CBW) : Driver × Bool :=
  let d := { d with currentTag := d.currentTag + 1#32, ioBuffer := overlay d.ioBuffer cbw.bytes }
  sendNormalBuffer d stage (BitVec.ofNat 32 CBW.SIZE) d.bulkOut false

/-- The status stage, and what the call returns.
mirrors kernel/src/devices/USB/MassStorage/BBB/Driver.cpp:392-423 -/
def receiveStatus (d : Driver) (stage : Stage) (tag : BitVec 32) : Driver × Outcome :=
  let sent := sendNormalBuffer d stage (BitVec.ofNat 32 CSW.SIZE) d.bulkIn true
  if !sent.2 then (sent.1, .failure)
  else
    let csw := CSW.ofBytes sent.1.ioBuffer
    if csw.signature ≠ CSW.SIGNATURE then (sent.1, .failure)
    else if csw.tag ≠ tag then (sent.1, .failure)
    else if csw.status ≠ 0#8 then (sent.1, .failure)
    else (sent.1, .success)

/-- The data stage: the driver, the caller's buffer, and whether the call goes on.
mirrors kernel/src/devices/USB/MassStorage/BBB/Driver.cpp:366-390 -/
def moveData (d : Driver) (stage : Stage) (payload : CommandPayload) : Driver × Buffer × Bool :=
  if payload.dataLength > 0 then
    if payload.isInputTransfer then
      let sent := sendNormalBuffer d stage (BitVec.ofNat 32 payload.dataLength) d.bulkIn true
      if !sent.2 then (sent.1, payload.dataBuffer, false)
      else (sent.1, payload.dataBuffer.map fun data => copy data sent.1.ioBuffer payload.dataLength, true)
    else
      let filled := payload.dataBuffer.elim d.ioBuffer fun data => copy d.ioBuffer data payload.dataLength
      let sent :=
        sendNormalBuffer { d with ioBuffer := filled } stage (BitVec.ofNat 32 payload.dataLength) d.bulkOut false
      if !sent.2 then (sent.1, payload.dataBuffer, false) else (sent.1, payload.dataBuffer, true)
  else (d, payload.dataBuffer, true)

/-- The part of `SendCommand` behind its checks.
mirrors kernel/src/devices/USB/MassStorage/BBB/Driver.cpp:351-423 -/
def transport (d : Driver) (b : Behaviour) (payload : CommandPayload) (commandBuffer : Nat → BitVec 8) : Call :=
  let cbw := CBW.create payload commandBuffer d.currentTag b.stack
  let sent := sendWrapper d b.command cbw
  if !sent.2 then ⟨sent.1, payload.dataBuffer, .hang⟩
  else
    let moved := moveData sent.1 b.data payload
    if !moved.2.2 then ⟨moved.1, moved.2.1, .failure⟩
    else
      let received := receiveStatus moved.1 b.status cbw.tag
      ⟨received.1, moved.2.1, received.2⟩

/-- mirrors kernel/src/devices/USB/MassStorage/BBB/Driver.cpp:331-424 -/
def sendCommand (d : Driver) (b : Behaviour) (payload : CommandPayload) : Call :=
  if !b.available then ⟨d, payload.dataBuffer, .failure⟩
  else if payload.commandLength > getMaxCommandLength
      ∨ (payload.dataBuffer.isNone ∧ payload.dataLength > 0)
      ∨ payload.dataLength > getMaxDataTransferLength then ⟨d, payload.dataBuffer, .failure⟩
  else if payload.commandLength = 0 then ⟨d, payload.dataBuffer, .success⟩
  else match payload.commandBuffer with
    | none => ⟨d, payload.dataBuffer, .failure⟩
    | some commandBuffer => transport d b payload commandBuffer

/-- The event of the stage's own TRB. -/
def Stage.completion (stage : Stage) : Option TRB := stage.event.filter fun e => e.getPointer = stage.address

/-- The driver behind a transfer on a ring with this cycle. -/
def Driver.transferred (d : Driver) (stage : Stage) (length : BitVec 32) (endpoint : BitVec 8) (isInput cycle : Bool) :
    Driver :=
  let trb := NormalTRB.create (normalDescriptor d.physIoBuffer length cycle)
  { d with
    transfers := d.transfers ++ [⟨endpoint, isInput, trb⟩]
    ioBuffer :=
      if isInput then overlay d.ioBuffer (stage.bytes.take (NormalTRB.decode trb).transferLength.toNat) else d.ioBuffer
    lastSentTrb := none
    lastTransferResult := stage.completion.getD d.lastTransferResult
    transferComplete := false }

section
variable {d : Driver} {b : Behaviour} {stage : Stage} {payload : CommandPayload} {length : BitVec 32}
  {endpoint : BitVec 8} {isInput : Bool}

/-- A transfer is taken for complete when the flag was set before or the event of its TRB came; what
the event says is not looked at. -/
theorem sendNormalBuffer_eq : sendNormalBuffer d stage length endpoint isInput =
    match stage.ring with
    | none => (d, false)
    | some cycle =>
      (d.transferred stage length endpoint isInput cycle, d.transferComplete || stage.completion.isSome) := by
  unfold sendNormalBuffer
  cases stage.ring with
  | none => rfl
  | some cycle =>
    unfold Driver.transferred Stage.completion
    cases stage.event with
    | none => simp
    | some event =>
      by_cases h : event.getPointer = stage.address
      · simp [signalTransferComplete, handleEvent, Option.filter, h]
      · simp [signalTransferComplete, Option.filter, h, Ne.symm h]

theorem sendNormalBuffer_transfers : (sendNormalBuffer d stage length endpoint isInput).1.transfers =
    d.transfers ++ stage.ring.toList.map fun cycle =>
      ⟨endpoint, isInput, NormalTRB.create (normalDescriptor d.physIoBuffer length cycle)⟩ := by
  rw [sendNormalBuffer_eq]
  cases stage.ring with
  | none => simp
  | some cycle => rfl

theorem sendNormalBuffer_ring (h : (sendNormalBuffer d stage length endpoint isInput).2 = true) :
    ∃ cycle, stage.ring = some cycle := by
  rw [sendNormalBuffer_eq] at h
  cases hring : stage.ring with
  | none =>
    rw [hring] at h
    cases h
  | some cycle => exact ⟨cycle, rfl⟩

theorem sendNormalBuffer_physIoBuffer :
    (sendNormalBuffer d stage length endpoint isInput).1.physIoBuffer = d.physIoBuffer := by
  rw [sendNormalBuffer_eq]
  cases stage.ring with
  | none => rfl
  | some cycle => rfl

end

/-! ## Lengths -/

/-- The payloads that pass the checks. -/
structure Accepts (payload : CommandPayload) : Prop where
  command : payload.commandLength ≤ getMaxCommandLength
  data : payload.dataBuffer.isSome ∨ payload.dataLength = 0
  length : payload.dataLength ≤ getMaxDataTransferLength
  buffer : payload.commandLength = 0 ∨ payload.commandBuffer.isSome

/-- The data stage is the second transfer of a call. -/
def DataTransfer (d : Driver) (b : Behaviour) (payload : CommandPayload) (t : Transfer) : Prop :=
  0 < payload.dataLength ∧ (sendCommand d b payload).driver.transfers[d.transfers.length + 1]? = some t

/-- The length, through the three layers: the TRB, its other fields, and the command wrapper. -/
structure LengthSurvives (payload : CommandPayload) : Prop where
  length : ∀ d b t, DataTransfer d b payload t →
    (NormalTRB.decode t.trb).transferLength.toNat = payload.dataLength
  others : ∀ d b t, DataTransfer d b payload t → t.trb.getType = 1#32 ∧ ∃ cycle ∈ b.data.ring,
    NormalTRB.decode t.trb = normalDescriptor d.physIoBuffer (NormalTRB.decode t.trb).transferLength cycle
  wrapper : ∀ commandBuffer tag stack,
    (CBW.create payload commandBuffer tag stack).dataTransferLength.toNat = payload.dataLength

section
variable {d : Driver} {b : Behaviour} {payload : CommandPayload} {commandBuffer : Nat → BitVec 8} {t : Transfer}

/-- What a call does, by the check that ends it. -/
theorem sendCommand_cases (d : Driver) (b : Behaviour) (payload : CommandPayload) :
    (sendCommand d b payload).driver = d ∨ ∃ commandBuffer, payload.commandBuffer = some commandBuffer ∧
      payload.commandLength ≠ 0 ∧ sendCommand d b payload = transport d b payload commandBuffer := by
  unfold sendCommand
  split
  · exact .inl rfl
  split
  · exact .inl rfl
  split
  · exact .inl rfl
  · next hne =>
    cases payload.commandBuffer with
    | none => exact .inl rfl
    | some commandBuffer => exact .inr ⟨commandBuffer, rfl, hne, rfl⟩

theorem sendCommand_of_accepts (h : Accepts payload) (hb : b.available = true) (hne : payload.commandLength ≠ 0)
    (hc : payload.commandBuffer = some commandBuffer) :
    sendCommand d b payload = transport d b payload commandBuffer := by
  have hdata : ¬ (payload.dataBuffer.isNone = true ∧ payload.dataLength > 0) := by
    rintro ⟨hnone, hpos⟩
    rcases h.data with hsome | hzero
    · rw [Option.isNone_iff_eq_none] at hnone
      rw [hnone] at hsome
      cases hsome
    · omega
  have hcommand := h.command
  have hlength := h.length
  have hchecks : ¬ (payload.commandLength > getMaxCommandLength
      ∨ (payload.dataBuffer.isNone = true ∧ payload.dataLength > 0)
      ∨ payload.dataLength > getMaxDataTransferLength) := by
    rintro (hl | hl | hl)
    · omega
    · exact hdata hl
    · omega
  unfold sendCommand
  rw [hb, if_neg (by decide), if_neg hchecks, if_neg hne, hc]

theorem receiveStatus_transfers (d : Driver) (stage : Stage) (tag : BitVec 32) :
    d.transfers <+: (receiveStatus d stage tag).1.transfers := by
  have hsent : (receiveStatus d stage tag).1 =
      (sendNormalBuffer d stage (BitVec.ofNat 32 CSW.SIZE) d.bulkIn true).1 := by
    unfold receiveStatus
    simp only
    split_ifs <;> rfl
  rw [hsent, sendNormalBuffer_transfers]
  exact List.prefix_append _ _

/-- The data stage hands one TRB to the ring, when there is one. -/
theorem moveData_transfers (stage : Stage) (hpos : 0 < payload.dataLength) :
    ∃ endpoint isInput, (moveData d stage payload).1.transfers = d.transfers ++ stage.ring.toList.map fun cycle =>
      ⟨endpoint, isInput,
        NormalTRB.create (normalDescriptor d.physIoBuffer (BitVec.ofNat 32 payload.dataLength) cycle)⟩ := by
  unfold moveData
  rw [if_pos hpos]
  split
  · refine ⟨d.bulkIn, true, ?_⟩
    simp only
    split <;> exact sendNormalBuffer_transfers
  · refine ⟨d.bulkOut, false, ?_⟩
    simp only
    split <;> exact sendNormalBuffer_transfers

theorem moveData_ring {stage : Stage} (hpos : 0 < payload.dataLength) (h : (moveData d stage payload).2.2 = true) :
    ∃ cycle, stage.ring = some cycle := by
  unfold moveData at h
  rw [if_pos hpos] at h
  split at h
  · simp only at h
    split at h
    · cases h
    · next hsent => exact sendNormalBuffer_ring (by simpa using hsent)
  · simp only at h
    split at h
    · cases h
    · next hsent => exact sendNormalBuffer_ring (by simpa using hsent)

/-- The second transfer behind the checks, when there are data: the one of the data stage. -/
theorem transport_second (d : Driver) (b : Behaviour) (commandBuffer : Nat → BitVec 8) (hpos : 0 < payload.dataLength) :
    ∃ endpoint isInput,
    (transport d b payload commandBuffer).driver.transfers[d.transfers.length + 1]? =
      if (sendWrapper d b.command (CBW.create payload commandBuffer d.currentTag b.stack)).2 then
        b.data.ring.map fun cycle => ⟨endpoint, isInput, NormalTRB.create
          (normalDescriptor d.physIoBuffer (BitVec.ofNat 32 payload.dataLength) cycle)⟩
      else none := by
  rw [transport]
  simp only
  generalize CBW.create payload commandBuffer d.currentTag b.stack = cbw
  have hwrapper : (sendWrapper d b.command cbw).1.transfers.length = d.transfers.length + b.command.ring.toList.length := by
    rw [sendWrapper, sendNormalBuffer_transfers, List.length_append, List.length_map]
  have hphys : (sendWrapper d b.command cbw).1.physIoBuffer = d.physIoBuffer := sendNormalBuffer_physIoBuffer
  have hcommand : (sendWrapper d b.command cbw).2 = true → ∃ cycle, b.command.ring = some cycle := sendNormalBuffer_ring
  generalize sendWrapper d b.command cbw = sent at hwrapper hphys hcommand
  obtain ⟨endpoint, isInput, hmoved⟩ := moveData_transfers (d := sent.1) b.data hpos
  refine ⟨endpoint, isInput, ?_⟩
  cases hok : sent.2 with
  | false =>
    have hring : b.command.ring.toList.length ≤ 1 := by cases b.command.ring <;> simp
    simp only [Bool.not_false, if_true, Bool.false_eq_true, if_false]
    exact List.getElem?_eq_none (by omega)
  | true =>
    obtain ⟨cycle, hcycle⟩ := hcommand hok
    rw [hcycle, Option.toList_some, List.length_singleton] at hwrapper
    have hsecond : (moveData sent.1 b.data payload).1.transfers[d.transfers.length + 1]? =
        b.data.ring.map fun cycle => ⟨endpoint, isInput, NormalTRB.create
          (normalDescriptor d.physIoBuffer (BitVec.ofNat 32 payload.dataLength) cycle)⟩ := by
      rw [hmoved, List.getElem?_append_right (by omega), hwrapper, hphys]
      cases b.data.ring with
      | none => simp
      | some cycle => simp
    simp only [Bool.not_true, Bool.false_eq_true, if_false, if_true]
    rw [← hsecond]
    split
    · rfl
    · next hgo =>
      -- the status stage adds behind it
      obtain ⟨cycle, hring⟩ := moveData_ring hpos (by simpa using hgo)
      rw [hring, Option.map_some] at hsecond
      obtain ⟨hlt, -⟩ := List.getElem?_eq_some_iff.mp hsecond
      obtain ⟨rest, hrest⟩ := receiveStatus_transfers (moveData sent.1 b.data payload).1 b.status cbw.tag
      simp only
      rw [← hrest, List.getElem?_append_left hlt]

theorem dataTransfer_trb (h : DataTransfer d b payload t) : payload.commandLength ≠ 0 ∧ ∃ cycle ∈ b.data.ring,
    t.trb = NormalTRB.create (normalDescriptor d.physIoBuffer (BitVec.ofNat 32 payload.dataLength) cycle) := by
  obtain ⟨hpos, ht⟩ := h
  rcases sendCommand_cases d b payload with hsame | ⟨commandBuffer, -, hne, hcall⟩
  · rw [hsame, List.getElem?_eq_none (by omega)] at ht
    cases ht
  obtain ⟨endpoint, isInput, hsecond⟩ := transport_second d b commandBuffer hpos
  rw [hcall, hsecond] at ht
  split at ht
  · obtain ⟨cycle, hring, rfl⟩ := Option.map_eq_some_iff.mp ht
    exact ⟨hne, cycle, hring, rfl⟩
  · cases ht

theorem and_length (n : Nat) : (BitVec.ofNat 32 n &&& 0x0001FFFF#32).toNat = n % 2 ^ 17 := by
  have hmask : (0x0001FFFF#32).toNat = 2 ^ 17 - 1 := by decide
  rw [BitVec.toNat_and, hmask, Nat.and_two_pow_sub_one_eq_mod, BitVec.toNat_ofNat]
  omega

/-- The driver and device of a call that gets to its data stage. -/
def plainStage : Stage := ⟨some true, 0#64, [], some TRB.zero⟩
def plainBehaviour : Behaviour := ⟨true, fun _ => 0#8, plainStage, plainStage, plainStage⟩
def plainDriver : Driver := ⟨0x81#8, 0x02#8, 0#32, fun _ => 0#8, 0#64, none, TRB.zero, false, []⟩

/-- Every payload with data that is accepted gets there. -/
theorem exists_dataTransfer (h : Accepts payload) (hne : payload.commandLength ≠ 0) (hpos : 0 < payload.dataLength) :
    ∃ t, DataTransfer plainDriver plainBehaviour payload t := by
  obtain ⟨commandBuffer, hc⟩ : ∃ commandBuffer, payload.commandBuffer = some commandBuffer := by
    rcases h.buffer with hzero | hsome
    · exact absurd hzero hne
    · exact Option.isSome_iff_exists.mp hsome
  obtain ⟨endpoint, isInput, hsecond⟩ := transport_second plainDriver plainBehaviour commandBuffer hpos
  have hsent : (sendWrapper plainDriver plainBehaviour.command
      (CBW.create payload commandBuffer plainDriver.currentTag plainBehaviour.stack)).2 = true := by
    rw [sendWrapper, sendNormalBuffer_eq]
    rfl
  have hring : plainBehaviour.data.ring = some true := rfl
  rw [hsent, if_pos rfl, hring, Option.map_some, ← sendCommand_of_accepts h rfl hne hc] at hsecond
  exact ⟨_, hpos, hsecond⟩

/-- The length that the controller reads for the data stage is the one that was asked for exactly below
128 KB. -/
theorem transferLength_survives_iff (payload : CommandPayload) (h : Accepts payload) :
    LengthSurvives payload ↔ payload.commandLength = 0 ∨ payload.dataLength < 2 ^ 17 := by
  have hlength : ∀ d b t, DataTransfer d b payload t →
      (NormalTRB.decode t.trb).transferLength.toNat = payload.dataLength % 2 ^ 17 := by
    intro d b t ht
    obtain ⟨-, cycle, -, htrb⟩ := dataTransfer_trb ht
    rw [htrb, NormalTRB.decode_create]
    exact and_length payload.dataLength
  constructor
  · intro hs
    apply Decidable.byContradiction
    intro hcond
    rw [not_or] at hcond
    obtain ⟨t, ht⟩ := exists_dataTransfer h hcond.1 (by omega)
    have hkept := hs.length _ _ t ht
    rw [hlength _ _ t ht] at hkept
    omega
  · intro hcond
    refine ⟨fun d b t ht => ?_, fun d b t ht => ?_, fun commandBuffer tag stack => ?_⟩
    · obtain ⟨hne, -⟩ := dataTransfer_trb ht
      rw [hlength d b t ht]
      exact Nat.mod_eq_of_lt (hcond.resolve_left hne)
    · obtain ⟨-, cycle, hring, htrb⟩ := dataTransfer_trb ht
      refine ⟨?_, cycle, hring, ?_⟩
      · rw [htrb, NormalTRB.create_getType]
      · rw [htrb, NormalTRB.decode_create]
        simp [normalDescriptor]
    · have hmax : getMaxDataTransferLength = 2097152 := rfl
      have hle := h.length
      have htoNat : (CBW.create payload commandBuffer tag stack).dataTransferLength.toNat =
          payload.dataLength % 2 ^ 32 := BitVec.toNat_ofNat _ _
      omega

/-- A read of 128 KB. -/
def longPayload : CommandPayload where
  commandLength := 10
  commandBuffer := some fun _ => 0x28#8
  dataLength := 0x20000
  dataBuffer := some fun _ => 0#8
  isInputTransfer := true
  lun := 0#8

theorem longPayload_accepted : Accepts longPayload := ⟨by decide, .inl rfl, by decide, .inr rfl⟩

theorem transferLength_survives_short :
    Accepts { longPayload with dataLength := 512 } ∧ LengthSurvives { longPayload with dataLength := 512 } := by
  have haccepts : Accepts { longPayload with dataLength := 512 } := ⟨by decide, .inl rfl, by decide, .inr rfl⟩
  exact ⟨haccepts, (transferLength_survives_iff _ haccepts).mpr (.inr (by decide))⟩

/-- The controller is asked for nothing. -/
theorem transferLength_truncated : Accepts longPayload ∧ ∃ t, DataTransfer plainDriver plainBehaviour longPayload t ∧
    (NormalTRB.decode t.trb).transferLength.toNat = 0 ∧ ¬ LengthSurvives longPayload := by
  obtain ⟨t, ht⟩ := exists_dataTransfer longPayload_accepted (by decide) (by decide)
  have hzero : (NormalTRB.decode t.trb).transferLength.toNat = 0 := by
    obtain ⟨-, cycle, -, htrb⟩ := dataTransfer_trb ht
    rw [htrb, NormalTRB.decode_create]
    exact and_length 0x20000
  refine ⟨longPayload_accepted, t, ht, hzero, fun hs => ?_⟩
  have hkept := hs.length _ _ t ht
  rw [hzero] at hkept
  cases hkept

end

end BulkOnly
end BadLands.Usb
