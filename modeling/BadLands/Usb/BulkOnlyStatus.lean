import BadLands.Usb.BulkOnly

/-!
# The status of a bulk-only command

`SendNormalBuffer` returns whether an event came; the completion code in it is stored and not read.
So an error in a stage is noticed only by the check of the status wrapper, which looks at the buffer
and not at what has arrived there.

`sendCommand_success_iff` says when a call returns success. `success_real_iff`: it then has really
succeeded, exactly when the buffer does not pass for a status wrapper behind a stage that failed.
`success_masked`: the status stage stalls and the data that were sent before are taken for it.
-/
namespace BadLands.Usb.BulkOnly

/-! ## What is claimed and when it fails -/

def CompletionCode.success : BitVec 32 := 1#32
def CompletionCode.shortPacket : BitVec 32 := 13#32

/-- The stage has ended with an event of its own that reports no error. -/
def Stage.Completed (stage : Stage) (shortAllowed : Bool) : Prop :=
  ∃ e ∈ stage.completion, e.getCompletionCode = CompletionCode.success ∨
    (shortAllowed = true ∧ e.getCompletionCode = CompletionCode.shortPacket)

/-- mirrors kernel/src/devices/USB/MassStorage/BBB/Driver.cpp:402-422 -/
def CSW.Passes (csw : CSW) (tag : BitVec 32) : Prop :=
  csw.signature = CSW.SIGNATURE ∧ csw.tag = tag ∧ csw.status = 0#8

/-- The device has returned a whole status wrapper, and it passes. -/
def Stage.Received (stage : Stage) (tag : BitVec 32) : Prop :=
  CSW.SIZE ≤ stage.bytes.length ∧ (CSW.ofBytes fun i => (stage.bytes[i]?).getD 0#8).Passes tag

/-- The command has succeeded. -/
structure RealSuccess (d : Driver) (b : Behaviour) (payload : CommandPayload) : Prop where
  command : b.command.Completed false
  data : 0 < payload.dataLength → b.data.Completed payload.isInputTransfer
  status : b.status.Completed false
  wrapper : b.status.Received d.currentTag

/-- What the buffer holds before the status stage: the data over the command wrapper. -/
def staleBuffer (d : Driver) (b : Behaviour) (payload : CommandPayload) : Nat → BitVec 8 :=
  let commandBuffer := payload.commandBuffer.getD fun _ => 0#8
  let wrapper := overlay d.ioBuffer (CBW.create payload commandBuffer d.currentTag b.stack).bytes
  if payload.dataLength = 0 then wrapper
  else if payload.isInputTransfer then overlay wrapper (b.data.bytes.take (payload.dataLength % 2 ^ 17))
  else payload.dataBuffer.elim wrapper fun data => copy wrapper data payload.dataLength

/-- A transfer is started, and an event of its TRB comes in time. -/
def Stage.Ended (stage : Stage) : Prop := stage.ring.isSome ∧ stage.completion.isSome

/-- Every stage ends and the buffer then passes for a status wrapper. -/
structure Passed (d : Driver) (b : Behaviour) (payload : CommandPayload) : Prop where
  accepts : Accepts payload
  available : b.available = true
  command : b.command.ring.isSome ∧ (d.transferComplete = true ∨ b.command.completion.isSome)
  data : 0 < payload.dataLength → b.data.Ended
  status : b.status.Ended
  wrapper : (CSW.ofBytes (overlay (staleBuffer d b payload) (b.status.bytes.take CSW.SIZE))).Passes d.currentTag

/-- A stage ends with an error code, the command stage with an event of another transfer, or the
status stage before its 13 bytes have arrived. -/
def Flawed (b : Behaviour) (payload : CommandPayload) : Prop :=
  ¬ b.command.Completed false ∨ (0 < payload.dataLength ∧ ¬ b.data.Completed payload.isInputTransfer) ∨
    ¬ b.status.Completed false ∨ b.status.bytes.length < CSW.SIZE

/-! ## Stage by stage -/

section
variable {d : Driver} {b : Behaviour} {stage : Stage} {payload : CommandPayload} {length : BitVec 32}
  {endpoint : BitVec 8} {isInput : Bool} {commandBuffer : Nat → BitVec 8}

theorem sendNormalBuffer_ok_iff : (sendNormalBuffer d stage length endpoint isInput).2 = true ↔
    stage.ring.isSome = true ∧ (d.transferComplete = true ∨ stage.completion.isSome = true) := by
  rw [sendNormalBuffer_eq]
  cases stage.ring with
  | none => simp
  | some cycle => simp

/-- Behind a transfer that was started: the flag is clear, and what has arrived is over the start of
the buffer. -/
theorem sendNormalBuffer_left (d : Driver) (length : BitVec 32) (endpoint : BitVec 8) (isInput : Bool)
    (h : stage.ring.isSome = true) :
    (sendNormalBuffer d stage length endpoint isInput).1.transferComplete = false ∧
    (sendNormalBuffer d stage length endpoint isInput).1.ioBuffer =
      if isInput then overlay d.ioBuffer (stage.bytes.take (length &&& 0x0001FFFF#32).toNat) else d.ioBuffer := by
  obtain ⟨cycle, hring⟩ := Option.isSome_iff_exists.mp h
  rw [sendNormalBuffer_eq, hring]
  refine ⟨rfl, ?_⟩
  simp only [Driver.transferred, NormalTRB.decode_create]
  rfl

theorem receiveStatus_success_iff (hclear : d.transferComplete = false) {tag : BitVec 32} :
    (receiveStatus d stage tag).2 = .success ↔
      stage.Ended ∧ (CSW.ofBytes (overlay d.ioBuffer (stage.bytes.take CSW.SIZE))).Passes tag := by
  unfold receiveStatus
  simp only
  cases hok : (sendNormalBuffer d stage (BitVec.ofNat 32 CSW.SIZE) d.bulkIn true).2 with
  | false =>
    rw [if_pos (by decide)]
    refine ⟨(fun h => by cases h), fun h => ?_⟩
    rw [sendNormalBuffer_ok_iff.mpr ⟨h.1.1, .inr h.1.2⟩] at hok
    cases hok
  | true =>
    obtain ⟨hring, hflag⟩ := sendNormalBuffer_ok_iff.mp hok
    have hended : stage.Ended := ⟨hring, hflag.resolve_left (by rw [hclear]; decide)⟩
    have hbuffer := (sendNormalBuffer_left d (BitVec.ofNat 32 CSW.SIZE) d.bulkIn true hring).2
    have hsize : (BitVec.ofNat 32 CSW.SIZE &&& 0x0001FFFF#32).toNat = CSW.SIZE := by decide
    rw [if_pos rfl, hsize] at hbuffer
    rw [if_neg (by decide), hbuffer]
    constructor
    · intro h
      split_ifs at h with hsignature htag hstatus
      exact ⟨hended, not_not.mp hsignature, not_not.mp htag, not_not.mp hstatus⟩
    · rintro ⟨-, hsignature, htag, hstatus⟩
      rw [if_neg (not_not.mpr hsignature), if_neg (not_not.mpr htag), if_neg (not_not.mpr hstatus)]

theorem sendWrapper_ok_iff {cbw : CBW} : (sendWrapper d stage cbw).2 = true ↔
    stage.ring.isSome = true ∧ (d.transferComplete = true ∨ stage.completion.isSome = true) :=
  sendNormalBuffer_ok_iff

theorem sendWrapper_left (d : Driver) (cbw : CBW) (h : stage.ring.isSome = true) :
    (sendWrapper d stage cbw).1.transferComplete = false ∧
    (sendWrapper d stage cbw).1.ioBuffer = overlay d.ioBuffer cbw.bytes := by
  unfold sendWrapper
  obtain ⟨hclear, hbuffer⟩ := sendNormalBuffer_left { d with
    currentTag := d.currentTag + 1#32, ioBuffer := overlay d.ioBuffer cbw.bytes } (BitVec.ofNat 32 CBW.SIZE) d.bulkOut
    false h
  exact ⟨hclear, hbuffer⟩

theorem ended_iff (hclear : d.transferComplete = false) :
    (sendNormalBuffer d stage length endpoint isInput).2 = true ↔ stage.Ended := by
  rw [sendNormalBuffer_ok_iff, hclear]
  simp [Stage.Ended]

/-- The driver with the data to send in its buffer. -/
def Driver.filled (d : Driver) (payload : CommandPayload) : Driver :=
  { d with ioBuffer := payload.dataBuffer.elim d.ioBuffer fun data => copy d.ioBuffer data payload.dataLength }

/-- The transfer of the data stage. -/
def dataSent (d : Driver) (stage : Stage) (payload : CommandPayload) : Driver × Bool :=
  if payload.isInputTransfer then
    sendNormalBuffer d stage (BitVec.ofNat 32 payload.dataLength) d.bulkIn true
  else sendNormalBuffer (d.filled payload) stage (BitVec.ofNat 32 payload.dataLength) d.bulkOut false

theorem moveData_sent (hpos : 0 < payload.dataLength) :
    (moveData d stage payload).1 = (dataSent d stage payload).1 ∧
    (moveData d stage payload).2.2 = (dataSent d stage payload).2 := by
  have hbranch : ∀ (sent : Driver × Bool) (failed moved : Buffer),
      (if !sent.2 then (sent.1, failed, false) else (sent.1, moved, true)).1 = sent.1 ∧
      (if !sent.2 then (sent.1, failed, false) else (sent.1, moved, true)).2.2 = sent.2 := by
    rintro ⟨sent, ok⟩ failed moved
    cases ok with
    | false => exact ⟨rfl, rfl⟩
    | true => exact ⟨rfl, rfl⟩
  unfold moveData dataSent
  rw [if_pos hpos]
  split
  · exact hbranch _ _ _
  · exact hbranch _ _ _

/-- The data stage lets a call go on when it ends by itself. -/
theorem moveData_ok_iff (hclear : d.transferComplete = false) :
    (moveData d stage payload).2.2 = true ↔ (0 < payload.dataLength → stage.Ended) := by
  by_cases hpos : 0 < payload.dataLength
  · rw [(moveData_sent hpos).2, dataSent]
    split
    · rw [ended_iff hclear]
      exact ⟨fun h _ => h, fun h => h hpos⟩
    · rw [ended_iff (d := d.filled payload) hclear]
      exact ⟨fun h _ => h, fun h => h hpos⟩
  · rw [moveData, if_neg hpos]
    exact ⟨fun _ h => absurd h hpos, fun _ => rfl⟩

/-- It then leaves its data in the buffer. -/
theorem moveData_left (hclear : d.transferComplete = false) (hended : 0 < payload.dataLength → stage.Ended) :
    (moveData d stage payload).1.transferComplete = false ∧
    (moveData d stage payload).1.ioBuffer =
      if payload.dataLength = 0 then d.ioBuffer
      else if payload.isInputTransfer then overlay d.ioBuffer (stage.bytes.take (payload.dataLength % 2 ^ 17))
      else payload.dataBuffer.elim d.ioBuffer fun data => copy d.ioBuffer data payload.dataLength := by
  by_cases hpos : 0 < payload.dataLength
  · have hring := (hended hpos).1
    rw [(moveData_sent hpos).1, dataSent, if_neg (Nat.ne_of_gt hpos), ← and_length]
    split
    · exact sendNormalBuffer_left d (BitVec.ofNat 32 payload.dataLength) d.bulkIn true hring
    · exact sendNormalBuffer_left (d.filled payload) (BitVec.ofNat 32 payload.dataLength) d.bulkOut false hring
  · rw [moveData, if_neg hpos, if_pos (Nat.eq_zero_of_not_pos hpos)]
    exact ⟨hclear, rfl⟩

theorem transport_success_iff (hc : payload.commandBuffer = some commandBuffer) :
    (transport d b payload commandBuffer).outcome = .success ↔
      (b.command.ring.isSome ∧ (d.transferComplete = true ∨ b.command.completion.isSome)) ∧
      (0 < payload.dataLength → b.data.Ended) ∧ b.status.Ended ∧
      (CSW.ofBytes (overlay (staleBuffer d b payload) (b.status.bytes.take CSW.SIZE))).Passes d.currentTag := by
  unfold transport
  simp only
  generalize hcbw : CBW.create payload commandBuffer d.currentTag b.stack = cbw
  have htag : cbw.tag = d.currentTag := by rw [← hcbw]; rfl
  by_cases hcommand : b.command.ring.isSome = true ∧ (d.transferComplete = true ∨ b.command.completion.isSome = true)
  · obtain ⟨hclear, hbuffer⟩ := sendWrapper_left d cbw hcommand.1
    rw [sendWrapper_ok_iff.mpr hcommand, if_neg (by decide)]
    by_cases hdata : 0 < payload.dataLength → b.data.Ended
    · obtain ⟨hmoved, hstale⟩ := moveData_left hclear hdata
      have hbefore : (moveData (sendWrapper d b.command cbw).1 b.data payload).1.ioBuffer = staleBuffer d b payload := by
        rw [hstale, hbuffer, staleBuffer, hc, Option.getD_some, hcbw]
      rw [(moveData_ok_iff hclear).mpr hdata, if_neg (by decide)]
      rw [receiveStatus_success_iff hmoved, hbefore, htag]
      exact ⟨fun h => ⟨hcommand, hdata, h⟩, fun h => h.2.2⟩
    · have hstop : (moveData (sendWrapper d b.command cbw).1 b.data payload).2.2 = false :=
        Bool.eq_false_iff.mpr fun h => hdata ((moveData_ok_iff hclear).mp h)
      rw [hstop, if_pos (by decide)]
      exact ⟨(fun h => by cases h), fun h => absurd h.2.1 hdata⟩
  · have hstop : (sendWrapper d b.command cbw).2 = false :=
      Bool.eq_false_iff.mpr fun h => hcommand (sendWrapper_ok_iff.mp h)
    rw [hstop, if_pos (by decide)]
    exact ⟨(fun h => by cases h), fun h => absurd h.1 hcommand⟩

theorem sendCommand_success_accepts (hne : payload.commandLength ≠ 0)
    (h : (sendCommand d b payload).outcome = .success) :
    b.available = true ∧ Accepts payload ∧ ∃ commandBuffer, payload.commandBuffer = some commandBuffer := by
  unfold sendCommand at h
  split at h
  · cases h
  split at h
  · cases h
  next hb hchecks =>
  simp only [not_or, not_and, Nat.not_lt] at hchecks
  obtain ⟨hcommand, hdata, hlength⟩ := hchecks
  cases hc : payload.commandBuffer with
  | none =>
    rw [hc] at h
    cases h
  | some commandBuffer =>
    refine ⟨by simpa using hb, ⟨hcommand, ?_, hlength, .inr (by rw [hc]; rfl)⟩, commandBuffer, rfl⟩
    cases hbuffer : payload.dataBuffer with
    | none => exact .inr (Nat.le_zero.mp (hdata (by rw [hbuffer]; rfl)))
    | some data => exact .inl rfl

/-- When a call returns success. -/
theorem sendCommand_success_iff (hne : payload.commandLength ≠ 0) :
    (sendCommand d b payload).outcome = .success ↔ Passed d b payload := by
  constructor
  · intro h
    obtain ⟨hb, haccepts, commandBuffer, hc⟩ := sendCommand_success_accepts hne h
    rw [sendCommand_of_accepts haccepts hb hne hc, transport_success_iff hc] at h
    exact ⟨haccepts, hb, h.1, h.2.1, h.2.2.1, h.2.2.2⟩
  · intro h
    obtain ⟨commandBuffer, hc⟩ := Option.isSome_iff_exists.mp (h.accepts.buffer.resolve_left hne)
    rw [sendCommand_of_accepts h.accepts h.available hne hc, transport_success_iff hc]
    exact ⟨h.command, h.data, h.status, h.wrapper⟩

/-- A buffer whose start has arrived whole is what has arrived. -/
theorem ofBytes_overlay (memory : Nat → BitVec 8) {bytes : List (BitVec 8)} (h : CSW.SIZE ≤ bytes.length) :
    CSW.ofBytes (overlay memory (bytes.take CSW.SIZE)) = CSW.ofBytes fun i => (bytes[i]?).getD 0#8 := by
  have hbyte : ∀ i < CSW.SIZE, overlay memory (bytes.take CSW.SIZE) i = (bytes[i]?).getD 0#8 := by
    intro i hi
    unfold overlay
    rw [List.getElem?_take_of_lt hi, List.getElem?_eq_getElem (by omega), Option.getD_some, Option.getD_some]
  have hsize : CSW.SIZE = 13 := rfl
  unfold CSW.ofBytes wordAt
  simp (disch := omega) only [hbyte]

/-- Success is real success, exactly when the buffer does not pass for a status wrapper behind a stage
that was flawed. -/
theorem success_real_iff (d : Driver) (b : Behaviour) (payload : CommandPayload) (hne : payload.commandLength ≠ 0) :
    ((sendCommand d b payload).outcome = .success → RealSuccess d b payload) ↔
      ¬ (Passed d b payload ∧ Flawed b payload) := by
  rw [sendCommand_success_iff hne]
  constructor
  · rintro hreal ⟨hpassed, hflawed⟩
    obtain ⟨hcommand, hdata, hstatus, hsize, -⟩ := hreal hpassed
    rcases hflawed with h | ⟨hpos, h⟩ | h | h
    · exact h hcommand
    · exact h (hdata hpos)
    · exact h hstatus
    · omega
  · intro h hpassed
    have hsound : ¬ Flawed b payload := fun hflawed => h ⟨hpassed, hflawed⟩
    unfold Flawed at hsound
    simp only [not_or, not_and, not_not, Nat.not_lt] at hsound
    obtain ⟨hcommand, hdata, hstatus, hsize⟩ := hsound
    refine ⟨hcommand, hdata, hstatus, hsize, ?_⟩
    rw [← ofBytes_overlay (staleBuffer d b payload) hsize]
    exact hpassed.wrapper

end

/-- An event with this code, for the TRB at address 0. -/
def eventOf (code : BitVec 32) : TRB := ⟨0#32, 0#32, code <<< 24, 0#32⟩

/-- A status wrapper for the tag 0. -/
def passingWrapper : List (BitVec 8) := wordBytes CSW.SIGNATURE ++ [0#8, 0#8, 0#8, 0#8, 0#8, 0#8, 0#8, 0#8, 0#8]

/-- A write of 13 bytes, which are such a wrapper. -/
def wrapperPayload : CommandPayload where
  commandLength := 10
  commandBuffer := some fun _ => 0x2A#8
  dataLength := 13
  dataBuffer := some fun i => (passingWrapper[i]?).getD 0#8
  isInputTransfer := false
  lun := 0#8

/-- The status stage ends with `code`, and these bytes arrive. -/
def statusBehaviour (code : BitVec 32) (bytes : List (BitVec 8)) : Behaviour where
  available := true
  stack := fun _ => 0#8
  command := ⟨some true, 0#64, [], some (eventOf CompletionCode.success)⟩
  data := ⟨some true, 0#64, [], some (eventOf CompletionCode.success)⟩
  status := ⟨some true, 0#64, bytes, some (eventOf code)⟩

theorem success_real_whole_wrapper :
    (sendCommand plainDriver (statusBehaviour CompletionCode.success passingWrapper) wrapperPayload).outcome = .success ∧
    RealSuccess plainDriver (statusBehaviour CompletionCode.success passingWrapper) wrapperPayload := by
  have hok : (sendCommand plainDriver (statusBehaviour CompletionCode.success passingWrapper) wrapperPayload).outcome =
      .success := by decide +kernel
  refine ⟨hok, (success_real_iff _ _ _ (by decide)).mpr ?_ hok⟩
  rintro ⟨-, h | ⟨-, h⟩ | h | h⟩
  · exact h ⟨_, rfl, .inl (by decide)⟩
  · exact h ⟨_, rfl, .inl (by decide)⟩
  · exact h ⟨_, rfl, .inl (by decide)⟩
  · exact absurd h (by decide)

/-- The status stage stalls and nothing arrives: the data that were sent pass for the wrapper. -/
theorem success_masked :
    (sendCommand plainDriver (statusBehaviour 6#32 []) wrapperPayload).outcome = .success ∧
    ¬ RealSuccess plainDriver (statusBehaviour 6#32 []) wrapperPayload := by
  refine ⟨by decide +kernel, fun h => ?_⟩
  obtain ⟨hsize, -⟩ := h.wrapper
  exact absurd hsize (by decide)

end BadLands.Usb.BulkOnly
