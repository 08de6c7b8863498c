import BadLands.Usb.TransferRing
import Mathlib.Data.List.Forall2

/-!
# Control requests

`SendRequest` enqueues the Setup, Data and Status stages one after the other into the ring that the
controller reads. The address of the buffer is translated after the Setup stage: when there is none,
the call returns and leaves that stage behind.

* `Written.enqueue`: a call of `Enqueue`, at any place of the ring.
* `leaves_nothing_iff`: a call that fails before the doorbell leaves nothing exactly when it does not
  fail there.
* `whole_step`: the stages of a request stay together, whatever the controller does in between.
* `requests_whole`: both, over calls and over runs of them.
-/
namespace BadLands.Usb

open BadLands.Core BadLands.Core.CycleRing

/-! ## Formats -/

/-- mirrors kernel/src/devices/USB/xHCI/TRB.cpp:298-302 -/
def TRB.setDirection (t : TRB) (direction : Bool) : TRB := t.setFlag 0x00010000#32 16 direction

/-- mirrors kernel/include/devices/USB/xHCI/TRB.hpp:166-183 -/
inductive TransferType where
  | invalid
  | noDataStage
  | dataOutStage
  | dataInStage
  deriving DecidableEq, Repr

/-- mirrors kernel/src/devices/USB/xHCI/TRB.cpp:317-324 -/
def TransferType.toType : TransferType → BitVec 8
  | .noDataStage => 0#8
  | .dataOutStage => 2#8
  | .dataInStage => 3#8
  | .invalid => 0#8

/-- mirrors kernel/include/devices/USB/xHCI/TRB.hpp:216-227 -/
structure SetupDescriptor where
  bmRequestType : BitVec 8
  bRequest : BitVec 8
  wValue : BitVec 16
  wIndex : BitVec 16
  wLength : BitVec 16
  transferLength : BitVec 32
  interrupterTarget : BitVec 16
  cycle : Bool
  interruptOnCompletion : Bool
  transferType : TransferType

/-- mirrors kernel/src/devices/USB/xHCI/TRB.cpp:365-425 -/
def SetupTRB.create (d : SetupDescriptor) : TRB :=
  let data0 := modifyPacked (modifyPacked (modifyPacked 0#32 0x000000FF#32 0 (d.bmRequestType.setWidth 32))
    0x0000FF00#32 8 (d.bRequest.setWidth 32)) 0xFFFF0000#32 16 (d.wValue.setWidth 32)
  let data1 := modifyPacked (modifyPacked 0#32 0x0000FFFF#32 0 (d.wIndex.setWidth 32))
    0xFFFF0000#32 16 (d.wLength.setWidth 32)
  let trb : TRB := ⟨data0, data1, 0#32, 0#32⟩
  let trb := (trb.setTRBTransferLength d.transferLength).setInterrupterTarget d.interrupterTarget
  let trb := ((trb.setCycle d.cycle).setInterruptOnCompletion d.interruptOnCompletion).setImmediateData true
  let trb := trb.setTRBType 2#32
  { trb with data3 := modifyPacked trb.data3 0x00030000#32 16 (d.transferType.toType.setWidth 32) }

/-- mirrors kernel/include/devices/USB/xHCI/TRB.hpp:233-246 -/
structure DataDescriptor where
  bufferPointer : BitVec 64
  transferLength : BitVec 32
  tdSize : BitVec 8
  interrupterTarget : BitVec 16
  cycle : Bool
  evaluateNextTRB : Bool
  interruptOnShortPacket : Bool
  noSnoop : Bool
  chain : Bool
  interruptOnCompletion : Bool
  immediateData : Bool
  direction : Bool

/-- mirrors kernel/src/devices/USB/xHCI/TRB.cpp:427-452 -/
def DataTRB.create (d : DataDescriptor) : TRB :=
  let trb := (TRB.zero.setDataBufferPointer d.bufferPointer).setTRBTransferLength d.transferLength
  let trb := (trb.setTDSize d.tdSize).setInterrupterTarget d.interrupterTarget
  let trb := ((trb.setCycle d.cycle).setENT d.evaluateNextTRB).setISP d.interruptOnShortPacket
  let trb := ((trb.setNoSnoop d.noSnoop).setChain d.chain).setInterruptOnCompletion d.interruptOnCompletion
  ((trb.setImmediateData d.immediateData).setTRBType 3#32).setDirection d.direction

/-- mirrors kernel/include/devices/USB/xHCI/TRB.hpp:252-259 -/
structure StatusDescriptor where
  interrupterTarget : BitVec 16
  cycle : Bool
  evaluateNextTRB : Bool
  chain : Bool
  interruptOnCompletion : Bool
  direction : Bool

/-- mirrors kernel/src/devices/USB/xHCI/TRB.cpp:454-473 -/
def StatusTRB.create (d : StatusDescriptor) : TRB :=
  let trb := ((TRB.zero.setInterrupterTarget d.interrupterTarget).setCycle d.cycle).setENT d.evaluateNextTRB
  let trb := (trb.setChain d.chain).setInterruptOnCompletion d.interruptOnCompletion
  (trb.setTRBType 4#32).setDirection d.direction

namespace ControlTransfer

/-! ## Requests -/

/-- The arguments of `SendRequest`; `buffer`: none when it is null. -/
structure Request where
  bmRequestType : BitVec 8
  bRequest : BitVec 8
  wValue : BitVec 16
  wIndex : BitVec 16
  wLength : BitVec 16
  buffer : Option (BitVec 64)
  deriving DecidableEq, Repr

/-- mirrors kernel/src/devices/USB/xHCI/Device.cpp:339-350 -/
def Request.setup (q : Request) (cycle : Bool) : TRB :=
  SetupTRB.create ⟨q.bmRequestType, q.bRequest, q.wValue, q.wIndex, q.wLength, 8#32, 0#16, cycle, false, .dataInStage⟩

/-- mirrors kernel/src/devices/USB/xHCI/Device.cpp:361-374 -/
def Request.data (q : Request) (physical : BitVec 64) (cycle : Bool) : TRB :=
  DataTRB.create ⟨physical, q.wLength.setWidth 32, 0#8, 0#16, cycle, false, false, false, false, false, false, true⟩

/-- mirrors kernel/src/devices/USB/xHCI/Device.cpp:379-386 -/
def status (cycle : Bool) : TRB := StatusTRB.create ⟨0#16, cycle, false, false, true, false⟩

/-- The fields of a transfer ring. -/
structure Ring where
  slots : Nat → TRB
  index : Nat
  cycle : Bool

/-- A Link TRB behind the last TRB of a lap. `none`: a wait loop does not end.
mirrors kernel/src/devices/USB/xHCI/Specification.cpp:581-602,641-647 -/
def Ring.enqueue (r : RingMemory) (ring : Ring) (trb : TRB) : Option Ring := do
  let slots ← TransferRing.enqueueTRB ring.slots ring.index trb
  if ring.index + 1 ≥ r.capacity - 1 then
    let slots ← TransferRing.enqueueTRB slots (ring.index + 1) (LinkTRB.create ring.cycle r.base)
    some ⟨slots, 0, !ring.cycle⟩
  else some ⟨slots, ring.index + 1, ring.cycle⟩

/-- How the call leaves the ring: it returns `Failure` at once, or rings the doorbell and waits. -/
inductive Outcome where
  | failure
  | doorbell
  deriving DecidableEq, Repr

/-- `translate`: what `Paging::GetPhysicalAddress` answers.
mirrors kernel/src/devices/USB/xHCI/Device.cpp:327-390 -/
def sendRequest (r : RingMemory) (translate : BitVec 64 → Option (BitVec 64)) (ring : Ring) (q : Request) :
    Option (Ring × Outcome) := do
  let ring ← ring.enqueue r (q.setup ring.cycle)
  match q.buffer with
  | none =>
    let ring ← ring.enqueue r (status ring.cycle)
    some (ring, .doorbell)
  | some buffer =>
    match translate buffer with
    | none => some (ring, .failure)
    | some physical =>
      let ring ← ring.enqueue r (q.data physical ring.cycle)
      let ring ← ring.enqueue r (status ring.cycle)
      some (ring, .doorbell)

/-- The TRBs that a call enqueues, without their cycle bits. -/
def Request.stages (q : Request) (translate : BitVec 64 → Option (BitVec 64)) : List (Bool → TRB) :=
  q.setup :: match q.buffer with
    | none => [status]
    | some buffer =>
      match translate buffer with
      | none => []
      | some physical => [q.data physical, status]

/-- The buffer is null, or mapped. -/
def Request.Mapped (q : Request) (translate : BitVec 64 → Option (BitVec 64)) : Prop :=
  ∀ buffer ∈ q.buffer, translate buffer ≠ none

instance decidableMapped (q : Request) (translate : BitVec 64 → Option (BitVec 64)) : Decidable (q.Mapped translate) :=
  match h : q.buffer with
  | none => isTrue fun buffer hbuffer => by rw [h] at hbuffer; cases hbuffer
  | some buffer => decidable_of_iff (translate buffer ≠ none)
      ⟨fun hne b hb => by rw [h] at hb; cases hb; exact hne, fun hall => hall buffer h⟩

/-! ## Runs -/

/-- The ring with its controller, and what the call in progress has still to enqueue. -/
structure State where
  ring : TransferRing.State
  todo : List (Bool → TRB)

def create : State := ⟨TransferRing.create, []⟩

/-- `stage` and `link` are the writes of `Enqueue`, `consume` is the controller's step. -/
inductive Act where
  | request (q : Request) (translate : BitVec 64 → Option (BitVec 64))
  | stage
  | link
  | consume

/-- The calls follow one another (`transfer_lock`); the controller may run at any time. -/
def step (r : RingMemory) (s : State) : Act → Option State
  | .request q translate =>
    if s.ring.linking ∨ ¬ s.todo.isEmpty then none else some { s with todo := q.stages translate }
  | .stage =>
    match s.todo with
    | [] => none
    | stage :: todo =>
      if s.ring.blocked ∨ s.ring.linking then none
      else match TransferRing.enqueueTRB s.ring.slots s.ring.index (stage s.ring.cycle) with
        | none => some { s with ring := { s.ring with blocked := true } }
        | some slots => some ⟨{ s.ring with
            slots := slots
            index := s.ring.index + 1
            linking := decide (s.ring.index + 1 ≥ r.capacity - 1)
            enqueued := s.ring.enqueued ++ [stage s.ring.cycle] }, todo⟩
  | .link => (TransferRing.step r s.ring .link).map fun ring => { s with ring := ring }
  | .consume => (TransferRing.step r s.ring .consume).map fun ring => { s with ring := ring }

/-- The Setup stage, the Data stage if there is a buffer, and the Status stage of one request. -/
def Complete (block : List TRB) : Prop :=
  ∃ (q : Request) (translate : BitVec 64 → Option (BitVec 64)), q.Mapped translate ∧
    List.Forall₂ (fun trb stage => ∃ cycle, trb = stage cycle) block (q.stages translate)

/-- A concatenation of them. -/
def Whole (l : List TRB) : Prop := ∃ blocks : List (List TRB), (∀ b ∈ blocks, Complete b) ∧ l = blocks.flatten

/-- What the controller obtains is the beginning of such a concatenation. Between two calls, what was enqueued is
one, and the controller only has to go on to obtain all of it. -/
structure Safe (r : RingMemory) (s : State) : Prop where
  obtained : ∃ l, Whole l ∧ s.ring.obtained <+: l
  between : s.todo = [] → Whole s.ring.enqueued ∧
    ∃ k s', Machine.run (step r) s (List.replicate k .consume) = some s' ∧ s'.ring.obtained = s.ring.enqueued

/-- A request whose buffer is null or mapped, and a TRB that fits behind those that are not consumed. -/
def Good (r : RingMemory) (s : State) : Act → Prop
  | .request q translate => q.Mapped translate
  | .stage => s.ring.enqueued.length + 1 ≤ s.ring.obtained.length + (r.capacity - 2)
  | .link => True
  | .consume => True

instance decidableGood (r : RingMemory) (s : State) : ∀ a, Decidable (Good r s a)
  | .request q translate => inferInstanceAs (Decidable (q.Mapped translate))
  | .stage => inferInstanceAs (Decidable (_ ≤ _))
  | .link => isTrue trivial
  | .consume => isTrue trivial

/-! ## The stages -/

/-- A TRB of a call takes the cycle bit it is given, and is no Link TRB. -/
def Stage (stage : Bool → TRB) : Prop := ∀ cycle, (stage cycle).getCycle = cycle ∧ (stage cycle).isLink = false

section
variable {r : RingMemory} {ring ring' : Ring} {w : List TRB} {q : Request} {s s' : State}
  {translate : BitVec 64 → Option (BitVec 64)} {stage : Bool → TRB}

/-- The last word of a stage does not depend on the request. -/
theorem stage_of_data3 (hcycle : ∀ cycle, (stage cycle).data3 &&& 0x00000001#32 = if cycle then 1#32 else 0#32)
    (htype : ∀ cycle, getPacked (stage cycle).data3 0x0000FC00#32 10 ≠ 6#32) : Stage stage := by
  intro cycle
  refine ⟨?_, ?_⟩
  · rw [TRB.getCycle, hcycle]
    cases cycle <;> rfl
  · rw [TRB.isLink, TRB.getType]
    exact beq_eq_false_iff_ne.mpr (htype cycle)

/-- The last word of a TRB with the cycle bit and no other flag. -/
def plainWord (cycle : Bool) : BitVec 32 := modifyPacked 0#32 0x00000001#32 0 (if cycle then 1#32 else 0#32)

theorem setup_data3 (q : Request) (cycle : Bool) : (q.setup cycle).data3 =
    modifyPacked (modifyPacked (modifyPacked (modifyPacked (plainWord cycle) 0x00000020#32 5 0#32) 0x00000040#32 6 1#32)
      0x0000FC00#32 10 2#32) 0x00030000#32 16 3#32 := rfl

theorem data_data3 (q : Request) (physical : BitVec 64) (cycle : Bool) : (q.data physical cycle).data3 =
    modifyPacked (modifyPacked (modifyPacked (modifyPacked (modifyPacked (modifyPacked (modifyPacked (modifyPacked
      (plainWord cycle) 0x00000002#32 1 0#32) 0x00000004#32 2 0#32) 0x00000008#32 3 0#32) 0x00000010#32 4 0#32)
      0x00000020#32 5 0#32) 0x00000040#32 6 0#32) 0x0000FC00#32 10 3#32) 0x00010000#32 16 1#32 := rfl

theorem setup_stage (q : Request) : Stage q.setup := by
  refine stage_of_data3 (fun cycle => ?_) fun cycle => ?_ <;> rw [setup_data3] <;> cases cycle <;> decide

theorem data_stage (q : Request) (physical : BitVec 64) : Stage (q.data physical) := by
  refine stage_of_data3 (fun cycle => ?_) fun cycle => ?_ <;> rw [data_data3] <;> cases cycle <;> decide

theorem status_stage : Stage status := by
  refine stage_of_data3 (fun cycle => ?_) fun cycle => ?_ <;> cases cycle <;> decide

theorem stages_stage (q : Request) (translate : BitVec 64 → Option (BitVec 64)) : ∀ stage ∈ q.stages translate, Stage stage := by
  unfold Request.stages
  refine List.forall_mem_cons.mpr ⟨setup_stage q, ?_⟩
  split
  · exact List.forall_mem_singleton.mpr status_stage
  · split
    · exact List.forall_mem_nil _
    · exact List.forall_mem_cons.mpr ⟨data_stage q _, List.forall_mem_singleton.mpr status_stage⟩

/-! ## One call -/

theorem data_type (q : Request) (physical : BitVec 64) (cycle : Bool) : (q.data physical cycle).getType = 3#32 := by
  rw [TRB.getType, data_data3]
  cases cycle <;> decide

theorem status_type (cycle : Bool) : (status cycle).getType = 4#32 := by
  cases cycle <;> decide

/-- Behind the Setup stage of a request is its Data or Status stage. -/
theorem Complete.second {block : List TRB} (h : Complete block) :
    ∃ setup trb rest, block = setup :: trb :: rest ∧ (trb.getType = 3#32 ∨ trb.getType = 4#32) := by
  obtain ⟨q, translate, hmapped, hblock⟩ := h
  unfold Request.stages at hblock
  cases hbuffer : q.buffer with
  | none =>
    rw [hbuffer] at hblock
    obtain ⟨setup, rest, -, hrest, rfl⟩ := List.forall₂_cons_right_iff.mp hblock
    obtain ⟨trb, rest, ⟨cycle, rfl⟩, -, rfl⟩ := List.forall₂_cons_right_iff.mp hrest
    exact ⟨setup, _, rest, rfl, .inr (status_type cycle)⟩
  | some buffer =>
    cases hphysical : translate buffer with
    | none => exact absurd hphysical (hmapped buffer hbuffer)
    | some physical =>
      rw [hbuffer] at hblock
      dsimp only at hblock
      rw [hphysical] at hblock
      obtain ⟨setup, rest, -, hrest, rfl⟩ := List.forall₂_cons_right_iff.mp hblock
      obtain ⟨trb, rest, ⟨cycle, rfl⟩, -, rfl⟩ := List.forall₂_cons_right_iff.mp hrest
      exact ⟨setup, _, rest, rfl, .inl (data_type q physical cycle)⟩

/-- The same at the beginning of several requests. -/
theorem Whole.second {l : List TRB} {setup trb : TRB} {rest : List TRB} (h : Whole l) (hbegin : setup :: trb :: rest <+: l) :
    trb.getType = 3#32 ∨ trb.getType = 4#32 := by
  obtain ⟨blocks, hblocks, rfl⟩ := h
  obtain ⟨behind, hl⟩ := hbegin
  cases blocks with
  | nil => cases hl
  | cons block blocks =>
    obtain ⟨setup', trb', rest', rfl, htype⟩ := (hblocks block List.mem_cons_self).second
    obtain ⟨-, hrest⟩ := List.cons.inj hl
    obtain ⟨rfl, -⟩ := List.cons.inj hrest
    exact htype

/-- The ring after `w` was written to it, Link TRBs included. -/
structure Ring.Written (r : RingMemory) (ring : Ring) (w : List TRB) : Prop where
  holds : RingInv r ring.slots w
  index : ring.index = w.length % r.capacity
  cycle : ring.cycle = lapCycle r.capacity w.length
  place : w.length % r.capacity ≠ r.capacity - 1

theorem create_written (r : RingMemory) : (⟨fun _ => .zero, 0, true⟩ : Ring).Written r [] := by
  have hcap := r.capacity_ge
  refine ⟨TransferRing.ringInv_zero r, (Nat.zero_mod _).symm, (lapCycle_first r.pos).symm, ?_⟩
  rw [List.length_nil, Nat.zero_mod]
  omega

/-- A call of `Enqueue` returns, and the TRB is in the ring. -/
theorem Ring.Written.enqueue (h : ring.Written r w) (hs : Stage stage) :
    ∃ ring' w', ring.enqueue r (stage ring.cycle) = some ring' ∧ ring'.Written r w' ∧
      ring'.slots ring.index = stage ring.cycle := by
  have hcap := r.capacity_ge
  have hbound := Nat.mod_lt w.length r.pos
  have hplace := h.place
  obtain ⟨hcycle, hlink⟩ := hs ring.cycle
  have hfirst := TransferRing.enqueueTRB_ring h.holds (hcycle.trans h.cycle)
  rw [← h.index] at hfirst
  have hpush := h.holds.push (hcycle.trans h.cycle) (fun he => absurd he h.place) fun _ => hlink
  rw [← h.index] at hpush
  have hslot := next_slot (n := w.length) r.pos
  have hlap := next_cycle (n := w.length) r.pos
  unfold Ring.enqueue
  rw [hfirst, Option.bind_eq_bind, Option.bind_some]
  by_cases hlast : ring.index + 1 ≥ r.capacity - 1
  · -- the next slot is the last one of the lap
    have hindex := h.index
    have hnext : (w ++ [stage ring.cycle]).length % r.capacity = r.capacity - 1 := by
      rw [List.length_append, List.length_singleton, hslot, if_neg (by omega)]
      omega
    have hcycle' : lapCycle r.capacity (w ++ [stage ring.cycle]).length = ring.cycle := by
      rw [List.length_append, List.length_singleton, hlap, if_neg (by omega), h.cycle]
    have hsecond := TransferRing.enqueueTRB_ring hpush ((link_getCycle ring.cycle r.base).trans hcycle'.symm)
    have hpush' := hpush.push ((link_getCycle ring.cycle r.base).trans hcycle'.symm) (fun _ => by rw [hcycle'])
      (fun hne => absurd hnext hne)
    have hplace' : ring.index + 1 = (w ++ [stage ring.cycle]).length % r.capacity := by omega
    rw [← hplace'] at hsecond hpush'
    rw [if_pos hlast, hsecond, Option.bind_some]
    refine ⟨_, _, rfl, ⟨hpush', ?_, ?_, ?_⟩, ?_⟩
    · rw [List.length_append, List.length_singleton, next_slot r.pos, if_pos (by omega)]
    · rw [List.length_append, List.length_singleton, next_cycle r.pos, if_pos (by omega), hcycle']
    · rw [List.length_append, List.length_singleton, next_slot r.pos, if_pos (by omega)]
      omega
    · exact (write_other _ _ (by omega)).trans (write_same _ _ _)
  · have hindex := h.index
    rw [if_neg hlast]
    refine ⟨_, _, rfl, ⟨hpush, ?_, ?_, ?_⟩, write_same _ _ _⟩
    · rw [List.length_append, List.length_singleton, hslot, if_neg (by omega), hindex]
    · rw [List.length_append, List.length_singleton, hlap, if_neg (by omega), h.cycle]
    · rw [List.length_append, List.length_singleton, hslot, if_neg (by omega)]
      omega

/-- A request whose buffer is mapped comes to the doorbell. -/
theorem sendRequest_mapped (hq : q.Mapped translate) {outcome : Outcome}
    (h : sendRequest r translate ring q = some (ring', outcome)) : outcome = .doorbell := by
  unfold sendRequest at h
  obtain ⟨ring₁, -, h⟩ := Option.bind_eq_some_iff.mp h
  split at h
  · obtain ⟨ring₂, -, h⟩ := Option.bind_eq_some_iff.mp h
    cases h
    rfl
  · next buffer hbuffer =>
    split at h
    · next hnone => exact absurd hnone (hq buffer hbuffer)
    · obtain ⟨ring₂, -, h⟩ := Option.bind_eq_some_iff.mp h
      obtain ⟨ring₃, -, h⟩ := Option.bind_eq_some_iff.mp h
      cases h
      rfl

/-- A request whose buffer is not mapped leaves its Setup stage, and a controller that has come to this place
obtains it. -/
theorem sendRequest_unmapped (h : ring.Written r w) {buffer : BitVec 64} (hbuffer : q.buffer = some buffer)
    (hnone : translate buffer = none) : ∃ ring', sendRequest r translate ring q = some (ring', .failure) ∧
      Usb.consume r ring'.slots ⟨ring.index, ring.cycle⟩ =
        some (some (q.setup ring.cycle), ⟨ring.index + 1, ring.cycle⟩) := by
  obtain ⟨ring', -, henqueue, -, hslot⟩ := h.enqueue (setup_stage q)
  obtain ⟨hcycle, hlink⟩ := setup_stage q ring.cycle
  refine ⟨ring', ?_, ?_⟩
  · unfold sendRequest
    rw [henqueue, Option.bind_eq_bind, Option.bind_some, hbuffer]
    dsimp only
    rw [hnone]
  · unfold Usb.consume
    dsimp only
    rw [hslot, hcycle, hlink, if_neg (fun hne => hne rfl), if_neg (by decide)]

/-- When the call fails before the doorbell, a controller that has consumed what was there before finds nothing. -/
def LeavesNothing (r : RingMemory) (translate : BitVec 64 → Option (BitVec 64)) (ring : Ring) (q : Request) : Prop :=
  ∀ ring', sendRequest r translate ring q = some (ring', .failure) →
    Usb.consume r ring'.slots ⟨ring.index, ring.cycle⟩ = none

theorem leaves_nothing_iff (h : ring.Written r w) : LeavesNothing r translate ring q ↔ q.Mapped translate := by
  constructor
  · intro hnothing buffer hbuffer hnone
    obtain ⟨ring', hsend, hconsume⟩ := sendRequest_unmapped h hbuffer hnone
    rw [hnothing ring' hsend] at hconsume
    cases hconsume
  · intro hq ring' hsend
    cases sendRequest_mapped hq hsend

/-! ## The writes of a call -/

/-- A call is what its stages are, one `Enqueue` after the other. -/
theorem sendRequest_stages (r : RingMemory) (translate : BitVec 64 → Option (BitVec 64)) (ring : Ring) (q : Request) :
    (sendRequest r translate ring q).map (·.1) =
      (q.stages translate).foldlM (fun ring stage => ring.enqueue r (stage ring.cycle)) ring := by
  unfold sendRequest Request.stages
  rw [List.foldlM_cons]
  cases ring.enqueue r (q.setup ring.cycle) with
  | none => rfl
  | some ring =>
    cases q.buffer with
    | none => cases hstatus : ring.enqueue r (status ring.cycle) <;> simp [hstatus]
    | some buffer =>
      cases htranslate : translate buffer with
      | none => simp [htranslate]
      | some physical =>
        cases hdata : ring.enqueue r (q.data physical ring.cycle) with
        | none => simp [htranslate, hdata]
        | some ring => cases hstatus : ring.enqueue r (status ring.cycle) <;> simp [htranslate, hdata, hstatus]

def State.memory (s : State) : Ring := ⟨s.ring.slots, s.ring.index, s.ring.cycle⟩

/-- No call of `Enqueue` is in progress. -/
def State.Idle (s : State) : Prop := s.ring.linking = false ∧ s.ring.blocked = false

/-- A call of `Enqueue` is its one or two writes. -/
theorem enqueue_run {todo : List (Bool → TRB)} (hidle : s.Idle) (htodo : s.todo = stage :: todo)
    (h : s.memory.enqueue r (stage s.ring.cycle) = some ring') :
    ∃ acts s', Machine.run (step r) s acts = some s' ∧ s'.Idle ∧ s'.todo = todo ∧ s'.memory = ring' := by
  obtain ⟨hlinking, hblocked⟩ := hidle
  unfold Ring.enqueue at h
  obtain ⟨slots, hwrite, h⟩ := Option.bind_eq_some_iff.mp h
  have hfirst : step r s .stage = some ⟨{ s.ring with
      slots := slots
      index := s.ring.index + 1
      linking := decide (s.ring.index + 1 ≥ r.capacity - 1)
      enqueued := s.ring.enqueued ++ [stage s.ring.cycle] }, todo⟩ := by
    have hwrite' : TransferRing.enqueueTRB s.ring.slots s.ring.index (stage s.ring.cycle) = some slots := hwrite
    rw [step, htodo]
    dsimp only
    rw [hlinking, hblocked, if_neg (by simp), hwrite']
  by_cases hlast : s.ring.index + 1 ≥ r.capacity - 1
  · rw [if_pos (show s.memory.index + 1 ≥ r.capacity - 1 from hlast)] at h
    obtain ⟨slots', hlink, h⟩ := Option.bind_eq_some_iff.mp h
    cases h
    have hlink' : TransferRing.enqueueTRB slots (s.ring.index + 1) (LinkTRB.create s.ring.cycle r.base) = some slots' := hlink
    refine ⟨[.stage, .link], ⟨{ s.ring with
      slots := slots'
      index := 0
      cycle := !s.ring.cycle
      linking := false
      enqueued := s.ring.enqueued ++ [stage s.ring.cycle] }, todo⟩, ?_, ⟨rfl, hblocked⟩, rfl, rfl⟩
    rw [Machine.run_cons hfirst]
    refine Machine.run_cons ?_ []
    rw [step, TransferRing.step]
    dsimp only
    rw [hblocked, if_neg (by simpa using hlast), hlink']
    rfl
  · rw [if_neg (show ¬ s.memory.index + 1 ≥ r.capacity - 1 from hlast)] at h
    cases h
    exact ⟨[.stage], _, Machine.run_cons hfirst [], ⟨decide_eq_false hlast, hblocked⟩, rfl, rfl⟩

theorem foldlM_run : ∀ (stages : List (Bool → TRB)) (s : State) (ring' : Ring), s.Idle → s.todo = stages →
    stages.foldlM (fun ring stage => ring.enqueue r (stage ring.cycle)) s.memory = some ring' →
    ∃ acts s', Machine.run (step r) s acts = some s' ∧ s'.Idle ∧ s'.todo = [] ∧ s'.memory = ring'
  | [], s, ring', hidle, htodo, h => by
    cases h
    exact ⟨[], s, rfl, hidle, htodo, rfl⟩
  | stage :: stages, s, ring', hidle, htodo, h => by
    rw [List.foldlM_cons] at h
    obtain ⟨ring₁, henqueue, h⟩ := Option.bind_eq_some_iff.mp h
    obtain ⟨acts, s₁, hrun, hidle₁, htodo₁, rfl⟩ := enqueue_run hidle htodo henqueue
    obtain ⟨acts', s', hrun', hidle', htodo', hmemory⟩ := foldlM_run stages s₁ ring' hidle₁ htodo₁ h
    refine ⟨acts ++ acts', s', ?_, hidle', htodo', hmemory⟩
    rw [Machine.run_append, hrun, Option.bind_some, hrun']

/-- A call that nothing interrupts is a run. -/
theorem sendRequest_run {outcome : Outcome} (hidle : s.Idle) (htodo : s.todo = [])
    (h : sendRequest r translate s.memory q = some (ring', outcome)) :
    ∃ acts s', Machine.run (step r) s (.request q translate :: acts) = some s' ∧ s'.Idle ∧ s'.todo = [] ∧
      s'.memory = ring' := by
  have hfold := sendRequest_stages r translate s.memory q
  rw [h, Option.map_some] at hfold
  have hrequest : step r s (.request q translate) = some { s with todo := q.stages translate } := by
    rw [step, hidle.1, htodo, if_neg (by simp)]
  obtain ⟨acts, s', hrun, hidle', htodo', hmemory⟩ :=
    foldlM_run (q.stages translate) { s with todo := q.stages translate } ring' hidle rfl hfold.symm
  exact ⟨acts, s', (Machine.run_cons hrequest acts).trans hrun, hidle', htodo', hmemory⟩

/-! ## Calls one after the other -/

/-- The stages that are there and those that are to come make up whole requests. -/
structure WholeInv (r : RingMemory) (s : State) : Prop where
  ring : TransferRing.Inv r s.ring
  stages : ∀ stage ∈ s.todo, Stage stage
  whole : ∀ rest, List.Forall₂ (fun trb stage => ∃ cycle, trb = stage cycle) rest s.todo → Whole (s.ring.enqueued ++ rest)

theorem whole_create (r : RingMemory) : WholeInv r create := by
  refine ⟨TransferRing.inv_create r, List.forall_mem_nil _, fun rest hrest => ?_⟩
  cases hrest
  exact ⟨[], List.forall_mem_nil _, rfl⟩

theorem Whole.append {l block : List TRB} (h : Whole l) (hblock : Complete block) : Whole (l ++ block) := by
  obtain ⟨blocks, hblocks, rfl⟩ := h
  refine ⟨blocks ++ [block], List.forall_mem_append.mpr ⟨hblocks, List.forall_mem_singleton.mpr hblock⟩, ?_⟩
  rw [List.flatten_append, List.flatten_singleton]

/-- The write of a stage that fits is one that the ring allows. -/
theorem stage_step {todo : List (Bool → TRB)} (hring : TransferRing.Inv r s.ring) (hs : Stage stage)
    (htodo : s.todo = stage :: todo) (hgood : Good r s .stage) (hstep : step r s .stage = some s') :
    TransferRing.step r s.ring (.enqueue (stage s.ring.cycle)) = some s'.ring ∧
      s'.ring.enqueued = s.ring.enqueued ++ [stage s.ring.cycle] ∧ s'.todo = todo := by
  obtain ⟨w, n, hg⟩ := hring
  obtain ⟨hcycle, hlink⟩ := hs s.ring.cycle
  have hwrite := hg.enqueueTRB hcycle
  have hroom : s.ring.enqueued.length + 1 ≤ s.ring.obtained.length + (r.capacity - 2) := hgood
  unfold step at hstep
  rw [htodo] at hstep
  dsimp only at hstep
  split at hstep
  · cases hstep
  · next hfree =>
    rw [not_or] at hfree
    rw [hwrite] at hstep
    cases hstep
    refine ⟨?_, rfl, rfl⟩
    unfold TransferRing.step
    dsimp only
    rw [if_neg, hwrite]
    rw [hlink, hcycle]
    simp only [hfree.1, hfree.2, Bool.false_eq_true, ne_eq, not_true_eq_false, false_or]
    omega

theorem link_enqueued {t t' : TransferRing.State} (h : TransferRing.step r t .link = some t') : t'.enqueued = t.enqueued := by
  rw [TransferRing.step] at h
  split at h
  · cases h
  · split at h <;> cases h <;> rfl

theorem consume_enqueued {t t' : TransferRing.State} (h : TransferRing.step r t .consume = some t') :
    t'.enqueued = t.enqueued := by
  rw [TransferRing.step] at h
  split at h <;> cases h <;> rfl

theorem whole_step (a : Act) (h : WholeInv r s) (hgood : Good r s a) (hstep : step r s a = some s') : WholeInv r s' := by
  cases a with
  | request q translate =>
    rw [step] at hstep
    split at hstep
    · cases hstep
    · next hidle =>
      rw [not_or, not_not, List.isEmpty_iff] at hidle
      cases hstep
      refine ⟨h.ring, stages_stage q translate, fun block hblock => ?_⟩
      have hwhole := h.whole [] (by rw [hidle.2]; exact .nil)
      rw [List.append_nil] at hwhole
      exact hwhole.append ⟨q, translate, hgood, hblock⟩
  | stage =>
    cases htodo : s.todo with
    | nil =>
      rw [step, htodo] at hstep
      cases hstep
    | cons stage todo =>
      obtain ⟨hs, hstages⟩ := List.forall_mem_cons.mp (htodo ▸ h.stages)
      obtain ⟨hring, henqueued, htodo'⟩ := stage_step h.ring hs htodo hgood hstep
      refine ⟨TransferRing.inv_step _ h.ring hring, by rw [htodo']; exact hstages, fun rest hrest => ?_⟩
      rw [htodo'] at hrest
      have hwhole := h.whole (stage s.ring.cycle :: rest) (by rw [htodo]; exact .cons ⟨_, rfl⟩ hrest)
      rw [henqueued, List.append_assoc]
      exact hwhole
  | link =>
    obtain ⟨ring, hring, rfl⟩ := Option.map_eq_some_iff.mp hstep
    exact ⟨TransferRing.inv_step _ h.ring hring, h.stages, by rw [link_enqueued hring]; exact h.whole⟩
  | consume =>
    obtain ⟨ring, hring, rfl⟩ := Option.map_eq_some_iff.mp hstep
    exact ⟨TransferRing.inv_step _ h.ring hring, h.stages, by rw [consume_enqueued hring]; exact h.whole⟩

/-- The controller alone, on the ring and on the whole. -/
theorem run_consume : ∀ (k : Nat) (s : State) (t : TransferRing.State),
    Machine.run (TransferRing.step r) s.ring (List.replicate k .consume) = some t →
    Machine.run (step r) s (List.replicate k .consume) = some { s with ring := t }
  | 0, s, t, h => by
    cases h
    rfl
  | k + 1, s, t, h => by
    rw [List.replicate_succ, Machine.run] at h
    obtain ⟨t₁, hfirst, hrest⟩ := Option.bind_eq_some_iff.mp h
    have hstep : step r s .consume = some { s with ring := t₁ } := by
      unfold step
      rw [hfirst]
      rfl
    rw [List.replicate_succ, Machine.run_cons hstep]
    exact run_consume k { s with ring := t₁ } t hrest

theorem WholeInv.safe (h : WholeInv r s) : Safe r s := by
  have hdelivers := TransferRing.delivers_of_inv h.ring
  refine ⟨?_, fun hidle => ⟨?_, ?_⟩⟩
  · have hrest : List.Forall₂ (fun trb stage => ∃ cycle, trb = stage cycle) (s.todo.map fun stage => stage true) s.todo :=
      List.forall₂_map_left_iff.mpr (List.forall₂_same.mpr fun stage _ => ⟨true, rfl⟩)
    exact ⟨_, h.whole _ hrest, hdelivers.inOrder.trans (List.prefix_append _ _)⟩
  · have hwhole := h.whole [] (by rw [hidle]; exact .nil)
    rw [List.append_nil] at hwhole
    exact hwhole
  · obtain ⟨k, t, hrun, hobtained⟩ := hdelivers.all
    exact ⟨k, _, run_consume k s t hrun, hobtained⟩

end

/-- A call that fails before the doorbell leaves nothing in the ring, wherever its index and cycle are, exactly when
its buffer is null or mapped, so that it does not fail there. Over runs of such calls, with room for their TRBs, the
controller obtains whole requests. -/
theorem requests_whole (r : RingMemory) :
    (∀ (ring : Ring) (w : List TRB) translate q, ring.Written r w → (LeavesNothing r translate ring q ↔ q.Mapped translate)) ∧
    ∀ acts, Machine.AllSteps (step r) (Good r) create acts → Machine.AllStates (step r) (Safe r) create acts :=
  ⟨fun _ _ _ _ h => leaves_nothing_iff h, fun acts hgood => Machine.AllStates.mono (fun _ h => h.safe) acts create
    (Machine.allStates_of_allSteps (fun _ a _ h hgood hs => whole_step a h hgood hs) acts create (whole_create r) hgood)⟩

/-- A ring of a page. -/
def pageRing : RingMemory := ⟨0x1000#64, 256, page_capacity, by decide⟩

/-- `GET_DESCRIPTOR` with a buffer, and `SET_CONFIGURATION` without one. -/
def getDescriptor : Request := ⟨0x80#8, 6#8, 0x0100#16, 0#16, 8#16, some 0x7000#64⟩

def setConfiguration : Request := ⟨0x00#8, 9#8, 1#16, 0#16, 0#16, none⟩

theorem whole_getDescriptor : LeavesNothing pageRing some ⟨fun _ => .zero, 0, true⟩ getDescriptor ∧
    Machine.AllStates (step pageRing) (Safe pageRing) create
      [.request getDescriptor some, .stage, .stage, .consume, .stage, .consume, .consume] :=
  ⟨((requests_whole pageRing).1 _ _ _ _ (create_written pageRing)).mpr (by decide),
    (requests_whole pageRing).2 _ (by decide +kernel)⟩

/-- A buffer that is not mapped: the Setup stage stays behind, and the controller obtains it with the next request. -/
theorem setup_left_behind : ¬ LeavesNothing pageRing (fun _ => none) ⟨fun _ => .zero, 0, true⟩ getDescriptor ∧
    ¬ Machine.AllStates (step pageRing) (Safe pageRing) create
      [.request getDescriptor fun _ => none, .stage, .request setConfiguration some, .stage, .stage, .consume, .consume] := by
  refine ⟨fun hnothing => ?_, fun hsafe => ?_⟩
  · rw [leaves_nothing_iff (create_written pageRing)] at hnothing
    exact absurd hnothing (by decide)
  · have hrun : ∃ s, Machine.run (step pageRing) create [.request getDescriptor fun _ => none, .stage,
        .request setConfiguration some, .stage, .stage, .consume, .consume] = some s ∧
        s.ring.obtained = [getDescriptor.setup true, setConfiguration.setup true] := ⟨_, rfl, by decide +kernel⟩
    obtain ⟨s, hrun, hobtained⟩ := hrun
    obtain ⟨l, hl, hbegin⟩ := (hsafe.of_run _ _ s hrun).obtained
    rw [hobtained] at hbegin
    exact absurd (hl.second hbegin) (by decide)

end ControlTransfer

end BadLands.Usb
