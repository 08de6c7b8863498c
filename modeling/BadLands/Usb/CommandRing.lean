import BadLands.Core.Machine
import BadLands.Usb.Trb

/-!
# The command ring

A caller of `Controller::SendCommand` builds its command first, with the cycle bit
`GetCommandCycle()` reports then, and `SendCommand` writes it later, under the command lock.
`Device::AddressDevice` builds two commands before it sends the first. A ring that wraps in
between toggles its cycle, and the command is written with the old one.

`step` interleaves the callers and the controller. `commandRing_valid`: in every run in which
no wrap happens between building a command and sending it, and the controller stays less than
a lap behind, every command is written with the cycle of the ring and the controller sees the
commands in order. `addressDevice_stale`: `AddressDevice` at the end of a lap.
-/
namespace BadLands.Usb.CommandRing

open BadLands.Core BadLands.Core.CycleRing

/-! ## The commands -/

/-- `SetSlotType`, `SetSlotID`.
mirrors kernel/src/devices/USB/xHCI/TRB.cpp:101-111 -/
def setSlotType (t : TRB) (type : BitVec 8) : TRB :=
  { t with data3 := modifyPacked t.data3 0x001F0000#32 16 (type.setWidth 32) }

def setSlotID (t : TRB) (id : BitVec 8) : TRB :=
  { t with data3 := modifyPacked t.data3 0xFF000000#32 24 (id.setWidth 32) }

/-- mirrors kernel/src/devices/USB/xHCI/TRB.cpp:113-127 -/
def NoOpTRB.create (cycle : Bool) : TRB := (TRB.zero.setCycle cycle).setTRBType 23#32

/-- mirrors kernel/src/devices/USB/xHCI/TRB.cpp:129-144 -/
def EnableSlotTRB.create (cycle : Bool) (slotType : BitVec 8) : TRB :=
  setSlotType ((TRB.zero.setCycle cycle).setTRBType 9#32) slotType

/-- mirrors kernel/src/devices/USB/xHCI/TRB.cpp:146-161 -/
def DisableSlotTRB.create (cycle : Bool) (slotId : BitVec 8) : TRB :=
  setSlotID ((TRB.zero.setCycle cycle).setTRBType 10#32) slotId

/-- The body that `AddressDeviceTRB::Create` and `ConfigureEndpointTRB::Create` share. -/
def contextTRB (type : BitVec 32) (cycle flag : Bool) (slotId : BitVec 8) (context : BitVec 64) : TRB :=
  let rawPointer := context &&& 0xFFFFFFFFFFFFFFF0#64
  let trb : TRB := ⟨rawPointer.setWidth 32, (rawPointer >>> 32).setWidth 32, 0#32,
    if flag then 0x00000200#32 else 0#32⟩
  setSlotID ((trb.setCycle cycle).setTRBType type) slotId

/-- mirrors kernel/src/devices/USB/xHCI/TRB.cpp:163-182 -/
def AddressDeviceTRB.create (cycle bsr : Bool) (slotId : BitVec 8) (context : BitVec 64) : TRB :=
  contextTRB 11#32 cycle bsr slotId context

/-- mirrors kernel/src/devices/USB/xHCI/TRB.cpp:184-203 -/
def ConfigureEndpointTRB.create (cycle dc : Bool) (slotId : BitVec 8) (context : BitVec 64) : TRB :=
  contextTRB 12#32 cycle dc slotId context

/-- What the device code asks for. -/
inductive Command where
  | enableSlot (slotType : BitVec 8)
  | disableSlot (slotId : BitVec 8)
  | addressDevice (bsr : Bool) (slotId : BitVec 8) (context : BitVec 64)
  | configureEndpoint (dc : Bool) (slotId : BitVec 8) (context : BitVec 64)
  deriving DecidableEq, Repr

def Command.create (cycle : Bool) : Command → TRB
  | .enableSlot slotType => EnableSlotTRB.create cycle slotType
  | .disableSlot slotId => DisableSlotTRB.create cycle slotId
  | .addressDevice bsr slotId context => AddressDeviceTRB.create cycle bsr slotId context
  | .configureEndpoint dc slotId context => ConfigureEndpointTRB.create cycle dc slotId context

section
variable {t : TRB} {cycle : Bool} {type : BitVec 32} {value : BitVec 8}

theorem setTRBType_getCycle : (t.setTRBType type).getCycle = t.getCycle := by
  unfold TRB.getCycle TRB.setTRBType
  simp only
  rw [modifyPacked_other (by decide)]

theorem setTRBType_getType : (t.setTRBType type).getType = ((type <<< 10) &&& 0x0000FC00#32) >>> 10 := by
  unfold TRB.getType TRB.setTRBType getPacked
  simp only
  rw [modifyPacked_same]

theorem setSlotType_getCycle : (setSlotType t value).getCycle = t.getCycle := by
  unfold TRB.getCycle setSlotType
  simp only
  rw [modifyPacked_other (by decide)]

theorem setSlotType_getType : (setSlotType t value).getType = t.getType := by
  unfold TRB.getType setSlotType getPacked
  simp only
  rw [modifyPacked_other (by decide)]

theorem setSlotID_getCycle : (setSlotID t value).getCycle = t.getCycle := by
  unfold TRB.getCycle setSlotID
  simp only
  rw [modifyPacked_other (by decide)]

theorem setSlotID_getType : (setSlotID t value).getType = t.getType := by
  unfold TRB.getType setSlotID getPacked
  simp only
  rw [modifyPacked_other (by decide)]

end

theorem Command.create_getCycle (cycle : Bool) (c : Command) : (c.create cycle).getCycle = cycle := by
  cases c with
  | enableSlot => exact setSlotType_getCycle.trans (setTRBType_getCycle.trans setCycle_getCycle)
  | disableSlot => exact setSlotID_getCycle.trans (setTRBType_getCycle.trans setCycle_getCycle)
  | addressDevice => exact setSlotID_getCycle.trans (setTRBType_getCycle.trans setCycle_getCycle)
  | configureEndpoint => exact setSlotID_getCycle.trans (setTRBType_getCycle.trans setCycle_getCycle)

theorem Command.create_isLink (cycle : Bool) (c : Command) : (c.create cycle).isLink = false := by
  have htype : ∃ type ∈ [9#32, 10#32, 11#32, 12#32],
      (c.create cycle).getType = ((type <<< 10) &&& 0x0000FC00#32) >>> 10 := by
    cases c with
    | enableSlot => exact ⟨9#32, by decide, setSlotType_getType.trans setTRBType_getType⟩
    | disableSlot => exact ⟨10#32, by decide, setSlotID_getType.trans setTRBType_getType⟩
    | addressDevice => exact ⟨11#32, by decide, setSlotID_getType.trans setTRBType_getType⟩
    | configureEndpoint => exact ⟨12#32, by decide, setSlotID_getType.trans setTRBType_getType⟩
  obtain ⟨type, hmem, ht⟩ := htype
  unfold TRB.isLink
  rw [ht]
  simp only [List.mem_cons, List.not_mem_nil, or_false] at hmem
  rcases hmem with rfl | rfl | rfl | rfl <;> decide

theorem noOp_getCycle (cycle : Bool) : (NoOpTRB.create cycle).getCycle = cycle :=
  setTRBType_getCycle.trans setCycle_getCycle

theorem noOp_isLink (cycle : Bool) : (NoOpTRB.create cycle).isLink = false := by
  cases cycle <;> decide

/-! ## The ring -/

/-- A command that was built and not sent; `laps` is the number of wraps of the ring then. -/
structure Built where
  trb : TRB
  laps : Nat
  deriving DecidableEq, Repr

/-- The ring of the controller object, the callers, and the controller itself. `built` holds
each caller's commands in the order it sends them. `linking`: `UpdateCommandPointer` has the
Link TRB still to write. `valid`: every command was written with the ring's cycle. -/
structure State where
  slots : Nat → TRB
  commandIndex : Nat
  commandCycle : Bool
  linking : Bool
  laps : Nat
  built : Nat → List Built
  consumer : Consumer
  sent : List TRB
  seen : List TRB
  valid : Bool

/-- The ring with `commandIndex = i` after `i` commands that were all seen. -/
def start (i : Nat) : State where
  slots := fun k => if k < i then NoOpTRB.create true else .zero
  commandIndex := i
  commandCycle := true
  linking := false
  laps := 0
  built := fun _ => []
  consumer := ⟨i, true⟩
  sent := List.replicate i (NoOpTRB.create true)
  seen := List.replicate i (NoOpTRB.create true)
  valid := true

inductive Act where
  | build (caller : Nat) (command : Command)
  | send (caller : Nat)
  | link
  | consume
  deriving DecidableEq, Repr

/-- `none`: the step is not one that can be made, as the lock is held or nothing is built. A
completion or a timeout ends `SendCommand` without a change to the ring.
mirrors kernel/src/devices/USB/xHCI/Controller.cpp:375-386,1116-1144 -/
def step (r : RingMemory) (s : State) : Act → Option State
  | .build caller command => some { s with
      built := fun k => if k = caller then s.built k ++ [⟨command.create s.commandCycle, s.laps⟩]
        else s.built k }
  | .send caller =>
    match s.linking, s.built caller with
    | false, b :: rest => some { s with
        slots := write s.slots s.commandIndex b.trb
        commandIndex := s.commandIndex + 1
        linking := decide (s.commandIndex + 1 ≥ r.capacity - 1)
        built := fun k => if k = caller then rest else s.built k
        sent := s.sent ++ [b.trb]
        valid := s.valid && b.trb.getCycle == s.commandCycle }
    | _, _ => none
  | .link =>
    if s.linking then some { s with
      slots := write s.slots s.commandIndex (LinkTRB.create s.commandCycle r.base)
      commandIndex := 0
      commandCycle := !s.commandCycle
      laps := s.laps + 1
      linking := false }
    else none
  | .consume =>
    match Usb.consume r s.slots s.consumer with
    | none => some s
    | some (trb, consumer) => some { s with consumer := consumer, seen := s.seen ++ trb.toList }

/-- mirrors kernel/src/devices/USB/xHCI/Device.cpp:254-295: whatever the first command's result
is, the second one is sent. -/
def addressDevice (caller : Nat) (slotId : BitVec 8) (context : BitVec 64) : List Act :=
  [.build caller (.addressDevice true slotId context), .build caller (.addressDevice false slotId context),
    .send caller, .send caller]

/-- What the callers and the controller are promised. -/
structure Valid (r : RingMemory) (s : State) : Prop where
  stamped : s.valid = true
  inOrder : s.seen <+: s.sent
  all : ∃ k s', Machine.run (step r) s (List.replicate k .consume) = some s' ∧ s'.seen = s.sent

/-- The ring has not wrapped since the command was built, and the controller is less than a
lap behind. -/
def InLap (r : RingMemory) (s : State) : Act → Prop
  | .send caller => (∀ b ∈ (s.built caller).head?, b.laps = s.laps) ∧
      s.sent.length + 1 ≤ s.seen.length + (r.capacity - 2)
  | _ => True

instance (r : RingMemory) (s : State) (a : Act) : Decidable (InLap r s a) :=
  match a with
  | .send _ => inferInstanceAs (Decidable (_ ∧ _))
  | .build _ _ => isTrue trivial
  | .link => isTrue trivial
  | .consume => isTrue trivial

/-! ## Runs within a lap -/

/-- The ring holds `w`, of which the controller has passed `n`; commands that wait to be sent
carry the cycle of the lap they were built in. -/
structure Ghost (r : RingMemory) (s : State) (w : List TRB) (n : Nat) : Prop where
  ring : RingInv r s.slots w
  index : s.commandIndex = w.length % r.capacity
  laps : s.laps = w.length / r.capacity
  cycle : s.commandCycle = lapCycle r.capacity w.length
  linking : s.linking = true ↔ w.length % r.capacity = r.capacity - 1
  built : ∀ k, ∀ b ∈ s.built k, b.trb.isLink = false ∧ b.trb.getCycle = (b.laps % 2 == 0)
  consumer : s.consumer.At r.capacity n
  passed : n ≤ w.length
  sent : s.sent = payload w
  seen : s.seen = payload (w.take n)
  lag : s.sent.length ≤ s.seen.length + (r.capacity - 2)
  valid : s.valid = true

def Inv (r : RingMemory) (s : State) : Prop := ∃ w n, Ghost r s w n

section
variable {r : RingMemory} {s s' : State} {w : List TRB} {n : Nat}

theorem payload_noOps (i : Nat) :
    payload (List.replicate i (NoOpTRB.create true)) = List.replicate i (NoOpTRB.create true) := by
  unfold payload
  rw [List.filter_eq_self]
  intro t ht
  rw [List.eq_of_mem_replicate ht, noOp_isLink]
  rfl

theorem inv_start (r : RingMemory) (i : Nat) (hi : i < r.capacity - 1) : Inv r (start i) := by
  have hget : ∀ (j : Nat) t, (List.replicate i (NoOpTRB.create true))[j]? = some t →
      j < i ∧ t = NoOpTRB.create true := by
    intro j t ht
    rw [List.getElem?_replicate] at ht
    split at ht
    · exact ⟨‹_›, (Option.some.inj ht).symm⟩
    · cases ht
  have hring : RingInv r (start i).slots (List.replicate i (NoOpTRB.create true)) := by
    refine ⟨⟨fun j t ht _ => ?_, fun k _ hk => ?_, fun j t ht => ?_⟩, fun j t ht hl => ?_, fun j t ht _ => ?_⟩
    · obtain ⟨hj, rfl⟩ := hget j t ht
      rw [Nat.mod_eq_of_lt (by omega)]
      exact if_pos hj
    · rw [List.length_replicate] at hk
      have hslot : (start i).slots k = .zero := if_neg (by omega)
      rw [hslot, zero_getCycle]
    · obtain ⟨hj, rfl⟩ := hget j t ht
      rw [lapCycle_first (by omega), noOp_getCycle]
    · obtain ⟨hj, rfl⟩ := hget j t ht
      rw [Nat.mod_eq_of_lt (by omega)] at hl
      omega
    · obtain ⟨-, rfl⟩ := hget j t ht
      exact noOp_isLink true
  have hlt : i < r.capacity := by omega
  have htake : (List.replicate i (NoOpTRB.create true)).take i = List.replicate i (NoOpTRB.create true) :=
    List.take_of_length_le (Nat.le_of_eq List.length_replicate)
  refine ⟨_, i, hring, ?_, ?_, ?_, ?_, fun k b hb => ?_, ⟨?_, ?_⟩, ?_, ?_, ?_, Nat.le_add_right _ _, rfl⟩
  · rw [List.length_replicate, Nat.mod_eq_of_lt hlt]
    rfl
  · rw [List.length_replicate, Nat.div_eq_of_lt hlt]
    rfl
  · rw [List.length_replicate, lapCycle_first hlt]
    rfl
  · rw [List.length_replicate, Nat.mod_eq_of_lt hlt]
    exact ⟨(fun h => by cases h), fun h => by omega⟩
  · cases hb
  · exact (Nat.mod_eq_of_lt hlt).symm
  · exact (lapCycle_first hlt).symm
  · exact Nat.le_of_eq List.length_replicate.symm
  · exact (payload_noOps i).symm
  · rw [htake]
    exact (payload_noOps i).symm

theorem Ghost.build {caller : Nat} {command : Command} (h : Ghost r s w n)
    (hs : step r s (.build caller command) = some s') : Ghost r s' w n := by
  rw [step, Option.some.injEq] at hs
  subst hs
  refine ⟨h.ring, h.index, h.laps, h.cycle, h.linking, fun k b hb => ?_, h.consumer, h.passed, h.sent,
    h.seen, h.lag, h.valid⟩
  by_cases hk : k = caller
  · simp only [if_pos hk, List.mem_append, List.mem_singleton] at hb
    rcases hb with hold | rfl
    · exact h.built k b hold
    · refine ⟨command.create_isLink _, ?_⟩
      rw [command.create_getCycle, h.cycle, h.laps]
      rfl
  · simp only [if_neg hk] at hb
    exact h.built k b hb

theorem Ghost.send {caller : Nat} (h : Ghost r s w n) (hg : InLap r s (.send caller))
    (hs : step r s (.send caller) = some s') : ∃ w', Ghost r s' w' n := by
  have hpos := r.pos
  have hcap := r.capacity_ge
  have hbound := Nat.mod_lt w.length hpos
  obtain ⟨hlap, hroom⟩ := hg
  rw [step] at hs
  split at hs
  · rename_i b rest hlinking hb
    rw [Option.some.injEq] at hs
    subst hs
    have hmem : b ∈ s.built caller := hb ▸ List.mem_cons_self
    obtain ⟨hlink, hcycle⟩ := h.built caller b hmem
    have hplace : w.length % r.capacity ≠ r.capacity - 1 := by
      intro he
      rw [h.linking.mpr he] at hlinking
      cases hlinking
    -- built in this lap, so stamped with its cycle
    have hstamp : b.trb.getCycle = lapCycle r.capacity w.length := by
      rw [hcycle, hlap b (by rw [hb]; rfl), h.laps]
      rfl
    refine ⟨w ++ [b.trb], ?_, ?_, ?_, ?_, ?_, fun k b' hb' => ?_, h.consumer, ?_, ?_, ?_, ?_, ?_⟩
    · rw [h.index]
      exact h.ring.push hstamp (fun he => absurd he hplace) (fun _ => hlink)
    · rw [List.length_append, List.length_singleton, next_slot hpos, if_neg (by omega), h.index]
    · rw [List.length_append, List.length_singleton, next_lap hpos, if_neg (by omega), h.laps]
    · rw [List.length_append, List.length_singleton, next_cycle hpos, if_neg (by omega), h.cycle]
    · rw [List.length_append, List.length_singleton, next_slot hpos, if_neg (by omega), ← h.index,
        decide_eq_true_iff]
      have := h.index
      constructor
      · intro hge
        omega
      · intro he
        omega
    · by_cases hk : k = caller
      · simp only [if_pos hk] at hb'
        exact h.built caller b' (hb ▸ List.mem_cons_of_mem _ hb')
      · simp only [if_neg hk] at hb'
        exact h.built k b' hb'
    · rw [List.length_append]
      exact Nat.le_trans h.passed (Nat.le_add_right _ _)
    · rw [payload_concat, hlink, if_neg (by decide), h.sent]
    · rw [List.take_append_of_le_length h.passed]
      exact h.seen
    · rw [List.length_append, List.length_singleton]
      exact hroom
    · rw [h.valid, hstamp, h.cycle, beq_self_eq_true]
      rfl
  · cases hs

theorem Ghost.link (h : Ghost r s w n) (hs : step r s .link = some s') : ∃ w', Ghost r s' w' n := by
  have hpos := r.pos
  have hcap := r.capacity_ge
  rw [step] at hs
  split at hs
  · rename_i hlinking
    have hplace := h.linking.mp hlinking
    rw [Option.some.injEq] at hs
    subst hs
    refine ⟨w ++ [LinkTRB.create s.commandCycle r.base], ?_, ?_, ?_, ?_, ?_, h.built, h.consumer, ?_, ?_, ?_,
      h.lag, h.valid⟩
    · rw [h.index]
      exact h.ring.push ((link_getCycle _ _).trans h.cycle) (fun _ => by rw [h.cycle])
        (fun hne => absurd hplace hne)
    · rw [List.length_append, List.length_singleton, next_slot hpos, if_pos (by omega)]
    · rw [List.length_append, List.length_singleton, next_lap hpos, if_pos (by omega), h.laps]
    · rw [List.length_append, List.length_singleton, next_cycle hpos, if_pos (by omega), h.cycle]
    · rw [List.length_append, List.length_singleton, next_slot hpos, if_pos (by omega)]
      exact ⟨(fun hf => by cases hf), fun he => by omega⟩
    · rw [List.length_append]
      exact Nat.le_trans h.passed (Nat.le_add_right _ _)
    · rw [payload_concat, if_pos (link_isLink _ _), h.sent]
    · rw [List.take_append_of_le_length h.passed]
      exact h.seen
  · cases hs

theorem Ghost.consume (h : Ghost r s w n) :
    (n = w.length ∧ step r s .consume = some s) ∨
      ∃ s₁, step r s .consume = some s₁ ∧ s₁.sent = s.sent ∧ n < w.length ∧ Ghost r s₁ w (n + 1) := by
  have hlag := h.lag
  rw [h.sent, h.seen] at hlag
  rcases consume_cases h.ring h.consumer h.passed hlag with ⟨he, hnone⟩ | ⟨trb, c', hlt, hrun, hat, htake⟩
  · left
    refine ⟨he, ?_⟩
    rw [step, hnone]
  · right
    refine ⟨{ s with consumer := c', seen := s.seen ++ trb.toList }, ?_, rfl, hlt, h.ring, h.index, h.laps,
      h.cycle, h.linking, h.built, hat, hlt, h.sent, ?_, ?_, h.valid⟩
    · rw [step, hrun]
    · rw [htake, ← h.seen]
    · rw [List.length_append]
      exact Nat.le_trans h.lag (by omega)

theorem inv_step (a : Act) (h : Inv r s) (hg : InLap r s a) (hs : step r s a = some s') : Inv r s' := by
  obtain ⟨w, n, hghost⟩ := h
  cases a with
  | build caller command => exact ⟨w, n, hghost.build hs⟩
  | send caller =>
    obtain ⟨w', h'⟩ := hghost.send hg hs
    exact ⟨w', n, h'⟩
  | link =>
    obtain ⟨w', h'⟩ := hghost.link hs
    exact ⟨w', n, h'⟩
  | consume =>
    rcases hghost.consume with ⟨-, hidle⟩ | ⟨s₁, hrun, -, -, h₁⟩
    · rw [hidle, Option.some.injEq] at hs
      subst hs
      exact ⟨w, n, hghost⟩
    · rw [hrun, Option.some.injEq] at hs
      subst hs
      exact ⟨w, n + 1, h₁⟩

/-- The controller alone sees everything that was sent. -/
theorem Ghost.drain (h : Ghost r s w n) :
    ∃ s', Machine.run (step r) s (List.replicate (w.length - n) .consume) = some s' ∧ s'.seen = s.sent := by
  obtain ⟨s', hrun, hg, hsame⟩ := Machine.run_drain (P := (Ghost r · w)) (f := State.sent)
    (fun _ _ => Ghost.consume) (w.length - n) s n h (Nat.add_sub_cancel' h.passed)
  refine ⟨s', hrun, ?_⟩
  rw [hg.seen, List.take_length, ← hg.sent, hsame]

theorem valid_of_inv (h : Inv r s) : Valid r s := by
  obtain ⟨w, n, hg⟩ := h
  refine ⟨hg.valid, ?_, w.length - n, ?_⟩
  · rw [hg.seen, hg.sent]
    exact (List.take_prefix n w).filter _
  · exact hg.drain

end

/-- From every starting index, in every run in which each command is sent in the lap it was
built in and the controller stays less than a lap behind: every command carries the ring's
cycle when it is written, and the controller sees the commands once and in order. -/
theorem commandRing_valid (r : RingMemory) (i : Nat) (hi : i < r.capacity - 1) (acts : List Act)
    (h : Machine.AllSteps (step r) (InLap r) (start i) acts) :
    Machine.AllStates (step r) (Valid r) (start i) acts :=
  Machine.AllStates.mono (fun _ => valid_of_inv) acts (start i)
    (Machine.allStates_of_allSteps (fun _ a _ hi hg hs => inv_step a hi hg hs) acts (start i)
      (inv_start r i hi) h)

/-- A page of TRBs.
mirrors kernel/src/devices/USB/xHCI/Controller.cpp:334-366 -/
def pageRing : RingMemory := ⟨0x10000#64, 256, page_capacity, by decide⟩

theorem commandRing_valid_enableSlot :
    Machine.AllSteps (step pageRing) (InLap pageRing) (start 0) [.build 0 (.enableSlot 0#8), .send 0, .consume] ∧
      Machine.AllStates (step pageRing) (Valid pageRing) (start 0)
        [.build 0 (.enableSlot 0#8), .send 0, .consume] :=
  ⟨by decide, commandRing_valid pageRing 0 (by decide) _ (by decide)⟩

/-- `AddressDevice` with one slot left in the lap: the Link TRB is written behind its first
command, and the second one has the cycle of the lap that is over. -/
theorem addressDevice_stale : ¬ Machine.AllStates (step pageRing) (Valid pageRing) (start 254)
    ((addressDevice 0 1#8 0x20000#64).take 3 ++ .link :: (addressDevice 0 1#8 0x20000#64).drop 3) := by
  intro h
  have hrun : (Machine.run (step pageRing) (start 254)
      ((addressDevice 0 1#8 0x20000#64).take 3 ++ .link :: (addressDevice 0 1#8 0x20000#64).drop 3)).map
        (·.valid) = some false := by decide
  obtain ⟨s, hs, hvalid⟩ := Option.map_eq_some_iff.mp hrun
  have hgood := Machine.AllStates.of_run _ _ s h hs
  rw [hgood.stamped] at hvalid
  cases hvalid

end BadLands.Usb.CommandRing
