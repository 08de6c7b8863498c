import BadLands.Core.Machine
import BadLands.Usb.Trb

/-!
# The event ring

The controller writes events into a ring of one segment; `Controller::HandleIRQ` dispatches
them while the cycle bit of the current slot is its own and then writes the address of that
slot to `ERDP`. `step` interleaves the controller with the handler between any two of these
reads and writes.

`eventRing_consumed`: along every run, over any number of laps, the dispatched events are the
first ones produced, in order, and `ERDP` names the first slot that was not dispatched.
-/
namespace BadLands.Usb.EventRing

open BadLands.Core BadLands.Core.CycleRing

/-- The segment `ConfigureEventRing` sets up: `base` is a page address.
mirrors kernel/src/devices/USB/xHCI/Controller.cpp:406-436 -/
structure EventMemory where
  base : BitVec 64
  capacity : Nat
  capacity_pos : 0 < capacity
  aligned : base.toNat % 16 = 0

/-- Where `HandleIRQ` stands: outside, before the `while` condition, in its body, and behind
the loop. -/
inductive Phase where
  | idle
  | checking
  | dispatching
  | finishing
  deriving DecidableEq, Repr

/-- `producerIndex`, `producerCycle`: the controller's own pointer. `acked`: how many events were
dispatched when `ERDP` was last written. -/
structure State where
  slots : Nat → TRB
  eventIndex : Nat
  eventCycle : Bool
  phase : Phase
  erdp : BitVec 64
  producerIndex : Nat
  producerCycle : Bool
  acked : Nat
  produced : List TRB
  dispatched : List TRB

/-- mirrors kernel/src/devices/USB/xHCI/Controller.cpp:452-454 -/
def getCurrentEvent (m : EventMemory) (eventIndex : Nat) : BitVec 64 :=
  m.base + BitVec.ofNat 64 (trbSize * eventIndex)

/-- `ERDP_EHB_FLAG`. -/
def ehbFlag : BitVec 64 := 0x0000000000000008#64

/-- mirrors kernel/src/devices/USB/xHCI/Controller.cpp:255-262,406-436 -/
def configure (m : EventMemory) : State where
  slots := fun _ => .zero
  eventIndex := 0
  eventCycle := true
  phase := .idle
  erdp := m.base ||| ehbFlag
  producerIndex := 0
  producerCycle := true
  acked := 0
  produced := []
  dispatched := []

inductive Act where
  | produce (event : TRB)
  | irq
  | check
  | dispatch
  | finish
  deriving DecidableEq, Repr

/-- Advancing a slot and a cycle, as the controller and `UpdateEventPointer` do.
mirrors kernel/src/devices/USB/xHCI/Controller.cpp:445-450 -/
def advance (capacity index : Nat) (cycle : Bool) : Nat × Bool :=
  if index + 1 ≥ capacity then (0, !cycle) else (index + 1, cycle)

/-- `none`: the step cannot be made there. The controller stamps an event with its cycle and
does not overtake the last `ERDP` written.
mirrors kernel/src/devices/USB/xHCI/Controller.cpp:142-191 -/
def step (m : EventMemory) (s : State) : Act → Option State
  | .produce event =>
    if s.acked + m.capacity ≤ s.produced.length then none
    else
      let trb := event.setCycle s.producerCycle
      let p := advance m.capacity s.producerIndex s.producerCycle
      some { s with
        slots := write s.slots s.producerIndex trb
        producerIndex := p.1
        producerCycle := p.2
        produced := s.produced ++ [trb] }
  | .irq => if s.phase = .idle then some { s with phase := .checking } else none
  | .check =>
    if s.phase = .checking then
      if (s.slots s.eventIndex).getCycle = s.eventCycle then some { s with phase := .dispatching }
      else some { s with phase := .finishing }
    else none
  | .dispatch =>
    if s.phase = .dispatching then
      let p := advance m.capacity s.eventIndex s.eventCycle
      some { s with
        eventIndex := p.1
        eventCycle := p.2
        phase := .checking
        dispatched := s.dispatched ++ [s.slots s.eventIndex] }
    else none
  | .finish =>
    if s.phase = .finishing then
      some { s with phase := .idle, erdp := getCurrentEvent m s.eventIndex ||| ehbFlag,
                    acked := s.dispatched.length }
    else none

/-! ## The invariant -/

structure Inv (m : EventMemory) (s : State) : Prop where
  ring : Holds m.capacity TRB.getCycle s.slots s.produced
  producerIndex : s.producerIndex = s.produced.length % m.capacity
  producerCycle : s.producerCycle = lapCycle m.capacity s.produced.length
  eventIndex : s.eventIndex = s.dispatched.length % m.capacity
  eventCycle : s.eventCycle = lapCycle m.capacity s.dispatched.length
  dispatched : s.dispatched = s.produced.take s.dispatched.length
  behind : s.dispatched.length ≤ s.produced.length
  acked : s.acked ≤ s.dispatched.length
  room : s.produced.length ≤ s.acked + m.capacity
  waiting : s.phase = .dispatching → s.dispatched.length < s.produced.length
  idle : s.phase = .idle → s.acked = s.dispatched.length
  erdp : s.erdp = getCurrentEvent m (s.acked % m.capacity) ||| ehbFlag

section
variable {m : EventMemory} {s s' : State}

theorem advance_eq {cap n index : Nat} {cycle : Bool} (hcap : 0 < cap) (hi : index = n % cap)
    (hc : cycle = lapCycle cap n) : advance cap index cycle = ((n + 1) % cap, lapCycle cap (n + 1)) := by
  rw [next_slot hcap, next_cycle hcap, ← hi, ← hc]
  unfold advance
  split
  · rfl
  · rfl

theorem inv_configure (m : EventMemory) : Inv m (configure m) where
  ring := holds_nil fun _ => zero_getCycle
  producerIndex := (Nat.zero_mod _).symm
  producerCycle := (lapCycle_first m.capacity_pos).symm
  eventIndex := (Nat.zero_mod _).symm
  eventCycle := (lapCycle_first m.capacity_pos).symm
  dispatched := rfl
  behind := Nat.le_refl _
  acked := Nat.le_refl _
  room := Nat.zero_le _
  waiting h := by cases h
  idle _ := rfl
  erdp := by
    have hzero : getCurrentEvent m (0 % m.capacity) = m.base := by
      rw [Nat.zero_mod]
      exact BitVec.add_zero _
    exact congrArg (· ||| ehbFlag) hzero.symm

/-- There is an event exactly when the bit says so. -/
theorem Inv.ready (h : Inv m s) :
    (s.slots s.eventIndex).getCycle = s.eventCycle ↔ s.dispatched.length < s.produced.length := by
  have hroom := h.room
  have hacked := h.acked
  rw [h.eventIndex, h.eventCycle]
  exact h.ring.ready m.capacity_pos h.behind (by omega)

theorem Inv.produce {event : TRB} (h : Inv m s) (hs : step m s (.produce event) = some s') : Inv m s' := by
  rw [step] at hs
  split at hs
  · cases hs
  · rename_i hroom
    rw [Option.some.injEq] at hs
    subst hs
    have hadv := advance_eq m.capacity_pos h.producerIndex h.producerCycle
    have hcycle : (event.setCycle s.producerCycle).getCycle = lapCycle m.capacity s.produced.length :=
      setCycle_getCycle.trans h.producerCycle
    have hlen : (s.produced ++ [event.setCycle s.producerCycle]).length = s.produced.length + 1 := by
      rw [List.length_append, List.length_singleton]
    have hbehind := h.behind
    refine ⟨?_, ?_, ?_, h.eventIndex, h.eventCycle, ?_, ?_, h.acked, ?_, fun hp => ?_, h.idle, h.erdp⟩
    · rw [h.producerIndex]
      exact h.ring.push hcycle
    · rw [hlen]
      exact congrArg Prod.fst hadv
    · rw [hlen]
      exact congrArg Prod.snd hadv
    · rw [List.take_append_of_le_length hbehind]
      exact h.dispatched
    · rw [hlen]
      exact Nat.le_succ_of_le hbehind
    · rw [hlen]
      change s.produced.length + 1 ≤ s.acked + m.capacity
      omega
    · rw [hlen]
      exact Nat.lt_succ_of_lt (h.waiting hp)

theorem Inv.dispatch (h : Inv m s) (hs : step m s .dispatch = some s') : Inv m s' := by
  rw [step] at hs
  split at hs
  · rename_i hphase
    rw [Option.some.injEq] at hs
    subst hs
    have hwait := h.waiting hphase
    have hroom := h.room
    have hacked := h.acked
    have hadv := advance_eq m.capacity_pos h.eventIndex h.eventCycle
    have hevent : s.slots s.eventIndex = s.produced[s.dispatched.length] := by
      rw [h.eventIndex]
      exact h.ring.entry (by omega) hwait
    have hlen : (s.dispatched ++ [s.slots s.eventIndex]).length = s.dispatched.length + 1 := by
      rw [List.length_append, List.length_singleton]
    refine ⟨h.ring, h.producerIndex, h.producerCycle, ?_, ?_, ?_, ?_, ?_, h.room, (fun hp => by cases hp),
      (fun hp => by cases hp), h.erdp⟩
    · rw [hlen]
      exact congrArg Prod.fst hadv
    · rw [hlen]
      exact congrArg Prod.snd hadv
    · change s.dispatched ++ [s.slots s.eventIndex] =
        s.produced.take (s.dispatched ++ [s.slots s.eventIndex]).length
      rw [hlen, List.take_succ_eq_append_getElem hwait, ← h.dispatched, hevent]
    · rw [hlen]
      exact hwait
    · rw [hlen]
      exact Nat.le_succ_of_le hacked
  · cases hs

theorem inv_step (a : Act) (h : Inv m s) (hs : step m s a = some s') : Inv m s' := by
  cases a with
  | produce event => exact h.produce hs
  | dispatch => exact h.dispatch hs
  | irq =>
    rw [step] at hs
    split at hs
    · rw [Option.some.injEq] at hs
      subst hs
      exact ⟨h.ring, h.producerIndex, h.producerCycle, h.eventIndex, h.eventCycle, h.dispatched, h.behind,
        h.acked, h.room, (fun hp => by cases hp), (fun hp => by cases hp), h.erdp⟩
    · cases hs
  | check =>
    rw [step] at hs
    split at hs
    · split at hs
      · rename_i hready
        rw [Option.some.injEq] at hs
        subst hs
        exact ⟨h.ring, h.producerIndex, h.producerCycle, h.eventIndex, h.eventCycle, h.dispatched, h.behind,
          h.acked, h.room, fun _ => h.ready.mp hready, (fun hp => by cases hp), h.erdp⟩
      · rw [Option.some.injEq] at hs
        subst hs
        exact ⟨h.ring, h.producerIndex, h.producerCycle, h.eventIndex, h.eventCycle, h.dispatched, h.behind,
          h.acked, h.room, (fun hp => by cases hp), (fun hp => by cases hp), h.erdp⟩
    · cases hs
  | finish =>
    rw [step] at hs
    split at hs
    · rw [Option.some.injEq] at hs
      subst hs
      have hroom := h.room
      have hacked := h.acked
      refine ⟨h.ring, h.producerIndex, h.producerCycle, h.eventIndex, h.eventCycle, h.dispatched, h.behind,
        Nat.le_refl _, ?_, (fun hp => by cases hp), fun _ => rfl, ?_⟩
      · exact Nat.le_trans hroom (Nat.add_le_add_right hacked _)
      · exact congrArg (fun i => getCurrentEvent m i ||| ehbFlag) h.eventIndex
    · cases hs

/-- A multiple of 16 has no bits below the address bits. -/
theorem address_bits {x : BitVec 64} (h : x.toNat % 16 = 0) :
    (x ||| ehbFlag) &&& 0xFFFFFFFFFFFFFFF0#64 = x := by
  have hflag : ehbFlag &&& 0xFFFFFFFFFFFFFFF0#64 = 0#64 := by decide
  have hlow : x &&& 0xF#64 = 0#64 := by
    apply BitVec.eq_of_toNat_eq
    rw [BitVec.toNat_and, show (0xF#64).toNat = 2 ^ 4 - 1 by decide, Nat.and_two_pow_sub_one_eq_mod]
    exact h
  have hsplit : (0xFFFFFFFFFFFFFFF0#64 ||| 0xF#64) = BitVec.allOnes 64 := by decide
  calc (x ||| ehbFlag) &&& 0xFFFFFFFFFFFFFFF0#64
      = x &&& 0xFFFFFFFFFFFFFFF0#64 := by
        rw [BitVec.and_or_distrib_right, hflag, BitVec.or_zero]
    _ = (x &&& 0xFFFFFFFFFFFFFFF0#64) ||| (x &&& 0xF#64) := by rw [hlow, BitVec.or_zero]
    _ = x := by rw [← BitVec.and_or_distrib_left, hsplit, BitVec.and_allOnes]

theorem getCurrentEvent_aligned (m : EventMemory) (i : Nat) : (getCurrentEvent m i).toNat % 16 = 0 := by
  have h := m.aligned
  unfold getCurrentEvent trbSize
  rw [BitVec.toNat_add, BitVec.toNat_ofNat]
  omega

end

/-- The events dispatched are the first ones produced; a handler that finds none has dispatched
all; outside the handler `ERDP` is the address of the first slot that was not dispatched. -/
structure Consumed (m : EventMemory) (s : State) : Prop where
  inOrder : s.dispatched <+: s.produced
  allDone : s.phase = .checking → (s.slots s.eventIndex).getCycle ≠ s.eventCycle → s.dispatched = s.produced
  erdp : s.phase = .idle →
    s.erdp &&& 0xFFFFFFFFFFFFFFF0#64 = getCurrentEvent m (s.dispatched.length % m.capacity)

theorem consumed_of_inv {m : EventMemory} {s : State} (h : Inv m s) : Consumed m s := by
  refine ⟨?_, fun _ hnone => ?_, fun hidle => ?_⟩
  · rw [h.dispatched]
    exact List.take_prefix _ _
  · have hlen : s.dispatched.length = s.produced.length := by
      have hle := h.behind
      have hnot : ¬ s.dispatched.length < s.produced.length := fun hlt => hnone (h.ready.mpr hlt)
      omega
    rw [h.dispatched, hlen, List.take_length]
  · rw [h.erdp, h.idle hidle]
    exact address_bits (getCurrentEvent_aligned m _)

/-- Along every interleaving of the controller's writes with activations of `HandleIRQ`. -/
theorem eventRing_consumed (m : EventMemory) (acts : List Act) :
    Machine.AllStates (step m) (Consumed m) (configure m) acts :=
  Machine.AllStates.mono (fun _ => consumed_of_inv) acts (configure m)
    (Machine.allStates_of_inv (fun _ a _ h hs => inv_step a h hs) acts (configure m) (inv_configure m))

end BadLands.Usb.EventRing
