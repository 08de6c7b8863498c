import BadLands.Ext.HashMapIterator
import Mathlib.Data.BitVec
import Mathlib.Data.List.Pairwise

/-!
# Routing of interrupts through the I/O APICs

An I/O APIC has two registers in memory: `IOREGSEL` selects one of its registers, `IOWIN` is that
register. Entry `i` of its redirection table is the pair of registers `0x10 + 2 * i` and the next one.
`MaskIRQ`, `UnmaskIRQ` and `SetupIRQ` go through all the I/O APICs of the hash map and act on the pin that
serves the global interrupt (`route`).

A turn of the loop touches the I/O APIC of the turn only (`route_other`), so what is left of a device
after the loop is what its own turn made of it (`routeAll_own`). `irq_touches_one_pin`: of all the
registers of all the devices, only those of the entry that serves the interrupt change.
-/
namespace BadLands.Interrupts.IoApic

open BadLands.Ext

/-! ## One device -/

/-- `IOREGSEL`, and the registers behind `IOWIN`.
mirrors kernel/src/interrupts/APIC.cpp:147-157 -/
structure Device where
  ioregsel : Nat
  registers : Nat → BitVec 32

def ioApicVer : Nat := 1

def ioRedTbl : Nat := 0x10

def rteMask : BitVec 32 := 0x10000#32

def Device.select (d : Device) (register : Nat) : Device := { d with ioregsel := register }

def Device.iowin (d : Device) : BitVec 32 := d.registers d.ioregsel

def Device.setIowin (d : Device) (v : BitVec 32) : Device :=
  { d with registers := fun r => if r = d.ioregsel then v else d.registers r }

/-- mirrors kernel/src/interrupts/APIC.cpp:267-270 -/
def Device.getRedirectionsCount (d : Device) : Nat × Device :=
  let d := d.select ioApicVer
  (((d.iowin >>> 16) &&& 0xFF#32).toNat + 1, d)

/-- mirrors kernel/src/interrupts/APIC.cpp:277-290 -/
def Device.getRedirectionEntry (d : Device) (index : Nat) : BitVec 64 × Device :=
  let (count, d) := d.getRedirectionsCount
  if index ≥ count then (0#64, d)
  else
    let d := d.select (ioRedTbl + index * 2)
    let entry := d.iowin.setWidth 64
    let d := d.select (ioRedTbl + index * 2 + 1)
    (entry ||| (d.iowin.setWidth 64 <<< 32), d)

/-- mirrors kernel/src/interrupts/APIC.cpp:292-299 -/
def Device.setRedirectionEntry (d : Device) (index : Nat) (value : BitVec 64) : Device :=
  let (count, d) := d.getRedirectionsCount
  if index < count then
    let d := (d.select (ioRedTbl + index * 2)).setIowin (value.setWidth 32)
    (d.select (ioRedTbl + index * 2 + 1)).setIowin ((value >>> 32).setWidth 32)
  else d

/-- mirrors kernel/src/interrupts/APIC.cpp:301-306 -/
def Device.maskRedirectionEntry (d : Device) (index : Nat) : Device :=
  let (count, d) := d.getRedirectionsCount
  if index < count then
    let d := d.select (ioRedTbl + index * 2)
    d.setIowin (d.iowin ||| rteMask)
  else d

/-- mirrors kernel/src/interrupts/APIC.cpp:308-313 -/
def Device.unmaskRedirectionEntry (d : Device) (index : Nat) : Device :=
  let (count, d) := d.getRedirectionsCount
  if index < count then
    let d := d.select (ioRedTbl + index * 2)
    d.setIowin (d.iowin &&& ~~~rteMask)
  else d

/-! ## Descriptors -/

inductive DeliveryMode where
  | fixed | lowestPriority | smi | nmi | init | extInit
  deriving DecidableEq, Repr

inductive DestinationMode where
  | physical | logical
  deriving DecidableEq, Repr

inductive Polarity where
  | activeHigh | activeLow | reserved
  deriving DecidableEq, Repr

inductive Trigger where
  | edge | level | reserved
  deriving DecidableEq, Repr

/-- mirrors kernel/include/interrupts/APIC.hpp:46-54 -/
structure IRQDescriptor where
  interruptVector : BitVec 8
  delivery : DeliveryMode
  destinationMode : DestinationMode
  polarity : Polarity
  trigger : Trigger
  masked : Bool
  destination : BitVec 8
  deriving DecidableEq, Repr

/-- The descriptor is changed too.
mirrors kernel/src/interrupts/APIC.cpp:159-188 -/
def convertDeliveryMode (d : IRQDescriptor) : BitVec 64 × IRQDescriptor :=
  match d.delivery with
  | .fixed => (0x000#64, d)
  | .lowestPriority => (0x100#64, d)
  | .smi => (0x200#64, { d with interruptVector := 0#8, trigger := .edge })
  | .nmi => (0x400#64, { d with trigger := .edge })
  | .init => (0x500#64, { d with trigger := .edge })
  | .extInit => (0x700#64, { d with trigger := .edge })

/-- mirrors kernel/src/interrupts/APIC.cpp:190-202 -/
def convertDestinationMode : DestinationMode → BitVec 64
  | .physical => 0x000#64
  | .logical => 0x800#64

/-- mirrors kernel/src/interrupts/APIC.cpp:204-218 -/
def convertPolarity (d : Device) (polarity : Polarity) (index : Nat) : BitVec 64 × Device :=
  match polarity with
  | .activeHigh => (0x0000#64, d)
  | .activeLow => (0x2000#64, d)
  | .reserved =>
    let (entry, d) := d.getRedirectionEntry index
    (entry &&& 0x2000#64, d)

/-- mirrors kernel/src/interrupts/APIC.cpp:220-234 -/
def convertTrigger (d : Device) (trigger : Trigger) (index : Nat) : BitVec 64 × Device :=
  match trigger with
  | .edge => (0x0000#64, d)
  | .level => (0x8000#64, d)
  | .reserved =>
    let (entry, d) := d.getRedirectionEntry index
    (entry &&& 0x8000#64, d)

/-- mirrors kernel/src/interrupts/APIC.cpp:236-249 -/
def convertDestination (destination : BitVec 8) (mode : DestinationMode) : BitVec 64 :=
  let masked : BitVec 8 := match mode with
    | .physical => destination &&& 0x0F#8
    | .logical => destination
  masked.setWidth 64 <<< 56

/-- mirrors kernel/src/interrupts/APIC.cpp:315-329 -/
def Device.setupRedirectionEntry (d : Device) (index : Nat) (descriptor : IRQDescriptor) : Device :=
  let (count, d) := d.getRedirectionsCount
  if index < count then
    let (delivery, descriptor) := convertDeliveryMode descriptor
    let (polarity, d) := convertPolarity d descriptor.polarity index
    let (trigger, d) := convertTrigger d descriptor.trigger index
    d.setRedirectionEntry index (delivery ||| descriptor.interruptVector.setWidth 64 |||
      convertDestinationMode descriptor.destinationMode ||| polarity ||| trigger |||
      (if descriptor.masked then rteMask.setWidth 64 else 0#64) |||
      convertDestination descriptor.destination descriptor.destinationMode)
  else d

/-! ## All the devices -/

/-- mirrors kernel/src/interrupts/APIC.cpp:344-349 -/
structure IOAPIC where
  virtualAddress : Nat
  physicalAddress : BitVec 32
  id : BitVec 32
  globalSystemInterruptBase : BitVec 32
  deriving DecidableEq, Repr

/-- The memory of the devices, by address. -/
abbrev Devices := Nat → Device

def Devices.set (devs : Devices) (address : Nat) (d : Device) : Devices := fun a => if a = address then d else devs a

inductive OverridePolarity where
  | conform | high | reserved | low
  deriving DecidableEq, Repr

inductive OverrideTrigger where
  | conform | edge | reserved | level
  deriving DecidableEq, Repr

/-- mirrors kernel/src/interrupts/APIC.cpp:351-369 -/
structure IntOverride where
  polarity : OverridePolarity
  trigger : OverrideTrigger
  globalSystemInterrupt : BitVec 32
  deriving DecidableEq, Repr

/-- The overridden interrupt.
mirrors kernel/src/interrupts/APIC.cpp:700-702 -/
def globalInterrupt (overrides : Nat → IntOverride) (irq : BitVec 32) : BitVec 32 :=
  if irq.toNat < 0x100 then (overrides irq.toNat).globalSystemInterrupt else irq

/-- One turn of the loops, with what is done to the pin.
mirrors kernel/src/interrupts/APIC.cpp:704-713 -/
def route (operate : Device → Nat → Device) (irq : BitVec 32) (devs : Devices) (ioapic : IOAPIC) : Devices :=
  let base := ioapic.globalSystemInterruptBase
  let (rteCount, d) := (devs ioapic.virtualAddress).getRedirectionsCount
  let devs := devs.set ioapic.virtualAddress d
  if base ≤ irq ∧ irq < base + BitVec.ofNat 32 rteCount then
    devs.set ioapic.virtualAddress (operate d ((irq - base).toNat % 2 ^ 8))
  else devs

section
variable (sh : Shape) (ioapics : BasicHashMap (BitVec 32) IOAPIC)

/-- `for (auto* ioapic : IOAPICs)`: where the iterator comes to. -/
def visited : List IOAPIC :=
  match walk sh ioapics (ioapics.elementsCount + 1) (ioapics.start sh) with
  | none => []
  | some locations => locations.filterMap fun l => l.bind ioapics.value?

/-- mirrors kernel/src/interrupts/APIC.cpp:699-714 -/
def maskIRQ (overrides : Nat → IntOverride) (devs : Devices) (irq : BitVec 32) : Devices :=
  (visited sh ioapics).foldl (route Device.maskRedirectionEntry (globalInterrupt overrides irq)) devs

/-- mirrors kernel/src/interrupts/APIC.cpp:716-731 -/
def unmaskIRQ (overrides : Nat → IntOverride) (devs : Devices) (irq : BitVec 32) : Devices :=
  (visited sh ioapics).foldl (route Device.unmaskRedirectionEntry (globalInterrupt overrides irq)) devs

/-- mirrors kernel/src/interrupts/APIC.cpp:733-765 -/
def overridden (overrides : Nat → IntOverride) (irq : BitVec 32) (descriptor : IRQDescriptor) : IRQDescriptor :=
  if irq.toNat < 0x100 then
    { descriptor with
      polarity := match (overrides irq.toNat).polarity with
        | .conform => descriptor.polarity
        | .high => .activeHigh
        | .low => .activeLow
        | .reserved => .reserved
      trigger := match (overrides irq.toNat).trigger with
        | .conform => descriptor.trigger
        | .edge => .edge
        | .level => .level
        | .reserved => .reserved }
  else descriptor

/-- mirrors kernel/src/interrupts/APIC.cpp:733-778 -/
def setupIRQ (overrides : Nat → IntOverride) (devs : Devices) (irq : BitVec 32) (descriptor : IRQDescriptor) : Devices :=
  (visited sh ioapics).foldl (route (fun d pin => d.setupRedirectionEntry pin (overridden overrides irq descriptor))
    (globalInterrupt overrides irq)) devs

end

/-! ## What a pin is -/

def Device.count (d : Device) : Nat := d.getRedirectionsCount.1

/-- Entry `pin` of the redirection table. -/
def Device.entry (d : Device) (pin : Nat) : BitVec 64 :=
  (d.registers (ioRedTbl + pin * 2)).setWidth 64 ||| ((d.registers (ioRedTbl + pin * 2 + 1)).setWidth 64 <<< 32)

/-- What `SetupIRQ` makes of an entry. -/
def redirection (descriptor : IRQDescriptor) (old : BitVec 64) : BitVec 64 :=
  let (delivery, descriptor) := convertDeliveryMode descriptor
  let polarity := match descriptor.polarity with
    | .activeHigh => 0x0000#64
    | .activeLow => 0x2000#64
    | .reserved => old &&& 0x2000#64
  let trigger := match descriptor.trigger with
    | .edge => 0x0000#64
    | .level => 0x8000#64
    | .reserved => old &&& 0x8000#64
  delivery ||| descriptor.interruptVector.setWidth 64 ||| convertDestinationMode descriptor.destinationMode |||
    polarity ||| trigger ||| (if descriptor.masked then rteMask.setWidth 64 else 0#64) |||
    convertDestination descriptor.destination descriptor.destinationMode

def Serves (devs : Devices) (irq : BitVec 32) (a : IOAPIC) (pin : Nat) : Prop :=
  a.globalSystemInterruptBase.toNat + pin = irq.toNat ∧ pin < (devs a.virtualAddress).count

/-- The I/O APICs are different devices with disjoint ranges of interrupts, and `base + count` does not wrap. -/
structure WellFormed (devs : Devices) (ioapics : List IOAPIC) : Prop where
  below : ∀ a ∈ ioapics, a.globalSystemInterruptBase.toNat + (devs a.virtualAddress).count < 2 ^ 32
  apart : ioapics.Pairwise fun a b => a.virtualAddress ≠ b.virtualAddress ∧
    (a.globalSystemInterruptBase.toNat + (devs a.virtualAddress).count ≤ b.globalSystemInterruptBase.toNat ∨
      b.globalSystemInterruptBase.toNat + (devs b.virtualAddress).count ≤ a.globalSystemInterruptBase.toNat)

/-- At most one entry serves the interrupt; it is changed, and no other register of any device. -/
structure OnlyPin (devs : Devices) (ioapics : List IOAPIC) (irq : BitVec 32) (change : BitVec 64 → BitVec 64)
    (devs' : Devices) : Prop where
  unique : ∀ a ∈ ioapics, ∀ b ∈ ioapics, ∀ pin pin', Serves devs irq a pin → Serves devs irq b pin' → a = b ∧ pin = pin'
  served : ∀ a ∈ ioapics, ∀ pin, Serves devs irq a pin →
    (devs' a.virtualAddress).entry pin = change ((devs a.virtualAddress).entry pin)
  rest : ∀ address r, (∀ a ∈ ioapics, a.virtualAddress = address → ∀ pin, Serves devs irq a pin →
      r ≠ ioRedTbl + pin * 2 ∧ r ≠ ioRedTbl + pin * 2 + 1) →
    (devs' address).registers r = (devs address).registers r

/-! ## One entry -/

section
variable {d : Device} {pin : Nat}

theorem getRedirectionsCount_registers (d : Device) : d.getRedirectionsCount.2.registers = d.registers := rfl

theorem count_congr {d d' : Device} (h : d.registers = d'.registers) : d.count = d'.count := by
  unfold Device.count Device.getRedirectionsCount Device.iowin Device.select
  rw [h]

theorem count_le (d : Device) : d.count ≤ 256 := by
  have hle : ((d.registers ioApicVer >>> 16) &&& 0xFF#32).toNat ≤ 255 := by
    rw [BitVec.toNat_and]
    exact Nat.and_le_right
  exact Nat.succ_le_succ hle

/-- What an operation does to the entry of a pin, and to no other register. -/
structure Rewrites (operate : Device → Nat → Device) (change : BitVec 64 → BitVec 64) : Prop where
  entry_eq : ∀ d pin, pin < d.count → (operate d pin).entry pin = change (d.entry pin)
  others : ∀ d pin, pin < d.count → ∀ r, r ≠ ioRedTbl + pin * 2 → r ≠ ioRedTbl + pin * 2 + 1 →
    (operate d pin).registers r = d.registers r

/-- A register that is read through the window and written back. -/
theorem rewrite_registers (d : Device) (register : Nat) (change : BitVec 32 → BitVec 32) (r : Nat) :
    ((d.select register).setIowin (change (d.select register).iowin)).registers r =
      if r = register then change (d.registers r) else d.registers r := by
  unfold Device.setIowin Device.iowin Device.select
  by_cases hr : r = register
  · rw [hr]
  · dsimp only
    rw [if_neg hr, if_neg hr]

theorem mask_registers (hpin : pin < d.count) (r : Nat) : (d.maskRedirectionEntry pin).registers r =
    if r = ioRedTbl + pin * 2 then d.registers r ||| rteMask else d.registers r := by
  unfold Device.maskRedirectionEntry
  dsimp only
  rw [if_pos (show pin < d.getRedirectionsCount.1 from hpin)]
  exact rewrite_registers _ (ioRedTbl + pin * 2) (· ||| rteMask) r

theorem unmask_registers (hpin : pin < d.count) (r : Nat) : (d.unmaskRedirectionEntry pin).registers r =
    if r = ioRedTbl + pin * 2 then d.registers r &&& ~~~rteMask else d.registers r := by
  unfold Device.unmaskRedirectionEntry
  dsimp only
  rw [if_pos (show pin < d.getRedirectionsCount.1 from hpin)]
  exact rewrite_registers _ (ioRedTbl + pin * 2) (· &&& ~~~rteMask) r

theorem set_registers (hpin : pin < d.count) (value : BitVec 64) (r : Nat) : (d.setRedirectionEntry pin value).registers r =
    if r = ioRedTbl + pin * 2 + 1 then (value >>> 32).setWidth 32
    else if r = ioRedTbl + pin * 2 then value.setWidth 32 else d.registers r := by
  unfold Device.setRedirectionEntry
  dsimp only
  rw [if_pos (show pin < d.getRedirectionsCount.1 from hpin)]
  rfl

theorem getRedirectionEntry_eq (hpin : pin < d.count) : (d.getRedirectionEntry pin).1 = d.entry pin ∧
    (d.getRedirectionEntry pin).2.registers = d.registers := by
  unfold Device.getRedirectionEntry
  dsimp only
  rw [if_neg (show ¬ pin ≥ d.getRedirectionsCount.1 from Nat.not_le.mpr hpin)]
  exact ⟨rfl, rfl⟩

theorem entry_halves (value : BitVec 64) :
    (value.setWidth 32).setWidth 64 ||| (((value >>> 32).setWidth 32).setWidth 64 <<< 32) = value := by
  apply BitVec.eq_of_getLsbD_eq
  intro i hi
  by_cases hlow : i < 32
  · simp [hlow, hi]
  · have hwidth : i - 32 < 32 := by omega
    simp [hlow, hwidth, hi, Nat.add_sub_cancel' (show 32 ≤ i by omega)]

theorem mask_entry (low high : BitVec 32) : (low ||| rteMask).setWidth 64 ||| (high.setWidth 64 <<< 32) =
    (low.setWidth 64 ||| (high.setWidth 64 <<< 32)) ||| 0x10000#64 := by
  have hmask : rteMask.setWidth 64 = 0x10000#64 := rfl
  rw [BitVec.setWidth_or, hmask, BitVec.or_assoc, BitVec.or_assoc, BitVec.or_comm 0x10000#64]

theorem unmask_entry (low high : BitVec 32) : (low &&& ~~~rteMask).setWidth 64 ||| (high.setWidth 64 <<< 32) =
    (low.setWidth 64 ||| (high.setWidth 64 <<< 32)) &&& ~~~0x10000#64 := by
  have hmask : ∀ i, i < 64 → (0x10000#64).getLsbD i = decide (i = 16) := by decide
  have hmask' : ∀ i, i < 32 → rteMask.getLsbD i = decide (i = 16) := by decide
  apply BitVec.eq_of_getLsbD_eq
  intro i hi
  by_cases hlow : i < 32
  · simp only [BitVec.getLsbD_or, BitVec.getLsbD_and, BitVec.getLsbD_setWidth, BitVec.getLsbD_not,
      BitVec.getLsbD_shiftLeft, hmask i hi, hmask' i hlow]
    simp [hlow, hi]
  · have hne : i ≠ 16 := by omega
    have hzero : low.getLsbD i = false := BitVec.getLsbD_of_ge _ _ (by omega)
    simp only [BitVec.getLsbD_or, BitVec.getLsbD_and, BitVec.getLsbD_setWidth, BitVec.getLsbD_not,
      BitVec.getLsbD_shiftLeft, hmask i hi]
    simp [hlow, hi, hne, hzero]

theorem mask_rewrites : Rewrites Device.maskRedirectionEntry (· ||| 0x10000#64) where
  entry_eq d pin hpin := by
    unfold Device.entry
    rw [mask_registers hpin, mask_registers hpin, if_pos rfl, if_neg (by omega)]
    exact mask_entry _ _
  others d pin hpin r hlow _ := by rw [mask_registers hpin, if_neg hlow]

theorem unmask_rewrites : Rewrites Device.unmaskRedirectionEntry (· &&& ~~~0x10000#64) where
  entry_eq d pin hpin := by
    unfold Device.entry
    rw [unmask_registers hpin, unmask_registers hpin, if_pos rfl, if_neg (by omega)]
    exact unmask_entry _ _
  others d pin hpin r hlow _ := by rw [unmask_registers hpin, if_neg hlow]

theorem convertPolarity_eq (hpin : pin < d.count) (polarity : Polarity) :
    (convertPolarity d polarity pin).1 = (match polarity with
      | .activeHigh => 0x0000#64
      | .activeLow => 0x2000#64
      | .reserved => d.entry pin &&& 0x2000#64) ∧
    (convertPolarity d polarity pin).2.registers = d.registers := by
  obtain ⟨hentry, hregisters⟩ := getRedirectionEntry_eq hpin
  cases polarity with
  | activeHigh => exact ⟨rfl, rfl⟩
  | activeLow => exact ⟨rfl, rfl⟩
  | reserved => exact ⟨congrArg (· &&& 0x2000#64) hentry, hregisters⟩

theorem convertTrigger_eq (hpin : pin < d.count) (trigger : Trigger) :
    (convertTrigger d trigger pin).1 = (match trigger with
      | .edge => 0x0000#64
      | .level => 0x8000#64
      | .reserved => d.entry pin &&& 0x8000#64) ∧
    (convertTrigger d trigger pin).2.registers = d.registers := by
  obtain ⟨hentry, hregisters⟩ := getRedirectionEntry_eq hpin
  cases trigger with
  | edge => exact ⟨rfl, rfl⟩
  | level => exact ⟨rfl, rfl⟩
  | reserved => exact ⟨congrArg (· &&& 0x8000#64) hentry, hregisters⟩

theorem setup_rewrites (descriptor : IRQDescriptor) :
    Rewrites (fun d pin => d.setupRedirectionEntry pin descriptor) (redirection descriptor) := by
  have hsetup : ∀ (d : Device) (pin : Nat), pin < d.count → ∃ d' : Device, d'.registers = d.registers ∧
      d.setupRedirectionEntry pin descriptor = d'.setRedirectionEntry pin (redirection descriptor (d.entry pin)) := by
    intro d pin hpin
    obtain ⟨hpolarity, hpolarity'⟩ := convertPolarity_eq (d := d.getRedirectionsCount.2) hpin
      (convertDeliveryMode descriptor).2.polarity
    have hpin' : pin < (convertPolarity d.getRedirectionsCount.2 (convertDeliveryMode descriptor).2.polarity pin).2.count := by
      rw [count_congr hpolarity']
      exact hpin
    obtain ⟨htrigger, htrigger'⟩ := convertTrigger_eq hpin' (convertDeliveryMode descriptor).2.trigger
    refine ⟨_, htrigger'.trans hpolarity', ?_⟩
    have hentry : (convertPolarity d.getRedirectionsCount.2 (convertDeliveryMode descriptor).2.polarity pin).2.entry pin =
        d.entry pin := by
      unfold Device.entry
      rw [hpolarity']
      rfl
    unfold Device.setupRedirectionEntry
    dsimp only
    rw [if_pos (show pin < d.getRedirectionsCount.1 from hpin), hpolarity, htrigger, hentry]
    rfl
  refine ⟨fun d pin hpin => ?_, fun d pin hpin r hlow hhigh => ?_⟩
  · obtain ⟨d', hregisters, hset⟩ := hsetup d pin hpin
    have hpin' : pin < d'.count := by
      rw [count_congr hregisters]
      exact hpin
    rw [hset]
    unfold Device.entry
    rw [set_registers hpin', set_registers hpin', if_neg (by omega), if_pos rfl, if_pos rfl]
    exact entry_halves _
  · obtain ⟨d', hregisters, hset⟩ := hsetup d pin hpin
    have hpin' : pin < d'.count := by
      rw [count_congr hregisters]
      exact hpin
    rw [hset, set_registers hpin', if_neg hhigh, if_neg hlow, hregisters]

/-- Only the reserved bits are taken from the old entry. -/
theorem redirection_congr (descriptor : IRQDescriptor) {old old' : BitVec 64}
    (hpolarity : descriptor.polarity = .reserved → old &&& 0x2000#64 = old' &&& 0x2000#64)
    (htrigger : descriptor.trigger = .reserved → old &&& 0x8000#64 = old' &&& 0x8000#64) :
    redirection descriptor old = redirection descriptor old' := by
  obtain ⟨vector, delivery, mode, polarity, trigger, masked, destination⟩ := descriptor
  unfold redirection
  cases delivery <;> cases polarity <;> cases trigger <;> simp_all [convertDeliveryMode]

end

/-! ## The loop -/

section
variable {operate : Device → Nat → Device} {change : BitVec 64 → BitVec 64} {irq : BitVec 32} {devs : Devices} {a : IOAPIC}
  {l : List IOAPIC}

theorem route_other {address : Nat} (h : address ≠ a.virtualAddress) : route operate irq devs a address = devs address := by
  unfold route
  dsimp only
  split
  · simp [Devices.set, h]
  · simp [Devices.set, h]

/-- The turn of a device depends on that device only. -/
theorem route_congr {devs' : Devices} (h : devs a.virtualAddress = devs' a.virtualAddress) :
    route operate irq devs a a.virtualAddress = route operate irq devs' a a.virtualAddress := by
  unfold route
  dsimp only
  rw [h]
  split
  · simp [Devices.set]
  · simp [Devices.set]

theorem routeAll_other {address : Nat} : ∀ (l : List IOAPIC) (devs : Devices), (∀ a ∈ l, address ≠ a.virtualAddress) →
    l.foldl (route operate irq) devs address = devs address
  | [], _, _ => rfl
  | b :: l, devs, h => by
    rw [List.foldl_cons, routeAll_other l _ fun a ha => h a (List.mem_cons_of_mem _ ha)]
    exact route_other (h b List.mem_cons_self)

/-- What is left of a device after the loop is what its own turn made of it. -/
theorem routeAll_own : ∀ (l : List IOAPIC) (devs : Devices), l.Pairwise (fun a b => a.virtualAddress ≠ b.virtualAddress) →
    a ∈ l → l.foldl (route operate irq) devs a.virtualAddress = route operate irq devs a a.virtualAddress
  | [], _, _, h => by cases h
  | b :: l, devs, hl, h => by
    obtain ⟨hb, hl⟩ := List.pairwise_cons.mp hl
    rw [List.foldl_cons]
    cases List.mem_cons.mp h with
    | inl h =>
      subst h
      exact routeAll_other l _ hb
    | inr h =>
      rw [routeAll_own l _ hl h]
      exact route_congr (route_other (hb a h).symm)

/-- The test of the loop. -/
theorem serves_iff (hbelow : a.globalSystemInterruptBase.toNat + (devs a.virtualAddress).count < 2 ^ 32) :
    (a.globalSystemInterruptBase ≤ irq ∧
      irq < a.globalSystemInterruptBase + BitVec.ofNat 32 (devs a.virtualAddress).count) ↔
        Serves devs irq a (irq.toNat - a.globalSystemInterruptBase.toNat) := by
  unfold Serves
  rw [BitVec.le_def, BitVec.lt_def, BitVec.toNat_add, BitVec.toNat_ofNat,
    Nat.mod_eq_of_lt (show (devs a.virtualAddress).count < 2 ^ 32 by omega), Nat.mod_eq_of_lt hbelow]
  omega

theorem route_registers (hbelow : a.globalSystemInterruptBase.toNat + (devs a.virtualAddress).count < 2 ^ 32) :
    (∀ pin, Serves devs irq a pin → route operate irq devs a a.virtualAddress =
      operate (devs a.virtualAddress).getRedirectionsCount.2 pin) ∧
    ((∀ pin, ¬ Serves devs irq a pin) → (route operate irq devs a a.virtualAddress).registers =
      (devs a.virtualAddress).registers) := by
  have hcount := count_le (devs a.virtualAddress)
  unfold route
  dsimp only
  refine ⟨fun pin hpin => ?_, fun hnone => ?_⟩
  · have hpin' : pin = irq.toNat - a.globalSystemInterruptBase.toNat := by
      unfold Serves at hpin
      omega
    have hserves := (serves_iff hbelow).mpr (hpin' ▸ hpin)
    have hnarrow : (irq - a.globalSystemInterruptBase).toNat % 2 ^ 8 = pin := by
      unfold Serves at hpin
      rw [BitVec.toNat_sub]
      omega
    rw [if_pos (show _ ∧ irq < _ + BitVec.ofNat 32 (devs a.virtualAddress).getRedirectionsCount.1 from hserves), hnarrow]
    simp [Devices.set]
  · rw [if_neg (show ¬ (_ ∧ irq < _ + BitVec.ofNat 32 (devs a.virtualAddress).getRedirectionsCount.1) from
      fun hserves => hnone _ ((serves_iff hbelow).mp hserves))]
    simp [Devices.set, getRedirectionsCount_registers]

theorem WellFormed.unique (h : WellFormed devs l) {b : IOAPIC} (ha : a ∈ l) (hb : b ∈ l) {pin pin' : Nat}
    (hpin : Serves devs irq a pin) (hpin' : Serves devs irq b pin') : a = b ∧ pin = pin' := by
  have hab : a = b := by
    apply Classical.byContradiction
    intro hne
    have : Std.Symm fun a b : IOAPIC => a.virtualAddress ≠ b.virtualAddress ∧
        (a.globalSystemInterruptBase.toNat + (devs a.virtualAddress).count ≤ b.globalSystemInterruptBase.toNat ∨
          b.globalSystemInterruptBase.toNat + (devs b.virtualAddress).count ≤ a.globalSystemInterruptBase.toNat) :=
      ⟨fun a b hab => ⟨hab.1.symm, hab.2.symm⟩⟩
    have hapart := (h.apart.forall ha hb hne).2
    unfold Serves at hpin hpin'
    omega
  subst hab
  unfold Serves at hpin hpin'
  exact ⟨rfl, by omega⟩

/-- For any operation on a pin, the loop is that operation on the pin that serves the interrupt. -/
theorem routeAll_onlyPin (h : WellFormed devs l) (hop : Rewrites operate change) :
    OnlyPin devs l irq change (l.foldl (route operate irq) devs) := by
  have haddress : l.Pairwise fun a b => a.virtualAddress ≠ b.virtualAddress := h.apart.imp fun hab => hab.1
  refine ⟨fun a ha b hb pin pin' hpin hpin' => h.unique ha hb hpin hpin', fun a ha pin hpin => ?_, fun address r hr => ?_⟩
  · rw [routeAll_own l devs haddress ha, (route_registers (h.below a ha)).1 pin hpin]
    exact hop.entry_eq _ pin hpin.2
  · by_cases hmem : ∃ a ∈ l, a.virtualAddress = address
    · obtain ⟨a, ha, rfl⟩ := hmem
      rw [routeAll_own l devs haddress ha]
      by_cases hserved : ∃ pin, Serves devs irq a pin
      · obtain ⟨pin, hpin⟩ := hserved
        obtain ⟨hlow, hhigh⟩ := hr a ha rfl pin hpin
        rw [(route_registers (h.below a ha)).1 pin hpin]
        exact hop.others (devs a.virtualAddress).getRedirectionsCount.2 pin hpin.2 r hlow hhigh
      · rw [(route_registers (h.below a ha)).2 fun pin hpin => hserved ⟨pin, hpin⟩]
    · rw [routeAll_other l devs fun a ha he => hmem ⟨a, ha, he.symm⟩]

end

/-! ## The I/O APICs of the hash map -/

/-- The loop comes to every value of the map. -/
theorem visited_eq {sh : Shape} {hash : BitVec 32 → Nat} {m : BasicHashMap (BitVec 32) IOAPIC} (h : m.Inv sh hash) :
    visited sh m = (m.contents sh).map Prod.snd := by
  have hpairs := BasicHashMap.locations_pairs sh m
  have hcount : m.elementsCount = (m.locations sh).length := by
    have hlength := congrArg List.length hpairs
    rw [List.length_map, List.length_map] at hlength
    rw [h.count, hlength]
  have hvalue : ∀ l, m.value? l = (m.pair? l).map Prod.snd := fun l => by
    unfold BasicHashMap.value? BasicHashMap.pair?
    rw [Option.map_map]
    rfl
  unfold visited
  rw [BasicHashMap.walk_locations hcount]
  dsimp only
  rw [List.filterMap_map]
  have hfilter : (m.locations sh).filterMap ((fun l => l.bind m.value?) ∘ some) =
      ((m.locations sh).map m.pair?).filterMap fun x => x.map Prod.snd := by
    rw [List.filterMap_map]
    exact List.filterMap_congr fun l _ => hvalue l
  rw [hfilter, hpairs, List.filterMap_map]
  simp [List.filterMap_eq_map']

/-- mirrors kernel/src/interrupts/APIC.cpp:380 -/
def ioapicsShape : Shape := ⟨16, 1, by decide, Nat.one_pos⟩

/-- The I/O APICs that the insertions of `calls` have left in the map. -/
def ioapicsAfter (hash : BitVec 32 → Nat) (calls : List (Insertion (BitVec 32) IOAPIC)) : List IOAPIC :=
  ((after ioapicsShape hash calls).1.contents ioapicsShape).map Prod.snd

/-- For any I/O APICs with disjoint ranges, any overrides and any interrupt: masking and unmasking change bit
16 of the entry that serves the overridden interrupt, setting up rewrites that entry, from the descriptor,
the override and the reserved bits of the old entry; no other register of any I/O APIC changes. -/
theorem irq_touches_one_pin (hash : BitVec 32 → Nat) (calls : List (Insertion (BitVec 32) IOAPIC)) (devs : Devices)
    (overrides : Nat → IntOverride) (irq : BitVec 32) (descriptor : IRQDescriptor)
    (h : WellFormed devs (ioapicsAfter hash calls)) :
    let ioapics := (after ioapicsShape hash calls).1
    let gsi := globalInterrupt overrides irq
    let set := overridden overrides irq descriptor
    OnlyPin devs (ioapicsAfter hash calls) gsi (· ||| 0x10000#64) (maskIRQ ioapicsShape ioapics overrides devs irq) ∧
      OnlyPin devs (ioapicsAfter hash calls) gsi (· &&& ~~~0x10000#64) (unmaskIRQ ioapicsShape ioapics overrides devs irq) ∧
      OnlyPin devs (ioapicsAfter hash calls) gsi (redirection set)
        (setupIRQ ioapicsShape ioapics overrides devs irq descriptor) ∧
      ∀ old old' : BitVec 64, (set.polarity = .reserved → old &&& 0x2000#64 = old' &&& 0x2000#64) →
        (set.trigger = .reserved → old &&& 0x8000#64 = old' &&& 0x8000#64) →
        redirection set old = redirection set old' := by
  have hvisited := visited_eq (represents_after ioapicsShape hash calls).inv
  intro ioapics gsi set
  unfold maskIRQ unmaskIRQ setupIRQ
  rw [hvisited]
  exact ⟨routeAll_onlyPin h mask_rewrites, routeAll_onlyPin h unmask_rewrites, routeAll_onlyPin h (setup_rewrites set),
    fun old old' hpolarity htrigger => redirection_congr set hpolarity htrigger⟩

/-- Two I/O APICs with 24 pins each. -/
def twoIoapics : List (Insertion (BitVec 32) IOAPIC) :=
  [⟨9, ⟨0x2000, 0xFEC01000#32, 9, 24⟩, some fun _ => ⟨0, 0, 0, 0⟩⟩, ⟨8, ⟨0x1000, 0xFEC00000#32, 8, 0⟩, some fun _ => ⟨0, 0, 0, 0⟩⟩]

theorem two_touch_one_pin : OnlyPin (fun _ => ⟨0, fun _ => 0x170020#32⟩)
    (ioapicsAfter (fun k => k.toNat % 16) twoIoapics) 2#32 (· ||| 0x10000#64)
    (maskIRQ ioapicsShape (after ioapicsShape (fun k => k.toNat % 16) twoIoapics).1
      (fun i => ⟨.conform, .conform, if i = 0 then 2#32 else BitVec.ofNat 32 i⟩) (fun _ => ⟨0, fun _ => 0x170020#32⟩) 0#32) := by
  have hl : ioapicsAfter (fun k => k.toNat % 16) twoIoapics =
      [⟨0x1000, 0xFEC00000#32, 8, 0⟩, ⟨0x2000, 0xFEC01000#32, 9, 24⟩] := by
    rfl
  refine (irq_touches_one_pin (fun k => k.toNat % 16) twoIoapics (fun _ => ⟨0, fun _ => 0x170020#32⟩)
    (fun i => ⟨.conform, .conform, if i = 0 then 2#32 else BitVec.ofNat 32 i⟩) 0#32
    ⟨0x20#8, .fixed, .physical, .activeHigh, .edge, true, 0#8⟩ ?_).1
  rw [hl]
  constructor
  · decide
  · decide

end BadLands.Interrupts.IoApic
