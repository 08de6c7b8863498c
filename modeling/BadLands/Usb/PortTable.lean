import Mathlib.Data.BitVec
import Mathlib.Data.List.Nodup

/-!
# Ports, slots and devices of the xHCI controller

The port updater goes through the ports whose status has changed
(`kernel/src/devices/USB/xHCI/Controller.cpp:620-774`). A device that comes gets a slot of the
controller and an object in `devices`, a device that goes gives its slot back (`process`). The
register, the controller's answers and the outcome of the device's own initialization are inputs
(`Outcome`). A slot that is enabled was not enabled before. Whether `Disable Slot` was carried out is
not looked at, and a command may be carried out after the driver has stopped waiting: `leaked` are
the slots that are enabled by such failures and for no port.

`Consistent` ties the slots the ports hold to the slots enabled and to the table of devices.
`process_consistent`: processing a port keeps it, unless a port that still holds a slot is
enumerated again (`Renews`), which the code does not check; then the old device stays in the table
and no port holds it (`process_orphan`).

`Device::Destroy` does not free the object: the objects of devices that went are never freed
(`Consistent.objects`).
-/
namespace BadLands.Usb.PortTable

/-- mirrors kernel/include/devices/USB/xHCI/Controller.hpp:127-132 -/
structure Port where
  major : BitVec 8
  slot : BitVec 8
  slot_type : BitVec 8
  dirty : Bool
  deriving DecidableEq, Repr

/-- The object and what it is constructed with.
mirrors kernel/src/devices/USB/xHCI/Controller.cpp:735-742 -/
structure Device where
  object : Nat
  root_hub_port : Nat
  slot_id : BitVec 8
  port_speed : BitVec 8
  deriving DecidableEq, Repr

/-- `enabled` are the slots of the controller, `leaked` those that it enabled or left enabled after a
command had failed, `objects` the `Device` objects on the heap, `destroyed` those of them that
`Destroy` was called on, `written` the writes of `PORTSC`. -/
structure Table where
  ports : Nat → Port
  devices : Nat → Option Device
  enabled : List (BitVec 8)
  leaked : List (BitVec 8)
  objects : List Nat
  destroyed : List Nat
  written : List (Nat × BitVec 32)

def portscCCS : BitVec 32 := 0x00000001#32

def portscPED : BitVec 32 := 0x00000002#32

def portscPR : BitVec 32 := 0x00000010#32

def portscPP : BitVec 32 := 0x00000200#32

def portscCSC : BitVec 32 := 0x00020000#32

def portscPRC : BitVec 32 := 0x00200000#32

def has (portsc flag : BitVec 32) : Bool := decide (portsc &&& flag ≠ 0#32)

/-- What the hardware and the callees do while a port is processed: the successive reads of
`PORTSC`, the slot in the completion of `Enable Slot` if there is one in time, the block that
`Heap::Allocate` returns, the outcomes of `Initialize` and `PostInitialization`, and whether
`Disable Slot` is carried out. -/
structure Outcome where
  portsc : Nat → BitVec 32
  slot : Option (BitVec 8)
  object : Option Nat
  initialized : Bool
  postInitialized : Bool
  disabled : Bool

section
variable (t : Table)

def Table.write (i : Nat) (v : BitVec 32) : Table := { t with written := (i, v) :: t.written }

def Table.setSlot (i : Nat) (a : BitVec 8) : Table :=
  { t with ports := fun j => if j = i then { t.ports j with slot := a } else t.ports j }

/-- `devices[slot - 1]` -/
def devIndex (a : BitVec 8) : Nat := a.toNat - 1

def Table.setDevice (a : BitVec 8) (d : Option Device) : Table :=
  { t with devices := fun k => if k = devIndex a then d else t.devices k }

/-- mirrors kernel/src/devices/USB/xHCI/Controller.cpp:790-806 -/
def enableSlot (completion : Option (BitVec 8)) : Option (BitVec 8) :=
  completion.bind fun slot_id => if slot_id = 0#8 then none else some slot_id

/-- The result of the command is dropped.
mirrors kernel/src/devices/USB/xHCI/Controller.cpp:808-811 -/
def Table.disableSlot (a : BitVec 8) (disabled : Bool) : Table :=
  { t with
    enabled := if disabled then t.enabled.erase a else t.enabled
    leaked := if disabled then t.leaked else a :: t.leaked }

/-- The controller carries out an `Enable Slot` that the driver has stopped waiting for. -/
def Table.enabledLate (a : BitVec 8) : Table := { t with enabled := a :: t.enabled, leaked := a :: t.leaked }

/-- The controller carries out a `Disable Slot` that the driver has stopped waiting for. -/
def Table.disabledLate (a : BitVec 8) : Table := { t with enabled := t.enabled.erase a, leaked := t.leaked.erase a }

/-- `Device::Destroy`; the object stays allocated.
mirrors kernel/src/devices/USB/xHCI/Device.cpp:1729-1732 -/
def Table.destroy (object : Nat) : Table := { t with destroyed := object :: t.destroyed }

/-- `Heap::Free` -/
def Table.free (object : Nat) : Table :=
  { t with objects := t.objects.erase object, destroyed := t.destroyed.erase object }

/-- mirrors kernel/src/devices/USB/xHCI/Controller.cpp:643-664 -/
def Table.disconnect (i : Nat) (disabled : Bool) : Table :=
  let slot := (t.ports i).slot
  if slot ≠ 0#8 then
    let t := match t.devices (devIndex slot) with
      | some device => (t.setDevice slot none).destroy device.object
      | none => t
    (t.disableSlot slot disabled).setSlot i 0#8
  else t

/-- mirrors kernel/src/devices/USB/xHCI/Controller.cpp:698-770 -/
def Table.enumerate (i : Nat) (o : Outcome) : Table :=
  match enableSlot o.slot with
  | none => t
  | some slot =>
    let t := { t with enabled := slot :: t.enabled }
    let t := t.setSlot i slot
    match o.object with
    | none => (t.disableSlot slot o.disabled).setSlot i 0#8
    | some object =>
      let device : Device := ⟨object, i + 1, slot, ((o.portsc 5 >>> 10) &&& 0xF#32).setWidth 8⟩
      let t := { t with objects := object :: t.objects }
      let t := t.setDevice slot (some device)
      if !o.initialized then (((t.free object).setDevice slot none).disableSlot slot o.disabled).setSlot i 0#8
      else if !o.postInitialized then
        ((((t.destroy object).free object).setDevice slot none).disableSlot slot o.disabled).setSlot i 0#8
      else t

inductive Decision where
  | ignore
  | reset
  | enumerate
  deriving DecidableEq, Repr

/-- What is done with a connected port.
mirrors kernel/src/devices/USB/xHCI/Controller.cpp:666-696 -/
def decision (major : BitVec 8) (finished_reset conn_changed port_enabled : Bool) : Decision :=
  if major = 2#8 then
    if !(port_enabled && finished_reset) then if conn_changed then .reset else .ignore
    else .enumerate
  else if major = 3#8 then if !conn_changed || !port_enabled then .ignore else .enumerate
  else .ignore

/-- A dirty port, from the read of its status on.
mirrors kernel/src/devices/USB/xHCI/Controller.cpp:622-771 -/
def Table.process (i : Nat) (o : Outcome) : Table :=
  if !has (o.portsc 0) portscPP then t
  else
    let finished_reset := has (o.portsc 1) portscPRC
    let conn_changed := has (o.portsc 2) portscCSC
    let port_enabled := has (o.portsc 3) portscPED
    let is_connected := has (o.portsc 4) portscCCS
    let t := t.write i (portscCSC ||| portscPRC ||| portscPP)
    if !is_connected then t.disconnect i o.disabled
    else
      match decision (t.ports i).major finished_reset conn_changed port_enabled with
      | .ignore => t
      | .reset => t.write i (portscPR ||| portscPP)
      | .enumerate => t.enumerate i o

end

/-! ## The property -/

/-- The slot is one that was not enabled, the block one that was not in use. -/
def Outcome.Admissible (o : Outcome) (t : Table) : Prop :=
  (∀ a, o.slot = some a → a ∉ t.enabled) ∧ ∀ b, o.object = some b → b ∉ t.objects

instance (o : Outcome) (t : Table) : Decidable (o.Admissible t) :=
  inferInstanceAs (Decidable (_ ∧ _))

/-- A port that still holds a slot gets a new one. -/
def Renews (t : Table) (i : Nat) (o : Outcome) : Prop :=
  has (o.portsc 0) portscPP = true ∧ has (o.portsc 4) portscCCS = true ∧
    decision (t.ports i).major (has (o.portsc 1) portscPRC) (has (o.portsc 2) portscCSC)
      (has (o.portsc 3) portscPED) = .enumerate ∧
    (enableSlot o.slot).isSome = true ∧ (t.ports i).slot ≠ 0#8

instance (t : Table) (i : Nat) (o : Outcome) : Decidable (Renews t i o) := inferInstanceAs (Decidable (_ ∧ _))

/-- Every device of the table belongs to a port. -/
def Tabled (t : Table) : Prop :=
  ∀ k d, t.devices k = some d → ∃ i, (t.ports i).slot ≠ 0#8 ∧ devIndex (t.ports i).slot = k

structure Consistent (t : Table) : Prop where
  unique : ∀ i j, (t.ports i).slot = (t.ports j).slot → (t.ports i).slot ≠ 0#8 → i = j
  held : ∀ i, (t.ports i).slot ≠ 0#8 → ∃ d, t.devices (devIndex (t.ports i).slot) = some d ∧
    d.slot_id = (t.ports i).slot ∧ d.root_hub_port = i + 1
  tabled : Tabled t
  enabled : ∀ a, a ∈ t.enabled ↔ a ∈ t.leaked ∨ a ≠ 0#8 ∧ ∃ i, (t.ports i).slot = a
  leaked : ∀ i, (t.ports i).slot ≠ 0#8 → (t.ports i).slot ∉ t.leaked
  nodup : t.enabled.Nodup ∧ t.leaked.Nodup
  alive : ∀ k d, t.devices k = some d → d.object ∈ t.objects ∧ d.object ∉ t.destroyed
  apart : ∀ k k' d d', t.devices k = some d → t.devices k' = some d' → d.object = d'.object → k = k'
  objects : ∀ b, b ∈ t.objects → b ∈ t.destroyed ∨ ∃ k d, t.devices k = some d ∧ d.object = b
  once : t.objects.Nodup ∧ t.destroyed.Nodup ∧ ∀ b ∈ t.destroyed, b ∈ t.objects

section
variable {t t' : Table} {i j : Nat} {a b : BitVec 8} {o : Outcome}

theorem devIndex_inj (ha : a ≠ 0#8) (hb : b ≠ 0#8) (h : devIndex a = devIndex b) : a = b := by
  have ha' : a.toNat ≠ 0 := fun h => ha (BitVec.eq_of_toNat_eq h)
  have hb' : b.toNat ≠ 0 := fun h => hb (BitVec.eq_of_toNat_eq h)
  unfold devIndex at h
  exact BitVec.eq_of_toNat_eq (by omega)

theorem slot_setSlot (t : Table) (i : Nat) (a : BitVec 8) (j : Nat) :
    ((t.setSlot i a).ports j).slot = if j = i then a else (t.ports j).slot := by
  unfold Table.setSlot
  dsimp only
  split <;> rfl

@[simp] theorem dirty_setSlot (t : Table) (i : Nat) (a : BitVec 8) (j : Nat) :
    ((t.setSlot i a).ports j).dirty = (t.ports j).dirty := by
  unfold Table.setSlot
  dsimp only
  split <;> rfl

@[simp] theorem ports_write (t : Table) (i : Nat) (v : BitVec 32) : (t.write i v).ports = t.ports := rfl

@[simp] theorem ports_setDevice (t : Table) (a : BitVec 8) (d : Option Device) : (t.setDevice a d).ports = t.ports := rfl

@[simp] theorem ports_disableSlot (t : Table) (a : BitVec 8) (disabled : Bool) :
    (t.disableSlot a disabled).ports = t.ports := rfl

@[simp] theorem ports_destroy (t : Table) (b : Nat) : (t.destroy b).ports = t.ports := rfl

@[simp] theorem ports_free (t : Table) (b : Nat) : (t.free b).ports = t.ports := rfl

/-- A slot more is enabled for no port, when there is one. -/
theorem Consistent.grown (h : Consistent t) (hs : ∀ i, (t'.ports i).slot = (t.ports i).slot)
    (hd : ∀ k, t'.devices k = t.devices k) (late : Option (BitVec 8)) (hlate : ∀ a ∈ late, a ∉ t.enabled)
    (he : t'.enabled = late.toList ++ t.enabled) (hl : t'.leaked = late.toList ++ t.leaked)
    (ho : t'.objects = t.objects) (hx : t'.destroyed = t.destroyed) : Consistent t' := by
  constructor
  · simpa only [hs] using h.unique
  · simpa only [hs, hd] using h.held
  · have htabled := h.tabled
    unfold Tabled at htabled ⊢
    simpa only [hs, hd] using htabled
  · intro a
    simp only [he, hl, hs, List.mem_append, h.enabled a, or_assoc]
  · intro i hi hm
    rw [hs] at hi hm
    rw [hl, List.mem_append, Option.mem_toList] at hm
    exact hm.elim (fun hm => hlate _ hm ((h.enabled _).mpr (.inr ⟨hi, i, rfl⟩))) (h.leaked i hi)
  · rw [he, hl]
    cases late with
    | none => exact h.nodup
    | some a =>
      have hnot : a ∉ t.enabled := hlate a rfl
      exact ⟨List.nodup_cons.mpr ⟨hnot, h.nodup.1⟩,
        List.nodup_cons.mpr ⟨fun ha => hnot ((h.enabled a).mpr (.inl ha)), h.nodup.2⟩⟩
  · simpa only [hd, ho, hx] using h.alive
  · simpa only [hd] using h.apart
  · simpa only [hd, ho, hx] using h.objects
  · rw [ho, hx]
    exact h.once

theorem Consistent.congr (h : Consistent t) (hs : ∀ i, (t'.ports i).slot = (t.ports i).slot)
    (hd : ∀ k, t'.devices k = t.devices k) (he : t'.enabled = t.enabled) (hl : t'.leaked = t.leaked)
    (ho : t'.objects = t.objects) (hx : t'.destroyed = t.destroyed) : Consistent t' :=
  h.grown hs hd none (fun _ ha => by cases ha) he hl ho hx

/-- The place of a slot that is not enabled is empty. -/
theorem Consistent.vacant (h : Consistent t) (ha : a ≠ 0#8) (hnot : a ∉ t.enabled) : t.devices (devIndex a) = none := by
  cases hd : t.devices (devIndex a) with
  | none => rfl
  | some d =>
    obtain ⟨i, hi, hk⟩ := h.tabled _ d hd
    exact absurd ((h.enabled a).mpr (.inr ⟨ha, i, devIndex_inj hi ha hk⟩)) hnot

/-- A device that goes gives back its slot, unless that fails, and its place; its object stays on the heap. -/
theorem dropped_consistent (h : Consistent t) (hslot : (t.ports i).slot ≠ 0#8) {d : Device} (disabled : Bool)
    (hplace : t.devices (devIndex (t.ports i).slot) = some d)
    (hs : ∀ j, (t'.ports j).slot = if j = i then 0#8 else (t.ports j).slot)
    (hd : ∀ k, t'.devices k = if k = devIndex (t.ports i).slot then none else t.devices k)
    (he : t'.enabled = if disabled then t.enabled.erase (t.ports i).slot else t.enabled)
    (hl : t'.leaked = if disabled then t.leaked else (t.ports i).slot :: t.leaked) (ho : t'.objects = t.objects)
    (hx : t'.destroyed = d.object :: t.destroyed) : Consistent t' := by
  obtain ⟨hobj, hlive⟩ := h.alive _ d hplace
  -- what is left in the table belongs to another port
  have hdev : ∀ k x, t'.devices k = some x → k ≠ devIndex (t.ports i).slot ∧ t.devices k = some x := fun k x hk => by
    rw [hd] at hk
    split at hk
    · cases hk
    · next hne => exact ⟨hne, hk⟩
  have hother : ∀ j, (t'.ports j).slot ≠ 0#8 → j ≠ i ∧ (t'.ports j).slot = (t.ports j).slot := fun j hj => by
    rw [hs] at hj ⊢
    split at hj
    · exact absurd rfl hj
    · next hne => exact ⟨hne, if_neg hne⟩
  constructor
  · intro j k hjk hj
    obtain ⟨-, hjs⟩ := hother j hj
    obtain ⟨-, hks⟩ := hother k (hjk ▸ hj)
    rw [hjs, hks] at hjk
    rw [hjs] at hj
    exact h.unique j k hjk hj
  · intro j hj
    obtain ⟨hji, hjs⟩ := hother j hj
    rw [hjs] at hj ⊢
    obtain ⟨x, hk, hxs⟩ := h.held j hj
    refine ⟨x, ?_, hxs⟩
    rw [hd, if_neg fun he => hji (h.unique j i (devIndex_inj hj hslot he) hj), hk]
  · intro k x hk
    obtain ⟨hne, hk⟩ := hdev k x hk
    obtain ⟨j, hj, hjk⟩ := h.tabled k x hk
    refine ⟨j, ?_⟩
    rw [hs, if_neg fun he : j = i => hne (by rw [← hjk, he])]
    exact ⟨hj, hjk⟩
  · intro b
    -- the other ports keep their slots
    have hheld : b ≠ (t.ports i).slot ∧ (b ≠ 0#8 ∧ ∃ j, (t.ports j).slot = b) ↔ b ≠ 0#8 ∧ ∃ j, (t'.ports j).slot = b := by
      constructor
      · rintro ⟨hne, hb, j, hj⟩
        refine ⟨hb, j, ?_⟩
        rw [hs, if_neg fun he => hne (by rw [← hj, he]), hj]
      · rintro ⟨hb, j, hj⟩
        obtain ⟨hji, hjs⟩ := hother j (hj ▸ hb)
        rw [hjs] at hj
        exact ⟨fun he => hji (h.unique j i (hj.trans he) (hj ▸ hb)), hb, j, hj⟩
    have hold := h.enabled b
    rw [he, hl, ← hheld]
    cases disabled with
    | true =>
      rw [if_pos rfl, if_pos rfl, h.nodup.1.mem_erase_iff, hold]
      have hleaked : b ∈ t.leaked → b ≠ (t.ports i).slot := fun hb he => h.leaked i hslot (he ▸ hb)
      exact ⟨fun ⟨hne, hb⟩ => hb.imp_right fun hb => ⟨hne, hb⟩,
        fun hb => hb.elim (fun hb => ⟨hleaked hb, .inl hb⟩) fun hb => ⟨hb.1, .inr hb.2⟩⟩
    | false =>
      rw [if_neg Bool.false_ne_true, if_neg Bool.false_ne_true, List.mem_cons, hold]
      by_cases hb : b = (t.ports i).slot
      · exact ⟨fun _ => .inl (.inl hb), fun _ => .inr ⟨hb ▸ hslot, i, hb.symm⟩⟩
      · rw [or_iff_right hb, and_iff_right hb]
  · intro j hj hm
    obtain ⟨hji, hjs⟩ := hother j hj
    rw [hjs] at hj hm
    rw [hl] at hm
    split at hm
    · exact h.leaked j hj hm
    · exact (List.mem_cons.mp hm).elim (fun he => hji (h.unique j i he hj)) (h.leaked j hj)
  · rw [he, hl]
    cases disabled with
    | true => exact ⟨h.nodup.1.erase _, h.nodup.2⟩
    | false => exact ⟨h.nodup.1, List.nodup_cons.mpr ⟨h.leaked i hslot, h.nodup.2⟩⟩
  · intro k x hk
    obtain ⟨hne, hk⟩ := hdev k x hk
    obtain ⟨hxo, hxd⟩ := h.alive k x hk
    rw [ho, hx]
    refine ⟨hxo, fun hm => ?_⟩
    rcases List.mem_cons.mp hm with he | hm
    · exact hne (h.apart k _ x d hk hplace he)
    · exact hxd hm
  · intro k k' x x' hk hk'
    exact h.apart k k' x x' (hdev k x hk).2 (hdev k' x' hk').2
  · intro b hb
    rw [ho] at hb
    rw [hx]
    rcases h.objects b hb with hm | ⟨k, x, hk, hxb⟩
    · exact .inl (List.mem_cons_of_mem _ hm)
    · by_cases hki : k = devIndex (t.ports i).slot
      · rw [hki, hplace, Option.some.injEq] at hk
        rw [← hxb, ← hk]
        exact .inl List.mem_cons_self
      · refine .inr ⟨k, x, ?_, hxb⟩
        rw [hd, if_neg hki, hk]
  · rw [ho, hx]
    refine ⟨h.once.1, List.nodup_cons.mpr ⟨hlive, h.once.2.1⟩, fun b hb => ?_⟩
    rcases List.mem_cons.mp hb with he | hb
    · exact he ▸ hobj
    · exact h.once.2.2 b hb

/-- A device that stays has its slot and its place. -/
theorem attached_consistent (h : Consistent t) (hi : (t.ports i).slot = 0#8) (ha : a ≠ 0#8) (hnot : a ∉ t.enabled)
    {d : Device} (hfresh : d.object ∉ t.objects) (hslot : d.slot_id = a) (hport : d.root_hub_port = i + 1)
    (hs : ∀ j, (t'.ports j).slot = if j = i then a else (t.ports j).slot)
    (hd : ∀ k, t'.devices k = if k = devIndex a then some d else t.devices k) (he : t'.enabled = a :: t.enabled)
    (hl : t'.leaked = t.leaked) (ho : t'.objects = d.object :: t.objects) (hx : t'.destroyed = t.destroyed) : Consistent t' := by
  have hvacant := h.vacant ha hnot
  have hheld : ∀ j, (t.ports j).slot ≠ a := fun j hj => hnot ((h.enabled a).mpr (.inr ⟨ha, j, hj⟩))
  have hdead : d.object ∉ t.destroyed := fun hm => hfresh (h.once.2.2 _ hm)
  -- an entry of the table is the new one, or an old one with another object
  have hdev : ∀ k x, t'.devices k = some x → k = devIndex a ∧ x = d ∨
      k ≠ devIndex a ∧ t.devices k = some x ∧ x.object ≠ d.object := fun k x hx => by
    rw [hd] at hx
    split at hx
    · next hk => exact .inl ⟨hk, (Option.some.inj hx).symm⟩
    · next hk => exact .inr ⟨hk, hx, fun he => hfresh (he ▸ (h.alive k x hx).1)⟩
  constructor
  · intro j k hjk hj
    rw [hs, hs] at hjk
    rw [hs] at hj
    by_cases hji : j = i <;> by_cases hki : k = i
    · rw [hji, hki]
    · rw [if_pos hji, if_neg hki] at hjk
      exact absurd hjk.symm (hheld k)
    · rw [if_neg hji, if_pos hki] at hjk
      exact absurd hjk (hheld j)
    · rw [if_neg hji, if_neg hki] at hjk
      rw [if_neg hji] at hj
      exact h.unique j k hjk hj
  · intro j hj
    rw [hs] at hj ⊢
    by_cases hji : j = i
    · rw [if_pos hji, hji]
      exact ⟨d, (hd _).trans (if_pos rfl), hslot, hport⟩
    · rw [if_neg hji] at hj ⊢
      obtain ⟨x, hx, hxs⟩ := h.held j hj
      refine ⟨x, ?_, hxs⟩
      rw [hd, if_neg fun he => hheld j (devIndex_inj hj ha he), hx]
  · intro k x hx
    rcases hdev k x hx with ⟨hk, -⟩ | ⟨-, hx, -⟩
    · refine ⟨i, ?_⟩
      rw [hs, if_pos rfl]
      exact ⟨ha, hk.symm⟩
    · obtain ⟨j, hj, hjk⟩ := h.tabled k x hx
      refine ⟨j, ?_⟩
      rw [hs, if_neg fun he : j = i => hj (by rw [he, hi])]
      exact ⟨hj, hjk⟩
  · intro b
    rw [he, hl, List.mem_cons, h.enabled]
    constructor
    · rintro (rfl | hb | ⟨hb, j, hj⟩)
      · exact .inr ⟨ha, i, (hs i).trans (if_pos rfl)⟩
      · exact .inl hb
      · refine .inr ⟨hb, j, ?_⟩
        rw [hs, if_neg fun hji => hb (by rw [← hj, hji, hi]), hj]
    · rintro (hb | ⟨hb, j, hj⟩)
      · exact .inr (.inl hb)
      · rw [hs] at hj
        split at hj
        · exact .inl hj.symm
        · exact .inr (.inr ⟨hb, j, hj⟩)
  · intro j hj
    rw [hs] at hj ⊢
    rw [hl]
    split
    · exact fun hm => hnot ((h.enabled a).mpr (.inl hm))
    · next hji =>
      rw [if_neg hji] at hj
      exact h.leaked j hj
  · rw [he, hl]
    exact ⟨List.nodup_cons.mpr ⟨hnot, h.nodup.1⟩, h.nodup.2⟩
  · intro k x hk
    rw [ho, hx]
    rcases hdev k x hk with ⟨-, rfl⟩ | ⟨-, hk, -⟩
    · exact ⟨List.mem_cons_self, hdead⟩
    · exact ⟨List.mem_cons_of_mem _ (h.alive k x hk).1, (h.alive k x hk).2⟩
  · intro k k' x x' hx hx' hxx
    rcases hdev k x hx with ⟨hk, rfl⟩ | ⟨-, hx, hne⟩ <;> rcases hdev k' x' hx' with ⟨hk', rfl⟩ | ⟨-, hx', hne'⟩
    · rw [hk, hk']
    · exact absurd hxx.symm hne'
    · exact absurd hxx hne
    · exact h.apart k k' x x' hx hx' hxx
  · intro b hb
    rw [ho] at hb
    rw [hx]
    rcases List.mem_cons.mp hb with rfl | hb
    · exact .inr ⟨devIndex a, d, (hd _).trans (if_pos rfl), rfl⟩
    · rcases h.objects b hb with hm | ⟨k, x, hk, hxb⟩
      · exact .inl hm
      · refine .inr ⟨k, x, ?_, hxb⟩
        rw [hd, if_neg fun he => ?_, hk]
        rw [he, hvacant] at hk
        cases hk
  · rw [ho, hx]
    exact ⟨List.nodup_cons.mpr ⟨hfresh, h.once.1⟩, h.once.2.1, fun b hb => List.mem_cons_of_mem _ (h.once.2.2 b hb)⟩

/-! ## A port -/

theorem disconnect_consistent (h : Consistent t) (i : Nat) (disabled : Bool) : Consistent (t.disconnect i disabled) := by
  unfold Table.disconnect
  dsimp only
  split
  · next hslot =>
    obtain ⟨d, hd, -, -⟩ := h.held i hslot
    rw [hd]
    exact dropped_consistent h hslot disabled hd (fun j => slot_setSlot _ i _ j) (fun _ => rfl) rfl rfl rfl rfl
  · exact h

/-- A command that the driver no longer waits for. -/
theorem enabledLate_consistent (h : Consistent t) (hnot : a ∉ t.enabled) : Consistent (t.enabledLate a) :=
  h.grown (fun _ => rfl) (fun _ => rfl) (some a) (fun _ hb => Option.some.inj hb ▸ hnot) rfl rfl rfl rfl

theorem disabledLate_consistent (h : Consistent t) (ha : a ∈ t.leaked) : Consistent (t.disabledLate a) where
  unique := h.unique
  held := h.held
  tabled := h.tabled
  enabled b := by
    have hheld : (b ≠ 0#8 ∧ ∃ i, (t.ports i).slot = b) → b ≠ a := fun ⟨hb, i, hi⟩ he =>
      h.leaked i (hi ▸ hb) (by rw [hi, he]; exact ha)
    simp only [Table.disabledLate]
    rw [h.nodup.1.mem_erase_iff, h.nodup.2.mem_erase_iff, h.enabled]
    exact ⟨fun ⟨hne, hb⟩ => hb.imp_left fun hb => ⟨hne, hb⟩,
      fun hb => hb.elim (fun hb => ⟨hb.1, .inl hb.2⟩) fun hb => ⟨hheld hb, .inr hb⟩⟩
  leaked i hi hm := h.leaked i hi (List.mem_of_mem_erase hm)
  nodup := ⟨h.nodup.1.erase _, h.nodup.2.erase _⟩
  alive := h.alive
  apart := h.apart
  objects := h.objects
  once := h.once

/-- What enumerating a port comes to: nothing, a device, or the slot given back, which may fail. -/
theorem enumerate_cases (t : Table) (i : Nat) (o : Outcome) (ha : o.Admissible t)
    (hx : ∀ b ∈ t.destroyed, b ∈ t.objects) :
    t.enumerate i o = t ∧ enableSlot o.slot = none ∨
    ∃ a, enableSlot o.slot = some a ∧ a ≠ 0#8 ∧ a ∉ t.enabled ∧
      ((∃ d, d.object ∉ t.objects ∧ d.slot_id = a ∧ d.root_hub_port = i + 1 ∧
        (∀ j, ((t.enumerate i o).ports j).slot = if j = i then a else (t.ports j).slot) ∧
        (∀ k, (t.enumerate i o).devices k = if k = devIndex a then some d else t.devices k) ∧
        (t.enumerate i o).enabled = a :: t.enabled ∧ (t.enumerate i o).leaked = t.leaked ∧
        (t.enumerate i o).objects = d.object :: t.objects ∧
        (t.enumerate i o).destroyed = t.destroyed) ∨
      (∀ j, ((t.enumerate i o).ports j).slot = if j = i then 0#8 else (t.ports j).slot) ∧
        (∀ k, k ≠ devIndex a → (t.enumerate i o).devices k = t.devices k) ∧
        ((t.enumerate i o).devices (devIndex a) = none ∨
          (t.enumerate i o).devices (devIndex a) = t.devices (devIndex a)) ∧
        (∃ late : Option (BitVec 8), (∀ b ∈ late, b = a) ∧ (t.enumerate i o).enabled = late.toList ++ t.enabled ∧
          (t.enumerate i o).leaked = late.toList ++ t.leaked) ∧
        (t.enumerate i o).objects = t.objects ∧ (t.enumerate i o).destroyed = t.destroyed) := by
  unfold Table.enumerate
  cases he : enableSlot o.slot with
  | none => exact .inl ⟨rfl, rfl⟩
  | some a =>
    obtain ⟨x, hx', hxa⟩ := Option.bind_eq_some_iff.mp he
    have hne : a ≠ 0#8 ∧ x = a := by
      split at hxa
      · cases hxa
      · next hx0 => exact ⟨Option.some.inj hxa ▸ hx0, Option.some.inj hxa⟩
    have hnot : a ∉ t.enabled := ha.1 a (hne.2 ▸ hx')
    have hgivenBack : ∃ late : Option (BitVec 8), (∀ b ∈ late, b = a) ∧
        (if o.disabled then (a :: t.enabled).erase a else a :: t.enabled) = late.toList ++ t.enabled ∧
        (if o.disabled then t.leaked else a :: t.leaked) = late.toList ++ t.leaked := by
      cases o.disabled with
      | true => exact ⟨none, (fun b hb => by cases hb), List.erase_cons_head .., rfl⟩
      | false => exact ⟨some a, fun b hb => (Option.some.inj hb).symm, rfl, rfl⟩
    refine .inr ⟨a, rfl, hne.1, hnot, ?_⟩
    dsimp only
    -- the slot of port `i` after it was given and taken
    have hslots : ∀ (u : Table) (j : Nat), (∀ k, (u.ports k).slot = if k = i then a else (t.ports k).slot) →
        ((u.setSlot i 0#8).ports j).slot = if j = i then 0#8 else (t.ports j).slot := fun u j hu => by
      rw [slot_setSlot, hu]
      split <;> rfl
    have hgiven : ∀ j, ((({ t with enabled := a :: t.enabled } : Table).setSlot i a).ports j).slot =
        if j = i then a else (t.ports j).slot := slot_setSlot _ i a
    cases hobj : o.object with
    | none => exact .inr ⟨fun j => hslots _ j hgiven, fun _ _ => rfl, .inr rfl, hgivenBack, rfl, rfl⟩
    | some b =>
      have hfresh : b ∉ t.objects := ha.2 b hobj
      have hfree : (b :: t.objects).erase b = t.objects := List.erase_cons_head ..
      have hdead : t.destroyed.erase b = t.destroyed := List.erase_of_not_mem fun hm => hfresh (hx b hm)
      dsimp only
      split
      · refine .inr ⟨fun j => hslots _ j hgiven, fun k hk => ?_, .inl (if_pos rfl), hgivenBack, hfree, hdead⟩
        exact (if_neg hk).trans (if_neg hk)
      · split
        · refine .inr ⟨fun j => hslots _ j hgiven, fun k hk => ?_, .inl (if_pos rfl), hgivenBack, hfree, ?_⟩
          · exact (if_neg hk).trans (if_neg hk)
          · exact List.erase_cons_head ..
        · exact .inl ⟨_, hfresh, rfl, rfl, hgiven, fun _ => rfl, rfl, rfl, rfl, rfl⟩

theorem enumerate_consistent (h : Consistent t) (ha : o.Admissible t)
    (hi : (enableSlot o.slot).isSome = true → (t.ports i).slot = 0#8) : Consistent (t.enumerate i o) := by
  rcases enumerate_cases t i o ha h.once.2.2 with ⟨he, -⟩ | ⟨a, he, ha0, hnot, ⟨d, hfresh, hslot, hport, hs, hd, hen, hl, ho, hx⟩ |
    ⟨hs, hd, hda, ⟨late, hlate, hen, hl⟩, ho, hx⟩⟩
  · rw [he]
    exact h
  · exact attached_consistent h (hi (he ▸ rfl)) ha0 hnot hfresh hslot hport hs hd hen hl ho hx
  · -- a device that fails leaves no trace but its slot, when that was not given back
    refine h.grown (fun j => ?_) (fun k => ?_) late (fun b hb => hlate b hb ▸ hnot) hen hl ho hx
    · rw [hs]
      split
      · next hj => rw [hj, hi (he ▸ rfl)]
      · rfl
    · by_cases hk : k = devIndex a
      · rw [hk]
        exact hda.elim (fun hda => hda.trans (h.vacant ha0 hnot).symm) id
      · exact hd k hk

/-- The port's old device stays in the table. -/
theorem enumerate_orphan (h : Consistent t) (ha : o.Admissible t) (hsome : (enableSlot o.slot).isSome = true)
    (hi : (t.ports i).slot ≠ 0#8) : ¬ Tabled (t.enumerate i o) := by
  obtain ⟨d, hplace, -, -⟩ := h.held i hi
  intro htabled
  have hheld : (t.ports i).slot ∈ t.enabled := (h.enabled _).mpr (.inr ⟨hi, i, rfl⟩)
  -- nobody but `i` had the old slot, and `i` has another now
  have hgone : ∀ b, b ≠ (t.ports i).slot →
      (∀ j, ((t.enumerate i o).ports j).slot = if j = i then b else (t.ports j).slot) →
      (t.enumerate i o).devices (devIndex (t.ports i).slot) ≠ some d := fun b hb hs hdev => by
    obtain ⟨j, hj, hk⟩ := htabled _ d hdev
    have hslot := devIndex_inj hj hi hk
    rw [hs] at hslot
    split at hslot
    · exact hb hslot
    · next hji => exact hji (h.unique j i hslot (hslot ▸ hi))
  rcases enumerate_cases t i o ha h.once.2.2 with ⟨-, he⟩ | ⟨a, -, ha0, hnot, ⟨x, -, -, -, hs, hd, -⟩ | ⟨hs, hd, -⟩⟩
  · rw [he] at hsome
    cases hsome
  · have hne : (t.ports i).slot ≠ a := fun he => hnot (he ▸ hheld)
    exact hgone a hne.symm hs (by rw [hd, if_neg fun he => hne (devIndex_inj hi ha0 he), hplace])
  · have hne : (t.ports i).slot ≠ a := fun he => hnot (he ▸ hheld)
    exact hgone 0#8 hi.symm hs (by rw [hd _ fun he => hne (devIndex_inj hi ha0 he), hplace])

/-- Writes of `PORTSC` do not count. -/
theorem write_consistent (h : Consistent t) (i : Nat) (v : BitVec 32) : Consistent (t.write i v) :=
  h.congr (fun _ => rfl) (fun _ => rfl) rfl rfl rfl rfl

/-- Processing a port that does not renew its slot. -/
theorem process_consistent (h : Consistent t) (ha : o.Admissible t) (hn : ¬ Renews t i o) : Consistent (t.process i o) := by
  unfold Table.process
  dsimp only
  split
  · exact h
  · next hpp =>
    have hw := write_consistent h i (portscCSC ||| portscPRC ||| portscPP)
    split
    · exact disconnect_consistent hw i o.disabled
    · next hccs =>
      split
      · exact hw
      · exact write_consistent hw i _
      · next hdec =>
        rw [Bool.not_eq_true', Bool.not_eq_false] at hpp hccs
        refine enumerate_consistent hw ha fun hsome => ?_
        exact Classical.byContradiction fun hne => hn ⟨hpp, hccs, hdec, hsome, hne⟩

/-- Processing a port marks none and clears no mark. -/
theorem process_dirty (t : Table) (i : Nat) (o : Outcome) (j : Nat) :
    ((t.process i o).ports j).dirty = (t.ports j).dirty := by
  unfold Table.process Table.disconnect Table.enumerate
  dsimp only
  repeat' split
  all_goals simp

/-- A port that renews its slot leaves its old device in the table. -/
theorem process_orphan (h : Consistent t) (ha : o.Admissible t) (hn : Renews t i o) : ¬ Tabled (t.process i o) := by
  obtain ⟨hpp, hccs, hdec, hsome, hi⟩ := hn
  have hw := write_consistent h i (portscCSC ||| portscPRC ||| portscPP)
  unfold Table.process
  dsimp only
  rw [hpp, hccs, if_neg (by decide), if_neg (by decide)]
  simp only [show (t.write i (portscCSC ||| portscPRC ||| portscPP)).ports = t.ports from rfl, hdec]
  exact enumerate_orphan hw ha hsome hi

end

end BadLands.Usb.PortTable
