import BadLands.Hid.ReportParser
import Mathlib.Data.List.Basic

/-!
# Delivery of HID reports

Whether a report comes with its ID in front is a flag of the hierarchy. `Parse` sets it only for
several devices, and there is never more than one; the IDs that the descriptor declares are noted in
a field of the parser that nothing else asks for.

* `Ready.handleTransactionComplete`: what is delivered, in every state of the driver.
* `honoured_iff`: the reports reach those they are for exactly when no Report ID is declared.
-/
namespace BadLands.Hid

open BadLands.Core

/-- The largest report of all devices, and the ID in front of it.
mirrors kernel/src/devices/USB/HID/Driver.cpp:72-94 -/
def HIDHierarchy.getMaxReportSize (h : HIDHierarchy) : Nat × HIDHierarchy :=
  if h.maxReportSize = 0 then
    let size := h.devices.foldl (fun size d => max size d.2.getMaxReportSize.1) 0
    let size := if h.hasMultipleReports then size + 1 else size
    (size, { h with
      devices := h.devices.map fun d => (d.1, d.2.getMaxReportSize.2)
      maxReportSize := size })
  else (h.maxReportSize, h)

/-- What `SendReport` hands to every device. -/
structure Delivery where
  reportID : BitVec 8
  data : ByteMemory
  length : Nat

/-- mirrors kernel/src/devices/USB/HID/Driver.cpp:96-106 -/
def HIDHierarchy.sendReport (h : HIDHierarchy) (delivery : Delivery) (timestamp : BitVec 64) :
    HIDHierarchy × List Keyboard.KeyEvent :=
  let handled := h.devices.map fun d =>
    (d.1, d.2.handleReport delivery.reportID delivery.data delivery.length timestamp)
  ({ h with devices := handled.map fun d => (d.1, d.2.1) }, handled.flatMap fun d => d.2.2)

/-- The hierarchy, and the size of the buffer that reports are received in.
mirrors kernel/include/devices/USB/HID/Driver.hpp:79-84 -/
structure Driver where
  hierarchy : HIDHierarchy
  bufferSize : Nat

/-- The buffer is sized by a copy of the hierarchy, which has the devices in common with the one that
the driver keeps.
mirrors kernel/src/devices/USB/HID/Driver.cpp:676-701 -/
def Driver.create (h : HIDHierarchy) : Driver :=
  let (size, copy) := h.getMaxReportSize
  ⟨{ h with devices := copy.devices }, size⟩

/-- The length of the transfer.
mirrors kernel/src/devices/USB/HID/Driver.cpp:127-152 -/
def Driver.initiateTransaction (d : Driver) : Nat × Driver :=
  let (size, hierarchy) := d.hierarchy.getMaxReportSize
  (size, { d with hierarchy := hierarchy })

/-- mirrors kernel/src/devices/USB/HID/Driver.cpp:216-225 -/
def Driver.handleTransactionComplete (d : Driver) (buffer : ByteMemory) (timestamp : BitVec 64) :
    Delivery × Driver × List Keyboard.KeyEvent :=
  let (size, hierarchy) := d.hierarchy.getMaxReportSize
  let delivery : Delivery := if d.hierarchy.hasMultipleReports then ⟨buffer 0, fun k => buffer (k + 1), size - 1⟩
    else ⟨0#8, buffer, size⟩
  let (hierarchy, events) := hierarchy.sendReport delivery timestamp
  (delivery, { d with hierarchy := hierarchy }, events)

/-- The states of a driver, with transfers that are started and reports that are received in any order. -/
inductive Driver.Reached (d₀ : Driver) : Driver → Prop
  | created : Reached d₀ d₀
  | transaction {d : Driver} (h : Reached d₀ d) : Reached d₀ d.initiateTransaction.2
  | report {d : Driver} (h : Reached d₀ d) (buffer : ByteMemory) (timestamp : BitVec 64) :
      Reached d₀ (d.handleTransactionComplete buffer timestamp).2.1

/-- The reports with this ID of all devices. -/
def HIDHierarchy.Addressed (h : HIDHierarchy) (reportID : BitVec 8) (r : Keyboard.Report) : Prop :=
  ∃ d ∈ h.devices, ∃ c ∈ d.2.collections, c.getReport (reportID.setWidth 32) true = some r

/-- A Report ID item, and one that is not zero. -/
def Item.isReportID (i : Item) : Bool := i.kind == (.globalItem, 0x8#8)

def Item.declaresID (i : Item) : Bool := i.isReportID && i.value != 0#32

/-- The items that `Parse` takes from these bytes. -/
def itemsOf (l : List (BitVec 8)) : List Item := ((ReportDescriptor.ofBytes l).fetchAll (l.length + 1)).1

/-- A report whose descriptor declares IDs is delivered by its first byte, without that byte; one whose
descriptor has no Report ID items is delivered whole, to report 0. Both are long enough. -/
structure Driver.Delivers (d : Driver) (items : List Item) (buffer : ByteMemory) (delivery : Delivery) : Prop where
  byID : (∃ i ∈ items, i.declaresID) → delivery = ⟨buffer 0, fun k => buffer (k + 1), d.bufferSize - 1⟩
  whole : (∀ i ∈ items, i.isReportID = false) → delivery = ⟨0#8, buffer, d.bufferSize⟩
  long : (∃ i ∈ items, i.declaresID) ∨ (∀ i ∈ items, i.isReportID = false) →
    ∀ r, d.hierarchy.Addressed delivery.reportID r → r.getReportSize ≤ delivery.length

/-- Every report that is received is. -/
def Honoured (items : List Item) (h : HIDHierarchy) : Prop :=
  ∀ d, (Driver.create h).Reached d → ∀ buffer timestamp,
    d.Delivers items buffer (d.handleTransactionComplete buffer timestamp).1

/-! ## The sizes -/

namespace Keyboard

/-- The size that `GetMaxReportSize` computes. -/
def largest (k : Keyboard) : Nat :=
  (k.collections.flatMap fun c => c.inputReports ++ c.outputReports).foldl (fun size r => max size r.getReportSize) 0

/-- Nothing was computed yet, or the largest size. -/
def Sized (k : Keyboard) : Prop := k.maxReportSize = 0 ∨ k.maxReportSize = k.largest

end Keyboard

def HIDHierarchy.largest (h : HIDHierarchy) : Nat := h.devices.foldl (fun size d => max size d.2.largest) 0

section
variable {k k' : Keyboard} {h h' : HIDHierarchy} {d d' : Driver} {items : List Item}

theorem foldl_max {α : Type} (f : α → Nat) : ∀ (l : List α) (n : Nat),
    n ≤ l.foldl (fun size a => max size (f a)) n ∧ ∀ a ∈ l, f a ≤ l.foldl (fun size a => max size (f a)) n
  | [], n => ⟨Nat.le_refl _, fun a ha => by cases ha⟩
  | b :: l, n => by
    obtain ⟨hstart, hrest⟩ := foldl_max f l (max n (f b))
    rw [List.foldl_cons]
    exact ⟨by omega, List.forall_mem_cons.mpr ⟨by omega, hrest⟩⟩

/-- Same reports, and a size that is as good as before. -/
structure Keyboard.Steady (k k' : Keyboard) : Prop where
  collections : k'.collections = k.collections
  sized : k.Sized → k'.Sized

theorem Keyboard.Steady.largest (hk : k.Steady k') : k'.largest = k.largest := by
  rw [Keyboard.largest, hk.collections, Keyboard.largest]

theorem Keyboard.getMaxReportSize_steady (k : Keyboard) : k.Steady k.getMaxReportSize.2 := by
  unfold Keyboard.getMaxReportSize
  split
  · exact ⟨rfl, fun _ => .inr rfl⟩
  · exact ⟨rfl, id⟩

theorem Keyboard.getMaxReportSize_largest (hk : k.Sized) : k.getMaxReportSize.1 = k.largest := by
  unfold Keyboard.getMaxReportSize
  split
  · rfl
  · next hcomputed => exact hk.resolve_left hcomputed

theorem Keyboard.handleReport_steady (k : Keyboard) (reportID : BitVec 8) (data : ByteMemory) (length : Nat)
    (timestamp : BitVec 64) : k.Steady (k.handleReport reportID data length timestamp).1 := by
  obtain ⟨press, hold, htimed⟩ := k.handleReport_timed reportID data length timestamp
  rw [htimed]
  exact ⟨rfl, id⟩

theorem Keyboard.getReportSize_le_largest {c : Keyboard.ReportCollection} {r : Keyboard.Report}
    (hc : c ∈ k.collections) (hr : r ∈ c.inputReports) : r.getReportSize ≤ k.largest :=
  (foldl_max Keyboard.Report.getReportSize _ 0).2 r
    (List.mem_flatMap.mpr ⟨c, hc, List.mem_append_left _ hr⟩)

/-! ## The hierarchy -/

/-- No flag, and sizes that are right where they were computed. -/
structure HIDHierarchy.Plain (h : HIDHierarchy) (size : Nat) : Prop where
  flag : h.hasMultipleReports = false
  sized : ∀ d ∈ h.devices, d.2.Sized
  largest : h.largest = size
  computed : h.maxReportSize = 0 ∨ h.maxReportSize = size

/-- Devices that are changed one by one, and stay as large. -/
theorem HIDHierarchy.largest_map (f : Keyboard → Keyboard) (hf : ∀ k : Keyboard, k.Steady (f k))
    (hdevices : h'.devices = h.devices.map fun d => (d.1, f d.2)) : h'.largest = h.largest := by
  rw [HIDHierarchy.largest, hdevices, List.foldl_map, HIDHierarchy.largest]
  exact List.foldl_ext _ _ _ fun size d _ => by rw [(hf d.2).largest]

theorem HIDHierarchy.sized_map (f : Keyboard → Keyboard) (hf : ∀ k : Keyboard, k.Steady (f k))
    (hdevices : h'.devices = h.devices.map fun d => (d.1, f d.2)) (hsized : ∀ d ∈ h.devices, d.2.Sized) :
    ∀ d ∈ h'.devices, d.2.Sized := by
  rw [hdevices]
  exact List.forall_mem_map.mpr fun d hd => (hf d.2).sized (hsized d hd)

theorem HIDHierarchy.getMaxReportSize_plain {size : Nat} (hh : h.Plain size) :
    h.getMaxReportSize.1 = size ∧ h.getMaxReportSize.2.Plain size := by
  unfold HIDHierarchy.getMaxReportSize
  split
  · have hsize : h.devices.foldl (fun size d => max size d.2.getMaxReportSize.1) 0 = size := by
      rw [← hh.largest, HIDHierarchy.largest]
      exact List.foldl_ext _ _ _ fun size d hd => by rw [Keyboard.getMaxReportSize_largest (hh.sized d hd)]
    dsimp only
    rw [hsize, if_neg (by rw [hh.flag]; decide)]
    exact ⟨rfl, hh.flag, HIDHierarchy.sized_map _ Keyboard.getMaxReportSize_steady rfl hh.sized,
      (HIDHierarchy.largest_map _ Keyboard.getMaxReportSize_steady rfl).trans hh.largest, .inr rfl⟩
  · next hcomputed => exact ⟨hh.computed.resolve_left hcomputed, hh⟩

theorem HIDHierarchy.sendReport_plain {size : Nat} (hh : h.Plain size) (delivery : Delivery) (timestamp : BitVec 64) :
    (h.sendReport delivery timestamp).1.Plain size := by
  have hdevices : (h.sendReport delivery timestamp).1.devices = h.devices.map fun d =>
      (d.1, (d.2.handleReport delivery.reportID delivery.data delivery.length timestamp).1) :=
    List.map_map
  have hsteady := fun k : Keyboard =>
    k.handleReport_steady delivery.reportID delivery.data delivery.length timestamp
  exact ⟨hh.flag, HIDHierarchy.sized_map _ hsteady hdevices hh.sized,
    (HIDHierarchy.largest_map _ hsteady hdevices).trans hh.largest, hh.computed⟩

/-! ## The driver -/

/-- The buffer has the size of the largest report. -/
def Driver.Ready (d : Driver) : Prop := d.hierarchy.Plain d.bufferSize

/-- A report is delivered whole, to report 0. -/
theorem Driver.Ready.handleTransactionComplete (hd : d.Ready) (buffer : ByteMemory) (timestamp : BitVec 64) :
    (d.handleTransactionComplete buffer timestamp).1 = ⟨0#8, buffer, d.bufferSize⟩ ∧
      (d.handleTransactionComplete buffer timestamp).2.1.Ready := by
  obtain ⟨hsize, hplain⟩ := HIDHierarchy.getMaxReportSize_plain hd
  unfold Driver.handleTransactionComplete
  dsimp only
  rw [if_neg (by rw [hd.flag]; decide), hsize]
  exact ⟨rfl, HIDHierarchy.sendReport_plain hplain _ timestamp⟩

theorem Driver.Reached.ready {d₀ : Driver} (h : d₀.Reached d) (h₀ : d₀.Ready) : d.Ready := by
  induction h with
  | created => exact h₀
  | transaction h ih => exact (HIDHierarchy.getMaxReportSize_plain ih).2
  | report h buffer timestamp ih => exact (ih.handleTransactionComplete buffer timestamp).2

/-- What `Parse` returns is plain, whatever Report IDs there are. -/
theorem accepted_ready {descriptor : ReportDescriptor} {heap : Heap}
    (haccept : ReportParser.parse descriptor heap = .accepted h) : (Driver.create h).Ready := by
  obtain ⟨s, depth, -, hs, rfl⟩ := ReportParser.parse_parsed haccept
  have hsized : ∀ d ∈ s.hierarchy.devices, d.2.Sized := by
    obtain ⟨-, hempty, -⟩ | ⟨address, k, -, hdevices, hk⟩ := hs.device
    · rw [hempty]
      exact fun d hd => by cases hd
    · rw [hdevices]
      exact List.forall_mem_singleton.mpr (.inl hk.fresh)
  have hplain : s.hierarchy.Plain s.hierarchy.largest := ⟨hs.plain.1, hsized, rfl, .inl hs.plain.2⟩
  obtain ⟨hsize, hcopy⟩ := HIDHierarchy.getMaxReportSize_plain hplain
  unfold Driver.create Driver.Ready
  dsimp only
  rw [hsize]
  exact ⟨hs.plain.1, hcopy.sized, hcopy.largest, .inl hs.plain.2⟩

/-- The reports of an accepted descriptor reach those that they are for exactly when it declares no
Report ID but zero. -/
theorem honoured_iff (l : List (BitVec 8)) (heap : Heap) {h : HIDHierarchy}
    (haccept : ReportParser.parse (.ofBytes l) heap = .accepted h) :
    Honoured (itemsOf l) h ↔ ∀ i ∈ itemsOf l, i.declaresID = false := by
  have hready := accepted_ready haccept
  constructor
  · intro hhonoured i hi
    refine Bool.eq_false_iff.mpr fun hdeclares => ?_
    -- the first byte of this report is not zero
    have hbyID := (hhonoured _ .created (fun _ => 1#8) 0#64).byID ⟨i, hi, hdeclares⟩
    rw [(hready.handleTransactionComplete _ _).1] at hbyID
    have hid : 0#8 = 1#8 := congrArg Delivery.reportID hbyID
    exact absurd hid (by decide)
  · intro hnone d hd buffer timestamp
    have hd := hd.ready hready
    rw [(hd.handleTransactionComplete buffer timestamp).1]
    refine ⟨fun ⟨i, hi, hdeclares⟩ => ?_, fun _ => rfl, fun _ r ⟨device, hdevice, c, hc, hr⟩ => ?_⟩
    · rw [hnone i hi] at hdeclares
      cases hdeclares
    · have hsize := Keyboard.getReportSize_le_largest hc (List.mem_of_find?_eq_some hr)
      have hlargest := (foldl_max (fun d : Nat × Keyboard => d.2.largest) d.hierarchy.devices 0).2 device hdevice
      exact Nat.le_trans hsize (Nat.le_trans hlargest (Nat.le_of_eq hd.largest))

end

/-- Six keys in a byte each, and some items in front of them. -/
def sixKeys (items : List (BitVec 8)) : List (BitVec 8) :=
  [0x05#8, 0x01#8, 0x09#8, 0x06#8, 0xA1#8, 0x01#8] ++ items ++
    [0x75#8, 0x08#8, 0x95#8, 0x06#8, 0x81#8, 0x00#8, 0xC0#8]

/-- Without a Report ID. -/
theorem honoured_keyboard : ∃ h, ReportParser.parse (.ofBytes (sixKeys [])) ⟨fun _ => true, 0⟩ = .accepted h ∧
    Honoured (itemsOf (sixKeys [])) h := by
  have haccept : ∃ h, ReportParser.parse (.ofBytes (sixKeys [])) ⟨fun _ => true, 0⟩ = .accepted h := ⟨_, rfl⟩
  obtain ⟨h, haccept⟩ := haccept
  exact ⟨h, haccept, (honoured_iff _ _ haccept).mpr (by decide)⟩

/-- With Report ID 1, a report that starts with 1 is delivered as report 0. -/
theorem reportID_ignored : ∃ h, ReportParser.parse (.ofBytes (sixKeys [0x85#8, 0x01#8])) ⟨fun _ => true, 0⟩ = .accepted h ∧
    ¬ Honoured (itemsOf (sixKeys [0x85#8, 0x01#8])) h := by
  refine ⟨_, rfl, fun hhonoured => ?_⟩
  have hbyID := (hhonoured _ .created (fun _ => 1#8) 0#64).byID ⟨⟨.globalItem, 0x8#8, 1#32⟩, by decide, by decide⟩
  have hid : 0#8 = 1#8 := congrArg Delivery.reportID hbyID
  exact absurd hid (by decide)

end BadLands.Hid
