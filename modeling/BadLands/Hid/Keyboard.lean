import BadLands.Core.Bitmap
import BadLands.Core.ByteMemory
import Mathlib.Logic.Function.Basic

/-!
# HID keyboards

A keyboard is built by the parser of the report descriptor: collections with reports, reports with
items, each the newest one first. Pointers to collections are the numbers of their allocations. A
report that comes in is decoded into a bitmap of the keys that are down, and what differs from the
bitmap of the report before it becomes key events.

* `Report.addItem`: an item starts where the items before it end, in 32 bits.
* `scan`: the elements of the items that a report is decoded from, and whether it is long enough.
* `Keyboard.handleReport`: the events of a report.
-/
namespace BadLands.Hid

open BadLands.Core

/-! ## Memory and the state of the parser -/

/-- Which allocations succeed, and how many were made. -/
structure Heap where
  available : Nat → Bool
  allocated : Nat

abbrev Pointer := Option Nat

def Heap.allocate (h : Heap) : Pointer × Heap :=
  (if h.available h.allocated then some h.allocated else none, { h with allocated := h.allocated + 1 })

/-- mirrors kernel/include/devices/USB/HID/Driver.hpp:128-135 -/
structure GlobalState where
  usagePage : BitVec 32
  logicalMinimum : BitVec 32
  logicalMaximum : BitVec 32
  reportSize : BitVec 32
  reportID : BitVec 32
  reportCount : BitVec 32
  deriving DecidableEq, Repr

/-- mirrors kernel/include/devices/USB/HID/Driver.hpp:137-141 -/
structure LocalState where
  usage : BitVec 32
  usageMinimum : BitVec 32
  usageMaximum : BitVec 32
  deriving DecidableEq, Repr

/-- The flags that a keyboard looks at.
mirrors kernel/include/devices/USB/HID/Driver.hpp:218-228 -/
structure IOConfiguration where
  isConstant : Bool
  isVariable : Bool
  deriving DecidableEq, Repr

/-- mirrors kernel/include/devices/USB/HID/Driver.hpp:230-238 -/
inductive CollectionType where
  | physical
  | application
  | logical
  | report
  | namedArray
  | usageSwitch
  | usageModifier
  deriving DecidableEq, Repr

namespace Keyboard

/-- mirrors kernel/include/devices/USB/HID/Keyboard.hpp:29-40 -/
structure Item where
  isConstant : Bool
  usagePage : BitVec 32
  usageMinimum : BitVec 32
  usageMaximum : BitVec 32
  logicalMinimum : BitVec 32
  logicalMaximum : BitVec 32
  offset : BitVec 32
  size : BitVec 32
  count : BitVec 32
  deriving DecidableEq, Repr

/-- mirrors kernel/include/devices/USB/HID/Keyboard.hpp:42-51 -/
structure Report where
  id : BitVec 32
  items : List Item
  deriving DecidableEq, Repr

/-- mirrors kernel/include/devices/USB/HID/Keyboard.hpp:53-64 -/
structure ReportCollection where
  address : Nat
  parent : Pointer
  inputReports : List Report
  outputReports : List Report
  deriving DecidableEq, Repr

/-- Where the next item starts. -/
def endOf : List Item → BitVec 32
  | [] => 0#32
  | item :: _ => item.offset + item.size * item.count

/-- mirrors kernel/src/devices/USB/HID/Keyboard.cpp:52-66 -/
def Report.addItem (r : Report) (item : Item) (heap : Heap) : Option Report × Heap :=
  let (raw, heap) := heap.allocate
  (raw.map fun _ => { r with items := { item with offset := endOf r.items } :: r.items }, heap)

/-- mirrors kernel/src/devices/USB/HID/Keyboard.cpp:68-75 -/
def Report.getReportSize (r : Report) : Nat := ((endOf r.items).toNat + 7) / 8

def ReportCollection.reports (c : ReportCollection) (input : Bool) : List Report :=
  if input then c.inputReports else c.outputReports

def ReportCollection.setReports (c : ReportCollection) (input : Bool) (reports : List Report) : ReportCollection :=
  if input then { c with inputReports := reports } else { c with outputReports := reports }

/-- mirrors kernel/src/devices/USB/HID/Keyboard.cpp:107-119 -/
def ReportCollection.getReport (c : ReportCollection) (reportID : BitVec 32) (input : Bool) : Option Report :=
  (c.reports input).find? fun r => r.id == reportID

/-- The report that `GetReport` finds, changed. -/
def replaceReport (reportID : BitVec 32) (r' : Report) : List Report → List Report
  | [] => []
  | r :: reports => if r.id = reportID then r' :: reports else r :: replaceReport reportID r' reports

/-- The new report of `AddReport`, before it has items.
mirrors kernel/src/devices/USB/HID/Keyboard.cpp:121-141 -/
def ReportCollection.addReport (c : ReportCollection) (reportID : BitVec 32) (input : Bool) (heap : Heap) :
    Option ReportCollection × Heap :=
  let (raw, heap) := heap.allocate
  (raw.map fun _ => c.setReports input (⟨reportID, []⟩ :: c.reports input), heap)

end Keyboard

open Keyboard in
/-- The bitmaps, and when keys were pressed and repeated. `maxReportSize` is the result of
`GetMaxReportSize` once it was computed.
mirrors kernel/include/devices/USB/HID/Keyboard.hpp:66-82 -/
structure Keyboard where
  collections : List ReportCollection
  currentCollection : Pointer
  maxReportSize : Nat
  currentKeys : Bitmap
  previousKeys : Bitmap
  pressTimestamp : Nat → BitVec 64
  repeatTimestamp : Nat → BitVec 64

namespace Keyboard

/-- `new (raw) Keyboard` -/
def create : Keyboard := ⟨[], none, 0, fun _ => 0#64, fun _ => 0#64, fun _ => 0#64, fun _ => 0#64⟩

/-- mirrors kernel/src/devices/USB/HID/Keyboard.cpp:155-169 -/
def isUsageSupported (page usage : BitVec 32) : Bool :=
  if page = 0x01#32 then usage == 0x06#32 else page == 0x07#32 || page == 0x08#32

def collection? (k : Keyboard) (p : Pointer) : Option ReportCollection :=
  p.bind fun address => k.collections.find? fun c => c.address == address

/-- A change to the collection that `currentCollection` points to. -/
def store (k : Keyboard) (c : ReportCollection) : Keyboard :=
  { k with collections := k.collections.map fun c' => if c'.address = c.address then c else c' }

/-- The item that is added, without its place. -/
def itemOf (globalState : GlobalState) (localState : LocalState) (config : IOConfiguration) : Item where
  isConstant := config.isConstant
  usagePage := globalState.usagePage
  usageMinimum := localState.usageMinimum
  usageMaximum := localState.usageMaximum
  logicalMinimum := globalState.logicalMinimum
  logicalMaximum := globalState.logicalMaximum
  offset := 0#32
  size := globalState.reportSize
  count := globalState.reportCount

/-- An item goes to the report with the id of the collection, which is added when there is none. -/
def ReportCollection.addItem (c : ReportCollection) (reportID : BitVec 32) (input : Bool) (item : Item) (heap : Heap) :
    Option ReportCollection × Heap :=
  let (c, heap) := match c.getReport reportID input with
    | some _ => (some c, heap)
    | none => c.addReport reportID input heap
  match c.bind fun c => (c.getReport reportID input).map fun r => (c, r) with
  | none => (none, heap)
  | some (c, r) =>
    let (r, heap) := r.addItem item heap
    (r.map fun r => c.setReports input (replaceReport reportID r (c.reports input)), heap)

/-- mirrors kernel/src/devices/USB/HID/Keyboard.cpp:231-263 -/
def addReportItem (k : Keyboard) (globalState : GlobalState) (localState : LocalState) (config : IOConfiguration)
    (input : Bool) (heap : Heap) : Option Keyboard × Heap :=
  if config.isVariable ∧ globalState.reportSize ≠ 1#32 then (none, heap)
  else match k.collection? k.currentCollection with
    | none => (none, heap)
    | some c =>
      let (c, heap) := c.addItem globalState.reportID input (itemOf globalState localState config) heap
      (c.map k.store, heap)

/-- mirrors kernel/src/devices/USB/HID/Keyboard.cpp:273-292 -/
def startCollection (k : Keyboard) (type : CollectionType) (heap : Heap) : Option Keyboard × Heap :=
  if type ≠ .application then (none, heap)
  else
    let (raw, heap) := heap.allocate
    (raw.map fun address => { k with
      collections := ⟨address, k.currentCollection, [], []⟩ :: k.collections
      currentCollection := some address }, heap)

/-- mirrors kernel/src/devices/USB/HID/Keyboard.cpp:294-302 -/
def endCollection (k : Keyboard) : Option Keyboard :=
  (k.collection? k.currentCollection).map fun c => { k with currentCollection := c.parent }

/-- The largest of the reports.
mirrors kernel/src/devices/USB/HID/Keyboard.cpp:191-229 -/
def getMaxReportSize (k : Keyboard) : Nat × Keyboard :=
  if k.maxReportSize = 0 then
    let size := (k.collections.flatMap fun c => c.inputReports ++ c.outputReports).foldl
      (fun size r => max size r.getReportSize) 0
    (size, { k with maxReportSize := size })
  else (k.maxReportSize, k)

/-! ## Decoding a report -/

/-- `BITMAP_SIZE` -/
def bitmapSize : Nat := 256

/-- mirrors kernel/src/devices/USB/HID/Keyboard.cpp:320-331,507-511 -/
def handleKeyUsage (keys : Bitmap) (usage : BitVec 32) (pressed : Bool) : Bitmap :=
  if pressed ∧ usage.toNat < bitmapSize then keys.set usage.toNat else keys

/-- An element of an item is looked at. `before`: the items that were declared before it; `bit`: where
the element is read. -/
structure Visit where
  item : Item
  before : List Item
  element : Nat
  bit : Nat

def Visit.byteIndex (v : Visit) : Nat := v.bit / 8

/-- An element of one bit stands for a usage of its own, one of eight bits contains the usage.
mirrors kernel/src/devices/USB/HID/Keyboard.cpp:605-626 -/
def Visit.handle (data : ByteMemory) (keys : Bitmap) (v : Visit) : Bitmap :=
  if v.item.size = 1#32 then
    handleKeyUsage keys (v.item.usageMinimum + BitVec.ofNat 32 v.element)
      (data v.byteIndex &&& (1#8 <<< (v.bit % 8)) != 0#8)
  else
    let value := data v.byteIndex
    handleKeyUsage keys (value.setWidth 32) (value != 0#8)

/-- Items of other sizes are not looked at.
mirrors kernel/src/devices/USB/HID/Keyboard.cpp:603-628 -/
def Item.visits (item : Item) (before : List Item) : List Visit :=
  if item.isConstant then []
  else if item.size = 1#32 then
    (List.range item.count.toNat).map fun j => ⟨item, before, j, item.offset.toNat + j⟩
  else if item.size = 8#32 then
    (List.range item.count.toNat).map fun j => ⟨item, before, j, 8 * (item.offset.toNat / 8 + j)⟩
  else []

def visitsOf : List Item → List Visit
  | [] => []
  | item :: before => item.visits before ++ visitsOf before

/-- The elements that are looked at, and `false` when a report is not long enough, which ends it.
mirrors kernel/src/devices/USB/HID/Keyboard.cpp:593-636 -/
def scan (reportID : BitVec 8) (length : Nat) : List ReportCollection → List Visit × Bool
  | [] => ([], true)
  | c :: collections =>
    match c.getReport (reportID.setWidth 32) true with
    | none => scan reportID length collections
    | some r =>
      if r.getReportSize > length then ([], false)
      else
        let (visits, long) := scan reportID length collections
        (visitsOf r.items ++ visits, long)

/-! ## Events -/

/-- mirrors kernel/include/devices/KeyboardDispatcher/Keycodes.h:17 -/
def keypoint (row column : BitVec 8) : BitVec 8 := (row &&& 0x07#8) ||| ((column &&& 0x1F#8) <<< 3)

/-- Usages without a key have the keypoint 0, from 0x74 on up to the modifiers, and behind them.
mirrors kernel/src/devices/USB/HID/Keyboard.cpp:439-498 -/
def keypointTable : List (BitVec 8 × BitVec 8) :=
  [(0, 0), (0, 0), (0, 0), (0, 0), (5, 1), (6, 6), (6, 4), (5, 3),
    (4, 3), (5, 4), (5, 5), (5, 6), (4, 8), (5, 7), (5, 8), (5, 9),
    (6, 8), (6, 7), (4, 9), (4, 10), (4, 1), (4, 4), (5, 2), (4, 5),
    (4, 7), (6, 5), (4, 2), (6, 3), (4, 6), (6, 2), (3, 1), (3, 2),
    (3, 3), (3, 4), (3, 5), (3, 6), (3, 7), (3, 8), (3, 9), (3, 10),
    (5, 13), (2, 0), (3, 13), (4, 0), (7, 6), (3, 11), (3, 12), (4, 11),
    (4, 12), (4, 13), (0, 0), (5, 10), (5, 11), (3, 0), (6, 9), (6, 10),
    (6, 11), (5, 0), (2, 1), (2, 2), (2, 3), (2, 4), (2, 5), (2, 6),
    (2, 7), (2, 8), (2, 9), (2, 10), (2, 11), (2, 12), (1, 13), (1, 14),
    (1, 15), (2, 13), (2, 14), (2, 15), (3, 14), (3, 15), (4, 14), (7, 14),
    (7, 12), (7, 13), (6, 13), (3, 16), (3, 17), (3, 18), (3, 19), (5, 19),
    (7, 19), (6, 16), (6, 17), (6, 18), (5, 16), (5, 17), (5, 18), (4, 16),
    (4, 17), (4, 18), (7, 16), (7, 18), (0, 0), (7, 10), (0, 0), (0, 0),
    (1, 1), (1, 2), (1, 3), (1, 4), (1, 5), (1, 6), (1, 7), (1, 8),
    (1, 9), (1, 10), (1, 11), (1, 12)] ++ List.replicate 108 (0, 0) ++
  [(7, 0), (6, 0), (7, 2), (7, 1), (7, 11), (6, 12), (7, 8), (7, 9)]

/-- mirrors kernel/src/devices/USB/HID/Keyboard.cpp:438-505 -/
def getKeypoint (usage : Nat) : BitVec 8 :=
  let (row, column) := keypointTable.getD usage (0, 0)
  keypoint row column

/-- mirrors kernel/src/devices/USB/HID/Keyboard.cpp:340-386 -/
def repeatableUsage (usage : Nat) : Bool :=
  (0x04 ≤ usage && usage ≤ 0x27) || (0x2A ≤ usage && usage ≤ 0x38) ||
    (usage == 0x28 || usage == 0x4B || usage == 0x4E || usage == 0x4C) || (0x4F ≤ usage && usage ≤ 0x52) ||
    (0x58 ≤ usage && usage ≤ 0x64) || usage == 0x67

/-- The usages of the modifiers follow each other, and their flags are the bits of a byte.
mirrors kernel/src/devices/USB/HID/Keyboard.cpp:388-436 -/
def getKeyFlags (keys : Bitmap) : BitVec 8 :=
  (List.range 8).foldl (fun flags i => if keys.test (0xE0 + i) then flags ||| (1#8 <<< i) else flags) 0#8

/-- mirrors kernel/include/devices/KeyboardDispatcher/Keypacket.hpp:31-35 -/
structure BasicKeyPacket where
  scancode : BitVec 8
  keypoint : BitVec 8
  flags : BitVec 16
  deriving DecidableEq, Repr

/-- A packet that is written to the multiplexer, by `OnKeyPressed`, `OnKeyReleased` or, as an
auto-repeat, by `OnKeyHeld`. -/
inductive KeyEvent where
  | pressed (usage : Nat) (packet : BasicKeyPacket)
  | released (usage : Nat) (packet : BasicKeyPacket)
  | held (usage : Nat) (packet : BasicKeyPacket)
  deriving DecidableEq, Repr

/-- The packet of a key, when it has a keypoint. -/
def packetOf (usage : Nat) (flags : BitVec 16) : Option BasicKeyPacket :=
  if getKeypoint usage = 0#8 then none else some ⟨BitVec.ofNat 8 usage, getKeypoint usage, flags⟩

/-- `FLAG_KEY_PRESSED` -/
def flagKeyPressed : BitVec 16 := 0x100#16

/-- mirrors kernel/src/devices/USB/HID/Keyboard.cpp:513-533 -/
def onKeyPressed (k : Keyboard) (usage : Nat) (flags : BitVec 8) (timestamp : BitVec 64) : Keyboard × List KeyEvent :=
  match packetOf usage (flags.setWidth 16 ||| flagKeyPressed) with
  | none => (k, [])
  | some packet =>
    (if usage < bitmapSize ∧ repeatableUsage usage then
      { k with pressTimestamp := Function.update k.pressTimestamp usage timestamp } else k, [.pressed usage packet])

/-- mirrors kernel/src/devices/USB/HID/Keyboard.cpp:535-556 -/
def onKeyReleased (k : Keyboard) (usage : Nat) (flags : BitVec 8) : Keyboard × List KeyEvent :=
  match packetOf usage (flags.setWidth 16 &&& ~~~flagKeyPressed) with
  | none => (k, [])
  | some packet =>
    (if usage < bitmapSize then
      { k with pressTimestamp := Function.update k.pressTimestamp usage 0#64
               repeatTimestamp := Function.update k.repeatTimestamp usage 0#64 } else k, [.released usage packet])

/-- mirrors kernel/src/devices/USB/HID/Keyboard.cpp:558-591 -/
def onKeyHeld (k : Keyboard) (usage : Nat) (flags : BitVec 8) (timestamp : BitVec 64) : Keyboard × List KeyEvent :=
  if usage < bitmapSize ∧ k.pressTimestamp usage ≠ 0#64 ∧ 500#64 ≤ timestamp - k.pressTimestamp usage ∧
      50#64 ≤ timestamp - k.repeatTimestamp usage then
    ({ k with repeatTimestamp := Function.update k.repeatTimestamp usage timestamp },
      ((packetOf usage (flags.setWidth 16 ||| flagKeyPressed)).map (.held usage)).toList)
  else (k, [])

/-- mirrors kernel/src/devices/USB/HID/Keyboard.cpp:304-318 -/
def keyStateChanged (k : Keyboard) (usage : Nat) : Bool :=
  usage < bitmapSize && k.currentKeys.test usage != k.previousKeys.test usage

/-- mirrors kernel/src/devices/USB/HID/Keyboard.cpp:642-663 -/
def keyEvent (k : Keyboard) (flags : BitVec 8) (timestamp : BitVec 64) (usage : Nat) : Keyboard × List KeyEvent :=
  let pressed := k.currentKeys.test usage
  if k.keyStateChanged usage then
    if pressed then k.onKeyPressed usage flags timestamp else k.onKeyReleased usage flags
  else if pressed ∧ repeatableUsage usage then k.onKeyHeld usage flags timestamp
  else (k, [])

def keyEvents (k : Keyboard) (flags : BitVec 8) (timestamp : BitVec 64) : List Nat → Keyboard × List KeyEvent
  | [] => (k, [])
  | usage :: usages =>
    let (k, events) := k.keyEvent flags timestamp usage
    let (k, rest) := keyEvents k flags timestamp usages
    (k, events ++ rest)

/-- A report that is not long enough for one of the collections has no events.
mirrors kernel/src/devices/USB/HID/Keyboard.cpp:593-664 -/
def updateKeys (k : Keyboard) (reportID : BitVec 8) (data : ByteMemory) (length : Nat) (timestamp : BitVec 64) :
    Keyboard × List KeyEvent :=
  let (visits, long) := scan reportID length k.collections
  let k := { k with currentKeys := visits.foldl (Visit.handle data) k.currentKeys }
  if long then k.keyEvents (getKeyFlags k.currentKeys) timestamp (List.range bitmapSize) else (k, [])

/-- mirrors kernel/src/devices/USB/HID/Keyboard.cpp:333-338 -/
def rollBitmapsOver (k : Keyboard) : Keyboard :=
  { k with previousKeys := k.currentKeys, currentKeys := fun _ => 0#64 }

/-- mirrors kernel/src/devices/USB/HID/Keyboard.cpp:666-669 -/
def handleReport (k : Keyboard) (reportID : BitVec 8) (data : ByteMemory) (length : Nat) (timestamp : BitVec 64) :
    Keyboard × List KeyEvent :=
  let (k, events) := k.updateKeys reportID data length timestamp
  (k.rollBitmapsOver, events)

/-! ### What a report leaves of a keyboard -/

/-- Only timestamps were changed. -/
def Timed (k k' : Keyboard) : Prop :=
  ∃ press hold, k' = { k with pressTimestamp := press, repeatTimestamp := hold }

theorem keyEvent_timed (k : Keyboard) (flags : BitVec 8) (timestamp : BitVec 64) (usage : Nat) :
    Timed k (k.keyEvent flags timestamp usage).1 := by
  unfold keyEvent
  dsimp only
  split
  · split
    · unfold onKeyPressed
      split
      · exact ⟨_, _, rfl⟩
      · dsimp only
        split <;> exact ⟨_, _, rfl⟩
    · unfold onKeyReleased
      split
      · exact ⟨_, _, rfl⟩
      · dsimp only
        split <;> exact ⟨_, _, rfl⟩
  · split
    · unfold onKeyHeld
      split <;> exact ⟨_, _, rfl⟩
    · exact ⟨_, _, rfl⟩

theorem keyEvents_timed (flags : BitVec 8) (timestamp : BitVec 64) :
    ∀ (usages : List Nat) (k : Keyboard), Timed k (k.keyEvents flags timestamp usages).1
  | [], k => ⟨_, _, rfl⟩
  | usage :: usages, k => by
    obtain ⟨press, hold, hfirst⟩ := keyEvent_timed k flags timestamp usage
    obtain ⟨press', hold', hrest⟩ := keyEvents_timed flags timestamp usages (k.keyEvent flags timestamp usage).1
    refine ⟨press', hold', ?_⟩
    rw [keyEvents]
    dsimp only
    rw [hrest, hfirst]

/-- The bitmap after a report: the keys that it marks, up to a collection that it is too short for. -/
def marksOf (k : Keyboard) (reportID : BitVec 8) (data : ByteMemory) (length : Nat) : Bitmap :=
  (scan reportID length k.collections).1.foldl (Visit.handle data) k.currentKeys

/-- The bitmap of the report becomes the one of the report before. -/
theorem handleReport_timed (k : Keyboard) (reportID : BitVec 8) (data : ByteMemory) (length : Nat) (timestamp : BitVec 64) :
    Timed { k with previousKeys := k.marksOf reportID data length, currentKeys := fun _ => 0#64 }
      (k.handleReport reportID data length timestamp).1 := by
  unfold handleReport updateKeys rollBitmapsOver
  dsimp only
  split
  · obtain ⟨press, hold, htimed⟩ := keyEvents_timed
      (getKeyFlags (k.marksOf reportID data length)) timestamp (List.range bitmapSize)
      { k with currentKeys := k.marksOf reportID data length }
    refine ⟨press, hold, ?_⟩
    unfold marksOf at htimed ⊢
    rw [htimed]
  · exact ⟨_, _, rfl⟩

/-! ## How a keyboard is built -/

/-- The bits of the items. -/
def bitsOf : List Item → Nat
  | [] => 0
  | item :: before => bitsOf before + item.size.toNat * item.count.toNat

/-- Each item is at the end of those before it, up to 32 bits. -/
def Placed : List Item → Prop
  | [] => True
  | item :: before => item.offset = BitVec.ofNat 32 (bitsOf before) ∧ Placed before

/-- So many collections are open from `p` on. -/
inductive Parents (k : Keyboard) : Pointer → Nat → Prop
  | root : Parents k none 0
  | inner {p : Pointer} {c : ReportCollection} {n : Nat} (hfind : k.collection? p = some c)
      (houter : Parents k c.parent n) : Parents k p (n + 1)

/-- A keyboard whose collections were allocated before `limit`, with `depth` of them open. -/
structure Built (k : Keyboard) (limit depth : Nat) : Prop where
  addresses : ∀ c ∈ k.collections, c.address < limit
  parents : Parents k k.currentCollection depth
  placed : ∀ c ∈ k.collections, ∀ input, ∀ r ∈ c.reports input, Placed r.items
  fresh : k.maxReportSize = 0

section
variable {k k' : Keyboard} {c c' : ReportCollection} {r r' : Report} {reports : List Report} {items : List Item}
  {heap heap' : Heap} {limit depth : Nat} {reportID : BitVec 32} {input : Bool} {p : Pointer} {item : Item}

theorem endOf_placed (h : Placed items) : endOf items = BitVec.ofNat 32 (bitsOf items) := by
  cases items with
  | nil => rfl
  | cons item before =>
    have hproduct : item.size * item.count = BitVec.ofNat 32 (item.size.toNat * item.count.toNat) :=
      BitVec.eq_of_toNat_eq (by rw [BitVec.toNat_mul, BitVec.toNat_ofNat])
    rw [endOf, h.1, hproduct, ← BitVec.ofNat_add, bitsOf]

theorem allocate_some {address : Nat} (h : heap.allocate = (some address, heap')) :
    address = heap.allocated ∧ heap'.allocated = heap.allocated + 1 := by
  unfold Heap.allocate at h
  split at h
  · cases h
    exact ⟨rfl, rfl⟩
  · cases h

theorem addItem_placed (h : r.addItem item heap = (some r', heap')) (hr : Placed r.items) :
    r'.id = r.id ∧ Placed r'.items ∧ heap.allocated ≤ heap'.allocated := by
  unfold Report.addItem at h
  obtain ⟨hmap, rfl⟩ := Prod.mk.inj h
  obtain ⟨_, -, rfl⟩ := Option.map_eq_some_iff.mp hmap
  exact ⟨rfl, ⟨endOf_placed hr, hr⟩, Nat.le_succ _⟩

theorem mem_replaceReport : ∀ {reports : List Report}, ∀ x ∈ replaceReport reportID r reports, x = r ∨ x ∈ reports
  | [], _, hx => by cases hx
  | a :: reports, x, hx => by
    unfold replaceReport at hx
    split at hx
    · rcases List.mem_cons.mp hx with rfl | hx
      · exact .inl rfl
      · exact .inr (List.mem_cons_of_mem _ hx)
    · rcases List.mem_cons.mp hx with rfl | hx
      · exact .inr List.mem_cons_self
      · exact (mem_replaceReport x hx).imp_right (List.mem_cons_of_mem _)

@[simp] theorem setReports_address : (c.setReports input reports).address = c.address := by
  cases input <;> rfl

@[simp] theorem setReports_parent : (c.setReports input reports).parent = c.parent := by
  cases input <;> rfl

@[simp] theorem reports_setReports : (c.setReports input reports).reports input = reports := by
  cases input <;> rfl

theorem reports_setReports_ne {other : Bool} (h : other ≠ input) :
    (c.setReports input reports).reports other = c.reports other := by
  cases input <;> cases other <;> first | rfl | exact absurd rfl h

/-- The reports of a collection are the old ones and one with items in their places. -/
theorem setReports_placed (h : ∀ input, ∀ r ∈ c.reports input, Placed r.items)
    (hnew : ∀ r ∈ reports, Placed r.items) : ∀ other, ∀ r ∈ (c.setReports input reports).reports other, Placed r.items := by
  intro other r hr
  by_cases hother : other = input
  · subst hother
    rw [reports_setReports] at hr
    exact hnew r hr
  · rw [reports_setReports_ne hother] at hr
    exact h other r hr

/-- What a collection keeps when items are added. -/
structure Grown (c c' : ReportCollection) (heap heap' : Heap) : Prop where
  address : c'.address = c.address
  parent : c'.parent = c.parent
  placed : ∀ input, ∀ r ∈ c'.reports input, Placed r.items
  heap : heap.allocated ≤ heap'.allocated

theorem addReport_grown (h : c.addReport reportID input heap = (some c', heap'))
    (hc : ∀ input, ∀ r ∈ c.reports input, Placed r.items) : Grown c c' heap heap' := by
  unfold ReportCollection.addReport at h
  obtain ⟨hmap, rfl⟩ := Prod.mk.inj h
  obtain ⟨_, -, rfl⟩ := Option.map_eq_some_iff.mp hmap
  exact ⟨setReports_address, setReports_parent, setReports_placed hc (List.forall_mem_cons.mpr ⟨trivial, hc input⟩),
    Nat.le_succ _⟩

/-- The report of the item is there, or added first. -/
theorem addItem_report (hc : ∀ input, ∀ r ∈ c.reports input, Placed r.items) {found : Option ReportCollection}
    (h : (match c.getReport reportID input with
      | some _ => (some c, heap)
      | none => c.addReport reportID input heap) = (found, heap')) : ∀ c' ∈ found, Grown c c' heap heap' := by
  split at h
  · cases h
    intro c' hc'
    cases hc'
    exact ⟨rfl, rfl, hc, Nat.le_refl _⟩
  · intro c' hc'
    cases hc'
    exact addReport_grown h hc

/-- An item that is added to a collection. -/
theorem addItem_grown (h : c.addItem reportID input item heap = (some c', heap'))
    (hc : ∀ input, ∀ r ∈ c.reports input, Placed r.items) : Grown c c' heap heap' := by
  unfold ReportCollection.addItem at h
  obtain ⟨found, heap₁, hreport⟩ : ∃ found heap₁, (match c.getReport reportID input with
      | some _ => (some c, heap)
      | none => c.addReport reportID input heap) = (found, heap₁) := ⟨_, _, rfl⟩
  have hfound := addItem_report hc hreport
  rw [hreport] at h
  dsimp only at h
  split at h
  · cases h
  next c₁ r hget =>
  obtain ⟨c₂, rfl, hr⟩ := Option.bind_eq_some_iff.mp hget
  obtain ⟨r, hr, hpair⟩ := Option.map_eq_some_iff.mp hr
  cases hpair
  have hgrown := hfound c₁ rfl
  obtain ⟨hmap, rfl⟩ := Prod.mk.inj h
  obtain ⟨r', hadd, rfl⟩ := Option.map_eq_some_iff.mp hmap
  obtain ⟨-, hplaced, hheap⟩ := addItem_placed (Prod.ext hadd rfl) (hgrown.placed input r (List.mem_of_find?_eq_some hr))
  refine ⟨by rw [setReports_address, hgrown.address], by rw [setReports_parent, hgrown.parent],
    setReports_placed hgrown.placed fun x hx => ?_, Nat.le_trans hgrown.heap hheap⟩
  rcases mem_replaceReport x hx with rfl | hx
  · exact hplaced
  · exact hgrown.placed input x hx

/-! ### The collections -/

theorem collection?_some (h : k.collection? p = some c) : p = some c.address ∧ c ∈ k.collections := by
  obtain ⟨address, rfl, hfind⟩ := Option.bind_eq_some_iff.mp h
  have haddress : c.address = address := by simpa using List.find?_some hfind
  exact ⟨by rw [haddress], List.mem_of_find?_eq_some hfind⟩

theorem create_built (limit : Nat) : Built create limit 0 :=
  ⟨fun c hc => (by cases hc), .root, fun c hc => (by cases hc), rfl⟩

/-- Without a current collection none is open. -/
theorem Parents.some (h : Parents k p depth) (hfind : k.collection? p = some c) :
    ∃ n, depth = n + 1 ∧ Parents k c.parent n := by
  cases h with
  | root => cases hfind
  | inner hfind' houter =>
    rw [hfind'] at hfind
    cases hfind
    exact ⟨_, rfl, houter⟩

/-- Collections that stay, with the collections around them, are open as before. -/
theorem Parents.mono (h : Parents k p depth) (hsame : ∀ p c, k.collection? p = Option.some c →
    ∃ c', k'.collection? p = Option.some c' ∧ c'.parent = c.parent) : Parents k' p depth := by
  induction h with
  | root => exact .root
  | inner hfind houter ih =>
    obtain ⟨c', hfind', hparent⟩ := hsame _ _ hfind
    exact .inner hfind' (hparent ▸ ih)

/-- A collection is replaced by one that has grown. -/
theorem collection?_store (hfind : k.collection? k.currentCollection = some c) (hgrown : Grown c c' heap heap')
    {x : ReportCollection} (h : k.collection? p = some x) :
    ∃ x', (k.store c').collection? p = some x' ∧ x'.parent = x.parent := by
  have haddress : ∀ x : ReportCollection, (if x.address = c'.address then c' else x).address = x.address := by
    intro x
    split
    · next he => exact he.symm
    · rfl
  obtain ⟨address, rfl, hx⟩ := Option.bind_eq_some_iff.mp h
  refine ⟨if x.address = c'.address then c' else x, ?_, ?_⟩
  · rw [collection?, store, Option.bind_some, List.find?_map]
    have hcomp : ((fun c : ReportCollection => c.address == address) ∘
        fun x => if x.address = c'.address then c' else x) = fun c => c.address == address := by
      funext x
      rw [Function.comp, haddress]
    rw [hcomp, hx]
    rfl
  · split
    · next he =>
      -- the collection that is found is the current one
      have hcurrent := (collection?_some hfind).1
      have hthis := (collection?_some h).1
      rw [hthis, he, hgrown.address, ← hcurrent, hfind] at h
      rw [hgrown.parent, Option.some.inj h]
    · rfl

theorem startCollection_built {type : CollectionType} (h : k.startCollection type heap = (some k', heap'))
    (hk : Built k heap.allocated depth) : Built k' heap'.allocated (depth + 1) := by
  unfold startCollection at h
  split at h
  · cases h
  obtain ⟨hmap, rfl⟩ := Prod.mk.inj h
  obtain ⟨address, hraw, rfl⟩ := Option.map_eq_some_iff.mp hmap
  obtain ⟨rfl, -⟩ := allocate_some (Prod.ext hraw rfl : heap.allocate = (some address, heap.allocate.2))
  refine ⟨?_, .inner (c := ⟨heap.allocated, k.currentCollection, [], []⟩) ?_ ?_, ?_, hk.fresh⟩
  · exact List.forall_mem_cons.mpr ⟨Nat.lt_succ_self _, fun c hc => Nat.lt_succ_of_lt (hk.addresses c hc)⟩
  · simp [collection?]
  · -- the new collection is at another address than those that are open
    refine hk.parents.mono fun p c hfind => ⟨c, ?_, rfl⟩
    obtain ⟨rfl, hc⟩ := collection?_some hfind
    have hne : heap.allocated ≠ c.address := (Nat.ne_of_lt (hk.addresses c hc)).symm
    rw [collection?, Option.bind_some, List.find?_cons_of_neg (by simpa using hne)]
    exact hfind
  · refine List.forall_mem_cons.mpr ⟨fun input r hr => ?_, hk.placed⟩
    cases input <;> cases hr

theorem addReportItem_built {globalState : GlobalState} {localState : LocalState} {config : IOConfiguration}
    (h : k.addReportItem globalState localState config input heap = (some k', heap'))
    (hk : Built k heap.allocated depth) : 0 < depth ∧ Built k' heap'.allocated depth := by
  unfold addReportItem at h
  split at h
  · cases h
  split at h
  · cases h
  next c hfind =>
  obtain ⟨n, rfl, -⟩ := hk.parents.some hfind
  obtain ⟨hmap, rfl⟩ := Prod.mk.inj h
  obtain ⟨c', hadd, rfl⟩ := Option.map_eq_some_iff.mp hmap
  have hmem := (collection?_some hfind).2
  have hgrown := addItem_grown (Prod.ext hadd rfl) (hk.placed c hmem)
  have hstore : ∀ x ∈ (k.store c').collections, x = c' ∨ x ∈ k.collections := by
    intro x hx
    obtain ⟨y, hy, rfl⟩ := List.mem_map.mp hx
    split
    · exact .inl rfl
    · exact .inr hy
  refine ⟨Nat.succ_pos _, fun x hx => ?_, hk.parents.mono fun p x hx => collection?_store hfind hgrown hx,
    fun x hx => ?_, hk.fresh⟩
  · rcases hstore x hx with rfl | hx
    · rw [hgrown.address]
      exact Nat.lt_of_lt_of_le (hk.addresses c hmem) hgrown.heap
    · exact Nat.lt_of_lt_of_le (hk.addresses x hx) hgrown.heap
  · rcases hstore x hx with rfl | hx
    · exact hgrown.placed
    · exact hk.placed x hx

theorem endCollection_built (h : k.endCollection = some k') (hk : Built k limit depth) :
    ∃ n, depth = n + 1 ∧ Built k' limit n := by
  unfold endCollection at h
  obtain ⟨c, hfind, rfl⟩ := Option.map_eq_some_iff.mp h
  obtain ⟨n, rfl, houter⟩ := hk.parents.some hfind
  exact ⟨n, rfl, hk.addresses, houter.mono fun _ c hc => ⟨c, hc, rfl⟩, hk.placed, hk.fresh⟩

end

end Keyboard

end BadLands.Hid
