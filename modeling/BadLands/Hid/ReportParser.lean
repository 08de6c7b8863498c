import BadLands.Hid.Items
import BadLands.Hid.Keyboard

/-!
# The parser of HID report descriptors

`Parse` takes items until `GetNextItem` returns none, and then accepts what it has. An item that is
cut off, or of the reserved type, ends the descriptor as its end does, and a collection may still be
open then.

* `parseItem_depth`: an item that is accepted is one that the nesting of the collections allows.
* `complete_iff`: an accepted descriptor is a sequence of whole items, with the collections closed,
  exactly when it is a sequence of whole items with as many ends as collections.
-/
namespace BadLands.Hid

open BadLands.Core BadLands.Core.ByteMemory

/-- The devices with their addresses, the newest first. All are keyboards: there is no other class.
mirrors kernel/include/devices/USB/HID/Driver.hpp:51-77 -/
structure HIDHierarchy where
  devices : List (Nat × Keyboard)
  hasMultipleReports : Bool
  maxReportSize : Nat

/-- mirrors kernel/src/devices/USB/HID/Driver.cpp:41-56 -/
def HIDHierarchy.addDevice (h : HIDHierarchy) (device : Nat × Keyboard) (heap : Heap) : Option HIDHierarchy × Heap :=
  let (raw, heap) := heap.allocate
  (raw.map fun _ => { h with devices := device :: h.devices }, heap)

/-- The device class that is asked for is the keyboard.
mirrors kernel/src/devices/USB/HID/Driver.cpp:58-70 -/
def HIDHierarchy.getDevice (h : HIDHierarchy) : Pointer := h.devices.head?.map (·.1)

def HIDHierarchy.keyboard? (h : HIDHierarchy) (device : Pointer) : Option Keyboard :=
  device.bind fun address => (h.devices.find? fun d => d.1 == address).map (·.2)

/-- A device in its new state. -/
def HIDHierarchy.store (h : HIDHierarchy) (device : Pointer) (k : Keyboard) : HIDHierarchy :=
  { h with devices := h.devices.map fun d => if some d.1 = device then (d.1, k) else d }

/-- The fields of the parser and the variables of `Parse`.
mirrors kernel/include/devices/USB/HID/Driver.hpp:191-195, kernel/src/devices/USB/HID/Driver.cpp:371-374 -/
structure ReportParser where
  globalState : GlobalState
  localState : LocalState
  hasMultipleReports : Bool
  hierarchy : HIDHierarchy
  hasMultipleDevices : Bool
  device : Pointer
  heap : Heap

def ReportParser.start (heap : Heap) : ReportParser where
  globalState := ⟨0#32, 0#32, 0#32, 0#32, 0#32, 0#32⟩
  localState := ⟨0#32, 0#32, 0#32⟩
  hasMultipleReports := false
  hierarchy := ⟨[], false, 0⟩
  hasMultipleDevices := false
  device := none
  heap := heap

/-- What a call of `Parse` comes to. -/
inductive ParseResult where
  | unfinished
  | rejected
  | accepted (hierarchy : HIDHierarchy)

namespace ReportParser

/-- mirrors kernel/src/devices/USB/HID/Driver.cpp:284-334 -/
def handleGlobalItem (s : ReportParser) (item : Item) : Option ReportParser :=
  if item.tag = 0x0#8 then
    if item.value = 0x01#32 ∨ s.device ≠ none ∧ Keyboard.isUsageSupported item.value 0#32 then
      some { s with globalState := { s.globalState with usagePage := item.value } }
    else none
  else if item.tag = 0x1#8 then some { s with globalState := { s.globalState with logicalMinimum := item.value } }
  else if item.tag = 0x2#8 then some { s with globalState := { s.globalState with logicalMaximum := item.value } }
  else if item.tag = 0x7#8 then some { s with globalState := { s.globalState with reportSize := item.value } }
  else if item.tag = 0x8#8 then
    some { s with globalState := { s.globalState with reportID := item.value }
                  hasMultipleReports := s.hasMultipleReports || item.value != 0#32 }
  else if item.tag = 0x9#8 then some { s with globalState := { s.globalState with reportCount := item.value } }
  else none

/-- Without a device, the page is the generic desktop and the usage the keyboard.
mirrors kernel/include/devices/USB/HID/Driver.hpp:179-189 -/
def isUsageSupported (page usage : BitVec 32) : Bool := page == 0x1#32 && usage == 0x06#32

/-- mirrors kernel/src/devices/USB/HID/Driver.cpp:336-368 -/
def handleLocalItem (s : ReportParser) (item : Item) : Option ReportParser :=
  if item.tag = 0x0#8 then
    let supported := if s.device = none then isUsageSupported s.globalState.usagePage item.value
      else Keyboard.isUsageSupported s.globalState.usagePage item.value
    if supported then some { s with localState := { s.localState with usage := item.value } } else none
  else if item.tag = 0x1#8 then some { s with localState := { s.localState with usageMinimum := item.value } }
  else if item.tag = 0x2#8 then some { s with localState := { s.localState with usageMaximum := item.value } }
  else none

/-- A keyboard is added.
mirrors kernel/src/devices/USB/HID/Driver.cpp:411-435 -/
def createDevice (s : ReportParser) : Option ReportParser :=
  let s := { s with hasMultipleDevices := s.device != none }
  let (raw, heap) := s.heap.allocate
  match raw with
  | none => none
  | some address =>
    let (hierarchy, heap) := s.hierarchy.addDevice (address, .create) heap
    hierarchy.map fun hierarchy => { s with hierarchy := hierarchy, device := some address, heap := heap }

/-- The device that a new usage selects. A device that there is, is a keyboard.
mirrors kernel/src/devices/USB/HID/Driver.cpp:405-458 -/
def selectDevice (s : ReportParser) : Option ReportParser :=
  if s.globalState.usagePage = 0x1#32 then
    if s.localState.usage = 0x06#32 ∧ s.device = none then
      match s.hierarchy.getDevice with
      | none => s.createDevice
      | some device => some { s with device := some device }
    else none
  else none

/-- mirrors kernel/src/devices/USB/HID/Driver.cpp:517-535 -/
def collectionTypeOf (value : BitVec 32) : Option CollectionType :=
  match value.toNat with
  | 0x00 => some .physical
  | 0x01 => some .application
  | 0x02 => some .logical
  | 0x03 => some .report
  | 0x04 => some .namedArray
  | 0x05 => some .usageSwitch
  | 0x06 => some .usageModifier
  | _ => none

/-- What a main item does to the device.
mirrors kernel/src/devices/USB/HID/Driver.cpp:467-560 -/
def handleMainItem (s : ReportParser) (item : Item) (k : Keyboard) : Option Keyboard × Heap :=
  let config : IOConfiguration := ⟨item.value &&& 0x01#32 != 0#32, item.value &&& 0x02#32 != 0#32⟩
  if item.tag = 0x8#8 then k.addReportItem s.globalState s.localState config true s.heap
  else if item.tag = 0x9#8 then k.addReportItem s.globalState s.localState config false s.heap
  else if item.tag = 0xA#8 then
    match collectionTypeOf item.value with
    | none => (none, s.heap)
    | some type => k.startCollection type s.heap
  else if item.tag = 0xC#8 then (k.endCollection, s.heap)
  else (none, s.heap)

/-- `none`: the descriptor is rejected, and the hierarchy released.
mirrors kernel/src/devices/USB/HID/Driver.cpp:379-561 -/
def parseItem (s : ReportParser) (item : Item) : Option ReportParser :=
  match item.type with
  | .globalItem => s.handleGlobalItem item
  | .localItem => do
    let s' ← s.handleLocalItem item
    if s'.localState.usage ≠ s.localState.usage then s'.selectDevice else some s'
  | .mainItem => do
    let k ← s.hierarchy.keyboard? s.device
    let (k', heap) := s.handleMainItem item k
    k'.map fun k' => { s with hierarchy := s.hierarchy.store s.device k', heap := heap }

/-- mirrors kernel/src/devices/USB/HID/Driver.cpp:566-578 -/
def finish (s : ReportParser) : ParseResult :=
  if s.hasMultipleDevices ∧ ¬ s.hasMultipleReports then .rejected
  else if s.hasMultipleDevices then .accepted { s.hierarchy with hasMultipleReports := true }
  else .accepted s.hierarchy

/-- mirrors kernel/src/devices/USB/HID/Driver.cpp:376-564 -/
def parseLoop : Nat → ReportDescriptor → ReportParser → ParseResult
  | 0, _, _ => .unfinished
  | fuel + 1, d, s =>
    match d.getNextItem.item with
    | none => s.finish
    | some item =>
      match s.parseItem item with
      | none => .rejected
      | some s => parseLoop fuel d.getNextItem.descriptor s

/-- Every item takes a byte at least.
mirrors kernel/src/devices/USB/HID/Driver.cpp:370-579 -/
def parse (d : ReportDescriptor) (heap : Heap) : ParseResult := parseLoop (d.length + 1) d (.start heap)

end ReportParser

/-! ## Nesting -/

abbrev Kind := ItemType × BitVec 8

def Item.kind (i : Item) : Kind := (i.type, i.tag)

def collectionStart : Kind := (.mainItem, 0xA#8)

def collectionEnd : Kind := (.mainItem, 0xC#8)

/-- `Input` and `Output`. -/
def isReportItem (k : Kind) : Bool := k == (.mainItem, 0x8#8) || k == (.mainItem, 0x9#8)

/-- Inside `depth` collections: each one that is opened is closed, those that are open are closed in the
end, and report items are inside a collection. -/
def nested : Nat → List Kind → Bool
  | depth, [] => depth == 0
  | depth, k :: kinds =>
    if k = collectionStart then nested (depth + 1) kinds
    else if k = collectionEnd then depth != 0 && nested (depth - 1) kinds
    else if isReportItem k then depth != 0 && nested depth kinds
    else nested depth kinds

/-- An item leads from inside so many collections to inside so many. -/
inductive Nests : Kind → Nat → Nat → Prop
  | opens {depth : Nat} : Nests collectionStart depth (depth + 1)
  | closes {depth : Nat} : Nests collectionEnd (depth + 1) depth
  | inside {k : Kind} {depth : Nat} (hk : isReportItem k = true) : Nests k (depth + 1) (depth + 1)
  | other {k : Kind} {depth : Nat} (hstart : k ≠ collectionStart) (hend : k ≠ collectionEnd)
      (hk : isReportItem k = false) : Nests k depth depth

theorem Nests.nested {k : Kind} {depth depth' : Nat} (h : Nests k depth depth') (kinds : List Kind) :
    nested depth (k :: kinds) = nested depth' kinds := by
  cases h with
  | opens => rw [Hid.nested, if_pos rfl]
  | closes => simp [Hid.nested, collectionStart, collectionEnd]
  | inside hk =>
    have hstart : k ≠ collectionStart := by
      rintro rfl
      cases hk
    have hend : k ≠ collectionEnd := by
      rintro rfl
      cases hk
    rw [Hid.nested, if_neg hstart, if_neg hend, if_pos hk]
    rfl
  | other hstart hend hk => rw [Hid.nested, if_neg hstart, if_neg hend, if_neg (by rw [hk]; decide)]

theorem Nests.count {k : Kind} {depth depth' : Nat} (h : Nests k depth depth') :
    depth' + [k].count collectionEnd = depth + [k].count collectionStart := by
  cases h with
  | opens => rfl
  | closes => rfl
  | inside hk =>
    have hstart : k ≠ collectionStart := by
      rintro rfl
      cases hk
    have hend : k ≠ collectionEnd := by
      rintro rfl
      cases hk
    simp [hstart, hend]
  | other hstart hend => simp [hstart, hend]

/-- The whole descriptor is items, and they are nested. -/
def Complete (l : List (BitVec 8)) : Prop :=
  ∃ items : List ShortItem, l = items.flatMap ShortItem.encode ∧ nested 0 (items.map fun i => i.item.kind) = true

/-- The items up to the first call that returns none, and the descriptor of that call. -/
def ReportDescriptor.fetchAll : Nat → ReportDescriptor → List Item × ReportDescriptor
  | 0, d => ([], d)
  | fuel + 1, d =>
    match d.getNextItem.item with
    | none => ([], d)
    | some item =>
      let (items, last) := fetchAll fuel d.getNextItem.descriptor
      (item :: items, last)

/-! ## The state of the parser -/

/-- No device, or one with `depth` collections open. -/
structure ReportParser.Parsed (s : ReportParser) (depth : Nat) : Prop where
  device : (s.device = none ∧ s.hierarchy.devices = [] ∧ depth = 0) ∨
    ∃ address k, s.device = some address ∧ s.hierarchy.devices = [(address, k)] ∧ k.Built s.heap.allocated depth
  single : s.hasMultipleDevices = false
  plain : s.hierarchy.hasMultipleReports = false ∧ s.hierarchy.maxReportSize = 0

namespace ReportParser

variable {s s' : ReportParser} {item : Item} {depth : Nat}

theorem start_parsed (heap : Heap) : (start heap).Parsed 0 := ⟨.inl ⟨rfl, rfl, rfl⟩, rfl, rfl, rfl⟩

/-- What global and local items leave. -/
structure Same (s s' : ReportParser) : Prop where
  hierarchy : s'.hierarchy = s.hierarchy
  device : s'.device = s.device
  heap : s'.heap = s.heap
  single : s'.hasMultipleDevices = s.hasMultipleDevices

theorem Parsed.same (h : s.Parsed depth) (hsame : Same s s') : s'.Parsed depth := by
  obtain ⟨hhierarchy, hdevice, hheap, hsingle⟩ := hsame
  exact ⟨by rw [hdevice, hhierarchy, hheap]; exact h.device, by rw [hsingle]; exact h.single,
    by rw [hhierarchy]; exact h.plain⟩

theorem handleGlobalItem_same (h : s.handleGlobalItem item = some s') : Same s s' := by
  unfold handleGlobalItem at h
  repeat' split at h
  all_goals first | (cases h; done) | (cases h; exact ⟨rfl, rfl, rfl, rfl⟩)

theorem handleLocalItem_same (h : s.handleLocalItem item = some s') : Same s s' := by
  unfold handleLocalItem at h
  dsimp only at h
  repeat' split at h
  all_goals first | (cases h; done) | (cases h; exact ⟨rfl, rfl, rfl, rfl⟩)

/-- The first device. -/
theorem createDevice_parsed (h : s.createDevice = some s') (hnone : s.device = none) (hs : s.Parsed depth)
    (hempty : s.hierarchy.devices = []) : s'.Parsed 0 := by
  unfold createDevice at h
  dsimp only at h
  split at h
  · cases h
  next address hraw =>
  obtain ⟨hierarchy, hadd, rfl⟩ := Option.map_eq_some_iff.mp h
  unfold HIDHierarchy.addDevice at hadd
  obtain ⟨_, -, rfl⟩ := Option.map_eq_some_iff.mp hadd
  refine ⟨.inr ⟨address, .create, rfl, by rw [hempty], Keyboard.create_built _⟩, ?_, hs.plain⟩
  simp [hnone]

/-- Only the first usage of a keyboard selects a device, and adds it. -/
theorem selectDevice_parsed (h : s.selectDevice = some s') (hs : s.Parsed depth) : s'.Parsed depth := by
  unfold selectDevice at h
  split at h
  · split at h
    · next hnone =>
      obtain ⟨-, hempty, rfl⟩ | ⟨address, k, hdevice, -⟩ := hs.device
      · have hget : s.hierarchy.getDevice = none := by
          rw [HIDHierarchy.getDevice, hempty]
          rfl
        rw [hget] at h
        exact createDevice_parsed h hnone.2 hs hempty
      · rw [hnone.2] at hdevice
        cases hdevice
    · cases h
  · cases h

/-- What a main item does to a keyboard, and to the nesting. -/
theorem handleMainItem_built {k k' : Keyboard} {heap : Heap} (htype : item.type = .mainItem)
    (h : s.handleMainItem item k = (some k', heap)) (hk : k.Built s.heap.allocated depth) :
    ∃ depth', k'.Built heap.allocated depth' ∧ Nests item.kind depth depth' := by
  have hkind : ∀ tag, item.tag = tag → item.kind = (.mainItem, tag) := by
    rintro tag rfl
    rw [Item.kind, htype]
  unfold handleMainItem at h
  dsimp only at h
  split at h
  · next htag =>
    obtain ⟨hpos, hbuilt⟩ := Keyboard.addReportItem_built h hk
    obtain ⟨n, rfl⟩ := Nat.exists_eq_succ_of_ne_zero (Nat.pos_iff_ne_zero.mp hpos)
    exact ⟨n + 1, hbuilt, .inside (by rw [hkind _ htag]; decide)⟩
  split at h
  · next htag =>
    obtain ⟨hpos, hbuilt⟩ := Keyboard.addReportItem_built h hk
    obtain ⟨n, rfl⟩ := Nat.exists_eq_succ_of_ne_zero (Nat.pos_iff_ne_zero.mp hpos)
    exact ⟨n + 1, hbuilt, .inside (by rw [hkind _ htag]; decide)⟩
  split at h
  · next htag =>
    split at h
    · cases h
    · have hstart : item.kind = collectionStart := hkind _ htag
      exact ⟨depth + 1, Keyboard.startCollection_built h hk, hstart ▸ .opens⟩
  split at h
  · next htag =>
    obtain ⟨hend, rfl⟩ := Prod.mk.inj h
    obtain ⟨n, rfl, hbuilt⟩ := Keyboard.endCollection_built hend hk
    have hkindEnd : item.kind = collectionEnd := hkind _ htag
    exact ⟨n, hbuilt, hkindEnd ▸ .closes⟩
  · cases h

/-- An item of another type than main. -/
theorem nests_other (htype : item.type ≠ .mainItem) : Nests item.kind depth depth := by
  have hne : ∀ tag, item.kind ≠ (.mainItem, tag) := fun tag he => htype (Prod.mk.inj he).1
  refine .other (hne _) (hne _) ?_
  unfold isReportItem
  simp [hne]

/-- An item that is accepted. -/
theorem parseItem_depth (h : s.parseItem item = some s') (hs : s.Parsed depth) :
    ∃ depth', s'.Parsed depth' ∧ Nests item.kind depth depth' := by
  unfold parseItem at h
  split at h
  · next htype => exact ⟨depth, hs.same (handleGlobalItem_same h), nests_other (by rw [htype]; decide)⟩
  · next htype =>
    refine ⟨depth, ?_, nests_other (by rw [htype]; decide)⟩
    obtain ⟨s₁, hlocal, h⟩ := Option.bind_eq_some_iff.mp h
    have h₁ := hs.same (handleLocalItem_same hlocal)
    split at h
    · exact selectDevice_parsed h h₁
    · cases h
      exact h₁
  · next htype =>
    obtain ⟨k, hfind, h⟩ := Option.bind_eq_some_iff.mp h
    obtain ⟨k', hmain, rfl⟩ := Option.map_eq_some_iff.mp h
    obtain ⟨hnone, -⟩ | ⟨address, k₁, hdevice, hdevices, hk⟩ := hs.device
    · rw [hnone] at hfind
      cases hfind
    · have hk₁ : k₁ = k := by simpa [HIDHierarchy.keyboard?, hdevice, hdevices] using hfind
      subst hk₁
      obtain ⟨depth', hbuilt, hnests⟩ := handleMainItem_built htype (Prod.ext hmain rfl) hk
      refine ⟨depth', ⟨.inr ⟨address, k', hdevice, ?_, hbuilt⟩, hs.single, hs.plain⟩, hnests⟩
      simp [HIDHierarchy.store, hdevice, hdevices]

/-- The items up to the end of a run that is accepted. -/
theorem foldlM_depth : ∀ {items : List Item} {s s' : ReportParser} {depth : Nat},
    items.foldlM parseItem s = some s' → s.Parsed depth → ∃ depth', s'.Parsed depth' ∧
      nested depth (items.map Item.kind) = (depth' == 0) ∧
      depth' + (items.map Item.kind).count collectionEnd = depth + (items.map Item.kind).count collectionStart
  | [], s, s', depth, h, hs => by
    cases h
    exact ⟨depth, hs, rfl, rfl⟩
  | item :: items, s, s', depth, h, hs => by
    rw [List.foldlM_cons] at h
    obtain ⟨s₁, hitem, hrest⟩ := Option.bind_eq_some_iff.mp h
    obtain ⟨depth₁, h₁, hnests⟩ := parseItem_depth hitem hs
    obtain ⟨depth', h', hnested, hcount⟩ := foldlM_depth hrest h₁
    have hstep := hnests.count
    refine ⟨depth', h', ?_, ?_⟩
    · rw [List.map_cons, hnests.nested, hnested]
    · rw [List.map_cons, List.count_cons, List.count_cons]
      rw [List.count_cons, List.count_cons, List.count_nil, List.count_nil] at hstep
      omega

/-- The loop goes over the items that are fetched. -/
theorem parseLoop_accepted : ∀ {fuel : Nat} {d : ReportDescriptor} {s : ReportParser} {h : HIDHierarchy},
    parseLoop fuel d s = .accepted h → ∃ s', (d.fetchAll fuel).1.foldlM parseItem s = some s' ∧ s'.finish = .accepted h ∧
      (d.fetchAll fuel).2.getNextItem.item = none
  | 0, d, s, h, haccept => by cases haccept
  | fuel + 1, d, s, h, haccept => by
    unfold parseLoop at haccept
    unfold ReportDescriptor.fetchAll
    split at haccept
    · next hnone =>
      exact ⟨s, rfl, haccept, hnone⟩
    · next item hsome =>
      split at haccept
      · cases haccept
      · next s₁ hitem =>
        obtain ⟨s', hfold, hfinish, hlast⟩ := parseLoop_accepted haccept
        refine ⟨s', ?_, hfinish, hlast⟩
        rw [List.foldlM_cons, hitem]
        exact hfold

end ReportParser

/-! ## The items of the descriptor -/

section
variable {d : ReportDescriptor}

/-- A call does not go back, and keeps the descriptor. -/
theorem getNextItem_position (d : ReportDescriptor) : d.position ≤ d.getNextItem.descriptor.position ∧
    d.getNextItem.descriptor.length = d.length := by
  unfold ReportDescriptor.getNextItem
  split
  · exact ⟨Nat.le_refl _, rfl⟩
  dsimp only
  split
  · exact ⟨Nat.le_succ _, rfl⟩
  · exact ⟨Nat.le_trans (Nat.le_succ _) (Nat.le_add_right _ _), rfl⟩

/-- An item takes a byte. -/
theorem getNextItem_next {item : Item} (h : d.getNextItem.item = some item) :
    d.position < d.length ∧ d.position < d.getNextItem.descriptor.position := by
  unfold ReportDescriptor.getNextItem at h ⊢
  split at h
  · cases h
  next hinside =>
  rw [if_neg hinside]
  dsimp only at h ⊢
  split at h
  · cases h
  next hcode =>
  rw [if_neg hcode]
  exact ⟨by omega, Nat.lt_of_lt_of_le (Nat.lt_succ_self _) (Nat.le_add_right _ _)⟩

/-- Items are fetched one by one, up to the end. -/
theorem fetchAll_encode : ∀ (items : List ShortItem) {fuel : Nat} {d : ReportDescriptor}, items.length < fuel →
    d.position ≤ d.length → d.remaining = items.flatMap ShortItem.encode →
    (d.fetchAll fuel).1 = items.map (·.swapped) ∧ (d.fetchAll fuel).2.position = d.length
  | [], fuel + 1, d, _, hle, h => by
    unfold ReportDescriptor.fetchAll
    rw [getNextItem_end h]
    exact ⟨rfl, Nat.le_antisymm hle (remaining_eq_nil.mp h)⟩
  | i :: items, fuel + 1, d, hfuel, hle, h => by
    rw [List.flatMap_cons] at h
    obtain ⟨hitem, hskip, hrest⟩ := getNextItem_encode h
    have hroom := (remaining_append h (List.cons_ne_nil _ _)).1
    obtain ⟨hitems, hlast⟩ := fetchAll_encode items (Nat.lt_of_succ_lt_succ hfuel)
      (by rw [hskip]; exact hroom) hrest
    unfold ReportDescriptor.fetchAll
    rw [hitem]
    refine ⟨?_, hlast.trans (getNextItem_position d).2⟩
    rw [List.map_cons, ← hitems]

end

/-! ## Accepted descriptors -/

/-- Every item takes a byte, so the loop comes to its end. -/
theorem parse_finishes (d : ReportDescriptor) (heap : Heap) : ReportParser.parse d heap ≠ .unfinished := by
  have hloop : ∀ (fuel : Nat) (d : ReportDescriptor) (s : ReportParser), d.length - d.position < fuel →
      ReportParser.parseLoop fuel d s ≠ .unfinished := by
    intro fuel
    induction fuel with
    | zero => intro d s hfuel; omega
    | succ fuel ih =>
      intro d s hfuel
      unfold ReportParser.parseLoop
      split
      · unfold ReportParser.finish
        split
        · exact fun h => by cases h
        · split <;> exact fun h => by cases h
      · next item hsome =>
        split
        · exact fun h => by cases h
        · have hnext := getNextItem_next hsome
          exact ih _ _ (by rw [(getNextItem_position d).2]; omega)
  exact hloop _ d _ (by omega)

/-- The state of the parser when it accepts. -/
theorem ReportParser.parse_parsed {d : ReportDescriptor} {heap : Heap} {h : HIDHierarchy}
    (haccept : parse d heap = .accepted h) :
    ∃ s depth, (d.fetchAll (d.length + 1)).1.foldlM parseItem (.start heap) = some s ∧ s.Parsed depth ∧
      s.hierarchy = h := by
  obtain ⟨s, hfold, hfinish, -⟩ := parseLoop_accepted haccept
  obtain ⟨depth, hs, -, -⟩ := foldlM_depth hfold (start_parsed heap)
  refine ⟨s, depth, hfold, hs, ?_⟩
  rw [finish, if_neg (fun h => by rw [hs.single] at h; exact absurd h.1 (by decide)),
    if_neg (by rw [hs.single]; decide)] at hfinish
  exact ParseResult.accepted.inj hfinish

theorem length_encode (items : List ShortItem) : items.length ≤ (items.flatMap ShortItem.encode).length := by
  induction items with
  | nil => exact Nat.le_refl _
  | cons i items ih =>
    rw [List.flatMap_cons, List.length_append, ShortItem.encode, List.length_cons, List.length_cons]
    omega

theorem swapped_kinds (items : List ShortItem) :
    (items.map (·.swapped)).map Item.kind = items.map fun i => i.item.kind := by
  rw [List.map_map]
  rfl

/-- What is fetched of a sequence of items is their kinds. -/
theorem fetched_kinds {l : List (BitVec 8)} {items : List ShortItem} (h : l = items.flatMap ShortItem.encode) :
    ((ReportDescriptor.ofBytes l).fetchAll (l.length + 1)).1.map Item.kind = items.map fun i => i.item.kind := by
  have hmany : items.length < l.length + 1 := by
    have hlength := length_encode items
    rw [← h] at hlength
    omega
  rw [(fetchAll_encode items hmany (Nat.zero_le _) ((remaining_ofBytes l).trans h)).1, swapped_kinds]

/-- An accepted descriptor is complete exactly when it is a sequence of items in which as many
collections are closed as are opened. -/
theorem complete_iff (l : List (BitVec 8)) (heap : Heap) {h : HIDHierarchy}
    (haccept : ReportParser.parse (.ofBytes l) heap = .accepted h) :
    Complete l ↔ ∃ items : List ShortItem, l = items.flatMap ShortItem.encode ∧
      (items.map fun i => i.item.kind).count collectionStart = (items.map fun i => i.item.kind).count collectionEnd := by
  obtain ⟨s', hfold, -, -⟩ := ReportParser.parseLoop_accepted haccept
  obtain ⟨depth, -, hnested, hcount⟩ := ReportParser.foldlM_depth hfold (ReportParser.start_parsed heap)
  have hfuel : (ReportDescriptor.ofBytes l).length + 1 = l.length + 1 := rfl
  rw [hfuel] at hnested hcount
  refine exists_congr fun items => and_congr_right fun hitems => ?_
  rw [fetched_kinds hitems] at hnested hcount
  rw [hnested, beq_iff_eq]
  omega

/-- A keyboard with one collection and nothing in it. -/
theorem complete_keyboard : Complete [0x05#8, 0x01#8, 0x09#8, 0x06#8, 0xA1#8, 0x01#8, 0xC0#8] := by
  have haccept : ∃ h, ReportParser.parse (.ofBytes [0x05#8, 0x01#8, 0x09#8, 0x06#8, 0xA1#8, 0x01#8, 0xC0#8])
      ⟨fun _ => true, 0⟩ = .accepted h := ⟨_, rfl⟩
  obtain ⟨h, haccept⟩ := haccept
  exact (complete_iff _ _ haccept).mpr ⟨[⟨.globalItem, 0#4, [0x01#8], by decide⟩, ⟨.localItem, 0#4, [0x06#8], by decide⟩,
    ⟨.mainItem, 0xA#4, [0x01#8], by decide⟩, ⟨.mainItem, 0xC#4, [], by decide⟩], by decide, by decide⟩

/-- The same without the end of the collection is accepted. -/
theorem open_collection_accepted : (∃ h, ReportParser.parse (.ofBytes [0x05#8, 0x01#8, 0x09#8, 0x06#8, 0xA1#8, 0x01#8])
    ⟨fun _ => true, 0⟩ = .accepted h) ∧ ¬ Complete [0x05#8, 0x01#8, 0x09#8, 0x06#8, 0xA1#8, 0x01#8] := by
  refine ⟨⟨_, rfl⟩, fun ⟨items, hitems, hnested⟩ => ?_⟩
  rw [← fetched_kinds hitems] at hnested
  revert hnested
  decide

end BadLands.Hid
