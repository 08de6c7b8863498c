import BadLands.Core.Disposal
import Mathlib.Algebra.Group.Nat.Defs

/-!
# Configuration descriptors of a USB device

`ParseConfigurationDescriptor` reads what the device returns, item by item, and builds lists of
functions, of their interfaces and of the alternate settings of these, all on the heap. The lists
are trees here: `null` or a `node` with the block it is in and what its pointers lead to.

A parser returns `none` when it does not come back: also when `Heap::Free` gets the null pointer, since
the header that it reads in front of it is in no page. `Heap` says which allocations succeed; a block is named by
the number of its allocation.

`parseConfigurations_owned`: the blocks of the configurations are distinct and were allocated by
their parser, and an accepted configuration has an interface in one of its functions.
-/
namespace BadLands.Usb.Configuration

open BadLands.Core.Disposal

/-! ## Blocks -/

inductive Block where
  | heap (n : Nat)
  | dma (n : Nat)
  deriving DecidableEq, Repr

/-- The allocation that the block is from. -/
def Block.number : Block → Nat
  | .heap n | .dma n => n

abbrev Pointer := Option Block

/-- Which allocations succeed, how many were made, and what was done so far. -/
structure Heap where
  available : Nat → Bool
  allocated : Nat
  events : List (Event Block)

def Heap.allocate (h : Heap) : Pointer × Heap :=
  (if h.available h.allocated then some (.heap h.allocated) else none, { h with allocated := h.allocated + 1 })

def Heap.log (h : Heap) (events : List (Event Block)) : Heap := { h with events := h.events ++ events }

/-! ## Descriptors -/

/-- mirrors kernel/include/devices/USB/xHCI/Device.hpp:68-73 -/
structure DeviceSpecificDescriptor where
  block : Block
  length : BitVec 8
  descriptorType : BitVec 8
  deriving DecidableEq, Repr

inductive EndpointType where
  | invalid
  | isochronousOut
  | bulkOut
  | interruptOut
  | controlBidirectional
  | isochronousIn
  | bulkIn
  | interruptIn
  deriving DecidableEq, Repr

/-- mirrors kernel/include/devices/USB/xHCI/Device.hpp:75-127 -/
structure EndpointDescriptor where
  endpointAddress : BitVec 8
  endpointType : EndpointType
  maxPacketSize : BitVec 16
  interval : BitVec 8
  deriving DecidableEq, Repr

def EndpointDescriptor.default : EndpointDescriptor := ⟨0#8, .invalid, 0#16, 0#8⟩

/-- An interface without its links. `endpoints` is the block of the array, `contents` what is in it.
mirrors kernel/include/devices/USB/xHCI/Device.hpp:129-140 -/
structure InterfaceFields where
  interfaceNumber : BitVec 8
  alternateSetting : BitVec 8
  endpointsNumber : BitVec 8
  interfaceDescriptorIndex : BitVec 8
  endpoints : Pointer
  contents : List EndpointDescriptor
  extra : List DeviceSpecificDescriptor
  deriving DecidableEq, Repr

inductive InterfaceDescriptor where
  | null
  | node (block : Block) (fields : InterfaceFields) (nextAlternate next : InterfaceDescriptor)
  deriving DecidableEq, Repr

/-- mirrors kernel/include/devices/USB/xHCI/Device.hpp:148-153 -/
structure InterfaceWrapper where
  interfaceClass : BitVec 8
  interfaceSubClass : BitVec 8
  interfaceProtocol : BitVec 8
  descriptor : InterfaceFields
  deriving DecidableEq, Repr

/-- mirrors kernel/include/devices/USB/xHCI/Device.hpp:155-162 -/
structure FunctionFields where
  functionClass : BitVec 8
  functionSubClass : BitVec 8
  functionProtocol : BitVec 8
  functionDescriptorIndex : BitVec 8
  interfacesNumber : BitVec 8
  deriving DecidableEq, Repr

inductive FunctionDescriptor where
  | null
  | node (block : Block) (fields : FunctionFields) (interfaces : InterfaceDescriptor) (next : FunctionDescriptor)
  deriving DecidableEq, Repr

/-- mirrors kernel/include/devices/USB/xHCI/Device.hpp:169-182 -/
structure ConfigurationDescriptor where
  valid : Bool
  interfacesNumber : BitVec 8
  configurationValue : BitVec 8
  configurationDescriptorIndex : BitVec 8
  selfPowered : Bool
  supportsRemoteWakeup : Bool
  maxPower : BitVec 8
  functionsNumber : BitVec 8
  functions : FunctionDescriptor
  deriving DecidableEq, Repr

def ConfigurationDescriptor.default : ConfigurationDescriptor :=
  ⟨false, 0#8, 0#8, 0#8, false, false, 0#8, 0#8, .null⟩

/-! ## Building the lists -/

/-- mirrors kernel/src/devices/USB/xHCI/Device.cpp:47-60 -/
def InterfaceFields.addExtra (f : InterfaceFields) (descriptor : DeviceSpecificDescriptor) : InterfaceFields :=
  { f with extra := f.extra ++ [descriptor] }

/-- mirrors kernel/src/devices/USB/xHCI/Device.cpp:72-96 -/
def InterfaceDescriptor.addAlternate (block : Block) (alternate : InterfaceFields) :
    InterfaceDescriptor → InterfaceDescriptor
  | .null => .node block alternate .null .null
  | .node b f nextAlternate next => .node b f (nextAlternate.addAlternate block alternate) next

/-- mirrors kernel/src/devices/USB/xHCI/Device.cpp:131-157 -/
def InterfaceDescriptor.addInterface (block : Block) (interface : InterfaceFields) :
    InterfaceDescriptor → InterfaceDescriptor
  | .null => .node block interface .null .null
  | .node b f nextAlternate next => .node b f nextAlternate (next.addInterface block interface)

/-- `GetInterface` finds one.
mirrors kernel/src/devices/USB/xHCI/Device.cpp:159-171 -/
def InterfaceDescriptor.hasInterface (id : BitVec 8) : InterfaceDescriptor → Bool
  | .null => false
  | .node _ f _ next => f.interfaceNumber = id || next.hasInterface id

/-- `AddAlternate` on the interface that `GetInterface` finds. -/
def InterfaceDescriptor.alternateOf (id : BitVec 8) (block : Block) (alternate : InterfaceFields) :
    InterfaceDescriptor → InterfaceDescriptor
  | .null => .null
  | .node b f nextAlternate next =>
    if f.interfaceNumber = id then (InterfaceDescriptor.node b f nextAlternate next).addAlternate block alternate
    else .node b f nextAlternate (next.alternateOf id block alternate)

/-- mirrors kernel/src/devices/USB/xHCI/Device.cpp:187-211 -/
def FunctionDescriptor.addFunction (block : Block) (function : FunctionFields) :
    FunctionDescriptor → FunctionDescriptor
  | .null => .node block function .null .null
  | .node b f interfaces next => .node b f interfaces (next.addFunction block function)

/-- The class, subclass and protocol that `GetFunction` compares. -/
def FunctionFields.Is (f : FunctionFields) (w : InterfaceWrapper) : Prop :=
  f.functionClass = w.interfaceClass ∧ f.functionSubClass = w.interfaceSubClass ∧
    f.functionProtocol = w.interfaceProtocol

instance (f : FunctionFields) (w : InterfaceWrapper) : Decidable (f.Is w) :=
  inferInstanceAs (Decidable (_ ∧ _ ∧ _))

/-- `GetFunction`: the interfaces of the function that it finds.
mirrors kernel/src/devices/USB/xHCI/Device.cpp:213-225 -/
def FunctionDescriptor.getFunction (w : InterfaceWrapper) : FunctionDescriptor → Option InterfaceDescriptor
  | .null => none
  | .node _ f interfaces next => if f.Is w then some interfaces else next.getFunction w

/-- A change to the function that `GetFunction` finds. -/
def FunctionDescriptor.modify (w : InterfaceWrapper) (g : FunctionFields → FunctionFields)
    (k : InterfaceDescriptor → InterfaceDescriptor) : FunctionDescriptor → FunctionDescriptor
  | .null => .null
  | .node b f interfaces next =>
    if f.Is w then .node b (g f) (k interfaces) next else .node b f interfaces (next.modify w g k)

/-! ## Releasing them -/

/-- mirrors kernel/src/devices/USB/xHCI/Device.cpp:105-122 -/
def InterfaceFields.release (f : InterfaceFields) : List (Event Block) :=
  List.replicate f.endpointsNumber.toNat (.touch f.endpoints) ++ [.free f.endpoints] ++
    f.extra.flatMap fun e => [.touch (some e.block), .free (some e.block)]

/-- `Heap::Free` of a pointer that is not null. -/
def InterfaceDescriptor.freed : InterfaceDescriptor → List (Event Block)
  | .null => []
  | .node b _ _ _ => [.free (some b)]

/-- mirrors kernel/src/devices/USB/xHCI/Device.cpp:98-129 -/
def InterfaceDescriptor.release : InterfaceDescriptor → List (Event Block)
  | .null => []
  | .node b f nextAlternate next =>
    .touch (some b) :: (nextAlternate.release ++ nextAlternate.freed) ++ f.release ++
      .touch (some b) :: (next.release ++ next.freed)

def FunctionDescriptor.freed : FunctionDescriptor → List (Event Block)
  | .null => []
  | .node b _ _ _ => [.free (some b)]

/-- mirrors kernel/src/devices/USB/xHCI/Device.cpp:173-185 -/
def FunctionDescriptor.release : FunctionDescriptor → List (Event Block)
  | .null => []
  | .node b _ interfaces next =>
    .touch (some b) :: (interfaces.release ++ interfaces.freed) ++ .touch (some b) :: (next.release ++ next.freed)

def FunctionDescriptor.pointer : FunctionDescriptor → Pointer
  | .null => none
  | .node b _ _ _ => some b

/-- `functions[i].Release()`: the block holds one function, behind it is something else. -/
def FunctionDescriptor.releaseAt (functions : FunctionDescriptor) : Nat → List (Event Block)
  | 0 => match functions with
    | .null => [.wild]
    | .node _ _ _ _ => functions.release
  | _ + 1 => [.wild]

/-- mirrors kernel/src/devices/USB/xHCI/Device.cpp:227-237 -/
def ConfigurationDescriptor.release (c : ConfigurationDescriptor) : List (Event Block) :=
  if c.valid then
    (List.range c.functionsNumber.toNat).flatMap c.functions.releaseAt ++ [.free c.functions.pointer]
  else []

/-- Without a function it is the null pointer that is freed.
mirrors kernel/src/devices/USB/xHCI/Device.cpp:227-237 and kernel/src/mm/Heap.cpp:470-474 -/
def ConfigurationDescriptor.reject (c : ConfigurationDescriptor) (heap : Heap) :
    Option (Option ConfigurationDescriptor × Heap) :=
  if c.functions = .null then none else some (none, heap.log c.release)

theorem ConfigurationDescriptor.reject_eq_some {c : ConfigurationDescriptor} {heap : Heap}
    {r : Option ConfigurationDescriptor × Heap} :
    c.reject heap = some r ↔ c.functions ≠ .null ∧ (none, heap.log c.release) = r := by
  simp [reject]

/-! ## The parser -/

/-- What is at `data` and behind it. -/
abbrev Memory := Nat → BitVec 8

/-- mirrors kernel/src/devices/USB/xHCI/Device.cpp:317-325 -/
def getDescriptorSize (mem : Memory) (p : Nat) : Nat := (mem p).toNat

def getDescriptorType (mem : Memory) (p : Nat) : BitVec 8 := mem (p + 1)

def word (mem : Memory) (p : Nat) : BitVec 16 := mem (p + 1) ++ mem p

/-- Length 1: the copy is of `2 ^ 64 - 1` bytes.
mirrors kernel/src/devices/USB/xHCI/Device.cpp:1284-1310 -/
def parseDeviceSpecificDescriptor (mem : Memory) (limit p : Nat) (heap : Heap) :
    Option (Option DeviceSpecificDescriptor × Nat × Heap) :=
  let next := p + getDescriptorSize mem p
  if next > limit then some (none, next, heap)
  else
    let (block, heap) := heap.allocate
    match block with
    | none => some (none, next, heap)
    | some block => if mem p = 1#8 then none else some (some ⟨block, mem p, getDescriptorType mem p⟩, next, heap)

/-- mirrors kernel/src/devices/USB/xHCI/Device.cpp:1097-1131 -/
def endpointTypeOf (bEndpointAddress bmAttributes : BitVec 8) : EndpointType :=
  let isOut := bEndpointAddress &&& 0x80#8 = 0#8
  if bmAttributes &&& 0x0F#8 = 0#8 then .controlBidirectional
  else if bmAttributes &&& 0x0F#8 = 1#8 then if isOut then .isochronousOut else .isochronousIn
  else if bmAttributes &&& 0x0F#8 = 2#8 then if isOut then .bulkOut else .bulkIn
  else if bmAttributes &&& 0x0F#8 = 3#8 then if isOut then .interruptOut else .interruptIn
  else .invalid

/-- The usage that an interrupt or isochronous endpoint declares is one of those that there are.
mirrors kernel/src/devices/USB/xHCI/Device.cpp:1152-1194 -/
def usageKnown (type : EndpointType) (bmAttributes : BitVec 8) : Bool :=
  let usage := (bmAttributes &&& 0x30#8) >>> 4
  match type with
  | .interruptIn | .interruptOut => usage = 0#8 || usage = 1#8
  | .isochronousIn | .isochronousOut => usage = 0#8 || usage = 1#8 || usage = 2#8
  | _ => true

/-- The companion descriptors: whether the endpoint is accepted, and where they end. `none`: a division
by zero.
mirrors kernel/src/devices/USB/xHCI/Device.cpp:1196-1269 -/
def parseSuperSpeed (mem : Memory) (type : EndpointType) (maxPacketSize : BitVec 16) (p : Nat) : Option (Bool × Nat) :=
  if getDescriptorType mem p ≠ 0x30#8 then some (true, p)
  else
    let next := p + getDescriptorSize mem p
    if getDescriptorSize mem p < 6 then some (false, next)
    else match type with
      | .isochronousIn | .isochronousOut =>
        if mem (p + 3) &&& 0x80#8 = 0#8 then some (true, next)
        else if getDescriptorType mem next ≠ 0x31#8 then some (false, next)
        else if getDescriptorSize mem next < 8 then some (false, next + getDescriptorSize mem next)
        else if mem (p + 2) + 1#8 ≠ 0#8 ∧ maxPacketSize = 0#16 then none
        else some (true, next)
      | _ => some (true, next)

/-- mirrors kernel/src/devices/USB/xHCI/Device.cpp:1076-1282 -/
def parseEndpointDescriptor (mem : Memory) (limit p : Nat) : Option (Option EndpointDescriptor × Nat) :=
  let next := p + getDescriptorSize mem p
  if getDescriptorSize mem p < 7 ∨ getDescriptorType mem p ≠ 5#8 ∨ p + 7 > limit then some (none, next)
  else
    let endpointAddress := mem (p + 2) &&& 0x0F#8
    let endpointType := endpointTypeOf (mem (p + 2)) (mem (p + 3))
    if endpointAddress = 0#8 then some (none, next)
    else if !usageKnown endpointType (mem (p + 3)) then some (none, next)
    else (parseSuperSpeed mem endpointType (word mem (p + 4)) next).map fun (accepted, next) =>
      (if accepted then some ⟨endpointAddress, endpointType, word mem (p + 4), mem (p + 6)⟩ else none, next)

/-- The descriptors before the next endpoint. `false`: one has no length.
mirrors kernel/src/devices/USB/xHCI/Device.cpp:1007-1037 -/
def parseExtras (mem : Memory) (limit : Nat) :
    Nat → Nat → InterfaceFields → Heap → Option (Bool × Nat × InterfaceFields × Heap)
  | 0, _, _, _ => none
  | fuel + 1, p, f, heap =>
    if getDescriptorType mem p ≠ 5#8 ∧ p < limit then
      if getDescriptorSize mem p = 0 then some (false, p, f, heap)
      else match parseDeviceSpecificDescriptor mem limit p heap with
        | none => none
        | some (extra, p, heap) => parseExtras mem limit fuel p (extra.elim f f.addExtra) heap
    else some (true, p, f, heap)

/-- The endpoints that are left, the next one with this index. `false`: one is not accepted.
mirrors kernel/src/devices/USB/xHCI/Device.cpp:1006-1065 -/
def parseEndpoints (mem : Memory) (limit fuel : Nat) :
    Nat → Nat → Nat → InterfaceFields → Heap → Option (Bool × Nat × InterfaceFields × Heap)
  | 0, _, p, f, heap => some (true, p, f, heap)
  | left + 1, index, p, f, heap =>
    if p < limit then
      match parseExtras mem limit fuel p f heap with
      | none => none
      | some (false, p, f, heap) => some (false, p, f, heap)
      | some (true, p, f, heap) =>
        match parseEndpointDescriptor mem limit p with
        | none => none
        | some (none, p) => some (false, p, f, heap)
        | some (some e, p) =>
          parseEndpoints mem limit fuel left (index + 1) p { f with contents := f.contents.set index e } heap
    else some (true, p, f, heap)

/-- The test of `endpointsNumber` is one of the pointer to it, so there is always an array. Without memory for it
`Release` frees the null pointer.
mirrors kernel/src/devices/USB/xHCI/Device.cpp:965-1074 -/
def parseInterfaceDescriptor (mem : Memory) (limit fuel p : Nat) (heap : Heap) :
    Option (Option InterfaceWrapper × Nat × Heap) :=
  let next := p + getDescriptorSize mem p
  if getDescriptorSize mem p < 9 ∨ getDescriptorType mem p ≠ 4#8 ∨ p + 9 > limit then some (none, next, heap)
  else
    let endpointsNumber := (mem (p + 4)).toNat
    let (endpoints, heap) := heap.allocate
    let fields : InterfaceFields := {
      interfaceNumber := mem (p + 2)
      alternateSetting := mem (p + 3)
      endpointsNumber := mem (p + 4)
      interfaceDescriptorIndex := mem (p + 8)
      endpoints := endpoints
      contents := List.replicate endpointsNumber EndpointDescriptor.default
      extra := [] }
    if endpoints = none then none
    else match parseEndpoints mem limit fuel endpointsNumber 0 next fields heap with
      | none => none
      | some (false, p, fields, heap) => some (none, p, heap.log fields.release)
      | some (true, next, fields, heap) => some (some ⟨mem (p + 5), mem (p + 6), mem (p + 7), fields⟩, next, heap)

/-- `AddFunction`, `none` when there is no memory.
mirrors kernel/src/devices/USB/xHCI/Device.cpp:187-211 -/
def allocateFunction (functions : FunctionDescriptor) (function : FunctionFields) (heap : Heap) :
    Option FunctionDescriptor × Heap :=
  let (block, heap) := heap.allocate
  (block.map fun block => functions.addFunction block function, heap)

/-- The function that an interface goes to, with no interface yet when it is new. -/
def functionFor (functions : FunctionDescriptor) (w : InterfaceWrapper) (heap : Heap) :
    Option FunctionDescriptor × Heap :=
  if (functions.getFunction w).isSome then (some functions, heap)
  else allocateFunction functions ⟨w.interfaceClass, w.interfaceSubClass, w.interfaceProtocol, 0#8, 0#8⟩ heap

/-- An interface is added to its function, as an alternate setting when the function has its number
already. The flag is `found_valid_interface`. Without memory it is lost.
mirrors kernel/src/devices/USB/xHCI/Device.cpp:902-947 -/
def addInterface (functions : FunctionDescriptor) (w : InterfaceWrapper) (heap : Heap) :
    FunctionDescriptor × Bool × Heap :=
  let interfaces := (functions.getFunction w).getD .null
  let (block, heap) := heap.allocate
  match block with
  | none => (functions, false, heap)
  | some block =>
    if interfaces.hasInterface w.descriptor.interfaceNumber then
      (functions.modify w id (·.alternateOf w.descriptor.interfaceNumber block w.descriptor), false, heap)
    else
      (functions.modify w (fun f => { f with interfacesNumber := f.interfacesNumber + 1#8 })
        (·.addInterface block w.descriptor), true, heap)

/-- On to the next interface. `false`: a descriptor has no length.
mirrors kernel/src/devices/USB/xHCI/Device.cpp:880-894 -/
def skipInterface (mem : Memory) (limit : Nat) : Nat → Nat → Option (Bool × Nat)
  | 0, _ => none
  | fuel + 1, p =>
    if p < limit ∧ getDescriptorType mem p ≠ 4#8 then
      if getDescriptorSize mem p = 0 then some (false, p)
      else skipInterface mem limit fuel (p + getDescriptorSize mem p)
    else some (true, p)

/-- The items of a configuration; `none` inside when it is not accepted.
mirrors kernel/src/devices/USB/xHCI/Device.cpp:801-963 -/
def parseItems (mem : Memory) (limit fuel : Nat) :
    Nat → Nat → ConfigurationDescriptor → Bool → Heap → Option (Option ConfigurationDescriptor × Heap)
  | 0, _, _, _, _ => none
  | steps + 1, p, c, found, heap =>
    if p < limit then
      if getDescriptorType mem p = 11#8 then
        let size := getDescriptorSize mem p
        if size ≥ 8 ∧ p + size ≤ limit then
          let (functions, heap) :=
            allocateFunction c.functions ⟨mem (p + 4), mem (p + 5), mem (p + 6), mem (p + 7), 0#8⟩ heap
          parseItems mem limit fuel steps (p + size) { c with functions := functions.getD c.functions } found heap
        else parseItems mem limit fuel steps (p + size) c found heap
      else if getDescriptorSize mem p = 0 then c.reject heap
      else match parseInterfaceDescriptor mem limit fuel p heap with
        | none => none
        | some (none, p, heap) => parseItems mem limit fuel steps p c found heap
        | some (some w, p, heap) =>
          match functionFor c.functions w heap with
          | (none, heap) =>
            match skipInterface mem limit fuel p with
            | none => none
            | some (false, _) => c.reject heap
            | some (true, p) => parseItems mem limit fuel steps p c found heap
          | (some functions, heap) =>
            let (functions, added, heap) := addInterface functions w heap
            parseItems mem limit fuel steps p { c with functions := functions } (found || added) heap
    else if found then some (some c, heap)
    else c.reject heap

/-- What the device and the IO heap answer: the first request, the buffer, the second request, and what
is then in memory. -/
structure RawDescriptor where
  header : Bool
  buffer : Bool
  fetched : Bool
  memory : Memory

/-- mirrors kernel/src/devices/USB/xHCI/Device.cpp:756-963 -/
def parseConfigurationDescriptor (raw : RawDescriptor) (fuel : Nat) (heap : Heap) :
    Option (Option ConfigurationDescriptor × Heap) :=
  let mem := raw.memory
  if !raw.header ∨ !raw.buffer ∨ !raw.fetched ∨ mem 4 = 0#8 then some (none, heap)
  else parseItems mem (word mem 2).toNat fuel fuel (getDescriptorSize mem 0) {
      valid := true
      interfacesNumber := mem 4
      configurationValue := mem 5
      configurationDescriptorIndex := mem 6
      selfPowered := mem 7 &&& 0x40#8 ≠ 0#8
      supportsRemoteWakeup := mem 7 &&& 0x20#8 ≠ 0#8
      maxPower := mem 8
      functionsNumber := 0#8
      functions := .null } false heap

/-- The configurations from the next one on.
mirrors kernel/src/devices/USB/xHCI/Device.cpp:729-751 -/
def parseConfigurations (fuel : Nat) : List RawDescriptor → Heap → Option (List ConfigurationDescriptor × Heap)
  | [], heap => some ([], heap)
  | raw :: raws, heap =>
    match parseConfigurationDescriptor raw fuel heap with
    | none => none
    | some (c, heap) => (parseConfigurations fuel raws heap).map fun (cs, heap) => (c.getD .default :: cs, heap)

/-! ## What a configuration owns -/

def InterfaceFields.blocks (f : InterfaceFields) : List Block := f.endpoints.toList ++ f.extra.map (·.block)

def InterfaceDescriptor.blocks : InterfaceDescriptor → List Block
  | .null => []
  | .node b f nextAlternate next => b :: f.blocks ++ nextAlternate.blocks ++ next.blocks

def FunctionDescriptor.blocks : FunctionDescriptor → List Block
  | .null => []
  | .node b _ interfaces next => b :: interfaces.blocks ++ next.blocks

section
variable {b : Block} {f : InterfaceFields} {w : InterfaceWrapper}

theorem addAlternate_blocks : ∀ i : InterfaceDescriptor, (i.addAlternate b f).blocks.Perm (b :: f.blocks ++ i.blocks)
  | .null => by simp [InterfaceDescriptor.addAlternate, InterfaceDescriptor.blocks]
  | .node b' f' nextAlternate next => by
    have ih := addAlternate_blocks nextAlternate
    simp only [InterfaceDescriptor.addAlternate, InterfaceDescriptor.blocks]
    grind

theorem addInterface_blocks : ∀ i : InterfaceDescriptor, (i.addInterface b f).blocks.Perm (b :: f.blocks ++ i.blocks)
  | .null => by simp [InterfaceDescriptor.addInterface, InterfaceDescriptor.blocks]
  | .node b' f' nextAlternate next => by
    have ih := addInterface_blocks next
    simp only [InterfaceDescriptor.addInterface, InterfaceDescriptor.blocks]
    grind

theorem alternateOf_blocks {id : BitVec 8} : ∀ i : InterfaceDescriptor, i.hasInterface id = true →
    (i.alternateOf id b f).blocks.Perm (b :: f.blocks ++ i.blocks)
  | .null, h => by cases h
  | .node b' f' nextAlternate next, h => by
    unfold InterfaceDescriptor.alternateOf
    split
    · exact addAlternate_blocks _
    · next hne =>
      have ih := alternateOf_blocks next (by simpa [InterfaceDescriptor.hasInterface, hne] using h)
      simp only [InterfaceDescriptor.blocks]
      grind

theorem addFunction_blocks {function : FunctionFields} : ∀ fs : FunctionDescriptor,
    (fs.addFunction b function).blocks.Perm (b :: fs.blocks)
  | .null => by simp [FunctionDescriptor.addFunction, FunctionDescriptor.blocks, InterfaceDescriptor.blocks]
  | .node b' f' interfaces next => by
    have ih : (next.addFunction b function).blocks.Perm (b :: next.blocks) := addFunction_blocks next
    simp only [FunctionDescriptor.addFunction, FunctionDescriptor.blocks]
    grind

theorem getFunction_addFunction {function : FunctionFields} (his : function.Is w) : ∀ fs : FunctionDescriptor,
    fs.getFunction w = none → (fs.addFunction b function).getFunction w = some .null
  | .null, _ => by simp [FunctionDescriptor.addFunction, FunctionDescriptor.getFunction, his]
  | .node b' f' interfaces next, h => by
    unfold FunctionDescriptor.getFunction at h
    split at h
    · cases h
    · next hne =>
      simp only [FunctionDescriptor.addFunction, FunctionDescriptor.getFunction, if_neg hne]
      exact getFunction_addFunction his next h

/-- What is added to the interfaces of the function that is found is added to the functions. -/
theorem modify_blocks {g : FunctionFields → FunctionFields} {k : InterfaceDescriptor → InterfaceDescriptor}
    {added : List Block} {interfaces : InterfaceDescriptor} (hk : (k interfaces).blocks.Perm (added ++ interfaces.blocks)) :
    ∀ fs : FunctionDescriptor, fs.getFunction w = some interfaces →
      (fs.modify w g k).blocks.Perm (added ++ fs.blocks)
  | .null, h => by cases h
  | .node b' f' interfaces' next, h => by
    unfold FunctionDescriptor.getFunction at h
    unfold FunctionDescriptor.modify
    split
    · next his =>
      rw [if_pos his, Option.some.injEq] at h
      subst h
      simp only [FunctionDescriptor.blocks]
      grind
    · next hne =>
      rw [if_neg hne] at h
      have ih := modify_blocks (g := g) hk next h
      simp only [FunctionDescriptor.blocks]
      grind

end

/-- Distinct blocks of the allocations from `lo` to `hi`. -/
def Owned (lo hi : Nat) (blocks : List Block) : Prop :=
  blocks.Nodup ∧ ∀ b ∈ blocks, lo ≤ b.number ∧ b.number < hi

section
variable {lo mid hi hi' : Nat} {blocks blocks' : List Block}

theorem Owned.nil : Owned lo hi [] := ⟨List.nodup_nil, fun _ h => by cases h⟩

theorem Owned.mono (h : Owned lo hi blocks) (hle : hi ≤ hi') : Owned lo hi' blocks :=
  ⟨h.1, fun b hb => ⟨(h.2 b hb).1, Nat.lt_of_lt_of_le (h.2 b hb).2 hle⟩⟩

theorem Owned.perm (h : Owned lo hi blocks) (hp : blocks'.Perm blocks) : Owned lo hi blocks' :=
  ⟨hp.nodup_iff.mpr h.1, fun b hb => h.2 b (hp.mem_iff.mp hb)⟩

theorem Owned.sublist (h : Owned lo hi blocks) (hs : blocks'.Sublist blocks) : Owned lo hi blocks' :=
  ⟨h.1.sublist hs, fun b hb => h.2 b (hs.subset hb)⟩

theorem Owned.append (h : Owned lo mid blocks) (h' : Owned mid hi blocks') (hlo : lo ≤ mid) (hhi : mid ≤ hi) :
    Owned lo hi (blocks ++ blocks') := by
  refine ⟨List.nodup_append.mpr ⟨h.1, h'.1, fun a ha b hb hab => ?_⟩, fun b hb => ?_⟩
  · have hold := h.2 a ha
    have hnew := h'.2 b hb
    rw [hab] at hold
    omega
  · rcases List.mem_append.mp hb with hb | hb
    · have := h.2 b hb
      omega
    · have := h'.2 b hb
      omega

theorem Owned.single (b : Block) : Owned b.number (b.number + 1) [b] := by
  refine ⟨List.nodup_cons.mpr ⟨List.not_mem_nil, List.nodup_nil⟩, fun b' hb => ?_⟩
  rw [List.mem_singleton.mp hb]
  omega

/-- The next allocation. -/
theorem Owned.cons (h : Owned lo hi blocks) (hlo : lo ≤ hi) : Owned lo (hi + 1) (.heap hi :: blocks) :=
  (h.append (Owned.single (.heap hi)) hlo (Nat.le_succ hi)).perm (List.perm_append_singleton _ _).symm

end

/-- An allocation: nothing, or a block of its own. -/
theorem allocate_cases (heap : Heap) : heap.allocate.2.allocated = heap.allocated + 1 ∧
    (heap.allocate.1 = none ∨ heap.allocate.1 = some (.heap heap.allocated)) := by
  refine ⟨rfl, ?_⟩
  unfold Heap.allocate
  cases heap.available heap.allocated with
  | true => exact .inr rfl
  | false => exact .inl rfl

theorem allocate_refused {heap : Heap} (h : heap.allocate.1 = none) : heap.available heap.allocated = false :=
  Bool.of_not_eq_true fun havailable => by
    rw [Heap.allocate, if_pos havailable] at h
    cases h

theorem allocate_owned (heap : Heap) : Owned heap.allocated heap.allocate.2.allocated [.heap heap.allocated] :=
  Owned.single (.heap _)

section
variable {mem : Memory} {limit fuel p p' lo : Nat} {heap heap' : Heap}

theorem parseDeviceSpecificDescriptor_owned {extra : Option DeviceSpecificDescriptor}
    (h : parseDeviceSpecificDescriptor mem limit p heap = some (extra, p', heap')) :
    heap.allocated ≤ heap'.allocated ∧ ∀ e ∈ extra, Owned heap.allocated heap'.allocated [e.block] := by
  obtain ⟨hcount, hblock⟩ := allocate_cases heap
  unfold parseDeviceSpecificDescriptor at h
  simp only at h
  split at h
  · cases h
    exact ⟨Nat.le_refl _, fun e he => by cases he⟩
  split at h
  · cases h
    exact ⟨by omega, fun e he => by cases he⟩
  · next block hsome =>
    split at h
    · cases h
    · cases h
      have hown := (hblock.resolve_left (by rw [hsome]; exact fun h => by cases h)).symm.trans hsome
      refine ⟨by omega, fun e he => ?_⟩
      cases he
      rw [hcount, ← Option.some.inj hown]
      exact Owned.single (.heap _)

theorem addExtra_blocks (f : InterfaceFields) (e : DeviceSpecificDescriptor) :
    (f.addExtra e).blocks = f.blocks ++ [e.block] := by
  simp [InterfaceFields.addExtra, InterfaceFields.blocks]

theorem parseExtras_owned : ∀ (fuel : Nat) {p p' : Nat} {f f' : InterfaceFields} {heap heap' : Heap} {ok : Bool},
    Owned lo heap.allocated f.blocks → lo ≤ heap.allocated →
    parseExtras mem limit fuel p f heap = some (ok, p', f', heap') →
    heap.allocated ≤ heap'.allocated ∧ Owned lo heap'.allocated f'.blocks
  | 0, _, _, _, _, _, _, _, _, _, h => by cases h
  | fuel + 1, p, p', f, f', heap, heap', ok, hf, hlo, h => by
    unfold parseExtras at h
    split at h
    · split at h
      · cases h
        exact ⟨Nat.le_refl _, hf⟩
      · cases hparse : parseDeviceSpecificDescriptor mem limit p heap with
        | none =>
          rw [hparse] at h
          cases h
        | some r =>
          obtain ⟨extra, p₁, heap₁⟩ := r
          rw [hparse] at h
          obtain ⟨hle, hextra⟩ := parseDeviceSpecificDescriptor_owned hparse
          have hf₁ : Owned lo heap₁.allocated (extra.elim f f.addExtra).blocks := by
            cases extra with
            | none => exact hf.mono hle
            | some e =>
              rw [Option.elim_some, addExtra_blocks]
              exact hf.append (hextra e rfl) hlo hle
          obtain ⟨hle', hf'⟩ := parseExtras_owned fuel hf₁ (by omega) h
          exact ⟨by omega, hf'⟩
    · cases h
      exact ⟨Nat.le_refl _, hf⟩

theorem parseEndpoints_owned : ∀ (left : Nat) {index p p' : Nat} {f f' : InterfaceFields} {heap heap' : Heap} {ok : Bool},
    Owned lo heap.allocated f.blocks → lo ≤ heap.allocated →
    parseEndpoints mem limit fuel left index p f heap = some (ok, p', f', heap') →
    heap.allocated ≤ heap'.allocated ∧ Owned lo heap'.allocated f'.blocks
  | 0, _, _, _, _, _, _, _, _, hf, _, h => by
    cases h
    exact ⟨Nat.le_refl _, hf⟩
  | left + 1, index, p, p', f, f', heap, heap', ok, hf, hlo, h => by
    unfold parseEndpoints at h
    split at h
    · cases hextras : parseExtras mem limit fuel p f heap with
      | none =>
        rw [hextras] at h
        cases h
      | some r =>
        obtain ⟨ok₁, p₁, f₁, heap₁⟩ := r
        rw [hextras] at h
        obtain ⟨hle, hf₁⟩ := parseExtras_owned fuel hf hlo hextras
        cases ok₁ with
        | false =>
          cases h
          exact ⟨hle, hf₁⟩
        | true =>
          simp only at h
          split at h
          · cases h
          · cases h
            exact ⟨hle, hf₁⟩
          · obtain ⟨hle', hf'⟩ := parseEndpoints_owned left (by exact hf₁) (by omega) h
            exact ⟨by omega, hf'⟩
    · cases h
      exact ⟨Nat.le_refl _, hf⟩

/-- The blocks of an interface are those that its parser has allocated. -/
theorem parseInterfaceDescriptor_owned {w : Option InterfaceWrapper}
    (h : parseInterfaceDescriptor mem limit fuel p heap = some (w, p', heap')) :
    heap.allocated ≤ heap'.allocated ∧ ∀ w' ∈ w, Owned heap.allocated heap'.allocated w'.descriptor.blocks := by
  obtain ⟨hcount, hblock⟩ := allocate_cases heap
  unfold parseInterfaceDescriptor at h
  simp only at h
  split at h
  · cases h
    exact ⟨Nat.le_refl _, fun w' hw => by cases hw⟩
  split at h
  · cases h
  next hsome =>
  have hendpoints := hblock.resolve_left hsome
  have hfields : Owned heap.allocated heap.allocate.2.allocated (heap.allocate.1.toList ++
      ([] : List DeviceSpecificDescriptor).map (·.block)) := by
    rw [hendpoints]
    exact allocate_owned heap
  split at h
  · cases h
  · next hparse =>
    cases h
    obtain ⟨hle, -⟩ := parseEndpoints_owned _ hfields (by omega) hparse
    exact ⟨Nat.le_trans (by omega) hle, fun w' hw => by cases hw⟩
  · next hparse =>
    cases h
    obtain ⟨hle, hf⟩ := parseEndpoints_owned _ hfields (by omega) hparse
    refine ⟨Nat.le_trans (by omega) hle, fun w' hw => ?_⟩
    cases hw
    exact hf

/-- A configuration while its items are parsed: what it owns, and the interface that is not yet placed
(`pending`), was allocated since `lo`; when an interface was found there is more than a function. -/
structure Built (lo : Nat) (heap : Heap) (pending : List Block) (c : ConfigurationDescriptor) (found : Bool) : Prop where
  lower : lo ≤ heap.allocated
  owned : Owned lo heap.allocated (pending ++ c.functions.blocks)
  interface : found = true → 2 ≤ c.functions.blocks.length
  valid : c.valid = true
  functionsNumber : c.functionsNumber = 0#8

variable {c c' : ConfigurationDescriptor} {found : Bool} {w : InterfaceWrapper} {pending : List Block}

theorem Built.mono (h : Built lo heap pending c found) (hle : heap.allocated ≤ heap'.allocated) :
    Built lo heap' pending c found :=
  ⟨Nat.le_trans h.lower hle, h.owned.mono hle, h.interface, h.valid, h.functionsNumber⟩

/-- The interface is lost. -/
theorem Built.drop (h : Built lo heap pending c found) : Built lo heap [] c found :=
  ⟨h.lower, ⟨(List.nodup_append.mp h.owned.1).2.1, fun b hb => h.owned.2 b (List.mem_append_right _ hb)⟩, h.interface,
    h.valid, h.functionsNumber⟩

theorem Built.parsed (h : Built lo heap [] c found) (hle : heap.allocated ≤ heap'.allocated)
    (hw : Owned heap.allocated heap'.allocated w.descriptor.blocks) : Built lo heap' w.descriptor.blocks c found :=
  ⟨Nat.le_trans h.lower hle, (h.owned.append hw h.lower hle).perm List.perm_append_comm, h.interface, h.valid,
    h.functionsNumber⟩

/-- A block was allocated for something that is added to the functions. -/
theorem Built.allocated (h : Built lo heap pending c found) {functions : FunctionDescriptor} {left : List Block}
    {found' : Bool} (hp : (left ++ functions.blocks).Perm (.heap heap.allocated :: (pending ++ c.functions.blocks)))
    (hgrown : c.functions.blocks.length < functions.blocks.length)
    (hfound : found' = true → found = true ∨ 0 < c.functions.blocks.length) :
    Built lo heap.allocate.2 left { c with functions := functions } found' := by
  refine ⟨Nat.le_succ_of_le h.lower, (h.owned.cons h.lower).perm hp, fun hf => ?_, h.valid, h.functionsNumber⟩
  rcases hfound hf with hf | hf
  · have hold := h.interface hf
    simp only
    omega
  · simp only
    omega

/-- `AddFunction` -/
theorem Built.allocateFunction (h : Built lo heap pending c found) (function : FunctionFields) :
    Built lo (allocateFunction c.functions function heap).2 pending
      { c with functions := (allocateFunction c.functions function heap).1.getD c.functions } found := by
  unfold Configuration.allocateFunction
  simp only
  rcases (allocate_cases heap).2 with hnone | hsome
  · rw [hnone, Option.map_none, Option.getD_none]
    exact h.mono (Nat.le_succ _)
  · have hp : (c.functions.addFunction (.heap heap.allocated) function).blocks.Perm
        (.heap heap.allocated :: c.functions.blocks) := addFunction_blocks _
    have hlength := hp.length_eq
    rw [List.length_cons] at hlength
    rw [hsome, Option.map_some, Option.getD_some]
    exact h.allocated ((hp.append_left pending).trans List.perm_middle) (by omega) .inl

theorem Built.functionFor (h : Built lo heap pending c found) {functions : Option FunctionDescriptor}
    (hf : functionFor c.functions w heap = (functions, heap')) :
    heap.allocated ≤ heap'.allocated ∧ ∀ fs ∈ functions, Built lo heap' pending { c with functions := fs } found ∧
      ∃ interfaces, fs.getFunction w = some interfaces := by
  unfold Configuration.functionFor at hf
  split at hf
  · next hsome =>
    cases hf
    refine ⟨Nat.le_refl _, fun fs hfs => ?_⟩
    cases hfs
    exact ⟨h, Option.isSome_iff_exists.mp hsome⟩
  · next hnone =>
    have hbuilt := h.allocateFunction ⟨w.interfaceClass, w.interfaceSubClass, w.interfaceProtocol, 0#8, 0#8⟩
    rw [hf] at hbuilt
    obtain ⟨hfunctions, hheap⟩ := Prod.mk.inj hf
    refine ⟨by rw [← hheap]; exact Nat.le_succ _, fun fs hfs => ?_⟩
    cases hfs
    obtain ⟨block, -, rfl⟩ := Option.map_eq_some_iff.mp hfunctions
    exact ⟨hbuilt, .null, getFunction_addFunction ⟨rfl, rfl, rfl⟩ _ (by simpa using hnone)⟩

theorem getFunction_pos {interfaces : InterfaceDescriptor} : ∀ fs : FunctionDescriptor,
    fs.getFunction w = some interfaces → 0 < fs.blocks.length
  | .null, h => by cases h
  | .node _ _ _ _, _ => by simp [FunctionDescriptor.blocks]

/-- The interface goes into the list of its function. -/
theorem Built.placed (h : Built lo heap w.descriptor.blocks c found) {interfaces : InterfaceDescriptor}
    (hfunction : c.functions.getFunction w = some interfaces) (g : FunctionFields → FunctionFields)
    {k : InterfaceDescriptor → InterfaceDescriptor}
    (hk : (k interfaces).blocks.Perm (.heap heap.allocated :: w.descriptor.blocks ++ interfaces.blocks)) (found' : Bool) :
    Built lo heap.allocate.2 [] { c with functions := c.functions.modify w g k } found' := by
  have hp : (c.functions.modify w g k).blocks.Perm (.heap heap.allocated :: w.descriptor.blocks ++ c.functions.blocks) :=
    modify_blocks hk c.functions hfunction
  have hlength := hp.length_eq
  rw [List.length_append, List.length_cons] at hlength
  exact h.allocated hp (by omega) fun _ => .inr (getFunction_pos c.functions hfunction)

/-- The interface goes to a function that there is, or is lost. -/
theorem Built.addInterface (h : Built lo heap w.descriptor.blocks c found) {interfaces : InterfaceDescriptor}
    (hfunction : c.functions.getFunction w = some interfaces) :
    Built lo (addInterface c.functions w heap).2.2 [] { c with functions := (addInterface c.functions w heap).1 }
      (found || (addInterface c.functions w heap).2.1) := by
  unfold Configuration.addInterface
  rw [hfunction, Option.getD_some]
  simp only
  rcases (allocate_cases heap).2 with hnone | hsome
  · rw [hnone]
    simp only [Bool.or_false]
    exact h.drop.mono (Nat.le_succ _)
  · rw [hsome]
    simp only
    split
    · next hhas => exact h.placed hfunction _ (alternateOf_blocks _ hhas) _
    · exact h.placed hfunction _ (addInterface_blocks _) _

theorem parseItems_built : ∀ (steps : Nat) {p : Nat} {c : ConfigurationDescriptor} {found : Bool} {heap heap' : Heap}
    {r : Option ConfigurationDescriptor}, Built lo heap [] c found →
    parseItems mem limit fuel steps p c found heap = some (r, heap') →
    lo ≤ heap'.allocated ∧ ∀ c' ∈ r, Built lo heap' [] c' true
  | 0, _, _, _, _, _, _, _, h => by cases h
  | steps + 1, p, c, found, heap, heap', r, hc, h => by
    unfold parseItems at h
    split at h
    · split at h
      · simp only at h
        split at h
        · exact parseItems_built steps (hc.allocateFunction _) h
        · exact parseItems_built steps hc h
      split at h
      · obtain ⟨-, hr⟩ := ConfigurationDescriptor.reject_eq_some.mp h
        cases hr
        exact ⟨hc.lower, fun c' hc' => by cases hc'⟩
      split at h
      · cases h
      · next hparse =>
        obtain ⟨hle, -⟩ := parseInterfaceDescriptor_owned hparse
        exact parseItems_built steps (hc.mono hle) h
      · next w p₁ heap₁ hparse =>
        obtain ⟨hle, hw⟩ := parseInterfaceDescriptor_owned hparse
        have hparsed := hc.parsed hle (hw w rfl)
        split at h
        · next heap₂ hfunction =>
          obtain ⟨hle₂, -⟩ := hparsed.functionFor hfunction
          have hkept := (hparsed.mono hle₂).drop
          split at h
          · cases h
          · obtain ⟨-, hr⟩ := ConfigurationDescriptor.reject_eq_some.mp h
            cases hr
            exact ⟨hkept.lower, fun c' hc' => by cases hc'⟩
          · exact parseItems_built steps hkept h
        · next functions heap₂ hfunction =>
          obtain ⟨-, hfs⟩ := hparsed.functionFor hfunction
          obtain ⟨hbuilt, interfaces, hget⟩ := hfs functions rfl
          exact parseItems_built steps (hbuilt.addInterface hget) h
    split at h
    · next hfound =>
      cases h
      refine ⟨hc.lower, fun c' hc' => ?_⟩
      cases hc'
      rw [← hfound]
      exact hc
    · obtain ⟨-, hr⟩ := ConfigurationDescriptor.reject_eq_some.mp h
      cases hr
      exact ⟨hc.lower, fun c' hc' => by cases hc'⟩

/-- An accepted configuration owns distinct blocks, which its parser has allocated, and more than one. -/
theorem parseConfigurationDescriptor_built {raw : RawDescriptor} {r : Option ConfigurationDescriptor}
    (h : parseConfigurationDescriptor raw fuel heap = some (r, heap')) :
    heap.allocated ≤ heap'.allocated ∧ ∀ c ∈ r, Built heap.allocated heap' [] c true := by
  unfold parseConfigurationDescriptor at h
  simp only at h
  split at h
  · cases h
    exact ⟨Nat.le_refl _, fun c hc => by cases hc⟩
  · exact parseItems_built fuel ⟨Nat.le_refl _, Owned.nil, (fun hf => by cases hf), rfl, rfl⟩ h

/-- A configuration as the parser leaves it: accepted with more than a function, or empty. -/
def ConfigurationDescriptor.Parsed (c : ConfigurationDescriptor) : Prop :=
  (c.valid = true ∧ c.functionsNumber = 0#8 ∧ 2 ≤ c.functions.blocks.length) ∨ (c.valid = false ∧ c.functions = .null)

theorem parseConfigurations_owned : ∀ {raws : List RawDescriptor} {heap heap' : Heap} {cs : List ConfigurationDescriptor},
    parseConfigurations fuel raws heap = some (cs, heap') → heap.allocated ≤ heap'.allocated ∧
      Owned heap.allocated heap'.allocated (cs.flatMap (·.functions.blocks)) ∧ ∀ c ∈ cs, c.Parsed
  | [], _, _, _, h => by
    cases h
    exact ⟨Nat.le_refl _, Owned.nil, fun c hc => by cases hc⟩
  | raw :: raws, heap, heap', cs, h => by
    unfold parseConfigurations at h
    split at h
    · cases h
    · next r heap₁ hparse =>
      obtain ⟨⟨cs₁, heap₂⟩, hrest, hcs⟩ := Option.map_eq_some_iff.mp h
      cases hcs
      obtain ⟨hle, hbuilt⟩ := parseConfigurationDescriptor_built hparse
      obtain ⟨hle', howned, hparsed⟩ := parseConfigurations_owned hrest
      have hfirst : Owned heap.allocated heap₁.allocated (r.getD .default).functions.blocks ∧ (r.getD .default).Parsed := by
        cases r with
        | none => exact ⟨Owned.nil, .inr ⟨rfl, rfl⟩⟩
        | some c =>
          have hc := hbuilt c rfl
          exact ⟨hc.owned, .inl ⟨hc.valid, hc.functionsNumber, hc.interface rfl⟩⟩
      refine ⟨Nat.le_trans hle hle', ?_, fun c hc => ?_⟩
      · rw [List.flatMap_cons]
        exact hfirst.1.append howned hle hle'
      · rcases List.mem_cons.mp hc with rfl | hc
        · exact hfirst.2
        · exact hparsed c hc

end

end BadLands.Usb.Configuration
