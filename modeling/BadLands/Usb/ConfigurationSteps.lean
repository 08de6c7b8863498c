import BadLands.Core.Halting
import BadLands.Usb.Configuration

/-!
# Configuration parsing, step by step

The loops of the parser as one machine: a step is one turn of one of them, and the point that it is
at holds the place in the descriptor and what was built so far. `parse_run` ties it to the parser of
`Configuration`.

An interface association is skipped by its length before the length is looked at, and its loop does
not end when that is zero. The other loops do look. Three more ways not to come back are left: a copy
of `2 ^ 64 - 1` bytes, for a descriptor of length one; a division by a packet size of zero; and a
release that frees the null pointer, of an interface without memory for its endpoints or of a
configuration without a function.

* `step_less`: every other step makes what is left of the descriptor smaller, or goes on in the code.
* `parsing_halts_iff`: the parser comes back exactly when it meets none of them.
-/
namespace BadLands.Usb.Configuration

open BadLands.Core BadLands.Core.Disposal BadLands.Core.Halting

/-! ## Points -/

/-- The variables of `ParseConfigurationDescriptor`. -/
structure Outer where
  configuration : ConfigurationDescriptor
  found : Bool
  heap : Heap

/-- The variables of `ParseInterfaceDescriptor`: where the interface is, how many endpoints are to come, and the
index of the next one. -/
structure Inner where
  position : Nat
  left : Nat
  index : Nat
  fields : InterfaceFields

/-- Before the loop over the items; at the tests of the four loops; before an endpoint; and behind the end. -/
inductive Point where
  | start (heap : Heap)
  | items (p : Nat) (o : Outer)
  | endpoints (i : Inner) (p : Nat) (o : Outer)
  | extras (i : Inner) (p : Nat) (o : Outer)
  | endpoint (i : Inner) (p : Nat) (o : Outer)
  | skip (p : Nat) (o : Outer)
  | returned (result : Option ConfigurationDescriptor) (heap : Heap)

def RawDescriptor.limit (raw : RawDescriptor) : Nat := (word raw.memory 2).toNat

/-- An interface that is not accepted is released. -/
def dropInterface (i : Inner) (p : Nat) (o : Outer) : Point := .items p { o with heap := o.heap.log i.fields.release }

/-- The configuration is released, at this point, which is not left without a function. -/
def rejectAll (σ : Point) (o : Outer) : Point :=
  (o.configuration.reject o.heap).elim σ fun r => .returned r.1 r.2

/-- Without memory for the endpoints the release does not come back, and the item stays.
mirrors kernel/src/devices/USB/xHCI/Device.cpp:965-1003 -/
def enterInterface (mem : Memory) (limit p : Nat) (o : Outer) : Point :=
  let next := p + getDescriptorSize mem p
  if getDescriptorSize mem p < 9 ∨ getDescriptorType mem p ≠ 4#8 ∨ p + 9 > limit then .items next o
  else
    let endpointsNumber := (mem (p + 4)).toNat
    let (endpoints, heap) := o.heap.allocate
    let i : Inner := ⟨p, endpointsNumber, 0, {
      interfaceNumber := mem (p + 2)
      alternateSetting := mem (p + 3)
      endpointsNumber := mem (p + 4)
      interfaceDescriptorIndex := mem (p + 8)
      endpoints := endpoints
      contents := List.replicate endpointsNumber EndpointDescriptor.default
      extra := [] }⟩
    if endpoints = none then .items p o else .endpoints i next { o with heap := heap }

/-- mirrors kernel/src/devices/USB/xHCI/Device.cpp:853-947 -/
def useInterface (w : InterfaceWrapper) (p : Nat) (o : Outer) : Point :=
  match functionFor o.configuration.functions w o.heap with
  | (none, heap) => .skip p { o with heap := heap }
  | (some functions, heap) =>
    let (functions, added, heap) := addInterface functions w heap
    .items p ⟨{ o.configuration with functions := functions }, o.found || added, heap⟩

/-- mirrors kernel/src/devices/USB/xHCI/Device.cpp:1067-1073 -/
def leaveInterface (mem : Memory) (i : Inner) (p : Nat) (o : Outer) : Point :=
  useInterface ⟨mem (i.position + 5), mem (i.position + 6), mem (i.position + 7), i.fields⟩ p o

/-- One turn. A point that the code does not leave stays.
mirrors kernel/src/devices/USB/xHCI/Device.cpp:756-1310 -/
def step (raw : RawDescriptor) : Point → Point
  | .start heap =>
    let mem := raw.memory
    if !raw.header ∨ !raw.buffer ∨ !raw.fetched ∨ mem 4 = 0#8 then .returned none heap
    else .items (getDescriptorSize mem 0) ⟨{
      valid := true
      interfacesNumber := mem 4
      configurationValue := mem 5
      configurationDescriptorIndex := mem 6
      selfPowered := mem 7 &&& 0x40#8 ≠ 0#8
      supportsRemoteWakeup := mem 7 &&& 0x20#8 ≠ 0#8
      maxPower := mem 8
      functionsNumber := 0#8
      functions := .null }, false, heap⟩
  | .items p o =>
    let mem := raw.memory
    if p < raw.limit then
      if getDescriptorType mem p = 11#8 then
        let size := getDescriptorSize mem p
        if size ≥ 8 ∧ p + size ≤ raw.limit then
          let (functions, heap) := allocateFunction o.configuration.functions
            ⟨mem (p + 4), mem (p + 5), mem (p + 6), mem (p + 7), 0#8⟩ o.heap
          .items (p + size) ⟨{ o.configuration with functions := functions.getD o.configuration.functions }, o.found, heap⟩
        else .items (p + size) o
      else if getDescriptorSize mem p = 0 then rejectAll (.items p o) o
      else enterInterface mem raw.limit p o
    else if o.found then .returned (some o.configuration) o.heap
    else rejectAll (.items p o) o
  | .endpoints i p o =>
    if i.left ≠ 0 ∧ p < raw.limit then .extras i p o else leaveInterface raw.memory i p o
  | .extras i p o =>
    if getDescriptorType raw.memory p ≠ 5#8 ∧ p < raw.limit then
      if getDescriptorSize raw.memory p = 0 then dropInterface i p o
      else match parseDeviceSpecificDescriptor raw.memory raw.limit p o.heap with
        | none => .extras i p o
        | some (extra, p, heap) =>
          .extras { i with fields := extra.elim i.fields i.fields.addExtra } p { o with heap := heap }
    else .endpoint i p o
  | .endpoint i p o =>
    match parseEndpointDescriptor raw.memory raw.limit p with
    | none => .endpoint i p o
    | some (none, p) => dropInterface i p o
    | some (some e, p) => .endpoints { i with
        left := i.left - 1
        index := i.index + 1
        fields := { i.fields with contents := i.fields.contents.set i.index e } } p o
  | .skip p o =>
    if p < raw.limit ∧ getDescriptorType raw.memory p ≠ 4#8 then
      if getDescriptorSize raw.memory p = 0 then rejectAll (.skip p o) o
      else .skip (p + getDescriptorSize raw.memory p) o
    else .items p o
  | .returned result heap => .returned result heap

/-! ## Where it does not come back -/

/-- The companions of an isochronous endpoint lead to a division by its packet size, which is zero. -/
structure ZeroPacket (mem : Memory) (limit p : Nat) : Prop where
  header : 7 ≤ getDescriptorSize mem p ∧ getDescriptorType mem p = 5#8 ∧ p + 7 ≤ limit
  address : mem (p + 2) &&& 0x0F#8 ≠ 0#8
  usage : usageKnown (endpointTypeOf (mem (p + 2)) (mem (p + 3))) (mem (p + 3)) = true
  isochronous : endpointTypeOf (mem (p + 2)) (mem (p + 3)) = .isochronousIn ∨
    endpointTypeOf (mem (p + 2)) (mem (p + 3)) = .isochronousOut
  companion : getDescriptorType mem (p + getDescriptorSize mem p) = 0x30#8 ∧
    6 ≤ getDescriptorSize mem (p + getDescriptorSize mem p)
  ssp : mem (p + getDescriptorSize mem p + 3) &&& 0x80#8 ≠ 0#8
  plus : getDescriptorType mem (p + getDescriptorSize mem p + getDescriptorSize mem (p + getDescriptorSize mem p)) = 0x31#8 ∧
    8 ≤ getDescriptorSize mem (p + getDescriptorSize mem p + getDescriptorSize mem (p + getDescriptorSize mem p))
  burst : mem (p + getDescriptorSize mem p + 2) + 1#8 ≠ 0#8
  packet : word mem (p + 4) = 0#16

/-- An interface whose endpoints there is no memory for. -/
structure NoArray (mem : Memory) (limit p : Nat) (heap : Heap) : Prop where
  header : 9 ≤ getDescriptorSize mem p ∧ getDescriptorType mem p = 4#8 ∧ p + 9 ≤ limit
  refused : heap.available heap.allocated = false

/-- In the loop over the items: an interface association of no length, an interface without its array, and a
configuration without a function that is rejected, for a length of zero or since it has no interface. -/
inductive StuckItem (mem : Memory) (limit p : Nat) (o : Outer) : Prop where
  | association (inside : p < limit) (type : getDescriptorType mem p = 11#8) (size : getDescriptorSize mem p = 0)
  | array (refused : NoArray mem limit p o.heap)
  | noLength (inside : p < limit) (type : getDescriptorType mem p ≠ 11#8) (size : getDescriptorSize mem p = 0)
      (functions : o.configuration.functions = .null)
  | noInterface (outside : limit ≤ p) (found : o.found = false) (functions : o.configuration.functions = .null)

/-- A place of the loop over the items; a descriptor of length one that there is memory for; a packet size of zero;
a configuration without a function that is rejected where an interface is skipped. -/
def Stuck (raw : RawDescriptor) : Point → Prop
  | .items p o => StuckItem raw.memory raw.limit p o
  | .extras _ p o => getDescriptorType raw.memory p ≠ 5#8 ∧ p < raw.limit ∧ getDescriptorSize raw.memory p = 1 ∧
      o.heap.available o.heap.allocated = true
  | .endpoint _ p _ => ZeroPacket raw.memory raw.limit p
  | .skip p o => (p < raw.limit ∧ getDescriptorType raw.memory p ≠ 4#8) ∧ getDescriptorSize raw.memory p = 0 ∧
      o.configuration.functions = .null
  | _ => False

def Point.Returned : Point → Prop
  | .returned _ _ => True
  | _ => False

/-! ## The places -/

section
variable {raw : RawDescriptor} {mem : Memory} {limit p : Nat} {o : Outer} {i : Inner} {heap : Heap}

/-- A descriptor that is skipped or copied ends where its length says, unless the copy does not end. -/
theorem parseDeviceSpecific_cases (mem : Memory) (limit p : Nat) (heap : Heap) :
    (parseDeviceSpecificDescriptor mem limit p heap = none ∧ getDescriptorSize mem p = 1 ∧
      heap.available heap.allocated = true) ∨
    ∃ extra heap', parseDeviceSpecificDescriptor mem limit p heap = some (extra, p + getDescriptorSize mem p, heap') := by
  unfold parseDeviceSpecificDescriptor
  dsimp only
  split
  · exact .inr ⟨_, _, rfl⟩
  · unfold Heap.allocate
    split
    · exact .inr ⟨_, _, rfl⟩
    · next block hblock =>
      split
      · next hone =>
        refine .inl ⟨rfl, by rw [getDescriptorSize, hone]; rfl, ?_⟩
        by_contra hnone
        dsimp only at hblock
        rw [if_neg hnone] at hblock
        cases hblock
      · exact .inr ⟨_, _, rfl⟩

theorem parseDeviceSpecific_one (hp : p < limit) (hone : getDescriptorSize mem p = 1)
    (havailable : heap.available heap.allocated = true) : parseDeviceSpecificDescriptor mem limit p heap = none := by
  have hbyte : mem p = 1#8 := BitVec.eq_of_toNat_eq hone
  unfold parseDeviceSpecificDescriptor Heap.allocate
  dsimp only
  rw [if_neg (by omega), havailable, if_pos rfl]
  dsimp only
  rw [if_pos hbyte]

theorem superSpeed_none (mem : Memory) (type : EndpointType) (maxPacketSize : BitVec 16) (p : Nat) :
    parseSuperSpeed mem type maxPacketSize p = none ↔
      getDescriptorType mem p = 0x30#8 ∧ 6 ≤ getDescriptorSize mem p ∧ (type = .isochronousIn ∨ type = .isochronousOut) ∧
      mem (p + 3) &&& 0x80#8 ≠ 0#8 ∧ getDescriptorType mem (p + getDescriptorSize mem p) = 0x31#8 ∧
      8 ≤ getDescriptorSize mem (p + getDescriptorSize mem p) ∧ mem (p + 2) + 1#8 ≠ 0#8 ∧ maxPacketSize = 0#16 := by
  unfold parseSuperSpeed
  cases type <;> grind

theorem superSpeed_le {type : EndpointType} {maxPacketSize : BitVec 16} {accepted : Bool} {next : Nat}
    (h : parseSuperSpeed mem type maxPacketSize p = some (accepted, next)) : p ≤ next := by
  unfold parseSuperSpeed at h
  cases type <;> grind

/-- `CheckDescriptor`, and the end of the descriptor before the limit. -/
theorem header_checked {minimum : Nat} {type : BitVec 8} :
    ¬ (getDescriptorSize mem p < minimum ∨ getDescriptorType mem p ≠ type ∨ p + minimum > limit) ↔
      minimum ≤ getDescriptorSize mem p ∧ getDescriptorType mem p = type ∧ p + minimum ≤ limit := by
  rw [not_or, not_or, Nat.not_lt, not_not, Nat.not_lt]

theorem parseEndpoint_none : parseEndpointDescriptor mem limit p = none ↔ ZeroPacket mem limit p := by
  unfold parseEndpointDescriptor
  dsimp only
  split
  · next hheader =>
    refine ⟨fun h => (by cases h), fun h => ?_⟩
    obtain ⟨hsize, htype, hlimit⟩ := h.header
    rcases hheader with hless | hother | hover
    · omega
    · exact absurd htype hother
    · omega
  next hheader =>
  rw [header_checked] at hheader
  split
  · next haddress => exact ⟨fun h => (by cases h), fun h => absurd haddress h.address⟩
  next haddress =>
  split
  · next husage => exact ⟨fun h => (by cases h), fun h => (by rw [h.usage] at husage; cases husage)⟩
  next husage =>
  rw [Option.map_eq_none_iff, superSpeed_none]
  constructor
  · rintro ⟨htype, hsize, hisochronous, hssp, hplus, hlength, hburst, hpacket⟩
    exact ⟨hheader, haddress, by simpa using husage, hisochronous, ⟨htype, hsize⟩, hssp, ⟨hplus, hlength⟩, hburst, hpacket⟩
  · intro h
    exact ⟨h.companion.1, h.companion.2, h.isochronous, h.ssp, h.plus.1, h.plus.2, h.burst, h.packet⟩

/-- An endpoint that is accepted has a descriptor of some length, inside the configuration. -/
theorem parseEndpoint_next {e : Option EndpointDescriptor} {next : Nat}
    (h : parseEndpointDescriptor mem limit p = some (e, next)) : p ≤ next ∧ (e.isSome → p < limit ∧ p < next) := by
  unfold parseEndpointDescriptor at h
  dsimp only at h
  split at h
  · cases h
    exact ⟨Nat.le_add_right _ _, fun h => (by cases h)⟩
  next hheader =>
  rw [header_checked] at hheader
  split at h
  · cases h
    exact ⟨Nat.le_add_right _ _, fun h => (by cases h)⟩
  split at h
  · cases h
    exact ⟨Nat.le_add_right _ _, fun h => (by cases h)⟩
  obtain ⟨⟨accepted, next'⟩, hspeed, h⟩ := Option.map_eq_some_iff.mp h
  obtain ⟨-, rfl⟩ := Prod.mk.inj h
  have hle := superSpeed_le hspeed
  exact ⟨by omega, fun _ => by omega⟩

theorem parseInterface_noArray (h : NoArray mem limit p heap) (fuel : Nat) :
    parseInterfaceDescriptor mem limit fuel p heap = none := by
  unfold parseInterfaceDescriptor Heap.allocate
  dsimp only
  rw [if_neg (header_checked.mpr h.header), h.refused, if_pos (if_neg (by decide))]

theorem enterInterface_noArray (h : NoArray mem limit p o.heap) : enterInterface mem limit p o = .items p o := by
  unfold enterInterface Heap.allocate
  dsimp only
  rw [if_neg (header_checked.mpr h.header), h.refused, if_pos (if_neg (by decide))]

theorem rejectAll_null (h : o.configuration.functions = .null) (σ : Point) : rejectAll σ o = σ := by
  rw [rejectAll, ConfigurationDescriptor.reject, if_pos h, Option.elim_none]

theorem rejectAll_some (h : o.configuration.functions ≠ .null) (σ : Point) :
    rejectAll σ o = .returned none (o.heap.log o.configuration.release) := by
  rw [rejectAll, ConfigurationDescriptor.reject, if_neg h, Option.elim_some]

/-! ## One turn -/

theorem returned_fixed (σ : Point) (h : σ.Returned) : step raw σ = σ := by
  cases σ <;> first | rfl | exact h.elim

theorem stuck_fixed (σ : Point) (h : Stuck raw σ) : step raw σ = σ := by
  cases σ with
  | items p o =>
    rw [step]
    dsimp only
    cases h with
    | association hp htype hsize => rw [if_pos hp, if_pos htype, hsize, if_neg (by omega), Nat.add_zero]
    | array h =>
      obtain ⟨hsize, htype, hlimit⟩ := h.header
      rw [if_pos (by omega), htype, if_neg (by decide), if_neg (by omega), enterInterface_noArray h]
    | noLength hp htype hsize hfunctions => rw [if_pos hp, if_neg htype, if_pos hsize, rejectAll_null hfunctions]
    | noInterface hp hfound hfunctions =>
      rw [if_neg (Nat.not_lt.mpr hp), hfound, if_neg (by decide), rejectAll_null hfunctions]
  | extras i p o =>
    obtain ⟨htype, hp, hone, havailable⟩ := h
    rw [step, if_pos ⟨htype, hp⟩, hone, if_neg (by decide), parseDeviceSpecific_one hp hone havailable]
  | endpoint i p o => rw [step, parseEndpoint_none.mpr h]
  | skip p o => rw [step, if_pos h.1, if_pos h.2.1, rejectAll_null h.2.2]
  | start | endpoints | returned => exact h.elim

theorem not_returned_of_stuck (σ : Point) (h : Stuck raw σ) : ¬ σ.Returned := by
  cases σ <;> first | exact id | exact h.elim

/-- How far a point is from the next test of the loop over the items. -/
def Point.rank : Point → Nat
  | .items _ _ => 1
  | .skip _ _ => 2
  | .endpoint _ _ _ => 3
  | .extras _ _ _ => 4
  | .endpoints _ _ _ => 5
  | .start _ | .returned _ _ => 0

/-- What is left of the descriptor, and then the point. -/
def measure (limit : Nat) : Point → Nat
  | .start _ => 8 * limit + 8
  | .items p o => 8 * (limit - p) + (Point.items p o).rank
  | .endpoints i p o => 8 * (limit - p) + (Point.endpoints i p o).rank
  | .extras i p o => 8 * (limit - p) + (Point.extras i p o).rank
  | .endpoint i p o => 8 * (limit - p) + (Point.endpoint i p o).rank
  | .skip p o => 8 * (limit - p) + (Point.skip p o).rank
  | .returned _ _ => 0

theorem measure_useInterface (limit : Nat) (w : InterfaceWrapper) (p : Nat) (o : Outer) :
    measure limit (useInterface w p o) ≤ 8 * (limit - p) + 2 := by
  unfold useInterface
  split
  · exact Nat.le_refl _
  · exact Nat.le_succ _

/-- An interface is entered behind its descriptor, or skipped. -/
theorem measure_enterInterface (h : ¬ NoArray mem limit p o.heap) :
    measure limit (enterInterface mem limit p o) ≤ 8 * (limit - (p + getDescriptorSize mem p)) + 5 := by
  unfold enterInterface Heap.allocate
  dsimp only
  split
  · exact Nat.le_add_right (8 * (limit - (p + getDescriptorSize mem p)) + 1) 4
  · next hheader =>
    have havailable : o.heap.available o.heap.allocated = true :=
      Bool.of_not_eq_false fun hrefused => h ⟨header_checked.mp hheader, hrefused⟩
    rw [havailable]
    exact Nat.le_refl _

/-- A rejected configuration that has a function. -/
theorem measure_rejectAll (h : o.configuration.functions ≠ .null) (σ : Point) : measure limit (rejectAll σ o) = 0 := by
  rw [rejectAll_some h]
  rfl

/-- A turn that is not stuck. -/
theorem step_less (σ : Point) (hrun : ¬ σ.Returned) (hfree : ¬ Stuck raw σ) :
    measure raw.limit (step raw σ) < measure raw.limit σ := by
  cases σ with
  | start heap =>
    rw [step]
    split
    · exact Nat.succ_pos _
    · simp only [measure, Point.rank]
      omega
  | items p o =>
    rw [step]
    split
    · next hp =>
      split
      · next htype =>
        have hsize : getDescriptorSize raw.memory p ≠ 0 := fun hzero => hfree (.association hp htype hzero)
        dsimp only
        split <;> simp only [measure, Point.rank] <;> omega
      · next htype =>
        split
        · next hsize =>
          rw [measure_rejectAll (fun hnull => hfree (.noLength hp htype hsize hnull))]
          exact Nat.succ_pos _
        · next hsize =>
          have hle := measure_enterInterface (fun h => hfree (.array h))
          simp only [measure, Point.rank] at hle ⊢
          omega
    · next hp =>
      split
      · exact Nat.succ_pos _
      · next hfound =>
        rw [measure_rejectAll (fun hnull => hfree (.noInterface (Nat.not_lt.mp hp) (Bool.of_not_eq_true hfound) hnull))]
        exact Nat.succ_pos _
  | endpoints i p o =>
    rw [step]
    split
    · exact Nat.lt_succ_self _
    · have hle := measure_useInterface raw.limit
        ⟨raw.memory (i.position + 5), raw.memory (i.position + 6), raw.memory (i.position + 7), i.fields⟩ p o
      simp only [measure, Point.rank, leaveInterface] at hle ⊢
      omega
  | extras i p o =>
    rw [step]
    split
    · next hloop =>
      split
      · simp only [measure, Point.rank, dropInterface]
        omega
      · next hsize =>
        obtain ⟨-, hone, havailable⟩ | ⟨extra, heap', hparse⟩ := parseDeviceSpecific_cases raw.memory raw.limit p o.heap
        · exact absurd ⟨hloop.1, hloop.2, hone, havailable⟩ hfree
        · rw [hparse]
          simp only [measure, Point.rank]
          omega
    · exact Nat.lt_succ_self _
  | endpoint i p o =>
    rw [step]
    split
    · next hnone => exact absurd (parseEndpoint_none.mp hnone) hfree
    · next next hparse =>
      have hnext := (parseEndpoint_next hparse).1
      simp only [measure, Point.rank, dropInterface]
      omega
    · next e next hparse =>
      have hnext := (parseEndpoint_next hparse).2 rfl
      simp only [measure, Point.rank]
      omega
  | skip p o =>
    rw [step]
    split
    · next hloop =>
      split
      · next hsize =>
        rw [measure_rejectAll (fun hnull => hfree ⟨hloop, hsize, hnull⟩)]
        exact Nat.succ_pos _
      · simp only [measure, Point.rank]
        omega
    · exact Nat.lt_succ_self _
  | returned => exact absurd trivial hrun

theorem step_le (raw : RawDescriptor) (σ : Point) : measure raw.limit (step raw σ) ≤ measure raw.limit σ := by
  by_cases hreturned : σ.Returned
  · exact Nat.le_of_eq (by rw [returned_fixed σ hreturned])
  by_cases hstuck : Stuck raw σ
  · exact Nat.le_of_eq (by rw [stuck_fixed σ hstuck])
  · exact Nat.le_of_lt (step_less σ hreturned hstuck)

/-! ## The parser -/

def afterExtras (i : Inner) (o : Outer) : Bool × Nat × InterfaceFields × Heap → Point
  | (true, p, f, heap) => .endpoint { i with fields := f } p { o with heap := heap }
  | (false, p, f, heap) => dropInterface { i with fields := f } p { o with heap := heap }

def afterEndpoints (mem : Memory) (i : Inner) (o : Outer) : Bool × Nat × InterfaceFields × Heap → Point
  | (true, p, f, heap) => leaveInterface mem { i with fields := f } p { o with heap := heap }
  | (false, p, f, heap) => dropInterface { i with fields := f } p { o with heap := heap }

def afterInterface (o : Outer) : Option InterfaceWrapper × Nat × Heap → Point
  | (none, p, heap) => .items p { o with heap := heap }
  | (some w, p, heap) => useInterface w p { o with heap := heap }

def afterSkip (o : Outer) : Bool × Nat → Point
  | (true, p) => .items p o
  | (false, p) => rejectAll (.skip p o) o

theorem extras_run : ∀ (fuel p : Nat) (i : Inner) (o : Outer), raw.limit - p < fuel →
    Comes (step raw) (Stuck raw) (.extras i p o)
      ((parseExtras raw.memory raw.limit fuel p i.fields o.heap).map (afterExtras i o))
  | 0, p, i, o, hfuel => by omega
  | fuel + 1, p, i, o, hfuel => by
    refine Comes.of_step ?_
    unfold parseExtras
    rw [step]
    split
    · next hloop =>
      split
      · exact Leads.refl _
      · next hsize =>
        obtain ⟨hnone, hone, havailable⟩ | ⟨extra, heap', hparse⟩ := parseDeviceSpecific_cases raw.memory raw.limit p o.heap
        · rw [hnone]
          exact ⟨_, Leads.refl _, hloop.1, hloop.2, hone, havailable⟩
        · rw [hparse]
          exact extras_run fuel (p + getDescriptorSize raw.memory p)
            { i with fields := extra.elim i.fields i.fields.addExtra } { o with heap := heap' } (by omega)
    · exact Leads.refl _

theorem endpoints_run {fuel : Nat} (hfuel : raw.limit < fuel) : ∀ (left p : Nat) (i : Inner) (o : Outer), i.left = left →
    Comes (step raw) (Stuck raw) (.endpoints i p o)
      ((parseEndpoints raw.memory raw.limit fuel left i.index p i.fields o.heap).map (afterEndpoints raw.memory i o))
  | 0, p, i, o, hleft => by
    refine Comes.of_step ?_
    rw [step, if_neg (fun h => h.1 hleft)]
    exact Leads.refl _
  | left + 1, p, i, o, hleft => by
    refine Comes.of_step ?_
    unfold parseEndpoints
    rw [step]
    by_cases hp : p < raw.limit
    · rw [if_pos ⟨by omega, hp⟩, if_pos hp]
      refine (extras_run fuel p i o (by omega)).of_call (fun hnone => by rw [hnone]; rfl) fun result hresult => ?_
      rw [hresult]
      obtain ⟨ok, p', f', heap'⟩ := result
      cases ok with
      | false => exact Leads.refl _
      | true =>
        have hleft' : i.left - 1 = left := by omega
        dsimp only [afterExtras]
        cases hendpoint : parseEndpointDescriptor raw.memory raw.limit p' with
        | none => exact ⟨_, Leads.refl _, parseEndpoint_none.mp hendpoint⟩
        | some result =>
          obtain ⟨e, p''⟩ := result
          refine Comes.of_step ?_
          rw [step, hendpoint]
          cases e with
          | none => exact Leads.refl _
          | some e => exact endpoints_run hfuel left p'' { i with
              left := i.left - 1
              index := i.index + 1
              fields := { f' with contents := f'.contents.set i.index e } } { o with heap := heap' } hleft'
    · rw [if_neg (fun h => hp h.2), if_neg hp]
      exact Leads.refl _

theorem interface_run {fuel : Nat} (hfuel : raw.limit < fuel) (p : Nat) (o : Outer) :
    Comes (step raw) (Stuck raw) (enterInterface raw.memory raw.limit p o)
      ((parseInterfaceDescriptor raw.memory raw.limit fuel p o.heap).map (afterInterface o)) := by
  by_cases harray : NoArray raw.memory raw.limit p o.heap
  · rw [parseInterface_noArray harray, enterInterface_noArray harray]
    exact ⟨_, Leads.refl _, .array harray⟩
  unfold enterInterface parseInterfaceDescriptor
  dsimp only
  split
  · exact Leads.refl _
  · next hheader =>
    split
    · next hnone => exact absurd ⟨header_checked.mp hheader, allocate_refused hnone⟩ harray
    · refine (endpoints_run hfuel _ _ _ _ rfl).of_call (fun hnone => ?_) fun result hresult => ?_
      · dsimp only at hnone
        rw [hnone]
        rfl
      · dsimp only at hresult
        rw [hresult]
        obtain ⟨ok, p', f', heap'⟩ := result
        cases ok <;> exact Leads.refl _

theorem skip_run : ∀ (fuel p : Nat) (o : Outer), raw.limit - p < fuel → Comes (step raw) (Stuck raw) (.skip p o)
      ((skipInterface raw.memory raw.limit fuel p).map (afterSkip o))
  | 0, p, o, hfuel => by omega
  | fuel + 1, p, o, hfuel => by
    refine Comes.of_step ?_
    unfold skipInterface
    rw [step]
    split
    · next hloop =>
      split
      · exact Leads.refl _
      · next hsize => exact skip_run fuel (p + getDescriptorSize raw.memory p) o (by omega)
    · exact Leads.refl _

/-- Where the skipping ends without an interface. -/
theorem skip_end : ∀ {fuel p p' : Nat}, skipInterface mem limit fuel p = some (false, p') →
    (p' < limit ∧ getDescriptorType mem p' ≠ 4#8) ∧ getDescriptorSize mem p' = 0
  | 0, _, _, h => by cases h
  | fuel + 1, p, p', h => by
    unfold skipInterface at h
    split at h
    · next hloop =>
      split at h
      · next hsize =>
        cases h
        exact ⟨hloop, hsize⟩
      · exact skip_end h
    · cases h

/-- The configuration is rejected, or the release does not come back. -/
theorem reject_run {σ : Point} (h : o.configuration.functions = .null → Stuck raw σ) :
    Comes (step raw) (Stuck raw) (rejectAll σ o) ((o.configuration.reject o.heap).map fun r => .returned r.1 r.2) := by
  unfold rejectAll
  cases hreject : o.configuration.reject o.heap with
  | some r => exact Leads.refl _
  | none => exact ⟨σ, Leads.refl _, h (by simpa [ConfigurationDescriptor.reject] using hreject)⟩

/-- The parser of an interface ends behind its descriptor. -/
theorem interface_next {fuel : Nat} (hfuel : raw.limit < fuel) {w : Option InterfaceWrapper} {p' : Nat} {heap' : Heap}
    (h : parseInterfaceDescriptor raw.memory raw.limit fuel p o.heap = some (w, p', heap')) :
    raw.limit - p' ≤ raw.limit - (p + getDescriptorSize raw.memory p) := by
  have hrun := interface_run hfuel p o
  rw [h] at hrun
  have hless := Leads.measure_le hrun (step_le raw)
  have henter := measure_enterInterface (o := o) fun harray : NoArray raw.memory raw.limit p o.heap => by
    rw [parseInterface_noArray harray] at h
    cases h
  have hleave : 8 * (raw.limit - p') + 1 ≤ measure raw.limit (afterInterface o (w, p', heap')) := by
    cases w with
    | none => exact Nat.le_refl _
    | some w =>
      unfold afterInterface useInterface
      dsimp only
      split
      · exact Nat.le_succ _
      · exact Nat.le_refl _
  omega

theorem skip_next {fuel : Nat} (hfuel : raw.limit < fuel) {p' : Nat}
    (h : skipInterface raw.memory raw.limit fuel p = some (true, p')) : raw.limit - p' ≤ raw.limit - p := by
  have hrun := skip_run fuel p ⟨.default, false, ⟨fun _ => false, 0, []⟩⟩ (by omega : raw.limit - p < fuel)
  rw [h] at hrun
  have hless := Leads.measure_le hrun (step_le raw)
  simp only [afterSkip, measure, Point.rank] at hless
  omega

/-- With an association of no length the loop over the items does not end. -/
theorem parseItems_spin {c : ConfigurationDescriptor} {found : Bool} {fuel : Nat} (hp : p < limit)
    (htype : getDescriptorType mem p = 11#8) (hsize : getDescriptorSize mem p = 0) :
    ∀ steps, parseItems mem limit fuel steps p c found heap = none
  | 0 => rfl
  | steps + 1 => by
    unfold parseItems
    dsimp only
    rw [if_pos hp, if_pos htype, hsize, if_neg (by omega), Nat.add_zero]
    exact parseItems_spin hp htype hsize steps

theorem items_run {fuel : Nat} (hfuel : raw.limit < fuel) : ∀ (steps p : Nat) (o : Outer), raw.limit - p < steps →
    Comes (step raw) (Stuck raw) (.items p o)
      ((parseItems raw.memory raw.limit fuel steps p o.configuration o.found o.heap).map fun r => .returned r.1 r.2)
  | 0, p, o, hsteps => by omega
  | steps + 1, p, o, hsteps => by
    by_cases hspin : p < raw.limit ∧ getDescriptorType raw.memory p = 11#8 ∧ getDescriptorSize raw.memory p = 0
    · rw [parseItems_spin hspin.1 hspin.2.1 hspin.2.2]
      exact ⟨_, Leads.refl _, .association hspin.1 hspin.2.1 hspin.2.2⟩
    refine Comes.of_step ?_
    unfold parseItems
    rw [step]
    dsimp only
    split
    · next hp =>
      split
      · next htype =>
        have hsize : getDescriptorSize raw.memory p ≠ 0 := fun hzero => hspin ⟨hp, htype, hzero⟩
        split
        · exact items_run hfuel steps _ _ (by omega)
        · exact items_run hfuel steps _ _ (by omega)
      · next htype =>
        split
        · next hsize => exact reject_run fun hnull => .noLength hp htype hsize hnull
        · next hsize =>
          refine (interface_run hfuel p o).of_call (fun hnone => by rw [hnone]; rfl) fun result hresult => ?_
          obtain ⟨w, p', heap'⟩ := result
          have hnext := interface_next hfuel hresult
          rw [hresult]
          cases w with
          | none => exact items_run hfuel steps p' _ (by omega)
          | some w =>
            unfold afterInterface useInterface
            dsimp only
            rcases functionFor o.configuration.functions w heap' with ⟨_ | functions, heap''⟩
            · refine (skip_run fuel p' _ (by omega)).of_call (fun hnone => by rw [hnone]; rfl) fun skipped hskipped => ?_
              rw [hskipped]
              obtain ⟨ok, p''⟩ := skipped
              cases ok with
              | false =>
                obtain ⟨hloop, hsize⟩ := skip_end hskipped
                exact reject_run fun hnull => ⟨hloop, hsize, hnull⟩
              | true =>
                have hskip := skip_next hfuel hskipped
                exact items_run hfuel steps p'' _ (by omega)
            · exact items_run hfuel steps p' _ (by omega)
    · next hp =>
      split
      · exact Leads.refl _
      · next hfound =>
        exact reject_run fun hnull => .noInterface (Nat.not_lt.mp hp) (Bool.of_not_eq_true hfound) hnull

/-- The machine comes to what the parser returns, or is stuck when the parser does not come back. -/
theorem parse_run (raw : RawDescriptor) (heap : Heap) {fuel : Nat} (hfuel : raw.limit < fuel) :
    Comes (step raw) (Stuck raw) (.start heap)
      ((parseConfigurationDescriptor raw fuel heap).map fun r => .returned r.1 r.2) := by
  refine Comes.of_step ?_
  unfold parseConfigurationDescriptor
  rw [step]
  dsimp only
  split
  · exact Leads.refl _
  · exact items_run hfuel fuel _ _ (by omega)

end

/-- The parser comes back, with fuel for its loops, exactly when the machine comes to an end. -/
theorem parser_returns_iff (raw : RawDescriptor) (heap : Heap) {fuel : Nat} (hfuel : raw.limit < fuel) :
    (parseConfigurationDescriptor raw fuel heap).isSome ↔ ∃ n, ((step raw)^[n] (.start heap)).Returned := by
  have hrun := parse_run raw heap hfuel
  cases h : parseConfigurationDescriptor raw fuel heap with
  | some r =>
    rw [h] at hrun
    obtain ⟨n, hn⟩ := hrun
    exact ⟨fun _ => ⟨n, by rw [hn]; trivial⟩, fun _ => rfl⟩
  | none =>
    rw [h] at hrun
    obtain ⟨σ, ⟨n, hn⟩, hstuck⟩ := hrun
    refine ⟨fun h => (by cases h), fun ⟨m, hm⟩ => ?_⟩
    exact absurd (hn ▸ hstuck) (not_stuck returned_fixed stuck_fixed not_returned_of_stuck ⟨m, rfl⟩ hm n)

/-- For whatever a device returns and whichever allocations fail, the parser comes back exactly when it does not come
to an interface association of no length, to a descriptor of length one that there is memory for, to a division by
a packet size of zero, or to a release that frees the null pointer: of an interface without memory for its endpoints,
or of a configuration without a function. -/
theorem parsing_halts_iff (raw : RawDescriptor) (heap : Heap) :
    (∃ n, ((step raw)^[n] (.start heap)).Returned) ↔ ∀ n, ¬ Stuck raw ((step raw)^[n] (.start heap)) :=
  halts_iff returned_fixed stuck_fixed not_returned_of_stuck (measure raw.limit) (fun σ => step_less σ) _

/-- What a device sent, and nothing behind it. -/
def received (bytes : List (BitVec 8)) : RawDescriptor := ⟨true, true, true, fun k => bytes.getD k 0#8⟩

/-- A configuration with an interface association of no length. -/
theorem parsing_spins : ¬ ∃ n, ((step (received [9#8, 2#8, 17#8, 0#8, 1#8, 1#8, 0#8, 0x80#8, 50#8, 0#8, 11#8]))^[n]
    (.start ⟨fun _ => true, 0, []⟩)).Returned := by
  rintro ⟨n, hn⟩
  refine not_stuck returned_fixed stuck_fixed not_returned_of_stuck ⟨n, rfl⟩ hn 1 ?_
  exact .association (by decide) (by decide) (by decide)

end BadLands.Usb.Configuration
