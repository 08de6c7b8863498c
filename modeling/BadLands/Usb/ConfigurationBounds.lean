import BadLands.Usb.ConfigurationSteps

/-!
# Bounds of configuration parsing

What each turn of the parser reads of the buffer, copies into heap blocks and divides by. The buffer
has the size that the first response announced, the limit is from the second one, and the type of a
descriptor is read before the limit is looked at, also behind the last endpoint. A turn that is stuck
is repeated and reads the same again.

* `accesses_iff`: the accesses of one turn are inside exactly when the turn fits.
* `counted_run`: the index of an endpoint stays below the number of them.
* `parsing_inside_iff`: all accesses are inside exactly when all turns fit.
-/
namespace BadLands.Usb.Configuration

open BadLands.Core BadLands.Core.Disposal

/-- `offset`: in the buffer. A copy goes into a block with so much room. -/
inductive Access where
  | read (offset length : Nat)
  | copy (length room : Nat)
  | division (divisor : Nat)
  deriving DecidableEq, Repr

/-- In a buffer of this size. -/
def Access.Inside (size : Nat) : Access → Prop
  | .read offset length => length = 0 ∨ offset + length ≤ size
  | .copy length room => length ≤ room
  | .division divisor => divisor ≠ 0

/-! ## The accesses of a turn -/

def readSize (p : Nat) : Access := .read p 1

def readType (p : Nat) : Access := .read (p + 1) 1

/-- mirrors kernel/include/devices/USB/xHCI/Device.hpp:210-217 -/
def checkDescriptor (mem : Memory) (size p : Nat) : List Access :=
  readSize p :: if getDescriptorSize mem p < size then [] else [readType p]

/-- `length - 2`, as a `size_t`. -/
def extraLength (length : Nat) : Nat := (length + 2 ^ 64 - 2) % 2 ^ 64

/-- The block has 16 bytes more than that, and the data start behind the first ten.
mirrors kernel/include/devices/USB/xHCI/Device.hpp:68-73 -/
def extraRoom (length : Nat) : Nat := length + 16 - 2 - 10

/-- mirrors kernel/src/devices/USB/xHCI/Device.cpp:1284-1310 -/
def deviceSpecificAccesses (mem : Memory) (limit p : Nat) (heap : Heap) : List Access :=
  let size := getDescriptorSize mem p
  readSize p ::
    if p + size > limit then [readSize p]
    else readSize p :: readType p ::
      if heap.available heap.allocated then [.read (p + 2) (extraLength size), .copy (extraLength size) (extraRoom size)]
      else []

/-- The companion of a SuperSpeedPlus endpoint.
mirrors kernel/src/devices/USB/xHCI/Device.cpp:1236-1252 -/
def plusAccesses (mem : Memory) (maxBurst : BitVec 8) (maxPacketSize : BitVec 16) (p : Nat) : List Access :=
  readType p ::
    if getDescriptorType mem p ≠ 0x31#8 then []
    else readSize p ::
      if getDescriptorSize mem p < 8 then [readSize p]
      else .read (p + 4) 4 ::
        if maxBurst ≠ 0#8 then [.division (maxBurst.toNat * maxPacketSize.toNat)] else []

/-- mirrors kernel/src/devices/USB/xHCI/Device.cpp:1196-1269 -/
def superSpeedAccesses (mem : Memory) (type : EndpointType) (maxPacketSize : BitVec 16) (p : Nat) : List Access :=
  readType p ::
    if getDescriptorType mem p ≠ 0x30#8 then []
    else readSize p ::
      if getDescriptorSize mem p < 6 then [readSize p]
      else .read (p + 2) 1 :: .read (p + 3) 1 :: .read (p + 4) 2 :: readSize p ::
        match type with
        | .isochronousIn | .isochronousOut =>
          if mem (p + 3) &&& 0x80#8 = 0#8 then []
          else plusAccesses mem (mem (p + 2) + 1#8) maxPacketSize (p + getDescriptorSize mem p)
        | _ => []

/-- The descriptor of an endpoint, and the place of the endpoint among those of its interface. The header of one that
is not accepted is read again for the log, since `DEBUG_USB_ERRORS` is on.
mirrors kernel/src/devices/USB/xHCI/Device.cpp:1039-1064,1076-1282 and common/include/shared/Debug.hpp:18-19 -/
def endpointAccesses (mem : Memory) (limit p index number : Nat) : List Access :=
  checkDescriptor mem 7 p ++
    if getDescriptorSize mem p < 7 ∨ getDescriptorType mem p ≠ 5#8 ∨ p + 7 > limit then
      [readSize p, readType p, readSize p]
    else [.read (p + 2) 1, .read (p + 3) 1, .read (p + 4) 2, .read (p + 6) 1, readSize p] ++
      let type := endpointTypeOf (mem (p + 2)) (mem (p + 3))
      if mem (p + 2) &&& 0x0F#8 = 0#8 then []
      else if !usageKnown type (mem (p + 3)) then []
      else superSpeedAccesses mem type (word mem (p + 4)) (p + getDescriptorSize mem p) ++
        if (parseEndpointDescriptor mem limit p).any fun e => e.1.isSome then [.copy (index + 1) number] else []

/-- The descriptor of an interface, and the array of its endpoints.
mirrors kernel/src/devices/USB/xHCI/Device.cpp:965-1003 -/
def interfaceAccesses (mem : Memory) (limit p : Nat) (heap : Heap) : List Access :=
  checkDescriptor mem 9 p ++ readSize p ::
    if getDescriptorSize mem p < 9 ∨ getDescriptorType mem p ≠ 4#8 ∨ p + 9 > limit then []
    else [.read (p + 2) 1, .read (p + 3) 1, .read (p + 4) 1, .read (p + 8) 1] ++
      if heap.available heap.allocated then
        (List.range (mem (p + 4)).toNat).map fun i => .copy (i + 1) (mem (p + 4)).toNat
      else []

/-- mirrors kernel/src/devices/USB/xHCI/Device.cpp:756-1310 -/
def accesses (raw : RawDescriptor) : Point → List Access
  | .start _ =>
    if !raw.header ∨ !raw.buffer ∨ !raw.fetched then []
    else .read 4 1 ::
      if raw.memory 4 = 0#8 then []
      else [.read 5 1, .read 6 1, .read 7 1, .read 8 1, readSize 0, .read 2 2]
  | .items p o =>
    if p < raw.limit then
      readType p :: readSize p ::
        if getDescriptorType raw.memory p = 11#8 then
          if getDescriptorSize raw.memory p ≥ 8 ∧ p + getDescriptorSize raw.memory p ≤ raw.limit then
            [.read (p + 4) 1, .read (p + 5) 1, .read (p + 6) 1, .read (p + 7) 1]
          else []
        else if getDescriptorSize raw.memory p = 0 then []
        else interfaceAccesses raw.memory raw.limit p o.heap
    else []
  | .endpoints i p _ =>
    if i.left ≠ 0 ∧ p < raw.limit then []
    else [.read (i.position + 5) 1, .read (i.position + 6) 1, .read (i.position + 7) 1]
  | .extras _ p o =>
    readType p ::
      if getDescriptorType raw.memory p ≠ 5#8 ∧ p < raw.limit then
        readSize p ::
          if getDescriptorSize raw.memory p = 0 then [] else deviceSpecificAccesses raw.memory raw.limit p o.heap
      else []
  | .endpoint i p _ => endpointAccesses raw.memory raw.limit p i.index i.fields.endpointsNumber.toNat
  | .skip p _ =>
    if p < raw.limit then
      readType p :: if getDescriptorType raw.memory p ≠ 4#8 then [readSize p] else []
    else []
  | .returned _ _ => []

/-! ## Turns that fit -/

/-- The second companion of an isochronous endpoint, and a packet size that is not zero when it is divided by. -/
structure PlusFits (mem : Memory) (size : Nat) (maxBurst : BitVec 8) (maxPacketSize : BitVec 16) (p : Nat) : Prop where
  header : p + 2 ≤ size
  body : getDescriptorType mem p = 0x31#8 → 8 ≤ getDescriptorSize mem p →
    p + 8 ≤ size ∧ (maxBurst ≠ 0#8 → maxPacketSize ≠ 0#16)

/-- The companions of an endpoint. -/
structure SpeedFits (mem : Memory) (size : Nat) (type : EndpointType) (maxPacketSize : BitVec 16) (p : Nat) : Prop where
  header : p + 2 ≤ size
  body : getDescriptorType mem p = 0x30#8 → 6 ≤ getDescriptorSize mem p → p + 6 ≤ size
  plus : getDescriptorType mem p = 0x30#8 → 6 ≤ getDescriptorSize mem p → type = .isochronousIn ∨ type = .isochronousOut →
    mem (p + 3) &&& 0x80#8 ≠ 0#8 → PlusFits mem size (mem (p + 2) + 1#8) maxPacketSize (p + getDescriptorSize mem p)

/-- The descriptor of an endpoint. -/
structure EndpointFits (mem : Memory) (size limit p : Nat) : Prop where
  header : p + 2 ≤ size
  body : 7 ≤ getDescriptorSize mem p → getDescriptorType mem p = 5#8 → p + 7 ≤ limit → p + 7 ≤ size
  speed : 7 ≤ getDescriptorSize mem p → getDescriptorType mem p = 5#8 → p + 7 ≤ limit → mem (p + 2) &&& 0x0F#8 ≠ 0#8 →
    usageKnown (endpointTypeOf (mem (p + 2)) (mem (p + 3))) (mem (p + 3)) = true →
    SpeedFits mem size (endpointTypeOf (mem (p + 2)) (mem (p + 3))) (word mem (p + 4)) (p + getDescriptorSize mem p)

/-- A header is two bytes, where it is looked at, and what is taken from a descriptor behind it is inside the buffer
too. No descriptor of length one is copied. -/
def Fits (raw : RawDescriptor) (size : Nat) : Point → Prop
  | .start _ => raw.header → raw.buffer → raw.fetched → 5 ≤ size ∧ (raw.memory 4 ≠ 0#8 → 9 ≤ size)
  | .items p _ => p < raw.limit → p + 2 ≤ size ∧
      (getDescriptorType raw.memory p = 11#8 → 8 ≤ getDescriptorSize raw.memory p →
        p + getDescriptorSize raw.memory p ≤ raw.limit → p + 8 ≤ size) ∧
      (getDescriptorType raw.memory p = 4#8 → 9 ≤ getDescriptorSize raw.memory p → p + 9 ≤ raw.limit → p + 9 ≤ size)
  | .endpoints i p _ => i.left = 0 ∨ raw.limit ≤ p → i.position + 8 ≤ size
  | .extras _ p o => p + 2 ≤ size ∧
      (getDescriptorType raw.memory p ≠ 5#8 → p < raw.limit → getDescriptorSize raw.memory p ≠ 0 →
        p + getDescriptorSize raw.memory p ≤ raw.limit → o.heap.available o.heap.allocated = true →
        getDescriptorSize raw.memory p ≠ 1 ∧ p + getDescriptorSize raw.memory p ≤ size)
  | .endpoint _ p _ => EndpointFits raw.memory size raw.limit p
  | .skip p _ => p < raw.limit → p + 2 ≤ size
  | .returned _ _ => True

section
variable {raw : RawDescriptor} {mem : Memory} {size limit p index number : Nat} {heap : Heap}

/-- All of these accesses are inside. -/
def AllInside (size : Nat) (l : List Access) : Prop := ∀ a ∈ l, a.Inside size

@[simp] theorem allInside_nil : AllInside size [] := List.forall_mem_nil _

@[simp] theorem allInside_cons {a : Access} {l : List Access} :
    AllInside size (a :: l) ↔ a.Inside size ∧ AllInside size l := List.forall_mem_cons

@[simp] theorem allInside_append {l l' : List Access} :
    AllInside size (l ++ l') ↔ AllInside size l ∧ AllInside size l' := List.forall_mem_append

@[simp] theorem read_inside {offset length : Nat} :
    (Access.read offset length).Inside size ↔ length = 0 ∨ offset + length ≤ size := Iff.rfl

@[simp] theorem copy_inside {length room : Nat} : (Access.copy length room).Inside size ↔ length ≤ room := Iff.rfl

@[simp] theorem readSize_inside : (readSize p).Inside size ↔ p + 1 ≤ size := by simp [readSize]

@[simp] theorem readType_inside : (readType p).Inside size ↔ p + 2 ≤ size := by simp [readType, Nat.add_assoc]

theorem getDescriptorSize_lt (mem : Memory) (p : Nat) : getDescriptorSize mem p < 256 := (mem p).isLt

/-- The length of a descriptor of length one is taken as `2 ^ 64 - 1`. -/
theorem extra_inside (hsize : getDescriptorSize mem p ≠ 0) (hheader : p + 2 ≤ size) :
    AllInside size [.read (p + 2) (extraLength (getDescriptorSize mem p)),
      .copy (extraLength (getDescriptorSize mem p)) (extraRoom (getDescriptorSize mem p))] ↔
    getDescriptorSize mem p ≠ 1 ∧ p + getDescriptorSize mem p ≤ size := by
  have hbyte := getDescriptorSize_lt mem p
  rw [allInside_cons, allInside_cons, read_inside, copy_inside]
  by_cases hone : getDescriptorSize mem p = 1
  · have hroom : ¬ extraLength 1 ≤ extraRoom 1 := by decide
    rw [hone]
    exact ⟨fun h => absurd h.2.1 hroom, fun h => absurd rfl h.1⟩
  · have hlength : extraLength (getDescriptorSize mem p) = getDescriptorSize mem p - 2 := by
      unfold extraLength
      omega
    have hroom : getDescriptorSize mem p - 2 ≤ extraRoom (getDescriptorSize mem p) := by
      unfold extraRoom
      omega
    rw [hlength]
    refine ⟨fun h => ⟨hone, ?_⟩, fun h => ⟨?_, hroom, allInside_nil⟩⟩ <;> omega

theorem deviceSpecific_inside (hsize : getDescriptorSize mem p ≠ 0) (hheader : p + 2 ≤ size) :
    AllInside size (deviceSpecificAccesses mem limit p heap) ↔
      (p + getDescriptorSize mem p ≤ limit → heap.available heap.allocated = true →
        getDescriptorSize mem p ≠ 1 ∧ p + getDescriptorSize mem p ≤ size) := by
  have hfirst : p + 1 ≤ size := by omega
  unfold deviceSpecificAccesses
  dsimp only
  rw [allInside_cons, readSize_inside]
  split
  · next hover =>
    rw [allInside_cons, readSize_inside]
    exact ⟨fun _ hle => absurd hover (Nat.not_lt.mpr hle), fun _ => ⟨hfirst, hfirst, allInside_nil⟩⟩
  · next hle =>
    rw [allInside_cons, allInside_cons, readSize_inside, readType_inside]
    split
    · next havailable =>
      rw [extra_inside hsize hheader]
      exact ⟨fun h _ _ => h.2.2.2, fun h => ⟨hfirst, hfirst, hheader, h (Nat.not_lt.mp hle) havailable⟩⟩
    · next hnone => exact ⟨fun _ _ h => absurd h hnone, fun _ => ⟨hfirst, hfirst, hheader, allInside_nil⟩⟩

theorem division_inside {burst : BitVec 8} {maxPacketSize : BitVec 16} (hburst : burst ≠ 0#8) :
    (Access.division (burst.toNat * maxPacketSize.toNat)).Inside size ↔ maxPacketSize ≠ 0#16 := by
  have hzero : burst.toNat ≠ 0 := fun h => hburst (BitVec.eq_of_toNat_eq h)
  have hpacket : maxPacketSize.toNat = 0 ↔ maxPacketSize = 0#16 :=
    ⟨fun h => BitVec.eq_of_toNat_eq h, fun h => by rw [h]; rfl⟩
  change burst.toNat * maxPacketSize.toNat ≠ 0 ↔ _
  rw [Ne, Nat.mul_eq_zero, or_iff_right hzero, hpacket]

theorem plus_inside {maxBurst : BitVec 8} {maxPacketSize : BitVec 16} :
    AllInside size (plusAccesses mem maxBurst maxPacketSize p) ↔ PlusFits mem size maxBurst maxPacketSize p := by
  unfold plusAccesses
  rw [allInside_cons, readType_inside]
  constructor
  · rintro ⟨hheader, h⟩
    refine ⟨hheader, fun htype hle => ?_⟩
    rw [if_neg (not_not.mpr htype), if_neg (Nat.not_lt.mpr hle), allInside_cons, allInside_cons, read_inside] at h
    obtain ⟨-, hread, h⟩ := h
    refine ⟨by omega, fun hburst => ?_⟩
    rw [if_pos hburst, allInside_cons] at h
    exact (division_inside hburst).mp h.1
  · intro h
    have hfirst : p + 1 ≤ size := Nat.le_of_succ_le h.header
    refine ⟨h.header, ?_⟩
    split
    · exact allInside_nil
    next htype =>
    rw [allInside_cons, readSize_inside]
    split
    · exact ⟨hfirst, by simp [hfirst]⟩
    next hle =>
    obtain ⟨hbody, hpacket⟩ := h.body (not_not.mp htype) (Nat.not_lt.mp hle)
    rw [allInside_cons, read_inside]
    refine ⟨hfirst, .inr hbody, ?_⟩
    split
    · next hburst => exact allInside_cons.mpr ⟨(division_inside hburst).mpr (hpacket hburst), allInside_nil⟩
    · exact allInside_nil

theorem superSpeed_inside {type : EndpointType} {maxPacketSize : BitVec 16} :
    AllInside size (superSpeedAccesses mem type maxPacketSize p) ↔ SpeedFits mem size type maxPacketSize p := by
  unfold superSpeedAccesses
  rw [allInside_cons, readType_inside]
  constructor
  · rintro ⟨hheader, h⟩
    refine ⟨hheader, fun htype hle => ?_, fun htype hle hisochronous hssp => ?_⟩
    all_goals
      rw [if_neg (not_not.mpr htype), if_neg (Nat.not_lt.mpr hle)] at h
      simp only [allInside_cons, read_inside, readSize_inside] at h
    · omega
    · rcases hisochronous with rfl | rfl <;>
      · dsimp only at h
        rw [if_neg hssp] at h
        exact plus_inside.mp h.2.2.2.2.2
  · intro h
    have hfirst : p + 1 ≤ size := Nat.le_of_succ_le h.header
    refine ⟨h.header, ?_⟩
    split
    · exact allInside_nil
    next htype =>
    rw [allInside_cons, readSize_inside]
    split
    · exact ⟨hfirst, by simp [hfirst]⟩
    next hle =>
    have hbody := h.body (not_not.mp htype) (Nat.not_lt.mp hle)
    have hplus := h.plus (not_not.mp htype) (Nat.not_lt.mp hle)
    simp only [allInside_cons, read_inside, readSize_inside]
    refine ⟨hfirst, by omega, by omega, by omega, hfirst, ?_⟩
    split
    · split
      · exact allInside_nil
      · next hssp => exact plus_inside.mpr (hplus (.inl rfl) hssp)
    · split
      · exact allInside_nil
      · next hssp => exact plus_inside.mpr (hplus (.inr rfl) hssp)
    · exact allInside_nil

theorem checkDescriptor_inside {minimum : Nat} : AllInside size (checkDescriptor mem minimum p) ↔
    p + 1 ≤ size ∧ (minimum ≤ getDescriptorSize mem p → p + 2 ≤ size) := by
  unfold checkDescriptor
  rw [allInside_cons, readSize_inside]
  split
  · next hless => exact and_congr_right fun _ => ⟨fun _ hle => absurd hless (Nat.not_lt.mpr hle), fun _ => allInside_nil⟩
  · next hle =>
    rw [allInside_cons, readType_inside]
    exact and_congr_right fun _ => ⟨fun h _ => h.1, fun h => ⟨h (Nat.not_lt.mp hle), allInside_nil⟩⟩

/-- The array has room for the endpoint. -/
theorem endpoint_inside (hindex : index < number) :
    AllInside size (endpointAccesses mem limit p index number) ↔ EndpointFits mem size limit p := by
  unfold endpointAccesses
  dsimp only
  rw [allInside_append, checkDescriptor_inside]
  constructor
  · rintro ⟨hheader, h⟩
    refine ⟨?_, fun hsize htype hlimit => ?_, fun hsize htype hlimit haddress husage => ?_⟩
    · split at h
      · simp only [allInside_cons, readType_inside] at h
        exact h.2.1
      · next hopen => exact hheader.2 (header_checked.mp hopen).1
    all_goals
      rw [if_neg (header_checked.mpr ⟨hsize, htype, hlimit⟩), allInside_append] at h
    · simp only [allInside_cons, read_inside] at h
      omega
    · rw [if_neg haddress, if_neg (by simp [husage]), allInside_append] at h
      exact superSpeed_inside.mp h.2.1
  · intro h
    have hfirst : p + 1 ≤ size := Nat.le_of_succ_le h.header
    refine ⟨⟨hfirst, fun _ => h.header⟩, ?_⟩
    split
    · simp only [allInside_cons, readSize_inside, readType_inside]
      exact ⟨hfirst, h.header, hfirst, allInside_nil⟩
    next hopen =>
    obtain ⟨hsize, htype, hlimit⟩ := header_checked.mp hopen
    have hbody := h.body hsize htype hlimit
    rw [allInside_append]
    refine ⟨?_, ?_⟩
    · simp only [allInside_cons, read_inside, readSize_inside]
      exact ⟨by omega, by omega, by omega, by omega, hfirst, allInside_nil⟩
    split
    · exact allInside_nil
    next haddress =>
    split
    · exact allInside_nil
    next husage =>
    rw [allInside_append]
    refine ⟨superSpeed_inside.mpr (h.speed hsize htype hlimit haddress (by simpa using husage)), ?_⟩
    split
    · exact allInside_cons.mpr ⟨copy_inside.mpr hindex, allInside_nil⟩
    · exact allInside_nil

/-- Every endpoint of the array is set, before they are parsed. -/
theorem array_inside (number : Nat) :
    AllInside size ((List.range number).map fun i => .copy (i + 1) number) := by
  intro a ha
  obtain ⟨i, hi, rfl⟩ := List.mem_map.mp ha
  exact copy_inside.mpr (List.mem_range.mp hi)

/-- What is read of an interface, when there is a header. -/
theorem interface_inside (hheader : p + 2 ≤ size) : AllInside size (interfaceAccesses mem limit p heap) ↔
    (getDescriptorType mem p = 4#8 → 9 ≤ getDescriptorSize mem p → p + 9 ≤ limit → p + 9 ≤ size) := by
  have hfirst : p + 1 ≤ size := Nat.le_of_succ_le hheader
  unfold interfaceAccesses
  rw [allInside_append, checkDescriptor_inside, and_iff_right ⟨hfirst, fun _ => hheader⟩, allInside_cons, readSize_inside,
    and_iff_right hfirst]
  constructor
  · intro h htype hsize hlimit
    rw [if_neg (header_checked.mpr ⟨hsize, htype, hlimit⟩), allInside_append] at h
    simp only [allInside_cons, read_inside] at h
    omega
  · intro h
    split
    · exact allInside_nil
    next hopen =>
    obtain ⟨hsize, htype, hlimit⟩ := header_checked.mp hopen
    have hbody := h htype hsize hlimit
    rw [allInside_append]
    refine ⟨?_, ?_⟩
    · simp only [allInside_cons, read_inside]
      exact ⟨by omega, by omega, by omega, by omega, allInside_nil⟩
    · split
      · exact array_inside _
      · exact allInside_nil

/-- The endpoints that are parsed and those that are to come are as many as the array has room for. -/
def Counted : Point → Prop
  | .endpoints i _ _ => i.index + i.left = i.fields.endpointsNumber.toNat
  | .extras i _ _ | .endpoint i _ _ => i.index + i.left = i.fields.endpointsNumber.toNat ∧ i.left ≠ 0
  | _ => True

/-- What is read before the items. -/
theorem start_inside {heap : Heap} : AllInside size (accesses raw (.start heap)) ↔ Fits raw size (.start heap) := by
  rw [accesses, Fits]
  split
  · next hclosed =>
    refine ⟨fun _ hheader hbuffer hfetched => ?_, fun _ => allInside_nil⟩
    rw [hheader, hbuffer, hfetched] at hclosed
    exact absurd hclosed (by decide)
  next hopen =>
  have hready : raw.header = true ∧ raw.buffer = true ∧ raw.fetched = true := by simpa using hopen
  rw [allInside_cons, read_inside]
  constructor
  · rintro ⟨hnumber, h⟩ - - -
    refine ⟨by omega, fun hsome => ?_⟩
    rw [if_neg hsome] at h
    simp only [allInside_cons, read_inside] at h
    omega
  · intro h
    obtain ⟨hnumber, hbody⟩ := h hready.1 hready.2.1 hready.2.2
    refine ⟨.inr hnumber, ?_⟩
    split
    · exact allInside_nil
    · next hsome =>
      have hsize := hbody hsome
      simp only [allInside_cons, read_inside, readSize_inside]
      exact ⟨by omega, by omega, by omega, by omega, by omega, by omega, allInside_nil⟩

/-- What is read at an item: of an association, or of an interface. -/
theorem items_inside : AllInside size (accesses raw (.items p o)) ↔ Fits raw size (.items p o) := by
  rw [accesses, Fits]
  split
  swap
  · next hover => exact ⟨fun _ hp => absurd hp hover, fun _ => allInside_nil⟩
  next hp =>
  rw [forall_prop_of_true hp, allInside_cons, allInside_cons, readType_inside, readSize_inside]
  refine and_congr_right fun hheader => ?_
  rw [and_iff_right (Nat.le_of_succ_le hheader : p + 1 ≤ size)]
  split
  · next htype =>
    have hother : getDescriptorType raw.memory p ≠ 4#8 := by rw [htype]; decide
    constructor
    · intro h
      refine ⟨fun _ hsize hlimit => ?_, fun hinterface => absurd hinterface hother⟩
      rw [if_pos ⟨hsize, hlimit⟩] at h
      simp only [allInside_cons, read_inside] at h
      omega
    · rintro ⟨h, -⟩
      split
      · next hopen =>
        have hbody := h htype hopen.1 hopen.2
        simp only [allInside_cons, read_inside]
        exact ⟨by omega, by omega, by omega, by omega, allInside_nil⟩
      · exact allInside_nil
  · next htype =>
    rw [and_iff_right (fun h => absurd h htype)]
    split
    · next hzero => exact ⟨fun _ _ hsize => by omega, fun _ => allInside_nil⟩
    · exact interface_inside hheader

/-- What is read of a descriptor before an endpoint. -/
theorem extras_inside : AllInside size (accesses raw (.extras i p o)) ↔ Fits raw size (.extras i p o) := by
  rw [accesses, Fits]
  rw [allInside_cons, readType_inside]
  refine and_congr_right fun hheader => ?_
  split
  swap
  · next hclosed => exact ⟨fun _ htype hp => absurd ⟨htype, hp⟩ hclosed, fun _ => allInside_nil⟩
  next hopen =>
  rw [forall_prop_of_true hopen.1, forall_prop_of_true hopen.2, allInside_cons, readSize_inside,
    and_iff_right (Nat.le_of_succ_le hheader : p + 1 ≤ size)]
  split
  · next hzero => exact ⟨fun _ hsize => absurd hzero hsize, fun _ => allInside_nil⟩
  · next hsize => rw [forall_prop_of_true hsize, deviceSpecific_inside hsize hheader]

theorem skip_inside : AllInside size (accesses raw (.skip p o)) ↔ Fits raw size (.skip p o) := by
  rw [accesses, Fits]
  split
  swap
  · next hover => exact ⟨fun _ hp => absurd hp hover, fun _ => allInside_nil⟩
  next hp =>
  rw [forall_prop_of_true hp, allInside_cons, readType_inside]
  refine and_iff_left_of_imp fun hheader => ?_
  split
  · exact allInside_cons.mpr ⟨readSize_inside.mpr (Nat.le_of_succ_le hheader), allInside_nil⟩
  · exact allInside_nil

theorem accesses_iff {σ : Point} (hcounted : Counted σ) : AllInside size (accesses raw σ) ↔ Fits raw size σ := by
  cases σ with
  | start heap => exact start_inside
  | items p o => exact items_inside
  | endpoints i p o =>
    rw [accesses, Fits]
    split
    · next hopen => exact ⟨fun _ h => absurd h (by omega), fun _ => allInside_nil⟩
    · next hclosed =>
      rw [forall_prop_of_true (by omega : i.left = 0 ∨ raw.limit ≤ p)]
      simp only [allInside_cons, read_inside, allInside_nil, and_true]
      omega
  | extras i p o => exact extras_inside
  | endpoint i p o =>
    obtain ⟨hsum, hleft⟩ := hcounted
    exact endpoint_inside (by omega)
  | skip p o => exact skip_inside
  | returned result heap => exact ⟨fun _ => trivial, fun _ => allInside_nil⟩

/-! ## Runs -/

theorem counted_useInterface (w : InterfaceWrapper) (p : Nat) (o : Outer) : Counted (useInterface w p o) := by
  unfold useInterface
  split <;> trivial

/-- An interface is entered with none of its endpoints parsed. -/
theorem counted_enterInterface (mem : Memory) (limit p : Nat) (o : Outer) : Counted (enterInterface mem limit p o) := by
  unfold enterInterface
  dsimp only
  split
  · trivial
  · split
    · trivial
    · exact Nat.zero_add _

theorem counted_rejectAll {σ : Point} (h : Counted σ) (o : Outer) : Counted (rejectAll σ o) := by
  unfold rejectAll
  cases o.configuration.reject o.heap with
  | none => exact h
  | some r => trivial

theorem addExtra_endpointsNumber (f : InterfaceFields) (extra : Option DeviceSpecificDescriptor) :
    (extra.elim f f.addExtra).endpointsNumber = f.endpointsNumber := by
  cases extra <;> rfl

theorem step_counted {σ : Point} (h : Counted σ) : Counted (step raw σ) := by
  cases σ with
  | start heap =>
    rw [step]
    split <;> trivial
  | items p o =>
    rw [step]
    split
    · split
      · dsimp only
        split <;> trivial
      · split
        · exact counted_rejectAll (by trivial) o
        · exact counted_enterInterface raw.memory raw.limit p o
    · split
      · trivial
      · exact counted_rejectAll (by trivial) o
  | endpoints i p o =>
    rw [step]
    split
    · next hopen => exact ⟨h, hopen.1⟩
    · exact counted_useInterface _ p o
  | extras i p o =>
    rw [step]
    split
    · split
      · trivial
      · split
        · exact h
        · exact ⟨by rw [addExtra_endpointsNumber]; exact h.1, h.2⟩
    · exact h
  | endpoint i p o =>
    rw [step]
    split
    · exact h
    · trivial
    · obtain ⟨hsum, hleft⟩ := h
      change i.index + 1 + (i.left - 1) = i.fields.endpointsNumber.toNat
      omega
  | skip p o =>
    rw [step]
    split
    · split
      · exact counted_rejectAll (by trivial) o
      · trivial
    · trivial
  | returned => trivial

theorem counted_run (raw : RawDescriptor) (heap : Heap) : ∀ n, Counted ((step raw)^[n] (.start heap))
  | 0 => trivial
  | n + 1 => by
    rw [Function.iterate_succ_apply']
    exact step_counted (counted_run raw heap n)

end

/-- For whatever the device returns to the two requests, also with lengths that differ, and whichever allocations fail:
all that the parser reads lies in the buffer, all that it copies fits its block, and it does not divide by zero, exactly
when every turn of it fits the buffer. The run ends where it comes back and where it is `Stuck`, as in a release that
frees the null pointer. -/
theorem parsing_inside_iff (first : Memory) (raw : RawDescriptor) (heap : Heap) :
    (∀ n, AllInside (word first 2).toNat (accesses raw ((step raw)^[n] (.start heap)))) ↔
      ∀ n, Fits raw (word first 2).toNat ((step raw)^[n] (.start heap)) :=
  forall_congr' fun n => accesses_iff (counted_run raw heap n)

/-- A keyboard with one endpoint, as it should be. -/
def keyboardConfiguration : List (BitVec 8) :=
  [9#8, 2#8, 25#8, 0#8, 1#8, 1#8, 0#8, 0xA0#8, 50#8,
   9#8, 4#8, 0#8, 0#8, 1#8, 3#8, 1#8, 1#8, 0#8,
   7#8, 5#8, 0x81#8, 3#8, 8#8, 0#8, 10#8]

/-- A companion is looked for behind the last endpoint, which is where the buffer ends. -/
theorem companion_outside : ¬ ∀ n, AllInside (word (received keyboardConfiguration).memory 2).toNat
    (accesses (received keyboardConfiguration) ((step (received keyboardConfiguration))^[n] (.start ⟨fun _ => true, 0, []⟩))) := by
  intro h
  have hread : Access.read 26 1 ∈ accesses (received keyboardConfiguration)
      ((step (received keyboardConfiguration))^[4] (.start ⟨fun _ => true, 0, []⟩)) := by decide
  rcases h 4 _ hread with hnone | hinside
  · exact absurd hnone (by decide)
  · exact absurd hinside (by decide)

end BadLands.Usb.Configuration
