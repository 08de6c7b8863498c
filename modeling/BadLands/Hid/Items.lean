import BadLands.Core.ByteMemory

/-!
# Items of a HID report descriptor

`GetNextItem` takes a lead byte, whose low bits are the size code, and the data behind it. It puts
the data together from the first byte down, though the first one is the least significant, and it
takes the size code for the number of bytes, though code 3 stands for four.

* `getNextItem_encode`: what it makes of an item, with the data the wrong way round.
* `decoding_iff`: which sequences of items it returns as they are, and when it reads past the end.
-/
namespace BadLands.Hid

open BadLands.Core BadLands.Core.ByteMemory

/-- mirrors kernel/include/devices/USB/HID/Driver.hpp:101-105 -/
inductive ItemType where
  | mainItem
  | globalItem
  | localItem
  deriving DecidableEq, Repr

/-- mirrors kernel/include/devices/USB/HID/Driver.hpp:107-111 -/
structure Item where
  type : ItemType
  tag : BitVec 8
  value : BitVec 32
  deriving DecidableEq, Repr

/-- mirrors kernel/include/devices/USB/HID/Driver.hpp:99-121 -/
structure ReportDescriptor where
  data : ByteMemory
  length : Nat
  position : Nat

/-- What a call returns, the descriptor after it, and the positions that were read. -/
structure Fetch where
  item : Option Item
  descriptor : ReportDescriptor
  reads : List Nat

/-- The data at `p` with this size code. -/
def readValue (data : ByteMemory) (p : Nat) : Nat → BitVec 32
  | 0 => 0#32
  | 1 => (data p).setWidth 32
  | 2 => (data p).setWidth 32 <<< 8 ||| (data (p + 1)).setWidth 32
  | _ => (((data p).setWidth 32 <<< 8 ||| (data (p + 1)).setWidth 32) <<< 8 ||| (data (p + 2)).setWidth 32) <<< 8 |||
      (data (p + 3)).setWidth 32

/-- How many bytes that are. -/
def bytesRead : Nat → Nat
  | 3 => 4
  | size => size

def itemTypeOf (type : BitVec 8) : Option ItemType :=
  if type = 0#8 then some .mainItem else if type = 1#8 then some .globalItem else if type = 2#8 then some .localItem
  else none

/-- mirrors kernel/src/devices/USB/HID/Driver.cpp:230-282 -/
def ReportDescriptor.getNextItem (d : ReportDescriptor) : Fetch :=
  if d.position ≥ d.length then ⟨none, d, []⟩
  else
    let lead := d.data d.position
    let position := d.position + 1
    let size := (lead &&& 0x03#8).toNat
    let type := (lead >>> 2) &&& 0x03#8
    let tag := (lead >>> 4) &&& 0x0F#8
    if position + size > d.length then ⟨none, { d with position := position }, [d.position]⟩
    else {
      item := (itemTypeOf type).map fun type => ⟨type, tag, readValue d.data position size⟩
      descriptor := { d with position := position + bytesRead size }
      reads := d.position :: List.range' position (bytesRead size) }

/-! ## Items as they are written -/

/-- A short item; its data are in little-endian order. -/
structure ShortItem where
  type : ItemType
  tag : BitVec 4
  data : List (BitVec 8)
  short : data.length ∈ [0, 1, 2, 4]

def ItemType.code : ItemType → BitVec 2
  | .mainItem => 0#2
  | .globalItem => 1#2
  | .localItem => 2#2

def sizeCode (bytes : Nat) : BitVec 2 := if bytes = 4 then 3#2 else BitVec.ofNat 2 bytes

def ShortItem.lead (i : ShortItem) : BitVec 8 := i.tag ++ i.type.code ++ sizeCode i.data.length

def ShortItem.encode (i : ShortItem) : List (BitVec 8) := i.lead :: i.data

/-- The item that is meant. -/
def ShortItem.item (i : ShortItem) : Item := ⟨i.type, i.tag.setWidth 8, BitVec.ofNat 32 (littleEndian i.data)⟩

/-- The item that is read. -/
def ShortItem.swapped (i : ShortItem) : Item :=
  ⟨i.type, i.tag.setWidth 8, BitVec.ofNat 32 (bigEndian i.data)⟩

def ReportDescriptor.ofBytes (bytes : List (BitVec 8)) : ReportDescriptor := ⟨fun k => bytes.getD k 0#8, bytes.length, 0⟩

/-- What so many calls return, one after the other. -/
def ReportDescriptor.fetch : Nat → ReportDescriptor → List (Option Item)
  | 0, _ => []
  | n + 1, d => d.getNextItem.item :: fetch n d.getNextItem.descriptor

/-- The items come back, with their values, and then none. -/
def RoundTrip (items : List ShortItem) : Prop :=
  ReportDescriptor.fetch (items.length + 1) (.ofBytes (items.flatMap ShortItem.encode)) =
    items.map (fun i => some i.item) ++ [none]

/-- No byte at or behind the length is read. -/
def ReportDescriptor.ReadsInside (d : ReportDescriptor) : Prop := ∀ p ∈ d.getNextItem.reads, p < d.length

/-- A lead byte with size code 3, and three bytes behind it. -/
def ReportDescriptor.ShortOfFour (d : ReportDescriptor) : Prop :=
  d.length = d.position + 4 ∧ d.data d.position &&& 0x03#8 = 0x03#8

/-! ## What is left of the descriptor -/

def ReportDescriptor.remaining (d : ReportDescriptor) : List (BitVec 8) := bytes d.data d.position (d.length - d.position)

def ReportDescriptor.skip (d : ReportDescriptor) (n : Nat) : ReportDescriptor := { d with position := d.position + n }

section
variable {d : ReportDescriptor} {i : ShortItem} {front rest : List (BitVec 8)}

theorem remaining_ofBytes (l : List (BitVec 8)) : (ReportDescriptor.ofBytes l).remaining = l := by
  refine List.ext_getElem (by simp [ReportDescriptor.remaining, ReportDescriptor.ofBytes, bytes_length]) fun k _ hk => ?_
  simp [ReportDescriptor.remaining, ReportDescriptor.ofBytes, bytes, hk]

theorem remaining_eq_nil : d.remaining = [] ↔ d.length ≤ d.position := by
  rw [← List.length_eq_zero_iff, ReportDescriptor.remaining, bytes_length]
  omega

/-- The bytes that come next. -/
theorem remaining_append (h : d.remaining = front ++ rest) (hfront : front ≠ []) :
    d.position + front.length ≤ d.length ∧ bytes d.data d.position front.length = front ∧
      (d.skip front.length).remaining = rest := by
  have hlength : d.length - d.position = front.length + rest.length := by
    rw [← List.length_append, ← h, ReportDescriptor.remaining, bytes_length]
  have hpos : 0 < front.length := List.length_pos_iff.mpr hfront
  rw [ReportDescriptor.remaining, hlength, bytes_append] at h
  obtain ⟨hnow, hlater⟩ := List.append_inj h (bytes_length _ _ _)
  refine ⟨by omega, hnow, ?_⟩
  have hleft : d.length - (d.position + front.length) = rest.length := by omega
  rw [ReportDescriptor.remaining, ReportDescriptor.skip]
  dsimp only
  rw [hleft, hlater]

/-! ## Reading an item -/

/-- One more byte, behind the ones that are there. -/
theorem push_byte {n : Nat} (b : BitVec 8) :
    BitVec.ofNat 32 n <<< 8 ||| b.setWidth 32 = BitVec.ofNat 32 (256 * n + b.toNat) := by
  have hdisjoint : BitVec.ofNat 32 n <<< 8 &&& b.setWidth 32 = 0#32 := by
    ext k hk
    by_cases hlow : k < 8
    · simp [hlow]
    · simp [BitVec.getLsbD_of_ge b k (by omega)]
  rw [← BitVec.add_eq_or_of_and_eq_zero _ _ hdisjoint]
  apply BitVec.eq_of_toNat_eq
  simp [Nat.shiftLeft_eq]
  omega

/-- The bytes that stand for a size code. -/
theorem readValue_eq {data : ByteMemory} {p size : Nat} (hsize : size < 4) :
    readValue data p size = BitVec.ofNat 32 (bigEndian (bytes data p (bytesRead size))) := by
  have hfirst : (data p).setWidth 32 = BitVec.ofNat 32 (data p).toNat := by
    apply BitVec.eq_of_toNat_eq
    simp
  match size, hsize with
  | 0, _ => rfl
  | 1, _ =>
    rw [readValue, hfirst]
    simp [bytesRead, bytes, bigEndian]
  | 2, _ =>
    rw [readValue, hfirst, push_byte]
    congr 1
    simp [bytesRead, bytes, List.range_succ, bigEndian, Nat.mul_comm]
  | 3, _ =>
    simp only [readValue]
    rw [hfirst, push_byte, push_byte, push_byte]
    congr 1
    simp only [bytesRead, bytes, List.range_succ, List.range_zero, List.nil_append, List.cons_append, List.map_cons,
      List.map_nil, bigEndian, List.length_cons, List.length_nil, Nat.add_zero]
    omega

theorem sizeCode_bytes (h : i.data.length ∈ [0, 1, 2, 4]) :
    (sizeCode i.data.length).toNat < 4 ∧ bytesRead (sizeCode i.data.length).toNat = i.data.length ∧
      (sizeCode i.data.length).toNat ≤ i.data.length := by
  generalize i.data.length = n at h
  simp only [List.mem_cons, List.not_mem_nil, or_false] at h
  rcases h with rfl | rfl | rfl | rfl <;> decide

/-- The fields of a lead byte. -/
theorem lead_fields (i : ShortItem) : i.lead &&& 0x03#8 = (sizeCode i.data.length).setWidth 8 ∧
    itemTypeOf ((i.lead >>> 2) &&& 0x03#8) = some i.type ∧ (i.lead >>> 4) &&& 0x0F#8 = i.tag.setWidth 8 := by
  unfold ShortItem.lead
  generalize sizeCode i.data.length = size
  generalize i.tag = tag
  cases i.type <;> revert tag size <;> decide

/-- An item is read with its data the wrong way round. -/
theorem getNextItem_encode (h : d.remaining = i.encode ++ rest) : d.getNextItem.item = some i.swapped ∧
    d.getNextItem.descriptor = d.skip i.encode.length ∧ d.getNextItem.descriptor.remaining = rest := by
  obtain ⟨hroom, hbytes, hrest⟩ := remaining_append h (List.cons_ne_nil _ _)
  rw [ShortItem.encode, List.length_cons, bytes_succ, List.cons.injEq] at hbytes
  obtain ⟨hlead, hdata⟩ := hbytes
  obtain ⟨hsize, htype, htag⟩ := lead_fields i
  obtain ⟨hcode, hcount, hle⟩ := sizeCode_bytes i.short
  have hnum : (d.data d.position &&& 0x03#8).toNat = (sizeCode i.data.length).toNat := by
    rw [hlead, hsize, BitVec.toNat_setWidth]
    omega
  have hfetch : d.getNextItem = ⟨some i.swapped, d.skip i.encode.length,
      d.position :: List.range' (d.position + 1) i.data.length⟩ := by
    rw [ShortItem.encode, List.length_cons] at hroom
    unfold ReportDescriptor.getNextItem
    rw [if_neg (by omega)]
    dsimp only
    rw [hnum, hcount, if_neg (by omega), readValue_eq hcode, hcount, hdata, hlead, htype, htag, Nat.add_assoc,
      Nat.add_comm 1]
    rfl
  rw [hfetch]
  exact ⟨rfl, rfl, hrest⟩

theorem getNextItem_end (h : d.remaining = []) : d.getNextItem = ⟨none, d, []⟩ := if_pos (remaining_eq_nil.mp h)

theorem fetch_encode : ∀ (items : List ShortItem) (d : ReportDescriptor), d.remaining = items.flatMap ShortItem.encode →
    ReportDescriptor.fetch (items.length + 1) d = items.map (fun i => some i.swapped) ++ [none]
  | [], d, h => by
    rw [List.length_nil, Nat.zero_add, ReportDescriptor.fetch, getNextItem_end h]
    rfl
  | i :: items, d, h => by
    rw [List.flatMap_cons] at h
    obtain ⟨hitem, -, hrest⟩ := getNextItem_encode h
    rw [List.length_cons, ReportDescriptor.fetch, hitem, fetch_encode items _ hrest]
    rfl

theorem swapped_eq_item : i.swapped = i.item ↔ i.data.reverse = i.data := by
  rw [← bigEndian_eq_littleEndian]
  have hle : i.data.length ≤ 4 := by
    have hshort := i.short
    simp only [List.mem_cons, List.not_mem_nil, or_false] at hshort
    omega
  have hpow : 256 ^ i.data.length ≤ 2 ^ 32 := Nat.le_trans (Nat.pow_le_pow_right (by decide) hle) (by decide)
  have hbig := bigEndian_lt i.data
  have hlittle := littleEndian_lt i.data
  constructor
  · intro h
    have hvalue := congrArg (fun item : Item => item.value.toNat) h
    simp only [ShortItem.swapped, ShortItem.item, BitVec.toNat_ofNat] at hvalue
    rwa [Nat.mod_eq_of_lt (by omega), Nat.mod_eq_of_lt (by omega)] at hvalue
  · intro h
    rw [ShortItem.swapped, ShortItem.item, h]

theorem roundTrip_iff (items : List ShortItem) : RoundTrip items ↔ ∀ i ∈ items, i.data.reverse = i.data := by
  rw [RoundTrip, fetch_encode items _ (remaining_ofBytes _), List.append_cancel_right_eq, List.map_inj_left]
  simp only [Option.some.injEq, swapped_eq_item]

theorem readsInside_iff (d : ReportDescriptor) : d.ReadsInside ↔ ¬ d.ShortOfFour := by
  have hcode : (d.data d.position &&& 0x03#8).toNat = 3 ↔ d.data d.position &&& 0x03#8 = 0x03#8 :=
    ⟨fun h => BitVec.eq_of_toNat_eq h, fun h => by rw [h]; rfl⟩
  have hsmall : (d.data d.position &&& 0x03#8).toNat ≤ 3 := by
    rw [BitVec.toNat_and]
    exact Nat.and_le_right
  unfold ReportDescriptor.ReadsInside ReportDescriptor.ShortOfFour ReportDescriptor.getNextItem
  rw [← hcode]
  dsimp only
  generalize (d.data d.position &&& 0x03#8).toNat = size at hsmall ⊢
  split
  · simp
    omega
  split
  · simp
    omega
  -- the item is read, with as many bytes as its code stands for
  · next hinside hroom =>
    have hcount : bytesRead size = if size = 3 then 4 else size := by
      unfold bytesRead
      split <;> simp_all
    simp only [List.mem_cons, List.mem_range'_1, forall_eq_or_imp, hcount]
    constructor
    · rintro ⟨-, hall⟩ ⟨hlength, rfl⟩
      have hlast := hall (d.position + 4) ⟨by omega, by simp⟩
      omega
    · intro hnot
      refine ⟨by omega, fun p hp => ?_⟩
      split at hp <;> omega

end

/-- A sequence of items comes back exactly when its data are the same from both ends, and a call
reads past the end exactly where a fourth byte is missing. -/
theorem decoding_iff (items : List ShortItem) (d : ReportDescriptor) :
    (RoundTrip items ↔ ∀ i ∈ items, i.data.reverse = i.data) ∧ (d.ReadsInside ↔ ¬ d.ShortOfFour) :=
  ⟨roundTrip_iff items, readsInside_iff d⟩

/-- A logical maximum of 255 in two bytes, and four bytes of data that are cut off. -/
theorem decoding_swaps : ¬ RoundTrip [⟨.globalItem, 2#4, [0xFF#8, 0x00#8], by decide⟩] ∧
    ¬ (ReportDescriptor.ofBytes [0x27#8, 0x01#8, 0x02#8, 0x03#8]).ReadsInside := by
  rw [roundTrip_iff, readsInside_iff]
  unfold ReportDescriptor.ShortOfFour
  decide

end BadLands.Hid
