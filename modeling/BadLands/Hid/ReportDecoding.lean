import BadLands.Hid.ReportParser

/-!
# Decoding of HID reports

The offset of an item is kept in 32 bits, and so is the end of the last item, which is all that the
length of a report is compared with. An item of 8-bit elements is read from the byte that it starts in.

* `scan_decoded`: a report is decoded for the collections in turn, up to the first one it is too short for.
* `decodes_iff`: the elements are inside the report and in their places exactly when the items are, as
  they were declared.
-/
namespace BadLands.Hid

open BadLands.Core Keyboard

namespace Keyboard

/-- The reports with this ID, up to the first that is larger than what was received. -/
def decoded (k : Keyboard) (reportID : BitVec 8) (length : Nat) : List Report :=
  (k.collections.filterMap fun c => c.getReport (reportID.setWidth 32) true).takeWhile fun r =>
    decide (r.getReportSize ≤ length)

/-- The byte that is read is inside the report, and the bit is behind those of the items and elements before. -/
structure Visit.Right (v : Visit) (length : Nat) : Prop where
  inside : v.byteIndex < length
  place : v.bit = bitsOf v.before + v.element * v.item.size.toNat

/-- A report of this length is decoded from its own bytes, each element from its own bits. -/
def Decodes (k : Keyboard) (reportID : BitVec 8) (length : Nat) : Prop :=
  ∀ v ∈ (scan reportID length k.collections).1, v.Right length

/-- Elements of one bit or eight are looked at, when they are not constant. -/
def Item.IsRead (item : Item) : Prop := ¬ item.isConstant ∧ (item.size = 1#32 ∨ item.size = 8#32) ∧ item.count ≠ 0#32

/-- The declared place of an item is below 2^32, at a byte when the elements are bytes, and the elements end
inside the report. -/
structure Item.Fits (item : Item) (before : List Item) (length : Nat) : Prop where
  small : bitsOf before < 2 ^ 32
  aligned : item.size = 8#32 → 8 ∣ bitsOf before
  inside : bitsOf (item :: before) ≤ 8 * length

/-- The items of a report that are looked at fit. -/
def ItemsFit (length : Nat) : List Item → Prop
  | [] => True
  | item :: before => (item.IsRead → item.Fits before length) ∧ ItemsFit length before

section
variable {k : Keyboard} {item : Item} {items before : List Item} {length : Nat} {reportID : BitVec 8}

theorem scan_decoded (reportID : BitVec 8) (length : Nat) (k : Keyboard) :
    (scan reportID length k.collections).1 = (k.decoded reportID length).flatMap fun r => visitsOf r.items := by
  unfold decoded
  induction k.collections with
  | nil => rfl
  | cons c collections ih =>
    rw [scan]
    split
    · next hnone => rw [ih, List.filterMap_cons, hnone]
    · next r hsome =>
      rw [List.filterMap_cons, hsome, List.takeWhile_cons]
      split
      · next hshort => rw [if_neg (by simpa using hshort), List.flatMap_nil]
      · next hlong =>
        rw [if_pos (by simpa using hlong), List.flatMap_cons]
        dsimp only
        rw [ih]

/-- So many bits from bit `o` on, which should be bit `place`. -/
theorem bits_right {o place n : Nat} (ho : o = place % 2 ^ 32) :
    (∀ j < n, (o + j) / 8 < length ∧ o + j = place + j * 1) ↔ (n ≠ 0 → place < 2 ^ 32 ∧ place + 1 * n ≤ 8 * length) := by
  constructor
  · intro hvisits hn
    obtain ⟨-, hfirst⟩ := hvisits 0 (by omega)
    obtain ⟨hlast, -⟩ := hvisits (n - 1) (by omega)
    omega
  · intro hfit j hj
    obtain ⟨hsmall, hinside⟩ := hfit (by omega)
    rw [Nat.mod_eq_of_lt hsmall] at ho
    omega

/-- So many bytes from the byte of bit `o` on. -/
theorem bytes_right {o place n : Nat} (ho : o = place % 2 ^ 32) :
    (∀ j < n, 8 * (o / 8 + j) / 8 < length ∧ 8 * (o / 8 + j) = place + j * 8) ↔
      (n ≠ 0 → place < 2 ^ 32 ∧ 8 ∣ place ∧ place + 8 * n ≤ 8 * length) := by
  constructor
  · intro hvisits hn
    obtain ⟨-, hfirst⟩ := hvisits 0 (by omega)
    obtain ⟨hlast, -⟩ := hvisits (n - 1) (by omega)
    omega
  · intro hfit j hj
    obtain ⟨hsmall, haligned, hinside⟩ := hfit (by omega)
    rw [Nat.mod_eq_of_lt hsmall] at ho
    omega

theorem count_ne_zero : item.count ≠ 0#32 ↔ item.count.toNat ≠ 0 := by
  rw [Ne, ← BitVec.toNat_inj, BitVec.toNat_ofNat]

/-- All visits of an item are right exactly when it fits, if it is looked at. -/
theorem visits_right (hplaced : item.offset = BitVec.ofNat 32 (bitsOf before)) :
    (∀ v ∈ item.visits before, v.Right length) ↔ (item.IsRead → item.Fits before length) := by
  have hoffset : item.offset.toNat = bitsOf before % 2 ^ 32 := by rw [hplaced, BitVec.toNat_ofNat]
  have hright : ∀ v : Visit, v.Right length ↔ v.byteIndex < length ∧
      v.bit = bitsOf v.before + v.element * v.item.size.toNat := fun v => ⟨fun h => ⟨h.1, h.2⟩, fun h => ⟨h.1, h.2⟩⟩
  unfold Item.visits
  split
  · next hconstant =>
    exact ⟨fun _ hread => absurd hconstant hread.1, fun _ v hv => by cases hv⟩
  split
  · next hconstant hbit =>
    have hsize : item.size.toNat = 1 := by rw [hbit]; rfl
    have hfits : (item.IsRead → item.Fits before length) ↔ (item.count.toNat ≠ 0 → bitsOf before < 2 ^ 32 ∧
        bitsOf before + 1 * item.count.toNat ≤ 8 * length) := by
      rw [← hsize, ← count_ne_zero]
      refine ⟨fun h hcount => ?_, fun h hread => ?_⟩
      · have hfit := h ⟨hconstant, .inl hbit, hcount⟩
        exact ⟨hfit.small, hfit.inside⟩
      · obtain ⟨hsmall, hinside⟩ := h hread.2.2
        exact ⟨hsmall, fun hbyte => by rw [hbit] at hbyte; exact absurd hbyte (by decide), hinside⟩
    rw [hfits, ← bits_right hoffset, List.forall_mem_map]
    simp only [List.mem_range, hright, Visit.byteIndex, hsize]
  split
  · next hconstant hbit hbyte =>
    have hsize : item.size.toNat = 8 := by rw [hbyte]; rfl
    have hfits : (item.IsRead → item.Fits before length) ↔ (item.count.toNat ≠ 0 → bitsOf before < 2 ^ 32 ∧
        8 ∣ bitsOf before ∧ bitsOf before + 8 * item.count.toNat ≤ 8 * length) := by
      rw [← hsize, ← count_ne_zero, hsize]
      refine ⟨fun h hcount => ?_, fun h hread => ?_⟩
      · have hfit := h ⟨hconstant, .inr hbyte, hcount⟩
        exact ⟨hfit.small, hfit.aligned hbyte, by simpa [bitsOf, hsize] using hfit.inside⟩
      · obtain ⟨hsmall, haligned, hinside⟩ := h hread.2.2
        exact ⟨hsmall, fun _ => haligned, by simpa [bitsOf, hsize] using hinside⟩
    rw [hfits, ← bytes_right hoffset, List.forall_mem_map]
    simp only [List.mem_range, hright, Visit.byteIndex, hsize]
  · next hconstant hbit hbyte =>
    exact ⟨fun _ hread => absurd hread.2.1 (by rw [not_or]; exact ⟨hbit, hbyte⟩), fun _ v hv => by cases hv⟩

theorem visitsOf_right : ∀ {items : List Item}, Placed items →
    ((∀ v ∈ visitsOf items, v.Right length) ↔ ItemsFit length items)
  | [], _ => by simp [visitsOf, ItemsFit]
  | item :: before, hplaced => by
    rw [visitsOf, List.forall_mem_append, visits_right hplaced.1, visitsOf_right hplaced.2, ItemsFit]

theorem decodes_iff_fit (hplaced : ∀ c ∈ k.collections, ∀ input, ∀ r ∈ c.reports input, Placed r.items) :
    k.Decodes reportID length ↔ ∀ r ∈ k.decoded reportID length, ItemsFit length r.items := by
  have hitems : ∀ r ∈ k.decoded reportID length, Placed r.items := by
    intro r hr
    obtain ⟨c, hc, hget⟩ := List.mem_filterMap.mp ((List.takeWhile_sublist _).subset hr)
    exact hplaced c hc true r (List.mem_of_find?_eq_some hget)
  rw [Decodes, scan_decoded, List.forall_mem_flatMap]
  exact forall₂_congr fun r hr => visitsOf_right (hitems r hr)

end

end Keyboard

/-- The items of the keyboards of an accepted descriptor are in their places, up to 32 bits. -/
theorem accepted_placed {d : ReportDescriptor} {heap : Heap} {h : HIDHierarchy}
    (haccept : ReportParser.parse d heap = .accepted h) :
    ∀ d ∈ h.devices, ∀ c ∈ d.2.collections, ∀ input, ∀ r ∈ c.reports input, Placed r.items := by
  obtain ⟨s, depth, -, hs, rfl⟩ := ReportParser.parse_parsed haccept
  obtain ⟨-, hempty, -⟩ | ⟨address, k, -, hdevices, hk⟩ := hs.device
  · rw [hempty]
    exact fun d hd => by cases hd
  · rw [hdevices]
    exact List.forall_mem_singleton.mpr hk.placed

/-- Whatever the bytes of a report are, a keyboard of an accepted descriptor decodes it from its own bytes, and
each element from the place that was declared, exactly when the items of the report fit. -/
theorem decodes_iff (l : List (BitVec 8)) (heap : Heap) {h : HIDHierarchy}
    (haccept : ReportParser.parse (.ofBytes l) heap = .accepted h) :
    ∀ d ∈ h.devices, ∀ reportID length, d.2.Decodes reportID length ↔
      ∀ r ∈ d.2.decoded reportID length, ItemsFit length r.items :=
  fun d hd _ _ => decodes_iff_fit (accepted_placed haccept d hd)

/-- An array of so many keys of a byte each. -/
def keyArray (count : BitVec 32) : List (BitVec 8) :=
  [0x05#8, 0x01#8, 0x09#8, 0x06#8, 0xA1#8, 0x01#8, 0x75#8, 0x08#8,
    0x97#8, count.extractLsb' 24 8, count.extractLsb' 16 8, count.extractLsb' 8 8, count.extractLsb' 0 8,
    0x81#8, 0x00#8, 0xC0#8]

/-- Its item. -/
def keyItem (count : BitVec 32) : Keyboard.Item :=
  ⟨false, 1#32, 0#32, 0#32, 0#32, 0#32, 0#32, 8#32, count⟩

theorem decodes_keys : ∃ h, ReportParser.parse (.ofBytes (keyArray 6#32)) ⟨fun _ => true, 0⟩ = .accepted h ∧
    ∃ d ∈ h.devices, d.2.Decodes 0#8 6 := by
  have haccept : ∃ h d, ReportParser.parse (.ofBytes (keyArray 6#32)) ⟨fun _ => true, 0⟩ = .accepted h ∧
      d ∈ h.devices ∧ d.2.decoded 0#8 6 = [⟨0#32, [keyItem 6#32]⟩] := ⟨_, _, rfl, List.mem_singleton_self _, rfl⟩
  obtain ⟨h, d, haccept, hd, hdecoded⟩ := haccept
  refine ⟨h, haccept, d, hd, (decodes_iff _ _ haccept d hd 0#8 6).mpr ?_⟩
  rw [hdecoded]
  exact List.forall_mem_singleton.mpr ⟨fun _ => ⟨by decide, by decide, by decide⟩, trivial⟩

/-- So many keys that their bits are 8 again in 32 bits: a report of one byte is long enough for them. -/
theorem decoding_wraps : ∃ h, ReportParser.parse (.ofBytes (keyArray 0x20000001#32)) ⟨fun _ => true, 0⟩ = .accepted h ∧
    ∃ d ∈ h.devices, ¬ d.2.Decodes 0#8 1 := by
  have haccept : ∃ h d, ReportParser.parse (.ofBytes (keyArray 0x20000001#32)) ⟨fun _ => true, 0⟩ = .accepted h ∧
      d ∈ h.devices ∧ d.2.decoded 0#8 1 = [⟨0#32, [keyItem 0x20000001#32]⟩] :=
    ⟨_, _, rfl, List.mem_singleton_self _, rfl⟩
  obtain ⟨h, d, haccept, hd, hdecoded⟩ := haccept
  refine ⟨h, haccept, d, hd, fun hdecodes => ?_⟩
  rw [decodes_iff_fit (accepted_placed haccept d hd), hdecoded, List.forall_mem_singleton] at hdecodes
  have hinside := (hdecodes.1 ⟨by decide, by decide, by decide⟩).inside
  exact absurd hinside (by decide)

end BadLands.Hid
