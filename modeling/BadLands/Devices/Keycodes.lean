import BadLands.Devices.ScanCodes

/-!
# The keycode map

`GetVirtualKeyPacket` looks the keycode of a packet up in a table of 8 rows and 20 columns, without a check. No keyboard
sends a keypoint that is behind the table (`set1_sent`, `set2_sent`).
-/
namespace BadLands.Devices.Keycodes

open BadLands.Devices.ScanCodes

/-! mirrors kernel/include/devices/KeyboardDispatcher/Keycodes.h:21-187 -/

def VK_BACK : BitVec 8 := 0x08
def VK_RETURN : BitVec 8 := 0x0D
def VK_SPACE : BitVec 8 := 0x20
def VK_0 : BitVec 8 := 0x30
def VK_9 : BitVec 8 := 0x39
def VK_A : BitVec 8 := 0x41
def VK_Z : BitVec 8 := 0x5A
def VK_OEM_COMMA : BitVec 8 := 0xBC
def VK_OEM_MINUS : BitVec 8 := 0xBD
def VK_OEM_PERIOD : BitVec 8 := 0xBE
def VK_OEM_2 : BitVec 8 := 0xBF

/-- The values of the `VK_` constants.
mirrors kernel/src/devices/KeyboardDispatcher/KeycodeMap.c:19-180 -/
def keycodeRows : List (List (BitVec 8)) := [
    [0x00, 0x00, 0x00, 0x00, 0x00, 0x00, 0x00, 0x00, 0x00, 0x00, 0xAC, 0xAA, 0xAB, 0xA8, 0xA9, 0xA7, 0xA6, 0xB6,
      0xB4, 0xB5],
    [0x00, 0x7C, 0x7D, 0x7E, 0x7F, 0x80, 0x81, 0x82, 0x83, 0x84, 0x85, 0x86, 0x87, 0x2C, 0x91, 0x13, 0xAD, 0xAE,
      0xAF, 0xB7],
    [0x1B, 0x70, 0x71, 0x72, 0x73, 0x74, 0x75, 0x76, 0x77, 0x78, 0x79, 0x7A, 0x7B, 0x2D, 0x24, 0x21, 0xB2, 0xB1,
      0xB3, 0xB0],
    [0xC0, 0x31, 0x32, 0x33, 0x34, 0x35, 0x36, 0x37, 0x38, 0x39, 0x30, 0xBD, 0xBB, 0x08, 0x2E, 0x23, 0x90, 0x6F,
      0x6A, 0x6D],
    [0x09, 0x51, 0x57, 0x45, 0x52, 0x54, 0x59, 0x55, 0x49, 0x4F, 0x50, 0xDB, 0xDD, 0xDC, 0x22, 0x00, 0x67, 0x68,
      0x69, 0x00],
    [0x14, 0x41, 0x53, 0x44, 0x46, 0x47, 0x48, 0x4A, 0x4B, 0x4C, 0xBA, 0xDE, 0x00, 0x0D, 0x00, 0x00, 0x64, 0x65,
      0x66, 0x6B],
    [0xA0, 0xE2, 0x5A, 0x58, 0x43, 0x56, 0x42, 0x4E, 0x4D, 0xBC, 0xBE, 0xBF, 0xA1, 0x26, 0x00, 0x00, 0x61, 0x62,
      0x63, 0x6C],
    [0xA2, 0x5B, 0xA4, 0x00, 0x00, 0x00, 0x20, 0x00, 0xA5, 0x5C, 0x5D, 0xA3, 0x25, 0x28, 0x27, 0x00, 0x60, 0x00,
      0x6E, 0x0D]]

/-- `KeycodeMap[keypoint]`; `none` is a read behind the table. -/
def KeycodeMap (keypoint : BitVec 8) : Option (BitVec 8) :=
  keycodeRows[keypoint.toNat % 8]?.bind (·[keypoint.toNat / 8]?)

/-! mirrors kernel/include/devices/KeyboardDispatcher/Keypacket.hpp:21-29 -/

def FLAG_LEFT_CONTROL : BitVec 16 := 0x01
def FLAG_LEFT_SHIFT : BitVec 16 := 0x02
def FLAG_LEFT_ALT : BitVec 16 := 0x04
def FLAG_RIGHT_CONTROL : BitVec 16 := 0x10
def FLAG_RIGHT_SHIFT : BitVec 16 := 0x20
def FLAG_RIGHT_ALT : BitVec 16 := 0x40
def FLAG_KEY_PRESSED : BitVec 16 := 0x100

/-- mirrors kernel/include/devices/KeyboardDispatcher/Keypacket.hpp:37-41 -/
structure VirtualKeyPacket where
  keypoint : BitVec 8
  keycode : BitVec 8
  flags : BitVec 16
  deriving DecidableEq, Repr

/-- mirrors kernel/src/devices/KeyboardDispatcher/Converter.cpp:27-33 -/
def GetVirtualKeyPacket (packet : BasicKeyPacket) : Option VirtualKeyPacket :=
  (KeycodeMap packet.keypoint).map fun keycode => ⟨packet.keypoint, keycode, packet.flags⟩

/-! ## Keypoints in the table -/

/-- The keypoint has a keycode. -/
def Inside (keypoint : BitVec 8) : Prop := (KeycodeMap keypoint).isSome = true

instance Inside.decidable (keypoint : BitVec 8) : Decidable (Inside keypoint) := inferInstanceAs (Decidable (_ = true))

/-- A packet as the handlers create it: it has a keycode, and no modifier. -/
structure Sent (packet : BasicKeyPacket) : Prop where
  inside : Inside packet.keypoint
  flags : packet.flags = 0 ∨ packet.flags = FLAG_KEY_PRESSED

theorem scan_code_set_1_inside : ∀ byte, Inside (scan_code_set_1_keypoints byte) := by decide +kernel

theorem ext_1_scan_code_set_1_inside : ∀ byte, Inside (ext_1_scan_code_set_1_keypoints byte) := by decide +kernel

theorem scan_code_set_2_inside : ∀ byte, Inside (scan_code_set_2_keypoints byte) := by decide +kernel

theorem ext_1_scan_code_set_2_inside : ∀ byte, Inside (ext_1_scan_code_set_2_keypoints byte) := by decide +kernel

section
variable {s s' : State} {byte : BitVec 8} {packet : BasicKeyPacket}

/-- A longer sequence creates its own packet or none. -/
theorem follow_packet {codes : List (BitVec 8)} {sent : BasicKeyPacket} {done failed : State}
    (h : follow codes s byte sent done failed = some (s', some packet)) : packet = sent := by
  rw [follow, Option.map_eq_some_iff] at h
  obtain ⟨code, -, h⟩ := h
  split at h
  · dsimp only at h
    split at h
    · cases h
      rfl
    · cases h
  · dsimp only at h
    split at h <;> cases h

theorem ite_flags {P : Prop} [Decidable P] : (if P then 0 else KEY_PRESSED) = 0 ∨
    (if P then 0 else KEY_PRESSED) = FLAG_KEY_PRESSED := by
  split
  · exact .inl rfl
  · exact .inr rfl

theorem set1_sent (h : KeyboardScanCodeSet1Handler s byte = some (s', some packet)) : Sent packet := by
  rw [KeyboardScanCodeSet1Handler] at h
  split at h
  · split at h
    · cases h
    · split at h
      · cases h
      · cases h
        exact ⟨scan_code_set_1_inside byte, ite_flags⟩
  · rw [Option.bind_eq_some_iff] at h
    obtain ⟨pressed, -, h⟩ := h
    split at h
    · cases h
    · rw [Option.map_eq_some_iff] at h
      obtain ⟨released, -, h⟩ := h
      split at h
      · cases h
      · cases h
        exact ⟨ext_1_scan_code_set_1_inside byte, ite_flags⟩
  · rw [follow_packet h]
    exact ⟨show Inside ext_2_scan_code_set_1_keypoint by decide, .inr rfl⟩
  · rw [follow_packet h]
    exact ⟨show Inside ext_2_scan_code_set_1_keypoint by decide, .inl rfl⟩
  · rw [follow_packet h]
    exact ⟨show Inside ext_3_scan_code_set_1_keypoint by decide, .inr rfl⟩

theorem set2_sent (h : KeyboardScanCodeSet2Handler s byte = some (s', some packet)) : Sent packet := by
  rw [KeyboardScanCodeSet2Handler] at h
  split at h
  · split at h
    · cases h
    · split at h
      · cases h
      · split at h
        · cases h
        · cases h
          exact ⟨scan_code_set_2_inside _, ite_flags⟩
  · split at h
    · cases h
    · rw [Option.bind_eq_some_iff] at h
      obtain ⟨pressed, -, h⟩ := h
      split at h
      · cases h
      · rw [Option.map_eq_some_iff] at h
        obtain ⟨released, -, h⟩ := h
        split at h
        · cases h
        · cases h
          exact ⟨ext_1_scan_code_set_2_inside byte, ite_flags⟩
  · rw [follow_packet h]
    exact ⟨show Inside ext_2_scan_code_set_2_keypoint by decide, .inr rfl⟩
  · rw [follow_packet h]
    exact ⟨show Inside ext_2_scan_code_set_2_keypoint by decide, .inl rfl⟩
  · rw [follow_packet h]
    exact ⟨show Inside ext_3_scan_code_set_2_keypoint by decide, .inr rfl⟩

end

end BadLands.Devices.Keycodes
