import BadLands.Core.Machine
import Mathlib.Algebra.Group.Nat.Defs
import Mathlib.Data.List.Basic

/-!
# PS/2 scan codes

The handlers of scan code sets 1 and 2 keep a state, a byte counter and two flags from call to call. The counter is
the index into the sequence tables; `none` is a read behind one of them.

* `set1_states`: in every state that set 1 comes to, all reads are in bounds, eight bytes lead back to `DEFAULT`, and
  there all keys are decoded.
* `set2_states_iff`: set 2 counts every release code, and is right as long as the counter stays low enough.
* `neverStuck_iff`: both.
-/
namespace BadLands.Devices.ScanCodes

open BadLands.Core

/-! ## The tables -/

/-- mirrors kernel/src/devices/PS2/Keypoints.cpp:21-23 -/
def KEYPOINT (row column : Nat) : BitVec 8 :=
  BitVec.ofNat 8 ((row &&& 0x07) ||| ((column &&& 0x1F) <<< 3))

/-- A code, a row and a column; the other codes have the keypoint of row 0 and column 0. -/
def keypoints (table : List (Nat × Nat × Nat)) (byte : BitVec 8) : BitVec 8 :=
  match table.lookup byte.toNat with
  | some (row, column) => KEYPOINT row column
  | none => KEYPOINT 0 0

/-- The second half of the table repeats the first.

mirrors kernel/src/devices/PS2/Keypoints.cpp:37-102 -/
def scan_code_set_1_keypoints (byte : BitVec 8) : BitVec 8 :=
  keypoints [
    (0x01, 2, 0), (0x02, 3, 1), (0x03, 3, 2), (0x04, 3, 3), (0x05, 3, 4), (0x06, 3, 5), (0x07, 3, 6),
    (0x08, 3, 7), (0x09, 3, 8), (0x0A, 3, 9), (0x0B, 3, 10), (0x0C, 3, 11), (0x0D, 3, 12), (0x0E, 3, 13),
    (0x0F, 4, 0), (0x10, 4, 1), (0x11, 4, 2), (0x12, 4, 3), (0x13, 4, 4), (0x14, 4, 5), (0x15, 4, 6),
    (0x16, 4, 7), (0x17, 4, 8), (0x18, 4, 9), (0x19, 4, 10), (0x1A, 4, 11), (0x1B, 4, 12), (0x1C, 5, 13),
    (0x1D, 7, 0), (0x1E, 5, 1), (0x1F, 5, 2), (0x20, 5, 3), (0x21, 5, 4), (0x22, 5, 5), (0x23, 5, 6),
    (0x24, 5, 7), (0x25, 5, 8), (0x26, 5, 9), (0x27, 5, 10), (0x28, 5, 11), (0x29, 3, 0), (0x2A, 6, 0),
    (0x2B, 4, 13), (0x2C, 6, 2), (0x2D, 6, 3), (0x2E, 6, 4), (0x2F, 6, 5), (0x30, 6, 6), (0x31, 6, 7),
    (0x32, 6, 8), (0x33, 6, 9), (0x34, 6, 10), (0x35, 6, 11), (0x36, 6, 12), (0x37, 3, 18), (0x38, 7, 2),
    (0x39, 7, 6), (0x3A, 5, 0), (0x3B, 2, 1), (0x3C, 2, 2), (0x3D, 2, 3), (0x3E, 2, 4), (0x3F, 2, 5),
    (0x40, 2, 6), (0x41, 2, 7), (0x42, 2, 8), (0x43, 2, 9), (0x44, 2, 10), (0x45, 3, 16), (0x46, 1, 14),
    (0x47, 4, 16), (0x48, 4, 17), (0x49, 4, 18), (0x4A, 3, 19), (0x4B, 5, 16), (0x4C, 5, 17), (0x4D, 5, 18),
    (0x4E, 5, 19), (0x4F, 6, 16), (0x50, 6, 17), (0x51, 6, 18), (0x52, 7, 16), (0x53, 7, 18), (0x57, 2, 11),
    (0x58, 2, 12), (0x59, 6, 19), (0x64, 1, 1), (0x65, 1, 2), (0x66, 1, 3), (0x67, 1, 4), (0x68, 1, 5),
    (0x69, 1, 6), (0x6A, 1, 7), (0x6B, 1, 8), (0x6C, 1, 9), (0x6D, 1, 10), (0x6E, 1, 11), (0x76, 1, 12)] (byte &&& 0x7F#8)

/-- The second half of the table repeats the first.

mirrors kernel/src/devices/PS2/Keypoints.cpp:104-169 -/
def ext_1_scan_code_set_1_keypoints (byte : BitVec 8) : BitVec 8 :=
  keypoints [
    (0x10, 2, 17), (0x19, 2, 19), (0x1C, 7, 19), (0x1D, 7, 11), (0x20, 1, 16), (0x21, 1, 19), (0x22, 2, 18),
    (0x24, 2, 16), (0x2E, 1, 17), (0x30, 1, 18), (0x32, 0, 10), (0x35, 3, 17), (0x38, 7, 8), (0x47, 2, 14),
    (0x48, 6, 13), (0x49, 2, 15), (0x4B, 7, 12), (0x4D, 7, 14), (0x4F, 3, 15), (0x50, 7, 13), (0x51, 4, 14),
    (0x52, 2, 13), (0x53, 3, 14), (0x5B, 7, 1), (0x5C, 7, 9), (0x5D, 7, 10), (0x65, 0, 11), (0x66, 0, 12),
    (0x67, 0, 13), (0x68, 0, 14), (0x69, 0, 15), (0x6A, 0, 16), (0x6B, 0, 17), (0x6C, 0, 18), (0x6D, 0, 19)] (byte &&& 0x7F#8)

/-- mirrors kernel/src/devices/PS2/Keypoints.cpp:180-245 -/
def scan_code_set_2_keypoints (byte : BitVec 8) : BitVec 8 :=
  keypoints [
    (0x01, 2, 9), (0x03, 2, 5), (0x04, 2, 3), (0x05, 2, 1), (0x06, 2, 2), (0x07, 2, 12), (0x09, 2, 10),
    (0x0A, 2, 8), (0x0B, 2, 6), (0x0C, 2, 4), (0x0D, 4, 0), (0x0E, 3, 0), (0x11, 7, 2), (0x12, 6, 0),
    (0x14, 7, 0), (0x15, 4, 1), (0x16, 3, 1), (0x1A, 6, 2), (0x1B, 5, 2), (0x1C, 5, 1), (0x1D, 4, 2),
    (0x1E, 3, 2), (0x21, 6, 4), (0x22, 6, 3), (0x23, 5, 3), (0x24, 4, 3), (0x25, 3, 4), (0x26, 3, 3),
    (0x29, 7, 6), (0x2A, 6, 5), (0x2B, 5, 4), (0x2C, 4, 5), (0x2D, 4, 4), (0x2E, 3, 5), (0x31, 6, 7),
    (0x32, 6, 6), (0x33, 5, 6), (0x34, 5, 5), (0x35, 4, 6), (0x36, 3, 6), (0x3A, 6, 8), (0x3B, 5, 7),
    (0x3C, 4, 7), (0x3D, 3, 7), (0x3E, 3, 8), (0x41, 6, 9), (0x42, 5, 8), (0x43, 4, 8), (0x44, 4, 9),
    (0x45, 3, 10), (0x46, 3, 9), (0x49, 6, 10), (0x4A, 6, 11), (0x4B, 5, 9), (0x4C, 5, 10), (0x4D, 4, 10),
    (0x4E, 3, 11), (0x52, 5, 11), (0x54, 4, 11), (0x55, 3, 12), (0x58, 5, 0), (0x59, 6, 12), (0x5A, 5, 13),
    (0x5B, 4, 12), (0x5D, 4, 13), (0x66, 3, 13), (0x69, 6, 16), (0x6B, 5, 16), (0x6C, 4, 16), (0x70, 7, 16),
    (0x71, 7, 18), (0x72, 6, 17), (0x73, 5, 17), (0x74, 5, 18), (0x75, 4, 17), (0x76, 2, 0), (0x77, 3, 16),
    (0x78, 2, 11), (0x79, 5, 19), (0x7A, 6, 18), (0x7B, 3, 19), (0x7C, 3, 18), (0x7D, 4, 18), (0x7E, 1, 14),
    (0x83, 2, 7)] byte

/-- mirrors kernel/src/devices/PS2/Keypoints.cpp:247-312 -/
def ext_1_scan_code_set_2_keypoints (byte : BitVec 8) : BitVec 8 :=
  keypoints [
    (0x10, 0, 11), (0x11, 7, 8), (0x14, 7, 11), (0x15, 2, 17), (0x18, 0, 12), (0x1F, 7, 1), (0x20, 0, 13),
    (0x21, 1, 17), (0x23, 1, 16), (0x27, 7, 9), (0x28, 0, 14), (0x2B, 1, 19), (0x2F, 7, 10), (0x30, 0, 15),
    (0x32, 1, 18), (0x34, 2, 18), (0x38, 0, 16), (0x3A, 0, 10), (0x3B, 2, 16), (0x40, 0, 17), (0x48, 0, 18),
    (0x4A, 3, 17), (0x4D, 2, 19), (0x50, 0, 19), (0x5A, 7, 19), (0x69, 3, 15), (0x6B, 7, 12), (0x6C, 2, 14),
    (0x70, 2, 13), (0x71, 3, 14), (0x72, 7, 13), (0x74, 7, 14), (0x75, 6, 13), (0x7A, 4, 14), (0x7D, 2, 15)] byte

def ext_2_scan_code_set_1_scancodes_pressed : List (BitVec 8) := [0xE0, 0x2A, 0xE0, 0x37]
def ext_2_scan_code_set_1_scancodes_released : List (BitVec 8) := [0xE0, 0xB7, 0xE0, 0xAA]
def ext_2_scan_code_set_1_keypoint : BitVec 8 := KEYPOINT 1 13

def ext_3_scan_code_set_1_scancodes : List (BitVec 8) := [0xE1, 0x1D, 0x45, 0xE1, 0x9D, 0xC5]
def ext_3_scan_code_set_1_keypoint : BitVec 8 := KEYPOINT 1 15

def ext_2_scan_code_set_2_scancodes_pressed : List (BitVec 8) := [0xE0, 0x12, 0xE0, 0x7C]
def ext_2_scan_code_set_2_scancodes_released : List (BitVec 8) := [0xE0, 0xF0, 0x7C, 0xE0, 0xF0, 0x12]
def ext_2_scan_code_set_2_keypoint : BitVec 8 := KEYPOINT 1 13

def ext_3_scan_code_set_2_scancodes : List (BitVec 8) := [0xE1, 0x14, 0x77, 0xE1, 0xF0, 0x14, 0xF0, 0x77]
def ext_3_scan_code_set_2_keypoint : BitVec 8 := KEYPOINT 1 15

def SCAN_CODE_SET_1_EXT_1_2 : BitVec 8 := 0xE0
def SCAN_CODE_SET_1_EXT_3 : BitVec 8 := 0xE1
def SCAN_CODE_SET_2_RELEASE : BitVec 8 := 0xF0
def SCAN_CODE_SET_2_EXT_1_2 : BitVec 8 := 0xE0
def SCAN_CODE_SET_2_EXT_3 : BitVec 8 := 0xE1

/-! ## The handlers -/

/-- mirrors kernel/include/devices/KeyboardDispatcher/Keypacket.hpp:31-35 -/
structure BasicKeyPacket where
  scancode : BitVec 8
  keypoint : BitVec 8
  flags : BitVec 16
  deriving DecidableEq, Repr

def KEY_PRESSED : BitVec 16 := 0x100

inductive Mode
  | DEFAULT | EXTENDED1 | EXTENDED2_PRESSED | EXTENDED2_RELEASED | EXTENDED3
  deriving DecidableEq, Repr

/-- What a handler keeps; set 1 has no `onRelease`. -/
structure State where
  state : Mode := .DEFAULT
  bytesRead : Nat := 0
  onError : Bool := false
  onRelease : Bool := false
  deriving DecidableEq, Repr

/-- `++bytesRead`, of 32 bits. -/
def increment (bytesRead : Nat) : Nat := (bytesRead + 1) % 2 ^ 32

/-- A byte of a longer sequence. At the end of it the handler is in state `done` with a packet, or in state `failed`. -/
def follow (codes : List (BitVec 8)) (s : State) (byte : BitVec 8) (packet : BasicKeyPacket) (done failed : State) :
    Option (State × Option BasicKeyPacket) :=
  codes[s.bytesRead]?.map fun code =>
    let bytesRead := increment s.bytesRead
    if byte = code ∧ s.onError = false then
      if bytesRead = codes.length then (done, some packet) else ({ s with bytesRead }, none)
    else if bytesRead = codes.length then (failed, none)
    else ({ s with bytesRead, onError := true }, none)

/-- mirrors kernel/src/devices/PS2/Keypoints.cpp:395-523 -/
def KeyboardScanCodeSet1Handler (s : State) (byte : BitVec 8) : Option (State × Option BasicKeyPacket) :=
  let flags := if byte &&& 0x80#8 ≠ 0#8 then 0 else KEY_PRESSED
  let done := { s with bytesRead := 0, state := .DEFAULT }
  let failed := { s with bytesRead := 0, state := .DEFAULT, onError := false }
  match s.state with
  | .DEFAULT =>
    if byte = SCAN_CODE_SET_1_EXT_1_2 then some ({ s with bytesRead := increment s.bytesRead, state := .EXTENDED1 }, none)
    else if byte = SCAN_CODE_SET_1_EXT_3 then some ({ s with bytesRead := increment s.bytesRead, state := .EXTENDED3 }, none)
    else some (s, some ⟨byte, scan_code_set_1_keypoints byte, flags⟩)
  | .EXTENDED1 =>
    ext_2_scan_code_set_1_scancodes_pressed[1]?.bind fun pressed =>
      if byte = pressed then some ({ s with bytesRead := increment s.bytesRead, state := .EXTENDED2_PRESSED }, none)
      else ext_2_scan_code_set_1_scancodes_released[1]?.map fun released =>
        if byte = released then ({ s with bytesRead := increment s.bytesRead, state := .EXTENDED2_RELEASED }, none)
        else (done, some ⟨byte, ext_1_scan_code_set_1_keypoints byte, flags⟩)
  | .EXTENDED2_PRESSED =>
    follow ext_2_scan_code_set_1_scancodes_pressed s byte ⟨byte, ext_2_scan_code_set_1_keypoint, KEY_PRESSED⟩ done failed
  | .EXTENDED2_RELEASED =>
    follow ext_2_scan_code_set_1_scancodes_released s byte ⟨byte, ext_2_scan_code_set_1_keypoint, 0⟩ done failed
  | .EXTENDED3 =>
    follow ext_3_scan_code_set_1_scancodes s byte ⟨byte, ext_3_scan_code_set_1_keypoint, KEY_PRESSED⟩ done failed

/-- mirrors kernel/src/devices/PS2/Keypoints.cpp:525-670 -/
def KeyboardScanCodeSet2Handler (s : State) (byte : BitVec 8) : Option (State × Option BasicKeyPacket) :=
  let flags := if s.onRelease then 0 else KEY_PRESSED
  let done := { s with bytesRead := 0, state := .DEFAULT }
  let failed := { s with bytesRead := 0, state := .DEFAULT, onError := false }
  match s.state with
  | .DEFAULT =>
    if byte = SCAN_CODE_SET_2_EXT_1_2 then some ({ s with bytesRead := increment s.bytesRead, state := .EXTENDED1 }, none)
    else if byte = SCAN_CODE_SET_2_EXT_3 then some ({ s with bytesRead := increment s.bytesRead, state := .EXTENDED3 }, none)
    else if byte = SCAN_CODE_SET_2_RELEASE then some ({ s with bytesRead := increment s.bytesRead, onRelease := true }, none)
    else some ({ s with bytesRead := 0, onRelease := false }, some ⟨byte, scan_code_set_2_keypoints (byte % 0x84#8), flags⟩)
  | .EXTENDED1 =>
    if byte = SCAN_CODE_SET_2_RELEASE then some ({ s with bytesRead := increment s.bytesRead, onRelease := true }, none)
    else ext_2_scan_code_set_2_scancodes_pressed[s.bytesRead]?.bind fun pressed =>
      if byte = pressed then some ({ s with bytesRead := increment s.bytesRead, state := .EXTENDED2_PRESSED }, none)
      else ext_2_scan_code_set_2_scancodes_released[s.bytesRead]?.map fun released =>
        if byte = released then ({ s with bytesRead := increment s.bytesRead, state := .EXTENDED2_RELEASED }, none)
        else ({ done with onRelease := false }, some ⟨byte, ext_1_scan_code_set_2_keypoints byte, flags⟩)
  | .EXTENDED2_PRESSED =>
    follow ext_2_scan_code_set_2_scancodes_pressed s byte ⟨byte, ext_2_scan_code_set_2_keypoint, KEY_PRESSED⟩ done
      { failed with onRelease := false }
  | .EXTENDED2_RELEASED =>
    follow ext_2_scan_code_set_2_scancodes_released s byte ⟨byte, ext_2_scan_code_set_2_keypoint, 0⟩
      { done with onRelease := false } { failed with onRelease := false }
  | .EXTENDED3 =>
    follow ext_3_scan_code_set_2_scancodes s byte ⟨byte, ext_3_scan_code_set_2_keypoint, KEY_PRESSED⟩ done failed

/-! ## The property -/

abbrev Handler := State → BitVec 8 → Option (State × Option BasicKeyPacket)

def step (handler : Handler) (s : State) (byte : BitVec 8) : Option State := (handler s byte).map Prod.fst

/-- The bytes one after the other, with the packets that are created. -/
def play (handler : Handler) : State → List (BitVec 8) → Option (State × List BasicKeyPacket)
  | s, [] => some (s, [])
  | s, byte :: bytes => (handler s byte).bind fun (s, packet) =>
    (play handler s bytes).map fun (s, packets) => (s, packet.toList ++ packets)

/-- The codes of a key; one key has no break code. -/
structure Key where
  make : List (BitVec 8)
  release : Option (List (BitVec 8))
  keypoint : BitVec 8

/-- The codes to which a table gives a keypoint. -/
def assigned (table : BitVec 8 → BitVec 8) (n : Nat) : List (BitVec 8) :=
  ((List.range n).map (BitVec.ofNat 8)).filter (table · ≠ 0#8)

def keysOfSet1 : List Key :=
  (assigned scan_code_set_1_keypoints 0x80).map (fun c => ⟨[c], some [c ||| 0x80#8], scan_code_set_1_keypoints c⟩) ++
  (assigned ext_1_scan_code_set_1_keypoints 0x80).map
    (fun c => ⟨[0xE0, c], some [0xE0, c ||| 0x80#8], ext_1_scan_code_set_1_keypoints c⟩) ++
  [⟨ext_2_scan_code_set_1_scancodes_pressed, some ext_2_scan_code_set_1_scancodes_released, ext_2_scan_code_set_1_keypoint⟩,
    ⟨ext_3_scan_code_set_1_scancodes, none, ext_3_scan_code_set_1_keypoint⟩]

def keysOfSet2 : List Key :=
  (assigned scan_code_set_2_keypoints 0x84).map (fun c => ⟨[c], some [0xF0, c], scan_code_set_2_keypoints c⟩) ++
  (assigned ext_1_scan_code_set_2_keypoints 0x100).map
    (fun c => ⟨[0xE0, c], some [0xE0, 0xF0, c], ext_1_scan_code_set_2_keypoints c⟩) ++
  [⟨ext_2_scan_code_set_2_scancodes_pressed, some ext_2_scan_code_set_2_scancodes_released, ext_2_scan_code_set_2_keypoint⟩,
    ⟨ext_3_scan_code_set_2_scancodes, none, ext_3_scan_code_set_2_keypoint⟩]

/-- One packet, with the last byte of the code, and the handler waits for the next key. -/
def Decoded (handler : Handler) (s : State) (code : List (BitVec 8)) (keypoint : BitVec 8) (flags : BitVec 16) : Prop :=
  ∃ s', play handler s code = some (s', [⟨code.getLastD 0, keypoint, flags⟩]) ∧ s'.state = .DEFAULT ∧ s'.onRelease = false

instance (handler : Handler) (s : State) (code : List (BitVec 8)) (keypoint : BitVec 8) (flags : BitVec 16) :
    Decidable (Decoded handler s code keypoint flags) :=
  match h : play handler s code with
  | none => isFalse fun ⟨_, hplay, _⟩ => by rw [h] at hplay; cases hplay
  | some (s', packets) =>
    decidable_of_iff (packets = [⟨code.getLastD 0, keypoint, flags⟩] ∧ s'.state = .DEFAULT ∧ s'.onRelease = false)
      ⟨fun ⟨hpackets, hs'⟩ => ⟨s', hpackets ▸ h, hs'⟩, fun ⟨_, hplay, hs'⟩ => by
        rw [h] at hplay
        cases hplay
        exact ⟨rfl, hs'⟩⟩

def InBounds (handler : Handler) (s : State) : Prop := ∀ byte, (handler s byte).isSome

/-- Eight bytes that are neither a prefix nor a release code come to `DEFAULT`. -/
def Returns (handler : Handler) (special : List (BitVec 8)) (s : State) : Prop :=
  ∀ bytes : List (BitVec 8), bytes.length = 8 → (∀ b ∈ bytes, b ∉ special) →
    ∃ k ≤ 8, ∃ s', Machine.run (step handler) s (bytes.take k) = some s' ∧ s'.state = .DEFAULT

def Decodes (handler : Handler) (keys : List Key) (s : State) : Prop :=
  s.state = .DEFAULT → s.onRelease = false → ∀ key ∈ keys,
    Decoded handler s key.make key.keypoint KEY_PRESSED ∧ ∀ code ∈ key.release, Decoded handler s code key.keypoint 0

/-- What is asked of a state. -/
structure Sound (handler : Handler) (special : List (BitVec 8)) (keys : List Key) (s : State) : Prop where
  inBounds : InBounds handler s
  returns : Returns handler special s
  decodes : Decodes handler keys s

def specialOfSet1 : List (BitVec 8) := [SCAN_CODE_SET_1_EXT_1_2, SCAN_CODE_SET_1_EXT_3]

def specialOfSet2 : List (BitVec 8) := [SCAN_CODE_SET_2_EXT_1_2, SCAN_CODE_SET_2_EXT_3, SCAN_CODE_SET_2_RELEASE]

/-! ## Coming back -/

section
variable {handler : Handler} {special : List (BitVec 8)} {s s' : State} {byte : BitVec 8}

/-- A measure that falls with each byte and is 0 in `DEFAULT` only. -/
theorem run_returns {Good : State → Prop} {measure : State → Nat}
    (hzero : ∀ s, Good s → measure s = 0 → s.state = .DEFAULT)
    (hless : ∀ s byte, Good s → 0 < measure s → byte ∉ special →
      ∃ s', step handler s byte = some s' ∧ Good s' ∧ measure s' < measure s) :
    ∀ (n : Nat) (bytes : List (BitVec 8)) (s : State), Good s → measure s ≤ n → n ≤ bytes.length →
      (∀ b ∈ bytes, b ∉ special) →
      ∃ k ≤ n, ∃ s', Machine.run (step handler) s (bytes.take k) = some s' ∧ s'.state = .DEFAULT
  | 0, _, s, hgood, hn, _, _ => ⟨0, Nat.le_refl 0, s, rfl, hzero s hgood (Nat.le_zero.mp hn)⟩
  | n + 1, [], _, _, _, hlength, _ => absurd hlength (Nat.not_succ_le_zero n)
  | n + 1, byte :: bytes, s, hgood, hn, hlength, hbytes => by
    rcases Nat.eq_zero_or_pos (measure s) with h0 | hpos
    · exact ⟨0, Nat.zero_le _, s, rfl, hzero s hgood h0⟩
    · obtain ⟨s₁, hstep, hgood₁, hlt⟩ := hless s byte hgood hpos (hbytes byte List.mem_cons_self)
      obtain ⟨k, hk, s', hrun, hs'⟩ := run_returns hzero hless n bytes s₁ hgood₁ (by omega) (Nat.le_of_succ_le_succ hlength)
        fun b hb => hbytes b (List.mem_cons_of_mem byte hb)
      refine ⟨k + 1, Nat.succ_le_succ hk, s', ?_, hs'⟩
      rw [List.take_succ_cons, Machine.run_cons hstep]
      exact hrun

theorem step_eq {packet : Option BasicKeyPacket} (h : handler s byte = some (s', packet)) : step handler s byte = some s' := by
  rw [step, h, Option.map_some]

theorem isSome_of_step (h : step handler s byte = some s') : (handler s byte).isSome := by
  rw [step, Option.map_eq_some_iff] at h
  obtain ⟨_, h, -⟩ := h
  rw [h]
  rfl

/-- A byte of a sequence: the end of it, or one further on. -/
theorem follow_step {codes : List (BitVec 8)} {packet : BasicKeyPacket} {done failed : State}
    {Good : State → Prop} {measure : State → Nat} {P : Prop}
    (h : handler s byte = follow codes s byte packet done failed)
    (hread : s.bytesRead < codes.length) (hcodes : codes.length < 2 ^ 32)
    (hdone : s.onError = false → Good done ∧ measure done = 0) (hfailed : Good failed ∧ measure failed = 0)
    (hmore : ∀ bytesRead onError, bytesRead < codes.length → Good { s with bytesRead, onError } ∧
      measure { s with bytesRead, onError } = codes.length - bytesRead) :
    ∃ s', step handler s byte = some s' ∧ Good s' ∧ (P → measure s' < measure s) := by
  have hnext : increment s.bytesRead = s.bytesRead + 1 := Nat.mod_eq_of_lt (by omega)
  have hmeasure : measure s = codes.length - s.bytesRead := (hmore s.bytesRead s.onError hread).2
  rw [follow, List.getElem?_eq_getElem hread, Option.map_some] at h
  dsimp only at h
  rw [hnext] at h
  by_cases hend : s.bytesRead + 1 = codes.length
  · simp only [if_pos hend] at h
    split at h
    · next hbyte =>
      obtain ⟨hgood, hzero⟩ := hdone hbyte.2
      exact ⟨done, step_eq h, hgood, fun _ => by omega⟩
    · obtain ⟨hgood, hzero⟩ := hfailed
      exact ⟨failed, step_eq h, hgood, fun _ => by omega⟩
  · simp only [if_neg hend] at h
    have hnow : ∀ onError, Good { s with bytesRead := s.bytesRead + 1, onError } ∧
        (P → measure { s with bytesRead := s.bytesRead + 1, onError } < measure s) := fun onError => by
      obtain ⟨hgood, hleft⟩ := hmore (s.bytesRead + 1) onError (by omega)
      exact ⟨hgood, fun _ => by omega⟩
    split at h
    · exact ⟨_, step_eq h, hnow s.onError⟩
    · exact ⟨_, step_eq h, hnow true⟩

theorem follow_none {codes : List (BitVec 8)} {packet : BasicKeyPacket} {done failed : State}
    (h : codes.length ≤ s.bytesRead) : follow codes s byte packet done failed = none := by
  rw [follow, List.getElem?_eq_none h, Option.map_none]

end

/-! ## Scan code set 1 -/

/-- The states of set 1 that occur: the counter is the place in the sequence. -/
def Reached1 (s : State) : Prop :=
  s.onRelease = false ∧
    match s.state with
    | .DEFAULT => s.bytesRead = 0 ∧ s.onError = false
    | .EXTENDED1 => s.bytesRead = 1 ∧ s.onError = false
    | .EXTENDED2_PRESSED | .EXTENDED2_RELEASED => s.bytesRead < 4
    | .EXTENDED3 => s.bytesRead < 6

/-- How many bytes until `DEFAULT`, at most. -/
def left1 (s : State) : Nat :=
  match s.state with
  | .DEFAULT => 0
  | .EXTENDED1 => 4
  | .EXTENDED2_PRESSED | .EXTENDED2_RELEASED => 4 - s.bytesRead
  | .EXTENDED3 => 6 - s.bytesRead

theorem set1_step {s : State} (byte : BitVec 8) (hs : Reached1 s) :
    ∃ s', step KeyboardScanCodeSet1Handler s byte = some s' ∧ Reached1 s' ∧ (0 < left1 s → left1 s' < left1 s) := by
  obtain ⟨state, bytesRead, onError, onRelease⟩ := s
  obtain ⟨hrelease, hs⟩ := hs
  dsimp only at hrelease
  subst hrelease
  cases state with
  | DEFAULT =>
    obtain ⟨rfl, rfl⟩ := hs
    have hmeasure : ∀ s' : State, 0 < left1 {} → left1 s' < left1 {} := fun _ h => absurd h (Nat.lt_irrefl 0)
    by_cases h₁ : byte = SCAN_CODE_SET_1_EXT_1_2
    · subst h₁
      exact ⟨⟨.EXTENDED1, 1, false, false⟩, rfl, ⟨rfl, rfl, rfl⟩, hmeasure _⟩
    by_cases h₂ : byte = SCAN_CODE_SET_1_EXT_3
    · subst h₂
      exact ⟨⟨.EXTENDED3, 1, false, false⟩, rfl, ⟨rfl, by decide⟩, hmeasure _⟩
    · refine ⟨{}, ?_, ⟨rfl, rfl, rfl⟩, hmeasure _⟩
      apply step_eq
      rw [KeyboardScanCodeSet1Handler]
      simp only [if_neg h₁, if_neg h₂]
      rfl
  | EXTENDED1 =>
    obtain ⟨rfl, rfl⟩ := hs
    by_cases h₁ : byte = (0x2A : BitVec 8)
    · subst h₁
      exact ⟨⟨.EXTENDED2_PRESSED, 2, false, false⟩, rfl, ⟨rfl, by decide⟩, fun _ => by decide⟩
    by_cases h₂ : byte = (0xB7 : BitVec 8)
    · subst h₂
      exact ⟨⟨.EXTENDED2_RELEASED, 2, false, false⟩, rfl, ⟨rfl, by decide⟩, fun _ => by decide⟩
    · refine ⟨{}, ?_, ⟨rfl, rfl, rfl⟩, fun _ => by decide⟩
      apply step_eq
      rw [KeyboardScanCodeSet1Handler]
      simp only [ext_2_scan_code_set_1_scancodes_pressed, ext_2_scan_code_set_1_scancodes_released, List.getElem?_cons_succ,
        List.getElem?_cons_zero, Option.bind_some, Option.map_some, if_neg h₁, if_neg h₂]
      rfl
  | EXTENDED2_PRESSED | EXTENDED2_RELEASED | EXTENDED3 =>
    refine follow_step rfl hs (by decide) ?_ ⟨⟨rfl, rfl, rfl⟩, rfl⟩ fun _ _ hmore => ⟨⟨rfl, hmore⟩, rfl⟩
    exact fun herror => ⟨⟨rfl, rfl, herror⟩, rfl⟩

theorem left1_zero (s : State) (hs : Reached1 s) (h : left1 s = 0) : s.state = .DEFAULT := by
  obtain ⟨state, bytesRead, onError, onRelease⟩ := s
  obtain ⟨-, hs⟩ := hs
  cases state <;> simp_all [left1]
  all_goals omega

theorem keysOfSet1_decoded : ∀ key ∈ keysOfSet1,
    Decoded KeyboardScanCodeSet1Handler {} key.make key.keypoint KEY_PRESSED ∧
      ∀ code ∈ key.release, Decoded KeyboardScanCodeSet1Handler {} code key.keypoint 0 := by
  decide +kernel

theorem set1_sound {s : State} (hs : Reached1 s) : Sound KeyboardScanCodeSet1Handler specialOfSet1 keysOfSet1 s where
  inBounds := fun byte => by
    obtain ⟨s', hstep, -, -⟩ := set1_step byte hs
    exact isSome_of_step hstep
  returns := fun bytes hlength hbytes => by
    refine run_returns left1_zero (fun s byte hs hpos _ => ?_) 8 bytes s hs ?_ (Nat.le_of_eq hlength.symm) hbytes
    · obtain ⟨s', hstep, hs', hless⟩ := set1_step byte hs
      exact ⟨s', hstep, hs', hless hpos⟩
    · unfold left1
      split <;> omega
  decodes := fun hdefault _ => by
    obtain ⟨state, bytesRead, onError, onRelease⟩ := s
    cases hdefault
    obtain ⟨hrelease, hread, herror⟩ := hs
    cases hrelease
    cases hread
    cases herror
    exact keysOfSet1_decoded

/-- Set 1 never gets stuck. -/
theorem set1_states (stream : List (BitVec 8)) :
    Machine.AllStates (step KeyboardScanCodeSet1Handler) (Sound KeyboardScanCodeSet1Handler specialOfSet1 keysOfSet1) {} stream := by
  have hkeeps : ∀ s byte s₁, Reached1 s → step KeyboardScanCodeSet1Handler s byte = some s₁ → Reached1 s₁ := by
    intro s byte s₁ hs hstep
    obtain ⟨s', hstep', hs', -⟩ := set1_step byte hs
    rw [hstep] at hstep'
    cases hstep'
    exact hs'
  have hreached := Machine.allStates_of_inv hkeeps stream {} ⟨rfl, rfl, rfl⟩
  exact Machine.AllStates.mono (fun _ => set1_sound) stream _ hreached

/-! ## Scan code set 2 -/

/-- The states of set 2 from which no table is left. Behind release codes the counter of `DEFAULT` has any value. -/
def Reached2 (s : State) : Prop :=
  match s.state with
  | .DEFAULT => s.onError = false ∧ (s.onRelease = false → s.bytesRead = 0)
  | .EXTENDED1 => s.onError = false ∧ s.bytesRead < 3
  | .EXTENDED2_PRESSED => s.bytesRead < 4
  | .EXTENDED2_RELEASED => s.bytesRead < 6
  | .EXTENDED3 => s.bytesRead < 8

/-- How many bytes until `DEFAULT`, at most. -/
def left2 (s : State) : Nat :=
  match s.state with
  | .DEFAULT => 0
  | .EXTENDED1 => 7
  | .EXTENDED2_PRESSED => 4 - s.bytesRead
  | .EXTENDED2_RELEASED => 6 - s.bytesRead
  | .EXTENDED3 => 8 - s.bytesRead

/-- The counter, that counts the release codes too, is low enough behind the byte. -/
def Keeps (s : State) (byte : BitVec 8) : Prop :=
  match s.state with
  | .DEFAULT => (byte = SCAN_CODE_SET_2_EXT_1_2 → increment s.bytesRead < 3) ∧
      (byte = SCAN_CODE_SET_2_EXT_3 → increment s.bytesRead < 8)
  | .EXTENDED1 => byte = SCAN_CODE_SET_2_RELEASE → increment s.bytesRead < 3
  | _ => True

theorem Keeps.of_ordinary {s : State} {byte : BitVec 8} (h : byte ∉ specialOfSet2) : Keeps s byte := by
  have h₁ : byte ≠ SCAN_CODE_SET_2_EXT_1_2 := fun hbyte => h (hbyte ▸ by decide)
  have h₂ : byte ≠ SCAN_CODE_SET_2_EXT_3 := fun hbyte => h (hbyte ▸ by decide)
  have h₃ : byte ≠ SCAN_CODE_SET_2_RELEASE := fun hbyte => h (hbyte ▸ by decide)
  unfold Keeps
  split
  · exact ⟨fun hbyte => absurd hbyte h₁, fun hbyte => absurd hbyte h₂⟩
  · exact fun hbyte => absurd hbyte h₃
  · trivial

theorem set2_step {s : State} {byte : BitVec 8} (hs : Reached2 s) (hkeeps : Keeps s byte) :
    ∃ s', step KeyboardScanCodeSet2Handler s byte = some s' ∧ Reached2 s' ∧
      (0 < left2 s ∧ byte ∉ specialOfSet2 → left2 s' < left2 s) := by
  obtain ⟨state, bytesRead, onError, onRelease⟩ := s
  cases state with
  | DEFAULT =>
    obtain ⟨rfl, hread⟩ := hs
    have hmeasure : ∀ s' : State, 0 < left2 ⟨.DEFAULT, bytesRead, false, onRelease⟩ ∧ byte ∉ specialOfSet2 →
        left2 s' < left2 ⟨.DEFAULT, bytesRead, false, onRelease⟩ := fun _ h => absurd h.1 (Nat.lt_irrefl 0)
    by_cases h₁ : byte = SCAN_CODE_SET_2_EXT_1_2
    · subst h₁
      exact ⟨⟨.EXTENDED1, increment bytesRead, false, onRelease⟩, rfl, ⟨rfl, hkeeps.1 rfl⟩, hmeasure _⟩
    by_cases h₂ : byte = SCAN_CODE_SET_2_EXT_3
    · subst h₂
      exact ⟨⟨.EXTENDED3, increment bytesRead, false, onRelease⟩, rfl, hkeeps.2 rfl, hmeasure _⟩
    by_cases h₃ : byte = SCAN_CODE_SET_2_RELEASE
    · subst h₃
      exact ⟨⟨.DEFAULT, increment bytesRead, false, true⟩, rfl, ⟨rfl, nofun⟩, hmeasure _⟩
    · refine ⟨{}, ?_, ⟨rfl, fun _ => rfl⟩, hmeasure _⟩
      apply step_eq
      rw [KeyboardScanCodeSet2Handler]
      simp only [if_neg h₁, if_neg h₂, if_neg h₃]
      rfl
  | EXTENDED1 =>
    obtain ⟨rfl, hread⟩ := hs
    dsimp only at hread
    obtain ⟨pressed, hpressed⟩ : ∃ c, ext_2_scan_code_set_2_scancodes_pressed[bytesRead]? = some c :=
      ⟨_, List.getElem?_eq_getElem (Nat.lt_succ_of_lt hread)⟩
    obtain ⟨released, hreleased⟩ : ∃ c, ext_2_scan_code_set_2_scancodes_released[bytesRead]? = some c :=
      ⟨_, List.getElem?_eq_getElem (Nat.lt_of_lt_of_le hread (by decide))⟩
    have hnext : increment bytesRead = bytesRead + 1 := Nat.mod_eq_of_lt (by omega)
    by_cases h₁ : byte = SCAN_CODE_SET_2_RELEASE
    · subst h₁
      exact ⟨⟨.EXTENDED1, increment bytesRead, false, true⟩, rfl, ⟨rfl, hkeeps rfl⟩, fun h => absurd (by decide) h.2⟩
    have hhandler : KeyboardScanCodeSet2Handler ⟨.EXTENDED1, bytesRead, false, onRelease⟩ byte =
        if byte = pressed then some (⟨.EXTENDED2_PRESSED, bytesRead + 1, false, onRelease⟩, none)
        else some (if byte = released then (⟨.EXTENDED2_RELEASED, bytesRead + 1, false, onRelease⟩, none)
          else ({}, some ⟨byte, ext_1_scan_code_set_2_keypoints byte, if onRelease then 0 else KEY_PRESSED⟩)) := by
      rw [KeyboardScanCodeSet2Handler]
      simp only [if_neg h₁, hpressed, hreleased, Option.bind_some, Option.map_some, hnext]
    by_cases h₂ : byte = pressed
    · rw [if_pos h₂] at hhandler
      refine ⟨_, step_eq hhandler, Nat.succ_lt_succ hread, fun _ => ?_⟩
      simp only [left2]
      omega
    rw [if_neg h₂] at hhandler
    by_cases h₃ : byte = released
    · rw [if_pos h₃] at hhandler
      refine ⟨_, step_eq hhandler, Nat.lt_of_lt_of_le (Nat.succ_lt_succ hread) (by decide), fun _ => ?_⟩
      simp only [left2]
      omega
    · rw [if_neg h₃] at hhandler
      exact ⟨_, step_eq hhandler, ⟨rfl, fun _ => rfl⟩, fun _ => Nat.succ_pos 6⟩
  | EXTENDED2_PRESSED =>
    refine follow_step rfl hs (by decide) ?_ ⟨⟨rfl, fun _ => rfl⟩, rfl⟩ fun _ _ hmore => ⟨hmore, rfl⟩
    exact fun herror => ⟨⟨herror, fun _ => rfl⟩, rfl⟩
  | EXTENDED2_RELEASED | EXTENDED3 =>
    refine follow_step rfl hs (by decide) ?_ ⟨⟨rfl, fun _ => rfl⟩, rfl⟩ fun _ _ hmore => ⟨hmore, rfl⟩
    exact fun herror => ⟨⟨herror, fun _ => rfl⟩, rfl⟩

theorem left2_zero (s : State) (hs : Reached2 s) (h : left2 s = 0) : s.state = .DEFAULT := by
  obtain ⟨state, bytesRead, onError, onRelease⟩ := s
  cases state <;> simp_all [left2, Reached2]
  all_goals omega

theorem keysOfSet2_decoded : ∀ key ∈ keysOfSet2,
    Decoded KeyboardScanCodeSet2Handler {} key.make key.keypoint KEY_PRESSED ∧
      ∀ code ∈ key.release, Decoded KeyboardScanCodeSet2Handler {} code key.keypoint 0 := by
  decide +kernel

/-- The bytes that break the condition lead into a sequence with a counter that is too high for it. -/
theorem set2_tooHigh {s : State} {byte : BitVec 8} (hkeeps : ¬ Keeps s byte) :
    ∃ s₁, KeyboardScanCodeSet2Handler s byte = some (s₁, none) ∧
      (s₁.state = .EXTENDED1 ∧ 3 ≤ s₁.bytesRead ∨ s₁.state = .EXTENDED3 ∧ 8 ≤ s₁.bytesRead) := by
  obtain ⟨state, bytesRead, onError, onRelease⟩ := s
  cases state with
  | DEFAULT =>
    rcases not_and_or.mp hkeeps with h | h
    · obtain ⟨hbyte, hread⟩ := Classical.not_imp.mp h
      subst hbyte
      exact ⟨_, rfl, .inl ⟨rfl, Nat.le_of_not_lt hread⟩⟩
    · obtain ⟨hbyte, hread⟩ := Classical.not_imp.mp h
      subst hbyte
      exact ⟨_, rfl, .inr ⟨rfl, Nat.le_of_not_lt hread⟩⟩
  | EXTENDED1 =>
    obtain ⟨hbyte, hread⟩ := Classical.not_imp.mp hkeeps
    subst hbyte
    exact ⟨_, rfl, .inl ⟨rfl, Nat.le_of_not_lt hread⟩⟩
  | EXTENDED2_PRESSED | EXTENDED2_RELEASED | EXTENDED3 => exact absurd trivial hkeeps

theorem set2_isSome {s : State} (hs : Reached2 s) (byte : BitVec 8) : (KeyboardScanCodeSet2Handler s byte).isSome := by
  by_cases hkeeps : Keeps s byte
  · obtain ⟨s', hstep, -, -⟩ := set2_step hs hkeeps
    exact isSome_of_step hstep
  · obtain ⟨s₁, hhandler, -⟩ := set2_tooHigh hkeeps
    rw [hhandler]
    rfl

theorem set2_sound {s : State} (hs : Reached2 s) : Sound KeyboardScanCodeSet2Handler specialOfSet2 keysOfSet2 s where
  inBounds := set2_isSome hs
  returns := fun bytes hlength hbytes => by
    refine run_returns left2_zero (fun s byte hs hpos hbyte => ?_) 8 bytes s hs ?_ (Nat.le_of_eq hlength.symm) hbytes
    · obtain ⟨s', hstep, hs', hless⟩ := set2_step hs (Keeps.of_ordinary hbyte)
      exact ⟨s', hstep, hs', hless ⟨hpos, hbyte⟩⟩
    · unfold left2
      split <;> omega
  decodes := fun hdefault hrelease => by
    obtain ⟨state, bytesRead, onError, onRelease⟩ := s
    cases hdefault
    cases hrelease
    obtain ⟨herror, hread⟩ := hs
    cases herror
    cases hread rfl
    exact keysOfSet2_decoded

/-- A byte that leads from one sequence to where each further byte leaves a table. -/
theorem not_returns {s s₁ : State} (byte : BitVec 8) (hstate : s.state ≠ .DEFAULT)
    (hstep : step KeyboardScanCodeSet2Handler s byte = some s₁) (hbyte : byte ∉ specialOfSet2)
    (hstate₁ : s₁.state ≠ .DEFAULT) (hnone : step KeyboardScanCodeSet2Handler s₁ 0 = none) :
    ¬ Returns KeyboardScanCodeSet2Handler specialOfSet2 s := by
  intro hreturns
  have hordinary : ∀ b ∈ byte :: List.replicate 7 0, b ∉ specialOfSet2 := by
    intro b hb
    rcases List.mem_cons.mp hb with rfl | hb
    · exact hbyte
    · rw [List.eq_of_mem_replicate hb]
      decide
  obtain ⟨k, -, s', hrun, hs'⟩ := hreturns (byte :: List.replicate 7 0) rfl hordinary
  match k with
  | 0 =>
    cases hrun
    exact hstate hs'
  | 1 =>
    rw [List.take_succ_cons, Machine.run_cons hstep] at hrun
    cases hrun
    exact hstate₁ hs'
  | k + 2 =>
    rw [List.take_succ_cons, Machine.run_cons hstep, List.replicate_succ, List.take_succ_cons, Machine.run, hnone] at hrun
    cases hrun

/-- With a counter of 3 it is the byte after the next one that leaves a table. -/
theorem set2_unsound {s s₁ : State} {byte : BitVec 8} (hkeeps : ¬ Keeps s byte)
    (hstep : step KeyboardScanCodeSet2Handler s byte = some s₁) :
    ¬ Sound KeyboardScanCodeSet2Handler specialOfSet2 keysOfSet2 s₁ := by
  intro hsound
  obtain ⟨s', hhandler, hs'⟩ := set2_tooHigh hkeeps
  rw [step_eq hhandler] at hstep
  cases hstep
  have hinBounds := hsound.inBounds 0
  obtain ⟨state, bytesRead, onError, onRelease⟩ := s₁
  obtain ⟨rfl, hread⟩ | ⟨rfl, hread⟩ := hs'
  · rcases Nat.eq_or_lt_of_le hread with h3 | h4
    · dsimp only at h3
      subst h3
      exact not_returns 0x7C (by simp) rfl (by decide) (by simp) rfl hsound.returns
    · have hnone : KeyboardScanCodeSet2Handler ⟨.EXTENDED1, bytesRead, onError, onRelease⟩ 0 = none := by
        show Option.bind ext_2_scan_code_set_2_scancodes_pressed[bytesRead]? _ = none
        rw [List.getElem?_eq_none h4, Option.bind_none]
      rw [hnone] at hinBounds
      cases hinBounds
  · have hnone : KeyboardScanCodeSet2Handler ⟨.EXTENDED3, bytesRead, onError, onRelease⟩ 0 = none := follow_none hread
    rw [hnone] at hinBounds
    cases hinBounds

/-- Set 2 never gets stuck as long as the counter stays low enough. -/
theorem set2_states_iff (stream : List (BitVec 8)) :
    Machine.AllStates (step KeyboardScanCodeSet2Handler) (Sound KeyboardScanCodeSet2Handler specialOfSet2 keysOfSet2) {} stream ↔
      Machine.AllSteps (step KeyboardScanCodeSet2Handler) Keeps {} stream := by
  have hreached : ∀ s byte s₁, Reached2 s → Keeps s byte → step KeyboardScanCodeSet2Handler s byte = some s₁ → Reached2 s₁ := by
    intro s byte s₁ hs hkeeps hstep
    obtain ⟨s', hstep', hs', -⟩ := set2_step hs hkeeps
    rw [hstep] at hstep'
    cases hstep'
    exact hs'
  exact Machine.allStates_iff_allSteps (fun _ => set2_sound) hreached
    (fun _ _ _ _ hkeeps hstep => set2_unsound hkeeps hstep) stream _ ⟨rfl, fun _ => rfl⟩

/-- Both handlers are sound in every state that the bytes bring them to. -/
def NeverStuck (stream : List (BitVec 8)) : Prop :=
  Machine.AllStates (step KeyboardScanCodeSet1Handler) (Sound KeyboardScanCodeSet1Handler specialOfSet1 keysOfSet1) {} stream ∧
  Machine.AllStates (step KeyboardScanCodeSet2Handler) (Sound KeyboardScanCodeSet2Handler specialOfSet2 keysOfSet2) {} stream

/-- It is set 2 alone, and the release codes that it counts, by which a stream gets stuck. -/
theorem neverStuck_iff (stream : List (BitVec 8)) :
    NeverStuck stream ↔ Machine.AllSteps (step KeyboardScanCodeSet2Handler) Keeps {} stream := by
  rw [NeverStuck, set2_states_iff]
  exact and_iff_right (set1_states stream)

/-- Two release codes, a prefix and a byte of the sequences: the next byte is compared with entry 4 of 4. -/
theorem stuck_afterReleases : ¬ NeverStuck [0xF0, 0xF0, 0xE0, 0x7C] := by
  intro h
  have hrun : Machine.run (step KeyboardScanCodeSet2Handler) {} [0xF0, 0xF0, 0xE0, 0x7C] =
      some ⟨.EXTENDED2_PRESSED, 4, false, true⟩ := by decide
  have hsound := Machine.AllStates.of_run _ _ _ h.2 hrun
  exact absurd (hsound.inBounds 0) (by decide)

end BadLands.Devices.ScanCodes
