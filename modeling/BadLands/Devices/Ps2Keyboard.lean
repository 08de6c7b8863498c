import BadLands.Devices.Keycodes

/-!
# A PS/2 keyboard

The scan code sets with their handlers and keys. A stroke, the press or the release of a key, is one code of the set, and
after it the handler is where it was: the strokes of any sequence come out one by one (`strokes_played`).
-/
namespace BadLands.Devices.Ps2Keyboard

open BadLands.Devices.ScanCodes BadLands.Devices.Keycodes

/-! ## Scan code set 3 -/

/-- mirrors kernel/src/devices/PS2/Keypoints.cpp:323-388 -/
def scan_code_set_3_keypoints (byte : BitVec 8) : BitVec 8 :=
  keypoints [
    (0x07, 2, 1), (0x08, 2, 0), (0x0D, 4, 0), (0x0E, 3, 0), (0x0F, 2, 2), (0x11, 7, 0), (0x12, 6, 0), (0x14, 5, 0),
    (0x15, 4, 1), (0x16, 3, 1), (0x17, 2, 3), (0x19, 7, 2), (0x1A, 6, 2), (0x1B, 5, 2), (0x1C, 5, 1), (0x1D, 4, 2),
    (0x1E, 3, 2), (0x1F, 2, 4), (0x21, 6, 4), (0x22, 6, 3), (0x23, 5, 3), (0x24, 4, 3), (0x25, 3, 4), (0x26, 3, 3),
    (0x27, 2, 5), (0x29, 7, 6), (0x2A, 6, 5), (0x2B, 5, 4), (0x2C, 4, 5), (0x2D, 4, 4), (0x2E, 3, 5), (0x2F, 2, 6),
    (0x31, 6, 7), (0x32, 6, 6), (0x33, 5, 6), (0x34, 5, 5), (0x35, 4, 6), (0x36, 3, 6), (0x37, 2, 7), (0x39, 7, 8),
    (0x3A, 6, 8), (0x3B, 5, 7), (0x3C, 4, 7), (0x3D, 3, 7), (0x3E, 3, 8), (0x3F, 2, 8), (0x41, 6, 9), (0x42, 5, 8),
    (0x43, 4, 8), (0x44, 4, 9), (0x45, 3, 10), (0x46, 3, 9), (0x47, 2, 9), (0x49, 6, 10), (0x4A, 3, 17),
    (0x4B, 5, 9), (0x4C, 5, 10), (0x4D, 4, 10), (0x4E, 3, 11), (0x4F, 2, 10), (0x52, 5, 11), (0x54, 4, 11),
    (0x55, 3, 12), (0x56, 2, 11), (0x57, 1, 13), (0x58, 7, 11), (0x59, 6, 12), (0x5A, 5, 13), (0x5B, 4, 12),
    (0x5C, 4, 13), (0x5E, 2, 12), (0x5F, 1, 14), (0x60, 7, 13), (0x61, 7, 12), (0x62, 1, 15), (0x63, 6, 13),
    (0x64, 3, 14), (0x65, 3, 15), (0x66, 3, 13), (0x67, 2, 13), (0x69, 6, 16), (0x6A, 7, 14), (0x6B, 5, 16),
    (0x6C, 4, 16), (0x6D, 4, 14), (0x6E, 2, 14), (0x6F, 2, 15), (0x70, 7, 16), (0x71, 7, 18), (0x72, 6, 17),
    (0x73, 5, 17), (0x74, 5, 18), (0x75, 4, 17), (0x76, 3, 16), (0x79, 7, 19), (0x7A, 6, 18), (0x7C, 5, 19),
    (0x7D, 4, 18), (0x7E, 3, 18), (0x8B, 7, 1), (0x8C, 7, 9), (0x8D, 7, 10)] byte

def SCAN_CODE_SET_3_RELEASE : BitVec 8 := 0xF0

/-- Of the state of a handler only `onRelease` is used.
mirrors kernel/src/devices/PS2/Keypoints.cpp:672-690 -/
def KeyboardScanCodeSet3Handler (s : State) (byte : BitVec 8) : Option (State × Option BasicKeyPacket) :=
  if byte = SCAN_CODE_SET_3_RELEASE then some ({ s with onRelease := true }, none)
  else some ({ s with onRelease := false },
    some ⟨byte, scan_code_set_3_keypoints byte, if s.onRelease then 0 else KEY_PRESSED⟩)

def keysOfSet3 : List Key :=
  (assigned scan_code_set_3_keypoints 0x100).map fun c => ⟨[c], some [0xF0, c], scan_code_set_3_keypoints c⟩

/-! ## The sets -/

/-- The set for which `InitializeKeyboard` has chosen a handler.
mirrors kernel/src/devices/PS2/Keyboard.cpp:308-345 -/
inductive ScanCodeSet where
  | set1
  | set2
  | set3
  deriving DecidableEq

def ScanCodeSet.handler : ScanCodeSet → Handler
  | .set1 => KeyboardScanCodeSet1Handler
  | .set2 => KeyboardScanCodeSet2Handler
  | .set3 => KeyboardScanCodeSet3Handler

def ScanCodeSet.keys : ScanCodeSet → List Key
  | .set1 => keysOfSet1
  | .set2 => keysOfSet2
  | .set3 => keysOfSet3

/-- The press or the release of a key. -/
structure Stroke where
  key : Key
  down : Bool

def Stroke.code (k : Stroke) : List (BitVec 8) := if k.down then k.key.make else k.key.release.getD []

def Stroke.packet (k : Stroke) : BasicKeyPacket := ⟨k.code.getLastD 0, k.key.keypoint, if k.down then KEY_PRESSED else 0⟩

/-- A key of the set, and it is released only if it has a code for that. -/
def Stroke.Of (set : ScanCodeSet) (k : Stroke) : Prop := k.key ∈ set.keys ∧ (k.down = true ∨ k.key.release.isSome = true)

/-- The bytes that the keyboard sends. -/
def codes (strokes : List Stroke) : List (BitVec 8) := strokes.flatMap Stroke.code

section
variable {set : ScanCodeSet} {s s' : State} {byte : BitVec 8} {packet : BasicKeyPacket}

theorem scan_code_set_3_inside : ∀ byte, Inside (scan_code_set_3_keypoints byte) := by decide +kernel

/-- Whatever bytes come, a packet has a keycode and no modifier. -/
theorem handler_sent (h : set.handler s byte = some (s', some packet)) : Sent packet := by
  cases set with
  | set1 => exact set1_sent h
  | set2 => exact set2_sent h
  | set3 =>
    rw [ScanCodeSet.handler, KeyboardScanCodeSet3Handler] at h
    split at h
    · cases h
    · cases h
      exact ⟨scan_code_set_3_inside byte, ite_flags⟩

/-- A code is one packet, and the handler is where it was. -/
def Plays (set : ScanCodeSet) (code : List (BitVec 8)) (keypoint : BitVec 8) (flags : BitVec 16) : Prop :=
  play set.handler {} code = some ({}, [⟨code.getLastD 0, keypoint, flags⟩])

instance Plays.decidable (set : ScanCodeSet) (code : List (BitVec 8)) (keypoint : BitVec 8) (flags : BitVec 16) :
    Decidable (Plays set code keypoint flags) := inferInstanceAs (Decidable (_ = _))

theorem keys_played : ∀ set : ScanCodeSet, ∀ key ∈ set.keys, Plays set key.make key.keypoint KEY_PRESSED ∧
    ∀ code ∈ key.release, Plays set code key.keypoint 0
  | .set1 => by decide +kernel
  | .set2 => by decide +kernel
  | .set3 => by decide +kernel

theorem stroke_played {k : Stroke} (h : k.Of set) : play set.handler {} k.code = some ({}, [k.packet]) := by
  obtain ⟨hmake, hrelease⟩ := keys_played set k.key h.1
  obtain ⟨key, down⟩ := k
  cases down with
  | true => exact hmake
  | false =>
    obtain ⟨code, hcode⟩ := Option.isSome_iff_exists.mp (h.2.resolve_left Bool.false_ne_true)
    have hplays := hrelease code hcode
    have hbytes : (Stroke.mk key false).code = code := by
      rw [Stroke.code, if_neg Bool.false_ne_true]
      exact congrArg (Option.getD · []) hcode
    rw [Stroke.packet, hbytes]
    exact hplays

theorem play_append {handler : Handler} (bytes bytes' : List (BitVec 8)) : ∀ s : State,
    play handler s (bytes ++ bytes') = (play handler s bytes).bind fun r =>
      (play handler r.1 bytes').map fun q => (q.1, r.2 ++ q.2) := by
  induction bytes with
  | nil =>
    intro s
    rw [List.nil_append, play, Option.bind_some]
    cases play handler s bytes' <;> rfl
  | cons byte bytes ih =>
    intro s
    rw [List.cons_append, play, play]
    cases handler s byte with
    | none => rfl
    | some r =>
      obtain ⟨s₁, packet⟩ := r
      simp only [Option.bind_some, ih]
      cases play handler s₁ bytes with
      | none => rfl
      | some r =>
        simp only [Option.bind_some, Option.map_some, Option.map_map, List.append_assoc]
        rfl

/-- The packets of a sequence of strokes are those of the strokes. -/
theorem strokes_played (strokes : List Stroke) (h : ∀ k, k ∈ strokes → k.Of set) :
    play set.handler {} (codes strokes) = some ({}, strokes.map Stroke.packet) := by
  induction strokes with
  | nil => rfl
  | cons k strokes ih =>
    rw [codes, List.flatMap_cons, play_append, stroke_played (h k (.head _)), Option.bind_some]
    have hrest := ih fun k hk => h k (.tail _ hk)
    rw [codes] at hrest
    rw [hrest]
    rfl

end

end BadLands.Devices.Ps2Keyboard
