import BadLands.Core.Cells
import BadLands.Core.Numerals

/-!
# The boot configuration

`boot.cfg` has lines `key=value`; the only key is `root`, the identifier of the root partition in hexadecimal. Five loops share
one index into the file; each of them ends, because the index grows. A read behind the file and a read or write outside of one
of the buffers is `Stop.outside`.

* `parseConfiguration_inside`: there is none, whatever the file holds.
* `parse_configuration`: a file of lines gives the identifier of its last root line.
-/
namespace BadLands.Loader.BootConfig

open BadLands.Core

/-! ## The code -/

abbrev Byte := BitVec 8

def char (c : Char) : Byte := BitVec.ofNat 8 c.toNat

inductive Stop where
  /-- Not in the program: a byte outside of the file or of a buffer. -/
  | outside
  /-- "Malformed boot configuration for entry %llu: Missing '=' after key" -/
  | missingEquals (entryNum : Nat)
  /-- "Malformed boot configuration for entry %llu: Invalid root UUID format" -/
  | invalidUuid (entryNum : Nat)
  /-- "Malformed boot configuration: Missing root partition UUID" -/
  | missingRoot
  deriving DecidableEq

/-- mirrors bootloader/src/loader/boot_config.cpp:31-33 -/
def isLineEnd (c : Byte) : Bool := c = char '\n' || c = char '\r'

/-- mirrors bootloader/src/loader/boot_config.cpp:35-43 -/
def hexCharToByte (c : Byte) (err : Bool) : Byte × Bool :=
  if char '0' ≤ c ∧ c ≤ char '9' then (c - char '0', err)
  else if char 'a' ≤ c ∧ c ≤ char 'f' then (c - char 'a' + 10, err)
  else if char 'A' ≤ c ∧ c ≤ char 'F' then (c - char 'A' + 10, err)
  else (0, true)

def read (cells : List Byte) (i : Nat) : Except Stop Byte :=
  match cells[i]? with
  | some c => .ok c
  | none => .error .outside

/-- The next character of an array of 256. -/
def push (buffer : List Byte) (c : Byte) : Except Stop (List Byte) :=
  if buffer.length < 256 then .ok (buffer ++ [c]) else .error .outside

def store (cells : List Byte) (i : Nat) (c : Byte) : Except Stop (List Byte) :=
  match Cells.write cells i c with
  | some cells => .ok cells
  | none => .error .outside

/-- mirrors bootloader/src/ldstdlib/memory.cpp:21-29, with the number of bytes left -/
def memcmp (buf1 buf2 : List Byte) : Nat → Nat → Except Stop Int
  | 0, _ => .ok 1
  | n + 1, i =>
    (read buf1 i).bind fun x => (read buf2 i).bind fun y => if x ≠ y then .ok 0 else memcmp buf1 buf2 n (i + 1)

/-- The loop that reads a key or a value, up to a character that ends it.
mirrors bootloader/src/loader/boot_config.cpp:62-67 and 96-101 -/
def scanLoop (data : List Byte) (ends : Byte → Bool) (i : Nat) (buffer : List Byte) : Except Stop (Nat × List Byte) :=
  if _h : i < data.length then
    (read data i).bind fun c =>
      if ends c then .ok (i, buffer)
      else (if buffer.length < 255 then push buffer c else .ok buffer).bind fun buffer => scanLoop data ends (i + 1) buffer
  else .ok (i, buffer)
termination_by data.length - i

/-- mirrors bootloader/src/loader/boot_config.cpp:73-75 and 145-147 -/
def skipLoop (data : List Byte) (i : Nat) : Except Stop Nat :=
  if _h : i < data.length then
    (read data i).bind fun c => if isLineEnd c then skipLoop data (i + 1) else .ok i
  else .ok i
termination_by data.length - i

/-- The identifier so far, `byte_idx` and `hex_err`. -/
structure Uuid where
  bytes : List Byte
  byteIdx : Nat
  hexErr : Bool

/-- mirrors bootloader/src/loader/boot_config.cpp:109-121 -/
def uuidLoop (value : List Byte) (j : Nat) (u : Uuid) : Except Stop Uuid :=
  if _h : j < value.length ∧ u.byteIdx < 16 then
    (read value j).bind fun c =>
      if c = char '-' then uuidLoop value (j + 1) u
      else if j + 1 < value.length then
        (read value (j + 1)).bind fun d =>
          let (high, err) := hexCharToByte c u.hexErr
          let (low, err) := hexCharToByte d err
          (store u.bytes u.byteIdx ((high <<< 4) ||| low)).bind fun bytes => uuidLoop value (j + 2) ⟨bytes, u.byteIdx + 1, err⟩
      else uuidLoop value (j + 1) u
  else .ok u
termination_by value.length - j

/-- The variables of the loop over the lines, and the keys that it has reported as unknown. -/
structure State where
  i : Nat
  entryNum : Nat
  rootFound : Bool
  uuid : List Byte
  unknown : List (List Byte × Nat)

/-- What follows an `=`: the value, and what it is for.
mirrors bootloader/src/loader/boot_config.cpp:89-147 -/
def entry (data : List Byte) (s : State) (i : Nat) (key : List Byte) : Except Stop State :=
  (scanLoop data isLineEnd (i + 1) []).bind fun (i, value) =>
    (push value 0#8).bind fun _ =>
      (if key.length = 4 then memcmp key ("root".toList.map char) 4 0 else .ok 0).bind fun equal =>
        (if equal ≠ 0 then
          (uuidLoop value 0 ⟨s.uuid, 0, false⟩).bind fun u =>
            if u.hexErr ∨ u.byteIdx ≠ 16 then .error (.invalidUuid s.entryNum)
            else .ok { s with uuid := u.bytes, rootFound := true }
        -- `%s` prints the key up to its first NUL
        else .ok { s with unknown := s.unknown ++ [(key.takeWhile (· ≠ 0#8), s.entryNum)] }).bind fun s =>
          (skipLoop data i).map fun i => { s with i, entryNum := s.entryNum + 1 }

/-- mirrors bootloader/src/loader/boot_config.cpp:58-147 -/
def turn (data : List Byte) (s : State) : Except Stop State :=
  (scanLoop data (fun c => c = char '=' || isLineEnd c) s.i []).bind fun (i, key) =>
    (push key 0#8).bind fun _ =>
      (if i < data.length then (read data i).map some else .ok none).bind fun c =>
        if key.length = 0 ∧ c.all isLineEnd then (skipLoop data i).map fun i => { s with i }
        else if c ≠ some (char '=') then .error (.missingEquals s.entryNum)
        else entry data s i key

/-! ## The loops -/

section
variable {data rest key value : List Byte} {i j : Nat} {c : Byte}

/-- A cursor at a character. -/
theorem drop_cons (h : data.drop i = c :: rest) : i < data.length ∧ data[i]? = some c ∧ data.drop (i + 1) = rest := by
  have hlt : i < data.length := by
    have hlength := congrArg List.length h
    rw [List.length_drop, List.length_cons] at hlength
    omega
  rw [List.drop_eq_getElem_cons hlt, List.cons.injEq] at h
  exact ⟨hlt, by rw [List.getElem?_eq_getElem hlt, h.1], h.2⟩

theorem read_eq (h : data[i]? = some c) : read data i = .ok c := by
  rw [read, h]

/-- Everything up to the end is read, and as much of it as there is room for is kept. -/
theorem scanLoop_eq {ends : Byte → Bool} {buffer : List Byte} (hroom : buffer.length ≤ 255) : scanLoop data ends i buffer =
    .ok (i + ((data.drop i).takeWhile fun c => !ends c).length, (buffer ++ (data.drop i).takeWhile fun c => !ends c).take 255) := by
  generalize hdrop : data.drop i = rest
  induction rest generalizing i buffer with
  | nil =>
    have hend : ¬ i < data.length := by simpa using hdrop
    rw [scanLoop, dif_neg hend]
    simp [List.take_of_length_le hroom]
  | cons c rest ih =>
    obtain ⟨hlt, hget, hnext⟩ := drop_cons hdrop
    rw [scanLoop, dif_pos hlt, read_eq hget]
    dsimp only [Except.bind]
    by_cases hc : ends c = true
    · rw [if_pos hc]
      simp [hc, List.take_of_length_le hroom]
    · rw [if_neg hc, List.takeWhile_cons_of_pos (by simpa using hc), List.length_cons]
      by_cases hsmall : buffer.length < 255
      · rw [if_pos hsmall, push, if_pos (by omega)]
        dsimp only
        rw [ih (by rw [List.length_append, List.length_singleton]; omega) hnext]
        simp [Nat.add_assoc, Nat.add_comm 1]
      · rw [if_neg hsmall]
        dsimp only
        rw [ih hroom hnext]
        have hfull : ∀ t : List Byte, (buffer ++ t).take 255 = buffer := fun t =>
          List.take_left' (by omega)
        simp [hfull, Nat.add_assoc, Nat.add_comm 1]

/-- The array is empty at first. -/
theorem scanLoop_nil {ends : Byte → Bool} : scanLoop data ends i [] =
    .ok (i + ((data.drop i).takeWhile fun c => !ends c).length, ((data.drop i).takeWhile fun c => !ends c).take 255) :=
  scanLoop_eq (Nat.zero_le 255)

theorem skipLoop_eq : skipLoop data i = .ok (i + ((data.drop i).takeWhile isLineEnd).length) := by
  generalize hdrop : data.drop i = rest
  induction rest generalizing i with
  | nil =>
    have hend : ¬ i < data.length := by simpa using hdrop
    rw [skipLoop, dif_neg hend]
    rfl
  | cons c rest ih =>
    obtain ⟨hlt, hget, hnext⟩ := drop_cons hdrop
    rw [skipLoop, dif_pos hlt, read_eq hget]
    dsimp only [Except.bind]
    by_cases hc : isLineEnd c = true
    · rw [if_pos hc, ih hnext, List.takeWhile_cons_of_pos hc, List.length_cons, Nat.add_assoc, Nat.add_comm 1]
    · rw [if_neg hc, List.takeWhile_cons_of_neg hc]
      rfl

/-- Two arrays of the same length. -/
theorem memcmp_eq {buf1 buf2 : List Byte} (n : Nat) (h1 : i + n = buf1.length) (h2 : i + n = buf2.length) :
    memcmp buf1 buf2 n i = .ok (if buf1.drop i = buf2.drop i then 1 else 0) := by
  induction n generalizing i with
  | zero =>
    rw [memcmp, List.drop_eq_nil_of_le (by omega), List.drop_eq_nil_of_le (by omega), if_pos rfl]
  | succ n ih =>
    have hlt1 : i < buf1.length := by omega
    have hlt2 : i < buf2.length := by omega
    rw [memcmp, read_eq (List.getElem?_eq_getElem hlt1), read_eq (List.getElem?_eq_getElem hlt2)]
    dsimp only [Except.bind]
    rw [ih (by omega) (by omega), List.drop_eq_getElem_cons hlt1, List.drop_eq_getElem_cons hlt2]
    by_cases hne : buf1[i] = buf2[i]
    · rw [if_neg (not_not_intro hne)]
      simp only [hne, List.cons.injEq, true_and]
    · rw [if_pos hne]
      simp only [hne, List.cons.injEq, false_and, if_false]

/-- The loop over the digits writes inside of the identifier. -/
theorem uuidLoop_inside (value : List Byte) (j : Nat) (u : Uuid) (hu : u.bytes.length = 16) :
    ∃ u', uuidLoop value j u = .ok u' ∧ u'.bytes.length = 16 := by
  induction hn : value.length - j using Nat.strongRecOn generalizing j u with
  | ind n ih =>
    by_cases h : j < value.length ∧ u.byteIdx < 16
    · rw [uuidLoop, dif_pos h, read_eq (List.getElem?_eq_getElem h.1)]
      dsimp only [Except.bind]
      by_cases hdash : value[j] = char '-'
      · rw [if_pos hdash]
        exact ih (value.length - (j + 1)) (by omega) (j + 1) u hu rfl
      · rw [if_neg hdash]
        by_cases hpair : j + 1 < value.length
        · rw [if_pos hpair, read_eq (List.getElem?_eq_getElem hpair)]
          dsimp only
          rw [store, Cells.write_eq (by omega)]
          dsimp only
          exact ih (value.length - (j + 2)) (by omega) (j + 2) _ (by rw [List.length_set]; exact hu) rfl
        · rw [if_neg hpair]
          exact ih (value.length - (j + 1)) (by omega) (j + 1) u hu rfl
    · rw [uuidLoop, dif_neg h]
      exact ⟨u, rfl, hu⟩

end

/-! ## One turn -/

def root : List Byte := "root".toList.map char

/-- The character that ends a key. -/
def endsKey (c : Byte) : Bool := c = char '=' || isLineEnd c

section
variable {data rest key value : List Byte} {s s' : State} {i : Nat} {c : Byte}

/-- The rest of an entry, with the value that is there. -/
theorem entry_eq :
    let text := (data.drop (i + 1)).takeWhile fun c => !isLineEnd c
    let j := i + 1 + text.length
    let next := j + ((data.drop j).takeWhile isLineEnd).length
    entry data s i key =
      if key = root then
        (uuidLoop (text.take 255) 0 ⟨s.uuid, 0, false⟩).bind fun u =>
          if u.hexErr ∨ u.byteIdx ≠ 16 then .error (.invalidUuid s.entryNum)
          else .ok ⟨next, s.entryNum + 1, true, u.bytes, s.unknown⟩
      else .ok ⟨next, s.entryNum + 1, s.rootFound, s.uuid, s.unknown ++ [(key.takeWhile (· ≠ 0#8), s.entryNum)]⟩ := by
  intro text j next
  have hpush : push (text.take 255) 0#8 = .ok (text.take 255 ++ [0#8]) := if_pos (by simp)
  have hequal : (if key.length = 4 then memcmp key ("root".toList.map char) 4 0 else .ok 0) = .ok (if key = root then 1 else 0) := by
    have hroot : root.length = 4 := rfl
    by_cases hlength : key.length = 4
    · rw [if_pos hlength, memcmp_eq 4 (by omega) (by rw [Nat.zero_add]; rfl)]
      rfl
    · have hne : key ≠ root := fun h => hlength (h ▸ hroot)
      rw [if_neg hlength, if_neg hne]
  unfold entry
  rw [scanLoop_nil]
  dsimp only [Except.bind]
  rw [hpush, hequal]
  dsimp only
  by_cases hroot : key = root
  · rw [if_pos hroot, if_pos hroot, if_pos (by decide)]
    cases uuidLoop (text.take 255) 0 ⟨s.uuid, 0, false⟩ with
    | error e => rfl
    | ok u =>
      dsimp only
      by_cases hbad : u.hexErr = true ∨ u.byteIdx ≠ 16
      · rw [if_pos hbad, if_pos hbad]
      · rw [if_neg hbad, if_neg hbad]
        dsimp only
        rw [skipLoop_eq]
        rfl
  · rw [if_neg hroot, if_neg hroot, if_neg (not_not_intro rfl)]
    dsimp only
    rw [skipLoop_eq]
    rfl

/-- Where a run of characters ends. -/
theorem stop_at {p : Byte → Bool} {l : List Byte} (h : l[(l.takeWhile p).length]? = some c) : p c = false := by
  induction l with
  | nil => simp at h
  | cons b l ih =>
    by_cases hb : p b = true
    · rw [List.takeWhile_cons_of_pos hb, List.length_cons, List.getElem?_cons_succ] at h
      exact ih h
    · rw [List.takeWhile_cons_of_neg hb, List.length_nil, List.getElem?_cons_zero] at h
      rw [← Option.some.inj h]
      exact Bool.eq_false_iff.mpr hb

/-- The character that ends a key is an `=` or a line end. -/
theorem line_end (hc : data[i + ((data.drop i).takeWhile fun c => !endsKey c).length]? = some c) (hequals : c ≠ char '=') :
    isLineEnd c = true := by
  have hstop : (!endsKey c) = false := stop_at (l := data.drop i) (by rw [List.getElem?_drop]; exact hc)
  simpa [endsKey, hequals] using hstop

/-- One turn of the loop, with the key that is there. -/
theorem turn_eq :
    let text := (data.drop s.i).takeWhile fun c => !endsKey c
    turn data s = match data[s.i + text.length]? with
      | none => if text = [] then .ok s else .error (.missingEquals s.entryNum)
      | some c =>
        if c = char '=' then entry data s (s.i + text.length) (text.take 255)
        else if text = [] then .ok { s with i := s.i + ((data.drop s.i).takeWhile isLineEnd).length }
        else .error (.missingEquals s.entryNum) := by
  intro text
  have hpush : push (text.take 255) 0#8 = .ok (text.take 255 ++ [0#8]) := if_pos (by simp)
  have hpeek : ∀ i, (if i < data.length then (read data i).map some else .ok none) = .ok data[i]? := fun i => by
    by_cases hlt : i < data.length
    · rw [if_pos hlt, List.getElem?_eq_getElem hlt, read_eq (List.getElem?_eq_getElem hlt)]
      rfl
    · rw [if_neg hlt, List.getElem?_eq_none (by omega)]
  have hempty : (text.take 255).length = 0 ↔ text = [] := by simp
  unfold turn
  change (scanLoop data endsKey s.i []).bind _ = _
  rw [scanLoop_nil]
  dsimp only [Except.bind]
  rw [hpush]
  dsimp only
  rw [hpeek]
  dsimp only
  cases hc : data[s.i + text.length]? with
  | none =>
    have hend : data.length ≤ s.i + text.length := List.getElem?_eq_none_iff.mp hc
    by_cases htext : text = []
    · have hi : s.i + text.length = s.i := by rw [htext]; rfl
      rw [if_pos ⟨hempty.mpr htext, rfl⟩, skipLoop_eq, List.drop_eq_nil_of_le hend]
      dsimp only
      rw [if_pos htext]
      change Except.ok { s with i := s.i + text.length } = _
      rw [hi]
    · rw [if_neg fun h => htext (hempty.mp h.1), if_neg htext, if_pos (by simp)]
  | some c =>
    dsimp only
    by_cases hequals : c = char '='
    · have hno : ¬ ((text.take 255).length = 0 ∧ (some c).all isLineEnd = true) := fun h => by
        rw [hequals] at h
        exact absurd h.2 (by decide)
      rw [if_neg hno, if_pos hequals, if_neg (not_not_intro (congrArg some hequals))]
    · have hline : isLineEnd c = true := line_end hc hequals
      rw [if_neg hequals]
      by_cases htext : text = []
      · have hi : s.i + text.length = s.i := by rw [htext]; rfl
        rw [if_pos ⟨hempty.mpr htext, hline⟩, if_pos htext, skipLoop_eq, hi]
        rfl
      · rw [if_neg fun h => htext (hempty.mp h.1), if_neg htext, if_pos fun h => hequals (Option.some.inj h)]

theorem entry_progress (h : entry data s i key = .ok s') : i < s'.i := by
  rw [entry_eq] at h
  split at h
  · cases hu : uuidLoop (((data.drop (i + 1)).takeWhile fun c => !isLineEnd c).take 255) 0 ⟨s.uuid, 0, false⟩ with
    | error e =>
      rw [hu] at h
      cases h
    | ok u =>
      rw [hu] at h
      dsimp only [Except.bind] at h
      split at h
      · cases h
      · cases h
        dsimp only
        omega
  · cases h
    dsimp only
    omega

theorem turn_progress (hs : s.i < data.length) (h : turn data s = .ok s') : s.i < s'.i := by
  rw [turn_eq] at h
  split at h
  · next hc =>
    split at h
    · next htext =>
      rw [htext, List.length_nil, Nat.add_zero, List.getElem?_eq_getElem hs] at hc
      cases hc
    · cases h
  · next c hc =>
    split at h
    · exact Nat.lt_of_le_of_lt (Nat.le_add_right _ _) (entry_progress h)
    · next hequals =>
      split at h
      · next htext =>
        have hline := line_end hc hequals
        rw [htext, List.length_nil, Nat.add_zero, List.getElem?_eq_getElem hs] at hc
        cases hc
        cases h
        dsimp only
        rw [List.drop_eq_getElem_cons hs, List.takeWhile_cons_of_pos hline, List.length_cons]
        omega
      · cases h

end

/-! ## The whole file -/

/-- mirrors bootloader/src/loader/boot_config.cpp:55-148 -/
def parseLoop (data : List Byte) (s : State) : Except Stop State :=
  if _hs : s.i < data.length then
    match _h : turn data s with
    | .ok s' => parseLoop data s'
    | .error e => .error e
  else .ok s
termination_by data.length - s.i
decreasing_by
  have := turn_progress _hs _h
  omega

/-- The identifier, and the keys that were reported as unknown.
mirrors bootloader/src/loader/boot_config.cpp:45-156 -/
def parseConfiguration (data : List Byte) : Except Stop (List Byte × List (List Byte × Nat)) :=
  (parseLoop data ⟨0, 1, false, List.replicate 16 0#8, []⟩).bind fun s =>
    if s.rootFound then .ok (s.uuid, s.unknown) else .error .missingRoot

section
variable {data rest key value : List Byte} {s s' : State} {i : Nat} {c : Byte}

/-- What the parser keeps: the identifier has its 16 bytes, and no access is outside. -/
def Inside : Except Stop State → Prop
  | .ok s => s.uuid.length = 16
  | .error e => e ≠ .outside

theorem entry_inside (hs : s.uuid.length = 16) : Inside (entry data s i key) := by
  rw [entry_eq]
  split
  · obtain ⟨u, hu, hlength⟩ := uuidLoop_inside (((data.drop (i + 1)).takeWhile fun c => !isLineEnd c).take 255) 0
      ⟨s.uuid, 0, false⟩ hs
    rw [hu]
    dsimp only [Except.bind]
    split
    · simp [Inside]
    · exact hlength
  · exact hs

theorem turn_inside (data : List Byte) (hs : s.uuid.length = 16) : Inside (turn data s) := by
  rw [turn_eq]
  split
  · split
    · exact hs
    · simp [Inside]
  · split
    · exact entry_inside hs
    · split
      · exact hs
      · simp [Inside]

theorem parseLoop_inside (data : List Byte) (s : State) (hs : s.uuid.length = 16) : Inside (parseLoop data s) := by
  induction hn : data.length - s.i using Nat.strongRecOn generalizing s with
  | ind n ih =>
    have hturn := turn_inside data hs
    rw [parseLoop]
    split
    · next hlt =>
      split
      · next s' h =>
        have hprogress := turn_progress hlt h
        rw [h] at hturn
        exact ih (data.length - s'.i) (by omega) s' hturn rfl
      · next e h =>
        rw [h] at hturn
        exact hturn
    · exact hs

theorem parseConfiguration_inside (data : List Byte) : parseConfiguration data ≠ .error .outside := by
  have hloop := parseLoop_inside data ⟨0, 1, false, List.replicate 16 0#8, []⟩ List.length_replicate
  unfold parseConfiguration
  cases h : parseLoop data ⟨0, 1, false, List.replicate 16 0#8, []⟩ with
  | error e =>
    rw [h] at hloop
    exact fun heq => hloop (Except.error.inj heq)
  | ok s =>
    dsimp only [Except.bind]
    split <;> simp

end

/-! ## Files of lines -/

structure Line where
  key : List Byte
  value : List Byte
  key_ends : ∀ c ∈ key, endsKey c = false
  value_ends : ∀ c ∈ value, isLineEnd c = false

def Line.text (l : Line) : List Byte := l.key ++ char '=' :: l.value

/-- Lines with at least one line end between two of them. -/
inductive Lines : List Line → List Byte → Prop
  | nil : Lines [] []
  | cons {l : Line} {lines : List Line} {ends text : List Byte} (hends : ∀ c ∈ ends, isLineEnd c = true)
      (hbetween : lines ≠ [] → ends ≠ []) (h : Lines lines text) : Lines (l :: lines) (l.text ++ (ends ++ text))

/-- Line ends may also come first. -/
inductive File (lines : List Line) : List Byte → Prop
  | intro {blank text : List Byte} (hblank : ∀ c ∈ blank, isLineEnd c = true) (h : Lines lines text) : File lines (blank ++ text)

/-- Two digits are a byte. -/
def HexOf (b c d : Byte) : Prop :=
  ∃ high low, Numerals.digitValue 16 c.toNat = some high ∧ Numerals.digitValue 16 d.toNat = some low ∧ b.toNat = high * 16 + low

/-- Bytes in hexadecimal, with a dash or not between two of them. -/
inductive Renders : List Byte → List Byte → Prop
  | single {b c d : Byte} (hbyte : HexOf b c d) : Renders [b] [c, d]
  | next {b c d : Byte} {bytes text : List Byte} (hbyte : HexOf b c d) (h : Renders bytes text) : Renders (b :: bytes) (c :: d :: text)
  | dash {b c d : Byte} {bytes text : List Byte} (hbyte : HexOf b c d) (h : Renders bytes text) :
      Renders (b :: bytes) (c :: d :: char '-' :: text)

/-- A text of an identifier. -/
def RendersUuid (uuid text : List Byte) : Prop := uuid.length = 16 ∧ Renders uuid text

/-! ## The digits -/

section
variable {value rest bytes text : List Byte} {b c d : Byte} {j n : Nat} {u : Uuid} {err : Bool}

theorem digitValue_cases {c v : Nat} (h : Numerals.digitValue 16 c = some v) :
    (48 ≤ c ∧ c ≤ 57 ∧ v = c - 48) ∨ (97 ≤ c ∧ c ≤ 102 ∧ v = c - 97 + 10) ∨ (65 ≤ c ∧ c ≤ 70 ∧ v = c - 65 + 10) := by
  unfold Numerals.digitValue at h
  have h' := (Option.filter_eq_some_iff.mp h).1
  change (if 48 ≤ c ∧ c ≤ 57 then some (c - 48) else if 97 ≤ c ∧ c ≤ 102 then some (c - 97 + 10)
    else if 65 ≤ c ∧ c ≤ 70 then some (c - 65 + 10) else none) = some v at h'
  split at h'
  · next hc => exact .inl ⟨hc.1, hc.2, (Option.some.inj h').symm⟩
  · split at h'
    · next hc => exact .inr (.inl ⟨hc.1, hc.2, (Option.some.inj h').symm⟩)
    · split at h'
      · next hc => exact .inr (.inr ⟨hc.1, hc.2, (Option.some.inj h').symm⟩)
      · cases h'

theorem digit_lt (h : Numerals.digitValue 16 c.toNat = some n) : n < 16 := by
  obtain ⟨h1, h2, rfl⟩ | ⟨h1, h2, rfl⟩ | ⟨h1, h2, rfl⟩ := digitValue_cases h <;> omega

theorem digit_ne_dash (h : Numerals.digitValue 16 c.toNat = some n) : c ≠ char '-' := by
  intro hc
  rw [hc, show Numerals.digitValue 16 (char '-').toNat = none by decide] at h
  cases h

/-- The digits that the grammar has are those of the code. -/
theorem hexCharToByte_eq (h : Numerals.digitValue 16 c.toNat = some n) : hexCharToByte c err = (BitVec.ofNat 8 n, err) := by
  have hle : ∀ a b : Byte, a ≤ b ↔ a.toNat ≤ b.toNat := fun _ _ => BitVec.le_def
  have htoNat : (char '0').toNat = 48 ∧ (char '9').toNat = 57 ∧ (char 'a').toNat = 97 ∧ (char 'f').toNat = 102 ∧
      (char 'A').toNat = 65 ∧ (char 'F').toNat = 70 := by decide
  have hten : (10 : Byte).toNat = 10 := rfl
  have hc := c.isLt
  unfold hexCharToByte
  simp only [hle, htoNat]
  obtain ⟨h1, h2, rfl⟩ | ⟨h1, h2, rfl⟩ | ⟨h1, h2, rfl⟩ := digitValue_cases h
  · rw [if_pos ⟨h1, h2⟩]
    congr 1
    apply BitVec.eq_of_toNat_eq
    rw [BitVec.toNat_sub, htoNat.1, BitVec.toNat_ofNat]
    omega
  · rw [if_neg (by omega), if_pos ⟨h1, h2⟩]
    congr 1
    apply BitVec.eq_of_toNat_eq
    rw [BitVec.toNat_add, BitVec.toNat_sub, htoNat.2.2.1, BitVec.toNat_ofNat]
    rw [hten]
    omega
  · rw [if_neg (by omega), if_neg (by omega), if_pos ⟨h1, h2⟩]
    congr 1
    apply BitVec.eq_of_toNat_eq
    rw [BitVec.toNat_add, BitVec.toNat_sub, htoNat.2.2.2.2.1, BitVec.toNat_ofNat]
    rw [hten]
    omega

/-- The two halves of a byte. -/
theorem join_halves {high low : Nat} (hhigh : high < 16) (hlow : low < 16) :
    ((BitVec.ofNat 8 high <<< 4) ||| BitVec.ofNat 8 low : Byte) = BitVec.ofNat 8 (high * 16 + low) := by
  have hor := Nat.shiftLeft_add_eq_or_of_lt (show low < 2 ^ 4 by omega) high
  apply BitVec.eq_of_toNat_eq
  rw [BitVec.toNat_or, BitVec.toNat_shiftLeft, BitVec.toNat_ofNat, BitVec.toNat_ofNat, BitVec.toNat_ofNat,
    Nat.mod_eq_of_lt (show high < 2 ^ 8 by omega), Nat.mod_eq_of_lt (show low < 2 ^ 8 by omega), Nat.mod_eq_of_lt, ← hor,
    Nat.shiftLeft_eq, Nat.mod_eq_of_lt]
  · omega
  · rw [Nat.shiftLeft_eq]
    omega

/-- Two digits are one byte of the identifier. -/
theorem uuidLoop_pair (hbyte : HexOf b c d) (hdrop : value.drop j = c :: d :: rest) (hidx : u.byteIdx < 16)
    (hlength : u.bytes.length = 16) :
    uuidLoop value j u = uuidLoop value (j + 2) ⟨u.bytes.set u.byteIdx b, u.byteIdx + 1, u.hexErr⟩ := by
  obtain ⟨high, low, hhigh, hlow, hb⟩ := hbyte
  obtain ⟨hj, hc, hnext⟩ := drop_cons hdrop
  obtain ⟨hj1, hd, -⟩ := drop_cons hnext
  have hjoin : ((BitVec.ofNat 8 high <<< 4) ||| BitVec.ofNat 8 low : Byte) = b := by
    rw [join_halves (digit_lt hhigh) (digit_lt hlow), ← hb, BitVec.ofNat_toNat, BitVec.setWidth_eq]
  rw [uuidLoop, dif_pos ⟨hj, hidx⟩, read_eq hc]
  dsimp only [Except.bind]
  rw [if_neg (digit_ne_dash hhigh), if_pos hj1, read_eq hd]
  dsimp only
  rw [hexCharToByte_eq hhigh]
  dsimp only
  rw [hexCharToByte_eq hlow]
  dsimp only
  rw [hjoin, store, Cells.write_eq (by omega)]

theorem uuidLoop_dash (hdrop : value.drop j = char '-' :: rest) (hidx : u.byteIdx < 16) :
    uuidLoop value j u = uuidLoop value (j + 1) u := by
  obtain ⟨hj, hc, -⟩ := drop_cons hdrop
  rw [uuidLoop, dif_pos ⟨hj, hidx⟩, read_eq hc]
  dsimp only [Except.bind]
  rw [if_pos rfl]

theorem Renders.length_pos (h : Renders bytes text) : 0 < bytes.length := by
  cases h <;> simp

/-- One loop reads all the bytes, wherever the dashes are. -/
theorem uuidLoop_renders (h : Renders bytes text) (hdrop : value.drop j = text) (hidx : u.byteIdx + bytes.length = 16)
    (hlength : u.bytes.length = 16) :
    uuidLoop value j u = .ok ⟨u.bytes.take u.byteIdx ++ bytes, 16, u.hexErr⟩ := by
  have hset : ∀ (l : List Byte) (k : Nat) (b : Byte) (t : List Byte), k < l.length →
      (l.set k b).take (k + 1) ++ t = l.take k ++ b :: t := fun l k b t hk => by
    rw [List.take_add_one, List.take_set_of_le (Nat.le_refl k), List.getElem?_set_self hk]
    simp
  induction h generalizing j u with
  | single hbyte =>
    rw [List.length_singleton] at hidx
    rw [uuidLoop_pair hbyte hdrop (by omega) hlength, uuidLoop, dif_neg (by dsimp only; omega), ← hset _ _ _ _ (by omega),
      List.append_nil, List.take_of_length_le (by rw [List.length_set]; omega), hidx]
  | next hbyte h ih =>
    rw [List.length_cons] at hidx
    have hnext := (drop_cons (drop_cons hdrop).2.2).2.2
    rw [uuidLoop_pair hbyte hdrop (by omega) hlength, ih hnext (by dsimp only; omega) (by simpa using hlength)]
    dsimp only
    rw [hset _ _ _ _ (by omega)]
  | dash hbyte h ih =>
    rw [List.length_cons] at hidx
    have hpos := h.length_pos
    have hdash := (drop_cons (drop_cons hdrop).2.2).2.2
    have hnext := (drop_cons hdash).2.2
    rw [uuidLoop_pair hbyte hdrop (by omega) hlength, uuidLoop_dash hdash (by dsimp only; omega),
      ih hnext (by dsimp only; omega) (by simpa using hlength)]
    dsimp only
    rw [hset _ _ _ _ (by omega)]

theorem Renders.length_le (h : Renders bytes text) : text.length ≤ 3 * bytes.length := by
  induction h with
  | single hbyte => simp
  | next hbyte h ih =>
    simp only [List.length_cons]
    omega
  | dash hbyte h ih =>
    simp only [List.length_cons]
    omega

end

/-! ## The lines -/

section
variable {data rest text ends uuid : List Byte} {s s' : State} {l last : Line} {lines before after : List Line}

theorem takeWhile_stop {p : Byte → Bool} {a b : List Byte} (ha : ∀ c ∈ a, p c = true) (hb : b.takeWhile p = []) :
    (a ++ b).takeWhile p = a := by
  rw [List.takeWhile_append_of_pos ha, hb, List.append_nil]

/-- The next line begins at once. -/
theorem Lines.begins (h : Lines lines text) : text.takeWhile isLineEnd = [] := by
  cases h with
  | nil => rfl
  | @cons l lines ends text hends hbetween h =>
    obtain ⟨key, value, hkey, hvalue⟩ := l
    cases key with
    | nil => rfl
    | cons c key =>
      have hc := hkey c List.mem_cons_self
      have hline : ¬ isLineEnd c = true := fun h => by simp [endsKey, h] at hc
      exact List.takeWhile_cons_of_neg hline

/-- What follows a value is a line end or the end of the file. -/
theorem ends_value (hends : ∀ c ∈ ends, isLineEnd c = true) (hbetween : lines ≠ [] → ends ≠ []) (h : Lines lines text) :
    (ends ++ text).takeWhile (fun c => !isLineEnd c) = [] := by
  cases ends with
  | nil =>
    cases h with
    | nil => rfl
    | cons hends' hbetween' h => exact absurd rfl (hbetween (List.cons_ne_nil _ _))
  | cons c ends =>
    have hc := hends c List.mem_cons_self
    exact List.takeWhile_cons_of_neg (by simp [hc])

/-- What a line does to the state, apart from the cursor. -/
theorem turn_line (hdrop : data.drop s.i = l.text ++ (ends ++ text)) (hends : ∀ c ∈ ends, isLineEnd c = true)
    (hbetween : lines ≠ [] → ends ≠ []) (h : Lines lines text) :
    let next := s.i + l.key.length + 1 + l.value.length + ends.length
    data.drop next = text ∧ turn data s =
      if l.key = root then
        (uuidLoop (l.value.take 255) 0 ⟨s.uuid, 0, false⟩).bind fun u =>
          if u.hexErr ∨ u.byteIdx ≠ 16 then .error (.invalidUuid s.entryNum)
          else .ok ⟨next, s.entryNum + 1, true, u.bytes, s.unknown⟩
      else .ok ⟨next, s.entryNum + 1, s.rootFound, s.uuid,
        s.unknown ++ [((l.key.take 255).takeWhile (· ≠ 0#8), s.entryNum)]⟩ := by
  intro next
  have hall : data.drop s.i = l.key ++ (char '=' :: (l.value ++ (ends ++ text))) := by
    rw [hdrop, Line.text, List.append_assoc]
    rfl
  have hkey : (data.drop s.i).takeWhile (fun c => !endsKey c) = l.key := by
    rw [hall]
    exact takeWhile_stop (fun c hc => by simp [l.key_ends c hc]) rfl
  have hequals : data.drop (s.i + l.key.length) = char '=' :: (l.value ++ (ends ++ text)) := by
    rw [← List.drop_drop, hall, List.drop_left]
  obtain ⟨-, hget, hafter⟩ := drop_cons hequals
  have hvalue : (data.drop (s.i + l.key.length + 1)).takeWhile (fun c => !isLineEnd c) = l.value := by
    rw [hafter]
    exact takeWhile_stop (fun c hc => by simp [l.value_ends c hc]) (ends_value hends hbetween h)
  have hrest : data.drop (s.i + l.key.length + 1 + l.value.length) = ends ++ text := by
    rw [← List.drop_drop, hafter, List.drop_left]
  have hskip : (data.drop (s.i + l.key.length + 1 + l.value.length)).takeWhile isLineEnd = ends := by
    rw [hrest]
    exact takeWhile_stop hends h.begins
  have hroot : l.key.take 255 = root ↔ l.key = root := by
    have hlength : root.length = 4 := rfl
    constructor
    · intro heq
      have hsmall : l.key.length ≤ 255 := by
        have htake := congrArg List.length heq
        rw [List.length_take, hlength] at htake
        omega
      rwa [List.take_of_length_le hsmall] at heq
    · intro heq
      rw [heq]
      rfl
  constructor
  · rw [← List.drop_drop, hrest, List.drop_left]
  · rw [turn_eq]
    rw [hkey, hget]
    dsimp only
    rw [if_pos rfl, entry_eq]
    rw [hvalue, hskip]
    simp only [hroot]
    rfl

/-- One turn for a line that is not a root line. -/
theorem turn_other (hdrop : data.drop s.i = l.text ++ (ends ++ text)) (hends : ∀ c ∈ ends, isLineEnd c = true)
    (hbetween : lines ≠ [] → ends ≠ []) (h : Lines lines text) (hkey : l.key ≠ root) :
    ∃ s', turn data s = .ok s' ∧ data.drop s'.i = text ∧ s'.rootFound = s.rootFound ∧ s'.uuid = s.uuid := by
  obtain ⟨hnext, hturn⟩ := turn_line hdrop hends hbetween h
  rw [if_neg hkey] at hturn
  exact ⟨_, hturn, hnext, rfl, rfl⟩

/-- One turn for a root line. -/
theorem turn_root (hdrop : data.drop s.i = l.text ++ (ends ++ text)) (hends : ∀ c ∈ ends, isLineEnd c = true)
    (hbetween : lines ≠ [] → ends ≠ []) (h : Lines lines text) (hkey : l.key = root) (hvalue : RendersUuid uuid l.value)
    (hs : s.uuid.length = 16) :
    ∃ s', turn data s = .ok s' ∧ data.drop s'.i = text ∧ s'.rootFound = true ∧ s'.uuid = uuid := by
  obtain ⟨hnext, hturn⟩ := turn_line hdrop hends hbetween h
  have hshort : l.value.length ≤ 255 := by
    have := hvalue.2.length_le
    have := hvalue.1
    omega
  have huuid : uuidLoop l.value 0 ⟨s.uuid, 0, false⟩ = .ok ⟨uuid, 16, false⟩ :=
    uuidLoop_renders (u := ⟨s.uuid, 0, false⟩) hvalue.2 rfl (by rw [hvalue.1]) hs
  rw [if_pos hkey, List.take_of_length_le hshort, huuid] at hturn
  dsimp only [Except.bind] at hturn
  rw [if_neg (by simp)] at hturn
  exact ⟨_, hturn, hnext, rfl, rfl⟩

theorem Line.text_ne_nil (l : Line) : l.text ≠ [] := by
  simp [Line.text]

theorem parseLoop_turn (hs : s.i < data.length) (h : turn data s = .ok s') : parseLoop data s = parseLoop data s' := by
  rw [parseLoop, dif_pos hs]
  split
  · next s'' h' =>
    rw [h] at h'
    cases h'
    rfl
  · next e h' =>
    rw [h] at h'
    cases h'

theorem parseLoop_end (hs : data.drop s.i = []) : parseLoop data s = .ok s := by
  rw [parseLoop, dif_neg (by simpa using hs)]

/-- Lines without a root line. -/
theorem parseLoop_others (h : Lines lines text) (hdrop : data.drop s.i = text) (hkeys : ∀ l ∈ lines, l.key ≠ root) :
    ∃ s', parseLoop data s = .ok s' ∧ s'.rootFound = s.rootFound ∧ s'.uuid = s.uuid := by
  induction h generalizing s with
  | nil => exact ⟨s, parseLoop_end hdrop, rfl, rfl⟩
  | @cons l lines ends text hends hbetween h ih =>
    have hlt : s.i < data.length := not_le.mp fun hle => by
      rw [List.drop_eq_nil_of_le hle] at hdrop
      simp [l.text_ne_nil] at hdrop
    obtain ⟨s', hturn, hnext, hfound, huuid⟩ := turn_other hdrop hends hbetween h (hkeys l List.mem_cons_self)
    obtain ⟨s'', hloop, hfound', huuid'⟩ := ih hnext fun l hl => hkeys l (List.mem_cons_of_mem _ hl)
    exact ⟨s'', (parseLoop_turn hlt hturn).trans hloop, hfound'.trans hfound, huuid'.trans huuid⟩

/-- The last root line decides. -/
theorem parseLoop_lines (h : Lines (before ++ last :: after) text) (hdrop : data.drop s.i = text) (hs : s.uuid.length = 16)
    (hvalues : ∀ l ∈ before, l.key = root → ∃ uuid, RendersUuid uuid l.value) (hkey : last.key = root)
    (hvalue : RendersUuid uuid last.value) (hafter : ∀ l ∈ after, l.key ≠ root) :
    ∃ s', parseLoop data s = .ok s' ∧ s'.rootFound = true ∧ s'.uuid = uuid := by
  induction before generalizing s text with
  | nil =>
    rw [List.nil_append] at h
    cases h with
    | cons hends hbetween h =>
      have hlt : s.i < data.length := not_le.mp fun hle => by
        rw [List.drop_eq_nil_of_le hle] at hdrop
        simp [last.text_ne_nil] at hdrop
      obtain ⟨s', hturn, hnext, hfound, huuid⟩ := turn_root hdrop hends hbetween h hkey hvalue hs
      obtain ⟨s'', hloop, hfound', huuid'⟩ := parseLoop_others h hnext hafter
      exact ⟨s'', (parseLoop_turn hlt hturn).trans hloop, hfound'.trans hfound, huuid'.trans huuid⟩
  | cons l before ih =>
    rw [List.cons_append] at h
    cases h with
    | cons hends hbetween h =>
      have hlt : s.i < data.length := not_le.mp fun hle => by
        rw [List.drop_eq_nil_of_le hle] at hdrop
        simp [l.text_ne_nil] at hdrop
      have hvalues' : ∀ l ∈ before, l.key = root → ∃ uuid, RendersUuid uuid l.value := fun l hl =>
        hvalues l (List.mem_cons_of_mem _ hl)
      by_cases hl : l.key = root
      · obtain ⟨uuid', hvalue'⟩ := hvalues l List.mem_cons_self hl
        obtain ⟨s', hturn, hnext, -, huuid⟩ := turn_root hdrop hends hbetween h hl hvalue' hs
        rw [parseLoop_turn hlt hturn]
        exact ih h hnext (by rw [huuid]; exact hvalue'.1) hvalues'
      · obtain ⟨s', hturn, hnext, -, huuid⟩ := turn_other hdrop hends hbetween h hl
        rw [parseLoop_turn hlt hturn]
        exact ih h hnext (by rw [huuid]; exact hs) hvalues'

/-- Line ends in front of the first line are skipped. -/
theorem turn_blank (hdrop : data.drop s.i = ends ++ text) (hends : ∀ c ∈ ends, isLineEnd c = true) (hne : ends ≠ [])
    (htext : text.takeWhile isLineEnd = []) : turn data s = .ok { s with i := s.i + ends.length } := by
  obtain ⟨c, ends, rfl⟩ := List.exists_cons_of_ne_nil hne
  have hc := hends c List.mem_cons_self
  have hkey : (data.drop s.i).takeWhile (fun c => !endsKey c) = [] := by
    rw [hdrop]
    exact List.takeWhile_cons_of_neg (by simp [endsKey, hc])
  have hskip : (data.drop s.i).takeWhile isLineEnd = c :: ends := by
    rw [hdrop]
    exact takeWhile_stop hends htext
  have hequals : c ≠ char '=' := fun h => by
    rw [h] at hc
    exact absurd hc (by decide)
  rw [turn_eq]
  rw [hkey, List.length_nil, Nat.add_zero, (drop_cons hdrop).2.1, hskip]
  dsimp only
  rw [if_neg hequals, if_pos rfl]

/-- No file makes the parser read or write outside, and a file of lines gives the identifier of its last root line. -/
theorem parse_configuration (data : List Byte) :
    parseConfiguration data ≠ .error .outside ∧
      ∀ (before : List Line) (last : Line) (after : List Line) (uuid : List Byte), File (before ++ last :: after) data →
        (∀ l ∈ before, l.key = root → ∃ uuid, RendersUuid uuid l.value) →
        last.key = root → RendersUuid uuid last.value → (∀ l ∈ after, l.key ≠ root) →
        ∃ unknown, parseConfiguration data = .ok (uuid, unknown) := by
  refine ⟨parseConfiguration_inside data, fun before last after uuid hfile hvalues hkey hvalue hafter => ?_⟩
  have hdone : ∃ s', parseLoop data ⟨0, 1, false, List.replicate 16 0#8, []⟩ = .ok s' ∧ s'.rootFound = true ∧ s'.uuid = uuid := by
    cases hfile with
    | @intro blank text hblank h =>
      by_cases hne : blank = []
      · rw [hne, List.nil_append]
        exact parseLoop_lines h rfl List.length_replicate hvalues hkey hvalue hafter
      · have hlt : 0 < (blank ++ text).length := by
          rw [List.length_append]
          exact Nat.add_pos_left (List.length_pos_iff.mpr hne) _
        rw [parseLoop_turn hlt (turn_blank rfl hblank hne h.begins)]
        exact parseLoop_lines h (by dsimp only; rw [Nat.zero_add, List.drop_left]) List.length_replicate hvalues hkey hvalue hafter
  obtain ⟨s', hloop, hfound, huuid⟩ := hdone
  refine ⟨s'.unknown, ?_⟩
  rw [parseConfiguration, hloop]
  dsimp only [Except.bind]
  rw [if_pos hfound, huuid]

theorem parse_configuration_mixed :
    ∃ unknown, parseConfiguration ("\nname=x\r\rroot=".toList.map char ++
      (List.replicate 15 [char 'A', char 'b', char '-']).flatten ++ [char 'A', char 'b', char '\n']) =
        .ok (List.replicate 16 0xAB#8, unknown) := by
  have hbyte : HexOf 0xAB#8 (char 'A') (char 'b') := ⟨10, 11, by decide, by decide, rfl⟩
  let name : Line := ⟨"name".toList.map char, "x".toList.map char, by decide, by decide⟩
  let last : Line := ⟨root, (List.replicate 15 [char 'A', char 'b', char '-']).flatten ++ [char 'A', char 'b'],
    by decide, by decide⟩
  have hvalue : Renders (List.replicate 16 0xAB#8) last.value := by
    iterate 15 apply Renders.dash hbyte
    exact .single hbyte
  have hlast : Lines [last] (last.text ++ ([char '\n'] ++ [])) := .cons (by decide) (by simp) .nil
  have hlines : Lines [name, last] (name.text ++ ([char '\r', char '\r'] ++ (last.text ++ ([char '\n'] ++ [])))) :=
    .cons (by decide) (by simp) hlast
  have hname : ∀ l ∈ [name], l.key = root → ∃ uuid, RendersUuid uuid l.value := fun l hl hkey => by
    rw [List.mem_singleton.mp hl] at hkey
    exact absurd hkey (by decide)
  have hblank : ∀ c ∈ [char '\n'], isLineEnd c = true := by decide
  have hfile := File.intro hblank hlines
  exact (parse_configuration _).2 [name] last [] _ hfile hname rfl ⟨rfl, hvalue⟩ (by simp)

end

end BadLands.Loader.BootConfig
