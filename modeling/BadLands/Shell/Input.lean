import Mathlib.Data.List.GetD
import BadLands.Core.LineEditor
import BadLands.Devices.Keycodes

/-!
# The input buffer of the shell

`InputBuffer` keeps the line that is typed in a block of the heap and hands it to a callback when RETURN is pressed. It
is the line editor of `Core.LineEditor`, with a limit one below the capacity (`editor_refined`), and no store of it is
outside of the block. A character that is typed at a full line is echoed, but not stored.
-/
namespace BadLands.Shell.Input

open BadLands.Core BadLands.Devices.Keycodes

def ch (c : Char) : BitVec 8 := BitVec.ofNat 8 c.toNat

/-- mirrors kernel/src/services/shell/entry.cpp:45-46 -/
def BUFFER_SIZE : Nat := 0x2000

/-- mirrors kernel/src/services/shell/entry.cpp:157-164 -/
structure InputBuffer where
  buffer : Nat → BitVec 8
  capacity : Nat
  position : Nat
  executeCallback : Bool

/-- What is written to the log, and the calls of the callback with a `CommandString`. -/
inductive Output where
  | putc (c : BitVec 8)
  | puts (text : String)
  | execute (command : Nat → BitVec 8) (length : Nat)
  | prompt

/-- mirrors kernel/src/services/shell/entry.cpp:180-187, 461 -/
def InputBuffer.create (size : Nat) : InputBuffer := ⟨fun _ => 0, size, 0, true⟩

/-- A store to the buffer; `none`: it is outside of the block. -/
def InputBuffer.put (b : InputBuffer) (i : Nat) (c : BitVec 8) : Option InputBuffer :=
  if i < b.capacity then some { b with buffer := fun j => if j = i then c else b.buffer j } else none

/-- mirrors kernel/src/services/shell/entry.cpp:199-202 -/
def InputBuffer.isOverflowing (b : InputBuffer) : Bool := decide (b.position ≥ b.capacity - 1)

/-- mirrors kernel/src/services/shell/entry.cpp:166-170 -/
def InputBuffer.appendChar (b : InputBuffer) (c : BitVec 8) : Option InputBuffer :=
  if b.isOverflowing then some b else (b.put b.position c).map fun b => { b with position := b.position + 1 }

/-- mirrors kernel/src/services/shell/entry.cpp:204-209 -/
def InputBuffer.onBackspace (b : InputBuffer) : Option (InputBuffer × List Output) :=
  if b.position > 0 then
    ({ b with position := b.position - 1 }.put (b.position - 1) 0).map fun b => (b, [.putc (ch '\x08')])
  else some (b, [])

/-- mirrors kernel/src/services/shell/entry.cpp:311-316 -/
def InputBuffer.clear (b : InputBuffer) : Option InputBuffer :=
  if b.position ≠ 0 then
    if b.position ≤ b.capacity then
      some { b with buffer := fun j => if j < b.position then 0 else b.buffer j, position := 0 }
    else none
  else some b

/-- RETURN: the line is executed, or it is too long.
mirrors kernel/src/services/shell/entry.cpp:292-307 -/
def InputBuffer.onReturn (b : InputBuffer) : Option (InputBuffer × List Output) :=
  let executed := if b.isOverflowing then [.puts "[SHELL] Command too long.\n\r"]
    else if b.executeCallback then [.execute b.buffer b.position] else []
  b.clear.map fun b => (b, .puts "\n\r" :: (executed ++ [.prompt]))

/-- The letters and the digits follow each other.
mirrors kernel/src/services/shell/entry.cpp:235-286 -/
def charOf (keycode : BitVec 8) (shift : Bool) : BitVec 8 :=
  let shift_offset := if shift then ch 'A' - ch 'a' else 0
  if VK_A ≤ keycode ∧ keycode ≤ VK_Z then ch 'a' + (keycode - VK_A) + shift_offset
  else if VK_0 ≤ keycode ∧ keycode ≤ VK_9 then
    if shift then ch ([')', '!', '@', '#', '$', '%', '^', '&', '*', '('].getD (keycode - VK_0).toNat ' ')
    else ch '0' + (keycode - VK_0)
  else if keycode = VK_OEM_MINUS then if shift then ch '_' else ch '-'
  else if keycode = VK_OEM_PERIOD then if shift then ch '>' else ch '.'
  else if keycode = VK_OEM_COMMA then if shift then ch '<' else ch ','
  else if keycode = VK_OEM_2 then if shift then ch '?' else ch '/'
  else if keycode = VK_SPACE then ch ' '
  else if keycode = VK_RETURN then ch '\n'
  else 0

def pressed (pkt : VirtualKeyPacket) : Bool := pkt.flags &&& FLAG_KEY_PRESSED != 0

def shift (pkt : VirtualKeyPacket) : Bool := pkt.flags &&& FLAG_LEFT_SHIFT != 0 || pkt.flags &&& FLAG_RIGHT_SHIFT != 0

def control (pkt : VirtualKeyPacket) : Bool :=
  pkt.flags &&& FLAG_LEFT_CONTROL != 0 || pkt.flags &&& FLAG_RIGHT_CONTROL != 0

def alt (pkt : VirtualKeyPacket) : Bool := pkt.flags &&& FLAG_LEFT_ALT != 0 || pkt.flags &&& FLAG_RIGHT_ALT != 0

/-- mirrors kernel/src/services/shell/entry.cpp:220-309 -/
def InputBuffer.onKeyEvent (b : InputBuffer) (pkt : VirtualKeyPacket) : Option (InputBuffer × List Output) :=
  if pressed pkt then
    if control pkt || alt pkt then some (b, [])
    else
      let c := charOf pkt.keycode (shift pkt)
      (if pkt.keycode = VK_BACK then b.onBackspace else some (b, [])).bind fun (b, erased) =>
        if c ≠ 0 ∧ c ≠ ch '\n' then (b.appendChar c).map fun b => (b, erased ++ [.putc c])
        else if c = ch '\n' then b.onReturn.map fun (b, out) => (b, erased ++ out)
        else some (b, erased)
  else some (b, [])

/-- The packets one after the other. -/
def InputBuffer.run (b : InputBuffer) : List VirtualKeyPacket → Option (InputBuffer × List Output)
  | [] => some (b, [])
  | pkt :: packets => (b.onKeyEvent pkt).bind fun r => (run r.1 packets).map fun q => (q.1, r.2 ++ q.2)

/-! ## The editor behind it -/

/-- What a packet means to the editor. -/
def keyOf (pkt : VirtualKeyPacket) : LineEditor.Key (BitVec 8) :=
  if pressed pkt = true ∧ control pkt = false ∧ alt pkt = false then
    let c := charOf pkt.keycode (shift pkt)
    if pkt.keycode = VK_BACK then .erase
    else if c = ch '\n' then .enter
    else if c = 0 then .other
    else .char c
  else .other

/-- The text of a `CommandString`. -/
def text (command : Nat → BitVec 8) (length : Nat) : List (BitVec 8) := (List.range length).map command

def Output.abs : Output → LineEditor.Output (BitVec 8)
  | .putc c => if c = ch '\x08' then .back else .echo c
  | .puts text => if text = "\n\r" then .newline else .tooLong
  | .execute command length => .run (text command length)
  | .prompt => .prompt

/-- The command is terminated where it ends, as `puts` expects it. -/
def Output.Terminated : Output → Prop
  | .execute command length => command length = 0 ∧ ∀ i, i < length → command i ≠ 0
  | _ => True

/-- The buffer holds the line, and zeros behind it. -/
structure Inv (b : InputBuffer) (limit : Nat) (line : List (BitVec 8)) : Prop where
  capacity : b.capacity = limit + 1
  position : b.position = line.length
  fits : line.length ≤ limit
  cells : ∀ i, i < b.capacity → b.buffer i = line.getD i 0
  nonzero : ∀ c, c ∈ line → c ≠ 0
  callback : b.executeCallback = true

section
variable {b : InputBuffer} {limit : Nat} {line : List (BitVec 8)}

theorem inv_create (limit : Nat) : Inv (.create (limit + 1)) limit [] where
  capacity := rfl
  position := rfl
  fits := Nat.zero_le _
  cells _ _ := rfl
  nonzero c hc := by cases hc
  callback := rfl

/-! ## The operations -/

theorem Inv.inside (h : Inv b limit line) {i : Nat} (hi : i ≤ line.length) : i < b.capacity := by
  have hcapacity := h.capacity
  have hfits := h.fits
  omega

theorem Inv.text_eq (h : Inv b limit line) : text b.buffer b.position = line := by
  apply List.ext_getElem
  · rw [text, List.length_map, List.length_range, h.position]
  · intro i _ hi
    simp only [text, List.getElem_map, List.getElem_range]
    rw [h.cells i (h.inside (Nat.le_of_lt hi)), List.getD_eq_getElem _ _ hi]

theorem Inv.terminated (h : Inv b limit line) : (Output.execute b.buffer b.position).Terminated := by
  rw [Output.Terminated, h.position]
  refine ⟨?_, fun i hi => ?_⟩
  · rw [h.cells _ (h.inside (Nat.le_refl _)), List.getD_eq_default _ _ (Nat.le_refl _)]
  · rw [h.cells i (h.inside (Nat.le_of_lt hi)), List.getD_eq_getElem _ _ hi]
    exact h.nonzero _ (List.getElem_mem hi)

theorem Inv.overflowing (h : Inv b limit line) : b.isOverflowing = !decide (line.length < limit) := by
  rw [InputBuffer.isOverflowing, h.position, h.capacity, Nat.add_sub_cancel]
  rcases Nat.lt_or_ge line.length limit with hlt | hge
  · rw [decide_eq_true hlt, decide_eq_false (Nat.not_le.mpr hlt)]
    rfl
  · rw [decide_eq_false (Nat.not_lt.mpr hge), decide_eq_true hge]
    rfl

theorem Inv.appendChar {c : BitVec 8} (h : Inv b limit line) (hc : c ≠ 0) :
    ∃ b', b.appendChar c = some b' ∧ Inv b' limit (if line.length < limit then line ++ [c] else line) := by
  have hcapacity := h.capacity
  have hposition := h.position
  rw [InputBuffer.appendChar, h.overflowing]
  by_cases hroom : line.length < limit
  · rw [if_pos hroom, decide_eq_true hroom, Bool.not_true, if_neg Bool.false_ne_true, InputBuffer.put,
      if_pos (show b.position < b.capacity by omega), Option.map_some]
    refine ⟨_, rfl, hcapacity, ?_, ?_, fun i hi => ?_, fun d hd => ?_, h.callback⟩
    · rw [List.length_append, List.length_singleton, hposition]
    · rw [List.length_append]
      exact hroom
    · dsimp only
      rw [hposition]
      rcases Nat.lt_trichotomy i line.length with hlt | rfl | hgt
      · rw [if_neg (by omega), List.getD_append _ _ _ _ hlt]
        exact h.cells i hi
      · rw [if_pos rfl, List.getD_append_right _ _ _ _ (Nat.le_refl _), Nat.sub_self]
        rfl
      · rw [if_neg (by omega), h.cells i hi, List.getD_eq_default _ _ (Nat.le_of_lt hgt),
          List.getD_eq_default _ _ (by rw [List.length_append]; exact hgt)]
    · rw [List.mem_append, List.mem_singleton] at hd
      rcases hd with hd | rfl
      · exact h.nonzero d hd
      · exact hc
  · rw [if_neg hroom, decide_eq_false hroom, Bool.not_false, if_pos rfl]
    exact ⟨b, rfl, h⟩

theorem Inv.onBackspace (h : Inv b limit line) :
    ∃ b', b.onBackspace = some (b', if line = [] then [] else [.putc (ch '\x08')]) ∧
      Inv b' limit (if line = [] then line else line.dropLast) := by
  have hcapacity := h.capacity
  have hposition := h.position
  have hfits := h.fits
  rw [InputBuffer.onBackspace]
  by_cases hnil : line = []
  · have hzero : b.position = 0 := by rw [hposition, hnil, List.length_nil]
    rw [if_pos hnil, if_pos hnil, if_neg (by omega)]
    exact ⟨b, rfl, h⟩
  · have hpos := List.length_pos_of_ne_nil hnil
    have hput : b.position - 1 < b.capacity := by omega
    rw [if_neg hnil, if_neg hnil, if_pos (by omega), InputBuffer.put, if_pos hput, Option.map_some]
    refine ⟨_, rfl, hcapacity, ?_, ?_, fun i hi => ?_, fun d hd => ?_, h.callback⟩
    · rw [List.length_dropLast, hposition]
    · rw [List.length_dropLast]
      omega
    · dsimp only
      rw [hposition, List.getD_eq_getElem?_getD, List.getElem?_dropLast, h.cells i hi, List.getD_eq_getElem?_getD]
      split
      · rw [if_neg (by omega), Option.getD_none]
      · split
        · rfl
        · rw [List.getElem?_eq_none (by omega), Option.getD_none]
    · exact h.nonzero d (line.dropLast_subset hd)

theorem Inv.clear (h : Inv b limit line) : ∃ b', b.clear = some b' ∧ Inv b' limit [] := by
  have hcapacity := h.capacity
  have hposition := h.position
  have hfits := h.fits
  rw [InputBuffer.clear]
  by_cases hzero : b.position = 0
  · rw [if_neg (by omega)]
    refine ⟨b, rfl, hcapacity, hzero, Nat.zero_le _, fun i hi => ?_, fun c hc => (by cases hc), h.callback⟩
    rw [h.cells i hi, List.getD_eq_default _ _ (by omega)]
    rfl
  · rw [if_pos hzero, if_pos (by omega)]
    refine ⟨_, rfl, hcapacity, rfl, Nat.zero_le _, fun i hi => ?_, fun c hc => (by cases hc), h.callback⟩
    dsimp only
    split
    · rfl
    · rw [h.cells i hi, List.getD_eq_default _ _ (by omega)]
      rfl

/-! ## A key -/

theorem keyOf_released {pkt : VirtualKeyPacket} (h : pressed pkt = false) : keyOf pkt = .other := by
  rw [keyOf, if_neg]
  rw [h]
  exact fun hk => Bool.false_ne_true hk.1

theorem charOf_back : ∀ shift, charOf VK_BACK shift = 0 := by decide

theorem charOf_ne_back : ∀ keycode shift, charOf keycode shift ≠ ch '\x08' := by decide +kernel

theorem newline_ne_zero : ch '\n' ≠ 0 := by decide

theorem abs_putc {c : BitVec 8} (h : c ≠ ch '\x08') : (Output.putc c).abs = .echo c := if_neg h

theorem Inv.onReturn (h : Inv b limit line) :
    ∃ b' out, b.onReturn = some (b', out) ∧ Inv b' limit [] ∧ out.map Output.abs = (LineEditor.step limit line .enter).2 ∧
      ∀ o, o ∈ out → o.Terminated := by
  obtain ⟨b', hrun, hinv⟩ := h.clear
  rw [InputBuffer.onReturn, hrun, Option.map_some, h.overflowing, h.callback]
  refine ⟨b', _, rfl, hinv, ?_⟩
  by_cases hroom : line.length < limit
  · simp only [LineEditor.step, decide_eq_true hroom, if_pos hroom, Bool.not_true, Bool.false_eq_true, if_false,
      List.nil_append, List.cons_append, List.map_cons, List.map_nil, Output.abs, h.text_eq, if_true, true_and,
      List.mem_cons, List.not_mem_nil, or_false]
    rintro o (rfl | rfl | rfl)
    · trivial
    · exact h.terminated
    · trivial
  · simp only [LineEditor.step, decide_eq_false hroom, if_neg hroom, Bool.not_false, if_true, List.nil_append,
      List.cons_append, List.map_cons, List.map_nil, Output.abs, List.mem_cons, List.not_mem_nil, or_false]
    refine ⟨rfl, ?_⟩
    rintro o (rfl | rfl | rfl) <;> trivial

/-- One packet does what its key does to the line. -/
theorem Inv.onKeyEvent (h : Inv b limit line) (pkt : VirtualKeyPacket) :
    ∃ b' out, b.onKeyEvent pkt = some (b', out) ∧ Inv b' limit (LineEditor.step limit line (keyOf pkt)).1 ∧
      out.map Output.abs = (LineEditor.step limit line (keyOf pkt)).2 ∧ ∀ o, o ∈ out → o.Terminated := by
  have hnothing : ∀ o, o ∈ ([] : List Output) → o.Terminated := fun o ho => by cases ho
  rw [InputBuffer.onKeyEvent, keyOf]
  by_cases hpressed : pressed pkt = true
  · by_cases hmodified : (control pkt || alt pkt) = true
    · rw [if_pos hpressed, if_pos hmodified, if_neg fun hk => ?_]
      · exact ⟨b, [], rfl, h, rfl, hnothing⟩
      · rw [hk.2.1, hk.2.2] at hmodified
        cases hmodified
    · have hplain : pressed pkt = true ∧ control pkt = false ∧ alt pkt = false := by
        rw [Bool.not_eq_true, Bool.or_eq_false_iff] at hmodified
        exact ⟨hpressed, hmodified⟩
      rw [if_pos hpressed, if_neg hmodified, if_pos hplain]
      dsimp only
      by_cases hback : pkt.keycode = VK_BACK
      · -- the keycode has no character
        obtain ⟨b', hrun, hinv⟩ := h.onBackspace
        rw [if_pos hback, if_pos hback, hback, charOf_back, hrun, Option.bind_some]
        rw [if_neg fun hc => hc.1 rfl, if_neg newline_ne_zero.symm]
        refine ⟨b', _, rfl, ?_, ?_, fun o ho => ?_⟩
        · rw [LineEditor.step, apply_ite Prod.fst]
          exact hinv
        · rw [LineEditor.step, apply_ite Prod.snd, apply_ite (List.map Output.abs)]
          rfl
        · split at ho
          · cases ho
          · rw [List.mem_singleton] at ho
            rw [ho]
            trivial
      · rw [if_neg hback, if_neg hback, Option.bind_some]
        generalize hc : charOf pkt.keycode (shift pkt) = c
        by_cases hnewline : c = ch '\n'
        · obtain ⟨b', out, hrun, hinv, habs, hterm⟩ := h.onReturn
          rw [if_neg fun hc => hc.2 hnewline, if_pos hnewline, if_pos hnewline, hrun, Option.map_some]
          exact ⟨b', out, rfl, hinv, habs, hterm⟩
        · by_cases hzero : c = 0
          · rw [if_neg fun hc => hc.1 hzero, if_neg hnewline, if_neg hnewline, if_pos hzero]
            exact ⟨b, [], rfl, h, rfl, hnothing⟩
          · obtain ⟨b', hrun, hinv⟩ := h.appendChar hzero
            rw [if_pos ⟨hzero, hnewline⟩, if_neg hnewline, if_neg hzero, hrun, Option.map_some]
            refine ⟨b', _, rfl, hinv, ?_, fun o ho => ?_⟩
            · have hecho : (Output.putc c).abs = .echo c := abs_putc (hc ▸ charOf_ne_back _ _)
              rw [List.nil_append, List.map_singleton, hecho]
              rfl
            · rw [List.nil_append, List.mem_singleton] at ho
              rw [ho]
              trivial
  · rw [if_neg hpressed, if_neg fun hk => hpressed hk.1]
    exact ⟨b, [], rfl, h, rfl, hnothing⟩

theorem InputBuffer.run_append (packets packets' : List VirtualKeyPacket) : ∀ b : InputBuffer,
    b.run (packets ++ packets') = (b.run packets).bind fun r => (r.1.run packets').map fun q => (q.1, r.2 ++ q.2) := by
  induction packets with
  | nil =>
    intro b
    rw [List.nil_append, InputBuffer.run, Option.bind_some]
    cases b.run packets' <;> rfl
  | cons pkt packets ih =>
    intro b
    rw [List.cons_append, InputBuffer.run, InputBuffer.run]
    cases b.onKeyEvent pkt with
    | none => rfl
    | some r =>
      simp only [Option.bind_some, ih]
      cases r.1.run packets with
      | none => rfl
      | some r =>
        simp only [Option.bind_some, Option.map_some, Option.map_map, List.append_assoc]
        rfl

theorem Inv.run (packets : List VirtualKeyPacket) : ∀ {b : InputBuffer} {line : List (BitVec 8)}, Inv b limit line →
    ∃ b' out, b.run packets = some (b', out) ∧ Inv b' limit (LineEditor.play limit line (packets.map keyOf)).1 ∧
      out.map Output.abs = (LineEditor.play limit line (packets.map keyOf)).2 ∧ ∀ o, o ∈ out → o.Terminated := by
  induction packets with
  | nil => exact fun h => ⟨_, [], rfl, h, rfl, fun o ho => by cases ho⟩
  | cons pkt packets ih =>
    intro b line h
    obtain ⟨b₁, now, hrun₁, h₁, habs₁, hterm₁⟩ := h.onKeyEvent pkt
    obtain ⟨b₂, later, hrun₂, h₂, habs₂, hterm₂⟩ := ih h₁
    refine ⟨b₂, now ++ later, ?_, h₂, ?_, fun o ho => ?_⟩
    · rw [InputBuffer.run, hrun₁, Option.bind_some, hrun₂, Option.map_some]
    · rw [List.map_append, habs₁, habs₂]
      rfl
    · rcases List.mem_append.mp ho with ho | ho
      · exact hterm₁ o ho
      · exact hterm₂ o ho

end

/-- For every size of the buffer and every sequence of packets: no store is outside of the block, the line and all
that is written and executed are those of the line editor, and every command is terminated behind its last character. -/
theorem editor_refined (limit : Nat) (packets : List VirtualKeyPacket) :
    ∃ b out, (InputBuffer.create (limit + 1)).run packets = some (b, out) ∧
      text b.buffer b.position = (LineEditor.play limit [] (packets.map keyOf)).1 ∧
      out.map Output.abs = (LineEditor.play limit [] (packets.map keyOf)).2 ∧ (∀ o, o ∈ out → o.Terminated) := by
  obtain ⟨b, out, hrun, h, habs, hterm⟩ := (inv_create limit).run packets
  exact ⟨b, out, hrun, h.text_eq, habs, hterm⟩

end BadLands.Shell.Input
