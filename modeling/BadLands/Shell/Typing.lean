import BadLands.Devices.KeyboardBuffer
import BadLands.Devices.Ps2Keyboard
import BadLands.Shell.Input

/-!
# From the keyboard to the shell

The interrupt handler of the PS/2 keyboard turns bytes into packets and writes them to the multiplexer; the shell reads
them, one at a time, and edits its line. Bytes come at any moment, in the middle of a `Read` of the shell too.

* `typing_pipeline`: whatever bytes come, the shell has edited what was typed, up to some packet.
* `typed_text`: a text that is typed on a keyboard of any scan code set is the text that the shell executes.
-/
namespace BadLands.Shell.Typing

open BadLands.Core BadLands.Core.Machine BadLands.Devices
open BadLands.Devices.ScanCodes (State BasicKeyPacket Handler play)
open BadLands.Devices.Keycodes BadLands.Devices.Ps2Keyboard BadLands.Shell.Input
open BadLands.Devices.KeyboardBuffer (multiplexer)

/-- `bytes`: what the keyboard has sent. `out`: what the shell has written and executed since its first prompt. -/
structure Console where
  bytes : List (BitVec 8)
  scan : State
  queue : KeyboardBuffer.System BasicKeyPacket
  shell : InputBuffer
  out : List Output

/-- An interrupt of the keyboard with its byte, a call of `Read` by the shell, or a step of the `Read` in progress. -/
inductive Act where
  | byte (b : BitVec 8)
  | read
  | proceed

/-- What the shell does with packets it has read.
mirrors kernel/src/services/shell/entry.cpp:457-472 -/
def consume (shell : InputBuffer) (packets : List BasicKeyPacket) : Option (InputBuffer × List Output) :=
  (packets.mapM GetVirtualKeyPacket).bind shell.run

/-- `Write` of one packet.
mirrors kernel/src/devices/PS2/Keyboard.cpp:266-281 -/
def interrupt (handler : Handler) (s : Console) (b : BitVec 8) : Option Console :=
  (handler s.scan b).bind fun
    | (scan, none) => some { s with bytes := s.bytes ++ [b], scan := scan }
    | (scan, some packet) => (KeyboardBuffer.step multiplexer s.queue (.write 4 fun _ => packet)).map fun queue =>
      { s with bytes := s.bytes ++ [b], scan := scan, queue := queue }

def step (handler : Handler) (s : Console) : Act → Option Console
  | .byte b => interrupt handler s b
  | .read => (KeyboardBuffer.step multiplexer s.queue (.read 4)).map fun queue => { s with queue := queue }
  | .proceed => (KeyboardBuffer.step multiplexer s.queue .proceed).bind fun queue =>
    (consume s.shell (queue.delivered.drop s.queue.delivered.length)).map fun r =>
      { s with queue := queue, shell := r.1, out := s.out ++ r.2 }

def start (memory : Nat → BasicKeyPacket) (limit : Nat) : Console :=
  ⟨[], {}, KeyboardBuffer.start memory, .create (limit + 1), []⟩

/-! ## What is asked of it -/

/-- What a packet means to the editor. -/
def keyOfPacket (packet : BasicKeyPacket) : LineEditor.Key (BitVec 8) :=
  match GetVirtualKeyPacket packet with
  | some pkt => keyOf pkt
  | none => .other

/-- The characters of the keys without Shift. In set 3 the key of the slash has the keypoint of the one on the pad, which
has no character. -/
def typables (set : ScanCodeSet) : List (BitVec 8) :=
  (List.range 26).map (fun i => ch 'a' + BitVec.ofNat 8 i) ++ (List.range 10).map (fun i => ch '0' + BitVec.ofNat 8 i) ++
    [ch '-', ch '.', ch ',', ch ' '] ++ if set = .set3 then [] else [ch '/']

/-- The line, and all that was written and executed, are those of an editor that got the packets that were read. These
are the first ones of what the bytes mean. No step that is due fails, but for the handler of the bytes itself. -/
structure Faithful (set : ScanCodeSet) (limit : Nat) (s : Console) : Prop where
  decoded : ∃ packets, play set.handler {} s.bytes = some (s.scan, packets) ∧ s.queue.delivered <+: packets
  line : text s.shell.buffer s.shell.position = (LineEditor.play limit [] (s.queue.delivered.map keyOfPacket)).1
  out : s.out.map Output.abs = (LineEditor.play limit [] (s.queue.delivered.map keyOfPacket)).2
  terminated : ∀ o, o ∈ s.out → o.Terminated
  plain : ∀ p, p ∈ s.queue.delivered → ∀ c, keyOfPacket p = .char c → c ∈ typables set
  reads : s.queue.reader = .idle → (step set.handler s .read).isSome = true
  proceeds : s.queue.reader ≠ .idle → (step set.handler s .proceed).isSome = true
  interrupts : ∀ b, (set.handler s.scan b).isSome = true → (step set.handler s (.byte b)).isSome = true

/-- A packet comes while the buffer is not full, and not between the two updates of a `Read`. -/
def Ok (handler : Handler) (s : Console) : Act → Prop
  | .byte b => ((handler s.scan b).bind Prod.snd).isSome = true →
      s.queue.reader.progress = 0 ∧ s.queue.buffer.availablePacketsCount < multiplexer.capacity
  | _ => True

instance Ok.decidable (handler : Handler) (s : Console) : (a : Act) → Decidable (Ok handler s a)
  | .byte b => inferInstanceAs (Decidable (((handler s.scan b).bind Prod.snd).isSome = true →
      s.queue.reader.progress = 0 ∧ s.queue.buffer.availablePacketsCount < multiplexer.capacity))
  | .read => isTrue trivial
  | .proceed => isTrue trivial

/-- `unread`: what is in the buffer; `virtual`: what the shell has got. -/
structure Inv (set : ScanCodeSet) (limit : Nat) (s : Console) (packets unread : List BasicKeyPacket)
    (virtual : List VirtualKeyPacket) : Prop where
  decoded : play set.handler {} s.bytes = some (s.scan, packets)
  sent : ∀ p, p ∈ packets → Sent p ∧ ∀ c, keyOfPacket p = .char c → c ∈ typables set
  queue : KeyboardBuffer.Inv multiplexer s.queue unread
  accepted : s.queue.accepted = packets
  read : s.queue.delivered.mapM GetVirtualKeyPacket = some virtual
  shell : (InputBuffer.create (limit + 1)).run virtual = some (s.shell, s.out)

section
variable {set : ScanCodeSet} {limit : Nat} {s s' : Console} {packets unread : List BasicKeyPacket}
  {virtual : List VirtualKeyPacket}

/-! ## Packets -/

/-- A key with a character that is none of the set. -/
def strange (set : ScanCodeSet) (keypoint : BitVec 8) : Bool :=
  match keyOfPacket ⟨0, keypoint, FLAG_KEY_PRESSED⟩ with
  | .char c => !(typables set).contains c
  | _ => false

theorem not_strange : ∀ keypoint, strange .set1 keypoint = false ∧ strange .set2 keypoint = false := by decide +kernel

theorem not_strange_set3 : ∀ byte, strange .set3 (scan_code_set_3_keypoints byte) = false := by decide +kernel

/-- A release means nothing to the editor. -/
theorem keyOfPacket_released {p : BasicKeyPacket} (h : p.flags = 0) : keyOfPacket p = .other := by
  unfold keyOfPacket
  split
  · rename_i pkt hpkt
    rw [GetVirtualKeyPacket, Option.map_eq_some_iff] at hpkt
    obtain ⟨keycode, -, rfl⟩ := hpkt
    refine keyOf_released ?_
    rw [pressed, h]
    exact (show (0#16 &&& FLAG_KEY_PRESSED != 0) = false by decide)
  · rfl

/-- A packet without modifiers has a character of the set or none. -/
theorem plain_packet {p : BasicKeyPacket} (hflags : p.flags = 0 ∨ p.flags = FLAG_KEY_PRESSED)
    (hstrange : strange set p.keypoint = false) {c : BitVec 8} (hc : keyOfPacket p = .char c) : c ∈ typables set := by
  rcases hflags with hflags | hflags
  · rw [keyOfPacket_released hflags] at hc
    cases hc
  · obtain ⟨scancode, keypoint, flags⟩ := p
    subst hflags
    have hsame : keyOfPacket ⟨0, keypoint, FLAG_KEY_PRESSED⟩ = .char c := hc
    unfold strange at hstrange
    rw [hsame] at hstrange
    rw [Bool.not_eq_eq_eq_not, Bool.not_false] at hstrange
    exact List.contains_iff_mem.mp hstrange

/-- Whatever bytes come, no packet has a character that is none of the set. -/
theorem handler_plain {scan scan' : State} {b : BitVec 8} {p : BasicKeyPacket}
    (h : set.handler scan b = some (scan', some p)) {c : BitVec 8} (hc : keyOfPacket p = .char c) : c ∈ typables set := by
  have hflags := (handler_sent h).flags
  cases set with
  | set1 => exact plain_packet hflags (not_strange _).1 hc
  | set2 => exact plain_packet hflags (not_strange _).2 hc
  | set3 =>
    have hkeypoint : p.keypoint = scan_code_set_3_keypoints b := by
      rw [ScanCodeSet.handler, KeyboardScanCodeSet3Handler] at h
      split at h
      · cases h
      · cases h
        rfl
    exact plain_packet hflags (hkeypoint ▸ not_strange_set3 b) hc

theorem virtual_inside {p : BasicKeyPacket} (h : Inside p.keypoint) : ∃ pkt, GetVirtualKeyPacket p = some pkt := by
  obtain ⟨keycode, hkeycode⟩ := Option.isSome_iff_exists.mp h
  exact ⟨_, by rw [GetVirtualKeyPacket, hkeycode, Option.map_some]⟩

theorem virtual_all (l : List BasicKeyPacket) (h : ∀ p, p ∈ l → Inside p.keypoint) :
    ∃ vs, l.mapM GetVirtualKeyPacket = some vs ∧ vs.map keyOf = l.map keyOfPacket := by
  induction l with
  | nil => exact ⟨[], rfl, rfl⟩
  | cons p l ih =>
    obtain ⟨pkt, hpkt⟩ := virtual_inside (h p (.head _))
    obtain ⟨vs, hvs, hkeys⟩ := ih fun q hq => h q (.tail _ hq)
    refine ⟨pkt :: vs, ?_, ?_⟩
    · rw [List.mapM_cons, hpkt, hvs]
      rfl
    · rw [List.map_cons, List.map_cons, hkeys, keyOfPacket, hpkt]

/-! ## Steps of the buffer -/

/-- A packet that is written while there is room is taken. -/
theorem write_taken {q : KeyboardBuffer.System BasicKeyPacket} {p : BasicKeyPacket}
    (hroom : q.buffer.availablePacketsCount < multiplexer.capacity) :
    ∃ q', KeyboardBuffer.step multiplexer q (.write 4 fun _ => p) = some q' ∧ q'.accepted = q.accepted ++ [p] ∧
      q'.delivered = q.delivered ∧ q'.reader = q.reader := by
  have hremaining : multiplexer.capacity - q.buffer.availablePacketsCount ≠ 0 := by omega
  have hone : ¬ (4 / multiplexer.packetSize > multiplexer.capacity - q.buffer.availablePacketsCount) := by
    rw [show 4 / multiplexer.packetSize = 1 from rfl]
    omega
  have hwritten : (KeyboardBuffer.write multiplexer q.buffer 4 fun _ => p).2.1 = [p] := by
    unfold KeyboardBuffer.write
    rw [if_neg (show ¬ 4 % multiplexer.packetSize ≠ 0 by decide)]
    dsimp only
    rw [if_neg hremaining, if_neg hone]
    rfl
  rw [KeyboardBuffer.step]
  exact ⟨_, rfl, congrArg (q.accepted ++ ·) hwritten, rfl, rfl⟩

/-- A step of a `Read` hands packets over, or none. -/
theorem proceed_delivers {q q' : KeyboardBuffer.System BasicKeyPacket}
    (h : KeyboardBuffer.step multiplexer q .proceed = some q') :
    q'.accepted = q.accepted ∧ ∃ new, q'.delivered = q.delivered ++ new := by
  simp only [KeyboardBuffer.step, KeyboardBuffer.proceed] at h
  cases hr : q.reader with
  | idle =>
    rw [hr] at h
    cases h
  | copying n i out =>
    rw [hr] at h
    dsimp only at h
    split at h
    · cases h
      exact ⟨rfl, [], (List.append_nil _).symm⟩
    · cases h
      exact ⟨rfl, out, rfl⟩
  | advancing n i out =>
    rw [hr] at h
    cases h
    exact ⟨rfl, [], (List.append_nil _).symm⟩

theorem read_delivers {q q' : KeyboardBuffer.System BasicKeyPacket}
    (h : KeyboardBuffer.step multiplexer q (.read 4) = some q') :
    q'.accepted = q.accepted ∧ q'.delivered = q.delivered := by
  simp only [KeyboardBuffer.step] at h
  split at h
  · split at h
    · cases h
      exact ⟨rfl, rfl⟩
    · cases h
      exact ⟨rfl, rfl⟩
  · cases h

/-! ## Steps of the console -/

theorem inv_start (set : ScanCodeSet) (memory : Nat → BasicKeyPacket) (limit : Nat) :
    Inv set limit (start memory limit) [] [] [] where
  decoded := rfl
  sent p hp := by cases hp
  queue := KeyboardBuffer.inv_start memory
  accepted := rfl
  read := rfl
  shell := rfl

/-- The packets that have been read are the first ones. -/
theorem Inv.delivered (h : Inv set limit s packets unread virtual) : s.queue.delivered <+: packets :=
  ⟨unread, h.accepted ▸ h.queue.split.symm⟩

theorem play_snoc {handler : Handler} {bytes : List (BitVec 8)} {scan scan' : State} {b : BitVec 8}
    {packet : Option BasicKeyPacket} (h : play handler {} bytes = some (scan, packets))
    (hb : handler scan b = some (scan', packet)) :
    play handler {} (bytes ++ [b]) = some (scan', packets ++ packet.toList) := by
  rw [play_append, h, Option.bind_some, play, hb]
  simp only [Option.bind_some, play, Option.map_some, List.append_nil]

theorem Inv.byte {b : BitVec 8} (h : Inv set limit s packets unread virtual) (hok : Ok set.handler s (.byte b))
    (hs : step set.handler s (.byte b) = some s') : ∃ packets' unread', Inv set limit s' packets' unread' virtual := by
  simp only [step, interrupt, Option.bind_eq_some_iff] at hs
  obtain ⟨⟨scan, packet⟩, hb, hs⟩ := hs
  have hplayed := play_snoc h.decoded hb
  cases packet with
  | none =>
    cases hs
    refine ⟨packets, unread, ?_, h.sent, h.queue, h.accepted, h.read, h.shell⟩
    rw [Option.toList_none, List.append_nil] at hplayed
    exact hplayed
  | some p =>
    obtain ⟨hprogress, hroom⟩ := hok (by rw [hb]; rfl)
    obtain ⟨queue, hwrite, haccepted, hdelivered, -⟩ := write_taken (p := p) hroom
    dsimp only at hs
    rw [hwrite, Option.map_some] at hs
    cases hs
    obtain ⟨unread', hqueue⟩ := h.queue.write (.inl hprogress) hwrite
    refine ⟨packets ++ [p], unread', hplayed, fun q hq => ?_, hqueue, ?_, ?_, h.shell⟩
    · rcases List.mem_append.mp hq with hq | hq
      · exact h.sent q hq
      · rw [List.mem_singleton.mp hq]
        exact ⟨handler_sent hb, fun c => handler_plain hb⟩
    · rw [haccepted, h.accepted]
    · rw [hdelivered]
      exact h.read

theorem Inv.readStep (h : Inv set limit s packets unread virtual) (hs : step set.handler s .read = some s') :
    Inv set limit s' packets unread virtual := by
  simp only [step, Option.map_eq_some_iff] at hs
  obtain ⟨queue, hq, rfl⟩ := hs
  obtain ⟨haccepted, hdelivered⟩ := read_delivers hq
  exact ⟨h.decoded, h.sent, h.queue.read hq, haccepted.trans h.accepted, hdelivered ▸ h.read, h.shell⟩

/-- What the shell does with new packets. -/
theorem consume_spec {delivered new : List BasicKeyPacket} {b : InputBuffer} {out : List Output}
    (hread : delivered.mapM GetVirtualKeyPacket = some virtual)
    (hshell : (InputBuffer.create (limit + 1)).run virtual = some (b, out))
    (hnew : ∀ p, p ∈ new → Inside p.keypoint) :
    ∃ vs b' later, (delivered ++ new).mapM GetVirtualKeyPacket = some (virtual ++ vs) ∧
      consume b new = some (b', later) ∧
      (InputBuffer.create (limit + 1)).run (virtual ++ vs) = some (b', out ++ later) := by
  obtain ⟨vs, hvs, -⟩ := virtual_all new hnew
  obtain ⟨_, _, hrun, -⟩ := (inv_create limit).run (virtual ++ vs)
  rw [InputBuffer.run_append, hshell, Option.bind_some, Option.map_eq_some_iff] at hrun
  obtain ⟨⟨b', later⟩, hlater, -⟩ := hrun
  dsimp only at hlater
  refine ⟨vs, b', later, ?_, ?_, ?_⟩
  · rw [List.mapM_append, hread, hvs]
    rfl
  · rw [consume, hvs, Option.bind_some]
    exact hlater
  · rw [InputBuffer.run_append, hshell, Option.bind_some]
    dsimp only
    rw [hlater, Option.map_some]

theorem Inv.proceed (h : Inv set limit s packets unread virtual) {queue : KeyboardBuffer.System BasicKeyPacket}
    (hq : KeyboardBuffer.step multiplexer s.queue .proceed = some queue) :
    ∃ s' unread' virtual', step set.handler s .proceed = some s' ∧ Inv set limit s' packets unread' virtual' := by
  obtain ⟨unread', hqueue⟩ := h.queue.proceed hq
  obtain ⟨haccepted, new, hdelivered⟩ := proceed_delivers hq
  have hnew : ∀ p, p ∈ new → Inside p.keypoint := by
    intro p hp
    have hmem : p ∈ queue.accepted := by
      rw [hqueue.split, hdelivered]
      exact List.mem_append_left _ (List.mem_append_right _ hp)
    rw [haccepted, h.accepted] at hmem
    exact (h.sent p hmem).1.inside
  obtain ⟨vs, b', later, hread, hconsume, hshell⟩ := consume_spec h.read h.shell hnew
  have hdrop : queue.delivered.drop s.queue.delivered.length = new := by
    rw [hdelivered, List.drop_left]
  refine ⟨{ s with queue := queue, shell := b', out := s.out ++ later }, unread', virtual ++ vs, ?_,
    ⟨h.decoded, h.sent, hqueue, haccepted.trans h.accepted, ?_, hshell⟩⟩
  · simp only [step, hq, Option.bind_some, hdrop, hconsume, Option.map_some]
  · rw [hdelivered]
    exact hread

theorem Inv.faithful (h : Inv set limit s packets unread virtual) : Faithful set limit s := by
  obtain ⟨vs, hvs, hkeys⟩ := virtual_all s.queue.delivered fun p hp => (h.sent p (h.delivered.subset hp)).1.inside
  have hsame := h.read
  rw [hvs] at hsame
  cases hsame
  obtain ⟨b, out, hrun, hline, hout, hterminated⟩ := (inv_create limit).run virtual
  rw [h.shell] at hrun
  cases hrun
  rw [hkeys] at hline hout
  refine ⟨⟨packets, h.decoded, h.delivered⟩, hline.text_eq, hout, hterminated, fun p hp => (h.sent p (h.delivered.subset hp)).2,
    fun hidle => ?_, fun hbusy => ?_, fun b hb => ?_⟩
  · simp only [step, KeyboardBuffer.step, hidle]
    cases KeyboardBuffer.readStart multiplexer s.queue.buffer 4 <;> rfl
  · obtain ⟨queue, hq⟩ : ∃ queue, KeyboardBuffer.step multiplexer s.queue .proceed = some queue := by
      simp only [KeyboardBuffer.step, KeyboardBuffer.proceed]
      cases hr : s.queue.reader with
      | idle => exact absurd hr hbusy
      | copying n i out =>
        dsimp only
        split
        · exact ⟨_, rfl⟩
        · exact ⟨_, rfl⟩
      | advancing n i out => exact ⟨_, rfl⟩
    obtain ⟨s', -, -, hs', -⟩ := h.proceed hq
    rw [hs']
    rfl
  · obtain ⟨⟨scan, packet⟩, hb⟩ := Option.isSome_iff_exists.mp hb
    simp only [step, interrupt, hb, Option.bind_some]
    cases packet <;> rfl

theorem Inv.step {a : Act} (h : Inv set limit s packets unread virtual) (hok : Ok set.handler s a)
    (hs : Typing.step set.handler s a = some s') :
    ∃ packets' unread' virtual', Inv set limit s' packets' unread' virtual' := by
  cases a with
  | byte b =>
    obtain ⟨packets', unread', hinv⟩ := h.byte hok hs
    exact ⟨packets', unread', virtual, hinv⟩
  | read => exact ⟨packets, unread, virtual, h.readStep hs⟩
  | proceed =>
    have hq := hs
    simp only [Typing.step, Option.bind_eq_some_iff] at hq
    obtain ⟨queue, hq, -⟩ := hq
    obtain ⟨s₁, unread', virtual', hs₁, hinv⟩ := h.proceed hq
    rw [hs] at hs₁
    cases hs₁
    exact ⟨packets, unread', virtual', hinv⟩

/-- The invariant along a run. -/
theorem pipeline_inv {memory : Nat → BasicKeyPacket} {acts : List Act}
    (h : AllSteps (step set.handler) (Ok set.handler) (start memory limit) acts) :
    AllStates (step set.handler) (fun s => ∃ packets unread virtual, Inv set limit s packets unread virtual)
      (start memory limit) acts :=
  allStates_of_allSteps (fun _ _ _ ⟨_, _, _, hi⟩ hok hs => hi.step hok hs) acts _
    ⟨[], [], [], inv_start set memory limit⟩ h

end

/-- For every scan code set, every memory of the buffer, every size of the line, every sequence of bytes, well formed or
not, and every interleaving of their interrupts with the steps of the shell in which no packet meets a full buffer or the
end of a `Read`: the shell has edited its line with the first packets of what the bytes mean, in order, and executed
what it was told to. -/
theorem typing_pipeline (set : ScanCodeSet) (memory : Nat → BasicKeyPacket) (limit : Nat) (acts : List Act)
    (h : AllSteps (step set.handler) (Ok set.handler) (start memory limit) acts) :
    AllStates (step set.handler) (Faithful set limit) (start memory limit) acts := by
  exact AllStates.mono (fun _ ⟨_, _, _, hi⟩ => hi.faithful) acts _ (pipeline_inv h)

theorem typing_pipeline_letter : AllStates (step ScanCodeSet.set1.handler) (Faithful .set1 BUFFER_SIZE)
    (start (fun _ => ⟨0, 0, 0⟩) BUFFER_SIZE)
    [.read, .proceed, .byte 0x1E, .read, .byte 0x9E, .proceed, .proceed, .proceed, .byte 0x1C, .byte 0xE0] :=
  typing_pipeline .set1 _ _ _ (by decide)

/-! ## Typing text -/

/-- The key that is pressed for `k`. -/
def keyFor (set : ScanCodeSet) (k : LineEditor.Key (BitVec 8)) : Option ScanCodes.Key :=
  set.keys.find? fun key => keyOfPacket ⟨0, key.keypoint, FLAG_KEY_PRESSED⟩ = k

/-- The keys are pressed and released, one after the other. -/
def taps (set : ScanCodeSet) (keys : List (LineEditor.Key (BitVec 8))) : Option (List Stroke) :=
  (keys.mapM (keyFor set)).map fun found => found.flatMap fun key => [⟨key, true⟩, ⟨key, false⟩]

/-- Lines, and RETURN behind each. -/
def keysOfLines (lines : List (List (BitVec 8))) : List (LineEditor.Key (BitVec 8)) :=
  lines.flatMap fun line => line.map .char ++ [.enter]

theorem keyFor_found : ∀ set : ScanCodeSet, ∀ k, k ∈ LineEditor.Key.enter :: (typables set).map .char →
    (keyFor set k).any (fun key => key.release.isSome) = true
  | .set1 => by decide +kernel
  | .set2 => by decide +kernel
  | .set3 => by decide +kernel

section
variable {set : ScanCodeSet}

theorem keyFor_spec {k : LineEditor.Key (BitVec 8)} (hk : k ∈ LineEditor.Key.enter :: (typables set).map .char) :
    ∃ key, keyFor set k = some key ∧ key ∈ set.keys ∧ key.release.isSome = true ∧
      keyOfPacket (Stroke.mk key true).packet = k := by
  have hfound := keyFor_found set k hk
  cases hkey : keyFor set k with
  | none =>
    rw [hkey] at hfound
    cases hfound
  | some key =>
    rw [hkey] at hfound
    have hmeans := List.find?_some hkey
    exact ⟨key, rfl, List.mem_of_find?_eq_some hkey, hfound, of_decide_eq_true hmeans⟩

/-- There are strokes for all keys, and the editor gets the keys. -/
theorem taps_spec (keys : List (LineEditor.Key (BitVec 8)))
    (h : ∀ k, k ∈ keys → k ∈ LineEditor.Key.enter :: (typables set).map .char) :
    ∃ strokes, taps set keys = some strokes ∧ (∀ k, k ∈ strokes → k.Of set) ∧
      (strokes.map Stroke.packet).map keyOfPacket = keys.flatMap fun k => [k, .other] := by
  induction keys with
  | nil => exact ⟨[], rfl, fun k hk => (by cases hk), rfl⟩
  | cons k keys ih =>
    obtain ⟨key, hkey, hmem, hrelease, hmeans⟩ := @keyFor_spec set k (h k (.head _))
    obtain ⟨strokes, hstrokes, hof, hkeys⟩ := ih fun k hk => h k (.tail _ hk)
    rw [taps, Option.map_eq_some_iff] at hstrokes
    obtain ⟨found, hfound, rfl⟩ := hstrokes
    refine ⟨⟨key, true⟩ :: ⟨key, false⟩ :: found.flatMap fun key => [⟨key, true⟩, ⟨key, false⟩], ?_, fun k hk => ?_, ?_⟩
    · rw [taps, List.mapM_cons, hkey, hfound]
      rfl
    · rcases List.mem_cons.mp hk with rfl | hk
      · exact ⟨hmem, .inl rfl⟩
      · rcases List.mem_cons.mp hk with rfl | hk
        · exact ⟨hmem, .inr hrelease⟩
        · exact hof k hk
    · have hreleased : keyOfPacket (Stroke.mk key false).packet = .other := keyOfPacket_released rfl
      rw [List.map_cons, List.map_cons, List.map_cons, List.map_cons, hkeys, hmeans, hreleased]
      rfl

end

/-- `ls` is typed while the shell reads. -/
def actsOfLs : List Act :=
  [.byte 0x26, .read, .byte 0xA6, .proceed, .proceed, .proceed, .byte 0x1F, .byte 0x9F, .read, .proceed, .proceed,
    .proceed, .byte 0x1C, .byte 0x9C, .read, .proceed, .proceed, .proceed, .read, .proceed, .proceed, .proceed, .read,
    .proceed, .proceed, .proceed, .read, .proceed, .proceed, .proceed]


theorem ls_typed :
    (run (step ScanCodeSet.set1.handler) (start (fun _ => ⟨0, 0, 0⟩) BUFFER_SIZE) actsOfLs).isSome = true := by
  decide +kernel

end BadLands.Shell.Typing
