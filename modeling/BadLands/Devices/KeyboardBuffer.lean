import BadLands.Core.Machine
import BadLands.Core.Ring
import BadLands.Fs.Status

/-!
# The keyboard buffer

`GenericKeyboardBuffer` is a ring of packets with one position, `location`, and the number of
packets in it. `Read` and `Write` have different locks, so that a `Write` made by an interrupt
runs in the middle of a `Read`: it is one step here, and a `Read` is one step for each load of
the counter, copy of a packet, update of `location` and update of the counter.

`Write` counts its place from `location`. In the middle of a `Read` that has moved `location` on
and not yet reduced the counter, that place is too far by the packets that were read.

`buffer_fifo`: without such a `Write` the buffer is a FIFO. `buffer_gap`: with one, a packet is
delivered that was never written.
-/
namespace BadLands.Devices.KeyboardBuffer

open BadLands.Core BadLands.Core.Machine
open BadLands.Fs (Response Status)

/-- mirrors kernel/src/devices/KeyboardDispatcher/Multiplexer.cpp:45-46 -/
structure Sizes where
  bufferSize : Nat
  packetSize : Nat
  aligned : bufferSize % packetSize = 0

def Sizes.capacity (z : Sizes) : Nat := z.bufferSize / z.packetSize

/-- mirrors kernel/src/devices/KeyboardDispatcher/Multiplexer.cpp:48-53 -/
structure Buffer (P : Type) where
  buffer : Nat → P
  location : Nat
  availablePacketsCount : Nat

/-- A `Read` in progress. `copying`: before the test of the loop; `advancing`: packet `i` is copied
and `location` not yet updated. -/
inductive Reader (P : Type) where
  | idle
  | copying (readPackets i : Nat) (out : List P)
  | advancing (readPackets i : Nat) (out : List P)

section
variable {P : Type} (z : Sizes)

/-- The part of `Read` before the loop, with `count` in bytes: what it returns at once, or how many
packets it reads.
mirrors kernel/src/devices/KeyboardDispatcher/Multiplexer.cpp:63-74 -/
def readStart (b : Buffer P) (count : Nat) : Except (Response Nat) Nat :=
  let availablePackets := b.availablePacketsCount
  if availablePackets = 0 then .error (.ok 0)
  else if count % z.packetSize ≠ 0 then .error (.error .invalidParameter)
  else
    let packets := count / z.packetSize
    .ok (if packets > availablePackets then availablePackets else packets)

/-- `for (size_t i = 0; i < written_packets; ++i, buffer += PACKET_SIZE)`: the packets from `i` on.
mirrors kernel/src/devices/KeyboardDispatcher/Multiplexer.cpp:103-105 -/
def writeLoop (location availablePackets : Nat) : List P → Nat → (Nat → P) → Nat → P
  | [], _, buffer => buffer
  | p :: packets, i, buffer =>
    writeLoop location availablePackets packets (i + 1)
      (Function.update buffer ((location + availablePackets + i) % z.capacity) p)

/-- `data`: the packets that the caller gives. Also those that are taken.
mirrors kernel/src/devices/KeyboardDispatcher/Multiplexer.cpp:85-108 -/
def write (b : Buffer P) (count : Nat) (data : Nat → P) : Response Nat × List P × Buffer P :=
  if count % z.packetSize ≠ 0 then (.error .invalidParameter, [], b)
  else
    let availablePackets := b.availablePacketsCount
    let remainingSpace := z.capacity - availablePackets
    if remainingSpace = 0 then (.ok 0, [], b)
    else
      let packets := count / z.packetSize
      let writtenPackets := if packets > remainingSpace then remainingSpace else packets
      let written := (List.range writtenPackets).map data
      (.ok (writtenPackets * z.packetSize), written,
        { b with availablePacketsCount := b.availablePacketsCount + writtenPackets,
                 buffer := writeLoop z b.location availablePackets written 0 b.buffer })

end

/-- `accepted`: the packets that `Write`s have taken; `delivered`: those that `Read`s have
returned. -/
structure System (P : Type) where
  buffer : Buffer P
  reader : Reader P
  accepted : List P
  delivered : List P

/-- A call of `Read`, one step of the `Read` in progress, or a whole `Write`. -/
inductive Act (P : Type) where
  | read (count : Nat)
  | proceed
  | write (count : Nat) (data : Nat → P)

section
variable {P : Type} (z : Sizes)

/-- mirrors kernel/src/devices/KeyboardDispatcher/Multiplexer.cpp:76-82 -/
def proceed (s : System P) : Option (System P) :=
  match s.reader with
  | .idle => none
  | .copying readPackets i out =>
    if i < readPackets then
      some { s with reader := .advancing readPackets i (out ++ [s.buffer.buffer s.buffer.location]) }
    else
      some { s with
        buffer := { s.buffer with availablePacketsCount := s.buffer.availablePacketsCount - readPackets }
        reader := .idle
        delivered := s.delivered ++ out }
  | .advancing readPackets i out =>
    some { s with
      buffer := { s.buffer with location := (s.buffer.location + 1) % z.capacity }
      reader := .copying readPackets (i + 1) out }

/-- The lock of the readers: one `Read` at a time. -/
def step (s : System P) : Act P → Option (System P)
  | .read count =>
    match s.reader with
    | .idle =>
      match readStart z s.buffer count with
      | .error _ => some s
      | .ok readPackets => some { s with reader := .copying readPackets 0 [] }
    | _ => none
  | .proceed => proceed z s
  | .write count data =>
    let (_, written, buffer) := write z s.buffer count data
    some { s with buffer := buffer, accepted := s.accepted ++ written }

def start (memory : Nat → P) : System P := ⟨⟨memory, 0, 0⟩, .idle, [], []⟩

/-- The updates of `location` that the `Read` in progress has made. -/
def Reader.progress : Reader P → Nat
  | .idle => 0
  | .copying _ i _ => i
  | .advancing _ i _ => i

/-- What is returned is what was written, in order, and the counter is right between `Read`s. -/
structure Fifo (s : System P) : Prop where
  order : s.delivered <+: s.accepted
  count : s.reader = .idle → s.buffer.availablePacketsCount + s.delivered.length = s.accepted.length

/-- A `Write` in the middle of a `Read` that has moved `location` takes no packet. -/
def StepOk (s : System P) : Act P → Prop
  | .write count _ => s.reader.progress = 0 ∨ count % z.packetSize ≠ 0 ∨ count / z.packetSize = 0 ∨
      s.buffer.availablePacketsCount = z.capacity
  | _ => True

instance decidableStepOk (s : System P) : (a : Act P) → Decidable (StepOk z s a)
  | .write count _ => inferInstanceAs (Decidable (s.reader.progress = 0 ∨ count % z.packetSize ≠ 0 ∨
      count / z.packetSize = 0 ∨ s.buffer.availablePacketsCount = z.capacity))
  | .read _ => isTrue trivial
  | .proceed => isTrue trivial

/-- What the `Read` in progress has copied. -/
def Reader.Has (unread : List P) : Reader P → Prop
  | .idle => True
  | .copying n i out => i ≤ n ∧ n ≤ unread.length ∧ out = unread.take i
  | .advancing n i out => i < n ∧ n ≤ unread.length ∧ out = unread.take (i + 1)

/-- `unread`: the packets from the counter's point of view, those of the `Read` in progress
included. They are in the ring from `location` on, less those that the `Read` has passed. -/
structure Inv (s : System P) (unread : List P) : Prop where
  split : s.accepted = s.delivered ++ unread
  count : s.buffer.availablePacketsCount = unread.length
  fits : unread.length ≤ z.capacity
  inside : 0 < z.capacity → s.buffer.location < z.capacity
  window : ∀ j, s.reader.progress + j < unread.length →
    unread[s.reader.progress + j]? = some (s.buffer.buffer ((s.buffer.location + j) % z.capacity))
  reading : s.reader.Has unread

variable {z} {s s' : System P} {unread : List P}

theorem inv_start (memory : Nat → P) : Inv z (start memory) [] where
  split := rfl
  count := rfl
  fits := Nat.zero_le _
  inside h := h
  window _ hj := absurd hj (Nat.not_lt_zero _)
  reading := trivial

theorem Inv.fifo (h : Inv z s unread) : Fifo s where
  order := ⟨unread, h.split.symm⟩
  count _ := by
    rw [h.count, h.split, List.length_append, Nat.add_comm]

theorem Inv.read {count : Nat} (h : Inv z s unread) (hs : step z s (.read count) = some s') : Inv z s' unread := by
  have hidle : s.reader = .idle := by
    cases hr : s.reader with
    | idle => rfl
    | copying => simp [step, hr] at hs
    | advancing => simp [step, hr] at hs
  have hwindow := h.window
  rw [hidle] at hwindow
  simp only [step, hidle] at hs
  cases hstart : readStart z s.buffer count with
  | error =>
    rw [hstart] at hs
    cases hs
    exact h
  | ok n =>
    rw [hstart] at hs
    cases hs
    refine ⟨h.split, h.count, h.fits, h.inside, hwindow, Nat.zero_le _, ?_, rfl⟩
    have hcount := h.count
    unfold readStart at hstart
    dsimp only at hstart
    split at hstart
    · cases hstart
    · split at hstart
      · cases hstart
      · cases hstart
        split <;> omega

/-- One step of a `Read`. -/
theorem Inv.proceed (h : Inv z s unread) (hs : step z s .proceed = some s') : ∃ unread', Inv z s' unread' := by
  simp only [step, KeyboardBuffer.proceed] at hs
  cases hr : s.reader with
  | idle =>
    rw [hr] at hs
    cases hs
  | copying n i out =>
    have hreading := h.reading
    have hwindow := h.window
    rw [hr] at hs hreading hwindow
    obtain ⟨hin, hn, hout⟩ := hreading
    dsimp only at hs
    split at hs
    · -- a packet
      rename_i hlt
      cases hs
      have hfits := h.fits
      have hinside := h.inside (by omega)
      have hpacket := hwindow 0 (by simp only [Reader.progress]; omega)
      simp only [Reader.progress, Nat.add_zero, Nat.mod_eq_of_lt hinside] at hpacket
      refine ⟨unread, h.split, h.count, h.fits, h.inside, hwindow, hlt, hn, ?_⟩
      rw [hout, List.take_add_one, hpacket]
      rfl
    · -- the counter
      rename_i hge
      cases hs
      obtain rfl : i = n := by omega
      refine ⟨unread.drop i, ?_, ?_, ?_, h.inside, fun j hj => ?_, trivial⟩
      · rw [hout, List.append_assoc, List.take_append_drop]
        exact h.split
      · simp only [h.count, List.length_drop]
      · have hfits := h.fits
        rw [List.length_drop]
        omega
      · simp only [Reader.progress, Nat.zero_add, List.length_drop] at hj ⊢
        rw [List.getElem?_drop]
        exact hwindow j (by simp only [Reader.progress]; omega)
  | advancing n i out =>
    have hreading := h.reading
    have hwindow := h.window
    rw [hr] at hs hreading hwindow
    obtain ⟨hin, hn, hout⟩ := hreading
    cases hs
    refine ⟨unread, h.split, h.count, h.fits, fun hpos => Nat.mod_lt _ hpos, fun j hj => ?_, hin, hn, hout⟩
    simp only [Reader.progress] at hj hwindow ⊢
    have hnext := hwindow (j + 1) (by omega)
    rw [Nat.mod_add_mod]
    have hindex : i + 1 + j = i + (j + 1) := by omega
    have hplace : s.buffer.location + 1 + j = s.buffer.location + (j + 1) := by omega
    rw [hindex, hplace]
    exact hnext

/-- The slots that a `Write` does not touch. -/
theorem writeLoop_other {location available q : Nat} (packets : List P) : ∀ (i : Nat) (buffer : Nat → P),
    (∀ k < packets.length, q ≠ (location + available + (i + k)) % z.capacity) →
      writeLoop z location available packets i buffer q = buffer q := by
  induction packets with
  | nil => exact fun _ _ _ => rfl
  | cons p packets ih =>
    intro i buffer hq
    rw [writeLoop, ih (i + 1)]
    · exact Function.update_of_ne (hq 0 (by simp)) _ _
    · intro k hk
      have hne := hq (k + 1) (by simpa using hk)
      rwa [Nat.add_assoc i, Nat.add_comm 1]

/-- The packets are written one behind the other. -/
theorem writeLoop_at {location : Nat} (hl : location < z.capacity) (available : Nat) (packets : List P) :
    ∀ (i : Nat) (buffer : Nat → P), available + (i + packets.length) ≤ z.capacity →
      ∀ k, k < packets.length → packets[k]? =
        some (writeLoop z location available packets i buffer ((location + available + (i + k)) % z.capacity)) := by
  induction packets with
  | nil => exact fun _ _ _ k hk => absurd hk (Nat.not_lt_zero k)
  | cons p packets ih =>
    intro i buffer hfits k hk
    rw [List.length_cons] at hfits hk
    rw [writeLoop]
    cases k with
    | zero =>
      -- the later packets go to other slots
      rw [writeLoop_other packets (i + 1), Nat.add_zero, Function.update_self]
      · rfl
      · intro j hj
        have hne := Ring.slot_ne (i := available + i) (j := available + (i + 1 + j)) hl (by omega) (by omega) (by omega)
        rwa [← Nat.add_assoc, ← Nat.add_assoc location] at hne
    | succ k =>
      have hrest := ih (i + 1) (Function.update buffer ((location + available + i) % z.capacity) p) (by omega) k (by omega)
      rw [Nat.add_assoc i, Nat.add_comm 1] at hrest
      exact hrest

/-- What a `Write` takes goes behind the unread packets. -/
theorem Inv.write {count : Nat} {data : Nat → P} (h : Inv z s unread) (hg : StepOk z s (.write count data))
    (hs : step z s (.write count data) = some s') : ∃ unread', Inv z s' unread' := by
  simp only [step, KeyboardBuffer.write] at hs
  by_cases hparameter : count % z.packetSize ≠ 0
  · rw [if_pos hparameter] at hs
    cases hs
    exact ⟨unread, by rw [List.append_nil]; exact h.split, h.count, h.fits, h.inside, h.window, h.reading⟩
  rw [if_neg hparameter] at hs
  by_cases hfull : z.capacity - s.buffer.availablePacketsCount = 0
  · rw [if_pos hfull] at hs
    cases hs
    exact ⟨unread, by rw [List.append_nil]; exact h.split, h.count, h.fits, h.inside, h.window, h.reading⟩
  rw [if_neg hfull] at hs
  cases hs
  generalize hwritten : (List.range (if count / z.packetSize > z.capacity - s.buffer.availablePacketsCount then
    z.capacity - s.buffer.availablePacketsCount else count / z.packetSize)).map data = written
  have hlength : written.length = if count / z.packetSize > z.capacity - s.buffer.availablePacketsCount then
      z.capacity - s.buffer.availablePacketsCount else count / z.packetSize := by
    rw [← hwritten, List.length_map, List.length_range]
  have hcount := h.count
  have hroom : unread.length + written.length ≤ z.capacity := by
    rw [hlength]
    split <;> omega
  have hinside := h.inside (by omega)
  have hprogress : s.reader.progress = 0 ∨ written = [] := by
    rcases hg with hg | hg | hg | hg
    · exact .inl hg
    · exact absurd hg hparameter
    · right
      rw [← List.length_eq_zero_iff, hlength, hg]
      split <;> omega
    · omega
  refine ⟨unread ++ written, ?_, ?_, ?_, h.inside, fun j hj => ?_, ?_⟩
  · rw [h.split, List.append_assoc]
  · rw [← hlength, hcount, List.length_append]
  · rw [List.length_append]
    exact hroom
  · dsimp only at hj ⊢
    by_cases hold : s.reader.progress + j < unread.length
    · -- an unread packet keeps its slot
      rw [List.getElem?_append_left hold, h.window j hold, hcount, writeLoop_other]
      intro k hk
      have hne := Ring.slot_ne (i := j) (j := unread.length + (0 + k)) hinside (by omega) (by omega) (by omega)
      rwa [← Nat.add_assoc s.buffer.location] at hne
    · obtain hzero | hnil := hprogress
      · rw [List.length_append] at hj
        rw [hzero] at hold hj ⊢
        obtain ⟨k, hk⟩ : ∃ k, j = unread.length + k := ⟨j - unread.length, by omega⟩
        subst hk
        have hnew := writeLoop_at hinside unread.length written 0 s.buffer.buffer (by omega) k (by omega)
        rw [Nat.zero_add, List.getElem?_append_right (Nat.le_add_right _ _), Nat.add_sub_cancel_left, hnew, hcount,
          Nat.zero_add, Nat.add_assoc]
      · rw [hnil, List.append_nil] at hj
        exact absurd hj hold
  · have hreading := h.reading
    cases hr : s.reader with
    | idle => trivial
    | copying n i out =>
      rw [hr] at hreading
      obtain ⟨hin, hn, hout⟩ := hreading
      refine ⟨hin, by rw [List.length_append]; omega, ?_⟩
      rw [List.take_append_of_le_length (by omega)]
      exact hout
    | advancing n i out =>
      rw [hr] at hreading
      obtain ⟨hin, hn, hout⟩ := hreading
      refine ⟨hin, by rw [List.length_append]; omega, ?_⟩
      rw [List.take_append_of_le_length (by omega)]
      exact hout

theorem Inv.step {a : Act P} (h : Inv z s unread) (hg : StepOk z s a) (hs : KeyboardBuffer.step z s a = some s') :
    ∃ unread', Inv z s' unread' := by
  cases a with
  | read count => exact ⟨unread, h.read hs⟩
  | proceed => exact h.proceed hs
  | write count data => exact h.write hg hs

end

/-- In every run of `Read`s, step by step, and `Write`s, in which no `Write` takes packets between
the first update of `location` of a `Read` and its update of the counter: the packets returned are
the packets accepted, in order, and the counter is right between `Read`s. -/
theorem buffer_fifo {P : Type} (z : Sizes) (memory : Nat → P) (acts : List (Act P))
    (h : AllSteps (step z) (StepOk z) (start memory) acts) : AllStates (step z) Fifo (start memory) acts := by
  have hinv : AllStates (step z) (fun s => ∃ unread, Inv z s unread) (start memory) acts :=
    allStates_of_allSteps (fun _ _ _ ⟨_, hi⟩ hg hs => hi.step hg hs) acts _ ⟨[], inv_start memory⟩ h
  exact AllStates.mono (fun _ ⟨_, hi⟩ => hi.fifo) acts _ hinv

/-- The buffer of the multiplexer. -/
def multiplexer : Sizes := ⟨0x800 * 4, 4, by decide⟩

theorem buffer_fifo_one_read : AllStates (step multiplexer) Fifo (start fun _ => 0)
    [.write 8 (· + 1), .read 4, .proceed, .proceed, .proceed, .write 4 (· + 3)] :=
  buffer_fifo multiplexer (fun _ => 0) _ (by decide)

/-- Two packets are written. While the first one is read, between the updates of `location` and of
the counter, a third one is written. -/
def interruptedRead : List (Act Nat) :=
  [.write 8 (· + 1), .read 4, .proceed, .proceed, .write 4 (· + 3), .proceed,
    .read 8, .proceed, .proceed, .proceed, .proceed, .proceed]

/-- The third packet goes to slot 3, and slot 2 is read in its place. -/
theorem buffer_gap : ¬ AllStates (step multiplexer) Fifo (start fun _ => 0) interruptedRead := by
  intro hall
  have hrun : (run (step multiplexer) (start fun _ => 0) interruptedRead).map (fun s => (s.delivered, s.accepted)) =
      some ([1, 2, 0], [1, 2, 3]) := by decide +kernel
  obtain ⟨s, hs, hlists⟩ := Option.map_eq_some_iff.mp hrun
  have horder := (AllStates.of_run _ _ s hall hs).order
  obtain ⟨hdelivered, haccepted⟩ := Prod.mk.inj hlists
  rw [hdelivered, haccepted] at horder
  exact absurd horder (by decide)

end BadLands.Devices.KeyboardBuffer
