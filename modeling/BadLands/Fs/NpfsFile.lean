import BadLands.Core.Machine
import BadLands.Fs.NpfsData

/-!
# NPFS files as byte arrays

`NPFS::File::Read` and `Write` over the blocks of a `DataNode`, next to what a file is for:
a sparse byte array (`Bytes`).

A call whose range begins and ends in one block does what it should. A call that crosses a
block boundary never does: the fragment in the last block is addressed with the offset in
the file (`blk[end - i]`, always past the block), whole blocks are compared instead of
copied, and the number returned is the distance left to the end of the buffer. A hole read
leaves the destination as it is.

* `file_refines_iff`: a run behaves as the byte array iff each of its calls stays in one
  block the tree can reach and no read meets a hole with a destination that is not zero.
* `write_whole_block`: writing one block to an empty file returns `0`.
-/
namespace BadLands.Fs.Npfs

open BadLands.Core BadLands.Core.Machine

/-- mirrors kernel/src/fs/NPFS.cpp:239-242 -/
structure File where
  data : DataNode
  size : Nat

/-- What a call answers; `outOfBlock` is an access past the end of a block. -/
inductive Answer where
  | response (r : Response Nat)
  | outOfBlock

/-- mirrors kernel/src/fs/NPFS.cpp:244-250 -/
def getEffectiveEnd (offset count size : Nat) : Nat :=
  if Word.add offset count > size ∨ Word.add offset count < offset then size
  else Word.add offset count

/-- `memcpy(dst + start, src, n)`. -/
def copy (dst : Nat → UInt8) (start n : Nat) (src : Nat → UInt8) : Nat → UInt8 :=
  fun i => if start ≤ i ∧ i < start + n then src (i - start) else dst i

/-- `if (blk != nullptr) memcpy(dst + start, blk + source, n)`. -/
def copyWeak (dst : Nat → UInt8) (start n : Nat) (blk : Option Block) (source : Nat) : Nat → UInt8 :=
  match blk with
  | some blk => copy dst start n fun i => blk (source + i)
  | none => dst

/-- The indices `end - i`, `1 ≤ i ≤ remaining`, of the tail loops are indices of a block. -/
def tailInBlock (finish remaining : Nat) : Bool :=
  (List.range remaining).all fun i => finish - (i + 1) < blockSize

/-- The loop over the whole blocks of a write: each is looked up and compared.
mirrors kernel/src/fs/NPFS.cpp:736-746 -/
def touchBlocks (data : DataNode) (first : Nat) : Nat → Bool × DataNode
  | 0 => (true, data)
  | n + 1 =>
    let r := data.getBlock first id
    if r.1 then touchBlocks r.2 (first + 1) n else r

/-- The loop over the whole blocks of a read, with `dest` filled from `start`.
mirrors kernel/src/fs/NPFS.cpp:646-656 -/
def readBlocks (data : DataNode) (first : Nat) (dest : Nat → UInt8) (start : Nat) :
    Nat → (Nat → UInt8)
  | 0 => dest
  | n + 1 =>
    readBlocks data (first + 1) (copyWeak dest start blockSize (data.getWeakBlock first) 0)
      (start + blockSize) n

/-- The part of `Write` after the fragment in the first block: the buffer has advanced by
`done` bytes and `count` are left.
mirrors kernel/src/fs/NPFS.cpp:713-749 -/
def writeRest (f : File) (offset count finish done : Nat) (buffer : Nat → UInt8) :
    Answer × File :=
  let remaining := finish % blockSize
  let total := done + count
  let tail := if remaining ≠ 0
    then f.data.getBlock (finish / blockSize) fun blk =>
      copy blk (finish - remaining) remaining fun i => buffer (total - remaining + i)
    else (true, f.data)
  let f := { f with data := tail.2 }
  if !tail.1 then (.response (.error .deviceError), f)
  else if !tailInBlock finish remaining then (.outOfBlock, f)
  else
    let count := count - remaining
    if offset % blockSize ≠ 0 ∨ count % blockSize ≠ 0 then (.response (.error .deviceError), f)
    else
      let r := touchBlocks f.data (offset / blockSize) (count / blockSize)
      let f := { f with data := r.2 }
      if !r.1 then (.response (.error .deviceError), f)
      else (.response (.ok (total - (done + count / blockSize * blockSize))), f)

/-- mirrors kernel/src/fs/NPFS.cpp:661-750 -/
def write (f : File) (offset count : Nat) (buffer : Nat → UInt8) : Answer × File :=
  let count := if Word.add offset count < offset then Word.sub (2 ^ 64 - 1) offset else count
  let blockOffset := offset % blockSize
  let finish := Word.add offset count
  let firstBlock := offset / blockSize
  let f := { f with size := if finish > f.size then finish else f.size }
  if firstBlock = finish / blockSize then
    let r := f.data.getBlock firstBlock fun blk => copy blk blockOffset count buffer
    let f := { f with data := r.2 }
    if r.1 then (.response (.ok count), f) else (.response (.error .deviceError), f)
  else if blockOffset ≠ 0 then
    let untilNextBlock := blockSize - blockOffset
    let r := f.data.getBlock firstBlock fun blk => copy blk blockOffset untilNextBlock buffer
    let f := { f with data := r.2 }
    if r.1 then
      writeRest f (offset + untilNextBlock) (count - untilNextBlock) finish untilNextBlock buffer
    else (.response (.error .deviceError), f)
  else writeRest f offset count finish 0 buffer

/-- The part of `Read` after the fragment in the first block.
mirrors kernel/src/fs/NPFS.cpp:625-658 -/
def readRest (f : File) (offset count finish done : Nat) (dest : Nat → UInt8) :
    Answer × (Nat → UInt8) :=
  let remaining := finish % blockSize
  let total := done + count
  match if remaining ≠ 0 then f.data.getWeakBlock (finish / blockSize) else none with
  | some blk =>
    if !tailInBlock finish remaining then (.outOfBlock, dest)
    else finishRead (copy dest (total - remaining) remaining fun i => blk (finish - remaining + i))
  | none => finishRead dest
where
  finishRead (dest : Nat → UInt8) : Answer × (Nat → UInt8) :=
    let count := count - finish % blockSize
    if offset % blockSize ≠ 0 ∨ count % blockSize ≠ 0 then (.response (.error .deviceError), dest)
    else
      (.response (.ok (done + (count + finish % blockSize) - (done + count / blockSize * blockSize))),
        readBlocks f.data (offset / blockSize) dest done (count / blockSize))

/-- mirrors kernel/src/fs/NPFS.cpp:581-659 -/
def read (f : File) (offset count : Nat) (dest : Nat → UInt8) : Answer × (Nat → UInt8) :=
  if offset ≥ f.size then (.response (.ok 0), dest)
  else
    let blockOffset := offset % blockSize
    let finish := getEffectiveEnd offset count f.size
    let firstBlock := offset / blockSize
    let effectiveCount := finish - offset
    if firstBlock = finish / blockSize then
      (.response (.ok effectiveCount),
        copyWeak dest 0 effectiveCount (f.data.getWeakBlock firstBlock) blockOffset)
    else if blockOffset ≠ 0 then
      let untilNextBlock := blockSize - blockOffset
      let dest := copyWeak dest 0 untilNextBlock (f.data.getWeakBlock firstBlock) blockOffset
      readRest f (offset + untilNextBlock) (effectiveCount - untilNextBlock) finish untilNextBlock dest
    else readRest f offset effectiveCount finish 0 dest

/-! ## The byte array -/

structure Bytes where
  size : Nat
  byte : Nat → UInt8

def Bytes.write (b : Bytes) (offset count : Nat) (buffer : Nat → UInt8) : Bytes :=
  ⟨max b.size (offset + count), copy b.byte offset count buffer⟩

/-- How many bytes a read returns. -/
def Bytes.readable (b : Bytes) (offset count : Nat) : Nat := min count (b.size - offset)

def Bytes.read (b : Bytes) (offset count : Nat) (dest : Nat → UInt8) : Nat → UInt8 :=
  copy dest 0 (b.readable offset count) fun i => b.byte (offset + i)

/-! ## Runs -/

/-- A file, the byte array it should be, and whether every call so far answered as the
byte array does. -/
structure Sys where
  file : File
  bytes : Bytes
  answered : Prop

inductive Op where
  | write (offset count : Nat) (buffer : Nat → UInt8)
  | read (offset count : Nat) (dest : Nat → UInt8)

def Op.range : Op → Nat × Nat
  | .write offset count _ => (offset, count)
  | .read offset count _ => (offset, count)

/-- `none`: `offset + count` overflows. -/
def step (s : Sys) (op : Op) : Option Sys :=
  if 2 ^ 64 ≤ op.range.1 + op.range.2 then none
  else match op with
    | .write offset count buffer =>
      let r := write s.file offset count buffer
      some ⟨r.2, s.bytes.write offset count buffer, s.answered ∧ r.1 = .response (.ok count)⟩
    | .read offset count dest =>
      let r := read s.file offset count dest
      some ⟨s.file, s.bytes, s.answered ∧
        r.1 = .response (.ok (s.bytes.readable offset count)) ∧ r.2 = s.bytes.read offset count dest⟩

/-- mirrors kernel/src/fs/NPFS.cpp:756-777 -/
def File.construct : File := ⟨DataNode.construct, 0⟩

def create : Sys := ⟨File.construct, ⟨0, fun _ => 0⟩, True⟩

def File.byte (f : File) (i : Nat) : UInt8 := (f.data.getWeakBlock (i / blockSize)).getD zeros (i % blockSize)

/-- Every call answered as the byte array, and the file holds its bytes. -/
structure Refines (s : Sys) : Prop where
  answered : s.answered
  size : s.file.size = s.bytes.size
  byte : ∀ i, s.file.byte i = s.bytes.byte i

/-- A range that begins and ends in one block. -/
def InOneBlock (offset finish : Nat) : Prop := offset / blockSize = finish / blockSize

/-- Writes stay in one block that five attempts reach; reads stay in one block, which exists
unless the destination is zero already. -/
def StepOk (s : Sys) : Op → Prop
  | .write offset count _ =>
    InOneBlock offset (offset + count) ∧ offset / blockSize < 64 ^ (s.file.data.depth + 4)
  | .read offset count dest =>
    s.file.size ≤ offset ∨
      InOneBlock offset (min (offset + count) s.file.size) ∧
      (s.file.data.getWeakBlock (offset / blockSize) = none →
        ∀ i < min count (s.file.size - offset), dest i = 0)

structure Inv (s : Sys) : Prop where
  refines : Refines s
  level : s.file.data.level ≤ 8
  size_lt : s.file.size < 2 ^ 64

/-! ## One call in one block -/

variable {s : Sys} {offset count : Nat} {buffer dest : Nat → UInt8}

theorem write_eq_one (buffer : Nat → UInt8) (f : File) (hlt : offset + count < 2 ^ 64)
    (h1 : InOneBlock offset (offset + count)) :
    write f offset count buffer =
      let r := f.data.getBlock (offset / blockSize) fun blk => copy blk (offset % blockSize) count buffer
      (if r.1 then .response (.ok count) else .response (.error .deviceError),
        ⟨r.2, max f.size (offset + count)⟩) := by
  have hmax : (if offset + count > f.size then offset + count else f.size) =
      max f.size (offset + count) := by
    split <;> omega
  unfold InOneBlock at h1
  have hwrap : ¬ offset + count < offset := by omega
  simp only [write, Word.add_eq hlt, if_neg hwrap, ← h1, if_true, hmax]
  split <;> rfl

theorem copy_block (b : Nat → UInt8) (blk : Block) (hlt : InOneBlock offset (offset + count)) {i : Nat}
    (hi : i / blockSize = offset / blockSize) (hb : blk (i % blockSize) = b i) :
    copy blk (offset % blockSize) count buffer (i % blockSize) = copy b offset count buffer i := by
  unfold InOneBlock at hlt
  unfold copy
  unfold blockSize at *
  by_cases hin : offset ≤ i ∧ i < offset + count
  · rw [if_pos hin, if_pos (by omega)]
    congr 1
    omega
  · rw [if_neg hin, if_neg (by omega), hb]

/-- A write in one reachable block stores its bytes and answers `count`. -/
theorem write_inv (h : Inv s) (hlt : offset + count < 2 ^ 64) (hok : StepOk s (.write offset count buffer)) :
    Inv ⟨(write s.file offset count buffer).2, s.bytes.write offset count buffer,
      s.answered ∧ (write s.file offset count buffer).1 = .response (.ok count)⟩ := by
  obtain ⟨h1, hcap⟩ := hok
  have hid : offset / blockSize < 2 ^ 52 := by
    unfold blockSize
    omega
  obtain ⟨n', hn', hused⟩ := DataNode.getBlock_ok
    (fun blk => copy blk (offset % blockSize) count buffer) h.level hid hcap
  have hw := write_eq_one buffer s.file hlt h1
  simp only [hn', if_true] at hw
  rw [hw]
  refine ⟨⟨⟨h.refines.answered, rfl⟩, ?_, fun i => ?_⟩, hused.level, ?_⟩
  · change max _ _ = max _ _
    rw [h.refines.size]
  · change (n'.getWeakBlock (i / blockSize)).getD zeros (i % blockSize) = copy _ _ _ _ i
    have hbyte := h.refines.byte i
    rw [hused.blocks]
    by_cases hi : i / blockSize = offset / blockSize
    · rw [if_pos hi, Option.getD_some]
      exact copy_block _ _ h1 hi (hi ▸ hbyte)
    · rw [if_neg hi]
      refine hbyte.trans (if_neg ?_).symm
      unfold InOneBlock at h1
      unfold blockSize at *
      omega
  · change max _ _ < _
    have := h.size_lt
    omega

/-- Reads past the end answer `0`. -/
theorem read_past_end (h : Refines s) (hpast : s.file.size ≤ offset) :
    read s.file offset count dest =
      (.response (.ok (s.bytes.readable offset count)), s.bytes.read offset count dest) := by
  have hzero : s.bytes.readable offset count = 0 := by
    have := h.size
    unfold Bytes.readable
    omega
  rw [read, if_pos hpast, Bytes.read, hzero]
  exact congrArg _ (funext fun i => (if_neg (by omega)).symm)

theorem getEffectiveEnd_eq (size : Nat) (hlt : offset + count < 2 ^ 64) :
    getEffectiveEnd offset count size = min (offset + count) size := by
  rw [getEffectiveEnd, Word.add_eq hlt]
  split <;> omega

theorem read_eq_one (f : File) (hlt : offset + count < 2 ^ 64) (hoff : offset < f.size)
    (h1 : InOneBlock offset (min (offset + count) f.size)) :
    read f offset count dest = (.response (.ok (min count (f.size - offset))),
      copyWeak dest 0 (min count (f.size - offset)) (f.data.getWeakBlock (offset / blockSize))
        (offset % blockSize)) := by
  have hcount : min (offset + count) f.size - offset = min count (f.size - offset) := by omega
  unfold InOneBlock at h1
  rw [read, if_neg (by omega), getEffectiveEnd_eq _ hlt]
  simp only [← h1, if_true, hcount]

/-- What a read in one block leaves in the destination is right iff the block exists or the
destination was zero. -/
theorem read_one_iff (h : Refines s)
    (h1 : InOneBlock offset (min (offset + count) s.file.size)) :
    copyWeak dest 0 (min count (s.file.size - offset)) (s.file.data.getWeakBlock (offset / blockSize))
      (offset % blockSize) = s.bytes.read offset count dest ↔
    (s.file.data.getWeakBlock (offset / blockSize) = none →
        ∀ i < min count (s.file.size - offset), dest i = 0) := by
  have hblock : ∀ i < min count (s.file.size - offset),
      (s.file.data.getWeakBlock (offset / blockSize)).getD zeros (offset % blockSize + i) =
        s.bytes.byte (offset + i) := by
    intro i hi
    unfold InOneBlock at h1
    have hq : (offset + i) / blockSize = offset / blockSize := by
      unfold blockSize at *
      omega
    have hm : (offset + i) % blockSize = offset % blockSize + i := by
      unfold blockSize at *
      omega
    rw [← h.byte, File.byte, hq, hm]
  rw [Bytes.read, Bytes.readable, ← h.size]
  cases hblk : s.file.data.getWeakBlock (offset / blockSize) with
  | some blk =>
    rw [hblk] at hblock
    simp only [reduceCtorEq, false_imp_iff, iff_true, copyWeak]
    funext i
    unfold copy
    by_cases hi : 0 ≤ i ∧ i < 0 + min count (s.file.size - offset)
    · rw [if_pos hi, if_pos hi]
      exact hblock _ (by omega)
    · rw [if_neg hi, if_neg hi]
  | none =>
    rw [hblk] at hblock
    simp only [copyWeak, true_imp_iff]
    constructor
    · intro hdest i hi
      rw [hdest, copy, if_pos (by omega)]
      exact (hblock _ (by omega)).symm
    · intro hz
      funext i
      unfold copy
      by_cases hi : 0 ≤ i ∧ i < 0 + min count (s.file.size - offset)
      · rw [if_pos hi, hz i (by omega)]
        exact hblock _ (by omega)
      · rw [if_neg hi]

/-! ## Calls that cross a block boundary -/

theorem writeRest_ok {f : File} {finish done n : Nat}
    (h : (writeRest f offset count finish done buffer).1 = .response (.ok n)) :
    n = done + count - (done + (count - finish % blockSize) / blockSize * blockSize) := by
  revert h
  unfold writeRest
  extract_lets
  split <;> (try split) <;> (try split) <;> (try split)
  all_goals intro h
  all_goals simp only [Answer.response.injEq, reduceCtorEq, Except.ok.injEq] at h
  exact h.symm

theorem readRest_ok {f : File} {finish done n : Nat}
    (h : (readRest f offset count finish done dest).1 = .response (.ok n)) :
    n = done + (count - finish % blockSize + finish % blockSize) -
      (done + (count - finish % blockSize) / blockSize * blockSize) := by
  revert h
  unfold readRest readRest.finishRead
  extract_lets
  split <;> (try split) <;> (try split)
  all_goals intro h
  all_goals simp only [Answer.response.injEq, reduceCtorEq, Except.ok.injEq] at h
  all_goals exact h.symm

/-- A write that does not end in the block it begins in never answers `count`. -/
theorem write_crossing (f : File) (hlt : offset + count < 2 ^ 64)
    (h1 : ¬ InOneBlock offset (offset + count)) :
    (write f offset count buffer).1 ≠ .response (.ok count) := by
  have hwrap : ¬ offset + count < offset := by omega
  intro h
  unfold InOneBlock at h1
  simp only [write, Word.add_eq hlt, if_neg hwrap, if_neg h1] at h
  split at h
  · split at h
    · have := writeRest_ok h
      unfold blockSize at *
      omega
    · cases h
  · have := writeRest_ok h
    unfold blockSize at *
    omega

theorem read_crossing (f : File) (hlt : offset + count < 2 ^ 64) (hoff : offset < f.size)
    (h1 : ¬ InOneBlock offset (min (offset + count) f.size)) :
    (read f offset count dest).1 ≠ .response (.ok (min count (f.size - offset))) := by
  intro h
  unfold InOneBlock at h1
  rw [read, if_neg (by omega), getEffectiveEnd_eq _ hlt] at h
  simp only [if_neg h1] at h
  split at h
  · have := readRest_ok h
    unfold blockSize at *
    omega
  · have := readRest_ok h
    unfold blockSize at *
    omega

/-! ## Runs as byte arrays -/

theorem inv_create : Inv create := by
  refine ⟨⟨trivial, rfl, fun i => ?_⟩, by decide, by decide⟩
  change (DataNode.construct.getWeakBlock (i / blockSize)).getD zeros (i % blockSize) = 0
  rw [DataNode.construct_getWeakBlock]
  rfl

/-- A write answers `count` exactly when it stays in one reachable block. -/
theorem write_answers_iff (h : Inv s) (hlt : offset + count < 2 ^ 64) :
    (write s.file offset count buffer).1 = .response (.ok count) ↔
      StepOk s (.write offset count buffer) := by
  refine ⟨fun hr => ?_, fun hok => (write_inv h hlt hok).refines.answered.2⟩
  by_cases h1 : InOneBlock offset (offset + count)
  · refine ⟨h1, Decidable.byContradiction fun hcap => ?_⟩
    have hid : offset / blockSize < 2 ^ 52 := by
      unfold blockSize
      omega
    have hfail := DataNode.getBlock_fails (fun blk => copy blk (offset % blockSize) count buffer)
      h.level hid (Nat.le_of_not_lt hcap)
    rw [write_eq_one buffer s.file hlt h1] at hr
    simp only [hfail, Bool.false_eq_true, if_false, Answer.response.injEq, reduceCtorEq] at hr
  · exact absurd hr (write_crossing s.file hlt h1)

/-- A read answers as the byte array exactly when it stays in one block and meets no hole. -/
theorem read_answers_iff (h : Refines s) (hlt : offset + count < 2 ^ 64) :
    ((read s.file offset count dest).1 = .response (.ok (s.bytes.readable offset count)) ∧
      (read s.file offset count dest).2 = s.bytes.read offset count dest) ↔
    StepOk s (.read offset count dest) := by
  by_cases hpast : s.file.size ≤ offset
  · rw [read_past_end h hpast]
    exact ⟨fun _ => .inl hpast, fun _ => ⟨rfl, rfl⟩⟩
  have hoff : offset < s.file.size := by omega
  have hread : s.bytes.readable offset count = min count (s.file.size - offset) := by
    rw [Bytes.readable, h.size]
  by_cases h1 : InOneBlock offset (min (offset + count) s.file.size)
  · rw [read_eq_one s.file hlt hoff h1, hread, read_one_iff h h1]
    exact ⟨fun hr => .inr ⟨h1, hr.2⟩, fun hok => ⟨rfl, (hok.resolve_left hpast).2⟩⟩
  · refine ⟨fun hr => absurd (hread ▸ hr.1) (read_crossing s.file hlt hoff h1), fun hok => ?_⟩
    exact absurd (hok.resolve_left hpast).1 h1

theorem step_inv (s : Sys) (op : Op) (s' : Sys) (h : Inv s) (hok : StepOk s op)
    (hs : step s op = some s') : Inv s' := by
  unfold step at hs
  split at hs
  · cases hs
  · rename_i hlt
    cases op with
    | write offset count buffer =>
      cases hs
      exact write_inv h (Nat.lt_of_not_le hlt) hok
    | read offset count dest =>
      cases hs
      have hr := (read_answers_iff h.refines (Nat.lt_of_not_le hlt)).mpr hok
      exact ⟨⟨⟨h.refines.answered, hr⟩, h.refines.size, h.refines.byte⟩, h.level, h.size_lt⟩

theorem step_bad (s : Sys) (op : Op) (s' : Sys) (h : Inv s) (hbad : ¬ StepOk s op)
    (hs : step s op = some s') : ¬ Refines s' := by
  unfold step at hs
  split at hs
  · cases hs
  · rename_i hlt
    intro hr
    apply hbad
    cases op with
    | write offset count buffer =>
      cases hs
      exact (write_answers_iff h (Nat.lt_of_not_le hlt)).mp hr.answered.2
    | read offset count dest =>
      cases hs
      exact (read_answers_iff h.refines (Nat.lt_of_not_le hlt)).mp hr.answered.2

/-- A run of reads and writes behaves as a sparse byte array exactly when each of its calls
stays in one block (that five attempts reach, for a write; that exists, for a read into a
destination that is not zero). -/
theorem file_refines_iff (ops : List Op) :
    AllStates step Refines create ops ↔ AllSteps step StepOk create ops :=
  allStates_iff_allSteps (fun _ h => h.refines) step_inv step_bad ops create inv_create

/-- Writing the first block as a whole answers `0`. -/
theorem write_whole_block : ¬ AllStates step Refines create [.write 0 blockSize fun _ => 1] := by
  intro h
  have hnot : ¬ InOneBlock 0 (0 + blockSize) := by
    unfold InOneBlock
    decide
  have hbad : ¬ StepOk create (.write 0 blockSize fun _ => 1) := fun hok => hnot hok.1
  exact step_bad _ _ _ inv_create hbad rfl (h.2 _ rfl).here

end BadLands.Fs.Npfs
