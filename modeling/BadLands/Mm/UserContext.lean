import BadLands.Core.ByteMemory
import BadLands.Mm.KernelHeapRanges

/-!
# The user memory context and its list of blocks, byte by byte

`DeriveNewFreshCR3` writes a task's `MemoryContext` at the start of `UserVMemManagement` and
the first `VMemMapBlock` right behind it, at offset 24. `AllocateCore<LOW>` and
`FreeCore<LOW>` look for the list at `UserVMemManagement.start` plus
`(sizeof(MemoryContext) + sizeof(VMemMapBlock) - 1) / sizeof(VMemMapBlock)`, a count of
blocks that is added to an address in bytes: offset 2, inside the context.

Context and list therefore share bytes, so the model is a byte memory, by offset from
`UserVMemManagement.start`, and every access of the source is one access here, in the
source's order. An access to an unmapped page ends the call (`none`).
-/
namespace BadLands.Mm.UserContext

open BadLands.Core BadLands.Core.Machine BadLands.Core.Ranges BadLands.Mm.Layout
open BadLands.Mm.VirtualMemory
open BadLands.Mm.KernelHeapRanges (toRange)

/-- The management pages of the current task, by offset and by page number. -/
structure Memory where
  bytes : ByteMemory
  mapped : Nat → Bool

/-- `sizeof(MemoryContext)`. -/
def contextBytes : Nat := 24

/-- `managementBase` of `AllocateCore<LOW>` and `FreeCore<LOW>`, by offset.
mirrors kernel/src/mm/VirtualMemory.cpp:315-318,479-482 -/
def managementBase : Nat := (contextBytes + blockBytes - 1) / blockBytes

/-! ## Accesses -/

def Memory.availableMemory (m : Memory) : Nat := m.bytes.read 0 8

def Memory.availableBlockMemory (m : Memory) : Nat := m.bytes.read 8 8

def Memory.storedBlocks (m : Memory) : Nat := m.bytes.read 16 8

def Memory.write (m : Memory) (offset value : Nat) : Memory :=
  { m with bytes := m.bytes.write offset 8 value }

/-- The offset of a block's entry. -/
def entry (i : Nat) : Nat := Word.add managementBase (Word.mul i blockBytes)

def Memory.block (m : Memory) (i : Nat) : VMemMapBlock :=
  ⟨m.bytes.read (entry i) 8, m.bytes.read (entry i + 8) 8⟩

/-- Both ends of the entry are mapped. -/
def Memory.holds (m : Memory) (i : Nat) : Bool :=
  m.mapped (entry i / frameSize) && m.mapped ((entry i + blockBytes - 1) / frameSize)

def Memory.readBlock (m : Memory) (i : Nat) : Option VMemMapBlock :=
  if m.holds i then some (m.block i) else none

def Memory.writeBlock (m : Memory) (i : Nat) (b : VMemMapBlock) : Option Memory :=
  if m.holds i then some ((m.write (entry i) b.virtualStart).write (entry i + 8) b.availablePages)
  else none

def Memory.writePages (m : Memory) (i pages : Nat) : Option Memory :=
  if m.holds i then some (m.write (entry i + 8) pages) else none

/-! ## Allocation and release -/

/-- The `for` of `SortVirtualMemoryMap` with `k` rounds left. -/
def sortLoop (m : Memory) (start : Nat) : Nat → Option Memory
  | 0 => some m
  | k + 1 => do
    let next ← m.readBlock (start + 1)
    let b ← m.readBlock start
    if next.availablePages > b.availablePages then
      let m ← m.writeBlock start next
      let m ← m.writeBlock (start + 1) b
      sortLoop m (start + 1) k
    else some m

/-- mirrors kernel/src/mm/VirtualMemory.cpp:270-280 -/
def sortVirtualMemoryMap (m : Memory) (start n : Nat) : Option Memory :=
  if n > 2 then sortLoop m start (n - 1) else some m

/-- The `for` of `RSortVirtualMemoryMap` with `k` rounds left. -/
def rsortLoop (m : Memory) (start : Nat) : Nat → Option Memory
  | 0 => some m
  | k + 1 => do
    let previous ← m.readBlock (start - 1)
    let b ← m.readBlock start
    if previous.availablePages < b.availablePages then
      let m ← m.writeBlock start previous
      let m ← m.writeBlock (start - 1) b
      rsortLoop m (start - 1) k
    else some m

/-- mirrors kernel/src/mm/VirtualMemory.cpp:282-292 -/
def rsortVirtualMemoryMap (m : Memory) (start n : Nat) : Option Memory :=
  if n > 2 then rsortLoop m start (n - 1) else some m

/-- The search of `AllocateCore` from index `i` with `k` stored blocks left. -/
def selectFrom (m : Memory) (pages : Nat) : Nat → Nat → Option Nat
  | 0, i => some (i - 1)
  | k + 1, i => do
    let b ← m.readBlock i
    if b.availablePages < pages then some (i - 1) else selectFrom m pages k (i + 1)

/-- mirrors kernel/src/mm/VirtualMemory.cpp:328-345 -/
def selectIndex (m : Memory) (pages : Nat) : Option Nat :=
  if pages = 1 then some (Word.sub m.storedBlocks 1) else selectFrom m pages (m.storedBlocks - 1) 1

/-- The last stored block is dropped, and perhaps a page.
mirrors kernel/src/mm/VirtualMemory.cpp:456-472 -/
def removeLast (m : Memory) : Memory :=
  let m := m.write 16 (Word.sub m.storedBlocks 1)
  let m := m.write 8 (Word.add m.availableBlockMemory blockBytes)
  if m.availableBlockMemory % frameSize = 0 ∧ m.availableBlockMemory > frameSize then
    let m := m.write 8 (Word.sub m.availableBlockMemory frameSize)
    let page := Word.add managementBase m.availableBlockMemory / frameSize
    { m with mapped := fun p => if p = page then false else m.mapped p }
  else m

/-- `AllocateCore<LOW, false>`: the pointer, `0` for `nullptr`.
mirrors kernel/src/mm/VirtualMemory.cpp:313-345,444-476,813-815 -/
def allocateUserPages (m : Memory) (pages : Nat) (mapOk : Bool) : Option (Nat × Memory) := do
  if m.availableMemory < Word.mul pages frameSize then return (0, m)
  let first ← m.readBlock 0
  if first.availablePages < pages ∨ pages = 0 then return (0, m)
  let index ← selectIndex m pages
  let b ← m.readBlock index
  let left := Word.sub b.availablePages pages
  let m ← m.writePages index left
  let pagesStart := Word.add b.virtualStart (Word.mul left frameSize)
  if !mapOk then
    let m ← m.writePages index (Word.add left pages)
    return (0, m)
  let m ← sortVirtualMemoryMap m index (Word.sub m.storedBlocks index)
  let m := if left = 0 then removeLast m else m
  return (pagesStart, m.write 0 (Word.sub m.availableMemory (Word.mul pages frameSize)))

/-- `ExpandVirtualMemoryMap` when it succeeds, and the accounting.
mirrors kernel/src/mm/VirtualMemory.cpp:261-268,560-567 -/
def expand (m : Memory) : Memory :=
  let page := entry m.storedBlocks / frameSize
  let m := { m with mapped := fun p => if p = page then true else m.mapped p }
  m.write 8 (Word.add m.availableBlockMemory frameSize)

/-- mirrors kernel/src/mm/VirtualMemory.cpp:569-573 -/
def storeBlock (m : Memory) (vmmb : VMemMapBlock) : Option Memory := do
  let index := m.storedBlocks
  let m := m.write 16 (Word.add m.storedBlocks 1)
  let m ← m.writeBlock index vmmb
  let m := m.write 8 (Word.sub m.availableBlockMemory blockBytes)
  let m := m.write 0 (Word.add m.availableMemory (Word.mul vmmb.availablePages frameSize))
  rsortVirtualMemoryMap m index m.storedBlocks

/-- `FreeCore<LOW>`; `released`: the frames of the range were mapped and could be given back.
mirrors kernel/src/mm/VirtualMemory.cpp:478-577,842-844 -/
def freeUserPages (m : Memory) (ptr pages : Nat) (released expanded : Bool) :
    Option (Bool × Memory) := do
  if pages = 0 then return (true, m)
  if ptr > userMemory.start + userMemory.limit ∨ ptr < userMemory.start ∨
      Word.add ptr (Word.mul pages frameSize) < ptr then return (false, m)
  if !released then return (false, m)
  if m.availableBlockMemory = 0 then
    if !expanded then return (false, m)
    let m ← storeBlock (expand m) ⟨ptr, pages⟩
    return (true, m)
  let m ← storeBlock m ⟨ptr, pages⟩
  return (true, m)

/-! ## A new task -/

def firstBlock : VMemMapBlock :=
  ⟨userMemory.start, (userMemory.limit - userStack.limit) / frameSize⟩

/-- What `DeriveNewFreshCR3` leaves in the task's management page, which it fills through
a mapping at `newUserContext`; the rest of the page holds `junk`.
mirrors kernel/src/mm/VirtualMemory.cpp:752-787 -/
def deriveNewFreshCR3 (newUserContext : Nat) (junk : ByteMemory) : Memory where
  bytes :=
    let bytes := junk.write 0 8 (userMemory.limit - userStack.limit)
    let bytes := bytes.write 8 8 (Word.sub (Word.sub pageSize blockBytes)
      (Word.sub userVMemManagement.start newUserContext))
    let bytes := bytes.write 16 8 1
    let bytes := bytes.write contextBytes 8 firstBlock.virtualStart
    bytes.write (contextBytes + 8) 8 firstBlock.availablePages
  mapped := fun p => p == 0

structure Sys where
  memory : Memory
  live : List VMemMapBlock

inductive Op where
  | allocateUserPages (pages : UInt64) (mapOk : Bool)
  | freeUserPages (range : VMemMapBlock) (released expanded : Bool)

def step (s : Sys) : Op → Option Sys
  | .allocateUserPages pages mapOk =>
    (allocateUserPages s.memory pages.toNat mapOk).map fun (p, m) =>
      if p = 0 then ⟨m, s.live⟩ else ⟨m, ⟨p, pages.toNat⟩ :: s.live⟩
  | .freeUserPages r released expanded =>
    if r ∉ s.live then none
    else (freeUserPages s.memory r.virtualStart r.availablePages released expanded).map fun (ok, m) =>
      ⟨m, if ok then s.live.erase r else s.live⟩

/-! ## The bookkeeping -/

/-- The list `AllocateUserPages` works on. -/
def listRead (m : Memory) : List VMemMapBlock := (List.range m.storedBlocks).map m.block

def zoneRange (z : MemoryZone) : Range := ⟨z.start, z.limit⟩

structure RangesOk (s : Sys) : Prop where
  inUserMemory : ∀ r ∈ s.live, (toRange r).Sub (zoneRange userMemory)
  notDma : ∀ r ∈ s.live, (toRange r).Disj (zoneRange dmaZone)
  notStack : ∀ r ∈ s.live, (toRange r).Disj (zoneRange userStack)
  disjoint : Packed (s.live.map toRange)

/-- The list a new task's calls read is the one that was written for it, and every range
they hand out is the task's own. -/
structure Agrees (m : Memory) (ops : List Op) : Prop where
  reads : listRead m = [firstBlock]
  ranges : AllStates step RangesOk ⟨m, []⟩ ops

/-! ## What is read at offset 2 -/

section
variable (newUserContext : Nat) (junk : ByteMemory)

/-- `availableBlockMemory` of a new task. -/
def freshBlockMemory : Nat :=
  Word.sub (Word.sub pageSize blockBytes) (Word.sub userVMemManagement.start newUserContext)

/-- The context, below the written block. -/
theorem fresh_bytes {a n : Nat} (h : a + n ≤ 24) :
    (deriveNewFreshCR3 newUserContext junk).bytes.read a n =
      (((junk.write 0 8 0x7FFEE00000).write 8 8 (freshBlockMemory newUserContext)).write
        16 8 1).read a n := by
  have h1 : contextBytes = 24 := rfl
  unfold deriveNewFreshCR3
  simp only
  rw [ByteMemory.read_write_other (by omega), ByteMemory.read_write_other (by omega)]
  rfl

theorem fresh_storedBlocks : (deriveNewFreshCR3 newUserContext junk).storedBlocks = 1 := by
  unfold Memory.storedBlocks
  rw [fresh_bytes newUserContext junk (by decide), ByteMemory.read_write, Nat.mod_eq_of_lt (by decide)]

/-- The first block's count: the high bytes of `availableBlockMemory`, then the low bytes of
`storedBlocks`. -/
theorem fresh_availablePages : ((deriveNewFreshCR3 newUserContext junk).block 0).availablePages =
    freshBlockMemory newUserContext / 2 ^ 16 % 2 ^ 48 + 2 ^ 48 := by
  have hentry : entry 0 + 8 = 10 := rfl
  unfold Memory.block
  simp only [hentry]
  calc _ = freshBlockMemory newUserContext / 256 ^ (10 - 8) % 256 ^ 6 +
        256 ^ 6 * (1 / 256 ^ (10 + 6 - 16) % 256 ^ 2) := by
        rw [show (8 : Nat) = 6 + 2 from rfl, ByteMemory.read_add,
          fresh_bytes newUserContext junk (by decide), fresh_bytes newUserContext junk (by decide),
          ByteMemory.read_write_other (by decide), ByteMemory.read_write_part (by decide) (by decide),
          ByteMemory.read_write_part (by decide) (by decide)]
    _ = _ := by simp

end

/-- No run of a new task's calls agrees with what was set up for it: the block list is read
at another address than it was written to, whatever the mapping it was written through, the
rest of the page and the calls are. -/
theorem bookkeeping_disagrees (newUserContext : Nat) (junk : ByteMemory) (ops : List Op) :
    ¬ Agrees (deriveNewFreshCR3 newUserContext junk) ops := by
  intro h
  have hreads := h.reads
  unfold listRead at hreads
  rw [fresh_storedBlocks] at hreads
  have hblock : (deriveNewFreshCR3 newUserContext junk).block 0 = firstBlock := by
    simpa using hreads
  have hpages := fresh_availablePages newUserContext junk
  rw [hblock] at hpages
  have hwritten : firstBlock.availablePages = 0x7FFEE00 := by decide
  omega

/-- The first page a task asks for is far outside of user memory. -/
theorem first_page_outside :
    ¬ Agrees (deriveNewFreshCR3 generalMapping.start fun _ => 0) [.allocateUserPages 1 true] := by
  intro h
  have hrun : (run step ⟨deriveNewFreshCR3 generalMapping.start fun _ => 0, []⟩
      [.allocateUserPages 1 true]).map (fun s => s.live) = some [⟨0x2FEFF808136EEEE0, 1⟩] := by
    decide +kernel
  obtain ⟨s, hs, hlive⟩ := Option.map_eq_some_iff.mp hrun
  have hin := (h.ranges.of_run _ _ _ hs).inUserMemory ⟨0x2FEFF808136EEEE0, 1⟩ (by simp [hlive])
  exact absurd hin (by decide)

end BadLands.Mm.UserContext
