import BadLands.Mm.KernelHeapRanges

/-!
# User virtual ranges: `AllocateUserPagesAt`

`AllocateCore<LOW, true>` on the list of free user blocks. The request is first served as any
other: the blocks up to the selected one all have the pages. With a hint, the blocks from
the selected one backwards are searched for one the hinted range lies in, or else for the
lowest one above the hint; the range is then cut from the front of that block, from its
end, or from its middle. Without a usable block the call falls through to the cut at the
end of the selected block.

The list and its context are the `State` of `VirtualMemory`. A pointer is a number, `0` is
`nullptr`; `mapOk` and `expanded` are the outcomes of `MapOnDemand` and
`ExpandVirtualMemoryMap`.
-/
namespace BadLands.Mm.UserPages

open BadLands.Core BadLands.Core.Ranges BadLands.Mm.Layout BadLands.Mm.VirtualMemory

/-- The end of a block, as the code computes it. -/
def blockEnd (b : VMemMapBlock) : Nat :=
  Word.add b.virtualStart (Word.mul b.availablePages frameSize)

/-- The end of the hinted range, as the code computes it. -/
def hintEnd (hint pages : Nat) : Nat := Word.add hint (Word.mul pages frameSize)

/-- The search for the hint with `k` blocks left, the next one `i` before the block `index`;
`found` is `indexOffset` and `fitFound`.
mirrors kernel/src/mm/VirtualMemory.cpp:353-375 -/
def hintLoop (b : Nat → VMemMapBlock) (pages hint index : Nat) : Nat → Nat → Nat × Bool → Nat × Bool
  | 0, _, found => found
  | k + 1, i, found =>
    let newBlock := b (index - i)
    if newBlock.virtualStart ≤ hint ∧ hintEnd hint pages ≤ blockEnd newBlock then (i, true)
    else if newBlock.virtualStart < (b index).virtualStart ∧ newBlock.virtualStart ≥ hint then
      if hintEnd hint pages ≤ blockEnd newBlock then hintLoop b pages hint index k (i + 1) (i, true)
      else hintLoop b pages hint index k (i + 1) found
    else hintLoop b pages hint index k (i + 1) found

/-- The block the hint path cuts, if it is taken.
mirrors kernel/src/mm/VirtualMemory.cpp:348-380 -/
def hintIndex (s : State) (pages hint : Nat) : Option Nat :=
  if hint ≠ 0 ∧ hint % frameSize = 0 then
    let index := selectIndex s pages
    let found := hintLoop s.blocks pages hint index (index + 1) 0 (0, false)
    if found.2 = true ∧ (s.blocks index).availablePages > pages then some (index - found.1) else none
  else none

/-- `SortVirtualMemoryMap` from `index` on and the accounting after a cut. -/
def afterCut (s : State) (index pages : Nat) (b : VMemMapBlock) : State :=
  { s with
    blocks := sortVirtualMemoryMap (setAt s.blocks index b) index (Word.sub s.ctx.storedBlocks index)
    ctx := { s.ctx with
      availableMemory := Word.sub s.ctx.availableMemory (Word.mul pages frameSize) } }

/-- mirrors kernel/src/mm/VirtualMemory.cpp:294-311 -/
def allocateHintCore (s : State) (index pages : Nat) (mapOk : Bool) : Nat × State :=
  let b := s.blocks index
  if !mapOk then (0, s)
  else (b.virtualStart, afterCut s index pages
    ⟨Word.add b.virtualStart (Word.mul pages frameSize), Word.sub b.availablePages pages⟩)

/-- The two halves of a split: the larger one takes the block's place, the other one is
stored last, and both are bubbled to their places.
mirrors kernel/src/mm/VirtualMemory.cpp:415-431 -/
def storeSplit (s : State) (index pages : Nat) (prevBlock nextBlock : VMemMapBlock) : State :=
  let residue := s.ctx.storedBlocks
  let stored := Word.add s.ctx.storedBlocks 1
  let blocks :=
    if prevBlock.availablePages > nextBlock.availablePages then
      setAt (setAt s.blocks index prevBlock) residue nextBlock
    else setAt (setAt s.blocks index nextBlock) residue prevBlock
  let blocks := sortVirtualMemoryMap blocks index (Word.sub stored index)
  let blocks := rsortVirtualMemoryMap blocks residue stored
  { s with
    blocks := blocks
    ctx := {
      storedBlocks := stored
      availableMemory := Word.sub s.ctx.availableMemory (Word.mul pages frameSize)
      availableBlockMemory := Word.sub s.ctx.availableBlockMemory blockBytes } }

def prevBlock (b : VMemMapBlock) (hint : Nat) : VMemMapBlock :=
  ⟨b.virtualStart, Word.sub hint b.virtualStart / frameSize⟩

def nextBlock (b : VMemMapBlock) (hint pages : Nat) : VMemMapBlock :=
  ⟨hintEnd hint pages, Word.sub (blockEnd b) (hintEnd hint pages) / frameSize⟩

/-- The hint path on the block it found.
mirrors kernel/src/mm/VirtualMemory.cpp:377-439 -/
def allocateAtHint (s : State) (index pages hint : Nat) (mapOk expanded : Bool) : Nat × State :=
  let b := s.blocks index
  if b.virtualStart ≤ hint then
    if (prevBlock b hint).availablePages = 0 then allocateHintCore s index pages mapOk
    else if (nextBlock b hint pages).availablePages = 0 then
      if !mapOk then (0, s) else (hint, afterCut s index pages (prevBlock b hint))
    else if s.ctx.availableBlockMemory = 0 then
      if !expanded then (0, s)
      else if !mapOk then (0, expand s)
      else (hint, storeSplit (expand s) index pages (prevBlock b hint) (nextBlock b hint pages))
    else if !mapOk then (0, s)
    else (hint, storeSplit s index pages (prevBlock b hint) (nextBlock b hint pages))
  else allocateHintCore s index pages mapOk

/-- `AllocateCore<LOW, true>`. The last branch is the rest of the function, the one a call
without a hint takes.
mirrors kernel/src/mm/VirtualMemory.cpp:313-476,817-819 -/
def allocateUserPagesAt (s : State) (pages hint : Nat) (mapOk expanded : Bool) : Nat × State :=
  if s.ctx.availableMemory < Word.mul pages frameSize ∨ (s.blocks 0).availablePages < pages then (0, s)
  else if pages = 0 then (0, s)
  else
    match hintIndex s pages hint with
    | some index => allocateAtHint s index pages hint mapOk expanded
    | none => ((allocateCore s pages mapOk).1.getD 0, (allocateCore s pages mapOk).2)

end BadLands.Mm.UserPages
