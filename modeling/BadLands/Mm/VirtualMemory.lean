import BadLands.Core.Word
import BadLands.Mm.Layout

/-!
# Virtual memory: the kernel heap's list of free blocks

`AllocateCore` and `FreeCore` keep the free virtual ranges of the kernel heap in an array
of `VMemMapBlock`s at `KernelHeapManagement.start`, meant to be in descending order of
`availablePages`, of which the first `storedBlocks` are in use. The array is a function of
the index: entries past `storedBlocks` keep whatever they held.

The order is restored by bubbling one entry (`sortLoop`, `rsortLoop`). Both sort functions
do nothing when `n ≤ 2`.

The paging calls appear by their outcome: whether `MapOnDemand` succeeded, whether the
frames of a freed range could be given back, and whether `ExpandVirtualMemoryMap` found a
frame. `blockPages` tracks which pages of the management window are mapped: a removal can
unmap a page that still holds entries, and a call that then touches one of them
(`allocateTouches`, `freeTouches`) ends in the page fault handler's panic.
-/
namespace BadLands.Mm.VirtualMemory

open BadLands.Core BadLands.Mm.Layout

/-- mirrors kernel/src/mm/VirtualMemory.cpp:28-31 -/
structure VMemMapBlock where
  virtualStart : Nat
  availablePages : Nat
  deriving DecidableEq, Repr

/-- mirrors kernel/src/mm/VirtualMemory.cpp:33-37 -/
structure MemoryContext where
  availableMemory : Nat
  availableBlockMemory : Nat
  storedBlocks : Nat
  deriving DecidableEq, Repr

structure State where
  ctx : MemoryContext
  blocks : Nat → VMemMapBlock
  blockPages : Nat → Bool

/-- `sizeof(VMemMapBlock)`. -/
def blockBytes : Nat := 16

/-! ## The array -/

def setAt (b : Nat → VMemMapBlock) (i : Nat) (x : VMemMapBlock) : Nat → VMemMapBlock :=
  fun j => if j = i then x else b j

def swap (b : Nat → VMemMapBlock) (i j : Nat) : Nat → VMemMapBlock :=
  setAt (setAt b i (b j)) j (b i)

/-- The `for` of `SortVirtualMemoryMap` with `k` rounds left. -/
def sortLoop (b : Nat → VMemMapBlock) (start : Nat) : Nat → Nat → VMemMapBlock
  | 0 => b
  | k + 1 =>
    if (b (start + 1)).availablePages > (b start).availablePages then
      sortLoop (swap b start (start + 1)) (start + 1) k
    else b

/-- mirrors kernel/src/mm/VirtualMemory.cpp:270-280 -/
def sortVirtualMemoryMap (b : Nat → VMemMapBlock) (start n : Nat) : Nat → VMemMapBlock :=
  if n > 2 then sortLoop b start (n - 1) else b

/-- The `for` of `RSortVirtualMemoryMap` with `k` rounds left. -/
def rsortLoop (b : Nat → VMemMapBlock) (start : Nat) : Nat → Nat → VMemMapBlock
  | 0 => b
  | k + 1 =>
    if (b (start - 1)).availablePages < (b start).availablePages then
      rsortLoop (swap b start (start - 1)) (start - 1) k
    else b

/-- mirrors kernel/src/mm/VirtualMemory.cpp:282-292 -/
def rsortVirtualMemoryMap (b : Nat → VMemMapBlock) (start n : Nat) : Nat → VMemMapBlock :=
  if n > 2 then rsortLoop b start (n - 1) else b

/-- The search of `AllocateCore` from index `i` with `k` stored blocks left: the last block
of the leading run that has `pages` available. -/
def selectFrom (b : Nat → VMemMapBlock) (pages : Nat) : Nat → Nat → Nat
  | 0, i => i - 1
  | k + 1, i => if (b i).availablePages < pages then i - 1 else selectFrom b pages k (i + 1)

/-- The index `AllocateCore` settles on: the last block for one page, else the search.
mirrors kernel/src/mm/VirtualMemory.cpp:328-345 -/
def selectIndex (s : State) (pages : Nat) : Nat :=
  if pages = 1 then Word.sub s.ctx.storedBlocks 1
  else selectFrom s.blocks pages (s.ctx.storedBlocks - 1) 1

/-! ## Allocation and release -/

/-- The last stored block is dropped; a management page that is no longer needed is given
back (its address is computed from `availableBlockMemory`).
mirrors kernel/src/mm/VirtualMemory.cpp:456-472 -/
def removeLast (s : State) : State :=
  let abm := Word.add s.ctx.availableBlockMemory blockBytes
  if abm % frameSize = 0 ∧ abm > frameSize then
    let abm' := Word.sub abm frameSize
    { s with
      ctx := { s.ctx with storedBlocks := Word.sub s.ctx.storedBlocks 1, availableBlockMemory := abm' }
      blockPages := fun p => if p = abm' / frameSize then false else s.blockPages p }
  else
    { s with
      ctx := { s.ctx with storedBlocks := Word.sub s.ctx.storedBlocks 1, availableBlockMemory := abm } }

/-- `AllocateCore<HIGH, false>`; `mapOk` is the outcome of `MapOnDemand`.
mirrors kernel/src/mm/VirtualMemory.cpp:313-345,444-476 -/
def allocateCore (s : State) (pages : Nat) (mapOk : Bool) : Option Nat × State :=
  if s.ctx.availableMemory < Word.mul pages frameSize ∨ (s.blocks 0).availablePages < pages then
    (none, s)
  else if pages = 0 then (none, s)
  else
    let index := selectIndex s pages
    let b := s.blocks index
    let left := Word.sub b.availablePages pages
    let pagesStart := Word.add b.virtualStart (Word.mul left frameSize)
    if !mapOk then
      (none, { s with blocks := setAt s.blocks index { b with availablePages := Word.add left pages } })
    else
      let blocks := sortVirtualMemoryMap (setAt s.blocks index { b with availablePages := left }) index
        (Word.sub s.ctx.storedBlocks index)
      let s' := if left = 0 then removeLast { s with blocks := blocks } else { s with blocks := blocks }
      (some pagesStart, { s' with ctx := { s'.ctx with
        availableMemory := Word.sub s'.ctx.availableMemory (Word.mul pages frameSize) } })

/-- `ExpandVirtualMemoryMap` when it succeeds: the page behind the stored blocks is mapped.
mirrors kernel/src/mm/VirtualMemory.cpp:261-268,566 -/
def expand (s : State) : State :=
  { s with
    ctx := { s.ctx with availableBlockMemory := Word.add s.ctx.availableBlockMemory frameSize }
    blockPages := fun p =>
      if p = Word.mul s.ctx.storedBlocks blockBytes / frameSize then true else s.blockPages p }

/-- The tail of `FreeCore`: the range becomes the last stored block and is bubbled to its place.
mirrors kernel/src/mm/VirtualMemory.cpp:569-573 -/
def storeBlock (s : State) (vmmb : VMemMapBlock) : State :=
  let stored := Word.add s.ctx.storedBlocks 1
  { s with
    ctx := {
      availableMemory := Word.add s.ctx.availableMemory (Word.mul vmmb.availablePages frameSize)
      availableBlockMemory := Word.sub s.ctx.availableBlockMemory blockBytes
      storedBlocks := stored }
    blocks := rsortVirtualMemoryMap (setAt s.blocks s.ctx.storedBlocks vmmb) s.ctx.storedBlocks stored }

/-- `FreeCore<HIGH>`; `released`: every frame of the range could be given back, `expanded`:
the outcome of `ExpandVirtualMemoryMap`, should it be called.
mirrors kernel/src/mm/VirtualMemory.cpp:478-577 -/
def freeCore (s : State) (ptr pages : Nat) (released expanded : Bool) : Bool × State :=
  if pages = 0 then (true, s)
  else if !released then (false, s)
  else if s.ctx.availableBlockMemory = 0 then
    if !expanded then (false, s) else (true, storeBlock (expand s) ⟨ptr, pages⟩)
  else (true, storeBlock s ⟨ptr, pages⟩)

/-! ## Entries a call touches -/

def sortTouches (b : Nat → VMemMapBlock) (start : Nat) : Nat → List Nat
  | 0 => []
  | k + 1 =>
    (start + 1) :: if (b (start + 1)).availablePages > (b start).availablePages then
      sortTouches (swap b start (start + 1)) (start + 1) k
    else []

def rsortTouches (b : Nat → VMemMapBlock) (start : Nat) : Nat → List Nat
  | 0 => []
  | k + 1 =>
    (start - 1) :: if (b (start - 1)).availablePages < (b start).availablePages then
      rsortTouches (swap b start (start - 1)) (start - 1) k
    else []

def selectTouches (b : Nat → VMemMapBlock) (pages : Nat) : Nat → Nat → List Nat
  | 0, _ => []
  | k + 1, i => i :: if (b i).availablePages < pages then [] else selectTouches b pages k (i + 1)

/-- The entries `AllocateCore<HIGH, false>` reads or writes. -/
def allocateTouches (s : State) (pages : Nat) (mapOk : Bool) : List Nat :=
  if s.ctx.availableMemory < Word.mul pages frameSize then []
  else if (s.blocks 0).availablePages < pages ∨ pages = 0 then [0]
  else
    let index := selectIndex s pages
    let b := s.blocks index
    let n := Word.sub s.ctx.storedBlocks index
    0 :: index :: (if pages = 1 then [] else selectTouches s.blocks pages (s.ctx.storedBlocks - 1) 1) ++
      if mapOk = true ∧ n > 2 then
        sortTouches (setAt s.blocks index { b with availablePages := Word.sub b.availablePages pages })
          index (n - 1)
      else []

/-- The entries the tail of `FreeCore<HIGH>` reads or writes. -/
def storeTouches (s : State) (vmmb : VMemMapBlock) : List Nat :=
  let stored := Word.add s.ctx.storedBlocks 1
  s.ctx.storedBlocks :: if stored > 2 then
    rsortTouches (setAt s.blocks s.ctx.storedBlocks vmmb) s.ctx.storedBlocks (stored - 1)
  else []

/-- Whether the entry lies on a mapped management page. -/
def State.mapped (s : State) (i : Nat) : Bool := s.blockPages (i * blockBytes / frameSize)

def allocateFaults (s : State) (pages : Nat) (mapOk : Bool) : Bool :=
  !(allocateTouches s pages mapOk).all s.mapped

def freeFaults (s : State) (ptr pages : Nat) (released expanded : Bool) : Bool :=
  if pages = 0 ∨ released = false then false
  else if s.ctx.availableBlockMemory = 0 then
    expanded && !(storeTouches s ⟨ptr, pages⟩).all (expand s).mapped
  else !(storeTouches s ⟨ptr, pages⟩).all s.mapped

/-- What `VirtualMemory::Setup` leaves of the kernel context: one block, the whole zone.
The rest of the management page holds `junk`.
mirrors kernel/src/mm/VirtualMemory.cpp:47-51,656-675 -/
def setup (junk : Nat → VMemMapBlock) : State where
  ctx := {
    availableMemory := kernelHeap.limit
    availableBlockMemory := frameSize - blockBytes
    storedBlocks := 1 }
  blocks := setAt junk 0 ⟨kernelHeap.start, kernelHeap.limit / frameSize⟩
  blockPages := fun p => p == 0

@[simp] theorem removeLast_blocks (s : State) : (removeLast s).blocks = s.blocks := by
  simp only [removeLast, apply_ite State.blocks, ite_self]

@[simp] theorem removeLast_storedBlocks (s : State) :
    (removeLast s).ctx.storedBlocks = Word.sub s.ctx.storedBlocks 1 := by
  simp only [removeLast, apply_ite State.ctx, apply_ite MemoryContext.storedBlocks, ite_self]

@[simp] theorem removeLast_availableMemory (s : State) :
    (removeLast s).ctx.availableMemory = s.ctx.availableMemory := by
  simp only [removeLast, apply_ite State.ctx, apply_ite MemoryContext.availableMemory, ite_self]

@[simp] theorem expand_blocks (s : State) : (expand s).blocks = s.blocks := by
  simp only [expand]

@[simp] theorem expand_storedBlocks (s : State) :
    (expand s).ctx.storedBlocks = s.ctx.storedBlocks := by
  simp only [expand]

@[simp] theorem expand_availableMemory (s : State) :
    (expand s).ctx.availableMemory = s.ctx.availableMemory := by
  simp only [expand]

theorem allocateCore_mapped {s : State} {pages : Nat}
    (h : ¬ (s.ctx.availableMemory < Word.mul pages frameSize ∨ (s.blocks 0).availablePages < pages))
    (h0 : pages ≠ 0) {b : VMemMapBlock} (hb : s.blocks (selectIndex s pages) = b) :
    ∃ vm, allocateCore s pages true =
        (some (Word.add b.virtualStart (Word.mul (Word.sub b.availablePages pages) frameSize)), vm) ∧
      vm.blocks = sortVirtualMemoryMap (setAt s.blocks (selectIndex s pages)
        ⟨b.virtualStart, Word.sub b.availablePages pages⟩) (selectIndex s pages)
        (Word.sub s.ctx.storedBlocks (selectIndex s pages)) ∧
      vm.ctx.storedBlocks = (if Word.sub b.availablePages pages = 0 then
        Word.sub s.ctx.storedBlocks 1 else s.ctx.storedBlocks) ∧
      vm.ctx.availableMemory = Word.sub s.ctx.availableMemory (Word.mul pages frameSize) := by
  simp only [allocateCore, if_neg h, if_neg h0, hb, Bool.not_true, Bool.false_eq_true, if_false]
  refine ⟨_, rfl, ?_⟩
  by_cases hz : Word.sub b.availablePages pages = 0
  · simp only [hz, if_true, removeLast_blocks, removeLast_storedBlocks, removeLast_availableMemory,
      and_self]
  · simp only [hz, if_false, and_self]

/-! ## Sorting permutes the stored blocks -/

/-- The stored blocks in array order. -/
def stored (b : Nat → VMemMapBlock) (n : Nat) : List VMemMapBlock := (List.range n).map b

theorem swapIndex_perm {n i j : Nat} (hi : i < n) (hj : j < n) :
    ((List.range n).map fun x => if x = j then i else if x = i then j else x).Perm (List.range n) := by
  apply (List.perm_ext_iff_of_nodup ?_ List.nodup_range).mpr
  · intro a
    simp only [List.mem_map, List.mem_range]
    refine ⟨?_, fun ha => ?_⟩
    · intro h
      obtain ⟨x, hx, he⟩ := h
      split at he
      · omega
      · split at he <;> omega
    · refine ⟨if a = j then i else if a = i then j else a, ?_, ?_⟩
      · split
        · exact hi
        · split <;> omega
      · by_cases h1 : a = j
        · subst h1
          by_cases h2 : i = a
          · simp [h2]
          · simp [h2]
        · by_cases h2 : a = i
          · simp [h2]
          · simp [h1, h2]
  · apply List.Pairwise.map _ ?_ List.nodup_range
    intro a b hab
    split <;> split <;> (try split) <;> (try split) <;> omega

theorem swap_perm (b : Nat → VMemMapBlock) {n i j : Nat} (hi : i < n) (hj : j < n) :
    (stored (swap b i j) n).Perm (stored b n) := by
  have h := (swapIndex_perm hi hj).map b
  rw [List.map_map] at h
  refine List.Perm.trans (List.Perm.of_eq ?_) h
  unfold stored
  apply List.map_congr_left
  intro x _
  simp only [swap, setAt, Function.comp]
  split
  · rfl
  · split <;> rfl

theorem sortLoop_perm {n : Nat} : ∀ (k : Nat) (b : Nat → VMemMapBlock) (start : Nat),
    start + k < n → (stored (sortLoop b start k) n).Perm (stored b n)
  | 0, _, _, _ => List.Perm.refl _
  | k + 1, b, start, h => by
    unfold sortLoop
    split
    · exact (sortLoop_perm k _ _ (by omega)).trans (swap_perm b (by omega) (by omega))
    · exact List.Perm.refl _

theorem rsortLoop_perm {n : Nat} : ∀ (k : Nat) (b : Nat → VMemMapBlock) (start : Nat),
    start < n → (stored (rsortLoop b start k) n).Perm (stored b n)
  | 0, _, _, _ => List.Perm.refl _
  | k + 1, b, start, h => by
    unfold rsortLoop
    split
    · exact (rsortLoop_perm k _ _ (by omega)).trans (swap_perm b h (by omega))
    · exact List.Perm.refl _

theorem sort_perm (b : Nat → VMemMapBlock) {start n : Nat} (h : start < n) :
    (stored (sortVirtualMemoryMap b start (n - start)) n).Perm (stored b n) := by
  unfold sortVirtualMemoryMap
  split
  · exact sortLoop_perm _ _ _ (by omega)
  · exact List.Perm.refl _

theorem rsort_perm (b : Nat → VMemMapBlock) {start n m : Nat} (h : start < n) :
    (stored (rsortVirtualMemoryMap b start m) n).Perm (stored b n) := by
  unfold rsortVirtualMemoryMap
  split
  · exact rsortLoop_perm _ _ _ h
  · exact List.Perm.refl _

/-- Overwriting one entry changes one block of the list. -/
theorem stored_setAt (b : Nat → VMemMapBlock) {n i : Nat} (hi : i < n) :
    ∃ rest, (stored b n).Perm (b i :: rest) ∧ ∀ x, (stored (setAt b i x) n).Perm (x :: rest) := by
  have hp := List.perm_cons_erase (List.mem_range.mpr hi)
  refine ⟨((List.range n).erase i).map b, hp.map b, fun x => ?_⟩
  have h := hp.map (setAt b i x)
  rw [List.map_cons, show setAt b i x i = x by simp [setAt]] at h
  refine h.trans (List.Perm.of_eq ?_)
  congr 1
  apply List.map_congr_left
  intro j hj
  have hne : j ≠ i := fun he => by
    subst he
    exact (List.Nodup.mem_erase_iff List.nodup_range).mp hj |>.1 rfl
  simp [setAt, hne]

/-- An entry past the stored ones does not show. -/
theorem stored_setAt_past (b : Nat → VMemMapBlock) {n i : Nat} (x : VMemMapBlock) (hi : n ≤ i) :
    stored (setAt b i x) n = stored b n := by
  unfold stored
  apply List.map_congr_left
  intro j hj
  have hne : j ≠ i := by
    have := List.mem_range.mp hj
    omega
  simp [setAt, hne]

theorem stored_succ (b : Nat → VMemMapBlock) (n : Nat) : stored b (n + 1) = stored b n ++ [b n] := by
  simp [stored, List.range_succ]

/-- The search settles on a stored block that has the pages. -/
theorem selectFrom_spec (b : Nat → VMemMapBlock) (pages : Nat) : ∀ (k i : Nat), 1 ≤ i →
    (∀ j, j < i → pages ≤ (b j).availablePages) →
      selectFrom b pages k i < i + k ∧ pages ≤ (b (selectFrom b pages k i)).availablePages
  | 0, i, hi, h => by
    simp only [selectFrom]
    exact ⟨by omega, h _ (by omega)⟩
  | k + 1, i, hi, h => by
    unfold selectFrom
    split
    · exact ⟨by omega, h _ (by omega)⟩
    · rename_i hge
      have ih := selectFrom_spec b pages k (i + 1) (by omega) fun j hj => by
        by_cases he : j = i
        · subst he
          omega
        · exact h j (by omega)
      exact ⟨by omega, ih.2⟩

/-- An exhausted block in front of blocks with pages is bubbled to the very end. -/
theorem sortLoop_last : ∀ (k : Nat) (b : Nat → VMemMapBlock) (start : Nat),
    (b start).availablePages = 0 → (∀ i, 1 ≤ i → i ≤ k → 0 < (b (start + i)).availablePages) →
      sortLoop b start k (start + k) = b start
  | 0, _, _, _, _ => rfl
  | k + 1, b, start, h0, h => by
    have h1 := h 1 (Nat.le_refl _) (by omega)
    have hs : (swap b start (start + 1)) (start + 1) = b start := by simp [swap, setAt]
    have ih := sortLoop_last k (swap b start (start + 1)) (start + 1) (by rw [hs]; exact h0) (by
      intro i hi hk
      have e : (swap b start (start + 1)) (start + 1 + i) = b (start + (i + 1)) := by
        simp only [swap, setAt]
        rw [if_neg (by omega), if_neg (by omega)]
        congr 1
        omega
      rw [e]
      exact h (i + 1) (by omega) (by omega))
    unfold sortLoop
    rw [if_pos (by omega), show start + (k + 1) = start + 1 + k by omega, ih, hs]

/-- The sort after a cut leaves an exhausted block at the very end, unless it was the last
but one. -/
theorem sort_exhausted {b : Nat → VMemMapBlock} {n i : Nat} {x : VMemMapBlock}
    (hx : x.availablePages = 0) (hi : i < n) (hn : i + 2 ≠ n)
    (hpos : ∀ j, i < j → j < n → 0 < (b j).availablePages) :
    sortVirtualMemoryMap (setAt b i x) i (n - i) (n - 1) = x := by
  have hself : setAt b i x i = x := by simp [setAt]
  unfold sortVirtualMemoryMap
  by_cases h3 : n - i > 2
  · rw [if_pos h3]
    have hlast := sortLoop_last (n - i - 1) (setAt b i x) i (by rw [hself]; exact hx) (by
      intro j hj hk
      have e : setAt b i x (i + j) = b (i + j) := by
        unfold setAt
        rw [if_neg (by omega)]
      rw [e]
      exact hpos (i + j) (by omega) (by omega))
    rw [hself] at hlast
    rw [show n - 1 = i + (n - i - 1) by omega]
    exact hlast
  · rw [if_neg h3, show n - 1 = i by omega]
    exact hself

/-- Without the exhausted block the list is the others. -/
theorem stored_exhausted {b : Nat → VMemMapBlock} {n i : Nat} {x : VMemMapBlock}
    (hx : x.availablePages = 0) (hi : i < n) (hn : i + 2 ≠ n)
    (hpos : ∀ j, i < j → j < n → 0 < (b j).availablePages) {rest : List VMemMapBlock}
    (hset : (stored (setAt b i x) n).Perm (x :: rest)) :
    (stored (sortVirtualMemoryMap (setAt b i x) i (n - i)) (n - 1)).Perm rest := by
  have hlast := sort_exhausted hx hi hn hpos
  have hsort := (sort_perm (setAt b i x) hi).trans hset
  obtain ⟨m, rfl⟩ : ∃ m, n = m + 1 := ⟨n - 1, by omega⟩
  rw [Nat.add_sub_cancel] at hlast ⊢
  rw [stored_succ, hlast] at hsort
  exact (List.perm_append_singleton _ _).symm.trans hsort |>.cons_inv

/-! ## Sorting restores the order -/

/-- The first `n` entries are in descending order of `availablePages`. -/
def Descending (b : Nat → VMemMapBlock) (n : Nat) : Prop :=
  ∀ i j, i ≤ j → j < n → (b j).availablePages ≤ (b i).availablePages

/-- The order holds among the entries other than `p`. -/
def DescendingBut (b : Nat → VMemMapBlock) (n p : Nat) : Prop :=
  ∀ i j, i ≤ j → j < n → i ≠ p → j ≠ p → (b j).availablePages ≤ (b i).availablePages

theorem Descending.but {b : Nat → VMemMapBlock} {n : Nat} (h : Descending b n) (p : Nat)
    (x : VMemMapBlock) : DescendingBut (setAt b p x) n p := by
  intro i j hij hj hi hj'
  simp only [setAt, if_neg hi, if_neg hj']
  exact h i j hij hj

theorem Descending.mono {b : Nat → VMemMapBlock} {n m : Nat} (h : Descending b n) (hm : m ≤ n) :
    Descending b m := fun i j hij hj => h i j hij (by omega)

/-- Only the neighbours of `p` are left to compare. -/
theorem DescendingBut.descending {b : Nat → VMemMapBlock} {n p : Nat} (h : DescendingBut b n p)
    (hl : ∀ i, i < p → (b p).availablePages ≤ (b i).availablePages)
    (hr : ∀ j, p < j → j < n → (b j).availablePages ≤ (b p).availablePages) : Descending b n := by
  intro i j hij hj
  by_cases hi : i = p
  · subst hi
    rcases Nat.eq_or_lt_of_le hij with rfl | hlt
    · exact Nat.le_refl _
    · exact hr j hlt hj
  · by_cases hj' : j = p
    · subst hj'
      exact hl i (by omega)
    · exact h i j hij hj hi hj'

theorem swap_apply (b : Nat → VMemMapBlock) (i j x : Nat) :
    swap b i j x = if x = j then b i else if x = i then b j else b x := by
  simp only [swap, setAt]

/-- Exchanging an entry with its neighbour moves the gap in the order. -/
theorem DescendingBut.swap {b : Nat → VMemMapBlock} {n p q : Nat} (h : DescendingBut b n p)
    (hq : q = p + 1 ∨ p = q + 1) (hn : q < n) : DescendingBut (swap b p q) n q := by
  intro i j hij hj hi hj'
  rw [swap_apply, swap_apply, if_neg hi, if_neg hj']
  by_cases hip : i = p
  · by_cases hjp : j = p
    · exact Nat.le_of_eq (by rw [if_pos hip, if_pos hjp])
    · rw [if_pos hip, if_neg hjp]
      exact h q j (by omega) hj (by omega) hjp
  · by_cases hjp : j = p
    · rw [if_neg hip, if_pos hjp]
      exact h i q (by omega) (by omega) hip (by omega)
    · rw [if_neg hip, if_neg hjp]
      exact h i j hij hj hip hjp

/-- Bubbling a lowered entry to the right restores the order. -/
theorem sortLoop_descending (n : Nat) : ∀ (k : Nat) (b : Nat → VMemMapBlock) (start : Nat),
    start + k + 1 = n → DescendingBut b n start →
      (∀ i, i < start → (b start).availablePages ≤ (b i).availablePages) →
        Descending (sortLoop b start k) n
  | 0, b, start, hn, h, hl => h.descending hl fun j h1 h2 => by omega
  | k + 1, b, start, hn, h, hl => by
    unfold sortLoop
    split
    · rename_i hgt
      refine sortLoop_descending n k _ _ (by omega) (h.swap (.inl rfl) (by omega)) fun i hi => ?_
      rw [swap_apply, swap_apply, if_pos rfl, if_neg (by omega)]
      by_cases he : i = start
      · rw [if_pos he]
        omega
      · rw [if_neg he]
        exact hl i (by omega)
    · rename_i hle
      refine h.descending hl fun j h1 h2 => ?_
      have := h (start + 1) j (by omega) h2 (by omega) (by omega)
      omega

/-- Bubbling a new last entry to the left restores the order. -/
theorem rsortLoop_descending (n : Nat) : ∀ (start : Nat) (b : Nat → VMemMapBlock),
    start < n → DescendingBut b n start →
      (∀ j, start < j → j < n → (b j).availablePages ≤ (b start).availablePages) →
        Descending (rsortLoop b start start) n
  | 0, b, hn, h, hr => h.descending (fun i hi => by omega) hr
  | start + 1, b, hn, h, hr => by
    unfold rsortLoop
    rw [Nat.add_sub_cancel]
    split
    · rename_i hlt
      refine rsortLoop_descending n start _ (by omega) (h.swap (.inr rfl) (by omega)) fun j h1 h2 => ?_
      rw [swap_apply, swap_apply, if_pos rfl, if_neg (by omega)]
      by_cases he : j = start + 1
      · rw [if_pos he]
        omega
      · rw [if_neg he]
        exact hr j (by omega) h2
    · rename_i hge
      refine h.descending (fun i hi => ?_) hr
      have := h i start (by omega) (by omega) (by omega) (by omega)
      omega

/-- The carve: the cut block is bubbled to its place among those behind it. -/
theorem sort_ordered {b : Nat → VMemMapBlock} {n index : Nat} {x : VMemMapBlock}
    (h : Descending b n) (hi : index < n) (hx : x.availablePages ≤ (b index).availablePages)
    (hok : index + 2 = n → (b (index + 1)).availablePages ≤ x.availablePages) :
    Descending (sortVirtualMemoryMap (setAt b index x) index (n - index)) n := by
  have hself : setAt b index x index = x := by simp [setAt]
  have hother : ∀ i, i ≠ index → setAt b index x i = b i := fun i hne => by simp [setAt, hne]
  have hl : ∀ i, i < index →
      (setAt b index x index).availablePages ≤ (setAt b index x i).availablePages := by
    intro i hlt
    rw [hself, hother i (by omega)]
    exact Nat.le_trans hx (h i index (by omega) hi)
  unfold sortVirtualMemoryMap
  by_cases h3 : n - index > 2
  · rw [if_pos h3]
    exact sortLoop_descending n _ _ _ (by omega) (h.but index x) hl
  · rw [if_neg h3]
    -- at most one entry stands behind the cut one
    refine (h.but index x).descending hl fun j hj hn => ?_
    rw [hself, hother j (by omega), show j = index + 1 by omega]
    exact hok (by omega)

/-- The insertion: the new last block is bubbled to its place among those before it. -/
theorem rsort_ordered {b : Nat → VMemMapBlock} {n : Nat} {x : VMemMapBlock} (h : Descending b n)
    (hok : n = 1 → x.availablePages ≤ (b 0).availablePages) :
    Descending (rsortVirtualMemoryMap (setAt b n x) n (n + 1)) (n + 1) := by
  have hself : setAt b n x n = x := by simp [setAt]
  have hbut : DescendingBut (setAt b n x) (n + 1) n := by
    intro i j hij hj hi hj'
    exact h.but n x i j hij (by omega) hi hj'
  unfold rsortVirtualMemoryMap
  by_cases h3 : n + 1 > 2
  · rw [if_pos h3, Nat.add_sub_cancel]
    exact rsortLoop_descending (n + 1) n _ (by omega) hbut fun j h1 h2 => by omega
  · rw [if_neg h3]
    refine hbut.descending (fun i hi => ?_) fun j h1 h2 => by omega
    rw [hself, show i = 0 by omega, show setAt b n x 0 = b 0 by simp [setAt]; omega]
    exact hok (by omega)

end BadLands.Mm.VirtualMemory
