import BadLands.Core.Machine
import BadLands.Core.Ranges
import BadLands.Mm.VirtualMemory
import Mathlib.Algebra.GroupWithZero.Nat

/-!
# Kernel virtual ranges: what `AllocateKernelHeap` hands out

The free blocks of `VirtualMemory` together with the ranges its callers hold (`Sys.live`).
A run is a sequence of `AllocateKernelHeap` and `FreeKernelHeap` calls in which each free
passes back one live range; every outcome of the paging calls is allowed.

`Safe`: live ranges are inside the zone and pairwise disjoint, no stored block has more
pages than the zone (a wrapped count would), and `availableMemory` is the sum of the
stored pages.

An allocation that takes all pages of the last block but one leaves an exhausted entry
there: the sort after it has `n = 2` entries to look at and does nothing, and the entry
dropped is the last one, whose pages are lost. `StepOk` excludes exactly that step;
`kernelHeap_safe_iff` says that a run is safe iff all its steps meet `StepOk`, and
`lost_block` is the shortest history that breaks it.
-/
namespace BadLands.Mm.KernelHeapRanges

open BadLands.Core BadLands.Core.Machine BadLands.Core.Ranges BadLands.Mm.Layout
open BadLands.Mm.VirtualMemory

structure Sys where
  vm : State
  live : List VMemMapBlock

inductive Op where
  | allocateKernelHeap (pages : UInt64) (mapOk : Bool)
  | freeKernelHeap (range : VMemMapBlock) (released expanded : Bool)

/-- `none`: the range passed to `FreeKernelHeap` is not live, or the call panics on an
unmapped management page. -/
def step (s : Sys) : Op → Option Sys
  | .allocateKernelHeap pages mapOk =>
    if allocateFaults s.vm pages.toNat mapOk then none
    else match allocateCore s.vm pages.toNat mapOk with
      | (none, vm) => some ⟨vm, s.live⟩
      | (some p, vm) => some ⟨vm, ⟨p, pages.toNat⟩ :: s.live⟩
  | .freeKernelHeap r released expanded =>
    if r ∉ s.live ∨ freeFaults s.vm r.virtualStart r.availablePages released expanded then none
    else match freeCore s.vm r.virtualStart r.availablePages released expanded with
      | (true, vm) => some ⟨vm, s.live.erase r⟩
      | (false, vm) => some ⟨vm, s.live⟩

def boot (junk : Nat → VMemMapBlock) : Sys := ⟨setup junk, []⟩

/-! ## The property and the condition -/

def toRange (b : VMemMapBlock) : Range := ⟨b.virtualStart, b.availablePages * frameSize⟩

def zone : Range := ⟨kernelHeap.start, kernelHeap.limit⟩

def pagesOf (l : List VMemMapBlock) : Nat := (l.map (·.availablePages)).sum

/-- The stored blocks of the array. -/
def Sys.free (s : Sys) : List VMemMapBlock := stored s.vm.blocks s.vm.ctx.storedBlocks

structure Safe (s : Sys) : Prop where
  inZone : ∀ r ∈ s.live, (toRange r).Sub zone
  disjoint : Packed (s.live.map toRange)
  notWrapped : ∀ b ∈ s.free, b.availablePages ≤ kernelHeap.limit / frameSize
  counted : s.vm.ctx.availableMemory = frameSize * pagesOf s.free

/-- The step does not take, from the last stored block but one, exactly all its pages. -/
def StepOk (s : Sys) : Op → Prop
  | .allocateKernelHeap pages mapOk =>
    ¬ (mapOk = true ∧ 2 ≤ pages.toNat ∧ pages.toNat ≤ (s.vm.blocks 0).availablePages ∧
      selectIndex s.vm pages.toNat + 2 = s.vm.ctx.storedBlocks ∧
      (s.vm.blocks (selectIndex s.vm pages.toNat)).availablePages = pages.toNat)
  | .freeKernelHeap .. => True

/-! ## Invariant -/

/-- Free and live ranges together are non-empty, disjoint and inside the zone, and account
for all of it; when no block is stored, the stale first entry is an exhausted one. -/
structure Inv (s : Sys) : Prop where
  inZone : ∀ b ∈ s.live ++ s.free, (toRange b).Sub zone ∧ 0 < b.availablePages
  packed : Packed ((s.live ++ s.free).map toRange)
  counted : s.vm.ctx.availableMemory = frameSize * pagesOf s.free
  total : frameSize * pagesOf (s.live ++ s.free) = kernelHeap.limit
  emptied : s.vm.ctx.storedBlocks = 0 → (s.vm.blocks 0).availablePages = 0

theorem zone_values : zone = ⟨0xFFFF810000000000, 0x7D8000000000⟩ := by decide

theorem frameSize_eq : frameSize = 4096 := rfl

theorem limit_eq : kernelHeap.limit = 0x7D8000000000 := by decide

theorem pagesOf_perm {l l' : List VMemMapBlock} (h : l.Perm l') : pagesOf l = pagesOf l' :=
  (h.map _).sum_nat

theorem pagesOf_cons (b : VMemMapBlock) (l : List VMemMapBlock) :
    pagesOf (b :: l) = b.availablePages + pagesOf l := by
  simp [pagesOf]

theorem pagesOf_append (l l' : List VMemMapBlock) : pagesOf (l ++ l') = pagesOf l + pagesOf l' := by
  simp [pagesOf]

theorem length_le_pagesOf : ∀ l : List VMemMapBlock, (∀ b ∈ l, 0 < b.availablePages) →
    l.length ≤ pagesOf l
  | [], _ => Nat.zero_le _
  | b :: l, h => by
    have h1 := h b List.mem_cons_self
    have h2 := length_le_pagesOf l fun x hx => h x (List.mem_cons_of_mem _ hx)
    rw [pagesOf_cons, List.length_cons]
    omega

/-- The invariant only looks at the blocks up to their order. -/
theorem inv_of_perm {s s' : Sys} (hi : Inv s) (hp : (s'.live ++ s'.free).Perm (s.live ++ s.free))
    (hc : s'.vm.ctx.availableMemory = frameSize * pagesOf s'.free)
    (he : s'.vm.ctx.storedBlocks = 0 → (s'.vm.blocks 0).availablePages = 0) : Inv s' where
  inZone b hb := hi.inZone b (hp.mem_iff.mp hb)
  packed := (packed_perm (hp.map toRange)).mpr hi.packed
  counted := hc
  total := by rw [pagesOf_perm hp]; exact hi.total
  emptied := he

theorem Inv.safe {s : Sys} (h : Inv s) : Safe s where
  inZone r hr := (h.inZone r (List.mem_append_left _ hr)).1
  disjoint := by
    have := h.packed
    rw [List.map_append] at this
    exact (List.pairwise_append.mp this).1
  notWrapped b hb := by
    have h1 := (h.inZone b (List.mem_append_right _ hb)).1.1
    have h2 := (h.inZone b (List.mem_append_right _ hb)).1.2
    simp only [zone_values, toRange, frameSize_eq] at h1 h2 ⊢
    rw [limit_eq]
    omega
  counted := h.counted

theorem inv_boot (junk : Nat → VMemMapBlock) : Inv (boot junk) := by
  have hf : (boot junk).free = [⟨kernelHeap.start, kernelHeap.limit / frameSize⟩] := rfl
  have hl : (boot junk).live = [] := rfl
  refine ⟨?_, ?_, ?_, ?_, fun h => by cases h⟩
  · intro b hb
    rw [hl, hf, List.nil_append, List.mem_singleton] at hb
    subst hb
    decide
  · rw [hl, hf]
    exact List.pairwise_singleton _ _
  · rw [hf]
    rfl
  · rw [hl, hf]
    rfl

/-- Bounds that keep the 64-bit arithmetic from wrapping. -/
theorem Inv.bounds {s : Sys} (h : Inv s) :
    s.vm.ctx.availableMemory ≤ 0x7D8000000000 ∧ s.vm.ctx.storedBlocks ≤ 0x7D8000000 := by
  have ht := h.total
  have hc := h.counted
  have hl := length_le_pagesOf s.free fun b hb => (h.inZone b (List.mem_append_right _ hb)).2
  have hlen : s.free.length = s.vm.ctx.storedBlocks := by simp [Sys.free, stored]
  rw [pagesOf_append, limit_eq, frameSize_eq] at ht
  rw [frameSize_eq] at hc
  omega

theorem Inv.block {s : Sys} (h : Inv s) {i : Nat} (hi : i < s.vm.ctx.storedBlocks) :
    0 < (s.vm.blocks i).availablePages ∧ (toRange (s.vm.blocks i)).Sub zone :=
  have hm : s.vm.blocks i ∈ s.live ++ s.free :=
    List.mem_append_right _ (List.mem_map.mpr ⟨i, List.mem_range.mpr hi, rfl⟩)
  ⟨(h.inZone _ hm).2, (h.inZone _ hm).1⟩

/-! ## Allocation -/

section
variable {s : Sys} {pages : Nat}

/-- Not refused: the memory suffices, the first block has the pages, and some are asked for. -/
def Admitted (s : Sys) (pages : Nat) : Prop :=
  ¬ (s.vm.ctx.availableMemory < Word.mul pages frameSize ∨
    (s.vm.blocks 0).availablePages < pages) ∧ pages ≠ 0

theorem allocate_refused (h : ¬ Admitted s pages) (mapOk : Bool) :
    allocateCore s.vm pages mapOk = (none, s.vm) := by
  unfold allocateCore
  unfold Admitted at h
  by_cases hr : s.vm.ctx.availableMemory < Word.mul pages frameSize ∨
      (s.vm.blocks 0).availablePages < pages
  · rw [if_pos hr]
  · rw [if_neg hr, if_pos (Classical.byContradiction fun h0 => h ⟨hr, h0⟩)]

theorem Inv.stored_pos_of_first (h : Inv s) (h0 : (s.vm.blocks 0).availablePages ≠ 0) :
    0 < s.vm.ctx.storedBlocks := Nat.pos_of_ne_zero fun hz => h0 (h.emptied hz)

theorem Inv.stored_pos (h : Inv s) (ha : Admitted s pages) : 0 < s.vm.ctx.storedBlocks := by
  obtain ⟨hr, h0⟩ := ha
  exact h.stored_pos_of_first (by omega)

/-- The selected block is stored and has the pages; for one page it is the last one. -/
theorem Inv.select (h : Inv s) (ha : Admitted s pages) :
    selectIndex s.vm pages < s.vm.ctx.storedBlocks ∧
      pages ≤ (s.vm.blocks (selectIndex s.vm pages)).availablePages ∧
      (pages = 1 → selectIndex s.vm pages + 1 = s.vm.ctx.storedBlocks) := by
  have hpos := h.stored_pos ha
  have hb := h.bounds.2
  obtain ⟨hr, h0⟩ := ha
  unfold selectIndex
  by_cases h1 : pages = 1
  · rw [if_pos h1, Word.sub_eq hpos, h1]
    have hlast := (h.block (Nat.sub_lt hpos Nat.one_pos)).1
    exact ⟨by omega, hlast, fun _ => by omega⟩
  · rw [if_neg h1]
    have := selectFrom_spec s.vm.blocks pages (s.vm.ctx.storedBlocks - 1) 1 (Nat.le_refl 1)
      fun j hj => by
        have e : j = 0 := by omega
        subst e
        omega
    exact ⟨by omega, this.2, fun e => absurd e h1⟩

/-- The block the call cuts. -/
def chosen (s : Sys) (pages : Nat) : VMemMapBlock := s.vm.blocks (selectIndex s.vm pages)

/-- What is left of it. -/
def leftOver (s : Sys) (pages : Nat) : VMemMapBlock :=
  ⟨(chosen s pages).virtualStart, (chosen s pages).availablePages - pages⟩

/-- The range handed out: the tail of the chosen block. -/
def taken (s : Sys) (pages : Nat) : VMemMapBlock :=
  ⟨(chosen s pages).virtualStart + ((chosen s pages).availablePages - pages) * frameSize, pages⟩

/-- What a successful call makes of the array. -/
structure Allocated (s : Sys) (pages : Nat) (vm : State) : Prop where
  blocks : vm.blocks = sortVirtualMemoryMap (setAt s.vm.blocks (selectIndex s.vm pages) (leftOver s pages))
    (selectIndex s.vm pages) (s.vm.ctx.storedBlocks - selectIndex s.vm pages)
  stored : vm.ctx.storedBlocks = s.vm.ctx.storedBlocks - (if (leftOver s pages).availablePages = 0 then 1 else 0)
  memory : vm.ctx.availableMemory = s.vm.ctx.availableMemory - pages * frameSize

theorem taken_eta (s : Sys) (pages : Nat) :
    VMemMapBlock.mk (taken s pages).virtualStart pages = taken s pages := rfl

theorem Inv.chosen_fits (h : Inv s) (ha : Admitted s pages) :
    pages ≤ (chosen s pages).availablePages ∧ (toRange (chosen s pages)).Sub zone ∧
      (chosen s pages).availablePages < 2 ^ 64 := by
  have hs := h.select ha
  have hz := (h.block hs.1).2
  refine ⟨hs.2.1, hz, ?_⟩
  have h1 := hz.1
  have h2 := hz.2
  simp only [zone_values, toRange, frameSize_eq] at h1 h2
  unfold chosen
  omega

/-- A call whose mapping fails puts the pages back. -/
theorem allocate_unmapped (h : Inv s) (ha : Admitted s pages) :
    allocateCore s.vm pages false = (none, s.vm) := by
  have hf := h.chosen_fits ha
  have hsame : setAt s.vm.blocks (selectIndex s.vm pages)
      ⟨(chosen s pages).virtualStart,
        Word.add (Word.sub (chosen s pages).availablePages pages) pages⟩ = s.vm.blocks := by
    rw [Word.add_sub_cancel hf.2.2 (by omega)]
    funext j
    unfold setAt chosen
    split
    · rename_i e
      rw [e]
    · rfl
  unfold allocateCore
  rw [if_neg ha.1, if_neg ha.2]
  exact Prod.ext rfl (congrArg (fun b => { s.vm with blocks := b }) hsame)

/-- The fields of the state after a successful call. -/
theorem allocate_fields (h : Inv s) (ha : Admitted s pages) :
    ∃ vm, allocateCore s.vm pages true = (some (taken s pages).virtualStart, vm) ∧ Allocated s pages vm := by
  have hf := h.chosen_fits ha
  have hsel := h.select ha
  have hb := h.bounds
  have h1 := hf.2.1.1
  have h2 := hf.2.1.2
  simp only [zone_values, toRange, frameSize_eq] at h1 h2
  have hmul : Word.mul pages frameSize = pages * frameSize := Word.mul_eq (by
    rw [frameSize_eq]
    omega)
  have hleft : Word.sub (chosen s pages).availablePages pages =
      (chosen s pages).availablePages - pages := Word.sub_eq hf.1
  have hrest : Word.sub s.vm.ctx.storedBlocks (selectIndex s.vm pages) =
      s.vm.ctx.storedBlocks - selectIndex s.vm pages := Word.sub_eq (by omega)
  have hmem : pages * frameSize ≤ s.vm.ctx.availableMemory := by
    have := ha.1
    rw [hmul] at this
    omega
  obtain ⟨vm, hcall, hblocks, hstored, havail⟩ :=
    allocateCore_mapped ha.1 ha.2 (b := chosen s pages) rfl
  rw [hleft] at hcall hblocks hstored
  rw [hrest] at hblocks
  rw [hmul, Word.sub_eq hmem] at havail
  rw [Word.mul_eq (by rw [frameSize_eq]; omega), Word.add_eq (by rw [frameSize_eq]; omega)] at hcall
  refine ⟨vm, hcall, hblocks, ?_, havail⟩
  rw [hstored, Word.sub_eq (by omega)]
  unfold leftOver
  split <;> simp only [Nat.sub_zero]

/-- The sort leaves an exhausted block at the very end, unless it is the last but one. -/
theorem sorted_last (h : Inv s) (ha : Admitted s pages) (h0 : (leftOver s pages).availablePages = 0)
    (hn : selectIndex s.vm pages + 2 ≠ s.vm.ctx.storedBlocks) :
    sortVirtualMemoryMap (setAt s.vm.blocks (selectIndex s.vm pages) (leftOver s pages))
      (selectIndex s.vm pages) (s.vm.ctx.storedBlocks - selectIndex s.vm pages)
      (s.vm.ctx.storedBlocks - 1) = leftOver s pages := by
  exact sort_exhausted h0 (h.select ha).1 hn fun j _ hj => (h.block hj).1

/-- The stored blocks after a successful call, next to those before. -/
theorem allocate_free (h : Inv s) (ha : Admitted s pages)
    (hn : (leftOver s pages).availablePages = 0 →
      selectIndex s.vm pages + 2 ≠ s.vm.ctx.storedBlocks) {vm : State}
    (hvm : Allocated s pages vm) :
    ∃ rest, s.free.Perm (chosen s pages :: rest) ∧
      (stored vm.blocks vm.ctx.storedBlocks).Perm
        (if (leftOver s pages).availablePages = 0 then rest else leftOver s pages :: rest) := by
  obtain ⟨hblocks, hstored, -⟩ := hvm
  have hsel := (h.select ha).1
  obtain ⟨rest, hp, hset⟩ := stored_setAt s.vm.blocks hsel
  refine ⟨rest, hp, ?_⟩
  by_cases h0 : (leftOver s pages).availablePages = 0
  · rw [if_pos h0] at hstored ⊢
    rw [hstored, hblocks]
    exact stored_exhausted h0 hsel (hn h0) (fun j _ hj => (h.block hj).1) (hset (leftOver s pages))
  · rw [if_neg h0] at hstored ⊢
    rw [hstored, hblocks]
    exact (sort_perm _ hsel).trans (hset (leftOver s pages))

/-- A call that empties its block moves it, whole, to the caller. -/
theorem taken_eq_chosen (h : Inv s) (ha : Admitted s pages)
    (h0 : (leftOver s pages).availablePages = 0) : taken s pages = chosen s pages := by
  have hle := (h.chosen_fits ha).1
  have he : (chosen s pages).availablePages = pages := by
    change (chosen s pages).availablePages - pages = 0 at h0
    omega
  unfold taken
  rw [he, Nat.sub_self, Nat.zero_mul, Nat.add_zero]
  exact congrArg (VMemMapBlock.mk _) he.symm

theorem allocate_inv (h : Inv s) (ha : Admitted s pages)
    (hn : (leftOver s pages).availablePages = 0 →
      selectIndex s.vm pages + 2 ≠ s.vm.ctx.storedBlocks) {vm : State}
    (hvm : Allocated s pages vm) : Inv ⟨vm, taken s pages :: s.live⟩ := by
  obtain ⟨rest, hp, hfree⟩ := allocate_free h ha hn hvm
  obtain ⟨hblocks, hstored, havail⟩ := hvm
  have hfits := h.chosen_fits ha
  have hsum : pagesOf s.free = (chosen s pages).availablePages + pagesOf rest := by
    rw [pagesOf_perm hp, pagesOf_cons]
  have hcount := h.counted
  rw [hsum, frameSize_eq] at hcount
  rw [frameSize_eq] at havail
  have hleft : (leftOver s pages).availablePages = (chosen s pages).availablePages - pages := rfl
  by_cases h0 : (leftOver s pages).availablePages = 0
  · rw [if_pos h0] at hfree hstored
    refine inv_of_perm h ?_ ?_ ?_
    · rw [taken_eq_chosen h ha h0, List.cons_append]
      exact ((hfree.append_left _).cons _).trans (List.perm_middle.symm.trans (hp.symm.append_left _))
    · change vm.ctx.availableMemory = frameSize * pagesOf (stored vm.blocks vm.ctx.storedBlocks)
      rw [pagesOf_perm hfree, frameSize_eq]
      omega
    · intro hz
      change vm.ctx.storedBlocks = 0 at hz
      have hlast := sorted_last h ha h0 (hn h0)
      have hpos := h.stored_pos ha
      rw [← hblocks, show s.vm.ctx.storedBlocks - 1 = 0 by omega] at hlast
      change (vm.blocks 0).availablePages = 0
      rw [hlast]
      exact h0
  · rw [if_neg h0] at hfree hstored
    have hperm : ((taken s pages :: s.live) ++ Sys.free ⟨vm, taken s pages :: s.live⟩).Perm
        (taken s pages :: leftOver s pages :: (s.live ++ rest)) :=
      ((hfree.append_left _).trans List.perm_middle).cons _
    have hold : (s.live ++ s.free).Perm (chosen s pages :: (s.live ++ rest)) :=
      (hp.append_left _).trans List.perm_middle
    have hcut : toRange (chosen s pages) = ⟨(chosen s pages).virtualStart,
        (leftOver s pages).availablePages * frameSize + pages * frameSize⟩ := by
      unfold toRange
      rw [hleft, ← Nat.add_mul, Nat.sub_add_cancel hfits.1]
    have hz := hfits.2.1
    rw [hcut] at hz
    obtain ⟨hz1, hz2⟩ := hz
    simp only at hz1 hz2
    refine ⟨?_, ?_, ?_, ?_, ?_⟩
    · intro b hb
      rcases List.mem_cons.mp (hperm.mem_iff.mp hb) with hb | hb
      · subst hb
        refine ⟨⟨?_, ?_⟩, Nat.pos_of_ne_zero ha.2⟩
        · exact Nat.le_trans hz1 (Nat.le_add_right _ _)
        · change (chosen s pages).virtualStart + (leftOver s pages).availablePages * frameSize +
            pages * frameSize ≤ _
          omega
      · rcases List.mem_cons.mp hb with hb | hb
        · subst hb
          refine ⟨⟨hz1, ?_⟩, Nat.pos_of_ne_zero h0⟩
          change (chosen s pages).virtualStart + (leftOver s pages).availablePages * frameSize ≤ _
          omega
        · exact h.inZone b (hold.mem_iff.mpr (List.mem_cons_of_mem _ hb))
    · have hpk := (packed_perm (hold.map toRange)).mp h.packed
      rw [List.map_cons, hcut] at hpk
      exact (packed_perm (hperm.map toRange)).mpr (packed_cut hpk)
    · change vm.ctx.availableMemory = frameSize * pagesOf (stored vm.blocks vm.ctx.storedBlocks)
      rw [pagesOf_perm hfree, pagesOf_cons, hleft, frameSize_eq]
      omega
    · have ht := h.total
      rw [pagesOf_perm hold, pagesOf_cons] at ht
      rw [pagesOf_perm hperm, pagesOf_cons, pagesOf_cons, ← ht, hleft]
      congr 1
      have : (taken s pages).availablePages = pages := rfl
      omega
    · intro hz
      have hpos := h.stored_pos ha
      change vm.ctx.storedBlocks = 0 at hz
      omega

/-- Taking all pages of the last block but one loses the last block. -/
theorem allocate_loses (h : Inv s) (ha : Admitted s pages)
    (h0 : (chosen s pages).availablePages = pages)
    (hn : selectIndex s.vm pages + 2 = s.vm.ctx.storedBlocks) {vm : State}
    (hvm : Allocated s pages vm) (live : List VMemMapBlock) : ¬ Safe ⟨vm, live⟩ := by
  intro hsafe
  obtain ⟨hblocks, hstored, havail⟩ := hvm
  have hleft : (leftOver s pages).availablePages = 0 := by
    change (chosen s pages).availablePages - pages = 0
    omega
  obtain ⟨rest, hp, hset⟩ := stored_setAt s.vm.blocks (h.select ha).1
  have hall := hset (leftOver s pages)
  have hsort : vm.blocks = setAt s.vm.blocks (selectIndex s.vm pages) (leftOver s pages) := by
    rw [hblocks, ← hn, Nat.add_sub_cancel_left]
    rfl
  rw [if_pos hleft, ← hn] at hstored
  have hlast := (h.block (i := selectIndex s.vm pages + 1) (by omega)).1
  rw [← hn, stored_succ, ← hsort] at hall
  have hsum := pagesOf_perm hall
  rw [pagesOf_append, pagesOf_cons, pagesOf_cons, hleft] at hsum
  have hold : pagesOf s.free = pages + pagesOf rest := by
    have hs := pagesOf_perm hp
    rw [pagesOf_cons] at hs
    exact hs.trans (congrArg (· + pagesOf rest) h0)
  have hkept : vm.blocks (selectIndex s.vm pages + 1) = s.vm.blocks (selectIndex s.vm pages + 1) := by
    rw [hsort]
    unfold setAt
    rw [if_neg (by omega)]
  have hcount := hsafe.counted
  change vm.ctx.availableMemory = frameSize * pagesOf (stored vm.blocks vm.ctx.storedBlocks) at hcount
  have hcount0 := h.counted
  rw [hstored, havail, show selectIndex s.vm pages + 2 - 1 = selectIndex s.vm pages + 1 by omega,
    frameSize_eq] at hcount
  rw [hold, frameSize_eq] at hcount0
  rw [hkept] at hsum
  omega

end

/-! ## Release -/

/-- The stored blocks after a release: those before and the released range. -/
theorem storeBlock_free (vm : State) (r : VMemMapBlock) (hn : vm.ctx.storedBlocks + 1 < 2 ^ 64) :
    (stored (storeBlock vm r).blocks (storeBlock vm r).ctx.storedBlocks).Perm
      (r :: stored vm.blocks vm.ctx.storedBlocks) := by
  have hs : (storeBlock vm r).ctx.storedBlocks = vm.ctx.storedBlocks + 1 := Word.add_eq hn
  rw [hs]
  refine (rsort_perm _ (Nat.lt_succ_self _)).trans ?_
  rw [stored_succ, stored_setAt_past _ _ (Nat.le_refl _), show setAt vm.blocks vm.ctx.storedBlocks r
    vm.ctx.storedBlocks = r by simp [setAt]]
  exact List.perm_append_singleton _ _

theorem store_inv {s : Sys} (h : Inv s) {r : VMemMapBlock} (hr : r ∈ s.live) {vm : State}
    (hb : vm.blocks = s.vm.blocks) (hn : vm.ctx.storedBlocks = s.vm.ctx.storedBlocks)
    (ha : vm.ctx.availableMemory = s.vm.ctx.availableMemory) :
    Inv ⟨storeBlock vm r, s.live.erase r⟩ := by
  have hbound := h.bounds
  have hfree := storeBlock_free vm r (by omega)
  rw [hb, hn] at hfree
  have hlive := List.perm_cons_erase hr
  have htotal := h.total
  rw [pagesOf_append, pagesOf_perm hlive, pagesOf_cons, limit_eq, frameSize_eq] at htotal
  have hcount := h.counted
  rw [frameSize_eq] at hcount
  refine inv_of_perm h ?_ ?_ ?_
  · refine (hfree.append_left _).trans (List.perm_middle.trans ?_)
    exact (hlive.append_right _).symm
  · change Word.add vm.ctx.availableMemory (Word.mul r.availablePages frameSize) =
      frameSize * pagesOf (stored (storeBlock vm r).blocks (storeBlock vm r).ctx.storedBlocks)
    rw [pagesOf_perm hfree, pagesOf_cons, ha, frameSize_eq, Word.mul_eq (by omega),
      Word.add_eq (by omega)]
    change _ = 4096 * (r.availablePages + pagesOf s.free)
    omega
  · intro hz
    have hs : (storeBlock vm r).ctx.storedBlocks = vm.ctx.storedBlocks + 1 := Word.add_eq (by omega)
    change (storeBlock vm r).ctx.storedBlocks = 0 at hz
    omega

/-- The state `FreeCore` stores the range in: a page is added when no slot is left. -/
def roomFor (s : Sys) : State :=
  if s.vm.ctx.availableBlockMemory = 0 then expand s.vm else s.vm

/-- What a release step does: nothing to the list, or it stores the range. -/
theorem free_cases {s s' : Sys} {r : VMemMapBlock} {released expanded : Bool}
    (hs : step s (.freeKernelHeap r released expanded) = some s') : r ∈ s.live ∧
      ((s'.vm = s.vm ∧ (0 < r.availablePages → s' = s)) ∨
        (released = true ∧ s' = ⟨storeBlock (roomFor s) r, s.live.erase r⟩)) := by
  simp only [step] at hs
  split at hs
  · cases hs
  · rename_i hguard
    refine ⟨Classical.byContradiction fun hn => hguard (.inl hn), ?_⟩
    by_cases h0 : r.availablePages = 0
    · rw [freeCore, if_pos h0] at hs
      cases hs
      exact .inl ⟨rfl, fun hpos => by omega⟩
    · rw [freeCore, if_neg h0] at hs
      cases released with
      | false =>
        simp only [Bool.not_false, if_true, Option.some.injEq] at hs
        subst hs
        exact .inl ⟨rfl, fun _ => rfl⟩
      | true =>
        simp only [Bool.not_true, Bool.false_eq_true, if_false] at hs
        unfold roomFor
        by_cases habm : s.vm.ctx.availableBlockMemory = 0
        · rw [if_pos habm] at hs
          cases expanded with
          | false =>
            simp only [Bool.not_false, if_true, Option.some.injEq] at hs
            subst hs
            exact .inl ⟨rfl, fun _ => rfl⟩
          | true =>
            simp only [Bool.not_true, Bool.false_eq_true, if_false, Option.some.injEq] at hs
            rw [if_pos habm]
            exact .inr ⟨rfl, hs.symm⟩
        · rw [if_neg habm] at hs ⊢
          simp only [Option.some.injEq] at hs
          exact .inr ⟨rfl, hs.symm⟩

theorem roomFor_blocks (s : Sys) : (roomFor s).blocks = s.vm.blocks := by
  simp only [roomFor, apply_ite State.blocks, expand_blocks, ite_self]

theorem roomFor_storedBlocks (s : Sys) : (roomFor s).ctx.storedBlocks = s.vm.ctx.storedBlocks := by
  unfold roomFor
  split
  · exact expand_storedBlocks _
  · rfl

theorem roomFor_availableMemory (s : Sys) :
    (roomFor s).ctx.availableMemory = s.vm.ctx.availableMemory := by
  unfold roomFor
  split
  · exact expand_availableMemory _
  · rfl

theorem free_inv {s s' : Sys} {r : VMemMapBlock} {released expanded : Bool} (h : Inv s)
    (hs : step s (.freeKernelHeap r released expanded) = some s') : Inv s' := by
  obtain ⟨hr, ⟨-, he⟩ | ⟨-, he⟩⟩ := free_cases hs
  · rw [he (h.inZone r (List.mem_append_left _ hr)).2]
    exact h
  · rw [he]
    exact store_inv h hr (roomFor_blocks s) (roomFor_storedBlocks s) (roomFor_availableMemory s)

/-! ## Runs -/

/-- What an allocation step does. -/
theorem allocate_cases {s s' : Sys} {pages : UInt64} {mapOk : Bool} (h : Inv s)
    (hs : step s (.allocateKernelHeap pages mapOk) = some s') :
    s' = s ∨ (mapOk = true ∧ Admitted s pages.toNat ∧ s'.live = taken s pages.toNat :: s.live ∧
      allocateCore s.vm pages.toNat true = (some (taken s pages.toNat).virtualStart, s'.vm)) := by
  simp only [step] at hs
  split at hs
  · cases hs
  · by_cases ha : Admitted s pages.toNat
    · cases mapOk with
      | false =>
        rw [allocate_unmapped h ha] at hs
        exact .inl (Option.some.inj hs).symm
      | true =>
        obtain ⟨vm, hcall, -⟩ := allocate_fields h ha
        rw [hcall] at hs
        simp only [taken_eta, Option.some.injEq] at hs
        subst hs
        exact .inr ⟨rfl, ha, rfl, hcall⟩
    · rw [allocate_refused ha] at hs
      exact .inl (Option.some.inj hs).symm

/-- A call that asks for pages the first block has is admitted. -/
theorem admitted_of_first {s : Sys} {pages : Nat} (h : Inv s) (h0 : pages ≠ 0)
    (hle : pages ≤ (s.vm.blocks 0).availablePages) : Admitted s pages := by
  obtain ⟨rest, hp, -⟩ := stored_setAt s.vm.blocks (h.stored_pos_of_first (by omega))
  have hsum := pagesOf_perm hp
  rw [pagesOf_cons] at hsum
  change pagesOf s.free = _ at hsum
  have hcount := h.counted
  have hbound := h.bounds.1
  rw [frameSize_eq] at hcount
  refine ⟨?_, h0⟩
  rw [frameSize_eq, Word.mul_eq (by omega)]
  omega

theorem step_inv (s : Sys) (op : Op) (s' : Sys) (h : Inv s) (hok : StepOk s op)
    (hs : step s op = some s') : Inv s' := by
  cases op with
  | freeKernelHeap r released expanded => exact free_inv h hs
  | allocateKernelHeap pages mapOk =>
    rcases allocate_cases h hs with he | ⟨hm, ha, hlive, hcall⟩
    · exact he ▸ h
    · obtain ⟨vm, hcall', hvm⟩ := allocate_fields h ha
      rw [hcall] at hcall'
      obtain rfl : s'.vm = vm := congrArg Prod.snd hcall'
      obtain ⟨vm, live⟩ := s'
      simp only at hlive
      subst hlive
      refine allocate_inv h ha ?_ hvm
      intro h0 hn
      have hfits := (h.chosen_fits ha).1
      have hsel := (h.select ha).2.2
      have h2 := ha.2
      change (chosen s pages.toNat).availablePages - pages.toNat = 0 at h0
      exact hok ⟨hm, by omega, by have := ha.1; omega, hn,
        show (chosen s pages.toNat).availablePages = _ by omega⟩

theorem step_bad (s : Sys) (op : Op) (s' : Sys) (h : Inv s) (hbad : ¬ StepOk s op)
    (hs : step s op = some s') : ¬ Safe s' := by
  cases op with
  | freeKernelHeap r released expanded => exact absurd trivial hbad
  | allocateKernelHeap pages mapOk =>
    obtain ⟨rfl, h2, hle, hn, h0⟩ := Classical.not_not.mp hbad
    have ha := admitted_of_first h (by omega) hle
    obtain ⟨vm, hcall, hvm⟩ := allocate_fields h ha
    simp only [step] at hs
    split at hs
    · cases hs
    · rw [hcall] at hs
      cases hs
      exact allocate_loses h ha h0 hn hvm _

/-- A run of kernel heap calls is safe exactly when no step takes all pages of the last
stored block but one. -/
theorem kernelHeap_safe_iff (junk : Nat → VMemMapBlock) (ops : List Op) :
    AllStates step Safe (boot junk) ops ↔ AllSteps step StepOk (boot junk) ops :=
  allStates_iff_allSteps (fun _ h => h.safe) step_inv step_bad ops (boot junk) (inv_boot junk)

/-- Two pages, one page, both given back, two pages again, one page. -/
def lostBlockRun : List Op := [
  .allocateKernelHeap 2 true,
  .allocateKernelHeap 1 true,
  .freeKernelHeap ⟨0xFFFFFE7FFFFFE000, 2⟩ true true,
  .freeKernelHeap ⟨0xFFFFFE7FFFFFD000, 1⟩ true true,
  .allocateKernelHeap 2 true,
  .allocateKernelHeap 1 true]

/-- The fifth call loses the one-page block, the sixth takes a page from an exhausted one. -/
theorem lost_block : ¬ AllStates step Safe (boot fun _ => ⟨0, 0⟩) lostBlockRun := by
  intro h
  have hrun : (run step (boot fun _ => ⟨0, 0⟩) lostBlockRun).map
      (fun s => decide (⟨0xFFFFFE7FFFFFE000, 2 ^ 64 - 1⟩ ∈ s.free)) = some true := by decide +kernel
  obtain ⟨s, hs, hb⟩ := Option.map_eq_some_iff.mp hrun
  have hle := (h.of_run _ _ _ hs).notWrapped _ (of_decide_eq_true hb)
  rw [limit_eq] at hle
  exact absurd hle (by decide)

end BadLands.Mm.KernelHeapRanges
