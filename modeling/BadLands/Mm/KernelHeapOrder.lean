import BadLands.Mm.KernelHeapRanges

/-!
# Kernel virtual ranges: the order of the stored blocks

`AllocateCore` decides from the first stored block alone whether a request can be met, and
its best-fit scan stops at the first block that is too small. Both are right as long as the
blocks stay in descending order of `availablePages`, which is what the two sort functions
are called for.

Their guard `n > 2` leaves two entries alone that may be out of order: the last two, after a
cut of the last but one, and the only two, after a free into a list of one block.
`StepOrdered` excludes these two steps when the entries end up in the wrong order, and
`kernelHeap_complete` says that a run without them keeps the list sorted and refuses only
what no stored block can serve.
-/
namespace BadLands.Mm.KernelHeapRanges

open BadLands.Core BadLands.Core.Machine BadLands.Mm.Layout BadLands.Mm.VirtualMemory

/-- The list is sorted, and a request for some pages that is refused although its pages
could be mapped is larger than every stored block. -/
structure Complete (s : Sys) : Prop where
  ordered : Descending s.vm.blocks s.vm.ctx.storedBlocks
  refuses : ∀ pages : UInt64, 1 ≤ pages.toNat → (allocateCore s.vm pages.toNat true).1 = none →
    ∀ b ∈ s.free, b.availablePages < pages.toNat

/-- The step does not leave two entries in the wrong order that the sort functions skip. -/
def StepOrdered (s : Sys) : Op → Prop
  | .allocateKernelHeap pages mapOk =>
    ¬ (mapOk = true ∧ 1 ≤ pages.toNat ∧ pages.toNat ≤ (s.vm.blocks 0).availablePages ∧
      selectIndex s.vm pages.toNat + 2 = s.vm.ctx.storedBlocks ∧
      (s.vm.blocks (selectIndex s.vm pages.toNat)).availablePages <
        (s.vm.blocks (selectIndex s.vm pages.toNat + 1)).availablePages + pages.toNat)
  | .freeKernelHeap r released _ => released = true → s.vm.ctx.storedBlocks = 1 →
      r.availablePages ≤ (s.vm.blocks 0).availablePages

instance (s : Sys) (op : Op) : Decidable (StepOrdered s op) :=
  match op with
  | .allocateKernelHeap .. => inferInstanceAs (Decidable (¬ _))
  | .freeKernelHeap .. => inferInstanceAs (Decidable (_ → _))

/-- An exhausted block is smaller than the one behind it. -/
theorem StepOrdered.stepOk {s : Sys} {op : Op} (h : Inv s) (ho : StepOrdered s op) :
    StepOk s op := by
  cases op with
  | freeKernelHeap r released expanded => exact trivial
  | allocateKernelHeap pages mapOk =>
    intro hbad
    obtain ⟨hm, h2, hle, hn, h0⟩ := hbad
    have hlast := (h.block (i := selectIndex s.vm pages.toNat + 1) (by omega)).1
    exact ho ⟨hm, by omega, hle, hn, by omega⟩

/-- The invariant of a run: the accounting, and the order. -/
structure InvOrdered (s : Sys) : Prop extends Inv s where
  ordered : Descending s.vm.blocks s.vm.ctx.storedBlocks

theorem InvOrdered.complete {s : Sys} (h : InvOrdered s) : Complete s where
  ordered := h.ordered
  refuses pages hpos hnone b hb := by
    obtain ⟨i, hi, rfl⟩ := List.mem_map.mp hb
    have hfirst := h.ordered 0 i (Nat.zero_le _) (List.mem_range.mp hi)
    apply Classical.byContradiction
    intro hge
    have ha : Admitted s pages.toNat := admitted_of_first h.toInv (by omega) (by omega)
    obtain ⟨vm, hcall, -⟩ := allocate_fields h.toInv ha
    rw [hcall] at hnone
    cases hnone

theorem inv_ordered_boot (junk : Nat → VMemMapBlock) : InvOrdered (boot junk) where
  toInv := inv_boot junk
  ordered i j hij hj := by
    have e : (boot junk).vm.ctx.storedBlocks = 1 := rfl
    obtain rfl : i = j := by omega
    exact Nat.le_refl _

theorem allocate_ordered {s s' : Sys} {pages : UInt64} {mapOk : Bool} (h : InvOrdered s)
    (hok : StepOrdered s (.allocateKernelHeap pages mapOk))
    (hs : step s (.allocateKernelHeap pages mapOk) = some s') :
    Descending s'.vm.blocks s'.vm.ctx.storedBlocks := by
  rcases allocate_cases h.toInv hs with he | ⟨hm, ha, -, hcall⟩
  · exact he ▸ h.ordered
  · obtain ⟨vm, hcall', hblocks, hstored, -⟩ := allocate_fields h.toInv ha
    rw [hcall] at hcall'
    obtain rfl : s'.vm = vm := congrArg Prod.snd hcall'
    have hsel := h.select ha
    have hsorted := sort_ordered h.ordered hsel.1 (x := leftOver s pages.toNat)
      (Nat.sub_le _ _) (by
        intro hn
        apply Classical.byContradiction
        intro hlt
        have hfirst := ha.1
        have hpos := ha.2
        have hle := hsel.2.1
        refine hok ⟨hm, by omega, by omega, hn, ?_⟩
        change ¬ _ ≤ (s.vm.blocks (selectIndex s.vm pages.toNat)).availablePages - pages.toNat at hlt
        omega)
    rw [hblocks, hstored]
    exact hsorted.mono (Nat.sub_le _ _)

theorem free_ordered {s s' : Sys} {r : VMemMapBlock} {released expanded : Bool} (h : InvOrdered s)
    (hok : StepOrdered s (.freeKernelHeap r released expanded))
    (hs : step s (.freeKernelHeap r released expanded) = some s') :
    Descending s'.vm.blocks s'.vm.ctx.storedBlocks := by
  obtain ⟨-, ⟨he, -⟩ | ⟨hreleased, he⟩⟩ := free_cases hs
  · rw [he]
    exact h.ordered
  · have hbound := h.bounds.2
    have hstored : Word.add s.vm.ctx.storedBlocks 1 = s.vm.ctx.storedBlocks + 1 :=
      Word.add_eq (by omega)
    have hsorted := rsort_ordered h.ordered (hok hreleased)
    rw [he]
    unfold storeBlock
    simp only [roomFor_blocks, roomFor_storedBlocks, hstored]
    exact hsorted

theorem step_inv_ordered (s : Sys) (op : Op) (s' : Sys) (h : InvOrdered s) (hok : StepOrdered s op)
    (hs : step s op = some s') : InvOrdered s' where
  toInv := step_inv s op s' h.toInv (hok.stepOk h.toInv) hs
  ordered := by
    cases op with
    | allocateKernelHeap pages mapOk => exact allocate_ordered h hok hs
    | freeKernelHeap r released expanded => exact free_ordered h hok hs

/-- In a run whose steps all keep clear of the skipped pairs, the stored blocks are sorted
in every state, and what is refused fits in none of them. -/
theorem kernelHeap_complete (junk : Nat → VMemMapBlock) (ops : List Op)
    (hok : AllSteps step StepOrdered (boot junk) ops) :
    AllStates step Complete (boot junk) ops :=
  AllStates.mono (fun _ h => h.complete) ops (boot junk)
    (allStates_of_allSteps step_inv_ordered ops (boot junk) (inv_ordered_boot junk) hok)

/-- Four pages and two pages, both given back. -/
def reorderRun : List Op := [
  .allocateKernelHeap 4 true,
  .allocateKernelHeap 2 true,
  .freeKernelHeap ⟨0xFFFFFE7FFFFFC000, 4⟩ true true,
  .freeKernelHeap ⟨0xFFFFFE7FFFFFA000, 2⟩ true true]

theorem kernelHeap_complete_four_calls :
    AllStates step Complete (boot fun _ => ⟨0, 0⟩) reorderRun :=
  kernelHeap_complete _ _ (by decide +kernel)

/-- Three pages cut from the block of four leave one page in front of two. -/
theorem unsorted_blocks : ¬ AllStates step Complete (boot fun _ => ⟨0, 0⟩)
    (reorderRun ++ [.allocateKernelHeap 3 true]) := by
  intro h
  have hrun : (run step (boot fun _ => ⟨0, 0⟩) (reorderRun ++ [.allocateKernelHeap 3 true])).map
      (fun s => decide (3 = s.vm.ctx.storedBlocks ∧
        (s.vm.blocks 1).availablePages < (s.vm.blocks 2).availablePages)) = some true := by
    decide +kernel
  obtain ⟨s, hs, hb⟩ := Option.map_eq_some_iff.mp hrun
  obtain ⟨hn, hlt⟩ := of_decide_eq_true hb
  have hle := (h.of_run _ _ _ hs).ordered 1 2 (by decide) (by omega)
  omega

end BadLands.Mm.KernelHeapRanges
