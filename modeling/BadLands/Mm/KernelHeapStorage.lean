import BadLands.Mm.KernelHeapRanges

/-!
# Kernel virtual ranges: the pages the list of blocks lives on

The list of free blocks grows and shrinks by pages: a free that finds no slot left maps the
page behind the stored blocks, an allocation that empties a block gives a page back once two
pages' worth of slots are unused. `StorageMapped` is what the list relies on: the mapped
management pages are a prefix of the zone, as long as the stored entries and the unused
slots together, so every stored entry and the slot of the next free are mapped.

The page given back is the one at `managementBase + availableBlockMemory`, which is always
the second one; the last page is meant. The two coincide only when the list becomes empty.
`StepMapped` excludes the other case (and lists that no longer fit in their zone),
`kernelHeap_storage_mapped` says that a run without it keeps the storage mapped, and
`unmapped_slot` is a history that unmaps the slot of the next free.
-/
namespace BadLands.Mm.KernelHeapRanges

open BadLands.Core BadLands.Core.Machine BadLands.Mm.Layout BadLands.Mm.VirtualMemory

/-- Bytes of the stored entries and of the unused slots. -/
def storageBytes (s : Sys) : Nat :=
  s.vm.ctx.storedBlocks * blockBytes + s.vm.ctx.availableBlockMemory

structure StorageMapped (s : Sys) : Prop where
  whole : storageBytes s % frameSize = 0
  contiguous : ∀ p, s.vm.blockPages p = true ↔ p * frameSize < storageBytes s
  entries : ∀ i, i < s.vm.ctx.storedBlocks → s.vm.mapped i = true
  next : (roomFor s).mapped s.vm.ctx.storedBlocks = true

/-- The step does not give a management page back while entries remain, and does not store
an entry outside the zone. -/
def StepMapped (s : Sys) : Op → Prop
  | .allocateKernelHeap pages mapOk =>
    ¬ (mapOk = true ∧ 1 ≤ pages.toNat ∧ pages.toNat ≤ (s.vm.blocks 0).availablePages ∧
      (s.vm.blocks (selectIndex s.vm pages.toNat)).availablePages = pages.toNat ∧
      (s.vm.ctx.availableBlockMemory + blockBytes) % frameSize = 0 ∧
      s.vm.ctx.availableBlockMemory + blockBytes > frameSize ∧ s.vm.ctx.storedBlocks ≠ 1)
  | .freeKernelHeap _ released _ => released = true →
      s.vm.ctx.storedBlocks * blockBytes < kernelHeapManagement.limit

instance (s : Sys) (op : Op) : Decidable (StepMapped s op) :=
  match op with
  | .allocateKernelHeap .. => inferInstanceAs (Decidable (¬ _))
  | .freeKernelHeap .. => inferInstanceAs (Decidable (_ → _))

/-! ## Invariant -/

/-- The mapped pages are the first `pages` ones and hold the entries and the unused slots,
of which there are less than two pages; when no block is stored, the stale first entry is
an exhausted one. -/
structure InvStorage (s : Sys) (pages : Nat) : Prop where
  bytes : s.vm.ctx.storedBlocks * 16 + s.vm.ctx.availableBlockMemory = 4096 * pages
  mapped : ∀ p, s.vm.blockPages p = true ↔ p < pages
  first : 1 ≤ pages
  slack : s.vm.ctx.availableBlockMemory ≤ 8176
  fits : s.vm.ctx.storedBlocks ≤ 2 ^ 35
  emptied : s.vm.ctx.storedBlocks = 0 → (s.vm.blocks 0).availablePages = 0

theorem managementLimit_eq : kernelHeapManagement.limit = 2 ^ 39 := by decide

theorem blockBytes_eq : blockBytes = 16 := rfl

theorem InvStorage.entry {s : Sys} {pages i : Nat} (h : InvStorage s pages)
    (hi : i < s.vm.ctx.storedBlocks) : s.vm.mapped i = true := by
  have hb := h.bytes
  unfold State.mapped
  rw [blockBytes_eq, frameSize_eq]
  exact (h.mapped _).mpr (by omega)

theorem InvStorage.room {s : Sys} {pages : Nat} (h : InvStorage s pages) :
    InvStorage ⟨roomFor s, s.live⟩ (if s.vm.ctx.availableBlockMemory = 0 then pages + 1 else pages) ∧
      16 ≤ (roomFor s).ctx.availableBlockMemory := by
  have hb := h.bytes
  have hfits := h.fits
  unfold roomFor
  by_cases h0 : s.vm.ctx.availableBlockMemory = 0
  · rw [if_pos h0, if_pos h0]
    have habm : (expand s.vm).ctx.availableBlockMemory = 4096 := by
      simp only [expand, h0, frameSize_eq]
      decide
    refine ⟨⟨?_, ?_, Nat.le_add_left 1 pages, ?_, ?_, ?_⟩, by omega⟩
    · change (expand s.vm).ctx.storedBlocks * 16 + (expand s.vm).ctx.availableBlockMemory = _
      rw [habm, expand_storedBlocks]
      omega
    · intro p
      -- the page behind the stored entries is the first unmapped one
      have hpage : Word.mul s.vm.ctx.storedBlocks 16 / 4096 = pages := by
        rw [Word.mul_eq (by omega)]
        omega
      have hp := h.mapped p
      simp only [expand, blockBytes_eq, frameSize_eq, hpage]
      by_cases he : p = pages
      · simp only [he, if_true, true_iff]
        omega
      · rw [if_neg he, hp]
        omega
    · change (expand s.vm).ctx.availableBlockMemory ≤ _
      omega
    · change (expand s.vm).ctx.storedBlocks ≤ _
      rw [expand_storedBlocks]
      exact hfits
    · change (expand s.vm).ctx.storedBlocks = 0 → ((expand s.vm).blocks 0).availablePages = 0
      rw [expand_storedBlocks, expand_blocks]
      exact h.emptied
  · rw [if_neg h0, if_neg h0]
    exact ⟨h, by omega⟩

theorem InvStorage.storageMapped {s : Sys} {pages : Nat} (h : InvStorage s pages) :
    StorageMapped s where
  whole := by
    unfold storageBytes
    rw [blockBytes_eq, h.bytes, frameSize_eq]
    omega
  contiguous p := by
    unfold storageBytes
    rw [h.mapped, blockBytes_eq, h.bytes, frameSize_eq]
    omega
  entries i hi := h.entry hi
  next := by
    obtain ⟨hroom, hslot⟩ := h.room
    have hb := hroom.bytes
    have hm := hroom.mapped
    simp only at hb hm
    unfold State.mapped
    rw [hm, blockBytes_eq, frameSize_eq, ← roomFor_storedBlocks]
    omega

theorem inv_storage_boot (junk : Nat → VMemMapBlock) : InvStorage (boot junk) 1 where
  bytes := rfl
  mapped p := by
    change (p == 0) = true ↔ _
    rw [beq_iff_eq]
    omega
  first := Nat.le_refl 1
  slack := by
    change frameSize - blockBytes ≤ _
    decide
  fits := by
    change 1 ≤ _
    decide
  emptied h := by cases h

/-! ## Allocation -/

/-- What an allocation does to the storage: nothing, or it drops the last entry. -/
theorem allocateCore_storage (vm : State) (pages : Nat) (mapOk : Bool) :
    ((allocateCore vm pages mapOk).2.ctx.storedBlocks = vm.ctx.storedBlocks ∧
      (allocateCore vm pages mapOk).2.ctx.availableBlockMemory = vm.ctx.availableBlockMemory ∧
      (allocateCore vm pages mapOk).2.blockPages = vm.blockPages ∧
      ((vm.blocks 0).availablePages = 0 → (allocateCore vm pages mapOk).2.blocks = vm.blocks)) ∨
    (mapOk = true ∧ 1 ≤ pages ∧ pages ≤ (vm.blocks 0).availablePages ∧
      Word.sub (vm.blocks (selectIndex vm pages)).availablePages pages = 0 ∧
      (allocateCore vm pages mapOk).2.ctx.storedBlocks = (removeLast vm).ctx.storedBlocks ∧
      (allocateCore vm pages mapOk).2.ctx.availableBlockMemory =
        (removeLast vm).ctx.availableBlockMemory ∧
      (allocateCore vm pages mapOk).2.blockPages = (removeLast vm).blockPages ∧
      (allocateCore vm pages mapOk).2.blocks = sortVirtualMemoryMap (setAt vm.blocks
        (selectIndex vm pages) ⟨(vm.blocks (selectIndex vm pages)).virtualStart, 0⟩)
        (selectIndex vm pages) (Word.sub vm.ctx.storedBlocks (selectIndex vm pages))) := by
  by_cases hr : vm.ctx.availableMemory < Word.mul pages frameSize ∨
      (vm.blocks 0).availablePages < pages
  · simp [allocateCore, if_pos hr]
  · by_cases h0 : pages = 0
    · simp [allocateCore, if_pos h0]
    · have hfirst : (vm.blocks 0).availablePages = 0 → False := by
        intro h
        omega
      cases mapOk with
      | false =>
        simp only [allocateCore, if_neg hr, if_neg h0]
        exact .inl ⟨rfl, rfl, rfl, fun h => absurd h hfirst⟩
      | true =>
        by_cases hleft : Word.sub (vm.blocks (selectIndex vm pages)).availablePages pages = 0
        · right
          refine ⟨rfl, by omega, by omega, hleft, ?_⟩
          simp only [allocateCore, if_neg hr, if_neg h0, Bool.not_true, Bool.false_eq_true, if_false,
            hleft, if_true, removeLast_blocks, and_true]
          simp only [removeLast]
          split <;> exact ⟨rfl, rfl, rfl⟩
        · left
          refine ⟨?_, ?_, ?_, fun h => absurd h hfirst⟩ <;>
            simp only [allocateCore, if_neg hr, if_neg h0, Bool.not_true, Bool.false_eq_true,
              if_false, hleft]

theorem step_allocate_vm {s s' : Sys} {pages : UInt64} {mapOk : Bool}
    (hs : step s (.allocateKernelHeap pages mapOk) = some s') :
    s'.vm = (allocateCore s.vm pages.toNat mapOk).2 := by
  simp only [step] at hs
  split at hs
  · cases hs
  · split at hs
    · rename_i heq
      cases hs
      rw [heq]
    · rename_i heq
      cases hs
      rw [heq]

theorem eq_of_sub_eq_zero {a b : Nat} (hb : b < 2 ^ 64) (h : Word.sub a b = 0) : a = b := by
  unfold Word.sub at h
  split at h <;> omega

/-- The only stored block is the one a request is served from. -/
theorem selectIndex_single {vm : State} (h : vm.ctx.storedBlocks = 1) (pages : Nat) :
    selectIndex vm pages = 0 := by
  unfold selectIndex
  rw [h]
  split
  · decide
  · rfl

/-- `removeLast` keeps the storage in shape, unless it gives a page back too early. -/
theorem removeLast_storage {s : Sys} {pages : Nat} (h : InvStorage s pages)
    (hpos : 0 < s.vm.ctx.storedBlocks)
    (hok : (s.vm.ctx.availableBlockMemory + 16) % 4096 = 0 →
      s.vm.ctx.availableBlockMemory + 16 > 4096 → s.vm.ctx.storedBlocks = 1) :
    (removeLast s.vm).ctx.storedBlocks = s.vm.ctx.storedBlocks - 1 ∧
      (removeLast s.vm).ctx.availableBlockMemory ≤ 8176 ∧
      ∃ n, 1 ≤ n ∧ (s.vm.ctx.storedBlocks - 1) * 16 + (removeLast s.vm).ctx.availableBlockMemory =
        4096 * n ∧ ∀ p, (removeLast s.vm).blockPages p = true ↔ p < n := by
  have hb := h.bytes
  have hslack := h.slack
  have habm : Word.add s.vm.ctx.availableBlockMemory 16 = s.vm.ctx.availableBlockMemory + 16 :=
    Word.add_eq (by omega)
  refine ⟨?_, ?_⟩
  · rw [removeLast_storedBlocks, Word.sub_eq (by omega)]
  · simp only [removeLast, blockBytes_eq, frameSize_eq, habm]
    split
    · rename_i hc
      have hone := hok hc.1 hc.2
      have h8176 : s.vm.ctx.availableBlockMemory = 8176 := by omega
      have hsub : Word.sub (8176 + 16) 4096 = 4096 := by decide
      rw [h8176, hsub]
      refine ⟨show 4096 ≤ 8176 by decide, 1, Nat.le_refl 1, ?_, fun p => ?_⟩
      · change _ + 4096 = _
        omega
      have hp := h.mapped p
      have hdiv : 4096 / 4096 = 1 := by decide
      simp only [hdiv]
      by_cases he : p = 1
      · simp only [he, if_true, Bool.false_eq_true, false_iff]
        omega
      · rw [if_neg he, hp]
        omega
    · rename_i hc
      exact ⟨by simp only; omega, pages, h.first, by simp only; omega, h.mapped⟩

theorem allocate_storage {s s' : Sys} {n : Nat} {pages : UInt64} {mapOk : Bool} (h : InvStorage s n)
    (hok : StepMapped s (.allocateKernelHeap pages mapOk))
    (hs : step s (.allocateKernelHeap pages mapOk) = some s') : ∃ n', InvStorage s' n' := by
  have hvm := step_allocate_vm hs
  rcases allocateCore_storage s.vm pages.toNat mapOk with
    ⟨hstored, habm, hpages, hblocks⟩ | ⟨hm, h1, hle, hsub, hstored, habm, hpages, hblocks⟩
  · rw [← hvm] at hstored habm hpages hblocks
    refine ⟨n, by rw [hstored, habm]; exact h.bytes, by rw [hpages]; exact h.mapped, h.first,
      by rw [habm]; exact h.slack, by rw [hstored]; exact h.fits, fun hz => ?_⟩
    have h0 := h.emptied (hstored ▸ hz)
    rw [hblocks h0]
    exact h0
  · rw [← hvm] at hstored habm hpages hblocks
    have hpos : 0 < s.vm.ctx.storedBlocks := by
      apply Nat.pos_of_ne_zero
      intro hz
      have := h.emptied hz
      omega
    have hall := eq_of_sub_eq_zero pages.toNat_lt hsub
    obtain ⟨hcount, hslack, n', hfirst, hbytes, hmapped⟩ := removeLast_storage h hpos (by
      intro h2 h3
      apply Classical.byContradiction
      intro hone
      exact hok ⟨hm, h1, hle, hall, h2, h3, hone⟩)
    have hfits := h.fits
    rw [hcount] at hstored
    refine ⟨n', by rw [hstored, habm]; exact hbytes, by rw [hpages]; exact hmapped, hfirst,
      by rw [habm]; exact hslack, by rw [hstored]; omega, fun hz => ?_⟩
    -- the last entry went: it was the first one, and nothing was sorted
    have hone : s.vm.ctx.storedBlocks = 1 := by omega
    rw [hblocks, selectIndex_single hone, hone]
    rfl

/-! ## Release -/

theorem free_storage {s s' : Sys} {n : Nat} {r : VMemMapBlock} {released expanded : Bool}
    (h : InvStorage s n) (hok : StepMapped s (.freeKernelHeap r released expanded))
    (hs : step s (.freeKernelHeap r released expanded) = some s') : ∃ n', InvStorage s' n' := by
  obtain ⟨-, ⟨he, -⟩ | ⟨hreleased, he⟩⟩ := free_cases hs
  · refine ⟨n, ?_, ?_, h.first, ?_, ?_, ?_⟩ <;> rw [he]
    · exact h.bytes
    · exact h.mapped
    · exact h.slack
    · exact h.fits
    · exact h.emptied
  · obtain ⟨hroom, hslot⟩ := h.room
    have hbytes := hroom.bytes
    have hslack := hroom.slack
    have hzone := hok hreleased
    simp only at hbytes hslack
    rw [blockBytes_eq, managementLimit_eq, ← roomFor_storedBlocks] at hzone
    have hstored : (storeBlock (roomFor s) r).ctx.storedBlocks =
        (roomFor s).ctx.storedBlocks + 1 := Word.add_eq (by omega)
    have habm : (storeBlock (roomFor s) r).ctx.availableBlockMemory =
        (roomFor s).ctx.availableBlockMemory - 16 := Word.sub_eq hslot
    rw [he]
    refine ⟨_, ?_, hroom.mapped, hroom.first, ?_, ?_, fun hz => ?_⟩
    · change (storeBlock (roomFor s) r).ctx.storedBlocks * 16 +
        (storeBlock (roomFor s) r).ctx.availableBlockMemory = _
      rw [hstored, habm, ← hbytes]
      omega
    · change (storeBlock (roomFor s) r).ctx.availableBlockMemory ≤ _
      omega
    · change (storeBlock (roomFor s) r).ctx.storedBlocks ≤ _
      omega
    · change (storeBlock (roomFor s) r).ctx.storedBlocks = 0 at hz
      omega

/-! ## Mapped storage is enough: no call faults -/

theorem mem_selectTouches {b : Nat → VMemMapBlock} {pages j : Nat} : ∀ {k i : Nat},
    j ∈ selectTouches b pages k i → j < i + k
  | 0, _, h => by cases h
  | k + 1, i, h => by
    unfold selectTouches at h
    rcases List.mem_cons.mp h with rfl | h
    · omega
    · split at h
      · cases h
      · have := mem_selectTouches h
        omega

theorem mem_sortTouches {j : Nat} : ∀ {k : Nat} {b : Nat → VMemMapBlock} {start : Nat},
    j ∈ sortTouches b start k → j ≤ start + k
  | 0, _, _, h => by cases h
  | k + 1, b, start, h => by
    unfold sortTouches at h
    rcases List.mem_cons.mp h with rfl | h
    · omega
    · split at h
      · have := mem_sortTouches h
        omega
      · cases h

theorem mem_rsortTouches {j : Nat} : ∀ {k : Nat} {b : Nat → VMemMapBlock} {start : Nat},
    j ∈ rsortTouches b start k → j ≤ start
  | 0, _, _, h => by cases h
  | k + 1, b, start, h => by
    unfold rsortTouches at h
    rcases List.mem_cons.mp h with rfl | h
    · omega
    · split at h
      · have := mem_rsortTouches h
        omega
      · cases h

theorem selectIndex_lt {vm : State} {pages : Nat} (hpos : 0 < vm.ctx.storedBlocks)
    (h : pages ≤ (vm.blocks 0).availablePages) : selectIndex vm pages < vm.ctx.storedBlocks := by
  unfold selectIndex
  split
  · rw [Word.sub_eq (by omega)]
    omega
  · have := (selectFrom_spec vm.blocks pages (vm.ctx.storedBlocks - 1) 1 (Nat.le_refl 1)
      fun j hj => by rw [show j = 0 by omega]; exact h).1
    omega

/-- An allocation touches stored entries, and the first entry. -/
theorem mem_allocateTouches {s : Sys} {n pages i : Nat} {mapOk : Bool} (h : InvStorage s n)
    (hi : i ∈ allocateTouches s.vm pages mapOk) : i = 0 ∨ i < s.vm.ctx.storedBlocks := by
  unfold allocateTouches at hi
  split at hi
  · cases hi
  · split at hi
    · exact .inl (List.mem_singleton.mp hi)
    · rename_i hr
      have hpos : 0 < s.vm.ctx.storedBlocks := by
        apply Nat.pos_of_ne_zero
        intro hz
        have := h.emptied hz
        omega
      have hsel := selectIndex_lt hpos (show pages ≤ (s.vm.blocks 0).availablePages by omega)
      rcases List.mem_cons.mp hi with hi | hi
      · exact .inl hi
      · right
        rcases List.mem_cons.mp hi with hi | hi
        · rw [hi]
          exact hsel
        · rcases List.mem_append.mp hi with hi | hi
          · split at hi
            · cases hi
            · have := mem_selectTouches hi
              omega
          · split at hi
            · have := mem_sortTouches hi
              rw [Word.sub_eq (by omega)] at this
              omega
            · cases hi

theorem InvStorage.allocate_runs {s : Sys} {n : Nat} (h : InvStorage s n) (pages : Nat)
    (mapOk : Bool) : allocateFaults s.vm pages mapOk = false := by
  unfold allocateFaults
  rw [Bool.not_eq_false', List.all_eq_true]
  intro i hi
  rcases mem_allocateTouches h hi with rfl | hlt
  · have hfirst := h.first
    refine (h.mapped _).mpr ?_
    rw [Nat.zero_mul, Nat.zero_div]
    omega
  · exact h.entry hlt

theorem InvStorage.free_runs {s : Sys} {n : Nat} (h : InvStorage s n) (r : VMemMapBlock)
    (released expanded : Bool) :
    freeFaults s.vm r.virtualStart r.availablePages released expanded = false := by
  have hfits := h.fits
  have hnext := h.storageMapped.next
  have hall : (storeTouches s.vm r).all (roomFor s).mapped = true := by
    rw [List.all_eq_true]
    intro i hi
    have hle : i ≤ s.vm.ctx.storedBlocks := by
      unfold storeTouches at hi
      rcases List.mem_cons.mp hi with hi | hi
      · omega
      · split at hi
        · exact mem_rsortTouches hi
        · cases hi
    rcases Nat.eq_or_lt_of_le hle with rfl | hlt
    · exact hnext
    · refine h.room.1.entry (s := ⟨roomFor s, s.live⟩) ?_
      change i < (roomFor s).ctx.storedBlocks
      rw [roomFor_storedBlocks]
      exact hlt
  unfold freeFaults
  unfold roomFor at hall
  split
  · rfl
  · split
    · rename_i h0
      rw [if_pos h0] at hall
      rw [hall, Bool.not_true, Bool.and_false]
    · rename_i h0
      rw [if_neg h0] at hall
      rw [hall, Bool.not_true]

/-! ## Runs -/

theorem step_storage (s : Sys) (op : Op) (s' : Sys) (h : ∃ n, InvStorage s n) (hok : StepMapped s op)
    (hs : step s op = some s') : ∃ n, InvStorage s' n := by
  obtain ⟨n, h⟩ := h
  cases op with
  | allocateKernelHeap pages mapOk => exact allocate_storage h hok hs
  | freeKernelHeap r released expanded => exact free_storage h hok hs

/-- In a run that gives no management page back while entries remain, and keeps the list in
its zone, the list's storage is mapped in every state. -/
theorem kernelHeap_storage_mapped (junk : Nat → VMemMapBlock) (ops : List Op)
    (hok : AllSteps step StepMapped (boot junk) ops) :
    AllStates step StorageMapped (boot junk) ops :=
  AllStates.mono (fun _ ⟨_, h⟩ => h.storageMapped) ops (boot junk)
    (allStates_of_allSteps step_storage ops (boot junk) ⟨1, inv_storage_boot junk⟩ hok)

theorem kernelHeap_storage_mapped_six_calls :
    AllStates step StorageMapped (boot fun _ => ⟨0, 0⟩) lostBlockRun :=
  kernelHeap_storage_mapped _ _ (by decide +kernel)

/-! ## A history that unmaps the slot of the next free

One page at a time: 512 pages are taken, all of them are given back, which takes three
management pages, and 257 are taken again.
-/

def takeOne : Op := .allocateKernelHeap 1 true

def giveBack (r : VMemMapBlock) : Op := .freeKernelHeap r true true

/-- The ranges the first `k` calls hand out, the last one first. -/
def handedOut : Nat → List VMemMapBlock
  | 0 => []
  | k + 1 => ⟨kernelHeap.start + (0x7D8000000 - (k + 1)) * frameSize, 1⟩ :: handedOut k

def unmapRun : List Op :=
  List.replicate 512 takeOne ++ (handedOut 512).map giveBack ++ List.replicate 256 takeOne ++ [takeOne]

theorem unmapRun_ends : (run step (boot fun _ => ⟨0, 0⟩) unmapRun).map
    (fun s => (s.vm.blockPages 1, s.vm.ctx.storedBlocks, s.vm.ctx.availableBlockMemory)) =
      some (false, 256, 4096) := by
  decide +kernel

/-- With 256 blocks left, which fill the first management page, the second page is given
back instead of the third: the slot of the next free is gone. -/
theorem unmapped_slot : ¬ AllStates step StorageMapped (boot fun _ => ⟨0, 0⟩) unmapRun := by
  intro h
  obtain ⟨s, hrun, hend⟩ := Option.map_eq_some_iff.mp unmapRun_ends
  obtain ⟨hgone, hstored, havail⟩ : s.vm.blockPages 1 = false ∧ s.vm.ctx.storedBlocks = 256 ∧
      s.vm.ctx.availableBlockMemory = 4096 := by
    simpa only [Prod.mk.injEq] using hend
  have hcontiguous := ((h.of_run _ _ _ hrun).contiguous 1).mpr
  rw [hgone] at hcontiguous
  refine absurd (hcontiguous ?_) Bool.false_ne_true
  unfold storageBytes
  rw [hstored, havail]
  decide

end BadLands.Mm.KernelHeapRanges
