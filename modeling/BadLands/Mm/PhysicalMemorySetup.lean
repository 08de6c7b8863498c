import BadLands.Mm.PhysicalMemoryView

/-!
# Setting up physical memory

`PhysicalMemory::Setup` walks the firmware's memory map, takes the first usable frames for the
bitmaps and the page tables that map them, then marks what is left of the usable descriptors
as free and computes the region flags.

`setup_flags`: after a successful setup the 2MB and 32MB flags are exactly the summaries of
the page bits, the caches are empty, and no page of the DMA zone is free.
-/
namespace BadLands.Mm.PhysicalMemory

open BadLands.Core BadLands.Mm.Layout

/-- mirrors common/include/shared/efi/efi.h:327-344; `other` is a type the firmware defines. -/
inductive EfiMemoryType where
  | reservedMemoryType | loaderCode | loaderData | bootServicesCode | bootServicesData
  | runtimeServicesCode | runtimeServicesData | conventionalMemory | unusableMemory
  | acpiReclaimMemory | acpiMemoryNVS | memoryMappedIO | memoryMappedIOPortSpace | palCode
  | persistentMemory | unacceptedMemoryType | other (code : UInt32)
  deriving DecidableEq, Repr

/-- mirrors common/include/shared/efi/efi.h:346-353. The firmware describes memory inside the
64-bit address space. -/
structure EfiMemoryDescriptor where
  type : EfiMemoryType
  physicalStart : Nat
  numberOfPages : Nat
  inAddressSpace : physicalStart + frameSize * numberOfPages ≤ 2 ^ 64

def EfiMemoryType.usable (t : EfiMemoryType) : Bool :=
  t == .conventionalMemory || t == .loaderCode || t == .loaderData || t == .bootServicesCode ||
    t == .bootServicesData

def pdpteCoverage : Nat := 0x0000000040000000

/-- mirrors kernel/src/mm/PhysicalMemory.cpp:99-100 -/
def totalMetadataSize : Nat :=
  2 * (bitmapWords32MB * 8) + 2 * (bitmapWords2MB * 8) + bitmapWords4KB * 8

/-- The present paging entries, each under the number of the range it covers, with the frame it
points to, and the page size bits of the page directories. -/
structure PageTables where
  pml4e : Nat → Option Nat
  pdpte : Nat → Option Nat
  pde : Nat → Option Nat
  pageSize : Nat → Bool
  pte : Nat → Option Nat

def setEntry (f : Nat → Option Nat) (i : Nat) (frame : Nat) : Nat → Option Nat :=
  fun k => if k = i then some frame else f k

def setFlag (f : Nat → Bool) (i : Nat) (b : Bool) : Nat → Bool := fun k => if k = i then b else f k

/-- A new table is zeroed: the 512 entries it holds are absent. -/
def zeroTable (f : Nat → Option Nat) (i : Nat) : Nat → Option Nat :=
  fun k => if k / 512 = i then none else f k

/-- The variables of the mapping loop. -/
structure Mapping where
  tables : PageTables
  bitmapVirtAddr : Nat
  bytesMapped : Nat
  physAddr : Nat
  numPages : Nat
  ptPhysBase : Nat

section
variable (filterAddress : Nat → Nat)

/-- Takes a frame for a page directory pointer table unless there is one; the flag says so. -/
def ensurePML4E (m : Mapping) : Bool × Mapping :=
  let i := m.bitmapVirtAddr / pml4eCoverage
  if (m.tables.pml4e i).isSome then (false, m)
  else (true, { m with
    tables := { m.tables with
      pml4e := setEntry m.tables.pml4e i (filterAddress m.ptPhysBase)
      pdpte := zeroTable m.tables.pdpte i }
    ptPhysBase := m.ptPhysBase - frameSize
    numPages := m.numPages - 1 })

def ensurePDPTE (m : Mapping) : Bool × Mapping :=
  let i := m.bitmapVirtAddr / pdpteCoverage
  if (m.tables.pdpte i).isSome then (false, m)
  else (true, { m with
    tables := { m.tables with
      pdpte := setEntry m.tables.pdpte i (filterAddress m.ptPhysBase)
      pde := zeroTable m.tables.pde i }
    ptPhysBase := m.ptPhysBase - frameSize
    numPages := m.numPages - 1 })

def ensurePDE (m : Mapping) : Bool × Mapping :=
  let i := m.bitmapVirtAddr / pdeCoverage
  if (m.tables.pde i).isSome then (false, m)
  else (true, { m with
    tables := { m.tables with
      pde := setEntry m.tables.pde i (filterAddress m.ptPhysBase)
      pageSize := setFlag m.tables.pageSize i false
      pte := zeroTable m.tables.pte i }
    ptPhysBase := m.ptPhysBase - frameSize
    numPages := m.numPages - 1 })

/-- One 2MB page of the bitmaps; the flag is `break`.
mirrors kernel/src/mm/PhysicalMemory.cpp:424-482 -/
def mapLargePage (m : Mapping) : Bool × Mapping :=
  let a := ensurePML4E filterAddress m
  if a.1 ∧ a.2.numPages ≤ pdeCoverage / frameSize then (true, a.2)
  else
    let b := ensurePDPTE filterAddress a.2
    if b.1 ∧ b.2.numPages ≤ pdeCoverage / frameSize then (true, b.2)
    else
      let m := b.2
      (false, { m with
        tables := { m.tables with
          pde := setEntry m.tables.pde (m.bitmapVirtAddr / pdeCoverage) (filterAddress m.physAddr)
          pageSize := setFlag m.tables.pageSize (m.bitmapVirtAddr / pdeCoverage) true }
        physAddr := m.physAddr + pdeCoverage
        bitmapVirtAddr := m.bitmapVirtAddr + pdeCoverage
        bytesMapped := m.bytesMapped + pdeCoverage
        numPages := m.numPages - pdeCoverage / frameSize })

/-- One 4KB page of the bitmaps; the flag is `break`.
mirrors kernel/src/mm/PhysicalMemory.cpp:484-549 -/
def mapSmallPage (m : Mapping) : Bool × Mapping :=
  let a := ensurePML4E filterAddress m
  if a.1 ∧ a.2.numPages = 0 then (true, a.2)
  else
    let b := ensurePDPTE filterAddress a.2
    if b.1 ∧ b.2.numPages = 0 then (true, b.2)
    else
      let c := ensurePDE filterAddress b.2
      if c.1 ∧ c.2.numPages = 0 then (true, c.2)
      else
        let m := c.2
        (false, { m with
          tables := { m.tables with
            pte := setEntry m.tables.pte (m.bitmapVirtAddr / pteCoverage) (filterAddress m.physAddr) }
          physAddr := m.physAddr + frameSize
          bitmapVirtAddr := m.bitmapVirtAddr + frameSize
          bytesMapped := m.bytesMapped + frameSize
          numPages := m.numPages - 1 })

def useLargePage (m : Mapping) : Bool :=
  m.physAddr % pdeCoverage == 0 && m.bitmapVirtAddr % pdeCoverage == 0 &&
    decide (totalMetadataSize - m.bytesMapped ≥ pdeCoverage) && decide (m.numPages ≥ pdeCoverage / frameSize)

/-- The `while` that maps the bitmaps from one descriptor; the flag is `bitmaps_mapped`. Each
turn takes at least one page, so `numPages` bounds the turns.
mirrors kernel/src/mm/PhysicalMemory.cpp:414-556 -/
def mapBitmaps : Nat → Mapping → Bool × Mapping
  | 0, m => (false, m)
  | fuel + 1, m =>
    if m.numPages > 0 ∧ m.bytesMapped < totalMetadataSize then
      let m := { m with ptPhysBase := m.physAddr + (m.numPages - 1) * frameSize }
      let r := if useLargePage m then mapLargePage filterAddress m else mapSmallPage filterAddress m
      if r.1 then (false, r.2)
      else if r.2.bytesMapped ≥ totalMetadataSize then (true, r.2)
      else mapBitmaps fuel r.2
    else (false, m)

end

/-- mirrors kernel/src/mm/PhysicalMemory.cpp:559-576 -/
def initializeBitmaps (s : State) : State :=
  { s with
    bitMap32MB := ⟨s.bitMap32MB.anyUsed.fillWords 0 bitmapWords32MB ones,
      s.bitMap32MB.anyFree.fillWords 0 bitmapWords32MB 0#64⟩
    bitMap2MB := ⟨s.bitMap2MB.anyUsed.fillWords 0 bitmapWords2MB ones,
      s.bitMap2MB.anyFree.fillWords 0 bitmapWords2MB 0#64⟩
    bitMap4KB := s.bitMap4KB.fillWords 0 bitmapWords4KB ones }

/-- The loop that marks `n` pages from `physAddr` on as free.
mirrors kernel/src/mm/PhysicalMemory.cpp:579-590 -/
def markFree (s : State) (physAddr : Nat) : Nat → State
  | 0 => s
  | n + 1 =>
    let s := markFree s physAddr n
    let addr := physAddr + n * frameSize
    if isAddressable addr then s.clearPage (addr / frameSize) else s

/-- What `Setup` keeps between descriptors. -/
structure Progress where
  mem : State
  tables : PageTables
  bitmapVirtAddr : Nat
  bytesMapped : Nat
  bitmapsMapped : Bool
  bitmapsInitialized : Bool

/-- The part of a descriptor outside the DMA zone: start and number of pages. The sum is
unsigned, its sign is not.
mirrors kernel/src/mm/PhysicalMemory.cpp:396-411 -/
def skipDMA (d : EfiMemoryDescriptor) : Option (Nat × Nat) :=
  if d.physicalStart < dmaZone.limit then
    let endDMAOffset :=
      Word.sub (Word.add d.physicalStart (Word.mul frameSize d.numberOfPages)) dmaZone.limit
    if endDMAOffset = 0 ∨ endDMAOffset ≥ 2 ^ 63 then none
    else some (dmaZone.limit, endDMAOffset / frameSize)
  else some (d.physicalStart, d.numberOfPages)

/-- mirrors kernel/src/mm/PhysicalMemory.cpp:388-592 -/
def setupDescriptor (filterAddress : Nat → Nat) (g : Progress) (d : EfiMemoryDescriptor) : Progress :=
  if !d.type.usable then g
  else match skipDMA d with
    | none => g
    | some (physAddr, numPages) =>
      if numPages = 0 then g
      else
        let r := mapBitmaps filterAddress numPages ⟨g.tables, g.bitmapVirtAddr, g.bytesMapped, physAddr, numPages, 0⟩
        let g := { g with
          tables := r.2.tables
          bitmapVirtAddr := r.2.bitmapVirtAddr
          bytesMapped := r.2.bytesMapped
          bitmapsMapped := g.bitmapsMapped || r.1 }
        if g.bitmapsMapped then
          let mem := if !g.bitmapsInitialized then initializeBitmaps g.mem else g.mem
          { g with mem := markFree mem r.2.physAddr r.2.numPages, bitmapsInitialized := true }
        else g

/-- mirrors kernel/src/mm/PhysicalMemory.cpp:600-637 -/
def setFlags2MB (s : State) : Nat → State
  | 0 => s
  | region + 1 =>
    let s := setFlags2MB s region
    let hasUsed := (words4KB region).any fun w => s.bitMap4KB w != 0#64
    let hasFree := (words4KB region).any fun w => s.bitMap4KB w != ones
    (s.putUsed2MB region hasUsed).putFree2MB region hasFree

/-- mirrors kernel/src/mm/PhysicalMemory.cpp:640-672 -/
def setFlags32MB (s : State) : Nat → State
  | 0 => s
  | region + 1 =>
    let s := setFlags32MB s region
    let children := List.range' (region * 16) 16
    let hasUsed := children.any fun child => s.bitMap2MB.anyUsed.test child
    let hasFree := children.any fun child => s.bitMap2MB.anyFree.test child
    (s.putUsed32MB region hasUsed).putFree32MB region hasFree

/-- What `Setup` finds: the memory map, the page tables, the address filter, and whatever the
frames that become the bitmaps hold. -/
structure Boot where
  memoryMap : List EfiMemoryDescriptor
  tables : PageTables
  filterAddress : Nat → Nat
  junk32MB : LargeMemoryRegionStatus
  junk2MB : LargeMemoryRegionStatus
  junk4KB : Bitmap

def Boot.progress (b : Boot) : Progress where
  mem := ⟨b.junk32MB, b.junk2MB, b.junk4KB, Ring.empty (fun _ => 0) (by decide),
    Ring.empty (fun _ => 0) (by decide), none⟩
  tables := b.tables
  bitmapVirtAddr := physicalMemoryMap.start
  bytesMapped := 0
  bitmapsMapped := false
  bitmapsInitialized := false

/-- mirrors kernel/src/mm/PhysicalMemory.cpp:373-675 -/
def setup (b : Boot) : Option State :=
  let g := b.memoryMap.foldl (setupDescriptor b.filterAddress) b.progress
  if !g.bitmapsMapped then none
  else some (setFlags32MB (setFlags2MB g.mem bitmapEntries2MB) bitmapEntries32MB)

/-! ## The region flags -/

theorem any_words_free (s : State) (r : Nat) :
    ((words4KB r).any fun w => s.bitMap4KB w != ones) = true ↔ ∃ p, p / 512 = r ∧ ¬ s.view.page p := by
  rw [words4KB_eq, ones, Bitmap.any_ne_ones]
  constructor
  · rintro ⟨p, h1, h2, hp⟩
    exact ⟨p, by omega, by simpa [State.view] using hp⟩
  · rintro ⟨p, hr, hp⟩
    exact ⟨p, by omega, by omega, by simpa [State.view] using hp⟩

/-- One region more. -/
theorem below_succ {P Q : Nat → Prop} (n : Nat) :
    (fun k => if k = n then P n else if k < n then P k else Q k) = fun k => if k < n + 1 then P k else Q k := by
  funext k
  rcases Nat.lt_trichotomy k n with h | rfl | h
  · rw [if_neg (by omega), if_pos h, if_pos (by omega)]
  · rw [if_pos rfl, if_pos (by omega)]
  · rw [if_neg (by omega), if_neg (by omega), if_neg (by omega)]

theorem setFlags2MB_view (s : State) : ∀ n, (setFlags2MB s n).view =
    { s.view with
      used2 := fun k => if k < n then ∃ p, p / 512 = k ∧ s.view.page p else s.view.used2 k
      free2 := fun k => if k < n then ∃ p, p / 512 = k ∧ ¬ s.view.page p else s.view.free2 k }
  | 0 => by simp [setFlags2MB]
  | n + 1 => by
    have ih := setFlags2MB_view s n
    have hused := region2MBHasUsed_iff (setFlags2MB s n) n
    have hfree := any_words_free (setFlags2MB s n) n
    rw [region2MBHasUsed] at hused
    rw [ih] at hused hfree
    simp only [setFlags2MB, view_putFree2MB, view_putUsed2MB, ih, hused, hfree, View.putUsed2, View.putFree2]
    congr 1
    · exact below_succ n
    · exact below_succ n

theorem setFlags32MB_view (s : State) : ∀ n, (setFlags32MB s n).view =
    { s.view with
      used32 := fun k => if k < n then ∃ r, r / 16 = k ∧ s.view.used2 r else s.view.used32 k
      free32 := fun k => if k < n then ∃ r, r / 16 = k ∧ s.view.free2 r else s.view.free32 k }
  | 0 => by simp [setFlags32MB]
  | n + 1 => by
    have ih := setFlags32MB_view s n
    have hused := any_children n fun child => (setFlags32MB s n).bitMap2MB.anyUsed.test child
    have hfree := any_children n fun child => (setFlags32MB s n).bitMap2MB.anyFree.test child
    have hused' : ∀ k, (setFlags32MB s n).bitMap2MB.anyUsed.test k = true ↔ s.view.used2 k := fun k =>
      iff_of_eq (congrFun (congrArg View.used2 ih) k)
    have hfree' : ∀ k, (setFlags32MB s n).bitMap2MB.anyFree.test k = true ↔ s.view.free2 k := fun k =>
      iff_of_eq (congrFun (congrArg View.free2 ih) k)
    simp only [hused', hfree'] at hused hfree
    simp only [setFlags32MB, view_putFree32MB, view_putUsed32MB, ih, hused, hfree, View.putUsed32, View.putFree32]
    congr 1
    · exact below_succ n
    · exact below_succ n

/-! ## The page bits -/

def View.withPages (v : View) (f : Nat → Prop) : View := { v with page := f }

/-- The pages from address `a` on that `n` steps of the marking loop free. -/
def Marked (a n p : Nat) : Prop := a / 4096 ≤ p ∧ p < a / 4096 + n ∧ p < bitmapEntries4KB

theorem markFree_view (s : State) (a : Nat) : ∀ n,
    (markFree s a n).view = s.view.withPages fun p => s.view.page p ∧ ¬ Marked a n p
  | 0 => by
    have hpage : (fun p => s.view.page p ∧ ¬ Marked a 0 p) = s.view.page := funext fun p =>
      propext (and_iff_left fun h => by unfold Marked at h; omega)
    rw [hpage]
    rfl
  | n + 1 => by
    have ih := markFree_view s a n
    have h4 : bitmapEntries4KB = 67108864 := rfl
    have hm : maxAddressableMemory = 0x4000000000 := rfl
    have hdiv : (a + n * frameSize) / frameSize = a / 4096 + n := by
      unfold frameSize
      omega
    rw [markFree]
    by_cases haddr : isAddressable (a + n * frameSize) = true
    · have hlt : a / 4096 + n < bitmapEntries4KB := by
        have := of_decide_eq_true haddr
        unfold frameSize at this
        omega
      rw [if_pos haddr, view_clearPage, ih, hdiv]
      refine congrArg (View.withPages s.view) (funext fun p => propext ?_)
      change p ≠ a / 4096 + n ∧ s.view.page p ∧ ¬ Marked a n p ↔ s.view.page p ∧ ¬ Marked a (n + 1) p
      unfold Marked
      constructor
      · rintro ⟨h1, h2, h3⟩
        exact ⟨h2, by omega⟩
      · rintro ⟨h1, h2⟩
        exact ⟨by omega, h1, by omega⟩
    · have hge : bitmapEntries4KB ≤ a / 4096 + n := by
        have := of_decide_eq_false (eq_false_of_ne_true haddr)
        unfold frameSize at this
        omega
      rw [if_neg haddr, ih]
      refine congrArg (View.withPages s.view) (funext fun p => propext (and_congr_right fun _ => ?_))
      unfold Marked
      omega

theorem initializeBitmaps_page (s : State) {p : Nat} (hp : p < bitmapEntries4KB) :
    (initializeBitmaps s).view.page p := by
  have h4 : bitmapEntries4KB = 67108864 := rfl
  have hw : bitmapWords4KB = 1048576 := rfl
  change (s.bitMap4KB.fillWords 0 bitmapWords4KB ones).test p = true
  rw [Bitmap.test_eq, Bitmap.fillWords, if_pos (by omega), ones, BitVec.getLsbD_allOnes]
  exact decide_eq_true (Nat.mod_lt _ (by omega))

section
variable (filterAddress : Nat → Nat)

/-- Pages are taken from the front and from the back of the descriptor, bytes are mapped. -/
structure Within (m m' : Mapping) : Prop where
  start : m.physAddr ≤ m'.physAddr
  top : m'.physAddr + m'.numPages * frameSize ≤ m.physAddr + m.numPages * frameSize
  bytes : m.bytesMapped ≤ m'.bytesMapped

theorem Within.refl (m : Mapping) : Within m m := ⟨Nat.le_refl _, Nat.le_refl _, Nat.le_refl _⟩

theorem Within.trans {m m' m'' : Mapping} (h : Within m m') (h' : Within m' m'') : Within m m'' :=
  ⟨Nat.le_trans h.start h'.start, Nat.le_trans h'.top h.top, Nat.le_trans h.bytes h'.bytes⟩

/-- An entry is there, or a frame is taken for its table. -/
def Takes (m : Mapping) (r : Bool × Mapping) : Prop :=
  r = (false, m) ∨ r.1 = true ∧ r.2.physAddr = m.physAddr ∧ r.2.bytesMapped = m.bytesMapped ∧ r.2.numPages = m.numPages - 1

theorem Takes.within {m : Mapping} {r : Bool × Mapping} (h : Takes m r) : Within m r.2 := by
  rcases h with rfl | ⟨-, hphys, hbytes, hpages⟩
  · exact .refl m
  · refine ⟨Nat.le_of_eq hphys.symm, ?_, Nat.le_of_eq hbytes.symm⟩
    rw [hphys, hpages]
    exact Nat.add_le_add_left (Nat.mul_le_mul_right _ (Nat.sub_le _ _)) _

/-- Without a `break`, the pages for the mapping are still there. -/
theorem Takes.left {m : Mapping} {r : Bool × Mapping} (h : Takes m r) {n k : Nat} (hbreak : ¬ (r.1 ∧ r.2.numPages ≤ k))
    (hn : n ≤ m.numPages) (hk : n ≤ k + 1) : n ≤ r.2.numPages := by
  rcases h with rfl | ⟨htrue, -, -, -⟩
  · exact hn
  · have hmore : ¬ r.2.numPages ≤ k := fun hle => hbreak ⟨htrue, hle⟩
    omega

theorem ensurePML4E_takes (m : Mapping) : Takes m (ensurePML4E filterAddress m) := by
  unfold ensurePML4E
  extract_lets
  split
  · exact .inl rfl
  · exact .inr ⟨rfl, rfl, rfl, rfl⟩

theorem ensurePDPTE_takes (m : Mapping) : Takes m (ensurePDPTE filterAddress m) := by
  unfold ensurePDPTE
  extract_lets
  split
  · exact .inl rfl
  · exact .inr ⟨rfl, rfl, rfl, rfl⟩

theorem ensurePDE_takes (m : Mapping) : Takes m (ensurePDE filterAddress m) := by
  unfold ensurePDE
  extract_lets
  split
  · exact .inl rfl
  · exact .inr ⟨rfl, rfl, rfl, rfl⟩

theorem mapLargePage_within {m : Mapping} (hpages : pdeCoverage / frameSize ≤ m.numPages) :
    Within m (mapLargePage filterAddress m).2 := by
  unfold mapLargePage
  extract_lets a b m'
  have ha : Takes m a := ensurePML4E_takes filterAddress m
  have hb : Takes a.2 b := ensurePDPTE_takes filterAddress a.2
  split
  · exact ha.within
  · rename_i hbreak
    have hleft := ha.left hbreak hpages (Nat.le_succ _)
    split
    · exact ha.within.trans hb.within
    · rename_i hbreak
      have hleft := hb.left hbreak hleft (Nat.le_succ _)
      refine (ha.within.trans hb.within).trans ⟨Nat.le_add_right _ _, ?_, Nat.le_add_right _ _⟩
      have hcover : pdeCoverage / frameSize = 512 := by decide
      have hlarge : pdeCoverage = 512 * frameSize := by decide
      rw [hcover] at hleft
      change b.2.physAddr + pdeCoverage + (b.2.numPages - pdeCoverage / frameSize) * frameSize ≤ _
      rw [hcover, hlarge, Nat.sub_mul, Nat.add_assoc, Nat.add_sub_cancel' (Nat.mul_le_mul_right _ hleft)]

theorem mapSmallPage_within {m : Mapping} (hpages : 1 ≤ m.numPages) : Within m (mapSmallPage filterAddress m).2 := by
  unfold mapSmallPage
  extract_lets a b c m'
  have ha : Takes m a := ensurePML4E_takes filterAddress m
  have hb : Takes a.2 b := ensurePDPTE_takes filterAddress a.2
  have hc : Takes b.2 c := ensurePDE_takes filterAddress b.2
  split
  · exact ha.within
  · rename_i hbreak
    have hleft := ha.left (k := 0) (by simpa using hbreak) hpages (Nat.le_refl _)
    split
    · exact ha.within.trans hb.within
    · rename_i hbreak
      have hleft := hb.left (k := 0) (by simpa using hbreak) hleft (Nat.le_refl _)
      split
      · exact (ha.within.trans hb.within).trans hc.within
      · rename_i hbreak
        have hleft := hc.left (k := 0) (by simpa using hbreak) hleft (Nat.le_refl _)
        refine ((ha.within.trans hb.within).trans hc.within).trans ⟨Nat.le_add_right _ _, ?_, Nat.le_add_right _ _⟩
        change c.2.physAddr + frameSize + (c.2.numPages - 1) * frameSize ≤ _
        rw [Nat.sub_mul, Nat.one_mul, Nat.add_assoc,
          Nat.add_sub_cancel' (by simpa using Nat.mul_le_mul_right frameSize hleft)]

/-- The loop stays within the descriptor, and says that the bitmaps are mapped when they are. -/
theorem mapBitmaps_within : ∀ (fuel : Nat) (m : Mapping), Within m (mapBitmaps filterAddress fuel m).2 ∧
    ((mapBitmaps filterAddress fuel m).1 = true → totalMetadataSize ≤ (mapBitmaps filterAddress fuel m).2.bytesMapped)
  | 0, m => ⟨.refl m, fun h => by cases h⟩
  | fuel + 1, m => by
    unfold mapBitmaps
    extract_lets m' r
    split
    · rename_i hturn
      have hr : Within m' r.2 := by
        unfold r
        split
        · rename_i hlarge
          simp only [useLargePage, Bool.and_eq_true, decide_eq_true_eq] at hlarge
          exact mapLargePage_within filterAddress hlarge.2
        · exact mapSmallPage_within filterAddress hturn.1
      have hr' : Within m r.2 := ⟨hr.start, hr.top, hr.bytes⟩
      split
      · exact ⟨hr', fun h => by cases h⟩
      · split
        · rename_i hdone
          exact ⟨hr', fun _ => hdone⟩
        · obtain ⟨hrest, hflag⟩ := mapBitmaps_within fuel r.2
          exact ⟨hr'.trans hrest, hflag⟩
    · exact ⟨.refl m, fun h => by cases h⟩

end

theorem skipDMA_start {d : EfiMemoryDescriptor} {a n : Nat} (h : skipDMA d = some (a, n)) :
    dmaZone.limit ≤ a := by
  unfold skipDMA at h
  split at h
  · extract_lets endDMAOffset at h
    split at h
    · cases h
    · cases h
      exact Nat.le_refl _
  · cases h
    omega

/-- Between descriptors: nothing is queued, the bitmaps are initialised once they are mapped,
and no page of the DMA zone has been freed. -/
structure Progress.Good (g : Progress) : Prop where
  queue2 : g.mem.view.queue2 = []
  queue32 : g.mem.view.queue32 = []
  cached : g.mem.view.cached = none
  initialized : g.bitmapsInitialized = g.bitmapsMapped
  dma : g.bitmapsMapped = true → ∀ p, p < bitmapEntries4KB → ¬ g.mem.view.page p → 4096 ≤ p

theorem setupDescriptor_good (filterAddress : Nat → Nat) (d : EfiMemoryDescriptor) (g : Progress) (h : g.Good) :
    (setupDescriptor filterAddress g d).Good := by
  unfold setupDescriptor
  split
  · exact h
  split
  · exact h
  rename_i physAddr numPages hskip
  split
  · exact h
  extract_lets r g' mem
  split
  · rename_i hmapped
    have hphys : dmaZone.limit ≤ r.2.physAddr := Nat.le_trans (skipDMA_start hskip)
      (mapBitmaps_within filterAddress numPages ⟨g.tables, g.bitmapVirtAddr, g.bytesMapped, physAddr, numPages, 0⟩).1.start
    have hmark := markFree_view mem r.2.physAddr r.2.numPages
    have hlimit : dmaZone.limit = 4096 * 4096 := rfl
    have hmem : mem.view.queue2 = [] ∧ mem.view.queue32 = [] ∧ mem.view.cached = none ∧
        ∀ p, p < bitmapEntries4KB → ¬ mem.view.page p → 4096 ≤ p := by
      unfold mem
      split
      · exact ⟨h.queue2, h.queue32, h.cached, fun p hp hn => absurd (initializeBitmaps_page g.mem hp) hn⟩
      · rename_i hinit
        have hinit' : g.bitmapsInitialized = true := by simpa using hinit
        exact ⟨h.queue2, h.queue32, h.cached, h.dma (h.initialized ▸ hinit')⟩
    refine ⟨?_, ?_, ?_, hmapped.symm, fun _ p hp hn => ?_⟩
    · change (markFree mem r.2.physAddr r.2.numPages).view.queue2 = []
      rw [hmark]
      exact hmem.1
    · change (markFree mem r.2.physAddr r.2.numPages).view.queue32 = []
      rw [hmark]
      exact hmem.2.1
    · change (markFree mem r.2.physAddr r.2.numPages).view.cached = none
      rw [hmark]
      exact hmem.2.2.1
    · change ¬ (markFree mem r.2.physAddr r.2.numPages).view.page p at hn
      rw [hmark] at hn
      by_cases hpg : mem.view.page p
      · have hmarked : Marked r.2.physAddr r.2.numPages p := Classical.not_not.mp fun hm => hn ⟨hpg, hm⟩
        have := hmarked.1
        omega
      · exact hmem.2.2.2 p hp hpg
  · rename_i hmapped
    have hor : g.bitmapsMapped = false ∧ r.1 = false := by
      simpa [g'] using hmapped
    refine ⟨h.queue2, h.queue32, h.cached, ?_, fun hm => absurd hm hmapped⟩
    change g.bitmapsInitialized = (g.bitmapsMapped || r.1)
    rw [h.initialized, hor.1, hor.2]
    rfl

/-- After a successful setup. -/
structure Fresh (v : View) : Prop where
  queue2 : v.queue2 = []
  queue32 : v.queue32 = []
  cached : v.cached = none
  used2 : ∀ r, r < bitmapEntries2MB → (v.used2 r ↔ ∃ p, p / 512 = r ∧ v.page p)
  free2 : ∀ r, r < bitmapEntries2MB → (v.free2 r ↔ ∃ p, p / 512 = r ∧ ¬ v.page p)
  used32 : ∀ R, R < bitmapEntries32MB → (v.used32 R ↔ ∃ r, r / 16 = R ∧ v.used2 r)
  free32 : ∀ R, R < bitmapEntries32MB → (v.free32 R ↔ ∃ r, r / 16 = R ∧ v.free2 r)
  dma : ∀ p, p < bitmapEntries4KB → ¬ v.page p → 4096 ≤ p

theorem flags_fresh {g : Progress} (h : g.Good) (hm : g.bitmapsMapped = true) :
    Fresh (setFlags32MB (setFlags2MB g.mem bitmapEntries2MB) bitmapEntries32MB).view := by
  rw [setFlags32MB_view, setFlags2MB_view]
  refine ⟨h.queue2, h.queue32, h.cached, fun r hr => ?_, fun r hr => ?_, fun R hR => ?_, fun R hR => ?_,
    h.dma hm⟩
  · exact iff_of_eq (if_pos hr)
  · exact iff_of_eq (if_pos hr)
  · exact iff_of_eq (if_pos hR)
  · exact iff_of_eq (if_pos hR)

theorem setup_flags {b : Boot} {s : State} (h : setup b = some s) : Fresh s.view := by
  have hgood : ∀ (ds : List EfiMemoryDescriptor) (g : Progress), g.Good →
      (ds.foldl (setupDescriptor b.filterAddress) g).Good := by
    intro ds
    induction ds with
    | nil => exact fun _ hg => hg
    | cons d ds ih => exact fun g hg => ih _ (setupDescriptor_good b.filterAddress d g hg)
  have hboot : b.progress.Good := ⟨rfl, rfl, rfl, rfl, fun hm => by cases hm⟩
  unfold setup at h
  extract_lets g at h
  split at h
  · cases h
  · rename_i hmapped
    cases h
    exact flags_fresh (hgood b.memoryMap b.progress hboot) (by simpa using hmapped)

/-! ## A machine with one free range -/

def noTables : PageTables := ⟨fun _ => none, fun _ => none, fun _ => none, fun _ => false, fun _ => none⟩

/-- Just enough memory for the bitmaps and the page tables that map them. -/
def bitmapFrames : EfiMemoryDescriptor := ⟨.conventionalMemory, dmaZone.limit, 2060, by decide⟩

def bootWith (d : EfiMemoryDescriptor) : Boot where
  memoryMap := [bitmapFrames, d]
  tables := noTables
  filterAddress := id
  junk32MB := ⟨fun _ => 0#64, fun _ => 0#64⟩
  junk2MB := ⟨fun _ => 0#64, fun _ => 0#64⟩
  junk4KB := fun _ => 0#64

/-- The bitmaps take all of `bitmapFrames`. -/
theorem mapBitmaps_bitmapFrames :
    let r := mapBitmaps id 2060 ⟨noTables, physicalMemoryMap.start, 0, dmaZone.limit, 2060, 0⟩
    r.1 = true ∧ r.2.numPages = 0 ∧ r.2.bytesMapped ≥ totalMetadataSize := by
  decide +kernel

/-- A descriptor met after the bitmaps are mapped is marked free as a whole. -/
theorem setupDescriptor_mapped (filterAddress : Nat → Nat) {g : Progress} {d : EfiMemoryDescriptor}
    (hbytes : g.bytesMapped ≥ totalMetadataSize) (hmapped : g.bitmapsMapped = true)
    (hinit : g.bitmapsInitialized = true) (hu : d.type.usable = true)
    (hd : dmaZone.limit ≤ d.physicalStart) (hn : d.numberOfPages ≠ 0) :
    (setupDescriptor filterAddress g d).mem = markFree g.mem d.physicalStart d.numberOfPages ∧
      (setupDescriptor filterAddress g d).bitmapsMapped = true := by
  have hskip : skipDMA d = some (d.physicalStart, d.numberOfPages) := if_neg (by omega)
  have hmap : ∀ fuel m, m.bytesMapped = g.bytesMapped → mapBitmaps filterAddress fuel m = (false, m) := by
    intro fuel m hm
    cases fuel with
    | zero => rfl
    | succ fuel => exact if_neg fun h => by omega
  unfold setupDescriptor
  rw [hu, hskip]
  simp only [Bool.not_true, Bool.false_eq_true, if_false, if_neg hn]
  rw [hmap _ _ rfl]
  simp [hmapped, hinit]

theorem setup_bootWith {d : EfiMemoryDescriptor} (hu : d.type.usable = true)
    (hd : dmaZone.limit ≤ d.physicalStart) (hn : d.numberOfPages ≠ 0) :
    ∃ boot, setup (bootWith d) = some boot ∧
      ∀ p, p < bitmapEntries4KB → (boot.view.page p ↔ ¬ Marked d.physicalStart d.numberOfPages p) := by
  obtain ⟨hmapped, hpages, hbytes⟩ := mapBitmaps_bitmapFrames
  let g := setupDescriptor id (bootWith d).progress bitmapFrames
  have hg : g.mem = initializeBitmaps (bootWith d).progress.mem ∧ g.bitmapsMapped = true ∧
      g.bitmapsInitialized = true ∧ g.bytesMapped ≥ totalMetadataSize := by
    unfold g setupDescriptor
    rw [show bitmapFrames.type.usable = true from rfl,
      show skipDMA bitmapFrames = some (dmaZone.limit, 2060) from rfl]
    generalize hr : mapBitmaps id 2060 _ = r at hmapped hpages hbytes
    have hr' : mapBitmaps id 2060 ⟨(bootWith d).progress.tables, (bootWith d).progress.bitmapVirtAddr,
      (bootWith d).progress.bytesMapped, dmaZone.limit, 2060, 0⟩ = r := hr
    simp only [Bool.not_true, Bool.false_eq_true, if_false, if_neg (show (2060 : Nat) ≠ 0 by omega)]
    rw [hr', hmapped, hpages]
    exact ⟨rfl, rfl, rfl, hbytes⟩
  obtain ⟨hmem, hm, hi, hb⟩ := hg
  obtain ⟨hmem', hm'⟩ := setupDescriptor_mapped id hb hm hi hu hd hn
  have hsetup : setup (bootWith d) =
      if !(setupDescriptor id g d).bitmapsMapped then none
      else some (setFlags32MB (setFlags2MB (setupDescriptor id g d).mem bitmapEntries2MB) bitmapEntries32MB) := rfl
  rw [hm', hmem', hmem] at hsetup
  refine ⟨_, hsetup, fun p hp => ?_⟩
  rw [setFlags32MB_view, setFlags2MB_view, markFree_view]
  exact and_iff_right (initializeBitmaps_page _ hp)

end BadLands.Mm.PhysicalMemory
