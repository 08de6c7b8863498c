import BadLands.Core.Machine
import BadLands.Loader.MemoryMap

/-!
# The DMA zone

The first 16MB have a bitmap of their own, which the loader fills from the memory map and `Setup` takes over.
`AllocateDMA` looks for a run of clear bits, `FreeDMA` clears the bits of a run.

The loader starts from a bitmap of zeros and sets the pages of descriptors, so a page that no descriptor covers
stays clear.

* `allocateDMA_first_fit`: the lowest run of free pages, or null.
* `dma_conventional_iff`: the bitmap offers conventional memory only, along every run of calls, exactly when
the descriptors cover every page of the zone but the first.
-/
namespace BadLands.Mm.DmaZone

open BadLands.Core BadLands.Core.Machine BadLands.Loader BadLands.Mm.Layout
open BadLands.Mm.PhysicalMemory (EfiMemoryDescriptor)

/-- mirrors kernel/src/mm/PhysicalMemory.cpp:51-52 -/
def dmaBitmapSize : Nat := dmaZone.limit / frameSize / 8

/-- mirrors kernel/src/mm/PhysicalMemory.cpp:379-380 -/
def setupDMA (bitmap : ByteMap) : ByteMap := bitmap.set 0

/-- The two loops over the bits, from page `page` on.
mirrors kernel/src/mm/PhysicalMemory.cpp:693-717 -/
def findRun (bitmap : ByteMap) (pages : Nat) : Nat → Nat → Nat → Nat → Option Nat
  | 0, _, _, _ => none
  | left + 1, page, startPage, pagesFound =>
    let startPage := if !bitmap.test page ∧ pagesFound = 0 then page else startPage
    let pagesFound := if bitmap.test page then 0 else pagesFound + 1
    if pagesFound ≥ pages then some startPage else findRun bitmap pages left (page + 1) startPage pagesFound

/-- mirrors kernel/src/mm/PhysicalMemory.cpp:685-720 -/
def allocateDMA (bitmap : ByteMap) (pages : Nat) : Nat × ByteMap :=
  if pages = 0 then (0, bitmap)
  else match findRun bitmap pages (dmaBitmapSize * 8) 0 0 0 with
    | none => (0, bitmap)
    | some startPage => (startPage * frameSize, bitmap.setRange startPage (startPage + pages))

/-- mirrors kernel/src/mm/PhysicalMemory.cpp:152-154 -/
def isDMAAddress (address : Nat) : Bool := decide (dmaZone.start ≤ address ∧ address < dmaZone.end)

/-- What the check of `FreeDMA` finds.
mirrors kernel/src/mm/PhysicalMemory.cpp:884-887 -/
def foreignDMA (ptr pages : Nat) : Bool :=
  !isDMAAddress ptr || !isDMAAddress (Word.add ptr (Word.mul frameSize (Word.sub pages 1)))

/-- `Success` and the bitmap. The `Failure()` of the check is made and dropped: both branches go on.
mirrors kernel/src/mm/PhysicalMemory.cpp:883-901 -/
def freeDMA (bitmap : ByteMap) (ptr pages : Nat) : Bool × ByteMap :=
  let firstPage := ptr / frameSize
  (true, bitmap.clearRange firstPage (Word.add firstPage pages))

/-! ## Runs of calls -/

structure DmaRun where
  ptr : Nat
  pages : Nat
  deriving DecidableEq, Repr

def DmaRun.Has (r : DmaRun) (p : Nat) : Prop := r.ptr / frameSize ≤ p ∧ p < r.ptr / frameSize + r.pages

instance (r : DmaRun) (p : Nat) : Decidable (r.Has p) := inferInstanceAs (Decidable (_ ∧ _))

structure Sys where
  bitmap : ByteMap
  live : List DmaRun

inductive Op where
  | allocate (pages : Nat)
  | free (run : DmaRun)

/-- `none`: the run passed to `FreeDMA` is not live. -/
def step (s : Sys) : Op → Option Sys
  | .allocate pages =>
    let r := allocateDMA s.bitmap pages
    some ⟨r.2, if r.1 = 0 then s.live else ⟨r.1, pages⟩ :: s.live⟩
  | .free run => if run ∉ s.live then none else some ⟨(freeDMA s.bitmap run.ptr run.pages).2, s.live.erase run⟩

/-- The bitmap after the loader's loop and `Setup`. -/
def boot {P : Type} (remap : Descriptor → P → Nat × P) (mmap : List Descriptor) (paging : P) : Sys :=
  ⟨setupDMA (descriptorLoop remap ⟨mmap, fun _ => 0#8, paging⟩).dma, []⟩

def Conventional (mmap : List EfiMemoryDescriptor) (p : Nat) : Prop :=
  ∃ d ∈ mmap, d.type = .conventionalMemory ∧ Covers d p

/-- A clear bit is that of a conventional page other than the first, and the live runs are conventional memory. -/
structure Sound (mmap : List EfiMemoryDescriptor) (s : Sys) : Prop where
  clear : ∀ p, p < dmaEndPage → s.bitmap.test p = false → p ≠ 0 ∧ Conventional mmap p
  live : ∀ r ∈ s.live, ∀ p, r.Has p → p ≠ 0 ∧ Conventional mmap p

/-! ## `AllocateDMA` returns clear bits -/

/-- `pages` clear bits from `start` on. -/
def Run (bitmap : ByteMap) (pages start : Nat) : Prop :=
  start + pages ≤ dmaEndPage ∧ ∀ p, start ≤ p → p < start + pages → bitmap.test p = false

/-- `pagesFound` is the number of clear pages just before `page`, the first of which is `startPage`. -/
structure Counted (bitmap : ByteMap) (page startPage pagesFound : Nat) : Prop where
  start : pagesFound ≠ 0 → startPage + pagesFound = page
  clear : ∀ p, page < p + pagesFound + 1 → p < page → bitmap.test p = false
  most : ∀ p, p ≤ page → (∀ q, p ≤ q → q < page → bitmap.test q = false) → page ≤ p + pagesFound

theorem Counted.next {bitmap : ByteMap} {page startPage pagesFound : Nat} (h : Counted bitmap page startPage pagesFound) :
    Counted bitmap (page + 1) (if !bitmap.test page ∧ pagesFound = 0 then page else startPage)
      (if bitmap.test page then 0 else pagesFound + 1) := by
  cases hbit : bitmap.test page with
  | true =>
    refine ⟨fun hne => absurd rfl hne, fun p h1 h2 => by simp only [if_true] at h1; omega, fun p hp hall => ?_⟩
    rcases Nat.lt_or_ge page p with hlt | hle
    · simp only [if_true]
      omega
    · rw [hall page hle (Nat.lt_succ_self page)] at hbit
      cases hbit
  | false =>
    simp only [Bool.not_false, true_and, Bool.false_eq_true, if_false]
    refine ⟨fun _ => ?_, fun p h1 h2 => ?_, fun p hp hall => ?_⟩
    · split
      · omega
      · rename_i hne
        have := h.start hne
        omega
    · by_cases hp : p = page
      · rw [hp]
        exact hbit
      · exact h.clear p (by omega) (by omega)
    · rcases Nat.lt_or_ge page p with hlt | hle
      · omega
      · have := h.most p hle fun q h1 h2 => hall q h1 (by omega)
        omega

/-- The first run, if there is one that ends within the pages that are left. -/
def FirstRun (bitmap : ByteMap) (pages stop : Nat) : Option Nat → Prop
  | some found => found + pages ≤ stop ∧ (∀ p, found ≤ p → p < found + pages → bitmap.test p = false) ∧
      ∀ start, (∀ p, start ≤ p → p < start + pages → bitmap.test p = false) → found ≤ start
  | none => ∀ start, start + pages ≤ stop → ¬ ∀ p, start ≤ p → p < start + pages → bitmap.test p = false

theorem findRun_spec (bitmap : ByteMap) {pages : Nat} (hpages : pages ≠ 0) : ∀ (left page startPage pagesFound : Nat),
    Counted bitmap page startPage pagesFound → pagesFound < pages →
    (∀ start, start + pages ≤ page → ¬ ∀ p, start ≤ p → p < start + pages → bitmap.test p = false) →
    FirstRun bitmap pages (page + left) (findRun bitmap pages left page startPage pagesFound)
  | 0, _, _, _, _, _, hnone => hnone
  | left + 1, page, startPage, pagesFound, h, hless, hnone => by
    have hnext := h.next
    unfold findRun
    extract_lets startPage' pagesFound'
    have hcounted : Counted bitmap (page + 1) startPage' pagesFound' := hnext
    have hle : pagesFound' ≤ pages := by
      unfold pagesFound'
      split <;> omega
    by_cases hdone : pagesFound' ≥ pages
    · rw [if_pos hdone]
      have hstart := hcounted.start (by omega)
      refine ⟨by omega, fun p h1 h2 => hcounted.clear p (by omega) (by omega), fun start hrun => ?_⟩
      -- no run ends before this page
      have hend : ¬ start + pages ≤ page := fun hend => hnone start hend hrun
      omega
    · rw [if_neg hdone, show page + (left + 1) = page + 1 + left by omega]
      refine findRun_spec bitmap hpages left (page + 1) startPage' pagesFound' hcounted (by omega) fun start hend hrun => ?_
      rcases Nat.lt_or_ge page (start + pages) with hlast | hbefore
      · have := hcounted.most start (by omega) fun q h1 h2 => hrun q h1 (by omega)
        omega
      · exact hnone start hbefore hrun

/-- The first run of all. -/
theorem findRun_first (bitmap : ByteMap) {pages : Nat} (hpages : pages ≠ 0) :
    FirstRun bitmap pages dmaEndPage (findRun bitmap pages (dmaBitmapSize * 8) 0 0 0) := by
  have hspec := findRun_spec bitmap hpages (dmaBitmapSize * 8) 0 0 0
    ⟨fun h => absurd rfl h, fun p h1 h2 => absurd h2 (Nat.not_lt_zero p), fun p hp _ => Nat.zero_le _⟩
    (Nat.pos_of_ne_zero hpages) fun start hend _ => by omega
  rwa [show 0 + dmaBitmapSize * 8 = dmaEndPage from rfl] at hspec

theorem allocateDMA_cases (bitmap : ByteMap) (pages : Nat) :
    ((allocateDMA bitmap pages) = (0, bitmap) ∧ (pages = 0 ∨ ∀ start, ¬ Run bitmap pages start)) ∨
    ∃ startPage, allocateDMA bitmap pages = (startPage * frameSize, bitmap.setRange startPage (startPage + pages)) ∧
      pages ≠ 0 ∧ Run bitmap pages startPage ∧ ∀ start, Run bitmap pages start → startPage ≤ start := by
  unfold allocateDMA
  by_cases hpages : pages = 0
  · rw [if_pos hpages]
    exact .inl ⟨rfl, .inl hpages⟩
  · have hfirst := findRun_first bitmap hpages
    rw [if_neg hpages]
    cases hfind : findRun bitmap pages (dmaBitmapSize * 8) 0 0 0 with
    | none =>
      rw [hfind] at hfirst
      exact .inl ⟨rfl, .inr fun start hrun => hfirst start hrun.1 hrun.2⟩
    | some startPage =>
      rw [hfind] at hfirst
      exact .inr ⟨startPage, rfl, hpages, ⟨hfirst.1, hfirst.2.1⟩, fun start hrun => hfirst.2.2 start hrun.2⟩

/-! ## First fit -/

section
variable {bitmap : ByteMap} {pages startPage : Nat}

theorem Run.page_ne (h : Run bitmap pages startPage) (hzero : bitmap.test 0 = true) (hpages : pages ≠ 0) :
    startPage ≠ 0 := fun hstart => by
  rw [h.2 0 (by omega) (by omega)] at hzero
  cases hzero

/-- `FreeDMA` of a run finds its first page again, and the end of the run does not wrap. -/
theorem Run.freeDMA (h : Run bitmap pages startPage) :
    freeDMA (bitmap.setRange startPage (startPage + pages)) (startPage * frameSize) pages = (true, bitmap) := by
  have hword : startPage + pages < 2 ^ 64 :=
    Nat.lt_of_le_of_lt h.1 (show dmaEndPage < 2 ^ 64 by simp [dmaEndPage, dmaZone, pageSize])
  simp only [DmaZone.freeDMA]
  rw [Nat.mul_div_cancel _ (show 0 < frameSize by decide), Word.add_eq hword, ByteMap.clearRange_setRange h.2]

end

/-- For every bitmap with the first page marked and every count: the result is null exactly for no pages or without a
run of free pages, and the bitmap is then as before; else it is the lowest run, its pages and no others are marked, and
`FreeDMA` of it gives the bitmap back. -/
theorem allocateDMA_first_fit (bitmap : ByteMap) (pages : Nat) (hzero : bitmap.test 0 = true) :
    ((allocateDMA bitmap pages).1 = 0 ↔ pages = 0 ∨ ∀ start, ¬ Run bitmap pages start) ∧
    ((allocateDMA bitmap pages).1 = 0 → (allocateDMA bitmap pages).2 = bitmap) ∧
    ((allocateDMA bitmap pages).1 ≠ 0 → ∃ startPage, (allocateDMA bitmap pages).1 = startPage * frameSize ∧
      Run bitmap pages startPage ∧ (∀ start, Run bitmap pages start → startPage ≤ start) ∧
      (∀ p, (allocateDMA bitmap pages).2.test p =
        (decide (startPage ≤ p ∧ p < startPage + pages) || bitmap.test p)) ∧
      freeDMA (allocateDMA bitmap pages).2 (allocateDMA bitmap pages).1 pages = (true, bitmap)) := by
  obtain ⟨heq, hnone⟩ | ⟨startPage, heq, hpages, hrun, hfirst⟩ := allocateDMA_cases bitmap pages
  · rw [heq]
    exact ⟨⟨fun _ => hnone, fun _ => rfl⟩, fun _ => rfl, fun hne => absurd rfl hne⟩
  · have hptr : startPage * frameSize ≠ 0 := Nat.mul_ne_zero (hrun.page_ne hzero hpages) (by decide)
    rw [heq]
    refine ⟨⟨fun h => absurd h hptr, fun h => ?_⟩, fun h => absurd h hptr, fun _ => ?_⟩
    · rcases h with h | h
      · exact absurd h hpages
      · exact absurd hrun (h startPage)
    · exact ⟨startPage, rfl, hrun, hfirst, bitmap.test_setRange _ _, hrun.freeDMA⟩

/-- As `Setup` leaves an empty bitmap. -/
theorem allocateDMA_first_fit_empty : ((setupDMA fun _ => 0#8).test 0 = true) ∧
    ((allocateDMA (setupDMA fun _ => 0#8) 2).1 = 0 ↔
      2 = 0 ∨ ∀ start, ¬ Run (setupDMA fun _ => 0#8) 2 start) := by
  have hzero : (setupDMA fun _ => 0#8).test 0 = true := by decide
  exact ⟨hzero, (allocateDMA_first_fit _ 2 hzero).1⟩

/-! ## Every run -/

section
variable {mmap : List EfiMemoryDescriptor} {s : Sys}

theorem Sound.allocate (h : Sound mmap s) (pages : Nat) :
    Sound mmap ⟨(allocateDMA s.bitmap pages).2, if (allocateDMA s.bitmap pages).1 = 0 then s.live
      else ⟨(allocateDMA s.bitmap pages).1, pages⟩ :: s.live⟩ := by
  obtain ⟨heq, -⟩ | ⟨startPage, heq, -, ⟨hbound, hclear⟩, -⟩ := allocateDMA_cases s.bitmap pages
  · rw [heq, if_pos rfl]
    exact h
  · rw [heq]
    refine ⟨fun p hp hbit => ?_, fun r hr p hrp => ?_⟩
    · rw [ByteMap.test_setRange, Bool.or_eq_false_iff] at hbit
      exact h.clear p hp hbit.2
    · have hmem : r ∈ s.live ∨ r = ⟨startPage * frameSize, pages⟩ := by
        dsimp only at hr
        split at hr
        · exact .inl hr
        · exact (List.mem_cons.mp hr).symm
      rcases hmem with hr | rfl
      · exact h.live r hr p hrp
      · unfold DmaRun.Has at hrp
        rw [Nat.mul_div_cancel _ (show 0 < frameSize by decide)] at hrp
        dsimp only at hrp
        exact h.clear p (by omega) (hclear p hrp.1 hrp.2)

theorem Sound.free (h : Sound mmap s) {run : DmaRun} (hrun : run ∈ s.live) :
    Sound mmap ⟨(freeDMA s.bitmap run.ptr run.pages).2, s.live.erase run⟩ := by
  refine ⟨fun p hp hbit => ?_, fun r hr => h.live r (List.mem_of_mem_erase hr)⟩
  unfold freeDMA at hbit
  dsimp only at hbit
  rw [ByteMap.test_clearRange] at hbit
  by_cases hin : run.Has p
  · exact h.live run hrun p hin
  · have hout : ¬ (run.ptr / frameSize ≤ p ∧ p < Word.add (run.ptr / frameSize) run.pages) := fun hc =>
      hin ⟨hc.1, Nat.lt_of_lt_of_le hc.2 (Nat.mod_le _ _)⟩
    rw [decide_eq_false hout, Bool.not_false, Bool.true_and] at hbit
    exact h.clear p hp hbit

theorem step_sound (s : Sys) (op : Op) (s' : Sys) (h : Sound mmap s) (hs : step s op = some s') : Sound mmap s' := by
  cases op with
  | allocate pages =>
    cases hs
    exact h.allocate pages
  | free run =>
    simp only [step] at hs
    split at hs
    · cases hs
    · rename_i hrun
      cases hs
      exact h.free (Classical.not_not.mp hrun)

end

/-! ## The bitmap of the loader -/

section
variable {P : Type} (remap : Descriptor → P → Nat × P) (paging : P) {mmap : List Descriptor}

theorem boot_test (h : MapOk (mmap.map Descriptor.toEfiMemoryDescriptor)) {p : Nat} (hp : p < dmaEndPage) (hpos : p ≠ 0) :
    (∀ d ∈ mmap.map Descriptor.toEfiMemoryDescriptor, Covers d p →
      (boot remap mmap paging).bitmap.test p = decide (d.type ≠ .conventionalMemory)) ∧
    ((∀ d ∈ mmap.map Descriptor.toEfiMemoryDescriptor, ¬ Covers d p) →
      (boot remap mmap paging).bitmap.test p = false) := by
  have hloop := (descriptorLoop_spec remap ⟨mmap, fun _ => 0#8, paging⟩).2.2
  have htest : (boot remap mmap paging).bitmap.test p =
      ((mmap.map Descriptor.toEfiMemoryDescriptor).foldl markDMA fun _ => 0#8).test p := by
    unfold boot setupDMA
    dsimp only
    rw [ByteMap.test_set, decide_eq_false hpos, Bool.false_or, hloop]
  rw [htest]
  obtain ⟨hcovered, hnone⟩ := test_markAll hp (mmap.map Descriptor.toEfiMemoryDescriptor) (fun _ => 0#8) (h.unique p)
  refine ⟨hcovered, fun hall => (hnone hall).trans ?_⟩
  rw [ByteMap.test_eq, BitVec.getLsbD_zero]

theorem boot_zero : (boot remap mmap paging).bitmap.test 0 = true := by
  unfold boot setupDMA
  dsimp only
  rw [ByteMap.test_set, decide_eq_true rfl, Bool.true_or]

/-- If every page has a descriptor, the bits say which ones are conventional. -/
theorem boot_sound (h : MapOk (mmap.map Descriptor.toEfiMemoryDescriptor))
    (hcover : ∀ p, p ≠ 0 → p < dmaEndPage → ∃ d ∈ mmap.map Descriptor.toEfiMemoryDescriptor, Covers d p) :
    Sound (mmap.map Descriptor.toEfiMemoryDescriptor) (boot remap mmap paging) := by
  refine ⟨fun p hp hbit => ?_, fun r hr => by cases hr⟩
  have hpos : p ≠ 0 := fun hzero => by
    rw [hzero, boot_zero] at hbit
    cases hbit
  obtain ⟨d, hd, hc⟩ := hcover p hpos hp
  rw [(boot_test remap paging h hp hpos).1 d hd hc, decide_eq_false_iff_not, not_not] at hbit
  exact ⟨hpos, d, hd, hbit, hc⟩

/-- For every memory map, in any order: along every run of `AllocateDMA` and `FreeDMA`, clear bits and the runs handed
out are conventional memory, exactly when every page of the zone but the first has a descriptor. -/
theorem dma_conventional_iff (h : MapOk (mmap.map Descriptor.toEfiMemoryDescriptor)) :
    (∀ ops, AllStates step (Sound (mmap.map Descriptor.toEfiMemoryDescriptor)) (boot remap mmap paging) ops) ↔
      ∀ p, p ≠ 0 → p < dmaEndPage → ∃ d ∈ mmap.map Descriptor.toEfiMemoryDescriptor, Covers d p := by
  constructor
  · intro hall p hpos hp
    apply Classical.byContradiction
    intro hnone
    have hbit := (boot_test remap paging h hp hpos).2 fun d hd hc => hnone ⟨d, hd, hc⟩
    obtain ⟨d, hd, -, hc⟩ := ((hall []).here.clear p hp hbit).2
    exact hnone ⟨d, hd, hc⟩
  · intro hcover ops
    exact allStates_of_inv step_sound ops _ (boot_sound remap paging h hcover)

end

/-- The whole zone is one conventional descriptor. -/
def wholeZone : List Descriptor := [⟨⟨.conventionalMemory, 0, 4096, by decide⟩, 0⟩]

theorem wholeZone_ok : MapOk (wholeZone.map Descriptor.toEfiMemoryDescriptor) :=
  ⟨fun d hd => by
    obtain rfl := List.mem_singleton.mp hd
    rfl, List.pairwise_singleton _ _⟩

theorem wholeZone_conventional : AllStates step (Sound (wholeZone.map Descriptor.toEfiMemoryDescriptor))
    (boot (fun d (_ : Unit) => (d.virtualStart, ())) wholeZone ()) [.allocate 2, .allocate 4000] := by
  refine (dma_conventional_iff _ () wholeZone_ok).mpr (fun p _ hp => ⟨⟨.conventionalMemory, 0, 4096, by decide⟩, ?_, ?_⟩) _
  · exact List.mem_singleton.mpr rfl
  · exact ⟨Nat.zero_le _, by simpa [dmaEndPage, dmaZone, pageSize] using hp⟩

/-- Conventional memory up to `0xA0000` and from `0x100000` on: the video memory between has no descriptor. -/
def legacyHole : List Descriptor :=
  [⟨⟨.conventionalMemory, 0, 0xA0, by decide⟩, 0⟩, ⟨⟨.conventionalMemory, 0x100000, 0xF00, by decide⟩, 0⟩]

theorem legacyHole_ok : MapOk (legacyHole.map Descriptor.toEfiMemoryDescriptor) := by
  refine ⟨fun d hd => ?_, ?_⟩
  · simp only [legacyHole, List.map_cons, List.map_nil, List.mem_cons, List.not_mem_nil, or_false] at hd
    rcases hd with rfl | rfl
    · rfl
    · rfl
  · refine List.pairwise_pair.mpr (.inl ?_)
    decide

/-- The pages of the hole are clear. -/
theorem legacyHole_offered : MapOk (legacyHole.map Descriptor.toEfiMemoryDescriptor) ∧
    (boot (fun d (_ : Unit) => (d.virtualStart, ())) legacyHole ()).bitmap.test 0xA0 = false ∧
    ¬ Conventional (legacyHole.map Descriptor.toEfiMemoryDescriptor) 0xA0 := by
  have hnone : ∀ d ∈ legacyHole.map Descriptor.toEfiMemoryDescriptor, ¬ Covers d 0xA0 := fun d hd => by
    simp only [legacyHole, List.map_cons, List.map_nil, List.mem_cons, List.not_mem_nil, or_false] at hd
    rcases hd with rfl | rfl
    · decide
    · decide
  refine ⟨legacyHole_ok, (boot_test _ () legacyHole_ok (by decide) (by decide)).2 hnone, ?_⟩
  rintro ⟨d, hd, -, hc⟩
  exact hnone d hd hc

end BadLands.Mm.DmaZone
