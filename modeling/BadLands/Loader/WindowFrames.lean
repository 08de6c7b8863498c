import BadLands.Loader.LoaderWindow

/-!
# Who has the frames of the loader's data

The pages of the window are cut off a conventional descriptor and handed over as loader data, after the bitmap of the DMA zone
was computed; the kernel's `Setup` counts loader data among the usable types.

`setupLoaderInfo_frames`: the window and its tables are in those pages and in the tables of the font. `clear_usable`: after
`Setup` the free pages are pages of usable descriptors. `window_owned` compares the two programs.
-/
namespace BadLands.Loader.HandOver

open BadLands.Core BadLands.Core.PageTable BadLands.Mm.Layout BadLands.Mm.Paging BadLands.Loader.Paging
open BadLands.Loader.RuntimeRemap BadLands.Loader.LoaderWindow
open BadLands.Mm.PhysicalMemory hiding filterAddress

/-! ## What it is for -/

/-- A frame that backs one of the pages, or is a table of the walk to it. -/
def Backs (m : PhysMem) (root pages f : Nat) : Prop := ∃ i, i < pages ∧
  (translation m root (osLoaderData.start + i * pageSize) = some f ∨
    ∃ k, Reach m (osLoaderData.start + i * pageSize) 3 root k f)

/-- The kernel may hand the frame out. -/
def Free (dma : ByteMap) (s : State) (f : Nat) : Prop :=
  (f / pageSize < bitmapEntries4KB ∧ s.bitMap4KB.test (f / pageSize) = false) ∨
    (f / pageSize < dmaEndPage ∧ dma.test (f / pageSize) = false)

def Owned (m : PhysMem) (root pages : Nat) (dma : ByteMap) (s : State) : Prop :=
  ∀ f, Backs m root pages f → ¬ Free dma s f

/-- The copy of the longer memory map fits in the pages, and they need no page table but that of the font. -/
def Fits (descSize n : Nat) : Prop :=
  mmapOffset + (n + 1) * descSize ≤ totalPages (n * descSize) * pageSize ∧ requiredPages (n * descSize) + 0x80 ≤ ptEntries

instance (descSize n : Nat) : Decidable (Fits descSize n) := inferInstanceAs (Decidable (_ ∧ _))

/-- The pages are taken from above the memory that the kernel manages. -/
def Above (pages : Nat) (mmap : List Descriptor) : Prop := ∀ d, donor pages mmap = some d →
  maxAddressableMemory + pages * pageSize ≤ d.physicalStart + d.numberOfPages * pageSize

section
variable {maxphyaddr root descSize ptr : Nat} {mmapBytes : List Descriptor → ByteMemory} {info : LoaderInfo}
  {mmap mmap' : List Descriptor} {efi : List EfiMemoryDescriptor} {m m' : PhysMem}

/-! ## The frames of the window -/

/-- The data has its first page. -/
theorem requiredPages_pos {size : Nat} (h : mmapOffset ≤ totalPages size * pageSize) : 0 < requiredPages size := by
  refine Nat.pos_of_ne_zero fun hzero => ?_
  rw [totalPages, hzero] at h
  exact absurd h (by decide)

/-- The copy fits in the block either way. -/
theorem written_le {n : Nat} (h : Fits descSize n ∨ Suits descSize n) : written descSize n ≤ totalPages (n * descSize) * pageSize :=
  h.elim And.left fun hsuits => Nat.le_trans hsuits.1 (Nat.mul_le_mul_right _ (Nat.le_add_right _ _))

/-- After the loader: the pages that were cut off back the window; its tables are those of the font, or among these pages. -/
theorem setupLoaderInfo_frames (hm : maxphyaddr ≤ 52) (hperm : (mmap.map Descriptor.toEfiMemoryDescriptor).Perm efi)
    (hp : Prepared maxphyaddr root efi m)
    (hfits : Fits descSize mmap.length ∨ Suits descSize mmap.length ∧ Untouched m root)
    (h : setupLoaderInfo maxphyaddr root descSize mmapBytes info mmap m = some (m', mmap', ptr)) :
    ∀ i, i < requiredPages (mmap.length * descSize) →
      translation m' root (osLoaderData.start + i * pageSize) = some (ptr + i * pageSize) ∧
      ∀ k u, Reach m' (osLoaderData.start + i * pageSize) 3 root k u → Reach m osLoaderFont.start 3 root k u ∨
        (ptr ≤ u ∧ u + pageSize ≤ ptr + totalPages (mmap.length * descSize) * pageSize) := by
  have hwritten := written_le (hfits.imp_right And.left)
  have hsize : pageSize = 4096 := rfl
  have hentries : ptEntries = 512 := rfl
  rw [hsize] at hwritten ⊢
  obtain ⟨halign, hlimit, htotal, hroom, hunused, m₁, hcopy, rfl, -⟩ := setupLoaderInfo_run hm hperm hp h
  have hm₁ := hcopy fun t ht hin => hunused t ht ⟨hin.1, by omega⟩
  have hsuits : requiredPages (mmap.length * descSize) + 128 ≤ 512 ∨ written descSize mmap.length ≤
      requiredPages (mmap.length * descSize) * 4096 ∧ written descSize mmap.length % 4096 = 0 := by
    rcases hfits with ⟨-, hwindow⟩ | ⟨⟨hcopy, hsuits⟩, -⟩
    · rw [hentries] at hwindow
      exact .inl hwindow
    · rw [hentries, hsize] at hsuits
      exact hsuits.imp_right fun hround => ⟨hcopy, hround⟩
  have hfont : requiredPages (mmap.length * descSize) + 128 ≤ 512 ∨ Untouched m root :=
    hfits.imp (fun h => by have hwindow := h.2; rwa [hentries] at hwindow) And.right
  obtain ⟨hblock, hmapped, hkeep, hreach⟩ := window_block _ hm hp hm₁ halign hlimit htotal hroom hunused hsuits
  obtain ⟨hdata, -, hwindowLimit, hend⟩ := window_bounds
  intro i hi
  have hpage : i * 4096 < requiredPages (mmap.length * descSize) * 4096 := Nat.mul_lt_mul_of_pos_right hi (by decide)
  obtain ⟨-, hva, hpath⟩ := window_range (hpage.trans hroom)
  refine ⟨hmapped _ hpage, fun k u hu => ?_⟩
  cases k with
  | zero =>
    -- a table that was there before is that of the font
    rcases hreach _ u hva hu with hu | hmem
    · have hsame : SamePath 1 osLoaderFont.start (osLoaderData.start + i * 4096) :=
        hfont.elim (fun hwindow => (window_path (by omega)).2.2) fun hempty =>
          (hempty _ (Nat.le_add_right _ _) (by omega)).2 u hu
      exact .inl (SamePath.reach (fun k hk h3 => (hsame k hk h3).symm) (Nat.le_refl 3) hu)
    · have hin := hblock u hmem
      exact .inr ⟨by omega, hin.2.2⟩
  | succ k =>
    -- the walk to the font has a table at the same level
    obtain ⟨t, ht⟩ := hp.font
    obtain ⟨v, hv, -⟩ := ht.through (Nat.zero_le (k + 1)) hu.le
    have hv' := hkeep _ _ _ hva ((hpath.mono (Nat.le_add_left 2 k)).reach (Nat.le_refl 3) hv)
    rw [hu.unique hv']
    exact .inl hv

/-! ## The kernel's allocators -/

/-- A page of unusable memory is free for neither of the kernel's allocators. -/
theorem unusable_held {P : Type} (remap : Descriptor → P → Nat × P) (paging : P) {mmap₀ : List Descriptor}
    (hmap : MapOk (mmap₀.map Descriptor.toEfiMemoryDescriptor))
    (hperm : (mmap.map Descriptor.toEfiMemoryDescriptor).Perm (mmap₀.map Descriptor.toEfiMemoryDescriptor))
    {pages : Nat} {d : Descriptor} (hcut : Cut pages mmap (ptr, mmap') d) {b : Boot} {s : State}
    (hb : b.memoryMap = mmap'.map Descriptor.toEfiMemoryDescriptor) (hs : setup b = some s)
    {e : EfiMemoryDescriptor} (he : e ∈ mmap₀.map Descriptor.toEfiMemoryDescriptor) (htype : e.type = .unusableMemory) {f : Nat}
    (hc : Covers e (f / pageSize)) : ¬ Free (Mm.DmaZone.boot remap mmap₀ paging).bitmap s f := by
  have hmem : ∀ {x : Descriptor}, x ∈ mmap → x.toEfiMemoryDescriptor ∈ mmap₀.map Descriptor.toEfiMemoryDescriptor := fun hx =>
    hperm.mem_iff.mp (List.mem_map_of_mem hx)
  have hrefines := hcut.refines fun x hx => hmap.aligned _ (hmem hx)
  rintro (⟨hp, hclear⟩ | ⟨hp, hclear⟩)
  · have halign : ∀ x ∈ b.memoryMap, x.physicalStart % pageSize = 0 := fun x hx => by
      rw [hb] at hx
      obtain ⟨y, hy, rfl⟩ := List.mem_map.mp hx
      exact (hrefines y hy).1
    have hn : ¬ s.view.page (f / pageSize) := fun hpage => by
      have hset : s.bitMap4KB.test (f / pageSize) = true := hpage
      rw [hclear] at hset
      cases hset
    obtain ⟨x, hx, husable, hcx, -⟩ := clear_usable halign hs hp hn
    rw [hb] at hx
    obtain ⟨y, hy, rfl⟩ := List.mem_map.mp hx
    obtain ⟨-, z, hz, husable', hcz⟩ := hrefines y hy
    -- the descriptor it comes from is that of the page
    have hsame := hmap.same (hmem hz) he (hcz _ hcx) hc
    have hz' := husable' husable
    rw [show z.type = e.type from congrArg EfiMemoryDescriptor.type hsame, htype] at hz'
    cases hz'
  · have hpos : f / pageSize ≠ 0 := fun hzero => by
      rw [hzero, Mm.DmaZone.boot_zero] at hclear
      cases hclear
    rw [(Mm.DmaZone.boot_test remap paging hmap hp hpos).1 e he hc, htype] at hclear
    cases hclear

/-- The kernel has no bit for frames above the memory that it manages. -/
theorem not_free {dma : ByteMap} {s : State} {f : Nat} (h : maxAddressableMemory ≤ f) : ¬ Free dma s f := by
  have hsize : pageSize = 4096 := rfl
  have hentries : bitmapEntries4KB * 4096 = maxAddressableMemory := rfl
  have hmax : maxAddressableMemory = 0x4000000000 := rfl
  have hdma : dmaEndPage = 4096 := rfl
  rintro (⟨hlow, -⟩ | ⟨hlow, -⟩)
  · rw [hsize] at hlow
    omega
  · rw [hsize] at hlow
    omega

/-- A frame that was cut off below the memory the kernel manages is free. -/
theorem cut_free {P : Type} (remap : Descriptor → P → Nat × P) (paging : P) {mmap₀ : List Descriptor}
    (hmap : MapOk (mmap₀.map Descriptor.toEfiMemoryDescriptor))
    (hperm : (mmap.map Descriptor.toEfiMemoryDescriptor).Perm (mmap₀.map Descriptor.toEfiMemoryDescriptor))
    {pages : Nat} {d : Descriptor} (hcut : Cut pages mmap (ptr, mmap') d) (hpages : 0 < pages) (hzero : ptr ≠ 0)
    (halign : ptr % 4096 = 0) (hlow : ptr < maxAddressableMemory) (hcovers : Covers d.toEfiMemoryDescriptor (ptr / pageSize))
    {b : Boot} {s : State} (hb : b.memoryMap = mmap'.map Descriptor.toEfiMemoryDescriptor) (hs : setup b = some s)
    (hothers : (setup { b with memoryMap := b.memoryMap.dropLast }).isSome ∨ ptr < dmaZone.limit) :
    Free (Mm.DmaZone.boot remap mmap₀ paging).bitmap s ptr := by
  have hmem : ∀ {x : Descriptor}, x ∈ mmap → x.toEfiMemoryDescriptor ∈ mmap₀.map Descriptor.toEfiMemoryDescriptor := fun hx =>
    hperm.mem_iff.mp (List.mem_map_of_mem hx)
  have hlimit : dmaZone.limit = 4096 * 4096 := rfl
  have hend : dmaEndPage = 4096 := rfl
  have hsize : pageSize = 4096 := rfl
  by_cases hdma : ptr < dmaZone.limit
  · refine .inr ⟨by rw [hsize]; omega, ?_⟩
    rw [(Mm.DmaZone.boot_test remap paging hmap (by rw [hsize]; omega) (by rw [hsize]; omega)).1 _ (hmem hcut.mem) hcovers,
      hcut.conventional]
    rfl
  · have hentries : bitmapEntries4KB * 4096 = maxAddressableMemory := rfl
    obtain ⟨s', hs'⟩ := Option.isSome_iff_exists.mp (hothers.resolve_right hdma)
    have hrefines := hcut.refines fun x hx => hmap.aligned _ (hmem hx)
    have hstart : ptr = d.physicalStart + (d.numberOfPages - pages) * pageSize := hcut.start
    obtain ⟨before, after, henough, -, hmmap'⟩ := hcut.split
    dsimp only at hmmap' hrefines
    have hsplit : b.memoryMap = (before ++ shrink d pages :: after).map Descriptor.toEfiMemoryDescriptor ++
        [(newBlock d pages henough).toEfiMemoryDescriptor] := by
      rw [hb, hmmap', List.map_append]
      rfl
    have hrest : b.memoryMap.dropLast = (before ++ shrink d pages :: after).map Descriptor.toEfiMemoryDescriptor := by
      rw [hsplit, List.dropLast_concat]
    rw [hrest] at hs'
    have haligned : ∀ x ∈ (before ++ shrink d pages :: after).map Descriptor.toEfiMemoryDescriptor,
        x.physicalStart % pageSize = 0 := fun x hx => by
      obtain ⟨y, hy, rfl⟩ := List.mem_map.mp hx
      exact (hrefines y (by rw [hmmap']; exact List.mem_append_left _ hy)).1
    have hblock : (newBlock d pages henough).physicalStart = ptr := hstart.symm
    have hfree := last_free (p := ptr / pageSize) haligned hsplit hs hs' rfl (by rw [hblock]; omega) (Nat.pos_iff_ne_zero.mp hpages)
      (by rw [hblock]; exact ⟨Nat.le_refl _, Nat.lt_add_of_pos_right hpages, by rw [hsize]; omega⟩)
    refine .inl ⟨by rw [hsize]; omega, ?_⟩
    exact Bool.eq_false_iff.mpr hfree

/-- After the loader's loop, `SetupLoaderInfo` and `Setup` on the memory map that is handed over: where the copy of the map
fits, and page tables, if any are made, are whole pages behind it, the frames of the window and its tables are held if the pages
are cut off above the memory the kernel manages, and only then, unless the kernel's own bitmaps are in these pages. -/
theorem window_owned {P : Type} (remap : Descriptor → P → Nat × P) (paging : P) (hm : maxphyaddr ≤ 52)
    {mmap₀ : List Descriptor} (hp : Prepared maxphyaddr root (mmap₀.map Descriptor.toEfiMemoryDescriptor) m)
    (hload : setupLoaderInfo maxphyaddr root descSize mmapBytes info
      (descriptorLoop remap ⟨mmap₀, fun _ => 0#8, paging⟩).mmap m = some (m', mmap', ptr))
    {b : Boot} {s : State} (hb : b.memoryMap = mmap'.map Descriptor.toEfiMemoryDescriptor) (hs : setup b = some s)
    (hfits : Fits descSize mmap₀.length ∨ Suits descSize mmap₀.length ∧ Untouched m root) :
    (Above (totalPages (mmap₀.length * descSize)) (descriptorLoop remap ⟨mmap₀, fun _ => 0#8, paging⟩).mmap →
      Owned m' root (requiredPages (mmap₀.length * descSize)) (Mm.DmaZone.boot remap mmap₀ paging).bitmap s) ∧
    ((setup { b with memoryMap := b.memoryMap.dropLast }).isSome ∨ ptr < dmaZone.limit →
      Owned m' root (requiredPages (mmap₀.length * descSize)) (Mm.DmaZone.boot remap mmap₀ paging).bitmap s →
      Above (totalPages (mmap₀.length * descSize)) (descriptorLoop remap ⟨mmap₀, fun _ => 0#8, paging⟩).mmap) := by
  have hperm := descriptorLoop_perm remap ⟨mmap₀, fun _ => 0#8, paging⟩
  generalize (descriptorLoop remap ⟨mmap₀, fun _ => 0#8, paging⟩).mmap = mmap at hload hperm ⊢
  have hlength : mmap₀.length = mmap.length := by
    have := hperm.length_eq
    rw [List.length_map, List.length_map] at this
    exact this.symm
  rw [hlength] at hfits ⊢
  have hwindow := setupLoaderInfo_frames hm hperm hp hfits hload
  have hpos := requiredPages_pos (Nat.le_trans (Nat.le_add_right _ _) (written_le (hfits.imp_right And.left)))
  have hle : requiredPages (mmap.length * descSize) ≤ totalPages (mmap.length * descSize) := Nat.le_add_right _ _
  obtain ⟨d, hcut, hzero, -⟩ := setupLoaderInfo_cases hload
  obtain ⟨-, halign, hend, -, hcovers⟩ := hcut.pages hperm hp
  have hsize : pageSize = 4096 := rfl
  have hentries : bitmapEntries4KB * 4096 = maxAddressableMemory := rfl
  have hmax : maxAddressableMemory = 0x4000000000 := rfl
  have hdma : dmaEndPage = 4096 := rfl
  generalize requiredPages (mmap.length * descSize) = required at *
  generalize totalPages (mmap.length * descSize) = total at *
  constructor
  · rintro habove f ⟨i, hi, hbacks⟩
    have hhigh := habove d hcut.first
    rw [hsize] at hhigh
    obtain ⟨htranslate, htables⟩ := hwindow i hi
    rcases hbacks with hframe | ⟨k, hreach⟩
    · obtain rfl : ptr + i * pageSize = f := Option.some.inj (htranslate.symm.trans hframe)
      exact not_free (by omega)
    · rcases htables k f hreach with hfont | ⟨hlow, -⟩
      · obtain ⟨e, he, htype, hc⟩ := hp.unusable k f hfont
        exact unusable_held remap paging hp.map hperm hcut hb hs he htype hc
      · exact not_free (by omega)
  · intro hothers howned e he
    obtain rfl : d = e := Option.some.inj (hcut.first.symm.trans he)
    rw [hsize]
    by_contra hlow
    have htranslate := (hwindow 0 hpos).1
    rw [Nat.zero_mul, Nat.add_zero, Nat.add_zero] at htranslate
    refine howned ptr ⟨0, hpos, .inl (by rw [Nat.zero_mul, Nat.add_zero]; exact htranslate)⟩ ?_
    exact cut_free remap paging hp.map hperm hcut (by omega) hzero halign (by omega) (hcovers ptr (Nat.le_refl _) (by omega)) hb hs hothers

end

/-! ## Two machines -/

def lowMemory : Descriptor := ⟨⟨.conventionalMemory, 0x1000, 0x9E, by decide⟩, 0⟩

def lowMap : List Descriptor := [lowMemory, servicePages, tablePages]

/-- The kernel finds the tables of the font and of the window. -/
def windowTables (ptr : Nat) : PageTables where
  pml4e := setEntry (fun _ => none) (osLoaderFont.start / pml4eCoverage) 0x2001000
  pdpte := setEntry (fun _ => none) (osLoaderFont.start / pdpteCoverage) 0x2002000
  pde := setEntry (fun _ => none) (osLoaderFont.start / pdeCoverage) 0x2003000
  pageSize := fun _ => false
  pte := setEntry (setEntry (fun _ => none) (osLoaderFont.start / pteCoverage) 0x2004000) (osLoaderData.start / pteCoverage) ptr

def windowBoot (mmap : List Descriptor) (ptr : Nat) : Boot where
  memoryMap := mmap.map Descriptor.toEfiMemoryDescriptor
  tables := windowTables ptr
  filterAddress := Mm.PhysicalMemory.filterAddress 40
  junk32MB := ⟨fun _ => 0#64, fun _ => 0#64⟩
  junk2MB := ⟨fun _ => 0#64, fun _ => 0#64⟩
  junk4KB := fun _ => 0#64

theorem mapBitmaps_high : (mapBitmaps (Mm.PhysicalMemory.filterAddress 40) 2060
    ⟨windowTables maxAddressableMemory, physicalMemoryMap.start, 0, dmaZone.limit, 2060, 0⟩).1 = true := by
  decide +kernel

theorem mapBitmaps_low : (mapBitmaps (Mm.PhysicalMemory.filterAddress 40) 2060
    ⟨windowTables 0x9E000, physicalMemoryMap.start, 0, dmaZone.limit, 2060, 0⟩).1 = true := by
  decide +kernel

theorem lowMap_font : ∃ s, mapPSFFont firmwarePage 40 0x2000000 0x2004000 0x1000 (setupBasicPaging firmwarePage 40 clearMemory).2 = some s ∧
    Prepared 40 0x2000000 (lowMap.map Descriptor.toEfiMemoryDescriptor) s.mem := by
  refine font_prepared ⟨?_, ?_⟩ ?_ (List.mem_of_getElem? (i := 2) rfl)
  · simp [lowMap, servicePages, tablePages, lowMemory, dmaZone, pageSize]
  · simp [lowMap, servicePages, tablePages, lowMemory, dmaZone, pageSize]
  · simp [lowMap, servicePages, tablePages, lowMemory, Memory]

theorem lowMap_loop : (descriptorLoop keep ⟨lowMap, fun _ => 0#8, ()⟩).mmap = lowMap := rfl

/-- The memory map that is handed over. -/
def lowHanded : List Descriptor := [shrink lowMemory 1, servicePages, tablePages, newBlock lowMemory 1 (by decide)]

theorem lowMap_load (m : PhysMem) : ∃ m', setupLoaderInfo 40 0x2000000 48 descriptorBytes noInfo
    (descriptorLoop keep ⟨lowMap, fun _ => 0#8, ()⟩).mmap m = some (m', lowHanded, 0x9E000) := by
  rw [lowMap_loop]
  exact ⟨_, rfl⟩

theorem highMap_setup : ∃ s, setup (windowBoot highHanded maxAddressableMemory) = some s :=
  setup_some [] rfl (fun _ he => by cases he) rfl (a := dmaZone.limit) (n := 2060) rfl (by decide) mapBitmaps_high

theorem lowMap_setup : ∃ s, setup (windowBoot lowHanded 0x9E000) = some s := by
  refine setup_some [(shrink lowMemory 1).toEfiMemoryDescriptor] rfl (fun e he => ?_) rfl (a := dmaZone.limit) (n := 2060)
    rfl (by decide) mapBitmaps_low
  obtain rfl := List.mem_singleton.mp he
  rfl

/-- The pages come from 256GB: the kernel does not know them. -/
theorem window_owned_high : ∃ s₀ m' s,
    mapPSFFont firmwarePage 40 0x2000000 0x2004000 0x1000 (setupBasicPaging firmwarePage 40 clearMemory).2 = some s₀ ∧
    setupLoaderInfo 40 0x2000000 48 descriptorBytes noInfo (descriptorLoop keep ⟨highMap, fun _ => 0#8, ()⟩).mmap s₀.mem =
      some (m', highHanded, maxAddressableMemory) ∧
    setup (windowBoot highHanded maxAddressableMemory) = some s ∧
    Owned m' 0x2000000 (requiredPages (3 * 48)) (Mm.DmaZone.boot keep highMap ()).bitmap s := by
  obtain ⟨s₀, hfont, hp⟩ := highMap_font
  obtain ⟨m', hload⟩ := highMap_load s₀.mem
  obtain ⟨s, hs⟩ := highMap_setup
  refine ⟨s₀, m', s, hfont, hload, hs, (window_owned keep () (by decide) hp hload rfl hs (.inl (by decide))).1 fun d hd => ?_⟩
  rw [highMap_loop] at hd
  obtain rfl : highPage = d := Option.some.inj hd
  decide

/-- The pages come from the DMA zone: its bitmap was written before. -/
theorem low_window_free : ∃ s₀ m' s,
    MapOk (lowMap.map Descriptor.toEfiMemoryDescriptor) ∧
    mapPSFFont firmwarePage 40 0x2000000 0x2004000 0x1000 (setupBasicPaging firmwarePage 40 clearMemory).2 = some s₀ ∧
    setupLoaderInfo 40 0x2000000 48 descriptorBytes noInfo (descriptorLoop keep ⟨lowMap, fun _ => 0#8, ()⟩).mmap s₀.mem =
      some (m', lowHanded, 0x9E000) ∧
    setup (windowBoot lowHanded 0x9E000) = some s ∧
    ¬ Owned m' 0x2000000 (requiredPages (3 * 48)) (Mm.DmaZone.boot keep lowMap ()).bitmap s := by
  obtain ⟨s₀, hfont, hp⟩ := lowMap_font
  obtain ⟨m', hload⟩ := lowMap_load s₀.mem
  obtain ⟨s, hs⟩ := lowMap_setup
  refine ⟨s₀, m', s, hp.map, hfont, hload, hs, fun howned => ?_⟩
  rw [lowMap_loop] at hload
  have hwindow := setupLoaderInfo_frames (by decide) (.refl _) hp (.inl (by decide)) hload 0 (by decide)
  refine howned 0x9E000 ⟨0, by decide, .inl hwindow.1⟩ (.inr ⟨by decide, ?_⟩)
  exact (Mm.DmaZone.boot_test keep () hp.map (by decide) (by decide)).1 _ (List.mem_of_getElem? (i := 0) rfl) (by decide)

end BadLands.Loader.HandOver
