import BadLands.Core.WordBytes
import BadLands.Loader.RuntimeRemap
import BadLands.Mm.DmaZone
import BadLands.Mm.PhysicalMemoryFrames

/-!
# Handing memory over to the kernel

At the end the loader cuts pages off a conventional descriptor, appends them to the memory map as a descriptor of their
own, writes the loader's data, the bitmap of the DMA zone and the memory map there, and maps these pages where the kernel
looks for them.

`Cut.refines`: every descriptor that is handed over is a part of one that was there. `copy_word`: what the copy leaves as it is.
`mapPSFFont_prepared`: after the font is mapped, the tables are pages that the firmware gave.
-/
namespace BadLands.Loader.HandOver

open BadLands.Core BadLands.Core.PageTable BadLands.Mm.Layout BadLands.Mm.Paging BadLands.Loader.Paging
open BadLands.Loader.RuntimeRemap
open BadLands.Mm.PhysicalMemory hiding filterAddress

/-! ## The code -/

/-- mirrors bootloader/include/loader/loader_info.hpp:34-42 -/
structure LoaderInfo where
  dmaInfo : ByteMap
  gfxData : ByteMemory
  rtServices : Nat
  pcieEcam0 : Nat
  acpiRevision : Nat
  rsdp : Nat
  rootPartitionUuid : ByteMemory

/-- `sizeof(LoaderInfo)` -/
def loaderInfoSize : Nat := 592

/-- The offset, the number and the values of the bytes of each field; a number has eight.
mirrors common/include/shared/memory/layout.hpp:89-99 and bootloader/src/loader/paging.cpp:563-597 -/
def LoaderInfo.fields (info : LoaderInfo) (mmapSize descSize : Nat) : List (Nat × Nat × ByteMemory) :=
  let number (v : Nat) : ByteMemory := fun i => BitVec.ofNat 8 (v / 256 ^ i)
  [(0, 512, info.dmaInfo), (512, 32, info.gfxData), (544, 8, number info.rtServices), (552, 8, number info.pcieEcam0),
    (560, 8, number info.acpiRevision), (568, 8, number info.rsdp), (576, 16, info.rootPartitionUuid),
    (592, 8, number mmapSize), (600, 8, number descSize)]

/-- `OsLoaderDataOffsets.Mmap` -/
def mmapOffset : Nat := 608

/-- Fields one after the other, to the memory at `ptr`. -/
def writeFields (ptr : Nat) (fields : List (Nat × Nat × ByteMemory)) (m : PhysMem) : PhysMem :=
  fields.foldl (fun m field => storeBytes m (ptr + field.1) field.2.1 field.2.2) m

/-- mirrors bootloader/src/loader/paging.cpp:537-540, 547 -/
def requiredPages (mmapSize : Nat) : Nat := Word.add (loaderInfoSize + 8 + 8 + mmapSize) (pageSize - 1) / pageSize

/-- mirrors bootloader/src/loader/paging.cpp:548 -/
def totalPages (mmapSize : Nat) : Nat := requiredPages mmapSize + (requiredPages mmapSize + 0x80) / ptEntries

/-- The descriptor without its last pages. -/
def shrink (d : Descriptor) (pages : Nat) : Descriptor where
  type := d.type
  physicalStart := d.physicalStart
  numberOfPages := d.numberOfPages - pages
  inAddressSpace := Nat.le_trans (Nat.add_le_add_left (Nat.mul_le_mul_left _ (Nat.sub_le _ _)) _) d.inAddressSpace
  virtualStart := d.virtualStart

/-- The last pages of the descriptor. -/
def newBlock (d : Descriptor) (pages : Nat) (h : pages ≤ d.numberOfPages) : Descriptor where
  type := .loaderData
  physicalStart := d.physicalStart + (d.numberOfPages - pages) * pageSize
  numberOfPages := pages
  inAddressSpace := by
    have hspace := d.inAddressSpace
    unfold frameSize at hspace
    unfold frameSize pageSize
    omega
  virtualStart := 0

/-- The first conventional descriptor with enough pages gives its last ones; they are appended to the memory map.
mirrors bootloader/src/loader/paging.cpp:243-279 -/
def makeshiftMalloc (pages : Nat) : List Descriptor → Option (Nat × List Descriptor)
  | [] => none
  | d :: ds =>
    if h : d.type = .conventionalMemory ∧ pages ≤ d.numberOfPages then
      let block := newBlock d pages h.2
      some (block.physicalStart, shrink d pages :: ds ++ [block])
    else (makeshiftMalloc pages ds).map fun (start, ds) => (start, d :: ds)

/-- A word at any address. -/
def storeWord (m : PhysMem) (a : Nat) (e : Entry) : PhysMem :=
  if a % 8 = 0 then update m a e else storeBytes m a 8 fun i => BitVec.ofNat 8 (e.toNat / 256 ^ i)

/-- The `for` of `SetupLoaderInfo` with the number of pages left. A missing page table is made where `ptr` points, after the
copy of the memory map.
mirrors bootloader/src/loader/paging.cpp:615-637 -/
def setupLoop (maxphyaddr root : Nat) : Nat → VirtualAddress → Nat → Nat → PhysMem → PhysMem
  | 0, _, _, _, m => m
  | n + 1, rva, source, ptr, m =>
    let pdpt := (m (root + entrySize * rva.pml4Offset)).frame
    let pd := (m (pdpt + entrySize * rva.pdptOffset)).frame
    let pde := pd + entrySize * rva.pdOffset
    let (pt, ptr, m) :=
      if (m pde).present then ((m pde).frame, ptr, m)
      else (ptr, ptr + pageSize, update (storeBytes m ptr pageSize fun _ => 0#8) pde (makeTableEntry maxphyaddr ptr))
    setupLoop maxphyaddr root n (fullUpdateRemapRVA rva) (Word.add source pageSize) ptr
      (storeWord m (pt + entrySize * rva.ptOffset) (makePTE maxphyaddr source true))

/-- Memory, the memory map and the pages for the data, or nothing when the machine is reset. `mmapBytes` is how the memory
map lies in memory.
mirrors bootloader/src/loader/paging.cpp:531-638 -/
def setupLoaderInfo (maxphyaddr root descSize : Nat) (mmapBytes : List Descriptor → ByteMemory) (info : LoaderInfo)
    (mmap : List Descriptor) (m : PhysMem) : Option (PhysMem × List Descriptor × Nat) :=
  let mmapSize := mmap.length * descSize
  if Word.mul (totalPages mmapSize) pageSize > osLoaderData.limit then none
  else match makeshiftMalloc (totalPages mmapSize) mmap with
    | none => none
    | some (ptr, mmap) =>
      if ptr = 0 then none
      else
        let m := writeFields ptr (info.fields (mmap.length * descSize) descSize) m
        let m := storeBytes m (ptr + mmapOffset) (mmap.length * descSize) (mmapBytes mmap)
        some (setupLoop maxphyaddr root (requiredPages mmapSize) (parseVirtualAddress osLoaderData.start) ptr
          (ptr + mmapOffset + mmap.length * descSize) m, mmap, ptr)

/-! ## The memory map that is handed over -/

/-- The descriptor that gives the pages. -/
def donor (pages : Nat) (mmap : List Descriptor) : Option Descriptor :=
  mmap.find? fun d => decide (d.type = .conventionalMemory ∧ pages ≤ d.numberOfPages)

/-- One descriptor is cut in two; its last part is appended. -/
structure Cut (pages : Nat) (mmap : List Descriptor) (r : Nat × List Descriptor) (d : Descriptor) : Prop where
  first : donor pages mmap = some d
  conventional : d.type = .conventionalMemory
  start : r.1 = d.physicalStart + (d.numberOfPages - pages) * pageSize
  split : ∃ before after h, mmap = before ++ d :: after ∧
    r.2 = before ++ shrink d pages :: after ++ [newBlock d pages h]

theorem makeshiftMalloc_cut {pages : Nat} : ∀ (mmap : List Descriptor) {r : Nat × List Descriptor},
    makeshiftMalloc pages mmap = some r → ∃ d, Cut pages mmap r d
  | [], r, h => by cases h
  | d :: ds, r, h => by
    unfold makeshiftMalloc at h
    split at h
    · rename_i hd
      cases h
      exact ⟨d, List.find?_cons_of_pos (decide_eq_true hd), hd.1, rfl, [], ds, hd.2, rfl, rfl⟩
    · rename_i hd
      obtain ⟨r', hr', rfl⟩ := Option.map_eq_some_iff.mp h
      obtain ⟨e, hcut⟩ := makeshiftMalloc_cut ds hr'
      obtain ⟨before, after, hpages, hmmap, hmmap'⟩ := hcut.split
      refine ⟨e, ?_, hcut.conventional, hcut.start, d :: before, after, hpages, by rw [hmmap]; rfl, ?_⟩
      · have hfirst : donor pages (d :: ds) = donor pages ds := List.find?_cons_of_neg (by simpa using hd)
        rw [hfirst]
        exact hcut.first
      · dsimp only
        rw [hmmap']
        rfl

section
variable {pages : Nat} {mmap : List Descriptor} {r : Nat × List Descriptor} {d : Descriptor}

theorem Cut.mem (h : Cut pages mmap r d) : d ∈ mmap := List.mem_of_find?_eq_some h.first

theorem Cut.enough (h : Cut pages mmap r d) : pages ≤ d.numberOfPages := by
  obtain ⟨-, -, hpages, -⟩ := h.split
  exact hpages

/-- Every descriptor is a part of one that was there, and of a usable type only if that one was. -/
theorem Cut.refines (h : Cut pages mmap r d) (halign : ∀ e ∈ mmap, e.physicalStart % pageSize = 0) :
    ∀ e ∈ r.2, e.physicalStart % pageSize = 0 ∧ ∃ e' ∈ mmap, (e.type.usable = true → e'.type.usable = true) ∧
      ∀ p, Covers e.toEfiMemoryDescriptor p → Covers e'.toEfiMemoryDescriptor p := by
  have hd := h.mem
  have hpage : d.physicalStart % pageSize = 0 := halign d hd
  have husable : d.type.usable = true := by
    rw [h.conventional]
    rfl
  obtain ⟨before, after, hpages, rfl, hmmap'⟩ := h.split
  intro e he
  rw [hmmap'] at he
  simp only [List.append_assoc, List.mem_append, List.cons_append, List.mem_cons, List.not_mem_nil,
    or_false] at he
  rcases he with he | rfl | he | rfl
  · have hmem : e ∈ before ++ d :: after := List.mem_append_left _ he
    exact ⟨halign e hmem, e, hmem, id, fun _ hp => hp⟩
  · refine ⟨hpage, d, hd, id, fun p hp => ⟨hp.1, Nat.lt_of_lt_of_le hp.2 ?_⟩⟩
    exact Nat.add_le_add_left (Nat.sub_le _ _) _
  · have hmem : e ∈ before ++ d :: after := List.mem_append_right _ (List.mem_cons_of_mem _ he)
    exact ⟨halign e hmem, e, hmem, id, fun _ hp => hp⟩
  · unfold newBlock Covers
    dsimp only
    unfold pageSize at *
    exact ⟨by omega, d, hd, fun _ => husable, fun p hp => ⟨by omega, by omega⟩⟩

end

/-! ## The pages of the window -/

section
variable {maxphyaddr root : Nat}

/-- The page of `t` is in a descriptor that is not conventional. -/
def InUse (mmap : List EfiMemoryDescriptor) (t : Nat) : Prop :=
  ∃ d ∈ mmap, d.type ≠ .conventionalMemory ∧ Covers d (t / pageSize)

/-- What the loader has left: page tables that the firmware gave to it, those above the font in unusable memory. -/
structure Prepared (maxphyaddr root : Nat) (mmap : List EfiMemoryDescriptor) (m : PhysMem) : Prop where
  map : MapOk mmap
  memory : ∀ d ∈ mmap, d.type = .conventionalMemory → Memory maxphyaddr d
  built : Built root (InUse mmap) (fun _ => False) ⟨m, []⟩
  font : ∃ t, Reach m osLoaderFont.start 3 root 0 t
  unusable : ∀ k u, Reach m osLoaderFont.start 3 root k u →
    ∃ d ∈ mmap, d.type = .unusableMemory ∧ Covers d (u / pageSize)

/-- The font and the first pages of the window share their page table. -/
theorem window_path {i : Nat} (hi : i + 0x80 < 512) : Canonical (osLoaderData.start + i * pageSize) ∧
    Outside loopWindow (osLoaderData.start + i * pageSize) ∧
    SamePath 1 osLoaderFont.start (osLoaderData.start + i * pageSize) := by
  have hdata : osLoaderData.start = 0xFFFF800020080000 := by decide
  have hfont : osLoaderFont.start = 0xFFFF800020000000 := by decide
  have hloop : windowIndex true = 510 := by decide
  have hsize : pageSize = 4096 := rfl
  rw [hdata, hfont, hsize]
  refine ⟨.inr ⟨by omega, by omega⟩, ?_, fun k hk h3 => ?_⟩
  · unfold Outside loopWindow
    rw [hloop]
    unfold index
    omega
  · unfold index
    obtain rfl | rfl | rfl : k = 1 ∨ k = 2 ∨ k = 3 := by omega
    all_goals omega

/-! ## The copy -/

theorem writeFields_outside {ptr size q : Nat} (hq : q % 8 = 0 → ∀ i, i < 8 → ¬ (ptr ≤ q + i ∧ q + i < ptr + size)) :
    ∀ (fields : List (Nat × Nat × ByteMemory)) (m : PhysMem), (∀ field ∈ fields, field.1 + field.2.1 ≤ size) →
      writeFields ptr fields m q = m q
  | [], _, _ => rfl
  | field :: fields, m, h => by
    have hfield := h field List.mem_cons_self
    have hrest := writeFields_outside hq fields (storeBytes m (ptr + field.1) field.2.1 field.2.2)
      fun f hf => h f (List.mem_cons_of_mem _ hf)
    refine hrest.trans (storeBytes_outside fun hq8 i hi hin => hq hq8 i hi ⟨by omega, by omega⟩)

theorem fields_fit (info : LoaderInfo) (mmapSize descSize : Nat) :
    ∀ field ∈ info.fields mmapSize descSize, field.1 + field.2.1 ≤ mmapOffset := by
  simp [LoaderInfo.fields, mmapOffset]

/-- A word without a byte of the copy. -/
theorem copy_word {ptr size q : Nat} (info : LoaderInfo) (mmapSize descSize : Nat) (bytes : ByteMemory) (m : PhysMem)
    (hq : q % 8 = 0 → ∀ i, i < 8 → ¬ (ptr ≤ q + i ∧ q + i < ptr + (mmapOffset + size))) :
    storeBytes (writeFields ptr (info.fields mmapSize descSize) m) (ptr + mmapOffset) size bytes q = m q := by
  have hcopy := storeBytes_outside (m := writeFields ptr (info.fields mmapSize descSize) m) (a := ptr + mmapOffset) (n := size)
    (f := bytes) (q := q) fun hq8 i hi hin => hq hq8 i hi ⟨by omega, by omega⟩
  rw [hcopy]
  exact writeFields_outside hq _ _ fun field hf => Nat.le_trans (fields_fit info mmapSize descSize field hf) (Nat.le_add_right _ _)

end

section
variable {maxphyaddr root descSize ptr : Nat} {mmapBytes : List Descriptor → ByteMemory} {info : LoaderInfo}
  {mmap mmap' : List Descriptor} {m m' : PhysMem}

/-- A run that is not reset. -/
theorem setupLoaderInfo_cases (h : setupLoaderInfo maxphyaddr root descSize mmapBytes info mmap m = some (m', mmap', ptr)) :
    ∃ d, Cut (totalPages (mmap.length * descSize)) mmap (ptr, mmap') d ∧ ptr ≠ 0 ∧
      m' = setupLoop maxphyaddr root (requiredPages (mmap.length * descSize)) (parseVirtualAddress osLoaderData.start) ptr
        (ptr + mmapOffset + mmap'.length * descSize)
        (storeBytes (writeFields ptr (info.fields (mmap'.length * descSize) descSize) m) (ptr + mmapOffset)
          (mmap'.length * descSize) (mmapBytes mmap')) := by
  unfold setupLoaderInfo at h
  dsimp only at h
  split at h
  · cases h
  · split at h
    · cases h
    · rename_i ptr' mmap'' hmalloc
      split at h
      · cases h
      · rename_i hzero
        cases h
        obtain ⟨d, hcut⟩ := makeshiftMalloc_cut mmap hmalloc
        exact ⟨d, hcut, hzero, rfl⟩

theorem Cut.length {pages : Nat} {r : Nat × List Descriptor} {d : Descriptor} (h : Cut pages mmap r d) :
    r.2.length = mmap.length + 1 := by
  obtain ⟨before, after, hpages, rfl, hmmap'⟩ := h.split
  rw [hmmap']
  simp only [List.length_append, List.length_cons, List.length_nil]

/-- The pages that are cut off, in the memory map as the firmware has left it. -/
theorem Cut.pages {efi : List EfiMemoryDescriptor} {pages : Nat} {d : Descriptor} (h : Cut pages mmap (ptr, mmap') d)
    (hperm : (mmap.map Descriptor.toEfiMemoryDescriptor).Perm efi) (hp : Prepared maxphyaddr root efi m) :
    d.toEfiMemoryDescriptor ∈ efi ∧ ptr % 4096 = 0 ∧ ptr + pages * 4096 = d.physicalStart + d.numberOfPages * 4096 ∧
      ptr + pages * 4096 ≤ 2 ^ maxphyaddr ∧
      ∀ t, ptr ≤ t → t < ptr + pages * 4096 → Covers d.toEfiMemoryDescriptor (t / pageSize) := by
  have hmem : d.toEfiMemoryDescriptor ∈ efi := hperm.mem_iff.mp (List.mem_map_of_mem h.mem)
  obtain ⟨halign, hlimit⟩ := hp.memory _ hmem h.conventional
  have hstart : ptr = d.physicalStart + (d.numberOfPages - pages) * 4096 := h.start
  have henough := h.enough
  have hend : ptr + pages * 4096 = d.physicalStart + d.numberOfPages * 4096 := by omega
  refine ⟨hmem, by omega, hend, hend ▸ hlimit, fun t h1 h2 => ?_⟩
  unfold Covers pageSize
  omega

end

/-! ## A machine whose loader maps a font -/

/-- mirrors bootloader/src/loader/paging.cpp:511-529 -/
def mapPSFFont (answer : Nat → Nat) (maxphyaddr root font size : Nat) (s : Efi) : Option Efi :=
  if size > osLoaderFont.limit then none
  else some (indirectLoop answer maxphyaddr root true false (Word.add size (pageSize - 1) / pageSize)
    (parseVirtualAddress osLoaderFont.start) font s)

/-- After the font is mapped, all the tables are pages that the firmware gave. -/
theorem mapPSFFont_prepared {answer : Nat → Nat} {maxphyaddr root font size : Nat} (hm : maxphyaddr ≤ 52)
    {efi : List EfiMemoryDescriptor} (hmap : MapOk efi)
    (hmemory : ∀ d ∈ efi, d.type = .conventionalMemory → Memory maxphyaddr d) {s₀ s : Efi}
    (hroot : setupBasicPaging answer maxphyaddr clearMemory = (some root, s₀))
    (hfont : mapPSFFont answer maxphyaddr root font size s₀ = some s) (hsize : 0 < size)
    (hgranted : Granted maxphyaddr (fun _ => False) s.log)
    (hunusable : ∀ t, Given s.log t → ∃ d ∈ efi, d.type = .unusableMemory ∧ Covers d (t / pageSize)) :
    Prepared maxphyaddr root efi s.mem := by
  unfold mapPSFFont at hfont
  split at hfont
  · cases hfont
  rename_i hlimit
  have hfontLimit : osLoaderFont.limit = 128 * 4096 := by decide
  have hdata : osLoaderFont.start = 0xFFFF800020000000 := by decide
  have hpage : pageSize = 4096 := rfl
  obtain ⟨n, hn⟩ : ∃ n, Word.add size (pageSize - 1) / pageSize = n + 1 := by
    refine Nat.exists_eq_add_one_of_ne_zero ?_
    unfold Word.add
    rw [hpage]
    omega
  have hn128 : n < 128 := by
    unfold Word.add at hn
    rw [hpage] at hn
    omega
  rw [hn] at hfont
  obtain rfl := Option.some.inj hfont
  have hrange : ∀ i, i < n + 1 → Canonical (osLoaderFont.start + i * 4096) ∧ Outside loopWindow (osLoaderFont.start + i * 4096) := by
    intro i hi
    have hloop : windowIndex true = 510 := by decide
    rw [hdata]
    refine ⟨.inr ⟨by omega, by omega⟩, ?_⟩
    unfold Outside loopWindow
    rw [hloop]
    unfold index
    omega
  have hlog₀ : s₀.log <+: (indirectLoop answer maxphyaddr root true false (n + 1) (parseVirtualAddress osLoaderFont.start) font s₀).log :=
    indirectLoop_log true false (n + 1) _ _ _
  have hbasic : Granted maxphyaddr (fun _ => False) (setupBasicPaging answer maxphyaddr clearMemory).2.log := by
    rw [hroot]
    exact hgranted.mono hlog₀
  obtain ⟨s₀', hs₀, hb₀, -⟩ := setupBasicPaging_spec hbasic
  rw [hroot] at hs₀
  cases hs₀
  obtain ⟨hb, -⟩ := indirectLoop_keeps hm (n + 1) osLoaderFont.start font (parseVirtualAddress osLoaderFont.start) s₀ hb₀
    (fun _ => follows_parse _) hrange hgranted
  obtain ⟨t, ht⟩ := indirectLoop_reach hm hb₀ (follows_parse _) hrange hgranted
  have hva : Outside loopWindow osLoaderFont.start := by
    have hfirst := (hrange 0 (Nat.succ_pos n)).2
    rwa [Nat.zero_mul, Nat.add_zero] at hfirst
  refine ⟨hmap, hmemory, ⟨hb.tree, fun va k u hva hu => ⟨.inl ?_, fun h => h⟩, hb.links, fun u hu => hu.elim⟩, ⟨t, ht⟩, fun k u hu => ?_⟩
  · obtain ⟨d, hd, htype, hc⟩ := hunusable u ((hb.tables va k u hva hu).1.resolve_left fun h => h)
    exact ⟨d, hd, by rw [htype]; decide, hc⟩
  · exact hunusable u ((hb.tables _ k u hva hu).1.resolve_left fun h => h)

/-- A firmware that gives pages from 32MB on. -/
def firmwarePage (n : Nat) : Nat := 0x2000000 + n * 0x1000

/-- The four page tables. -/
def tablePages : Descriptor := ⟨⟨.unusableMemory, 0x2000000, 4, by decide⟩, 0⟩

/-- Enough for the kernel's bitmaps. -/
def servicePages : Descriptor := ⟨⟨.bootServicesData, dmaZone.limit, 2060, bitmapFrames.inAddressSpace⟩, 0⟩

def highPage : Descriptor := ⟨⟨.conventionalMemory, maxAddressableMemory, 1, by decide⟩, 0⟩

theorem font_prepared {efi : List EfiMemoryDescriptor} (hmap : MapOk efi)
    (hmemory : ∀ d ∈ efi, d.type = .conventionalMemory → Memory 40 d) (htables : tablePages.toEfiMemoryDescriptor ∈ efi) :
    ∃ s, mapPSFFont firmwarePage 40 0x2000000 0x2004000 0x1000 (setupBasicPaging firmwarePage 40 clearMemory).2 = some s ∧
      Prepared 40 0x2000000 efi s.mem := by
  have hroot : setupBasicPaging firmwarePage 40 clearMemory = (some 0x2000000, (setupBasicPaging firmwarePage 40 clearMemory).2) :=
    Prod.ext (by decide +kernel) rfl
  have hlog : (mapPSFFont firmwarePage 40 0x2000000 0x2004000 0x1000 (setupBasicPaging firmwarePage 40 clearMemory).2).map Efi.log =
      some [(0x2000000, 1), (0x2001000, 1), (0x2002000, 1), (0x2003000, 1)] := by decide +kernel
  obtain ⟨s, hs, hslog⟩ := Option.map_eq_some_iff.mp hlog
  refine ⟨s, hs, mapPSFFont_prepared (by decide) hmap hmemory hroot hs (by decide) ?_ fun t ht => ?_⟩
  · rw [hslog]
    exact granted_up (by decide) (by decide)
  · refine ⟨_, htables, rfl, ?_⟩
    rw [hslog] at ht
    obtain ⟨c, hc, hlow, hhigh⟩ := ht
    simp only [List.mem_cons, List.not_mem_nil, or_false] at hc
    unfold Covers tablePages pageSize
    rcases hc with rfl | rfl | rfl | rfl <;> dsimp only at hlow hhigh ⊢ <;> omega

open EfiMemoryType in
/-- `Type` in memory. -/
def typeCode : EfiMemoryType → Nat
  | reservedMemoryType => 0
  | loaderCode => 1
  | loaderData => 2
  | bootServicesCode => 3
  | bootServicesData => 4
  | runtimeServicesCode => 5
  | runtimeServicesData => 6
  | conventionalMemory => 7
  | unusableMemory => 8
  | acpiReclaimMemory => 9
  | acpiMemoryNVS => 10
  | memoryMappedIO => 11
  | memoryMappedIOPortSpace => 12
  | palCode => 13
  | persistentMemory => 14
  | unacceptedMemoryType => 15
  | other code => code.toNat

/-- Descriptors of 48 bytes, without attributes. -/
def descriptorBytes (mmap : List Descriptor) : ByteMemory := fun i =>
  match mmap[i / 48]? with
  | none => 0#8
  | some d =>
    let fields := ((((ByteMemory.write (fun _ => 0#8) 0 4 (typeCode d.type)).write 8 8 d.physicalStart).write 16 8 d.virtualStart).write
      24 8 d.numberOfPages)
    fields (i % 48)

def noInfo : LoaderInfo := ⟨fun _ => 0#8, fun _ => 0#8, 0, 0, 2, 0, fun _ => 0#8⟩

/-- Nothing to remap. -/
def keep (d : Descriptor) (_ : Unit) : Nat × Unit := (d.virtualStart, ())

def highMap : List Descriptor := [servicePages, tablePages, highPage]

theorem highMap_font : ∃ s, mapPSFFont firmwarePage 40 0x2000000 0x2004000 0x1000 (setupBasicPaging firmwarePage 40 clearMemory).2 = some s ∧
    Prepared 40 0x2000000 (highMap.map Descriptor.toEfiMemoryDescriptor) s.mem := by
  refine font_prepared ⟨?_, ?_⟩ ?_ (List.mem_of_getElem? (i := 1) rfl)
  · simp [highMap, servicePages, tablePages, highPage, dmaZone, maxAddressableMemory, pageSize]
  · simp [highMap, servicePages, tablePages, highPage, dmaZone, maxAddressableMemory, pageSize]
  · simp [highMap, servicePages, tablePages, highPage, Memory, maxAddressableMemory]

theorem highMap_loop : (descriptorLoop keep ⟨highMap, fun _ => 0#8, ()⟩).mmap = highMap := rfl

/-- The memory map that is handed over. -/
def highHanded : List Descriptor := [servicePages, tablePages, shrink highPage 1, newBlock highPage 1 (by decide)]

theorem highMap_load (m : PhysMem) : ∃ m', setupLoaderInfo 40 0x2000000 48 descriptorBytes noInfo
    (descriptorLoop keep ⟨highMap, fun _ => 0#8, ()⟩).mmap m = some (m', highHanded, maxAddressableMemory) := by
  rw [highMap_loop]
  exact ⟨_, rfl⟩

end BadLands.Loader.HandOver
