import Mathlib.Data.List.Pairwise
import BadLands.Core.Word
import BadLands.Core.WordBytes
import BadLands.Loader.Paging

/-!
# Loading the kernel

The loader reads the program headers of an ELF file, copies each loadable segment to pages of its own, from the start of
the first page on, and maps these pages from the page of the segment's virtual address on. A segment that starts inside a
page is moved down to the start of it; of two segments with pages in common, the later one has them.

`loadSegments_spec` says which byte is found at every address after all the segments. `loaded_iff` compares that with what the
file says.
-/
namespace BadLands.Loader.KernelImage

open BadLands.Core BadLands.Core.PageTable BadLands.Mm.Layout BadLands.Mm.Paging BadLands.Loader.Paging

/-! ## The code -/

/-- The fields that the loader reads.
mirrors bootloader/include/loader/kernel_loader.hpp:23-32 -/
structure ProgramHeader where
  segmentType : Nat
  fileOffset : Nat
  segmentVirtualAddress : Nat
  segmentFileSize : Nat
  segmentMemorySize : Nat
  deriving DecidableEq

def programHeader (file : ByteMemory) (a : Nat) : ProgramHeader where
  segmentType := file.read a 4
  fileOffset := file.read (a + 8) 8
  segmentVirtualAddress := file.read (a + 16) 8
  segmentFileSize := file.read (a + 32) 8
  segmentMemorySize := file.read (a + 40) 8

/-- `sizeof(ELF_PROGRAM_HEADER)` -/
def programHeaderSize : Nat := 56

/-- mirrors bootloader/include/loader/kernel_loader.hpp:47-66 -/
structure ElfHeader where
  magic : Nat
  format : Nat
  endianness : Nat
  type : Nat
  mArch : Nat
  entryPoint : Nat
  programHeaderTableOffset : Nat
  programHeadersCount : Nat
  deriving DecidableEq

def elfHeader (file : ByteMemory) : ElfHeader where
  magic := file.read 0 4
  format := file.read 4 1
  endianness := file.read 5 1
  type := file.read 16 2
  mArch := file.read 18 2
  entryPoint := file.read 24 8
  programHeaderTableOffset := file.read 32 8
  programHeadersCount := file.read 56 2

/-- mirrors bootloader/src/loader/kernel_loader.cpp:42-47; the magic as a little-endian number. -/
def elfMagic : Nat := 0x464C457F
def elf64 : Nat := 0x02
def elfLE : Nat := 0x01
def elfExecType : Nat := 0x02
def elfMarchX86_64 : Nat := 0x003E
def elfLoadSegment : Nat := 0x00000001

/-- `elf_phdr_table` -/
def programHeaders (file : ByteMemory) : List ProgramHeader :=
  (List.range (elfHeader file).programHeadersCount).map fun i =>
    programHeader file ((elfHeader file).programHeaderTableOffset + programHeaderSize * i)

section
variable (answer : Nat → Nat) (maxphyaddr root : Nat)

/-- mirrors bootloader/src/loader/paging.cpp:421-430 -/
def mapKernel (source dest size : Nat) (s : Efi) : Efi :=
  indirectLoop answer maxphyaddr root false false (Word.add size (pageSize - 1) / pageSize) (parseVirtualAddress dest) source s

/-- mirrors bootloader/src/loader/kernel_loader.cpp:75-104 -/
def loadSegment (file : ByteMemory) (h : ProgramHeader) (s : Efi) : Efi :=
  if h.segmentType = elfLoadSegment then
    let segmentPages := Word.add h.segmentMemorySize (pageSize - 1) / pageSize
    let (segmentMemory, s) := allocatePages answer segmentPages s
    let m := zeroMem s.mem segmentMemory (segmentPages * pageSize)
    let m := storeBytes m segmentMemory h.segmentFileSize fun i => file (h.fileOffset + i)
    mapKernel answer maxphyaddr root segmentMemory h.segmentVirtualAddress (segmentPages * pageSize) { s with mem := m }
  else s

def loadSegments (file : ByteMemory) (hs : List ProgramHeader) (s : Efi) : Efi :=
  hs.foldl (fun s h => loadSegment answer maxphyaddr root file h s) s

/-- The entry point, or the code of `notify_corrupted_kernel`.
mirrors bootloader/src/loader/kernel_loader.cpp:49-112 -/
def loadKernelPe (file : ByteMemory) (s : Efi) : Except Nat (Nat × Efi) :=
  let elfHdr := elfHeader file
  if elfHdr.magic ≠ elfMagic then .error 0x0
  else if elfHdr.format ≠ elf64 ∨ elfHdr.endianness ≠ elfLE ∨ elfHdr.mArch ≠ elfMarchX86_64 then .error 0x1
  else if elfHdr.type ≠ elfExecType then .error 0x2
  else .ok (elfHdr.entryPoint, loadSegments answer maxphyaddr root file (programHeaders file) s)

end

/-! ## What is found at an address -/

/-- What the file says about byte `i` of a segment. -/
def segmentByte (file : ByteMemory) (h : ProgramHeader) (i : Nat) : BitVec 8 :=
  if i < h.segmentFileSize then file (h.fileOffset + i) else 0#8

def segmentPages (h : ProgramHeader) : Nat := (h.segmentMemorySize + 4095) / 4096

/-- The segment is loaded to a range of pages that has `page`. -/
def Covers (h : ProgramHeader) (page : Nat) : Prop :=
  h.segmentType = elfLoadSegment ∧ h.segmentVirtualAddress / 4096 ≤ page ∧
    page < h.segmentVirtualAddress / 4096 + segmentPages h

instance (h : ProgramHeader) (page : Nat) : Decidable (Covers h page) := inferInstanceAs (Decidable (_ ∧ _))

/-- The last segment that covers the page. -/
def owner (hs : List ProgramHeader) (page : Nat) : Option ProgramHeader := hs.reverse.find? fun h => decide (Covers h page)

/-- The byte that a segment puts at `va`: the segment begins where its first page begins. -/
def placedByte (file : ByteMemory) (h : ProgramHeader) (va : Nat) : BitVec 8 :=
  segmentByte file h (va - h.segmentVirtualAddress / 4096 * 4096)

/-- What is found at the addresses, when the segments `hs` have been loaded to the pages `D`. -/
structure Holds (file : ByteMemory) (root : Nat) (D : Nat → Prop) (hs : List ProgramHeader) (m : PhysMem) : Prop where
  owned : ∀ va h, Outside loopWindow va → Canonical va → owner hs (va / 4096) = some h →
    ∃ p, translation m root va = some p ∧ D (p / 4096 * 4096) ∧ byteAt m p = placedByte file h va
  absent : ∀ va, Outside loopWindow va → Canonical va → owner hs (va / 4096) = none → translation m root va = none

/-! ## One segment -/

/-- What a range of addresses allows. -/
theorem size_le {v n : Nat} (h : ∀ i, i < n → Canonical (v + i)) : n ≤ 2 ^ 47 := by
  refine Nat.le_of_not_lt fun hn => ?_
  rcases h 0 (by omega) with hlow | ⟨hlow, hhigh⟩
  · have hhole := h (2 ^ 47 - v) (by omega)
    unfold Canonical at hhole
    omega
  · have hend := h (2 ^ 47) hn
    unfold Canonical at hend
    omega

theorem byteAt_zeroMem {m : PhysMem} {a size b : Nat} (ha : a % 8 = 0) (h1 : a ≤ b) (h2 : b < a + size) :
    byteAt (zeroMem m a size) b = 0#8 := by
  unfold byteAt zeroMem
  rw [if_pos (by omega)]
  simp

/-- What loading a segment to the pages from `a` on does. -/
structure Loaded (file : ByteMemory) (root : Nat) (U D : Nat → Prop) (h : ProgramHeader) (s : Efi) (a : Nat) (s' : Efi) : Prop where
  built : Built root U (fun t => D t ∨ (a ≤ t ∧ t < a + segmentPages h * 4096)) s'
  keeps : Keeps root D s s'
  aligned : a % 4096 = 0
  bytes : ∀ i, i < segmentPages h * 4096 → byteAt s'.mem (a + i) = segmentByte file h i
  translate : ∀ va, Outside loopWindow va → Canonical va → translation s'.mem root va =
    if Covers h (va / 4096) then some (a + (va / 4096 - h.segmentVirtualAddress / 4096) * 4096 + va % 4096)
    else translation s.mem root va

section
variable {answer : Nat → Nat} {maxphyaddr root : Nat} {U D : Nat → Prop} {s : Efi} {file : ByteMemory} {h : ProgramHeader}

theorem mapKernel_log (source dest size : Nat) (s : Efi) : s.log <+: (mapKernel answer maxphyaddr root source dest size s).log :=
  indirectLoop_log ..

theorem loadSegment_spec (hm : maxphyaddr ≤ 52) (hb : Built root U D s) (hload : h.segmentType = elfLoadSegment)
    (hspace : ∀ i, i < h.segmentMemorySize →
      Canonical (h.segmentVirtualAddress + i) ∧ Outside loopWindow (h.segmentVirtualAddress + i))
    (hsize : h.segmentFileSize ≤ h.segmentMemorySize)
    (hg : Granted maxphyaddr U (loadSegment answer maxphyaddr root file h s).log) :
    ∃ a, Loaded file root U D h s a (loadSegment answer maxphyaddr root file h s) := by
  have hmemory := size_le fun i hi => (hspace i hi).1
  have hpage : pageSize = 4096 := rfl
  have hpages : Word.add h.segmentMemorySize (pageSize - 1) / pageSize = segmentPages h := by
    rw [Word.add_eq (by omega), hpage]
    rfl
  have hfit : h.segmentMemorySize ≤ segmentPages h * 4096 ∧ segmentPages h * 4096 < h.segmentMemorySize + 4096 := by
    unfold segmentPages
    omega
  have hmap : Word.add (segmentPages h * 4096) (pageSize - 1) / pageSize = segmentPages h := by
    rw [Word.add_eq (by omega), hpage]
    omega
  unfold loadSegment allocatePages at hg ⊢
  rw [if_pos hload] at hg ⊢
  dsimp only at hg ⊢
  rw [hpages, hpage] at hg ⊢
  generalize answer s.log.length = a at hg ⊢
  have hmem : (a, segmentPages h) ∈ s.log ++ [(a, segmentPages h)] := by simp
  have hg' := hg.mono (mapKernel_log ..)
  have halign : a % 4096 = 0 := hg'.aligned _ hmem
  have hlimit : a + segmentPages h * 4096 ≤ 2 ^ maxphyaddr := hg'.memory _ hmem
  generalize hn : segmentPages h = n at *
  generalize hstore : storeBytes (zeroMem s.mem a (n * 4096)) a h.segmentFileSize (fun i => file (h.fileOffset + i)) = m at hg hg' ⊢
  have hbytes : ∀ i, i < n * 4096 → byteAt m (a + i) = segmentByte file h i := fun i hi => by
    rw [← hstore, byteAt_storeBytes]
    unfold segmentByte
    by_cases hfile : i < h.segmentFileSize
    · rw [if_pos (by omega), if_pos hfile, Nat.add_sub_cancel_left]
    · rw [if_neg (by omega), if_neg hfile, byteAt_zeroMem (by omega) (by omega) (by omega)]
  have houtside : ∀ q, ¬ (a ≤ q ∧ q < a + n * 4096) → m q = s.mem q := fun q hq => by
    rw [← hstore, storeBytes_outside fun h8 i hi => by omega]
    exact if_neg hq
  obtain ⟨hb', hk, htranslate⟩ := written_spec hb hg' houtside
  have hrange : ∀ i, i < n → Canonical (h.segmentVirtualAddress + i * 4096) ∧
      Outside loopWindow (h.segmentVirtualAddress + i * 4096) := fun i hi => hspace (i * 4096) (by omega)
  unfold mapKernel at hg ⊢
  rw [hmap] at hg ⊢
  obtain ⟨hb'', hk'⟩ := indirectLoop_keeps hm n h.segmentVirtualAddress a _ _ hb' (fun _ => follows_parse _) hrange hg
  have htranslate' := indirectLoop_spec hm n h.segmentVirtualAddress a _ _ hb' (fun _ => follows_parse _) hrange halign hlimit hg
  refine ⟨a, ?_, hk.trans ⟨hk'.log, hk'.reach, fun q hq => hk'.data q (.inl hq)⟩, halign, fun i hi => ?_, fun va hva hcan => ?_⟩
  · rw [hn]
    exact hb''
  · rw [hn] at hi
    rw [byteAt_congr (hk'.data _ (.inr ⟨by omega, by omega⟩))]
    exact hbytes i hi
  · rw [htranslate' va hva hcan, htranslate va hva]
    refine ite_congr (propext ?_) (fun _ => rfl) (fun _ => rfl)
    unfold Covers
    rw [hn]
    exact (and_iff_right hload).symm

/-! ## All the segments -/

theorem owner_append (hs : List ProgramHeader) (h : ProgramHeader) (page : Nat) :
    owner (hs ++ [h]) page = if Covers h page then some h else owner hs page := by
  unfold owner
  rw [List.reverse_append, List.reverse_singleton, List.singleton_append, List.find?_cons]
  by_cases hc : Covers h page
  · simp [hc]
  · simp [hc]

theorem owner_mem {hs : List ProgramHeader} {page : Nat} {t : ProgramHeader} (ho : owner hs page = some t) :
    t ∈ hs ∧ Covers t page := by
  unfold owner at ho
  have hc := List.find?_some ho
  exact ⟨List.mem_reverse.mp (List.mem_of_find?_eq_some ho), of_decide_eq_true hc⟩

theorem owner_none {hs : List ProgramHeader} {page : Nat} (ho : owner hs page = none) : ∀ h ∈ hs, ¬ Covers h page :=
  fun h hh => of_decide_eq_false (Bool.eq_false_iff.mpr (List.find?_eq_none.mp ho h (List.mem_reverse.mpr hh)))

/-- The segment that is loaded now owns its pages, the other pages stay. -/
theorem Holds.load {hs : List ProgramHeader} {a : Nat} {s' : Efi} (hh : Holds file root D hs s.mem)
    (hl : Loaded file root U D h s a s') :
    Holds file root (fun t => D t ∨ (a ≤ t ∧ t < a + segmentPages h * 4096)) (hs ++ [h]) s'.mem where
  owned va t hva hcan ho := by
    rw [owner_append] at ho
    have htranslate := hl.translate va hva hcan
    by_cases hc : Covers h (va / 4096)
    · rw [if_pos hc] at ho htranslate
      obtain rfl := Option.some.inj ho
      have halign := hl.aligned
      obtain ⟨-, hlow, hhigh⟩ := hc
      have hindex : va - h.segmentVirtualAddress / 4096 * 4096 =
          (va / 4096 - h.segmentVirtualAddress / 4096) * 4096 + va % 4096 := by omega
      refine ⟨_, htranslate, .inr ⟨by omega, by omega⟩, ?_⟩
      rw [placedByte, hindex, Nat.add_assoc]
      exact hl.bytes _ (by omega)
    · rw [if_neg hc] at ho htranslate
      obtain ⟨p, hp, hd, hbyte⟩ := hh.owned va t hva hcan ho
      refine ⟨p, htranslate.trans hp, .inl hd, ?_⟩
      rw [byteAt_congr (hl.keeps.data _ (by rwa [show p / 8 * 8 / 4096 * 4096 = p / 4096 * 4096 by omega]))]
      exact hbyte
  absent va hva hcan ho := by
    rw [owner_append] at ho
    have htranslate := hl.translate va hva hcan
    by_cases hc : Covers h (va / 4096)
    · rw [if_pos hc] at ho
      cases ho
    · rw [if_neg hc] at ho htranslate
      exact htranslate.trans (hh.absent va hva hcan ho)

/-- A segment that is not loadable is no segment. -/
theorem Holds.skip {hs : List ProgramHeader} (hh : Holds file root D hs s.mem) (hload : h.segmentType ≠ elfLoadSegment) :
    Holds file root D (hs ++ [h]) s.mem := by
  have howner : ∀ page, owner (hs ++ [h]) page = owner hs page := fun page => by
    rw [owner_append, if_neg fun hc => hload hc.1]
  exact ⟨fun va t hva hcan ho => hh.owned va t hva hcan (howner _ ▸ ho),
    fun va hva hcan ho => hh.absent va hva hcan (howner _ ▸ ho)⟩

/-- Every address of a loadable segment is one the processor takes, and none is of the window of the tables. -/
def InSpace (hs : List ProgramHeader) : Prop :=
  ∀ h ∈ hs, h.segmentType = elfLoadSegment → ∀ i, i < h.segmentMemorySize →
    Canonical (h.segmentVirtualAddress + i) ∧ Outside loopWindow (h.segmentVirtualAddress + i)

/-- File sizes are at most memory sizes. -/
def Sized (hs : List ProgramHeader) : Prop :=
  ∀ h ∈ hs, h.segmentType = elfLoadSegment → h.segmentFileSize ≤ h.segmentMemorySize

theorem loadSegment_log (s : Efi) : s.log <+: (loadSegment answer maxphyaddr root file h s).log := by
  unfold loadSegment
  split
  · unfold allocatePages
    dsimp only
    exact (List.prefix_append s.log [_]).trans (mapKernel_log _ _ _ ⟨_, _⟩)
  · exact List.prefix_rfl

theorem loadSegments_log (hs : List ProgramHeader) : ∀ s : Efi, s.log <+: (loadSegments answer maxphyaddr root file hs s).log := by
  induction hs with
  | nil => exact fun _ => List.prefix_rfl
  | cons h hs ih => exact fun s => (loadSegment_log s).trans (ih _)

theorem loadSegments_spec (hm : maxphyaddr ≤ 52) : ∀ (rest before : List ProgramHeader) (D : Nat → Prop) (s : Efi),
    Built root U D s → Holds file root D before s.mem → InSpace rest → Sized rest →
    Granted maxphyaddr U (loadSegments answer maxphyaddr root file rest s).log →
    ∃ D', Holds file root D' (before ++ rest) (loadSegments answer maxphyaddr root file rest s).mem
  | [], before, D, s, _, hh, _, _, _ => by
    rw [List.append_nil]
    exact ⟨D, hh⟩
  | h :: rest, before, D, s, hb, hh, hspace, hsized, hg => by
    have hhead : h ∈ h :: rest := List.mem_cons_self
    have hspace' : InSpace rest := fun x hx => hspace x (List.mem_cons_of_mem _ hx)
    have hsized' : Sized rest := fun x hx => hsized x (List.mem_cons_of_mem _ hx)
    have hstep : loadSegments answer maxphyaddr root file (h :: rest) s =
        loadSegments answer maxphyaddr root file rest (loadSegment answer maxphyaddr root file h s) := rfl
    rw [hstep] at hg ⊢
    rw [← List.singleton_append, ← List.append_assoc]
    by_cases hload : h.segmentType = elfLoadSegment
    · obtain ⟨a, hl⟩ := loadSegment_spec hm hb hload (hspace h hhead hload) (hsized h hhead hload)
        (hg.mono (loadSegments_log rest _))
      exact loadSegments_spec hm rest _ _ _ hl.built (hh.load hl) hspace' hsized' hg
    · have hsame : loadSegment answer maxphyaddr root file h s = s := if_neg hload
      rw [hsame] at hg ⊢
      exact loadSegments_spec hm rest _ _ _ hb (hh.skip hload) hspace' hsized' hg

/-! ## The image and the file -/

/-- Address `va` is one of the segment. -/
def Contains (h : ProgramHeader) (va : Nat) : Prop :=
  h.segmentType = elfLoadSegment ∧ h.segmentVirtualAddress ≤ va ∧ va < h.segmentVirtualAddress + h.segmentMemorySize

/-- The segments do not share addresses. -/
def Disjoint (hs : List ProgramHeader) : Prop := hs.Pairwise fun h h' => ∀ va, ¬ (Contains h va ∧ Contains h' va)

/-- Every byte of every loadable segment is found at its address. -/
def ImageLoaded (file : ByteMemory) (root : Nat) (m : PhysMem) : Prop :=
  ∀ h ∈ programHeaders file, h.segmentType = elfLoadSegment → ∀ i, i < h.segmentMemorySize →
    ∃ p, translation m root (h.segmentVirtualAddress + i) = some p ∧ byteAt m p = segmentByte file h i

def AllCanonical (hs : List ProgramHeader) : Prop :=
  ∀ h ∈ hs, h.segmentType = elfLoadSegment → ∀ i, i < h.segmentMemorySize → Canonical (h.segmentVirtualAddress + i)

/-- The last segment that covers the page of a byte has that byte there, when it begins where its first page begins. -/
def InPlace (file : ByteMemory) (hs : List ProgramHeader) : Prop :=
  ∀ h ∈ hs, h.segmentType = elfLoadSegment → ∀ i, i < h.segmentMemorySize →
    ∃ t, owner hs ((h.segmentVirtualAddress + i) / 4096) = some t ∧
      placedByte file t (h.segmentVirtualAddress + i) = segmentByte file h i

/-- Segments that are not empty start with a page. -/
def PageAligned (hs : List ProgramHeader) : Prop :=
  ∀ h ∈ hs, h.segmentType = elfLoadSegment → 0 < h.segmentMemorySize → h.segmentVirtualAddress % 4096 = 0

theorem PageAligned.inPlace {hs : List ProgramHeader} (h : PageAligned hs) (hd : Disjoint hs) : InPlace file hs := by
  intro x hx hload i hi
  have halign := h x hx hload (by omega)
  have hcovers : ∀ t ∈ hs, Covers t ((x.segmentVirtualAddress + i) / 4096) →
      Contains t ((x.segmentVirtualAddress + i) / 4096 * 4096) := by
    rintro t ht ⟨hload', hlow, hhigh⟩
    unfold segmentPages at hhigh
    have halign' := h t ht hload' (by omega)
    exact ⟨hload', by omega, by omega⟩
  have hself : Covers x ((x.segmentVirtualAddress + i) / 4096) := by
    unfold Covers segmentPages
    exact ⟨hload, by omega, by omega⟩
  cases ho : owner hs ((x.segmentVirtualAddress + i) / 4096) with
  | none => exact absurd hself (owner_none ho x hx)
  | some t =>
    obtain ⟨ht, hc⟩ := owner_mem ho
    -- two segments that cover a page share its first address
    have hsymm : Std.Symm fun h h' : ProgramHeader => ∀ va, ¬ (Contains h va ∧ Contains h' va) :=
      ⟨fun _ _ hab va hba => hab va hba.symm⟩
    have heq : t = x := Classical.byContradiction fun hne =>
      hd.forall ht hx hne _ ⟨hcovers t ht hc, hcovers x hx hself⟩
    subst heq
    refine ⟨t, rfl, ?_⟩
    rw [placedByte, show t.segmentVirtualAddress / 4096 * 4096 = t.segmentVirtualAddress by omega, Nat.add_sub_cancel_left]

/-- The image is the one of the file if and only if its addresses are canonical and its bytes are in place; where the segments
start with a page they are. -/
theorem loaded_iff (hm : maxphyaddr ≤ 52) {s₀ s' : Efi} {entryPoint : Nat}
    (hstart : setupBasicPaging answer maxphyaddr s₀ = (some root, s))
    (hrun : loadKernelPe answer maxphyaddr root file s = .ok (entryPoint, s')) (hg : Granted maxphyaddr U s'.log)
    (hsized : Sized (programHeaders file)) (hdisjoint : Disjoint (programHeaders file))
    (houtside : ∀ h ∈ programHeaders file, h.segmentType = elfLoadSegment → ∀ i, i < h.segmentMemorySize →
      Outside loopWindow (h.segmentVirtualAddress + i)) :
    (ImageLoaded file root s'.mem ↔ AllCanonical (programHeaders file) ∧ InPlace file (programHeaders file)) ∧
      (PageAligned (programHeaders file) → InPlace file (programHeaders file)) := by
  have hs' : s' = loadSegments answer maxphyaddr root file (programHeaders file) s := by
    unfold loadKernelPe at hrun
    dsimp only at hrun
    split at hrun
    · cases hrun
    · split at hrun
      · cases hrun
      · split at hrun
        · cases hrun
        · exact (Prod.mk.inj (Except.ok.inj hrun)).2.symm
  have hcanonical : ImageLoaded file root s'.mem → AllCanonical (programHeaders file) := by
    intro hloaded h hh hload i hi
    obtain ⟨p, hp, -⟩ := hloaded h hh hload i hi
    unfold translation at hp
    split at hp
    · assumption
    · cases hp
  have hholds : AllCanonical (programHeaders file) → ∃ D, Holds file root D (programHeaders file) s'.mem := by
    intro hcan
    rw [hs'] at hg ⊢
    have hgs : Granted maxphyaddr U (setupBasicPaging answer maxphyaddr s₀).2.log := by
      rw [hstart]
      exact hg.mono (loadSegments_log _ _)
    obtain ⟨s'', hs'', hb, hempty⟩ := setupBasicPaging_spec hgs
    rw [hstart] at hs''
    obtain ⟨hroot, rfl⟩ := Prod.mk.inj hs''
    rw [← Option.some.inj hroot] at hb hempty
    exact loadSegments_spec hm (programHeaders file) [] _ s hb ⟨fun _ _ _ _ ho => (by cases ho), fun va hva _ _ => hempty va hva⟩
      (fun h hh hload i hi => ⟨hcan h hh hload i hi, houtside h hh hload i hi⟩) hsized hg
  refine ⟨⟨fun hloaded => ?_, fun ⟨hcan, hplace⟩ => ?_⟩, fun halign => halign.inPlace hdisjoint⟩
  · have hcan := hcanonical hloaded
    obtain ⟨D, hh⟩ := hholds hcan
    refine ⟨hcan, fun h hin hload i hi => ?_⟩
    obtain ⟨p, hp, hbyte⟩ := hloaded h hin hload i hi
    have hout := houtside h hin hload i hi
    have hc := hcan h hin hload i hi
    cases ho : owner (programHeaders file) ((h.segmentVirtualAddress + i) / 4096) with
    | none =>
      rw [hh.absent _ hout hc ho] at hp
      cases hp
    | some t =>
      obtain ⟨q, hq, -, hplaced⟩ := hh.owned _ t hout hc ho
      obtain rfl : p = q := Option.some.inj (hp.symm.trans hq)
      exact ⟨t, rfl, hplaced.symm.trans hbyte⟩
  · obtain ⟨D, hh⟩ := hholds hcan
    intro h hin hload i hi
    obtain ⟨t, ho, hplaced⟩ := hplace h hin hload i hi
    obtain ⟨p, hp, -, hbyte⟩ := hh.owned _ t (houtside h hin hload i hi) (hcan h hin hload i hi) ho
    exact ⟨p, hp, hbyte.trans hplaced⟩

end

/-! ## A file with one segment of eight bytes -/

def imageAt (va : Nat) : ByteMemory :=
  let m : ByteMemory := fun _ => 0#8
  let m := ((((m.write 0 4 elfMagic).write 4 1 elf64).write 5 1 elfLE).write 16 2 elfExecType).write 18 2 elfMarchX86_64
  let m := ((m.write 24 8 va).write 32 8 64).write 56 2 1
  let m := ((((m.write 64 4 elfLoadSegment).write 72 8 120).write 80 8 va).write 96 8 8).write 104 8 8
  m.write 120 8 0x0807060504030201

def imageState (va : Nat) : Efi :=
  loadSegments nextPage 36 0x1000 (imageAt va) (programHeaders (imageAt va)) (setupBasicPaging nextPage 36 clearMemory).2

theorem loadKernelPe_imageAt {va : Nat} (h : elfHeader (imageAt va) = ⟨elfMagic, elf64, elfLE, elfExecType, elfMarchX86_64, va, 64, 1⟩) :
    loadKernelPe nextPage 36 0x1000 (imageAt va) (setupBasicPaging nextPage 36 clearMemory).2 = .ok (va, imageState va) := by
  unfold loadKernelPe
  rw [h]
  rfl

/-- What the claims about a file with one segment come to. -/
theorem imageAt_input {va : Nat} (hheaders : programHeaders (imageAt va) = [⟨elfLoadSegment, 120, va, 8, 8⟩])
    (hlog : (imageState va).log = [(0x1000, 1), (0x2000, 1), (0x3000, 1), (0x4000, 1), (0x5000, 1)]) :
    Granted 36 (fun _ => False) (imageState va).log ∧ Sized (programHeaders (imageAt va)) ∧
      Disjoint (programHeaders (imageAt va)) := by
  rw [hheaders, hlog]
  refine ⟨granted_up (by decide) (by decide), fun h hh _ => ?_, List.pairwise_singleton _ _⟩
  obtain rfl := List.mem_singleton.mp hh
  exact Nat.le_refl _

theorem loaded_iff_aligned : ImageLoaded (imageAt 0xFFFF800000000000) 0x1000 (imageState 0xFFFF800000000000).mem := by
  have hheaders : programHeaders (imageAt 0xFFFF800000000000) = [⟨elfLoadSegment, 120, 0xFFFF800000000000, 8, 8⟩] := by
    decide +kernel
  obtain ⟨hg, hsized, hdisjoint⟩ := imageAt_input hheaders (by decide +kernel)
  have hbytes : ∀ h ∈ programHeaders (imageAt 0xFFFF800000000000), h.segmentVirtualAddress = 0xFFFF800000000000 ∧
      h.segmentMemorySize = 8 := fun h hh => by
    rw [hheaders] at hh
    obtain rfl := List.mem_singleton.mp hh
    exact ⟨rfl, rfl⟩
  have h := loaded_iff (show 36 ≤ 52 by decide) setupBasicPaging_clearMemory (loadKernelPe_imageAt (by decide +kernel)) hg hsized
    hdisjoint fun h hh _ i hi => by
      obtain ⟨hva, hsize⟩ := hbytes h hh
      have hloop : windowIndex true = 510 := by decide
      unfold Outside loopWindow index
      omega
  refine h.1.mpr ⟨fun h hh _ i hi => ?_, h.2 fun h hh _ _ => ?_⟩
  · obtain ⟨hva, hsize⟩ := hbytes h hh
    unfold Canonical
    omega
  · rw [(hbytes h hh).1]

/-- The segment starts inside a page, and its first byte is looked for in the middle of the page. -/
theorem offset_dropped : ∃ s', loadKernelPe nextPage 36 0x1000 (imageAt 0xFFFF800000000800)
      (setupBasicPaging nextPage 36 clearMemory).2 = .ok (0xFFFF800000000800, s') ∧
    Granted 36 (fun _ => False) s'.log ∧ Sized (programHeaders (imageAt 0xFFFF800000000800)) ∧
    Disjoint (programHeaders (imageAt 0xFFFF800000000800)) ∧ ¬ ImageLoaded (imageAt 0xFFFF800000000800) 0x1000 s'.mem := by
  have hheaders : programHeaders (imageAt 0xFFFF800000000800) = [⟨elfLoadSegment, 120, 0xFFFF800000000800, 8, 8⟩] := by
    decide +kernel
  obtain ⟨hg, hsized, hdisjoint⟩ := imageAt_input hheaders (by decide +kernel)
  refine ⟨_, loadKernelPe_imageAt (by decide +kernel), hg, hsized, hdisjoint, fun hloaded => ?_⟩
  obtain ⟨p, hp, hbyte⟩ := hloaded ⟨elfLoadSegment, 120, 0xFFFF800000000800, 8, 8⟩ (by rw [hheaders]; exact List.mem_singleton_self _)
    rfl 0 (by decide)
  have hpage : translation (imageState 0xFFFF800000000800).mem 0x1000 (0xFFFF800000000800 + 0) = some 0x2800 := by decide +kernel
  have hzero : byteAt (imageState 0xFFFF800000000800).mem 0x2800 = 0#8 := by decide +kernel
  have hfile : segmentByte (imageAt 0xFFFF800000000800) ⟨elfLoadSegment, 120, 0xFFFF800000000800, 8, 8⟩ 0 = 1#8 := by
    decide +kernel
  obtain rfl : (0x2800 : Nat) = p := Option.some.inj (hpage.symm.trans hp)
  rw [hzero, hfile] at hbyte
  cases hbyte

end BadLands.Loader.KernelImage
