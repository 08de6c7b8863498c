import BadLands.Loader.KernelImage

/-!
# The bounds of loading the kernel

`load_kernel_pe` is told where the file is in memory and not how many bytes it has. Here it has the log of its reads and of its
copies in place of their effects: between two turns of its loop, and behind `SetMem`, any byte of the memory may be another one.

* `loadKernelPe_isOk`: a file is rejected for its header only, as in `KernelImage`.
* `loadKernelPe_bounded_iff`: the header, the program headers and the bytes of the segments are in the file, and the segments in
  their pages, when the fields of the file say so; nothing compares them.
-/
namespace BadLands.Loader.KernelBounds

open BadLands.Core BadLands.Mm.Layout BadLands.Loader.KernelImage

/-! ## The code -/

/-- The pool memory that the file has been read to, in the memory of a processor with physical addresses of 52 bits.
mirrors bootloader/src/loader/kernel_loader.cpp:126-142 -/
structure KernelData where
  base : Nat
  size : Nat
  fits : base + size ≤ 2 ^ 52

/-- What one turn of the loop over the program headers finds. -/
structure Turn where
  /-- The memory when the turn begins. -/
  memory : ByteMemory
  /-- The memory after `SetMem`. -/
  filled : ByteMemory
  /-- `AllocatePages` has so many pages. -/
  grants : Nat → Bool

inductive Access where
  | read (a n : Nat)
  /-- `CopyMem` to a segment of so many allocated bytes. -/
  | copy (source size allocated : Nat)
  deriving DecidableEq

section
variable (f : KernelData) (turns : Nat → Turn) (i : Nat)

/-- The memory from `kernel_data` on. -/
def KernelData.seen (m : ByteMemory) : ByteMemory := fun k => m (Word.add f.base k)

def KernelData.read (offset n : Nat) : Access := .read (Word.add f.base offset) n

/-- `elf_hdr` -/
def header : ElfHeader := elfHeader (f.seen (turns i).memory)

/-- `&elf_phdr_table[i]` -/
def entryOffset : Nat := Word.add (header f turns 0).programHeaderTableOffset (programHeaderSize * i)

/-- `elf_phdr_table[i]`, as it is before the pages are allocated. -/
def entry : ProgramHeader := programHeader (f.seen (turns i).memory) (entryOffset f turns i)

/-- `elf_phdr_table[i]`, as it is when the pages have been cleared. -/
def filledEntry : ProgramHeader := programHeader (f.seen (turns i).filled) (entryOffset f turns i)

/-- The bytes of the pages; `segment_memory` stays null when the firmware has none. -/
def allocated : Nat :=
  let segmentPages := Word.add (entry f turns i).segmentMemorySize (pageSize - 1) / pageSize
  if (turns i).grants segmentPages then segmentPages * pageSize else 0

/-- mirrors bootloader/src/loader/kernel_loader.cpp:75-104 -/
def turnAccesses : List Access :=
  let offset := entryOffset f turns i
  let h := filledEntry f turns i
  f.read offset 4 ::
    if (entry f turns i).segmentType = elfLoadSegment then
      [f.read (offset + 40) 8, f.read (offset + 8) 8, f.read (offset + 32) 8,
        .copy (Word.add f.base h.fileOffset) h.segmentFileSize (allocated f turns i), f.read (offset + 16) 8]
    else []

theorem programHeadersCount_lt : (header f turns i).programHeadersCount < 65536 := ByteMemory.read_lt 56 2

/-- The loop over the program headers and the entry point behind it.
mirrors bootloader/src/loader/kernel_loader.cpp:74-111 -/
def segmentLoop (i : Nat) : Nat × List Access :=
  if _h : i < (header f turns i).programHeadersCount then
    let (entryPoint, log) := segmentLoop (i + 1)
    (entryPoint, f.read 56 2 :: (turnAccesses f turns i ++ log))
  else ((header f turns i).entryPoint, [f.read 56 2, f.read 24 8])
termination_by 65536 - i
decreasing_by
  have := programHeadersCount_lt f turns i
  omega

/-- The entry point and the log, or the code of `notify_corrupted_kernel`.
mirrors bootloader/src/loader/kernel_loader.cpp:49-112 -/
def loadKernelPe : Except Nat (Nat × List Access) :=
  let elfHdr := header f turns 0
  if elfHdr.magic ≠ elfMagic then .error 0x0
  else if elfHdr.format ≠ elf64 ∨ elfHdr.endianness ≠ elfLE ∨ elfHdr.mArch ≠ elfMarchX86_64 then .error 0x1
  else if elfHdr.type ≠ elfExecType then .error 0x2
  else
    let (entryPoint, log) := segmentLoop f turns 0
    .ok (entryPoint, [f.read 0 4, f.read 4 1, f.read 5 1, f.read 18 2, f.read 16 2, f.read 32 8] ++ log)

/-! ## What the log may have -/

/-- The bytes are all in the file. -/
def KernelData.Inside (a n : Nat) : Prop := ∀ k, k < n → f.base ≤ (a + k) % 2 ^ 64 ∧ (a + k) % 2 ^ 64 < f.base + f.size

def Access.Within : Access → Prop
  | .read a n => f.Inside a n
  | .copy source size allocated => f.Inside source size ∧ size ≤ allocated

/-- The file is rejected, or everything is within its bounds. -/
def Bounded : Prop :=
  match loadKernelPe f turns with
  | .error _ => True
  | .ok (_, log) => ∀ x ∈ log, x.Within f

/-- The checks of the header. -/
def Accepted (h : ElfHeader) : Prop :=
  h.magic = elfMagic ∧ h.format = elf64 ∧ h.endianness = elfLE ∧ h.mArch = elfMarchX86_64 ∧ h.type = elfExecType

/-- The loop comes to program header `i`. -/
def Reached : Prop := ∀ j, j ≤ i → j < (header f turns j).programHeadersCount

/-- What the fields of a program header have to say. -/
def TurnRight : Prop :=
  let h := filledEntry f turns i
  if (entry f turns i).segmentType = elfLoadSegment then
    entryOffset f turns i + 48 ≤ f.size ∧ (h.segmentFileSize = 0 ∨ h.fileOffset + h.segmentFileSize ≤ f.size) ∧
      h.segmentFileSize ≤ allocated f turns i
  else entryOffset f turns i + 4 ≤ f.size

end

/-! ## One turn -/

section
variable {f : KernelData} {turns : Nat → Turn} {i offset n : Nat}

/-- Addresses wrap, but the file does not. -/
theorem inside_iff (ho : offset < 2 ^ 64) : f.Inside (Word.add f.base offset) n ↔ n = 0 ∨ offset + n ≤ f.size := by
  have hfits := f.fits
  unfold KernelData.Inside Word.add
  constructor
  · intro h
    rcases Nat.eq_zero_or_pos n with hn | hn
    · exact .inl hn
    · have hfirst := h 0 hn
      have hlt : offset < f.size := by omega
      refine .inr (Nat.le_of_not_lt fun hbehind => ?_)
      have hlast := h (f.size - offset) (by omega)
      omega
  · rintro (rfl | hn) k hk
    · omega
    · omega

theorem read_within (ho : offset < 2 ^ 64) (hn : 0 < n) : (f.read offset n).Within f ↔ offset + n ≤ f.size := by
  have h : f.Inside (Word.add f.base offset) n ↔ offset + n ≤ f.size := by
    rw [inside_iff ho]
    omega
  exact h

theorem entryOffset_lt : entryOffset f turns i < 2 ^ 64 := Word.add_lt _ _

theorem fileOffset_lt : (filledEntry f turns i).fileOffset < 2 ^ 64 := ByteMemory.read_lt (_ + 8) 8

/-- The fields of a program header that are behind the first one. -/
theorem field_within (k : Nat) (hk : k + 8 ≤ 56) (hfirst : entryOffset f turns i + 4 ≤ f.size) :
    (f.read (entryOffset f turns i + k) 8).Within f ↔ entryOffset f turns i + k + 8 ≤ f.size := by
  have hfits := f.fits
  exact read_within (by omega) (by decide)

theorem turnAccesses_within : (∀ x ∈ turnAccesses f turns i, x.Within f) ↔ TurnRight f turns i := by
  unfold turnAccesses TurnRight
  dsimp only
  rw [List.forall_mem_cons, read_within entryOffset_lt (by decide)]
  by_cases hload : (entry f turns i).segmentType = elfLoadSegment
  · have hcopy : (Access.copy (Word.add f.base (filledEntry f turns i).fileOffset) (filledEntry f turns i).segmentFileSize
        (allocated f turns i)).Within f ↔ ((filledEntry f turns i).segmentFileSize = 0 ∨
          (filledEntry f turns i).fileOffset + (filledEntry f turns i).segmentFileSize ≤ f.size) ∧
            (filledEntry f turns i).segmentFileSize ≤ allocated f turns i :=
      and_congr (inside_iff fileOffset_lt) Iff.rfl
    rw [if_pos hload, if_pos hload]
    simp only [List.forall_mem_cons, List.not_mem_nil, false_implies, implies_true, and_true, hcopy]
    constructor
    · rintro ⟨hfirst, hsize, -, -, hsegment, -⟩
      exact ⟨(field_within 40 (by decide) hfirst).mp hsize, hsegment⟩
    · rintro ⟨hsize, hsegment⟩
      have hfirst : entryOffset f turns i + 4 ≤ f.size := by omega
      exact ⟨hfirst, (field_within 40 (by decide) hfirst).mpr hsize, (field_within 8 (by decide) hfirst).mpr (by omega),
        (field_within 32 (by decide) hfirst).mpr (by omega), hsegment, (field_within 16 (by decide) hfirst).mpr (by omega)⟩
  · rw [if_neg hload, if_neg hload]
    simp

/-! ## The whole run -/

/-- The loop, from a program header on. -/
theorem segmentLoop_within (i : Nat) : (∀ x ∈ (segmentLoop f turns i).2, x.Within f) ↔
    58 ≤ f.size ∧ ∀ j, i ≤ j → (∀ l, i ≤ l → l ≤ j → l < (header f turns l).programHeadersCount) → TurnRight f turns j := by
  have hcount : (f.read 56 2).Within f ↔ 58 ≤ f.size := read_within (by decide) (by decide)
  induction hn : 65536 - i using Nat.strongRecOn generalizing i with
  | ind n ih =>
    have hsmall := programHeadersCount_lt f turns i
    rw [segmentLoop]
    by_cases h : i < (header f turns i).programHeadersCount
    · have hrest := ih (65536 - (i + 1)) (by omega) (i + 1) rfl
      rw [dif_pos h]
      dsimp only
      rw [List.forall_mem_cons, List.forall_mem_append, hcount, turnAccesses_within]
      constructor
      · rintro ⟨hsize, hturn, hlog⟩
        obtain ⟨-, hall⟩ := hrest.mp hlog
        refine ⟨hsize, fun j hj hreached => ?_⟩
        rcases Nat.eq_or_lt_of_le hj with rfl | hlt
        · exact hturn
        · exact hall j hlt fun l hl hlj => hreached l (by omega) hlj
      · rintro ⟨hsize, hall⟩
        refine ⟨hsize, hall i (Nat.le_refl i) fun l hl hli => ?_, hrest.mpr ⟨hsize, fun j hj hreached => ?_⟩⟩
        · rwa [Nat.le_antisymm hli hl]
        · refine hall j (by omega) fun l hl hlj => ?_
          rcases Nat.eq_or_lt_of_le hl with rfl | hlt
          · exact h
          · exact hreached l hlt hlj
    · have hentry : (f.read 24 8).Within f ↔ 32 ≤ f.size := read_within (by decide) (by decide)
      rw [dif_neg h]
      simp only [List.forall_mem_cons, List.not_mem_nil, false_implies, implies_true, and_true, hcount, hentry]
      constructor
      · rintro ⟨hsize, -⟩
        exact ⟨hsize, fun j hj hreached => absurd (hreached i (Nat.le_refl i) hj) h⟩
      · rintro ⟨hsize, -⟩
        exact ⟨hsize, by omega⟩

theorem loadKernelPe_accepted (h : Accepted (header f turns 0)) : loadKernelPe f turns = .ok ((segmentLoop f turns 0).1,
    [f.read 0 4, f.read 4 1, f.read 5 1, f.read 18 2, f.read 16 2, f.read 32 8] ++ (segmentLoop f turns 0).2) := by
  obtain ⟨hmagic, hformat, hendianness, hmarch, htype⟩ := h
  unfold loadKernelPe
  rw [if_neg (not_not_intro hmagic), if_neg (by simp [hformat, hendianness, hmarch]), if_neg (not_not_intro htype)]

theorem checks_isOk {α : Type} (h : ElfHeader) (r : α) :
    (if h.magic ≠ elfMagic then .error 0x0
      else if h.format ≠ elf64 ∨ h.endianness ≠ elfLE ∨ h.mArch ≠ elfMarchX86_64 then .error 0x1
      else if h.type ≠ elfExecType then .error 0x2
      else .ok r : Except Nat α).isOk = true ↔ Accepted h := by
  unfold Accepted
  by_cases hmagic : h.magic = elfMagic
  · by_cases hformat : h.format ≠ elf64 ∨ h.endianness ≠ elfLE ∨ h.mArch ≠ elfMarchX86_64
    · rw [if_neg (not_not_intro hmagic), if_pos hformat]
      refine iff_of_false Bool.false_ne_true fun ⟨_, h1, h2, h3, _⟩ => ?_
      simp [h1, h2, h3] at hformat
    · rw [if_neg (not_not_intro hmagic), if_neg hformat]
      simp only [not_or, not_not] at hformat
      by_cases htype : h.type = elfExecType
      · rw [if_neg (not_not_intro htype)]
        exact iff_of_true rfl ⟨hmagic, hformat.1, hformat.2.1, hformat.2.2, htype⟩
      · rw [if_pos htype]
        exact iff_of_false Bool.false_ne_true fun h => htype h.2.2.2.2
  · rw [if_pos hmagic]
    exact iff_of_false Bool.false_ne_true fun h => hmagic h.1

/-- The header is checked as in `KernelImage`. -/
theorem loadKernelPe_isOk (answer : Nat → Nat) (maxphyaddr root : Nat) (s : Paging.Efi) : (loadKernelPe f turns).isOk = true ↔
    (KernelImage.loadKernelPe answer maxphyaddr root (f.seen (turns 0).memory) s).isOk = true :=
  (checks_isOk (header f turns 0) _).trans (checks_isOk (elfHeader (f.seen (turns 0).memory)) _).symm

/-- The loader stays within its bounds if and only if it rejects the header, or the fields are right. -/
theorem loadKernelPe_bounded_iff (f : KernelData) (turns : Nat → Turn) : Bounded f turns ↔
    ¬ Accepted (header f turns 0) ∨ (58 ≤ f.size ∧ ∀ i, Reached f turns i → TurnRight f turns i) := by
  have hloop := @segmentLoop_within f turns 0
  unfold Bounded
  by_cases haccept : Accepted (header f turns 0)
  · rw [loadKernelPe_accepted haccept]
    dsimp only
    rw [List.forall_mem_append, hloop, or_iff_right (not_not_intro haccept)]
    constructor
    · rintro ⟨-, hsize, hall⟩
      exact ⟨hsize, fun i hi => hall i (Nat.zero_le i) fun l _ hl => hi l hl⟩
    · rintro ⟨hsize, hall⟩
      refine ⟨?_, hsize, fun j _ hreached => hall j fun l hl => hreached l (Nat.zero_le l) hl⟩
      have hread : ∀ offset n, 0 < n → offset + n ≤ 58 → (f.read offset n).Within f := fun offset n hn h =>
        (read_within (by omega) hn).mpr (by omega)
      simp [hread]
  · have hrejected : ¬ (loadKernelPe f turns).isOk = true := fun h => haccept ((checks_isOk _ _).mp h)
    cases h : loadKernelPe f turns with
    | error code => exact iff_of_true trivial (.inl haccept)
    | ok r => exact absurd (by rw [h]; rfl) hrejected

end

/-! ## A file that ends behind its header -/

/-- The file of `imageAt`, in memory at 4096. -/
def imageTurn : Turn :=
  let m : ByteMemory := fun a => imageAt 0xFFFF800000000000 (a - 4096)
  ⟨m, m, fun _ => true⟩

def cutOff : KernelData := ⟨4096, 64, by decide⟩

theorem header_cutOff : header cutOff (fun _ => imageTurn) 0 =
    ⟨elfMagic, elf64, elfLE, elfExecType, elfMarchX86_64, 0xFFFF800000000000, 64, 1⟩ := by
  decide +kernel

/-- The program header that the header speaks of is behind the end of the file. -/
theorem kernel_cut_off : ¬ ∀ (f : KernelData) (turns : Nat → Turn), Bounded f turns := by
  intro h
  have hcut := h cutOff fun _ => imageTurn
  have haccept : Accepted (header cutOff (fun _ => imageTurn) 0) := by
    rw [header_cutOff]
    exact ⟨rfl, rfl, rfl, rfl, rfl⟩
  have hreached : ∀ l, 0 ≤ l → l ≤ 0 → l < (header cutOff (fun _ => imageTurn) l).programHeadersCount := fun l _ hl => by
    rw [Nat.le_zero.mp hl, header_cutOff]
    exact Nat.one_pos
  have hoffset : entryOffset cutOff (fun _ => imageTurn) 0 = 64 := by
    unfold entryOffset
    rw [header_cutOff]
    rfl
  unfold Bounded at hcut
  rw [loadKernelPe_accepted haccept] at hcut
  have hloop := (segmentLoop_within 0).mp fun x hx => hcut x (List.mem_append_right _ hx)
  have hright := hloop.2 0 (Nat.le_refl 0) hreached
  have hsize : cutOff.size = 64 := rfl
  unfold TurnRight at hright
  rw [hoffset, hsize] at hright
  dsimp only at hright
  split at hright <;> omega

end BadLands.Loader.KernelBounds
