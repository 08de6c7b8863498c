import BadLands.Loader.MemoryMap
import BadLands.Loader.Paging

/-!
# Remapping the firmware's memory

The runtime services and the memory of ACPI get new virtual addresses, one descriptor after the other, in a window each.
`PrepareEFIRemap` adds up their pages and makes the page tables ahead of time, while there are boot services to ask;
`DirectRemap` fills them in the loop over the final memory map, and takes for granted that they are there.

`directLoop_spec`: where the tables are there, a run of pages gets its translations and no other page changes.
`remapAll_spec` carries that over the descriptors, whatever way the pages are split among them.
-/
namespace BadLands.Loader.RuntimeRemap

open BadLands.Core BadLands.Core.PageTable BadLands.Mm.Layout BadLands.Mm.Paging BadLands.Loader.Paging
open BadLands.Mm.PhysicalMemory (EfiMemoryType EfiMemoryDescriptor)

/-! ## The code -/

/-- The two windows. -/
inductive Area where
  | runtimeServices | acpiNvs
  deriving DecidableEq, Repr

def Area.zone : Area → MemoryZone
  | .runtimeServices => efiRuntimeServices
  | .acpiNvs => Mm.Layout.acpiNvs

/-- mirrors bootloader/src/loader/paging.cpp:348-353 and bootloader/src/entry.cpp:158-163 -/
def areaOf (t : EfiMemoryType) : Option Area :=
  if t = .runtimeServicesCode ∨ t = .runtimeServicesData then some .runtimeServices
  else if t = .acpiMemoryNVS then some .acpiNvs
  else none

/-- The loop of `PrepareEFIRemap` for one of its two sums.
mirrors bootloader/src/loader/paging.cpp:343-354 -/
def requiredPages (area : Area) (mmap : List EfiMemoryDescriptor) : Nat :=
  mmap.foldl (fun n d => if areaOf d.type = some area then Word.add n d.numberOfPages else n) 0

/-- The variables of the loop over the memory map: memory, the static `current_remap` of each window, and, for the
proofs, whether each step of `DirectRemap` so far has found its three upper entries present. -/
structure Remap where
  mem : PhysMem
  current : Area → Nat
  found : Bool

section
variable (maxphyaddr root : Nat)

/-- The three entries above a page are present. -/
def upperPresent (m : PhysMem) (rva : VirtualAddress) : Bool :=
  let pml4e := m (root + entrySize * rva.pml4Offset)
  let pdpte := m (pml4e.frame + entrySize * rva.pdptOffset)
  let pde := m (pdpte.frame + entrySize * rva.pdOffset)
  pml4e.present && pdpte.present && pde.present

/-- One step of `DirectRemap`, with the address it maps.
mirrors bootloader/src/loader/paging.cpp:161-168 -/
def directStep (rva : VirtualAddress) (address : Nat) (xd : Bool) (m : PhysMem) : PhysMem :=
  let pdpt := (m (root + entrySize * rva.pml4Offset)).frame
  let pd := (m (pdpt + entrySize * rva.pdptOffset)).frame
  let pt := (m (pd + entrySize * rva.pdOffset)).frame
  update m (pt + entrySize * rva.ptOffset) (makePTE maxphyaddr address xd)

/-- The `for` of `DirectRemap` with the number of pages left, at its `i`-th step.
mirrors bootloader/src/loader/paging.cpp:152-171 -/
def directLoop (physicalStart : Nat) (xd : Bool) : Nat → Nat → VirtualAddress → PhysMem × Bool → PhysMem × Bool
  | 0, _, _, s => s
  | n + 1, i, rva, (m, found) =>
    directLoop physicalStart xd n (i + 1) (fullUpdateRemapRVA rva)
      (directStep maxphyaddr root rva (Word.add physicalStart (Word.mul i pageSize)) xd m, found && upperPresent root m rva)

/-- `RemapRuntimeServices` and `RemapACPINVS` differ in the window and in `execute_disable`. -/
def remapArea (area : Area) (xd : Bool) (d : EfiMemoryDescriptor) (p : Remap) : Nat × Remap :=
  let virtualStart := p.current area
  let (mem, found) := directLoop maxphyaddr root d.physicalStart xd d.numberOfPages 0 (parseVirtualAddress virtualStart)
    (p.mem, p.found)
  let next := Word.add virtualStart (Word.mul d.numberOfPages pageSize)
  (virtualStart, ⟨mem, fun a => if a = area then next else p.current a, found⟩)

/-- mirrors bootloader/src/loader/paging.cpp:381-399 -/
def remapRuntimeServices (d : EfiMemoryDescriptor) (p : Remap) : Nat × Remap :=
  remapArea maxphyaddr root .runtimeServices (decide (d.type = .runtimeServicesData)) d p

/-- mirrors bootloader/src/loader/paging.cpp:401-419 -/
def remapACPINVS (d : EfiMemoryDescriptor) (p : Remap) : Nat × Remap := remapArea maxphyaddr root .acpiNvs false d p

/-- mirrors bootloader/src/entry.cpp:158-163 -/
def remap (d : Descriptor) (p : Remap) : Nat × Remap :=
  match areaOf d.type with
  | some .runtimeServices => remapRuntimeServices maxphyaddr root d.toEfiMemoryDescriptor p
  | some .acpiNvs => remapACPINVS maxphyaddr root d.toEfiMemoryDescriptor p
  | none => (d.virtualStart, p)

variable (answer : Nat → Nat)

/-- Nothing is returned when the loader gives up.
mirrors bootloader/src/loader/paging.cpp:335-379 -/
def prepareEFIRemap (mmap : List EfiMemoryDescriptor) (s : Efi) : Option Efi :=
  let services := requiredPages .runtimeServices mmap
  let acpi := requiredPages .acpiNvs mmap
  if Word.mul services pageSize ≥ efiRuntimeServices.limit then none
  else if Word.mul acpi pageSize ≥ Mm.Layout.acpiNvs.limit then none
  else
    let s := prepareRemap answer maxphyaddr root efiRuntimeServices.start services s
    some (prepareRemap answer maxphyaddr root Mm.Layout.acpiNvs.start acpi s)

end

/-! ## Runs of pages -/

section
variable {maxphyaddr root : Nat} {U D : Nat → Prop} {log : List (Nat × Nat)}

/-- Where the walk gets to a page table, a step finds it. -/
theorem directStep_reach (maxphyaddr : Nat) {m : PhysMem} {rva : VirtualAddress} {va t : Nat} (hrva : Follows rva va) (h : Reach m va 3 root 0 t)
    (address : Nat) (xd : Bool) : upperPresent root m rva = true ∧
      directStep maxphyaddr root rva address xd m = update m (slot t 0 va) (makePTE maxphyaddr address xd) := by
  have hentry : ∀ t n, t + entrySize * index n va = slot t n va := fun _ _ => rfl
  unfold upperPresent directStep
  rw [hrva.pml4, hrva.pdpt, hrva.pd, hrva.pt]
  simp only [hentry]
  cases h with
  | down h3 h =>
    cases h with
    | down h2 h =>
      cases h with
      | down h1 h =>
        cases h with
        | here => exact ⟨by simp [h3.1, h2.1, h1.1], rfl⟩

/-- A run of pages whose tables are there. -/
theorem directLoop_spec (hm : maxphyaddr ≤ 52) {physicalStart : Nat} (hphys : physicalStart % 4096 = 0) (xd found : Bool)
    (n i va : Nat) (rva : VirtualAddress) (m : PhysMem) (hb : Built root U D ⟨m, log⟩) (hrva : n ≠ 0 → Follows rva va)
    (hrange : ∀ j, j < n → Canonical (va + j * 4096) ∧ Outside loopWindow (va + j * 4096))
    (hreach : ∀ j, j < n → ∃ t, Reach m (va + j * 4096) 3 root 0 t)
    (hlimit : physicalStart + (i + n) * 4096 ≤ 2 ^ maxphyaddr) :
    ∃ m', directLoop maxphyaddr root physicalStart xd n i rva (m, found) = (m', found) ∧ Built root U D ⟨m', log⟩ ∧
      Keeps root D ⟨m, log⟩ ⟨m', log⟩ ∧ ∀ va', Outside loopWindow va' → Canonical va' → translation m' root va' =
        if va / 4096 ≤ va' / 4096 ∧ va' / 4096 < va / 4096 + n
        then some (physicalStart + (i + (va' / 4096 - va / 4096)) * 4096 + va' % 4096) else translation m root va' := by
  induction n generalizing i va rva m with
  | zero => exact ⟨m, rfl, hb, .refl _, fun va' _ _ => (if_neg (by omega)).symm⟩
  | succ n ih =>
    obtain ⟨hcan, hva, hnext, hrest⟩ := range_next hrange
    have hpow : 2 ^ maxphyaddr ≤ 2 ^ 52 := Nat.pow_le_pow_right (by decide) hm
    have haddress : Word.add physicalStart (Word.mul i pageSize) = physicalStart + i * 4096 := by
      unfold Word.add Word.mul pageSize
      omega
    have hlimit' : physicalStart + (i + 1 + n) * 4096 ≤ 2 ^ maxphyaddr := by
      rw [show i + 1 + n = i + (n + 1) by omega]
      exact hlimit
    obtain ⟨t, ht⟩ := hreach 0 (by omega)
    rw [Nat.zero_mul, Nat.add_zero] at ht
    obtain ⟨hupper, hstep⟩ := directStep_reach maxphyaddr (hrva (by omega)) ht (physicalStart + i * 4096) xd
    have hpat : makePTE maxphyaddr (physicalStart + i * 4096) xd =
        (makePTE maxphyaddr (physicalStart + i * 4096) xd ||| if false then ptePAT else 0#64) := by
      rw [if_neg Bool.false_ne_true, BitVec.or_zero]
    have hpresent := makePTE_present maxphyaddr (physicalStart + i * 4096) xd false
    have hframe := makePTE_frame (a := physicalStart + i * 4096) hm (by omega) (by omega) xd false
    rw [← hpat] at hpresent hframe
    obtain ⟨hb', hk, htranslate⟩ := writePage_spec hb hcan hva ht hpresent
    unfold directLoop
    rw [haddress, hstep, hupper, Bool.and_true]
    have hreach' : ∀ j, j < n → ∃ v, Reach (update m (slot t 0 va) (makePTE maxphyaddr (physicalStart + i * 4096) xd))
        (va + 4096 + j * 4096) 3 root 0 v := fun j hj => by
      obtain ⟨u, hu⟩ := hreach (j + 1) (by omega)
      rw [show va + (j + 1) * 4096 = va + 4096 + j * 4096 by omega] at hu
      exact ⟨u, hk.reach _ _ _ (hrest j hj).2 hu⟩
    obtain ⟨m', hrun, hb'', hk', htranslate'⟩ := ih (i + 1) (va + 4096) (fullUpdateRemapRVA rva) _
      hb' (fun hn => (hrva (by omega)).fullUpdate (hnext hn)) hrest hreach' hlimit'
    refine ⟨m', hrun, hb'', hk.trans hk', fun va' hva' hcan' => ?_⟩
    rw [htranslate' va' hva' hcan', htranslate va' hva' hcan', hframe]
    by_cases hfirst : va' / 4096 = va / 4096
    · rw [if_neg (by omega), if_pos hfirst, if_pos (by omega), hfirst, Nat.sub_self, Nat.add_zero]
    · by_cases hin : (va + 4096) / 4096 ≤ va' / 4096 ∧ va' / 4096 < (va + 4096) / 4096 + n
      · rw [if_pos hin, if_pos (by omega)]
        exact congrArg some (by omega)
      · rw [if_neg hin, if_neg hfirst, if_neg (by omega)]

/-! ## All the descriptors -/

/-- The pages of the descriptors that go into a window. -/
def areaPages (area : Area) : List EfiMemoryDescriptor → Nat
  | [] => 0
  | d :: ds => (if areaOf d.type = some area then d.numberOfPages else 0) + areaPages area ds

theorem zone_address (area : Area) (va : Nat) (h : area.zone.start ≤ va) (h' : va < area.zone.end) :
    Canonical va ∧ Outside loopWindow va := by
  have hstart : 0xFFFF800022000000 ≤ area.zone.start := by cases area <;> decide
  have hend : area.zone.end ≤ 0xFFFF800030000000 := by cases area <;> decide
  have hloop : windowIndex true = 510 := by decide
  refine ⟨.inr ⟨by omega, by omega⟩, ?_⟩
  unfold Outside loopWindow
  rw [hloop]
  unfold index
  omega

theorem zone_apart {a b : Area} (h : a ≠ b) : a.zone.end ≤ b.zone.start ∨ b.zone.end ≤ a.zone.start := by
  cases a <;> cases b
  · exact absurd rfl h
  · exact .inl (by decide)
  · exact .inr (by decide)
  · exact absurd rfl h

/-- Before the descriptors `ds`: there is room for them in the windows, and the page tables are made. -/
structure Ready (root : Nat) (U D : Nat → Prop) (log : List (Nat × Nat)) (ds : List EfiMemoryDescriptor) (p : Remap) : Prop where
  built : Built root U D ⟨p.mem, log⟩
  aligned : ∀ a, p.current a % 4096 = 0
  low : ∀ a, a.zone.start ≤ p.current a
  room : ∀ a, p.current a + areaPages a ds * 4096 ≤ a.zone.end
  tables : ∀ a j, j < areaPages a ds → ∃ t, Reach p.mem (p.current a + j * 4096) 3 root 0 t

/-- Page-aligned memory that the processor has. -/
def Memory (maxphyaddr : Nat) (d : EfiMemoryDescriptor) : Prop :=
  d.physicalStart % 4096 = 0 ∧ d.physicalStart + d.numberOfPages * 4096 ≤ 2 ^ maxphyaddr

instance (maxphyaddr : Nat) (d : EfiMemoryDescriptor) : Decidable (Memory maxphyaddr d) := inferInstanceAs (Decidable (_ ∧ _))

/-- The page of `va` is one of the `n` from `start` on. -/
def InRange (start n va : Nat) : Prop := start / 4096 ≤ va / 4096 ∧ va / 4096 < start / 4096 + n

/-- What a descriptor of a window gets. -/
structure Step (root : Nat) (U D : Nat → Prop) (log : List (Nat × Nat)) (a : Area) (d : EfiMemoryDescriptor) (p p' : Remap) :
    Prop where
  built : Built root U D ⟨p'.mem, log⟩
  keeps : Keeps root D ⟨p.mem, log⟩ ⟨p'.mem, log⟩
  found : p'.found = p.found
  current : ∀ b, p'.current b = if b = a then p.current a + d.numberOfPages * 4096 else p.current b
  mapped : ∀ k o, k < d.numberOfPages → o < 4096 →
    translation p'.mem root (p.current a + k * 4096 + o) = some (d.physicalStart + k * 4096 + o)
  other : ∀ va, Outside loopWindow va → Canonical va → ¬ InRange (p.current a) d.numberOfPages va →
    translation p'.mem root va = translation p.mem root va

theorem areaPages_head {a : Area} {d : EfiMemoryDescriptor} (ds : List EfiMemoryDescriptor) (h : areaOf d.type = some a) :
    areaPages a (d :: ds) = d.numberOfPages + areaPages a ds := by
  unfold areaPages
  rw [if_pos h]
  cases ds <;> rfl

theorem areaPages_other {a : Area} {d : EfiMemoryDescriptor} {ds : List EfiMemoryDescriptor} (h : areaOf d.type ≠ some a) :
    areaPages a (d :: ds) = areaPages a ds := by
  rw [areaPages, if_neg h, Nat.zero_add]

theorem remapArea_step (hm : maxphyaddr ≤ 52) {a : Area} {d : EfiMemoryDescriptor} {ds : List EfiMemoryDescriptor} {p : Remap}
    (h : Ready root U D log (d :: ds) p) (hd : Memory maxphyaddr d) (harea : areaOf d.type = some a) (xd : Bool) :
    ∃ p', remapArea maxphyaddr root a xd d p = (p.current a, p') ∧ Step root U D log a d p p' := by
  have hroom := h.room a
  have hlow := h.low a
  have halign := h.aligned a
  have hzone : a.zone.end ≤ 0xFFFF800030000000 := by cases a <;> decide
  rw [areaPages_head _ harea] at hroom
  have hrange : ∀ j, j < d.numberOfPages → Canonical (p.current a + j * 4096) ∧ Outside loopWindow (p.current a + j * 4096) :=
    fun j hj => zone_address a _ (by omega) (by omega)
  obtain ⟨m', hrun, hbuilt, hkeeps, htranslate⟩ := directLoop_spec hm hd.1 xd p.found d.numberOfPages 0
    (p.current a) (parseVirtualAddress (p.current a)) p.mem h.built (fun _ => follows_parse _) hrange
    (fun j hj => h.tables a j (by rw [areaPages_head _ harea]; omega)) (by rw [Nat.zero_add]; exact hd.2)
  have hnext : Word.add (p.current a) (Word.mul d.numberOfPages pageSize) = p.current a + d.numberOfPages * 4096 := by
    unfold Word.add Word.mul pageSize
    omega
  unfold remapArea
  dsimp only
  rw [hrun, hnext]
  refine ⟨_, rfl, hbuilt, hkeeps, rfl, fun b => rfl, fun k o hk ho => ?_, fun va hva hcan hout => ?_⟩
  · obtain ⟨hcan, hva⟩ := zone_address a (p.current a + k * 4096 + o) (by omega) (by omega)
    rw [htranslate _ hva hcan, if_pos (by omega)]
    exact congrArg some (by omega)
  · rw [htranslate va hva hcan]
    exact if_neg hout

theorem remap_step (hm : maxphyaddr ≤ 52) {a : Area} {d : Descriptor} {ds : List EfiMemoryDescriptor} {p : Remap}
    (h : Ready root U D log (d.toEfiMemoryDescriptor :: ds) p) (hd : Memory maxphyaddr d.toEfiMemoryDescriptor)
    (harea : areaOf d.type = some a) :
    ∃ p', remap maxphyaddr root d p = (p.current a, p') ∧ Step root U D log a d.toEfiMemoryDescriptor p p' := by
  unfold remap
  rw [harea]
  cases a with
  | runtimeServices => exact remapArea_step hm h hd harea _
  | acpiNvs => exact remapArea_step hm h hd harea _

/-- The window advances by the pages of the descriptor. -/
theorem Step.advance {a : Area} {d : EfiMemoryDescriptor} (ds : List EfiMemoryDescriptor) {p p' : Remap}
    (harea : areaOf d.type = some a) (hs : Step root U D log a d p p') (b : Area) :
    ∃ n, p'.current b = p.current b + n * 4096 ∧ areaPages b (d :: ds) = n + areaPages b ds := by
  rw [hs.current]
  by_cases hb : b = a
  · subst hb
    exact ⟨d.numberOfPages, if_pos rfl, areaPages_head ds harea⟩
  · refine ⟨0, by rw [if_neg hb, Nat.zero_mul, Nat.add_zero], ?_⟩
    rw [Nat.zero_add]
    exact areaPages_other fun he => hb (Option.some.inj (he.symm.trans harea))

/-- What is left is ready after a descriptor. -/
theorem Step.ready {a : Area} {d : EfiMemoryDescriptor} {ds : List EfiMemoryDescriptor} {p p' : Remap}
    (h : Ready root U D log (d :: ds) p) (harea : areaOf d.type = some a) (hs : Step root U D log a d p p') :
    Ready root U D log ds p' := by
  refine ⟨hs.built, fun b => ?_, fun b => ?_, fun b => ?_, fun b j hj => ?_⟩ <;>
    obtain ⟨n, hn, hpages⟩ := hs.advance ds harea b
  · have halign := h.aligned b
    omega
  · exact Nat.le_trans (h.low b) (hn ▸ Nat.le_add_right _ _)
  · have hroom := h.room b
    rw [hpages] at hroom
    rw [hn, Nat.add_assoc, ← Nat.add_mul]
    exact hroom
  · have hroom := h.room b
    have hlow := h.low b
    rw [hpages] at hroom
    obtain ⟨t, ht⟩ := h.tables b (n + j) (by rw [hpages]; exact Nat.add_lt_add_left hj n)
    rw [hn, Nat.add_assoc, ← Nat.add_mul]
    generalize areaPages b ds = B at hroom hj
    exact ⟨t, hs.keeps.reach _ _ _ (zone_address b _ (by omega) (by omega)).2 ht⟩

/-- The virtual range of a remapped descriptor, in window `a`. -/
structure Placed (root : Nat) (m : PhysMem) (low high : Nat) (d : Descriptor) : Prop where
  low : low ≤ d.virtualStart
  high : d.virtualStart + d.numberOfPages * 4096 ≤ high
  mapped : ∀ k o, k < d.numberOfPages → o < 4096 →
    translation m root (d.virtualStart + k * 4096 + o) = some (d.physicalStart + k * 4096 + o)

/-- Two descriptors do not share virtual addresses. -/
def Apart (d e : Descriptor) : Prop := areaOf d.type ≠ none → areaOf e.type ≠ none →
  d.virtualStart + d.numberOfPages * 4096 ≤ e.virtualStart ∨ e.virtualStart + e.numberOfPages * 4096 ≤ d.virtualStart

/-- After the descriptors `ds`. -/
structure Remapped (root : Nat) (ds : List Descriptor) (p : Remap) (r : List Descriptor × Remap) : Prop where
  found : r.2.found = p.found
  same : r.1.map Descriptor.toEfiMemoryDescriptor = ds.map Descriptor.toEfiMemoryDescriptor
  placed : ∀ d ∈ r.1, ∀ a, areaOf d.type = some a → Placed root r.2.mem (p.current a)
    (p.current a + areaPages a (ds.map Descriptor.toEfiMemoryDescriptor) * 4096) d
  apart : r.1.Pairwise Apart
  other : ∀ va, Outside loopWindow va → Canonical va →
    (∀ a, ¬ InRange (p.current a) (areaPages a (ds.map Descriptor.toEfiMemoryDescriptor)) va) →
    translation r.2.mem root va = translation p.mem root va

/-- The page of `va` is not among those of the descriptors that follow. -/
theorem Step.before {a : Area} {d : EfiMemoryDescriptor} {ds : List EfiMemoryDescriptor} {p p' : Remap}
    (h : Ready root U D log (d :: ds) p) (harea : areaOf d.type = some a) (hs : Step root U D log a d p p') {va : Nat}
    (hva : p.current a ≤ va) (hva' : va < p.current a + d.numberOfPages * 4096) (b : Area) :
    ¬ InRange (p'.current b) (areaPages b ds) va := by
  unfold InRange
  rw [hs.current]
  have halign := h.aligned a
  by_cases hb : b = a
  · rw [if_pos hb]
    omega
  · rw [if_neg hb]
    have hroom := h.room a
    have hroom' := h.room b
    have hlow := h.low a
    have hlow' := h.low b
    rw [areaPages_head _ harea] at hroom
    rw [areaPages_other fun he => hb (Option.some.inj (he.symm.trans harea))] at hroom'
    have hapart := zone_apart hb
    have halign' := h.aligned b
    generalize areaPages b ds = B at *
    omega

/-- A descriptor that is not remapped in front of the others. -/
theorem Remapped.skip {d : Descriptor} {ds : List Descriptor} {p : Remap} {r : List Descriptor × Remap}
    (harea : areaOf d.type = none) (h : Remapped root ds p r) : Remapped root (d :: ds) p (d :: r.1, r.2) := by
  have hsame : ∀ a, areaPages a (d.toEfiMemoryDescriptor :: ds.map Descriptor.toEfiMemoryDescriptor) =
      areaPages a (ds.map Descriptor.toEfiMemoryDescriptor) := fun a => areaPages_other (by simp [harea])
  refine ⟨h.found, by rw [List.map_cons, List.map_cons, h.same], fun e he a ha => ?_, ?_, fun va hva hcan hout => ?_⟩
  · rw [List.map_cons, hsame]
    rcases List.mem_cons.mp he with rfl | he
    · rw [harea] at ha
      cases ha
    · exact h.placed e he a ha
  · exact List.pairwise_cons.mpr ⟨fun e _ hd => absurd harea hd, h.apart⟩
  · exact h.other va hva hcan fun a => by
      have := hout a
      rwa [List.map_cons, hsame] at this

/-- The pages of a descriptor are not those of one that follows. -/
theorem Step.mapped_after {a : Area} {d : EfiMemoryDescriptor} {ds : List Descriptor} {p p' : Remap}
    {r : List Descriptor × Remap} (h : Ready root U D log (d :: ds.map Descriptor.toEfiMemoryDescriptor) p)
    (harea : areaOf d.type = some a) (hs : Step root U D log a d p p') (hrest : Remapped root ds p' r)
    (k o : Nat) (hk : k < d.numberOfPages) (ho : o < 4096) :
    translation r.2.mem root (p.current a + k * 4096 + o) = some (d.physicalStart + k * 4096 + o) := by
  have hroom := h.room a
  have hlow := h.low a
  have halign := h.aligned a
  rw [areaPages_head _ harea] at hroom
  obtain ⟨hcan, hva⟩ := zone_address a (p.current a + k * 4096 + o) (by omega) (by omega)
  rw [hrest.other _ hva hcan fun b => hs.before h harea (by omega) (by omega) b]
  exact hs.mapped k o hk ho

/-- Nor are its virtual addresses. -/
theorem Step.apart_after {a : Area} {d : Descriptor} {ds : List Descriptor} {p p' : Remap} {r : List Descriptor × Remap}
    (h : Ready root U D log (d.toEfiMemoryDescriptor :: ds.map Descriptor.toEfiMemoryDescriptor) p)
    (harea : areaOf d.type = some a) (hs : Step root U D log a d.toEfiMemoryDescriptor p p') (hrest : Remapped root ds p' r)
    {e : Descriptor} (he : e ∈ r.1) : Apart { d with virtualStart := p.current a } e := by
  intro _ hne
  obtain ⟨b, hb⟩ := Option.ne_none_iff_exists'.mp hne
  have hplaced := hrest.placed e he b hb
  have hlow := hplaced.low
  rw [hs.current] at hlow
  by_cases hba : b = a
  · rw [if_pos hba] at hlow
    exact .inl hlow
  · have hready := hs.ready h harea
    have hend := Nat.le_trans hplaced.high (hready.room b)
    have hstart := Nat.le_trans (hready.low b) hplaced.low
    have hroom := h.room a
    have hlow' := h.low a
    rw [areaPages_head _ harea, Nat.add_mul, ← Nat.add_assoc] at hroom
    rcases zone_apart hba with hzone | hzone
    · exact .inr (Nat.le_trans hend (Nat.le_trans hzone hlow'))
    · exact .inl (Nat.le_trans (Nat.le_trans (Nat.le_add_right _ _) hroom) (Nat.le_trans hzone hstart))

/-- A descriptor that is remapped in front of the others. -/
theorem Remapped.cons {a : Area} {d : Descriptor} {ds : List Descriptor} {p p' : Remap}
    {r : List Descriptor × Remap}
    (h : Ready root U D log (d.toEfiMemoryDescriptor :: ds.map Descriptor.toEfiMemoryDescriptor) p)
    (harea : areaOf d.type = some a) (hs : Step root U D log a d.toEfiMemoryDescriptor p p') (hrest : Remapped root ds p' r) :
    Remapped root (d :: ds) p ({ d with virtualStart := p.current a } :: r.1, r.2) := by
  have hhead := areaPages_head (ds.map Descriptor.toEfiMemoryDescriptor) harea
  have hadvance := hs.advance (ds.map Descriptor.toEfiMemoryDescriptor) harea
  have hmapped := hs.mapped_after h harea hrest
  refine ⟨hrest.found.trans hs.found, by rw [List.map_cons, List.map_cons, hrest.same], fun e he b hb => ?_, ?_,
    fun va hva hcan hout => ?_⟩
  · rcases List.mem_cons.mp he with rfl | he
    · obtain rfl : a = b := Option.some.inj (harea.symm.trans hb)
      rw [List.map_cons, hhead]
      exact ⟨Nat.le_refl _, by dsimp only; omega, hmapped⟩
    · obtain ⟨n, hn, hpages⟩ := hadvance b
      have hplaced := hrest.placed e he b hb
      rw [List.map_cons, hpages]
      rw [hn] at hplaced
      exact ⟨Nat.le_trans (Nat.le_add_right _ _) hplaced.low,
        Nat.le_trans hplaced.high (by rw [Nat.add_mul, Nat.add_assoc]), hplaced.mapped⟩
  · exact List.pairwise_cons.mpr ⟨fun e he => hs.apart_after h harea hrest he, hrest.apart⟩
  · rw [List.map_cons] at hout
    have halign := h.aligned a
    have hlater : translation r.2.mem root va = translation p'.mem root va := hrest.other va hva hcan fun b hin => by
      obtain ⟨n, hn, hpages⟩ := hadvance b
      refine hout b ?_
      rw [hpages]
      have halign' := h.aligned b
      unfold InRange at hin ⊢
      rw [hn, Nat.add_mul_div_right _ _ (by decide)] at hin
      omega
    rw [hlater]
    refine hs.other va hva hcan fun hin => hout a ?_
    rw [hhead]
    exact ⟨hin.1, Nat.lt_of_lt_of_le hin.2 (by omega)⟩

theorem remapAll_spec (hm : maxphyaddr ≤ 52) : ∀ (ds : List Descriptor) (p : Remap),
    Ready root U D log (ds.map Descriptor.toEfiMemoryDescriptor) p →
    (∀ d ∈ ds, areaOf d.type ≠ none → Memory maxphyaddr d.toEfiMemoryDescriptor) →
    Remapped root ds p (remapAll (remap maxphyaddr root) ds p)
  | [], p, _, _ => ⟨rfl, rfl, fun _ hd => (by cases hd), .nil, fun _ _ _ _ => rfl⟩
  | d :: ds, p, h, hmem => by
    unfold remapAll
    rw [List.map_cons] at h
    have hmem' : ∀ e ∈ ds, areaOf e.type ≠ none → Memory maxphyaddr e.toEfiMemoryDescriptor :=
      fun e he => hmem e (List.mem_cons_of_mem _ he)
    cases harea : areaOf d.type with
    | none =>
      have hsame : ∀ a, areaPages a (d.toEfiMemoryDescriptor :: ds.map Descriptor.toEfiMemoryDescriptor) =
          areaPages a (ds.map Descriptor.toEfiMemoryDescriptor) := fun a => areaPages_other (by simp [harea])
      have hready : Ready root U D log (ds.map Descriptor.toEfiMemoryDescriptor) p :=
        ⟨h.built, h.aligned, h.low, fun a => hsame a ▸ h.room a, fun a j hj => h.tables a j ((hsame a).symm ▸ hj)⟩
      have hremap : remap maxphyaddr root d p = (d.virtualStart, p) := by
        unfold remap
        rw [harea]
      rw [hremap]
      exact (remapAll_spec hm ds p hready hmem').skip harea
    | some a =>
      obtain ⟨p', hremap, hs⟩ := remap_step hm h (hmem d List.mem_cons_self (by simp [harea])) harea
      rw [hremap]
      exact .cons h harea hs (remapAll_spec hm ds p' (hs.ready h harea) hmem')

/-! ## The tables are made ahead of time -/

theorem requiredPages_eq (a : Area) (mmap : List EfiMemoryDescriptor) (h : areaPages a mmap < 2 ^ 64) :
    requiredPages a mmap = areaPages a mmap := by
  have hfold : ∀ (mmap : List EfiMemoryDescriptor) (n : Nat), n + areaPages a mmap < 2 ^ 64 →
      mmap.foldl (fun n d => if areaOf d.type = some a then Word.add n d.numberOfPages else n) n = n + areaPages a mmap := by
    intro mmap
    induction mmap with
    | nil => exact fun n _ => rfl
    | cons d mmap ih =>
      intro n hn
      rw [List.foldl_cons]
      by_cases hd : areaOf d.type = some a
      · rw [areaPages_head _ hd] at hn ⊢
        rw [if_pos hd, Word.add_eq (by omega), ih _ (by omega), Nat.add_assoc]
      · rw [areaPages_other hd] at hn ⊢
        rw [if_neg hd]
        exact ih n hn
  rw [requiredPages, hfold mmap 0 (by omega), Nat.zero_add]

variable {answer : Nat → Nat}

theorem prepareRemap_spec (hm : maxphyaddr ≤ 52) {s : Efi} (hb : Built root U D s) (a : Area) {pages : Nat}
    (hfits : pages * 4096 < a.zone.limit)
    (hg : Granted maxphyaddr U (prepareRemap answer maxphyaddr root a.zone.start pages s).log) :
    Built root U D (prepareRemap answer maxphyaddr root a.zone.start pages s) ∧
      Keeps root D s (prepareRemap answer maxphyaddr root a.zone.start pages s) ∧
      ∀ j, j < pages → ∃ t, Reach (prepareRemap answer maxphyaddr root a.zone.start pages s).mem (a.zone.start + j * 4096) 3 root 0 t := by
  have hstart : a.zone.start % 0x200000 = 0 := by cases a <;> decide
  have hlimit : a.zone.limit % 0x200000 = 0 := by cases a <;> decide
  have hlow : 0xFFFF800000000000 ≤ a.zone.start := by cases a <;> decide
  have hend : a.zone.start + a.zone.limit = a.zone.end := rfl
  have hhigh : a.zone.end ≤ 0xFFFF800030000000 := by cases a <;> decide
  have hentries : ptEntries = 512 := rfl
  unfold prepareRemap at hg ⊢
  rw [hentries] at hg ⊢
  obtain ⟨hb', hk, hreach⟩ := prepareLoop_spec hm ((pages + 512 - 1) / 512) a.zone.start (parseVirtualAddress a.zone.start) s hb
    (follows_parse _) (fun i hi => (zone_address a _ (by omega) (by omega)).2) (by omega) hg
  refine ⟨hb', hk, fun j hj => ?_⟩
  obtain ⟨t, ht⟩ := hreach (j / 512) (by omega)
  -- the page has its number in the 2MB of the table
  have hpath : SamePath 1 (a.zone.start + j / 512 * 0x200000) (a.zone.start + j * 4096) := by
    intro k h1 h3
    obtain rfl | rfl | rfl : k = 1 ∨ k = 2 ∨ k = 3 := by omega
    · unfold index
      simp only [Nat.reduceMul, Nat.reduceAdd, Nat.reducePow]
      omega
    · unfold index
      simp only [Nat.reduceMul, Nat.reduceAdd, Nat.reducePow]
      omega
    · unfold index
      simp only [Nat.reduceMul, Nat.reduceAdd, Nat.reducePow]
      omega
  exact ⟨t, hpath.reach (Nat.le_refl 3) ht⟩

/-- What the loader does before `PrepareEFIRemap`, and between it and the loop: it maps the kernel, the font, the framebuffer,
its back buffer and itself, and allocates pages that it writes. -/
inductive Between (answer : Nat → Nat) (maxphyaddr root : Nat) (s : Efi) : Efi → Prop where
  | done : Between answer maxphyaddr root s s
  | map {s' : Efi} (va source n : Nat) (xd pat : Bool) : Between answer maxphyaddr root s s' →
      (∀ i, i < n → Canonical (va + i * 4096) ∧ Outside loopWindow (va + i * 4096)) →
      Between answer maxphyaddr root s (indirectLoop answer maxphyaddr root xd pat n (parseVirtualAddress va) source s')
  | pages {s' : Efi} (n : Nat) (m : PhysMem) : Between answer maxphyaddr root s s' →
      (∀ q, ¬ (answer s'.log.length ≤ q ∧ q < answer s'.log.length + n * 4096) → m q = s'.mem q) →
      Between answer maxphyaddr root s ⟨m, (allocatePages answer n s').2.log⟩

theorem Between.keeps (hm : maxphyaddr ≤ 52) {s s' : Efi} (h : Between answer maxphyaddr root s s') (hb : Built root U D s)
    (hg : Granted maxphyaddr U s'.log) : Built root U D s' ∧ Keeps root D s s' := by
  induction h with
  | done => exact ⟨hb, .refl s⟩
  | map va source n xd pat _ hrange ih =>
    obtain ⟨hb', hk⟩ := ih (hg.mono (indirectLoop_log ..))
    obtain ⟨hb'', hk'⟩ := indirectLoop_keeps hm n va source _ _ hb' (fun _ => follows_parse va) hrange hg
    exact ⟨hb'', hk.trans hk'⟩
  | pages n m _ hsame ih =>
    obtain ⟨hb', hk⟩ := ih (hg.mono (List.prefix_append _ _))
    obtain ⟨hb'', hk', -⟩ := written_spec hb' hg hsame
    exact ⟨hb''.mono fun t ht => .inl ht, hk.trans hk'⟩

theorem Between.extends_log {s s' : Efi} (h : Between answer maxphyaddr root s s') : s.log <+: s'.log := by
  induction h with
  | done => exact List.prefix_rfl
  | map va source n xd pat _ _ ih => exact ih.trans (indirectLoop_log ..)
  | pages n m _ _ ih => exact ih.trans (List.prefix_append _ _)

/-! ## The whole remap -/

/-- The descriptors that are remapped. -/
def remapped (mmap : List EfiMemoryDescriptor) : List EfiMemoryDescriptor := mmap.filter fun d => (areaOf d.type).isSome

theorem areaPages_remapped (a : Area) (mmap : List EfiMemoryDescriptor) : areaPages a (remapped mmap) = areaPages a mmap := by
  unfold remapped
  induction mmap with
  | nil => rfl
  | cons d mmap ih =>
    by_cases hd : (areaOf d.type).isSome = true
    · rw [List.filter_cons, if_pos hd, areaPages, areaPages, ih]
    · rw [List.filter_cons, if_neg hd, ih, areaPages_other fun he => hd (by rw [he]; rfl)]

theorem areaPages_perm (a : Area) {mmap mmap' : List EfiMemoryDescriptor} (h : mmap.Perm mmap') :
    areaPages a mmap = areaPages a mmap' := by
  induction h with
  | nil => rfl
  | cons d _ ih => rw [areaPages, areaPages, ih]
  | swap d e l =>
    simp only [areaPages]
    omega
  | trans _ _ ih ih' => exact ih.trans ih'

theorem Apart.symm {d e : Descriptor} (h : Apart d e) : Apart e d := fun he hd => (h hd he).symm

/-- With the same descriptors to remap before and after, every step of the loop finds its tables, and each descriptor has
its pages in its window, apart from the others. -/
theorem runtime_remapped (hm : maxphyaddr ≤ 52) {s₀ s' s : Efi} (hstart : setupBasicPaging answer maxphyaddr s₀ = (some root, s'))
    (hbefore : Between answer maxphyaddr root s' s) {mmap₀ : List EfiMemoryDescriptor} {mmap : List Descriptor}
    (hsame : (remapped mmap₀).Perm (remapped (mmap.map Descriptor.toEfiMemoryDescriptor)))
    (hmemory : ∀ d ∈ mmap, areaOf d.type ≠ none → Memory maxphyaddr d.toEfiMemoryDescriptor)
    (hfits : ∀ a, areaPages a mmap₀ * 4096 < a.zone.limit) (dma : ByteMap) :
    ∃ s₁, prepareEFIRemap maxphyaddr root answer mmap₀ s = some s₁ ∧
      ∀ s₂, Between answer maxphyaddr root s₁ s₂ → Granted maxphyaddr U s₂.log →
        let g := descriptorLoop (remap maxphyaddr root) ⟨mmap, dma, ⟨s₂.mem, fun a => a.zone.start, true⟩⟩
        g.paging.found = true ∧
        (g.mmap.map Descriptor.toEfiMemoryDescriptor).Perm (mmap.map Descriptor.toEfiMemoryDescriptor) ∧
        (∀ d ∈ g.mmap, ∀ a, areaOf d.type = some a → a.zone.start ≤ d.virtualStart ∧
          d.virtualStart + d.numberOfPages * 4096 ≤ a.zone.end ∧
          ∀ k o, k < d.numberOfPages → o < 4096 →
            translation g.paging.mem root (d.virtualStart + k * 4096 + o) = some (d.physicalStart + k * 4096 + o)) ∧
        g.mmap.Pairwise Apart := by
  have hpages : ∀ a, areaPages a mmap₀ = areaPages a (mmap.map Descriptor.toEfiMemoryDescriptor) := fun a => by
    rw [← areaPages_remapped, areaPages_perm a hsame, areaPages_remapped]
  have hlimit : ∀ a : Area, a.zone.limit ≤ 0x4000000 := fun a => by cases a <;> decide
  have hrequired : ∀ a, requiredPages a mmap₀ = areaPages a mmap₀ := fun a => by
    have hfit := hfits a
    have hlim := hlimit a
    exact requiredPages_eq a mmap₀ (by omega)
  have hmul : ∀ a, Word.mul (areaPages a mmap₀) pageSize = areaPages a mmap₀ * 4096 := fun a => by
    have hfit := hfits a
    have hlim := hlimit a
    exact Word.mul_eq (by unfold pageSize; omega)
  have hservices : ¬ areaPages .runtimeServices mmap₀ * 4096 ≥ efiRuntimeServices.limit := Nat.not_le_of_lt (hfits .runtimeServices)
  have hacpi : ¬ areaPages .acpiNvs mmap₀ * 4096 ≥ Mm.Layout.acpiNvs.limit := Nat.not_le_of_lt (hfits .acpiNvs)
  unfold prepareEFIRemap
  simp only [hrequired, hmul, if_neg hservices, if_neg hacpi]
  refine ⟨_, rfl, fun s₂ hbetween hg => ?_⟩
  have hg₁ := hg.mono hbetween.extends_log
  have hg₀ := hg₁.mono (prepareLoop_log ..)
  have hb : Built root U (fun _ => False) s := by
    have hgs := hg₀.mono (prepareLoop_log ..)
    have hgs' : Granted maxphyaddr U (setupBasicPaging answer maxphyaddr s₀).2.log := by
      rw [hstart]
      exact hgs.mono hbefore.extends_log
    obtain ⟨s'', hs'', hb', -⟩ := setupBasicPaging_spec hgs'
    rw [hstart] at hs''
    obtain ⟨hroot, rfl⟩ := Prod.mk.inj hs''
    rw [← Option.some.inj hroot] at hb'
    exact (hbefore.keeps hm hb' hgs).1
  obtain ⟨hb₀, hk₀, hreach₀⟩ := prepareRemap_spec hm hb .runtimeServices (hfits .runtimeServices) hg₀
  obtain ⟨hb₁, hk₁, hreach₁⟩ := prepareRemap_spec hm hb₀ .acpiNvs (hfits .acpiNvs) hg₁
  obtain ⟨hb₂, hk₂⟩ := hbetween.keeps hm hb₁ hg
  have hready : Ready root U (fun _ => False) s₂.log (mmap.map Descriptor.toEfiMemoryDescriptor) ⟨s₂.mem, fun a => a.zone.start, true⟩ := by
    have haligned : ∀ a : Area, a.zone.start % 4096 = 0 := fun a => by cases a <;> decide
    refine ⟨hb₂, haligned, fun a => Nat.le_refl _, fun a => ?_, fun a j hj => ?_⟩
    · rw [← hpages]
      exact Nat.add_le_add_left (Nat.le_of_lt (hfits a)) _
    · rw [← hpages] at hj
      have hfit := hfits a
      have hend : a.zone.start + a.zone.limit = a.zone.end := rfl
      have hout := (zone_address a (a.zone.start + j * 4096) (by omega) (by omega)).2
      cases a with
      | runtimeServices =>
        obtain ⟨t, ht⟩ := hreach₀ j hj
        exact ⟨t, hk₂.reach _ _ _ hout (hk₁.reach _ _ _ hout ht)⟩
      | acpiNvs =>
        obtain ⟨t, ht⟩ := hreach₁ j hj
        exact ⟨t, hk₂.reach _ _ _ hout ht⟩
  have hrun := remapAll_spec hm mmap _ hready hmemory
  obtain ⟨hperm, hpaging, -⟩ := descriptorLoop_spec (remap maxphyaddr root)
    ⟨mmap, dma, ⟨s₂.mem, fun a => a.zone.start, true⟩⟩
  dsimp only at hperm hpaging
  rw [hpaging]
  refine ⟨hrun.found, ?_, fun d hd a ha => ?_, ?_⟩
  · rw [← hrun.same]
    exact hperm.map _
  · have hplaced := hrun.placed d (hperm.mem_iff.mp hd) a ha
    exact ⟨hplaced.low, Nat.le_trans hplaced.high (hready.room a), hplaced.mapped⟩
  · exact (hperm.pairwise_iff fun h => h.symm).mpr hrun.apart

end

/-! ## A machine with one page of each -/

def service : Descriptor := ⟨⟨.runtimeServicesData, 0x100000, 2, by decide⟩, 0⟩

def acpiPage : Descriptor := ⟨⟨.acpiMemoryNVS, 0x200000, 1, by decide⟩, 0⟩

theorem runtime_remapped_one : ∃ s₁,
    prepareEFIRemap 36 0x1000 nextPage [service.toEfiMemoryDescriptor, acpiPage.toEfiMemoryDescriptor]
      (setupBasicPaging nextPage 36 clearMemory).2 = some s₁ ∧
    (descriptorLoop (remap 36 0x1000) ⟨[acpiPage, service], fun _ => 0#8, ⟨s₁.mem, fun a => a.zone.start, true⟩⟩).paging.found =
      true := by
  have hlog : (prepareEFIRemap 36 0x1000 nextPage [service.toEfiMemoryDescriptor, acpiPage.toEfiMemoryDescriptor]
      (setupBasicPaging nextPage 36 clearMemory).2).map Efi.log =
      some [(0x1000, 1), (0x2000, 1), (0x3000, 1), (0x4000, 1), (0x5000, 1)] := by decide +kernel
  have hsame : (remapped [service.toEfiMemoryDescriptor, acpiPage.toEfiMemoryDescriptor]).Perm
      (remapped ([acpiPage, service].map Descriptor.toEfiMemoryDescriptor)) := List.Perm.swap _ _ []
  have hfits : ∀ a : Area, areaPages a [service.toEfiMemoryDescriptor, acpiPage.toEfiMemoryDescriptor] * 4096 < a.zone.limit :=
    fun a => by cases a <;> decide
  have hmemory : ∀ d ∈ [acpiPage, service], areaOf d.type ≠ none → Memory 36 d.toEfiMemoryDescriptor := by decide
  obtain ⟨s₁, hs, hrun⟩ := runtime_remapped (show 36 ≤ 52 by decide) setupBasicPaging_clearMemory .done hsame hmemory hfits (fun _ => 0#8)
  rw [hs] at hlog
  refine ⟨s₁, hs, (hrun s₁ .done ?_).1⟩
  rw [Option.some.inj hlog]
  exact granted_up (by decide) (by decide)

end BadLands.Loader.RuntimeRemap
