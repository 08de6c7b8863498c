import BadLands.Core.ByteMap
import BadLands.Mm.PhysicalMemorySetup

/-!
# The loader's loop over the memory map

After it has left the boot services, the loader goes through the descriptors of the memory map once. Each turn
writes the pages of the descriptor into the bitmap of the DMA zone, remaps the descriptor if the firmware needs it
at run time, and swaps it back when the one before it starts higher.

What a turn remaps is a parameter: a function from the descriptor and a state of its own to the `VirtualStart` it
writes. `descriptorLoop_spec`: every descriptor of the map has exactly one turn, in the order of the map, whatever is
swapped; the map is left as a permutation.
-/
namespace BadLands.Loader

open BadLands.Core BadLands.Mm.Layout
open BadLands.Mm.PhysicalMemory (EfiMemoryType EfiMemoryDescriptor)

/-- A descriptor with the address it gets at run time. -/
structure Descriptor extends EfiMemoryDescriptor where
  virtualStart : Nat

def dmaEndPage : Nat := dmaZone.limit / pageSize

/-- mirrors bootloader/src/entry.cpp:132-156 -/
def markDMA (bitmap : ByteMap) (d : EfiMemoryDescriptor) : ByteMap :=
  if d.physicalStart < dmaZone.limit then
    let startPage := d.physicalStart / pageSize
    let unboundedEndPage := Word.add startPage d.numberOfPages
    let endPage := if unboundedEndPage ≤ dmaEndPage then unboundedEndPage else dmaEndPage
    if d.type ≠ .conventionalMemory then bitmap.setRange startPage endPage
    else bitmap.clearRange startPage endPage
  else bitmap

def swap (mmap : List Descriptor) (i j : Nat) : List Descriptor :=
  match mmap[i]?, mmap[j]? with
  | some a, some b => (mmap.set i b).set j a
  | _, _ => mmap

/-- The `while` that swaps a descriptor back; no previous descriptor is the null pointer.
mirrors bootloader/src/entry.cpp:165-175 -/
def swapBack : Nat → List Descriptor → Nat → Option Nat → Nat → List Descriptor
  | 0, mmap, _, _, _ => mmap
  | _, mmap, _, none, _ => mmap
  | fuel + 1, mmap, ptr, some previous, j =>
    match mmap[ptr]?, mmap[previous]? with
    | some a, some b =>
      if a.physicalStart < b.physicalStart then
        swapBack fuel (swap mmap ptr previous) previous (if j ≥ 1 then some (j - 1) else none) (j - 1)
      else mmap
    | _, _ => mmap

/-- The variables of the loop. -/
structure Loop (P : Type) where
  mmap : List Descriptor
  dma : ByteMap
  paging : P

section
variable {P : Type} (remap : Descriptor → P → Nat × P)

/-- mirrors bootloader/src/entry.cpp:127-178 -/
def turn (g : Loop P) (i : Nat) : Loop P :=
  match g.mmap[i]? with
  | none => g
  | some d =>
    let (virtualStart, paging) := remap d g.paging
    let mmap := g.mmap.set i { d with virtualStart }
    ⟨swapBack (i + 1) mmap i (if i = 0 then none else some (i - 1)) i, markDMA g.dma d.toEfiMemoryDescriptor, paging⟩

/-- mirrors bootloader/src/entry.cpp:123-179 -/
def descriptorLoop (g : Loop P) : Loop P := (List.range g.mmap.length).foldl (turn remap) g

/-- The descriptors one after the other, without the swaps. -/
def remapAll : List Descriptor → P → List Descriptor × P
  | [], paging => ([], paging)
  | d :: ds, paging =>
    let (virtualStart, paging) := remap d paging
    let (ds, paging) := remapAll ds paging
    ({ d with virtualStart } :: ds, paging)

/-! ## The swaps -/

theorem swap_spec (mmap : List Descriptor) {i j n : Nat} (hi : i < n) (hj : j < n) :
    (swap mmap i j).Perm mmap ∧ (swap mmap i j).drop n = mmap.drop n := by
  unfold swap
  split
  · rename_i a b ha hb
    obtain ⟨hi', rfl⟩ := List.getElem?_eq_some_iff.mp ha
    obtain ⟨hj', rfl⟩ := List.getElem?_eq_some_iff.mp hb
    refine ⟨List.set_set_perm hi' hj', ?_⟩
    rw [List.drop_set_of_lt hj, List.drop_set_of_lt hi]
  · exact ⟨.refl _, rfl⟩

/-- Descriptors after the one of the turn stay where they are. -/
theorem swapBack_spec {n : Nat} : ∀ (fuel : Nat) (mmap : List Descriptor) (ptr : Nat) (previous : Option Nat) (j : Nat),
    ptr < n → (∀ q, previous = some q → q < n) → j < n →
    (swapBack fuel mmap ptr previous j).Perm mmap ∧ (swapBack fuel mmap ptr previous j).drop n = mmap.drop n
  | 0, mmap, _, _, _, _, _, _ => by
    unfold swapBack
    exact ⟨.refl _, rfl⟩
  | fuel + 1, mmap, ptr, none, j, _, _, _ => by
    unfold swapBack
    exact ⟨.refl _, rfl⟩
  | fuel + 1, mmap, ptr, some previous, j, hptr, hprev, hj => by
    have hq := hprev previous rfl
    unfold swapBack
    split
    · split
      · obtain ⟨hperm, hdrop⟩ := swap_spec mmap hptr hq
        have hnext : ∀ q, (if j ≥ 1 then some (j - 1) else none) = some q → q < n := fun q h => by
          split at h
          · cases h
            omega
          · cases h
        obtain ⟨hperm', hdrop'⟩ := swapBack_spec fuel (swap mmap ptr previous) previous _ (j - 1) hq hnext (by omega)
        exact ⟨hperm'.trans hperm, hdrop'.trans hdrop⟩
      · exact ⟨.refl _, rfl⟩
    · exact ⟨.refl _, rfl⟩

/-! ## One turn for each descriptor -/

/-- The turn of the first descriptor of `rest`. -/
theorem turn_spec {g : Loop P} {before rest : List Descriptor} {d : Descriptor} (h : g.mmap = before ++ d :: rest) :
    ∃ after, (turn remap g before.length).mmap = after ++ rest ∧
      after.Perm (before ++ [{ d with virtualStart := (remap d g.paging).1 }]) ∧
      (turn remap g before.length).dma = markDMA g.dma d.toEfiMemoryDescriptor ∧
      (turn remap g before.length).paging = (remap d g.paging).2 := by
  have hget : g.mmap[before.length]? = some d := by
    rw [h]
    simp
  have hset : g.mmap.set before.length { d with virtualStart := (remap d g.paging).1 } =
      (before ++ [{ d with virtualStart := (remap d g.paging).1 }]) ++ rest := by
    rw [h]
    simp
  have hlength : (before ++ [{ d with virtualStart := (remap d g.paging).1 }]).length = before.length + 1 := by simp
  unfold turn
  rw [hget]
  dsimp only
  rw [hset]
  generalize before ++ [{ d with virtualStart := (remap d g.paging).1 }] = done at hlength
  obtain ⟨hperm, hdrop⟩ := swapBack_spec (n := before.length + 1) (before.length + 1) (done ++ rest) before.length
    (if before.length = 0 then none else some (before.length - 1)) before.length (by omega)
    (fun q hq => by
      split at hq
      · cases hq
      · cases hq
        omega) (by omega)
  generalize swapBack _ (done ++ rest) _ _ _ = mmap at hperm hdrop
  rw [← hlength, List.drop_left] at hdrop
  have hsplit : mmap = mmap.take done.length ++ rest := by
    rw [← hdrop, List.take_append_drop]
  refine ⟨mmap.take done.length, hsplit, ?_, rfl, rfl⟩
  rw [hsplit] at hperm
  exact (List.perm_append_right_iff rest).mp hperm

theorem turns_spec : ∀ (rest before : List Descriptor) (g : Loop P), g.mmap = before ++ rest →
    let g' := (List.range' before.length rest.length).foldl (turn remap) g
    g'.mmap.Perm (before ++ (remapAll remap rest g.paging).1) ∧ g'.paging = (remapAll remap rest g.paging).2 ∧
      g'.dma = (rest.map Descriptor.toEfiMemoryDescriptor).foldl markDMA g.dma
  | [], before, g, h => by
    simp [remapAll, h]
  | d :: rest, before, g, h => by
    obtain ⟨after, hmmap, hperm, hdma, hpaging⟩ := turn_spec remap h
    have hlength : after.length = before.length + 1 := by
      rw [hperm.length_eq]
      simp
    obtain ⟨hperm', hpaging', hdma'⟩ := turns_spec rest after (turn remap g before.length) hmmap
    rw [hlength] at hperm' hpaging' hdma'
    intro g'
    have hg : g' = (List.range' (before.length + 1) rest.length).foldl (turn remap) (turn remap g before.length) := rfl
    rw [hg]
    rw [hpaging] at hperm' hpaging'
    refine ⟨hperm'.trans ?_, hpaging', by rw [hdma', hdma]; rfl⟩
    have hswap := hperm.append_right (remapAll remap rest (remap d g.paging).2).1
    rw [List.append_assoc] at hswap
    exact hswap

theorem descriptorLoop_spec (g : Loop P) : (descriptorLoop remap g).mmap.Perm (remapAll remap g.mmap g.paging).1 ∧
    (descriptorLoop remap g).paging = (remapAll remap g.mmap g.paging).2 ∧
    (descriptorLoop remap g).dma = (g.mmap.map Descriptor.toEfiMemoryDescriptor).foldl markDMA g.dma := by
  have h := turns_spec remap g.mmap [] g rfl
  rw [List.length_nil, ← List.range_eq_range'] at h
  exact h

/-- Descriptors get an address, and nothing else. -/
theorem remapAll_same : ∀ (ds : List Descriptor) (paging : P),
    (remapAll remap ds paging).1.map Descriptor.toEfiMemoryDescriptor = ds.map Descriptor.toEfiMemoryDescriptor
  | [], _ => rfl
  | d :: ds, paging => by
    unfold remapAll
    dsimp only
    rw [List.map_cons, List.map_cons, remapAll_same ds]

theorem descriptorLoop_perm (g : Loop P) : ((descriptorLoop remap g).mmap.map Descriptor.toEfiMemoryDescriptor).Perm
    (g.mmap.map Descriptor.toEfiMemoryDescriptor) := by
  rw [← remapAll_same remap g.mmap g.paging]
  exact (descriptorLoop_spec remap g).1.map _

end

/-! ## The bitmap of the DMA zone -/

/-- Page `p` is one of the descriptor. -/
def Covers (d : EfiMemoryDescriptor) (p : Nat) : Prop :=
  d.physicalStart / pageSize ≤ p ∧ p < d.physicalStart / pageSize + d.numberOfPages

instance (d : EfiMemoryDescriptor) (p : Nat) : Decidable (Covers d p) := inferInstanceAs (Decidable (_ ∧ _))

/-- Page-aligned descriptors that do not overlap, in any order. -/
structure MapOk (mmap : List EfiMemoryDescriptor) : Prop where
  aligned : ∀ d ∈ mmap, d.physicalStart % pageSize = 0
  apart : mmap.Pairwise fun a b => a.physicalStart + pageSize * a.numberOfPages ≤ b.physicalStart ∨
    b.physicalStart + pageSize * b.numberOfPages ≤ a.physicalStart

theorem MapOk.unique {mmap : List EfiMemoryDescriptor} (h : MapOk mmap) (p : Nat) :
    mmap.Pairwise fun a b => ¬ (Covers a p ∧ Covers b p) := by
  refine List.Pairwise.imp_of_mem (fun {a b} ha hb hab => ?_) h.apart
  have haligned := h.aligned a ha
  have haligned' := h.aligned b hb
  rintro ⟨hpa, hpb⟩
  unfold Covers at hpa hpb
  unfold pageSize at *
  omega

/-- A page is in one descriptor. -/
theorem MapOk.same {mmap : List EfiMemoryDescriptor} (h : MapOk mmap) {a b : EfiMemoryDescriptor} (ha : a ∈ mmap) (hb : b ∈ mmap)
    {p : Nat} (hpa : Covers a p) (hpb : Covers b p) : a = b := by
  have hself : mmap.Pairwise fun a b => Covers a p → Covers b p → a = b := (h.unique p).imp fun hab hpa hpb =>
    absurd ⟨hpa, hpb⟩ hab
  have hflip : mmap.Pairwise fun b a => Covers a p → Covers b p → a = b := (h.unique p).imp fun hab hpa hpb =>
    absurd ⟨hpb, hpa⟩ hab
  exact hself.forall_of_forall_of_flip (fun _ _ _ _ => rfl) hflip ha hb hpa hpb

theorem test_markDMA (m : ByteMap) (d : EfiMemoryDescriptor) {p : Nat} (hp : p < dmaEndPage) :
    (markDMA m d).test p = if Covers d p then decide (d.type ≠ .conventionalMemory) else m.test p := by
  have hend : dmaEndPage = 4096 := rfl
  have hlimit : dmaZone.limit = 4096 * 4096 := rfl
  have hspace := d.inAddressSpace
  unfold frameSize at hspace
  have hsum : Word.add (d.physicalStart / pageSize) d.numberOfPages = d.physicalStart / pageSize + d.numberOfPages :=
    Word.add_eq (by unfold pageSize; omega)
  unfold markDMA
  by_cases hstart : d.physicalStart < dmaZone.limit
  · rw [if_pos hstart]
    dsimp only
    rw [hsum]
    generalize he : (if d.physicalStart / pageSize + d.numberOfPages ≤ dmaEndPage then
      d.physicalStart / pageSize + d.numberOfPages else dmaEndPage) = endPage
    have hrange : (d.physicalStart / pageSize ≤ p ∧ p < endPage) ↔ Covers d p := by
      unfold Covers
      split at he <;> omega
    by_cases hcovers : Covers d p
    · rw [if_pos hcovers]
      split
      · rename_i htype
        rw [ByteMap.test_setRange, decide_eq_true (hrange.mpr hcovers), decide_eq_true htype, Bool.true_or]
      · rename_i htype
        rw [ByteMap.test_clearRange, decide_eq_true (hrange.mpr hcovers), decide_eq_false htype, Bool.not_true,
          Bool.false_and]
    · rw [if_neg hcovers]
      split
      · rw [ByteMap.test_setRange, decide_eq_false (mt hrange.mp hcovers), Bool.false_or]
      · rw [ByteMap.test_clearRange, decide_eq_false (mt hrange.mp hcovers), Bool.not_false, Bool.true_and]
  · have hcovers : ¬ Covers d p := fun hc => by
      unfold Covers pageSize at hc
      omega
    rw [if_neg hstart, if_neg hcovers]

/-- The bit of a page is that of its descriptor; without one it stays as it was. -/
theorem test_markAll {p : Nat} (hp : p < dmaEndPage) : ∀ (mmap : List EfiMemoryDescriptor) (m : ByteMap),
    mmap.Pairwise (fun a b => ¬ (Covers a p ∧ Covers b p)) →
    (∀ d ∈ mmap, Covers d p → (mmap.foldl markDMA m).test p = decide (d.type ≠ .conventionalMemory)) ∧
      ((∀ d ∈ mmap, ¬ Covers d p) → (mmap.foldl markDMA m).test p = m.test p)
  | [], m, _ => ⟨fun _ hd => (by cases hd), fun _ => rfl⟩
  | e :: mmap, m, h => by
    obtain ⟨he, htail⟩ := List.pairwise_cons.mp h
    obtain ⟨hcovered, hnone⟩ := test_markAll hp mmap (markDMA m e) htail
    rw [List.foldl_cons]
    refine ⟨fun d hd hc => ?_, fun hall => ?_⟩
    · rcases List.mem_cons.mp hd with rfl | hd
      · rw [hnone fun x hx hxc => he x hx ⟨hc, hxc⟩, test_markDMA m d hp, if_pos hc]
      · exact hcovered d hd hc
    · rw [hnone fun x hx => hall x (List.mem_cons_of_mem _ hx), test_markDMA m e hp,
        if_neg (hall e List.mem_cons_self)]

end BadLands.Loader
