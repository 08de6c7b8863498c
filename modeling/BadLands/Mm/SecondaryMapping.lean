import BadLands.Mm.GeneralPages

/-!
# A new address space

`CreateSecondaryRecursiveMapping` zeroes the frame of a new root through the general mapping
window, makes it the target of the secondary window and shares the kernel's tables and the DMA
zone with it. The DMA zone is 16 MiB, eight entries of one PD; the code copies eight entries of
the PDPT instead, 8 GiB, and it does not zero the frame of that PDPT, whose other entries are
what they were in the frame's last use.

`newSpace_isolated_iff`: the new space maps what it should and nothing else exactly when the current
space has nothing between 16 MiB and 8 GiB, and the leftovers in the frame lead nowhere.
-/
namespace BadLands.Mm.Paging

open BadLands.Core BadLands.Core.PageTable BadLands.Mm.Layout

/-- `SECONDARY_PML4_INDEX`. -/
def secondaryPml4Index : Nat := windowIndex false

/-- `PRIMARY_PML4_INDEX`. -/
def primaryPml4Index : Nat := windowIndex true

/-! mirrors kernel/src/mm/Paging.cpp:49-52,69 -/

def dmaMapping : VirtualAddress := parseVirtualAddress dmaZone.start

def dmaEndMapping : VirtualAddress := parseVirtualAddress (dmaZone.start + dmaZone.limit)

def dmaPds : Nat := dmaEndMapping.pdOffset - dmaMapping.pdOffset

/-- The first `for` of `ShareKernelMemoryToSecondaryMapping` with `k` entries left.
mirrors kernel/src/mm/Paging.cpp:56-58 -/
def shareKernelLoop (root : Nat) : Nat → Nat → PhysMem → Option PhysMem
  | 0, _, m => some m
  | k + 1, i, m => do
    let e ← readVirtual m root (getPML4Address true + entrySize * i)
    let m ← writeVirtual m root (getPML4Address false + entrySize * i) e
    shareKernelLoop root k (i + 1) m

/-- The second `for`, with `k` entries left.
mirrors kernel/src/mm/Paging.cpp:102-110 -/
def shareDmaLoop (root : Nat) : Nat → Nat → PhysMem → Option PhysMem
  | 0, _, m => some m
  | k + 1, i, m => do
    let pdpte := { dmaMapping with pdptOffset := dmaMapping.pdptOffset + i }
    let e ← readVirtual m root (getPDPTEAddress pdpte true)
    let m ← writeVirtual m root (getPDPTEAddress pdpte false) (setPDPTEInfo (getPDPTEInfo e))
    shareDmaLoop root k (i + 1) m

/-- `firstPml4e`, `firstPdpte`: the outcomes of the two allocations.
mirrors kernel/src/mm/Paging.cpp:54-113 -/
def shareKernelMemoryToSecondaryMapping (m : PhysMem) (root maxPhyAddr : Nat)
    (firstPml4e firstPdpte : Option Entry) : Option (Bool × PhysMem) := do
  let m ← shareKernelLoop root (secondaryPml4Index - 256) 256 m
  match firstPml4e with
  | none => return (false, m)
  | some physFirstPml4e =>
    let m ← writeVirtual m root (getPML4EAddress dmaMapping false)
      (setPML4EInfo (linkInfo false (filterAddress maxPhyAddr physFirstPml4e)))
    match firstPdpte with
    | none => return (false, m)
    | some physFirstPdpte =>
      let m ← writeVirtual m root (getPDPTEAddress dmaMapping false)
        (setPDPTEInfo (linkInfo false (filterAddress maxPhyAddr physFirstPdpte)))
      let m ← shareDmaLoop root dmaPds 0 m
      return (true, m)

/-- mirrors kernel/src/mm/Paging.cpp:602-610 -/
def updateSecondaryRecursiveMapping (m : PhysMem) (root maxPhyAddr : Nat) (cr3 : Entry) : Option PhysMem :=
  writeVirtual m root (getPML4EAddress (parseVirtualAddress secondaryRecursiveMapping.start) true)
    (setPML4EInfo (linkInfo false (filterAddress maxPhyAddr cr3)))

/-- The entry that the new root has for both windows. -/
def rootEntry (maxPhyAddr : Nat) (cr3 : Entry) : Entry :=
  entryPresent ||| entryReadWrite ||| (filterAddress maxPhyAddr cr3 &&& entryAddress)

/-- mirrors kernel/src/mm/Paging.cpp:577-600 -/
def createSecondaryRecursiveMapping (m : PhysMem) (root maxPhyAddr : Nat) (cr3 : Entry)
    (allocs : Nat → Option Entry × Option Entry) (firstPml4e firstPdpte : Option Entry) :
    Option (Bool × PhysMem) := do
  let (vroot, m) ← mapGeneralPages m root maxPhyAddr cr3 1 (entryPresent ||| entryReadWrite) allocs
  match vroot with
  | none => return (false, m)
  | some vroot =>
    let m ← zeroPage m root vroot
    let m ← writeVirtual m root (vroot + entrySize * primaryPml4Index) (rootEntry maxPhyAddr cr3)
    let m ← writeVirtual m root (vroot + entrySize * secondaryPml4Index) (rootEntry maxPhyAddr cr3)
    let (ok, m) ← unmapGeneralPages m root vroot 1
    if !ok then return (false, m)
    let m ← updateSecondaryRecursiveMapping m root maxPhyAddr cr3
    shareKernelMemoryToSecondaryMapping m root maxPhyAddr firstPml4e firstPdpte

/-! ## What the new space maps -/

/-- The new space shares the kernel's slots and the DMA zone with the current one, and maps
nothing else of the lower half. -/
structure Isolated (m : PhysMem) (root cr3 : Nat) : Prop where
  kernel : ∀ va, 256 ≤ index 3 va → index 3 va < secondaryPml4Index →
    translation m cr3 va = translation m root va
  dma : ∀ va, va < dmaZone.end → translation m cr3 va = translation m root va
  rest : ∀ va, dmaZone.end ≤ va → va < 2 ^ 47 → translation m cr3 va = none

/-- The entries from 8 on that are left over in the frame `first`, followed as those of a PDPT
of slot 0, lead to no page and not to the table `cr3`. -/
def LeftoversDead (m : PhysMem) (first cr3 : Nat) : Prop :=
  ∀ va, 8 * 2 ^ 30 ≤ va → va < 2 ^ 39 → walk m va 2 first = none ∧ ∀ n, ¬ Reach m va 2 first n cr3

/-- `w` is `x` with the new root `cr3` and its PDPT `first` filled in: `pdpt` is the PDPT of
slot 0 of the current root. -/
structure Shared (x w : PhysMem) (root cr3 first pdpt : Nat) : Prop where
  kernel : ∀ i, 256 ≤ i → i < secondaryPml4Index → w (cr3 + 8 * i) = x (root + 8 * i)
  link : PointsTo (w cr3) first
  lower : ∀ i, 1 ≤ i → i < 256 → w (cr3 + 8 * i) = 0#64
  self : PointsTo (w (cr3 + 8 * secondaryPml4Index)) cr3
  dma : ∀ i, i < 8 → w (first + 8 * i) = setPDPTEInfo (getPDPTEInfo (x (pdpt + 8 * i)))
  rest : ∀ q, ¬ (cr3 ≤ q ∧ q < cr3 + 4096) → q ≠ root + 8 * secondaryPml4Index →
    ¬ (first ≤ q ∧ q < first + 64) → w q = x q

/-! ## Addresses of slot 0 -/

/-- The address with the given indices below slot 0. -/
def lowAddress (i j k : Nat) : Nat := ((i * 512 + j) * 512 + k) * 4096

theorem lowAddress_indices {i j k : Nat} (hi : i < 512) (hj : j < 512) (hk : k < 512) :
    index 3 (lowAddress i j k) = 0 ∧ index 2 (lowAddress i j k) = i ∧ index 1 (lowAddress i j k) = j ∧
      index 0 (lowAddress i j k) = k := by
  unfold index lowAddress
  simp only [Nat.reduceMul, Nat.reduceAdd, Nat.reducePow]
  omega

theorem index_low {va : Nat} (h : va < 2 ^ 39) : index 3 va = 0 ∧ index 2 va = va / 2 ^ 30 := by
  unfold index
  simp only [Nat.reduceMul, Nat.reduceAdd, Nat.reducePow] at *
  omega

/-- The PDPT of slot 0 of a root. -/
theorem reach_slot0 {y : PhysMem} {t u va : Nat} (hva : va < 2 ^ 39) (h : PointsTo (y t) u) : Reach y va 3 t 2 u := by
  have hs : slot t 3 va = t := by
    unfold slot
    rw [(index_low hva).1, Nat.mul_zero, Nat.add_zero]
  have hl : (y (slot t 3 va)).Links := by
    rw [hs]
    exact h.1
  have hhere : Reach y va 3 t 3 t := .here 3 t
  have hr := hhere.next hl
  rwa [hs, h.2] at hr

theorem secondaryPml4Index_eq : secondaryPml4Index = 509 := by decide

theorem primaryPml4Index_eq : primaryPml4Index = 510 := by decide

theorem outside_low {va : Nat} (h : va < 2 ^ 47) : Outside windows va := by
  have hi : index 3 va < 256 := by
    unfold index
    simp only [Nat.reduceMul, Nat.reduceAdd, Nat.reducePow] at *
    omega
  have ht : windowIndex true = 510 := by decide
  have hf : windowIndex false = 509 := by decide
  unfold Outside windows
  omega

/-! ## Leftovers -/

section
variable {m : PhysMem} {first : Nat}

/-- Below `first`, the walk passes a table with an entry for itself. -/
theorem walk_selfPage {va u i : Nat} (hva : 8 * 2 ^ 30 ≤ va) (hva' : va < 2 ^ 39)
    (hu : Reach m va 2 first 1 u) (hi : i < 512) (hself : PointsTo (m (u + 8 * i)) u) :
    ∃ va', 8 * 2 ^ 30 ≤ va' ∧ va' < 2 ^ 39 ∧ walk m va' 2 first ≠ none := by
  obtain ⟨-, h2⟩ := index_low hva'
  obtain ⟨-, h2', h1', h0'⟩ := lowAddress_indices (index_lt 2 va) hi hi
  refine ⟨lowAddress (index 2 va) i i, ?_, ?_, ?_⟩
  · unfold lowAddress
    omega
  · have := index_lt 2 va
    unfold lowAddress
    omega
  · obtain ⟨s, hs, hl, hframe⟩ := hu.linked (by decide)
    obtain rfl := hs.unique (.here _ _)
    have hfirst : PointsTo (m (s + 8 * index 2 va)) u := ⟨hl, hframe.symm⟩
    rw [walk_pointsTo h2' hfirst, walk_pointsTo h1' hself, walk_leaf h0' rfl hself]
    exact Option.some_ne_none _

/-- Below `first`, the walk passes a page table that is not empty. -/
theorem walk_presentPage {va u i : Nat} (hva : 8 * 2 ^ 30 ≤ va) (hva' : va < 2 ^ 39)
    (hu : Reach m va 2 first 0 u) (hi : i < 512) (hpresent : (m (u + 8 * i)).present = true) :
    ∃ va', 8 * 2 ^ 30 ≤ va' ∧ va' < 2 ^ 39 ∧ walk m va' 2 first ≠ none := by
  obtain ⟨-, h2⟩ := index_low hva'
  obtain ⟨-, h2', h1', h0'⟩ := lowAddress_indices (index_lt 2 va) (index_lt 1 va) hi
  refine ⟨lowAddress (index 2 va) (index 1 va) i, ?_, ?_, ?_⟩
  · unfold lowAddress
    omega
  · have := index_lt 2 va
    have := index_lt 1 va
    unfold lowAddress
    omega
  · obtain ⟨t, ht, hl, hframe⟩ := hu.linked (by decide)
    obtain ⟨s, hs, hl', hframe'⟩ := ht.linked (by decide)
    obtain rfl := hs.unique (.here _ _)
    have hfirst : PointsTo (m (s + 8 * index 2 va)) t := ⟨hl', hframe'.symm⟩
    have hsecond : PointsTo (m (t + 8 * index 1 va)) u := ⟨hl, hframe.symm⟩
    have hslot : slot u 0 (lowAddress (index 2 va) (index 1 va) i) = u + 8 * i := by
      unfold slot
      rw [h0']
    rw [walk_pointsTo h2' hfirst, walk_pointsTo h1' hsecond, walk, hslot]
    simp only [hpresent, if_true]
    exact Option.some_ne_none _

/-- The walk below `first` passes a table with an entry for itself, at any level. -/
theorem walk_self {va u n i : Nat} (hva : 8 * 2 ^ 30 ≤ va) (hva' : va < 2 ^ 39)
    (hu : Reach m va 2 first n u) (hn : n < 2) (hi : i < 512) (hself : PointsTo (m (u + 8 * i)) u) :
    ∃ va', 8 * 2 ^ 30 ≤ va' ∧ va' < 2 ^ 39 ∧ walk m va' 2 first ≠ none := by
  obtain rfl | rfl : n = 1 ∨ n = 0 := by omega
  · exact walk_selfPage hva hva' hu hi hself
  · exact walk_presentPage hva hva' hu hi hself.1.1

/-- The walk comes back to `first`. -/
theorem walk_back {va n : Nat} (hva : 8 * 2 ^ 30 ≤ va) (hva' : va < 2 ^ 39) (hu : Reach m va 2 first n first)
    (hn : n < 2) : ∃ va', 8 * 2 ^ 30 ≤ va' ∧ va' < 2 ^ 39 ∧ walk m va' 2 first ≠ none := by
  obtain ⟨t, ht, -⟩ := hu.through (show n ≤ 1 by omega) (by decide)
  obtain ⟨s, hs, hl, hframe⟩ := ht.linked (by decide)
  obtain rfl := hs.unique (.here _ _)
  obtain rfl | rfl : n = 1 ∨ n = 0 := by omega
  · have hself : PointsTo (m (s + 8 * index 2 va)) s := by
      obtain rfl := ht.unique hu
      exact ⟨hl, hframe.symm⟩
    exact walk_selfPage hva hva' hu (index_lt 2 va) hself
  · exact walk_presentPage hva hva' hu (index_lt 2 va) hl.1

end

/-! ## The two spaces side by side -/

/-- The frames of the new space are no tables of the current one, and its slot 0 leads to the
PDPT of the DMA zone. -/
structure NewFrames (x : PhysMem) (root cr3 first pdpt : Nat) : Prop where
  tables : Tables x root
  slot0 : PointsTo (x root) pdpt
  freshRoot : Fresh x root windows cr3
  freshFirst : Fresh x root windows first
  apart : cr3 ≠ first

section
variable {x w : PhysMem} {root cr3 first pdpt va : Nat}

theorem NewFrames.root_ne (hn : NewFrames x root cr3 first pdpt) : root ≠ cr3 ∧ root ≠ first :=
  ⟨hn.freshRoot.unused 0 3 root (outside_low (by decide)) (.here _ _),
    hn.freshFirst.unused 0 3 root (outside_low (by decide)) (.here _ _)⟩

theorem NewFrames.reach_pdpt (hn : NewFrames x root cr3 first pdpt) (hva : va < 2 ^ 39) :
    Reach x va 3 root 2 pdpt := reach_slot0 hva hn.slot0

theorem NewFrames.pdpt_ne (hn : NewFrames x root cr3 first pdpt) : pdpt ≠ cr3 ∧ pdpt ≠ first ∧ pdpt ≠ root := by
  have hr : Reach x 0 3 root 2 pdpt := hn.reach_pdpt (by decide)
  have hout : Outside windows 0 := outside_low (by decide)
  refine ⟨hn.freshRoot.unused 0 2 pdpt hout hr, hn.freshFirst.unused 0 2 pdpt hout hr, ?_⟩
  rintro rfl
  have := (hn.tables.tree.once 0 0 2 3 pdpt hout hout hr (.here _ _)).1
  omega

/-- The tables of the current space are as they were. -/
theorem Shared.reads (h : Shared x w root cr3 first pdpt) (hn : NewFrames x root cr3 first pdpt) {k u : Nat}
    (hva : Outside windows va) (hr : Reach x va 3 root k u) : w (slot u k va) = x (slot u k va) := by
  have h1 := hr.aligned hn.tables.tree.aligned
  have h2 := hn.freshRoot.aligned
  have h3 := hn.freshFirst.aligned
  have hi := index_lt k va
  have hne := hn.freshRoot.unused va k u hva hr
  have hne' := hn.freshFirst.unused va k u hva hr
  refine h.rest _ (by unfold slot; omega) (fun he => ?_) (by unfold slot; omega)
  rw [secondaryPml4Index_eq] at he
  have hroot := hn.tables.tree.aligned
  obtain ⟨rfl, hidx⟩ : u = root ∧ index k va = 509 := by
    unfold slot at he
    omega
  obtain ⟨rfl, -⟩ := hn.tables.tree.once va va k 3 u hva hva hr (.here _ _)
  exact hva (.inr hidx)

theorem Shared.translation_root (h : Shared x w root cr3 first pdpt) (hn : NewFrames x root cr3 first pdpt)
    (hva : Outside windows va) : translation w root va = translation x root va := by
  unfold translation
  rw [walk_congr fun k u hr => h.reads hn hva hr]

theorem Shared.translation_kernel (h : Shared x w root cr3 first pdpt) (hn : NewFrames x root cr3 first pdpt)
    (h1 : 256 ≤ index 3 va) (h2 : index 3 va < secondaryPml4Index) :
    translation w cr3 va = translation w root va := by
  have hva : Outside windows va := by
    have ht : windowIndex true = 510 := by decide
    have hf : windowIndex false = 509 := by decide
    rw [secondaryPml4Index_eq] at h2
    unfold Outside windows
    omega
  have hentry : w (slot cr3 3 va) = w (slot root 3 va) := by
    rw [h.reads hn hva (.here _ _)]
    exact h.kernel _ h1 h2
  have hwalk : walk w va 3 cr3 = walk w va 3 root :=
    walk_congr_entry (n := 2) (by rw [hentry]) (by rw [hentry]) (fun _ => by rw [hentry]) fun _ => by rw [hentry]
  unfold translation
  rw [hwalk]

/-- The first 8 GiB are those of the current space. -/
theorem Shared.translation_first (h : Shared x w root cr3 first pdpt) (hn : NewFrames x root cr3 first pdpt)
    (hva : va < 8 * 2 ^ 30) : translation w cr3 va = translation w root va := by
  obtain ⟨h3, h2⟩ := index_low (show va < 2 ^ 39 by omega)
  have hout := outside_low (show va < 2 ^ 47 by omega)
  have hroot : PointsTo (w (root + 8 * 0)) pdpt := by
    have hread := h.reads hn hout (.here _ _)
    unfold slot at hread
    rw [h3] at hread
    rw [hread]
    exact hn.slot0
  have hcopy : w (slot first 2 va) = setPDPTEInfo (getPDPTEInfo (w (slot pdpt 2 va))) := by
    rw [h.reads hn hout (hn.reach_pdpt (by omega))]
    exact h.dma _ (by omega)
  unfold translation
  rw [walk_pointsTo (i := 0) h3 h.link, walk_pointsTo h3 hroot, walk_copy hcopy]

theorem Shared.translation_lower (h : Shared x w root cr3 first pdpt) (hva : 2 ^ 39 ≤ va) (hva' : va < 2 ^ 47) :
    translation w cr3 va = none := by
  have h1 : 1 ≤ index 3 va ∧ index 3 va < 256 := by
    unfold index
    simp only [Nat.reduceMul, Nat.reduceAdd, Nat.reducePow] at *
    omega
  have hzero : (w (slot cr3 3 va)).present = false := by
    unfold slot
    rw [h.lower _ h1.1 h1.2]
    rfl
  unfold translation
  rw [walk_absent hzero, ite_self]

theorem Shared.translation_leftover (h : Shared x w root cr3 first pdpt) (hva : va < 2 ^ 39) :
    translation w cr3 va = walk w va 2 first := by
  have hcan : Canonical va := .inl (by omega)
  unfold translation
  rw [if_pos hcan, walk_pointsTo (i := 0) (index_low hva).1 h.link]

/-- The frames that a walk below `first` must avoid: those that are filled in. -/
def Avoids (root cr3 first k u : Nat) : Prop := u ≠ cr3 ∧ u ≠ root ∧ (k < 2 → u ≠ first)

/-- A table below `first` that was not filled in is as it was. -/
theorem Shared.reads_first (h : Shared x w root cr3 first pdpt) (hn : NewFrames x root cr3 first pdpt)
    (hva : 8 * 2 ^ 30 ≤ va) (hva' : va < 2 ^ 39) {k u : Nat} (hr : Reach x va 2 first k u)
    (havoid : Avoids root cr3 first k u) : w (slot u k va) = x (slot u k va) := by
  obtain ⟨h1, h2, h3⟩ := havoid
  have ha := hr.aligned hn.freshFirst.aligned
  have hc := hn.freshRoot.aligned
  have hroot := hn.tables.tree.aligned
  have hfirst := hn.freshFirst.aligned
  have hi := index_lt k va
  have hidx := (index_low hva').2
  refine h.rest _ (by unfold slot; omega) (by rw [secondaryPml4Index_eq]; unfold slot; omega) ?_
  by_cases hk : k < 2
  · have hne := h3 hk
    unfold slot
    omega
  · -- the frame itself: its entries from 8 on
    have hle := hr.le
    obtain rfl : k = 2 := by omega
    obtain rfl := hr.unique (.here _ _)
    unfold slot
    omega

/-- A memory in which nothing is mapped below `first` does not lead back to it, or to the
current root. -/
theorem avoids_of_dead {y : PhysMem} (hn : NewFrames x root cr3 first pdpt)
    (hself : PointsTo (y (root + 8 * primaryPml4Index)) root)
    (hy : ∀ va, 8 * 2 ^ 30 ≤ va → va < 2 ^ 39 → walk y va 2 first = none)
    (hva : 8 * 2 ^ 30 ≤ va) (hva' : va < 2 ^ 39) {k u : Nat} (hr : Reach y va 2 first k u) (hc : u ≠ cr3) :
    Avoids root cr3 first k u := by
  refine ⟨hc, ?_, fun hk => ?_⟩
  · rintro rfl
    by_cases hk : k < 2
    · obtain ⟨va', h1, h2, h3⟩ := walk_self hva hva' hr hk (windowIndex_lt true) hself
      exact h3 (hy va' h1 h2)
    · have hle := hr.le
      obtain rfl : k = 2 := by omega
      exact hn.root_ne.2 (hr.unique (.here _ _))
  · rintro rfl
    obtain ⟨va', h1, h2, h3⟩ := walk_back hva hva' hr hk
    exact h3 (hy va' h1 h2)

theorem Shared.self_primary (h : Shared x w root cr3 first pdpt) (hn : NewFrames x root cr3 first pdpt) :
    PointsTo (x (root + 8 * primaryPml4Index)) root ∧ PointsTo (w (root + 8 * primaryPml4Index)) root := by
  have hx : PointsTo (x (root + 8 * primaryPml4Index)) root := hn.tables.window.2
  refine ⟨hx, ?_⟩
  obtain ⟨h1, h2⟩ := hn.root_ne
  have ha := hn.tables.tree.aligned
  have hc := hn.freshRoot.aligned
  have hf := hn.freshFirst.aligned
  rw [primaryPml4Index_eq] at hx ⊢
  rw [h.rest _ (by omega) (by rw [secondaryPml4Index_eq]; omega) (by omega)]
  exact hx

/-- If nothing is mapped below `first`, its walks are those of before. -/
theorem Shared.avoids (h : Shared x w root cr3 first pdpt) (hn : NewFrames x root cr3 first pdpt)
    (hw : ∀ va, 8 * 2 ^ 30 ≤ va → va < 2 ^ 39 → walk w va 2 first = none)
    (hva : 8 * 2 ^ 30 ≤ va) (hva' : va < 2 ^ 39) : ∀ k u, Reach x va 2 first k u → Avoids root cr3 first k u := by
  have hstep : ∀ k, (∀ j v, Reach x va 2 first j v → k < j → Avoids root cr3 first j v) →
      ∀ u, Reach x va 2 first k u → Avoids root cr3 first k u := by
    intro k habove u hr
    have hr' : Reach w va 2 first k u :=
      (reach_congr fun j v hv hj => h.reads_first hn hva hva' hv (habove j v hv hj)).mpr hr
    refine avoids_of_dead hn (h.self_primary hn).2 hw hva hva' hr' ?_
    rintro rfl
    by_cases hk : k < 2
    · obtain ⟨va', h1, h2, h3⟩ := walk_self hva hva' hr' hk (windowIndex_lt false) h.self
      exact h3 (hw va' h1 h2)
    · have hle := hr.le
      obtain rfl : k = 2 := by omega
      exact hn.apart (hr.unique (.here _ _))
  -- from the frame itself down
  have h2 := hstep 2 fun j v hv hj => absurd hv.le (by omega)
  have h1 := hstep 1 fun j v hv hj => by
    have hle := hv.le
    obtain rfl : j = 2 := by omega
    exact h2 v hv
  have h0 := hstep 0 fun j v hv hj => by
    have hle := hv.le
    obtain rfl | rfl : j = 1 ∨ j = 2 := by omega
    · exact h1 v hv
    · exact h2 v hv
  intro k u hr
  have hle := hr.le
  obtain rfl | rfl | rfl : k = 0 ∨ k = 1 ∨ k = 2 := by omega
  · exact h0 u hr
  · exact h1 u hr
  · exact h2 u hr

theorem Shared.leftovers_iff (h : Shared x w root cr3 first pdpt) (hn : NewFrames x root cr3 first pdpt) :
    (∀ va, 8 * 2 ^ 30 ≤ va → va < 2 ^ 39 → walk w va 2 first = none) ↔ LeftoversDead x first cr3 := by
  constructor
  · intro hw va hva hva'
    have havoid := h.avoids hn hw hva hva'
    refine ⟨?_, fun n hr => (havoid n cr3 hr).1 rfl⟩
    rw [← walk_congr fun k u hr => h.reads_first hn hva hva' hr (havoid k u hr)]
    exact hw va hva hva'
  · intro hdead va hva hva'
    have havoid : ∀ k u, Reach x va 2 first k u → Avoids root cr3 first k u := fun k u hr =>
      avoids_of_dead hn (h.self_primary hn).1 (fun va h1 h2 => (hdead va h1 h2).1) hva hva' hr fun he =>
        (hdead va hva hva').2 k (he ▸ hr)
    rw [walk_congr fun k u hr => h.reads_first hn hva hva' hr (havoid k u hr)]
    exact (hdead va hva hva').1

theorem Shared.isolated_iff (h : Shared x w root cr3 first pdpt) (hn : NewFrames x root cr3 first pdpt) :
    Isolated w root cr3 ↔
      (∀ va, dmaZone.end ≤ va → va < 8 * 2 ^ 30 → translation x root va = none) ∧
        LeftoversDead x first cr3 := by
  have hdma : dmaZone.end = 2 ^ 24 := by decide
  rw [← h.leftovers_iff hn]
  constructor
  · intro hiso
    refine ⟨fun va h1 h2 => ?_, fun va h1 h2 => ?_⟩
    · rw [← h.translation_root hn (outside_low (by omega)), ← h.translation_first hn h2]
      exact hiso.rest va h1 (by omega)
    · rw [← h.translation_leftover h2]
      exact hiso.rest va (by omega) (by omega)
  · rintro ⟨hlow, hleft⟩
    refine ⟨fun va => h.translation_kernel hn, fun va hva => h.translation_first hn (by omega), fun va h1 h2 => ?_⟩
    by_cases hva : va < 8 * 2 ^ 30
    · rw [h.translation_first hn hva, h.translation_root hn (outside_low h2)]
      exact hlow va h1 hva
    · by_cases hva' : va < 2 ^ 39
      · rw [h.translation_leftover hva']
        exact hleft va (by omega) hva'
      · exact h.translation_lower (by omega) h2

end

/-! ## Preparing the new root -/

/-- What the call relies on: the tables of the current root with the DMA zone in slot 0, and
frames that are no tables yet and handed out once. -/
structure CreateReady (m : PhysMem) (root maxPhyAddr : Nat) (cr3 first : Entry)
    (allocs : Nat → Option Entry × Option Entry) : Prop where
  general : GeneralReady m root maxPhyAddr allocs
  slot0 : (m root).Links
  newRoot : GoodPage m root maxPhyAddr cr3
  newFirst : GoodPage m root maxPhyAddr first
  apart : cr3 ≠ first
  once : ∀ i p, Given allocs i p → p ≠ cr3 ∧ p ≠ first

/-- In `m₁` the page `v` of the window is mapped to the frame `f`, with its entry in table `t`. -/
structure WindowPage (m m₁ : PhysMem) (root v t f : Nat) (allocs : Nat → Option Entry × Option Entry) : Prop where
  tables : Tables m₁ root
  outside : ∀ k, k < 4096 → Outside windows (v + k)
  high : 2 ^ 47 ≤ v
  canonical : Canonical v
  reach : Reach m₁ v 3 root 0 t
  mapped : ∀ k, k < 4096 → translation m₁ root (v + k) = some (f + k)
  fresh : ∀ g, Fresh m root windows g → (∀ i p, Given allocs i p → g ≠ p.toNat) → Fresh m₁ root windows g
  kept : ∀ a k u, Outside windows a → Reach m a 3 root k u → Reach m₁ a 3 root k u
  low : ∀ a, a < 2 ^ 47 → translation m₁ root a = translation m root a

/-- `y` is `x` with the root page `cr3` zeroed, the windows entered in it and the secondary
window of the current root set to it. -/
structure Prepared (x y : PhysMem) (root cr3 : Nat) : Prop where
  zero : ∀ i, i < secondaryPml4Index → y (cr3 + 8 * i) = 0#64
  self : PointsTo (y (cr3 + 8 * secondaryPml4Index)) cr3
  secondary : PointsTo (y (root + 8 * secondaryPml4Index)) cr3
  rest : ∀ q, ¬ (cr3 ≤ q ∧ q < cr3 + 4096) → q ≠ root + 8 * secondaryPml4Index → y q = x q

section
variable {m m₁ : PhysMem} {root maxPhyAddr v t : Nat} {cr3 first : Entry}
  {allocs : Nat → Option Entry × Option Entry}

/-- The tables of page `s` are there in `z`, and its entry is written. -/
theorem windowPage_of {s : Nat} {z : PhysMem} (hcr3 : GoodPage m root maxPhyAddr cr3) (hs : s < gpPages)
    (hg : Grown m z root fun p => ∃ i, Given allocs i p) (ht : Reach z (generalPage s) 3 root 0 t)
    (hw : Written z m₁ root maxPhyAddr (generalPage s / 4096) 1 cr3) :
    WindowPage m m₁ root (generalPage s) t cr3.toNat allocs := by
  have hva := generalPage_outside hs
  have hv := generalPage_eq s
  rw [gpPages_eq] at hs
  refine ⟨hw.tables, fun k hk => (general_address (by omega) (by omega)).2, by omega,
    (general_address (by omega) (by omega)).1, (hw.reach _ _ _ hva).mpr ht, fun k hk => ?_, fun g hf hne => ?_,
    fun a k u ha hr => (hw.reach a k u ha).mpr (hg.reach a k u ha hr), fun a ha => ?_⟩
  · have hpage : (generalPage s + k) / 4096 = generalPage s / 4096 := by omega
    have hoff : (generalPage s + k) % 4096 = k := by omega
    rw [hw.mapped _ (by omega) (by omega), hpage, Nat.sub_self, Nat.zero_mul, BitVec.add_zero, hcr3.1, hoff]
  · have hfresh := hg.fresh g hf fun p ⟨i, hp⟩ => hne i p hp
    exact ⟨hfresh.aligned, fun a n u ha hr => hfresh.unused a n u ha ((hw.reach a n u ha).mp hr)⟩
  · rw [hw.others a (outside_low ha) (by omega), hg.same a (outside_low ha)]

theorem windowPage_spec (hm : GeneralReady m root maxPhyAddr allocs) (hcr3 : GoodPage m root maxPhyAddr cr3)
    (hrun : mapGeneralPages m root maxPhyAddr cr3 1 (entryPresent ||| entryReadWrite) allocs =
      some (some v, m₁)) : ∃ t, WindowPage m m₁ root v t cr3.toNat allocs := by
  obtain ⟨r, m₂, hrun₂, hout⟩ := mapGeneralPages_spec cr3 hm
    (show (entryPresent ||| entryReadWrite) &&& entryAddress = 0#64 by decide) (show 0 < 1 by decide)
  rw [hrun] at hrun₂
  cases hrun₂
  obtain ⟨s, z, hs, rfl, hg, hreach, -, hw⟩ := hout
  have hfits := hs.fits
  obtain ⟨t, ht⟩ := hreach s (by omega)
  rw [hcr3.2.aligned, Nat.add_zero]
  exact ⟨t, windowPage_of hcr3 (by omega) hg ht hw⟩

/-- The memory after the page was unmapped again. -/
theorem WindowPage.unmapped {f : Nat} (h : WindowPage m m₁ root v t f allocs) :
    Tables (update m₁ (slot t 0 v) 0#64) root ∧
    (∀ a, a < 2 ^ 47 → translation (update m₁ (slot t 0 v) 0#64) root a = translation m root a) ∧
    (∀ a k u, Outside windows a → (Reach (update m₁ (slot t 0 v) 0#64) a 3 root k u ↔ Reach m₁ a 3 root k u)) := by
  have hva := h.outside 0 (by decide)
  have hbut : SameBut m₁ (update m₁ (slot t 0 v) 0#64) (slot t 0 v) fun _ => False := fun q hq _ => if_neg hq
  refine ⟨leaf_tables h.tables hva h.reach hbut, fun a ha => ?_, fun a k u ha =>
    leaf_reach h.tables.tree hva h.reach hbut ha⟩
  have hcan : Canonical a := .inl ha
  rw [leaf_translate_other h.tables.tree hva h.reach hbut (outside_low ha) fun hp => ?_]
  · exact h.low a ha
  · have hpage := samePath_page hcan h.canonical hp
    have hhigh := h.high
    omega

/-- While the frame of the new root is filled in, the page stays mapped to it. -/
theorem WindowPage.while (h : WindowPage m m₁ root v t cr3.toNat allocs)
    (hf : Fresh m₁ root windows cr3.toNat) {m' : PhysMem}
    (hm : ∀ q, ¬ (cr3.toNat ≤ q ∧ q < cr3.toNat + 4096) → m' q = m₁ q) {k : Nat} (hk : k < 4096) :
    translation m' root (v + k) = some (cr3.toNat + k) := by
  rw [hf.translate h.tables.tree hm (h.outside k hk)]
  exact h.mapped k hk

theorem rootEntry_eq (maxPhyAddr : Nat) (cr3 : Entry) :
    rootEntry maxPhyAddr cr3 = setPML4EInfo (linkInfo false (filterAddress maxPhyAddr cr3)) := by
  rw [setPML4EInfo_link]
  unfold rootEntry
  rw [show entryPresent ||| entryReadWrite = 3#64 by decide]
  rfl

/-- The frame is zeroed and gets its two entries. -/
theorem fillRoot_spec (maxPhyAddr : Nat) (h : WindowPage m m₁ root v t cr3.toNat allocs)
    (hf : Fresh m₁ root windows cr3.toNat) :
    ∃ m₂ m₃ m₄, zeroPage m₁ root v = some m₂ ∧
      writeVirtual m₂ root (v + entrySize * primaryPml4Index) (rootEntry maxPhyAddr cr3) = some m₃ ∧
      writeVirtual m₃ root (v + entrySize * secondaryPml4Index) (rootEntry maxPhyAddr cr3) = some m₄ ∧
      (∀ i, i < 512 → m₄ (cr3.toNat + 8 * i) =
        if i = secondaryPml4Index ∨ i = primaryPml4Index then rootEntry maxPhyAddr cr3 else 0#64) ∧
      ∀ q, ¬ (cr3.toNat ≤ q ∧ q < cr3.toNat + 4096) → m₄ q = m₁ q := by
  have hsize : entrySize = 8 := rfl
  rw [primaryPml4Index_eq, secondaryPml4Index_eq, hsize]
  obtain ⟨m₂, hzero, hzeros, hrest⟩ := zeroPage_spec m₁ root v cr3.toNat fun m' hm j hj =>
    h.while hf hm (by omega)
  have hrest₃ : ∀ q, ¬ (cr3.toNat ≤ q ∧ q < cr3.toNat + 4096) →
      update m₂ (cr3.toNat + 8 * 510) (rootEntry maxPhyAddr cr3) q = m₁ q := by
    intro q hq
    rw [update, if_neg (by omega), hrest q hq]
  refine ⟨m₂, update m₂ (cr3.toNat + 8 * 510) (rootEntry maxPhyAddr cr3),
    update (update m₂ (cr3.toNat + 8 * 510) (rootEntry maxPhyAddr cr3)) (cr3.toNat + 8 * 509)
      (rootEntry maxPhyAddr cr3), hzero, ?_, ?_, fun i hi => ?_, fun q hq => ?_⟩
  · rw [writeVirtual, h.while hf hrest (by omega)]
    rfl
  · rw [writeVirtual, h.while hf hrest₃ (by omega)]
    rfl
  · by_cases h509 : i = 509
    · rw [if_pos (.inl h509), h509, update, if_pos rfl]
    · by_cases h510 : i = 510
      · rw [if_pos (.inr h510), h510, update, if_neg (by omega), update, if_pos rfl]
      · rw [if_neg (by omega), update, if_neg (by omega), update, if_neg (by omega)]
        exact hzeros i hi
  · rw [update, if_neg (by omega), hrest₃ q hq]

/-- The page is unmapped and the window set. -/
theorem prepare_spec {m₄ : PhysMem} (h : WindowPage m m₁ root v t cr3.toNat allocs)
    (hf : Fresh m₁ root windows cr3.toNat) (hbits : filterAddress maxPhyAddr cr3 &&& entryAddress = cr3)
    (hentries : ∀ i, i < 512 → m₄ (cr3.toNat + 8 * i) =
      if i = secondaryPml4Index ∨ i = primaryPml4Index then rootEntry maxPhyAddr cr3 else 0#64)
    (hrest : ∀ q, ¬ (cr3.toNat ≤ q ∧ q < cr3.toNat + 4096) → m₄ q = m₁ q) :
    ∃ m₅ y, unmapGeneralPages m₄ root v 1 = some (true, m₅) ∧
      updateSecondaryRecursiveMapping m₅ root maxPhyAddr cr3 = some y ∧
      Prepared (update m₁ (slot t 0 v) 0#64) y root cr3.toNat ∧
      ∀ i, i < 512 → y (cr3.toNat + 8 * i) =
        if i = secondaryPml4Index ∨ i = primaryPml4Index then rootEntry maxPhyAddr cr3 else 0#64 := by
  have hva := h.outside 0 (by decide)
  have htables := fresh_tables h.tables hf hrest
  have hreach := (hf.reach_iff h.tables.tree hrest hva).mpr h.reach
  have htables₅ : Tables (update m₄ (slot t 0 v) 0#64) root :=
    leaf_tables htables hva hreach fun q hq _ => if_neg hq
  have hentry : PointsTo (rootEntry maxPhyAddr cr3) cr3.toNat := by
    rw [rootEntry_eq]
    exact link_pointsTo (setPML4EInfo_link _ _) hbits
  have hslot : ∀ i, i < 512 → cr3.toNat + 8 * i ≠ slot t 0 v := by
    have h1 := h.reach.aligned h.tables.tree.aligned
    have h2 := hf.aligned
    have h3 := hf.unused v 0 t hva h.reach
    have h4 := index_lt 0 v
    unfold slot
    omega
  have hroot : ∀ i, i < 512 → cr3.toNat + 8 * i ≠ root + 8 * 509 := by
    have h1 := hf.unused 0 3 root (outside_low (by decide)) (.here _ _)
    have h2 := h.tables.tree.aligned
    have h3 := hf.aligned
    omega
  have hkept : ∀ i, i < 512 → update (update m₄ (slot t 0 v) 0#64) (root + 8 * 509) (rootEntry maxPhyAddr cr3)
      (cr3.toNat + 8 * i) =
        if i = secondaryPml4Index ∨ i = primaryPml4Index then rootEntry maxPhyAddr cr3 else 0#64 := fun i hi => by
    rw [update, if_neg (hroot i hi), update, if_neg (hslot i hi), hentries i hi]
  refine ⟨update m₄ (slot t 0 v) 0#64, update (update m₄ (slot t 0 v) 0#64) (root + 8 * 509)
    (rootEntry maxPhyAddr cr3), unmapGeneralPages_one htables hreach, ?_, ?_, hkept⟩
  · rw [updateSecondaryRecursiveMapping, writeVirtual, pml4ePointer htables₅.window, rootEntry_eq]
    rfl
  · constructor
    · intro i hi
      rw [hkept i (by rw [secondaryPml4Index_eq] at hi; omega),
        if_neg (by rw [primaryPml4Index_eq]; rw [secondaryPml4Index_eq] at hi ⊢; omega)]
    · rw [hkept _ (by decide), if_pos (.inl rfl)]
      exact hentry
    · rw [secondaryPml4Index_eq, update, if_pos rfl]
      exact hentry
    · intro q hq hqs
      rw [secondaryPml4Index_eq] at hqs
      rw [update, if_neg hqs]
      by_cases he : q = slot t 0 v
      · rw [update, if_pos he, update, if_pos he]
      · rw [update, if_neg he, hrest q hq, update, if_neg he]

end

/-! ## Sharing -/

/-- Both windows are set up, the secondary one for `cr3`. -/
structure Windowed (y : PhysMem) (root cr3 : Nat) : Prop where
  primary : Window y root root true
  secondary : Window y root cr3 false

section
variable {x y y' : PhysMem} {root cr3 first pdpt : Nat}

theorem Windowed.kept (h : Windowed y root cr3) (h1 : y' (root + 8 * 510) = y (root + 8 * 510))
    (h2 : y' (root + 8 * 509) = y (root + 8 * 509)) (h3 : y' (cr3 + 8 * 509) = y (cr3 + 8 * 509)) :
    Windowed y' root cr3 where
  primary := by
    obtain ⟨-, hp⟩ := h.primary
    refine ⟨rfl, ?_⟩
    change PointsTo (y' (root + 8 * 510)) root
    rw [h1]
    exact hp
  secondary := by
    obtain ⟨hs, hself⟩ := h.secondary
    constructor
    · change PointsTo (y' (root + 8 * 509)) cr3
      rw [h2]
      exact hs
    · change PointsTo (y' (cr3 + 8 * 509)) cr3
      rw [h3]
      exact hself

theorem shareKernelLoop_spec (ha : root % 4096 = 0) (hc : cr3 % 4096 = 0) (_ : root ≠ cr3) (k : Nat) :
    ∀ (i : Nat) (y : PhysMem), i + k = 509 → Windowed y root cr3 →
      ∃ y', shareKernelLoop root k i y = some y' ∧
        (∀ j, i ≤ j → j < 509 → y' (cr3 + 8 * j) = y (root + 8 * j)) ∧
        ∀ q, (∀ j, i ≤ j → j < 509 → q ≠ cr3 + 8 * j) → y' q = y q := by
  induction k with
  | zero =>
    intro i y hi _
    exact ⟨y, rfl, fun j h1 h2 => by omega, fun _ _ => rfl⟩
  | succ k ih =>
    intro i y hi hw
    have hread : readVirtual y root (getPML4Address true + entrySize * i) = some (y (root + 8 * i)) := by
      unfold readVirtual
      rw [show entrySize * i = 8 * i from rfl, pml4Pointer hw.primary (by omega)]
      rfl
    have hwrite : writeVirtual y root (getPML4Address false + entrySize * i) (y (root + 8 * i)) =
        some (update y (cr3 + 8 * i) (y (root + 8 * i))) := by
      unfold writeVirtual
      rw [show entrySize * i = 8 * i from rfl, pml4Pointer hw.secondary (by omega)]
      rfl
    obtain ⟨y', hrun, hcopied, hrest⟩ := ih (i + 1) (update y (cr3 + 8 * i) (y (root + 8 * i))) (by omega)
      (hw.kept (if_neg (by omega)) (if_neg (by omega)) (if_neg (by omega)))
    refine ⟨y', ?_, fun j h1 h2 => ?_, fun q hq => ?_⟩
    · rw [shareKernelLoop]
      simp only [Option.bind_eq_bind, hread, Option.bind_some, hwrite, hrun]
    · by_cases he : j = i
      · rw [he, hrest _ fun j' _ _ => by omega, update, if_pos rfl]
      · rw [hcopied j (by omega) h2, update, if_neg (by omega)]
    · rw [hrest q fun j h1 h2 => hq j (by omega) h2, update, if_neg (hq i (Nat.le_refl _) (by omega))]

theorem dmaMapping_pdpt {i : Nat} (hi : i < 512) :
    { dmaMapping with pdptOffset := dmaMapping.pdptOffset + i } = parseVirtualAddress (lowAddress i 0 0) := by
  obtain ⟨h3, h2, h1, h0⟩ := lowAddress_indices hi (show 0 < 512 by decide) (show 0 < 512 by decide)
  rw [parse_eq, h3, h2, h1, h0, show dmaMapping = ⟨0, 0, 0, 0, 0⟩ by decide]
  have hoff : lowAddress i 0 0 % 4096 = 0 := by
    unfold lowAddress
    omega
  rw [hoff, Nat.zero_add]

theorem lowAddress_lt {i : Nat} (hi : i < 512) : lowAddress i 0 0 < 2 ^ 39 := by
  unfold lowAddress
  omega

theorem shareDmaLoop_spec (hn : NewFrames x root cr3 first pdpt) (k : Nat) :
    ∀ (i : Nat) (y : PhysMem), i + k = 8 → Windowed y root cr3 → PointsTo (y cr3) first →
      PointsTo (y root) pdpt →
      ∃ y', shareDmaLoop root k i y = some y' ∧
        (∀ j, i ≤ j → j < 8 → y' (first + 8 * j) = setPDPTEInfo (getPDPTEInfo (y (pdpt + 8 * j)))) ∧
        ∀ q, (∀ j, i ≤ j → j < 8 → q ≠ first + 8 * j) → y' q = y q := by
  obtain ⟨hrc, hrf⟩ := hn.root_ne
  obtain ⟨hpc, hpf, hpr⟩ := hn.pdpt_ne
  have h1 := hn.tables.tree.aligned
  have h2 := hn.freshRoot.aligned
  have h3 := hn.freshFirst.aligned
  have hpdpt : Reach x 0 3 root 2 pdpt := hn.reach_pdpt (by decide)
  have h4 := hpdpt.aligned h1
  have h5 := hn.apart
  induction k with
  | zero =>
    intro i y hi _ _ _
    exact ⟨y, rfl, fun j h1 h2 => by omega, fun _ _ => rfl⟩
  | succ k ih =>
    intro i y hi hw hfirst hpdpt
    have hlow := lowAddress_lt (show i < 512 by omega)
    obtain ⟨-, hi2, -, -⟩ := lowAddress_indices (show i < 512 by omega) (show 0 < 512 by decide)
      (show 0 < 512 by decide)
    have hread : readVirtual y root (getPDPTEAddress (parseVirtualAddress (lowAddress i 0 0)) true) =
        some (y (pdpt + 8 * i)) := by
      unfold readVirtual
      rw [pdptePointer hw.primary (reach_slot0 hlow hpdpt), slot, hi2]
      rfl
    have hwrite : writeVirtual y root (getPDPTEAddress (parseVirtualAddress (lowAddress i 0 0)) false)
        (setPDPTEInfo (getPDPTEInfo (y (pdpt + 8 * i)))) =
        some (update y (first + 8 * i) (setPDPTEInfo (getPDPTEInfo (y (pdpt + 8 * i))))) := by
      unfold writeVirtual
      rw [pdptePointer hw.secondary (reach_slot0 hlow hfirst), slot, hi2]
      rfl
    obtain ⟨y', hrun, hcopied, hrest⟩ := ih (i + 1)
      (update y (first + 8 * i) (setPDPTEInfo (getPDPTEInfo (y (pdpt + 8 * i))))) (by omega)
      (hw.kept (if_neg (by omega)) (if_neg (by omega)) (if_neg (by omega)))
      (by rw [update, if_neg (by omega)]; exact hfirst) (by rw [update, if_neg (by omega)]; exact hpdpt)
    refine ⟨y', ?_, fun j h1 h2 => ?_, fun q hq => ?_⟩
    · rw [shareDmaLoop]
      simp only [dmaMapping_pdpt (show i < 512 by omega), Option.bind_eq_bind, hread, Option.bind_some, hwrite, hrun]
    · by_cases he : j = i
      · rw [he, hrest _ fun j' _ _ => by omega, update, if_pos rfl]
      · rw [hcopied j (by omega) h2, update, if_neg (by omega)]
    · rw [hrest q fun j h1 h2 => hq j (by omega) h2, update, if_neg (hq i (Nat.le_refl _) (by omega))]

theorem Prepared.windowed (h : Prepared x y root cr3) (hn : NewFrames x root cr3 first pdpt) :
    Windowed y root cr3 where
  primary := by
    obtain ⟨hrc, -⟩ := hn.root_ne
    have h1 := hn.tables.tree.aligned
    have h2 := hn.freshRoot.aligned
    obtain ⟨-, hp⟩ := hn.tables.window
    refine ⟨rfl, ?_⟩
    change PointsTo (y (root + 8 * 510)) root
    rw [h.rest _ (by omega) (by rw [secondaryPml4Index_eq]; omega)]
    exact hp
  secondary := ⟨h.secondary, h.self⟩

theorem share_spec {maxPhyAddr : Nat} {page : Entry} (second : Entry) (h : Prepared x y root cr3)
    (hn : NewFrames x root cr3 page.toNat pdpt) (hbits : filterAddress maxPhyAddr page &&& entryAddress = page) :
    ∃ w, shareKernelMemoryToSecondaryMapping y root maxPhyAddr (some page) (some second) = some (true, w) ∧
      Shared x w root cr3 page.toNat pdpt ∧
      ∀ q, (∀ i, i < secondaryPml4Index → q ≠ cr3 + 8 * i) → ¬ (page.toNat ≤ q ∧ q < page.toNat + 64) → w q = y q := by
  obtain ⟨hrc, hrf⟩ := hn.root_ne
  obtain ⟨hpc, hpf, hpr⟩ := hn.pdpt_ne
  have ha := hn.tables.tree.aligned
  have hc := hn.freshRoot.aligned
  have hf := hn.freshFirst.aligned
  have hpdpt : Reach x 0 3 root 2 pdpt := hn.reach_pdpt (by decide)
  have hp := hpdpt.aligned ha
  have hcf := hn.apart
  have hs := secondaryPml4Index_eq
  have hw := h.windowed hn
  obtain ⟨y₁, hrun₁, hkernel, hrest₁⟩ := shareKernelLoop_spec ha hc hrc 253 256 y rfl hw
  have hw₁ : Windowed y₁ root cr3 := hw.kept (hrest₁ _ (by omega)) (hrest₁ _ (by omega)) (hrest₁ _ (by omega))
  -- the entry of slot 0
  have hlink := link_pointsTo (setPML4EInfo_link false (filterAddress maxPhyAddr page)) hbits
  have hwrite₂ : writeVirtual y₁ root (getPML4EAddress dmaMapping false)
      (setPML4EInfo (linkInfo false (filterAddress maxPhyAddr page))) =
      some (update y₁ cr3 (setPML4EInfo (linkInfo false (filterAddress maxPhyAddr page)))) := by
    unfold writeVirtual dmaMapping
    rw [pml4ePointer hw₁.secondary]
    rfl
  have hw₂ : Windowed (update y₁ cr3 (setPML4EInfo (linkInfo false (filterAddress maxPhyAddr page)))) root cr3 :=
    hw₁.kept (if_neg (by omega)) (if_neg (by omega)) (if_neg (by omega))
  have hfirst₂ : PointsTo (update y₁ cr3 (setPML4EInfo (linkInfo false (filterAddress maxPhyAddr page))) cr3)
      page.toNat := by
    rw [update, if_pos rfl]
    exact hlink
  -- the entry that the loop overwrites
  have hwrite₃ : writeVirtual (update y₁ cr3 (setPML4EInfo (linkInfo false (filterAddress maxPhyAddr page)))) root
      (getPDPTEAddress dmaMapping false) (setPDPTEInfo (linkInfo false (filterAddress maxPhyAddr second))) =
      some (update (update y₁ cr3 (setPML4EInfo (linkInfo false (filterAddress maxPhyAddr page)))) page.toNat
        (setPDPTEInfo (linkInfo false (filterAddress maxPhyAddr second)))) := by
    unfold writeVirtual dmaMapping
    rw [pdptePointer hw₂.secondary (reach_slot0 (by decide) hfirst₂)]
    rfl
  generalize hy₂ : update y₁ cr3 (setPML4EInfo (linkInfo false (filterAddress maxPhyAddr page))) = y₂ at *
  generalize hy₃ : update y₂ page.toNat (setPDPTEInfo (linkInfo false (filterAddress maxPhyAddr second))) = y₃ at *
  have hrest₃ : ∀ q, q ≠ page.toNat → q ≠ cr3 → y₃ q = y₁ q := by
    intro q h1 h2
    rw [← hy₃, update, if_neg h1, ← hy₂, update, if_neg h2]
  have hfirst₃ : PointsTo (y₃ cr3) page.toNat := by
    rw [← hy₃, update, if_neg (by omega)]
    exact hfirst₂
  have hpdpt₃ : PointsTo (y₃ root) pdpt := by
    rw [hrest₃ _ (by omega) (by omega), hrest₁ _ (by omega), h.rest _ (by omega) (by omega)]
    exact hn.slot0
  obtain ⟨w, hrun₄, hdma, hrest₄⟩ := shareDmaLoop_spec hn 8 0 y₃ rfl
    (hw₁.kept (hrest₃ _ (by omega) (by omega)) (hrest₃ _ (by omega) (by omega)) (hrest₃ _ (by omega) (by omega)))
    hfirst₃ hpdpt₃
  refine ⟨w, ?_, ⟨fun i h1 h2 => ?_, ?_, fun i h1 h2 => ?_, ?_, fun i hi => ?_, fun q h1 h2 h3 => ?_⟩,
    fun q h1 h2 => ?_⟩
  · unfold shareKernelMemoryToSecondaryMapping
    rw [show secondaryPml4Index - 256 = 253 by decide, hrun₁]
    simp only [Option.bind_eq_bind, Option.bind_some, hwrite₂, hwrite₃]
    rw [show dmaPds = 8 by decide, hrun₄]
    rfl
  · rw [hrest₄ _ (by omega), hrest₃ _ (by omega) (by omega), hkernel i h1 (by omega),
      h.rest _ (by omega) (by omega)]
  · rw [hrest₄ _ (by omega)]
    exact hfirst₃
  · rw [hrest₄ _ (by omega), hrest₃ _ (by omega) (by omega), hrest₁ _ (by omega)]
    exact h.zero i (by omega)
  · rw [hs, hrest₄ _ (by omega), hrest₃ _ (by omega) (by omega), hrest₁ _ (by omega)]
    exact h.self
  · rw [hdma i (Nat.zero_le _) hi, hrest₃ _ (by omega) (by omega), hrest₁ _ (by omega), h.rest _ (by omega) (by omega)]
  · rw [hrest₄ _ (by omega), hrest₃ _ (by omega) (by omega), hrest₁ _ (by omega), h.rest _ h1 h2]
  · have hfirst := h1 0 (by rw [hs]; decide)
    rw [hrest₄ _ (by omega), hrest₃ _ (by omega) (by omega), hrest₁ _ fun j _ hj => h1 j (by omega)]

end

/-! ## The whole call -/

/-- Once the page for the new root is mapped, the call succeeds. `x` is the memory with that
page mapped and unmapped again. -/
theorem create_spec {m m₁ : PhysMem} {root maxPhyAddr v : Nat} {cr3 first : Entry} (second : Entry)
    {allocs : Nat → Option Entry × Option Entry} (hm : CreateReady m root maxPhyAddr cr3 first allocs)
    (hmap : mapGeneralPages m root maxPhyAddr cr3 1 (entryPresent ||| entryReadWrite) allocs =
      some (some v, m₁)) :
    ∃ x w pdpt, unmapGeneralPages m₁ root v 1 = some (true, x) ∧
      createSecondaryRecursiveMapping m root maxPhyAddr cr3 allocs (some first) (some second) = some (true, w) ∧
      NewFrames x root cr3.toNat first.toNat pdpt ∧ Shared x w root cr3.toNat first.toNat pdpt ∧
      ∀ a, a < 2 ^ 47 → translation x root a = translation m root a := by
  obtain ⟨t, hpage⟩ := windowPage_spec hm.general hm.newRoot hmap
  obtain ⟨htables, hlow, hreach⟩ := hpage.unmapped
  have hfresh₁ : ∀ p, GoodPage m root maxPhyAddr p → (∀ i q, Given allocs i q → q ≠ p) →
      Fresh m₁ root windows p.toNat := fun p hp hq =>
    hpage.fresh _ hp.2 fun i q hg he => hq i q hg (BitVec.eq_of_toNat_eq he.symm)
  have hroot₁ := hfresh₁ cr3 hm.newRoot fun i q hg => (hm.once i q hg).1
  have hfirst₁ := hfresh₁ first hm.newFirst fun i q hg => (hm.once i q hg).2
  have hfresh : ∀ f, Fresh m₁ root windows f → Fresh (update m₁ (slot t 0 v) 0#64) root windows f :=
    fun f hf => ⟨hf.aligned, fun a n u ha hr => hf.unused a n u ha ((hreach a n u ha).mp hr)⟩
  have hn : NewFrames (update m₁ (slot t 0 v) 0#64) root cr3.toNat first.toNat (m root).frame := by
    refine ⟨htables, ?_, hfresh _ hroot₁, hfresh _ hfirst₁, fun he => hm.apart (BitVec.eq_of_toNat_eq he)⟩
    have hout : Outside windows 0 := outside_low (by decide)
    have hr := hpage.kept 0 2 _ hout (reach_slot0 (by decide) ⟨hm.slot0, rfl⟩)
    obtain ⟨s, hs, hp⟩ := reach_pointsTo ((hreach 0 2 _ hout).mpr hr) (by decide)
    rw [reach_top hs] at hp
    exact hp
  obtain ⟨m₂, m₃, m₄, hzero, hwrite₃, hwrite₄, hentries, hrest⟩ := fillRoot_spec maxPhyAddr hpage hroot₁
  obtain ⟨m₅, y, hunmap, hupdate, hprepared, -⟩ := prepare_spec hpage hroot₁ hm.newRoot.1 hentries hrest
  obtain ⟨w, hshare, hshared, -⟩ := share_spec second hprepared hn hm.newFirst.1
  refine ⟨_, w, _, unmapGeneralPages_one hpage.tables hpage.reach, ?_, hn, hshared, hlow⟩
  unfold createSecondaryRecursiveMapping
  simp only [Option.bind_eq_bind, hmap, Option.bind_some, hzero, hwrite₃, hwrite₄, hunmap, Bool.not_true,
    Bool.false_eq_true, if_false, hupdate, hshare]

/-- For every current page table with its windows set up, whatever the frames hold: after the
call succeeds the new space is isolated iff the current one maps nothing from the end of the DMA
zone to 8 GiB, and what is left over in the frame of the first PDPT leads nowhere (in the memory
in which the page for the new root has been mapped and unmapped again). -/
theorem newSpace_isolated_iff (m : PhysMem) (root maxPhyAddr : Nat) (cr3 first second : Entry)
    (allocs : Nat → Option Entry × Option Entry) (w : PhysMem) (hm : CreateReady m root maxPhyAddr cr3 first allocs)
    (hrun : createSecondaryRecursiveMapping m root maxPhyAddr cr3 allocs (some first) (some second) =
      some (true, w)) :
    Isolated w root cr3.toNat ↔
      (∀ va, dmaZone.end ≤ va → va < 8 * 2 ^ 30 → translation m root va = none) ∧
      ∀ v m₁ x, mapGeneralPages m root maxPhyAddr cr3 1 (entryPresent ||| entryReadWrite) allocs =
        some (some v, m₁) → unmapGeneralPages m₁ root v 1 = some (true, x) →
        LeftoversDead x first.toNat cr3.toNat := by
  obtain ⟨r, m₁, hmap, -⟩ := mapGeneralPages_spec cr3 hm.general
    (show (entryPresent ||| entryReadWrite) &&& entryAddress = 0#64 by decide) (show 0 < 1 by decide)
  cases r with
  | none =>
    unfold createSecondaryRecursiveMapping at hrun
    simp only [Option.bind_eq_bind, hmap, Option.bind_some] at hrun
    cases hrun
  | some v =>
    obtain ⟨x, w', pdpt, hunmap, hrun', hn, hshared, hlow⟩ := create_spec second hm hmap
    rw [hrun'] at hrun
    cases hrun
    rw [hshared.isolated_iff hn]
    refine and_congr ⟨fun h va h1 h2 => ?_, fun h va h1 h2 => ?_⟩ ⟨fun h v' m' x' hmap' hunmap' => ?_, fun h => ?_⟩
    · rw [← hlow va (by omega)]
      exact h va h1 h2
    · rw [hlow va (by omega)]
      exact h va h1 h2
    · rw [hmap] at hmap'
      cases hmap'
      rw [hunmap] at hunmap'
      cases hunmap'
      exact h
    · exact h v m₁ x hmap hunmap

/-- `generalRoot`, with an entry for a page of 1 GiB left over in the frame at `0x6000`. -/
def staleFrame : PhysMem := update generalRoot 0x6040 0x83#64

theorem staleFrame_rest (q : Nat) (h : ¬ (0x6000 ≤ q ∧ q < 0x6000 + 4096)) : staleFrame q = generalRoot q :=
  if_neg (by omega)

theorem fresh_staleFrame {f : Nat} (ha : f % 4096 = 0) (hf : (0x5000 ≤ f ∧ f < 0x8000) ∨ 0xA000 ≤ f) :
    Fresh staleFrame 0x1000 windows f :=
  ⟨ha, fun va n t hva h => (fresh_generalRoot ha hf).unused va n t hva
    (((fresh_generalRoot (by decide) (.inl (by decide))).reach_iff tables_generalRoot.tree staleFrame_rest hva).mp h)⟩

theorem createReady_staleFrame : CreateReady staleFrame 0x1000 48 0x5000#64 0x6000#64 fun _ => (none, none) where
  general := {
    tables := fresh_tables tables_generalRoot (fresh_generalRoot (f := 0x6000) (by decide) (.inl (by decide)))
      staleFrame_rest
    kernel := by decide
    small := fun i hi n t h h1 hp => by
      have hfresh := fresh_generalRoot (f := 0x6000) (by decide) (.inl (by decide))
      have hva := generalPage_outside hi
      have hr := (hfresh.reach_iff tables_generalRoot.tree staleFrame_rest hva).mp h
      have he := hfresh.reads tables_generalRoot.tree staleFrame_rest hva hr
      rw [he] at hp ⊢
      exact generalReady_generalRoot.small i hi n t hr h1 hp
    frames := fun i p h => by rcases h with h | h <;> cases h
    once := fun i j p h => by rcases h with h | h <;> cases h
    apart := fun i p h => by cases h }
  slot0 := by decide
  newRoot := ⟨by decide, fresh_staleFrame (by decide) (.inl (by decide))⟩
  newFirst := ⟨by decide, fresh_staleFrame (by decide) (.inl (by decide))⟩
  apart := by decide
  once i p h := by rcases h with h | h <;> cases h

theorem map_staleFrame : ∃ m₁, mapGeneralPages staleFrame 0x1000 48 0x5000#64 1 (entryPresent ||| entryReadWrite)
    (fun _ => (none, none)) = some (some 0xFFFF800130000000, m₁) ∧
    (unmapGeneralPages m₁ 0x1000 0xFFFF800130000000 1).map (fun r => r.2 0x6040) = some 0x83#64 := by
  have hrun : (mapGeneralPages staleFrame 0x1000 48 0x5000#64 1 (entryPresent ||| entryReadWrite)
      fun _ => (none, none)).map (fun r => (r.1, (unmapGeneralPages r.2 0x1000 0xFFFF800130000000 1).map
        fun r => r.2 0x6040)) = some (some 0xFFFF800130000000, some 0x83#64) := by
    decide +kernel
  rw [Option.map_eq_some_iff] at hrun
  obtain ⟨⟨v, m₁⟩, hrun, hv⟩ := hrun
  obtain ⟨rfl, hx⟩ := Prod.mk.injEq .. ▸ hv
  exact ⟨m₁, hrun, hx⟩

/-- The new space has a page at 8 GiB. -/
theorem newSpace_leftover : ∃ w, createSecondaryRecursiveMapping staleFrame 0x1000 48 0x5000#64
    (fun _ => (none, none)) (some 0x6000#64) (some 0x7000#64) = some (true, w) ∧ ¬ Isolated w 0x1000 0x5000 := by
  obtain ⟨m₁, hmap, hword⟩ := map_staleFrame
  obtain ⟨x, w, pdpt, hunmap, hrun, hn, hshared, -⟩ := create_spec 0x7000#64 createReady_staleFrame hmap
  refine ⟨w, hrun, fun hiso => ?_⟩
  have hdead := (((hshared.isolated_iff hn).mp hiso).2 (8 * 2 ^ 30) (Nat.le_refl _) (by decide)).1
  have hx : x (slot 0x6000 2 (8 * 2 ^ 30)) = 0x83#64 := by
    rw [hunmap] at hword
    exact Option.some.inj hword
  have hwalk : walk x (8 * 2 ^ 30) 2 0x6000 ≠ none := by
    rw [walk]
    simp only [hx]
    rw [if_neg (by decide), if_pos (by decide), if_neg (by decide)]
    exact Option.some_ne_none _
  exact hwalk hdead

/-- The call on it succeeds. -/
theorem newSpace_isolated_staleFrame : ∃ w, createSecondaryRecursiveMapping staleFrame 0x1000 48 0x5000#64
    (fun _ => (none, none)) (some 0x6000#64) (some 0x7000#64) = some (true, w) ∧
    (Isolated w 0x1000 0x5000 ↔
      (∀ va, dmaZone.end ≤ va → va < 8 * 2 ^ 30 → translation staleFrame 0x1000 va = none) ∧
      ∀ v m₁ x, mapGeneralPages staleFrame 0x1000 48 0x5000#64 1 (entryPresent ||| entryReadWrite)
        (fun _ => (none, none)) = some (some v, m₁) → unmapGeneralPages m₁ 0x1000 v 1 = some (true, x) →
        LeftoversDead x 0x6000 0x5000) := by
  obtain ⟨m₁, hmap, -⟩ := map_staleFrame
  obtain ⟨x, w, pdpt, -, hrun, -, -, -⟩ := create_spec 0x7000#64 createReady_staleFrame hmap
  exact ⟨w, hrun, newSpace_isolated_iff staleFrame 0x1000 48 0x5000#64 0x6000#64 0x7000#64 (fun _ => (none, none)) w
    createReady_staleFrame hrun⟩

end BadLands.Mm.Paging
