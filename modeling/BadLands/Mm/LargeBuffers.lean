import BadLands.Mm.GeneralPages
import BadLands.Mm.IOHeap

/-!
# Buffers in the general mapping window

`IOHeap::Create` maps its 32 MiB arena, and the bulk-only driver its 2 MiB transfer buffer, with
`MapGeneralPages`. Both pass the page-size flag and count in large pages, 16 and 1, but
`MapGeneralPages` counts in pages of 4 KiB, and the flag means another thing in the entry of a
page: 64 KiB of the arena and 4 KiB of the buffer are mapped.

`buffers_inFull_iff`: the buffer is mapped in full exactly when the pages behind the mapped ones
lead to the rest of the block already.
-/
namespace BadLands.Mm.LargeBuffers

open BadLands.Core BadLands.Core.PageTable BadLands.Mm.Layout BadLands.Mm.Paging

/-! mirrors kernel/src/mm/IOHeap.cpp:30-34 -/

def pagesInHugePage : Nat := pdeCoverage / Layout.pageSize

def defaultPages : Nat := (IOHeap.defaultArenaSize + Layout.pageSize - 1) / Layout.pageSize

def defaultHugePages : Nat := defaultPages / pagesInHugePage

/-- `PDE_PAGE_SIZE | PDE_UNCACHEABLE | PDE_READWRITE | PDE_PRESENT`. -/
def bufferFlags : Entry :=
  entryPageSize ||| (entryPCD ||| entryPWT) ||| entryReadWrite ||| entryPresent

/-- `IOHeap::Create`; `region` is the outcome of `Allocate32MB`. Padding and size of the first
header are the halves of one word. The result is the success and the new `head`.
mirrors kernel/src/mm/IOHeap.cpp:48-75 -/
def createIOHeap (m : PhysMem) (root maxPhyAddr head : Nat) (region : Option Entry)
    (allocs : Nat → Option Entry × Option Entry) : Option (Bool × Nat × PhysMem) :=
  if head ≠ 0 then some (true, head, m)
  else match region with
    | none => some (false, 0, m)
    | some physicalRegion => do
      let (mapped, m) ← mapGeneralPages m root maxPhyAddr physicalRegion defaultHugePages bufferFlags allocs
      match mapped with
      | none => return (false, 0, m)
      | some head =>
        let m ← writeVirtual m root head
          (BitVec.ofNat 64 ((IOHeap.defaultArenaSize - IOHeap.sizeofMetadata) * 2 ^ 32))
        let m ← writeVirtual m root (head + 8) 0#64
        return (true, head, m)

/-- mirrors kernel/include/devices/USB/MassStorage/BBB/Driver.hpp:91,122 -/
def getMaxDataTransferLength : Nat := 2 * 1024 * 1024

/-- The transfer buffer of `Driver::Create`; `block` is the outcome of `Allocate2MB`.
mirrors kernel/src/devices/USB/MassStorage/BBB/Driver.cpp:169-196 -/
def createIOBuffer (m : PhysMem) (root maxPhyAddr : Nat) (block : Option Entry)
    (allocs : Nat → Option Entry × Option Entry) : Option (Option Nat × PhysMem) :=
  match block with
  | none => some (none, m)
  | some physIOBuffer => mapGeneralPages m root maxPhyAddr physIOBuffer 1 bufferFlags allocs

/-- The buffer is mapped in full. -/
def InFull (m : PhysMem) (root buffer base size : Nat) : Prop :=
  ∀ o, o < size → translation m root (buffer + o) = some (base + o)

/-- Behind the first run of `pages` unmapped pages, the rest of the block is mapped. -/
def RestMapped (m : PhysMem) (root pages base size : Nat) : Prop :=
  ∀ s, FirstRun m root pages s → ∀ o, pages * 4096 ≤ o → o < size →
    translation m root (generalPage s + o) = some (base + o)

/-- A block as `Allocate32MB` and `Allocate2MB` return it: aligned, of implemented addresses, and
neither a table of the tree nor a frame that is still to be handed out. -/
structure Block (m : PhysMem) (root maxPhyAddr : Nat) (allocs : Nat → Option Entry × Option Entry)
    (base : Entry) (size : Nat) : Prop where
  aligned : base.toNat % 4096 = 0
  fits : base.toNat + size ≤ 2 ^ 64
  implemented : ∀ k, k * 4096 < size → filterAddress maxPhyAddr (base + BitVec.ofNat 64 (k * 4096)) &&&
    entryAddress = base + BitVec.ofNat 64 (k * 4096)
  unused : Fresh m root windows base.toNat
  apart : ∀ i p, Given allocs i p → base.toNat ≠ p.toNat

section
variable {m m' : PhysMem} {root maxPhyAddr pages size : Nat} {allocs : Nat → Option Entry × Option Entry}
  {base : Entry}

theorem Block.frame (h : Block m root maxPhyAddr allocs base size) {k : Nat} (hk : k * 4096 < size) :
    (filterAddress maxPhyAddr (base + BitVec.ofNat 64 (k * 4096)) &&& entryAddress).toNat =
      base.toNat + k * 4096 := by
  have hfits := h.fits
  rw [h.implemented k hk, BitVec.toNat_add, BitVec.toNat_ofNat, Nat.mod_eq_of_lt (a := k * 4096) (by omega),
    Nat.mod_eq_of_lt (by omega)]

theorem general_offset {s o : Nat} (hs : s ≤ gpPages) (ho : o < 2 ^ 25) :
    Canonical (generalPage s + o) ∧ Outside windows (generalPage s + o) := by
  rw [gpPages_eq] at hs
  exact general_address (by rw [generalPage_eq]; omega) (by rw [generalPage_eq]; omega)

/-- What the call maps, and what it leaves as it was. -/
theorem Written.translation_offset {s : Nat} (hb : Block m' root maxPhyAddr allocs base size)
    {z : PhysMem} (hw : Written z m root maxPhyAddr (generalPage s / 4096) pages base) (hs : s ≤ gpPages)
    (hsize : size ≤ 2 ^ 25) {o : Nat} (ho : o < size) : translation m root (generalPage s + o) =
      if o < pages * 4096 then some (base.toNat + o) else translation z root (generalPage s + o) := by
  have hpage : (generalPage s + o) / 4096 = generalPage s / 4096 + o / 4096 := by
    rw [generalPage_eq]
    omega
  have hoff : (generalPage s + o) % 4096 = o % 4096 := by
    rw [generalPage_eq]
    omega
  split
  · rw [hw.mapped _ (by omega) (by omega), hpage, hoff, Nat.add_sub_cancel_left, hb.frame (by omega)]
    congr 1
    omega
  · exact hw.others _ (general_offset hs (by omega)).2 (.inr (by omega))

/-- The memory that `MapGeneralPages` leaves for a block. -/
theorem mapGeneralPages_inFull_iff (hm : GeneralReady m root maxPhyAddr allocs)
    (hb : Block m root maxPhyAddr allocs base size) (hpages : 0 < pages) (hfit : pages * 4096 ≤ size)
    (hsize : size ≤ 2 ^ 25) {v : Nat}
    (hrun : mapGeneralPages m root maxPhyAddr base pages bufferFlags allocs = some (some v, m')) :
    Tables m' root ∧ Fresh m' root windows base.toNat ∧ (∀ o, o < pages * 4096 →
      translation m' root (v + o) = some (base.toNat + o)) ∧ (∀ o, o < size → Outside windows (v + o)) ∧
      (InFull m' root v base.toNat size ↔ RestMapped m root pages base.toNat size) := by
  obtain ⟨r, m₁, hrun₁, hout⟩ := mapGeneralPages_spec base hm
    (show bufferFlags &&& entryAddress = 0#64 by decide) hpages
  rw [hrun] at hrun₁
  cases hrun₁
  obtain ⟨s, z, hs, rfl, hg, -, -, hw⟩ := hout
  have hle : s ≤ gpPages := by
    have := hs.fits
    omega
  rw [hb.aligned, Nat.add_zero]
  refine ⟨hw.tables, ?_, fun o ho => ?_, fun o ho => (general_offset hle (by omega)).2, ?_⟩
  · have hfresh := hg.fresh _ hb.unused fun p ⟨i, hp⟩ => hb.apart i p hp
    exact ⟨hfresh.aligned, fun a n t ha hr => hfresh.unused a n t ha ((hw.reach a n t ha).mp hr)⟩
  · rw [Written.translation_offset hb hw hle hsize (by omega), if_pos ho]
  · constructor
    · intro hfull s' hs' o h1 h2
      obtain rfl := hs.unique hs'
      rw [← hg.same _ (general_offset hle (by omega)).2, ← hfull o h2,
        Written.translation_offset hb hw hle hsize h2, if_neg (by omega)]
    · intro hrest o ho
      rw [Written.translation_offset hb hw hle hsize ho]
      split
      · rfl
      · rw [hg.same _ (general_offset hle (by omega)).2]
        exact hrest s hs o (by omega) ho

theorem createIOHeap_inFull_iff {head : Nat} (hm : GeneralReady m root maxPhyAddr allocs)
    (hb : Block m root maxPhyAddr allocs base IOHeap.defaultArenaSize)
    (hrun : createIOHeap m root maxPhyAddr 0 (some base) allocs = some (true, head, m')) :
    InFull m' root head base.toNat IOHeap.defaultArenaSize ↔
      RestMapped m root defaultHugePages base.toNat IOHeap.defaultArenaSize := by
  simp only [createIOHeap, ne_eq, not_true_eq_false, if_false, Option.bind_eq_bind,
    Option.bind_eq_some_iff] at hrun
  obtain ⟨⟨mapped, m₁⟩, hmap, hrun⟩ := hrun
  cases mapped with
  | none => cases hrun
  | some v =>
    simp only [Option.bind_eq_some_iff] at hrun
    obtain ⟨m₂, hwrite₁, m₃, hwrite₂, hrun⟩ := hrun
    cases hrun
    obtain ⟨ht, hfresh, hmapped, hout, hiff⟩ := mapGeneralPages_inFull_iff hm hb (by decide) (by decide) (by decide)
      hmap
    have h0 := hmapped 0 (by decide)
    have h8 := hmapped 8 (by decide)
    rw [Nat.add_zero, Nat.add_zero] at h0
    -- the header lies in the block, so it is in no table
    rw [writeVirtual, h0] at hwrite₁
    cases hwrite₁
    have hsame₁ : ∀ q, ¬ (base.toNat ≤ q ∧ q < base.toNat + 4096) → update m₁ base.toNat
        (BitVec.ofNat 64 ((IOHeap.defaultArenaSize - IOHeap.sizeofMetadata) * 2 ^ 32)) q = m₁ q :=
      fun q hq => if_neg (by omega)
    rw [writeVirtual, hfresh.translate ht.tree hsame₁ (hout 8 (by decide)), h8] at hwrite₂
    cases hwrite₂
    have hsame : ∀ a, Outside windows a → translation (update (update m₁ base.toNat
        (BitVec.ofNat 64 ((IOHeap.defaultArenaSize - IOHeap.sizeofMetadata) * 2 ^ 32))) (base.toNat + 8) 0#64)
        root a = translation m₁ root a := by
      intro a ha
      refine hfresh.translate ht.tree (fun q hq => ?_) ha
      rw [update, if_neg (by omega)]
      exact hsame₁ q hq
    rw [← hiff]
    constructor
    · intro hfull o ho
      rw [← hsame _ (hout o ho)]
      exact hfull o ho
    · intro hfull o ho
      rw [hsame _ (hout o ho)]
      exact hfull o ho

end

/-- Whenever `IOHeap::Create` succeeds, its arena is mapped in full iff the pages behind the
first 16 unmapped ones of the window were mapped to the rest of the block before; whenever the
transfer buffer is set up, it is mapped in full iff the pages behind the first unmapped one
were mapped to the rest of its block. -/
theorem buffers_inFull_iff (m : PhysMem) (root maxPhyAddr : Nat) (allocs : Nat → Option Entry × Option Entry)
    (region block : Entry) (hm : GeneralReady m root maxPhyAddr allocs)
    (hregion : Block m root maxPhyAddr allocs region IOHeap.defaultArenaSize)
    (hblock : Block m root maxPhyAddr allocs block getMaxDataTransferLength) :
    (∀ head m', createIOHeap m root maxPhyAddr 0 (some region) allocs = some (true, head, m') →
      (InFull m' root head region.toNat IOHeap.defaultArenaSize ↔
        RestMapped m root defaultHugePages region.toNat IOHeap.defaultArenaSize)) ∧
    ∀ buffer m', createIOBuffer m root maxPhyAddr (some block) allocs = some (some buffer, m') →
      (InFull m' root buffer block.toNat getMaxDataTransferLength ↔
        RestMapped m root 1 block.toNat getMaxDataTransferLength) := by
  refine ⟨fun head m' hrun => createIOHeap_inFull_iff hm hregion hrun, fun buffer m' hrun => ?_⟩
  have hmap := mapGeneralPages_inFull_iff hm hblock (by decide) (by decide) (by decide) hrun
  exact hmap.2.2.2.2

theorem block_generalRoot {base : Entry} {size : Nat} (hbase : base.toNat % 4096 = 0) (hlow : 0xA000 ≤ base.toNat)
    (hhigh : base.toNat + size ≤ 2 ^ 48) : Block generalRoot 0x1000 48 (fun _ => (none, none)) base size where
  aligned := hbase
  fits := by omega
  implemented k hk := by
    have hnat : (base + BitVec.ofNat 64 (k * 4096)).toNat = base.toNat + k * 4096 := by
      rw [BitVec.toNat_add, BitVec.toNat_ofNat]
      omega
    exact filterAddress_frame (by decide) (by omega) (by omega)
  unused := fresh_generalRoot hbase (.inr hlow)
  apart i p h := by rcases h with h | h <;> cases h

/-- The transfer buffer ends with its first page. -/
theorem buffer_short : ∃ buffer m', createIOBuffer generalRoot 0x1000 48 (some 0x200000#64) (fun _ => (none, none)) =
    some (some buffer, m') ∧ ¬ InFull m' 0x1000 buffer 0x200000 getMaxDataTransferLength := by
  have hrun : (createIOBuffer generalRoot 0x1000 48 (some 0x200000#64) fun _ => (none, none)).map
      (fun r => (r.1, translation r.2 0x1000 0xFFFF800130001000)) = some (some 0xFFFF800130000000, none) := by
    decide +kernel
  rw [Option.map_eq_some_iff] at hrun
  obtain ⟨⟨v, m'⟩, hrun, hv⟩ := hrun
  obtain ⟨rfl, hnone⟩ := Prod.mk.injEq .. ▸ hv
  refine ⟨_, m', hrun, fun hfull => ?_⟩
  have hpage := hfull 0x1000 (by decide)
  rw [hnone] at hpage
  cases hpage

/-- There `IOHeap::Create` succeeds. -/
theorem buffers_inFull_arena : ∃ head m', createIOHeap generalRoot 0x1000 48 0 (some 0x2000000#64) (fun _ => (none, none)) =
    some (true, head, m') ∧
      (InFull m' 0x1000 head 0x2000000 IOHeap.defaultArenaSize ↔
        RestMapped generalRoot 0x1000 defaultHugePages 0x2000000 IOHeap.defaultArenaSize) := by
  have hrun : (createIOHeap generalRoot 0x1000 48 0 (some 0x2000000#64) fun _ => (none, none)).map
      (fun r => (r.1, r.2.1)) = some (true, 0xFFFF800130000000) := by
    decide +kernel
  rw [Option.map_eq_some_iff] at hrun
  obtain ⟨⟨ok, v, m'⟩, hrun, hv⟩ := hrun
  obtain ⟨rfl, rfl⟩ := Prod.mk.injEq .. ▸ hv
  exact ⟨_, m', hrun, (buffers_inFull_iff generalRoot 0x1000 48 (fun _ => (none, none)) 0x2000000#64 0x200000#64
    generalReady_generalRoot (block_generalRoot (by decide) (by decide) (by decide))
    (block_generalRoot (by decide) (by decide) (by decide))).1 _ m' hrun⟩

end BadLands.Mm.LargeBuffers
