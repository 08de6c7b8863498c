import BadLands.Mm.GeneralMapping
import Mathlib.Tactic.IntervalCases

/-!
# Mapping a memory BAR

The size of a BAR is found by writing ones to it. The type bits stay what they are, so that what is computed is
smaller than the size by them; the number of pages is the right one nevertheless (`pages_probe`).

* `mapMemoryBAR_eq`, `unmapMemoryBAR_eq`, `mapMemoryXBAR_eq`, `unmapMemoryXBAR_eq`: the register is restored, and
  what is called. `UnmapMemoryXBAR` maps.
* `bar_roundTrip_iff`: a 32-bit BAR that is not zero comes back, a 64-bit one never does, unless nothing can be mapped.
-/
namespace BadLands.Pci

open BadLands.Core BadLands.Core.PageTable BadLands.Mm.Layout BadLands.Mm.Paging

/-! ## The device -/

/-- A memory BAR of a device, in a register of 32 or 64 bits. -/
structure Bar (W : Nat) where
  order : Nat
  prefetchable : Bool
  base : BitVec W
  order_ge : 4 ≤ order
  order_lt : order < W
  aligned : 2 ^ order ∣ base.toNat

namespace Bar

variable {W : Nat} (bar : Bar W)

def size : Nat := 2 ^ bar.order

/-- The bits that cannot be written. -/
def fixed : BitVec W := BitVec.ofNat W (2 ^ bar.order - 1)

def type : BitVec W := BitVec.ofNat W ((if W = 64 then 4 else 0) + if bar.prefetchable then 8 else 0)

/-- What the register is when something is written to it. -/
def store (v : BitVec W) : BitVec W := (v &&& ~~~bar.fixed) ||| bar.type

def value : BitVec W := bar.base ||| bar.type

/-- The pages of the range. -/
def pages : Nat := (bar.size + pageSize - 1) / pageSize

end Bar

/-! ## The code -/

def BAR_IO_FLAG : BitVec 32 := 0x00000001
def BAR_SIZE_MASK : BitVec 32 := 0x00000006
def BAR_32_FLAG : BitVec 32 := 0x00000000
def BAR_64_FLAG : BitVec 32 := 0x00000004
def BAR_MEM_ADDR_MASK : BitVec 64 := 0xFFFFFFFFFFFFFFF0

def pageCount (size : BitVec 64) : Nat := ((size + 0x1000#64 - 1#64) / 0x1000#64).toNat

/-- The outcomes of the allocations in one call of `MapGeneralPages`. -/
abbrev Allocs := Nat → Option Entry × Option Entry

/-- `none` is a page fault.

mirrors kernel/src/pci/Interface.cpp:86-103 -/
def mapMemoryBAR (bar : Bar 32) (register : BitVec 32) (m : PhysMem) (root maxPhyAddr : Nat) (flags : Entry)
    (allocs : Allocs) : Option (Option Nat × BitVec 32 × PhysMem) :=
  let bar_value := register
  if bar_value ≠ 0 ∧ bar_value &&& BAR_IO_FLAG = 0 ∧ bar_value &&& BAR_SIZE_MASK = BAR_32_FLAG then
    let register := bar.store 0xFFFFFFFF#32
    let size := ~~~register + 1#32
    let register := bar.store bar_value
    let address := bar_value.setWidth 64 &&& BAR_MEM_ADDR_MASK
    let pages := pageCount (size.setWidth 64)
    (mapGeneralPages m root maxPhyAddr address pages flags allocs).map fun (r, m) => (r, register, m)
  else some (none, register, m)

/-- mirrors kernel/src/pci/Interface.cpp:131-145 -/
def unmapMemoryBAR (bar : Bar 32) (register : BitVec 32) (m : PhysMem) (root : Nat) (ptr : Nat) :
    Option (BitVec 32 × PhysMem) :=
  let bar_value := register
  if bar_value ≠ 0 ∧ bar_value &&& BAR_IO_FLAG = 0 ∧ bar_value &&& BAR_SIZE_MASK = BAR_32_FLAG then
    let register := bar.store 0xFFFFFFFF#32
    let size := ~~~register + 1#32
    let register := bar.store bar_value
    let pages := pageCount (size.setWidth 64)
    (unmapGeneralPages m root ptr pages).map fun (_, m) => (register, m)
  else some (register, m)

def lo (register : BitVec 64) : BitVec 32 := register.setWidth 32

def hi (register : BitVec 64) : BitVec 32 := (register >>> 32).setWidth 32

/-- A write to one half of the register. -/
def storeLo (bar : Bar 64) (register : BitVec 64) (v : BitVec 32) : BitVec 64 := bar.store (hi register ++ v)

def storeHi (bar : Bar 64) (register : BitVec 64) (v : BitVec 32) : BitVec 64 := bar.store (v ++ lo register)

/-- mirrors kernel/src/pci/Interface.cpp:105-129 -/
def mapMemoryXBAR (bar : Bar 64) (register : BitVec 64) (m : PhysMem) (root maxPhyAddr : Nat) (flags : Entry)
    (allocs : Allocs) : Option (Option Nat × BitVec 64 × PhysMem) :=
  let bar_value := hi register ++ lo register
  if bar_value ≠ 0 ∧ bar_value &&& BAR_IO_FLAG.setWidth 64 = 0 ∧
      bar_value &&& BAR_SIZE_MASK.setWidth 64 = BAR_64_FLAG.setWidth 64 then
    let register := storeLo bar register 0xFFFFFFFF#32
    let register := storeHi bar register 0xFFFFFFFF#32
    let size := ~~~(hi register ++ lo register) + 1#64
    let register := storeLo bar register (lo bar_value)
    let register := storeHi bar register (hi bar_value)
    let address := bar_value &&& BAR_MEM_ADDR_MASK
    let pages := pageCount size
    (mapGeneralPages m root maxPhyAddr address pages flags allocs).map fun (r, m) => (r, register, m)
  else some (none, register, m)

/-- It calls `MapGeneralPages`, without flags.

mirrors kernel/src/pci/Interface.cpp:147-161 -/
def unmapMemoryXBAR (bar : Bar 64) (register : BitVec 64) (m : PhysMem) (root maxPhyAddr : Nat) (allocs : Allocs)
    (ptr : Nat) : Option (BitVec 64 × PhysMem) :=
  let bar_value := register
  if bar_value ≠ 0 ∧ bar_value &&& BAR_IO_FLAG.setWidth 64 = 0 ∧
      bar_value &&& BAR_SIZE_MASK.setWidth 64 = BAR_64_FLAG.setWidth 64 then
    let register := bar.store 0xFFFFFFFFFFFFFFFF#64
    let size := ~~~register + 1#64
    let register := bar.store bar_value
    let pages := pageCount size
    (mapGeneralPages m root maxPhyAddr (BitVec.ofNat 64 ptr) pages 0#64 allocs).map fun (_, m) => (register, m)
  else some (register, m)

/-! ## The property -/

/-- The translations of the window. -/
def SameWindow (m m' : PhysMem) (root : Nat) : Prop :=
  ∀ i < gpPages, ∀ o < pageSize, translation m' root (generalPage i + o) = translation m root (generalPage i + o)

/-- `MapGeneralPages` finds no room for the range, or no memory for tables. -/
def Refused {W : Nat} (bar : Bar W) (m : PhysMem) (root maxPhyAddr : Nat) (flags : Entry) (allocs : Allocs) : Prop :=
  ∃ m', mapGeneralPages m root maxPhyAddr (bar.base.setWidth 64) bar.pages flags allocs = some (none, m')

/-- The register is restored. The range is mapped and unmapping gives back register and window; or it could not be
mapped, and nothing was. -/
def RoundTrip {W : Nat} (bar : Bar W) (m : PhysMem) (root : Nat) (refused : Prop)
    (map : Option (Option Nat × BitVec W × PhysMem)) (unmap : BitVec W → PhysMem → Nat → Option (BitVec W × PhysMem)) :
    Prop :=
  ∃ r m', map = some (r, bar.value, m') ∧
    match r with
    | none => refused ∧ SameWindow m m' root
    | some v => (∀ i < bar.size, translation m' root (v + i) = some (bar.base.toNat + i)) ∧
      ∃ m'', unmap bar.value m' v = some (bar.value, m'') ∧ SameWindow m m'' root

/-! ## The register -/

section
variable {W : Nat} (bar : Bar W)

theorem and_not_of_disjoint {x y : BitVec W} (h : x &&& y = 0#W) : x &&& ~~~y = x := by
  ext i hi
  have hbit := congrArg (fun v : BitVec W => v.getLsbD i) h
  simp only [BitVec.getLsbD_and, BitVec.getLsbD_zero] at hbit
  rw [BitVec.getElem_and, BitVec.getElem_not]
  rw [BitVec.getLsbD_eq_getElem hi, BitVec.getLsbD_eq_getElem hi] at hbit
  cases hx : x[i] <;> cases hy : y[i] <;> simp_all

theorem and_not_of_subset {x y : BitVec W} (h : x &&& y = x) : x &&& ~~~y = 0#W := by
  rw [← h, BitVec.and_assoc, BitVec.and_not_self]
  exact BitVec.and_zero

theorem fixed_toNat : bar.fixed.toNat = 2 ^ bar.order - 1 := by
  have hlt := Nat.pow_lt_pow_right (show 1 < 2 by decide) bar.order_lt
  have hpos := Nat.two_pow_pos bar.order
  unfold Bar.fixed
  rw [BitVec.toNat_ofNat, Nat.mod_eq_of_lt (by omega)]

theorem base_fixed : bar.base &&& bar.fixed = 0#W := by
  refine BitVec.eq_of_toNat_eq ?_
  rw [BitVec.toNat_and, fixed_toNat, Nat.and_two_pow_sub_one_eq_mod, Nat.mod_eq_zero_of_dvd bar.aligned, BitVec.toNat_zero]

theorem size_ge : 16 ≤ 2 ^ bar.order := Nat.pow_le_pow_right (show 0 < 2 by decide) bar.order_ge

theorem type_toNat : bar.type.toNat = (if W = 64 then 4 else 0) + if bar.prefetchable then 8 else 0 := by
  have hge := size_ge bar
  have hlt := Nat.pow_lt_pow_right (show 1 < 2 by decide) bar.order_lt
  unfold Bar.type
  rw [BitVec.toNat_ofNat, Nat.mod_eq_of_lt]
  split <;> split <;> omega

theorem type_le : bar.type.toNat ≤ 12 := by
  rw [type_toNat]
  split <;> split <;> decide

theorem type_fixed : bar.type &&& bar.fixed = bar.type := by
  have hge := size_ge bar
  have hle := type_le bar
  refine BitVec.eq_of_toNat_eq ?_
  rw [BitVec.toNat_and, fixed_toNat, Nat.and_two_pow_sub_one_eq_mod, Nat.mod_eq_of_lt (by omega)]

theorem store_value : bar.store bar.value = bar.value := by
  unfold Bar.store Bar.value
  rw [BitVec.and_or_distrib_right, and_not_of_disjoint (base_fixed bar), and_not_of_subset (type_fixed bar), BitVec.or_zero]

/-- What the probe gives: the size less the type bits. -/
theorem probe_toNat : (~~~(bar.store (BitVec.allOnes W)) + 1#W).toNat = bar.size - bar.type.toNat := by
  have hlt := Nat.pow_lt_pow_right (show 1 < 2 by decide) bar.order_lt
  have hge := size_ge bar
  have hle := type_le bar
  have hdisjoint : ~~~bar.fixed &&& bar.type = 0#W := by
    rw [BitVec.and_comm]
    exact and_not_of_subset (type_fixed bar)
  unfold Bar.store Bar.size
  rw [BitVec.allOnes_and, ← BitVec.add_eq_or_of_and_eq_zero _ _ hdisjoint, ← BitVec.neg_eq_not_add, BitVec.toNat_neg,
    BitVec.toNat_add, BitVec.toNat_not, fixed_toNat]
  generalize 2 ^ bar.order = size at *
  generalize 2 ^ W = all at *
  rw [Nat.mod_eq_of_lt (show all - 1 - (size - 1) + bar.type.toNat < all by omega), Nat.mod_eq_of_lt (by omega)]
  omega

/-- The low bits are those of the type. -/
theorem value_and {c : BitVec W} (hc : c.toNat < 16) : bar.value &&& c = bar.type &&& c := by
  have hge := size_ge bar
  have hsubset : bar.fixed &&& c = c := by
    refine BitVec.eq_of_toNat_eq ?_
    rw [BitVec.and_comm, BitVec.toNat_and, fixed_toNat, Nat.and_two_pow_sub_one_eq_mod, Nat.mod_eq_of_lt (by omega)]
  have hbase : bar.base &&& c = 0#W := by
    rw [← hsubset, ← BitVec.and_assoc, base_fixed]
    exact BitVec.zero_and
  unfold Bar.value
  rw [BitVec.and_or_distrib_right, hbase, BitVec.zero_or]

theorem value_address (hW : W ≤ 64) : bar.value.setWidth 64 &&& BAR_MEM_ADDR_MASK = bar.base.setWidth 64 := by
  have hge := size_ge bar
  have hle := type_le bar
  have hdvd : 16 ∣ bar.base.toNat := Nat.dvd_trans (Nat.pow_dvd_pow 2 bar.order_ge) bar.aligned
  have hbase : bar.base.setWidth 64 &&& 15#64 = 0#64 := by
    refine BitVec.eq_of_toNat_eq ?_
    rw [BitVec.toNat_and, BitVec.toNat_setWidth_of_le hW, show (15#64).toNat = 2 ^ 4 - 1 by decide,
      Nat.and_two_pow_sub_one_eq_mod, Nat.mod_eq_zero_of_dvd hdvd, BitVec.toNat_zero]
  have htype : bar.type.setWidth 64 &&& 15#64 = bar.type.setWidth 64 := by
    refine BitVec.eq_of_toNat_eq ?_
    rw [BitVec.toNat_and, BitVec.toNat_setWidth_of_le hW, show (15#64).toNat = 2 ^ 4 - 1 by decide,
      Nat.and_two_pow_sub_one_eq_mod, Nat.mod_eq_of_lt (by omega)]
  unfold Bar.value
  rw [BitVec.setWidth_or, BitVec.and_or_distrib_right, show BAR_MEM_ADDR_MASK = ~~~15#64 by decide,
    and_not_of_disjoint hbase, and_not_of_subset htype, BitVec.or_zero]

/-- The type bits do not change the number of pages. -/
theorem pages_probe {size : BitVec 64} (h : size.toNat = bar.size - bar.type.toNat) (hW : W ≤ 64) :
    pageCount size = bar.pages := by
  have hge := size_ge bar
  have hle := type_le bar
  have hlt : 2 ^ bar.order ≤ 2 ^ 63 := Nat.pow_le_pow_right (by decide) (by have := bar.order_lt; omega)
  have hsplit : 2 ^ bar.order ≤ 2048 ∨ 4096 ∣ 2 ^ bar.order := by
    rcases Nat.lt_or_ge bar.order 12 with hsmall | hlarge
    · exact .inl (Nat.pow_le_pow_right (show 0 < 2 by decide) (Nat.le_of_lt_succ hsmall))
    · exact .inr (Nat.pow_dvd_pow 2 hlarge)
  unfold pageCount Bar.pages pageSize
  unfold Bar.size at h ⊢
  generalize 2 ^ bar.order = s at *
  rw [BitVec.toNat_udiv, BitVec.toNat_sub, BitVec.toNat_add, h, show (0x1000#64).toNat = 4096 by decide,
    show (1#64).toNat = 1 by decide]
  rcases hsplit with hsmall | ⟨q, rfl⟩ <;> omega

end

/-! ## The calls -/

section
variable {m : PhysMem} {root maxPhyAddr : Nat} {flags : Entry} {allocs : Allocs}

theorem guard (bar : Bar 32) : bar.value &&& BAR_IO_FLAG = 0 ∧ bar.value &&& BAR_SIZE_MASK = BAR_32_FLAG := by
  have htype : bar.type = 0#32 ∨ bar.type = 8#32 := by
    unfold Bar.type
    cases bar.prefetchable
    · exact .inl (by decide)
    · exact .inr (by decide)
  rw [value_and bar (by decide), value_and bar (by decide)]
  rcases htype with h | h <;> rw [h] <;> decide

theorem guardX (bar : Bar 64) : bar.value ≠ 0 ∧ bar.value &&& BAR_IO_FLAG.setWidth 64 = 0 ∧
    bar.value &&& BAR_SIZE_MASK.setWidth 64 = BAR_64_FLAG.setWidth 64 := by
  have htype : bar.type = 4#64 ∨ bar.type = 12#64 := by
    unfold Bar.type
    cases bar.prefetchable
    · exact .inl (by decide)
    · exact .inr (by decide)
  have hmask : bar.value &&& BAR_SIZE_MASK.setWidth 64 = BAR_64_FLAG.setWidth 64 := by
    rw [value_and bar (by decide)]
    rcases htype with h | h <;> rw [h] <;> decide
  refine ⟨fun h0 => ?_, ?_, hmask⟩
  · rw [h0] at hmask
    revert hmask
    decide
  · rw [value_and bar (by decide)]
    rcases htype with h | h <;> rw [h] <;> decide

/-- The number of pages that both calls compute from what is read behind the probe. -/
theorem probe_pages (bar : Bar 32) : pageCount ((~~~(bar.store 0xFFFFFFFF#32) + 1#32).setWidth 64) = bar.pages := by
  refine pages_probe bar ?_ (by decide)
  rw [BitVec.toNat_setWidth_of_le (by decide)]
  exact probe_toNat bar

theorem mapMemoryBAR_eq (bar : Bar 32) (h : bar.value ≠ 0) : mapMemoryBAR bar bar.value m root maxPhyAddr flags allocs =
    (mapGeneralPages m root maxPhyAddr (bar.base.setWidth 64) bar.pages flags allocs).map
      fun (r, m) => (r, bar.value, m) := by
  unfold mapMemoryBAR
  rw [if_pos ⟨h, guard bar⟩]
  dsimp only
  rw [probe_pages, value_address bar (by decide), store_value]

theorem unmapMemoryBAR_eq (bar : Bar 32) (h : bar.value ≠ 0) (ptr : Nat) : unmapMemoryBAR bar bar.value m root ptr =
    (unmapGeneralPages m root ptr bar.pages).map fun (_, m) => (bar.value, m) := by
  unfold unmapMemoryBAR
  rw [if_pos ⟨h, guard bar⟩]
  dsimp only
  rw [probe_pages, store_value]

theorem hi_append_lo (register : BitVec 64) : hi register ++ lo register = register := by
  ext i hi'
  simp only [hi, lo, BitVec.getElem_append, BitVec.getElem_setWidth, BitVec.getLsbD_ushiftRight]
  split
  · rw [BitVec.getLsbD_eq_getElem]
  · rw [show 32 + (i - 32) = i by omega, BitVec.getLsbD_eq_getElem]

/-- What was stored is stored again in the low half. -/
theorem store_again (bar : Bar 64) (v w : BitVec 64) : bar.store (hi v ++ lo (bar.store w)) = bar.store (hi v ++ lo w) := by
  have htype := and_not_of_subset (type_fixed bar)
  unfold Bar.store
  congr 1
  ext i hi'
  have hbit := congrArg (fun u : BitVec 64 => u.getLsbD i) htype
  simp only [BitVec.getLsbD_and, BitVec.getLsbD_not, BitVec.getLsbD_zero, hi', decide_true, Bool.true_and] at hbit
  simp only [hi, lo, BitVec.getElem_and, BitVec.getElem_not, BitVec.getElem_append, BitVec.getElem_setWidth,
    BitVec.getLsbD_or, BitVec.getLsbD_and, BitVec.getLsbD_not, hi', decide_true, Bool.true_and]
  split
  · rw [← BitVec.getLsbD_eq_getElem hi']
    cases ht : bar.type.getLsbD i <;> cases hf : bar.fixed.getLsbD i <;> simp_all
  · rfl

/-- The two halves are written one after the other. -/
theorem store_halves (bar : Bar 64) (register v : BitVec 64) :
    storeHi bar (storeLo bar register (lo v)) (hi v) = bar.store v := by
  have hlo : lo (hi register ++ lo v) = lo v := by
    ext i hi'
    unfold lo
    rw [BitVec.getElem_setWidth, BitVec.getElem_setWidth]
    refine (BitVec.getLsbD_append).trans ?_
    rw [if_pos hi', BitVec.getLsbD_setWidth, decide_eq_true hi', Bool.true_and]
  unfold storeHi storeLo
  rw [store_again, hlo, hi_append_lo]

theorem pages_probeX (bar : Bar 64) : pageCount (~~~(bar.store 0xFFFFFFFFFFFFFFFF#64) + 1#64) = bar.pages :=
  pages_probe bar (probe_toNat bar) (Nat.le_refl 64)

theorem mapMemoryXBAR_eq (bar : Bar 64) : mapMemoryXBAR bar bar.value m root maxPhyAddr flags allocs =
    (mapGeneralPages m root maxPhyAddr (bar.base.setWidth 64) bar.pages flags allocs).map
      fun (r, m) => (r, bar.value, m) := by
  have hones : storeHi bar (storeLo bar bar.value 0xFFFFFFFF#32) 0xFFFFFFFF#32 = bar.store 0xFFFFFFFFFFFFFFFF#64 :=
    store_halves bar bar.value 0xFFFFFFFFFFFFFFFF#64
  have haddress := value_address bar (Nat.le_refl 64)
  rw [BitVec.setWidth_eq] at haddress
  unfold mapMemoryXBAR
  simp only [hi_append_lo]
  rw [if_pos (guardX bar), hones, pages_probeX, store_halves, store_value, haddress]

theorem unmapMemoryXBAR_eq (bar : Bar 64) (ptr : Nat) : unmapMemoryXBAR bar bar.value m root maxPhyAddr allocs ptr =
    (mapGeneralPages m root maxPhyAddr (BitVec.ofNat 64 ptr) bar.pages 0#64 allocs).map fun (_, m) => (bar.value, m) := by
  unfold unmapMemoryXBAR
  rw [if_pos (guardX bar)]
  dsimp only
  rw [pages_probeX, store_value]

/-! ## The round trip -/

theorem sameWindow_of_outside {m' : PhysMem} (h : ∀ a, Outside windows a → translation m' root a = translation m root a) :
    SameWindow m m' root := by
  intro i hi o ho
  have hgp := gpPages_eq
  have hi_eq := generalPage_eq i
  unfold pageSize at ho
  exact h _ (general_address (by omega) (by omega)).2

/-- Every byte of the range is in one of its pages. -/
theorem byte_inside {W : Nat} (bar : Bar W) {i : Nat} (hi : i < bar.size) :
    (bar.base.toNat % 4096 + i) / 4096 < bar.pages ∧ (bar.base.toNat % 4096 + i) / 4096 * 4096 ≤ i := by
  obtain ⟨b, hb⟩ := bar.aligned
  have hge := bar.order_ge
  unfold Bar.pages pageSize
  unfold Bar.size at hi ⊢
  rw [hb]
  generalize bar.order = order at *
  rcases Nat.lt_or_ge order 12 with hsmall | hlarge
  · interval_cases order <;> omega
  · obtain ⟨q, hq⟩ : 4096 ∣ 2 ^ order := Nat.pow_dvd_pow 2 hlarge
    rw [hq] at hi ⊢
    rw [Nat.mul_assoc, Nat.mul_mod_right]
    omega

/-- A range below the end of the physical addresses. -/
theorem bytes_mapped {W s : Nat} {m' : PhysMem} (bar : Bar W) (hfits : bar.base.toNat + bar.size ≤ 2 ^ maxPhyAddr)
    (hmapped : ∀ k o, k < bar.pages → o < 4096 → translation m' root (generalPage s + k * 4096 + o) =
      some ((bar.base.toNat + k * 4096) % 2 ^ maxPhyAddr / 4096 * 4096 + o)) :
    ∀ i < bar.size, translation m' root (generalPage s + bar.base.toNat % 4096 + i) = some (bar.base.toNat + i) := by
  intro i hi
  obtain ⟨hpage, hle⟩ := byte_inside bar hi
  have hbyte := hmapped _ ((bar.base.toNat % 4096 + i) % 4096) hpage (Nat.mod_lt _ (by decide))
  rw [Nat.mod_eq_of_lt (show bar.base.toNat + (bar.base.toNat % 4096 + i) / 4096 * 4096 < 2 ^ maxPhyAddr by omega)] at hbyte
  rw [show generalPage s + bar.base.toNat % 4096 + i = generalPage s + (bar.base.toNat % 4096 + i) / 4096 * 4096 +
    (bar.base.toNat % 4096 + i) % 4096 by omega, hbyte]
  congr 1
  omega

theorem pages_pos {W : Nat} (bar : Bar W) : 0 < bar.pages := by
  have hge := size_ge bar
  unfold Bar.pages Bar.size pageSize
  omega

/-- A 32-bit BAR that is not zero. -/
theorem roundTrip_bar (bar : Bar 32) (h : bar.value ≠ 0) (hm : GeneralReady m root maxPhyAddr allocs)
    (hmin : 32 ≤ maxPhyAddr) (hmax : maxPhyAddr ≤ 52) (hflags : flags &&& entryAddress = 0#64) :
    RoundTrip bar m root (Refused bar m root maxPhyAddr flags allocs)
      (mapMemoryBAR bar bar.value m root maxPhyAddr flags allocs) fun register m' v => unmapMemoryBAR bar register m' root v := by
  obtain ⟨r, m', hrun, hout⟩ := mapGeneralPages_restored m root maxPhyAddr bar.pages (bar.base.setWidth 64) flags allocs hm
    hmax hflags (pages_pos bar)
  refine ⟨r, m', by rw [mapMemoryBAR_eq bar h, hrun, Option.map_some], ?_⟩
  cases r with
  | none => exact ⟨⟨m', hrun⟩, sameWindow_of_outside hout⟩
  | some v =>
    obtain ⟨s, -, rfl, hmapped, -, m'', hunmap, hback⟩ := hout
    have hbase : (bar.base.setWidth 64).toNat = bar.base.toNat := BitVec.toNat_setWidth_of_le (by decide)
    have hfits : bar.base.toNat + bar.size ≤ 2 ^ maxPhyAddr := by
      obtain ⟨b, hb⟩ := bar.aligned
      obtain ⟨c, hc⟩ : 2 ^ bar.order ∣ 2 ^ 32 := Nat.pow_dvd_pow 2 (Nat.le_of_lt bar.order_lt)
      have hlt := bar.base.isLt
      rw [hb, hc] at hlt
      have hnext : 2 ^ bar.order * (b + 1) ≤ 2 ^ bar.order * c :=
        Nat.mul_le_mul_left _ (Nat.lt_of_mul_lt_mul_left hlt)
      unfold Bar.size
      rw [hb, ← Nat.mul_succ]
      exact Nat.le_trans (hc ▸ hnext) (Nat.pow_le_pow_right (by decide) hmin)
    rw [hbase] at hmapped hunmap
    refine ⟨?_, m'', ?_, sameWindow_of_outside hback⟩
    · rw [hbase]
      exact bytes_mapped bar hfits hmapped
    · dsimp only
      rw [unmapMemoryBAR_eq bar h, hbase, hunmap, Option.map_some]

/-- What is mapped stays mapped when something else is mapped. -/
theorem still_mapped {m' m'' : PhysMem} {r : Option Nat} {address : Entry} {pages s x : Nat} (hs : s < gpPages)
    (hmapped : translation m' root (generalPage s) = some x)
    (hout : RunMapped m' root maxPhyAddr address pages m'' r) : translation m'' root (generalPage s) = some x := by
  cases r with
  | none => rw [hout _ (generalPage_outside hs), hmapped]
  | some v =>
    obtain ⟨s', hrun, -, -, hothers, -⟩ := hout
    rw [hothers _ (generalPage_outside hs), hmapped]
    have hs_eq := generalPage_eq s
    have hs'_eq := generalPage_eq s'
    by_contra hin
    have hfree := hrun.unmapped (s - s') (by omega)
    unfold Unmapped at hfree
    rw [show s' + (s - s') = s by omega, hmapped] at hfree
    cases hfree

/-- A 64-bit BAR. -/
theorem roundTrip_xbar_iff (bar : Bar 64) {again : Allocs} (hm : GeneralReady m root maxPhyAddr allocs)
    (hagain : GeneralReady m root maxPhyAddr again) (hothers : ∀ i j p, Given allocs i p → ¬ Given again j p)
    (hmax : maxPhyAddr ≤ 52) (hflags : flags &&& entryAddress = 0#64) :
    RoundTrip bar m root (Refused bar m root maxPhyAddr flags allocs)
      (mapMemoryXBAR bar bar.value m root maxPhyAddr flags allocs)
      (fun register m' v => unmapMemoryXBAR bar register m' root maxPhyAddr again v) ↔
        Refused bar m root maxPhyAddr flags allocs := by
  obtain ⟨r, m', hrun, houtcome⟩ := mapGeneralPages_spec (bar.base.setWidth 64) hm hflags (pages_pos bar)
  have hout := houtcome.runMapped hmax
  unfold RoundTrip
  rw [mapMemoryXBAR_eq bar, hrun, Option.map_some]
  constructor
  · rintro ⟨r', n, hmap, htrip⟩
    cases hmap
    cases r with
    | none => exact htrip.1
    | some v =>
      obtain ⟨s, hs, -, hmapped, -, -⟩ := hout
      obtain ⟨-, m'', hunmap, hsame⟩ := htrip
      obtain ⟨r', m₂, hrun', hout'⟩ := mapGeneralPages_restored m' root maxPhyAddr bar.pages (BitVec.ofNat 64 v) 0#64 again
        (houtcome.ready hm hagain hothers) hmax (by decide) (pages_pos bar)
      dsimp only at hunmap
      rw [unmapMemoryXBAR_eq bar, hrun', Option.map_some] at hunmap
      cases hunmap
      have hpages := pages_pos bar
      have hs_lt : s < gpPages := Nat.lt_of_lt_of_le (by omega) hs.fits
      have hfirst := hmapped 0 0 hpages (by decide)
      rw [Nat.zero_mul, Nat.add_zero, Nat.add_zero] at hfirst
      have hstill := still_mapped hs_lt hfirst hout'
      have hgone := hsame s hs_lt 0 (by decide)
      have hfree := hs.unmapped 0 hpages
      unfold Unmapped at hfree
      rw [Nat.add_zero] at hgone hfree
      rw [hstill, hfree] at hgone
      cases hgone
  · rintro ⟨n, hnone⟩
    rw [hrun] at hnone
    cases hnone
    exact ⟨none, m', rfl, ⟨m', hrun⟩, sameWindow_of_outside hout⟩

/-- A register of zero is taken for no BAR. -/
theorem roundTrip_zero_iff (bar : Bar 32) (h : bar.value = 0) :
    RoundTrip bar m root (Refused bar m root maxPhyAddr flags allocs)
      (mapMemoryBAR bar bar.value m root maxPhyAddr flags allocs)
      (fun register m' v => unmapMemoryBAR bar register m' root v) ↔ Refused bar m root maxPhyAddr flags allocs := by
  have hmap : mapMemoryBAR bar bar.value m root maxPhyAddr flags allocs = some (none, bar.value, m) := by
    unfold mapMemoryBAR
    exact if_neg fun hguard => hguard.1 h
  unfold RoundTrip
  rw [hmap]
  constructor
  · rintro ⟨r, m', hrun, htrip⟩
    cases hrun
    exact htrip.1
  · intro hrefused
    exact ⟨none, m, rfl, hrefused, fun _ _ _ _ => rfl⟩

end

/-- For every state of the window, of the memory for tables and of the flags, and for every BAR: one of 32 bits comes
back when its register is not zero, or when nothing can be mapped; one of 64 bits only then. -/
theorem bar_roundTrip_iff (m : PhysMem) (root maxPhyAddr : Nat) (flags : Entry) (allocs again : Allocs)
    (hm : GeneralReady m root maxPhyAddr allocs) (hagain : GeneralReady m root maxPhyAddr again)
    (hothers : ∀ i j p, Given allocs i p → ¬ Given again j p) (hmin : 32 ≤ maxPhyAddr) (hmax : maxPhyAddr ≤ 52)
    (hflags : flags &&& entryAddress = 0#64) :
    (∀ bar : Bar 32, RoundTrip bar m root (Refused bar m root maxPhyAddr flags allocs)
        (mapMemoryBAR bar bar.value m root maxPhyAddr flags allocs)
        (fun register m' v => unmapMemoryBAR bar register m' root v) ↔
          bar.value ≠ 0 ∨ Refused bar m root maxPhyAddr flags allocs) ∧
      ∀ bar : Bar 64, RoundTrip bar m root (Refused bar m root maxPhyAddr flags allocs)
        (mapMemoryXBAR bar bar.value m root maxPhyAddr flags allocs)
        (fun register m' v => unmapMemoryXBAR bar register m' root maxPhyAddr again v) ↔
          Refused bar m root maxPhyAddr flags allocs := by
  refine ⟨fun bar => ?_, fun bar => roundTrip_xbar_iff bar hm hagain hothers hmax hflags⟩
  by_cases h : bar.value = 0
  · rw [roundTrip_zero_iff bar h]
    exact ⟨.inr, fun hor => hor.resolve_left fun hne => hne h⟩
  · exact ⟨fun _ => .inl h, fun _ => roundTrip_bar bar h hm hmin hmax hflags⟩

/-- A range of one page at 0xFEBF0000, in a register of either width. -/
def page32 : Bar 32 := ⟨12, false, 0xFEBF0000#32, by decide, by decide, by decide⟩

def page64 : Bar 64 := ⟨12, false, 0xFEBF0000#64, by decide, by decide, by decide⟩

theorem roundTrip_page : RoundTrip page32 generalRoot 0x1000
    (Refused page32 generalRoot 0x1000 48 entryReadWrite fun _ => (none, none))
    (mapMemoryBAR page32 page32.value generalRoot 0x1000 48 entryReadWrite fun _ => (none, none))
    (fun register m' v => unmapMemoryBAR page32 register m' 0x1000 v) :=
  ((bar_roundTrip_iff generalRoot 0x1000 48 entryReadWrite (fun _ => (none, none)) (fun _ => (none, none))
    generalReady_generalRoot generalReady_generalRoot (fun _ _ _ h => by rcases h with h | h <;> cases h)
    (by decide) (by decide) (by decide)).1 page32).mpr (.inl (by decide))

/-- The page of a 64-bit BAR is still mapped after `UnmapMemoryXBAR`. -/
theorem roundTrip_leaks : ¬ RoundTrip page64 generalRoot 0x1000
    (Refused page64 generalRoot 0x1000 48 entryReadWrite fun _ => (none, none))
    (mapMemoryXBAR page64 page64.value generalRoot 0x1000 48 entryReadWrite fun _ => (none, none))
    (fun register m' v => unmapMemoryXBAR page64 register m' 0x1000 48 (fun _ => (none, none)) v) := by
  rw [roundTrip_xbar_iff page64 generalReady_generalRoot generalReady_generalRoot
    (fun _ _ _ h => by rcases h with h | h <;> cases h) (by decide) (by decide)]
  rintro ⟨m', hrefused⟩
  have hmapped : ((mapGeneralPages generalRoot 0x1000 48 (page64.base.setWidth 64) page64.pages entryReadWrite
      fun _ => (none, none)).map Prod.fst) = some (some 0xFFFF800130000000) := by decide +kernel
  rw [hrefused] at hmapped
  cases hmapped

end BadLands.Pci
