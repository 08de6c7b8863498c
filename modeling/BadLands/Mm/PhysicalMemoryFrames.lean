import BadLands.Loader.MemoryMap

/-!
# The frames that `Setup` takes

`Setup` maps its bitmaps page by page while it goes through the memory map: frames for the bitmaps from the front of
a descriptor, frames for page tables from its back. `Advance k m m'` says what any number of turns of that loop does: `k`
pages more are mapped, to consecutive frames from the front, and new page tables come from the frames that are left off
at the back. It composes (`Advance.trans`), so the loop over one descriptor is one `Advance` (`mapBitmaps_advance`).

`setup_frees_unconsumed`: the pages that a successful `Setup` leaves free are usable, outside the DMA zone, and none of
the frames it has taken.
-/
namespace BadLands.Mm.PhysicalMemory

open BadLands.Core BadLands.Mm.Layout BadLands.Loader

/-- mirrors kernel/src/mm/PhysicalMemory.cpp:38-40 -/
def filterAddress (maxphyaddr : Nat) (address : Nat) : Nat := address % 2 ^ maxphyaddr / frameSize * frameSize

/-- The frame behind virtual page `v`. -/
def PageTables.frame (t : PageTables) (v : Nat) : Option Nat :=
  if (t.pml4e (v / 0x8000000)).isSome ∧ (t.pdpte (v / 0x40000)).isSome then
    match t.pde (v / 0x200) with
    | none => none
    | some f => if t.pageSize (v / 0x200) then some (f + v % 0x200 * frameSize) else t.pte v
  else none

/-- The frame at `f` is a page table. -/
def PageTables.Table (t : PageTables) (f : Nat) : Prop :=
  (∃ i, t.pml4e i = some f) ∨ (∃ i, t.pdpte i = some f) ∨ ∃ i, t.pde i = some f ∧ t.pageSize i = false

/-- `k` more pages are mapped, to the frames from `m.physAddr` on; tables come from the back. -/
structure Advance (k : Nat) (m m' : Mapping) : Prop where
  phys : m'.physAddr = m.physAddr + k * frameSize
  virt : m'.bitmapVirtAddr = m.bitmapVirtAddr + k * frameSize
  bytes : m'.bytesMapped = m.bytesMapped + k * frameSize
  pages : k + m'.numPages ≤ m.numPages
  frame : ∀ v, m'.tables.frame v = if m.bitmapVirtAddr / frameSize ≤ v ∧ v < m.bitmapVirtAddr / frameSize + k
    then some (m.physAddr + (v - m.bitmapVirtAddr / frameSize) * frameSize) else m.tables.frame v
  table : ∀ f, m'.tables.Table f → m.tables.Table f ∨ ∃ p, f = p * frameSize ∧
    m.physAddr / frameSize + k + m'.numPages ≤ p ∧ p < m.physAddr / frameSize + m.numPages

section
variable {m m' m'' : Mapping} {k k' : Nat}

theorem Advance.refl (m : Mapping) : Advance 0 m m where
  phys := by omega
  virt := by omega
  bytes := by omega
  pages := by omega
  frame v := by rw [if_neg (by omega)]
  table _ h := .inl h

theorem Advance.trans (h : Advance k m m') (h' : Advance k' m' m'') : Advance (k + k') m m'' where
  phys := by rw [h'.phys, h.phys, Nat.add_mul, Nat.add_assoc]
  virt := by rw [h'.virt, h.virt, Nat.add_mul, Nat.add_assoc]
  bytes := by rw [h'.bytes, h.bytes, Nat.add_mul, Nat.add_assoc]
  pages := by
    have := h.pages
    have := h'.pages
    omega
  frame v := by
    have hvirt : m'.bitmapVirtAddr / frameSize = m.bitmapVirtAddr / frameSize + k := by
      rw [h.virt, Nat.add_mul_div_right _ _ (by decide)]
    rw [h'.frame, h.frame, hvirt, h.phys]
    generalize m.bitmapVirtAddr / frameSize = V
    by_cases hnew : V + k ≤ v ∧ v < V + k + k'
    · rw [if_pos hnew, if_pos (by omega)]
      have hsplit : v - V = k + (v - (V + k)) := by omega
      rw [hsplit, Nat.add_mul, Nat.add_assoc]
    · rw [if_neg hnew]
      by_cases hold : V ≤ v ∧ v < V + k
      · rw [if_pos hold, if_pos (by omega)]
      · rw [if_neg hold, if_neg (by omega)]
  table f hf := by
    have hphys : m'.physAddr / frameSize = m.physAddr / frameSize + k := by
      rw [h.phys, Nat.add_mul_div_right _ _ (by decide)]
    have hpages := h.pages
    have hpages' := h'.pages
    rcases h'.table f hf with hf | ⟨p, rfl, hlow, hhigh⟩
    · rcases h.table f hf with hf | ⟨p, rfl, hlow, hhigh⟩
      · exact .inl hf
      · exact .inr ⟨p, rfl, by omega, hhigh⟩
    · rw [hphys] at hlow hhigh
      exact .inr ⟨p, rfl, by omega, by omega⟩

end

/-! ## New page tables -/

section
variable {filter : Nat → Nat} {m : Mapping}

/-- The frames of the descriptor that are left are addresses the processor has. -/
def Filtered (filter : Nat → Nat) (m : Mapping) : Prop :=
  ∀ p, m.physAddr / frameSize ≤ p → p < m.physAddr / frameSize + m.numPages → filter (p * frameSize) = p * frameSize

/-- In a turn, `pt_phys_base` is the last frame that is left. -/
structure Ready (filter : Nat → Nat) (m : Mapping) : Prop where
  pages : 0 < m.numPages
  base : m.ptPhysBase = (m.physAddr / frameSize + (m.numPages - 1)) * frameSize
  filtered : Filtered filter m

theorem Ready.filter_base (h : Ready filter m) : filter m.ptPhysBase = m.ptPhysBase := by
  have := h.pages
  rw [h.base]
  exact h.filtered _ (by omega) (by omega)

/-- A step that takes the last frame for a table, and maps nothing. -/
theorem Ready.take (h : Ready filter m) {t : PageTables} (hframe : t.frame = m.tables.frame)
    (htable : ∀ f, t.Table f → m.tables.Table f ∨ f = m.ptPhysBase) :
    let m' := { m with tables := t, ptPhysBase := m.ptPhysBase - frameSize, numPages := m.numPages - 1 }
    Advance 0 m m' ∧ (m'.numPages ≠ 0 → Ready filter m') := by
  have hpos := h.pages
  have hbase := h.base
  intro m'
  refine ⟨⟨rfl, rfl, rfl, by simp [m'], fun v => ?_, fun f hf => ?_⟩, fun hne => ⟨Nat.pos_of_ne_zero hne, ?_, fun p h1 h2 => ?_⟩⟩
  · rw [if_neg (by omega)]
    exact congrFun hframe v
  · rcases htable f hf with hf | rfl
    · exact .inl hf
    · exact .inr ⟨_, hbase, by simp only [m']; omega, by omega⟩
  · have hne' : m.numPages - 1 ≠ 0 := hne
    change m.ptPhysBase - frameSize = (m.physAddr / frameSize + (m.numPages - 1 - 1)) * frameSize
    rw [hbase, show m.physAddr / frameSize + (m.numPages - 1) = m.physAddr / frameSize + (m.numPages - 1 - 1) + 1 by omega,
      Nat.add_mul, Nat.one_mul, Nat.add_sub_cancel]
  · have h2' : p < m.physAddr / frameSize + (m.numPages - 1) := h2
    exact h.filtered p h1 (by omega)

/-- What making sure of one entry does. -/
structure Ensured (filter : Nat → Nat) (m : Mapping) (r : Bool × Mapping) : Prop where
  advance : Advance 0 m r.2
  kept : r.1 = false → r.2 = m
  taken : r.1 = true → r.2.numPages = m.numPages - 1
  ready : r.2.numPages ≠ 0 → Ready filter r.2

theorem Ensured.same (h : Ready filter m) : Ensured filter m (false, m) where
  advance := Advance.refl m
  kept _ := rfl
  taken h := by cases h
  ready _ := h

theorem virt_div (a : Nat) : a / pml4eCoverage = a / frameSize / 0x8000000 ∧ a / pdpteCoverage = a / frameSize / 0x40000 ∧
    a / pdeCoverage = a / frameSize / 0x200 ∧ a / pteCoverage = a / frameSize := by
  unfold pml4eCoverage pdpteCoverage pdeCoverage pteCoverage frameSize
  refine ⟨?_, ?_, ?_, rfl⟩ <;> rw [Nat.div_div_eq_div_mul]

theorem ensurePML4E_spec (h : Ready filter m) : Ensured filter m (ensurePML4E filter m) ∧
    ((ensurePML4E filter m).2.tables.pml4e (m.bitmapVirtAddr / frameSize / 0x8000000)).isSome := by
  unfold ensurePML4E
  dsimp only
  rw [(virt_div m.bitmapVirtAddr).1]
  generalize m.bitmapVirtAddr / frameSize / 0x8000000 = i
  by_cases hi : (m.tables.pml4e i).isSome
  · rw [if_pos hi]
    exact ⟨.same h, hi⟩
  · rw [if_neg hi]
    have htake := h.take (t := { m.tables with
      pml4e := setEntry m.tables.pml4e i (filter m.ptPhysBase), pdpte := zeroTable m.tables.pdpte i }) ?_ ?_
    · exact ⟨⟨htake.1, fun hf => (by cases hf), fun _ => rfl, htake.2⟩, by simp [setEntry]⟩
    · funext v
      have hdiv : v / 0x40000 / 512 = v / 0x8000000 := Nat.div_div_eq_div_mul v (0x40000) 512
      unfold PageTables.frame setEntry zeroTable
      dsimp only
      simp only [hdiv]
      by_cases hv : v / 0x8000000 = i
      · simp [hv, hi]
      · simp [hv]
    · intro f hf
      rw [h.filter_base] at hf
      rcases hf with ⟨j, hj⟩ | ⟨j, hj⟩ | hj
      · dsimp only [setEntry] at hj
        split at hj
        · exact .inr (Option.some.inj hj).symm
        · exact .inl (.inl ⟨j, hj⟩)
      · dsimp only [zeroTable] at hj
        split at hj
        · cases hj
        · exact .inl (.inr (.inl ⟨j, hj⟩))
      · exact .inl (.inr (.inr hj))

theorem ensurePDPTE_spec (h : Ready filter m) : Ensured filter m (ensurePDPTE filter m) ∧
    ((ensurePDPTE filter m).2.tables.pdpte (m.bitmapVirtAddr / frameSize / 0x40000)).isSome ∧
    (ensurePDPTE filter m).2.tables.pml4e = m.tables.pml4e := by
  unfold ensurePDPTE
  dsimp only
  rw [(virt_div m.bitmapVirtAddr).2.1]
  generalize m.bitmapVirtAddr / frameSize / 0x40000 = i
  by_cases hi : (m.tables.pdpte i).isSome
  · rw [if_pos hi]
    exact ⟨.same h, hi, rfl⟩
  · rw [if_neg hi]
    have htake := h.take (t := { m.tables with
      pdpte := setEntry m.tables.pdpte i (filter m.ptPhysBase), pde := zeroTable m.tables.pde i }) ?_ ?_
    · exact ⟨⟨htake.1, fun hf => (by cases hf), fun _ => rfl, htake.2⟩, by simp [setEntry], rfl⟩
    · funext v
      have hdiv : v / 0x200 / 512 = v / 0x40000 := Nat.div_div_eq_div_mul v (0x200) 512
      unfold PageTables.frame setEntry zeroTable
      dsimp only
      simp only [hdiv]
      by_cases hv : v / 0x40000 = i
      · simp [hv, hi]
      · simp [hv]
    · intro f hf
      rw [h.filter_base] at hf
      rcases hf with hj | ⟨j, hj⟩ | ⟨j, hj, hsize⟩
      · exact .inl (.inl hj)
      · dsimp only [setEntry] at hj
        split at hj
        · exact .inr (Option.some.inj hj).symm
        · exact .inl (.inr (.inl ⟨j, hj⟩))
      · dsimp only [zeroTable] at hj
        split at hj
        · cases hj
        · exact .inl (.inr (.inr ⟨j, hj, hsize⟩))

theorem ensurePDE_spec (h : Ready filter m) : Ensured filter m (ensurePDE filter m) ∧
    ((ensurePDE filter m).2.tables.pde (m.bitmapVirtAddr / frameSize / 0x200)).isSome ∧
    (ensurePDE filter m).2.tables.pml4e = m.tables.pml4e ∧ (ensurePDE filter m).2.tables.pdpte = m.tables.pdpte := by
  unfold ensurePDE
  dsimp only
  rw [(virt_div m.bitmapVirtAddr).2.2.1]
  generalize m.bitmapVirtAddr / frameSize / 0x200 = i
  by_cases hi : (m.tables.pde i).isSome
  · rw [if_pos hi]
    exact ⟨.same h, hi, rfl, rfl⟩
  · rw [if_neg hi]
    have hnone : m.tables.pde i = none := by simpa using hi
    have htake := h.take (t := { m.tables with
      pde := setEntry m.tables.pde i (filter m.ptPhysBase)
      pageSize := setFlag m.tables.pageSize i false
      pte := zeroTable m.tables.pte i }) ?_ ?_
    · exact ⟨⟨htake.1, fun hf => (by cases hf), fun _ => rfl, htake.2⟩, by simp [setEntry], rfl, rfl⟩
    · funext v
      unfold PageTables.frame setEntry setFlag zeroTable
      dsimp only
      by_cases hv : v / 0x200 = i
      · simp [hv, hnone]
      · have hv' : v / 512 ≠ i := hv
        simp [hv']
    · intro f hf
      rw [h.filter_base] at hf
      rcases hf with hj | hj | ⟨j, hj, hsize⟩
      · exact .inl (.inl hj)
      · exact .inl (.inr (.inl hj))
      · dsimp only [setEntry, setFlag] at hj hsize
        split at hj
        · exact .inr (Option.some.inj hj).symm
        · rename_i hne
          rw [if_neg hne] at hsize
          exact .inl (.inr (.inr ⟨j, hj, hsize⟩))

theorem Ensured.go (h : Ready filter m) {r : Bool × Mapping} (he : Ensured filter m r) {n : Nat}
    (hn : ¬ (r.1 ∧ r.2.numPages ≤ n)) : Ready filter r.2 := by
  cases hr : r.1 with
  | false =>
    rw [he.kept hr]
    exact h
  | true => exact he.ready fun hzero => hn ⟨hr, by omega⟩

/-! ## One page -/

theorem map_pte {c : Mapping} (h : Ready filter c) (halign : c.physAddr % frameSize = 0)
    (hpml4e : (c.tables.pml4e (c.bitmapVirtAddr / frameSize / 0x8000000)).isSome)
    (hpdpte : (c.tables.pdpte (c.bitmapVirtAddr / frameSize / 0x40000)).isSome)
    (hpde : (c.tables.pde (c.bitmapVirtAddr / frameSize / 0x200)).isSome)
    (hnone : c.tables.frame (c.bitmapVirtAddr / frameSize) = none) :
    Advance 1 c { c with
      tables := { c.tables with pte := setEntry c.tables.pte (c.bitmapVirtAddr / pteCoverage) (filter c.physAddr) }
      physAddr := c.physAddr + frameSize
      bitmapVirtAddr := c.bitmapVirtAddr + frameSize
      bytesMapped := c.bytesMapped + frameSize
      numPages := c.numPages - 1 } := by
  have hpages := h.pages
  have hfilter : filter c.physAddr = c.physAddr := by
    have hmul : c.physAddr / frameSize * frameSize = c.physAddr := Nat.div_mul_cancel (Nat.dvd_of_mod_eq_zero halign)
    have := h.filtered (c.physAddr / frameSize) (Nat.le_refl _) (by omega)
    rwa [hmul] at this
  obtain ⟨f, hf⟩ := Option.isSome_iff_exists.mp hpde
  refine ⟨by rw [Nat.one_mul], by rw [Nat.one_mul], by rw [Nat.one_mul], by dsimp only; omega, fun v => ?_, fun f hf => .inl hf⟩
  rw [(virt_div c.bitmapVirtAddr).2.2.2, hfilter]
  generalize c.bitmapVirtAddr / frameSize = V at *
  -- the directory entry is not a large page, or the page would be mapped
  have hsize : c.tables.pageSize (V / 0x200) = false := by
    unfold PageTables.frame at hnone
    rw [if_pos ⟨hpml4e, hpdpte⟩, hf] at hnone
    dsimp only at hnone
    cases hb : c.tables.pageSize (V / 0x200) with
    | false => rfl
    | true =>
      rw [hb] at hnone
      cases hnone
  by_cases hv : v = V
  · subst hv
    rw [if_pos (by omega), Nat.sub_self, Nat.zero_mul, Nat.add_zero]
    unfold PageTables.frame setEntry
    dsimp only
    rw [if_pos ⟨hpml4e, hpdpte⟩, hf]
    dsimp only
    rw [hsize, if_neg (by decide), if_pos rfl]
  · rw [if_neg (by omega)]
    unfold PageTables.frame setEntry
    dsimp only
    rw [if_neg hv]

theorem map_pde {c : Mapping} (hpages : pdeCoverage / frameSize ≤ c.numPages) (hfiltered : Filtered filter c)
    (halign : c.physAddr % frameSize = 0) (hvirt : c.bitmapVirtAddr / frameSize % 0x200 = 0)
    (hpml4e : (c.tables.pml4e (c.bitmapVirtAddr / frameSize / 0x8000000)).isSome)
    (hpdpte : (c.tables.pdpte (c.bitmapVirtAddr / frameSize / 0x40000)).isSome) :
    Advance 512 c { c with
      tables := { c.tables with
        pde := setEntry c.tables.pde (c.bitmapVirtAddr / pdeCoverage) (filter c.physAddr)
        pageSize := setFlag c.tables.pageSize (c.bitmapVirtAddr / pdeCoverage) true }
      physAddr := c.physAddr + pdeCoverage
      bitmapVirtAddr := c.bitmapVirtAddr + pdeCoverage
      bytesMapped := c.bytesMapped + pdeCoverage
      numPages := c.numPages - pdeCoverage / frameSize } := by
  have hsize : pdeCoverage / frameSize = 512 := rfl
  have hcover : pdeCoverage = 512 * frameSize := rfl
  have hfilter : filter c.physAddr = c.physAddr := by
    have hmul : c.physAddr / frameSize * frameSize = c.physAddr := Nat.div_mul_cancel (Nat.dvd_of_mod_eq_zero halign)
    have := hfiltered (c.physAddr / frameSize) (Nat.le_refl _) (by omega)
    rwa [hmul] at this
  refine ⟨by rw [hcover], by rw [hcover], by rw [hcover], by dsimp only; omega, fun v => ?_, fun f hf => ?_⟩
  · rw [(virt_div c.bitmapVirtAddr).2.2.1, hfilter]
    generalize c.bitmapVirtAddr / frameSize = V at *
    by_cases hv : v / 0x200 = V / 0x200
    · have h27 : v / 0x8000000 = V / 0x8000000 := by omega
      have h18 : v / 0x40000 = V / 0x40000 := by omega
      rw [if_pos (by omega)]
      unfold PageTables.frame setEntry setFlag
      dsimp only
      rw [if_pos ⟨h27 ▸ hpml4e, h18 ▸ hpdpte⟩, if_pos hv]
      simp only [hv, if_true]
      rw [show v % 0x200 = v - V by omega]
    · rw [if_neg (by omega)]
      unfold PageTables.frame setEntry setFlag
      simp only [hv, if_false]
  · rcases hf with hf | hf | ⟨i, hf, hflag⟩
    · exact .inl (.inl hf)
    · exact .inl (.inr (.inl hf))
    · dsimp only [setEntry, setFlag] at hf hflag
      split at hflag
      · cases hflag
      · rename_i hne
        rw [if_neg hne] at hf
        exact .inl (.inr (.inr ⟨i, hf, hflag⟩))

/-- A turn with a 4KB page: it maps the page, or the descriptor is used up for tables. -/
theorem mapSmallPage_advance (h : Ready filter m) (halign : m.physAddr % frameSize = 0)
    (hnone : m.tables.frame (m.bitmapVirtAddr / frameSize) = none) :
    ((mapSmallPage filter m).1 = true ∧ Advance 0 m (mapSmallPage filter m).2) ∨
      ((mapSmallPage filter m).1 = false ∧ Advance 1 m (mapSmallPage filter m).2) := by
  obtain ⟨ha, hpml4e⟩ := ensurePML4E_spec h
  unfold mapSmallPage
  dsimp only
  by_cases hbreak : (ensurePML4E filter m).1 = true ∧ (ensurePML4E filter m).2.numPages = 0
  · rw [if_pos hbreak]
    exact .inl ⟨rfl, ha.advance⟩
  rw [if_neg hbreak]
  have hready := ha.go h (n := 0) (by simpa using hbreak)
  have hadvance := ha.advance
  generalize (ensurePML4E filter m).2 = a at hpml4e hready hadvance
  obtain ⟨hb, hpdpte, hsame⟩ := ensurePDPTE_spec hready
  by_cases hbreak : (ensurePDPTE filter a).1 = true ∧ (ensurePDPTE filter a).2.numPages = 0
  · rw [if_pos hbreak]
    exact .inl ⟨rfl, hadvance.trans hb.advance⟩
  rw [if_neg hbreak]
  have hready' := hb.go hready (n := 0) (by simpa using hbreak)
  have hadvance' := hadvance.trans hb.advance
  rw [← hsame] at hpml4e
  have hvirt : a.bitmapVirtAddr = m.bitmapVirtAddr := by simpa using hadvance.virt
  rw [hvirt] at hpdpte
  generalize (ensurePDPTE filter a).2 = b at hpml4e hpdpte hready' hadvance'
  obtain ⟨hc, hpde, hsame4, hsame3⟩ := ensurePDE_spec hready'
  by_cases hbreak : (ensurePDE filter b).1 = true ∧ (ensurePDE filter b).2.numPages = 0
  · rw [if_pos hbreak]
    exact .inl ⟨rfl, hadvance'.trans hc.advance⟩
  rw [if_neg hbreak]
  have hready'' := hc.go hready' (n := 0) (by simpa using hbreak)
  have hadvance'' := hadvance'.trans hc.advance
  rw [← hsame4] at hpml4e
  rw [← hsame3] at hpdpte
  have hvirt : b.bitmapVirtAddr = m.bitmapVirtAddr := by simpa using hadvance'.virt
  rw [hvirt] at hpde
  generalize (ensurePDE filter b).2 = c at hpml4e hpdpte hpde hready'' hadvance''
  have hvirt : c.bitmapVirtAddr = m.bitmapVirtAddr := by simpa using hadvance''.virt
  have hphys : c.physAddr = m.physAddr := by simpa using hadvance''.phys
  have hframe : c.tables.frame (m.bitmapVirtAddr / frameSize) = none := by
    rw [hadvance''.frame, if_neg (by omega)]
    exact hnone
  have hmap := map_pte hready'' (by rw [hphys]; exact halign) (by rw [hvirt]; exact hpml4e) (by rw [hvirt]; exact hpdpte)
    (by rw [hvirt]; exact hpde) (by rw [hvirt]; exact hframe)
  exact .inr ⟨rfl, by simpa using hadvance''.trans hmap⟩

/-- A turn with a 2MB page. -/
theorem mapLargePage_advance (h : Ready filter m) (halign : m.physAddr % frameSize = 0)
    (hvirt : m.bitmapVirtAddr / frameSize % 0x200 = 0) (hpages : pdeCoverage / frameSize ≤ m.numPages) :
    ((mapLargePage filter m).1 = true ∧ Advance 0 m (mapLargePage filter m).2) ∨
      ((mapLargePage filter m).1 = false ∧ Advance 512 m (mapLargePage filter m).2) := by
  obtain ⟨ha, hpml4e⟩ := ensurePML4E_spec h
  unfold mapLargePage
  dsimp only
  by_cases hbreak : (ensurePML4E filter m).1 = true ∧ (ensurePML4E filter m).2.numPages ≤ pdeCoverage / frameSize
  · rw [if_pos hbreak]
    exact .inl ⟨rfl, ha.advance⟩
  rw [if_neg hbreak]
  have hready := ha.go h hbreak
  have hadvance := ha.advance
  have hleft : pdeCoverage / frameSize ≤ (ensurePML4E filter m).2.numPages := by
    cases hflag : (ensurePML4E filter m).1 with
    | false =>
      rw [ha.kept hflag]
      exact hpages
    | true => exact Nat.le_of_lt (Nat.lt_of_not_le fun hle => hbreak ⟨hflag, hle⟩)
  generalize (ensurePML4E filter m).2 = a at hpml4e hready hadvance hleft
  obtain ⟨hb, hpdpte, hsame⟩ := ensurePDPTE_spec hready
  by_cases hbreak : (ensurePDPTE filter a).1 = true ∧ (ensurePDPTE filter a).2.numPages ≤ pdeCoverage / frameSize
  · rw [if_pos hbreak]
    exact .inl ⟨rfl, hadvance.trans hb.advance⟩
  rw [if_neg hbreak]
  have hready' := hb.go hready hbreak
  have hadvance' := hadvance.trans hb.advance
  have hleft' : pdeCoverage / frameSize ≤ (ensurePDPTE filter a).2.numPages := by
    cases hflag : (ensurePDPTE filter a).1 with
    | false =>
      rw [hb.kept hflag]
      exact hleft
    | true => exact Nat.le_of_lt (Nat.lt_of_not_le fun hle => hbreak ⟨hflag, hle⟩)
  rw [← hsame] at hpml4e
  have hvirt' : a.bitmapVirtAddr = m.bitmapVirtAddr := by simpa using hadvance.virt
  rw [hvirt'] at hpdpte
  generalize (ensurePDPTE filter a).2 = b at hpml4e hpdpte hready' hadvance' hleft'
  have hvirt' : b.bitmapVirtAddr = m.bitmapVirtAddr := by simpa using hadvance'.virt
  have hphys : b.physAddr = m.physAddr := by simpa using hadvance'.phys
  have hmap := map_pde hleft' hready'.filtered (by rw [hphys]; exact halign) (by rw [hvirt']; exact hvirt)
    (by rw [hvirt']; exact hpml4e) (by rw [hvirt']; exact hpdpte)
  exact .inr ⟨rfl, by simpa using hadvance'.trans hmap⟩

/-! ## One descriptor -/

/-- The first virtual page of the bitmaps. -/
def bitmapPage : Nat := physicalMemoryMap.start / frameSize

/-- mirrors kernel/src/mm/PhysicalMemory.cpp:100 -/
def totalMetadataPages : Nat := (totalMetadataSize + frameSize - 1) / frameSize

/-- Between two turns. -/
structure Going (filter : Nat → Nat) (m : Mapping) : Prop where
  filtered : Filtered filter m
  aligned : m.physAddr % frameSize = 0
  whole : m.bytesMapped % frameSize = 0
  virt : m.bitmapVirtAddr = physicalMemoryMap.start + m.bytesMapped
  unmapped : ∀ v, m.bitmapVirtAddr / frameSize ≤ v → v < bitmapPage + totalMetadataPages → m.tables.frame v = none

theorem Going.advance {m' : Mapping} {k : Nat} (h : Going filter m) (ha : Advance k m m') : Going filter m' := by
  have hpages := ha.pages
  have hphys : m'.physAddr / frameSize = m.physAddr / frameSize + k := by
    rw [ha.phys, Nat.add_mul_div_right _ _ (by decide)]
  have hvirt : m'.bitmapVirtAddr / frameSize = m.bitmapVirtAddr / frameSize + k := by
    rw [ha.virt, Nat.add_mul_div_right _ _ (by decide)]
  refine ⟨fun p h1 h2 => h.filtered p (by omega) (by omega), ?_, ?_, ?_, fun v h1 h2 => ?_⟩
  · rw [ha.phys, Nat.add_mul_mod_self_right]
    exact h.aligned
  · rw [ha.bytes, Nat.add_mul_mod_self_right]
    exact h.whole
  · rw [ha.virt, ha.bytes, h.virt, Nat.add_assoc]
  · rw [ha.frame, if_neg (by omega)]
    exact h.unmapped v (by omega) h2

/-- The page that is mapped next is one of the bitmaps. -/
theorem Going.next (h : Going filter m) (hless : m.bytesMapped < totalMetadataSize) :
    m.tables.frame (m.bitmapVirtAddr / frameSize) = none := by
  refine h.unmapped _ (Nat.le_refl _) ?_
  have hwhole := h.whole
  have hpage : bitmapPage * frameSize = physicalMemoryMap.start := rfl
  have hend : totalMetadataSize ≤ totalMetadataPages * frameSize := by decide
  rw [h.virt]
  unfold frameSize at *
  omega

/-- The loop over one descriptor. -/
theorem mapBitmaps_advance : ∀ (fuel : Nat) (m : Mapping), Going filter m →
    ∃ k, Advance k m (mapBitmaps filter fuel m).2 ∧
      ((mapBitmaps filter fuel m).1 = true → totalMetadataSize ≤ (mapBitmaps filter fuel m).2.bytesMapped) ∧
      ((mapBitmaps filter fuel m).1 = false → m.bytesMapped < totalMetadataSize →
        (mapBitmaps filter fuel m).2.bytesMapped < totalMetadataSize)
  | 0, m, _ => ⟨0, .refl m, fun h => (by cases h), fun _ h => h⟩
  | fuel + 1, m, h => by
    unfold mapBitmaps
    by_cases hturn : m.numPages > 0 ∧ m.bytesMapped < totalMetadataSize
    · rw [if_pos hturn]
      extract_lets m' r
      have hready : Ready filter m' := by
        refine ⟨hturn.1, ?_, h.filtered⟩
        have hmul : m.physAddr / frameSize * frameSize = m.physAddr :=
          Nat.div_mul_cancel (Nat.dvd_of_mod_eq_zero h.aligned)
        change m.physAddr + (m.numPages - 1) * frameSize = _
        rw [Nat.add_mul]
        exact congrArg (· + (m.numPages - 1) * frameSize) hmul.symm
      have hnext : m'.tables.frame (m'.bitmapVirtAddr / frameSize) = none := h.next hturn.2
      obtain ⟨k, hk, hbreak⟩ : ∃ k, Advance k m' r.2 ∧ (r.1 = true → k = 0) := by
        unfold r
        split
        · rename_i hlarge
          simp only [useLargePage, Bool.and_eq_true, beq_iff_eq, decide_eq_true_eq] at hlarge
          have hvirt : m'.bitmapVirtAddr / frameSize % 0x200 = 0 := by
            have := hlarge.1.1.2
            unfold pdeCoverage at this
            unfold frameSize
            omega
          obtain ⟨-, hadv⟩ | ⟨hflag, hadv⟩ := mapLargePage_advance hready h.aligned hvirt hlarge.2
          · exact ⟨0, hadv, fun _ => rfl⟩
          · exact ⟨512, hadv, fun ht => by rw [hflag] at ht; cases ht⟩
        · obtain ⟨-, hadv⟩ | ⟨hflag, hadv⟩ := mapSmallPage_advance hready h.aligned hnext
          · exact ⟨0, hadv, fun _ => rfl⟩
          · exact ⟨1, hadv, fun ht => by rw [hflag] at ht; cases ht⟩
      have hadvance : Advance k m r.2 := ⟨hk.phys, hk.virt, hk.bytes, hk.pages, hk.frame, hk.table⟩
      split
      · rename_i hflag
        refine ⟨k, hadvance, fun ht => (by cases ht), fun _ _ => ?_⟩
        have hbytes := hadvance.bytes
        rw [hbreak hflag, Nat.zero_mul, Nat.add_zero] at hbytes
        rw [hbytes]
        exact hturn.2
      · split
        · rename_i hdone
          exact ⟨k, hadvance, fun _ => hdone, fun ht => by cases ht⟩
        · rename_i hdone
          obtain ⟨k', hadvance', hmapped, hless⟩ := mapBitmaps_advance fuel r.2 (h.advance hadvance)
          exact ⟨k + k', hadvance.trans hadvance', hmapped, fun ht _ => hless ht (Nat.lt_of_not_le hdone)⟩
    · rw [if_neg hturn]
      exact ⟨0, .refl m, fun ht => (by cases ht), fun _ h => h⟩

end

/-! ## All the descriptors -/

/-- Page `p` is in a descriptor of a usable type, outside the DMA zone. -/
def Usable (mmap : List EfiMemoryDescriptor) (p : Nat) : Prop :=
  ∃ d ∈ mmap, d.type.usable = true ∧ Covers d p ∧ dmaEndPage ≤ p

/-- Page `p` was usable, and once there are bitmaps it is not free. -/
def Gone (seen : List EfiMemoryDescriptor) (g : Progress) (p : Nat) : Prop :=
  Usable seen p ∧ (g.bitmapsMapped = true → p < bitmapEntries4KB → g.mem.view.page p)

/-- After the descriptors `seen`. -/
structure Kept (t₀ : PageTables) (seen : List EfiMemoryDescriptor) (g : Progress) : Prop where
  virt : g.bitmapVirtAddr = physicalMemoryMap.start + g.bytesMapped
  whole : g.bytesMapped % frameSize = 0
  flag : g.bitmapsMapped = true ↔ totalMetadataSize ≤ g.bytesMapped
  initialized : g.bitmapsInitialized = g.bitmapsMapped
  mapped : ∀ v, bitmapPage ≤ v → v < g.bitmapVirtAddr / frameSize →
    ∃ p, g.tables.frame v = some (p * frameSize) ∧ Gone seen g p
  distinct : ∀ v v', bitmapPage ≤ v → v < g.bitmapVirtAddr / frameSize → bitmapPage ≤ v' →
    v' < g.bitmapVirtAddr / frameSize → g.tables.frame v = g.tables.frame v' → v = v'
  unmapped : ∀ v, g.bitmapVirtAddr / frameSize ≤ v → v < bitmapPage + totalMetadataPages → g.tables.frame v = none
  table : ∀ f, g.tables.Table f → t₀.Table f ∨ ∃ p, f = p * frameSize ∧ Gone seen g p
  clear : g.bitmapsMapped = true → ∀ p, p < bitmapEntries4KB → ¬ g.mem.view.page p → Usable seen p

section
variable {t₀ : PageTables} {seen : List EfiMemoryDescriptor} {g : Progress} {d : EfiMemoryDescriptor}

theorem Usable.cons {p : Nat} (h : Usable seen p) : Usable (d :: seen) p := by
  obtain ⟨e, he, h⟩ := h
  exact ⟨e, List.mem_cons_of_mem _ he, h⟩

theorem Kept.skip (h : Kept t₀ seen g) (d : EfiMemoryDescriptor) : Kept t₀ (d :: seen) g where
  virt := h.virt
  whole := h.whole
  flag := h.flag
  initialized := h.initialized
  mapped v h1 h2 := by
    obtain ⟨p, hp, hgone⟩ := h.mapped v h1 h2
    exact ⟨p, hp, hgone.1.cons, hgone.2⟩
  distinct := h.distinct
  unmapped := h.unmapped
  table f hf := by
    rcases h.table f hf with hf | ⟨p, hp, hgone⟩
    · exact .inl hf
    · exact .inr ⟨p, hp, hgone.1.cons, hgone.2⟩
  clear hm p hp hn := (h.clear hm p hp hn).cons

/-- The pages that are left of a descriptor. -/
theorem skipDMA_pages (halign : d.physicalStart % pageSize = 0) {a n : Nat} (h : skipDMA d = some (a, n)) :
    a % frameSize = 0 ∧ ∀ p, a / frameSize ≤ p → p < a / frameSize + n → Covers d p ∧ dmaEndPage ≤ p := by
  have hlimit : dmaZone.limit = 4096 * 4096 := rfl
  have hend : dmaEndPage = 4096 := rfl
  have hspace := d.inAddressSpace
  unfold skipDMA at h
  unfold Covers
  unfold pageSize at *
  unfold frameSize at *
  by_cases hstart : d.physicalStart < dmaZone.limit
  · rw [if_pos hstart] at h
    dsimp only at h
    by_cases hout : Word.sub (Word.add d.physicalStart (Word.mul 0x1000 d.numberOfPages)) dmaZone.limit = 0 ∨
        Word.sub (Word.add d.physicalStart (Word.mul 0x1000 d.numberOfPages)) dmaZone.limit ≥ 2 ^ 63
    · rw [if_pos hout] at h
      cases h
    · rw [if_neg hout] at h
      cases h
      unfold Word.sub Word.add Word.mul at *
      refine ⟨by omega, fun p h1 h2 => ⟨⟨by omega, ?_⟩, by omega⟩⟩
      split at h2
      · split at hout
        · omega
        · omega
      · split at hout
        · omega
        · omega
  · rw [if_neg hstart] at h
    cases h
    exact ⟨halign, fun p h1 h2 => ⟨⟨h1, h2⟩, by omega⟩⟩

/-- The mapping loop of a descriptor starts from what is there. -/
theorem Kept.going {filter : Nat → Nat} (h : Kept t₀ seen g) {a n : Nat} (ha : a % frameSize = 0)
    (hfilter : ∀ p, a / frameSize ≤ p → p < a / frameSize + n → filter (p * frameSize) = p * frameSize) :
    Going filter ⟨g.tables, g.bitmapVirtAddr, g.bytesMapped, a, n, 0⟩ :=
  ⟨hfilter, ha, h.whole, h.virt, h.unmapped⟩

/-- The pages of `g` after a descriptor: those that were free, and those that are left of the descriptor. -/
structure Left (g g' : Progress) (m' : Mapping) : Prop where
  tables : g'.tables = m'.tables
  virt : g'.bitmapVirtAddr = m'.bitmapVirtAddr
  bytes : g'.bytesMapped = m'.bytesMapped
  flag : g'.bitmapsMapped = true ↔ totalMetadataSize ≤ m'.bytesMapped
  initialized : g'.bitmapsInitialized = g'.bitmapsMapped
  page : g'.bitmapsMapped = true → ∀ p, p < bitmapEntries4KB →
    (g'.mem.view.page p ↔ (g.bitmapsMapped = true → g.mem.view.page p) ∧ ¬ Marked m'.physAddr m'.numPages p)

/-- A descriptor after the bitmaps are mapped, or before: the loop maps `k` pages, and what it leaves is freed. -/
theorem Kept.left {g' : Progress} {m' : Mapping} {a n k : Nat} (h : Kept t₀ seen g)
    (husable : d.type.usable = true) (ha : a % frameSize = 0)
    (hpages : ∀ p, a / frameSize ≤ p → p < a / frameSize + n → Covers d p ∧ dmaEndPage ≤ p)
    (hapart : ∀ e ∈ seen, ∀ p, Covers e p → ¬ Covers d p)
    (hadvance : Advance k ⟨g.tables, g.bitmapVirtAddr, g.bytesMapped, a, n, 0⟩ m') (hleft : Left g g' m') :
    Kept t₀ (d :: seen) g' := by
  have hnum : k + m'.numPages ≤ n := hadvance.pages
  have hphys : m'.physAddr / frameSize = a / frameSize + k := by
    rw [hadvance.phys, Nat.add_mul_div_right _ _ (by decide)]
  have hvirt : g'.bitmapVirtAddr / frameSize = g.bitmapVirtAddr / frameSize + k := by
    rw [hleft.virt, hadvance.virt, Nat.add_mul_div_right _ _ (by decide)]
  have hamul : a = a / frameSize * frameSize := (Nat.div_mul_cancel (Nat.dvd_of_mod_eq_zero ha)).symm
  have hseen : ∀ p, Usable seen p → ¬ Covers d p := by
    rintro p ⟨e, he, -, hc, -⟩
    exact hapart e he p hc
  -- a page that is not among those left of the descriptor is not freed
  have hmarked : ∀ p, Marked m'.physAddr m'.numPages p → a / frameSize + k ≤ p ∧ p < a / frameSize + k + m'.numPages := by
    intro p hp
    have h1 : m'.physAddr / frameSize ≤ p := hp.1
    have h2 : p < m'.physAddr / frameSize + m'.numPages := hp.2.1
    exact ⟨by omega, by omega⟩
  have hold : ∀ p, Gone seen g p → Gone (d :: seen) g' p := by
    rintro p ⟨husable', hpage⟩
    refine ⟨husable'.cons, fun hm hp => (hleft.page hm p hp).mpr ⟨fun hm' => hpage hm' hp, fun hmk => ?_⟩⟩
    have := hmarked p hmk
    exact hseen p husable' (hpages p (by omega) (by omega)).1
  have hnew : ∀ p, a / frameSize ≤ p → p < a / frameSize + n →
      (p < a / frameSize + k ∨ a / frameSize + k + m'.numPages ≤ p) → Gone (d :: seen) g' p := by
    intro p h1 h2 h3
    obtain ⟨hc, hdma⟩ := hpages p h1 h2
    refine ⟨⟨d, List.mem_cons_self, husable, hc, hdma⟩, fun hm hp => (hleft.page hm p hp).mpr ⟨fun hm' => ?_, fun hmk => ?_⟩⟩
    · exact Classical.byContradiction fun hn => hseen p (h.clear hm' p hp hn) hc
    · have := hmarked p hmk
      omega
  have hframe : ∀ v, g'.tables.frame v = if g.bitmapVirtAddr / frameSize ≤ v ∧ v < g.bitmapVirtAddr / frameSize + k
      then some ((a / frameSize + (v - g.bitmapVirtAddr / frameSize)) * frameSize) else g.tables.frame v := by
    intro v
    rw [hleft.tables, hadvance.frame, Nat.add_mul, ← hamul]
  -- an old page and a new one have different frames
  have hcross : ∀ v v', bitmapPage ≤ v → v < g.bitmapVirtAddr / frameSize → g.bitmapVirtAddr / frameSize ≤ v' →
      v' < g.bitmapVirtAddr / frameSize + k → g'.tables.frame v ≠ g'.tables.frame v' := by
    intro v v' h1 h2 h3 h4 heq
    obtain ⟨p, hp, hgone⟩ := h.mapped v h1 h2
    rw [hframe v, hframe v', if_neg (by omega), if_pos ⟨h3, h4⟩, hp] at heq
    have hpeq := Nat.eq_of_mul_eq_mul_right (by decide) (Option.some.inj heq)
    exact hseen p hgone.1 (hpages p (by omega) (by omega)).1
  refine ⟨?_, ?_, ?_, hleft.initialized, fun v h1 h2 => ?_, fun v v' h1 h2 h3 h4 heq => ?_, fun v h1 h2 => ?_, fun f hf => ?_,
    fun hm p hp hn => ?_⟩
  · rw [hleft.virt, hadvance.virt, hleft.bytes, hadvance.bytes, h.virt, Nat.add_assoc]
  · rw [hleft.bytes, hadvance.bytes, Nat.add_mul_mod_self_right]
    exact h.whole
  · rw [hleft.bytes]
    exact hleft.flag
  · rw [hframe]
    by_cases hv : v < g.bitmapVirtAddr / frameSize
    · rw [if_neg (by omega)]
      obtain ⟨p, hp, hgone⟩ := h.mapped v h1 hv
      exact ⟨p, hp, hold p hgone⟩
    · rw [if_pos (by omega)]
      exact ⟨_, rfl, hnew _ (by omega) (by omega) (by omega)⟩
  · rcases Nat.lt_or_ge v (g.bitmapVirtAddr / frameSize) with hv | hv
    · rcases Nat.lt_or_ge v' (g.bitmapVirtAddr / frameSize) with hv' | hv'
      · rw [hframe v, hframe v', if_neg (by omega), if_neg (by omega)] at heq
        exact h.distinct v v' h1 hv h3 hv' heq
      · exact absurd heq (hcross v v' h1 hv hv' (by omega))
    · rcases Nat.lt_or_ge v' (g.bitmapVirtAddr / frameSize) with hv' | hv'
      · exact absurd heq.symm (hcross v' v h3 hv' hv (by omega))
      · rw [hframe v, hframe v', if_pos (by omega), if_pos (by omega)] at heq
        have := Nat.eq_of_mul_eq_mul_right (by decide) (Option.some.inj heq)
        omega
  · rw [hframe, if_neg (by omega)]
    exact h.unmapped v (by omega) h2
  · rw [hleft.tables] at hf
    rcases hadvance.table f hf with hf | ⟨p, rfl, h1, h2⟩
    · rcases h.table f hf with hf | ⟨p, hp, hgone⟩
      · exact .inl hf
      · exact .inr ⟨p, hp, hold p hgone⟩
    · exact .inr ⟨p, rfl, hnew p (by dsimp only at h1; omega) h2 (.inr h1)⟩
  · rw [hleft.page hm p hp] at hn
    by_cases hbefore : g.bitmapsMapped = true → g.mem.view.page p
    · have hmk : Marked m'.physAddr m'.numPages p := Classical.byContradiction fun hmk => hn ⟨hbefore, hmk⟩
      have := hmarked p hmk
      obtain ⟨hc, hdma⟩ := hpages p (by omega) (by omega)
      exact ⟨d, List.mem_cons_self, husable, hc, hdma⟩
    · obtain ⟨hm', hn'⟩ := Classical.not_imp.mp hbefore
      exact (h.clear hm' p hp hn').cons

/-- Once the bitmaps are mapped, no page is taken from a descriptor. -/
theorem mapBitmaps_done (filter : Nat → Nat) {m : Mapping} (h : totalMetadataSize ≤ m.bytesMapped) :
    ∀ fuel, mapBitmaps filter fuel m = (false, m)
  | 0 => rfl
  | _ + 1 => if_neg fun hturn => by omega

theorem Kept.step {filter : Nat → Nat} (h : Kept t₀ seen g) (halign : d.physicalStart % pageSize = 0)
    (hapart : ∀ e ∈ seen, ∀ p, Covers e p → ¬ Covers d p)
    (hfilter : ∀ p, Covers d p → filter (p * frameSize) = p * frameSize) :
    Kept t₀ (d :: seen) (setupDescriptor filter g d) := by
  unfold setupDescriptor
  split
  · exact h.skip d
  rename_i husable
  have husable : d.type.usable = true := by simpa using husable
  split
  · exact h.skip d
  rename_i a n hskip
  split
  · exact h.skip d
  obtain ⟨ha, hpages⟩ := skipDMA_pages halign hskip
  obtain ⟨k, hadvance, hdone, hless⟩ := mapBitmaps_advance n _
    (h.going ha fun p h1 h2 => hfilter p (hpages p h1 h2).1)
  extract_lets r g' mem
  have hflag : (g.bitmapsMapped || r.1) = true ↔ totalMetadataSize ≤ r.2.bytesMapped := by
    cases hm : g.bitmapsMapped with
    | true =>
      have hbytes := h.flag.mp hm
      have : g.bytesMapped + k * frameSize = r.2.bytesMapped := hadvance.bytes.symm
      exact iff_of_true rfl (by omega)
    | false =>
      have hbytes : g.bytesMapped < totalMetadataSize :=
        Nat.lt_of_not_le fun hle => by rw [h.flag.mpr hle] at hm; cases hm
      cases hr : r.1 with
      | true => exact iff_of_true rfl (hdone hr)
      | false => exact iff_of_false (by decide) (Nat.not_le_of_lt (hless hr hbytes))
  split
  · rename_i hmapped
    refine h.left husable ha hpages hapart hadvance
      ⟨rfl, rfl, rfl, hflag, hmapped.symm, fun _ p hp => ?_⟩
    change (markFree mem r.2.physAddr r.2.numPages).view.page p ↔ _
    rw [markFree_view]
    refine and_congr_left fun _ => ?_
    unfold mem
    cases hm : g.bitmapsMapped with
    | true =>
      rw [if_neg (by rw [show g'.bitmapsInitialized = g.bitmapsMapped from h.initialized, hm]; decide)]
      exact ⟨fun hp _ => hp, fun hp => hp rfl⟩
    | false =>
      rw [if_pos (by rw [show g'.bitmapsInitialized = g.bitmapsMapped from h.initialized, hm]; rfl)]
      exact iff_of_true (initializeBitmaps_page _ hp) fun hf => by cases hf
  · rename_i hmapped
    have hor : g.bitmapsMapped = false ∧ r.1 = false := by simpa [g'] using hmapped
    refine h.left husable ha hpages hapart hadvance ⟨rfl, rfl, rfl, hflag, ?_, fun hm => absurd hm hmapped⟩
    change g.bitmapsInitialized = (g.bitmapsMapped || r.1)
    rw [h.initialized, hor.1, hor.2]
    rfl

theorem Kept.descriptors {filter : Nat → Nat} : ∀ (rest seen : List EfiMemoryDescriptor) (g : Progress),
    Kept t₀ seen g → (∀ d ∈ rest, d.physicalStart % pageSize = 0) →
    (∀ d ∈ rest, ∀ p, Covers d p → filter (p * frameSize) = p * frameSize) →
    (∀ p, rest.Pairwise fun a b => ¬ (Covers a p ∧ Covers b p)) →
    (∀ d ∈ rest, ∀ e ∈ seen, ∀ p, Covers e p → ¬ Covers d p) →
    Kept t₀ (rest.reverse ++ seen) (rest.foldl (setupDescriptor filter) g)
  | [], _, _, h, _, _, _, _ => h
  | d :: rest, seen, g, h, halign, hfilter, hapart, hseen => by
    have hd : d ∈ d :: rest := List.mem_cons_self
    have hstep := h.step (halign d hd) (hseen d hd) (hfilter d hd)
    have hrest := hstep.descriptors rest (d :: seen) _ (fun e he => halign e (List.mem_cons_of_mem _ he))
      (fun e he => hfilter e (List.mem_cons_of_mem _ he)) (fun p => (List.pairwise_cons.mp (hapart p)).2) ?_
    · rw [List.reverse_cons, List.append_assoc]
      exact hrest
    · intro x hx e he p hc hx'
      rcases List.mem_cons.mp he with rfl | he
      · exact (List.pairwise_cons.mp (hapart p)).1 x hx ⟨hc, hx'⟩
      · exact hseen x (List.mem_cons_of_mem _ hx) e he p hc hx'

end

/-! ## After `Setup` -/

/-- The page tables as `Setup` leaves them. -/
def setupTables (b : Boot) : PageTables := (b.memoryMap.foldl (setupDescriptor b.filterAddress) b.progress).tables

theorem filterAddress_page {maxphyaddr p : Nat} (h : p * frameSize < 2 ^ maxphyaddr) :
    filterAddress maxphyaddr (p * frameSize) = p * frameSize := by
  unfold filterAddress
  rw [Nat.mod_eq_of_lt h, Nat.mul_div_cancel _ (by decide)]

/-- What is there before `Setup`: descriptors of memory the processor can address, apart from each other, and nothing
mapped where the bitmaps go. -/
structure BootOk (maxphyaddr : Nat) (b : Boot) : Prop where
  filter : b.filterAddress = filterAddress maxphyaddr
  map : MapOk b.memoryMap
  addressable : ∀ d ∈ b.memoryMap, d.physicalStart + frameSize * d.numberOfPages ≤ 2 ^ maxphyaddr
  unmapped : ∀ v, bitmapPage ≤ v → v < bitmapPage + totalMetadataPages → b.tables.frame v = none

theorem BootOk.kept {maxphyaddr : Nat} {b : Boot} (h : BootOk maxphyaddr b) :
    Kept b.tables b.memoryMap.reverse (b.memoryMap.foldl (setupDescriptor b.filterAddress) b.progress) := by
  have hpage : b.progress.bitmapVirtAddr / frameSize = bitmapPage := rfl
  have hempty : Kept b.tables [] b.progress := by
    refine ⟨(Nat.add_zero _).symm, Nat.zero_mod _, ?_, rfl, fun v h1 h2 => ?_, fun v v' h1 h2 => ?_, fun v h1 h2 => ?_,
      fun f hf => .inl hf, fun hm => by cases hm⟩
    · exact iff_of_false Bool.false_ne_true (Nat.not_le_of_lt (show 0 < totalMetadataSize by decide))
    · rw [hpage] at h2
      omega
    · rw [hpage] at h2
      omega
    · rw [hpage] at h1
      exact h.unmapped v h1 h2
  have hfilter : ∀ d ∈ b.memoryMap, ∀ p, Covers d p → b.filterAddress (p * frameSize) = p * frameSize := by
    intro d hd p hc
    rw [h.filter]
    refine filterAddress_page ?_
    have hend := h.addressable d hd
    have halign := h.map.aligned d hd
    unfold Covers at hc
    generalize 2 ^ maxphyaddr = N at hend
    unfold pageSize frameSize at *
    omega
  have hkept := hempty.descriptors b.memoryMap [] b.progress h.map.aligned hfilter h.map.unique (fun _ _ _ he => by cases he)
  rwa [List.append_nil] at hkept

theorem setup_eq {b : Boot} {s : State} (h : setup b = some s) :
    let g := b.memoryMap.foldl (setupDescriptor b.filterAddress) b.progress
    g.bitmapsMapped = true ∧ s.view.page = g.mem.view.page := by
  intro g
  unfold setup at h
  dsimp only at h
  split at h
  · cases h
  · rename_i hmapped
    cases h
    refine ⟨by simpa using hmapped, ?_⟩
    rw [setFlags32MB_view, setFlags2MB_view]

/-- After the descriptors `seen`: the bitmaps are mapped as a whole, and what is free is usable. -/
structure Marks (seen : List EfiMemoryDescriptor) (g : Progress) : Prop where
  initialized : g.bitmapsInitialized = g.bitmapsMapped
  bytes : g.bitmapsMapped = true → totalMetadataSize ≤ g.bytesMapped
  clear : g.bitmapsMapped = true → ∀ p, p < bitmapEntries4KB → ¬ g.mem.view.page p → Usable seen p

section
variable {seen : List EfiMemoryDescriptor} {g : Progress} {d : EfiMemoryDescriptor}

theorem Marks.skip (h : Marks seen g) (d : EfiMemoryDescriptor) : Marks (d :: seen) g where
  initialized := h.initialized
  bytes := h.bytes
  clear hm p hp hn := (h.clear hm p hp hn).cons

theorem Marks.step (filter : Nat → Nat) (h : Marks seen g) (halign : d.physicalStart % pageSize = 0) :
    Marks (d :: seen) (setupDescriptor filter g d) := by
  unfold setupDescriptor
  split
  · exact h.skip d
  rename_i husable
  have husable : d.type.usable = true := by simpa using husable
  split
  · exact h.skip d
  rename_i a n hskip
  split
  · exact h.skip d
  obtain ⟨ha, hpages⟩ := skipDMA_pages halign hskip
  obtain ⟨hwithin, hdone⟩ := mapBitmaps_within filter n ⟨g.tables, g.bitmapVirtAddr, g.bytesMapped, a, n, 0⟩
  extract_lets r g' mem
  have hbytes : g'.bitmapsMapped = true → totalMetadataSize ≤ r.2.bytesMapped := fun hm => by
    rcases (Bool.or_eq_true _ _).mp hm with hm | hm
    · exact Nat.le_trans (h.bytes hm) hwithin.bytes
    · exact hdone hm
  split
  · refine ⟨Eq.symm (by assumption), hbytes, fun _ p hp hn => ?_⟩
    change ¬ (markFree mem r.2.physAddr r.2.numPages).view.page p at hn
    rw [markFree_view] at hn
    by_cases hpage : mem.view.page p
    · have hmark : Marked r.2.physAddr r.2.numPages p := Classical.byContradiction fun hmark => hn ⟨hpage, hmark⟩
      have hstart : a ≤ r.2.physAddr := hwithin.start
      have htop : r.2.physAddr + r.2.numPages * frameSize ≤ a + n * frameSize := hwithin.top
      obtain ⟨h1, h2, -⟩ := hmark
      have hin : a / frameSize ≤ p ∧ p < a / frameSize + n := by
        unfold frameSize at *
        omega
      obtain ⟨hc, hdma⟩ := hpages p hin.1 hin.2
      exact ⟨d, List.mem_cons_self, husable, hc, hdma⟩
    · unfold mem at hpage
      cases hm : g.bitmapsMapped with
      | true =>
        rw [if_neg (by rw [show g'.bitmapsInitialized = g.bitmapsMapped from h.initialized, hm]; decide)] at hpage
        exact (h.clear hm p hp hpage).cons
      | false =>
        rw [if_pos (by rw [show g'.bitmapsInitialized = g.bitmapsMapped from h.initialized, hm]; rfl)] at hpage
        exact absurd (initializeBitmaps_page _ hp) hpage
  · rename_i hmapped
    have hor : g.bitmapsMapped = false ∧ r.1 = false := by simpa [g'] using hmapped
    refine ⟨?_, hbytes, fun hm => absurd hm hmapped⟩
    change g.bitmapsInitialized = (g.bitmapsMapped || r.1)
    rw [h.initialized, hor.1, hor.2]
    rfl

theorem Marks.descriptors (filter : Nat → Nat) : ∀ (rest seen : List EfiMemoryDescriptor) (g : Progress),
    Marks seen g → (∀ d ∈ rest, d.physicalStart % pageSize = 0) →
    Marks (rest.reverse ++ seen) (rest.foldl (setupDescriptor filter) g)
  | [], _, _, h, _ => h
  | d :: rest, seen, g, h, halign => by
    have hrest := Marks.descriptors filter rest (d :: seen) _ (h.step filter (halign d List.mem_cons_self))
      fun e he => halign e (List.mem_cons_of_mem _ he)
    rw [List.reverse_cons, List.append_assoc]
    exact hrest

end

theorem Boot.marks {b : Boot} (halign : ∀ d ∈ b.memoryMap, d.physicalStart % pageSize = 0) :
    Marks b.memoryMap.reverse (b.memoryMap.foldl (setupDescriptor b.filterAddress) b.progress) := by
  have hempty : Marks [] b.progress := ⟨rfl, fun hm => (by cases hm), fun hm => (by cases hm)⟩
  have hmarks := Marks.descriptors b.filterAddress b.memoryMap [] b.progress hempty halign
  rwa [List.append_nil] at hmarks

/-- A free page is usable. -/
theorem clear_usable {b : Boot} {s : State} (halign : ∀ d ∈ b.memoryMap, d.physicalStart % pageSize = 0)
    (hs : setup b = some s) {p : Nat} (hp : p < bitmapEntries4KB) (hn : ¬ s.view.page p) : Usable b.memoryMap p := by
  obtain ⟨hmapped, hpage⟩ := setup_eq hs
  rw [hpage] at hn
  obtain ⟨d, hd, hu⟩ := (Boot.marks halign).clear hmapped p hp hn
  exact ⟨d, List.mem_reverse.mp hd, hu⟩

theorem setupDescriptor_stays (filter : Nat → Nat) {g : Progress} (h : g.bitmapsMapped = true) (d : EfiMemoryDescriptor) :
    (setupDescriptor filter g d).bitmapsMapped = true := by
  unfold setupDescriptor
  split
  · exact h
  split
  · exact h
  split
  · exact h
  · simp [h]

theorem descriptors_stay (filter : Nat → Nat) : ∀ (ds : List EfiMemoryDescriptor) (g : Progress), g.bitmapsMapped = true →
    (ds.foldl (setupDescriptor filter) g).bitmapsMapped = true
  | [], _, h => h
  | d :: ds, _, h => descriptors_stay filter ds _ (setupDescriptor_stays filter h d)

/-- One descriptor for the bitmaps, after descriptors of the DMA zone, is enough. -/
theorem setup_some {b : Boot} (before : List EfiMemoryDescriptor) {after : List EfiMemoryDescriptor} {d : EfiMemoryDescriptor} {a n : Nat}
    (hmap : b.memoryMap = before ++ d :: after) (hbefore : ∀ e ∈ before, skipDMA e = none) (hu : d.type.usable = true)
    (hskip : skipDMA d = some (a, n)) (hn : n ≠ 0)
    (hmapped : (mapBitmaps b.filterAddress n ⟨b.tables, physicalMemoryMap.start, 0, a, n, 0⟩).1 = true) :
    ∃ s, setup b = some s := by
  have hskipped : ∀ (ds : List EfiMemoryDescriptor) (g : Progress), (∀ e ∈ ds, skipDMA e = none) →
      ds.foldl (setupDescriptor b.filterAddress) g = g := by
    intro ds
    induction ds with
    | nil => exact fun _ _ => rfl
    | cons e ds ih =>
      intro g h
      have he : setupDescriptor b.filterAddress g e = g := by
        unfold setupDescriptor
        rw [h e List.mem_cons_self]
        split <;> rfl
      rw [List.foldl_cons, he]
      exact ih g fun x hx => h x (List.mem_cons_of_mem _ hx)
  have hd : (setupDescriptor b.filterAddress b.progress d).bitmapsMapped = true := by
    unfold setupDescriptor
    rw [hu, hskip]
    simp only [Bool.not_true, Bool.false_eq_true, if_false, if_neg hn]
    generalize hr : mapBitmaps b.filterAddress n _ = r
    have hr' : mapBitmaps b.filterAddress n ⟨b.tables, physicalMemoryMap.start, 0, a, n, 0⟩ = r := hr
    rw [hr'] at hmapped
    simp [hmapped]
  have hall : (b.memoryMap.foldl (setupDescriptor b.filterAddress) b.progress).bitmapsMapped = true := by
    rw [hmap, List.foldl_append, hskipped before _ hbefore, List.foldl_cons]
    exact descriptors_stay b.filterAddress after _ hd
  unfold setup
  dsimp only
  rw [hall]
  exact ⟨_, rfl⟩

/-- The last descriptor is free when the others have held the bitmaps. -/
theorem last_free {b : Boot} {ds : List EfiMemoryDescriptor} {d : EfiMemoryDescriptor} {s s' : State}
    (halign : ∀ e ∈ ds, e.physicalStart % pageSize = 0) (hmap : b.memoryMap = ds ++ [d]) (hs : setup b = some s)
    (hs' : setup { b with memoryMap := ds } = some s') (hu : d.type.usable = true) (hd : dmaZone.limit ≤ d.physicalStart)
    (hn : d.numberOfPages ≠ 0) {p : Nat} (hp : Marked d.physicalStart d.numberOfPages p) : ¬ s.view.page p := by
  obtain ⟨hmapped, -⟩ := setup_eq hs'
  have hmarks := Boot.marks (b := { b with memoryMap := ds }) halign
  have hprogress : ({ b with memoryMap := ds } : Boot).progress = b.progress := rfl
  dsimp only at hmapped hmarks
  rw [hprogress] at hmapped hmarks
  obtain ⟨hmem, -⟩ := setupDescriptor_mapped b.filterAddress (hmarks.bytes hmapped) hmapped (hmarks.initialized.trans hmapped) hu hd hn
  obtain ⟨-, hpage⟩ := setup_eq hs
  rw [hpage, hmap, List.foldl_append, List.foldl_cons, List.foldl_nil, hmem, markFree_view]
  exact fun h => h.2 hp

/-! ## Page tables in usable memory -/

/-- A page of the loader's data, after the frames for the bitmaps. -/
def loaderPage : EfiMemoryDescriptor := ⟨.loaderData, 8192 * frameSize, 1, by decide⟩

/-- The first 512GB of the kernel have a page directory pointer table, in `loaderPage`. -/
def loaderTables : PageTables := { noTables with pml4e := setEntry noTables.pml4e (bitmapPage / 0x8000000) (8192 * frameSize) }

def loaderBoot : Boot where
  memoryMap := [bitmapFrames, loaderPage]
  tables := loaderTables
  filterAddress := filterAddress 36
  junk32MB := ⟨fun _ => 0#64, fun _ => 0#64⟩
  junk2MB := ⟨fun _ => 0#64, fun _ => 0#64⟩
  junk4KB := fun _ => 0#64

theorem mapBitmaps_loaderTables :
    let r := mapBitmaps (filterAddress 36) 2060 ⟨loaderTables, physicalMemoryMap.start, 0, dmaZone.limit, 2060, 0⟩
    r.1 = true ∧ r.2.bytesMapped ≥ totalMetadataSize ∧
      r.2.tables.pml4e (bitmapPage / 0x8000000) = some (8192 * frameSize) := by
  decide +kernel

theorem loaderBoot_ok : BootOk 36 loaderBoot where
  filter := rfl
  map := by
    refine ⟨fun d hd => ?_, ?_⟩
    · rcases List.mem_pair.mp hd with rfl | rfl <;> rfl
    · exact List.pairwise_pair.mpr (by decide)
  addressable d hd := by
    rcases List.mem_pair.mp hd with rfl | rfl <;> decide
  unmapped v _ _ := by
    unfold PageTables.frame
    exact if_neg fun h => Bool.false_ne_true h.2

/-- A second descriptor is freed when the first has held the bitmaps. -/
theorem setup_pair {b : Boot} {d e : EfiMemoryDescriptor} {g : Progress} (hmap : b.memoryMap = [d, e])
    (hg : setupDescriptor b.filterAddress b.progress d = g) (hmapped : g.bitmapsMapped = true)
    (hinit : g.bitmapsInitialized = true) (hbytes : totalMetadataSize ≤ g.bytesMapped) (hu : e.type.usable = true)
    (he : dmaZone.limit ≤ e.physicalStart) (hn : e.numberOfPages ≠ 0) :
    ∃ s, setup b = some s ∧ (∀ p, s.view.page p ↔ g.mem.view.page p ∧ ¬ Marked e.physicalStart e.numberOfPages p) ∧
      setupTables b = g.tables := by
  have hfold : b.memoryMap.foldl (setupDescriptor b.filterAddress) b.progress = setupDescriptor b.filterAddress g e := by
    rw [hmap, ← hg]
    rfl
  obtain ⟨hmem, hm⟩ := setupDescriptor_mapped b.filterAddress hbytes hmapped hinit hu he hn
  refine ⟨setFlags32MB (setFlags2MB (markFree g.mem e.physicalStart e.numberOfPages) bitmapEntries2MB) bitmapEntries32MB,
    ?_, fun p => ?_, ?_⟩
  · unfold setup
    dsimp only
    rw [hfold, hm, hmem]
    rfl
  · rw [setFlags32MB_view, setFlags2MB_view, markFree_view]
    rfl
  · rw [setupTables, hfold]
    have hskip : skipDMA e = some (e.physicalStart, e.numberOfPages) := if_neg (by omega)
    unfold setupDescriptor
    rw [hu, hskip]
    simp only [Bool.not_true, Bool.false_eq_true, if_false, if_neg hn]
    rw [mapBitmaps_done _ hbytes]
    simp [hmapped]

/-- `Setup` frees the page of the table it finds. -/
theorem setup_loaderBoot : ∃ s, setup loaderBoot = some s ∧ ¬ s.view.page 8192 ∧
    (setupTables loaderBoot).pml4e (bitmapPage / 0x8000000) = some (8192 * frameSize) := by
  obtain ⟨hmapped, hbytes, hpml4e⟩ := mapBitmaps_loaderTables
  obtain ⟨g, hg, hm, hi, hb, ht⟩ : ∃ g, setupDescriptor loaderBoot.filterAddress loaderBoot.progress bitmapFrames = g ∧
      g.bitmapsMapped = true ∧ g.bitmapsInitialized = true ∧ totalMetadataSize ≤ g.bytesMapped ∧
      g.tables.pml4e (bitmapPage / 0x8000000) = some (8192 * frameSize) := by
    refine ⟨_, rfl, ?_⟩
    unfold setupDescriptor
    rw [show bitmapFrames.type.usable = true from rfl,
      show skipDMA bitmapFrames = some (dmaZone.limit, 2060) from rfl]
    generalize hr : mapBitmaps (filterAddress 36) 2060 _ = r at hmapped hbytes hpml4e
    have hr' : mapBitmaps loaderBoot.filterAddress 2060 ⟨loaderBoot.progress.tables, loaderBoot.progress.bitmapVirtAddr,
      loaderBoot.progress.bytesMapped, dmaZone.limit, 2060, 0⟩ = r := hr
    simp only [Bool.not_true, Bool.false_eq_true, if_false, if_neg (show (2060 : Nat) ≠ 0 by omega)]
    rw [hr', hmapped]
    exact ⟨rfl, rfl, hbytes, hpml4e⟩
  obtain ⟨s, hs, hpage, htables⟩ := setup_pair (e := loaderPage) rfl hg hm hi hb rfl (by decide) (by decide)
  refine ⟨s, hs, fun h => ?_, by rw [htables]; exact ht⟩
  exact ((hpage 8192).mp h).2 ⟨by decide, by decide, by decide⟩

end BadLands.Mm.PhysicalMemory
