import BadLands.Mm.PagingEntries

/-!
# `MapPage`: one page and nothing else

`MapPage` walks the tables of an address through the primary window, adds the tables that
are missing, each linked before it is zeroed through the window, and writes the page's entry.
A frame for a table may be refused at every level.

`Tables` is the state it works on: the primary window is set up and, outside the windows,
every table is linked once. Adding a table changes no translation (`Link.translate`), so a
call that fails half-way changes none, and a call that succeeds changes the one of its page.
-/
namespace BadLands.Mm.Paging

open BadLands.Core BadLands.Core.PageTable BadLands.Mm.Layout

/-- mirrors kernel/src/mm/VirtualMemory.cpp:39-44 -/
inductive AccessPrivilege where
  | high
  | medium
  | low
  deriving DecidableEq, Repr

/-- One level: the table behind the entry at `entryPtr` is there already, or `page`, the
outcome of `PhysicalMemory::Allocate`, is linked and then zeroed at `tablePtr`. `false`: there
is no page.
mirrors kernel/src/mm/VirtualMemory.cpp:71-90,92-111,137-151 -/
def ensureTable (m : PhysMem) (root maxPhyAddr : Nat) (userMode : Bool) (setInfo : EntryInfo → Entry)
    (entryPtr tablePtr : Nat) (page : Option Entry) : Option (Bool × PhysMem) := do
  let e ← readVirtual m root entryPtr
  if flagSet e entryPresent then return (true, m)
  match page with
  | none => return (false, m)
  | some page =>
    let m ← writeVirtual m root entryPtr (setInfo (linkInfo userMode (filterAddress maxPhyAddr page)))
    let m ← zeroPage m root tablePtr
    return (true, m)

/-- The entry as `MapPage` first writes it: address, rights and `flags`. -/
def rawEntry (maxPhyAddr : Nat) (physicalAddress : Entry) (privilege : AccessPrivilege) (flags : Entry) :
    Entry :=
  (filterAddress maxPhyAddr physicalAddress &&& entryAddress) |||
    (if privilege = .low then entryUserMode else 0#64) ||| flags ||| entryReadWrite ||| entryPresent

/-- `MapPage<true>`; `page3`, `page2`, `page1`: the outcomes of the allocations of a PDPT, a PD
and a PT, should they be made.
mirrors kernel/src/mm/VirtualMemory.cpp:58-172 -/
def mapPage (m : PhysMem) (root maxPhyAddr : Nat) (physicalAddress : Entry) (virtualAddress : Nat)
    (privilege : AccessPrivilege) (huge : Bool) (page3 page2 page1 : Option Entry) :
    Option (Bool × PhysMem) :=
  if physicalAddress.toNat % frameSize ≠ 0 ∨ virtualAddress % frameSize ≠ 0 then some (false, m)
  else do
    let mapping := parseVirtualAddress virtualAddress
    let userMode := decide (privilege ≠ .high)
    let info := { linkInfo (decide (privilege = .low)) (filterAddress maxPhyAddr physicalAddress) with
      pageSize := huge }
    let (ok, m) ← ensureTable m root maxPhyAddr userMode setPML4EInfo
      (getPML4EAddress mapping true) (getPDPTAddress mapping true) page3
    if !ok then return (false, m)
    let (ok, m) ← ensureTable m root maxPhyAddr userMode setPDPTEInfo
      (getPDPTEAddress mapping true) (getPDAddress mapping true) page2
    if !ok then return (false, m)
    if huge then
      let pde := getPDEAddress mapping true
      let m ← writeVirtual m root pde (rawEntry maxPhyAddr physicalAddress privilege entryPageSize)
      let m ← writeVirtual m root pde (setPDEInfo info)
      return (true, m)
    let (ok, m) ← ensureTable m root maxPhyAddr userMode setPDEInfo
      (getPDEAddress mapping true) (getPTAddress mapping true) page1
    if !ok then return (false, m)
    let pte := getPTEAddress mapping true
    let m ← writeVirtual m root pte (rawEntry maxPhyAddr physicalAddress privilege 0#64)
    let m ← writeVirtual m root pte (setPTEInfo info)
    return (true, m)

/-! ## The tables -/

/-- The root entries of the two windows. -/
def windows : Windows := fun i => i = windowIndex true ∨ i = windowIndex false

instance : DecidablePred windows := fun i => inferInstanceAs (Decidable (i = _ ∨ i = _))

structure Tables (m : PhysMem) (root : Nat) : Prop where
  tree : Tree m root windows
  window : Window m root root true

/-- No large page is on the way of `va`. -/
def NoLarge (m : PhysMem) (root va : Nat) : Prop :=
  ∀ n t, Reach m va 3 root n t → 1 ≤ n → (m (slot t n va)).present = true →
    (m (slot t n va)).large = false

/-- A frame as `PhysicalMemory::Allocate` returns it: its address has the implemented bits
only, and it is not a table of the tree. -/
def GoodPage (m : PhysMem) (root maxPhyAddr : Nat) (page : Entry) : Prop :=
  filterAddress maxPhyAddr page &&& entryAddress = page ∧ Fresh m root windows page.toNat

section
variable {m m' : PhysMem} {root va : Nat}

/-- The window's own entry is not one that a walk outside the windows reads. -/
theorem window_kept (h : Tables m root) {n t : Nat} {F : Nat → Prop} (hva : Outside windows va)
    (ht : Reach m va 3 root n t) (hF : ∀ f, F f → Fresh m root windows f)
    (hm : SameBut m m' (slot t n va) F) : Window m' root root true := by
  have hsame : m' (root + 8 * windowIndex true) = m (root + 8 * windowIndex true) := by
    have hwi := windowIndex_lt true
    have ha := h.tree.aligned
    apply hm
    · intro he
      have hta := ht.aligned ha
      have hi := index_lt n va
      have hroot : t = root ∧ index n va = windowIndex true := by
        unfold slot at he
        omega
      obtain ⟨rfl, hidx⟩ := hroot
      obtain ⟨rfl, -⟩ := h.tree.once va va n 3 t hva hva ht (.here _ _)
      exact hva (.inl hidx)
    · intro f hf hin
      have hfresh := hF f hf
      have hfa := hfresh.aligned
      have hne := hfresh.unused va 3 root hva (.here _ _)
      omega
  have hw := h.window
  unfold Window at hw ⊢
  rw [if_pos rfl] at hw ⊢
  rw [hsame]
  exact hw

/-- The entry is linked, whatever the new table holds. -/
theorem reach_linked {tgt : Nat} {W : Windows} (h : Tree m tgt W) {n t f : Nat} (hva : Outside W va)
    (ht : Reach m va 3 tgt (n + 1) t) (hf : Fresh m tgt W f)
    (hm : SameBut m m' (slot t (n + 1) va) (· = f)) (hp : PointsTo (m' (slot t (n + 1) va)) f) :
    Reach m' va 3 tgt n f := by
  have hpages : ∀ g, g = f → Fresh m tgt W g := by
    rintro g rfl
    exact hf
  have htop := (h.reach_above hpages hva hva ht hm (Nat.le_refl _)).mpr ht
  have hnext := htop.next hp.1
  rwa [hp.2] at hnext

/-! ## One level -/

/-- What a step of `MapPage` on the way to `va` keeps: the tables, the absence of large pages,
every translation, and the frames that were not given to it. -/
structure Kept (m m' : PhysMem) (root va : Nat) (page : Option Entry) : Prop where
  tables : Tables m' root
  noLarge : NoLarge m' root va
  same : ∀ a, Outside windows a → translation m' root a = translation m root a
  fresh : ∀ g, Fresh m root windows g → (∀ p, page = some p → g ≠ p.toNat) → Fresh m' root windows g

theorem Kept.refl (h : Tables m root) (hlarge : NoLarge m root va) (page : Option Entry) :
    Kept m m root va page :=
  ⟨h, hlarge, fun _ _ => rfl, fun _ hg _ => hg⟩

theorem link_noLarge {W : Windows} {a n t f : Nat} (h : Tree m root W) (hl : Link m m' root W va n t f)
    (ha : Outside W a) (hlarge : NoLarge m root a) : NoLarge m' root a := by
  intro k u hr hk hp
  rw [hl.reach_iff h ha] at hr
  rcases hr with hr | ⟨rfl, rfl, -⟩
  · rcases h.reads hl.pages ha hl.outside hl.reach hl.same hr with ⟨rfl, rfl, hpath⟩ | he
    · have hslot : slot u (n + 1) a = slot u (n + 1) va := by
        unfold slot
        rw [hpath (n + 1) (Nat.le_refl _) hl.reach.le]
      rw [hslot]
      exact hl.links.2
    · rw [he] at hp ⊢
      exact hlarge k u hr hk hp
  · rw [zero_absent hl.zero] at hp
    cases hp

theorem kept_of_link {n t : Nat} {page : Entry} (h : Tables m root) (hlarge : NoLarge m root va)
    (hl : Link m m' root windows va n t page.toNat) : Kept m m' root va (some page) where
  tables := ⟨hl.tree h.tree, window_kept h hl.outside hl.reach hl.pages hl.same⟩
  noLarge := link_noLarge h.tree hl hl.outside hlarge
  same _ ha := hl.translate h.tree ha
  fresh _ hg hne := hl.fresh_other h.tree hg (hne page rfl)

/-- The pointers `ensureTable` is called with, for the entry of level `n + 1` of `va`, through either window. -/
structure PointersAt (cur tgt : Nat) (u : Bool) (va n entryPtr tablePtr : Nat) : Prop where
  entry : ∀ (m : PhysMem) t, Window m cur tgt u → Reach m va 3 tgt (n + 1) t →
    translation m cur entryPtr = some (slot t (n + 1) va)
  table : ∀ (m : PhysMem) f, Window m cur tgt u → Reach m va 3 tgt n f → ∀ k, k < 4096 →
    translation m cur (tablePtr + k) = some (f + k)

/-- The pointers of the primary window. -/
structure Pointers (root va n entryPtr tablePtr : Nat) : Prop where
  entry : ∀ (m : PhysMem) t, Window m root root true → Reach m va 3 root (n + 1) t →
    translation m root entryPtr = some (slot t (n + 1) va)
  table : ∀ (m : PhysMem) f, Window m root root true → Reach m va 3 root n f → ∀ k, k < 4096 →
    translation m root (tablePtr + k) = some (f + k)

/-- Linking and zeroing through a window. -/
theorem link_zero {cur tgt : Nat} {W : Windows} {u : Bool} {n t entryPtr tablePtr f : Nat} {e : Entry}
    (h : Tree m tgt W) (hw : Window m cur tgt u) (hva : Outside W va) (ht : Reach m va 3 tgt (n + 1) t)
    (habsent : (m (slot t (n + 1) va)).present = false) (hfresh : Fresh m tgt W f)
    (hptr : PointersAt cur tgt u va n entryPtr tablePtr)
    (hkeep : ∀ m', SameBut m m' (slot t (n + 1) va) (· = f) → Window m' cur tgt u) (he : PointsTo e f) :
    ∃ m', (writeVirtual m cur entryPtr e).bind (fun m => zeroPage m cur tablePtr) = some m' ∧
      Link m m' tgt W va n t f := by
  have hslot : ¬ (f ≤ slot t (n + 1) va ∧ slot t (n + 1) va < f + 4096) := by
    have h1 := ht.aligned h.aligned
    have h2 := hfresh.aligned
    have h3 := index_lt (n + 1) va
    have h4 := hfresh.unused va (n + 1) t hva ht
    unfold slot
    omega
  -- what holds while the new table is being zeroed
  have hwhile : ∀ m', (∀ q, ¬ (f ≤ q ∧ q < f + 4096) → m' q = update m (slot t (n + 1) va) e q) →
      SameBut m m' (slot t (n + 1) va) (· = f) ∧ PointsTo (m' (slot t (n + 1) va)) f := by
    intro m' hm'
    constructor
    · intro q hq hf
      rw [hm' q (hf _ rfl)]
      exact if_neg hq
    · rw [hm' _ hslot, update, if_pos rfl]
      exact he
  obtain ⟨m', hrun, hzero, hrest⟩ := zeroPage_spec (update m (slot t (n + 1) va) e) cur tablePtr f (by
    intro m' hm' j hj
    obtain ⟨hsame, hpoints⟩ := hwhile m' hm'
    exact hptr.table m' _ (hkeep m' hsame) (reach_linked h hva ht hfresh hsame hpoints) _ (by omega))
  obtain ⟨hsame, hpoints⟩ := hwhile m' hrest
  refine ⟨m', ?_, hva, ht, habsent, hfresh, hsame, hpoints.1, hpoints.2, hzero⟩
  unfold writeVirtual
  rw [hptr.entry m t hw ht, Option.map_some, Option.bind_some]
  exact hrun

theorem link_pointsTo {userMode : Bool} {setInfo : EntryInfo → Entry} {maxPhyAddr : Nat} {page : Entry}
    (hset : setInfo (linkInfo userMode (filterAddress maxPhyAddr page)) =
      withFlag 3#64 entryUserMode userMode ||| (filterAddress maxPhyAddr page &&& entryAddress))
    (hbits : filterAddress maxPhyAddr page &&& entryAddress = page) :
    PointsTo (setInfo (linkInfo userMode (filterAddress maxPhyAddr page))) page.toNat := by
  obtain ⟨hlinks, hframe⟩ := link_entry userMode (filterAddress maxPhyAddr page)
  rw [hset]
  exact ⟨hlinks, by rw [hframe, hbits]⟩

/-- What one level does, through either window: nothing, or it links a table where there was none. -/
theorem ensureTable_at {cur tgt : Nat} {W : Windows} {u : Bool} {n t maxPhyAddr entryPtr tablePtr : Nat}
    {userMode : Bool} {setInfo : EntryInfo → Entry} {page : Option Entry} (h : Tree m tgt W)
    (hw : Window m cur tgt u) (hva : Outside W va) (ht : Reach m va 3 tgt (n + 1) t)
    (hptr : PointersAt cur tgt u va n entryPtr tablePtr)
    (hset : ∀ a, setInfo (linkInfo userMode a) = withFlag 3#64 entryUserMode userMode ||| (a &&& entryAddress))
    (hpage : ∀ p, page = some p → filterAddress maxPhyAddr p &&& entryAddress = p ∧ Fresh m tgt W p.toNat ∧
      ∀ m', SameBut m m' (slot t (n + 1) va) (· = p.toNat) → Window m' cur tgt u) :
    ∃ ok m', ensureTable m cur maxPhyAddr userMode setInfo entryPtr tablePtr page = some (ok, m') ∧
      ((m' = m ∧ (m (slot t (n + 1) va)).present = ok ∧ (ok = false → page = none)) ∨
        (ok = true ∧ ∃ p, page = some p ∧ Link m m' tgt W va n t p.toNat)) := by
  have hread : readVirtual m cur entryPtr = some (m (slot t (n + 1) va)) := by
    unfold readVirtual
    rw [hptr.entry m t hw ht]
    rfl
  unfold ensureTable
  rw [hread]
  simp only [Option.bind_eq_bind, Option.bind_some, present_iff]
  cases hp : (m (slot t (n + 1) va)).present with
  | true => exact ⟨true, m, by simp only [if_true]; rfl, .inl ⟨rfl, rfl, fun hok => by cases hok⟩⟩
  | false =>
    cases page with
    | none => exact ⟨false, m, by simp only [Bool.false_eq_true, if_false]; rfl, .inl ⟨rfl, rfl, fun _ => rfl⟩⟩
    | some page =>
      obtain ⟨hbits, hfresh, hkeep⟩ := hpage page rfl
      obtain ⟨m', hrun, hlink⟩ := link_zero h hw hva ht hp hfresh hptr hkeep (link_pointsTo (hset _) hbits)
      refine ⟨true, m', ?_, .inr ⟨rfl, page, rfl, hlink⟩⟩
      simp only [Bool.false_eq_true, if_false]
      rw [Option.bind_eq_some_iff] at hrun
      obtain ⟨m₁, hwrite, hzero⟩ := hrun
      rw [hwrite, Option.bind_some, hzero]
      rfl

/-- Through the primary window. -/
theorem ensureTable_cases {n t maxPhyAddr entryPtr tablePtr : Nat} {userMode : Bool}
    {setInfo : EntryInfo → Entry} {page : Option Entry} (h : Tables m root) (hva : Outside windows va)
    (ht : Reach m va 3 root (n + 1) t) (hptr : Pointers root va n entryPtr tablePtr)
    (hset : ∀ a, setInfo (linkInfo userMode a) =
      withFlag 3#64 entryUserMode userMode ||| (a &&& entryAddress))
    (hpage : ∀ p, page = some p → GoodPage m root maxPhyAddr p) :
    ∃ ok m', ensureTable m root maxPhyAddr userMode setInfo entryPtr tablePtr page = some (ok, m') ∧
      ((m' = m ∧ (m (slot t (n + 1) va)).present = ok ∧ (ok = false → page = none)) ∨
        (ok = true ∧ ∃ p, page = some p ∧ Link m m' root windows va n t p.toNat)) := by
  refine ensureTable_at h.tree h.window hva ht ⟨hptr.entry, hptr.table⟩ hset fun p hp => ?_
  obtain ⟨hbits, hfresh⟩ := hpage p hp
  refine ⟨hbits, hfresh, fun m' hm => window_kept h hva ht (fun f hf => ?_) hm⟩
  rw [hf]
  exact hfresh

theorem ensureTable_spec {n t maxPhyAddr entryPtr tablePtr : Nat} {userMode : Bool}
    {setInfo : EntryInfo → Entry} {page : Option Entry} (h : Tables m root) (hva : Outside windows va)
    (hlarge : NoLarge m root va) (ht : Reach m va 3 root (n + 1) t)
    (hptr : Pointers root va n entryPtr tablePtr)
    (hset : ∀ a, setInfo (linkInfo userMode a) =
      withFlag 3#64 entryUserMode userMode ||| (a &&& entryAddress))
    (hpage : ∀ p, page = some p → GoodPage m root maxPhyAddr p) :
    ∃ ok m', ensureTable m root maxPhyAddr userMode setInfo entryPtr tablePtr page = some (ok, m') ∧
      Kept m m' root va page ∧ (ok = true → ∃ u, Reach m' va 3 root n u) ∧ (ok = false → page = none) := by
  obtain ⟨ok, m', hrun, hcase⟩ := ensureTable_cases h hva ht hptr hset hpage
  refine ⟨ok, m', hrun, ?_⟩
  rcases hcase with ⟨rfl, hp, hnone⟩ | ⟨rfl, p, rfl, hlink⟩
  · refine ⟨.refl h hlarge page, fun hok => ?_, hnone⟩
    exact ⟨_, ht.next ⟨hp.trans hok, hlarge (n + 1) t ht (by omega) (hp.trans hok)⟩⟩
  · refine ⟨kept_of_link h hlarge hlink, fun _ => ?_, fun hok => by cases hok⟩
    exact ⟨_, (hlink.reach_iff h.tree hva).mpr (.inr ⟨rfl, rfl, fun _ _ _ => rfl⟩)⟩

section
variable {cur tgt : Nat} {u : Bool}

theorem pointersAt_pdpt : PointersAt cur tgt u va 2 (getPML4EAddress (parseVirtualAddress va) u)
    (getPDPTAddress (parseVirtualAddress va) u) where
  entry _ _ hw ht := by
    rw [reach_top ht]
    exact pml4ePointer hw
  table _ _ hw hf _ hk := pdptPointer hw hf hk

theorem pointersAt_pd : PointersAt cur tgt u va 1 (getPDPTEAddress (parseVirtualAddress va) u)
    (getPDAddress (parseVirtualAddress va) u) where
  entry _ _ hw ht := pdptePointer hw ht
  table _ _ hw hf _ hk := pdPointer hw hf hk

theorem pointersAt_pt : PointersAt cur tgt u va 0 (getPDEAddress (parseVirtualAddress va) u)
    (getPTAddress (parseVirtualAddress va) u) where
  entry _ _ hw ht := pdePointer hw ht
  table _ _ hw hf _ hk := ptPointer hw hf hk

end

theorem pointers_pdpt : Pointers root va 2 (getPML4EAddress (parseVirtualAddress va) true)
    (getPDPTAddress (parseVirtualAddress va) true) := ⟨pointersAt_pdpt.entry, pointersAt_pdpt.table⟩

theorem pointers_pd : Pointers root va 1 (getPDPTEAddress (parseVirtualAddress va) true)
    (getPDAddress (parseVirtualAddress va) true) := ⟨pointersAt_pd.entry, pointersAt_pd.table⟩

theorem pointers_pt : Pointers root va 0 (getPDEAddress (parseVirtualAddress va) true)
    (getPTAddress (parseVirtualAddress va) true) := ⟨pointersAt_pt.entry, pointersAt_pt.table⟩

/-- A page that is no table is no part of the tables. -/
theorem fresh_tables {f : Nat} (h : Tables m root) (hf : Fresh m root windows f)
    (hm : ∀ q, ¬ (f ≤ q ∧ q < f + 4096) → m' q = m q) : Tables m' root where
  tree := by
    refine ⟨h.tree.aligned, fun a a' n n' u ha ha' hr hr' => ?_⟩
    rw [hf.reach_iff h.tree hm ha] at hr
    rw [hf.reach_iff h.tree hm ha'] at hr'
    exact h.tree.once a a' n n' u ha ha' hr hr'
  window := by
    have hroot : Outside windows 0 := by
      unfold Outside windows
      decide
    have hne := hf.unused 0 3 root hroot (.here _ _)
    have h1 := hf.aligned
    have h2 := h.tree.aligned
    have hw := h.window
    have hwi := windowIndex_lt true
    unfold Window at hw ⊢
    rw [if_pos rfl] at hw ⊢
    rw [hm _ (by omega)]
    exact hw

/-! ## The page's entry -/

/-- An entry that leads to no table, before and after, is no part of the tables. -/
theorem dead_tables {n t : Nat} (h : Tables m root) (hva : Outside windows va) (ht : Reach m va 3 root n t)
    (hbut : SameBut m m' (slot t n va) fun _ => False)
    (hdead : n = 0 ∨ ¬ (m (slot t n va)).Links ∧ ¬ (m' (slot t n va)).Links) : Tables m' root where
  tree := by
    refine ⟨h.tree.aligned, fun a a' k k' u ha ha' hr hr' => ?_⟩
    rw [h.tree.reach_dead ha hva ht hbut hdead] at hr
    rw [h.tree.reach_dead ha' hva ht hbut hdead] at hr'
    exact h.tree.once a a' k k' u ha ha' hr hr'
  window := window_kept h hva ht (fun _ hf => hf.elim) hbut

/-- The entry of a page is no part of the tables. -/
theorem leaf_tables {t : Nat} (h : Tables m root) (hva : Outside windows va) (ht : Reach m va 3 root 0 t)
    (hbut : SameBut m m' (slot t 0 va) fun _ => False) : Tables m' root := dead_tables h hva ht hbut (.inl rfl)

/-- Both writes of the entry hit the same word. -/
theorem write_leaf {t : Nat} (h : Tables m root) (hva : Outside windows va)
    (ht : Reach m va 3 root 0 t) (e₁ e₂ : Entry) :
    (writeVirtual m root (getPTEAddress (parseVirtualAddress va) true) e₁).bind
        (fun m => writeVirtual m root (getPTEAddress (parseVirtualAddress va) true) e₂) =
      some (update (update m (slot t 0 va) e₁) (slot t 0 va) e₂) := by
  have hsame : SameBut m (update m (slot t 0 va) e₁) (slot t 0 va) fun _ => False :=
    fun q hq _ => if_neg hq
  have hw' := window_kept h hva ht (fun _ hf => hf.elim) hsame
  have ht' := (leaf_reach h.tree hva ht hsame hva).mpr ht
  unfold writeVirtual
  rw [ptePointer h.window ht, Option.map_some, Option.bind_some, ptePointer hw' ht']
  rfl

end

/-- What `MapPage` promises of the memory it leaves: the page is mapped, or nothing is
different. -/
structure Mapped (m m' : PhysMem) (root maxPhyAddr : Nat) (physicalAddress : Entry)
    (virtualAddress : Nat) (ok : Bool) : Prop where
  page : ok = true → ∀ a, a / 4096 = virtualAddress / 4096 → translation m' root a =
    some ((filterAddress maxPhyAddr physicalAddress &&& entryAddress).toNat + a % 4096)
  others : ∀ a, Outside windows a → a / 4096 ≠ virtualAddress / 4096 →
    translation m' root a = translation m root a
  failed : ok = false → ∀ a, a / 4096 = virtualAddress / 4096 → translation m' root a = translation m root a
  tables : Tables m' root

theorem index_page {a v : Nat} (h : a / 4096 = v / 4096) (n : Nat) : index n a = index n v := by
  unfold index
  rw [Nat.pow_add, ← Nat.div_div_eq_div_mul, ← Nat.div_div_eq_div_mul]
  simp only [Nat.reducePow, h]

theorem canonical_page {a v : Nat} (h : a / 4096 = v / 4096) (hv : Canonical v) : Canonical a := by
  unfold Canonical at hv ⊢
  omega

section
variable {m m₁ m₂ m₃ : PhysMem} {root maxPhyAddr va : Nat} {page page' : Option Entry}

/-- A page that is not the one just given away is as good as before. -/
theorem GoodPage.kept {p : Entry} (h : GoodPage m root maxPhyAddr p)
    (hk : Kept m m₁ root va page) (hne : ∀ q, page = some q → p ≠ q) :
    GoodPage m₁ root maxPhyAddr p :=
  ⟨h.1, hk.fresh _ h.2 fun q hq he => hne q hq (BitVec.eq_of_toNat_eq he)⟩

/-- A call that ends without a page. -/
theorem mapped_failed {physicalAddress : Entry} (ht : Tables m₁ root)
    (hva : Outside windows va)
    (hsame : ∀ a, Outside windows a → translation m₁ root a = translation m root a) :
    Mapped m m₁ root maxPhyAddr physicalAddress va false where
  page h := by cases h
  others a ha _ := hsame a ha
  failed _ a ha := hsame a (by
    unfold Outside
    rw [index_page ha]
    exact hva)
  tables := ht

/-- The last step: the page's entry is written. -/
theorem mapped_leaf {t : Nat} (physicalAddress e₁ : Entry) (userMode : Bool) (h : Tables m₁ root)
    (hcan : Canonical va) (hva : Outside windows va) (ht : Reach m₁ va 3 root 0 t)
    (hsame : ∀ a, Outside windows a → translation m₁ root a = translation m root a) :
    Mapped m (update (update m₁ (slot t 0 va) e₁) (slot t 0 va)
      (setPTEInfo (linkInfo userMode (filterAddress maxPhyAddr physicalAddress)))) root maxPhyAddr
      physicalAddress va true := by
  have hbut : SameBut m₁ (update (update m₁ (slot t 0 va) e₁) (slot t 0 va)
      (setPTEInfo (linkInfo userMode (filterAddress maxPhyAddr physicalAddress)))) (slot t 0 va)
      fun _ => False := by
    intro q hq _
    rw [update, if_neg hq, update, if_neg hq]
  obtain ⟨hlinks, hframe⟩ := link_entry userMode (filterAddress maxPhyAddr physicalAddress)
  rw [← setPTEInfo_link] at hlinks hframe
  have hentry : update (update m₁ (slot t 0 va) e₁) (slot t 0 va)
      (setPTEInfo (linkInfo userMode (filterAddress maxPhyAddr physicalAddress))) (slot t 0 va) =
      setPTEInfo (linkInfo userMode (filterAddress maxPhyAddr physicalAddress)) := if_pos rfl
  refine ⟨fun _ a ha => ?_, fun a ha hne => ?_, (fun hok => by cases hok), leaf_tables h hva ht hbut⟩
  · have hout : Outside windows a := by
      unfold Outside
      rw [index_page ha]
      exact hva
    rw [leaf_translate h.tree hva ht hbut (by rw [hentry]; exact hlinks.1) (canonical_page ha hcan)
      hout (fun n _ _ => index_page ha n), hentry, hframe]
  · rw [← hsame a ha]
    by_cases hc : Canonical a
    · exact leaf_translate_other h.tree hva ht hbut ha fun hp => hne (samePath_page hc hcan hp)
    · unfold translation
      rw [if_neg hc, if_neg hc]

end

/-- `MapPage` on a page table whose recursive entry is valid, for page-aligned addresses, a
virtual address outside the windows and not under a large page, and frames that are no tables
yet: it returns, the page is mapped if it reports success, every other page keeps its
translation, and so does the page if it reports failure. It succeeds when all frames are granted. -/
theorem mapPage_maps_one_page (m : PhysMem) (root maxPhyAddr : Nat) (physicalAddress : Entry)
    (virtualAddress : Nat) (privilege : AccessPrivilege) (page3 page2 page1 : Option Entry)
    (h : Tables m root) (hphys : physicalAddress.toNat % 4096 = 0) (hvirt : virtualAddress % 4096 = 0)
    (hcan : Canonical virtualAddress) (hva : Outside windows virtualAddress)
    (hlarge : NoLarge m root virtualAddress)
    (h3 : ∀ p, page3 = some p → GoodPage m root maxPhyAddr p)
    (h2 : ∀ p, page2 = some p → GoodPage m root maxPhyAddr p ∧ ∀ q, page3 = some q → p ≠ q)
    (h1 : ∀ p, page1 = some p → GoodPage m root maxPhyAddr p ∧ (∀ q, page3 = some q → p ≠ q) ∧
      ∀ q, page2 = some q → p ≠ q) :
    ∃ ok m', mapPage m root maxPhyAddr physicalAddress virtualAddress privilege false page3 page2 page1 =
        some (ok, m') ∧ Mapped m m' root maxPhyAddr physicalAddress virtualAddress ok ∧
      (ok = false → page3 = none ∨ page2 = none ∨ page1 = none) := by
  obtain ⟨ok₃, m₃, hrun₃, hk₃, hr₃, hn₃⟩ := ensureTable_spec (n := 2) h hva hlarge (.here _ _) pointers_pdpt
    (setPML4EInfo_link (decide (privilege ≠ .high))) h3
  unfold mapPage
  rw [if_neg (by rw [show frameSize = 4096 from rfl]; omega)]
  simp only [Option.bind_eq_bind, hrun₃, Option.bind_some]
  cases ok₃ with
  | false => exact ⟨false, m₃, rfl, mapped_failed hk₃.tables hva hk₃.same, fun _ => .inl (hn₃ rfl)⟩
  | true =>
    obtain ⟨t₂, ht₂⟩ := hr₃ rfl
    obtain ⟨ok₂, m₂, hrun₂, hk₂, hr₂, hn₂⟩ := ensureTable_spec (n := 1) hk₃.tables hva hk₃.noLarge ht₂
      pointers_pd (setPDPTEInfo_link (decide (privilege ≠ .high)))
      (fun p hp => (h2 p hp).1.kept hk₃ (h2 p hp).2)
    have hsame₂ : ∀ a, Outside windows a → translation m₂ root a = translation m root a :=
      fun a ha => (hk₂.same a ha).trans (hk₃.same a ha)
    simp only [Bool.not_true, Bool.false_eq_true, if_false, hrun₂, Option.bind_some]
    cases ok₂ with
    | false => exact ⟨false, m₂, rfl, mapped_failed hk₂.tables hva hsame₂, fun _ => .inr (.inl (hn₂ rfl))⟩
    | true =>
      obtain ⟨t₁, ht₁⟩ := hr₂ rfl
      obtain ⟨ok₁, m₁, hrun₁, hk₁, hr₁, hn₁⟩ := ensureTable_spec (n := 0) hk₂.tables hva hk₂.noLarge ht₁
        pointers_pt (setPDEInfo_link (decide (privilege ≠ .high)))
        (fun p hp => ((h1 p hp).1.kept hk₃ (h1 p hp).2.1).kept hk₂ (h1 p hp).2.2)
      have hsame₁ : ∀ a, Outside windows a → translation m₁ root a = translation m root a :=
        fun a ha => (hk₁.same a ha).trans (hsame₂ a ha)
      simp only [Bool.not_true, Bool.false_eq_true, if_false, hrun₁, Option.bind_some]
      cases ok₁ with
      | false => exact ⟨false, m₁, rfl, mapped_failed hk₁.tables hva hsame₁, fun _ => .inr (.inr (hn₁ rfl))⟩
      | true =>
        obtain ⟨t₀, ht₀⟩ := hr₁ rfl
        have hwrite := write_leaf hk₁.tables hva ht₀
          (rawEntry maxPhyAddr physicalAddress privilege 0#64)
          (setPTEInfo (linkInfo (decide (privilege = .low)) (filterAddress maxPhyAddr physicalAddress)))
        rw [Option.bind_eq_some_iff] at hwrite
        obtain ⟨m', hw₁, hw₂⟩ := hwrite
        refine ⟨true, _, ?_, mapped_leaf physicalAddress (rawEntry maxPhyAddr physicalAddress privilege 0#64)
          (decide (privilege = .low)) hk₁.tables hcan hva ht₀ hsame₁, fun hok => by cases hok⟩
        simp only [Bool.not_true, Bool.false_eq_true, if_false, hw₁, Option.bind_some]
        exact congrArg (Option.bind · _) hw₂

/-- A root at `0x1000` that maps nothing but its own window. -/
def emptyRoot : PhysMem := fun p => if p = 0x1000 + 8 * 510 then 0x1003#64 else 0#64

theorem charted_emptyRoot : Charted emptyRoot 0x1000 windows [(0x1000, [])] :=
  ⟨by decide, by decide, by decide, by decide +kernel⟩

theorem reach_emptyRoot {va n t : Nat} (hva : Outside windows va)
    (h : Reach emptyRoot va 3 0x1000 n t) : n = 3 ∧ t = 0x1000 := by
  obtain ⟨ht, hpath⟩ := Prod.mk.inj (List.mem_singleton.mp (charted_emptyRoot.reach hva h))
  exact ⟨(samePath_of_indices h.le (Nat.le_refl 3) (show indices va n = indices va 3 from hpath)).1, ht⟩

theorem tables_emptyRoot : Tables emptyRoot 0x1000 := ⟨charted_emptyRoot.tree, by decide⟩

theorem goodPage_emptyRoot {page : Entry} (hbits : filterAddress 48 page &&& entryAddress = page)
    (ha : page.toNat % 4096 = 0) (hne : page.toNat ≠ 0x1000) : GoodPage emptyRoot 0x1000 48 page :=
  ⟨hbits, ha, fun va n t hva h => by
    obtain ⟨-, rfl⟩ := reach_emptyRoot hva h
    exact hne.symm⟩

theorem mapPage_maps_one_page_of_empty : ∃ m', mapPage emptyRoot 0x1000 48 0x9000#64 0x400000 .low false
    (some 0x2000#64) (some 0x3000#64) (some 0x4000#64) = some (true, m') ∧
      Mapped emptyRoot m' 0x1000 48 0x9000#64 0x400000 true := by
  have hva : Outside windows 0x400000 := by
    unfold Outside windows
    decide
  have hlarge : NoLarge emptyRoot 0x1000 0x400000 := fun n t h _ hp => by
    obtain ⟨rfl, rfl⟩ := reach_emptyRoot hva h
    revert hp
    decide
  obtain ⟨ok, m', hrun, hmapped, hfailed⟩ := mapPage_maps_one_page emptyRoot 0x1000 48 0x9000#64 0x400000 .low
    (some 0x2000#64) (some 0x3000#64) (some 0x4000#64) tables_emptyRoot (by decide) (by decide) (by decide) hva hlarge
    (fun p hp => by
      cases hp
      exact goodPage_emptyRoot (by decide) (by decide) (by decide))
    (fun p hp => by
      cases hp
      refine ⟨goodPage_emptyRoot (by decide) (by decide) (by decide), fun q hq => ?_⟩
      cases hq
      decide)
    (fun p hp => by
      cases hp
      refine ⟨goodPage_emptyRoot (by decide) (by decide) (by decide), fun q hq => ?_, fun q hq => ?_⟩ <;>
      · cases hq
        decide)
  obtain rfl : ok = true := Bool.of_not_eq_false fun hok => by
    rcases hfailed hok with hnone | hnone | hnone <;> cases hnone
  exact ⟨m', hrun, hmapped⟩

end BadLands.Mm.Paging
