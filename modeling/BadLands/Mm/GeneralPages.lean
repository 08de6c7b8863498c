import BadLands.Mm.MapPage

/-!
# The general mapping window

`MapGeneralPages` scans the window for the first run of pages that are not mapped, adding the
tables it meets on the way, and maps the run to consecutive frames. `mapGeneralPages_spec`: it
returns for every state of the tables; if it finds a run, that is the first one of the state
before, its pages are mapped to the frames and every other translation is as before; if it
does not, or if a table cannot be allocated, no translation changes.
-/
namespace BadLands.Mm.Paging

open BadLands.Core BadLands.Core.PageTable BadLands.Mm.Layout

/-- `GP_PAGES`. -/
def gpPages : Nat := generalMapping.limit / Layout.pageSize

/-- The address of page `i` of the window. -/
def generalPage (i : Nat) : Nat := generalMapping.start + i * Layout.pageSize

/-- The entry for a table. -/
def generalLink (info : EntryInfo) : Entry :=
  (info.address &&& entryAddress) ||| entryReadWrite ||| entryPresent

/-- The tables of the page at `address`; `pd`, `pt`: the outcomes of the allocations of a PD
and a PT, should they be made.
mirrors kernel/src/mm/VirtualMemory.cpp:890-927 -/
def ensureGeneral (m : PhysMem) (root maxPhyAddr address : Nat) (pd pt : Option Entry) :
    Option (Bool × PhysMem) := do
  let mapping := parseVirtualAddress address
  let (ok, m) ← ensureTable m root maxPhyAddr false generalLink
    (getPDPTEAddress mapping true) (getPDAddress mapping true) pd
  if !ok then return (false, m)
  ensureTable m root maxPhyAddr false generalLink
    (getPDEAddress mapping true) (getPTAddress mapping true) pt

/-- The entry for a page. -/
def generalEntry (maxPhyAddr : Nat) (physicalAddress flags : Entry) : Entry :=
  (filterAddress maxPhyAddr physicalAddress &&& entryAddress) ||| flags ||| entryPresent

/-- The inner `for` with `k` pages left.
mirrors kernel/src/mm/VirtualMemory.cpp:941-950 -/
def writePages (root maxPhyAddr : Nat) (flags : Entry) : Nat → Nat → Entry → PhysMem → Option PhysMem
  | 0, _, _, m => some m
  | k + 1, address, physicalAddress, m =>
    (writeVirtual m root (getPTEAddress (parseVirtualAddress address) true)
      (generalEntry maxPhyAddr physicalAddress flags)).bind
      (writePages root maxPhyAddr flags k (address + Layout.pageSize) (physicalAddress + 0x1000#64))

/-- The outer `for` with `k` pages left, the next one `i`; `allocs i`: the outcomes of the
allocations that page `i` may need.
mirrors kernel/src/mm/VirtualMemory.cpp:889-959 -/
def mapGeneralLoop (root maxPhyAddr : Nat) (pageAddress : Entry) (pages : Nat) (flags : Entry)
    (allocs : Nat → Option Entry × Option Entry) :
    Nat → Nat → Nat → Nat → PhysMem → Option (Option Nat × PhysMem)
  | 0, _, _, _, m => some (none, m)
  | k + 1, i, found, start, m => do
    let address := generalPage i
    let (ok, m) ← ensureGeneral m root maxPhyAddr address (allocs i).1 (allocs i).2
    if !ok then return (none, m)
    let pte ← readVirtual m root (getPTEAddress (parseVirtualAddress address) true)
    if !(getPTEInfo pte).present then
      let start := if found = 0 then address else start
      if found + 1 = pages then
        let m ← writePages root maxPhyAddr flags pages start pageAddress m
        return (some (start + pageAddress.toNat % Layout.pageSize), m)
      mapGeneralLoop root maxPhyAddr pageAddress pages flags allocs k (i + 1) (found + 1) start m
    else mapGeneralLoop root maxPhyAddr pageAddress pages flags allocs k (i + 1) 0 0 m

/-- mirrors kernel/src/mm/VirtualMemory.cpp:877-962 -/
def mapGeneralPages (m : PhysMem) (root maxPhyAddr : Nat) (pageAddress : Entry) (pages : Nat) (flags : Entry)
    (allocs : Nat → Option Entry × Option Entry) : Option (Option Nat × PhysMem) :=
  if pages = 0 then some (none, m)
  else mapGeneralLoop root maxPhyAddr pageAddress pages flags allocs gpPages 0 0 0 m

/-- The `for` of `UnmapGeneralPages` with `k` pages left.
mirrors kernel/src/mm/VirtualMemory.cpp:971-991 -/
def unmapGeneralLoop (root : Nat) : Nat → Nat → PhysMem → Option (Bool × PhysMem)
  | 0, _, m => some (true, m)
  | k + 1, address, m => do
    let mapping := parseVirtualAddress address
    let pml4e ← readVirtual m root (getPML4EAddress mapping true)
    let pdpte ← readVirtual m root (getPDPTEAddress mapping true)
    let pde ← readVirtual m root (getPDEAddress mapping true)
    if !(getPML4EInfo pml4e).present || !(getPDPTEInfo pdpte).present || !(getPDEInfo pde).present then
      return (false, m)
    let m ← writeVirtual m root (getPTEAddress mapping true) 0#64
    unmapGeneralLoop root k (address + Layout.pageSize) m

/-- mirrors kernel/src/mm/VirtualMemory.cpp:964-994 -/
def unmapGeneralPages (m : PhysMem) (root vpage pages : Nat) : Option (Bool × PhysMem) :=
  unmapGeneralLoop root pages vpage m

/-! ## Growing tables -/

/-- `m'` has more tables than `m`, on the frames `given`, and translates as `m` does. -/
structure Grown (m m' : PhysMem) (root : Nat) (given : Entry → Prop) : Prop where
  tables : Tables m' root
  reach : ∀ a k u, Outside windows a → Reach m a 3 root k u → Reach m' a 3 root k u
  noLarge : ∀ a, Outside windows a → NoLarge m root a → NoLarge m' root a
  same : ∀ a, Outside windows a → translation m' root a = translation m root a
  fresh : ∀ g, Fresh m root windows g → (∀ p, given p → g ≠ p.toNat) → Fresh m' root windows g

section
variable {m m' m'' : PhysMem} {root maxPhyAddr va : Nat} {given given' : Entry → Prop}

theorem Grown.refl (h : Tables m root) : Grown m m root given :=
  ⟨h, fun _ _ _ _ hr => hr, fun _ _ hl => hl, fun _ _ => rfl, fun _ hg _ => hg⟩

theorem Grown.trans (h : Grown m m' root given) (h' : Grown m' m'' root given')
    {both : Entry → Prop} (hg : ∀ p, given p → both p) (hg' : ∀ p, given' p → both p) :
    Grown m m'' root both where
  tables := h'.tables
  reach a k u ha hr := h'.reach a k u ha (h.reach a k u ha hr)
  noLarge a ha hl := h'.noLarge a ha (h.noLarge a ha hl)
  same a ha := (h'.same a ha).trans (h.same a ha)
  fresh g hf hne := h'.fresh g (h.fresh g hf fun p hp => hne p (hg p hp)) fun p hp => hne p (hg' p hp)

theorem Grown.mono (h : Grown m m' root given) (hg : ∀ p, given p → given' p) : Grown m m' root given' :=
  { h with fresh := fun g hf hne => h.fresh g hf fun p hp => hne p (hg p hp) }

theorem Grown.goodPage (h : Grown m m' root given) {p : Entry} (hp : GoodPage m root maxPhyAddr p)
    (hne : ∀ q, given q → p ≠ q) : GoodPage m' root maxPhyAddr p :=
  ⟨hp.1, h.fresh _ hp.2 fun q hq he => hne q hq (BitVec.eq_of_toNat_eq he)⟩

theorem grown_of_link {n t : Nat} {page : Entry} (h : Tables m root)
    (hl : Link m m' root windows va n t page.toNat) : Grown m m' root (· = page) where
  tables := ⟨hl.tree h.tree, window_kept h hl.outside hl.reach hl.pages hl.same⟩
  reach _ _ _ ha hr := (hl.reach_iff h.tree ha).mpr (.inl hr)
  noLarge _ ha := link_noLarge h.tree hl ha
  same _ ha := hl.translate h.tree ha
  fresh _ hg hne := hl.fresh_other h.tree hg (hne page rfl)

theorem generalLink_eq (a : Entry) : generalLink (linkInfo false a) =
    withFlag 3#64 entryUserMode false ||| (a &&& entryAddress) := by
  change (a &&& entryAddress) ||| entryReadWrite ||| entryPresent = 3#64 ||| (a &&& entryAddress)
  rw [BitVec.or_assoc, show entryReadWrite ||| entryPresent = 3#64 by decide, BitVec.or_comm]

/-- What one level does to the tables. The table behind the entry is there afterwards if it was before or if its page
is granted; no other table appears. -/
structure Ensured (m m' : PhysMem) (root va n : Nat) (page : Option Entry) (ok : Bool) : Prop where
  grown : Grown m m' root (fun p => page = some p)
  found : ok = true → ∃ u, Reach m' va 3 root n u
  granted : ok = true ↔ (∃ u, Reach m va 3 root n u) ∨ page ≠ none
  others : ∀ a k, Outside windows a → ((∃ u, Reach m' a 3 root k u) ↔
    (∃ u, Reach m a 3 root k u) ∨ ok = true ∧ k = n ∧ SamePath (n + 1) a va)
  same : (∃ u, Reach m va 3 root n u) ∨ page = none → m' = m
  confined : ∃ t, Reach m' va 3 root (n + 1) t ∧
    SameBut m m' (slot t (n + 1) va) fun f => ∃ p, page = some p ∧ f = p.toNat

theorem ensureTable_ensured {n t entryPtr tablePtr : Nat} {page : Option Entry} {userMode : Bool}
    {setInfo : EntryInfo → Entry} (h : Tables m root) (hva : Outside windows va) (hlarge : NoLarge m root va)
    (ht : Reach m va 3 root (n + 1) t) (hptr : Pointers root va n entryPtr tablePtr)
    (hset : ∀ a, setInfo (linkInfo userMode a) = withFlag 3#64 entryUserMode userMode ||| (a &&& entryAddress))
    (hpage : ∀ p, page = some p → GoodPage m root maxPhyAddr p) :
    ∃ ok m', ensureTable m root maxPhyAddr userMode setInfo entryPtr tablePtr page = some (ok, m') ∧
      Ensured m m' root va n page ok := by
  obtain ⟨ok, m', hrun, hcase⟩ := ensureTable_cases h hva ht hptr hset hpage
  refine ⟨ok, m', hrun, ?_⟩
  rcases hcase with ⟨rfl, hp, hnone⟩ | ⟨rfl, p, rfl, hlink⟩
  · have hthere : ok = true → ∃ u, Reach m' va 3 root n u := fun hok =>
      ⟨_, ht.next ⟨hp.trans hok, hlarge (n + 1) t ht (by omega) (hp.trans hok)⟩⟩
    refine ⟨.refl h, hthere, ⟨fun hok => .inl (hthere hok), ?_⟩, fun a k _ => ⟨.inl, ?_⟩, fun _ => rfl,
      t, ht, fun _ _ _ => rfl⟩
    · rintro (⟨u, hu⟩ | hpage)
      · obtain ⟨v, hv, hl, -⟩ := hu.linked (by have := ht.le; omega)
        obtain rfl := hv.unique ht
        exact hp.symm.trans hl.1
      · cases ok with
        | true => rfl
        | false => exact absurd (hnone rfl) hpage
    · rintro (hu | ⟨hok, rfl, hpath⟩)
      · exact hu
      · obtain ⟨u, hu⟩ := hthere hok
        exact ⟨u, SamePath.reach (fun j h1 h3 => (hpath j h1 h3).symm) (Nat.le_refl 3) hu⟩
  · have hnew : Reach m' va 3 root n p.toNat := (hlink.reach_iff h.tree hva).mpr (.inr ⟨rfl, rfl, fun _ _ _ => rfl⟩)
    refine ⟨(grown_of_link h hlink).mono fun q hq => by rw [hq], fun _ => ⟨_, hnew⟩,
      ⟨fun _ => .inr (Option.some_ne_none p), fun _ => rfl⟩, fun a k ha => ⟨?_, ?_⟩, ?_, t,
      (hlink.reach_iff h.tree hva).mpr (.inl ht), fun q hq hf => hlink.same q hq fun f he => hf f ⟨p, rfl, he⟩⟩
    · rintro ⟨u, hu⟩
      rcases (hlink.reach_iff h.tree ha).mp hu with hu | ⟨rfl, -, hpath⟩
      · exact .inl ⟨u, hu⟩
      · exact .inr ⟨rfl, rfl, hpath⟩
    · rintro (⟨u, hu⟩ | ⟨-, rfl, hpath⟩)
      · exact ⟨u, (hlink.reach_iff h.tree ha).mpr (.inl hu)⟩
      · exact ⟨_, (hlink.reach_iff h.tree ha).mpr (.inr ⟨rfl, rfl, hpath⟩)⟩
    · -- the entry was not present
      rintro (⟨u, hu⟩ | hnone)
      · obtain ⟨v, hv, hl, -⟩ := hu.linked (by have := ht.le; omega)
        obtain rfl := hv.unique ht
        have habsent := hlink.absent
        rw [hl.1] at habsent
        cases habsent
      · cases hnone

/-- The tables of one page. -/
theorem ensureGeneral_spec {t : Nat} (pd pt : Option Entry) (h : Tables m root)
    (hva : Outside windows va) (hlarge : NoLarge m root va) (ht : Reach m va 3 root 2 t)
    (hpd : ∀ p, pd = some p → GoodPage m root maxPhyAddr p)
    (hpt : ∀ p, pt = some p → GoodPage m root maxPhyAddr p ∧ ∀ q, pd = some q → p ≠ q) :
    ∃ ok m', ensureGeneral m root maxPhyAddr va pd pt = some (ok, m') ∧
      Grown m m' root (fun p => pd = some p ∨ pt = some p) ∧ (ok = true → ∃ u, Reach m' va 3 root 0 u) := by
  obtain ⟨ok₁, m₁, hrun₁, he₁⟩ := ensureTable_ensured h hva hlarge ht pointers_pd generalLink_eq hpd
  have hg₁ := he₁.grown
  unfold ensureGeneral
  simp only [Option.bind_eq_bind, hrun₁, Option.bind_some]
  cases ok₁ with
  | false => exact ⟨false, m₁, rfl, hg₁.mono fun p hp => .inl hp, fun hok => by cases hok⟩
  | true =>
    obtain ⟨u, hu⟩ := he₁.found rfl
    obtain ⟨ok₂, m₂, hrun₂, he₂⟩ := ensureTable_ensured hg₁.tables hva (hg₁.noLarge va hva hlarge) hu
      pointers_pt generalLink_eq fun p hp => hg₁.goodPage (hpt p hp).1 (hpt p hp).2
    simp only [Bool.not_true, Bool.false_eq_true, if_false, hrun₂]
    exact ⟨ok₂, m₂, rfl, hg₁.trans he₂.grown (fun p hp => .inl hp) (fun p hp => .inr hp), he₂.found⟩

end

/-! ## Addresses of the window -/

theorem gpPages_eq : gpPages = 132972544 := by decide

theorem generalPage_eq (i : Nat) : generalPage i = 0xFFFF800130000000 + i * 4096 := rfl

theorem generalPage_succ (i : Nat) : generalPage i + Layout.pageSize = generalPage (i + 1) := by
  rw [generalPage_eq, generalPage_eq]
  change _ + 4096 = _
  omega

/-- The window and what lies a little behind it. -/
theorem general_address {a : Nat} (h : 0xFFFF800130000000 ≤ a) (h' : a < 0xFFFF808100000000) :
    Canonical a ∧ Outside windows a := by
  constructor
  · unfold Canonical
    omega
  · have hi : index 3 a = 256 ∨ index 3 a = 257 := by
      unfold index
      simp only [Nat.reduceMul, Nat.reduceAdd, Nat.reducePow]
      omega
    have ht : windowIndex true = 510 := by decide
    have hf : windowIndex false = 509 := by decide
    unfold Outside windows
    omega

theorem generalPage_outside {i : Nat} (hi : i < gpPages) : Outside windows (generalPage i) := by
  rw [gpPages_eq] at hi
  exact (general_address (by rw [generalPage_eq]; omega) (by rw [generalPage_eq]; omega)).2

theorem generalPage_index {i : Nat} (hi : i < gpPages) : index 3 (generalPage i) = 256 := by
  rw [gpPages_eq] at hi
  rw [generalPage_eq]
  unfold index
  simp only [Nat.reduceMul, Nat.reduceAdd, Nat.reducePow]
  omega

/-! ## The entries of a run -/

theorem generalEntry_bits (maxPhyAddr : Nat) (physicalAddress : Entry) {flags : Entry}
    (hflags : flags &&& entryAddress = 0#64) :
    (generalEntry maxPhyAddr physicalAddress flags).present = true ∧
      (generalEntry maxPhyAddr physicalAddress flags).frame =
        (filterAddress maxPhyAddr physicalAddress &&& entryAddress).toNat := by
  have hor : generalEntry maxPhyAddr physicalAddress flags =
      (flags ||| entryPresent) ||| (filterAddress maxPhyAddr physicalAddress &&& entryAddress) := by
    unfold generalEntry
    rw [BitVec.or_assoc, BitVec.or_comm]
  have hzero : (flags ||| entryPresent) &&& entryAddress = 0#64 := by
    rw [BitVec.and_or_distrib_right, hflags]
    decide
  obtain ⟨hframe, hpresent, -⟩ := entry_bits (a := filterAddress maxPhyAddr physicalAddress) hzero
  rw [hor]
  refine ⟨?_, hframe⟩
  rw [hpresent, BitVec.getLsbD_or, show entryPresent.getLsbD 0 = true by decide, Bool.or_true]

/-- The entries of the `count` pages from page number `first` on are written, for the frames
from `physicalAddress` on. -/
structure Written (m m' : PhysMem) (root maxPhyAddr first count : Nat) (physicalAddress : Entry) : Prop where
  tables : Tables m' root
  reach : ∀ a k u, Outside windows a → (Reach m' a 3 root k u ↔ Reach m a 3 root k u)
  mapped : ∀ a, first ≤ a / 4096 → a / 4096 < first + count → translation m' root a =
    some ((filterAddress maxPhyAddr (physicalAddress + BitVec.ofNat 64 ((a / 4096 - first) * 4096)) &&&
      entryAddress).toNat + a % 4096)
  others : ∀ a, Outside windows a → a / 4096 < first ∨ first + count ≤ a / 4096 →
    translation m' root a = translation m root a

section
variable {m m' : PhysMem} {root maxPhyAddr : Nat} {flags : Entry}

theorem Written.refl (h : Tables m root) (first : Nat) (physicalAddress : Entry) :
    Written m m root maxPhyAddr first 0 physicalAddress :=
  ⟨h, fun _ _ _ _ => Iff.rfl, fun a h1 h2 => by omega, fun _ _ _ => rfl⟩

/-- One entry, then the others. -/
theorem Written.cons {t va count : Nat} {physicalAddress : Entry} (hflags : flags &&& entryAddress = 0#64)
    (h : Tables m root) (hcan : Canonical va) (hva : Outside windows va) (ht : Reach m va 3 root 0 t)
    (hw : Written (update m (slot t 0 va) (generalEntry maxPhyAddr physicalAddress flags)) m' root maxPhyAddr
      (va / 4096 + 1) count (physicalAddress + 0x1000#64)) :
    Written m m' root maxPhyAddr (va / 4096) (count + 1) physicalAddress := by
  have hbut : SameBut m (update m (slot t 0 va) (generalEntry maxPhyAddr physicalAddress flags)) (slot t 0 va)
      fun _ => False := fun q hq _ => if_neg hq
  have hentry : update m (slot t 0 va) (generalEntry maxPhyAddr physicalAddress flags) (slot t 0 va) =
      generalEntry maxPhyAddr physicalAddress flags := if_pos rfl
  obtain ⟨hpresent, hframe⟩ := generalEntry_bits maxPhyAddr physicalAddress hflags
  refine ⟨hw.tables, fun a k u ha => ?_, fun a h1 h2 => ?_, fun a ha hne => ?_⟩
  · rw [hw.reach a k u ha, leaf_reach h.tree hva ht hbut ha]
  · by_cases hfirst : a / 4096 = va / 4096
    · have hout : Outside windows a := by
        unfold Outside
        rw [index_page hfirst]
        exact hva
      rw [hw.others a hout (by omega), leaf_translate h.tree hva ht hbut (by rw [hentry]; exact hpresent)
        (canonical_page hfirst hcan) hout (fun n _ _ => index_page hfirst n), hentry, hframe, hfirst,
        Nat.sub_self, Nat.zero_mul, BitVec.add_zero]
    · rw [hw.mapped a (by omega) (by omega), BitVec.add_assoc, show 0x1000#64 = BitVec.ofNat 64 4096 from rfl,
        ← BitVec.ofNat_add, show 4096 + (a / 4096 - (va / 4096 + 1)) * 4096 = (a / 4096 - va / 4096) * 4096
          by omega]
  · rw [hw.others a ha (by omega)]
    by_cases hc : Canonical a
    · refine leaf_translate_other h.tree hva ht hbut ha fun hp => ?_
      have := samePath_page hc hcan hp
      omega
    · unfold translation
      rw [if_neg hc, if_neg hc]

/-- A run of pages that all have their tables. -/
theorem writePages_spec (maxPhyAddr : Nat) (hflags : flags &&& entryAddress = 0#64) (k : Nat) :
    ∀ (i : Nat) (physicalAddress : Entry) (m : PhysMem), i + k ≤ gpPages → Tables m root →
      (∀ j, i ≤ j → j < i + k → ∃ t, Reach m (generalPage j) 3 root 0 t) →
      ∃ m', writePages root maxPhyAddr flags k (generalPage i) physicalAddress m = some m' ∧
        Written m m' root maxPhyAddr (generalPage i / 4096) k physicalAddress := by
  induction k with
  | zero =>
    intro i physicalAddress m _ h _
    exact ⟨m, rfl, .refl h _ _⟩
  | succ k ih =>
    intro i physicalAddress m hi h hreach
    obtain ⟨t, ht⟩ := hreach i (Nat.le_refl _) (by omega)
    have hva := generalPage_outside (show i < gpPages by omega)
    have hcan : Canonical (generalPage i) := by
      rw [gpPages_eq] at hi
      exact (general_address (by rw [generalPage_eq]; omega) (by rw [generalPage_eq]; omega)).1
    have hbut : SameBut m (update m (slot t 0 (generalPage i)) (generalEntry maxPhyAddr physicalAddress flags))
        (slot t 0 (generalPage i)) fun _ => False := fun q hq _ => if_neg hq
    obtain ⟨m', hrun, hw⟩ := ih (i + 1) (physicalAddress + 0x1000#64) _ (by omega)
      (leaf_tables h hva ht hbut) fun j h1 h2 => by
        obtain ⟨u, hu⟩ := hreach j (by omega) (by omega)
        exact ⟨u, (leaf_reach h.tree hva ht hbut (generalPage_outside (by omega))).mpr hu⟩
    refine ⟨m', ?_, .cons hflags h hcan hva ht ?_⟩
    · rw [writePages, writeVirtual, ptePointer h.window ht, generalPage_succ]
      exact hrun
    · have hpage : generalPage (i + 1) / 4096 = generalPage i / 4096 + 1 := by
        rw [generalPage_eq, generalPage_eq]
        omega
      rw [← hpage]
      exact hw

end

/-! ## The scan -/

def Unmapped (m : PhysMem) (root i : Nat) : Prop := translation m root (generalPage i) = none

instance (m : PhysMem) (root i : Nat) : Decidable (Unmapped m root i) :=
  inferInstanceAs (Decidable (_ = _))

/-- The first run of `pages` unmapped pages begins at page `s`. -/
structure FirstRun (m : PhysMem) (root pages s : Nat) : Prop where
  fits : s + pages ≤ gpPages
  unmapped : ∀ j, j < pages → Unmapped m root (s + j)
  first : ∀ s', s' < s → ∃ j, j < pages ∧ ¬ Unmapped m root (s' + j)

/-- The frame is an outcome of the allocations for page `i`. -/
def Given (allocs : Nat → Option Entry × Option Entry) (i : Nat) (p : Entry) : Prop :=
  (allocs i).1 = some p ∨ (allocs i).2 = some p

/-- What `MapGeneralPages` relies on: the tables of the current root, its entry for the
kernel, and frames that are handed out once. Nothing else puts pages into the window, so it
has no large ones. -/
structure GeneralReady (m : PhysMem) (root maxPhyAddr : Nat) (allocs : Nat → Option Entry × Option Entry) :
    Prop where
  tables : Tables m root
  kernel : (m (root + 8 * 256)).Links
  small : ∀ i, i < gpPages → NoLarge m root (generalPage i)
  frames : ∀ i p, Given allocs i p → GoodPage m root maxPhyAddr p
  once : ∀ i j p, Given allocs i p → Given allocs j p → i = j
  apart : ∀ i p, (allocs i).1 = some p → (allocs i).2 ≠ some p

/-- The scan has come to page `i`; the last `found` pages were not mapped. -/
structure Scan (m₀ m : PhysMem) (root pages : Nat) (allocs : Nat → Option Entry × Option Entry)
    (i found start : Nat) : Prop where
  grown : Grown m₀ m root fun p => ∃ j, j < i ∧ Given allocs j p
  reach : ∀ j, j < i → ∃ t, Reach m (generalPage j) 3 root 0 t
  found_lt : found < pages
  found_le : found ≤ i
  unmapped : ∀ j, i - found ≤ j → j < i → Unmapped m₀ root j
  before : found = i ∨ ¬ Unmapped m₀ root (i - found - 1)
  start_eq : 0 < found → start = generalPage (i - found)
  passed : ∀ s, s + pages ≤ i → ∃ j, j < pages ∧ ¬ Unmapped m₀ root (s + j)

section
variable {m₀ m m' : PhysMem} {root maxPhyAddr pages : Nat} {allocs : Nat → Option Entry × Option Entry}
  {i found start : Nat}

theorem FirstRun.unique {s s' : Nat} (h : FirstRun m root pages s) (h' : FirstRun m root pages s') :
    s = s' := by
  rcases Nat.lt_trichotomy s s' with hlt | heq | hlt
  · obtain ⟨j, hj, hn⟩ := h'.first s hlt
    exact absurd (h.unmapped j hj) hn
  · exact heq
  · obtain ⟨j, hj, hn⟩ := h.first s' hlt
    exact absurd (h'.unmapped j hj) hn

/-- The page's tables, in the course of the scan. -/
theorem Scan.ensure (hm : GeneralReady m₀ root maxPhyAddr allocs) (h : Scan m₀ m root pages allocs i found start)
    (hi : i < gpPages) : ∃ ok m', ensureGeneral m root maxPhyAddr (generalPage i) (allocs i).1 (allocs i).2 =
      some (ok, m') ∧ Grown m₀ m' root (fun p => ∃ j, j < i + 1 ∧ Given allocs j p) ∧
        (ok = true → ∀ j, j < i + 1 → ∃ t, Reach m' (generalPage j) 3 root 0 t) := by
  have hva := generalPage_outside hi
  have htop : Reach m₀ (generalPage i) 3 root 2 (m₀ (root + 8 * 256)).frame := by
    have hs : slot root 3 (generalPage i) = root + 8 * 256 := by
      unfold slot
      rw [generalPage_index hi]
    have hl := hm.kernel
    rw [← hs] at hl ⊢
    exact .down hl (.here _ _)
  have hfresh : ∀ p, Given allocs i p → GoodPage m root maxPhyAddr p := by
    intro p hp
    refine h.grown.goodPage (hm.frames i p hp) ?_
    rintro q ⟨j, hj, hq⟩ rfl
    have := hm.once i j p hp hq
    omega
  obtain ⟨ok, m', hrun, hg, hr⟩ := ensureGeneral_spec (allocs i).1 (allocs i).2 h.grown.tables hva
    (h.grown.noLarge _ hva (hm.small i hi)) (h.grown.reach _ _ _ hva htop) (fun p hp => hfresh p (.inl hp))
    fun p hp => ⟨hfresh p (.inr hp), fun q hq he => hm.apart i q hq (by rw [hp, he])⟩
  refine ⟨ok, m', hrun, h.grown.trans hg ?_ ?_, fun hok j hj => ?_⟩
  · rintro p ⟨j, hj, hp⟩
    exact ⟨j, by omega, hp⟩
  · intro p hp
    exact ⟨i, by omega, hp⟩
  · by_cases he : j = i
    · subst he
      exact hr hok
    · obtain ⟨t, ht⟩ := h.reach j (by omega)
      exact ⟨t, hg.reach _ _ _ (generalPage_outside (by omega)) ht⟩

/-- The entry that the scan reads tells whether the page was mapped before the call. -/
theorem present_mapped {t : Nat} (hg : ∀ a, Outside windows a → translation m root a = translation m₀ root a)
    (hi : i < gpPages) (ht : Reach m (generalPage i) 3 root 0 t) :
    (getPTEInfo (m (slot t 0 (generalPage i)))).present = true ↔ ¬ Unmapped m₀ root i := by
  have hcan : Canonical (generalPage i) := by
    rw [gpPages_eq] at hi
    exact (general_address (by rw [generalPage_eq]; omega) (by rw [generalPage_eq]; omega)).1
  have hwalk : translation m₀ root (generalPage i) = walk m (generalPage i) 0 t := by
    rw [← hg _ (generalPage_outside hi), translation, if_pos hcan, ht.walk]
  have hpresent : (getPTEInfo (m (slot t 0 (generalPage i)))).present =
      (m (slot t 0 (generalPage i))).present := present_iff _
  unfold Unmapped
  rw [hpresent, hwalk, walk]
  cases (m (slot t 0 (generalPage i))).present with
  | true => simp
  | false => simp

/-- A page that is mapped ends the run. -/
theorem Scan.mapped (h : Scan m₀ m root pages allocs i found start)
    (hg : Grown m₀ m' root fun p => ∃ j, j < i + 1 ∧ Given allocs j p)
    (hr : ∀ j, j < i + 1 → ∃ t, Reach m' (generalPage j) 3 root 0 t) (hmapped : ¬ Unmapped m₀ root i) :
    Scan m₀ m' root pages allocs (i + 1) 0 0 where
  grown := hg
  reach := hr
  found_lt := Nat.lt_of_le_of_lt (Nat.zero_le _) h.found_lt
  found_le := Nat.zero_le _
  unmapped j h1 h2 := by omega
  before := .inr hmapped
  start_eq h0 := by omega
  passed s hs := by
    by_cases he : s + pages ≤ i
    · exact h.passed s he
    · have hpos := h.found_lt
      refine ⟨pages - 1, by omega, ?_⟩
      rw [show s + (pages - 1) = i by omega]
      exact hmapped

/-- The start of the run with page `i` in it. -/
theorem Scan.start_next (h : Scan m₀ m root pages allocs i found start) :
    (if found = 0 then generalPage i else start) = generalPage (i - found) := by
  split
  · rename_i h0
    rw [h0, Nat.sub_zero]
  · exact h.start_eq (by omega)

/-- A page that is not mapped makes the run longer. -/
theorem Scan.longer (h : Scan m₀ m root pages allocs i found start)
    (hg : Grown m₀ m' root fun p => ∃ j, j < i + 1 ∧ Given allocs j p)
    (hr : ∀ j, j < i + 1 → ∃ t, Reach m' (generalPage j) 3 root 0 t) (hfree : Unmapped m₀ root i)
    (hmore : found + 1 ≠ pages) :
    Scan m₀ m' root pages allocs (i + 1) (found + 1) (if found = 0 then generalPage i else start) where
  grown := hg
  reach := hr
  found_lt := by
    have := h.found_lt
    omega
  found_le := Nat.succ_le_succ h.found_le
  unmapped j h1 h2 := by
    by_cases he : j = i
    · rw [he]
      exact hfree
    · exact h.unmapped j (by omega) (by omega)
  before := by
    rcases h.before with he | hb
    · exact .inl (by rw [he])
    · right
      rw [show i + 1 - (found + 1) - 1 = i - found - 1 by omega]
      exact hb
  start_eq _ := by
    rw [h.start_next]
    congr 1
    omega
  passed s hs := by
    by_cases he : s + pages ≤ i
    · exact h.passed s he
    · -- the run would have to begin before the page that ended the last one
      have hlt := h.found_lt
      have hle := h.found_le
      rcases h.before with hall | hb
      · omega
      · refine ⟨i - found - 1 - s, by omega, ?_⟩
        rw [show s + (i - found - 1 - s) = i - found - 1 by omega]
        exact hb

/-- The run is long enough. -/
theorem Scan.firstRun (h : Scan m₀ m root pages allocs i found start) (hi : i < gpPages)
    (hfree : Unmapped m₀ root i) (hall : found + 1 = pages) : FirstRun m₀ root pages (i - found) where
  fits := by
    have := h.found_le
    omega
  unmapped j hj := by
    by_cases he : i - found + j = i
    · rw [he]
      exact hfree
    · have hle := h.found_le
      exact h.unmapped _ (by omega) (by omega)
  first s hs := h.passed s (by omega)

end

/-- What a call of `MapGeneralPages` leaves. `z` is the memory in which the tables of the run
are there and its entries are not yet written. -/
def GeneralOutcome (m : PhysMem) (root maxPhyAddr : Nat) (pageAddress : Entry) (pages : Nat) (flags : Entry)
    (allocs : Nat → Option Entry × Option Entry) (m' : PhysMem) : Option Nat → Prop
  | none => Grown m m' root fun p => ∃ j, Given allocs j p
  | some v => ∃ s z, FirstRun m root pages s ∧ v = generalPage s + pageAddress.toNat % 4096 ∧
      Grown m z root (fun p => ∃ j, Given allocs j p) ∧
      (∀ j, j < s + pages → ∃ t, Reach z (generalPage j) 3 root 0 t) ∧
      writePages root maxPhyAddr flags pages (generalPage s) pageAddress z = some m' ∧
      Written z m' root maxPhyAddr (generalPage s / 4096) pages pageAddress

section
variable {m₀ : PhysMem} {root maxPhyAddr pages : Nat} {allocs : Nat → Option Entry × Option Entry}
  {pageAddress flags : Entry}

theorem mapGeneralLoop_spec (hm : GeneralReady m₀ root maxPhyAddr allocs)
    (hflags : flags &&& entryAddress = 0#64) (k : Nat) : ∀ (i found start : Nat) (m : PhysMem),
    i + k = gpPages → Scan m₀ m root pages allocs i found start →
    ∃ r m', mapGeneralLoop root maxPhyAddr pageAddress pages flags allocs k i found start m = some (r, m') ∧
      GeneralOutcome m₀ root maxPhyAddr pageAddress pages flags allocs m' r := by
  induction k with
  | zero =>
    intro i found start m _ h
    exact ⟨none, m, rfl, h.grown.mono fun p ⟨j, _, hp⟩ => ⟨j, hp⟩⟩
  | succ k ih =>
    intro i found start m hi h
    obtain ⟨ok, m₁, hrun, hg, hr⟩ := h.ensure hm (by omega)
    rw [mapGeneralLoop]
    simp only [Option.bind_eq_bind, hrun, Option.bind_some]
    cases ok with
    | false => exact ⟨none, m₁, rfl, hg.mono fun p ⟨j, _, hp⟩ => ⟨j, hp⟩⟩
    | true =>
      obtain ⟨t, ht⟩ := hr rfl i (by omega)
      have hread : readVirtual m₁ root (getPTEAddress (parseVirtualAddress (generalPage i)) true) =
          some (m₁ (slot t 0 (generalPage i))) := by
        unfold readVirtual
        rw [ptePointer hg.tables.window ht]
        rfl
      have hmapped := present_mapped hg.same (show i < gpPages by omega) ht
      simp only [Bool.not_true, Bool.false_eq_true, if_false, hread, Option.bind_some]
      cases hp : (getPTEInfo (m₁ (slot t 0 (generalPage i)))).present with
      | true =>
        simp only [Bool.not_true, Bool.false_eq_true, if_false]
        exact ih (i + 1) 0 0 m₁ (by omega) (h.mapped hg (hr rfl) (hmapped.mp hp))
      | false =>
        have hfree : Unmapped m₀ root i := Classical.byContradiction fun hn => by
          rw [hmapped.mpr hn] at hp
          cases hp
        simp only [Bool.not_false, if_true]
        by_cases hall : found + 1 = pages
        · have hrunFirst := h.firstRun (by omega) hfree hall
          have hle := h.found_le
          obtain ⟨m', hwrite, hw⟩ := writePages_spec maxPhyAddr hflags pages (i - found) pageAddress
            m₁ hrunFirst.fits hg.tables fun j h1 h2 => hr rfl j (by omega)
          rw [if_pos hall, h.start_next, hwrite]
          exact ⟨_, m', rfl, i - found, m₁, hrunFirst, rfl, hg.mono fun p ⟨j, _, hp⟩ => ⟨j, hp⟩,
            fun j hj => hr rfl j (by omega), hwrite, hw⟩
        · rw [if_neg hall]
          exact ih (i + 1) (found + 1) _ m₁ (by omega) (h.longer hg (hr rfl) hfree hall)

/-- It returns, and maps the first run that is long enough or nothing. -/
theorem mapGeneralPages_spec (pageAddress : Entry) (hm : GeneralReady m₀ root maxPhyAddr allocs)
    (hflags : flags &&& entryAddress = 0#64) (hpages : 0 < pages) :
    ∃ r m', mapGeneralPages m₀ root maxPhyAddr pageAddress pages flags allocs = some (r, m') ∧
      GeneralOutcome m₀ root maxPhyAddr pageAddress pages flags allocs m' r := by
  unfold mapGeneralPages
  rw [if_neg (by omega)]
  refine mapGeneralLoop_spec hm hflags gpPages 0 0 0 m₀ (Nat.zero_add _) ?_
  exact ⟨.refl hm.tables, fun j hj => absurd hj (by omega), hpages, Nat.le_refl _,
    fun j h1 h2 => absurd h2 (by omega), .inl rfl, fun h => absurd h (by omega),
    fun s hs => absurd hs (by omega)⟩

end

/-! ## One page -/

section
variable {m m' : PhysMem} {root maxPhyAddr va : Nat} {flags physicalAddress : Entry}

/-- A turn of the loop, for a page that has its tables. -/
theorem unmapGeneralLoop_succ {t : Nat} (h : Tables m root) (ht : Reach m va 3 root 0 t) (k : Nat) :
    unmapGeneralLoop root (k + 1) va m =
      unmapGeneralLoop root k (va + Layout.pageSize) (update m (slot t 0 va) 0#64) := by
  obtain ⟨t₁, ht₁, hl₁, -⟩ := ht.linked (by decide)
  obtain ⟨t₂, ht₂, hl₂, -⟩ := ht₁.linked (by decide)
  obtain ⟨t₃, ht₃, hl₃, -⟩ := ht₂.linked (by decide)
  obtain rfl := reach_top ht₃
  have h3 : (getPML4EInfo (m (slot t₃ 3 va))).present = true := (present_iff _).trans hl₃.1
  have h2 : (getPDPTEInfo (m (slot t₂ 2 va))).present = true := (present_iff _).trans hl₂.1
  have h1 : (getPDEInfo (m (slot t₁ 1 va))).present = true := (present_iff _).trans hl₁.1
  rw [unmapGeneralLoop]
  unfold readVirtual writeVirtual
  simp only [Option.bind_eq_bind, pml4ePointer h.window, pdptePointer h.window ht₂, pdePointer h.window ht₁,
    ptePointer h.window ht, Option.map_some, Option.bind_some, h3, h2, h1, Bool.not_true, Bool.or_self,
    Bool.false_eq_true, if_false]

/-- Unmapping a page that has its tables. -/
theorem unmapGeneralPages_one {t : Nat} (h : Tables m root) (ht : Reach m va 3 root 0 t) :
    unmapGeneralPages m root va 1 = some (true, update m (slot t 0 va) 0#64) := unmapGeneralLoop_succ h ht 0

end

/-! ## A small root -/

/-- A root at `0x1000` with both windows, the DMA zone in slot 0 and the tables of the general
window's first pages, none of them mapped. -/
def generalRoot : PhysMem := fun p =>
  if p = 0x1000 + 8 * 510 ∨ p = 0x1000 + 8 * 509 then 0x1003#64
  else if p = 0x1000 + 8 * 256 then 0x2003#64
  else if p = 0x2000 + 8 * 4 then 0x3003#64
  else if p = 0x3000 + 8 * 384 then 0x4003#64
  else if p = 0x1000 then 0x8003#64
  else if p = 0x8000 then 0x9003#64
  else if 0x9000 ≤ p ∧ p < 0x9040 then BitVec.ofNat 64 ((p - 0x9000) / 8 * 0x200000 + 0x83)
  else 0#64

/-- The tables of `generalRoot`. -/
def generalPaths : List (Nat × List Nat) :=
  [(0x1000, []), (0x2000, [256]), (0x3000, [256, 4]), (0x4000, [256, 4, 384]), (0x8000, [0]), (0x9000, [0, 0])]

theorem charted_generalRoot : Charted generalRoot 0x1000 windows generalPaths :=
  ⟨by decide, by decide, by decide, by decide +kernel⟩

theorem tables_generalRoot : Tables generalRoot 0x1000 := ⟨charted_generalRoot.tree, by decide⟩

theorem fresh_generalRoot {f : Nat} (ha : f % 4096 = 0) (hf : (0x5000 ≤ f ∧ f < 0x8000) ∨ 0xA000 ≤ f) :
    Fresh generalRoot 0x1000 windows f :=
  ⟨ha, fun va n t hva h => by
    have hr := charted_generalRoot.reach hva h
    simp only [generalPaths, List.mem_cons, Prod.mk.injEq, List.not_mem_nil, or_false] at hr
    omega⟩

/-- Large pages are in the table at `0x9000` only. -/
theorem small_generalRoot : ∀ p ∈ generalPaths, p.1 ≠ 0x9000 → p.2.length < 3 → ∀ i ∈ List.range 512,
    (generalRoot (p.1 + 8 * i)).large = false := by
  decide +kernel

theorem generalReady_generalRoot : GeneralReady generalRoot 0x1000 48 fun _ => (none, none) where
  tables := tables_generalRoot
  kernel := by decide
  small i hi n t h h1 hp := by
    have hmem := charted_generalRoot.reach (generalPage_outside hi) h
    refine small_generalRoot _ hmem (fun h9 => ?_) (by rw [length_indices]; omega) _ (List.mem_range.mpr (index_lt _ _))
    obtain rfl : t = 0x9000 := h9
    have hn : n = 1 := by
      have hlength := congrArg List.length (charted_generalRoot.once _ hmem (0x9000, [0, 0]) (by decide) rfl)
      rw [length_indices] at hlength
      have hle := h.le
      simp only [List.length_cons, List.length_nil] at hlength
      omega
    subst hn
    have hpath : index 3 (generalPage i) = 0 :=
      (List.cons.inj (charted_generalRoot.once _ hmem (0x9000, [0, 0]) (by decide) rfl)).1
    rw [generalPage_index hi] at hpath
    cases hpath
  frames i p h := by rcases h with h | h <;> cases h
  once i j p h := by rcases h with h | h <;> cases h
  apart i p h := by cases h

end BadLands.Mm.Paging
