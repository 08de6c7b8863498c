import BadLands.Mm.AddressSpaceTeardown

/-!
# The first half of the call

`CreateSecondaryRecursiveMapping` with the frames it takes. It fails in the scan of the window, or at one of the two
frames of `ShareKernelMemoryToSecondaryMapping` (`create_cases`). The frames that the scan has taken stay taken in each
of these cases. When it succeeds, the new space is as the steps after it need it (`Space`).
-/
namespace BadLands.Mm.AddressSpace

open BadLands.Core BadLands.Core.PageTable BadLands.Mm.Layout BadLands.Mm.Paging

section
variable {supply : Supply} {m m' x y : PhysMem} {root maxPhyAddr : Nat} {cr3 first : Entry} {w z : World}
  {new : List Entry} {i t va : Nat}

/-! ## The page of the new root -/

/-- The entry of a page of the window is written. -/
theorem Scannable.leaf (h : Scannable supply root maxPhyAddr w) (hva : Outside windows va)
    (ht : Reach w.mem va 3 root 0 t) (hm : SameBut w.mem m' (slot t 0 va) fun _ => False) :
    Scannable supply root maxPhyAddr { w with mem := m' } where
  tables := leaf_tables h.tables hva ht hm
  kernel := by
    have hlt : 0 < gpPages := by
      rw [gpPages_eq]
      decide
    have hslot : slot root 3 (generalPage 0) = root + 8 * 256 := by
      unfold slot
      rw [generalPage_index hlt]
    obtain ⟨hbad, -⟩ | hentry := h.tables.tree.reads (fun _ hf => hf.elim) (generalPage_outside hlt) hva ht hm
      (.here _ _)
    · cases hbad
    · rw [hslot] at hentry
      change (m' (root + 8 * 256)).Links
      rw [hentry]
      exact h.kernel
  small j hj := leaf_noLarge h.tables.tree hva ht hm (generalPage_outside hj) (h.small j hj)
  unused := h.unused
  next s p hp hnot := by
    obtain ⟨hbits, hfresh⟩ := h.next s p hp hnot
    exact ⟨hbits, hfresh.aligned, fun a n u ha hr =>
      hfresh.unused a n u ha ((leaf_reach h.tables.tree hva ht hm ha).mp hr)⟩

/-- The page was mapped and unmapped again. -/
theorem unmapped_leaf {j : Nat} (h : Tables m root) (hi : i < gpPages) (hj : j < gpPages)
    (ht : Reach m (generalPage i) 3 root 0 t) (hm : SameBut m m' (slot t 0 (generalPage i)) fun _ => False)
    (habsent : (m' (slot t 0 (generalPage i))).present = false) (hun : Unmapped m root j) : Unmapped m' root j := by
  have hva := generalPage_outside hi
  unfold Unmapped at hun ⊢
  by_cases hp : SamePath 0 (generalPage j) (generalPage i)
  · exact translation_absent hp (by decide) ((leaf_reach h.tree hva ht hm hva).mpr ht) habsent
  · rw [h.tree.translate_other (generalPage_outside hj) hva ht hm hp]
    exact hun

/-- Tables of addresses below slot 1 have no entry in common with those of the window. -/
theorem low_apart {a a' k k' u u' : Nat} (h : Tree m root windows) (ha : a < 2 ^ 39) (ha' : index 3 a' = 256)
    (hr : Reach m a 3 root k u) (hr' : Reach m a' 3 root k' u') : slot u k a ≠ slot u' k' a' := by
  intro he
  obtain ⟨h0, -⟩ := index_low ha
  obtain ⟨rfl, hidx⟩ := slot_inj (hr.aligned h.aligned) (hr'.aligned h.aligned) he
  obtain ⟨rfl, hpath⟩ := h.once a a' k k' u (outside_low (by omega)) (outside_general ha') hr hr'
  by_cases hk : k = 3
  · subst hk
    omega
  · have hle := hr.le
    have htop := hpath 3 (by omega) (Nat.le_refl 3)
    omega

/-- The words of slot 0 are not written by the scan. -/
theorem Added.low {a k u : Nat} (ha : Added supply root w z new) (h : Tables w.mem root)
    (hnew : ∀ p ∈ new, Fresh w.mem root windows p.toNat) (hlow : a < 2 ^ 39) (hr : Reach w.mem a 3 root k u) :
    z.mem (slot u k a) = w.mem (slot u k a) := by
  have hout := outside_low (show a < 2 ^ 47 by omega)
  have hu := hr.aligned h.tree.aligned
  have hi := index_lt k a
  refine ha.confined _ (fun p hp => ?_) fun a' k' u' ha' hr' =>
    low_apart ha.grown.tables.tree hlow ha' (ha.grown.reach a k u hout hr) hr'
  have hpa := (hnew p hp).aligned
  have hpn := (hnew p hp).unused a k u hout hr
  unfold slot
  omega

/-! ## Sharing that is refused -/

/-- It writes the new root only. -/
theorem share_refused {cr3 : Nat} {first second : Option Entry} (hw : Windowed y root cr3) (ha : root % 4096 = 0)
    (hc : cr3 % 4096 = 0) (hrc : root ≠ cr3) (hno : first = none ∨ second = none) :
    ∃ y', shareKernelMemoryToSecondaryMapping y root maxPhyAddr first second = some (false, y') ∧
      ∀ q, ¬ (cr3 ≤ q ∧ q < cr3 + 4096) → y' q = y q := by
  obtain ⟨y₁, hrun₁, -, hrest₁⟩ := shareKernelLoop_spec ha hc hrc 253 256 y rfl hw
  have hloop : shareKernelLoop root (secondaryPml4Index - 256) 256 y = some y₁ := hrun₁
  have hkept : ∀ q, ¬ (cr3 ≤ q ∧ q < cr3 + 4096) → y₁ q = y q := fun q hq => hrest₁ q fun j _ _ => by omega
  unfold shareKernelMemoryToSecondaryMapping
  simp only [Option.bind_eq_bind, hloop, Option.bind_some]
  cases first with
  | none => exact ⟨y₁, rfl, hkept⟩
  | some p =>
    obtain rfl : second = none := hno.resolve_left (Option.some_ne_none p)
    have hw₁ : Windowed y₁ root cr3 := hw.kept (hrest₁ _ (by omega)) (hrest₁ _ (by omega)) (hrest₁ _ (by omega))
    refine ⟨update y₁ cr3 (setPML4EInfo (linkInfo false (filterAddress maxPhyAddr p))), ?_, fun q hq => ?_⟩
    · unfold writeVirtual dmaMapping
      rw [pml4ePointer hw₁.secondary]
      rfl
    · rw [update, if_neg (by omega)]
      exact hkept q hq

/-! ## The new root -/

/-- `x` is the memory after the page for the new root has been mapped and unmapped again, without what was written
through it; `y` is the memory in which the sharing begins. -/
structure Rooted (supply : Supply) (root maxPhyAddr : Nat) (cr3 : Entry) (w z : World) (x y : PhysMem) : Prop where
  scan : Scannable supply root maxPhyAddr { z with mem := x }
  newRoot : Fresh x root windows cr3.toNat
  prepared : Prepared x y root cr3.toNat
  entries : ∀ i, i < 512 → y (cr3.toNat + 8 * i) =
    if i = secondaryPml4Index ∨ i = primaryPml4Index then rootEntry maxPhyAddr cr3 else 0#64
  reach : ∀ a k u, Outside windows a → Reach w.mem a 3 root k u → Reach x a 3 root k u
  low : ∀ a k u, a < 2 ^ 39 → Reach w.mem a 3 root k u → x (slot u k a) = w.mem (slot u k a)
  unmapped : ∀ j, j < gpPages → Unmapped w.mem root j → Unmapped x root j
  created : createSecondaryRecursiveMapping supply w root maxPhyAddr cr3 =
    shareKernelMemory supply { z with mem := y } root maxPhyAddr

theorem rooted_of_page (h : Scannable supply root maxPhyAddr w) (hcr3 : GoodPage w.mem root maxPhyAddr cr3)
    (hmem : cr3 ∈ w.taken) (hi : i < gpPages) (ha : Added supply root w z new)
    (ht : Reach z.mem (generalPage i) 3 root 0 t)
    (hmap : mapGeneralPages supply w root maxPhyAddr cr3 1 (entryPresent ||| entryReadWrite) =
      some (some (generalPage i + cr3.toNat % Layout.pageSize), { z with
        mem := update z.mem (slot t 0 (generalPage i))
          (generalEntry maxPhyAddr cr3 (entryPresent ||| entryReadWrite)) })) :
    ∃ x y, Rooted supply root maxPhyAddr cr3 w z x y := by
  have hva := generalPage_outside hi
  have hcan : Canonical (generalPage i) := by
    rw [gpPages_eq] at hi
    exact (general_address (by rw [generalPage_eq]; omega) (by rw [generalPage_eq]; omega)).1
  have htables := ha.grown.tables
  have hnew : ∀ p ∈ new, Fresh w.mem root windows p.toNat := fun p hp => by
    obtain ⟨hnot, s, hs⟩ := ha.supplied p hp
    exact (h.next s p hs hnot).2
  have hgiven : ∀ p ∈ new, ∃ j, Given (fun j => (new[j]?, none)) j p := fun p hp => by
    obtain ⟨j, hj⟩ := List.mem_iff_getElem?.mp hp
    exact ⟨j, .inl hj⟩
  have hwritten : Written z.mem (update z.mem (slot t 0 (generalPage i))
      (generalEntry maxPhyAddr cr3 (entryPresent ||| entryReadWrite))) root maxPhyAddr (generalPage i / 4096) 1 cr3 :=
    .cons (by decide) htables hcan hva ht (.refl (leaf_tables htables hva ht fun q hq _ => if_neg hq) _ _)
  have hpage := windowPage_of hcr3 hi (ha.grown.mono hgiven) ht hwritten
  have hroot₁ := hpage.fresh _ hcr3.2 fun j p hg he => by
    have hp : p ∈ new := by
      rcases hg with hg | hg
      · exact List.mem_of_getElem? hg
      · cases hg
    rw [← BitVec.eq_of_toNat_eq he] at hp
    exact (ha.supplied cr3 hp).1 hmem
  obtain ⟨m₂, m₃, m₄, hzero, hwrite₃, hwrite₄, hentries, hrest⟩ := fillRoot_spec maxPhyAddr hpage hroot₁
  obtain ⟨m₅, y, hunmap, hupdate, hprepared, hkept⟩ := prepare_spec hpage hroot₁ hcr3.1 hentries hrest
  generalize hm₁ : update z.mem (slot t 0 (generalPage i))
    (generalEntry maxPhyAddr cr3 (entryPresent ||| entryReadWrite)) = m₁ at *
  have hbut : SameBut z.mem (update m₁ (slot t 0 (generalPage i)) 0#64) (slot t 0 (generalPage i)) fun _ => False := by
    intro q hq _
    rw [update, if_neg hq, ← hm₁, update, if_neg hq]
  obtain ⟨-, -, hreach⟩ := hpage.unmapped
  have haligned : cr3.toNat % Layout.pageSize = 0 := hcr3.2.aligned
  rw [haligned, Nat.add_zero] at hmap
  refine ⟨update m₁ (slot t 0 (generalPage i)) 0#64, y, (h.added ha).leaf hva ht hbut,
    ⟨hroot₁.aligned, fun a n u hout hr => hroot₁.unused a n u hout ((hreach a n u hout).mp hr)⟩, hprepared, hkept,
    fun a k u hout hr => (hreach a k u hout).mpr (hpage.kept a k u hout hr), fun a k u hlow hr => ?_,
    fun j hj hun => ?_, ?_⟩
  · have hne : slot u k a ≠ slot t 0 (generalPage i) :=
      low_apart htables.tree hlow (generalPage_index hi) (ha.grown.reach a k u (outside_low (by omega)) hr) ht
    rw [hbut _ hne fun _ hf => hf.elim]
    exact ha.low h.tables hnew hlow hr
  · refine unmapped_leaf htables hi hj ht hbut ?_ ?_
    · rw [update, if_pos rfl]
      rfl
    · unfold Unmapped at hun ⊢
      rw [ha.grown.same _ (generalPage_outside hj)]
      exact hun
  · unfold createSecondaryRecursiveMapping
    simp only [Option.bind_eq_bind, hmap, Option.bind_some, hzero, hwrite₃, hwrite₄, hunmap, Bool.not_true,
      Bool.false_eq_true, if_false, hupdate]

/-! ## The two frames of the sharing -/

theorem Rooted.undisturbed (h : Rooted supply root maxPhyAddr cr3 w z x y)
    (hm : ∀ q, ¬ (cr3.toNat ≤ q ∧ q < cr3.toNat + 4096) → m' q = y q) : Undisturbed x m' root := by
  refine undisturbed_of_pages (F := fun f => f = cr3.toNat) h.scan.tables ?_ fun q hq hpages => ?_
  · rintro f rfl
    exact h.newRoot
  · rw [hm q (hpages _ rfl)]
    exact h.prepared.rest q (hpages _ rfl) hq

theorem Rooted.windowed (h : Rooted supply root maxPhyAddr cr3 w z x y) : Windowed y root cr3.toNat where
  primary := ((h.undisturbed fun _ _ => rfl).tables h.scan.tables).window
  secondary := ⟨h.prepared.secondary, h.prepared.self⟩

theorem Rooted.root_ne (h : Rooted supply root maxPhyAddr cr3 w z x y) : root ≠ cr3.toNat :=
  h.newRoot.unused 0 3 root outside_zero (.here _ _)

/-- The sharing is refused: the pages of the window are as they were. -/
theorem Rooted.refused (h : Rooted supply root maxPhyAddr cr3 w z x y) (first second : Option Entry)
    (hno : first = none ∨ second = none) :
    ∃ y', shareKernelMemoryToSecondaryMapping y root maxPhyAddr first second = some (false, y') ∧
      ∀ j, j < gpPages → Unmapped w.mem root j → Unmapped y' root j := by
  obtain ⟨y', hrun, hrest⟩ := share_refused h.windowed h.scan.tables.tree.aligned h.newRoot.aligned h.root_ne hno
  refine ⟨y', hrun, fun j hj hun => ?_⟩
  unfold Unmapped
  rw [(h.undisturbed hrest).translate (generalPage_outside hj)]
  exact h.unmapped j hj hun

theorem slot_last {a t : Nat} (ha : index 3 a = 511) : slot t 3 a = t + 8 * 511 := by
  unfold slot
  rw [ha]

/-- Nothing leads from the last entry of a root, when it is empty. -/
theorem reach_last {m : PhysMem} {t a n u : Nat} (hzero : m (t + 8 * 511) = 0#64) (ha : index 3 a = 511)
    (hr : Reach m a 3 t n u) : n = 3 ∧ u = t := by
  cases hr with
  | here => exact ⟨rfl, rfl⟩
  | down hl _ =>
    rw [slot_last ha, hzero] at hl
    cases hl.1

/-- The sharing succeeds. -/
theorem Rooted.shared (h : Rooted supply root maxPhyAddr cr3 w z x y) (hs : SupplyReady supply w.mem root maxPhyAddr)
    {p s : Entry} (hp : supply z.taken = some p) (hsecond : supply (p :: z.taken) = some s)
    (htaken : cr3 ∈ z.taken) (hsupplied : ∀ q ∈ z.taken, ∃ l, supply l = some q) :
    ∃ y', shareKernelMemoryToSecondaryMapping y root maxPhyAddr (some p) (some s) = some (true, y') ∧
      Space supply w.mem root maxPhyAddr cr3 p (({ z with mem := y' }.take p).take s) := by
  have hnew : p ∉ z.taken := hs.unused _ p hp
  obtain ⟨hbits, hfresh⟩ := h.scan.next _ p hp hnew
  have hne : cr3 ≠ p := by
    rintro rfl
    exact hnew htaken
  have hslot0 : PointsTo (x root) (w.mem root).frame := by
    have hsame : x root = w.mem root := by
      have hlow := h.low 0 3 root (by decide) (.here _ _)
      unfold slot at hlow
      rwa [show index 3 0 = 0 by decide, Nat.mul_zero, Nat.add_zero] at hlow
    rw [hsame]
    exact ⟨hs.slot0, rfl⟩
  have hn : NewFrames x root cr3.toNat p.toNat (w.mem root).frame :=
    ⟨h.scan.tables, hslot0, h.newRoot, hfresh, fun he => hne (BitVec.eq_of_toNat_eq he)⟩
  obtain ⟨y', hrun, hshared, hrest⟩ := share_spec s h.prepared hn hbits
  have hra := h.scan.tables.tree.aligned
  have hca := h.newRoot.aligned
  have hpa := hfresh.aligned
  have hrc := h.root_ne
  have hrp : root ≠ p.toNat := hfresh.unused 0 3 root outside_zero (.here _ _)
  have hcp : cr3.toNat ≠ p.toNat := hn.apart
  have hsec := secondaryPml4Index_eq
  have hund : Undisturbed x y' root := by
    refine undisturbed_of_pages (F := fun f => f = cr3.toNat ∨ f = p.toNat) h.scan.tables ?_ fun q hq hpages => ?_
    · rintro f (rfl | rfl)
      · exact h.newRoot
      · exact hfresh
    · have hq' := hpages p.toNat (.inr rfl)
      exact hshared.rest q (hpages _ (.inl rfl)) hq (by omega)
  have hentry : ∀ i, 509 ≤ i → i < 512 → y' (cr3.toNat + 8 * i) =
      if i = secondaryPml4Index ∨ i = primaryPml4Index then rootEntry maxPhyAddr cr3 else 0#64 := fun i h1 h2 => by
    rw [hrest _ (fun j hj => by omega) (by omega)]
    exact h.entries i h2
  have hlast : y' (cr3.toNat + 8 * 511) = 0#64 := by
    rw [hentry 511 (by decide) (by decide), if_neg (by decide)]
  have hin : ∀ a, Outside besideTask a → index 3 a = 511 := fun a ha => Classical.byContradiction ha
  refine ⟨y', hrun, ?_⟩
  refine ⟨h.scan.undisturbed hund fun q hq => List.mem_cons_of_mem _ (List.mem_cons_of_mem _ hq),
    ⟨⟨?_, ?_⟩, ?_, hshared.link, fun i hi => ?_, fun a k u ha hr => ?_⟩, fun l q hq => (hs.frames l q hq).2,
    fun q hq => ?_, ⟨List.mem_cons_of_mem _ (List.mem_cons_of_mem _ htaken), hund.fresh h.newRoot⟩,
    ⟨List.mem_cons_of_mem _ List.mem_cons_self, hund.fresh hfresh⟩, hne,
    ⟨h.newRoot.aligned, fun a a' n n' u ha ha' hr hr' => ?_⟩, fun a ha n u hr _ hpresent => ?_,
    fun a n u ha hr hlt => ?_⟩
  · change PointsTo (y' (root + 8 * 509)) cr3.toNat
    rw [hrest _ (fun j hj => by omega) (by omega)]
    exact h.prepared.secondary
  · exact hshared.self
  · change (y' (cr3.toNat + 8 * primaryPml4Index)).present = true
    rw [hentry _ (by decide) (by decide), if_pos (.inr rfl), rootEntry_eq, setPML4EInfo_link]
    exact (link_entry false (filterAddress maxPhyAddr cr3)).1.1
  · have hpdpt : Reach w.mem (lowAddress i 0 0) 3 root 2 (w.mem root).frame :=
      reach_slot0 (lowAddress_lt (by omega)) ⟨hs.slot0, rfl⟩
    have hsame := h.low _ 2 _ (lowAddress_lt (by omega)) hpdpt
    unfold slot at hsame
    rw [(lowAddress_indices (show i < 512 by omega) (show 0 < 512 by decide) (show 0 < 512 by decide)).2.1] at hsame
    exact (hshared.dma i hi).trans (by rw [hsame])
  · have hout := outside_low (show a < 2 ^ 47 by omega)
    exact (hshared.reads hn hout (h.reach a k u hout hr)).trans (h.low a k u ha hr)
  · rcases List.mem_cons.mp hq with rfl | hq
    · exact ⟨_, hsecond⟩
    · rcases List.mem_cons.mp hq with rfl | hq
      · exact ⟨_, hp⟩
      · exact hsupplied q hq
  · obtain ⟨rfl, -⟩ := reach_last hlast (hin a ha) hr
    obtain ⟨rfl, -⟩ := reach_last hlast (hin a' ha') hr'
    exact ⟨rfl, fun k hk h3 => absurd hk (by omega)⟩
  · obtain ⟨rfl, rfl⟩ := reach_last hlast ha hr
    change (y' (slot cr3.toNat 3 a)).large = false
    rw [slot_last ha, hlast]
    rfl
  · obtain ⟨rfl, -⟩ := reach_last hlast ha hr
    omega

/-! ## The call -/

/-- The scan has come to page `i` and found or added its tables, on the frames `new`. -/
structure Scanned (supply : Supply) (root i : Nat) (w z : World) (new : List Entry) : Prop where
  added : Added supply root w z new
  nil : new = [] ↔ HasTables w.mem root i
  granted : HasTables w.mem root i ∨ supply w.taken ≠ none

/-- How `CreateSecondaryRecursiveMapping` ends when `i` is the first page of the window that is not mapped: in the scan,
at one of the two frames of the sharing, or with the new space set up. -/
inductive Created (supply : Supply) (root maxPhyAddr i : Nat) (cr3 : Entry) (w : World) : Bool → World → Prop
  | refused (z : World) (new : List Entry) : Added supply root w z new → ¬ HasTables w.mem root i →
      (new = [] ↔ supply w.taken = none) → Created supply root maxPhyAddr i cr3 w false z
  | unshared (z : World) (new : List Entry) (m' : PhysMem) : Scanned supply root i w z new → supply z.taken = none →
      Created supply root maxPhyAddr i cr3 w false { z with mem := m' }
  | halfShared (z : World) (new : List Entry) (m' : PhysMem) (p : Entry) : Scanned supply root i w z new →
      supply z.taken = some p → supply (p :: z.taken) = none →
      Created supply root maxPhyAddr i cr3 w false (({ z with mem := m' }.take p).free p)
  | done (z : World) (new : List Entry) (m' : PhysMem) (p s : Entry) : Scanned supply root i w z new →
      supply z.taken = some p → supply (p :: z.taken) = some s →
      Space supply w.mem root maxPhyAddr cr3 p (({ z with mem := m' }.take p).take s) →
      Created supply root maxPhyAddr i cr3 w true (({ z with mem := m' }.take p).take s)

theorem SupplyReady.scan (hs : SupplyReady supply m root maxPhyAddr) (taken : List Entry) (freed : List FreeCall) :
    Scannable supply root maxPhyAddr ⟨m, taken, freed⟩ :=
  ⟨hs.tables, hs.kernel, hs.small, hs.unused, fun s p hp _ => hs.frames s p hp⟩

theorem create_full (hs : SupplyReady supply m root maxPhyAddr) (hfull : WindowFull m root) (taken : List Entry)
    (freed : List FreeCall) : createSecondaryRecursiveMapping supply ⟨m, taken, freed⟩ root maxPhyAddr cr3 =
      some (false, ⟨m, taken, freed⟩) := by
  unfold createSecondaryRecursiveMapping
  simp only [Option.bind_eq_bind, mapGeneralPages_full (hs.scan taken freed) hfull cr3 (entryPresent ||| entryReadWrite)
    (show 1 ≠ 0 by decide), Option.bind_some]
  rfl

theorem create_cases (hs : SupplyReady supply m root maxPhyAddr) (hcr3 : supply [] = some cr3)
    (hi : FirstUnmapped m root i) :
    ∃ ok w', createSecondaryRecursiveMapping supply ⟨m, [cr3], []⟩ root maxPhyAddr cr3 = some (ok, w') ∧
      Created supply root maxPhyAddr i cr3 ⟨m, [cr3], []⟩ ok w' ∧
      (ok = false → ∀ j, j < gpPages → Unmapped m root j → Unmapped w'.mem root j) := by
  have hscan := hs.scan [cr3] []
  obtain ⟨ok, z, new, ha, hthere, hnew, hfail, hfound⟩ := mapGeneralPages_first hscan hi cr3
    (entryPresent ||| entryReadWrite)
  cases ok with
  | false =>
    have hno : ¬ HasTables m root i := fun hhas => by
      have hok := (hthere hhas).1
      cases hok
    refine ⟨false, z, ?_, .refused z new ha hno (hnew hno).1, fun _ j hj hun => ?_⟩
    · unfold createSecondaryRecursiveMapping
      simp only [Option.bind_eq_bind, hfail rfl, Option.bind_some]
      rfl
    · unfold Unmapped at hun ⊢
      rw [ha.grown.same _ (generalPage_outside hj)]
      exact hun
  | true =>
    obtain ⟨t, ht, hmap⟩ := hfound rfl
    have hgranted : ¬ HasTables m root i → new ≠ [] ∧ supply [cr3] ≠ none := fun hno => by
      obtain ⟨hiff, hok⟩ := hnew hno
      have hsome : supply [cr3] ≠ none := fun hnone => by
        have hbad := hok hnone
        cases hbad
      exact ⟨fun hnil => hsome (hiff.mp hnil), hsome⟩
    have hscanned : Scanned supply root i ⟨m, [cr3], []⟩ z new := by
      refine ⟨ha, ⟨fun hnil => Classical.byContradiction fun hno => (hgranted hno).1 hnil, fun hhas =>
        (hthere hhas).2⟩, ?_⟩
      by_cases hhas : HasTables m root i
      · exact .inl hhas
      · exact .inr (hgranted hhas).2
    obtain ⟨x, y, hr⟩ := rooted_of_page hscan (hs.frames [] cr3 hcr3) (List.mem_singleton_self cr3) hi.lt ha ht hmap
    rw [hr.created]
    unfold shareKernelMemory
    cases hp : supply z.taken with
    | none =>
      obtain ⟨y', hrun, hun⟩ := hr.refused none none (.inl rfl)
      refine ⟨false, { z with mem := y' }, ?_, .unshared z new y' hscanned hp, fun _ => hun⟩
      simp only [hrun]
      rfl
    | some p =>
      cases hsecond : supply (p :: z.taken) with
      | none =>
        obtain ⟨y', hrun, hun⟩ := hr.refused (some p) none (.inr rfl)
        refine ⟨false, _, ?_, .halfShared z new y' p hscanned hp hsecond, fun _ => hun⟩
        simp only [World.take, hsecond, hrun]
        rfl
      | some s =>
        have hmem : ∀ q, q ∈ z.taken → q ∈ new ∨ q = cr3 := fun q hq => by
          rw [ha.taken, List.mem_append, List.mem_singleton] at hq
          exact hq
        obtain ⟨y', hrun, hspace⟩ := hr.shared hs hp hsecond (by
          rw [ha.taken]
          exact List.mem_append_right _ (List.mem_singleton_self cr3)) fun q hq => by
            rcases hmem q hq with hq | rfl
            · exact (ha.supplied q hq).2
            · exact ⟨[], hcr3⟩
        refine ⟨true, _, ?_, .done z new y' p s hscanned hp hsecond hspace, fun hok => by cases hok⟩
        simp only [World.take, hsecond, hrun]
        rfl

end

end BadLands.Mm.AddressSpace
