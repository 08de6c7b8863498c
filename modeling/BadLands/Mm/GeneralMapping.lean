import BadLands.Mm.TableGrants

/-!
# Mapping into the window and back

`UnmapGeneralPages` clears the entries of the pages it is given. Behind `MapGeneralPages`, whose run had no present
page, that gives every translation back: `mapGeneralPages_restored`.

The frames of the run are the consecutive ones from that of the address on. `FilterAddress` cuts each to the bits that
the processor implements, so that a run that goes past the end of the physical addresses continues at address 0.
-/
namespace BadLands.Mm.Paging

open BadLands.Core BadLands.Core.PageTable BadLands.Mm.Layout

/-! ## The frames -/

/-- The frame of page `k` of a run. -/
theorem run_frame {maxPhyAddr : Nat} (hmax : maxPhyAddr ≤ 52) (x : Entry) (k : Nat) :
    (filterAddress maxPhyAddr (x + BitVec.ofNat 64 (k * 4096)) &&& entryAddress).toNat =
      (x.toNat + k * 4096) % 2 ^ maxPhyAddr / 4096 * 4096 := by
  have hdvd : 2 ^ maxPhyAddr ∣ 2 ^ 64 := Nat.pow_dvd_pow 2 (by omega)
  rw [filterAddress_toNat hmax, BitVec.toNat_add, BitVec.toNat_ofNat, Nat.add_mod_mod, Nat.mod_mod_of_dvd _ hdvd]

/-! ## Unmapping a run -/

/-- The entries of the `count` pages from page number `first` on are cleared. -/
structure Cleared (m m' : PhysMem) (root first count : Nat) : Prop where
  tables : Tables m' root
  gone : ∀ a, first ≤ a / 4096 → a / 4096 < first + count → translation m' root a = none
  others : ∀ a, Outside windows a → a / 4096 < first ∨ first + count ≤ a / 4096 →
    translation m' root a = translation m root a

section
variable {m m' : PhysMem} {root va : Nat}

/-- One entry. -/
theorem cleared_entry {t : Nat} (h : Tables m root) (hcan : Canonical va) (hva : Outside windows va)
    (ht : Reach m va 3 root 0 t) : Cleared m (update m (slot t 0 va) 0#64) root (va / 4096) 1 := by
  have hbut : SameBut m (update m (slot t 0 va) 0#64) (slot t 0 va) fun _ => False := fun q hq _ => if_neg hq
  refine ⟨leaf_tables h hva ht hbut, fun a h1 h2 => ?_, fun a ha hne => ?_⟩
  · have hpage : a / 4096 = va / 4096 := by omega
    have hpath : SamePath 1 va a := fun n _ _ => (index_page hpage n).symm
    have hout : Outside windows a := by
      unfold Outside
      rw [index_page hpage]
      exact hva
    have hr := (leaf_reach h.tree hva ht hbut hout).mpr (hpath.reach (Nat.le_refl 3) ht)
    have hslot : slot t 0 a = slot t 0 va := by
      unfold slot
      rw [index_page hpage]
    unfold translation
    rw [if_pos (canonical_page hpage hcan), hr.walk, walk_absent]
    rw [hslot, update, if_pos rfl]
    rfl
  · by_cases hc : Canonical a
    · refine leaf_translate_other h.tree hva ht hbut ha fun hp => ?_
      have := samePath_page hc hcan hp
      omega
    · unfold translation
      rw [if_neg hc, if_neg hc]

/-- One entry, then the others. -/
theorem Cleared.trans {m₁ : PhysMem} {first count : Nat} (h : Cleared m m₁ root first 1)
    (h' : Cleared m₁ m' root (first + 1) count)
    (hout : ∀ a, a / 4096 = first → Outside windows a) : Cleared m m' root first (count + 1) where
  tables := h'.tables
  gone a h1 h2 := by
    by_cases hfirst : a / 4096 = first
    · rw [h'.others a (hout a hfirst) (by omega)]
      exact h.gone a h1 (by omega)
    · exact h'.gone a (by omega) (by omega)
  others a ha hne := by
    rw [h'.others a ha (by omega)]
    exact h.others a ha (by omega)

/-- A run of pages that all have their tables, from any byte of the first on. -/
theorem unmapGeneralLoop_spec {o : Nat} (ho : o < 4096) (k : Nat) : ∀ (i : Nat) (m : PhysMem), i + k ≤ gpPages →
    Tables m root → (∀ j, i ≤ j → j < i + k → ∃ t, Reach m (generalPage j) 3 root 0 t) →
    ∃ m', unmapGeneralLoop root k (generalPage i + o) m = some (true, m') ∧
      Cleared m m' root (generalPage i / 4096) k := by
  induction k with
  | zero =>
    intro i m _ h _
    exact ⟨m, rfl, h, fun a h1 h2 => by omega, fun _ _ _ => rfl⟩
  | succ k ih =>
    intro i m hi h hreach
    obtain ⟨t, ht⟩ := hreach i (Nat.le_refl _) (by omega)
    have hpages := gpPages_eq
    have hi_eq := generalPage_eq i
    obtain ⟨hcan, hva⟩ := general_address (a := generalPage i + o) (by omega) (by omega)
    have hpage : (generalPage i + o) / 4096 = generalPage i / 4096 := by omega
    have hpath : SamePath 1 (generalPage i) (generalPage i + o) := fun n _ _ => (index_page hpage n).symm
    have ht' : Reach m (generalPage i + o) 3 root 0 t := hpath.reach (Nat.le_refl 3) ht
    have hbut : SameBut m (update m (slot t 0 (generalPage i + o)) 0#64) (slot t 0 (generalPage i + o)) fun _ => False :=
      fun q hq _ => if_neg hq
    have hfirst := cleared_entry h hcan hva ht'
    have hnext : generalPage i + o + Layout.pageSize = generalPage (i + 1) + o := by
      rw [Nat.add_right_comm, generalPage_succ]
    obtain ⟨m', hrun, hrest⟩ := ih (i + 1) _ (by omega) hfirst.tables fun j h1 h2 => by
      obtain ⟨u, hu⟩ := hreach j (by omega) (by omega)
      exact ⟨u, (leaf_reach h.tree hva ht' hbut (generalPage_outside (by omega))).mpr hu⟩
    refine ⟨m', ?_, ?_⟩
    · rw [unmapGeneralLoop_succ h ht', hnext]
      exact hrun
    · rw [hpage] at hfirst
      rw [show generalPage (i + 1) / 4096 = generalPage i / 4096 + 1 by
        have := generalPage_eq (i + 1)
        omega] at hrest
      refine hfirst.trans hrest fun a ha => (general_address ?_ ?_).2
      · omega
      · omega

end

/-- A page without a translation has none anywhere. -/
theorem walk_page_none {m : PhysMem} {a v : Nat} (h : a / 4096 = v / 4096) : ∀ (n t : Nat), walk m v n t = none →
    walk m a n t = none
  | 0, t, hv => by
    have hslot : slot t 0 a = slot t 0 v := by
      unfold slot
      rw [index_page h]
    rw [walk] at hv ⊢
    rw [hslot]
    cases hp : (m (slot t 0 v)).present with
    | true => simp [hp] at hv
    | false => rfl
  | n + 1, t, hv => by
    have hslot : slot t (n + 1) a = slot t (n + 1) v := by
      unfold slot
      rw [index_page h]
    rw [walk] at hv ⊢
    rw [hslot]
    cases hp : (m (slot t (n + 1) v)).present with
    | false => rfl
    | true =>
      cases hl : (m (slot t (n + 1) v)).large with
      | true =>
        simp only [hp, hl, Bool.not_true, Bool.false_eq_true, if_false, if_true] at hv ⊢
        split at hv
        · rename_i h3
          rw [if_pos h3]
        · cases hv
      | false =>
        simp only [hp, hl, Bool.not_true, Bool.false_eq_true, if_false] at hv ⊢
        exact walk_page_none h n _ hv

theorem unmapped_page {m : PhysMem} {root i a : Nat} (h : a / 4096 = generalPage i / 4096) (hi : Unmapped m root i) :
    translation m root a = none := by
  unfold Unmapped at hi
  unfold translation at hi ⊢
  split
  · rename_i hcan
    rw [if_pos (canonical_page h.symm hcan)] at hi
    exact walk_page_none h 3 root hi
  · rfl

/-- What a call of `MapGeneralPages` should leave: nothing is mapped, or the first run that is long enough, to
consecutive frames, and `UnmapGeneralPages` of it gives every translation back. -/
def RunMapped (m : PhysMem) (root maxPhyAddr : Nat) (pageAddress : Entry) (pages : Nat) (m' : PhysMem) :
    Option Nat → Prop
  | none => ∀ a, Outside windows a → translation m' root a = translation m root a
  | some v => ∃ s, FirstRun m root pages s ∧ v = generalPage s + pageAddress.toNat % 4096 ∧
      (∀ k o, k < pages → o < 4096 → translation m' root (generalPage s + k * 4096 + o) =
        some ((pageAddress.toNat + k * 4096) % 2 ^ maxPhyAddr / 4096 * 4096 + o)) ∧
      (∀ a, Outside windows a → a < generalPage s ∨ generalPage s + pages * 4096 ≤ a →
        translation m' root a = translation m root a) ∧
      ∃ m'', unmapGeneralPages m' root v pages = some (true, m'') ∧
        ∀ a, Outside windows a → translation m'' root a = translation m root a

section
variable {m m' : PhysMem} {root maxPhyAddr pages : Nat} {pageAddress flags : Entry}
  {allocs : Nat → Option Entry × Option Entry}

theorem GeneralOutcome.runMapped {r : Option Nat} (hmax : maxPhyAddr ≤ 52)
    (h : GeneralOutcome m root maxPhyAddr pageAddress pages flags allocs m' r) :
    RunMapped m root maxPhyAddr pageAddress pages m' r := by
  cases r with
  | none => exact h.same
  | some v =>
    obtain ⟨s, z, hs, rfl, hg, hreach, -, hw⟩ := h
    have hfits := hs.fits
    have hgp := gpPages_eq
    have hs_eq := generalPage_eq s
    refine ⟨s, hs, rfl, fun k o hk ho => ?_, fun a ha hne => ?_, ?_⟩
    · have hpage : (generalPage s + k * 4096 + o) / 4096 - generalPage s / 4096 = k := by omega
      rw [hw.mapped _ (by omega) (by omega), hpage, run_frame hmax]
      congr 2
      omega
    · rw [hw.others a ha (by omega), hg.same a ha]
    · obtain ⟨m'', hrun, hc⟩ := unmapGeneralLoop_spec (o := pageAddress.toNat % 4096) (Nat.mod_lt _ (by decide)) pages s m'
        hfits hw.tables fun j h1 h2 => by
          obtain ⟨t, ht⟩ := hreach j (by omega)
          exact ⟨t, (hw.reach _ _ _ (generalPage_outside (by omega))).mpr ht⟩
      refine ⟨m'', hrun, fun a ha => ?_⟩
      by_cases hin : generalPage s / 4096 ≤ a / 4096 ∧ a / 4096 < generalPage s / 4096 + pages
      · -- the page was not mapped before
        rw [hc.gone a hin.1 hin.2]
        have hpage := generalPage_eq (s + (a / 4096 - generalPage s / 4096))
        exact (unmapped_page (by omega) (hs.unmapped (a / 4096 - generalPage s / 4096) (by omega))).symm
      · rw [hc.others a ha (by omega), hw.others a ha (by omega), hg.same a ha]

end

/-! ## One call after another -/

section
variable {m m' : PhysMem} {root maxPhyAddr pages : Nat} {pageAddress flags : Entry}
  {allocs again : Nat → Option Entry × Option Entry}

/-- The entries of a run are small ones. -/
theorem writePages_noLarge {a : Nat} (ha : Outside windows a) (k : Nat) : ∀ (i : Nat) (physicalAddress : Entry) (m : PhysMem),
    i + k ≤ gpPages → Tables m root → (∀ j, i ≤ j → j < i + k → ∃ t, Reach m (generalPage j) 3 root 0 t) →
    NoLarge m root a → writePages root maxPhyAddr flags k (generalPage i) physicalAddress m = some m' → NoLarge m' root a := by
  induction k with
  | zero =>
    intro i physicalAddress m _ _ _ hlarge hrun
    cases hrun
    exact hlarge
  | succ k ih =>
    intro i physicalAddress m hi h hreach hlarge hrun
    obtain ⟨t, ht⟩ := hreach i (Nat.le_refl _) (by omega)
    have hva := generalPage_outside (show i < gpPages by omega)
    have hbut : SameBut m (update m (slot t 0 (generalPage i)) (generalEntry maxPhyAddr physicalAddress flags))
        (slot t 0 (generalPage i)) fun _ => False := fun q hq _ => if_neg hq
    rw [writePages, writeVirtual, ptePointer h.window ht, generalPage_succ] at hrun
    refine ih (i + 1) (physicalAddress + 0x1000#64) _ (by omega) (leaf_tables h hva ht hbut) (fun j h1 h2 => ?_)
      (leaf_noLarge h.tree hva ht hbut ha hlarge) hrun
    obtain ⟨u, hu⟩ := hreach j (by omega) (by omega)
    exact ⟨u, (leaf_reach h.tree hva ht hbut (generalPage_outside (by omega))).mpr hu⟩

/-- The kernel's entry of the root stays, with the tables below it. -/
theorem kernel_kept (h : (m (root + 8 * 256)).Links) (hreach : ∀ a k u, Outside windows a → Reach m a 3 root k u →
    Reach m' a 3 root k u) : (m' (root + 8 * 256)).Links := by
  have h0 : 0 < gpPages := by decide
  have hslot : ∀ t, slot t 3 (generalPage 0) = t + 8 * 256 := fun t => by
    unfold slot
    rw [generalPage_index h0]
  have hdown : Reach m (generalPage 0) 3 root 2 (m (root + 8 * 256)).frame := by
    rw [← hslot] at h ⊢
    exact .down h (.here _ _)
  obtain ⟨v, hv, hl, -⟩ := (hreach _ _ _ (generalPage_outside h0) hdown).linked (by decide)
  obtain rfl := hv.unique (.here _ _)
  rwa [hslot] at hl

/-- The next call may rely on what this one could, for frames that are others. -/
theorem GeneralOutcome.ready {r : Option Nat} (hm : GeneralReady m root maxPhyAddr allocs)
    (hagain : GeneralReady m root maxPhyAddr again) (hothers : ∀ i j p, Given allocs i p → ¬ Given again j p)
    (h : GeneralOutcome m root maxPhyAddr pageAddress pages flags allocs m' r) : GeneralReady m' root maxPhyAddr again := by
  have hgood : ∀ {x}, (Grown m x root fun p => ∃ j, Given allocs j p) → ∀ i p, Given again i p → GoodPage x root maxPhyAddr p :=
    fun hg i p hp => hg.goodPage (hagain.frames i p hp) fun q ⟨j, hq⟩ heq => hothers j i p (heq ▸ hq) hp
  cases r with
  | none =>
    exact ⟨h.tables, kernel_kept hm.kernel h.reach, fun i hi => h.noLarge _ (generalPage_outside hi) (hm.small i hi),
      hgood h, hagain.once, hagain.apart⟩
  | some v =>
    obtain ⟨s, z, hs, -, hg, hreach, hrun, hw⟩ := h
    refine ⟨hw.tables, kernel_kept hm.kernel fun a k u ha hr => (hw.reach a k u ha).mpr (hg.reach a k u ha hr),
      fun i hi => ?_, fun i p hp => ?_, hagain.once, hagain.apart⟩
    · exact writePages_noLarge (generalPage_outside hi) pages s pageAddress z hs.fits hg.tables
        (fun j _ hj => hreach j hj) (hg.noLarge _ (generalPage_outside hi) (hm.small i hi)) hrun
    · obtain ⟨hbits, hfresh⟩ := hgood hg i p hp
      exact ⟨hbits, hfresh.aligned, fun a n u ha hr => hfresh.unused a n u ha ((hw.reach a n u ha).mp hr)⟩

end

/-! ## The restored window -/

/-- `MapGeneralPages` on a window without large pages, for any address, any number of pages and any outcome of the
allocations: the call returns, and leaves the translations as they were or maps the first run that is long enough and
nothing else; unmapping the run leaves them as they were. -/
theorem mapGeneralPages_restored (m : PhysMem) (root maxPhyAddr pages : Nat) (pageAddress flags : Entry)
    (allocs : Nat → Option Entry × Option Entry) (hm : GeneralReady m root maxPhyAddr allocs)
    (hmax : maxPhyAddr ≤ 52) (hflags : flags &&& entryAddress = 0#64) (hpages : 0 < pages) :
    ∃ r m', mapGeneralPages m root maxPhyAddr pageAddress pages flags allocs = some (r, m') ∧
      RunMapped m root maxPhyAddr pageAddress pages m' r := by
  obtain ⟨r, m', hrun, hout⟩ := mapGeneralPages_spec pageAddress hm hflags hpages
  exact ⟨r, m', hrun, hout.runMapped hmax⟩

/-- The last page of the physical addresses and the one behind it. -/
theorem mapGeneralPages_restored_two : ∃ r m', mapGeneralPages generalRoot 0x1000 48 0xFFFFFFFFF000#64 2 entryReadWrite
    (fun _ => (none, none)) = some (r, m') ∧ RunMapped generalRoot 0x1000 48 0xFFFFFFFFF000#64 2 m' r :=
  mapGeneralPages_restored generalRoot 0x1000 48 2 0xFFFFFFFFF000#64 entryReadWrite (fun _ => (none, none))
    generalReady_generalRoot (by decide) (by decide) (by decide)

/-- The address has implemented bits only, and the second page of its run is mapped to address 0. -/
theorem run_wraps : ∃ m', mapGeneralPages generalRoot 0x1000 48 0xFFFFFFFFF000#64 2 entryReadWrite
    (fun _ => (none, none)) = some (some 0xFFFF800130000000, m') ∧ (0xFFFFFFFFF000#64).toNat < 2 ^ 48 ∧
      translation m' 0x1000 0xFFFF800130001000 = some 0 ∧
      translation m' 0x1000 0xFFFF800130001000 ≠ some (0xFFFFFFFFF000 + 4096) := by
  have hrun : (mapGeneralPages generalRoot 0x1000 48 0xFFFFFFFFF000#64 2 entryReadWrite fun _ => (none, none)).map
      (fun r => (r.1, translation r.2 0x1000 0xFFFF800130001000)) = some (some 0xFFFF800130000000, some 0) := by
    decide +kernel
  rw [Option.map_eq_some_iff] at hrun
  obtain ⟨⟨v, m'⟩, hrun, hv⟩ := hrun
  obtain ⟨rfl, htranslation⟩ := Prod.mk.injEq .. ▸ hv
  refine ⟨m', hrun, by decide, htranslation, ?_⟩
  rw [htranslation]
  decide

end BadLands.Mm.Paging
