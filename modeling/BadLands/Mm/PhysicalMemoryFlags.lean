import BadLands.Mm.PhysicalMemoryRuns

/-!
# The summary flags along runs of `Allocate` and `Free`

`PhysicalMemory.cpp` documents its flags: a region has `AnyFree` set iff some page below it is
free. `Mark2MBRegionUsed` and `Mark32MBRegionUsed` keep them in two ways that miss this:

* `AnyFree` of a 32MB region is cleared as soon as all its 2MB children have `AnyUsed` set,
  whatever their `AnyFree` bits say;
* the search of `Allocate` marks the 2MB region before it sets the page bit, so the region
  keeps `AnyFree` when its last page goes.

* `nothing_lost_iff`: the flags stay exact, and `Allocate` fails only when every page is used,
  iff every `Allocate` of the run meets `PageStepOk`.
* `lost_page`: one page of two becomes unreachable.
-/
namespace BadLands.Mm.PhysicalMemory

open BadLands.Core BadLands.Core.Machine BadLands.Mm.Layout

inductive PageOp where
  | allocate
  | free (address : Nat)

def PageOp.toOp : PageOp → Op
  | .allocate => .allocate .kb4
  | .free address => .free ⟨.kb4, address⟩

def pageStep (s : Sys) (op : PageOp) : Option Sys := step s op.toOp

/-- The flags as documented in kernel/src/mm/PhysicalMemory.cpp:73-90. -/
structure ExactFlags (v : View) : Prop where
  free2 : ∀ r, r < bitmapEntries2MB → (v.free2 r ↔ ∃ p, p / 512 = r ∧ ¬ v.page p)
  free32 : ∀ R, R < bitmapEntries32MB → (v.free32 R ↔ ∃ r, r / 16 = R ∧ v.free2 r)

structure NothingLost (s : Sys) : Prop where
  flags : ExactFlags s.mem.view
  full : (allocate s.mem).1 = 0 → ∀ p, p < bitmapEntries4KB → s.mem.bitMap4KB.test p = true

/-- A 2MB region without a used page. -/
def Unused2MB (s : State) (r : Nat) : Prop := ∀ p, p / 512 = r → s.bitMap4KB.test p = false

/-- The 2MB region that a search in the 32MB region `R` takes a page from. -/
def firstFree2MB (s : State) (R : Nat) : Option Nat :=
  (List.range' (R * 16) 16).find? fun r => s.bitMap2MB.anyFree.test r

/-- A page from the cache: the 32MB region keeps an unused 2MB region besides the page's own, or
this is its last page. A page found by search: its 2MB region has a second free page, and the
32MB region has another 2MB region that is unused. -/
def PageStepOk (s : Sys) : PageOp → Prop
  | .allocate =>
    (∀ p, usableCached s.mem = some p →
      (∃ x, x / 16 = p / 512 / 16 ∧ x ≠ p / 512 ∧ Unused2MB s.mem x) ∨
        ∀ q, q / 512 / 16 = p / 512 / 16 → q ≠ p → s.mem.bitMap4KB.test q = true) ∧
    (usableCached s.mem = none → ∀ R r, selected32MB s.mem = some R → firstFree2MB s.mem R = some r →
      (∃ p q, p / 512 = r ∧ q / 512 = r ∧ p ≠ q ∧ s.mem.bitMap4KB.test p = false ∧
        s.mem.bitMap4KB.test q = false) ∧
      ∃ x, x / 16 = R ∧ x ≠ r ∧ Unused2MB s.mem x)
  | .free _ => True

structure PageInv (boot : State) (s : Sys) : Prop where
  sys : SysInv boot s
  pages : ∀ b ∈ s.live, b.size = .kb4
  flags : ExactFlags s.mem.view

section
variable {boot : State} {s : Sys}

theorem PageInv.no2MB (h : PageInv boot s) (r : Nat) : ¬ s.live2 r := fun hl => by
  cases h.pages _ hl

theorem PageInv.no32MB (h : PageInv boot s) : s.No32MB := fun b hb he => by
  rw [h.pages b hb] at he
  cases he

theorem PageInv.unused_iff (h : PageInv boot s) {r : Nat} (hr : r < bitmapEntries2MB) :
    Unused2MB s.mem r ↔ ¬ s.mem.view.used2 r := by
  rw [h.sys.inv.used2 r hr (h.no2MB r)]
  constructor
  · rintro hn ⟨p, hp, hpg⟩
    exact ne_true_of_eq_false (hn p hp) hpg
  · exact fun hn p hp => eq_false_of_ne_true fun hpg => hn ⟨p, hp, hpg⟩

/-- With exact flags, `Allocate` fails only when no page is left. -/
theorem PageInv.nothingLost (h : PageInv boot s) : NothingLost s := by
  refine ⟨h.flags, fun h0 p hp => Classical.byContradiction fun hn => ?_⟩
  have hr : p / 512 < bitmapEntries2MB := parent2_lt.mpr hp
  have hfree : s.mem.view.free32 (p / 512 / 16) := (h.flags.free32 _ (parent32_lt.mpr hr)).mpr
    ⟨p / 512, rfl, (h.flags.free2 _ hr).mpr ⟨p, rfl, hn⟩⟩
  obtain ⟨q, hu, haddr, -⟩ | ⟨-, hsel, -, -⟩ | ⟨-, R, q, -, -, haddr, -, hfound⟩ := allocate_cases h.sys.inv
  · obtain ⟨hc, -⟩ := usableCached_some hu
    obtain ⟨hq, hclear⟩ := h.sys.inv.cached q hc
    have hdma := h.sys.inv.noDMA q (h.sys.inv.origin q hq hclear)
    exact address_ne_zero_kb4 (by omega) (haddr.symm.trans h0)
  · exact selectIn_none hsel _ (word_mem (parent32_lt.mpr hr)) hfree
  · obtain ⟨v, hv, hclear, -⟩ := hfound.took
    have hdma := hv.noDMA q (hv.origin q hfound.lt hclear)
    exact address_ne_zero_kb4 (by omega) (haddr.symm.trans h0)

/-! ## What taking a page does to exact flags -/

/-- From the cache: the page bit is set first, so only the 32MB flag can go wrong. -/
theorem exact_cached_iff {v : View} (hv : ExactFlags v) {p : Nat} (hp : p < bitmapEntries4KB)
    (hunused : ∀ x, x < bitmapEntries2MB → ¬ v.used2 x → ∃ q, q / 512 = x ∧ ¬ v.page q) :
    ExactFlags (((v.setCached none).setPage p).mark2 (p / 512)) ↔
      (∃ x, x / 16 = p / 512 / 16 ∧ x ≠ p / 512 ∧ ¬ v.used2 x) ∨
        ∀ q, q / 512 / 16 = p / 512 / 16 → q ≠ p → v.page q := by
  have hr : p / 512 < bitmapEntries2MB := parent2_lt.mpr hp
  have hR : p / 512 / 16 < bitmapEntries32MB := parent32_lt.mpr hr
  have hfree2 : ∀ r, r < bitmapEntries2MB →
      ((((v.setCached none).setPage p).mark2 (p / 512)).free2 r ↔ ∃ q, q / 512 = r ∧ q ≠ p ∧ ¬ v.page q) := by
    intro r hr
    rw [View.mark2_free2]
    change v.free2 r ∧ (r = p / 512 → ∃ q, q / 512 = p / 512 ∧ ¬ (q = p ∨ v.page q)) ↔ _
    rw [hv.free2 r hr]
    grind
  have hfree32 : ∀ R, (((v.setCached none).setPage p).mark2 (p / 512)).free32 R ↔
      v.free32 R ∧ (R = p / 512 / 16 → ∃ x, x / 16 = p / 512 / 16 ∧ x ≠ p / 512 ∧ ¬ v.used2 x) := fun R =>
    View.mark2_free32
  constructor
  · intro hw
    by_cases hsib : ∃ x, x / 16 = p / 512 / 16 ∧ x ≠ p / 512 ∧ ¬ v.used2 x
    · exact .inl hsib
    · refine .inr fun q hq hne => Classical.byContradiction fun hn => ?_
      have hqr : q / 512 < bitmapEntries2MB := parent32_lt.mp (hq ▸ hR)
      have := (hw.free32 _ hR).mpr ⟨q / 512, hq, (hfree2 _ hqr).mpr ⟨q, rfl, hne, hn⟩⟩
      exact hsib (((hfree32 _).mp this).2 rfl)
  · intro hor
    refine ⟨fun r hr => ?_, fun R hR => ?_⟩
    · rw [hfree2 r hr]
      exact exists_congr fun q => and_congr_right fun _ => not_or.symm
    · rw [hfree32, hv.free32 R hR]
      constructor
      · rintro ⟨⟨r, hrR, hf⟩, hsib⟩
        by_cases hRp : R = p / 512 / 16
        · obtain ⟨x, hx, hxne, hxu⟩ := hsib hRp
          have hxlt : x < bitmapEntries2MB := parent32_lt.mp (by rw [hx, ← hRp]; exact hR)
          obtain ⟨q, hq, hqc⟩ := hunused x hxlt hxu
          exact ⟨x, hx.trans hRp.symm, (hfree2 x hxlt).mpr ⟨q, hq, fun he => hxne (by rw [← hq, he]), hqc⟩⟩
        · have hrlt : r < bitmapEntries2MB := parent32_lt.mp (hrR ▸ hR)
          obtain ⟨q, hq, hqc⟩ := (hv.free2 r hrlt).mp hf
          exact ⟨r, hrR, (hfree2 r hrlt).mpr ⟨q, hq, fun he => hRp (by rw [← hrR, ← hq, he]), hqc⟩⟩
      · rintro ⟨r, hrR, hf⟩
        have hrlt : r < bitmapEntries2MB := parent32_lt.mp (hrR ▸ hR)
        obtain ⟨q, hq, hne, hqc⟩ := (hfree2 r hrlt).mp hf
        refine ⟨⟨r, hrR, (hv.free2 r hrlt).mpr ⟨q, hq, hqc⟩⟩, fun hRp => ?_⟩
        refine hor.resolve_right fun hall => hqc (hall q ?_ hne)
        rw [hq, hrR, hRp]

/-- By search: the region is marked before the page bit is set. -/
theorem exact_found_iff {v : View} (hv : ExactFlags v) {p : Nat} (hp : p < bitmapEntries4KB)
    (hclear : ¬ v.page p) (c : Option Nat) :
    ExactFlags (((v.mark2 (p / 512)).setPage p).setCached c) ↔
      (∃ q, q / 512 = p / 512 ∧ q ≠ p ∧ ¬ v.page q) ∧
        ∃ x, x / 16 = p / 512 / 16 ∧ x ≠ p / 512 ∧ ¬ v.used2 x := by
  have hr : p / 512 < bitmapEntries2MB := parent2_lt.mpr hp
  have hR : p / 512 / 16 < bitmapEntries32MB := parent32_lt.mpr hr
  have hpage : ∀ q, ((((v.mark2 (p / 512)).setPage p).setCached c).page q) ↔ q = p ∨ v.page q := fun _ => Iff.rfl
  have hfree2 : ∀ r, r < bitmapEntries2MB →
      ((((v.mark2 (p / 512)).setPage p).setCached c).free2 r ↔ v.free2 r) := fun r hr => by
    refine View.mark2_free2.trans (and_iff_left fun he => ?_)
    exact ⟨p, rfl, hclear⟩
  have hfree32 : ∀ R, (((v.mark2 (p / 512)).setPage p).setCached c).free32 R ↔
      v.free32 R ∧ (R = p / 512 / 16 → ∃ x, x / 16 = p / 512 / 16 ∧ x ≠ p / 512 ∧ ¬ v.used2 x) := fun R =>
    View.mark2_free32
  have hf : v.free2 (p / 512) := (hv.free2 _ hr).mpr ⟨p, rfl, hclear⟩
  constructor
  · intro hw
    constructor
    · obtain ⟨q, hq, hqc⟩ := (hw.free2 _ hr).mp ((hfree2 _ hr).mpr hf)
      rw [hpage, not_or] at hqc
      exact ⟨q, hq, hqc⟩
    · have := (hw.free32 _ hR).mpr ⟨p / 512, rfl, (hfree2 _ hr).mpr hf⟩
      exact ((hfree32 _).mp this).2 rfl
  · rintro ⟨⟨q, hq, hne, hqc⟩, hsib⟩
    refine ⟨fun r hr => ?_, fun R hR => ?_⟩
    · rw [hfree2 r hr, hv.free2 r hr]
      simp only [hpage, not_or]
      constructor
      · rintro ⟨k, hk, hkc⟩
        by_cases hkp : k = p
        · exact ⟨q, by rw [hq, ← hk, hkp], hne, hqc⟩
        · exact ⟨k, hk, hkp, hkc⟩
      · rintro ⟨k, hk, -, hkc⟩
        exact ⟨k, hk, hkc⟩
    · rw [hfree32, hv.free32 R hR, and_iff_left fun _ => hsib]
      exact exists_congr fun r => and_congr_right fun hrR => (hfree2 r (parent32_lt.mp (hrR ▸ hR))).symm

/-- Freeing pages of a region keeps exact flags. -/
theorem ExactFlags.release {v w : View} (hv : ExactFlags v) {r : Nat} (ht : Released v r w) : ExactFlags w := by
  refine ⟨fun k hk => ?_, fun K hK => ?_⟩
  · rw [ht.free2]
    by_cases hkr : k = r
    · exact ⟨fun _ => hkr ▸ ht.hole, fun _ => .inl hkr⟩
    · rw [or_iff_right hkr, hv.free2 k hk]
      exact exists_congr fun q => and_congr_right fun hq => not_congr (ht.page q (hq ▸ hkr)).symm
  · rw [ht.free32, hv.free32 K hK]
    simp only [ht.free2]
    constructor
    · rintro (rfl | ⟨k, hk, hf⟩)
      · exact ⟨r, rfl, .inl rfl⟩
      · exact ⟨k, hk, .inr hf⟩
    · rintro ⟨k, hk, rfl | hf⟩
      · exact .inl hk.symm
      · exact .inr ⟨k, hk, hf⟩

/-! ## The search -/

/-- The search takes a page of the first 2MB region flagged free, if that has one. -/
theorem searchChildren_first {t : State} {r : Nat} (hpage : ∃ p, p / 512 = r ∧ ¬ t.view.page p) :
    ∀ rs : List Nat, rs.find? (fun k => t.bitMap2MB.anyFree.test k) = some r →
    ∃ p c, p / 512 = r ∧ ¬ t.view.page p ∧
      (searchChildren t rs).2.view = ((t.view.mark2 (p / 512)).setPage p).setCached c ∧
      (c = t.view.cached ∨ ∃ q, c = some q ∧ q / 64 = p / 64 ∧ q ≠ p ∧ ¬ t.view.page q)
  | [], h => by cases h
  | k :: rs, h => by
    by_cases hk : t.bitMap2MB.anyFree.test k = true
    · rw [List.find?_cons_of_pos hk] at h
      cases h
      have hv := view_mark2 t r
      obtain ⟨-, hfull⟩ | ⟨p, c, hp, hclear, hsome, hview, hc⟩ :=
        takePage_cases (mark2MBRegionUsed t r) (words4KB r)
      · obtain ⟨p, hp, hn⟩ := hpage
        have := hfull p (mem_words4KB.mpr hp)
        rw [hv] at this
        exact absurd this hn
      · have hpr : p / 512 = r := mem_words4KB.mp hp
        have hres : searchChildren t (r :: rs) = takePage (mark2MBRegionUsed t r) (words4KB r) := by
          rw [searchChildren, if_pos hk]
          generalize takePage (mark2MBRegionUsed t r) (words4KB r) = u at hsome
          obtain ⟨u1, u2⟩ := u
          cases hsome
          rfl
        rw [hv] at hclear hview hc
        exact ⟨p, c, hpr, hclear, by rw [hres, hview, hpr], hc⟩
    · rw [List.find?_cons_of_neg hk] at h
      have hskip : searchChildren t (k :: rs) = searchChildren t rs := if_neg hk
      rw [hskip]
      exact searchChildren_first hpage rs h

theorem PageInv.firstFree (h : PageInv boot s) {R : Nat} (hR : R < bitmapEntries32MB)
    (hf : s.mem.view.free32 R) : ∃ r, firstFree2MB s.mem R = some r ∧ r / 16 = R ∧
      ∃ p, p / 512 = r ∧ ¬ s.mem.view.page p := by
  obtain ⟨k, hk, hfk⟩ := (h.flags.free32 R hR).mp hf
  have hmem : ∀ r, r ∈ List.range' (R * 16) 16 ↔ r / 16 = R := fun r => by
    rw [List.mem_range'_1]
    omega
  have hsome : (firstFree2MB s.mem R).isSome := by
    rw [firstFree2MB, List.find?_isSome]
    exact ⟨k, (hmem k).mpr hk, hfk⟩
  obtain ⟨r, hr⟩ := Option.isSome_iff_exists.mp hsome
  have hrR : r / 16 = R := (hmem r).mp (List.mem_of_find?_eq_some hr)
  have hfr : s.mem.view.free2 r := List.find?_some hr
  exact ⟨r, hr, hrR, (h.flags.free2 r (parent32_lt.mp (hrR ▸ hR))).mp hfr⟩

/-- What a search does: it takes a page of the first 2MB region flagged free. -/
theorem PageInv.search (h : PageInv boot s) (hu : usableCached s.mem = none) {R : Nat}
    (hsel : selected32MB s.mem = some R) :
    R < bitmapEntries32MB ∧ ∃ r p c, firstFree2MB s.mem R = some r ∧ r / 16 = R ∧ p / 512 = r ∧
      ¬ s.mem.view.page p ∧
      (allocate s.mem).2.view = (((s.mem.view.setCached none).mark2 (p / 512)).setPage p).setCached c ∧
      (c = none ∨ ∃ q, c = some q ∧ q / 64 = p / 64 ∧ q ≠ p ∧ ¬ s.mem.view.page q) := by
  have hR := selected_lt hsel
  obtain ⟨-, hf⟩ := selectIn_spec hsel
  obtain ⟨r, hfirst, hrR, hpage⟩ := h.firstFree hR hf
  obtain ⟨p, c, hp, hclear, hview, hc⟩ := searchChildren_first (t := s.mem.setCached none) hpage
    (List.range' (R * 16) 16) hfirst
  obtain ⟨q, hq, -, -⟩ | ⟨-, hnone, -, -⟩ | ⟨-, K, q, hK, -, -, hres, -⟩ := allocate_cases h.sys.inv
  · rw [hu] at hq
    cases hq
  · rw [hsel] at hnone
    cases hnone
  · rw [hsel] at hK
    cases hK
    exact ⟨hR, r, p, c, hfirst, hrR, hp, hclear, by rw [hres, hview]; rfl, hc⟩

/-! ## Steps -/

/-- `Allocate` keeps the flags exact iff it meets the condition. -/
theorem PageInv.allocate_iff (h : PageInv boot s) :
    ExactFlags (PhysicalMemory.allocate s.mem).2.view ↔ PageStepOk s .allocate := by
  have hused : ∀ x, x < bitmapEntries2MB → (Unused2MB s.mem x ↔ ¬ s.mem.view.used2 x) := fun x hx => h.unused_iff hx
  obtain ⟨p, hu, -, hview⟩ | ⟨hu, hsel, -, hview⟩ | ⟨hu, R, -, hsel, -⟩ := allocate_cases h.sys.inv
  · obtain ⟨hc, -⟩ := usableCached_some hu
    obtain ⟨hp, -⟩ := h.sys.inv.cached p hc
    have hR : p / 512 / 16 < bitmapEntries32MB := parent32_lt.mpr (parent2_lt.mpr hp)
    have hempty : ∀ x, x < bitmapEntries2MB → ¬ s.mem.view.used2 x → ∃ q, q / 512 = x ∧ ¬ s.mem.view.page q :=
      fun x hx hxu => ⟨x * 512, by omega, (h.sys.inv.unused2 hx hxu).2 _ (by omega)⟩
    rw [hview, exact_cached_iff h.flags hp hempty]
    have hsib : (∃ x, x / 16 = p / 512 / 16 ∧ x ≠ p / 512 ∧ ¬ s.mem.view.used2 x) ↔
        ∃ x, x / 16 = p / 512 / 16 ∧ x ≠ p / 512 ∧ Unused2MB s.mem x :=
      exists_congr fun x => and_congr_right fun hx => and_congr_right fun _ =>
        (hused x (parent32_lt.mp (hx ▸ hR))).symm
    rw [hsib]
    constructor
    · intro hor
      refine ⟨fun q hq => ?_, fun hn => ?_⟩
      · rw [hu] at hq
        cases hq
        exact hor
      · rw [hu] at hn
        cases hn
    · exact fun hok => hok.1 p hu
  · refine iff_of_true ?_ ⟨fun q hq => ?_, fun _ R r hR => ?_⟩
    · rw [hview]
      exact ⟨h.flags.free2, h.flags.free32⟩
    · rw [hu] at hq
      cases hq
    · rw [hsel] at hR
      cases hR
  · obtain ⟨hRlt, r, q, c, hfirst, hrR, hq, hclear, hview, -⟩ := h.search hu hsel
    have hqlt : q < bitmapEntries4KB := parent2_lt.mp (parent32_lt.mp (by rwa [hq, hrR]))
    have hflags : ExactFlags (s.mem.view.setCached none) := ⟨h.flags.free2, h.flags.free32⟩
    rw [hview, exact_found_iff hflags hqlt hclear c, hq, hrR]
    constructor
    · rintro ⟨⟨k, hk, hne, hkc⟩, x, hx, hxr, hxu⟩
      refine ⟨fun p hp => ?_, fun _ R' r' hR' hr' => ?_⟩
      · rw [hu] at hp
        cases hp
      · rw [hsel] at hR'
        cases hR'
        rw [hfirst] at hr'
        cases hr'
        refine ⟨⟨q, k, hq, hk, Ne.symm hne, eq_false_of_ne_true hclear, eq_false_of_ne_true hkc⟩, x, hx, hxr, ?_⟩
        exact (hused x (parent32_lt.mp (hx ▸ hRlt))).mpr hxu
    · intro hok
      obtain ⟨⟨a, b, ha, hb, hne, hac, hbc⟩, x, hx, hxr, hxu⟩ := hok.2 hu R r hsel hfirst
      refine ⟨?_, x, hx, hxr, (hused x (parent32_lt.mp (hx ▸ hRlt))).mp hxu⟩
      -- one of two clear pages is not the one taken
      by_cases haq : a = q
      · exact ⟨b, hb, fun he => hne (haq.trans he.symm), ne_true_of_eq_false hbc⟩
      · exact ⟨a, ha, haq, ne_true_of_eq_false hac⟩

theorem PageInv.live_pages (h : PageInv boot s) {op : PageOp} {s' : Sys} (hs : pageStep s op = some s') :
    ∀ b ∈ s'.live, b.size = .kb4 := by
  cases op with
  | allocate =>
    rw [pageStep, PageOp.toOp, step_allocate] at hs
    cases hs
    intro b hb
    simp only at hb
    split at hb
    · exact h.pages b hb
    · rcases List.mem_cons.mp hb with rfl | hb
      · rfl
      · exact h.pages b hb
  | free address =>
    simp only [pageStep, PageOp.toOp, step] at hs
    split at hs
    · cases hs
    · cases hs
      intro b hb
      simp only at hb
      split at hb
      · exact h.pages b (List.mem_of_mem_erase hb)
      · exact h.pages b hb

theorem pageStep_inv (s : Sys) (op : PageOp) (s' : Sys) (h : PageInv boot s) (hok : PageStepOk s op)
    (hs : pageStep s op = some s') : PageInv boot s' := by
  refine ⟨step_inv s op.toOp s' h.sys (h.no32MB.stepOk _) hs, h.live_pages hs, ?_⟩
  cases op with
  | allocate =>
    rw [pageStep, PageOp.toOp, step_allocate] at hs
    cases hs
    exact h.allocate_iff.mpr hok
  | free address =>
    simp only [pageStep, PageOp.toOp, step] at hs
    split at hs
    · cases hs
    · rename_i hmem
      have hb : ⟨.kb4, address⟩ ∈ s.live := Classical.not_not.mp hmem
      obtain ⟨p, hp⟩ := h.sys.aligned _ hb
      change address = p * frameSize at hp
      subst hp
      cases hs
      obtain ⟨-, hrel, -, -⟩ := free_released h.sys.inv hb
      exact h.flags.release hrel

theorem pageStep_bad (s : Sys) (op : PageOp) (s' : Sys) (h : PageInv boot s) (hbad : ¬ PageStepOk s op)
    (hs : pageStep s op = some s') : ¬ NothingLost s' := by
  cases op with
  | allocate =>
    rw [pageStep, PageOp.toOp, step_allocate] at hs
    cases hs
    exact fun hn => hbad (h.allocate_iff.mp hn.flags)
  | free address => exact absurd trivial hbad

end

theorem Fresh.pageInv {boot : State} (h : Fresh boot.view) : PageInv boot (start boot) :=
  ⟨h.inv, fun _ hb => (by cases hb), h.free2, h.free32⟩

/-- From any state a successful `Setup` leaves, a run of `Allocate` and `Free` keeps the flags
exact and loses no page exactly when each `Allocate` meets `PageStepOk`. -/
theorem nothing_lost_iff (b : Boot) (boot : State) (hsetup : setup b = some boot) (ops : List PageOp) :
    AllStates pageStep NothingLost (start boot) ops ↔ AllSteps pageStep PageStepOk (start boot) ops :=
  allStates_iff_allSteps (fun _ h => h.nothingLost) pageStep_inv pageStep_bad ops (start boot)
    (setup_flags hsetup).pageInv

/-- The first page from a whole free 32MB region. -/
theorem nothing_lost_first_page : ∃ boot, setup (bootWith oneRegion) = some boot ∧
    AllStates pageStep NothingLost (start boot) [.allocate] := by
  obtain ⟨boot, hsetup, hused, hfree⟩ := setup_oneRegion
  have hinv : PageInv boot (start boot) := (setup_flags hsetup).pageInv
  have hempty : ∀ r, r / 16 = 2 → Unused2MB boot r := fun r hr =>
    (hinv.unused_iff (parent32_lt.mp (by rw [hr]; decide))).mpr
      (hinv.sys.inv.children_unused (by decide) ((hused 2 (by decide)).mpr rfl) r hr)
  refine ⟨boot, hsetup, (nothing_lost_iff (bootWith oneRegion) boot hsetup _).mpr fun s' _ => ⟨?_, trivial⟩⟩
  refine ⟨fun p hp => ?_, fun hu R r hsel hfirst => ?_⟩
  · obtain ⟨hc, -⟩ := usableCached_some hp
    cases (setup_flags hsetup).cached.symm.trans hc
  · obtain ⟨hR, k, -, -, hk, hkR, -⟩ := hinv.search hu hsel
    obtain rfl : R = 2 := (hfree R hR).mp (selectIn_spec hsel).2
    cases hk.symm.trans hfirst
    refine ⟨⟨r * 512, r * 512 + 1, by omega, by omega, by omega, hempty r hkR _ (by omega),
      hempty r hkR _ (by omega)⟩, ?_⟩
    by_cases hr : r = 32
    · exact ⟨33, rfl, by omega, hempty 33 rfl⟩
    · exact ⟨32, rfl, fun he => hr he.symm, hempty 32 rfl⟩

/-- Two pages in different words of one 2MB region. -/
def twoPages : EfiMemoryDescriptor := ⟨.conventionalMemory, 16447 * frameSize, 2, by decide⟩

/-- Of two free pages `Allocate` takes one; the other is free, but `Allocate` does not find it. -/
theorem lost_page : ∃ boot s, setup (bootWith twoPages) = some boot ∧
    run pageStep (start boot) [.allocate] = some s ∧ (allocate s.mem).1 = 0 ∧
    (∃ p, p < bitmapEntries4KB ∧ s.mem.bitMap4KB.test p = false) ∧
    ¬ AllStates pageStep NothingLost (start boot) [.allocate] := by
  obtain ⟨boot, hsetup, hpage⟩ := setup_bootWith (d := twoPages) rfl (by decide) (by decide)
  have hfresh := setup_flags hsetup
  have hinv : PageInv boot (start boot) := hfresh.pageInv
  have hbit : ∀ p, p < bitmapEntries4KB → (¬ boot.view.page p ↔ p = 16447 ∨ p = 16448) := fun p hp => by
    rw [hpage p hp, not_not]
    change 16447 * 4096 / 4096 ≤ p ∧ p < 16447 * 4096 / 4096 + 2 ∧ p < bitmapEntries4KB ↔ _
    omega
  have hu : usableCached boot = none := by
    unfold usableCached
    rw [show boot.cached4KB = none from hfresh.cached]
    rfl
  -- every 2MB region has a used page
  have hall : ∀ x, x < bitmapEntries2MB → boot.view.used2 x := fun x hx => by
    have hlt : x * 512 < bitmapEntries4KB := parent2_lt.mp (by rwa [Nat.mul_div_cancel _ (by omega)])
    refine (hfresh.used2 x hx).mpr ⟨x * 512, by omega, Classical.byContradiction fun hn => ?_⟩
    have := (hbit _ hlt).mp hn
    omega
  have hfree : ∀ R, R < bitmapEntries32MB → boot.view.free32 R → R = 2 := fun R hR hf => by
    obtain ⟨p, hp, hclear, -⟩ := hinv.sys.inv.free32 R hR hf
    have := (hbit p (parent2_lt.mp (parent32_lt.mp (hp ▸ hR)))).mp hclear
    omega
  have hstart : boot.view.free32 2 := (hfresh.free32 2 (by decide)).mpr
    ⟨32, rfl, (hfresh.free2 32 (by decide)).mpr ⟨16447, rfl, (hbit _ (by decide)).mpr (.inl rfl)⟩⟩
  obtain ⟨R, hsel⟩ : ∃ R, selected32MB boot = some R := Option.ne_none_iff_exists'.mp fun hn =>
    selectIn_none hn 2 (word_mem (by decide)) hstart
  obtain ⟨hR, r, p, c, -, hrR, hpr, hclear, hview, hc⟩ := hinv.search (s := start boot) hu hsel
  change (allocate boot).2.view = _ at hview
  have hplt : p < bitmapEntries4KB := parent2_lt.mp (parent32_lt.mp (by rwa [hpr, hrR]))
  have hp := (hbit p hplt).mp hclear
  obtain rfl : c = none := hc.resolve_right fun ⟨q, _, hq, hne, hqc⟩ => by
    have hqlt : q < bitmapEntries4KB := by
      have h4 : bitmapEntries4KB = 67108864 := rfl
      omega
    have := (hbit q hqlt).mp hqc
    omega
  have hstep : pageStep (start boot) .allocate = some ⟨(allocate boot).2,
      if (allocate boot).1 = 0 then [] else [⟨.kb4, (allocate boot).1⟩]⟩ := rfl
  have hsys : SysInv boot ⟨(allocate boot).2, if (allocate boot).1 = 0 then [] else [⟨.kb4, (allocate boot).1⟩]⟩ :=
    hinv.sys.allocate4 (hinv.no32MB.stepOk _) hstep
  have hleft : ∃ k, k < bitmapEntries4KB ∧ (allocate boot).2.bitMap4KB.test k = false := by
    obtain ⟨k, hk, hkb, hkp⟩ : ∃ k, k < bitmapEntries4KB ∧ ¬ boot.view.page k ∧ k ≠ p := by
      rcases hp with rfl | rfl
      · exact ⟨16448, by decide, (hbit _ (by decide)).mpr (.inr rfl), by omega⟩
      · exact ⟨16447, by decide, (hbit _ (by decide)).mpr (.inl rfl), by omega⟩
    refine ⟨k, hk, eq_false_of_ne_true fun hn => ?_⟩
    have hn' : (allocate boot).2.view.page k := hn
    rw [hview] at hn'
    exact hn'.elim hkp hkb
  -- all 2MB regions have a used page, so the flag of the 32MB region is gone
  have hzero : (allocate (allocate boot).2).1 = 0 := by
    obtain ⟨q, hq, -, -⟩ | ⟨-, -, h0, -⟩ | ⟨-, K, -, hK, -⟩ := allocate_cases (s := (allocate boot).2) hsys.inv
    · obtain ⟨hq, -⟩ := usableCached_some hq
      rw [hview] at hq
      cases hq
    · exact h0
    · have hKlt := selected_lt hK
      obtain ⟨-, hf⟩ := selectIn_spec hK
      rw [hview] at hf
      obtain ⟨hf, hsib⟩ := View.mark2_free32.mp hf
      obtain ⟨x, hx, -, hxu⟩ := hsib (by rw [hfree K hKlt hf, hpr, hrR, hfree R hR (selectIn_spec hsel).2])
      exact absurd (hall x (parent32_lt.mp (by rwa [hx, hpr, hrR]))) hxu
  refine ⟨boot, ⟨(allocate boot).2, if (allocate boot).1 = 0 then [] else [⟨.kb4, (allocate boot).1⟩]⟩, hsetup,
    ?_, hzero, hleft, fun hrun => ?_⟩
  · simp only [run, hstep]
    rfl
  · obtain ⟨k, hk, hn⟩ := hleft
    have := ((hrun.2 _ hstep).here).full hzero k hk
    rw [hn] at this
    cases this

end BadLands.Mm.PhysicalMemory
