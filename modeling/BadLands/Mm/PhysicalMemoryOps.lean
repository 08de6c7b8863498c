import BadLands.Mm.PhysicalMemoryInv

/-!
# What each physical memory call does

One lemma for each function, over states that satisfy `Inv`: which block it hands out and how
it changes the view.

* `allocate_cases`: `Allocate` takes the cached page when its region is still flagged free,
  else a page of the 32MB region `selected32MB` picks, else nothing.
* `allocate2MB_cases`: `Allocate2MB` takes a region flagged unused that `Candidate2MB` names.
* `allocate32MB_cases`: `Allocate32MB` takes a region flagged unused.
* `free_released`, `free2MB_released`, `free32MB_released`: the three frees.
-/
namespace BadLands.Mm.PhysicalMemory

open BadLands.Core BadLands.Mm.Layout

section
variable {F0 L4 L2 L32 : Nat → Prop} {s : State}

/-! ## 4KB pages -/

/-- A page found by the search: the flags of fully used regions seen on the way may have been
corrected first (`v'`). -/
structure Found (F0 L4 L2 L32 : Nat → Prop) (p : Nat) (w : View) : Prop where
  lt : p < bitmapEntries4KB
  notLive : ¬ L2 (p / 512)
  took : ∃ v', Inv F0 L4 L2 L32 v' ∧ ¬ v'.page p ∧ Took v' p w
  cached : ∀ q, w.cached = some q → q < bitmapEntries4KB ∧ ¬ w.page q

theorem mem_words4KB {r p : Nat} : p / 64 ∈ words4KB r ↔ p / 512 = r := by
  rw [words4KB_eq, List.mem_range'_1]
  omega

theorem searchChildren_full {r : Nat} {rs : List Nat} {t : State} (hf : s.view.free2 r)
    (hnone : takePage (mark2MBRegionUsed s r) (words4KB r) = (none, t)) :
    searchChildren s (r :: rs) = searchChildren t rs := by
  rw [searchChildren, if_pos (show s.bitMap2MB.anyFree.test r from hf), hnone]

theorem searchChildren_found {r p : Nat} {rs : List Nat} (hf : s.view.free2 r)
    (hsome : (takePage (mark2MBRegionUsed s r) (words4KB r)).1 = some p) :
    searchChildren s (r :: rs) = takePage (mark2MBRegionUsed s r) (words4KB r) := by
  rw [searchChildren, if_pos (show s.bitMap2MB.anyFree.test r from hf)]
  generalize takePage (mark2MBRegionUsed s r) (words4KB r) = t at hsome
  obtain ⟨page, t⟩ := t
  cases hsome
  rfl

theorem searchChildren_cases : ∀ (rs : List Nat) (s : State), Inv F0 L4 L2 L32 s.view →
    s.view.cached = none → (∀ r ∈ rs, r < bitmapEntries2MB) →
    ((searchChildren s rs).1 = none ∧ ∀ p, p / 512 ∈ rs → ¬ L2 (p / 512) → s.view.page p) ∨
    ∃ p, (searchChildren s rs).1 = some p ∧ p / 512 ∈ rs ∧
      Found F0 L4 L2 L32 p (searchChildren s rs).2.view
  | [], s, _, _, _ => .inl ⟨rfl, fun _ h => (by cases h)⟩
  | r :: rs, s, h, hc, hlt => by
    have hr : r < bitmapEntries2MB := hlt r List.mem_cons_self
    have hrs : ∀ k ∈ rs, k < bitmapEntries2MB := fun k hk => hlt k (List.mem_cons_of_mem _ hk)
    by_cases hf : s.view.free2 r
    · have hL : ¬ L2 r := fun hl => (h.live2 r hl).2.2.1 hf
      have hv := view_mark2 s r
      obtain ⟨hnone, hfull⟩ | ⟨p, c, hp, hclear, hsome, hview, hcached⟩ :=
        takePage_cases (mark2MBRegionUsed s r) (words4KB r)
      · have hfull' : ∀ p, p / 512 = r → s.view.page p := fun p hp => by
          have := hfull p (mem_words4KB.mpr hp)
          rwa [hv] at this
        have hinv : Inv F0 L4 L2 L32 (mark2MBRegionUsed s r).view := hv ▸ h.mark_full hr hL hfull'
        rw [searchChildren_full hf hnone]
        obtain ⟨h1, h2⟩ | ⟨p, h1, h2, h3⟩ := searchChildren_cases rs _ hinv (by rw [hv]; exact hc) hrs
        · refine .inl ⟨h1, fun p hp hpL => ?_⟩
          rcases List.mem_cons.mp hp with he | hp
          · exact hfull' p he
          · have := h2 p hp hpL
            rwa [hv] at this
        · exact .inr ⟨p, h1, List.mem_cons_of_mem _ h2, h3⟩
      · have hpr : p / 512 = r := mem_words4KB.mp hp
        have hlt : p < bitmapEntries4KB := parent2_lt.mp (hpr ▸ hr)
        rw [hv] at hclear hview hcached
        right
        rw [searchChildren_found hf hsome]
        refine ⟨p, hsome, hpr ▸ List.mem_cons_self, hlt, hpr ▸ hL, ⟨s.view, h, hclear, ?_⟩, ?_⟩
        · rw [hview, ← hpr]
          exact took_found s.view hclear c
        · intro q hq
          rw [hview] at hq ⊢
          obtain rfl | ⟨q', rfl, hdiv, hne, hq'⟩ := hcached
          · exact absurd (hc ▸ hq : none = some q) (by simp)
          · obtain rfl : q' = q := by simpa [View.setCached] using hq
            refine ⟨parent2_lt.mp ?_, fun hn => hn.elim hne hq'⟩
            rw [show q' / 512 = r by omega]
            exact hr
    · have hskip : searchChildren s (r :: rs) = searchChildren s rs := if_neg hf
      rw [hskip]
      obtain ⟨h1, h2⟩ | ⟨p, h1, h2, h3⟩ := searchChildren_cases rs s h hc hrs
      · refine .inl ⟨h1, fun p hp hpL => ?_⟩
        rcases List.mem_cons.mp hp with he | hp
        · exact Classical.not_not.mp fun hn => hf (h.free2 r hr (he ▸ hpL) ⟨p, he, hn⟩)
        · exact h2 p hp hpL
      · exact .inr ⟨p, h1, List.mem_cons_of_mem _ h2, h3⟩

/-- The 32MB region a search of the words `is` turns to: in the first one with a nonzero
`AnyFree`, the lowest partly used region, or the lowest if there is none. -/
def selectIn (s : State) (is : List Nat) : Option Nat :=
  (is.find? fun i => s.bitMap32MB.anyFree i != 0#64).map fun i =>
    i * 64 + Bitmap.countrZero (targetWord s i)

def selected32MB (s : State) : Option Nat := selectIn s (List.range bitmapWords32MB)

theorem targetWord_spec {i : Nat} (hi : s.bitMap32MB.anyFree i ≠ 0#64) :
    (i * 64 + Bitmap.countrZero (targetWord s i)) / 64 = i ∧
      s.view.free32 (i * 64 + Bitmap.countrZero (targetWord s i)) := by
  have hne : targetWord s i ≠ 0#64 := by
    unfold targetWord
    extract_lets partlyUsed
    split
    · assumption
    · exact hi
  obtain ⟨hdiv, htest, -⟩ := Bitmap.lowest_spec (targetWord s) hne
  refine ⟨hdiv, ?_⟩
  generalize i * 64 + Bitmap.countrZero (targetWord s i) = R at hdiv htest
  change s.bitMap32MB.anyFree.test R = true
  rw [Bitmap.test_eq, hdiv] at htest ⊢
  unfold targetWord at htest
  extract_lets partlyUsed at htest
  split at htest
  · rw [BitVec.getLsbD_and, Bool.and_eq_true] at htest
    exact htest.2
  · exact htest

theorem selectIn_spec {is : List Nat} {R : Nat} (h : selectIn s is = some R) :
    R / 64 ∈ is ∧ s.view.free32 R := by
  obtain ⟨i, hi, rfl⟩ := Option.map_eq_some_iff.mp h
  have hne : s.bitMap32MB.anyFree i ≠ 0#64 := by simpa using List.find?_some hi
  obtain ⟨hdiv, hfree⟩ := targetWord_spec hne
  refine ⟨?_, hfree⟩
  rw [hdiv]
  exact List.mem_of_find?_eq_some hi

theorem selectIn_none {is : List Nat} (h : selectIn s is = none) :
    ∀ R, R / 64 ∈ is → ¬ s.view.free32 R := by
  intro R hR hf
  have hzero := List.find?_eq_none.mp (Option.map_eq_none_iff.mp h) _ hR
  have := (Bitmap.word_eq_zero _ _).mp (by simpa using hzero) R rfl
  rw [State.view] at hf
  simp [this] at hf

theorem selected_lt {R : Nat} (h : selected32MB s = some R) : R < bitmapEntries32MB := by
  have hword := List.mem_range.mp (selectIn_spec h).1
  have h128 : bitmapWords32MB = 128 := rfl
  have h8192 : bitmapEntries32MB = 8192 := rfl
  omega

/-- The search looks into the selected region only: it has a page to take. -/
theorem searchRegions_cases (h : Inv F0 L4 L2 L32 s.view) (hc : s.view.cached = none) :
    ∀ is : List Nat, (∀ i ∈ is, i < bitmapWords32MB) →
    (selectIn s is = none ∧ searchRegions s is = (none, s)) ∨
    ∃ R p, selectIn s is = some R ∧ (searchRegions s is).1 = some p ∧ p / 512 / 16 = R ∧
      searchRegions s is = searchChildren s (List.range' (R * 16) 16) ∧
      Found F0 L4 L2 L32 p (searchRegions s is).2.view
  | [], _ => .inl ⟨rfl, rfl⟩
  | i :: is, hlt => by
    by_cases hi : s.bitMap32MB.anyFree i = 0#64
    · have hsel : selectIn s (i :: is) = selectIn s is := by
        rw [selectIn, List.find?_cons_of_neg (by simpa using hi)]
        rfl
      have hskip : searchRegions s (i :: is) = searchRegions s is := by
        rw [searchRegions, if_neg (not_not.mpr hi)]
      rw [hsel, hskip]
      exact searchRegions_cases h hc is fun k hk => hlt k (List.mem_cons_of_mem _ hk)
    · right
      have hsel : selectIn s (i :: is) = some (i * 64 + Bitmap.countrZero (targetWord s i)) := by
        rw [selectIn, List.find?_cons_of_pos (by simpa using hi)]
        rfl
      obtain ⟨hdiv, hfree⟩ := targetWord_spec hi
      have hword : i < bitmapWords32MB := hlt i List.mem_cons_self
      generalize hR : i * 64 + Bitmap.countrZero (targetWord s i) = R at hsel hdiv hfree
      have hRlt : R < bitmapEntries32MB := by
        have h128 : bitmapWords32MB = 128 := rfl
        have h8192 : bitmapEntries32MB = 8192 := rfl
        omega
      obtain ⟨q, hq, hpg, hqL⟩ := h.free32 R hRlt hfree
      have hmem : ∀ r, r ∈ List.range' (R * 16) 16 ↔ r / 16 = R := fun r => by
        rw [List.mem_range'_1]
        omega
      obtain ⟨-, hnone⟩ | ⟨p, hp, hmemp, hfound⟩ := searchChildren_cases (List.range' (R * 16) 16) s h hc
        (fun r hr => parent32_lt.mp ((hmem r).mp hr ▸ hRlt))
      · exact absurd (hnone q ((hmem _).mpr hq) hqL) hpg
      · have hres : searchRegions s (i :: is) = searchChildren s (List.range' (R * 16) 16) := by
          rw [searchRegions, if_pos hi]
          simp only [hR]
          generalize searchChildren s (List.range' (R * 16) 16) = t at hp
          obtain ⟨t1, t2⟩ := t
          cases hp
          rfl
        rw [hres]
        exact ⟨R, p, hsel, hp, (hmem _).mp hmemp, rfl, hfound⟩

/-- The cached page that `Try4KBCache` returns. -/
def usableCached (s : State) : Option Nat :=
  s.cached4KB.filter fun p => s.bitMap2MB.anyFree.test (p / 512)

theorem try4KBCache_eq (s : State) : try4KBCache s = (usableCached s, s.setCached none) := by
  unfold try4KBCache usableCached
  cases hc : s.cached4KB with
  | none =>
    obtain ⟨b32, b2, b4, c32, c2, c⟩ := s
    cases hc
    rfl
  | some p =>
    by_cases hf : s.bitMap2MB.anyFree.test (p / 512) = true
    · simp [get4KBParent2MB, ptEntries, Option.filter, hf]
    · simp [get4KBParent2MB, ptEntries, Option.filter, hf]

theorem usableCached_some {p : Nat} (h : usableCached s = some p) :
    s.view.cached = some p ∧ s.view.free2 (p / 512) := by
  obtain ⟨hp, hf⟩ := Option.filter_eq_some_iff.mp h
  exact ⟨hp, hf⟩

/-- What `Allocate` does. -/
theorem allocate_cases (h : Inv F0 L4 L2 L32 s.view) :
    (∃ p, usableCached s = some p ∧ (allocate s).1 = p * frameSize ∧
      (allocate s).2.view = ((s.view.setCached none).setPage p).mark2 (p / 512)) ∨
    (usableCached s = none ∧ selected32MB s = none ∧ (allocate s).1 = 0 ∧
      (allocate s).2.view = s.view.setCached none) ∨
    (usableCached s = none ∧ ∃ R p, selected32MB s = some R ∧ p / 512 / 16 = R ∧
      (allocate s).1 = p * frameSize ∧
      (allocate s).2 = (searchChildren (s.setCached none) (List.range' (R * 16) 16)).2 ∧
      Found F0 L4 L2 L32 p (allocate s).2.view) := by
  have htry := try4KBCache_eq s
  cases hu : usableCached s with
  | some p =>
    refine .inl ⟨p, rfl, ?_, ?_⟩
    · simp only [allocate, htry, hu]
    · simp only [allocate, htry, hu, view_mark2, view_setPage, view_setCached]
      rfl
  | none =>
    right
    have hinv : Inv F0 L4 L2 L32 (s.setCached none).view := h.uncache
    obtain ⟨h1, h2⟩ | ⟨R, p, h1, h2, h3, h4, h5⟩ := searchRegions_cases hinv rfl
      (List.range bitmapWords32MB) (fun i hi => List.mem_range.mp hi)
    · refine .inl ⟨rfl, h1, ?_, ?_⟩
      · simp only [allocate, htry, hu, h2]
      · simp only [allocate, htry, hu, h2]
        rfl
    · have hres : allocate s = (p * frameSize, (searchRegions (s.setCached none)
          (List.range bitmapWords32MB)).2) := by
        simp only [allocate, htry, hu]
        generalize searchRegions (s.setCached none) (List.range bitmapWords32MB) = t at h2
        obtain ⟨t1, t2⟩ := t
        cases h2
        rfl
      rw [hres]
      exact .inr ⟨rfl, R, p, h1, h3, rfl, by rw [h4], h5⟩

/-! ## Frees -/

theorem entries_lt : bitmapEntries4KB ≤ 2 ^ 32 ∧ bitmapEntries2MB ≤ 2 ^ 32 ∧ bitmapEntries32MB ≤ 2 ^ 32 := by
  decide

/-- The flags after `Update32MBFlags` on a region with a child flagged free. -/
theorem settle32_spec (t : State) {r : Nat} (hr : r < bitmapEntries2MB) (hf : t.view.free2 r) :
    ∃ w, (settle32 t (r / 16)).view = w ∧ w.page = t.view.page ∧ w.used2 = t.view.used2 ∧
      w.free2 = t.view.free2 ∧ w.queue2 = t.view.queue2 ∧ w.cached = t.view.cached ∧
      (∀ K, w.used32 K ↔ if K = r / 16 then ∃ x, x / 16 = r / 16 ∧ t.view.used2 x else t.view.used32 K) ∧
      (∀ K, w.free32 K ↔ K = r / 16 ∨ t.view.free32 K) ∧
      (∀ K ∈ w.queue32, K = r / 16 ∨ K ∈ t.view.queue32) := by
  have hR : r / 16 < 2 ^ 32 := Nat.lt_of_lt_of_le (parent32_lt.mpr hr) entries_lt.2.2
  have hfree : ∀ K, (t.view.update32 (r / 16)).free32 K ↔ K = r / 16 ∨ t.view.free32 K := by
    intro K
    rw [View.update32_free32]
    by_cases hK : K = r / 16
    · rw [if_pos hK]
      exact ⟨fun _ => .inl hK, fun _ => ⟨r, rfl, hf⟩⟩
    · rw [if_neg hK]
      exact ⟨.inr, fun h => h.resolve_left hK⟩
  obtain ⟨b, -, hview⟩ := view_settle32 t (r / 16)
  refine ⟨_, rfl, ?_⟩
  rw [hview]
  cases b with
  | false => exact ⟨rfl, rfl, rfl, rfl, rfl, fun _ => Iff.rfl, hfree, fun _ hK => .inr hK⟩
  | true => exact ⟨rfl, rfl, rfl, rfl, rfl, fun _ => Iff.rfl, hfree, fun _ hK => mem_enqueue hR hK⟩

theorem isDMAAddress_false {a : Nat} (h : 4096 * 4096 ≤ a) : isDMAAddress a = false := by
  have hend : dmaZone.end = 4096 * 4096 := rfl
  rw [isDMAAddress, hend, decide_eq_false (Nat.not_lt.mpr h), Bool.and_false]

/-- The page bit and the 2MB flags after a page of region `p / 512` is freed. -/
theorem releasePage_spec (h : Inv F0 L4 L2 L32 s.view) {p : Nat} (hp : L4 p) :
    ∃ t, (releasePage s p).view = t ∧ (∀ k, t.page k ↔ k ≠ p ∧ s.view.page k) ∧
      (∀ k, t.used2 k ↔ if k = p / 512 then ∃ q, q / 512 = p / 512 ∧ t.page q else s.view.used2 k) ∧
      (∀ k, t.free2 k ↔ k = p / 512 ∨ s.view.free2 k) ∧ t.used32 = s.view.used32 ∧
      t.free32 = s.view.free32 ∧ (∀ k ∈ t.queue2, k = p / 512 ∨ k ∈ s.view.queue2) ∧
      t.queue32 = s.view.queue32 := by
  obtain ⟨hlt, hpg, -⟩ := h.live4 p hp
  have hr : p / 512 < bitmapEntries2MB := parent2_lt.mpr hlt
  have hr32 : p / 512 < 2 ^ 32 := Nat.lt_of_lt_of_le hr entries_lt.2.1
  have hL2 : ¬ L2 (p / 512) := fun hl => (h.live2 _ hl).2.2.2 p rfl hpg
  have hu : s.view.used2 (p / 512) := (h.used2 _ hr hL2).mpr ⟨p, rfl, hpg⟩
  have hv := view_releasePage s p
  have hhas := region2MBHasUsed_iff ((s.clearPage p).putFree2MB (p / 512) true) (p / 512)
  simp only [view_putFree2MB, view_clearPage] at hhas
  have hfree : ∀ k, ((s.view.clearPage p).putFree2 (p / 512) True).free2 k ↔ k = p / 512 ∨ s.view.free2 k := by
    intro k
    change (if k = p / 512 then True else s.view.free2 k) ↔ _
    split <;> simp [*]
  refine ⟨_, rfl, ?_⟩
  rw [hv]
  cases hused : region2MBHasUsed ((s.clearPage p).putFree2MB (p / 512) true) (p / 512) with
  | true =>
    refine ⟨fun _ => Iff.rfl, fun k => ?_, hfree, rfl, rfl, fun _ hk => .inr hk, rfl⟩
    by_cases hk : k = p / 512
    · rw [if_pos hk]
      exact iff_of_true (hk ▸ hu) (hhas.mp hused)
    · rw [if_neg hk]
      exact Iff.rfl
  | false =>
    refine ⟨fun _ => Iff.rfl, fun k => ?_, hfree, rfl, rfl, fun _ hk => mem_enqueue hr32 hk, rfl⟩
    change (if k = p / 512 then False else s.view.used2 k) ↔ _
    by_cases hk : k = p / 512
    · rw [if_pos hk, if_pos hk, false_iff]
      intro hn
      rw [hhas.mpr hn] at hused
      cases hused
    · rw [if_neg hk, if_neg hk]

/-- `Free` of a live page. -/
theorem free_released (h : Inv F0 L4 L2 L32 s.view) {p : Nat} (hp : L4 p) :
    (free s (p * frameSize)).1 = true ∧ Released s.view (p / 512) (free s (p * frameSize)).2.view ∧
      (free s (p * frameSize)).2.view.cached = some p ∧
      ∀ k, (free s (p * frameSize)).2.view.page k ↔ k ≠ p ∧ s.view.page k := by
  obtain ⟨hlt, hpg, hF⟩ := h.live4 p hp
  have hdma := h.noDMA p hF
  have hr : p / 512 < bitmapEntries2MB := parent2_lt.mpr hlt
  have hmax : p * 4096 < maxAddressableMemory := by
    have h4 : bitmapEntries4KB = 67108864 := rfl
    have hm : maxAddressableMemory = 0x4000000000 := rfl
    omega
  rw [free_eq (by omega) hmax (isDMAAddress_false (by omega)) hpg]
  obtain ⟨t, ht, t1, t2, t3, t4, t5, t6, t7⟩ := releasePage_spec h hp
  obtain ⟨w, hw, w1, w2, w3, w4, -, w6, w7, w8⟩ := settle32_spec (releasePage s p) hr
    (by rw [ht]; exact (t3 _).mpr (.inl rfl))
  rw [ht] at w1 w2 w3 w4 w6 w7 w8
  have hpage : ∀ k, w.page k ↔ k ≠ p ∧ s.view.page k := fun k => by rw [w1]; exact t1 k
  refine ⟨rfl, ?_, rfl, ?_⟩
  · rw [view_setCached, hw]
    refine ⟨fun k hk => ?_, fun k => ?_, fun k => ?_, fun K => ?_, fun K => ?_, ⟨p, rfl, ?_⟩, fun k hk => ?_,
      fun K hK => ?_⟩
    · exact (hpage k).trans (and_iff_right fun he => hk (by rw [he]))
    · change w.used2 k ↔ if k = p / 512 then ∃ q, q / 512 = p / 512 ∧ w.page q else s.view.used2 k
      rw [w2, w1]
      exact t2 k
    · change w.free2 k ↔ _
      rw [w3]
      exact t3 k
    · change w.used32 K ↔ if K = p / 512 / 16 then ∃ x, x / 16 = p / 512 / 16 ∧ w.used2 x else s.view.used32 K
      rw [w6, w2, t4]
    · change w.free32 K ↔ _
      rw [w7, t5]
    · exact fun hn => ((hpage p).mp hn).1 rfl
    · exact t6 k (w4 ▸ hk)
    · exact t7 ▸ w8 K hK
  · rw [view_setCached, hw]
    exact hpage

theorem isAddressable_of_lt {a : Nat} (h : a < maxAddressableMemory) : isAddressable a = true :=
  decide_eq_true h

/-- `Free2MB` of a region outside the DMA zone. -/
theorem free2MB_at (s : State) {r : Nat} (hr : r < bitmapEntries2MB) (hlow : 8 ≤ r) :
    free2MB s (r * pdeCoverage) =
      if s.bitMap2MB.anyUsed.test r then (true, mark2MBRegionFreed s r) else (false, s) := by
  change free2MB s (r * 0x200000) = _
  have halign : alignDown (r * 0x200000) pdeCoverage / pdeCoverage = r := by
    unfold alignDown pdeCoverage
    rw [if_neg (by omega)]
    omega
  have hmax : r * 0x200000 < maxAddressableMemory := by
    have h2 : bitmapEntries2MB = 131072 := rfl
    have hm : maxAddressableMemory = 0x4000000000 := rfl
    omega
  have hdma := isDMAAddress_false (a := r * 0x200000) (by omega)
  rw [free2MB, if_neg (by omega), if_neg (by simp [isAddressable_of_lt hmax, hdma])]
  simp only [halign]
  cases s.bitMap2MB.anyUsed.test r with
  | true => rfl
  | false => rfl

/-- `Free2MB` of a region flagged used. -/
theorem free2MB_eq {r : Nat} (hr : r < bitmapEntries2MB) (hlow : 8 ≤ r) (hu : s.view.used2 r) :
    free2MB s (r * pdeCoverage) = (true, mark2MBRegionFreed s r) := by
  rw [free2MB_at s hr hlow, if_pos (show s.bitMap2MB.anyUsed.test r = true from hu)]

/-- Regions with all pages clear are outside the DMA zone. -/
theorem low_of_live2 (h : Inv F0 L4 L2 L32 s.view) {r : Nat} (hr : L2 r) : 8 ≤ r := by
  obtain ⟨hlt, -, -, hclear⟩ := h.live2 r hr
  have hp : r * 512 < bitmapEntries4KB := parent2_lt.mp (by rwa [Nat.mul_div_cancel _ (by omega)])
  have := h.noDMA _ (h.origin _ hp (hclear _ (by omega)))
  omega

/-- `Free2MB` of a live region. -/
theorem free2MB_released (h : Inv F0 L4 L2 L32 s.view) {r : Nat} (hr : L2 r) :
    (free2MB s (r * pdeCoverage)).1 = true ∧ Released s.view r (free2MB s (r * pdeCoverage)).2.view ∧
      (free2MB s (r * pdeCoverage)).2.view.cached = s.view.cached ∧
      ∀ k, (free2MB s (r * pdeCoverage)).2.view.page k ↔ k / 512 ≠ r ∧ s.view.page k := by
  obtain ⟨hlt, hu, -, -⟩ := h.live2 r hr
  have hr32 : r < 2 ^ 32 := Nat.lt_of_lt_of_le hlt entries_lt.2.1
  rw [free2MB_eq hlt (low_of_live2 h hr) hu, mark2MBRegionFreed_eq, view_push2MB]
  have hclear := view_clear2 s r
  generalize ((s.clearWords (startWord4KB r) (endWord4KB r)).putUsed2MB r false).putFree2MB r true = t
    at hclear ⊢
  obtain ⟨w, hw, w1, w2, w3, w4, w5, w6, w7, w8⟩ := settle32_spec t hlt
    (by rw [hclear]; exact View.clear2_free2.mpr (.inl rfl))
  rw [hclear] at w1 w2 w3 w4 w5 w6 w7 w8
  have hpage : ∀ k, w.page k ↔ k / 512 ≠ r ∧ s.view.page k := fun k => by rw [w1]; exact View.clear2_page
  rw [hw]
  refine ⟨rfl, ⟨fun k hk => ?_, fun k => ?_, fun k => ?_, fun K => ?_, fun K => ?_,
    ⟨r * 512, by omega, ?_⟩, fun k hk => ?_, fun K hK => w8 K hK⟩, w5, hpage⟩
  · exact (hpage k).trans (and_iff_right hk)
  · change w.used2 k ↔ if k = r then ∃ q, q / 512 = r ∧ w.page q else s.view.used2 k
    rw [w2, View.clear2_used2]
    by_cases hk : k = r
    · rw [if_pos hk]
      refine iff_of_false (fun hn => hn.1 hk) fun ⟨q, hq, hpg⟩ => ((hpage q).mp hpg).1 hq
    · rw [if_neg hk, and_iff_right hk]
  · change w.free2 k ↔ _
    rw [w3, View.clear2_free2]
  · change w.used32 K ↔ if K = r / 16 then ∃ x, x / 16 = r / 16 ∧ w.used2 x else s.view.used32 K
    rw [w6, w2]
    rfl
  · exact w7 K
  · exact fun hn => ((hpage _).mp hn).1 (by omega)
  · have hk' : k ∈ enqueue w.queue2 r := hk
    rw [w4] at hk'
    exact mem_enqueue hr32 hk'

/-! ## 32MB regions -/

/-- The loop of `Free32MB` over some children. -/
theorem freeChildren_spec : ∀ (rs : List Nat) (s : State), (∀ r ∈ rs, r < 2 ^ 32) →
    let w := (rs.foldl freeChild2MB s).view
    (∀ k, w.page k ↔ k / 512 ∉ rs ∧ s.view.page k) ∧ (∀ k, w.used2 k ↔ k ∉ rs ∧ s.view.used2 k) ∧
      (∀ k, w.free2 k ↔ k ∈ rs ∨ s.view.free2 k) ∧ (∀ k ∈ w.queue2, k ∈ rs ∨ k ∈ s.view.queue2) ∧
      w.used32 = s.view.used32 ∧ w.free32 = s.view.free32 ∧ w.queue32 = s.view.queue32 ∧
      w.cached = s.view.cached
  | [], s, _ => by simp
  | r :: rs, s, hlt => by
    have hstep : (freeChild2MB s r).view = (s.view.clear2 r).push2 r := by
      simp only [freeChild2MB, view_push2MB, view_clear2]
    obtain ⟨h1, h2, h3, h4, h5, h6, h7, h8⟩ := freeChildren_spec rs (freeChild2MB s r)
      fun k hk => hlt k (List.mem_cons_of_mem _ hk)
    rw [hstep] at h1 h2 h3 h4 h5 h6 h7 h8
    simp only [List.foldl_cons, List.mem_cons, not_or]
    refine ⟨fun k => ?_, fun k => ?_, fun k => ?_, fun k hk => ?_, h5, h6, h7, h8⟩
    · rw [h1]
      change _ ∧ (s.view.clear2 r).page k ↔ _
      rw [View.clear2_page]
      tauto
    · rw [h2]
      change _ ∧ (s.view.clear2 r).used2 k ↔ _
      rw [View.clear2_used2]
      tauto
    · rw [h3]
      change _ ∨ (s.view.clear2 r).free2 k ↔ _
      rw [View.clear2_free2]
      tauto
    · rcases h4 k hk with hk | hk
      · exact .inl (.inr hk)
      · rcases mem_enqueue (hlt r List.mem_cons_self) hk with rfl | hk
        · exact .inl (.inl rfl)
        · exact .inr hk

/-- `Free32MB` of a region outside the DMA zone. -/
theorem free32MB_at (s : State) {R : Nat} (hR : R < bitmapEntries32MB) (hlow : 1 ≤ R) :
    free32MB s (R * (16 * pdeCoverage)) = if s.bitMap32MB.anyUsed.test R then (true,
      ((((List.range' (R * 16) 16).foldl freeChild2MB s).putUsed32MB R false).putFree32MB R true).push32MB R)
      else (false, s) := by
  have halign : alignDown (R * 0x2000000) 0x2000000 / 0x2000000 = R := by
    unfold alignDown
    rw [if_neg (by omega)]
    omega
  have hmax : R * 0x2000000 < maxAddressableMemory := by
    have h2 : bitmapEntries32MB = 8192 := rfl
    have hm : maxAddressableMemory = 0x4000000000 := rfl
    omega
  have hdma := isDMAAddress_false (a := R * 0x2000000) (by omega)
  have hsize : 16 * pdeCoverage = 0x2000000 := by decide
  rw [free32MB, hsize, if_neg (by simp [isAddressable_of_lt hmax, hdma])]
  simp only [halign]
  cases s.bitMap32MB.anyUsed.test R with
  | true => rfl
  | false => rfl

/-- `Free32MB` of a region flagged used. -/
theorem free32MB_released {R : Nat} (hR : R < bitmapEntries32MB) (hlow : 1 ≤ R) (hu : s.view.used32 R) :
    (free32MB s (R * (16 * pdeCoverage))).1 = true ∧
      Released32 s.view R (free32MB s (R * (16 * pdeCoverage))).2.view := by
  have heq := free32MB_at s hR hlow
  rw [if_pos (show s.bitMap32MB.anyUsed.test R = true from hu)] at heq
  have hmem : ∀ r, r ∈ List.range' (R * 16) 16 ↔ r / 16 = R := fun r => by
    rw [List.mem_range'_1]
    omega
  have hchild : ∀ r ∈ List.range' (R * 16) 16, r < 2 ^ 32 := fun r hr =>
    Nat.lt_of_lt_of_le (parent32_lt.mp ((hmem r).mp hr ▸ hR)) entries_lt.2.1
  obtain ⟨h1, h2, h3, h4, h5, h6, h7, h8⟩ := freeChildren_spec _ s hchild
  simp only [hmem] at h1 h2 h3 h4
  generalize (List.range' (R * 16) 16).foldl freeChild2MB s = t at heq h1 h2 h3 h4 h5 h6 h7 h8
  rw [heq, view_push32MB, view_putFree32MB, view_putUsed32MB]
  refine ⟨rfl, h1, h2, h3, fun K => ?_, fun K => ?_, h4, fun K hK => ?_, h8⟩
  · change (if K = R then false = true else t.view.used32 K) ↔ _
    rw [h5]
    split <;> simp [*]
  · change (if K = R then true = true else t.view.free32 K) ↔ _
    rw [h6]
    split <;> simp [*]
  · have hK' := mem_enqueue (Nat.lt_of_lt_of_le hR entries_lt.2.2) hK
    rw [← h7]
    exact hK'

/-- `AllocateCached32MBPage`. -/
theorem allocateCached32MBPage_cases (s : State) (h : ∀ R ∈ s.view.queue32, R < bitmapEntries32MB) :
    ∃ q, (∀ R ∈ q, R < bitmapEntries32MB) ∧
      (((allocateCached32MBPage s).1 = 0 ∧ (allocateCached32MBPage s).2.view = { s.view with queue32 := q }) ∨
      ∃ R, R < bitmapEntries32MB ∧ ¬ s.view.used32 R ∧
        (allocateCached32MBPage s).1 = R * 16 * pdeCoverage ∧
        (allocateCached32MBPage s).2.view = ({ s.view with queue32 := q }).mark32 R) := by
  obtain ⟨hfst, hsnd⟩ := s.cache32MB.entries_pop
  refine ⟨s.view.queue32.tail, fun R hR => h R (List.mem_of_mem_tail hR), ?_⟩
  unfold allocateCached32MBPage
  generalize s.cache32MB.pop = t at hfst hsnd
  obtain ⟨t1, t2⟩ := t
  have hview : State.view { s with cache32MB := t2 } = { s.view with queue32 := s.view.queue32.tail } := by
    simp only [State.view, hsnd]
  cases t1 with
  | none => exact .inl ⟨rfl, hview⟩
  | some R =>
    have hmem : R ∈ s.view.queue32 := List.mem_of_mem_head? hfst.symm
    by_cases hu : s.view.used32 R
    · have hu' : s.bitMap32MB.anyUsed.test R = true := hu
      simp only [hu', Bool.not_true, Bool.false_eq_true, if_false]
      exact .inl ⟨trivial, hview⟩
    · have hu' : s.bitMap32MB.anyUsed.test R = false := eq_false_of_ne_true hu
      simp only [hu', Bool.not_false, if_true]
      refine .inr ⟨R, h R hmem, hu, rfl, ?_⟩
      rw [view_mark32, hview]

/-- The refill of `Cache32MB` queues regions only. -/
theorem refill32MB_spec (i : Nat) : ∀ (fuel : Nat) (freeRegions : BitVec 64) (s : State),
    (∀ R ∈ s.view.queue32, R < bitmapEntries32MB) → ∃ q, (∀ R ∈ q, R < bitmapEntries32MB) ∧
      (refill32MB i fuel freeRegions s).view = { s.view with queue32 := q }
  | 0, _, s, h => ⟨s.view.queue32, h, rfl⟩
  | fuel + 1, freeRegions, s, h => by
    unfold refill32MB
    split
    · extract_lets bit region
      split
      · exact ⟨s.view.queue32, h, rfl⟩
      · rename_i hlt
        have hreg : region < bitmapEntries32MB := Nat.lt_of_not_le hlt
        have hq : ∀ R ∈ (s.push32MB region).view.queue32, R < bitmapEntries32MB := fun R hR => by
          rw [view_push32MB] at hR
          rcases mem_enqueue (Nat.lt_of_lt_of_le hreg entries_lt.2.2) hR with rfl | hR
          · exact hreg
          · exact h R hR
        obtain ⟨q, h1, h2⟩ := refill32MB_spec i fuel (freeRegions &&& ~~~Bitmap.mask bit) (s.push32MB region) hq
        exact ⟨q, h1, by rw [h2, view_push32MB]; rfl⟩
    · exact ⟨s.view.queue32, h, rfl⟩

theorem refillAll32MB_spec : ∀ (is : List Nat) (s : State),
    (∀ R ∈ s.view.queue32, R < bitmapEntries32MB) → ∃ q, (∀ R ∈ q, R < bitmapEntries32MB) ∧
      (refillAll32MB s is).view = { s.view with queue32 := q }
  | [], s, h => ⟨s.view.queue32, h, rfl⟩
  | i :: is, s, h => by
    unfold refillAll32MB
    split
    · exact ⟨s.view.queue32, h, rfl⟩
    · obtain ⟨q, h1, h2⟩ := refill32MB_spec i 64 (~~~s.bitMap32MB.anyUsed i) s h
      obtain ⟨q', h3, h4⟩ := refillAll32MB_spec is (refill32MB i 64 (~~~s.bitMap32MB.anyUsed i) s)
        (by rw [h2]; exact h1)
      exact ⟨q', h3, by rw [h4, h2]⟩

/-- What `Allocate32MB` does, if region 0 is in use. -/
theorem allocate32MB_chosen (hqueue : ∀ R ∈ s.view.queue32, R < bitmapEntries32MB)
    (hlow : ∀ R, R < bitmapEntries32MB → ¬ s.view.used32 R → 1 ≤ R) :
    ∃ q, (∀ R ∈ q, R < bitmapEntries32MB) ∧
      (((allocate32MB s).1 = 0 ∧ (allocate32MB s).2.view = { s.view with queue32 := q }) ∨
      ∃ R, R < bitmapEntries32MB ∧ ¬ s.view.used32 R ∧ (allocate32MB s).1 = R * 16 * pdeCoverage ∧
        (allocate32MB s).2.view = ({ s.view with queue32 := q }).mark32 R) := by
  obtain ⟨q, hq, ⟨h1, h2⟩ | ⟨R, hR, hu, h1, h2⟩⟩ := allocateCached32MBPage_cases s hqueue
  · have heq : allocate32MB s = allocateCached32MBPage
        (refillAll32MB (allocateCached32MBPage s).2 (List.range bitmapWords32MB)) := by
      rw [allocate32MB, if_neg (not_not.mpr h1)]
    obtain ⟨q1, hq1, hrefill⟩ := refillAll32MB_spec (List.range bitmapWords32MB) (allocateCached32MBPage s).2
      (by rw [h2]; exact hq)
    rw [h2] at hrefill
    rw [heq]
    have hcases := allocateCached32MBPage_cases
      (refillAll32MB (allocateCached32MBPage s).2 (List.range bitmapWords32MB)) (by rw [hrefill]; exact hq1)
    rw [hrefill] at hcases
    exact hcases
  · have hpos := hlow R hR hu
    have hne : (allocateCached32MBPage s).1 ≠ 0 := by
      rw [h1]
      unfold pdeCoverage
      omega
    refine ⟨q, hq, .inr ⟨R, hR, hu, ?_⟩⟩
    rw [allocate32MB, if_pos hne]
    exact ⟨h1, h2⟩

theorem allocate32MB_cases (h : Inv F0 L4 L2 L32 s.view) :
    ∃ q, (∀ R ∈ q, R < bitmapEntries32MB) ∧
      (((allocate32MB s).1 = 0 ∧ (allocate32MB s).2.view = { s.view with queue32 := q }) ∨
      ∃ R, R < bitmapEntries32MB ∧ ¬ s.view.used32 R ∧ (allocate32MB s).1 = R * 16 * pdeCoverage ∧
        (allocate32MB s).2.view = ({ s.view with queue32 := q }).mark32 R) :=
  allocate32MB_chosen h.queue32 fun _ => h.pos_of_unused32

/-! ## 2MB regions -/

/-- `AllocateCached2MBPage` on an empty queue. -/
theorem allocateCached2MBPage_nil (h : s.view.queue2 = []) :
    (allocateCached2MBPage s).1 = 0 ∧ (allocateCached2MBPage s).2.view = s.view := by
  obtain ⟨hfst, hsnd⟩ := s.cache2MB.entries_pop
  unfold allocateCached2MBPage
  generalize s.cache2MB.pop = t at hfst hsnd
  obtain ⟨t1, t2⟩ := t
  change s.cache2MB.entries = [] at h
  rw [h] at hfst hsnd
  cases hfst
  refine ⟨rfl, ?_⟩
  simp only [State.view, hsnd, h]
  rfl

/-- `AllocateCached2MBPage` takes the oldest entry, or drops it when it is in use. -/
theorem allocateCached2MBPage_cons {r : Nat} {q : List Nat} (h : s.view.queue2 = r :: q) :
    (s.view.used2 r → (allocateCached2MBPage s).1 = 0 ∧
      (allocateCached2MBPage s).2.view = { s.view with queue2 := q }) ∧
    (¬ s.view.used2 r → (allocateCached2MBPage s).1 = r * pdeCoverage ∧
      (allocateCached2MBPage s).2.view = ({ s.view with queue2 := q }).take2 r) := by
  obtain ⟨hfst, hsnd⟩ := s.cache2MB.entries_pop
  unfold allocateCached2MBPage
  generalize s.cache2MB.pop = t at hfst hsnd
  obtain ⟨t1, t2⟩ := t
  change s.cache2MB.entries = r :: q at h
  rw [h] at hfst hsnd
  cases hfst
  have hview : State.view { s with cache2MB := t2 } = { s.view with queue2 := q } := by
    simp only [State.view, hsnd]
    rfl
  constructor
  · intro hu
    have hu' : s.bitMap2MB.anyUsed.test r = true := hu
    simp only [hu', Bool.not_true, Bool.false_eq_true, if_false]
    exact ⟨trivial, hview⟩
  · intro hu
    have hu' : s.bitMap2MB.anyUsed.test r = false := eq_false_of_ne_true hu
    simp only [hu', Bool.not_false, if_true, view_mark32, view_putFree2MB, view_putUsed2MB, hview]
    refine ⟨trivial, ?_⟩
    simp only [View.take2, get2MBParent32MB, Bool.false_eq_true]

theorem isFull_iff (s : State) : s.cache2MB.isFull = true ↔ s.view.queue2.length = 64 := by
  rw [Ring.isFull, beq_iff_eq, State.view, Ring.length_entries]

/-- The loop that queues unused children appends some of them, the first one first. -/
theorem pushUnused_spec : ∀ (rs : List Nat) (s : State), (∀ r ∈ rs, r < 2 ^ 32) →
    ∃ extra, (pushUnused s rs).view = { s.view with queue2 := s.view.queue2 ++ extra } ∧
      (∀ x ∈ extra, x ∈ rs ∧ ¬ s.view.used2 x) ∧
      (s.view.queue2.length < 64 → extra = [] → ∀ r ∈ rs, s.view.used2 r) ∧
      ∀ x rest, extra = x :: rest → ∃ pre post, rs = pre ++ x :: post ∧ ∀ y ∈ pre, s.view.used2 y
  | [], s, _ => ⟨[], by simp [pushUnused], by simp, by simp, by simp⟩
  | r :: rs, s, hlt => by
    have hrs : ∀ k ∈ rs, k < 2 ^ 32 := fun k hk => hlt k (List.mem_cons_of_mem _ hk)
    by_cases hu : s.view.used2 r
    · have hskip : pushUnused s (r :: rs) = pushUnused s rs := by
        have hu' : s.bitMap2MB.anyUsed.test r = true := hu
        rw [pushUnused, if_neg (by simp [hu'])]
      obtain ⟨extra, h1, h2, h3, h4⟩ := pushUnused_spec rs s hrs
      rw [hskip]
      refine ⟨extra, h1, fun x hx => ⟨List.mem_cons_of_mem _ (h2 x hx).1, (h2 x hx).2⟩,
        fun hlen he => ?_, fun x rest he => ?_⟩
      · intro k hk
        rcases List.mem_cons.mp hk with rfl | hk
        · exact hu
        · exact h3 hlen he k hk
      · obtain ⟨pre, post, hsplit, hpre⟩ := h4 x rest he
        refine ⟨r :: pre, post, by rw [hsplit]; rfl, fun y hy => ?_⟩
        rcases List.mem_cons.mp hy with rfl | hy
        · exact hu
        · exact hpre y hy
    · have hu' : s.bitMap2MB.anyUsed.test r = false := eq_false_of_ne_true hu
      have hstep : pushUnused s (r :: rs) =
          if (s.push2MB r).cache2MB.isFull then s.push2MB r else pushUnused (s.push2MB r) rs := by
        rw [pushUnused, if_pos (by simp [hu'])]
      have hfst : ∀ x rest', r :: rest' = x :: rest' → ∃ pre post, r :: rs = pre ++ x :: post ∧
          ∀ y ∈ pre, s.view.used2 y := fun x rest' he => by
        cases he
        exact ⟨[], rs, rfl, by simp⟩
      rw [hstep]
      by_cases hlen : s.view.queue2.length = 64
      · have hsame : (s.push2MB r).view = s.view := by
          rw [view_push2MB, View.push2, enqueue, if_pos hlen]
        rw [if_pos ((isFull_iff _).mpr (by rw [hsame]; exact hlen)), hsame]
        exact ⟨[], by simp, by simp, fun h => by omega, by simp⟩
      · have hview : (s.push2MB r).view = { s.view with queue2 := s.view.queue2 ++ [r] } := by
          rw [view_push2MB, View.push2, enqueue, if_neg hlen, Nat.mod_eq_of_lt (hlt r List.mem_cons_self)]
        by_cases hfull : (s.push2MB r).cache2MB.isFull = true
        · rw [if_pos hfull, hview]
          refine ⟨[r], rfl, by simpa using hu, by simp, fun x rest he => ?_⟩
          cases he
          exact hfst r [] rfl
        · obtain ⟨extra, h1, h2, -, -⟩ := pushUnused_spec rs (s.push2MB r) hrs
          rw [if_neg hfull, h1, hview]
          rw [hview] at h2
          refine ⟨r :: extra, by simp, fun x hx => ?_, by simp, fun x rest he => ?_⟩
          · rcases List.mem_cons.mp hx with rfl | hx
            · exact ⟨List.mem_cons_self, hu⟩
            · exact ⟨List.mem_cons_of_mem _ (h2 x hx).1, (h2 x hx).2⟩
          · cases he
            exact hfst r extra rfl

/-- The children of the regions of word `i` whose bit is set in `mask`. -/
def Under (i : Nat) (mask : BitVec 64) (x : Nat) : Prop := x / 16 / 64 = i ∧ mask.getLsbD (x / 16 % 64) = true

theorem under_remove {i x : Nat} {mask : BitVec 64} (bit : Nat) (hbit : bit < 64) :
    Under i (mask &&& ~~~Bitmap.mask bit) x ↔ Under i mask x ∧ x / 16 ≠ i * 64 + bit := by
  have hmod : x / 16 % 64 < 64 := Nat.mod_lt _ (by omega)
  unfold Under
  rw [BitVec.getLsbD_and, BitVec.getLsbD_not, Bitmap.getLsbD_mask, Bool.and_eq_true, decide_eq_true hmod,
    Bool.true_and, Bool.not_eq_true', decide_eq_false_iff_not, Nat.mod_eq_of_lt hbit]
  constructor
  · rintro ⟨h1, h2, h3⟩
    exact ⟨⟨h1, h2⟩, by omega⟩
  · rintro ⟨⟨h1, h2⟩, h3⟩
    exact ⟨h1, h2, by omega⟩

/-- No region of the mask is below the one of its lowest bit. -/
theorem under_ge {i bit y : Nat} {mask : BitVec 64} (hlowest : ∀ b < bit, mask.getLsbD b = false) (hy : Under i mask y) :
    i * 64 + bit ≤ y / 16 := by
  apply Decidable.byContradiction
  intro hn
  have hdiv := hy.1
  rw [Under, hlowest (y / 16 % 64) (by omega)] at hy
  exact absurd hy.2 (by simp)

/-- What is left of a mask without its lowest bit. -/
theorem getLsbD_remove {bit b : Nat} {mask : BitVec 64} (hbit : bit < 64) (hlowest : ∀ b < bit, mask.getLsbD b = false)
    (hb : b ≤ bit) : (mask &&& ~~~Bitmap.mask bit).getLsbD b = false := by
  rw [BitVec.getLsbD_and, BitVec.getLsbD_not, Bitmap.getLsbD_mask, Nat.mod_eq_of_lt hbit]
  rcases Nat.lt_or_eq_of_le hb with hlt | rfl
  · rw [hlowest b hlt, Bool.false_and]
  · simp

/-- The first of a sorted list that is not used is the least one. -/
theorem first_le {l pre post : List Nat} {x y : Nat} {used : Nat → Prop} (hsorted : l.Pairwise (· < ·))
    (hsplit : l = pre ++ x :: post) (hpre : ∀ z ∈ pre, used z) (hy : y ∈ l) (hyu : ¬ used y) : x ≤ y := by
  subst hsplit
  rcases List.mem_append.mp hy with hy | hy
  · exact absurd (hpre y hy) hyu
  · rcases List.mem_cons.mp hy with rfl | hy
    · exact Nat.le_refl _
    · exact Nat.le_of_lt (List.rel_of_pairwise_cons (List.pairwise_append.mp hsorted).2.1 hy)

/-- The refill of `Cache2MB` from word `i` appends unused children of the regions in `mask`, the
lowest one first. -/
theorem refill2MB_spec {i : Nat} (hi : i < bitmapWords32MB) : ∀ (fuel : Nat) (mask : BitVec 64) (s : State),
    (∀ b, b + fuel < 64 → mask.getLsbD b = false) →
    ∃ extra, (refill2MB i fuel mask s).view = { s.view with queue2 := s.view.queue2 ++ extra } ∧
      (∀ x ∈ extra, x < bitmapEntries2MB) ∧
      (s.view.queue2.length < 64 → extra = [] → ∀ x, Under i mask x → s.view.used2 x) ∧
      (s.view.queue2.length < 64 → ∀ x rest, extra = x :: rest →
        Under i mask x ∧ ¬ s.view.used2 x ∧ ∀ y, Under i mask y → ¬ s.view.used2 y → x ≤ y)
  | 0, mask, s, hlow => by
    refine ⟨[], by simp [refill2MB], by simp, fun _ _ x hx => ?_, by simp⟩
    rw [Under, hlow (x / 16 % 64) (by omega)] at hx
    exact absurd hx.2 (by simp)
  | fuel + 1, mask, s, hlow => by
    by_cases hmask : mask = 0#64
    · refine ⟨[], by rw [refill2MB, if_neg (by simp [hmask])]; simp, by simp, fun _ _ x hx => ?_, by simp⟩
      rw [Under, hmask, BitVec.getLsbD_zero] at hx
      exact absurd hx.2 (by simp)
    by_cases hfull : s.cache2MB.isFull = true
    · have hlen := (isFull_iff s).mp hfull
      exact ⟨[], by rw [refill2MB, if_neg (by simp [hfull])]; simp, by simp, fun h => by omega,
        fun h => by omega⟩
    obtain ⟨hbit, hset, hlowest⟩ := Bitmap.countrZero_spec hmask
    have hstep : refill2MB i (fuel + 1) mask s = refill2MB i fuel
        (mask &&& ~~~Bitmap.mask (Bitmap.countrZero mask))
        (pushUnused s (List.range' ((i * 64 + Bitmap.countrZero mask) * 16) 16)) := by
      rw [refill2MB, if_pos ⟨hmask, by simp [hfull]⟩]
    rw [hstep]
    generalize Bitmap.countrZero mask = bit at hbit hset hlowest
    have hfuel : ¬ bit + (fuel + 1) < 64 := fun h => by
      rw [hlow bit h] at hset
      cases hset
    have hw : bitmapWords32MB = 128 := rfl
    have h2 : bitmapEntries2MB = 131072 := rfl
    have hmem : ∀ r, r ∈ List.range' ((i * 64 + bit) * 16) 16 ↔ r / 16 = i * 64 + bit := fun r => by
      rw [List.mem_range'_1]
      omega
    have hin : ∀ r, r / 16 = i * 64 + bit → Under i mask r := fun r hr => by
      refine ⟨by omega, ?_⟩
      rwa [show r / 16 % 64 = bit by omega]
    obtain ⟨extra₁, p1, p2, p3, p4⟩ := pushUnused_spec (List.range' ((i * 64 + bit) * 16) 16) s
      fun r hr => by
        have := (hmem r).mp hr
        omega
    obtain ⟨extra₂, q1, q2, q3, q4⟩ := refill2MB_spec hi fuel (mask &&& ~~~Bitmap.mask bit)
      (pushUnused s (List.range' ((i * 64 + bit) * 16) 16)) fun b hb => getLsbD_remove hbit hlowest (by omega)
    rw [p1] at q1 q3 q4
    refine ⟨extra₁ ++ extra₂, by rw [q1]; simp, fun x hx => ?_, fun hlen he x hx => ?_, fun hlen x rest he => ?_⟩
    · rcases List.mem_append.mp hx with hx | hx
      · have := (hmem x).mp (p2 x hx).1
        omega
      · exact q2 x hx
    · obtain ⟨rfl, rfl⟩ := List.append_eq_nil_iff.mp he
      by_cases hreg : x / 16 = i * 64 + bit
      · exact p3 hlen rfl x ((hmem x).mpr hreg)
      · exact q3 (by simpa using hlen) rfl x ((under_remove bit hbit).mpr ⟨hx, hreg⟩)
    · cases extra₁ with
      | nil =>
        obtain ⟨hux, hnx, hmin⟩ := q4 (by simpa using hlen) x rest he
        refine ⟨((under_remove bit hbit).mp hux).1, hnx, fun y hy hyu => ?_⟩
        by_cases hreg : y / 16 = i * 64 + bit
        · exact absurd (p3 hlen rfl y ((hmem y).mpr hreg)) hyu
        · exact hmin y ((under_remove bit hbit).mpr ⟨hy, hreg⟩) hyu
      | cons x' rest' =>
        obtain ⟨rfl, -⟩ := List.cons.inj he
        obtain ⟨hxm, hxu⟩ := p2 x' List.mem_cons_self
        have hxreg := (hmem x').mp hxm
        obtain ⟨pre, post, hsplit, hpre⟩ := p4 x' rest' rfl
        refine ⟨hin x' hxreg, hxu, fun y hy hyu => ?_⟩
        have hyge := under_ge hlowest hy
        by_cases hreg : y / 16 = i * 64 + bit
        · exact first_le List.pairwise_lt_range' hsplit hpre ((hmem y).mpr hreg) hyu
        · omega

/-- A partly used 32MB region. -/
def PartlyUsed (v : View) (R : Nat) : Prop := v.used32 R ∧ v.free32 R

/-- The lowest unused 2MB region in a partly used 32MB region of the words `is`. -/
structure LowestUnused (v : View) (is : List Nat) (r : Nat) : Prop where
  word : r / 16 / 64 ∈ is
  partly : PartlyUsed v (r / 16)
  unused : ¬ v.used2 r
  least : ∀ y, y / 16 / 64 ∈ is → PartlyUsed v (y / 16) → ¬ v.used2 y → r ≤ y

theorem under_partly (s : State) (i x : Nat) :
    Under i (s.bitMap32MB.anyUsed i &&& s.bitMap32MB.anyFree i) x ↔
      x / 16 / 64 = i ∧ PartlyUsed s.view (x / 16) := by
  unfold Under PartlyUsed
  refine and_congr_right fun hi => ?_
  change _ ↔ s.bitMap32MB.anyUsed.test (x / 16) = true ∧ s.bitMap32MB.anyFree.test (x / 16) = true
  rw [BitVec.getLsbD_and, Bool.and_eq_true, Bitmap.test_eq, Bitmap.test_eq, hi]

theorem partly_zero {i : Nat} (h : s.bitMap32MB.anyUsed i &&& s.bitMap32MB.anyFree i = 0#64) (R : Nat)
    (hR : R / 64 = i) : ¬ PartlyUsed s.view R := by
  intro hp
  have := (under_partly s i (R * 16)).mpr (by rw [Nat.mul_div_cancel _ (by omega)]; exact ⟨hR, hp⟩)
  rw [Under, h, BitVec.getLsbD_zero] at this
  exact absurd this.2 (by simp)

/-- The first scan of `Allocate2MB` when entries are queued: the oldest one is tried if there
is a partly used region. -/
theorem allocatePartial2MB_queued {k : Nat} {q : List Nat} (hq : s.view.queue2 = k :: q)
    (hvalid : ∀ x ∈ q, x < bitmapEntries2MB) : ∀ is : List Nat, (∀ i ∈ is, i < bitmapWords32MB) →
    (allocatePartial2MB s is = (none, s) ∧ ∀ R, R / 64 ∈ is → ¬ PartlyUsed s.view R) ∨
    ∃ t q', t.view = { s.view with queue2 := k :: q' } ∧ (∀ x ∈ q', x < bitmapEntries2MB) ∧
      allocatePartial2MB s is = (some (allocateCached2MBPage t).1, (allocateCached2MBPage t).2)
  | [], _ => .inl ⟨rfl, by simp⟩
  | i :: is, hlt => by
    by_cases hmask : s.bitMap32MB.anyUsed i &&& s.bitMap32MB.anyFree i = 0#64
    · have hskip : allocatePartial2MB s (i :: is) = allocatePartial2MB s is := by
        rw [allocatePartial2MB, if_neg (not_not.mpr hmask)]
      rw [hskip]
      obtain ⟨h1, h2⟩ | h := allocatePartial2MB_queued hq hvalid is
        fun j hj => hlt j (List.mem_cons_of_mem _ hj)
      · refine .inl ⟨h1, fun R hR => ?_⟩
        rcases List.mem_cons.mp hR with hR | hR
        · exact partly_zero hmask R hR
        · exact h2 R hR
      · exact .inr h
    · obtain ⟨extra, h1, h2, -, -⟩ := refill2MB_spec (hlt i List.mem_cons_self) 64
        (s.bitMap32MB.anyUsed i &&& s.bitMap32MB.anyFree i) s (fun b hb => by omega)
      generalize hmask' : s.bitMap32MB.anyUsed i &&& s.bitMap32MB.anyFree i = mask at hmask h1
      rw [hq] at h1
      have hne : (refill2MB i 64 mask s).cache2MB.isEmpty = false := by
        rw [Bool.eq_false_iff, ne_eq, Ring.isEmpty_iff]
        intro he
        have : (refill2MB i 64 mask s).view.queue2 = [] := he
        rw [h1] at this
        simp at this
      refine .inr ⟨refill2MB i 64 mask s, q ++ extra, by rw [h1]; simp, fun x hx => ?_, ?_⟩
      · rcases List.mem_append.mp hx with hx | hx
        · exact hvalid x hx
        · exact h2 x hx
      · rw [allocatePartial2MB]
        simp only [hmask', if_pos hmask, hne, Bool.not_false, if_true]

/-- The first scan of `Allocate2MB` with nothing queued: the lowest unused region in a partly
used one is tried. -/
theorem allocatePartial2MB_empty : ∀ (is : List Nat) (s : State), s.view.queue2 = [] →
    (∀ i ∈ is, i < bitmapWords32MB) → is.Pairwise (· < ·) →
    (∃ s', allocatePartial2MB s is = (none, s') ∧ s'.view = s.view ∧
      ∀ x, x / 16 / 64 ∈ is → PartlyUsed s.view (x / 16) → s.view.used2 x) ∨
    ∃ t r q', LowestUnused s.view is r ∧ r < bitmapEntries2MB ∧
      t.view = { s.view with queue2 := r :: q' } ∧ (∀ x ∈ q', x < bitmapEntries2MB) ∧
      allocatePartial2MB s is = (some (allocateCached2MBPage t).1, (allocateCached2MBPage t).2)
  | [], s, _, _, _ => .inl ⟨s, rfl, rfl, by simp⟩
  | i :: is, s, hq, hlt, hsorted => by
    have hlt' : ∀ j ∈ is, j < bitmapWords32MB := fun j hj => hlt j (List.mem_cons_of_mem _ hj)
    have hlater : ∀ j ∈ is, i < j := fun j hj => List.rel_of_pairwise_cons hsorted hj
    -- the scan goes on, with the same view, when the word has nothing to queue
    have hrest : ∀ s' : State, s'.view = s.view → allocatePartial2MB s (i :: is) = allocatePartial2MB s' is →
        (∀ x, x / 16 / 64 = i → PartlyUsed s.view (x / 16) → s.view.used2 x) →
        (∃ s', allocatePartial2MB s (i :: is) = (none, s') ∧ s'.view = s.view ∧
          ∀ x, x / 16 / 64 ∈ i :: is → PartlyUsed s.view (x / 16) → s.view.used2 x) ∨
        ∃ t r q', LowestUnused s.view (i :: is) r ∧ r < bitmapEntries2MB ∧
          t.view = { s.view with queue2 := r :: q' } ∧ (∀ x ∈ q', x < bitmapEntries2MB) ∧
          allocatePartial2MB s (i :: is) = (some (allocateCached2MBPage t).1, (allocateCached2MBPage t).2) := by
      intro s' hv hres hnone
      rw [hres]
      obtain ⟨s'', h1, h2, h3⟩ | ⟨t, r, q', h1, h2, h3, h4, h5⟩ :=
        allocatePartial2MB_empty is s' (by rw [hv]; exact hq) hlt' (List.pairwise_cons.mp hsorted).2
      · rw [hv] at h2 h3
        refine .inl ⟨s'', h1, h2, fun x hx hp => ?_⟩
        rcases List.mem_cons.mp hx with hx | hx
        · exact hnone x hx hp
        · exact h3 x hx hp
      · rw [hv] at h1 h3
        refine .inr ⟨t, r, q', ⟨List.mem_cons_of_mem _ h1.word, h1.partly, h1.unused, fun y hy hp hu => ?_⟩,
          h2, h3, h4, h5⟩
        rcases List.mem_cons.mp hy with hy | hy
        · exact absurd (hnone y hy hp) hu
        · exact h1.least y hy hp hu
    by_cases hmask : s.bitMap32MB.anyUsed i &&& s.bitMap32MB.anyFree i = 0#64
    · refine hrest s rfl ?_ fun x hx hp => absurd hp (partly_zero hmask _ hx)
      rw [allocatePartial2MB, if_neg (not_not.mpr hmask)]
    · obtain ⟨extra, h1, h2, h3, h4⟩ := refill2MB_spec (hlt i List.mem_cons_self) 64
        (s.bitMap32MB.anyUsed i &&& s.bitMap32MB.anyFree i) s (fun b hb => by omega)
      have hlen : s.view.queue2.length < 64 := by
        rw [hq]
        decide
      simp only [under_partly] at h3 h4
      generalize hmask' : s.bitMap32MB.anyUsed i &&& s.bitMap32MB.anyFree i = mask at hmask h1
      rw [hq, List.nil_append] at h1
      have hempty : (refill2MB i 64 mask s).cache2MB.isEmpty = true ↔ extra = [] := by
        rw [Ring.isEmpty_iff]
        change (refill2MB i 64 mask s).view.queue2 = [] ↔ _
        rw [h1]
      cases extra with
      | nil =>
        refine hrest (refill2MB i 64 mask s) (by rw [h1, ← hq]) ?_ fun x hx hp => h3 hlen rfl x ⟨hx, hp⟩
        rw [allocatePartial2MB]
        simp only [hmask', if_pos hmask, hempty.mpr rfl, Bool.not_true, Bool.false_eq_true, if_false]
      | cons r q' =>
        obtain ⟨⟨hword, hpartly⟩, hunused, hleast⟩ := h4 hlen r q' rfl
        have hne : (refill2MB i 64 mask s).cache2MB.isEmpty = false :=
          Bool.eq_false_iff.mpr fun he => by cases hempty.mp he
        refine .inr ⟨refill2MB i 64 mask s, r, q', ⟨by rw [hword]; exact List.mem_cons_self, hpartly, hunused,
          fun y hy hp hu => ?_⟩, h2 r List.mem_cons_self, h1, fun x hx => h2 x (List.mem_cons_of_mem _ hx), ?_⟩
        · rcases List.mem_cons.mp hy with hy | hy
          · exact hleast y ⟨hy, hp⟩ hu
          · have := hlater _ hy
            omega
        · rw [allocatePartial2MB]
          simp only [hmask', if_pos hmask, hne, Bool.not_false, if_true]

/-- The second scan of `Allocate2MB` queues the first child of an unused 32MB region. -/
theorem allocateFree2MB_spec : ∀ is : List Nat, (∀ i ∈ is, i < bitmapWords32MB) →
    (allocateFree2MB s is = (0, s) ∧ ∀ R, R / 64 ∈ is → s.view.used32 R) ∨
      ∃ R, R < bitmapEntries32MB ∧ ¬ s.view.used32 R ∧
        allocateFree2MB s is = allocateCached2MBPage (s.push2MB (R * 16))
  | [], _ => .inl ⟨rfl, by simp⟩
  | i :: is, hlt => by
    by_cases hfree : ~~~s.bitMap32MB.anyUsed i = 0#64
    · have hskip : allocateFree2MB s (i :: is) = allocateFree2MB s is := by
        rw [allocateFree2MB, if_neg (not_not.mpr hfree)]
      rw [hskip]
      obtain ⟨h1, h2⟩ | h := allocateFree2MB_spec is fun j hj => hlt j (List.mem_cons_of_mem _ hj)
      · refine .inl ⟨h1, fun R hR => ?_⟩
        rcases List.mem_cons.mp hR with hR | hR
        · exact (Bitmap.word_eq_ones _ i).mp ((Bitmap.not_eq_zero _ i).mp hfree) R hR
        · exact h2 R hR
      · exact .inr h
    · obtain ⟨hdiv, htest, -⟩ := Bitmap.lowest_spec (fun w => ~~~s.bitMap32MB.anyUsed w) hfree
      rw [Bitmap.test_not, Bool.not_eq_true'] at htest
      have hi : i < bitmapWords32MB := hlt i List.mem_cons_self
      refine .inr ⟨i * 64 + Bitmap.countrZero (~~~s.bitMap32MB.anyUsed i), ?_, ?_, ?_⟩
      · have hw : bitmapWords32MB = 128 := rfl
        have h32 : bitmapEntries32MB = 8192 := rfl
        omega
      · exact fun hu => by
          have hu' : s.bitMap32MB.anyUsed.test _ = true := hu
          rw [htest] at hu'
          cases hu'
      · rw [allocateFree2MB, if_pos hfree]

/-- What `Allocate2MB` does when the first entry is of no use: `s` is the state without it. -/
def rescan2MB (s : State) : Nat × State :=
  match allocatePartial2MB s (List.range bitmapWords32MB) with
  | (some address, s) => (address, s)
  | (none, s) => allocateFree2MB s (List.range bitmapWords32MB)

theorem allocate2MB_eq (s : State) : allocate2MB s =
    if (allocateCached2MBPage s).1 ≠ 0 then allocateCached2MBPage s
    else rescan2MB (allocateCached2MBPage s).2 := rfl

/-- The outcome of an `Allocate2MB` that tries region `r` last, with the queue `q` left. -/
def Tried (v : View) (r : Nat) (q : List Nat) (result : Nat × State) : Prop :=
  (v.used2 r → result.1 = 0 ∧ result.2.view = { v with queue2 := q }) ∧
    (¬ v.used2 r → result.1 = r * pdeCoverage ∧ result.2.view = ({ v with queue2 := q }).take2 r)

theorem words_lt : ∀ i ∈ List.range bitmapWords32MB, i < bitmapWords32MB := fun _ hi => List.mem_range.mp hi

theorem word_mem {R : Nat} (hR : R < bitmapEntries32MB) : R / 64 ∈ List.range bitmapWords32MB := by
  have hw : bitmapWords32MB = 128 := rfl
  have h32 : bitmapEntries32MB = 8192 := rfl
  rw [List.mem_range]
  omega

theorem rescan2MB_queued {r : Nat} {q : List Nat} (hq : s.view.queue2 = r :: q)
    (hvalid : ∀ x ∈ q, x < bitmapEntries2MB) :
    (rescan2MB s = (0, s) ∧ ∀ R, R < bitmapEntries32MB → ¬ PartlyUsed s.view R ∧ s.view.used32 R) ∨
    ∃ q', (∀ x ∈ q', x < bitmapEntries2MB) ∧ Tried s.view r q' (rescan2MB s) := by
  obtain ⟨h1, h2⟩ | ⟨t, q', h1, h2, h3⟩ := allocatePartial2MB_queued hq hvalid _ words_lt
  · have hres : rescan2MB s = allocateFree2MB s (List.range bitmapWords32MB) := by
      rw [rescan2MB, h1]
    rw [hres]
    obtain ⟨h3, hall⟩ | ⟨R, hR, -, h3⟩ := allocateFree2MB_spec (s := s) _ words_lt
    · exact .inl ⟨h3, fun R hR => ⟨h2 R (word_mem hR), hall R (word_mem hR)⟩⟩
    · rw [h3]
      have hpush : (s.push2MB (R * 16)).view.queue2 = enqueue (r :: q) (R * 16) := by
        rw [view_push2MB, ← hq]
        rfl
      obtain ⟨q', hq', hmem⟩ : ∃ q', enqueue (r :: q) (R * 16) = r :: q' ∧
          ∀ x ∈ q', x < bitmapEntries2MB := by
        have h32 : bitmapEntries32MB = 8192 := rfl
        have h2 : bitmapEntries2MB = 131072 := rfl
        unfold enqueue
        split
        · exact ⟨q, rfl, hvalid⟩
        · refine ⟨q ++ [R * 16 % 2 ^ 32], rfl, fun x hx => ?_⟩
          rcases List.mem_append.mp hx with hx | hx
          · exact hvalid x hx
          · rw [List.mem_singleton.mp hx]
            omega
      have hcons := allocateCached2MBPage_cons (hpush.trans hq')
      rw [view_push2MB] at hcons
      exact .inr ⟨q', hmem, hcons⟩
  · have hres : rescan2MB s = allocateCached2MBPage t := by
      rw [rescan2MB, h3]
    rw [hres]
    have hcons := allocateCached2MBPage_cons (s := t) (r := r) (q := q') (by rw [h1])
    rw [h1] at hcons
    exact .inr ⟨q', h2, hcons⟩

theorem rescan2MB_empty (hq : s.view.queue2 = []) :
    (rescan2MB s).1 = 0 ∧ (rescan2MB s).2.view = s.view ∧
        (∀ r, ¬ LowestUnused s.view (List.range bitmapWords32MB) r) ∧
        (∀ r, r < bitmapEntries2MB → s.view.used32 (r / 16) ∧ (PartlyUsed s.view (r / 16) → s.view.used2 r)) ∨
    ∃ r q', r < bitmapEntries2MB ∧ (∀ x ∈ q', x < bitmapEntries2MB) ∧ Tried s.view r q' (rescan2MB s) ∧
      (LowestUnused s.view (List.range bitmapWords32MB) r ∨
        ¬ s.view.used32 (r / 16) ∧ ∀ k, ¬ LowestUnused s.view (List.range bitmapWords32MB) k) := by
  obtain ⟨s', h1, h2, h3⟩ | ⟨t, r, q', h1, h2, h3, h4, h5⟩ :=
    allocatePartial2MB_empty _ s hq words_lt List.pairwise_lt_range
  · have hnone : ∀ r, ¬ LowestUnused s.view (List.range bitmapWords32MB) r :=
      fun r hr => hr.unused (h3 r hr.word hr.partly)
    have hres : rescan2MB s = allocateFree2MB s' (List.range bitmapWords32MB) := by
      rw [rescan2MB, h1]
    rw [hres]
    obtain ⟨h4, hall⟩ | ⟨R, hR, hu, h4⟩ := allocateFree2MB_spec (s := s') _ words_lt
    · rw [h4]
      rw [h2] at hall
      have hword : ∀ {r}, r < bitmapEntries2MB → r / 16 / 64 ∈ List.range bitmapWords32MB := fun hr =>
        word_mem (parent32_lt.mpr hr)
      exact .inl ⟨rfl, h2, hnone, fun r hr => ⟨hall _ (hword hr), h3 r (hword hr)⟩⟩
    · have h32 : bitmapEntries32MB = 8192 := rfl
      have hN2 : bitmapEntries2MB = 131072 := rfl
      rw [h4]
      rw [h2] at hu
      have hpush : (s'.push2MB (R * 16)).view.queue2 = [R * 16] := by
        rw [view_push2MB, View.push2, h2, hq, enqueue, if_neg (by simp), Nat.mod_eq_of_lt (by omega)]
        rfl
      have hcons := allocateCached2MBPage_cons hpush
      rw [view_push2MB, h2] at hcons
      refine .inr ⟨R * 16, [], by omega, by simp, hcons, .inr ⟨?_, hnone⟩⟩
      rwa [Nat.mul_div_cancel _ (by omega)]
  · have hres : rescan2MB s = allocateCached2MBPage t := by
      rw [rescan2MB, h5]
    rw [hres]
    have hcons := allocateCached2MBPage_cons (s := t) (r := r) (q := q') (by rw [h3])
    rw [h3] at hcons
    exact .inr ⟨r, q', h2, h4, hcons, .inl h1⟩

/-- The region that `Allocate2MB` tries: the oldest queued one if it is unused, else the one
queued after it, else the lowest unused one in a partly used 32MB region. -/
inductive Candidate2MB (v : View) : Nat → Prop where
  | oldest {r : Nat} {q : List Nat} (hq : v.queue2 = r :: q) (hu : ¬ v.used2 r) : Candidate2MB v r
  | second {k r : Nat} {q : List Nat} (hq : v.queue2 = k :: r :: q) (hk : v.used2 k) : Candidate2MB v r
  | lowest {r : Nat} (hq : v.queue2.length ≤ 1) (hk : ∀ k ∈ v.queue2, v.used2 k)
      (hr : LowestUnused v (List.range bitmapWords32MB) r) : Candidate2MB v r

/-- What an `Allocate2MB` with this result did: it took an unused candidate, or the first child
of an unused 32MB region, or nothing; an unused candidate in a partly used region is always
taken. -/
def Chosen2MB (v : View) (result : Nat × State) : Prop :=
  (∃ q, (∀ x ∈ q, x < bitmapEntries2MB) ∧
    ((result.1 = 0 ∧ result.2.view = { v with queue2 := q }) ∨
    ∃ r, r < bitmapEntries2MB ∧ ¬ v.used2 r ∧ (Candidate2MB v r ∨ ¬ v.used32 (r / 16)) ∧
      result.1 = r * pdeCoverage ∧ result.2.view = ({ v with queue2 := q }).take2 r)) ∧
  ∀ r, Candidate2MB v r → ¬ v.used2 r → r / 16 < bitmapEntries32MB → PartlyUsed v (r / 16) →
    result.1 = r * pdeCoverage

theorem LowestUnused.unique {v : View} {is : List Nat} {r k : Nat} (hr : LowestUnused v is r)
    (hk : LowestUnused v is k) : r = k :=
  Nat.le_antisymm (hr.least k hk.word hk.partly hk.unused) (hk.least r hr.word hr.partly hr.unused)

/-- The case of a region tried last. -/
theorem chosen_of_tried {v : View} {r : Nat} {q : List Nat} {result : Nat × State}
    (ht : Tried v r q result) (hr : r < bitmapEntries2MB) (hq : ∀ x ∈ q, x < bitmapEntries2MB)
    (hc : Candidate2MB v r ∨ ¬ v.used32 (r / 16))
    (hall : ∀ k, Candidate2MB v k → PartlyUsed v (k / 16) → k = r) : Chosen2MB v result := by
  refine ⟨⟨q, hq, ?_⟩, fun k hk hku _ hp => ?_⟩
  · by_cases hu : v.used2 r
    · exact .inl (ht.1 hu)
    · exact .inr ⟨r, hr, hu, hc, ht.2 hu⟩
  · obtain rfl := hall k hk hp
    exact (ht.2 hku).1

theorem rescan2MB_chosen {v : View} (hlen : v.queue2.length ≤ 1) (hused : ∀ k ∈ v.queue2, v.used2 k)
    (hs : s.view = { v with queue2 := [] }) : Chosen2MB v (rescan2MB s) := by
  have hcand : ∀ k, Candidate2MB v k → LowestUnused v (List.range bitmapWords32MB) k := by
    intro k hk
    cases hk with
    | oldest hq hu => exact absurd (hused k (by rw [hq]; exact List.mem_cons_self)) hu
    | second hq _ =>
      rw [hq] at hlen
      simp at hlen
    | lowest _ _ hr => exact hr
  have hlow : ∀ k, LowestUnused s.view (List.range bitmapWords32MB) k ↔
      LowestUnused v (List.range bitmapWords32MB) k := fun k => by
    rw [hs]
    exact ⟨fun hk => ⟨hk.word, hk.partly, hk.unused, hk.least⟩, fun hk => ⟨hk.word, hk.partly, hk.unused, hk.least⟩⟩
  obtain ⟨h1, h2, h3, -⟩ | ⟨r, q', h1, h2, h3, h4⟩ := rescan2MB_empty (s := s) (by rw [hs])
  · exact ⟨⟨[], by simp, .inl ⟨h1, by rw [h2, hs]⟩⟩, fun k hk _ _ _ => absurd ((hlow k).mpr (hcand k hk)) (h3 k)⟩
  · have h3' : Tried v r q' (rescan2MB s) := by
      unfold Tried at h3
      rw [hs] at h3
      exact h3
    refine chosen_of_tried h3' h1 h2 ?_ fun k hk hp => ?_
    · rcases h4 with h4 | ⟨h4, -⟩
      · exact .inl (.lowest hlen hused ((hlow r).mp h4))
      · rw [hs] at h4
        exact .inr h4
    · rcases h4 with h4 | ⟨-, h4⟩
      · exact (hcand k hk).unique ((hlow r).mp h4)
      · exact absurd ((hlow k).mpr (hcand k hk)) (h4 k)

/-- What `Allocate2MB` does, if region 0 is in use. -/
theorem allocate2MB_chosen (hqueue : ∀ r ∈ s.view.queue2, r < bitmapEntries2MB)
    (hlow : ∀ r, r < bitmapEntries2MB → ¬ s.view.used2 r → 8 ≤ r) : Chosen2MB s.view (allocate2MB s) := by
  rw [allocate2MB_eq]
  cases hq : s.view.queue2 with
  | nil =>
    obtain ⟨h1, h2⟩ := allocateCached2MBPage_nil hq
    rw [if_neg (not_not.mpr h1)]
    exact rescan2MB_chosen (by rw [hq]; simp) (by rw [hq]; simp) (by rw [h2, ← hq])
  | cons k q =>
    have hk : k < bitmapEntries2MB := hqueue k (by rw [hq]; exact List.mem_cons_self)
    have hvalid : ∀ x ∈ q, x < bitmapEntries2MB := fun x hx =>
      hqueue x (by rw [hq]; exact List.mem_cons_of_mem _ hx)
    obtain ⟨hused, hunused⟩ := allocateCached2MBPage_cons hq
    by_cases hu : s.view.used2 k
    · obtain ⟨h1, h2⟩ := hused hu
      rw [if_neg (not_not.mpr h1)]
      generalize (allocateCached2MBPage s).2 = t at h2
      cases q with
      | nil => exact rescan2MB_chosen (by rw [hq]; simp) (by rw [hq]; simpa using hu) h2
      | cons r q =>
        have hr : r < bitmapEntries2MB := hvalid r List.mem_cons_self
        have hcand : ∀ x, Candidate2MB s.view x → x = r := by
          intro x hx
          cases hx with
          | oldest hq' hu' =>
            rw [hq] at hq'
            cases hq'
            exact absurd hu hu'
          | second hq' _ =>
            rw [hq] at hq'
            cases hq'
            rfl
          | lowest hlen _ _ =>
            rw [hq] at hlen
            simp at hlen
        obtain ⟨h3, h4⟩ | ⟨q', h3, h4⟩ := rescan2MB_queued (s := t) (r := r) (q := q) (by rw [h2])
          fun x hx => hvalid x (List.mem_cons_of_mem _ hx)
        · rw [h3]
          refine ⟨⟨r :: q, hvalid, .inl ⟨rfl, h2⟩⟩, fun x _ _ hlt hp => ?_⟩
          rw [h2] at h4
          exact absurd hp (h4 _ hlt).1
        · unfold Tried at h4
          rw [h2] at h4
          exact chosen_of_tried h4 hr h3 (.inl (.second hq hu)) fun x hx _ => hcand x hx
    · obtain ⟨h1, h2⟩ := hunused hu
      have hpos := hlow k hk hu
      have hne : (allocateCached2MBPage s).1 ≠ 0 := by
        rw [h1]
        unfold pdeCoverage
        omega
      rw [if_pos hne]
      refine ⟨⟨q, hvalid, .inr ⟨k, hk, hu, .inl (.oldest hq hu), h1, h2⟩⟩, fun x hx _ _ _ => ?_⟩
      obtain rfl : x = k := by
        cases hx with
        | oldest hq' _ =>
          rw [hq] at hq'
          cases hq'
          rfl
        | second hq' hk' =>
          rw [hq] at hq'
          cases hq'
          exact absurd hk' hu
        | lowest _ hall _ => exact absurd (hall k (by rw [hq]; exact List.mem_cons_self)) hu
      exact h1

theorem allocate2MB_cases (h : Inv F0 L4 L2 L32 s.view) : Chosen2MB s.view (allocate2MB s) :=
  allocate2MB_chosen h.queue2 fun _ => h.pos_of_unused2

/-! ## `Allocate32MB` finds an unused region -/

theorem enqueue_cons (k : Nat) (q : List Nat) (x : Nat) : ∃ q', enqueue (k :: q) x = k :: q' := by
  unfold enqueue
  split
  · exact ⟨q, rfl⟩
  · exact ⟨q ++ [x % 2 ^ 32], rfl⟩

/-- The refill appends. -/
theorem refill32MB_head (i : Nat) : ∀ (fuel : Nat) (freeRegions : BitVec 64) (s : State) (k : Nat) (q : List Nat),
    s.view.queue32 = k :: q → ∃ q', (refill32MB i fuel freeRegions s).view.queue32 = k :: q'
  | 0, _, _, _, q, h => ⟨q, h⟩
  | fuel + 1, freeRegions, s, k, q, h => by
    unfold refill32MB
    split
    · extract_lets bit region
      split
      · exact ⟨q, h⟩
      · obtain ⟨q', hq'⟩ := enqueue_cons k q region
        refine refill32MB_head i fuel _ (s.push32MB region) k q' ?_
        rw [view_push32MB]
        change enqueue s.view.queue32 region = k :: q'
        rw [h, hq']
    · exact ⟨q, h⟩

theorem refillAll32MB_head : ∀ (is : List Nat) (s : State) (k : Nat) (q : List Nat),
    s.view.queue32 = k :: q → ∃ q', (refillAll32MB s is).view.queue32 = k :: q'
  | [], _, _, q, h => ⟨q, h⟩
  | i :: is, s, k, q, h => by
    unfold refillAll32MB
    split
    · exact ⟨q, h⟩
    · obtain ⟨q', hq'⟩ := refill32MB_head i 64 (~~~s.bitMap32MB.anyUsed i) s k q h
      exact refillAll32MB_head is _ k q' hq'

theorem notFull32 (h : s.view.queue32 = []) : s.cache32MB.isFull = false := by
  have : s.cache32MB.entries = [] := h
  have hlen := s.cache32MB.length_entries
  rw [this] at hlen
  simp [Ring.isFull, ← hlen]

/-- With nothing queued, the refill queues the lowest unused region of a word first. -/
theorem refill32MB_first {i : Nat} (hi : i < bitmapWords32MB) (hq : s.view.queue32 = [])
    (hne : ~~~s.bitMap32MB.anyUsed i ≠ 0#64) :
    ∃ R q, ¬ s.view.used32 R ∧ (refill32MB i 64 (~~~s.bitMap32MB.anyUsed i) s).view.queue32 = R :: q := by
  obtain ⟨hdiv, htest, -⟩ := Bitmap.lowest_spec (fun i => ~~~s.bitMap32MB.anyUsed i) hne
  have h128 : bitmapWords32MB = 128 := rfl
  have h8192 : bitmapEntries32MB = 8192 := rfl
  unfold refill32MB
  rw [if_pos ⟨hne, by rw [notFull32 hq]; rfl⟩]
  extract_lets bit region
  change region / 64 = i at hdiv
  rw [if_neg (by omega)]
  obtain ⟨q, h⟩ := refill32MB_head i 63 (~~~s.bitMap32MB.anyUsed i &&& ~~~Bitmap.mask bit)
    (s.push32MB region) region [] (by
      rw [view_push32MB]
      change enqueue s.view.queue32 region = _
      rw [hq, enqueue, if_neg (by simp), Nat.mod_eq_of_lt (by omega)]
      rfl)
  refine ⟨region, q, fun hu => ?_, h⟩
  have hu' : s.bitMap32MB.anyUsed.test region = true := hu
  rw [Bitmap.test_not, hu'] at htest
  cases htest

theorem refillAll32MB_first : ∀ (is : List Nat) (s : State), (∀ i ∈ is, i < bitmapWords32MB) →
    s.view.queue32 = [] → (∃ R, R / 64 ∈ is ∧ ¬ s.view.used32 R) →
    ∃ R q, ¬ s.view.used32 R ∧ (refillAll32MB s is).view.queue32 = R :: q
  | [], _, _, _, ⟨_, h, _⟩ => by cases h
  | i :: is, s, hlt, hq, hex => by
    unfold refillAll32MB
    rw [notFull32 hq]
    simp only [Bool.false_eq_true, if_false]
    by_cases hi : ~~~s.bitMap32MB.anyUsed i = 0#64
    · have hskip : refill32MB i 64 (~~~s.bitMap32MB.anyUsed i) s = s := by
        unfold refill32MB
        rw [if_neg fun h => h.1 hi]
      rw [hskip]
      obtain ⟨R, hR, hu⟩ := hex
      refine refillAll32MB_first is s (fun k hk => hlt k (List.mem_cons_of_mem _ hk)) hq ⟨R, ?_, hu⟩
      refine (List.mem_cons.mp hR).resolve_left fun he => hu ?_
      exact (Bitmap.word_eq_ones _ i).mp ((Bitmap.not_eq_zero _ i).mp hi) R he
    · obtain ⟨R, q, hu, h⟩ := refill32MB_first (hlt i List.mem_cons_self) hq hi
      obtain ⟨q', h'⟩ := refillAll32MB_head is _ R q h
      exact ⟨R, q', hu, h'⟩

theorem allocateCached32MBPage_cons {R : Nat} {q : List Nat} (h : s.view.queue32 = R :: q)
    (hu : ¬ s.view.used32 R) : (allocateCached32MBPage s).1 = R * 16 * pdeCoverage := by
  obtain ⟨hfst, -⟩ := s.cache32MB.entries_pop
  have he : s.cache32MB.entries = R :: q := h
  unfold allocateCached32MBPage
  rw [he] at hfst
  generalize s.cache32MB.pop = t at hfst
  obtain ⟨t1, t2⟩ := t
  cases hfst
  have hu' : s.bitMap32MB.anyUsed.test R = false := eq_false_of_ne_true hu
  simp [hu']

theorem allocateCached32MBPage_nil (h : s.view.queue32 = []) :
    (allocateCached32MBPage s).1 = 0 ∧ (allocateCached32MBPage s).2.view = s.view := by
  obtain ⟨hfst, hsnd⟩ := s.cache32MB.entries_pop
  have he : s.cache32MB.entries = [] := h
  unfold allocateCached32MBPage
  rw [he] at hfst hsnd
  generalize s.cache32MB.pop = t at hfst hsnd
  obtain ⟨t1, t2⟩ := t
  cases hfst
  refine ⟨rfl, ?_⟩
  simp only [State.view, hsnd, he]
  rfl

/-- With nothing queued, a region is found after the refill if any is unused. -/
theorem refilled32MB_found (hlow : ∀ R, R < bitmapEntries32MB → ¬ s.view.used32 R → 1 ≤ R) (hq : s.view.queue32 = [])
    (hex : ∃ R, R < bitmapEntries32MB ∧ ¬ s.view.used32 R) :
    (allocateCached32MBPage (refillAll32MB s (List.range bitmapWords32MB))).1 ≠ 0 := by
  obtain ⟨R, hR, hu⟩ := hex
  obtain ⟨K, q, hK, hqueue⟩ := refillAll32MB_first (List.range bitmapWords32MB) s words_lt hq ⟨R, word_mem hR, hu⟩
  obtain ⟨q', hlt, hview⟩ := refillAll32MB_spec (List.range bitmapWords32MB) s (by rw [hq]; simp)
  have hKlt : K < bitmapEntries32MB := by
    rw [hview] at hqueue
    exact hlt K (by rw [show q' = K :: q from hqueue]; exact List.mem_cons_self)
  have hpos := hlow K hKlt hK
  rw [allocateCached32MBPage_cons hqueue (by rw [hview]; exact hK)]
  unfold pdeCoverage
  omega

/-- With nothing queued, `Allocate32MB` succeeds if any region is unused. -/
theorem allocate32MB_succeeds (h : Inv F0 L4 L2 L32 s.view) (hq : s.view.queue32 = [])
    (hex : ∃ R, R < bitmapEntries32MB ∧ ¬ s.view.used32 R) : (allocate32MB s).1 ≠ 0 := by
  obtain ⟨h1, h2⟩ := allocateCached32MBPage_nil hq
  rw [allocate32MB, if_neg (not_not.mpr h1)]
  refine refilled32MB_found ?_ (by rw [h2]; exact hq) (by rw [h2]; exact hex)
  rw [h2]
  exact fun _ => h.pos_of_unused32

end

end BadLands.Mm.PhysicalMemory
