import BadLands.Mm.PhysicalMemoryFlags

/-!
# Which large blocks are found

`Allocate2MB` takes the oldest region of its queue, and if that one is in use it refills the queue and takes
the next one. Regions are queued when they become unused and stay queued when they are used again, so both
may be in use while another region is free. `Allocate32MB` is the same over its own queue.

The invariant of `BadLands.Mm.PhysicalMemoryInv` is lost once a page of a live 32MB region is handed out;
`Summarized` is what is left of it in any run. `large_blocks_complete_iff`: in every state that is reached, the two
calls find a region if there is one exactly when `Findable2MB` and `Findable32MB` hold.
-/
namespace BadLands.Mm.PhysicalMemory

open BadLands.Core BadLands.Core.Machine BadLands.Mm.Layout

/-- How the flags of the levels agree, whatever is live. -/
structure Summarized (v : View) : Prop where
  unused2 : ∀ r, r < bitmapEntries2MB → ¬ v.used2 r → v.free2 r ∧ v.free32 (r / 16)
  used32 : ∀ r, r < bitmapEntries2MB → v.used2 r → v.used32 (r / 16)
  queue2 : ∀ r ∈ v.queue2, r < bitmapEntries2MB
  queue32 : ∀ R ∈ v.queue32, R < bitmapEntries32MB
  cached : ∀ p, v.cached = some p → 4096 ≤ p ∧ p < bitmapEntries4KB
  dmaPages : ∀ p, p < 4096 → v.page p
  dmaRegions : ∀ r, r < 8 → v.used2 r

section
variable {v w : View}

theorem Summarized.low2 (h : Summarized v) {r : Nat} (_ : r < bitmapEntries2MB) (hu : ¬ v.used2 r) : 8 ≤ r :=
  Nat.le_of_not_lt fun hlt => hu (h.dmaRegions r hlt)

theorem Summarized.low32 (h : Summarized v) {R : Nat} (_ : R < bitmapEntries32MB) (hu : ¬ v.used32 R) : 1 ≤ R := by
  refine Nat.le_of_not_lt fun hlt => hu ?_
  obtain rfl : R = 0 := by omega
  exact h.used32 0 (by decide) (h.dmaRegions 0 (by decide))

/-- An unused 2MB region is in a partly used or in an unused 32MB region. -/
theorem Summarized.seen (h : Summarized v) {r : Nat} (hr : r < bitmapEntries2MB) (hu : ¬ v.used2 r) :
    PartlyUsed v (r / 16) ∨ ¬ v.used32 (r / 16) := by
  by_cases hused : v.used32 (r / 16)
  · exact .inl ⟨hused, (h.unused2 r hr hu).2⟩
  · exact .inr hused

/-! ## Allocations -/

/-- Flagging region `r` as used, with or without its `AnyFree`. -/
structure Marked2 (v : View) (r : Nat) (w : View) : Prop where
  used2 : ∀ k, w.used2 k ↔ k = r ∨ v.used2 k
  free2 : ∀ k, k ≠ r → (w.free2 k ↔ v.free2 k)
  used32 : ∀ k, w.used32 k ↔ k = r / 16 ∨ v.used32 k
  free32 : ∀ k, w.free32 k ↔ v.free32 k ∧ (k = r / 16 → ∃ x, x / 16 = r / 16 ∧ x ≠ r ∧ ¬ v.used2 x)

theorem marked_mark2 (v : View) (r : Nat) : Marked2 v r (v.mark2 r) where
  used2 _ := View.mark2_used2
  free2 _ hk := View.mark2_free2.trans (and_iff_left fun he => absurd he hk)
  used32 _ := View.mark2_used32
  free32 _ := View.mark2_free32

theorem marked_take2 (v : View) (r : Nat) : Marked2 v r (v.take2 r) where
  used2 _ := View.take2_used2
  free2 _ hk := View.take2_free2.trans (and_iff_right hk)
  used32 _ := View.take2_used32
  free32 _ := View.take2_free32

theorem Summarized.mark (h : Summarized v) {r : Nat} (hm : Marked2 v r w) (hpage : ∀ p, v.page p → w.page p)
    (hqueue2 : ∀ k ∈ w.queue2, k < bitmapEntries2MB) (hqueue32 : w.queue32 = v.queue32)
    (hcached : ∀ p, w.cached = some p → 4096 ≤ p ∧ p < bitmapEntries4KB) : Summarized w where
  unused2 k hk hu := by
    rw [hm.used2, not_or] at hu
    obtain ⟨hfree, hfree32⟩ := h.unused2 k hk hu.2
    exact ⟨(hm.free2 k hu.1).mpr hfree, (hm.free32 _).mpr ⟨hfree32, fun he => ⟨k, he, hu.1, hu.2⟩⟩⟩
  used32 k hk hu := by
    rw [hm.used32]
    rcases (hm.used2 k).mp hu with rfl | hu
    · exact .inl rfl
    · exact .inr (h.used32 k hk hu)
  queue2 := hqueue2
  queue32 := hqueue32 ▸ h.queue32
  cached := hcached
  dmaPages p hp := hpage p (h.dmaPages p hp)
  dmaRegions r hr := (hm.used2 r).mpr (.inr (h.dmaRegions r hr))

theorem Summarized.mark32 (h : Summarized v) (R : Nat) : Summarized (v.mark32 R) where
  unused2 k hk hu := by
    obtain ⟨hfree, hfree32⟩ := h.unused2 k hk hu
    exact ⟨hfree, View.mark32_free32.mpr ⟨hfree32, fun he => ⟨k, he, hu⟩⟩⟩
  used32 k hk hu := View.mark32_used32.mpr (.inr (h.used32 k hk hu))
  queue2 := h.queue2
  queue32 := h.queue32
  cached := h.cached
  dmaPages := h.dmaPages
  dmaRegions := h.dmaRegions

theorem Summarized.setCached (h : Summarized v) {c : Option Nat}
    (hc : ∀ p, c = some p → 4096 ≤ p ∧ p < bitmapEntries4KB) : Summarized (v.setCached c) :=
  ⟨h.unused2, h.used32, h.queue2, h.queue32, hc, h.dmaPages, h.dmaRegions⟩

theorem Summarized.setQueue2 (h : Summarized v) {q : List Nat} (hq : ∀ r ∈ q, r < bitmapEntries2MB) :
    Summarized { v with queue2 := q } :=
  ⟨h.unused2, h.used32, hq, h.queue32, h.cached, h.dmaPages, h.dmaRegions⟩

theorem Summarized.setQueue32 (h : Summarized v) {q : List Nat} (hq : ∀ R ∈ q, R < bitmapEntries32MB) :
    Summarized { v with queue32 := q } :=
  ⟨h.unused2, h.used32, h.queue2, hq, h.cached, h.dmaPages, h.dmaRegions⟩

theorem Summarized.page_ge (h : Summarized v) {p : Nat} (hclear : ¬ v.page p) : 4096 ≤ p :=
  Nat.le_of_not_lt fun hlt => hclear (h.dmaPages p hlt)

/-- What an allocation leaves, and where the block is. -/
def Keeps (low high : Nat) (result : Option Nat × State) : Prop :=
  Summarized result.2.view ∧ ∀ i, result.1 = some i → low ≤ i ∧ i < high

theorem searchChildren_keeps : ∀ (rs : List Nat) (s : State), (∀ r ∈ rs, r < bitmapEntries2MB) → Summarized s.view →
    Keeps 4096 bitmapEntries4KB (searchChildren s rs)
  | [], s, _, h => ⟨h, fun _ hp => by cases hp⟩
  | r :: rs, s, hlt, h => by
    have hr : r < bitmapEntries2MB := hlt r List.mem_cons_self
    have hrs : ∀ k ∈ rs, k < bitmapEntries2MB := fun k hk => hlt k (List.mem_cons_of_mem _ hk)
    rw [searchChildren]
    split
    · have hv := view_mark2 s r
      have hmarked : Summarized (mark2MBRegionUsed s r).view := by
        rw [hv]
        exact h.mark (marked_mark2 _ r) (fun _ hp => hp) h.queue2 rfl h.cached
      obtain ⟨hnone, -⟩ | ⟨p, c, hp, hclear, hsome, hview, hc⟩ := takePage_cases (mark2MBRegionUsed s r) (words4KB r)
      · rw [hnone]
        exact searchChildren_keeps rs _ hrs hmarked
      · have hin : ∀ k, k / 512 = r → k < bitmapEntries4KB := fun k hk => parent2_lt.mp (hk ▸ hr)
        have hpr : p / 512 = r := mem_words4KB.mp hp
        generalize takePage (mark2MBRegionUsed s r) (words4KB r) = t at hsome hview
        obtain ⟨t1, t2⟩ := t
        cases hsome
        refine ⟨?_, fun i hi => ?_⟩
        · change Summarized t2.view
          rw [hview]
          refine Summarized.setCached ?_ fun q hq => ?_
          · exact ⟨hmarked.unused2, hmarked.used32, hmarked.queue2, hmarked.queue32, hmarked.cached,
              fun k hk => .inr (hmarked.dmaPages k hk), hmarked.dmaRegions⟩
          · obtain rfl | ⟨k, rfl, hdiv, -, hk⟩ := hc
            · exact hmarked.cached q hq
            · cases hq
              exact ⟨hmarked.page_ge hk, hin q (by omega)⟩
        · cases hi
          exact ⟨hmarked.page_ge hclear, hin p hpr⟩
    · exact searchChildren_keeps rs s hrs h

theorem searchRegions_keeps : ∀ (is : List Nat) (s : State), (∀ i ∈ is, i < bitmapWords32MB) → Summarized s.view →
    Keeps 4096 bitmapEntries4KB (searchRegions s is)
  | [], s, _, h => ⟨h, fun _ hp => by cases hp⟩
  | i :: is, s, hlt, h => by
    have his : ∀ k ∈ is, k < bitmapWords32MB := fun k hk => hlt k (List.mem_cons_of_mem _ hk)
    rw [searchRegions]
    split
    · rename_i hi
      extract_lets R
      have hdiv : R / 64 = i := (targetWord_spec hi).1
      have hchildren := searchChildren_keeps (List.range' (R * 16) 16) s (fun r hr => by
        have hr := List.mem_range'_1.mp hr
        have hw := hlt i List.mem_cons_self
        have h128 : bitmapWords32MB = 128 := rfl
        have h2 : bitmapEntries2MB = 131072 := rfl
        omega) h
      generalize searchChildren s (List.range' (R * 16) 16) = t at hchildren
      obtain ⟨t1, t2⟩ := t
      cases t1 with
      | none => exact searchRegions_keeps is t2 his hchildren.1
      | some p => exact hchildren
    · exact searchRegions_keeps is s his h

theorem Summarized.setPage (h : Summarized v) (p : Nat) : Summarized (v.setPage p) :=
  ⟨h.unused2, h.used32, h.queue2, h.queue32, h.cached, fun k hk => .inr (h.dmaPages k hk), h.dmaRegions⟩

variable {s : State}

/-- An address that a call returns. -/
def Block.Outside (b : Block) : Prop :=
  ∃ i, b.ptr = i * b.size.bytes ∧ match b.size with
    | .kb4 => 4096 ≤ i ∧ i < bitmapEntries4KB
    | .mb2 => 8 ≤ i ∧ i < bitmapEntries2MB
    | .mb32 => 1 ≤ i ∧ i < bitmapEntries32MB

theorem allocate_keeps (h : Summarized s.view) :
    Summarized (allocate s).2.view ∧ ((allocate s).1 ≠ 0 → Block.Outside ⟨.kb4, (allocate s).1⟩) := by
  have hnone : Summarized (s.setCached none).view := h.setCached fun p hp => by cases hp
  unfold allocate
  rw [try4KBCache_eq]
  cases hu : usableCached s with
  | some p =>
    have hp := h.cached p (usableCached_some hu).1
    refine ⟨?_, fun _ => ⟨p, rfl, hp⟩⟩
    dsimp only
    rw [view_mark2, view_setPage]
    exact (hnone.setPage p).mark (marked_mark2 _ _) (fun _ hk => hk) hnone.queue2 rfl hnone.cached
  | none =>
    have hsearch := searchRegions_keeps (List.range bitmapWords32MB) (s.setCached none) words_lt hnone
    dsimp only
    generalize searchRegions (s.setCached none) (List.range bitmapWords32MB) = t at hsearch
    obtain ⟨t1, t2⟩ := t
    cases t1 with
    | none => exact ⟨hsearch.1, fun hne => absurd rfl hne⟩
    | some p => exact ⟨hsearch.1, fun _ => ⟨p, rfl, hsearch.2 p rfl⟩⟩

theorem allocate2MB_keeps (h : Summarized s.view) :
    Summarized (allocate2MB s).2.view ∧ ((allocate2MB s).1 ≠ 0 → Block.Outside ⟨.mb2, (allocate2MB s).1⟩) := by
  obtain ⟨⟨q, hq, hres⟩, -⟩ := allocate2MB_chosen h.queue2 fun _ => h.low2
  obtain ⟨h0, hview⟩ | ⟨r, hr, hu, -, haddr, hview⟩ := hres
  · rw [hview]
    exact ⟨h.setQueue2 hq, fun hne => absurd h0 hne⟩
  · rw [hview]
    refine ⟨(h.setQueue2 hq).mark (marked_take2 _ r) (fun _ hp => hp) hq rfl h.cached, fun _ => ?_⟩
    exact ⟨r, haddr, h.low2 hr hu, hr⟩

theorem allocate32MB_keeps (h : Summarized s.view) :
    Summarized (allocate32MB s).2.view ∧ ((allocate32MB s).1 ≠ 0 → Block.Outside ⟨.mb32, (allocate32MB s).1⟩) := by
  obtain ⟨q, hq, hres⟩ := allocate32MB_chosen h.queue32 fun _ => h.low32
  obtain ⟨h0, hview⟩ | ⟨R, hR, hu, haddr, hview⟩ := hres
  · rw [hview]
    exact ⟨h.setQueue32 hq, fun hne => absurd h0 hne⟩
  · rw [hview]
    refine ⟨(h.setQueue32 hq).mark32 R, fun _ => ⟨R, ?_, h.low32 hR hu, hR⟩⟩
    rw [haddr, Nat.mul_assoc]
    rfl

/-! ## Frees -/

/-- Freeing a page of region `r`, or the whole region. -/
structure Loosened (v : View) (r : Nat) (w : View) : Prop where
  page : ∀ k, k / 512 ≠ r → (w.page k ↔ v.page k)
  used2 : ∀ k, k ≠ r → (w.used2 k ↔ v.used2 k)
  free2 : ∀ k, w.free2 k ↔ k = r ∨ v.free2 k
  used32 : ∀ K, w.used32 K ↔ if K = r / 16 then ∃ x, x / 16 = r / 16 ∧ w.used2 x else v.used32 K
  free32 : ∀ K, w.free32 K ↔ K = r / 16 ∨ v.free32 K
  queue2 : ∀ k ∈ w.queue2, k = r ∨ k ∈ v.queue2
  queue32 : ∀ K ∈ w.queue32, K = r / 16 ∨ K ∈ v.queue32

theorem Summarized.loosen (h : Summarized v) {r : Nat} (hl : Loosened v r w) (hlow : 8 ≤ r) (hr : r < bitmapEntries2MB)
    (hcached : ∀ p, w.cached = some p → 4096 ≤ p ∧ p < bitmapEntries4KB) : Summarized w where
  unused2 k hk hu := by
    rw [hl.free2, hl.free32]
    by_cases hkr : k = r
    · subst hkr
      exact ⟨.inl rfl, .inl rfl⟩
    · obtain ⟨hfree, hfree32⟩ := h.unused2 k hk fun hn => hu ((hl.used2 k hkr).mpr hn)
      exact ⟨.inr hfree, .inr hfree32⟩
  used32 k hk hu := by
    rw [hl.used32]
    split
    · rename_i hdiv
      exact ⟨k, hdiv, hu⟩
    · rename_i hdiv
      exact h.used32 k hk ((hl.used2 k fun he => hdiv (by rw [he])).mp hu)
  queue2 k hk := by
    rcases hl.queue2 k hk with rfl | hk
    · exact hr
    · exact h.queue2 k hk
  queue32 K hK := by
    rcases hl.queue32 K hK with rfl | hK
    · exact parent32_lt.mpr hr
    · exact h.queue32 K hK
  cached := hcached
  dmaPages p hp := (hl.page p (by omega)).mpr (h.dmaPages p hp)
  dmaRegions k hk := (hl.used2 k (by omega)).mpr (h.dmaRegions k hk)

theorem releasePage_loosens (s : State) {p : Nat} (hp : p < bitmapEntries4KB) :
    Loosened s.view (p / 512) (settle32 (releasePage s p) (p / 512 / 16)).view := by
  have hr : p / 512 < bitmapEntries2MB := parent2_lt.mpr hp
  have hr32 : p / 512 < 2 ^ 32 := Nat.lt_of_lt_of_le hr entries_lt.2.1
  obtain ⟨t, ht, t1, t2, t3, t4, t5, t6, t7⟩ : ∃ t, (releasePage s p).view = t ∧
      (∀ k, t.page k ↔ k ≠ p ∧ s.view.page k) ∧ (∀ k, k ≠ p / 512 → (t.used2 k ↔ s.view.used2 k)) ∧
      (∀ k, t.free2 k ↔ k = p / 512 ∨ s.view.free2 k) ∧ t.used32 = s.view.used32 ∧ t.free32 = s.view.free32 ∧
      (∀ k ∈ t.queue2, k = p / 512 ∨ k ∈ s.view.queue2) ∧ t.queue32 = s.view.queue32 := by
    have hfree : ∀ k, ((s.view.clearPage p).putFree2 (p / 512) True).free2 k ↔ k = p / 512 ∨ s.view.free2 k := by
      intro k
      change (if k = p / 512 then True else s.view.free2 k) ↔ _
      split <;> simp [*]
    refine ⟨_, rfl, ?_⟩
    rw [view_releasePage]
    cases region2MBHasUsed ((s.clearPage p).putFree2MB (p / 512) true) (p / 512) with
    | true => exact ⟨fun _ => Iff.rfl, fun _ _ => Iff.rfl, hfree, rfl, rfl, fun _ hk => .inr hk, rfl⟩
    | false => exact ⟨fun _ => Iff.rfl, fun k hk => iff_of_eq (if_neg hk), hfree, rfl, rfl,
        fun _ hk => mem_enqueue hr32 hk, rfl⟩
  obtain ⟨w, hw, w1, w2, w3, w4, -, w6, w7, w8⟩ := settle32_spec (releasePage s p) hr
    (by rw [ht]; exact (t3 _).mpr (.inl rfl))
  rw [ht] at w1 w2 w3 w4 w6 w7 w8
  rw [hw]
  refine ⟨fun k hk => ?_, fun k hk => ?_, fun k => ?_, fun K => ?_, fun K => ?_, fun k hk => ?_, fun K hK => ?_⟩
  · rw [w1, t1]
    exact and_iff_right fun he => hk (by rw [he])
  · rw [w2]
    exact t2 k hk
  · rw [w3]
    exact t3 k
  · rw [w6, w2, t4]
  · rw [w7, t5]
  · exact t6 k (w4 ▸ hk)
  · exact t7 ▸ w8 K hK

theorem mark2MBRegionFreed_loosens (s : State) {r : Nat} (hr : r < bitmapEntries2MB) :
    Loosened s.view r (mark2MBRegionFreed s r).view ∧ (mark2MBRegionFreed s r).view.cached = s.view.cached := by
  have hr32 : r < 2 ^ 32 := Nat.lt_of_lt_of_le hr entries_lt.2.1
  have hclear := view_clear2 s r
  rw [mark2MBRegionFreed_eq, view_push2MB]
  generalize ((s.clearWords (startWord4KB r) (endWord4KB r)).putUsed2MB r false).putFree2MB r true = t at hclear ⊢
  obtain ⟨w, hw, w1, w2, w3, w4, w5, w6, w7, w8⟩ := settle32_spec t hr
    (by rw [hclear]; exact View.clear2_free2.mpr (.inl rfl))
  rw [hclear] at w1 w2 w3 w4 w5 w6 w7 w8
  rw [hw]
  refine ⟨⟨fun k hk => ?_, fun k hk => ?_, fun k => ?_, fun K => ?_, w7, fun k hk => ?_, w8⟩, w5⟩
  · change w.page k ↔ _
    rw [w1, View.clear2_page]
    exact and_iff_right hk
  · change w.used2 k ↔ _
    rw [w2, View.clear2_used2]
    exact and_iff_right hk
  · change w.free2 k ↔ _
    rw [w3, View.clear2_free2]
  · change w.used32 K ↔ if K = r / 16 then ∃ x, x / 16 = r / 16 ∧ w.used2 x else s.view.used32 K
    rw [w6, w2]
    rfl
  · have hk' : k ∈ enqueue w.queue2 r := hk
    rw [w4] at hk'
    exact mem_enqueue hr32 hk'

theorem Summarized.release32 (h : Summarized v) {R : Nat} (hl : Released32 v R w) (hlow : 1 ≤ R)
    (hR : R < bitmapEntries32MB) : Summarized w where
  unused2 k hk hu := by
    rw [hl.free2, hl.free32]
    by_cases hkR : k / 16 = R
    · exact ⟨.inl hkR, .inl hkR⟩
    · obtain ⟨hfree, hfree32⟩ := h.unused2 k hk fun hn => hu ((hl.used2 k).mpr ⟨hkR, hn⟩)
      exact ⟨.inr hfree, .inr hfree32⟩
  used32 k hk hu := by
    obtain ⟨hkR, hu⟩ := (hl.used2 k).mp hu
    exact (hl.used32 _).mpr ⟨hkR, h.used32 k hk hu⟩
  queue2 k hk := by
    rcases hl.queue2 k hk with hkR | hk
    · exact parent32_lt.mp (hkR ▸ hR)
    · exact h.queue2 k hk
  queue32 K hK := by
    rcases hl.queue32 K hK with rfl | hK
    · exact hR
    · exact h.queue32 K hK
  cached := hl.cached ▸ h.cached
  dmaPages p hp := (hl.page p).mpr ⟨by omega, h.dmaPages p hp⟩
  dmaRegions k hk := (hl.used2 k).mpr ⟨by omega, h.dmaRegions k hk⟩

theorem freeBlock_keeps (h : Summarized s.view) {b : Block} (hb : b.Outside) :
    Summarized (freeBlock s b).2.view := by
  obtain ⟨size, ptr⟩ := b
  obtain ⟨i, hptr, hi⟩ := hb
  dsimp only at hptr hi
  subst hptr
  cases size with
  | kb4 =>
    have hmax : i * 4096 < maxAddressableMemory := by
      have h4 : bitmapEntries4KB = 67108864 := rfl
      have hm : maxAddressableMemory = 0x4000000000 := rfl
      omega
    change Summarized (free s (i * frameSize)).2.view
    rw [free_at s (by omega) hmax (isDMAAddress_false (by omega))]
    dsimp only
    split
    · refine (h.loosen (w := (settle32 (releasePage s i) (i / 512 / 16)).view.setCached (some i)) ?_ (by omega)
        (parent2_lt.mpr hi.2) fun p hp => ?_)
      · obtain ⟨h1, h2, h3, h4, h5, h6, h7⟩ := releasePage_loosens s hi.2
        exact ⟨h1, h2, h3, h4, h5, h6, h7⟩
      · cases hp
        exact hi
    · exact h
  | mb2 =>
    change Summarized (free2MB s (i * pdeCoverage)).2.view
    rw [free2MB_at s hi.2 hi.1]
    split
    · obtain ⟨hl, hcached⟩ := mark2MBRegionFreed_loosens s hi.2
      exact h.loosen hl hi.1 hi.2 (hcached ▸ h.cached)
    · exact h
  | mb32 =>
    change Summarized (free32MB s (i * (16 * pdeCoverage))).2.view
    by_cases hu : s.view.used32 i
    · exact h.release32 (free32MB_released hi.2 hi.1 hu).2 hi.1 hi.2
    · rw [free32MB_at s hi.2 hi.1, if_neg (show ¬ s.bitMap32MB.anyUsed.test i = true from hu)]
      exact h

end

/-! ## Runs -/

structure SysSummary (s : Sys) : Prop where
  flags : Summarized s.mem.view
  blocks : ∀ b ∈ s.live, b.Outside

theorem SysSummary.allocated {s : Sys} (h : SysSummary s) {size : BlockSize}
    (hkeeps : Summarized (allocateBlock s.mem size).2.view ∧
      ((allocateBlock s.mem size).1 ≠ 0 → Block.Outside ⟨size, (allocateBlock s.mem size).1⟩)) :
    SysSummary ⟨(allocateBlock s.mem size).2, if (allocateBlock s.mem size).1 = 0 then s.live
      else ⟨size, (allocateBlock s.mem size).1⟩ :: s.live⟩ := by
  refine ⟨hkeeps.1, fun b hb => ?_⟩
  dsimp only at hb
  split at hb
  · exact h.blocks b hb
  · rename_i hne
    rcases List.mem_cons.mp hb with rfl | hb
    · exact hkeeps.2 hne
    · exact h.blocks b hb

theorem step_summary (s : Sys) (op : Op) (s' : Sys) (h : SysSummary s) (hs : step s op = some s') : SysSummary s' := by
  cases op with
  | allocate size =>
    rw [step_allocate] at hs
    cases hs
    refine h.allocated ?_
    cases size with
    | kb4 => exact allocate_keeps h.flags
    | mb2 => exact allocate2MB_keeps h.flags
    | mb32 => exact allocate32MB_keeps h.flags
  | free b =>
    simp only [step] at hs
    split at hs
    · cases hs
    · rename_i hmem
      cases hs
      refine ⟨freeBlock_keeps h.flags (h.blocks b (Classical.not_not.mp hmem)), fun c hc => ?_⟩
      dsimp only at hc
      split at hc
      · exact h.blocks c (List.mem_of_mem_erase hc)
      · exact h.blocks c hc

theorem Fresh.summary {boot : State} (h : Fresh boot.view) : SysSummary (start boot) := by
  have hpage : ∀ p, p < 4096 → boot.view.page p := fun p hp => Classical.byContradiction fun hn => by
    have := h.dma p (Nat.lt_of_lt_of_le hp (by decide)) hn
    omega
  have hclear : ∀ {r}, r < bitmapEntries2MB → ¬ boot.view.used2 r → boot.view.free2 r := fun {r} hr hu =>
    (h.free2 r hr).mpr ⟨r * 512, by omega, fun hp => hu ((h.used2 r hr).mpr ⟨r * 512, by omega, hp⟩)⟩
  refine ⟨⟨fun r hr hu => ⟨hclear hr hu, ?_⟩, fun r hr hu => ?_, ?_, ?_, fun p hp => ?_, hpage, fun r hr => ?_⟩,
    fun b hb => by cases hb⟩
  · exact (h.free32 _ (parent32_lt.mpr hr)).mpr ⟨r, rfl, hclear hr hu⟩
  · exact (h.used32 _ (parent32_lt.mpr hr)).mpr ⟨r, rfl, hu⟩
  · rw [show (start boot).mem.view.queue2 = [] from h.queue2]
    simp
  · rw [show (start boot).mem.view.queue32 = [] from h.queue32]
    simp
  · rw [show (start boot).mem.view.cached = none from h.cached] at hp
    cases hp
  · exact (h.used2 r (Nat.lt_of_lt_of_le hr (by decide))).mpr ⟨r * 512, by omega, hpage _ (by omega)⟩

theorem run_summary {b : Boot} {boot : State} (hsetup : setup b = some boot) {ops : List Op} {s : Sys}
    (hrun : run step (start boot) ops = some s) : Summarized s.mem.view := by
  have hall := allStates_of_inv step_summary ops (start boot) (setup_flags hsetup).summary
  exact (AllStates.of_run ops (start boot) s hall hrun).flags

/-! ## Completeness -/

/-- `Allocate2MB` returns a null pointer only if every 2MB region has `AnyUsed` set. -/
def Complete2MB (s : State) : Prop :=
  (allocate2MB s).1 = 0 → ∀ r, r < bitmapEntries2MB → s.bitMap2MB.anyUsed.test r = true

/-- `Allocate32MB` returns a null pointer only if every 32MB region has `AnyUsed` set. -/
def Complete32MB (s : State) : Prop :=
  (allocate32MB s).1 = 0 → ∀ R, R < bitmapEntries32MB → s.bitMap32MB.anyUsed.test R = true

/-- A region in use is followed by another region in use, at the front of the queue. -/
def StaleFront (q : List Nat) (used : Nat → Bool) : Prop :=
  ∃ k r rest, q = k :: r :: rest ∧ used k = true ∧ used r = true

/-- Every 2MB region is in use, or one of the first two queued ones is not, or at most one is queued. -/
def Findable2MB (s : State) : Prop :=
  (∀ r, r < bitmapEntries2MB → s.bitMap2MB.anyUsed.test r = true) ∨
    ¬ StaleFront s.cache2MB.entries s.bitMap2MB.anyUsed.test

def Findable32MB (s : State) : Prop :=
  (∀ R, R < bitmapEntries32MB → s.bitMap32MB.anyUsed.test R = true) ∨
    ¬ StaleFront s.cache32MB.entries s.bitMap32MB.anyUsed.test

section
variable {s : State}

theorem region2_ne_zero {r : Nat} (h : 8 ≤ r) : r * pdeCoverage ≠ 0 := by
  unfold pdeCoverage
  omega

theorem not_stale_short {q : List Nat} {used : Nat → Bool} (h : q.length ≤ 1) : ¬ StaleFront q used := by
  rintro ⟨k, r, rest, rfl, -, -⟩
  simp at h

theorem not_stale_first {q rest : List Nat} {used : Nat → Bool} {k : Nat} (hq : q = k :: rest) (hk : ¬ used k = true) :
    ¬ StaleFront q used := by
  rintro ⟨k', r, rest', he, hk', -⟩
  rw [hq] at he
  cases he
  exact hk hk'

theorem not_stale_second {q rest : List Nat} {used : Nat → Bool} {k r : Nat} (hq : q = k :: r :: rest)
    (hr : ¬ used r = true) : ¬ StaleFront q used := by
  rintro ⟨k', r', rest', he, -, hr'⟩
  rw [hq] at he
  cases he
  exact hr hr'

/-- With nothing queued, the scans find a region if there is one. -/
theorem rescan2MB_complete (h : Summarized s.view) (hq : s.view.queue2 = []) (h0 : (rescan2MB s).1 = 0) :
    ∀ r, r < bitmapEntries2MB → s.view.used2 r := by
  obtain ⟨-, -, -, hall⟩ | ⟨r, q, hr, -, htried, hr'⟩ := rescan2MB_empty hq
  · intro r hr
    refine Classical.byContradiction fun hu => ?_
    rcases h.seen hr hu with hp | hp
    · exact hu ((hall r hr).2 hp)
    · exact hp (hall r hr).1
  · have hu : ¬ s.view.used2 r := by
      rcases hr' with hlow | ⟨hunused, -⟩
      · exact hlow.unused
      · exact fun hu => hunused (h.used32 r hr hu)
    have hne := region2_ne_zero (h.low2 hr hu)
    rw [(htried.2 hu).1] at h0
    exact absurd h0 hne

theorem complete2MB_iff (h : Summarized s.view) : Complete2MB s ↔ Findable2MB s := by
  unfold Complete2MB
  rw [allocate2MB_eq]
  cases hq : s.view.queue2 with
  | nil =>
    obtain ⟨h1, h2⟩ := allocateCached2MBPage_nil hq
    refine iff_of_true (fun h0 => ?_) (.inr (not_stale_short (by rw [show s.cache2MB.entries = [] from hq]; simp)))
    rw [if_neg (not_not.mpr h1)] at h0
    have hall := rescan2MB_complete (h2 ▸ h) (by rw [h2]; exact hq) h0
    rw [h2] at hall
    exact hall
  | cons k q =>
    have hentries : s.cache2MB.entries = k :: q := hq
    have hk : k < bitmapEntries2MB := h.queue2 k (by rw [hq]; exact List.mem_cons_self)
    have hvalid : ∀ x ∈ q, x < bitmapEntries2MB := fun x hx => h.queue2 x (by rw [hq]; exact List.mem_cons_of_mem _ hx)
    obtain ⟨hused, hunused⟩ := allocateCached2MBPage_cons hq
    by_cases hu : s.view.used2 k
    · obtain ⟨h1, h2⟩ := hused hu
      rw [if_neg (not_not.mpr h1)]
      generalize (allocateCached2MBPage s).2 = t at h2
      have ht : Summarized t.view := h2 ▸ h.setQueue2 hvalid
      cases q with
      | nil =>
        refine iff_of_true (fun h0 => ?_) (.inr (not_stale_short (by rw [hentries]; simp)))
        have hall := rescan2MB_complete ht (by rw [h2]) h0
        rw [h2] at hall
        exact hall
      | cons r q =>
        have hr : r < bitmapEntries2MB := hvalid r List.mem_cons_self
        obtain ⟨h3, h4⟩ | ⟨q', -, h4⟩ := rescan2MB_queued (s := t) (r := r) (q := q) (by rw [h2])
          fun x hx => hvalid x (List.mem_cons_of_mem _ hx)
        · -- no region to look into: all of them are in use
          rw [h2] at h4
          have hall : ∀ x, x < bitmapEntries2MB → s.view.used2 x := fun x hx => by
            refine Classical.byContradiction fun hxu => ?_
            rcases h.seen hx hxu with hp | hp
            · exact (h4 _ (parent32_lt.mpr hx)).1 hp
            · exact hp (h4 _ (parent32_lt.mpr hx)).2
          exact iff_of_true (fun _ => hall) (.inl hall)
        · unfold Tried at h4
          rw [h2] at h4
          by_cases hru : s.view.used2 r
          · -- the second one is in use as well
            have hstale : StaleFront s.cache2MB.entries s.bitMap2MB.anyUsed.test := ⟨k, r, q, hentries, hu, hru⟩
            rw [(h4.1 hru).1]
            exact ⟨fun hc => .inl (hc rfl), fun hf _ => hf.resolve_right fun hn => hn hstale⟩
          · have hne := region2_ne_zero (h.low2 hr hru)
            rw [(h4.2 hru).1]
            exact iff_of_true (fun h0 => absurd h0 hne) (.inr (not_stale_second hentries hru))
    · have hne := region2_ne_zero (h.low2 hk hu)
      rw [← (hunused hu).1] at hne
      rw [if_pos hne]
      exact iff_of_true (fun h0 => absurd h0 hne) (.inr (not_stale_first hentries hu))

theorem region32_ne_zero {R : Nat} (h : 1 ≤ R) : R * 16 * pdeCoverage ≠ 0 := by
  unfold pdeCoverage
  omega

/-- `AllocateCached32MBPage` drops the oldest entry when it is in use. -/
theorem allocateCached32MBPage_used {R : Nat} {q : List Nat} (h : s.view.queue32 = R :: q) (hu : s.view.used32 R) :
    (allocateCached32MBPage s).1 = 0 ∧ (allocateCached32MBPage s).2.view = { s.view with queue32 := q } := by
  obtain ⟨hfst, hsnd⟩ := s.cache32MB.entries_pop
  have he : s.cache32MB.entries = R :: q := h
  unfold allocateCached32MBPage
  rw [he] at hfst hsnd
  generalize s.cache32MB.pop = t at hfst hsnd
  obtain ⟨t1, t2⟩ := t
  cases hfst
  have hu' : s.bitMap32MB.anyUsed.test R = true := hu
  simp only [hu', Bool.not_true, Bool.false_eq_true, if_false]
  refine ⟨trivial, ?_⟩
  simp only [State.view, hsnd]
  rfl

/-- With nothing queued, the refill finds a region if there is one. -/
theorem refilled32MB_complete (h : Summarized s.view) (hq : s.view.queue32 = [])
    (h0 : (allocateCached32MBPage (refillAll32MB s (List.range bitmapWords32MB))).1 = 0) :
    ∀ R, R < bitmapEntries32MB → s.view.used32 R := fun R hR => Classical.byContradiction fun hu =>
  refilled32MB_found (fun _ => h.low32) hq ⟨R, hR, hu⟩ h0

theorem complete32MB_iff (h : Summarized s.view) : Complete32MB s ↔ Findable32MB s := by
  unfold Complete32MB allocate32MB
  dsimp only
  cases hq : s.view.queue32 with
  | nil =>
    obtain ⟨h1, h2⟩ := allocateCached32MBPage_nil hq
    refine iff_of_true (fun h0 => ?_) (.inr (not_stale_short (by rw [show s.cache32MB.entries = [] from hq]; simp)))
    rw [if_neg (not_not.mpr h1)] at h0
    have hall := refilled32MB_complete (h2 ▸ h) (by rw [h2]; exact hq) h0
    rw [h2] at hall
    exact hall
  | cons k q =>
    have hentries : s.cache32MB.entries = k :: q := hq
    have hk : k < bitmapEntries32MB := h.queue32 k (by rw [hq]; exact List.mem_cons_self)
    have hvalid : ∀ x ∈ q, x < bitmapEntries32MB := fun x hx => h.queue32 x (by rw [hq]; exact List.mem_cons_of_mem _ hx)
    by_cases hu : s.view.used32 k
    · obtain ⟨h1, h2⟩ := allocateCached32MBPage_used hq hu
      rw [if_neg (not_not.mpr h1)]
      generalize (allocateCached32MBPage s).2 = t at h2
      have ht : Summarized t.view := h2 ▸ h.setQueue32 hvalid
      cases q with
      | nil =>
        refine iff_of_true (fun h0 => ?_) (.inr (not_stale_short (by rw [hentries]; simp)))
        have hall := refilled32MB_complete ht (by rw [h2]) h0
        rw [h2] at hall
        exact hall
      | cons r q =>
        have hr : r < bitmapEntries32MB := hvalid r List.mem_cons_self
        -- the refill appends, so the second entry is tried next
        obtain ⟨q1, hq1⟩ := refillAll32MB_head (List.range bitmapWords32MB) t r q (by rw [h2])
        obtain ⟨q2, -, hview⟩ := refillAll32MB_spec (List.range bitmapWords32MB) t ht.queue32
        have hused : ∀ R, (refillAll32MB t (List.range bitmapWords32MB)).view.used32 R ↔ s.view.used32 R := fun R => by
          rw [hview, h2]
        by_cases hru : s.view.used32 r
        · have hstale : StaleFront s.cache32MB.entries s.bitMap32MB.anyUsed.test := ⟨k, r, q, hentries, hu, hru⟩
          rw [(allocateCached32MBPage_used hq1 ((hused r).mpr hru)).1]
          exact ⟨fun hc => .inl (hc rfl), fun hf _ => hf.resolve_right fun hn => hn hstale⟩
        · rw [allocateCached32MBPage_cons hq1 (mt (hused r).mp hru)]
          exact iff_of_true (fun h0 => absurd h0 (region32_ne_zero (h.low32 hr hru)))
            (.inr (not_stale_second hentries hru))
    · have hne := region32_ne_zero (h.low32 hk hu)
      rw [← allocateCached32MBPage_cons hq hu] at hne
      rw [if_pos hne]
      exact iff_of_true (fun h0 => absurd h0 hne) (.inr (not_stale_first hentries hu))

end

/-! ## Two stale entries -/

/-- Page `p` is live, and the only one in use of its region. -/
structure Lone (boot : State) (p : Nat) (q : List Nat) (s : Sys) : Prop where
  sys : SysInv boot s
  live : s.live = [⟨.kb4, p * frameSize⟩]
  only : ∀ k, k / 512 = p / 512 → s.mem.view.page k → k = p
  queue2 : s.mem.view.queue2 = q
  queue32 : s.mem.view.queue32.length ≤ q.length

theorem settle32_length (s : State) (R : Nat) : (settle32 s R).view.queue32.length ≤ s.view.queue32.length + 1 := by
  obtain ⟨b, -, hview⟩ := view_settle32 s R
  rw [hview]
  cases b with
  | false => exact Nat.le_succ _
  | true =>
    change (enqueue s.view.queue32 R).length ≤ _
    unfold enqueue
    split
    · exact Nat.le_succ _
    · exact Nat.le_of_eq List.length_append

/-- Freeing the only page of a region queues the region, and the 32MB region at most once. -/
theorem free_queues {s : State} {p : Nat} (hp : p < bitmapEntries4KB) (hdma : 4096 ≤ p) (hset : s.view.page p)
    (honly : ∀ k, k / 512 = p / 512 → s.view.page k → k = p) (hlen : s.view.queue2.length < 64) :
    (free s (p * frameSize)).2.view.queue2 = s.view.queue2 ++ [p / 512] ∧
      (free s (p * frameSize)).2.view.queue32.length ≤ s.view.queue32.length + 1 := by
  have hr : p / 512 < bitmapEntries2MB := parent2_lt.mpr hp
  have hmax : p * 4096 < maxAddressableMemory := by
    have h4 : bitmapEntries4KB = 67108864 := rfl
    have hm : maxAddressableMemory = 0x4000000000 := rfl
    omega
  have hused : region2MBHasUsed ((s.clearPage p).putFree2MB (p / 512) true) (p / 512) = false := by
    rw [Bool.eq_false_iff, ne_eq, region2MBHasUsed_iff, view_putFree2MB, view_clearPage]
    rintro ⟨k, hk, hne, hpage⟩
    exact hne (honly k hk hpage)
  have hview := view_releasePage s p
  rw [hused] at hview
  obtain ⟨w, hw, -, -, -, hqueue, -⟩ := settle32_spec (releasePage s p) hr (by
    rw [hview]
    change if p / 512 = p / 512 then True else _
    rw [if_pos rfl]
    trivial)
  have hlength := settle32_length (releasePage s p) (p / 512 / 16)
  rw [hview] at hlength
  rw [free_eq (by omega) hmax (isDMAAddress_false (by omega)) hset]
  refine ⟨?_, hlength⟩
  change (settle32 (releasePage s p) (p / 512 / 16)).view.queue2 = _
  rw [hw, hqueue, hview]
  change enqueue s.view.queue2 (p / 512) = _
  rw [enqueue, if_neg (by omega), Nat.mod_eq_of_lt (Nat.lt_of_lt_of_le hr entries_lt.2.1)]

/-- Freeing the page and allocating it again leaves its region queued, and in use. -/
theorem Lone.bounce {boot : State} {p : Nat} {q : List Nat} {s : Sys} (h : Lone boot p q s) (hlen : q.length < 64) :
    ∃ s', run step s [.free ⟨.kb4, p * frameSize⟩, .allocate .kb4] = some s' ∧ Lone boot p (q ++ [p / 512]) s' ∧
      ∀ k, s'.mem.view.page k ↔ s.mem.view.page k := by
  have hmem : ⟨.kb4, p * frameSize⟩ ∈ s.live := by
    rw [h.live]
    exact List.mem_cons_self
  obtain ⟨hplt, hset, hF⟩ := h.sys.inv.live4 p hmem
  have hdma := h.sys.inv.noDMA p hF
  obtain ⟨htrue, hrel, hcached, hpage⟩ := free_released h.sys.inv hmem
  obtain ⟨hqueue, hqueue32⟩ := free_queues hplt hdma hset h.only (by rw [h.queue2]; exact hlen)
  have hfree : step s (.free ⟨.kb4, p * frameSize⟩) = some ⟨(free s.mem (p * frameSize)).2, []⟩ := by
    simp only [step, freeBlock, htrue, if_true]
    rw [if_neg (not_not.mpr hmem), h.live, List.erase_cons_head]
  have hsys1 : SysInv boot ⟨(free s.mem (p * frameSize)).2, []⟩ := step_inv s (.free ⟨.kb4, p * frameSize⟩) _ h.sys trivial hfree
  generalize (free s.mem (p * frameSize)).2 = t at hrel hcached hpage hqueue hqueue32 hfree hsys1
  have husable : usableCached t = some p := by
    unfold usableCached
    rw [show t.cached4KB = some p from hcached, Option.filter_some]
    exact if_pos ((hrel.free2 _).mpr (.inl rfl))
  have hno32 : Sys.No32MB ⟨t, []⟩ := fun b hb => by cases hb
  obtain ⟨k, hk, haddr, hview⟩ | ⟨hk, -⟩ | ⟨hk, -⟩ := allocate_cases hsys1.inv
  · dsimp only at hk haddr hview
    rw [husable] at hk
    cases hk
    have hstep : step ⟨t, []⟩ (.allocate .kb4) = some ⟨(allocate t).2, [⟨.kb4, p * frameSize⟩]⟩ := by
      rw [step_allocate]
      change some (Sys.mk (allocate t).2 (if (allocate t).1 = 0 then [] else [⟨.kb4, (allocate t).1⟩])) = _
      rw [haddr, if_neg (address_ne_zero_kb4 (by omega))]
    have hpage' : ∀ k, (allocate t).2.view.page k ↔ s.mem.view.page k := fun k => by
      rw [hview, View.mark2_page]
      change k = p ∨ t.view.page k ↔ _
      rw [hpage]
      by_cases hkp : k = p
      · subst hkp
        exact iff_of_true (.inl rfl) hset
      · simp [hkp]
    refine ⟨_, ?_, ⟨step_inv _ _ _ hsys1 (hno32.stepOk _) hstep, rfl, fun k hk hn => ?_, ?_, ?_⟩, hpage'⟩
    · rw [run_cons hfree, run_cons hstep]
      rfl
    · exact h.only k hk ((hpage' k).mp hn)
    · dsimp only
      rw [hview]
      change t.view.queue2 = _
      rw [hqueue, h.queue2]
    · dsimp only
      rw [hview, List.length_append]
      exact Nat.le_trans hqueue32 (Nat.add_le_add_right h.queue32 1)
  · rw [husable] at hk
    cases hk
  · rw [husable] at hk
    cases hk

/-- The first page of a whole free 32MB region. -/
theorem lone_first : ∃ boot p s, setup (bootWith oneRegion) = some boot ∧ p / 512 / 16 = 2 ∧
    run step (start boot) [.allocate .kb4] = some s ∧ Lone boot p [] s ∧
    ∀ k, k / 512 / 16 = 2 → k / 512 ≠ p / 512 → ¬ s.mem.view.page k := by
  obtain ⟨boot, hsetup, hused, hfree⟩ := setup_oneRegion
  have hfresh := setup_flags hsetup
  have hinv : PageInv boot (start boot) := hfresh.pageInv
  have hclear : ∀ k, k / 512 / 16 = 2 → ¬ boot.view.page k := fun k hk => by
    have hr : k / 512 < bitmapEntries2MB := parent32_lt.mp (by rw [hk]; decide)
    have hun := hinv.sys.inv.children_unused (by decide) ((hused 2 (by decide)).mpr rfl) (k / 512) hk
    exact (hinv.sys.inv.unused2 hr hun).2 k rfl
  have hu : usableCached boot = none := by
    unfold usableCached
    rw [show boot.cached4KB = none from hfresh.cached]
    rfl
  obtain ⟨R, hsel⟩ : ∃ R, selected32MB boot = some R := Option.ne_none_iff_exists'.mp fun hn =>
    selectIn_none hn 2 (word_mem (by decide)) ((hfree 2 (by decide)).mpr rfl)
  obtain ⟨hR, r, p, c, -, hrR, hpr, hpclear, hview, -⟩ := hinv.search (s := start boot) hu hsel
  obtain rfl : R = 2 := (hfree R hR).mp (selectIn_spec hsel).2
  change (allocate boot).2.view = _ at hview
  obtain ⟨q, hq, -, -⟩ | ⟨-, hnone, -, -⟩ | ⟨-, K, q, hK, hqK, haddr, -, hfound⟩ := allocate_cases hinv.sys.inv
  · cases hu.symm.trans hq
  · cases hsel.symm.trans hnone
  · change (allocate boot).1 = q * frameSize at haddr
    -- the page whose bit is new is the one returned
    have hqp : q = p := by
      obtain ⟨v, hv, -, ht⟩ := hfound.took
      have hset : (allocate boot).2.view.page q := (ht.page q).mpr (.inl rfl)
      rw [hview] at hset
      have hqR : q / 512 / 16 = 2 := hqK.trans (Option.some.inj (hK.symm.trans hsel))
      exact hset.resolve_right (hclear q hqR)
    subst hqp
    have hpage : ∀ k, (allocate boot).2.view.page k ↔ k = q ∨ boot.view.page k := fun k => by
      rw [hview]
      exact Iff.rfl
    have hq32 : q / 512 / 16 = 2 := by rw [hpr, hrR]
    have hstep : step (start boot) (.allocate .kb4) = some ⟨(allocate boot).2, [⟨.kb4, q * frameSize⟩]⟩ := by
      rw [step_allocate]
      change some (Sys.mk (allocate boot).2 (if (allocate boot).1 = 0 then [] else [⟨.kb4, (allocate boot).1⟩])) = _
      rw [haddr, if_neg (address_ne_zero_kb4 (by omega))]
    have hsys := step_inv _ _ _ hinv.sys (hinv.no32MB.stepOk _) hstep
    refine ⟨boot, q, _, hsetup, hq32, by rw [run_cons hstep]; rfl, ⟨hsys, rfl, fun k hk hn => ?_, ?_, ?_⟩,
      fun k hk hne hn => ?_⟩
    · exact ((hpage k).mp hn).resolve_right (hclear k (by rw [hk, hq32]))
    · dsimp only
      rw [hview]
      exact hfresh.queue2
    · dsimp only
      rw [hview]
      exact Nat.le_of_eq (congrArg List.length hfresh.queue32)
    · rcases (hpage k).mp hn with rfl | hn
      · exact hne rfl
      · exact hclear k hk hn

/-- A page is allocated and freed until its region, which is in use, is queued once and then twice; fifteen regions
of the same 32MB are unused. -/
theorem stale_runs : ∃ boot ops s ops' s' r, setup (bootWith oneRegion) = some boot ∧
    (run step (start boot) ops = some s ∧ s.mem.cache2MB.entries.length = 1 ∧ s.mem.cache32MB.entries.length ≤ 1) ∧
    run step (start boot) ops' = some s' ∧ StaleFront s'.mem.cache2MB.entries s'.mem.bitMap2MB.anyUsed.test ∧
    r < bitmapEntries2MB ∧ ¬ s'.mem.view.used2 r := by
  obtain ⟨boot, p, s1, hsetup, hp, hrun1, h1, hclear⟩ := lone_first
  obtain ⟨s2, hrun2, h2, hpage2⟩ := h1.bounce (by simp)
  obtain ⟨s3, hrun3, h3, hpage3⟩ := h2.bounce (by simp)
  have honce : run step (start boot) ([.allocate .kb4] ++ [.free ⟨.kb4, p * frameSize⟩, .allocate .kb4]) = some s2 := by
    rw [run_append, hrun1, Option.bind_some, hrun2]
  have htwice : run step (start boot) (([.allocate .kb4] ++ [.free ⟨.kb4, p * frameSize⟩, .allocate .kb4]) ++
      [.free ⟨.kb4, p * frameSize⟩, .allocate .kb4]) = some s3 := by
    rw [run_append, honce, Option.bind_some, hrun3]
  -- another region of the same 32MB
  obtain ⟨r, hr, hne⟩ : ∃ r, r / 16 = 2 ∧ r ≠ p / 512 := by
    by_cases h32 : p / 512 = 32
    · exact ⟨33, rfl, by omega⟩
    · exact ⟨32, rfl, fun he => h32 he.symm⟩
  have hlt : ∀ {x}, x / 16 = 2 → x < bitmapEntries2MB := fun hx => parent32_lt.mp (by rw [hx]; decide)
  have hno2 : ∀ x, ¬ s3.live2 x := fun x hx => by
    unfold Sys.live2 at hx
    rw [h3.live] at hx
    simp at hx
  have hunused : ¬ s3.mem.view.used2 r := by
    rw [h3.sys.inv.used2 r (hlt hr) (hno2 r)]
    rintro ⟨k, hk, hn⟩
    exact hclear k (by rw [hk, hr]) (by rw [hk]; exact hne) ((hpage2 k).mp ((hpage3 k).mp hn))
  have hused : s3.mem.view.used2 (p / 512) := by
    have hl : s3.live4 p := by
      unfold Sys.live4
      rw [h3.live]
      exact List.mem_cons_self
    exact (h3.sys.inv.used2 _ (hlt hp) (hno2 _)).mpr ⟨p, rfl, (h3.sys.inv.live4 p hl).2.1⟩
  exact ⟨boot, _, s2, _, s3, r, hsetup, ⟨honce, congrArg List.length h2.queue2, h2.queue32⟩, htwice,
    ⟨p / 512, p / 512, [], h3.queue2, hused, hused⟩, hlt hr, hunused⟩

/-! ## The two calls -/

/-- From any state a successful `Setup` leaves, after any run: the two calls find a region if there is one exactly
when not both regions at the front of the queue are in use. -/
theorem large_blocks_complete_iff (b : Boot) (boot : State) (hsetup : setup b = some boot) (ops : List Op) (s : Sys)
    (hrun : run step (start boot) ops = some s) :
    Complete2MB s.mem ∧ Complete32MB s.mem ↔ Findable2MB s.mem ∧ Findable32MB s.mem := by
  have hs := run_summary hsetup hrun
  exact and_congr (complete2MB_iff hs) (complete32MB_iff hs)

/-- With one region queued, which is in use, the two calls are complete, and with that region queued twice not. -/
theorem large_blocks_complete_stale : ∃ boot ops s ops' s', setup (bootWith oneRegion) = some boot ∧
    (run step (start boot) ops = some s ∧ s.mem.cache2MB.entries.length = 1 ∧ Complete2MB s.mem ∧ Complete32MB s.mem) ∧
    run step (start boot) ops' = some s' ∧ ¬ (Complete2MB s'.mem ∧ Complete32MB s'.mem) := by
  obtain ⟨boot, ops, s, ops', s', r, hsetup, ⟨hrun, hlen, hlen32⟩, hrun', hstale, hr, hunused⟩ := stale_runs
  have hshort : s.mem.cache2MB.entries.length ≤ 1 := Nat.le_of_eq hlen
  refine ⟨boot, ops, s, ops', s', hsetup, ⟨hrun, hlen,
    (large_blocks_complete_iff (bootWith oneRegion) boot hsetup ops s hrun).mpr
      ⟨.inr (not_stale_short hshort), .inr (not_stale_short hlen32)⟩⟩, hrun', fun h => ?_⟩
  obtain ⟨hfind, -⟩ := (large_blocks_complete_iff (bootWith oneRegion) boot hsetup ops' s' hrun').mp h
  exact hfind.elim (fun hall => hunused (hall r hr)) fun hn => hn hstale

/-- `Allocate2MB` finds no region, though fifteen are unused. -/
theorem stale_front_hides_region : ∃ boot ops s r, setup (bootWith oneRegion) = some boot ∧
    run step (start boot) ops = some s ∧ (allocate2MB s.mem).1 = 0 ∧ r < bitmapEntries2MB ∧
    s.mem.bitMap2MB.anyUsed.test r = false := by
  obtain ⟨boot, -, -, ops, s, r, hsetup, -, hrun, hstale, hr, hunused⟩ := stale_runs
  refine ⟨boot, ops, s, r, hsetup, hrun, ?_, hr, eq_false_of_ne_true hunused⟩
  refine Classical.byContradiction fun h0 => ?_
  rcases (complete2MB_iff (run_summary hsetup hrun)).mp fun h => absurd h h0 with hcase | hcase
  · exact hunused (hcase r hr)
  · exact hcase hstale

end BadLands.Mm.PhysicalMemory
