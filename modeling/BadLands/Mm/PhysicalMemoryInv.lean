import BadLands.Mm.PhysicalMemoryView

/-!
# Who owns which frame

`Inv F0 L4 L2 L32 v`: the bitmaps and caches of the view `v` agree with the live pages `L4`
and the live regions `L2` and `L32`, all of them taken from the frames `F0` that were free at
the start. A region handed out whole by `Allocate2MB` is flagged used and not free over
all-clear page bits; a region handed out by `Allocate32MB` is flagged used, but the flags and
bits of its children stay as they were. That is why the lemmas for taking a page or a 2MB
region ask that it is not inside a live 32MB region.
-/
namespace BadLands.Mm.PhysicalMemory

open BadLands.Core BadLands.Mm.Layout

theorem parent2_lt {p : Nat} : p / 512 < bitmapEntries2MB ↔ p < bitmapEntries4KB := by
  have h2 : bitmapEntries2MB = 131072 := rfl
  have h4 : bitmapEntries4KB = 67108864 := rfl
  omega

theorem parent32_lt {r : Nat} : r / 16 < bitmapEntries32MB ↔ r < bitmapEntries2MB := by
  have h2 : bitmapEntries2MB = 131072 := rfl
  have h32 : bitmapEntries32MB = 8192 := rfl
  omega

structure Inv (F0 L4 L2 L32 : Nat → Prop) (v : View) : Prop where
  live4 : ∀ p, L4 p → p < bitmapEntries4KB ∧ v.page p ∧ F0 p
  live2 : ∀ r, L2 r → r < bitmapEntries2MB ∧ v.used2 r ∧ ¬ v.free2 r ∧ ∀ p, p / 512 = r → ¬ v.page p
  used2 : ∀ r, r < bitmapEntries2MB → ¬ L2 r → (v.used2 r ↔ ∃ p, p / 512 = r ∧ v.page p)
  free2 : ∀ r, r < bitmapEntries2MB → ¬ L2 r → (∃ p, p / 512 = r ∧ ¬ v.page p) → v.free2 r
  origin : ∀ p, p < bitmapEntries4KB → ¬ v.page p → F0 p
  cached : ∀ p, v.cached = some p → p < bitmapEntries4KB ∧ ¬ v.page p
  queue2 : ∀ r ∈ v.queue2, r < bitmapEntries2MB
  queue32 : ∀ R ∈ v.queue32, R < bitmapEntries32MB
  used32 : ∀ R, R < bitmapEntries32MB → ¬ L32 R → (v.used32 R ↔ ∃ r, r / 16 = R ∧ v.used2 r)
  free32 : ∀ R, R < bitmapEntries32MB → v.free32 R → ∃ p, p / 512 / 16 = R ∧ ¬ v.page p ∧ ¬ L2 (p / 512)
  unused32 : ∀ R, R < bitmapEntries32MB → ¬ v.used32 R → v.free32 R
  live32 : ∀ R, L32 R → R < bitmapEntries32MB ∧ v.used32 R ∧ v.free32 R ∧ ∀ r, r / 16 = R → ¬ v.used2 r
  noDMA : ∀ p, F0 p → 4096 ≤ p

section
variable {F0 L4 L2 L32 : Nat → Prop} {v : View}

/-- Searching a 2MB region with no clear page corrects its flags. -/
theorem Inv.mark_full (h : Inv F0 L4 L2 L32 v) {r : Nat} (hr : r < bitmapEntries2MB)
    (hL : ¬ L2 r) (hfull : ∀ p, p / 512 = r → v.page p) : Inv F0 L4 L2 L32 (v.mark2 r) := by
  have hused : v.used2 r := (h.used2 r hr hL).mpr ⟨r * 512, by omega, hfull _ (by omega)⟩
  obtain ⟨live4, live2, used2, free2, origin, cached, queue2, queue32, used32, free32, unused32, live32,
    noDMA⟩ := h
  refine ⟨live4, fun k hk => ?_, fun k hk hk2 => ?_, fun k hk hk2 hex => ?_, origin, cached, queue2,
    queue32, fun K hK hK32 => ?_, fun K hK hfree => ?_, fun K hK hun => ?_, fun K hK => ?_, noDMA⟩
  · obtain ⟨h1, h2, h3, h4⟩ := live2 k hk
    simp only [View.mark2_used2, View.mark2_free2]
    exact ⟨h1, .inr h2, fun hf => h3 hf.1, h4⟩
  · rw [View.mark2_page, ← used2 k hk hk2, View.mark2_used2]
    exact or_iff_right_of_imp fun hkr => hkr ▸ hused
  · simp only [View.mark2_free2]
    refine ⟨free2 k hk hk2 hex, fun hkr => ?_⟩
    rw [← hkr]
    exact hex
  · simp only [View.mark2_used32, View.mark2_used2]
    grind
  · simp only [View.mark2_free32] at hfree
    exact free32 K hK hfree.1
  · simp only [View.mark2_used32] at hun
    simp only [View.mark2_free32]
    grind
  · obtain ⟨h1, h2, h3, h4⟩ := live32 K hK
    simp only [View.mark2_used32, View.mark2_used2, View.mark2_free32]
    grind

/-- What taking page `p` does to the flags, whether the page bit is set before them or after. -/
structure Took (v : View) (p : Nat) (w : View) : Prop where
  page : ∀ k, w.page k ↔ k = p ∨ v.page k
  used2 : ∀ k, w.used2 k ↔ k = p / 512 ∨ v.used2 k
  free2 : ∀ k, k ≠ p / 512 → (w.free2 k ↔ v.free2 k)
  free2_keeps : v.free2 (p / 512) → (∃ q, q / 512 = p / 512 ∧ ¬ w.page q) → w.free2 (p / 512)
  used32 : ∀ k, w.used32 k ↔ k = p / 512 / 16 ∨ v.used32 k
  free32 : ∀ k, w.free32 k ↔
    v.free32 k ∧ (k = p / 512 / 16 → ∃ x, x / 16 = p / 512 / 16 ∧ x ≠ p / 512 ∧ ¬ v.used2 x)
  queue2 : w.queue2 = v.queue2
  queue32 : w.queue32 = v.queue32

/-- `Allocate` from the cached page: the bit first. -/
theorem took_cached (v : View) (p : Nat) (c : Option Nat) :
    Took v p (((v.setCached c).setPage p).mark2 (p / 512)) where
  page _ := Iff.rfl
  used2 _ := View.mark2_used2
  free2 _ hk := View.mark2_free2.trans (and_iff_left fun he => absurd he hk)
  free2_keeps hf hex := View.mark2_free2.mpr ⟨hf, fun _ => hex⟩
  used32 _ := View.mark2_used32
  free32 _ := View.mark2_free32
  queue2 := rfl
  queue32 := rfl

/-- `Allocate` by search: the flags first. -/
theorem took_found (v : View) {p : Nat} (hclear : ¬ v.page p) (c : Option Nat) :
    Took v p (((v.mark2 (p / 512)).setPage p).setCached c) where
  page _ := Iff.rfl
  used2 _ := View.mark2_used2
  free2 _ hk := View.mark2_free2.trans (and_iff_left fun he => absurd he hk)
  free2_keeps hf _ := View.mark2_free2.mpr ⟨hf, fun _ => ⟨p, rfl, hclear⟩⟩
  used32 _ := View.mark2_used32
  free32 _ := View.mark2_free32
  queue2 := rfl
  queue32 := rfl

/-- Taking a clear page that is in no live region. -/
theorem Inv.take_page (h : Inv F0 L4 L2 L32 v) {p : Nat} (hp : p < bitmapEntries4KB) (hclear : ¬ v.page p)
    (hL2 : ¬ L2 (p / 512)) (hL32 : ¬ L32 (p / 512 / 16)) {w : View} (ht : Took v p w)
    (hcached : ∀ q, w.cached = some q → q < bitmapEntries4KB ∧ ¬ w.page q) :
    Inv F0 (fun k => k = p ∨ L4 k) L2 L32 w := by
  obtain ⟨live4, live2, used2, free2, origin, cached, queue2, queue32, used32, free32, unused32, live32,
    noDMA⟩ := h
  refine ⟨fun k hk => ?_, fun k hk => ?_, fun k hk hk2 => ?_, fun k hk hk2 hex => ?_, fun k hk hkc => ?_,
    hcached, ht.queue2 ▸ queue2, ht.queue32 ▸ queue32, fun K hK hK32 => ?_, fun K hK hfree => ?_,
    fun K hK hun => ?_, fun K hK => ?_, noDMA⟩
  · rcases hk with rfl | hk
    · exact ⟨hp, (ht.page k).mpr (.inl rfl), origin k hp hclear⟩
    · obtain ⟨h1, h2, h3⟩ := live4 k hk
      exact ⟨h1, (ht.page k).mpr (.inr h2), h3⟩
  · obtain ⟨h1, h2, h3, h4⟩ := live2 k hk
    have hne : k ≠ p / 512 := fun he => hL2 (he ▸ hk)
    refine ⟨h1, (ht.used2 k).mpr (.inr h2), fun hf => h3 ((ht.free2 k hne).mp hf), fun q hq hpg => ?_⟩
    rcases (ht.page q).mp hpg with rfl | hpg
    · exact hne hq.symm
    · exact h4 q hq hpg
  · rw [ht.used2, used2 k hk hk2]
    constructor
    · rintro (rfl | ⟨q, hq, hpg⟩)
      · exact ⟨p, rfl, (ht.page p).mpr (.inl rfl)⟩
      · exact ⟨q, hq, (ht.page q).mpr (.inr hpg)⟩
    · rintro ⟨q, hq, hpg⟩
      rcases (ht.page q).mp hpg with rfl | hpg
      · exact .inl hq.symm
      · exact .inr ⟨q, hq, hpg⟩
  · by_cases hkp : k = p / 512
    · subst hkp
      exact ht.free2_keeps (free2 _ hk hL2 ⟨p, rfl, hclear⟩) hex
    · obtain ⟨q, hq, hpg⟩ := hex
      exact (ht.free2 k hkp).mpr (free2 k hk hk2 ⟨q, hq, fun hn => hpg ((ht.page q).mpr (.inr hn))⟩)
  · exact origin k hk fun hn => hkc ((ht.page k).mpr (.inr hn))
  · rw [ht.used32, used32 K hK hK32]
    simp only [ht.used2]
    grind
  · obtain ⟨hf, hsib⟩ := (ht.free32 K).mp hfree
    by_cases hKp : K = p / 512 / 16
    · obtain ⟨x, hx, hxne, hxu⟩ := hsib hKp
      have hxlt : x < bitmapEntries2MB := parent32_lt.mp (by rw [hx, ← hKp]; exact hK)
      have hxL : ¬ L2 x := fun hl => hxu (live2 x hl).2.1
      have hempty : ∀ q, q / 512 = x → ¬ w.page q := fun q hq hpg => by
        rcases (ht.page q).mp hpg with rfl | hpg
        · exact hxne hq.symm
        · exact hxu ((used2 x hxlt hxL).mpr ⟨q, hq, hpg⟩)
      exact ⟨x * 512, by omega, hempty _ (by omega), by rwa [show x * 512 / 512 = x by omega]⟩
    · obtain ⟨q, hq, hpg, hqL⟩ := free32 K hK hf
      refine ⟨q, hq, fun hn => ?_, hqL⟩
      rcases (ht.page q).mp hn with rfl | hn
      · exact hKp hq.symm
      · exact hpg hn
  · rw [ht.used32] at hun
    exact (ht.free32 K).mpr ⟨unused32 K hK fun hu => hun (.inr hu), fun he => absurd (.inl he) hun⟩
  · obtain ⟨h1, h2, h3, h4⟩ := live32 K hK
    have hne : K ≠ p / 512 / 16 := fun he => hL32 (he ▸ hK)
    refine ⟨h1, (ht.used32 K).mpr (.inr h2), (ht.free32 K).mpr ⟨h3, fun he => absurd he hne⟩,
      fun r hr hu => ?_⟩
    rcases (ht.used2 r).mp hu with rfl | hu
    · exact hne hr.symm
    · exact h4 r hr hu

/-- A region flagged unused has no page set and is not live. -/
theorem Inv.unused2 (h : Inv F0 L4 L2 L32 v) {r : Nat} (hr : r < bitmapEntries2MB) (hu : ¬ v.used2 r) :
    ¬ L2 r ∧ ∀ p, p / 512 = r → ¬ v.page p := by
  have hL : ¬ L2 r := fun hl => hu (h.live2 r hl).2.1
  exact ⟨hL, fun p hp hpg => hu ((h.used2 r hr hL).mpr ⟨p, hp, hpg⟩)⟩

/-- Taking a 2MB region that is flagged unused and in no live 32MB region. -/
theorem Inv.take2 (h : Inv F0 L4 L2 L32 v) {r : Nat} (hr : r < bitmapEntries2MB) (hu : ¬ v.used2 r)
    (hL32 : ¬ L32 (r / 16)) : Inv F0 L4 (fun k => k = r ∨ L2 k) L32 (v.take2 r) := by
  obtain ⟨-, hempty⟩ := h.unused2 hr hu
  obtain ⟨live4, live2, used2, free2, origin, cached, queue2, queue32, used32, free32, unused32, live32,
    noDMA⟩ := h
  refine ⟨live4, fun k hk => ?_, fun k hk hk2 => ?_, fun k hk hk2 hex => ?_, origin, cached, queue2,
    queue32, fun K hK hK32 => ?_, fun K hK hfree => ?_, fun K hK hun => ?_, fun K hK => ?_, noDMA⟩
  · simp only [View.take2_used2, View.take2_free2]
    rcases hk with rfl | hk
    · exact ⟨hr, .inl rfl, fun hf => hf.1 rfl, hempty⟩
    · obtain ⟨h1, h2, h3, h4⟩ := live2 k hk
      exact ⟨h1, .inr h2, fun hf => h3 hf.2, h4⟩
  · rw [View.take2_used2, or_iff_right fun he => hk2 (.inl he)]
    exact used2 k hk fun hl => hk2 (.inr hl)
  · exact View.take2_free2.mpr ⟨fun he => hk2 (.inl he), free2 k hk (fun hl => hk2 (.inr hl)) hex⟩
  · rw [View.take2_used32, used32 K hK hK32]
    simp only [View.take2_used2]
    grind
  · obtain ⟨hf, hsib⟩ := View.take2_free32.mp hfree
    by_cases hKr : K = r / 16
    · obtain ⟨x, hx, hxne, hxu⟩ := hsib hKr
      have hxlt : x < bitmapEntries2MB := parent32_lt.mp (by rw [hx, ← hKr]; exact hK)
      have hxL : ¬ L2 x := fun hl => hxu (live2 x hl).2.1
      have hx512 : x * 512 / 512 = x := by omega
      refine ⟨x * 512, by omega, fun hpg => hxu ((used2 x hxlt hxL).mpr ⟨_, hx512, hpg⟩), ?_⟩
      rw [hx512]
      exact fun hl => hl.elim hxne hxL
    · obtain ⟨q, hq, hpg, hqL⟩ := free32 K hK hf
      exact ⟨q, hq, hpg, fun hl => hl.elim (fun he => hKr (by rw [← hq, he])) hqL⟩
  · rw [View.take2_used32] at hun
    exact View.take2_free32.mpr ⟨unused32 K hK fun hu => hun (.inr hu), fun he => absurd (.inl he) hun⟩
  · obtain ⟨h1, h2, h3, h4⟩ := live32 K hK
    have hne : K ≠ r / 16 := fun he => hL32 (he ▸ hK)
    refine ⟨h1, View.take2_used32.mpr (.inr h2), View.take2_free32.mpr ⟨h3, fun he => absurd he hne⟩,
      fun k hk hu => ?_⟩
    rcases View.take2_used2.mp hu with rfl | hu
    · exact hne hk.symm
    · exact h4 k hk hu

/-- Taking a 32MB region that is flagged unused. -/
theorem Inv.take32 (h : Inv F0 L4 L2 L32 v) {R : Nat} (hR : R < bitmapEntries32MB) (hu : ¬ v.used32 R) :
    Inv F0 L4 L2 (fun K => K = R ∨ L32 K) (v.mark32 R) := by
  have hL : ¬ L32 R := fun hl => hu (h.live32 R hl).2.1
  have hchildren : ∀ r, r / 16 = R → ¬ v.used2 r := fun r hr hur => hu ((h.used32 R hR hL).mpr ⟨r, hr, hur⟩)
  have hfree : v.free32 R := h.unused32 R hR hu
  obtain ⟨live4, live2, used2, free2, origin, cached, queue2, queue32, used32, free32, unused32, live32,
    noDMA⟩ := h
  refine ⟨live4, live2, used2, free2, origin, cached, queue2, queue32, fun K hK hK32 => ?_,
    fun K hK hf => ?_, fun K hK hun => ?_, fun K hK => ?_, noDMA⟩
  · rw [View.mark32_used32, or_iff_right fun he => hK32 (.inl he)]
    exact used32 K hK fun hl => hK32 (.inr hl)
  · exact free32 K hK (View.mark32_free32.mp hf).1
  · rw [View.mark32_used32] at hun
    exact View.mark32_free32.mpr ⟨unused32 K hK fun hu => hun (.inr hu), fun he => absurd (.inl he) hun⟩
  · have hsib : ∃ r, r / 16 = R ∧ ¬ v.used2 r := ⟨R * 16, by omega, hchildren _ (by omega)⟩
    rw [View.mark32_used32, View.mark32_free32]
    rcases hK with rfl | hK
    · exact ⟨hR, .inl rfl, ⟨hfree, fun _ => hsib⟩, hchildren⟩
    · obtain ⟨h1, h2, h3, h4⟩ := live32 K hK
      exact ⟨h1, .inr h2, ⟨h3, fun _ => hsib⟩, h4⟩

/-- The queues may change as long as they hold regions. -/
theorem Inv.requeue (h : Inv F0 L4 L2 L32 v) {q2 q32 : List Nat} (h2 : ∀ r ∈ q2, r < bitmapEntries2MB)
    (h32 : ∀ R ∈ q32, R < bitmapEntries32MB) :
    Inv F0 L4 L2 L32 { v with queue2 := q2, queue32 := q32 } :=
  ⟨h.live4, h.live2, h.used2, h.free2, h.origin, h.cached, h2, h32, h.used32, h.free32, h.unused32, h.live32,
    h.noDMA⟩

theorem Inv.uncache (h : Inv F0 L4 L2 L32 v) : Inv F0 L4 L2 L32 (v.setCached none) :=
  ⟨h.live4, h.live2, h.used2, h.free2, h.origin, fun _ hp => (by cases hp), h.queue2, h.queue32, h.used32,
    h.free32, h.unused32, h.live32, h.noDMA⟩

theorem mem_enqueue {q : List Nat} {entry k : Nat} (hlt : entry < 2 ^ 32) (hk : k ∈ enqueue q entry) :
    k = entry ∨ k ∈ q := by
  unfold enqueue at hk
  rw [Nat.mod_eq_of_lt hlt] at hk
  split at hk
  · exact .inr hk
  · simpa [or_comm] using hk

/-! ## Freeing -/

/-- What freeing pages of region `r` does to the flags. -/
structure Released (v : View) (r : Nat) (w : View) : Prop where
  page : ∀ k, k / 512 ≠ r → (w.page k ↔ v.page k)
  used2 : ∀ k, w.used2 k ↔ if k = r then ∃ q, q / 512 = r ∧ w.page q else v.used2 k
  free2 : ∀ k, w.free2 k ↔ k = r ∨ v.free2 k
  used32 : ∀ K, w.used32 K ↔ if K = r / 16 then ∃ x, x / 16 = r / 16 ∧ w.used2 x else v.used32 K
  free32 : ∀ K, w.free32 K ↔ K = r / 16 ∨ v.free32 K
  hole : ∃ q, q / 512 = r ∧ ¬ w.page q
  queue2 : ∀ k ∈ w.queue2, k = r ∨ k ∈ v.queue2
  queue32 : ∀ K ∈ w.queue32, K = r / 16 ∨ K ∈ v.queue32

/-- Freeing pages of a region that is in no live 32MB region; afterwards the region is not
live as a whole. -/
theorem Inv.release (h : Inv F0 L4 L2 L32 v) {r : Nat} (hr : r < bitmapEntries2MB) (hL32 : ¬ L32 (r / 16))
    {w : View} (ht : Released v r w) (L4' L2' : Nat → Prop) (hL4' : ∀ k, L4' k → L4 k ∧ w.page k)
    (hL2' : ∀ k, L2' k ↔ k ≠ r ∧ L2 k) (hnew : ∀ k, k / 512 = r → ¬ w.page k → F0 k)
    (hcached : ∀ k, w.cached = some k → k < bitmapEntries4KB ∧ ¬ w.page k) :
    Inv F0 L4' L2' L32 w := by
  obtain ⟨live4, live2, used2, free2, origin, cached, queue2, queue32, used32, free32, unused32, live32,
    noDMA⟩ := h
  have hR : r / 16 < bitmapEntries32MB := parent32_lt.mpr hr
  refine ⟨fun k hk => ?_, fun k hk => ?_, fun k hk hk2 => ?_, fun k hk hk2 hex => ?_, fun k hk hkc => ?_,
    hcached, fun k hk => ?_, fun K hK => ?_, fun K hK hK32 => ?_, fun K hK hfree => ?_,
    fun K hK hun => ?_, fun K hK => ?_, noDMA⟩
  · obtain ⟨hl, hpg⟩ := hL4' k hk
    obtain ⟨h1, -, h3⟩ := live4 k hl
    exact ⟨h1, hpg, h3⟩
  · obtain ⟨hne, hl⟩ := (hL2' k).mp hk
    obtain ⟨h1, h2, h3, h4⟩ := live2 k hl
    refine ⟨h1, (ht.used2 k).mpr (by rwa [if_neg hne]), fun hf => ?_, fun q hq hpg => ?_⟩
    · exact ((ht.free2 k).mp hf).elim hne h3
    · exact h4 q hq ((ht.page q (hq ▸ hne)).mp hpg)
  · rw [ht.used2]
    by_cases hkr : k = r
    · rw [if_pos hkr, hkr]
    · rw [if_neg hkr, used2 k hk fun hl => hk2 ((hL2' k).mpr ⟨hkr, hl⟩)]
      exact exists_congr fun q => and_congr_right fun hq => (ht.page q (hq ▸ hkr)).symm
  · by_cases hkr : k = r
    · exact (ht.free2 k).mpr (.inl hkr)
    · obtain ⟨q, hq, hpg⟩ := hex
      exact (ht.free2 k).mpr (.inr (free2 k hk (fun hl => hk2 ((hL2' k).mpr ⟨hkr, hl⟩))
        ⟨q, hq, fun hn => hpg ((ht.page q (hq ▸ hkr)).mpr hn)⟩))
  · by_cases hkr : k / 512 = r
    · exact hnew k hkr hkc
    · exact origin k hk fun hn => hkc ((ht.page k hkr).mpr hn)
  · rcases ht.queue2 k hk with rfl | hk
    · exact hr
    · exact queue2 k hk
  · rcases ht.queue32 K hK with rfl | hK
    · exact hR
    · exact queue32 K hK
  · rw [ht.used32]
    by_cases hKr : K = r / 16
    · rw [if_pos hKr, hKr]
    · rw [if_neg hKr, used32 K hK hK32]
      refine exists_congr fun x => and_congr_right fun hx => ?_
      rw [ht.used2, if_neg fun he => hKr (by rw [← hx, he])]
  · by_cases hKr : K = r / 16
    · obtain ⟨q, hq, hpg⟩ := ht.hole
      exact ⟨q, by rw [hq, hKr], hpg, fun hl => ((hL2' _).mp hl).1 hq⟩
    · obtain ⟨q, hq, hpg, hqL⟩ := free32 K hK (((ht.free32 K).mp hfree).resolve_left hKr)
      have hqr : q / 512 ≠ r := fun he => hKr (by rw [← hq, he])
      exact ⟨q, hq, fun hn => hpg ((ht.page q hqr).mp hn), fun hl => hqL ((hL2' _).mp hl).2⟩
  · by_cases hKr : K = r / 16
    · exact (ht.free32 K).mpr (.inl hKr)
    · refine (ht.free32 K).mpr (.inr (unused32 K hK fun hu => hun ?_))
      rwa [ht.used32, if_neg hKr]
  · obtain ⟨h1, h2, h3, h4⟩ := live32 K hK
    have hKr : K ≠ r / 16 := fun he => hL32 (he ▸ hK)
    refine ⟨h1, (ht.used32 K).mpr (by rwa [if_neg hKr]), (ht.free32 K).mpr (.inr h3), fun x hx hu => ?_⟩
    rw [ht.used2, if_neg fun he => hKr (by rw [← hx, he])] at hu
    exact h4 x hx hu

/-- What freeing a whole 32MB region does. -/
structure Released32 (v : View) (R : Nat) (w : View) : Prop where
  page : ∀ k, w.page k ↔ k / 512 / 16 ≠ R ∧ v.page k
  used2 : ∀ k, w.used2 k ↔ k / 16 ≠ R ∧ v.used2 k
  free2 : ∀ k, w.free2 k ↔ k / 16 = R ∨ v.free2 k
  used32 : ∀ K, w.used32 K ↔ K ≠ R ∧ v.used32 K
  free32 : ∀ K, w.free32 K ↔ K = R ∨ v.free32 K
  queue2 : ∀ k ∈ w.queue2, k / 16 = R ∨ k ∈ v.queue2
  queue32 : ∀ K ∈ w.queue32, K = R ∨ K ∈ v.queue32
  cached : w.cached = v.cached

theorem Inv.release32 (h : Inv F0 L4 L2 L32 v) {R : Nat} (hL : L32 R) {w : View} (ht : Released32 v R w) :
    Inv F0 L4 L2 (fun K => K ≠ R ∧ L32 K) w := by
  obtain ⟨hR, hRu, hRf, hchildren⟩ := h.live32 R hL
  have hchild : ∀ r, r / 16 = R → r < bitmapEntries2MB := fun r hr => parent32_lt.mp (hr ▸ hR)
  have hpages : ∀ p, w.page p ↔ v.page p := fun p => (ht.page p).trans
    (and_iff_right_of_imp fun hpg he => (h.unused2 (hchild _ he) (hchildren _ he)).2 p rfl hpg)
  have hused : ∀ r, w.used2 r ↔ v.used2 r := fun r => (ht.used2 r).trans
    (and_iff_right_of_imp fun hu he => hchildren r he hu)
  obtain ⟨live4, live2, used2, free2, origin, cached, queue2, queue32, used32, free32, unused32, live32,
    noDMA⟩ := h
  refine ⟨fun k hk => ?_, fun k hk => ?_, fun k hk hk2 => ?_, fun k hk hk2 hex => ?_, fun k hk hkc => ?_,
    fun k hk => ?_, fun k hk => ?_, fun K hK => ?_, fun K hK hK32 => ?_, fun K hK hfree => ?_,
    fun K hK hun => ?_, fun K hK => ?_, noDMA⟩
  · rw [hpages]
    exact live4 k hk
  · obtain ⟨h1, h2, h3, h4⟩ := live2 k hk
    simp only [hpages, hused, ht.free2]
    exact ⟨h1, h2, fun hf => hf.elim (fun he => hchildren k he h2) h3, h4⟩
  · simp only [hpages, hused]
    exact used2 k hk hk2
  · simp only [hpages] at hex
    exact (ht.free2 k).mpr (.inr (free2 k hk hk2 hex))
  · exact origin k hk fun hn => hkc ((hpages k).mpr hn)
  · rw [ht.cached] at hk
    rw [hpages]
    exact cached k hk
  · rcases ht.queue2 k hk with he | hk
    · exact hchild k he
    · exact queue2 k hk
  · rcases ht.queue32 K hK with rfl | hK
    · exact hR
    · exact queue32 K hK
  · simp only [ht.used32, hused]
    by_cases hKR : K = R
    · subst hKR
      exact ⟨fun hn => absurd rfl hn.1, fun ⟨r, hr, hu⟩ => absurd hu (hchildren r hr)⟩
    · rw [and_iff_right hKR]
      exact used32 K hK fun hl => hK32 ⟨hKR, hl⟩
  · simp only [hpages]
    rcases (ht.free32 K).mp hfree with rfl | hf
    · exact free32 K hK hRf
    · exact free32 K hK hf
  · by_cases hKR : K = R
    · exact (ht.free32 K).mpr (.inl hKR)
    · exact (ht.free32 K).mpr (.inr (unused32 K hK fun hu => hun ((ht.used32 K).mpr ⟨hKR, hu⟩)))
  · obtain ⟨h1, h2, h3, h4⟩ := live32 K hK.2
    simp only [hused]
    exact ⟨h1, (ht.used32 K).mpr ⟨hK.1, h2⟩, (ht.free32 K).mpr (.inr h3), h4⟩

/-- Regions flagged unused are outside the DMA zone. -/
theorem Inv.pos_of_unused2 (h : Inv F0 L4 L2 L32 v) {r : Nat} (hr : r < bitmapEntries2MB) (hu : ¬ v.used2 r) :
    8 ≤ r := by
  have hclear := (h.unused2 hr hu).2 (r * 512) (by omega)
  have hlt : r * 512 < bitmapEntries4KB := parent2_lt.mp (by rwa [Nat.mul_div_cancel _ (by omega)])
  have := h.noDMA _ (h.origin _ hlt hclear)
  omega

theorem Inv.children_unused (h : Inv F0 L4 L2 L32 v) {R : Nat} (hR : R < bitmapEntries32MB)
    (hu : ¬ v.used32 R) : ∀ r, r / 16 = R → ¬ v.used2 r := by
  have hL : ¬ L32 R := fun hl => hu (h.live32 R hl).2.1
  exact fun r hr hur => hu ((h.used32 R hR hL).mpr ⟨r, hr, hur⟩)

theorem Inv.pos_of_unused32 (h : Inv F0 L4 L2 L32 v) {R : Nat} (hR : R < bitmapEntries32MB)
    (hu : ¬ v.used32 R) : 1 ≤ R := by
  have := h.pos_of_unused2 (parent32_lt.mp (by rwa [Nat.mul_div_cancel _ (by omega)]))
    (h.children_unused hR hu (R * 16) (by omega))
  omega

end

end BadLands.Mm.PhysicalMemory
