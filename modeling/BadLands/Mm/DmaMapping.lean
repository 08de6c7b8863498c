import BadLands.Mm.DmaZone
import BadLands.Mm.TableGrants

/-!
# DMA memory with its mapping

`VirtualMemory::AllocateDMA` takes a run of pages from the bitmap of the zone and maps them to themselves, page by page.
If the frame of a table is refused on the way it returns null and leaves the run marked: `dma_null_iff`.

`VirtualMemory::FreeDMA` gives a range back to the bitmap and then unmaps its pages. The check of
`PhysicalMemory::FreeDMA` makes a `Failure()` and drops it, so that neither function ever fails: `foreign_not_rejected`.
-/
namespace BadLands.Mm.DmaMapping

open BadLands.Core BadLands.Core.PageTable BadLands.Mm.Layout BadLands.Mm.Paging
open BadLands.Mm.DmaZone (foreignDMA Run)
open BadLands.Loader (dmaEndPage)

/-- The `for` of `AllocateDMA` with `k` pages left, the next one `i`; `allocs i`: the outcomes of the allocations of the
tables of page `i`, should they be made.
mirrors kernel/src/mm/VirtualMemory.cpp:800-804 -/
def mapLoop (root maxPhyAddr : Nat) (allocs : Nat → Nat → Option Entry) :
    Nat → Nat → Nat → PhysMem → Option (Bool × PhysMem)
  | 0, _, _, m => some (true, m)
  | k + 1, i, address, m => do
    let (ok, m) ← mapPage m root maxPhyAddr (BitVec.ofNat 64 address) address .medium false
      (allocs i 2) (allocs i 1) (allocs i 0)
    if !ok then return (false, m)
    mapLoop root maxPhyAddr allocs k (i + 1) (Word.add address frameSize) m

/-- mirrors kernel/src/mm/VirtualMemory.cpp:792-807 -/
def allocateDMA (bitmap : ByteMap) (m : PhysMem) (root maxPhyAddr pages : Nat)
    (allocs : Nat → Nat → Option Entry) : Option (Nat × ByteMap × PhysMem) :=
  let r := DmaZone.allocateDMA bitmap pages
  if r.1 = 0 then some (0, r.2, m)
  else (mapLoop root maxPhyAddr allocs pages 0 r.1 m).map fun o => (if o.1 then r.1 else 0, r.2, o.2)

/-- The `for` of `FreeDMA` with `k` pages left.
mirrors kernel/src/mm/VirtualMemory.cpp:828-833 -/
def unmapLoop (root : Nat) : Nat → Nat → PhysMem → Option PhysMem
  | 0, _, m => some m
  | k + 1, address, m =>
    (writeVirtual m root (getPTEAddress (parseVirtualAddress address) true) 0#64).bind
      (unmapLoop root k (Word.add address frameSize))

/-- mirrors kernel/src/mm/VirtualMemory.cpp:821-836 -/
def freeDMA (bitmap : ByteMap) (m : PhysMem) (root ptr pages : Nat) : Option (Bool × ByteMap × PhysMem) :=
  let r := DmaZone.freeDMA bitmap ptr pages
  if !r.1 then some (false, r.2, m)
  else (unmapLoop root pages ptr m).map fun m => (true, r.2, m)

/-! ## A run that cannot be mapped -/

def dmaPage (start i : Nat) : Nat := (start + i) * frameSize

/-- Each table of page `i` is there, is added for a page before it, or has a frame. -/
def PageGranted (m : PhysMem) (root start : Nat) (allocs : Nat → Nat → Option Entry) (i : Nat) : Prop :=
  ∀ n, n < 3 → (∃ u, Reach m (dmaPage start i) 3 root n u) ∨
    (∃ j, j < i ∧ SamePath (n + 1) (dmaPage start i) (dmaPage start j)) ∨ allocs i n ≠ none

/-- There is no run, or the first one does not begin with page 0, and all tables of its pages can be had. -/
def DmaGranted (bitmap : ByteMap) (m : PhysMem) (root pages : Nat) (allocs : Nat → Nat → Option Entry) : Prop :=
  pages = 0 ∨ (∀ start, ¬ Run bitmap pages start) ∨
    ∃ start, Run bitmap pages start ∧ (∀ s, Run bitmap pages s → start ≤ s) ∧ start ≠ 0 ∧
      ∀ i, i < pages → PageGranted m root start allocs i

/-- A call that returns null leaves the bitmap and every translation as they were. -/
def DmaNullKeeps (bitmap : ByteMap) (m : PhysMem) (root maxPhyAddr pages : Nat)
    (allocs : Nat → Nat → Option Entry) : Prop :=
  ∀ bitmap' m', allocateDMA bitmap m root maxPhyAddr pages allocs = some (0, bitmap', m') →
    bitmap' = bitmap ∧ ∀ a, translation m' root a = translation m root a

/-- The tables on which `AllocateDMA` works. No large page lies in the zone, and the frames that are granted are no
tables yet and are given out once. -/
structure DmaReady (m : PhysMem) (root maxPhyAddr : Nat) (allocs : Nat → Nat → Option Entry) : Prop where
  tables : Tables m root
  small : ∀ p, p < dmaEndPage → NoLarge m root (p * frameSize)
  good : ∀ i n p, allocs i n = some p → GoodPage m root maxPhyAddr p
  once : ∀ i j n k p, allocs i n = some p → allocs j k = some p → i = j ∧ n = k

/-- Before page `i`: the tables are those of `m₀` and those of the pages before. -/
structure Midway (m₀ m : PhysMem) (root maxPhyAddr start pages : Nat) (allocs : Nat → Nat → Option Entry)
    (i : Nat) : Prop where
  tables : Tables m root
  small : ∀ j, j < pages → NoLarge m root (dmaPage start j)
  good : ∀ j, i ≤ j → ∀ n p, allocs j n = some p → GoodPage m root maxPhyAddr p
  found : ∀ j, j < pages → ∀ n, n < 3 → ((∃ u, Reach m (dmaPage start j) 3 root n u) ↔
    (∃ u, Reach m₀ (dmaPage start j) 3 root n u) ∨
      ∃ j', j' < i ∧ SamePath (n + 1) (dmaPage start j) (dmaPage start j'))

section
variable {m₀ m m' : PhysMem} {root maxPhyAddr start pages : Nat} {allocs : Nat → Nat → Option Entry} {i : Nat}

theorem dmaPage_lt (hfit : start + pages ≤ dmaEndPage) (hi : i < pages) : dmaPage start i < 2 ^ 24 := by
  unfold dmaPage
  rw [show dmaEndPage = 4096 by decide] at hfit
  rw [show frameSize = 4096 from rfl]
  omega

theorem dmaPage_outside (hfit : start + pages ≤ dmaEndPage) (hi : i < pages) : Outside windows (dmaPage start i) := by
  have hlt := dmaPage_lt hfit hi
  have hindex : index 3 (dmaPage start i) = 0 := by
    unfold index
    simp only [Nat.reduceMul, Nat.reduceAdd, Nat.reducePow] at hlt ⊢
    omega
  unfold Outside windows
  rw [hindex]
  decide

/-- What page `i` needs of the memory it meets is what it needs of the first one. -/
theorem Midway.granted (h : Midway m₀ m root maxPhyAddr start pages allocs i) (hi : i < pages) :
    Granted m root (dmaPage start i) (allocs i) ↔ PageGranted m₀ root start allocs i := by
  constructor
  · intro hg n hn
    have hneed := hg n hn
    rwa [h.found i hi n hn, or_assoc] at hneed
  · intro hg n hn
    rw [h.found i hi n hn, or_assoc]
    exact hg n hn

theorem Midway.next (h : Midway m₀ m root maxPhyAddr start pages allocs i) (hr : DmaReady m₀ root maxPhyAddr allocs)
    (hfit : start + pages ≤ dmaEndPage) (ha : PageAdded m m' root (dmaPage start i) (allocs i) true) :
    Midway m₀ m' root maxPhyAddr start pages allocs (i + 1) where
  tables := ha.tables
  small j hj := ha.noLarge _ (dmaPage_outside hfit hj) (h.small j hj)
  good j hj n p hp := by
    obtain ⟨hbits, hfresh⟩ := h.good j (by omega) n p hp
    refine ⟨hbits, ha.fresh _ hfresh fun k q hq he => ?_⟩
    have := (hr.once j i n k p hp (BitVec.eq_of_toNat_eq he ▸ hq)).1
    omega
  found j hj n hn := by
    rw [ha.others rfl _ n (dmaPage_outside hfit hj) hn, h.found j hj n hn, or_assoc]
    refine or_congr_right ⟨?_, ?_⟩
    · rintro (⟨j', hlt, hpath⟩ | hpath)
      · exact ⟨j', by omega, hpath⟩
      · exact ⟨i, Nat.lt_succ_self i, hpath⟩
    · rintro ⟨j', hlt, hpath⟩
      by_cases he : j' = i
      · exact .inr (he ▸ hpath)
      · exact .inl ⟨j', by omega, hpath⟩

/-- The loop maps every page exactly if the tables of each can be had. -/
theorem mapLoop_spec (hr : DmaReady m₀ root maxPhyAddr allocs) (hfit : start + pages ≤ dmaEndPage) :
    ∀ (k i : Nat) (m : PhysMem), i + k = pages → Midway m₀ m root maxPhyAddr start pages allocs i →
      ∃ ok m', mapLoop root maxPhyAddr allocs k i (dmaPage start i) m = some (ok, m') ∧
        (ok = true ↔ ∀ j, i ≤ j → j < pages → PageGranted m₀ root start allocs j)
  | 0, i, m, hi, _ => ⟨true, m, rfl, fun _ j h1 h2 => by omega, fun _ => rfl⟩
  | k + 1, i, m, hi, h => by
    have hlt := dmaPage_lt hfit (show i < pages by omega)
    have haligned : dmaPage start i % 4096 = 0 := Nat.mul_mod_left _ _
    obtain ⟨ok, m', hrun, hadded⟩ := mapPage_granted (BitVec.ofNat 64 (dmaPage start i)) .medium h.tables
      (by rw [BitVec.toNat_ofNat]; omega) haligned (.inl (by omega)) (dmaPage_outside hfit (by omega))
      (h.small i (by omega)) ⟨h.good i (Nat.le_refl i), fun n k p hn hk => (hr.once i i n k p hn hk).2⟩
    have hgranted := hadded.granted.trans (h.granted (by omega))
    have haddress : Word.add (dmaPage start i) frameSize = dmaPage start (i + 1) := by
      rw [Word.add_eq (by rw [show frameSize = 4096 from rfl]; omega), dmaPage, dmaPage, ← Nat.add_assoc,
        Nat.succ_mul]
    rw [mapLoop]
    simp only [Option.bind_eq_bind, hrun, Option.bind_some]
    cases ok with
    | false =>
      refine ⟨false, m', rfl, fun hok => absurd hok Bool.false_ne_true, fun hall => ?_⟩
      exact hgranted.mpr (hall i (Nat.le_refl i) (by omega))
    | true =>
      obtain ⟨ok, m'', hloop, hiff⟩ := mapLoop_spec hr hfit k (i + 1) m' (by omega)
        (h.next hr hfit hadded)
      simp only [Bool.not_true, Bool.false_eq_true, if_false, haddress]
      refine ⟨ok, m'', hloop, hiff.trans ⟨fun hall j h1 h2 => ?_, fun hall j h1 h2 => hall j (by omega) h2⟩⟩
      by_cases he : j = i
      · rw [he]
        exact hgranted.mp rfl
      · exact hall j (by omega) h2

end

section
variable {bitmap : ByteMap} {m : PhysMem} {root maxPhyAddr pages : Nat} {allocs : Nat → Nat → Option Entry}

/-- A bitmap with a run marked is not the one before. -/
theorem setRange_ne {start : Nat} (hrun : Run bitmap pages start) (hpages : pages ≠ 0) :
    bitmap.setRange start (start + pages) ≠ bitmap := by
  intro he
  have htest := congrArg (ByteMap.test · start) he
  rw [ByteMap.test_setRange, decide_eq_true ⟨Nat.le_refl start, by omega⟩, Bool.true_or,
    hrun.2 start (Nat.le_refl start) (by omega)] at htest
  cases htest

/-- For every bitmap, count, state of the tables and outcome of the allocations: `AllocateDMA` returns, and null
means that nothing has changed exactly if there is no run, or the first run is not that of page 0 and every table it
needs is granted. -/
theorem dma_null_iff (bitmap : ByteMap) (pages : Nat) (hr : DmaReady m root maxPhyAddr allocs) :
    (allocateDMA bitmap m root maxPhyAddr pages allocs).isSome = true ∧
    (DmaNullKeeps bitmap m root maxPhyAddr pages allocs ↔ DmaGranted bitmap m root pages allocs) := by
  unfold DmaNullKeeps DmaGranted allocateDMA
  obtain ⟨heq, hnone⟩ | ⟨start, heq, hpages, hrun, hfirst⟩ := DmaZone.allocateDMA_cases bitmap pages
  · simp only [heq, if_true]
    refine ⟨rfl, fun _ => hnone.imp_right .inl, fun _ bitmap' m' h => ?_⟩
    cases h
    exact ⟨rfl, fun _ => rfl⟩
  · have hthe : ∀ s, Run bitmap pages s → (∀ s', Run bitmap pages s' → s ≤ s') → s = start := fun s hs hleast =>
      Nat.le_antisymm (hleast start hrun) (hfirst s hs)
    simp only [heq]
    by_cases hstart : start = 0
    · subst hstart
      simp only [Nat.zero_mul, if_true]
      refine ⟨rfl, fun hkeeps => absurd (hkeeps _ _ rfl).1 (setRange_ne hrun hpages), ?_⟩
      rintro (h | h | ⟨s, hs, hleast, hne, -⟩)
      · exact absurd h hpages
      · exact absurd hrun (h 0)
      · exact absurd (hthe s hs hleast) hne
    · have hptr : start * frameSize ≠ 0 := Nat.mul_ne_zero hstart (by decide)
      have hmidway : Midway m m root maxPhyAddr start pages allocs 0 :=
        ⟨hr.tables, fun j hj => hr.small (start + j) (Nat.lt_of_lt_of_le (Nat.add_lt_add_left hj start) hrun.1), fun j _ => hr.good j,
          fun j _ n _ => ⟨.inl, fun h => h.resolve_right fun ⟨j', hlt, _⟩ => absurd hlt (Nat.not_lt_zero j')⟩⟩
      obtain ⟨ok, m', hloop, hiff⟩ := mapLoop_spec hr hrun.1 pages 0 m (Nat.zero_add _) hmidway
      rw [show dmaPage start 0 = start * frameSize from rfl] at hloop
      simp only [if_neg hptr, hloop, Option.map_some]
      refine ⟨rfl, ?_⟩
      cases ok with
      | true =>
        simp only [if_true]
        refine ⟨fun _ => .inr (.inr ⟨start, hrun, hfirst, hstart, fun i hi => hiff.mp rfl i (Nat.zero_le i) hi⟩),
          fun _ bitmap' m' h => ?_⟩
        rw [Option.some_inj] at h
        exact absurd (congrArg Prod.fst h) hptr
      | false =>
        simp only [Bool.false_eq_true, if_false]
        refine ⟨fun hkeeps => absurd (hkeeps _ _ rfl).1 (setRange_ne hrun hpages), ?_⟩
        rintro (h | h | ⟨s, hs, hleast, -, hgranted⟩)
        · exact absurd h hpages
        · exact absurd hrun (h start)
        · obtain rfl := hthe s hs hleast
          cases hiff.mpr fun j _ hj => hgranted j hj

end

/-! ## Ranges outside of the zone -/

/-- `[ptr, ptr + pages * FRAME_SIZE)` is not a range of the zone. -/
def Foreign (ptr pages : Nat) : Prop :=
  pages = 0 ∨ ¬ (dmaZone.start ≤ ptr ∧ ptr + pages * frameSize ≤ dmaZone.end)

instance (ptr pages : Nat) : Decidable (Foreign ptr pages) := inferInstanceAs (Decidable (_ ∨ _))

/-- Both functions fail and leave the bitmap and the tables alone. -/
def Rejected (bitmap : ByteMap) (m : PhysMem) (root ptr pages : Nat) : Prop :=
  DmaZone.freeDMA bitmap ptr pages = (false, bitmap) ∧ freeDMA bitmap m root ptr pages = some (false, bitmap, m)

section
variable (bitmap : ByteMap) (m : PhysMem) (root ptr pages : Nat)

theorem freeDMA_eq : freeDMA bitmap m root ptr pages =
    (unmapLoop root pages ptr m).map fun m => (true, (DmaZone.freeDMA bitmap ptr pages).2, m) := rfl

/-- For every range, foreign or not: both functions report success if they return, the bits of the pages are clear
afterwards, and the range is not rejected. -/
theorem foreign_not_rejected :
    (DmaZone.freeDMA bitmap ptr pages).1 = true ∧
    (∀ r, freeDMA bitmap m root ptr pages = some r → r.1 = true) ∧
    (∀ p, (DmaZone.freeDMA bitmap ptr pages).2.test p =
      (!decide (ptr / frameSize ≤ p ∧ p < Word.add (ptr / frameSize) pages) && bitmap.test p)) ∧
    ¬ Rejected bitmap m root ptr pages := by
  have hsuccess : (DmaZone.freeDMA bitmap ptr pages).1 = true := rfl
  refine ⟨hsuccess, fun r hr => ?_, ByteMap.test_clearRange bitmap _ _, fun h => ?_⟩
  · rw [freeDMA_eq, Option.map_eq_some_iff] at hr
    obtain ⟨m', -, rfl⟩ := hr
    rfl
  · rw [h.1] at hsuccess
    cases hsuccess

end

/-- The check finds that a range behind the zone is foreign; a bit behind the end of the bitmap is cleared all the
same. It does not find that no pages, or so many that the byte count wraps, are no range of the zone. -/
theorem foreign_cleared : Foreign 0x2000000 1 ∧ foreignDMA 0x2000000 1 = true ∧
    (DmaZone.freeDMA (fun _ => 0xFF#8) 0x2000000 1).2.test 0x2000 = false ∧
    Foreign 0x1000 0 ∧ foreignDMA 0x1000 0 = false ∧ Foreign 0x1000 4503599627370497 ∧
    foreignDMA 0x1000 4503599627370497 = false ∧ ¬ Rejected (fun _ => 0xFF#8) (fun _ => 0#64) 0x1000 0x2000000 1 := by
  refine ⟨by decide, by decide, ?_, by decide, by decide, by decide, by decide, fun h => ?_⟩
  · rw [DmaZone.freeDMA, ByteMap.test_clearRange]
    decide
  · have hsuccess := congrArg Prod.fst h.1
    cases hsuccess

end BadLands.Mm.DmaMapping
