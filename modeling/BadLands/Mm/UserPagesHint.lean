import BadLands.Mm.UserPages

/-!
# Hinted user allocation keeps the free blocks a partition

`WellFormed` is the list a call starts from: blocks inside the user zone, disjoint, not
empty, in descending order of their pages, which `availableMemory` counts. `KeepsPartition`
is what a call should do to it: return `nullptr` and leave the list alone, or take the
returned range out of the free addresses and leave the rest a list of the same kind.

`HintOk` is the exact condition (`keepsPartition_iff`). What it excludes:

* a cut that leaves the last block but one smaller than the last one, which
  `SortVirtualMemoryMap` skips;
* a hint so high that the hinted range wraps around the address space: it seems to fit in
  every block;
* a block off the page grid, of which the pages in front of the hint are rounded down;
* the fall-through cut of all pages of a block at address 0, whose pointer is `nullptr`.
-/
namespace BadLands.Mm.UserPages

open BadLands.Core BadLands.Core.Ranges BadLands.Mm.Layout BadLands.Mm.VirtualMemory
open BadLands.Mm.KernelHeapRanges (toRange pagesOf pagesOf_perm pagesOf_cons length_le_pagesOf
  frameSize_eq)

def userZone : Range := ⟨userMemory.start, userMemory.limit⟩

def free (s : State) : List VMemMapBlock := stored s.blocks s.ctx.storedBlocks

def freeRanges (s : State) : List Range := (free s).map toRange

/-- A list of free user blocks. The code reads the first entry even when none is stored;
`emptied`: it then holds no pages. -/
structure WellFormed (s : State) : Prop where
  inZone : ∀ b ∈ free s, (toRange b).Sub userZone ∧ 0 < b.availablePages
  packed : Packed (freeRanges s)
  ordered : Descending s.blocks s.ctx.storedBlocks
  counted : s.ctx.availableMemory = frameSize * pagesOf (free s)
  bounded : s.ctx.availableMemory < 2 ^ 64
  emptied : s.ctx.storedBlocks = 0 → (s.blocks 0).availablePages = 0

/-- `pages` pages at `p` were free, and are what left the list. -/
structure Took (s : State) (p pages : Nat) (s' : State) : Prop where
  contained : ∀ a, (Range.mk p (pages * frameSize)).Has a → Holds (freeRanges s) a
  exact : ∀ a, Holds (freeRanges s') a ↔
    Holds (freeRanges s) a ∧ ¬ (Range.mk p (pages * frameSize)).Has a
  packed : Packed (freeRanges s')
  nonEmpty : ∀ b ∈ free s', 0 < b.availablePages
  ordered : Descending s'.blocks s'.ctx.storedBlocks

def KeepsPartition (s : State) (pages : Nat) (r : Nat × State) : Prop :=
  if r.1 = 0 then free r.2 = free s else Took s r.1 pages r.2

/-! ## The condition -/

/-- Cutting `pages` pages from block `i` leaves nothing for the sort to skip: it does nothing
when one block is behind the cut one. -/
def CutOrdered (s : State) (i pages : Nat) : Prop :=
  i + 2 = s.ctx.storedBlocks →
    (s.blocks (i + 1)).availablePages + pages ≤ (s.blocks i).availablePages

/-- The condition on the block `b` of index `i` that the hint path cuts: in front of the
hint, or below the first page of the block; with a hint above the user zone; at the end of
the block; in its middle. -/
def AtHintOk (s : State) (i pages hint : Nat) (expanded : Bool) : Prop :=
  let b := s.blocks i
  if hint < b.virtualStart + frameSize then CutOrdered s i pages
  else if userMemory.end ≤ hint then s.ctx.availableBlockMemory = 0 ∧ expanded = false
  else if b.virtualStart + b.availablePages * frameSize < hint + pages * frameSize + frameSize then
    b.virtualStart % frameSize = 0 ∧ CutOrdered s i pages
  else b.virtualStart % frameSize = 0 ∨ (s.ctx.availableBlockMemory = 0 ∧ expanded = false)

/-- Exactly when a call keeps the partition. -/
def HintOk (s : State) (pages hint : Nat) (mapOk expanded : Bool) : Prop :=
  mapOk = true → 1 ≤ pages → pages ≤ (s.blocks 0).availablePages →
    match hintIndex s pages hint with
    | some i => AtHintOk s i pages hint expanded
    | none => CutOrdered s (selectIndex s pages) pages ∧ s.blocks (selectIndex s pages) ≠ ⟨0, pages⟩

instance (s : State) (i pages : Nat) : Decidable (CutOrdered s i pages) :=
  inferInstanceAs (Decidable (_ → _))

instance (s : State) (i pages hint : Nat) (expanded : Bool) :
    Decidable (AtHintOk s i pages hint expanded) := by
  unfold AtHintOk
  exact inferInstance

instance (s : State) (pages hint : Nat) (mapOk expanded : Bool) :
    Decidable (HintOk s pages hint mapOk expanded) := by
  unfold HintOk
  cases hintIndex s pages hint with
  | some i => exact inferInstance
  | none => exact inferInstance

/-! ## Well-formed lists -/

theorem userZone_values : userZone = ⟨0, 0x7FFF000000⟩ := by decide

theorem userMemory_end : userMemory.end = 0x7FFF000000 := by decide

section
variable {s : State} {pages : Nat}

theorem WellFormed.block (h : WellFormed s) {i : Nat} (hi : i < s.ctx.storedBlocks) :
    0 < (s.blocks i).availablePages ∧
      (s.blocks i).virtualStart + (s.blocks i).availablePages * 4096 ≤ 0x7FFF000000 := by
  have hm := h.inZone (s.blocks i) (List.mem_map.mpr ⟨i, List.mem_range.mpr hi, rfl⟩)
  refine ⟨hm.2, ?_⟩
  have h2 := hm.1.2
  rw [userZone_values] at h2
  simp only [toRange, frameSize_eq] at h2
  omega

theorem WellFormed.stored_lt (h : WellFormed s) : s.ctx.storedBlocks ≤ 2 ^ 52 := by
  have hl := length_le_pagesOf (free s) fun b hb => (h.inZone b hb).2
  have hlen : (free s).length = s.ctx.storedBlocks := by simp [free, stored]
  have hc := h.counted
  have hb := h.bounded
  rw [frameSize_eq] at hc
  omega

/-- What an admitted request finds: the blocks up to the selected one have the pages. -/
structure Admitted (s : State) (pages : Nat) : Prop where
  first : 1 ≤ pages
  bytes : Word.mul pages frameSize = pages * 4096
  memory : pages * 4096 ≤ s.ctx.availableMemory
  small : pages * 4096 ≤ 0x7FFF000000
  index : selectIndex s pages < s.ctx.storedBlocks
  fits : ∀ i, i ≤ selectIndex s pages → pages ≤ (s.blocks i).availablePages

theorem WellFormed.admitted (h : WellFormed s) (h1 : 1 ≤ pages)
    (hle : pages ≤ (s.blocks 0).availablePages) : Admitted s pages := by
  have hpos : 0 < s.ctx.storedBlocks := by
    apply Nat.pos_of_ne_zero
    intro hz
    have := h.emptied hz
    omega
  have hzone := (h.block hpos).2
  have hstored := h.stored_lt
  obtain ⟨rest, hp, -⟩ := stored_setAt s.blocks hpos
  have hsum := pagesOf_perm hp
  rw [pagesOf_cons] at hsum
  have hcount := h.counted
  rw [frameSize_eq] at hcount
  change pagesOf (free s) = _ at hsum
  have hselect : selectIndex s pages < s.ctx.storedBlocks ∧
      pages ≤ (s.blocks (selectIndex s pages)).availablePages := by
    unfold selectIndex
    by_cases he : pages = 1
    · rw [if_pos he, Word.sub_eq hpos, he]
      exact ⟨by omega, (h.block (by omega)).1⟩
    · rw [if_neg he]
      have hspec := selectFrom_spec s.blocks pages (s.ctx.storedBlocks - 1) 1 (Nat.le_refl 1)
        fun j hj => by rw [show j = 0 by omega]; exact hle
      exact ⟨by omega, hspec.2⟩
  refine ⟨h1, ?_, by omega, by omega, hselect.1, fun i hi => ?_⟩
  · rw [frameSize_eq]
    exact Word.mul_eq (by omega)
  · exact Nat.le_trans hselect.2 (h.ordered i _ hi hselect.1)

/-! ## The block the hint path cuts -/

/-- The block contains the hinted range, wrapped or not, or starts at or above the hint. -/
def Near (pages hint : Nat) (b : VMemMapBlock) : Prop :=
  (b.virtualStart ≤ hint ∧ hintEnd hint pages ≤ blockEnd b) ∨ hint ≤ b.virtualStart

theorem hintLoop_near {b : Nat → VMemMapBlock} {hint index : Nat} (k : Nat) : ∀ (i : Nat)
    (found : Nat × Bool), i + k = index + 1 →
      (found.2 = true → found.1 ≤ index ∧ Near pages hint (b (index - found.1))) →
      (hintLoop b pages hint index k i found).2 = true →
        (hintLoop b pages hint index k i found).1 ≤ index ∧
          Near pages hint (b (index - (hintLoop b pages hint index k i found).1)) := by
  induction k with
  | zero => exact fun _ _ _ h => h
  | succ k ih =>
    intro i found hk h
    unfold hintLoop
    simp only
    split
    · rename_i hfit
      exact fun _ => ⟨by omega, .inl hfit⟩
    · split
      · rename_i hbelow
        split
        · exact ih (i + 1) (i, true) (by omega) fun _ => ⟨by omega, .inr hbelow.2⟩
        · exact ih (i + 1) found (by omega) h
      · exact ih (i + 1) found (by omega) h

/-- The block the hint path takes has more than the pages asked for. -/
structure Found (s : State) (pages hint i : Nat) : Prop where
  hint_pos : 0 < hint
  hint_aligned : hint % 4096 = 0
  index : i ≤ selectIndex s pages
  more : pages < (s.blocks i).availablePages
  near : Near pages hint (s.blocks i)

theorem WellFormed.found (h : WellFormed s) (ha : Admitted s pages) {hint i : Nat}
    (hi : hintIndex s pages hint = some i) : Found s pages hint i := by
  unfold hintIndex at hi
  split at hi
  · rename_i hhint
    simp only at hi
    split at hi
    · rename_i hfound
      obtain ⟨-, hnear⟩ := hintLoop_near (selectIndex s pages + 1) 0 (0, false) (by omega)
        (fun hf => by cases hf) hfound.1
      rw [Option.some.inj hi] at hnear
      have hle : i ≤ selectIndex s pages := by
        rw [← Option.some.inj hi]
        exact Nat.sub_le _ _
      have hmore := h.ordered i _ hle ha.index
      exact ⟨by omega, hhint.2, hle, Nat.lt_of_lt_of_le hfound.2 hmore, hnear⟩
    · cases hi
  · cases hi

/-! ## Cutting a block -/

/-- The free addresses after a block `c` is replaced by parts of it that leave out `r`. -/
theorem took_of_cut (parts : List VMemMapBlock) {s' : State} {c : VMemMapBlock}
    {rest : List VMemMapBlock} {p : Nat}
    (h : WellFormed s) (hold : (free s).Perm (c :: rest)) (hnew : (free s').Perm (parts ++ rest))
    (hparts : Packed (parts.map toRange)) (hpos : ∀ b ∈ parts, 0 < b.availablePages)
    (hsub : ∀ b ∈ parts, (toRange b).Sub (toRange c))
    (hr : (Range.mk p (pages * frameSize)).Sub (toRange c))
    (hcut : ∀ a, Holds (parts.map toRange) a ↔
      (toRange c).Has a ∧ ¬ (Range.mk p (pages * frameSize)).Has a)
    (hordered : Descending s'.blocks s'.ctx.storedBlocks) : Took s p pages s' := by
  have hpacked : Packed (toRange c :: rest.map toRange) :=
    (packed_perm (hold.map toRange)).mp h.packed
  have hrest := packed_cons.mp hpacked
  have hold' : ∀ a, Holds (freeRanges s) a ↔ (toRange c).Has a ∨ Holds (rest.map toRange) a := by
    intro a
    unfold freeRanges
    rw [holds_perm (hold.map toRange) a, List.map_cons, holds_cons]
  have hnew' : ∀ a, Holds (freeRanges s') a ↔
      Holds (parts.map toRange) a ∨ Holds (rest.map toRange) a := by
    intro a
    unfold freeRanges
    rw [holds_perm (hnew.map toRange) a, List.map_append]
    simp only [Holds, List.mem_append, or_and_right, exists_or]
  -- no other block has an address of the cut one
  have hapart : ∀ a, Holds (rest.map toRange) a → ¬ (toRange c).Has a := by
    intro a ha hc
    obtain ⟨x, hx, hxa⟩ := ha
    have hd := hrest.1 x hx
    unfold Range.Disj at hd
    unfold Range.Has at hxa hc
    omega
  have hrc : ∀ a, (Range.mk p (pages * frameSize)).Has a → (toRange c).Has a := by
    intro a ha
    unfold Range.Has at ha ⊢
    unfold Range.Sub at hr
    omega
  refine ⟨fun a ha => (hold' a).mpr (.inl (hrc a ha)), fun a => ?_, ?_, ?_, hordered⟩
  · rw [hnew' a, hold' a, hcut a]
    constructor
    · rintro (⟨hc, hn⟩ | hx)
      · exact ⟨.inl hc, hn⟩
      · exact ⟨.inr hx, fun hra => hapart a hx (hrc a hra)⟩
    · rintro ⟨hc | hx, hn⟩
      · exact .inl ⟨hc, hn⟩
      · exact .inr hx
  · unfold freeRanges
    rw [packed_perm (hnew.map toRange), List.map_append]
    refine List.pairwise_append.mpr ⟨hparts, hrest.2, fun x hx y hy => ?_⟩
    obtain ⟨b, hb, rfl⟩ := List.mem_map.mp hx
    exact disj_of_sub (hsub b hb) (hrest.1 y hy)
  · intro b hb
    rcases List.mem_append.mp (hnew.mem_iff.mp hb) with hb | hb
    · exact hpos b hb
    · exact (h.inZone b (hold.mem_iff.mpr (List.mem_cons_of_mem _ hb))).2

/-! ### One part is left -/

theorem afterCut_free (h : WellFormed s) {i : Nat} (hi : i < s.ctx.storedBlocks) (pages : Nat)
    (x : VMemMapBlock) : ∃ rest, (free s).Perm (s.blocks i :: rest) ∧
      (free (afterCut s i pages x)).Perm (x :: rest) := by
  have hstored := h.stored_lt
  obtain ⟨rest, hp, hset⟩ := stored_setAt s.blocks hi
  refine ⟨rest, hp, ?_⟩
  change (stored (sortVirtualMemoryMap (setAt s.blocks i x) i (Word.sub s.ctx.storedBlocks i))
    s.ctx.storedBlocks).Perm _
  rw [Word.sub_eq (by omega)]
  exact (sort_perm _ hi).trans (hset x)

theorem afterCut_ordered (h : WellFormed s) {i : Nat} (hi : i < s.ctx.storedBlocks)
    (hle : pages ≤ (s.blocks i).availablePages) {x : VMemMapBlock}
    (hx : x.availablePages = (s.blocks i).availablePages - pages) :
    Descending (afterCut s i pages x).blocks s.ctx.storedBlocks ↔ CutOrdered s i pages := by
  have hsub : Word.sub s.ctx.storedBlocks i = s.ctx.storedBlocks - i := Word.sub_eq (by omega)
  constructor
  · intro hd hn
    have hlast := hd i (i + 1) (by omega) (by omega)
    have hsame : (afterCut s i pages x).blocks = setAt s.blocks i x := by
      simp only [afterCut, sortVirtualMemoryMap, hsub]
      rw [if_neg (by omega)]
    rw [hsame] at hlast
    simp only [setAt, if_true] at hlast
    rw [if_neg (by omega)] at hlast
    omega
  · intro hok
    change Descending (sortVirtualMemoryMap (setAt s.blocks i x) i
      (Word.sub s.ctx.storedBlocks i)) s.ctx.storedBlocks
    rw [hsub]
    refine sort_ordered h.ordered hi (by omega) fun hn => ?_
    have := hok hn
    omega

/-- Cutting pages off one side of a block keeps the partition, up to the order. -/
theorem keeps_cut (h : WellFormed s) {i p : Nat} (hi : i < s.ctx.storedBlocks)
    (hle : pages < (s.blocks i).availablePages) {x : VMemMapBlock}
    (hx : x.availablePages = (s.blocks i).availablePages - pages) (hp : p ≠ 0)
    (hside : (x.virtualStart = (s.blocks i).virtualStart + pages * 4096 ∧
        p = (s.blocks i).virtualStart) ∨
      (x.virtualStart = (s.blocks i).virtualStart ∧
        p = (s.blocks i).virtualStart + x.availablePages * 4096)) :
    KeepsPartition s pages (p, afterCut s i pages x) ↔ CutOrdered s i pages := by
  obtain ⟨rest, hold, hnew⟩ := afterCut_free h hi pages x
  unfold KeepsPartition
  rw [if_neg hp]
  constructor
  · intro ht
    exact (afterCut_ordered h hi (Nat.le_of_lt hle) hx).mp ht.ordered
  · intro hok
    refine took_of_cut [x] h hold hnew (List.pairwise_singleton _ _) ?_ ?_ ?_ ?_
      ((afterCut_ordered h hi (Nat.le_of_lt hle) hx).mpr hok)
    · intro b hb
      rw [List.mem_singleton.mp hb]
      omega
    · intro b hb
      rw [List.mem_singleton.mp hb]
      unfold toRange Range.Sub
      simp only [frameSize_eq]
      omega
    · unfold toRange Range.Sub
      simp only [frameSize_eq]
      omega
    · intro a
      simp only [List.map_cons, List.map_nil, Holds, List.mem_singleton, exists_eq_left]
      unfold toRange Range.Has
      simp only [frameSize_eq]
      omega

/-! ### Two parts are left -/

/-- Bubbling does not pass a last entry that is not larger. -/
theorem sortLoop_stop (k : Nat) : ∀ (b : Nat → VMemMapBlock) (start : Nat),
    (b (start + k + 1)).availablePages ≤ (b start).availablePages →
      sortLoop b start (k + 1) = sortLoop b start k := by
  induction k with
  | zero =>
    intro b start h
    rw [Nat.add_zero] at h
    simp only [sortLoop]
    rw [if_neg (by omega)]
  | succ k ih =>
    intro b start h
    unfold sortLoop
    split
    · apply ih
      rw [swap_apply, swap_apply, if_neg (by omega), if_neg (by omega), if_pos rfl]
      rw [show start + 1 + k + 1 = start + (k + 1) + 1 by omega]
      exact h
    · rfl

theorem sortLoop_past (k : Nat) : ∀ (b : Nat → VMemMapBlock) (start j : Nat), start + k < j →
    sortLoop b start k j = b j := by
  induction k with
  | zero => exact fun _ _ _ _ => rfl
  | succ k ih =>
    intro b start j hj
    unfold sortLoop
    split
    · rw [ih _ _ _ (by omega), swap_apply, if_neg (by omega), if_neg (by omega)]
    · rfl

/-- The array after a split, before the last entry is bubbled to its place. -/
theorem split_sorted {b : Nat → VMemMapBlock} {n i : Nat} {x y : VMemMapBlock}
    (h : Descending b n) (hi : i < n) (hx : x.availablePages ≤ (b i).availablePages)
    (hy : y.availablePages ≤ x.availablePages) :
    Descending (sortVirtualMemoryMap (setAt (setAt b i x) n y) i (n + 1 - i)) n ∧
      sortVirtualMemoryMap (setAt (setAt b i x) n y) i (n + 1 - i) n = y := by
  have hlast : setAt (setAt b i x) n y n = y := by simp [setAt]
  have hat : setAt (setAt b i x) n y i = x := by
    simp only [setAt, if_true]
    rw [if_neg (by omega)]
  have hother : ∀ j, j ≠ i → j ≠ n → setAt (setAt b i x) n y j = b j := by
    intro j hji hjn
    simp [setAt, hji, hjn]
  have hbut : DescendingBut (setAt (setAt b i x) n y) n i := by
    intro j k hjk hk hj hki
    rw [hother j hj (by omega), hother k hki (by omega)]
    exact h j k hjk hk
  have hl : ∀ j, j < i → (setAt (setAt b i x) n y i).availablePages ≤
      (setAt (setAt b i x) n y j).availablePages := by
    intro j hj
    rw [hat, hother j (by omega) (by omega)]
    exact Nat.le_trans hx (h j i (by omega) hi)
  unfold sortVirtualMemoryMap
  by_cases h3 : n + 1 - i > 2
  · obtain ⟨k, hk⟩ : ∃ k, n = i + k + 1 := ⟨n - i - 1, by omega⟩
    have hstop : sortLoop (setAt (setAt b i x) n y) i (k + 1) =
        sortLoop (setAt (setAt b i x) n y) i k := by
      apply sortLoop_stop
      rw [← hk, hlast, hat]
      exact hy
    rw [if_pos h3, show n + 1 - i - 1 = k + 1 by omega, hstop]
    exact ⟨sortLoop_descending n k _ _ hk.symm hbut hl, by rw [sortLoop_past k _ _ _ (by omega), hlast]⟩
  · rw [if_neg h3]
    exact ⟨hbut.descending hl fun j h1 h2 => by omega, hlast⟩

theorem split_ordered {b : Nat → VMemMapBlock} {n i : Nat} {x y : VMemMapBlock}
    (h : Descending b n) (hi : i < n) (hx : x.availablePages ≤ (b i).availablePages)
    (hy : y.availablePages ≤ x.availablePages) :
    Descending (rsortVirtualMemoryMap (sortVirtualMemoryMap (setAt (setAt b i x) n y) i (n + 1 - i))
      n (n + 1)) (n + 1) := by
  obtain ⟨hd, hn⟩ := split_sorted h hi hx hy
  have hset : ∀ c : Nat → VMemMapBlock, c n = y → setAt c n y = c := by
    intro c hc
    funext j
    unfold setAt
    split
    · rename_i hj
      rw [hj, hc]
    · rfl
  have hr := rsort_ordered hd (x := y) (by
    intro h1
    -- a list of one block: the parts stand in order already
    have hi0 : i = 0 := by omega
    subst h1 hi0
    have h0 : sortVirtualMemoryMap (setAt (setAt b 0 x) 1 y) 0 (1 + 1 - 0) 0 = x := rfl
    rw [h0]
    exact hy)
  rwa [hset _ hn] at hr

theorem storeSplit_free (h : WellFormed s) {i : Nat} (hi : i < s.ctx.storedBlocks) (pages : Nat)
    (x y : VMemMapBlock) : ∃ rest, (free s).Perm (s.blocks i :: rest) ∧
      (free (storeSplit s i pages x y)).Perm (x :: y :: rest) := by
  have hstored := h.stored_lt
  obtain ⟨rest, hp, hset⟩ := stored_setAt s.blocks hi
  refine ⟨rest, hp, ?_⟩
  have hadd : Word.add s.ctx.storedBlocks 1 = s.ctx.storedBlocks + 1 := Word.add_eq (by omega)
  have hplaced : ∀ u v : VMemMapBlock, (stored (setAt (setAt s.blocks i u) s.ctx.storedBlocks v)
      (s.ctx.storedBlocks + 1)).Perm (v :: u :: rest) := by
    intro u v
    rw [stored_succ, stored_setAt_past _ _ (Nat.le_refl _)]
    have hv : setAt (setAt s.blocks i u) s.ctx.storedBlocks v s.ctx.storedBlocks = v := by simp [setAt]
    rw [hv]
    exact (List.perm_append_singleton _ _).trans ((hset u).cons v)
  change (stored (rsortVirtualMemoryMap (sortVirtualMemoryMap _ i (Word.sub
    (Word.add s.ctx.storedBlocks 1) i)) s.ctx.storedBlocks (Word.add s.ctx.storedBlocks 1))
    (Word.add s.ctx.storedBlocks 1)).Perm _
  rw [hadd, Word.sub_eq (by omega)]
  refine (rsort_perm _ (Nat.lt_succ_self _)).trans ((sort_perm _ (Nat.lt_succ_of_lt hi)).trans ?_)
  split
  · exact (hplaced x y).trans (List.Perm.swap x y rest)
  · exact hplaced y x

theorem storeSplit_ordered (h : WellFormed s) {i : Nat} (hi : i < s.ctx.storedBlocks) (pages : Nat)
    {x y : VMemMapBlock} (hx : x.availablePages ≤ (s.blocks i).availablePages)
    (hy : y.availablePages ≤ (s.blocks i).availablePages) :
    Descending (storeSplit s i pages x y).blocks (storeSplit s i pages x y).ctx.storedBlocks := by
  have hstored := h.stored_lt
  have hadd : Word.add s.ctx.storedBlocks 1 = s.ctx.storedBlocks + 1 := Word.add_eq (by omega)
  change Descending (rsortVirtualMemoryMap (sortVirtualMemoryMap _ i (Word.sub
    (Word.add s.ctx.storedBlocks 1) i)) s.ctx.storedBlocks (Word.add s.ctx.storedBlocks 1))
    (Word.add s.ctx.storedBlocks 1)
  rw [hadd, Word.sub_eq (by omega)]
  split
  · exact split_ordered h.ordered hi hx (by omega)
  · exact split_ordered h.ordered hi hy (by omega)

/-- Taking pages out of the middle of a block keeps the partition. -/
theorem keeps_split (h : WellFormed s) {i p m n : Nat} (hi : i < s.ctx.storedBlocks) (hp : p ≠ 0)
    (hm : 0 < m) (hn : 0 < n) (hsum : (s.blocks i).availablePages = m + pages + n)
    (hstart : p = (s.blocks i).virtualStart + m * 4096) :
    KeepsPartition s pages (p, storeSplit s i pages ⟨(s.blocks i).virtualStart, m⟩
      ⟨p + pages * 4096, n⟩) := by
  obtain ⟨rest, hold, hnew⟩ := storeSplit_free h hi pages ⟨(s.blocks i).virtualStart, m⟩
    ⟨p + pages * 4096, n⟩
  unfold KeepsPartition
  rw [if_neg hp]
  refine took_of_cut [⟨(s.blocks i).virtualStart, m⟩, ⟨p + pages * 4096, n⟩] h hold hnew
    ?_ ?_ ?_ ?_ ?_ (storeSplit_ordered h hi pages ?_ ?_)
  · refine packed_cons.mpr ⟨fun x hx => ?_, List.pairwise_singleton _ _⟩
    rw [List.mem_singleton.mp hx]
    unfold toRange Range.Disj
    simp only [frameSize_eq]
    omega
  · intro b hb
    rcases List.mem_cons.mp hb with rfl | hb
    · exact hm
    · rw [List.mem_singleton.mp hb]
      exact hn
  · intro b hb
    unfold toRange Range.Sub
    simp only [frameSize_eq]
    rcases List.mem_cons.mp hb with rfl | hb
    · simp only
      omega
    · rw [List.mem_singleton.mp hb]
      simp only
      omega
  · unfold toRange Range.Sub
    simp only [frameSize_eq]
    omega
  · intro a
    simp only [List.map_cons, List.map_nil, holds_cons]
    unfold toRange Range.Has Holds
    simp only [frameSize_eq, List.not_mem_nil, false_and, exists_false, or_false]
    omega
  · simp only
    omega
  · simp only
    omega

/-! ### Pages go missing -/

/-- A free address that is neither handed out nor in a part of the cut block is lost. -/
theorem not_took_of_gap (parts : List VMemMapBlock) {s' : State} {c : VMemMapBlock}
    {rest : List VMemMapBlock} {p : Nat} (a : Nat) (h : WellFormed s)
    (hold : (free s).Perm (c :: rest)) (hnew : (free s').Perm (parts ++ rest))
    (hc : (toRange c).Has a) (hr : ¬ (Range.mk p (pages * frameSize)).Has a)
    (hparts : ∀ b ∈ parts, ¬ (toRange b).Has a) : ¬ Took s p pages s' := by
  intro ht
  have hpacked : Packed (toRange c :: rest.map toRange) :=
    (packed_perm (hold.map toRange)).mp h.packed
  have hfree : Holds (freeRanges s) a := by
    unfold freeRanges
    rw [holds_perm (hold.map toRange) a, List.map_cons, holds_cons]
    exact .inl hc
  have hkept := (ht.exact a).mpr ⟨hfree, hr⟩
  unfold freeRanges at hkept
  rw [holds_perm (hnew.map toRange) a] at hkept
  obtain ⟨r, hmem, hra⟩ := hkept
  obtain ⟨b, hb, rfl⟩ := List.mem_map.mp hmem
  rcases List.mem_append.mp hb with hb | hb
  · exact hparts b hb hra
  · have hd := (packed_cons.mp hpacked).1 (toRange b) (List.mem_map_of_mem hb)
    unfold Range.Disj at hd
    unfold Range.Has at hc hra
    omega

/-- A range that starts above the zone was never free. -/
theorem not_took_above (h : WellFormed s) {s' : State} {p : Nat} (h1 : 1 ≤ pages)
    (hp : 0x7FFF000000 ≤ p) : ¬ Took s p pages s' := by
  intro ht
  obtain ⟨r, hr, hra⟩ := ht.contained p ⟨Nat.le_refl _, by simp only [frameSize_eq]; omega⟩
  obtain ⟨b, hb, rfl⟩ := List.mem_map.mp hr
  have hz := (h.inZone b hb).1.2
  rw [userZone_values] at hz
  unfold Range.Has at hra
  simp only at hz hra
  omega

theorem free_expand (s : State) : free (expand s) = free s := by
  unfold free
  rw [expand_blocks, expand_storedBlocks]

/-- `nullptr` and the old list. -/
theorem keeps_null {s' : State} (h : free s' = free s) : KeepsPartition s pages (0, s') := by
  unfold KeepsPartition
  rw [if_pos rfl]
  exact h

/-- Only the list of the new state counts. -/
theorem keeps_congr {s₁ s₂ : State} {p : Nat} (hb : s₁.blocks = s₂.blocks)
    (hn : s₁.ctx.storedBlocks = s₂.ctx.storedBlocks) :
    KeepsPartition s pages (p, s₁) ↔ KeepsPartition s pages (p, s₂) := by
  have hfree : free s₁ = free s₂ := by
    unfold free
    rw [hb, hn]
  have hranges : freeRanges s₁ = freeRanges s₂ := by
    unfold freeRanges
    rw [hfree]
  unfold KeepsPartition
  simp only [hfree]
  split
  · exact Iff.rfl
  · constructor
    · intro ht
      exact ⟨ht.contained, hranges ▸ ht.exact, hranges ▸ ht.packed, hfree ▸ ht.nonEmpty,
        hb ▸ hn ▸ ht.ordered⟩
    · intro ht
      exact ⟨ht.contained, hranges.symm ▸ ht.exact, hranges.symm ▸ ht.packed, hfree.symm ▸ ht.nonEmpty,
        hb.symm ▸ hn.symm ▸ ht.ordered⟩

/-! ## The hint path -/

section
variable {hint i : Nat}

theorem Found.block (h : WellFormed s) (ha : Admitted s pages) (hf : Found s pages hint i) :
    i < s.ctx.storedBlocks ∧
      (s.blocks i).virtualStart + (s.blocks i).availablePages * 4096 ≤ 0x7FFF000000 ∧
      blockEnd (s.blocks i) = (s.blocks i).virtualStart + (s.blocks i).availablePages * 4096 := by
  have hi : i < s.ctx.storedBlocks := Nat.lt_of_le_of_lt hf.index ha.index
  have hz := (h.block hi).2
  refine ⟨hi, hz, ?_⟩
  unfold blockEnd
  rw [frameSize_eq, Word.mul_eq (by omega), Word.add_eq (by omega)]

/-- The front of the block is cut. -/
theorem keeps_hintCore (h : WellFormed s) (ha : Admitted s pages) (hf : Found s pages hint i)
    (hstart : (s.blocks i).virtualStart ≠ 0) :
    KeepsPartition s pages (allocateHintCore s i pages true) ↔ CutOrdered s i pages := by
  obtain ⟨hi, hz, -⟩ := hf.block h ha
  have hmore := hf.more
  refine keeps_cut h hi hmore (Word.sub_eq (Nat.le_of_lt hmore)) hstart (.inl ⟨?_, rfl⟩)
  change Word.add _ (Word.mul pages frameSize) = _
  rw [ha.bytes, Word.add_eq (by omega)]

/-- A hint that starts inside a block, at least a page behind its start, and whose end does
not wrap: the block ends behind the hinted range. -/
theorem Found.inside (h : WellFormed s) (ha : Admitted s pages) (hf : Found s pages hint i)
    (hin : (s.blocks i).virtualStart + 4096 ≤ hint) (hlt : hint < 0x7FFF000000) :
    hintEnd hint pages = hint + pages * 4096 ∧
      hint + pages * 4096 ≤ (s.blocks i).virtualStart + (s.blocks i).availablePages * 4096 := by
  obtain ⟨hi, hz, hend⟩ := hf.block h ha
  have hsmall := ha.small
  have he : hintEnd hint pages = hint + pages * 4096 := by
    unfold hintEnd
    rw [ha.bytes, Word.add_eq (by omega)]
  refine ⟨he, ?_⟩
  rcases hf.near with ⟨-, hle⟩ | hle
  · rw [he, hend] at hle
    exact hle
  · omega

/-- A hint above the zone is only found when its range wraps, and then pages seem to be left
on both sides. -/
theorem Found.wrapped (h : WellFormed s) (ha : Admitted s pages) (hf : Found s pages hint i)
    (hin : (s.blocks i).virtualStart + 4096 ≤ hint) (hge : 0x7FFF000000 ≤ hint) (h64 : hint < 2 ^ 64) :
    (nextBlock (s.blocks i) hint pages).availablePages ≠ 0 := by
  obtain ⟨hi, hz, hend⟩ := hf.block h ha
  have h1 := ha.first
  have hsmall := ha.small
  have hmore := hf.more
  have haligned := hf.hint_aligned
  have hwrap : hintEnd hint pages = (hint + pages * 4096) % 2 ^ 64 := by
    unfold hintEnd
    rw [ha.bytes]
    rfl
  have hle : hintEnd hint pages ≤ blockEnd (s.blocks i) := by
    rcases hf.near with hle | hle
    · exact hle.2
    · omega
  unfold nextBlock
  simp only [frameSize_eq]
  rw [Word.sub_eq hle]
  rw [hend] at hle ⊢
  have hlow : hintEnd hint pages < pages * 4096 := by omega
  generalize hintEnd hint pages = w at hlow hle
  omega

/-- The end of the block is cut: exact when the block is on the page grid. -/
theorem keeps_atEnd (h : WellFormed s) (ha : Admitted s pages) (hf : Found s pages hint i)
    (hin : (s.blocks i).virtualStart + 4096 ≤ hint) (hlt : hint < 0x7FFF000000)
    (hend : (s.blocks i).virtualStart + (s.blocks i).availablePages * 4096 <
      hint + pages * 4096 + 4096) :
    KeepsPartition s pages (hint, afterCut s i pages (prevBlock (s.blocks i) hint)) ↔
      (s.blocks i).virtualStart % frameSize = 0 ∧ CutOrdered s i pages := by
  obtain ⟨hi, -, -⟩ := hf.block h ha
  have hpos := hf.hint_pos
  have haligned := hf.hint_aligned
  have hmore := hf.more
  have hfits := (hf.inside h ha hin hlt).2
  have hprev : prevBlock (s.blocks i) hint =
      ⟨(s.blocks i).virtualStart, (hint - (s.blocks i).virtualStart) / 4096⟩ := by
    unfold prevBlock
    rw [Word.sub_eq (by omega), frameSize_eq]
  rw [hprev]
  rw [frameSize_eq]
  by_cases hgrid : (s.blocks i).virtualStart % 4096 = 0
  · rw [and_iff_right hgrid]
    refine keeps_cut h hi hmore ?_ (by omega) (.inr ⟨rfl, ?_⟩)
    · simp only
      omega
    · simp only
      omega
  · refine iff_of_false ?_ (fun hc => hgrid hc.1)
    obtain ⟨rest, hold, hnew⟩ := afterCut_free h hi pages
      ⟨(s.blocks i).virtualStart, (hint - (s.blocks i).virtualStart) / 4096⟩
    unfold KeepsPartition
    rw [if_neg (by simp only; omega)]
    -- the address behind the rounded part
    refine not_took_of_gap [_] ((s.blocks i).virtualStart +
      (hint - (s.blocks i).virtualStart) / 4096 * 4096) h hold hnew ?_ ?_ ?_
    · unfold toRange Range.Has
      simp only [frameSize_eq]
      omega
    · unfold Range.Has
      simp only [frameSize_eq]
      omega
    · intro b hb
      rw [List.mem_singleton.mp hb]
      unfold toRange Range.Has
      simp only [frameSize_eq]
      omega

/-- The middle of the block is cut: exact when the block is on the page grid. -/
theorem keeps_inMiddle (h : WellFormed s) (ha : Admitted s pages) (hf : Found s pages hint i)
    (hin : (s.blocks i).virtualStart + 4096 ≤ hint) (hlt : hint < 0x7FFF000000)
    (hend : hint + pages * 4096 + 4096 ≤
      (s.blocks i).virtualStart + (s.blocks i).availablePages * 4096) :
    KeepsPartition s pages (hint, storeSplit s i pages (prevBlock (s.blocks i) hint)
      (nextBlock (s.blocks i) hint pages)) ↔ (s.blocks i).virtualStart % frameSize = 0 := by
  obtain ⟨hi, -, hblockEnd⟩ := hf.block h ha
  have hpos := hf.hint_pos
  have haligned := hf.hint_aligned
  obtain ⟨hhintEnd, hfits⟩ := hf.inside h ha hin hlt
  have hprev : prevBlock (s.blocks i) hint =
      ⟨(s.blocks i).virtualStart, (hint - (s.blocks i).virtualStart) / 4096⟩ := by
    unfold prevBlock
    rw [Word.sub_eq (by omega), frameSize_eq]
  have hnext : nextBlock (s.blocks i) hint pages = ⟨hint + pages * 4096,
      ((s.blocks i).virtualStart + (s.blocks i).availablePages * 4096 -
        (hint + pages * 4096)) / 4096⟩ := by
    unfold nextBlock
    rw [hhintEnd, hblockEnd, Word.sub_eq hfits, frameSize_eq]
  rw [hprev, hnext]
  rw [frameSize_eq]
  by_cases hgrid : (s.blocks i).virtualStart % 4096 = 0
  · exact iff_of_true (keeps_split h hi (by omega) (by omega) (by omega) (by omega) (by omega)) hgrid
  · refine iff_of_false ?_ hgrid
    obtain ⟨rest, hold, hnew⟩ := storeSplit_free h hi pages
      ⟨(s.blocks i).virtualStart, (hint - (s.blocks i).virtualStart) / 4096⟩
      ⟨hint + pages * 4096, ((s.blocks i).virtualStart + (s.blocks i).availablePages * 4096 -
        (hint + pages * 4096)) / 4096⟩
    unfold KeepsPartition
    rw [if_neg (by simp only; omega)]
    refine not_took_of_gap [_, _] ((s.blocks i).virtualStart +
      (hint - (s.blocks i).virtualStart) / 4096 * 4096) h hold hnew ?_ ?_ ?_
    · unfold toRange Range.Has
      simp only [frameSize_eq]
      omega
    · unfold Range.Has
      simp only [frameSize_eq]
      omega
    · intro b hb
      unfold toRange Range.Has
      simp only [frameSize_eq]
      rcases List.mem_cons.mp hb with rfl | hb
      · simp only
        omega
      · rw [List.mem_singleton.mp hb]
        simp only
        omega

theorem prevBlock_pages (hle : (s.blocks i).virtualStart ≤ hint) :
    (prevBlock (s.blocks i) hint).availablePages = (hint - (s.blocks i).virtualStart) / 4096 := by
  unfold prevBlock
  rw [Word.sub_eq hle, frameSize_eq]

theorem nextBlock_pages (h : WellFormed s) (ha : Admitted s pages) (hf : Found s pages hint i)
    (hin : (s.blocks i).virtualStart + 4096 ≤ hint) (hlt : hint < 0x7FFF000000) :
    (nextBlock (s.blocks i) hint pages).availablePages =
      ((s.blocks i).virtualStart + (s.blocks i).availablePages * 4096 -
        (hint + pages * 4096)) / 4096 := by
  obtain ⟨-, -, hblockEnd⟩ := hf.block h ha
  obtain ⟨hhintEnd, hfits⟩ := hf.inside h ha hin hlt
  unfold nextBlock
  rw [hhintEnd, hblockEnd, Word.sub_eq hfits, frameSize_eq]

/-- The split branch, with the outcome of the expansion. -/
theorem keeps_splitBranch {Q : Prop} {expanded : Bool}
    (hsplit : KeepsPartition s pages (hint, storeSplit s i pages (prevBlock (s.blocks i) hint)
      (nextBlock (s.blocks i) hint pages)) ↔ Q)
    (hle : (s.blocks i).virtualStart ≤ hint)
    (hprev : (prevBlock (s.blocks i) hint).availablePages ≠ 0)
    (hnext : (nextBlock (s.blocks i) hint pages).availablePages ≠ 0) :
    KeepsPartition s pages (allocateAtHint s i pages hint true expanded) ↔
      Q ∨ (s.ctx.availableBlockMemory = 0 ∧ expanded = false) := by
  unfold allocateAtHint
  simp only [if_pos hle, if_neg hprev, if_neg hnext, Bool.not_true, Bool.false_eq_true, if_false]
  by_cases habm : s.ctx.availableBlockMemory = 0
  · cases expanded with
    | false =>
      simp only [habm, Bool.not_false, if_true, and_self, or_true, iff_true]
      exact keeps_null rfl
    | true =>
      simp only [habm, Bool.not_true, Bool.false_eq_true, if_false, if_true, Bool.true_eq_false,
        and_false, or_false]
      rw [← hsplit]
      apply keeps_congr
      · simp only [storeSplit, expand_blocks, expand_storedBlocks]
      · simp only [storeSplit, expand_storedBlocks]
  · simp only [habm, if_false, false_and, or_false]
    exact hsplit

theorem keeps_atHint (h : WellFormed s) (ha : Admitted s pages) (hf : Found s pages hint i)
    (h64 : hint < 2 ^ 64) (expanded : Bool) :
    KeepsPartition s pages (allocateAtHint s i pages hint true expanded) ↔
      AtHintOk s i pages hint expanded := by
  have hpos := hf.hint_pos
  have haligned := hf.hint_aligned
  unfold AtHintOk
  simp only [userMemory_end]
  by_cases hfront : hint < (s.blocks i).virtualStart + frameSize
  · -- no whole page in front of the hint, or the block is above it
    rw [if_pos hfront]
    rw [frameSize_eq] at hfront
    rw [← keeps_hintCore h ha hf (by omega)]
    unfold allocateAtHint
    by_cases hle : (s.blocks i).virtualStart ≤ hint
    · simp only [if_pos hle]
      rw [if_pos]
      rw [prevBlock_pages hle]
      omega
    · simp only [if_neg hle]
  · rw [if_neg hfront]
    rw [frameSize_eq] at hfront
    have hin : (s.blocks i).virtualStart + 4096 ≤ hint := by omega
    have hle : (s.blocks i).virtualStart ≤ hint := by omega
    have hprev : (prevBlock (s.blocks i) hint).availablePages ≠ 0 := by
      rw [prevBlock_pages hle]
      omega
    by_cases hhigh : 0x7FFF000000 ≤ hint
    · rw [if_pos hhigh, ← false_or (_ ∧ _)]
      refine keeps_splitBranch (iff_of_false ?_ id) hle hprev (hf.wrapped h ha hin hhigh h64)
      unfold KeepsPartition
      rw [if_neg (by simp only; omega)]
      exact not_took_above h ha.first hhigh
    · rw [if_neg hhigh]
      have hlt : hint < 0x7FFF000000 := by omega
      have hnext := nextBlock_pages h ha hf hin hlt
      have hfits := (hf.inside h ha hin hlt).2
      by_cases hback : (s.blocks i).virtualStart + (s.blocks i).availablePages * frameSize <
          hint + pages * frameSize + frameSize
      · rw [if_pos hback]
        rw [frameSize_eq] at hback
        rw [← keeps_atEnd h ha hf hin hlt hback]
        unfold allocateAtHint
        simp only [if_pos hle, if_neg hprev]
        rw [if_pos]
        · simp only [Bool.not_true, Bool.false_eq_true, if_false]
        · rw [hnext]
          omega
      · rw [if_neg hback]
        rw [frameSize_eq] at hback
        refine keeps_splitBranch (keeps_inMiddle h ha hf hin hlt (by omega)) hle hprev ?_
        rw [hnext]
        omega

end

/-! ## The fall-through cut -/

/-- All pages of the selected block: it leaves the list, unless one block is behind it. -/
theorem keeps_exhaust (h : WellFormed s) (ha : Admitted s pages)
    (hall : (s.blocks (selectIndex s pages)).availablePages = pages) {vm : State}
    (hblocks : vm.blocks = sortVirtualMemoryMap (setAt s.blocks (selectIndex s pages)
      ⟨(s.blocks (selectIndex s pages)).virtualStart, 0⟩) (selectIndex s pages)
      (s.ctx.storedBlocks - selectIndex s pages))
    (hstored : vm.ctx.storedBlocks = s.ctx.storedBlocks - 1) :
    KeepsPartition s pages ((s.blocks (selectIndex s pages)).virtualStart, vm) ↔
      CutOrdered s (selectIndex s pages) pages ∧ s.blocks (selectIndex s pages) ≠ ⟨0, pages⟩ := by
  have hi := ha.index
  have hlen : ∀ r : State, (free r).length = r.ctx.storedBlocks := by
    intro r
    simp [free, stored]
  have hshorter : free vm ≠ free s := by
    intro he
    have := congrArg List.length he
    rw [hlen, hlen] at this
    omega
  generalize hidx : selectIndex s pages = i at *
  by_cases hn : i + 2 = s.ctx.storedBlocks
  · -- the exhausted entry stays, the last block is dropped
    have hlast := (h.block (i := i + 1) (by omega)).1
    refine iff_of_false ?_ fun hc => ?_
    · unfold KeepsPartition
      split
      · exact hshorter
      · intro ht
        have hzero : (vm.blocks i).availablePages = 0 := by
          rw [hblocks, sortVirtualMemoryMap, if_neg (by omega)]
          simp [setAt]
        have hpos := ht.nonEmpty (vm.blocks i)
          (List.mem_map.mpr ⟨i, List.mem_range.mpr (by simp only; omega), rfl⟩)
        omega
    · have := hc.1 hn
      omega
  · have hordered : CutOrdered s i pages := fun he => absurd he hn
    rw [and_iff_right hordered]
    by_cases hzero : (s.blocks i).virtualStart = 0
    · -- the pointer of the range is `nullptr`
      refine iff_of_false ?_ fun hc => hc ?_
      · unfold KeepsPartition
        rw [if_pos hzero]
        exact hshorter
      · rw [← hzero, ← hall]
    · refine iff_of_true ?_ fun he => hzero (congrArg VMemMapBlock.virtualStart he)
      obtain ⟨rest, hold, hset⟩ := stored_setAt s.blocks hi
      have hnew : (free vm).Perm rest := by
        unfold free
        rw [hstored, hblocks]
        exact stored_exhausted rfl hi hn (fun j _ hj => (h.block hj).1) (hset _)
      have hdesc : Descending vm.blocks vm.ctx.storedBlocks := by
        rw [hstored, hblocks]
        exact (sort_ordered h.ordered hi (Nat.zero_le _) fun he => absurd he hn).mono (Nat.sub_le _ _)
      unfold KeepsPartition
      rw [if_neg hzero]
      refine took_of_cut [] h hold hnew List.Pairwise.nil (fun b hb => by cases hb)
        (fun b hb => by cases hb) ?_ ?_ hdesc
      · unfold toRange Range.Sub
        simp only [frameSize_eq]
        omega
      · intro a
        refine iff_of_false (fun hn => by obtain ⟨r, hr, -⟩ := hn; cases hr) ?_
        rintro ⟨hc, hr⟩
        apply hr
        unfold toRange Range.Has at hc
        rw [hall] at hc
        exact hc

/-- The end of the selected block is cut. -/
theorem keeps_fallThrough (h : WellFormed s) (ha : Admitted s pages) :
    KeepsPartition s pages ((allocateCore s pages true).1.getD 0, (allocateCore s pages true).2) ↔
      CutOrdered s (selectIndex s pages) pages ∧ s.blocks (selectIndex s pages) ≠ ⟨0, pages⟩ := by
  have hi := ha.index
  have hfits := ha.fits _ (Nat.le_refl _)
  have h1 := ha.first
  have hmemory := ha.memory
  have hz := (h.block hi).2
  have hadmit : ¬ (s.ctx.availableMemory < Word.mul pages frameSize ∨
      (s.blocks 0).availablePages < pages) := by
    have := ha.fits 0 (Nat.zero_le _)
    rw [ha.bytes]
    omega
  have hsub : Word.sub s.ctx.storedBlocks (selectIndex s pages) =
      s.ctx.storedBlocks - selectIndex s pages := Word.sub_eq (Nat.le_of_lt hi)
  obtain ⟨vm, hcall, hblocks, hstored, -⟩ := allocateCore_mapped hadmit (by omega) rfl
  rw [Word.sub_eq hfits] at hcall hblocks hstored
  rw [frameSize_eq, Word.mul_eq (by omega), Word.add_eq (by omega)] at hcall
  rw [hsub] at hblocks
  rw [hcall, Option.getD_some]
  by_cases hall : (s.blocks (selectIndex s pages)).availablePages = pages
  · rw [hall, Nat.sub_self] at hblocks hstored ⊢
    rw [if_pos rfl, Word.sub_eq (by omega)] at hstored
    rw [Nat.zero_mul, Nat.add_zero]
    exact keeps_exhaust h ha hall hblocks hstored
  · rw [if_neg (by omega)] at hstored
    have hne : s.blocks (selectIndex s pages) ≠ ⟨0, pages⟩ :=
      fun he => hall (congrArg VMemMapBlock.availablePages he)
    rw [and_iff_left hne, ← keeps_cut h hi (p := (s.blocks (selectIndex s pages)).virtualStart +
      ((s.blocks (selectIndex s pages)).availablePages - pages) * 4096)
      (x := ⟨(s.blocks (selectIndex s pages)).virtualStart,
        (s.blocks (selectIndex s pages)).availablePages - pages⟩) (by omega) rfl (by omega)
      (.inr ⟨rfl, rfl⟩)]
    apply keeps_congr
    · rw [hblocks, ← hsub]
      rfl
    · exact hstored

/-! ## A call -/

theorem keeps_atHint_unmapped (i hint : Nat) (expanded : Bool) :
    KeepsPartition s pages (allocateAtHint s i pages hint false expanded) := by
  unfold allocateAtHint allocateHintCore
  simp only [Bool.not_false, if_true]
  split
  · split
    · exact keeps_null rfl
    · split
      · exact keeps_null rfl
      · split
        · cases expanded with
          | false => exact keeps_null rfl
          | true =>
            -- the page that was added stays, the list does not change
            exact keeps_null (free_expand s)
        · exact keeps_null rfl
  · exact keeps_null rfl

/-- A call whose mapping fails returns `nullptr` and the old list. -/
theorem keeps_unmapped (h : WellFormed s) (ha : Admitted s pages) (hint : Nat) (expanded : Bool) :
    KeepsPartition s pages (allocateUserPagesAt s pages hint false expanded) := by
  have hfits := ha.fits _ (Nat.le_refl _)
  have hz := (h.block ha.index).2
  unfold allocateUserPagesAt
  split
  · exact keeps_null rfl
  · rename_i hadmit
    split
    · exact keeps_null rfl
    · rename_i h0
      split
      · exact keeps_atHint_unmapped _ hint expanded
      · have hsame : setAt s.blocks (selectIndex s pages)
            ⟨(s.blocks (selectIndex s pages)).virtualStart,
              Word.add (Word.sub (s.blocks (selectIndex s pages)).availablePages pages) pages⟩ =
            s.blocks := by
          rw [Word.add_sub_cancel (by omega) (by omega)]
          funext j
          unfold setAt
          split
          · rename_i hj
            rw [hj]
          · rfl
        unfold allocateCore
        simp only [if_neg hadmit, if_neg h0, Bool.not_false, if_true, Option.getD_none]
        apply keeps_null
        unfold free
        simp only [hsame]

theorem keeps_iff (h : WellFormed s) {hint : Nat} (h64 : hint < 2 ^ 64) (mapOk expanded : Bool) :
    KeepsPartition s pages (allocateUserPagesAt s pages hint mapOk expanded) ↔
      HintOk s pages hint mapOk expanded := by
  unfold HintOk
  by_cases hreq : 1 ≤ pages ∧ pages ≤ (s.blocks 0).availablePages
  · have ha := h.admitted hreq.1 hreq.2
    cases mapOk with
    | false => exact iff_of_true (keeps_unmapped h ha hint expanded) fun hm => by cases hm
    | true =>
      have hmemory := ha.memory
      have hadmit : ¬ (s.ctx.availableMemory < Word.mul pages frameSize ∨
          (s.blocks 0).availablePages < pages) := by
        rw [ha.bytes]
        omega
      rw [allocateUserPagesAt, if_neg hadmit, if_neg (by omega)]
      simp only [hreq.1, hreq.2, true_imp_iff]
      cases hi : hintIndex s pages hint with
      | some i => exact keeps_atHint h ha (h.found ha hi) h64 expanded
      | none => exact keeps_fallThrough h ha
  · refine iff_of_true ?_ fun _ h1 hle => absurd ⟨h1, hle⟩ hreq
    unfold allocateUserPagesAt
    split
    · exact keeps_null rfl
    · split
      · exact keeps_null rfl
      · omega

/-- A call of `AllocateUserPagesAt` on a well-formed list keeps the partition exactly under
`HintOk`, for every hint, page count and outcome of the paging calls. -/
theorem keepsPartition_iff (s : State) (h : WellFormed s) (pages hint : UInt64)
    (mapOk expanded : Bool) :
    KeepsPartition s pages.toNat
        (allocateUserPagesAt s pages.toNat hint.toNat mapOk expanded) ↔
      HintOk s pages.toNat hint.toNat mapOk expanded :=
  keeps_iff h hint.toNat_lt mapOk expanded

/-- Sixteen pages at 32 MiB. -/
def oneBlock : State where
  ctx := { availableMemory := 0x10000, availableBlockMemory := 0xFE0, storedBlocks := 1 }
  blocks := setAt (fun _ => ⟨0, 0⟩) 0 ⟨0x2000000, 16⟩
  blockPages := fun p => p == 0

theorem wellFormed_oneBlock : WellFormed oneBlock where
  inZone := by decide
  packed := List.pairwise_singleton _ _
  ordered i j hij hj := by
    have e : oneBlock.ctx.storedBlocks = 1 := rfl
    obtain rfl : i = j := by omega
    exact Nat.le_refl _
  counted := by decide
  bounded := by decide
  emptied h := by cases h

/-- Two pages out of the middle. -/
theorem keepsPartition_middle :
    WellFormed oneBlock ∧ KeepsPartition oneBlock 2 (allocateUserPagesAt oneBlock 2 0x2004000 true true) :=
  ⟨wellFormed_oneBlock,
    (keepsPartition_iff oneBlock wellFormed_oneBlock 2 0x2004000 true true).mpr (by decide)⟩

/-- The last page of the address space is handed out from a block at 32 MiB. -/
theorem wrapped_hint : WellFormed oneBlock ∧
    ¬ KeepsPartition oneBlock 1 (allocateUserPagesAt oneBlock 1 0xFFFFFFFFFFFFF000 true true) := by
  refine ⟨wellFormed_oneBlock, fun hk => ?_⟩
  exact absurd ((keeps_iff wellFormed_oneBlock (by decide) true true).mp hk) (by decide)

end

end BadLands.Mm.UserPages
