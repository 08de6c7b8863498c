import BadLands.Devices.GptFetcher

/-!
# GPT: geometries whose entries are fetched

The first refill is for the entry behind those that fit into the cache. It moves the cache on by
`stride` blocks; if an entry starts there, so it does at every later refill, one stride after
another. Else the first refill misplaces the cache. Two things interfere. A cache of one block
may hold the start of one entry more, which is read in place when nothing of it is missing. And
once the end of the cache has no 64-bit offset any more, the cache is refilled for every entry, and
is misplaced as soon as an entry starts in the next block (`reach`).

`fetcher_delivers_iff` is the result: the fetcher works exactly for the `Regular` geometries.
-/
namespace BadLands.Devices.Gpt

open BadLands.Core

namespace Geometry

/-- The block in which the first entry behind a cache of `C` blocks starts. -/
def stride (G : Geometry) (C : Nat) : Nat := G.cacheEntries C * G.size / G.blockSize

/-- The entries in a stride. -/
def strideEntries (G : Geometry) (C : Nat) : Nat := G.stride C * G.blockSize / G.size

/-- The strides after which the end of the cache is at `2 ^ 64` or behind. -/
def strides (G : Geometry) (C : Nat) : Nat :=
  (2 ^ 64 - C * G.blockSize + G.stride C * G.blockSize - 1) / (G.stride C * G.blockSize)

/-- The entries before the first that starts in the second block of that cache. -/
def reach (G : Geometry) (C : Nat) : Nat :=
  G.strides C * G.strideEntries C + (G.blockSize + G.size - 1) / G.size

/-- Entries fill blocks; or all fit into the cache; or an entry starts where the cache is moved
to, and the array ends in time; or the cache is one block, and the one entry too many lies in it. -/
def Regular (G : Geometry) (C : Nat) : Prop :=
  0 < C ∧ (G.size ∣ G.blockSize ∨ G.count ≤ G.cacheEntries C ∨
    (0 < G.stride C ∧ G.size ∣ G.stride C * G.blockSize ∧ G.count ≤ G.reach C) ∨
    (G.stride C = 0 ∧ G.count = G.cacheEntries C + 1 ∧ G.cacheEntries C * G.size + 128 ≤ G.blockSize))

section
variable {G : Geometry} {C k j : Nat}

/-! ## The first cache -/

theorem lt_cacheEntries_mul (G : Geometry) (C : Nat) :
    C * G.blockSize < G.cacheEntries C * G.size + G.size :=
  Nat.lt_div_mul_add G.size_pos

theorem cacheEntries_pos (hC : 0 < C) : 0 < G.cacheEntries C := by
  have hb : G.blockSize ≤ C * G.blockSize := Nat.le_mul_of_pos_left _ hC
  have hlast := G.lt_cacheEntries_mul C
  have hle := G.size_le
  apply Nat.pos_of_ne_zero
  intro hz
  rw [hz] at hlast
  omega

theorem before_start (hC : C * G.blockSize < 2 ^ 64) (k : Nat) : k ≤ G.cacheEntries C → G.before C k = (0, 0) := by
  induction k with
  | zero =>
    intro _
    rfl
  | succ k ih =>
    intro hk
    have hno : G.refills C k (0, 0) = false := by
      unfold refills
      simp only [Nat.zero_add, Nat.zero_mul, Bool.or_eq_false_iff, decide_eq_false_iff_not]
      omega
    rw [before, ih (by omega), move, hno, if_neg (by decide)]

theorem placed_start (hC : C * G.blockSize < 2 ^ 64) (hk : k < G.cacheEntries C) : G.placed C k = (0, 0) :=
  before_start hC (k + 1) hk

/-- The entry behind the first cache. -/
theorem placed_behind (hC : C * G.blockSize < 2 ^ 64) : G.placed C (G.cacheEntries C) =
    (G.stride C * G.blockSize / G.size, G.stride C) := by
  have hyes : G.refills C (G.cacheEntries C) (0, 0) = true := by
    unfold refills
    simp
  rw [placed, before_start hC _ (Nat.le_refl _), move, hyes, if_pos rfl]
  rfl

theorem good_inside {p : Nat × Nat} (hstart : p.1 * G.size = p.2 * G.blockSize) (hk : k < p.1 + G.cacheEntries C)
    (hp : p.1 ≤ k) : G.Good C k p := by
  refine ⟨hstart, ?_⟩
  have hle := G.cacheEntries_mul_le C
  have hsize := G.size_ge
  have hstep : (k - p.1 + 1) * G.size ≤ G.cacheEntries C * G.size := Nat.mul_le_mul_right _ (by omega)
  rw [Nat.add_mul, Nat.one_mul] at hstep
  omega

/-! ## Entries that fill blocks -/

theorem good_of_dvd (hC : 0 < C) (hdvd : G.size ∣ G.blockSize) (k : Nat) :
    (G.before C k).1 * G.size = (G.before C k).2 * G.blockSize ∧ G.Good C k (G.placed C k) := by
  have hgood : ∀ k, (G.before C k).1 * G.size = (G.before C k).2 * G.blockSize →
      G.Good C k (G.placed C k) := by
    intro k hstart
    unfold placed move
    split
    · have hq : k * G.size / G.blockSize * G.blockSize / G.size * G.size =
          k * G.size / G.blockSize * G.blockSize :=
        Nat.div_mul_cancel (Nat.dvd_mul_left_of_dvd hdvd _)
      refine ⟨hq, ?_⟩
      dsimp only
      obtain ⟨t, ht⟩ := hdvd
      have hsize := G.size_ge
      have hb : G.blockSize ≤ C * G.blockSize := Nat.le_mul_of_pos_left _ hC
      have hpos : 0 < t := by
        apply Nat.pos_of_ne_zero
        rintro rfl
        have := G.blockSize_pos
        omega
      have hmod : k * G.size % G.blockSize = G.size * (k % t) := by
        rw [ht, Nat.mul_comm k, Nat.mul_mod_mul_left]
      have hrem : G.size * (k % t) + G.size ≤ G.blockSize := by
        have hlt := Nat.mod_lt k hpos
        have := Nat.mul_le_mul_left G.size (show k % t + 1 ≤ t by omega)
        rw [Nat.mul_add, Nat.mul_one, ← ht] at this
        exact this
      have hsplit := Nat.div_add_mod (k * G.size) G.blockSize
      rw [Nat.sub_mul, hq, Nat.mul_comm (k * G.size / G.blockSize)]
      omega
    · rename_i hno
      unfold refills at hno
      simp only [Bool.or_eq_true, decide_eq_true_eq, not_or] at hno
      exact good_inside hstart (by omega) (before_le k)
  induction k with
  | zero => exact ⟨by simp [before], hgood 0 (by simp [before])⟩
  | succ k ih =>
    have hstart : (G.before C (k + 1)).1 * G.size = (G.before C (k + 1)).2 * G.blockSize := ih.2.1
    exact ⟨hstart, hgood (k + 1) hstart⟩

/-! ## Stride after stride -/

theorem stride_mul_le (G : Geometry) (C : Nat) : G.stride C * G.blockSize ≤ G.cacheEntries C * G.size :=
  Nat.div_mul_le_self _ _

theorem lt_stride_mul (G : Geometry) (C : Nat) :
    G.cacheEntries C * G.size < G.stride C * G.blockSize + G.blockSize :=
  Nat.lt_div_mul_add G.blockSize_pos

theorem strideEntries_mul (hdvd : G.size ∣ G.stride C * G.blockSize) :
    G.strideEntries C * G.size = G.stride C * G.blockSize :=
  Nat.div_mul_cancel hdvd

theorem strideEntries_pos (hS : 0 < G.stride C) (hdvd : G.size ∣ G.stride C * G.blockSize) :
    0 < G.strideEntries C := by
  have hmul := strideEntries_mul hdvd
  have hb : 0 < G.stride C * G.blockSize := Nat.mul_pos hS G.blockSize_pos
  apply Nat.pos_of_ne_zero
  intro hz
  rw [hz, Nat.zero_mul] at hmul
  omega

theorem strideEntries_le (hdvd : G.size ∣ G.stride C * G.blockSize) : G.strideEntries C ≤ G.cacheEntries C := by
  apply Nat.le_of_mul_le_mul_right _ G.size_pos
  rw [strideEntries_mul hdvd]
  exact G.stride_mul_le C

/-- The cache after `j` strides. -/
def after (G : Geometry) (C j : Nat) : Nat × Nat := (j * G.strideEntries C, j * G.stride C)

theorem after_start (hdvd : G.size ∣ G.stride C * G.blockSize) (j : Nat) :
    (G.after C j).1 * G.size = (G.after C j).2 * G.blockSize := by
  unfold after
  dsimp only
  rw [Nat.mul_assoc, strideEntries_mul hdvd, Nat.mul_assoc]

/-- Where a refill moves the cache to, counted from the `j`-th stride. -/
theorem refilled_after (hdvd : G.size ∣ G.stride C * G.blockSize) (i : Nat) :
    (j * G.strideEntries C + i) * G.size / G.blockSize = j * G.stride C + i * G.size / G.blockSize := by
  have hmul : j * G.strideEntries C * G.size = j * G.stride C * G.blockSize := after_start hdvd j
  rw [Nat.add_mul, hmul, Nat.add_comm, Nat.add_mul_div_right _ _ G.blockSize_pos, Nat.add_comm]

theorem stride_div (hdvd : G.size ∣ G.stride C * G.blockSize) (j : Nat) :
    j * G.stride C * G.blockSize / G.size = j * G.strideEntries C := by
  have hmul : j * G.strideEntries C * G.size = j * G.stride C * G.blockSize := after_start hdvd j
  rw [← hmul, Nat.mul_div_cancel _ G.size_pos]

/-- The strides after which the offsets overflow. -/
theorem strides_le_iff (hS : 0 < G.stride C) (hdvd : G.size ∣ G.stride C * G.blockSize)
    (hC : C * G.blockSize < 2 ^ 64) (j : Nat) :
    G.strides C ≤ j ↔ 2 ^ 64 ≤ (G.after C j).1 * G.size + C * G.blockSize := by
  have hpos : 0 < G.stride C * G.blockSize := Nat.mul_pos hS G.blockSize_pos
  have hj : (G.after C j).1 * G.size = j * (G.stride C * G.blockSize) := by
    rw [after_start hdvd, after, Nat.mul_assoc]
  rw [hj]
  unfold strides
  rw [← Nat.lt_succ_iff, Nat.div_lt_iff_lt_mul hpos, Nat.succ_mul]
  omega

/-- Up to `reach`, every refill moves the cache by whole strides. -/
theorem placed_strides (hpos : 0 < C) (hC : C * G.blockSize < 2 ^ 64) (hS : 0 < G.stride C)
    (hdvd : G.size ∣ G.stride C * G.blockSize) (k : Nat) : k < G.reach C →
    ∃ j, G.placed C k = G.after C j ∧ j * G.strideEntries C ≤ k ∧ k < j * G.strideEntries C + G.cacheEntries C ∧
      (j = 0 ∨ (j - 1) * G.strideEntries C + G.cacheEntries C ≤ k) := by
  have hM := strideEntries_pos hS hdvd
  have hMN := strideEntries_le hdvd
  have hN := cacheEntries_pos (G := G) hpos
  induction k with
  | zero =>
    intro _
    refine ⟨0, ?_, by omega, by omega, .inl rfl⟩
    rw [placed_start hC hN, after, Nat.zero_mul, Nat.zero_mul]
  | succ k ih =>
    intro hk
    obtain ⟨j, hplaced, hlo, hhi, hfirst⟩ := ih (by omega)
    have hbefore : G.before C (k + 1) = G.after C j := hplaced
    rw [placed, hbefore]
    unfold move
    by_cases hbehind : j * G.strideEntries C + G.cacheEntries C ≤ k + 1
    · -- the next stride
      have hat : k + 1 = j * G.strideEntries C + G.cacheEntries C := by omega
      have hyes : G.refills C (k + 1) (G.after C j) = true := by
        unfold refills
        simp only [Bool.or_eq_true, decide_eq_true_eq]
        exact .inl hbehind
      have hq : (k + 1) * G.size / G.blockSize = (j + 1) * G.stride C := by
        rw [hat, refilled_after hdvd, Nat.succ_mul]
        rfl
      refine ⟨j + 1, ?_, ?_, ?_, .inr ?_⟩
      · rw [hyes, if_pos rfl, hq, stride_div hdvd]
        rfl
      · rw [Nat.succ_mul]
        omega
      · rw [Nat.succ_mul]
        omega
      · rw [Nat.add_sub_cancel]
        omega
    · refine ⟨j, ?_, by omega, by omega, ?_⟩
      · split
        · -- the end of the cache has no offset: it is filled with the same blocks
          rename_i hyes
          unfold refills at hyes
          simp only [Bool.or_eq_true, decide_eq_true_eq] at hyes
          have hover : 2 ^ 64 ≤ (G.after C j).1 * G.size + C * G.blockSize := by
            rcases hyes with h | h
            · exact absurd h hbehind
            · exact h
          have hj := (strides_le_iff hS hdvd hC j).mpr hover
          have hle : G.strides C * G.strideEntries C ≤ j * G.strideEntries C := Nat.mul_le_mul_right _ hj
          have hi : (k + 1 - j * G.strideEntries C) * G.size < G.blockSize := by
            unfold reach at hk
            have hlt : k + 1 - j * G.strideEntries C + 1 ≤ (G.blockSize + G.size - 1) / G.size := by omega
            have hmul := Nat.mul_le_mul_right G.size hlt
            have hdiv := Nat.div_mul_le_self (G.blockSize + G.size - 1) G.size
            rw [Nat.add_mul, Nat.one_mul] at hmul
            have := G.size_pos
            omega
          have hq : (k + 1) * G.size / G.blockSize = j * G.stride C := by
            rw [show k + 1 = j * G.strideEntries C + (k + 1 - j * G.strideEntries C) by omega, refilled_after hdvd,
              Nat.div_eq_of_lt hi, Nat.add_zero]
          rw [hq, stride_div hdvd]
          rfl
        · rfl
      · rcases hfirst with h | h
        · exact .inl h
        · exact .inr (by omega)

/-- Behind `reach` the cache starts with the block after the stride, where no entry starts. -/
theorem not_good_reach (hpos : 0 < C) (hC : C * G.blockSize < 2 ^ 64) (hS : 0 < G.stride C)
    (hdvd : G.size ∣ G.stride C * G.blockSize) (hndvd : ¬ G.size ∣ G.blockSize) :
    ¬ G.Good C (G.reach C) (G.placed C (G.reach C)) := by
  have hr := G.size_pos
  have hrb := G.size_le
  have hMr := strideEntries_mul hdvd
  have hNr := G.cacheEntries_mul_le C
  have hSN := G.stride_mul_le C
  have hNS := G.lt_stride_mul C
  -- the cache has two blocks at least
  have htwo : 2 * G.blockSize ≤ C * G.blockSize := by
    apply Nat.mul_le_mul_right
    apply Decidable.byContradiction
    intro hn
    have hone : C = 1 := by omega
    have hb : G.blockSize ≤ G.stride C * G.blockSize := Nat.le_mul_of_pos_left _ hS
    rw [hone, Nat.one_mul] at hNr
    rw [hone] at hSN hb
    exact hndvd ⟨G.cacheEntries 1, by rw [Nat.mul_comm]; omega⟩
  generalize hi : (G.blockSize + G.size - 1) / G.size = i
  have hlo : G.blockSize ≤ i * G.size := by
    have hdiv := Nat.lt_div_mul_add hr (a := G.blockSize + G.size - 1)
    rw [hi] at hdiv
    omega
  have hhi : i * G.size < G.blockSize + G.size := by
    have hdiv := Nat.div_mul_le_self (G.blockSize + G.size - 1) G.size
    rw [hi] at hdiv
    omega
  have hipos : 0 < i := by
    apply Nat.pos_of_ne_zero
    rintro rfl
    have := G.blockSize_pos
    omega
  have hiN : i ≤ G.cacheEntries C := by
    have hlast := G.lt_cacheEntries_mul C
    apply Nat.le_of_lt_succ
    apply Nat.lt_of_mul_lt_mul_right (a := G.size)
    rw [Nat.succ_mul]
    omega
  have hNM : G.cacheEntries C < G.strideEntries C + i := by
    apply Nat.lt_of_mul_lt_mul_right (a := G.size)
    rw [Nat.add_mul]
    omega
  have hreach : G.reach C = G.strides C * G.strideEntries C + i := by
    unfold reach
    rw [hi]
  -- the entry before it is read from the stride where the offsets end
  obtain ⟨j, hplaced, hjlo, hjhi, hfirst⟩ :=
    placed_strides hpos hC hS hdvd (G.reach C - 1) (by omega)
  have hj : j = G.strides C := by
    rcases Nat.lt_trichotomy j (G.strides C) with hlt | heq | hgt
    · have hmul := Nat.mul_le_mul_right (G.strideEntries C) (show j + 1 ≤ G.strides C from hlt)
      rw [Nat.succ_mul] at hmul
      omega
    · exact heq
    · rcases hfirst with h0 | hfirst
      · omega
      · have hmul := Nat.mul_le_mul_right (G.strideEntries C) (show G.strides C ≤ j - 1 by omega)
        omega
  subst hj
  have hbefore : G.before C (G.reach C) = G.after C (G.strides C) := by
    rw [show G.reach C = G.reach C - 1 + 1 by omega]
    exact hplaced
  have hyes : G.refills C (G.reach C) (G.after C (G.strides C)) = true := by
    unfold refills
    simp only [Bool.or_eq_true, decide_eq_true_eq]
    exact .inr ((strides_le_iff hS hdvd hC _).mp (Nat.le_refl _))
  have hq : G.reach C * G.size / G.blockSize = G.strides C * G.stride C + 1 := by
    have hone : i * G.size / G.blockSize = 1 := Nat.div_eq_of_lt_le (by omega) (by omega)
    rw [hreach, refilled_after hdvd, hone]
  rw [placed, hbefore, move, hyes, if_pos rfl, hq]
  rintro ⟨hstart, -⟩
  dsimp only at hstart
  apply hndvd
  have hall : G.size ∣ (G.strides C * G.stride C + 1) * G.blockSize := ⟨_, by rw [← hstart, Nat.mul_comm]⟩
  rw [Nat.add_mul, Nat.one_mul, Nat.mul_assoc] at hall
  exact (Nat.dvd_add_right (Nat.dvd_mul_left_of_dvd hdvd _)).mp hall

/-! ## A cache of one block -/

theorem stride_zero (hpos : 0 < C) (hS : G.stride C = 0) :
    C = 1 ∧ G.cacheEntries C * G.size < G.blockSize ∧ G.blockSize < G.cacheEntries C * G.size + G.size := by
  have hlt := G.lt_stride_mul C
  have hlast := G.lt_cacheEntries_mul C
  have hle := G.size_le
  rw [hS, Nat.zero_mul, Nat.zero_add] at hlt
  have hone : C = 1 := by
    apply Decidable.byContradiction
    intro hn
    have htwo : 2 * G.blockSize ≤ C * G.blockSize := Nat.mul_le_mul_right _ (by omega)
    omega
  rw [hone, Nat.one_mul] at hlast
  rw [hone] at hlt ⊢
  exact ⟨rfl, hlt, hlast⟩

/-- The second entry behind a cache of one block is misplaced. -/
theorem not_good_second (hpos : 0 < C) (hC : C * G.blockSize < 2 ^ 64) (hS : G.stride C = 0) :
    ¬ G.Good C (G.cacheEntries C + 1) (G.placed C (G.cacheEntries C + 1)) := by
  obtain ⟨hone, hlt, hgt⟩ := stride_zero hpos hS
  have hle := G.size_le
  have hbefore : G.before C (G.cacheEntries C + 1) = (0, 0) := by
    change G.placed C (G.cacheEntries C) = (0, 0)
    rw [placed_behind hC, hS, Nat.zero_mul, Nat.zero_div]
  have hyes : G.refills C (G.cacheEntries C + 1) (0, 0) = true := by
    unfold refills
    simp
  have hq : (G.cacheEntries C + 1) * G.size / G.blockSize = 1 := by
    apply Nat.div_eq_of_lt_le
    · rw [Nat.add_mul]
      omega
    · rw [Nat.add_mul]
      omega
  rw [placed, hbefore, move, hyes, if_pos rfl, hq]
  rintro ⟨hstart, -⟩
  dsimp only at hstart
  have hN : 1 * G.blockSize / G.size = G.cacheEntries C := by rw [hone]; rfl
  rw [hN] at hstart
  omega

/-! ## All geometries -/

theorem good_iff_regular (hC : C * G.blockSize < 2 ^ 64) :
    (∀ k, k < G.count → G.Good C k (G.placed C k)) ↔ G.Regular C := by
  constructor
  · intro h
    have hpos : 0 < C := by
      apply Nat.pos_of_ne_zero
      rintro rfl
      have h0 := (h 0 G.count_pos).2
      omega
    refine ⟨hpos, ?_⟩
    by_cases hndvd : G.size ∣ G.blockSize
    · exact .inl hndvd
    by_cases hcount : G.count ≤ G.cacheEntries C
    · exact .inr (.inl hcount)
    -- the first refill
    have hfirst := h (G.cacheEntries C) (by omega)
    rw [placed_behind hC] at hfirst
    obtain ⟨hstart, hfits⟩ := hfirst
    dsimp only at hstart hfits
    have hdvd : G.size ∣ G.stride C * G.blockSize := ⟨_, by rw [← hstart, Nat.mul_comm]⟩
    by_cases hS : G.stride C = 0
    · right; right; right
      obtain ⟨hone, -, -⟩ := stride_zero hpos hS
      rw [hS, Nat.zero_mul, Nat.zero_div, Nat.sub_zero] at hfits
      refine ⟨hS, ?_, ?_⟩
      · apply Decidable.byContradiction
        intro hn
        exact not_good_second hpos hC hS (h _ (by omega))
      · rw [hone, Nat.one_mul] at hfits
        rw [hone]
        exact hfits
    · right; right; left
      have hS' : 0 < G.stride C := Nat.pos_of_ne_zero hS
      refine ⟨hS', hdvd, ?_⟩
      apply Decidable.byContradiction
      intro hn
      exact not_good_reach hpos hC hS' hdvd hndvd (h _ (by omega))
  · rintro ⟨hpos, hwhy⟩ k hk
    rcases hwhy with hdvd | hcount | ⟨hS, hdvd, hreach⟩ | ⟨hS, hcount, hfits⟩
    · exact (good_of_dvd hpos hdvd k).2
    · have hk' : k < G.cacheEntries C := by omega
      rw [placed_start hC hk']
      exact good_inside (by simp) (by simpa using hk') (Nat.zero_le _)
    · obtain ⟨j, hplaced, hlo, hhi, -⟩ := placed_strides hpos hC hS hdvd k (by omega)
      rw [hplaced]
      exact good_inside (after_start hdvd j) hhi hlo
    · by_cases hk' : k < G.cacheEntries C
      · rw [placed_start hC hk']
        exact good_inside (by simp) (by simpa using hk') (Nat.zero_le _)
      · obtain ⟨hone, -, -⟩ := stride_zero hpos hS
        rw [show k = G.cacheEntries C by omega, placed_behind hC, hS, Nat.zero_mul, Nat.zero_div]
        refine ⟨by rw [Nat.zero_mul, Nat.zero_mul], ?_⟩
        rw [Nat.sub_zero, hone, Nat.one_mul]
        rw [hone] at hfits
        exact hfits

end

end Geometry

/-- With a cache that can be allocated, the fetcher returns the entries of every array of a
geometry exactly when the geometry is regular. -/
theorem fetcher_delivers_iff (G : Geometry) (c : Nat) (hC : G.cacheBlocks c * G.blockSize < 2 ^ 63) :
    (∀ g m d allocated t, G.Has g m → Answers m d → (g.isValid 1 G.blockSize m allocated t).1 = true →
      ∀ f, Started g G.blockSize m c f → Delivers G g m d f) ↔ G.Regular (G.cacheBlocks c) :=
  (G.delivers_iff_good c hC).trans (Geometry.good_iff_regular (by omega))

theorem fetcher_delivers_wideBlocks : wideBlocks.cacheBlocks 32 * wideBlocks.blockSize < 2 ^ 63 ∧
    ∀ g m d allocated t, wideBlocks.Has g m → Answers m d → (g.isValid 1 wideBlocks.blockSize m allocated t).1 = true →
      ∀ f, Started g wideBlocks.blockSize m 32 f → Delivers wideBlocks g m d f :=
  ⟨by decide, (fetcher_delivers_iff wideBlocks 32 (by decide)).mpr ⟨by decide, .inl (by decide)⟩⟩

/-- 34 entries of 200 bytes on blocks of 512: 33 of them fit into the 13 blocks of the cache. -/
def oddEntries : Geometry where
  lba := 2
  count := 34
  size := 200
  blockSize := 512
  blocksCount := 1000
  size_ge := by decide
  size_le := by decide
  size_lt := by decide
  count_pos := by decide
  count_lt := by decide
  lba_ge := wideBlocks.lba_ge
  lba_lt := wideBlocks.lba_lt
  blocks_lt := wideBlocks.blocks_lt
  block_lt := sector_lt

/-- The last of them is read from the wrong place. -/
theorem fetcher_misplaces_oddEntries :
    ((oddEntries.headerFor 33).isValid 1 512 (oddEntries.mediumFor 33) true 0).1 = true ∧
    Answers (oddEntries.mediumFor 33) (oddEntries.single 6600) ∧
    ∃ f, Started (oddEntries.headerFor 33) 512 (oddEntries.mediumFor 33) 32 f ∧
      ¬ Delivers oddEntries (oddEntries.headerFor 33) (oddEntries.mediumFor 33) (oddEntries.single 6600) f := by
  have hbad : ¬ oddEntries.Good (oddEntries.cacheBlocks 32) 33 (oddEntries.placed (oddEntries.cacheBlocks 32) 33) := by
    have hplaced := Geometry.placed_behind (G := oddEntries) (C := oddEntries.cacheBlocks 32) (by decide)
    rw [show oddEntries.cacheEntries (oddEntries.cacheBlocks 32) = 33 by decide] at hplaced
    intro hgood
    rw [hplaced] at hgood
    exact absurd hgood.1 (by decide)
  obtain ⟨f, hf, hgood⟩ := oddEntries.good_of_delivers (c := 32) (k := 33) (by decide) (by decide)
  exact ⟨oddEntries.headerFor_valid 33 0, Disk.answers _ _ _, f, hf, fun h => hbad (hgood h)⟩

end BadLands.Devices.Gpt
