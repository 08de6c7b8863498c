import Mathlib.Data.Nat.Basic

/-!
# Bitmaps over 64-bit words

A bitmap is an array of 64-bit words; bit `i` is bit `i % 64` of word `i / 64`. The
operations are the masks of C code (`m[i / 64] |= 1 << (i % 64)`), and the lemmas say what
they do to each bit.

* `test_set`, `test_clear`, `test_clearWords`: the bits after an update.
* `word_eq_zero`, `word_eq_ones`, `words_zero`, `words_ones`: tests of whole words.
* `countrZero_spec`: the lowest set bit of a word.
-/
namespace BadLands.Core

abbrev Bitmap := Nat → BitVec 64

namespace Bitmap

variable (m : Bitmap)

/-- `1 << (i % 64)`. -/
def mask (i : Nat) : BitVec 64 := 1#64 <<< (i % 64)

/-- `(m[i / 64] & (1 << (i % 64))) != 0`. -/
def test (i : Nat) : Bool := m (i / 64) &&& mask i != 0#64

def setWord (w : Nat) (v : BitVec 64) : Bitmap := fun k => if k = w then v else m k

/-- `m[i / 64] |= 1 << (i % 64)`. -/
def set (i : Nat) : Bitmap := m.setWord (i / 64) (m (i / 64) ||| mask i)

/-- `m[i / 64] &= ~(1 << (i % 64))`. -/
def clear (i : Nat) : Bitmap := m.setWord (i / 64) (m (i / 64) &&& ~~~mask i)

/-- `if (b) set else clear`. -/
def put (i : Nat) (b : Bool) : Bitmap := if b then m.set i else m.clear i

/-- `for (w = first; w < last; ++w) m[w] = v;` -/
def fillWords (first last : Nat) (v : BitVec 64) : Bitmap := fun k => if first ≤ k ∧ k < last then v else m k

/-- `std::countr_zero`. -/
def countrZero (x : BitVec 64) : Nat := x.ctz.toNat

theorem getLsbD_mask (i k : Nat) : (mask i).getLsbD k = decide (k = i % 64) := by
  have hi : i % 64 < 64 := Nat.mod_lt _ (by omega)
  simp only [mask, BitVec.getLsbD_shiftLeft, BitVec.getLsbD_one]
  by_cases h : k = i % 64
  · simp [h, hi]
  · by_cases hlt : k < i % 64
    · simp [h, hlt]
    · have : k - i % 64 ≠ 0 := by omega
      simp [h, this]

theorem test_eq (i : Nat) : m.test i = (m (i / 64)).getLsbD (i % 64) := by
  have hi : i % 64 < 64 := Nat.mod_lt _ (by omega)
  rw [Bool.eq_iff_iff, test, bne_iff_ne]
  constructor
  · intro h
    apply Decidable.byContradiction
    intro hn
    refine h (BitVec.eq_of_getLsbD_eq fun k hk => ?_)
    rw [BitVec.getLsbD_and, getLsbD_mask i k, BitVec.getLsbD_zero]
    by_cases hki : k = i % 64
    · rw [hki, Bool.eq_false_iff.mpr hn, Bool.false_and]
    · rw [decide_eq_false hki, Bool.and_false]
  · intro h h0
    have := congrArg (fun x => BitVec.getLsbD x (i % 64)) h0
    simp [BitVec.getLsbD_and, getLsbD_mask, h] at this

theorem test_set (i k : Nat) : (m.set i).test k = (decide (k = i) || m.test k) := by
  rw [test_eq, test_eq, set, setWord]
  by_cases hw : k / 64 = i / 64
  · rw [if_pos hw, BitVec.getLsbD_or, getLsbD_mask, hw, Bool.or_comm]
    congr 1
    rw [decide_eq_decide]
    omega
  · rw [if_neg hw, decide_eq_false fun h => hw (by rw [h]), Bool.false_or]

theorem test_clear (i k : Nat) : (m.clear i).test k = (!decide (k = i) && m.test k) := by
  have hk : k % 64 < 64 := Nat.mod_lt _ (by omega)
  rw [test_eq, test_eq, clear, setWord]
  by_cases hw : k / 64 = i / 64
  · rw [if_pos hw, BitVec.getLsbD_and, BitVec.getLsbD_not, getLsbD_mask, hw, Bool.and_comm]
    congr 1
    rw [decide_eq_true hk, Bool.true_and]
    congr 1
    rw [decide_eq_decide]
    omega
  · rw [if_neg hw, decide_eq_false fun h => hw (by rw [h]), Bool.not_false, Bool.true_and]

theorem test_put (i k : Nat) (b : Bool) : (m.put i b).test k = if k = i then b else m.test k := by
  cases b <;> by_cases h : k = i <;> simp [put, test_set, test_clear, h]

/-! ## Whole words -/

theorem word_eq_zero (w : Nat) : m w = 0#64 ↔ ∀ i, i / 64 = w → m.test i = false := by
  constructor
  · intro h i hi
    rw [test_eq, hi, h, BitVec.getLsbD_zero]
  · intro h
    refine BitVec.eq_of_getLsbD_eq fun k hk => ?_
    have := h (w * 64 + k) (by omega)
    rw [test_eq, show (w * 64 + k) / 64 = w by omega, show (w * 64 + k) % 64 = k by omega] at this
    rw [this, BitVec.getLsbD_zero]

theorem word_eq_ones (w : Nat) : m w = BitVec.allOnes 64 ↔ ∀ i, i / 64 = w → m.test i = true := by
  constructor
  · intro h i hi
    rw [test_eq, hi, h, BitVec.getLsbD_allOnes, decide_eq_true (Nat.mod_lt _ (by omega))]
  · intro h
    refine BitVec.eq_of_getLsbD_eq fun k hk => ?_
    have := h (w * 64 + k) (by omega)
    rw [test_eq, show (w * 64 + k) / 64 = w by omega, show (w * 64 + k) % 64 = k by omega] at this
    rw [this, BitVec.getLsbD_allOnes, decide_eq_true hk]

theorem test_fillWords {first last : Nat} (k : Nat) :
    (m.fillWords first last 0#64).test k =
      (!decide (first * 64 ≤ k ∧ k < last * 64) && m.test k) := by
  rw [test_eq, test_eq, fillWords]
  by_cases h : first * 64 ≤ k ∧ k < last * 64
  · rw [if_pos (by omega), decide_eq_true h, BitVec.getLsbD_zero, Bool.not_true, Bool.false_and]
  · rw [if_neg (by omega), decide_eq_false h, Bool.not_false, Bool.true_and]

/-- Some word of a range has a set bit. -/
theorem any_ne_zero (first n : Nat) :
    ((List.range' first n).any fun w => m w != 0#64) = true ↔
      ∃ i, first * 64 ≤ i ∧ i < (first + n) * 64 ∧ m.test i = true := by
  rw [List.any_eq_true]
  constructor
  · rintro ⟨w, hw, hne⟩
    rw [List.mem_range'_1] at hw
    obtain ⟨i, hi⟩ := Classical.not_forall.mp fun h => bne_iff_ne.mp hne ((m.word_eq_zero w).mpr h)
    obtain ⟨hw', hbit⟩ := Classical.not_imp.mp hi
    exact ⟨i, by omega, by omega, eq_true_of_ne_false hbit⟩
  · rintro ⟨i, h1, h2, hi⟩
    refine ⟨i / 64, List.mem_range'_1.mpr (by omega), bne_iff_ne.mpr fun h0 => ?_⟩
    rw [(m.word_eq_zero _).mp h0 i rfl] at hi
    cases hi

/-- Some word of a range has a clear bit. -/
theorem any_ne_ones (first n : Nat) :
    ((List.range' first n).any fun w => m w != BitVec.allOnes 64) = true ↔
      ∃ i, first * 64 ≤ i ∧ i < (first + n) * 64 ∧ m.test i = false := by
  rw [List.any_eq_true]
  constructor
  · rintro ⟨w, hw, hne⟩
    rw [List.mem_range'_1] at hw
    obtain ⟨i, hi⟩ := Classical.not_forall.mp fun h => bne_iff_ne.mp hne ((m.word_eq_ones w).mpr h)
    obtain ⟨hw', hbit⟩ := Classical.not_imp.mp hi
    exact ⟨i, by omega, by omega, eq_false_of_ne_true hbit⟩
  · rintro ⟨i, h1, h2, hi⟩
    refine ⟨i / 64, List.mem_range'_1.mpr (by omega), bne_iff_ne.mpr fun h0 => ?_⟩
    rw [(m.word_eq_ones _).mp h0 i rfl] at hi
    cases hi

/-- The lowest set bit of a word. -/
theorem countrZero_spec {x : BitVec 64} (h : x ≠ 0#64) :
    countrZero x < 64 ∧ x.getLsbD (countrZero x) = true ∧ ∀ k < countrZero x, x.getLsbD k = false := by
  refine ⟨?_, BitVec.getLsbD_true_ctz_of_ne_zero h, fun k hk => BitVec.getLsbD_false_of_lt_ctz hk⟩
  have := BitVec.ctz_lt_iff_ne_zero.mpr h
  simpa [BitVec.lt_def, countrZero] using this

/-- The lowest set bit of word `w`, as a bit of the bitmap. -/
theorem lowest_spec {w : Nat} (h : m w ≠ 0#64) :
    (w * 64 + countrZero (m w)) / 64 = w ∧ m.test (w * 64 + countrZero (m w)) = true ∧
      ∀ k, k / 64 = w → k < w * 64 + countrZero (m w) → m.test k = false := by
  obtain ⟨hlt, hset, hlow⟩ := countrZero_spec h
  have hdiv : (w * 64 + countrZero (m w)) / 64 = w := by omega
  refine ⟨hdiv, ?_, fun k hk hlt => ?_⟩
  · rw [test_eq, hdiv, show (w * 64 + countrZero (m w)) % 64 = countrZero (m w) by omega, hset]
  · rw [test_eq, hk, hlow _ (by omega)]

theorem test_not (k : Nat) : test (fun w => ~~~m w) k = !m.test k := by
  rw [test_eq, test_eq, BitVec.getLsbD_not, decide_eq_true (Nat.mod_lt _ (by omega)), Bool.true_and]

theorem not_eq_zero (w : Nat) : ~~~m w = 0#64 ↔ m w = BitVec.allOnes 64 := by
  rw [word_eq_ones, word_eq_zero fun w => ~~~m w]
  simp only [test_not, Bool.not_eq_false']

end Bitmap

end BadLands.Core
