import Mathlib.Data.Nat.Basic

/-!
# Bitmaps over bytes

Bit `i` is bit `i % 8` of byte `i / 8`. The updates are the masks of C code, one bit at a time or in a loop
over a range; the lemmas say what they do to each bit.
-/
namespace BadLands.Core

abbrev ByteMap := Nat → BitVec 8

namespace ByteMap

variable (m : ByteMap)

/-- `1 << (i % 8)`. -/
def mask (i : Nat) : BitVec 8 := 1#8 <<< (i % 8)

/-- `(m[i / 8] & (1 << (i % 8))) != 0`. -/
def test (i : Nat) : Bool := m (i / 8) &&& mask i != 0#8

def setByte (b : Nat) (v : BitVec 8) : ByteMap := fun k => if k = b then v else m k

/-- `m[i / 8] |= 1 << (i % 8)`. -/
def set (i : Nat) : ByteMap := m.setByte (i / 8) (m (i / 8) ||| mask i)

/-- `m[i / 8] &= ~(1 << (i % 8))`. -/
def clear (i : Nat) : ByteMap := m.setByte (i / 8) (m (i / 8) &&& ~~~mask i)

/-- `for (i = first; i < last; ++i)`, setting each bit. -/
def setRange (first last : Nat) : ByteMap := (List.range' first (last - first)).foldl set m

def clearRange (first last : Nat) : ByteMap := (List.range' first (last - first)).foldl clear m

theorem getLsbD_mask (i k : Nat) : (mask i).getLsbD k = decide (k = i % 8) := by
  have hi : i % 8 < 8 := Nat.mod_lt _ (by omega)
  simp only [mask, BitVec.getLsbD_shiftLeft, BitVec.getLsbD_one]
  by_cases h : k = i % 8
  · simp [h, hi]
  · by_cases hlt : k < i % 8
    · simp [h, hlt]
    · have : k - i % 8 ≠ 0 := by omega
      simp [h, this]

theorem test_eq (i : Nat) : m.test i = (m (i / 8)).getLsbD (i % 8) := by
  rw [Bool.eq_iff_iff, test, bne_iff_ne]
  constructor
  · intro h
    apply Decidable.byContradiction
    intro hn
    refine h (BitVec.eq_of_getLsbD_eq fun k hk => ?_)
    rw [BitVec.getLsbD_and, getLsbD_mask i k, BitVec.getLsbD_zero]
    by_cases hki : k = i % 8
    · rw [hki, Bool.eq_false_iff.mpr hn, Bool.false_and]
    · rw [decide_eq_false hki, Bool.and_false]
  · intro h h0
    have := congrArg (fun x => BitVec.getLsbD x (i % 8)) h0
    simp [BitVec.getLsbD_and, getLsbD_mask, h] at this

theorem test_set (i k : Nat) : (m.set i).test k = (decide (k = i) || m.test k) := by
  rw [test_eq, test_eq, set, setByte]
  by_cases hb : k / 8 = i / 8
  · rw [if_pos hb, BitVec.getLsbD_or, getLsbD_mask, hb, Bool.or_comm]
    congr 1
    rw [decide_eq_decide]
    omega
  · rw [if_neg hb, decide_eq_false fun h => hb (by rw [h]), Bool.false_or]

theorem test_clear (i k : Nat) : (m.clear i).test k = (!decide (k = i) && m.test k) := by
  have hk : k % 8 < 8 := Nat.mod_lt _ (by omega)
  rw [test_eq, test_eq, clear, setByte]
  by_cases hb : k / 8 = i / 8
  · rw [if_pos hb, BitVec.getLsbD_and, BitVec.getLsbD_not, getLsbD_mask, hb, Bool.and_comm]
    congr 1
    rw [decide_eq_true hk, Bool.true_and]
    congr 1
    rw [decide_eq_decide]
    omega
  · rw [if_neg hb, decide_eq_false fun h => hb (by rw [h]), Bool.not_false, Bool.true_and]

theorem test_foldl_set (k : Nat) : ∀ (l : List Nat) (m : ByteMap),
    (l.foldl set m).test k = (decide (k ∈ l) || m.test k)
  | [], m => by simp
  | i :: l, m => by
    rw [List.foldl_cons, test_foldl_set k l, test_set]
    by_cases h : k = i
    · simp [h]
    · simp [h]

theorem test_foldl_clear (k : Nat) : ∀ (l : List Nat) (m : ByteMap),
    (l.foldl clear m).test k = (!decide (k ∈ l) && m.test k)
  | [], m => by simp
  | i :: l, m => by
    rw [List.foldl_cons, test_foldl_clear k l, test_clear]
    by_cases h : k = i
    · simp [h]
    · simp [h]

theorem test_setRange (first last k : Nat) :
    (m.setRange first last).test k = (decide (first ≤ k ∧ k < last) || m.test k) := by
  have hmem : k ∈ List.range' first (last - first) ↔ first ≤ k ∧ k < last := by
    rw [List.mem_range'_1]
    omega
  rw [setRange, test_foldl_set]
  congr 1
  exact decide_eq_decide.mpr hmem

theorem test_clearRange (first last k : Nat) :
    (m.clearRange first last).test k = (!decide (first ≤ k ∧ k < last) && m.test k) := by
  have hmem : k ∈ List.range' first (last - first) ↔ first ≤ k ∧ k < last := by
    rw [List.mem_range'_1]
    omega
  rw [clearRange, test_foldl_clear]
  congr 2
  exact decide_eq_decide.mpr hmem

variable {m}

theorem ext_test {m' : ByteMap} (h : ∀ k, m.test k = m'.test k) : m = m' := by
  funext b
  refine BitVec.eq_of_getLsbD_eq fun k hk => ?_
  have hbit := h (8 * b + k)
  rwa [test_eq, test_eq, show (8 * b + k) / 8 = b by omega, show (8 * b + k) % 8 = k by omega] at hbit

/-- Clearing what was clear before it was set. -/
theorem clearRange_setRange {first last : Nat} (h : ∀ k, first ≤ k → k < last → m.test k = false) :
    (m.setRange first last).clearRange first last = m := by
  refine ext_test fun k => ?_
  rw [test_clearRange, test_setRange]
  by_cases hk : first ≤ k ∧ k < last
  · rw [decide_eq_true hk, Bool.not_true, Bool.false_and, h k hk.1 hk.2]
  · rw [decide_eq_false hk, Bool.not_false, Bool.true_and, Bool.false_or]

end ByteMap

end BadLands.Core
