import Mathlib.Algebra.Group.Nat.Defs

/-!
# 64-bit unsigned arithmetic on naturals

`uint64_t` and `size_t` values are naturals below `2 ^ 64`; the operations below wrap the
way the hardware does. Each has the one lemma that says when it does not wrap.
-/
namespace BadLands.Core.Word

def add (a b : Nat) : Nat := (a + b) % 2 ^ 64

def sub (a b : Nat) : Nat := if b ≤ a then a - b else 2 ^ 64 - (b - a)

def mul (a b : Nat) : Nat := a * b % 2 ^ 64

theorem add_eq {a b : Nat} (h : a + b < 2 ^ 64) : add a b = a + b := Nat.mod_eq_of_lt h

theorem sub_eq {a b : Nat} (h : b ≤ a) : sub a b = a - b := if_pos h

theorem mul_eq {a b : Nat} (h : a * b < 2 ^ 64) : mul a b = a * b := Nat.mod_eq_of_lt h

theorem add_lt (a b : Nat) : add a b < 2 ^ 64 := Nat.mod_lt _ (by decide)

theorem sub_lt {a : Nat} (b : Nat) (ha : a < 2 ^ 64) : sub a b < 2 ^ 64 := by
  unfold sub
  split <;> omega

theorem add_sub_cancel {a b : Nat} (ha : a < 2 ^ 64) (hb : b < 2 ^ 64) : add (sub a b) b = a := by
  unfold add sub
  split <;> omega

/-- The tail of length `n` of a range that ends in the address space. -/
theorem sub_add_tail {a l n : Nat} (h : a + (l + n) ≤ 2 ^ 64) (hn : 0 < n) :
    sub (add a (l + n)) n = a + l := by
  unfold add sub
  split <;> omega

end BadLands.Core.Word
