import Mathlib.Data.BitVec
import Mathlib.Data.List.Lex

/-!
# Memory at 64-bit addresses

A run of bytes may go past the last address and on from address 0; `offset a q` is how far `q` lies behind `a`. `stores m a n f`
is the memory with the bytes `f 0`, ..., `f (n - 1)` from `a` on.

* `stores_succ`, `stores_append`: a run that is stored byte by byte, or in two parts.
* `stores_over`: a part of the run that was stored before does not count.
* `bytes_eq`, `bytes_lt`: two runs of bytes, by what is found at the first place where they differ.
-/
namespace BadLands.Core

abbrev WrappedMemory := BitVec 64 → BitVec 8

namespace WrappedMemory

def offset (a q : BitVec 64) : Nat := (q - a).toNat

def store (m : WrappedMemory) (a : BitVec 64) (b : BitVec 8) : WrappedMemory := fun q => if q = a then b else m q

def stores (m : WrappedMemory) (a : BitVec 64) (n : Nat) (f : Nat → BitVec 8) : WrappedMemory := fun q =>
  if offset a q < n then f (offset a q) else m q

/-- The values of the `n` bytes from `a` on. -/
def bytes (m : WrappedMemory) (a : BitVec 64) : Nat → List Nat
  | 0 => []
  | n + 1 => (m a).toNat :: bytes m (a + 1) n

/-- No address is in both runs of `n` bytes. -/
def Apart (a b : BitVec 64) (n : Nat) : Prop := ∀ q, ¬ (offset a q < n ∧ offset b q < n)

variable {m : WrappedMemory} {a b q : BitVec 64} {n k : Nat} {f : Nat → BitVec 8}

/-! ## Offsets -/

theorem offset_lt (a q : BitVec 64) : offset a q < 2 ^ 64 := (q - a).isLt

@[simp] theorem offset_self (a : BitVec 64) : offset a a = 0 := by simp [offset]

theorem offset_eq_zero : offset a q = 0 ↔ q = a := by
  unfold offset
  constructor
  · intro h
    bv_omega
  · rintro rfl
    simp

/-- The address at an offset. -/
theorem offset_add (h : n < 2 ^ 64) : offset a (a + BitVec.ofNat 64 n) = n := by
  unfold offset
  rw [BitVec.add_comm, BitVec.add_sub_cancel, BitVec.toNat_ofNat, Nat.mod_eq_of_lt h]

/-- From an address further on. -/
theorem offset_from (h : k ≤ offset a q) : offset (a + BitVec.ofNat 64 k) q = offset a q - k := by
  have hlt := offset_lt a q
  unfold offset at *
  bv_omega

theorem offset_before (hk : k < 2 ^ 64) (h : offset a q < k) : offset (a + BitVec.ofNat 64 k) q = offset a q + 2 ^ 64 - k := by
  have hlt := offset_lt a q
  unfold offset at *
  bv_omega

/-! ## Runs -/

@[simp] theorem stores_zero : stores m a 0 f = m := by
  funext q
  exact if_neg (Nat.not_lt_zero _)

/-- A run in two parts, the second behind the first. -/
theorem stores_append (h : k + n ≤ 2 ^ 64) :
    stores (stores m a k f) (a + BitVec.ofNat 64 k) n (fun i => f (k + i)) = stores m a (k + n) f := by
  rcases Nat.eq_zero_or_pos n with rfl | hn
  · rw [stores_zero, Nat.add_zero]
  funext q
  have hq := offset_lt a q
  unfold stores
  rcases Nat.lt_or_ge (offset a q) k with hlt | hge
  · rw [offset_before (by omega) hlt, if_neg (by omega), if_pos hlt, if_pos (by omega)]
  · rw [offset_from hge]
    by_cases hin : offset a q < k + n
    · rw [if_pos (by omega), if_pos hin]
      dsimp only
      rw [Nat.add_sub_cancel' hge]
    · rw [if_neg (by omega), if_neg (by omega), if_neg hin]

theorem store_eq (m : WrappedMemory) (a : BitVec 64) (f : Nat → BitVec 8) : store m a (f 0) = stores m a 1 f := by
  funext q
  unfold store stores
  by_cases h : q = a
  · rw [if_pos h, offset_eq_zero.mpr h, if_pos Nat.one_pos]
  · rw [if_neg h, if_neg (fun hlt => h (offset_eq_zero.mp (Nat.lt_one_iff.mp hlt)))]

/-- The first byte, and the others behind it. -/
theorem stores_succ (h : n + 1 ≤ 2 ^ 64) :
    stores (store m a (f 0)) (a + 1) n (fun i => f (i + 1)) = stores m a (n + 1) f := by
  have happend := stores_append (m := m) (a := a) (k := 1) (n := n) (f := f) (by omega)
  rw [store_eq, Nat.add_comm n 1, ← happend]
  congr 1
  funext i
  rw [Nat.add_comm]

theorem stores_over (h : k ≤ n) : stores (stores m a k f) a n f = stores m a n f := by
  funext q
  unfold stores
  by_cases hin : offset a q < n
  · rw [if_pos hin, if_pos hin]
  · rw [if_neg hin, if_neg hin, if_neg (by omega)]

/-- Only what is stored counts. -/
theorem stores_congr {f' : Nat → BitVec 8} (h : ∀ i, i < n → f i = f' i) : stores m a n f = stores m a n f' := by
  funext q
  unfold stores
  split
  · next hin => exact h _ hin
  · rfl

/-! ## Comparing -/

theorem address_succ (a : BitVec 64) (i : Nat) : a + 1 + BitVec.ofNat 64 i = a + BitVec.ofNat 64 (i + 1) := by bv_omega

theorem bytes_eq (a b : BitVec 64) (n : Nat) :
    bytes m a n = bytes m b n ↔ ∀ i, i < n → m (a + BitVec.ofNat 64 i) = m (b + BitVec.ofNat 64 i) := by
  induction n generalizing a b with
  | zero => simp [bytes]
  | succ n ih =>
    rw [bytes, bytes, List.cons.injEq, ih, BitVec.toNat_inj]
    constructor
    · intro ⟨hfirst, hrest⟩ i hi
      cases i with
      | zero => simpa using hfirst
      | succ i => simpa only [address_succ] using hrest i (by omega)
    · intro h
      refine ⟨by simpa using h 0 (by omega), fun i hi => ?_⟩
      rw [address_succ, address_succ]
      exact h (i + 1) (by omega)

/-- Where two runs differ first decides their order. -/
theorem bytes_lt {i : Nat} (a b : BitVec 64) (hi : i < n)
    (hsame : ∀ j, j < i → m (a + BitVec.ofNat 64 j) = m (b + BitVec.ofNat 64 j))
    (hdiff : m (a + BitVec.ofNat 64 i) ≠ m (b + BitVec.ofNat 64 i)) :
    bytes m a n < bytes m b n ↔ (m (a + BitVec.ofNat 64 i)).toNat < (m (b + BitVec.ofNat 64 i)).toNat := by
  induction i generalizing a b n with
  | zero =>
    obtain ⟨n, rfl⟩ := Nat.exists_eq_succ_of_ne_zero (Nat.ne_of_gt hi)
    have hne : (m a).toNat ≠ (m b).toNat := fun h => hdiff (by simpa using BitVec.eq_of_toNat_eq h)
    rw [bytes, bytes, List.cons_lt_cons_iff]
    simp [hne]
  | succ i ih =>
    obtain ⟨n, rfl⟩ := Nat.exists_eq_succ_of_ne_zero (Nat.ne_of_gt (Nat.zero_lt_of_lt hi))
    have hfirst : m a = m b := by simpa using hsame 0 (by omega)
    have hrest := ih (a := a + 1) (b := b + 1) (n := n) (by omega)
      (fun j hj => by simpa only [address_succ] using hsame (j + 1) (by omega)) (by simpa only [address_succ] using hdiff)
    rw [bytes, bytes, List.cons_lt_cons_iff, hfirst, hrest, address_succ, address_succ]
    simp

end WrappedMemory

end BadLands.Core
