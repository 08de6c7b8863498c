import Mathlib.Tactic.Ring

/-!
# Byte-addressed memory

A memory gives each address a byte. `read m a n` is the little-endian number in the `n` bytes at
`a`, `write m a n v` stores the `n` low bytes of `v` there, and `copy` moves `n` bytes, all of
them loaded before the first is stored; `bytes m a n` lists the bytes. A write is read back
(`read_write`); what it does not overlap stays (`read_congr`, `write_outside`, `copy_outside`).
A number read in one byte order and swapped is the number in the other (`byteswap_read`).
-/
namespace BadLands.Core

abbrev ByteMemory := Nat → BitVec 8

namespace ByteMemory

def read (m : ByteMemory) (a : Nat) : Nat → Nat
  | 0 => 0
  | n + 1 => (m a).toNat + 256 * read m (a + 1) n

def write (m : ByteMemory) (a n v : Nat) : ByteMemory := fun k =>
  if a ≤ k ∧ k < a + n then BitVec.ofNat 8 (v / 256 ^ (k - a)) else m k

def copy (m : ByteMemory) (dst src n : Nat) : ByteMemory := fun k =>
  if dst ≤ k ∧ k < dst + n then m (src + (k - dst)) else m k

/-- The `n` bytes at `a`. -/
def bytes (m : ByteMemory) (a n : Nat) : List (BitVec 8) := (List.range n).map fun i => m (a + i)

variable {m m' : ByteMemory}

theorem bytes_append (m : ByteMemory) (a n k : Nat) : m.bytes a (n + k) = m.bytes a n ++ m.bytes (a + n) k := by
  unfold bytes
  rw [List.range_add, List.map_append, List.map_map]
  congr 1
  apply List.map_congr_left
  intro i _
  simp [Nat.add_assoc]

theorem bytes_congr {a b n : Nat} (h : ∀ i, i < n → m (a + i) = m' (b + i)) : m.bytes a n = m'.bytes b n := by
  unfold bytes
  apply List.map_congr_left
  intro i hi
  exact h i (List.mem_range.mp hi)

theorem write_outside {a n v k : Nat} (h : k < a ∨ a + n ≤ k) : m.write a n v k = m k :=
  if_neg (by omega)

theorem copy_outside {dst src n k : Nat} (h : k < dst ∨ dst + n ≤ k) : m.copy dst src n k = m k :=
  if_neg (by omega)

theorem read_congr {a n : Nat} (h : ∀ k, a ≤ k → k < a + n → m k = m' k) : m.read a n = m'.read a n := by
  induction n generalizing a with
  | zero => rfl
  | succ n ih =>
    have hrest : m.read (a + 1) n = m'.read (a + 1) n := ih fun k h1 h2 => h k (by omega) (by omega)
    rw [read, read, h a (by omega) (by omega), hrest]

theorem read_lt (a n : Nat) : m.read a n < 256 ^ n := by
  induction n generalizing a with
  | zero => exact Nat.one_pos
  | succ n ih =>
    have hbyte : (m a).toNat < 256 := (m a).isLt
    have hrest := ih (a + 1)
    rw [read, Nat.pow_succ]
    omega

theorem read_add (a k n : Nat) : m.read a (k + n) = m.read a k + 256 ^ k * m.read (a + k) n := by
  induction k generalizing a with
  | zero => simp [read]
  | succ k ih =>
    rw [show k + 1 + n = k + n + 1 by omega, read, read, ih (a + 1), show a + 1 + k = a + (k + 1) by omega,
      Nat.pow_succ, Nat.mul_add, Nat.mul_comm (256 ^ k) 256, Nat.mul_assoc, Nat.add_assoc]

/-- The bytes of `v` from the `i`-th on. -/
theorem read_digits {a b n v : Nat} (hb : b ≤ a)
    (h : ∀ k, a ≤ k → k < a + n → m k = BitVec.ofNat 8 (v / 256 ^ (k - b))) :
    m.read a n = v / 256 ^ (a - b) % 256 ^ n := by
  induction n generalizing a with
  | zero => simp [read, Nat.mod_one]
  | succ n ih =>
    have hrest := ih (a := a + 1) (by omega) fun k h1 h2 => h k (by omega) (by omega)
    have hbyte : (m a).toNat = v / 256 ^ (a - b) % 256 := by
      rw [h a (by omega) (by omega), BitVec.toNat_ofNat]
    have hdiv : v / 256 ^ (a + 1 - b) = v / 256 ^ (a - b) / 256 := by
      rw [show a + 1 - b = (a - b) + 1 by omega, Nat.pow_succ, Nat.div_div_eq_div_mul]
    rw [read, hrest, hbyte, hdiv, Nat.pow_succ, Nat.mul_comm (256 ^ n) 256, Nat.mod_mul]

/-- Part of a written number. -/
theorem read_write_part {a n v b k : Nat} (hb : a ≤ b) (hk : b + k ≤ a + n) :
    (m.write a n v).read b k = v / 256 ^ (b - a) % 256 ^ k :=
  read_digits hb fun i h1 h2 => if_pos ⟨by omega, by omega⟩

theorem read_write {a n v : Nat} : (m.write a n v).read a n = v % 256 ^ n := by
  have h := read_digits (m := m.write a n v) (a := a) (b := a) (n := n) (v := v) (Nat.le_refl _)
    fun k h1 h2 => if_pos ⟨h1, h2⟩
  simpa using h

theorem read_write_of_lt {a n v : Nat} (h : v < 256 ^ n) : (m.write a n v).read a n = v := by
  rw [read_write, Nat.mod_eq_of_lt h]

theorem read_write_other {a n v b k : Nat} (h : b + k ≤ a ∨ a + n ≤ b) : (m.write a n v).read b k = m.read b k :=
  read_congr fun i h1 h2 => write_outside (by omega)

/-- A number inside the copied bytes. -/
theorem read_copy {dst src n i k : Nat} (h : i + k ≤ n) :
    (m.copy dst src n).read (dst + i) k = m.read (src + i) k := by
  induction k generalizing i with
  | zero => rfl
  | succ k ih =>
    have hrest := ih (i := i + 1) (by omega)
    have hbyte : m.copy dst src n (dst + i) = m (src + i) := by
      rw [copy, if_pos (by omega), Nat.add_sub_cancel_left]
    rw [read, read, hbyte]
    rw [show dst + i + 1 = dst + (i + 1) by omega, hrest]
    rfl

/-! ## The other byte order -/

/-- The number in the bytes, the highest first. -/
def bigEndian : List (BitVec 8) → Nat
  | [] => 0
  | b :: bs => b.toNat * 256 ^ bs.length + bigEndian bs

/-- The `n` low bytes in reverse order. -/
def byteswap : Nat → Nat → Nat
  | 0, _ => 0
  | n + 1, v => v % 256 * 256 ^ n + byteswap n (v / 256)

theorem bytes_length (m : ByteMemory) (a n : Nat) : (m.bytes a n).length = n := by
  unfold bytes
  rw [List.length_map, List.length_range]

theorem bytes_succ (m : ByteMemory) (a n : Nat) : m.bytes a (n + 1) = m a :: m.bytes (a + 1) n := by
  rw [Nat.add_comm, bytes_append]
  rfl

theorem bigEndian_lt (bs : List (BitVec 8)) : bigEndian bs < 256 ^ bs.length := by
  induction bs with
  | nil => exact Nat.one_pos
  | cons b bs ih =>
    have hbyte : b.toNat + 1 ≤ 256 := b.isLt
    have hmul := Nat.mul_le_mul_right (256 ^ bs.length) hbyte
    rw [Nat.add_mul, Nat.one_mul] at hmul
    rw [bigEndian, List.length_cons, Nat.pow_succ, Nat.mul_comm (256 ^ bs.length)]
    omega

/-- The `n` low bytes of a number, the highest first. -/
theorem bigEndian_digits (v n : Nat) :
    bigEndian ((List.range n).reverse.map fun i => BitVec.ofNat 8 (v / 256 ^ i)) = v % 256 ^ n := by
  induction n with
  | zero => simp [bigEndian, Nat.mod_one]
  | succ n ih =>
    have hsplit : v % 256 ^ (n + 1) = v % 256 ^ n + 256 ^ n * (v / 256 ^ n % 256) := by
      rw [Nat.pow_succ, Nat.mod_mul]
    rw [List.range_succ, List.reverse_append, List.reverse_singleton, List.singleton_append, List.map_cons, bigEndian, ih,
      List.length_map, List.length_reverse, List.length_range, BitVec.toNat_ofNat, hsplit, Nat.mul_comm, Nat.add_comm]

/-- The number in the bytes, the lowest first. -/
def littleEndian : List (BitVec 8) → Nat
  | [] => 0
  | b :: bs => b.toNat + 256 * littleEndian bs

theorem bigEndian_concat (bs : List (BitVec 8)) (b : BitVec 8) : bigEndian (bs ++ [b]) = 256 * bigEndian bs + b.toNat := by
  induction bs with
  | nil => simp [bigEndian]
  | cons c bs ih =>
    rw [List.cons_append, bigEndian, bigEndian, ih, List.length_append, List.length_singleton, Nat.pow_succ]
    ring

theorem bigEndian_reverse (bs : List (BitVec 8)) : bigEndian bs.reverse = littleEndian bs := by
  induction bs with
  | nil => rfl
  | cons b bs ih => rw [List.reverse_cons, bigEndian_concat, ih, littleEndian, Nat.add_comm]

/-- The number decides its bytes. -/
theorem littleEndian_inj : ∀ {bs cs : List (BitVec 8)}, bs.length = cs.length → littleEndian bs = littleEndian cs →
    bs = cs
  | [], [], _, _ => rfl
  | b :: bs, c :: cs, hlength, h => by
    have hb : b.toNat < 256 := b.isLt
    have hc : c.toNat < 256 := c.isLt
    rw [littleEndian, littleEndian] at h
    have hhead : b = c := BitVec.eq_of_toNat_eq (by omega)
    have htail : bs = cs := littleEndian_inj (by simpa using hlength) (by omega)
    rw [hhead, htail]

theorem littleEndian_lt (bs : List (BitVec 8)) : littleEndian bs < 256 ^ bs.length := by
  rw [← bigEndian_reverse, ← List.length_reverse]
  exact bigEndian_lt _

/-- Read in the wrong order, a number is right when its bytes are the same from both ends. -/
theorem bigEndian_eq_littleEndian (bs : List (BitVec 8)) : bigEndian bs = littleEndian bs ↔ bs.reverse = bs := by
  rw [← List.reverse_reverse bs, bigEndian_reverse, List.reverse_reverse]
  exact ⟨fun h => littleEndian_inj List.length_reverse h, fun h => by rw [h]⟩

/-- A little-endian number swapped is the big-endian one. -/
theorem byteswap_read (m : ByteMemory) (a n : Nat) : byteswap n (m.read a n) = bigEndian (m.bytes a n) := by
  induction n generalizing a with
  | zero => rfl
  | succ n ih =>
    have hbyte : (m a).toNat < 256 := (m a).isLt
    have hlow : ((m a).toNat + 256 * m.read (a + 1) n) % 256 = (m a).toNat := by omega
    have hhigh : ((m a).toNat + 256 * m.read (a + 1) n) / 256 = m.read (a + 1) n := by omega
    rw [read, byteswap, hlow, hhigh, ih, bytes_succ, bigEndian, bytes_length]

end ByteMemory

end BadLands.Core
