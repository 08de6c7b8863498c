import BadLands.Core.ByteMemory
import BadLands.Core.PageTable

/-!
# The bytes of a memory of words

Byte `a` is byte `a % 8` of the aligned word at `a / 8 * 8`, the lowest first. `storeBytes m a n f` puts the bytes
`f 0`, ..., `f (n - 1)` at `a`; the lemmas say what each byte, and each word, is afterwards.
-/
namespace BadLands.Core.PageTable

def byteAt (m : PhysMem) (a : Nat) : BitVec 8 := BitVec.ofNat 8 ((m (a / 8 * 8)).toNat / 256 ^ (a % 8))

/-- The word with the eight bytes. -/
def ofBytes (f : ByteMemory) : Entry := BitVec.ofNat 64 (f.read 0 8)

def storeBytes (m : PhysMem) (a n : Nat) (f : ByteMemory) : PhysMem := fun q =>
  if q % 8 = 0 then ofBytes fun i => if a ≤ q + i ∧ q + i < a + n then f (q + i - a) else byteAt m (q + i)
  else m q

section
variable {m m' : PhysMem} {a n : Nat} {f : ByteMemory}

theorem toNat_ofBytes (f : ByteMemory) : (ofBytes f).toNat = f.read 0 8 := by
  have hlt := ByteMemory.read_lt (m := f) 0 8
  rw [show 256 ^ 8 = 2 ^ 64 by decide] at hlt
  rw [ofBytes, BitVec.toNat_ofNat, Nat.mod_eq_of_lt hlt]

theorem byte_ofBytes (f : ByteMemory) {i : Nat} (hi : i < 8) : BitVec.ofNat 8 ((ofBytes f).toNat / 256 ^ i) = f i := by
  have hlow := ByteMemory.read_lt (m := f) 0 i
  have hpos : 0 < 256 ^ i := Nat.pow_pos (by decide)
  have hsplit : f.read 0 8 = f.read 0 i + 256 ^ i * f.read i (8 - i) := by
    have hadd := ByteMemory.read_add (m := f) 0 i (8 - i)
    rwa [show i + (8 - i) = 8 by omega, Nat.zero_add] at hadd
  have hhead : f.read i (8 - i) = (f i).toNat + 256 * f.read (i + 1) (7 - i) := by
    rw [show 8 - i = (7 - i) + 1 by omega]
    rfl
  have hbyte : (f i).toNat < 256 := (f i).isLt
  apply BitVec.eq_of_toNat_eq
  rw [toNat_ofBytes, hsplit, Nat.add_mul_div_left _ _ hpos, Nat.div_eq_of_lt hlow, Nat.zero_add, hhead, BitVec.toNat_ofNat]
  omega

/-- A word is made of its bytes. -/
theorem ofBytes_byteAt {q : Nat} (hq : q % 8 = 0) : (ofBytes fun i => byteAt m (q + i)) = m q := by
  apply BitVec.eq_of_toNat_eq
  have hlt : (m q).toNat < 256 ^ 8 := (m q).isLt
  have hdigits := ByteMemory.read_digits (m := fun i => byteAt m (q + i)) (a := 0) (b := 0) (n := 8) (v := (m q).toNat)
    (Nat.le_refl _) fun k _ hk => by
      unfold byteAt
      rw [show (q + k) / 8 * 8 = q by omega, show (q + k) % 8 = k by omega, Nat.sub_zero]
  rw [toNat_ofBytes, hdigits, Nat.sub_zero, Nat.pow_zero, Nat.div_one, Nat.mod_eq_of_lt hlt]

theorem byteAt_storeBytes (b : Nat) : byteAt (storeBytes m a n f) b = if a ≤ b ∧ b < a + n then f (b - a) else byteAt m b := by
  have hsum : b / 8 * 8 + b % 8 = b := by omega
  unfold byteAt storeBytes
  rw [if_pos (by omega), byte_ofBytes _ (by omega), hsum]
  rfl

/-- A word without a stored byte. -/
theorem storeBytes_outside {q : Nat} (h : q % 8 = 0 → ∀ i, i < 8 → ¬ (a ≤ q + i ∧ q + i < a + n)) :
    storeBytes m a n f q = m q := by
  unfold storeBytes
  by_cases hq : q % 8 = 0
  · have hword := ofBytes_byteAt (m := m) hq
    rw [if_pos hq, ← hword]
    unfold ofBytes
    exact congrArg _ (ByteMemory.read_congr fun i _ hi => if_neg (h hq i (by omega)))
  · rw [if_neg hq]

/-- A byte depends on its word. -/
theorem byteAt_congr {b : Nat} (h : m' (b / 8 * 8) = m (b / 8 * 8)) : byteAt m' b = byteAt m b := by
  unfold byteAt
  rw [h]

end

end BadLands.Core.PageTable
