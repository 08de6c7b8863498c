/-!
# Cyclic redundancy checks, bit by bit

The remainder of a message modulo a polynomial, in the reflected form: the remainder `c` is
shifted down bit by bit, and the polynomial is added where a one falls out. `crc p` runs over the
bytes of a message.

* `shifts_eight`: eight shifts at once, from a table indexed by the low byte.
* `crc_append`: a message can be fed in parts.
* `crc_ne_of_byte`: two messages that differ in one byte have different remainders, when the
  polynomial has its constant term.
-/
namespace BadLands.Core.Crc

variable {w : Nat}

/-- One bit of the division. -/
def shift (p c : BitVec w) : BitVec w := if c.getLsbD 0 then (c >>> 1) ^^^ p else c >>> 1

def shifts (p : BitVec w) : Nat → BitVec w → BitVec w
  | 0, c => c
  | n + 1, c => shifts p n (shift p c)

/-- One byte of a message. -/
def byteStep (p : BitVec w) (c : BitVec w) (b : BitVec 8) : BitVec w := shifts p 8 (c ^^^ b.setWidth w)

/-- The remainder after the bytes, from the remainder `c`. -/
def crc (p : BitVec w) (c : BitVec w) (bytes : List (BitVec 8)) : BitVec w := bytes.foldl (byteStep p) c

theorem crc_append (p c : BitVec w) (xs ys : List (BitVec 8)) : crc p c (xs ++ ys) = crc p (crc p c xs) ys :=
  List.foldl_append

/-! ## Linearity and the table -/

theorem xor_cancel_right (a b p : BitVec w) : a ^^^ p ^^^ (b ^^^ p) = a ^^^ b := by
  apply BitVec.eq_of_getLsbD_eq
  intro i hi
  simp only [BitVec.getLsbD_xor]
  cases a.getLsbD i <;> cases b.getLsbD i <;> cases p.getLsbD i <;> rfl

theorem shift_xor (p a b : BitVec w) : shift p (a ^^^ b) = shift p a ^^^ shift p b := by
  unfold shift
  simp only [BitVec.getLsbD_xor, BitVec.ushiftRight_xor_distrib]
  cases a.getLsbD 0 <;> cases b.getLsbD 0
  · simp
  · simp [BitVec.xor_assoc]
  · simp only [Bool.xor_false, if_true, Bool.false_eq_true, if_false]
    rw [BitVec.xor_assoc, BitVec.xor_comm (b >>> 1) p, ← BitVec.xor_assoc]
  · simp [xor_cancel_right]

theorem shifts_xor (p : BitVec w) (n : Nat) : ∀ a b, shifts p n (a ^^^ b) = shifts p n a ^^^ shifts p n b := by
  induction n with
  | zero =>
    intro a b
    rfl
  | succ n ih =>
    intro a b
    rw [shifts, shift_xor, ih]
    rfl

/-- Zeros fall out without effect. -/
theorem shifts_zeros (p : BitVec w) (n : Nat) : ∀ c : BitVec w, (∀ i, i < n → c.getLsbD i = false) →
    shifts p n c = c >>> n := by
  induction n with
  | zero =>
    intro c _
    simp [shifts]
  | succ n ih =>
    intro c hc
    have hstep : shift p c = c >>> 1 := by
      unfold shift
      rw [hc 0 (Nat.succ_pos n), if_neg (by decide)]
    rw [shifts, hstep, ih]
    · rw [← BitVec.shiftRight_add, Nat.add_comm]
    · intro i hi
      rw [BitVec.getLsbD_ushiftRight]
      exact hc (1 + i) (by omega)

/-- The low byte through the table, the rest moved down. -/
theorem shifts_eight (p c : BitVec w) :
    shifts p 8 c = (c >>> 8) ^^^ shifts p 8 ((c.setWidth 8).setWidth w) := by
  have hlow : ∀ i, ((c.setWidth 8).setWidth w).getLsbD i = (decide (i < 8) && c.getLsbD i) := by
    intro i
    rw [BitVec.getLsbD_setWidth, BitVec.getLsbD_setWidth]
    by_cases hi : i < w
    · simp [hi]
    · simp [BitVec.getLsbD_of_ge c i (by omega)]
  have hhigh : ∀ i, i < 8 → (c ^^^ (c.setWidth 8).setWidth w).getLsbD i = false := by
    intro i hi
    rw [BitVec.getLsbD_xor, hlow]
    simp [hi]
  have hshift : (c ^^^ (c.setWidth 8).setWidth w) >>> 8 = c >>> 8 := by
    apply BitVec.eq_of_getLsbD_eq
    intro i _
    rw [BitVec.getLsbD_ushiftRight, BitVec.getLsbD_ushiftRight, BitVec.getLsbD_xor, hlow,
      decide_eq_false (by omega), Bool.false_and, Bool.xor_false]
  have hsplit : c = (c ^^^ (c.setWidth 8).setWidth w) ^^^ (c.setWidth 8).setWidth w := by
    rw [BitVec.xor_assoc, BitVec.xor_self, BitVec.xor_zero]
  calc shifts p 8 c
      = shifts p 8 ((c ^^^ (c.setWidth 8).setWidth w) ^^^ (c.setWidth 8).setWidth w) := by rw [← hsplit]
    _ = (c >>> 8) ^^^ shifts p 8 ((c.setWidth 8).setWidth w) := by
      rw [shifts_xor, shifts_zeros p 8 _ hhigh, hshift]

/-! ## One changed byte -/

/-- The bit that falls out comes back as the highest one, so a shift loses nothing. -/
theorem shift_inj {p a b : BitVec w} (hp : p.getLsbD (w - 1) = true) (h : shift p a = shift p b) : a = b := by
  have hw : 0 < w := by
    apply Decidable.byContradiction
    intro hn
    rw [BitVec.getLsbD_of_ge p (w - 1) (by omega)] at hp
    cases hp
  have htop : ∀ c : BitVec w, (shift p c).getLsbD (w - 1) = c.getLsbD 0 := by
    intro c
    have hz : (c >>> 1).getLsbD (w - 1) = false := by
      rw [BitVec.getLsbD_ushiftRight]
      exact BitVec.getLsbD_of_ge c _ (by omega)
    unfold shift
    cases hc : c.getLsbD 0 with
    | false => rw [if_neg (by decide), hz]
    | true => rw [if_pos rfl, BitVec.getLsbD_xor, hz, hp]; rfl
  have hlow : a.getLsbD 0 = b.getLsbD 0 := by rw [← htop a, ← htop b, h]
  have hrest : a >>> 1 = b >>> 1 := by
    unfold shift at h
    rw [hlow] at h
    split at h
    · exact (BitVec.xor_left_inj p).mp h
    · exact h
  apply BitVec.eq_of_getLsbD_eq
  intro i _
  cases i with
  | zero => exact hlow
  | succ i =>
    have hbit := congrArg (fun c => c.getLsbD i) hrest
    simp only [BitVec.getLsbD_ushiftRight] at hbit
    rw [Nat.add_comm i 1]
    exact hbit

theorem shifts_inj {p : BitVec w} (hp : p.getLsbD (w - 1) = true) (n : Nat) : ∀ {a b},
    shifts p n a = shifts p n b → a = b := by
  induction n with
  | zero =>
    intro a b h
    exact h
  | succ n ih =>
    intro a b h
    exact shift_inj hp (ih h)

theorem byteStep_inj {p c c' : BitVec w} {b : BitVec 8} (hp : p.getLsbD (w - 1) = true)
    (h : byteStep p c b = byteStep p c' b) : c = c' := by
  exact (BitVec.xor_left_inj _).mp (shifts_inj hp 8 h)

theorem byteStep_byte_inj {p c : BitVec w} {b b' : BitVec 8} (hp : p.getLsbD (w - 1) = true) (hw : 8 ≤ w)
    (h : byteStep p c b = byteStep p c b') : b = b' := by
  have hx := (BitVec.xor_right_inj c).mp (shifts_inj hp 8 h)
  have hb : ∀ x : BitVec 8, (x.setWidth w).setWidth 8 = x := by
    intro x
    apply BitVec.eq_of_getLsbD_eq
    intro i hi
    simp [hi, Nat.lt_of_lt_of_le hi hw]
  rw [← hb b, hx, hb]

theorem crc_inj {p : BitVec w} (hp : p.getLsbD (w - 1) = true) (bytes : List (BitVec 8)) : ∀ {c c'},
    crc p c bytes = crc p c' bytes → c = c' := by
  induction bytes with
  | nil =>
    intro c c' h
    exact h
  | cons b bytes ih =>
    intro c c' h
    exact byteStep_inj hp (ih h)

/-- One byte makes a difference. -/
theorem crc_ne_of_byte {p : BitVec w} (hp : p.getLsbD (w - 1) = true) (hw : 8 ≤ w) (c : BitVec w)
    (xs ys : List (BitVec 8)) {b b' : BitVec 8} (hb : b ≠ b') :
    crc p c (xs ++ b :: ys) ≠ crc p c (xs ++ b' :: ys) := by
  intro h
  rw [crc_append, crc_append] at h
  exact hb (byteStep_byte_inj hp hw (crc_inj hp ys h))

end BadLands.Core.Crc
