import Mathlib.Data.List.Lex
import BadLands.Core.WrappedMemory

/-!
# The kernel's memory primitives

`memset` and `memcpy` have a path of their own for 64 bytes and more, with a string instruction; the instruction leaves `dest`
behind the last byte it stored. `memset` aligns a pointer of its own before, and starts the instruction at `dest` all the same.

* `memset_eq`, `memcpy_eq`: memory and pointer afterwards.
* `primitives_right_iff`: which calls do what they are for; `memset_bytes_iff` is about the bytes alone.
* `memcmp_orders_iff`: `memcmp` compares its operands in the other order.
-/
namespace BadLands.Mm.Utils

open BadLands.Core BadLands.Core.WrappedMemory

/-! ## The code -/

/-- The `for` over the bytes, with the number of bytes left.
mirrors kernel/src/mm/Utils.cpp:55-60 -/
def copyLoop : Nat → BitVec 64 → BitVec 64 → WrappedMemory → WrappedMemory
  | 0, _, _, m => m
  | n + 1, x, y, m => copyLoop n (x + 1) (y + 1) (store m x (m y))

/-- `rep movsb`: the memory, and the two pointers. -/
def repMovsb : Nat → BitVec 64 → BitVec 64 → WrappedMemory → WrappedMemory × BitVec 64 × BitVec 64
  | 0, rdi, rsi, m => (m, rdi, rsi)
  | n + 1, rdi, rsi, m => repMovsb n (rdi + 1) (rsi + 1) (store m rdi (m rsi))

/-- mirrors kernel/src/mm/Utils.cpp:43-65 -/
def memcpy (dest src count : BitVec 64) (m : WrappedMemory) : WrappedMemory × BitVec 64 :=
  if dest ≠ src then
    if count ≥ 64 then
      let (m, dest, _) := repMovsb count.toNat dest src m
      (m, dest)
    else (copyLoop count.toNat dest src m, dest)
  else (m, dest)

/-- mirrors kernel/src/mm/Utils.cpp:95-98 -/
def fillLoop (ch : BitVec 8) : Nat → BitVec 64 → WrappedMemory → WrappedMemory
  | 0, _, m => m
  | n + 1, p, m => fillLoop ch n (p + 1) (store m p ch)

/-- The bytes up to a multiple of 8, and what is left of `count`.
mirrors kernel/src/mm/Utils.cpp:73-76 -/
def alignLoop (ch : BitVec 8) (dest64 count : BitVec 64) (m : WrappedMemory) : WrappedMemory × BitVec 64 :=
  if h : dest64 % 8 ≠ 0 then alignLoop ch (dest64 + 1) (count - 1) (store m dest64 ch) else (m, count)
termination_by (8 - dest64.toNat % 8) % 8
decreasing_by
  have h' : dest64.toNat % 8 ≠ 0 := by
    intro h0
    apply h
    apply BitVec.eq_of_toNat_eq
    simpa using h0
  have hone : (1 : BitVec 64).toNat = 1 := rfl
  rw [BitVec.toNat_add, hone]
  omega

/-- mirrors kernel/src/mm/Utils.cpp:78-81 -/
def ch16 (ch : BitVec 32) : BitVec 16 := (((ch.setWidth 16).setWidth 32 <<< 8) ||| (ch.setWidth 8).setWidth 32).setWidth 16

def ch32 (ch : BitVec 32) : BitVec 32 := ((ch16 ch).setWidth 32 <<< 16) ||| (ch16 ch).setWidth 32

def ch64 (ch : BitVec 32) : BitVec 64 := ((ch32 ch).setWidth 64 <<< 32) ||| (ch32 ch).setWidth 64

/-- `rep stosq`: the memory, and the pointer. -/
def repStosq (rax : BitVec 64) : Nat → BitVec 64 → WrappedMemory → WrappedMemory × BitVec 64
  | 0, rdi, m => (m, rdi)
  | n + 1, rdi, m => repStosq rax n (rdi + 8) (stores m rdi 8 fun i => (rax >>> (8 * i)).setWidth 8)

/-- mirrors kernel/src/mm/Utils.cpp:68 -/
def minStosqCount : BitVec 64 := 64

/-- mirrors kernel/src/mm/Utils.cpp:67-101 -/
def memset (dest : BitVec 64) (ch : BitVec 32) (count : BitVec 64) (m : WrappedMemory) : WrappedMemory × BitVec 64 :=
  if count ≥ minStosqCount then
    let (m, count) := alignLoop (ch.setWidth 8) dest count m
    let (m, dest) := repStosq (ch64 ch) (count / 8).toNat dest m
    (fillLoop (ch.setWidth 8) (count % 8).toNat dest m, dest)
  else (fillLoop (ch.setWidth 8) count.toNat dest m, dest)

/-- mirrors kernel/src/mm/Utils.cpp:21-23 -/
def memcmpLess : Int := -1
def memcmpEqual : Int := 0
def memcmpGreater : Int := 1

/-- The `for` over the bytes, with the number of bytes left.
mirrors kernel/src/mm/Utils.cpp:26-37 -/
def memcmpLoop (m : WrappedMemory) : Nat → BitVec 64 → BitVec 64 → Int
  | 0, _, _ => memcmpEqual
  | n + 1, lhs, rhs =>
    let x := m rhs
    let y := m lhs
    if x ≠ y then
      if x < y then memcmpLess else memcmpGreater
    else memcmpLoop m n (lhs + 1) (rhs + 1)

/-- mirrors kernel/src/mm/Utils.cpp:20-41 -/
def memcmp (m : WrappedMemory) (lhs rhs count : BitVec 64) : Int :=
  if lhs ≠ rhs then memcmpLoop m count.toNat lhs rhs else memcmpEqual

/-! ## Copying -/

section
variable {m : WrappedMemory} {dest src count x y : BitVec 64} {n : Nat}

/-- A run that is apart, without its first byte. -/
theorem apart_next (hn : n + 1 ≤ 2 ^ 64) (h : Apart x y (n + 1)) : Apart (x + 1) (y + 1) n := by
  intro q ⟨hx, hy⟩
  refine h q ⟨?_, ?_⟩
  · unfold offset at *
    bv_omega
  · unfold offset at *
    bv_omega

theorem copyLoop_eq (n : Nat) (x y : BitVec 64) (m : WrappedMemory) (hn : n ≤ 2 ^ 64) (h : Apart x y n) :
    copyLoop n x y m = stores m x n fun i => m (y + BitVec.ofNat 64 i) := by
  induction n generalizing x y m with
  | zero => rw [stores_zero, copyLoop]
  | succ n ih =>
    have hfirst : store m x (m y) = store m x (m (y + BitVec.ofNat 64 0)) := by simp
    rw [copyLoop, ih _ _ _ (by omega) (apart_next hn h)]
    have hread : ∀ i, i < n → store m x (m y) (y + 1 + BitVec.ofNat 64 i) = m (y + BitVec.ofNat 64 (i + 1)) := fun i hi => by
      have haddress : y + 1 + BitVec.ofNat 64 i = y + BitVec.ofNat 64 (i + 1) := by bv_omega
      rw [haddress]
      refine if_neg fun heq => h x ⟨by simp, ?_⟩
      rw [← heq, offset_add (by omega)]
      omega
    rw [stores_congr hread, hfirst, stores_succ (f := fun i => m (y + BitVec.ofNat 64 i)) hn]

theorem repMovsb_eq (n : Nat) (x y : BitVec 64) (m : WrappedMemory) :
    repMovsb n x y m = (copyLoop n x y m, x + BitVec.ofNat 64 n, y + BitVec.ofNat 64 n) := by
  induction n generalizing x y m with
  | zero => simp [repMovsb, copyLoop]
  | succ n ih =>
    have hx : x + 1 + BitVec.ofNat 64 n = x + BitVec.ofNat 64 (n + 1) := by bv_omega
    have hy : y + 1 + BitVec.ofNat 64 n = y + BitVec.ofNat 64 (n + 1) := by bv_omega
    rw [repMovsb, ih, copyLoop, hx, hy]

/-- Apart, the ranges are copied; long ones move the pointer that is returned. -/
theorem memcpy_eq (h : Apart dest src count.toNat) : memcpy dest src count m =
    (stores m dest count.toNat fun i => m (src + BitVec.ofNat 64 i), if count ≥ 64 then dest + count else dest) := by
  have hcount := count.isLt
  unfold memcpy
  by_cases heq : dest = src
  · -- nothing is apart from itself
    have hzero : count.toNat = 0 := Nat.eq_zero_of_not_pos fun hpos => h dest ⟨by simpa using hpos, by
      rw [← heq]
      simpa using hpos⟩
    have hsmall : ¬ count ≥ 64 := by bv_omega
    rw [if_neg (not_not_intro heq), hzero, stores_zero, if_neg hsmall]
  · rw [if_pos heq, repMovsb_eq, copyLoop_eq _ _ _ _ (by omega) h]
    split
    · simp
    · rfl

end

/-! ## Filling -/

/-- The bytes before the first multiple of 8. -/
def padding (dest : BitVec 64) : Nat := (8 - dest.toNat % 8) % 8

section
variable {m : WrappedMemory} {dest count : BitVec 64} {ch : BitVec 32} {b : BitVec 8} {n : Nat}

theorem fillLoop_eq (n : Nat) (p : BitVec 64) (m : WrappedMemory) (hn : n ≤ 2 ^ 64) :
    fillLoop b n p m = stores m p n fun _ => b := by
  induction n generalizing p m with
  | zero => simp [fillLoop]
  | succ n ih =>
    rw [fillLoop, ih _ _ (by omega)]
    exact stores_succ (f := fun _ => b) hn

theorem alignLoop_eq (b : BitVec 8) (dest count : BitVec 64) (m : WrappedMemory) :
    alignLoop b dest count m = (stores m dest (padding dest) fun _ => b, count - BitVec.ofNat 64 (padding dest)) := by
  fun_induction alignLoop b dest count m with
  | case1 dest count m h ih =>
    have hmod : dest.toNat % 8 ≠ 0 := by
      intro h0
      apply h
      apply BitVec.eq_of_toNat_eq
      simpa using h0
    have hpadding : padding dest = padding (dest + 1) + 1 := by
      unfold padding
      bv_omega
    have hcount : count - 1 - BitVec.ofNat 64 (padding (dest + 1)) = count - BitVec.ofNat 64 (padding (dest + 1) + 1) := by
      bv_omega
    have hsmall : padding (dest + 1) < 8 := Nat.mod_lt _ (by decide)
    rw [ih, hpadding, hcount, ← stores_succ (f := fun _ => b) (by omega)]
  | case2 dest count m h =>
    have hmod : dest.toNat % 8 = 0 := by
      have h0 := congrArg BitVec.toNat (not_not.mp h)
      simpa using h0
    have hpadding : padding dest = 0 := by
      unfold padding
      omega
    simp [hpadding]

/-- A word twice, side by side. -/
theorem getLsbD_twice {w v k : Nat} (x : BitVec w) (hv : v = 2 * w) (hk : k < v) :
    ((x.setWidth v <<< w) ||| x.setWidth v).getLsbD k = x.getLsbD (k % w) := by
  rw [BitVec.getLsbD_or, BitVec.getLsbD_shiftLeft, BitVec.getLsbD_setWidth, BitVec.getLsbD_setWidth, decide_eq_true hk]
  rcases Nat.lt_or_ge k w with hlow | hhigh
  · simp [hlow, Nat.mod_eq_of_lt hlow]
  · have hmod : k % w = k - w := by
      rw [Nat.mod_eq_sub_mod hhigh, Nat.mod_eq_of_lt (by omega)]
    have hin : k - w < v := by omega
    have hout : x.getLsbD k = false := BitVec.getLsbD_of_ge x k hhigh
    simp [hmod, hin, hout, Nat.not_lt.mpr hhigh]

theorem ch16_eq (ch : BitVec 32) : ch16 ch = ((ch.setWidth 8).setWidth 16 <<< 8) ||| (ch.setWidth 8).setWidth 16 := by
  apply BitVec.eq_of_getLsbD_eq
  intro k hk
  have h32 : k < 32 := by omega
  have hback : k - 8 < 32 ∧ k - 8 < 16 := by omega
  simp only [ch16, BitVec.getLsbD_setWidth, BitVec.getLsbD_or, BitVec.getLsbD_shiftLeft, decide_eq_true hk,
    decide_eq_true h32, decide_eq_true hback.1, decide_eq_true hback.2, Bool.true_and]
  have h8 : k - 8 < 8 := by omega
  rw [decide_eq_true h8, Bool.true_and]

/-- Each byte of the pattern is the low byte of `ch`. -/
theorem ch64_byte (ch : BitVec 32) {i : Nat} (hi : i < 8) : (ch64 ch >>> (8 * i)).setWidth 8 = ch.setWidth 8 := by
  apply BitVec.eq_of_getLsbD_eq
  intro j hj
  have hword : 8 * i + j < 64 := by omega
  have hmod : (8 * i + j) % 32 % 16 % 8 = j := by omega
  have hbit : (ch64 ch).getLsbD (8 * i + j) = (ch.setWidth 8).getLsbD j := by
    unfold ch64 ch32
    rw [getLsbD_twice _ rfl hword, getLsbD_twice _ rfl (Nat.mod_lt _ (by decide)), ch16_eq,
      getLsbD_twice _ rfl (Nat.mod_lt _ (by decide)), hmod]
  rw [BitVec.getLsbD_setWidth, BitVec.getLsbD_ushiftRight, hbit, decide_eq_true hj, Bool.true_and]

theorem repStosq_eq {rax : BitVec 64} (hrax : ∀ i, i < 8 → (rax >>> (8 * i)).setWidth 8 = b) (n : Nat) (p : BitVec 64)
    (m : WrappedMemory) (hn : 8 * n ≤ 2 ^ 64) :
    repStosq rax n p m = (stores m p (8 * n) fun _ => b, p + BitVec.ofNat 64 (8 * n)) := by
  induction n generalizing p m with
  | zero => simp [repStosq]
  | succ n ih =>
    have hword : (stores m p 8 fun i => (rax >>> (8 * i)).setWidth 8) = stores m p 8 fun _ => b := stores_congr hrax
    have hnext : p + 8 + BitVec.ofNat 64 (8 * n) = p + BitVec.ofNat 64 (8 * (n + 1)) := by bv_omega
    have hrest := stores_append (m := m) (a := p) (k := 8) (n := 8 * n) (f := fun _ => b) (by omega)
    rw [repStosq, hword, ih _ _ (by omega), hnext, Nat.mul_succ, Nat.add_comm (8 * n), ← hrest]
    rfl

/-- What is filled: of a long range that is not aligned, the last bytes are left out. -/
def filled (dest count : BitVec 64) : Nat := if count ≥ 64 then count.toNat - padding dest else count.toNat

theorem memset_eq : memset dest ch count m = (stores m dest (filled dest count) fun _ => ch.setWidth 8,
    if count ≥ 64 then dest + BitVec.ofNat 64 (filled dest count / 8 * 8) else dest) := by
  have hlt := count.isLt
  have hpadding : padding dest < 8 := Nat.mod_lt _ (by decide)
  unfold memset minStosqCount filled
  by_cases hlong : count ≥ 64
  · have hcount : 64 ≤ count.toNat := hlong
    have hleft : (count - BitVec.ofNat 64 (padding dest)).toNat = count.toNat - padding dest := by bv_omega
    rw [if_pos hlong, if_pos hlong, if_pos hlong, alignLoop_eq]
    dsimp only
    rw [BitVec.toNat_udiv, BitVec.toNat_umod, hleft]
    generalize hl : count.toNat - padding dest = l
    have hsplit : 8 * (l / 8) + l % 8 = l := Nat.div_add_mod l 8
    -- the words, and the bytes behind them
    have hfill := stores_append (m := m) (a := dest) (k := 8 * (l / 8)) (n := l % 8) (f := fun _ => ch.setWidth 8) (by omega)
    rw [hsplit] at hfill
    have height : (8 : BitVec 64).toNat = 8 := rfl
    rw [height, repStosq_eq (fun i hi => ch64_byte ch hi) _ _ _ (by omega)]
    dsimp only
    rw [stores_over (by omega), fillLoop_eq _ _ _ (by omega), hfill, Nat.mul_comm]
  · rw [if_neg hlong, if_neg hlong, if_neg hlong, fillLoop_eq _ _ _ (by omega)]

end

/-! ## What the primitives are for -/

/-- The bytes of the range, nothing else, and `dest` is returned. -/
def Sets (m : WrappedMemory) (dest : BitVec 64) (ch : BitVec 32) (count : BitVec 64) (r : WrappedMemory × BitVec 64) : Prop :=
  (∀ q, r.1 q = if offset dest q < count.toNat then ch.setWidth 8 else m q) ∧ r.2 = dest

def Copies (m : WrappedMemory) (dest src count : BitVec 64) (r : WrappedMemory × BitVec 64) : Prop :=
  (∀ q, r.1 q = if offset dest q < count.toNat then m (src + BitVec.ofNat 64 (offset dest q)) else m q) ∧ r.2 = dest

section
variable {m : WrappedMemory} {dest src count : BitVec 64} {ch : BitVec 32}

theorem moved {n : Nat} (h : 0 < n) (hlt : n < 2 ^ 64) : dest + BitVec.ofNat 64 n ≠ dest := by
  intro heq
  have hoffset := offset_add (a := dest) hlt
  rw [heq, offset_self] at hoffset
  omega

theorem filled_long (dest : BitVec 64) (hlong : count ≥ 64) : 56 < filled dest count ∧ filled dest count < 2 ^ 64 := by
  have hlt := count.isLt
  have hcount : 64 ≤ count.toNat := hlong
  have hpadding : padding dest < 8 := Nat.mod_lt _ (by decide)
  unfold filled
  rw [if_pos hlong]
  omega

/-- A long range that is not aligned has the bytes only if they were there before. -/
theorem memset_bytes_iff : (∀ q, (memset dest ch count m).1 q = if offset dest q < count.toNat then ch.setWidth 8 else m q) ↔
    (64 ≤ count → ∀ q, count.toNat - padding dest ≤ offset dest q → offset dest q < count.toNat → m q = ch.setWidth 8) := by
  have hle : filled dest count ≤ count.toNat := by
    unfold filled
    split <;> omega
  rw [memset_eq]
  unfold stores
  dsimp only
  constructor
  · intro h hlong q hlow hhigh
    have hq := h q
    have hout : ¬ offset dest q < filled dest count := by
      unfold filled
      rw [if_pos hlong]
      omega
    rwa [if_neg hout, if_pos hhigh] at hq
  · intro h q
    by_cases hin : offset dest q < filled dest count
    · rw [if_pos hin, if_pos (by omega)]
    · rw [if_neg hin]
      split
      · next hhigh =>
        unfold filled at hin
        split at hin
        · next hlong => exact h hlong q (by omega) hhigh
        · exact absurd hhigh hin
      · rfl

/-- The string instructions do not give `dest` back. -/
theorem primitives_right_iff (m : WrappedMemory) (dest src count : BitVec 64) (ch : BitVec 32) :
    (Sets m dest ch count (memset dest ch count m) ↔ count < 64) ∧
      (Apart dest src count.toNat → (Copies m dest src count (memcpy dest src count m) ↔ count < 64)) := by
  have hcount : (64 : BitVec 64).toNat = 64 := rfl
  refine ⟨⟨fun h => ?_, fun h => ⟨?_, ?_⟩⟩, fun happart => ⟨fun h => ?_, fun h => ⟨fun q => ?_, ?_⟩⟩⟩
  · have hdest := h.2
    rw [memset_eq] at hdest
    refine BitVec.not_le.mp fun hlong => ?_
    obtain ⟨hlow, hhigh⟩ := filled_long dest hlong
    rw [if_pos hlong] at hdest
    exact moved (by omega) (by omega) hdest
  · exact memset_bytes_iff.mpr fun hlong => absurd h (BitVec.not_lt.mpr hlong)
  · rw [memset_eq]
    exact if_neg (BitVec.not_le.mpr h)
  · have hdest := h.2
    rw [memcpy_eq happart] at hdest
    refine BitVec.not_le.mp fun hlong => ?_
    have hlow : 64 ≤ count.toNat := hlong
    rw [if_pos hlong] at hdest
    have hreturn : dest + BitVec.ofNat 64 count.toNat = dest := by simpa using hdest
    exact moved (by omega) count.isLt hreturn
  · rw [memcpy_eq happart]
    rfl
  · rw [memcpy_eq happart]
    exact if_neg (BitVec.not_le.mpr h)

/-- 64 bytes on two pages. -/
theorem primitives_right_page :
    ¬ Copies (fun _ => 0#8) 0x1000 0x2000 64 (memcpy 0x1000 0x2000 64 fun _ => 0#8) := by
  have happart : Apart 0x1000 0x2000 (64 : BitVec 64).toNat := fun q ⟨hx, hy⟩ => by
    unfold offset at hx hy
    bv_omega
  exact fun h => absurd (((primitives_right_iff (fun _ => 0#8) 0x1000 0x2000 64 0).2 happart).mp h) (by decide)

/-- Of 64 bytes from an odd address on, the last seven stay, and the pointer that is returned is behind seven words. -/
theorem memset_short : (memset 0x1001 0x41 64 fun _ => 0#8).1 0x1040 = 0#8 ∧
    (memset 0x1001 0x41 64 fun _ => 0#8).2 = 0x1039 ∧
    ¬ Sets (fun _ => 0#8) 0x1001 0x41 64 (memset 0x1001 0x41 64 fun _ => 0#8) := by
  have hlast : (memset 0x1001 0x41 64 fun _ => 0#8).1 0x1040 = 0#8 := by
    rw [memset_eq]
    rfl
  refine ⟨hlast, ?_, fun h => ?_⟩
  · rw [memset_eq]
    rfl
  · have hset := h.1 0x1040
    rw [hlast] at hset
    revert hset
    decide

end

/-! ## Comparing -/

section
variable {m : WrappedMemory} {lhs rhs count : BitVec 64} {n : Nat}

/-- The order of the two operands is that of `rhs` and `lhs`. -/
theorem memcmpLoop_eq (n : Nat) (lhs rhs : BitVec 64) : memcmpLoop m n lhs rhs =
    if bytes m rhs n < bytes m lhs n then memcmpLess else if bytes m lhs n < bytes m rhs n then memcmpGreater else memcmpEqual := by
  induction n generalizing lhs rhs with
  | zero => simp [memcmpLoop, bytes]
  | succ n ih =>
    rw [memcmpLoop, bytes, bytes]
    by_cases hne : m rhs ≠ m lhs
    · rw [if_pos hne]
      have hvalue : (m rhs).toNat ≠ (m lhs).toNat := fun h => hne (BitVec.eq_of_toNat_eq h)
      simp only [List.cons_lt_cons_iff, hvalue, hvalue.symm, false_and, or_false, BitVec.lt_def]
      split
      · rfl
      · next hge => rw [if_pos (by omega)]
    · have heq : m rhs = m lhs := not_not.mp hne
      rw [if_neg hne, ih, heq]
      simp

theorem memcmp_eq (m : WrappedMemory) (lhs rhs count : BitVec 64) : memcmp m lhs rhs count =
    if bytes m rhs count.toNat < bytes m lhs count.toNat then memcmpLess
    else if bytes m lhs count.toNat < bytes m rhs count.toNat then memcmpGreater else memcmpEqual := by
  unfold memcmp
  by_cases heq : lhs = rhs
  · rw [if_neg (not_not_intro heq), heq, if_neg (lt_irrefl _), if_neg (lt_irrefl _)]
  · rw [if_pos heq, memcmpLoop_eq]

/-- Nothing but the order of the bytes decides the sign. -/
theorem memcmp_le_zero : memcmp m lhs rhs count ≤ 0 ↔ bytes m rhs count.toNat ≤ bytes m lhs count.toNat := by
  rw [memcmp_eq, ← not_lt]
  split
  · next h => simp [memcmpLess, h.le]
  · next hge =>
    split
    · next h => simp [memcmpGreater, h]
    · next h => simpa [memcmpEqual] using h

theorem memcmp_eq_zero : memcmp m lhs rhs count = 0 ↔ bytes m lhs count.toNat = bytes m rhs count.toNat := by
  rw [memcmp_eq]
  split
  · next h => simp [memcmpLess, h.ne']
  · next hge =>
    split
    · next h => simp [memcmpGreater, h.ne]
    · next h => simpa [memcmpEqual] using le_antisymm (not_lt.mp hge) (not_lt.mp h)

/-- The first `count` bytes are the same. -/
def Agree (m : WrappedMemory) (lhs rhs count : BitVec 64) : Prop :=
  ∀ i, i < count.toNat → m (lhs + BitVec.ofNat 64 i) = m (rhs + BitVec.ofNat 64 i)

/-- Zero for equal bytes, otherwise the sign of the first difference. -/
def Orders (m : WrappedMemory) (lhs rhs count : BitVec 64) (r : Int) : Prop :=
  (r = 0 ↔ Agree m lhs rhs count) ∧ ∀ i, i < count.toNat →
    (∀ j, j < i → m (lhs + BitVec.ofNat 64 j) = m (rhs + BitVec.ofNat 64 j)) →
    m (lhs + BitVec.ofNat 64 i) ≠ m (rhs + BitVec.ofNat 64 i) →
    r.sign = ((m (lhs + BitVec.ofNat 64 i)).toNat - (m (rhs + BitVec.ofNat 64 i)).toNat : Int).sign

/-- The sign is the other one. -/
theorem memcmp_reversed {i : Nat} (hi : i < count.toNat)
    (hsame : ∀ j, j < i → m (lhs + BitVec.ofNat 64 j) = m (rhs + BitVec.ofNat 64 j))
    (hdiff : m (lhs + BitVec.ofNat 64 i) ≠ m (rhs + BitVec.ofNat 64 i)) :
    (memcmp m lhs rhs count).sign =
      ((m (rhs + BitVec.ofNat 64 i)).toNat - (m (lhs + BitVec.ofNat 64 i)).toNat : Int).sign := by
  have hvalue : (m (lhs + BitVec.ofNat 64 i)).toNat ≠ (m (rhs + BitVec.ofNat 64 i)).toNat := fun h =>
    hdiff (BitVec.eq_of_toNat_eq h)
  have hless := bytes_lt lhs rhs hi hsame hdiff
  have hgreater := bytes_lt rhs lhs hi (fun j hj => (hsame j hj).symm) hdiff.symm
  rw [memcmp_eq]
  split
  · next h =>
    rw [Int.sign_eq_neg_one_of_neg (a := _ - _) (by have := hgreater.mp h; omega)]
    rfl
  · next h =>
    have hlt := mt hgreater.mpr h
    rw [if_pos (hless.mpr (by omega)), Int.sign_eq_one_of_pos (a := _ - _) (by omega)]
    rfl

theorem exists_first {P : Nat → Prop} [DecidablePred P] (h : ¬ ∀ i, i < n → P i) :
    ∃ i, i < n ∧ (∀ j, j < i → P j) ∧ ¬ P i := by
  have hex : ∃ i, i < n ∧ ¬ P i := by
    by_contra hall
    exact h fun i hi => not_not.mp fun hp => hall ⟨i, hi, hp⟩
  obtain ⟨hlt, hnot⟩ := Nat.find_spec hex
  refine ⟨Nat.find hex, hlt, fun j hj => not_not.mp fun hp => Nat.find_min hex hj ⟨by omega, hp⟩, hnot⟩

/-- The order is a total preorder on the bytes all the same, that of the operands in the other order. -/
theorem memcmp_orders_iff (m : WrappedMemory) (lhs rhs count : BitVec 64) :
    (Orders m lhs rhs count (memcmp m lhs rhs count) ↔ Agree m lhs rhs count) ∧
      memcmp m rhs lhs count = -memcmp m lhs rhs count ∧
      ∀ mid, memcmp m lhs mid count ≤ 0 → memcmp m mid rhs count ≤ 0 → memcmp m lhs rhs count ≤ 0 := by
  have hagree : memcmp m lhs rhs count = 0 ↔ Agree m lhs rhs count := memcmp_eq_zero.trans (bytes_eq lhs rhs count.toNat)
  refine ⟨⟨fun h => ?_, fun h => ⟨hagree, fun i hi _ hdiff => absurd (h i hi) hdiff⟩⟩, ?_, fun mid h h' => ?_⟩
  · by_contra hnot
    obtain ⟨i, hi, hsame, hdiff⟩ := exists_first hnot
    have hsign := h.2 i hi hsame hdiff
    have hvalue : (m (lhs + BitVec.ofNat 64 i)).toNat ≠ (m (rhs + BitVec.ofNat 64 i)).toNat := fun heq =>
      hdiff (BitVec.eq_of_toNat_eq heq)
    rw [memcmp_reversed hi hsame hdiff] at hsign
    -- a difference has not the sign of its opposite
    rw [← Int.neg_sub, Int.sign_neg] at hsign
    have hzero : ((m (lhs + BitVec.ofNat 64 i)).toNat - (m (rhs + BitVec.ofNat 64 i)).toNat : Int) = 0 :=
      Int.sign_eq_zero_iff_zero.mp (by omega)
    omega
  · rw [memcmp_eq, memcmp_eq]
    split
    · next hlt => rw [if_neg hlt.le.not_gt]; rfl
    · split
      · rfl
      · rfl
  · exact memcmp_le_zero.mpr (le_trans (memcmp_le_zero.mp h') (memcmp_le_zero.mp h))

/-- "a" and "b". -/
theorem memcmp_b_first : memcmp (fun q => if q = 0 then 0x61#8 else 0x62#8) 0 1 1 = 1 ∧
    ¬ Orders (fun q => if q = 0 then 0x61#8 else 0x62#8) 0 1 1 (memcmp (fun q => if q = 0 then 0x61#8 else 0x62#8) 0 1 1) := by
  refine ⟨by decide, fun h => ?_⟩
  have hsign := h.2 0 (by decide) (fun j hj => absurd hj (Nat.not_lt_zero j)) (by decide)
  revert hsign
  decide

end

end BadLands.Mm.Utils
