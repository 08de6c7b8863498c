import BadLands.Core.Numerals

/-!
# `itoa` and `utoa`

The kernel and the loader have the same two functions, but for the array that the digits are collected
in: 22 characters there, 12 here. Characters are their codes.

* `itoa_right_iff`, `utoa_right_iff`: the text is right exactly when the digits fit the array.
* `digits_fit`: in the kernel they always do.
* `conversion_iff`: in the loader they do below the twelfth power of the radix.
-/
namespace BadLands.Format

open BadLands.Core.Numerals

/-! ## The code -/

/-- The digits so far, the last one first, with room for `left` more. `none` is a write behind the array. -/
def collect (radix : Nat) : Nat → Nat → List Nat → Option (List Nat)
  | 0, v, tmp => if v = 0 ∧ tmp ≠ [] then some tmp else none
  | left + 1, v, tmp =>
    if v = 0 ∧ tmp ≠ [] then some tmp else collect radix left (v / radix) (digitChar (v % radix) :: tmp)

/-- What is written to `buffer`, and the result. -/
structure Converted where
  written : List Nat
  length : Nat
  deriving DecidableEq, Repr

/-- `itoa` with an array of `room` characters. The most negative number is its own opposite. -/
def itoaWith (room : Nat) (x : BitVec 64) (radix : Nat) : Option Converted :=
  let sign := radix = 10 ∧ x.toInt < 0
  let v := if sign then (-x).toNat else x.toNat
  (collect radix room v []).map fun tmp =>
    ⟨(if sign then ['-'.toNat] else []) ++ tmp ++ [0], tmp.length + if sign then 1 else 0⟩

def utoaWith (room : Nat) (x : BitVec 64) (radix : Nat) : Option Converted :=
  (collect radix room x.toNat []).map fun tmp => ⟨tmp ++ [0], tmp.length⟩

namespace Kernel

/-- mirrors kernel/src/screen/Format.cpp:82-125 -/
def itoa (x : BitVec 64) (radix : Nat) : Option Converted := itoaWith 22 x radix

/-- mirrors kernel/src/screen/Format.cpp:127-155 -/
def utoa (x : BitVec 64) (radix : Nat) : Option Converted := utoaWith 22 x radix

end Kernel

namespace Loader

/-- mirrors bootloader/src/ldstdlib/itoa.cpp:19-58 -/
def itoa (x : BitVec 64) (radix : Nat) : Option Converted := itoaWith 12 x radix

/-- mirrors bootloader/src/ldstdlib/itoa.cpp:60-88 -/
def utoa (x : BitVec 64) (radix : Nat) : Option Converted := utoaWith 12 x radix

end Loader

/-! ## The property -/

/-- A number that may have a sign. -/
def parseSigned (radix : Nat) : List Nat → Option Int
  | [] => none
  | c :: text =>
    if c = '-'.toNat then Option.map (fun n : Nat => -(n : Int)) (parse radix text)
    else Option.map (fun n : Nat => (n : Int)) (parse radix (c :: text))

/-- The number that `itoa` takes the digits of. -/
def magnitude (x : BitVec 64) (radix : Nat) : Nat := if radix = 10 then x.toInt.natAbs else x.toNat

/-- A text of so many characters is written, with its NUL, and it is the number: with a sign in radix 10. -/
def ItoaRight (itoa : BitVec 64 → Nat → Option Converted) (x : BitVec 64) (radix : Nat) : Prop :=
  ∃ text, itoa x radix = some ⟨text ++ [0], text.length⟩ ∧
    if radix = 10 then parseSigned 10 text = some x.toInt else parse radix text = some x.toNat

def UtoaRight (utoa : BitVec 64 → Nat → Option Converted) (x : BitVec 64) (radix : Nat) : Prop :=
  ∃ text, utoa x radix = some ⟨text ++ [0], text.length⟩ ∧ parse radix text = some x.toNat

section
variable {room radix v : Nat} {x : BitVec 64}

/-! ## The digits -/

/-- The digits are the numeral, when there is room for it. -/
theorem collect_eq (hradix : 1 < radix) : ∀ (left v : Nat) (tmp : List Nat), v ≠ 0 ∨ tmp = [] →
    collect radix left v tmp =
      if (numeral radix v).length ≤ left then some (numeral radix v ++ tmp) else none
  | 0, v, tmp, h => by
    have hpos := length_numeral_pos radix v
    have hmore : ¬ (v = 0 ∧ tmp ≠ []) := fun hn => h.elim (fun hv => hv hn.1) fun ht => hn.2 ht
    rw [collect, if_neg hmore, if_neg (by omega)]
  | left + 1, v, tmp, h => by
    have hmore : ¬ (v = 0 ∧ tmp ≠ []) := fun hn => h.elim (fun hv => hv hn.1) fun ht => hn.2 ht
    rw [collect, if_neg hmore]
    rcases Nat.lt_or_ge v radix with hlt | hge
    · have hdone : ∀ (left : Nat) (tmp : List Nat), tmp ≠ [] → collect radix left 0 tmp = some tmp := fun left tmp ht => by
        cases left <;> exact if_pos ⟨rfl, ht⟩
      rw [Nat.div_eq_of_lt hlt, Nat.mod_eq_of_lt hlt, hdone _ _ (List.cons_ne_nil _ _), numeral_of_lt hlt, if_pos]
      · rfl
      · exact Nat.succ_le_succ (Nat.zero_le left)
    · have hrest : v / radix ≠ 0 := Nat.ne_of_gt (Nat.div_pos hge (by omega))
      rw [collect_eq hradix left (v / radix) _ (.inl hrest), numeral_div hradix hge, List.length_append,
        List.length_singleton, List.append_assoc, List.singleton_append]
      split
      · next hfit => rw [if_pos (by omega)]
      · next hfull => rw [if_neg (by omega)]

/-- With a room of some size. -/
theorem collect_nil (hradix : 1 < radix) (hroom : 0 < room) (v : Nat) :
    collect radix room v [] = if v < radix ^ room then some (numeral radix v) else none := by
  rw [collect_eq hradix room v [] (.inr rfl), List.append_nil]
  exact if_congr (length_numeral_le hradix hroom) rfl rfl

theorem toNat_neg_of_negative (h : x.toInt < 0) : (-x).toNat = x.toInt.natAbs := by
  have hx := x.isLt
  rw [BitVec.toNat_neg]
  rw [BitVec.toInt_eq_toNat_cond] at h ⊢
  split at h
  · omega
  · next hbig =>
    rw [if_neg hbig]
    omega

theorem toNat_of_nonneg (h : ¬ x.toInt < 0) : x.toNat = x.toInt.natAbs := by
  rw [BitVec.toInt_eq_toNat_cond] at h ⊢
  split at h
  · next hsmall => rw [if_pos hsmall, Int.natAbs_natCast]
  · omega

/-- The sign, and the digits of the magnitude. -/
theorem itoaWith_eq (hradix : 1 < radix) (hroom : 0 < room) (x : BitVec 64) : itoaWith room x radix =
    let sign := if radix = 10 ∧ x.toInt < 0 then ['-'.toNat] else []
    let text := sign ++ numeral radix (magnitude x radix)
    if magnitude x radix < radix ^ room then some ⟨text ++ [0], text.length⟩ else none := by
  have hv : (if radix = 10 ∧ x.toInt < 0 then (-x).toNat else x.toNat) = magnitude x radix := by
    unfold magnitude
    by_cases h10 : radix = 10
    · rw [if_pos h10]
      split
      · next hneg => exact toNat_neg_of_negative hneg.2
      · next hpos => exact toNat_of_nonneg fun hneg => hpos ⟨h10, hneg⟩
    · rw [if_neg h10, if_neg fun h => h10 h.1]
  unfold itoaWith
  dsimp only
  rw [hv, collect_nil hradix hroom]
  by_cases hfit : magnitude x radix < radix ^ room
  · rw [if_pos hfit, if_pos hfit, Option.map_some]
    split
    · rw [List.length_append, List.length_singleton, Nat.add_comm]
    · rw [List.nil_append, Nat.add_zero]
  · rw [if_neg hfit, if_neg hfit, Option.map_none]

theorem utoaWith_eq (hradix : 1 < radix) (hroom : 0 < room) (x : BitVec 64) : utoaWith room x radix =
    if x.toNat < radix ^ room then some ⟨numeral radix x.toNat ++ [0], (numeral radix x.toNat).length⟩ else none := by
  unfold utoaWith
  rw [collect_nil hradix hroom]
  split <;> rfl

/-! ## The text -/

/-- The first character of a numeral is no sign. -/
theorem numeral_head (hradix : 1 < radix) (h16 : radix ≤ 16) (v : Nat) :
    ∃ c text, numeral radix v = c :: text ∧ c ≠ '-'.toNat := by
  have hsign : ∀ i, i < 16 → digitChar i ≠ '-'.toNat := by decide
  cases htext : numeral radix v with
  | nil => exact absurd htext (numeral_ne_nil radix v)
  | cons c text =>
    obtain ⟨i, hi, rfl⟩ := mem_numeral hradix (v := v) (c := c) (by rw [htext]; exact List.mem_cons_self)
    exact ⟨_, text, rfl, hsign i (Nat.lt_of_lt_of_le hi h16)⟩

theorem parseSigned_numeral (hradix : 1 < radix) (h16 : radix ≤ 16) (v : Nat) :
    parseSigned radix (numeral radix v) = some (v : Int) := by
  obtain ⟨c, text, htext, hc⟩ := numeral_head hradix h16 v
  rw [htext, parseSigned, if_neg hc, ← htext, parse_numeral hradix h16, Option.map_some]

theorem itoa_right_iff (hradix : 1 < radix) (h16 : radix ≤ 16) (hroom : 0 < room) (x : BitVec 64) :
    ItoaRight (itoaWith room) x radix ↔ magnitude x radix < radix ^ room := by
  unfold ItoaRight
  rw [itoaWith_eq hradix hroom]
  dsimp only
  constructor
  · rintro ⟨text, hrun, -⟩
    by_contra hover
    rw [if_neg hover] at hrun
    cases hrun
  · intro hfit
    rw [if_pos hfit]
    refine ⟨_, rfl, ?_⟩
    by_cases h10 : radix = 10
    · subst h10
      rw [if_pos rfl]
      unfold magnitude
      rw [if_pos rfl]
      by_cases hneg : x.toInt < 0
      · rw [if_pos ⟨rfl, hneg⟩, List.singleton_append, parseSigned, if_pos rfl, parse_numeral hradix h16, Option.map_some]
        congr 1
        omega
      · rw [if_neg fun h => hneg h.2, List.nil_append, parseSigned_numeral hradix h16]
        congr 1
        omega
    · unfold magnitude
      rw [if_neg h10, if_neg fun h => h10 h.1, List.nil_append, if_neg h10]
      exact parse_numeral hradix h16 _

theorem utoa_right_iff (hradix : 1 < radix) (h16 : radix ≤ 16) (hroom : 0 < room) (x : BitVec 64) :
    UtoaRight (utoaWith room) x radix ↔ x.toNat < radix ^ room := by
  unfold UtoaRight
  rw [utoaWith_eq hradix hroom]
  constructor
  · rintro ⟨text, hrun, -⟩
    by_contra hover
    rw [if_neg hover] at hrun
    cases hrun
  · intro hfit
    rw [if_pos hfit]
    exact ⟨_, rfl, parse_numeral hradix h16 _⟩

/-- The kernel's arrays are long enough for every number, from radix 8 on. -/
theorem digits_fit (hradix : 8 ≤ radix) (x : BitVec 64) : magnitude x radix < radix ^ 22 ∧ x.toNat < radix ^ 22 := by
  have hpow : 2 ^ 64 ≤ radix ^ 22 :=
    Nat.le_trans (show 2 ^ 64 ≤ 8 ^ 22 by decide) (Nat.pow_le_pow_left hradix 22)
  have hx := x.isLt
  refine ⟨Nat.lt_of_lt_of_le ?_ hpow, Nat.lt_of_lt_of_le hx hpow⟩
  unfold magnitude
  split
  · rw [BitVec.toInt_eq_toNat_cond]
    split <;> omega
  · exact hx

end

/-- For every number and the three radices: the loader's conversions stay in their arrays and give the text of the
number exactly when that has at most twelve digits. -/
theorem conversion_iff (x : BitVec 64) (radix : Nat) (hradix : radix = 8 ∨ radix = 10 ∨ radix = 16) :
    (ItoaRight Loader.itoa x radix ↔ magnitude x radix < radix ^ 12) ∧ (UtoaRight Loader.utoa x radix ↔ x.toNat < radix ^ 12) := by
  have h1 : 1 < radix := by omega
  have h16 : radix ≤ 16 := by omega
  exact ⟨itoa_right_iff h1 h16 (by decide) x, utoa_right_iff h1 h16 (by decide) x⟩

theorem conversion_minus : ItoaRight Loader.itoa (-42#64) 10 ∧ UtoaRight Loader.utoa 42#64 16 :=
  ⟨(conversion_iff (-42#64) 10 (by decide)).1.mpr (by decide), (conversion_iff 42#64 16 (by decide)).2.mpr (by decide)⟩

/-- A number of thirteen digits is written behind the end. -/
theorem conversion_overruns : ¬ ∀ (x : BitVec 64) (radix : Nat), radix = 8 ∨ radix = 10 ∨ radix = 16 →
    ItoaRight Loader.itoa x radix ∧ UtoaRight Loader.utoa x radix := by
  intro h
  obtain ⟨text, hrun, -⟩ := (h 1000000000000#64 10 (by decide)).1
  have hnone : Loader.itoa 1000000000000#64 10 = none := by decide
  rw [hnone] at hrun
  cases hrun

end BadLands.Format
