import Mathlib.Algebra.Group.Nat.Defs
import Mathlib.Data.Int.Init

/-!
# Conversion specifications

What the `vprintf` of the kernel and the `vsnprintf` of the loader do between a `%` and the conversion
character, in the same words but for the flags. The format is the list of the characters left, with
the NUL; `none` is a read behind it.

* `scanModifier_length`: all of a modifier is read.
* `scanFields_length`: a specification has a character at least, and nothing is read twice.
-/
namespace BadLands.Format

/-- mirrors kernel/src/screen/Format.cpp:22-32, bootloader/src/ldstdio/vsnprintf.cpp:25-35 -/
inductive Modifier
  | hh | h | none | l | ll | j | z | t | L
  deriving DecidableEq, Repr

structure Flags where
  left_justify : Bool := false
  force_sign : Bool := false
  prepend_space : Bool := false
  alternative_conv : Bool := false
  leading_zeroes : Bool := false
  deriving DecidableEq, Repr

/-- A width or a precision is in the format, or it is the next argument. -/
inductive Field
  | star
  | value (n : Int)
  deriving DecidableEq, Repr

structure Spec where
  flags : Flags
  minimum_field_size : Field
  precision : Field
  lmodif : Modifier
  conversion : Nat
  deriving DecidableEq, Repr

/-- An argument is a number or it points to characters with a NUL behind them. -/
structure Slot where
  number : BitVec 64
  text : List Nat

/-- `for (intmax_t i = 0; i < n; ++i)` a space. -/
def pad (n : Int) : List Nat := List.replicate n.toNat ' '.toNat

/-- In the range of `intmax_t`. -/
def wrap (n : Int) : Int := n.bmod (2 ^ 64)

def isDigit (c : Nat) : Bool := '0'.toNat ≤ c ∧ c ≤ '9'.toNat

/-- mirrors kernel/src/screen/Format.cpp:195-217, bootloader/src/ldstdio/vsnprintf.cpp:206-228 -/
def Flags.set (flags : Flags) (c : Nat) : Option Flags :=
  if c = '-'.toNat then some { flags with left_justify := true, leading_zeroes := false }
  else if c = '+'.toNat then some { flags with force_sign := true, prepend_space := false }
  else if c = ' '.toNat then some { flags with prepend_space := !flags.force_sign }
  else if c = '#'.toNat then some { flags with alternative_conv := true }
  else if c = '0'.toNat then some { flags with leading_zeroes := !flags.left_justify }
  else none

/-- mirrors kernel/src/screen/Format.cpp:192-218 -/
def scanFlags (flags : Flags) : List Nat → Option (Flags × List Nat)
  | [] => none
  | c :: s =>
    match flags.set c with
    | some flags => scanFlags flags s
    | none => some (flags, c :: s)

/-- The digits, and the character behind them once more. -/
def scanDigits (n : Int) : List Nat → Option (Int × List Nat)
  | [] => none
  | c :: s => if isDigit c then scanDigits (wrap (n * 10 + (c - '0'.toNat : Nat))) s else some (n, c :: s)

def signed (neg : Bool) (n : Int) : Int := if neg then wrap (-n) else n

/-- mirrors kernel/src/screen/Format.cpp:220-247, bootloader/src/ldstdio/vsnprintf.cpp:235-260 -/
def scanWidth : List Nat → Option (Field × List Nat)
  | [] => none
  | c :: s =>
    if c = '*'.toNat then some (.star, s)
    else if c = '-'.toNat ∨ isDigit c then
      (scanDigits 0 (if c = '-'.toNat then s else c :: s)).map fun (n, s) => (.value (signed (c = '-'.toNat) n), s)
    else some (.value 0, c :: s)

/-- Behind the dot. Where there is no digit, the character there is lost.

mirrors kernel/src/screen/Format.cpp:252-283, bootloader/src/ldstdio/vsnprintf.cpp:265-295 -/
def scanDotted : List Nat → Option (Field × List Nat)
  | [] => none
  | c :: s =>
    if c = '*'.toNat then some (.star, s)
    else
      match if c = '-'.toNat then s else c :: s with
      | [] => none
      | d :: s =>
        if isDigit d then (scanDigits 0 (d :: s)).map fun (n, s) => (.value (signed (c = '-'.toNat) n), s)
        else some (.value (-1), s)

/-- mirrors kernel/src/screen/Format.cpp:249-283, bootloader/src/ldstdio/vsnprintf.cpp:262-295 -/
def scanPrecision : List Nat → Option (Field × List Nat)
  | [] => none
  | c :: s => if c = '.'.toNat then scanDotted s else some (.value (-1), c :: s)

/-- A letter that may be there twice. -/
def scanTwice (letter : Nat) (twice once : Modifier) : List Nat → Option (Modifier × List Nat)
  | [] => none
  | c :: s => if c = letter then some (twice, s) else some (once, c :: s)

/-- The four long modifiers step over the character behind them.

mirrors kernel/src/screen/Format.cpp:285-327, bootloader/src/ldstdio/vsnprintf.cpp:297-339 -/
def scanModifier : List Nat → Option (Modifier × List Nat)
  | [] => none
  | c :: s =>
    if c = 'h'.toNat then scanTwice 'h'.toNat .hh .h s
    else if c = 'l'.toNat then scanTwice 'l'.toNat .ll .l s
    else if c = 'j'.toNat then some (.j, s.drop 1)
    else if c = 'z'.toNat then some (.z, s.drop 1)
    else if c = 't'.toNat then some (.t, s.drop 1)
    else if c = 'L'.toNat then some (.L, s.drop 1)
    else some (.none, c :: s)

/-- From the width to the conversion character. -/
def scanFields (flags : Flags) (s : List Nat) : Option (Spec × List Nat) := do
  let (minimum_field_size, s) ← scanWidth s
  let (precision, s) ← scanPrecision s
  let (lmodif, s) ← scanModifier s
  let c ← s.head?
  some (⟨flags, minimum_field_size, precision, lmodif, c⟩, s.tail)

namespace Kernel

/-- mirrors kernel/src/screen/Format.cpp:184-329 -/
def scan (s : List Nat) : Option (Spec × List Nat) := do
  let (flags, s) ← scanFlags {} s
  scanFields flags s

end Kernel

namespace Loader

/-- `none` behind the characters is the `%` that is written as it is. -/
def scanFlags (flags : Flags) : List Nat → Option (Option Flags × List Nat)
  | [] => none
  | c :: s =>
    if c = '%'.toNat then some (none, s)
    else match flags.set c with
      | some flags => scanFlags flags s
      | none => some (some flags, c :: s)

/-- mirrors bootloader/src/ldstdio/vsnprintf.cpp:191-341 -/
def scan (s : List Nat) : Option (Option Spec × List Nat) := do
  let (flags, s) ← scanFlags {} s
  match flags with
  | none => some (none, s)
  | some flags => (scanFields flags s).map fun (spec, s) => (some spec, s)

end Loader

/-- How many characters a modifier has. -/
def Modifier.width : Modifier → Nat
  | .none => 0
  | .hh | .ll => 2
  | .h | .l | .j | .z | .t | .L => 1

/-! ## The phases -/

section
variable {s rest : List Nat} {field : Field} {flags : Flags} {spec : Spec}

theorem scanFlags_length : ∀ (s : List Nat) (flags : Flags) {flags' : Flags} {rest : List Nat},
    scanFlags flags s = some (flags', rest) → rest.length ≤ s.length
  | [], _, _, _, h => by cases h
  | c :: s, flags, flags', rest, h => by
    rw [scanFlags] at h
    split at h
    · exact Nat.le_succ_of_le (scanFlags_length s _ h)
    · cases h
      exact Nat.le_refl _

theorem scanDigits_length : ∀ (s : List Nat) (n : Int) {m : Int} {rest : List Nat},
    scanDigits n s = some (m, rest) → rest.length ≤ s.length
  | [], _, _, _, h => by cases h
  | c :: s, n, m, rest, h => by
    rw [scanDigits] at h
    split at h
    · exact Nat.le_succ_of_le (scanDigits_length s _ h)
    · cases h
      exact Nat.le_refl _

theorem scanWidth_length (h : scanWidth s = some (field, rest)) : rest.length ≤ s.length := by
  cases s with
  | nil => cases h
  | cons c s =>
    rw [scanWidth] at h
    split at h
    · cases h
      exact Nat.le_succ _
    split at h
    · obtain ⟨⟨n, t⟩, hdigits, heq⟩ := Option.map_eq_some_iff.mp h
      cases heq
      have hle := scanDigits_length _ _ hdigits
      split at hdigits
      · next hminus =>
        rw [if_pos hminus] at hle
        exact Nat.le_succ_of_le hle
      · next hminus =>
        rw [if_neg hminus] at hle
        exact hle
    · cases h
      exact Nat.le_refl _

theorem scanDotted_length (h : scanDotted s = some (field, rest)) : rest.length ≤ s.length := by
  cases s with
  | nil => cases h
  | cons c s =>
    rw [scanDotted] at h
    split at h
    · cases h
      exact Nat.le_succ _
    have hsign : (if c = '-'.toNat then s else c :: s).length ≤ (c :: s).length := by
      split
      · exact Nat.le_succ _
      · exact Nat.le_refl _
    split at h
    · cases h
    · next d u hu =>
      rw [hu] at hsign
      split at h
      · obtain ⟨⟨n, t⟩, hdigits, heq⟩ := Option.map_eq_some_iff.mp h
        cases heq
        exact Nat.le_trans (scanDigits_length _ _ hdigits) hsign
      · cases h
        exact Nat.le_of_succ_le hsign

theorem scanPrecision_length (h : scanPrecision s = some (field, rest)) : rest.length ≤ s.length := by
  cases s with
  | nil => cases h
  | cons c s =>
    rw [scanPrecision] at h
    split at h
    · exact Nat.le_succ_of_le (scanDotted_length h)
    · cases h
      exact Nat.le_refl _

/-- The characters that a scan steps over are at least those of the modifier. -/
theorem scanModifier_length {m : Modifier} {r : List Nat} (h : scanModifier s = some (m, r)) : r.length + m.width ≤ s.length := by
  cases s with
  | nil => cases h
  | cons c s =>
    have htwice : ∀ {letter twice once}, Modifier.width twice = 2 → Modifier.width once = 1 →
        scanTwice letter twice once s = some (m, r) → r.length + m.width ≤ (c :: s).length := by
      intro letter twice once htwo hone h
      cases s with
      | nil => cases h
      | cons d s =>
        rw [scanTwice] at h
        split at h
        · cases h
          rw [htwo]
          exact Nat.le_refl _
        · cases h
          rw [hone]
          exact Nat.le_refl _
    have hdrop : (s.drop 1).length + 1 ≤ (c :: s).length := by
      rw [List.length_drop, List.length_cons]
      omega
    rw [scanModifier] at h
    split at h
    · exact htwice rfl rfl h
    split at h
    · exact htwice rfl rfl h
    iterate 4
      split at h
      · cases h
        exact hdrop
    cases h
    exact Nat.le_refl _

theorem scanFields_length (h : scanFields flags s = some (spec, rest)) : rest.length < s.length := by
  simp only [scanFields, Option.bind_eq_bind, Option.bind_eq_some_iff] at h
  obtain ⟨⟨width, s₁⟩, hwidth, ⟨precision, s₂⟩, hprecision, ⟨m, s₃⟩, hmodifier, c, hhead, hspec⟩ := h
  dsimp only at hprecision hmodifier hhead hspec
  obtain ⟨s₄, rfl⟩ := List.head?_eq_some_iff.mp hhead
  cases hspec
  have hwidth' := scanWidth_length hwidth
  have hprecision' := scanPrecision_length hprecision
  have hmodifier' := scanModifier_length hmodifier
  rw [List.length_cons] at hmodifier'
  rw [List.tail_cons]
  omega

end

end BadLands.Format
