import BadLands.Core.Cells
import BadLands.Format.Itoa
import BadLands.Format.Scanner

/-!
# The numbers of the kernel's `vprintf`

`%d`, `%i`, `%o`, `%u`, `%x` and `%X`: the digits are written into `number_buffer`, which has one cell
more than the precision, moved up in it and filled with zeros. The buffer begins with any contents.

* `numberText_eq`: the text that is printed, and that a longer one is written behind the buffer.
* `number_iff`: the conversion is right exactly when the number is not negative and its digits fit the
  precision.
-/
namespace BadLands.Format

open BadLands.Core.Numerals BadLands.Core.Cells

/-- mirrors kernel/src/screen/Format.cpp:157-173, bootloader/src/ldstdio/vsnprintf.cpp:124-140 -/
def precision_fill (len precision : Nat) (number_buffer : List Nat) : Option (List Nat) :=
  if len < precision then
    (moveUp (precision - len) len number_buffer).bind fun number_buffer =>
      writes number_buffer 0 (List.replicate (precision - len) '0'.toNat)
  else some number_buffer

/-- The loop of `%X`, from the last of the characters down. -/
def raise : Nat → List Nat → Option (List Nat)
  | 0, b => some b
  | i + 1, b => b[i]?.bind fun c =>
    (if 'a'.toNat ≤ c ∧ c ≤ 'f'.toNat then write b i (c - ('a'.toNat - 'A'.toNat)) else some b).bind (raise i)

/-- The size of the argument that is fetched. -/
def Modifier.bits : Modifier → Option Nat
  | .hh | .h | .none => some 32
  | .l | .ll | .j | .z | .t => some 64
  | .L => Option.none

/-- The argument is in the low bits of its slot.

mirrors kernel/src/screen/Format.cpp:34-56 -/
def fetch_signed_number (lmodif : Modifier) (slot : BitVec 64) : Option (BitVec 64) :=
  lmodif.bits.map fun w => (slot.setWidth w).signExtend 64

/-- mirrors kernel/src/screen/Format.cpp:57-79 -/
def fetch_unsigned_number (lmodif : Modifier) (slot : BitVec 64) : Option (BitVec 64) :=
  lmodif.bits.map fun w => (slot.setWidth w).setWidth 64

namespace Kernel

/-- What is printed of an array: the characters before a NUL.

mirrors kernel/src/screen/Log.cpp:177-181 -/
def puts : List Nat → Option (List Nat)
  | [] => none
  | c :: b => if c = 0 then some [] else (puts b).map (c :: ·)

/-- mirrors kernel/src/screen/Format.cpp:425-432 -/
def digitCount (precision : Int) : Nat := if precision < 0 then 1 else if precision > 32 then 32 else precision.toNat

/-- The part that the conversions have in common. `capital` is the loop of `%X`.

mirrors kernel/src/screen/Format.cpp:516-530 -/
def numberText (converted : Option Converted) (capital : Bool) (precision : Int) (garbage : Nat → Nat) : Option (List Nat) := do
  let precision := digitCount precision
  let number_buffer := ((List.range (precision + 1)).map garbage).set precision 0
  let converted ← converted
  let number_buffer ← writes number_buffer 0 converted.written
  let number_buffer ← (if capital then raise converted.length else some) number_buffer
  let number_buffer ← precision_fill converted.length precision number_buffer
  puts number_buffer

inductive Conversion
  | d | i | o | u | x | X
  deriving DecidableEq, Repr

namespace Conversion

def isSigned : Conversion → Bool
  | d | i => true
  | _ => false

def radix : Conversion → Nat
  | o => 8
  | d | i | u => 10
  | x | X => 16

end Conversion

/-- mirrors kernel/src/screen/Format.cpp:423-461 -/
def print_d (flags : Flags) (precision : Int) (lmodif : Modifier) (slot : BitVec 64) (garbage : Nat → Nat) : Option (List Nat) :=
  match fetch_signed_number lmodif slot with
  | none => some []
  | some number =>
    let sign :=
      if flags.force_sign ∧ 0 ≤ number.toInt then ['+'.toNat]
      else if flags.prepend_space ∧ 0 ≤ number.toInt then [' '.toNat] else []
    (numberText (itoa number 10) false precision garbage).map (sign ++ ·)

/-- mirrors kernel/src/screen/Format.cpp:462-495 -/
def print_o (flags : Flags) (precision : Int) (lmodif : Modifier) (slot : BitVec 64) (garbage : Nat → Nat) : Option (List Nat) :=
  match fetch_unsigned_number lmodif slot with
  | none => some []
  | some number =>
    (numberText (utoa number 8) false precision garbage).map ((if flags.alternative_conv then ['0'.toNat] else []) ++ ·)

/-- mirrors kernel/src/screen/Format.cpp:496-538 -/
def print_x (capital : Bool) (flags : Flags) (precision : Int) (lmodif : Modifier) (slot : BitVec 64) (garbage : Nat → Nat) :
    Option (List Nat) :=
  match fetch_unsigned_number lmodif slot with
  | none => some []
  | some number =>
    (numberText (utoa number 16) capital precision garbage).map
      ((if flags.alternative_conv ∧ number ≠ 0 then ['0'.toNat, 'x'.toNat] else []) ++ ·)

/-- mirrors kernel/src/screen/Format.cpp:539-569 -/
def print_u (precision : Int) (lmodif : Modifier) (slot : BitVec 64) (garbage : Nat → Nat) : Option (List Nat) :=
  match fetch_unsigned_number lmodif slot with
  | none => some []
  | some number => numberText (utoa number 10) false precision garbage

def printNumber (c : Conversion) (flags : Flags) (precision : Int) (lmodif : Modifier) (slot : BitVec 64)
    (garbage : Nat → Nat) : Option (List Nat) :=
  match c with
  | .d | .i => print_d flags precision lmodif slot garbage
  | .o => print_o flags precision lmodif slot garbage
  | .x => print_x false flags precision lmodif slot garbage
  | .X => print_x true flags precision lmodif slot garbage
  | .u => print_u precision lmodif slot garbage

end Kernel

/-! ## The property -/

open Kernel

/-- The argument, which has so many bits. -/
def argument (c : Conversion) (bits : Nat) (slot : BitVec 64) : Int :=
  if c.isSigned then (slot.setWidth bits).toInt else (slot.setWidth bits).toNat

/-- A sign or prefix, a minus, and digits: they are the number, with zeros to the precision. -/
def NumberRight (c : Conversion) (flags : Flags) (precision : Int) (lmodif : Modifier) (bits : Nat) (slot : BitVec 64)
    (garbage : Nat → Nat) : Prop :=
  let value := argument c bits slot
  ∃ lead digits, printNumber c flags precision lmodif slot garbage =
      some (lead ++ (if value < 0 then ['-'.toNat] else []) ++ digits) ∧
    lead ∈ [[], ['+'.toNat], [' '.toNat], ['0'.toNat], ['0'.toNat, 'x'.toNat]] ∧
    parse c.radix digits = some value.natAbs ∧
    digits.length = max (min precision 32).toNat (numeral c.radix value.natAbs).length

/-! ## The buffer -/

section
variable {text b : List Nat} {n precision : Nat}

theorem puts_eq (htext : 0 ∉ text) (b : List Nat) : puts (text ++ 0 :: b) = some text := by
  induction text with
  | nil => rfl
  | cons c text ih =>
    have hc : c ≠ 0 := fun h => htext (h ▸ List.mem_cons_self)
    rw [List.cons_append, puts, if_neg hc, ih fun h => htext (List.mem_cons_of_mem c h), Option.map_some]

theorem raise_eq : ∀ (n : Nat) (b : List Nat), n ≤ b.length → raise n b = some ((b.take n).map upper ++ b.drop n)
  | 0, b, _ => rfl
  | n + 1, b, h => by
    have hn : n < b.length := h
    have hwrite : (if 'a'.toNat ≤ b[n] ∧ b[n] ≤ 'f'.toNat then write b n (b[n] - ('a'.toNat - 'A'.toNat)) else some b) =
        some (b.set n (upper b[n])) := by
      unfold upper
      split
      · exact write_eq hn
      · rw [List.set_getElem_self]
    have hdrop : (b.set n (upper b[n])).drop n = upper b[n] :: b.drop (n + 1) := by
      rw [List.drop_eq_getElem_cons (by rw [List.length_set]; exact hn), List.getElem_set_self,
        List.drop_set_of_lt (Nat.lt_succ_self n)]
    rw [raise, List.getElem?_eq_getElem hn, Option.bind_some, hwrite, Option.bind_some,
      raise_eq n _ (by rw [List.length_set]; exact Nat.le_of_lt hn), List.take_set_of_le (Nat.le_refl n), hdrop,
      List.take_succ_eq_append_getElem hn, List.map_append, List.append_assoc]
    rfl

/-- The text is moved to the end of the buffer, where the NUL is. -/
theorem precision_fill_eq (hlength : text.length + b.length = precision + 1) (hb : 0 < b.length)
    (hlast : b.getLast? = some 0) : precision_fill text.length precision (text ++ b) =
      some (List.replicate (precision - text.length) '0'.toNat ++ text ++ [0]) := by
  have hnul : b[b.length - 1]? = some 0 := by rw [← List.getLast?_eq_getElem?, hlast]
  unfold precision_fill
  split
  · next hless =>
    obtain ⟨b', hrun, hlength', hcells⟩ := moveUp_spec (precision - text.length) text.length (text ++ b)
      (by rw [List.length_append]; omega)
    rw [List.length_append] at hlength'
    have htail : b'.drop (precision - text.length) = text ++ [0] := by
      refine List.ext_getElem? fun k => ?_
      rw [List.getElem?_drop, hcells]
      rcases Nat.lt_trichotomy k text.length with hk | rfl | hk
      · rw [if_pos (by omega), Nat.add_sub_cancel_left, List.getElem?_append_left hk, List.getElem?_append_left hk]
      · rw [if_neg (by omega), List.getElem?_append_right (by omega), List.getElem?_append_right (Nat.le_refl _),
          show precision - text.length + text.length - text.length = b.length - 1 by omega, hnul, Nat.sub_self]
        rfl
      · rw [if_neg (by omega), List.getElem?_eq_none (by rw [List.length_append]; omega),
          List.getElem?_eq_none (by rw [List.length_append, List.length_singleton]; omega)]
    rw [hrun, Option.bind_some, writes_eq _ _ _ (by rw [List.length_replicate]; omega), List.length_replicate, Nat.zero_add,
      htail, List.take_zero, List.nil_append, List.append_assoc]
  · next hfull =>
    obtain ⟨c, rfl⟩ : ∃ c, b = [c] := List.length_eq_one_iff.mp (by omega)
    rw [show precision - text.length = 0 by omega]
    cases hlast
    rfl

theorem nul_upper (htext : 0 ∉ text) : 0 ∉ text.map upper := by
  intro h
  obtain ⟨c, hc, hzero⟩ := List.mem_map.mp h
  refine htext (?_ : 0 ∈ text)
  have : c = 0 := by
    unfold upper at hzero
    split at hzero
    · next hsmall =>
      have ha : 'a'.toNat = 97 := rfl
      have hA : 'A'.toNat = 65 := rfl
      omega
    · exact hzero
  exact this ▸ hc

/-- What is left of the buffer behind a text that fits ends with the NUL. -/
theorem buffer_last {buffer : List Nat} (hlength : buffer.length = precision + 1) (hnul : buffer[precision]? = some 0)
    (n : Nat) : (0 :: buffer.drop (n + 1)).getLast? = some 0 := by
  rw [List.getLast?_cons, List.getLast?_drop, List.getLast?_eq_getElem?, hlength, Nat.add_sub_cancel, hnul]
  split <;> rfl

/-- The text with zeros to the precision; there is no room for a longer one. -/
theorem numberText_eq (htext : 0 ∉ text) (capital : Bool) (precision : Int) (garbage : Nat → Nat) :
    numberText (some ⟨text ++ [0], text.length⟩) capital precision garbage =
      if text.length ≤ digitCount precision then
        some (List.replicate (digitCount precision - text.length) '0'.toNat ++ if capital then text.map upper else text)
      else none := by
  unfold numberText
  dsimp only
  generalize digitCount precision = precision
  have hlength : (((List.range (precision + 1)).map garbage).set precision 0).length = precision + 1 := by simp
  have hnul : (((List.range (precision + 1)).map garbage).set precision 0)[precision]? = some 0 :=
    List.getElem?_set_self (by simp)
  generalize ((List.range (precision + 1)).map garbage).set precision 0 = buffer at hlength hnul ⊢
  simp only [Option.bind_eq_bind, Option.bind_some]
  by_cases hfit : text.length ≤ precision
  · have hraise : (if capital then raise text.length else some) (text ++ 0 :: buffer.drop (text.length + 1)) =
        some ((if capital then text.map upper else text) ++ 0 :: buffer.drop (text.length + 1)) := by
      cases capital with
      | false => rfl
      | true =>
        rw [if_pos rfl, if_pos rfl, raise_eq _ _ (by rw [List.length_append]; omega), List.take_left, List.drop_left]
    have hsame : (if capital then text.map upper else text).length = text.length := by
      cases capital with
      | false => rfl
      | true => exact List.length_map _
    have hno : 0 ∉ List.replicate (precision - text.length) '0'.toNat ++ if capital then text.map upper else text := by
      intro h
      rcases List.mem_append.mp h with hzeros | htext'
      · cases List.eq_of_mem_replicate hzeros
      · cases capital with
        | false => exact htext htext'
        | true => exact nul_upper htext htext'
    rw [if_pos hfit, writes_eq _ _ _ (by rw [List.length_append, List.length_singleton]; omega), Option.bind_some, List.take_zero,
      List.nil_append, Nat.zero_add, List.length_append, List.length_singleton, List.append_assoc, List.singleton_append,
      hraise, Option.bind_some]
    have hsize : (if capital then text.map upper else text).length + (0 :: buffer.drop (text.length + 1)).length =
        precision + 1 := by
      rw [hsame, List.length_cons, List.length_drop]
      omega
    have hfill := precision_fill_eq hsize (Nat.succ_pos _) (buffer_last hlength hnul _)
    rw [hsame] at hfill
    rw [hfill, Option.bind_some, puts_eq hno]
  · rw [if_neg hfit, writes_none _ _ _ (Nat.zero_le _) (by rw [List.length_append, List.length_singleton]; omega), Option.bind_none]

/-! ## The conversions -/

theorem nul_numeral {radix : Nat} (hradix : 1 < radix) (v : Nat) : 0 ∉ numeral radix v := by
  intro h
  obtain ⟨i, -, hi⟩ := mem_numeral hradix h
  have ha : 'a'.toNat = 97 := rfl
  have hzero : '0'.toNat = 48 := rfl
  unfold digitChar at hi
  split at hi <;> omega

variable {c : Conversion} {flags : Flags} {prec : Int} {lmodif : Modifier} {bits : Nat} {slot : BitVec 64}
  {garbage : Nat → Nat}

theorem Modifier.bits_le (h : lmodif.bits = some bits) : bits ≤ 64 := by
  cases lmodif <;> cases h <;> decide

theorem Kernel.Conversion.radix_bounds (c : Conversion) : 8 ≤ c.radix ∧ c.radix ≤ 16 := by
  cases c <;> decide

/-- What the digits of a number become. -/
def digitText (c : Conversion) (value : Int) : List Nat :=
  if c = .X then (numeral c.radix value.natAbs).map upper else numeral c.radix value.natAbs

theorem nul_digitText (c : Conversion) (value : Int) : 0 ∉ digitText c value := by
  have hno := nul_numeral (show 1 < c.radix by have := c.radix_bounds.1; omega) value.natAbs
  unfold digitText
  split
  · exact nul_upper hno
  · exact hno

/-- The array of `itoa` is long enough for every number. -/
theorem itoa_eq (number : BitVec 64) :
    let text := (if number.toInt < 0 then ['-'.toNat] else []) ++ numeral 10 number.toInt.natAbs
    Kernel.itoa number 10 = some ⟨text ++ [0], text.length⟩ := by
  have hfit := (digits_fit (show 8 ≤ 10 by decide) number).1
  unfold Kernel.itoa
  rw [itoaWith_eq (by decide) (by decide), if_pos hfit]
  simp only [magnitude, true_and, if_true]

theorem utoa_eq {radix : Nat} (hradix : 8 ≤ radix) (number : BitVec 64) :
    Kernel.utoa number radix = some ⟨numeral radix number.toNat ++ [0], (numeral radix number.toNat).length⟩ := by
  unfold Kernel.utoa
  rw [utoaWith_eq (by omega) (by decide), if_pos (digits_fit hradix number).2]

theorem printNumber_signed (flags : Flags) (prec : Int) (slot : BitVec 64) (garbage : Nat → Nat) (hc : c.isSigned = true)
    (hbits : lmodif.bits = some bits) :
    let value := argument c bits slot
    let text := (if value < 0 then ['-'.toNat] else []) ++ digitText c value
    ∃ lead ∈ [[], ['+'.toNat], [' '.toNat], ['0'.toNat], ['0'.toNat, 'x'.toNat]], (value < 0 → lead = []) ∧
      printNumber c flags prec lmodif slot garbage =
        if text.length ≤ digitCount prec then
          some (lead ++ (List.replicate (digitCount prec - text.length) '0'.toNat ++ text)) else none := by
  have hnumber : ((slot.setWidth bits).signExtend 64).toInt = argument c bits slot := by
    rw [BitVec.toInt_signExtend_of_le (Modifier.bits_le hbits), argument, if_pos hc]
  have hfetch : fetch_signed_number lmodif slot = some ((slot.setWidth bits).signExtend 64) := by
    rw [fetch_signed_number, hbits, Option.map_some]
  have hrun : printNumber c flags prec lmodif slot garbage = print_d flags prec lmodif slot garbage := by
    cases c <;> first | rfl | cases hc
  have hdigits : digitText c (argument c bits slot) = numeral 10 (argument c bits slot).natAbs := by
    cases c <;> first | rfl | cases hc
  have hnul : 0 ∉ (if argument c bits slot < 0 then ['-'.toNat] else []) ++ digitText c (argument c bits slot) := by
    intro h
    rcases List.mem_append.mp h with h | h
    · split at h
      · cases List.mem_singleton.mp h
      · cases h
    · exact nul_digitText _ _ h
  dsimp only
  rw [hrun, print_d, hfetch]
  dsimp only
  rw [itoa_eq, hnumber, ← hdigits, numberText_eq hnul]
  generalize argument c bits slot = value at *
  generalize (if value < 0 then ['-'.toNat] else []) ++ digitText c value = text at *
  refine ⟨if flags.force_sign ∧ 0 ≤ value then ['+'.toNat] else if flags.prepend_space ∧ 0 ≤ value then [' '.toNat] else [],
    ?_, fun hneg => ?_, ?_⟩
  · split
    · decide
    · split <;> decide
  · rw [if_neg fun h => absurd h.2 (by omega), if_neg fun h => absurd h.2 (by omega)]
  · exact apply_ite (Option.map _) _ _ _

theorem printNumber_unsigned (flags : Flags) (prec : Int) (slot : BitVec 64) (garbage : Nat → Nat) (hc : c.isSigned = false)
    (hbits : lmodif.bits = some bits) :
    let text := digitText c (argument c bits slot)
    ∃ lead ∈ [[], ['+'.toNat], [' '.toNat], ['0'.toNat], ['0'.toNat, 'x'.toNat]],
      printNumber c flags prec lmodif slot garbage =
        if text.length ≤ digitCount prec then
          some (lead ++ (List.replicate (digitCount prec - text.length) '0'.toNat ++ text)) else none := by
  obtain ⟨number, hfetch, hnumber⟩ : ∃ number, fetch_unsigned_number lmodif slot = some number ∧
      (argument c bits slot).natAbs = number.toNat := by
    refine ⟨(slot.setWidth bits).setWidth 64, by rw [fetch_unsigned_number, hbits, Option.map_some], ?_⟩
    rw [argument, if_neg (by rw [hc]; decide), Int.natAbs_natCast, BitVec.toNat_setWidth_of_le (Modifier.bits_le hbits)]
  have htext : ∀ capital : Bool, (capital = true ↔ c = .X) →
      (if capital then (numeral c.radix number.toNat).map upper else numeral c.radix number.toNat) =
        digitText c (argument c bits slot) := fun capital hcapital => by
    unfold digitText
    rw [hnumber]
    exact if_congr hcapital rfl rfl
  have hlength : (digitText c (argument c bits slot)).length = (numeral c.radix number.toNat).length := by
    unfold digitText
    rw [hnumber]
    split
    · exact List.length_map _
    · rfl
  have hnul := nul_numeral (show 1 < c.radix by have := c.radix_bounds.1; omega) number.toNat
  have hshown : ∀ capital : Bool, (capital = true ↔ c = .X) →
      numberText (Kernel.utoa number c.radix) capital prec garbage =
        if (digitText c (argument c bits slot)).length ≤ digitCount prec then
          some (List.replicate (digitCount prec - (digitText c (argument c bits slot)).length) '0'.toNat ++
            digitText c (argument c bits slot)) else none := fun capital hcapital => by
    rw [utoa_eq c.radix_bounds.1, numberText_eq hnul, htext capital hcapital, hlength]
  dsimp only
  cases c with
  | d => cases hc
  | i => cases hc
  | o =>
    refine ⟨if flags.alternative_conv then ['0'.toNat] else [], by split <;> decide, ?_⟩
    rw [printNumber, print_o, hfetch]
    dsimp only
    rw [show numberText (utoa number 8) false prec garbage = _ from hshown false (by decide)]
    exact apply_ite (Option.map _) _ _ _
  | u =>
    refine ⟨[], by decide, ?_⟩
    rw [printNumber, print_u, hfetch]
    exact hshown false (by decide)
  | x =>
    refine ⟨if flags.alternative_conv ∧ number ≠ 0 then ['0'.toNat, 'x'.toNat] else [], by split <;> decide, ?_⟩
    rw [printNumber, print_x, hfetch]
    dsimp only
    rw [show numberText (utoa number 16) false prec garbage = _ from hshown false (by decide)]
    exact apply_ite (Option.map _) _ _ _
  | X =>
    refine ⟨if flags.alternative_conv ∧ number ≠ 0 then ['0'.toNat, 'x'.toNat] else [], by split <;> decide, ?_⟩
    rw [printNumber, print_x, hfetch]
    dsimp only
    rw [show numberText (utoa number 16) true prec garbage = _ from hshown true (by decide)]
    exact apply_ite (Option.map _) _ _ _

theorem digitCount_eq (precision : Int) : digitCount precision = if precision < 0 then 1 else (min precision 32).toNat := by
  unfold digitCount
  split
  · rfl
  · split <;> omega

theorem length_digitText (c : Conversion) (value : Int) :
    (digitText c value).length = (numeral c.radix value.natAbs).length := by
  unfold digitText
  split
  · exact List.length_map _
  · rfl

theorem parse_digitText (c : Conversion) (value : Int) (n : Nat) :
    parse c.radix (List.replicate n '0'.toNat ++ digitText c value) = some value.natAbs := by
  obtain ⟨h8, h16⟩ := c.radix_bounds
  have hradix : 1 < c.radix := by omega
  unfold digitText
  split
  · rw [parse_zeros hradix (by simpa using numeral_ne_nil _ _), parse_upper hradix h16]
  · rw [parse_zeros hradix (numeral_ne_nil _ _), parse_numeral hradix h16]

theorem right_of_fit {lead : List Nat} (hlead : lead ∈ [[], ['+'.toNat], [' '.toNat], ['0'.toNat], ['0'.toNat, 'x'.toNat]])
    (hnonneg : 0 ≤ argument c bits slot) (hfit : (digitText c (argument c bits slot)).length ≤ digitCount prec)
    (hrun : printNumber c flags prec lmodif slot garbage =
      some (lead ++ (List.replicate (digitCount prec - (digitText c (argument c bits slot)).length) '0'.toNat ++
        digitText c (argument c bits slot)))) :
    NumberRight c flags prec lmodif bits slot garbage := by
  have hpos := length_numeral_pos c.radix (argument c bits slot).natAbs
  rw [← length_digitText] at hpos
  refine ⟨lead, _, ?_, hlead, parse_digitText c _ (digitCount prec - (digitText c (argument c bits slot)).length), ?_⟩
  · rw [hrun, if_neg (Int.not_lt.mpr hnonneg), List.append_nil]
  · have hcount := digitCount_eq prec
    rw [← length_digitText, List.length_append, List.length_replicate, Nat.sub_add_cancel hfit]
    split at hcount <;> omega

end

/-- For every conversion, flags, precision, modifier with an argument, argument and contents of the buffer: what is
printed is the number exactly when that is not negative and has at most as many digits as the precision, of which
there is at least one. -/
theorem number_iff (c : Conversion) (flags : Flags) (precision : Int) (lmodif : Modifier) (bits : Nat)
    (hbits : lmodif.bits = some bits) (slot : BitVec 64) (garbage : Nat → Nat) :
    NumberRight c flags precision lmodif bits slot garbage ↔
      0 ≤ argument c bits slot ∧ 0 < digitCount precision ∧
        (argument c bits slot).toNat < c.radix ^ digitCount precision := by
  have hradix : 1 < c.radix := by have := c.radix_bounds.1; omega
  have hpos := length_numeral_pos c.radix (argument c bits slot).natAbs
  have hfits : 0 ≤ argument c bits slot → ((digitText c (argument c bits slot)).length ≤ digitCount precision ↔
      0 < digitCount precision ∧ (argument c bits slot).toNat < c.radix ^ digitCount precision) := fun hnonneg => by
    rw [length_digitText, show (argument c bits slot).toNat = (argument c bits slot).natAbs by omega]
    exact ⟨fun h => ⟨Nat.lt_of_lt_of_le hpos h, (length_numeral_le hradix (Nat.lt_of_lt_of_le hpos h)).mp h⟩,
      fun h => (length_numeral_le hradix h.1).mpr h.2⟩
  cases hsigned : c.isSigned with
  | false =>
    obtain ⟨lead, hlead, hrun⟩ := printNumber_unsigned flags precision slot garbage hsigned hbits
    have hnonneg : 0 ≤ argument c bits slot := by
      rw [argument, if_neg (by rw [hsigned]; decide)]
      exact Int.natCast_nonneg _
    refine ⟨?_, fun h => ?_⟩
    · rintro ⟨lead', digits, hprinted, -⟩
      by_cases hfit : (digitText c (argument c bits slot)).length ≤ digitCount precision
      · exact ⟨hnonneg, (hfits hnonneg).mp hfit⟩
      · rw [hrun, if_neg hfit] at hprinted
        cases hprinted
    · have hfit := (hfits hnonneg).mpr h.2
      rw [if_pos hfit] at hrun
      exact right_of_fit hlead hnonneg hfit hrun
  | true =>
    obtain ⟨lead, hlead, hminus, hrun⟩ := printNumber_signed flags precision slot garbage hsigned hbits
    refine ⟨?_, fun h => ?_⟩
    · rintro ⟨lead', digits, hprinted, -, -, hdigits⟩
      by_cases hneg : argument c bits slot < 0
      · -- the zeros are in front of the minus
        rw [hrun, hminus hneg, if_pos hneg, List.nil_append] at hprinted
        split at hprinted
        · next hfit =>
          have hlength := congrArg List.length (Option.some.inj hprinted)
          have hcount := digitCount_eq precision
          rw [List.length_append, List.length_replicate, Nat.sub_add_cancel hfit, List.length_append, List.length_append,
            List.length_singleton] at hlength
          split at hcount <;> omega
        · cases hprinted
      · have hnonneg := Int.not_lt.mp hneg
        rw [hrun, if_neg hneg, List.nil_append] at hprinted
        by_cases hfit : (digitText c (argument c bits slot)).length ≤ digitCount precision
        · exact ⟨hnonneg, (hfits hnonneg).mp hfit⟩
        · rw [if_neg hfit] at hprinted
          cases hprinted
    · have hfit := (hfits h.1).mpr h.2
      rw [if_neg (Int.not_lt.mpr h.1), List.nil_append, if_pos hfit] at hrun
      exact right_of_fit hlead h.1 hfit hrun

theorem number_hex : NumberRight .X { alternative_conv := true } 8 .l 64 0xcafe#64 fun _ => 7 :=
  (number_iff .X { alternative_conv := true } 8 .l 64 rfl 0xcafe#64 fun _ => 7).mpr (by decide)

/-- `%d` of ten is written behind its buffer of two cells. -/
theorem number_overruns : ¬ ∀ (c : Conversion) (flags : Flags) (precision : Int) (lmodif : Modifier) (bits : Nat),
    lmodif.bits = some bits → ∀ (slot : BitVec 64) (garbage : Nat → Nat),
      NumberRight c flags precision lmodif bits slot garbage := by
  intro h
  obtain ⟨lead, digits, hrun, -⟩ := h .d {} (-1) .none 32 rfl 10#64 fun _ => 0
  have hnone : printNumber .d {} (-1) .none 10#64 (fun _ => 0) = none := by decide
  rw [hnone] at hrun
  cases hrun

end BadLands.Format
