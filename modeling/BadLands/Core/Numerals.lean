import Mathlib.Data.Nat.Digits.Lemmas

/-!
# Numerals

Numbers written in a radix of at most 16, as character codes: `numeral` has the most significant
digit first and at least one digit, `parse` reads digits of either case.

* `parse_numeral`, `parse_zeros`, `parse_upper`: what is read back, also behind zeros and in capitals.
* `length_numeral_le`: so many digits are enough exactly below that power of the radix.
-/
namespace BadLands.Core.Numerals

def digitChar (i : Nat) : Nat := if i < 10 then i + '0'.toNat else i + 'a'.toNat - 10

/-- The digit that the character stands for in this radix. -/
def digitValue (radix c : Nat) : Option Nat :=
  let value :=
    if '0'.toNat ≤ c ∧ c ≤ '9'.toNat then some (c - '0'.toNat)
    else if 'a'.toNat ≤ c ∧ c ≤ 'f'.toNat then some (c - 'a'.toNat + 10)
    else if 'A'.toNat ≤ c ∧ c ≤ 'F'.toNat then some (c - 'A'.toNat + 10)
    else none
  value.filter (· < radix)

/-- The capital of a small hexadecimal digit. -/
def upper (c : Nat) : Nat := if 'a'.toNat ≤ c ∧ c ≤ 'f'.toNat then c - ('a'.toNat - 'A'.toNat) else c

/-- Most significant first. -/
def digits (radix v : Nat) : List Nat := if v = 0 then [0] else (Nat.digits radix v).reverse

def numeral (radix v : Nat) : List Nat := (digits radix v).map digitChar

def parseFrom (radix v : Nat) (text : List Nat) : Option Nat :=
  text.foldlM (fun v c => (digitValue radix c).map fun d => v * radix + d) v

/-- The number that a text of digits is. -/
def parse (radix : Nat) (text : List Nat) : Option Nat := if text = [] then none else parseFrom radix 0 text

variable {radix v : Nat}

/-! ## Digits -/

theorem digitValue_digitChar (hradix : radix ≤ 16) {i : Nat} (hi : i < radix) : digitValue radix (digitChar i) = some i := by
  have hsmall : i < 16 := Nat.lt_of_lt_of_le hi hradix
  have hvalue : ∀ i, i < 16 → digitValue 16 (digitChar i) = some i := by decide
  have h16 := hvalue i hsmall
  unfold digitValue at h16 ⊢
  rw [Option.filter_eq_some_iff] at h16 ⊢
  exact ⟨h16.1, by simpa using hi⟩

theorem digitValue_upper (hradix : radix ≤ 16) {i : Nat} (hi : i < radix) :
    digitValue radix (upper (digitChar i)) = some i := by
  have hsmall : i < 16 := Nat.lt_of_lt_of_le hi hradix
  have hvalue : ∀ i, i < 16 → digitValue 16 (upper (digitChar i)) = some i := by decide
  have h16 := hvalue i hsmall
  unfold digitValue at h16 ⊢
  rw [Option.filter_eq_some_iff] at h16 ⊢
  exact ⟨h16.1, by simpa using hi⟩

/-! ## Numerals -/

theorem digits_ne_nil (radix v : Nat) : digits radix v ≠ [] := by
  unfold digits
  split
  · exact List.cons_ne_nil _ _
  · next h => simpa [Nat.digits_eq_nil_iff_eq_zero] using h

theorem mem_digits (hradix : 1 < radix) {i : Nat} (hi : i ∈ digits radix v) : i < radix := by
  unfold digits at hi
  split at hi
  · rw [List.mem_singleton.mp hi]
    omega
  · exact Nat.digits_lt_base hradix (List.mem_reverse.mp hi)

theorem numeral_of_lt (hv : v < radix) : numeral radix v = [digitChar v] := by
  unfold numeral digits
  split
  · next h =>
    rw [h]
    rfl
  · next h =>
    rw [Nat.digits_of_lt radix v h hv]
    rfl

/-- The last digit. -/
theorem numeral_div (hradix : 1 < radix) (hv : radix ≤ v) :
    numeral radix v = numeral radix (v / radix) ++ [digitChar (v % radix)] := by
  have hpos : v ≠ 0 := by omega
  have hrest : v / radix ≠ 0 := Nat.ne_of_gt (Nat.div_pos hv (by omega))
  unfold numeral digits
  rw [if_neg hpos, if_neg hrest, Nat.digits_eq_cons_digits_div hradix hpos, List.reverse_cons, List.map_append]
  rfl

theorem numeral_ne_nil (radix v : Nat) : numeral radix v ≠ [] := by
  unfold numeral
  simpa using digits_ne_nil radix v

theorem length_numeral_pos (radix v : Nat) : 0 < (numeral radix v).length :=
  List.length_pos_iff.mpr (numeral_ne_nil radix v)

theorem length_numeral_le (hradix : 1 < radix) {k : Nat} (hk : 0 < k) :
    (numeral radix v).length ≤ k ↔ v < radix ^ k := by
  unfold numeral digits
  rw [List.length_map]
  split
  · next h =>
    rw [h]
    exact ⟨fun _ => Nat.pow_pos (by omega), fun _ => hk⟩
  · rw [List.length_reverse, Nat.digits_length_le_iff hradix]

/-- Every character is that of a digit. -/
theorem mem_numeral (hradix : 1 < radix) {c : Nat} (hc : c ∈ numeral radix v) : ∃ i < radix, c = digitChar i := by
  obtain ⟨i, hi, rfl⟩ := List.mem_map.mp hc
  exact ⟨i, mem_digits hradix hi, rfl⟩

/-! ## Reading back -/

/-- Digits that are read in the order in which they are written. -/
theorem parseFrom_digits {f : Nat → Nat} (hf : ∀ i, i < radix → digitValue radix (f i) = some i) :
    ∀ (l : List Nat) (v : Nat), (∀ i ∈ l, i < radix) →
      parseFrom radix v (l.map f) = some (Nat.ofDigits radix l.reverse + radix ^ l.length * v)
  | [], v, _ => by simp [parseFrom]
  | i :: l, v, h => by
    have hrest := parseFrom_digits hf l (v * radix + i) fun j hj => h j (List.mem_cons_of_mem i hj)
    unfold parseFrom at hrest ⊢
    rw [List.map_cons, List.foldlM_cons, hf i (h i List.mem_cons_self), Option.map_some]
    change List.foldlM _ _ _ = _
    rw [hrest, List.reverse_cons, Nat.ofDigits_append, Nat.ofDigits_singleton, List.length_reverse, List.length_cons,
      Nat.pow_succ]
    congr 1
    ring

theorem ofDigits_digits (radix v : Nat) : Nat.ofDigits radix (digits radix v).reverse = v := by
  unfold digits
  split
  · next h =>
    rw [h]
    simp
  · rw [List.reverse_reverse, Nat.ofDigits_digits]

theorem parse_digits {f : Nat → Nat} (hradix : 1 < radix) (hf : ∀ i, i < radix → digitValue radix (f i) = some i) (v : Nat) :
    parse radix ((digits radix v).map f) = some v := by
  unfold parse
  rw [if_neg (by simpa using digits_ne_nil radix v), parseFrom_digits hf _ 0 fun i hi => mem_digits hradix hi,
    ofDigits_digits, Nat.mul_zero, Nat.add_zero]

theorem parse_numeral (hradix : 1 < radix) (h16 : radix ≤ 16) (v : Nat) : parse radix (numeral radix v) = some v :=
  parse_digits hradix (fun _ hi => digitValue_digitChar h16 hi) v

theorem parse_upper (hradix : 1 < radix) (h16 : radix ≤ 16) (v : Nat) :
    parse radix ((numeral radix v).map upper) = some v := by
  unfold numeral
  rw [List.map_map]
  exact parse_digits hradix (fun _ hi => digitValue_upper h16 hi) v

/-- Zeros in front. -/
theorem parse_zeros (hradix : 1 < radix) {text : List Nat} (h : text ≠ []) (n : Nat) :
    parse radix (List.replicate n '0'.toNat ++ text) = parse radix text := by
  have hzero : digitValue radix '0'.toNat = some 0 := by
    unfold digitValue
    exact Option.filter_eq_some_iff.mpr ⟨rfl, by simpa using Nat.lt_of_succ_lt hradix⟩
  unfold parse
  rw [if_neg (by simp [h]), if_neg h]
  induction n with
  | zero => rfl
  | succ n ih =>
    rw [List.replicate_succ, List.cons_append]
    unfold parseFrom at ih ⊢
    rw [List.foldlM_cons, hzero, Option.map_some, Nat.zero_mul]
    exact ih

end BadLands.Core.Numerals
