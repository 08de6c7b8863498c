import BadLands.Core.Cells
import BadLands.Format.Itoa

/-!
# The number fields of the loader's `vsnprintf`

A sign or prefix is in the back buffer already; the digits are written behind it and the field is filled.
To the right, the text is moved up by a loop from its first character on.

* `backBuffer_room`: the callers' arrays are long enough.
* `field_iff`: the field is right exactly when it is not moved, or is not changed by being moved.
-/
namespace BadLands.Format

open BadLands.Core.Cells

namespace Loader

/-- The length and the buffer afterwards.

mirrors bootloader/src/ldstdio/vsnprintf.cpp:86-122 -/
def format_number_back_buffer (len : Nat) (minimum_field_size : Int) (leading_zeroes left_justify : Bool)
    (number_buffer : List Nat) (back_length : Nat) (back_buffer : List Nat) : Option (Nat × List Nat) := do
  let back_buffer ← (if len ≤ number_buffer.length then writes back_buffer back_length (number_buffer.take len) else none)
  let back_length := back_length + len
  let shift := minimum_field_size.toNat - back_length
  if (back_length : Int) < minimum_field_size then
    if left_justify then
      (writes back_buffer back_length (List.replicate shift ' '.toNat)).map (minimum_field_size.toNat, ·)
    else
      (copyUp shift back_length 0 back_buffer).bind fun back_buffer =>
        (writes back_buffer 0 (List.replicate shift (if leading_zeroes then '0'.toNat else ' '.toNat))).map
          (minimum_field_size.toNat, ·)
  else some (back_length, back_buffer)

/-- mirrors bootloader/src/ldstdio/vsnprintf.cpp:455-460 -/
def backCells (precision minimum_field_size : Int) : Nat := (max precision minimum_field_size + 32).toNat

end Loader

/-! ## The property -/

/-- Prefix and digits, with padding on the one side or the other. -/
def field (minimum_field_size : Int) (leading_zeroes left_justify : Bool) (text : List Nat) : List Nat :=
  let padding := minimum_field_size.toNat - text.length
  if left_justify then text ++ List.replicate padding ' '.toNat
  else List.replicate padding (if leading_zeroes then '0'.toNat else ' '.toNat) ++ text

/-- The field is what the buffer begins with. `rest` and `tail` are what else is in the two arrays. -/
def FieldRight (minimum_field_size : Int) (leading_zeroes left_justify : Bool) (lead digits rest tail : List Nat) : Prop :=
  ∃ b, Loader.format_number_back_buffer digits.length minimum_field_size leading_zeroes left_justify (digits ++ tail)
      lead.length (lead ++ rest) = some (max minimum_field_size.toNat (lead ++ digits).length, b) ∧
    b.take (max minimum_field_size.toNat (lead ++ digits).length) =
      field minimum_field_size leading_zeroes left_justify (lead ++ digits)

section
variable {minimum_field_size : Int} {leading_zeroes left_justify : Bool} {lead digits rest tail text back : List Nat}

/-- A sign or prefix has at most two characters and the digits are at most 22, or as many as the precision. -/
theorem backBuffer_room {precision : Int} (hprecision : 0 ≤ precision) (hlead : lead.length ≤ 2)
    (hdigits : (digits.length : Int) ≤ max precision 22) :
    max minimum_field_size.toNat (lead ++ digits).length ≤ Loader.backCells precision minimum_field_size := by
  unfold Loader.backCells
  rw [List.length_append]
  omega

/-- Prefix and digits are together before the field is filled. -/
theorem written_eq (hroom : (lead ++ digits).length ≤ (lead ++ rest).length) :
    writes (lead ++ rest) lead.length digits = some (lead ++ digits ++ (lead ++ rest).drop (lead ++ digits).length) := by
  rw [List.length_append] at hroom
  rw [writes_eq _ _ _ hroom, List.take_left, List.length_append]

/-- The text that has been moved is the one that repeats what lies in the padding. -/
theorem moved_iff {s : Nat} (hs : 0 < s) (hroom : text.length + s ≤ (text ++ back).length) :
    ∃ b, copyUp s text.length 0 (text ++ back) = some b ∧ b.length = (text ++ back).length ∧
      ((b.drop s).take text.length = text ↔ ∀ i < text.length, text[i % s]? = text[i]?) := by
  obtain ⟨b, hrun, hlength, hcells⟩ := copyUp_spec hs (text ++ back) hroom
  have hcell : ∀ i, i < text.length → ((b.drop s).take text.length)[i]? = text[i % s]? := fun i hi => by
    rw [List.getElem?_take_of_lt hi, List.getElem?_drop, hcells, if_pos (by omega), Nat.add_mod_left,
      List.getElem?_append_left (Nat.lt_of_le_of_lt (Nat.mod_le i s) hi)]
  refine ⟨b, hrun, hlength, ?_, fun h => ?_⟩
  · intro h i hi
    rw [← hcell i hi, h]
  · refine List.ext_getElem? fun i => ?_
    rcases Nat.lt_or_ge i text.length with hi | hi
    · rw [hcell i hi, h i hi]
    · rw [List.getElem?_eq_none (Nat.le_trans (List.length_take_le _ _) hi), List.getElem?_eq_none hi]

end

/-- For every text with a sign or prefix, minimum field size and flags, in a buffer with room for the field: it is
right exactly when it is justified to the left, as long as the field, or the same when it is read with the length of
the padding as a period (as it is when the padding is not shorter than the text). -/
theorem field_iff (minimum_field_size : Int) (leading_zeroes left_justify : Bool) (lead digits rest tail : List Nat)
    (hroom : max minimum_field_size.toNat (lead ++ digits).length ≤ (lead ++ rest).length) :
    FieldRight minimum_field_size leading_zeroes left_justify lead digits rest tail ↔
      left_justify = true ∨ minimum_field_size ≤ (lead ++ digits).length ∨
        ∀ i < (lead ++ digits).length,
          (lead ++ digits)[i % (minimum_field_size.toNat - (lead ++ digits).length)]? = (lead ++ digits)[i]? := by
  have hlength : lead.length + digits.length = (lead ++ digits).length := List.length_append.symm
  have hback : (lead ++ digits ++ (lead ++ rest).drop (lead ++ digits).length).length = (lead ++ rest).length := by
    rw [List.length_append, List.length_drop]
    omega
  unfold FieldRight Loader.format_number_back_buffer
  rw [if_pos (by rw [List.length_append]; omega), List.take_left, written_eq (by omega)]
  simp only [Option.bind_eq_bind, Option.bind_some, hlength]
  generalize lead ++ digits = text at *
  generalize (lead ++ rest).drop text.length = back at *
  by_cases hless : (text.length : Int) < minimum_field_size
  · obtain ⟨s, hs⟩ : ∃ s, minimum_field_size.toNat = text.length + s := ⟨minimum_field_size.toNat - text.length, by omega⟩
    have hpos : 0 < s := by omega
    have hmax : max minimum_field_size.toNat text.length = text.length + s := by omega
    have hshift : minimum_field_size.toNat - text.length = s := by omega
    rw [if_pos hless, hshift, hmax, hs, field, hshift]
    cases left_justify with
    | true =>
      refine ⟨fun _ => .inl rfl, fun _ => ?_⟩
      rw [if_pos rfl, if_pos rfl, writes_eq _ _ _ (by rw [List.length_replicate]; omega), List.take_left, Option.map_some]
      refine ⟨_, rfl, ?_⟩
      rw [List.take_left' (by rw [List.length_append, List.length_replicate])]
    | false =>
      obtain ⟨b, hrun, hsize, hmoved⟩ := moved_iff hpos (show text.length + s ≤ (text ++ back).length by omega)
      have hdrop : ∀ c : Nat, (List.replicate s c ++ b.drop s).take (text.length + s) =
          List.replicate s c ++ (b.drop s).take text.length := fun c => by
        rw [List.take_append, List.length_replicate, List.take_of_length_le (by rw [List.length_replicate]; omega),
          Nat.add_sub_cancel]
      rw [if_neg Bool.false_ne_true, if_neg Bool.false_ne_true, hrun, Option.bind_some,
        writes_eq _ _ _ (by rw [List.length_replicate]; omega), List.length_replicate, Nat.zero_add, List.take_zero,
        List.nil_append, Option.map_some]
      refine ⟨?_, fun h => ⟨_, rfl, ?_⟩⟩
      · rintro ⟨b', hb', htake⟩
        cases hb'
        rw [hdrop] at htake
        exact .inr (.inr (hmoved.mp (List.append_cancel_left htake)))
      · rcases h with h | h | h
        · cases h
        · omega
        · rw [hdrop, hmoved.mpr h]
  · have hpadding : minimum_field_size.toNat - text.length = 0 := by omega
    rw [if_neg hless, field, hpadding, show max minimum_field_size.toNat text.length = text.length by omega]
    refine ⟨fun _ => .inr (.inl (Int.not_lt.mp hless)), fun _ => ⟨_, rfl, ?_⟩⟩
    rw [List.take_left, List.replicate_zero, List.replicate_zero, List.append_nil, List.nil_append, ite_self]

theorem field_hex : FieldRight 8 true false ['0'.toNat, 'x'.toNat] ['f'.toNat, 'f'.toNat] (List.replicate 34 0) [0] :=
  (field_iff 8 true false ['0'.toNat, 'x'.toNat] ['f'.toNat, 'f'.toNat] (List.replicate 34 0) [0] (by decide)).mpr (by decide)

/-- `%3d` of twelve: one blank in front of two digits. -/
theorem field_corrupts : ¬ ∀ (minimum_field_size : Int) (leading_zeroes left_justify : Bool)
    (lead digits rest tail : List Nat), max minimum_field_size.toNat (lead ++ digits).length ≤ (lead ++ rest).length →
      FieldRight minimum_field_size leading_zeroes left_justify lead digits rest tail := by
  intro h
  obtain ⟨b, hrun, htake⟩ := h 3 false false [] ['1'.toNat, '2'.toNat] (List.replicate 35 0) [0] (by decide)
  have hb : Loader.format_number_back_buffer 2 3 false false ['1'.toNat, '2'.toNat, 0] 0 (List.replicate 35 0) =
      some (3, ' '.toNat :: '1'.toNat :: '1'.toNat :: List.replicate 32 0) := by decide
  cases hb.symm.trans hrun
  revert htake
  decide

end BadLands.Format
