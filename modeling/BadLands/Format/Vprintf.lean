import BadLands.Format.Grammar
import BadLands.Format.KernelNumbers

/-!
# The kernel's `vprintf`

From the first character of the format to its NUL, with what is printed for each piece and where the next one begins.
There are as many arguments as are asked for. What the number conversions print is that of `KernelNumbers`, and
`none` where it is written behind their buffer.

* `turn_fine`, `turn_unfine`, `turn_cut`: one piece.
* `vprintf_right_iff`: the pieces are those that are written exactly when there is no `%%`, no conversion that the format cuts
  off, no dot without a number, none of the modifiers `j`, `z`, `t` and `L`, and no `%ls` with padding to the left.
-/
namespace BadLands.Format

inductive Failure
  /-- A character behind the NUL is read. -/
  | overread
  /-- A loop has no end. -/
  | endless
  deriving DecidableEq, Repr

inductive Piece
  | character (c : Nat)
  | conversion (lmodif : Modifier) (c : Nat)
  deriving DecidableEq, Repr

/-- What is printed for a piece, and what is left of the format. -/
structure Event where
  piece : Piece
  text : Option (List Nat)
  rest : List Nat
  deriving DecidableEq, Repr

namespace Kernel

/-- `va_arg` of an `int`, where there is a `*`. -/
def fetchField (field : Field) (args : Nat → Slot) (n : Nat) : Int × Nat :=
  match field with
  | .star => (((args n).number.setWidth 32).toInt, n + 1)
  | .value v => (v, n)

/-- mirrors kernel/src/screen/Format.cpp:332-362 -/
def print_c (flags : Flags) (minimum_field_size : Int) (slot : BitVec 64) : List Nat :=
  let buffer := (slot.setWidth 8).toNat
  if flags.left_justify then buffer :: pad (minimum_field_size - 1) else pad (minimum_field_size - 1) ++ [buffer]

/-- The loop of `%ls` that pads to the left ends with a difference of 0.

mirrors kernel/src/screen/Format.cpp:363-422 -/
def print_s (flags : Flags) (minimum_field_size : Int) (lmodif : Modifier) (s : List Nat) : Except Failure (List Nat) :=
  if flags.left_justify then .ok (s ++ pad (minimum_field_size - s.length))
  else if lmodif = .l ∧ minimum_field_size - s.length ≠ 0 then .error .endless
  else .ok (pad (minimum_field_size - s.length) ++ s)

def Conversion.ofCharacter (c : Nat) : Option Conversion :=
  if c = 'd'.toNat then some .d
  else if c = 'i'.toNat then some .i
  else if c = 'o'.toNat then some .o
  else if c = 'x'.toNat then some .x
  else if c = 'X'.toNat then some .X
  else if c = 'u'.toNat then some .u
  else none

/-- What is printed, and the next argument.

mirrors kernel/src/screen/Format.cpp:331-570 -/
def print (args : Nat → Slot) (garbage : Nat → Nat) (spec : Spec) (minimum_field_size precision : Int) (n : Nat) :
    Except Failure (Option (List Nat) × Nat) :=
  if spec.conversion = 'c'.toNat then
    if spec.lmodif = .none ∨ spec.lmodif = .l then
      .ok (some (print_c spec.flags minimum_field_size (args n).number), n + 1)
    else .ok (some [], n)
  else if spec.conversion = 's'.toNat then
    if spec.lmodif = .none ∨ spec.lmodif = .l then
      (print_s spec.flags minimum_field_size spec.lmodif (args n).text).map (some ·, n + 1)
    else .ok (some [], n)
  else
    match Conversion.ofCharacter spec.conversion with
    | some c => .ok (printNumber c spec.flags precision spec.lmodif (args n).number garbage,
        if spec.lmodif.bits.isSome then n + 1 else n)
    | none => .ok (some [], n)

/-- The arguments in the order in which they are fetched. -/
def convert (args : Nat → Slot) (garbage : Nat → Nat) (spec : Spec) (n : Nat) : Except Failure (Option (List Nat) × Nat) :=
  let minimum_field_size := fetchField spec.minimum_field_size args n
  let precision := fetchField spec.precision args minimum_field_size.2
  print args garbage spec minimum_field_size.1 precision.1 precision.2

section
variable (args : Nat → Slot) (garbage : Nat → Nat)

/-- mirrors kernel/src/screen/Format.cpp:183-331 -/
def turnPercent (n : Nat) : List Nat → Except Failure (Event × Nat)
  | [] => .error .overread
  | c :: s =>
    if c = '%'.toNat then .ok (⟨.character '%'.toNat, some ['%'.toNat], c :: s⟩, n)
    else
      match scan (c :: s) with
      | none => .error .overread
      | some (spec, rest) =>
        (convert args garbage spec n).map fun (text, n) => (⟨.conversion spec.lmodif spec.conversion, text, rest⟩, n)

/-- A turn of the loop; nothing at the NUL.

mirrors kernel/src/screen/Format.cpp:180-183,571-574 -/
def turn (n : Nat) : List Nat → Except Failure (Option (Event × Nat))
  | [] => .error .overread
  | c :: s =>
    if c = 0 then .ok none
    else if c = '%'.toNat then (turnPercent args garbage n s).map some
    else .ok (some (⟨.character c, some [c], s⟩, n))

variable {args garbage} {n n' : Nat} {s : List Nat} {event : Event}

theorem turnPercent_length (h : turnPercent args garbage n s = .ok (event, n')) : event.rest.length ≤ s.length := by
  cases s with
  | nil => cases h
  | cons c s =>
    rw [turnPercent] at h
    split at h
    · cases h
      exact Nat.le_refl _
    split at h
    · cases h
    · next spec rest hscan =>
      obtain ⟨result, -, heq⟩ := exists_of_map h
      cases heq
      exact Nat.le_of_lt (scan_length hscan)

theorem turn_length (h : turn args garbage n s = .ok (some (event, n'))) : event.rest.length < s.length := by
  cases s with
  | nil => cases h
  | cons c s =>
    rw [turn] at h
    split at h
    · cases h
    split at h
    · obtain ⟨result, hpercent, heq⟩ := exists_of_map h
      cases heq
      exact Nat.lt_succ_of_le (turnPercent_length hpercent)
    · cases h
      exact Nat.lt_succ_self _

variable (args garbage)

/-- mirrors kernel/src/screen/Format.cpp:177-577 -/
def vprintf (n : Nat) (s : List Nat) : Except Failure (List Event) :=
  match _h : turn args garbage n s with
  | .error failure => .error failure
  | .ok none => .ok []
  | .ok (some (event, n)) => (vprintf n event.rest).map (event :: ·)
termination_by s.length
decreasing_by exact turn_length _h

end

end Kernel

/-! ## The property -/

inductive Item
  | character (c : Nat)
  /-- `%%` -/
  | percent
  | conversion (w : Written)

namespace Item

def piece : Item → Piece
  | character c => .character c
  | percent => .character '%'.toNat
  | conversion w => .conversion w.lmodif w.conversion

/-- How many arguments there are for it. -/
def arguments : Item → Nat
  | character _ | percent => 0
  | conversion w => w.stars +
    if (w.conversion = 'c'.toNat ∨ w.conversion = 's'.toNat) ∧ (w.lmodif = .none ∨ w.lmodif = .l) ∨
        (Kernel.Conversion.ofCharacter w.conversion).isSome ∧ w.lmodif.bits.isSome then 1 else 0

/-- Without `%%`, and with the width of a `%ls` that is not justified to the left being the length of its text. -/
def Fine (args : Nat → Slot) (n : Nat) : Item → Prop
  | character _ => True
  | percent => False
  | conversion w => w.Fine ∧ (w.conversion = 's'.toNat → w.lmodif = .l → w.flags.contains '-'.toNat = false →
      (Kernel.fetchField (Written.field w.width) args n).1 = (args (n + w.stars)).text.length)

end Item

/-- What is written first; `none` at the NUL, and in a conversion that it cuts off. -/
def item : List Nat → Option (Item × List Nat)
  | [] => none
  | c :: s =>
    if c = 0 then none
    else if c = '%'.toNat then
      if s.head? = some '%'.toNat then some (.percent, s.tail)
      else (Written.take s).map fun (w, rest) => (.conversion w, rest)
    else some (.character c, s)

theorem item_length {s rest : List Nat} {i : Item} (h : item s = some (i, rest)) : rest.length < s.length := by
  cases s with
  | nil => cases h
  | cons c s =>
    rw [item] at h
    split at h
    · cases h
    split at h
    · split at h
      · cases h
        rw [List.length_tail, List.length_cons]
        omega
      · obtain ⟨⟨w, rest'⟩, htake, heq⟩ := Option.map_eq_some_iff.mp h
        cases heq
        exact Nat.lt_succ_of_lt (Written.take_length htake)
    · cases h
      exact Nat.lt_succ_self _

/-- The pieces of a format, and where each of them ends. -/
def pieces (s : List Nat) : List (Piece × List Nat) :=
  match _h : item s with
  | none => []
  | some (i, rest) => (i.piece, rest) :: pieces rest
termination_by s.length
decreasing_by exact item_length _h

/-- The format is read to its NUL and no further, piece by piece, with each ordinary character and each `%%` printed. -/
def Right (args : Nat → Slot) (garbage : Nat → Nat) (n : Nat) (s : List Nat) : Prop :=
  ∃ events, Kernel.vprintf args garbage n s = .ok events ∧ events.map (fun e => (e.piece, e.rest)) = pieces s ∧
    ∀ e ∈ events, ∀ c, e.piece = .character c → e.text = some [c]

/-- All that is written is fine, up to the NUL. -/
def AllFine (args : Nat → Slot) (n : Nat) (s : List Nat) : Prop :=
  match _h : item s with
  | none => s = [0]
  | some (i, rest) => i.Fine args n ∧ AllFine args (n + i.arguments) rest
termination_by s.length
decreasing_by exact item_length _h

/-! ## A turn -/

section
variable {args : Nat → Slot} {garbage : Nat → Nat} {n n' : Nat} {s rest : List Nat} {i : Item} {event : Event} {w : Written}
  {spec : Spec}

theorem item_none (h : Terminated s) (hitem : item s = none) : s = [0] ∨ ∃ t, s = '%'.toNat :: t ∧ Terminated t ∧
    t.head? ≠ some '%'.toNat ∧ Written.take t = none := by
  obtain ⟨c, t, rfl, htail⟩ := h.cons
  rw [item] at hitem
  by_cases hc : c = 0
  · rw [Terminated, if_pos hc] at h
    exact .inl (by rw [hc, h])
  rw [if_neg hc] at hitem
  split at hitem
  · next hpercent =>
    split at hitem
    · cases hitem
    · next hhead => exact .inr ⟨t, by rw [hpercent], htail hc, hhead, Option.map_eq_none_iff.mp hitem⟩
  · cases hitem

theorem fetchField_next (field : Field) (args : Nat → Slot) (n : Nat) :
    (Kernel.fetchField field args n).2 = n + if field = .star then 1 else 0 := by
  cases field <;> rfl

theorem field_star (text : List Nat) : Written.field text = .star ↔ text = ['*'.toNat] := by
  unfold Written.field
  split
  · next h => exact ⟨fun _ => h, fun _ => rfl⟩
  · next h => exact ⟨nofun, fun h' => absurd h' h⟩

/-- What is converted is fetched behind the stars. -/
theorem convert_eq (args : Nat → Slot) (garbage : Nat → Nat) (n : Nat) (hread : w.Read spec) :
    ∃ precision, Kernel.convert args garbage spec n =
      Kernel.print args garbage spec (Kernel.fetchField (Written.field w.width) args n).1 precision (n + w.stars) := by
  refine ⟨(Kernel.fetchField spec.precision args (Kernel.fetchField spec.minimum_field_size args n).2).1, ?_⟩
  rw [Kernel.convert, fetchField_next spec.precision, hread.minimum_field_size, fetchField_next, Written.stars, ← Nat.add_assoc,
    if_congr (field_star w.width) rfl rfl, if_congr hread.precision rfl rfl]

theorem convert_fine (garbage : Nat → Nat) (hread : w.Read spec) (hfine : (Item.conversion w).Fine args n) :
    ∃ text, Kernel.convert args garbage spec n = .ok (text, n + (Item.conversion w).arguments) := by
  obtain ⟨precision, hconvert⟩ := convert_eq args garbage n hread
  rw [hconvert, Item.arguments, ← Nat.add_assoc, Kernel.print, hread.conversion, hread.lmodif]
  have hwidth := hfine.2
  generalize (Kernel.fetchField (Written.field w.width) args n).1 = width at hwidth ⊢
  generalize n + w.stars = n' at hwidth ⊢
  by_cases hc : w.conversion = 'c'.toNat
  · rw [if_pos hc]
    by_cases hm : w.lmodif = .none ∨ w.lmodif = .l
    · rw [if_pos hm, if_pos (.inl ⟨.inl hc, hm⟩)]
      exact ⟨_, rfl⟩
    · have hnone : ¬ (Kernel.Conversion.ofCharacter w.conversion).isSome := by
        rw [hc]
        decide
      rw [if_neg hm, if_neg fun h => h.elim (fun h => hm h.2) fun h => hnone h.1]
      exact ⟨_, rfl⟩
  rw [if_neg hc]
  by_cases hs : w.conversion = 's'.toNat
  · rw [if_pos hs]
    by_cases hm : w.lmodif = .none ∨ w.lmodif = .l
    · rw [if_pos hm, if_pos (.inl ⟨.inr hs, hm⟩), Kernel.print_s]
      by_cases hleft : spec.flags.left_justify = true
      · rw [if_pos hleft]
        exact ⟨_, rfl⟩
      · have hends : ¬ (w.lmodif = .l ∧ width - (args n').text.length ≠ 0) := fun ⟨hl, hne⟩ => by
          rw [hread.left_justify] at hleft
          exact hne (Int.sub_eq_zero.mpr (hwidth hs hl (Bool.eq_false_iff.mpr hleft)))
        rw [if_neg hleft, if_neg hends]
        exact ⟨_, rfl⟩
    · have hnone : ¬ (Kernel.Conversion.ofCharacter w.conversion).isSome := by
        rw [hs]
        decide
      rw [if_neg hm, if_neg fun h => h.elim (fun h => hm h.2) fun h => hnone h.1]
      exact ⟨_, rfl⟩
  rw [if_neg hs, if_congr (or_iff_right fun h => h.1.elim hc hs) rfl rfl]
  cases Kernel.Conversion.ofCharacter w.conversion with
  | none => exact ⟨_, rfl⟩
  | some c => cases w.lmodif.bits <;> exact ⟨_, rfl⟩

/-- A `%ls` with padding to the left has no end. -/
theorem convert_endless (hread : w.Read spec) (hw : w.Fine) (hfine : ¬ (Item.conversion w).Fine args n) :
    Kernel.convert args garbage spec n = .error .endless := by
  obtain ⟨precision, hconvert⟩ := convert_eq args garbage n hread
  simp only [Item.Fine, hw, true_and, Classical.not_imp] at hfine
  obtain ⟨hs, hl, hleft, hwidth⟩ := hfine
  have hc : spec.conversion ≠ 'c'.toNat := by
    rw [hread.conversion, hs]
    decide
  have hright : ¬ spec.flags.left_justify = true := by
    rw [hread.left_justify, hleft]
    decide
  rw [hconvert, Kernel.print, if_neg hc, if_pos (hread.conversion.trans hs), if_pos (.inr (hread.lmodif.trans hl)),
    Kernel.print_s, if_neg hright, if_pos ⟨hread.lmodif.trans hl, fun h => hwidth (Int.sub_eq_zero.mp h)⟩]
  rfl

theorem turn_fine (garbage : Nat → Nat) (h : Terminated s) (hitem : item s = some (i, rest)) (hfine : i.Fine args n) :
    ∃ text, Kernel.turn args garbage n s = .ok (some (⟨i.piece, text, rest⟩, n + i.arguments)) ∧
      ∀ c, i.piece = .character c → text = some [c] := by
  obtain ⟨c, t, rfl, htail⟩ := h.cons
  rw [item] at hitem
  split at hitem
  · cases hitem
  next hc =>
  split at hitem
  · next hpercent =>
    split at hitem
    · cases hitem
      exact hfine.elim
    next hhead =>
    obtain ⟨⟨w, rest'⟩, htake, heq⟩ := Option.map_eq_some_iff.mp hitem
    cases heq
    obtain ⟨spec, hscan, hread⟩ := Kernel.scan_fine (htail hc) htake hfine.1
    obtain ⟨text, hconvert⟩ := convert_fine garbage hread hfine
    obtain ⟨d, u, rfl, -⟩ := (htail hc).cons
    refine ⟨text, ?_, nofun⟩
    rw [Kernel.turn, if_neg hc, if_pos hpercent, Kernel.turnPercent, if_neg fun hd => hhead (congrArg some hd), hscan]
    dsimp only
    rw [hconvert, Item.piece, ← hread.lmodif, ← hread.conversion]
    rfl
  · next hpercent =>
    cases hitem
    refine ⟨some [c], ?_, fun _ hpiece => by cases hpiece; rfl⟩
    rw [Kernel.turn, if_neg hc, if_neg hpercent]
    rfl

theorem turn_unfine (h : Terminated s) (hitem : item s = some (i, rest)) (hfine : ¬ i.Fine args n)
    (hturn : Kernel.turn args garbage n s = .ok (some (event, n'))) : (event.piece, event.rest) ≠ (i.piece, rest) := by
  obtain ⟨c, t, rfl, htail⟩ := h.cons
  rw [item] at hitem
  split at hitem
  · cases hitem
  next hc =>
  split at hitem
  · next hpercent =>
    obtain ⟨d, u, rfl, -⟩ := (htail hc).cons
    rw [Kernel.turn, if_neg hc, if_pos hpercent, Kernel.turnPercent] at hturn
    split at hitem
    · next hhead =>
      cases hitem
      rw [if_pos (Option.some.inj hhead)] at hturn
      cases hturn
      intro heq
      have hlength := congrArg List.length (Prod.mk.inj heq).2
      exact absurd hlength (Nat.succ_ne_self _)
    next hhead =>
    obtain ⟨⟨w, rest'⟩, htake, heq⟩ := Option.map_eq_some_iff.mp hitem
    cases heq
    rw [if_neg fun hd => hhead (congrArg some hd)] at hturn
    split at hturn
    · cases hturn
    next spec r hscan =>
    by_cases hw : w.Fine
    · obtain ⟨spec', hscan', hread⟩ := Kernel.scan_fine (htail hc) htake hw
      rw [hscan'] at hscan
      cases hscan
      rw [convert_endless hread hw hfine] at hturn
      cases hturn
    · have hdiffer := Kernel.scan_unfine (htail hc) htake hw hscan
      obtain ⟨percent, hpercent', heq⟩ := exists_of_map hturn
      obtain ⟨result, -, rfl⟩ := exists_of_map hpercent'
      cases heq
      intro heq
      obtain ⟨hpiece, hrest⟩ := Prod.mk.inj heq
      exact hdiffer ⟨(Piece.conversion.inj hpiece).1, hrest⟩
  · cases hitem
    exact absurd trivial hfine

/-- In a conversion that the NUL cuts off, the NUL is read over. -/
theorem turn_cut (h : Terminated s) (hitem : item s = none) (hs : s ≠ [0])
    (hturn : Kernel.turn args garbage n s = .ok (some (event, n'))) : event.rest = [] := by
  obtain rfl | ⟨t, rfl, ht, hhead, htake⟩ := item_none h hitem
  · exact absurd rfl hs
  obtain ⟨d, u, rfl, -⟩ := ht.cons
  rw [Kernel.turn, if_neg (by decide), if_pos rfl, Kernel.turnPercent, if_neg fun hd => hhead (congrArg some hd)] at hturn
  split at hturn
  · cases hturn
  next spec r hscan =>
  obtain ⟨percent, hpercent, heq⟩ := exists_of_map hturn
  obtain ⟨result, -, rfl⟩ := exists_of_map hpercent
  cases heq
  exact Kernel.scan_cut ht htake hscan

/-! ## The run -/

theorem pieces_none (hitem : item s = none) : pieces s = [] := by
  rw [pieces]
  split
  · rfl
  · next h => rw [hitem] at h; cases h

theorem pieces_some (hitem : item s = some (i, rest)) : pieces s = (i.piece, rest) :: pieces rest := by
  rw [pieces]
  split
  · next h => rw [hitem] at h; cases h
  · next h => rw [hitem] at h; cases h; rfl

theorem allFine_none (hitem : item s = none) : AllFine args n s ↔ s = [0] := by
  rw [AllFine]
  split
  · rfl
  · next h => rw [hitem] at h; cases h

theorem allFine_some (hitem : item s = some (i, rest)) :
    AllFine args n s ↔ i.Fine args n ∧ AllFine args (n + i.arguments) rest := by
  rw [AllFine]
  split
  · next h => rw [hitem] at h; cases h
  · next h => rw [hitem] at h; cases h; rfl

theorem vprintf_ok {events : List Event} (h : Kernel.vprintf args garbage n s = .ok events) :
    Kernel.turn args garbage n s = .ok none ∧ events = [] ∨
      ∃ event n' tail, Kernel.turn args garbage n s = .ok (some (event, n')) ∧
        Kernel.vprintf args garbage n' event.rest = .ok tail ∧ events = event :: tail := by
  rw [Kernel.vprintf] at h
  split at h
  · cases h
  · next hturn =>
    cases h
    exact .inl ⟨hturn, rfl⟩
  · next event n' hturn =>
    obtain ⟨tail, htail, rfl⟩ := exists_of_map h
    exact .inr ⟨event, n', tail, hturn, htail, rfl⟩

theorem vprintf_none (hturn : Kernel.turn args garbage n s = .ok none) : Kernel.vprintf args garbage n s = .ok [] := by
  rw [Kernel.vprintf]
  split
  · next h => rw [hturn] at h; cases h
  · rfl
  · next h => rw [hturn] at h; cases h

theorem vprintf_some (hturn : Kernel.turn args garbage n s = .ok (some (event, n'))) :
    Kernel.vprintf args garbage n s = (Kernel.vprintf args garbage n' event.rest).map (event :: ·) := by
  rw [Kernel.vprintf]
  split
  · next h => rw [hturn] at h; cases h
  · next h => rw [hturn] at h; cases h
  · next h => rw [hturn] at h; cases h; rfl

theorem item_terminated (h : Terminated s) (hitem : item s = some (i, rest)) : Terminated rest := by
  obtain ⟨c, t, rfl, htail⟩ := h.cons
  rw [item] at hitem
  split at hitem
  · cases hitem
  next hc =>
  split at hitem
  · split at hitem
    · next hhead =>
      cases hitem
      obtain ⟨d, u, rfl, hu⟩ := (htail hc).cons
      exact hu (by rw [Option.some.inj hhead]; decide)
    · obtain ⟨⟨w, rest'⟩, htake, heq⟩ := Option.map_eq_some_iff.mp hitem
      cases heq
      exact Written.take_terminated (htail hc) htake
  · cases hitem
    exact htail hc

/-- Nothing is printed from behind the NUL. -/
theorem vprintf_nil : Kernel.vprintf args garbage n [] = .error .overread := by
  rw [Kernel.vprintf]
  rfl

/-- The loop ends at a NUL only. -/
theorem turn_none (hturn : Kernel.turn args garbage n s = .ok none) : s.head? = some 0 := by
  cases s with
  | nil => cases hturn
  | cons c s =>
    rw [Kernel.turn] at hturn
    split at hturn
    · next hc => exact congrArg some hc
    split at hturn
    · obtain ⟨_, _, h⟩ := exists_of_map hturn
      cases h
    · cases hturn

/-- A format that ends in a conversion is not printed to an end. -/
theorem vprintf_cut (h : Terminated s) (hitem : item s = none) (hs : s ≠ [0]) (events : List Event) :
    Kernel.vprintf args garbage n s ≠ .ok events := by
  intro hrun
  obtain ⟨hturn, -⟩ | ⟨event, n', tail, hturn, htail, -⟩ := vprintf_ok hrun
  · obtain rfl | ⟨t, rfl, -⟩ := item_none h hitem
    · exact hs rfl
    · cases turn_none hturn
  · rw [turn_cut h hitem hs hturn, vprintf_nil] at htail
    cases htail

/-- A piece that is fine: the rest has to be right. -/
theorem right_step (h : Terminated s) (hitem : item s = some (i, rest)) (hfine : i.Fine args n) :
    Right args garbage n s ↔ Right args garbage (n + i.arguments) rest := by
  obtain ⟨text, hturn, htext⟩ := turn_fine garbage h hitem hfine
  unfold Right
  rw [vprintf_some hturn, pieces_some hitem]
  dsimp only
  constructor
  · rintro ⟨events, hrun, hpieces, hprinted⟩
    obtain ⟨tail, htail, rfl⟩ := exists_of_map hrun
    exact ⟨tail, htail, (List.cons.inj hpieces).2, fun e he => hprinted e (List.mem_cons_of_mem _ he)⟩
  · rintro ⟨tail, htail, hpieces, hprinted⟩
    refine ⟨⟨i.piece, text, rest⟩ :: tail, by rw [htail]; rfl, by rw [List.map_cons, hpieces], ?_⟩
    intro e he c hpiece
    rcases List.mem_cons.mp he with rfl | he
    · exact htext c hpiece
    · exact hprinted e he c hpiece

theorem right_iff_allFine (garbage : Nat → Nat) : ∀ (s : List Nat) (n : Nat), Terminated s →
    (Right args garbage n s ↔ AllFine args n s) := by
  intro s
  induction hlength : s.length using Nat.strong_induction_on generalizing s with
  | _ k ih =>
  intro n h
  subst hlength
  cases hitem : item s with
  | none =>
    rw [allFine_none hitem]
    constructor
    · rintro ⟨events, hrun, -, -⟩
      exact Classical.byContradiction fun hs => vprintf_cut h hitem hs events hrun
    · rintro rfl
      exact ⟨[], vprintf_none rfl, (pieces_none hitem).symm, nofun⟩
  | some next =>
    obtain ⟨i, rest⟩ := next
    rw [allFine_some hitem]
    by_cases hfine : i.Fine args n
    · rw [right_step h hitem hfine, ih rest.length (item_length hitem) rest rfl _ (item_terminated h hitem)]
      exact (and_iff_right hfine).symm
    · refine iff_of_false ?_ fun h => hfine h.1
      rintro ⟨events, hrun, hpieces, -⟩
      rw [pieces_some hitem] at hpieces
      obtain ⟨-, rfl⟩ | ⟨event, n', tail, hturn, -, rfl⟩ := vprintf_ok hrun
      · cases hpieces
      · exact turn_unfine h hitem hfine hturn (List.cons.inj hpieces).1

end

/-- For every format without a NUL in it and all arguments: `vprintf` comes to the NUL by the pieces that are written,
and prints each ordinary character and each `%%`, exactly when all pieces are fine. -/
theorem vprintf_right_iff (args : Nat → Slot) (garbage : Nat → Nat) (format : List Nat) (h : 0 ∉ format) :
    Right args garbage 0 (format ++ [0]) ↔ AllFine args 0 (format ++ [0]) :=
  right_iff_allFine garbage _ 0 (terminated_append format h)

/-- `a%5d` -/
theorem vprintf_right_field : Right (fun _ => ⟨7, []⟩) (fun _ => 0) 0 (['a', '%', '5', 'd'].map Char.toNat ++ [0]) := by
  refine (vprintf_right_iff _ _ _ (by decide)).mpr ?_
  have hcharacter : item (['a', '%', '5', 'd'].map Char.toNat ++ [0]) =
      some (.character 'a'.toNat, ['%', '5', 'd'].map Char.toNat ++ [0]) := rfl
  have hconversion : item (['%', '5', 'd'].map Char.toNat ++ [0]) =
      some (.conversion ⟨[], ['5'.toNat], none, .none, 'd'.toNat⟩, [0]) := rfl
  rw [allFine_some hcharacter, allFine_some hconversion, allFine_none rfl]
  exact ⟨trivial, ⟨by decide, fun h => absurd h (by decide)⟩, rfl⟩

/-- The second character of a `%%` is read as the first of a conversion. -/
theorem vprintf_percent : ¬ Right (fun _ => ⟨7, []⟩) (fun _ => 0) 0 (['%', '%'].map Char.toNat ++ [0]) := by
  rintro ⟨events, hrun, hpieces, -⟩
  have hturn : Kernel.turn (fun _ => ⟨7, []⟩) (fun _ => 0) 0 (['%', '%'].map Char.toNat ++ [0]) =
      .ok (some (⟨.character '%'.toNat, some ['%'.toNat], ['%'.toNat, 0]⟩, 0)) := rfl
  have hitem : item (['%', '%'].map Char.toNat ++ [0]) = some (.percent, [0]) := rfl
  rw [vprintf_some hturn] at hrun
  obtain ⟨tail, -, rfl⟩ := exists_of_map hrun
  rw [pieces_some hitem] at hpieces
  cases (Prod.mk.inj (List.cons.inj hpieces).1).2

end BadLands.Format
