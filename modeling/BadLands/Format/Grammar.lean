import BadLands.Format.Scanner
import Mathlib.Data.List.TakeWhile

/-!
# Conversion specifications as they are written

The grammar that the two scanners read: flags, a width, a precision behind a dot, a length modifier of its own
characters, and the conversion.

* `scan_fine`: the scanner reads what is written when there is a digit or a `*` behind each dot and the modifier is
  none of the four that it steps over.
* `scan_unfine`: else it goes further than the specification that is written does.
-/
namespace BadLands.Format

/-- The characters that are left, with the NUL. -/
def Terminated : List Nat → Prop
  | [] => False
  | c :: s => if c = 0 then s = [] else Terminated s

structure Written where
  flags : List Nat
  /-- A `*`, or digits. -/
  width : List Nat
  /-- What is behind the dot. -/
  precision : Option (List Nat)
  lmodif : Modifier
  conversion : Nat
  deriving DecidableEq, Repr

/-- The modifiers of which the scanners read no more than is written. -/
def Modifier.Known (m : Modifier) : Prop := m ∈ [.hh, .h, .none, .l, .ll]

instance (m : Modifier) : Decidable m.Known := inferInstanceAs (Decidable (m ∈ _))

namespace Written

def isFlag (c : Nat) : Bool :=
  c = '-'.toNat ∨ c = '+'.toNat ∨ c = ' '.toNat ∨ c = '#'.toNat ∨ c = '0'.toNat

def takeDigits (s : List Nat) : List Nat × List Nat := (s.takeWhile isDigit, s.dropWhile isDigit)

def takeWidth : List Nat → List Nat × List Nat
  | [] => ([], [])
  | c :: s => if c = '*'.toNat then (['*'.toNat], s) else takeDigits (c :: s)

/-- A `*`, or digits with or without a minus. -/
def takeSigned : List Nat → List Nat × List Nat
  | [] => ([], [])
  | c :: s =>
    if c = '*'.toNat then (['*'.toNat], s)
    else if c = '-'.toNat then ('-'.toNat :: (takeDigits s).1, (takeDigits s).2)
    else takeDigits (c :: s)

def takePrecision : List Nat → Option (List Nat) × List Nat
  | [] => (none, [])
  | c :: s => if c = '.'.toNat then (some (takeSigned s).1, (takeSigned s).2) else (none, c :: s)

def takeModifier : List Nat → Modifier × List Nat
  | [] => (.none, [])
  | c :: s =>
    if c = 'h'.toNat then if s.head? = some 'h'.toNat then (.hh, s.tail) else (.h, s)
    else if c = 'l'.toNat then if s.head? = some 'l'.toNat then (.ll, s.tail) else (.l, s)
    else if c = 'j'.toNat then (.j, s)
    else if c = 'z'.toNat then (.z, s)
    else if c = 't'.toNat then (.t, s)
    else if c = 'L'.toNat then (.L, s)
    else (.none, c :: s)

/-! Behind the flags. -/

def widthOf (t : List Nat) : List Nat := (takeWidth t).1
def precisionOf (t : List Nat) : Option (List Nat) := (takePrecision (takeWidth t).2).1
def modifierOf (t : List Nat) : Modifier := (takeModifier (takePrecision (takeWidth t).2).2).1
def conversionOn (t : List Nat) : List Nat := (takeModifier (takePrecision (takeWidth t).2).2).2

/-- Behind the `%`, with what is left; `none` where the format ends before the conversion. -/
def take (s : List Nat) : Option (Written × List Nat) :=
  let t := s.dropWhile isFlag
  match conversionOn t with
  | [] => none
  | c :: rest => if c = 0 then none else some (⟨s.takeWhile isFlag, widthOf t, precisionOf t, modifierOf t, c⟩, rest)

def digits (text : List Nat) : Int := text.foldl (fun n c => wrap (n * 10 + (c - '0'.toNat : Nat))) 0

/-- The width as it is written. -/
def field (text : List Nat) : Field := if text = ['*'.toNat] then .star else .value (digits text)

/-- The arguments for the width and the precision. -/
def stars (w : Written) : Nat :=
  (if w.width = ['*'.toNat] then 1 else 0) + if w.precision = some ['*'.toNat] then 1 else 0

/-- A number is behind the dot. -/
def Given (text : List Nat) : Prop := text = ['*'.toNat] ∨ ∃ d ∈ text, isDigit d

instance (text : List Nat) : Decidable (Given text) := inferInstanceAs (Decidable (_ ∨ _))

/-- There is a number behind the dot, and the modifier is one that the scanners step over once. -/
def Fine (w : Written) : Prop :=
  (∀ text ∈ w.precision, Given text) ∧ w.lmodif.Known

instance (w : Written) : Decidable w.Fine := inferInstanceAs (Decidable (_ ∧ _))

/-- What of the specification does not depend on what the digits are. -/
structure Read (w : Written) (spec : Spec) : Prop where
  left_justify : spec.flags.left_justify = w.flags.contains '-'.toNat
  minimum_field_size : spec.minimum_field_size = field w.width
  precision : spec.precision = .star ↔ w.precision = some ['*'.toNat]
  lmodif : spec.lmodif = w.lmodif
  conversion : spec.conversion = w.conversion

end Written

theorem exists_of_map {ε α β : Type} {f : α → β} {x : Except ε α} {b : β} (h : x.map f = .ok b) :
    ∃ a, x = .ok a ∧ f a = b := by
  cases x with
  | error _ => cases h
  | ok a =>
    cases h
    exact ⟨a, rfl, rfl⟩

/-! ## Terminated strings -/

section
variable {c : Nat} {s : List Nat}

theorem terminated_append : ∀ (chars : List Nat), 0 ∉ chars → Terminated (chars ++ [0])
  | [], _ => rfl
  | c :: chars, h => by
    have hc : c ≠ 0 := fun h0 => h (by rw [h0]; exact List.mem_cons_self)
    rw [List.cons_append, Terminated, if_neg hc]
    exact terminated_append chars fun hmem => h (List.mem_cons_of_mem c hmem)

theorem Terminated.tail (h : Terminated (c :: s)) (hc : c ≠ 0) : Terminated s := by
  rw [Terminated, if_neg hc] at h
  exact h

theorem Terminated.dropWhile {p : Nat → Bool} (hp : p 0 = false) :
    ∀ {s : List Nat}, Terminated s → Terminated (s.dropWhile p)
  | [], h => h
  | c :: s, h => by
    rw [List.dropWhile_cons]
    split
    · next hc =>
      have hnul : c ≠ 0 := fun h0 => by
        rw [h0, hp] at hc
        cases hc
      exact (h.tail hnul).dropWhile hp
    · exact h

/-- There is a first character. -/
theorem Terminated.cons (h : Terminated s) : ∃ c t, s = c :: t ∧ (c ≠ 0 → Terminated t) := by
  cases s with
  | nil => cases h
  | cons c t => exact ⟨c, t, rfl, h.tail⟩

end

/-! ## The phases -/

section
variable {c : Nat} {s t : List Nat} {flags flags' : Flags} {field : Field} {lmodif : Modifier}

theorem Flags.set_none (flags : Flags) (h : Written.isFlag c = false) : flags.set c = none := by
  simp only [Written.isFlag, decide_eq_false_iff_not, not_or] at h
  obtain ⟨h₁, h₂, h₃, h₄, h₅⟩ := h
  rw [Flags.set, if_neg h₁, if_neg h₂, if_neg h₃, if_neg h₄, if_neg h₅]

theorem Flags.set_some (flags : Flags) (h : Written.isFlag c = true) :
    ∃ flags', flags.set c = some flags' ∧ flags'.left_justify = (flags.left_justify || c == '-'.toNat) := by
  simp only [Written.isFlag, decide_eq_true_eq] at h
  rcases h with rfl | rfl | rfl | rfl | rfl
  · exact ⟨_, rfl, (Bool.or_true _).symm⟩
  all_goals exact ⟨_, rfl, (Bool.or_false _).symm⟩

theorem scanFlags_eq : ∀ (s : List Nat) (flags : Flags), Terminated s → ∃ flags',
    scanFlags flags s = some (flags', s.dropWhile Written.isFlag) ∧
      flags'.left_justify = (flags.left_justify || (s.takeWhile Written.isFlag).contains '-'.toNat)
  | [], _, h => h.elim
  | c :: s, flags, h => by
    cases hc : Written.isFlag c with
    | false =>
      rw [scanFlags, flags.set_none hc, List.dropWhile_cons_of_neg (by simp [hc]), List.takeWhile_cons_of_neg (by simp [hc])]
      exact ⟨flags, rfl, (Bool.or_false _).symm⟩
    | true =>
      have hnul : c ≠ 0 := fun h0 => by
        rw [h0] at hc
        cases hc
      obtain ⟨flags₁, hset, hleft₁⟩ := flags.set_some hc
      obtain ⟨flags', hscan, hleft⟩ := scanFlags_eq s flags₁ (h.tail hnul)
      rw [scanFlags, hset, List.dropWhile_cons_of_pos hc, List.takeWhile_cons_of_pos hc]
      refine ⟨flags', hscan, ?_⟩
      rw [hleft, hleft₁, List.contains_cons, Bool.or_assoc, Bool.beq_comm]

theorem scanDigits_eq : ∀ (s : List Nat) (n : Int), Terminated s → scanDigits n s =
    some ((s.takeWhile isDigit).foldl (fun n c => wrap (n * 10 + (c - '0'.toNat : Nat))) n, s.dropWhile isDigit)
  | [], _, h => h.elim
  | c :: s, n, h => by
    cases hc : isDigit c with
    | false =>
      rw [scanDigits, if_neg (by simp [hc]), List.dropWhile_cons_of_neg (by simp [hc]), List.takeWhile_cons_of_neg (by simp [hc])]
      rfl
    | true =>
      have hnul : c ≠ 0 := fun h0 => by
        rw [h0] at hc
        cases hc
      rw [scanDigits, if_pos hc, scanDigits_eq s _ (h.tail hnul), List.dropWhile_cons_of_pos hc, List.takeWhile_cons_of_pos hc,
        List.foldl_cons]

/-- Digits are not a `*`. -/
theorem field_digits (s : List Nat) : Written.field (s.takeWhile isDigit) = .value (Written.digits (s.takeWhile isDigit)) := by
  refine if_neg fun h => ?_
  have hmem : '*'.toNat ∈ s.takeWhile isDigit := h ▸ List.mem_singleton_self _
  exact absurd (List.mem_takeWhile_imp hmem) (by decide)

theorem scanWidth_eq (h : Terminated t) (hminus : t.head? ≠ some '-'.toNat) :
    scanWidth t = some (Written.field (Written.takeWidth t).1, (Written.takeWidth t).2) := by
  obtain ⟨c, s, rfl, -⟩ := h.cons
  have hc : c ≠ '-'.toNat := fun hc => hminus (congrArg some hc)
  rw [scanWidth, Written.takeWidth]
  by_cases hstar : c = '*'.toNat
  · rw [if_pos hstar, if_pos hstar]
    rfl
  rw [if_neg hstar, if_neg hstar, Written.takeDigits]
  dsimp only
  rw [field_digits]
  cases hdigit : isDigit c with
  | false =>
    rw [if_neg fun h => h.elim hc Bool.false_ne_true, List.dropWhile_cons_of_neg (by simp [hdigit]),
      List.takeWhile_cons_of_neg (by simp [hdigit])]
    rfl
  | true =>
    rw [if_pos (.inr rfl), if_neg hc, scanDigits_eq _ _ h, Option.map_some, decide_eq_false hc]
    rfl

/-- Behind a dot without a `*`, the digits begin at `d`. -/
theorem takeSigned_digits (h : Terminated (c :: s)) (hstar : c ≠ '*'.toNat) :
    ∃ sign d u, Terminated (d :: u) ∧ (sign = [] ∨ sign = ['-'.toNat]) ∧
      Written.takeSigned (c :: s) = (sign ++ (d :: u).takeWhile isDigit, (d :: u).dropWhile isDigit) ∧
      scanDotted (c :: s) = if isDigit d then (scanDigits 0 (d :: u)).map fun (n, s) => (.value (signed (c = '-'.toNat) n), s)
        else some (.value (-1), u) := by
  rw [Written.takeSigned, scanDotted, if_neg hstar, if_neg hstar]
  by_cases hminus : c = '-'.toNat
  · subst hminus
    obtain ⟨d, u, rfl, -⟩ := (h.tail (by decide)).cons
    exact ⟨_, d, u, h.tail (by decide), .inr rfl, rfl, rfl⟩
  · rw [if_neg hminus, if_neg hminus]
    exact ⟨[], c, s, h, .inl rfl, rfl, rfl⟩

theorem scanDotted_given (h : Terminated s) (hgiven : Written.Given (Written.takeSigned s).1) :
    ∃ field, scanDotted s = some (field, (Written.takeSigned s).2) ∧ (field = .star ↔ (Written.takeSigned s).1 = ['*'.toNat]) := by
  obtain ⟨c, s, rfl, -⟩ := h.cons
  by_cases hstar : c = '*'.toNat
  · subst hstar
    exact ⟨.star, rfl, fun _ => rfl, fun _ => rfl⟩
  obtain ⟨sign, d, u, hu, hsign, htake, hscan⟩ := takeSigned_digits h hstar
  rw [htake] at hgiven ⊢
  dsimp only at hgiven ⊢
  cases hd : isDigit d with
  | false =>
    rw [List.takeWhile_cons_of_neg (by simp [hd]), List.append_nil] at hgiven
    rcases hsign with rfl | rfl
    · simp [Written.Given] at hgiven
    · simp [Written.Given] at hgiven
      exact absurd hgiven (by decide)
  | true =>
    rw [hscan, if_pos hd, scanDigits_eq _ _ hu, Option.map_some]
    refine ⟨_, rfl, nofun, fun hstar' => ?_⟩
    have hmem : d ∈ ['*'.toNat] := by
      rw [← hstar', List.takeWhile_cons_of_pos hd]
      exact List.mem_append_right sign List.mem_cons_self
    rw [List.mem_singleton.mp hmem] at hd
    exact absurd hd (by decide)

/-- The character at which a number should be is lost. -/
theorem scanDotted_lost (h : Terminated s) (hgiven : ¬ Written.Given (Written.takeSigned s).1) :
    ∃ field, scanDotted s = some (field, (Written.takeSigned s).2.tail) := by
  obtain ⟨c, s, rfl, -⟩ := h.cons
  by_cases hstar : c = '*'.toNat
  · subst hstar
    exact absurd (.inl rfl) hgiven
  obtain ⟨sign, d, u, hu, hsign, htake, hscan⟩ := takeSigned_digits h hstar
  rw [htake] at hgiven ⊢
  dsimp only at hgiven ⊢
  cases hd : isDigit d with
  | false =>
    rw [hscan, if_neg (by simp [hd]), List.dropWhile_cons_of_neg (by simp [hd])]
    exact ⟨_, rfl⟩
  | true =>
    refine absurd (.inr ⟨d, ?_, hd⟩) hgiven
    rw [List.takeWhile_cons_of_pos hd]
    exact List.mem_append_right sign List.mem_cons_self

theorem scanPrecision_given (h : Terminated t) (hgiven : ∀ text ∈ (Written.takePrecision t).1, Written.Given text) :
    ∃ field, scanPrecision t = some (field, (Written.takePrecision t).2) ∧
      (field = .star ↔ (Written.takePrecision t).1 = some ['*'.toNat]) := by
  obtain ⟨c, s, rfl, htail⟩ := h.cons
  rw [Written.takePrecision] at hgiven ⊢
  rw [scanPrecision]
  by_cases hdot : c = '.'.toNat
  · rw [if_pos hdot] at hgiven ⊢
    rw [if_pos hdot]
    obtain ⟨field, hscan, hfield⟩ := scanDotted_given (htail (by rw [hdot]; decide)) (hgiven _ rfl)
    exact ⟨field, hscan, hfield.trans (Option.some_inj).symm⟩
  · rw [if_neg hdot, if_neg hdot]
    exact ⟨_, rfl, fun hstar => (by cases hstar), fun hsome => (by cases hsome)⟩

theorem scanPrecision_lost (h : Terminated t) (hgiven : ¬ ∀ text ∈ (Written.takePrecision t).1, Written.Given text) :
    ∃ field, scanPrecision t = some (field, (Written.takePrecision t).2.tail) := by
  obtain ⟨c, s, rfl, htail⟩ := h.cons
  rw [Written.takePrecision] at hgiven ⊢
  rw [scanPrecision]
  by_cases hdot : c = '.'.toNat
  · rw [if_pos hdot] at hgiven ⊢
    rw [if_pos hdot]
    exact scanDotted_lost (htail (by rw [hdot]; decide)) fun hgiven' => hgiven fun _ htext => Option.some.inj htext ▸ hgiven'
  · rw [if_neg hdot] at hgiven
    exact absurd (fun _ htext => (by cases htext)) hgiven

theorem takeModifier_length (t : List Nat) : (Written.takeModifier t).2.length + (Written.takeModifier t).1.width = t.length := by
  cases t with
  | nil => rfl
  | cons c s =>
    have htwo : ∀ (letter : Nat), s.head? = some letter → s.tail.length + 2 = (c :: s).length := by
      intro letter hhead
      cases s with
      | nil => cases hhead
      | cons _ _ => rfl
    rw [Written.takeModifier]
    split
    · split
      · next hhead => exact htwo _ hhead
      · rfl
    split
    · split
      · next hhead => exact htwo _ hhead
      · rfl
    repeat' split
    all_goals rfl

theorem scanTwice_eq {letter : Nat} {twice once : Modifier} (h : Terminated s) : scanTwice letter twice once s =
    some (if s.head? = some letter then (twice, s.tail) else (once, s)) := by
  obtain ⟨d, u, rfl, -⟩ := h.cons
  rw [scanTwice, List.head?_cons, List.tail_cons]
  by_cases hd : d = letter
  · rw [if_pos hd, if_pos (congrArg some hd)]
  · rw [if_neg hd, if_neg fun h => hd (Option.some.inj h)]

theorem scanModifier_eq (h : Terminated t) : scanModifier t = some ((Written.takeModifier t).1,
    if (Written.takeModifier t).1.Known then (Written.takeModifier t).2 else (Written.takeModifier t).2.tail) := by
  obtain ⟨c, s, rfl, htail⟩ := h.cons
  have hknown : ∀ (twice once : Modifier) (letter : Nat), twice.Known → once.Known →
      (if s.head? = some letter then (twice, s.tail) else (once, s)).1.Known := by
    intro twice once letter htwice honce
    split
    · exact htwice
    · exact honce
  rw [Written.takeModifier, scanModifier]
  by_cases h₁ : c = 'h'.toNat
  · rw [if_pos h₁, if_pos h₁, scanTwice_eq (htail (by rw [h₁]; decide)), if_pos (hknown .hh .h _ (by decide) (by decide))]
  by_cases h₂ : c = 'l'.toNat
  · rw [if_neg h₁, if_neg h₁, if_pos h₂, if_pos h₂, scanTwice_eq (htail (by rw [h₂]; decide)),
      if_pos (hknown .ll .l _ (by decide) (by decide))]
  rw [if_neg h₁, if_neg h₁, if_neg h₂, if_neg h₂, List.drop_one]
  iterate 4
    split
    · rfl
  rfl

/-- Where the modifier is two letters, the second of them is one too. -/
theorem scanModifier_second {d : Nat} {u r : List Nat} {m : Modifier} (htwo : (Written.takeModifier (d :: u)).1.width = 2)
    (h : scanModifier u = some (m, r)) : 0 < m.width := by
  have hletter : u.head? = some 'h'.toNat ∨ u.head? = some 'l'.toNat := by
    rw [Written.takeModifier] at htwo
    split at htwo
    · split at htwo
      · next hhead => exact .inl hhead
      · cases htwo
    split at htwo
    · split at htwo
      · next hhead => exact .inr hhead
      · cases htwo
    iterate 4
      split at htwo
      · cases htwo
    cases htwo
  have htwice : ∀ {letter : Nat} {twice once : Modifier} {v : List Nat}, 0 < twice.width → 0 < once.width →
      scanTwice letter twice once v = some (m, r) → 0 < m.width := by
    intro letter twice once v htwice honce h
    cases v with
    | nil => cases h
    | cons c v =>
      rw [scanTwice] at h
      split at h
      · cases h
        exact htwice
      · cases h
        exact honce
  cases u with
  | nil => cases h
  | cons c v =>
    rcases hletter with hc | hc
    · cases hc
      exact htwice (by decide) (by decide) h
    · cases hc
      exact htwice (by decide) (by decide) h

/-- Read from one character further on, the modifier does not end before the one that is written. -/
theorem scanModifier_further (d : Nat) {u r : List Nat} {m : Modifier} (h : scanModifier u = some (m, r)) :
    r.length ≤ (Written.takeModifier (d :: u)).2.length ∧
      (m = (Written.takeModifier (d :: u)).1 → r.length < (Written.takeModifier (d :: u)).2.length) := by
  have hscan := scanModifier_length h
  have htake := takeModifier_length (d :: u)
  rw [List.length_cons] at htake
  refine ⟨?_, fun hm => ?_⟩
  · by_cases htwo : (Written.takeModifier (d :: u)).1.width = 2
    · have := scanModifier_second htwo h
      omega
    · have : (Written.takeModifier (d :: u)).1.width ≤ 1 := by
        revert htwo
        generalize (Written.takeModifier (d :: u)).1 = m'
        cases m' <;> decide
      omega
  · rw [hm] at hscan
    omega

/-! ## The specification -/

theorem Terminated.takeWidth (h : Terminated t) : Terminated (Written.takeWidth t).2 := by
  obtain ⟨c, s, rfl, htail⟩ := h.cons
  rw [Written.takeWidth]
  split
  · next hc => exact htail (by rw [hc]; decide)
  · exact h.dropWhile (by decide)

theorem Terminated.takeSigned (h : Terminated t) : Terminated (Written.takeSigned t).2 := by
  obtain ⟨c, s, rfl, htail⟩ := h.cons
  rw [Written.takeSigned]
  split
  · next hc => exact htail (by rw [hc]; decide)
  split
  · next hc => exact (htail (by rw [hc]; decide)).dropWhile (by decide)
  · exact h.dropWhile (by decide)

theorem Terminated.takePrecision (h : Terminated t) : Terminated (Written.takePrecision t).2 := by
  obtain ⟨c, s, rfl, htail⟩ := h.cons
  rw [Written.takePrecision]
  split
  · next hc => exact (htail (by rw [hc]; decide)).takeSigned
  · exact h

theorem Terminated.takeModifier (h : Terminated t) : Terminated (Written.takeModifier t).2 := by
  obtain ⟨c, s, rfl, htail⟩ := h.cons
  have htwice : ∀ (letter : Nat) (twice once : Modifier), letter ≠ 0 → Terminated s →
      Terminated (if s.head? = some letter then (twice, s.tail) else (once, s)).2 := by
    intro letter twice once hletter hs
    obtain ⟨d, u, rfl, hu⟩ := hs.cons
    split
    · next hhead => exact hu (by rw [Option.some.inj hhead]; exact hletter)
    · exact hs
  rw [Written.takeModifier]
  split
  · next hc => exact htwice _ _ _ (by decide) (htail (by rw [hc]; decide))
  split
  · next hc => exact htwice _ _ _ (by decide) (htail (by rw [hc]; decide))
  iterate 4
    split
    · next hc => exact htail (by rw [hc]; decide)
  exact h

theorem scanFields_fine (flags : Flags) (h : Terminated t) (hminus : t.head? ≠ some '-'.toNat) {c : Nat} {rest : List Nat}
    (hgiven : ∀ text ∈ Written.precisionOf t, Written.Given text) (hknown : (Written.modifierOf t).Known)
    (hrest : Written.conversionOn t = c :: rest) :
    ∃ precision, (precision = .star ↔ Written.precisionOf t = some ['*'.toNat]) ∧
      scanFields flags t = some (⟨flags, Written.field (Written.widthOf t), precision, Written.modifierOf t, c⟩, rest) := by
  obtain ⟨precision, hprecision, hstar⟩ := scanPrecision_given h.takeWidth hgiven
  refine ⟨precision, hstar, ?_⟩
  have hmodifier := scanModifier_eq h.takeWidth.takePrecision
  rw [Written.modifierOf] at hknown
  rw [if_pos hknown] at hmodifier
  rw [Written.conversionOn] at hrest
  simp only [scanFields, Option.bind_eq_bind, scanWidth_eq h hminus, hprecision, hmodifier, hrest, Option.bind_some,
    List.head?_cons, List.tail_cons]
  rfl

theorem scanFields_unfine {flags : Flags} (h : Terminated t) (hminus : t.head? ≠ some '-'.toNat) {c : Nat} {rest r : List Nat}
    {spec : Spec} (hfine : ¬ ((∀ text ∈ Written.precisionOf t, Written.Given text) ∧ (Written.modifierOf t).Known))
    (hrest : Written.conversionOn t = c :: rest) (hscan : scanFields flags t = some (spec, r)) :
    r.length ≤ rest.length ∧ (spec.lmodif = Written.modifierOf t → r.length < rest.length) := by
  rw [Written.conversionOn] at hrest
  simp only [scanFields, Option.bind_eq_bind, scanWidth_eq h hminus, Option.bind_some, Option.bind_eq_some_iff] at hscan
  obtain ⟨⟨precision, u⟩, hprecision, ⟨m, v⟩, hmodifier, c', hhead, hspec⟩ := hscan
  dsimp only at hmodifier hhead hspec
  obtain ⟨v, rfl⟩ := List.head?_eq_some_iff.mp hhead
  cases hspec
  rw [List.tail_cons]
  by_cases hgiven : ∀ text ∈ Written.precisionOf t, Written.Given text
  · have hunknown : ¬ (Written.takeModifier (Written.takePrecision (Written.takeWidth t).2).2).1.Known :=
      fun hknown => hfine ⟨hgiven, hknown⟩
    obtain ⟨precision', hprecision', -⟩ := scanPrecision_given h.takeWidth hgiven
    rw [hprecision'] at hprecision
    cases hprecision
    rw [scanModifier_eq h.takeWidth.takePrecision, if_neg hunknown, hrest] at hmodifier
    cases hmodifier
    exact ⟨Nat.le_succ _, fun _ => Nat.lt_succ_self _⟩
  · obtain ⟨precision', hprecision'⟩ := scanPrecision_lost h.takeWidth hgiven
    rw [hprecision'] at hprecision
    cases hprecision
    obtain ⟨d, u, hu, -⟩ := h.takeWidth.takePrecision.cons
    rw [hu] at hmodifier hrest
    rw [List.tail_cons] at hmodifier
    have hfurther := scanModifier_further d hmodifier
    rw [Written.modifierOf, hu]
    rw [hrest] at hfurther
    exact ⟨Nat.le_of_succ_le_succ hfurther.1, fun hm => Nat.lt_of_succ_lt_succ (hfurther.2 hm)⟩

/-- Behind the flags there is no minus. -/
theorem dropWhile_minus (s : List Nat) : (s.dropWhile Written.isFlag).head? ≠ some '-'.toNat := fun hhead => by
  have hnot := List.head?_dropWhile_not Written.isFlag s
  rw [hhead] at hnot
  exact absurd hnot (by decide)

theorem takeWidth_length (t : List Nat) : (Written.takeWidth t).2.length ≤ t.length := by
  cases t with
  | nil => exact Nat.le_refl 0
  | cons c s =>
    rw [Written.takeWidth]
    split
    · exact Nat.le_succ _
    · exact List.length_dropWhile_le _ _

theorem takeSigned_length (t : List Nat) : (Written.takeSigned t).2.length ≤ t.length := by
  cases t with
  | nil => exact Nat.le_refl 0
  | cons c s =>
    rw [Written.takeSigned]
    split
    · exact Nat.le_succ _
    split
    · exact Nat.le_succ_of_le (List.length_dropWhile_le _ _)
    · exact List.length_dropWhile_le _ _

theorem takePrecision_length (t : List Nat) : (Written.takePrecision t).2.length ≤ t.length := by
  cases t with
  | nil => exact Nat.le_refl 0
  | cons c s =>
    rw [Written.takePrecision]
    split
    · exact Nat.le_succ_of_le (takeSigned_length s)
    · exact Nat.le_refl _

theorem conversionOn_length (t : List Nat) : (Written.conversionOn t).length ≤ t.length := by
  have hwidth := takeWidth_length t
  have hprecision := takePrecision_length (Written.takeWidth t).2
  have hmodifier := takeModifier_length (Written.takePrecision (Written.takeWidth t).2).2
  rw [Written.conversionOn]
  omega

end

namespace Written

variable {s rest : List Nat} {w : Written}

theorem take_some (htake : take s = some (w, rest)) :
    conversionOn (s.dropWhile isFlag) = w.conversion :: rest ∧ w.flags = s.takeWhile isFlag ∧
      w.width = widthOf (s.dropWhile isFlag) ∧ w.precision = precisionOf (s.dropWhile isFlag) ∧
      w.lmodif = modifierOf (s.dropWhile isFlag) := by
  rw [take] at htake
  split at htake
  · cases htake
  · next c rest' heq =>
    split at htake
    · cases htake
    · cases htake
      exact ⟨heq, rfl, rfl, rfl, rfl⟩

theorem take_none (h : Terminated s) (htake : take s = none) : conversionOn (s.dropWhile isFlag) = [0] := by
  have hrest : Terminated (conversionOn (s.dropWhile isFlag)) := (h.dropWhile (by decide)).takeWidth.takePrecision.takeModifier
  obtain ⟨c, rest, heq, -⟩ := hrest.cons
  rw [take] at htake
  rw [heq] at htake hrest ⊢
  split at htake
  · next hnil => cases hnil
  · next c' rest' hcons =>
    cases hcons
    split at htake
    · next hc =>
      rw [Terminated, if_pos hc] at hrest
      rw [hc, hrest]
    · cases htake

theorem take_length (htake : take s = some (w, rest)) : rest.length < s.length := by
  have hle := Nat.le_trans (conversionOn_length (s.dropWhile isFlag)) (List.length_dropWhile_le isFlag s)
  rw [(take_some htake).1, List.length_cons] at hle
  exact hle

theorem take_terminated (h : Terminated s) (htake : take s = some (w, rest)) : Terminated rest := by
  have hrest : Terminated (conversionOn (s.dropWhile isFlag)) := (h.dropWhile (by decide)).takeWidth.takePrecision.takeModifier
  rw [take] at htake
  split at htake
  · cases htake
  · next c rest' heq =>
    split at htake
    · cases htake
    · next hc =>
      cases htake
      rw [heq] at hrest
      exact hrest.tail hc

end Written

namespace Kernel

open Written (isFlag precisionOf modifierOf)

section
variable {s r rest : List Nat} {w : Written} {spec : Spec}

theorem scan_eq (h : Terminated s) : ∃ flags : Flags, flags.left_justify = (s.takeWhile isFlag).contains '-'.toNat ∧
    scan s = scanFields flags (s.dropWhile isFlag) := by
  obtain ⟨flags, hscan, hleft⟩ := scanFlags_eq s {} h
  exact ⟨flags, hleft.trans (Bool.false_or _), by rw [scan, hscan]; rfl⟩

theorem scan_fine (h : Terminated s) (htake : Written.take s = some (w, rest)) (hfine : w.Fine) :
    ∃ spec, scan s = some (spec, rest) ∧ w.Read spec := by
  obtain ⟨hrest, hflags, hwidth, hprecision, hmodifier⟩ := Written.take_some htake
  obtain ⟨flags, hleft, hscan⟩ := scan_eq h
  rw [Written.Fine, hprecision, hmodifier] at hfine
  obtain ⟨precision, hstar, hfields⟩ :=
    scanFields_fine flags (h.dropWhile (by decide)) (dropWhile_minus s) hfine.1 hfine.2 hrest
  refine ⟨_, hscan.trans hfields, ?_, ?_, ?_, hmodifier.symm, rfl⟩
  · rw [hflags, hleft]
  · rw [hwidth]
  · rw [hprecision, hstar]

theorem scan_unfine (h : Terminated s) (htake : Written.take s = some (w, rest)) (hfine : ¬ w.Fine)
    (hscan : scan s = some (spec, r)) : ¬ (spec.lmodif = w.lmodif ∧ r = rest) := by
  obtain ⟨hrest, -, -, hprecision, hmodifier⟩ := Written.take_some htake
  obtain ⟨flags, -, hscan'⟩ := scan_eq h
  rw [Written.Fine, hprecision, hmodifier] at hfine
  rw [hscan'] at hscan
  have hless := (scanFields_unfine (h.dropWhile (by decide)) (dropWhile_minus s) hfine hrest hscan).2
  rintro ⟨hm, rfl⟩
  exact Nat.lt_irrefl _ (hless (hm.trans hmodifier))

theorem scan_length (h : scan s = some (spec, rest)) : rest.length < s.length := by
  simp only [scan, Option.bind_eq_bind, Option.bind_eq_some_iff] at h
  obtain ⟨⟨flags, t⟩, hflags, hfields⟩ := h
  exact Nat.lt_of_lt_of_le (scanFields_length hfields) (scanFlags_length s {} hflags)

/-- A conversion that the end of the format cuts off is scanned to behind the NUL. -/
theorem scan_cut (h : Terminated s) (htake : Written.take s = none) (hscan : scan s = some (spec, r)) : r = [] := by
  have hrest := Written.take_none h htake
  obtain ⟨flags, -, hscan'⟩ := scan_eq h
  rw [hscan'] at hscan
  by_cases hfine : (∀ text ∈ precisionOf (s.dropWhile isFlag), Written.Given text) ∧ (modifierOf (s.dropWhile isFlag)).Known
  · obtain ⟨precision, -, hfields⟩ :=
      scanFields_fine flags (h.dropWhile (by decide)) (dropWhile_minus s) hfine.1 hfine.2 hrest
    rw [hfields] at hscan
    cases hscan
    rfl
  · have hle := (scanFields_unfine (h.dropWhile (by decide)) (dropWhile_minus s) hfine hrest hscan).1
    exact List.length_eq_zero_iff.mp (Nat.le_zero.mp hle)

end

end Kernel

namespace Loader

open Written (isFlag conversionOn)

section
variable {s rest : List Nat} {w : Written} {flags : Flags} {found : Option Spec}

theorem scanFlags_length : ∀ (s : List Nat) (flags : Flags) {found : Option Flags} {rest : List Nat},
    scanFlags flags s = some (found, rest) → rest.length ≤ s.length
  | [], _, _, _, h => by cases h
  | c :: s, flags, found, rest, h => by
    rw [scanFlags] at h
    split at h
    · cases h
      exact Nat.le_succ _
    split at h
    · exact Nat.le_succ_of_le (scanFlags_length s _ h)
    · cases h
      exact Nat.le_refl _

theorem scan_length (h : scan s = some (found, rest)) : rest.length ≤ s.length := by
  simp only [scan, Option.bind_eq_bind, Option.bind_eq_some_iff] at h
  obtain ⟨⟨flags, t⟩, hflags, h⟩ := h
  have hle := scanFlags_length s {} hflags
  cases flags with
  | none =>
    cases h
    exact hle
  | some flags =>
    obtain ⟨⟨spec, r⟩, hfields, heq⟩ := Option.map_eq_some_iff.mp h
    cases heq
    exact Nat.le_trans (Nat.le_of_lt (scanFields_length hfields)) hle

/-- A `%` ends the flags; else they are those of the kernel. -/
theorem scanFlags_eq : ∀ (s : List Nat) (flags : Flags), Terminated s → ∃ found,
    scanFlags flags s = some (if (s.dropWhile isFlag).head? = some '%'.toNat then (none, (s.dropWhile isFlag).tail)
      else (some found, s.dropWhile isFlag))
  | [], _, h => h.elim
  | c :: s, flags, h => by
    by_cases hpercent : c = '%'.toNat
    · subst hpercent
      exact ⟨flags, rfl⟩
    rw [scanFlags, if_neg hpercent]
    cases hc : isFlag c with
    | false =>
      refine ⟨flags, ?_⟩
      rw [flags.set_none hc, List.dropWhile_cons_of_neg (by simp [hc]), List.head?_cons,
        if_neg fun h => hpercent (Option.some.inj h)]
    | true =>
      have hnul : c ≠ 0 := fun h0 => by
        rw [h0] at hc
        cases hc
      obtain ⟨flags₁, hset, -⟩ := flags.set_some hc
      rw [hset, List.dropWhile_cons_of_pos hc]
      exact scanFlags_eq s flags₁ (h.tail hnul)

/-- The scanner of the loader ends where that which is written does. -/
theorem scan_fine (h : Terminated s) (htake : Written.take s = some (w, rest)) (hfine : w.Fine) :
    ∃ found, scan s = some (found, rest) := by
  obtain ⟨hrest, -, -, hprecision, hmodifier⟩ := Written.take_some htake
  obtain ⟨flags, hflags⟩ := scanFlags_eq s {} h
  rw [scan, hflags]
  by_cases hpercent : (s.dropWhile isFlag).head? = some '%'.toNat
  · obtain ⟨t, ht⟩ := List.head?_eq_some_iff.mp hpercent
    rw [ht] at hrest
    have hcons : '%'.toNat :: t = w.conversion :: rest := hrest
    rw [if_pos hpercent, ht, List.tail_cons, (List.cons.inj hcons).2]
    exact ⟨none, rfl⟩
  · rw [Written.Fine, hprecision, hmodifier] at hfine
    obtain ⟨precision, -, hfields⟩ :=
      scanFields_fine flags (h.dropWhile (by decide)) (dropWhile_minus s) hfine.1 hfine.2 hrest
    rw [if_neg hpercent]
    simp only [hfields, Option.bind_eq_bind, Option.bind_some]
    exact ⟨_, rfl⟩

end

end Loader

end BadLands.Format
