import BadLands.Core.Cells
import BadLands.Format.Grammar

/-!
# The loader's `vsnprintf`

What the conversions write into the caller's buffer. What a number conversion has put into its back buffer is a
parameter, and there are as many arguments as are asked for.

* `turn_inside`: no turn of the loop writes outside of the buffer.
* `kept_of_fine`: which formats are not read behind their NUL.
* `vsnprintf_right_iff`: the count and the NUL are inside of the buffer exactly when no conversion takes the NUL of the
  format.
-/
namespace BadLands.Format.Loader

open BadLands.Core

inductive Fault
  /-- A character behind the NUL of the format is read. -/
  | overread
  /-- A cell outside of the buffer is written. -/
  | outside
  deriving DecidableEq, Repr

/-- The buffer, and how many of its cells are written. -/
structure Output (bufsz : Nat) where
  buffer : List Nat
  written : Nat
  length_eq : buffer.length = bufsz
  written_le : written ≤ bufsz

namespace Output

def start (buffer : List Nat) : Output buffer.length := ⟨buffer, 0, rfl, Nat.zero_le _⟩

variable {bufsz : Nat}

/-- `buffer[written++] = c` -/
def put (o : Output bufsz) (c : Nat) : Except Fault (Output bufsz) :=
  if h : o.written < bufsz then .ok ⟨o.buffer.set o.written c, o.written + 1, by rw [List.length_set, o.length_eq], h⟩
  else .error .outside

/-- One character after the other, each behind `written < bufsz`. -/
def fill : List Nat → Output bufsz → Except Fault (Output bufsz)
  | [], o => .ok o
  | c :: text, o => if o.written < bufsz then (o.put c).bind (fill text) else .ok o

end Output

section
variable {bufsz : Nat}

/-- The first write of a turn is not behind a test of its own.

mirrors bootloader/src/ldstdio/vsnprintf.cpp:344-372 -/
def write_c (left_justify : Bool) (minimum_field_size : Int) (back_buffer : Nat) (o : Output bufsz) :
    Except Fault (Output bufsz) :=
  if left_justify then (o.put back_buffer).bind (Output.fill (pad (minimum_field_size - 1)))
  else (Output.fill (pad (minimum_field_size - 1)) o).bind (Output.fill [back_buffer])

/-- To the left, the length is that of what has been written.

mirrors bootloader/src/ldstdio/vsnprintf.cpp:373-432 -/
def write_s (left_justify : Bool) (minimum_field_size : Int) (s : List Nat) (o : Output bufsz) : Except Fault (Output bufsz) :=
  if left_justify then
    (o.fill s).bind fun o' => o'.fill (pad (minimum_field_size - (o'.written - o.written)))
  else (o.fill (pad (minimum_field_size - s.length))).bind (Output.fill s)

/-- `va_arg` of an `INTN`, where there is a `*`. -/
def fetchField (field : Field) (args : Nat → Slot) (n : Nat) : Int × Nat :=
  match field with
  | .star => ((args n).number.toInt, n + 1)
  | .value v => (v, n)

/-- The back buffer of a number conversion: of the specification, the minimum field size, the precision and the number. -/
abbrev BackBuffer := Spec → Int → Int → BitVec 64 → List Nat

/-- The buffer, and the next argument.

mirrors bootloader/src/ldstdio/vsnprintf.cpp:343-610 -/
def write (args : Nat → Slot) (back_buffer : BackBuffer) (spec : Spec) (minimum_field_size precision : Int) (n : Nat)
    (o : Output bufsz) : Except Fault (Output bufsz × Nat) :=
  if spec.conversion = 'c'.toNat then
    if spec.lmodif = .none ∨ spec.lmodif = .l then
      (write_c spec.flags.left_justify minimum_field_size ((args n).number.setWidth 16).toNat o).map (·, n + 1)
    else .ok (o, n)
  else if spec.conversion = 's'.toNat then
    if spec.lmodif = .none ∨ spec.lmodif = .l then
      (write_s spec.flags.left_justify minimum_field_size (args n).text o).map (·, n + 1)
    else .ok (o, n)
  else if spec.conversion ∈ ['d', 'i', 'o', 'x', 'X', 'u'].map Char.toNat then
    (o.fill (back_buffer spec minimum_field_size precision (args n).number)).map (·, if spec.lmodif = .L then n else n + 1)
  else .ok (o, n)

def convert (args : Nat → Slot) (back_buffer : BackBuffer) (spec : Spec) (n : Nat) (o : Output bufsz) :
    Except Fault (Output bufsz × Nat) :=
  let minimum_field_size := fetchField spec.minimum_field_size args n
  let precision := fetchField spec.precision args minimum_field_size.2
  write args back_buffer spec minimum_field_size.1 precision.1 precision.2 o

variable (args : Nat → Slot) (back_buffer : BackBuffer)

/-- A turn of the loop: the buffer, the next argument, and what is left of the format.

mirrors bootloader/src/ldstdio/vsnprintf.cpp:187-203,611-616 -/
def turn (n : Nat) (o : Output bufsz) : List Nat → Except Fault (Output bufsz × Nat × List Nat)
  | [] => .error .overread
  | c :: s =>
    if c = '%'.toNat then
      match scan s with
      | none => .error .overread
      | some (none, rest) => (o.put '%'.toNat).map (·, n, rest)
      | some (some spec, rest) => (convert args back_buffer spec n o).map fun (o, n) => (o, n, rest)
    else (o.put c).map (·, n, s)

variable {args back_buffer} {n n' : Nat} {o o' : Output bufsz} {s rest : List Nat}

/-- What is left of the format does not depend on the buffer. -/
theorem turn_rest {c : Nat} (h : turn args back_buffer n o (c :: s) = .ok (o', n', rest)) :
    c = '%'.toNat ∧ (∃ found, scan s = some (found, rest)) ∨ c ≠ '%'.toNat ∧ rest = s := by
  rw [turn] at h
  split at h
  · next hc =>
    split at h
    · cases h
    · next hscan =>
      obtain ⟨_, -, heq⟩ := exists_of_map h
      cases heq
      exact .inl ⟨hc, _, hscan⟩
    · next hscan =>
      obtain ⟨_, -, heq⟩ := exists_of_map h
      cases heq
      exact .inl ⟨hc, _, hscan⟩
  · next hc =>
    obtain ⟨_, -, heq⟩ := exists_of_map h
    cases heq
    exact .inr ⟨hc, rfl⟩

theorem turn_length (h : turn args back_buffer n o s = .ok (o', n', rest)) : rest.length < s.length := by
  cases s with
  | nil => cases h
  | cons c s =>
    obtain ⟨-, found, hscan⟩ | ⟨-, rfl⟩ := turn_rest h
    · exact Nat.lt_succ_of_le (scan_length hscan)
    · exact Nat.lt_succ_self _

variable (args back_buffer)

/-- `while (*format != u'\0' && written < bufsz)` -/
def loop (n : Nat) (o : Output bufsz) (s : List Nat) : Except Fault (Output bufsz) :=
  match s with
  | [] => .error .overread
  | c :: t =>
    if c = 0 ∨ ¬ o.written < bufsz then .ok o
    else
      match _h : turn args back_buffer n o (c :: t) with
      | .error fault => .error fault
      | .ok (o, n, rest) => loop n o rest
termination_by s.length
decreasing_by exact turn_length _h

/-- The NUL, and the count.

mirrors bootloader/src/ldstdio/vsnprintf.cpp:618-625 -/
def finish (o : Output bufsz) : Except Fault (List Nat × Nat) :=
  match Cells.write o.buffer (if o.written = bufsz then bufsz - 1 else o.written) 0 with
  | some buffer => .ok (buffer, o.written)
  | none => .error .outside

/-- mirrors bootloader/src/ldstdio/vsnprintf.cpp:177-626 -/
def vsnprintf (buffer format : List Nat) : Except Fault (List Nat × Nat) :=
  (loop args back_buffer 0 (Output.start buffer) format).bind finish

/-! ## The property -/

/-- It returns with a count of the buffer's size at most, and the NUL is where the count says, or in the last cell. -/
def Right (buffer format : List Nat) : Prop :=
  ∃ buffer' count, vsnprintf args back_buffer buffer format = .ok (buffer', count) ∧ buffer'.length = buffer.length ∧
    count ≤ buffer.length ∧ buffer'[min count (buffer.length - 1)]? = some 0

/-- As long as there is a next turn, something of the format is left, and it is enough for a conversion. -/
def Kept (n : Nat) (o : Output bufsz) (s : List Nat) : Prop :=
  match s with
  | [] => False
  | c :: t => c ≠ 0 → o.written < bufsz → (c = '%'.toNat → (scan t).isSome) ∧
      ∀ o' n' rest, (_h : turn args back_buffer n o (c :: t) = .ok (o', n', rest)) → Kept n' o' rest
termination_by s.length
decreasing_by exact turn_length _h

/-- All conversions are complete, with a number behind each dot and one of the modifiers that are stepped over once. -/
def FineFormat (s : List Nat) : Prop :=
  match s with
  | [] => False
  | c :: t =>
    if c = 0 then True
    else if c = '%'.toNat then
      match _h : Written.take t with
      | none => False
      | some (w, rest) => w.Fine ∧ FineFormat rest
    else FineFormat t
termination_by s.length
decreasing_by
  · exact Nat.lt_succ_of_lt (Written.take_length _h)
  · exact Nat.lt_succ_self _

end

/-! ## In the buffer -/

section
variable {bufsz : Nat} {args : Nat → Slot} {back_buffer : BackBuffer} {n n' : Nat} {o : Output bufsz} {s rest : List Nat}
  {spec : Spec}

theorem Output.put_ok (c : Nat) (h : o.written < bufsz) : ∃ o', o.put c = .ok o' := ⟨_, dif_pos h⟩

theorem Output.fill_ok : ∀ (text : List Nat) (o : Output bufsz), ∃ o', o.fill text = .ok o'
  | [], o => ⟨o, rfl⟩
  | c :: text, o => by
    rw [fill]
    split
    · next h =>
      obtain ⟨o₁, hput⟩ := put_ok c h
      rw [hput]
      exact fill_ok text o₁
    · exact ⟨o, rfl⟩

/-- At the beginning of a turn there is room for a character. -/
theorem write_c_ok (left_justify : Bool) (minimum_field_size : Int) (c : Nat) (h : o.written < bufsz) :
    ∃ o', write_c left_justify minimum_field_size c o = .ok o' := by
  unfold write_c
  split
  · obtain ⟨o₁, hput⟩ := Output.put_ok c h
    rw [hput]
    exact Output.fill_ok _ o₁
  · obtain ⟨o₁, hfill⟩ := Output.fill_ok (pad (minimum_field_size - 1)) o
    rw [hfill]
    exact Output.fill_ok _ o₁

theorem write_s_ok (left_justify : Bool) (minimum_field_size : Int) (text : List Nat) (o : Output bufsz) :
    ∃ o', write_s left_justify minimum_field_size text o = .ok o' := by
  unfold write_s
  split
  · obtain ⟨o₁, hfill⟩ := Output.fill_ok text o
    rw [hfill]
    exact Output.fill_ok _ o₁
  · obtain ⟨o₁, hfill⟩ := Output.fill_ok (pad (minimum_field_size - text.length)) o
    rw [hfill]
    exact Output.fill_ok _ o₁

theorem write_ok (args : Nat → Slot) (back_buffer : BackBuffer) (spec : Spec) (minimum_field_size precision : Int) (n : Nat)
    (h : o.written < bufsz) : ∃ result, write args back_buffer spec minimum_field_size precision n o = .ok result := by
  unfold write
  split
  · split
    · obtain ⟨o', hwrite⟩ := write_c_ok spec.flags.left_justify minimum_field_size ((args n).number.setWidth 16).toNat h
      rw [hwrite]
      exact ⟨_, rfl⟩
    · exact ⟨_, rfl⟩
  split
  · split
    · obtain ⟨o', hwrite⟩ := write_s_ok spec.flags.left_justify minimum_field_size (args n).text o
      rw [hwrite]
      exact ⟨_, rfl⟩
    · exact ⟨_, rfl⟩
  split
  · obtain ⟨o', hfill⟩ := Output.fill_ok (back_buffer spec minimum_field_size precision (args n).number) o
    rw [hfill]
    exact ⟨_, rfl⟩
  · exact ⟨_, rfl⟩

/-- A turn that is entered with room in the buffer reads behind the format, or it returns. -/
theorem turn_inside (args : Nat → Slot) (back_buffer : BackBuffer) (n : Nat) (c : Nat) (s : List Nat) (h : o.written < bufsz) :
    (c = '%'.toNat ∧ scan s = none ∧ turn args back_buffer n o (c :: s) = .error .overread) ∨
      (c = '%'.toNat → (scan s).isSome) ∧ ∃ result, turn args back_buffer n o (c :: s) = .ok result := by
  rw [turn]
  by_cases hc : c = '%'.toNat
  · rw [if_pos hc]
    cases hscan : scan s with
    | none => exact .inl ⟨hc, rfl, rfl⟩
    | some found =>
      obtain ⟨found, rest⟩ := found
      refine .inr ⟨fun _ => rfl, ?_⟩
      cases found with
      | none =>
        obtain ⟨o', hput⟩ := Output.put_ok '%'.toNat h
        dsimp only
        rw [hput]
        exact ⟨_, rfl⟩
      | some spec =>
        obtain ⟨result, hwrite⟩ := write_ok args back_buffer spec
          (fetchField spec.minimum_field_size args n).1 _ _ h
        dsimp only
        rw [convert, hwrite]
        exact ⟨_, rfl⟩
  · obtain ⟨o', hput⟩ := Output.put_ok c h
    rw [if_neg hc, hput]
    exact .inr ⟨fun h => absurd h hc, _, rfl⟩

variable {c : Nat}

theorem loop_end (h : c = 0 ∨ ¬ o.written < bufsz) : loop args back_buffer n o (c :: s) = .ok o := by
  rw [loop, if_pos h]

theorem loop_fault {fault : Fault} (h : ¬ (c = 0 ∨ ¬ o.written < bufsz))
    (hturn : turn args back_buffer n o (c :: s) = .error fault) : loop args back_buffer n o (c :: s) = .error fault := by
  rw [loop, if_neg h]
  split
  · next h => rw [hturn] at h; cases h; rfl
  · next h => rw [hturn] at h; cases h

theorem loop_turn (h : ¬ (c = 0 ∨ ¬ o.written < bufsz)) (hturn : turn args back_buffer n o (c :: s) = .ok (o', n', rest)) :
    loop args back_buffer n o (c :: s) = loop args back_buffer n' o' rest := by
  rw [loop, if_neg h]
  split
  · next h => rw [hturn] at h; cases h
  · next h => rw [hturn] at h; cases h; rfl

/-- The loop never writes outside, and it comes to an end as long as something of the format is left. -/
theorem loop_inside : ∀ (s : List Nat) (n : Nat) (o : Output bufsz),
    (∃ o', loop args back_buffer n o s = .ok o') ∧ Kept args back_buffer n o s ∨
      loop args back_buffer n o s = .error .overread ∧ ¬ Kept args back_buffer n o s := by
  intro s
  induction hlength : s.length using Nat.strong_induction_on generalizing s with
  | _ k ih =>
  intro n o
  subst hlength
  cases s with
  | nil =>
    rw [Kept]
    exact .inr ⟨by rw [loop], id⟩
  | cons c s =>
    rw [Kept]
    by_cases hend : c = 0 ∨ ¬ o.written < bufsz
    · refine .inl ⟨⟨o, loop_end hend⟩, fun hc hroom => ?_⟩
      exact hend.elim (fun h => absurd h hc) fun h => absurd hroom h
    have hc : c ≠ 0 := fun h => hend (.inl h)
    have hroom : o.written < bufsz := Classical.byContradiction fun h => hend (.inr h)
    obtain ⟨hpercent, hscan, hturn⟩ | ⟨hscan, ⟨o', n', rest⟩, hturn⟩ :=
      turn_inside args back_buffer n c s hroom
    · refine .inr ⟨loop_fault hend hturn, fun hkept => ?_⟩
      have hsome := (hkept hc hroom).1 hpercent
      rw [hscan] at hsome
      cases hsome
    · rw [loop_turn hend hturn]
      obtain ⟨hrun, hkept⟩ | ⟨hrun, hkept⟩ := ih rest.length (turn_length hturn) rest rfl n' o'
      · refine .inl ⟨hrun, fun _ _ => ⟨hscan, fun o₁ n₁ rest₁ hturn₁ => ?_⟩⟩
        rw [hturn] at hturn₁
        cases hturn₁
        exact hkept
      · exact .inr ⟨hrun, fun h => hkept ((h hc hroom).2 o' n' rest hturn)⟩

/-- A format of which all is fine is not read behind its NUL. -/
theorem kept_of_fine : ∀ (s : List Nat) (n : Nat) (o : Output bufsz), Terminated s → FineFormat s →
    Kept args back_buffer n o s := by
  intro s
  induction hlength : s.length using Nat.strong_induction_on generalizing s with
  | _ k ih =>
  intro n o h hfine
  subst hlength
  obtain ⟨c, t, rfl, htail⟩ := h.cons
  rw [FineFormat] at hfine
  rw [Kept]
  intro hc _
  rw [if_neg hc] at hfine
  by_cases hpercent : c = '%'.toNat
  · rw [if_pos hpercent] at hfine
    split at hfine
    · exact hfine.elim
    next w rest htake =>
    obtain ⟨found, hscan⟩ := scan_fine (htail hc) htake hfine.1
    refine ⟨fun _ => by rw [hscan]; rfl, fun o' n' rest' hturn => ?_⟩
    obtain ⟨-, found', hscan'⟩ | ⟨hnot, -⟩ := turn_rest hturn
    · rw [hscan] at hscan'
      cases hscan'
      exact ih rest.length (Nat.lt_succ_of_lt (Written.take_length htake)) rest rfl n' o'
        (Written.take_terminated (htail hc) htake) hfine.2
    · exact absurd hpercent hnot
  · rw [if_neg hpercent] at hfine
    refine ⟨fun h => absurd h hpercent, fun o' n' rest hturn => ?_⟩
    obtain ⟨hnot, -⟩ | ⟨-, rfl⟩ := turn_rest hturn
    · exact absurd hnot hpercent
    · exact ih rest.length (Nat.lt_succ_self _) rest rfl n' o' (htail hc) hfine

/-- The last write. -/
theorem finish_ok (o : Output bufsz) (hbufsz : 0 < bufsz) : ∃ buffer, finish o = .ok (buffer, o.written) ∧
    buffer.length = bufsz ∧ buffer[min o.written (bufsz - 1)]? = some 0 := by
  have hle := o.written_le
  have hlength := o.length_eq
  have hindex : (if o.written = bufsz then bufsz - 1 else o.written) = min o.written (bufsz - 1) := by
    split <;> omega
  have hinside : min o.written (bufsz - 1) < o.buffer.length := by omega
  refine ⟨o.buffer.set (min o.written (bufsz - 1)) 0, ?_, by rw [List.length_set, hlength], List.getElem?_set_self hinside⟩
  rw [finish, hindex, Cells.write_eq hinside]

end

/-- For all arguments, every text that the number conversions make and every buffer with a cell and more: nothing is
written outside of the buffer, and the count and the NUL are right exactly when no conversion takes the NUL of the
format. -/
theorem vsnprintf_right_iff (args : Nat → Slot) (back_buffer : BackBuffer) (buffer format : List Nat) (h : 0 < buffer.length) :
    vsnprintf args back_buffer buffer format ≠ .error .outside ∧
      (Right args back_buffer buffer format ↔ Kept args back_buffer 0 (Output.start buffer) format) := by
  obtain ⟨⟨o, hrun⟩, hkept⟩ | ⟨hrun, hkept⟩ := loop_inside format 0 (Output.start buffer)
  · obtain ⟨buffer', hfinish, hlength, hnul⟩ := finish_ok o h
    have hresult : vsnprintf args back_buffer buffer format = .ok (buffer', o.written) := by
      rw [vsnprintf, hrun]
      exact hfinish
    refine ⟨by rw [hresult]; nofun, fun _ => hkept, fun _ => ?_⟩
    exact ⟨buffer', o.written, hresult, hlength, o.written_le, hnul⟩
  · have hresult : vsnprintf args back_buffer buffer format = .error .overread := by
      rw [vsnprintf, hrun]
      rfl
    refine ⟨by rw [hresult]; nofun, fun hright => ?_, fun h => absurd h hkept⟩
    obtain ⟨buffer', count, hok, -⟩ := hright
    rw [hresult] at hok
    cases hok

/-- `%5d` in a buffer of three cells. -/
theorem vsnprintf_right_field :
    Right (fun _ => ⟨7, []⟩) (fun _ _ _ _ => [' ', ' ', ' ', ' ', '7'].map Char.toNat) [1, 1, 1]
      (['%', '5', 'd'].map Char.toNat ++ [0]) := by
  refine (vsnprintf_right_iff _ _ _ _ (by decide)).2.mpr (kept_of_fine _ _ _ (terminated_append _ (by decide)) ?_)
  have hfield : Written.take (['5', 'd'].map Char.toNat ++ [0]) =
      some (⟨[], ['5'.toNat], none, .none, 'd'.toNat⟩, [0]) := rfl
  rw [List.map_cons, List.cons_append, FineFormat, if_neg (by decide), if_pos rfl]
  split
  · next hnone =>
    rw [hfield] at hnone
    cases hnone
  · next hsome =>
    rw [hfield] at hsome
    cases hsome
    refine ⟨by decide, ?_⟩
    rw [FineFormat, if_pos rfl]
    trivial

/-- Behind the `j` the `d` is stepped over, and the NUL is the conversion. -/
theorem vsnprintf_overread : ¬ Right (fun _ => ⟨7, []⟩) (fun _ _ _ _ => ['7'.toNat]) [1, 1, 1]
    (['%', 'j', 'd'].map Char.toNat ++ [0]) := by
  rintro ⟨buffer, count, hrun, -⟩
  have hturn : turn (fun _ => ⟨7, []⟩) (fun _ _ _ _ => ['7'.toNat]) 0 (Output.start [1, 1, 1])
      (['%', 'j', 'd'].map Char.toNat ++ [0]) = .ok (Output.start [1, 1, 1], 0, []) := rfl
  have hloop : loop (fun _ => ⟨7, []⟩) (fun _ _ _ _ => ['7'.toNat]) 0 (Output.start [1, 1, 1])
      (['%', 'j', 'd'].map Char.toNat ++ [0]) = .error .overread := by
    refine (loop_turn (by decide) hturn).trans ?_
    rw [loop]
  rw [vsnprintf, hloop] at hrun
  cases hrun

end BadLands.Format.Loader
