import BadLands.Fs.NpfsDirectory

/-!
# The `list` command

`list` asks the directory for its entries 64 at a time, and goes on as long as it gets 64. It never
says where to go on: each call of `List` starts with the first entry, so a directory with 64 entries or
more is listed for ever (`listCommand_enumerates_iff`).
-/
namespace BadLands.Shell.ListCommand

open BadLands.Fs (Status Response)
open BadLands.Fs.Npfs
open BadLands.Fs.Npfs.Directory (Map Holds)

def elementsPerBlock : Nat := 64

/-- A line of the command on the screen. -/
inductive Line where
  | name (name : Name)
  | allocationFailed
  | listFailed (error : Status)
  deriving DecidableEq

/-- The `do` loop, for so many turns; `none` when they do not suffice.
mirrors kernel/src/services/shell/entry.cpp:342-359 -/
def listLoop (d : Directory) : Nat → List Line → Option (List Line)
  | 0, _ => none
  | fuel + 1, printed =>
    match d.list elementsPerBlock 0 with
    | none => none
    | some (.error error) => some (printed ++ [.listFailed error])
    | some (.ok (count, entries)) =>
      let printed := printed ++ (entries.take count).map .name
      if count = elementsPerBlock then listLoop d fuel printed else some printed

/-- `buffer`: whether there is memory for the entries.
mirrors kernel/src/services/shell/entry.cpp:328-362 -/
def listCommand (d : Directory) (buffer : Bool) (fuel : Nat) : Option (List Line) :=
  if !buffer then some [.allocationFailed] else listLoop d fuel []

/-- The names among the lines. -/
def printedNames (lines : List Line) : List Name :=
  lines.filterMap fun
    | .name name => some name
    | _ => none

/-- The names that are bound, each once. -/
def Entries (m : Map) (bound : List Name) : Prop := bound.Nodup ∧ ∀ x, x ∈ bound ↔ m x ≠ none

/-- The command ends, and has printed the name of each entry once. -/
def Enumerates (m : Map) (run : Nat → Option (List Line)) : Prop :=
  ∃ fuel lines, run fuel = some lines ∧ Entries m (printedNames lines)

section
variable {heap : Heap} {d : Directory} {m : Map} {bound : List Name}

theorem printedNames_map (names : List Name) : printedNames (names.map .name) = names := by
  unfold printedNames
  rw [List.filterMap_map]
  exact List.filterMap_some

theorem Entries.length_eq {bound' : List Name} (h : Entries m bound) (h' : Entries m bound') :
    bound.length = bound'.length :=
  ((List.perm_ext_iff_of_nodup h.1 h'.1).mpr fun x => (h.2 x).trans (h'.2 x).symm).length_eq

/-- Fewer than 64 entries come with one call. -/
theorem listLoop_few {fuel : Nat} (hrun : d.list elementsPerBlock 0 =
      some (.ok (elementsPerBlock - (elementsPerBlock - bound.length), bound.take elementsPerBlock)))
    (hfew : bound.length < elementsPerBlock) : listLoop d (fuel + 1) [] = some (bound.map .name) := by
  have hcount : elementsPerBlock - (elementsPerBlock - bound.length) = bound.length :=
    Nat.sub_sub_self (Nat.le_of_lt hfew)
  rw [listLoop, hrun]
  simp only [hcount, List.nil_append]
  rw [if_neg (Nat.ne_of_lt hfew), List.take_of_length_le (Nat.le_of_lt hfew), List.take_length]

/-- With 64 entries or more every turn is followed by another. -/
theorem listLoop_many (hrun : d.list elementsPerBlock 0 =
      some (.ok (elementsPerBlock - (elementsPerBlock - bound.length), bound.take elementsPerBlock)))
    (hmany : elementsPerBlock ≤ bound.length) (fuel : Nat) : ∀ printed, listLoop d fuel printed = none := by
  have hcount : elementsPerBlock - (elementsPerBlock - bound.length) = elementsPerBlock := by omega
  induction fuel with
  | zero => exact fun _ => rfl
  | succ fuel ih =>
    intro printed
    rw [listLoop, hrun]
    simp only [hcount, if_true]
    exact ih _

end

/-- `list` prints the name of each entry once iff there are fewer than 64 of them, and memory for
the buffer where there is something to print. -/
theorem listCommand_enumerates_iff {heap : Heap} {d : Directory} {m : Map} {bound : List Name}
    (hd : Holds heap d m) (hbound : Entries m bound) (buffer : Bool) :
    Enumerates m (listCommand d buffer) ↔ bound.length < elementsPerBlock ∧ (buffer = true ∨ bound = []) := by
  obtain ⟨bound', hnodup, hmem, hrun⟩ := hd.list elementsPerBlock
  have hlen := hbound.length_eq ⟨hnodup, hmem⟩
  cases buffer with
  | false =>
    have hempty : ∀ fuel lines, listCommand d false fuel = some lines → printedNames lines = [] := by
      rintro fuel lines hlines
      obtain rfl := Option.some.inj hlines
      rfl
    constructor
    · rintro ⟨fuel, lines, hlines, hentries⟩
      rw [hempty fuel lines hlines] at hentries
      have hzero := hbound.length_eq hentries
      exact ⟨by rw [hzero]; decide, .inr (List.length_eq_zero_iff.mp hzero)⟩
    · rintro ⟨-, hb | rfl⟩
      · cases hb
      · exact ⟨0, _, rfl, hbound⟩
  | true =>
    rcases Nat.lt_or_ge bound'.length elementsPerBlock with hfew | hmany
    · refine ⟨fun _ => ⟨by omega, .inl rfl⟩, fun _ => ⟨1, _, listLoop_few hrun hfew, ?_⟩⟩
      rw [printedNames_map]
      exact ⟨hnodup, hmem⟩
    · constructor
      · rintro ⟨fuel, lines, hlines, -⟩
        have hnone : listLoop d fuel [] = some lines := hlines
        rw [listLoop_many hrun hmany] at hnone
        cases hnone
      · rintro ⟨hfew, -⟩
        omega

/-! ## Directories of one-letter names -/

def letter (i : Nat) : Name := [UInt8.ofNat i]

/-- A new directory with `n` files that have been created in it. -/
def filled : Nat → Option Directory
  | 0 => some (Directory.construct fun _ => true)
  | n + 1 => do
    let d ← filled n
    let (status, d) ← d.create BlockTree.pageHeap (letter n) .file (Fin.ofNat _ (n + 1))
    if status = .success then return d else none

def filledMap (n : Nat) : Map
  | [b] => if b.toNat < n then some (Fin.ofNat _ (b.toNat + 1)) else none
  | _ => none

theorem filledMap_letter {n i : Nat} (hi : i < 256) :
    filledMap n (letter i) = if i < n then some (Fin.ofNat _ (i + 1)) else none := by
  show (if (UInt8.ofNat i).toNat < n then some (Fin.ofNat _ ((UInt8.ofNat i).toNat + 1)) else none) = _
  rw [UInt8.toNat_ofNat_of_lt' (show i < 2 ^ 8 from hi)]

theorem filledMap_succ {n : Nat} (hn : n < 256) :
    Function.update (filledMap n) (letter n) (some (Fin.ofNat _ (n + 1))) = filledMap (n + 1) := by
  funext x
  by_cases hx : x = letter n
  · rw [hx, Function.update_self, filledMap_letter hn, if_pos (Nat.lt_succ_self n)]
  · rw [Function.update_of_ne hx]
    unfold filledMap
    split
    · next b =>
      have hne : b.toNat ≠ n := by
        intro hb
        apply hx
        rw [letter, ← hb, UInt8.ofNat_toNat]
      by_cases hlt : b.toNat < n
      · rw [if_pos hlt, if_pos (by omega)]
      · rw [if_neg hlt, if_neg (by omega)]
    · rfl

theorem filled_holds {n : Nat} (hn : n ≤ 256) : ∃ d, filled n = some d ∧ Holds BlockTree.pageHeap d (filledMap n) := by
  induction n with
  | zero =>
    refine ⟨_, rfl, 0, Directory.blocks_construct _ _, ?_⟩
    rw [show Directory.view (.construct fun _ => true) = fun _ => .null from
      funext (Directory.view_construct _)]
    have hempty : filledMap 0 = fun _ => none := by
      funext x
      unfold filledMap
      split
      · exact if_neg (Nat.not_lt_zero _)
      · rfl
    rw [hempty]
    exact Directory.represents_empty _
  | succ n ih =>
    obtain ⟨d, hrun, hd⟩ := ih (by omega)
    have hnone : filledMap n (letter n) = none := by
      rw [filledMap_letter (by omega), if_neg (Nat.lt_irrefl n)]
    have hnew : ∀ x, filledMap n x ≠ some (Fin.ofNat _ (n + 1)) := by
      intro x hx
      unfold filledMap at hx
      split at hx
      · split at hx
        · next b hlt =>
          have hval := congrArg Fin.val (Option.some.inj hx)
          rw [Fin.val_ofNat, Fin.val_ofNat, Nat.mod_eq_of_lt (by omega), Nat.mod_eq_of_lt (by omega)] at hval
          omega
        · cases hx
      · cases hx
    rcases @Holds.create _ d _ (letter n) hd _ .file (List.cons_ne_nil _ _) hnew with ⟨hm, -⟩ | ⟨-, d', hcreate, hd'⟩
    · exact absurd hnone hm
    · refine ⟨d', ?_, by rwa [filledMap_succ (by omega)] at hd'⟩
      rw [filled, hrun]
      simp only [Option.bind_eq_bind, Option.bind_some, hcreate, if_true]
      rfl

theorem filled_entries {n : Nat} (hn : n ≤ 256) : Entries (filledMap n) ((List.range n).map letter) := by
  constructor
  · apply List.Nodup.map_on
    · intro i hi j hj h
      have hi' := List.mem_range.mp hi
      have hj' := List.mem_range.mp hj
      have hbyte := congrArg UInt8.toNat (List.cons.inj h).1
      rwa [UInt8.toNat_ofNat_of_lt' (show i < 2 ^ 8 by omega), UInt8.toNat_ofNat_of_lt' (show j < 2 ^ 8 by omega)]
        at hbyte
    · exact List.nodup_range
  · intro x
    rw [List.mem_map]
    constructor
    · rintro ⟨i, hi, rfl⟩
      have hi' := List.mem_range.mp hi
      rw [filledMap_letter (by omega), if_pos hi']
      exact Option.some_ne_none _
    · intro hx
      unfold filledMap at hx
      split at hx
      · next b =>
        split at hx
        · next hlt => exact ⟨b.toNat, List.mem_range.mpr hlt, by rw [letter, UInt8.ofNat_toNat]⟩
        · exact absurd rfl hx
      · exact absurd rfl hx

/-- Three entries are printed. -/
theorem listCommand_enumerates_three :
    ∃ d, filled 3 = some d ∧ Enumerates (filledMap 3) (listCommand d true) := by
  obtain ⟨d, hrun, hd⟩ := filled_holds (show 3 ≤ 256 by decide)
  exact ⟨d, hrun, (listCommand_enumerates_iff hd (filled_entries (by decide)) true).mpr ⟨by decide, .inl rfl⟩⟩

/-- With 64 entries `list` does not end. -/
theorem listCommand_repeats_sixty_four :
    ∃ d, filled 64 = some d ∧ (∀ fuel, listCommand d true fuel = none) ∧
      ¬ Enumerates (filledMap 64) (listCommand d true) := by
  obtain ⟨d, hrun, hd⟩ := filled_holds (show 64 ≤ 256 by decide)
  obtain ⟨bound, hnodup, hmem, hlist⟩ := hd.list elementsPerBlock
  have hlen : ((List.range 64).map letter).length = bound.length :=
    (filled_entries (show 64 ≤ 256 by decide)).length_eq ⟨hnodup, hmem⟩
  rw [List.length_map, List.length_range] at hlen
  have hnever : ∀ fuel, listCommand d true fuel = none := fun fuel => listLoop_many hlist (by rw [← hlen]; decide) fuel []
  refine ⟨d, hrun, hnever, ?_⟩
  rintro ⟨fuel, lines, hlines, -⟩
  rw [hnever fuel] at hlines
  cases hlines

end BadLands.Shell.ListCommand
