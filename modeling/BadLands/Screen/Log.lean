import BadLands.Core.Machine
import Mathlib.Algebra.Group.Nat.Defs

/-!
# The text cursor

`Log` keeps the position of the cursor twice, in pixels and on the grid of characters, and `putc`
updates both by hand in six branches. Here the framebuffer is only what is asked of it (`Effect`), in
order; `Screen.Framebuffer` says what it does.

One branch drifts: a backspace at the start of a row goes to the last column of the row above, and to
the pixel `width - GLYPH_HEIGHT`, which is the pixel of no last column. `cursor_aligned_iff`: the two
positions agree along a run iff it has no such backspace.
-/
namespace BadLands.Screen.Log

open BadLands.Core.Machine

def glyphWidth : Nat := 8

def glyphHeight : Nat := 16

/-- A video mode with room for a glyph. The scan lines are at least as long as the rows, and the loader maps
no framebuffer of 4 GiB (bootloader/src/loader/paging.cpp:470-473). -/
structure Mode where
  width : Nat
  height : Nat
  pixelsPerScanLine : Nat
  width_ge : 16 ≤ width
  height_ge : 16 ≤ height
  width_le : width ≤ pixelsPerScanLine
  size_lt : height * pixelsPerScanLine < 2 ^ 32

/-- mirrors kernel/src/screen/Log.cpp:100-101 -/
def Mode.actualColumns (scr : Mode) : Nat := scr.width / glyphWidth

def Mode.actualRows (scr : Mode) : Nat := scr.height / glyphHeight

/-- `uint32_t` -/
def add (a b : Nat) : Nat := (a + b) % 2 ^ 32

def sub (a b : Nat) : Nat := (a + (2 ^ 32 - b % 2 ^ 32)) % 2 ^ 32

/-- mirrors kernel/src/screen/Log.cpp:35-47 -/
structure Context where
  x : Nat
  y : Nat
  currentRow : Nat
  currentColumn : Nat
  deriving DecidableEq, Repr

/-- A call to the framebuffer. -/
inductive Effect where
  | putcAt (c : BitVec 8) (x y : Nat)
  | scroll
  | clear
  deriving DecidableEq, Repr

def Context.setup : Context := ⟨0, 0, 0, 0⟩

section
variable (scr : Mode)

/-- mirrors kernel/src/screen/Log.cpp:73-76 -/
def carriageReturn (ctx : Context) : Context := { ctx with currentColumn := 0, x := 0 }

/-- mirrors kernel/src/screen/Log.cpp:78-86 -/
def lineFeed (ctx : Context) : Context × List Effect :=
  if ctx.currentRow < scr.actualRows - 1 then
    ({ ctx with currentRow := ctx.currentRow + 1, y := add ctx.y glyphHeight }, [])
  else (ctx, [.scroll])

/-- mirrors kernel/src/screen/Log.cpp:123-174 -/
def putc (ctx : Context) (c : BitVec 8) : Context × List Effect :=
  if c = 0#8 ∨ c = 7#8 ∨ c = 12#8 then (ctx, [])
  else if c = 8#8 then
    if ctx.currentRow = 0 ∧ ctx.currentColumn = 0 then (ctx, [])
    else if ctx.currentColumn = 0 then
      let y := sub ctx.y glyphHeight
      let x := sub scr.width glyphHeight
      (⟨x, y, ctx.currentRow - 1, scr.actualColumns - 1⟩, [.putcAt 8#8 x y])
    else
      let x := sub ctx.x glyphWidth
      ({ ctx with currentColumn := ctx.currentColumn - 1, x := x }, [.putcAt 8#8 x ctx.y])
  else if c = 9#8 then
    let shift := 4 - ctx.currentColumn % 4
    if ctx.currentColumn + shift ≥ scr.actualColumns then lineFeed scr (carriageReturn ctx)
    else ({ ctx with currentColumn := ctx.currentColumn + shift, x := add ctx.x (shift * glyphWidth) }, [])
  else if c = 10#8 ∨ c = 11#8 then lineFeed scr ctx
  else if c = 13#8 then (carriageReturn ctx, [])
  else
    let (ctx', effects) :=
      if ctx.currentColumn + 1 ≥ scr.actualColumns then lineFeed scr (carriageReturn ctx)
      else ({ ctx with currentColumn := ctx.currentColumn + 1, x := add ctx.x glyphWidth }, [])
    (ctx', .putcAt c ctx.x ctx.y :: effects)

/-- mirrors kernel/src/screen/Log.cpp:183-189 -/
def clear : Context × List Effect := (.setup, [.clear])

/-! ## Runs -/

inductive Act where
  | putc (c : BitVec 8)
  | clear
  deriving DecidableEq, Repr

def act (ctx : Context) : Act → Context × List Effect
  | .putc c => putc scr ctx c
  | .clear => clear

/-- The cursor, and what the last call asked of the framebuffer. -/
def step (s : Context × List Effect) (a : Act) : Option (Context × List Effect) := some (act scr s.1 a)

/-- The two positions agree, inside the grid. -/
structure Aligned (ctx : Context) : Prop where
  x_eq : ctx.x = 8 * ctx.currentColumn
  y_eq : ctx.y = 16 * ctx.currentRow
  column_lt : ctx.currentColumn < scr.actualColumns
  row_lt : ctx.currentRow < scr.actualRows

/-- A glyph is drawn on the screen, at a place of the grid. -/
def OnGrid : Effect → Prop
  | .putcAt _ x y => 8 ∣ x ∧ x + 8 ≤ scr.width ∧ 16 ∣ y ∧ y + 16 ≤ scr.height
  | _ => True

def Tidy (s : Context × List Effect) : Prop := Aligned scr s.1 ∧ ∀ e ∈ s.2, OnGrid scr e

end

/-- No backspace at the start of a row other than the first. -/
def StaysInRow (s : Context × List Effect) (a : Act) : Prop :=
  a = .putc 8#8 → s.1.currentColumn = 0 → s.1.currentRow = 0

/-! ## One character -/

section
variable {scr : Mode} {ctx : Context} {s s' : Context × List Effect} {a : Act}

theorem Mode.width_lt (scr : Mode) : scr.width < 2 ^ 32 := by
  have hle : 1 * scr.pixelsPerScanLine ≤ scr.height * scr.pixelsPerScanLine :=
    Nat.mul_le_mul_right _ (by have := scr.height_ge; omega)
  have := scr.width_le
  have := scr.size_lt
  omega

theorem Mode.height_lt (scr : Mode) : scr.height < 2 ^ 32 := by
  have hle : scr.height * 1 ≤ scr.height * scr.pixelsPerScanLine :=
    Nat.mul_le_mul_left _ (by have := scr.width_ge; have := scr.width_le; omega)
  have := scr.size_lt
  omega

/-- The grid is on the screen. -/
theorem Mode.grid (scr : Mode) : 8 * scr.actualColumns ≤ scr.width ∧ scr.width < 8 * scr.actualColumns + 8 ∧
    16 * scr.actualRows ≤ scr.height ∧ scr.height < 16 * scr.actualRows + 16 ∧ 2 ≤ scr.actualColumns ∧
    1 ≤ scr.actualRows := by
  have := scr.width_ge
  have := scr.height_ge
  unfold Mode.actualColumns Mode.actualRows glyphWidth glyphHeight
  omega

theorem add_eq {a b : Nat} (h : a + b < 2 ^ 32) : add a b = a + b := Nat.mod_eq_of_lt h

theorem sub_eq {a b : Nat} (ha : a < 2 ^ 32) (hb : b ≤ a) : sub a b = a - b := by
  unfold sub
  omega

theorem aligned_setup (scr : Mode) : Aligned scr .setup := by
  have hgrid := scr.grid
  exact ⟨rfl, rfl, show 0 < _ by omega, show 0 < _ by omega⟩

theorem Aligned.carriageReturn (h : Aligned scr ctx) : Aligned scr (carriageReturn ctx) := by
  have hgrid := scr.grid
  exact ⟨rfl, h.y_eq, show 0 < _ by omega, h.row_lt⟩

theorem Aligned.lineFeed (h : Aligned scr ctx) : Tidy scr (lineFeed scr ctx) := by
  have hgrid := scr.grid
  have hheight := scr.height_lt
  obtain ⟨hx, hy, hcolumn, hrow⟩ := h
  unfold Log.lineFeed
  split
  · refine ⟨⟨hx, ?_, hcolumn, ?_⟩, by simp⟩
    · dsimp only
      rw [add_eq (by unfold glyphHeight; omega)]
      unfold glyphHeight
      omega
    · dsimp only
      omega
  · exact ⟨⟨hx, hy, hcolumn, hrow⟩, by simp [OnGrid]⟩

/-- A move to the right in the row. -/
theorem Aligned.forward (h : Aligned scr ctx) {n : Nat} (hn : ctx.currentColumn + n < scr.actualColumns) :
    Aligned scr { ctx with currentColumn := ctx.currentColumn + n, x := add ctx.x (n * glyphWidth) } := by
  have hgrid := scr.grid
  have hwidth := scr.width_lt
  obtain ⟨hx, hy, hcolumn, hrow⟩ := h
  refine ⟨?_, hy, hn, hrow⟩
  dsimp only
  unfold glyphWidth
  rw [add_eq (by omega)]
  omega

theorem Aligned.onGrid (h : Aligned scr ctx) (c : BitVec 8) : OnGrid scr (.putcAt c ctx.x ctx.y) := by
  have hgrid := scr.grid
  obtain ⟨hx, hy, hcolumn, hrow⟩ := h
  refine ⟨⟨_, hx⟩, ?_, ⟨_, hy⟩, ?_⟩
  · omega
  · omega

theorem Aligned.back (h : Aligned scr ctx) (hcolumn : ctx.currentColumn ≠ 0) :
    Aligned scr { ctx with currentColumn := ctx.currentColumn - 1, x := sub ctx.x glyphWidth } := by
  have hgrid := scr.grid
  have hwidth := scr.width_lt
  obtain ⟨hx, hy, hlt, hrow⟩ := h
  refine ⟨?_, hy, ?_, hrow⟩
  · dsimp only
    unfold glyphWidth
    rw [sub_eq (by omega) (by omega)]
    omega
  · dsimp only
    omega

/-- Every character keeps the cursor aligned, but for the backspace across rows. -/
theorem Aligned.putc (h : Aligned scr ctx) (c : BitVec 8)
    (hstays : c = 8#8 → ctx.currentColumn = 0 → ctx.currentRow = 0) : Tidy scr (putc scr ctx c) := by
  unfold Log.putc
  split
  · exact ⟨h, by simp⟩
  split
  · rename_i hback
    split
    · exact ⟨h, by simp⟩
    split
    · rename_i hstart hcolumn
      exact absurd ⟨hstays hback hcolumn, hcolumn⟩ hstart
    · rename_i hcolumn
      refine ⟨h.back hcolumn, ?_⟩
      simpa using (h.back hcolumn).onGrid 8#8
  split
  · dsimp only
    split
    · exact h.carriageReturn.lineFeed
    · exact ⟨h.forward (by omega), by simp⟩
  split
  · exact h.lineFeed
  split
  · exact ⟨h.carriageReturn, by simp⟩
  · dsimp only
    have hmoved : Tidy scr (if ctx.currentColumn + 1 ≥ scr.actualColumns then Log.lineFeed scr (Log.carriageReturn ctx)
        else ({ ctx with currentColumn := ctx.currentColumn + 1, x := add ctx.x glyphWidth }, [])) := by
      split
      · exact h.carriageReturn.lineFeed
      · have hnext := h.forward (n := 1) (by omega)
        rw [Nat.one_mul] at hnext
        exact ⟨hnext, by simp⟩
    refine ⟨hmoved.1, ?_⟩
    intro e he
    cases List.mem_cons.mp he with
    | inl he => exact he ▸ h.onGrid c
    | inr he => exact hmoved.2 e he

theorem step_tidy (h : Tidy scr s) (hg : StaysInRow s a) (hs : step scr s a = some s') : Tidy scr s' := by
  cases hs
  cases a with
  | putc c => exact h.1.putc c fun hc => hg (hc ▸ rfl)
  | clear => exact ⟨aligned_setup scr, by simp [act, clear, OnGrid]⟩

/-- Sixteen pixels from the right edge is no column. -/
theorem step_untidy (hg : ¬ StaysInRow s a) (hs : step scr s a = some s') : ¬ Tidy scr s' := by
  cases hs
  unfold StaysInRow at hg
  simp only [Classical.not_imp] at hg
  obtain ⟨rfl, hcolumn, hrow⟩ := hg
  intro ⟨h, _⟩
  have hgrid := scr.grid
  have hx := h.x_eq
  simp only [act, putc, hcolumn, hrow] at hx
  simp only [BitVec.reduceEq, or_self, if_false, if_true, and_true, glyphHeight] at hx
  rw [sub_eq scr.width_lt scr.width_ge] at hx
  omega

end

theorem cursor_aligned_iff (scr : Mode) (acts : List Act) :
    AllStates (step scr) (Tidy scr) (.setup, []) acts ↔ AllSteps (step scr) StaysInRow (.setup, []) acts :=
  allStates_iff_allSteps (fun _ h => h) (fun _ _ _ h hg hs => step_tidy h hg hs)
    (fun _ _ _ _ hg hs => step_untidy hg hs) acts _ ⟨aligned_setup scr, by simp⟩

/-- Eighty columns. -/
def vga : Mode := ⟨640, 480, 640, by omega, by omega, by omega, by omega⟩

/-- A line feed and a backspace: column 79 starts at pixel 632, the cursor is at 624. -/
theorem cursor_drifts : ∃ s, run (step vga) (.setup, []) [.putc 10#8, .putc 8#8] = some s ∧
    s.1 = ⟨624, 0, 0, 79⟩ ∧ ¬ Tidy vga s := by
  refine ⟨_, rfl, rfl, fun h => ?_⟩
  have hx := h.1.x_eq
  revert hx
  decide

end BadLands.Screen.Log
