import BadLands.Core.Raster
import BadLands.Screen.Log
import Mathlib.Data.Nat.ModEq

/-!
# The framebuffer and its back buffer

What is drawn goes to the back buffer, a ring of rows that starts at `y_disp`; rectangles and whole
rows of it are then copied to the screen. `shown` is the back buffer as the screen is meant to show it,
`visible` the screen; each function is described by what it does to these two.

`Flush` and `Clear` work on pairs of pixels, so the last column of an odd width is never refreshed, and
with a height that is no multiple of 16 the row that `scroll` blanks is not the last row of text. Neither
shows: outside of the grid of characters everything is background (`Faithful.margin`), because
background is 0 and no glyph is drawn there. `screen_shows_back_buffer`: the screen is the back buffer after
every call, and a scroll moves the text up by one row.
-/
namespace BadLands.Screen.Framebuffer

open BadLands.Core BadLands.Core.Machine BadLands.Core.Raster BadLands.Screen.Log

abbrev Pixel := BitVec 32

/-- mirrors kernel/src/screen/Framebuffer.cpp:27-30 -/
structure Buffers where
  address : Raster Pixel
  back : Raster Pixel
  yDisp : Nat

/-- mirrors kernel/src/screen/Log.cpp:104-105 -/
def foreground : Pixel := 0x00FFFFFF#32

def background : Pixel := 0x00000000#32

section
variable (scr : Mode)

/-- The row of the back buffer for a row of the screen. -/
def ringRow (fb : Buffers) (y : Nat) : Nat := (y + fb.yDisp) % scr.height

/-- What was in memory is cleared, `y_disp` is 0 from the start.
mirrors kernel/src/screen/Framebuffer.cpp:34-54 -/
def setup (address back : Raster Pixel) : Buffers where
  address := block scr.pixelsPerScanLine id 0 (fun _ _ => 0#32) scr.height scr.width address
  back := block scr.pixelsPerScanLine id 0 (fun _ _ => 0#32) scr.height scr.width back
  yDisp := 0

/-- `font`: the glyphs, row by row.
mirrors kernel/src/screen/Log.cpp:58-61 -/
def getFontPixel (font : Nat → BitVec 8) (codepoint row column : Nat) : Bool :=
  font (glyphHeight * codepoint + row) &&& (0x80#8 >>> column) ≠ 0#8

/-- Characters without a glyph are blanks.
mirrors kernel/src/screen/Log.cpp:109-116 -/
def glyphPixel (font : Nat → BitVec 8) (c : BitVec 8) (row column : Nat) : Pixel :=
  let codepoint := if c.toNat ≥ 0x80 ∨ c.toNat < 0x20 then 0x20 else c.toNat
  if getFontPixel font codepoint row column then foreground else background

/-- The loops of `putcAt`, each turn a `Write`.
mirrors kernel/src/screen/Log.cpp:108-118, kernel/src/screen/Framebuffer.cpp:69-71 -/
def drawGlyph (font : Nat → BitVec 8) (fb : Buffers) (c : BitVec 8) (x y : Nat) : Buffers :=
  { fb with
    back := each (fun back row => each (fun back column =>
      put back (ringRow scr fb (add y row) * scr.pixelsPerScanLine + add x column) (glyphPixel font c row column))
        glyphWidth back) glyphHeight fb.back }

/-- mirrors kernel/src/screen/Framebuffer.cpp:73-97 -/
def flushRect (fb : Buffers) (x y width height : Nat) : Buffers :=
  let height := if add y height > scr.height then sub scr.height y else height
  let width := if add x width > scr.width then sub scr.width x else width
  { fb with
    address := each (fun address row =>
      copyRun address ((add y row * scr.pixelsPerScanLine + x) % 2 ^ 32) fb.back
        (ringRow scr fb (add y row) * scr.pixelsPerScanLine + x) width) height fb.address }

/-- mirrors kernel/src/screen/Log.cpp:108-121 -/
def putcAt (font : Nat → BitVec 8) (fb : Buffers) (c : BitVec 8) (x y : Nat) : Buffers :=
  flushRect scr (drawGlyph scr font fb c x y) x y glyphWidth glyphHeight

/-- Pairs of pixels.
mirrors kernel/src/screen/Framebuffer.cpp:99-113 -/
def flush (fb : Buffers) : Buffers :=
  { fb with
    address := each (fun address y =>
      copyRun address (y * scr.pixelsPerScanLine) fb.back (ringRow scr fb y * scr.pixelsPerScanLine)
        (2 * (scr.width / 2))) scr.height fb.address }

/-- mirrors kernel/src/screen/Framebuffer.cpp:115-141 -/
def clear (fb : Buffers) : Buffers :=
  let cleared (r : Raster Pixel) :=
    each (fun r y => fillRun r (y * scr.pixelsPerScanLine) 0#32 (2 * (scr.width / 2))) scr.height r
  { fb with address := cleared fb.address, back := cleared fb.back }

/-- mirrors kernel/src/screen/Framebuffer.cpp:143-145 -/
def scrollBy (fb : Buffers) (dy : Nat) : Buffers := { fb with yDisp := (fb.yDisp + dy) % scr.height }

/-- The loops of `scroll`, each turn a `Write`.
mirrors kernel/src/screen/Log.cpp:65-69 -/
def blankBottom (fb : Buffers) : Buffers :=
  { fb with
    back := block scr.pixelsPerScanLine (fun row => ringRow scr fb (scr.height - glyphHeight + row)) 0
      (fun _ _ => background) glyphHeight scr.width fb.back }

/-- mirrors kernel/src/screen/Log.cpp:63-71 -/
def scroll (fb : Buffers) : Buffers := flush scr (blankBottom scr (scrollBy scr fb glyphHeight))

def perform (font : Nat → BitVec 8) (fb : Buffers) : Effect → Buffers
  | .putcAt c x y => putcAt scr font fb c x y
  | .scroll => scroll scr fb
  | .clear => clear scr fb

/-! ## Runs -/

def step (font : Nat → BitVec 8) (s : Context × Buffers) (a : Act) : Option (Context × Buffers) :=
  let (ctx, effects) := act scr s.1 a
  some (ctx, effects.foldl (perform scr font) s.2)

def visible (fb : Buffers) (x y : Nat) : Pixel := fb.address (y * scr.pixelsPerScanLine + x)

def shown (fb : Buffers) (x y : Nat) : Pixel := fb.back (ringRow scr fb y * scr.pixelsPerScanLine + x)

/-- The screen is the back buffer. -/
def ShowsBackBuffer (fb : Buffers) : Prop :=
  ∀ x y, x < scr.width → y < scr.height → visible scr fb x y = shown scr fb x y

/-- A scroll blanks the bottom row of text and shows on every other row what was below it. -/
def ScrollsText (fb : Buffers) : Prop :=
  ∀ x k, x < scr.width → k < 16 →
    visible scr (scroll scr fb) x (16 * (scr.actualRows - 1) + k) = background ∧
      ∀ row, row + 1 < scr.actualRows →
        visible scr (scroll scr fb) x (16 * row + k) = visible scr fb x (16 * (row + 1) + k)

/-- Every scroll of a call is such a scroll. -/
def Scrolls (font : Nat → BitVec 8) (s : Context × Buffers) (a : Act) : Prop :=
  ∀ before after, (act scr s.1 a).2 = before ++ .scroll :: after →
    ScrollsText scr (before.foldl (perform scr font) s.2)

end

/-! ## What each function does -/

section
variable {scr : Mode} {fb : Buffers} {x y : Nat}

theorem ringRow_lt (scr : Mode) (fb : Buffers) (y : Nat) : ringRow scr fb y < scr.height :=
  Nat.mod_lt _ (by have := scr.height_ge; omega)

theorem ringRow_inj {y' : Nat} (hy : y < scr.height) (hy' : y' < scr.height)
    (h : ringRow scr fb y = ringRow scr fb y') : y = y' := by
  have hmod : y % scr.height = y' % scr.height := Nat.ModEq.add_right_cancel' fb.yDisp h
  rwa [Nat.mod_eq_of_lt hy, Nat.mod_eq_of_lt hy'] at hmod

theorem width_le (hx : x < scr.width) : x < scr.pixelsPerScanLine := by
  have := scr.width_le
  omega

theorem setup_zero (scr : Mode) (address back : Raster Pixel) (hx : x < scr.width) (hy : y < scr.height) :
    visible scr (setup scr address back) x y = 0#32 ∧ shown scr (setup scr address back) x y = 0#32 := by
  have hrow : ringRow scr (setup scr address back) y = y := Nat.mod_eq_of_lt hy
  have hzero : ∀ r : Raster Pixel, block scr.pixelsPerScanLine id 0 (fun _ _ => 0#32) scr.height scr.width r
      (y * scr.pixelsPerScanLine + x) = 0#32 := fun r =>
    block_hit (t := y) (width_le hx) (by have := scr.width_le; omega) (Nat.zero_le _) (by omega) hy (fun _ _ h => h) _ r
  refine ⟨hzero address, ?_⟩
  unfold shown
  rw [hrow]
  exact hzero back

/-- The cell of a glyph. -/
def Inside (x₀ y₀ x y : Nat) : Prop := x₀ ≤ x ∧ x < x₀ + 8 ∧ y₀ ≤ y ∧ y < y₀ + 16

theorem drawGlyph_back (font : Nat → BitVec 8) (c : BitVec 8) {x₀ y₀ : Nat} (hx₀ : x₀ + 8 ≤ scr.width)
    (hy₀ : y₀ + 16 ≤ scr.height) : (drawGlyph scr font fb c x₀ y₀).back =
      block scr.pixelsPerScanLine (fun row => ringRow scr fb (y₀ + row)) x₀ (glyphPixel font c) 16 8 fb.back := by
  have hwidth := scr.width_lt
  have hheight := scr.height_lt
  unfold drawGlyph glyphHeight glyphWidth
  refine each_congr (fun r row hrow => each_congr (fun r column hcolumn => ?_) r) _
  rw [add_eq (show y₀ + row < 2 ^ 32 by omega), add_eq (show x₀ + column < 2 ^ 32 by omega)]

/-- A glyph changes the back buffer in its cell only. -/
theorem drawGlyph_shown (font : Nat → BitVec 8) (c : BitVec 8) {x₀ y₀ : Nat} (hx₀ : x₀ + 8 ≤ scr.width)
    (hy₀ : y₀ + 16 ≤ scr.height) (hx : x < scr.width) (hy : y < scr.height) (hout : ¬ Inside x₀ y₀ x y) :
    shown scr (drawGlyph scr font fb c x₀ y₀) x y = shown scr fb x y := by
  unfold shown
  rw [drawGlyph_back font c hx₀ hy₀]
  refine block_miss (width_le hx) (by have := scr.width_le; omega) (fun row hrow h => hout ?_) _ _
  have hsame : y = y₀ + row := ringRow_inj hy (by omega) h.1
  unfold Inside
  omega

theorem flushRect_visible {x₀ y₀ : Nat} (hx₀ : x₀ + 8 ≤ scr.width) (hy₀ : y₀ + 16 ≤ scr.height) (hx : x < scr.width)
    (y : Nat) :
    (Inside x₀ y₀ x y → visible scr (flushRect scr fb x₀ y₀ 8 16) x y = shown scr fb x y) ∧
      (¬ Inside x₀ y₀ x y → visible scr (flushRect scr fb x₀ y₀ 8 16) x y = visible scr fb x y) := by
  have hwidth := scr.width_lt
  have hheight := scr.height_lt
  have hstride := scr.width_le
  have hsize := scr.size_lt
  have hplain : (flushRect scr fb x₀ y₀ 8 16).address = each (fun address row =>
      copyRun address ((y₀ + row) * scr.pixelsPerScanLine + x₀) fb.back
        (ringRow scr fb (y₀ + row) * scr.pixelsPerScanLine + x₀) 8) 16 fb.address := by
    unfold flushRect
    dsimp only
    rw [add_eq (show y₀ + 16 < 2 ^ 32 by omega), add_eq (show x₀ + 8 < 2 ^ 32 by omega), if_neg (by omega), if_neg (by omega)]
    refine each_congr (fun r row hrow => ?_) _
    have hlast : (y₀ + row + 1) * scr.pixelsPerScanLine ≤ scr.height * scr.pixelsPerScanLine :=
      Nat.mul_le_mul_right _ (by omega)
    rw [Nat.succ_mul] at hlast
    rw [add_eq (show y₀ + row < 2 ^ 32 by omega), Nat.mod_eq_of_lt (by omega)]
  have hrun : ∀ row, ((y₀ + row) * scr.pixelsPerScanLine + x₀ ≤ y * scr.pixelsPerScanLine + x ∧
      y * scr.pixelsPerScanLine + x < (y₀ + row) * scr.pixelsPerScanLine + x₀ + 8) ↔
        y = y₀ + row ∧ x₀ ≤ x ∧ x < x₀ + 8 := fun row => run_iff (width_le hx) (by omega)
  unfold visible
  rw [hplain]
  constructor
  · intro hin
    unfold Inside at hin
    refine each_hit (fun row => y = y₀ + row ∧ x₀ ≤ x ∧ x < x₀ + 8) (fun _ => shown scr fb x y) (y - y₀)
      (fun r row h => ?_) (fun r row h => if_neg fun hlt => h ((hrun row).mp hlt)) (by omega) (by omega)
      (fun row _ h => by omega) _
    unfold copyRun shown
    rw [if_pos ((hrun row).mpr h), ← h.1]
    congr 1
    omega
  · intro hout
    refine each_miss (fun row => y = y₀ + row ∧ x₀ ≤ x ∧ x < x₀ + 8)
      (fun r row h => if_neg fun hlt => h ((hrun row).mp hlt)) (fun row hrow h => hout ?_) _
    unfold Inside
    omega

/-- The copy to the screen leaves the back buffer. -/
theorem putcAt_shown (font : Nat → BitVec 8) (c : BitVec 8) (x₀ y₀ : Nat) :
    shown scr (putcAt scr font fb c x₀ y₀) x y = shown scr (drawGlyph scr font fb c x₀ y₀) x y := rfl

/-- The pairs of a row. -/
theorem pairs_run (hx : x < scr.width) (y' : Nat) :
    (y' * scr.pixelsPerScanLine ≤ y * scr.pixelsPerScanLine + x ∧
      y * scr.pixelsPerScanLine + x < y' * scr.pixelsPerScanLine + 2 * (scr.width / 2)) ↔
        y = y' ∧ x < 2 * (scr.width / 2) := by
  have hstride := scr.width_le
  have hrun : (y' * scr.pixelsPerScanLine + 0 ≤ y * scr.pixelsPerScanLine + x ∧
      y * scr.pixelsPerScanLine + x < y' * scr.pixelsPerScanLine + 0 + 2 * (scr.width / 2)) ↔
        y = y' ∧ 0 ≤ x ∧ x < 0 + 2 * (scr.width / 2) := run_iff (width_le hx) (by omega)
  rw [Nat.add_zero, Nat.zero_add] at hrun
  rw [hrun]
  omega

theorem flush_visible (hx : x < scr.width) (hy : y < scr.height) :
    visible scr (flush scr fb) x y = if x < 2 * (scr.width / 2) then shown scr fb x y else visible scr fb x y := by
  unfold visible flush
  dsimp only
  by_cases hpair : x < 2 * (scr.width / 2)
  · rw [if_pos hpair]
    refine each_hit (fun y' => y = y' ∧ x < 2 * (scr.width / 2)) (fun _ => shown scr fb x y) y (fun r y' h => ?_)
      (fun r y' h => if_neg fun hlt => h ((pairs_run hx y').mp hlt)) hy ⟨rfl, hpair⟩ (fun y' _ h => h.1.symm) _
    unfold copyRun shown
    rw [if_pos ((pairs_run hx y').mpr h), ← h.1, Nat.add_sub_cancel_left]
  · rw [if_neg hpair]
    exact each_miss (fun y' => y = y' ∧ x < 2 * (scr.width / 2))
      (fun r y' h => if_neg fun hlt => h ((pairs_run hx y').mp hlt)) (fun _ _ h => hpair h.2) _

theorem cleared_at (r : Raster Pixel) (hx : x < scr.width) (hy : y < scr.height) :
    each (fun r y => fillRun r (y * scr.pixelsPerScanLine) 0#32 (2 * (scr.width / 2))) scr.height r
      (y * scr.pixelsPerScanLine + x) = if x < 2 * (scr.width / 2) then 0#32 else r (y * scr.pixelsPerScanLine + x) := by
  by_cases hpair : x < 2 * (scr.width / 2)
  · rw [if_pos hpair]
    exact each_hit (fun y' => y = y' ∧ x < 2 * (scr.width / 2)) (fun _ => 0#32) y
      (fun r y' h => if_pos ((pairs_run hx y').mpr h)) (fun r y' h => if_neg fun hlt => h ((pairs_run hx y').mp hlt))
      hy ⟨rfl, hpair⟩ (fun y' _ h => h.1.symm) _
  · rw [if_neg hpair]
    exact each_miss (fun y' => y = y' ∧ x < 2 * (scr.width / 2))
      (fun r y' h => if_neg fun hlt => h ((pairs_run hx y').mp hlt)) (fun _ _ h => hpair h.2) _

theorem scrollBy_shown (dy : Nat) : shown scr (scrollBy scr fb dy) x y = shown scr fb x ((y + dy) % scr.height) := by
  have hrow : ringRow scr (scrollBy scr fb dy) y = ringRow scr fb ((y + dy) % scr.height) := by
    unfold ringRow scrollBy
    dsimp only
    rw [Nat.add_mod_mod, Nat.mod_add_mod]
    congr 1
    omega
  unfold shown
  rw [hrow]
  rfl

theorem blankBottom_shown (hx : x < scr.width) (hy : y < scr.height) :
    shown scr (blankBottom scr fb) x y = if scr.height - 16 ≤ y then background else shown scr fb x y := by
  have hheight := scr.height_ge
  have hstride := scr.width_le
  have hrows : ∀ row, row < 16 → scr.height - 16 + row < scr.height := fun row hrow => by omega
  have hring : ringRow scr (blankBottom scr fb) y = ringRow scr fb y := rfl
  unfold shown
  rw [hring]
  unfold blankBottom glyphHeight
  by_cases hbottom : scr.height - 16 ≤ y
  · rw [if_pos hbottom]
    have hrow : ringRow scr fb y = ringRow scr fb (scr.height - 16 + (y - (scr.height - 16))) := by
      rw [Nat.add_sub_cancel' hbottom]
    rw [hrow]
    refine block_hit (width_le hx) (by omega) (Nat.zero_le x) (by omega) (by omega) (fun row hlt h => ?_) _ fb.back
    have := ringRow_inj (hrows row hlt) (by omega) h
    omega
  · rw [if_neg hbottom]
    refine block_miss (width_le hx) (by omega) (fun row hrow h => hbottom ?_) _ _
    have := ringRow_inj hy (hrows row hrow) h.1
    omega

/-! ## The screen and the back buffer -/

/-- The screen is the back buffer, and outside of the grid there is only background. -/
structure Faithful (scr : Mode) (fb : Buffers) : Prop where
  shows : ShowsBackBuffer scr fb
  margin : ∀ x y, x < scr.width → y < scr.height → 8 * scr.actualColumns ≤ x ∨ 16 * scr.actualRows ≤ y →
    shown scr fb x y = background

theorem faithful_setup (scr : Mode) (address back : Raster Pixel) : Faithful scr (setup scr address back) where
  shows := fun x y hx hy => by
    obtain ⟨hvisible, hshown⟩ := setup_zero scr address back hx hy
    rw [hvisible, hshown]
  margin := fun x y hx hy _ => (setup_zero scr address back hx hy).2

theorem Faithful.putcAt (h : Faithful scr fb) (font : Nat → BitVec 8) (c : BitVec 8) {x₀ y₀ : Nat}
    (hgrid : OnGrid scr (.putcAt c x₀ y₀)) : Faithful scr (putcAt scr font fb c x₀ y₀) := by
  obtain ⟨⟨column, hcolumn⟩, hx₀, ⟨row, hrow⟩, hy₀⟩ := hgrid
  have hsize := scr.grid
  refine ⟨fun x y hx hy => ?_, fun x y hx hy hmargin => ?_⟩
  · obtain ⟨hin, hout⟩ := flushRect_visible hx₀ hy₀ hx y
    rw [putcAt_shown]
    by_cases hcell : Inside x₀ y₀ x y
    · exact hin hcell
    · rw [drawGlyph_shown font c hx₀ hy₀ hx hy hcell]
      exact (hout hcell).trans (h.shows x y hx hy)
  · have hcell : ¬ Inside x₀ y₀ x y := fun hcell => by
      unfold Inside at hcell
      omega
    rw [putcAt_shown, drawGlyph_shown font c hx₀ hy₀ hx hy hcell]
    exact h.margin x y hx hy hmargin

/-- The last column of an odd width is outside of the grid. -/
theorem margin_of_unpaired (hx : x < scr.width) (hpair : ¬ x < 2 * (scr.width / 2)) : 8 * scr.actualColumns ≤ x := by
  have hsize := scr.grid
  omega

theorem Faithful.clear (h : Faithful scr fb) : Faithful scr (clear scr fb) := by
  have hvisible : ∀ x y, x < scr.width → y < scr.height → visible scr (Framebuffer.clear scr fb) x y = background := by
    intro x y hx hy
    refine (cleared_at fb.address hx hy).trans ?_
    split
    · rfl
    · rename_i hpair
      have hmargin := margin_of_unpaired hx hpair
      exact (h.shows x y hx hy).trans (h.margin x y hx hy (.inl hmargin))
  have hshown : ∀ x y, x < scr.width → y < scr.height → shown scr (Framebuffer.clear scr fb) x y = background := by
    intro x y hx hy
    refine (cleared_at fb.back hx (ringRow_lt scr fb y)).trans ?_
    split
    · rfl
    · rename_i hpair
      exact h.margin x y hx hy (.inl (margin_of_unpaired hx hpair))
  exact ⟨fun x y hx hy => (hvisible x y hx hy).trans (hshown x y hx hy).symm, fun x y hx hy _ => hshown x y hx hy⟩

/-- The back buffer after a scroll, from the screen. -/
theorem scroll_shown (hx : x < scr.width) (hy : y < scr.height) :
    shown scr (scroll scr fb) x y = if scr.height - 16 ≤ y then background else shown scr fb x (y + 16) := by
  refine (blankBottom_shown hx hy).trans ?_
  rw [scrollBy_shown]
  split
  · rfl
  · unfold glyphHeight
    rw [Nat.mod_eq_of_lt (by omega)]

theorem Faithful.scroll (h : Faithful scr fb) : Faithful scr (scroll scr fb) := by
  have hsize := scr.grid
  have hmargin : ∀ x y, x < scr.width → y < scr.height → 8 * scr.actualColumns ≤ x ∨ 16 * scr.actualRows ≤ y →
      shown scr (Framebuffer.scroll scr fb) x y = background := by
    intro x y hx hy hout
    rw [scroll_shown hx hy]
    split
    · rfl
    · exact h.margin x (y + 16) hx (by omega) (by omega)
  refine ⟨fun x y hx hy => ?_, hmargin⟩
  refine (flush_visible hx hy).trans ?_
  split
  · rfl
  · rename_i hpair
    have hcolumn := margin_of_unpaired hx hpair
    have hbefore : visible scr fb x y = background := (h.shows x y hx hy).trans (h.margin x y hx hy (.inl hcolumn))
    exact hbefore.trans (hmargin x y hx hy (.inl hcolumn)).symm

theorem Faithful.scrollsText (h : Faithful scr fb) : ScrollsText scr fb := by
  have hsize := scr.grid
  intro x k hx hk
  refine ⟨?_, fun row hrow => ?_⟩
  · rw [h.scroll.shows x _ hx (by omega), scroll_shown hx (by omega)]
    split
    · rfl
    · -- above the blanked rows: the strip below the grid, moved up
      exact h.margin x _ hx (by omega) (.inr (by omega))
  · rw [h.scroll.shows x _ hx (by omega), scroll_shown hx (by omega), if_neg (by omega), h.shows x _ hx (by omega)]
    congr 1
    omega

theorem Faithful.perform (h : Faithful scr fb) (font : Nat → BitVec 8) {e : Effect} (hgrid : OnGrid scr e) :
    Faithful scr (perform scr font fb e) := by
  cases e with
  | putcAt c x₀ y₀ => exact h.putcAt font c hgrid
  | scroll => exact h.scroll
  | clear => exact h.clear

theorem Faithful.performAll (font : Nat → BitVec 8) : ∀ (effects : List Effect) {fb : Buffers}, Faithful scr fb →
    (∀ e ∈ effects, OnGrid scr e) → Faithful scr (effects.foldl (Framebuffer.perform scr font) fb)
  | [], _, h, _ => h
  | e :: effects, _, h, hgrid =>
    Faithful.performAll font effects (h.perform font (hgrid e List.mem_cons_self))
      fun e he => hgrid e (List.mem_cons_of_mem _ he)

end

/-! ## Every run -/

section
variable {scr : Mode} {font : Nat → BitVec 8} {s s' : Context × Buffers} {a : Act}

def Inv (scr : Mode) (s : Context × Buffers) : Prop := Aligned scr s.1 ∧ Faithful scr s.2

/-- Without a backspace, a call draws on the grid. -/
theorem act_tidy (h : Aligned scr s.1) (ha : a ≠ .putc 8#8) : Tidy scr (act scr s.1 a) :=
  step_tidy (s := (s.1, [])) ⟨h, by simp⟩ (fun he => absurd he ha) rfl

theorem step_inv (h : Inv scr s) (ha : a ≠ .putc 8#8) (hs : step scr font s a = some s') : Inv scr s' := by
  cases hs
  obtain ⟨haligned, hgrid⟩ := act_tidy h.1 ha
  exact ⟨haligned, h.2.performAll font _ hgrid⟩

theorem step_scrolls (h : Inv scr s) (ha : a ≠ .putc 8#8) : Scrolls scr font s a := by
  intro before after heffects
  have hgrid := (act_tidy h.1 ha).2
  rw [heffects] at hgrid
  exact (h.2.performAll font before fun e he => hgrid e (List.mem_append_left _ he)).scrollsText

theorem allSteps_scrolls : ∀ (acts : List Act) (s : Context × Buffers), Inv scr s → (∀ a ∈ acts, a ≠ .putc 8#8) →
    AllSteps (step scr font) (Scrolls scr font) s acts
  | [], _, _, _ => trivial
  | a :: acts, s, h, hacts => fun s' hs => by
    have ha := hacts a List.mem_cons_self
    exact ⟨step_scrolls h ha, allSteps_scrolls acts s' (step_inv h ha hs) fun b hb => hacts b (List.mem_cons_of_mem _ hb)⟩

end

theorem screen_shows_back_buffer (scr : Mode) (font : Nat → BitVec 8) (address back : Raster Pixel) (acts : List Act)
    (hacts : ∀ a ∈ acts, a ≠ .putc 8#8) :
    AllStates (step scr font) (fun s => ShowsBackBuffer scr s.2) (.setup, setup scr address back) acts ∧
      AllSteps (step scr font) (Scrolls scr font) (.setup, setup scr address back) acts := by
  have hstart : Inv scr (.setup, setup scr address back) := ⟨aligned_setup scr, faithful_setup scr address back⟩
  refine ⟨?_, allSteps_scrolls acts _ hstart hacts⟩
  exact AllStates.mono (fun _ h => h.2.shows) acts _ (allStates_of_allSteps (fun _ _ _ h ha hs => step_inv h ha hs)
    acts _ hstart (allSteps_of_forall acts _ hacts))

/-- An odd width, and a height of one row of text and a bit. -/
def narrow : Mode := ⟨17, 20, 17, by omega, by omega, by omega, by omega⟩

theorem narrow_shows_back_buffer :
    AllStates (step narrow fun _ => 0xFF#8) (fun s => ShowsBackBuffer narrow s.2)
        (.setup, setup narrow (fun _ => 1#32) fun _ => 2#32) [.putc 65#8, .putc 66#8, .clear, .putc 10#8] ∧
      AllSteps (step narrow fun _ => 0xFF#8) (Scrolls narrow fun _ => 0xFF#8)
        (.setup, setup narrow (fun _ => 1#32) fun _ => 2#32) [.putc 65#8, .putc 66#8, .clear, .putc 10#8] :=
  screen_shows_back_buffer narrow _ _ _ _ (by decide)

end BadLands.Screen.Framebuffer
