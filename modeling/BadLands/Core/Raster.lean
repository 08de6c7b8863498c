/-!
# Rasters

A raster is a memory of pixels, row after row, `stride` pixels from one row to the next; pixel `(x, y)`
is at `y * stride + x`. Programs change it run by run: a number of pixels from some place on, filled or
copied, in a loop over rows.

* `run_iff`: a run that ends before the next row is a part of one row.
* `each_hit`, `each_miss`: a loop in which a pixel is written by at most one turn.
* `block_hit`, `block_miss`: the pixels of a block, whose rows may be anywhere.
-/
namespace BadLands.Core

abbrev Raster (α : Type) := Nat → α

namespace Raster

variable {α : Type}

/-- `n` pixels from `i` on are those of `src` from `j` on. -/
def copyRun (dst : Raster α) (i : Nat) (src : Raster α) (j n : Nat) : Raster α := fun k =>
  if i ≤ k ∧ k < i + n then src (j + (k - i)) else dst k

def fillRun (dst : Raster α) (i : Nat) (p : α) (n : Nat) : Raster α := fun k =>
  if i ≤ k ∧ k < i + n then p else dst k

def put (dst : Raster α) (i : Nat) (p : α) : Raster α := fun k => if k = i then p else dst k

/-- `for (k = 0; k < n; ++k) turn`. -/
def each (turn : Raster α → Nat → Raster α) (n : Nat) (r : Raster α) : Raster α := (List.range n).foldl turn r

theorem each_succ (turn : Raster α → Nat → Raster α) (n : Nat) (r : Raster α) :
    each turn (n + 1) r = turn (each turn n r) n := by
  simp [each, List.range_succ]

/-- A run inside the row `y₀`. -/
theorem run_iff {stride x x₀ y y₀ n : Nat} (hx : x < stride) (hn : x₀ + n ≤ stride) :
    (y₀ * stride + x₀ ≤ y * stride + x ∧ y * stride + x < y₀ * stride + x₀ + n) ↔ y = y₀ ∧ x₀ ≤ x ∧ x < x₀ + n := by
  constructor
  · intro ⟨hlo, hhi⟩
    have hy : y = y₀ := by
      apply Nat.le_antisymm
      · apply Nat.le_of_not_lt
        intro h
        have := Nat.mul_le_mul_right stride h
        rw [Nat.succ_mul] at this
        omega
      · apply Nat.le_of_not_lt
        intro h
        have := Nat.mul_le_mul_right stride h
        rw [Nat.succ_mul] at this
        omega
    subst hy
    omega
  · intro ⟨hy, hlo, hhi⟩
    subst hy
    omega

theorem pixel_inj {stride x x₀ y y₀ : Nat} (hx : x < stride) (hx₀ : x₀ < stride) :
    y * stride + x = y₀ * stride + x₀ ↔ y = y₀ ∧ x = x₀ := by
  have h : (y₀ * stride + x₀ ≤ y * stride + x ∧ y * stride + x < y₀ * stride + x₀ + 1) ↔ y = y₀ ∧ x₀ ≤ x ∧ x < x₀ + 1 :=
    run_iff hx (show x₀ + 1 ≤ stride by omega)
  constructor
  · intro he
    have := h.mp (by omega)
    omega
  · intro ⟨hy, he⟩
    rw [hy, he]

theorem each_congr {turn turn' : Raster α → Nat → Raster α} {n : Nat} (h : ∀ r t, t < n → turn r t = turn' r t)
    (r : Raster α) : each turn n r = each turn' n r := by
  induction n with
  | zero => rfl
  | succ n ih =>
    rw [each_succ, each_succ, ih fun r t ht => h r t (by omega)]
    exact h _ _ (by omega)

section
variable {turn : Raster α → Nat → Raster α} {n k : Nat} (hit : Nat → Prop) (value : Nat → α)

/-- No turn writes the pixel. -/
theorem each_miss (hturn : ∀ r t, ¬ hit t → turn r t k = r k) (h : ∀ t, t < n → ¬ hit t) (r : Raster α) :
    each turn n r k = r k := by
  induction n with
  | zero => rfl
  | succ n ih =>
    rw [each_succ, hturn _ n (h n (by omega))]
    exact ih fun t ht => h t (by omega)

/-- One turn writes it, and no later one. -/
theorem each_hit (t₀ : Nat) (hwrite : ∀ r t, hit t → turn r t k = value t)
    (hturn : ∀ r t, ¬ hit t → turn r t k = r k) (ht₀ : t₀ < n) (h₀ : hit t₀) (honly : ∀ t, t < n → hit t → t = t₀)
    (r : Raster α) : each turn n r k = value t₀ := by
  induction n with
  | zero => omega
  | succ n ih =>
    rw [each_succ]
    by_cases hn : t₀ = n
    · subst hn
      exact hwrite _ _ h₀
    · rw [hturn _ n fun hlast => hn (honly n (by omega) hlast).symm]
      exact ih (by omega) fun t ht => honly t (by omega)

end

/-! ## Blocks -/

/-- `n` pixels from column `x₀` on, pixel by pixel. -/
def rowOf (stride y x₀ : Nat) (value : Nat → α) (n : Nat) (r : Raster α) : Raster α :=
  each (fun r c => put r (y * stride + (x₀ + c)) (value c)) n r

/-- `m` such rows, the rows `row 0`, `row 1` and so on. -/
def block (stride : Nat) (row : Nat → Nat) (x₀ : Nat) (value : Nat → Nat → α) (m n : Nat) (r : Raster α) : Raster α :=
  each (fun r t => rowOf stride (row t) x₀ (value t) n r) m r

section
variable {stride x x₀ y y₀ n m t : Nat} {row : Nat → Nat}

theorem rowOf_miss (hx : x < stride) (hn : x₀ + n ≤ stride) (h : ¬ (y = y₀ ∧ x₀ ≤ x ∧ x < x₀ + n)) (value : Nat → α)
    (r : Raster α) : rowOf stride y₀ x₀ value n r (y * stride + x) = r (y * stride + x) := by
  refine each_miss (fun c => y * stride + x = y₀ * stride + (x₀ + c)) (fun r t ht => if_neg ht) (fun c hc he => h ?_) r
  obtain ⟨hy, hxc⟩ := (pixel_inj hx (show x₀ + c < stride by omega)).mp he
  omega

theorem rowOf_hit (hlo : x₀ ≤ x) (hhi : x < x₀ + n) (value : Nat → α) (r : Raster α) :
    rowOf stride y x₀ value n r (y * stride + x) = value (x - x₀) := by
  have hpixel : ∀ c, c < n → y * stride + x = y * stride + (x₀ + c) → c = x - x₀ := fun c _ he => by omega
  refine each_hit (fun c => y * stride + x = y * stride + (x₀ + c)) value (x - x₀) (fun r c hc => if_pos hc) (fun r c hc => if_neg hc)
    (by omega) ?_ hpixel r
  rw [Nat.add_sub_cancel' hlo]

theorem block_miss (hx : x < stride) (hn : x₀ + n ≤ stride) (h : ∀ t, t < m → ¬ (y = row t ∧ x₀ ≤ x ∧ x < x₀ + n))
    (value : Nat → Nat → α) (r : Raster α) : block stride row x₀ value m n r (y * stride + x) = r (y * stride + x) :=
  each_miss (fun t => y = row t ∧ x₀ ≤ x ∧ x < x₀ + n) (fun _ _ ht => rowOf_miss hx hn ht _ _) h r

theorem block_hit (hx : x < stride) (hn : x₀ + n ≤ stride) (hlo : x₀ ≤ x) (hhi : x < x₀ + n) (ht : t < m)
    (hrows : ∀ t', t' < m → row t' = row t → t' = t) (value : Nat → Nat → α) (r : Raster α) :
    block stride row x₀ value m n r (row t * stride + x) = value t (x - x₀) := by
  refine each_hit (fun t' => row t = row t' ∧ x₀ ≤ x ∧ x < x₀ + n) (fun t' => value t' (x - x₀)) t
    (fun r t' ht' => ?_) (fun r t' ht' => rowOf_miss hx hn ht' _ _) ht ⟨rfl, hlo, hhi⟩ (fun t' ht' h => hrows t' ht' h.1.symm) r
  rw [ht'.1]
  exact rowOf_hit hlo hhi _ _

end

end Raster

end BadLands.Core
