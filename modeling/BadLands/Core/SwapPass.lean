import Mathlib.Data.List.Pairwise
import Mathlib.Order.Lattice

/-!
# One pass of adjacent swaps

A pass goes through a list once and swaps an element back, by one place, when the one before it is greater: the greatest element
so far is carried along. `pass_perm`: it is a permutation. `pass_sorted_iff`: it sorts exactly the lists in which no element has
two greater ones before it.
-/
namespace BadLands.Core.SwapPass

variable {α β : Type} [LinearOrder β] (key : α → β)

/-- The rest of a pass, with the element that was carried so far. -/
def carry : α → List α → List α
  | x, [] => [x]
  | x, y :: ys => if key y < key x then y :: carry x ys else x :: carry y ys

def pass : List α → List α
  | [] => []
  | x :: xs => carry key x xs

/-- No element has two greater ones before it. -/
def Near (l : List α) : Prop := ∀ a b c, List.Sublist [a, b, c] l → key a ≤ key c ∨ key b ≤ key c

variable {key}

theorem carry_perm (x : α) (xs : List α) : (carry key x xs).Perm (x :: xs) := by
  induction xs generalizing x with
  | nil => exact .refl _
  | cons y ys ih =>
    unfold carry
    split
    · exact ((ih x).cons y).trans (.swap x y ys)
    · exact (ih y).cons x

theorem pass_perm (l : List α) : (pass key l).Perm l := by
  cases l with
  | nil => exact .refl _
  | cons x xs => exact carry_perm x xs

theorem Near.sublist {l l' : List α} (h : Near key l) (hl : l'.Sublist l) : Near key l' :=
  fun a b c hs => h a b c (hs.trans hl)

/-- Only the keys count. -/
theorem near_map (l : List α) : Near key l ↔ Near id (l.map key) := by
  constructor
  · intro h a b c hs
    obtain ⟨l', hl', heq⟩ := List.sublist_map_iff.mp hs
    match l', heq with
    | [x, y, z], heq =>
      simp only [List.map_cons, List.map_nil, List.cons.injEq, and_true] at heq
      obtain ⟨rfl, rfl, rfl⟩ := heq
      exact h x y z hl'
  · exact fun h a b c hs => h (key a) (key b) (key c) (hs.map key)

/-- An element that is not greater than those behind it. -/
theorem near_cons {x : α} {xs : List α} (hx : ∀ y ∈ xs, key x ≤ key y) (h : Near key xs) : Near key (x :: xs) := by
  intro a b c hs
  cases hs with
  | cons _ hs => exact h a b c hs
  | cons_cons _ hs => exact .inl (hx c (hs.subset (by simp)))

theorem near_swap {x y : α} {ys : List α} (hy : ∀ z ∈ ys, key y ≤ key z) (h : Near key (x :: ys)) : Near key (x :: y :: ys) := by
  intro a b c hs
  cases hs with
  | cons _ hs => exact near_cons hy (h.sublist (List.sublist_cons_self x ys)) a b c hs
  | cons_cons _ hs =>
    cases hs with
    | cons _ hs => exact h _ b c (hs.cons_cons _)
    | cons_cons _ hs => exact .inr (hy c (hs.subset (by simp)))

theorem carry_sorted_iff (x : α) (xs : List α) :
    (carry key x xs).Pairwise (fun a b => key a ≤ key b) ↔ Near key (x :: xs) := by
  induction xs generalizing x with
  | nil =>
    refine ⟨fun _ a b c hs => ?_, fun _ => List.pairwise_singleton _ _⟩
    have hlength := hs.length_le
    simp at hlength
  | cons y ys ih =>
    unfold carry
    split
    · next hlt =>
      rw [List.pairwise_cons, ih x]
      refine ⟨fun ⟨hy, h⟩ => near_swap (fun z hz => hy z ?_) h, fun h => ⟨fun z hz => ?_, h.sublist ?_⟩⟩
      · exact (carry_perm x ys).mem_iff.mpr (List.mem_cons_of_mem x hz)
      · rcases List.mem_cons.mp ((carry_perm x ys).mem_iff.mp hz) with rfl | hz
        · exact le_of_lt hlt
        · -- an element below `y` is below `x` too
          refine (h x y z (((List.singleton_sublist.mpr hz).cons_cons y).cons_cons x)).elim (fun hx => ?_) id
          exact le_trans (le_of_lt hlt) hx
      · exact (List.sublist_cons_self y ys).cons_cons x
    · next hge =>
      have hle := not_lt.mp hge
      rw [List.pairwise_cons, ih y]
      refine ⟨fun ⟨hx, h⟩ => near_cons (fun z hz => hx z ?_) h, fun h => ⟨fun z hz => ?_, h.sublist (List.sublist_cons_self _ _)⟩⟩
      · exact (carry_perm y ys).mem_iff.mpr hz
      · rcases List.mem_cons.mp ((carry_perm y ys).mem_iff.mp hz) with rfl | hz
        · exact hle
        · refine (h x y z (((List.singleton_sublist.mpr hz).cons_cons y).cons_cons x)).elim id fun hy => ?_
          exact le_trans hle hy

theorem pass_sorted_iff (l : List α) : (pass key l).Pairwise (fun a b => key a ≤ key b) ↔ Near key l := by
  cases l with
  | nil =>
    refine ⟨fun _ a b c hs => ?_, fun _ => List.Pairwise.nil⟩
    have hlength := hs.length_le
    simp at hlength
  | cons x xs => exact carry_sorted_iff x xs

end BadLands.Core.SwapPass
