import Mathlib.Data.List.Basic

/-!
# Arrays with bounds

An array is the list of its cells; a write outside of it is `none`. Texts are moved up in place by
two loops: `moveUp` begins at the last cell and `copyUp` at the first.

* `writes_eq`, `writes_none`: a text that is written cell by cell.
* `moveUp_spec`: the text arrives.
* `copyUp_spec`: what lies between the text and where it begins now arrives, again and again.
-/
namespace BadLands.Core.Cells

variable {α : Type} {b : List α} {i n s : Nat} {x : α} {xs : List α}

def write (b : List α) (i : Nat) (x : α) : Option (List α) := if i < b.length then some (b.set i x) else none

/-- One cell after the other, from cell `i` on. -/
def writes : List α → Nat → List α → Option (List α)
  | b, _, [] => some b
  | b, i, x :: xs => (write b i x).bind fun b => writes b (i + 1) xs

/-- The first `n` cells, each `s` cells up, from the last one down. -/
def moveUp (s : Nat) : Nat → List α → Option (List α)
  | 0, b => some b
  | n + 1, b => b[n]?.bind fun x => (write b (n + s) x).bind (moveUp s n)

/-- `n` cells from cell `i` on, each `s` cells up, from the first one on. -/
def copyUp (s : Nat) : Nat → Nat → List α → Option (List α)
  | 0, _, b => some b
  | n + 1, i, b => b[i]?.bind fun x => (write b (i + s) x).bind (copyUp s n (i + 1))

/-! ## Writing -/

theorem write_eq (h : i < b.length) : write b i x = some (b.set i x) := if_pos h

theorem write_none (h : b.length ≤ i) : write b i x = none := if_neg (Nat.not_lt.mpr h)

theorem writes_eq : ∀ (xs b : List α) (i : Nat), i + xs.length ≤ b.length →
    writes b i xs = some (b.take i ++ xs ++ b.drop (i + xs.length))
  | [], b, i, _ => by simp [writes]
  | x :: xs, b, i, h => by
    rw [List.length_cons] at h
    have hi : i < b.length := by omega
    rw [writes, write_eq hi, Option.bind_some, writes_eq xs (b.set i x) (i + 1) (by rw [List.length_set]; omega)]
    have htake : (b.set i x).take (i + 1) = b.take i ++ [x] := by
      rw [List.take_add_one, List.take_set_of_le (Nat.le_refl i), List.getElem?_set_self hi]
      rfl
    have hdrop : (b.set i x).drop (i + 1 + xs.length) = b.drop (i + (xs.length + 1)) := by
      rw [List.drop_set_of_lt (by omega), show i + 1 + xs.length = i + (xs.length + 1) by omega]
    rw [htake, hdrop, List.length_cons, List.append_assoc (b.take i), List.singleton_append]

theorem writes_none : ∀ (xs b : List α) (i : Nat), i ≤ b.length → b.length < i + xs.length → writes b i xs = none
  | [], b, i, hi, h => by
    rw [List.length_nil] at h
    omega
  | x :: xs, b, i, hi, h => by
    rw [List.length_cons] at h
    rw [writes]
    rcases Nat.lt_or_ge i b.length with hlt | hge
    · rw [write_eq hlt, Option.bind_some]
      exact writes_none xs _ (i + 1) (by rw [List.length_set]; omega) (by rw [List.length_set]; omega)
    · rw [write_none hge, Option.bind_none]

/-! ## Moving a text up -/

theorem moveUp_spec (s : Nat) : ∀ (n : Nat) (b : List α), n + s ≤ b.length →
    ∃ b', moveUp s n b = some b' ∧ b'.length = b.length ∧
      ∀ k, b'[k]? = if s ≤ k ∧ k < s + n then b[k - s]? else b[k]?
  | 0, b, h => ⟨b, rfl, rfl, fun k => (if_neg (by omega)).symm⟩
  | n + 1, b, h => by
    have hn : n < b.length := by omega
    obtain ⟨b', hrun, hlength, hcells⟩ := moveUp_spec s n (b.set (n + s) b[n]) (by rw [List.length_set]; omega)
    refine ⟨b', ?_, hlength.trans List.length_set, fun k => ?_⟩
    · rw [moveUp, List.getElem?_eq_getElem hn, Option.bind_some, write_eq (by omega), Option.bind_some]
      exact hrun
    · rw [hcells, List.getElem?_set, List.getElem?_set]
      by_cases hlast : n + s = k
      · subst hlast
        rw [if_neg (by omega), if_pos rfl, if_pos (by omega), if_pos (by omega), Nat.add_sub_cancel,
          List.getElem?_eq_getElem hn]
      · by_cases hin : s ≤ k ∧ k < s + n
        · rw [if_pos hin, if_neg (by omega), if_pos (by omega)]
        · rw [if_neg hin, if_neg hlast, if_neg (by omega)]

/-- The cells behind the first `s` repeat them, as far as the loop has come. -/
theorem copyUp_from (hs : 0 < s) {b₀ : List α} : ∀ (n i : Nat) (b : List α), b.length = b₀.length →
    (∀ k, b[k]? = if s ≤ k ∧ k < s + i then b₀[k % s]? else b₀[k]?) → i + n + s ≤ b₀.length →
    ∃ b', copyUp s n i b = some b' ∧ b'.length = b₀.length ∧
      ∀ k, b'[k]? = if s ≤ k ∧ k < s + (i + n) then b₀[k % s]? else b₀[k]?
  | 0, i, b, hlength, hcells, _ => ⟨b, rfl, hlength, hcells⟩
  | n + 1, i, b, hlength, hcells, hfit => by
    have hi : i < b.length := by omega
    have hread : b[i]? = b₀[(i + s) % s]? := by
      rw [hcells, Nat.add_mod_right]
      split
      · rfl
      · next hout => rw [Nat.mod_eq_of_lt (by omega)]
    have hnext : ∀ k, (b.set (i + s) b[i])[k]? = if s ≤ k ∧ k < s + (i + 1) then b₀[k % s]? else b₀[k]? := fun k => by
      rw [List.getElem?_set]
      by_cases hlast : i + s = k
      · subst hlast
        rw [if_pos rfl, if_pos (by omega), if_pos (by omega), ← hread, List.getElem?_eq_getElem hi]
      · rw [if_neg hlast, hcells]
        by_cases hin : s ≤ k ∧ k < s + i
        · rw [if_pos hin, if_pos (by omega)]
        · rw [if_neg hin, if_neg (by omega)]
    obtain ⟨b', hrun, hlength', hcells'⟩ := copyUp_from hs n (i + 1) (b.set (i + s) b[i])
      (List.length_set.trans hlength) hnext (by omega)
    refine ⟨b', ?_, hlength', fun k => ?_⟩
    · rw [copyUp, List.getElem?_eq_getElem hi, Option.bind_some, write_eq (by omega), Option.bind_some]
      exact hrun
    · rw [hcells', show i + 1 + n = i + (n + 1) by omega]

theorem copyUp_spec (hs : 0 < s) (b : List α) (h : n + s ≤ b.length) :
    ∃ b', copyUp s n 0 b = some b' ∧ b'.length = b.length ∧
      ∀ k, b'[k]? = if s ≤ k ∧ k < s + n then b[k % s]? else b[k]? := by
  obtain ⟨b', hrun, hlength, hcells⟩ := copyUp_from hs n 0 b rfl (fun k => (if_neg (by omega)).symm) (by omega)
  rw [Nat.zero_add] at hcells
  exact ⟨b', hrun, hlength, hcells⟩

end BadLands.Core.Cells
