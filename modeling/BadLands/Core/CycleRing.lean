/-!
# Rings synchronised by a cycle bit

A producer writes entries one after the other into a ring of `cap` slots that starts cleared.
All it shares with the consumer is one bit of each entry: set on the first lap, toggled at
every wrap (`lapCycle`). The consumer takes the entry at its slot when the bit is the one of
its own lap.

`Holds cap cycle slots w`: the ring after the entries `w` were written. The rules: a write
keeps it (`Holds.push`); a consumer that has taken `r` entries and is at most one lap behind
finds an entry exactly when there is one, and then it is the `r`-th (`Holds.ready`,
`Holds.entry`); the slot of the next write always has the bit of the lap before
(`Holds.stale`). A pointer and a bit that are advanced slot by slot are `n % cap` and
`lapCycle cap n` (`next_slot`, `next_cycle`); `n / cap` laps are done (`next_lap`).
-/
namespace BadLands.Core.CycleRing

/-- The bit of the `n`-th entry. -/
def lapCycle (cap n : Nat) : Bool := n / cap % 2 == 0

structure Holds {α : Type} (cap : Nat) (cycle : α → Bool) (slots : Nat → α) (w : List α) : Prop where
  kept : ∀ j t, w[j]? = some t → w.length ≤ j + cap → slots (j % cap) = t
  blank : ∀ i, i < cap → w.length ≤ i → cycle (slots i) = false
  stamped : ∀ j t, w[j]? = some t → cycle t = lapCycle cap j

def write {α : Type} (slots : Nat → α) (i : Nat) (t : α) : Nat → α := fun k => if k = i then t else slots k

theorem write_same {α : Type} (slots : Nat → α) (i : Nat) (t : α) : write slots i t i = t := if_pos rfl

theorem write_other {α : Type} (slots : Nat → α) {i k : Nat} (t : α) (h : k ≠ i) :
    write slots i t k = slots k := if_neg h

/-! ## Laps -/

section
variable {cap n : Nat}

theorem lapCycle_first (h : n < cap) : lapCycle cap n = true := by
  unfold lapCycle
  rw [Nat.div_eq_of_lt h]
  rfl

theorem lapCycle_lap (hcap : 0 < cap) : lapCycle cap (n + cap) = !lapCycle cap n := by
  unfold lapCycle
  rw [Nat.add_div_right n hcap]
  generalize n / cap = q
  rcases Nat.mod_two_eq_zero_or_one q with h | h
  · rw [show (q + 1) % 2 = 1 by omega, h]
    rfl
  · rw [show (q + 1) % 2 = 0 by omega, h]
    rfl

/-- Positions less than a lap apart have different slots. -/
theorem slot_ne {j : Nat} (hj : j < n) (hn : n < j + cap) : j % cap ≠ n % cap := by
  intro he
  have hzero := Nat.sub_mod_eq_zero_of_mod_eq he.symm
  rw [Nat.mod_eq_of_lt (show n - j < cap by omega)] at hzero
  omega

theorem next_slot (hcap : 0 < cap) :
    (n + 1) % cap = if n % cap + 1 ≥ cap then 0 else n % cap + 1 := by
  have hlt := Nat.mod_lt n hcap
  rw [← Nat.mod_add_mod]
  split
  · rw [show n % cap + 1 = cap by omega, Nat.mod_self]
  · exact Nat.mod_eq_of_lt (by omega)

theorem next_lap (hcap : 0 < cap) :
    (n + 1) / cap = if n % cap + 1 ≥ cap then n / cap + 1 else n / cap := by
  have hlt := Nat.mod_lt n hcap
  have hn := Nat.div_add_mod n cap
  split
  · rw [show n + 1 = cap * (n / cap) + cap by omega, Nat.mul_add_div hcap, Nat.div_self hcap]
  · rw [show n + 1 = cap * (n / cap) + (n % cap + 1) by omega, Nat.mul_add_div hcap,
      Nat.div_eq_of_lt (show n % cap + 1 < cap by omega), Nat.add_zero]

theorem next_cycle (hcap : 0 < cap) :
    lapCycle cap (n + 1) = if n % cap + 1 ≥ cap then !lapCycle cap n else lapCycle cap n := by
  rw [← lapCycle_lap hcap]
  unfold lapCycle
  rw [next_lap hcap, Nat.add_div_right n hcap]
  split
  · rfl
  · rfl

end

/-! ## Writes and reads -/

section
variable {α : Type} {cap : Nat} {cycle : α → Bool} {slots : Nat → α} {w : List α}

theorem holds_nil (h : ∀ i, cycle (slots i) = false) : Holds cap cycle slots [] where
  kept _ _ ht := by simp at ht
  blank i _ _ := h i
  stamped _ _ ht := by simp at ht

theorem Holds.push (h : Holds cap cycle slots w) {t : α} (ht : cycle t = lapCycle cap w.length) :
    Holds cap cycle (write slots (w.length % cap) t) (w ++ [t]) where
  kept j t' hj hlap := by
    rw [List.length_append, List.length_singleton] at hlap
    by_cases hlt : j < w.length
    · rw [List.getElem?_append_left hlt] at hj
      rw [write_other _ _ (slot_ne hlt (by omega))]
      exact h.kept j t' hj (by omega)
    · have hjlen : j = w.length := by
        obtain ⟨hbound, -⟩ := List.getElem?_eq_some_iff.mp hj
        rw [List.length_append, List.length_singleton] at hbound
        omega
      subst hjlen
      rw [List.getElem?_concat_length, Option.some.injEq] at hj
      rw [write_same, hj]
  blank i hi hlen := by
    rw [List.length_append, List.length_singleton] at hlen
    have hne : i ≠ w.length % cap := by
      rw [Nat.mod_eq_of_lt (by omega)]
      omega
    rw [write_other _ _ hne]
    exact h.blank i hi (by omega)
  stamped j t' hj := by
    by_cases hlt : j < w.length
    · rw [List.getElem?_append_left hlt] at hj
      exact h.stamped j t' hj
    · have hjlen : j = w.length := by
        obtain ⟨hbound, -⟩ := List.getElem?_eq_some_iff.mp hj
        rw [List.length_append, List.length_singleton] at hbound
        omega
      subst hjlen
      rw [List.getElem?_concat_length, Option.some.injEq] at hj
      rw [← hj, ht]

/-- The `r`-th entry, read by a consumer that is at most one lap behind. -/
theorem Holds.entry (h : Holds cap cycle slots w) {r : Nat} (hlap : w.length ≤ r + cap)
    (hr : r < w.length) : slots (r % cap) = w[r] :=
  h.kept r w[r] (List.getElem?_eq_getElem hr) hlap

/-- The slot of the next write was written one lap before, or never. -/
theorem Holds.stale (h : Holds cap cycle slots w) (hcap : 0 < cap) :
    cycle (slots (w.length % cap)) = !lapCycle cap w.length := by
  by_cases hfirst : w.length < cap
  · rw [Nat.mod_eq_of_lt hfirst, h.blank _ hfirst (Nat.le_refl _), lapCycle_first hfirst]
    rfl
  · obtain ⟨j, hj⟩ : ∃ j, w.length = j + cap := ⟨w.length - cap, by omega⟩
    have hjlt : j < w.length := by omega
    have hslot : slots (w.length % cap) = w[j] := by
      rw [hj, Nat.add_mod_right]
      exact h.entry (by omega) hjlt
    rw [hslot, h.stamped j w[j] (List.getElem?_eq_getElem hjlt)]
    rw [show lapCycle cap w.length = !lapCycle cap j by rw [hj, lapCycle_lap hcap], Bool.not_not]

/-- The bit says whether there is an entry. -/
theorem Holds.ready (h : Holds cap cycle slots w) (hcap : 0 < cap) {r : Nat} (hr : r ≤ w.length)
    (hlap : w.length ≤ r + cap) : cycle (slots (r % cap)) = lapCycle cap r ↔ r < w.length := by
  constructor
  · intro he
    apply Decidable.byContradiction
    intro hn
    have hlen : r = w.length := by omega
    rw [hlen, h.stale hcap] at he
    cases hb : lapCycle cap w.length <;> rw [hb] at he <;> cases he
  · intro hlt
    rw [h.entry hlap hlt]
    exact h.stamped r w[r] (List.getElem?_eq_getElem hlt)

end

end BadLands.Core.CycleRing
