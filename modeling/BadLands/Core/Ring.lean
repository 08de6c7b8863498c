import Mathlib.Data.List.Basic

/-!
# Bounded FIFO queues in a ring

A queue of at most `cap` entries in an array, with `head`, `tail` and `count`; the index
invariants are fields. A push to a full queue is dropped.

`entries` is the queue as a list, oldest first; `entries_push` and `entries_pop` say that the
ring operations are the list operations.
-/
namespace BadLands.Core

structure Ring (α : Type) (cap : Nat) where
  slots : Nat → α
  head : Nat
  tail : Nat
  count : Nat
  head_lt : head < cap
  count_le : count ≤ cap
  tail_eq : tail = (head + count) % cap

namespace Ring

variable {α : Type} {cap : Nat}

def empty (slots : Nat → α) (h : 0 < cap) : Ring α cap :=
  ⟨slots, 0, 0, 0, h, Nat.zero_le _, (Nat.zero_mod cap).symm⟩

def isEmpty (r : Ring α cap) : Bool := r.count == 0

def isFull (r : Ring α cap) : Bool := r.count == cap

theorem tail_step (r : Ring α cap) : (r.tail + 1) % cap = (r.head + (r.count + 1)) % cap := by
  rw [r.tail_eq, Nat.mod_add_mod, Nat.add_assoc]

theorem head_step {r : Ring α cap} (h : r.count ≠ 0) :
    r.tail = ((r.head + 1) % cap + (r.count - 1)) % cap := by
  rw [r.tail_eq, Nat.mod_add_mod]
  congr 1
  omega

def push (r : Ring α cap) (a : α) : Ring α cap :=
  if h : r.count = cap then r
  else ⟨fun i => if i = r.tail then a else r.slots i, r.head, (r.tail + 1) % cap, r.count + 1,
    r.head_lt, Nat.lt_of_le_of_ne r.count_le h, r.tail_step⟩

def pop (r : Ring α cap) : Option α × Ring α cap :=
  if h : r.count = 0 then (none, r)
  else (some (r.slots r.head), ⟨r.slots, (r.head + 1) % cap, r.tail, r.count - 1,
    Nat.mod_lt _ (Nat.zero_lt_of_lt r.head_lt), Nat.le_trans (Nat.sub_le _ _) r.count_le, head_step h⟩)

/-- The queue, oldest entry first. -/
def entries (r : Ring α cap) : List α := (List.range r.count).map fun k => r.slots ((r.head + k) % cap)

theorem length_entries (r : Ring α cap) : r.entries.length = r.count := by simp [entries]

theorem isEmpty_iff (r : Ring α cap) : r.isEmpty = true ↔ r.entries = [] := by
  rw [isEmpty, beq_iff_eq, ← length_entries, List.length_eq_zero_iff]

/-- Two slots of the ring within `cap` of each other are different. -/
theorem slot_ne {h i j cap : Nat} (hh : h < cap) (hj : j ≤ cap) (hij : i < j) (hi : i + cap ≠ j) :
    (h + i) % cap ≠ (h + j) % cap := by
  intro he
  have h1 : (h + i) % cap = if h + i < cap then h + i else h + i - cap := by
    split
    · exact Nat.mod_eq_of_lt ‹_›
    · rw [Nat.mod_eq_sub_mod (by omega), Nat.mod_eq_of_lt (by omega)]
  have h2 : (h + j) % cap = if h + j < cap then h + j else h + j - cap := by
    split
    · exact Nat.mod_eq_of_lt ‹_›
    · rw [Nat.mod_eq_sub_mod (by omega)]
      by_cases hjc : h + j - cap < cap
      · exact Nat.mod_eq_of_lt hjc
      · omega
  rw [h1, h2] at he
  split at he <;> split at he <;> omega

theorem entries_push (r : Ring α cap) (a : α) :
    (r.push a).entries = if r.isFull then r.entries else r.entries ++ [a] := by
  unfold push isFull
  by_cases h : r.count = cap
  · rw [dif_pos h, if_pos (by simpa using h)]
  · have hlt : r.count < cap := Nat.lt_of_le_of_ne r.count_le h
    rw [dif_neg h, if_neg (by simpa using h)]
    simp only [entries, List.range_succ, List.map_append, List.map_cons, List.map_nil, r.tail_eq,
      if_true]
    congr 1
    refine List.map_congr_left fun k hk => if_neg ?_
    rw [List.mem_range] at hk
    exact slot_ne r.head_lt r.count_le hk (by omega)

theorem entries_pop (r : Ring α cap) :
    r.pop.1 = r.entries.head? ∧ r.pop.2.entries = r.entries.tail := by
  unfold pop
  by_cases h : r.count = 0
  · rw [dif_pos h]
    have : r.entries = [] := by rw [entries, h]; rfl
    simp [this]
  · obtain ⟨n, hn⟩ := Nat.exists_eq_succ_of_ne_zero h
    rw [dif_neg h]
    have hcons : r.entries = r.slots r.head ::
        (List.range n).map fun k => r.slots ((r.head + (k + 1)) % cap) := by
      rw [entries, hn, List.range_succ_eq_map, List.map_cons, List.map_map, Nat.add_zero,
        Nat.mod_eq_of_lt r.head_lt]
      rfl
    refine ⟨by rw [hcons]; rfl, ?_⟩
    rw [hcons, List.tail_cons, entries]
    simp only [hn, Nat.succ_sub_one]
    refine List.map_congr_left fun k _ => ?_
    rw [Nat.mod_add_mod]
    congr 2
    omega

end Ring

end BadLands.Core
