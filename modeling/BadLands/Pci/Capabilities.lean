import Mathlib.Data.Finset.Card
import Mathlib.Data.Nat.Find
import Mathlib.Logic.Function.Iterate

/-!
# The search for a capability

`Interface::FindCapability` follows the next pointers of the configuration space. The first pointer is masked
to a multiple of four, the others are not, and there is no bound on their number.

* `search_at`: the run is at the pointers one after the other, until one of them ends it.
* `search_iff`: the search is right exactly when the pointers come to null or to the capability and are
  aligned up to there.
* `pointers_lt`: it then reads fewer than 64 capabilities.
-/
namespace BadLands.Pci

/-- The bytes behind `base`; the first 256 are the configuration space. -/
abbrev Bytes := Nat → BitVec 8

namespace Offsets

def CapabilitiesPointer : Nat := 0x34

end Offsets

/-- A `Capability` is its `ID` and, in the byte behind it, its `NextPointer`. -/
def ID (config : Bytes) (offset : BitVec 8) : BitVec 8 := config offset.toNat

def NextPointer (config : Bytes) (offset : BitVec 8) : BitVec 8 := config (offset.toNat + 1)

def masked (pointer : BitVec 8) : BitVec 8 := pointer &&& ~~~3#8

inductive Search
  | searching (offset : BitVec 8)
  | returned (cap : Option (BitVec 8))
  deriving DecidableEq, Repr

/-- One turn of the loop.

mirrors kernel/src/pci/Interface.cpp:73-83 -/
def turn (config : Bytes) (id : BitVec 8) : Search → Search
  | .searching offset =>
    if offset = 0 then .returned none
    else if ID config offset = id then .returned (some offset)
    else .searching (NextPointer config offset)
  | .returned cap => .returned cap

/-- mirrors kernel/src/pci/Interface.cpp:70-72 -/
def FindCapability (config : Bytes) (id : BitVec 8) (turns : Nat) : Search :=
  (turn config id)^[turns] (.searching (masked (config Offsets.CapabilitiesPointer)))

/-! ## The property -/

/-- The two low bits of a pointer are no part of it. -/
inductive Reachable (config : Bytes) : BitVec 8 → Prop
  | first : masked (config Offsets.CapabilitiesPointer) ≠ 0 → Reachable config (masked (config Offsets.CapabilitiesPointer))
  | next {offset : BitVec 8} : Reachable config offset → masked (NextPointer config offset) ≠ 0 →
      Reachable config (masked (NextPointer config offset))

/-- The search comes back, finds what can be found, and reads capabilities at aligned offsets inside the
configuration space. -/
def SearchRight (config : Bytes) (id : BitVec 8) : Prop :=
  (∃ turns cap, FindCapability config id turns = .returned cap ∧
    (cap.isSome ↔ ∃ offset, Reachable config offset ∧ ID config offset = id) ∧
    ∀ offset, cap = some offset → Reachable config offset ∧ ID config offset = id) ∧
  ∀ turns offset, FindCapability config id turns = .searching offset → offset ≠ 0 →
    4 ∣ offset.toNat ∧ offset.toNat + 1 < 256

/-- The pointers one after the other, as they are followed. -/
def pointer (config : Bytes) : Nat → BitVec 8
  | 0 => masked (config Offsets.CapabilitiesPointer)
  | i + 1 => NextPointer config (pointer config i)

/-- The pointer is null, or its capability is the one. -/
def Ends (config : Bytes) (id : BitVec 8) (i : Nat) : Prop :=
  pointer config i = 0 ∨ ID config (pointer config i) = id

instance (config : Bytes) (id : BitVec 8) (i : Nat) : Decidable (Ends config id i) := by
  unfold Ends
  infer_instance

section
variable {config : Bytes} {id : BitVec 8} {n : Nat}

/-! ## The run -/

theorem search_at : ∀ n, (∀ i < n, ¬ Ends config id i) → FindCapability config id n = .searching (pointer config n)
  | 0, _ => rfl
  | n + 1, h => by
    have hn := h n (Nat.lt_succ_self n)
    have hat := search_at n fun i hi => h i (Nat.lt_succ_of_lt hi)
    unfold FindCapability at hat ⊢
    rw [Function.iterate_succ_apply', hat, turn, if_neg fun h0 => hn (.inl h0), if_neg fun hid => hn (.inr hid), pointer]

theorem search_returned (cap : Option (BitVec 8)) (h : FindCapability config id n = .returned cap) (m : Nat) (hm : n ≤ m) :
    FindCapability config id m = .returned cap := by
  obtain ⟨k, rfl⟩ := Nat.exists_eq_add_of_le hm
  induction k with
  | zero => exact h
  | succ k ih =>
    have hk := ih (Nat.le_add_right n k)
    unfold FindCapability at hk ⊢
    rw [← Nat.add_assoc, Function.iterate_succ_apply', hk, turn]

/-- At the first pointer that ends it, the search returns. -/
theorem search_ends (hbefore : ∀ i < n, ¬ Ends config id i) (hend : Ends config id n) :
    FindCapability config id (n + 1) = .returned (if pointer config n = 0 then none else some (pointer config n)) := by
  have hat := search_at n hbefore
  unfold FindCapability at hat ⊢
  rw [Function.iterate_succ_apply', hat, turn]
  by_cases h0 : pointer config n = 0
  · rw [if_pos h0, if_pos h0]
  · rw [if_neg h0, if_neg h0, if_pos (hend.resolve_left h0)]

/-! ## The pointers -/

theorem masked_of_aligned {p : BitVec 8} (h : 4 ∣ p.toNat) : masked p = p := by
  have hall : ∀ p : BitVec 8, 4 ∣ p.toNat → masked p = p := by decide +kernel
  exact hall p h

/-- Pointers that are aligned are followed as they should be. -/
theorem pointer_masked (haligned : ∀ i ≤ n, 4 ∣ (pointer config i).toNat) {i : Nat} (hi : i < n) :
    masked (NextPointer config (pointer config i)) = pointer config (i + 1) :=
  masked_of_aligned (haligned (i + 1) hi)

theorem reachable_pointer (haligned : ∀ i ≤ n, 4 ∣ (pointer config i).toNat) :
    ∀ i ≤ n, (∀ j ≤ i, pointer config j ≠ 0) → Reachable config (pointer config i)
  | 0, _, h0 => .first (h0 0 (Nat.le_refl 0))
  | i + 1, hi, h0 => by
    have hprev := reachable_pointer haligned i (Nat.le_of_succ_le hi) fun j hj => h0 j (Nat.le_succ_of_le hj)
    rw [← pointer_masked haligned hi]
    refine .next hprev ?_
    rw [pointer_masked haligned hi]
    exact h0 (i + 1) (Nat.le_refl _)

/-- When the pointers end with null, every capability has been read. -/
theorem reachable_before (haligned : ∀ i ≤ n, 4 ∣ (pointer config i).toNat) (hnull : pointer config n = 0) {offset : BitVec 8}
    (h : Reachable config offset) : ∃ i < n, offset = pointer config i := by
  induction h with
  | first h0 =>
    refine ⟨0, Nat.pos_of_ne_zero fun hn => h0 ?_, rfl⟩
    rw [hn] at hnull
    exact hnull
  | next hprev h0 ih =>
    obtain ⟨i, hi, rfl⟩ := ih
    rw [pointer_masked haligned hi] at h0 ⊢
    refine ⟨i + 1, Nat.lt_of_le_of_ne hi fun hn => h0 ?_, rfl⟩
    rw [hn, hnull]

theorem pointer_periodic {i j : Nat} (h : pointer config i = pointer config j) :
    ∀ k, pointer config (i + k) = pointer config (j + k)
  | 0 => h
  | k + 1 => congrArg (NextPointer config) (pointer_periodic h k)

/-- No capability is read twice. -/
theorem pointers_lt (hbefore : ∀ i < n, ¬ Ends config id i) (hend : Ends config id n)
    (haligned : ∀ i ≤ n, 4 ∣ (pointer config i).toNat) : n < 64 := by
  have hdistinct : ∀ i j, i < j → j < n → pointer config i ≠ pointer config j := fun i j hij hj heq => by
    have hlast := pointer_periodic heq (n - j)
    rw [Nat.add_sub_cancel' (Nat.le_of_lt hj)] at hlast
    refine hbefore (i + (n - j)) (by omega) ?_
    unfold Ends
    rw [hlast]
    exact hend
  by_contra hlong
  have hquarter : ∀ i ∈ Finset.range n, (pointer config i).toNat / 4 - 1 ∈ Finset.range 63 := fun i hi => by
    have hlt := (pointer config i).isLt
    rw [Finset.mem_range] at hi ⊢
    omega
  have hfew : (Finset.range 63).card < (Finset.range n).card := by
    rw [Finset.card_range, Finset.card_range]
    omega
  obtain ⟨i, hi, j, hj, hne, hsame⟩ := Finset.exists_ne_map_eq_of_card_lt_of_maps_to hfew hquarter
  rw [Finset.mem_range] at hi hj
  have hpos : ∀ k < n, (pointer config k).toNat ≠ 0 := fun k hk h0 =>
    hbefore k hk (.inl (BitVec.eq_of_toNat_eq h0))
  have hi0 := hpos i hi
  have hj0 := hpos j hj
  have hi4 := haligned i (Nat.le_of_lt hi)
  have hj4 := haligned j (Nat.le_of_lt hj)
  have heq : pointer config i = pointer config j := BitVec.eq_of_toNat_eq (by omega)
  rcases Nat.lt_or_gt_of_ne hne with hlt | hlt
  · exact hdistinct i j hlt hj heq
  · exact hdistinct j i hlt hi heq.symm

end

/-- For every contents of the configuration space and every id: the search is right exactly when one of the pointers is
null or leads to the capability, and all of them up to that one are multiples of four. -/
theorem search_iff (config : Bytes) (id : BitVec 8) :
    SearchRight config id ↔ ∃ n, Ends config id n ∧ ∀ i ≤ n, 4 ∣ (pointer config i).toNat := by
  constructor
  · rintro ⟨⟨turns, cap, hrun, -⟩, hreads⟩
    have hends : ∃ n, Ends config id n := by
      by_contra h
      rw [search_at turns fun i _ hi => h ⟨i, hi⟩] at hrun
      cases hrun
    refine ⟨Nat.find hends, Nat.find_spec hends, fun i hi => ?_⟩
    by_cases h0 : pointer config i = 0
    · rw [h0]
      exact Nat.dvd_zero 4
    · exact (hreads i _ (search_at i fun j hj => Nat.find_min hends (Nat.lt_of_lt_of_le hj hi)) h0).1
  · rintro ⟨m, hm, haligned⟩
    have hends : ∃ n, Ends config id n := ⟨m, hm⟩
    obtain ⟨n, hn, hbefore, hle⟩ : ∃ n, Ends config id n ∧ (∀ i < n, ¬ Ends config id i) ∧ n ≤ m :=
      ⟨Nat.find hends, Nat.find_spec hends, fun _ hi => Nat.find_min hends hi, Nat.find_min' hends hm⟩
    replace haligned : ∀ i ≤ n, 4 ∣ (pointer config i).toNat := fun i hi => haligned i (Nat.le_trans hi hle)
    have hreturned := search_ends hbefore hn
    have hfound : pointer config n ≠ 0 → Reachable config (pointer config n) ∧ ID config (pointer config n) = id :=
        fun h0 => by
      refine ⟨reachable_pointer haligned n (Nat.le_refl n) fun j hj => ?_, hn.resolve_left h0⟩
      rcases Nat.lt_or_eq_of_le hj with hlt | rfl
      · exact fun hj0 => hbefore j hlt (.inl hj0)
      · exact h0
    refine ⟨⟨n + 1, _, hreturned, ?_, fun offset hoffset => ?_⟩, fun turns offset hat _ => ?_⟩
    · by_cases h0 : pointer config n = 0
      · rw [if_pos h0]
        refine ⟨nofun, ?_⟩
        rintro ⟨offset, hreachable, hid⟩
        obtain ⟨i, hi, rfl⟩ := reachable_before haligned h0 hreachable
        exact absurd (.inr hid) (hbefore i hi)
      · rw [if_neg h0]
        exact ⟨fun _ => ⟨_, hfound h0⟩, fun _ => rfl⟩
    · split at hoffset
      · cases hoffset
      · next h0 =>
        cases hoffset
        exact hfound h0
    · rcases Nat.lt_or_ge n turns with hafter | hle
      · rw [search_returned _ hreturned turns hafter] at hat
        cases hat
      · rw [search_at turns fun i hi => hbefore i (Nat.lt_of_lt_of_le hi hle)] at hat
        cases hat
        obtain ⟨q, hq⟩ := haligned turns hle
        have hlt := (pointer config turns).isLt
        exact ⟨⟨q, hq⟩, by omega⟩

/-- The list that is read from its head to the last capability. -/
theorem search_last : SearchRight (fun i => if i = 0x34 then 0x50 else if i = 0x50 then 5 else if i = 0x51 then 0x40 else 0) 0x11 :=
  (search_iff _ 0x11).mpr ⟨2, by decide, by decide⟩

/-- A capability that is its own successor. -/
theorem search_cycles : ¬ ∀ (config : Bytes) (id : BitVec 8), SearchRight config id := by
  intro h
  obtain ⟨⟨turns, cap, hrun, -⟩, -⟩ := h (fun i => if i = 0x34 then 0x40 else if i = 0x40 then 1 else 0x40) 5
  have hcycle : ∀ i, pointer (fun i => if i = 0x34 then 0x40 else if i = 0x40 then 1 else 0x40) i = 0x40 := fun i => by
    induction i with
    | zero => rfl
    | succ i ih =>
      rw [pointer, ih]
      rfl
  rw [search_at turns fun i _ hi => by
    unfold Ends at hi
    rw [hcycle i] at hi
    revert hi
    decide] at hrun
  cases hrun

end BadLands.Pci
