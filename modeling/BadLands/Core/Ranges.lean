/-!
# Address ranges

A range is a start and a size. `Packed l` says that the ranges of `l` are pairwise
disjoint; it does not depend on their order (`packed_perm`), so an allocator's invariant
can be proved on whatever order is convenient. `Inside r l` says that `r` lies within one
range of `l`, `Holds l a` that address `a` is in one of them.

The rules an allocator needs: cut a range in two (`packed_cut`, `holds_cut`), and add a range
that avoids everything the others lie in (`packed_fresh`).
-/
namespace BadLands.Core.Ranges

structure Range where
  start : Nat
  size : Nat
  deriving DecidableEq, Repr

def Range.Disj (a b : Range) : Prop := a.start + a.size ≤ b.start ∨ b.start + b.size ≤ a.start

/-- Every address of `a` is one of `b`. -/
def Range.Sub (a b : Range) : Prop := b.start ≤ a.start ∧ a.start + a.size ≤ b.start + b.size

def Range.Has (r : Range) (a : Nat) : Prop := r.start ≤ a ∧ a < r.start + r.size

def Packed (l : List Range) : Prop := l.Pairwise Range.Disj

def Inside (r : Range) (l : List Range) : Prop := ∃ z ∈ l, r.Sub z

def Holds (l : List Range) (a : Nat) : Prop := ∃ r ∈ l, r.Has a

instance (a b : Range) : Decidable (a.Disj b) := inferInstanceAs (Decidable (_ ∨ _))

instance (a b : Range) : Decidable (a.Sub b) := inferInstanceAs (Decidable (_ ∧ _))

theorem disj_symm {a b : Range} (h : a.Disj b) : b.Disj a := Or.symm h

theorem sub_trans {a b c : Range} (h : a.Sub b) (h' : b.Sub c) : a.Sub c :=
  ⟨Nat.le_trans h'.1 h.1, Nat.le_trans h.2 h'.2⟩

theorem disj_of_sub {a b c : Range} (h : a.Sub b) (hd : b.Disj c) : a.Disj c := by
  unfold Range.Sub Range.Disj at *
  omega

theorem packed_perm {l l' : List Range} (h : l.Perm l') : Packed l ↔ Packed l' :=
  h.pairwise_iff disj_symm

theorem packed_cons {r : Range} {l : List Range} :
    Packed (r :: l) ↔ (∀ x ∈ l, r.Disj x) ∧ Packed l := List.pairwise_cons

theorem packed_disj {r r' : Range} {l : List Range} (h : Packed l) (hr : r ∈ l) (hr' : r' ∈ l)
    (hne : r ≠ r') : r.Disj r' := by
  have hp := (packed_perm (List.perm_cons_erase hr)).mp h
  exact (packed_cons.mp hp).1 r' ((List.mem_erase_of_ne hne.symm).mpr hr')

/-- Shrinking one range keeps the rest apart from it. -/
theorem packed_sub {r r' : Range} {l : List Range} (h : Packed (r :: l)) (hs : r'.Sub r) :
    Packed (r' :: l) := by
  rw [packed_cons] at h ⊢
  exact ⟨fun x hx => disj_of_sub hs (h.1 x hx), h.2⟩

/-- Cutting a range in two. -/
theorem packed_cut {s m n : Nat} {l : List Range} (h : Packed (⟨s, m + n⟩ :: l)) :
    Packed (⟨s + m, n⟩ :: ⟨s, m⟩ :: l) := by
  have h1 : Packed (⟨s, m⟩ :: l) := packed_sub h ⟨Nat.le_refl _, by simp only; omega⟩
  have h2 : Packed (⟨s + m, n⟩ :: l) :=
    packed_sub h ⟨by simp only; omega, by simp only; omega⟩
  rw [packed_cons] at h2 ⊢
  refine ⟨fun x hx => ?_, h1⟩
  rcases List.mem_cons.mp hx with hx | hx
  · subst hx
    exact .inr (Nat.le_refl _)
  · exact h2.1 x hx

theorem holds_cons {r : Range} {l : List Range} {a : Nat} :
    Holds (r :: l) a ↔ r.Has a ∨ Holds l a := by
  simp [Holds]

theorem holds_append {l l' : List Range} {a : Nat} : Holds (l ++ l') a ↔ Holds l a ∨ Holds l' a := by
  simp [Holds, or_and_right, exists_or]

theorem holds_perm {l l' : List Range} (h : l.Perm l') (a : Nat) : Holds l a ↔ Holds l' a := by
  unfold Holds
  refine ⟨fun ⟨r, hr, ha⟩ => ⟨r, h.mem_iff.mp hr, ha⟩, fun ⟨r, hr, ha⟩ => ⟨r, h.mem_iff.mpr hr, ha⟩⟩

theorem holds_cut {s m n : Nat} {l : List Range} (a : Nat) :
    Holds (⟨s + m, n⟩ :: ⟨s, m⟩ :: l) a ↔ Holds (⟨s, m + n⟩ :: l) a := by
  simp only [holds_cons, Range.Has, ← or_assoc]
  refine or_congr_left ?_
  omega

theorem sub_of_has {r z : Range} (h0 : 0 < r.size) (h : ∀ a, r.Has a → z.Has a) : r.Sub z := by
  have hfirst := h r.start ⟨Nat.le_refl _, by omega⟩
  have hlast := h (r.start + r.size - 1) ⟨by omega, by omega⟩
  unfold Range.Has at *
  unfold Range.Sub
  omega

/-- An address in one of several packed ranges starts none of the others. -/
theorem start_ne {r r' : Range} {l : List Range} {a : Nat} (h : Packed (r :: l)) (ha : r.Has a)
    (hr : r' ∈ l) (h0 : 0 < r'.size) : r'.start ≠ a := by
  have hd := (packed_cons.mp h).1 r' hr
  unfold Range.Disj at hd
  unfold Range.Has at ha
  omega

/-- A range that avoids all of `z` is disjoint from what lies in `z`. -/
theorem disj_of_covered {r r' : Range} {z : List Range} (h : ∀ x ∈ z, r.Disj x)
    (hc : ∀ a, r'.Has a → Holds z a) (h0 : 0 < r.size) (h0' : 0 < r'.size) : r.Disj r' := by
  apply Classical.byContradiction
  intro hd
  unfold Range.Disj at hd
  obtain ⟨a, har, har'⟩ : ∃ a, r.Has a ∧ r'.Has a :=
    ⟨max r.start r'.start, by unfold Range.Has; omega, by unfold Range.Has; omega⟩
  obtain ⟨x, hx, hax⟩ := hc a har'
  have := h x hx
  unfold Range.Disj at this
  unfold Range.Has at har hax
  omega

theorem packed_fresh {r : Range} {l z : List Range} (hl : Packed l) (h : ∀ x ∈ z, r.Disj x)
    (hc : ∀ a, Holds l a → Holds z a) (h0 : 0 < r.size) (hpos : ∀ x ∈ l, 0 < x.size) :
    Packed (r :: l) :=
  packed_cons.mpr ⟨fun x hx => disj_of_covered h (fun a ha => hc a ⟨x, hx, ha⟩) h0 (hpos x hx), hl⟩

end BadLands.Core.Ranges
