import Mathlib.Data.List.Cycle

/-!
# Circular doubly linked lists

`next` and `prev` are the link fields of the cells. `Ring next prev l`: the cells of `l` are
linked in a circle, in this order. Which cell comes first is a matter of the reader
(`Ring.rotate`).

* `Ring.follow`: a loop that follows `next` from behind the first cell stops at the first cell
  that it looks for, or comes back.
* `Ring.insert`: a cell linked in between the last one and the first one.
* `Ring.reach`: from the first cell, every cell is reached once on the way round.
-/
namespace BadLands.Core.LinkedRing

variable {α : Type} {next prev : α → α}

def Adjacent (next prev : α → α) (a b : α) : Prop := next a = b ∧ prev b = a

def Ring (next prev : α → α) (l : List α) : Prop := Cycle.Chain (Adjacent next prev) (l : Cycle α)

/-- `while (!stop(p)) p = p->next;`, `none` when the turns are used up. -/
def follow (next : α → α) (stop : α → Bool) : Nat → α → Option α
  | 0, _ => none
  | turns + 1, p => if stop p then some p else follow next stop turns (next p)

theorem ring_cons {a : α} {l : List α} :
    Ring next prev (a :: l) ↔ List.IsChain (Adjacent next prev) (a :: (l ++ [a])) := Iff.rfl

theorem ring_single {a : α} (hn : next a = a) (hp : prev a = a) : Ring next prev [a] :=
  ring_cons.mpr (List.isChain_pair.mpr ⟨hn, hp⟩)

theorem Ring.rotate {xs ys : List α} (h : Ring next prev (xs ++ ys)) : Ring next prev (ys ++ xs) := by
  have heq : ((xs ++ ys : List α) : Cycle α) = ((ys ++ xs : List α) : Cycle α) :=
    Cycle.coe_eq_coe.mpr List.isRotated_append
  unfold Ring at h ⊢
  rwa [← heq]

theorem Ring.congr {next' prev' : α → α} {l : List α} (h : Ring next prev l) (hn : ∀ a ∈ l, next' a = next a)
    (hp : ∀ a ∈ l, prev' a = prev a) : Ring next' prev' l := by
  cases l with
  | nil => trivial
  | cons a l =>
    have hmem : ∀ x ∈ a :: (l ++ [a]), x ∈ a :: l := by
      intro x hx
      simpa [or_comm] using hx
    refine ring_cons.mpr ((ring_cons.mp h).imp_of_mem_imp fun x y hx hy hxy => ?_)
    exact ⟨(hn x (hmem x hx)).trans hxy.1, (hp y (hmem y hy)).trans hxy.2⟩

/-- The last cell of a chain back to `a`. -/
theorem chain_last {a : α} : ∀ {b : α} {l : List α}, List.IsChain (Adjacent next prev) (b :: (l ++ [a])) →
    prev a ∈ b :: l ∧ next (prev a) = a
  | b, [], h => by
    obtain ⟨hn, hp⟩ := List.isChain_pair.mp h
    rw [hp]
    exact ⟨List.mem_cons_self, hn⟩
  | b, c :: l, h => by
    have hrest : List.IsChain (Adjacent next prev) (c :: (l ++ [a])) := (List.isChain_cons_cons.mp h).2
    have hlast := chain_last hrest
    exact ⟨List.mem_cons_of_mem _ hlast.1, hlast.2⟩

/-- The neighbours of a cell. -/
theorem Ring.neighbours {l : List α} (h : Ring next prev l) {a : α} (ha : a ∈ l) :
    (next a ∈ l ∧ prev (next a) = a) ∧ prev a ∈ l ∧ next (prev a) = a := by
  obtain ⟨xs, ys, rfl⟩ := List.append_of_mem ha
  have hchain : List.IsChain (Adjacent next prev) (a :: (ys ++ xs ++ [a])) := ring_cons.mp h.rotate
  have hmem : ∀ x, x ∈ a :: (ys ++ xs) ↔ x ∈ xs ++ a :: ys := by
    intro x
    simp only [List.mem_cons, List.mem_append]
    tauto
  refine ⟨?_, ?_⟩
  · have hfirst : next a ∈ a :: (ys ++ xs) ∧ prev (next a) = a := by
      cases hl : ys ++ xs with
      | nil =>
        rw [hl] at hchain
        obtain ⟨hn, hp⟩ := List.isChain_pair.mp hchain
        rw [hn]
        exact ⟨List.mem_cons_self, hp⟩
      | cons b zs =>
        rw [hl] at hchain
        obtain ⟨hn, hp⟩ := (List.isChain_cons_cons.mp hchain).1
        rw [hn]
        exact ⟨List.mem_cons_of_mem _ List.mem_cons_self, hp⟩
    exact ⟨(hmem _).mp hfirst.1, hfirst.2⟩
  · have hlast := chain_last hchain
    exact ⟨(hmem _).mp hlast.1, hlast.2⟩

/-- With more than one cell, none is its own neighbour. -/
theorem Ring.next_ne {l : List α} (h : Ring next prev l) (hnodup : l.Nodup) (hmany : 2 ≤ l.length) {a : α} (ha : a ∈ l) :
    next a ≠ a := by
  obtain ⟨xs, ys, rfl⟩ := List.append_of_mem ha
  have hchain : List.IsChain (Adjacent next prev) (a :: (ys ++ xs ++ [a])) := ring_cons.mp h.rotate
  have hnot : a ∉ ys ++ xs := (List.nodup_cons.mp (List.perm_append_comm.nodup_iff.mp hnodup : (a :: ys ++ xs).Nodup)).1
  cases hl : ys ++ xs with
  | nil =>
    have hlength := congrArg List.length hl
    simp only [List.length_append, List.length_cons, List.length_nil] at hlength hmany
    omega
  | cons b zs =>
    rw [hl] at hchain hnot
    rw [(List.isChain_cons_cons.mp hchain).1.1]
    exact fun he => hnot (he ▸ List.mem_cons_self)

theorem chain_follow {a : α} {stop : α → Bool} (hstop : stop a = true) :
    ∀ {l : List α} {b : α} {turns : Nat}, List.IsChain (Adjacent next prev) (b :: (l ++ [a])) → l.length < turns →
      follow next stop turns (next b) = (l ++ [a]).find? stop
  | [], b, turns + 1, h, _ => by
    obtain ⟨hn, -⟩ := List.isChain_pair.mp h
    rw [hn, follow, if_pos hstop, List.nil_append, List.find?_cons_of_pos hstop]
  | c :: l, b, turns + 1, h, hturns => by
    obtain ⟨⟨hn, -⟩, hrest⟩ := List.isChain_cons_cons.mp h
    rw [hn, follow, List.cons_append]
    cases hc : stop c with
    | true => rw [if_pos rfl, List.find?_cons_of_pos hc]
    | false =>
      rw [if_neg (by decide), List.find?_cons_of_neg (by rw [hc]; decide)]
      exact chain_follow hstop hrest (by simpa using hturns)

theorem Ring.follow {a : α} {l : List α} {stop : α → Bool} {turns : Nat} (h : Ring next prev (a :: l))
    (hstop : stop a = true) (hturns : l.length < turns) :
    follow next stop turns (next a) = (l ++ [a]).find? stop :=
  chain_follow hstop (ring_cons.mp h) hturns

/-- The new cell `x` stands between the last cell and the first one. -/
theorem Ring.insert {next' prev' : α → α} {a x : α} {l : List α} (h : Ring next prev (a :: l))
    (hnodup : (a :: l).Nodup) (hn : next' (prev a) = x) (hxn : next' x = a) (hxp : prev' x = prev a)
    (hp : prev' a = x) (hnext : ∀ y ∈ a :: l, y ≠ prev a → next' y = next y)
    (hprev : ∀ y ∈ a :: l, y ≠ a → prev' y = prev y) : Ring next' prev' (a :: (l ++ [x])) := by
  -- the cells before the last one keep their links
  have hkept : ∀ (l : List α) (b : α), List.IsChain (Adjacent next prev) (b :: (l ++ [a])) → (b :: l).Nodup →
      (∀ y ∈ b :: l, y ≠ prev a → next' y = next y) → (∀ y ∈ l, prev' y = prev y) →
      List.IsChain (Adjacent next' prev') (b :: (l ++ [x] ++ [a])) := by
    intro l
    induction l with
    | nil =>
      intro b hb _ _ _
      obtain ⟨-, hlast⟩ := List.isChain_pair.mp hb
      rw [hlast] at hn hxp
      exact List.isChain_cons_cons.mpr ⟨⟨hn, hxp⟩, List.isChain_pair.mpr ⟨hxn, hp⟩⟩
    | cons c l ih =>
      intro b hb hnd hnext hprev
      obtain ⟨⟨hbn, hbp⟩, hrest⟩ := List.isChain_cons_cons.mp hb
      obtain ⟨hbnot, hnd⟩ := List.nodup_cons.mp hnd
      have hbne : b ≠ prev a := by
        intro he
        rw [he] at hbnot
        exact hbnot (chain_last hrest).1
      have hadjacent : Adjacent next' prev' b c :=
        ⟨(hnext b List.mem_cons_self hbne).trans hbn, (hprev c List.mem_cons_self).trans hbp⟩
      refine List.isChain_cons_cons.mpr ⟨hadjacent, ih c hrest hnd ?_ ?_⟩
      · exact fun y hy => hnext y (List.mem_cons_of_mem _ hy)
      · exact fun y hy => hprev y (List.mem_cons_of_mem _ hy)
  refine ring_cons.mpr (hkept l a (ring_cons.mp h) hnodup hnext fun y hy => ?_)
  refine hprev y (List.mem_cons_of_mem _ hy) ?_
  rintro rfl
  exact (List.nodup_cons.mp hnodup).1 hy

theorem chain_iterate {a : α} : ∀ {l : List α} {b : α}, List.IsChain (Adjacent next prev) (b :: (l ++ [a])) →
    ∀ k (hk : k < (b :: l).length), next^[k] b = (b :: l)[k]
  | _, _, _, 0, _ => rfl
  | [], b, _, k + 1, hk => by
    simp at hk
  | c :: l, b, h, k + 1, hk => by
    obtain ⟨⟨hn, -⟩, hrest⟩ := List.isChain_cons_cons.mp h
    rw [Function.iterate_succ_apply, hn, chain_iterate hrest k (by simpa using hk)]
    rfl

theorem Ring.reach {a : α} {l : List α} (h : Ring next prev (a :: l)) (hnodup : (a :: l).Nodup) {x : α}
    (hx : x ∈ a :: l) : ∃! k, k < (a :: l).length ∧ next^[k] a = x := by
  obtain ⟨k, hk, rfl⟩ := List.mem_iff_getElem.mp hx
  refine ⟨k, ⟨hk, chain_iterate (ring_cons.mp h) k hk⟩, ?_⟩
  rintro j ⟨hj, hreach⟩
  have heq : (a :: l)[j] = (a :: l)[k] := (chain_iterate (ring_cons.mp h) j hj).symm.trans hreach
  exact (List.Nodup.getElem_inj_iff hnodup).mp heq

end BadLands.Core.LinkedRing
