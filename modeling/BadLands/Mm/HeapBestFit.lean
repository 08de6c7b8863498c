import BadLands.Mm.Heap

/-!
# What `BestFind` sees

The tree is ordered by address, so `BestFind` searches both subtrees of every node. A node that is too small takes the
first place among the candidates with size 0, and no candidate is smaller than that: what the subtrees hold is lost,
except a left one that fits exactly, which is returned before.

`bestFind_best_iff`: the result is a best fit exactly when each node that fits has one at most as large that is seen.
-/
namespace BadLands.Mm.Heap

open BadLands.Core BadLands.Core.Avl BadLands.Mm.HeapTree

/-- The nodes that fit and are not lost. -/
def seen (m : Mem) (size : Nat) : SearchTree Nat → List Nat
  | .nil => []
  | .node l b r =>
    if m.size b < size then (seen m size l).filter fun a => m.size a = size
    else b :: (seen m size l ++ seen m size r)

/-- The first of the smallest, or null if there is none. -/
def Smallest (m : Mem) (as : List Nat) (a : Nat) : Prop :=
  (as = [] ∧ a = 0) ∨ (a ∈ as ∧ ∀ c ∈ as, m.size a ≤ m.size c)

/-- Null if no node fits, else one of the smallest that do. -/
def BestFit (m : Mem) (size : Nat) (t : SearchTree Nat) (a : Nat) : Prop :=
  (a = 0 ↔ ∀ c ∈ t.keys, m.size c < size) ∧
  (a ≠ 0 → a ∈ t.keys ∧ size ≤ m.size a ∧ ∀ c ∈ t.keys, size ≤ m.size c → m.size a ≤ m.size c)

/-- Each node that fits has one at most as large that is seen. -/
def NothingLost (m : Mem) (size : Nat) (t : SearchTree Nat) : Prop :=
  ∀ c ∈ t.keys, size ≤ m.size c → ∃ a ∈ seen m size t, m.size a ≤ m.size c

instance (m : Mem) (size : Nat) (t : SearchTree Nat) : Decidable (NothingLost m size t) :=
  inferInstanceAs (Decidable (∀ c ∈ t.keys, _))

section
variable {m : Mem} {size : Nat}

theorem mem_seen : ∀ {t : SearchTree Nat} {a : Nat}, a ∈ seen m size t → a ∈ t.keys ∧ size ≤ m.size a
  | .node l b r, a, h => by
    unfold seen at h
    split at h
    · obtain ⟨ha, -⟩ := List.mem_filter.mp h
      obtain ⟨hk, hs⟩ := mem_seen ha
      exact ⟨by simp [hk], hs⟩
    · rename_i hge
      rcases List.mem_cons.mp h with rfl | h
      · exact ⟨by simp, Nat.not_lt.mp hge⟩
      · rcases List.mem_append.mp h with h | h
        · obtain ⟨hk, hs⟩ := mem_seen h
          exact ⟨by simp [hk], hs⟩
        · obtain ⟨hk, hs⟩ := mem_seen h
          exact ⟨by simp [hk], hs⟩

/-! ## Choosing among candidates -/

theorem candidate_zero (h0 : 0 < size) : candidate m size 0 = (0, 0) := if_pos h0

theorem candidate_fits {a : Nat} (ha : a ≠ 0) (h : size ≤ m.size a) : candidate m size a = (a, m.size a) := by
  unfold candidate dropSmall
  rw [if_neg ha, if_neg (Nat.not_lt.mpr h)]

theorem candidate_small {a : Nat} (h : m.size a < size) : candidate m size a = (0, 0) := by
  unfold candidate dropSmall
  refine if_pos ?_
  dsimp only
  split
  · omega
  · exact h

/-- Nothing is smaller than a candidate of size 0. -/
theorem pick_zero (c : Nat × Nat) : pick size (0, 0) c = (0, 0) :=
  if_neg fun h => absurd h.2.1 (Nat.not_lt_zero _)

/-- A candidate takes the place of the best one so far when it is smaller. -/
theorem pick_smallest (h0 : 0 < size) {as bs : List Nat} {a b : Nat} (ha : a ∈ as ∧ ∀ c ∈ as, m.size a ≤ m.size c)
    (hb : Smallest m bs b) (hbs : ∀ c ∈ bs, c ≠ 0 ∧ size ≤ m.size c) :
    ∃ c, pick size (a, m.size a) (candidate m size b) = (c, m.size c) ∧
      c ∈ as ++ bs ∧ ∀ d ∈ as ++ bs, m.size c ≤ m.size d := by
  rcases hb with ⟨rfl, rfl⟩ | ⟨hmem, hmin⟩
  · rw [candidate_zero h0, List.append_nil]
    exact ⟨a, if_neg fun h => absurd h.1 (Nat.lt_irrefl 0), ha.1, ha.2⟩
  · obtain ⟨hb0, hfits⟩ := hbs b hmem
    rw [candidate_fits hb0 hfits]
    unfold pick
    split
    · rename_i hless
      refine ⟨b, rfl, List.mem_append_right _ hmem, fun d hd => ?_⟩
      rcases List.mem_append.mp hd with hd | hd
      · exact Nat.le_trans (Nat.le_of_lt hless.2.1) (ha.2 d hd)
      · exact hmin d hd
    · rename_i hge
      have hle : m.size a ≤ m.size b := Nat.not_lt.mp fun hlt => hge ⟨Nat.lt_of_lt_of_le h0 hfits, hlt, hfits⟩
      refine ⟨a, rfl, List.mem_append_left _ ha.1, fun d hd => ?_⟩
      rcases List.mem_append.mp hd with hd | hd
      · exact ha.2 d hd
      · exact Nat.le_trans hle (hmin d hd)

/-! ## The search -/

/-- `BestFind` returns the smallest of the nodes it sees. -/
theorem bestFind_smallest (h0 : 0 < size) : ∀ (t : SearchTree Nat) (p fuel : Nat), Rep m t p → t.keys.length < fuel →
    ∃ a, bestFind m size fuel (ptr t) = some a ∧ Smallest m (seen m size t) a
  | .nil, _, fuel, _, hf => by
    obtain ⟨k, rfl⟩ : ∃ k, fuel = k + 1 := ⟨fuel - 1, by simp at hf; omega⟩
    exact ⟨0, rfl, .inl ⟨rfl, rfl⟩⟩
  | .node l b r, p, fuel, hrep, hf => by
    obtain ⟨hb0, hl, hr, -, -, hrl, hrr⟩ := hrep
    simp only [keys_node, List.length_append, List.length_cons] at hf
    obtain ⟨k, rfl⟩ : ∃ k, fuel = k + 1 := ⟨fuel - 1, by omega⟩
    obtain ⟨x, hx, hxs⟩ := bestFind_smallest h0 l b k hrl (by omega)
    obtain ⟨y, hy, hys⟩ := bestFind_smallest h0 r b k hrr (by omega)
    have hfits : ∀ {t : SearchTree Nat} {q : Nat}, Rep m t q → ∀ c ∈ seen m size t, c ≠ 0 ∧ size ≤ m.size c :=
      fun hq c hc => ⟨hq.keys_ne c (mem_seen hc).1, (mem_seen hc).2⟩
    rw [ptr_node, bestFind, if_neg hb0, hl, hr, hx, hy]
    unfold seen
    by_cases hexact : m.size b = size
    · rw [if_pos hexact, if_neg (by omega)]
      refine ⟨b, rfl, .inr ⟨List.mem_cons_self, fun c hc => ?_⟩⟩
      rcases List.mem_cons.mp hc with rfl | hc
      · exact Nat.le_refl _
      · rcases List.mem_append.mp hc with hc | hc
        · exact hexact ▸ (mem_seen hc).2
        · exact hexact ▸ (mem_seen hc).2
    · simp only [if_neg hexact, Option.bind_some, Option.map_some]
      by_cases hleft : x ≠ 0 ∧ m.size x = size
      · rw [if_pos hleft]
        have hmem : x ∈ seen m size l := (hxs.resolve_left fun h => hleft.1 h.2).1
        refine ⟨x, rfl, .inr ⟨?_, fun c hc => ?_⟩⟩
        · split
          · exact List.mem_filter.mpr ⟨hmem, decide_eq_true hleft.2⟩
          · exact List.mem_cons_of_mem _ (List.mem_append_left _ hmem)
        · rw [hleft.2]
          exact (mem_seen (t := .node l b r) hc).2
      · rw [if_neg hleft]
        by_cases hsmall : m.size b < size
        · -- the root's place stays empty
          rw [if_pos hsmall, candidate_small hsmall, pick_zero, pick_zero]
          refine ⟨0, rfl, .inl ⟨List.filter_eq_nil_iff.mpr fun c hc hsize => hleft ?_, rfl⟩⟩
          rcases hxs with ⟨hnil, -⟩ | ⟨hmem, hmin⟩
          · rw [hnil] at hc
            cases hc
          · have hle := hmin c hc
            rw [of_decide_eq_true hsize] at hle
            exact ⟨(hfits hrl x hmem).1, Nat.le_antisymm hle (hfits hrl x hmem).2⟩
        · have hfit := Nat.not_lt.mp hsmall
          rw [if_neg hsmall, candidate_fits hb0 hfit]
          have hroot : b ∈ [b] ∧ ∀ d ∈ [b], m.size b ≤ m.size d :=
            ⟨List.mem_singleton.mpr rfl, fun d hd => List.mem_singleton.mp hd ▸ Nat.le_refl _⟩
          obtain ⟨c, hc, hcs⟩ := pick_smallest h0 hroot hxs (hfits hrl)
          obtain ⟨d, hd, hds⟩ := pick_smallest h0 hcs hys (hfits hrr)
          rw [hc, hd]
          exact ⟨d, rfl, .inr (by simpa using hds)⟩

end

/-- For every tree in memory and every request: the call returns, and the result is a best fit exactly when no node that
fits is lost without one at most as large being seen. -/
theorem bestFind_best_iff (m : Mem) (size p fuel : Nat) (t : SearchTree Nat) (h0 : 0 < size) (hrep : Rep m t p)
    (hfuel : t.keys.length < fuel) :
    ∃ a, bestFind m size fuel (ptr t) = some a ∧ (BestFit m size t a ↔ NothingLost m size t) := by
  obtain ⟨a, hfind, hsmallest⟩ := bestFind_smallest h0 t p fuel hrep hfuel
  refine ⟨a, hfind, fun hbest c hc hfits => ?_, fun hlost => ?_⟩
  · rcases hsmallest with ⟨-, rfl⟩ | ⟨hmem, -⟩
    · exact absurd (hbest.1.mp rfl c hc) (Nat.not_lt.mpr hfits)
    · have ha := hrep.keys_ne a (mem_seen hmem).1
      exact ⟨a, hmem, (hbest.2 ha).2.2 c hc hfits⟩
  · rcases hsmallest with ⟨hnil, rfl⟩ | ⟨hmem, hmin⟩
    · refine ⟨⟨fun _ c hc => Nat.not_le.mp fun hfits => ?_, fun _ => rfl⟩, fun h => absurd rfl h⟩
      obtain ⟨b, hb, -⟩ := hlost c hc hfits
      rw [hnil] at hb
      cases hb
    · obtain ⟨hkey, hfits⟩ := mem_seen hmem
      refine ⟨⟨fun h => absurd h (hrep.keys_ne a hkey), fun hnone => absurd (hnone a hkey) (Nat.not_lt.mpr hfits)⟩,
        fun _ => ⟨hkey, hfits, fun c hc hcs => ?_⟩⟩
      obtain ⟨b, hb, hle⟩ := hlost c hc hcs
      exact Nat.le_trans (hmin b hb) hle

/-- A node of 40 bytes at `0x1000` and one of 96 bytes at `0x2000`, its right child. -/
def twoNodes : Mem where
  size a := if a = 0x1000 then 40 else 96
  left _ := 0
  right a := if a = 0x1000 then 0x2000 else 0
  parent a := if a = 0x2000 then 0x1000 else 0
  height a := if a = 0x1000 then 2 else 1

def twoNodesTree : SearchTree Nat := .node .nil 0x1000 (.node .nil 0x2000 .nil)

theorem rep_twoNodes : Rep twoNodes twoNodesTree 0 :=
  ⟨by decide, by decide, by decide, by decide, by decide, trivial, by decide, by decide, by decide, by decide, by decide,
    trivial, trivial⟩

/-- A request of 40 bytes takes the root. -/
theorem bestFind_best_forty : ∃ a, bestFind twoNodes 40 3 (ptr twoNodesTree) = some a ∧
    (BestFit twoNodes 40 twoNodesTree a ↔ NothingLost twoNodes 40 twoNodesTree) :=
  bestFind_best_iff twoNodes 40 0 3 twoNodesTree (by decide) rep_twoNodes (by decide)

/-- Of the request of 48 bytes the larger node is hidden behind the smaller one. -/
theorem small_root_hides : Rep twoNodes twoNodesTree 0 ∧ bestFind twoNodes 48 3 (ptr twoNodesTree) = some 0 ∧
    0x2000 ∈ twoNodesTree.keys ∧ 48 ≤ twoNodes.size 0x2000 ∧ ¬ BestFit twoNodes 48 twoNodesTree 0 := by
  have hkey : 0x2000 ∈ twoNodesTree.keys := by decide
  have hfits : 48 ≤ twoNodes.size 0x2000 := by decide
  refine ⟨rep_twoNodes, by decide, hkey, hfits, fun h => ?_⟩
  exact absurd (h.1.mp rfl 0x2000 hkey) (Nat.not_lt.mpr hfits)

end BadLands.Mm.Heap
