import BadLands.Core.Machine
import BadLands.Mm.HeapTreeShape

/-!
# The free tree stays an AVL tree

`insert_spec` and `delete_spec`: on a balanced, address-ordered tree the calls return, and the
result is such a tree again with the node added or removed and every size as it was.
`tree_avl`: so it is after every sequence of calls from the empty tree.
-/
namespace BadLands.Mm.HeapTree

open BadLands.Core.Avl

theorem rep_plug {m : Mem} {p : Nat} : ∀ (fs : List (Frame Nat)) (t : SearchTree Nat),
    Rep m (plug t fs) p → Rep m t (top fs p) ∧ Ctx m fs (ptr t) p
  | [], _, h => ⟨h, trivial⟩
  | .left a r :: fs, t, h => by
    obtain ⟨⟨h0, hl, hr, hp, -, hrl, hrr⟩, hctx⟩ := rep_plug fs (.node t a r) h
    exact ⟨hrl, h0, hl, hr, hp, hrr, hctx⟩
  | .right l a :: fs, t, h => by
    obtain ⟨⟨h0, hl, hr, hp, -, hrl, hrr⟩, hctx⟩ := rep_plug fs (.node l a t) h
    exact ⟨hrr, h0, hl, hr, hp, hrl, hctx⟩

/-- A tree in its innermost frame is a node in the frames around. -/
theorem zip_fill {m : Mem} {t : SearchTree Nat} {f : Frame Nat} {fs : List (Frame Nat)}
    (hrep : Rep m t f.key) (hctx : Ctx m (f :: fs) (ptr t) 0)
    (hsort : Sorted (plug t (f :: fs)).keys) :
    ∃ l r, f.fill t = .node l f.key r ∧ Zip m l f.key r fs := by
  cases f with
  | left a r =>
    obtain ⟨h0, hl, hr, hp, hrr, hctx⟩ := hctx
    exact ⟨t, r, rfl, h0, hl, hr, hp, hrep, hrr, hctx, hsort⟩
  | right l a =>
    obtain ⟨h0, hl, hr, hp, hrl, hctx⟩ := hctx
    exact ⟨l, t, rfl, h0, hl, hr, hp, hrl, hrep, hctx, hsort⟩

/-- `t` is in memory as an AVL tree ordered by address. -/
structure IsAvl (m : Mem) (t : SearchTree Nat) : Prop where
  rep : Rep m t 0
  sorted : Sorted t.keys
  bal : t.Bal

theorem ptr_parent {m : Mem} {t : SearchTree Nat} {p : Nat} (h : Rep m t p) (hne : t.keys ≠ []) :
    m.parent (ptr t) = p := by
  cases t with
  | nil => exact absurd rfl hne
  | node l a r => exact h.2.2.2.1

/-! ## Climbing -/

/-- A climb whose body acts as the loop body of `Delete` wherever `I` holds. -/
theorem climb_spec (body : Mem → Nat → Mem × Nat) {I : SearchTree Nat → List (Frame Nat) → Prop}
    (hbody : ∀ {m t f fs l r}, I t (f :: fs) → f.fill t = .node l f.key r → Zip m l f.key r fs →
      body m f.key = m.rebalanceDeleted f.key)
    (hstep : ∀ {t f fs}, I t (f :: fs) → I (fix (f.fill t)) fs) :
    ∀ (fs : List (Frame Nat)) (t : SearchTree Nat) (m : Mem) (fuel last : Nat), I t fs →
      Rep m t (top fs 0) → Ctx m fs (ptr t) 0 → Sorted (plug t fs).keys → fs.length < fuel →
      (fs = [] → last = ptr t) →
      ∃ m', Mem.climb body fuel m (top fs 0) last = some (m', ptr (climb t fs)) ∧
        m'.size = m.size ∧ Rep m' (climb t fs) 0
  | [], t, m, fuel, last, _, hrep, _, _, hfuel, hlast => by
    obtain ⟨k, rfl⟩ : ∃ k, fuel = k + 1 := ⟨fuel - 1, by simp at hfuel; omega⟩
    exact ⟨m, by rw [hlast rfl]; rfl, rfl, hrep⟩
  | f :: fs, t, m, fuel, last, hI, hrep, hctx, hsort, hfuel, _ => by
    obtain ⟨k, rfl⟩ : ∃ k, fuel = k + 1 := ⟨fuel - 1, by simp at hfuel; omega⟩
    obtain ⟨l, r, hfill, hz⟩ := zip_fill hrep hctx hsort
    obtain ⟨m₁, hfix, hsize₁, hrep₁, hctx₁⟩ := rebalanceDeleted_spec hz
    rw [← hbody hI hfill hz] at hfix
    rw [← hfill] at hfix hrep₁ hctx₁
    have hkeys : (fix (f.fill t)).keys ≠ [] := by
      rw [keys_fix, hfill]
      simp
    have hsort₁ : Sorted (plug (fix (f.fill t)) fs).keys := by
      rw [keys_plug, keys_fix, ← keys_plug]
      exact hsort
    obtain ⟨m', hclimb, hsize, hrep'⟩ := climb_spec body hbody hstep fs _ m₁ k (ptr (fix (f.fill t)))
      (hstep hI) hrep₁ hctx₁ hsort₁ (by simp at hfuel; omega) fun _ => rfl
    refine ⟨m', ?_, hsize.trans hsize₁, hrep'⟩
    rw [top, Mem.climb, if_neg hz.ne, hfix]
    simp only
    rw [ptr_parent hrep₁ hkeys]
    exact hclimb

/-! ## Insertion -/

/-- On the way up from a new node, `Rebalance` takes the same decisions. -/
theorem rebalance_eq {m : Mem} {n : Nat} {t : SearchTree Nat} {f : Frame Nat} {fs : List (Frame Nat)}
    {h : Nat} (hg : Grown n t (f :: fs) h) (hn : f.Sided n) {l r : SearchTree Nat}
    (hfill : f.fill t = .node l f.key r) (hz : Zip m l f.key r fs) :
    m.rebalance f.key n = m.rebalanceDeleted f.key := by
  obtain ⟨-, ⟨h1, h2, -, -⟩, hsize⟩ := hg
  cases f with
  | left a s =>
    obtain ⟨rfl, rfl⟩ : t = l ∧ s = r := by simpa [Frame.fill, Frame.key] using hfill
    change Zip m t a s fs at hz
    change n < a at hn
    change m.rebalance a n = m.rebalanceDeleted a
    simp only [Frame.sibling] at h1 h2
    obtain ⟨hz₁, -, hrep⟩ := hz.updateHeight
    have hbf : (m.updateHeight a).getBalanceFactor a = (t.height : Int) - s.height :=
      getBalanceFactor_rep hrep (by simp)
    unfold Mem.rebalance Mem.rebalanceDeleted
    simp only [hbf, hz₁.left, hz₁.right]
    by_cases hgt : (t.height : Int) - s.height > 1
    · rcases hsize with he | ⟨he, hlean⟩
      · omega
      · cases t with
        | nil => cases hlean
        | node ll b lr =>
          have hbal := getBalanceFactor_rep hz₁.repLeft (by simp)
          rw [ptr_node] at hbal
          rw [if_pos (.inr hgt), if_pos hgt, if_neg fun h => Nat.lt_asymm hn h.1, ptr_node, hbal,
            balance_node]
          rcases hlean with ⟨hlt, hh⟩ | ⟨hlt, hh⟩ | ⟨-, rfl, rfl⟩
          · rw [if_pos ⟨hn, hlt⟩, if_pos (by omega)]
          · rw [if_neg fun h => Nat.lt_asymm hlt h.2, if_neg fun h => Nat.lt_asymm hn h.1,
              if_pos ⟨hn, hlt⟩, if_neg (by omega)]
          · simp only [height_node, height_nil] at hgt he
            omega
    · rw [if_neg (by omega), if_neg hgt, if_neg (by omega)]
  | right s a =>
    obtain ⟨rfl, rfl⟩ : s = l ∧ t = r := by simpa [Frame.fill, Frame.key] using hfill
    change Zip m s a t fs at hz
    change a < n at hn
    change m.rebalance a n = m.rebalanceDeleted a
    simp only [Frame.sibling] at h1 h2
    obtain ⟨hz₁, -, hrep⟩ := hz.updateHeight
    have hbf : (m.updateHeight a).getBalanceFactor a = (s.height : Int) - t.height :=
      getBalanceFactor_rep hrep (by simp)
    unfold Mem.rebalance Mem.rebalanceDeleted
    simp only [hbf, hz₁.left, hz₁.right]
    by_cases hlt : (s.height : Int) - t.height < -1
    · rcases hsize with he | ⟨he, hlean⟩
      · omega
      · cases t with
        | nil => cases hlean
        | node rl b rr =>
          have hbal := getBalanceFactor_rep hz₁.repRight (by simp)
          rw [ptr_node] at hbal
          have hngt : ¬ ((s.height : Int) - (SearchTree.node rl b rr).height > 1) := by omega
          rw [if_pos (.inl hlt), if_neg hngt, if_pos hlt, ptr_node, hbal, balance_node]
          rcases hlean with ⟨hnb, hh⟩ | ⟨hnb, hh⟩ | ⟨-, rfl, rfl⟩
          · rw [if_neg fun h => Nat.lt_asymm hnb h.2, if_neg fun h => Nat.lt_asymm hn h.1,
              if_pos ⟨hn, hnb⟩, if_pos (by omega)]
          · rw [if_pos ⟨hn, hnb⟩, if_neg (by omega)]
          · simp only [height_node, height_nil] at hlt he
            omega
    · rw [if_neg (by omega), if_neg (by omega), if_neg hlt]

/-- The descent of `Insert` ends at the hole where `n` belongs. -/
theorem descend_spec {m : Mem} {n : Nat} : ∀ (t : SearchTree Nat) (p fuel prev : Nat), Rep m t p →
    n ∉ t.keys → Sorted t.keys → t.keys.length < fuel →
    ∃ gs, t = plug .nil gs ∧ m.descend n fuel prev (ptr t) = some (some (top gs prev)) ∧
      (∀ x ∈ before gs, x < n) ∧ ∀ x ∈ after gs, n < x
  | .nil, _, fuel, prev, _, _, _, hfuel => by
    obtain ⟨k, rfl⟩ : ∃ k, fuel = k + 1 := ⟨fuel - 1, by simp at hfuel; omega⟩
    exact ⟨[], rfl, rfl, by simp [before], by simp [after]⟩
  | .node l a r, p, fuel, prev, ⟨h0, hl, hr, _, _, hrl, hrr⟩, hn, hsort, hfuel => by
    obtain ⟨k, rfl⟩ : ∃ k, fuel = k + 1 := ⟨fuel - 1, by simp at hfuel; omega⟩
    simp only [keys_node, List.mem_append, List.mem_cons, not_or] at hn
    simp only [keys_node, List.length_append, List.length_cons] at hfuel
    obtain ⟨hsl, hsr, hla, har⟩ := sorted_node hsort
    rw [ptr_node, Mem.descend, if_neg h0]
    by_cases hlt : n < a
    · obtain ⟨gs, ht, hd, hb, ha⟩ := descend_spec l a k a hrl hn.1 hsl (by omega)
      refine ⟨gs ++ [.left a r], ?_, ?_, ?_, ?_⟩
      · rw [plug_append, ← ht]
        rfl
      · rw [if_pos hlt, hl, hd, top_append]
        rfl
      · rw [before_append]
        simpa [before] using hb
      · intro x hx
        simp only [after_append, after, List.append_nil, List.mem_append, List.mem_cons] at hx
        rcases hx with hx | rfl | hx
        · exact ha x hx
        · exact hlt
        · exact Nat.lt_trans hlt (har x hx)
    · have hgt : a < n := Nat.lt_of_le_of_ne (Nat.not_lt.mp hlt) fun he => hn.2.1 he.symm
      obtain ⟨gs, ht, hd, hb, ha⟩ := descend_spec r a k a hrr hn.2.2 hsr (by omega)
      refine ⟨gs ++ [.right l a], ?_, ?_, ?_, ?_⟩
      · rw [plug_append, ← ht]
        rfl
      · rw [if_neg hlt, if_pos hgt, hr, hd, top_append]
        rfl
      · intro x hx
        simp only [before_append, before, List.nil_append, List.mem_append, List.mem_cons,
          List.not_mem_nil, or_false] at hx
        rcases hx with (hx | rfl) | hx
        · exact Nat.lt_trans (hla x hx) hgt
        · exact hgt
        · exact hb x hx
      · rw [after_append]
        simpa [after] using ha

theorem makeLeaf_same (m : Mem) {n p x : Nat} (h : x ≠ n) : Same m (m.makeLeaf n p) x :=
  ⟨if_neg h, if_neg h, if_neg h, if_neg h⟩

/-- Hanging the new leaf into its hole. -/
theorem attach_spec {m : Mem} {n : Nat} {gs : List (Frame Nat)} (hne : gs ≠ []) (hn0 : n ≠ 0)
    (hctx : Ctx m gs 0 0) (hsort : Sorted (plug (.node .nil n .nil) gs).keys) :
    ∃ m', (if n < top gs 0 then (m.makeLeaf n (top gs 0)).setLeft (top gs 0) n
        else (m.makeLeaf n (top gs 0)).setRight (top gs 0) n) = m' ∧
      m'.size = m.size ∧ Rep m' (.node .nil n .nil) (top gs 0) ∧ Ctx m' gs n 0 := by
  have htop0 : top gs 0 ≠ 0 := by
    cases gs with
    | nil => exact absurd rfl hne
    | cons f fs => exact hctx.keys_ne _ around_top
  have htn : n ≠ top gs 0 := (top_ne hsort (x := n) (by simp) hn0).symm
  have hs := replaceChild_same (m.makeLeaf n (top gs 0)) n n htn
  have hsize := (replaceChild_rest (m.makeLeaf n (top gs 0)) (top gs 0) n n).1
  refine ⟨(m.makeLeaf n (top gs 0)).replaceChild (top gs 0) n n, ?_, hsize,
    ⟨hn0, ?_, ?_, ?_, ?_, trivial, trivial⟩, ?_⟩
  · rw [Mem.replaceChild, if_neg htop0]
  · rw [hs.left]
    exact if_pos rfl
  · rw [hs.right]
    exact if_pos rfl
  · rw [hs.parent]
    exact if_pos rfl
  · rw [hs.height]
    exact if_pos rfl
  · have hleaf : Ctx (m.makeLeaf n (top gs 0)) gs 0 0 := hctx.frame fun y hy =>
      makeLeaf_same m fun he => not_around hsort (x := n) (by simp) (he ▸ hy)
    exact hleaf.replaceChild hsort (by simp)

theorem sorted_insert {n : Nat} {gs : List (Frame Nat)} (h : Sorted (plug .nil gs).keys)
    (hb : ∀ x ∈ before gs, x < n) (ha : ∀ x ∈ after gs, n < x) :
    Sorted (plug (.node .nil n .nil) gs).keys := by
  rw [keys_plug, keys_nil, List.append_nil, sorted_append] at h
  rw [keys_plug, sorted_append, sorted_append]
  simp only [keys_node, keys_nil, List.nil_append, List.mem_append, List.mem_singleton]
  refine ⟨⟨h.1, List.pairwise_singleton _ _, ?_⟩, h.2.1, ?_⟩
  · intro x hx y hy
    exact hy ▸ hb x hx
  · intro x hx y hy
    rcases hx with hx | rfl
    · exact h.2.2 x hx y hy
    · exact ha y hy

/-- The way up from a new node, as `climb_spec` needs it. -/
def Rising (n : Nat) (t : SearchTree Nat) (fs : List (Frame Nat)) : Prop :=
  (∃ h, Grown n t fs h) ∧ ∀ f ∈ fs, f.Sided n

theorem rising_step {n : Nat} {t : SearchTree Nat} {f : Frame Nat} {fs : List (Frame Nat)}
    (h : Rising n t (f :: fs)) : Rising n (fix (f.fill t)) fs := by
  obtain ⟨⟨k, hg⟩, hn⟩ := h
  exact ⟨⟨_, grown_step hg (hn f List.mem_cons_self)⟩, fun g hgm => hn g (List.mem_cons_of_mem _ hgm)⟩

/-- `Insert` of a new address returns, and adds it to the tree. -/
theorem insert_spec {m : Mem} {t : SearchTree Nat} {n fuel : Nat} (h : IsAvl m t) (hn0 : n ≠ 0)
    (hn : n ∉ t.keys) (hfuel : t.keys.length < fuel) :
    ∃ m' t', m.insert fuel (ptr t) n = some (m', ptr t') ∧ IsAvl m' t' ∧
      t'.keys.Perm (n :: t.keys) ∧ m'.size = m.size := by
  cases t with
  | nil =>
    refine ⟨m.makeLeaf n 0, .node .nil n .nil, rfl, ⟨⟨hn0, ?_, ?_, ?_, ?_, trivial, trivial⟩, ?_, ?_⟩,
      List.Perm.refl _, rfl⟩
    · exact if_pos rfl
    · exact if_pos rfl
    · exact if_pos rfl
    · exact if_pos rfl
    · exact List.pairwise_singleton _ _
    · simp
  | node l a r =>
    obtain ⟨gs, ht, hd, hb, ha⟩ := descend_spec _ 0 fuel a h.rep hn h.sorted hfuel
    have hgs : gs ≠ [] := by
      intro he
      rw [he] at ht
      cases ht
    obtain ⟨-, hctx⟩ := rep_plug gs .nil (ht ▸ h.rep)
    have hsort := sorted_insert (ht ▸ h.sorted) hb ha
    obtain ⟨m₁, hm₁, hsize₁, hrep₁, hctx₁⟩ := attach_spec hgs hn0 hctx hsort
    have hrise : Rising n (.node .nil n .nil) gs :=
      ⟨⟨0, by simp, ((bal_plug gs .nil).mp (ht ▸ h.bal)).2, .inr ⟨rfl, .inr (.inr ⟨rfl, rfl, rfl⟩)⟩⟩,
        sided_of_around gs hb ha⟩
    have hlen : gs.length < fuel := by
      have := length_le_keys gs .nil
      rw [← ht] at this
      omega
    obtain ⟨m', hclimb, hsize, hrep⟩ := climb_spec (fun m prev => m.rebalance prev n)
      (fun hI hfill hz => by
        obtain ⟨⟨k, hg⟩, hs⟩ := hI
        exact rebalance_eq hg (hs _ List.mem_cons_self) hfill hz)
      rising_step gs _ m₁ fuel 0 hrise hrep₁ hctx₁ hsort hlen (fun he => absurd he hgs)
    refine ⟨m', climb (.node .nil n .nil) gs, ?_, ⟨hrep, ?_, ?_⟩, ?_, hsize.trans hsize₁⟩
    · have htop : top gs a = top gs 0 := by
        cases gs with
        | nil => exact absurd rfl hgs
        | cons f fs => rfl
      rw [ptr_node] at hd
      rw [Mem.insert, ptr_node, if_neg h.rep.ptr_ne, hd, htop]
      simp only [Option.bind_some, hm₁]
      exact hclimb
    · rw [keys_climb]
      exact hsort
    · obtain ⟨⟨k, hg⟩, hs⟩ := hrise
      exact bal_climb_grown gs _ k hg hs
    · rw [keys_climb, ht, keys_plug, keys_plug]
      simp only [keys_node, keys_nil, List.nil_append, List.append_nil, List.append_assoc,
        List.singleton_append]
      exact List.perm_middle

/-! ## Deletion -/

/-- What `Delete` leaves after taking the node out: `t` in the frames `fs`, one level lower than
what was there, with the remaining keys. -/
structure Spliced (m m₁ : Mem) (root : Nat) (t : SearchTree Nat) (fs : List (Frame Nat))
    (keys : List Nat) : Prop where
  size : m₁.size = m.size
  rep : Rep m₁ t (top fs 0)
  ctx : Ctx m₁ fs (ptr t) 0
  root : fs = [] → root = ptr t
  bal : t.Bal
  frames : FrameBal fs (t.height + 1)
  keys : (plug t fs).keys = keys

theorem unlink_eq (m : Mem) (root : Nat) {prev node : Nat} (t : Nat) (h : node ≠ prev) :
    m.unlink root prev node t = (m.replaceChild prev node t, if prev = 0 then t else root) := by
  unfold Mem.unlink Mem.replaceChild
  split
  · rfl
  · split
    · rw [if_neg (by omega)]
    · rw [if_pos (by omega)]

/-- A node with at most one child `t` is replaced by it. -/
theorem unlink_spec {m m' : Mem} {l r t : SearchTree Nat} {a : Nat} (root : Nat) {fs : List (Frame Nat)}
    (hsort : Sorted (plug (.node l a r) fs).keys) (ha0 : a ≠ 0)
    (hbal : (plug (.node l a r) fs).Bal) (hsize : m'.size = m.size) (hrep : Rep m' t (top fs 0))
    (hctx : Ctx m' fs a 0) (hkeys : t.keys = l.keys ++ r.keys) (ht : t.Bal)
    (hh : t.height + 1 = (SearchTree.node l a r).height) :
    ∃ m₁ root₁, m'.unlink root (top fs 0) a (ptr t) = (m₁, root₁) ∧
      Spliced m m₁ root₁ t fs (before fs ++ (l.keys ++ r.keys) ++ after fs) := by
  have hta := (top_ne hsort (x := a) (by simp) ha0).symm
  refine ⟨_, _, unlink_eq m' root (ptr t) hta, ⟨?_, ?_, ?_, ?_, ht, ?_, ?_⟩⟩
  · exact (replaceChild_rest m' _ _ _).1.trans hsize
  · refine hrep.frame fun x hx => replaceChild_same m' a _ ?_
    refine (top_ne hsort ?_ (hrep.keys_ne x hx)).symm
    rw [hkeys, List.mem_append] at hx
    rw [keys_node, List.mem_append, List.mem_cons]
    rcases hx with hx | hx
    · exact .inl hx
    · exact .inr (.inr hx)
  · exact hctx.replaceChild hsort (by simp)
  · intro he
    rw [he]
    rfl
  · rw [hh]
    exact ((bal_plug fs _).mp hbal).2
  · rw [keys_plug, hkeys]

/-- Moving an only child up under `prev`. -/
theorem setParent_spec {m : Mem} {t l r : SearchTree Nat} {a : Nat} {fs : List (Frame Nat)}
    (hsort : Sorted (plug (.node l a r) fs).keys) (hrep : Rep m t a) (hctx : Ctx m fs a 0)
    (hne : ptr t ≠ 0) (hsub : ∀ x ∈ t.keys, x ∈ (SearchTree.node l a r).keys) (hnd : t.keys.Nodup) :
    Rep (m.setParent (ptr t) (top fs 0)) t (top fs 0) ∧
      Ctx (m.setParent (ptr t) (top fs 0)) fs a 0 := by
  have hsame : ∀ x, x ≠ ptr t → Same m (m.setParent (ptr t) (top fs 0)) x := fun x hx =>
    ⟨rfl, rfl, if_neg hx, rfl⟩
  refine ⟨hrep.reparent (fun x _ hx => hsame x hx) rfl rfl rfl (fun _ => if_pos rfl) hnd, ?_⟩
  exact hctx.frame fun y hy => hsame y fun he =>
    not_around hsort (hsub _ (ptr_mem hne)) (he ▸ hy)

/-- The search for the successor ends at the leftmost node. -/
theorem leftmost_spec {m : Mem} : ∀ (t : SearchTree Nat) (p fuel last : Nat), Rep m t p → ptr t ≠ 0 →
    t.keys.length < fuel →
    ∃ gs s sr, t = plug (.node .nil s sr) gs ∧ (∀ f ∈ gs, ∃ b u, f = .left b u) ∧
      m.leftmost fuel last (ptr t) = some s
  | .nil, _, _, _, _, hne, _ => absurd rfl hne
  | .node l b r, p, fuel, last, ⟨h0, hl, _, _, _, hrl, _⟩, _, hfuel => by
    simp only [keys_node, List.length_append, List.length_cons] at hfuel
    obtain ⟨k, rfl⟩ : ∃ k, fuel = k + 2 := ⟨fuel - 2, by omega⟩
    rw [ptr_node, Mem.leftmost, if_neg h0, hl]
    by_cases hnil : ptr l = 0
    · rw [hrl.eq_nil hnil]
      exact ⟨[], b, r, rfl, by simp, rfl⟩
    · obtain ⟨gs, s, sr, ht, hgs, hs⟩ := leftmost_spec l b (k + 1) b hrl hnil (by omega)
      refine ⟨gs ++ [.left b r], s, sr, ?_, ?_, hs⟩
      · rw [plug_append, ← ht]
        rfl
      · intro f hf
        rcases List.mem_append.mp hf with hf | hf
        · exact hgs f hf
        · exact ⟨b, r, List.mem_singleton.mp hf⟩

theorem outer_around : ∀ {gs : List (Frame Nat)} (x : Nat), gs ≠ [] → Around gs (outer gs x)
  | [], _, hne => absurd rfl hne
  | [.left a r], x, _ => around_left.mpr (.inl rfl)
  | [.right l a], x, _ => around_right.mpr (.inl rfl)
  | .left a r :: g :: gs, x, _ => around_left.mpr (.inr (.inr (outer_around a (by simp))))
  | .right l a :: g :: gs, x, _ => around_right.mpr (.inr (.inr (outer_around a (by simp))))

/-- Moving a chain of left frames under another node: only the outermost parent pointer changes. -/
theorem Ctx.rebase {m m' : Mem} {q : Nat} : ∀ {gs : List (Frame Nat)} {x p : Nat}, Ctx m gs x p →
    gs ≠ [] → (∀ f ∈ gs, ∃ b u, f = .left b u) →
    (∀ y, Around gs y → y ≠ outer gs x → Same m m' y) →
    (∀ y, m'.left y = m.left y ∧ m'.right y = m.right y) → m'.parent (outer gs x) = q →
    Sorted (plug .nil gs).keys → Ctx m' gs x q
  | [], _, _, _, hne, _, _, _, _, _ => absurd rfl hne
  | .right l a :: gs, _, _, _, _, hleft, _, _, _, _ => by
    obtain ⟨b, u, he⟩ := hleft _ List.mem_cons_self
    cases he
  | [.left a r], x, p, ⟨h0, hl, hr, _, hrep, _⟩, _, _, hs, hlinks, hq, hsort => by
    refine ⟨h0, (hlinks a).1.trans hl, (hlinks a).2.trans hr, hq, ?_, trivial⟩
    refine hrep.frame fun y hy => hs y (around_left.mpr (.inr (.inl hy))) ?_
    exact Nat.ne_of_gt ((sorted_node (sorted_plug (t := .node .nil a r) hsort).1).2.2.2 y hy)
  | .left a r :: g :: gs, x, p, ⟨h0, hl, hr, hp, hrep, hctx⟩, _, hleft, hs, hlinks, hq, hsort => by
    have hout : Around (g :: gs) (outer (g :: gs) a) := outer_around a (by simp)
    have hmem : ∀ y ∈ (SearchTree.node .nil a r).keys, y ≠ outer (g :: gs) a := fun y hy he =>
      not_around (t := .node .nil a r) hsort hy (he ▸ hout)
    refine ⟨h0, (hlinks a).1.trans hl, (hlinks a).2.trans hr, ?_, ?_, ?_⟩
    · exact (hs a (around_left.mpr (.inl rfl)) (hmem a (by simp))).parent.trans hp
    · exact hrep.frame fun y hy => hs y (around_left.mpr (.inr (.inl hy))) (hmem y (by simp [hy]))
    · refine hctx.rebase (by simp) (fun f hf => hleft f (List.mem_cons_of_mem _ hf)) ?_ hlinks hq
        (sorted_hole (t := .node .nil a r) hsort)
      exact fun y hy hne => hs y (around_left.mpr (.inr (.inr hy))) hne

theorem setLeft_right (m : Mem) (a x y : Nat) : (m.setLeft a x).right y = m.right y := rfl

theorem replaceChild_tail (m : Mem) (root prev s start : Nat) :
    (if prev = 0 then (m, s, start) else if s < prev then (m.setLeft prev s, root, start)
      else (m.setRight prev s, root, start)) =
      (m.replaceChild prev s s, if prev = 0 then s else root, start) := by
  unfold Mem.replaceChild
  split
  · rfl
  · split <;> rfl

/-- The fields after the two-children case, the successor being the right child. -/
theorem spliceSuccessor_near {m : Mem} (root : Nat) {node s l p : Nat} (hp : m.parent node = p)
    (hl : m.left node = l) (hs : m.parent s = node) :
    ∃ m', m.spliceSuccessor root node s = (m', if p = 0 then s else root, s) ∧ m'.size = m.size ∧
      (∀ y, m'.left y = if y = p ∧ p ≠ 0 ∧ s < p then s else if y = s then l else m.left y) ∧
      (∀ y, m'.right y = if y = p ∧ p ≠ 0 ∧ ¬ s < p then s else m.right y) ∧
      (∀ y, m'.parent y = if y = s then p else if y = l then s else m.parent y) ∧
      ∀ y, y ≠ s → m'.height y = m.height y := by
  unfold Mem.spliceSuccessor
  simp only [hp, hl, hs, if_true]
  rw [replaceChild_tail]
  refine ⟨_, rfl, ?_⟩
  simp only [replaceChild_left, replaceChild_right, replaceChild_rest, Mem.updateHeight,
    Mem.setHeight, Mem.setParent, Mem.setLeft]
  refine ⟨trivial, ?_, ?_, ?_, ?_⟩ <;> grind [put]

/-- The fields after the two-children case, the successor deeper down. -/
theorem spliceSuccessor_far {m : Mem} (root : Nat) {node s l r i b p : Nat} (hp : m.parent node = p)
    (hl : m.left node = l) (hr : m.right node = r) (hs : m.parent s = b) (hi : m.right s = i)
    (hb : b ≠ node) :
    ∃ m', m.spliceSuccessor root node s = (m', if p = 0 then s else root, b) ∧ m'.size = m.size ∧
      (∀ y, m'.left y = if y = p ∧ p ≠ 0 ∧ s < p then s else if y = s then l else
        if y = b then i else m.left y) ∧
      (∀ y, m'.right y = if y = p ∧ p ≠ 0 ∧ ¬ s < p then s else if y = s then r else m.right y) ∧
      (∀ y, m'.parent y = if y = s then p else if y = l then s else if y = r then s else
        if y = i ∧ i ≠ 0 then b else m.parent y) ∧
      ∀ y, y ≠ s → m'.height y = m.height y := by
  unfold Mem.spliceSuccessor
  simp only [hp, hl, hr, hs, hi, hb, if_false, setLeft_right]
  rw [replaceChild_tail]
  refine ⟨_, rfl, ?_⟩
  simp only [replaceChild_left, replaceChild_right, replaceChild_rest]
  by_cases hi0 : i = 0
  · simp only [hi0, if_true, Mem.updateHeight, Mem.setHeight, Mem.setParent, Mem.setLeft, Mem.setRight]
    refine ⟨trivial, ?_, ?_, ?_, ?_⟩ <;> grind [put]
  · simp only [hi0, if_false, Mem.updateHeight, Mem.setHeight, Mem.setParent, Mem.setLeft, Mem.setRight]
    refine ⟨trivial, ?_, ?_, ?_, ?_⟩ <;> grind [put]

/-- Above the deleted node and to its left, the successor only takes its place. -/
theorem successor_outer {m m₁ : Mem} {l r : SearchTree Nat} {a s : Nat} {fs : List (Frame Nat)}
    (hsort : Sorted (plug (.node l a r) fs).keys) (hs : s ∈ r.keys) (hrepl : Rep m l a)
    (hctx : Ctx m fs a 0)
    (hL : ∀ y, y ∉ r.keys →
      m₁.left y = if y = top fs 0 ∧ top fs 0 ≠ 0 ∧ s < top fs 0 then s else m.left y)
    (hR : ∀ y, y ∉ r.keys →
      m₁.right y = if y = top fs 0 ∧ top fs 0 ≠ 0 ∧ ¬ s < top fs 0 then s else m.right y)
    (hP : ∀ y, y ∉ r.keys → m₁.parent y = if y = ptr l then s else m.parent y)
    (hH : ∀ y, y ∉ r.keys → m₁.height y = m.height y) : Rep m₁ l s ∧ Ctx m₁ fs s 0 := by
  obtain ⟨hsl, -, hla, har⟩ := sorted_node (sorted_plug hsort).1
  have hlr : ∀ x ∈ l.keys, x ∉ r.keys := fun x hx hxr => by
    have h1 := hla x hx
    have h2 := har x hxr
    omega
  have hltop : ∀ x ∈ l.keys, x ≠ top fs 0 := fun x hx =>
    (top_ne hsort (by simp [hx]) (hrepl.keys_ne x hx)).symm
  have hlinks : ∀ x ∈ l.keys, m₁.left x = m.left x ∧ m₁.right x = m.right x ∧
      m₁.height x = m.height x := fun x hx =>
    ⟨by rw [hL x (hlr x hx), if_neg fun h => hltop x hx h.1],
      by rw [hR x (hlr x hx), if_neg fun h => hltop x hx h.1], hH x (hlr x hx)⟩
  refine ⟨?_, ?_⟩
  · refine hrepl.moved hlinks (fun x hx hne => ?_) (fun hnil => ?_) hsl.nodup
    · rw [hP x (hlr x hx), if_neg hne]
    · rw [hP _ (hlr _ (ptr_mem hnil)), if_pos rfl]
  · have hout : ∀ y, Around fs y → y ∉ r.keys ∧ y ≠ ptr l := by
      intro y hy
      refine ⟨?_, ?_⟩
      · intro hyr
        exact not_around hsort (x := y) (by simp [hyr]) hy
      · intro he
        have hin := ptr_mem (he ▸ hctx.keys_ne y hy)
        exact not_around hsort (x := ptr l) (by simp [hin]) (he ▸ hy)
    refine hctx.repoint (repointed_of_sorted (a := s) hsort (by simp [hs]) hctx (fun y hy => ?_)
      (fun y hy => ?_) fun y hy => ?_) (fun y hy ht => ?_) (sorted_hole hsort)
    · exact hL y (hout y hy).1
    · exact hR y (hout y hy).1
    · rw [hP y (hout y hy).1, if_neg (hout y hy).2]
    · exact ⟨by rw [hL y (hout y hy).1, if_neg fun h => ht h.1],
        by rw [hR y (hout y hy).1, if_neg fun h => ht h.1],
        by rw [hP y (hout y hy).1, if_neg (hout y hy).2], hH y (hout y hy).1⟩

theorem successor_near {m : Mem} {l sr : SearchTree Nat} {a s : Nat} (root : Nat) {fs : List (Frame Nat)}
    (hrep : Rep m (.node l a (.node .nil s sr)) (top fs 0)) (hctx : Ctx m fs a 0)
    (hsort : Sorted (plug (.node l a (.node .nil s sr)) fs).keys) :
    ∃ m₁, m.spliceSuccessor root a s = (m₁, if top fs 0 = 0 then s else root, s) ∧
      m₁.size = m.size ∧ Rep m₁ sr s ∧ Ctx m₁ (.right l s :: fs) (ptr sr) 0 := by
  obtain ⟨ha0, hl, hr, hp, -, hrepl, ⟨hs0, hsl, hsr, hsp, -, -, hrepsr⟩⟩ := hrep
  obtain ⟨m₁, heq, hsize, hL, hR, hP, hH⟩ := spliceSuccessor_near root hp hl hsp
  have hts := (top_ne hsort (x := s) (by simp) hs0).symm
  obtain ⟨-, hss, hla, har⟩ := sorted_node (sorted_plug hsort).1
  obtain ⟨-, -, -, hlts⟩ := sorted_node hss
  have hns : ∀ y, y ∉ (SearchTree.node .nil s sr).keys → y ≠ s := fun y hy he => hy (by simp [he])
  obtain ⟨hrepl', hctx'⟩ := successor_outer hsort (s := s) (by simp) hrepl hctx
    (fun y hy => by rw [hL, if_neg (hns y hy)]) (fun y _ => hR y)
    (fun y hy => by rw [hP, if_neg (hns y hy)]) fun y hy => hH y (hns y hy)
  refine ⟨m₁, heq, hsize, ?_, hs0, ?_, ?_, ?_, hrepl', hctx'⟩
  · refine hrepsr.frame fun x hx => ?_
    have hxs : x ≠ s := Nat.ne_of_gt (hlts x hx)
    have hxt : x ≠ top fs 0 := (top_ne hsort (by simp [hx]) (hrepsr.keys_ne x hx)).symm
    have hxl : x ≠ ptr l := (ptr_ne (hrepsr.keys_ne x hx) fun y hy => by
      have h1 := hla y hy
      have h2 := har x (by simp [hx])
      omega).symm
    exact ⟨by rw [hL, if_neg fun h => hxt h.1, if_neg hxs], by rw [hR, if_neg fun h => hxt h.1],
      by rw [hP, if_neg hxs, if_neg hxl], hH x hxs⟩
  · rw [hL, if_neg fun h => hts h.1, if_pos rfl]
  · rw [hR, if_neg fun h => hts h.1, hsr]
  · rw [hP, if_pos rfl]

theorem ptr_plug : ∀ (gs : List (Frame Nat)) (t : SearchTree Nat), ptr (plug t gs) = outer gs (ptr t)
  | [], _ => rfl
  | .left a r :: gs, t => by
    rw [plug, ptr_plug gs]
    rfl
  | .right l a :: gs, t => by
    rw [plug, ptr_plug gs]
    rfl

theorem mem_keys_plug {t : SearchTree Nat} {gs : List (Frame Nat)} {x : Nat} :
    x ∈ (plug t gs).keys ↔ x ∈ t.keys ∨ Around gs x := by
  rw [keys_plug, List.mem_append, List.mem_append, Around]
  exact ⟨fun h => by rcases h with (h | h) | h <;> simp [h],
    fun h => by rcases h with h | h | h <;> simp [h]⟩

theorem top_eq {gs : List (Frame Nat)} (h : gs ≠ []) (p q : Nat) : top gs p = top gs q := by
  cases gs with
  | nil => exact absurd rfl h
  | cons g gs => rfl

/-- The way down to the successor, when its right subtree is in its place and the uppermost node has the parent `s`. -/
theorem Ctx.respliced {m m₁ : Mem} {sr : SearchTree Nat} {a s : Nat} {gs : List (Frame Nat)} (h : Ctx m gs s a) (hgs : gs ≠ [])
    (hleft : ∀ f ∈ gs, ∃ b u, f = .left b u) (hsort : Sorted (plug (.node .nil s sr) gs).keys)
    (hL : ∀ y, Around gs y → m₁.left y = if y = top gs 0 then ptr sr else m.left y)
    (hR : ∀ y, Around gs y → m₁.right y = m.right y)
    (hP : ∀ y, Around gs y → m₁.parent y = if y = outer gs s then s else m.parent y)
    (hH : ∀ y, Around gs y → m₁.height y = m.height y) : Ctx m₁ gs (ptr sr) s := by
  have hbase : Ctx (m.setParent (outer gs s) s) gs s s := h.rebase hgs hleft
    (fun y _ hne => ⟨rfl, rfl, if_neg hne, rfl⟩) (fun y => ⟨rfl, rfl⟩) (if_pos rfl) (sorted_hole hsort)
  have hpar : ∀ y, Around gs y → m₁.parent y = (m.setParent (outer gs s) s).parent y := hP
  refine hbase.repoint ?_ (fun y hy ht => ?_) (sorted_hole hsort)
  · cases gs with
    | nil => trivial
    | cons g gs =>
      obtain ⟨b, u, rfl⟩ := hleft g List.mem_cons_self
      exact ⟨by rw [hL b around_top]; exact if_pos rfl, hR b around_top, hpar b around_top⟩
  · exact ⟨by rw [hL y hy, if_neg ht]; rfl, hR y hy, hpar y hy, hH y hy⟩

theorem successor_far {m : Mem} {l sr : SearchTree Nat} {a s : Nat} (root : Nat)
    {gs fs : List (Frame Nat)} (hgs : gs ≠ []) (hleft : ∀ f ∈ gs, ∃ b u, f = .left b u)
    (hrep : Rep m (.node l a (plug (.node .nil s sr) gs)) (top fs 0)) (hctx : Ctx m fs a 0)
    (hsort : Sorted (plug (.node l a (plug (.node .nil s sr) gs)) fs).keys) :
    ∃ m₁, m.spliceSuccessor root a s = (m₁, if top fs 0 = 0 then s else root, top gs 0) ∧
      m₁.size = m.size ∧ Rep m₁ sr (top gs 0) ∧ Ctx m₁ gs (ptr sr) s ∧
      Ctx m₁ (.right l s :: fs) (outer gs (ptr sr)) 0 := by
  obtain ⟨ha0, hl, hr, hp, -, hrepl, hrepr⟩ := hrep
  obtain ⟨⟨hs0, -, hsr, hsp, -, -, hrepsr⟩, hctxg⟩ := rep_plug gs _ hrepr
  obtain ⟨-, hsortr, hla, har⟩ := sorted_node (sorted_plug hsort).1
  obtain ⟨hsorts, -, -⟩ := sorted_plug hsortr
  obtain ⟨-, hsortsr, -, hlts⟩ := sorted_node hsorts
  rw [top_eq hgs a 0] at hsp
  have hb : Around gs (top gs 0) := by
    cases gs with
    | nil => exact absurd rfl hgs
    | cons g gs => exact around_top
  have hin : ∀ {x}, x = s ∨ x ∈ sr.keys ∨ Around gs x → x ∈ (plug (.node .nil s sr) gs).keys := by
    intro x hx
    rw [mem_keys_plug]
    rcases hx with h | h | h
    · exact .inl (by simp [h])
    · exact .inl (by simp [h])
    · exact .inr h
  have hptr : ptr (plug (.node .nil s sr) gs) = outer gs s := ptr_plug gs _
  have hout := outer_around s hgs
  have hba : top gs 0 ≠ a := Nat.ne_of_gt (har _ (hin (.inr (.inr hb))))
  obtain ⟨m₁, heq, hsize, hL, hR, hP, hH⟩ := spliceSuccessor_far root hp hl hr hsp hsr hba
  rw [hptr] at hR hP
  -- what every address inside the right subtree is known to differ from
  have hrt : ∀ x ∈ (plug (.node .nil s sr) gs).keys, x ≠ top fs 0 ∧ x ≠ ptr l := by
    intro x hx
    have hx0 := hrepr.keys_ne x hx
    refine ⟨(top_ne hsort (by simp [hx]) hx0).symm, (ptr_ne hx0 fun y hy => ?_).symm⟩
    have h1 := hla y hy
    have h2 := har x hx
    omega
  have hsr' : ∀ x ∈ sr.keys, x ≠ s ∧ ¬ Around gs x := fun x hx =>
    ⟨Nat.ne_of_gt (hlts x hx), not_around hsortr (by simp [hx])⟩
  have hg : ∀ x, Around gs x → x ≠ s ∧ ¬ (x = ptr sr ∧ ptr sr ≠ 0) := fun x hx =>
    ⟨fun he => not_around hsortr (x := s) (by simp) (he ▸ hx),
      fun he => not_around hsortr (x := ptr sr) (by simp [ptr_mem he.2]) (he.1 ▸ hx)⟩
  obtain ⟨hrepl', hctx'⟩ : Rep m₁ l s ∧ Ctx m₁ fs s 0 := by
    have hne : ∀ y, y ∉ (plug (.node .nil s sr) gs).keys → y ≠ s ∧ y ≠ top gs 0 ∧ y ≠ outer gs s ∧
        ¬ (y = ptr sr ∧ ptr sr ≠ 0) := fun y hy =>
      ⟨fun he => hy (hin (.inl he)), fun he => hy (hin (.inr (.inr (he ▸ hb)))),
        fun he => hy (hin (.inr (.inr (he ▸ hout)))),
        fun he => hy (hin (.inr (.inl (he.1 ▸ ptr_mem he.2))))⟩
    refine successor_outer hsort (hin (.inl rfl)) hrepl hctx (fun y hy => ?_) (fun y hy => ?_)
      (fun y hy => ?_) fun y hy => hH y (hne y hy).1
    · rw [hL, if_neg (hne y hy).1, if_neg (hne y hy).2.1]
    · rw [hR, if_neg (hne y hy).1]
    · rw [hP, if_neg (hne y hy).1, if_neg (hne y hy).2.2.1, if_neg (hne y hy).2.2.2]
  have hts := (hrt s (hin (.inl rfl))).1
  refine ⟨m₁, heq, hsize, ?_, ?_, hs0, ?_, ?_, ?_, hrepl', hctx'⟩
  · have hlinks : ∀ x ∈ sr.keys, m₁.left x = m.left x ∧ m₁.right x = m.right x ∧
        m₁.height x = m.height x := by
      intro x hx
      have hxt := (hrt x (hin (.inr (.inl hx)))).1
      have hxb : x ≠ top gs 0 := fun he => (hsr' x hx).2 (he ▸ hb)
      exact ⟨by rw [hL, if_neg fun h => hxt h.1, if_neg (hsr' x hx).1, if_neg hxb],
        by rw [hR, if_neg fun h => hxt h.1, if_neg (hsr' x hx).1], hH x (hsr' x hx).1⟩
    have hpar : ∀ x ∈ sr.keys, m₁.parent x = if x = ptr sr ∧ ptr sr ≠ 0 then top gs 0 else
        m.parent x := by
      intro x hx
      have hxo : x ≠ outer gs s := fun he => (hsr' x hx).2 (he ▸ hout)
      rw [hP, if_neg (hsr' x hx).1, if_neg (hrt x (hin (.inr (.inl hx)))).2, if_neg hxo]
    refine hrepsr.moved hlinks (fun x hx hne => ?_) (fun hnil => ?_) hsortsr.nodup
    · rw [hpar x hx, if_neg fun h => hne h.1]
    · rw [hpar _ (ptr_mem hnil), if_pos ⟨rfl, hnil⟩]
  · have hout' : ∀ y, Around gs y → ¬ (y = top fs 0) := fun y hy => (hrt y (hin (.inr (.inr hy)))).1
    refine hctxg.respliced hgs hleft hsortr (fun y hy => ?_) (fun y hy => ?_) (fun y hy => ?_) fun y hy => hH y (hg y hy).1
    · rw [hL, if_neg fun h => hout' y hy h.1, if_neg (hg y hy).1]
    · rw [hR, if_neg fun h => hout' y hy h.1, if_neg (hg y hy).1]
    · rw [hP, if_neg (hg y hy).1, if_neg (hrt y (hin (.inr (.inr hy)))).2, if_neg (hg y hy).2]
      rfl
  · rw [hL, if_neg fun h => hts h.1, if_pos rfl]
  · rw [hR, if_neg fun h => hts h.1, if_pos rfl]
    cases gs with
    | nil => exact absurd rfl hgs
    | cons g gs => rfl
  · rw [hP, if_pos rfl]

/-- The two-children case of `Delete`: the successor's right subtree is the new hole content. -/
theorem spliceSuccessor_spec {m : Mem} {l r sr : SearchTree Nat} {a s : Nat} (root : Nat)
    {gs fs : List (Frame Nat)} (hr : r = plug (.node .nil s sr) gs)
    (hleft : ∀ f ∈ gs, ∃ b u, f = .left b u) (hrep : Rep m (.node l a r) (top fs 0))
    (hctx : Ctx m fs a 0) (hsort : Sorted (plug (.node l a r) fs).keys)
    (hbal : (plug (.node l a r) fs).Bal) :
    ∃ m₁ root₁, m.spliceSuccessor root a s = (m₁, root₁, top (gs ++ .right l s :: fs) 0) ∧
      Spliced m m₁ root₁ sr (gs ++ .right l s :: fs) (before fs ++ (l.keys ++ r.keys) ++ after fs) := by
  subst hr
  have hmem : ∃ m₁, m.spliceSuccessor root a s =
      (m₁, if top fs 0 = 0 then s else root, top (gs ++ .right l s :: fs) 0) ∧ m₁.size = m.size ∧
      Rep m₁ sr (top (gs ++ .right l s :: fs) 0) ∧ Ctx m₁ (gs ++ .right l s :: fs) (ptr sr) 0 := by
    by_cases hgs : gs = []
    · subst hgs
      obtain ⟨m₁, heq, hsize, hrep', hctx'⟩ := successor_near root hrep hctx hsort
      exact ⟨m₁, heq, hsize, hrep', hctx'⟩
    · obtain ⟨m₁, heq, hsize, hrep', hin, hout⟩ := successor_far root hgs hleft hrep hctx hsort
      rw [top_append, top_eq hgs _ 0]
      exact ⟨m₁, heq, hsize, hrep', (ctx_append gs _).mpr ⟨hin, hout⟩⟩
  obtain ⟨m₁, heq, hsize, hrep', hctx'⟩ := hmem
  have hwhole : plug (.node l a (plug (.node .nil s sr) gs)) fs =
      plug (.node .nil s sr) (gs ++ .right l a :: fs) := by
    rw [plug_append]
    rfl
  rw [hwhole, bal_plug] at hbal
  obtain ⟨⟨-, -, -, hsr⟩, hframes⟩ := hbal
  refine ⟨m₁, _, heq, hsize, hrep', hctx', by simp, hsr, ?_, ?_⟩
  · rw [height_node, height_nil, Nat.zero_max] at hframes
    refine (frameBal_congr ?_).mp hframes
    simp [Frame.sibling]
  · have hb : before gs = [] := by
      clear hwhole hframes hctx' hrep' heq hsort hrep
      induction gs with
      | nil => rfl
      | cons g gs ih =>
        obtain ⟨b, u, rfl⟩ := hleft g List.mem_cons_self
        exact ih fun f hf => hleft f (List.mem_cons_of_mem _ hf)
    rw [keys_plug, keys_plug, before_append, after_append, hb]
    simp [before, after]

/-- `Delete` up to the rebalancing. -/
theorem splice_spec {m : Mem} {l r : SearchTree Nat} {a fuel : Nat} (root : Nat) {fs : List (Frame Nat)}
    (h : IsAvl m (plug (.node l a r) fs)) (hfuel : (plug (.node l a r) fs).keys.length < fuel) :
    ∃ m₁ root₁ t fs', m.splice fuel root a = some (m₁, root₁, top fs' 0) ∧
      Spliced m m₁ root₁ t fs' (before fs ++ (l.keys ++ r.keys) ++ after fs) := by
  obtain ⟨hwhole, hsort, hbal⟩ := h
  obtain ⟨hrep, hctx⟩ := rep_plug fs _ hwhole
  obtain ⟨ha0, hl, hr, hp, -, hrepl, hrepr⟩ := hrep
  obtain ⟨hnode, -⟩ := (bal_plug fs _).mp hbal
  obtain ⟨-, -, hball, hbalr⟩ := hnode
  obtain ⟨hsl, hsr, -, -⟩ := sorted_node (sorted_plug hsort).1
  unfold Mem.splice
  simp only [hl, hr, hp]
  by_cases hl0 : ptr l = 0
  · obtain rfl := hrepl.eq_nil hl0
    by_cases hr0 : ptr r = 0
    · obtain rfl := hrepr.eq_nil hr0
      rw [if_pos ⟨rfl, rfl⟩]
      obtain ⟨m₁, root₁, heq, hsp⟩ := unlink_spec (t := .nil) root hsort ha0 hbal rfl
        trivial hctx rfl trivial rfl
      rw [show m.unlink root (top fs 0) a 0 = (m₁, root₁) from heq]
      exact ⟨m₁, root₁, .nil, fs, rfl, hsp⟩
    · rw [if_neg fun h => hr0 h.2, if_neg hr0, if_pos hl0]
      obtain ⟨hrep', hctx'⟩ := setParent_spec hsort hrepr hctx hr0
        (fun x hx => by simp [hx]) hsr.nodup
      obtain ⟨m₁, root₁, heq, hsp⟩ := unlink_spec root hsort ha0 hbal
        (show (m.setParent (ptr r) (top fs 0)).size = m.size from rfl) hrep' hctx' rfl hbalr (by simp)
      rw [heq]
      exact ⟨m₁, root₁, r, fs, rfl, hsp⟩
  · by_cases hr0 : ptr r = 0
    · obtain rfl := hrepr.eq_nil hr0
      rw [if_neg fun h => hl0 h.1, if_pos hr0]
      obtain ⟨hrep', hctx'⟩ := setParent_spec hsort hrepl hctx hl0
        (fun x hx => by simp [hx]) hsl.nodup
      obtain ⟨m₁, root₁, heq, hsp⟩ := unlink_spec root hsort ha0 hbal
        (show (m.setParent (ptr l) (top fs 0)).size = m.size from rfl) hrep' hctx' (by simp) hball
        (by simp)
      rw [heq]
      exact ⟨m₁, root₁, l, fs, rfl, hsp⟩
    · rw [if_neg fun h => hl0 h.1, if_neg hr0, if_neg hl0]
      have hlen : r.keys.length < fuel := by
        rw [keys_plug] at hfuel
        simp only [keys_node, List.length_append, List.length_cons] at hfuel
        omega
      obtain ⟨gs, s, sr, hplug, hleft, hsucc⟩ := leftmost_spec r a fuel (ptr r) hrepr hr0 hlen
      obtain ⟨m₁, root₁, heq, hsp⟩ := spliceSuccessor_spec root hplug hleft
        (rep_plug fs _ hwhole).1 hctx hsort hbal
      rw [hsucc]
      exact ⟨m₁, root₁, sr, _, congrArg some heq, hsp⟩

/-- A balanced root needs nothing from `Rebalance`. -/
theorem rebalance_balanced {m : Mem} {t : SearchTree Nat} (n : Nat) (hrep : Rep m t 0) (hbal : t.Bal)
    (hsort : Sorted t.keys) (hne : ptr t ≠ 0) :
    ∃ m', m.rebalance (ptr t) n = (m', ptr t) ∧ m'.size = m.size ∧ Rep m' t 0 := by
  cases t with
  | nil => exact absurd rfl hne
  | node l a r =>
    obtain ⟨ha0, hl, hr, hp, -, hrepl, hrepr⟩ := hrep
    have hz : Zip m l a r [] := ⟨ha0, hl, hr, hp, hrepl, hrepr, trivial, hsort⟩
    obtain ⟨-, hsize, hrep'⟩ := hz.updateHeight
    refine ⟨m.updateHeight a, ?_, hsize, hrep'⟩
    have hbf : (m.updateHeight a).getBalanceFactor a = (l.height : Int) - r.height :=
      getBalanceFactor_rep hrep' (by simp)
    obtain ⟨h1, h2, -, -⟩ := hbal
    rw [ptr_node, Mem.rebalance]
    simp only [hbf]
    rw [if_neg (by omega)]

/-- `Delete` of a node of the tree returns, and takes it out. -/
theorem delete_spec {m : Mem} {t : SearchTree Nat} {a fuel : Nat} (h : IsAvl m t) (ha : a ∈ t.keys)
    (hfuel : t.keys.length < fuel) :
    ∃ m' t', m.delete fuel (ptr t) a = some (m', ptr t') ∧ IsAvl m' t' ∧
      t.keys.Perm (a :: t'.keys) ∧ m'.size = m.size := by
  obtain ⟨l, r, fs, rfl⟩ := exists_plug t ha
  obtain ⟨m₁, root₁, u, gs, heq, hsp⟩ := splice_spec (ptr (plug (.node l a r) fs)) h hfuel
  have hperm : (plug (.node l a r) fs).keys.Perm (a :: (plug u gs).keys) := by
    rw [hsp.keys, keys_plug]
    simp only [keys_node, List.append_assoc, List.cons_append]
    exact ((List.perm_middle.append_left _).trans List.perm_middle)
  have hsort : Sorted (plug u gs).keys := by
    refine List.Pairwise.sublist ?_ h.sorted
    rw [hsp.keys, keys_plug]
    simp
  have hroot : ptr (plug (.node l a r) fs) ≠ 0 := by
    intro he
    have := h.rep.eq_nil he
    rw [this] at ha
    cases ha
  have ha0 := h.rep.keys_ne a ha
  rw [Mem.delete, if_neg (by simp [hroot, ha0]), heq]
  simp only [Option.bind_some]
  by_cases hgs : gs = []
  · subst hgs
    rw [hsp.root rfl, if_pos (show top [] 0 = 0 from rfl)]
    have hrep₁ : Rep m₁ u 0 := hsp.rep
    by_cases hu : ptr u = 0
    · rw [if_pos hu]
      obtain rfl := hrep₁.eq_nil hu
      exact ⟨m₁, .nil, rfl, ⟨trivial, List.Pairwise.nil, trivial⟩, hperm, hsp.size⟩
    · rw [if_neg hu]
      obtain ⟨m', hreb, hsize, hrep'⟩ := rebalance_balanced a hrep₁ hsp.bal hsort hu
      exact ⟨m', u, congrArg some hreb, ⟨hrep', hsort, hsp.bal⟩, hperm, hsize.trans hsp.size⟩
  · have htop : top gs 0 ≠ 0 := by
      cases gs with
      | nil => exact absurd rfl hgs
      | cons g gs => exact hsp.ctx.keys_ne _ around_top
    have hlen : gs.length < fuel := by
      have h1 := length_le_keys gs u
      have h2 := hperm.length_eq
      rw [List.length_cons] at h2
      omega
    rw [if_neg htop]
    obtain ⟨m', hclimb, hsize, hrep'⟩ := climb_spec (I := fun _ _ => True) Mem.rebalanceDeleted
      (fun _ _ _ => rfl) (fun _ => trivial) gs u m₁ fuel 0 trivial hsp.rep hsp.ctx hsort hlen
      (fun he => absurd he hgs)
    refine ⟨m', climb u gs, hclimb, ⟨hrep', ?_, ?_⟩, ?_, hsize.trans hsp.size⟩
    · rw [keys_climb]
      exact hsort
    · exact bal_climb_shrunk gs u _ hsp.bal hsp.frames (.inr rfl)
    · rw [keys_climb]
      exact hperm

/-! ## Runs -/

/-- What a block holds when it is inserted: its size, and whatever its owner left behind. -/
structure Block where
  size : Nat
  left : Nat
  right : Nat
  parent : Nat
  height : Nat

def Mem.store (m : Mem) (a : Nat) (b : Block) : Mem where
  size := put m.size a b.size
  left := put m.left a b.left
  right := put m.right a b.right
  parent := put m.parent a b.parent
  height := put m.height a b.height

inductive Op where
  | insert (n : Nat) (b : Block)
  | delete (n : Nat)

/-- One call on the memory and the root pointer. -/
def treeStep (fuel : Nat) : Mem × Nat → Op → Option (Mem × Nat)
  | (m, root), .insert n b => (m.store n b).insert fuel root n
  | (m, root), .delete n => m.delete fuel root n

/-- The nodes in the tree after a call, with their sizes. -/
def nodesAfter (nodes : List (Nat × Nat)) : Op → List (Nat × Nat)
  | .insert n b => (n, b.size) :: nodes
  | .delete n => nodes.filter (·.1 ≠ n)

/-- Addresses inserted are new and not null, addresses deleted are in the tree. -/
def Op.Ok (nodes : List (Nat × Nat)) : Op → Prop
  | .insert n _ => n ≠ 0 ∧ n ∉ nodes.map (·.1)
  | .delete n => n ∈ nodes.map (·.1)

instance (nodes : List (Nat × Nat)) : ∀ op : Op, Decidable (op.Ok nodes)
  | .insert n _ => inferInstanceAs (Decidable (n ≠ 0 ∧ n ∉ nodes.map (·.1)))
  | .delete n => inferInstanceAs (Decidable (n ∈ nodes.map (·.1)))

def Valid : List (Nat × Nat) → List Op → Prop
  | _, [] => True
  | nodes, op :: ops => op.Ok nodes ∧ Valid (nodesAfter nodes op) ops

instance decidableValid : ∀ (nodes : List (Nat × Nat)) (ops : List Op), Decidable (Valid nodes ops)
  | _, [] => inferInstanceAs (Decidable True)
  | nodes, op :: ops =>
    have := decidableValid (nodesAfter nodes op) ops
    inferInstanceAs (Decidable (op.Ok nodes ∧ Valid (nodesAfter nodes op) ops))

/-- The tree under `root` is an AVL tree of exactly the nodes in `nodes`, with their sizes. -/
def Holds (nodes : List (Nat × Nat)) (s : Mem × Nat) : Prop :=
  ∃ t, s.2 = ptr t ∧ IsAvl s.1 t ∧ t.keys.Perm (nodes.map (·.1)) ∧ ∀ p ∈ nodes, s.1.size p.1 = p.2

theorem IsAvl.store {m : Mem} {t : SearchTree Nat} {n : Nat} (h : IsAvl m t) (hn : n ∉ t.keys) (b : Block) :
    IsAvl (m.store n b) t :=
  ⟨h.rep.frame fun x hx =>
    have hne : x ≠ n := fun he => hn (he ▸ hx)
    ⟨if_neg hne, if_neg hne, if_neg hne, if_neg hne⟩, h.sorted, h.bal⟩

theorem perm_filter_of_cons {nodes : List (Nat × Nat)} {l : List Nat} {n : Nat}
    (hp : (n :: l).Perm (nodes.map (·.1))) (hn : n ∉ l) :
    l.Perm ((nodes.filter (·.1 ≠ n)).map (·.1)) := by
  have h := hp.filter (fun x => decide (x ≠ n))
  rw [List.filter_cons_of_neg (by simp), List.filter_eq_self.mpr fun x hx => by
    simp only [decide_eq_true_eq]
    exact fun he => hn (he ▸ hx)] at h
  rw [List.filter_map] at h
  exact h

/-- One valid call on a good tree returns a good tree. -/
theorem treeStep_holds {nodes : List (Nat × Nat)} {s : Mem × Nat} {op : Op}
    {fuel : Nat} (h : Holds nodes s) (hv : op.Ok nodes) (hfuel : nodes.length < fuel) :
    ∃ s', treeStep fuel s op = some s' ∧ Holds (nodesAfter nodes op) s' := by
  obtain ⟨m, root⟩ := s
  obtain ⟨t, rfl, havl, hperm, hsize⟩ := h
  have hlen := hperm.length_eq
  rw [List.length_map] at hlen
  cases op with
  | insert n b =>
    obtain ⟨hn0, hn⟩ := hv
    have hnt : n ∉ t.keys := fun h => hn (hperm.mem_iff.mp h)
    obtain ⟨m', t', heq, havl', hp', hs'⟩ :=
      insert_spec (havl.store hnt b) hn0 hnt (Nat.lt_of_le_of_lt (Nat.le_of_eq hlen) hfuel)
    refine ⟨(m', ptr t'), heq, t', rfl, havl', hp'.trans (hperm.cons n), ?_⟩
    intro p hp
    change m'.size p.1 = p.2
    rw [hs']
    rcases List.mem_cons.mp hp with rfl | hp
    · exact if_pos rfl
    · have hne : p.1 ≠ n := fun he => hn (he ▸ List.mem_map_of_mem hp)
      exact (if_neg hne).trans (hsize p hp)
  | delete n =>
    obtain ⟨m', t', heq, havl', hp', hs'⟩ :=
      delete_spec havl (hperm.mem_iff.mpr hv) (Nat.lt_of_le_of_lt (Nat.le_of_eq hlen) hfuel)
    have hnd := hp'.nodup_iff.mp havl.sorted.nodup
    refine ⟨(m', ptr t'), heq, t', rfl, havl', ?_, ?_⟩
    · exact perm_filter_of_cons (hp'.symm.trans hperm) (List.nodup_cons.mp hnd).1
    · intro p hp
      change m'.size p.1 = p.2
      rw [hs']
      exact hsize p (List.mem_filter.mp hp).1

theorem run_holds : ∀ (ops : List Op) (nodes : List (Nat × Nat)) (s : Mem × Nat) (fuel : Nat),
    Holds nodes s → Valid nodes ops → nodes.length + ops.length < fuel →
    ∃ s', Core.Machine.run (treeStep fuel) s ops = some s' ∧ Holds (ops.foldl nodesAfter nodes) s'
  | [], nodes, s, fuel, h, _, _ => ⟨s, rfl, h⟩
  | op :: ops, nodes, s, fuel, h, hv, hfuel => by
    rw [List.length_cons] at hfuel
    have hlt : nodes.length < fuel := by omega
    obtain ⟨s₁, hstep, h₁⟩ := treeStep_holds h hv.1 hlt
    have hlen : (nodesAfter nodes op).length ≤ nodes.length + 1 := by
      cases op with
      | insert n b => exact Nat.le_refl _
      | delete n => exact Nat.le_succ_of_le (List.length_filter_le _ _)
    obtain ⟨s', hrun, h'⟩ := run_holds ops _ s₁ fuel h₁ hv.2 (by omega)
    exact ⟨s', by rw [Core.Machine.run, hstep]; exact hrun, h'⟩

/-- After every valid sequence of `Insert` and `Delete` calls from the empty tree, the calls have
returned and the tree is an AVL tree of the nodes inserted and not deleted, sizes unchanged. -/
theorem tree_avl (m : Mem) (ops : List Op) (fuel : Nat) (hv : Valid [] ops)
    (hfuel : ops.length < fuel) :
    ∃ s', Core.Machine.run (treeStep fuel) (m, 0) ops = some s' ∧
      Holds (ops.foldl nodesAfter []) s' :=
  run_holds ops [] (m, 0) fuel
    ⟨.nil, rfl, ⟨trivial, List.Pairwise.nil, trivial⟩, List.Perm.refl _, by simp⟩ hv (by simpa using hfuel)

theorem tree_avl_three_blocks :
    ∃ s', Core.Machine.run (treeStep 5) (⟨id, id, id, id, id⟩, 0)
        [.insert 4096 ⟨64, 1, 2, 3, 4⟩, .insert 4160 ⟨40, 0, 0, 0, 0⟩, .insert 8192 ⟨48, 7, 7, 7, 7⟩,
          .delete 4160] = some s' ∧
      Holds [(8192, 48), (4096, 64)] s' :=
  tree_avl ⟨id, id, id, id, id⟩ _ 5 (by decide) (by decide)

end BadLands.Mm.HeapTree
