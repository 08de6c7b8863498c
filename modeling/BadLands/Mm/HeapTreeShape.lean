import BadLands.Core.Avl
import BadLands.Mm.HeapTree

/-!
# Trees in memory

`Rep m t p`: the nodes of `t` are linked in `m` the way `t` says, with right heights and with
`p` as the root's parent. `Ctx m fs x p`: the frames of `fs` are linked around a hole whose
child pointer is `x`, with `p` above the outermost one; their own heights may be stale.
`Zip m l a r fs`: the node `a` with children `l` and `r` sits in `fs`, stale itself.

Rotations and the repair loop of `Delete` are shown to do what `rotL`, `rotR` and `fix` do on
trees (`rotate_left`, `rotate_right`, `rebalanceDeleted_spec`), and a climb what `Avl.climb`
does (`climb_spec`).
-/
namespace BadLands.Mm.HeapTree

open BadLands.Core.Avl

/-- Pointer to the root. -/
def ptr : SearchTree Nat → Nat
  | .nil => 0
  | .node _ a _ => a

@[simp] theorem ptr_nil : ptr .nil = 0 := rfl

@[simp] theorem ptr_node (l : SearchTree Nat) (a : Nat) (r : SearchTree Nat) : ptr (.node l a r) = a := rfl

def Rep (m : Mem) : SearchTree Nat → Nat → Prop
  | .nil, _ => True
  | .node l a r, p => a ≠ 0 ∧ m.left a = ptr l ∧ m.right a = ptr r ∧ m.parent a = p ∧
      m.height a = (SearchTree.node l a r).height ∧ Rep m l a ∧ Rep m r a

/-- The node above a hole, `p` for the outermost one. -/
def top : List (Frame Nat) → Nat → Nat
  | [], p => p
  | f :: _, _ => f.key

/-- What the hole of the next segment holds. -/
def outer : List (Frame Nat) → Nat → Nat
  | [], x => x
  | f :: fs, _ => outer fs f.key

def Ctx (m : Mem) : List (Frame Nat) → Nat → Nat → Prop
  | [], _, _ => True
  | .left a r :: fs, x, p => a ≠ 0 ∧ m.left a = x ∧ m.right a = ptr r ∧ m.parent a = top fs p ∧
      Rep m r a ∧ Ctx m fs a p
  | .right l a :: fs, x, p => a ≠ 0 ∧ m.left a = ptr l ∧ m.right a = x ∧ m.parent a = top fs p ∧
      Rep m l a ∧ Ctx m fs a p

theorem top_append (fs gs : List (Frame Nat)) (p : Nat) : top (fs ++ gs) p = top fs (top gs p) := by
  cases fs <;> rfl

theorem ctx_append {m : Mem} {p : Nat} {gs : List (Frame Nat)} : ∀ (fs : List (Frame Nat)) (x : Nat),
    Ctx m (fs ++ gs) x p ↔ Ctx m fs x (top gs p) ∧ Ctx m gs (outer fs x) p
  | [], x => by simp [Ctx, outer]
  | .left a r :: fs, x => by
    simp only [List.cons_append, Ctx, ctx_append fs a, top_append, outer, Frame.key, and_assoc]
  | .right l a :: fs, x => by
    simp only [List.cons_append, Ctx, ctx_append fs a, top_append, outer, Frame.key, and_assoc]

/-! ## What a write elsewhere leaves alone -/

/-- The links and the height of `x` are the same in both memories. -/
structure Same (m m' : Mem) (x : Nat) : Prop where
  left : m'.left x = m.left x
  right : m'.right x = m.right x
  parent : m'.parent x = m.parent x
  height : m'.height x = m.height x

theorem Rep.frame {m m' : Mem} : ∀ {t : SearchTree Nat} {p : Nat}, Rep m t p →
    (∀ x ∈ t.keys, Same m m' x) → Rep m' t p
  | .nil, _, _, _ => trivial
  | .node l a r, p, ⟨h0, hl, hr, hp, hh, hrl, hrr⟩, hs => by
    have ha := hs a (by simp)
    refine ⟨h0, ha.left.trans hl, ha.right.trans hr, ha.parent.trans hp, ha.height.trans hh, ?_, ?_⟩
    · exact hrl.frame fun x hx => hs x (by simp [hx])
    · exact hrr.frame fun x hx => hs x (by simp [hx])

theorem ptr_mem {t : SearchTree Nat} (h : ptr t ≠ 0) : ptr t ∈ t.keys := by
  cases t with
  | nil => exact absurd rfl h
  | node l a r => simp

theorem Rep.ptr_ne {m : Mem} {l r : SearchTree Nat} {a p : Nat} (h : Rep m (.node l a r) p) : a ≠ 0 := h.1

theorem Rep.eq_nil {m : Mem} {t : SearchTree Nat} {p : Nat} (h : Rep m t p) (h0 : ptr t = 0) :
    t = .nil := by
  cases t with
  | nil => rfl
  | node l a r => exact absurd h0 h.1

theorem Rep.keys_ne {m : Mem} : ∀ {t : SearchTree Nat} {p : Nat}, Rep m t p → ∀ x ∈ t.keys, x ≠ 0
  | .nil, _, _, x, hx => by cases hx
  | .node l a r, p, ⟨h0, _, _, _, _, hrl, hrr⟩, x, hx => by
    rw [keys_node, List.mem_append, List.mem_cons] at hx
    rcases hx with hx | hx | hx
    · exact hrl.keys_ne x hx
    · exact hx ▸ h0
    · exact hrr.keys_ne x hx

/-- Writing the root's parent moves the tree under it. -/
theorem Rep.reparent {m m' : Mem} {t : SearchTree Nat} {p q : Nat} (h : Rep m t p)
    (hs : ∀ x ∈ t.keys, x ≠ ptr t → Same m m' x)
    (hl : m'.left (ptr t) = m.left (ptr t)) (hr : m'.right (ptr t) = m.right (ptr t))
    (hh : m'.height (ptr t) = m.height (ptr t)) (hq : t ≠ .nil → m'.parent (ptr t) = q)
    (hnd : t.keys.Nodup) : Rep m' t q := by
  cases t with
  | nil => trivial
  | node l a r =>
    obtain ⟨h0, hl', hr', -, hh', hrl, hrr⟩ := h
    rw [keys_node, List.nodup_append, List.nodup_cons] at hnd
    obtain ⟨-, ⟨har, -⟩, hd⟩ := hnd
    refine ⟨h0, hl.trans hl', hr.trans hr', hq (by simp), hh.trans hh', ?_, ?_⟩
    · exact hrl.frame fun x hx => hs x (by simp [hx]) (hd x hx a (by simp))
    · exact hrr.frame fun x hx => hs x (by simp [hx]) fun he => har ((show x = a from he) ▸ hx)

/-- The same for a tree that may be empty, with what is written to each of its nodes. -/
theorem Rep.moved {m m' : Mem} {t : SearchTree Nat} {p q : Nat} (h : Rep m t p)
    (hlinks : ∀ x ∈ t.keys, m'.left x = m.left x ∧ m'.right x = m.right x ∧ m'.height x = m.height x)
    (hparent : ∀ x ∈ t.keys, x ≠ ptr t → m'.parent x = m.parent x) (hroot : ptr t ≠ 0 → m'.parent (ptr t) = q)
    (hnd : t.keys.Nodup) : Rep m' t q := by
  by_cases hnil : ptr t = 0
  · rw [h.eq_nil hnil]
    trivial
  · obtain ⟨hleft, hright, hheight⟩ := hlinks _ (ptr_mem hnil)
    refine h.reparent (fun x hx hne => ?_) hleft hright hheight (fun _ => hroot hnil) hnd
    obtain ⟨hl, hr, hh⟩ := hlinks x hx
    exact ⟨hl, hr, hparent x hx hne, hh⟩

theorem Ctx.keys_ne {m : Mem} : ∀ {fs : List (Frame Nat)} {x p : Nat}, Ctx m fs x p →
    ∀ y, Around fs y → y ≠ 0
  | [], _, _, _, y, hy => by simp [Around, before, after] at hy
  | .left a r :: fs, x, p, ⟨h0, _, _, _, hrep, hctx⟩, y, hy => by
    rcases around_left.mp hy with rfl | hy | hy
    · exact h0
    · exact hrep.keys_ne y hy
    · exact hctx.keys_ne y hy
  | .right l a :: fs, x, p, ⟨h0, _, _, _, hrep, hctx⟩, y, hy => by
    rcases around_right.mp hy with rfl | hy | hy
    · exact h0
    · exact hrep.keys_ne y hy
    · exact hctx.keys_ne y hy

theorem Ctx.frame {m m' : Mem} : ∀ {fs : List (Frame Nat)} {x p : Nat}, Ctx m fs x p →
    (∀ y, Around fs y → Same m m' y) → Ctx m' fs x p
  | [], _, _, _, _ => trivial
  | .left a r :: fs, x, p, ⟨h0, hl, hr, hp, hrep, hctx⟩, hs => by
    have ha := hs a (around_left.mpr (.inl rfl))
    refine ⟨h0, ha.left.trans hl, ha.right.trans hr, ha.parent.trans hp, ?_, ?_⟩
    · exact hrep.frame fun y hy => hs y (around_left.mpr (.inr (.inl hy)))
    · exact hctx.frame fun y hy => hs y (around_left.mpr (.inr (.inr hy)))
  | .right l a :: fs, x, p, ⟨h0, hl, hr, hp, hrep, hctx⟩, hs => by
    have ha := hs a (around_right.mpr (.inl rfl))
    refine ⟨h0, ha.left.trans hl, ha.right.trans hr, ha.parent.trans hp, ?_, ?_⟩
    · exact hrep.frame fun y hy => hs y (around_right.mpr (.inr (.inl hy)))
    · exact hctx.frame fun y hy => hs y (around_right.mpr (.inr (.inr hy)))

/-! ## Order -/

/-- The keys of a tree, strictly ascending. -/
def Sorted (l : List Nat) : Prop := l.Pairwise (· < ·)

theorem sorted_append {l l' : List Nat} :
    Sorted (l ++ l') ↔ Sorted l ∧ Sorted l' ∧ ∀ x ∈ l, ∀ y ∈ l', x < y := List.pairwise_append

theorem sorted_cons {a : Nat} {l : List Nat} : Sorted (a :: l) ↔ (∀ x ∈ l, a < x) ∧ Sorted l :=
  List.pairwise_cons

theorem Sorted.nodup {l : List Nat} (h : Sorted l) : l.Nodup :=
  List.Pairwise.imp (fun hlt => Nat.ne_of_lt hlt) h

theorem sorted_node {l r : SearchTree Nat} {a : Nat} (h : Sorted (SearchTree.node l a r).keys) :
    Sorted l.keys ∧ Sorted r.keys ∧ (∀ x ∈ l.keys, x < a) ∧ ∀ x ∈ r.keys, a < x := by
  rw [keys_node, sorted_append, sorted_cons] at h
  exact ⟨h.1, h.2.1.2, fun x hx => h.2.2 x hx a (by simp), h.2.1.1⟩

theorem sorted_plug {t : SearchTree Nat} {fs : List (Frame Nat)} (h : Sorted (plug t fs).keys) :
    Sorted t.keys ∧ (∀ y ∈ before fs, ∀ x ∈ t.keys, y < x) ∧ (∀ x ∈ t.keys, ∀ y ∈ after fs, x < y) := by
  rw [keys_plug, sorted_append, sorted_append] at h
  exact ⟨h.1.2.1, h.1.2.2, fun x hx y hy => h.2.2 x (by simp [hx]) y hy⟩

theorem not_around {t : SearchTree Nat} {fs : List (Frame Nat)} (h : Sorted (plug t fs).keys) {x : Nat}
    (hx : x ∈ t.keys) : ¬ Around fs x := by
  obtain ⟨-, hb, ha⟩ := sorted_plug h
  rintro (hy | hy)
  · exact Nat.lt_irrefl x (hb x hy x hx)
  · exact Nat.lt_irrefl x (ha x hx x hy)

theorem around_top {f : Frame Nat} {fs : List (Frame Nat)} : Around (f :: fs) f.key := by
  cases f with
  | left a r => exact around_left.mpr (.inl rfl)
  | right l a => exact around_right.mpr (.inl rfl)

theorem top_around {fs : List (Frame Nat)} (h : top fs 0 ≠ 0) : Around fs (top fs 0) := by
  cases fs with
  | nil => exact absurd rfl h
  | cons f fs => exact around_top

/-- The node `a` with children `l` and `r` in `fs`: everything is in place but its height. -/
structure Zip (m : Mem) (l : SearchTree Nat) (a : Nat) (r : SearchTree Nat) (fs : List (Frame Nat)) : Prop where
  ne : a ≠ 0
  left : m.left a = ptr l
  right : m.right a = ptr r
  parent : m.parent a = top fs 0
  repLeft : Rep m l a
  repRight : Rep m r a
  ctx : Ctx m fs a 0
  sorted : Sorted (plug (.node l a r) fs).keys

theorem getHeight_rep {m : Mem} {t : SearchTree Nat} {p : Nat} (h : Rep m t p) :
    m.getHeight (ptr t) = t.height := by
  cases t with
  | nil => rfl
  | node l a r =>
    unfold Mem.getHeight
    rw [ptr_node, if_neg h.1]
    exact h.2.2.2.2.1

/-- The hole's pointer in the innermost frame is now `x`, nothing else of it has changed. -/
def Repointed (m m' : Mem) : List (Frame Nat) → Nat → Prop
  | [], _ => True
  | .left a _ :: _, x => m'.left a = x ∧ m'.right a = m.right a ∧ m'.parent a = m.parent a
  | .right _ a :: _, x => m'.right a = x ∧ m'.left a = m.left a ∧ m'.parent a = m.parent a

theorem Ctx.repoint {m m' : Mem} {fs : List (Frame Nat)} {x x' p : Nat} (h : Ctx m fs x p)
    (hd : Repointed m m' fs x') (hs : ∀ y, Around fs y → y ≠ top fs 0 → Same m m' y)
    (hnd : Sorted (plug .nil fs).keys) : Ctx m' fs x' p := by
  cases fs with
  | nil => trivial
  | cons f fs =>
    cases f with
    | left a r =>
      obtain ⟨h0, -, hr, hp, hrep, hctx⟩ := h
      obtain ⟨hl', hr', hp'⟩ := hd
      have ha : ∀ y ∈ r.keys, y ≠ a := fun y hy he => by
        have := (sorted_node (sorted_plug (t := .node .nil a r) hnd).1).2.2.2 y hy
        omega
      refine ⟨h0, hl', hr'.trans hr, hp'.trans hp, ?_, ?_⟩
      · exact hrep.frame fun y hy => hs y (around_left.mpr (.inr (.inl hy))) (ha y hy)
      · refine hctx.frame fun y hy => hs y (around_left.mpr (.inr (.inr hy))) fun he => ?_
        exact not_around (t := .node .nil a r) hnd (by simp) ((show y = a from he) ▸ hy)
    | right l a =>
      obtain ⟨h0, hl, -, hp, hrep, hctx⟩ := h
      obtain ⟨hr', hl', hp'⟩ := hd
      have ha : ∀ y ∈ l.keys, y ≠ a := fun y hy he => by
        have := (sorted_node (sorted_plug (t := .node l a .nil) hnd).1).2.2.1 y hy
        omega
      refine ⟨h0, hl'.trans hl, hr', hp'.trans hp, ?_, ?_⟩
      · exact hrep.frame fun y hy => hs y (around_right.mpr (.inr (.inl hy))) (ha y hy)
      · refine hctx.frame fun y hy => hs y (around_right.mpr (.inr (.inr hy))) fun he => ?_
        exact not_around (t := .node l a .nil) hnd (by simp) ((show y = a from he) ▸ hy)

/-! ## Rotations -/

theorem replaceChild_left (m : Mem) (p a b y : Nat) : (m.replaceChild p a b).left y =
    if y = p ∧ p ≠ 0 ∧ a < p then b else m.left y := by
  unfold Mem.replaceChild
  split
  · simp [*]
  · split <;> simp [Mem.setLeft, Mem.setRight, put, *]

theorem replaceChild_right (m : Mem) (p a b y : Nat) : (m.replaceChild p a b).right y =
    if y = p ∧ p ≠ 0 ∧ ¬ a < p then b else m.right y := by
  unfold Mem.replaceChild
  split
  · simp [*]
  · split <;> simp_all [Mem.setLeft, Mem.setRight, put]

theorem replaceChild_rest (m : Mem) (p a b : Nat) : (m.replaceChild p a b).size = m.size ∧
    (m.replaceChild p a b).parent = m.parent ∧ (m.replaceChild p a b).height = m.height := by
  unfold Mem.replaceChild
  split
  · simp
  · split <;> simp [Mem.setLeft, Mem.setRight]

/-- What a rotation writes: `replaceChild` is the change of the parent's pointer. -/
theorem rotate_fields {d : Side} {m : Mem} {a b i p : Nat} (hb : m.child d.opp a = b) (hi : m.child d b = i)
    (hp : m.parent a = p) (ha0 : a ≠ 0) (hb0 : b ≠ 0) (hab : a ≠ b) (hia : i ≠ a) (hpa : p ≠ a)
    (hpb : p ≠ b) (hob : m.child d.opp b ≠ a) :
    ∃ m', m.rotate d a = (m', b) ∧ m'.size = m.size ∧
      (∀ y, m'.child d y = if y = b then a else (m.replaceChild p a b).child d y) ∧
      (∀ y, m'.child d.opp y = if y = a then i else (m.replaceChild p a b).child d.opp y) ∧
      (∀ y, m'.parent y = if y = b then p else if y = a then b else
        if y = i ∧ i ≠ 0 then a else m.parent y) ∧
      (∀ y, y ≠ a → y ≠ b → m'.height y = m.height y) ∧
      m'.height a = max (m.getHeight (m.child d a)) (m.getHeight i) + 1 ∧
      m'.height b = max (m'.height a) (m.getHeight (m.child d.opp b)) + 1 := by
  unfold Mem.rotate
  simp only [hb, hi, ha0, hb0, or_self, if_false]
  refine ⟨_, rfl, ?_⟩
  rw [show (if i = 0 then Mem.setChild (Mem.setChild m d.opp a i) d b a else
      (Mem.setChild (Mem.setChild m d.opp a i) d b a).setParent i a).parent a = p by
    cases d <;> split <;> simp [Mem.setChild, Side.opp, Mem.setRight, Mem.setLeft, Mem.setParent, put, hp, hia.symm]]
  cases d <;> simp only [Mem.child, Side.opp] at hb hi hob <;>
    simp only [Mem.child, Side.opp, Mem.updateHeight, Mem.setHeight, Mem.getHeight, replaceChild_left,
      replaceChild_right, replaceChild_rest, Mem.setParent, Mem.setChild, Mem.setLeft, Mem.setRight] <;>
    by_cases hi0 : i = 0 <;> simp only [hi0, if_true, if_false] <;>
    refine ⟨trivial, ?_, ?_, ?_, ?_, ?_, ?_⟩ <;> grind [put]

/-- Replacing the hole's pointer by address comparison hits the right one. -/
theorem repointed_of_sorted {m m' : Mem} {t : SearchTree Nat} {fs : List (Frame Nat)} {a b x : Nat}
    (hs : Sorted (plug t fs).keys) (ha : a ∈ t.keys) (hctx : Ctx m fs x 0)
    (hl : ∀ y, Around fs y → m'.left y =
      if y = top fs 0 ∧ top fs 0 ≠ 0 ∧ a < top fs 0 then b else m.left y)
    (hr : ∀ y, Around fs y → m'.right y =
      if y = top fs 0 ∧ top fs 0 ≠ 0 ∧ ¬ a < top fs 0 then b else m.right y)
    (hp : ∀ y, Around fs y → m'.parent y = m.parent y) : Repointed m m' fs b := by
  cases fs with
  | nil => trivial
  | cons f fs =>
    have hne := hctx.keys_ne _ around_top
    obtain ⟨-, hbef, haft⟩ := sorted_plug hs
    cases f with
    | left c r =>
      have hac : a < c := haft a ha c (by simp [after])
      refine ⟨?_, ?_, hp c around_top⟩
      · rw [hl c around_top, if_pos ⟨rfl, hne, hac⟩]
      · rw [hr c around_top, if_neg fun h => h.2.2 hac]
    | right l c =>
      have hac : c < a := hbef c (by simp [before]) a ha
      refine ⟨?_, ?_, hp c around_top⟩
      · rw [hr c around_top, if_pos ⟨rfl, hne, Nat.lt_asymm hac⟩]
      · rw [hl c around_top, if_neg fun h => Nat.lt_asymm hac h.2.2]

theorem sorted_hole {t : SearchTree Nat} {fs : List (Frame Nat)} (h : Sorted (plug t fs).keys) :
    Sorted (plug .nil fs).keys := by
  rw [keys_plug] at h ⊢
  rw [keys_nil, List.append_nil]
  rw [sorted_append, sorted_append] at h
  rw [sorted_append]
  exact ⟨h.1.1, h.2.1, fun x hx y hy => h.2.2 x (by simp [hx]) y hy⟩

/-- The code's way to redirect the hole of `fs` from the key `a` of `t` to `b`. -/
theorem Ctx.replaceChild {m : Mem} {t : SearchTree Nat} {fs : List (Frame Nat)} {a b x : Nat}
    (hctx : Ctx m fs x 0) (hs : Sorted (plug t fs).keys) (ha : a ∈ t.keys) :
    Ctx (m.replaceChild (top fs 0) a b) fs b 0 := by
  obtain ⟨-, hp, hh⟩ := replaceChild_rest m (top fs 0) a b
  refine hctx.repoint (repointed_of_sorted hs ha hctx (fun y _ => replaceChild_left m _ a b y)
    (fun y _ => replaceChild_right m _ a b y) fun y _ => by rw [hp]) (fun y _ ht => ?_)
    (sorted_hole hs)
  exact ⟨by rw [replaceChild_left, if_neg fun h => ht h.1],
    by rw [replaceChild_right, if_neg fun h => ht h.1], by rw [hp], by rw [hh]⟩

theorem replaceChild_same (m : Mem) {p x : Nat} (a b : Nat) (h : x ≠ p) :
    Same m (m.replaceChild p a b) x := by
  obtain ⟨-, hp, hh⟩ := replaceChild_rest m p a b
  exact ⟨by rw [replaceChild_left, if_neg fun he => h he.1],
    by rw [replaceChild_right, if_neg fun he => h he.1], by rw [hp], by rw [hh]⟩

theorem ptr_ne {t : SearchTree Nat} {x : Nat} (hx : x ≠ 0) (h : ∀ y ∈ t.keys, y ≠ x) : ptr t ≠ x := by
  intro he
  exact h _ (ptr_mem (he ▸ hx)) he

theorem top_ne {t : SearchTree Nat} {fs : List (Frame Nat)} (h : Sorted (plug t fs).keys) {x : Nat}
    (hx : x ∈ t.keys) (h0 : x ≠ 0) : top fs 0 ≠ x := by
  intro he
  exact not_around h hx (he ▸ top_around (he ▸ h0))

/-- What a rotation of `a` under `b` leaves in place: `s` stays with `a`, `i` moves from `b` to
`a`, `o` stays with `b`, and the frames point to `b` instead of `a`. -/
theorem relinked {m m' : Mem} {t s i o : SearchTree Nat} {a b : Nat} {fs : List (Frame Nat)}
    (hsort : Sorted (plug t fs).keys) (hperm : t.keys.Perm (a :: b :: (s.keys ++ i.keys ++ o.keys)))
    (hs : Rep m s a) (hi : Rep m i b) (ho : Rep m o b) (hctx : Ctx m fs a 0)
    (hL : ∀ y, y ≠ a → y ≠ b →
      m'.left y = if y = top fs 0 ∧ top fs 0 ≠ 0 ∧ a < top fs 0 then b else m.left y)
    (hR : ∀ y, y ≠ a → y ≠ b →
      m'.right y = if y = top fs 0 ∧ top fs 0 ≠ 0 ∧ ¬ a < top fs 0 then b else m.right y)
    (hP : ∀ y, y ≠ a → y ≠ b → m'.parent y = if y = ptr i ∧ ptr i ≠ 0 then a else m.parent y)
    (hH : ∀ y, y ≠ a → y ≠ b → m'.height y = m.height y) :
    Rep m' s a ∧ Rep m' i a ∧ Rep m' o b ∧ Ctx m' fs b 0 := by
  have hnd := hperm.nodup_iff.mp (sorted_plug hsort).1.nodup
  simp only [List.nodup_cons, List.mem_cons, List.mem_append, List.nodup_append, not_or] at hnd
  obtain ⟨⟨hab, ⟨has, hai⟩, hao⟩, ⟨⟨hbs, hbi⟩, hbo⟩, ⟨hsnd, hind, hsi⟩, hond, hso⟩ := hnd
  have hmem : ∀ {x}, x = a ∨ x = b ∨ x ∈ s.keys ∨ x ∈ i.keys ∨ x ∈ o.keys → x ∈ t.keys := by
    intro x hx
    refine hperm.mem_iff.mpr ?_
    simp only [List.mem_cons, List.mem_append]
    rcases hx with h | h | h | h | h <;> simp [h]
  have hlinks : ∀ x, x ≠ a → x ≠ b → x ≠ top fs 0 →
      m'.left x = m.left x ∧ m'.right x = m.right x ∧ m'.height x = m.height x := by
    intro x h1 h2 h3
    exact ⟨by rw [hL x h1 h2, if_neg fun h => h3 h.1], by rw [hR x h1 h2, if_neg fun h => h3 h.1],
      hH x h1 h2⟩
  have hsame : ∀ x, x ≠ a → x ≠ b → x ≠ top fs 0 → x ≠ ptr i → Same m m' x := by
    intro x h1 h2 h3 h4
    obtain ⟨e1, e2, e3⟩ := hlinks x h1 h2 h3
    exact ⟨e1, e2, by rw [hP x h1 h2, if_neg fun h => h4 h.1], e3⟩
  have htop : ∀ x ∈ t.keys, x ≠ 0 → x ≠ top fs 0 := fun x hx h0 => (top_ne hsort hx h0).symm
  refine ⟨?_, ?_, ?_, ?_⟩
  · refine hs.frame fun x hx => hsame x ?_ ?_ ?_ ?_
    · exact fun he => has (he ▸ hx)
    · exact fun he => hbs (he ▸ hx)
    · exact htop x (hmem (by simp [hx])) (hs.keys_ne x hx)
    · exact (ptr_ne (hs.keys_ne x hx) fun y hy => (hsi x hx y hy).symm).symm
  · have hia : ∀ x ∈ i.keys, x ≠ a := fun x hx he => hai (he ▸ hx)
    have hib : ∀ x ∈ i.keys, x ≠ b := fun x hx he => hbi (he ▸ hx)
    refine hi.moved (fun x hx => ?_) (fun x hx hne => ?_) (fun hnil => ?_) hind
    · exact hlinks x (hia x hx) (hib x hx) (htop x (hmem (by simp [hx])) (hi.keys_ne x hx))
    · rw [hP x (hia x hx) (hib x hx), if_neg fun h => hne h.1]
    · rw [hP _ (hia _ (ptr_mem hnil)) (hib _ (ptr_mem hnil)), if_pos ⟨rfl, hnil⟩]
  · refine ho.frame fun x hx => hsame x ?_ ?_ ?_ ?_
    · exact fun he => hao (he ▸ hx)
    · exact fun he => hbo (he ▸ hx)
    · exact htop x (hmem (by simp [hx])) (ho.keys_ne x hx)
    · exact (ptr_ne (ho.keys_ne x hx) fun y hy => hso y (.inr hy) x hx).symm
  · have hout : ∀ y, Around fs y → y ≠ a ∧ y ≠ b ∧ y ≠ ptr i := by
      intro y hy
      refine ⟨?_, ?_, ?_⟩
      · intro he
        exact not_around hsort (x := a) (hmem (by simp)) (he ▸ hy)
      · intro he
        exact not_around hsort (x := b) (hmem (by simp)) (he ▸ hy)
      · intro he
        have hin := ptr_mem (he ▸ hctx.keys_ne y hy)
        exact not_around hsort (x := ptr i) (hmem (by simp [hin])) (he ▸ hy)
    refine hctx.repoint (repointed_of_sorted hsort (hmem (.inl rfl)) hctx (fun y hy => ?_)
      (fun y hy => ?_) fun y hy => ?_) (fun y hy ht => ?_) (sorted_hole hsort)
    · exact hL y (hout y hy).1 (hout y hy).2.1
    · exact hR y (hout y hy).1 (hout y hy).2.1
    · rw [hP y (hout y hy).1 (hout y hy).2.1, if_neg fun h => (hout y hy).2.2 h.1]
    · exact hsame y (hout y hy).1 (hout y hy).2.1 ht (hout y hy).2.2

/-- `RotateLeft` does what `rotL` does, in any context. -/
theorem rotate_left {m : Mem} {l rl rr : SearchTree Nat} {a b : Nat} {fs : List (Frame Nat)}
    (hz : Zip m l a (.node rl b rr) fs) :
    ∃ m', m.rotateLeft a = (m', b) ∧ m'.size = m.size ∧
      Rep m' (.node (.node l a rl) b rr) (top fs 0) ∧ Ctx m' fs b 0 := by
  obtain ⟨ha0, hl, hr, hp, hrepl, ⟨hb0, hbl, hbr, -, -, hreprl, hreprr⟩, hctx, hsort⟩ := hz
  rw [ptr_node] at hr
  obtain ⟨-, hsr, -, har⟩ := sorted_node (sorted_plug hsort).1
  obtain ⟨-, -, hrlb, hrrb⟩ := sorted_node hsr
  have hab : a < b := har b (by simp)
  have hta := top_ne hsort (x := a) (by simp) ha0
  have htb := top_ne hsort (x := b) (by simp) hb0
  obtain ⟨m', hrot, hsize, hL, hR, hP, hH, hHa, hHb⟩ := rotate_fields (d := .left) hr hbl hp ha0 hb0
    (Nat.ne_of_lt hab) (ptr_ne ha0 fun y hy => Nat.ne_of_gt (har y (by simp [hy]))) hta htb
    (fun he => ptr_ne ha0 (fun y hy => Nat.ne_of_gt (har y (by simp [hy]))) (hbr.symm.trans he))
  simp only [Mem.child, Side.opp, replaceChild_left, replaceChild_right] at hL hR hHa hHb
  have hheight : m'.height a = max l.height rl.height + 1 := by
    rw [hHa, hl, getHeight_rep hrepl, getHeight_rep hreprl]
  obtain ⟨hl', hrl', hrr', hctx'⟩ := relinked (b := b) hsort (by
      simp only [keys_node]
      grind) hrepl hreprl hreprr hctx
    (fun y _ h2 => by rw [hL, if_neg h2]) (fun y h1 _ => by rw [hR, if_neg h1])
    (fun y h1 h2 => by rw [hP, if_neg h2, if_neg h1]) hH
  refine ⟨m', hrot, hsize, ⟨hb0, ?_, ?_, ?_, ?_, ⟨ha0, ?_, ?_, ?_, hheight, hl', hrl'⟩, hrr'⟩, hctx'⟩
  · rw [hL, if_pos rfl, ptr_node]
  · rw [hR, if_neg (Nat.ne_of_gt hab), if_neg fun h => htb h.1.symm, hbr]
  · rw [hP, if_pos rfl]
  · rw [hHb, hheight, hbr, getHeight_rep hreprr]
    rfl
  · rw [hL, if_neg (Nat.ne_of_lt hab), if_neg fun h => hta h.1.symm, hl]
  · rw [hR, if_pos rfl]
  · rw [hP, if_neg (Nat.ne_of_lt hab), if_pos rfl]

/-- `RotateRight` does what `rotR` does, in any context. -/
theorem rotate_right {m : Mem} {ll lr r : SearchTree Nat} {a b : Nat} {fs : List (Frame Nat)}
    (hz : Zip m (.node ll b lr) a r fs) :
    ∃ m', m.rotateRight a = (m', b) ∧ m'.size = m.size ∧
      Rep m' (.node ll b (.node lr a r)) (top fs 0) ∧ Ctx m' fs b 0 := by
  obtain ⟨ha0, hl, hr, hp, ⟨hb0, hbl, hbr, -, -, hrepll, hreplr⟩, hrepr, hctx, hsort⟩ := hz
  rw [ptr_node] at hl
  obtain ⟨hsl, -, hla, -⟩ := sorted_node (sorted_plug hsort).1
  obtain ⟨-, -, hllb, hlrb⟩ := sorted_node hsl
  have hba : b < a := hla b (by simp)
  have hta := top_ne hsort (x := a) (by simp) ha0
  have htb := top_ne hsort (x := b) (by simp) hb0
  obtain ⟨m', hrot, hsize, hR, hL, hP, hH, hHa, hHb⟩ := rotate_fields (d := .right) hl hbr hp ha0 hb0
    (Nat.ne_of_gt hba) (ptr_ne ha0 fun y hy => Nat.ne_of_lt (hla y (by simp [hy]))) hta htb
    (fun he => ptr_ne ha0 (fun y hy => Nat.ne_of_lt (hla y (by simp [hy]))) (hbl.symm.trans he))
  simp only [Mem.child, Side.opp, replaceChild_left, replaceChild_right] at hL hR hHa hHb
  have hheight : m'.height a = max lr.height r.height + 1 := by
    rw [hHa, hr, getHeight_rep hrepr, getHeight_rep hreplr, Nat.max_comm]
  obtain ⟨hr', hlr', hll', hctx'⟩ := relinked (b := b) hsort (by
      simp only [keys_node]
      grind) hrepr hreplr hrepll hctx
    (fun y h1 _ => by rw [hL, if_neg h1]) (fun y _ h2 => by rw [hR, if_neg h2])
    (fun y h1 h2 => by rw [hP, if_neg h2, if_neg h1]) hH
  refine ⟨m', hrot, hsize, ⟨hb0, ?_, ?_, ?_, ?_, hll', ⟨ha0, ?_, ?_, ?_, hheight, hlr', hr'⟩⟩, hctx'⟩
  · rw [hL, if_neg (Nat.ne_of_lt hba), if_neg fun h => htb h.1.symm, hbl]
  · rw [hR, if_pos rfl, ptr_node]
  · rw [hP, if_pos rfl]
  · rw [hHb, hheight, hbl, getHeight_rep hrepll, Nat.max_comm]
    rfl
  · rw [hL, if_pos rfl]
  · rw [hR, if_neg (Nat.ne_of_gt hba), if_neg fun h => hta h.1.symm, hr]
  · rw [hP, if_neg (Nat.ne_of_gt hba), if_pos rfl]

theorem put_self {f : Nat → Nat} {a x : Nat} (h : f a = x) : put f a x = f := by
  funext y
  unfold put
  split
  · rename_i he
    rw [he, h]
  · rfl

theorem rotate_right_left {m : Mem} {l x y rr : SearchTree Nat} {a b c : Nat} {fs : List (Frame Nat)}
    (hz : Zip m l a (.node (.node x c y) b rr) fs) :
    ∃ m', m.rotateRightLeft a = (m', c) ∧ m'.size = m.size ∧
      Rep m' (.node (.node l a x) c (.node y b rr)) (top fs 0) ∧ Ctx m' fs c 0 := by
  obtain ⟨ha0, hl, hr, hp, hrepl, ⟨hb0, hbl, hbr, hbp, -, hrepL, hrepR⟩, hctx, hsort⟩ := hz
  have hin : Zip m (.node x c y) b rr (.right l a :: fs) :=
    ⟨hb0, hbl, hbr, hbp, hrepL, hrepR, ⟨ha0, hl, hr, hp, hrepl, hctx⟩, hsort⟩
  obtain ⟨m₁, hrot, hsize, hrep, ha0', hl', hr', hp', hrepl', hctx'⟩ := rotate_right hin
  have hset : m₁.setRight a c = m₁ := by
    unfold Mem.setRight
    rw [put_self hr']
  have hout : Zip m₁ l a (.node x c (.node y b rr)) fs := by
    refine ⟨ha0', hl', hr', hp', hrepl', hrep, hctx', ?_⟩
    rw [keys_plug] at hsort ⊢
    simpa using hsort
  obtain ⟨m₂, hrot₂, hsize₂, hrep₂, hctx₂⟩ := rotate_left hout
  refine ⟨m₂, ?_, hsize₂.trans hsize, hrep₂, hctx₂⟩
  unfold Mem.rotateRightLeft
  rw [hr, ptr_node, hrot]
  simp only [hset, hrot₂]

theorem rotate_left_right {m : Mem} {ll x y r : SearchTree Nat} {a b c : Nat} {fs : List (Frame Nat)}
    (hz : Zip m (.node ll b (.node x c y)) a r fs) :
    ∃ m', m.rotateLeftRight a = (m', c) ∧ m'.size = m.size ∧
      Rep m' (.node (.node ll b x) c (.node y a r)) (top fs 0) ∧ Ctx m' fs c 0 := by
  obtain ⟨ha0, hl, hr, hp, ⟨hb0, hbl, hbr, hbp, -, hrepL, hrepR⟩, hrepr, hctx, hsort⟩ := hz
  have hin : Zip m ll b (.node x c y) (.left a r :: fs) :=
    ⟨hb0, hbl, hbr, hbp, hrepL, hrepR, ⟨ha0, hl, hr, hp, hrepr, hctx⟩, hsort⟩
  obtain ⟨m₁, hrot, hsize, hrep, ha0', hl', hr', hp', hrepr', hctx'⟩ := rotate_left hin
  have hset : m₁.setLeft a c = m₁ := by
    unfold Mem.setLeft
    rw [put_self hl']
  have hout : Zip m₁ (.node (.node ll b x) c y) a r fs := by
    refine ⟨ha0', hl', hr', hp', hrep, hrepr', hctx', ?_⟩
    rw [keys_plug] at hsort ⊢
    simpa using hsort
  obtain ⟨m₂, hrot₂, hsize₂, hrep₂, hctx₂⟩ := rotate_right hout
  refine ⟨m₂, ?_, hsize₂.trans hsize, hrep₂, hctx₂⟩
  unfold Mem.rotateLeftRight
  rw [hl, ptr_node, hrot]
  simp only [hset, hrot₂]

/-! ## Repair -/

theorem getBalanceFactor_rep {m : Mem} {t : SearchTree Nat} {p : Nat} (h : Rep m t p) (hne : t ≠ .nil) :
    m.getBalanceFactor (ptr t) = t.balance := by
  cases t with
  | nil => exact absurd rfl hne
  | node l a r =>
    obtain ⟨-, hl, hr, -, -, hrl, hrr⟩ := h
    unfold Mem.getBalanceFactor
    rw [ptr_node, hl, hr, getHeight_rep hrl, getHeight_rep hrr, balance_node]

/-- `UpdateHeight` makes a stale node right. -/
theorem Zip.updateHeight {m : Mem} {l r : SearchTree Nat} {a : Nat} {fs : List (Frame Nat)}
    (hz : Zip m l a r fs) :
    Zip (m.updateHeight a) l a r fs ∧ (m.updateHeight a).size = m.size ∧
      Rep (m.updateHeight a) (.node l a r) (top fs 0) := by
  obtain ⟨ha0, hl, hr, hp, hrepl, hrepr, hctx, hsort⟩ := hz
  have hsame : ∀ x, x ≠ a → Same m (m.updateHeight a) x := fun x hx =>
    ⟨rfl, rfl, rfl, if_neg hx⟩
  obtain ⟨-, -, hla, har⟩ := sorted_node (sorted_plug hsort).1
  have hrepl' : Rep (m.updateHeight a) l a :=
    hrepl.frame fun x hx => hsame x (Nat.ne_of_lt (hla x hx))
  have hrepr' : Rep (m.updateHeight a) r a :=
    hrepr.frame fun x hx => hsame x (Nat.ne_of_gt (har x hx))
  have hctx' : Ctx (m.updateHeight a) fs a 0 := hctx.frame fun x hx => hsame x fun he =>
    not_around hsort (x := a) (by simp) (he ▸ hx)
  have hh : (m.updateHeight a).height a = max l.height r.height + 1 := by
    unfold Mem.updateHeight Mem.setHeight put
    simp only [if_true]
    rw [hl, hr, getHeight_rep hrepl, getHeight_rep hrepr]
  exact ⟨⟨ha0, hl, hr, hp, hrepl', hrepr', hctx', hsort⟩, rfl, ha0, hl, hr, hp, hh, hrepl', hrepr'⟩

/-- The loop body of `Delete` does what `fix` does. -/
theorem rebalanceDeleted_spec {m : Mem} {l r : SearchTree Nat} {a : Nat} {fs : List (Frame Nat)}
    (hz : Zip m l a r fs) :
    ∃ m', m.rebalanceDeleted a = (m', ptr (fix (.node l a r))) ∧ m'.size = m.size ∧
      Rep m' (fix (.node l a r)) (top fs 0) ∧ Ctx m' fs (ptr (fix (.node l a r))) 0 := by
  obtain ⟨hz₁, hsize, hrep⟩ := hz.updateHeight
  have hbf : (m.updateHeight a).getBalanceFactor a = (l.height : Int) - r.height :=
    getBalanceFactor_rep hrep (by simp)
  unfold Mem.rebalanceDeleted
  simp only [hbf, hz₁.left, hz₁.right]
  by_cases hgt : (l.height : Int) - r.height > 1
  · cases l with
    | nil =>
      simp only [height_nil] at hgt
      omega
    | node ll b lr =>
      have hbal := getBalanceFactor_rep hz₁.repLeft (by simp)
      rw [fix, if_pos hgt, if_pos hgt, hbal]
      by_cases hge : (SearchTree.node ll b lr).balance ≥ 0
      · rw [if_pos hge, if_pos hge]
        obtain ⟨m', hrot, hs, hr', hc'⟩ := rotate_right hz₁
        exact ⟨m', hrot, hs.trans hsize, hr', hc'⟩
      · rw [if_neg hge, if_neg hge]
        cases lr with
        | nil =>
          simp only [balance_node, height_nil] at hge
          omega
        | node x c y =>
          obtain ⟨m', hrot, hs, hr', hc'⟩ := rotate_left_right hz₁
          exact ⟨m', hrot, hs.trans hsize, hr', hc'⟩
  · rw [if_neg hgt]
    by_cases hlt : (l.height : Int) - r.height < -1
    · cases r with
      | nil =>
        simp only [height_nil] at hlt
        omega
      | node rl b rr =>
        have hbal := getBalanceFactor_rep hz₁.repRight (by simp)
        rw [fix, if_neg hgt, if_pos hlt, if_pos hlt, hbal]
        by_cases hpos : (SearchTree.node rl b rr).balance > 0
        · rw [if_pos hpos, if_pos hpos]
          cases rl with
          | nil =>
            simp only [balance_node, height_nil] at hpos
            omega
          | node x c y =>
            obtain ⟨m', hrot, hs, hr', hc'⟩ := rotate_right_left hz₁
            exact ⟨m', hrot, hs.trans hsize, hr', hc'⟩
        · rw [if_neg hpos, if_neg hpos]
          obtain ⟨m', hrot, hs, hr', hc'⟩ := rotate_left hz₁
          exact ⟨m', hrot, hs.trans hsize, hr', hc'⟩
    · rw [fix, if_neg hgt, if_neg hlt, if_neg hlt]
      exact ⟨_, rfl, hsize, hrep, hz₁.ctx⟩

end BadLands.Mm.HeapTree
