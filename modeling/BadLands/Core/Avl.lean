/-!
# Balanced binary trees seen from a hole

`SearchTree` is a binary tree with keys at its nodes, `Frame` one node with a hole in place of one
child, and a list of frames (innermost first) is the path from a hole up to the root:
`plug t fs` is the whole tree. An update that works upwards from a changed subtree is
`climb`: fill the innermost frame, repair it with `fix`, go on with the next one.

* `keys_climb`: climbing keeps the keys in order.
* `bal_climb_shrunk`: when the subtree is at most one level lower than before, the repaired
  tree is balanced again (deletion).
* `bal_climb_grown`: likewise when it is at most one level higher and leans towards the new
  key (insertion).
-/
namespace BadLands.Core.Avl

inductive SearchTree (α : Type) where
  | nil
  | node (l : SearchTree α) (a : α) (r : SearchTree α)

/-- A node without its left (`left`) or right (`right`) child. -/
inductive Frame (α : Type) where
  | left (a : α) (r : SearchTree α)
  | right (l : SearchTree α) (a : α)

variable {α : Type}

def SearchTree.height : SearchTree α → Nat
  | .nil => 0
  | .node l _ r => max l.height r.height + 1

/-- The keys from left to right. -/
def SearchTree.keys : SearchTree α → List α
  | .nil => []
  | .node l a r => l.keys ++ a :: r.keys

/-- At every node the heights of the two children differ by at most one. -/
def SearchTree.Bal : SearchTree α → Prop
  | .nil => True
  | .node l _ r => l.height ≤ r.height + 1 ∧ r.height ≤ l.height + 1 ∧ l.Bal ∧ r.Bal

@[simp] theorem height_nil : (SearchTree.nil : SearchTree α).height = 0 := rfl

@[simp] theorem height_node (l : SearchTree α) (a : α) (r : SearchTree α) :
    (SearchTree.node l a r).height = max l.height r.height + 1 := rfl

@[simp] theorem keys_nil : (SearchTree.nil : SearchTree α).keys = [] := rfl

@[simp] theorem keys_node (l : SearchTree α) (a : α) (r : SearchTree α) :
    (SearchTree.node l a r).keys = l.keys ++ a :: r.keys := rfl

@[simp] theorem bal_nil : (SearchTree.nil : SearchTree α).Bal := trivial

@[simp] theorem bal_node (l : SearchTree α) (a : α) (r : SearchTree α) :
    (SearchTree.node l a r).Bal ↔
      l.height ≤ r.height + 1 ∧ r.height ≤ l.height + 1 ∧ l.Bal ∧ r.Bal := Iff.rfl

/-! ## Frames -/

def Frame.key : Frame α → α
  | .left a _ => a
  | .right _ a => a

/-- The child that is there. -/
def Frame.sibling : Frame α → SearchTree α
  | .left _ r => r
  | .right l _ => l

def Frame.fill : Frame α → SearchTree α → SearchTree α
  | .left a r, t => .node t a r
  | .right l a, t => .node l a t

def plug : SearchTree α → List (Frame α) → SearchTree α
  | t, [] => t
  | t, f :: fs => plug (f.fill t) fs

/-- The keys to the left of the hole. -/
def before : List (Frame α) → List α
  | [] => []
  | .left _ _ :: fs => before fs
  | .right l a :: fs => before fs ++ (l.keys ++ [a])

/-- The keys to the right of the hole. -/
def after : List (Frame α) → List α
  | [] => []
  | .left a r :: fs => a :: r.keys ++ after fs
  | .right _ _ :: fs => after fs

/-- `x` is a key of the frames. -/
def Around (fs : List (Frame α)) (x : α) : Prop := x ∈ before fs ∨ x ∈ after fs

theorem around_left {a x : α} {r : SearchTree α} {fs : List (Frame α)} :
    Around (.left a r :: fs) x ↔ x = a ∨ x ∈ r.keys ∨ Around fs x := by
  simp only [Around, before, after, List.cons_append, List.mem_cons, List.mem_append]
  grind

theorem around_right {a x : α} {l : SearchTree α} {fs : List (Frame α)} :
    Around (.right l a :: fs) x ↔ x = a ∨ x ∈ l.keys ∨ Around fs x := by
  simp only [Around, before, after, List.mem_singleton, List.mem_append]
  grind

theorem keys_plug : ∀ (fs : List (Frame α)) (t : SearchTree α),
    (plug t fs).keys = before fs ++ t.keys ++ after fs
  | [], t => by simp [plug, before, after]
  | .left a r :: fs, t => by
    rw [plug, keys_plug fs]
    simp [Frame.fill, before, after]
  | .right l a :: fs, t => by
    rw [plug, keys_plug fs]
    simp [Frame.fill, before, after]

theorem plug_append : ∀ (fs gs : List (Frame α)) (t : SearchTree α),
    plug t (fs ++ gs) = plug (plug t fs) gs
  | [], _, _ => rfl
  | f :: fs, gs, t => plug_append fs gs (f.fill t)

theorem before_append : ∀ (fs gs : List (Frame α)), before (fs ++ gs) = before gs ++ before fs
  | [], gs => by simp [before]
  | .left a r :: fs, gs => by simp [before, before_append fs]
  | .right l a :: fs, gs => by simp [before, before_append fs]

theorem after_append : ∀ (fs gs : List (Frame α)), after (fs ++ gs) = after fs ++ after gs
  | [], gs => by simp [after]
  | .left a r :: fs, gs => by simp [after, after_append fs]
  | .right l a :: fs, gs => by simp [after, after_append fs]

theorem length_le_keys : ∀ (fs : List (Frame α)) (t : SearchTree α), fs.length ≤ (plug t fs).keys.length
  | [], _ => Nat.zero_le _
  | f :: fs, t => by
    have ih := length_le_keys fs .nil
    rw [keys_plug] at ih ⊢
    simp only [List.length_append, keys_nil, List.length_nil] at ih
    cases f <;> simp [before, after] <;> omega

/-- Every key is the root of some subtree. -/
theorem exists_plug {a : α} : ∀ (t : SearchTree α), a ∈ t.keys →
    ∃ l r fs, t = plug (.node l a r) fs
  | .nil, h => by cases h
  | .node l b r, h => by
    rw [keys_node, List.mem_append, List.mem_cons] at h
    rcases h with h | h | h
    · obtain ⟨l', r', fs, he⟩ := exists_plug l h
      exact ⟨l', r', fs ++ [.left b r], by rw [plug_append, ← he]; rfl⟩
    · exact ⟨l, r, [], by rw [h]; rfl⟩
    · obtain ⟨l', r', fs, he⟩ := exists_plug r h
      exact ⟨l', r', fs ++ [.right l b], by rw [plug_append, ← he]; rfl⟩

/-- The frames are balanced around a hole of height `h`. -/
def FrameBal : List (Frame α) → Nat → Prop
  | [], _ => True
  | f :: fs, h => h ≤ f.sibling.height + 1 ∧ f.sibling.height ≤ h + 1 ∧ f.sibling.Bal ∧
      FrameBal fs (max h f.sibling.height + 1)

theorem bal_fill (f : Frame α) (t : SearchTree α) :
    (f.fill t).Bal ↔ t.height ≤ f.sibling.height + 1 ∧ f.sibling.height ≤ t.height + 1 ∧
      f.sibling.Bal ∧ t.Bal := by
  cases f with
  | left a r =>
    simp only [Frame.fill, bal_node, Frame.sibling]
    exact ⟨fun ⟨h1, h2, h3, h4⟩ => ⟨h1, h2, h4, h3⟩, fun ⟨h1, h2, h3, h4⟩ => ⟨h1, h2, h4, h3⟩⟩
  | right l a =>
    simp only [Frame.fill, bal_node, Frame.sibling]
    exact ⟨fun ⟨h1, h2, h3, h4⟩ => ⟨h2, h1, h3, h4⟩, fun ⟨h1, h2, h3, h4⟩ => ⟨h2, h1, h3, h4⟩⟩

theorem height_fill (f : Frame α) (t : SearchTree α) :
    (f.fill t).height = max t.height f.sibling.height + 1 := by
  cases f with
  | left a r => rfl
  | right l a => simp only [Frame.fill, height_node, Frame.sibling, Nat.max_comm]

theorem bal_plug : ∀ (fs : List (Frame α)) (t : SearchTree α),
    (plug t fs).Bal ↔ t.Bal ∧ FrameBal fs t.height
  | [], t => by simp [plug, FrameBal]
  | f :: fs, t => by
    rw [plug, bal_plug fs, bal_fill, height_fill, FrameBal]
    exact ⟨fun ⟨⟨h1, h2, h3, h4⟩, h5⟩ => ⟨h4, h1, h2, h3, h5⟩,
      fun ⟨h4, h1, h2, h3, h5⟩ => ⟨⟨h1, h2, h3, h4⟩, h5⟩⟩

/-- Only the siblings matter for the balance of a path. -/
theorem frameBal_congr : ∀ {fs gs : List (Frame α)} {h : Nat},
    fs.map Frame.sibling = gs.map Frame.sibling → (FrameBal fs h ↔ FrameBal gs h)
  | [], [], _, _ => Iff.rfl
  | f :: fs, g :: gs, h, he => by
    simp only [List.map_cons, List.cons.injEq] at he
    simp only [FrameBal, he.1, frameBal_congr he.2]

/-! ## Rotations and repair -/

def rotL : SearchTree α → SearchTree α
  | .node l a (.node rl b rr) => .node (.node l a rl) b rr
  | t => t

def rotR : SearchTree α → SearchTree α
  | .node (.node ll b lr) a r => .node ll b (.node lr a r)
  | t => t

/-- Height of the left child minus height of the right one. -/
def SearchTree.balance : SearchTree α → Int
  | .nil => 0
  | .node l _ r => (l.height : Int) - r.height

@[simp] theorem balance_node (l : SearchTree α) (a : α) (r : SearchTree α) :
    (SearchTree.node l a r).balance = (l.height : Int) - r.height := rfl

/-- One repair at the root, driven by the balance factors. -/
def fix : SearchTree α → SearchTree α
  | .nil => .nil
  | .node l a r =>
    if (l.height : Int) - r.height > 1 then
      if l.balance ≥ 0 then rotR (.node l a r) else rotR (.node (rotL l) a r)
    else if (l.height : Int) - r.height < -1 then
      if r.balance > 0 then rotL (.node l a (rotR r)) else rotL (.node l a r)
    else .node l a r

/-- Fill and repair all the way to the root. -/
def climb : SearchTree α → List (Frame α) → SearchTree α
  | t, [] => t
  | t, f :: fs => climb (fix (f.fill t)) fs

@[simp] theorem keys_rotL (t : SearchTree α) : (rotL t).keys = t.keys := by
  unfold rotL
  split <;> simp

@[simp] theorem keys_rotR (t : SearchTree α) : (rotR t).keys = t.keys := by
  unfold rotR
  split <;> simp

theorem keys_fix (t : SearchTree α) : (fix t).keys = t.keys := by
  unfold fix
  split
  · rfl
  · split
    · split <;> simp
    · split
      · split <;> simp
      · rfl

theorem keys_climb : ∀ (fs : List (Frame α)) (t : SearchTree α), (climb t fs).keys = (plug t fs).keys
  | [], _ => rfl
  | f :: fs, t => by
    rw [climb, plug, keys_climb fs, keys_plug, keys_plug, keys_fix]

/-- Repair of a node whose children differ by at most two. -/
theorem fix_node {l r : SearchTree α} (a : α) (hl : l.Bal) (hr : r.Bal)
    (h1 : l.height ≤ r.height + 2) (h2 : r.height ≤ l.height + 2) :
    (fix (.node l a r)).Bal ∧ max l.height r.height ≤ (fix (.node l a r)).height ∧
      (fix (.node l a r)).height ≤ max l.height r.height + 1 ∧
      (l.height = r.height + 2 → l.balance ≠ 0 → (fix (.node l a r)).height = l.height) ∧
      (r.height = l.height + 2 → r.balance ≠ 0 → (fix (.node l a r)).height = r.height) := by
  generalize hT : fix (.node l a r) = t
  simp only [fix] at hT
  split at hT
  · rename_i hgt
    cases l with
    | nil =>
      simp only [height_nil] at hgt
      omega
    | node ll b lr =>
      split at hT
      · rename_i hpos
        subst hT
        simp only [bal_node, height_node, balance_node] at hl h1 h2 hgt hpos
        simp only [rotR, bal_node, height_node, balance_node]
        exact ⟨⟨by omega, by omega, hl.2.2.1, by omega, by omega, hl.2.2.2, hr⟩, by omega, by omega,
          by omega, by omega⟩
      · rename_i hneg
        cases lr with
        | nil =>
          simp only [balance_node, height_nil] at hneg
          omega
        | node x c y =>
          subst hT
          simp only [bal_node, height_node, balance_node] at hl h1 h2 hgt hneg
          simp only [rotL, rotR, bal_node, height_node, balance_node]
          exact ⟨⟨by omega, by omega, ⟨by omega, by omega, hl.2.2.1, hl.2.2.2.2.2.1⟩,
            by omega, by omega, hl.2.2.2.2.2.2, hr⟩, by omega, by omega, by omega, by omega⟩
  · split at hT
    · rename_i hle hlt
      cases r with
      | nil =>
        simp only [height_nil] at hlt
        omega
      | node rl b rr =>
        split at hT
        · rename_i hpos
          cases rl with
          | nil =>
            simp only [balance_node, height_nil] at hpos
            omega
          | node x c y =>
            subst hT
            simp only [bal_node, height_node, balance_node] at hr h1 h2 hle hlt hpos
            simp only [rotL, rotR, bal_node, height_node, balance_node]
            exact ⟨⟨by omega, by omega, ⟨by omega, by omega, hl, hr.2.2.1.2.2.1⟩, by omega, by omega,
              hr.2.2.1.2.2.2, hr.2.2.2⟩, by omega, by omega, by omega, by omega⟩
        · rename_i hneg
          subst hT
          simp only [bal_node, height_node, balance_node] at hr h1 h2 hle hlt hneg
          simp only [rotL, bal_node, height_node, balance_node]
          exact ⟨⟨by omega, by omega, ⟨by omega, by omega, hl, hr.2.2.1⟩, hr.2.2.2⟩, by omega,
            by omega, by omega, by omega⟩
    · subst hT
      simp only [bal_node, height_node]
      exact ⟨⟨by omega, by omega, hl, hr⟩, by omega, by omega, by omega, by omega⟩

/-- A balanced node needs no repair. -/
theorem fix_of_bal {l r : SearchTree α} (a : α) (h1 : l.height ≤ r.height + 1)
    (h2 : r.height ≤ l.height + 1) : fix (.node l a r) = .node l a r := by
  rw [fix, if_neg (by omega), if_neg (by omega)]

theorem fix_fill {f : Frame α} {t : SearchTree α} (ht : t.Bal) (hs : f.sibling.Bal)
    (h1 : t.height ≤ f.sibling.height + 2) (h2 : f.sibling.height ≤ t.height + 2) :
    (fix (f.fill t)).Bal ∧ max t.height f.sibling.height ≤ (fix (f.fill t)).height ∧
      (fix (f.fill t)).height ≤ max t.height f.sibling.height + 1 ∧
      (t.height = f.sibling.height + 2 → t.balance ≠ 0 → (fix (f.fill t)).height = t.height) := by
  cases f with
  | left a r =>
    obtain ⟨hb, hge, hle, hl, -⟩ := fix_node a ht hs h1 h2
    exact ⟨hb, hge, hle, hl⟩
  | right l a =>
    obtain ⟨hb, hge, hle, -, hr⟩ := fix_node a hs ht h2 h1
    simp only [Frame.fill, Frame.sibling] at *
    exact ⟨hb, by omega, by omega, hr⟩

theorem fix_fill_of_bal {f : Frame α} {t : SearchTree α} (h1 : t.height ≤ f.sibling.height + 1)
    (h2 : f.sibling.height ≤ t.height + 1) : fix (f.fill t) = f.fill t := by
  cases f with
  | left a r => exact fix_of_bal a h1 h2
  | right l a => exact fix_of_bal a h2 h1

/-! ## Deletion: the subtree may be one level lower -/

theorem bal_climb_shrunk : ∀ (fs : List (Frame α)) (t : SearchTree α) (h : Nat), t.Bal →
    FrameBal fs h → t.height = h ∨ t.height + 1 = h → (climb t fs).Bal
  | [], _, _, ht, _, _ => ht
  | f :: fs, t, h, ht, hf, hh => by
    obtain ⟨h1, h2, hs, hfs⟩ := hf
    obtain ⟨hb, hge, hle, -⟩ := fix_fill (f := f) ht hs (by omega) (by omega)
    refine bal_climb_shrunk fs _ _ hb hfs ?_
    by_cases hbal : f.sibling.height ≤ t.height + 1
    · rw [fix_fill_of_bal (by omega) hbal, height_fill]
      omega
    · omega

/-! ## Insertion: the subtree may be one level higher -/

section
variable [LT α] {n : α}

/-- The higher child of the root is the one `n` is in. -/
def Leans (n : α) : SearchTree α → Prop
  | .nil => False
  | .node l b r => (n < b ∧ l.height = r.height + 1) ∨ (b < n ∧ r.height = l.height + 1) ∨
      (n = b ∧ l = .nil ∧ r = .nil)

/-- The hole had height `h` when the path was balanced; it has grown by at most one level,
and then leans towards `n`. -/
structure Grown (n : α) (t : SearchTree α) (fs : List (Frame α)) (h : Nat) : Prop where
  bal : t.Bal
  frames : FrameBal fs h
  size : t.height = h ∨ (t.height = h + 1 ∧ Leans n t)

/-- `n` belongs on the side of the hole. -/
def Frame.Sided (n : α) : Frame α → Prop
  | .left a _ => n < a
  | .right _ a => a < n

theorem sided_of_around : ∀ (fs : List (Frame α)), (∀ x ∈ before fs, x < n) →
    (∀ x ∈ after fs, n < x) → ∀ f ∈ fs, f.Sided n
  | .left a r :: fs, hb, ha, f, hf => by
    rcases List.mem_cons.mp hf with rfl | hf
    · exact ha a (by simp [after])
    · exact sided_of_around fs hb (fun x hx => ha x (by simp [after, hx])) f hf
  | .right l a :: fs, hb, ha, f, hf => by
    rcases List.mem_cons.mp hf with rfl | hf
    · exact hb a (by simp [before])
    · exact sided_of_around fs (fun x hx => hb x (by simp [before, hx])) ha f hf

theorem balance_ne_zero_of_leans {t : SearchTree α} (h : Leans n t) (h2 : 2 ≤ t.height) :
    t.balance ≠ 0 := by
  cases t with
  | nil => cases h
  | node l b r =>
    rcases h with ⟨-, h⟩ | ⟨-, h⟩ | ⟨-, rfl, rfl⟩
    · simp only [SearchTree.balance]
      omega
    · simp only [SearchTree.balance]
      omega
    · simp at h2

theorem grown_step {f : Frame α} {t : SearchTree α} {fs : List (Frame α)} {h : Nat}
    (hg : Grown n t (f :: fs) h) (hn : f.Sided n) :
    Grown n (fix (f.fill t)) fs (max h f.sibling.height + 1) := by
  obtain ⟨ht, ⟨h1, h2, hs, hfs⟩, hsize⟩ := hg
  obtain ⟨hb, hge, hle, hrot⟩ := fix_fill (f := f) ht hs (by omega) (by omega)
  refine ⟨hb, hfs, ?_⟩
  by_cases hbal : t.height ≤ f.sibling.height + 1
  · rw [fix_fill_of_bal hbal (by omega), height_fill]
    rcases hsize with he | ⟨he, -⟩
    · exact .inl (by omega)
    · by_cases hsib : f.sibling.height = h
      · refine .inr ⟨by omega, ?_⟩
        cases f with
        | left a r => exact .inl ⟨hn, by simp only [Frame.sibling] at hsib; omega⟩
        | right l a => exact .inr (.inl ⟨hn, by simp only [Frame.sibling] at hsib; omega⟩)
      · exact .inl (by omega)
  · rcases hsize with he | ⟨he, hlean⟩
    · omega
    · have := hrot (by omega) (balance_ne_zero_of_leans hlean (by omega))
      exact .inl (by omega)

theorem bal_climb_grown : ∀ (fs : List (Frame α)) (t : SearchTree α) (h : Nat), Grown n t fs h →
    (∀ f ∈ fs, f.Sided n) → (climb t fs).Bal
  | [], _, _, hg, _ => hg.bal
  | f :: fs, _, _, hg, hn => bal_climb_grown fs _ _ (grown_step hg (hn f List.mem_cons_self))
      fun g hgm => hn g (List.mem_cons_of_mem _ hgm)

end

end BadLands.Core.Avl
