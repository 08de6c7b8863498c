import BadLands.Core.PageTable

/-!
# The entry a page is mapped by

`translation` is where an address leads; `mapping` is the entry that says so, with its level: 0 for a
page, 1 and 2 for a large one.

`Recast f S` says that the entries of the addresses in `S` were passed through `f`, and that nothing
else was. Writing one entry that ends the walk, before and after, does that to the page it maps
(`Tree.recast`), and for an `f` that can be applied twice such changes compose (`Recast.trans`).
-/
namespace BadLands.Core.PageTable

def leaf (m : PhysMem) (va : Nat) : Nat → Nat → Option (Nat × Entry)
  | 0, t =>
    let e := m (slot t 0 va)
    if e.present then some (0, e) else none
  | n + 1, t =>
    let e := m (slot t (n + 1) va)
    if !e.present then none
    else if e.large then
      if n + 1 = 3 then none else some (n + 1, e)
    else leaf m va n e.frame

def mapping (m : PhysMem) (root va : Nat) : Option (Nat × Entry) :=
  if Canonical va then leaf m va 3 root else none

/-- The page an entry of level `n` maps. -/
def pageFrame : Nat → Entry → Nat
  | 0, e => e.frame
  | n + 1, e => e.largeFrame (n + 1)

/-- The entry of level `n` maps a page. -/
def Entry.Ends (e : Entry) (n : Nat) : Prop := e.present = true ∧ (n = 0 ∨ e.large = true ∧ n ≠ 3)

section
variable {m m' : PhysMem} {root va n t : Nat} {W : Windows}

theorem Entry.Ends.not_links {e : Entry} (h : e.Ends n) (hn : n ≠ 0) : ¬ e.Links := by
  intro hl
  have hlarge := (h.2.resolve_left hn).1
  rw [hl.2] at hlarge
  cases hlarge

theorem leaf_links (h : (m (slot t (n + 1) va)).Links) :
    leaf m va (n + 1) t = leaf m va n (m (slot t (n + 1) va)).frame := by
  rw [leaf]
  simp only [h.1, h.2, Bool.not_true, Bool.false_eq_true, if_false]

theorem leaf_ends (h : (m (slot t n va)).Ends n) : leaf m va n t = some (n, m (slot t n va)) := by
  obtain ⟨hp, hn⟩ := h
  cases n with
  | zero =>
    rw [leaf]
    simp only [hp, if_true]
  | succ n =>
    obtain ⟨hl, h3⟩ := hn.resolve_left (Nat.succ_ne_zero n)
    rw [leaf]
    simp only [hp, hl, Bool.not_true, Bool.false_eq_true, if_false, if_true, if_neg h3]

theorem Reach.leaf {k u : Nat} (h : Reach m va n t k u) : leaf m va n t = leaf m va k u := by
  induction h with
  | here => rfl
  | down hl _ ih => rw [leaf_links hl, ih]

/-- The walk ends at an entry that it gets to. -/
theorem leaf_iff {k : Nat} {e : Entry} :
    leaf m va n t = some (k, e) ↔ ∃ u, Reach m va n t k u ∧ m (slot u k va) = e ∧ e.Ends k := by
  constructor
  · intro h
    induction n generalizing t with
    | zero =>
      rw [leaf] at h
      split at h
      · next hp =>
        obtain ⟨rfl, rfl⟩ := Prod.mk.inj (Option.some.inj h)
        exact ⟨t, .here _ _, rfl, hp, .inl rfl⟩
      · cases h
    | succ n ih =>
      rw [leaf] at h
      split at h
      · cases h
      next hp =>
      have hpresent : (m (slot t (n + 1) va)).present = true := by simpa using hp
      split at h
      · next hl =>
        split at h
        · cases h
        · next h3 =>
          obtain ⟨rfl, rfl⟩ := Prod.mk.inj (Option.some.inj h)
          exact ⟨t, .here _ _, rfl, hpresent, .inr ⟨hl, h3⟩⟩
      · next hl =>
        obtain ⟨u, hr, he, hends⟩ := ih h
        exact ⟨u, .down ⟨hpresent, by simpa using hl⟩ hr, he, hends⟩
  · rintro ⟨u, hr, rfl, hends⟩
    rw [hr.leaf, leaf_ends hends]

theorem walk_eq_leaf (n t : Nat) :
    walk m va n t = (leaf m va n t).map fun p => pageFrame p.1 p.2 + va % 2 ^ (12 + 9 * p.1) := by
  induction n generalizing t with
  | zero =>
    rw [walk, leaf]
    split <;> rfl
  | succ n ih =>
    rw [walk, leaf]
    split
    · rfl
    split
    · split <;> rfl
    · exact ih _

/-- Where an address leads, by the entry it is mapped by. -/
theorem translation_eq_mapping (m : PhysMem) (root va : Nat) :
    translation m root va = (mapping m root va).map fun p => pageFrame p.1 p.2 + va % 2 ^ (12 + 9 * p.1) := by
  unfold translation mapping
  split
  · exact walk_eq_leaf 3 root
  · rfl

theorem mapping_iff {k : Nat} {e : Entry} (hcan : Canonical va) :
    mapping m root va = some (k, e) ↔ ∃ u, Reach m va 3 root k u ∧ m (slot u k va) = e ∧ e.Ends k := by
  rw [mapping, if_pos hcan, leaf_iff]

end

/-! ## Passing entries through a function -/

structure Recast (m m' : PhysMem) (root : Nat) (W : Windows) (f : Entry → Entry) (S : Nat → Prop) : Prop where
  hit : ∀ a, Outside W a → S a → mapping m' root a = (mapping m root a).map (Prod.map id f)
  miss : ∀ a, Outside W a → ¬ S a → mapping m' root a = mapping m root a

section
variable {m m' : PhysMem} {root va₀ n t : Nat} {W : Windows} {f : Entry → Entry} {S : Nat → Prop}

theorem Recast.refl (m : PhysMem) (root : Nat) (W : Windows) (f : Entry → Entry) :
    Recast m m root W f fun _ => False := ⟨fun _ _ h => h.elim, fun _ _ _ => rfl⟩

theorem Recast.trans {m'' : PhysMem} {S' : Nat → Prop} (h : Recast m m' root W f S) (h' : Recast m' m'' root W f S')
    (hf : ∀ e, f (f e) = f e) : Recast m m'' root W f fun a => S a ∨ S' a where
  hit a ha hs := by
    by_cases hs' : S' a
    · rw [h'.hit a ha hs']
      by_cases hs₁ : S a
      · rw [h.hit a ha hs₁, Option.map_map]
        congr 1
        funext p
        exact congrArg (Prod.mk p.1) (hf p.2)
      · rw [h.miss a ha hs₁]
    · rw [h'.miss a ha hs']
      exact h.hit a ha (hs.resolve_right hs')
  miss a ha hs := by
    rw [h'.miss a ha fun hs' => hs (.inr hs')]
    exact h.miss a ha fun hs' => hs (.inl hs')

/-- The levels are what they were. -/
theorem Recast.level (h : Recast m m' root W f S) {a : Nat} (ha : Outside W a) :
    (mapping m' root a).map Prod.fst = (mapping m root a).map Prod.fst := by
  by_cases hs : S a
  · rw [h.hit a ha hs, Option.map_map]
    rfl
  · rw [h.miss a ha hs]

/-- Where `f` keeps the page, the translations are what they were. -/
theorem Recast.translate (h : Recast m m' root W f S) (hf : ∀ n e, pageFrame n (f e) = pageFrame n e) {a : Nat}
    (ha : Outside W a) : translation m' root a = translation m root a := by
  rw [translation_eq_mapping, translation_eq_mapping]
  by_cases hs : S a
  · rw [h.hit a ha hs, Option.map_map]
    congr 1
    funext p
    simp only [Function.comp_apply, Prod.map_fst, Prod.map_snd, id_eq, hf]
  · rw [h.miss a ha hs]

/-- Writing one entry that maps a page, before and after. -/
theorem Tree.recast (hT : Tree m root W) (hva₀ : Outside W va₀) (ht : Reach m va₀ 3 root n t)
    (hm : SameBut m m' (slot t n va₀) fun _ => False) (hold : (m (slot t n va₀)).Ends n)
    (hnew : (m' (slot t n va₀)).Ends n) (hf : m' (slot t n va₀) = f (m (slot t n va₀))) :
    Recast m m' root W f fun a => SamePath n a va₀ := by
  have hdead : n = 0 ∨ ¬ (m (slot t n va₀)).Links ∧ ¬ (m' (slot t n va₀)).Links := by
    by_cases hn : n = 0
    · exact .inl hn
    · exact .inr ⟨hold.not_links hn, hnew.not_links hn⟩
  have hpathSlot : ∀ a, SamePath n a va₀ → slot t n a = slot t n va₀ := by
    intro a hp
    unfold slot
    rw [hp n (Nat.le_refl n) ht.le]
  have hpathReach : ∀ a, SamePath n a va₀ → Reach m a 3 root n t := fun a hp =>
    SamePath.reach (fun j h1 h3 => (hp j (by omega) h3).symm) (Nat.le_refl 3) ht
  constructor
  · intro a ha hp
    have hreach := hpathReach a hp
    unfold mapping
    split
    · rw [((hT.reach_dead ha hva₀ ht hm hdead).mpr hreach).leaf, hreach.leaf,
        leaf_ends (by rw [hpathSlot a hp]; exact hnew), leaf_ends (by rw [hpathSlot a hp]; exact hold), hpathSlot a hp, hf]
      rfl
    · rfl
  · intro a ha hp
    -- what ends the walk in either memory is no other entry in the other one
    have hsame : ∀ k e, leaf m' a 3 root = some (k, e) ↔ leaf m a 3 root = some (k, e) := by
      intro k e
      rw [leaf_iff, leaf_iff]
      refine exists_congr fun u => ?_
      rw [hT.reach_dead ha hva₀ ht hm hdead]
      refine and_congr_right fun hr => ?_
      rcases hT.reads (fun _ hf => hf.elim) ha hva₀ ht hm hr with ⟨-, -, hpath⟩ | he
      · exact absurd hpath hp
      · rw [he]
    unfold mapping
    split
    · exact Option.ext fun p => hsame p.1 p.2
    · rfl

end

end BadLands.Core.PageTable
