import Mathlib.Algebra.Group.Nat.Defs

/-!
# The x86-64 four-level page walk

Physical memory gives each 8-byte aligned address a 64-bit word. A table is a page of 512
entries; level 3 is the PML4, level 0 the page tables. `translation m root va` is the walk the
processor makes from `root`: it needs a canonical address, stops at an entry that is not
present, takes a large page at level 1 (2 MiB) or 2 (1 GiB), and faults on the page-size bit
of a level 3 entry, which is reserved. Access rights are not part of the walk.

`Reach m va n t k u` says that the walk of `va` that stands at table `t` of level `n` gets to
table `u` of level `k`. The rules: a walk depends on the entries it reads only (`walk_congr`),
a memory in which every table is linked once is a `Tree`, linking a zeroed fresh table where
nothing was present changes no translation (`Link.translate`) and keeps the tree
(`Link.tree`), and writing a page's entry changes that page's translation only
(`leaf_translate_other`); writing into a page that is no table changes nothing (`Fresh.translate`).
A small tree is checked against the list of its tables (`Charted.tree`).
-/
namespace BadLands.Core.PageTable

abbrev Entry := BitVec 64

abbrev PhysMem := Nat → Entry

/-! ## Entries -/

def Entry.present (e : Entry) : Bool := e.getLsbD 0

/-- The page-size bit. -/
def Entry.large (e : Entry) : Bool := e.getLsbD 7

/-- The table or page an entry of any level points to. -/
def Entry.frame (e : Entry) : Nat := (e &&& 0x000FFFFFFFFFF000#64).toNat

/-- The large page of level `n` an entry points to. -/
def Entry.largeFrame (n : Nat) (e : Entry) : Nat :=
  (e &&& if n = 1 then 0x000FFFFFFFE00000#64 else 0x000FFFFFC0000000#64).toNat

theorem Entry.frame_aligned (e : Entry) : e.frame % 4096 = 0 := by
  have hlow : (e &&& 0x000FFFFFFFFFF000#64) &&& 0xFFF#64 = 0#64 := by
    rw [BitVec.and_assoc, show 0x000FFFFFFFFFF000#64 &&& 0xFFF#64 = 0#64 by decide, BitVec.and_zero]
  have hnat := congrArg BitVec.toNat hlow
  rw [BitVec.toNat_and] at hnat
  have hmask : (0xFFF#64).toNat = 2 ^ 12 - 1 := by decide
  rw [hmask, Nat.and_two_pow_sub_one_eq_mod] at hnat
  exact hnat

/-! ## The walk -/

/-- The index of `va` into a table of level `n`. -/
def index (n va : Nat) : Nat := va / 2 ^ (12 + 9 * n) % 512

/-- Bits 63 to 48 repeat bit 47. -/
def Canonical (va : Nat) : Prop := va < 2 ^ 47 ∨ (2 ^ 64 - 2 ^ 47 ≤ va ∧ va < 2 ^ 64)

instance (va : Nat) : Decidable (Canonical va) := inferInstanceAs (Decidable (_ ∨ _))

/-- The address of the entry of `va` in table `t` of level `n`. -/
def slot (t n va : Nat) : Nat := t + 8 * index n va

def walk (m : PhysMem) (va : Nat) : Nat → Nat → Option Nat
  | 0, t =>
    let e := m (slot t 0 va)
    if e.present then some (e.frame + va % 4096) else none
  | n + 1, t =>
    let e := m (slot t (n + 1) va)
    if !e.present then none
    else if e.large then
      if n + 1 = 3 then none else some (e.largeFrame (n + 1) + va % 2 ^ (12 + 9 * (n + 1)))
    else walk m va n e.frame

def translation (m : PhysMem) (root va : Nat) : Option Nat :=
  if Canonical va then walk m va 3 root else none

/-- The entry leads on to a table. -/
def Entry.Links (e : Entry) : Prop := e.present = true ∧ e.large = false

instance (e : Entry) : Decidable e.Links := inferInstanceAs (Decidable (_ ∧ _))

inductive Reach (m : PhysMem) (va : Nat) : Nat → Nat → Nat → Nat → Prop
  | here (n t : Nat) : Reach m va n t n t
  | down {n t k u : Nat} : (m (slot t (n + 1) va)).Links →
      Reach m va n (m (slot t (n + 1) va)).frame k u → Reach m va (n + 1) t k u

section
variable {m m' : PhysMem} {va : Nat}

theorem index_lt (n va : Nat) : index n va < 512 := Nat.mod_lt _ (by decide)

theorem walk_links {n t : Nat} (h : (m (slot t (n + 1) va)).Links) :
    walk m va (n + 1) t = walk m va n (m (slot t (n + 1) va)).frame := by
  rw [walk]
  simp only [h.1, h.2, Bool.not_true, Bool.false_eq_true, if_false]

theorem walk_absent {n t : Nat} (h : (m (slot t n va)).present = false) : walk m va n t = none := by
  cases n with
  | zero =>
    rw [walk]
    simp only [h, Bool.false_eq_true, if_false]
  | succ n =>
    rw [walk]
    simp only [h, Bool.not_false, if_true]

theorem Reach.le {n t k u : Nat} (h : Reach m va n t k u) : k ≤ n := by
  induction h with
  | here => exact Nat.le_refl _
  | down _ _ ih => omega

theorem Reach.walk {n t k u : Nat} (h : Reach m va n t k u) : walk m va n t = walk m va k u := by
  induction h with
  | here => rfl
  | down hl _ ih => rw [walk_links hl, ih]

theorem Reach.trans {n t k u j v : Nat} (h : Reach m va n t k u) (h' : Reach m va k u j v) :
    Reach m va n t j v := by
  induction h with
  | here => exact h'
  | down hl _ ih => exact .down hl (ih h')

/-- A walk passes every level between. -/
theorem Reach.through {n t k u j : Nat} (h : Reach m va n t k u) (hk : k ≤ j) (hj : j ≤ n) :
    ∃ v, Reach m va n t j v ∧ Reach m va j v k u := by
  induction h with
  | here n t =>
    obtain rfl : j = n := by omega
    exact ⟨t, .here _ _, .here _ _⟩
  | @down n t k u hl hd ih =>
    by_cases he : j = n + 1
    · subst he
      exact ⟨t, .here _ _, .down hl hd⟩
    · obtain ⟨v, hv, hd'⟩ := ih hk (by omega)
      exact ⟨v, .down hl hv, hd'⟩

/-- One level further. -/
theorem Reach.next {n t k u : Nat} (h : Reach m va n t (k + 1) u)
    (hl : (m (slot u (k + 1) va)).Links) : Reach m va n t k (m (slot u (k + 1) va)).frame :=
  h.trans (.down hl (.here _ _))

theorem Reach.unique {n t k u v : Nat} (h : Reach m va n t k u) (h' : Reach m va n t k v) : u = v := by
  induction h with
  | here =>
    cases h' with
    | here => rfl
    | down _ hd => exact absurd hd.le (by omega)
  | down hl hd ih =>
    cases h' with
    | here => exact absurd hd.le (by omega)
    | down _ hd' => exact ih hd'

/-- A table below the top one was linked by an entry. -/
theorem Reach.linked {n t k u : Nat} (h : Reach m va n t k u) (hk : k < n) :
    ∃ v, Reach m va n t (k + 1) v ∧ (m (slot v (k + 1) va)).Links ∧
      u = (m (slot v (k + 1) va)).frame := by
  induction h with
  | here => omega
  | @down n t k u hl hd ih =>
    by_cases he : k = n
    · subst he
      cases hd with
      | here => exact ⟨t, .here _ _, hl, rfl⟩
      | down _ hd' => exact absurd hd'.le (by omega)
    · have hle := hd.le
      obtain ⟨v, hv, hlv, hu⟩ := ih (by omega)
      exact ⟨v, .down hl hv, hlv, hu⟩

theorem Reach.aligned {n t k u : Nat} (h : Reach m va n t k u) (ht : t % 4096 = 0) :
    u % 4096 = 0 := by
  induction h with
  | here => exact ht
  | down _ _ ih => exact ih (Entry.frame_aligned _)

/-- Tables whose entries say the same to the processor. -/
theorem walk_congr_entry {n t u : Nat}
    (hpresent : (m (slot t (n + 1) va)).present = (m (slot u (n + 1) va)).present)
    (hlarge : (m (slot t (n + 1) va)).large = (m (slot u (n + 1) va)).large)
    (hframe : (m (slot u (n + 1) va)).large = false →
      (m (slot t (n + 1) va)).frame = (m (slot u (n + 1) va)).frame)
    (hlargeFrame : (m (slot u (n + 1) va)).large = true →
      (m (slot t (n + 1) va)).largeFrame (n + 1) = (m (slot u (n + 1) va)).largeFrame (n + 1)) :
    walk m va (n + 1) t = walk m va (n + 1) u := by
  rw [walk, walk, hpresent, hlarge]
  cases hl : (m (slot u (n + 1) va)).large with
  | true => rw [hlargeFrame hl, if_pos rfl, if_pos rfl]
  | false => rw [hframe hl, if_neg Bool.false_ne_true, if_neg Bool.false_ne_true]

/-- A walk depends on the entries it reads. -/
theorem walk_congr {n t : Nat}
    (h : ∀ k u, Reach m va n t k u → m' (slot u k va) = m (slot u k va)) :
    walk m' va n t = walk m va n t := by
  induction n generalizing t with
  | zero =>
    have e := h 0 t (.here _ _)
    rw [walk, walk, e]
  | succ n ih =>
    have e := h (n + 1) t (.here _ _)
    by_cases hl : (m (slot t (n + 1) va)).Links
    · have hl' : (m' (slot t (n + 1) va)).Links := e ▸ hl
      rw [walk_links hl, walk_links hl', e]
      exact ih fun k u hr => h k u (.down hl hr)
    · rw [walk, walk, e]
      by_cases hp : (m (slot t (n + 1) va)).present
      · have hlarge : (m (slot t (n + 1) va)).large = true := by
          cases hb : (m (slot t (n + 1) va)).large with
          | true => rfl
          | false => exact absurd ⟨hp, hb⟩ hl
        simp only [hp, hlarge, Bool.not_true, Bool.false_eq_true, if_false, if_true]
      · simp only [hp, Bool.not_false, if_true]

/-- So do the tables it passes. -/
theorem reach_congr {n t k u : Nat}
    (h : ∀ j v, Reach m va n t j v → k < j → m' (slot v j va) = m (slot v j va)) :
    Reach m' va n t k u ↔ Reach m va n t k u := by
  induction n generalizing t with
  | zero =>
    constructor
    · intro hr
      cases hr with
      | here => exact .here _ _
    · intro hr
      cases hr with
      | here => exact .here _ _
  | succ n ih =>
    constructor
    · intro hr
      cases hr with
      | here => exact .here _ _
      | down hl hd =>
        have e := h (n + 1) t (.here _ _) (Nat.lt_succ_of_le hd.le)
        rw [e] at hl hd
        exact .down hl ((ih fun j v hv hj => h j v (.down hl hv) hj).mp hd)
    · intro hr
      cases hr with
      | here => exact .here _ _
      | down hl hd =>
        have e := h (n + 1) t (.here _ _) (Nat.lt_succ_of_le hd.le)
        have hd' := (ih fun j v hv hj => h j v (.down hl hv) hj).mpr hd
        rw [← e] at hl hd'
        exact .down hl hd'

theorem slot_inj {t u n k va va' : Nat} (ht : t % 4096 = 0) (hu : u % 4096 = 0)
    (h : slot t n va = slot u k va') : t = u ∧ index n va = index k va' := by
  have h1 := index_lt n va
  have h2 := index_lt k va'
  unfold slot at h
  omega

end

/-! ## Trees -/

/-- A set of root entries that are not followed: those that map the tables themselves. -/
abbrev Windows := Nat → Prop

def Outside (W : Windows) (va : Nat) : Prop := ¬ W (index 3 va)

/-- The two addresses have the same index at every level from `n` up. -/
def SamePath (n va va' : Nat) : Prop := ∀ k, n ≤ k → k ≤ 3 → index k va = index k va'

/-- Every table is linked once. -/
structure Tree (m : PhysMem) (root : Nat) (W : Windows) : Prop where
  aligned : root % 4096 = 0
  once : ∀ va va' n n' t, Outside W va → Outside W va' → Reach m va 3 root n t →
    Reach m va' 3 root n' t → n = n' ∧ SamePath (n + 1) va va'

/-- A page that is not a table of the tree. -/
structure Fresh (m : PhysMem) (root : Nat) (W : Windows) (f : Nat) : Prop where
  aligned : f % 4096 = 0
  unused : ∀ va n t, Outside W va → Reach m va 3 root n t → t ≠ f

/-- `m'` differs from `m` at `p` and in the pages `F` only. -/
def SameBut (m m' : PhysMem) (p : Nat) (F : Nat → Prop) : Prop :=
  ∀ q, q ≠ p → (∀ f, F f → ¬ (f ≤ q ∧ q < f + 4096)) → m' q = m q

section
variable {m m' : PhysMem} {root : Nat} {W : Windows}

theorem SamePath.mono {n k va va' : Nat} (h : SamePath n va va') (hk : n ≤ k) : SamePath k va va' :=
  fun j hj h3 => h j (by omega) h3

theorem SamePath.cons {n va va' : Nat} (h : SamePath (n + 1) va va') (hi : index n va = index n va') :
    SamePath n va va' := by
  intro k hk h3
  by_cases he : k = n
  · subst he
    exact hi
  · exact h k (by omega) h3

/-- Addresses with the same path pass the same tables. -/
theorem SamePath.reach {n k t va va' : Nat} (h : SamePath (k + 1) va va') (hn : n ≤ 3)
    {u : Nat} (hr : Reach m va n t k u) : Reach m va' n t k u := by
  induction hr with
  | here => exact .here _ _
  | @down n t k u hl hd ih =>
    have hle := hd.le
    have hs : slot t (n + 1) va = slot t (n + 1) va' := by
      unfold slot
      rw [h (n + 1) (by omega) hn]
    rw [hs] at hl
    have hd' := ih h (by omega)
    rw [hs] at hd'
    exact .down hl hd'

/-- A walk of the tree that reads a changed entry reads the one at `p`, at the same level. -/
theorem Tree.reads {va va₀ j v n t : Nat} {F : Nat → Prop} (hT : Tree m root W)
    (hF : ∀ f, F f → Fresh m root W f) (hva : Outside W va) (hva₀ : Outside W va₀)
    (ht : Reach m va₀ 3 root n t) (hm : SameBut m m' (slot t n va₀) F)
    (hv : Reach m va 3 root j v) :
    (j = n ∧ v = t ∧ SamePath n va va₀) ∨ m' (slot v j va) = m (slot v j va) := by
  by_cases hp : slot v j va = slot t n va₀
  · left
    obtain ⟨rfl, hi⟩ := slot_inj (hv.aligned hT.aligned) (ht.aligned hT.aligned) hp
    obtain ⟨rfl, hpath⟩ := hT.once va va₀ j n v hva hva₀ hv ht
    exact ⟨rfl, rfl, hpath.cons hi⟩
  · right
    refine hm _ hp fun f hf hin => ?_
    have hfresh := hF f hf
    have h1 := hv.aligned hT.aligned
    have h2 := hfresh.aligned
    have h3 := index_lt j va
    have hne := hfresh.unused va j v hva hv
    unfold slot at hin
    omega

/-- Above the level of the changed entry all tables are the old ones. -/
theorem Tree.reach_above {va va₀ n t k u : Nat} {F : Nat → Prop} (hT : Tree m root W)
    (hF : ∀ f, F f → Fresh m root W f) (hva : Outside W va) (hva₀ : Outside W va₀)
    (ht : Reach m va₀ 3 root n t) (hm : SameBut m m' (slot t n va₀) F) (hk : n ≤ k) :
    Reach m' va 3 root k u ↔ Reach m va 3 root k u := by
  refine reach_congr fun j v hv hj => ?_
  rcases hT.reads hF hva hva₀ ht hm hv with ⟨rfl, -, -⟩ | he
  · omega
  · exact he

/-- A walk that does not take the path to the changed entry is the old one. -/
theorem Tree.reach_other {va va₀ n t k u : Nat} {F : Nat → Prop} (hT : Tree m root W)
    (hF : ∀ f, F f → Fresh m root W f) (hva : Outside W va) (hva₀ : Outside W va₀)
    (ht : Reach m va₀ 3 root n t) (hm : SameBut m m' (slot t n va₀) F) (hp : ¬ SamePath n va va₀) :
    Reach m' va 3 root k u ↔ Reach m va 3 root k u := by
  refine reach_congr fun j v hv _ => ?_
  rcases hT.reads hF hva hva₀ ht hm hv with ⟨-, -, hpath⟩ | he
  · exact absurd hpath hp
  · exact he

theorem Tree.walk_other {va va₀ n t : Nat} {F : Nat → Prop} (hT : Tree m root W)
    (hF : ∀ f, F f → Fresh m root W f) (hva : Outside W va) (hva₀ : Outside W va₀)
    (ht : Reach m va₀ 3 root n t) (hm : SameBut m m' (slot t n va₀) F) (hp : ¬ SamePath n va va₀) :
    walk m' va 3 root = walk m va 3 root := by
  refine walk_congr fun j v hv => ?_
  rcases hT.reads hF hva hva₀ ht hm hv with ⟨-, -, hpath⟩ | he
  · exact absurd hpath hp
  · exact he

end

/-! ## Writing into a page that is no table -/

section
variable {m m' : PhysMem} {root : Nat} {W : Windows} {f : Nat}

theorem Fresh.reads (hT : Tree m root W) (hf : Fresh m root W f)
    (hm : ∀ q, ¬ (f ≤ q ∧ q < f + 4096) → m' q = m q) {va k u : Nat} (hva : Outside W va)
    (hr : Reach m va 3 root k u) : m' (slot u k va) = m (slot u k va) := by
  apply hm
  have h1 := hr.aligned hT.aligned
  have h2 := hf.aligned
  have h3 := index_lt k va
  have hne := hf.unused va k u hva hr
  unfold slot
  omega

theorem Fresh.reach_iff (hT : Tree m root W) (hf : Fresh m root W f)
    (hm : ∀ q, ¬ (f ≤ q ∧ q < f + 4096) → m' q = m q) {va k u : Nat} (hva : Outside W va) :
    Reach m' va 3 root k u ↔ Reach m va 3 root k u :=
  reach_congr fun _ _ hr _ => hf.reads hT hm hva hr

theorem Fresh.translate (hT : Tree m root W) (hf : Fresh m root W f)
    (hm : ∀ q, ¬ (f ≤ q ∧ q < f + 4096) → m' q = m q) {va : Nat} (hva : Outside W va) :
    translation m' root va = translation m root va := by
  unfold translation
  split
  · exact walk_congr fun _ _ hr => hf.reads hT hm hva hr
  · rfl

end

/-! ## Linking a table -/

/-- Where the walk of `va₀` found nothing, at level `n + 1`, an entry for the zeroed page `f`
is written. -/
structure Link (m m' : PhysMem) (root : Nat) (W : Windows) (va₀ n t f : Nat) : Prop where
  outside : Outside W va₀
  reach : Reach m va₀ 3 root (n + 1) t
  absent : (m (slot t (n + 1) va₀)).present = false
  fresh : Fresh m root W f
  same : SameBut m m' (slot t (n + 1) va₀) (· = f)
  links : (m' (slot t (n + 1) va₀)).Links
  frame : (m' (slot t (n + 1) va₀)).frame = f
  zero : ∀ i, i < 512 → m' (f + 8 * i) = 0#64

section
variable {m m' : PhysMem} {root : Nat} {W : Windows} {va₀ n t f : Nat}

theorem Link.pages (h : Link m m' root W va₀ n t f) : ∀ g, g = f → Fresh m root W g := by
  rintro g rfl
  exact h.fresh

theorem zero_absent (h : ∀ i, i < 512 → m' (f + 8 * i) = 0#64) (k va : Nat) :
    (m' (slot f k va)).present = false := by
  unfold slot
  rw [h _ (index_lt _ _)]
  rfl

/-- The new table is reached from the entry, and nothing below it. -/
theorem Link.reach_new (hT : Tree m root W) (h : Link m m' root W va₀ n t f) {va k u : Nat}
    (hva : Outside W va) (hp : SamePath (n + 1) va va₀) (hk : k ≤ n) :
    Reach m' va 3 root k u ↔ k = n ∧ u = f := by
  have hle := h.reach.le
  have hpath : SamePath (n + 2) va₀ va := fun j hj h3 => (hp j (by omega) h3).symm
  have hslot : slot t (n + 1) va = slot t (n + 1) va₀ := by
    unfold slot
    rw [hp (n + 1) (Nat.le_refl _) hle]
  have htop : Reach m' va 3 root (n + 1) t :=
    (hT.reach_above h.pages hva h.outside h.reach h.same (Nat.le_refl _)).mpr
      (hpath.reach (Nat.le_refl 3) h.reach)
  have hnew : Reach m' va 3 root n f := by
    have hl := h.links
    rw [← hslot] at hl
    have hr := htop.next hl
    rwa [hslot, h.frame] at hr
  constructor
  · intro hr
    by_cases he : k = n
    · subst he
      exact ⟨rfl, hr.unique hnew⟩
    · -- a table further down would have to be linked by a zero entry
      exfalso
      obtain ⟨v, hv, hd⟩ := hr.through hk (by omega)
      rw [hv.unique hnew] at hd
      cases hd with
      | here => exact he rfl
      | down hl _ =>
        have hz := hl.1
        rw [zero_absent h.zero] at hz
        cases hz
  · rintro ⟨rfl, rfl⟩
    exact hnew

/-- Linking a zeroed table changes no translation. -/
theorem Link.translate (hT : Tree m root W) (h : Link m m' root W va₀ n t f) {va : Nat}
    (hva : Outside W va) : translation m' root va = translation m root va := by
  unfold PageTable.translation
  split
  · by_cases hp : SamePath (n + 1) va va₀
    · have hpath : SamePath (n + 2) va₀ va := fun j hj h3 => (hp j (by omega) h3).symm
      have hslot : slot t (n + 1) va = slot t (n + 1) va₀ := by
        unfold slot
        rw [hp (n + 1) (Nat.le_refl _) h.reach.le]
      have hold := hpath.reach (Nat.le_refl 3) h.reach
      have hnew := (h.reach_new hT hva hp (Nat.le_refl n)).mpr ⟨rfl, rfl⟩
      rw [hold.walk, hnew.walk, walk_absent (zero_absent h.zero _ _), walk_absent]
      rw [hslot]
      exact h.absent
    · exact hT.walk_other h.pages hva h.outside h.reach h.same hp
  · rfl

/-- The tables of the linked tree: the old ones and the new one. -/
theorem Link.reach_iff (hT : Tree m root W) (h : Link m m' root W va₀ n t f) {va k u : Nat}
    (hva : Outside W va) : Reach m' va 3 root k u ↔
      Reach m va 3 root k u ∨ (k = n ∧ u = f ∧ SamePath (n + 1) va va₀) := by
  by_cases hp : SamePath (n + 1) va va₀
  · by_cases hk : k ≤ n
    · rw [h.reach_new hT hva hp hk]
      constructor
      · rintro ⟨rfl, rfl⟩
        exact .inr ⟨rfl, rfl, hp⟩
      · rintro (hr | ⟨rfl, rfl, -⟩)
        · -- the old walk ended at the absent entry
          exfalso
          have hpath : SamePath (n + 2) va₀ va := fun j hj h3 => (hp j (by omega) h3).symm
          have hslot : slot t (n + 1) va = slot t (n + 1) va₀ := by
            unfold slot
            rw [hp (n + 1) (Nat.le_refl _) h.reach.le]
          have hold := hpath.reach (Nat.le_refl 3) h.reach
          obtain ⟨v, hv, hd⟩ := hr.through (show k ≤ n + 1 by omega) h.reach.le
          rw [hv.unique hold] at hd
          cases hd with
          | here => omega
          | down hl _ =>
            have hz := hl.1
            rw [hslot, h.absent] at hz
            cases hz
        · exact ⟨rfl, rfl⟩
    · rw [hT.reach_above h.pages hva h.outside h.reach h.same (by omega)]
      constructor
      · exact .inl
      · rintro (hr | ⟨rfl, -, -⟩)
        · exact hr
        · omega
  · rw [hT.reach_other h.pages hva h.outside h.reach h.same hp]
    constructor
    · exact .inl
    · rintro (hr | ⟨-, -, hpath⟩)
      · exact hr
      · exact absurd hpath hp

theorem Link.tree (hT : Tree m root W) (h : Link m m' root W va₀ n t f) : Tree m' root W where
  aligned := hT.aligned
  once va va' k k' u hva hva' hr hr' := by
    rw [h.reach_iff hT hva] at hr
    rw [h.reach_iff hT hva'] at hr'
    rcases hr with hr | ⟨rfl, rfl, hp⟩
    · rcases hr' with hr' | ⟨rfl, rfl, hp'⟩
      · exact hT.once va va' k k' u hva hva' hr hr'
      · exact absurd rfl (h.fresh.unused va k u hva hr)
    · rcases hr' with hr' | ⟨rfl, -, hp'⟩
      · exact absurd rfl (h.fresh.unused va' k' u hva' hr')
      · exact ⟨rfl, fun j hj h3 => (hp j hj h3).trans (hp' j hj h3).symm⟩

theorem Link.fresh_other (hT : Tree m root W) (h : Link m m' root W va₀ n t f) {g : Nat}
    (hg : Fresh m root W g) (hne : g ≠ f) : Fresh m' root W g where
  aligned := hg.aligned
  unused va k u hva hr := by
    rw [h.reach_iff hT hva] at hr
    rcases hr with hr | ⟨-, rfl, -⟩
    · exact hg.unused va k u hva hr
    · exact hne.symm

end

/-! ## Writing an entry that leads to no table -/

section
variable {m m' : PhysMem} {root : Nat} {W : Windows} {va va₀ n t : Nat}

/-- The tables stay where they are. -/
theorem Tree.reach_dead {k u : Nat} (hT : Tree m root W) (hva : Outside W va) (hva₀ : Outside W va₀)
    (ht : Reach m va₀ 3 root n t) (hm : SameBut m m' (slot t n va₀) fun _ => False)
    (hdead : n = 0 ∨ ¬ (m (slot t n va₀)).Links ∧ ¬ (m' (slot t n va₀)).Links) :
    Reach m' va 3 root k u ↔ Reach m va 3 root k u := by
  have hno : ∀ f, (fun _ : Nat => False) f → Fresh m root W f := fun _ hf => hf.elim
  by_cases hk : n ≤ k
  · exact hT.reach_above hno hva hva₀ ht hm hk
  · obtain ⟨hold, hnew⟩ := hdead.resolve_left (by omega)
    by_cases hp : SamePath n va va₀
    · have hslot : slot t n va = slot t n va₀ := by
        unfold slot
        rw [hp n (Nat.le_refl n) ht.le]
      have htop : Reach m va 3 root n t :=
        SamePath.reach (fun j h1 h3 => (hp j (by omega) h3).symm) (Nat.le_refl 3) ht
      -- both walks end at the entry
      have hstop : ∀ y : PhysMem, Reach y va 3 root n t → ¬ (y (slot t n va₀)).Links → ¬ Reach y va 3 root k u := by
        intro y hy hlinks hr
        obtain ⟨v, hv, hd⟩ := hr.through (show k ≤ n by omega) ht.le
        obtain rfl := hv.unique hy
        cases hd with
        | here => omega
        | down hl _ => exact hlinks (hslot ▸ hl)
      exact iff_of_false (hstop m' ((hT.reach_above hno hva hva₀ ht hm (Nat.le_refl n)).mpr htop) hnew)
        (hstop m htop hold)
    · exact hT.reach_other hno hva hva₀ ht hm hp

/-- What goes through an entry that is not present has no translation. -/
theorem translation_absent (hp : SamePath n va va₀) (hn : n ≤ 3) (ht : Reach m va₀ 3 root n t)
    (habsent : (m (slot t n va₀)).present = false) : translation m root va = none := by
  have htop : Reach m va 3 root n t := SamePath.reach (fun j h1 h3 => (hp j (by omega) h3).symm) (Nat.le_refl 3) ht
  have hslot : slot t n va = slot t n va₀ := by
    unfold slot
    rw [hp n (Nat.le_refl n) hn]
  unfold translation
  rw [htop.walk, walk_absent (by rw [hslot]; exact habsent), ite_self]

/-- What does not go through the entry keeps its translation. -/
theorem Tree.translate_other (hT : Tree m root W) (hva : Outside W va) (hva₀ : Outside W va₀)
    (ht : Reach m va₀ 3 root n t) (hm : SameBut m m' (slot t n va₀) fun _ => False) (hp : ¬ SamePath n va va₀) :
    translation m' root va = translation m root va := by
  unfold translation
  rw [hT.walk_other (fun _ hf => hf.elim) hva hva₀ ht hm hp]

end

/-! ## Writing a page's entry -/

section
variable {m m' : PhysMem} {root : Nat} {W : Windows} {va₀ t : Nat}

/-- The tables stay where they are. -/
theorem leaf_reach (hT : Tree m root W) (hva₀ : Outside W va₀) (ht : Reach m va₀ 3 root 0 t)
    (hm : SameBut m m' (slot t 0 va₀) fun _ => False) {va k u : Nat} (hva : Outside W va) :
    Reach m' va 3 root k u ↔ Reach m va 3 root k u :=
  hT.reach_dead hva hva₀ ht hm (.inl rfl)

/-- Other pages keep their translation. -/
theorem leaf_translate_other (hT : Tree m root W) (hva₀ : Outside W va₀)
    (ht : Reach m va₀ 3 root 0 t) (hm : SameBut m m' (slot t 0 va₀) fun _ => False) {va : Nat}
    (hva : Outside W va) (hp : ¬ SamePath 0 va va₀) : translation m' root va = translation m root va :=
  hT.translate_other hva hva₀ ht hm hp

/-- The page gets the translation its entry says. -/
theorem leaf_translate (hT : Tree m root W) (hva₀ : Outside W va₀) (ht : Reach m va₀ 3 root 0 t)
    (hm : SameBut m m' (slot t 0 va₀) fun _ => False)
    (hpresent : (m' (slot t 0 va₀)).present = true) {va : Nat} (hcan : Canonical va)
    (hva : Outside W va) (hp : SamePath 0 va va₀) :
    translation m' root va = some ((m' (slot t 0 va₀)).frame + va % 4096) := by
  have hpath : SamePath 1 va₀ va := fun j hj h3 => (hp j (by omega) h3).symm
  have hslot : slot t 0 va = slot t 0 va₀ := by
    unfold slot
    rw [hp 0 (Nat.le_refl _) (by decide)]
  have hr := (leaf_reach hT hva₀ ht hm hva).mpr (hpath.reach (Nat.le_refl 3) ht)
  unfold translation
  rw [if_pos hcan, hr.walk, walk, hslot]
  simp only [hpresent, if_true]

end

/-! ## Trees given by their paths -/

/-- The indices on the way from the root to level `n`. -/
def indices (va n : Nat) : List Nat := (List.range (3 - n)).map fun i => index (3 - i) va

/-- `paths` has every table of the tree, with the indices that lead to it. -/
structure Charted (m : PhysMem) (root : Nat) (W : Windows) (paths : List (Nat × List Nat)) : Prop where
  aligned : root % 4096 = 0
  root : (root, []) ∈ paths
  once : ∀ p ∈ paths, ∀ q ∈ paths, p.1 = q.1 → p.2 = q.2
  next : ∀ p ∈ paths, p.2.length < 3 → ∀ i ∈ List.range 512, (p.2 = [] → ¬ W i) → (m (p.1 + 8 * i)).Links →
    ((m (p.1 + 8 * i)).frame, p.2 ++ [i]) ∈ paths

section
variable {m : PhysMem} {root va n t : Nat} {W : Windows} {paths : List (Nat × List Nat)}

@[simp] theorem length_indices (va n : Nat) : (indices va n).length = 3 - n := by
  rw [indices, List.length_map, List.length_range]

theorem indices_succ (va : Nat) {n : Nat} (hn : n < 3) : indices va n = indices va (n + 1) ++ [index (n + 1) va] := by
  have hlevel : 3 - n = 3 - (n + 1) + 1 := by omega
  rw [indices, hlevel, List.range_succ, List.map_append, List.map_singleton, indices]
  congr 3
  omega

theorem samePath_of_indices {va va' n n' : Nat} (hn : n ≤ 3) (hn' : n' ≤ 3) (h : indices va n = indices va' n') :
    n = n' ∧ SamePath (n + 1) va va' := by
  have hlength := congrArg List.length h
  simp only [length_indices] at hlength
  obtain rfl : n = n' := by omega
  refine ⟨rfl, fun k hk h3 => ?_⟩
  have hentry := List.map_inj_left.mp h (3 - k) (List.mem_range.mpr (by omega))
  rwa [show 3 - (3 - k) = k by omega] at hentry

theorem Charted.step {j u : Nat} (h : Charted m root W paths) (hva : Outside W va) (hr : Reach m va j u n t) (hj : j ≤ 3)
    (hu : (u, indices va j) ∈ paths) : (t, indices va n) ∈ paths := by
  induction hr with
  | here => exact hu
  | @down j u n t hl _ ih =>
    refine ih (by omega) ?_
    rw [indices_succ va (by omega)]
    refine h.next _ hu (by rw [length_indices]; omega) _ (List.mem_range.mpr (index_lt _ _)) (fun hnil => ?_) hl
    obtain rfl : j = 2 := by
      have hlength := congrArg List.length hnil
      rw [length_indices, List.length_nil] at hlength
      omega
    exact hva

/-- A table of the tree is listed with its path. -/
theorem Charted.reach (h : Charted m root W paths) (hva : Outside W va) (hr : Reach m va 3 root n t) : (t, indices va n) ∈ paths :=
  h.step hva hr (Nat.le_refl 3) h.root

theorem Charted.tree (h : Charted m root W paths) : Tree m root W where
  aligned := h.aligned
  once _ _ _ _ _ hva hva' hr hr' :=
    samePath_of_indices hr.le hr'.le (h.once _ (h.reach hva hr) _ (h.reach hva' hr') rfl)

end

/-! ## The same page -/

/-- Canonical addresses with the same four indices lie on one page. -/
theorem samePath_page {va va' : Nat} (hva : Canonical va) (hva' : Canonical va')
    (h : SamePath 0 va va') : va / 4096 = va' / 4096 := by
  have h0 := h 0 (Nat.le_refl _) (by decide)
  have h1 := h 1 (by decide) (by decide)
  have h2 := h 2 (by decide) (by decide)
  have h3 := h 3 (by decide) (by decide)
  unfold index at h0 h1 h2 h3
  unfold Canonical at hva hva'
  simp only [Nat.reduceMul, Nat.reduceAdd, Nat.reducePow] at *
  omega

/-- Canonical addresses with the same three upper indices lie on one large page. -/
theorem samePath_large {va va' : Nat} (hva : Canonical va) (hva' : Canonical va')
    (h : SamePath 1 va va') : va / 0x200000 = va' / 0x200000 := by
  have h1 := h 1 (by decide) (by decide)
  have h2 := h 2 (by decide) (by decide)
  have h3 := h 3 (by decide) (by decide)
  unfold index at h1 h2 h3
  unfold Canonical at hva hva'
  simp only [Nat.reduceMul, Nat.reduceAdd, Nat.reducePow] at *
  omega

end BadLands.Core.PageTable
