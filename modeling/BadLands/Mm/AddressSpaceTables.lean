import BadLands.Mm.AddressSpaceWindow

/-!
# The tables of the new space

What the steps after `CreateSecondaryRecursiveMapping` leave alone. They write the tables of the task memory, which are
frames of the new space, and the frames they add. So the tables of the current space stay as they are
(`Undisturbed`), and so does what `FreeSecondaryRecursiveMapping` reads first (`Skeleton`).
-/
namespace BadLands.Mm.AddressSpace

open BadLands.Core BadLands.Core.PageTable BadLands.Mm.Layout BadLands.Mm.Paging

/-! ## Writes beside the tables -/

/-- The tables of `root` have the same entries in `m'` as in `m`. -/
structure Undisturbed (m m' : PhysMem) (root : Nat) : Prop where
  entry : ∀ a k u, Outside windows a → Reach m a 3 root k u → m' (slot u k a) = m (slot u k a)
  window : m' (root + 8 * windowIndex true) = m (root + 8 * windowIndex true)

section
variable {m m' : PhysMem} {root maxPhyAddr : Nat} {a k u : Nat}

theorem Undisturbed.reach_iff (h : Undisturbed m m' root) (ha : Outside windows a) :
    Reach m' a 3 root k u ↔ Reach m a 3 root k u := reach_congr fun j v hv _ => h.entry a j v ha hv

theorem Undisturbed.translate (h : Undisturbed m m' root) (ha : Outside windows a) :
    translation m' root a = translation m root a := by
  unfold translation
  rw [walk_congr fun k u hr => h.entry a k u ha hr]

theorem Undisturbed.tables (h : Undisturbed m m' root) (ht : Tables m root) : Tables m' root where
  tree := ⟨ht.tree.aligned, fun a a' n n' t ha ha' hr hr' =>
    ht.tree.once a a' n n' t ha ha' ((h.reach_iff ha).mp hr) ((h.reach_iff ha').mp hr')⟩
  window := by
    have hw := ht.window
    unfold Window at hw ⊢
    rw [if_pos rfl] at hw ⊢
    rw [h.window]
    exact hw

theorem Undisturbed.fresh (h : Undisturbed m m' root) {f : Nat} (hf : Fresh m root windows f) :
    Fresh m' root windows f :=
  ⟨hf.aligned, fun a n t ha hr => hf.unused a n t ha ((h.reach_iff ha).mp hr)⟩

theorem Undisturbed.noLarge (h : Undisturbed m m' root) (ha : Outside windows a) (hl : NoLarge m root a) :
    NoLarge m' root a := by
  intro n t hr h1 hp
  have hr' := (h.reach_iff ha).mp hr
  rw [h.entry a n t ha hr'] at hp ⊢
  exact hl n t hr' h1 hp

theorem outside_zero : Outside windows 0 := by
  unfold Outside windows
  decide

/-- Writes into pages that are no tables, and the entry of the secondary window. -/
theorem undisturbed_of_pages {F : Nat → Prop} (h : Tables m root) (hF : ∀ f, F f → Fresh m root windows f)
    (hm : ∀ q, q ≠ root + 8 * windowIndex false → (∀ f, F f → ¬ (f ≤ q ∧ q < f + 4096)) → m' q = m q) :
    Undisturbed m m' root := by
  have hroot := h.tree.aligned
  have hne : windowIndex false ≠ windowIndex true := by decide
  constructor
  · intro a k u ha hr
    have hu := hr.aligned hroot
    have hi := index_lt k a
    have hw := windowIndex_lt false
    refine hm _ (fun he => ?_) fun f hf hin => ?_
    · obtain ⟨rfl, hidx⟩ : u = root ∧ index k a = windowIndex false := by
        unfold slot at he
        omega
      obtain ⟨rfl, -⟩ := h.tree.once a a k 3 u ha ha hr (.here _ _)
      exact ha (.inr hidx)
    · have hfa := (hF f hf).aligned
      have hfn := (hF f hf).unused a k u ha hr
      unfold slot at hin
      omega
  · have hw := windowIndex_lt true
    refine hm _ (by omega) fun f hf hin => ?_
    have hfa := (hF f hf).aligned
    have hfn := (hF f hf).unused 0 3 root outside_zero (.here _ _)
    omega

theorem Scannable.undisturbed {supply : Supply} {w w' : World} (h : Scannable supply root maxPhyAddr w)
    (hu : Undisturbed w.mem w'.mem root) (ht : ∀ p, p ∈ w.taken → p ∈ w'.taken) :
    Scannable supply root maxPhyAddr w' where
  tables := hu.tables h.tables
  kernel := by
    have hlt : 0 < gpPages := by
      rw [gpPages_eq]
      decide
    have hentry := hu.entry (generalPage 0) 3 root (generalPage_outside hlt) (.here _ _)
    have hslot : slot root 3 (generalPage 0) = root + 8 * 256 := by
      unfold slot
      rw [generalPage_index hlt]
    rw [hslot] at hentry
    rw [hentry]
    exact h.kernel
  small i hi := hu.noLarge (generalPage_outside hi) (h.small i hi)
  unused := h.unused
  next s p hp hnot := by
    obtain ⟨hbits, hfresh⟩ := h.next s p hp fun hmem => hnot (ht p hmem)
    exact ⟨hbits, hu.fresh hfresh⟩

end

/-! ## What the teardown reads first -/

/-- The new root `cr3` behind the secondary window, its entry for the primary window, and slot 0 with the PDPT `first`,
whose first entries are those of the current space. `m₀`: the memory before the call. -/
structure Skeleton (m₀ m : PhysMem) (root cr3 first : Nat) : Prop where
  window : Window m root cr3 false
  primary : (m (cr3 + 8 * primaryPml4Index)).present = true
  link : PointsTo (m cr3) first
  dma : ∀ i, i < 8 → m (first + 8 * i) = setPDPTEInfo (getPDPTEInfo (m₀ ((m₀ root).frame + 8 * i)))
  low : ∀ a k u, a < 2 ^ 39 → Reach m₀ a 3 root k u → m (slot u k a) = m₀ (slot u k a)

/-- The words that `Skeleton` is about. -/
inductive Guarded (m₀ : PhysMem) (root cr3 first : Nat) : Nat → Prop
  | window : Guarded m₀ root cr3 first (root + 8 * 509)
  | root (i : Nat) : i < 511 → Guarded m₀ root cr3 first (cr3 + 8 * i)
  | dma (i : Nat) : i < 8 → Guarded m₀ root cr3 first (first + 8 * i)
  | low (a k u : Nat) : a < 2 ^ 39 → Reach m₀ a 3 root k u → Guarded m₀ root cr3 first (slot u k a)

theorem Skeleton.kept {m₀ m m' : PhysMem} {root cr3 first : Nat} (h : Skeleton m₀ m root cr3 first)
    (hm : ∀ q, Guarded m₀ root cr3 first q → m' q = m q) : Skeleton m₀ m' root cr3 first where
  window := by
    obtain ⟨hs, hself⟩ := h.window
    constructor
    · change PointsTo (m' (root + 8 * 509)) cr3
      rw [hm _ .window]
      exact hs
    · change PointsTo (m' (cr3 + 8 * 509)) cr3
      rw [hm _ (.root 509 (by decide))]
      exact hself
  primary := by
    rw [hm _ (.root _ (by decide))]
    exact h.primary
  link := by
    have hslot0 : m' cr3 = m cr3 := hm _ (.root 0 (by decide))
    rw [hslot0]
    exact h.link
  dma i hi := by
    rw [hm _ (.dma i hi)]
    exact h.dma i hi
  low a k u ha hr := by
    rw [hm _ (.low a k u ha hr)]
    exact h.low a k u ha hr

/-- The root entries of the new space that are not followed: all but the one of the task memory. -/
def besideTask : Windows := fun i => i ≠ 511

/-- The new space after `CreateSecondaryRecursiveMapping`, while the task memory is being set up. -/
structure Space (supply : Supply) (m₀ : PhysMem) (root maxPhyAddr : Nat) (cr3 first : Entry) (w : World) : Prop where
  scan : Scannable supply root maxPhyAddr w
  skeleton : Skeleton m₀ w.mem root cr3.toNat first.toNat
  before : ∀ s p, supply s = some p → Fresh m₀ root windows p.toNat
  supplied : ∀ p ∈ w.taken, ∃ s, supply s = some p
  newRoot : cr3 ∈ w.taken ∧ Fresh w.mem root windows cr3.toNat
  newFirst : first ∈ w.taken ∧ Fresh w.mem root windows first.toNat
  apart : cr3 ≠ first
  tree : Tree w.mem cr3.toNat besideTask
  small : ∀ a, index 3 a = 511 → NoLarge w.mem cr3.toNat a
  own : ∀ a n t, index 3 a = 511 → Reach w.mem a 3 cr3.toNat n t → n < 3 →
    ∃ p ∈ w.taken, p ≠ cr3 ∧ p ≠ first ∧ t = p.toNat ∧ Fresh w.mem root windows t

section
variable {supply : Supply} {m₀ m' : PhysMem} {root maxPhyAddr : Nat} {cr3 first : Entry} {w : World} {va n t : Nat}

theorem outside_task (h : index 3 va = 511) : Outside besideTask va := fun hne => hne h

/-- A frame that was supplied and is not one of the first two holds no word of the skeleton. -/
theorem Space.guarded_beside (h : Space supply m₀ root maxPhyAddr cr3 first w) {s : List Entry} {p : Entry}
    (hp : supply s = some p) (hc : p ≠ cr3) (hf : p ≠ first) (hroot : p.toNat ≠ root) {q : Nat}
    (hq : Guarded m₀ root cr3.toNat first.toNat q) : ¬ (p.toNat ≤ q ∧ q < p.toNat + 4096) := by
  have hfresh := h.before s p hp
  have ha := hfresh.aligned
  have hra := h.scan.tables.tree.aligned
  have hca := h.newRoot.2.aligned
  have hfa := h.newFirst.2.aligned
  have hc' : p.toNat ≠ cr3.toNat := fun he => hc (BitVec.eq_of_toNat_eq he)
  have hf' : p.toNat ≠ first.toNat := fun he => hf (BitVec.eq_of_toNat_eq he)
  cases hq with
  | window => omega
  | root i hi => omega
  | dma i hi => omega
  | low a k u hlow hr =>
    have hout := outside_low (show a < 2 ^ 47 by omega)
    have hu := hr.aligned hra
    have hne := hfresh.unused a k u hout hr
    have hi := index_lt k a
    unfold slot
    omega

/-- A write to a table of the task memory and into a frame that is added there. -/
theorem Space.touch (h : Space supply m₀ root maxPhyAddr cr3 first w) (page : Option Entry) (hva : index 3 va = 511)
    (ht : Reach w.mem va 3 cr3.toNat n t) (hpage : ∀ p, page = some p → supply w.taken = some p)
    (hm : SameBut w.mem m' (slot t n va) fun f => ∃ p, page = some p ∧ f = p.toNat) :
    Undisturbed w.mem m' root ∧ Skeleton m₀ m' root cr3.toNat first.toNat := by
  have hca := h.newRoot.2.aligned
  have hta := ht.aligned h.tree.aligned
  have hi := index_lt n va
  have hnew : ∀ p, page = some p → p ∉ w.taken := fun p hp => h.scan.unused _ p (hpage p hp)
  have hfresh : ∀ p, page = some p → Fresh w.mem root windows p.toNat := fun p hp =>
    (h.scan.next _ p (hpage p hp) (hnew p hp)).2
  -- the table is the new root or a frame of its own
  have htable : Fresh w.mem root windows t ∧ ((n = 3 ∧ t = cr3.toNat) ∨
      ∃ p ∈ w.taken, p ≠ cr3 ∧ p ≠ first ∧ t = p.toNat) := by
    by_cases hn : n < 3
    · obtain ⟨p, hmem, hc, hf, hp, hfr⟩ := h.own va n t hva ht hn
      exact ⟨hfr, .inr ⟨p, hmem, hc, hf, hp⟩⟩
    · obtain rfl : n = 3 := by have := ht.le; omega
      obtain rfl := reach_top ht
      exact ⟨h.newRoot.2, .inl ⟨rfl, rfl⟩⟩
  constructor
  · refine undisturbed_of_pages (F := fun f => f = t ∨ ∃ p, page = some p ∧ f = p.toNat) h.scan.tables ?_ ?_
    · rintro f (rfl | ⟨p, hp, rfl⟩)
      · exact htable.1
      · exact hfresh p hp
    · intro q _ hq
      refine hm q (fun he => hq t (.inl rfl) ?_) fun f hf => hq f (.inr hf)
      rw [he]
      unfold slot
      omega
  · refine h.skeleton.kept fun q hq => hm q (fun he => ?_) ?_
    · obtain ⟨rfl, rfl⟩ | ⟨p, hmem, hc, hf, rfl⟩ := htable.2
      · -- the entry of the new root is the last one
        have hslot : slot cr3.toNat 3 va = cr3.toNat + 8 * 511 := by
          unfold slot
          rw [hva]
        rw [hslot] at he
        have hra := h.scan.tables.tree.aligned
        have hfa := h.newFirst.2.aligned
        have hcr : cr3.toNat ≠ root := (htable.1.unused 0 3 root outside_zero (.here _ _)).symm
        have hcf : cr3.toNat ≠ first.toNat := fun heq => h.apart (BitVec.eq_of_toNat_eq heq)
        cases hq with
        | window => omega
        | root i hi => omega
        | dma i hi => omega
        | low a k u hlow hr =>
          obtain ⟨s, hs⟩ := h.supplied cr3 h.newRoot.1
          have hu := hr.aligned hra
          have hne := (h.before s cr3 hs).unused a k u (outside_low (by omega)) hr
          have hi := index_lt k a
          unfold slot at he
          omega
      · obtain ⟨s, hs⟩ := h.supplied p hmem
        refine h.guarded_beside hs hc hf (htable.1.unused 0 3 root outside_zero (.here _ _)).symm hq ?_
        rw [he]
        unfold slot
        omega
    · rintro f ⟨p, hp, rfl⟩
      refine h.guarded_beside (hpage p hp) ?_ ?_ ((hfresh p hp).unused 0 3 root outside_zero (.here _ _)).symm hq
      · rintro rfl
        exact hnew _ hp h.newRoot.1
      · rintro rfl
        exact hnew _ hp h.newFirst.1

/-- A table is added. -/
theorem Space.linked (h : Space supply m₀ root maxPhyAddr cr3 first w) {p : Entry} (hva : index 3 va = 511)
    (hp : supply w.taken = some p) (hl : Link w.mem m' cr3.toNat besideTask va n t p.toNat) :
    Space supply m₀ root maxPhyAddr cr3 first { w with mem := m', taken := p :: w.taken } := by
  have hout : ∀ {a}, index 3 a = 511 → Outside besideTask a := outside_task
  have hnew := h.scan.unused _ p hp
  have hmem : ∀ q, q ∈ w.taken → q ∈ p :: w.taken := fun q hq => List.mem_cons_of_mem p hq
  obtain ⟨hund, hskel⟩ := h.touch (some p) hva hl.reach (fun q hq => by cases hq; exact hp) fun q hq hf =>
    hl.same q hq fun f hfp => hf f ⟨p, rfl, hfp⟩
  refine ⟨h.scan.undisturbed hund hmem, hskel, h.before, fun q hq => ?_,
    ⟨hmem _ h.newRoot.1, hund.fresh h.newRoot.2⟩, ⟨hmem _ h.newFirst.1, hund.fresh h.newFirst.2⟩, h.apart,
    hl.tree h.tree, fun a ha => link_noLarge h.tree hl (hout ha) (h.small a ha), fun a k u ha hr hk => ?_⟩
  · rcases List.mem_cons.mp hq with rfl | hq
    · exact ⟨_, hp⟩
    · exact h.supplied q hq
  · rcases (hl.reach_iff h.tree (hout ha)).mp hr with hr | ⟨rfl, rfl, -⟩
    · obtain ⟨q, hq, hc, hf, rfl, hfresh⟩ := h.own a k u ha hr hk
      exact ⟨q, hmem q hq, hc, hf, rfl, hund.fresh hfresh⟩
    · refine ⟨p, List.mem_cons_self, ?_, ?_, rfl, hund.fresh (h.scan.next _ p hp hnew).2⟩
      · rintro rfl
        exact hnew h.newRoot.1
      · rintro rfl
        exact hnew h.newFirst.1

/-- The entry of a page is written. -/
theorem Space.leaf (h : Space supply m₀ root maxPhyAddr cr3 first w) (hva : index 3 va = 511)
    (ht : Reach w.mem va 3 cr3.toNat 0 t) (hm : SameBut w.mem m' (slot t 0 va) fun _ => False) :
    Space supply m₀ root maxPhyAddr cr3 first { w with mem := m' } ∧ ∀ a k u, index 3 a = 511 →
      (Reach m' a 3 cr3.toNat k u ↔ Reach w.mem a 3 cr3.toNat k u) := by
  have hreach : ∀ a k u, index 3 a = 511 → (Reach m' a 3 cr3.toNat k u ↔ Reach w.mem a 3 cr3.toNat k u) :=
    fun a k u ha => leaf_reach h.tree (outside_task hva) ht hm (outside_task ha)
  have hin : ∀ a, Outside besideTask a → index 3 a = 511 := fun a ha => Classical.byContradiction ha
  obtain ⟨hund, hskel⟩ := h.touch none hva ht (fun p hp => by cases hp) fun q hq _ => hm q hq fun _ hf => hf.elim
  refine ⟨⟨h.scan.undisturbed hund fun _ hp => hp, hskel, h.before, h.supplied,
    ⟨h.newRoot.1, hund.fresh h.newRoot.2⟩, ⟨h.newFirst.1, hund.fresh h.newFirst.2⟩, h.apart,
    ⟨h.tree.aligned, fun a a' k k' u ha ha' hr hr' => ?_⟩,
    fun a ha => leaf_noLarge h.tree (outside_task hva) ht hm (outside_task ha) (h.small a ha),
    fun a k u ha hr hk => ?_⟩, hreach⟩
  · exact h.tree.once a a' k k' u ha ha' ((hreach a k u (hin a ha)).mp hr) ((hreach a' k' u (hin a' ha')).mp hr')
  · obtain ⟨q, hq, hc, hf, rfl, hfresh⟩ := h.own a k u ha ((hreach a k u ha).mp hr) hk
    exact ⟨q, hq, hc, hf, rfl, hund.fresh hfresh⟩

/-! ## The steps -/

/-- What a step of the set-up leaves: the invariant, and every table that was there. -/
structure Stepped (supply : Supply) (m₀ : PhysMem) (root maxPhyAddr : Nat) (cr3 first : Entry) (w w' : World) :
    Prop where
  space : Space supply m₀ root maxPhyAddr cr3 first w'
  reach : ∀ a k u, index 3 a = 511 → Reach w.mem a 3 cr3.toNat k u → Reach w'.mem a 3 cr3.toNat k u

theorem Stepped.refl (h : Space supply m₀ root maxPhyAddr cr3 first w) :
    Stepped supply m₀ root maxPhyAddr cr3 first w w := ⟨h, fun _ _ _ _ hr => hr⟩

theorem Stepped.trans {w₁ w₂ : World} (h : Stepped supply m₀ root maxPhyAddr cr3 first w w₁)
    (h' : Stepped supply m₀ root maxPhyAddr cr3 first w₁ w₂) :
    Stepped supply m₀ root maxPhyAddr cr3 first w w₂ :=
  ⟨h'.space, fun a k u ha hr => h'.reach a k u ha (h.reach a k u ha hr)⟩

/-- One level, through the secondary window. -/
theorem ensureTable_stepped {entryPtr tablePtr : Nat} {userMode ok : Bool} {setInfo : EntryInfo → Entry} {w' : World}
    (h : Space supply m₀ root maxPhyAddr cr3 first w) (hva : index 3 va = 511)
    (ht : Reach w.mem va 3 cr3.toNat (n + 1) t) (hptr : PointersAt root cr3.toNat false va n entryPtr tablePtr)
    (hset : ∀ a, setInfo (linkInfo userMode a) = withFlag 3#64 entryUserMode userMode ||| (a &&& entryAddress))
    (hrun : ensureTable supply w root maxPhyAddr userMode setInfo entryPtr tablePtr = some (ok, w')) :
    Stepped supply m₀ root maxPhyAddr cr3 first w w' ∧ (ok = true → ∃ u, Reach w'.mem va 3 cr3.toNat n u) := by
  have hread : readVirtual w.mem root entryPtr = some (w.mem (slot t (n + 1) va)) := by
    unfold readVirtual
    rw [hptr.entry _ t h.skeleton.window ht]
    rfl
  have hpage : ∀ p, supply w.taken = some p → filterAddress maxPhyAddr p &&& entryAddress = p ∧
      Fresh w.mem cr3.toNat besideTask p.toNat ∧
      ∀ m', SameBut w.mem m' (slot t (n + 1) va) (· = p.toNat) → Window m' root cr3.toNat false := by
    intro p hp
    have hnew := h.scan.unused _ p hp
    obtain ⟨hbits, hfresh⟩ := h.scan.next _ p hp hnew
    refine ⟨hbits, ⟨hfresh.aligned, fun a k u ha hr he => ?_⟩, fun m' hm => ?_⟩
    · have hidx : index 3 a = 511 := Classical.byContradiction ha
      by_cases hk : k < 3
      · obtain ⟨q, hq, -, -, rfl, -⟩ := h.own a k u hidx hr hk
        rw [← BitVec.eq_of_toNat_eq he] at hnew
        exact hnew hq
      · obtain rfl : k = 3 := by have := hr.le; omega
        rw [reach_top hr] at he
        rw [← BitVec.eq_of_toNat_eq he] at hnew
        exact hnew h.newRoot.1
    · exact (h.touch (some p) hva ht (fun q hq => by cases hq; exact hp) fun q hq hf =>
        hm q hq fun f hfp => hf f ⟨p, rfl, hfp⟩).2.window
  obtain ⟨ok', m', hrun', hcase⟩ := ensureTable_at h.tree h.skeleton.window (outside_task hva) ht hptr hset hpage
  unfold ensureTable at hrun
  simp only [Option.bind_eq_bind, hread, Option.bind_some, hrun', present_iff] at hrun
  obtain ⟨rfl, rfl⟩ := Prod.mk.inj (Option.some.inj hrun)
  rcases hcase with ⟨rfl, hp, hnone⟩ | ⟨rfl, p, hp, hlink⟩
  · have htaken : (if (w.mem (slot t (n + 1) va)).present = true then w.taken
        else (supply w.taken).toList ++ w.taken) = w.taken := by
      split
      · rfl
      · rename_i habsent
        rw [hnone (by rw [← hp]; exact Bool.not_eq_true _ ▸ habsent)]
        rfl
    rw [htaken]
    refine ⟨.refl h, fun hok => ?_⟩
    exact ⟨_, ht.next ⟨hp.trans hok, h.small va hva (n + 1) t ht (by omega) (hp.trans hok)⟩⟩
  · rw [hlink.absent, if_neg Bool.false_ne_true, hp]
    exact ⟨⟨h.linked hva hp hlink, fun a k u ha hr => (hlink.reach_iff h.tree (outside_task ha)).mpr (.inl hr)⟩,
      fun _ => ⟨_, (hlink.reach_iff h.tree (outside_task hva)).mpr (.inr ⟨rfl, rfl, fun _ _ _ => rfl⟩)⟩⟩

theorem ensureTables_stepped {privilege : AccessPrivilege} {ok : Bool} {w' : World}
    (h : Space supply m₀ root maxPhyAddr cr3 first w) (hva : index 3 va = 511)
    (hrun : ensureTables supply w root maxPhyAddr va privilege = some (ok, w')) :
    Stepped supply m₀ root maxPhyAddr cr3 first w w' ∧ (ok = true → ∃ u, Reach w'.mem va 3 cr3.toNat 0 u) := by
  unfold ensureTables at hrun
  simp only [Option.bind_eq_bind, Option.bind_eq_some_iff] at hrun
  obtain ⟨⟨ok₃, w₃⟩, hrun₃, hrun⟩ := hrun
  obtain ⟨hs₃, hr₃⟩ := ensureTable_stepped (n := 2) h hva (.here _ _) pointersAt_pdpt (setPML4EInfo_link _)
    hrun₃
  cases ok₃ with
  | false =>
    cases hrun
    exact ⟨hs₃, fun hok => by cases hok⟩
  | true =>
    obtain ⟨t₂, ht₂⟩ := hr₃ rfl
    simp only [Bool.not_true, Bool.false_eq_true, if_false, Option.bind_eq_some_iff] at hrun
    obtain ⟨⟨ok₂, w₂⟩, hrun₂, hrun⟩ := hrun
    obtain ⟨hs₂, hr₂⟩ := ensureTable_stepped hs₃.space hva ht₂ pointersAt_pd (setPDPTEInfo_link _) hrun₂
    cases ok₂ with
    | false =>
      cases hrun
      exact ⟨hs₃.trans hs₂, fun hok => by cases hok⟩
    | true =>
      obtain ⟨t₁, ht₁⟩ := hr₂ rfl
      simp only [Bool.not_true, Bool.false_eq_true, if_false] at hrun
      obtain ⟨hs₁, hr₁⟩ := ensureTable_stepped hs₂.space hva ht₁ pointersAt_pt (setPDEInfo_link _) hrun
      exact ⟨(hs₃.trans hs₂).trans hs₁, hr₁⟩

/-- The entry of a page that has its tables. -/
theorem writeEntry_stepped {e : Entry} (h : Space supply m₀ root maxPhyAddr cr3 first w) (hva : index 3 va = 511)
    (ht : Reach w.mem va 3 cr3.toNat 0 t)
    (hrun : writeVirtual w.mem root (getPTEAddress (parseVirtualAddress va) false) e = some m') :
    Stepped supply m₀ root maxPhyAddr cr3 first w { w with mem := m' } := by
  unfold writeVirtual at hrun
  rw [ptePointer h.skeleton.window ht, Option.map_some, Option.some.injEq] at hrun
  subst hrun
  have hbut : SameBut w.mem (update w.mem (slot t 0 va) e) (slot t 0 va) fun _ => False := fun q hq _ => if_neg hq
  obtain ⟨hs, hreach⟩ := h.leaf hva ht hbut
  exact ⟨hs, fun a k u ha hr => (hreach a k u ha).mpr hr⟩

theorem mapPage_stepped {physicalAddress : Entry} {privilege : AccessPrivilege} {ok : Bool} {w' : World}
    (h : Space supply m₀ root maxPhyAddr cr3 first w) (hva : index 3 va = 511)
    (hrun : mapPage supply w root maxPhyAddr physicalAddress va privilege = some (ok, w')) :
    Stepped supply m₀ root maxPhyAddr cr3 first w w' := by
  unfold mapPage at hrun
  split at hrun
  · cases hrun
    exact .refl h
  · simp only [Option.bind_eq_bind, Option.bind_eq_some_iff] at hrun
    obtain ⟨⟨ok₁, w₁⟩, hrun₁, hrun⟩ := hrun
    obtain ⟨hs₁, hr₁⟩ := ensureTables_stepped h hva hrun₁
    cases ok₁ with
    | false =>
      cases hrun
      exact hs₁
    | true =>
      obtain ⟨t₀, ht₀⟩ := hr₁ rfl
      simp only [Bool.not_true, Bool.false_eq_true, if_false, Option.bind_eq_some_iff] at hrun
      obtain ⟨m₁, hwrite₁, m₂, hwrite₂, hrun⟩ := hrun
      cases hrun
      have hs₂ := writeEntry_stepped hs₁.space hva ht₀ hwrite₁
      have hs₃ := writeEntry_stepped hs₂.space hva (hs₂.reach _ _ _ hva ht₀) hwrite₂
      exact (hs₁.trans hs₂).trans hs₃

/-- The pages from `address` on; the first one has its tables afterwards. -/
theorem mapOnDemand_stepped {privilege : AccessPrivilege} (k : Nat) : ∀ (address : Nat) (w w' : World) (ok : Bool),
    Space supply m₀ root maxPhyAddr cr3 first w → (∀ j, j < k → index 3 (address + j * frameSize) = 511) →
    mapOnDemand supply root maxPhyAddr privilege k address w = some (ok, w') →
    Stepped supply m₀ root maxPhyAddr cr3 first w w' ∧
      (ok = true → 0 < k → ∃ u, Reach w'.mem address 3 cr3.toNat 0 u) := by
  induction k with
  | zero =>
    intro address w w' ok h _ hrun
    cases hrun
    exact ⟨.refl h, fun _ hk => absurd hk (Nat.lt_irrefl 0)⟩
  | succ k ih =>
    intro address w w' ok h hin hrun
    have hva : index 3 address = 511 := by
      have hfirst := hin 0 (by omega)
      rwa [Nat.zero_mul, Nat.add_zero] at hfirst
    rw [mapOnDemand] at hrun
    simp only [Option.bind_eq_bind, Option.bind_eq_some_iff] at hrun
    obtain ⟨⟨ok₁, w₁⟩, hrun₁, hrun⟩ := hrun
    obtain ⟨hs₁, hr₁⟩ := ensureTables_stepped h hva hrun₁
    cases ok₁ with
    | false =>
      cases hrun
      exact ⟨hs₁, fun hok => by cases hok⟩
    | true =>
      obtain ⟨t₀, ht₀⟩ := hr₁ rfl
      simp only [Bool.not_true, Bool.false_eq_true, if_false, Option.bind_eq_some_iff] at hrun
      obtain ⟨m₁, hwrite, hrun⟩ := hrun
      have hs₂ := writeEntry_stepped hs₁.space hva ht₀ hwrite
      obtain ⟨hs₃, -⟩ := ih (address + frameSize) _ w' ok hs₂.space (fun j hj => by
        have hnext := hin (j + 1) (by omega)
        rwa [show address + (j + 1) * frameSize = address + frameSize + j * frameSize by
          rw [Nat.add_mul]
          omega] at hnext) hrun
      exact ⟨(hs₁.trans hs₂).trans hs₃, fun _ _ => ⟨t₀, hs₃.reach _ _ _ hva (hs₂.reach _ _ _ hva ht₀)⟩⟩

end

end BadLands.Mm.AddressSpace
