import BadLands.Mm.AddressSpaceCreate

/-!
# What a failed call gives back

`rolledBack_iff`: a call of `DeriveNewFreshCR3` that fails gives back exactly what it took iff it fails before the new
space is set up and the scan of the general window has added no table. After that, every exit goes through
`FreeSecondaryRecursiveMapping`, which faults or frees frames of the current space.
-/
namespace BadLands.Mm.AddressSpace

open BadLands.Core BadLands.Core.PageTable BadLands.Mm.Layout BadLands.Mm.Paging

/-- The call returns null, each frame that it took has been given back once and nothing else, and the pages of the
window that were not mapped are not mapped. -/
def RolledBack (supply : Supply) (answer : Answers) (m : PhysMem) (root maxPhyAddr : Nat) : Prop :=
  ∃ w', deriveNewFreshCR3 supply answer ⟨m, [], []⟩ root maxPhyAddr = some (none, w') ∧
    w'.freed.Perm (w'.taken.map fun p => .free p.toNat) ∧
    ∀ i, i < gpPages → Unmapped m root i → Unmapped w'.mem root i

/-- There is no frame for the root; or no page of the window is left; or there is no frame after that one; or the first
page that is left has its tables, and there is one frame more but not two. -/
def EarlyExit (supply : Supply) (m : PhysMem) (root : Nat) : Prop :=
  supply [] = none ∨ ∃ cr3, supply [] = some cr3 ∧ (WindowFull m root ∨ supply [cr3] = none ∨
    (∃ i, FirstUnmapped m root i ∧ HasTables m root i) ∧
      ∃ first, supply [cr3] = some first ∧ supply [first, cr3] = none)

section
variable {supply : Supply} {answer : Answers} {m m₀ : PhysMem} {root maxPhyAddr : Nat} {cr3 first : Entry}
  {w w' z : World} {new : List Entry}

theorem exists_firstUnmapped (h : ¬ WindowFull m root) : ∃ i, FirstUnmapped m root i := by
  have hscan : ∀ n, n ≤ gpPages → (∀ j, j < n → ¬ Unmapped m root j) ∨ ∃ i, FirstUnmapped m root i := by
    intro n
    induction n with
    | zero => exact fun _ => .inl fun j hj => absurd hj (Nat.not_lt_zero j)
    | succ n ih =>
      intro hn
      rcases ih (by omega) with hbefore | hfound
      · by_cases hun : Unmapped m root n
        · exact .inr ⟨n, hn, hun, hbefore⟩
        · refine .inl fun j hj => ?_
          rcases Nat.lt_succ_iff_lt_or_eq.mp hj with hlt | rfl
          · exact hbefore j hlt
          · exact hun
      · exact .inr hfound
  exact (hscan gpPages (Nat.le_refl _)).resolve_left h

theorem FirstUnmapped.unique {i j : Nat} (h : FirstUnmapped m root i) (h' : FirstUnmapped m root j) : i = j := by
  rcases Nat.lt_trichotomy i j with hlt | heq | hlt
  · exact absurd h.unmapped (h'.before i hlt)
  · exact heq
  · exact absurd h'.unmapped (h.before j hlt)

/-! ## After the space has been set up -/

/-- A frame was freed that the call has not taken. -/
structure Lost (supply : Supply) (w : World) : Prop where
  supplied : ∀ p ∈ w.taken, ∃ s, supply s = some p
  foreign : ∃ c ∈ w.freed, Foreign supply c

theorem Lost.not_perm (h : Lost supply w) : ¬ w.freed.Perm (w.taken.map fun p => .free p.toNat) := by
  intro hperm
  obtain ⟨c, hc, hforeign⟩ := h.foreign
  obtain ⟨p, hp, rfl⟩ := List.mem_map.mp (hperm.subset hc)
  obtain ⟨s, hs⟩ := h.supplied p hp
  exact hforeign s p hs rfl

theorem freeSecondary_lost (hs : SupplyReady supply m₀ root maxPhyAddr)
    (h : Skeleton m₀ w.mem root cr3.toNat first.toNat) (hsupplied : ∀ p ∈ w.taken, ∃ s, supply s = some p)
    (hrun : freeSecondary answer w root = some w') : Lost supply w' := by
  unfold freeSecondary at hrun
  rw [Option.map_eq_some_iff] at hrun
  obtain ⟨⟨calls, m'⟩, hfree, rfl⟩ := hrun
  obtain ⟨c, hc, hforeign⟩ := freeSecondary_foreign hs h hfree
  exact ⟨hsupplied, c, List.mem_append_right _ hc, hforeign⟩

/-- One more frame that no table is made of yet. -/
theorem Space.take (h : Space supply m₀ root maxPhyAddr cr3 first w) {p : Entry} (hp : supply w.taken = some p) :
    Space supply m₀ root maxPhyAddr cr3 first (w.take p) where
  scan := h.scan.undisturbed ⟨fun _ _ _ _ _ => rfl, rfl⟩ fun _ hq => List.mem_cons_of_mem p hq
  skeleton := h.skeleton
  before := h.before
  supplied q hq := by
    rcases List.mem_cons.mp hq with rfl | hq
    · exact ⟨_, hp⟩
    · exact h.supplied q hq
  newRoot := ⟨List.mem_cons_of_mem p h.newRoot.1, h.newRoot.2⟩
  newFirst := ⟨List.mem_cons_of_mem p h.newFirst.1, h.newFirst.2⟩
  apart := h.apart
  tree := h.tree
  small := h.small
  own a n t ha hr hn := by
    obtain ⟨q, hq, hrest⟩ := h.own a n t ha hr hn
    exact ⟨q, List.mem_cons_of_mem p hq, hrest⟩

theorem Skeleton.reach_low {cr3 first a k u : Nat} (h : Skeleton m₀ m root cr3 first) (ha : a < 2 ^ 39)
    (hr : Reach m₀ a 3 root k u) : Reach m a 3 root k u :=
  (reach_congr fun j v hv _ => h.low a j v ha hv).mpr hr

/-- The scan of the window keeps what the teardown reads. -/
theorem Space.scanned (h : Space supply m₀ root maxPhyAddr cr3 first w) (ha : Added supply root w z new) :
    Skeleton m₀ z.mem root cr3.toNat first.toNat := by
  have hnot : ∀ p ∈ w.taken, p ∉ new := fun p hp hmem => (ha.supplied p hmem).1 hp
  have hfresh : ∀ p, p ∈ w.taken → Fresh w.mem root windows p.toNat → Fresh z.mem root windows p.toNat :=
    fun p hp hf => ha.grown.fresh _ hf fun q hq he => hnot p hp (BitVec.eq_of_toNat_eq he ▸ hq)
  have hroot := hfresh cr3 h.newRoot.1 h.newRoot.2
  have hfirst := hfresh first h.newFirst.1 h.newFirst.2
  have htree := ha.grown.tables.tree
  refine h.skeleton.kept fun q hq => ha.confined q (fun p hp => ?_) fun a k u hidx hr he => ?_
  · obtain ⟨hp', s, hs⟩ := ha.supplied p hp
    refine h.guarded_beside hs ?_ ?_ ((h.scan.next s p hs hp').2.unused 0 3 root outside_zero (.here _ _)).symm hq
    · rintro rfl
      exact hp' h.newRoot.1
    · rintro rfl
      exact hp' h.newFirst.1
  · have hout := outside_general hidx
    have hu := hr.aligned htree.aligned
    have hi := index_lt k a
    have hra := htree.aligned
    cases hq with
    | window =>
      obtain ⟨rfl, h509⟩ : u = root ∧ index k a = 509 := by
        unfold slot at he
        omega
      obtain ⟨rfl, -⟩ := htree.once a a k 3 u hout hout hr (.here _ _)
      omega
    | root i hlt =>
      have hca := hroot.aligned
      have hne := hroot.unused a k u hout hr
      unfold slot at he
      omega
    | dma i hlt =>
      have hfa := hfirst.aligned
      have hne := hfirst.unused a k u hout hr
      unfold slot at he
      omega
    | low a' k' u' hlow hr' =>
      exact low_apart htree hlow hidx
        (ha.grown.reach a' k' u' (outside_low (by omega)) (h.skeleton.reach_low hlow hr')) hr he

theorem fillUserContext_lost {basePage : Entry} (hs : SupplyReady supply m₀ root maxPhyAddr)
    (h : Space supply m₀ root maxPhyAddr cr3 first w)
    (hrun : fillUserContext supply answer w root maxPhyAddr cr3 basePage = some (none, w')) : Lost supply w' := by
  unfold fillUserContext at hrun
  by_cases hfull : WindowFull w.mem root
  · simp only [Option.bind_eq_bind, mapGeneralPages_full h.scan hfull basePage (entryPresent ||| entryReadWrite)
      (show 1 ≠ 0 by decide), Option.bind_some, Option.bind_eq_some_iff] at hrun
    obtain ⟨w₁, hfree, hrun⟩ := hrun
    cases hrun
    exact freeSecondary_lost hs h.skeleton h.supplied hfree
  · obtain ⟨i, hi⟩ := exists_firstUnmapped hfull
    obtain ⟨ok, z, new, ha, -, -, hfail, hfound⟩ := mapGeneralPages_first h.scan hi basePage
      (entryPresent ||| entryReadWrite)
    cases ok with
    | false =>
      simp only [Option.bind_eq_bind, hfail rfl, Option.bind_some, Option.bind_eq_some_iff] at hrun
      obtain ⟨w₁, hfree, hrun⟩ := hrun
      cases hrun
      refine freeSecondary_lost hs (h.scanned ha) (fun p hp => ?_) hfree
      rw [ha.taken, List.mem_append] at hp
      rcases hp with hp | hp
      · exact (ha.supplied p hp).2
      · exact h.supplied p hp
    | true =>
      -- the page is mapped, so the call does not fail
      obtain ⟨t, -, hmap⟩ := hfound rfl
      simp only [Option.bind_eq_bind, hmap, Option.bind_some, Option.bind_eq_some_iff] at hrun
      obtain ⟨m₁, -, r, -, hrun⟩ := hrun
      cases hrun

theorem addUserContext_lost (hs : SupplyReady supply m₀ root maxPhyAddr)
    (h : Space supply m₀ root maxPhyAddr cr3 first w)
    (hrun : addUserContext supply answer w root maxPhyAddr cr3 = some (none, w')) : Lost supply w' := by
  unfold addUserContext at hrun
  split at hrun
  · rw [Option.map_eq_some_iff] at hrun
    obtain ⟨w₁, hfree, hrun⟩ := hrun
    cases hrun
    exact freeSecondary_lost hs h.skeleton h.supplied hfree
  · rename_i basePage hp
    simp only [Option.bind_eq_bind, Option.bind_eq_some_iff] at hrun
    obtain ⟨⟨ok, w₁⟩, hmap, hrun⟩ := hrun
    have hspace := (mapPage_stepped (h.take hp) (by decide) hmap).space
    cases ok with
    | false =>
      simp only [Bool.not_false, if_true, Option.bind_eq_some_iff] at hrun
      obtain ⟨w₂, hfree, hrun⟩ := hrun
      cases hrun
      exact freeSecondary_lost (w := w₁.free basePage) hs hspace.skeleton hspace.supplied hfree
    | true =>
      simp only [Bool.not_true, Bool.false_eq_true, if_false] at hrun
      exact fillUserContext_lost hs hspace hrun

theorem addStackPages_lost (hs : SupplyReady supply m₀ root maxPhyAddr)
    (h : Space supply m₀ root maxPhyAddr cr3 first w)
    (hrun : addStackPages supply answer w root maxPhyAddr cr3 = some (none, w')) : Lost supply w' := by
  unfold addStackPages at hrun
  split at hrun
  · rw [Option.map_eq_some_iff] at hrun
    obtain ⟨w₁, hfree, hrun⟩ := hrun
    cases hrun
    exact freeSecondary_lost hs h.skeleton h.supplied hfree
  · rename_i stackTop hp
    have htop := h.take hp
    dsimp only at hrun
    split at hrun
    · rw [Option.map_eq_some_iff] at hrun
      obtain ⟨w₁, hfree, hrun⟩ := hrun
      cases hrun
      exact freeSecondary_lost (w := (w.take stackTop).free stackTop) hs htop.skeleton htop.supplied hfree
    · rename_i stackReserve hp'
      simp only [Option.bind_eq_bind, Option.bind_eq_some_iff] at hrun
      obtain ⟨⟨ok₁, w₁⟩, hmap₁, hrun⟩ := hrun
      have hs₁ := (mapPage_stepped (htop.take hp') (by decide) hmap₁).space
      cases ok₁ with
      | false =>
        simp only [Bool.not_false, if_true, Option.bind_eq_some_iff] at hrun
        obtain ⟨w₂, hfree, hrun⟩ := hrun
        cases hrun
        exact freeSecondary_lost (w := (w₁.free stackReserve).free stackTop) hs hs₁.skeleton hs₁.supplied hfree
      | true =>
        simp only [Bool.not_true, Bool.false_eq_true, if_false, Option.bind_eq_some_iff] at hrun
        obtain ⟨⟨ok₂, w₂⟩, hmap₂, hrun⟩ := hrun
        have hs₂ := (mapPage_stepped hs₁ (by decide) hmap₂).space
        cases ok₂ with
        | false =>
          simp only [Bool.not_false, if_true, Option.bind_eq_some_iff] at hrun
          obtain ⟨w₃, hfree, hrun⟩ := hrun
          cases hrun
          exact freeSecondary_lost (w := w₂.free stackReserve) hs hs₂.skeleton hs₂.supplied hfree
        | true =>
          simp only [Bool.not_true, Bool.false_eq_true, if_false] at hrun
          exact addUserContext_lost hs hs₂ hrun

/-- The pages of the kernel stack are pages of the task memory. -/
theorem kernelStack_index {j : Nat} (hj : j < (kernelStack.limit - Layout.pageSize) / Layout.pageSize) :
    index 3 (kernelStack.start + j * frameSize) = 511 := by
  have hlimit : (kernelStack.limit - Layout.pageSize) / Layout.pageSize = 253 := by decide
  have hstart : kernelStack.start = 0xFFFFFF8000001000 := by decide
  rw [hlimit] at hj
  rw [hstart, show frameSize = 4096 from rfl]
  unfold index
  simp only [Nat.reduceMul, Nat.reduceAdd, Nat.reducePow]
  omega

theorem setUpTask_lost (hs : SupplyReady supply m₀ root maxPhyAddr)
    (h : Space supply m₀ root maxPhyAddr cr3 first w)
    (hrun : setUpTask supply answer w root maxPhyAddr cr3 = some (none, w')) : Lost supply w' := by
  unfold setUpTask at hrun
  simp only [Option.bind_eq_bind, Option.bind_eq_some_iff] at hrun
  obtain ⟨⟨ok, w₁⟩, hmap, hrun⟩ := hrun
  obtain ⟨hstep, hreach⟩ := mapOnDemand_stepped _ _ _ _ _ h (fun j hj => kernelStack_index hj) hmap
  cases ok with
  | false =>
    simp only [Bool.not_false, if_true, Option.bind_eq_some_iff] at hrun
    obtain ⟨w₂, hfree, hrun⟩ := hrun
    cases hrun
    exact freeSecondary_lost hs hstep.space.skeleton hstep.space.supplied hfree
  | true =>
    simp only [Bool.not_true, Bool.false_eq_true, if_false, Option.bind_eq_some_iff] at hrun
    obtain ⟨m₁, hwrite, hrun⟩ := hrun
    -- the guard page is in the page table of the first page of the stack
    obtain ⟨u, hu⟩ := hreach rfl (by decide)
    have hguard : Reach w₁.mem kernelStackGuard.start 3 cr3.toNat 0 u := by
      refine SamePath.reach (fun k h1 h3 => ?_) (Nat.le_refl 3) hu
      obtain rfl | rfl | rfl : k = 1 ∨ k = 2 ∨ k = 3 := by omega
      · decide
      · decide
      · decide
    exact addStackPages_lost hs (writeEntry_stepped hstep.space (by decide) hguard hwrite).space hrun

/-! ## Before -/

/-- The call goes through `CreateSecondaryRecursiveMapping`. -/
theorem derive_created (answer : Answers) {ok : Bool} (hcr3 : supply [] = some cr3)
    (hrun : createSecondaryRecursiveMapping supply ⟨m, [cr3], []⟩ root maxPhyAddr cr3 = some (ok, w)) :
    deriveNewFreshCR3 supply answer ⟨m, [], []⟩ root maxPhyAddr =
      if ok then setUpTask supply answer w root maxPhyAddr cr3 else some (none, w.free cr3) := by
  unfold deriveNewFreshCR3
  simp only [hcr3, World.take, Option.bind_eq_bind, hrun, Option.bind_some]
  cases ok with
  | true => rfl
  | false => rfl

/-- The frames of an exit at which the scan has added no table. -/
theorem Added.nothing (ha : Added supply root w z new) (hnil : new = []) :
    z.taken = w.taken ∧ z.freed = w.freed := by
  refine ⟨?_, ha.freed⟩
  rw [ha.taken, hnil, List.nil_append]

theorem rolledBack_of_earlyExit (hs : SupplyReady supply m root maxPhyAddr) (h : EarlyExit supply m root) :
    RolledBack supply answer m root maxPhyAddr := by
  rcases h with hnone | ⟨cr3, hcr3, hcase⟩
  · refine ⟨⟨m, [], []⟩, ?_, .refl _, fun _ _ hun => hun⟩
    unfold deriveNewFreshCR3
    simp only [hnone]
  · by_cases hfull : WindowFull m root
    · exact ⟨_, derive_created answer hcr3 (create_full hs hfull [cr3] []), .refl _, fun _ _ hun => hun⟩
    · replace hcase := hcase.resolve_left hfull
      obtain ⟨i, hi⟩ := exists_firstUnmapped hfull
      obtain ⟨ok, w, hrun, hcreated, hun⟩ := create_cases hs hcr3 hi
      have hderive := derive_created answer hcr3 hrun
      have hhas : (∃ j, FirstUnmapped m root j ∧ HasTables m root j) → HasTables m root i := by
        rintro ⟨j, hj, hhas⟩
        rw [hi.unique hj]
        exact hhas
      -- whatever ends the call, the scan has added no table
      have hnil : ∀ {z new}, Scanned supply root i ⟨m, [cr3], []⟩ z new → new = [] := by
        intro z new hscanned
        rw [hscanned.nil]
        rcases hcase with hnone | ⟨hex, -⟩
        · exact hscanned.granted.resolve_right fun hsome => hsome hnone
        · exact hhas hex
      cases hcreated with
      | refused _ new ha hno hiff =>
        have hnone : supply [cr3] = none := hcase.resolve_right fun hex => hno (hhas hex.1)
        obtain ⟨htaken, hfreed⟩ := ha.nothing (hiff.mpr hnone)
        refine ⟨w.free cr3, hderive, ?_, hun rfl⟩
        change (w.freed ++ [_]).Perm (w.taken.map _)
        rw [htaken, hfreed]
        exact .refl _
      | unshared z new m' hscanned hnone =>
        obtain ⟨htaken, hfreed⟩ := hscanned.added.nothing (hnil hscanned)
        refine ⟨_, hderive, ?_, hun rfl⟩
        change (z.freed ++ [_]).Perm (z.taken.map _)
        rw [htaken, hfreed]
        exact .refl _
      | halfShared z new m' p hscanned hp hnone =>
        obtain ⟨htaken, hfreed⟩ := hscanned.added.nothing (hnil hscanned)
        refine ⟨_, hderive, ?_, hun rfl⟩
        change ((z.freed ++ [_]) ++ [_]).Perm ((p :: z.taken).map _)
        rw [htaken, hfreed]
        exact .refl _
      | done z new m' p s hscanned hp hsecond hspace =>
        exfalso
        have htaken := (hscanned.added.nothing (hnil hscanned)).1
        rw [htaken] at hp hsecond
        rcases hcase with hnone | ⟨-, first, hfirst, hnone⟩
        · rw [hnone] at hp
          cases hp
        · rw [hfirst, Option.some.injEq] at hp
          subst hp
          rw [hnone] at hsecond
          cases hsecond

theorem earlyExit_of_rolledBack (hs : SupplyReady supply m root maxPhyAddr)
    (h : RolledBack supply answer m root maxPhyAddr) : EarlyExit supply m root := by
  obtain ⟨w', hderive, hperm, -⟩ := h
  cases hcr3 : supply [] with
  | none => exact .inl hcr3
  | some cr3 =>
    refine .inr ⟨cr3, hcr3, ?_⟩
    by_cases hfull : WindowFull m root
    · exact .inl hfull
    · right
      obtain ⟨i, hi⟩ := exists_firstUnmapped hfull
      obtain ⟨ok, w, hrun, hcreated, -⟩ := create_cases hs hcr3 hi
      rw [derive_created answer hcr3 hrun] at hderive
      have hlength := hperm.length_eq
      cases hcreated with
      | refused _ new ha hno hiff =>
        cases hderive
        left
        change (w.freed ++ [_]).length = (w.taken.map _).length at hlength
        rw [List.length_map, ha.taken, ha.freed, List.length_append, List.length_append] at hlength
        exact hiff.mp (List.eq_nil_of_length_eq_zero (by simpa using hlength))
      | unshared z new m' hscanned hnone =>
        cases hderive
        left
        change (z.freed ++ [_]).length = (z.taken.map _).length at hlength
        rw [List.length_map, hscanned.added.taken, hscanned.added.freed, List.length_append, List.length_append]
          at hlength
        have hnil : new = [] := List.eq_nil_of_length_eq_zero (by simpa using hlength)
        rwa [(hscanned.added.nothing hnil).1] at hnone
      | halfShared z new m' p hscanned hp hnone =>
        cases hderive
        right
        change ((z.freed ++ [_]) ++ [_]).length = ((p :: z.taken).map _).length at hlength
        rw [List.length_map, List.length_cons, hscanned.added.taken, hscanned.added.freed, List.length_append,
          List.length_append, List.length_append] at hlength
        have hnil : new = [] := List.eq_nil_of_length_eq_zero (by simpa using hlength)
        rw [(hscanned.added.nothing hnil).1] at hp hnone
        exact ⟨⟨i, hi, hscanned.nil.mp hnil⟩, p, hp, hnone⟩
      | done z new m' p s hscanned hp hsecond hspace =>
        exact absurd hperm (setUpTask_lost hs hspace hderive).not_perm

end

/-- For every space and every sequence of outcomes of the allocations: a failed call gives back exactly the frames that
it took, each once, and leaves no page of the window mapped, iff it ends before the new space is set up and the scan of
the window has added no table. -/
theorem rolledBack_iff (supply : Supply) (answer : Answers) (m : PhysMem) (root maxPhyAddr : Nat)
    (hs : SupplyReady supply m root maxPhyAddr) :
    RolledBack supply answer m root maxPhyAddr ↔ EarlyExit supply m root :=
  ⟨earlyExit_of_rolledBack hs, rolledBack_of_earlyExit hs⟩

/-! ## Two frames -/

/-- `generalRoot`, with or without the page table of the window's first pages. -/
def windowRoot (pt : Bool) : PhysMem := fun p => if p = 0x3000 + 8 * 384 ∧ pt = false then 0#64 else generalRoot p

/-- Two frames behind the DMA zone, and no more. -/
def twoFrames : Supply := fun taken =>
  if taken = [] then some 0x1000000#64 else if taken = [0x1000000#64] then some 0x1001000#64 else none

section
variable {pt : Bool} {a n t p : Nat}

theorem windowRoot_present (h : (windowRoot pt p).present = true) : windowRoot pt p = generalRoot p := by
  unfold windowRoot at h ⊢
  split
  · rename_i hp
    rw [if_pos hp] at h
    cases h
  · rfl

theorem reach_windowRoot {n₀ t₀ : Nat} (h : Reach (windowRoot pt) a n₀ t₀ n t) : Reach generalRoot a n₀ t₀ n t := by
  induction h with
  | here => exact .here _ _
  | down hl _ ih =>
    have hsame := windowRoot_present hl.1
    rw [hsame] at hl ih
    exact .down hl ih

theorem tables_windowRoot : Tables (windowRoot pt) 0x1000 where
  tree := ⟨by decide, fun a a' n n' t ha ha' hr hr' =>
    tables_generalRoot.tree.once a a' n n' t ha ha' (reach_windowRoot hr) (reach_windowRoot hr')⟩
  window := by cases pt <;> decide

theorem fresh_windowRoot (ha : p % 4096 = 0) (hp : 0xA000 ≤ p) : Fresh (windowRoot pt) 0x1000 windows p :=
  ⟨ha, fun a n t hout hr => (fresh_generalRoot ha (.inr hp)).unused a n t hout (reach_windowRoot hr)⟩

theorem twoFrames_eq {s : List Entry} {e : Entry} (h : twoFrames s = some e) :
    (e = 0x1000000#64 ∧ s = []) ∨ (e = 0x1001000#64 ∧ s = [0x1000000#64]) := by
  unfold twoFrames at h
  split at h
  · rename_i hs
    exact .inl ⟨(Option.some.inj h).symm, hs⟩
  · split at h
    · rename_i hs
      exact .inr ⟨(Option.some.inj h).symm, hs⟩
    · cases h

/-- The lower half maps the DMA zone and nothing else. -/
theorem low_windowRoot {x : Nat} (ha : a < 2 ^ 39) (h : translation (windowRoot pt) 0x1000 a = some x) :
    x < 2 ^ 24 := by
  obtain ⟨h3, -⟩ := index_low ha
  have hsame : ∀ q, q ≠ 0x3000 + 8 * 384 → windowRoot pt q = generalRoot q := fun q hq => if_neg fun hp => hq hp.1
  have hzero : ∀ t n, t ≠ 0x3000 → t % 4096 = 0 → (generalRoot (t + 8 * index n a)).present = false →
      (windowRoot pt (slot t n a)).present = false := fun t n ht hround hp => by
    have hi := index_lt n a
    rwa [hsame _ (by unfold slot; omega)]
  have h₂ : PointsTo (windowRoot pt (0x1000 + 8 * 0)) 0x8000 := by
    rw [hsame _ (by decide)]
    decide
  unfold translation at h
  rw [if_pos (.inl (by omega)), walk_pointsTo h3 h₂] at h
  by_cases hi₂ : index 2 a = 0
  · have h₁ : PointsTo (windowRoot pt (0x8000 + 8 * 0)) 0x9000 := by
      rw [hsame _ (by decide)]
      decide
    rw [walk_pointsTo hi₂ h₁] at h
    by_cases hi₁ : index 1 a < 8
    · have hentry : ∀ j, j < 8 → (generalRoot (0x9000 + 8 * j)).present = true ∧
          (generalRoot (0x9000 + 8 * j)).large = true ∧
          (generalRoot (0x9000 + 8 * j)).largeFrame 1 = j * 0x200000 := by decide
      obtain ⟨hp, hl, hframe⟩ := hentry _ hi₁
      have hslot : windowRoot pt (slot 0x9000 1 a) = generalRoot (0x9000 + 8 * index 1 a) := by
        rw [hsame _ (by unfold slot; omega)]
        rfl
      rw [walk] at h
      simp only [hslot, hp, hl, hframe, Bool.not_true, Bool.false_eq_true, if_false, if_true] at h
      have hmod : a % 2 ^ (12 + 9 * (0 + 1)) < 2 ^ 21 := Nat.mod_lt _ (by decide)
      have hx := Option.some.inj h
      omega
    · have habsent : ∀ i ∈ List.range 512, ¬ i < 8 → (generalRoot (0x9000 + 8 * i)).present = false := by decide +kernel
      rw [walk_absent (hzero 0x9000 1 (by decide) (by decide) (habsent _ (List.mem_range.mpr (index_lt 1 a)) hi₁))] at h
      cases h
  · have habsent : ∀ i ∈ List.range 512, i ≠ 0 → (generalRoot (0x8000 + 8 * i)).present = false := by decide +kernel
    rw [walk_absent (hzero 0x8000 2 (by decide) (by decide) (habsent _ (List.mem_range.mpr (index_lt 2 a)) hi₂))] at h
    cases h

theorem supplyReady_windowRoot (pt : Bool) : SupplyReady twoFrames (windowRoot pt) 0x1000 48 where
  tables := tables_windowRoot
  kernel := by cases pt <;> decide
  small i hi n t hr h1 hp := by
    have hsame := windowRoot_present hp
    rw [hsame] at hp ⊢
    exact generalReady_generalRoot.small i hi n t (reach_windowRoot hr) h1 hp
  slot0 := by cases pt <;> decide
  dma := by cases pt <;> decide
  noGiant := by cases pt <;> decide
  frames s e he := by
    rcases twoFrames_eq he with ⟨rfl, -⟩ | ⟨rfl, -⟩
    · exact ⟨by decide, fresh_windowRoot (by decide) (by decide)⟩
    · exact ⟨by decide, fresh_windowRoot (by decide) (by decide)⟩
  unused s e he := by
    rcases twoFrames_eq he with ⟨rfl, rfl⟩ | ⟨rfl, rfl⟩
    · decide
    · decide
  unmapped s e a x he ha hx := by
    have hlow := low_windowRoot ha hx
    rcases twoFrames_eq he with ⟨rfl, -⟩ | ⟨rfl, -⟩
    · rw [show (0x1000000#64 : Entry).toNat = 0x1000000 by decide]
      omega
    · rw [show (0x1001000#64 : Entry).toNat = 0x1001000 by decide]
      omega

/-- The first page of the window is not mapped. -/
theorem firstUnmapped_windowRoot : FirstUnmapped (windowRoot pt) 0x1000 0 where
  lt := by
    rw [gpPages_eq]
    decide
  unmapped := by cases pt <;> decide
  before j hj := absurd hj (Nat.not_lt_zero j)

end

/-- With the page table there and two frames, the call gives both of them back. -/
theorem rolledBack_two_frames : RolledBack twoFrames (fun _ _ => true) (windowRoot true) 0x1000 48 := by
  refine (rolledBack_iff twoFrames (fun _ _ => true) (windowRoot true) 0x1000 48 (supplyReady_windowRoot true)).mpr
    (.inr ⟨0x1000000#64, rfl, .inr (.inr ⟨⟨0, firstUnmapped_windowRoot, 0x4000, ?_⟩,
      0x1001000#64, by decide, by decide⟩)⟩)
  have h2 : Reach (windowRoot true) (generalPage 0) 3 0x1000 2 0x2000 := .down (by decide) (.here _ _)
  have h1 : Reach (windowRoot true) (generalPage 0) 3 0x1000 1 0x3000 := h2.next (by decide)
  exact h1.next (by decide)

/-- Without the page table, the second frame becomes it. -/
theorem no_tables_windowRoot : ¬ HasTables (windowRoot false) 0x1000 0 := by
  rintro ⟨t, ht⟩
  obtain ⟨v, hv, hl, -⟩ := ht.linked (by decide)
  have hlt : 0 < gpPages := by
    rw [gpPages_eq]
    decide
  have hidx := generalPage_index hlt
  have hr := charted_generalRoot.reach (generalPage_outside hlt) (reach_windowRoot hv)
  obtain ⟨rfl, -⟩ : v = 0x3000 ∧ index 2 (generalPage 0) = 4 := by simpa [generalPaths, indices, List.range_succ, hidx] using hr
  revert hl
  decide

/-- The call returns null. The page table that the scan has added to the window keeps the second frame. -/
theorem window_table_lost : ¬ RolledBack twoFrames (fun _ _ => true) (windowRoot false) 0x1000 48 ∧
    ∃ w', deriveNewFreshCR3 twoFrames (fun _ _ => true) ⟨windowRoot false, [], []⟩ 0x1000 48 = some (none, w') ∧
      0x1001000#64 ∈ w'.taken ∧ w'.freed = [.free 0x1000000] := by
  have hcr3 : twoFrames [] = some 0x1000000#64 := rfl
  obtain ⟨ok, w, hrun, hcreated, -⟩ := create_cases (supplyReady_windowRoot false) hcr3 firstUnmapped_windowRoot
  have hderive := derive_created (fun _ _ => true) hcr3 hrun
  have hsecond : ∀ {z new}, Added twoFrames 0x1000 ⟨windowRoot false, [0x1000000#64], []⟩ z new → new ≠ [] →
      0x1001000#64 ∈ z.taken := by
    intro z new ha hne
    obtain ⟨p, hp⟩ := List.exists_mem_of_ne_nil new hne
    obtain ⟨hnot, s, hs⟩ := ha.supplied p hp
    rw [ha.taken]
    rcases twoFrames_eq hs with ⟨rfl, -⟩ | ⟨rfl, -⟩
    · exact absurd (List.mem_singleton_self _) hnot
    · exact List.mem_append_left _ hp
  have hnil : ∀ {z new}, Scanned twoFrames 0x1000 0 ⟨windowRoot false, [0x1000000#64], []⟩ z new → new ≠ [] :=
    fun hscanned hnil => no_tables_windowRoot (hscanned.nil.mp hnil)
  -- there is no third frame
  have hthird : ∀ {z new p}, Scanned twoFrames 0x1000 0 ⟨windowRoot false, [0x1000000#64], []⟩ z new →
      twoFrames z.taken ≠ some p := by
    intro z new p hscanned hp
    rw [hscanned.added.taken] at hp
    rcases twoFrames_eq hp with ⟨-, hs⟩ | ⟨-, hs⟩
    · simp at hs
    · exact hnil hscanned (by simpa using hs)
  have hlost : ∃ w', deriveNewFreshCR3 twoFrames (fun _ _ => true) ⟨windowRoot false, [], []⟩ 0x1000 48 =
      some (none, w') ∧ 0x1001000#64 ∈ w'.taken ∧ w'.freed = [.free 0x1000000] := by
    cases hcreated with
    | refused _ new ha hno hiff =>
      have hmem := hsecond ha fun hnew => by
        have hnone := hiff.mp hnew
        cases hnone
      refine ⟨_, hderive, hmem, ?_⟩
      change w.freed ++ [_] = _
      rw [ha.freed]
      rfl
    | unshared z new m' hscanned hnone =>
      have hmem := hsecond hscanned.added (hnil hscanned)
      refine ⟨_, hderive, hmem, ?_⟩
      change z.freed ++ [_] = _
      rw [hscanned.added.freed]
      rfl
    | halfShared z new m' p hscanned hp hnone => exact absurd hp (hthird hscanned)
    | done z new m' p s hscanned hp hs hspace => exact absurd hp (hthird hscanned)
  refine ⟨?_, hlost⟩
  rintro ⟨w₁, hderive₁, hperm, -⟩
  obtain ⟨w', hderive', hmem, hfreed⟩ := hlost
  rw [hderive'] at hderive₁
  obtain ⟨-, rfl⟩ := Prod.mk.inj (Option.some.inj hderive₁)
  have hback := hperm.symm.subset (List.mem_map_of_mem (f := fun p : Entry => FreeCall.free p.toNat) hmem)
  rw [hfreed, List.mem_singleton] at hback
  exact absurd hback (by decide)

end BadLands.Mm.AddressSpace
