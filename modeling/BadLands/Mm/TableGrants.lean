import BadLands.Mm.GeneralPages

/-!
# The tables a page needs

`MapPage` allocates a frame for each table of its page that is not there yet. It succeeds exactly if every one of
these frames is granted (`mapPage_granted`), and afterwards a table of another page is there if it was before or if
the two pages share it.
-/
namespace BadLands.Mm.Paging

open BadLands.Core BadLands.Core.PageTable BadLands.Mm.Layout

/-- Each table of the page at `va` is there or has a frame; `alloc n`: the outcome of the allocation for the table of
level `n`. -/
def Granted (m : PhysMem) (root va : Nat) (alloc : Nat → Option Entry) : Prop :=
  ∀ n, n < 3 → (∃ u, Reach m va 3 root n u) ∨ alloc n ≠ none

/-- The frames are no tables yet, and none is given out twice. -/
structure GoodAlloc (m : PhysMem) (root maxPhyAddr : Nat) (alloc : Nat → Option Entry) : Prop where
  good : ∀ n p, alloc n = some p → GoodPage m root maxPhyAddr p
  once : ∀ n k p, alloc n = some p → alloc k = some p → n = k

/-- What a call of `MapPage` leaves of the tables. -/
structure PageAdded (m m' : PhysMem) (root va : Nat) (alloc : Nat → Option Entry) (ok : Bool) : Prop where
  tables : Tables m' root
  noLarge : ∀ a, Outside windows a → NoLarge m root a → NoLarge m' root a
  fresh : ∀ g, Fresh m root windows g → (∀ n p, alloc n = some p → g ≠ p.toNat) → Fresh m' root windows g
  same : ∀ a, Outside windows a → (ok = true → a / 4096 ≠ va / 4096) → translation m' root a = translation m root a
  granted : ok = true ↔ Granted m root va alloc
  others : ok = true → ∀ a k, Outside windows a → k < 3 →
    ((∃ u, Reach m' a 3 root k u) ↔ (∃ u, Reach m a 3 root k u) ∨ SamePath (k + 1) a va)

section
variable {m m' : PhysMem} {root maxPhyAddr va : Nat} {alloc : Nat → Option Entry}

/-- A level that is not the one of the call. -/
theorem Ensured.still {n k a : Nat} {page : Option Entry} {ok : Bool} (h : Ensured m m' root va n page ok)
    (ha : Outside windows a) (hk : k ≠ n) : (∃ u, Reach m' a 3 root k u) ↔ ∃ u, Reach m a 3 root k u :=
  ⟨fun hu => ((h.others a k ha).mp hu).resolve_right fun hc => hk hc.2.1, fun hu => (h.others a k ha).mpr (.inl hu)⟩

/-- The level of a call that succeeds. -/
theorem Ensured.here {n a : Nat} {page : Option Entry} (h : Ensured m m' root va n page true)
    (ha : Outside windows a) :
    (∃ u, Reach m' a 3 root n u) ↔ (∃ u, Reach m a 3 root n u) ∨ SamePath (n + 1) a va := by
  rw [h.others a n ha]
  simp only [true_and]

/-- A call that ends without a frame for a table. -/
theorem pageAdded_refused (h : Grown m m' root fun p => ∃ n, alloc n = some p) (hno : ¬ Granted m root va alloc) :
    PageAdded m m' root va alloc false where
  tables := h.tables
  noLarge := h.noLarge
  fresh g hg hne := h.fresh g hg fun p ⟨n, hp⟩ => hne n p hp
  same a ha _ := h.same a ha
  granted := ⟨fun hok => absurd hok Bool.false_ne_true, fun hg => absurd hg hno⟩
  others hok := absurd hok Bool.false_ne_true

theorem leaf_noLarge {W : Windows} {t : Nat} (h : Tree m root W) (hva : Outside W va) (ht : Reach m va 3 root 0 t)
    (hbut : SameBut m m' (slot t 0 va) fun _ => False) {a : Nat} (ha : Outside W a) (hlarge : NoLarge m root a) :
    NoLarge m' root a := by
  intro k u hr hk hp
  rw [leaf_reach h hva ht hbut ha] at hr
  obtain ⟨rfl, -⟩ | he := h.reads (fun _ hf => hf.elim) ha hva ht hbut hr
  · omega
  · rw [he] at hp ⊢
    exact hlarge k u hr hk hp

/-- The page's entry is written. -/
theorem pageAdded_leaf {m₁ : PhysMem} {t : Nat} (hg : Grown m m₁ root fun p => ∃ n, alloc n = some p)
    (hva : Outside windows va) (hcan : Canonical va) (ht : Reach m₁ va 3 root 0 t)
    (hbut : SameBut m₁ m' (slot t 0 va) fun _ => False) (hgranted : Granted m root va alloc)
    (hothers : ∀ a k, Outside windows a → k < 3 →
      ((∃ u, Reach m₁ a 3 root k u) ↔ (∃ u, Reach m a 3 root k u) ∨ SamePath (k + 1) a va)) :
    PageAdded m m' root va alloc true where
  tables := leaf_tables hg.tables hva ht hbut
  noLarge a ha hl := leaf_noLarge hg.tables.tree hva ht hbut ha (hg.noLarge a ha hl)
  fresh g hf hne := by
    have hfresh := hg.fresh g hf fun p ⟨n, hp⟩ => hne n p hp
    exact ⟨hfresh.aligned, fun a n u ha hu =>
      hfresh.unused a n u ha ((leaf_reach hg.tables.tree hva ht hbut ha).mp hu)⟩
  same a ha hne := by
    rw [← hg.same a ha]
    by_cases hc : Canonical a
    · exact leaf_translate_other hg.tables.tree hva ht hbut ha fun hp => hne rfl (samePath_page hc hcan hp)
    · unfold translation
      rw [if_neg hc, if_neg hc]
  granted := ⟨fun _ => hgranted, fun _ => rfl⟩
  others _ a k ha hk := by
    simp only [leaf_reach hg.tables.tree hva ht hbut ha]
    exact hothers a k ha hk

theorem mapPage_unaligned {physicalAddress : Entry} {privilege : AccessPrivilege} {huge : Bool}
    {page3 page2 page1 : Option Entry} (h : ¬ (physicalAddress.toNat % 4096 = 0 ∧ va % 4096 = 0)) :
    mapPage m root maxPhyAddr physicalAddress va privilege huge page3 page2 page1 = some (false, m) := by
  unfold mapPage
  rw [if_pos (by rw [show frameSize = 4096 from rfl]; omega)]

/-- `MapPage` returns, and succeeds exactly if the frames are granted. -/
theorem mapPage_granted (physicalAddress : Entry) (privilege : AccessPrivilege) (h : Tables m root)
    (hphys : physicalAddress.toNat % 4096 = 0) (hvirt : va % 4096 = 0) (hcan : Canonical va)
    (hva : Outside windows va) (hlarge : NoLarge m root va) (ha : GoodAlloc m root maxPhyAddr alloc) :
    ∃ ok m', mapPage m root maxPhyAddr physicalAddress va privilege false (alloc 2) (alloc 1) (alloc 0) =
      some (ok, m') ∧ PageAdded m m' root va alloc ok := by
  have hpage : ∀ n, ∀ p, alloc n = some p → ∃ n, alloc n = some p := fun n p hp => ⟨n, hp⟩
  have hother : ∀ n k, n ≠ k → ∀ p, alloc n = some p → ∀ q, alloc k = some q → p ≠ q :=
    fun n k hnk p hp q hq he => hnk (ha.once n k p hp (he ▸ hq))
  obtain ⟨ok₃, m₃, hrun₃, he₃⟩ := ensureTable_ensured (n := 2) h hva hlarge (.here _ _) pointers_pdpt
    (setPML4EInfo_link (decide (privilege ≠ .high))) (ha.good 2)
  have hg₃ := he₃.grown
  unfold mapPage
  rw [if_neg (by rw [show frameSize = 4096 from rfl]; omega)]
  simp only [Option.bind_eq_bind, hrun₃, Option.bind_some]
  cases ok₃ with
  | false =>
    refine ⟨false, m₃, rfl, pageAdded_refused (hg₃.mono (hpage 2)) fun hgranted => ?_⟩
    cases he₃.granted.mpr (hgranted 2 (by decide))
  | true =>
    obtain ⟨t₂, ht₂⟩ := he₃.found rfl
    obtain ⟨ok₂, m₂, hrun₂, he₂⟩ := ensureTable_ensured (n := 1) hg₃.tables hva (hg₃.noLarge va hva hlarge) ht₂
      pointers_pd (setPDPTEInfo_link (decide (privilege ≠ .high)))
      fun p hp => hg₃.goodPage (ha.good 1 p hp) (hother 1 2 (by decide) p hp)
    have hg₂ := hg₃.trans he₂.grown (hpage 2) (hpage 1)
    have hthere₁ := he₃.still hva (show 1 ≠ 2 by decide)
    simp only [Bool.not_true, Bool.false_eq_true, if_false, hrun₂, Option.bind_some]
    cases ok₂ with
    | false =>
      refine ⟨false, m₂, rfl, pageAdded_refused hg₂ fun hgranted => ?_⟩
      cases he₂.granted.mpr ((hgranted 1 (by decide)).imp_left hthere₁.mpr)
    | true =>
      obtain ⟨t₁, ht₁⟩ := he₂.found rfl
      obtain ⟨ok₁, m₁, hrun₁, he₁⟩ := ensureTable_ensured (n := 0) hg₂.tables hva (hg₂.noLarge va hva hlarge) ht₁
        pointers_pt (setPDEInfo_link (decide (privilege ≠ .high)))
        fun p hp => he₂.grown.goodPage (hg₃.goodPage (ha.good 0 p hp) (hother 0 2 (by decide) p hp))
          (hother 0 1 (by decide) p hp)
      have hg₁ := hg₂.trans he₁.grown (fun _ hp => hp) (hpage 0)
      have hthere₀ := (he₂.still hva (show 0 ≠ 1 by decide)).trans (he₃.still hva (show 0 ≠ 2 by decide))
      simp only [Bool.not_true, Bool.false_eq_true, if_false, hrun₁, Option.bind_some]
      cases ok₁ with
      | false =>
        refine ⟨false, m₁, rfl, pageAdded_refused hg₁ fun hgranted => ?_⟩
        cases he₁.granted.mpr ((hgranted 0 (by decide)).imp_left hthere₀.mpr)
      | true =>
        obtain ⟨t₀, ht₀⟩ := he₁.found rfl
        have hwrite := write_leaf hg₁.tables hva ht₀ (rawEntry maxPhyAddr physicalAddress privilege 0#64)
          (setPTEInfo (linkInfo (decide (privilege = .low)) (filterAddress maxPhyAddr physicalAddress)))
        rw [Option.bind_eq_some_iff] at hwrite
        obtain ⟨m', hw₁, hw₂⟩ := hwrite
        have hgranted : Granted m root va alloc := by
          intro n hn
          obtain rfl | rfl | rfl : n = 2 ∨ n = 1 ∨ n = 0 := by omega
          · exact he₃.granted.mp rfl
          · exact (he₂.granted.mp rfl).imp_left hthere₁.mp
          · exact (he₁.granted.mp rfl).imp_left hthere₀.mp
        have hbut : SameBut m₁ (update (update m₁ (slot t₀ 0 va) (rawEntry maxPhyAddr physicalAddress privilege 0#64))
            (slot t₀ 0 va) (setPTEInfo (linkInfo (decide (privilege = .low)) (filterAddress maxPhyAddr physicalAddress))))
            (slot t₀ 0 va) fun _ => False := by
          intro q hq _
          rw [update, if_neg hq, update, if_neg hq]
        refine ⟨true, _, ?_, pageAdded_leaf hg₁ hva hcan ht₀ hbut hgranted fun a k hout hk => ?_⟩
        · simp only [Bool.not_true, Bool.false_eq_true, if_false, hw₁, Option.bind_some]
          exact congrArg (Option.bind · _) hw₂
        · obtain rfl | rfl | rfl : k = 2 ∨ k = 1 ∨ k = 0 := by omega
          · rw [he₁.still hout (by decide), he₂.still hout (by decide), he₃.here hout]
          · rw [he₁.still hout (by decide), he₂.here hout, he₃.still hout (by decide)]
          · rw [he₁.here hout, he₂.still hout (by decide), he₃.still hout (by decide)]

end

end BadLands.Mm.Paging
