import BadLands.Core.PageMapping
import BadLands.Core.Word
import BadLands.Mm.MapPage

/-!
# Changing the flags of pages that are mapped

`ChangeMappingFlags` goes over a range page by page and puts new flags into the entry that maps the
page: that of the page directory where it has the page-size bit, that of the page table otherwise. It
fails at a page that has no page table.

It does not look at the entry of the page table before it writes it: an entry that is not present
becomes present. And the page-size bit is one of the flags: without it, the entry of a large page
becomes a link. `Changeable` leaves both out (`changeMappingFlags_keeps_iff`).
-/
namespace BadLands.Mm.Paging

open BadLands.Core BadLands.Core.PageTable

/-- The entry with the new flags. -/
def recastEntry (flags e : Entry) : Entry := (e &&& entryAddress) ||| (flags &&& ~~~entryAddress)

/-- A turn of the loop: whether it goes on; `none` is a page fault.
mirrors kernel/src/mm/VirtualMemory.cpp:850-871 -/
def changePage (root : Nat) (flags : Entry) (ptr : Nat) (m : PhysMem) : Option (Bool × PhysMem) := do
  let mapping := parseVirtualAddress ptr
  let pml4eInfo := getPML4EInfo (← readVirtual m root (getPML4EAddress mapping true))
  let pdpteInfo := getPDPTEInfo (← readVirtual m root (getPDPTEAddress mapping true))
  let pdeInfo := getPDEInfo (← readVirtual m root (getPDEAddress mapping true))
  if !pml4eInfo.present || !pdpteInfo.present || !pdeInfo.present then return (false, m)
  if pdeInfo.pageSize then
    let pde ← readVirtual m root (getPDEAddress mapping true)
    let m ← writeVirtual m root (getPDEAddress mapping true) (recastEntry flags pde)
    return (true, m)
  else
    let pte ← readVirtual m root (getPTEAddress mapping true)
    let m ← writeVirtual m root (getPTEAddress mapping true) (recastEntry flags pte)
    return (true, m)

/-- The loop, with `n` pages left. -/
def changePages (root : Nat) (flags : Entry) : Nat → Nat → PhysMem → Option (Bool × PhysMem)
  | 0, _, m => some (true, m)
  | n + 1, ptr, m => do
    let (ok, m) ← changePage root flags ptr m
    if !ok then return (false, m)
    changePages root flags n (Word.add ptr 4096) m

/-- mirrors kernel/src/mm/VirtualMemory.cpp:846-875 -/
def changeMappingFlags (m : PhysMem) (root ptr : Nat) (flags : Entry) (pages : Nat) : Option (Bool × PhysMem) :=
  changePages root flags pages ptr m

/-! ## The entry -/

section
variable {flags : Entry}

theorem flags_and (hflags : flags &&& entryAddress = 0#64) : flags &&& ~~~entryAddress = flags := by
  apply BitVec.eq_of_getLsbD_eq
  intro i hi
  have hbit := congrArg (fun e : Entry => e.getLsbD i) hflags
  simp only [BitVec.getLsbD_and, BitVec.getLsbD_zero] at hbit
  rw [BitVec.getLsbD_and, BitVec.getLsbD_not, decide_eq_true hi, Bool.true_and]
  cases h : flags.getLsbD i with
  | false => rfl
  | true =>
    rw [h, Bool.true_and] at hbit
    rw [hbit]
    rfl

theorem recastEntry_eq (hflags : flags &&& entryAddress = 0#64) (e : Entry) :
    recastEntry flags e = flags ||| (e &&& entryAddress) := by
  rw [recastEntry, flags_and hflags, BitVec.or_comm]

theorem recastEntry_address (hflags : flags &&& entryAddress = 0#64) (e : Entry) :
    recastEntry flags e &&& entryAddress = e &&& entryAddress := by
  rw [recastEntry_eq hflags, BitVec.and_or_distrib_right, hflags, BitVec.zero_or, BitVec.and_assoc, BitVec.and_self]

theorem recastEntry_flags (hflags : flags &&& entryAddress = 0#64) (e : Entry) :
    recastEntry flags e &&& ~~~entryAddress = flags := by
  rw [recastEntry_eq hflags, BitVec.and_or_distrib_right, flags_and hflags, BitVec.and_assoc,
    show entryAddress &&& ~~~entryAddress = 0#64 by decide, BitVec.and_zero, BitVec.or_zero]

theorem recastEntry_recast (hflags : flags &&& entryAddress = 0#64) (e : Entry) :
    recastEntry flags (recastEntry flags e) = recastEntry flags e := by
  rw [recastEntry_eq hflags (recastEntry flags e), recastEntry_address hflags, recastEntry_eq hflags e]

theorem recastEntry_present (hflags : flags &&& entryAddress = 0#64) (e : Entry) :
    (recastEntry flags e).present = flags.present := by
  rw [recastEntry_eq hflags]
  exact (entry_bits hflags).2.1

theorem recastEntry_large (hflags : flags &&& entryAddress = 0#64) (e : Entry) :
    (recastEntry flags e).large = flags.large := by
  rw [recastEntry_eq hflags]
  exact (entry_bits hflags).2.2

theorem recastEntry_frame (hflags : flags &&& entryAddress = 0#64) (e : Entry) :
    (recastEntry flags e).frame = e.frame := congrArg BitVec.toNat (recastEntry_address hflags e)

theorem recastEntry_pageFrame (hflags : flags &&& entryAddress = 0#64) (n : Nat) (e : Entry) :
    pageFrame n (recastEntry flags e) = pageFrame n e := by
  cases n with
  | zero => exact recastEntry_frame hflags e
  | succ n =>
    -- the mask of a large page is part of that of a page
    have hmask : ∀ mask : Entry, entryAddress &&& mask = mask → recastEntry flags e &&& mask = e &&& mask := by
      intro mask hpart
      rw [← hpart, ← BitVec.and_assoc, ← BitVec.and_assoc, recastEntry_address hflags]
    have hpart : (entryAddress &&& if n + 1 = 1 then 0x000FFFFFFFE00000#64 else 0x000FFFFFC0000000#64) =
        if n + 1 = 1 then 0x000FFFFFFFE00000#64 else 0x000FFFFFC0000000#64 := by
      split <;> decide
    exact congrArg BitVec.toNat (hmask _ hpart)

end

/-! ## A page -/

/-- There are no pages of 1 GiB, and none of 512 GiB, on the way of `va`. -/
def NoHuge (m : PhysMem) (root va : Nat) : Prop :=
  ∀ n t, 2 ≤ n → Reach m va 3 root n t → (m (slot t n va)).present = true → (m (slot t n va)).large = false

/-- There is a page directory for `va`, and no page table in it. -/
def Missing (m : PhysMem) (root va : Nat) : Prop := ∃ t, Reach m va 3 root 1 t ∧ (m (slot t 1 va)).present = false

section
variable {m m' : PhysMem} {root va t : Nat} {flags : Entry}

theorem pdptePointer_absent (hw : Window m root root true) (h : (m (slot root 3 va)).present = false) :
    translation m root (getPDPTEAddress (parseVirtualAddress va) true) = none := by
  have hwi := windowIndex_lt true
  have hi := index_lt 2 va
  obtain ⟨i3, i2, i1, i0, -, hcan⟩ :=
    pointer_indices (u := true) hwi hwi (index_lt 3 va) (show 8 * index 2 va < 4096 by omega)
  unfold getPDPTEAddress
  rw [pdptAddress_eq, show (parseVirtualAddress va).pdptOffset = index 2 va by rw [parse_eq], entrySize, translation,
    if_pos hcan, walk_pointsTo i3 hw.entry, walk_pointsTo i2 hw.self, walk_pointsTo i1 hw.self]
  apply walk_absent
  unfold slot
  rw [i0]
  exact h

theorem pdePointer_absent (hw : Window m root root true) (ht : Reach m va 3 root 2 t)
    (h : (m (slot t 2 va)).present = false) :
    translation m root (getPDEAddress (parseVirtualAddress va) true) = none := by
  have hwi := windowIndex_lt true
  have hi := index_lt 1 va
  obtain ⟨s3, hs3, he3⟩ := reach_pointsTo ht (by decide)
  obtain rfl := reach_top hs3
  obtain ⟨i3, i2, i1, i0, -, hcan⟩ :=
    pointer_indices (u := true) hwi (index_lt 3 va) (index_lt 2 va) (show 8 * index 1 va < 4096 by omega)
  unfold getPDEAddress
  rw [pdAddress_eq, show (parseVirtualAddress va).pdOffset = index 1 va by rw [parse_eq], entrySize, translation,
    if_pos hcan, walk_pointsTo i3 hw.entry, walk_pointsTo i2 hw.self, walk_pointsTo i1 he3]
  apply walk_absent
  unfold slot
  rw [i0]
  exact h

/-- What a turn of the loop does: a page fault above the page directory, a failure without a page
table, or a write of the entry that maps the page, or would if it were present. -/
theorem changePage_cases (hw : Window m root root true) (hhuge : NoHuge m root va) :
    (changePage root flags va m = none ∧ ∀ t, ¬ Reach m va 3 root 1 t) ∨
    (changePage root flags va m = some (false, m) ∧ Missing m root va) ∨
    ∃ n t, Reach m va 3 root n t ∧
      changePage root flags va m = some (true, update m (slot t n va) (recastEntry flags (m (slot t n va)))) ∧
      (n = 0 ∨ n = 1 ∧ (m (slot t n va)).Ends n) := by
  unfold changePage
  simp only [Option.bind_eq_bind, readVirtual_of (pml4ePointer hw), Option.bind_some]
  have h3here : Reach m va 3 root 3 root := .here _ _
  cases h3 : (m (slot root 3 va)).present with
  | false =>
    refine .inl ⟨?_, fun t ht => ?_⟩
    · rw [readVirtual, pdptePointer_absent hw h3]
      rfl
    · obtain ⟨t2, h2, -, -⟩ := ht.linked (by decide)
      obtain ⟨t3, hr3, hl, -⟩ := h2.linked (by decide)
      obtain rfl := reach_top hr3
      rw [hl.1] at h3
      cases h3
  | true =>
    have hr2 := h3here.next ⟨h3, hhuge 3 root (by decide) h3here h3⟩
    have hp3 : (getPML4EInfo (m (slot root 3 va))).present = true := (present_iff _).trans h3
    rw [readVirtual_of (pdptePointer hw hr2), Option.bind_some]
    generalize (m (slot root 3 va)).frame = t2 at hr2 ⊢
    cases h2 : (m (slot t2 2 va)).present with
    | false =>
      refine .inl ⟨?_, fun t ht => ?_⟩
      · rw [readVirtual, pdePointer_absent hw hr2 h2]
        rfl
      · obtain ⟨t2', hr2', hl, -⟩ := ht.linked (by decide)
        obtain rfl := hr2'.unique hr2
        rw [hl.1] at h2
        cases h2
    | true =>
      have hr1 := hr2.next ⟨h2, hhuge 2 t2 (by decide) hr2 h2⟩
      have hp2 : (getPDPTEInfo (m (slot t2 2 va))).present = true := (present_iff _).trans h2
      generalize (m (slot t2 2 va)).frame = t1 at hr1 ⊢
      have hp1 : (getPDEInfo (m (slot t1 1 va))).present = (m (slot t1 1 va)).present := present_iff _
      have hs1 : (getPDEInfo (m (slot t1 1 va))).pageSize = (m (slot t1 1 va)).large := large_iff _
      simp only [readVirtual_of (pdePointer hw hr1), Option.bind_some, hp3, hp2, hp1, hs1, Bool.not_true, Bool.false_or]
      cases h1 : (m (slot t1 1 va)).present with
      | false => exact .inr (.inl ⟨rfl, t1, hr1, h1⟩)
      | true =>
        cases hl : (m (slot t1 1 va)).large with
        | true =>
          refine .inr (.inr ⟨1, t1, hr1, ?_, .inr ⟨rfl, h1, .inr ⟨hl, by decide⟩⟩⟩)
          simp only [Bool.not_true, Bool.false_eq_true, if_false, if_true, writeVirtual_of (pdePointer hw hr1),
            Option.bind_some]
          rfl
        | false =>
          have hr0 := hr1.next ⟨h1, hl⟩
          refine .inr (.inr ⟨0, _, hr0, ?_, .inl rfl⟩)
          simp only [Bool.not_true, Bool.false_eq_true, if_false, readVirtual_of (ptePointer hw hr0),
            writeVirtual_of (ptePointer hw hr0), Option.bind_some]
          rfl

/-- A write that keeps the tables: of an entry that leads to none, before and after. -/
structure Dead (m m' : PhysMem) (root va n t : Nat) : Prop where
  outside : Outside windows va
  reach : Reach m va 3 root n t
  low : n ≤ 1
  same : SameBut m m' (slot t n va) fun _ => False
  dead : n = 0 ∨ ¬ (m (slot t n va)).Links ∧ ¬ (m' (slot t n va)).Links

theorem Dead.reach_iff {n a k u : Nat} (h : Dead m m' root va n t) (hT : Tables m root) (ha : Outside windows a) :
    Reach m' a 3 root k u ↔ Reach m a 3 root k u := hT.tree.reach_dead ha h.outside h.reach h.same h.dead

theorem Dead.tables {n : Nat} (h : Dead m m' root va n t) (hT : Tables m root) : Tables m' root :=
  dead_tables hT h.outside h.reach h.same h.dead

theorem Dead.noHuge {n a : Nat} (h : Dead m m' root va n t) (hT : Tables m root) (ha : Outside windows a)
    (hhuge : NoHuge m root a) : NoHuge m' root a := by
  intro k u hk hr hp
  have hr' := (h.reach_iff hT ha).mp hr
  rcases hT.tree.reads (fun _ hf => hf.elim) ha h.outside h.reach h.same hr' with ⟨rfl, -, -⟩ | he
  · have hlow := h.low
    omega
  · rw [he] at hp ⊢
    exact hhuge k u hk hr' hp

end

/-- The pages of a range are canonical, not part of the windows, and not huge. -/
structure Range (m : PhysMem) (root va n : Nat) : Prop where
  canonical : ∀ i, i < n → Canonical (va + 4096 * i)
  outside : ∀ i, i < n → Outside windows (va + 4096 * i)
  noHuge : ∀ i, i < n → NoHuge m root (va + 4096 * i)

/-- The pages that are given the flags are mapped, and the flags have the page-size bit where the
page is a large one. A page without a page table is the last one. -/
def Changeable (m : PhysMem) (root : Nat) (flags : Entry) : Nat → Nat → Prop
  | 0, _ => True
  | n + 1, va => Missing m root va ∨
      (∃ l e, mapping m root va = some (l, e) ∧ (l = 1 → flags.large = true)) ∧ Changeable m root flags n (va + 4096)

/-- The page shares its entry with one of the first `k` pages of the range. -/
def Touched (m : PhysMem) (root va k a : Nat) : Prop :=
  ∃ i, i < k ∧ ∃ l e, mapping m root (va + 4096 * i) = some (l, e) ∧ SamePath l a (va + 4096 * i)

section
variable {m m' : PhysMem} {root va n t : Nat} {flags : Entry} {ok : Bool}

theorem next_page (va i : Nat) : va + 4096 + 4096 * i = va + 4096 * (i + 1) := by omega

theorem Range.head (h : Range m root va (n + 1)) :
    Canonical va ∧ Outside windows va ∧ NoHuge m root va :=
  ⟨h.canonical 0 (Nat.succ_pos n), h.outside 0 (Nat.succ_pos n), h.noHuge 0 (Nat.succ_pos n)⟩

theorem Range.tail (h : Range m root va (n + 1)) : Range m root (va + 4096) n where
  canonical i hi := by
    rw [next_page]
    exact h.canonical (i + 1) (Nat.succ_lt_succ hi)
  outside i hi := by
    rw [next_page]
    exact h.outside (i + 1) (Nat.succ_lt_succ hi)
  noHuge i hi := by
    rw [next_page]
    exact h.noHuge (i + 1) (Nat.succ_lt_succ hi)

theorem Dead.range {l a k : Nat} (h : Dead m m' root va l t) (hT : Tables m root) (hrange : Range m root a k) :
    Range m' root a k :=
  ⟨hrange.canonical, hrange.outside, fun i hi => h.noHuge hT (hrange.outside i hi) (hrange.noHuge i hi)⟩

theorem canonical_lt {a : Nat} (h : Canonical a) : a < 2 ^ 64 := by
  unfold Canonical at h
  omega

/-- The pointer does not wrap around inside the range. -/
theorem changePages_next {k : Nat} (h : Range m root va (n + 1)) (hk : k ≤ n) (m' : PhysMem) :
    changePages root flags k (Word.add va 4096) m' = changePages root flags k (va + 4096) m' := by
  cases k with
  | zero => rw [changePages, changePages]
  | succ k =>
    have hlt := canonical_lt (h.canonical 1 (by omega))
    have hnext : Word.add va 4096 = va + 4096 := Word.add_eq (by omega)
    rw [hnext]

/-! ## Pages that are given the flags -/

theorem Missing.mapping (h : Missing m root va) : mapping m root va = none := by
  obtain ⟨t, hr, habsent⟩ := h
  have hleaf : leaf m va 1 t = none := by
    rw [leaf]
    simp only [habsent, Bool.not_false, if_true]
  unfold PageTable.mapping
  rw [hr.leaf, hleaf, ite_self]

theorem changePage_missing (hT : Tables m root) (hhuge : NoHuge m root va) (h : Missing m root va) :
    changePage root flags va m = some (false, m) := by
  obtain ⟨t, hr, habsent⟩ := h
  rcases @changePage_cases m root va flags hT.window hhuge with ⟨-, hno⟩ | ⟨hrun, -⟩ | ⟨l, u, hu, -, hl⟩
  · exact absurd hr (hno t)
  · exact hrun
  · rcases hl with rfl | ⟨rfl, hends⟩
    · obtain ⟨t1, hr1, hlinks, -⟩ := hu.linked (by decide)
      obtain rfl := hr1.unique hr
      rw [hlinks.1] at habsent
      cases habsent
    · obtain rfl := hu.unique hr
      rw [hends.1] at habsent
      cases habsent

/-- A write that gives the entry of a page other flags. -/
structure Rewritten (flags : Entry) (m m' : PhysMem) (root va n t : Nat) : Prop extends Dead m m' root va n t where
  old : (m (slot t n va)).Ends n
  new : (m' (slot t n va)).Ends n
  value : m' (slot t n va) = recastEntry flags (m (slot t n va))

theorem Rewritten.recast {l : Nat} (h : Rewritten flags m m' root va l t) (hT : Tables m root) :
    Recast m m' root windows (recastEntry flags) fun a => SamePath l a va :=
  hT.tree.recast h.outside h.reach h.same h.old h.new h.value

theorem Rewritten.missing_iff {l a : Nat} (h : Rewritten flags m m' root va l t) (hT : Tables m root)
    (ha : Outside windows a) : Missing m' root a ↔ Missing m root a := by
  refine exists_congr fun u => ?_
  rw [h.reach_iff hT ha]
  refine and_congr_right fun hr => ?_
  rcases hT.tree.reads (fun _ hf => hf.elim) ha h.outside h.reach h.same hr with ⟨rfl, rfl, hpath⟩ | he
  · have hslot : slot u 1 a = slot u 1 va := by
      unfold slot
      rw [hpath 1 (Nat.le_refl 1) (by decide)]
    rw [hslot, h.old.1, h.new.1]
  · rw [he]

/-- Pages of one level are mapped together. -/
theorem mapped_of_level {x y : Option (Nat × Entry)} (h : x.map Prod.fst = y.map Prod.fst) {l : Nat} {e : Entry}
    (hx : x = some (l, e)) : ∃ e', y = some (l, e') := by
  rw [hx] at h
  obtain ⟨⟨l', e'⟩, hy, hfst⟩ := Option.map_eq_some_iff.mp h.symm
  obtain rfl : l' = l := hfst
  exact ⟨e', hy⟩

theorem Rewritten.changeable_iff {l a k : Nat} (h : Rewritten flags m m' root va l t) (hT : Tables m root)
    (hrange : Range m root a k) : Changeable m' root flags k a ↔ Changeable m root flags k a := by
  induction k generalizing a with
  | zero => exact Iff.rfl
  | succ k ih =>
    have ha := hrange.head.2.1
    have hlevel := (h.recast hT).level ha
    unfold Changeable
    rw [h.missing_iff hT ha, ih hrange.tail]
    refine or_congr_right (and_congr_left fun _ => exists_congr fun l => ?_)
    constructor
    · rintro ⟨e, he, hl⟩
      obtain ⟨e', he'⟩ := mapped_of_level hlevel he
      exact ⟨e', he', hl⟩
    · rintro ⟨e, he, hl⟩
      obtain ⟨e', he'⟩ := mapped_of_level hlevel.symm he
      exact ⟨e', he', hl⟩

/-- A write of the loop, where it gives a page its flags. -/
theorem rewritten_update {l : Nat} (hflags : flags &&& entryAddress = 0#64) (hpresent : flags.present = true)
    (ha : Outside windows va) (hr : Reach m va 3 root l t) (hl : l ≤ 1) (hends : (m (slot t l va)).Ends l)
    (hlarge : l = 1 → flags.large = true) :
    Rewritten flags m (update m (slot t l va) (recastEntry flags (m (slot t l va)))) root va l t := by
  have hvalue : update m (slot t l va) (recastEntry flags (m (slot t l va))) (slot t l va) =
      recastEntry flags (m (slot t l va)) := if_pos rfl
  have hnew : (recastEntry flags (m (slot t l va))).Ends l := by
    refine ⟨(recastEntry_present hflags _).trans hpresent, ?_⟩
    by_cases h0 : l = 0
    · exact .inl h0
    · exact .inr ⟨(recastEntry_large hflags _).trans (hlarge (by omega)), by omega⟩
  refine ⟨⟨ha, hr, hl, fun q hq _ => if_neg hq, ?_⟩, hends, by rw [hvalue]; exact hnew, hvalue⟩
  by_cases h0 : l = 0
  · exact .inl h0
  · rw [hvalue]
    exact .inr ⟨hends.not_links h0, hnew.not_links h0⟩

/-- A page that is not huge is mapped by a page table or as a large page. -/
theorem NoHuge.level {l : Nat} {e : Entry} (hcan : Canonical va) (hhuge : NoHuge m root va)
    (h : mapping m root va = some (l, e)) : l ≤ 1 := by
  obtain ⟨u, hu, he, hends⟩ := (mapping_iff hcan).mp h
  rcases Nat.lt_or_ge 1 l with h2 | h1
  · have hsmall := hhuge l u h2 hu (by rw [he]; exact hends.1)
    rw [he, (hends.2.resolve_left (by omega)).1] at hsmall
    cases hsmall
  · exact h1

/-- A turn of the loop on a page that is mapped. -/
theorem changePage_mapped {l : Nat} {e : Entry} (hflags : flags &&& entryAddress = 0#64)
    (hpresent : flags.present = true) (hT : Tables m root) (hcan : Canonical va) (ha : Outside windows va)
    (hhuge : NoHuge m root va) (hmapping : mapping m root va = some (l, e)) (hlarge : l = 1 → flags.large = true) :
    ∃ m' t, changePage root flags va m = some (true, m') ∧ Rewritten flags m m' root va l t := by
  obtain ⟨u, hu, -, -⟩ := (mapping_iff hcan).mp hmapping
  have hlow := hhuge.level hcan hmapping
  obtain ⟨t1, ht1, -⟩ := hu.through hlow (by decide)
  rcases @changePage_cases m root va flags hT.window hhuge with ⟨-, hno⟩ | ⟨-, hmissing⟩ | ⟨k, t, ht, hrun, hk⟩
  · exact absurd ht1 (hno t1)
  · rw [hmissing.mapping] at hmapping
    cases hmapping
  · have hkends : (m (slot t k va)).Ends k ∧ k = l := by
      rcases hk with rfl | ⟨rfl, hkends⟩
      · have hleaf : mapping m root va = leaf m va 0 t := by
          rw [mapping, if_pos hcan, ht.leaf]
        rw [hleaf, leaf_iff] at hmapping
        obtain ⟨v, hv, hev, hvends⟩ := hmapping
        cases hv with
        | here => exact ⟨by rw [hev]; exact hvends, rfl⟩
      · rw [(mapping_iff hcan).mpr ⟨t, ht, rfl, hkends⟩] at hmapping
        exact ⟨hkends, congrArg Prod.fst (Option.some.inj hmapping)⟩
    obtain ⟨hends', rfl⟩ := hkends
    exact ⟨_, t, hrun, rewritten_update hflags hpresent ha ht hlow hends' hlarge⟩

/-- How many pages the loop went through: all of them, or those up to the one that it failed at. -/
def StoppedAt (root : Nat) (flags : Entry) (n va : Nat) (m : PhysMem) (ok : Bool) (m' : PhysMem) (k : Nat) : Prop :=
  ok = true ∧ k = n ∨ ok = false ∧ k < n ∧ changePages root flags k va m = some (true, m')

theorem changePages_succ (hrun : changePage root flags va m = some (true, m')) (hrange : Range m root va (n + 1))
    {k : Nat} (hk : k ≤ n) :
    changePages root flags (k + 1) va m = changePages root flags k (va + 4096) m' := by
  rw [changePages, hrun]
  exact changePages_next hrange hk m'

theorem touched_succ {l : Nat} {e : Entry} (hmapping : mapping m root va = some (l, e))
    (hlevel : ∀ i, i < n → (mapping m' root (va + 4096 + 4096 * i)).map Prod.fst =
      (mapping m root (va + 4096 + 4096 * i)).map Prod.fst) (a : Nat) :
    (SamePath l a va ∨ Touched m' root (va + 4096) n a) ↔ Touched m root va (n + 1) a := by
  constructor
  · rintro (hpath | ⟨i, hi, l', e', he', hpath⟩)
    · exact ⟨0, Nat.succ_pos n, l, e, hmapping, hpath⟩
    · obtain ⟨e'', he''⟩ := mapped_of_level (hlevel i hi) he'
      rw [next_page] at he'' hpath
      exact ⟨i + 1, Nat.succ_lt_succ hi, l', e'', he'', hpath⟩
  · rintro ⟨i, hi, l', e', he', hpath⟩
    cases i with
    | zero =>
      obtain rfl : l = l' := congrArg Prod.fst (Option.some.inj (hmapping.symm.trans he'))
      exact .inl hpath
    | succ i =>
      rw [← next_page] at he' hpath
      obtain ⟨e'', he''⟩ := mapped_of_level (hlevel i (Nat.lt_of_succ_lt_succ hi)).symm he'
      exact .inr ⟨i, Nat.lt_of_succ_lt_succ hi, l', e'', he'', hpath⟩

/-- What the loop does on pages that can be given the flags. -/
structure Changed (flags : Entry) (m m' : PhysMem) (root va n k : Nat) : Prop where
  recast : Recast m m' root windows (recastEntry flags) (Touched m root va k)
  mapped : ∀ i, i < k → (mapping m root (va + 4096 * i)).isSome = true
  missing : k < n → Missing m root (va + 4096 * k)

theorem Touched.zero : Touched m root va 0 = fun _ => False := by
  funext a
  apply propext
  constructor
  · rintro ⟨i, hi, -⟩
    exact absurd hi (Nat.not_lt_zero i)
  · exact False.elim

theorem Changed.none (h : 0 < n → Missing m root va) : Changed flags m m root va n 0 where
  recast := by
    rw [Touched.zero]
    exact .refl m root windows (recastEntry flags)
  mapped i hi := absurd hi (Nat.not_lt_zero i)
  missing hn := h hn

theorem changePages_run (hflags : flags &&& entryAddress = 0#64) (hpresent : flags.present = true) (hT : Tables m root)
    (hrange : Range m root va n) (hchange : Changeable m root flags n va) :
    ∃ ok m' k, changePages root flags n va m = some (ok, m') ∧ StoppedAt root flags n va m ok m' k ∧
      Changed flags m m' root va n k := by
  induction n generalizing va m with
  | zero => exact ⟨true, m, 0, rfl, .inl ⟨rfl, rfl⟩, .none fun h => absurd h (Nat.lt_irrefl 0)⟩
  | succ n ih =>
    obtain ⟨hcan, ha, hhuge⟩ := hrange.head
    rcases hchange with hmissing | ⟨⟨l, e, hmapping, hlarge⟩, hrest⟩
    · refine ⟨false, m, 0, ?_, .inr ⟨rfl, Nat.succ_pos n, rfl⟩, .none fun _ => hmissing⟩
      rw [changePages, changePage_missing hT hhuge hmissing]
      rfl
    · obtain ⟨m₁, t, hrun, hw⟩ := changePage_mapped hflags hpresent hT hcan ha hhuge hmapping hlarge
      have hrange₁ := hw.toDead.range hT hrange.tail
      obtain ⟨ok, m', k, hloop, hstop, hchanged⟩ :=
        ih (hw.toDead.tables hT) hrange₁ ((hw.changeable_iff hT hrange.tail).mpr hrest)
      have hlevel : ∀ i, i < n → (mapping m₁ root (va + 4096 + 4096 * i)).map Prod.fst =
          (mapping m root (va + 4096 + 4096 * i)).map Prod.fst :=
        fun i hi => (hw.recast hT).level (hrange.tail.outside i hi)
      have hkn : k ≤ n := by
        rcases hstop with ⟨-, rfl⟩ | ⟨-, hlt, -⟩
        · exact Nat.le_refl k
        · exact Nat.le_of_lt hlt
      refine ⟨ok, m', k + 1, ?_, ?_, ?_, fun i hi => ?_, fun hlt => ?_⟩
      · rw [changePages_succ hrun hrange (Nat.le_refl n), hloop]
      · rcases hstop with ⟨rfl, rfl⟩ | ⟨rfl, hlt, hpre⟩
        · exact .inl ⟨rfl, rfl⟩
        · refine .inr ⟨rfl, Nat.succ_lt_succ hlt, ?_⟩
          rw [changePages_succ hrun hrange hkn, hpre]
      · have htouched : (fun a => SamePath l a va ∨ Touched m₁ root (va + 4096) k a) = Touched m root va (k + 1) :=
          funext fun a => propext (touched_succ hmapping (fun i hi => hlevel i (by omega)) a)
        rw [← htouched]
        exact (hw.recast hT).trans hchanged.recast (recastEntry_recast hflags)
      · cases i with
        | zero => exact Option.isSome_iff_exists.mpr ⟨(l, e), hmapping⟩
        | succ i =>
          have hsome := hchanged.mapped i (Nat.lt_of_succ_lt_succ hi)
          have hl := congrArg Option.isSome (hlevel i (by omega))
          rw [Option.isSome_map, Option.isSome_map, hsome, next_page] at hl
          exact hl.symm
      · have hmissing := hchanged.missing (Nat.lt_of_succ_lt_succ hlt)
        rw [hw.missing_iff hT (hrange.tail.outside k (by omega)), next_page] at hmissing
        exact hmissing

/-! ## Pages that are not -/

/-- Every word is the old one, or has its address and the flags. -/
def Masked (flags : Entry) (m m' : PhysMem) : Prop := ∀ q, m' q = m q ∨ m' q = recastEntry flags (m q)

theorem Masked.trans {m'' : PhysMem} (hflags : flags &&& entryAddress = 0#64) (h : Masked flags m m')
    (h' : Masked flags m' m'') : Masked flags m m'' := by
  intro q
  rcases h' q with he' | he'
  · rw [he']
    exact h q
  · rcases h q with he | he
    · rw [he', he]
      exact .inr rfl
    · rw [he', he, recastEntry_recast hflags]
      exact .inr rfl

theorem masked_update (m : PhysMem) (p : Nat) : Masked flags m (update m p (recastEntry flags (m p))) := by
  intro q
  by_cases hq : q = p
  · subst hq
    exact .inr (if_pos rfl)
  · exact .inl (if_neg hq)

theorem rewrite_masked {ptr : Nat} {e : Entry} (hread : readVirtual m root ptr = some e)
    (hwrite : writeVirtual m root ptr (recastEntry flags e) = some m') : Masked flags m m' := by
  obtain ⟨p, hp, rfl⟩ := Option.map_eq_some_iff.mp hread
  rw [writeVirtual_of hp] at hwrite
  obtain rfl := Option.some.inj hwrite
  exact masked_update m p

/-- Whatever the memory is. -/
theorem changePage_masked (hrun : changePage root flags va m = some (ok, m')) : Masked flags m m' := by
  unfold changePage at hrun
  simp only [Option.bind_eq_bind, Option.bind_eq_some_iff] at hrun
  obtain ⟨pml4e, -, pdpte, -, pde, -, hrun⟩ := hrun
  split at hrun
  · obtain ⟨-, rfl⟩ := Prod.mk.inj (Option.some.inj hrun)
    exact fun q => .inl rfl
  split at hrun
  · obtain ⟨e, hread, hrun⟩ := Option.bind_eq_some_iff.mp hrun
    obtain ⟨m₁, hwrite, hrun⟩ := Option.bind_eq_some_iff.mp hrun
    obtain ⟨-, rfl⟩ := Prod.mk.inj (Option.some.inj hrun)
    exact rewrite_masked hread hwrite
  · obtain ⟨e, hread, hrun⟩ := Option.bind_eq_some_iff.mp hrun
    obtain ⟨m₁, hwrite, hrun⟩ := Option.bind_eq_some_iff.mp hrun
    obtain ⟨-, rfl⟩ := Prod.mk.inj (Option.some.inj hrun)
    exact rewrite_masked hread hwrite

theorem changePages_masked (hflags : flags &&& entryAddress = 0#64)
    (hrun : changePages root flags n va m = some (ok, m')) : Masked flags m m' := by
  induction n generalizing va m with
  | zero =>
    obtain ⟨-, rfl⟩ := Prod.mk.inj (Option.some.inj hrun)
    exact fun q => .inl rfl
  | succ n ih =>
    rw [changePages] at hrun
    simp only [Option.bind_eq_bind, Option.bind_eq_some_iff] at hrun
    obtain ⟨⟨goesOn, m₁⟩, hpage, hrun⟩ := hrun
    have hmasked := changePage_masked hpage
    split at hrun
    · obtain ⟨-, rfl⟩ := Prod.mk.inj (Option.some.inj hrun)
      exact hmasked
    · exact hmasked.trans hflags (ih hrun)

/-- Without the page-size bit in the flags links stay links. -/
theorem Masked.reach (hflags : flags &&& entryAddress = 0#64) (hpresent : flags.present = true)
    (hsmall : flags.large = false) (h : Masked flags m m') {k u : Nat} (hr : Reach m va n t k u) :
    Reach m' va n t k u := by
  induction hr with
  | here => exact .here _ _
  | @down n t k u hl _ ih =>
    have hentry : (m' (slot t (n + 1) va)).Links ∧ (m' (slot t (n + 1) va)).frame = (m (slot t (n + 1) va)).frame := by
      rcases h (slot t (n + 1) va) with he | he
      · rw [he]
        exact ⟨hl, rfl⟩
      · rw [he]
        exact ⟨⟨(recastEntry_present hflags _).trans hpresent, (recastEntry_large hflags _).trans hsmall⟩,
          recastEntry_frame hflags _⟩
    refine .down hentry.1 ?_
    rw [hentry.2]
    exact ih

/-- With it the tables stay what they are. -/
theorem changePages_reach (hflags : flags &&& entryAddress = 0#64) (hlarge : flags.large = true) (hT : Tables m root)
    (hrange : Range m root va n) (hrun : changePages root flags n va m = some (ok, m')) {a k u : Nat}
    (ha : Outside windows a) : Reach m' a 3 root k u ↔ Reach m a 3 root k u := by
  induction n generalizing va m with
  | zero =>
    obtain ⟨-, rfl⟩ := Prod.mk.inj (Option.some.inj hrun)
    exact Iff.rfl
  | succ n ih =>
    obtain ⟨hcan, hva, hhuge⟩ := hrange.head
    rcases @changePage_cases m root va flags hT.window hhuge with ⟨hnone, -⟩ | ⟨hfails, -⟩ | ⟨l, t, ht, hwrite, hl⟩
    · rw [changePages, hnone] at hrun
      cases hrun
    · rw [changePages, hfails] at hrun
      obtain ⟨-, rfl⟩ := Prod.mk.inj (Option.some.inj hrun)
      exact Iff.rfl
    · have hdead : Dead m (update m (slot t l va) (recastEntry flags (m (slot t l va)))) root va l t := by
        refine ⟨hva, ht, by omega, fun q hq _ => if_neg hq, ?_⟩
        · rcases hl with rfl | ⟨rfl, hends⟩
          · exact .inl rfl
          · refine .inr ⟨hends.not_links (by decide), fun hlinks => ?_⟩
            rw [update, if_pos rfl] at hlinks
            have hbit := (recastEntry_large hflags (m (slot t 1 va))).trans hlarge
            rw [hlinks.2] at hbit
            cases hbit
      rw [changePages_succ hwrite hrange (Nat.le_refl n)] at hrun
      exact (ih (hdead.tables hT) (hdead.range hT hrange.tail) hrun).trans (hdead.reach_iff hT ha)

/-- A page whose entry must not be given the flags does not come out of it at its level. -/
theorem level_changed {l : Nat} (hflags : flags &&& entryAddress = 0#64) (hpresent : flags.present = true)
    (hT : Tables m root) (hrange : Range m root va (n + 1)) (ht : Reach m va 3 root l t)
    (hwrite : changePage root flags va m = some (true, update m (slot t l va) (recastEntry flags (m (slot t l va)))))
    (hl : l = 0 ∨ l = 1 ∧ (m (slot t l va)).Ends l) (hbad : ¬ ((m (slot t l va)).Ends l ∧ (l = 1 → flags.large = true)))
    (hrun : changePages root flags (n + 1) va m = some (ok, m')) :
    (mapping m' root va).map Prod.fst ≠ (mapping m root va).map Prod.fst := by
  obtain ⟨hcan, hva, hhuge⟩ := hrange.head
  have hmasked := changePages_masked hflags hrun
  have hvalue : m' (slot t l va) = recastEntry flags (m (slot t l va)) := by
    rw [changePages_succ hwrite hrange (Nat.le_refl n)] at hrun
    rcases changePages_masked hflags hrun (slot t l va) with he | he
    · rw [he, update, if_pos rfl]
    · rw [he, update, if_pos rfl, recastEntry_recast hflags]
  rcases hl with rfl | ⟨rfl, hends⟩
  · -- an entry of a page table that was not present is
    have habsent : (m (slot t 0 va)).present = false := by
      rw [← Bool.not_eq_true]
      exact fun hp => hbad ⟨⟨hp, .inl rfl⟩, fun h => by cases h⟩
    have hr : Reach m' va 3 root 0 t := by
      cases hlarge : flags.large with
      | true => exact (changePages_reach hflags hlarge hT hrange hrun hva).mpr ht
      | false => exact hmasked.reach hflags hpresent hlarge ht
    have hold : mapping m root va = none := by
      rw [mapping, if_pos hcan, ht.leaf, leaf]
      simp only [habsent, Bool.false_eq_true, if_false]
    have hpresent' : (m' (slot t 0 va)).present = true := by
      rw [hvalue]
      exact (recastEntry_present hflags _).trans hpresent
    have hnew : mapping m' root va = some (0, m' (slot t 0 va)) :=
      (mapping_iff hcan).mpr ⟨t, hr, rfl, hpresent', .inl rfl⟩
    rw [hold, hnew]
    exact fun h => by cases h
  · -- a large page has become a table
    have hsmall : flags.large = false := by
      rw [← Bool.not_eq_true]
      exact fun hlarge => hbad ⟨hends, fun _ => hlarge⟩
    have hr := hmasked.reach hflags hpresent hsmall ht
    have hold : mapping m root va = some (1, m (slot t 1 va)) := (mapping_iff hcan).mpr ⟨t, ht, rfl, hends⟩
    rw [hold]
    intro h
    obtain ⟨e, he⟩ := mapped_of_level h.symm rfl
    obtain ⟨u, hu, hue, huends⟩ := (mapping_iff hcan).mp he
    obtain rfl := hu.unique hr
    have hbit := (huends.2.resolve_left (by decide)).1
    rw [← hue, hvalue, recastEntry_large hflags, hsmall] at hbit
    cases hbit

theorem changeable_of_levels (hflags : flags &&& entryAddress = 0#64) (hpresent : flags.present = true)
    (hT : Tables m root) (hrange : Range m root va n) (hrun : changePages root flags n va m = some (ok, m'))
    (hlevels : ∀ i, i < n → (mapping m' root (va + 4096 * i)).map Prod.fst =
      (mapping m root (va + 4096 * i)).map Prod.fst) : Changeable m root flags n va := by
  induction n generalizing va m with
  | zero => trivial
  | succ n ih =>
    obtain ⟨hcan, hva, hhuge⟩ := hrange.head
    rcases @changePage_cases m root va flags hT.window hhuge with ⟨hnone, -⟩ | ⟨-, hmissing⟩ | ⟨l, t, ht, hwrite, hl⟩
    · rw [changePages, hnone] at hrun
      cases hrun
    · exact .inl hmissing
    · have hgood : (m (slot t l va)).Ends l ∧ (l = 1 → flags.large = true) := by
        refine Classical.byContradiction fun hbad => ?_
        exact level_changed hflags hpresent hT hrange ht hwrite hl hbad hrun (hlevels 0 (Nat.succ_pos n))
      obtain ⟨hends, hlarge⟩ := hgood
      have hlow : l ≤ 1 := by omega
      have hw := rewritten_update hflags hpresent hva ht hlow hends hlarge
      rw [changePages_succ hwrite hrange (Nat.le_refl n)] at hrun
      have hmapping : mapping m root va = some (l, m (slot t l va)) := (mapping_iff hcan).mpr ⟨t, ht, rfl, hends⟩
      have hrest := ih (hw.toDead.tables hT) (hw.toDead.range hT hrange.tail) hrun fun i hi => by
        rw [(hw.recast hT).level (hrange.tail.outside i hi), next_page]
        exact hlevels (i + 1) (Nat.succ_lt_succ hi)
      exact .inr ⟨⟨l, m (slot t l va), hmapping, hlarge⟩, (hw.changeable_iff hT hrange.tail).mp hrest⟩

end

/-! ## The range -/

/-- What the flags of the first `k` of `n` pages being changed means. -/
structure FlagsChanged (flags : Entry) (m m' : PhysMem) (root va n k : Nat) : Prop where
  mapped : ∀ i, i < k → ∀ l e, mapping m root (va + 4096 * i) = some (l, e) →
    ∃ e', mapping m' root (va + 4096 * i) = some (l, e') ∧ pageFrame l e' = pageFrame l e ∧ e' &&& ~~~entryAddress = flags
  unmapped : ∀ i, i < k → translation m root (va + 4096 * i) = none → translation m' root (va + 4096 * i) = none
  rest : ∀ i, k ≤ i → i < n → mapping m' root (va + 4096 * i) = mapping m root (va + 4096 * i)
  beyond : ∀ a, Outside windows a → (∀ i, i < n → a / 4096 ≠ (va + 4096 * i) / 4096) →
    translation m' root a = translation m root a

/-- It returns, and has changed the flags of all pages, or of those up to the one that it failed at. -/
def KeepsFrames (m : PhysMem) (root va : Nat) (flags : Entry) (pages : Nat) : Prop :=
  ∃ ok m' k, changeMappingFlags m root va flags pages = some (ok, m') ∧
    (ok = true ∧ k = pages ∨ ok = false ∧ k < pages ∧ changeMappingFlags m root va flags k = some (true, m')) ∧
    FlagsChanged flags m m' root va pages k

section
variable {m m' : PhysMem} {root va n k : Nat} {flags : Entry}

theorem translation_none_iff (m : PhysMem) (root a : Nat) : translation m root a = none ↔ mapping m root a = none := by
  rw [translation_eq_mapping, Option.map_eq_none_iff]

/-- The level of a page of the range. -/
theorem Range.level {i l : Nat} {e : Entry} (hrange : Range m root va n) (hi : i < n)
    (h : mapping m root (va + 4096 * i) = some (l, e)) : l ≤ 1 :=
  (hrange.noHuge i hi).level (hrange.canonical i hi) h

/-- Addresses on one large page take the same path down to it. -/
theorem samePath_of_large {a b : Nat} (h : a / 2 ^ 21 = b / 2 ^ 21) : SamePath 1 a b := by
  intro j h1 h3
  have hsplit : ∀ x : Nat, index j x = x / 2 ^ 21 / 2 ^ (9 * (j - 1)) % 512 := by
    intro x
    rw [index, Nat.div_div_eq_div_mul, ← Nat.pow_add, show 12 + 9 * j = 21 + 9 * (j - 1) by omega]
  rw [hsplit, hsplit, h]

/-- Two pages of the range with one entry are one page, or lie on a large one. -/
theorem Changed.rest_untouched (h : Changed flags m m' root va n k) (hrange : Range m root va n)
    (ha : va % 4096 = 0) {i : Nat} (hk : k ≤ i) (hi : i < n) : ¬ Touched m root va k (va + 4096 * i) := by
  rintro ⟨j, hj, l, e, he, hpath⟩
  have hci := hrange.canonical i hi
  have hcj := hrange.canonical j (by omega)
  have hlow := hrange.level (by omega) he
  rcases Nat.eq_zero_or_pos l with rfl | hpos
  · have hpage := samePath_page hci hcj hpath
    omega
  · obtain rfl : l = 1 := by omega
    -- the page that has no page table lies between them
    have hlarge := samePath_large hci hcj hpath
    have hbetween : (va + 4096 * k) / 2 ^ 21 = (va + 4096 * j) / 2 ^ 21 := by
      have hle : va + 4096 * k ≤ va + 4096 * i := by omega
      have hge : va + 4096 * j ≤ va + 4096 * k := by omega
      have h1 := Nat.div_le_div_right (c := 2 ^ 21) hle
      have h2 := Nat.div_le_div_right (c := 2 ^ 21) hge
      omega
    obtain ⟨u, hu, rfl, hends⟩ := (mapping_iff hcj).mp he
    obtain ⟨v, hv, habsent⟩ := h.missing (by omega)
    have hsame := samePath_of_large hbetween
    have hu' : Reach m (va + 4096 * k) 3 root 1 u :=
      SamePath.reach (fun x h1 h3 => (hsame x (by omega) h3).symm) (Nat.le_refl 3) hu
    obtain rfl := hv.unique hu'
    have hslot : slot v 1 (va + 4096 * k) = slot v 1 (va + 4096 * j) := by
      unfold slot
      rw [hsame 1 (Nat.le_refl 1) (by decide)]
    rw [hslot, hends.1] at habsent
    cases habsent

theorem Changed.flagsChanged (h : Changed flags m m' root va n k) (hflags : flags &&& entryAddress = 0#64)
    (hrange : Range m root va n) (ha : va % 4096 = 0) (hk : k ≤ n) : FlagsChanged flags m m' root va n k where
  mapped i hi l e he := by
    have hhit := h.recast.hit _ (hrange.outside i (by omega)) ⟨i, hi, l, e, he, fun _ _ _ => rfl⟩
    rw [he] at hhit
    exact ⟨recastEntry flags e, hhit, recastEntry_pageFrame hflags l e, recastEntry_flags hflags e⟩
  unmapped i hi hnone := by
    have hsome := h.mapped i hi
    rw [(translation_none_iff _ _ _).mp hnone] at hsome
    cases hsome
  rest i hki hi := h.recast.miss _ (hrange.outside i hi) (h.rest_untouched hrange ha hki hi)
  beyond a ha' _ := h.recast.translate (recastEntry_pageFrame hflags) ha'

theorem FlagsChanged.levels (h : FlagsChanged flags m m' root va n k) (i : Nat) (hi : i < n) :
    (mapping m' root (va + 4096 * i)).map Prod.fst = (mapping m root (va + 4096 * i)).map Prod.fst := by
  rcases Nat.lt_or_ge i k with hlt | hge
  · cases hm : mapping m root (va + 4096 * i) with
    | none => rw [(translation_none_iff _ _ _).mp (h.unmapped i hlt ((translation_none_iff _ _ _).mpr hm))]
    | some p =>
      obtain ⟨e', he', -⟩ := h.mapped i hlt p.1 p.2 hm
      rw [he']
      rfl
  · rw [h.rest i hge hi]

end

/-- For flags that are present and have no address, `ChangeMappingFlags` keeps every frame, and every
page without one, exactly when each page that it comes to is mapped, and the flags have the page-size
bit where it is a large one. -/
theorem changeMappingFlags_keeps_iff {m : PhysMem} {root va pages : Nat} {flags : Entry} (hT : Tables m root)
    (hrange : Range m root va pages) (ha : va % 4096 = 0) (hpresent : flags.present = true)
    (hflags : flags &&& entryAddress = 0#64) :
    KeepsFrames m root va flags pages ↔ Changeable m root flags pages va := by
  constructor
  · rintro ⟨ok, m', k, hrun, -, hchanged⟩
    exact changeable_of_levels hflags hpresent hT hrange hrun hchanged.levels
  · intro h
    obtain ⟨ok, m', k, hrun, hstop, hchanged⟩ := changePages_run hflags hpresent hT hrange h
    have hk : k ≤ pages := by
      rcases hstop with ⟨-, rfl⟩ | ⟨-, hlt, -⟩
      · exact Nat.le_refl k
      · exact Nat.le_of_lt hlt
    exact ⟨ok, m', k, hrun, hstop, hchanged.flagsChanged hflags hrange ha hk⟩

/-- A root at `0x1000` with its own window, a large page at 0, a page at `0x200000`, and behind it one
that is reserved on demand. -/
def mixedRoot : PhysMem := fun p =>
  if p = 0x1000 + 8 * 510 then 0x1003#64
  else if p = 0x1000 then 0x2003#64
  else if p = 0x2000 then 0x3003#64
  else if p = 0x3000 then 0x600083#64
  else if p = 0x3008 then 0x4003#64
  else if p = 0x4000 then 0x9003#64
  else if p = 0x4008 then 0x802#64
  else 0#64

/-- The tables of `mixedRoot`. -/
def mixedPaths : List (Nat × List Nat) := [(0x1000, []), (0x2000, [0]), (0x3000, [0, 0]), (0x4000, [0, 0, 1])]

theorem charted_mixedRoot : Charted mixedRoot 0x1000 windows mixedPaths :=
  ⟨by decide, by decide, by decide, by decide +kernel⟩

theorem tables_mixedRoot : Tables mixedRoot 0x1000 := ⟨charted_mixedRoot.tree, by decide⟩

/-- Large pages are in page directories only. -/
theorem noHuge_mixedRoot : ∀ p ∈ mixedPaths, p.2.length < 2 → ∀ i ∈ List.range 512, (mixedRoot (p.1 + 8 * i)).large = false := by
  decide +kernel

theorem range_mixedRoot {va n : Nat} (h : va + 4096 * n ≤ 2 ^ 30) : Range mixedRoot 0x1000 va n := by
  have hzero : ∀ i, i < n → index 3 (va + 4096 * i) = 0 := by
    intro i hi
    rw [index, Nat.div_eq_of_lt (by omega)]
  have hout : ∀ i, i < n → Outside windows (va + 4096 * i) := by
    intro i hi
    unfold Outside windows
    rw [hzero i hi]
    decide
  refine ⟨fun i hi => .inl (by omega), hout, fun i hi k t hk hr hp => ?_⟩
  exact noHuge_mixedRoot _ (charted_mixedRoot.reach (hout i hi) hr) (by rw [length_indices]; omega) _
    (List.mem_range.mpr (index_lt _ _))

/-- The last page of the large page and the page behind it become uncacheable. -/
theorem changeMappingFlags_keeps_mixed : KeepsFrames mixedRoot 0x1000 0x1FF000 0x93#64 2 := by
  refine (changeMappingFlags_keeps_iff tables_mixedRoot (range_mixedRoot (by decide)) (by decide) (by decide)
    (by decide)).mpr (.inr ⟨⟨1, 0x600083#64, by decide, fun _ => by decide⟩, .inr ⟨⟨0, 0x9003#64, by decide, ?_⟩, trivial⟩⟩)
  intro h
  cases h

/-- The page that is reserved is mapped to the frame 0. -/
theorem changeMappingFlags_maps_reserved : Tables mixedRoot 0x1000 ∧ Range mixedRoot 0x1000 0x201000 1 ∧
    translation mixedRoot 0x1000 0x201000 = none ∧
    (changeMappingFlags mixedRoot 0x1000 0x201000 0x13#64 1).map (fun r => (r.1, translation r.2 0x1000 0x201000)) =
      some (true, some 0) ∧ ¬ KeepsFrames mixedRoot 0x1000 0x201000 0x13#64 1 := by
  have hnone : translation mixedRoot 0x1000 0x201000 = none := by decide
  have hzero : (changeMappingFlags mixedRoot 0x1000 0x201000 0x13#64 1).map
      (fun r => (r.1, translation r.2 0x1000 0x201000)) = some (true, some 0) := by decide
  refine ⟨tables_mixedRoot, range_mixedRoot (by decide), hnone, hzero, ?_⟩
  rintro ⟨ok, m', k, hrun, hstop, hchanged⟩
  rw [hrun] at hzero
  obtain ⟨rfl, hmapped⟩ := Prod.mk.inj (Option.some.inj hzero)
  have hk : k = 1 := by
    rcases hstop with ⟨-, hk⟩ | ⟨h, -⟩
    · exact hk
    · cases h
  have hstays := hchanged.unmapped 0 (by omega) hnone
  rw [show 0x201000 + 4096 * 0 = 0x201000 from rfl, hmapped] at hstays
  cases hstays

end BadLands.Mm.Paging
