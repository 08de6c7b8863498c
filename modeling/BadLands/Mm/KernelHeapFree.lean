import BadLands.Mm.DmaMapping
import BadLands.Mm.VirtualMemory

/-!
# Freeing kernel heap pages

`FreeCore<HIGH>` gives the frames of a range back and unmaps them page by page, and stores the range as a free block
afterwards. For the block the array may need another page.

The loop clears entries only, of pages on paths of their own (`Maps.unmapped`), so that the turns that meet a mapped
page can be told from the memory before it (`turns`). `free_failure_iff` says when a failure leaves everything as it
was; `failed_operations_iff` puts it next to the condition for `AllocateDMA`.
-/
namespace BadLands.Mm.KernelHeapFree

open BadLands.Core BadLands.Core.PageTable BadLands.Mm.Layout BadLands.Mm.Paging
open BadLands.Mm.VirtualMemory (State VMemMapBlock blockBytes storeBlock expand freeCore)

/-- The pages behind the first one of a large page. -/
def hugeRest : Nat := pdeCoverage / frameSize - 1

/-- One turn of the loop; `released`: the outcome of `Free` or `Free2MB`, should it be called. The number is that of
the pages which the turn passes over.
mirrors kernel/src/mm/VirtualMemory.cpp:506-549 -/
def releasePage (m : PhysMem) (root address : Nat) (released : Bool) : Option (Bool × Nat × PhysMem) := do
  let mapping := parseVirtualAddress address
  let pde := getPDEAddress mapping true
  let pte := getPTEAddress mapping true
  let _ ← readVirtual m root (getPML4EAddress mapping true)
  let _ ← readVirtual m root (getPDPTEAddress mapping true)
  let pdeInfo := getPDEInfo (← readVirtual m root pde)
  let pteInfo := getPTEInfo (← readVirtual m root pte)
  if pdeInfo.present then
    if pdeInfo.pageSize then
      if !released then return (false, 0, m)
      let m ← writeVirtual m root pde 0#64
      return (true, hugeRest, m)
    else if pteInfo.present then
      if !released then return (false, 0, m)
      let m ← writeVirtual m root pte 0#64
      return (true, 0, m)
    else return (true, 0, m)
  else return (true, 0, m)

/-- The `for` with `k` pages left, the next one `i`, of which `skip` are passed over.
mirrors kernel/src/mm/VirtualMemory.cpp:505-550 -/
def releaseLoop (root : Nat) (released : Nat → Bool) : Nat → Nat → Nat → Nat → PhysMem → Option (Bool × PhysMem)
  | 0, _, _, _, m => some (true, m)
  | k + 1, i, skip + 1, address, m => releaseLoop root released k (i + 1) skip (Word.add address frameSize) m
  | k + 1, i, 0, address, m => do
    let (ok, skip, m) ← releasePage m root address (released i)
    if !ok then return (false, m)
    releaseLoop root released k (i + 1) skip (Word.add address frameSize) m

/-- What the calls of `PhysicalMemory` answer: those of the turns, and those for the page of the array and its
tables. -/
structure Answers where
  released : Nat → Bool
  page : Option Entry
  alloc : Nat → Option Entry

/-- mirrors kernel/src/mm/VirtualMemory.cpp:261-268 -/
def expandVirtualMemoryMap (m : PhysMem) (root maxPhyAddr start blocks : Nat) (page : Option Entry)
    (alloc : Nat → Option Entry) : Option (Bool × PhysMem) :=
  match page with
  | none => some (false, m)
  | some page => mapPage m root maxPhyAddr page (Word.add start (Word.mul blocks blockBytes)) .high false
      (alloc 2) (alloc 1) (alloc 0)

/-- `FreeKernelHeap`. The array of blocks is in `s`, not in `m`.
mirrors kernel/src/mm/VirtualMemory.cpp:478-577,838-840 -/
def freeKernelHeap (s : State) (m : PhysMem) (root maxPhyAddr ptr pages : Nat) (o : Answers) :
    Option (Bool × State × PhysMem) :=
  if pages = 0 then some (true, s, m)
  else do
    let (ok, m) ← releaseLoop root o.released pages 0 0 ptr m
    if !ok then return (false, s, m)
    if s.ctx.availableBlockMemory = 0 then
      let (ok, m) ← expandVirtualMemoryMap m root maxPhyAddr kernelHeapManagement.start s.ctx.storedBlocks o.page o.alloc
      if !ok then return (false, s, m)
      return (true, storeBlock (expand s) ⟨ptr, pages⟩, m)
    return (true, storeBlock s ⟨ptr, pages⟩, m)

/-- The list of blocks is that of the model without page tables. -/
theorem freeKernelHeap_freeCore {s s' : State} {m m' : PhysMem} {root maxPhyAddr ptr pages : Nat} {o : Answers}
    {ok : Bool} (h : freeKernelHeap s m root maxPhyAddr ptr pages o = some (ok, s', m')) :
    ∃ released expanded, freeCore s ptr pages released expanded = (ok, s') := by
  unfold freeKernelHeap at h
  unfold freeCore
  by_cases hpages : pages = 0
  · rw [if_pos hpages] at h
    cases h
    exact ⟨true, true, by rw [if_pos hpages]⟩
  · simp only [if_neg hpages, Option.bind_eq_bind, Option.bind_eq_some_iff] at h ⊢
    obtain ⟨⟨released, m₁⟩, -, h⟩ := h
    cases released with
    | false =>
      cases h
      exact ⟨false, true, rfl⟩
    | true =>
      simp only [Bool.not_true, Bool.false_eq_true, if_false] at h
      by_cases hmemory : s.ctx.availableBlockMemory = 0
      · simp only [if_pos hmemory, Option.bind_eq_some_iff] at h
        obtain ⟨⟨expanded, m₂⟩, -, h⟩ := h
        refine ⟨true, expanded, ?_⟩
        simp only [Bool.not_true, Bool.false_eq_true, if_false, if_pos hmemory]
        cases expanded with
        | false =>
          cases h
          rfl
        | true =>
          cases h
          rfl
      · rw [if_neg hmemory] at h
        cases h
        refine ⟨true, true, ?_⟩
        simp only [Bool.not_true, Bool.false_eq_true, if_false, if_neg hmemory]

/-! ## The turns that meet a mapped page -/

/-- How many pages the turn passes over, if something is mapped. -/
def visit (m : PhysMem) (root address : Nat) : Option Nat :=
  let mapping := parseVirtualAddress address
  match readVirtual m root (getPDEAddress mapping true), readVirtual m root (getPTEAddress mapping true) with
  | some pde, some pte =>
    if (getPDEInfo pde).present then
      if (getPDEInfo pde).pageSize then some hugeRest
      else if (getPTEInfo pte).present then some 0
      else none
    else none
  | _, _ => none

/-- The turns that meet a mapped page, with the arguments of `releaseLoop`. -/
def turns (m : PhysMem) (root : Nat) : Nat → Nat → Nat → Nat → List Nat
  | 0, _, _, _ => []
  | k + 1, i, skip + 1, address => turns m root k (i + 1) skip (Word.add address frameSize)
  | k + 1, i, 0, address =>
    match visit m root address with
    | none => turns m root k (i + 1) 0 (Word.add address frameSize)
    | some skip => i :: turns m root k (i + 1) skip (Word.add address frameSize)

section
variable {m m' : PhysMem} {root a n t : Nat}

/-- The page has a PD, and a table or a large page in it. -/
def Backed (m : PhysMem) (root a : Nat) : Prop := ∃ t, Reach m a 3 root 1 t ∧ (m (slot t 1 a)).present = true

/-- The entry at level `n` maps the page. -/
structure Maps (m : PhysMem) (root a n t : Nat) : Prop where
  reach : Reach m a 3 root n t
  present : (m (slot t n a)).present = true
  ends : n = 0 ∨ n = 1 ∧ (m (slot t n a)).large = true

theorem Maps.dead (h : Maps m root a n t) : n = 0 ∨ ¬ (m (slot t n a)).Links := h.ends.imp_right fun hl hlinks => by
  rw [hlinks.2] at hl
  cases hl.2

theorem Maps.translation (h : Maps m root a n t) (hcan : Canonical a) : PageTable.translation m root a ≠ none := by
  unfold PageTable.translation
  rw [if_pos hcan, h.reach.walk]
  rcases h.ends with rfl | ⟨rfl, hlarge⟩
  · rw [walk]
    simp only [h.present, if_true]
    exact Option.some_ne_none _
  · rw [walk]
    simp only [h.present, hlarge, Bool.not_true, Bool.false_eq_true, if_false, if_true]
    exact Option.some_ne_none _

/-- The pointer to an entry of a page table, whatever the entry of the PD leads to. -/
theorem ptePointer_present (hw : Window m root root true) (ht : Reach m a 3 root 1 t)
    (hp : (m (slot t 1 a)).present = true) : PageTable.translation m root (getPTEAddress (parseVirtualAddress a) true) =
      some ((m (slot t 1 a)).frame + 8 * index 0 a) := by
  obtain ⟨s2, hs2, he2⟩ := reach_pointsTo ht (by decide)
  obtain ⟨s3, hs3, he3⟩ := reach_pointsTo hs2 (by decide)
  obtain rfl := reach_top hs3
  have hi := index_lt 0 a
  obtain ⟨h3, h2, h1, h0, hoff, hcan⟩ := pointer_indices (u := true) (k := 8 * index 0 a)
    (index_lt 3 a) (index_lt 2 a) (index_lt 1 a) (by omega)
  unfold getPTEAddress
  rw [show (parseVirtualAddress a).ptOffset = index 0 a by rw [parse_eq]]
  change PageTable.translation m s3 (getPTAddress (parseVirtualAddress a) true + 8 * index 0 a) = _
  rw [ptAddress_eq, PageTable.translation, if_pos hcan, walk_pointsTo h3 hw.entry, walk_pointsTo h2 he3,
    walk_pointsTo h1 he2, walk, hoff, show slot t 0 _ = slot t 1 a by unfold slot; rw [h0]]
  simp only [hp, if_true]

/-- What a turn reads of a page that has a PD. -/
theorem visit_eq (hw : Window m root root true) (ht : Reach m a 3 root 1 t) (hp : (m (slot t 1 a)).present = true) :
    visit m root a = if (m (slot t 1 a)).large then some hugeRest
      else if (m (slot (m (slot t 1 a)).frame 0 a)).present then some 0 else none := by
  have hpresent : (getPDEInfo (m (slot t 1 a))).present = true := (present_iff _).trans hp
  have hlarge : (getPDEInfo (m (slot t 1 a))).pageSize = (m (slot t 1 a)).large := large_iff _
  have hpte : (getPTEInfo (m (slot (m (slot t 1 a)).frame 0 a))).present =
      (m (slot (m (slot t 1 a)).frame 0 a)).present := present_iff _
  have hslot : (m (slot t 1 a)).frame + 8 * index 0 a = slot (m (slot t 1 a)).frame 0 a := rfl
  unfold visit readVirtual
  simp only [pdePointer hw ht, ptePointer_present hw ht hp, Option.map_some, hslot, hpresent, if_true, hlarge, hpte]

/-- A turn on a page that has a PD: it finds nothing, or the entry that maps the page, which it clears. -/
theorem releasePage_spec (hw : Window m root root true) (hb : Backed m root a) :
    (visit m root a = none ∧ ∀ released, releasePage m root a released = some (true, 0, m)) ∨
    ∃ n t skip, visit m root a = some skip ∧ Maps m root a n t ∧ (n = 0 ∨ n = 1 ∧ skip = hugeRest) ∧
      ∀ released, releasePage m root a released =
        some (if released then (true, skip, update m (slot t n a) 0#64) else (false, 0, m)) := by
  obtain ⟨t, ht, hp⟩ := hb
  obtain ⟨t₂, ht₂, -⟩ := ht.linked (by decide)
  have hpresent : (getPDEInfo (m (slot t 1 a))).present = true := (present_iff _).trans hp
  have hlarge : (getPDEInfo (m (slot t 1 a))).pageSize = (m (slot t 1 a)).large := large_iff _
  have hpte : (getPTEInfo (m (slot (m (slot t 1 a)).frame 0 a))).present =
      (m (slot (m (slot t 1 a)).frame 0 a)).present := present_iff _
  have hslot : (m (slot t 1 a)).frame + 8 * index 0 a = slot (m (slot t 1 a)).frame 0 a := rfl
  rw [visit_eq hw ht hp]
  unfold releasePage readVirtual writeVirtual
  simp only [Option.bind_eq_bind, pml4ePointer hw, pdptePointer hw ht₂, pdePointer hw ht, ptePointer_present hw ht hp,
    Option.map_some, Option.bind_some, hslot, hpresent, if_true, hlarge, hpte]
  by_cases hl : (m (slot t 1 a)).large = true
  · refine .inr ⟨1, t, hugeRest, by rw [if_pos hl], ⟨ht, hp, .inr ⟨rfl, hl⟩⟩, .inr ⟨rfl, rfl⟩, fun released => ?_⟩
    rw [if_pos hl]
    cases released with
    | true => rfl
    | false => rfl
  · rw [if_neg hl]
    by_cases hmapped : (m (slot (m (slot t 1 a)).frame 0 a)).present = true
    · refine .inr ⟨0, _, 0, by rw [if_pos hmapped],
        ⟨ht.next ⟨hp, Bool.eq_false_iff.mpr hl⟩, hmapped, .inl rfl⟩, .inl rfl, fun released => ?_⟩
      rw [if_neg hl, if_pos hmapped]
      cases released with
      | true => rfl
      | false => rfl
    · refine .inl ⟨by rw [if_neg hmapped], fun _ => ?_⟩
      rw [if_neg hl, if_neg hmapped]
      rfl

/-- A turn that reads the same entries finds the same. -/
theorem visit_congr (hw : Window m root root true) (hw' : Window m' root root true) (hb : Backed m root a)
    (hsame : ∀ k u, Reach m a 3 root k u → m' (slot u k a) = m (slot u k a))
    (hreach : ∀ k u, Reach m' a 3 root k u ↔ Reach m a 3 root k u) :
    Backed m' root a ∧ visit m' root a = visit m root a := by
  obtain ⟨t, ht, hp⟩ := hb
  have he := hsame 1 t ht
  have hp' : (m' (slot t 1 a)).present = true := he ▸ hp
  refine ⟨⟨t, (hreach 1 t).mpr ht, hp'⟩, ?_⟩
  rw [visit_eq hw ht hp, visit_eq hw' ((hreach 1 t).mpr ht) hp', he]
  cases hl : (m (slot t 1 a)).large with
  | true => rfl
  | false => rw [hsame 0 _ (ht.next ⟨hp, hl⟩)]

/-! ## Clearing entries -/

/-- `m'` has the tables of `m`, and translates nothing that `m` does not. -/
structure Cleared (m m' : PhysMem) (root : Nat) : Prop where
  tables : Tables m' root
  reach : ∀ b k u, Outside windows b → (Reach m' b 3 root k u ↔ Reach m b 3 root k u)
  noLarge : ∀ b, Outside windows b → NoLarge m root b → NoLarge m' root b
  lost : ∀ b, Outside windows b → PageTable.translation m root b = none → PageTable.translation m' root b = none

theorem Cleared.refl (h : Tables m root) : Cleared m m root :=
  ⟨h, fun _ _ _ _ => Iff.rfl, fun _ _ hl => hl, fun _ _ hn => hn⟩

theorem Cleared.trans {m'' : PhysMem} (h : Cleared m m' root) (h' : Cleared m' m'' root) : Cleared m m'' root where
  tables := h'.tables
  reach b k u hb := (h'.reach b k u hb).trans (h.reach b k u hb)
  noLarge b hb hl := h'.noLarge b hb (h.noLarge b hb hl)
  lost b hb hn := h'.lost b hb (h.lost b hb hn)

theorem update_sameBut (m : PhysMem) (p : Nat) (e : Entry) : SameBut m (update m p e) p fun _ => False :=
  fun _ hq _ => if_neg hq

/-- The page of the entry is not mapped any more. -/
theorem Maps.unmapped (h : Maps m root a n t) (htables : Tables m root) (ha : Outside windows a) :
    Cleared m (update m (slot t n a) 0#64) root ∧
      PageTable.translation (update m (slot t n a) 0#64) root a = none := by
  have hbut := update_sameBut m (slot t n a) 0#64
  have hzero : update m (slot t n a) 0#64 (slot t n a) = 0#64 := if_pos rfl
  have habsent : (update m (slot t n a) 0#64 (slot t n a)).present = false := by
    rw [hzero]
    rfl
  have hdead : n = 0 ∨ ¬ (m (slot t n a)).Links ∧ ¬ (update m (slot t n a) 0#64 (slot t n a)).Links :=
    h.dead.imp_right fun hl => ⟨hl, fun hlinks => by rw [hlinks.1] at habsent; cases habsent⟩
  have hreach : ∀ b k u, Outside windows b →
      (Reach (update m (slot t n a) 0#64) b 3 root k u ↔ Reach m b 3 root k u) := fun b k u hb =>
    htables.tree.reach_dead hb ha h.reach hbut hdead
  have hnone : ∀ b, Outside windows b → SamePath n b a →
      PageTable.translation (update m (slot t n a) 0#64) root b = none := fun b _ hp =>
    translation_absent hp h.reach.le ((hreach a n t ha).mpr h.reach) habsent
  refine ⟨⟨dead_tables htables ha h.reach hbut hdead, hreach, fun b hb hl k u hr hk hp => ?_, fun b hb hn => ?_⟩,
    hnone a ha fun _ _ _ => rfl⟩
  · have hr := (hreach b k u hb).mp hr
    obtain ⟨rfl, rfl, hpath⟩ | he := htables.tree.reads (fun _ hf => hf.elim) hb ha h.reach hbut hr
    · have hslot : slot u k b = slot u k a := by
        unfold slot
        rw [hpath k (Nat.le_refl k) hr.le]
      rw [hslot, habsent] at hp
      cases hp
    · rw [he] at hp ⊢
      exact hl k u hr hk hp
  · by_cases hp : SamePath n b a
    · exact hnone b hb hp
    · exact (htables.tree.translate_other hb ha h.reach hbut hp).trans hn

/-- A page on another path is as before. -/
theorem Maps.visit_other {b : Nat} (h : Maps m root a n t) (htables : Tables m root) (ha : Outside windows a)
    (hb : Outside windows b) (hback : Backed m root b) (hp : ¬ SamePath n b a) :
    Backed (update m (slot t n a) 0#64) root b ∧ visit (update m (slot t n a) 0#64) root b = visit m root b := by
  have hcleared := (h.unmapped htables ha).1
  refine visit_congr htables.window hcleared.tables.window hback (fun k u hr => ?_) fun k u => hcleared.reach b k u hb
  obtain ⟨-, -, hpath⟩ | he := htables.tree.reads (fun _ hf => hf.elim) hb ha h.reach (update_sameBut m _ 0#64) hr
  · exact absurd hpath hp
  · exact he

end

/-! ## The loop -/

/-- The pages lie in the kernel heap. -/
def InHeap (address pages : Nat) : Prop := kernelHeap.start ≤ address ∧ address + pages * 4096 ≤ kernelHeap.end

theorem kernelHeap_eq : kernelHeap.start = 0xFFFF810000000000 ∧ kernelHeap.end = 0xFFFFFE8000000000 := by decide

/-- Addresses of the management zone and of the heap. -/
theorem heap_address {a : Nat} (h : 0xFFFF808000000000 ≤ a) (h' : a < 0xFFFFFE8000000000) :
    Canonical a ∧ Outside windows a := by
  constructor
  · unfold Canonical
    omega
  · have hi : 257 ≤ index 3 a ∧ index 3 a < 509 := by
      unfold index
      simp only [Nat.reduceMul, Nat.reduceAdd, Nat.reducePow]
      omega
    have ht : windowIndex true = 510 := by decide
    have hf : windowIndex false = 509 := by decide
    unfold Outside windows
    omega

section
variable {m m' : PhysMem} {root address k i j : Nat}

theorem InHeap.page (h : InHeap address k) (hj : j < k) :
    Canonical (address + j * 4096) ∧ Outside windows (address + j * 4096) := by
  unfold InHeap at h
  rw [kernelHeap_eq.1, kernelHeap_eq.2] at h
  exact heap_address (by omega) (by omega)

theorem InHeap.next (h : InHeap address (k + 1)) :
    Word.add address frameSize = address + 4096 ∧ InHeap (address + 4096) k := by
  unfold InHeap at h ⊢
  rw [kernelHeap_eq.1, kernelHeap_eq.2] at h ⊢
  exact ⟨Word.add_eq (by rw [show frameSize = 4096 from rfl]; omega), by omega, by omega⟩

/-- The turns of pages that look the same. -/
theorem turns_congr : ∀ (k i skip address : Nat), InHeap address k →
    (∀ j, skip ≤ j → j < k → visit m' root (address + j * 4096) = visit m root (address + j * 4096)) →
    turns m' root k i skip address = turns m root k i skip address
  | 0, _, _, _, _, _ => rfl
  | k + 1, i, skip + 1, address, h, hsame => by
    rw [turns, turns, h.next.1]
    refine turns_congr k (i + 1) skip (address + 4096) h.next.2 fun j h1 h2 => ?_
    have hpage := hsame (j + 1) (by omega) (by omega)
    rwa [show address + (j + 1) * 4096 = address + 4096 + j * 4096 by omega] at hpage
  | k + 1, i, 0, address, h, hsame => by
    have hfirst := hsame 0 (Nat.le_refl 0) (Nat.succ_pos k)
    rw [Nat.zero_mul, Nat.add_zero] at hfirst
    have hrest : ∀ skip, turns m' root k (i + 1) skip (address + 4096) =
        turns m root k (i + 1) skip (address + 4096) := fun skip =>
      turns_congr k (i + 1) skip (address + 4096) h.next.2 fun j _ h2 => by
        have hpage := hsame (j + 1) (Nat.zero_le _) (by omega)
        rwa [show address + (j + 1) * 4096 = address + 4096 + j * 4096 by omega] at hpage
    rw [turns, turns, h.next.1, hfirst]
    cases visit m root address with
    | none => exact hrest 0
    | some skip => exact congrArg (i :: ·) (hrest skip)

/-- What the loop leaves, if `met` are the turns that meet a mapped page: it succeeds if all of them get their frame
given back; it leaves the memory alone if the first one does not, and else unmaps a page of the range. -/
structure Outcome (m m' : PhysMem) (root : Nat) (released : Nat → Bool) (address pages : Nat) (met : List Nat)
    (ok : Bool) : Prop where
  cleared : Cleared m m' root
  succeeds : ok = true ↔ ∀ x ∈ met, released x = true
  nothing : (∀ x ∈ met.head?, released x = false) → m' = m
  unmapped : ∀ x ∈ met.head?, released x = true → ∃ b, address ≤ b ∧ b < address + pages * 4096 ∧
    translation m root b ≠ none ∧ translation m' root b = none

/-- The range may begin earlier. -/
theorem Outcome.widen {released : Nat → Bool} {met : List Nat} {ok : Bool}
    (h : Outcome m m' root released (address + 4096) k met ok) : Outcome m m' root released address (k + 1) met ok :=
  { h with
    unmapped := fun x hx hreleased => by
      obtain ⟨b, h1, h2, hb⟩ := h.unmapped x hx hreleased
      exact ⟨b, by omega, by omega, hb⟩ }

theorem releaseLoop_spec (released : Nat → Bool) : ∀ (k i skip address : Nat) (m : PhysMem), InHeap address k →
    Tables m root → (∀ j, skip ≤ j → j < k → Backed m root (address + j * 4096)) →
    ∃ ok m', releaseLoop root released k i skip address m = some (ok, m') ∧
      Outcome m m' root released address k (turns m root k i skip address) ok
  | 0, i, skip, address, m, _, h, _ =>
    ⟨true, m, rfl, .refl h, ⟨fun _ x hx => absurd hx List.not_mem_nil, fun _ => rfl⟩, fun _ => rfl,
      fun x hx => by cases hx⟩
  | k + 1, i, skip + 1, address, m, hheap, h, hback => by
    rw [releaseLoop, turns, hheap.next.1]
    obtain ⟨ok, m', hrun, ho⟩ := releaseLoop_spec released k (i + 1) skip (address + 4096) m hheap.next.2 h
      fun j h1 h2 => by
        have hpage := hback (j + 1) (by omega) (by omega)
        rwa [show address + (j + 1) * 4096 = address + 4096 + j * 4096 by omega] at hpage
    exact ⟨ok, m', hrun, ho.widen⟩
  | k + 1, i, 0, address, m, hheap, h, hback => by
    obtain ⟨hcan, hout⟩ := hheap.page (Nat.succ_pos k)
    have hfirst := hback 0 (Nat.le_refl 0) (Nat.succ_pos k)
    rw [Nat.zero_mul, Nat.add_zero] at hcan hout hfirst
    have hothers : ∀ j, j < k → Backed m root (address + 4096 + j * 4096) := fun j hj => by
      have hpage := hback (j + 1) (Nat.zero_le _) (by omega)
      rwa [show address + (j + 1) * 4096 = address + 4096 + j * 4096 by omega] at hpage
    rw [releaseLoop, turns, hheap.next.1]
    simp only [Option.bind_eq_bind]
    rcases releasePage_spec h.window hfirst with ⟨hv, hpage⟩ | ⟨n, t, skip, hv, hmaps, hskip, hpage⟩
    · simp only [hv, hpage, Option.bind_some, Bool.not_true, Bool.false_eq_true, if_false]
      obtain ⟨ok, m', hrun, ho⟩ := releaseLoop_spec released k (i + 1) 0 (address + 4096) m hheap.next.2 h
        fun j _ h2 => hothers j h2
      exact ⟨ok, m', hrun, ho.widen⟩
    · simp only [hv, hpage, Option.bind_some]
      cases hr : released i with
      | false =>
        refine ⟨false, m, rfl, .refl h, ⟨fun hok => absurd hok Bool.false_ne_true, fun hall => ?_⟩,
          fun _ => rfl, fun x hx hreleased => ?_⟩
        · rw [hall i List.mem_cons_self] at hr
          cases hr
        · cases hx
          rw [hr] at hreleased
          cases hreleased
      | true =>
        simp only [if_true, Bool.not_true, Bool.false_eq_true, if_false]
        obtain ⟨hcleared, hnone⟩ := hmaps.unmapped h hout
        -- the pages that are not passed over lie on other paths
        have hkept : ∀ j, skip ≤ j → j < k →
            Backed (update m (slot t n address) 0#64) root (address + 4096 + j * 4096) ∧
            visit (update m (slot t n address) 0#64) root (address + 4096 + j * 4096) =
              visit m root (address + 4096 + j * 4096) := fun j h1 h2 => by
          obtain ⟨hcan', hout'⟩ := hheap.next.2.page h2
          refine hmaps.visit_other h hout hout' (hothers j h2) fun hpath => ?_
          rcases hskip with rfl | ⟨rfl, rfl⟩
          · have hsame := samePath_page hcan' hcan hpath
            omega
          · have hsame := samePath_large hcan' hcan hpath
            rw [show hugeRest = 511 by decide] at h1
            omega
        obtain ⟨ok, m', hrun, ho⟩ := releaseLoop_spec released k (i + 1) skip (address + 4096) _ hheap.next.2
          hcleared.tables fun j h1 h2 => (hkept j h1 h2).1
        rw [turns_congr k (i + 1) skip (address + 4096) hheap.next.2 fun j h1 h2 => (hkept j h1 h2).2] at ho
        refine ⟨ok, m', hrun, hcleared.trans ho.cleared, ho.succeeds.trans ?_, fun hnothing => ?_, fun x _ _ => ?_⟩
        · rw [List.forall_mem_cons]
          exact ⟨fun hall => ⟨hr, hall⟩, And.right⟩
        · rw [hnothing i rfl] at hr
          cases hr
        · exact ⟨address, Nat.le_refl _, by omega, hmaps.translation hcan, ho.cleared.lost address hout hnone⟩

end

/-! ## Failures -/

/-- The page that `ExpandVirtualMemoryMap` maps. -/
def blockAddress (s : State) : Nat := Word.add kernelHeapManagement.start (Word.mul s.ctx.storedBlocks blockBytes)

/-- The array gets its page: there are frames for it and for its tables, and both addresses are aligned. -/
def Expandable (s : State) (m : PhysMem) (root : Nat) (o : Answers) : Prop :=
  (∃ page, o.page = some page ∧ page.toNat % 4096 = 0) ∧ blockAddress s % 4096 = 0 ∧
    Granted m root (blockAddress s) o.alloc

/-- Nothing is mapped in the range or the first frame of it cannot be given back; or all of them can be given back
and the array, if it is full, gets its page. -/
def FreeGranted (s : State) (m : PhysMem) (root ptr pages : Nat) (o : Answers) : Prop :=
  (∀ x ∈ (turns m root pages 0 0 ptr).head?, o.released x = false) ∨
    (∀ x ∈ turns m root pages 0 0 ptr, o.released x = true) ∧
      (s.ctx.availableBlockMemory = 0 → Expandable s m root o)

/-- A call that fails leaves the list of blocks, the counters and the translations of the range as they were. -/
def FreeFailureKeeps (s : State) (m : PhysMem) (root maxPhyAddr ptr pages : Nat) (o : Answers) : Prop :=
  ∀ s' m', freeKernelHeap s m root maxPhyAddr ptr pages o = some (false, s', m') →
    s' = s ∧ ∀ a, ptr ≤ a → a < ptr + pages * 4096 → translation m' root a = translation m root a

/-- The state `FreeKernelHeap` works on: a range of the heap with its tables, and an array within its zone, which is
large enough for a block for each page of the heap. -/
structure FreeReady (s : State) (m : PhysMem) (root maxPhyAddr ptr pages : Nat) (o : Answers) : Prop where
  tables : Tables m root
  inside : InHeap ptr pages
  backed : ∀ j, j < pages → Backed m root (ptr + j * 4096)
  array : s.ctx.storedBlocks * blockBytes < kernelHeapManagement.limit
  small : NoLarge m root (blockAddress s)
  alloc : GoodAlloc m root maxPhyAddr o.alloc

section
variable {s : State} {m m₁ : PhysMem} {root maxPhyAddr ptr pages : Nat} {o : Answers}

theorem blockAddress_inside (h : s.ctx.storedBlocks * blockBytes < kernelHeapManagement.limit) :
    Canonical (blockAddress s) ∧ Outside windows (blockAddress s) := by
  rw [show kernelHeapManagement.limit = 0x8000000000 by decide] at h
  have hmul : Word.mul s.ctx.storedBlocks blockBytes = s.ctx.storedBlocks * blockBytes :=
    Nat.mod_eq_of_lt (by omega)
  have haddress : blockAddress s = 0xFFFF808000000000 + s.ctx.storedBlocks * blockBytes := by
    unfold blockAddress
    rw [hmul, show kernelHeapManagement.start = 0xFFFF808000000000 by decide, Word.add_eq (by omega)]
  rw [haddress]
  exact heap_address (by omega) (by omega)

/-- The array after the loop: it gets its page under the condition on the memory before, and a failure changes no
translation. -/
theorem expand_spec (h : FreeReady s m root maxPhyAddr ptr pages o) (hc : Cleared m m₁ root) :
    ∃ ok m₂, expandVirtualMemoryMap m₁ root maxPhyAddr kernelHeapManagement.start s.ctx.storedBlocks o.page o.alloc =
        some (ok, m₂) ∧ (ok = true ↔ Expandable s m root o) ∧
      (ok = false → ∀ a, Outside windows a → translation m₂ root a = translation m₁ root a) := by
  obtain ⟨hcan, hout⟩ := blockAddress_inside h.array
  unfold expandVirtualMemoryMap Expandable
  change ∃ ok m₂, (match o.page with
    | none => some (false, m₁)
    | some page => mapPage m₁ root maxPhyAddr page (blockAddress s) .high false (o.alloc 2) (o.alloc 1) (o.alloc 0)) =
      some (ok, m₂) ∧ _
  cases o.page with
  | none =>
    refine ⟨false, m₁, rfl, ⟨fun hok => absurd hok Bool.false_ne_true, ?_⟩, fun _ _ _ => rfl⟩
    rintro ⟨⟨page, hpage, -⟩, -⟩
    cases hpage
  | some page =>
    by_cases haligned : page.toNat % 4096 = 0 ∧ blockAddress s % 4096 = 0
    · have halloc : GoodAlloc m₁ root maxPhyAddr o.alloc :=
        ⟨fun n p hp => ⟨(h.alloc.good n p hp).1, (h.alloc.good n p hp).2.aligned, fun b k u hb hr =>
          (h.alloc.good n p hp).2.unused b k u hb ((hc.reach b k u hb).mp hr)⟩, h.alloc.once⟩
      have hgranted : Granted m₁ root (blockAddress s) o.alloc ↔ Granted m root (blockAddress s) o.alloc := by
        unfold Granted
        simp only [hc.reach _ _ _ hout]
      obtain ⟨ok, m₂, hrun, hadded⟩ := mapPage_granted page .high hc.tables haligned.1 haligned.2 hcan hout
        (hc.noLarge _ hout h.small) halloc
      refine ⟨ok, m₂, hrun, (hadded.granted.trans hgranted).trans ⟨fun hg => ⟨⟨page, rfl, haligned.1⟩, haligned.2, hg⟩,
        fun hg => hg.2.2⟩, fun hok a ha => hadded.same a ha fun hok' => ?_⟩
      rw [hok'] at hok
      cases hok
    · refine ⟨false, m₁, mapPage_unaligned haligned, ⟨fun hok => absurd hok Bool.false_ne_true, ?_⟩, fun _ _ _ => rfl⟩
      rintro ⟨⟨page', hpage, hphys⟩, hvirt, -⟩
      cases hpage
      exact absurd ⟨hphys, hvirt⟩ haligned

/-- For every list of blocks, range, state of the tables and answer of the allocator: `FreeKernelHeap` returns, and a
failure means that nothing has changed exactly under `FreeGranted`. -/
theorem free_failure_iff (h : FreeReady s m root maxPhyAddr ptr pages o) :
    (freeKernelHeap s m root maxPhyAddr ptr pages o).isSome = true ∧
    (FreeFailureKeeps s m root maxPhyAddr ptr pages o ↔ FreeGranted s m root ptr pages o) := by
  unfold FreeFailureKeeps FreeGranted freeKernelHeap
  by_cases hpages : pages = 0
  · subst hpages
    simp only [if_true]
    refine ⟨rfl, fun _ => .inl fun x hx => ?_, fun _ s' m' hrun => ?_⟩
    · cases hx
    · cases hrun
  · obtain ⟨ok, m₁, hrun, ho⟩ := releaseLoop_spec o.released pages 0 0 ptr m h.inside h.tables
      fun j _ hj => h.backed j hj
    have houtside : ∀ a, ptr ≤ a → a < ptr + pages * 4096 → Outside windows a := fun a h1 h2 => by
      have hheap := h.inside
      unfold InHeap at hheap
      rw [kernelHeap_eq.1, kernelHeap_eq.2] at hheap
      exact (heap_address (by omega) (by omega)).2
    -- a mapped page of the range is lost unless nothing was given back
    have hlost : ∀ m₂, (∀ a, Outside windows a → translation m₂ root a = translation m₁ root a) →
        ((∀ a, ptr ≤ a → a < ptr + pages * 4096 → translation m₂ root a = translation m root a) ↔
          ∀ x ∈ (turns m root pages 0 0 ptr).head?, o.released x = false) := fun m₂ hsame => by
      constructor
      · intro hall x hx
        refine Bool.eq_false_iff.mpr fun hreleased => ?_
        obtain ⟨b, h1, h2, hsome, hnone⟩ := ho.unmapped x hx hreleased
        rw [← hall b h1 h2, hsame b (houtside b h1 h2)] at hsome
        exact hsome hnone
      · intro hnothing a h1 h2
        rw [hsame a (houtside a h1 h2), ho.nothing hnothing]
    simp only [if_neg hpages, Option.bind_eq_bind, hrun, Option.bind_some]
    cases ok with
    | false =>
      simp only [Bool.not_false, if_true]
      refine ⟨rfl, fun hkeeps => .inl ((hlost m₁ fun _ _ => rfl).mp (hkeeps s m₁ rfl).2), fun hcond s' m' hret => ?_⟩
      cases hret
      rcases hcond with hnothing | ⟨hall, -⟩
      · exact ⟨rfl, (hlost m₁ fun _ _ => rfl).mpr hnothing⟩
      · exact absurd (ho.succeeds.mpr hall) Bool.false_ne_true
    | true =>
      have hall := ho.succeeds.mp rfl
      simp only [Bool.not_true, Bool.false_eq_true, if_false]
      by_cases hmemory : s.ctx.availableBlockMemory = 0
      · obtain ⟨ok, m₂, hexpand, hgranted, hsame⟩ := expand_spec h ho.cleared
        simp only [if_pos hmemory, hexpand, Option.bind_some]
        cases ok with
        | false =>
          simp only [Bool.not_false, if_true]
          refine ⟨rfl, fun hkeeps => .inl ((hlost m₂ (hsame rfl)).mp (hkeeps s m₂ rfl).2), fun hcond s' m' hret => ?_⟩
          cases hret
          rcases hcond with hnothing | ⟨-, hexpandable⟩
          · exact ⟨rfl, (hlost m₂ (hsame rfl)).mpr hnothing⟩
          · exact absurd (hgranted.mpr (hexpandable hmemory)) Bool.false_ne_true
        | true =>
          simp only [Bool.not_true, Bool.false_eq_true, if_false]
          exact ⟨rfl, fun _ => .inr ⟨hall, fun _ => hgranted.mp rfl⟩, fun _ s' m' hret => by cases hret⟩
      · simp only [if_neg hmemory]
        exact ⟨rfl, fun _ => .inr ⟨hall, fun hzero => absurd hzero hmemory⟩, fun _ s' m' hret => by cases hret⟩

end

/-- For every state of the zone, the heap and the tables, and at every point at which an allocation is refused: both
functions return; a null pointer and a failure mean that nothing has changed exactly under these conditions. -/
theorem failed_operations_iff {s : State} {m : PhysMem} {root maxPhyAddr ptr pages : Nat}
    {allocs : Nat → Nat → Option Entry} {o : Answers} (bitmap : ByteMap) (dmaPages : Nat) (hd : DmaMapping.DmaReady m root maxPhyAddr allocs)
    (hf : FreeReady s m root maxPhyAddr ptr pages o) :
    ((DmaMapping.allocateDMA bitmap m root maxPhyAddr dmaPages allocs).isSome = true ∧
      (DmaMapping.DmaNullKeeps bitmap m root maxPhyAddr dmaPages allocs ↔
        DmaMapping.DmaGranted bitmap m root dmaPages allocs)) ∧
    (freeKernelHeap s m root maxPhyAddr ptr pages o).isSome = true ∧
      (FreeFailureKeeps s m root maxPhyAddr ptr pages o ↔ FreeGranted s m root ptr pages o) :=
  ⟨DmaMapping.dma_null_iff bitmap dmaPages hd, free_failure_iff hf⟩

/-! ## A heap with one page -/

/-- A root at `0x1000` with the first page of the heap, on the frame `0x9000`, and the first page table of the
management zone. -/
def heapRoot : PhysMem := fun p =>
  if p = 0x1000 + 8 * 510 then 0x1003#64
  else if p = 0x1000 + 8 * 258 then 0x2003#64
  else if p = 0x2000 then 0x3003#64
  else if p = 0x3000 then 0x4003#64
  else if p = 0x4000 then 0x9003#64
  else if p = 0x1000 + 8 * 257 then 0x5003#64
  else if p = 0x5000 then 0x6003#64
  else if p = 0x6000 then 0x7003#64
  else 0#64

/-- The array has filled its first page table. -/
def fullArray : State where
  ctx := ⟨0, 0, 131072⟩
  blocks := fun i => ⟨kernelHeap.start + (2 * i + 1) * frameSize, 1⟩
  blockPages := fun p => decide (p < 512)

/-- The frame of the page is given back, and is the only one that is left. -/
def oneFrame : Answers where
  released := fun _ => true
  page := some 0x9000#64
  alloc := fun _ => none

/-- The tables of `heapRoot`. -/
def heapPaths : List (Nat × List Nat) :=
  [(0x1000, []), (0x2000, [258]), (0x3000, [258, 0]), (0x4000, [258, 0, 0]), (0x5000, [257]), (0x6000, [257, 0]),
    (0x7000, [257, 0, 0])]

theorem charted_heapRoot : Charted heapRoot 0x1000 windows heapPaths :=
  ⟨by decide, by decide, by decide, by decide +kernel⟩

theorem tables_heapRoot : Tables heapRoot 0x1000 := ⟨charted_heapRoot.tree, by decide⟩

theorem small_heapRoot (p : Nat) : (heapRoot p).large = false := by
  unfold heapRoot
  split_ifs <;> rfl

theorem dmaReady_heapRoot : DmaMapping.DmaReady heapRoot 0x1000 48 fun _ _ => none where
  tables := tables_heapRoot
  small _ _ _ _ _ _ _ := small_heapRoot _
  good _ _ _ h := by cases h
  once _ _ _ _ _ h := by cases h

theorem freeReady_heapRoot : FreeReady fullArray heapRoot 0x1000 48 kernelHeap.start 1 oneFrame where
  tables := tables_heapRoot
  inside := by
    unfold InHeap
    decide
  backed j hj := by
    obtain rfl : j = 0 := by omega
    have hroot : (heapRoot (slot 0x1000 3 (kernelHeap.start + 0 * 4096))).Links := by decide
    have hpdpt : (heapRoot (slot 0x2000 2 (kernelHeap.start + 0 * 4096))).Links := by decide
    exact ⟨0x3000, .down hroot (.down hpdpt (.here _ _)), by decide⟩
  array := by decide
  small _ _ _ _ _ := small_heapRoot _
  alloc :=
    { good := fun _ _ h => by cases h
      once := fun _ _ _ h => by cases h }

theorem failed_operations_one_frame :
    (DmaMapping.DmaNullKeeps (DmaZone.setupDMA fun _ => 0#8) heapRoot 0x1000 48 1 (fun _ _ => none) ↔
      DmaMapping.DmaGranted (DmaZone.setupDMA fun _ => 0#8) heapRoot 0x1000 1 fun _ _ => none) ∧
    (FreeFailureKeeps fullArray heapRoot 0x1000 48 kernelHeap.start 1 oneFrame ↔
      FreeGranted fullArray heapRoot 0x1000 kernelHeap.start 1 oneFrame) := by
  have hboth := failed_operations_iff (DmaZone.setupDMA fun _ => 0#8) 1 dmaReady_heapRoot freeReady_heapRoot
  exact ⟨hboth.1.2, hboth.2.2⟩

/-- The frames are refused in the middle. `AllocateDMA` finds page 1 and has no frame for a table: it returns null,
and the page stays marked. `FreeKernelHeap` gives the only page of the heap back; the frame goes to the array, whose
next page table has none, so that the call fails with the page unmapped. -/
theorem one_frame_lost :
    ¬ DmaMapping.DmaNullKeeps (DmaZone.setupDMA fun _ => 0#8) heapRoot 0x1000 48 1 (fun _ _ => none) ∧
    ¬ FreeFailureKeeps fullArray heapRoot 0x1000 48 kernelHeap.start 1 oneFrame := by
  have hdma := (DmaMapping.dma_null_iff (DmaZone.setupDMA fun _ => 0#8) 1 dmaReady_heapRoot).2
  have hfree := (free_failure_iff freeReady_heapRoot).2
  constructor
  · rw [hdma]
    have hrun : DmaZone.Run (DmaZone.setupDMA fun _ => 0#8) 1 1 := by
      refine ⟨by decide, fun p h1 h2 => ?_⟩
      obtain rfl : p = 1 := by omega
      decide
    rintro (h | h | ⟨start, hstart, hfirst, hne, hgranted⟩)
    · cases h
    · exact h 1 hrun
    · obtain rfl : start = 1 := by
        have := hfirst 1 hrun
        omega
      rcases hgranted 0 (by decide) 2 (by decide) with ⟨u, hu⟩ | ⟨j, hj, -⟩ | h
      · have hindex : index 3 (DmaMapping.dmaPage 1 0) = 0 := by decide
        have hout : Outside windows (DmaMapping.dmaPage 1 0) := by
          unfold Outside windows
          rw [hindex]
          decide
        have hr := charted_heapRoot.reach hout hu
        simp [heapPaths, indices, hindex] at hr
      · cases hj
      · exact h rfl
  · rw [hfree]
    have hturns : turns heapRoot 0x1000 1 0 0 kernelHeap.start = [0] := by decide
    have hnext : index 1 (blockAddress fullArray) = 1 := by decide
    unfold FreeGranted
    rw [hturns]
    rintro (h | ⟨-, hexpandable⟩)
    · cases h 0 rfl
    · obtain ⟨-, -, hgranted⟩ := hexpandable rfl
      rcases hgranted 0 (by decide) with ⟨u, hu⟩ | h
      · have hr := charted_heapRoot.reach (blockAddress_inside freeReady_heapRoot.array).2 hu
        simp [heapPaths, indices, List.range_succ, hnext] at hr
      · exact h rfl

end BadLands.Mm.KernelHeapFree
