import BadLands.Mm.AddressSpace

/-!
# The scan of the window with its frames

`MapGeneralPages` for one page, with the frames it takes. It goes over the pages that are mapped to the first one that
is not. If that one has its tables, no frame is taken and the page is used; else a frame is asked for, and a frame that
is granted stays taken, whatever happens next (`mapGeneralPages_scanned`).
-/
namespace BadLands.Mm.AddressSpace

open BadLands.Core BadLands.Core.PageTable BadLands.Mm.Layout BadLands.Mm.Paging

/-- What the scan works on: the tables of the current root, and frames still to come that are no tables. -/
structure Scannable (supply : Supply) (root maxPhyAddr : Nat) (w : World) : Prop where
  tables : Tables w.mem root
  kernel : (w.mem (root + 8 * 256)).Links
  small : ∀ i, i < gpPages → NoLarge w.mem root (generalPage i)
  unused : ∀ s p, supply s = some p → p ∉ s
  next : ∀ s p, supply s = some p → p ∉ w.taken → GoodPage w.mem root maxPhyAddr p

/-- `m'` is `m` up to the pages `new` and the entries of the window. -/
def Confined (m m' : PhysMem) (root : Nat) (new : List Entry) : Prop :=
  ∀ q, (∀ p ∈ new, ¬ (p.toNat ≤ q ∧ q < p.toNat + 4096)) →
    (∀ a k u, index 3 a = 256 → Reach m' a 3 root k u → q ≠ slot u k a) → m' q = m q

/-- `w'` is `w` with tables on the frames `new`. -/
structure Added (supply : Supply) (root : Nat) (w w' : World) (new : List Entry) : Prop where
  taken : w'.taken = new ++ w.taken
  supplied : ∀ p ∈ new, p ∉ w.taken ∧ ∃ s, supply s = some p
  freed : w'.freed = w.freed
  grown : Grown w.mem w'.mem root (· ∈ new)
  confined : Confined w.mem w'.mem root new
  same : new = [] → w'.mem = w.mem

/-- The page has its tables. -/
def HasTables (m : PhysMem) (root i : Nat) : Prop := ∃ t, Reach m (generalPage i) 3 root 0 t

section
variable {supply : Supply} {root maxPhyAddr : Nat} {w w' w'' : World} {new new' : List Entry} {i : Nat}

theorem outside_general {a : Nat} (h : index 3 a = 256) : Outside windows a := by
  unfold Outside windows
  rw [h]
  decide

theorem Added.trans (h : Added supply root w w' new) (h' : Added supply root w' w'' new') :
    Added supply root w w'' (new' ++ new) where
  taken := by rw [h'.taken, h.taken, List.append_assoc]
  supplied p hp := by
    rcases List.mem_append.mp hp with hp | hp
    · obtain ⟨hnot, hs⟩ := h'.supplied p hp
      rw [h.taken, List.mem_append, not_or] at hnot
      exact ⟨hnot.2, hs⟩
    · exact h.supplied p hp
  freed := h'.freed.trans h.freed
  grown := h.grown.trans h'.grown (fun p hp => List.mem_append_right _ hp) fun p hp => List.mem_append_left _ hp
  confined q hnew hslot := by
    rw [h'.confined q (fun p hp => hnew p (List.mem_append_left _ hp)) hslot]
    refine h.confined q (fun p hp => hnew p (List.mem_append_right _ hp)) fun a k u ha hr => ?_
    exact hslot a k u ha (h'.grown.reach a k u (outside_general ha) hr)
  same hnil := by
    rw [List.append_eq_nil_iff] at hnil
    rw [h'.same hnil.1, h.same hnil.2]

/-- Nothing was taken, and nothing is different. -/
theorem Added.eq_of_nil (h : Added supply root w w' []) : w' = w := by
  obtain ⟨m, taken, freed⟩ := w
  obtain ⟨m', taken', freed'⟩ := w'
  have hm := h.same rfl
  have ht := h.taken
  have hf := h.freed
  dsimp only at hm ht hf
  rw [hm, hf, ht]
  rfl

theorem Scannable.added (h : Scannable supply root maxPhyAddr w) (ha : Added supply root w w' new) :
    Scannable supply root maxPhyAddr w' where
  tables := ha.grown.tables
  kernel := by
    have hout := generalPage_outside (show 0 < gpPages by rw [gpPages_eq]; decide)
    have hslot : slot root 3 (generalPage 0) = root + 8 * 256 := by
      unfold slot
      rw [generalPage_index (by rw [gpPages_eq]; decide)]
    have htop : Reach w.mem (generalPage 0) 3 root 2 (w.mem (slot root 3 (generalPage 0))).frame :=
      .down (by rw [hslot]; exact h.kernel) (.here _ _)
    obtain ⟨t, ht, hl, -⟩ := (ha.grown.reach _ _ _ hout htop).linked (by decide)
    rw [reach_top ht, hslot] at hl
    exact hl
  small i hi := ha.grown.noLarge _ (generalPage_outside hi) (h.small i hi)
  unused := h.unused
  next s p hp hnot := by
    rw [ha.taken, List.mem_append, not_or] at hnot
    refine ha.grown.goodPage (h.next s p hp hnot.2) ?_
    rintro q hq rfl
    exact hnot.1 hq

/-! ## One page -/

/-- One level of the walk of a page. A frame is taken exactly if the table is missing and there is one. -/
theorem ensureTable_added {va n t entryPtr tablePtr : Nat} (h : Scannable supply root maxPhyAddr w)
    (hva : index 3 va = 256) (hlarge : NoLarge w.mem root va) (ht : Reach w.mem va 3 root (n + 1) t)
    (hptr : Pointers root va n entryPtr tablePtr) :
    ∃ ok w' new, ensureTable supply w root maxPhyAddr false generalLink entryPtr tablePtr = some (ok, w') ∧
      Added supply root w w' new ∧ (ok = true → ∃ u, Reach w'.mem va 3 root n u) ∧
      ((∃ u, Reach w.mem va 3 root n u) → ok = true ∧ new = []) ∧
      ((¬ ∃ u, Reach w.mem va 3 root n u) → new = (supply w.taken).toList ∧ (ok = true ↔ supply w.taken ≠ none)) := by
  have hout := outside_general hva
  have hread : readVirtual w.mem root entryPtr = some (w.mem (slot t (n + 1) va)) := by
    unfold readVirtual
    rw [hptr.entry _ t h.tables.window ht]
    rfl
  obtain ⟨ok, m', hrun, he⟩ := ensureTable_ensured h.tables hout hlarge ht hptr generalLink_eq
    fun p hp => h.next _ p hp (h.unused _ p hp)
  have hthere : (∃ u, Reach w.mem va 3 root n u) ↔ (w.mem (slot t (n + 1) va)).present = true := by
    constructor
    · rintro ⟨u, hu⟩
      obtain ⟨v, hv, hl, -⟩ := hu.linked (by have := ht.le; omega)
      rw [hv.unique ht] at hl
      exact hl.1
    · intro hp
      exact ⟨_, ht.next ⟨hp, hlarge (n + 1) t ht (by omega) hp⟩⟩
  have hconfined : ∀ new, (∀ p, supply w.taken = some p → p ∈ new) → Confined w.mem m' root new := by
    intro new hnew q hpages hslot
    obtain ⟨t', ht', hsame⟩ := he.confined
    refine hsame q (hslot va (n + 1) t' hva ht') ?_
    rintro f ⟨p, hp, rfl⟩
    exact hpages p (hnew p hp)
  unfold ensureTable
  simp only [Option.bind_eq_bind, hread, Option.bind_some, hrun, present_iff]
  by_cases hp : (w.mem (slot t (n + 1) va)).present = true
  · have hsame := he.same (.inl (hthere.mpr hp))
    rw [if_pos hp]
    refine ⟨ok, _, [], rfl, ⟨rfl, (fun _ hp => by cases hp), rfl, ?_, fun q _ _ => congrFun hsame q, fun _ => hsame⟩,
      he.found, fun hu => ⟨he.granted.mpr (.inl hu), rfl⟩, fun hno => absurd (hthere.mpr hp) hno⟩
    change Grown w.mem m' root _
    rw [hsame]
    exact .refl h.tables
  · have hno : ¬ ∃ u, Reach w.mem va 3 root n u := fun hu => hp (hthere.mp hu)
    rw [if_neg hp]
    refine ⟨ok, _, (supply w.taken).toList, rfl, ⟨rfl, fun p hp => ?_, rfl, he.grown.mono fun p hp => ?_,
      hconfined _ fun p hp => ?_, fun hnil => he.same (.inr ?_)⟩, he.found, fun hu => absurd hu hno, fun _ => ⟨rfl, ?_⟩⟩
    · rw [Option.mem_toList] at hp
      exact ⟨h.unused _ p hp, _, hp⟩
    · rw [hp]
      exact List.mem_singleton_self p
    · rw [hp]
      exact List.mem_singleton_self p
    · rwa [Option.toList_eq_nil_iff] at hnil
    · rw [he.granted]
      exact ⟨fun hor => hor.resolve_left hno, .inr⟩

/-- The PDPT of the page. -/
theorem Scannable.reach_pdpt (h : Scannable supply root maxPhyAddr w) (hi : i < gpPages) :
    ∃ t, Reach w.mem (generalPage i) 3 root 2 t := by
  have hslot : slot root 3 (generalPage i) = root + 8 * 256 := by
    unfold slot
    rw [generalPage_index hi]
  have hl := h.kernel
  rw [← hslot] at hl
  exact ⟨_, .down hl (.here _ _)⟩

/-- A table that is there has the one above it. -/
theorem HasTables.above (h : HasTables w.mem root i) : ∃ u, Reach w.mem (generalPage i) 3 root 1 u := by
  obtain ⟨t, ht⟩ := h
  obtain ⟨u, hu, -⟩ := ht.linked (by decide)
  exact ⟨u, hu⟩

/-- The tables of one page. A page that has them takes no frame. -/
theorem ensureGeneral_added (h : Scannable supply root maxPhyAddr w) (hi : i < gpPages) :
    ∃ ok w' new, ensureGeneral supply w root maxPhyAddr (generalPage i) = some (ok, w') ∧ Added supply root w w' new ∧
      (ok = true → HasTables w'.mem root i) ∧ (HasTables w.mem root i → ok = true ∧ new = []) ∧
      (¬ HasTables w.mem root i → (new = [] ↔ supply w.taken = none) ∧ (supply w.taken = none → ok = false)) := by
  have hva := generalPage_index hi
  have hout := generalPage_outside hi
  obtain ⟨t, ht⟩ := h.reach_pdpt hi
  obtain ⟨ok₁, w₁, new₁, hrun₁, ha₁, hfound₁, hthere₁, hnew₁⟩ := ensureTable_added h hva (h.small i hi) ht pointers_pd
  unfold ensureGeneral
  simp only [Option.bind_eq_bind, hrun₁, Option.bind_some]
  cases ok₁ with
  | false =>
    have hno : ¬ ∃ u, Reach w.mem (generalPage i) 3 root 1 u := fun hu => by
      have hok := (hthere₁ hu).1
      cases hok
    obtain ⟨rfl, hiff⟩ := hnew₁ hno
    have hnone : supply w.taken = none := Classical.byContradiction fun hne => by
      have hok := hiff.mpr hne
      cases hok
    refine ⟨false, w₁, _, rfl, ha₁, (fun hok => by cases hok), (fun hhas => absurd hhas.above hno), fun _ =>
      ⟨Option.toList_eq_nil_iff, fun _ => rfl⟩⟩
  | true =>
    obtain ⟨u, hu⟩ := hfound₁ rfl
    obtain ⟨ok₂, w₂, new₂, hrun₂, ha₂, hfound₂, hthere₂, hnew₂⟩ := ensureTable_added (h.added ha₁) hva
      ((h.added ha₁).small i hi) hu pointers_pt
    simp only [Bool.not_true, Bool.false_eq_true, if_false, hrun₂]
    refine ⟨ok₂, w₂, new₂ ++ new₁, rfl, ha₁.trans ha₂, hfound₂, fun hhas => ?_, fun hno => ?_⟩
    · obtain ⟨-, rfl⟩ := hthere₁ hhas.above
      obtain rfl := ha₁.eq_of_nil
      obtain ⟨hok, rfl⟩ := hthere₂ hhas
      exact ⟨hok, rfl⟩
    · by_cases habove : ∃ u, Reach w.mem (generalPage i) 3 root 1 u
      · obtain ⟨-, rfl⟩ := hthere₁ habove
        obtain rfl := ha₁.eq_of_nil
        obtain ⟨rfl, hiff⟩ := hnew₂ hno
        rw [List.append_nil]
        refine ⟨Option.toList_eq_nil_iff, fun hnone => ?_⟩
        cases ok₂ with
        | false => rfl
        | true => exact absurd hnone (hiff.mp rfl)
      · obtain ⟨rfl, hiff⟩ := hnew₁ habove
        have hsome := hiff.mp rfl
        refine ⟨⟨fun hnil => ?_, fun hnone => absurd hnone hsome⟩, fun hnone => absurd hnone hsome⟩
        rw [List.append_eq_nil_iff] at hnil
        exact Option.toList_eq_nil_iff.mp hnil.2

/-! ## The scan -/

/-- A page that is mapped has its tables. -/
theorem hasTables_of_mapped (hlarge : NoLarge w.mem root (generalPage i)) (h : ¬ Unmapped w.mem root i) :
    HasTables w.mem root i := by
  have hwalk : walk w.mem (generalPage i) 3 root ≠ none := by
    intro hnone
    apply h
    unfold Unmapped translation
    rw [hnone, ite_self]
  have hdown : ∀ n t, Reach w.mem (generalPage i) 3 root (n + 1) t → ∃ u, Reach w.mem (generalPage i) 3 root n u := by
    intro n t ht
    cases hp : (w.mem (slot t (n + 1) (generalPage i))).present with
    | true => exact ⟨_, ht.next ⟨hp, hlarge (n + 1) t ht (by omega) hp⟩⟩
    | false =>
      rw [ht.walk, walk_absent hp] at hwalk
      exact absurd rfl hwalk
  obtain ⟨t₂, h₂⟩ := hdown 2 root (.here _ _)
  obtain ⟨t₁, h₁⟩ := hdown 1 t₂ h₂
  exact hdown 0 t₁ h₁

/-- The scan reads the entry of a page that has its tables. -/
theorem read_page {t : Nat} (h : Tables w.mem root) (ht : Reach w.mem (generalPage i) 3 root 0 t) :
    readVirtual w.mem root (getPTEAddress (parseVirtualAddress (generalPage i)) true) =
      some (w.mem (slot t 0 (generalPage i))) := by
  unfold readVirtual
  rw [ptePointer h.window ht]
  rfl

/-- It goes over `d` mapped pages. -/
theorem mapGeneralLoop_passes (h : Scannable supply root maxPhyAddr w) (pageAddress flags : Entry) (pages k d : Nat) :
    ∀ i, i + d ≤ gpPages → (∀ j, i ≤ j → j < i + d → ¬ Unmapped w.mem root j) →
      mapGeneralLoop supply root maxPhyAddr pageAddress pages flags (d + k) i 0 0 w =
        mapGeneralLoop supply root maxPhyAddr pageAddress pages flags k (i + d) 0 0 w := by
  induction d with
  | zero =>
    intro i _ _
    rw [Nat.zero_add, Nat.add_zero]
  | succ d ih =>
    intro i hi hmapped
    have hlt : i < gpPages := by omega
    have hmap := hmapped i (Nat.le_refl _) (by omega)
    obtain ⟨ok, w', new, hrun, ha, -, hthere, -⟩ := ensureGeneral_added h hlt
    have hhas := hasTables_of_mapped (h.small i hlt) hmap
    obtain ⟨rfl, rfl⟩ := hthere hhas
    obtain rfl := ha.eq_of_nil
    obtain ⟨t, ht⟩ := hhas
    have hpresent := (present_mapped (fun _ _ => rfl) hlt ht).mpr hmap
    rw [show d + 1 + k = d + k + 1 by omega, mapGeneralLoop]
    simp only [Option.bind_eq_bind, hrun, Option.bind_some, Bool.not_true, Bool.false_eq_true, if_false,
      read_page h.tables ht, hpresent]
    rw [ih (i + 1) (by omega) fun j h1 h2 => hmapped j (by omega) (by omega), show i + 1 + d = i + (d + 1) by omega]

/-- No page of the window is unmapped. -/
def WindowFull (m : PhysMem) (root : Nat) : Prop := ∀ i, i < gpPages → ¬ Unmapped m root i

/-- `i` is the first page of the window that is not mapped. -/
structure FirstUnmapped (m : PhysMem) (root i : Nat) : Prop where
  lt : i < gpPages
  unmapped : Unmapped m root i
  before : ∀ j, j < i → ¬ Unmapped m root j

theorem mapGeneralPages_full (h : Scannable supply root maxPhyAddr w) (hfull : WindowFull w.mem root)
    (pageAddress flags : Entry) {pages : Nat} (hpages : pages ≠ 0) :
    mapGeneralPages supply w root maxPhyAddr pageAddress pages flags = some (none, w) := by
  unfold mapGeneralPages
  rw [if_neg hpages]
  exact mapGeneralLoop_passes h pageAddress flags pages 0 gpPages 0 (by omega) fun j _ hj => hfull j (by omega)

/-- The call for one page when a page is left. A page that has its tables takes no frame. -/
theorem mapGeneralPages_first (h : Scannable supply root maxPhyAddr w) (hi : FirstUnmapped w.mem root i)
    (pageAddress flags : Entry) :
    ∃ ok z new, Added supply root w z new ∧ (HasTables w.mem root i → ok = true ∧ new = []) ∧
      (¬ HasTables w.mem root i → (new = [] ↔ supply w.taken = none) ∧ (supply w.taken = none → ok = false)) ∧
      (ok = false → mapGeneralPages supply w root maxPhyAddr pageAddress 1 flags = some (none, z)) ∧
      (ok = true → ∃ t, Reach z.mem (generalPage i) 3 root 0 t ∧
        mapGeneralPages supply w root maxPhyAddr pageAddress 1 flags =
          some (some (generalPage i + pageAddress.toNat % Layout.pageSize), { z with
            mem := update z.mem (slot t 0 (generalPage i)) (generalEntry maxPhyAddr pageAddress flags) })) := by
  have hlt := hi.lt
  obtain ⟨ok, z, new, hrun, ha, hfound, hthere, hnew⟩ := ensureGeneral_added h hlt
  have hloop : mapGeneralPages supply w root maxPhyAddr pageAddress 1 flags =
      mapGeneralLoop supply root maxPhyAddr pageAddress 1 flags (gpPages - i - 1 + 1) i 0 0 w := by
    unfold mapGeneralPages
    rw [if_neg (by decide), show gpPages = i + (gpPages - i - 1 + 1) by omega,
      mapGeneralLoop_passes h pageAddress flags 1 (gpPages - i - 1 + 1) i 0 (by omega)
        fun j _ hj => hi.before j (by omega), Nat.zero_add]
    congr 1
    omega
  refine ⟨ok, z, new, ha, hthere, hnew, fun hok => ?_, fun hok => ?_⟩
  · subst hok
    rw [hloop, mapGeneralLoop]
    simp only [Option.bind_eq_bind, hrun, Option.bind_some]
    rfl
  · subst hok
    obtain ⟨t, ht⟩ := hfound rfl
    have habsent : (getPTEInfo (z.mem (slot t 0 (generalPage i)))).present = false := by
      cases hp : (getPTEInfo (z.mem (slot t 0 (generalPage i)))).present with
      | true => exact absurd hi.unmapped ((present_mapped ha.grown.same hlt ht).mp hp)
      | false => rfl
    have hwrite : writePages root maxPhyAddr flags 1 (generalPage i) pageAddress z.mem =
        some (update z.mem (slot t 0 (generalPage i)) (generalEntry maxPhyAddr pageAddress flags)) := by
      rw [writePages, writeVirtual, ptePointer ha.grown.tables.window ht]
      rfl
    refine ⟨t, ht, ?_⟩
    rw [hloop, mapGeneralLoop]
    simp only [Option.bind_eq_bind, hrun, Option.bind_some, Bool.not_true, Bool.false_eq_true, if_false,
      read_page ha.grown.tables ht, habsent, Bool.not_false, if_true, Nat.zero_add, hwrite]
    rfl

end

end BadLands.Mm.AddressSpace
