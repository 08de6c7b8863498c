import BadLands.Loader.HandOver

/-!
# The window of the loader's data

`SetupLoaderInfo` counts the pages for its data before `MakeshiftMalloc` makes the memory map one descriptor longer, and makes
missing page tables in the same block, from the byte behind the data on. `linkedTables` has these tables; `linkStep` is one page
of the loop.

* `linkStep_found`, `linkStep_missing`: what one page does to the tables.
* `setupLoop_run`: what the loop does, as long as the tables that it makes are fresh pages.
* `setupLoaderInfo_right_iff`: for which sizes the data is mapped and the tables are pages of the block.
-/
namespace BadLands.Loader.LoaderWindow

open BadLands.Core BadLands.Core.PageTable BadLands.Mm.Layout BadLands.Mm.Paging BadLands.Loader.Paging
open BadLands.Loader.HandOver
open BadLands.Mm.PhysicalMemory hiding filterAddress

/-! ## The code -/

section
variable (maxphyaddr root : Nat)

/-- One page of the loop, and the page table it makes if one is missing.
mirrors bootloader/src/loader/paging.cpp:616-635 -/
def linkStep (rva : VirtualAddress) (source ptr : Nat) (m : PhysMem) : PhysMem × List Nat :=
  let pdpt := (m (root + entrySize * rva.pml4Offset)).frame
  let pd := (m (pdpt + entrySize * rva.pdptOffset)).frame
  let pde := pd + entrySize * rva.pdOffset
  let pte := makePTE maxphyaddr source true
  if (m pde).present then (storeWord m ((m pde).frame + entrySize * rva.ptOffset) pte, [])
  else
    let m := update (storeBytes m ptr pageSize fun _ => 0#8) pde (makeTableEntry maxphyaddr ptr)
    (storeWord m (ptr + entrySize * rva.ptOffset) pte, [ptr])

/-- The page tables that `setupLoop` makes. -/
def linkedTables : Nat → VirtualAddress → Nat → Nat → PhysMem → List Nat
  | 0, _, _, _, _ => []
  | n + 1, rva, source, ptr, m =>
    let (m, tables) := linkStep maxphyaddr root rva source ptr m
    tables ++ linkedTables n (fullUpdateRemapRVA rva) (Word.add source pageSize) (ptr + pageSize * tables.length) m

/-- The page tables that `setupLoaderInfo` makes. -/
def setupTables (descSize : Nat) (mmapBytes : List Descriptor → ByteMemory) (info : LoaderInfo) (mmap : List Descriptor)
    (m : PhysMem) : List Nat :=
  let mmapSize := mmap.length * descSize
  match makeshiftMalloc (totalPages mmapSize) mmap with
  | none => []
  | some (ptr, mmap) =>
    let m := writeFields ptr (info.fields (mmap.length * descSize) descSize) m
    let m := storeBytes m (ptr + mmapOffset) (mmap.length * descSize) (mmapBytes mmap)
    linkedTables maxphyaddr root (requiredPages mmapSize) (parseVirtualAddress osLoaderData.start) ptr
      (ptr + mmapOffset + mmap.length * descSize) m

end

/-! ## One page -/

/-- Pages one after the other. -/
def tablesFrom (next k : Nat) : List Nat := (List.range k).map fun j => next + j * 4096

/-- How many of `n` pages from page `v` on are the first of a page table. -/
def regions (v n : Nat) : Nat := (v + n + 511) / 512 - (v + 511) / 512

section
variable {maxphyaddr root : Nat} {U D : Nat → Prop} {m : PhysMem} {log : List (Nat × Nat)} {rva : VirtualAddress}
  {va source next n : Nat}

theorem tablesFrom_succ (next k : Nat) : tablesFrom next (k + 1) = next :: tablesFrom (next + 4096) k := by
  unfold tablesFrom
  rw [List.range_succ_eq_map, List.map_cons, List.map_map, Nat.zero_mul, Nat.add_zero]
  congr 1
  refine List.map_congr_left fun j _ => ?_
  change next + (j + 1) * 4096 = next + 4096 + j * 4096
  omega

theorem tablesFrom_le {k k' : Nat} (h : k ≤ k') : tablesFrom next k <+: tablesFrom next k' := by
  refine List.IsPrefix.map _ ?_
  rw [List.prefix_iff_eq_take, List.length_range, List.take_range, Nat.min_eq_left h]

theorem regions_succ (v n : Nat) : regions v (n + 1) = (if v % 512 = 0 then 1 else 0) + regions (v + 1) n := by
  unfold regions
  split <;> omega

/-- One turn of `setupLoop` is `linkStep`. -/
theorem setupLoop_turn (n : Nat) (rva : VirtualAddress) (source ptr : Nat) (m : PhysMem) :
    setupLoop maxphyaddr root (n + 1) rva source ptr m =
      setupLoop maxphyaddr root n (fullUpdateRemapRVA rva) (Word.add source pageSize)
        (ptr + pageSize * (linkStep maxphyaddr root rva source ptr m).2.length) (linkStep maxphyaddr root rva source ptr m).1 := by
  rw [setupLoop, linkStep]
  dsimp only
  split <;> rfl

theorem linkStep_tables (maxphyaddr root : Nat) (rva : VirtualAddress) (source ptr : Nat) (m : PhysMem) :
    (linkStep maxphyaddr root rva source ptr m).2 = [] ∨ (linkStep maxphyaddr root rva source ptr m).2 = [ptr] := by
  unfold linkStep
  dsimp only
  split
  · exact .inl rfl
  · exact .inr rfl

/-- The tables are made one behind the other. -/
theorem linkedTables_eq (n : Nat) (rva : VirtualAddress) (source ptr : Nat) (m : PhysMem) :
    linkedTables maxphyaddr root n rva source ptr m = tablesFrom ptr (linkedTables maxphyaddr root n rva source ptr m).length := by
  induction n generalizing rva source ptr m with
  | zero => rfl
  | succ n ih =>
    rw [linkedTables]
    dsimp only
    rcases linkStep_tables maxphyaddr root rva source ptr m with h | h
    · rw [h]
      exact ih _ _ _ _
    · rw [h]
      exact (congrArg _ (ih _ _ _ _)).trans (tablesFrom_succ _ _).symm

/-- What one page does, where the walk to it gets to a page directory. -/
structure Turn (root : Nat) (U D : Nat → Prop) (log : List (Nat × Nat)) (m : PhysMem) (va source : Nat) (tables : List Nat)
    (m' : PhysMem) : Prop where
  built : Built root U D ⟨m', log ++ tables.map fun t => (t, 1)⟩
  keeps : Keeps root D ⟨m, log⟩ ⟨m', log ++ tables.map fun t => (t, 1)⟩
  table : ∃ t, Reach m' va 3 root 0 t
  reach : ∀ va' t, Outside loopWindow va' → Reach m' va' 3 root 0 t → Reach m va' 3 root 0 t ∨ t ∈ tables ∧ SamePath 1 va' va
  translate : ∀ va', Outside loopWindow va' → Canonical va' → translation m' root va' =
    if va' / 4096 = va / 4096 then some (source + va' % 4096) else translation m root va'

/-- The page directory is found. -/
theorem directory_eq (hrva : Follows rva va) {pd : Nat} (h : Reach m va 3 root 1 pd) :
    (m ((m (root + entrySize * rva.pml4Offset)).frame + entrySize * rva.pdptOffset)).frame = pd := by
  have hentry : ∀ t n, t + entrySize * index n va = slot t n va := fun _ _ => rfl
  rw [hrva.pml4, hrva.pdpt, hentry, hentry]
  cases h with
  | down h3 h =>
    cases h with
    | down h2 h =>
      cases h with
      | here => rfl
      | down _ h => exact absurd h.le (by decide)

theorem storeWord_entry (m : PhysMem) {t : Nat} (ht : t % 4096 = 0) (va : Nat) (e : Entry) :
    storeWord m (slot t 0 va) e = update m (slot t 0 va) e := by
  unfold slot
  exact if_pos (by omega)

/-- The entry of a page, with what it is for. -/
theorem pte_spec (hm : maxphyaddr ≤ 52) (hsource : source % 4096 = 0) (hlimit : source < 2 ^ maxphyaddr) :
    (makePTE maxphyaddr source true).present = true ∧ (makePTE maxphyaddr source true).frame = source := by
  have hpat : (makePTE maxphyaddr source true ||| if false then ptePAT else 0#64) = makePTE maxphyaddr source true := by
    rw [if_neg Bool.false_ne_true, BitVec.or_zero]
  have hpresent := makePTE_present maxphyaddr source true false
  have hframe := makePTE_frame hm hsource hlimit true false
  rw [hpat] at hpresent hframe
  exact ⟨hpresent, hframe⟩

/-- Writing the entry of a page whose table is there. -/
theorem turn_write (hm : maxphyaddr ≤ 52) (hb : Built root U D ⟨m, log⟩) (hcan : Canonical va) (hva : Outside loopWindow va)
    (hsource : source % 4096 = 0) (hlimit : source < 2 ^ maxphyaddr) {t : Nat} (ht : Reach m va 3 root 0 t) :
    Turn root U D log m va source [] (update m (slot t 0 va) (makePTE maxphyaddr source true)) := by
  obtain ⟨hpresent, hframe⟩ := pte_spec hm hsource hlimit
  obtain ⟨hb', hk, htranslate⟩ := writePage_spec hb hcan hva ht hpresent
  have hbut : SameBut m (update m (slot t 0 va) (makePTE maxphyaddr source true)) (slot t 0 va) fun _ => False :=
    fun q hq _ => if_neg hq
  refine ⟨?_, ?_, ⟨t, hk.reach va 0 t hva ht⟩, fun va' u hva' hu => ?_, fun va' hva' hcan' => ?_⟩
  · rw [List.map_nil, List.append_nil]
    exact hb'
  · rw [List.map_nil, List.append_nil]
    exact hk
  · exact .inl ((leaf_reach hb.tree hva ht hbut hva').mp hu)
  · rw [htranslate va' hva' hcan', hframe]

/-- The page table is there. -/
theorem linkStep_found (next : Nat) (hm : maxphyaddr ≤ 52) (hb : Built root U D ⟨m, log⟩) (hcan : Canonical va) (hva : Outside loopWindow va)
    (hrva : Follows rva va) (hsource : source % 4096 = 0) (hlimit : source < 2 ^ maxphyaddr) {t : Nat}
    (ht : Reach m va 3 root 0 t) :
    (linkStep maxphyaddr root rva source next m).2 = [] ∧
      Turn root U D log m va source [] (linkStep maxphyaddr root rva source next m).1 := by
  have hentry : ∀ t n, t + entrySize * index n va = slot t n va := fun _ _ => rfl
  obtain ⟨pd, hpd, hlinks, hframe⟩ := ht.linked (by decide)
  have hturn := turn_write hm hb hcan hva hsource hlimit ht
  unfold linkStep
  dsimp only
  rw [directory_eq hrva hpd, hrva.pd, hrva.pt, hentry, if_pos hlinks.1, ← hframe, hentry,
    storeWord_entry m (ht.aligned hb.tree.aligned)]
  exact ⟨rfl, hturn⟩

/-- A page of cleared words. -/
theorem cleared_word {q : Nat} (hq : q % 8 = 0) (hlow : next ≤ q) (hhigh : q + 8 ≤ next + pageSize) :
    storeBytes m next pageSize (fun _ => 0#8) q = 0#64 := by
  unfold storeBytes
  rw [if_pos hq]
  have hzero : ofBytes (fun _ => 0#8) = 0#64 := by decide
  rw [← hzero]
  unfold ofBytes
  exact congrArg _ (ByteMemory.read_congr fun i _ hi => if_pos ⟨by omega, by omega⟩)

/-- The page table is missing. -/
theorem linkStep_next (maxphyaddr source next : Nat) (hb : Built root U D ⟨m, log⟩) (hva : Outside loopWindow va)
    (hrva : Follows rva va) {pd : Nat} (hpd : Reach m va 3 root 1 pd) (hmissing : ∀ t, ¬ Reach m va 3 root 0 t) :
    (m (slot pd 1 va)).present = false ∧ (linkStep maxphyaddr root rva source next m).2 = [next] := by
  have hentry : ∀ t n, t + entrySize * index n va = slot t n va := fun _ _ => rfl
  have habsent : (m (slot pd 1 va)).present = false := by
    refine Bool.eq_false_iff.mpr fun hp => ?_
    exact hmissing _ (hpd.next ⟨hp, hb.links va 0 pd hva hpd hp⟩)
  refine ⟨habsent, ?_⟩
  unfold linkStep
  dsimp only
  rw [directory_eq hrva hpd, hrva.pd, hentry, if_neg (by rw [habsent]; exact Bool.false_ne_true)]

/-- The page table is missing, and a fresh page is there for it. -/
theorem linkStep_missing (hm : maxphyaddr ≤ 52) (hb : Built root U D ⟨m, log⟩) (hcan : Canonical va)
    (hva : Outside loopWindow va) (hrva : Follows rva va) (hsource : source % 4096 = 0) (hlimit : source < 2 ^ maxphyaddr) {pd : Nat}
    (hpd : Reach m va 3 root 1 pd) (hmissing : ∀ t, ¬ Reach m va 3 root 0 t)
    (hg : Granted maxphyaddr U (log ++ [(next, 1)])) :
    Turn root U D log m va source [next] (linkStep maxphyaddr root rva source next m).1 := by
  have hentry : ∀ t n, t + entrySize * index n va = slot t n va := fun _ _ => rfl
  have hsize : pageSize = 4096 := rfl
  obtain ⟨habsent, -⟩ := linkStep_next maxphyaddr source next hb hva hrva hpd hmissing
  have hround : next % 4096 = 0 := hg.aligned (next, 1) (by simp)
  generalize hlinked : update (storeBytes m next pageSize fun _ => 0#8) (slot pd 1 va) (makeTableEntry maxphyaddr next) = m'
  have hsame : SameBut m m' (slot pd 1 va) (· = next) := fun q hq hf => by
    have hout := hf next rfl
    rw [← hlinked]
    exact (if_neg hq).trans (storeBytes_outside fun hq8 i hi hin => by omega)
  have hzero : ∀ i, i < 512 → next + 8 * i ≠ slot pd 1 va → m' (next + 8 * i) = 0#64 := fun i hi hne => by
    rw [← hlinked]
    exact (if_neg hne).trans (cleared_word (by omega) (by omega) (by omega))
  have hlinkedEntry : m' (slot pd 1 va) = makeTableEntry maxphyaddr next := by
    rw [← hlinked]
    exact if_pos rfl
  obtain ⟨hlink, hb', hk⟩ := linked_spec hm hb hva hpd habsent hg hsame hlinkedEntry hzero
  have ht : Reach m' va 3 root 0 next := (hlink.reach_iff hb.tree hva).mpr (.inr ⟨rfl, rfl, fun _ _ _ => rfl⟩)
  obtain ⟨hbuilt, hkeeps, htable, hreach, htranslate⟩ := turn_write hm hb' hcan hva hsource hlimit ht
  have hrun : (linkStep maxphyaddr root rva source next m).1 = update m' (slot next 0 va) (makePTE maxphyaddr source true) := by
    unfold linkStep
    dsimp only
    rw [directory_eq hrva hpd, hrva.pd, hrva.pt, hentry, if_neg (by rw [habsent]; exact Bool.false_ne_true), hlinked, hentry,
      storeWord_entry m' hround]
  rw [hrun]
  rw [List.map_nil, List.append_nil] at hbuilt hkeeps
  refine ⟨hbuilt, hk.trans hkeeps, htable, fun va' t hva' hr => ?_, fun va' hva' hcan' => ?_⟩
  · rcases hreach va' t hva' hr with hr | ⟨hmem, -⟩
    · exact ((hlink.reach_iff hb.tree hva').mp hr).imp_right fun h => ⟨List.mem_singleton.mpr h.2.1, h.2.2⟩
    · cases hmem
  · rw [htranslate va' hva' hcan', hlink.translate hb.tree hva']

/-! ## The loop -/

theorem samePath_region {va' : Nat} (h : va / 0x200000 = va' / 0x200000) : SamePath 1 va va' := fun k hk h3 => by
  unfold index
  obtain rfl | rfl | rfl : k = 1 ∨ k = 2 ∨ k = 3 := by omega
  all_goals omega

/-- Pages of the log stay ahead of those that are made. -/
theorem granted_le {k k' : Nat} (hk : k ≤ k')
    (hg : Granted maxphyaddr U (log ++ (tablesFrom next k').map fun t => (t, 1))) :
    Granted maxphyaddr U (log ++ (tablesFrom next k).map fun t => (t, 1)) := by
  refine hg.mono ?_
  rw [List.prefix_append_right_inj]
  exact (tablesFrom_le hk).map _

/-- One page, where `more` tables are made for the `n` pages behind it: the pages for these are left. -/
theorem linkStep_spec (more : Nat) (hm : maxphyaddr ≤ 52) (hb : Built root U D ⟨m, log⟩) (hcan : Canonical va)
    (hva : Outside loopWindow va) (hrva : Follows rva va) (hsource : source % 4096 = 0) (hlimit : source < 2 ^ maxphyaddr) {pd : Nat}
    (hpd : Reach m va 3 root 1 pd) (hfirst : va / 4096 % 512 ≠ 0 → ∃ t, Reach m va 3 root 0 t)
    (hg : Granted maxphyaddr U (log ++ (tablesFrom next (min (regions (va / 4096) (n + 1))
      ((linkStep maxphyaddr root rva source next m).2.length + more))).map fun t => (t, 1))) :
    let r := linkStep maxphyaddr root rva source next m
    Turn root U D log m va source r.2 r.1 ∧ r.2.length ≤ (if va / 4096 % 512 = 0 then 1 else 0) ∧
      ((va / 4096 % 512 = 0 → ∀ t, ¬ Reach m va 3 root 0 t) → r.2.length = if va / 4096 % 512 = 0 then 1 else 0) ∧
      Granted maxphyaddr U ((log ++ r.2.map fun t => (t, 1)) ++ (tablesFrom (next + pageSize * r.2.length)
        (min (regions (va / 4096 + 1) n) more)).map fun t => (t, 1)) := by
  have hregions := regions_succ (va / 4096) n
  intro r
  by_cases hfound : ∃ t, Reach m va 3 root 0 t
  · obtain ⟨t, ht⟩ := hfound
    obtain ⟨hnil, hturn⟩ := linkStep_found next hm hb hcan hva hrva hsource hlimit ht
    change r.2 = [] at hnil
    change Granted maxphyaddr U (log ++ (tablesFrom next (min _ (r.2.length + more))).map _) at hg
    rw [hnil] at hg ⊢
    refine ⟨hturn, Nat.zero_le _, fun hahead => (if_neg fun hv => hahead hv t ht).symm, ?_⟩
    rw [List.map_nil, List.append_nil]
    exact granted_le (by rw [hregions, List.length_nil]; omega) hg
  · have hv : va / 4096 % 512 = 0 := by
      by_contra hv
      exact hfound (hfirst hv)
    have hmissing : ∀ t, ¬ Reach m va 3 root 0 t := fun t ht => hfound ⟨t, ht⟩
    obtain ⟨-, hone⟩ := linkStep_next maxphyaddr source next hb hva hrva hpd hmissing
    change r.2 = [next] at hone
    change Granted maxphyaddr U (log ++ (tablesFrom next (min _ (r.2.length + more))).map _) at hg
    rw [if_pos hv] at hregions
    rw [hone, List.length_singleton] at hg ⊢
    have hgranted : Granted maxphyaddr U (log ++ [(next, 1)]) := by
      have hg1 := granted_le (k := 1) (by omega) hg
      rwa [tablesFrom_succ, show tablesFrom (next + 4096) 0 = [] from rfl] at hg1
    have hturn := linkStep_missing hm hb hcan hva hrva hsource hlimit hpd hmissing hgranted
    refine ⟨hturn, by rw [if_pos hv], fun _ => (if_pos hv).symm, ?_⟩
    rw [hregions, Nat.add_min_add_left, Nat.add_comm 1, tablesFrom_succ] at hg
    rwa [List.append_assoc, show pageSize = 4096 from rfl, Nat.mul_one]

/-- A page and the `n` pages behind it. -/
theorem mapped_succ (source page q k n : Nat) (other : Option Nat) :
    (if page + 1 ≤ q ∧ q < page + 1 + n then some (source + 4096 + (q - (page + 1)) * 4096 + k)
      else if q = page then some (source + k) else other) =
      if page ≤ q ∧ q < page + (n + 1) then some (source + (q - page) * 4096 + k) else other := by
  by_cases hq : q = page
  · rw [if_neg (by omega), if_pos hq, if_pos (by omega), hq, Nat.sub_self, Nat.zero_mul, Nat.add_zero]
  · by_cases hin : page + 1 ≤ q ∧ q < page + 1 + n
    · rw [if_pos hin, if_pos (by omega)]
      exact congrArg some (by omega)
    · rw [if_neg hin, if_neg hq, if_neg (by omega)]

/-- The pages are mapped, and the tables made for them are at most the ones their number needs; these, where none was there. -/
theorem setupLoop_run (hm : maxphyaddr ≤ 52) (n va source next : Nat) (rva : VirtualAddress) (m : PhysMem) (log : List (Nat × Nat))
    (hb : Built root U D ⟨m, log⟩) (hrva : n ≠ 0 → Follows rva va)
    (hrange : ∀ i, i < n → Canonical (va + i * 4096) ∧ Outside loopWindow (va + i * 4096))
    (hpd : ∀ i, i < n → ∃ pd, Reach m (va + i * 4096) 3 root 1 pd)
    (hfirst : n ≠ 0 → va / 4096 % 512 ≠ 0 → ∃ t, Reach m va 3 root 0 t)
    (hsource : source % 4096 = 0) (hlimit : source + n * 4096 ≤ 2 ^ maxphyaddr)
    (hg : Granted maxphyaddr U (log ++ (tablesFrom next (min (regions (va / 4096) n)
      (linkedTables maxphyaddr root n rva source next m).length)).map fun t => (t, 1))) :
    (linkedTables maxphyaddr root n rva source next m).length ≤ regions (va / 4096) n ∧
      (∀ va', Outside loopWindow va' → Canonical va' → translation (setupLoop maxphyaddr root n rva source next m) root va' =
        if va / 4096 ≤ va' / 4096 ∧ va' / 4096 < va / 4096 + n
        then some (source + (va' / 4096 - va / 4096) * 4096 + va' % 4096) else translation m root va') ∧
      (∀ va' k u, Outside loopWindow va' → Reach m va' 3 root k u → Reach (setupLoop maxphyaddr root n rva source next m) va' 3 root k u) ∧
      (∀ va' t, Outside loopWindow va' → Reach (setupLoop maxphyaddr root n rva source next m) va' 3 root 0 t →
        Reach m va' 3 root 0 t ∨ t ∈ linkedTables maxphyaddr root n rva source next m) ∧
      ((∀ i, i < n → (va / 4096 + i) % 512 = 0 → ∀ t, ¬ Reach m (va + i * 4096) 3 root 0 t) →
        (linkedTables maxphyaddr root n rva source next m).length = regions (va / 4096) n) := by
  induction n generalizing va source next rva m log with
  | zero =>
    exact ⟨Nat.zero_le _, fun va' _ _ => (if_neg (by omega)).symm, fun _ _ _ _ => id, fun _ _ _ => .inl,
      fun _ => by simp [linkedTables, regions]⟩
  | succ n ih =>
    have hpow : 2 ^ maxphyaddr ≤ 2 ^ 52 := Nat.pow_le_pow_right (by decide) hm
    obtain ⟨hcan, hva, hnext, hrest⟩ := range_next hrange
    have hrva' := hrva (by omega)
    have hpage : (va + 4096) / 4096 = va / 4096 + 1 := by omega
    have hadd : Word.add source pageSize = source + 4096 := Word.add_eq (show source + 4096 < _ by omega)
    have hregions := regions_succ (va / 4096) n
    obtain ⟨pd, hpd0⟩ := hpd 0 (by omega)
    rw [Nat.zero_mul, Nat.add_zero] at hpd0
    rw [linkedTables] at hg ⊢
    rw [setupLoop_turn, hadd]
    dsimp only at hg ⊢
    rw [hadd, List.length_append] at hg
    rw [List.length_append]
    obtain ⟨hturn, hle, hexact, hg'⟩ := linkStep_spec _ hm hb hcan hva hrva' hsource (by omega) hpd0 (hfirst (by omega)) hg
    generalize linkStep maxphyaddr root rva source next m = r at hturn hle hexact hg' ⊢
    have hpd' : ∀ i, i < n → ∃ pd, Reach r.1 (va + 4096 + i * 4096) 3 root 1 pd := fun i hi => by
      obtain ⟨pd', hpd'⟩ := hpd (i + 1) (by omega)
      rw [show va + (i + 1) * 4096 = va + 4096 + i * 4096 by omega] at hpd'
      exact ⟨pd', hturn.keeps.reach _ _ _ (hrest i hi).2 hpd'⟩
    have hfirst' : n ≠ 0 → (va + 4096) / 4096 % 512 ≠ 0 → ∃ t, Reach r.1 (va + 4096) 3 root 0 t := fun _ hv => by
      obtain ⟨t, ht⟩ := hturn.table
      rw [hpage] at hv
      exact ⟨t, (samePath_region (by omega)).reach (Nat.le_refl 3) ht⟩
    obtain ⟨hle', htranslate', hkeep', hreach', hexact'⟩ := ih (va + 4096) (source + 4096) (next + pageSize * r.2.length) (fullUpdateRemapRVA rva) r.1 _
      hturn.built (fun hn => hrva'.fullUpdate (hnext hn)) hrest hpd' hfirst' (by omega) (by omega) (by rw [hpage]; exact hg')
    rw [hpage] at hle' hexact'
    refine ⟨by omega, fun va' hva' hcan' => ?_,
      fun va' k u hva' hu => hkeep' va' k u hva' (hturn.keeps.reach va' k u hva' hu), fun va' t hva' hu => ?_, fun hahead => ?_⟩
    · rw [htranslate' va' hva' hcan', hturn.translate va' hva' hcan', hpage]
      exact mapped_succ source (va / 4096) (va' / 4096) (va' % 4096) n _
    · rcases hreach' va' t hva' hu with hu | hmem
      · exact (hturn.reach va' t hva' hu).imp_right fun h => List.mem_append_left _ h.1
      · exact .inr (List.mem_append_right _ hmem)
    · have hhere := hexact fun hv t => by
        have := hahead 0 (by omega) (by rwa [Nat.add_zero]) t
        rwa [Nat.zero_mul, Nat.add_zero] at this
      have hthere := hexact' fun i hi hv t ht => by
        rcases hturn.reach _ t (hrest i hi).2 ht with ht | ⟨-, hpath⟩
        · refine hahead (i + 1) (by omega) (by omega) t ?_
          rwa [show va + (i + 1) * 4096 = va + 4096 + i * 4096 by omega]
        · have hlarge := samePath_large (hrest i hi).1 hcan hpath
          omega
      omega

end

/-! ## What it is for -/

/-- How many bytes are written from the start of the block on. -/
def written (descSize n : Nat) : Nat := mmapOffset + (n + 1) * descSize

/-- The sizes for which the data is mapped and the page tables are pages. -/
def Suits (descSize n : Nat) : Prop :=
  written descSize n ≤ requiredPages (n * descSize) * pageSize ∧
    (requiredPages (n * descSize) + 0x80 ≤ ptEntries ∨ written descSize n % pageSize = 0)

instance (descSize n : Nat) : Decidable (Suits descSize n) := inferInstanceAs (Decidable (_ ∧ _))

/-- Every byte of the data is where the kernel looks for it; the page tables are pages of the block, apart from the data. -/
structure Right (m : PhysMem) (root ptr total size : Nat) (tables : List Nat) : Prop where
  mapped : ∀ k, k < size → translation m root (osLoaderData.start + k) = some (ptr + k)
  aligned : ∀ t ∈ tables, t % pageSize = 0
  inside : ∀ t ∈ tables, ptr ≤ t ∧ t + pageSize ≤ ptr + total * pageSize
  apart : ∀ t ∈ tables, t + pageSize ≤ ptr ∨ ptr + size ≤ t

/-- Nothing is mapped to the window, and its only page table is that of the font. -/
def Untouched (m : PhysMem) (root : Nat) : Prop := ∀ va, osLoaderData.start ≤ va → va < osLoaderData.end →
  translation m root va = none ∧ ∀ t, Reach m va 3 root 0 t → SamePath 1 osLoaderFont.start va

/-! ## The window -/

section
variable {maxphyaddr root descSize ptr : Nat} {mmapBytes : List Descriptor → ByteMemory} {info : LoaderInfo}
  {mmap mmap' : List Descriptor} {m m' : PhysMem} {efi : List EfiMemoryDescriptor}

theorem window_bounds : osLoaderData.start = 0xFFFF800020080000 ∧ osLoaderFont.start = 0xFFFF800020000000 ∧
    osLoaderData.limit = 0x1F80000 ∧ osLoaderData.end = 0xFFFF800022000000 := by
  decide

/-- The window is in the page directory of the font. -/
theorem window_range {k : Nat} (hk : k < osLoaderData.limit) : Canonical (osLoaderData.start + k) ∧
    Outside loopWindow (osLoaderData.start + k) ∧ SamePath 2 osLoaderFont.start (osLoaderData.start + k) := by
  obtain ⟨hdata, hfont, hlimit, -⟩ := window_bounds
  have hloop : windowIndex true = 510 := by decide
  rw [hlimit] at hk
  rw [hdata, hfont]
  refine ⟨.inr ⟨by omega, by omega⟩, ?_, fun j hj h3 => ?_⟩
  · unfold Outside loopWindow
    rw [hloop]
    unfold index
    omega
  · unfold index
    obtain rfl | rfl : j = 2 ∨ j = 3 := by omega
    all_goals omega

/-- Pages that nobody has. -/
theorem granted_tables {U : Nat → Prop} {next k : Nat} (halign : 0 < k → next % 4096 = 0)
    (hlimit : 0 < k → next + k * 4096 ≤ 2 ^ maxphyaddr) (hunused : ∀ t, U t → ¬ (next ≤ t ∧ t < next + k * 4096)) :
    Granted maxphyaddr U ((tablesFrom next k).map fun t => (t, 1)) := by
  have hmem : ∀ c ∈ (tablesFrom next k).map fun t => (t, 1), ∃ j, j < k ∧ c = (next + j * 4096, 1) := by
    simp only [tablesFrom, List.map_map, List.mem_map, List.mem_range]
    rintro c ⟨j, hj, rfl⟩
    exact ⟨j, hj, rfl⟩
  refine ⟨fun c hc => ?_, fun c hc => ?_, fun t ht => ?_, ?_⟩
  · obtain ⟨j, hj, rfl⟩ := hmem c hc
    have := halign (by omega)
    dsimp only
    omega
  · obtain ⟨j, hj, rfl⟩ := hmem c hc
    have := hlimit (by omega)
    dsimp only
    omega
  · rintro ⟨c, hc, h1, h2⟩
    obtain ⟨j, hj, rfl⟩ := hmem c hc
    exact hunused t ht ⟨by omega, by omega⟩
  · rw [List.pairwise_map, tablesFrom, List.pairwise_map]
    exact List.pairwise_lt_range.imp fun hlt t h1 h2 h3 => by omega

/-- Memory that nobody has is written, and the loop runs. -/
theorem window_run (hm : maxphyaddr ≤ 52) (hp : Prepared maxphyaddr root efi m) {m₁ : PhysMem}
    (hm₁ : ∀ q, InUse efi (q / 4096 * 4096) → m₁ q = m q) {required next : Nat} (halign : ptr % 4096 = 0)
    (hlimit : ptr + required * 4096 ≤ 2 ^ maxphyaddr) (hwindow : required * 4096 ≤ osLoaderData.limit) :
    let tables := linkedTables maxphyaddr root required (parseVirtualAddress osLoaderData.start) ptr next m₁
    let m' := setupLoop maxphyaddr root required (parseVirtualAddress osLoaderData.start) ptr next m₁
    Granted maxphyaddr (InUse efi) ((tablesFrom next (min ((required + 127) / 512) tables.length)).map fun t => (t, 1)) →
      tables.length ≤ (required + 127) / 512 ∧
      (∀ k, k < required * 4096 → translation m' root (osLoaderData.start + k) = some (ptr + k)) ∧
      (∀ va k u, Outside loopWindow va → Reach m va 3 root k u → Reach m' va 3 root k u) ∧
      (∀ va t, Outside loopWindow va → Reach m' va 3 root 0 t → Reach m va 3 root 0 t ∨ t ∈ tables) ∧
      (Untouched m root → required * 4096 < osLoaderData.limit → tables.length = (required + 127) / 512 ∧
        translation m' root (osLoaderData.start + required * 4096) = none) := by
  intro tables m' hg
  obtain ⟨hdata, hfont, hwindowLimit, hend⟩ := window_bounds
  obtain ⟨hb₁, hk₁, htranslate₁, hreach₁⟩ := untouched_spec hp.built (m := m₁) fun q hq =>
    hm₁ q (hq.resolve_right fun ⟨c, hc, _⟩ => by cases hc)
  have hregions : ∀ n, regions (osLoaderData.start / 4096) n = (n + 127) / 512 := fun n => by
    rw [hdata]
    unfold regions
    omega
  have hin : ∀ i, i < required → i * 4096 < osLoaderData.limit := fun i hi => by omega
  obtain ⟨t, ht⟩ := hp.font
  obtain ⟨pd, hpd, -⟩ := ht.through (show 0 ≤ 1 by decide) (show 1 ≤ 3 by decide)
  have hpd₁ : ∀ i, i < required → ∃ pd, Reach m₁ (osLoaderData.start + i * 4096) 3 root 1 pd := fun i hi => by
    obtain ⟨-, hva, hpath⟩ := window_range (hin i hi)
    exact ⟨pd, hk₁.reach _ _ _ hva (hpath.reach (Nat.le_refl 3) hpd)⟩
  have hfirst : required ≠ 0 → osLoaderData.start / 4096 % 512 ≠ 0 → ∃ t, Reach m₁ osLoaderData.start 3 root 0 t := fun hn _ => by
    obtain ⟨-, hva, hpath⟩ := window_path (i := 0) (by decide)
    rw [Nat.zero_mul, Nat.add_zero] at hva hpath
    exact ⟨t, hk₁.reach _ _ _ hva (hpath.reach (Nat.le_refl 3) ht)⟩
  obtain ⟨hle, htranslate, hkeep, hreach, hexact⟩ := setupLoop_run hm required osLoaderData.start ptr next (parseVirtualAddress osLoaderData.start)
    m₁ [] hb₁ (fun _ => follows_parse _) (fun i hi => ⟨(window_range (hin i hi)).1, (window_range (hin i hi)).2.1⟩) hpd₁ hfirst
    halign hlimit (by rw [List.nil_append, hregions]; exact hg)
  rw [hregions] at hle hexact
  refine ⟨hle, fun k hk => ?_, fun va k u hva hu => hkeep va k u hva (hk₁.reach va k u hva hu),
    fun va t hva hu => (hreach va t hva hu).imp_left (hreach₁ va hva 0 t).mp, fun hclear hroom => ⟨hexact fun i hi hv u hu => ?_, ?_⟩⟩
  · obtain ⟨hcan, hva, -⟩ := window_range (k := k) (by omega)
    rw [htranslate _ hva hcan, if_pos (by omega)]
    exact congrArg some (by omega)
  · obtain ⟨hcan, hva, -⟩ := window_range (hin i hi)
    have hwindowByte := hin i hi
    have hpath := (hclear _ (Nat.le_add_right _ _) (by omega)).2 u ((hreach₁ _ hva 0 u).mp hu)
    have hlarge := samePath_large (.inr ⟨by omega, by omega⟩) hcan hpath
    omega
  · obtain ⟨hcan, hva, -⟩ := window_range hroom
    rw [htranslate _ hva hcan, if_neg (by omega), htranslate₁ _ hva]
    exact (hclear _ (Nat.le_add_right _ _) (by omega)).1

/-- The tables that the loop makes are the pages from `next` on. -/
theorem mem_linkedTables {n source next t : Nat} {rva : VirtualAddress} : t ∈ linkedTables maxphyaddr root n rva source next m ↔
    ∃ j, j < (linkedTables maxphyaddr root n rva source next m).length ∧ next + j * 4096 = t := by
  conv_lhs => rw [linkedTables_eq, tablesFrom]
  simp only [List.mem_map, List.mem_range]

/-- Where the copy leaves the tables as they are: the pages are mapped, no table is lost, and those that are made are pages of the
block, if any are. -/
theorem window_block (size : Nat) (hm : maxphyaddr ≤ 52) (hp : Prepared maxphyaddr root efi m) {m₁ : PhysMem}
    (hm₁ : ∀ q, InUse efi (q / 4096 * 4096) → m₁ q = m q) {required total : Nat} (halign : ptr % 4096 = 0)
    (hlimit : ptr + total * 4096 ≤ 2 ^ maxphyaddr) (htotal : total = required + (required + 128) / 512)
    (hroom : required * 4096 < osLoaderData.limit) (hunused : ∀ t, InUse efi t → ¬ (ptr ≤ t ∧ t < ptr + total * 4096))
    (hsuits : required + 128 ≤ 512 ∨ size ≤ required * 4096 ∧ size % 4096 = 0) :
    let tables := linkedTables maxphyaddr root required (parseVirtualAddress osLoaderData.start) ptr (ptr + size) m₁
    let m' := setupLoop maxphyaddr root required (parseVirtualAddress osLoaderData.start) ptr (ptr + size) m₁
    (∀ t ∈ tables, t % 4096 = 0 ∧ ptr + size ≤ t ∧ t + 4096 ≤ ptr + total * 4096) ∧
      (∀ k, k < required * 4096 → translation m' root (osLoaderData.start + k) = some (ptr + k)) ∧
      (∀ va k u, Outside loopWindow va → Reach m va 3 root k u → Reach m' va 3 root k u) ∧
      ∀ va t, Outside loopWindow va → Reach m' va 3 root 0 t → Reach m va 3 root 0 t ∨ t ∈ tables := by
  have hlimit' : ptr + required * 4096 ≤ 2 ^ maxphyaddr :=
    Nat.le_trans (Nat.add_le_add_left (Nat.mul_le_mul_right _ (htotal ▸ Nat.le_add_right _ _)) _) hlimit
  intro tables m'
  have hgranted : Granted maxphyaddr (InUse efi) ((tablesFrom (ptr + size) (min ((required + 127) / 512) tables.length)).map
      fun t => (t, 1)) :=
    granted_tables (fun hk => by omega) (fun hk => by omega) fun t ht hin => hunused t ht ⟨by omega, by omega⟩
  obtain ⟨hle, hmapped, hkeep, hreach, -⟩ := window_run hm hp hm₁ halign hlimit' (Nat.le_of_lt hroom) hgranted
  change tables.length ≤ _ at hle
  refine ⟨fun t ht => ?_, hmapped, hkeep, hreach⟩
  obtain ⟨j, hj, rfl⟩ := mem_linkedTables.mp ht
  change j < tables.length at hj
  omega

/-- Where the copy leaves the tables as they are, the sizes decide. -/
theorem window_right (size : Nat) (hm : maxphyaddr ≤ 52) (hp : Prepared maxphyaddr root efi m) {m₁ : PhysMem}
    (hm₁ : ∀ q, InUse efi (q / 4096 * 4096) → m₁ q = m q) {required total : Nat} (halign : ptr % 4096 = 0)
    (hlimit : ptr + total * 4096 ≤ 2 ^ maxphyaddr) (htotal : total = required + (required + 128) / 512)
    (hroom : required * 4096 < osLoaderData.limit) (hunused : ∀ t, InUse efi t → ¬ (ptr ≤ t ∧ t < ptr + total * 4096)) :
    let tables := linkedTables maxphyaddr root required (parseVirtualAddress osLoaderData.start) ptr (ptr + size) m₁
    let m' := setupLoop maxphyaddr root required (parseVirtualAddress osLoaderData.start) ptr (ptr + size) m₁
    (size ≤ required * 4096 ∧ (required + 128 ≤ 512 ∨ size % 4096 = 0) → Right m' root ptr total size tables) ∧
      (Untouched m root → Right m' root ptr total size tables → size ≤ required * 4096 ∧ (required + 128 ≤ 512 ∨ size % 4096 = 0)) := by
  have hlimit' : ptr + required * 4096 ≤ 2 ^ maxphyaddr :=
    Nat.le_trans (Nat.add_le_add_left (Nat.mul_le_mul_right _ (htotal ▸ Nat.le_add_right _ _)) _) hlimit
  intro tables m'
  have hmem : ∀ t, t ∈ tables ↔ ∃ j, j < tables.length ∧ ptr + size + j * 4096 = t := fun t => mem_linkedTables
  have hpage : pageSize = 4096 := rfl
  constructor
  · rintro ⟨hfits, hsuits⟩
    obtain ⟨hblock, hmapped, -⟩ := window_block size hm hp hm₁ halign hlimit htotal hroom hunused (hsuits.imp_right fun h => ⟨hfits, h⟩)
    exact ⟨fun k hk => hmapped k (by omega), fun t ht => (hblock t ht).1, fun t ht => ⟨by have := hblock t ht; omega, (hblock t ht).2.2⟩,
      fun t ht => .inr (hblock t ht).2.1⟩
  · intro hclear hright
    have hfirst : 0 < tables.length → (ptr + size) % 4096 = 0 := fun hk => by
      have := hright.aligned (ptr + size) ((hmem _).mpr ⟨0, hk, by omega⟩)
      rwa [hpage] at this
    have hlast : 0 < tables.length → ptr + size + tables.length * 4096 ≤ ptr + total * 4096 := fun hk => by
      have := (hright.inside (ptr + size + (tables.length - 1) * 4096) ((hmem _).mpr ⟨tables.length - 1, by omega, rfl⟩)).2
      rw [hpage] at this
      omega
    have hin : ∀ k, k ≤ tables.length → 0 < k → ptr + size + k * 4096 ≤ ptr + total * 4096 := fun k hk hpos =>
      Nat.le_trans (Nat.add_le_add_left (Nat.mul_le_mul_right _ hk) _) (hlast (Nat.lt_of_lt_of_le hpos hk))
    have hgranted : Granted maxphyaddr (InUse efi) ((tablesFrom (ptr + size) (min ((required + 127) / 512) tables.length)).map
        fun t => (t, 1)) :=
      granted_tables (fun hk => hfirst (Nat.lt_of_lt_of_le hk (Nat.min_le_right _ _)))
        (fun hk => Nat.le_trans (hin _ (Nat.min_le_right _ _) hk) hlimit) fun t ht ⟨hlow, hhigh⟩ => by
          have hend := hin _ (Nat.min_le_right ((required + 127) / 512) tables.length) (by omega)
          exact hunused t ht ⟨Nat.le_trans (Nat.le_add_right _ _) hlow, Nat.lt_of_lt_of_le hhigh hend⟩
    obtain ⟨-, -, -, -, hexact⟩ := window_run hm hp hm₁ halign hlimit' (Nat.le_of_lt hroom) hgranted
    obtain ⟨hcount, hbehind⟩ := hexact hclear hroom
    change tables.length = _ at hcount
    have hfits : size ≤ required * 4096 := Nat.le_of_not_lt fun hlt => by
      rw [hright.mapped _ hlt] at hbehind
      cases hbehind
    refine ⟨hfits, ?_⟩
    rcases Nat.eq_zero_or_pos tables.length with hzero | hpos
    · exact .inl (by omega)
    · have := hfirst hpos
      exact .inr (by omega)

theorem inUse_page {t u : Nat} (ht : InUse efi t) (h : t / 4096 = u / 4096) : InUse efi u := by
  obtain ⟨d, hd, htype, hc⟩ := ht
  refine ⟨d, hd, htype, ?_⟩
  rw [show u / pageSize = t / pageSize from h.symm]
  exact hc

/-- The copy, where nobody has the memory it is written to. -/
theorem copy_apart (info : LoaderInfo) {size : Nat} (hapart : ∀ t, InUse efi t → ¬ (ptr ≤ t ∧ t < ptr + (mmapOffset + size))) (mmapSize : Nat)
    (bytes : ByteMemory) {q : Nat} (hq : InUse efi (q / 4096 * 4096)) :
    storeBytes (writeFields ptr (info.fields mmapSize descSize) m) (ptr + mmapOffset) size bytes q = m q :=
  copy_word info mmapSize descSize bytes m fun hq8 i hi hin => hapart (q + i) (inUse_page hq (by omega)) hin

/-- The block that a run has got. -/
theorem setupLoaderInfo_block (h : setupLoaderInfo maxphyaddr root descSize mmapBytes info mmap m = some (m', mmap', ptr)) :
    Word.mul (totalPages (mmap.length * descSize)) pageSize ≤ osLoaderData.limit ∧
      makeshiftMalloc (totalPages (mmap.length * descSize)) mmap = some (ptr, mmap') := by
  unfold setupLoaderInfo at h
  dsimp only at h
  split at h
  · cases h
  · next hlimit =>
    split at h
    · cases h
    · next ptr' mmap'' hmalloc =>
      split at h
      · cases h
      · cases h
        exact ⟨Nat.le_of_not_lt hlimit, hmalloc⟩

/-- The block is for every page of the window and fits in it. -/
theorem block_fits (hm : maxphyaddr ≤ 52) {size : Nat} (hlimit : ptr + totalPages size * 4096 ≤ 2 ^ maxphyaddr)
    (hwindow : Word.mul (totalPages size) pageSize ≤ osLoaderData.limit) :
    totalPages size = requiredPages size + (requiredPages size + 128) / 512 ∧ requiredPages size * 4096 < osLoaderData.limit := by
  obtain ⟨-, -, hwindowLimit, -⟩ := window_bounds
  have hpow : 2 ^ maxphyaddr ≤ 2 ^ 52 := Nat.pow_le_pow_right (by decide) hm
  have htotal : totalPages size = requiredPages size + (requiredPages size + 128) / 512 := rfl
  have hsize : pageSize = 4096 := rfl
  rw [hsize, Word.mul_eq (by omega)] at hwindow
  exact ⟨htotal, by omega⟩

/-- A run is the copy and the loop, in a block that nobody has. -/
theorem setupLoaderInfo_run (hm : maxphyaddr ≤ 52) (hperm : (mmap.map Descriptor.toEfiMemoryDescriptor).Perm efi)
    (hp : Prepared maxphyaddr root efi m)
    (h : setupLoaderInfo maxphyaddr root descSize mmapBytes info mmap m = some (m', mmap', ptr)) :
    let required := requiredPages (mmap.length * descSize)
    let total := totalPages (mmap.length * descSize)
    let size := written descSize mmap.length
    ptr % 4096 = 0 ∧ ptr + total * 4096 ≤ 2 ^ maxphyaddr ∧ total = required + (required + 128) / 512 ∧
      required * 4096 < osLoaderData.limit ∧ (∀ t, InUse efi t → ¬ (ptr ≤ t ∧ t < ptr + total * 4096)) ∧
      ∃ m₁, ((∀ t, InUse efi t → ¬ (ptr ≤ t ∧ t < ptr + size)) → ∀ q, InUse efi (q / 4096 * 4096) → m₁ q = m q) ∧
        m' = setupLoop maxphyaddr root required (parseVirtualAddress osLoaderData.start) ptr (ptr + size) m₁ ∧
        setupTables maxphyaddr root descSize mmapBytes info mmap m =
          linkedTables maxphyaddr root required (parseVirtualAddress osLoaderData.start) ptr (ptr + size) m₁ := by
  intro required total size
  obtain ⟨d, hcut, -, hm'⟩ := setupLoaderInfo_cases h
  obtain ⟨hwindow, hmalloc⟩ := setupLoaderInfo_block h
  obtain ⟨hmem, halign, -, hlimit, hcovers⟩ := hcut.pages hperm hp
  obtain ⟨htotal, hroom⟩ := block_fits hm hlimit hwindow
  have hlength : mmapOffset + mmap'.length * descSize = size := by
    rw [hcut.length]
    rfl
  refine ⟨halign, hlimit, htotal, hroom, fun t ht hin => ?_,
    storeBytes (writeFields ptr (info.fields (mmap'.length * descSize) descSize) m) (ptr + mmapOffset) (mmap'.length * descSize)
      (mmapBytes mmap'), fun hapart q hq => ?_, ?_, ?_⟩
  · obtain ⟨e, he, htype, hc⟩ := ht
    rw [hp.map.same he hmem hc (hcovers t hin.1 hin.2)] at htype
    exact htype hcut.conventional
  · exact copy_apart info (fun t ht hin => hapart t ht (by rwa [hlength] at hin)) (mmap'.length * descSize) (mmapBytes mmap') hq
  · rw [hm', Nat.add_assoc, hlength]
  · unfold setupTables
    dsimp only
    rw [hmalloc]
    dsimp only
    rw [Nat.add_assoc, hlength]

/-- For sizes that suit, the data is mapped and the page tables are pages of the block behind it. Where the window is empty and
nobody has the memory that the copy is written to, this is so for no other sizes. -/
theorem setupLoaderInfo_right_iff (hm : maxphyaddr ≤ 52) (hperm : (mmap.map Descriptor.toEfiMemoryDescriptor).Perm efi)
    (hp : Prepared maxphyaddr root efi m)
    (h : setupLoaderInfo maxphyaddr root descSize mmapBytes info mmap m = some (m', mmap', ptr)) :
    let tables := setupTables maxphyaddr root descSize mmapBytes info mmap m
    let size := written descSize mmap.length
    (Suits descSize mmap.length → Right m' root ptr (totalPages (mmap.length * descSize)) size tables) ∧
      (Untouched m root → (∀ t, InUse efi t → ¬ (ptr ≤ t ∧ t < ptr + size)) →
        Right m' root ptr (totalPages (mmap.length * descSize)) size tables → Suits descSize mmap.length) := by
  intro tables size
  obtain ⟨halign, hlimit, htotal, hroom, hunused, m₁, hcopy, hm', htables⟩ := setupLoaderInfo_run hm hperm hp h
  have hright := fun hapart => window_right size hm hp (hcopy hapart) halign hlimit htotal hroom hunused
  rw [hm', show tables = _ from htables]
  constructor
  · intro hsuits
    have hfits : size ≤ requiredPages (mmap.length * descSize) * 4096 := hsuits.1
    exact (hright fun t ht hin => hunused t ht ⟨hin.1, by omega⟩).1 hsuits
  · exact fun hclear hapart => (hright hapart).2 hclear

theorem setupLoaderInfo_right_high : ∃ s₀ m',
    mapPSFFont firmwarePage 40 0x2000000 0x2004000 0x1000 (setupBasicPaging firmwarePage 40 clearMemory).2 = some s₀ ∧
    setupLoaderInfo 40 0x2000000 48 descriptorBytes noInfo highMap s₀.mem = some (m', highHanded, maxAddressableMemory) ∧
    Right m' 0x2000000 maxAddressableMemory (totalPages (3 * 48)) (written 48 3)
      (setupTables 40 0x2000000 48 descriptorBytes noInfo highMap s₀.mem) := by
  obtain ⟨s₀, hfont, hp⟩ := highMap_font
  obtain ⟨m', hload⟩ := highMap_load s₀.mem
  rw [highMap_loop] at hload
  exact ⟨s₀, m', hfont, hload, (setupLoaderInfo_right_iff (by decide) (.refl _) hp hload).1 (by decide)⟩

end

/-! ## A memory map of 72 descriptors -/

/-- A page that the firmware keeps. -/
def reservedPage (i : Fin 69) : Descriptor where
  type := .reservedMemoryType
  physicalStart := 0x10000000 + i * 0x2000
  numberOfPages := 1
  inAddressSpace := by
    have hi := i.isLt
    unfold frameSize
    omega
  virtualStart := 0

/-- The sizes of the data are 4064 bytes before and 4112 bytes after a descriptor is appended. -/
def fullMap : List Descriptor := highMap ++ (List.finRange 69).map reservedPage

theorem fullMap_font : ∃ s, mapPSFFont firmwarePage 40 0x2000000 0x2004000 0x1000 (setupBasicPaging firmwarePage 40 clearMemory).2 = some s ∧
    Prepared 40 0x2000000 (fullMap.map Descriptor.toEfiMemoryDescriptor) s.mem := by
  refine font_prepared ⟨?_, ?_⟩ ?_ (List.mem_of_getElem? (i := 1) rfl)
  · decide +kernel
  · decide +kernel
  · decide +kernel

/-- The state after the font is mapped. -/
def fontState : Option Efi :=
  mapPSFFont firmwarePage 40 0x2000000 0x2004000 0x1000 (setupBasicPaging firmwarePage 40 clearMemory).2

theorem fontState_check {s : Efi} (hs : fontState = some s) (P : Efi → Prop) [DecidablePred P]
    (h : fontState.map (fun s => decide (P s)) = some true) : P s := by
  rw [hs] at h
  exact of_decide_eq_true (Option.some.inj h)

/-- The tables of the font's page have one entry each in the window. -/
theorem fontState_tables {s : Efi} (hs : fontState = some s) :
    Reach s.mem osLoaderFont.start 3 0x2000000 1 0x2002000 ∧ Reach s.mem osLoaderFont.start 3 0x2000000 0 0x2003000 ∧
      (∀ i, i < 512 → i ≠ 256 → (s.mem (0x2002000 + 8 * i)).present = false) ∧
      ∀ i, i < 512 → i ≠ 0 → (s.mem (0x2003000 + 8 * i)).present = false := by
  have h3 := fontState_check hs (fun s => s.mem (slot 0x2000000 3 osLoaderFont.start) = 0x2001003#64) (by decide +kernel)
  have h2 := fontState_check hs (fun s => s.mem (slot 0x2001000 2 osLoaderFont.start) = 0x2002003#64) (by decide +kernel)
  have h1 := fontState_check hs (fun s => s.mem (slot 0x2002000 1 osLoaderFont.start) = 0x2003003#64) (by decide +kernel)
  have hpd := fontState_check hs (fun s => ∀ i : Nat, i < 512 → i ≠ 256 → (s.mem (0x2002000 + 8 * i)).present = false) (by decide +kernel)
  have hpt := fontState_check hs (fun s => ∀ i : Nat, i < 512 → i ≠ 0 → (s.mem (0x2003000 + 8 * i)).present = false) (by decide +kernel)
  have hf3 : (s.mem (slot 0x2000000 3 osLoaderFont.start)).frame = 0x2001000 := by
    rw [h3]
    decide
  have hf2 : (s.mem (slot 0x2001000 2 osLoaderFont.start)).frame = 0x2002000 := by
    rw [h2]
    decide
  have hf1 : (s.mem (slot 0x2002000 1 osLoaderFont.start)).frame = 0x2003000 := by
    rw [h1]
    decide
  have hdirectory : Reach s.mem osLoaderFont.start 3 0x2000000 1 0x2002000 := by
    refine .down (by rw [h3]; decide) ?_
    rw [hf3]
    refine .down (by rw [h2]; decide) ?_
    rw [hf2]
    exact .here _ _
  have htable := hdirectory.next (by rw [h1]; decide)
  rw [hf1] at htable
  exact ⟨hdirectory, htable, hpd, hpt⟩

theorem fontState_untouched {s : Efi} (hs : fontState = some s) : Untouched s.mem 0x2000000 := by
  obtain ⟨hdirectory, htable, hpd, hpt⟩ := fontState_tables hs
  obtain ⟨hdata, hfont, hlimit, hend⟩ := window_bounds
  intro va hlow hhigh
  obtain ⟨k, rfl⟩ := Nat.exists_eq_add_of_le hlow
  obtain ⟨hcan, hva, hpath⟩ := window_range (k := k) (by omega)
  have hdirectory' := hpath.reach (Nat.le_refl 3) hdirectory
  by_cases hregion : index 1 (osLoaderData.start + k) = 256
  · have hfontIndex : index 1 osLoaderFont.start = 256 := by decide
    have hpath' : SamePath 1 osLoaderFont.start (osLoaderData.start + k) := hpath.cons (hfontIndex.trans hregion.symm)
    have hpage : index 0 (osLoaderData.start + k) ≠ 0 := by
      unfold index at hregion ⊢
      omega
    refine ⟨translation_absent (fun _ _ _ => rfl) (by decide) (hpath'.reach (Nat.le_refl 3) htable) ?_, fun _ _ => hpath'⟩
    exact hpt _ (index_lt 0 _) hpage
  · have habsent := hpd _ (index_lt 1 (osLoaderData.start + k)) hregion
    refine ⟨translation_absent (fun _ _ _ => rfl) (by decide) hdirectory' habsent, fun t ht => ?_⟩
    obtain ⟨pd, hpd', hlinks, -⟩ := ht.linked (by decide)
    obtain rfl := hpd'.unique hdirectory'
    exact absurd hlinks.1 (by rw [show s.mem (slot _ 1 _) = _ from rfl]; exact Bool.eq_false_iff.mp habsent)

theorem fullMap_load (m : PhysMem) : ∃ m' mmap',
    setupLoaderInfo 40 0x2000000 48 descriptorBytes noInfo fullMap m = some (m', mmap', maxAddressableMemory) :=
  ⟨_, _, rfl⟩

/-- Nobody has the memory above the page that is cut off. -/
theorem fullMap_apart {t : Nat} (ht : InUse (fullMap.map Descriptor.toEfiMemoryDescriptor) t) : t < maxAddressableMemory := by
  have hends : ∀ d ∈ fullMap.map Descriptor.toEfiMemoryDescriptor, d.type ≠ .conventionalMemory →
      d.physicalStart + d.numberOfPages * 4096 ≤ maxAddressableMemory := by decide +kernel
  obtain ⟨d, hd, htype, hlow, hhigh⟩ := ht
  have hend := hends d hd htype
  have hmax : maxAddressableMemory = 0x4000000000 := rfl
  unfold pageSize at hhigh
  omega

/-- The last 16 bytes of the descriptor that was appended are behind the page. -/
theorem full_map_overflow : ∃ s₀ m' mmap', fontState = some s₀ ∧
    Prepared 40 0x2000000 (fullMap.map Descriptor.toEfiMemoryDescriptor) s₀.mem ∧
    setupLoaderInfo 40 0x2000000 48 descriptorBytes noInfo fullMap s₀.mem = some (m', mmap', maxAddressableMemory) ∧
    ¬ Right m' 0x2000000 maxAddressableMemory (totalPages (72 * 48)) (written 48 72)
      (setupTables 40 0x2000000 48 descriptorBytes noInfo fullMap s₀.mem) := by
  obtain ⟨s₀, hfont, hp⟩ := fullMap_font
  obtain ⟨m', mmap', hload⟩ := fullMap_load s₀.mem
  obtain ⟨halign, hlimit, htotal, hroom, hunused, m₁, hcopy, hm', htables⟩ := setupLoaderInfo_run (by decide) (.refl _) hp hload
  refine ⟨s₀, m', mmap', hfont, hp, hload, fun hright => ?_⟩
  have hapart := hcopy fun t ht hin => absurd (fullMap_apart ht) (Nat.not_lt.mpr hin.1)
  have hdecides := window_right (written 48 72) (by decide) hp hapart halign hlimit htotal hroom hunused
  rw [hm', htables] at hright
  have hsizes := (hdecides.2 (fontState_untouched hfont) hright).1
  exact absurd hsizes (by decide)

end BadLands.Loader.LoaderWindow
