import BadLands.Mm.PagingEntries

/-!
# The loader's page tables

The loader builds the kernel's page tables with the firmware's help: `AllocatePages` gives it pages for tables, `SetMem`
clears them, and `IndirectRemap` and `prepareRemap` link them where an entry is not present. The four indices of the
address that is mapped are carried by hand from page to page.

The firmware's answers are a parameter, one address for each call; the calls are logged with the number of pages they
ask for. `Granted` says that the answers were fresh pages. `Built` is what the tables are between two calls: a tree that
consists of the tables that were there at first and of pages of the log. `ensureTable_spec` and `writePage_spec` say what one
entry does to it, `Mapped` what a run of pages does.
-/
namespace BadLands.Loader.Paging

open BadLands.Core BadLands.Core.PageTable BadLands.Mm.Layout BadLands.Mm.Paging

/-! ## The code -/

/-- mirrors bootloader/src/loader/paging.cpp:38-40 -/
def filterAddress (maxphyaddr : Nat) (address : Entry) : Entry :=
  (address &&& ((1#64 <<< maxphyaddr) - 1#64)) &&& ~~~0xFFF#64

/-- `MakePML4E`, `MakePDPTE` and `MakePDE`: one entry format.
mirrors bootloader/src/loader/paging.cpp:42-52 -/
def makeTableEntry (maxphyaddr address : Nat) : Entry :=
  filterAddress maxphyaddr (BitVec.ofNat 64 address) ||| entryReadWrite ||| entryPresent

/-- mirrors bootloader/src/loader/paging.cpp:54-59 -/
def makePTE (maxphyaddr address : Nat) (xd : Bool) : Entry :=
  (if xd then entryXD else 0#64) ||| filterAddress maxphyaddr (BitVec.ofNat 64 address) ||| entryReadWrite ||| entryPresent

/-- mirrors common/include/shared/memory/defs.hpp:28-29 -/
def pdptEntries : Nat := 0x200
def pdEntries : Nat := 0x200

/-- mirrors bootloader/src/loader/paging.cpp:79-87 -/
def updateRemapRVA (rva : VirtualAddress) : VirtualAddress :=
  if rva.pdOffset + 1 ≥ pdEntries then
    if rva.pdptOffset + 1 ≥ pdptEntries then { rva with pdOffset := 0, pdptOffset := 0, pml4Offset := rva.pml4Offset + 1 }
    else { rva with pdOffset := 0, pdptOffset := rva.pdptOffset + 1 }
  else { rva with pdOffset := rva.pdOffset + 1 }

/-- mirrors bootloader/src/loader/paging.cpp:89-94 -/
def fullUpdateRemapRVA (rva : VirtualAddress) : VirtualAddress :=
  if rva.ptOffset + 1 ≥ ptEntries then updateRemapRVA { rva with ptOffset := 0 }
  else { rva with ptOffset := rva.ptOffset + 1 }

/-- Memory, and the calls of `AllocatePages` so far: the address returned and the number of pages. -/
structure Efi where
  mem : PhysMem
  log : List (Nat × Nat)

/-- `SetMem` with zero, over whole words. -/
def zeroMem (m : PhysMem) (a size : Nat) : PhysMem := fun q => if a ≤ q ∧ q < a + size then 0#64 else m q

section
variable (answer : Nat → Nat) (maxphyaddr : Nat)

/-- The firmware answers the `n`-th call with `answer n`. -/
def allocatePages (pages : Nat) (s : Efi) : Nat × Efi :=
  (answer s.log.length, { s with log := s.log ++ [(answer s.log.length, pages)] })

/-- The null pointer when the page is not aligned.
mirrors bootloader/src/loader/paging.cpp:314-333 -/
def setupBasicPaging (s : Efi) : Option Nat × Efi :=
  let (pml4, s) := allocatePages answer 1 s
  let s := { s with mem := zeroMem s.mem pml4 pageSize }
  if pml4 % pageSize ≠ 0 then (none, s)
  else
    let entry := makeTableEntry maxphyaddr pml4 ||| entryXD
    (some pml4, { s with mem := update s.mem (pml4 + entrySize * pagingLoopMask true) entry })

/-- The table behind an entry; a new one if the entry is not present.
mirrors bootloader/src/loader/paging.cpp:101-115, 117-131, 133-145, 183-199, 201-217 and 219-235 -/
def ensureTable (entry : Nat) (s : Efi) : Nat × Efi :=
  if (s.mem entry).present then ((s.mem entry).frame, s)
  else
    let (page, s) := allocatePages answer 1 s
    (page, { s with mem := update (zeroMem s.mem page pageSize) entry (makeTableEntry maxphyaddr page) })

/-- The three tables of an address, from the root.
mirrors bootloader/src/loader/paging.cpp:101-145 and 183-235 -/
def ensureTables (root : Nat) (rva : VirtualAddress) (s : Efi) : Nat × Efi :=
  let (pdpt, s) := ensureTable answer maxphyaddr (root + entrySize * rva.pml4Offset) s
  let (pd, s) := ensureTable answer maxphyaddr (pdpt + entrySize * rva.pdptOffset) s
  ensureTable answer maxphyaddr (pd + entrySize * rva.pdOffset) s

/-- The `for` of `prepareRemap`, with the number of page tables left.
mirrors bootloader/src/loader/paging.cpp:100-149 -/
def prepareLoop (root : Nat) : Nat → VirtualAddress → Efi → Efi
  | 0, _, s => s
  | n + 1, rva, s => prepareLoop root n (updateRemapRVA rva) (ensureTables answer maxphyaddr root rva s).2

/-- mirrors bootloader/src/loader/paging.cpp:96-150 -/
def prepareRemap (root address pages : Nat) (s : Efi) : Efi :=
  prepareLoop answer maxphyaddr root ((pages + ptEntries - 1) / ptEntries) (parseVirtualAddress address) s

/-- mirrors bootloader/src/loader/paging.cpp:175-241; `pat` is `PAT_enable`. -/
def indirectRemap (root : Nat) (rva : VirtualAddress) (source : Nat) (xd pat : Bool) (s : Efi) : Efi :=
  let (pt, s) := ensureTables answer maxphyaddr root rva s
  let pte := makePTE maxphyaddr source xd ||| if pat then ptePAT else 0#64
  { s with mem := update s.mem (pt + entrySize * rva.ptOffset) pte }

/-- The `for` around `IndirectRemap`, with the number of pages left. -/
def indirectLoop (root : Nat) (xd pat : Bool) : Nat → VirtualAddress → Nat → Efi → Efi
  | 0, _, _, s => s
  | n + 1, rva, source, s =>
    indirectLoop root xd pat n (fullUpdateRemapRVA rva) (source + pageSize)
      (indirectRemap answer maxphyaddr root rva source xd pat s)

end

/-! ## Entries -/

/-- A mask of `k` bits above the page offset keeps an aligned address that fits. -/
theorem and_mask {x mask : Entry} {k : Nat} (hmask : mask.toNat = (2 ^ k - 1) <<< 12) (ha : x.toNat % 4096 = 0)
    (hx : x.toNat / 4096 < 2 ^ k) : x &&& mask = x := by
  apply BitVec.eq_of_toNat_eq
  have hshift : x.toNat = (x.toNat / 4096) <<< 12 := by
    rw [shift_page]
    omega
  rw [BitVec.toNat_and, hmask, hshift, ← Nat.shiftLeft_and_distrib, Nat.and_two_pow_sub_one_eq_mod, Nat.mod_eq_of_lt hx]

section
variable {maxphyaddr a : Nat}

/-- The address of a page of memory is one the processor has. -/
theorem filterAddress_eq (hm : maxphyaddr ≤ 52) (ha : a % 4096 = 0) (hlt : a < 2 ^ maxphyaddr) :
    filterAddress maxphyaddr (BitVec.ofNat 64 a) = BitVec.ofNat 64 a ∧
      BitVec.ofNat 64 a &&& entryAddress = BitVec.ofNat 64 a ∧ (BitVec.ofNat 64 a).toNat = a := by
  have hpow : 2 ^ maxphyaddr ≤ 2 ^ 52 := Nat.pow_le_pow_right (by decide) hm
  have hnat : (BitVec.ofNat 64 a).toNat = a := by
    rw [BitVec.toNat_ofNat, Nat.mod_eq_of_lt (by omega)]
  have hlow : BitVec.ofNat 64 a &&& ((1#64 <<< maxphyaddr) - 1#64) = BitVec.ofNat 64 a := by
    apply BitVec.eq_of_toNat_eq
    have hmask : ((1#64 <<< maxphyaddr) - 1#64).toNat = 2 ^ maxphyaddr - 1 := by
      have hpos := Nat.two_pow_pos maxphyaddr
      rw [BitVec.toNat_sub, BitVec.toNat_shiftLeft, BitVec.toNat_ofNat, Nat.shiftLeft_eq, Nat.mod_eq_of_lt (a := 1) (by decide),
        Nat.one_mul]
      generalize 2 ^ maxphyaddr = N at *
      omega
    rw [BitVec.toNat_and, hmask, hnat, Nat.and_two_pow_sub_one_eq_mod, Nat.mod_eq_of_lt hlt]
  refine ⟨?_, and_mask (k := 40) (by decide) (by omega) (by omega), hnat⟩
  rw [filterAddress, hlow]
  exact and_mask (k := 52) (by decide) (by omega) (by omega)

/-- An entry for a table leads to it. -/
theorem makeTableEntry_spec (hm : maxphyaddr ≤ 52) (ha : a % 4096 = 0) (hlt : a < 2 ^ maxphyaddr) :
    (makeTableEntry maxphyaddr a).Links ∧ (makeTableEntry maxphyaddr a).frame = a := by
  obtain ⟨hfilter, hmask, hnat⟩ := filterAddress_eq hm ha hlt
  have heq : makeTableEntry maxphyaddr a = 3#64 ||| (BitVec.ofNat 64 a &&& entryAddress) := by
    rw [makeTableEntry, hfilter, hmask, BitVec.or_assoc, BitVec.or_comm]
    rfl
  obtain ⟨hframe, hpresent, hlarge⟩ := @entry_bits 3#64 (BitVec.ofNat 64 a) (by decide)
  rw [heq]
  refine ⟨⟨hpresent.trans rfl, hlarge.trans rfl⟩, ?_⟩
  rw [hframe, hmask, hnat]

theorem makePTE_present (maxphyaddr a : Nat) (xd pat : Bool) :
    (makePTE maxphyaddr a xd ||| if pat then ptePAT else 0#64).present = true := by
  have hbit : entryPresent.getLsbD 0 = true := by decide
  unfold Entry.present makePTE
  rw [BitVec.getLsbD_or, BitVec.getLsbD_or, hbit, Bool.or_true, Bool.true_or]

/-- So does the entry of a page. -/
theorem makePTE_frame (hm : maxphyaddr ≤ 52) (ha : a % 4096 = 0) (hlt : a < 2 ^ maxphyaddr) (xd pat : Bool) :
    (makePTE maxphyaddr a xd ||| if pat then ptePAT else 0#64).frame = a := by
  obtain ⟨hfilter, hmask, hnat⟩ := filterAddress_eq hm ha hlt
  have heq : ∃ flags : Entry, flags &&& entryAddress = 0#64 ∧
      (makePTE maxphyaddr a xd ||| if pat then ptePAT else 0#64) = flags ||| (BitVec.ofNat 64 a &&& entryAddress) := by
    refine ⟨(if xd then entryXD else 0#64) ||| (entryReadWrite ||| entryPresent) ||| (if pat then ptePAT else 0#64), ?_, ?_⟩
    · cases xd <;> cases pat <;> decide
    · rw [makePTE, hfilter, hmask]
      simp only [BitVec.or_assoc]
      rw [BitVec.or_comm (BitVec.ofNat 64 a)]
      simp only [BitVec.or_assoc]
  obtain ⟨flags, hzero, heq⟩ := heq
  obtain ⟨hframe, -, -⟩ := entry_bits (a := BitVec.ofNat 64 a) hzero
  rw [heq, hframe, hmask, hnat]

end

/-! ## The indices that are carried by hand -/

/-- The indices are those of `va`. -/
structure Follows (rva : VirtualAddress) (va : Nat) : Prop where
  pml4 : rva.pml4Offset = index 3 va
  pdpt : rva.pdptOffset = index 2 va
  pd : rva.pdOffset = index 1 va
  pt : rva.ptOffset = index 0 va

theorem follows_parse (va : Nat) : Follows (parseVirtualAddress va) va := by
  rw [parse_eq]
  exact ⟨rfl, rfl, rfl, rfl⟩

/-- `va` is moved to the next 2MB; the four indices do not wrap together. -/
theorem Follows.update {rva : VirtualAddress} {va : Nat} (h : Follows rva va)
    (hend : (va + 0x200000) / 2 ^ 48 = va / 2 ^ 48) : Follows (updateRemapRVA rva) (va + 0x200000) := by
  obtain ⟨h3, h2, h1, h0⟩ := h
  unfold updateRemapRVA pdEntries pdptEntries
  unfold index at h0 h1 h2 h3
  simp only [Nat.reduceMul, Nat.reduceAdd, Nat.reducePow] at *
  split
  · split
    · constructor <;> simp only [index, Nat.reduceMul, Nat.reduceAdd, Nat.reducePow] <;> omega
    · constructor <;> simp only [index, Nat.reduceMul, Nat.reduceAdd, Nat.reducePow] <;> omega
  · constructor <;> simp only [index, Nat.reduceMul, Nat.reduceAdd, Nat.reducePow] <;> omega

theorem Follows.fullUpdate {rva : VirtualAddress} {va : Nat} (h : Follows rva va)
    (hend : (va + 0x1000) / 2 ^ 48 = va / 2 ^ 48) : Follows (fullUpdateRemapRVA rva) (va + 0x1000) := by
  obtain ⟨h3, h2, h1, h0⟩ := h
  unfold fullUpdateRemapRVA updateRemapRVA pdEntries pdptEntries ptEntries
  unfold index at h0 h1 h2 h3
  simp only [Nat.reduceMul, Nat.reduceAdd, Nat.reducePow] at *
  split
  · split
    · split
      · constructor <;> simp only [index, Nat.reduceMul, Nat.reduceAdd, Nat.reducePow] <;> omega
      · constructor <;> simp only [index, Nat.reduceMul, Nat.reduceAdd, Nat.reducePow] <;> omega
    · constructor <;> simp only [index, Nat.reduceMul, Nat.reduceAdd, Nat.reducePow] <;> omega
  · constructor <;> simp only [index, Nat.reduceMul, Nat.reduceAdd, Nat.reducePow] <;> omega

/-! ## What is there between two calls -/

/-- The root entry that maps the tables themselves. -/
def loopWindow : Windows := fun i => i = windowIndex true

/-- The page at `t` was given by one of the calls. -/
def Given (log : List (Nat × Nat)) (t : Nat) : Prop := ∃ c ∈ log, c.1 ≤ t ∧ t < c.1 + c.2 * 4096

/-- The answers were fresh pages: aligned, memory that the processor has, apart from each other and from the pages `U`
that were in use. -/
structure Granted (maxphyaddr : Nat) (U : Nat → Prop) (log : List (Nat × Nat)) : Prop where
  aligned : ∀ c ∈ log, c.1 % 4096 = 0
  memory : ∀ c ∈ log, c.1 + c.2 * 4096 ≤ 2 ^ maxphyaddr
  unused : ∀ t, U t → ¬ Given log t
  apart : log.Pairwise fun c c' => ∀ t, c.1 ≤ t → t < c.1 + c.2 * 4096 → c'.1 ≤ t → ¬ t < c'.1 + c'.2 * 4096

/-- The tables are a tree of pages that were in use or given, none of them a page of data. -/
structure Built (root : Nat) (U D : Nat → Prop) (s : Efi) : Prop where
  tree : Tree s.mem root loopWindow
  tables : ∀ va n t, Outside loopWindow va → Reach s.mem va 3 root n t → (U t ∨ Given s.log t) ∧ ¬ D t
  links : ∀ va n t, Outside loopWindow va → Reach s.mem va 3 root (n + 1) t →
    (s.mem (slot t (n + 1) va)).present = true → (s.mem (slot t (n + 1) va)).large = false
  data : ∀ t, D t → U t ∨ Given s.log t

/-- No table is lost, no data is written. -/
structure Keeps (root : Nat) (D : Nat → Prop) (s s' : Efi) : Prop where
  log : s.log <+: s'.log
  reach : ∀ va k u, Outside loopWindow va → Reach s.mem va 3 root k u → Reach s'.mem va 3 root k u
  data : ∀ q, D (q / 4096 * 4096) → s'.mem q = s.mem q

section
variable {maxphyaddr root : Nat} {U D : Nat → Prop} {s s' s'' : Efi} {log log' : List (Nat × Nat)}

theorem Given.mono {t : Nat} (h : Given log t) (hp : log <+: log') : Given log' t := by
  obtain ⟨c, hc, h⟩ := h
  exact ⟨c, hp.subset hc, h⟩

theorem Granted.mono (h : Granted maxphyaddr U log') (hp : log <+: log') : Granted maxphyaddr U log where
  aligned c hc := h.aligned c (hp.subset hc)
  memory c hc := h.memory c (hp.subset hc)
  unused t ht hg := h.unused t ht (hg.mono hp)
  apart := h.apart.sublist hp.sublist

/-- A page of the last call is neither in use nor given before. -/
theorem Granted.last {a n t : Nat} (h : Granted maxphyaddr U (log ++ [(a, n)])) (h1 : a ≤ t) (h2 : t < a + n * 4096) :
    ¬ (U t ∨ Given log t) := by
  rintro (hu | ⟨c, hc, h3, h4⟩)
  · exact h.unused t hu ⟨(a, n), by simp, h1, h2⟩
  · have hapart := (List.pairwise_append.mp h.apart).2.2 c hc (a, n) (by simp)
    exact hapart t h3 h4 h1 h2

theorem Keeps.refl (s : Efi) : Keeps root D s s := ⟨List.prefix_rfl, fun _ _ _ _ h => h, fun _ _ => rfl⟩

theorem Keeps.trans (h : Keeps root D s s') (h' : Keeps root D s' s'') : Keeps root D s s'' where
  log := h.log.trans h'.log
  reach va k u hva hr := h'.reach va k u hva (h.reach va k u hva hr)
  data q hq := (h'.data q hq).trans (h.data q hq)

theorem slot_page {t : Nat} (ht : t % 4096 = 0) (n va : Nat) : slot t n va / 4096 * 4096 = t := by
  have := index_lt n va
  unfold slot
  omega

end

/-! ## Pages that hold no table -/

section
variable {answer : Nat → Nat} {maxphyaddr root : Nat} {U D D' : Nat → Prop} {s : Efi}

theorem Built.mono (h : Built root U D' s) (hd : ∀ t, D t → D' t) : Built root U D s where
  tree := h.tree
  tables va n t hva ht := ⟨(h.tables va n t hva ht).1, fun hdt => (h.tables va n t hva ht).2 (hd t hdt)⟩
  links := h.links
  data t ht := h.data t (hd t ht)

/-- Memory that is neither in use nor given is written. -/
theorem untouched_spec (hb : Built root U D s) {m : PhysMem}
    (hm : ∀ q, U (q / 4096 * 4096) ∨ Given s.log (q / 4096 * 4096) → m q = s.mem q) :
    Built root U D ⟨m, s.log⟩ ∧ Keeps root D s ⟨m, s.log⟩ ∧
      (∀ va, Outside loopWindow va → translation m root va = translation s.mem root va) ∧
      ∀ va, Outside loopWindow va → ∀ k u, Reach m va 3 root k u ↔ Reach s.mem va 3 root k u := by
  have hslot : ∀ va k u, Outside loopWindow va → Reach s.mem va 3 root k u → m (slot u k va) = s.mem (slot u k va) := by
    intro va k u hva hu
    refine hm _ ?_
    rw [slot_page (hu.aligned hb.tree.aligned) k va]
    exact (hb.tables va k u hva hu).1
  have hreach : ∀ va, Outside loopWindow va → ∀ k u, Reach m va 3 root k u ↔ Reach s.mem va 3 root k u := fun va hva k u =>
    reach_congr fun j v hv _ => hslot va j v hva hv
  refine ⟨⟨⟨hb.tree.aligned, fun va va' k k' u hva hva' hu hu' => ?_⟩, fun va k u hva hu => ?_, fun va k u hva hu hp => ?_, hb.data⟩,
    ⟨List.prefix_rfl, fun va k u hva hu => (hreach va hva k u).mpr hu, fun q hq => hm q (hb.data _ hq)⟩, fun va hva => ?_, hreach⟩
  · exact hb.tree.once va va' k k' u hva hva' ((hreach va hva k u).mp hu) ((hreach va' hva' k' u).mp hu')
  · exact hb.tables va k u hva ((hreach va hva k u).mp hu)
  · have hold := (hreach va hva (k + 1) u).mp hu
    dsimp only at hp ⊢
    rw [hslot va (k + 1) u hva hold] at hp ⊢
    exact hb.links va k u hva hold hp
  · unfold translation
    split
    · exact walk_congr fun k u hu => hslot va k u hva hu
    · rfl

/-- Pages are given, and written. -/
theorem written_spec (hb : Built root U D s) {a n : Nat} (hg : Granted maxphyaddr U (s.log ++ [(a, n)])) {m : PhysMem}
    (hm : ∀ q, ¬ (a ≤ q ∧ q < a + n * 4096) → m q = s.mem q) :
    Built root U (fun t => D t ∨ (a ≤ t ∧ t < a + n * 4096)) ⟨m, s.log ++ [(a, n)]⟩ ∧
      Keeps root D s ⟨m, s.log ++ [(a, n)]⟩ ∧
      ∀ va, Outside loopWindow va → translation m root va = translation s.mem root va := by
  have hmem : (a, n) ∈ s.log ++ [(a, n)] := by simp
  have hround : a % 4096 = 0 := hg.aligned _ hmem
  have hgrow : s.log <+: s.log ++ [(a, n)] := List.prefix_append _ _
  -- a page that was in use or given before is not one of the new ones
  obtain ⟨hb', hk, htranslate, -⟩ := untouched_spec hb fun q hq => hm q fun hin =>
    hg.last (t := q / 4096 * 4096) (by omega) (by omega) hq
  refine ⟨⟨hb'.tree, fun va k u hva hu => ?_, hb'.links, fun t ht => ?_⟩, ⟨hgrow, hk.reach, hk.data⟩, htranslate⟩
  · obtain ⟨hu, hd⟩ := hb'.tables va k u hva hu
    exact ⟨hu.imp_right fun hu => hu.mono hgrow, fun hd' => hd'.elim hd fun hin => hg.last hin.1 hin.2 hu⟩
  · rcases ht with ht | ht
    · exact (hb.data t ht).imp_right fun hu => hu.mono hgrow
    · exact .inr ⟨(a, n), hmem, ht⟩

/-- A root of its own, with nothing mapped outside the window. -/
theorem setupBasicPaging_spec
    (hg : Granted maxphyaddr U (setupBasicPaging answer maxphyaddr s).2.log) :
    ∃ s', setupBasicPaging answer maxphyaddr s = (some (answer s.log.length), s') ∧
      Built (answer s.log.length) U (fun _ => False) s' ∧
      ∀ va, Outside loopWindow va → translation s'.mem (answer s.log.length) va = none := by
  unfold setupBasicPaging allocatePages at hg ⊢
  dsimp only at hg ⊢
  generalize answer s.log.length = a at hg ⊢
  have hmem : (a, 1) ∈ s.log ++ [(a, 1)] := by simp
  have hsize : pageSize = 4096 := rfl
  have halign : a % 4096 = 0 := by
    split at hg
    · exact hg.aligned _ hmem
    · exact hg.aligned _ hmem
  rw [if_neg (by rw [hsize]; omega)]
  generalize hs : update (zeroMem s.mem a pageSize) (a + entrySize * pagingLoopMask true) (makeTableEntry maxphyaddr a ||| entryXD)
    = m
  have hzero : ∀ va, Outside loopWindow va → m (slot a 3 va) = 0#64 := by
    intro va hva
    have hi := index_lt 3 va
    have hmask : pagingLoopMask true = windowIndex true := rfl
    have hne : index 3 va ≠ pagingLoopMask true := fun he => hva (he.trans hmask)
    rw [← hs]
    unfold update zeroMem slot entrySize
    rw [if_neg (by omega), if_pos (by omega)]
  have hreach : ∀ va k u, Outside loopWindow va → Reach m va 3 a k u → k = 3 ∧ u = a := by
    intro va k u hva hu
    cases hu with
    | here => exact ⟨rfl, rfl⟩
    | down hl _ =>
      rw [hzero va hva] at hl
      cases hl.1
  refine ⟨_, rfl, ⟨⟨halign, fun va va' k k' u hva hva' hu hu' => ?_⟩, fun va k u hva hu => ?_, fun va k u hva hu hp => ?_,
    fun _ ht => ht.elim⟩, fun va hva => ?_⟩
  · obtain ⟨rfl, -⟩ := hreach va k u hva hu
    obtain ⟨rfl, -⟩ := hreach va' k' u hva' hu'
    exact ⟨rfl, fun j h4 h3 => by omega⟩
  · obtain ⟨-, rfl⟩ := hreach va k u hva hu
    exact ⟨.inr ⟨(u, 1), hmem, Nat.le_refl _, by dsimp only; omega⟩, fun hf => hf⟩
  · obtain ⟨hk, rfl⟩ := hreach va (k + 1) u hva hu
    obtain rfl : k = 2 := by omega
    dsimp only at hp ⊢
    rw [hzero va hva] at hp
    cases hp
  · unfold translation
    split
    · refine walk_absent ?_
      dsimp only
      rw [hzero va hva]
      rfl
    · rfl

end

/-! ## One entry -/

section
variable {answer : Nat → Nat} {maxphyaddr root : Nat} {U D : Nat → Prop} {s : Efi} {va : Nat}

/-- Memory with a new table. -/
theorem update_zero_same {p a : Nat} (e : Entry) : SameBut s.mem (update (zeroMem s.mem a pageSize) p e) p (· = a) := by
  intro q hq hf
  have hf := hf a rfl
  unfold update zeroMem
  rw [if_neg hq]
  exact if_neg hf

/-- A fresh page, cleared, is linked where nothing was present. -/
theorem linked_spec (hm : maxphyaddr ≤ 52) (hb : Built root U D s) (hva : Outside loopWindow va) {n t : Nat}
    (ht : Reach s.mem va 3 root (n + 1) t) (habsent : (s.mem (slot t (n + 1) va)).present = false) {a : Nat}
    (hg : Granted maxphyaddr U (s.log ++ [(a, 1)])) {m : PhysMem} (hsame : SameBut s.mem m (slot t (n + 1) va) (· = a))
    (hentry : m (slot t (n + 1) va) = makeTableEntry maxphyaddr a)
    (hzero : ∀ i, i < 512 → a + 8 * i ≠ slot t (n + 1) va → m (a + 8 * i) = 0#64) :
    Link s.mem m root loopWindow va n t a ∧ Built root U D ⟨m, s.log ++ [(a, 1)]⟩ ∧ Keeps root D s ⟨m, s.log ++ [(a, 1)]⟩ := by
  have hmem : (a, 1) ∈ s.log ++ [(a, 1)] := by simp
  have hround := hg.aligned _ hmem
  have hlimit := hg.memory _ hmem
  have hnew := hg.last (t := a) (Nat.le_refl _) (by omega)
  have hgrow : s.log <+: s.log ++ [(a, 1)] := List.prefix_append _ _
  have htalign := ht.aligned hb.tree.aligned
  have hnotD : ¬ D a := fun hd => hnew (hb.data a hd)
  obtain ⟨hlinks, hframe⟩ := makeTableEntry_spec (a := a) hm hround (by omega)
  have hslot : ¬ (a ≤ slot t (n + 1) va ∧ slot t (n + 1) va < a + 4096) := by
    intro hin
    have hpage := slot_page htalign (n + 1) va
    obtain rfl : t = a := by omega
    exact hnew (hb.tables va (n + 1) t hva ht).1
  have hlink : Link s.mem m root loopWindow va n t a := by
    refine ⟨hva, ht, habsent, ⟨hround, fun va' k u hva' hu hua => ?_⟩, hsame, ?_, ?_, fun i hi => hzero i hi (by omega)⟩
    · subst hua
      exact hnew (hb.tables va' k u hva' hu).1
    · rw [hentry]
      exact hlinks
    · rw [hentry]
      exact hframe
  refine ⟨hlink, ⟨hlink.tree hb.tree, fun va' k u hva' hu => ?_, fun va' k u hva' hu hpres => ?_, fun u hu => ?_⟩,
    ⟨hgrow, fun va' k u hva' hu => (hlink.reach_iff hb.tree hva').mpr (.inl hu), fun q hq => ?_⟩⟩
  · rcases (hlink.reach_iff hb.tree hva').mp hu with hu | ⟨-, rfl, -⟩
    · obtain ⟨hu, hd⟩ := hb.tables va' k u hva' hu
      exact ⟨hu.imp_right fun hu => hu.mono hgrow, hd⟩
    · exact ⟨.inr ⟨(u, 1), hmem, Nat.le_refl _, by dsimp only; omega⟩, hnotD⟩
  · rcases (hlink.reach_iff hb.tree hva').mp hu with hold | ⟨-, rfl, -⟩
    · by_cases heq : slot u (k + 1) va' = slot t (n + 1) va
      · rw [heq]
        exact hlink.links.2
      · have hkept : m (slot u (k + 1) va') = s.mem (slot u (k + 1) va') := by
          refine hlink.same _ heq fun f hf hin => ?_
          subst hf
          have hpage := slot_page (hold.aligned hb.tree.aligned) (k + 1) va'
          have hua : u = f := by omega
          have htable := (hb.tables va' (k + 1) u hva' hold).1
          rw [hua] at htable
          exact hnew htable
        dsimp only at hpres ⊢
        rw [hkept] at hpres ⊢
        exact hb.links va' k u hva' hold hpres
    · rw [zero_absent hlink.zero] at hpres
      cases hpres
  · exact (hb.data u hu).imp_right fun hu => hu.mono hgrow
  · refine hlink.same q (fun heq => ?_) fun f hf hin => ?_
    · rw [heq, slot_page htalign (n + 1) va] at hq
      exact (hb.tables va (n + 1) t hva ht).2 hq
    · subst hf
      rw [show q / 4096 * 4096 = f by omega] at hq
      exact hnotD hq

theorem ensureTable_spec (hm : maxphyaddr ≤ 52) (hb : Built root U D s) (hva : Outside loopWindow va) {n t : Nat}
    (ht : Reach s.mem va 3 root (n + 1) t) {r : Nat × Efi} (hr : ensureTable answer maxphyaddr (slot t (n + 1) va) s = r)
    (hg : Granted maxphyaddr U r.2.log) :
    Built root U D r.2 ∧ Keeps root D s r.2 ∧ Reach r.2.mem va 3 root n r.1 ∧
      ∀ va', Outside loopWindow va' → translation r.2.mem root va' = translation s.mem root va' := by
  unfold ensureTable at hr
  by_cases hp : (s.mem (slot t (n + 1) va)).present = true
  · rw [if_pos hp] at hr
    subst hr
    exact ⟨hb, .refl s, ht.next ⟨hp, hb.links va n t hva ht hp⟩, fun _ _ => rfl⟩
  · rw [if_neg hp] at hr
    unfold allocatePages at hr
    dsimp only at hr
    generalize answer s.log.length = a at hr
    subst hr
    have hsize : pageSize = 4096 := rfl
    have hzero : ∀ i, i < 512 → a + 8 * i ≠ slot t (n + 1) va →
        update (zeroMem s.mem a pageSize) (slot t (n + 1) va) (makeTableEntry maxphyaddr a) (a + 8 * i) = 0#64 := fun i hi hne => by
      unfold update zeroMem
      rw [if_neg hne, if_pos (by omega)]
    obtain ⟨hlink, hb', hk⟩ := linked_spec hm hb hva ht (by simpa using hp) hg (update_zero_same _) (if_pos rfl) hzero
    exact ⟨hb', hk, (hlink.reach_iff hb.tree hva).mpr (.inr ⟨rfl, rfl, fun _ _ _ => rfl⟩), fun va' hva' => hlink.translate hb.tree hva'⟩

theorem ensureTable_log (entry : Nat) (s : Efi) : s.log <+: (ensureTable answer maxphyaddr entry s).2.log := by
  unfold ensureTable
  split
  · exact List.prefix_rfl
  · exact List.prefix_append _ _

/-- The three tables above a page. -/
theorem ensureTables_spec (hm : maxphyaddr ≤ 52) (hb : Built root U D s) (hva : Outside loopWindow va)
    {rva : VirtualAddress} (hrva : Follows rva va) {r : Nat × Efi} (hr : ensureTables answer maxphyaddr root rva s = r)
    (hg : Granted maxphyaddr U r.2.log) :
    Built root U D r.2 ∧ Keeps root D s r.2 ∧ Reach r.2.mem va 3 root 0 r.1 ∧
      ∀ va', Outside loopWindow va' → translation r.2.mem root va' = translation s.mem root va' := by
  have hentry : ∀ t n, t + entrySize * index n va = slot t n va := fun _ _ => rfl
  unfold ensureTables at hr
  rw [hrva.pml4, hrva.pdpt, hrva.pd] at hr
  dsimp only at hr
  rw [hentry root 3] at hr
  generalize h3 : ensureTable answer maxphyaddr (slot root 3 va) s = r3 at hr
  rw [hentry r3.1 2] at hr
  generalize h2 : ensureTable answer maxphyaddr (slot r3.1 2 va) r3.2 = r2 at hr
  rw [hentry r2.1 1] at hr
  have hg2 : Granted maxphyaddr U r2.2.log := hg.mono (hr ▸ ensureTable_log _ _)
  have hg3 : Granted maxphyaddr U r3.2.log := hg2.mono (h2 ▸ ensureTable_log _ _)
  obtain ⟨hb3, hk3, hr3, ht3⟩ := ensureTable_spec (n := 2) hm hb hva (.here _ _) h3 hg3
  obtain ⟨hb2, hk2, hr2, ht2⟩ := ensureTable_spec (n := 1) hm hb3 hva hr3 h2 hg2
  obtain ⟨hb1, hk1, hr1, ht1⟩ := ensureTable_spec (n := 0) hm hb2 hva hr2 hr hg
  refine ⟨hb1, (hk3.trans hk2).trans hk1, hr1, fun va' hva' => ?_⟩
  rw [ht1 va' hva', ht2 va' hva', ht3 va' hva']

/-- Writing the entry of a page. -/
theorem writePage_spec (hb : Built root U D s) (hcan : Canonical va) (hva : Outside loopWindow va) {t : Nat}
    (ht : Reach s.mem va 3 root 0 t) {e : Entry} (hpresent : e.present = true) :
    Built root U D { s with mem := update s.mem (slot t 0 va) e } ∧
      Keeps root D s { s with mem := update s.mem (slot t 0 va) e } ∧
      ∀ va', Outside loopWindow va' → Canonical va' → translation (update s.mem (slot t 0 va) e) root va' =
        if va' / 4096 = va / 4096 then some (e.frame + va' % 4096) else translation s.mem root va' := by
  have hbut : SameBut s.mem (update s.mem (slot t 0 va) e) (slot t 0 va) fun _ => False := fun q hq _ => if_neg hq
  have hentry : update s.mem (slot t 0 va) e (slot t 0 va) = e := if_pos rfl
  have hreach : ∀ va', Outside loopWindow va' → ∀ k u, Reach (update s.mem (slot t 0 va) e) va' 3 root k u ↔
      Reach s.mem va' 3 root k u := fun va' hva' k u => leaf_reach hb.tree hva ht hbut hva'
  refine ⟨⟨⟨hb.tree.aligned, fun a b k k' u ha hb' hu hu' => ?_⟩, fun va' k u hva' hu => ?_, fun va' k u hva' hu hp => ?_, hb.data⟩,
    ⟨List.prefix_rfl, fun va' k u hva' hu => (hreach va' hva' k u).mpr hu, fun q hq => ?_⟩, fun va' hva' hcan' => ?_⟩
  · exact hb.tree.once a b k k' u ha hb' ((hreach a ha k u).mp hu) ((hreach b hb' k' u).mp hu')
  · exact hb.tables va' k u hva' ((hreach va' hva' k u).mp hu)
  · have hold := (hreach va' hva' (k + 1) u).mp hu
    -- an entry of a higher table is not the one that is written
    have hne : slot u (k + 1) va' ≠ slot t 0 va := fun heq => by
      obtain ⟨rfl, -⟩ := slot_inj (hold.aligned hb.tree.aligned) (ht.aligned hb.tree.aligned) heq
      have hlevel := (hb.tree.once va' va (k + 1) 0 u hva' hva hold ht).1
      omega
    have hsame : update s.mem (slot t 0 va) e (slot u (k + 1) va') = s.mem (slot u (k + 1) va') := if_neg hne
    dsimp only at hp ⊢
    rw [hsame] at hp ⊢
    exact hb.links va' k u hva' hold hp
  · refine if_neg fun heq => ?_
    rw [heq, slot_page (ht.aligned hb.tree.aligned) 0 va] at hq
    exact (hb.tables va 0 t hva ht).2 hq
  · by_cases hpage : va' / 4096 = va / 4096
    · have hpath : SamePath 0 va' va := fun k _ h3 => by
        unfold index
        rw [Nat.pow_add, ← Nat.div_div_eq_div_mul, ← Nat.div_div_eq_div_mul, show 2 ^ 12 = 4096 from rfl, hpage]
      rw [if_pos hpage, leaf_translate hb.tree hva ht hbut (by rw [hentry]; exact hpresent) hcan' hva' hpath, hentry]
    · rw [if_neg hpage]
      exact leaf_translate_other hb.tree hva ht hbut hva' fun hpath => hpage (samePath_page hcan' hcan hpath)

theorem ensureTables_log (rva : VirtualAddress) (s : Efi) : s.log <+: (ensureTables answer maxphyaddr root rva s).2.log :=
  ((ensureTable_log _ _).trans (ensureTable_log _ _)).trans (ensureTable_log _ _)

/-! ## Runs of pages -/

/-- One page, whatever its source. -/
theorem indirectRemap_spec (hm : maxphyaddr ≤ 52) (hb : Built root U D s) (hcan : Canonical va) (hva : Outside loopWindow va)
    {rva : VirtualAddress} (hrva : Follows rva va) {source : Nat} {xd pat : Bool} {s' : Efi}
    (hr : indirectRemap answer maxphyaddr root rva source xd pat s = s') (hg : Granted maxphyaddr U s'.log) :
    Built root U D s' ∧ Keeps root D s s' ∧ ∀ va', Outside loopWindow va' → Canonical va' →
      translation s'.mem root va' = if va' / 4096 = va / 4096
        then some ((makePTE maxphyaddr source xd ||| if pat then ptePAT else 0#64).frame + va' % 4096)
        else translation s.mem root va' := by
  unfold indirectRemap at hr
  dsimp only at hr
  generalize ht : ensureTables answer maxphyaddr root rva s = r at hr
  subst hr
  obtain ⟨hb', hk, hreach, hsame⟩ := ensureTables_spec hm hb hva hrva ht hg
  obtain ⟨hb'', hk', htranslate⟩ := writePage_spec hb' hcan hva hreach (makePTE_present maxphyaddr source xd pat)
  have hentry : r.1 + entrySize * rva.ptOffset = slot r.1 0 va := by
    rw [hrva.pt]
    rfl
  rw [hentry]
  refine ⟨hb'', hk.trans hk', fun va' hva' hcan' => ?_⟩
  rw [htranslate va' hva' hcan', hsame va' hva']

/-- The next page of a range of addresses the processor takes. -/
theorem canonical_next {va : Nat} (h : Canonical (va + 4096)) : (va + 4096) / 2 ^ 48 = va / 2 ^ 48 := by
  unfold Canonical at h
  omega

theorem indirectRemap_log (rva : VirtualAddress) (source : Nat) (xd pat : Bool) (s : Efi) :
    s.log <+: (indirectRemap answer maxphyaddr root rva source xd pat s).log := ensureTables_log rva s

theorem indirectLoop_log (xd pat : Bool) : ∀ (n : Nat) (rva : VirtualAddress) (source : Nat) (s : Efi),
    s.log <+: (indirectLoop answer maxphyaddr root xd pat n rva source s).log
  | 0, _, _, _ => List.prefix_rfl
  | n + 1, _, _, _ => (indirectRemap_log ..).trans (indirectLoop_log xd pat n _ _ _)

/-- The range of a run of pages, after its first page. -/
theorem range_next {n va : Nat} (h : ∀ i, i < n + 1 → Canonical (va + i * 4096) ∧ Outside loopWindow (va + i * 4096)) :
    Canonical va ∧ Outside loopWindow va ∧ (n ≠ 0 → (va + 4096) / 2 ^ 48 = va / 2 ^ 48) ∧
      ∀ i, i < n → Canonical (va + 4096 + i * 4096) ∧ Outside loopWindow (va + 4096 + i * 4096) := by
  have hfirst := h 0 (by omega)
  rw [Nat.zero_mul, Nat.add_zero] at hfirst
  refine ⟨hfirst.1, hfirst.2, fun hn => canonical_next ?_, fun i hi => ?_⟩
  · have := (h 1 (by omega)).1
    rwa [Nat.one_mul] at this
  · have := h (i + 1) (by omega)
    rwa [show va + (i + 1) * 4096 = va + 4096 + i * 4096 by omega] at this

theorem indirectLoop_keeps (hm : maxphyaddr ≤ 52) {xd pat : Bool} : ∀ (n va source : Nat) (rva : VirtualAddress) (s : Efi),
    Built root U D s → (n ≠ 0 → Follows rva va) →
    (∀ i, i < n → Canonical (va + i * 4096) ∧ Outside loopWindow (va + i * 4096)) →
    Granted maxphyaddr U (indirectLoop answer maxphyaddr root xd pat n rva source s).log →
    Built root U D (indirectLoop answer maxphyaddr root xd pat n rva source s) ∧
      Keeps root D s (indirectLoop answer maxphyaddr root xd pat n rva source s)
  | 0, _, _, _, s, hb, _, _, _ => ⟨hb, .refl s⟩
  | n + 1, va, source, rva, s, hb, hrva, hrange, hg => by
    unfold indirectLoop at hg ⊢
    obtain ⟨hcan, hva, hnext, hrest⟩ := range_next hrange
    obtain ⟨hb', hk, -⟩ := indirectRemap_spec hm hb hcan hva (hrva (by omega)) rfl (hg.mono (indirectLoop_log ..))
    obtain ⟨hb'', hk'⟩ := indirectLoop_keeps hm n (va + 4096) (source + pageSize) _ _ hb'
      (fun hn => (hrva (by omega)).fullUpdate (hnext hn)) hrest hg
    exact ⟨hb'', hk.trans hk'⟩

/-- The walk to the first page gets to its page table. -/
theorem indirectLoop_reach (hm : maxphyaddr ≤ 52) {xd pat : Bool} {n source : Nat} {rva : VirtualAddress}
    (hb : Built root U D s) (hrva : Follows rva va)
    (hrange : ∀ i, i < n + 1 → Canonical (va + i * 4096) ∧ Outside loopWindow (va + i * 4096))
    (hg : Granted maxphyaddr U (indirectLoop answer maxphyaddr root xd pat (n + 1) rva source s).log) :
    ∃ t, Reach (indirectLoop answer maxphyaddr root xd pat (n + 1) rva source s).mem va 3 root 0 t := by
  unfold indirectLoop at hg ⊢
  obtain ⟨hcan, hva, hnext, hrest⟩ := range_next hrange
  have hg' : Granted maxphyaddr U (indirectRemap answer maxphyaddr root rva source xd pat s).log := hg.mono (indirectLoop_log ..)
  have htables : Granted maxphyaddr U (ensureTables answer maxphyaddr root rva s).2.log := hg'
  obtain ⟨hb', -⟩ := indirectRemap_spec hm hb hcan hva hrva rfl hg'
  obtain ⟨-, hk⟩ := indirectLoop_keeps hm n (va + 4096) (source + pageSize) _ _ hb' (fun hn => hrva.fullUpdate (hnext hn)) hrest hg
  obtain ⟨hb₁, -, hreach, -⟩ := ensureTables_spec hm hb hva hrva rfl htables
  obtain ⟨-, hk₁, -⟩ := writePage_spec hb₁ hcan hva hreach (makePTE_present maxphyaddr source xd pat)
  refine ⟨(ensureTables answer maxphyaddr root rva s).1, hk.reach va 0 _ hva ?_⟩
  have hentry : ∀ t, t + entrySize * rva.ptOffset = slot t 0 va := fun t => by
    rw [hrva.pt]
    rfl
  unfold indirectRemap
  dsimp only
  rw [hentry]
  exact hk₁.reach va 0 _ hva hreach

/-- Pages of memory, one after the other. -/
theorem indirectLoop_spec (hm : maxphyaddr ≤ 52) {xd pat : Bool} : ∀ (n va source : Nat) (rva : VirtualAddress) (s : Efi),
    Built root U D s → (n ≠ 0 → Follows rva va) →
    (∀ i, i < n → Canonical (va + i * 4096) ∧ Outside loopWindow (va + i * 4096)) →
    source % 4096 = 0 → source + n * 4096 ≤ 2 ^ maxphyaddr →
    Granted maxphyaddr U (indirectLoop answer maxphyaddr root xd pat n rva source s).log →
    ∀ va', Outside loopWindow va' → Canonical va' →
      translation (indirectLoop answer maxphyaddr root xd pat n rva source s).mem root va' =
        if va / 4096 ≤ va' / 4096 ∧ va' / 4096 < va / 4096 + n
        then some (source + (va' / 4096 - va / 4096) * 4096 + va' % 4096) else translation s.mem root va'
  | 0, _, _, _, s, _, _, _, _, _, _ => fun va' _ _ => (if_neg (by omega)).symm
  | n + 1, va, source, rva, s, hb, hrva, hrange, hsource, hlimit, hg => by
    unfold indirectLoop at hg ⊢
    obtain ⟨hcan, hva, hnext, hrest⟩ := range_next hrange
    obtain ⟨hb', -, htranslate⟩ := indirectRemap_spec hm hb hcan hva (hrva (by omega)) rfl (hg.mono (indirectLoop_log ..))
    have htranslate' := indirectLoop_spec hm n (va + 4096) (source + pageSize) _ _ hb'
      (fun hn => (hrva (by omega)).fullUpdate (hnext hn)) hrest (by unfold pageSize; omega) (by unfold pageSize; omega) hg
    intro va' hva' hcan'
    rw [htranslate' va' hva' hcan', htranslate va' hva' hcan', makePTE_frame hm hsource (by omega)]
    have hsize : pageSize = 4096 := rfl
    by_cases hfirst : va' / 4096 = va / 4096
    · rw [if_neg (by omega), if_pos hfirst, if_pos (by omega), hfirst, Nat.sub_self, Nat.zero_mul, Nat.add_zero]
    · by_cases hin : (va + 4096) / 4096 ≤ va' / 4096 ∧ va' / 4096 < (va + 4096) / 4096 + n
      · rw [if_pos hin, if_pos (by omega)]
        exact congrArg some (by omega)
      · rw [if_neg hin, if_neg hfirst, if_neg (by omega)]

theorem prepareLoop_log : ∀ (n : Nat) (rva : VirtualAddress) (s : Efi),
    s.log <+: (prepareLoop answer maxphyaddr root n rva s).log
  | 0, _, _ => List.prefix_rfl
  | n + 1, _, _ => (ensureTables_log ..).trans (prepareLoop_log n _ _)

/-- After `prepareRemap` each 2MB has its page table. -/
theorem prepareLoop_spec (hm : maxphyaddr ≤ 52) : ∀ (n va : Nat) (rva : VirtualAddress) (s : Efi), Built root U D s →
    Follows rva va → (∀ i, i < n → Outside loopWindow (va + i * 0x200000)) → (va + n * 0x200000) / 2 ^ 48 = va / 2 ^ 48 →
    Granted maxphyaddr U (prepareLoop answer maxphyaddr root n rva s).log →
    Built root U D (prepareLoop answer maxphyaddr root n rva s) ∧
      Keeps root D s (prepareLoop answer maxphyaddr root n rva s) ∧
      ∀ i, i < n → ∃ t, Reach (prepareLoop answer maxphyaddr root n rva s).mem (va + i * 0x200000) 3 root 0 t
  | 0, _, _, s, hb, _, _, _, _ => ⟨hb, .refl s, fun i hi => absurd hi (Nat.not_lt_zero i)⟩
  | n + 1, va, rva, s, hb, hrva, hrange, hend, hg => by
    unfold prepareLoop at hg ⊢
    have hva := hrange 0 (by omega)
    rw [Nat.zero_mul, Nat.add_zero] at hva
    generalize hs : ensureTables answer maxphyaddr root rva s = r at hg ⊢
    obtain ⟨hb', hk, hreach, -⟩ := ensureTables_spec hm hb hva hrva hs (hg.mono (prepareLoop_log ..))
    have hrest : ∀ i, i < n → Outside loopWindow (va + 0x200000 + i * 0x200000) := fun i hi => by
      have := hrange (i + 1) (by omega)
      rwa [show va + (i + 1) * 0x200000 = va + 0x200000 + i * 0x200000 by omega] at this
    obtain ⟨hb'', hk', hreach'⟩ := prepareLoop_spec hm n (va + 0x200000) _ r.2 hb' (hrva.update (by omega)) hrest (by omega) hg
    refine ⟨hb'', hk.trans hk', fun i hi => ?_⟩
    cases i with
    | zero =>
      rw [Nat.zero_mul, Nat.add_zero]
      exact ⟨r.1, hk'.reach va 0 r.1 hva hreach⟩
    | succ i =>
      obtain ⟨t, ht⟩ := hreach' i (by omega)
      rw [show va + (i + 1) * 0x200000 = va + 0x200000 + i * 0x200000 by omega]
      exact ⟨t, ht⟩

end

/-! ## A firmware that goes up in memory -/

def nextPage (n : Nat) : Nat := (n + 1) * 4096

def clearMemory : Efi := ⟨fun _ => 0#64, []⟩

theorem granted_up {maxphyaddr : Nat} {log : List (Nat × Nat)} (h : ∀ c ∈ log, c.1 % 4096 = 0 ∧ c.1 + c.2 * 4096 ≤ 2 ^ maxphyaddr)
    (hup : log.Pairwise fun c c' => c.1 + c.2 * 4096 ≤ c'.1) : Granted maxphyaddr (fun _ => False) log where
  aligned c hc := (h c hc).1
  memory c hc := (h c hc).2
  unused _ ht := ht.elim
  apart := hup.imp fun hcc t _ h2 h3 => by omega

theorem setupBasicPaging_clearMemory :
    setupBasicPaging nextPage 36 clearMemory = (some 0x1000, (setupBasicPaging nextPage 36 clearMemory).2) :=
  Prod.ext (by decide +kernel) rfl

end BadLands.Loader.Paging
