import BadLands.Mm.PagingEntries

/-!
# The kernel's own walk

`IsMapped` and `GetPhysicalAddress` read the entries of an address through a recursive window, one pointer for each
level. They look at the page-size bit of the PD's entry only. Where an entry further up has that bit, the pointers
below it go through a large page, and the words they find there are no entries: `pdeWord` and `pteWord`.

`walk_agrees_iff`: the result is the one of the processor's walk exactly when no such entry is on the way, or the
words that are read in its place happen to say the same.
-/
namespace BadLands.Mm.SoftwareWalk

open BadLands.Core BadLands.Core.PageTable BadLands.Mm.Layout BadLands.Mm.Paging

/-- mirrors kernel/src/mm/Paging.cpp:548-575 -/
def isMapped (m : PhysMem) (root virtualAddress : Nat) (usePrimary : Bool) : Option Bool := do
  let mapping := parseVirtualAddress virtualAddress
  let pml4eInfo := getPML4EInfo (← readVirtual m root (getPML4EAddress mapping usePrimary))
  if !pml4eInfo.present then return false
  let pdpteInfo := getPDPTEInfo (← readVirtual m root (getPDPTEAddress mapping usePrimary))
  if !pdpteInfo.present then return false
  let pdeInfo := getPDEInfo (← readVirtual m root (getPDEAddress mapping usePrimary))
  if !pdeInfo.present then return false
  if pdeInfo.pageSize then return true
  let pteInfo := getPTEInfo (← readVirtual m root (getPTEAddress mapping usePrimary))
  return pteInfo.present

/-- mirrors kernel/src/mm/Paging.cpp:508-534 -/
def getPhysicalAddress (m : PhysMem) (root virtualAddress : Nat) (usePrimary : Bool) : Option (Option Nat) := do
  let mapping := parseVirtualAddress virtualAddress
  let mapped ← isMapped m root virtualAddress usePrimary
  if !mapped then return none
  let pdeInfo := getPDEInfo (← readVirtual m root (getPDEAddress mapping usePrimary))
  if pdeInfo.pageSize then
    let frameOffset := virtualAddress &&& (pdeCoverage - 1)
    return some (pdeInfo.address.toNat ||| frameOffset)
  let pteInfo := getPTEInfo (← readVirtual m root (getPTEAddress mapping usePrimary))
  if !pteInfo.present then return none
  let frameOffset := virtualAddress &&& (pteCoverage - 1)
  return some (pteInfo.address.toNat ||| frameOffset)

/-! ## The words that are read -/

section
variable (m : PhysMem) (tgt va : Nat)

def pml4e : Entry := m (slot tgt 3 va)

def pdpte : Entry := m (slot (pml4e m tgt va).frame 2 va)

/-- Where the pointer to the PD's entry leads: through an entry of the PML4 that is taken for a PD's. -/
def pdeWord : Entry :=
  m (if (pml4e m tgt va).large then (pml4e m tgt va).largeFrame 1 + (index 2 va * 4096 + 8 * index 1 va)
    else slot (pdpte m tgt va).frame 1 va)

/-- Where the pointer to the PT's entry leads: through an entry of the PML4 that is taken for a PDPT's, and one of the
PDPT that is taken for a PD's. -/
def pteWord : Entry :=
  m (if (pml4e m tgt va).large then
      (pml4e m tgt va).largeFrame 2 + ((index 2 va * 512 + index 1 va) * 4096 + 8 * index 0 va)
    else if (pdpte m tgt va).large then (pdpte m tgt va).largeFrame 1 + (index 1 va * 4096 + 8 * index 0 va)
    else slot (pdeWord m tgt va).frame 0 va)

/-- What the two functions make of them. -/
def softwareWalk : Option Nat :=
  if (pml4e m tgt va).present ∧ (pdpte m tgt va).present ∧ (pdeWord m tgt va).present then
    if (pdeWord m tgt va).large then some ((pdeWord m tgt va).largeFrame 1 + va % 2 ^ 21)
    else if (pteWord m tgt va).present then some ((pteWord m tgt va).frame + va % 4096)
    else none
  else none

/-- Under an entry of the PML4 with the page-size bit, which the processor does not accept, nothing is found. -/
def NothingFound : Prop :=
  ¬ ((pdpte m tgt va).present ∧ (pdeWord m tgt va).present ∧
    ((pdeWord m tgt va).large ∨ (pteWord m tgt va).present))

/-- In place of a page of 1 GiB, a page is found that says the same. -/
def SamePage : Prop :=
  (pdeWord m tgt va).present ∧
    if (pdeWord m tgt va).large then
      (pdeWord m tgt va).largeFrame 1 + va % 2 ^ 21 = (pdpte m tgt va).largeFrame 2 + va % 2 ^ 30
    else (pteWord m tgt va).present ∧
      (pteWord m tgt va).frame + va % 4096 = (pdpte m tgt va).largeFrame 2 + va % 2 ^ 30

/-- No entry above the PD has the page-size bit, or the words behind it say what the processor finds. -/
def WordsAgree : Prop :=
  (pml4e m tgt va).present →
    if (pml4e m tgt va).large then NothingFound m tgt va
    else (pdpte m tgt va).present → (pdpte m tgt va).large → SamePage m tgt va

instance : Decidable (NothingFound m tgt va) := inferInstanceAs (Decidable (¬ _))

instance : Decidable (SamePage m tgt va) := inferInstanceAs (Decidable (_ ∧ _))

instance : Decidable (WordsAgree m tgt va) := inferInstanceAs (Decidable (_ → _))

end

/-! ## Steps of a walk -/

section
variable {m : PhysMem} {cur tgt va : Nat} {u : Bool}

/-- The last step, whatever bit 7 of the entry is. -/
theorem walk_page {t q i k : Nat} (hi : index 0 q = i) (hk : q % 4096 = k)
    (hp : (m (t + 8 * i)).present = true) : walk m q 0 t = some ((m (t + 8 * i)).frame + k) := by
  have hs : slot t 0 q = t + 8 * i := by
    unfold slot
    rw [hi]
  rw [walk, hs, hk]
  simp only [hp, if_true]

/-- A step into a large page. -/
theorem walk_largePage {t q i n : Nat} (hi : index (n + 1) q = i) (hn : n + 1 ≠ 3)
    (hp : (m (t + 8 * i)).present = true) (hl : (m (t + 8 * i)).large = true) :
    walk m q (n + 1) t = some ((m (t + 8 * i)).largeFrame (n + 1) + q % 2 ^ (12 + 9 * (n + 1))) := by
  have hs : slot t (n + 1) q = t + 8 * i := by
    unfold slot
    rw [hi]
  rw [walk, hs]
  simp only [hp, hl, Bool.not_true, Bool.false_eq_true, if_false, if_true, if_neg hn]

/-- The offset of a pointer in the large page of each size. -/
theorem pointer_offsets {l a b c k : Nat} (hb : b < 512) (hc : c < 512) (hk : k < 4096) :
    (((l * 512 + a) * 512 + b) * 512 + c) * 4096 + k = (l * 512 + a) * 2 ^ 30 + ((b * 512 + c) * 4096 + k) ∧
    ((((l * 512 + a) * 512 + b) * 512 + c) * 4096 + k) % 2 ^ 30 = (b * 512 + c) * 4096 + k ∧
    ((((l * 512 + a) * 512 + b) * 512 + c) * 4096 + k) % 2 ^ 21 = c * 4096 + k := by
  simp only [Nat.reducePow]
  omega

/-! ## Reading through the window -/

theorem read_pml4e (hw : Window m cur tgt u) :
    readVirtual m cur (getPML4EAddress (parseVirtualAddress va) u) = some (pml4e m tgt va) := by
  unfold readVirtual
  rw [pml4ePointer hw]
  rfl

theorem read_pdpte (hw : Window m cur tgt u) (h3 : (pml4e m tgt va).present = true) :
    readVirtual m cur (getPDPTEAddress (parseVirtualAddress va) u) = some (pdpte m tgt va) := by
  have hwi := windowIndex_lt u
  have hi := index_lt 2 va
  obtain ⟨i3, i2, i1, i0, hoff, hcan⟩ :=
    pointer_indices (u := u) hwi hwi (index_lt 3 va) (show 8 * index 2 va < 4096 by omega)
  unfold readVirtual getPDPTEAddress
  rw [pdptAddress_eq, show (parseVirtualAddress va).pdptOffset = index 2 va by rw [parse_eq], entrySize, translation,
    if_pos hcan, walk_pointsTo i3 hw.entry, walk_pointsTo i2 hw.self, walk_pointsTo i1 hw.self, walk_page i0 hoff h3]
  rfl

theorem read_pde (hw : Window m cur tgt u) (h3 : (pml4e m tgt va).present = true)
    (h2 : (pdpte m tgt va).present = true) :
    readVirtual m cur (getPDEAddress (parseVirtualAddress va) u) = some (pdeWord m tgt va) := by
  have hwi := windowIndex_lt u
  have hi := index_lt 1 va
  have hk : 8 * index 1 va < 4096 := by omega
  obtain ⟨i3, i2, i1, i0, hoff, hcan⟩ := pointer_indices (u := u) hwi (index_lt 3 va) (index_lt 2 va) hk
  obtain ⟨-, -, h21⟩ := pointer_offsets (l := loopBase u) (a := windowIndex u) (index_lt 3 va) (index_lt 2 va) hk
  unfold readVirtual getPDEAddress pdeWord
  rw [pdAddress_eq, show (parseVirtualAddress va).pdOffset = index 1 va by rw [parse_eq], entrySize, translation,
    if_pos hcan, walk_pointsTo i3 hw.entry, walk_pointsTo i2 hw.self]
  cases hl3 : (pml4e m tgt va).large with
  | true => rw [walk_largePage i1 (by decide) h3 hl3, h21, if_pos rfl]; rfl
  | false =>
    have he : PointsTo (m (tgt + 8 * index 3 va)) (pml4e m tgt va).frame := ⟨⟨h3, hl3⟩, rfl⟩
    rw [walk_pointsTo i1 he, walk_page i0 hoff h2, if_neg Bool.false_ne_true]
    rfl

theorem read_pte (hw : Window m cur tgt u) (h3 : (pml4e m tgt va).present = true)
    (h2 : (pdpte m tgt va).present = true) (h1 : (pdeWord m tgt va).present = true) :
    readVirtual m cur (getPTEAddress (parseVirtualAddress va) u) = some (pteWord m tgt va) := by
  have hi := index_lt 0 va
  have hk : 8 * index 0 va < 4096 := by omega
  obtain ⟨i3, i2, i1, i0, hoff, hcan⟩ := pointer_indices (u := u) (index_lt 3 va) (index_lt 2 va) (index_lt 1 va) hk
  obtain ⟨-, h30, h21⟩ := pointer_offsets (l := loopBase u) (a := index 3 va) (index_lt 2 va) (index_lt 1 va) hk
  unfold readVirtual getPTEAddress pteWord
  rw [ptAddress_eq, show (parseVirtualAddress va).ptOffset = index 0 va by rw [parse_eq], entrySize, translation,
    if_pos hcan, walk_pointsTo i3 hw.entry]
  cases hl3 : (pml4e m tgt va).large with
  | true => rw [walk_largePage i2 (by decide) h3 hl3, h30, if_pos rfl]; rfl
  | false =>
    have he3 : PointsTo (m (tgt + 8 * index 3 va)) (pml4e m tgt va).frame := ⟨⟨h3, hl3⟩, rfl⟩
    rw [walk_pointsTo i2 he3, if_neg Bool.false_ne_true]
    cases hl2 : (pdpte m tgt va).large with
    | true => rw [walk_largePage i1 (by decide) h2 hl2, h21, if_pos rfl]; rfl
    | false =>
      have he2 : PointsTo (m ((pml4e m tgt va).frame + 8 * index 2 va)) (pdpte m tgt va).frame := ⟨⟨h2, hl2⟩, rfl⟩
      have he1 : pdeWord m tgt va = m ((pdpte m tgt va).frame + 8 * index 1 va) := by
        unfold pdeWord
        rw [hl3]
        rfl
      rw [walk_pointsTo i1 he2, walk_page i0 hoff (by rw [← he1]; exact h1), if_neg Bool.false_ne_true, ← he1]
      rfl

/-! ## The results -/

theorem isMapped_eq (hw : Window m cur tgt u) :
    isMapped m cur va u = some (softwareWalk m tgt va).isSome := by
  have hp3 : (getPML4EInfo (pml4e m tgt va)).present = (pml4e m tgt va).present := present_iff _
  have hp2 : (getPDPTEInfo (pdpte m tgt va)).present = (pdpte m tgt va).present := present_iff _
  have hp1 : (getPDEInfo (pdeWord m tgt va)).present = (pdeWord m tgt va).present := present_iff _
  have hl1 : (getPDEInfo (pdeWord m tgt va)).pageSize = (pdeWord m tgt va).large := large_iff _
  have hp0 : (getPTEInfo (pteWord m tgt va)).present = (pteWord m tgt va).present := present_iff _
  unfold isMapped softwareWalk
  simp only [Option.bind_eq_bind, read_pml4e hw, Option.bind_some, hp3]
  cases h3 : (pml4e m tgt va).present with
  | false => rfl
  | true =>
    simp only [Bool.not_true, Bool.false_eq_true, if_false, read_pdpte hw h3, Option.bind_some, hp2]
    cases h2 : (pdpte m tgt va).present with
    | false => rfl
    | true =>
      simp only [Bool.not_true, Bool.false_eq_true, if_false, read_pde hw h3 h2, Option.bind_some, hp1, hl1]
      cases h1 : (pdeWord m tgt va).present with
      | false => rfl
      | true =>
        cases hl : (pdeWord m tgt va).large with
        | true => rfl
        | false =>
          simp only [Bool.not_true, Bool.false_eq_true, if_false, read_pte hw h3 h2 h1, Option.bind_some, hp0]
          cases (pteWord m tgt va).present with
          | true => rfl
          | false => rfl

/-- Or-ing the offset into an address that has none. -/
theorem or_offset {a i : Nat} (ha : a % 2 ^ i = 0) (v : Nat) : a ||| (v &&& (2 ^ i - 1)) = a + v % 2 ^ i := by
  have hshift : a = (a / 2 ^ i) <<< i := by
    rw [Nat.shiftLeft_eq, Nat.mul_comm]
    exact (Nat.mul_div_cancel' (Nat.dvd_of_mod_eq_zero ha)).symm
  rw [Nat.and_two_pow_sub_one_eq_mod, hshift, ← Nat.shiftLeft_add_eq_or_of_lt (Nat.mod_lt _ (Nat.two_pow_pos i))]

theorem largeFrame_aligned (e : Entry) : e.largeFrame 1 % 2 ^ 21 = 0 := by
  have hlow : (e &&& 0x000FFFFFFFE00000#64) &&& 0x1FFFFF#64 = 0#64 := by
    rw [BitVec.and_assoc, show 0x000FFFFFFFE00000#64 &&& 0x1FFFFF#64 = 0#64 by decide, BitVec.and_zero]
  have hnat := congrArg BitVec.toNat hlow
  rwa [BitVec.toNat_and, show (0x1FFFFF#64).toNat = 2 ^ 21 - 1 by decide, Nat.and_two_pow_sub_one_eq_mod] at hnat

theorem getPhysicalAddress_eq (hw : Window m cur tgt u) :
    getPhysicalAddress m cur va u = some (softwareWalk m tgt va) := by
  have hl1 : (getPDEInfo (pdeWord m tgt va)).pageSize = (pdeWord m tgt va).large := large_iff _
  have hp0 : (getPTEInfo (pteWord m tgt va)).present = (pteWord m tgt va).present := present_iff _
  unfold getPhysicalAddress
  simp only [Option.bind_eq_bind, isMapped_eq hw, Option.bind_some]
  unfold softwareWalk
  by_cases hpresent : (pml4e m tgt va).present ∧ (pdpte m tgt va).present ∧ (pdeWord m tgt va).present
  · obtain ⟨h3, h2, h1⟩ := hpresent
    simp only [h3, h2, h1, and_self, if_true, read_pde hw h3 h2, read_pte hw h3 h2 h1, Option.bind_some, hl1, hp0]
    cases hl : (pdeWord m tgt va).large with
    | true =>
      have haddress : (getPDEInfo (pdeWord m tgt va)).address.toNat = (pdeWord m tgt va).largeFrame 1 := by
        change (if flagSet (pdeWord m tgt va) entryPageSize then _ else _ : Entry).toNat = _
        rw [large_iff, hl]
        rfl
      simp only [if_true, Option.isSome_some, Bool.not_true, Bool.false_eq_true, if_false, haddress]
      rw [← or_offset (largeFrame_aligned _) va]
      rfl
    | false =>
      cases (pteWord m tgt va).present with
      | false => rfl
      | true =>
        simp only [Bool.false_eq_true, if_true, if_false, Option.isSome_some, Bool.not_true]
        have halign := Entry.frame_aligned (pteWord m tgt va)
        rw [show (4096 : Nat) = 2 ^ 12 from rfl] at halign
        rw [show (4096 : Nat) = 2 ^ 12 from rfl, ← or_offset halign va]
        rfl
  · simp only [if_neg hpresent, Option.isSome_none, Bool.not_false, if_true]
    rfl

/-- The processor's walk on the same entries. -/
theorem walk_entries (m : PhysMem) (tgt va : Nat) : walk m va 3 tgt =
    if (pml4e m tgt va).present ∧ (pml4e m tgt va).large = false ∧ (pdpte m tgt va).present then
      if (pdpte m tgt va).large then some ((pdpte m tgt va).largeFrame 2 + va % 2 ^ 30)
      else softwareWalk m tgt va
    else none := by
  cases h3 : (pml4e m tgt va).present with
  | false => simp only [walk_absent h3, Bool.false_eq_true, false_and, if_false]
  | true =>
    cases hl3 : (pml4e m tgt va).large with
    | true =>
      have hwalk : walk m va 3 tgt = none := by
        rw [walk, show m (slot tgt (2 + 1) va) = pml4e m tgt va from rfl]
        simp only [h3, hl3, Bool.not_true, Bool.false_eq_true, if_false, if_true]
      simp only [hwalk, Bool.true_eq_false, false_and, and_false, if_false]
    | false =>
      rw [walk_links (n := 2) ⟨h3, hl3⟩, show m (slot tgt (2 + 1) va) = pml4e m tgt va from rfl]
      cases h2 : (pdpte m tgt va).present with
      | false => simp only [walk_absent h2, Bool.false_eq_true, and_false, if_false]
      | true =>
        cases hl2 : (pdpte m tgt va).large with
        | true =>
          rw [walk, show m (slot (pml4e m tgt va).frame (1 + 1) va) = pdpte m tgt va from rfl]
          simp only [h2, hl2, Bool.not_true, Bool.false_eq_true, if_false, if_true, and_self,
            show ¬ (1 + 1 = 3) by decide]
        | false =>
          have hpde : m (slot (pdpte m tgt va).frame 1 va) = pdeWord m tgt va := by
            unfold pdeWord
            rw [hl3]
            rfl
          have hpte : m (slot (pdeWord m tgt va).frame 0 va) = pteWord m tgt va := by
            unfold pteWord
            rw [hl3, hl2]
            rfl
          rw [walk_links (n := 1) ⟨h2, hl2⟩, show m (slot (pml4e m tgt va).frame (1 + 1) va) = pdpte m tgt va from rfl,
            walk, hpde]
          unfold softwareWalk
          simp only [h3, h2, and_self, if_true, Bool.false_eq_true, if_false, true_and, walk, hpte,
            show ¬ (0 + 1 = 3) by decide]
          cases (pdeWord m tgt va).present with
          | false => rfl
          | true => rfl

/-- Where the two walks part. -/
theorem softwareWalk_eq_iff (m : PhysMem) (tgt va : Nat) :
    softwareWalk m tgt va = walk m va 3 tgt ↔ WordsAgree m tgt va := by
  rw [walk_entries]
  unfold WordsAgree
  cases h3 : (pml4e m tgt va).present with
  | false => simp [softwareWalk, h3]
  | true =>
    cases hl3 : (pml4e m tgt va).large with
    | true =>
      -- the processor finds nothing
      simp only [softwareWalk, NothingFound, h3, true_and, Bool.true_eq_false, false_and, if_false, if_true,
        true_implies]
      cases (pdpte m tgt va).present <;> cases (pdeWord m tgt va).present <;> cases (pdeWord m tgt va).large <;>
        cases (pteWord m tgt va).present <;> simp
    | false =>
      cases h2 : (pdpte m tgt va).present with
      | false => simp [softwareWalk, h2]
      | true =>
        cases hl2 : (pdpte m tgt va).large with
        | false => simp
        | true =>
          -- the processor finds a page of 1 GiB
          simp only [softwareWalk, SamePage, h3, h2, true_and, Bool.false_eq_true, if_false, if_true, true_implies]
          cases (pdeWord m tgt va).present <;> cases (pdeWord m tgt va).large <;>
            cases (pteWord m tgt va).present <;> simp

end

/-- The kernel's walk through a window of the space `tgt` says what the processor's walk of that space does. -/
def Agrees (m : PhysMem) (root tgt va : Nat) (usePrimary : Bool) : Prop :=
  isMapped m root va usePrimary = some (translation m tgt va).isSome ∧
    getPhysicalAddress m root va usePrimary = some (translation m tgt va)

/-- For every memory in which the window is set up and every canonical address: the two walks agree exactly when the
entries above the PD have no page-size bit or the words behind those that have it say the same. -/
theorem walk_agrees_iff (m : PhysMem) (root tgt va : Nat) (usePrimary : Bool) (hw : Window m root tgt usePrimary)
    (hcan : Canonical va) : Agrees m root tgt va usePrimary ↔ WordsAgree m tgt va := by
  rw [← softwareWalk_eq_iff]
  unfold Agrees translation
  rw [if_pos hcan, isMapped_eq hw, getPhysicalAddress_eq hw]
  constructor
  · intro h
    exact Option.some.inj h.2
  · intro h
    rw [h]
    exact ⟨rfl, rfl⟩

/-- The walk of a page of 4 KiB, with no page-size bit on its way. -/
theorem walk_agrees_twoRoots : WordsAgree twoRoots 0x5000 0 ∧ Agrees twoRoots 0x1000 0x5000 0 false := by
  have hwords : WordsAgree twoRoots 0x5000 0 := by decide
  exact ⟨hwords, (walk_agrees_iff twoRoots 0x1000 0x5000 0 false (by decide) (by decide)).mpr hwords⟩

/-- A root at `0x1000` with its primary window and one page of 1 GiB, at address 0. -/
def hugeRoot : PhysMem := fun p =>
  if p = 0x1000 + 8 * 510 then 0x1003#64
  else if p = 0x1000 then 0x2003#64
  else if p = 0x2000 then 0x40000083#64
  else 0#64

/-- The page is mapped, and `IsMapped` says that it is not. -/
theorem hugePage_missed : Window hugeRoot 0x1000 0x1000 true ∧ translation hugeRoot 0x1000 0 = some 0x40000000 ∧
    isMapped hugeRoot 0x1000 0 true = some false ∧ ¬ Agrees hugeRoot 0x1000 0x1000 0 true := by
  have htranslation : translation hugeRoot 0x1000 0 = some 0x40000000 := by decide
  have hmapped : isMapped hugeRoot 0x1000 0 true = some false := by decide
  refine ⟨by decide, htranslation, hmapped, fun h => ?_⟩
  have heq := h.1
  rw [htranslation, hmapped] at heq
  cases heq

end BadLands.Mm.SoftwareWalk
