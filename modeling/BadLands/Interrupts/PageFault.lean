import BadLands.Mm.PagingEntries

/-!
# The page fault handler: pages on demand

An entry of a page table that is not present may stand for a page that is reserved: its bits then
have a layout of their own (`NP_*`). On the first access `PageFaultHandler` takes a frame and writes
the entry anew, with every field moved to where the processor reads it.

`onDemandEntry` is that conversion and `Converted` what is asked of it. The protection key is moved
by 34 bits and not by the 52 between the two fields: it lands in the address
(`pageFaultHandler_converts_iff`).
-/
namespace BadLands.Interrupts.PageFault

open BadLands.Core.PageTable BadLands.Mm.Paging

/-! ## Entries that are not present -/

/-- mirrors kernel/include/mm/VirtualMemory.hpp:32-41 -/
def npReadWrite : Entry := 0x0000000000000002#64
def npUserMode : Entry := 0x0000000000000004#64
def npPWT : Entry := 0x0000000000000008#64
def npPCD : Entry := 0x0000000000000010#64
def npPAT : Entry := 0x0000000000000020#64
def npGlobal : Entry := 0x0000000000000040#64
def npPK : Entry := 0x0000000000000780#64
def npOnDemand : Entry := 0x0000000000000800#64

/-- mirrors common/include/shared/memory/defs.hpp:87 -/
def ptePK : Entry := 0x7800000000000000#64

/-- The entry of a page on demand, once its frame is there.
mirrors kernel/src/interrupts/core/PageFault.cpp:90-97, 109-117 -/
def onDemandEntry (maxPhyAddr : Nat) (pte page : Entry) : Entry :=
  ((pte &&& npPK) <<< 34) ||| (filterAddress maxPhyAddr page &&& entryAddress) ||| ((pte &&& npGlobal) <<< 2) |||
    ((pte &&& npPAT) <<< 2) ||| (pte &&& npPCD) ||| (pte &&& npPWT) ||| (pte &&& npUserMode) |||
    (pte &&& npReadWrite) ||| entryPresent

/-! ## The handler -/

/-- mirrors kernel/src/interrupts/core/PageFault.cpp:67, 72, 86, 100, 106 -/
inductive Panic where
  | unmappedAccess
  | violation
  | hugePage
  | swapping
  | outOfMemory
  deriving DecidableEq, Repr

inductive Outcome where
  | panic (reason : Panic)
  | resumed (m : PhysMem)

def pfPresent : Entry := 0x00000001#64

/-- Whether the check lets the access through; `none` is a page fault in the handler itself.
mirrors kernel/src/interrupts/core/PageFault.cpp:41-68 -/
def checkUnmappedAccess (m : PhysMem) (root : Nat) (mapping : VirtualAddress) : Option Bool := do
  let pml4eInfo := getPML4EInfo (← readVirtual m root (getPML4EAddress mapping true))
  if !pml4eInfo.present then return false
  let pdpteInfo := getPDPTEInfo (← readVirtual m root (getPDPTEAddress mapping true))
  if !pdpteInfo.present then return false
  let pdeInfo := getPDEInfo (← readVirtual m root (getPDEAddress mapping true))
  if !pdeInfo.present then return false
  if pdeInfo.pageSize then return true
  let pte ← readVirtual m root (getPTEAddress mapping true)
  return pte != 0#64

/-- `page` is what `PhysicalMemory::Allocate` returns, should it be called.
mirrors kernel/src/interrupts/core/PageFault.cpp:70-121 -/
def pageFaultHandler (m : PhysMem) (root maxPhyAddr cr2 : Nat) (errv : Entry) (page : Option Entry) :
    Option Outcome :=
  if errv &&& pfPresent = 1#64 then some (.panic .violation)
  else do
    let mapping := parseVirtualAddress cr2
    if !(← checkUnmappedAccess m root mapping) then return .panic .unmappedAccess
    let pdeInfo := getPDEInfo (← readVirtual m root (getPDEAddress mapping true))
    if pdeInfo.pageSize then return .panic .hugePage
    let pte ← readVirtual m root (getPTEAddress mapping true)
    if pte &&& npOnDemand = 0#64 then return .panic .swapping
    match page with
    | none => return .panic .outOfMemory
    | some page =>
      let m ← writeVirtual m root (getPTEAddress mapping true) (onDemandEntry maxPhyAddr pte page)
      return .resumed m

/-! ## The conversion -/

/-- The new entry says what the old one did, and where the frame is. -/
structure Converted (pte entry page : Entry) : Prop where
  present : (getPTEInfo entry).present = true
  address : (getPTEInfo entry).address = page
  readWrite : (getPTEInfo entry).readWrite = flagSet pte npReadWrite
  userMode : (getPTEInfo entry).userMode = flagSet pte npUserMode
  pwt : (getPTEInfo entry).pwt = flagSet pte npPWT
  pcd : (getPTEInfo entry).pcd = flagSet pte npPCD
  pat : (getPTEInfo entry).pat = flagSet pte npPAT
  global : (getPTEInfo entry).global = flagSet pte npGlobal
  protectionKey : (entry &&& ptePK) >>> 59 = (pte &&& npPK) >>> 7

section
variable {maxPhyAddr : Nat} {pte page : Entry}

/-- A flag of the new entry below the address. -/
theorem onDemandEntry_bit {i : Nat} (hi : i < 12) : (onDemandEntry maxPhyAddr pte page).getLsbD i =
    (((pte &&& npGlobal) <<< 2).getLsbD i || ((pte &&& npPAT) <<< 2).getLsbD i || (pte &&& npPCD).getLsbD i ||
      (pte &&& npPWT).getLsbD i || (pte &&& npUserMode).getLsbD i || (pte &&& npReadWrite).getLsbD i ||
      entryPresent.getLsbD i) := by
  have hkey : ((pte &&& npPK) <<< 34).getLsbD i = false := by
    rw [BitVec.getLsbD_shiftLeft, decide_eq_true (show i < 34 by omega), Bool.not_true, Bool.and_false, Bool.false_and]
  have hmask : entryAddress.getLsbD i = false := by
    have hall : ∀ i, i < 12 → entryAddress.getLsbD i = false := by decide
    exact hall i hi
  have haddress : (filterAddress maxPhyAddr page &&& entryAddress).getLsbD i = false := by
    rw [BitVec.getLsbD_and, hmask, Bool.and_false]
  unfold onDemandEntry
  iterate 8 rw [BitVec.getLsbD_or]
  rw [hkey, haddress, Bool.false_or, Bool.false_or]

theorem flagSet_bit {e flag : Entry} {i : Nat} (hi : i < 64) (hflag : flag = BitVec.twoPow 64 i) :
    flagSet e flag = e.getLsbD i := by
  rw [flagSet, hflag]
  exact and_twoPow_ne_zero e hi

/-- The flags, but for the key, are where they belong. -/
theorem onDemandEntry_flags :
    (getPTEInfo (onDemandEntry maxPhyAddr pte page)).present = true ∧
    (getPTEInfo (onDemandEntry maxPhyAddr pte page)).readWrite = flagSet pte npReadWrite ∧
    (getPTEInfo (onDemandEntry maxPhyAddr pte page)).userMode = flagSet pte npUserMode ∧
    (getPTEInfo (onDemandEntry maxPhyAddr pte page)).pwt = flagSet pte npPWT ∧
    (getPTEInfo (onDemandEntry maxPhyAddr pte page)).pcd = flagSet pte npPCD ∧
    (getPTEInfo (onDemandEntry maxPhyAddr pte page)).pat = flagSet pte npPAT ∧
    (getPTEInfo (onDemandEntry maxPhyAddr pte page)).global = flagSet pte npGlobal := by
  have hnew : ∀ (flag : Entry) (i : Nat), i < 12 → flag = BitVec.twoPow 64 i →
      flagSet (onDemandEntry maxPhyAddr pte page) flag =
        (((pte &&& npGlobal) <<< 2).getLsbD i || ((pte &&& npPAT) <<< 2).getLsbD i || (pte &&& npPCD).getLsbD i ||
          (pte &&& npPWT).getLsbD i || (pte &&& npUserMode).getLsbD i || (pte &&& npReadWrite).getLsbD i ||
          entryPresent.getLsbD i) :=
    fun flag i hi hflag => (flagSet_bit (by omega) hflag).trans (onDemandEntry_bit hi)
  have hold : ∀ (flag : Entry) (i : Nat), i < 64 → flag = BitVec.twoPow 64 i → flagSet pte flag = pte.getLsbD i :=
    fun flag i hi hflag => flagSet_bit hi hflag
  refine ⟨?_, ?_, ?_, ?_, ?_, ?_, ?_⟩
  · refine (hnew entryPresent 0 (by decide) (by decide)).trans ?_
    simp [entryPresent]
  · refine (hnew entryReadWrite 1 (by decide) (by decide)).trans ?_
    rw [hold npReadWrite 1 (by decide) (by decide)]
    simp [npPCD, npPWT, npUserMode, npReadWrite, entryPresent]
  · refine (hnew entryUserMode 2 (by decide) (by decide)).trans ?_
    rw [hold npUserMode 2 (by decide) (by decide)]
    simp [npGlobal, npPAT, npPCD, npPWT, npUserMode, npReadWrite, entryPresent]
  · refine (hnew entryPWT 3 (by decide) (by decide)).trans ?_
    rw [hold npPWT 3 (by decide) (by decide)]
    simp [npGlobal, npPAT, npPCD, npPWT, npUserMode, npReadWrite, entryPresent]
  · refine (hnew entryPCD 4 (by decide) (by decide)).trans ?_
    rw [hold npPCD 4 (by decide) (by decide)]
    simp [npGlobal, npPAT, npPCD, npPWT, npUserMode, npReadWrite, entryPresent]
  · refine (hnew ptePAT 7 (by decide) (by decide)).trans ?_
    rw [hold npPAT 5 (by decide) (by decide)]
    simp [npGlobal, npPAT, npPCD, npPWT, npUserMode, npReadWrite, entryPresent]
  · refine (hnew entryGlobal 8 (by decide) (by decide)).trans ?_
    rw [hold npGlobal 6 (by decide) (by decide)]
    simp [npGlobal, npPAT, npPCD, npPWT, npUserMode, npReadWrite, entryPresent]

/-- What a mask keeps of the new entry that meets none of the flags. -/
theorem onDemandEntry_and {mask : Entry} (hmask : mask &&& 0xFFF#64 = 0#64) :
    onDemandEntry maxPhyAddr pte page &&& mask =
      (((pte &&& npPK) <<< 34) &&& mask) ||| (filterAddress maxPhyAddr page &&& entryAddress &&& mask) := by
  have hlow : ∀ flags : Entry, flags &&& 0xFFF#64 = flags → flags &&& mask = 0#64 := by
    intro flags hflags
    rw [← hflags, BitVec.and_assoc, BitVec.and_comm _ mask, hmask, BitVec.and_zero]
  have hflag : ∀ flag : Entry, flag &&& 0xFFF#64 = flag → (pte &&& flag) &&& mask = 0#64 := by
    intro flag hsmall
    apply hlow
    rw [BitVec.and_assoc, hsmall]
  have hshift : ∀ flag : Entry, (flag <<< 2) &&& 0xFFF#64 = flag <<< 2 → ((pte &&& flag) <<< 2) &&& mask = 0#64 := by
    intro flag hsmall
    apply hlow
    rw [BitVec.shiftLeft_and_distrib, BitVec.and_assoc, hsmall]
  unfold onDemandEntry
  iterate 8 rw [BitVec.and_or_distrib_right]
  rw [hshift npGlobal (by decide), hshift npPAT (by decide), hflag npPCD (by decide), hflag npPWT (by decide),
    hflag npUserMode (by decide), hflag npReadWrite (by decide), hlow entryPresent (by decide)]
  iterate 7 rw [BitVec.or_zero]

/-- The conversion is right for the entries without a key, and for no other. -/
theorem converted_iff (hpage : filterAddress maxPhyAddr page &&& entryAddress = page) :
    Converted pte (onDemandEntry maxPhyAddr pte page) page ↔ pte &&& npPK = 0#64 := by
  have hkey : onDemandEntry maxPhyAddr pte page &&& ptePK = 0#64 := by
    rw [onDemandEntry_and (by decide), BitVec.shiftLeft_and_distrib, BitVec.and_assoc,
      show npPK <<< 34 &&& ptePK = 0#64 by decide, BitVec.and_zero, BitVec.zero_or, BitVec.and_assoc,
      show entryAddress &&& ptePK = 0#64 by decide, BitVec.and_zero]
  constructor
  · intro h
    have hzero := h.protectionKey
    rw [hkey, BitVec.zero_ushiftRight] at hzero
    apply BitVec.eq_of_getLsbD_eq
    intro i hi
    rcases Nat.lt_or_ge i 7 with hlow | hhigh
    · have hmask : ∀ i, i < 7 → npPK.getLsbD i = false := by decide
      rw [BitVec.getLsbD_and, hmask i hlow, Bool.and_false, BitVec.getLsbD_zero]
    · have hbit := congrArg (fun e : Entry => e.getLsbD (i - 7)) hzero
      simp only [BitVec.getLsbD_ushiftRight] at hbit
      rw [show 7 + (i - 7) = i by omega] at hbit
      rw [← hbit, BitVec.getLsbD_zero, BitVec.getLsbD_zero]
  · intro h
    obtain ⟨hpresent, hreadWrite, huserMode, hpwt, hpcd, hpat, hglobal⟩ :=
      @onDemandEntry_flags maxPhyAddr pte page
    refine ⟨hpresent, ?_, hreadWrite, huserMode, hpwt, hpcd, hpat, hglobal, by rw [hkey, h]; decide⟩
    show onDemandEntry maxPhyAddr pte page &&& entryAddress = page
    rw [onDemandEntry_and (by decide), h, BitVec.zero_shiftLeft, BitVec.zero_and, BitVec.zero_or, BitVec.and_assoc,
      BitVec.and_self, hpage]

end

/-! ## The fault -/

section
variable {m : PhysMem} {root maxPhyAddr va t : Nat} {errv : Entry}

/-- The check lets the access through. -/
theorem checkUnmappedAccess_reserved (hw : Window m root root true) (ht : Reach m va 3 root 0 t)
    (hentry : m (slot t 0 va) ≠ 0#64) : checkUnmappedAccess m root (parseVirtualAddress va) = some true := by
  obtain ⟨t1, h1, hl1, -⟩ := ht.linked (by decide)
  obtain ⟨t2, h2, hl2, -⟩ := h1.linked (by decide)
  obtain ⟨t3, h3, hl3, -⟩ := h2.linked (by decide)
  obtain rfl := reach_top h3
  have hp3 : (getPML4EInfo (m (slot t3 3 va))).present = true := (linked_info hl3).1
  have hp2 : (getPDPTEInfo (m (slot t2 2 va))).present = true := (linked_info hl2).1
  have hp1 : (getPDEInfo (m (slot t1 1 va))).present = true := (linked_info hl1).1
  have hs1 : (getPDEInfo (m (slot t1 1 va))).pageSize = false := (linked_info hl1).2
  unfold checkUnmappedAccess
  simp only [Option.bind_eq_bind, readVirtual_of (pml4ePointer hw), readVirtual_of (pdptePointer hw h2),
    readVirtual_of (pdePointer hw h1), readVirtual_of (ptePointer hw ht), Option.bind_some, hp3, hp2, hp1, hs1,
    Bool.not_true, Bool.false_eq_true, if_false]
  exact congrArg some (bne_iff_ne.mpr hentry)

/-- The handler on an entry of a page table that is there. -/
theorem pageFaultHandler_run (hw : Window m root root true) (ht : Reach m va 3 root 0 t)
    (hdemand : m (slot t 0 va) &&& npOnDemand ≠ 0#64) (herrv : errv &&& pfPresent ≠ 1#64) (page : Entry) :
    pageFaultHandler m root maxPhyAddr va errv (some page) =
      some (.resumed (update m (slot t 0 va) (onDemandEntry maxPhyAddr (m (slot t 0 va)) page))) := by
  have hentry : m (slot t 0 va) ≠ 0#64 := by
    intro hz
    rw [hz] at hdemand
    exact hdemand BitVec.zero_and
  obtain ⟨t1, h1, hl1, -⟩ := ht.linked (by decide)
  have hs1 : (getPDEInfo (m (slot t1 1 va))).pageSize = false := (linked_info hl1).2
  have hwrite : writeVirtual m root (getPTEAddress (parseVirtualAddress va) true)
      (onDemandEntry maxPhyAddr (m (slot t 0 va)) page) =
        some (update m (slot t 0 va) (onDemandEntry maxPhyAddr (m (slot t 0 va)) page)) := by
    rw [writeVirtual, ptePointer hw ht]
    rfl
  unfold pageFaultHandler
  simp only [if_neg herrv, Option.bind_eq_bind, checkUnmappedAccess_reserved hw ht hentry,
    readVirtual_of (pdePointer hw h1), readVirtual_of (ptePointer hw ht), Option.bind_some, hs1, Bool.not_true,
    Bool.false_eq_true, if_false, if_neg hdemand, hwrite]
  rfl

end

/-- A fault on a page on demand is resolved with an entry that says what the old one did exactly
when the old one has no protection key. -/
theorem pageFaultHandler_converts_iff {m : PhysMem} {root maxPhyAddr cr2 t : Nat} {errv page : Entry}
    (hw : Window m root root true) (ht : Reach m cr2 3 root 0 t) (hdemand : m (slot t 0 cr2) &&& npOnDemand ≠ 0#64)
    (herrv : errv &&& pfPresent ≠ 1#64) (hmax : maxPhyAddr ≤ 52) (haligned : page.toNat % 4096 = 0)
    (hpage : page.toNat < 2 ^ maxPhyAddr) :
    ∃ m', pageFaultHandler m root maxPhyAddr cr2 errv (some page) = some (.resumed m') ∧
      (∀ q, q ≠ slot t 0 cr2 → m' q = m q) ∧
      (Converted (m (slot t 0 cr2)) (m' (slot t 0 cr2)) page ↔ m (slot t 0 cr2) &&& npPK = 0#64) := by
  refine ⟨_, pageFaultHandler_run hw ht hdemand herrv page, fun q hq => if_neg hq, ?_⟩
  rw [update, if_pos rfl]
  exact converted_iff (filterAddress_frame hmax haligned hpage)

/-- A root at `0x1000` with its own window and one page table; `pte` is the entry of the page `0x1000`. -/
def reserved (pte : Entry) : PhysMem := fun p =>
  if p = 0x1000 + 8 * 510 then 0x1003#64
  else if p = 0x1000 then 0x2003#64
  else if p = 0x2000 then 0x3003#64
  else if p = 0x3000 then 0x4003#64
  else if p = 0x4008 then pte
  else 0#64

theorem reach_reserved (pte : Entry) : Reach (reserved pte) 0x1000 3 0x1000 0 0x4000 := by
  have h3 : PointsTo (reserved pte (slot 0x1000 3 0x1000)) 0x2000 := by
    rw [show reserved pte (slot 0x1000 3 0x1000) = 0x2003#64 from rfl]
    decide
  have h2 : PointsTo (reserved pte (slot 0x2000 2 0x1000)) 0x3000 := by
    rw [show reserved pte (slot 0x2000 2 0x1000) = 0x3003#64 from rfl]
    decide
  have h1 : PointsTo (reserved pte (slot 0x3000 1 0x1000)) 0x4000 := by
    rw [show reserved pte (slot 0x3000 1 0x1000) = 0x4003#64 from rfl]
    decide
  refine .down h3.1 ?_
  rw [h3.2]
  refine .down h2.1 ?_
  rw [h2.2]
  refine .down h1.1 ?_
  rw [h1.2]
  exact .here _ _

/-- A writable page without a key. -/
theorem pageFaultHandler_converts_plain :
    ∃ m', pageFaultHandler (reserved 0x802#64) 0x1000 48 0x1000 0x2#64 (some 0x9000#64) = some (.resumed m') ∧
      Converted 0x802#64 (m' 0x4008) 0x9000#64 := by
  obtain ⟨m', hrun, -, hiff⟩ := @pageFaultHandler_converts_iff (reserved 0x802#64) 0x1000 48 0x1000 0x4000 0x2#64 0x9000#64
    (by decide) (reach_reserved 0x802#64) (by decide) (by decide) (by decide) (by decide) (by decide)
  exact ⟨m', hrun, hiff.mpr (by decide)⟩

/-- The key 1 of a writable page becomes bit 41 of the frame's address. -/
theorem pageFaultHandler_moves_key :
    ∃ m', pageFaultHandler (reserved 0x882#64) 0x1000 48 0x1000 0x2#64 (some 0x9000#64) = some (.resumed m') ∧
      m' 0x4008 = 0x20000009003#64 ∧ ¬ Converted 0x882#64 (m' 0x4008) 0x9000#64 := by
  refine ⟨_, pageFaultHandler_run (by decide) (reach_reserved 0x882#64) (by decide) (by decide) 0x9000#64, by decide,
    fun h => ?_⟩
  have haddress := h.address
  revert haddress
  decide

end BadLands.Interrupts.PageFault
