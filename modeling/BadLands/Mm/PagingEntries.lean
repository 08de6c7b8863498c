import BadLands.Mm.Paging

/-!
# Paging: entries and accesses

The entry formats (`GetPTEInfo`, `SetPTEInfo` and their siblings), and memory as the kernel
reaches it: an access to a virtual address is one to the physical word its walk ends at, an
access to an address that does not translation is a page fault (`none`). What an entry says to
the processor and what the kernel reads from it are the same bits (`present_iff`, `large_iff`).
-/
namespace BadLands.Mm.Paging

open BadLands.Core BadLands.Core.PageTable BadLands.Mm.Layout

/-! ## Entry formats

mirrors common/include/shared/memory/defs.hpp:43-94: one constant stands for the bits of
the same name in entries of the four levels. -/

def entryPresent : Entry := 0x0000000000000001#64
def entryReadWrite : Entry := 0x0000000000000002#64
def entryUserMode : Entry := 0x0000000000000004#64
def entryPWT : Entry := 0x0000000000000008#64
def entryPCD : Entry := 0x0000000000000010#64
def entryAccessed : Entry := 0x0000000000000020#64
def entryDirty : Entry := 0x0000000000000040#64
def entryPageSize : Entry := 0x0000000000000080#64
def ptePAT : Entry := 0x0000000000000080#64
def entryGlobal : Entry := 0x0000000000000100#64
def largePAT : Entry := 0x0000000000001000#64
def entryXD : Entry := 0x8000000000000000#64
def entryAddress : Entry := 0x000FFFFFFFFFF000#64
def pde2MBAddress : Entry := 0x000FFFFFFFE00000#64
def pdpte1GBAddress : Entry := 0x000FFFFFC0000000#64

/-- mirrors kernel/include/mm/Paging.hpp:26-88: `PTEInfo`, `PDEInfo`, `PDPTEInfo` and
`PML4EInfo` with the same defaults; a field that a level lacks keeps its default there. -/
structure EntryInfo where
  present : Bool := false
  readWrite : Bool := false
  userMode : Bool := false
  pwt : Bool := false
  pcd : Bool := false
  accessed : Bool := false
  dirty : Bool := false
  pageSize : Bool := false
  global : Bool := false
  pat : Bool := false
  executeDisable : Bool := false
  address : Entry := 0#64
  deriving DecidableEq

/-- `(*entry & flag) != 0`. -/
def flagSet (e flag : Entry) : Bool := e &&& flag != 0#64

/-- `if (condition) entry |= flag`. -/
def withFlag (e flag : Entry) (condition : Bool) : Entry := if condition then e ||| flag else e

/-- mirrors kernel/src/mm/Paging.cpp:329-343 -/
def getPTEInfo (e : Entry) : EntryInfo where
  present := flagSet e entryPresent
  readWrite := flagSet e entryReadWrite
  userMode := flagSet e entryUserMode
  pwt := flagSet e entryPWT
  pcd := flagSet e entryPCD
  accessed := flagSet e entryAccessed
  dirty := flagSet e entryDirty
  pat := flagSet e ptePAT
  global := flagSet e entryGlobal
  executeDisable := flagSet e entryXD
  address := e &&& entryAddress

/-- mirrors kernel/src/mm/Paging.cpp:345-360 -/
def setPTEInfo (info : EntryInfo) : Entry :=
  let entry := withFlag 0#64 entryPresent info.present
  let entry := withFlag entry entryReadWrite info.readWrite
  let entry := withFlag entry entryUserMode info.userMode
  let entry := withFlag entry entryPWT info.pwt
  let entry := withFlag entry entryPCD info.pcd
  let entry := withFlag entry ptePAT info.pat
  let entry := withFlag entry entryGlobal info.global
  let entry := withFlag entry entryXD info.executeDisable
  entry ||| (info.address &&& entryAddress)

/-- An entry that may be a large page, whose address is under `largeAddress`. -/
def getLargeInfo (largeAddress e : Entry) : EntryInfo :=
  let pageSize := flagSet e entryPageSize
  { present := flagSet e entryPresent
    readWrite := flagSet e entryReadWrite
    userMode := flagSet e entryUserMode
    pwt := flagSet e entryPWT
    pcd := flagSet e entryPCD
    accessed := flagSet e entryAccessed
    pageSize := pageSize
    executeDisable := flagSet e entryXD
    dirty := pageSize && flagSet e entryDirty
    global := pageSize && flagSet e entryGlobal
    pat := pageSize && flagSet e largePAT
    address := if pageSize then e &&& largeAddress else e &&& entryAddress }

def setLargeInfo (largeAddress : Entry) (info : EntryInfo) : Entry :=
  let entry := withFlag 0#64 entryPresent info.present
  let entry := withFlag entry entryReadWrite info.readWrite
  let entry := withFlag entry entryUserMode info.userMode
  let entry := withFlag entry entryPWT info.pwt
  let entry := withFlag entry entryPCD info.pcd
  let entry := withFlag entry entryPageSize info.pageSize
  let entry := withFlag entry entryXD info.executeDisable
  if info.pageSize then
    let entry := withFlag entry entryGlobal info.global
    let entry := withFlag entry largePAT info.pat
    entry ||| (info.address &&& largeAddress)
  else entry ||| (info.address &&& entryAddress)

/-- mirrors kernel/src/mm/Paging.cpp:366-392 -/
def getPDEInfo (e : Entry) : EntryInfo := getLargeInfo pde2MBAddress e

/-- mirrors kernel/src/mm/Paging.cpp:394-415 -/
def setPDEInfo (info : EntryInfo) : Entry := setLargeInfo pde2MBAddress info

/-- mirrors kernel/src/mm/Paging.cpp:421-447 -/
def getPDPTEInfo (e : Entry) : EntryInfo := getLargeInfo pdpte1GBAddress e

/-- mirrors kernel/src/mm/Paging.cpp:449-470 -/
def setPDPTEInfo (info : EntryInfo) : Entry := setLargeInfo pdpte1GBAddress info

/-- mirrors kernel/src/mm/Paging.cpp:476-487 -/
def getPML4EInfo (e : Entry) : EntryInfo where
  present := flagSet e entryPresent
  readWrite := flagSet e entryReadWrite
  userMode := flagSet e entryUserMode
  pwt := flagSet e entryPWT
  pcd := flagSet e entryPCD
  accessed := flagSet e entryAccessed
  executeDisable := flagSet e entryXD
  address := e &&& entryAddress

/-- mirrors kernel/src/mm/Paging.cpp:489-502 -/
def setPML4EInfo (info : EntryInfo) : Entry :=
  let entry := withFlag 0#64 entryPresent info.present
  let entry := withFlag entry entryReadWrite info.readWrite
  let entry := withFlag entry entryUserMode info.userMode
  let entry := withFlag entry entryPWT info.pwt
  let entry := withFlag entry entryPCD info.pcd
  let entry := withFlag entry entryXD info.executeDisable
  entry ||| (info.address &&& entryAddress)

/-- `PhysicalMemory::FilterAddress`; `maxPhyAddr` is what the processor reports.
mirrors kernel/src/mm/PhysicalMemory.cpp:38-40 -/
def filterAddress (maxPhyAddr : Nat) (address : Entry) : Entry :=
  address &&& ((1#64 <<< maxPhyAddr) - 1#64) &&& ~~~0xFFF#64

/-- What is left of an address in the field of an entry. -/
theorem filterAddress_toNat {maxPhyAddr : Nat} (hmax : maxPhyAddr ≤ 52) (x : Entry) :
    (filterAddress maxPhyAddr x &&& entryAddress).toNat = x.toNat % 2 ^ maxPhyAddr / 4096 * 4096 := by
  have hone : ((1#64 <<< maxPhyAddr) - 1#64).toNat = 2 ^ maxPhyAddr - 1 := by
    have hlt : 2 ^ maxPhyAddr < 2 ^ 64 := Nat.pow_lt_pow_right (by decide) (by omega)
    have hpos := Nat.two_pow_pos maxPhyAddr
    have hshift : (1#64 <<< maxPhyAddr).toNat = 2 ^ maxPhyAddr := by
      rw [BitVec.toNat_shiftLeft, Nat.shiftLeft_eq, show (1#64).toNat = 1 from rfl, Nat.one_mul, Nat.mod_eq_of_lt hlt]
    rw [BitVec.toNat_sub, hshift, show (1#64).toNat = 1 from rfl]
    omega
  have hmask : filterAddress maxPhyAddr x &&& entryAddress = (x &&& ((1#64 <<< maxPhyAddr) - 1#64)) &&& entryAddress := by
    unfold filterAddress
    rw [BitVec.and_assoc, show ~~~0xFFF#64 &&& entryAddress = entryAddress by decide]
  have hlt : x.toNat % 2 ^ maxPhyAddr < 2 ^ 52 :=
    Nat.lt_of_lt_of_le (Nat.mod_lt _ (Nat.two_pow_pos _)) (Nat.pow_le_pow_right (by decide) hmax)
  rw [hmask, BitVec.toNat_and, BitVec.toNat_and, hone, Nat.and_two_pow_sub_one_eq_mod]
  generalize x.toNat % 2 ^ maxPhyAddr = y at hlt ⊢
  rw [show entryAddress.toNat = (2 ^ 40 - 1) <<< 12 by decide, ← shift_page]
  apply Nat.eq_of_testBit_eq
  intro i
  rw [Nat.testBit_and, Nat.testBit_shiftLeft, Nat.testBit_shiftLeft, show (4096 : Nat) = 2 ^ 12 from rfl,
    Nat.testBit_div_two_pow]
  by_cases hi : i ≥ 12
  · rw [decide_eq_true hi, Bool.true_and, Bool.true_and, Nat.testBit_two_pow_sub_one, Nat.sub_add_cancel hi]
    by_cases h52 : i < 52
    · rw [decide_eq_true (show i - 12 < 40 by omega), Bool.and_true]
    · rw [Nat.testBit_lt_two_pow (Nat.lt_of_lt_of_le hlt (Nat.pow_le_pow_right (by decide) (by omega))), Bool.false_and]
  · rw [decide_eq_false hi, Bool.false_and, Bool.false_and, Bool.and_false]

/-- A frame of the machine is left as it is. -/
theorem filterAddress_frame {maxPhyAddr : Nat} (hmax : maxPhyAddr ≤ 52) {x : Entry} (ha : x.toNat % 4096 = 0)
    (hx : x.toNat < 2 ^ maxPhyAddr) : filterAddress maxPhyAddr x &&& entryAddress = x := by
  apply BitVec.eq_of_toNat_eq
  rw [filterAddress_toNat hmax, Nat.mod_eq_of_lt hx]
  omega

/-! ## The bits the processor reads -/

theorem and_twoPow_ne_zero (e : Entry) {i : Nat} (hi : i < 64) :
    (e &&& BitVec.twoPow 64 i != 0#64) = e.getLsbD i := by
  rw [BitVec.and_twoPow]
  cases h : e.getLsbD i with
  | true =>
    rw [if_pos rfl, bne_iff_ne]
    intro h0
    have := congrArg (·.getLsbD i) h0
    simp [hi] at this
  | false => simp

theorem present_iff (e : Entry) : flagSet e entryPresent = e.present :=
  and_twoPow_ne_zero e (show 0 < 64 by decide)

theorem large_iff (e : Entry) : flagSet e entryPageSize = e.large :=
  and_twoPow_ne_zero e (show 7 < 64 by decide)

/-- What is read of the entry that led to a table. -/
theorem linked_info {e : Entry} (hl : e.Links) : flagSet e entryPresent = true ∧ flagSet e entryPageSize = false :=
  ⟨(present_iff e).trans hl.1, (large_iff e).trans hl.2⟩

/-- The flags `flags` and an address: what the processor reads. -/
theorem entry_bits {flags a : Entry} (h : flags &&& entryAddress = 0#64) :
    (flags ||| (a &&& entryAddress)).frame = (a &&& entryAddress).toNat ∧
      (flags ||| (a &&& entryAddress)).present = flags.getLsbD 0 ∧
      (flags ||| (a &&& entryAddress)).large = flags.getLsbD 7 := by
  have h0 : entryAddress.getLsbD 0 = false := by decide
  have h7 : entryAddress.getLsbD 7 = false := by decide
  refine ⟨?_, ?_, ?_⟩
  · unfold Entry.frame
    change ((flags ||| (a &&& entryAddress)) &&& entryAddress).toNat = _
    rw [BitVec.and_or_distrib_right, h, BitVec.zero_or, BitVec.and_assoc, BitVec.and_self]
  · unfold Entry.present
    rw [BitVec.getLsbD_or, BitVec.getLsbD_and, h0, Bool.and_false, Bool.or_false]
  · unfold Entry.large
    rw [BitVec.getLsbD_or, BitVec.getLsbD_and, h7, Bool.and_false, Bool.or_false]

/-- The fields of a link to a table, or of a page. -/
def linkInfo (userMode : Bool) (address : Entry) : EntryInfo :=
  { present := true, readWrite := true, userMode := userMode, address := address }

theorem setPML4EInfo_link (userMode : Bool) (a : Entry) : setPML4EInfo (linkInfo userMode a) =
    withFlag 3#64 entryUserMode userMode ||| (a &&& entryAddress) := by
  refine congrArg (· ||| (a &&& entryAddress)) ?_
  simp only [linkInfo]
  cases userMode <;> decide

theorem setLargeInfo_link (largeAddress : Entry) (userMode : Bool) (a : Entry) :
    setLargeInfo largeAddress (linkInfo userMode a) =
      withFlag 3#64 entryUserMode userMode ||| (a &&& entryAddress) := by
  refine congrArg (· ||| (a &&& entryAddress)) ?_
  simp only [linkInfo]
  cases userMode <;> decide

theorem setPDEInfo_link (userMode : Bool) (a : Entry) : setPDEInfo (linkInfo userMode a) =
    withFlag 3#64 entryUserMode userMode ||| (a &&& entryAddress) :=
  setLargeInfo_link pde2MBAddress userMode a

theorem setPDPTEInfo_link (userMode : Bool) (a : Entry) : setPDPTEInfo (linkInfo userMode a) =
    withFlag 3#64 entryUserMode userMode ||| (a &&& entryAddress) :=
  setLargeInfo_link pdpte1GBAddress userMode a

theorem setPTEInfo_link (userMode : Bool) (a : Entry) : setPTEInfo (linkInfo userMode a) =
    withFlag 3#64 entryUserMode userMode ||| (a &&& entryAddress) := by
  refine congrArg (· ||| (a &&& entryAddress)) ?_
  simp only [linkInfo]
  cases userMode <;> decide

theorem link_entry (userMode : Bool) (a : Entry) :
    ((withFlag 3#64 entryUserMode userMode) ||| (a &&& entryAddress)).Links ∧
      ((withFlag 3#64 entryUserMode userMode) ||| (a &&& entryAddress)).frame =
        (a &&& entryAddress).toNat := by
  have h : withFlag 3#64 entryUserMode userMode &&& entryAddress = 0#64 := by
    cases userMode <;> decide
  obtain ⟨hf, hp, hl⟩ := entry_bits (a := a) h
  refine ⟨⟨?_, ?_⟩, hf⟩
  · rw [hp]
    cases userMode <;> decide
  · rw [hl]
    cases userMode <;> decide

/-! ## Copied entries -/

theorem withFlag_bit {e flag : Entry} {condition : Bool} {i : Nat} (h : flag.getLsbD i = false) :
    (withFlag e flag condition).getLsbD i = e.getLsbD i := by
  cases condition with
  | true =>
    change (e ||| flag).getLsbD i = _
    rw [BitVec.getLsbD_or, h, Bool.or_false]
  | false => rfl

theorem withFlag_and {e flag mask : Entry} {condition : Bool} (hflag : flag &&& mask = 0#64) :
    withFlag e flag condition &&& mask = e &&& mask := by
  cases condition with
  | true =>
    change (e ||| flag) &&& mask = _
    rw [BitVec.and_or_distrib_right, hflag, BitVec.or_zero]
  | false => rfl

/-- The flags that an entry of any size has. -/
def commonFlags (info : EntryInfo) : Entry :=
  let entry := withFlag 0#64 entryPresent info.present
  let entry := withFlag entry entryReadWrite info.readWrite
  let entry := withFlag entry entryUserMode info.userMode
  let entry := withFlag entry entryPWT info.pwt
  let entry := withFlag entry entryPCD info.pcd
  let entry := withFlag entry entryPageSize info.pageSize
  withFlag entry entryXD info.executeDisable

theorem commonFlags_present (info : EntryInfo) : (commonFlags info).getLsbD 0 = info.present := by
  unfold commonFlags
  iterate 6 rw [withFlag_bit (by decide)]
  cases info.present <;> decide

theorem commonFlags_pageSize (info : EntryInfo) : (commonFlags info).getLsbD 7 = info.pageSize := by
  unfold commonFlags
  rw [withFlag_bit (by decide)]
  cases info.pageSize with
  | true =>
    change (_ ||| entryPageSize).getLsbD 7 = true
    rw [BitVec.getLsbD_or, show entryPageSize.getLsbD 7 = true by decide, Bool.or_true]
  | false =>
    change (withFlag _ entryPCD info.pcd).getLsbD 7 = false
    iterate 5 rw [withFlag_bit (by decide)]
    decide

theorem commonFlags_address (info : EntryInfo) : commonFlags info &&& entryAddress = 0#64 := by
  unfold commonFlags
  iterate 7 rw [withFlag_and (by decide)]
  decide

theorem setLargeInfo_small {largeAddress : Entry} {info : EntryInfo} (h : info.pageSize = false) :
    setLargeInfo largeAddress info = commonFlags info ||| (info.address &&& entryAddress) := by
  unfold setLargeInfo commonFlags
  rw [h]
  rfl

theorem setLargeInfo_large {largeAddress : Entry} {info : EntryInfo} (h : info.pageSize = true) :
    setLargeInfo largeAddress info = withFlag (withFlag (commonFlags info) entryGlobal info.global) largePAT
      info.pat ||| (info.address &&& largeAddress) := by
  unfold setLargeInfo commonFlags
  rw [h]
  rfl

/-- The copy of an entry of a PDPT is the same to the processor. -/
theorem copy_small {e : Entry} (h : e.large = false) :
    (setPDPTEInfo (getPDPTEInfo e)).present = e.present ∧ (setPDPTEInfo (getPDPTEInfo e)).large = false ∧
      (setPDPTEInfo (getPDPTEInfo e)).frame = e.frame := by
  have hsize : (getPDPTEInfo e).pageSize = false := (large_iff e).trans h
  have haddress : (getPDPTEInfo e).address = e &&& entryAddress := by
    change (if flagSet e entryPageSize then _ else _) = _
    rw [show flagSet e entryPageSize = false from (large_iff e).trans h]
    rfl
  have hentry : setPDPTEInfo (getPDPTEInfo e) =
      commonFlags (getPDPTEInfo e) ||| ((getPDPTEInfo e).address &&& entryAddress) := setLargeInfo_small hsize
  obtain ⟨hframe, hpresent, hlarge⟩ := entry_bits (a := (getPDPTEInfo e).address) (commonFlags_address (getPDPTEInfo e))
  rw [hentry, hpresent, hlarge, hframe, commonFlags_present, commonFlags_pageSize, haddress]
  refine ⟨present_iff e, hsize, ?_⟩
  rw [BitVec.and_assoc, BitVec.and_self]
  rfl

theorem copy_large {e : Entry} (h : e.large = true) :
    (setPDPTEInfo (getPDPTEInfo e)).present = e.present ∧ (setPDPTEInfo (getPDPTEInfo e)).large = true ∧
      (setPDPTEInfo (getPDPTEInfo e)).largeFrame 2 = e.largeFrame 2 := by
  have hsize : (getPDPTEInfo e).pageSize = true := (large_iff e).trans h
  have haddress : (getPDPTEInfo e).address = e &&& pdpte1GBAddress := by
    change (if flagSet e entryPageSize then _ else _) = _
    rw [show flagSet e entryPageSize = true from (large_iff e).trans h]
    rfl
  have hentry : setPDPTEInfo (getPDPTEInfo e) = withFlag (withFlag (commonFlags (getPDPTEInfo e)) entryGlobal
      (getPDPTEInfo e).global) largePAT (getPDPTEInfo e).pat ||| (e &&& pdpte1GBAddress) := by
    rw [setPDPTEInfo, setLargeInfo_large hsize, haddress, BitVec.and_assoc, BitVec.and_self]
  have hmask : ∀ i, i = 0 ∨ i = 7 → (e &&& pdpte1GBAddress).getLsbD i = false := by
    rintro i (rfl | rfl)
    · rw [BitVec.getLsbD_and, show pdpte1GBAddress.getLsbD 0 = false by decide, Bool.and_false]
    · rw [BitVec.getLsbD_and, show pdpte1GBAddress.getLsbD 7 = false by decide, Bool.and_false]
  refine ⟨?_, ?_, ?_⟩
  · unfold Entry.present
    rw [hentry, BitVec.getLsbD_or, hmask 0 (.inl rfl), Bool.or_false, withFlag_bit (by decide),
      withFlag_bit (by decide), commonFlags_present]
    exact present_iff e
  · unfold Entry.large
    rw [hentry, BitVec.getLsbD_or, hmask 7 (.inr rfl), Bool.or_false, withFlag_bit (by decide),
      withFlag_bit (by decide), commonFlags_pageSize]
    exact hsize
  · change (setPDPTEInfo (getPDPTEInfo e) &&& pdpte1GBAddress).toNat = (e &&& pdpte1GBAddress).toNat
    have hflags : commonFlags (getPDPTEInfo e) &&& pdpte1GBAddress = 0#64 := by
      unfold commonFlags
      iterate 7 rw [withFlag_and (by decide)]
      decide
    rw [hentry, BitVec.and_or_distrib_right, withFlag_and (by decide), withFlag_and (by decide), hflags,
      BitVec.zero_or, BitVec.and_assoc, BitVec.and_self]

/-- A walk that goes through the copy. -/
theorem walk_copy {m : PhysMem} {va t u : Nat}
    (h : m (slot t 2 va) = setPDPTEInfo (getPDPTEInfo (m (slot u 2 va)))) : walk m va 2 t = walk m va 2 u := by
  cases hlarge : (m (slot u 2 va)).large with
  | true =>
    obtain ⟨hpresent, hl, hframe⟩ := copy_large hlarge
    exact walk_congr_entry (n := 1) (by rw [h, hpresent]) (by rw [h, hl, hlarge]) (fun hs => by rw [hlarge] at hs; cases hs)
      fun _ => by rw [h, hframe]
  | false =>
    obtain ⟨hpresent, hl, hframe⟩ := copy_small hlarge
    exact walk_congr_entry (n := 1) (by rw [h, hpresent]) (by rw [h, hl, hlarge]) (fun _ => by rw [h, hframe])
      fun hs => by rw [hlarge] at hs; cases hs

/-! ## Accesses -/

def readVirtual (m : PhysMem) (root va : Nat) : Option Entry := (translation m root va).map m

def update (m : PhysMem) (p : Nat) (e : Entry) : PhysMem := fun q => if q = p then e else m q

def writeVirtual (m : PhysMem) (root va : Nat) (e : Entry) : Option PhysMem :=
  (translation m root va).map fun p => update m p e

theorem readVirtual_of {m : PhysMem} {root va q : Nat} (h : translation m root va = some q) :
    readVirtual m root va = some (m q) := by
  rw [readVirtual, h]
  rfl

theorem writeVirtual_of {m : PhysMem} {root va q : Nat} {e : Entry} (h : translation m root va = some q) :
    writeVirtual m root va e = some (update m q e) := by
  rw [writeVirtual, h]
  rfl

/-- The `for` of `ZeroPage` with `k` words left, the next one `i`. -/
def zeroLoop (root va : Nat) : Nat → Nat → PhysMem → Option PhysMem
  | 0, _, m => some m
  | k + 1, i, m => (writeVirtual m root (va + 8 * i) 0#64).bind (zeroLoop root va k (i + 1))

/-- mirrors common/include/shared/memory/defs.hpp:127-138 -/
def zeroPage (m : PhysMem) (root va : Nat) : Option PhysMem := zeroLoop root va 512 0 m

/-- Zeroing through an address that stays mapped to the page `f` meanwhile. -/
theorem zeroLoop_spec {root va f : Nat} (k : Nat) : ∀ (i : Nat) (m : PhysMem), i + k = 512 →
    (∀ m', (∀ q, ¬ (f ≤ q ∧ q < f + 4096) → m' q = m q) → ∀ j, j < 512 →
      translation m' root (va + 8 * j) = some (f + 8 * j)) →
    (∀ j, j < i → m (f + 8 * j) = 0#64) →
    ∃ m', zeroLoop root va k i m = some m' ∧ (∀ j, j < 512 → m' (f + 8 * j) = 0#64) ∧
      ∀ q, ¬ (f ≤ q ∧ q < f + 4096) → m' q = m q := by
  induction k with
  | zero =>
    intro i m hi _ hz
    exact ⟨m, rfl, fun j hj => hz j (by omega), fun _ _ => rfl⟩
  | succ k ih =>
    intro i m hi htr hz
    have hsame : ∀ q, ¬ (f ≤ q ∧ q < f + 4096) → update m (f + 8 * i) 0#64 q = m q := by
      intro q hq
      exact if_neg (by omega)
    obtain ⟨m', hrun, hzero, hrest⟩ := ih (i + 1) (update m (f + 8 * i) 0#64) (by omega)
      (fun m' hm' => htr m' fun q hq => (hm' q hq).trans (hsame q hq)) (by
        intro j hj
        by_cases he : j = i
        · subst he
          exact if_pos rfl
        · exact (if_neg (by omega)).trans (hz j (by omega)))
    refine ⟨m', ?_, hzero, fun q hq => (hrest q hq).trans (hsame q hq)⟩
    unfold zeroLoop writeVirtual
    rw [htr m (fun _ _ => rfl) i (by omega)]
    exact hrun

theorem zeroPage_spec (m : PhysMem) (root va f : Nat)
    (h : ∀ m', (∀ q, ¬ (f ≤ q ∧ q < f + 4096) → m' q = m q) → ∀ j, j < 512 →
      translation m' root (va + 8 * j) = some (f + 8 * j)) :
    ∃ m', zeroPage m root va = some m' ∧ (∀ j, j < 512 → m' (f + 8 * j) = 0#64) ∧
      ∀ q, ¬ (f ≤ q ∧ q < f + 4096) → m' q = m q :=
  zeroLoop_spec 512 0 m rfl h fun j hj => absurd hj (by omega)

end BadLands.Mm.Paging
