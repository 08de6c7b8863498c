import BadLands.Core.Script
import BadLands.Mm.SecondaryMapping

/-!
# Freeing an address space

`FreeSecondaryRecursiveMapping` walks the tables of the space behind the secondary window and
passes their frames to `PhysicalMemory`. `pml4eLines` says what a subtree holds, in the order
of the walk. The path for slot 0, which has to spare the DMA zone, tests the entry of the
primary window instead of the one of slot 0, and takes the first entry of the PDPT for each of
the others.

`frees_private_iff`: exactly the private frames are passed on, each once, iff the space has no
primary window and nothing private in slot 0.
-/
namespace BadLands.Mm.Paging

open BadLands.Core BadLands.Core.PageTable BadLands.Core.Script BadLands.Mm.Layout

/-- The calls of `PhysicalMemory`. -/
inductive FreeCall where
  | free (address : Nat)
  | free2MB (address : Nat)
  | free1GB (address : Nat)
  deriving DecidableEq, Repr

def FreeCall.address : FreeCall → Nat
  | .free address => address
  | .free2MB address => address
  | .free1GB address => address

/-- The answer to a call, which may depend on the calls before it. -/
abbrev Answers := List FreeCall → FreeCall → Bool

/-- The turn of the loop over a PT.
mirrors kernel/src/mm/Paging.cpp:117-131 -/
def freePTEntry (m : PhysMem) (root : Nat) (answer : Answers) (mapping : VirtualAddress) (i : Nat)
    (s : List FreeCall) : Option (Bool × List FreeCall) := do
  let map := { mapping with ptOffset := i }
  let pteInfo := getPTEInfo (← readVirtual m root (getPTEAddress map false))
  if pteInfo.present then return pass answer (.free pteInfo.address.toNat) s
  return (true, s)

/-- The result of the last call is not looked at.
mirrors kernel/src/mm/Paging.cpp:115-137 -/
def freePDE (m : PhysMem) (root : Nat) (answer : Answers) (mapping : VirtualAddress) (pde : Nat)
    (s : List FreeCall) : Option (Bool × List FreeCall) := do
  let (ok, s) ← forEach (freePTEntry m root answer mapping) ptEntries 0 s
  if !ok then return (false, s)
  let pdeInfo := getPDEInfo (← readVirtual m root pde)
  return (true, (pass answer (.free pdeInfo.address.toNat) s).2)

/-- The turn of the loops over a PD.
mirrors kernel/src/mm/Paging.cpp:141-163,212-233 -/
def freePDEntry (m : PhysMem) (root : Nat) (answer : Answers) (mapping : VirtualAddress) (i : Nat)
    (s : List FreeCall) : Option (Bool × List FreeCall) := do
  let map := { mapping with pdOffset := i }
  let pde := getPDEAddress map false
  let pdeInfo := getPDEInfo (← readVirtual m root pde)
  if pdeInfo.present then
    if pdeInfo.pageSize then return pass answer (.free2MB pdeInfo.address.toNat) s
    freePDE m root answer map pde s
  else return (true, s)

/-- mirrors kernel/src/mm/Paging.cpp:139-168 -/
def freePDPTE (m : PhysMem) (root : Nat) (answer : Answers) (mapping : VirtualAddress) (pdpte : Nat)
    (s : List FreeCall) : Option (Bool × List FreeCall) := do
  let (ok, s) ← forEach (freePDEntry m root answer mapping) ptEntries 0 s
  if !ok then return (false, s)
  let pdpteInfo := getPDPTEInfo (← readVirtual m root pdpte)
  return pass answer (.free pdpteInfo.address.toNat) s

/-- What is done with the entry of a PDPT that is at `pdpte`, for the PD that `map` leads to.
mirrors kernel/src/mm/Paging.cpp:175-191,240-254 -/
def freePDPTEntry (m : PhysMem) (root : Nat) (answer : Answers) (map : VirtualAddress) (pdpte : Nat)
    (s : List FreeCall) : Option (Bool × List FreeCall) := do
  let pdpteInfo := getPDPTEInfo (← readVirtual m root pdpte)
  if pdpteInfo.present then
    if pdpteInfo.pageSize then return pass answer (.free1GB pdpteInfo.address.toNat) s
    freePDPTE m root answer map pdpte s
  else return (true, s)

/-- mirrors kernel/src/mm/Paging.cpp:170-198 -/
def freePML4E (m : PhysMem) (root : Nat) (answer : Answers) (mapping : VirtualAddress) (pml4e : Nat)
    (s : List FreeCall) : Option (Bool × List FreeCall) := do
  let (ok, s) ← forEach (fun i =>
    let map := { mapping with pdptOffset := i }
    freePDPTEntry m root answer map (getPDPTEAddress map false)) ptEntries 0 s
  if !ok then return (false, s)
  let pml4eInfo := getPML4EInfo (← readVirtual m root pml4e)
  return pass answer (.free pml4eInfo.address.toNat) s

/-- mirrors kernel/src/mm/Paging.cpp:200-258 -/
def freeFirstPML4E (m : PhysMem) (root : Nat) (answer : Answers) (s : List FreeCall) :
    Option (Bool × List FreeCall) := do
  let primaryMapping := parseVirtualAddress recursiveMemoryMapping.start
  let primaryPml4eInfo := getPML4EInfo (← readVirtual m root (getPML4EAddress primaryMapping false))
  if !primaryPml4eInfo.present then return (true, s)
  let (ok, s) ← forEach (freePDEntry m root answer dmaEndMapping) (ptEntries - dmaEndMapping.pdOffset)
    dmaEndMapping.pdOffset s
  if !ok then return (false, s)
  -- the pointer is to the table, where `freePML4E` has the one to the entry
  forEach (fun i =>
    let mapping := { dmaEndMapping with pdptOffset := i }
    freePDPTEntry m root answer mapping (getPDPTAddress mapping false))
    (ptEntries - (dmaEndMapping.pdptOffset + 1)) (dmaEndMapping.pdptOffset + 1) s

/-- A slot that is freed as a whole; what `FreePML4E` returns is not looked at.
mirrors kernel/src/mm/Paging.cpp:628-643,646-655 -/
def freeSlot (m : PhysMem) (root : Nat) (answer : Answers) (mapping : VirtualAddress) (s : List FreeCall) :
    Option (Bool × List FreeCall) := do
  let pml4e := getPML4EAddress mapping false
  let pml4eInfo := getPML4EInfo (← readVirtual m root pml4e)
  if pml4eInfo.present then
    let (_, s) ← freePML4E m root answer mapping pml4e s
    return (true, s)
  else return (true, s)

/-- mirrors kernel/src/mm/Paging.cpp:612-664 -/
def freeSecondaryRecursiveMapping (m : PhysMem) (root : Nat) (answer : Answers) :
    Option (List FreeCall × PhysMem) := do
  let secondaryPml4e := getPML4EAddress (parseVirtualAddress secondaryRecursiveMapping.start) false
  let secondaryPml4eInfo := getPML4EInfo (← readVirtual m root secondaryPml4e)
  if !secondaryPml4eInfo.present then return ([], m)
  let (_, s) ← freeFirstPML4E m root answer []
  let (_, s) ← forEach (fun i => freeSlot m root answer ⟨i, 0, 0, 0, 0⟩) (256 - 1) 1 s
  let (_, s) ← freeSlot m root answer (parseVirtualAddress taskMemory.start) s
  let s := (pass answer (.free secondaryPml4eInfo.address.toNat) s).2
  let m ← writeVirtual m root secondaryPml4e 0#64
  return (s, m)

/-! ## What a subtree holds -/

/-- Calls in the order of the walk, and whether a failure ends it. -/
abbrev Lines := List (FreeCall × Bool)

def pteLines (e : Entry) : Lines := if e.present then [(.free e.frame, true)] else []

def ptLines (m : PhysMem) (t : Nat) : Lines := (List.range' 0 512).flatMap fun i => pteLines (m (t + 8 * i))

def pdeLines (m : PhysMem) (e : Entry) : Lines :=
  if e.present then
    if e.large then [(.free2MB (e.largeFrame 1), true)] else ptLines m e.frame ++ [(.free e.frame, false)]
  else []

def pdLines (m : PhysMem) (t : Nat) : Lines := (List.range' 0 512).flatMap fun i => pdeLines m (m (t + 8 * i))

def pdpteLines (m : PhysMem) (e : Entry) : Lines :=
  if e.present then
    if e.large then [(.free1GB (e.largeFrame 2), true)] else pdLines m e.frame ++ [(.free e.frame, true)]
  else []

def pdptLines (m : PhysMem) (t : Nat) : Lines :=
  (List.range' 0 512).flatMap fun i => pdpteLines m (m (t + 8 * i))

def pml4eLines (m : PhysMem) (e : Entry) : Lines :=
  if e.present then pdptLines m e.frame ++ [(.free e.frame, true)] else []

/-- The calls that the frames of a slot need. -/
def slotCalls (m : PhysMem) (tgt i : Nat) : List FreeCall := (pml4eLines m (m (tgt + 8 * i))).map (·.1)

/-! ## Reading through the secondary window -/

/-- The address with the given indices. -/
def pathAddress (a b c d : Nat) : Nat := (((a * 512 + b) * 512 + c) * 512 + d) * 4096

theorem path_indices {a b c d : Nat} (ha : a < 512) (hb : b < 512) (hc : c < 512) (hd : d < 512) :
    index 3 (pathAddress a b c d) = a ∧ index 2 (pathAddress a b c d) = b ∧ index 1 (pathAddress a b c d) = c ∧
      index 0 (pathAddress a b c d) = d := by
  unfold index pathAddress
  simp only [Nat.reduceMul, Nat.reduceAdd, Nat.reducePow]
  omega

theorem parse_path {a b c d : Nat} (ha : a < 512) (hb : b < 512) (hc : c < 512) (hd : d < 512) :
    parseVirtualAddress (pathAddress a b c d) = ⟨a, b, c, d, 0⟩ := by
  obtain ⟨h3, h2, h1, h0⟩ := path_indices ha hb hc hd
  have hoff : pathAddress a b c d % 4096 = 0 := by
    unfold pathAddress
    omega
  rw [parse_eq, h3, h2, h1, h0, hoff]

section
variable {m : PhysMem} {root tgt a b c d o : Nat}

theorem reach_next {va n k t u i : Nat} (hr : Reach m va n t (k + 1) u) (hi : index (k + 1) va = i) {v : Nat}
    (hp : PointsTo (m (u + 8 * i)) v) : Reach m va n t k v := by
  have hs : slot u (k + 1) va = u + 8 * i := by
    unfold slot
    rw [hi]
  have hl : (m (slot u (k + 1) va)).Links := by
    rw [hs]
    exact hp.1
  have hnext := hr.next hl
  rwa [hs, hp.2] at hnext

theorem read_pml4e (hw : Window m root tgt false) (ha : a < 512) :
    readVirtual m root (getPML4EAddress ⟨a, b, c, d, o⟩ false) = some (m (tgt + 8 * a)) := by
  unfold readVirtual
  change (translation m root (getPML4Address false + 8 * a)).map m = _
  rw [pml4Pointer hw (by omega)]
  rfl

theorem read_pdpte (hw : Window m root tgt false) {t₂ : Nat} (h₂ : PointsTo (m (tgt + 8 * a)) t₂) (ha : a < 512)
    (hb : b < 512) : readVirtual m root (getPDPTEAddress ⟨a, b, c, d, o⟩ false) = some (m (t₂ + 8 * b)) := by
  obtain ⟨hi3, -, -, -⟩ := path_indices ha hb (show 0 < 512 by decide) (show 0 < 512 by decide)
  have hr : Reach m (pathAddress a b 0 0) 3 tgt 2 t₂ := reach_next (.here _ _) hi3 h₂
  have hp := pdptPointer hw hr (k := 8 * b) (by omega)
  rw [parse_path ha hb (by decide) (by decide)] at hp
  unfold readVirtual
  change (translation m root (getPDPTAddress ⟨a, b, 0, 0, 0⟩ false + 8 * b)).map m = _
  rw [hp]
  rfl

theorem read_pde (hw : Window m root tgt false) {t₂ t₁ : Nat} (h₂ : PointsTo (m (tgt + 8 * a)) t₂)
    (h₁ : PointsTo (m (t₂ + 8 * b)) t₁) (ha : a < 512) (hb : b < 512) (hc : c < 512) :
    readVirtual m root (getPDEAddress ⟨a, b, c, d, o⟩ false) = some (m (t₁ + 8 * c)) := by
  obtain ⟨hi3, hi2, -, -⟩ := path_indices ha hb hc (show 0 < 512 by decide)
  have hr : Reach m (pathAddress a b c 0) 3 tgt 1 t₁ := reach_next (reach_next (.here _ _) hi3 h₂) hi2 h₁
  have hp := pdPointer hw hr (k := 8 * c) (by omega)
  rw [parse_path ha hb hc (by decide)] at hp
  unfold readVirtual
  change (translation m root (getPDAddress ⟨a, b, c, 0, 0⟩ false + 8 * c)).map m = _
  rw [hp]
  rfl

theorem read_pte (hw : Window m root tgt false) {t₂ t₁ t₀ : Nat} (h₂ : PointsTo (m (tgt + 8 * a)) t₂)
    (h₁ : PointsTo (m (t₂ + 8 * b)) t₁) (h₀ : PointsTo (m (t₁ + 8 * c)) t₀) (ha : a < 512) (hb : b < 512)
    (hc : c < 512) (hd : d < 512) :
    readVirtual m root (getPTEAddress ⟨a, b, c, d, o⟩ false) = some (m (t₀ + 8 * d)) := by
  obtain ⟨hi3, hi2, hi1, -⟩ := path_indices ha hb hc hd
  have hr : Reach m (pathAddress a b c d) 3 tgt 0 t₀ :=
    reach_next (reach_next (reach_next (.here _ _) hi3 h₂) hi2 h₁) hi1 h₀
  have hp := ptPointer hw hr (k := 8 * d) (by omega)
  rw [parse_path ha hb hc hd] at hp
  unfold readVirtual
  change (translation m root (getPTAddress ⟨a, b, c, d, 0⟩ false + 8 * d)).map m = _
  rw [hp]
  rfl

/-- Without the table there is nothing to read. -/
theorem read_pde_fault (hw : Window m root tgt false) (ha : a < 512) (hb : b < 512) (hc : c < 512)
    (h : (m (tgt + 8 * a)).present = false ∨
      ∃ t₂, PointsTo (m (tgt + 8 * a)) t₂ ∧ (m (t₂ + 8 * b)).present = false) :
    readVirtual m root (getPDEAddress ⟨a, b, c, d, o⟩ false) = none := by
  have hwi := windowIndex_lt false
  obtain ⟨hi3, hi2, -, -⟩ := path_indices ha hb hc (show 0 < 512 by decide)
  have hpointer : getPDEAddress ⟨a, b, c, d, o⟩ false =
      getPDAddress (parseVirtualAddress (pathAddress a b c 0)) false + 8 * c := by
    rw [parse_path ha hb hc (by decide)]
    rfl
  unfold readVirtual
  rw [hpointer, pdAddress_eq, hi3, hi2]
  obtain ⟨h3, h2, h1, h0, -, hcan⟩ := pointer_indices (u := false) hwi ha hb (show 8 * c < 4096 by omega)
  rw [translation, if_pos hcan, walk_pointsTo h3 hw.entry, walk_pointsTo h2 hw.self]
  rcases h with habsent | ⟨t₂, h₂, habsent⟩
  · rw [walk_absent (by unfold slot; rw [h1]; exact habsent)]
    rfl
  · rw [walk_pointsTo h1 h₂, walk_absent (by unfold slot; rw [h0]; exact habsent)]
    rfl

/-! ## The walks are scripts -/

theorem smallAddress {largeAddress e : Entry} (h : e.large = false) :
    (getLargeInfo largeAddress e).address.toNat = e.frame := by
  change (if flagSet e entryPageSize then e &&& largeAddress else e &&& entryAddress).toNat = _
  rw [large_iff, h]
  rfl

theorem largeAddress_eq {largeAddress e : Entry} (h : e.large = true) :
    (getLargeInfo largeAddress e).address = e &&& largeAddress := by
  change (if flagSet e entryPageSize then e &&& largeAddress else e &&& entryAddress) = _
  rw [large_iff, h]
  rfl

theorem largeInfo_present (largeAddress e : Entry) : (getLargeInfo largeAddress e).present = e.present :=
  present_iff e

theorem largeInfo_pageSize (largeAddress e : Entry) : (getLargeInfo largeAddress e).pageSize = e.large :=
  large_iff e

theorem pointsTo_frame {e : Entry} (hp : e.present = true) (hl : e.large = false) : PointsTo e e.frame :=
  ⟨⟨hp, hl⟩, rfl⟩

variable {answer : Answers}

theorem freePTEntry_spec (hw : Window m root tgt false) {t₂ t₁ t₀ : Nat} (h₂ : PointsTo (m (tgt + 8 * a)) t₂)
    (h₁ : PointsTo (m (t₂ + 8 * b)) t₁) (h₀ : PointsTo (m (t₁ + 8 * c)) t₀) (ha : a < 512) (hb : b < 512)
    (hc : c < 512) {i : Nat} (hi : i < 512) (s : List FreeCall) :
    freePTEntry m root answer ⟨a, b, c, d, o⟩ i s = some (run answer (pteLines (m (t₀ + 8 * i))) s) := by
  have hpresent : (getPTEInfo (m (t₀ + 8 * i))).present = (m (t₀ + 8 * i)).present := present_iff _
  unfold freePTEntry pteLines
  simp only [Option.bind_eq_bind, read_pte hw h₂ h₁ h₀ ha hb hc hi, Option.bind_some, hpresent]
  cases (m (t₀ + 8 * i)).present with
  | true =>
    rw [if_pos rfl, if_pos rfl, run_checked]
    rfl
  | false =>
    rw [if_neg Bool.false_ne_true, if_neg Bool.false_ne_true]
    rfl

theorem freePDE_spec (hw : Window m root tgt false) {t₂ t₁ t₀ : Nat} (h₂ : PointsTo (m (tgt + 8 * a)) t₂)
    (h₁ : PointsTo (m (t₂ + 8 * b)) t₁) (h₀ : PointsTo (m (t₁ + 8 * c)) t₀) (ha : a < 512) (hb : b < 512)
    (hc : c < 512) (s : List FreeCall) :
    freePDE m root answer ⟨a, b, c, d, o⟩ (getPDEAddress ⟨a, b, c, d, o⟩ false) s =
      some (run answer (ptLines m t₀ ++ [(.free t₀, false)]) s) := by
  have haddress : (getPDEInfo (m (t₁ + 8 * c))).address.toNat = t₀ := (smallAddress h₀.1.2).trans h₀.2
  have hloop : forEach (freePTEntry m root answer ⟨a, b, c, d, o⟩) ptEntries 0 s =
      some (run answer (ptLines m t₀) s) := forEach_run 512 0 s fun j _ hj s =>
    freePTEntry_spec hw h₂ h₁ h₀ ha hb hc (by omega) s
  unfold freePDE
  rw [run_then_unchecked]
  simp only [Option.bind_eq_bind, hloop, Option.bind_some, read_pde hw h₂ h₁ ha hb hc, haddress]
  cases (run answer (ptLines m t₀) s).1 with
  | true => rfl
  | false => rfl

theorem freePDEntry_spec (hw : Window m root tgt false) {t₂ t₁ : Nat} (h₂ : PointsTo (m (tgt + 8 * a)) t₂)
    (h₁ : PointsTo (m (t₂ + 8 * b)) t₁) (ha : a < 512) (hb : b < 512) {i : Nat} (hi : i < 512)
    (s : List FreeCall) :
    freePDEntry m root answer ⟨a, b, c, d, o⟩ i s = some (run answer (pdeLines m (m (t₁ + 8 * i))) s) := by
  have hpresent : (getPDEInfo (m (t₁ + 8 * i))).present = (m (t₁ + 8 * i)).present := largeInfo_present _ _
  have hsize : (getPDEInfo (m (t₁ + 8 * i))).pageSize = (m (t₁ + 8 * i)).large := largeInfo_pageSize _ _
  unfold freePDEntry pdeLines
  simp only [Option.bind_eq_bind, read_pde hw h₂ h₁ ha hb hi, Option.bind_some, hpresent, hsize]
  cases hp : (m (t₁ + 8 * i)).present with
  | false =>
    rw [if_neg Bool.false_ne_true, if_neg Bool.false_ne_true]
    rfl
  | true =>
    rw [if_pos rfl, if_pos rfl]
    cases hl : (m (t₁ + 8 * i)).large with
    | true =>
      have haddress : (getPDEInfo (m (t₁ + 8 * i))).address.toNat = (m (t₁ + 8 * i)).largeFrame 1 :=
        congrArg BitVec.toNat (largeAddress_eq hl)
      rw [if_pos rfl, if_pos rfl, run_checked, haddress]
      rfl
    | false =>
      rw [if_neg Bool.false_ne_true, if_neg Bool.false_ne_true]
      exact freePDE_spec hw h₂ h₁ (pointsTo_frame hp hl) ha hb hi s

/-- The frame that is passed on at the end is the one of the entry at `pdpte`. -/
theorem freePDPTE_spec (hw : Window m root tgt false) {t₂ t₁ pdpte : Nat} {e : Entry}
    (h₂ : PointsTo (m (tgt + 8 * a)) t₂) (h₁ : PointsTo (m (t₂ + 8 * b)) t₁)
    (he : readVirtual m root pdpte = some e) (hsmall : e.large = false) (ha : a < 512) (hb : b < 512)
    (s : List FreeCall) :
    freePDPTE m root answer ⟨a, b, c, d, o⟩ pdpte s =
      some (run answer (pdLines m t₁ ++ [(.free e.frame, true)]) s) := by
  have haddress : (getPDPTEInfo e).address.toNat = e.frame := smallAddress hsmall
  have hloop : forEach (freePDEntry m root answer ⟨a, b, c, d, o⟩) ptEntries 0 s =
      some (run answer (pdLines m t₁) s) := forEach_run 512 0 s fun j _ hj s =>
    freePDEntry_spec hw h₂ h₁ ha hb (by omega) s
  unfold freePDPTE
  rw [run_then_checked]
  simp only [Option.bind_eq_bind, hloop, Option.bind_some, he, haddress]
  cases (run answer (pdLines m t₁) s).1 with
  | true => rfl
  | false => rfl

theorem freePDPTEntry_spec (hw : Window m root tgt false) {t₂ : Nat} (h₂ : PointsTo (m (tgt + 8 * a)) t₂)
    (ha : a < 512) (hb : b < 512) (s : List FreeCall) :
    freePDPTEntry m root answer ⟨a, b, c, d, o⟩ (getPDPTEAddress ⟨a, b, c, d, o⟩ false) s =
      some (run answer (pdpteLines m (m (t₂ + 8 * b))) s) := by
  have hread := read_pdpte (c := c) (d := d) (o := o) hw h₂ ha hb
  have hpresent : (getPDPTEInfo (m (t₂ + 8 * b))).present = (m (t₂ + 8 * b)).present := largeInfo_present _ _
  have hsize : (getPDPTEInfo (m (t₂ + 8 * b))).pageSize = (m (t₂ + 8 * b)).large := largeInfo_pageSize _ _
  unfold freePDPTEntry pdpteLines
  simp only [Option.bind_eq_bind, hread, Option.bind_some, hpresent, hsize]
  cases hp : (m (t₂ + 8 * b)).present with
  | false =>
    rw [if_neg Bool.false_ne_true, if_neg Bool.false_ne_true]
    rfl
  | true =>
    rw [if_pos rfl, if_pos rfl]
    cases hl : (m (t₂ + 8 * b)).large with
    | true =>
      have haddress : (getPDPTEInfo (m (t₂ + 8 * b))).address.toNat = (m (t₂ + 8 * b)).largeFrame 2 :=
        congrArg BitVec.toNat (largeAddress_eq hl)
      rw [if_pos rfl, if_pos rfl, run_checked, haddress]
      rfl
    | false =>
      rw [if_neg Bool.false_ne_true, if_neg Bool.false_ne_true]
      exact freePDPTE_spec hw h₂ (pointsTo_frame hp hl) hread hl ha hb s

theorem freePML4E_spec (hw : Window m root tgt false) {t₂ : Nat} (h₂ : PointsTo (m (tgt + 8 * a)) t₂)
    (ha : a < 512) (s : List FreeCall) :
    freePML4E m root answer ⟨a, b, c, d, o⟩ (getPML4EAddress ⟨a, b, c, d, o⟩ false) s =
      some (run answer (pdptLines m t₂ ++ [(.free t₂, true)]) s) := by
  have haddress : (getPML4EInfo (m (tgt + 8 * a))).address.toNat = t₂ := h₂.2
  have hloop : forEach (fun i => freePDPTEntry m root answer ⟨a, i, c, d, o⟩ (getPDPTEAddress ⟨a, i, c, d, o⟩ false))
      ptEntries 0 s = some (run answer (pdptLines m t₂) s) := forEach_run 512 0 s fun j _ hj s =>
    freePDPTEntry_spec hw h₂ ha (by omega) s
  unfold freePML4E
  rw [run_then_checked]
  simp only [Option.bind_eq_bind, hloop, Option.bind_some, read_pml4e hw ha, haddress]
  cases (run answer (pdptLines m t₂) s).1 with
  | true => rfl
  | false => rfl

/-- A slot, whether or not its walk comes to an end. -/
theorem freeSlot_spec (hw : Window m root tgt false) (ha : a < 512)
    (hsmall : (m (tgt + 8 * a)).present = true → (m (tgt + 8 * a)).large = false) (s : List FreeCall) :
    freeSlot m root answer ⟨a, b, c, d, o⟩ s =
      some (true, (run answer (pml4eLines m (m (tgt + 8 * a))) s).2) := by
  have hpresent : (getPML4EInfo (m (tgt + 8 * a))).present = (m (tgt + 8 * a)).present := present_iff _
  unfold freeSlot pml4eLines
  simp only [Option.bind_eq_bind, read_pml4e hw ha, Option.bind_some, hpresent]
  cases hp : (m (tgt + 8 * a)).present with
  | false =>
    rw [if_neg Bool.false_ne_true, if_neg Bool.false_ne_true]
    rfl
  | true =>
    rw [if_pos rfl, if_pos rfl, freePML4E_spec hw (pointsTo_frame hp (hsmall hp)) ha]
    rfl

end

/-! ## Private frames -/

/-- The frames below slot 0 that are not shared with the current space. -/
def slot0Private (m : PhysMem) (tgt : Nat) (shared : Nat → Bool) : List FreeCall :=
  (slotCalls m tgt 0).filter fun c => !shared c.address

/-- The slots of the lower half but the first, and the one of the task memory. -/
def privateSlots (m : PhysMem) (tgt : Nat) : List FreeCall :=
  (List.range' 1 255).flatMap (slotCalls m tgt) ++ slotCalls m tgt 511

/-- What the space does not share: each frame with the function that frees it, the root last. -/
def privateCalls (m : PhysMem) (tgt : Nat) (shared : Nat → Bool) : List FreeCall :=
  slot0Private m tgt shared ++ (privateSlots m tgt ++ [.free tgt])

/-- A space behind the secondary window. `shared` are the frames it has in common with the
current one: those of the kernel's slots, which are not looked at here, and those of the DMA
zone. Private frames are referenced once and were allocated, so that freeing them succeeds. -/
structure PrivateSpace (m : PhysMem) (root tgt : Nat) (shared : Nat → Bool) (answer : Answers) : Prop where
  window : Window m root tgt false
  reserved : ∀ i, i < 256 ∨ i = 511 → (m (tgt + 8 * i)).present = true → (m (tgt + 8 * i)).large = false
  noGiant : ∀ t, PointsTo (m tgt) t → ∀ j, j < 512 → (m (t + 8 * j)).present = true →
    (m (t + 8 * j)).large = false
  apart : ∀ c ∈ privateCalls m tgt shared, shared c.address = false
  once : (privateCalls m tgt shared).Nodup
  answered : ∀ c ∈ privateCalls m tgt shared, ∀ s, answer s c = true

/-- Every private frame is passed on once, and no shared one. -/
def FreesPrivate (m : PhysMem) (root tgt : Nat) (shared : Nat → Bool) (answer : Answers) : Prop :=
  ∃ calls m', freeSecondaryRecursiveMapping m root answer = some (calls, m') ∧
    (∀ c ∈ privateCalls m tgt shared, calls.count c = 1) ∧ ∀ c ∈ calls, shared c.address = false

section
variable {m : PhysMem} {root tgt : Nat} {shared : Nat → Bool} {answer : Answers}

theorem mem_privateCalls {c : FreeCall} : c ∈ privateCalls m tgt shared ↔
    c ∈ slot0Private m tgt shared ∨ c ∈ privateSlots m tgt ∨ c = .free tgt := by
  unfold privateCalls
  rw [List.mem_append, List.mem_append, List.mem_singleton]

/-- Without a primary window, slot 0 is left alone. -/
theorem freeFirstPML4E_absent (hw : Window m root tgt false)
    (h : (m (tgt + 8 * primaryPml4Index)).present = false) (s : List FreeCall) :
    freeFirstPML4E m root answer s = some (true, s) := by
  have hread : readVirtual m root (getPML4EAddress (parseVirtualAddress recursiveMemoryMapping.start) false) =
      some (m (tgt + 8 * primaryPml4Index)) := by
    rw [show parseVirtualAddress recursiveMemoryMapping.start = ⟨510, 0, 0, 0, 0⟩ by decide, primaryPml4Index_eq]
    exact read_pml4e hw (by decide)
  have hpresent : (getPML4EInfo (m (tgt + 8 * primaryPml4Index))).present = false := (present_iff _).trans h
  unfold freeFirstPML4E
  simp only [Option.bind_eq_bind, hread, Option.bind_some, hpresent, Bool.not_false, if_true]
  rfl

theorem read_secondary (hw : Window m root tgt false) :
    readVirtual m root (getPML4EAddress (parseVirtualAddress secondaryRecursiveMapping.start) false) =
      some (m (tgt + 8 * secondaryPml4Index)) := by
  rw [show parseVirtualAddress secondaryRecursiveMapping.start = ⟨509, 0, 0, 0, 0⟩ by decide,
    secondaryPml4Index_eq]
  exact read_pml4e hw (by decide)

theorem write_secondary (hw : Window m root tgt false) (e : Entry) : ∃ m',
    writeVirtual m root (getPML4EAddress (parseVirtualAddress secondaryRecursiveMapping.start) false) e =
      some m' := by
  unfold writeVirtual
  rw [pml4ePointer hw]
  exact ⟨_, rfl⟩

/-- The calls that are made when slot 0 is left alone. -/
theorem freeSecondary_absent (h : PrivateSpace m root tgt shared answer)
    (hprimary : (m (tgt + 8 * primaryPml4Index)).present = false) :
    ∃ m', freeSecondaryRecursiveMapping m root answer = some (privateSlots m tgt ++ [.free tgt], m') := by
  have hself := h.window.self
  have hpresent : (getPML4EInfo (m (tgt + 8 * secondaryPml4Index))).present = true :=
    (present_iff _).trans hself.1.1
  have haddress : (getPML4EInfo (m (tgt + 8 * secondaryPml4Index))).address.toNat = tgt := hself.2
  -- a slot with private frames only is walked to its end
  have hslot : ∀ i, i < 512 → (i < 256 ∨ i = 511) → (∀ c ∈ slotCalls m tgt i, c ∈ privateSlots m tgt) → ∀ s,
      freeSlot m root answer ⟨i, 0, 0, 0, 0⟩ s = some (run answer (pml4eLines m (m (tgt + 8 * i))) s) := by
    intro i hi hrange hsub s
    rw [freeSlot_spec h.window hi (h.reserved i hrange), run_answered]
    intro x hx s
    apply h.answered
    rw [mem_privateCalls]
    exact .inr (.inl (hsub x.1 (List.mem_map_of_mem hx)))
  have hall : ∀ xs : Lines, (∀ x ∈ xs, x.1 ∈ privateSlots m tgt) → ∀ s,
      run answer xs s = (true, s ++ xs.map (·.1)) := by
    intro xs hxs s
    refine run_answered xs s fun x hx s => h.answered _ ?_ s
    rw [mem_privateCalls]
    exact .inr (.inl (hxs x hx))
  have hlow : ∀ i, 1 ≤ i → i < 256 → ∀ c ∈ slotCalls m tgt i, c ∈ privateSlots m tgt := by
    intro i h1 h2 c hc
    unfold privateSlots
    rw [List.mem_append, List.mem_flatMap]
    exact .inl ⟨i, List.mem_range'_1.mpr (by omega), hc⟩
  have htask : ∀ c ∈ slotCalls m tgt 511, c ∈ privateSlots m tgt := fun c hc =>
    List.mem_append_right _ hc
  have hloop : forEach (fun i => freeSlot m root answer ⟨i, 0, 0, 0, 0⟩) (256 - 1) 1 [] =
      some (run answer ((List.range' 1 255).flatMap fun i => pml4eLines m (m (tgt + 8 * i))) []) :=
    forEach_run 255 1 [] fun j h1 h2 s => hslot j (by omega) (.inl (by omega)) (hlow j h1 (by omega)) s
  rw [hall _ fun x hx => by
    obtain ⟨i, hi, hx⟩ := List.mem_flatMap.mp hx
    rw [List.mem_range'_1] at hi
    exact hlow i hi.1 (by omega) x.1 (List.mem_map_of_mem hx)] at hloop
  obtain ⟨m', hwrite⟩ := write_secondary h.window 0#64
  refine ⟨m', ?_⟩
  unfold freeSecondaryRecursiveMapping
  simp only [Option.bind_eq_bind, read_secondary h.window, Option.bind_some, hpresent, Bool.not_true,
    Bool.false_eq_true, if_false, freeFirstPML4E_absent h.window hprimary, hloop]
  rw [show parseVirtualAddress taskMemory.start = ⟨511, 0, 0, 0, 0⟩ by decide,
    hslot 511 (by decide) (.inr rfl) htask, hall _ fun x hx => htask x.1 (List.mem_map_of_mem hx)]
  simp only [Option.bind_some, hwrite, haddress, Script.pass]
  unfold privateSlots slotCalls
  rw [List.map_flatMap, List.nil_append]
  rfl

/-! ## With a primary window -/

theorem freePTEntry_extends {mapping : VirtualAddress} {i : Nat} {s s' : List FreeCall} {ok : Bool}
    (h : freePTEntry m root answer mapping i s = some (ok, s')) : ∃ made, s' = s ++ made := by
  unfold freePTEntry at h
  simp only [Option.bind_eq_bind, Option.bind_eq_some_iff] at h
  obtain ⟨e, -, h⟩ := h
  split at h
  · cases h
    exact ⟨_, rfl⟩
  · cases h
    exact ⟨[], (List.append_nil s).symm⟩

/-- A loop, then a call with the address of an entry. -/
theorem loop_extends (body : Nat → List FreeCall → Option (Bool × List FreeCall))
    (last : Entry → List FreeCall → Bool × List FreeCall) {k i : Nat} {r : Option Entry} {s s' : List FreeCall}
    {ok : Bool}
    (hbody : ∀ i s ok s', body i s = some (ok, s') → ∃ made, s' = s ++ made)
    (hlast : ∀ e s, ∃ made, (last e s).2 = s ++ made)
    (h : (forEach body k i s).bind (fun x => if !x.1 then some (false, x.2) else r.bind fun e => some (last e x.2)) =
      some (ok, s')) : ∃ made, s' = s ++ made := by
  rw [Option.bind_eq_some_iff] at h
  obtain ⟨⟨ok₁, s₁⟩, hloop, h⟩ := h
  obtain ⟨made, rfl⟩ := forEach_extends _ hbody _ _ _ _ _ hloop
  cases ok₁ with
  | false =>
    cases h
    exact ⟨made, rfl⟩
  | true =>
    simp only [Bool.not_true, Bool.false_eq_true, if_false, Option.bind_eq_some_iff, Option.some.injEq] at h
    obtain ⟨e, -, h⟩ := h
    obtain ⟨made', hmade⟩ := hlast e (s ++ made)
    rw [h, List.append_assoc] at hmade
    exact ⟨made ++ made', hmade⟩

theorem freePDE_extends {mapping : VirtualAddress} {pde : Nat} {s s' : List FreeCall} {ok : Bool}
    (h : freePDE m root answer mapping pde s = some (ok, s')) : ∃ made, s' = s ++ made :=
  loop_extends (freePTEntry m root answer mapping)
    (fun e s => (true, (pass answer (.free (getPDEInfo e).address.toNat) s).2))
    (fun _ _ _ _ => freePTEntry_extends) (fun _ _ => ⟨_, rfl⟩) h

theorem freePDEntry_extends {mapping : VirtualAddress} {i : Nat} {s s' : List FreeCall} {ok : Bool}
    (h : freePDEntry m root answer mapping i s = some (ok, s')) : ∃ made, s' = s ++ made := by
  unfold freePDEntry at h
  simp only [Option.bind_eq_bind, Option.bind_eq_some_iff] at h
  obtain ⟨e, -, h⟩ := h
  split at h
  · split at h
    · cases h
      exact ⟨_, rfl⟩
    · exact freePDE_extends h
  · cases h
    exact ⟨[], (List.append_nil s).symm⟩

theorem freePDPTE_extends {mapping : VirtualAddress} {pdpte : Nat} {s s' : List FreeCall} {ok : Bool}
    (h : freePDPTE m root answer mapping pdpte s = some (ok, s')) : ∃ made, s' = s ++ made :=
  loop_extends (freePDEntry m root answer mapping) (fun e => pass answer (.free (getPDPTEInfo e).address.toNat))
    (fun _ _ _ _ => freePDEntry_extends) (fun _ _ => ⟨_, rfl⟩) h

theorem freePDPTEntry_extends {map : VirtualAddress} {pdpte : Nat} {s s' : List FreeCall} {ok : Bool}
    (h : freePDPTEntry m root answer map pdpte s = some (ok, s')) : ∃ made, s' = s ++ made := by
  unfold freePDPTEntry at h
  simp only [Option.bind_eq_bind, Option.bind_eq_some_iff] at h
  obtain ⟨e, -, h⟩ := h
  split at h
  · split at h
    · cases h
      exact ⟨_, rfl⟩
    · exact freePDPTE_extends h
  · cases h
    exact ⟨[], (List.append_nil s).symm⟩

theorem freePML4E_extends {mapping : VirtualAddress} {pml4e : Nat} {s s' : List FreeCall} {ok : Bool}
    (h : freePML4E m root answer mapping pml4e s = some (ok, s')) : ∃ made, s' = s ++ made :=
  loop_extends (fun i => freePDPTEntry m root answer { mapping with pdptOffset := i }
      (getPDPTEAddress { mapping with pdptOffset := i } false))
    (fun e => pass answer (.free (getPML4EInfo e).address.toNat))
    (fun _ _ _ _ => freePDPTEntry_extends) (fun _ _ => ⟨_, rfl⟩) h

theorem freeSlot_extends {mapping : VirtualAddress} {s s' : List FreeCall} {ok : Bool}
    (h : freeSlot m root answer mapping s = some (ok, s')) : ∃ made, s' = s ++ made := by
  unfold freeSlot at h
  simp only [Option.bind_eq_bind, Option.bind_eq_some_iff] at h
  obtain ⟨e, -, h⟩ := h
  split at h
  · simp only [Option.bind_eq_some_iff] at h
    obtain ⟨⟨ok₁, s₁⟩, hfree, h⟩ := h
    cases h
    exact freePML4E_extends hfree
  · cases h
    exact ⟨[], (List.append_nil s).symm⟩

/-- The calls for slot 0 come first. -/
theorem freeSecondary_first (hw : Window m root tgt false) {calls : List FreeCall} {m' : PhysMem}
    (h : freeSecondaryRecursiveMapping m root answer = some (calls, m')) :
    ∃ ok first made, freeFirstPML4E m root answer [] = some (ok, first) ∧ calls = first ++ made := by
  have hpresent : (getPML4EInfo (m (tgt + 8 * secondaryPml4Index))).present = true :=
    (present_iff _).trans hw.self.1.1
  unfold freeSecondaryRecursiveMapping at h
  simp only [Option.bind_eq_bind, read_secondary hw, Option.bind_some, hpresent, Bool.not_true, Bool.false_eq_true,
    if_false, Option.bind_eq_some_iff] at h
  obtain ⟨⟨ok, first⟩, hfirst, ⟨ok₂, s₂⟩, hloop, ⟨ok₃, s₃⟩, htask, m₁, -, h⟩ := h
  obtain ⟨made₂, rfl⟩ := forEach_extends _ (fun _ _ _ _ => freeSlot_extends) _ _ _ _ _ hloop
  obtain ⟨made₃, rfl⟩ := freeSlot_extends htask
  cases h
  refine ⟨ok, first, made₂ ++ made₃ ++ [.free (getPML4EInfo (m (tgt + 8 * secondaryPml4Index))).address.toNat],
    hfirst, ?_⟩
  simp only [Script.pass, List.append_assoc]

theorem dmaEndMapping_eq : dmaEndMapping = ⟨0, 0, 8, 0, 0⟩ := by decide

/-- A loop whose first turn faults. -/
theorem forEach_fault {body : Nat → List FreeCall → Option (Bool × List FreeCall)} {k i : Nat} {s : List FreeCall}
    (h : body i s = none) : forEach body (k + 1) i s = none := by
  rw [forEach, h]
  rfl

theorem freePDEntry_fault (mapping : VirtualAddress) (i : Nat)
    (h : readVirtual m root (getPDEAddress { mapping with pdOffset := i } false) = none) (s : List FreeCall) :
    freePDEntry m root answer mapping i s = none := by
  unfold freePDEntry
  simp only [Option.bind_eq_bind, h, Option.bind_none]

/-- A turn of the second loop for slot 0. It looks at the first entry of the PDPT, frees what is
below entry `i`, and passes on the frame of the first entry. -/
theorem firstEntry_spec (hw : Window m root tgt false) {t₂ t₁ : Nat} (h₂ : PointsTo (m tgt) t₂)
    (h₁ : PointsTo (m t₂) t₁) {i : Nat} (hi : i < 512)
    (hsmall : (m (t₂ + 8 * i)).present = true → (m (t₂ + 8 * i)).large = false) (s : List FreeCall) :
    freePDPTEntry m root answer ⟨0, i, 8, 0, 0⟩ (getPDPTAddress ⟨0, i, 8, 0, 0⟩ false) s =
      if (m (t₂ + 8 * i)).present then
        some (run answer (pdLines m (m (t₂ + 8 * i)).frame ++ [(.free t₁, true)]) s)
      else none := by
  have h₂' : PointsTo (m (tgt + 8 * 0)) t₂ := h₂
  have hread : readVirtual m root (getPDPTAddress ⟨0, i, 8, 0, 0⟩ false) = some (m t₂) :=
    read_pdpte (b := 0) (c := 8) (d := 0) (o := 0) hw h₂' (by decide) (by decide)
  have hpresent : (getPDPTEInfo (m t₂)).present = true := (largeInfo_present _ _).trans h₁.1.1
  have hsize : (getPDPTEInfo (m t₂)).pageSize = false := (largeInfo_pageSize _ _).trans h₁.1.2
  unfold freePDPTEntry
  simp only [Option.bind_eq_bind, hread, Option.bind_some, hpresent, hsize, if_true, Bool.false_eq_true, if_false]
  cases hp : (m (t₂ + 8 * i)).present with
  | true =>
    rw [if_pos rfl, freePDPTE_spec hw h₂' (pointsTo_frame hp (hsmall hp)) hread h₁.1.2 (by decide) hi, h₁.2]
  | false =>
    have hfault : forEach (freePDEntry m root answer ⟨0, i, 8, 0, 0⟩) ptEntries 0 s = none :=
      forEach_fault (k := 511) (freePDEntry_fault ⟨0, i, 8, 0, 0⟩ 0
        (read_pde_fault hw (show 0 < 512 by decide) hi (show 0 < 512 by decide) (.inr ⟨t₂, h₂', hp⟩)) s)
    unfold freePDPTE
    simp only [Option.bind_eq_bind, hfault, Option.bind_none]
    rfl

/-- The calls below an entry of the PDPT are calls of slot 0. -/
theorem mem_slot0 {t₂ : Nat} (h₂ : PointsTo (m tgt) t₂) {j : Nat} (hj : j < 512) {x : FreeCall × Bool}
    (hx : x ∈ pdpteLines m (m (t₂ + 8 * j))) : x.1 ∈ slotCalls m tgt 0 := by
  unfold slotCalls pml4eLines
  rw [Nat.mul_zero, Nat.add_zero, if_pos h₂.1.1, h₂.2]
  apply List.mem_map_of_mem
  apply List.mem_append_left
  exact List.mem_flatMap.mpr ⟨j, List.mem_range'_1.mpr (by omega), hx⟩

theorem pdpteLines_table {e : Entry} (hp : e.present = true) (hl : e.large = false) :
    pdpteLines m e = pdLines m e.frame ++ [(.free e.frame, true)] := by
  unfold pdpteLines
  rw [hp, hl]
  rfl

/-- What a script of slot 0 does in a run that frees the private frames only: it comes to its
end. -/
theorem run_slot0 (h : PrivateSpace m root tgt shared answer) {calls made₀ : List FreeCall} (xs : Lines)
    {s : List FreeCall} (hcalls : calls = (run answer xs s).2 ++ made₀)
    (hshared : ∀ c ∈ calls, shared c.address = false) (hxs : ∀ x ∈ xs, x.1 ∈ slotCalls m tgt 0) :
    run answer xs s = (true, s ++ xs.map (·.1)) := by
  obtain ⟨made, h1, h2, h3, h4⟩ := run_extends answer xs s
  have hok : (run answer xs s).1 = true := by
    cases hr : (run answer xs s).1 with
    | true => rfl
    | false =>
      exfalso
      obtain ⟨c, hc, s', hfail⟩ := h4 hr
      have hmem : c ∈ calls := by
        rw [hcalls, h1]
        exact List.mem_append_left _ (List.mem_append_right _ hc)
      obtain ⟨x, hx, rfl⟩ := List.mem_map.mp (h2 c hc)
      have hprivate : x.1 ∈ privateCalls m tgt shared := by
        rw [mem_privateCalls]
        left
        unfold slot0Private
        rw [List.mem_filter, hshared _ hmem]
        exact ⟨hxs x hx, rfl⟩
      rw [h.answered _ hprivate s'] at hfail
      cases hfail
  rw [← h3 hok, ← h1, ← hok]

/-- A walk of slot 0 that does not fault has its first two tables. -/
theorem first_tables (h : PrivateSpace m root tgt shared answer) {s : List FreeCall} {r : Bool × List FreeCall}
    (hrun : forEach (freePDEntry m root answer ⟨0, 0, 8, 0, 0⟩) 504 8 s = some r) :
    ∃ t₂ t₁, PointsTo (m tgt) t₂ ∧ PointsTo (m t₂) t₁ := by
  have hread : readVirtual m root (getPDEAddress ⟨0, 0, 8, 0, 0⟩ false) ≠ none := by
    intro hfault
    have hnone : forEach (freePDEntry m root answer ⟨0, 0, 8, 0, 0⟩) 504 8 s = none :=
      forEach_fault (k := 503) (freePDEntry_fault ⟨0, 0, 8, 0, 0⟩ 8 hfault s)
    rw [hrun] at hnone
    cases hnone
  have hfault := read_pde_fault (a := 0) (b := 0) (c := 8) (d := 0) (o := 0) h.window (by decide) (by decide)
    (by decide)
  cases hp : (m tgt).present with
  | false => exact absurd (hfault (.inl hp)) hread
  | true =>
    have h₂ := pointsTo_frame hp (h.reserved 0 (.inl (by decide)) hp)
    cases hp' : (m (m tgt).frame).present with
    | false => exact absurd (hfault (.inr ⟨_, h₂, hp'⟩)) hread
    | true => exact ⟨_, _, h₂, pointsTo_frame hp' (h.noGiant _ h₂ 0 (by decide) hp')⟩

/-- A turn of the second loop, in a run that frees the private frames only. -/
theorem firstEntry_turn (h : PrivateSpace m root tgt shared answer) {t₂ t₁ : Nat} (h₂ : PointsTo (m tgt) t₂)
    (h₁ : PointsTo (m t₂) t₁) {i : Nat} (hi : i < 512) {s s' calls made₀ : List FreeCall} {ok : Bool}
    (hrun : freePDPTEntry m root answer ⟨0, i, 8, 0, 0⟩ (getPDPTAddress ⟨0, i, 8, 0, 0⟩ false) s = some (ok, s'))
    (hcalls : calls = s' ++ made₀) (hshared : ∀ c ∈ calls, shared c.address = false) :
    ok = true ∧ ∃ below, s' = s ++ below ++ [.free t₁] := by
  rw [firstEntry_spec h.window h₂ h₁ hi (h.noGiant _ h₂ i hi)] at hrun
  cases hp : (m (t₂ + 8 * i)).present with
  | false =>
    rw [hp] at hrun
    cases hrun
  | true =>
    have hl := h.noGiant _ h₂ i hi hp
    rw [hp, if_pos rfl, Option.some.injEq] at hrun
    have hlines : ∀ x ∈ pdLines m (m (t₂ + 8 * i)).frame ++ [(.free t₁, true)], x.1 ∈ slotCalls m tgt 0 := by
      intro x hx
      rcases List.mem_append.mp hx with hx | hx
      · refine mem_slot0 h₂ hi ?_
        rw [pdpteLines_table hp hl]
        exact List.mem_append_left _ hx
      · refine mem_slot0 (j := 0) h₂ (by decide) ?_
        rw [List.mem_singleton.mp hx, Nat.mul_zero, Nat.add_zero, pdpteLines_table h₁.1.1 h₁.1.2, h₁.2]
        exact List.mem_append_right _ (List.mem_singleton_self _)
    have hall := run_slot0 h _ (by rw [hrun]; exact hcalls) hshared hlines
    rw [hall] at hrun
    cases hrun
    refine ⟨rfl, (pdLines m (m (t₂ + 8 * i)).frame).map (·.1), ?_⟩
    rw [List.map_append, List.append_assoc]
    rfl

/-- With a primary window the PD of the first entry is passed on twice, or the walk faults. -/
theorem not_freesPrivate (h : PrivateSpace m root tgt shared answer)
    (hprimary : (m (tgt + 8 * primaryPml4Index)).present = true) : ¬ FreesPrivate m root tgt shared answer := by
  rintro ⟨calls, m', hrun, hcount, hshared⟩
  obtain ⟨ok, first, made, hfirst, hcalls⟩ := freeSecondary_first h.window hrun
  have hread : readVirtual m root (getPML4EAddress (parseVirtualAddress recursiveMemoryMapping.start) false) =
      some (m (tgt + 8 * primaryPml4Index)) := by
    rw [show parseVirtualAddress recursiveMemoryMapping.start = ⟨510, 0, 0, 0, 0⟩ by decide, primaryPml4Index_eq]
    exact read_pml4e h.window (by decide)
  have hpresent : (getPML4EInfo (m (tgt + 8 * primaryPml4Index))).present = true := (present_iff _).trans hprimary
  unfold freeFirstPML4E at hfirst
  rw [dmaEndMapping_eq] at hfirst
  simp only [Option.bind_eq_bind, hread, Option.bind_some, hpresent, Bool.not_true, Bool.false_eq_true, if_false,
    Option.bind_eq_some_iff] at hfirst
  obtain ⟨⟨ok₁, s₁⟩, hloop, hfirst⟩ := hfirst
  obtain ⟨t₂, t₁, h₂, h₁⟩ := first_tables h hloop
  have hturns := forEach_extends (fun i => freePDPTEntry m root answer ⟨0, i, 8, 0, 0⟩
    (getPDPTAddress ⟨0, i, 8, 0, 0⟩ false)) fun _ _ _ _ => freePDPTEntry_extends
  have hscript : forEach (freePDEntry m root answer ⟨0, 0, 8, 0, 0⟩) 504 8 [] =
      some (run answer ((List.range' 8 504).flatMap fun i => pdeLines m (m (t₁ + 8 * i))) []) :=
    forEach_run 504 8 [] fun j _ hj s =>
      freePDEntry_spec (a := 0) (b := 0) h.window h₂ h₁ (by decide) (by decide) (by omega) s
  -- the first loop comes to its end
  have hok₁ : ok₁ = true := by
    have hmade : ∃ made', first = s₁ ++ made' := by
      cases ok₁ with
      | false =>
        cases hfirst
        exact ⟨[], (List.append_nil _).symm⟩
      | true => exact hturns _ _ _ _ _ hfirst
    obtain ⟨made', rfl⟩ := hmade
    have hrun₁ := Option.some.inj (hloop.symm.trans hscript)
    have hall := run_slot0 h ((List.range' 8 504).flatMap fun i => pdeLines m (m (t₁ + 8 * i)))
      (by rw [← hrun₁, hcalls, List.append_assoc]) hshared fun x hx => by
        obtain ⟨i, hi, hx⟩ := List.mem_flatMap.mp hx
        rw [List.mem_range'_1] at hi
        refine mem_slot0 (j := 0) h₂ (by decide) ?_
        rw [Nat.mul_zero, Nat.add_zero, pdpteLines_table h₁.1.1 h₁.1.2, h₁.2]
        exact List.mem_append_left _ (List.mem_flatMap.mpr ⟨i, List.mem_range'_1.mpr (by omega), hx⟩)
    rw [hall] at hrun₁
    exact (Prod.mk.inj hrun₁).1
  subst hok₁
  have hloop₂ : forEach (fun i => freePDPTEntry m root answer ⟨0, i, 8, 0, 0⟩
      (getPDPTAddress ⟨0, i, 8, 0, 0⟩ false)) (509 + 1 + 1) 1 s₁ = some (ok, first) := hfirst
  -- and two turns of the second loop free the same frame
  obtain ⟨ok₂, s₂, hturn₂, ⟨made₂, hmade₂⟩, hrest₂⟩ := forEach_succ (fun _ _ _ _ => freePDPTEntry_extends) hloop₂
  obtain ⟨rfl, below₂, hs₂⟩ := firstEntry_turn h h₂ h₁ (by decide) hturn₂
    (by rw [hcalls, hmade₂, List.append_assoc]) hshared
  obtain ⟨ok₃, s₃, hturn₃, ⟨made₃, hmade₃⟩, -⟩ := forEach_succ (fun _ _ _ _ => freePDPTEntry_extends) (hrest₂ rfl)
  obtain ⟨-, below₃, hs₃⟩ := firstEntry_turn h h₂ h₁ (by decide) hturn₃
    (by rw [hcalls, hmade₃, List.append_assoc]) hshared
  have htwice : 2 ≤ calls.count (.free t₁) := by
    rw [hcalls, hmade₃, hs₃, hs₂]
    simp only [List.count_append, List.count_singleton_self]
    omega
  have hmem : FreeCall.free t₁ ∈ calls := List.count_pos_iff.mp (by omega)
  have hprivate : FreeCall.free t₁ ∈ privateCalls m tgt shared := by
    rw [mem_privateCalls]
    left
    unfold slot0Private
    rw [List.mem_filter, hshared _ hmem]
    refine ⟨mem_slot0 (j := 0) (x := (.free t₁, true)) h₂ (by decide) ?_, rfl⟩
    rw [Nat.mul_zero, Nat.add_zero, pdpteLines_table h₁.1.1 h₁.1.2, h₁.2]
    exact List.mem_append_right _ (List.mem_singleton_self _)
  have honce := hcount _ hprivate
  omega

end

/-- For every space behind the secondary window: exactly its private frames are passed to the
functions that free them, each once, iff the space has no entry for the primary window and no
private frame below slot 0. -/
theorem frees_private_iff (m : PhysMem) (root tgt : Nat) (shared : Nat → Bool) (answer : Answers)
    (h : PrivateSpace m root tgt shared answer) : FreesPrivate m root tgt shared answer ↔
      (m (tgt + 8 * primaryPml4Index)).present = false ∧ slot0Private m tgt shared = [] := by
  constructor
  · intro hfrees
    have hprimary : (m (tgt + 8 * primaryPml4Index)).present = false := by
      cases hp : (m (tgt + 8 * primaryPml4Index)).present with
      | false => rfl
      | true => exact absurd hfrees (not_freesPrivate h hp)
    obtain ⟨calls, m', hrun, hcount, -⟩ := hfrees
    obtain ⟨m'', hrun'⟩ := freeSecondary_absent h hprimary
    rw [hrun'] at hrun
    cases hrun
    refine ⟨hprimary, List.eq_nil_iff_forall_not_mem.mpr fun c hc => ?_⟩
    -- a private frame of slot 0 is not among the calls
    have honce := hcount c (mem_privateCalls.mpr (.inl hc))
    have hmem : c ∈ privateSlots m tgt ++ [.free tgt] := List.count_pos_iff.mp (by omega)
    have hnodup := h.once
    unfold privateCalls at hnodup
    exact (List.nodup_append.mp hnodup).2.2 c hc c hmem rfl
  · rintro ⟨hprimary, hslot0⟩
    obtain ⟨m', hrun⟩ := freeSecondary_absent h hprimary
    have hcalls : privateCalls m tgt shared = privateSlots m tgt ++ [.free tgt] := by
      unfold privateCalls
      rw [hslot0, List.nil_append]
    refine ⟨_, m', hrun, fun c hc => ?_, fun c hc => h.apart c (by rw [hcalls]; exact hc)⟩
    have hnodup := h.once
    rw [hcalls] at hc hnodup
    rw [hnodup.count, if_pos hc]

/-- A current root at `0x1000` and a space at `0x5000` that shares its tables of the DMA zone and
has one page of task memory, at `0xD000`. -/
def taskSpace (primary : Bool) : PhysMem := fun p =>
  if p = 0x1000 + 8 * 510 then 0x1003#64
  else if p = 0x1000 + 8 * 509 ∨ p = 0x5000 + 8 * 509 then 0x5003#64
  else if p = 0x5000 + 8 * 510 then if primary then 0x5003#64 else 0#64
  else if p = 0x1000 ∨ p = 0x5000 then 0x8003#64
  else if p = 0x8000 then 0x9003#64
  else if 0x9000 ≤ p ∧ p < 0x9040 then BitVec.ofNat 64 ((p - 0x9000) / 8 * 0x200000 + 0x83)
  else if p = 0x5000 + 8 * 511 then 0xA003#64
  else if p = 0xA000 then 0xB003#64
  else if p = 0xB000 then 0xC003#64
  else if p = 0xC000 + 8 * 3 then 0xD003#64
  else 0#64

/-- The frames of the current space. -/
def taskShared (p : Nat) : Bool := p != 0x5000 && !decide (0xA000 ≤ p ∧ p < 0xE000)

theorem privateCalls_taskSpace (primary : Bool) : privateCalls (taskSpace primary) 0x5000 taskShared =
    [.free 0xD000, .free 0xC000, .free 0xB000, .free 0xA000, .free 0x5000] := by
  cases primary <;> decide +kernel

theorem privateSpace_taskSpace (primary : Bool) :
    PrivateSpace (taskSpace primary) 0x1000 0x5000 taskShared fun _ _ => true where
  window := by cases primary <;> decide
  reserved i hi _ := by
    have hslots : ∀ i ∈ List.range 512, (taskSpace primary (0x5000 + 8 * i)).large = false := by
      cases primary <;> decide +kernel
    exact hslots i (List.mem_range.mpr (by omega))
  noGiant t ht j hj _ := by
    obtain rfl : t = 0x8000 := by
      rw [← ht.2]
      cases primary <;> decide
    have hslots : ∀ j ∈ List.range 512, (taskSpace primary (0x8000 + 8 * j)).large = false := by
      cases primary <;> decide +kernel
    exact hslots j (List.mem_range.mpr hj)
  apart := by
    rw [privateCalls_taskSpace]
    decide
  once := by
    rw [privateCalls_taskSpace]
    decide
  answered _ _ _ := rfl

/-- With its entry for the primary window, the walk of the space faults. -/
theorem taskSpace_not_freed : ¬ FreesPrivate (taskSpace true) 0x1000 0x5000 taskShared fun _ _ => true :=
  not_freesPrivate (privateSpace_taskSpace true) (by decide)

/-- Without it, the space is freed. -/
theorem frees_private_taskSpace : FreesPrivate (taskSpace false) 0x1000 0x5000 taskShared fun _ _ => true :=
  (frees_private_iff (taskSpace false) 0x1000 0x5000 taskShared (fun _ _ => true) (privateSpace_taskSpace false)).mpr
    ⟨by decide, by decide +kernel⟩

end BadLands.Mm.Paging
