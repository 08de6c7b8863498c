import BadLands.Mm.FreeMapping
import BadLands.Mm.TableGrants
import BadLands.Mm.UserContext

/-!
# Deriving an address space

`DeriveNewFreshCR3` allocates the frames of a new address space one after the other and has to give them back when a
step fails. The memory is kept with a ledger: the frames that `Allocate` has returned and the calls of the functions
that free them.
-/
namespace BadLands.Mm.AddressSpace

open BadLands.Core BadLands.Core.PageTable BadLands.Mm.Layout BadLands.Mm.Paging

/-- `taken`: the frames that `Allocate` has returned, the last one first. `freed`: the calls that give frames back. -/
structure World where
  mem : PhysMem
  taken : List Entry
  freed : List FreeCall

/-- What `Allocate` returns after the given frames. -/
abbrev Supply := List Entry → Option Entry

def World.take (w : World) (page : Entry) : World := { w with taken := page :: w.taken }

def World.free (w : World) (page : Entry) : World := { w with freed := w.freed ++ [.free page.toNat] }

/-! ## Tables -/

/-- One level; the frame of a table that is added is taken. -/
def ensureTable (supply : Supply) (w : World) (root maxPhyAddr : Nat) (userMode : Bool) (setInfo : EntryInfo → Entry)
    (entryPtr tablePtr : Nat) : Option (Bool × World) := do
  let e ← readVirtual w.mem root entryPtr
  let (ok, m) ← Paging.ensureTable w.mem root maxPhyAddr userMode setInfo entryPtr tablePtr (supply w.taken)
  let taken := if flagSet e entryPresent then w.taken else (supply w.taken).toList ++ w.taken
  return (ok, { w with mem := m, taken := taken })

/-- The three levels of `MapPage<false>` and `MapOnDemand<false>`.
mirrors kernel/src/mm/VirtualMemory.cpp:68-111,137-151,184-243 -/
def ensureTables (supply : Supply) (w : World) (root maxPhyAddr address : Nat) (privilege : AccessPrivilege) :
    Option (Bool × World) := do
  let mapping := parseVirtualAddress address
  let userMode := decide (privilege ≠ .high)
  let (ok, w) ← ensureTable supply w root maxPhyAddr userMode setPML4EInfo
    (getPML4EAddress mapping false) (getPDPTAddress mapping false)
  if !ok then return (false, w)
  let (ok, w) ← ensureTable supply w root maxPhyAddr userMode setPDPTEInfo
    (getPDPTEAddress mapping false) (getPDAddress mapping false)
  if !ok then return (false, w)
  ensureTable supply w root maxPhyAddr userMode setPDEInfo (getPDEAddress mapping false) (getPTAddress mapping false)

/-- `MapPage<false>` of a page that is not huge.
mirrors kernel/src/mm/VirtualMemory.cpp:58-172 -/
def mapPage (supply : Supply) (w : World) (root maxPhyAddr : Nat) (physicalAddress : Entry) (virtualAddress : Nat)
    (privilege : AccessPrivilege) : Option (Bool × World) :=
  if physicalAddress.toNat % frameSize ≠ 0 ∨ virtualAddress % frameSize ≠ 0 then some (false, w)
  else do
    let (ok, w) ← ensureTables supply w root maxPhyAddr virtualAddress privilege
    if !ok then return (false, w)
    let pte := getPTEAddress (parseVirtualAddress virtualAddress) false
    let m ← writeVirtual w.mem root pte (rawEntry maxPhyAddr physicalAddress privilege 0#64)
    let m ← writeVirtual m root pte
      (setPTEInfo (linkInfo (decide (privilege = .low)) (filterAddress maxPhyAddr physicalAddress)))
    return (true, { w with mem := m })

/-! mirrors kernel/include/mm/VirtualMemory.hpp:33-42 -/

def npReadWrite : Entry := 0x0000000000000002#64
def npUserMode : Entry := 0x0000000000000004#64
def npOnDemand : Entry := 0x0000000000000800#64

/-- The `for` of `MapOnDemand<false>` with `k` pages left.
mirrors kernel/src/mm/VirtualMemory.cpp:177-258 -/
def mapOnDemand (supply : Supply) (root maxPhyAddr : Nat) (privilege : AccessPrivilege) :
    Nat → Nat → World → Option (Bool × World)
  | 0, _, w => some (true, w)
  | k + 1, address, w => do
    let (ok, w) ← ensureTables supply w root maxPhyAddr address privilege
    if !ok then return (false, w)
    let m ← writeVirtual w.mem root (getPTEAddress (parseVirtualAddress address) false)
      (npOnDemand ||| (if privilege = .low then npUserMode else 0#64) ||| npReadWrite)
    mapOnDemand supply root maxPhyAddr privilege k (address + frameSize) { w with mem := m }

/-! ## The general mapping window -/

/-- mirrors kernel/src/mm/VirtualMemory.cpp:890-927 -/
def ensureGeneral (supply : Supply) (w : World) (root maxPhyAddr address : Nat) : Option (Bool × World) := do
  let mapping := parseVirtualAddress address
  let (ok, w) ← ensureTable supply w root maxPhyAddr false generalLink
    (getPDPTEAddress mapping true) (getPDAddress mapping true)
  if !ok then return (false, w)
  ensureTable supply w root maxPhyAddr false generalLink (getPDEAddress mapping true) (getPTAddress mapping true)

/-- The outer `for` with `k` pages left, the next one `i`.
mirrors kernel/src/mm/VirtualMemory.cpp:889-959 -/
def mapGeneralLoop (supply : Supply) (root maxPhyAddr : Nat) (pageAddress : Entry) (pages : Nat) (flags : Entry) :
    Nat → Nat → Nat → Nat → World → Option (Option Nat × World)
  | 0, _, _, _, w => some (none, w)
  | k + 1, i, found, start, w => do
    let address := generalPage i
    let (ok, w) ← ensureGeneral supply w root maxPhyAddr address
    if !ok then return (none, w)
    let pte ← readVirtual w.mem root (getPTEAddress (parseVirtualAddress address) true)
    if !(getPTEInfo pte).present then
      let start := if found = 0 then address else start
      if found + 1 = pages then
        let m ← writePages root maxPhyAddr flags pages start pageAddress w.mem
        return (some (start + pageAddress.toNat % Layout.pageSize), { w with mem := m })
      mapGeneralLoop supply root maxPhyAddr pageAddress pages flags k (i + 1) (found + 1) start w
    else mapGeneralLoop supply root maxPhyAddr pageAddress pages flags k (i + 1) 0 0 w

/-- mirrors kernel/src/mm/VirtualMemory.cpp:877-962 -/
def mapGeneralPages (supply : Supply) (w : World) (root maxPhyAddr : Nat) (pageAddress : Entry) (pages : Nat)
    (flags : Entry) : Option (Option Nat × World) :=
  if pages = 0 then some (none, w)
  else mapGeneralLoop supply root maxPhyAddr pageAddress pages flags gpPages 0 0 0 w

/-! ## The new space -/

/-- The two frames of `ShareKernelMemoryToSecondaryMapping`; the first one is given back if the second is refused.
mirrors kernel/src/mm/Paging.cpp:54-113 -/
def shareKernelMemory (supply : Supply) (w : World) (root maxPhyAddr : Nat) : Option (Bool × World) :=
  match supply w.taken with
  | none => (shareKernelMemoryToSecondaryMapping w.mem root maxPhyAddr none none).map fun r =>
      (r.1, { w with mem := r.2 })
  | some physFirstPml4e =>
    let w := w.take physFirstPml4e
    match supply w.taken with
    | none => (shareKernelMemoryToSecondaryMapping w.mem root maxPhyAddr (some physFirstPml4e) none).map fun r =>
        (r.1, { w with mem := r.2 }.free physFirstPml4e)
    | some physFirstPdpte =>
      (shareKernelMemoryToSecondaryMapping w.mem root maxPhyAddr (some physFirstPml4e) (some physFirstPdpte)).map
        fun r => (r.1, { w with mem := r.2 }.take physFirstPdpte)

/-- mirrors kernel/src/mm/Paging.cpp:577-600 -/
def createSecondaryRecursiveMapping (supply : Supply) (w : World) (root maxPhyAddr : Nat) (cr3 : Entry) :
    Option (Bool × World) := do
  let (vroot, w) ← mapGeneralPages supply w root maxPhyAddr cr3 1 (entryPresent ||| entryReadWrite)
  match vroot with
  | none => return (false, w)
  | some vroot =>
    let m ← zeroPage w.mem root vroot
    let m ← writeVirtual m root (vroot + entrySize * primaryPml4Index) (rootEntry maxPhyAddr cr3)
    let m ← writeVirtual m root (vroot + entrySize * secondaryPml4Index) (rootEntry maxPhyAddr cr3)
    let (ok, m) ← unmapGeneralPages m root vroot 1
    if !ok then return (false, { w with mem := m })
    let m ← updateSecondaryRecursiveMapping m root maxPhyAddr cr3
    shareKernelMemory supply { w with mem := m } root maxPhyAddr

/-- The calls of `FreeSecondaryRecursiveMapping`; `answer`: what `PhysicalMemory` answers to them. -/
def freeSecondary (answer : Answers) (w : World) (root : Nat) : Option World :=
  (freeSecondaryRecursiveMapping w.mem root fun s => answer (w.freed ++ s)).map fun r =>
    { w with mem := r.2, freed := w.freed ++ r.1 }

/-- The words of the user context and of its first block, at `vbase`.
mirrors kernel/src/mm/VirtualMemory.cpp:770-785 -/
def writeUserContext (m : PhysMem) (root vbase : Nat) : Option PhysMem := do
  let availableMemory := userMemory.limit - userStack.limit
  let availableBlockMemory := Word.sub (Layout.pageSize - VirtualMemory.blockBytes)
    (Word.sub userVMemManagement.start vbase)
  let m ← writeVirtual m root vbase (BitVec.ofNat 64 availableMemory)
  let m ← writeVirtual m root (vbase + 8) (BitVec.ofNat 64 availableBlockMemory)
  let m ← writeVirtual m root (vbase + 16) 1#64
  let userMemBlockPtr := vbase + UserContext.contextBytes
  let m ← writeVirtual m root userMemBlockPtr (BitVec.ofNat 64 userMemory.start)
  writeVirtual m root (userMemBlockPtr + 8) (BitVec.ofNat 64 (availableMemory / frameSize))

/-- The page of the user context, once it is in the new space.
mirrors kernel/src/mm/VirtualMemory.cpp:763-789 -/
def fillUserContext (supply : Supply) (answer : Answers) (w : World) (root maxPhyAddr : Nat) (cr3 basePage : Entry) :
    Option (Option Entry × World) := do
  let (vbase, w) ← mapGeneralPages supply w root maxPhyAddr basePage 1 (entryPresent ||| entryReadWrite)
  match vbase with
  | none => return (none, ← freeSecondary answer w root)
  | some vbase =>
    let m ← writeUserContext w.mem root vbase
    let (_, m) ← unmapGeneralPages m root vbase 1
    return (some cr3, { w with mem := m })

/-- The user context.
mirrors kernel/src/mm/VirtualMemory.cpp:747-789 -/
def addUserContext (supply : Supply) (answer : Answers) (w : World) (root maxPhyAddr : Nat) (cr3 : Entry) :
    Option (Option Entry × World) :=
  match supply w.taken with
  | none => (freeSecondary answer w root).map fun w => (none, w)
  | some basePage => do
    let (ok, w) ← mapPage supply (w.take basePage) root maxPhyAddr basePage userVMemManagement.start .high
    if !ok then return (none, ← freeSecondary answer (w.free basePage) root)
    fillUserContext supply answer w root maxPhyAddr cr3 basePage

/-- The two pages of the kernel stack that are there from the beginning.
mirrors kernel/src/mm/VirtualMemory.cpp:711-745 -/
def addStackPages (supply : Supply) (answer : Answers) (w : World) (root maxPhyAddr : Nat) (cr3 : Entry) :
    Option (Option Entry × World) :=
  match supply w.taken with
  | none => (freeSecondary answer w root).map fun w => (none, w)
  | some stackTop =>
    let w := w.take stackTop
    match supply w.taken with
    | none => (freeSecondary answer (w.free stackTop) root).map fun w => (none, w)
    | some stackReserve => do
      let (ok, w) ← mapPage supply (w.take stackReserve) root maxPhyAddr stackTop
        (kernelStackReserve.start - Layout.pageSize) .high
      if !ok then return (none, ← freeSecondary answer ((w.free stackReserve).free stackTop) root)
      let (ok, w) ← mapPage supply w root maxPhyAddr stackReserve kernelStackReserve.start .high
      if !ok then return (none, ← freeSecondary answer (w.free stackReserve) root)
      addUserContext supply answer w root maxPhyAddr cr3

/-- What follows once the secondary window leads to the new root.
mirrors kernel/src/mm/VirtualMemory.cpp:695-789 -/
def setUpTask (supply : Supply) (answer : Answers) (w : World) (root maxPhyAddr : Nat) (cr3 : Entry) :
    Option (Option Entry × World) := do
  let (ok, w) ← mapOnDemand supply root maxPhyAddr .high ((kernelStack.limit - Layout.pageSize) / Layout.pageSize)
    kernelStack.start w
  if !ok then return (none, ← freeSecondary answer w root)
  let m ← writeVirtual w.mem root (getPTEAddress (parseVirtualAddress kernelStackGuard.start) false) 0#64
  addStackPages supply answer { w with mem := m } root maxPhyAddr cr3

/-- mirrors kernel/src/mm/VirtualMemory.cpp:680-790 -/
def deriveNewFreshCR3 (supply : Supply) (answer : Answers) (w : World) (root maxPhyAddr : Nat) :
    Option (Option Entry × World) :=
  match supply w.taken with
  | none => some (none, w)
  | some cr3 => do
    let (ok, w) ← createSecondaryRecursiveMapping supply (w.take cr3) root maxPhyAddr cr3
    if !ok then return (none, w.free cr3)
    setUpTask supply answer w root maxPhyAddr cr3

end BadLands.Mm.AddressSpace
