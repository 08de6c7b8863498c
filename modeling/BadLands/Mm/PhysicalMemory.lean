import BadLands.Core.Bitmap
import BadLands.Core.Ring
import BadLands.Core.Word
import BadLands.Mm.Layout

/-!
# Physical memory

The three bitmaps of `PhysicalMemory`, its two region caches and its cached page, with the
allocation and free functions at each size. Bitmaps are arrays of 64-bit words; regions and
pages are numbers, pointers are addresses with `0` for `nullptr`.

`Setup` is in `BadLands.Mm.PhysicalMemorySetup`. The DMA zone has its own bitmap, which
nothing here touches.
-/
namespace BadLands.Mm.PhysicalMemory

open BadLands.Core BadLands.Mm.Layout

/-- mirrors kernel/src/mm/PhysicalMemory.cpp:54-64 -/
def maxAddressableMemory : Nat := 0x4000000000
def bitmapEntries4KB : Nat := maxAddressableMemory / pteCoverage
def bitmapEntries2MB : Nat := bitmapEntries4KB / ptEntries
def bitmapEntries32MB : Nat := bitmapEntries2MB / 16
def bitmapWords4KB : Nat := bitmapEntries4KB / 64
def bitmapWords2MB : Nat := bitmapEntries2MB / 64
def bitmapWords32MB : Nat := bitmapEntries32MB / 64

def ones : BitVec 64 := BitVec.allOnes 64

/-- mirrors kernel/src/mm/PhysicalMemory.cpp:68-71 -/
structure LargeMemoryRegionStatus where
  anyUsed : Bitmap
  anyFree : Bitmap

/-- mirrors kernel/src/mm/PhysicalMemory.cpp:104-142 -/
abbrev LargeMemoryCache := Ring Nat 64

/-- `Push` takes a 32-bit entry. -/
def LargeMemoryCache.pushEntry (c : LargeMemoryCache) (entry : Nat) : LargeMemoryCache :=
  c.push (entry % 2 ^ 32)

structure State where
  bitMap32MB : LargeMemoryRegionStatus
  bitMap2MB : LargeMemoryRegionStatus
  bitMap4KB : Bitmap
  cache32MB : LargeMemoryCache
  cache2MB : LargeMemoryCache
  cached4KB : Option Nat

namespace State

variable (s : State)

/-- `BitMap4KB[region / 64] |= (UNIT << region % 64)`, and so on for the other bitmaps. -/
def setPage (region : Nat) : State := { s with bitMap4KB := s.bitMap4KB.set region }

def clearPage (region : Nat) : State := { s with bitMap4KB := s.bitMap4KB.clear region }

def clearWords (first last : Nat) : State :=
  { s with bitMap4KB := s.bitMap4KB.fillWords first last 0#64 }

def putUsed2MB (region : Nat) (b : Bool) : State :=
  { s with bitMap2MB := ⟨s.bitMap2MB.anyUsed.put region b, s.bitMap2MB.anyFree⟩ }

def putFree2MB (region : Nat) (b : Bool) : State :=
  { s with bitMap2MB := ⟨s.bitMap2MB.anyUsed, s.bitMap2MB.anyFree.put region b⟩ }

def putUsed32MB (region : Nat) (b : Bool) : State :=
  { s with bitMap32MB := ⟨s.bitMap32MB.anyUsed.put region b, s.bitMap32MB.anyFree⟩ }

def putFree32MB (region : Nat) (b : Bool) : State :=
  { s with bitMap32MB := ⟨s.bitMap32MB.anyUsed, s.bitMap32MB.anyFree.put region b⟩ }

def push2MB (region : Nat) : State := { s with cache2MB := s.cache2MB.pushEntry region }

def push32MB (region : Nat) : State := { s with cache32MB := s.cache32MB.pushEntry region }

def setCached (region : Option Nat) : State := { s with cached4KB := region }

end State

/-- mirrors kernel/src/mm/PhysicalMemory.cpp:148-170 -/
def isAddressable (address : Nat) : Bool := address < maxAddressableMemory

def isDMAAddress (address : Nat) : Bool := dmaZone.start ≤ address && address < dmaZone.end

def get2MBParent32MB (region2MB : Nat) : Nat := region2MB / 16

def get4KBParent2MB (region4KB : Nat) : Nat := region4KB / ptEntries

/-- `if (address % size != 0) address = address - address % size;` -/
def alignDown (address size : Nat) : Nat :=
  if address % size ≠ 0 then address - address % size else address

/-- mirrors kernel/src/mm/PhysicalMemory.cpp:172-187 -/
def try4KBCache (s : State) : Option Nat × State :=
  match s.cached4KB with
  | none => (none, s)
  | some region =>
    if s.bitMap2MB.anyFree.test (get4KBParent2MB region) then (some region, s.setCached none)
    else (none, s.setCached none)

/-- mirrors kernel/src/mm/PhysicalMemory.cpp:189-212 -/
def mark32MBRegionUsed (s : State) (region : Nat) : State :=
  let s := s.putUsed32MB region true
  let allUsed := (List.range' (region * 16) 16).all fun child => s.bitMap2MB.anyUsed.test child
  if allUsed then s.putFree32MB region false else s

/-- mirrors kernel/src/mm/PhysicalMemory.cpp:214-241 -/
def mark2MBRegionUsed (s : State) (region : Nat) : State :=
  let s := mark32MBRegionUsed (s.putUsed2MB region true) (get2MBParent32MB region)
  let allUsed := (List.range' (region * ptEntries) ptEntries).all fun page => s.bitMap4KB.test page
  if allUsed then s.putFree2MB region false else s

/-- mirrors kernel/src/mm/PhysicalMemory.cpp:243-281 -/
def update32MBFlags (s : State) (region32MB : Nat) : Bool × State :=
  let children := List.range' (region32MB * 16) 16
  let anyUsed := children.any fun child => s.bitMap2MB.anyUsed.test child
  let anyFree := children.any fun child => s.bitMap2MB.anyFree.test child
  (!anyUsed, (s.putUsed32MB region32MB anyUsed).putFree32MB region32MB anyFree)

/-- The words of `BitMap4KB` that hold the pages of a 2MB region. -/
def startWord4KB (region : Nat) : Nat := region * ptEntries / 64

def endWord4KB (region : Nat) : Nat := (region + 1) * ptEntries / 64

/-- mirrors kernel/src/mm/PhysicalMemory.cpp:283-306 -/
def mark2MBRegionFreed (s : State) (region : Nat) : State :=
  let s := s.clearWords (startWord4KB region) (endWord4KB region)
  let s := (s.putUsed2MB region false).putFree2MB region true
  let r := update32MBFlags s (get2MBParent32MB region)
  let s := if r.1 then r.2.push32MB (get2MBParent32MB region) else r.2
  s.push2MB region

/-- The words of a 2MB region, for the loops over them. -/
def words4KB (region : Nat) : List Nat :=
  List.range' (startWord4KB region) (endWord4KB region - startWord4KB region)

/-- mirrors kernel/src/mm/PhysicalMemory.cpp:308-319 -/
def region2MBHasUsed (s : State) (region : Nat) : Bool :=
  (words4KB region).any fun w => s.bitMap4KB w != 0#64

/-- mirrors kernel/src/mm/PhysicalMemory.cpp:321-336 -/
def allocateCached32MBPage (s : State) : Nat × State :=
  match s.cache32MB.pop with
  | (none, cache) => (0, { s with cache32MB := cache })
  | (some region, cache) =>
    let s := { s with cache32MB := cache }
    if !s.bitMap32MB.anyUsed.test region
    then (region * 16 * pdeCoverage, mark32MBRegionUsed s region)
    else (0, s)

/-- mirrors kernel/src/mm/PhysicalMemory.cpp:338-362 -/
def allocateCached2MBPage (s : State) : Nat × State :=
  match s.cache2MB.pop with
  | (none, cache) => (0, { s with cache2MB := cache })
  | (some region, cache) =>
    let s := { s with cache2MB := cache }
    if !s.bitMap2MB.anyUsed.test region then
      let s := (s.putUsed2MB region true).putFree2MB region false
      (region * pdeCoverage, mark32MBRegionUsed s (get2MBParent32MB region))
    else (0, s)

/-! ## 4KB pages -/

/-- The search of a 2MB region for a clear bit, word by word; the next one in the same word is
cached.
mirrors kernel/src/mm/PhysicalMemory.cpp:769-787 -/
def takePage (s : State) : List Nat → Option Nat × State
  | [] => (none, s)
  | w :: ws =>
    if s.bitMap4KB w ≠ ones then
      let pageRegion := w * 64 + Bitmap.countrZero (~~~s.bitMap4KB w)
      let s := s.setPage pageRegion
      let s := if s.bitMap4KB w ≠ ones
        then s.setCached (some (w * 64 + Bitmap.countrZero (~~~s.bitMap4KB w))) else s
      (some pageRegion, s)
    else takePage s ws

/-- The loop over the 2MB children.
mirrors kernel/src/mm/PhysicalMemory.cpp:757-789 -/
def searchChildren (s : State) : List Nat → Option Nat × State
  | [] => (none, s)
  | region :: regions =>
    if s.bitMap2MB.anyFree.test region then
      match takePage (mark2MBRegionUsed s region) (words4KB region) with
      | (some page, s) => (some page, s)
      | (none, s) => searchChildren s regions
    else searchChildren s regions

/-- The word of 32MB regions to choose from: the partly used ones if there are any. -/
def targetWord (s : State) (i : Nat) : BitVec 64 :=
  let partlyUsed := s.bitMap32MB.anyUsed i &&& s.bitMap32MB.anyFree i
  if partlyUsed ≠ 0#64 then partlyUsed else s.bitMap32MB.anyFree i

/-- The loop over the words of `BitMap32MB`.
mirrors kernel/src/mm/PhysicalMemory.cpp:739-791 -/
def searchRegions (s : State) : List Nat → Option Nat × State
  | [] => (none, s)
  | i :: is =>
    if s.bitMap32MB.anyFree i ≠ 0#64 then
      let region32MB := i * 64 + Bitmap.countrZero (targetWord s i)
      match searchChildren s (List.range' (region32MB * 16) 16) with
      | (some page, s) => (some page, s)
      | (none, s) => searchRegions s is
    else searchRegions s is

/-- mirrors kernel/src/mm/PhysicalMemory.cpp:722-794 -/
def allocate (s : State) : Nat × State :=
  match try4KBCache s with
  | (some region, s) =>
    (region * frameSize, mark2MBRegionUsed (s.setPage region) (get4KBParent2MB region))
  | (none, s) =>
    match searchRegions s (List.range bitmapWords32MB) with
    | (some page, s) => (page * frameSize, s)
    | (none, s) => (0, s)

/-- mirrors kernel/src/mm/PhysicalMemory.cpp:903-946 -/
def free (s : State) (address : Nat) : Bool × State :=
  if address = 0 then (false, s)
  else if !isAddressable address || isDMAAddress address then (false, s)
  else
    let region := alignDown address frameSize / frameSize
    if !s.bitMap4KB.test region then (true, s)
    else
      let parent2MB := get4KBParent2MB region
      let s := (s.clearPage region).putFree2MB parent2MB true
      let s := if !region2MBHasUsed s parent2MB
        then (s.putUsed2MB parent2MB false).push2MB parent2MB else s
      let r := update32MBFlags s (get2MBParent32MB parent2MB)
      let s := if r.1 then r.2.push32MB (get2MBParent32MB parent2MB) else r.2
      (true, s.setCached (some region))

/-! ## 2MB regions -/

/-- The loop that queues the unused children of a 32MB region.
mirrors kernel/src/mm/PhysicalMemory.cpp:815-828 -/
def pushUnused (s : State) : List Nat → State
  | [] => s
  | region :: regions =>
    if !s.bitMap2MB.anyUsed.test region then
      let s := s.push2MB region
      if s.cache2MB.isFull then s else pushUnused s regions
    else pushUnused s regions

/-- The `while` over the partly used regions of word `i`; a word has at most 64 of them.
mirrors kernel/src/mm/PhysicalMemory.cpp:808-829 -/
def refill2MB (i : Nat) : Nat → BitVec 64 → State → State
  | 0, _, s => s
  | fuel + 1, partialMask, s =>
    if partialMask ≠ 0#64 ∧ !s.cache2MB.isFull then
      let bit := Bitmap.countrZero partialMask
      refill2MB i fuel (partialMask &&& ~~~Bitmap.mask bit)
        (pushUnused s (List.range' ((i * 64 + bit) * 16) 16))
    else s

/-- The first scan of `Allocate2MB`; `none` when it does not return.
mirrors kernel/src/mm/PhysicalMemory.cpp:803-835 -/
def allocatePartial2MB (s : State) : List Nat → Option Nat × State
  | [] => (none, s)
  | i :: is =>
    let partialMask := s.bitMap32MB.anyUsed i &&& s.bitMap32MB.anyFree i
    if partialMask ≠ 0#64 then
      let s := refill2MB i 64 partialMask s
      if !s.cache2MB.isEmpty then
        let r := allocateCached2MBPage s
        (some r.1, r.2)
      else allocatePartial2MB s is
    else allocatePartial2MB s is

/-- The second scan of `Allocate2MB`.
mirrors kernel/src/mm/PhysicalMemory.cpp:837-852 -/
def allocateFree2MB (s : State) : List Nat → Nat × State
  | [] => (0, s)
  | i :: is =>
    let freeRegions := ~~~s.bitMap32MB.anyUsed i
    if freeRegions ≠ 0#64 then
      let region32MB := i * 64 + Bitmap.countrZero freeRegions
      allocateCached2MBPage (s.push2MB (region32MB * 16))
    else allocateFree2MB s is

/-- mirrors kernel/src/mm/PhysicalMemory.cpp:796-853 -/
def allocate2MB (s : State) : Nat × State :=
  let r := allocateCached2MBPage s
  if r.1 ≠ 0 then r
  else match allocatePartial2MB r.2 (List.range bitmapWords32MB) with
    | (some address, s) => (address, s)
    | (none, s) => allocateFree2MB s (List.range bitmapWords32MB)

/-- mirrors kernel/src/mm/PhysicalMemory.cpp:948-975 -/
def free2MB (s : State) (address : Nat) : Bool × State :=
  if address = 0 then (false, s)
  else if !isAddressable address || isDMAAddress address then (false, s)
  else
    let region := alignDown address pdeCoverage / pdeCoverage
    if !s.bitMap2MB.anyUsed.test region then (false, s)
    else (true, mark2MBRegionFreed s region)

/-! ## 32MB regions -/

/-- The `while` over the unused regions of word `i`.
mirrors kernel/src/mm/PhysicalMemory.cpp:866-877 -/
def refill32MB (i : Nat) : Nat → BitVec 64 → State → State
  | 0, _, s => s
  | fuel + 1, freeRegions, s =>
    if freeRegions ≠ 0#64 ∧ !s.cache32MB.isFull then
      let bit := Bitmap.countrZero freeRegions
      let region := i * 64 + bit
      if region ≥ bitmapEntries32MB then s
      else refill32MB i fuel (freeRegions &&& ~~~Bitmap.mask bit)
        (s.push32MB region)
    else s

/-- mirrors kernel/src/mm/PhysicalMemory.cpp:862-878 -/
def refillAll32MB (s : State) : List Nat → State
  | [] => s
  | i :: is =>
    if s.cache32MB.isFull then s
    else refillAll32MB (refill32MB i 64 (~~~s.bitMap32MB.anyUsed i) s) is

/-- mirrors kernel/src/mm/PhysicalMemory.cpp:855-881 -/
def allocate32MB (s : State) : Nat × State :=
  let r := allocateCached32MBPage s
  if r.1 ≠ 0 then r
  else allocateCached32MBPage (refillAll32MB r.2 (List.range bitmapWords32MB))

/-- One turn of the loop of `Free32MB`. -/
def freeChild2MB (s : State) (child : Nat) : State :=
  let s := s.clearWords (startWord4KB child) (endWord4KB child)
  ((s.putUsed2MB child false).putFree2MB child true).push2MB child

/-- mirrors kernel/src/mm/PhysicalMemory.cpp:977-1029 -/
def free32MB (s : State) (address : Nat) : Bool × State :=
  if !isAddressable address || isDMAAddress address then (false, s)
  else
    let region := alignDown address (16 * pdeCoverage) / (16 * pdeCoverage)
    if !s.bitMap32MB.anyUsed.test region then (false, s)
    else
      let s := (List.range' (region * 16) 16).foldl freeChild2MB s
      (true, ((s.putUsed32MB region false).putFree32MB region true).push32MB region)

end BadLands.Mm.PhysicalMemory
