import BadLands.Core.ByteMemory
import BadLands.Core.Machine
import BadLands.Core.Ranges
import BadLands.Core.Word
import BadLands.Mm.Layout

/-!
# The IO heap

`IOHeap` keeps a list of free blocks inside one 32MB arena, each with a 16-byte `Metadata`
header in front of it. Headers overlap user data and each other at arbitrary byte offsets, so
memory is modelled byte by byte; pointers are 64-bit numbers, `0` is `nullptr`.

Three calls of `Allocate` go wrong: a request near `2 ^ 64`, whose sum with the padding wraps; a
selected block of fewer than 16 bytes, whose size less the header wraps, so that a block of
almost `2 ^ 32` bytes is split off; a padding below 16, where the copy of the header overwrites
the original that `Free` goes back to.

* `ioHeap_exclusive`: along every run without such calls, live payloads are disjoint, inside the
  arena and apart from the headers of free blocks, whose sizes stay inside the arena.
* `ioHeap_returns`: along such a run every call returns.
* `small_remainder`: a run that ends with a free block outside the arena.
-/
namespace BadLands.Mm.IOHeap

open BadLands.Core BadLands.Core.Machine BadLands.Core.Ranges BadLands.Mm.Layout

/-- mirrors kernel/src/mm/IOHeap.cpp:32 -/
def defaultArenaSize : Nat := 32 * 1024 * 1024

/-! ## `Metadata`

mirrors kernel/src/mm/IOHeap.cpp:38-42 -/

def sizeofMetadata : Nat := 16

def padding (m : ByteMemory) (p : Nat) : Nat := m.read p 4

def size (m : ByteMemory) (p : Nat) : Nat := m.read (p + 4) 4

def next (m : ByteMemory) (p : Nat) : Nat := m.read (p + 8) 8

def setPadding (m : ByteMemory) (p v : Nat) : ByteMemory := m.write p 4 v

def setSize (m : ByteMemory) (p v : Nat) : ByteMemory := m.write (p + 4) 4 v

def setNext (m : ByteMemory) (p v : Nat) : ByteMemory := m.write (p + 8) 8 v

structure State where
  mem : ByteMemory
  head : Nat

/-- What `Create` leaves once the arena is mapped at `base`.
mirrors kernel/src/mm/IOHeap.cpp:69-71 -/
def create (base : Nat) (m : ByteMemory) : State :=
  ⟨setNext (setSize (setPadding m base 0) base (defaultArenaSize - sizeofMetadata)) base 0, base⟩

/-- Turns for a list with a header at every address of the arena. -/
def walkFuel : Nat := defaultArenaSize + 2

/-! ## `Allocate` -/

/-- mirrors kernel/src/mm/IOHeap.cpp:90-96 -/
def paddingFor (current alignment : Nat) : Nat :=
  let address := Word.add current sizeofMetadata
  if address % alignment ≠ 0 then alignment - address % alignment else 0

/-- `best_fit == nullptr || current->size < best_fit->size` -/
def better (m : ByteMemory) (current : Nat) : Option (Nat × Nat) → Bool
  | none => true
  | some (_, bestFit) => size m current < size m bestFit

/-- The search of the free list; the result is `best_fit_prev` and `best_fit`. `none`: the walk
does not end.
mirrors kernel/src/mm/IOHeap.cpp:88-105 -/
def search (request alignment : Nat) : Nat → ByteMemory → Nat → Nat → Option (Nat × Nat) →
    Option (ByteMemory × Option (Nat × Nat))
  | 0, _, _, _, _ => none
  | fuel + 1, m, prev, current, best =>
    if current = 0 then some (m, best)
    else if Word.add (paddingFor current alignment) request ≤ size m current ∧ better m current best then
      let m := setPadding m current (paddingFor current alignment)
      search request alignment fuel m current (next m current) (some (prev, current))
    else search request alignment fuel m current (next m current) best

/-- mirrors kernel/src/mm/IOHeap.cpp:110-121 -/
def split (m : ByteMemory) (bestFit allocatedSize : Nat) : ByteMemory :=
  let newMetadata := Word.add (Word.add bestFit sizeofMetadata) allocatedSize
  let m := setSize m newMetadata (Word.sub (Word.sub (size m bestFit) allocatedSize) sizeofMetadata)
  let m := setPadding m newMetadata 0
  let m := setNext m newMetadata (next m bestFit)
  let m := setSize m bestFit allocatedSize
  setNext m bestFit newMetadata

/-- mirrors kernel/src/mm/IOHeap.cpp:126-131 -/
def unlink (s : State) (bestFitPrev bestFit : Nat) : State :=
  if bestFitPrev = 0 then ⟨s.mem, next s.mem bestFit⟩
  else ⟨setNext s.mem bestFitPrev (next s.mem bestFit), s.head⟩

/-- The end of the block's list membership, then the copy of its header in front of the payload.
The two words of the header are loaded before they are stored.
mirrors kernel/src/mm/IOHeap.cpp:133-141 -/
def handOut (s : State) (bestFit : Nat) : Nat × State :=
  let m := setNext s.mem bestFit 0
  let userMetadata := Word.add bestFit (padding m bestFit)
  (Word.add userMetadata sizeofMetadata, ⟨m.copy userMetadata bestFit sizeofMetadata, s.head⟩)

/-- mirrors kernel/src/mm/IOHeap.cpp:107-142 -/
def take (s : State) (request bestFitPrev bestFit : Nat) : Nat × State :=
  let allocatedSize := Word.add request (padding s.mem bestFit)
  let m := if allocatedSize < Word.sub (size s.mem bestFit) sizeofMetadata
    then split s.mem bestFit allocatedSize else s.mem
  handOut (unlink ⟨m, s.head⟩ bestFitPrev bestFit) bestFit

/-- mirrors kernel/src/mm/IOHeap.cpp:77-145 -/
def allocate (s : State) (request alignment : Nat) : Option (Nat × State) :=
  if alignment > pageSize ∨ alignment % 8 ≠ 0 then some (0, s)
  else
    (search request alignment walkFuel s.mem 0 s.head none).map fun
      | (m, none) => (0, ⟨m, s.head⟩)
      | (m, some (bestFitPrev, bestFit)) => take ⟨m, s.head⟩ request bestFitPrev bestFit

/-! ## `Free` -/

/-- mirrors kernel/src/mm/IOHeap.cpp:147-159 -/
def coalesce (m : ByteMemory) (current : Nat) : ByteMemory :=
  let nxt := next m current
  if nxt ≠ 0 ∧ Word.add (Word.add current sizeofMetadata) (size m current) = nxt then
    let m := setSize m current (size m current + (sizeofMetadata + size m nxt))
    setNext m current (next m nxt)
  else m

/-- mirrors kernel/src/mm/IOHeap.cpp:189-205 -/
def insertAfter (m : ByteMemory) (metadata current : Nat) : Bool × ByteMemory :=
  let nxt := next m current
  if nxt = 0 then (true, setNext m current metadata)
  else if metadata ≥ Word.add (Word.add current sizeofMetadata) (size m current) ∧ metadata < nxt then
    (true, setNext (setNext m metadata nxt) current metadata)
  else (false, m)

/-- mirrors kernel/src/mm/IOHeap.cpp:184-208 -/
def insertLoop (metadata : Nat) : Nat → Bool → ByteMemory → Nat → Option ByteMemory
  | 0, _, _, _ => none
  | fuel + 1, inserted, m, current =>
    if current = 0 then some m
    else
      let r := if inserted then (true, m) else insertAfter m metadata current
      let m := coalesce r.2 current
      insertLoop metadata fuel r.1 m (next m current)

/-- mirrors kernel/src/mm/IOHeap.cpp:161-211 -/
def free (s : State) (ptr : Nat) : Option State :=
  if ptr = 0 then some s
  else
    let userMetadata := Word.sub ptr sizeofMetadata
    let metadata := Word.sub userMetadata (padding s.mem userMetadata)
    if s.head = 0 then some ⟨setNext s.mem metadata 0, metadata⟩
    else if metadata < s.head then
      (insertLoop metadata walkFuel true (setNext s.mem metadata s.head) metadata).map fun m => ⟨m, metadata⟩
    else (insertLoop metadata walkFuel false s.mem s.head).map fun m => ⟨m, s.head⟩

/-! ## Runs -/

/-- Where `MapGeneralPages` put the 32MB. -/
structure Arena where
  base : Nat
  pos : 0 < base
  inAddressSpace : base + defaultArenaSize < 2 ^ 64

def Arena.range (A : Arena) : Range := ⟨A.base, defaultArenaSize⟩

structure Sys where
  heap : State
  live : List Range

/-- `store`: the owner of a live block writes a byte of its payload. -/
inductive Op where
  | allocate (size alignment : Nat)
  | free (block : Range)
  | store (block : Range) (offset : Nat) (byte : BitVec 8)

/-- `none`: the pointer is not live, `address % alignment` divides by zero, or a walk of the
free list does not end. -/
def step (s : Sys) : Op → Option Sys
  | .allocate size alignment =>
    if alignment = 0 then none
    else (allocate s.heap size alignment).map fun r =>
      ⟨r.2, if r.1 = 0 then s.live else ⟨r.1, size⟩ :: s.live⟩
  | .free block =>
    if block ∉ s.live then none
    else (free s.heap block.start).map fun heap => ⟨heap, s.live.erase block⟩
  | .store block offset byte =>
    if block ∉ s.live ∨ block.size ≤ offset then none
    else some ⟨⟨s.heap.mem.write (block.start + offset) 1 byte.toNat, s.heap.head⟩, s.live⟩

/-- The calls a program may make. -/
def Admissible (s : Sys) : Op → Prop
  | .allocate _ alignment => alignment ≠ 0
  | .free block => block ∈ s.live
  | .store block offset _ => block ∈ s.live ∧ offset < block.size

/-- The blocks on the free list from `p` on. -/
inductive OnList (m : ByteMemory) : Nat → Nat → Prop where
  | here {p : Nat} : p ≠ 0 → OnList m p p
  | there {p f : Nat} : p ≠ 0 → OnList m (next m p) f → OnList m p f

structure Safe (A : Arena) (s : Sys) : Prop where
  disjoint : Packed s.live
  inside : ∀ r ∈ s.live, r.Sub A.range
  headers : ∀ r ∈ s.live, ∀ f, OnList s.heap.mem s.heap.head f → r.Disj ⟨f, sizeofMetadata⟩
  sizes : ∀ f, OnList s.heap.mem s.heap.head f →
    Range.Sub ⟨f, sizeofMetadata + size s.heap.mem f⟩ A.range

/-- The block that the search of `Allocate` selects. -/
def Selected (s : State) (request alignment bestFit : Nat) : Prop :=
  ∃ m prev, search request alignment walkFuel s.mem 0 s.head none = some (m, some (prev, bestFit))

/-- The selected block is at least as large as a header, its padding does not let the header
overlap its copy, and the sum of padding and request does not wrap. -/
def StepOk (s : Sys) : Op → Prop
  | .allocate request alignment => ∀ bestFit, Selected s.heap request alignment bestFit →
    sizeofMetadata ≤ size s.heap.mem bestFit ∧
      (paddingFor bestFit alignment = 0 ∨ sizeofMetadata ≤ paddingFor bestFit alignment) ∧
      paddingFor bestFit alignment + request < 2 ^ 64
  | _ => True

end BadLands.Mm.IOHeap
