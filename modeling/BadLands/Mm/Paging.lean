import BadLands.Core.PageTable
import BadLands.Mm.Layout

/-!
# Paging: the recursive windows

The kernel reaches its page tables through a root entry that points to the root itself
(entry 510, the primary window), and those of another address space through entry 509 of
both roots (the secondary window). The pointers are assembled by or-ing shifted indices into
a loop constant; the processor then reads them as four other indices.

`getEntryAddress_translates`: the walk of each such pointer ends at the very entry that the
walk of the address itself reads at that level.
-/
namespace BadLands.Mm.Paging

open BadLands.Core BadLands.Core.PageTable BadLands.Mm.Layout

/-- mirrors common/include/shared/memory/defs.hpp:103-109 -/
structure VirtualAddress where
  pml4Offset : Nat
  pdptOffset : Nat
  pdOffset : Nat
  ptOffset : Nat
  offset : Nat
  deriving DecidableEq, Repr

/-- mirrors common/include/shared/memory/defs.hpp:111-125 -/
def parseVirtualAddress (address : Nat) : VirtualAddress where
  pml4Offset := (address >>> 39) &&& 0x1FF
  pdptOffset := (address >>> 30) &&& 0x1FF
  pdOffset := (address >>> 21) &&& 0x1FF
  ptOffset := (address >>> 12) &&& 0x1FF
  offset := address &&& 0xFFF

/-- `ENTRY_SIZE`. -/
def entrySize : Nat := 8

/-- The zone of the window: the constants below exist once for each of the two. -/
def window (usePrimary : Bool) : MemoryZone :=
  if usePrimary then recursiveMemoryMapping else secondaryRecursiveMapping

/-- mirrors common/include/shared/memory/layout.hpp:101 and kernel/src/mm/Paging.cpp:32 -/
def pagingLoopMask (usePrimary : Bool) : Nat := ((window usePrimary).start >>> 39) &&& 0x1FF

/-- mirrors common/include/shared/memory/layout.hpp:102-105 and kernel/src/mm/Paging.cpp:33-36 -/
def pagingLoop1 (usePrimary : Bool) : Nat := (window usePrimary).start

def pagingLoop2 (usePrimary : Bool) : Nat :=
  pagingLoop1 usePrimary ||| (pagingLoopMask usePrimary <<< 30)

def pagingLoop3 (usePrimary : Bool) : Nat :=
  pagingLoop2 usePrimary ||| (pagingLoopMask usePrimary <<< 21)

def pagingLoop4 (usePrimary : Bool) : Nat :=
  pagingLoop3 usePrimary ||| (pagingLoopMask usePrimary <<< 12)

/-- mirrors kernel/src/mm/Paging.cpp:260-275 -/
def getPTAddress (a : VirtualAddress) (usePrimary : Bool) : Nat :=
  pagingLoop1 usePrimary ||| (a.pml4Offset <<< 30) ||| (a.pdptOffset <<< 21) ||| (a.pdOffset <<< 12)

/-- mirrors kernel/src/mm/Paging.cpp:277-291 -/
def getPDAddress (a : VirtualAddress) (usePrimary : Bool) : Nat :=
  pagingLoop2 usePrimary ||| (a.pml4Offset <<< 21) ||| (a.pdptOffset <<< 12)

/-- mirrors kernel/src/mm/Paging.cpp:293-302 -/
def getPDPTAddress (a : VirtualAddress) (usePrimary : Bool) : Nat :=
  pagingLoop3 usePrimary ||| (a.pml4Offset <<< 12)

/-- mirrors kernel/src/mm/Paging.cpp:304-311 -/
def getPML4Address (usePrimary : Bool) : Nat := pagingLoop4 usePrimary

/-- mirrors kernel/src/mm/Paging.cpp:313-315 -/
def getPTEAddress (a : VirtualAddress) (usePrimary : Bool) : Nat :=
  getPTAddress a usePrimary + entrySize * a.ptOffset

/-- mirrors kernel/src/mm/Paging.cpp:317-319 -/
def getPDEAddress (a : VirtualAddress) (usePrimary : Bool) : Nat :=
  getPDAddress a usePrimary + entrySize * a.pdOffset

/-- mirrors kernel/src/mm/Paging.cpp:321-323 -/
def getPDPTEAddress (a : VirtualAddress) (usePrimary : Bool) : Nat :=
  getPDPTAddress a usePrimary + entrySize * a.pdptOffset

/-- mirrors kernel/src/mm/Paging.cpp:325-327 -/
def getPML4EAddress (a : VirtualAddress) (usePrimary : Bool) : Nat :=
  getPML4Address usePrimary + entrySize * a.pml4Offset

/-- `PRIMARY_PML4_INDEX`, `SECONDARY_PML4_INDEX`.
mirrors kernel/src/mm/Paging.cpp:39-47 -/
def windowIndex (usePrimary : Bool) : Nat :=
  (parseVirtualAddress (window usePrimary).start).pml4Offset

/-! ## The pointers as numbers -/

theorem and_low (x n : Nat) : x &&& (2 ^ n - 1) = x % 2 ^ n := Nat.and_two_pow_sub_one_eq_mod x n

/-- The fields of an address are the indices of its walk. -/
theorem parse_eq (va : Nat) :
    parseVirtualAddress va = ⟨index 3 va, index 2 va, index 1 va, index 0 va, va % 4096⟩ := by
  have h9 := fun x => and_low x 9
  have h12 := fun x => and_low x 12
  simp only [Nat.reducePow, Nat.reduceSub] at h9 h12
  simp only [parseVirtualAddress, index, h9, h12, Nat.shiftRight_eq_div_pow, Nat.reduceMul,
    Nat.reduceAdd]

/-- Or-ing a field of `w` bits below a number that has room for it. -/
theorem or_field (c x i w : Nat) (hx : x < 2 ^ w) :
    (c <<< (i + w)) ||| (x <<< i) = (c * 2 ^ w + x) <<< i := by
  have hlt : x <<< i < 2 ^ (i + w) := by
    rw [Nat.shiftLeft_eq, Nat.pow_add, Nat.mul_comm]
    exact Nat.mul_lt_mul_of_pos_left hx (Nat.two_pow_pos i)
  rw [← Nat.shiftLeft_add_eq_or_of_lt hlt, Nat.shiftLeft_eq, Nat.shiftLeft_eq, Nat.shiftLeft_eq,
    Nat.add_mul, Nat.mul_assoc, ← Nat.pow_add, Nat.add_comm w i]

theorem or_index (c x i : Nat) (hx : x < 512) :
    (c <<< (i + 9)) ||| (x <<< i) = (c * 512 + x) <<< i := or_field c x i 9 hx

theorem shift_page (c : Nat) : c <<< 12 = c * 4096 := Nat.shiftLeft_eq c 12

/-- The number above the four indices: the sign extension and the root index. -/
def loopBase (usePrimary : Bool) : Nat := if usePrimary then 0x1FFFFFE else 0x1FFFFFD

section
variable {va : Nat} {u : Bool}

theorem loop1_eq : pagingLoop1 u = loopBase u <<< 39 := by cases u <;> decide

theorem loop2_eq : pagingLoop2 u = (loopBase u * 512 + windowIndex u) <<< 30 := by cases u <;> decide

theorem loop3_eq :
    pagingLoop3 u = ((loopBase u * 512 + windowIndex u) * 512 + windowIndex u) <<< 21 := by
  cases u <;> decide

theorem loop4_eq : pagingLoop4 u =
    (((loopBase u * 512 + windowIndex u) * 512 + windowIndex u) * 512 + windowIndex u) <<< 12 := by
  cases u <;> decide

theorem ptAddress_eq : getPTAddress (parseVirtualAddress va) u =
    (((loopBase u * 512 + index 3 va) * 512 + index 2 va) * 512 + index 1 va) * 4096 := by
  rw [parse_eq, getPTAddress, loop1_eq]
  simp only
  rw [or_index _ _ 30 (index_lt _ _), or_index _ _ 21 (index_lt _ _),
    or_index _ _ 12 (index_lt _ _), shift_page]

theorem pdAddress_eq : getPDAddress (parseVirtualAddress va) u =
    (((loopBase u * 512 + windowIndex u) * 512 + index 3 va) * 512 + index 2 va) * 4096 := by
  rw [parse_eq, getPDAddress, loop2_eq]
  simp only
  rw [or_index _ _ 21 (index_lt _ _), or_index _ _ 12 (index_lt _ _), shift_page]

theorem pdptAddress_eq : getPDPTAddress (parseVirtualAddress va) u =
    (((loopBase u * 512 + windowIndex u) * 512 + windowIndex u) * 512 + index 3 va) * 4096 := by
  rw [parse_eq, getPDPTAddress, loop3_eq]
  simp only
  rw [or_index _ _ 12 (index_lt _ _), shift_page]

theorem pml4Address_eq : getPML4Address u =
    (((loopBase u * 512 + windowIndex u) * 512 + windowIndex u) * 512 + windowIndex u) * 4096 := by
  rw [getPML4Address, loop4_eq, shift_page]

theorem windowIndex_lt (u : Bool) : windowIndex u < 512 := by cases u <;> decide

/-- The walk of a pointer with three indices below a window's root index. -/
theorem pointer_indices {a b c k : Nat} (ha : a < 512) (hb : b < 512) (hc : c < 512) (hk : k < 4096) :
    index 3 ((((loopBase u * 512 + a) * 512 + b) * 512 + c) * 4096 + k) = windowIndex u ∧
    index 2 ((((loopBase u * 512 + a) * 512 + b) * 512 + c) * 4096 + k) = a ∧
    index 1 ((((loopBase u * 512 + a) * 512 + b) * 512 + c) * 4096 + k) = b ∧
    index 0 ((((loopBase u * 512 + a) * 512 + b) * 512 + c) * 4096 + k) = c ∧
    ((((loopBase u * 512 + a) * 512 + b) * 512 + c) * 4096 + k) % 4096 = k ∧
    Canonical ((((loopBase u * 512 + a) * 512 + b) * 512 + c) * 4096 + k) := by
  have hw : windowIndex u = loopBase u % 512 := by cases u <;> decide
  have hlow : 0x1FFFFFD ≤ loopBase u := by cases u <;> decide
  have hhigh : loopBase u ≤ 0x1FFFFFE := by cases u <;> decide
  rw [hw]
  generalize loopBase u = l at *
  unfold index Canonical
  simp only [Nat.reduceMul, Nat.reduceAdd, Nat.reducePow]
  omega

end

/-! ## The walk of a pointer -/

def PointsTo (e : Entry) (t : Nat) : Prop := e.Links ∧ e.frame = t

instance (e : Entry) (t : Nat) : Decidable (PointsTo e t) := inferInstanceAs (Decidable (_ ∧ _))

/-- What the window maps, for the processor's root `cur`: the primary one the tables of `cur`
itself, the secondary one those of `tgt`. -/
def Window (m : PhysMem) (cur tgt : Nat) (usePrimary : Bool) : Prop :=
  if usePrimary then cur = tgt ∧ PointsTo (m (cur + 8 * windowIndex true)) cur
  else PointsTo (m (cur + 8 * windowIndex false)) tgt ∧ PointsTo (m (tgt + 8 * windowIndex false)) tgt

instance (m : PhysMem) (cur tgt : Nat) (u : Bool) : Decidable (Window m cur tgt u) := by
  unfold Window
  exact inferInstance

section
variable {m : PhysMem} {cur tgt va : Nat} {u : Bool}

theorem Window.entry (h : Window m cur tgt u) : PointsTo (m (cur + 8 * windowIndex u)) tgt := by
  cases u with
  | true => exact h.1 ▸ h.2
  | false => exact h.1

theorem Window.self (h : Window m cur tgt u) : PointsTo (m (tgt + 8 * windowIndex u)) tgt := by
  cases u with
  | true => exact h.1 ▸ h.2
  | false => exact h.2

/-- A step of a walk through an entry that is known. -/
theorem walk_pointsTo {n t v q : Nat} {i : Nat} (hi : index (n + 1) q = i)
    (he : PointsTo (m (t + 8 * i)) v) : walk m q (n + 1) t = walk m q n v := by
  have hs : slot t (n + 1) q = t + 8 * i := by
    unfold slot
    rw [hi]
  rw [walk_links (by rw [hs]; exact he.1), hs, he.2]

/-- The last step of a walk. -/
theorem walk_leaf {t v q i k : Nat} (hi : index 0 q = i) (hk : q % 4096 = k)
    (he : PointsTo (m (t + 8 * i)) v) : walk m q 0 t = some (v + k) := by
  have hs : slot t 0 q = t + 8 * i := by
    unfold slot
    rw [hi]
  rw [walk, hs, hk]
  simp only [he.1.1, if_true, he.2]

/-- The entry that led to a table. -/
theorem reach_pointsTo {n t : Nat} (h : Reach m va 3 tgt n t) (hn : n < 3) :
    ∃ s, Reach m va 3 tgt (n + 1) s ∧ PointsTo (m (s + 8 * index (n + 1) va)) t := by
  obtain ⟨s, hs, hl, ht⟩ := h.linked hn
  exact ⟨s, hs, hl, ht.symm⟩

theorem reach_top {t : Nat} (h : Reach m va 3 tgt 3 t) : t = tgt := h.unique (.here _ _)

/-! A pointer into a table of level `n` goes around the window's own entry `n + 1` times, then
down the tables of the address. -/

theorem pml4Pointer (hw : Window m cur tgt u) {k : Nat} (hk : k < 4096) :
    translation m cur (getPML4Address u + k) = some (tgt + k) := by
  have hwi := windowIndex_lt u
  rw [pml4Address_eq]
  obtain ⟨h3, h2, h1, h0, hoff, hcan⟩ := pointer_indices (u := u) hwi hwi hwi hk
  rw [translation, if_pos hcan, walk_pointsTo h3 hw.entry, walk_pointsTo h2 hw.self,
    walk_pointsTo h1 hw.self, walk_leaf h0 hoff hw.self]

theorem pdptPointer (hw : Window m cur tgt u) {t k : Nat} (ht : Reach m va 3 tgt 2 t) (hk : k < 4096) :
    translation m cur (getPDPTAddress (parseVirtualAddress va) u + k) = some (t + k) := by
  have hwi := windowIndex_lt u
  obtain ⟨s3, hs3, he3⟩ := reach_pointsTo ht (by decide)
  obtain rfl := reach_top hs3
  rw [pdptAddress_eq]
  obtain ⟨h3, h2, h1, h0, hoff, hcan⟩ := pointer_indices (u := u) hwi hwi (index_lt 3 va) hk
  rw [translation, if_pos hcan, walk_pointsTo h3 hw.entry, walk_pointsTo h2 hw.self,
    walk_pointsTo h1 hw.self, walk_leaf h0 hoff he3]

theorem pdPointer (hw : Window m cur tgt u) {t k : Nat} (ht : Reach m va 3 tgt 1 t) (hk : k < 4096) :
    translation m cur (getPDAddress (parseVirtualAddress va) u + k) = some (t + k) := by
  have hwi := windowIndex_lt u
  obtain ⟨s2, hs2, he2⟩ := reach_pointsTo ht (by decide)
  obtain ⟨s3, hs3, he3⟩ := reach_pointsTo hs2 (by decide)
  obtain rfl := reach_top hs3
  rw [pdAddress_eq]
  obtain ⟨h3, h2, h1, h0, hoff, hcan⟩ := pointer_indices (u := u) hwi (index_lt 3 va) (index_lt 2 va) hk
  rw [translation, if_pos hcan, walk_pointsTo h3 hw.entry, walk_pointsTo h2 hw.self,
    walk_pointsTo h1 he3, walk_leaf h0 hoff he2]

theorem ptPointer (hw : Window m cur tgt u) {t k : Nat} (ht : Reach m va 3 tgt 0 t) (hk : k < 4096) :
    translation m cur (getPTAddress (parseVirtualAddress va) u + k) = some (t + k) := by
  obtain ⟨s1, hs1, he1⟩ := reach_pointsTo ht (by decide)
  obtain ⟨s2, hs2, he2⟩ := reach_pointsTo hs1 (by decide)
  obtain ⟨s3, hs3, he3⟩ := reach_pointsTo hs2 (by decide)
  obtain rfl := reach_top hs3
  rw [ptAddress_eq]
  obtain ⟨h3, h2, h1, h0, hoff, hcan⟩ :=
    pointer_indices (u := u) (index_lt 3 va) (index_lt 2 va) (index_lt 1 va) hk
  rw [translation, if_pos hcan, walk_pointsTo h3 hw.entry, walk_pointsTo h2 he3,
    walk_pointsTo h1 he2, walk_leaf h0 hoff he1]

theorem pml4ePointer (hw : Window m cur tgt u) :
    translation m cur (getPML4EAddress (parseVirtualAddress va) u) = some (slot tgt 3 va) := by
  have hi := index_lt 3 va
  unfold getPML4EAddress
  rw [parse_eq]
  exact pml4Pointer hw (k := 8 * index 3 va) (by omega)

theorem pdptePointer (hw : Window m cur tgt u) {t : Nat} (ht : Reach m va 3 tgt 2 t) :
    translation m cur (getPDPTEAddress (parseVirtualAddress va) u) = some (slot t 2 va) := by
  have hi := index_lt 2 va
  have h := pdptPointer hw ht (k := 8 * index 2 va) (by omega)
  unfold getPDPTEAddress
  rw [show (parseVirtualAddress va).pdptOffset = index 2 va by rw [parse_eq]]
  exact h

theorem pdePointer (hw : Window m cur tgt u) {t : Nat} (ht : Reach m va 3 tgt 1 t) :
    translation m cur (getPDEAddress (parseVirtualAddress va) u) = some (slot t 1 va) := by
  have hi := index_lt 1 va
  have h := pdPointer hw ht (k := 8 * index 1 va) (by omega)
  unfold getPDEAddress
  rw [show (parseVirtualAddress va).pdOffset = index 1 va by rw [parse_eq]]
  exact h

theorem ptePointer (hw : Window m cur tgt u) {t : Nat} (ht : Reach m va 3 tgt 0 t) :
    translation m cur (getPTEAddress (parseVirtualAddress va) u) = some (slot t 0 va) := by
  have hi := index_lt 0 va
  have h := ptPointer hw ht (k := 8 * index 0 va) (by omega)
  unfold getPTEAddress
  rw [show (parseVirtualAddress va).ptOffset = index 0 va by rw [parse_eq]]
  exact h

end

/-- In every memory in which the window is set up, and for every address, the walk of the
pointer to its entry of a level ends at the entry that the walk of the address reads at that
level, in the table it reaches there through entries that are present and not large. -/
theorem getEntryAddress_translates (m : PhysMem) (cur tgt : Nat) (usePrimary : Bool)
    (hw : Window m cur tgt usePrimary) (va : Nat) :
    translation m cur (getPML4EAddress (parseVirtualAddress va) usePrimary) = some (slot tgt 3 va) ∧
    (∀ t, Reach m va 3 tgt 2 t →
      translation m cur (getPDPTEAddress (parseVirtualAddress va) usePrimary) = some (slot t 2 va)) ∧
    (∀ t, Reach m va 3 tgt 1 t →
      translation m cur (getPDEAddress (parseVirtualAddress va) usePrimary) = some (slot t 1 va)) ∧
    ∀ t, Reach m va 3 tgt 0 t →
      translation m cur (getPTEAddress (parseVirtualAddress va) usePrimary) = some (slot t 0 va) :=
  ⟨pml4ePointer hw, fun _ ht => pdptePointer hw ht, fun _ ht => pdePointer hw ht,
    fun _ ht => ptePointer hw ht⟩

/-- Two roots, at `0x1000` and `0x5000`, and one page of each, at address 0 and at the page
behind it. -/
def twoRoots : PhysMem := fun p =>
  if p = 0x1000 + 8 * 510 then 0x1003#64
  else if p = 0x1000 + 8 * 509 ∨ p = 0x5000 + 8 * 509 then 0x5003#64
  else if p = 0x1000 ∨ p = 0x5000 then 0x2003#64
  else if p = 0x2000 then 0x3003#64
  else if p = 0x3000 then 0x4003#64
  else 0#64

theorem reach_twoRoots : Reach twoRoots 0x1000 3 0x5000 0 0x4000 :=
  .down (by decide) (.down (by decide) (.down (by decide) (.here _ _)))

theorem getEntryAddress_translates_two_roots :
    Window twoRoots 0x1000 0x1000 true ∧ Window twoRoots 0x1000 0x5000 false ∧
    translation twoRoots 0x1000 (getPML4EAddress (parseVirtualAddress 0x1000) true) = some 0x1000 ∧
    translation twoRoots 0x1000 (getPTEAddress (parseVirtualAddress 0x1000) false) = some 0x4008 :=
  ⟨by decide, by decide,
    (getEntryAddress_translates twoRoots 0x1000 0x1000 true (by decide) 0x1000).1,
    (getEntryAddress_translates twoRoots 0x1000 0x5000 false (by decide) 0x1000).2.2.2 _ reach_twoRoots⟩

end BadLands.Mm.Paging
