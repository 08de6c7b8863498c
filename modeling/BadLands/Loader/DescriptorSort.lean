import BadLands.Core.SwapPass
import BadLands.Loader.RuntimeRemap

/-!
# Sorting the memory map

In its loop over the descriptors the loader also means to sort them: each is swapped back while the one before it starts higher.
The pointer to the descriptor before it is compared with null only after it has been read, and after a swap it points to the
descriptor that is moved itself.

Descriptors are any numbers here, and what the two remap functions do is a parameter; `markDMA` and `swapBack` of the model of
the same loop that keeps memory in mind are this loop's (`markDMA_eq`, `swapBack_eq`).

* `loop_eq`: the loop is one pass of adjacent swaps.
* `sort_right_iff`: what of its purpose it meets, and for which maps.
-/
namespace BadLands.Loader.DescriptorSort

open BadLands.Core BadLands.Mm.Layout BadLands.Loader.RuntimeRemap
open BadLands.Mm.PhysicalMemory (EfiMemoryType EfiMemoryDescriptor)

/-! ## The code -/

/-- mirrors common/include/shared/efi/efi.h:346-353 -/
structure MemoryDescriptor where
  type : EfiMemoryType
  physicalStart : Nat
  virtualStart : Nat
  numberOfPages : Nat
  attributes : Nat
  deriving DecidableEq

/-- mirrors bootloader/src/entry.cpp:134-156 -/
def markPages (bitmap : ByteMap) (type : EfiMemoryType) (physicalStart numberOfPages : Nat) : ByteMap :=
  if physicalStart < dmaZone.limit then
    let startPage := physicalStart / pageSize
    let unboundedEndPage := Word.add startPage numberOfPages
    let endPage := if unboundedEndPage ≤ dmaEndPage then unboundedEndPage else dmaEndPage
    if type ≠ .conventionalMemory then bitmap.setRange startPage endPage
    else bitmap.clearRange startPage endPage
  else bitmap

section
variable {D : Type} (physicalStart : D → Nat)

def swapAt (mmap : List D) (i j : Nat) : List D :=
  match mmap[i]?, mmap[j]? with
  | some a, some b => (mmap.set i b).set j a
  | _, _ => mmap

/-- The `while`, with the index of the previous descriptor, and whether the null pointer was read. What is read there is
compared, but no swap follows.
mirrors bootloader/src/entry.cpp:165-175 -/
def swapLoop (mmap : List D) (ptr : Nat) (previous : Option Nat) (j : Nat) : List D × Bool :=
  match previous with
  | none => (mmap, true)
  | some q =>
    match mmap[ptr]?, mmap[q]? with
    | some a, some b =>
      if physicalStart a < physicalStart b then
        swapLoop (swapAt mmap ptr q) q (if j ≥ 1 then some (j - 1) else none) (j - 1)
      else (mmap, false)
    | _, _ => (mmap, false)
termination_by match previous with
  | none => 0
  | some _ => j + 1
decreasing_by
  split
  · exact Nat.succ_pos j
  · next h =>
    split at h
    · omega
    · cases h

end

/-- The variables of the loop. `passed` and `nullRead` are what the loop did so far: the descriptors that it gave to the remap
functions, and whether it read the null pointer. -/
structure Loop (P : Type) where
  mmap : List MemoryDescriptor
  bitmap : ByteMap
  paging : P
  previous : Option Nat
  passed : List (Area × MemoryDescriptor)
  nullRead : Bool

section
variable {P : Type} (remapRuntimeServices remapACPINVS : MemoryDescriptor → P → Nat × P)

/-- The descriptor after its remap function has written `VirtualStart`.
mirrors bootloader/src/entry.cpp:158-163 -/
def remapOne (d : MemoryDescriptor) (paging : P) : MemoryDescriptor × P :=
  match areaOf d.type with
  | some .runtimeServices =>
    let (virtualStart, paging) := remapRuntimeServices d paging
    ({ d with virtualStart }, paging)
  | some .acpiNvs =>
    let (virtualStart, paging) := remapACPINVS d paging
    ({ d with virtualStart }, paging)
  | none => (d, paging)

/-- What is passed to which of the two. -/
def passedOf (d : MemoryDescriptor) : Option (Area × MemoryDescriptor) := (areaOf d.type).map fun area => (area, d)

/-- mirrors bootloader/src/entry.cpp:129-178 -/
def turn (s : Loop P) (i : Nat) : Loop P :=
  match s.mmap[i]? with
  | none => s
  | some d =>
    let (d', paging) := remapOne remapRuntimeServices remapACPINVS d s.paging
    let (mmap, nullRead) := swapLoop MemoryDescriptor.physicalStart (s.mmap.set i d') i s.previous i
    { mmap, bitmap := markPages s.bitmap d.type d.physicalStart d.numberOfPages, paging, previous := some i,
      passed := s.passed ++ (passedOf d).toList, nullRead := s.nullRead || nullRead }

def start (mmap : List MemoryDescriptor) (bitmap : ByteMap) (paging : P) : Loop P := ⟨mmap, bitmap, paging, none, [], false⟩

/-- mirrors bootloader/src/entry.cpp:125-178 -/
def sortLoop (mmap : List MemoryDescriptor) (bitmap : ByteMap) (paging : P) : Loop P :=
  (List.range mmap.length).foldl (turn remapRuntimeServices remapACPINVS) (start mmap bitmap paging)

/-- The descriptors in their order, each remapped once. -/
def remapEach : List MemoryDescriptor → P → List MemoryDescriptor × P
  | [], paging => ([], paging)
  | d :: ds, paging =>
    let (d', paging) := remapOne remapRuntimeServices remapACPINVS d paging
    let (ds', paging) := remapEach ds paging
    (d' :: ds', paging)

end

/-! ## The swaps -/

section
variable {D : Type} {physicalStart : D → Nat}

theorem swapLoop_none (mmap : List D) (ptr j : Nat) : swapLoop physicalStart mmap ptr none j = (mmap, true) := by
  rw [swapLoop]

/-- After one swap the descriptor is compared with itself. -/
theorem swapLoop_some (before : List D) (x y : D) (rest : List D) :
    swapLoop physicalStart (before ++ x :: y :: rest) (before.length + 1) (some before.length) (before.length + 1) =
      (if physicalStart y < physicalStart x then before ++ y :: x :: rest else before ++ x :: y :: rest, false) := by
  have hx : (before ++ x :: y :: rest)[before.length]? = some x := by simp
  have hy : (before ++ x :: y :: rest)[before.length + 1]? = some y := by simp
  rw [swapLoop, hy, hx]
  dsimp only
  split
  · have hswap : swapAt (before ++ x :: y :: rest) (before.length + 1) before.length = before ++ y :: x :: rest := by
      rw [swapAt, hy, hx]
      simp
    have hy' : (before ++ y :: x :: rest)[before.length]? = some y := by simp
    rw [hswap, if_pos (by omega), Nat.add_sub_cancel, swapLoop, hy']
    dsimp only
    rw [if_neg (lt_irrefl _)]
  · rfl

theorem swap_eq (mmap : List Descriptor) (i j : Nat) : swap mmap i j = swapAt mmap i j := by
  unfold swap swapAt
  cases mmap[i]? with
  | none => rfl
  | some a => cases mmap[j]? <;> rfl

/-- The swaps of the other model, whose null pointer ends the loop without being read. -/
theorem swapBack_eq (fuel : Nat) (mmap : List Descriptor) (ptr : Nat) (previous : Option Nat) (j : Nat) (hfuel : j < fuel) :
    swapBack fuel mmap ptr previous j = (swapLoop (fun d => d.physicalStart) mmap ptr previous j).1 := by
  induction fuel generalizing mmap ptr previous j with
  | zero => omega
  | succ fuel ih =>
    cases previous with
    | none =>
      rw [swapLoop_none]
      rfl
    | some q =>
      rw [swapBack, swapLoop]
      cases mmap[ptr]? with
      | none => rfl
      | some a =>
        cases mmap[q]? with
        | none => rfl
        | some b =>
          dsimp only
          by_cases hlt : a.physicalStart < b.physicalStart
          · rw [if_pos hlt, if_pos hlt, swap_eq]
            cases j with
            | zero =>
              have hnull : ∀ m : List Descriptor, swapBack fuel m q none 0 = m := fun m => by cases fuel <;> rfl
              rw [if_neg (Nat.not_succ_le_zero 0), swapLoop_none, hnull]
            | succ j => exact ih _ _ _ j (by omega)
          · rw [if_neg hlt, if_neg hlt]

theorem markDMA_eq (bitmap : ByteMap) (d : EfiMemoryDescriptor) :
    markDMA bitmap d = markPages bitmap d.type d.physicalStart d.numberOfPages := rfl

end

section
variable {P : Type} (remapRuntimeServices remapACPINVS : MemoryDescriptor → P → Nat × P)

/-- A descriptor without the address that the firmware or the loader wrote to it. -/
def placeless (d : MemoryDescriptor) : MemoryDescriptor := { d with virtualStart := 0 }

theorem remapOne_placeless (d : MemoryDescriptor) (paging : P) :
    placeless (remapOne remapRuntimeServices remapACPINVS d paging).1 = placeless d := by
  unfold remapOne
  split
  · rfl
  · rfl
  · rfl

theorem remapEach_placeless (ds : List MemoryDescriptor) (paging : P) :
    (remapEach remapRuntimeServices remapACPINVS ds paging).1.map placeless = ds.map placeless := by
  induction ds generalizing paging with
  | nil => rfl
  | cons d ds ih =>
    rw [remapEach, List.map_cons, List.map_cons, ih, remapOne_placeless]

/-- A turn with a descriptor before it. -/
theorem turn_eq {s : Loop P} {before rest : List MemoryDescriptor} {x y : MemoryDescriptor}
    (hmmap : s.mmap = before ++ x :: y :: rest) (hprevious : s.previous = some before.length) :
    let r := remapOne remapRuntimeServices remapACPINVS y s.paging
    turn remapRuntimeServices remapACPINVS s (before.length + 1) =
      { mmap := if r.1.physicalStart < x.physicalStart then before ++ r.1 :: x :: rest else before ++ x :: r.1 :: rest
        bitmap := markPages s.bitmap y.type y.physicalStart y.numberOfPages
        paging := r.2
        previous := some (before.length + 1)
        passed := s.passed ++ (passedOf y).toList
        nullRead := s.nullRead } := by
  intro r
  have hy : s.mmap[before.length + 1]? = some y := by simp [hmmap]
  have hset : s.mmap.set (before.length + 1) r.1 = before ++ x :: r.1 :: rest := by simp [hmmap]
  unfold turn
  rw [hy]
  dsimp only
  rw [hset, hprevious, swapLoop_some, Bool.or_false]

/-- The turns that are left. -/
theorem turns_eq (rest before : List MemoryDescriptor) (x : MemoryDescriptor) (s : Loop P) (hmmap : s.mmap = before ++ x :: rest)
    (hprevious : s.previous = some before.length) :
    let r := (List.range' (before.length + 1) rest.length).foldl (turn remapRuntimeServices remapACPINVS) s
    r.mmap = before ++ SwapPass.carry MemoryDescriptor.physicalStart x (remapEach remapRuntimeServices remapACPINVS rest s.paging).1 ∧
      r.passed = s.passed ++ rest.filterMap passedOf ∧ r.nullRead = s.nullRead := by
  induction rest generalizing before x s with
  | nil => simp [hmmap, SwapPass.carry, remapEach]
  | cons y rest ih =>
    rw [List.length_cons, List.range'_succ, List.foldl_cons, turn_eq remapRuntimeServices remapACPINVS hmmap hprevious]
    generalize hr : remapOne remapRuntimeServices remapACPINVS y s.paging = r
    have hpassed : s.passed ++ (passedOf y).toList ++ rest.filterMap passedOf = s.passed ++ (y :: rest).filterMap passedOf := by
      rw [List.append_assoc]
      cases hp : passedOf y with
      | none => rw [List.filterMap_cons_none hp]; rfl
      | some p => rw [List.filterMap_cons_some hp]; rfl
    rw [remapEach, hr]
    unfold SwapPass.carry
    dsimp only
    split
    · have hrest := ih (before ++ [r.1]) x
        { mmap := before ++ r.1 :: x :: rest, bitmap := markPages s.bitmap y.type y.physicalStart y.numberOfPages, paging := r.2,
          previous := some (before.length + 1), passed := s.passed ++ (passedOf y).toList, nullRead := s.nullRead }
        (by simp) (by simp)
      simpa [hpassed] using hrest
    · have hrest := ih (before ++ [x]) r.1
        { mmap := before ++ x :: r.1 :: rest, bitmap := markPages s.bitmap y.type y.physicalStart y.numberOfPages, paging := r.2,
          previous := some (before.length + 1), passed := s.passed ++ (passedOf y).toList, nullRead := s.nullRead }
        (by simp) (by simp)
      simpa [hpassed] using hrest

/-- The first turn reads the null pointer, the others are a pass of swaps. -/
theorem loop_eq (mmap : List MemoryDescriptor) (bitmap : ByteMap) (paging : P) :
    let r := sortLoop remapRuntimeServices remapACPINVS mmap bitmap paging
    r.mmap = SwapPass.pass MemoryDescriptor.physicalStart (remapEach remapRuntimeServices remapACPINVS mmap paging).1 ∧
      r.passed = mmap.filterMap passedOf ∧ (r.nullRead = true ↔ mmap ≠ []) := by
  cases mmap with
  | nil => simp [sortLoop, start, remapEach, SwapPass.pass]
  | cons x rest =>
    have hpassed : [] ++ (passedOf x).toList ++ rest.filterMap passedOf = (x :: rest).filterMap passedOf := by
      cases hp : passedOf x with
      | none => rw [List.filterMap_cons_none hp]; rfl
      | some p => rw [List.filterMap_cons_some hp]; rfl
    have hturn : turn remapRuntimeServices remapACPINVS (start (x :: rest) bitmap paging) 0 =
        { mmap := (remapOne remapRuntimeServices remapACPINVS x paging).1 :: rest
          bitmap := markPages bitmap x.type x.physicalStart x.numberOfPages
          paging := (remapOne remapRuntimeServices remapACPINVS x paging).2
          previous := some 0
          passed := [] ++ (passedOf x).toList
          nullRead := true } := by
      unfold turn start
      dsimp only
      rw [List.getElem?_cons_zero]
      dsimp only
      rw [swapLoop_none]
      rfl
    have hturns := turns_eq remapRuntimeServices remapACPINVS rest [] (remapOne remapRuntimeServices remapACPINVS x paging).1
      (turn remapRuntimeServices remapACPINVS (start (x :: rest) bitmap paging) 0) (by rw [hturn]; rfl) (by rw [hturn]; rfl)
    unfold sortLoop
    rw [List.length_cons, List.range_eq_range', List.range'_succ, List.foldl_cons]
    obtain ⟨hmmap, hp, hnull⟩ := hturns
    rw [hturn] at hmmap hp hnull ⊢
    refine ⟨hmmap, hp.trans hpassed, ?_⟩
    simp only [List.length_nil, Nat.zero_add] at hnull ⊢
    rw [hnull]
    simp

/-! ## What the loop is for -/

/-- The same descriptors in the order of their addresses, each one the firmware needs at run time passed once, and no null
pointer read. -/
structure Right (mmap : List MemoryDescriptor) (r : Loop P) : Prop where
  permutation : (r.mmap.map placeless).Perm (mmap.map placeless)
  sorted : r.mmap.Pairwise fun a b => a.physicalStart ≤ b.physicalStart
  passed : r.passed = mmap.filterMap passedOf
  noNull : r.nullRead = false

/-- The null pointer is read for every map; a map is sorted exactly when no descriptor starts below two of those before it. -/
theorem sort_right_iff (mmap : List MemoryDescriptor) (bitmap : ByteMap) (paging : P) :
    let r := sortLoop remapRuntimeServices remapACPINVS mmap bitmap paging
    (Right mmap r ↔ mmap = []) ∧ (r.mmap.map placeless).Perm (mmap.map placeless) ∧ r.passed = mmap.filterMap passedOf ∧
      (r.mmap.Pairwise (fun a b => a.physicalStart ≤ b.physicalStart) ↔ SwapPass.Near MemoryDescriptor.physicalStart mmap) := by
  intro r
  obtain ⟨hmmap, hpassed, hnull⟩ := loop_eq remapRuntimeServices remapACPINVS mmap bitmap paging
  have hsame := remapEach_placeless remapRuntimeServices remapACPINVS mmap paging
  have hkeys : ((remapEach remapRuntimeServices remapACPINVS mmap paging).1.map MemoryDescriptor.physicalStart) =
      mmap.map MemoryDescriptor.physicalStart := by
    have hmap := congrArg (List.map MemoryDescriptor.physicalStart) hsame
    simpa only [List.map_map, Function.comp_def, placeless] using hmap
  have hperm : (r.mmap.map placeless).Perm (mmap.map placeless) := by
    rw [← hsame, hmmap]
    exact (SwapPass.pass_perm _).map placeless
  have hsorted : r.mmap.Pairwise (fun a b => a.physicalStart ≤ b.physicalStart) ↔
      SwapPass.Near MemoryDescriptor.physicalStart mmap := by
    rw [hmmap, SwapPass.pass_sorted_iff, SwapPass.near_map, hkeys, ← SwapPass.near_map]
  refine ⟨⟨fun h => ?_, ?_⟩, hperm, hpassed, hsorted⟩
  · by_contra hne
    have hread := hnull.mpr hne
    rw [h.noNull] at hread
    cases hread
  · rintro rfl
    exact ⟨hperm, hsorted.mpr fun a b c hs => absurd hs.length_le (by simp), hpassed, rfl⟩

end

/-- Three descriptors in falling order: the last one is moved by one place only. -/
theorem sort_falling : let d (a : Nat) : MemoryDescriptor := ⟨.conventionalMemory, a, 0, 1, 0⟩
    let r := sortLoop (fun _ p => (0, p)) (fun _ p => (0, p)) [d 0x3000, d 0x2000, d 0x1000] (fun _ => 0#8) ()
    r.mmap = [d 0x2000, d 0x1000, d 0x3000] ∧ r.nullRead = true ∧ ¬ Right [d 0x3000, d 0x2000, d 0x1000] r := by
  intro d r
  obtain ⟨hmmap, -, hnull⟩ := loop_eq (fun _ p => (0, p)) (fun _ p => (0, p)) [d 0x3000, d 0x2000, d 0x1000] (fun _ => 0#8) ()
  have hread : r.nullRead = true := hnull.mpr (List.cons_ne_nil _ _)
  refine ⟨hmmap.trans (by decide), hread, fun h => ?_⟩
  have hno := h.noNull
  rw [hread] at hno
  cases hno

end BadLands.Loader.DescriptorSort
