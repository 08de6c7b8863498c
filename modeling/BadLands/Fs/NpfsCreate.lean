import BadLands.Core.ByteMemory
import BadLands.Fs.NpfsAlloc
import BadLands.Fs.NpfsDirectory

/-!
# NPFS creations when the heap runs out

`NPFS::Directory::Create` over a heap that may refuse any allocation. It is given the name copy, the
node, the node's container and a junction, in this order, and only then looks for the name in the
directory. A `Ledger` numbers the allocations and lists those that are given back.

As in `NpfsAlloc` a directory is the data node under it, the entries now as they lie in the bytes of
its blocks. `memory` has the bytes that their names point at; the copy of the new name has the bytes of
the name.

A creation that is refused one of its four allocations gives back what it was granted. One that is
turned down by `CreateEntry` gives back the name copy and the node, and neither the container nor its
junction (`create_settles_iff`). The bindings stay in any case (`create_keeps_bindings`).
-/
namespace BadLands.Fs.Npfs.Alloc

open BadLands.Core
open Npfs.Directory (FileType isNamed isFree scanBlock)

/-! ## Allocations -/

/-- The allocations asked for so far, and by number the blocks that were given back. -/
structure Ledger where
  time : Nat
  freed : List Nat
  deriving DecidableEq

namespace Ledger

/-- `Heap::Allocate`: the number of the block, if it is granted. -/
def allocate (heap : Nat → Bool) (l : Ledger) : Option Nat × Ledger :=
  (if heap l.time then some l.time else none, { l with time := l.time + 1 })

/-- `Heap::Free`. -/
def free (l : Ledger) (i : Nat) : Ledger := { l with freed := i :: l.freed }

/-- Every block that was granted from the `t`-th allocation on has been given back once. -/
def Settled (heap : Nat → Bool) (l : Ledger) (t : Nat) : Prop :=
  ∀ i, t ≤ i → i < l.time → heap i = true → l.freed.count i = 1

end Ledger

/-- A `FileData`, which has a size, or a `DirectoryData`: the block, and that of its junction.
mirrors kernel/src/fs/NPFS.cpp:238-245 -/
structure Container where
  data : Nat
  junction : Nat
  size : Option Nat

/-- mirrors kernel/src/fs/NPFS.cpp:183-195 -/
def constructNode (heap : Nat → Bool) (l : Ledger) : Option Nat × Ledger := l.allocate heap

/-- What the two `Construct` have in common. -/
def construct (heap : Nat → Bool) (size : Option Nat) (l : Ledger) : Option Container × Ledger :=
  match l.allocate heap with
  | (none, l) => (none, l)
  | (some data, l) =>
    match constructNode heap l with
    | (none, l) => (none, l.free data)
    | (some junction, l) => (some ⟨data, junction, size⟩, l)

/-- mirrors kernel/src/fs/NPFS.cpp:756-772 -/
def constructFile (heap : Nat → Bool) : Ledger → Option Container × Ledger := construct heap (some 0)

/-- mirrors kernel/src/fs/NPFS.cpp:550-564 -/
def constructDirectory (heap : Nat → Bool) : Ledger → Option Container × Ledger := construct heap none

/-! ## Entries -/

/-- An entry with its node and its name by address.
mirrors kernel/src/fs/NPFS.cpp:256-261 -/
structure Record where
  node : Nat
  length : Nat
  name : Nat
  pad : Nat

/-- The entry in the `j`-th slot of a block. -/
def entryAt (memory : ByteMemory) (blk : Block) (j : Nat) : DirectoryEntry :=
  let field := fun k => ByteMemory.read (fun i => (blk i).toBitVec) (entrySize * j + 8 * k) 8
  ⟨Fin.ofNat (2 ^ 64) (field 0), field 1, (memory.bytes (field 2) (field 1)).map UInt8.ofBitVec⟩

/-- `*ptr = *entry` for the `j`-th slot. -/
def writeEntry (j : Nat) (e : Record) (blk : Block) : Block :=
  let field := fun m k v => ByteMemory.write m (entrySize * j + 8 * k) 8 v
  fun i => .ofBitVec (field (field (field (field (fun i => (blk i).toBitVec) 0 e.node) 1 e.length) 2 e.name) 3 e.pad i)

/-- `memset(ptr, 0, blockSize)`. -/
def clear (blk : Block) : Block := fun i => if i < blockSize then 0 else blk i

/-- `DataJunction::GetWeakBlock` of a junction of depth `d + 1`; `none`: a division by zero.
mirrors kernel/src/fs/NPFS.cpp:80-113 -/
def weakBlock : (d : Nat) → Junction d → Nat → Option (Option Block)
  | 0, junction, blockId => some (if blockId ≥ junctionSize then none else junction blockId)
  | d + 1, junction, blockId =>
    if reductor (d + 2) = 0 then none
    else if blockId / reductor (d + 2) ≥ junctionSize then some none
    else match junction (blockId / reductor (d + 2)) with
      | none => some none
      | some sub => weakBlock d sub (blockId % reductor (d + 2))

/-- Where the outer `for` ends: at a slot of the `i`-th block, or at the first block that is not there. -/
inductive Scan where
  | found (i j : Nat)
  | ended (i : Nat)

/-- The outer `for` of `FindEntry` and `CreateEntry`. -/
def scan (p : DirectoryEntry → Bool) (memory : ByteMemory) (block : Nat → Option (Option Block)) :
    Nat → Nat → Option Scan
  | 0, _ => none
  | fuel + 1, i => do
    match ← block i with
    | none => return .ended i
    | some blk =>
      match scanBlock p (entryAt memory blk) entriesPerBlock 0 with
      | some j => return .found i j
      | none => scan p memory block fuel (i + 1)

/-- All the blocks; a tree has no more than this. -/
def search (p : DirectoryEntry → Bool) (memory : ByteMemory) (n : DataNode) : Option Scan :=
  scan p memory (weakBlock n.level n.data) (64 ^ (n.level + 1) + 1) 0

/-- mirrors kernel/src/fs/NPFS.cpp:263-292 -/
def findEntry (memory : ByteMemory) (n : DataNode) (name : Name) : Option (Response (Nat × Nat)) :=
  if name.length = 0 then some (.error .invalidParameter)
  else if blockSize % entrySize ≠ 0 then some (.error .deviceError)
  else (search (isNamed name) memory n).map fun
    | .found i j => .ok (i, j)
    | .ended _ => .error .notFound

/-- The status, the directory and the allocations asked for; `name` is what the entry's name points at.
mirrors kernel/src/fs/NPFS.cpp:316-360 -/
def createEntry (heap : Nat → Bool) (memory : ByteMemory) (n : DataNode) (e : Record) (name : Name) (t : Nat) :
    Option (Status × DataNode × Nat) := do
  match ← findEntry memory n name with
  | .ok _ => return (.alreadyExists, n, t)
  | .error .notFound =>
    if blockSize % entrySize ≠ 0 then return (.deviceError, n, t)
    match ← search isFree memory n with
    | .found i j => return (.success, ⟨n.level, (Npfs.getBlock (writeEntry j e) n.level n.data i).2⟩, t)
    | .ended i =>
      let (ok, n, t) ← DataNode.getBlock heap n i (writeEntry 0 e ∘ clear) t
      return (if ok then .success else .deviceError, n, t)
  | .error status => return (status, n, t)

/-! ## Creations -/

/-- What the two branches of `Create` have in common.
mirrors kernel/src/fs/NPFS.cpp:377-416 -/
def createNode (heap : Nat → Bool) (construct : Ledger → Option Container × Ledger) (nameCopy : Nat) (l : Ledger) :
    Option (Nat × Container) × Ledger :=
  match l.allocate heap with
  | (none, l) => (none, l.free nameCopy)
  | (some mem, l) =>
    match construct l with
    | (none, l) => (none, (l.free nameCopy).free mem)
    | (some container, l) => (some (mem, container), l)

/-- What a creation leaves. -/
structure Outcome where
  status : Status
  data : DataNode
  ledger : Ledger

/-- A name may be null, and `none` is a type that is neither of the two. The `i`-th allocation, where
it is granted, is at `address i`; `pad` is what the unset field of the entry holds.
mirrors kernel/src/fs/NPFS.cpp:362-432 -/
def create (heap : Nat → Bool) (address : Nat → Nat) (memory : ByteMemory) (pad : Nat) (n : DataNode)
    (name : Option Name) (type : Option FileType) (t : Nat) : Option Outcome :=
  match name with
  | none => some ⟨.invalidParameter, n, ⟨t, []⟩⟩
  | some name =>
    match Ledger.allocate heap ⟨t, []⟩ with
    | (none, l) => some ⟨.deviceError, n, l⟩
    | (some nameCopy, l) =>
      match type with
      | none => some ⟨.invalidParameter, n, l.free nameCopy⟩
      | some type =>
        let construct := match type with
          | .file => constructFile heap
          | .directory => constructDirectory heap
        match createNode heap construct nameCopy l with
        | (none, l) => some ⟨.deviceError, n, l⟩
        | (some (node, _), l) => do
          let entry := ⟨address node, name.length, address nameCopy, pad⟩
          let (status, n, t) ← createEntry heap memory n entry name l.time
          if status ≠ .success then return ⟨status, n, ({ l with time := t }.free nameCopy).free node⟩
          return ⟨status, n, { l with time := t }⟩

/-- The node that `FindEntry` finds under a name. -/
def binding (memory : ByteMemory) (n : DataNode) (name : Name) : Option (Response Pointer) :=
  (findEntry memory n name).map fun r => r.map fun slot =>
    (entryAt memory ((n.getWeakBlock slot.1).getD zeros) slot.2).node

/-! ## The walks over the blocks -/

/-- The block ids before `k` have a block, and `k` has none. -/
def Ends (n : DataNode) (k : Nat) : Prop :=
  (∀ i, i < k → (n.getWeakBlock i).isSome) ∧ n.getWeakBlock k = none

/-- There is a slot with `p` in the blocks before the first that is not there. -/
def Has (p : DirectoryEntry → Bool) (memory : ByteMemory) (n : DataNode) : Prop :=
  ∃ i j blk, (∀ i', i' < i → (n.getWeakBlock i').isSome) ∧ n.getWeakBlock i = some blk ∧
    j < entriesPerBlock ∧ p (entryAt memory blk j) = true

section
variable {heap : Nat → Bool} {memory : ByteMemory} {p : DirectoryEntry → Bool} {n n' : DataNode} {k t : Nat}

theorem weakBlock_eq {d : Nat} (hd : d ≤ 10) (j : Junction d) (id : Nat) :
    weakBlock d j id = some (Npfs.getWeakBlock d j id) := by
  induction d generalizing id with
  | zero => rfl
  | succ d ih =>
    have hpos : reductor (d + 2) ≠ 0 := by
      rw [reductor_eq hd]
      exact Nat.ne_of_gt (Nat.pow_pos (by decide))
    rw [weakBlock, Npfs.getWeakBlock, if_neg hpos]
    split
    · rfl
    · cases j (id / reductor (d + 2)) with
      | none => rfl
      | some sub => exact ih (by omega) sub _

theorem weakBlock_divides {d : Nat} (hd : 11 ≤ d) (j : Junction d) (id : Nat) : weakBlock d j id = none := by
  obtain ⟨d, rfl⟩ : ∃ e, d = e + 10 + 1 := ⟨d - 11, by omega⟩
  rw [weakBlock, if_pos (reductor_zero d)]

theorem blocks_eq (hl : n.level ≤ 10) : weakBlock n.level n.data = fun i => some (n.getWeakBlock i) :=
  funext (weakBlock_eq hl n.data)

theorem Ends.unique {k' : Nat} (h : Ends n k) (h' : Ends n k') : k = k' := by
  have hle : ∀ {k k' : Nat}, Ends n k → Ends n k' → k' ≤ k := by
    intro k k' h h'
    apply Nat.le_of_not_lt
    intro hlt
    have hsome := h'.1 k hlt
    rw [h.2] at hsome
    cases hsome
  exact Nat.le_antisymm (hle h' h) (hle h h')

/-- The blocks end below the capacity of the tree. -/
theorem ends_exists (hl : n.level ≤ 10) : ∃ k, k ≤ 64 ^ (n.level + 1) ∧ Ends n k := by
  have hlast : n.getWeakBlock (64 ^ (n.level + 1)) = none := getWeakBlock_none n.data hl (Nat.le_refl _)
  have hex : ∃ k, n.getWeakBlock k = none := ⟨_, hlast⟩
  refine ⟨Nat.find hex, Nat.find_min' hex hlast, fun i hi => ?_, Nat.find_spec hex⟩
  exact Option.isSome_iff_ne_none.mpr (Nat.find_min hex hi)

/-- A walk that goes on to the end has seen every slot. -/
theorem not_has (hk : Ends n k) (hall : ∀ i blk j, i < k → n.getWeakBlock i = some blk → j < entriesPerBlock →
    p (entryAt memory blk j) = false) : ¬ Has p memory n := by
  rintro ⟨i, j, blk, hbefore, hblk, hj, hp⟩
  rcases Nat.lt_trichotomy i k with hlt | rfl | hgt
  · rw [hall i blk j hlt hblk hj] at hp
    cases hp
  · rw [hk.2] at hblk
    cases hblk
  · have hsome := hbefore k hgt
    rw [hk.2] at hsome
    cases hsome

/-- From block `i` on, where the blocks before have no such slot. -/
theorem scan_from (hk : Ends n k) (fuel : Nat) : ∀ i, i ≤ k → k < i + fuel →
    (∀ i' blk j, i' < i → n.getWeakBlock i' = some blk → j < entriesPerBlock → p (entryAt memory blk j) = false) →
    (Has p memory n ∧ ∃ i' j, scan p memory (fun i => some (n.getWeakBlock i)) fuel i = some (.found i' j)) ∨
    (¬ Has p memory n ∧ scan p memory (fun i => some (n.getWeakBlock i)) fuel i = some (.ended k)) := by
  induction fuel with
  | zero =>
    intro i hi hk
    omega
  | succ fuel ih =>
    intro i hi hfuel hbefore
    rw [scan]
    by_cases hend : i = k
    · subst hend
      rw [hk.2]
      exact .inr ⟨not_has hk hbefore, rfl⟩
    · obtain ⟨blk, hblk⟩ := Option.isSome_iff_exists.mp (hk.1 i (by omega))
      rw [hblk]
      rcases Directory.scanBlock_spec p (entryAt memory blk) entriesPerBlock 0 with ⟨j, hj, hp, -, hrun⟩ | ⟨hnone, hrun⟩
      · refine .inl ⟨⟨i, j, blk, fun i' hi' => hk.1 i' (by omega), hblk, hj, by rwa [Nat.zero_add] at hp⟩, i, 0 + j, ?_⟩
        simp only [Option.bind_eq_bind, Option.bind_some, hrun]
        rfl
      · simp only [Option.bind_eq_bind, Option.bind_some, hrun]
        refine ih (i + 1) (by omega) (by omega) fun i' blk' j hi' hblk' hj => ?_
        rcases Nat.lt_succ_iff_lt_or_eq.mp hi' with hlt | rfl
        · exact hbefore i' blk' j hlt hblk' hj
        · rw [hblk] at hblk'
          cases hblk'
          have hslot := hnone j hj
          rwa [Nat.zero_add] at hslot

theorem search_cases (p : DirectoryEntry → Bool) (memory : ByteMemory) (hl : n.level ≤ 10) :
    (Has p memory n ∧ ∃ i j, search p memory n = some (.found i j)) ∨
    (¬ Has p memory n ∧ ∃ k, Ends n k ∧ search p memory n = some (.ended k)) := by
  obtain ⟨k, hle, hk⟩ := ends_exists hl
  unfold search
  rw [blocks_eq hl]
  rcases @scan_from memory p n k hk (64 ^ (n.level + 1) + 1) 0 (Nat.zero_le k) (by omega)
    (fun i' _ _ hi' => absurd hi' (Nat.not_lt_zero i')) with h | ⟨hnone, h⟩
  · exact .inl h
  · exact .inr ⟨hnone, k, hk, h⟩

theorem search_divides (hl : 11 ≤ n.level) : search p memory n = none := by
  unfold search
  rw [scan, weakBlock_divides hl]
  rfl

/-- A walk that comes to its end does so with more fuel. -/
theorem scan_fuel {block : Nat → Option (Option Block)} {r : Scan} (more fuel : Nat) : ∀ i,
    scan p memory block fuel i = some r → scan p memory block (fuel + more) i = some r := by
  induction fuel with
  | zero =>
    intro i h
    cases h
  | succ fuel ih =>
    intro i h
    rw [show fuel + 1 + more = fuel + more + 1 by omega]
    rw [scan] at h ⊢
    cases hblk : block i with
    | none =>
      rw [hblk] at h
      cases h
    | some found =>
      rw [hblk] at h
      cases found with
      | none => exact h
      | some blk =>
        simp only [Option.bind_eq_bind, Option.bind_some] at h ⊢
        cases hrun : scanBlock p (entryAt memory blk) entriesPerBlock 0 with
        | some j =>
          rw [hrun] at h
          exact h
        | none =>
          rw [hrun] at h
          exact ih (i + 1) h

/-- The walks depend on the blocks only. -/
theorem search_congr (hl : n.level ≤ 10) (hl' : n'.level ≤ 10) (hsame : ∀ k, n'.getWeakBlock k = n.getWeakBlock k) :
    search p memory n' = search p memory n := by
  have hsome : ∀ {n : DataNode}, n.level ≤ 10 → ∃ r, search p memory n = some r := by
    intro n hl
    rcases search_cases p memory hl with ⟨-, i, j, h⟩ | ⟨-, k, -, h⟩
    · exact ⟨_, h⟩
    · exact ⟨_, h⟩
  obtain ⟨r, hr⟩ := hsome hl
  obtain ⟨r', hr'⟩ := hsome hl'
  rw [hr, hr']
  unfold search at hr hr'
  rw [blocks_eq hl] at hr
  rw [blocks_eq hl', show (fun k => some (n'.getWeakBlock k)) = fun k => some (n.getWeakBlock k) from
    funext fun k => congrArg some (hsame k)] at hr'
  have hmore := scan_fuel (64 ^ (n'.level + 1) + 1) _ 0 hr
  have hmore' := scan_fuel (64 ^ (n.level + 1) + 1) _ 0 hr'
  rw [Nat.add_comm] at hmore'
  exact hmore'.symm.trans hmore

theorem binding_congr (hl : n.level ≤ 10) (hl' : n'.level ≤ 10) (hsame : ∀ k, n'.getWeakBlock k = n.getWeakBlock k)
    (x : Name) : binding memory n' x = binding memory n x := by
  have hfind : findEntry memory n' x = findEntry memory n x := by
    unfold findEntry
    rw [search_congr hl hl' hsame]
  unfold binding
  rw [hfind]
  simp only [hsame]

end

/-! ## Entries that are turned down -/

/-- `CreateEntry` is sure to fail: the name is empty, or it is there, or there is no free slot and the
heap denies the block after the last one. -/
def TurnedDown (heap : Nat → Bool) (memory : ByteMemory) (n : DataNode) (name : Name) (t : Nat) : Prop :=
  name = [] ∨ n.level ≤ 10 ∧ (Has (isNamed name) memory n ∨
    ¬ Has isFree memory n ∧ ∃ k, Ends n k ∧ Denied heap k 5 n.level (missing n.level n.data k) t)

section
variable {heap : Nat → Bool} {memory : ByteMemory} {n n' : DataNode} {e : Record} {name : Name} {t t' : Nat}

theorem Lacks.le {id level need need' : Nat} (h : Lacks heap id level need t need' t') : t ≤ t' := by
  cases h with
  | beyond => exact Nat.le_refl t
  | refused => omega

theorem tryBlock_time {use : Block → Block} {id attempts : Nat} {ok : Bool}
    (h : tryBlock heap use id attempts n t = some (ok, n', t')) : t ≤ t' ∧ (n.level ≤ 10 → n'.level ≤ 10) := by
  induction attempts generalizing n t with
  | zero =>
    cases h
    exact ⟨Nat.le_refl _, fun hl => hl⟩
  | succ attempts ih =>
    rcases attempt_cases heap use n id t with ⟨hdeep, -⟩ | ⟨hl, -, -, hget⟩ | ⟨status, j, t₁, hl, hget, hs, hlacks, -⟩
    · rw [tryBlock_divides hdeep] at h
      cases h
    · rw [tryBlock, hget] at h
      cases h
      exact ⟨Nat.le_add_right _ _, fun hl => hl⟩
    · rw [tryBlock_error hget hs] at h
      have hle := hlacks.le
      split at h
      · cases h
        exact ⟨hle, fun hl => hl⟩
      next hattempts =>
      split at h
      · cases h
        exact ⟨Nat.le_succ_of_le hle, fun hl => hl⟩
      · obtain ⟨attempts, rfl⟩ := Nat.exists_eq_succ_of_ne_zero hattempts
        have hl' : n.level + 1 ≤ 10 := by
          apply Nat.le_of_not_lt
          intro hdeep
          rw [tryBlock_divides (show 11 ≤ n.level + 1 by omega)] at h
          cases h
        obtain ⟨htime, hlevel⟩ := ih h
        exact ⟨by omega, fun _ => hlevel hl'⟩

theorem findEntry_eq (hname : name ≠ []) : findEntry memory n name = (search (isNamed name) memory n).map fun
    | .found i j => .ok (i, j)
    | .ended _ => .error .notFound := by
  have hlen : name.length ≠ 0 := fun h => hname (List.length_eq_zero_iff.mp h)
  rw [findEntry, if_neg hlen, if_neg (by decide)]

/-- What `CreateEntry` comes to: it divides by zero, turns the entry down as the directory is, stores it
in a free slot, or asks for a block. -/
theorem createEntry_cases (heap : Nat → Bool) (memory : ByteMemory) (n : DataNode) (e : Record) (name : Name)
    (t : Nat) :
    (name ≠ [] ∧ 11 ≤ n.level ∧ createEntry heap memory n e name t = none) ∨
    ((name = [] ∨ n.level ≤ 10 ∧ Has (isNamed name) memory n) ∧
      ∃ status, status ≠ .success ∧ createEntry heap memory n e name t = some (status, n, t)) ∨
    (name ≠ [] ∧ n.level ≤ 10 ∧ ¬ Has (isNamed name) memory n ∧ Has isFree memory n ∧
      ∃ n', createEntry heap memory n e name t = some (.success, n', t)) ∨
    (name ≠ [] ∧ n.level ≤ 10 ∧ ¬ Has (isNamed name) memory n ∧ ¬ Has isFree memory n ∧ ∃ k, Ends n k ∧
      createEntry heap memory n e name t = (tryBlock heap (writeEntry 0 e ∘ clear) k 5 n t).map fun r =>
        (if r.1 then .success else .deviceError, r.2)) := by
  unfold createEntry
  by_cases hname : name = []
  · subst hname
    exact .inr (.inl ⟨.inl rfl, .invalidParameter, by decide, rfl⟩)
  rw [findEntry_eq hname]
  rcases Nat.lt_or_ge 10 n.level with hdeep | hl
  · rw [search_divides hdeep]
    exact .inl ⟨hname, hdeep, rfl⟩
  rcases search_cases (isNamed name) memory hl with ⟨hhas, i, j, hfound⟩ | ⟨hnot, k, -, hended⟩
  · rw [hfound]
    exact .inr (.inl ⟨.inr ⟨hl, hhas⟩, .alreadyExists, by decide, rfl⟩)
  rw [hended]
  simp only [Option.map_some, Option.bind_eq_bind, Option.bind_some]
  rw [if_neg (by decide)]
  rcases search_cases isFree memory hl with ⟨hfree, i, j, hfound⟩ | ⟨hfull, k, hk, hended⟩
  · rw [hfound]
    exact .inr (.inr (.inl ⟨hname, hl, hnot, hfree, _, rfl⟩))
  · rw [hended]
    refine .inr (.inr (.inr ⟨hname, hl, hnot, hfull, k, hk, ?_⟩))
    simp only [Option.bind_some, DataNode.getBlock]
    cases tryBlock heap (writeEntry 0 e ∘ clear) k 5 n t with
    | none => rfl
    | some r => rfl

/-- An entry that is not stored: the bindings are what they were. -/
theorem createEntry_error {status : Status} (h : createEntry heap memory n e name t = some (status, n', t'))
    (hs : status ≠ .success) : t ≤ t' ∧ ∀ x, binding memory n' x = binding memory n x := by
  rcases createEntry_cases heap memory n e name t with ⟨-, -, hrun⟩ | ⟨-, status', -, hrun⟩ | ⟨-, -, -, -, n₁, hrun⟩ |
    ⟨-, hl, -, -, k, -, hrun⟩
  · rw [hrun] at h
    cases h
  · rw [hrun] at h
    cases h
    exact ⟨Nat.le_refl _, fun _ => rfl⟩
  · rw [hrun] at h
    cases h
    exact absurd rfl hs
  · rw [hrun] at h
    obtain ⟨⟨ok, n₁, t₁⟩, hget, heq⟩ := Option.map_eq_some_iff.mp h
    cases heq
    cases ok with
    | true => exact absurd rfl hs
    | false =>
      obtain ⟨htime, hlevel⟩ := tryBlock_time hget
      refine ⟨htime, binding_congr hl (hlevel hl) fun k => ?_⟩
      rw [(tryBlock_blocks hget).2 k, if_neg fun hk => Bool.false_ne_true hk.1]

/-- `CreateEntry` returns an error exactly when the entry is turned down. -/
theorem createEntry_error_iff (e : Record) : (∃ status n' t', status ≠ .success ∧
    createEntry heap memory n e name t = some (status, n', t')) ↔ TurnedDown heap memory n name t := by
  unfold TurnedDown
  rcases createEntry_cases heap memory n e name t with ⟨hname, hdeep, hrun⟩ | ⟨hdown, status, hs, hrun⟩ |
    ⟨hname, hl, hnot, hfree, n₁, hrun⟩ | ⟨hname, hl, hnot, hfull, k, hk, hrun⟩
  · rw [hrun]
    refine iff_of_false ?_ ?_
    · rintro ⟨status, n', t', -, h⟩
      cases h
    · rintro (h | ⟨hl, -⟩)
      · exact hname h
      · omega
  · refine iff_of_true ⟨status, n, t, hs, hrun⟩ ?_
    rcases hdown with h | ⟨hl, hhas⟩
    · exact .inl h
    · exact .inr ⟨hl, .inl hhas⟩
  · rw [hrun]
    refine iff_of_false ?_ ?_
    · rintro ⟨status, n', t', hs, h⟩
      cases h
      exact hs rfl
    · rintro (h | ⟨-, h | ⟨h, -⟩⟩)
      · exact hname h
      · exact hnot h
      · exact h hfree
  · rw [hrun]
    constructor
    · rintro ⟨status, n', t', hs, h⟩
      obtain ⟨⟨ok, n₁, t₁⟩, hget, heq⟩ := Option.map_eq_some_iff.mp h
      cases heq
      cases ok with
      | true => exact absurd rfl hs
      | false => exact .inr ⟨hl, .inr ⟨hfull, k, hk, (tryBlock_denied_iff 4).mp ⟨_, _, hget⟩⟩⟩
    · rintro (h | ⟨-, h | ⟨-, k', hk', h⟩⟩)
      · exact absurd h hname
      · exact absurd h hnot
      · obtain rfl := hk.unique hk'
        obtain ⟨n', t', hget⟩ := (@tryBlock_denied_iff heap (writeEntry 0 e ∘ clear) k t n 4).mpr h
        exact ⟨.deviceError, n', t', by decide, by rw [hget]; rfl⟩

end

/-! ## Creations that fail -/

/-- The four allocations are granted, and the entry is turned down. -/
def Leaks (heap : Nat → Bool) (memory : ByteMemory) (n : DataNode) (name : Option Name) (type : Option FileType)
    (t : Nat) : Prop :=
  ∃ x, name = some x ∧ type ≠ none ∧ (∀ i, i < 4 → heap (t + i) = true) ∧ TurnedDown heap memory n x (t + 4)

section
variable {heap : Nat → Bool} {address : Nat → Nat} {memory : ByteMemory} {pad : Nat} {n : DataNode}
  {name : Option Name} {type : Option FileType} {size : Option Nat} {l : Ledger} {t : Nat} {o : Outcome}

theorem settled_of_mem (hnodup : l.freed.Nodup) (hmem : ∀ i, t ≤ i → i < l.time → heap i = true → i ∈ l.freed) :
    l.Settled heap t :=
  fun i h1 h2 h3 => List.count_eq_one_of_mem hnodup (hmem i h1 h2 h3)

/-- The node and its container, with the name copy granted before: either all of it is there, or
everything is given back. -/
theorem createNode_cases (heap : Nat → Bool) (size : Option Nat) (t : Nat) :
    ((∀ i, i < 3 → heap (t + 1 + i) = true) ∧ createNode heap (construct heap size) t ⟨t + 1, []⟩ =
      (some (t + 1, ⟨t + 2, t + 3, size⟩), ⟨t + 4, []⟩)) ∨
    ((∃ i, i < 3 ∧ heap (t + 1 + i) = false) ∧ ∃ l : Ledger,
      createNode heap (construct heap size) t ⟨t + 1, []⟩ = (none, l) ∧ l.Settled heap t) := by
  unfold createNode construct constructNode Ledger.allocate
  cases hnode : heap (t + 1) with
  | false =>
    refine .inr ⟨⟨0, by decide, hnode⟩, ⟨t + 2, [t]⟩, by simp [Ledger.free], settled_of_mem (by simp) ?_⟩
    intro i h1 h2 h3
    obtain rfl | rfl : i = t ∨ i = t + 1 := by
      have : i < t + 2 := h2
      omega
    · simp
    · rw [hnode] at h3
      cases h3
  | true =>
    cases hdata : heap (t + 2) with
    | false =>
      refine .inr ⟨⟨1, by decide, hdata⟩, ⟨t + 3, [t + 1, t]⟩, by simp [hdata, Ledger.free],
        settled_of_mem (by simp) ?_⟩
      intro i h1 h2 h3
      obtain rfl | rfl | rfl : i = t ∨ i = t + 1 ∨ i = t + 2 := by
        have : i < t + 3 := h2
        omega
      · simp
      · simp
      · rw [hdata] at h3
        cases h3
    | true =>
      cases hjunction : heap (t + 3) with
      | false =>
        refine .inr ⟨⟨2, by decide, hjunction⟩, ⟨t + 4, [t + 1, t, t + 2]⟩, by simp [hdata, hjunction, Ledger.free],
          settled_of_mem (by simp) ?_⟩
        intro i h1 h2 h3
        obtain rfl | rfl | rfl | rfl : i = t ∨ i = t + 1 ∨ i = t + 2 ∨ i = t + 3 := by
          have : i < t + 4 := h2
          omega
        · simp
        · simp
        · simp
        · rw [hjunction] at h3
          cases h3
      | true =>
        refine .inl ⟨fun i hi => ?_, by simp [hdata, hjunction]⟩
        obtain rfl | rfl | rfl : i = 0 ∨ i = 1 ∨ i = 2 := by omega
        · exact hnode
        · exact hdata
        · exact hjunction

/-- What a creation comes to: it fails before `CreateEntry` and gives back what it was granted, or it is
granted all four allocations and leaves the rest to `CreateEntry`. -/
theorem create_cases (heap : Nat → Bool) (address : Nat → Nat) (memory : ByteMemory) (pad : Nat) (n : DataNode)
    (name : Option Name) (type : Option FileType) (t : Nat) :
    ((name = none ∨ type = none ∨ ∃ i, i < 4 ∧ heap (t + i) = false) ∧
      ∃ o, create heap address memory pad n name type t = some o ∧ o.data = n ∧ o.ledger.Settled heap t) ∨
    ∃ x e, name = some x ∧ type ≠ none ∧ (∀ i, i < 4 → heap (t + i) = true) ∧
      create heap address memory pad n name type t = (createEntry heap memory n e x (t + 4)).map fun r =>
        ⟨r.1, r.2.1, ⟨r.2.2, if r.1 = .success then [] else [t + 1, t]⟩⟩ := by
  cases name with
  | none =>
    refine .inl ⟨.inl rfl, ⟨.invalidParameter, n, ⟨t, []⟩⟩, rfl, rfl, fun i h1 h2 => ?_⟩
    exact absurd h2 (Nat.not_lt.mpr h1)
  | some x =>
    unfold create Ledger.allocate
    cases hcopy : heap t with
    | false =>
      refine .inl ⟨.inr (.inr ⟨0, by decide, hcopy⟩), ⟨.deviceError, n, ⟨t + 1, []⟩⟩, by simp, rfl, ?_⟩
      intro i h1 h2 h3
      obtain rfl : i = t := Nat.le_antisymm (Nat.le_of_lt_succ h2) h1
      rw [hcopy] at h3
      cases h3
    | true =>
      cases type with
      | none =>
        refine .inl ⟨.inr (.inl rfl), ⟨.invalidParameter, n, ⟨t + 1, [t]⟩⟩, by simp [Ledger.free], rfl,
          settled_of_mem (by simp) ?_⟩
        intro i h1 h2 _
        exact List.mem_singleton.mpr (Nat.le_antisymm (Nat.le_of_lt_succ h2) h1)
      | some type =>
        obtain ⟨size, hsize⟩ : ∃ size, (match type with
            | .file => constructFile heap
            | .directory => constructDirectory heap) = construct heap size := by
          cases type with
          | file => exact ⟨some 0, rfl⟩
          | directory => exact ⟨none, rfl⟩
        simp only [if_true, hsize]
        rcases createNode_cases heap size t with ⟨hgranted, hrun⟩ | ⟨⟨i, hi, hrefused⟩, l, hrun, hsettled⟩
        · refine .inr ⟨x, ⟨address (t + 1), x.length, address t, pad⟩, rfl, Option.some_ne_none _, fun i hi => ?_, ?_⟩
          · cases i with
            | zero => exact hcopy
            | succ i =>
              have hnext := hgranted i (Nat.lt_of_succ_lt_succ hi)
              rwa [show t + 1 + i = t + (i + 1) by omega] at hnext
          · simp only [hrun]
            cases createEntry heap memory n ⟨address (t + 1), x.length, address t, pad⟩ x (t + 4) with
            | none => rfl
            | some r =>
              by_cases hs : r.1 = .success
              · simp [hs]
              · simp [hs, Ledger.free]
        · refine .inl ⟨.inr (.inr ⟨i + 1, Nat.succ_lt_succ hi, ?_⟩), ⟨.deviceError, n, l⟩, by simp only [hrun], rfl,
            hsettled⟩
          rwa [show t + (i + 1) = t + 1 + i by omega]

/-- A creation that fails leaves the bindings as they were. -/
theorem create_keeps_bindings (h : create heap address memory pad n name type t = some o) (hs : o.status ≠ .success)
    (x : Name) : binding memory o.data x = binding memory n x := by
  rcases create_cases heap address memory pad n name type t with ⟨-, o', hrun, hdata, -⟩ | ⟨y, e, -, -, -, hrun⟩
  · rw [hrun] at h
    cases h
    rw [hdata]
  · rw [hrun] at h
    obtain ⟨⟨status, n', t'⟩, hentry, rfl⟩ := Option.map_eq_some_iff.mp h
    exact (createEntry_error hentry hs).2 x

/-- The blocks of a creation that is turned down: the container is not given back. -/
theorem not_settled {t' : Nat} (hgranted : heap (t + 2) = true) (ht : t + 4 ≤ t') :
    ¬ Ledger.Settled heap ⟨t', [t + 1, t]⟩ t := by
  intro hsettled
  have hcount := hsettled (t + 2) (Nat.le_add_right t 2) (show t + 2 < t' by omega) hgranted
  simp at hcount

end

/-- A creation that fails leaves the bindings as they were and gives back every block it was granted,
each one once, exactly unless it was granted its name copy, node, container and junction and the entry
was turned down. -/
theorem create_settles_iff (heap : Nat → Bool) (address : Nat → Nat) (memory : ByteMemory) (pad : Nat) (n : DataNode)
    (name : Option Name) (type : Option FileType) (t : Nat) :
    (∀ o, create heap address memory pad n name type t = some o → o.status ≠ .success →
      (∀ x, binding memory o.data x = binding memory n x) ∧ o.ledger.Settled heap t) ↔
    ¬ Leaks heap memory n name type t := by
  constructor
  · rintro h ⟨x, rfl, htype, hgranted, hdown⟩
    rcases create_cases heap address memory pad n (some x) type t with ⟨hfail, -⟩ | ⟨y, e, hx, -, -, hrun⟩
    · rcases hfail with hnull | hnone | ⟨i, hi, hrefused⟩
      · cases hnull
      · exact htype hnone
      · rw [hgranted i hi] at hrefused
        cases hrefused
    · cases hx
      obtain ⟨status, n', t', hs, hentry⟩ := (createEntry_error_iff e).mpr hdown
      obtain ⟨htime, -⟩ := createEntry_error hentry hs
      rw [hentry, Option.map_some, if_neg hs] at hrun
      obtain ⟨-, hsettled⟩ := h _ hrun hs
      exact not_settled (hgranted 2 (by decide)) htime hsettled
  · intro hno o hrun hs
    refine ⟨create_keeps_bindings hrun hs, ?_⟩
    rcases create_cases heap address memory pad n name type t with ⟨-, o', ho', -, hsettled⟩ |
      ⟨x, e, hx, htype, hgranted, ho'⟩
    · rw [hrun] at ho'
      cases ho'
      exact hsettled
    · rw [hrun] at ho'
      obtain ⟨⟨status, n', t'⟩, hentry, rfl⟩ := Option.map_eq_some_iff.mp ho'.symm
      exact absurd ⟨x, hx, htype, hgranted, (createEntry_error_iff e).mp ⟨status, n', t', hs, hentry⟩⟩ hno

/-- The same creation twice, in a new directory and with memory for everything: the allocations after the
first one, and what the second one answers and leaves. -/
def createTwice (memory : ByteMemory) (name : Name) (type : FileType) : Option (Nat × Status × Ledger) := do
  let address := fun i => 0x1000 * (i + 1)
  let first ← create (fun _ => true) address memory 0 DataNode.construct (some name) (some type) 0
  let second ← create (fun _ => true) address memory 0 first.data (some name) (some type) first.ledger.time
  return (first.ledger.time, second.status, second.ledger)

/-- Two files of the name "a": the second creation answers `ALREADY_EXISTS`, and of the four blocks that
it was granted, the 5th to the 8th, the container and its junction are not given back. -/
theorem create_leaks_container : createTwice (fun _ => 97#8) [97] .file = some (5, .alreadyExists, ⟨9, [6, 5]⟩) ∧
    ¬ ∀ heap address memory pad n name type t o, create heap address memory pad n name type t = some o →
      o.status ≠ .success → (∀ x, binding memory o.data x = binding memory n x) ∧ o.ledger.Settled heap t := by
  have hboth : createTwice (fun _ => 97#8) [97] .file = some (5, .alreadyExists, ⟨9, [6, 5]⟩) := by decide
  refine ⟨hboth, fun h => ?_⟩
  unfold createTwice at hboth
  obtain ⟨first, -, hrest⟩ := Option.bind_eq_some_iff.mp hboth
  obtain ⟨second, hsecond, hlast⟩ := Option.bind_eq_some_iff.mp hrest
  obtain ⟨hfirst, hpair⟩ := Prod.mk.inj (Option.some.inj hlast)
  obtain ⟨hstatus, hledger⟩ := Prod.mk.inj hpair
  obtain ⟨-, hsettled⟩ := h _ _ _ _ _ _ _ _ second hsecond (by rw [hstatus]; decide)
  rw [hledger, hfirst] at hsettled
  -- the container of the second file
  exact absurd (hsettled 7 (by decide) (by decide) rfl) (by decide)

end BadLands.Fs.Npfs.Alloc
