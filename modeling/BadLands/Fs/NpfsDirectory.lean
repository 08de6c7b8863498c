import BadLands.Fs.NpfsBlocks
import Mathlib.Algebra.GroupWithZero.Nat
import Mathlib.Data.Fintype.Card
import Mathlib.Data.List.Nodup

/-!
# NPFS directories

A directory keeps its entries in the slots of its blocks: 128 to a block, the blocks under the
tree of `NpfsBlocks`. An entry of length 0 is free. `FindEntry`, `CreateEntry` and `List` each
walk the blocks with a loop of their own; `Remove` leaves a hole that a later `CreateEntry`
fills, and a block is added when there is none. Names are copied, so an entry owns its name.

`view` numbers the slots through, block after block. `Represents` relates it to what a directory
is for, a map from names to nodes, and `directory_is_map` says that every sequence of calls
answers as that map does.
-/
namespace BadLands.Fs.Npfs

/-- The address of a node. -/
abbrev Pointer := Fin (2 ^ 64)

instance Pointer.neZero : NeZero (2 ^ 64) := ⟨by decide⟩

abbrev Name := List UInt8

/-- `name` is the heap copy that the entry owns.
mirrors kernel/src/fs/NPFS.cpp:256-261 -/
structure DirectoryEntry where
  node : Pointer
  length : Nat
  name : Name
  deriving DecidableEq

/-- A cleared entry. -/
def DirectoryEntry.null : DirectoryEntry := ⟨0, 0, []⟩

/-- `sizeof(DirectoryEntry)`. -/
def entrySize : Nat := 32

def entriesPerBlock : Nat := blockSize / entrySize

/-- The blocks by address, and which nodes are marked for removal. -/
structure Directory where
  tree : BlockTree
  slots : Nat → Nat → DirectoryEntry
  removed : Pointer → Bool

namespace Directory

/-- mirrors kernel/src/fs/NPFS.cpp:550-564; the nodes there are come with their marks. -/
def construct (removed : Pointer → Bool) : Directory := ⟨.construct, fun _ _ => .null, removed⟩

/-! ## The loops -/

/-- The inner `for` of `FindEntry` and `CreateEntry` with `k` slots left. -/
def scanBlock (p : DirectoryEntry → Bool) (slots : Nat → DirectoryEntry) : Nat → Nat → Option Nat
  | 0, _ => none
  | k + 1, j => if p (slots j) then some j else scanBlock p slots k (j + 1)

/-- Where the outer `for` ends: at a slot, or at the first block that is not there. -/
inductive Scan where
  | found (block j : Nat)
  | ended (i : Nat)

/-- The outer `for`; `none`: more than `fuel` blocks. -/
def scan (p : DirectoryEntry → Bool) (d : Directory) : Nat → Nat → Option Scan
  | 0, _ => none
  | fuel + 1, i =>
    match d.tree.getWeakBlock i with
    | none => some (.ended i)
    | some block =>
      match scanBlock p (d.slots block) entriesPerBlock 0 with
      | some j => some (.found block j)
      | none => scan p d fuel (i + 1)

/-- A tree has no more blocks than this. -/
def fuel (d : Directory) : Nat := 64 ^ (d.tree.level + 1) + 1

/-- `ptr->length == NameLength` and `memcmp(ptr->name, Name, NameLength) == 0`. -/
def isNamed (name : Name) (e : DirectoryEntry) : Bool :=
  e.length == name.length && e.name.take name.length == name

def isFree (e : DirectoryEntry) : Bool := e.length == 0

/-- mirrors kernel/src/fs/NPFS.cpp:263-292 -/
def findEntry (d : Directory) (name : Name) : Option (Response (Nat × Nat)) :=
  if name.length = 0 then some (.error .invalidParameter)
  else if blockSize % entrySize ≠ 0 then some (.error .deviceError)
  else (scan (isNamed name) d d.fuel 0).map fun
    | .found block j => .ok (block, j)
    | .ended _ => .error .notFound

def setEntry (slots : Nat → Nat → DirectoryEntry) (block j : Nat) (e : DirectoryEntry) :
    Nat → Nat → DirectoryEntry :=
  fun b k => if b = block ∧ k = j then e else slots b k

/-- `memset(ptr, 0, blockSize)`. -/
def clearBlock (slots : Nat → Nat → DirectoryEntry) (block : Nat) : Nat → Nat → DirectoryEntry :=
  fun b k => if b = block then .null else slots b k

/-- mirrors kernel/src/fs/NPFS.cpp:316-360 -/
def createEntry (heap : Heap) (d : Directory) (e : DirectoryEntry) : Option (Status × Directory) := do
  match ← findEntry d e.name with
  | .ok _ => return (.alreadyExists, d)
  | .error .notFound =>
    if blockSize % entrySize ≠ 0 then return (.deviceError, d)
    match ← scan isFree d d.fuel 0 with
    | .found block j => return (.success, { d with slots := setEntry d.slots block j e })
    | .ended i =>
      match d.tree.getBlock heap i with
      | (none, tree) => return (.deviceError, { d with tree := tree })
      | (some block, tree) =>
        return (.success, { d with tree := tree, slots := setEntry (clearBlock d.slots block) block 0 e })
  | .error status => return (status, d)

/-- mirrors kernel/include/fs/IFNode.hpp:40-43 -/
inductive FileType where
  | file
  | directory
  deriving DecidableEq, Repr

/-- `node`: the file or directory that is constructed, not marked for removal.
mirrors kernel/src/fs/NPFS.cpp:362-432 -/
def create (heap : Heap) (d : Directory) (name : Name) (_type : FileType) (node : Pointer) :
    Option (Status × Directory) :=
  createEntry heap { d with removed := fun n => if n = node then false else d.removed n }
    ⟨node, name.length, name⟩

/-- mirrors kernel/src/fs/NPFS.cpp:434-463 -/
def addNode (heap : Heap) (d : Directory) (name : Name) (node : Pointer) : Option (Status × Directory) :=
  createEntry heap d ⟨node, name.length, name⟩

/-- mirrors kernel/src/fs/NPFS.cpp:296-314 and kernel/src/fs/IFNode.cpp:21-29 -/
def find (d : Directory) (name : Name) : Option (Response Pointer) := do
  match ← findEntry d name with
  | .error e => return .error e
  | .ok (block, j) =>
    let node := (d.slots block j).node
    if d.removed node then return .error .unavailable
    return .ok node

/-- mirrors kernel/src/fs/NPFS.cpp:465-501 and kernel/src/fs/IFNode.cpp:21-45 -/
def remove (d : Directory) (name : Name) : Option (Status × Directory) := do
  match ← findEntry d name with
  | .error e => return (e, d)
  | .ok (block, j) =>
    let node := (d.slots block j).node
    if d.removed node then return (.success, d)
    return (.success, { d with slots := setEntry d.slots block j .null
                               removed := fun n => if n = node then true else d.removed n })

/-- The `for` of `List` with `k` entries left in the block: what remains and the names so far. -/
def listBlock (slots : Nat → DirectoryEntry) : Nat → Nat → Nat → List Name → Nat × List Name
  | 0, _, remaining, names => (remaining, names)
  | k + 1, j, remaining, names =>
    if remaining = 0 then (remaining, names)
    else if (slots j).length ≠ 0 then
      listBlock slots k (j + 1) (remaining - 1) (names ++ [(slots j).name.take (slots j).length])
    else listBlock slots k (j + 1) remaining names

/-- The `while` of `List`. -/
def listBlocks (d : Directory) : Nat → Nat → Nat → Nat → List Name → Option (Nat × List Name)
  | 0, _, _, _, _ => none
  | fuel + 1, blockId, entryId, remaining, names =>
    match d.tree.getWeakBlock blockId with
    | none => some (remaining, names)
    | some block =>
      let r := listBlock (d.slots block) (entriesPerBlock - entryId) entryId remaining names
      listBlocks d fuel (blockId + 1) 0 r.1 r.2

/-- The count that is returned and the names that are written to `list`.
mirrors kernel/src/fs/NPFS.cpp:503-544 -/
def list (d : Directory) (length start : Nat) : Option (Response (Nat × List Name)) :=
  if blockSize % entrySize ≠ 0 then some (.error .deviceError)
  else (listBlocks d d.fuel (start / entriesPerBlock) (start % entriesPerBlock) length []).map fun r =>
    .ok (length - r.1, r.2)

/-! ## The slots, numbered through -/

/-- The `q`-th slot; free where there is no block. -/
def view (d : Directory) (q : Nat) : DirectoryEntry :=
  match d.tree.getWeakBlock (q / 128) with
  | some block => d.slots block (q % 128)
  | none => .null

/-- The directory has the blocks below `k`, at addresses of their own. -/
structure Blocks (heap : Heap) (d : Directory) (k : Nat) : Prop where
  level : d.tree.level ≤ 9
  blocks : ∀ i, (d.tree.getWeakBlock i).isSome ↔ i < k
  allocated : ∀ i block, d.tree.getWeakBlock i = some block →
    ∃ a, a < d.tree.vectors.allocated ∧ block = heap.address a + dataOffset
  inj : ∀ i i' block, d.tree.getWeakBlock i = some block → d.tree.getWeakBlock i' = some block → i = i'

def update (v : Nat → DirectoryEntry) (q : Nat) (e : DirectoryEntry) : Nat → DirectoryEntry :=
  fun q' => if q' = q then e else v q'

section
variable {heap : Heap} {d : Directory} {k : Nat}

theorem entriesPerBlock_eq : entriesPerBlock = 128 := rfl

theorem blocks_construct (heap : Heap) (removed : Pointer → Bool) : Blocks heap (construct removed) 0 := by
  have hnone : ∀ i, (construct removed).tree.getWeakBlock i = none := weakPointer_empty
  refine ⟨Nat.zero_le _, fun i => ?_, fun i block h => ?_, fun i i' block h => ?_⟩
  · rw [hnone i]
    simp
  · rw [hnone i] at h
    cases h
  · rw [hnone i] at h
    cases h

theorem view_construct (removed : Pointer → Bool) (q : Nat) : view (construct removed) q = .null := by
  unfold view
  split
  · rfl
  · rfl

theorem Blocks.block (h : Blocks heap d k) {i : Nat} (hi : i < k) :
    ∃ block, d.tree.getWeakBlock i = some block :=
  Option.isSome_iff_exists.mp ((h.blocks i).mpr hi)

theorem Blocks.no_block (h : Blocks heap d k) {i : Nat} (hi : k ≤ i) : d.tree.getWeakBlock i = none := by
  rw [← Option.not_isSome_iff_eq_none, h.blocks]
  omega

theorem Blocks.fuel (h : Blocks heap d k) : k < d.fuel := by
  apply Decidable.byContradiction
  intro hn
  unfold Directory.fuel at hn
  obtain ⟨block, hb⟩ := h.block (show 64 ^ (d.tree.level + 1) < k by omega)
  have hnone : d.tree.getWeakBlock (64 ^ (d.tree.level + 1)) = none :=
    weakPointer_none d.tree.vectors.junction h.level (Nat.le_refl _)
  rw [hnone] at hb
  cases hb

/-- The slots of a block, as they are numbered. -/
theorem view_block {i block j : Nat} (hb : d.tree.getWeakBlock i = some block) (hj : j < 128) :
    view d (128 * i + j) = d.slots block j := by
  unfold view
  rw [show (128 * i + j) / 128 = i by omega, show (128 * i + j) % 128 = j by omega, hb]

/-! ## What the loops find -/

theorem scanBlock_spec (p : DirectoryEntry → Bool) (slots : Nat → DirectoryEntry) (n : Nat) : ∀ j,
    (∃ m, m < n ∧ p (slots (j + m)) = true ∧ (∀ m', m' < m → p (slots (j + m')) = false) ∧
      scanBlock p slots n j = some (j + m)) ∨
    ((∀ m, m < n → p (slots (j + m)) = false) ∧ scanBlock p slots n j = none) := by
  induction n with
  | zero =>
    intro j
    exact .inr ⟨fun m hm => absurd hm (by omega), rfl⟩
  | succ n ih =>
    intro j
    rw [scanBlock]
    cases hp : p (slots j) with
    | true => exact .inl ⟨0, Nat.succ_pos n, hp, fun m' hm' => absurd hm' (by omega), rfl⟩
    | false =>
      have hshift : ∀ m, j + 1 + m = j + (m + 1) := fun m => by omega
      rcases ih (j + 1) with ⟨m, hm, hpm, hbefore, hrun⟩ | ⟨hall, hrun⟩
      · left
        refine ⟨m + 1, by omega, by rw [← hshift]; exact hpm, fun m' hm' => ?_, ?_⟩
        · cases m' with
          | zero => exact hp
          | succ m' =>
            rw [← hshift]
            exact hbefore m' (by omega)
        · simp only [Bool.false_eq_true, if_false]
          rw [hrun, hshift]
      · right
        refine ⟨fun m hm => ?_, by simp only [Bool.false_eq_true, if_false]; exact hrun⟩
        cases m with
        | zero => exact hp
        | succ m =>
          rw [← hshift]
          exact hall m (by omega)

/-- From block `i` on, where the blocks before have no such slot. -/
theorem Blocks.scan_from (h : Blocks heap d k) (p : DirectoryEntry → Bool) (fuel : Nat) : ∀ i, i ≤ k →
    k < i + fuel → (∀ q, q < 128 * i → p (view d q) = false) →
    (∃ q block, q < 128 * k ∧ p (view d q) = true ∧ (∀ q', q' < q → p (view d q') = false) ∧
      d.tree.getWeakBlock (q / 128) = some block ∧ scan p d fuel i = some (.found block (q % 128))) ∨
    ((∀ q, q < 128 * k → p (view d q) = false) ∧ scan p d fuel i = some (.ended k)) := by
  induction fuel with
  | zero =>
    intro i hi hk
    omega
  | succ fuel ih =>
    intro i hi hk hbefore
    rw [scan]
    by_cases hend : i = k
    · subst hend
      rw [h.no_block (Nat.le_refl _)]
      exact .inr ⟨hbefore, rfl⟩
    · obtain ⟨block, hb⟩ := h.block (show i < k by omega)
      rw [hb]
      have hview : ∀ m, m < 128 → d.slots block (0 + m) = view d (128 * i + m) := fun m hm => by
        rw [Nat.zero_add, view_block hb hm]
      rcases scanBlock_spec p (d.slots block) 128 0 with ⟨m, hm, hpm, hfirst, hrun⟩ | ⟨hall, hrun⟩
      · left
        refine ⟨128 * i + m, block, by omega, by rw [← hview m hm]; exact hpm, fun q hq => ?_, ?_, ?_⟩
        · by_cases hqi : q < 128 * i
          · exact hbefore q hqi
          · have hq' := hfirst (q - 128 * i) (by omega)
            rw [hview _ (by omega), show 128 * i + (q - 128 * i) = q by omega] at hq'
            exact hq'
        · rw [show (128 * i + m) / 128 = i by omega]
          exact hb
        · rw [show (128 * i + m) % 128 = m by omega]
          simp only [entriesPerBlock_eq, hrun, Nat.zero_add]
      · have hstep : ∀ q, q < 128 * (i + 1) → p (view d q) = false := by
          intro q hq
          by_cases hqi : q < 128 * i
          · exact hbefore q hqi
          · have hq' := hall (q - 128 * i) (by omega)
            rw [hview _ (by omega), show 128 * i + (q - 128 * i) = q by omega] at hq'
            exact hq'
        simp only [entriesPerBlock_eq, hrun]
        exact ih (i + 1) (by omega) (by omega) hstep

theorem Blocks.scan (h : Blocks heap d k) (p : DirectoryEntry → Bool) :
    (∃ q block, q < 128 * k ∧ p (view d q) = true ∧ (∀ q', q' < q → p (view d q') = false) ∧
      d.tree.getWeakBlock (q / 128) = some block ∧ scan p d d.fuel 0 = some (.found block (q % 128))) ∨
    ((∀ q, q < 128 * k → p (view d q) = false) ∧ scan p d d.fuel 0 = some (.ended k)) :=
  h.scan_from p d.fuel 0 (Nat.zero_le _) (by have := h.fuel; omega) fun q hq => absurd hq (by omega)

/-! ## What the writes do to the slots -/

/-- Writing the slot that was found. -/
theorem Blocks.view_setEntry (h : Blocks heap d k) {q block : Nat} (e : DirectoryEntry)
    (removed : Pointer → Bool) (hb : d.tree.getWeakBlock (q / 128) = some block) :
    view { d with slots := setEntry d.slots block (q % 128) e, removed := removed } = update (view d) q e := by
  funext q'
  unfold view update setEntry
  dsimp only
  cases hb' : d.tree.getWeakBlock (q' / 128) with
  | none =>
    have hne : q' ≠ q := by
      rintro rfl
      rw [hb] at hb'
      cases hb'
    rw [if_neg hne]
  | some block' =>
    dsimp only
    by_cases hq : q' = q
    · subst hq
      rw [hb] at hb'
      cases hb'
      rw [if_pos ⟨rfl, rfl⟩, if_pos rfl]
    · have hother : ¬ (block' = block ∧ q' % 128 = q % 128) := by
        rintro ⟨rfl, hmod⟩
        have hdiv := h.inj _ _ _ hb' hb
        omega
      rw [if_neg hother, if_neg hq]

/-- A block is added behind the last one. -/
theorem Blocks.grow (h : Blocks heap d k) (hk : k ≤ 2 ^ 57) :
    ∃ block tree, d.tree.getBlock heap k = (some block, tree) ∧ tree.level ≤ 9 ∧
      (∀ i, tree.getWeakBlock i = if i = k then some block else d.tree.getWeakBlock i) ∧
      d.tree.vectors.allocated ≤ tree.vectors.allocated ∧
      ∃ a, d.tree.vectors.allocated ≤ a ∧ a < tree.vectors.allocated ∧
        block = heap.address a + dataOffset := by
  have hnone := h.no_block (Nat.le_refl k)
  unfold BlockTree.getBlock
  by_cases hfit : k < 64 ^ (d.tree.level + 1)
  · obtain ⟨block, v, hrun, hnamed, hblocks⟩ := BlockTree.tryBlock_within heap 4 h.level hfit
    refine ⟨block, ⟨d.tree.level, v⟩, hrun, h.level, hblocks, hnamed.mono, ?_⟩
    rcases hnamed.block with hold | ⟨-, hnew⟩
    · rw [hnone] at hold
      cases hold
    · exact hnew
  · have hlevel : d.tree.level + 1 ≤ 9 := by
      apply Decidable.byContradiction
      intro hn
      have hle : 64 ^ 10 ≤ 64 ^ (d.tree.level + 1) := Nat.pow_le_pow_right (by omega) (by omega)
      omega
    have hcap : k < 64 ^ (d.tree.grow.level + 1) := by
      change k < 64 ^ (d.tree.level + 1 + 1)
      have hfuel := h.fuel
      unfold Directory.fuel at hfuel
      have hpow : 64 ^ (d.tree.level + 1 + 1) = 64 ^ (d.tree.level + 1) * 64 :=
        Nat.pow_succ 64 (d.tree.level + 1)
      have hpos : 0 < 64 ^ (d.tree.level + 1) := Nat.pow_pos (by decide)
      omega
    rw [BlockTree.tryBlock_grows heap 3 h.level (Nat.le_of_not_lt hfit)]
    obtain ⟨block, v, hrun, hnamed, hblocks⟩ := BlockTree.tryBlock_within heap 3 hlevel hcap
    have hgrow := fun i => BlockTree.grow_getWeakBlock (n := d.tree) (by omega) i
    refine ⟨block, ⟨d.tree.grow.level, v⟩, hrun, hlevel, fun i => ?_, ?_, ?_⟩
    · rw [← hgrow i]
      exact hblocks i
    · exact Nat.le_of_succ_le hnamed.mono
    · rcases hnamed.block with hold | ⟨-, a, h1, h2, h3⟩
      · rw [hgrow, hnone] at hold
        cases hold
      · exact ⟨a, Nat.le_of_succ_le h1, h2, h3⟩

/-- The first entry of a new block. -/
theorem Blocks.view_grow (h : Blocks heap d k) {block : Nat} {tree : BlockTree} (e : DirectoryEntry)
    (hblocks : ∀ i, tree.getWeakBlock i = if i = k then some block else d.tree.getWeakBlock i)
    (hnew : ∀ i, d.tree.getWeakBlock i ≠ some block) :
    view { d with tree := tree, slots := setEntry (clearBlock d.slots block) block 0 e } =
      update (view d) (128 * k) e := by
  funext q
  unfold view update setEntry clearBlock
  dsimp only
  rw [hblocks]
  by_cases hk : q / 128 = k
  · rw [if_pos hk]
    dsimp only
    by_cases hq : q = 128 * k
    · rw [if_pos ⟨rfl, by omega⟩, if_pos hq]
    · have hmod : ¬ (block = block ∧ q % 128 = 0) := by
        rintro ⟨-, hzero⟩
        omega
      rw [if_neg hmod, if_pos rfl, if_neg hq, hk, h.no_block (Nat.le_refl _)]
  · have hq : q ≠ 128 * k := by omega
    rw [if_neg hk, if_neg hq]
    cases hb : d.tree.getWeakBlock (q / 128) with
    | none => rfl
    | some block' =>
      have hne : block' ≠ block := by
        rintro rfl
        exact hnew _ hb
      dsimp only
      rw [if_neg fun hc => hne hc.1, if_neg hne]

end

/-! ## The map -/

/-- What a directory is for. -/
abbrev Map := Name → Option Pointer

/-- The used slots are the bindings, each name and each node in one slot only. -/
structure Represents (v : Nat → DirectoryEntry) (removed : Pointer → Bool) (m : Map) : Prop where
  shape : ∀ q, (v q).length = (v q).name.length
  bound : ∀ name node, m name = some node ↔ name ≠ [] ∧ ∃ q, v q = ⟨node, name.length, name⟩
  once : ∀ q q', (v q).name ≠ [] → (v q).name = (v q').name → q = q'
  nodes : ∀ q q', (v q).name ≠ [] → (v q').name ≠ [] → (v q).node = (v q').node → q = q'
  live : ∀ q, (v q).name ≠ [] → removed (v q).node = false

section
variable {v : Nat → DirectoryEntry} {removed removed' : Pointer → Bool} {m : Map} {name : Name}

theorem represents_empty (removed : Pointer → Bool) :
    Represents (fun _ => .null) removed fun _ => none := by
  refine ⟨fun _ => rfl, fun name node => ?_, fun q q' hq => absurd rfl hq, fun q q' hq => absurd rfl hq,
    fun q hq => absurd rfl hq⟩
  constructor
  · intro h
    cases h
  · rintro ⟨hname, q, hq⟩
    exact absurd (congrArg DirectoryEntry.name hq).symm hname

theorem Represents.eta (h : Represents v removed m) (q : Nat) :
    v q = ⟨(v q).node, (v q).name.length, (v q).name⟩ := by
  rw [← h.shape q]

theorem Represents.of_slot (h : Represents v removed m) {q : Nat} (hq : (v q).name ≠ []) :
    m (v q).name = some (v q).node :=
  (h.bound _ _).mpr ⟨hq, q, h.eta q⟩

theorem Represents.slot (h : Represents v removed m) {node : Pointer} (hm : m name = some node) :
    name ≠ [] ∧ ∃ q, (v q).name = name ∧ (v q).node = node := by
  obtain ⟨hname, q, hq⟩ := (h.bound _ _).mp hm
  exact ⟨hname, q, by rw [hq], by rw [hq]⟩

theorem Represents.isNamed_iff (h : Represents v removed m) (q : Nat) :
    isNamed name (v q) = true ↔ (v q).name = name := by
  unfold isNamed
  rw [Bool.and_eq_true, beq_iff_eq, beq_iff_eq, h.shape]
  constructor
  · rintro ⟨hlen, htake⟩
    rw [← hlen, List.take_length] at htake
    exact htake
  · rintro rfl
    exact ⟨rfl, List.take_length⟩

theorem Represents.isFree_iff (h : Represents v removed m) (q : Nat) :
    isFree (v q) = true ↔ (v q).name = [] := by
  unfold isFree
  rw [beq_iff_eq, h.shape, List.length_eq_zero_iff]

/-- A free slot takes a name and a node that are not there. -/
theorem Represents.bind (h : Represents v removed m) {q : Nat} {node : Pointer} (hq : (v q).name = [])
    (hname : name ≠ []) (hnone : m name = none) (hnew : ∀ x, m x ≠ some node)
    (hlive : removed node = false) :
    Represents (update v q ⟨node, name.length, name⟩) removed (Function.update m name (some node)) := by
  have hold : ∀ q', q' ≠ q → update v q ⟨node, name.length, name⟩ q' = v q' := fun q' hne => if_neg hne
  have hat : update v q ⟨node, name.length, name⟩ q = ⟨node, name.length, name⟩ := if_pos rfl
  have hother : ∀ q', (v q').name ≠ name := by
    rintro q' rfl
    rw [h.of_slot hname] at hnone
    cases hnone
  have hnode : ∀ q', (v q').name ≠ [] → (v q').node ≠ node := by
    rintro q' hq' rfl
    exact hnew _ (h.of_slot hq')
  refine ⟨fun q' => ?_, fun x y => ?_, fun q1 q2 h1 h12 => ?_, fun q1 q2 h1 h2 h12 => ?_, fun q' hq' => ?_⟩
  · by_cases hne : q' = q
    · rw [hne, hat]
    · rw [hold q' hne]
      exact h.shape q'
  · by_cases hx : x = name
    · subst hx
      rw [Function.update_self]
      constructor
      · intro hy
        cases hy
        exact ⟨hname, q, hat⟩
      · rintro ⟨-, q', hq'⟩
        by_cases hne : q' = q
        · rw [hne, hat] at hq'
          exact congrArg (fun e => some (DirectoryEntry.node e)) hq'
        · rw [hold q' hne] at hq'
          exact absurd (congrArg DirectoryEntry.name hq') (hother q')
    · rw [Function.update_of_ne hx, h.bound]
      constructor
      · rintro ⟨hx', q', hq'⟩
        have hne : q' ≠ q := by
          rintro rfl
          exact hx' (by rw [← hq, hq'])
        exact ⟨hx', q', by rw [hold q' hne]; exact hq'⟩
      · rintro ⟨hx', q', hq'⟩
        have hne : q' ≠ q := by
          rintro rfl
          rw [hat] at hq'
          exact hx (congrArg DirectoryEntry.name hq').symm
        rw [hold q' hne] at hq'
        exact ⟨hx', q', hq'⟩
  · by_cases e1 : q1 = q <;> by_cases e2 : q2 = q
    · rw [e1, e2]
    · rw [e1, hat, hold q2 e2] at h12
      exact absurd h12.symm (hother q2)
    · rw [e2, hat, hold q1 e1] at h12
      exact absurd h12 (hother q1)
    · rw [hold q1 e1, hold q2 e2] at h12
      rw [hold q1 e1] at h1
      exact h.once q1 q2 h1 h12
  · by_cases e1 : q1 = q <;> by_cases e2 : q2 = q
    · rw [e1, e2]
    · rw [e1, hat, hold q2 e2] at h12
      rw [hold q2 e2] at h2
      exact absurd h12.symm (hnode q2 h2)
    · rw [e2, hat, hold q1 e1] at h12
      rw [hold q1 e1] at h1
      exact absurd h12 (hnode q1 h1)
    · rw [hold q1 e1, hold q2 e2] at h12
      rw [hold q1 e1] at h1
      rw [hold q2 e2] at h2
      exact h.nodes q1 q2 h1 h2 h12
  · by_cases hne : q' = q
    · rw [hne, hat]
      exact hlive
    · rw [hold q' hne] at hq' ⊢
      exact h.live q' hq'

/-- Clearing a slot takes its binding out, and marking its node says nothing about the others. -/
theorem Represents.unbind (h : Represents v removed m) {q : Nat} (hq : (v q).name ≠ []) :
    Represents (update v q .null) (fun n => if n = (v q).node then true else removed n)
      (Function.update m (v q).name none) := by
  have hold : ∀ q', q' ≠ q → update v q .null q' = v q' := fun q' hne => if_neg hne
  have hat : update v q .null q = .null := if_pos rfl
  have hused : ∀ q', (update v q .null q').name ≠ [] → q' ≠ q ∧ update v q .null q' = v q' := by
    intro q' hq'
    have hne : q' ≠ q := by
      rintro rfl
      rw [hat] at hq'
      exact hq' rfl
    exact ⟨hne, hold q' hne⟩
  refine ⟨fun q' => ?_, fun x y => ?_, fun q1 q2 h1 h12 => ?_, fun q1 q2 h1 h2 h12 => ?_, fun q' hq' => ?_⟩
  · by_cases hne : q' = q
    · rw [hne, hat]
      rfl
    · rw [hold q' hne]
      exact h.shape q'
  · by_cases hx : x = (v q).name
    · subst hx
      rw [Function.update_self]
      constructor
      · intro hy
        cases hy
      · rintro ⟨-, q', hq'⟩
        obtain ⟨hne, hsame⟩ := hused q' (by rw [hq']; exact hq)
        rw [hsame] at hq'
        have hsame' : (v q').name = (v q).name := by rw [hq']
        exact absurd (h.once q' q (by rw [hsame']; exact hq) hsame') hne
    · rw [Function.update_of_ne hx, h.bound]
      constructor
      · rintro ⟨hx', q', hq'⟩
        have hne : q' ≠ q := by
          rintro rfl
          exact hx (congrArg DirectoryEntry.name hq').symm
        exact ⟨hx', q', by rw [hold q' hne]; exact hq'⟩
      · rintro ⟨hx', q', hq'⟩
        obtain ⟨-, hsame⟩ := hused q' (by rw [hq']; exact hx')
        rw [hsame] at hq'
        exact ⟨hx', q', hq'⟩
  · obtain ⟨-, e1⟩ := hused q1 h1
    obtain ⟨-, e2⟩ := hused q2 (by rw [← h12]; exact h1)
    rw [e1, e2] at h12
    rw [e1] at h1
    exact h.once q1 q2 h1 h12
  · obtain ⟨-, e1⟩ := hused q1 h1
    obtain ⟨-, e2⟩ := hused q2 h2
    rw [e1, e2] at h12
    rw [e1] at h1
    rw [e2] at h2
    exact h.nodes q1 q2 h1 h2 h12
  · obtain ⟨hne, e⟩ := hused q' hq'
    rw [e] at hq' ⊢
    have hother : (v q').node ≠ (v q).node := fun heq => hne (h.nodes q' q hq' hq heq)
    rw [if_neg hother]
    exact h.live q' hq'

/-- The marks of other nodes do not matter. -/
theorem Represents.marks (h : Represents v removed m)
    (hmarks : ∀ n, removed n = false → removed' n = false) : Represents v removed' m :=
  ⟨h.shape, h.bound, h.once, h.nodes, fun q hq => hmarks _ (h.live q hq)⟩

end

/-! ## The calls, by the map -/

/-- The directory holds the map `m`. -/
def Holds (heap : Heap) (d : Directory) (m : Map) : Prop :=
  ∃ k, Blocks heap d k ∧ Represents (view d) d.removed m

section
variable {heap : Heap} {d : Directory} {k : Nat} {m : Map} {name : Name}

theorem Blocks.used (h : Blocks heap d k) {q : Nat} (hq : (view d q).name ≠ []) : q < 128 * k := by
  apply Decidable.byContradiction
  intro hn
  apply hq
  unfold view
  rw [h.no_block (show k ≤ q / 128 by omega)]
  rfl

theorem findEntry_eq (hname : name ≠ []) : findEntry d name =
    (Directory.scan (isNamed name) d d.fuel 0).map fun
      | .found block j => .ok (block, j)
      | .ended _ => .error .notFound := by
  have hlen : name.length ≠ 0 := fun h => hname (List.length_eq_zero_iff.mp h)
  unfold findEntry
  rw [if_neg hlen, if_neg (by decide)]

theorem Blocks.findEntry_spec (h : Blocks heap d k) (hr : Represents (view d) d.removed m)
    (hname : name ≠ []) :
    (∃ q block, (view d q).name = name ∧ d.tree.getWeakBlock (q / 128) = some block ∧
      findEntry d name = some (.ok (block, q % 128))) ∨
    (m name = none ∧ findEntry d name = some (.error .notFound)) := by
  rw [findEntry_eq hname]
  rcases h.scan (isNamed name) with ⟨q, block, -, hp, -, hb, hrun⟩ | ⟨hall, hrun⟩
  · left
    refine ⟨q, block, (hr.isNamed_iff q).mp hp, hb, ?_⟩
    rw [hrun]
    rfl
  · right
    refine ⟨?_, by rw [hrun]; rfl⟩
    cases hm : m name with
    | none => rfl
    | some node =>
      obtain ⟨-, q, hq, -⟩ := hr.slot hm
      have hused : q < 128 * k := h.used (by rw [hq]; exact hname)
      have hfalse := hall q hused
      rw [(hr.isNamed_iff q).mpr hq] at hfalse
      cases hfalse

theorem view_slot {q block : Nat} (hb : d.tree.getWeakBlock (q / 128) = some block) :
    d.slots block (q % 128) = view d q := by
  unfold view
  rw [hb]

theorem Blocks.setSlots (h : Blocks heap d k) (slots : Nat → Nat → DirectoryEntry)
    (removed : Pointer → Bool) : Blocks heap { d with slots := slots, removed := removed } k :=
  ⟨h.level, h.blocks, h.allocated, h.inj⟩

/-- All slots are used by different nodes, and there are no more nodes than addresses. -/
theorem Represents.few (hr : Represents (view d) d.removed m)
    (hall : ∀ q, q < 128 * k → isFree (view d q) = false) : k ≤ 2 ^ 57 := by
  have hused : ∀ q, q < 128 * k → (view d q).name ≠ [] := by
    intro q hq hn
    have hfree := hall q hq
    rw [(hr.isFree_iff q).mpr hn] at hfree
    cases hfree
  have hinj : Function.Injective fun i : Fin (128 * k) => (view d i.val).node := by
    intro i j hij
    exact Fin.ext (hr.nodes _ _ (hused _ i.isLt) (hused _ j.isLt) hij)
  have hcard := Fintype.card_le_of_injective _ hinj
  rw [Fintype.card_fin, Fintype.card_fin] at hcard
  omega

theorem Blocks.grown (h : Blocks heap d k) {block : Nat} {tree : BlockTree}
    {slots : Nat → Nat → DirectoryEntry} (hlevel : tree.level ≤ 9)
    (hblocks : ∀ i, tree.getWeakBlock i = if i = k then some block else d.tree.getWeakBlock i)
    (hmono : d.tree.vectors.allocated ≤ tree.vectors.allocated)
    (hnew : ∀ i, d.tree.getWeakBlock i ≠ some block)
    (hat : ∃ a, a < tree.vectors.allocated ∧ block = heap.address a + dataOffset) :
    Blocks heap { d with tree := tree, slots := slots } (k + 1) := by
  refine ⟨hlevel, fun i => ?_, fun i b hb => ?_, fun i i' b hb hb' => ?_⟩
  · rw [hblocks]
    split
    · simp [*]
    · rw [h.blocks]
      omega
  · rw [hblocks] at hb
    split at hb
    · cases hb
      exact hat
    · obtain ⟨a, ha, heq⟩ := h.allocated i b hb
      exact ⟨a, Nat.lt_of_lt_of_le ha hmono, heq⟩
  · rw [hblocks] at hb hb'
    split at hb <;> split at hb'
    · omega
    · cases hb
      exact absurd hb' (hnew i')
    · cases hb'
      exact absurd hb (hnew i)
    · exact h.inj i i' b hb hb'

/-- What `CreateEntry` does, for `Create` and for `AddNode`. -/
theorem Holds.createEntry (h : Holds heap d m) {node : Pointer} (hname : name ≠ [])
    (hnew : ∀ x, m x ≠ some node) (hlive : d.removed node = false) :
    (m name ≠ none ∧ createEntry heap d ⟨node, name.length, name⟩ = some (.alreadyExists, d)) ∨
    (m name = none ∧ ∃ d', createEntry heap d ⟨node, name.length, name⟩ = some (.success, d') ∧
      Holds heap d' (Function.update m name (some node))) := by
  obtain ⟨k, hb, hr⟩ := h
  unfold Directory.createEntry
  dsimp only
  rcases hb.findEntry_spec hr hname with ⟨q, block, hq, -, hfind⟩ | ⟨hnone, hfind⟩
  · left
    rw [hfind]
    refine ⟨?_, rfl⟩
    rw [← hq, hr.of_slot (by rw [hq]; exact hname)]
    exact fun hc => by cases hc
  · right
    rw [hfind]
    refine ⟨hnone, ?_⟩
    simp only [Option.bind_eq_bind, Option.bind_some]
    rw [if_neg (by decide)]
    rcases hb.scan isFree with ⟨q, block, -, hp, -, hblock, hrun⟩ | ⟨hall, hrun⟩
    · rw [hrun]
      refine ⟨_, rfl, k, hb.setSlots _ _, ?_⟩
      rw [hb.view_setEntry _ _ hblock]
      exact hr.bind ((hr.isFree_iff q).mp hp) hname hnone hnew hlive
    · rw [hrun]
      obtain ⟨block, tree, hget, hlevel, hblocks, hmono, a, ha, ha', heq⟩ := hb.grow (hr.few hall)
      have hfresh : ∀ i, d.tree.getWeakBlock i ≠ some block := by
        intro i hi
        obtain ⟨a', hlt, heq'⟩ := hb.allocated i block hi
        have := heap.injective a a' (by omega)
        omega
      simp only [Option.bind_some, hget]
      refine ⟨_, rfl, k + 1, hb.grown hlevel hblocks hmono hfresh ⟨a, ha', heq⟩, ?_⟩
      rw [hb.view_grow _ hblocks hfresh]
      have hfree : (view d (128 * k)).name = [] := by
        apply Decidable.byContradiction
        intro hn
        have := hb.used hn
        omega
      exact hr.bind hfree hname hnone hnew hlive

theorem Holds.create (h : Holds heap d m) {node : Pointer} (type : FileType) (hname : name ≠ [])
    (hnew : ∀ x, m x ≠ some node) :
    (m name ≠ none ∧ ∃ d', create heap d name type node = some (.alreadyExists, d') ∧
      d'.tree = d.tree ∧ d'.slots = d.slots ∧ Holds heap d' m) ∨
    (m name = none ∧ ∃ d', create heap d name type node = some (.success, d') ∧
      Holds heap d' (Function.update m name (some node))) := by
  obtain ⟨k, hb, hr⟩ := h
  have hmarked : Holds heap { d with removed := fun n => if n = node then false else d.removed n } m := by
    refine ⟨k, hb.setSlots d.slots _, hr.marks fun n hn => ?_⟩
    dsimp only
    split
    · rfl
    · exact hn
  rcases hmarked.createEntry hname hnew (if_pos rfl) with ⟨hm, hrun⟩ | ⟨hm, d', hrun, hd'⟩
  · exact .inl ⟨hm, _, hrun, rfl, rfl, hmarked⟩
  · exact .inr ⟨hm, d', hrun, hd'⟩

theorem Holds.find (h : Holds heap d m) (hname : name ≠ []) :
    find d name = some (match m name with
      | some node => .ok node
      | none => .error .notFound) := by
  obtain ⟨k, hb, hr⟩ := h
  unfold Directory.find
  rcases hb.findEntry_spec hr hname with ⟨q, block, hq, hblock, hfind⟩ | ⟨hnone, hfind⟩
  · have hused : (view d q).name ≠ [] := by rw [hq]; exact hname
    simp only [hfind, Option.bind_eq_bind, Option.bind_some, view_slot hblock, hr.live q hused]
    rw [← hq, hr.of_slot hused]
    rfl
  · simp only [hfind, hnone]
    rfl

theorem Holds.remove (h : Holds heap d m) (hname : name ≠ []) :
    ∃ d', remove d name = some (if m name = none then .notFound else .success, d') ∧
      Holds heap d' (Function.update m name none) := by
  obtain ⟨k, hb, hr⟩ := h
  unfold Directory.remove
  rcases hb.findEntry_spec hr hname with ⟨q, block, hq, hblock, hfind⟩ | ⟨hnone, hfind⟩
  · have hused : (view d q).name ≠ [] := by rw [hq]; exact hname
    have hsome : m name ≠ none := by
      rw [← hq, hr.of_slot hused]
      exact fun hc => by cases hc
    simp only [hfind, Option.bind_eq_bind, Option.bind_some, view_slot hblock, hr.live q hused]
    refine ⟨_, by rw [if_neg hsome]; rfl, k, hb.setSlots _ _, ?_⟩
    rw [hb.view_setEntry _ _ hblock, ← hq]
    exact hr.unbind hused
  · refine ⟨d, by simp only [hfind, if_pos hnone]; rfl, k, hb, ?_⟩
    rw [Function.update_eq_self_iff.mpr hnone.symm]
    exact hr

/-! ## Listing -/

/-- The names of the used slots among `n` from `j` on, in their order. -/
def names (v : Nat → DirectoryEntry) (j n : Nat) : List Name :=
  ((List.range' j n).filter fun q => (v q).length ≠ 0).map fun q => (v q).name.take (v q).length

theorem names_append (v : Nat → DirectoryEntry) (j n n' : Nat) :
    names v j n ++ names v (j + n) n' = names v j (n + n') := by
  unfold names
  rw [← List.map_append, ← List.filter_append, ← List.range'_append_1]

theorem names_shift {v w : Nat → DirectoryEntry} {j i n : Nat} (h : ∀ q, q < n → v (j + q) = w (i + q)) :
    names v j n = names w i n := by
  induction n generalizing j i with
  | zero => rfl
  | succ n ih =>
    have hfirst := h 0 (Nat.succ_pos n)
    have hrest : names v (j + 1) n = names w (i + 1) n := by
      apply ih
      intro q hq
      rw [show j + 1 + q = j + (q + 1) by omega, show i + 1 + q = i + (q + 1) by omega]
      exact h (q + 1) (by omega)
    rw [Nat.add_comm n 1, ← names_append, ← names_append, hrest]
    congr 1
    unfold names
    simp only [Nat.add_zero] at hfirst
    by_cases hused : (w i).length = 0 <;> simp [hfirst, hused]

theorem listBlock_spec (slots : Nat → DirectoryEntry) (k : Nat) : ∀ j remaining acc,
    listBlock slots k j remaining acc =
      (remaining - (names slots j k).length, acc ++ (names slots j k).take remaining) := by
  induction k with
  | zero =>
    intro j remaining acc
    simp [listBlock, names]
  | succ k ih =>
    intro j remaining acc
    rw [listBlock]
    have hsplit : names slots j (k + 1) = names slots j 1 ++ names slots (j + 1) k := by
      rw [names_append, Nat.add_comm]
    by_cases hzero : remaining = 0
    · simp [hzero]
    · rw [if_neg hzero]
      by_cases hused : (slots j).length ≠ 0
      · have hone : names slots j 1 = [(slots j).name.take (slots j).length] := by
          simp [names, hused]
        obtain ⟨r, rfl⟩ := Nat.exists_eq_succ_of_ne_zero hzero
        rw [if_pos hused, ih, hsplit, hone]
        simp [List.take_succ_cons, Nat.succ_sub_succ]
      · have hone : names slots j 1 = [] := by
          simp only [ne_eq, not_not] at hused
          simp [names, hused]
        rw [if_neg hused, ih, hsplit, hone, List.nil_append]

theorem Blocks.listBlocks_spec (h : Blocks heap d k) (fuel : Nat) : ∀ i remaining acc, i ≤ k → k < i + fuel →
    listBlocks d fuel i 0 remaining acc =
      some (remaining - (names (view d) (128 * i) (128 * (k - i))).length,
        acc ++ (names (view d) (128 * i) (128 * (k - i))).take remaining) := by
  induction fuel with
  | zero =>
    intro i remaining acc hi hk
    omega
  | succ fuel ih =>
    intro i remaining acc hi hk
    rw [listBlocks]
    by_cases hend : i = k
    · subst hend
      rw [h.no_block (Nat.le_refl _)]
      simp [names]
    · obtain ⟨block, hb⟩ := h.block (show i < k by omega)
      have hnames : names (d.slots block) 0 128 = names (view d) (128 * i) 128 := by
        apply names_shift
        intro q hq
        rw [Nat.zero_add, view_block hb hq]
      have hsplit : names (view d) (128 * i) (128 * (k - i)) =
          names (view d) (128 * i) 128 ++ names (view d) (128 * (i + 1)) (128 * (k - (i + 1))) := by
        rw [show 128 * (i + 1) = 128 * i + 128 by omega, names_append]
        congr 1
        omega
      rw [hb]
      simp only [entriesPerBlock_eq, Nat.sub_zero, listBlock_spec, hnames]
      rw [ih (i + 1) _ _ (by omega) (by omega), hsplit, List.length_append, List.take_append,
        List.append_assoc, Nat.sub_sub]

theorem names_mem {v : Nat → DirectoryEntry} {removed : Pointer → Bool} (hr : Represents v removed m)
    (n : Nat) (x : Name) : x ∈ names v 0 n ↔ x ≠ [] ∧ ∃ q, q < n ∧ (v q).name = x := by
  unfold names
  simp only [List.mem_map, List.mem_filter, List.mem_range'_1, Nat.zero_add, Nat.zero_le, true_and,
    decide_eq_true_eq, hr.shape, List.take_length, ne_eq, List.length_eq_zero_iff]
  constructor
  · rintro ⟨q, ⟨hq, hne⟩, rfl⟩
    exact ⟨hne, q, hq, rfl⟩
  · rintro ⟨hne, q, hq, rfl⟩
    exact ⟨q, ⟨hq, hne⟩, rfl⟩

theorem names_nodup {v : Nat → DirectoryEntry} {removed : Pointer → Bool} (hr : Represents v removed m)
    (n : Nat) : (names v 0 n).Nodup := by
  unfold names
  apply List.Nodup.map_on
  · intro q hq q' hq' heq
    simp only [List.mem_filter, decide_eq_true_eq, hr.shape] at hq
    simp only [hr.shape, List.take_length] at heq
    exact hr.once q q' (fun hn => hq.2 (List.length_eq_zero_iff.mpr hn)) heq
  · exact List.Nodup.filter _ List.nodup_range'

/-- `List` from the start: all the bound names, or as many of them as there is room for. -/
theorem Holds.list (h : Holds heap d m) (n : Nat) : ∃ bound : List Name, bound.Nodup ∧
    (∀ x, x ∈ bound ↔ m x ≠ none) ∧
    list d n 0 = some (.ok (n - (n - bound.length), bound.take n)) := by
  obtain ⟨k, hb, hr⟩ := h
  refine ⟨names (view d) 0 (128 * k), names_nodup hr _, fun x => ?_, ?_⟩
  · rw [names_mem hr]
    constructor
    · rintro ⟨hx, q, -, rfl⟩
      rw [hr.of_slot hx]
      exact fun hc => by cases hc
    · intro hx
      obtain ⟨node, hm⟩ := Option.ne_none_iff_exists'.mp hx
      obtain ⟨hne, q, hq, -⟩ := hr.slot hm
      exact ⟨hne, q, hb.used (by rw [hq]; exact hne), hq⟩
  · unfold Directory.list
    rw [if_neg (by decide), Nat.zero_div, Nat.zero_mod,
      hb.listBlocks_spec d.fuel 0 n [] (Nat.zero_le _) (by have := hb.fuel; omega)]
    simp

end

/-! ## Sequences of calls -/

inductive Call where
  | create (name : Name) (type : FileType) (node : Pointer)
  | addNode (name : Name) (node : Pointer)
  | find (name : Name)
  | remove (name : Name)
  | list (length : Nat)

inductive Answer where
  | status (status : Status)
  | node (response : Response Pointer)
  | listed (response : Response (Nat × List Name))

def perform (heap : Heap) (d : Directory) : Call → Option (Answer × Directory)
  | .create name type node => (create heap d name type node).map fun r => (.status r.1, r.2)
  | .addNode name node => (addNode heap d name node).map fun r => (.status r.1, r.2)
  | .find name => (find d name).map fun r => (.node r, d)
  | .remove name => (remove d name).map fun r => (.status r.1, r.2)
  | .list length => (list d length 0).map fun r => (.listed r, d)

/-- Names are not empty; a node that is added is new, and not marked for removal. -/
def Admissible (m : Map) (removed : Pointer → Bool) : Call → Prop
  | .create name _ node => name ≠ [] ∧ ∀ x, m x ≠ some node
  | .addNode name node => name ≠ [] ∧ (∀ x, m x ≠ some node) ∧ removed node = false
  | .find name => name ≠ []
  | .remove name => name ≠ []
  | .list _ => True

/-- Adding a binding to a map. -/
def Added (m : Map) (name : Name) (node : Pointer) (a : Answer) (m' : Map) : Prop :=
  (m name ≠ none ∧ a = .status .alreadyExists ∧ m' = m) ∨
  (m name = none ∧ a = .status .success ∧ m' = Function.update m name (some node))

/-- What a map answers, and the map after the call. -/
def Answers (m : Map) : Call → Answer → Map → Prop
  | .create name _ node, a, m' => Added m name node a m'
  | .addNode name node, a, m' => Added m name node a m'
  | .find name, a, m' => m' = m ∧ a = .node (match m name with
      | some node => .ok node
      | none => .error .notFound)
  | .remove name, a, m' => m' = Function.update m name none ∧
      a = .status (if m name = none then .notFound else .success)
  | .list length, a, m' => m' = m ∧ ∀ bound : List Name, bound.Nodup → (∀ x, x ∈ bound ↔ m x ≠ none) →
      bound.length ≤ length → ∃ listed, a = .listed (.ok (bound.length, listed)) ∧ listed.Perm bound

/-- No name is bound twice: two used slots have different names. -/
def Once (d : Directory) : Prop :=
  ∀ q q', (view d q).length ≠ 0 → (view d q).length = (view d q').length →
    (view d q).name = (view d q').name → q = q'

/-- Along the calls the directory answers as the map does. -/
def Behaves (heap : Heap) : Directory → Map → List Call → Prop
  | d, _, [] => Once d
  | d, m, call :: calls => Once d ∧ (Admissible m d.removed call → ∃ a d' m',
      perform heap d call = some (a, d') ∧ Answers m call a m' ∧
      (a = .status .alreadyExists → d'.tree = d.tree ∧ d'.slots = d.slots) ∧ Behaves heap d' m' calls)

section
variable {heap : Heap} {d : Directory} {m : Map} {call : Call}

theorem Holds.once (h : Holds heap d m) : Once d := by
  obtain ⟨k, -, hr⟩ := h
  intro q q' hq _ hname
  refine hr.once q q' (fun hn => hq ?_) hname
  rw [hr.shape, hn]
  rfl

/-- One call. -/
theorem Holds.perform (h : Holds heap d m) (hc : Admissible m d.removed call) : ∃ a d' m',
    perform heap d call = some (a, d') ∧ Answers m call a m' ∧
    (a = .status .alreadyExists → d'.tree = d.tree ∧ d'.slots = d.slots) ∧ Holds heap d' m' := by
  cases call with
  | create name type node =>
    rcases h.create type hc.1 hc.2 with ⟨hm, d', hrun, htree, hslots, hd'⟩ | ⟨hm, d', hrun, hd'⟩
    · refine ⟨.status .alreadyExists, d', m, ?_, .inl ⟨hm, rfl, rfl⟩, fun _ => ⟨htree, hslots⟩, hd'⟩
      simp only [Directory.perform, hrun, Option.map_some]
    · refine ⟨.status .success, d', _, ?_, .inr ⟨hm, rfl, rfl⟩, (fun ha => by cases ha), hd'⟩
      simp only [Directory.perform, hrun, Option.map_some]
  | addNode name node =>
    obtain ⟨hname, hnew, hlive⟩ := hc
    rcases h.createEntry hname hnew hlive with ⟨hm, hrun⟩ | ⟨hm, d', hrun, hd'⟩
    · refine ⟨.status .alreadyExists, d, m, ?_, .inl ⟨hm, rfl, rfl⟩, fun _ => ⟨rfl, rfl⟩, h⟩
      simp only [Directory.perform, addNode, hrun, Option.map_some]
    · refine ⟨.status .success, d', _, ?_, .inr ⟨hm, rfl, rfl⟩, (fun ha => by cases ha), hd'⟩
      simp only [Directory.perform, addNode, hrun, Option.map_some]
  | find name =>
    refine ⟨_, d, m, ?_, ⟨rfl, rfl⟩, (fun ha => by cases ha), h⟩
    simp only [Directory.perform, h.find hc, Option.map_some]
  | remove name =>
    obtain ⟨d', hrun, hd'⟩ := h.remove hc
    refine ⟨_, d', _, ?_, ⟨rfl, rfl⟩, fun ha => ?_, hd'⟩
    · simp only [Directory.perform, hrun, Option.map_some]
    · split at ha <;> cases ha
  | list length =>
    obtain ⟨bound, hnodup, hmem, hrun⟩ := h.list length
    refine ⟨.listed (.ok (length - (length - bound.length), bound.take length)), d, m, ?_,
      ⟨rfl, ?_⟩, (fun ha => by cases ha), h⟩
    · simp only [Directory.perform, hrun, Option.map_some]
    intro others hothers hmem' hlen
    have hperm : bound.Perm others :=
      (List.perm_ext_iff_of_nodup hnodup hothers).mpr fun x => (hmem x).trans (hmem' x).symm
    rw [← hperm.length_eq] at hlen ⊢
    refine ⟨bound, ?_, hperm⟩
    rw [Nat.sub_sub_self hlen, List.take_of_length_le hlen]

theorem Holds.behaves (calls : List Call) : ∀ {d m}, Holds heap d m → Behaves heap d m calls := by
  induction calls with
  | nil =>
    intro d m h
    exact h.once
  | cons call calls ih =>
    intro d m h
    refine ⟨h.once, fun hc => ?_⟩
    obtain ⟨a, d', m', hrun, hans, hsame, hd'⟩ := h.perform hc
    exact ⟨a, d', m', hrun, hans, hsame, ih hd'⟩

/-- A new directory behaves as an empty map. -/
theorem directory_is_map (heap : Heap) (removed : Pointer → Bool) (calls : List Call) :
    Behaves heap (construct removed) (fun _ => none) calls := by
  apply Holds.behaves
  refine ⟨0, blocks_construct heap removed, ?_⟩
  rw [show view (construct removed) = fun _ => .null from funext (view_construct removed)]
  exact represents_empty removed

end

end Directory

end BadLands.Fs.Npfs
