import BadLands.Core.Word
import BadLands.Fs.Status

/-!
# NPFS data nodes

The bytes of an NPFS file are kept in 4096-byte blocks under a tree of junctions with 64
slots each. A junction of depth `d + 1` has children of depth `d`, and a child of depth `0`
is a block, so the type of a tree carries its depth: a tree whose depths do not match cannot
be written down. `DataNode` is the tree together with its depth, which grows when a block id
does not fit.

`GetBlock` returns a pointer into the block and its caller writes through it: here
`getBlock` takes what the caller does with the block (`use`). Heap allocation succeeds.

* `DataNode.getBlock_ok`: below `64 ^ (depth + 4)` it succeeds, and changes only the block it
  is asked for.
* `DataNode.getBlock_fails`: beyond that the five attempts do not reach the id.
-/
namespace BadLands.Fs.Npfs

open BadLands.Core

/-- mirrors kernel/src/fs/NPFS.cpp:32 -/
def blockSize : Nat := 0x1000

/-- mirrors kernel/src/fs/NPFS.cpp:33 -/
def junctionSize : Nat := 64

/-- The contents of a `TerminalDataVector`, by index. -/
abbrev Block := Nat → UInt8

def zeros : Block := fun _ => 0

abbrev StorageTree : Nat → Type
  | 0 => Block
  | d + 1 => Nat → Option (StorageTree d)

abbrev Junction (d : Nat) : Type := Nat → Option (StorageTree d)

def emptyJunction (d : Nat) : Junction d := fun _ => none

def setSlot {d : Nat} (j : Junction d) (i : Nat) (t : StorageTree d) : Junction d :=
  fun k => if k = i then some t else j k

theorem setSlot_same {d : Nat} (j : Junction d) (i : Nat) (t : StorageTree d) : setSlot j i t i = some t :=
  if_pos rfl

theorem setSlot_other {d : Nat} (j : Junction d) {i k : Nat} (t : StorageTree d) (h : k ≠ i) :
    setSlot j i t k = j k := if_neg h

/-- `for (r = 1; r < depth; ++r) reductor *= JUNCTION_SIZE;` -/
def reductor : Nat → Nat
  | d + 2 => Word.mul (reductor (d + 1)) junctionSize
  | _ => 1

/-- `DataJunction::GetWeakBlock` of a junction of depth `d + 1`.
mirrors kernel/src/fs/NPFS.cpp:80-113 -/
def getWeakBlock : (d : Nat) → Junction d → Nat → Option Block
  | 0, junction, blockId => if blockId ≥ junctionSize then none else junction blockId
  | d + 1, junction, blockId =>
    if blockId / reductor (d + 2) ≥ junctionSize then none
    else (junction (blockId / reductor (d + 2))).bind fun sub =>
      getWeakBlock d sub (blockId % reductor (d + 2))

/-- `DataJunction::GetBlock` of a junction of depth `d + 1`.
mirrors kernel/src/fs/NPFS.cpp:115-165 -/
def getBlock (use : Block → Block) : (d : Nat) → Junction d → Nat → Status × Junction d
  | 0, junction, blockId =>
    if blockId ≥ junctionSize then (.outOfBounds, junction)
    else (.success, setSlot junction blockId (use ((junction blockId).getD zeros)))
  | d + 1, junction, blockId =>
    if blockId / reductor (d + 2) ≥ junctionSize then (.outOfBounds, junction)
    else
      let sub := (junction (blockId / reductor (d + 2))).getD (emptyJunction d)
      let r := getBlock use d sub (blockId % reductor (d + 2))
      (r.1, setSlot junction (blockId / reductor (d + 2)) r.2)

/-- mirrors kernel/src/fs/NPFS.cpp:177-223; the depth of the source is `level + 1`. -/
structure DataNode where
  level : Nat
  data : Junction level

namespace DataNode

/-- mirrors kernel/src/fs/NPFS.cpp:183-195 -/
def construct : DataNode := ⟨0, emptyJunction 0⟩

def depth (n : DataNode) : Nat := n.level + 1

def getWeakBlock (n : DataNode) (blockId : Nat) : Option Block := Npfs.getWeakBlock n.level n.data blockId

/-- `data = new DataJunction(depth + 1, data)`. -/
def grow (n : DataNode) : DataNode := ⟨n.level + 1, fun i => if i = 0 then some n.data else none⟩

/-- The `while` of `GetBlock` with `attempts` left; the flag is "not null".
mirrors kernel/src/fs/NPFS.cpp:205-227 -/
def tryBlock (use : Block → Block) (blockId : Nat) : Nat → DataNode → Bool × DataNode
  | 0, n => (false, n)
  | attempts + 1, n =>
    let r := Npfs.getBlock use n.level n.data blockId
    if r.1 = .success then (true, ⟨n.level, r.2⟩)
    else if attempts = 0 then (false, ⟨n.level, r.2⟩)
    else tryBlock use blockId attempts (grow ⟨n.level, r.2⟩)

def getBlock (n : DataNode) (blockId : Nat) (use : Block → Block) : Bool × DataNode :=
  tryBlock use blockId 5 n

end DataNode

/-! ## One level -/

theorem reductor_eq : ∀ {d : Nat}, d ≤ 10 → reductor (d + 1) = 64 ^ d
  | 0, _ => rfl
  | d + 1, h => by
    have ih := reductor_eq (d := d) (by omega)
    have hle : 64 ^ d ≤ 64 ^ 9 := Nat.pow_le_pow_right (by omega) (by omega)
    rw [reductor, ih, junctionSize, Word.mul_eq (by omega), Nat.pow_succ]

theorem div_pow_lt {k d : Nat} : k / 64 ^ d < 64 ↔ k < 64 ^ (d + 1) := by
  rw [Nat.div_lt_iff_lt_mul (Nat.pow_pos (by omega)), Nat.pow_succ, Nat.mul_comm]

/-- The slot of an id within the capacity. -/
theorem in_junction {k d : Nat} (h : k < 64 ^ (d + 1)) : ¬ k / 64 ^ d ≥ junctionSize :=
  Nat.not_le_of_lt (div_pow_lt.mpr h)

theorem beyond_junction {k d : Nat} (h : 64 ^ (d + 1) ≤ k) : k / 64 ^ d ≥ junctionSize :=
  Nat.le_of_not_lt fun hlt => Nat.not_lt_of_le h (div_pow_lt.mp hlt)

theorem eq_of_div_mod {a b r : Nat} (hd : a / r = b / r) (hm : a % r = b % r) : a = b := by
  rw [← Nat.div_add_mod a r, ← Nat.div_add_mod b r, hd, hm]

/-- Ids beyond the capacity have no block. -/
theorem getWeakBlock_none : ∀ {d : Nat} (j : Junction d) {id : Nat}, d ≤ 10 → 64 ^ (d + 1) ≤ id →
    getWeakBlock d j id = none
  | 0, j, id, _, h => if_pos (by simpa [junctionSize] using h)
  | d + 1, j, id, hd, h => by
    rw [getWeakBlock, reductor_eq (by omega), if_pos (beyond_junction h)]

/-- `GetBlock` beyond the capacity changes nothing. -/
theorem getBlock_outOfBounds (use : Block → Block) : ∀ {d : Nat} (j : Junction d) {id : Nat}, d ≤ 10 →
    64 ^ (d + 1) ≤ id → getBlock use d j id = (.outOfBounds, j)
  | 0, j, id, _, h => if_pos (by simpa [junctionSize] using h)
  | d + 1, j, id, hd, h => by
    rw [getBlock, reductor_eq (by omega), if_pos (beyond_junction h)]

theorem getWeakBlock_empty (d k : Nat) : getWeakBlock d (emptyJunction d) k = none := by
  cases d with
  | zero => exact ite_self _
  | succ d => exact ite_self _

/-- Within the capacity it succeeds, uses the block asked for and leaves the others alone. -/
theorem getBlock_success (use : Block → Block) : ∀ {d : Nat} (j : Junction d) (id : Nat), d ≤ 10 →
    id < 64 ^ (d + 1) → ∃ j', getBlock use d j id = (.success, j') ∧
      ∀ k, getWeakBlock d j' k =
        if k = id then some (use ((getWeakBlock d j id).getD zeros)) else getWeakBlock d j k
  | 0, j, id, _, h => by
    have hid : ¬ id ≥ junctionSize := by
      unfold junctionSize
      omega
    refine ⟨_, if_neg hid, fun k => ?_⟩
    by_cases hk : k = id
    · subst hk
      rw [if_pos rfl, getWeakBlock, if_neg hid, getWeakBlock, if_neg hid, setSlot_same]
    · rw [if_neg hk, getWeakBlock, getWeakBlock, setSlot_other _ _ hk]
  | d + 1, j, id, hd, h => by
    have hr := reductor_eq (d := d + 1) (by omega)
    have hpos : 0 < 64 ^ (d + 1) := Nat.pow_pos (by omega)
    have hid := in_junction h
    obtain ⟨sub', hsub, hget⟩ := getBlock_success use
      ((j (id / 64 ^ (d + 1))).getD (emptyJunction d)) (id % 64 ^ (d + 1)) (by omega)
      (Nat.mod_lt _ hpos)
    have hold : ∀ k, getWeakBlock d ((j (id / 64 ^ (d + 1))).getD (emptyJunction d)) k =
        (j (id / 64 ^ (d + 1))).bind fun sub => getWeakBlock d sub k := by
      intro k
      cases j (id / 64 ^ (d + 1)) with
      | none => exact getWeakBlock_empty d k
      | some sub => rfl
    refine ⟨setSlot j (id / 64 ^ (d + 1)) sub', ?_, fun k => ?_⟩
    · rw [getBlock, hr, if_neg hid]
      simp only [hsub]
    · simp only [getWeakBlock, hr, if_neg hid]
      by_cases hq : k / 64 ^ (d + 1) = id / 64 ^ (d + 1)
      · rw [hq, if_neg hid, setSlot_same, Option.bind_some, hget, hold, hold]
        by_cases hm : k % 64 ^ (d + 1) = id % 64 ^ (d + 1)
        · rw [if_pos hm, if_pos (eq_of_div_mod hq hm)]
        · rw [if_neg hm, if_neg fun he => hm (by rw [he]), if_neg hid]
      · have hne : k ≠ id := fun he => hq (by rw [he])
        rw [setSlot_other _ _ hq, if_neg hne]

/-! ## The growing tree -/

namespace DataNode

variable {n : DataNode} {id : Nat} {use : Block → Block}

/-- A new root keeps every block at its id. -/
theorem grow_getWeakBlock (hl : n.level ≤ 9) (k : Nat) :
    n.grow.getWeakBlock k = n.getWeakBlock k := by
  have hgrow : n.grow.getWeakBlock k = if k / reductor (n.level + 2) ≥ junctionSize then none
      else (n.grow.data (k / reductor (n.level + 2))).bind fun sub =>
        Npfs.getWeakBlock n.level sub (k % reductor (n.level + 2)) := rfl
  rw [hgrow, reductor_eq (by omega)]
  by_cases hk : k < 64 ^ (n.level + 1)
  · rw [Nat.div_eq_of_lt hk, Nat.mod_eq_of_lt hk, if_neg (by decide)]
    rfl
  · have hne : k / 64 ^ (n.level + 1) ≠ 0 :=
      Nat.div_ne_zero_iff.mpr ⟨Nat.ne_of_gt (Nat.pow_pos (by decide)), by omega⟩
    have hslot : n.grow.data (k / 64 ^ (n.level + 1)) = none := if_neg hne
    rw [hslot, Option.bind_none, ite_self]
    exact (getWeakBlock_none n.data (by omega) (by omega)).symm

/-- What a successful `GetBlock` leaves. -/
structure Used (n : DataNode) (id : Nat) (use : Block → Block) (n' : DataNode) : Prop where
  level : n'.level ≤ 8
  blocks : ∀ k, n'.getWeakBlock k =
    if k = id then some (use ((n.getWeakBlock id).getD zeros)) else n.getWeakBlock k

/-- A block id of a 64-bit offset does not fit a tree only when the tree can still grow. -/
theorem level_lt (hid : id < 2 ^ 52) (h : 64 ^ (n.level + 1) ≤ id) : n.level < 8 := by
  apply Decidable.byContradiction
  intro hn
  have : 64 ^ 9 ≤ 64 ^ (n.level + 1) := Nat.pow_le_pow_right (by omega) (by omega)
  omega

theorem tryBlock_grows {attempts : Nat} (hl : n.level ≤ 8) (h : 64 ^ (n.level + 1) ≤ id) :
    tryBlock use id (attempts + 2) n = tryBlock use id (attempts + 1) n.grow := by
  rw [tryBlock, getBlock_outOfBounds use n.data (by omega) h]
  simp only [reduceCtorEq, if_false, Nat.succ_ne_zero]

theorem tryBlock_fits {attempts : Nat} (hl : n.level ≤ 8) (h : id < 64 ^ (n.level + 1)) :
    ∃ n', tryBlock use id (attempts + 1) n = (true, n') ∧ Used n id use n' := by
  obtain ⟨j', hj, hget⟩ := getBlock_success use n.data id (by omega) h
  refine ⟨⟨n.level, j'⟩, ?_, hl, hget⟩
  rw [tryBlock, hj]
  simp only [if_true]

theorem tryBlock_ok (hid : id < 2 ^ 52) : ∀ (attempts : Nat) (n : DataNode), n.level ≤ 8 →
    id < 64 ^ (n.level + 1 + attempts) →
    ∃ n', tryBlock use id (attempts + 1) n = (true, n') ∧ Used n id use n'
  | 0, n, hl, h => tryBlock_fits hl h
  | attempts + 1, n, hl, h => by
    by_cases hfit : id < 64 ^ (n.level + 1)
    · exact tryBlock_fits hl hfit
    · have hlt := level_lt hid (Nat.le_of_not_lt hfit)
      have hcap : n.level + 1 + (attempts + 1) = n.grow.level + 1 + attempts := by
        change _ = n.level + 1 + 1 + attempts
        omega
      obtain ⟨n', hn', hused⟩ := tryBlock_ok hid attempts n.grow hlt (hcap ▸ h)
      refine ⟨n', by rw [tryBlock_grows hl (Nat.le_of_not_lt hfit), hn'], hused.level, fun k => ?_⟩
      rw [hused.blocks k, grow_getWeakBlock (by omega), grow_getWeakBlock (by omega)]

theorem tryBlock_fails (hid : id < 2 ^ 52) : ∀ (attempts : Nat) (n : DataNode), n.level ≤ 8 →
    64 ^ (n.level + 1 + attempts) ≤ id → (tryBlock use id (attempts + 1) n).1 = false
  | 0, n, hl, h => by
    rw [tryBlock, getBlock_outOfBounds use n.data (by omega) h]
    rfl
  | attempts + 1, n, hl, h => by
    have hle : 64 ^ (n.level + 1) ≤ 64 ^ (n.level + 1 + (attempts + 1)) :=
      Nat.pow_le_pow_right (by omega) (by omega)
    have hcap : n.level + 1 + (attempts + 1) = n.grow.level + 1 + attempts := by
      change _ = n.level + 1 + 1 + attempts
      omega
    rw [tryBlock_grows hl (by omega)]
    exact tryBlock_fails hid attempts n.grow (level_lt hid (by omega)) (hcap ▸ h)

theorem getBlock_ok (use : Block → Block) (hl : n.level ≤ 8) (hid : id < 2 ^ 52) (h : id < 64 ^ (n.depth + 4)) :
    ∃ n', n.getBlock id use = (true, n') ∧ Used n id use n' :=
  tryBlock_ok hid 4 n hl h

theorem getBlock_fails (use : Block → Block) (hl : n.level ≤ 8) (hid : id < 2 ^ 52) (h : 64 ^ (n.depth + 4) ≤ id) :
    (n.getBlock id use).1 = false :=
  tryBlock_fails hid 4 n hl h

theorem construct_getWeakBlock (k : Nat) : construct.getWeakBlock k = none := ite_self _

end DataNode

end BadLands.Fs.Npfs
