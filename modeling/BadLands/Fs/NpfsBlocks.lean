import BadLands.Fs.NpfsData
import Mathlib.Data.List.Induction

/-!
# Which block an id names

`NpfsData` follows the bytes of the blocks; here the same tree is followed with the addresses
of its vectors, to say which block `GetBlock` and `GetWeakBlock` return. Nothing is freed, so the
`i`-th allocation of a run has an address of its own (`Heap`).

* `getBlock_sparse_array`: along every sequence of `GetBlock` calls with ids below `64 ^ 5`, a
  fixed injective map from ids to blocks gives every answer of `GetBlock` and of `GetWeakBlock`.
-/
namespace BadLands.Fs.Npfs

open BadLands.Core

/-- The addresses of allocations that are never freed. -/
structure Heap where
  address : Nat → Nat
  injective : ∀ i k, address i = address k → i = k
  notNull : ∀ i, address i ≠ 0

/-- `data` follows the virtual table and `depth` in a `TerminalDataVector`. -/
def dataOffset : Nat := 16

/-- Below a junction of depth `d + 1`; a leaf is the address of a `TerminalDataVector`. -/
abbrev VectorTree : Nat → Type
  | 0 => Nat
  | d + 1 => Nat → Option (VectorTree d)

abbrev VectorJunction (d : Nat) : Type := Nat → Option (VectorTree d)

def setVector {d : Nat} (j : VectorJunction d) (i : Nat) (t : VectorTree d) : VectorJunction d :=
  fun k => if k = i then some t else j k

theorem setVector_same {d : Nat} (j : VectorJunction d) (i : Nat) (t : VectorTree d) : setVector j i t i = some t :=
  if_pos rfl

theorem setVector_other {d : Nat} (j : VectorJunction d) {i k : Nat} (t : VectorTree d) (h : k ≠ i) :
    setVector j i t k = j k := if_neg h

/-- mirrors kernel/src/fs/NPFS.cpp:80-113 -/
def weakPointer : (d : Nat) → VectorJunction d → Nat → Option Nat
  | 0, junction, blockId =>
    if blockId ≥ junctionSize then none else (junction blockId).map (· + dataOffset)
  | d + 1, junction, blockId =>
    if blockId / reductor (d + 2) ≥ junctionSize then none
    else (junction (blockId / reductor (d + 2))).bind fun sub =>
      weakPointer d sub (blockId % reductor (d + 2))

/-- The vectors in a junction and the number of allocations so far. -/
structure Vectors (d : Nat) where
  junction : VectorJunction d
  allocated : Nat

/-- mirrors kernel/src/fs/NPFS.cpp:115-165 -/
def pointer (heap : Heap) : (d : Nat) → Vectors d → Nat → Response Nat × Vectors d
  | 0, v, blockId =>
    if blockId ≥ junctionSize then (.error .outOfBounds, v)
    else match v.junction blockId with
      | some tdv => (.ok (tdv + dataOffset), v)
      | none =>
        let tdv := heap.address v.allocated
        (.ok (tdv + dataOffset), ⟨setVector v.junction blockId tdv, v.allocated + 1⟩)
  | d + 1, v, blockId =>
    if blockId / reductor (d + 2) ≥ junctionSize then (.error .outOfBounds, v)
    else
      let sub : Vectors d := match v.junction (blockId / reductor (d + 2)) with
        | some sub => ⟨sub, v.allocated⟩
        | none => ⟨fun _ => none, v.allocated + 1⟩
      let r := pointer heap d sub (blockId % reductor (d + 2))
      (r.1, ⟨setVector v.junction (blockId / reductor (d + 2)) r.2.junction, r.2.allocated⟩)

structure BlockTree where
  level : Nat
  vectors : Vectors level

namespace BlockTree

/-- mirrors kernel/src/fs/NPFS.cpp:183-195 -/
def construct : BlockTree := ⟨0, fun _ => none, 1⟩

def getWeakBlock (n : BlockTree) (blockId : Nat) : Option Nat := weakPointer n.level n.vectors.junction blockId

def grow (n : BlockTree) : BlockTree :=
  ⟨n.level + 1, fun i => if i = 0 then some n.vectors.junction else none, n.vectors.allocated + 1⟩

/-- mirrors kernel/src/fs/NPFS.cpp:205-227 -/
def tryBlock (heap : Heap) (blockId : Nat) : Nat → BlockTree → Option Nat × BlockTree
  | 0, n => (none, n)
  | attempts + 1, n =>
    match pointer heap n.level n.vectors blockId with
    | (.ok block, vectors) => (some block, ⟨n.level, vectors⟩)
    | (.error _, vectors) =>
      if attempts = 0 then (none, ⟨n.level, vectors⟩)
      else tryBlock heap blockId attempts (grow ⟨n.level, vectors⟩)

def getBlock (heap : Heap) (n : BlockTree) (blockId : Nat) : Option Nat × BlockTree :=
  tryBlock heap blockId 5 n

/-- The tree after `GetBlock` was called for each of `ids`. -/
def after (heap : Heap) (ids : List Nat) : BlockTree :=
  ids.foldl (fun n blockId => (n.getBlock heap blockId).2) construct

end BlockTree

/-! ## One level -/

section
variable {heap : Heap} {d id : Nat}

theorem weakPointer_none (j : VectorJunction d) (hd : d ≤ 9) (h : 64 ^ (d + 1) ≤ id) :
    weakPointer d j id = none := by
  cases d with
  | zero => exact if_pos (by simpa [junctionSize] using h)
  | succ d =>
    rw [weakPointer, reductor_eq (by omega), if_pos (beyond_junction h)]

theorem weakPointer_empty (id : Nat) : weakPointer d (fun _ => none) id = none := by
  cases d with
  | zero => exact ite_self _
  | succ d => exact ite_self _

/-- The block of an id, if there is one, is kept; a new one is a new allocation. -/
structure Named (heap : Heap) (block : Nat) (old : Option Nat) (before count : Nat) : Prop where
  mono : before ≤ count
  block : old = some block ∨ old = none ∧ ∃ i, before ≤ i ∧ i < count ∧ block = heap.address i + dataOffset

theorem pointer_outOfBounds (v : Vectors d) (hd : d ≤ 9) (h : 64 ^ (d + 1) ≤ id) :
    pointer heap d v id = (.error .outOfBounds, v) := by
  cases d with
  | zero => exact if_pos (by simpa [junctionSize] using h)
  | succ d =>
    rw [pointer, reductor_eq (by omega), if_pos (beyond_junction h)]

variable (heap) in
theorem pointer_success (v : Vectors d) (hd : d ≤ 9) (h : id < 64 ^ (d + 1)) :
    ∃ block v', pointer heap d v id = (.ok block, v') ∧
      Named heap block (weakPointer d v.junction id) v.allocated v'.allocated ∧
      ∀ k, weakPointer d v'.junction k = if k = id then some block else weakPointer d v.junction k := by
  induction d generalizing id with
  | zero =>
    have hid : ¬ id ≥ junctionSize := by
      unfold junctionSize
      omega
    have hold : weakPointer 0 v.junction id = (v.junction id).map (· + dataOffset) := if_neg hid
    rw [pointer, if_neg hid, hold]
    cases htdv : v.junction id with
    | some tdv =>
      refine ⟨tdv + dataOffset, v, rfl, ⟨Nat.le_refl _, .inl rfl⟩, fun k => ?_⟩
      by_cases hk : k = id
      · rw [if_pos hk, hk, hold, htdv]
        rfl
      · rw [if_neg hk]
    | none =>
      refine ⟨_, _, rfl, ⟨Nat.le_succ _, .inr ⟨rfl, v.allocated, Nat.le_refl _, Nat.lt_succ_self _, rfl⟩⟩, fun k => ?_⟩
      by_cases hk : k = id
      · subst hk
        rw [if_pos rfl, weakPointer, if_neg hid]
        exact congrArg (Option.map _) (setVector_same v.junction k _)
      · rw [if_neg hk, weakPointer, weakPointer]
        exact congrArg (fun t => if k ≥ junctionSize then none else Option.map _ t) (setVector_other v.junction _ hk)
  | succ d ih =>
    have hr := reductor_eq (d := d + 1) (by omega)
    have hpos : 0 < 64 ^ (d + 1) := Nat.pow_pos (by omega)
    have hid := in_junction h
    -- the child that is followed: the one in the slot, or a new empty one
    obtain ⟨sub, hsub, hle, hold⟩ : ∃ sub : Vectors d,
        (match v.junction (id / 64 ^ (d + 1)) with
          | some sub => (⟨sub, v.allocated⟩ : Vectors d)
          | none => ⟨fun _ => none, v.allocated + 1⟩) = sub ∧ v.allocated ≤ sub.allocated ∧
        ∀ k, weakPointer d sub.junction k =
          (v.junction (id / 64 ^ (d + 1))).bind fun sub => weakPointer d sub k := by
      cases v.junction (id / 64 ^ (d + 1)) with
      | some sub => exact ⟨_, rfl, Nat.le_refl _, fun k => rfl⟩
      | none => exact ⟨_, rfl, Nat.le_succ _, fun k => weakPointer_empty k⟩
    obtain ⟨block, sub', hget, hnamed, hblocks⟩ := ih sub (by omega) (Nat.mod_lt id hpos)
    have hweak : weakPointer (d + 1) v.junction id = weakPointer d sub.junction (id % 64 ^ (d + 1)) := by
      rw [weakPointer, hr, if_neg hid, hold]
    refine ⟨block, ⟨setVector v.junction (id / 64 ^ (d + 1)) sub'.junction, sub'.allocated⟩, ?_, ?_, fun k => ?_⟩
    · rw [pointer, hr, if_neg hid]
      simp only [hsub, hget]
    · rw [hweak]
      refine ⟨Nat.le_trans hle hnamed.mono, hnamed.block.imp_right fun ⟨hn, i, h1, h2, h3⟩ => ⟨hn, i, ?_, h2, h3⟩⟩
      exact Nat.le_trans hle h1
    · simp only [weakPointer, hr]
      by_cases hq : k / 64 ^ (d + 1) = id / 64 ^ (d + 1)
      · rw [hq, if_neg hid, setVector_same, Option.bind_some, hblocks, hold]
        by_cases hm : k % 64 ^ (d + 1) = id % 64 ^ (d + 1)
        · rw [if_pos hm, if_pos (eq_of_div_mod hq hm)]
        · rw [if_neg hm, if_neg fun he => hm (by rw [he]), if_neg hid]
      · have hne : k ≠ id := fun he => hq (by rw [he])
        rw [setVector_other _ _ hq, if_neg hne]

end

/-! ## The growing tree -/

namespace BlockTree

section
variable {heap : Heap} {n : BlockTree} {id : Nat}

/-- A new root keeps every block at its id. -/
theorem grow_getWeakBlock (hl : n.level ≤ 8) (k : Nat) : n.grow.getWeakBlock k = n.getWeakBlock k := by
  have hgrow : n.grow.getWeakBlock k = if k / reductor (n.level + 2) ≥ junctionSize then none
      else (n.grow.vectors.junction (k / reductor (n.level + 2))).bind fun sub =>
        weakPointer n.level sub (k % reductor (n.level + 2)) := rfl
  rw [hgrow, reductor_eq (by omega)]
  by_cases hk : k < 64 ^ (n.level + 1)
  · rw [Nat.div_eq_of_lt hk, Nat.mod_eq_of_lt hk, if_neg (by decide)]
    rfl
  · have hne : k / 64 ^ (n.level + 1) ≠ 0 :=
      Nat.div_ne_zero_iff.mpr ⟨Nat.ne_of_gt (Nat.pow_pos (by decide)), by omega⟩
    have hslot : n.grow.vectors.junction (k / 64 ^ (n.level + 1)) = none := if_neg hne
    rw [hslot, Option.bind_none, ite_self]
    exact (weakPointer_none n.vectors.junction (by omega) (by omega)).symm

/-- What a successful `GetBlock` returns and leaves. -/
structure Got (heap : Heap) (n : BlockTree) (id block : Nat) (n' : BlockTree) : Prop where
  level : n'.level ≤ 4
  named : Named heap block (n.getWeakBlock id) n.vectors.allocated n'.vectors.allocated
  blocks : ∀ k, n'.getWeakBlock k = if k = id then some block else n.getWeakBlock k

/-- An id within the capacity of the tree. -/
theorem tryBlock_within (heap : Heap) (attempts : Nat) (hl : n.level ≤ 9) (h : id < 64 ^ (n.level + 1)) :
    ∃ block v', tryBlock heap id (attempts + 1) n = (some block, ⟨n.level, v'⟩) ∧
      Named heap block (n.getWeakBlock id) n.vectors.allocated v'.allocated ∧
      ∀ k, weakPointer n.level v'.junction k = if k = id then some block else n.getWeakBlock k := by
  obtain ⟨block, v', hv, hnamed, hblocks⟩ := pointer_success heap n.vectors hl h
  refine ⟨block, v', ?_, hnamed, hblocks⟩
  rw [tryBlock, hv]

/-- Beyond it the tree grows by a level. -/
theorem tryBlock_grows (heap : Heap) (attempts : Nat) (hl : n.level ≤ 9) (h : 64 ^ (n.level + 1) ≤ id) :
    tryBlock heap id (attempts + 2) n = tryBlock heap id (attempts + 1) n.grow := by
  rw [tryBlock, pointer_outOfBounds n.vectors hl h]
  rfl

theorem tryBlock_fits {attempts : Nat} (hl : n.level ≤ 4) (h : id < 64 ^ (n.level + 1)) :
    ∃ block n', tryBlock heap id (attempts + 1) n = (some block, n') ∧ Got heap n id block n' := by
  obtain ⟨block, v', hv, hnamed, hblocks⟩ := tryBlock_within heap attempts (by omega) h
  exact ⟨block, ⟨n.level, v'⟩, hv, hl, hnamed, hblocks⟩

/-- The attempts left are enough for the levels that are missing. -/
theorem tryBlock_ok (hid : id < 64 ^ 5) (attempts : Nat) :
    ∀ n : BlockTree, n.level ≤ 4 → 4 ≤ n.level + attempts →
    ∃ block n', tryBlock heap id (attempts + 1) n = (some block, n') ∧ Got heap n id block n' := by
  induction attempts with
  | zero =>
    intro n hl hfour
    have hfull : n.level = 4 := by omega
    exact tryBlock_fits hl (by rwa [hfull])
  | succ attempts ih =>
    intro n hl hfour
    by_cases hfit : id < 64 ^ (n.level + 1)
    · exact tryBlock_fits hl hfit
    · have hlt : n.level < 4 := by
        apply Decidable.byContradiction
        intro hn
        have : 64 ^ 5 ≤ 64 ^ (n.level + 1) := Nat.pow_le_pow_right (by omega) (by omega)
        omega
      have hstep := tryBlock_grows heap attempts (by omega) (Nat.le_of_not_lt hfit)
      obtain ⟨block, n', hn', hgot⟩ := ih n.grow hlt (by change 4 ≤ n.level + 1 + attempts; omega)
      refine ⟨block, n', hstep.trans hn', hgot.level, ?_, fun k => ?_⟩
      · obtain ⟨hmono, hblock⟩ := hgot.named
        rw [grow_getWeakBlock (by omega)] at hblock
        refine ⟨Nat.le_of_succ_le hmono, hblock.imp_right fun ⟨hn, i, h1, h2, h3⟩ => ⟨hn, i, Nat.le_of_succ_le h1, h2, h3⟩⟩
      · rw [hgot.blocks k, grow_getWeakBlock (by omega)]

theorem getBlock_ok (heap : Heap) (hl : n.level ≤ 4) (hid : id < 64 ^ 5) :
    ∃ block n', n.getBlock heap id = (some block, n') ∧ Got heap n id block n' :=
  tryBlock_ok hid 4 n hl (by omega)

/-! ## Sequences of calls -/

/-- Blocks are allocations made so far, each under one id. -/
structure Distinct (heap : Heap) (n : BlockTree) : Prop where
  level : n.level ≤ 4
  allocated : ∀ k block, n.getWeakBlock k = some block →
    ∃ i, i < n.vectors.allocated ∧ block = heap.address i + dataOffset
  inj : ∀ k k' block, n.getWeakBlock k = some block → n.getWeakBlock k' = some block → k = k'

theorem distinct_construct (heap : Heap) : Distinct heap construct :=
  ⟨by decide, fun _ _ h => (by cases h.symm.trans (weakPointer_empty _)), fun _ _ _ h =>
    (by cases h.symm.trans (weakPointer_empty _))⟩

theorem Got.distinct {block : Nat} {n' : BlockTree} (h : Got heap n id block n') (hd : Distinct heap n) :
    Distinct heap n' := by
  -- the returned block has no other id
  have hother : ∀ k, n.getWeakBlock k = some block → k = id := fun k hk => by
    rcases h.named.block with hold | ⟨-, i, hi, -, hblock⟩
    · exact hd.inj k id block hk hold
    · obtain ⟨i', hi', hblock'⟩ := hd.allocated k block hk
      have := heap.injective i i' (Nat.add_right_cancel (hblock.symm.trans hblock'))
      omega
  refine ⟨h.level, fun k b hk => ?_, fun k k' b hk hk' => ?_⟩
  · rw [h.blocks k] at hk
    split at hk
    · cases hk
      rcases h.named.block with hold | ⟨-, i, -, hi, hblock⟩
      · obtain ⟨i, hi, hblock⟩ := hd.allocated id block hold
        exact ⟨i, Nat.lt_of_lt_of_le hi h.named.mono, hblock⟩
      · exact ⟨i, hi, hblock⟩
    · obtain ⟨i, hi, hblock⟩ := hd.allocated k b hk
      exact ⟨i, Nat.lt_of_lt_of_le hi h.named.mono, hblock⟩
  · rw [h.blocks] at hk hk'
    split at hk
    · rename_i hkid
      cases hk
      split at hk'
      · rename_i hkid'
        exact hkid.trans hkid'.symm
      · exact hkid.trans (hother k' hk').symm
    · split at hk'
      · rename_i hkid'
        cases hk'
        exact (hother k hk).trans hkid'.symm
      · exact hd.inj k k' b hk hk'

theorem after_concat (heap : Heap) (ids : List Nat) (id : Nat) :
    after heap (ids ++ [id]) = ((after heap ids).getBlock heap id).2 := by
  simp [after]

/-- After a sequence of calls: exactly the requested ids have a block. -/
theorem after_spec (heap : Heap) (ids : List Nat) (h : ∀ id ∈ ids, id < 64 ^ 5) :
    Distinct heap (after heap ids) ∧ ∀ k, ((after heap ids).getWeakBlock k).isSome ↔ k ∈ ids := by
  induction ids using List.reverseRecOn with
  | nil =>
    refine ⟨distinct_construct heap, fun k => ?_⟩
    have : (after heap []).getWeakBlock k = none := weakPointer_empty k
    simp [this]
  | append_singleton ids id ih =>
    obtain ⟨hd, hseen⟩ := ih fun k hk => h k (List.mem_append_left _ hk)
    obtain ⟨block, n', hn', hgot⟩ := getBlock_ok heap hd.level (h id (by simp))
    rw [after_concat, hn']
    refine ⟨hgot.distinct hd, fun k => ?_⟩
    rw [hgot.blocks k, List.mem_append, List.mem_singleton]
    by_cases hk : k = id
    · simp [hk]
    · rw [if_neg hk, hseen k]
      simp [hk]

/-- Later calls keep the blocks there are. -/
theorem after_keeps (heap : Heap) (pre post : List Nat) (h : ∀ id ∈ pre ++ post, id < 64 ^ 5) {k block : Nat}
    (hk : (after heap pre).getWeakBlock k = some block) : (after heap (pre ++ post)).getWeakBlock k = some block := by
  induction post using List.reverseRecOn with
  | nil => rwa [List.append_nil]
  | append_singleton post id ih =>
    rw [← List.append_assoc] at h ⊢
    have hpre : ∀ i ∈ pre ++ post, i < 64 ^ 5 := fun i hi => h i (List.mem_append_left _ hi)
    obtain ⟨hd, -⟩ := after_spec heap (pre ++ post) hpre
    obtain ⟨b, n', hn', hgot⟩ := getBlock_ok heap hd.level (h id (by simp))
    have hold := ih hpre
    rw [after_concat, hn', hgot.blocks k]
    split
    · rename_i hkid
      subst hkid
      rcases hgot.named.block with hsame | ⟨hnone, -⟩
      · rw [← hsame, hold]
      · rw [hold] at hnone
        cases hnone
    · exact hold

/-- The block tree is a sparse array: with ids below `64 ^ 5`, one injective map from ids to blocks
gives the answer of every `GetBlock` of the sequence and of every `GetWeakBlock` between them. -/
theorem getBlock_sparse_array (heap : Heap) (ids : List Nat) (h : ∀ id ∈ ids, id < 64 ^ 5) :
    ∃ block : Nat → Nat, (∀ i ∈ ids, ∀ k ∈ ids, block i = block k → i = k) ∧
      (∀ pre id post, ids = pre ++ id :: post → ((after heap pre).getBlock heap id).1 = some (block id)) ∧
      ∀ pre post, ids = pre ++ post →
        ∀ k, (after heap pre).getWeakBlock k = if k ∈ pre then some (block k) else none := by
  obtain ⟨hd, hseen⟩ := after_spec heap ids h
  have hblock : ∀ k ∈ ids, (after heap ids).getWeakBlock k = some (((after heap ids).getWeakBlock k).getD 0) :=
    fun k hk => by
      obtain ⟨b, hb⟩ := Option.isSome_iff_exists.mp ((hseen k).mpr hk)
      rw [hb]
      rfl
  have hprior : ∀ pre post, ids = pre ++ post → ∀ k, (after heap pre).getWeakBlock k =
      if k ∈ pre then some (((after heap ids).getWeakBlock k).getD 0) else none := by
    intro pre post hids k
    obtain ⟨-, hseen'⟩ := after_spec heap pre fun i hi => h i (hids ▸ List.mem_append_left _ hi)
    split
    · rename_i hk
      obtain ⟨b, hb⟩ := Option.isSome_iff_exists.mp ((hseen' k).mpr hk)
      have hfinal := after_keeps heap pre post (hids ▸ h) hb
      rw [hids, hfinal, hb]
      rfl
    · rename_i hk
      exact Option.not_isSome_iff_eq_none.mp fun hn => hk ((hseen' k).mp hn)
  refine ⟨fun k => ((after heap ids).getWeakBlock k).getD 0, fun i hi k hk he => ?_, fun pre id post hids => ?_, hprior⟩
  · exact hd.inj i k _ (hblock i hi) ((hblock k hk).trans (congrArg some he.symm))
  · have hpre : ∀ i ∈ pre, i < 64 ^ 5 := fun i hi => h i (hids ▸ List.mem_append_left _ hi)
    obtain ⟨hdpre, -⟩ := after_spec heap pre hpre
    obtain ⟨b, n', hn', hgot⟩ := getBlock_ok heap hdpre.level (h id (hids ▸ by simp))
    have hthis := hprior (pre ++ [id]) post (by rw [hids]; simp) id
    rw [after_concat, hn', hgot.blocks id, if_pos rfl, if_pos (by simp)] at hthis
    rw [hn', hthis]

/-- Allocations a page apart. -/
def pageHeap : Heap := ⟨fun i => 0x100000 + 0x2000 * i, fun i k h => by omega, fun i => by omega⟩

theorem getBlock_sparse_array_three_ids : ∃ block : Nat → Nat,
    (∀ i ∈ [5, 64 ^ 4, 5], ∀ k ∈ [5, 64 ^ 4, 5], block i = block k → i = k) ∧
      (∀ pre id post, [5, 64 ^ 4, 5] = pre ++ id :: post →
        ((after pageHeap pre).getBlock pageHeap id).1 = some (block id)) ∧
      ∀ pre post, [5, 64 ^ 4, 5] = pre ++ post →
        ∀ k, (after pageHeap pre).getWeakBlock k = if k ∈ pre then some (block k) else none :=
  getBlock_sparse_array pageHeap [5, 64 ^ 4, 5] (by decide)

end

end BlockTree

end BadLands.Fs.Npfs
