import BadLands.Core.Ranges
import BadLands.Core.Word
import BadLands.Mm.HeapTreeAvl
import BadLands.Mm.Layout

/-!
# The kernel heap

`Allocate` takes a free node found by `BestFind`, carves the block from its tail, or hands out
the whole node when what would be left is too small for a node, or extends the arena. `Free`
inserts the block into the free tree. There is no coalescing.

A record of the memory (a free `Node` or the header of a live block) is identified by its
address; `heap_tiled` shows that records never overlap, which is what makes the field-wise
memory of `HeapTree` a faithful view. The loops get fuel for one node per address of the
64-bit address space, which is never used up.

Between the calls owners of live blocks write their payloads (`Op.write`); every outcome of
`VirtualMemory::AllocateKernelHeap` that is null or a fresh page-aligned range is allowed.
-/
namespace BadLands.Mm.Heap

open BadLands.Core BadLands.Core.Avl BadLands.Core.Machine BadLands.Core.Ranges
open BadLands.Mm.HeapTree BadLands.Mm.Layout

def arenaAlignment : Nat := 8

def sizeofAllocatedNode : Nat := 8

def sizeofNode : Nat := 40

def maxNodes : Nat := 2 ^ 64

/-! ## BestFind -/

/-- A candidate that is too small counts as none. -/
def dropSmall (size : Nat) (c : Nat × Nat) : Nat × Nat := if c.2 < size then (0, 0) else c

/-- An entry of `nodes` and `sizes` after the first loop. -/
def candidate (m : Mem) (size n : Nat) : Nat × Nat :=
  dropSmall size (n, if n = 0 then 0 else m.size n)

def pick (size : Nat) (best c : Nat × Nat) : Nat × Nat :=
  if c.2 > 0 ∧ c.2 < best.2 ∧ c.2 ≥ size then c else best

/-- mirrors kernel/src/mm/Heap.cpp:367-403 -/
def bestFind (m : Mem) (size : Nat) : Nat → Nat → Option Nat
  | 0, _ => none
  | fuel + 1, root =>
    if root = 0 then some 0
    else if m.size root = size then some root
    else
      (bestFind m size fuel (m.left root)).bind fun left =>
        if left ≠ 0 ∧ m.size left = size then some left
        else
          (bestFind m size fuel (m.right root)).map fun right =>
            (pick size (pick size (candidate m size root) (candidate m size left))
              (candidate m size right)).1

/-! ## Allocate and Free -/

/-- mirrors kernel/src/mm/Heap.cpp:432-436 -/
def align (size : Nat) : Nat :=
  let misalignment := size % arenaAlignment
  if misalignment ≠ 0 then Word.add size (arenaAlignment - misalignment) else size

/-- The size of the block for a request: header included, at least a node, aligned.
mirrors kernel/src/mm/Heap.cpp:426-436 -/
def blockSize (size : Nat) : Nat :=
  let size := Word.add size sizeofAllocatedNode
  align (if size < sizeofNode then sizeofNode else size)

/-- The size of a new arena.
mirrors kernel/src/mm/Heap.cpp:406-408 -/
def arenaSize (size : Nat) : Nat :=
  Word.mul (Word.add (Word.mul 2 size) (pageSize - 1) / pageSize) pageSize

/-- `memset(ptr, 0, size)` on the records in the range. -/
def clear (m : Mem) (ptr size : Nat) : Mem where
  size x := if ptr ≤ x ∧ x < ptr + size then 0 else m.size x
  left x := if ptr ≤ x ∧ x < ptr + size then 0 else m.left x
  right x := if ptr ≤ x ∧ x < ptr + size then 0 else m.right x
  parent x := if ptr ≤ x ∧ x < ptr + size then 0 else m.parent x
  height x := if ptr ≤ x ∧ x < ptr + size then 0 else m.height x

/-- The memory, the root and the block; `arena` is what `AllocateKernelHeap` returned.
mirrors kernel/src/mm/Heap.cpp:405-467 -/
def allocate (m : Mem) (root size arena : Nat) : Option (Mem × Nat × Nat) :=
  let size := blockSize size
  (bestFind m size maxNodes root).bind fun node =>
    if node = 0 then
      if arena = 0 then some (m, root, 0)
      else
        let m := (clear m arena (arenaSize size)).setSize arena (arenaSize size)
        let pointer := Word.sub (Word.add arena (m.size arena)) size
        let m := (m.setSize arena (Word.sub (m.size arena) size)).setSize pointer size
        (m.insert maxNodes root arena).map fun r => (r.1, r.2, Word.add pointer sizeofAllocatedNode)
    else if m.size node > size ∧ Word.sub (m.size node) size ≥ sizeofNode then
      let pointer := Word.sub (Word.add node (m.size node)) size
      let m := m.setSize pointer size
      some (m.setSize node (Word.sub (m.size node) size), root, Word.add pointer sizeofAllocatedNode)
    else
      (m.delete maxNodes root node).map fun r =>
        (r.1.setSize node (r.1.size node), r.2, Word.add node sizeofAllocatedNode)

/-- mirrors kernel/src/mm/Heap.cpp:469-473 -/
def free (m : Mem) (root pointer : Nat) : Option (Mem × Nat) :=
  m.insert maxNodes root (Word.sub pointer sizeofAllocatedNode)

/-- `CreateAVLHeap`: the root node, null if there is no memory.
mirrors kernel/src/mm/Heap.cpp:479-512 -/
def create (m : Mem) (arena : Nat) : Mem × Nat :=
  if arena = 0 then (m, 0)
  else (((clear m arena (16 * pageSize)).setSize arena (16 * pageSize)).makeLeaf arena 0, arena)

/-! ## The system -/

/-- A block in use: the pointer handed out and the size asked for. -/
structure Live where
  ptr : Nat
  request : Nat
  deriving DecidableEq, Repr

def Live.header (b : Live) : Nat := b.ptr - sizeofAllocatedNode

structure Sys where
  mem : Mem
  root : Nat
  live : List Live
  arenas : List Range

inductive Op where
  | allocate (size arena : Nat)
  | free (b : Live)
  | write (f : Mem)

/-- `x` lies behind the header of a live block. -/
def Sys.InPayload (s : Sys) (x : Nat) : Prop :=
  ∃ b ∈ s.live, b.header < x ∧ x < b.header + s.mem.size b.header

instance (s : Sys) (x : Nat) : Decidable (s.InPayload x) :=
  inferInstanceAs (Decidable (∃ b ∈ s.live, _))

instance (s : Sys) (x : Nat) : Decidable (∃ b ∈ s.live, x = b.header) := inferInstance

/-- The owners write their payloads: everything in live blocks but the header's size. -/
def Sys.scribble (s : Sys) (f : Mem) : Mem :=
  let own := fun x => s.InPayload x ∨ ∃ b ∈ s.live, x = b.header
  { size := fun x => if s.InPayload x then f.size x else s.mem.size x
    left := fun x => if own x then f.left x else s.mem.left x
    right := fun x => if own x then f.right x else s.mem.right x
    parent := fun x => if own x then f.parent x else s.mem.parent x
    height := fun x => if own x then f.height x else s.mem.height x }

/-- Null, or a page-aligned range disjoint from the arenas obtained before. -/
def Fresh (arenas : List Range) (p n : Nat) : Prop :=
  p = 0 ∨ (p % pageSize = 0 ∧ p + n ≤ 2 ^ 64 ∧ ∀ r ∈ arenas, (Range.mk p n).Disj r)

instance (arenas : List Range) (p n : Nat) : Decidable (Fresh arenas p n) :=
  inferInstanceAs (Decidable (_ ∨ _))

/-- The calls that a run may contain. -/
def Admissible (s : Sys) : Op → Prop
  | .allocate size arena => size < 2 ^ 62 ∧ Fresh s.arenas arena (arenaSize (blockSize size))
  | .free b => b ∈ s.live
  | .write _ => True

instance (s : Sys) : ∀ op : Op, Decidable (Admissible s op)
  | .allocate _ _ => inferInstanceAs (Decidable (_ ∧ _))
  | .free b => inferInstanceAs (Decidable (b ∈ s.live))
  | .write _ => inferInstanceAs (Decidable True)

/-- The arenas after `Allocate`: it extends when `BestFind` finds nothing. -/
def arenasAfter (s : Sys) (size arena : Nat) : List Range :=
  if bestFind s.mem (blockSize size) maxNodes s.root = some 0 ∧ arena ≠ 0 then
    ⟨arena, arenaSize (blockSize size)⟩ :: s.arenas
  else s.arenas

def exec (s : Sys) : Op → Option Sys
  | .allocate size arena =>
    (allocate s.mem s.root size arena).map fun r =>
      { mem := r.1
        root := r.2.1
        live := if r.2.2 = 0 then s.live else ⟨r.2.2, size⟩ :: s.live
        arenas := arenasAfter s size arena }
  | .free b =>
    (free s.mem s.root b.ptr).map fun r => { s with mem := r.1, root := r.2, live := s.live.erase b }
  | .write f => some { s with mem := s.scribble f }

def step (s : Sys) (op : Op) : Option Sys := if Admissible s op then exec s op else none

/-- The state after `Heap::Create`. -/
def boot (m : Mem) (arena : Nat) : Sys :=
  let r := create m arena
  ⟨r.1, r.2, [], if arena = 0 then [] else [⟨arena, 16 * pageSize⟩]⟩

/-! ## The property -/

def nodeRange (m : Mem) (a : Nat) : Range := ⟨a, m.size a⟩

/-- The free nodes `ks` and the live blocks. -/
def records (m : Mem) (ks : List Nat) (live : List Live) : List Range :=
  ks.map (nodeRange m) ++ live.map fun b => nodeRange m b.header

/-- The free nodes are those of an AVL tree under the root; free nodes and live blocks are
disjoint and tile the arenas; their sizes are aligned and fit a node; every live block offers
what was asked for. -/
structure Tiled (s : Sys) (t : SearchTree Nat) : Prop where
  root : s.root = ptr t
  avl : IsAvl s.mem t
  disjoint : Packed (records s.mem t.keys s.live)
  tiles : ∀ x, Holds (records s.mem t.keys s.live) x ↔ Holds s.arenas x
  sizes : ∀ r ∈ records s.mem t.keys s.live, r.size % arenaAlignment = 0 ∧ sizeofNode ≤ r.size
  offers : ∀ b ∈ s.live, sizeofAllocatedNode + b.request ≤ s.mem.size b.header

/-- `Tiled`, and the arenas lie in the address space behind the null page. -/
structure Inv (s : Sys) (t : SearchTree Nat) : Prop extends Tiled s t where
  space : ∀ r ∈ s.arenas, 0 < r.start ∧ r.start + r.size ≤ 2 ^ 64
  ptrs : ∀ b ∈ s.live, sizeofAllocatedNode ≤ b.ptr

/-! ## Sizes -/

theorem align_spec {n : Nat} (h : n < 2 ^ 63) :
    align n % arenaAlignment = 0 ∧ n ≤ align n ∧ align n < n + 8 := by
  by_cases hm : n % arenaAlignment ≠ 0
  · have he : align n = Word.add n (arenaAlignment - n % arenaAlignment) := if_pos hm
    unfold arenaAlignment at *
    rw [he, Word.add_eq (by omega)]
    omega
  · have he : align n = n := if_neg hm
    rw [he]
    exact ⟨Classical.not_not.mp hm, by omega, by omega⟩

theorem blockSize_spec {size : Nat} (h : size < 2 ^ 62) :
    blockSize size % arenaAlignment = 0 ∧ sizeofNode ≤ blockSize size ∧
      sizeofAllocatedNode + size ≤ blockSize size ∧ blockSize size < 2 ^ 62 + 48 := by
  have hadd : Word.add size sizeofAllocatedNode = size + 8 := Word.add_eq (by
    unfold sizeofAllocatedNode
    omega)
  have he : blockSize size = align (if size + 8 < sizeofNode then sizeofNode else size + 8) := by
    simp only [blockSize, hadd]
  rw [he]
  by_cases hs : size + 8 < sizeofNode
  · rw [if_pos hs]
    have hal := align_spec (n := sizeofNode) (by decide)
    unfold sizeofNode sizeofAllocatedNode at *
    omega
  · rw [if_neg hs]
    have hal := align_spec (n := size + 8) (by omega)
    unfold sizeofNode sizeofAllocatedNode at *
    omega

theorem arenaSize_spec {n : Nat} (h0 : sizeofNode ≤ n) (h : n < 2 ^ 62 + 48) :
    arenaSize n % arenaAlignment = 0 ∧ 2 * n ≤ arenaSize n ∧ arenaSize n < 2 ^ 64 := by
  simp only [arenaSize, sizeofNode, arenaAlignment, pageSize] at *
  rw [Word.mul_eq (a := 2) (by omega), Word.add_eq (by omega), Word.mul_eq (by omega)]
  omega

/-! ## BestFind -/

theorem pick_cases (size : Nat) (best c : Nat × Nat) :
    pick size best c = best ∨ pick size best c = c := by
  unfold pick
  split
  · exact .inr rfl
  · exact .inl rfl

theorem candidate_cases (m : Mem) (size n : Nat) :
    (candidate m size n).1 = 0 ∨ ((candidate m size n).1 = n ∧ size ≤ m.size n) := by
  by_cases h0 : n = 0
  · rw [h0, candidate, dropSmall, if_pos rfl]
    split <;> exact .inl rfl
  · rw [candidate, dropSmall, if_neg h0]
    split
    · exact .inl rfl
    · rename_i hge
      exact .inr ⟨rfl, Nat.not_lt.mp hge⟩

/-- `BestFind` returns null or a node of the tree that is large enough. -/
theorem bestFind_spec {m : Mem} {size : Nat} (h0 : 0 < size) : ∀ (t : SearchTree Nat) (p fuel : Nat),
    Rep m t p → t.keys.length < fuel →
    ∃ a, bestFind m size fuel (ptr t) = some a ∧ (a = 0 ∨ (a ∈ t.keys ∧ size ≤ m.size a))
  | .nil, _, fuel, _, hf => by
    obtain ⟨k, rfl⟩ : ∃ k, fuel = k + 1 := ⟨fuel - 1, by simp at hf; omega⟩
    exact ⟨0, rfl, .inl rfl⟩
  | .node l b r, p, fuel, ⟨hb0, hl, hr, _, _, hrl, hrr⟩, hf => by
    simp only [keys_node, List.length_append, List.length_cons] at hf
    obtain ⟨k, rfl⟩ : ∃ k, fuel = k + 1 := ⟨fuel - 1, by omega⟩
    rw [ptr_node, bestFind, if_neg hb0, hl, hr]
    by_cases he : m.size b = size
    · rw [if_pos he]
      exact ⟨b, rfl, .inr ⟨by simp, Nat.le_of_eq he.symm⟩⟩
    rw [if_neg he]
    obtain ⟨x, hx, hxs⟩ := bestFind_spec h0 l b k hrl (by omega)
    rw [hx]
    simp only [Option.bind_some]
    by_cases hxe : x ≠ 0 ∧ m.size x = size
    · rw [if_pos hxe]
      exact ⟨x, rfl, .inr ⟨by simp [(hxs.resolve_left hxe.1).1], Nat.le_of_eq hxe.2.symm⟩⟩
    rw [if_neg hxe]
    obtain ⟨y, hy, hys⟩ := bestFind_spec h0 r b k hrr (by omega)
    rw [hy]
    simp only [Option.map_some]
    refine ⟨_, rfl, ?_⟩
    have hcand : ∀ n, n = 0 ∨ n ∈ (SearchTree.node l b r).keys → (candidate m size n).1 = 0 ∨
        ((candidate m size n).1 ∈ (SearchTree.node l b r).keys ∧ size ≤ m.size (candidate m size n).1) := by
      intro n hn
      rcases candidate_cases m size n with h | ⟨h, hs⟩
      · exact .inl h
      · rw [h]
        exact hn.imp_right fun hk => ⟨hk, hs⟩
    have hcb := hcand b (.inr (by simp))
    have hcx := hcand x (hxs.imp_right fun h => by simp [h.1])
    have hcy := hcand y (hys.imp_right fun h => by simp [h.1])
    rcases pick_cases size (pick size (candidate m size b) (candidate m size x))
      (candidate m size y) with h | h
    · rw [h]
      rcases pick_cases size (candidate m size b) (candidate m size x) with h | h
      · rw [h]
        exact hcb
      · rw [h]
        exact hcx
    · rw [h]
      exact hcy

/-! ## Records -/

theorem sorted_length (hi : Nat) : ∀ (l : List Nat) (lo : Nat), Sorted l → lo < hi →
    (∀ x ∈ l, lo < x ∧ x < hi) → lo + l.length < hi
  | [], lo, _, h, _ => h
  | a :: l, lo, hs, _, h => by
    have ha := h a List.mem_cons_self
    have ih := sorted_length hi l a (sorted_cons.mp hs).2 ha.2 fun x hx =>
      ⟨(sorted_cons.mp hs).1 x hx, (h x (List.mem_cons_of_mem _ hx)).2⟩
    rw [List.length_cons]
    omega

theorem records_perm {m : Mem} {ks ks' : List Nat} {live live' : List Live} (hk : ks.Perm ks')
    (hl : live.Perm live') : (records m ks live).Perm (records m ks' live') :=
  (hk.map _).append (hl.map _)

theorem records_congr {m m' : Mem} {ks : List Nat} {live : List Live}
    (hk : ∀ x ∈ ks, m'.size x = m.size x) (hl : ∀ b ∈ live, m'.size b.header = m.size b.header) :
    records m' ks live = records m ks live := by
  unfold records nodeRange
  congr 1
  · exact List.map_congr_left fun x hx => by rw [hk x hx]
  · exact List.map_congr_left fun b hb => by rw [hl b hb]

/-- A live block comes in front. -/
theorem records_live (m : Mem) (ks : List Nat) (b : Live) (live : List Live) :
    (records m ks (b :: live)).Perm (nodeRange m b.header :: records m ks live) :=
  List.perm_middle

section
variable {s : Sys} {t : SearchTree Nat}

theorem Tiled.node_mem {a : Nat} (ha : a ∈ t.keys) :
    nodeRange s.mem a ∈ records s.mem t.keys s.live :=
  List.mem_append_left _ (List.mem_map_of_mem ha)

theorem Tiled.live_mem {b : Live} (hb : b ∈ s.live) :
    nodeRange s.mem b.header ∈ records s.mem t.keys s.live :=
  List.mem_append_right _ (List.mem_map_of_mem (f := fun b => nodeRange s.mem b.header) hb)

theorem Tiled.size_pos (h : Tiled s t) {r : Range} (hr : r ∈ records s.mem t.keys s.live) :
    0 < r.size := by
  have := (h.sizes r hr).2
  unfold sizeofNode at this
  omega

/-- Every record lies in the address space behind the null page. -/
theorem Inv.bounds (h : Inv s t) {r : Range} (hr : r ∈ records s.mem t.keys s.live) :
    0 < r.start ∧ r.start + r.size ≤ 2 ^ 64 := by
  have hpos := h.size_pos hr
  obtain ⟨z, hz, hz1⟩ := (h.tiles r.start).mp ⟨r, hr, Nat.le_refl _, by omega⟩
  obtain ⟨z', hz', hz2⟩ := (h.tiles (r.start + r.size - 1)).mp ⟨r, hr, by omega, by omega⟩
  have h1 := (h.space z hz).1
  have h2 := (h.space z' hz').2
  unfold Range.Has at hz1 hz2
  omega

theorem Inv.keys_length (h : Inv s t) : t.keys.length < maxNodes := by
  have := sorted_length (2 ^ 64) t.keys 0 h.avl.sorted (by omega) fun x hx => by
    have hb := h.bounds (Tiled.node_mem hx)
    have hp := h.size_pos (Tiled.node_mem hx)
    simp only [nodeRange] at hb hp
    omega
  unfold maxNodes
  omega

theorem inv_of_perm {s' : Sys} {t' : SearchTree Nat} (h : Inv s t) (hroot : s'.root = ptr t')
    (havl : IsAvl s'.mem t')
    (hp : (records s'.mem t'.keys s'.live).Perm (records s.mem t.keys s.live))
    (ha : s'.arenas = s.arenas)
    (ho : ∀ b ∈ s'.live, sizeofAllocatedNode + b.request ≤ s'.mem.size b.header)
    (hb : ∀ b ∈ s'.live, sizeofAllocatedNode ≤ b.ptr) : Inv s' t' where
  root := hroot
  avl := havl
  disjoint := (packed_perm hp).mpr h.disjoint
  tiles x := (holds_perm hp x).trans (ha ▸ h.tiles x)
  sizes r hr := h.sizes r (hp.mem_iff.mp hr)
  offers := ho
  space := ha ▸ h.space
  ptrs := hb

/-- A live block's header is no free node and not null. -/
theorem Inv.header_not_key (h : Inv s t) {b : Live} (hb : b ∈ s.live) :
    b.header ∉ t.keys ∧ b.header ≠ 0 := by
  have hbound := h.bounds (Tiled.live_mem hb)
  refine ⟨fun hk => ?_, Nat.ne_of_gt hbound.1⟩
  have hd := (List.pairwise_append.mp h.disjoint).2.2 _ (List.mem_map_of_mem hk) _
    (List.mem_map_of_mem (f := fun b => nodeRange s.mem b.header) hb)
  have hpos := h.size_pos (Tiled.live_mem hb)
  unfold Range.Disj nodeRange at hd
  unfold nodeRange at hpos
  simp only at hd hpos
  omega

/-! ## Free and payload writes -/

theorem free_inv (h : Inv s t) {b : Live} (hb : b ∈ s.live) :
    ∃ s' t', exec s (.free b) = some s' ∧ Inv s' t' := by
  obtain ⟨hkey, h0⟩ := h.header_not_key hb
  have hsub : Word.sub b.ptr sizeofAllocatedNode = b.header := Word.sub_eq (h.ptrs b hb)
  obtain ⟨m', t', heq, havl, hperm, hsize⟩ := insert_spec h.avl h0 hkey h.keys_length
  refine ⟨⟨m', ptr t', s.live.erase b, s.arenas⟩, t', ?_, ?_⟩
  · rw [exec, free, hsub, h.root, heq]
    rfl
  · have hlive := List.perm_cons_erase hb
    refine inv_of_perm h rfl havl ?_ rfl ?_ ?_
    · refine (records_perm hperm (List.Perm.refl _)).trans ?_
      rw [records_congr (m := s.mem) (fun x _ => by rw [hsize]) fun x _ => by rw [hsize]]
      refine List.Perm.trans ?_ (records_perm (List.Perm.refl t.keys) hlive.symm)
      exact (records_live s.mem t.keys b _).symm
    · intro c hc
      change _ ≤ m'.size c.header
      rw [hsize]
      exact h.offers c (List.mem_of_mem_erase hc)
    · exact fun c hc => h.ptrs c (List.mem_of_mem_erase hc)

/-- No record starts inside a payload. -/
theorem Inv.not_inPayload (h : Inv s t) {r : Range} (hr : r ∈ records s.mem t.keys s.live) :
    ¬ s.InPayload r.start := by
  intro hp
  obtain ⟨b, hb, hlt, hend⟩ := hp
  have hmem := Tiled.live_mem (t := t) hb
  have hne : nodeRange s.mem b.header ≠ r := by
    intro he
    rw [← he] at hlt
    exact Nat.lt_irrefl _ hlt
  have hd := packed_disj h.disjoint hmem hr hne
  have hpos := h.size_pos hr
  unfold Range.Disj nodeRange at hd
  simp only at hd
  omega

theorem Inv.scribble_size (h : Inv s t) (f : Mem) {r : Range} (hr : r ∈ records s.mem t.keys s.live) :
    (s.scribble f).size r.start = s.mem.size r.start :=
  if_neg (h.not_inPayload hr)

theorem Inv.scribble_records (h : Inv s t) (f : Mem) :
    records (s.scribble f) t.keys s.live = records s.mem t.keys s.live :=
  records_congr (fun _ hx => h.scribble_size f (Tiled.node_mem hx)) fun _ hb => h.scribble_size f (Tiled.live_mem hb)

theorem write_inv (h : Inv s t) (f : Mem) : Inv { s with mem := s.scribble f } t := by
  refine inv_of_perm h h.root ⟨h.avl.rep.frame fun x hx => ?_, h.avl.sorted, h.avl.bal⟩ ?_ rfl ?_ h.ptrs
  · have hown : ¬ (s.InPayload x ∨ ∃ b ∈ s.live, x = b.header) := by
      intro ho
      rcases ho with hp | ⟨b, hb, he⟩
      · exact h.not_inPayload (Tiled.node_mem hx) hp
      · exact (h.header_not_key hb).1 (he ▸ hx)
    exact ⟨if_neg hown, if_neg hown, if_neg hown, if_neg hown⟩
  · exact List.Perm.of_eq (h.scribble_records f)
  · intro b hb
    have hsize : (s.scribble f).size b.header = s.mem.size b.header := h.scribble_size f (Tiled.live_mem hb)
    change _ ≤ (s.scribble f).size b.header
    rw [hsize]
    exact h.offers b hb

/-! ## Allocate -/

/-- The whole node is handed out. -/
theorem allocate_whole (h : Inv s t) (size : Nat) {a : Nat} (ha : a ∈ t.keys)
    (hsize : sizeofAllocatedNode + size ≤ s.mem.size a) :
    ∃ m' t', s.mem.delete maxNodes s.root a = some (m', ptr t') ∧ m'.size = s.mem.size ∧
      Inv ⟨m', ptr t', ⟨a + sizeofAllocatedNode, size⟩ :: s.live, s.arenas⟩ t' := by
  obtain ⟨m', t', heq, havl, hperm, hm⟩ := delete_spec h.avl ha h.keys_length
  have hheader : (Live.mk (a + sizeofAllocatedNode) size).header = a := Nat.add_sub_cancel _ _
  refine ⟨m', t', by rw [h.root]; exact heq, hm, inv_of_perm h rfl havl ?_ rfl ?_ ?_⟩
  · change (records m' t'.keys (_ :: s.live)).Perm _
    rw [records_congr (m := s.mem) (fun x _ => by rw [hm]) fun x _ => by rw [hm]]
    refine (records_live s.mem t'.keys _ s.live).trans ?_
    rw [hheader]
    exact (records_perm hperm (List.Perm.refl _)).symm
  · intro b hb
    change _ ≤ m'.size b.header
    rw [hm]
    rcases List.mem_cons.mp hb with rfl | hb
    · rw [hheader]
      exact hsize
    · exact h.offers b hb
  · intro b hb
    rcases List.mem_cons.mp hb with rfl | hb
    · exact Nat.le_add_left _ _
    · exact h.ptrs b hb

theorem isAvl_setSize {m : Mem} (h : IsAvl m t) (a x : Nat) : IsAvl (m.setSize a x) t :=
  ⟨h.rep.frame fun _ _ => ⟨rfl, rfl, rfl, rfl⟩, h.sorted, h.bal⟩

/-- Cutting the range at `a` into a free node of size `l` and a block of size `n` behind it. -/
theorem tiled_of_cut {m : Mem} {ks : List Nat} {live : List Live} {arenas rest : List Range}
    {a l n : Nat} (hnew : (records m ks live).Perm (⟨a + l, n⟩ :: ⟨a, l⟩ :: rest))
    (hpack : Packed (⟨a, l + n⟩ :: rest))
    (htiles : ∀ x, Holds (⟨a, l + n⟩ :: rest) x ↔ Holds arenas x)
    (hrest : ∀ r ∈ rest, r.size % arenaAlignment = 0 ∧ sizeofNode ≤ r.size)
    (hl : l % arenaAlignment = 0 ∧ sizeofNode ≤ l) (hn : n % arenaAlignment = 0 ∧ sizeofNode ≤ n) :
    Packed (records m ks live) ∧ (∀ x, Holds (records m ks live) x ↔ Holds arenas x) ∧
      ∀ r ∈ records m ks live, r.size % arenaAlignment = 0 ∧ sizeofNode ≤ r.size := by
  refine ⟨(packed_perm hnew).mpr (packed_cut hpack), fun x => ?_, fun r hr => ?_⟩
  · rw [holds_perm hnew, holds_cut]
    exact htiles x
  · rcases List.mem_cons.mp (hnew.mem_iff.mp hr) with rfl | hr
    · exact hn
    · rcases List.mem_cons.mp hr with rfl | hr
      · exact hl
      · exact hrest r hr

/-- The new block is in front of the older ones. -/
theorem live_cons {m m' : Mem} {p size n : Nat} {live : List Live}
    (hsize : sizeofAllocatedNode + size ≤ n) (hn : m'.size p = n)
    (hsame : ∀ b ∈ live, m'.size b.header = m.size b.header)
    (ho : ∀ b ∈ live, sizeofAllocatedNode + b.request ≤ m.size b.header)
    (hp : ∀ b ∈ live, sizeofAllocatedNode ≤ b.ptr) :
    (∀ b ∈ Live.mk (p + sizeofAllocatedNode) size :: live,
      sizeofAllocatedNode + b.request ≤ m'.size b.header) ∧
    ∀ b ∈ Live.mk (p + sizeofAllocatedNode) size :: live, sizeofAllocatedNode ≤ b.ptr := by
  refine ⟨fun b hb => ?_, fun b hb => ?_⟩
  · rcases List.mem_cons.mp hb with rfl | hb
    · rw [show (Live.mk (p + sizeofAllocatedNode) size).header = p from Nat.add_sub_cancel _ _, hn]
      exact hsize
    · rw [hsame b hb]
      exact ho b hb
  · rcases List.mem_cons.mp hb with rfl | hb
    · exact Nat.le_add_left _ _
    · exact hp b hb

theorem records_cut {m : Mem} {ks : List Nat} {live : List Live} {a l n size : Nat}
    (ha : m.size a = l) (hp : m.size (a + l) = n) :
    (records m (a :: ks) (⟨a + l + sizeofAllocatedNode, size⟩ :: live)).Perm
      (⟨a + l, n⟩ :: ⟨a, l⟩ :: records m ks live) := by
  refine (records_live m (a :: ks) _ live).trans ?_
  rw [show (Live.mk (a + l + sizeofAllocatedNode) size).header = a + l from Nat.add_sub_cancel _ _,
    nodeRange, hp]
  change (_ :: nodeRange m a :: records m ks live).Perm _
  rw [nodeRange, ha]

/-- The block is cut from the tail of the node. -/
theorem allocate_cut (h : Inv s t) {a size l n : Nat} (ha : a ∈ t.keys) (hsz : s.mem.size a = l + n)
    (hn : n % arenaAlignment = 0 ∧ sizeofNode ≤ n) (hl : sizeofNode ≤ l)
    (hsize : sizeofAllocatedNode + size ≤ n) :
    Inv ⟨(s.mem.setSize (a + l) n).setSize a l, s.root,
      ⟨a + l + sizeofAllocatedNode, size⟩ :: s.live, s.arenas⟩ t := by
  generalize hm : (s.mem.setSize (a + l) n).setSize a l = m'
  have hpos : 0 < n ∧ 0 < l := by
    unfold sizeofNode at hn hl
    omega
  have hkeys := List.perm_cons_erase ha
  have hold : (records s.mem t.keys s.live).Perm
      (⟨a, l + n⟩ :: records s.mem (t.keys.erase a) s.live) := by
    rw [← hsz]
    exact records_perm hkeys (List.Perm.refl _)
  have hpack := (packed_perm hold).mp h.disjoint
  have hin : ∀ {r}, r ∈ records s.mem (t.keys.erase a) s.live → r ∈ records s.mem t.keys s.live :=
    fun hr => hold.mem_iff.mpr (List.mem_cons_of_mem _ hr)
  have hrest : ∀ {r}, r ∈ records s.mem (t.keys.erase a) s.live →
      m'.size r.start = s.mem.size r.start := by
    intro r hr
    have h1 := start_ne hpack (a := a) (by unfold Range.Has; simp only; omega) hr (h.size_pos (hin hr))
    have h2 := start_ne hpack (a := a + l) (by unfold Range.Has; simp only; omega) hr
      (h.size_pos (hin hr))
    rw [← hm]
    exact (if_neg h1).trans (if_neg h2)
  have hks : ∀ x ∈ t.keys.erase a, m'.size x = s.mem.size x := fun x hx =>
    hrest (List.mem_append_left _ (List.mem_map_of_mem hx))
  have hlive : ∀ b ∈ s.live, m'.size b.header = s.mem.size b.header := fun b hb =>
    hrest (List.mem_append_right _ (List.mem_map_of_mem (f := fun b => nodeRange s.mem b.header) hb))
  have hna : m'.size a = l := by
    rw [← hm]
    exact if_pos rfl
  have hnp : m'.size (a + l) = n := by
    rw [← hm]
    exact (if_neg (by omega)).trans (if_pos rfl)
  have hnew : (records m' t.keys (⟨a + l + sizeofAllocatedNode, size⟩ :: s.live)).Perm
      (⟨a + l, n⟩ :: ⟨a, l⟩ :: records s.mem (t.keys.erase a) s.live) := by
    rw [← records_congr hks hlive]
    exact (records_perm hkeys (List.Perm.refl _)).trans (records_cut hna hnp)
  have hl8 : l % arenaAlignment = 0 := by
    have := (h.sizes _ (Tiled.node_mem ha)).1
    simp only [nodeRange, hsz, arenaAlignment] at *
    omega
  have htiles : ∀ x, Holds (⟨a, l + n⟩ :: records s.mem (t.keys.erase a) s.live) x ↔ Holds s.arenas x :=
    fun x => (holds_perm hold x).symm.trans (h.tiles x)
  obtain ⟨hd, ht, hs⟩ := tiled_of_cut hnew hpack htiles (fun r hr => h.sizes r (hin hr)) ⟨hl8, hl⟩ hn
  obtain ⟨ho, hp⟩ := live_cons hsize hnp hlive h.offers h.ptrs
  refine ⟨⟨h.root, ?_, hd, ht, hs, ho⟩, h.space, hp⟩
  rw [← hm]
  exact isAvl_setSize (isAvl_setSize h.avl _ _) _ _

/-- The records of the older arenas are those they were after a new arena was cleared and cut. -/
theorem extend_mem (h : Inv s t) {a l n : Nat} (hl : 0 < l) (hn : 0 < n)
    (hfresh : ∀ r ∈ s.arenas, (Range.mk a (l + n)).Disj r) {m : Mem}
    (hm : m = (((clear s.mem a (l + n)).setSize a (l + n)).setSize a l).setSize (a + l) n) :
    Packed (⟨a, l + n⟩ :: records s.mem t.keys s.live) ∧
      (∀ {r}, r ∈ records s.mem t.keys s.live → m.size r.start = s.mem.size r.start) ∧ IsAvl m t ∧ a ∉ t.keys := by
  have hpack : Packed (⟨a, l + n⟩ :: records s.mem t.keys s.live) :=
    packed_fresh h.disjoint hfresh (fun x hx => (h.tiles x).mp hx) (by simp only; omega)
      fun r hr => h.size_pos hr
  -- records of the older arenas are outside the new one
  have hout : ∀ {r}, r ∈ records s.mem t.keys s.live → ¬ (a ≤ r.start ∧ r.start < a + (l + n)) := by
    intro r hr hx
    exact start_ne hpack (a := r.start) hx hr (h.size_pos hr) rfl
  refine ⟨hpack, fun {r} hr => ?_, ?_, fun hk => hout (Tiled.node_mem hk) ?_⟩
  · have hx := hout hr
    have h1 : r.start ≠ a := by omega
    have h2 : r.start ≠ a + l := by omega
    rw [hm]
    exact (if_neg h2).trans ((if_neg h1).trans ((if_neg h1).trans (if_neg hx)))
  · rw [hm]
    refine isAvl_setSize (isAvl_setSize (isAvl_setSize ?_ _ _) _ _) _ _
    refine ⟨h.avl.rep.frame fun x hx => ?_, h.avl.sorted, h.avl.bal⟩
    have := hout (Tiled.node_mem hx)
    exact ⟨if_neg this, if_neg this, if_neg this, if_neg this⟩
  · unfold nodeRange
    simp only
    omega

/-- The block is cut from the tail of a new arena, the rest becomes a free node. -/
theorem allocate_extend (h : Inv s t) {a size l n : Nat} (ha0 : a ≠ 0) (hspace : a + (l + n) ≤ 2 ^ 64)
    (hfresh : ∀ r ∈ s.arenas, (Range.mk a (l + n)).Disj r)
    (hl : l % arenaAlignment = 0 ∧ sizeofNode ≤ l) (hn : n % arenaAlignment = 0 ∧ sizeofNode ≤ n)
    (hsize : sizeofAllocatedNode + size ≤ n) {m : Mem}
    (hm : m = (((clear s.mem a (l + n)).setSize a (l + n)).setSize a l).setSize (a + l) n) :
    ∃ m' t', m.insert maxNodes s.root a = some (m', ptr t') ∧
      Inv ⟨m', ptr t', ⟨a + l + sizeofAllocatedNode, size⟩ :: s.live, ⟨a, l + n⟩ :: s.arenas⟩ t' := by
  have hpos : 0 < n ∧ 0 < l := by
    unfold sizeofNode at hn hl
    omega
  obtain ⟨hpack, hrest, havl, hkey⟩ := extend_mem h hpos.2 hpos.1 hfresh hm
  obtain ⟨m', t', heq, havl', hperm, hm'⟩ := insert_spec havl ha0 hkey h.keys_length
  have hks : ∀ x ∈ t.keys, m'.size x = s.mem.size x := fun x hx => by
    rw [hm']
    exact hrest (Tiled.node_mem hx)
  have hlive : ∀ b ∈ s.live, m'.size b.header = s.mem.size b.header := fun b hb => by
    rw [hm']
    exact hrest (Tiled.live_mem hb)
  have hna : m'.size a = l := by
    rw [hm', hm]
    exact (if_neg (by omega)).trans (if_pos rfl)
  have hnp : m'.size (a + l) = n := by
    rw [hm', hm]
    exact if_pos rfl
  have hnew : (records m' t'.keys (⟨a + l + sizeofAllocatedNode, size⟩ :: s.live)).Perm
      (⟨a + l, n⟩ :: ⟨a, l⟩ :: records s.mem t.keys s.live) := by
    rw [← records_congr hks hlive]
    exact (records_perm hperm (List.Perm.refl _)).trans (records_cut hna hnp)
  have htiles : ∀ x, Holds (⟨a, l + n⟩ :: records s.mem t.keys s.live) x ↔
      Holds (⟨a, l + n⟩ :: s.arenas) x := fun x => by
    rw [holds_cons, holds_cons, h.tiles]
  obtain ⟨hd, ht, hs⟩ := tiled_of_cut hnew hpack htiles h.sizes hl hn
  obtain ⟨ho, hp⟩ := live_cons hsize hnp hlive h.offers h.ptrs
  refine ⟨m', t', by rw [h.root]; exact heq, ⟨rfl, havl', hd, ht, hs, ho⟩, fun r hr => ?_, hp⟩
  rcases List.mem_cons.mp hr with rfl | hr
  · exact ⟨Nat.pos_of_ne_zero ha0, hspace⟩
  · exact h.space r hr

/-- What `AllocateKernelHeap` returns for the arena of a block of `n` bytes: null, or room for the block and a node
behind the null page. -/
def ArenaFits (arenas : List Range) (arena n : Nat) : Prop :=
  arena = 0 ∨ (arenaSize n % arenaAlignment = 0 ∧ sizeofNode + n ≤ arenaSize n ∧ arena + arenaSize n ≤ 2 ^ 64 ∧
    ∀ z ∈ arenas, (Range.mk arena (arenaSize n)).Disj z)

/-- What `Allocate` does for a block of `n` bytes, and what it returns: no memory; a whole node; the tail of a node; the
tail of a new arena. -/
def Outcome (s : Sys) (t : SearchTree Nat) (arena n : Nat) : Option (Mem × Nat × Nat) → Prop
  | none => False
  | some (m', root', p) =>
    (bestFind s.mem n maxNodes s.root = some 0 ∧
      ((arena = 0 ∧ m' = s.mem ∧ root' = s.root ∧ p = 0) ∨
      (arena ≠ 0 ∧ p ≠ 0 ∧ ∃ l t', arenaSize n = l + n ∧ l % arenaAlignment = 0 ∧ sizeofNode ≤ l ∧
        p = arena + l + sizeofAllocatedNode ∧ root' = ptr t' ∧
        ((((clear s.mem arena (l + n)).setSize arena (l + n)).setSize arena l).setSize (arena + l) n).insert
          maxNodes s.root arena = some (m', ptr t')))) ∨
    (p ≠ 0 ∧ ∃ a ∈ t.keys, bestFind s.mem n maxNodes s.root = some a ∧ a ≠ 0 ∧
      ((∃ t', n ≤ s.mem.size a ∧ p = a + sizeofAllocatedNode ∧ root' = ptr t' ∧
        s.mem.delete maxNodes s.root a = some (m', ptr t')) ∨
      ∃ l, s.mem.size a = l + n ∧ sizeofNode ≤ l ∧ p = a + l + sizeofAllocatedNode ∧ root' = s.root ∧
        m' = (s.mem.setSize (a + l) n).setSize a l))

theorem allocate_outcome (h : Inv s t) {size arena n : Nat} (hblock : blockSize size = n)
    (hn : n % arenaAlignment = 0 ∧ sizeofNode ≤ n) (harena : ArenaFits s.arenas arena n) :
    Outcome s t arena n (allocate s.mem s.root size arena) := by
  have hn0 : 0 < n ∧ 40 ≤ n := by
    unfold sizeofNode at hn
    omega
  obtain ⟨a, hfind, ha⟩ := bestFind_spec hn0.1 t 0 maxNodes h.avl.rep h.keys_length
  rw [← h.root] at hfind
  simp only [allocate, hblock, hfind, Option.bind_some]
  by_cases ha0 : a = 0
  · rw [if_pos ha0]
    rw [ha0] at hfind
    by_cases har : arena = 0
    · rw [if_pos har]
      exact .inl ⟨hfind, .inl ⟨har, rfl, rfl, rfl⟩⟩
    · rw [if_neg har]
      obtain ⟨ha8, hroom, hspace, hdisj⟩ := harena.resolve_left har
      obtain ⟨l, hl⟩ : ∃ l, arenaSize n = l + n := ⟨arenaSize n - n, by omega⟩
      rw [hl] at hspace hdisj ha8 hroom ⊢
      have hl8 : l % arenaAlignment = 0 ∧ sizeofNode ≤ l := by
        unfold arenaAlignment sizeofNode at *
        omega
      have hnone : sizeofAllocatedNode + 0 ≤ n := Nat.le_trans (by decide) hn.2
      obtain ⟨m', t', heq, -⟩ := allocate_extend h har hspace hdisj hl8 hn hnone rfl
      have hsz : ((clear s.mem arena (l + n)).setSize arena (l + n)).size arena = l + n := if_pos rfl
      have hptr : Word.add (arena + l) sizeofAllocatedNode = arena + l + sizeofAllocatedNode :=
        Word.add_eq (by
          unfold sizeofAllocatedNode
          omega)
      rw [hsz, Word.sub_add_tail hspace hn0.1, Word.sub_eq (Nat.le_add_left n l), Nat.add_sub_cancel,
        heq, hptr]
      refine .inl ⟨hfind, .inr ⟨har, ?_, l, t', hl, hl8.1, hl8.2, rfl, rfl, heq⟩⟩
      unfold sizeofAllocatedNode
      omega
  · obtain ⟨hmem, hle⟩ := ha.resolve_left ha0
    have hbound := h.bounds (Tiled.node_mem hmem)
    simp only [nodeRange] at hbound
    rw [if_neg ha0]
    by_cases hcut : s.mem.size a > n ∧ Word.sub (s.mem.size a) n ≥ sizeofNode
    · rw [if_pos hcut]
      obtain ⟨l, hl⟩ : ∃ l, s.mem.size a = l + n := ⟨s.mem.size a - n, by omega⟩
      rw [hl] at hcut hbound
      rw [Word.sub_eq (Nat.le_add_left n l), Nat.add_sub_cancel] at hcut
      have hptr : Word.add (a + l) sizeofAllocatedNode = a + l + sizeofAllocatedNode :=
        Word.add_eq (by
          unfold sizeofAllocatedNode
          omega)
      have hkeep : (s.mem.setSize (a + l) n).size a = l + n := (if_neg (by omega)).trans hl
      rw [hl, Word.sub_add_tail hbound.2 hn0.1, hkeep, Word.sub_eq (Nat.le_add_left n l),
        Nat.add_sub_cancel, hptr]
      refine .inr ⟨?_, a, hmem, hfind, ha0, .inr ⟨l, hl, hcut.2, rfl, rfl, rfl⟩⟩
      unfold sizeofAllocatedNode
      omega
    · rw [if_neg hcut]
      obtain ⟨m', t', heq, hm', -⟩ := allocate_whole h 0 hmem (Nat.le_trans (Nat.le_trans (by decide) hn.2) hle)
      have hptr : Word.add a sizeofAllocatedNode = a + sizeofAllocatedNode := Word.add_eq (by
        unfold sizeofAllocatedNode
        omega)
      have hset : m'.setSize a (m'.size a) = m' := by
        unfold Mem.setSize
        rw [put_self rfl]
      rw [heq, hptr, Option.map_some, hset]
      refine .inr ⟨?_, a, hmem, hfind, ha0, .inl ⟨t', hle, rfl, rfl, heq⟩⟩
      unfold sizeofAllocatedNode
      omega

/-- The state with the new block, of which `r` bytes were asked for. -/
def Sys.taking (s : Sys) (size arena p r : Nat) (m' : Mem) (root' : Nat) : Sys where
  mem := m'
  root := root'
  live := if p = 0 then s.live else ⟨p, r⟩ :: s.live
  arenas := arenasAfter s size arena

/-- A call leaves the heap tiled. -/
theorem outcome_inv (h : Inv s t) {size arena n r : Nat} (hblock : blockSize size = n)
    (hn : n % arenaAlignment = 0 ∧ sizeofNode ≤ n) (harena : ArenaFits s.arenas arena n)
    (hr : sizeofAllocatedNode + r ≤ n) {m' : Mem} {root' p : Nat} (ho : Outcome s t arena n (some (m', root', p))) :
    ∃ t', Inv (s.taking size arena p r m' root') t' := by
  rcases ho with ⟨hfind, ⟨har, rfl, rfl, rfl⟩ | ⟨har, hp, l, t', hl, hl8, hl40, rfl, rfl, heq⟩⟩ |
    ⟨hp, a, hmem, hfind, ha0, ⟨t', hle, rfl, rfl, heq⟩ | ⟨l, hl, hl40, rfl, rfl, rfl⟩⟩
  · refine ⟨t, ?_⟩
    simp only [Sys.taking, arenasAfter, har, ne_eq, not_true_eq_false, and_false, if_false, if_true]
    exact h
  · obtain ⟨-, -, hspace, hdisj⟩ := harena.resolve_left har
    rw [hl] at hspace hdisj
    obtain ⟨m₁, t₁, heq₁, hinv⟩ := allocate_extend h har hspace hdisj ⟨hl8, hl40⟩ hn hr rfl
    rw [heq] at heq₁
    obtain ⟨rfl, hroot⟩ := Prod.mk.inj (Option.some.inj heq₁)
    refine ⟨t₁, ?_⟩
    simp only [Sys.taking, arenasAfter, hblock, hfind, har, ne_eq, not_false_eq_true, and_self, if_true, hl, hroot]
    rw [if_neg hp]
    exact hinv
  · obtain ⟨m₁, t₁, heq₁, -, hinv⟩ := allocate_whole h r hmem (Nat.le_trans hr hle)
    rw [heq] at heq₁
    obtain ⟨rfl, hroot⟩ := Prod.mk.inj (Option.some.inj heq₁)
    refine ⟨t₁, ?_⟩
    simp only [Sys.taking, arenasAfter, hblock, hfind, Option.some.injEq, ha0, false_and, if_false, hroot]
    rw [if_neg hp]
    exact hinv
  · refine ⟨t, ?_⟩
    simp only [Sys.taking, arenasAfter, hblock, hfind, Option.some.injEq, ha0, false_and, if_false]
    rw [if_neg hp]
    exact allocate_cut h hmem hl hn hl40 hr

/-- `Allocate` returns, and leaves the heap tiled. -/
theorem allocate_inv (h : Inv s t) {size arena : Nat} (hsize : size < 2 ^ 62)
    (hfresh : Fresh s.arenas arena (arenaSize (blockSize size))) :
    ∃ s' t', exec s (.allocate size arena) = some s' ∧ Inv s' t' := by
  obtain ⟨hb8, hb40, hbs, hblt⟩ := blockSize_spec hsize
  obtain ⟨ha8, ha2, halt⟩ := arenaSize_spec hb40 hblt
  have harena : ArenaFits s.arenas arena (blockSize size) :=
    hfresh.imp_right fun hf => ⟨ha8, by omega, hf.2.1, hf.2.2⟩
  have hout := allocate_outcome h rfl ⟨hb8, hb40⟩ harena
  cases hcall : allocate s.mem s.root size arena with
  | none =>
    rw [hcall] at hout
    exact hout.elim
  | some r =>
    obtain ⟨m', root', p⟩ := r
    rw [hcall] at hout
    obtain ⟨t', hinv⟩ := outcome_inv h rfl ⟨hb8, hb40⟩ harena hbs hout
    exact ⟨_, t', by rw [exec, hcall]; rfl, hinv⟩

theorem exec_inv (h : Inv s t) {op : Op} (ha : Admissible s op) :
    ∃ s' t', exec s op = some s' ∧ Inv s' t' := by
  cases op with
  | allocate size arena => exact allocate_inv h ha.1 ha.2
  | free b => exact free_inv h ha
  | write f => exact ⟨_, t, rfl, write_inv h f⟩

end

/-- The first arena is the only node. -/
theorem inv_boot_arena (m : Mem) {arena : Nat} (h0 : arena ≠ 0) (hspace : arena + 16 * pageSize ≤ 2 ^ 64) :
    Inv (boot m arena) (.node .nil arena .nil) := by
  have hboot : boot m arena = ⟨((clear m arena (16 * pageSize)).setSize arena (16 * pageSize)).makeLeaf
      arena 0, arena, [], [⟨arena, 16 * pageSize⟩]⟩ := by
    unfold boot create
    simp only [if_neg h0]
  rw [hboot]
  have hrec : records (((clear m arena (16 * pageSize)).setSize arena (16 * pageSize)).makeLeaf
      arena 0) (SearchTree.node .nil arena .nil).keys [] = [⟨arena, 16 * pageSize⟩] := by
    have hsz : (((clear m arena (16 * pageSize)).setSize arena (16 * pageSize)).makeLeaf
      arena 0).size arena = 16 * pageSize := if_pos rfl
    simp only [records, keys_node, keys_nil, List.nil_append, List.map_cons, List.map_nil,
      List.append_nil, nodeRange, hsz]
  refine ⟨⟨rfl, ⟨⟨h0, ?_, ?_, ?_, ?_, trivial, trivial⟩,
    List.pairwise_singleton _ _, by simp⟩, ?_, ?_, ?_, ?_⟩, ?_, ?_⟩
  · exact if_pos rfl
  · exact if_pos rfl
  · exact if_pos rfl
  · exact if_pos rfl
  · rw [hrec]
    exact List.pairwise_singleton _ _
  · intro x
    rw [hrec]
  · intro r hr
    rw [hrec, List.mem_singleton] at hr
    subst hr
    exact (by decide : 16 * pageSize % arenaAlignment = 0 ∧ sizeofNode ≤ 16 * pageSize)
  · intro b hb
    cases hb
  · intro r hr
    rw [List.mem_singleton] at hr
    subst hr
    exact ⟨Nat.pos_of_ne_zero h0, hspace⟩
  · intro b hb
    cases hb

theorem inv_boot (m : Mem) (arena : Nat) (h : Fresh [] arena (16 * pageSize)) :
    ∃ t, Inv (boot m arena) t := by
  by_cases h0 : arena = 0
  · subst h0
    refine ⟨.nil, ⟨rfl, ⟨trivial, List.Pairwise.nil, trivial⟩, List.Pairwise.nil, fun x => Iff.rfl, ?_, ?_⟩,
      ?_, ?_⟩
    · intro r hr
      cases hr
    · intro b hb
      cases hb
    · intro r hr
      cases hr
    · intro b hb
      cases hb
  · exact ⟨_, inv_boot_arena m h0 (h.resolve_left h0).2.1⟩

/-- Along every run of admissible calls from the state `Create` leaves, the heap is tiled and
every further admissible call returns. -/
theorem heap_tiled (m : Mem) (arena : Nat) (h : Fresh [] arena (16 * pageSize)) (ops : List Op) :
    AllStates step (fun s => (∃ t, Tiled s t) ∧ ∀ op, Admissible s op → ∃ s', step s op = some s')
      (boot m arena) ops := by
  refine AllStates.mono ?_ ops _ (allStates_of_inv (I := fun s => ∃ t, Inv s t) ?_ ops _
    (inv_boot m arena h))
  · intro s hs
    obtain ⟨t, hi⟩ := hs
    refine ⟨⟨t, hi.toTiled⟩, fun op ha => ?_⟩
    obtain ⟨s', t', he, -⟩ := exec_inv hi ha
    exact ⟨s', by rw [step, if_pos ha, he]⟩
  · intro s op s' hs hstep
    obtain ⟨t, hi⟩ := hs
    by_cases ha : Admissible s op
    · obtain ⟨s₁, t', he, hi'⟩ := exec_inv hi ha
      rw [step, if_pos ha, he] at hstep
      exact ⟨t', Option.some.inj hstep ▸ hi'⟩
    · rw [step, if_neg ha] at hstep
      cases hstep

theorem heap_tiled_two_calls :
    AllStates step (fun s => (∃ t, Tiled s t) ∧ ∀ op, Admissible s op → ∃ s', step s op = some s')
      (boot ⟨id, id, id, id, id⟩ 65536) [.allocate 100 0, .free ⟨130968, 100⟩] :=
  heap_tiled ⟨id, id, id, id, id⟩ 65536 (.inr (by decide)) _

end BadLands.Mm.Heap
