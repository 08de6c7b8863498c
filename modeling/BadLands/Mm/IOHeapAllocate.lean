import BadLands.Mm.IOHeap
import Mathlib.Data.List.Perm.Subperm

/-!
# Blocks of the IO heap

`Inv` describes the arena: the free list as a list of `Hole`s, the handed-out blocks as a list
of `Held`s, all of them disjoint ranges of the arena, and what their headers hold. `Inv.allocate`:
an `Allocate` outside the three bad cases keeps it and hands out a new block.
-/
namespace BadLands.Mm.IOHeap

open BadLands.Core BadLands.Core.Machine BadLands.Core.Ranges BadLands.Mm.Layout

structure Hole where
  addr : Nat
  size : Nat
  deriving DecidableEq, Repr

def Hole.range (h : Hole) : Range := ⟨h.addr, sizeofMetadata + h.size⟩

structure Held where
  addr : Nat
  size : Nat
  pad : Nat
  request : Nat
  deriving DecidableEq, Repr

def Held.range (b : Held) : Range := ⟨b.addr, sizeofMetadata + b.size⟩

def Held.payload (b : Held) : Range := ⟨b.addr + b.pad + sizeofMetadata, b.request⟩

/-- The list from `p` to `e` in memory. -/
def Chain (m : ByteMemory) : Nat → List Hole → Nat → Prop
  | p, [], e => p = e
  | p, h :: hs, e => p = h.addr ∧ size m p = h.size ∧ Chain m (next m p) hs e

/-- The headers of a handed-out block: its own and the copy before the payload. -/
structure HeldOk (m : ByteMemory) (b : Held) : Prop where
  size : IOHeap.size m b.addr = b.size
  next : IOHeap.next m b.addr = 0
  pad : padding m (b.addr + b.pad) = b.pad
  apart : b.pad = 0 ∨ sizeofMetadata ≤ b.pad
  fits : b.pad + b.request ≤ b.size

def ranges (holes : List Hole) (held : List Held) : List Range := holes.map Hole.range ++ held.map Held.range

structure Inv (A : Arena) (s : State) (holes : List Hole) (held : List Held) : Prop where
  chain : Chain s.mem s.head holes 0
  headers : ∀ b ∈ held, HeldOk s.mem b
  packed : Packed (ranges holes held)
  inside : ∀ r ∈ ranges holes held, r.Sub A.range

section
variable {A : Arena} {m m' : ByteMemory} {s : State} {holes hs pre post : List Hole} {held : List Held} {x : Hole}

/-! ## Fields -/

theorem size_lt (p : Nat) : size m p < 2 ^ 32 := m.read_lt (p + 4) 4

theorem next_lt (p : Nat) : next m p < 2 ^ 64 := m.read_lt (p + 8) 8

theorem size_setSize {p v : Nat} (h : v < 2 ^ 32) : size (setSize m p v) p = v :=
  ByteMemory.read_write.trans (Nat.mod_eq_of_lt h)

theorem next_setNext {p v : Nat} (h : v < 2 ^ 64) : next (setNext m p v) p = v :=
  ByteMemory.read_write.trans (Nat.mod_eq_of_lt h)

theorem padding_setPadding {p v : Nat} (h : v < 2 ^ 32) : padding (setPadding m p v) p = v :=
  ByteMemory.read_write.trans (Nat.mod_eq_of_lt h)

theorem size_setNext (p v : Nat) : size (setNext m p v) p = size m p :=
  ByteMemory.read_write_other (by omega)

theorem padding_setNext (p v : Nat) : padding (setNext m p v) p = padding m p :=
  ByteMemory.read_write_other (by omega)

theorem padding_setSize (p v : Nat) : padding (setSize m p v) p = padding m p :=
  ByteMemory.read_write_other (by omega)

/-- `size` and `next` are the bytes 4 to 15 of a header. -/
theorem size_congr {p : Nat} (h : ∀ k, p + 4 ≤ k → k < p + 16 → m' k = m k) : size m' p = size m p :=
  ByteMemory.read_congr fun k h1 h2 => h k h1 (by omega)

theorem next_congr {p : Nat} (h : ∀ k, p + 4 ≤ k → k < p + 16 → m' k = m k) : next m' p = next m p :=
  ByteMemory.read_congr fun k h1 h2 => h k (by omega) (by omega)

/-! ## The free list in memory -/

theorem chain_congr {p e : Nat} (hc : Chain m p hs e)
    (h : ∀ x ∈ hs, ∀ k, x.addr + 4 ≤ k → k < x.addr + 16 → m' k = m k) : Chain m' p hs e := by
  induction hs generalizing p with
  | nil => exact hc
  | cons x hs ih =>
    obtain ⟨rfl, hsize, hrest⟩ := hc
    have hx := h x List.mem_cons_self
    refine ⟨rfl, (size_congr hx).trans hsize, ?_⟩
    rw [next_congr hx]
    exact ih hrest fun y hy => h y (List.mem_cons_of_mem _ hy)

theorem chain_append {p e : Nat} {as bs : List Hole} :
    Chain m p (as ++ bs) e ↔ ∃ q, Chain m p as q ∧ Chain m q bs e := by
  induction as generalizing p with
  | nil =>
    constructor
    · exact fun h => ⟨p, rfl, h⟩
    · rintro ⟨q, rfl, h⟩
      exact h
  | cons a as ih =>
    change p = a.addr ∧ size m p = a.size ∧ Chain m (next m p) (as ++ bs) e ↔ _
    rw [ih]
    constructor
    · rintro ⟨h1, h2, q, h3, h4⟩
      exact ⟨q, ⟨h1, h2, h3⟩, h4⟩
    · rintro ⟨q, ⟨h1, h2, h3⟩, h4⟩
      exact ⟨h1, h2, q, h3, h4⟩

/-- The blocks of the list are those in memory. -/
theorem mem_of_onList {p f : Nat} (hc : Chain m p hs 0) (hf : OnList m p f) :
    ∃ x ∈ hs, x.addr = f ∧ size m f = x.size := by
  induction hs generalizing p with
  | nil =>
    cases hc
    cases hf with
    | here h => exact absurd rfl h
    | there h => exact absurd rfl h
  | cons x hs ih =>
    obtain ⟨rfl, hsize, hrest⟩ := hc
    cases hf with
    | here => exact ⟨x, List.mem_cons_self, rfl, hsize⟩
    | there _ hf =>
      obtain ⟨y, hy, hyf⟩ := ih hrest hf
      exact ⟨y, List.mem_cons_of_mem _ hy, hyf⟩

theorem mem_ranges {r : Range} : r ∈ ranges holes held ↔
    (∃ x ∈ holes, x.range = r) ∨ ∃ b ∈ held, b.range = r := by
  simp [ranges]

theorem ranges_perm {hs' : List Hole} {held' : List Held} (h1 : hs.Perm hs') (h2 : held.Perm held') :
    (ranges hs held).Perm (ranges hs' held') := (h1.map _).append (h2.map _)

/-- A held block counts as a hole for the ranges. -/
theorem ranges_held (b : Held) : (ranges hs (b :: held)).Perm (b.range :: ranges hs held) :=
  List.perm_middle

theorem bounds_of_sub {r : Range} (h : r.Sub A.range) :
    0 < r.start ∧ r.start + r.size < 2 ^ 64 ∧ r.size ≤ 33554432 := by
  have hbase := A.pos
  have hspace := A.inAddressSpace
  obtain ⟨h1, h2⟩ := h
  change A.base ≤ r.start at h1
  change r.start + r.size ≤ A.base + 33554432 at h2
  change A.base + 33554432 < 2 ^ 64 at hspace
  omega

theorem hole_bounds {x : Hole} (h : x.range.Sub A.range) : 0 < x.addr ∧ x.addr + 16 + x.size < 2 ^ 64 ∧ x.size < 33554432 := by
  obtain ⟨h1, h2, h3⟩ := bounds_of_sub h
  change 0 < x.addr at h1
  change x.addr + (16 + x.size) < 2 ^ 64 at h2
  change 16 + x.size ≤ 33554432 at h3
  omega

/-- At most one block starts at each address. -/
theorem length_le {l : List Range} (hp : Packed l) (hin : ∀ r ∈ l, r.Sub A.range) (hpos : ∀ r ∈ l, 0 < r.size) :
    l.length ≤ defaultArenaSize := by
  have hnodup : (l.map Range.start).Nodup := by
    rw [List.Nodup, List.pairwise_map]
    refine hp.imp_of_mem fun ha hb hd he => ?_
    have h1 := hpos _ ha
    have h2 := hpos _ hb
    unfold Range.Disj at hd
    omega
  have hsub : l.map Range.start ⊆ List.range' A.base defaultArenaSize := by
    intro a ha
    obtain ⟨r, hr, rfl⟩ := List.mem_map.mp ha
    obtain ⟨h1, h2⟩ := hin r hr
    have h3 := hpos r hr
    rw [List.mem_range'_1]
    change A.base ≤ r.start at h1
    change r.start + r.size ≤ A.base + defaultArenaSize at h2
    omega
  have := (List.subperm_of_subset hnodup hsub).length_le
  simpa using this

/-! ## The search -/

def prevOf (pre : List Hole) : Nat := (pre.getLast?.map Hole.addr).getD 0

theorem prevOf_concat (pre : List Hole) (x : Hole) : prevOf (pre ++ [x]) = x.addr := by
  simp [prevOf]

/-- The selected block is one of `l`, it fits, and its padding has been stored. -/
def Located (m : ByteMemory) (request alignment : Nat) (l : List Hole) : Option (Nat × Nat) → Prop
  | none => True
  | some (prev, fit) => ∃ pre x post, l = pre ++ x :: post ∧ fit = x.addr ∧ prev = prevOf pre ∧
    padding m fit = paddingFor fit alignment ∧ Word.add (paddingFor fit alignment) request ≤ x.size

theorem paddingFor_lt {alignment : Nat} (h0 : 0 < alignment) (hle : alignment ≤ pageSize) (current : Nat) :
    paddingFor current alignment < 2 ^ 32 := by
  have h : alignment ≤ 4096 := hle
  unfold paddingFor
  extract_lets address
  split
  · omega
  · omega

theorem Located.grow {request alignment : Nat} {l : List Hole} {best : Option (Nat × Nat)} {x : Hole}
    (h : Located m request alignment l best) : Located m request alignment (l ++ [x]) best := by
  cases best with
  | none => trivial
  | some b =>
    obtain ⟨pre, y, post, hl, hrest⟩ := h
    exact ⟨pre, y, post ++ [x], by rw [hl, List.append_assoc, List.cons_append], hrest⟩

theorem disj_tail {pre post : List Hole} {x : Hole} (hp : Packed ((pre ++ x :: post).map Hole.range)) :
    ∀ y ∈ pre ++ post, x.range.Disj y.range := by
  intro y hy
  have hperm : ((pre ++ x :: post).map Hole.range).Perm ((x :: (pre ++ post)).map Hole.range) :=
    List.perm_middle.map _
  exact (packed_cons.mp ((packed_perm hperm).mp hp)).1 _ (List.mem_map_of_mem hy)

theorem search_spec (request : Nat) {alignment : Nat} (h0 : 0 < alignment) (hle : alignment ≤ pageSize) (post : List Hole) :
    ∀ (pre : List Hole) (fuel : Nat) (m : ByteMemory) (current : Nat) (best : Option (Nat × Nat)),
      Chain m current post 0 → post.length < fuel → Packed ((pre ++ post).map Hole.range) →
      (∀ x ∈ pre ++ post, x.range.Sub A.range) → Located m request alignment pre best →
      ∃ m' r, search request alignment fuel m (prevOf pre) current best = some (m', r) ∧
        Located m' request alignment (pre ++ post) r ∧
        ∀ k, (∀ x ∈ pre ++ post, k < x.addr ∨ x.addr + 4 ≤ k) → m' k = m k := by
  induction post with
  | nil =>
    intro pre fuel m current best hc hfuel hp hin hbest
    cases hc
    cases fuel with
    | zero => omega
    | succ fuel => exact ⟨m, best, if_pos rfl, by rwa [List.append_nil], fun _ _ => rfl⟩
  | cons x post ih =>
    intro pre fuel m current best hc hfuel hp hin hbest
    obtain ⟨rfl, hsize, hrest⟩ := hc
    have hx := hole_bounds (hin x (by simp))
    have hassoc : pre ++ x :: post = pre ++ [x] ++ post := by simp
    cases fuel with
    | zero => omega
    | succ fuel =>
      have hlen : post.length < fuel := by
        rw [List.length_cons] at hfuel
        omega
      have hne : x.addr ≠ 0 := by omega
      rw [search, if_neg hne]
      split
      · rename_i hfit
        extract_lets m1
        have hnext : next m1 x.addr = next m x.addr := ByteMemory.read_write_other (by omega)
        have hout : ∀ k, k < x.addr ∨ x.addr + 4 ≤ k → m1 k = m k := fun k hk => ByteMemory.write_outside hk
        have hchain : Chain m1 (next m x.addr) post 0 := by
          refine chain_congr hrest fun y hy k hk1 hk2 => hout k ?_
          have hd := disj_tail hp y (List.mem_append_right _ hy)
          change x.addr + (16 + x.size) ≤ y.addr ∨ y.addr + (16 + y.size) ≤ x.addr at hd
          omega
        have hloc : Located m1 request alignment (pre ++ [x]) (some (prevOf pre, x.addr)) := by
          refine ⟨pre, x, [], rfl, rfl, rfl, padding_setPadding (paddingFor_lt h0 hle _), ?_⟩
          rw [← hsize]
          exact hfit.1
        rw [hassoc] at hp hin ⊢
        obtain ⟨m', r, hs, hl, hf⟩ := ih (pre ++ [x]) fuel m1 (next m x.addr) _ hchain hlen hp hin hloc
        rw [prevOf_concat] at hs
        refine ⟨m', r, by rw [hnext]; exact hs, hl, fun k hk => (hf k hk).trans (hout k (hk x (by simp)))⟩
      · rw [hassoc] at hp hin ⊢
        obtain ⟨m', r, hs, hl, hf⟩ := ih (pre ++ [x]) fuel m (next m x.addr) best hrest hlen hp hin hbest.grow
        rw [prevOf_concat] at hs
        exact ⟨m', r, hs, hl, hf⟩

/-! ## Taking a block -/

/-- Changes inside one hole's range leave the other holes and the held blocks alone. -/
theorem chain_frame (pre : List Hole) {post : List Hole} {x : Hole} {l : List Hole} {p e : Nat}
    (hp : Packed ((pre ++ x :: post).map Hole.range)) (hl : l ⊆ pre ++ post)
    (hm : ∀ k, ¬ x.range.Has k → m' k = m k) (hc : Chain m p l e) : Chain m' p l e := by
  refine chain_congr hc fun y hy k hk1 hk2 => hm k fun hk => ?_
  have hd := disj_tail hp y (hl hy)
  change x.addr + (16 + x.size) ≤ y.addr ∨ y.addr + (16 + y.size) ≤ x.addr at hd
  obtain ⟨h1, h2⟩ := hk
  change x.addr ≤ k at h1
  change k < x.addr + (16 + x.size) at h2
  omega

theorem split_spec {pre post : List Hole} {x : Hole} {p n : Nat} (hc : Chain m p (pre ++ x :: post) 0)
    (hp : Packed ((pre ++ x :: post).map Hole.range)) (hx : x.range.Sub A.range) (hn : n + 16 < x.size) :
    Chain (split m x.addr n) p (pre ++ ⟨x.addr, n⟩ :: ⟨x.addr + (16 + n), x.size - n - 16⟩ :: post) 0 ∧
      padding (split m x.addr n) x.addr = padding m x.addr ∧
      ∀ k, ¬ x.range.Has k → split m x.addr n k = m k := by
  obtain ⟨hpos, hspace, hsmall⟩ := hole_bounds hx
  obtain ⟨q, hpre, rfl, hsize, hpost⟩ := chain_append.mp hc
  have hnew : Word.add (Word.add x.addr sizeofMetadata) n = x.addr + (16 + n) := by
    unfold Word.add sizeofMetadata
    omega
  have hrest : Word.sub (Word.sub (size m x.addr) n) sizeofMetadata = x.size - n - 16 := by
    have h1 : Word.sub x.size n = x.size - n := Word.sub_eq (by omega)
    have h2 : Word.sub (x.size - n) 16 = x.size - n - 16 := Word.sub_eq (by omega)
    rw [hsize, h1]
    exact h2
  unfold split
  simp only [hnew, hrest]
  set new := x.addr + (16 + n) with hdef
  set m1 := setSize m new (x.size - n - 16)
  set m2 := setPadding m1 new 0
  set m3 := setNext m2 new (next m2 x.addr)
  set m4 := setSize m3 x.addr n
  have hout : ∀ k, ¬ x.range.Has k → setNext m4 x.addr new k = m k := fun k hk => by
    have hk' : k < x.addr ∨ x.addr + (16 + x.size) ≤ k := by
      change ¬ (x.addr ≤ k ∧ k < x.addr + (16 + x.size)) at hk
      omega
    have h1 : m1 k = m k := ByteMemory.write_outside (by omega)
    have h2 : m2 k = m1 k := ByteMemory.write_outside (by omega)
    have h3 : m3 k = m2 k := ByteMemory.write_outside (by omega)
    have h4 : m4 k = m3 k := ByteMemory.write_outside (by omega)
    have h5 : setNext m4 x.addr new k = m4 k := ByteMemory.write_outside (by omega)
    rw [h5, h4, h3, h2, h1]
  have hnext2 : next m2 x.addr = next m x.addr :=
    (ByteMemory.read_write_other (by omega)).trans (ByteMemory.read_write_other (by omega))
  have hsizex : size (setNext m4 x.addr new) x.addr = n :=
    (size_setNext _ _).trans (size_setSize (by omega))
  have hnextx : next (setNext m4 x.addr new) x.addr = new := next_setNext (by omega)
  have hsizen : size (setNext m4 x.addr new) new = x.size - n - 16 := by
    have h5 : size (setNext m4 x.addr new) new = size m4 new := ByteMemory.read_write_other (by omega)
    have h4 : size m4 new = size m3 new := ByteMemory.read_write_other (by omega)
    have h3 : size m3 new = size m2 new := size_setNext _ _
    have h2 : size m2 new = size m1 new := ByteMemory.read_write_other (by omega)
    rw [h5, h4, h3, h2]
    exact size_setSize (by omega)
  have hnextn : next (setNext m4 x.addr new) new = next m x.addr := by
    have h5 : next (setNext m4 x.addr new) new = next m4 new := ByteMemory.read_write_other (by omega)
    have h4 : next m4 new = next m3 new := ByteMemory.read_write_other (by omega)
    rw [h5, h4, ← hnext2]
    exact next_setNext (next_lt _)
  have hpad : padding (setNext m4 x.addr new) x.addr = padding m x.addr := by
    have h3 : padding m3 x.addr = padding m2 x.addr := ByteMemory.read_write_other (by omega)
    have h2 : padding m2 x.addr = padding m1 x.addr := ByteMemory.read_write_other (by omega)
    have h1 : padding m1 x.addr = padding m x.addr := ByteMemory.read_write_other (by omega)
    rw [padding_setNext, padding_setSize, h3, h2, h1]
  refine ⟨chain_append.mpr ⟨x.addr, chain_frame pre hp (List.subset_append_left _ _) hout hpre, rfl, hsizex, ?_⟩,
    hpad, hout⟩
  rw [hnextx]
  refine ⟨rfl, hsizen, ?_⟩
  rw [hnextn]
  exact chain_frame pre hp (List.subset_append_right _ _) hout hpost

theorem unlink_spec {pre post : List Hole} {x : Hole} {p : Nat} (hc : Chain m p (pre ++ x :: post) 0)
    (hp : Packed ((pre ++ x :: post).map Hole.range)) (hin : ∀ y ∈ pre ++ x :: post, y.range.Sub A.range) :
    Chain (unlink ⟨m, p⟩ (prevOf pre) x.addr).mem (unlink ⟨m, p⟩ (prevOf pre) x.addr).head (pre ++ post) 0 ∧
      ∀ k, (∀ y ∈ pre, ¬ y.range.Has k) → (unlink ⟨m, p⟩ (prevOf pre) x.addr).mem k = m k := by
  obtain rfl | ⟨pre', l, rfl⟩ := List.eq_nil_or_concat' pre
  · obtain ⟨rfl, -, hpost⟩ := hc
    exact ⟨hpost, fun _ _ => rfl⟩
  · have hl := hole_bounds (hin l (by simp))
    obtain ⟨q, hpre, rfl, hsize, hpost⟩ := chain_append.mp hc
    obtain ⟨q', hpre', rfl, hsizel, hnextl⟩ := chain_append.mp hpre
    have hassoc : pre' ++ [l] ++ x :: post = pre' ++ l :: (x :: post) := by simp
    rw [hassoc] at hp
    rw [prevOf_concat, unlink, if_neg (by omega)]
    have hout : ∀ k, ¬ l.range.Has k → setNext m l.addr (next m x.addr) k = m k := fun k hk => by
      refine ByteMemory.write_outside ?_
      change ¬ (l.addr ≤ k ∧ k < l.addr + (16 + l.size)) at hk
      omega
    refine ⟨?_, fun k hk => hout k (hk l (by simp))⟩
    rw [List.append_assoc]
    refine chain_append.mpr ⟨l.addr, chain_frame pre' hp (List.subset_append_left _ _) hout hpre', rfl, ?_, ?_⟩
    · exact (size_setNext _ _).trans hsizel
    · rw [next_setNext (next_lt _)]
      exact chain_frame pre' hp (fun y hy => List.mem_append_right _ (List.mem_cons_of_mem _ hy)) hout hpost

/-- The headers of the block at `a` with `n` bytes once it is handed out: a padding of 8 leaves `padding` and `size` of
the original alone, one of 16 all of it. -/
theorem handOut_header {a n : Nat} (hsize : size s.mem a = n) (hspace : a + 16 + n < 2 ^ 64)
    (hapart : padding s.mem a = 0 ∨ 8 ≤ padding s.mem a) (hroom : padding s.mem a ≤ n) :
    (handOut s a).1 = a + padding s.mem a + 16 ∧ (handOut s a).2.head = s.head ∧
      size (handOut s a).2.mem a = n ∧ padding (handOut s a).2.mem (a + padding s.mem a) = padding s.mem a ∧
      (padding s.mem a = 0 ∨ 16 ≤ padding s.mem a → next (handOut s a).2.mem a = 0) ∧
      ∀ k, ¬ Range.Has ⟨a, 16 + n⟩ k → (handOut s a).2.mem k = s.mem k := by
  unfold handOut
  extract_lets m1 user
  have hpad : padding m1 a = padding s.mem a := padding_setNext _ _
  have huser : user = a + padding s.mem a := by
    change Word.add a (padding m1 a) = _
    rw [hpad]
    exact Word.add_eq (by omega)
  have hptr : Word.add user sizeofMetadata = a + padding s.mem a + 16 := by
    rw [huser]
    exact Word.add_eq (show a + padding s.mem a + 16 < 2 ^ 64 by omega)
  have hsize1 : size m1 a = n := (size_setNext _ _).trans hsize
  have hnext1 : next m1 a = 0 := next_setNext (by omega)
  clear_value user
  generalize padding s.mem a = pad at *
  subst huser
  have hcopied : padding (m1.copy (a + pad) a sizeofMetadata) (a + pad) = pad := by
    have hread : (m1.copy (a + pad) a sizeofMetadata).read (a + pad + 0) 4 = m1.read (a + 0) 4 :=
      ByteMemory.read_copy (by decide)
    exact hread.trans hpad
  have hsame : ∀ k, k < a + 8 ∨ (pad = 0 ∨ 16 ≤ pad) → k < a + 16 → m1.copy (a + pad) a sizeofMetadata k = m1 k := by
    intro k hk1 hk2
    by_cases hin : a + pad ≤ k ∧ k < a + pad + 16
    · obtain rfl : pad = 0 := by omega
      change (if a ≤ k ∧ k < a + 16 then m1 (a + (k - a)) else m1 k) = m1 k
      rw [if_pos (by omega), Nat.add_sub_cancel' (by omega)]
    · exact ByteMemory.copy_outside (show k < a + pad ∨ a + pad + 16 ≤ k by omega)
  have hsize2 : size (m1.copy (a + pad) a sizeofMetadata) a = size m1 a :=
    ByteMemory.read_congr fun k h1 h2 => hsame k (.inl (by omega)) (by omega)
  have hnext2 : pad = 0 ∨ 16 ≤ pad → next (m1.copy (a + pad) a sizeofMetadata) a = next m1 a := fun h =>
    next_congr fun k h1 h2 => hsame k (.inr h) h2
  refine ⟨hptr, rfl, hsize2.trans hsize1, hcopied, fun h => (hnext2 h).trans hnext1, fun k hk => ?_⟩
  change ¬ (a ≤ k ∧ k < a + (16 + n)) at hk
  have hcopy : m1.copy (a + pad) a sizeofMetadata k = m1 k :=
    ByteMemory.copy_outside (show k < a + pad ∨ a + pad + 16 ≤ k by omega)
  exact hcopy.trans (ByteMemory.write_outside (by omega))

/-! ## `Allocate` -/

theorem hole_in (hin : ∀ r ∈ ranges holes held, r.Sub A.range) {x : Hole} (hx : x ∈ holes) : x.range.Sub A.range :=
  hin _ (mem_ranges.mpr (.inl ⟨x, hx, rfl⟩))

theorem held_in (hin : ∀ r ∈ ranges holes held, r.Sub A.range) {b : Held} (hb : b ∈ held) : b.range.Sub A.range :=
  hin _ (mem_ranges.mpr (.inr ⟨b, hb, rfl⟩))

theorem holes_packed (hp : Packed (ranges holes held)) : Packed (holes.map Hole.range) := (List.pairwise_append.mp hp).1

theorem holes_apart (hp : Packed (ranges holes held)) {x : Hole} (hx : x ∈ holes) {b : Held} (hb : b ∈ held) :
    x.range.Disj b.range :=
  (List.pairwise_append.mp hp).2.2 _ (List.mem_map_of_mem hx) _ (List.mem_map_of_mem hb)

theorem ranges_pos {r : Range} (hr : r ∈ ranges holes held) : 0 < r.size := by
  obtain ⟨x, -, rfl⟩ | ⟨b, -, rfl⟩ := mem_ranges.mp hr
  · change 0 < 16 + x.size
    omega
  · change 0 < 16 + b.size
    omega

theorem ranges_length_lt (hp : Packed (ranges holes held)) (hin : ∀ r ∈ ranges holes held, r.Sub A.range) :
    holes.length + 1 < walkFuel := by
  have hlen := length_le hp hin fun r hr => ranges_pos hr
  rw [ranges, List.length_append, List.length_map] at hlen
  unfold walkFuel
  omega

theorem Inv.length_lt (h : Inv A s holes held) : holes.length + 1 < walkFuel := ranges_length_lt h.packed h.inside

/-- A held block's headers are in front of its payload. -/
theorem heldOk_congr {b : Held} (hb : HeldOk m b)
    (h : ∀ k, b.addr ≤ k → k < b.addr + b.pad + 16 → m' k = m k) : HeldOk m' b := by
  obtain ⟨hsize, hnext, hpad, hapart, hfits⟩ := hb
  have hfield : ∀ k, b.addr + 4 ≤ k → k < b.addr + 16 → m' k = m k := fun k h1 h2 => h k (by omega) (by omega)
  refine ⟨(size_congr hfield).trans hsize, (next_congr hfield).trans hnext, ?_, hapart, hfits⟩
  have hread : padding m' (b.addr + b.pad) = padding m (b.addr + b.pad) :=
    ByteMemory.read_congr fun k h1 h2 => h k (by omega) (by omega)
  exact hread.trans hpad

theorem heldOk_frame {b : Held} (hb : HeldOk m b) (h : ∀ k, b.range.Has k → m' k = m k) : HeldOk m' b := by
  have hfits := hb.fits
  exact heldOk_congr hb fun k h1 h2 => h k (show b.addr ≤ k ∧ k < b.addr + (16 + b.size) by omega)

/-- Changes inside the ranges of holes keep the held blocks. -/
theorem held_kept (hp : Packed (ranges holes held)) (hm : ∀ k, (∀ x ∈ holes, ¬ x.range.Has k) → m' k = m k) {b : Held}
    (hb : b ∈ held) : ∀ k, b.range.Has k → m' k = m k := by
  refine fun k hk => hm k fun x hx hxk => ?_
  have hd := holes_apart hp hx hb
  unfold Range.Disj at hd
  unfold Range.Has at hk hxk
  omega

theorem mem_cut {y : Hole} (hy : y ∈ pre ++ [x]) : y ∈ pre ++ x :: post := by
  rw [← List.singleton_append, ← List.append_assoc]
  exact List.mem_append_left _ hy

theorem ranges_middle : (ranges (pre ++ x :: post) held).Perm (x.range :: ranges (pre ++ post) held) :=
  ranges_perm List.perm_middle (List.Perm.refl _)

/-- The block at `x` taken off the list and handed out. -/
theorem handOut_chain (hc : Chain s.mem s.head (pre ++ x :: post) 0) (hp : Packed ((pre ++ x :: post).map Hole.range))
    (hin : ∀ y ∈ pre ++ x :: post, y.range.Sub A.range)
    (hapart : padding s.mem x.addr = 0 ∨ 8 ≤ padding s.mem x.addr) (hroom : padding s.mem x.addr ≤ x.size) {t : State}
    {ptr : Nat} (ht : IOHeap.handOut (unlink s (prevOf pre) x.addr) x.addr = (ptr, t)) :
    ptr = x.addr + padding s.mem x.addr + 16 ∧ Chain t.mem t.head (pre ++ post) 0 ∧ size t.mem x.addr = x.size ∧
      padding t.mem (x.addr + padding s.mem x.addr) = padding s.mem x.addr ∧
      (padding s.mem x.addr = 0 ∨ 16 ≤ padding s.mem x.addr → next t.mem x.addr = 0) ∧
      ∀ k, (∀ y ∈ pre ++ [x], ¬ y.range.Has k) → t.mem k = s.mem k := by
  obtain ⟨hpos, hspace, -⟩ := hole_bounds (hin x (by simp))
  obtain ⟨hchain, hout⟩ := unlink_spec hc hp hin
  have hst : (⟨s.mem, s.head⟩ : State) = s := rfl
  rw [hst] at hchain hout
  generalize unlink s (prevOf pre) x.addr = u at *
  -- the header of `x` is not touched by unlinking
  have hsame : ∀ k, x.addr ≤ k → k < x.addr + 16 → u.mem k = s.mem k := fun k h1 h2 => by
    refine hout k fun y hy hk => ?_
    have hd := disj_tail hp y (List.mem_append_left _ hy)
    change x.addr + (16 + x.size) ≤ y.addr ∨ y.addr + (16 + y.size) ≤ x.addr at hd
    change y.addr ≤ k ∧ k < y.addr + (16 + y.size) at hk
    omega
  have hpad : padding u.mem x.addr = padding s.mem x.addr :=
    ByteMemory.read_congr fun k h1 h2 => hsame k h1 (by omega)
  have hsize : size u.mem x.addr = x.size := by
    obtain ⟨q, -, rfl, hsize, -⟩ := chain_append.mp hc
    exact (size_congr fun k h1 h2 => hsame k (by omega) h2).trans hsize
  rw [← hpad] at hapart hroom ⊢
  obtain ⟨hptr, hhead, hsize', hpad', hnext, hout'⟩ := handOut_header hsize hspace hapart hroom
  rw [ht] at hptr hhead hsize' hpad' hnext hout'
  refine ⟨hptr, ?_, hsize', hpad', hnext, fun k hk => ?_⟩
  · rw [hhead]
    exact chain_frame pre hp (List.Subset.refl _) hout' hchain
  · rw [hout' k (hk x (by simp))]
    exact hout k fun y hy => hk y (List.mem_append_left _ hy)

/-- What is left of `x` on the list when `n` bytes are handed out. -/
def Remains (x : Hole) (n : Nat) (rest : List Hole) : Prop :=
  (n = x.size ∧ rest = []) ∨ (n + 16 < x.size ∧ rest = [⟨x.addr + (16 + n), x.size - n - 16⟩])

/-- The block selected by the search, split if it is large enough, and handed out. -/
theorem take_chain (hc : Chain s.mem s.head (pre ++ x :: post) 0) (hp : Packed ((pre ++ x :: post).map Hole.range))
    (hin : ∀ y ∈ pre ++ x :: post, y.range.Sub A.range) {request : Nat} (hsize : 16 ≤ x.size)
    (hapart : padding s.mem x.addr = 0 ∨ 8 ≤ padding s.mem x.addr)
    (hfits : padding s.mem x.addr + request ≤ x.size) {t : State} {ptr : Nat}
    (ht : IOHeap.take s request (prevOf pre) x.addr = (ptr, t)) :
    ∃ n rest, Remains x n rest ∧ padding s.mem x.addr + request ≤ n ∧
      (n ≠ x.size → n = padding s.mem x.addr + request) ∧
      ptr = x.addr + padding s.mem x.addr + 16 ∧ Chain t.mem t.head (pre ++ (rest ++ post)) 0 ∧
      size t.mem x.addr = n ∧ padding t.mem (x.addr + padding s.mem x.addr) = padding s.mem x.addr ∧
      (padding s.mem x.addr = 0 ∨ 16 ≤ padding s.mem x.addr → next t.mem x.addr = 0) ∧
      ∀ k, (∀ y ∈ pre ++ [x], ¬ y.range.Has k) → t.mem k = s.mem k := by
  have hx := hin x (by simp)
  obtain ⟨hpos, hspace, hsmall⟩ := hole_bounds hx
  have hsizex : size s.mem x.addr = x.size := by
    obtain ⟨q, -, rfl, hsize, -⟩ := chain_append.mp hc
    exact hsize
  have hsum : Word.add request (padding s.mem x.addr) = padding s.mem x.addr + request := by
    rw [Nat.add_comm]
    exact Word.add_eq (by omega)
  have hless : Word.sub (size s.mem x.addr) sizeofMetadata = x.size - 16 := by
    rw [hsizex]
    exact Word.sub_eq hsize
  unfold IOHeap.take at ht
  extract_lets n m' at ht
  change n = _ at hsum
  by_cases hsplit : padding s.mem x.addr + request < x.size - 16
  · have hm' : m' = IOHeap.split s.mem x.addr n := if_pos (by rw [hless, hsum]; exact hsplit)
    have hn : n + 16 < x.size := by omega
    clear_value m' n
    obtain ⟨hchain, hpad, hout⟩ := split_spec hc hp hx hn
    rw [← hm'] at hchain hpad hout
    have hsum' : x.range = ⟨x.addr, (16 + n) + (16 + (x.size - n - 16))⟩ :=
      congrArg (Range.mk x.addr) (show 16 + x.size = (16 + n) + (16 + (x.size - n - 16)) by omega)
    have hmiddle : ∀ l : List Hole, ((pre ++ l ++ post).map Hole.range).Perm
        (l.map Hole.range ++ (pre ++ post).map Hole.range) := fun l => by
      rw [← List.map_append, ← List.append_assoc]
      exact (List.perm_append_comm.append_right post).map _
    have hp' : Packed ((pre ++ ⟨x.addr, n⟩ :: ⟨x.addr + (16 + n), x.size - n - 16⟩ :: post).map Hole.range) := by
      have hpx := (packed_perm (hmiddle [x])).mp (by simpa using hp)
      change Packed (x.range :: _) at hpx
      rw [hsum'] at hpx
      have hperm := hmiddle [⟨x.addr, n⟩, ⟨x.addr + (16 + n), x.size - n - 16⟩]
      rw [List.append_assoc] at hperm
      exact (packed_perm (hperm.trans (List.Perm.swap _ _ _))).mpr (packed_cut hpx)
    have hin' : ∀ y ∈ pre ++ ⟨x.addr, n⟩ :: ⟨x.addr + (16 + n), x.size - n - 16⟩ :: post, y.range.Sub A.range := by
      intro y hy
      rcases List.mem_append.mp hy with hy | hy
      · exact hin y (List.mem_append_left _ hy)
      rcases List.mem_cons.mp hy with rfl | hy
      · refine sub_trans (b := x.range) ⟨Nat.le_refl x.addr, ?_⟩ hx
        change x.addr + (16 + n) ≤ x.addr + (16 + x.size)
        omega
      rcases List.mem_cons.mp hy with rfl | hy
      · refine sub_trans (b := x.range) ⟨?_, ?_⟩ hx
        · change x.addr ≤ x.addr + (16 + n)
          omega
        · change x.addr + (16 + n) + (16 + (x.size - n - 16)) ≤ x.addr + (16 + x.size)
          omega
      · exact hin y (by simp [hy])
    have hspec := handOut_chain (s := ⟨m', s.head⟩) (x := ⟨x.addr, n⟩) hchain hp' hin' (by rwa [hpad])
      (by rw [hpad]; change padding s.mem x.addr ≤ n; omega) ht
    simp only [hpad] at hspec
    obtain ⟨hptr, hchain', hsize', hpad', hnext, hout'⟩ := hspec
    refine ⟨n, [⟨x.addr + (16 + n), x.size - n - 16⟩], .inr ⟨hn, rfl⟩, Nat.le_of_eq hsum.symm, fun _ => hsum, hptr,
      hchain', hsize', hpad', hnext, fun k hk => ?_⟩
    have hxk := hk x (by simp)
    rw [hout' k fun y hy => ?_]
    · exact hout k hxk
    · rcases List.mem_append.mp hy with hy | hy
      · exact hk y (List.mem_append_left _ hy)
      · obtain rfl := List.mem_singleton.mp hy
        change ¬ (x.addr ≤ k ∧ k < x.addr + (16 + n))
        change ¬ (x.addr ≤ k ∧ k < x.addr + (16 + x.size)) at hxk
        omega
  · have hm' : m' = s.mem := if_neg (by rw [hless, hsum]; exact hsplit)
    clear_value m'
    subst hm'
    obtain ⟨hptr, hchain, hsize', hpad, hnext, hout⟩ := handOut_chain hc hp hin hapart (by omega) ht
    exact ⟨x.size, [], .inl ⟨rfl, rfl⟩, hfits, fun h => absurd rfl h, hptr, hchain, hsize', hpad, hnext, hout⟩

/-- The ranges when `b` is taken from `x`. -/
theorem taken_ranges {b : Held} {rest : List Hole} (hr : Remains x b.size rest) (hb : b.addr = x.addr)
    (hp : Packed (ranges (pre ++ x :: post) held)) :
    Packed (ranges (pre ++ (rest ++ post)) (b :: held)) ∧
      ∀ k, Holds (ranges (pre ++ (rest ++ post)) (b :: held)) k ↔ Holds (ranges (pre ++ x :: post) held) k := by
  have hrange : b.range = ⟨x.addr, 16 + b.size⟩ := congrArg (Range.mk · (16 + b.size)) hb
  rcases hr with ⟨hn, rfl⟩ | ⟨hn, rfl⟩
  · have hperm : (ranges (pre ++ post) (b :: held)).Perm (ranges (pre ++ x :: post) held) := by
      refine (ranges_held b).trans ?_
      rw [hrange, hn]
      exact ranges_middle.symm
    exact ⟨(packed_perm hperm).mpr hp, fun k => holds_perm hperm k⟩
  · have hsum : x.range = ⟨x.addr, (16 + b.size) + (16 + (x.size - b.size - 16))⟩ :=
      congrArg (Range.mk x.addr) (show 16 + x.size = (16 + b.size) + (16 + (x.size - b.size - 16)) by omega)
    have hperm : (ranges (pre ++ ([⟨x.addr + (16 + b.size), x.size - b.size - 16⟩] ++ post)) (b :: held)).Perm
        (⟨x.addr + (16 + b.size), 16 + (x.size - b.size - 16)⟩ :: ⟨x.addr, 16 + b.size⟩ ::
          ranges (pre ++ post) held) := by
      refine (ranges_held b).trans ?_
      rw [hrange]
      exact (ranges_middle.cons _).trans (List.Perm.swap _ _ _)
    have hold := (packed_perm ranges_middle).mp hp
    rw [hsum] at hold
    refine ⟨(packed_perm hperm).mpr (packed_cut hold), fun k => ?_⟩
    rw [holds_perm hperm, holds_cut, ← hsum]
    exact (holds_perm ranges_middle k).symm

theorem Inv.take (h : Inv A s (pre ++ x :: post) held) {request : Nat} (hsize : 16 ≤ x.size)
    (hapart : padding s.mem x.addr = 0 ∨ 16 ≤ padding s.mem x.addr)
    (hfits : padding s.mem x.addr + request ≤ x.size) :
    ∃ holes' b, (IOHeap.take s request (prevOf pre) x.addr).1 = b.payload.start ∧ b.request = request ∧
      Inv A (IOHeap.take s request (prevOf pre) x.addr).2 holes' (b :: held) := by
  generalize ht : IOHeap.take s request (prevOf pre) x.addr = r
  obtain ⟨ptr, t⟩ := r
  obtain ⟨n, rest, hr, hroom, -, hptr, hchain, hsize', hpad, hnext, hout⟩ := take_chain h.chain (holes_packed h.packed)
    (fun y hy => hole_in h.inside hy) hsize (by omega) hfits ht
  obtain ⟨hp, hholds⟩ := taken_ranges (b := ⟨x.addr, n, padding s.mem x.addr, request⟩) hr rfl h.packed
  have hkept : ∀ b ∈ held, HeldOk t.mem b := fun b hb =>
    heldOk_frame (h.headers b hb) (held_kept h.packed (fun k hk => hout k fun y hy => hk y (mem_cut hy)) hb)
  refine ⟨pre ++ (rest ++ post), ⟨x.addr, n, padding s.mem x.addr, request⟩, hptr, rfl, hchain, fun b hb => ?_, hp,
    fun z hz => sub_of_has (ranges_pos hz) fun k hk => ?_⟩
  · rcases List.mem_cons.mp hb with rfl | hb
    · exact ⟨hsize', hnext hapart, hpad, hapart, hroom⟩
    · exact hkept b hb
  · obtain ⟨y, hy, hyk⟩ := (hholds k).mp ⟨z, hz, hk⟩
    have hsub := h.inside y hy
    unfold Range.Has Range.Sub at *
    omega

theorem Inv.size_eq (h : Inv A s holes held) {x : Hole} (hx : x ∈ holes) : size s.mem x.addr = x.size := by
  obtain ⟨pre, post, rfl⟩ := List.append_of_mem hx
  obtain ⟨q, -, rfl, hsize, -⟩ := chain_append.mp h.chain
  exact hsize

theorem range_inj {x y : Hole} (h : x.range = y.range) : x = y := by
  obtain ⟨haddr, hsize⟩ := Range.mk.inj h
  exact congr (congrArg Hole.mk haddr) (Nat.add_left_cancel hsize)

/-- The search only stores paddings in the headers of holes. -/
theorem chain_searched {p e : Nat} (hp : Packed (holes.map Hole.range)) (hc : Chain m p holes e)
    (hm : ∀ k, (∀ x ∈ holes, k < x.addr ∨ x.addr + 4 ≤ k) → m' k = m k) :
    Chain m' p holes e ∧ ∀ k, (∀ x ∈ holes, ¬ x.range.Has k) → m' k = m k := by
  refine ⟨chain_congr hc fun x hx k hk1 hk2 => hm k fun y hy => ?_, fun k hk => hm k fun y hy => ?_⟩
  · by_cases hxy : x = y
    · subst hxy
      exact .inr hk1
    · have hne : x.range ≠ y.range := fun he => hxy (range_inj he)
      have hd := packed_disj hp (List.mem_map_of_mem hx) (List.mem_map_of_mem hy) hne
      change x.addr + (16 + x.size) ≤ y.addr ∨ y.addr + (16 + y.size) ≤ x.addr at hd
      omega
  · have hout := hk y hy
    change ¬ (y.addr ≤ k ∧ k < y.addr + (16 + y.size)) at hout
    omega

theorem Inv.searched (h : Inv A s holes held)
    (hm : ∀ k, (∀ x ∈ holes, k < x.addr ∨ x.addr + 4 ≤ k) → m' k = s.mem k) : Inv A ⟨m', s.head⟩ holes held := by
  obtain ⟨hchain, hout⟩ := chain_searched (holes_packed h.packed) h.chain hm
  exact ⟨hchain, fun b hb => heldOk_frame (h.headers b hb) (held_kept h.packed hout hb), h.packed, h.inside⟩

theorem Inv.allocate (h : Inv A s holes held) {request alignment : Nat} (h0 : 0 < alignment)
    (hok : ∀ fit, Selected s request alignment fit → sizeofMetadata ≤ size s.mem fit ∧
      (paddingFor fit alignment = 0 ∨ sizeofMetadata ≤ paddingFor fit alignment) ∧
      paddingFor fit alignment + request < 2 ^ 64) :
    ∃ r, IOHeap.allocate s request alignment = some r ∧
      ((r.1 = 0 ∧ Inv A r.2 holes held) ∨
        ∃ holes' b, r.1 = b.payload.start ∧ b.request = request ∧ Inv A r.2 holes' (b :: held)) := by
  unfold IOHeap.allocate
  by_cases hal : alignment > pageSize ∨ alignment % 8 ≠ 0
  · rw [if_pos hal]
    exact ⟨_, rfl, .inl ⟨rfl, h⟩⟩
  rw [if_neg hal]
  have hlen := h.length_lt
  obtain ⟨m', r, hs, hloc, hout⟩ := search_spec request h0 (Nat.le_of_not_lt fun hn => hal (.inl hn)) holes [] walkFuel
    s.mem s.head none h.chain (by omega) (holes_packed h.packed) (fun x hx => hole_in h.inside hx) trivial
  have hs' : search request alignment walkFuel s.mem 0 s.head none = some (m', r) := hs
  have hinv := h.searched hout
  rw [hs', Option.map_some]
  cases r with
  | none => exact ⟨_, rfl, .inl ⟨rfl, hinv⟩⟩
  | some b =>
    obtain ⟨prev, fit⟩ := b
    obtain ⟨pre, x, post, hl, rfl, rfl, hpad, hfit⟩ := hloc
    rw [List.nil_append] at hl
    subst hl
    obtain ⟨hsize, hapart, hwrap⟩ := hok x.addr ⟨m', _, hs'⟩
    rw [h.size_eq (by simp)] at hsize
    rw [Word.add_eq hwrap] at hfit
    refine ⟨_, rfl, .inr (hinv.take hsize ?_ ?_)⟩
    · rw [hpad]
      exact hapart
    · rw [hpad]
      exact hfit

end

end BadLands.Mm.IOHeap
