import BadLands.Mm.IOHeapAllocate

/-!
# Runs of the IO heap

`Free` walks the list, inserts the block and merges adjacent blocks on the way. The walk can
pass the place of insertion by merging two blocks around it: the block is then lost, but what
stays on the list is never more than what was free (`Refined`).
-/
namespace BadLands.Mm.IOHeap

open BadLands.Core BadLands.Core.Machine BadLands.Core.Ranges BadLands.Mm.Layout

section
variable {A : Arena} {m m' : ByteMemory} {s : State} {holes : List Hole} {held : List Held} {x : Hole}

/-! ## `Free` -/

theorem range_pos (x : Hole) : 0 < x.range.size := by
  change 0 < 16 + x.size
  omega

/-- `hs'` holds no more memory than `hs`: some holes may have been merged or dropped. -/
structure Refined (hs hs' : List Hole) : Prop where
  packed : ∀ rest : List Range, (∀ r ∈ rest, 0 < r.size) → Packed (hs.map Hole.range ++ rest) →
    Packed (hs'.map Hole.range ++ rest)
  sub : ∀ z : Range, (∀ x ∈ hs, x.range.Sub z) → ∀ x ∈ hs', x.range.Sub z

theorem Refined.trans {hs₁ hs₂ hs₃ : List Hole} (h : Refined hs₁ hs₂) (h' : Refined hs₂ hs₃) : Refined hs₁ hs₃ :=
  ⟨fun rest h0 hp => h'.packed rest h0 (h.packed rest h0 hp), fun z hz => h'.sub z (h.sub z hz)⟩

theorem refined_perm {hs hs' : List Hole} (h : hs.Perm hs') : Refined hs hs' :=
  ⟨fun _ _ hp => (packed_perm ((h.map _).append_right _)).mp hp, fun _ hz x hx => hz x (h.mem_iff.mpr hx)⟩

theorem refined_nil (hs : List Hole) : Refined hs [] :=
  ⟨fun _ _ hp => (List.pairwise_append.mp hp).2.1, fun _ _ _ hx => (by cases hx)⟩

theorem Refined.append {hs hs' : List Hole} (h : Refined hs hs') (l : List Hole) : Refined (l ++ hs) (l ++ hs') := by
  refine ⟨fun rest h0 hp => ?_, fun z hz x hx => ?_⟩
  · have hmove : ∀ a : List Hole, ((l ++ a).map Hole.range ++ rest).Perm
        (a.map Hole.range ++ (l.map Hole.range ++ rest)) := fun a => by
      rw [List.map_append, List.append_assoc]
      exact List.perm_append_comm_assoc _ _ _
    refine (packed_perm (hmove hs')).mpr (h.packed _ (fun r hr => ?_) ((packed_perm (hmove hs)).mp hp))
    rcases List.mem_append.mp hr with hr | hr
    · obtain ⟨x, -, rfl⟩ := List.mem_map.mp hr
      exact range_pos x
    · exact h0 r hr
  · rcases List.mem_append.mp hx with hx | hx
    · exact hz x (List.mem_append_left _ hx)
    · exact h.sub z (fun y hy => hz y (List.mem_append_right _ hy)) x hx

/-- Two adjacent holes become one. -/
theorem refined_merge {x y : Hole} (h : x.addr + 16 + x.size = y.addr) (l : List Hole) :
    Refined (x :: y :: l) (⟨x.addr, x.size + (16 + y.size)⟩ :: l) := by
  refine ⟨fun rest h0 hp => ?_, fun z hz k hk => ?_⟩
  · change Packed (x.range :: y.range :: (l.map Hole.range ++ rest)) at hp
    change Packed (Hole.range ⟨x.addr, x.size + (16 + y.size)⟩ :: (l.map Hole.range ++ rest))
    obtain ⟨hx, hp⟩ := packed_cons.mp hp
    obtain ⟨hy, hp⟩ := packed_cons.mp hp
    refine packed_cons.mpr ⟨fun r hr => ?_, hp⟩
    have h1 := hx r (List.mem_cons_of_mem _ hr)
    have h2 := hy r hr
    have hpos : 0 < r.size := by
      rcases List.mem_append.mp hr with hr | hr
      · obtain ⟨k, -, rfl⟩ := List.mem_map.mp hr
        exact range_pos k
      · exact h0 r hr
    change x.addr + (16 + x.size) ≤ r.start ∨ r.start + r.size ≤ x.addr at h1
    change y.addr + (16 + y.size) ≤ r.start ∨ r.start + r.size ≤ y.addr at h2
    change x.addr + (16 + (x.size + (16 + y.size))) ≤ r.start ∨ r.start + r.size ≤ x.addr
    omega
  · rcases List.mem_cons.mp hk with rfl | hk
    · have h1 := (hz x List.mem_cons_self).1
      have h2 := (hz y (List.mem_cons_of_mem _ List.mem_cons_self)).2
      change z.start ≤ x.addr at h1
      change y.addr + (16 + y.size) ≤ z.start + z.size at h2
      refine ⟨h1, ?_⟩
      change x.addr + (16 + (x.size + (16 + y.size))) ≤ z.start + z.size
      omega
    · exact hz k (List.mem_cons_of_mem _ (List.mem_cons_of_mem _ hk))

/-! ### One turn of the walk -/

theorem disj_of_packed {x : Hole} {l : List Hole} (h : Packed ((x :: l).map Hole.range)) {y : Hole} (hy : y ∈ l) :
    x.addr + (16 + x.size) ≤ y.addr ∨ y.addr + (16 + y.size) ≤ x.addr :=
  (packed_cons.mp h).1 _ (List.mem_map_of_mem hy)

theorem not_has {x : Hole} {k : Nat} (h : ¬ x.range.Has k) : k < x.addr ∨ x.addr + (16 + x.size) ≤ k := by
  change ¬ (x.addr ≤ k ∧ k < x.addr + (16 + x.size)) at h
  omega

theorem setNext_outside {x : Hole} {k : Nat} (h : ¬ x.range.Has k) (m : ByteMemory) (v : Nat) :
    setNext m x.addr v k = m k := by
  have hk := not_has h
  exact ByteMemory.write_outside (by omega)

theorem blockEnd {x : Hole} (hx : x.range.Sub A.range) (hsize : size m x.addr = x.size) :
    Word.add (Word.add x.addr sizeofMetadata) (size m x.addr) = x.addr + 16 + x.size := by
  obtain ⟨-, hspace, -⟩ := hole_bounds hx
  rw [hsize]
  unfold Word.add sizeofMetadata
  omega

/-- Two adjacent blocks as one. -/
def Hole.join (x y : Hole) : Hole := ⟨x.addr, x.size + (16 + y.size)⟩

theorem coalesce_keep {l : List Hole} (hx : x.range.Sub A.range) (hc : Chain m x.addr (x :: l) 0)
    (hapart : ∀ y ∈ l.head?, x.addr + 16 + x.size ≠ y.addr) : coalesce m x.addr = m := by
  obtain ⟨-, hsize, hrest⟩ := hc
  unfold coalesce
  extract_lets nxt m1
  refine if_neg fun hn => ?_
  cases l with
  | nil => exact hn.1 hrest
  | cons y l =>
    refine hapart y rfl ?_
    rw [← blockEnd hx hsize, hn.2]
    exact hrest.1

theorem coalesce_join {y : Hole} {l : List Hole} (hc : Chain m x.addr (x :: y :: l) 0)
    (hp : Packed ((x :: y :: l).map Hole.range)) (hin : ∀ z ∈ x :: y :: l, z.range.Sub A.range)
    (hadj : x.addr + 16 + x.size = y.addr) :
    Chain (coalesce m x.addr) x.addr (x.join y :: l) 0 ∧ ∀ k, ¬ x.range.Has k → coalesce m x.addr k = m k := by
  obtain ⟨-, hsize, hnext, hsizey, hrest⟩ := hc
  have hx := hin x List.mem_cons_self
  obtain ⟨hpos, hspace, hsmall⟩ := hole_bounds hx
  obtain ⟨hposy, hspacey, hsmally⟩ := hole_bounds (hin y (by simp))
  have hbig := (refined_merge hadj l).sub A.range hin _ List.mem_cons_self
  obtain ⟨-, -, hmerged⟩ := hole_bounds hbig
  have heq : coalesce m x.addr = setNext (setSize m x.addr (x.size + (16 + y.size))) x.addr
      (next (setSize m x.addr (x.size + (16 + y.size))) y.addr) := by
    unfold coalesce
    extract_lets nxt m1
    rw [if_pos ⟨by rw [show nxt = y.addr from hnext]; omega, by rw [blockEnd hx hsize, hadj]; exact hnext.symm⟩]
    rw [show m1 = setSize m x.addr (x.size + (16 + y.size)) by
      unfold m1 nxt
      rw [hnext, hsize, ← hsizey, hnext]
      rfl, show nxt = y.addr from hnext]
  have hnexty : next (setSize m x.addr (x.size + (16 + y.size))) y.addr = next m y.addr :=
    ByteMemory.read_write_other (by omega)
  rw [hnexty] at heq
  have hout : ∀ k, ¬ x.range.Has k → coalesce m x.addr k = m k := fun k hk => by
    have hk' := not_has hk
    rw [heq]
    have h1 : setSize m x.addr (x.size + (16 + y.size)) k = m k := ByteMemory.write_outside (by omega)
    exact (ByteMemory.write_outside (by omega)).trans h1
  refine ⟨⟨rfl, ?_, ?_⟩, hout⟩
  · rw [heq, size_setNext]
    exact size_setSize (by change x.size + (16 + y.size) < _ at hmerged; omega)
  · have hnew : next (coalesce m x.addr) x.addr = next m y.addr := by
      rw [heq]
      exact next_setNext (next_lt _)
    rw [hnew]
    rw [hnext] at hrest
    exact chain_frame [] hp (fun z hz => List.mem_cons_of_mem _ hz) hout hrest

/-- `Coalesce` changes the header of `current` only. -/
theorem coalesce_spec {l : List Hole} (hc : Chain m x.addr (x :: l) 0) (hp : Packed ((x :: l).map Hole.range))
    (hin : ∀ y ∈ x :: l, y.range.Sub A.range) :
    ∃ x' l', x'.addr = x.addr ∧ Chain (coalesce m x.addr) x.addr (x' :: l') 0 ∧ Refined (x :: l) (x' :: l') ∧
      l' <:+ l ∧ x.size ≤ x'.size ∧ ∀ k, ¬ x.range.Has k → coalesce m x.addr k = m k := by
  by_cases hadj : ∀ y ∈ l.head?, x.addr + 16 + x.size ≠ y.addr
  · rw [coalesce_keep (hin x List.mem_cons_self) hc hadj]
    exact ⟨x, l, rfl, hc, refined_perm (List.Perm.refl _), List.suffix_refl _, Nat.le_refl _, fun _ _ => rfl⟩
  · cases l with
    | nil => exact absurd (fun y hy => by cases hy) hadj
    | cons y l =>
      have hadj : x.addr + 16 + x.size = y.addr := Classical.byContradiction fun hne => hadj fun z hz => by
        cases hz
        exact hne
      obtain ⟨hchain, hout⟩ := coalesce_join hc hp hin hadj
      exact ⟨x.join y, l, rfl, hchain, refined_merge hadj l, List.suffix_cons _ _, Nat.le_add_right _ _, hout⟩

/-- The block that is still to be inserted: its header, unlinked. -/
def Pending (m : ByteMemory) (metadata : Nat) (y : Hole) : Prop :=
  y.addr = metadata ∧ size m metadata = y.size ∧ next m metadata = 0

theorem Pending.congr {metadata : Nat} {y : Hole} (h : Pending m metadata y)
    (hm : ∀ k, y.range.Has k → m' k = m k) : Pending m' metadata y := by
  obtain ⟨rfl, hsize, hnext⟩ := h
  have hsame : ∀ k, y.addr + 4 ≤ k → k < y.addr + 16 → m' k = m k := fun k h1 h2 =>
    hm k (show y.addr ≤ k ∧ k < y.addr + (16 + y.size) by omega)
  exact ⟨rfl, (size_congr hsame).trans hsize, (next_congr hsame).trans hnext⟩

/-- Insertion after the last block keeps the `next` of the new one. -/
theorem insertAfter_last {y : Hole} (hsizey : size m y.addr = y.size) (hnexty : next m y.addr = 0)
    (hc : Chain m x.addr [x] 0) (hp : Packed ([x, y].map Hole.range)) (hin : ∀ k ∈ [x, y], k.range.Sub A.range) :
    ∃ m1, insertAfter m y.addr x.addr = (true, m1) ∧ Chain m1 x.addr [x, y] 0 ∧
      ∀ k, ¬ x.range.Has k → m1 k = m k := by
  obtain ⟨-, hsize, hrest⟩ := hc
  have hx := hole_bounds (hin x (by simp))
  have hyb := hole_bounds (hin y (by simp))
  have hd := disj_of_packed hp List.mem_cons_self
  have hnull : next m x.addr = 0 := hrest
  have hins : insertAfter m y.addr x.addr = (true, setNext m x.addr y.addr) := by
    unfold insertAfter
    extract_lets nxt
    rw [if_pos (show nxt = 0 from hnull)]
  refine ⟨_, hins, ⟨rfl, (size_setNext _ _).trans hsize, ?_⟩, fun k hk => ?_⟩
  · rw [next_setNext (by omega)]
    refine ⟨rfl, ?_, ?_⟩
    · exact (ByteMemory.read_write_other (by omega)).trans hsizey
    · have : next (setNext m x.addr y.addr) y.addr = next m y.addr := ByteMemory.read_write_other (by omega)
      exact this.trans hnexty
  · exact setNext_outside hk m y.addr

theorem insertAfter_between {y z : Hole} {l : List Hole} (hsizey : size m y.addr = y.size)
    (hc : Chain m x.addr (x :: z :: l) 0) (hp : Packed ((x :: y :: z :: l).map Hole.range))
    (hin : ∀ k ∈ x :: y :: z :: l, k.range.Sub A.range)
    (hplace : x.addr + 16 + x.size ≤ y.addr ∧ y.addr < z.addr) :
    ∃ m1, insertAfter m y.addr x.addr = (true, m1) ∧ Chain m1 x.addr (x :: y :: z :: l) 0 ∧
      ∀ k, ¬ x.range.Has k → ¬ y.range.Has k → m1 k = m k := by
  obtain ⟨-, hsize, hrest⟩ := hc
  have hx := hole_bounds (hin x (by simp))
  have hyb := hole_bounds (hin y (by simp))
  have hz := hole_bounds (hin z (by simp))
  have hd := disj_of_packed hp List.mem_cons_self
  have hnext : next m x.addr = z.addr := hrest.1
  have hins : insertAfter m y.addr x.addr = (true, setNext (setNext m y.addr z.addr) x.addr y.addr) := by
    unfold insertAfter
    extract_lets nxt
    rw [show nxt = z.addr from hnext, if_neg (by omega), blockEnd (hin x (by simp)) hsize, if_pos hplace]
  have hx1 : ∀ k, ¬ y.range.Has k → setNext m y.addr z.addr k = m k := fun k hk => setNext_outside hk m z.addr
  have hx2 : ∀ k, ¬ x.range.Has k → setNext (setNext m y.addr z.addr) x.addr y.addr k = setNext m y.addr z.addr k :=
    fun k hk => setNext_outside hk _ y.addr
  refine ⟨_, hins, ⟨rfl, ?_, ?_⟩, fun k hkx hky => (hx2 k hkx).trans (hx1 k hky)⟩
  · rw [size_setNext]
    exact (ByteMemory.read_write_other (by omega)).trans hsize
  · rw [next_setNext (by omega)]
    refine ⟨rfl, ?_, ?_⟩
    · have h1 : size (setNext (setNext m y.addr z.addr) x.addr y.addr) y.addr = size (setNext m y.addr z.addr) y.addr :=
        ByteMemory.read_write_other (by omega)
      rw [h1, size_setNext, hsizey]
    · have h1 : next (setNext (setNext m y.addr z.addr) x.addr y.addr) y.addr = z.addr := by
        have h2 : next (setNext (setNext m y.addr z.addr) x.addr y.addr) y.addr = next (setNext m y.addr z.addr) y.addr :=
          ByteMemory.read_write_other (by omega)
        exact h2.trans (next_setNext (by omega))
      rw [h1, ← hnext]
      have hc1 : Chain (setNext m y.addr z.addr) (next m x.addr) (z :: l) 0 :=
        chain_frame [x] (by simpa using hp) (fun k hk => List.mem_cons_of_mem _ hk) hx1 hrest
      rw [hnext] at hc1 ⊢
      exact chain_frame [] hp (fun k hk => List.mem_cons_of_mem _ hk) hx2 hc1

theorem insertAfter_past (metadata : Nat) {z : Hole} {l : List Hole} (hc : Chain m x.addr (x :: z :: l) 0)
    (hin : ∀ k ∈ x :: z :: l, k.range.Sub A.range)
    (hplace : ¬ (x.addr + 16 + x.size ≤ metadata ∧ metadata < z.addr)) :
    insertAfter m metadata x.addr = (false, m) := by
  obtain ⟨-, hsize, hrest⟩ := hc
  have hz := hole_bounds (hin z (by simp))
  have hnext : next m x.addr = z.addr := hrest.1
  unfold insertAfter
  extract_lets nxt
  rw [show nxt = z.addr from hnext, if_neg (by omega), blockEnd (hin x (by simp)) hsize, if_neg hplace]

/-- One attempt at insertion after `x`: it succeeds, or nothing changes. -/
theorem insertAfter_spec {metadata : Nat} {l : List Hole} {y : Hole} (hy : Pending m metadata y)
    (hc : Chain m x.addr (x :: l) 0) (hp : Packed ((x :: y :: l).map Hole.range))
    (hin : ∀ k ∈ x :: y :: l, k.range.Sub A.range) :
    insertAfter m metadata x.addr = (false, m) ∨
      ∃ m1, insertAfter m metadata x.addr = (true, m1) ∧ Chain m1 x.addr (x :: y :: l) 0 ∧
        ∀ k, ¬ x.range.Has k → ¬ y.range.Has k → m1 k = m k := by
  obtain ⟨rfl, hsizey, hnexty⟩ := hy
  cases l with
  | nil =>
    obtain ⟨m1, hins, hchain, hout⟩ := insertAfter_last hsizey hnexty hc hp hin
    exact .inr ⟨m1, hins, hchain, fun k hk _ => hout k hk⟩
  | cons z l =>
    by_cases hplace : x.addr + 16 + x.size ≤ y.addr ∧ y.addr < z.addr
    · exact .inr (insertAfter_between hsizey hc hp hin hplace)
    · refine .inl (insertAfter_past _ hc (fun k hk => hin k ?_) hplace)
      rcases List.mem_cons.mp hk with rfl | hk
      · exact List.mem_cons_self
      · exact List.mem_cons_of_mem _ (List.mem_cons_of_mem _ hk)

/-- What is known about the list while a block may still be pending. -/
structure Walk (A : Arena) (m : ByteMemory) (metadata : Nat) (pending : Option Hole) (current : Nat)
    (l : List Hole) : Prop where
  chain : Chain m current l 0
  packed : Packed ((pending.toList ++ l).map Hole.range)
  inside : ∀ y ∈ pending.toList ++ l, y.range.Sub A.range
  pending : ∀ y ∈ pending, Pending m metadata y

/-- The insertion of one turn. -/
theorem Walk.insert {metadata : Nat} {pending : Option Hole} {l : List Hole}
    (h : Walk A m metadata pending x.addr (x :: l)) :
    ∃ pending' l' m1, (if pending.isNone then (true, m) else insertAfter m metadata x.addr) = (pending'.isNone, m1) ∧
      Walk A m1 metadata pending' x.addr (x :: l') ∧ (pending.toList ++ x :: l).Perm (pending'.toList ++ x :: l') ∧
      ∀ k, (∀ y ∈ pending.toList ++ x :: l, ¬ y.range.Has k) → m1 k = m k := by
  cases pending with
  | none => exact ⟨none, l, m, rfl, h, List.Perm.refl _, fun _ _ => rfl⟩
  | some y =>
    have hswap : (y :: x :: l).Perm (x :: y :: l) := List.Perm.swap _ _ _
    have hp : Packed ((x :: y :: l).map Hole.range) := (packed_perm (hswap.map _)).mp h.packed
    have hin : ∀ k ∈ x :: y :: l, k.range.Sub A.range := fun k hk => h.inside k (hswap.mem_iff.mpr hk)
    have hif : (if (some y).isNone then (true, m) else insertAfter m metadata x.addr) =
        insertAfter m metadata x.addr := if_neg (by simp)
    rw [hif]
    obtain heq | ⟨m1, heq, hc, hout⟩ := insertAfter_spec (h.pending y rfl) h.chain hp hin
    · rw [heq]
      exact ⟨some y, l, m, rfl, h, List.Perm.refl _, fun _ _ => rfl⟩
    · rw [heq]
      refine ⟨none, y :: l, m1, rfl, ⟨hc, hp, hin, fun _ hy => by cases hy⟩, hswap, fun k hk => ?_⟩
      exact hout k (hk x (by simp)) (hk y (by simp))

/-- The walk of `Free` ends; the list it leaves holds no more than before. -/
theorem insertLoop_spec (metadata fuel : Nat) : ∀ (m : ByteMemory) (pending : Option Hole) (current : Nat)
    (l : List Hole), Walk A m metadata pending current l → pending.toList.length + l.length < fuel →
    ∃ m' l', insertLoop metadata fuel pending.isNone m current = some m' ∧ Chain m' current l' 0 ∧
      Refined (pending.toList ++ l) l' ∧
      ∀ k, (∀ y ∈ pending.toList ++ l, ¬ y.range.Has k) → m' k = m k := by
  induction fuel with
  | zero => exact fun _ _ _ _ _ hfuel => absurd hfuel (Nat.not_lt_zero _)
  | succ fuel ih =>
    intro m pending current l h hfuel
    cases l with
    | nil =>
      have hcur : current = 0 := h.chain
      exact ⟨m, [], if_pos hcur, hcur, refined_nil _, fun _ _ => rfl⟩
    | cons x l =>
      obtain rfl : current = x.addr := h.chain.1
      obtain ⟨hpos, -, -⟩ := hole_bounds (h.inside x (by simp))
      obtain ⟨pending', l1, m1, hins, hwalk, hperm, hout1⟩ := h.insert
      obtain ⟨x', l2, haddr, hchain, href, hsuf, hgrow, hout2⟩ := coalesce_spec hwalk.chain
        (List.pairwise_append.mp (List.map_append ▸ hwalk.packed)).2.1 fun y hy => hwalk.inside y (List.mem_append_right _ hy)
      -- everything that is left to walk is apart from `x'`
      have hall : Refined (pending.toList ++ x :: l) (x' :: (pending'.toList ++ l2)) :=
        (refined_perm hperm).trans ((href.append pending'.toList).trans (refined_perm List.perm_middle))
      have hp2 : Packed ((x' :: (pending'.toList ++ l2)).map Hole.range) := by
        have := hall.packed [] (fun _ hr => by cases hr) (by rw [List.append_nil]; exact h.packed)
        rwa [List.append_nil] at this
      have hin2 := hall.sub A.range h.inside
      obtain ⟨-, hsize', hrest'⟩ := hchain
      have hsub : ∀ y ∈ pending'.toList ++ l2, y ∈ pending.toList ++ x :: l := fun y hy => by
        refine hperm.mem_iff.mpr ?_
        rcases List.mem_append.mp hy with hy | hy
        · exact List.mem_append_left _ hy
        · exact List.mem_append_right _ (List.mem_cons_of_mem _ (hsuf.subset hy))
      have hwalk2 : Walk A (coalesce m1 x.addr) metadata pending' (next (coalesce m1 x.addr) x.addr) l2 := by
        refine ⟨hrest', (packed_cons.mp hp2).2, fun y hy => hin2 y (List.mem_cons_of_mem _ hy), fun y hy => ?_⟩
        refine (hwalk.pending y hy).congr fun k hk => hout2 k fun hxk => ?_
        have hd := disj_of_packed hp2 (List.mem_append_left _ (Option.mem_toList.mpr hy))
        change y.addr ≤ k ∧ k < y.addr + (16 + y.size) at hk
        change x.addr ≤ k ∧ k < x.addr + (16 + x.size) at hxk
        omega
      have hlen : pending'.toList.length + l2.length < fuel := by
        have h1 := hperm.length_eq
        have h2 := hsuf.length_le
        simp only [List.length_append, List.length_cons] at h1 hfuel
        omega
      obtain ⟨m3, l3, hrun, hchain3, href3, hout3⟩ := ih _ pending' _ l2 hwalk2 hlen
      have hkeep : ∀ k, x.addr ≤ k → k < x.addr + 16 → m3 k = coalesce m1 x.addr k := fun k h1 h2 => by
        refine hout3 k fun y hy hk => ?_
        have hd := disj_of_packed hp2 hy
        change y.addr ≤ k ∧ k < y.addr + (16 + y.size) at hk
        omega
      refine ⟨m3, x' :: l3, ?_, ⟨haddr.symm, ?_, ?_⟩, hall.trans (href3.append [x']), fun k hk => ?_⟩
      · unfold insertLoop
        rw [if_neg (by omega)]
        extract_lets r m2
        have hr : r = (pending'.isNone, m1) := hins
        unfold m2
        rw [hr]
        exact hrun
      · exact (size_congr fun k h1 h2 => hkeep k (by omega) h2).trans hsize'
      · rw [next_congr fun k h1 h2 => hkeep k (by omega) h2]
        exact hchain3
      · rw [hout3 k fun y hy => hk y (hsub y hy), hout2 k (hk x (by simp))]
        exact hout1 k hk

/-- A block that is given back counts as a hole. -/
theorem ranges_erase {b : Held} (hb : b ∈ held) :
    (ranges holes held).Perm (ranges (⟨b.addr, b.size⟩ :: holes) (held.erase b)) :=
  (ranges_perm (List.Perm.refl _) (List.perm_cons_erase hb)).trans (ranges_held b)

theorem packed_returned {b : Held} (hb : b ∈ held) (hp : Packed (ranges holes held)) :
    Packed (ranges (⟨b.addr, b.size⟩ :: holes) (held.erase b)) :=
  (packed_perm (ranges_erase hb)).mp hp

theorem returned_inside {b : Held} (hb : b ∈ held) (hin : ∀ r ∈ ranges holes held, r.Sub A.range) :
    ∀ r ∈ ranges (⟨b.addr, b.size⟩ :: holes) (held.erase b), r.Sub A.range := fun r hr =>
  hin r ((ranges_erase hb).mem_iff.mpr hr)

/-- From the payload back to the header. -/
theorem payload_header (b : Held) :
    Word.sub b.payload.start sizeofMetadata = b.addr + b.pad := by
  have hback : Word.sub (b.addr + b.pad + 16) 16 = b.addr + b.pad + 16 - 16 := Word.sub_eq (by omega)
  rw [Nat.add_sub_cancel] at hback
  exact hback

/-- The arena after `Free` of `b`, from what is known about its list. -/
theorem Inv.freed (h : Inv A s holes held) {b : Held} (hb : b ∈ held) {head : Nat} {holes' : List Hole}
    (hc : Chain m' head holes' 0) (href : Refined (⟨b.addr, b.size⟩ :: holes) holes')
    (hm : ∀ k, (∀ y ∈ Hole.mk b.addr b.size :: holes, ¬ y.range.Has k) → m' k = s.mem k) :
    Inv A ⟨m', head⟩ holes' (held.erase b) := by
  have hp := packed_returned hb h.packed
  have hin := returned_inside hb h.inside
  have hpos : ∀ r ∈ (held.erase b).map Held.range, 0 < r.size := fun r hr =>
    ranges_pos (show r ∈ ranges holes (held.erase b) from List.mem_append_right _ hr)
  refine ⟨hc, fun c hcb => ?_, href.packed _ hpos hp, fun r hr => ?_⟩
  · exact heldOk_frame (h.headers c (List.mem_of_mem_erase hcb)) (held_kept hp hm hcb)
  · obtain ⟨y, hy, rfl⟩ | ⟨c, hcb, rfl⟩ := mem_ranges.mp hr
    · exact href.sub A.range (fun z hz => hole_in hin hz) y hy
    · exact held_in hin hcb

theorem Inv.free (h : Inv A s holes held) {b : Held} (hb : b ∈ held) :
    ∃ s' holes', IOHeap.free s b.payload.start = some s' ∧ Inv A s' holes' (held.erase b) := by
  obtain ⟨hsize, hnext, hpad, -, hfits⟩ := h.headers b hb
  obtain ⟨hpos, hspace, -⟩ := hole_bounds (x := ⟨b.addr, b.size⟩) (held_in h.inside hb)
  simp only at hpos hspace
  have hlen := h.length_lt
  have huser : Word.sub b.payload.start sizeofMetadata = b.addr + b.pad := payload_header b
  have hmeta : Word.sub (b.addr + b.pad) (padding s.mem (b.addr + b.pad)) = b.addr := by
    rw [hpad, Word.sub_eq (by omega), Nat.add_sub_cancel]
  have hpending : Pending s.mem b.addr ⟨b.addr, b.size⟩ := ⟨rfl, hsize, hnext⟩
  have hp := holes_packed (packed_returned hb h.packed)
  have hin : ∀ y ∈ Hole.mk b.addr b.size :: holes, y.range.Sub A.range := fun y hy =>
    hole_in (returned_inside hb h.inside) hy
  have hout : ∀ v k, ¬ (Hole.mk b.addr b.size).range.Has k → setNext s.mem b.addr v k = s.mem k := fun v k hk =>
    setNext_outside hk s.mem v
  unfold IOHeap.free
  have hptr : b.payload.start ≠ 0 := by
    change b.addr + b.pad + 16 ≠ 0
    omega
  rw [if_neg hptr, huser]
  simp only [hmeta]
  split
  · rename_i hhead
    have hnil : holes = [] := by
      cases holes with
      | nil => rfl
      | cons z l =>
        have hz := hole_bounds (hole_in h.inside (x := z) (by simp))
        have := h.chain.1
        omega
    subst hnil
    refine ⟨_, [⟨b.addr, b.size⟩], rfl, h.freed hb ⟨rfl, ?_, ?_⟩ (refined_perm (List.Perm.refl _)) fun k hk => ?_⟩
    · exact (size_setNext _ _).trans hsize
    · exact next_setNext (by omega)
    · exact hout 0 k (hk _ (by simp))
  split
  · have hhead : s.head < 2 ^ 64 := by
      cases holes with
      | nil =>
        have : s.head = 0 := h.chain
        omega
      | cons z l =>
        have hz := hole_bounds (hole_in h.inside (x := z) (by simp))
        have := h.chain.1
        omega
    have hchain : Chain (setNext s.mem b.addr s.head) b.addr (⟨b.addr, b.size⟩ :: holes) 0 := by
      refine ⟨rfl, (size_setNext _ _).trans hsize, ?_⟩
      rw [next_setNext hhead]
      exact chain_frame [] hp (List.Subset.refl _) (hout s.head) h.chain
    obtain ⟨m', l', hrun, hc, href, hm⟩ := insertLoop_spec b.addr walkFuel _ none b.addr _
      ⟨hchain, hp, hin, fun _ hy => by cases hy⟩ (by simp only [Option.toList, List.length_nil, List.length_cons]; omega)
    have hrun' : insertLoop b.addr walkFuel true (setNext s.mem b.addr s.head) b.addr = some m' := hrun
    rw [hrun']
    exact ⟨_, l', rfl, h.freed hb hc href fun k hk => (hm k hk).trans (hout s.head k (hk _ (by simp)))⟩
  · obtain ⟨m', l', hrun, hc, href, hm⟩ := insertLoop_spec b.addr walkFuel s.mem (some ⟨b.addr, b.size⟩) s.head holes
      ⟨h.chain, hp, hin, fun y hy => by cases hy; exact hpending⟩
      (by simp only [Option.toList, List.length_nil, List.length_cons]; omega)
    have hrun' : insertLoop b.addr walkFuel false s.mem s.head = some m' := hrun
    rw [hrun']
    exact ⟨_, l', rfl, h.freed hb hc href hm⟩

end

/-! ## Whole runs -/

structure SysInv (A : Arena) (s : Sys) (holes : List Hole) (held : List Held) : Prop where
  inv : Inv A s.heap holes held
  live : s.live.Perm (held.map Held.payload)

section
variable {A : Arena} {s : Sys} {holes : List Hole} {held : List Held}

theorem payload_sub {m : ByteMemory} {b : Held} (h : HeldOk m b) : b.payload.Sub b.range := by
  have hfits := h.fits
  constructor
  · change b.addr ≤ b.addr + b.pad + 16
    omega
  · change b.addr + b.pad + 16 + b.request ≤ b.addr + (16 + b.size)
    omega

theorem SysInv.safe (h : SysInv A s holes held) : Safe A s := by
  have hheld : ∀ r ∈ s.live, ∃ b ∈ held, b.payload = r := fun r hr => List.mem_map.mp (h.live.mem_iff.mp hr)
  have hpacked := (List.pairwise_append.mp h.inv.packed).2.1
  refine ⟨?_, fun r hr => ?_, fun r hr f hf => ?_, fun f hf => ?_⟩
  · refine (packed_perm h.live).mpr ?_
    unfold Packed at *
    rw [List.pairwise_map] at hpacked ⊢
    refine hpacked.imp_of_mem fun ha hb hd => ?_
    exact disj_of_sub (payload_sub (h.inv.headers _ ha)) (disj_symm (disj_of_sub (payload_sub (h.inv.headers _ hb))
      (disj_symm hd)))
  · obtain ⟨b, hb, rfl⟩ := hheld r hr
    exact sub_trans (payload_sub (h.inv.headers b hb)) (held_in h.inv.inside hb)
  · obtain ⟨b, hb, rfl⟩ := hheld r hr
    obtain ⟨x, hx, rfl, -⟩ := mem_of_onList h.inv.chain hf
    have hd : b.payload.Disj x.range := disj_of_sub (payload_sub (h.inv.headers b hb)) (disj_symm (holes_apart h.inv.packed hx hb))
    have hhead : Range.Sub ⟨x.addr, sizeofMetadata⟩ x.range := ⟨Nat.le_refl _, by
      change x.addr + 16 ≤ x.addr + (16 + x.size)
      omega⟩
    exact disj_symm (disj_of_sub hhead (disj_symm hd))
  · obtain ⟨x, hx, rfl, hsize⟩ := mem_of_onList h.inv.chain hf
    rw [hsize]
    exact hole_in h.inv.inside hx

/-- A byte of a held block is part of no other block. -/
theorem elsewhere {b : Held} {k : Nat} (hp : Packed (ranges holes held)) (hb : b ∈ held) (hk : b.range.Has k) :
    (∀ x ∈ holes, ¬ x.range.Has k) ∧ ∀ c ∈ held, c ≠ b → ¬ c.range.Has k := by
  obtain ⟨-, hheld, hcross⟩ := List.pairwise_append.mp hp
  refine ⟨fun x hx hxk => ?_, fun c hc hcb hck => ?_⟩
  · have hd : x.range.Disj b.range := hcross _ (List.mem_map_of_mem hx) _ (List.mem_map_of_mem hb)
    unfold Range.Disj at hd
    unfold Range.Has at hk hxk
    omega
  · have hcons := (packed_perm ((List.perm_cons_erase hb).map Held.range)).mp hheld
    have hd : b.range.Disj c.range :=
      (packed_cons.mp hcons).1 _ (List.mem_map_of_mem ((List.mem_erase_of_ne hcb).mpr hc))
    unfold Range.Disj at hd
    unfold Range.Has at hk hck
    omega

/-- A byte behind the header of a block is in no other block, and in no header. -/
theorem store_outside {b : Held} (hp : Packed (ranges holes held)) (hfits : ∀ c ∈ held, c.pad + c.request ≤ c.size)
    (hb : b ∈ held) {offset : Nat} (hoff : offset < b.payload.size) (m : ByteMemory) (byte : Nat) :
    (∀ x ∈ holes, ∀ k, x.addr + 4 ≤ k → k < x.addr + 16 → m.write (b.payload.start + offset) 1 byte k = m k) ∧
      ∀ c ∈ held, ∀ k, c.addr ≤ k → k < c.addr + c.pad + 16 → m.write (b.payload.start + offset) 1 byte k = m k := by
  have hroom := hfits b hb
  change offset < b.request at hoff
  have hout : ∀ k, k ≠ b.addr + b.pad + 16 + offset → m.write (b.payload.start + offset) 1 byte k = m k := fun k hk => by
    refine ByteMemory.write_outside ?_
    change k < b.addr + b.pad + 16 + offset ∨ b.addr + b.pad + 16 + offset + 1 ≤ k
    omega
  have hbyte : b.range.Has (b.addr + b.pad + 16 + offset) := by
    change b.addr ≤ _ ∧ _ < b.addr + (16 + b.size)
    omega
  obtain ⟨hholes, hheld⟩ := elsewhere hp hb hbyte
  refine ⟨fun x hx k h1 h2 => hout k ?_, fun c hc k h1 h2 => hout k ?_⟩
  · have hx' := not_has (hholes x hx)
    omega
  · by_cases hcb : c = b
    · subst hcb
      omega
    · have hc' : ¬ (c.addr ≤ b.addr + b.pad + 16 + offset ∧ b.addr + b.pad + 16 + offset < c.addr + (16 + c.size)) :=
        hheld c hc hcb
      have hcf := hfits c hc
      omega

/-- Owners write behind their headers. -/
theorem Inv.store {t : State} (h : Inv A t holes held) {b : Held} (hb : b ∈ held) {offset : Nat}
    (hoff : offset < b.payload.size) (byte : BitVec 8) :
    Inv A ⟨t.mem.write (b.payload.start + offset) 1 byte.toNat, t.head⟩ holes held := by
  obtain ⟨hholes, hheld⟩ := store_outside h.packed (fun c hc => (h.headers c hc).fits) hb hoff t.mem byte.toNat
  exact ⟨chain_congr h.chain hholes, fun c hc => heldOk_congr (h.headers c hc) (hheld c hc), h.packed, h.inside⟩

/-- The heap answers a call, and keeps `I`, with the blocks that are handed out then. -/
def Serves (I : State → List Held → Prop) (s : State) (held : List Held) : Op → Prop
  | .allocate request alignment => alignment ≠ 0 → ∃ r, allocate s request alignment = some r ∧
      ((r.1 = 0 ∧ I r.2 held) ∨ ∃ b, r.1 = b.payload.start ∧ b.request = request ∧ I r.2 (b :: held))
  | .free block => ∀ b ∈ held, block = b.payload → ∃ t, free s block.start = some t ∧ I t (held.erase b)
  | .store block offset byte => ∀ b ∈ held, block = b.payload → offset < block.size →
      I ⟨s.mem.write (block.start + offset) 1 byte.toNat, s.head⟩ held

section
variable {I : State → List Held → Prop} {op : Op}

theorem Serves.returns (h : Serves I s.heap held op) (hlive : s.live.Perm (held.map Held.payload)) (hadm : Admissible s op) :
    (IOHeap.step s op).isSome := by
  cases op with
  | allocate request alignment =>
    obtain ⟨r, hr, -⟩ := h hadm
    rw [IOHeap.step, if_neg hadm, hr]
    rfl
  | free block =>
    have hmem : block ∈ s.live := hadm
    obtain ⟨b, hb, hblock⟩ := List.mem_map.mp (hlive.mem_iff.mp hmem)
    obtain ⟨t, ht, -⟩ := h b hb hblock.symm
    rw [IOHeap.step, if_neg (not_not.mpr hmem), ht]
    rfl
  | store block offset byte =>
    rw [IOHeap.step, if_neg fun hn => hn.elim (fun hn => hn hadm.1) (Nat.not_le_of_lt hadm.2)]
    rfl

theorem Serves.step (h : Serves I s.heap held op) (hlive : s.live.Perm (held.map Held.payload)) {s' : Sys}
    (hs : step s op = some s') : ∃ held', I s'.heap held' ∧ s'.live.Perm (held'.map Held.payload) := by
  cases op with
  | allocate request alignment =>
    rw [IOHeap.step] at hs
    split at hs
    · cases hs
    · rename_i h0
      obtain ⟨r, hr, hcase⟩ := h h0
      rw [hr, Option.map_some, Option.some.injEq] at hs
      subst hs
      obtain ⟨hnull, hi⟩ | ⟨b, hptr, hreq, hi⟩ := hcase
      · rw [if_pos hnull]
        exact ⟨held, hi, hlive⟩
      · have hne : r.1 ≠ 0 := by
          rw [hptr]
          change b.addr + b.pad + 16 ≠ 0
          omega
        rw [if_neg hne]
        refine ⟨b :: held, hi, ?_⟩
        have hpay : b.payload = ⟨r.1, request⟩ := by rw [hptr, ← hreq]; rfl
        rw [List.map_cons, hpay]
        exact hlive.cons _
  | free block =>
    rw [IOHeap.step] at hs
    split at hs
    · cases hs
    · rename_i hmem
      obtain ⟨b, hb, rfl⟩ := List.mem_map.mp (hlive.mem_iff.mp (Classical.not_not.mp hmem))
      obtain ⟨t, ht, hi⟩ := h b hb rfl
      rw [ht, Option.map_some, Option.some.injEq] at hs
      subst hs
      refine ⟨held.erase b, hi, ?_⟩
      have hperm : s.live.Perm (b.payload :: (held.erase b).map Held.payload) :=
        hlive.trans ((List.perm_cons_erase hb).map _)
      simpa using hperm.erase b.payload
  | store block offset byte =>
    rw [IOHeap.step] at hs
    split at hs
    · cases hs
    · rename_i hmem
      rw [not_or, Classical.not_not, Nat.not_le] at hmem
      obtain ⟨b, hb, hblock⟩ := List.mem_map.mp (hlive.mem_iff.mp hmem.1)
      cases hs
      exact ⟨held, h b hb hblock.symm hmem.2, hlive⟩

end

theorem SysInv.serves (h : SysInv A s holes held) {op : Op} (hok : StepOk s op) :
    Serves (fun t held => ∃ holes, Inv A t holes held) s.heap held op := by
  cases op with
  | allocate request alignment =>
    intro h0
    obtain ⟨r, hr, hcase⟩ := h.inv.allocate (Nat.pos_of_ne_zero h0) hok
    exact ⟨r, hr, hcase.imp (fun ⟨hnull, hinv⟩ => ⟨hnull, holes, hinv⟩)
      fun ⟨holes', b, hptr, hreq, hinv⟩ => ⟨b, hptr, hreq, holes', hinv⟩⟩
  | free block =>
    rintro b hb rfl
    obtain ⟨t, holes', ht, hinv⟩ := h.inv.free hb
    exact ⟨t, ht, holes', hinv⟩
  | store block offset byte =>
    rintro b hb rfl hoff
    exact ⟨holes, h.inv.store hb hoff byte⟩

theorem SysInv.step (h : SysInv A s holes held) {op : Op} (hok : StepOk s op) {s' : Sys}
    (hs : step s op = some s') : ∃ holes' held', SysInv A s' holes' held' := by
  obtain ⟨held', ⟨holes', hinv⟩, hlive⟩ := (h.serves hok).step h.live hs
  exact ⟨holes', held', hinv, hlive⟩

/-- What `Create` sets up. -/
theorem create_inv (A : Arena) (m : ByteMemory) :
    SysInv A ⟨create A.base m, []⟩ [⟨A.base, defaultArenaSize - sizeofMetadata⟩] [] := by
  refine ⟨⟨⟨rfl, ?_, ?_⟩, fun b hb => (by cases hb), List.pairwise_singleton _ _, fun r hr => ?_⟩, List.Perm.refl _⟩
  · exact (size_setNext _ _).trans (size_setSize (by decide))
  · exact next_setNext (by decide)
  · obtain rfl := List.mem_singleton.mp hr
    refine ⟨Nat.le_refl A.base, ?_⟩
    change A.base + (sizeofMetadata + (defaultArenaSize - sizeofMetadata)) ≤ A.base + defaultArenaSize
    unfold sizeofMetadata defaultArenaSize
    omega

end

theorem run_inv (A : Arena) (m : ByteMemory) (ops : List Op)
    (hok : AllSteps step StepOk ⟨create A.base m, []⟩ ops) :
    AllStates step (fun s => ∃ holes held, SysInv A s holes held) ⟨create A.base m, []⟩ ops :=
  allStates_of_allSteps (fun _ _ _ ⟨_, _, h⟩ hop hs => h.step hop hs) ops _ ⟨_, _, create_inv A m⟩ hok

/-- Along every run whose calls of `Allocate` meet `StepOk`, from the single block that `Create`
sets up: live payloads are disjoint, inside the arena and apart from the headers of free blocks,
and free blocks stay inside the arena. -/
theorem ioHeap_exclusive (A : Arena) (m : ByteMemory) (ops : List Op)
    (hok : AllSteps step StepOk ⟨create A.base m, []⟩ ops) :
    AllStates step (Safe A) ⟨create A.base m, []⟩ ops :=
  AllStates.mono (fun _ ⟨_, _, h⟩ => h.safe) ops _ (run_inv A m ops hok)

/-- No call of such a run walks forever. -/
theorem ioHeap_returns (A : Arena) (m : ByteMemory) (ops : List Op)
    (hok : AllSteps step StepOk ⟨create A.base m, []⟩ ops) :
    AllStates step (fun s => ∀ op, Admissible s op → StepOk s op → (step s op).isSome)
      ⟨create A.base m, []⟩ ops :=
  AllStates.mono (fun _ ⟨_, _, h⟩ _ hadm hop => (h.serves hop).returns h.live hadm) ops _ (run_inv A m ops hok)

/-- An arena at the start of the general mapping zone. -/
def generalArena : Arena := ⟨generalMapping.start, by decide, by decide⟩

def fresh : Sys := ⟨create generalArena.base fun _ => 0, []⟩

instance (s : Sys) : (op : Op) → Decidable (StepOk s op)
  | .allocate request alignment =>
    match h : search request alignment walkFuel s.heap.mem 0 s.heap.head none with
    | some (_, some (_, fit)) => decidable_of_iff (sizeofMetadata ≤ size s.heap.mem fit ∧
        (paddingFor fit alignment = 0 ∨ sizeofMetadata ≤ paddingFor fit alignment) ∧ paddingFor fit alignment + request < 2 ^ 64)
      ⟨fun hfit _ ⟨_, _, hsel⟩ => by rw [h] at hsel; cases hsel; exact hfit, fun hall => hall fit ⟨_, _, h⟩⟩
    | some (_, none) | none => isTrue fun _ ⟨_, _, hsel⟩ => by rw [h] at hsel; cases hsel
  | .free _ | .store _ _ _ => isTrue trivial

/-- The second block has a padding of 64 bytes. The first one is freed and allocated again. -/
def twoBlocks : List Op :=
  [.allocate 32 8, .allocate 40 128, .store ⟨generalArena.base + 128, 40⟩ 39 0xFF#8, .free ⟨generalArena.base + 16, 32⟩,
    .allocate 16 16, .free ⟨generalArena.base + 128, 40⟩]

theorem ioHeap_exclusive_two_blocks : (run step fresh twoBlocks).isSome ∧ AllStates step (Safe generalArena) fresh twoBlocks :=
  ⟨by decide +kernel, ioHeap_exclusive generalArena (fun _ => 0) twoBlocks (by decide +kernel)⟩

/-- 8 bytes remain after the first call; the second one splits them into a byte and a block of
`2 ^ 32 - 9` bytes. -/
theorem small_remainder :
    ¬ AllStates step (Safe generalArena) fresh [.allocate 33554392 8, .allocate 1 8] := by
  intro hall
  have hrun : (run step fresh [.allocate 33554392 8, .allocate 1 8]).map
      (fun s => (s.heap.head, size s.heap.mem s.heap.head)) =
        some (generalArena.base + 33554425, 2 ^ 32 - 9) := by decide +kernel
  obtain ⟨s, hs, hhead⟩ := Option.map_eq_some_iff.mp hrun
  obtain ⟨hhead, hsize⟩ := Prod.mk.inj hhead
  have hsafe : Safe generalArena s := AllStates.of_run _ _ s hall hs
  have hsub := hsafe.sizes s.heap.head (.here (by rw [hhead]; decide))
  rw [hsize, hhead] at hsub
  revert hsub
  decide

end BadLands.Mm.IOHeap
