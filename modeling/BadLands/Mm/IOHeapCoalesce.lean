import BadLands.Mm.IOHeapRuns

/-!
# Merging in the IO heap

`Free` puts a block into the list and merges it with its neighbours in one pass. On the list this is `insertBlock`: the
block is merged with the one before it, or else with the one behind it, never with both. Where the list ends the pass
keeps the block's own `next`, which the copy of the header has overwritten when the padding is 8.

`ioHeap_coalesced`: in every run that avoids these two and keeps the arithmetic of `Allocate` from wrapping, the list is
sorted, no two of its blocks touch, and it is the single block of `Create` whenever everything has been freed.
-/
namespace BadLands.Mm.IOHeap

open BadLands.Core BadLands.Core.Machine BadLands.Core.Ranges BadLands.Mm.Layout

/-! ## On the list -/

/-- Each block ends before the next ones begin. -/
def Gaps (holes : List Hole) : Prop := holes.Pairwise fun x y => x.addr + 16 + x.size < y.addr

/-- `b` in front of the list, merged with the first block if they touch. -/
def settle (b : Hole) : List Hole → List Hole
  | [] => [b]
  | y :: l => if b.addr + 16 + b.size = y.addr then b.join y :: l else b :: y :: l

/-- What the pass of `Free` makes of the list. -/
def insertBlock (b : Hole) : List Hole → List Hole
  | [] => [b]
  | x :: l =>
    if b.addr < x.addr then settle b (x :: l)
    else if x.addr + 16 + x.size = b.addr then x.join b :: l
    else x :: insertBlock b l

/-- `b` touches a block before it and one behind it. -/
def Wedged (b : Hole) (holes : List Hole) : Prop :=
  (∃ x ∈ holes, x.addr + 16 + x.size = b.addr) ∧ ∃ y ∈ holes, b.addr + 16 + b.size = y.addr

section
variable {b x : Hole} {l holes : List Hole}

theorem gaps_cons : Gaps (x :: l) ↔ (∀ y ∈ l, x.addr + 16 + x.size < y.addr) ∧ Gaps l := List.pairwise_cons

theorem insertBlock_before (h : ∀ y ∈ l, b.addr < y.addr) : insertBlock b l = settle b l := by
  cases l with
  | nil => rfl
  | cons y l => exact if_pos (h y List.mem_cons_self)

theorem gaps_settle (hl : Gaps l) (h : ∀ y ∈ l, b.addr + 16 + b.size ≤ y.addr) : Gaps (settle b l) := by
  cases l with
  | nil => exact List.pairwise_singleton _ _
  | cons y l =>
    obtain ⟨hy, hrest⟩ := gaps_cons.mp hl
    rw [settle]
    split
    · rename_i htouch
      refine gaps_cons.mpr ⟨fun z hz => ?_, hrest⟩
      have hgap := hy z hz
      change b.addr + 16 + (b.size + (16 + y.size)) < z.addr
      omega
    · rename_i hapart
      have hfirst := h y List.mem_cons_self
      refine gaps_cons.mpr ⟨fun z hz => ?_, hl⟩
      rcases List.mem_cons.mp hz with rfl | hz
      · omega
      · have hgap := hy z hz
        omega

theorem settle_addr {z : Hole} (hz : z ∈ settle b l) : z.addr = b.addr ∨ ∃ y ∈ l, z.addr = y.addr := by
  cases l with
  | nil => exact .inl (congrArg Hole.addr (List.mem_singleton.mp hz))
  | cons y l =>
    rw [settle] at hz
    split at hz
    · rcases List.mem_cons.mp hz with rfl | hz
      · exact .inl rfl
      · exact .inr ⟨z, List.mem_cons_of_mem _ hz, rfl⟩
    · rcases List.mem_cons.mp hz with rfl | hz
      · exact .inl rfl
      · exact .inr ⟨z, hz, rfl⟩

theorem insertBlock_addr {z : Hole} (hz : z ∈ insertBlock b l) : z.addr = b.addr ∨ ∃ y ∈ l, z.addr = y.addr := by
  induction l with
  | nil => exact .inl (congrArg Hole.addr (List.mem_singleton.mp hz))
  | cons x l ih =>
    rw [insertBlock] at hz
    split at hz
    · exact settle_addr hz
    · split at hz
      · rcases List.mem_cons.mp hz with rfl | hz
        · exact .inr ⟨x, List.mem_cons_self, rfl⟩
        · exact .inr ⟨z, List.mem_cons_of_mem _ hz, rfl⟩
      · rcases List.mem_cons.mp hz with rfl | hz
        · exact .inr ⟨z, List.mem_cons_self, rfl⟩
        · exact (ih hz).imp_right fun ⟨y, hy, he⟩ => ⟨y, List.mem_cons_of_mem _ hy, he⟩

/-- A block that is not wedged leaves the list without blocks that touch. -/
theorem gaps_insertBlock (hl : Gaps l) (hdisj : ∀ y ∈ l, b.range.Disj y.range) (hw : ¬ Wedged b l) :
    Gaps (insertBlock b l) := by
  induction l with
  | nil => exact List.pairwise_singleton _ _
  | cons x l ih =>
    obtain ⟨hx, hrest⟩ := gaps_cons.mp hl
    have hplace : ∀ y ∈ x :: l, b.addr + 16 + b.size ≤ y.addr ∨ y.addr + 16 + y.size ≤ b.addr := fun y hy => by
      have hd := hdisj y hy
      change b.addr + (16 + b.size) ≤ y.addr ∨ y.addr + (16 + y.size) ≤ b.addr at hd
      omega
    rw [insertBlock]
    split
    · rename_i hlt
      refine gaps_settle hl fun y hy => ?_
      have hfirst := hplace x List.mem_cons_self
      rcases List.mem_cons.mp hy with rfl | hy
      · omega
      · have hgap := hx y hy
        omega
    · rename_i hge
      have hfirst : x.addr + 16 + x.size ≤ b.addr := by
        have := hplace x List.mem_cons_self
        omega
      split
      · rename_i htouch
        refine gaps_cons.mpr ⟨fun y hy => ?_, hrest⟩
        have hgap := hx y hy
        have hy' := hplace y (List.mem_cons_of_mem _ hy)
        have hne : b.addr + 16 + b.size ≠ y.addr := fun he =>
          hw ⟨⟨x, List.mem_cons_self, htouch⟩, y, List.mem_cons_of_mem _ hy, he⟩
        change x.addr + 16 + (x.size + (16 + b.size)) < y.addr
        omega
      · rename_i hapart
        refine gaps_cons.mpr ⟨fun z hz => ?_, ih hrest (fun y hy => hdisj y (List.mem_cons_of_mem _ hy)) ?_⟩
        · rcases insertBlock_addr hz with he | ⟨y, hy, he⟩
          · omega
          · rw [he]
            exact hx y hy
        · rintro ⟨⟨z, hz, hz'⟩, y, hy, hy'⟩
          exact hw ⟨⟨z, List.mem_cons_of_mem _ hz, hz'⟩, y, List.mem_cons_of_mem _ hy, hy'⟩

theorem refined_settle (b : Hole) (l : List Hole) : Refined (b :: l) (settle b l) := by
  cases l with
  | nil => exact refined_perm (List.Perm.refl _)
  | cons y l =>
    rw [settle]
    split
    · rename_i htouch
      exact refined_merge htouch l
    · exact refined_perm (List.Perm.refl _)

theorem refined_insertBlock (b : Hole) (l : List Hole) : Refined (b :: l) (insertBlock b l) := by
  induction l with
  | nil => exact refined_perm (List.Perm.refl _)
  | cons x l ih =>
    have hswap : Refined (b :: x :: l) (x :: b :: l) := refined_perm (List.Perm.swap _ _ _)
    rw [insertBlock]
    split
    · exact refined_settle b (x :: l)
    · split
      · rename_i htouch
        exact hswap.trans (refined_merge htouch l)
      · exact hswap.trans (ih.append [x])

/-- Merging two blocks that touch covers the same bytes. -/
theorem holds_join {y : Hole} (h : x.addr + 16 + x.size = y.addr) (rest : List Range) (k : Nat) :
    Holds ((x.join y).range :: rest) k ↔ Holds (x.range :: y.range :: rest) k := by
  simp only [holds_cons, ← or_assoc]
  refine or_congr_left ?_
  change x.addr ≤ k ∧ k < x.addr + (16 + (x.size + (16 + y.size))) ↔
    (x.addr ≤ k ∧ k < x.addr + (16 + x.size)) ∨ (y.addr ≤ k ∧ k < y.addr + (16 + y.size))
  omega

theorem holds_settle (b : Hole) (l : List Hole) (k : Nat) :
    Holds ((settle b l).map Hole.range) k ↔ Holds ((b :: l).map Hole.range) k := by
  cases l with
  | nil => exact Iff.rfl
  | cons y l =>
    rw [settle]
    split
    · rename_i htouch
      exact holds_join htouch _ k
    · exact Iff.rfl

theorem holds_insertBlock (b : Hole) (l : List Hole) (k : Nat) :
    Holds ((insertBlock b l).map Hole.range) k ↔ Holds ((b :: l).map Hole.range) k := by
  induction l with
  | nil => exact Iff.rfl
  | cons x l ih =>
    have hswap := holds_perm ((List.Perm.swap b x l).map Hole.range) k
    rw [insertBlock]
    split
    · exact holds_settle b (x :: l) k
    · split
      · rename_i htouch
        exact (holds_join htouch _ k).trans hswap
      · refine Iff.trans ?_ hswap
        rw [List.map_cons, List.map_cons, holds_cons, holds_cons, ih]

/-- What merging keeps holds of every block after the insertion. -/
theorem forall_insertBlock {P : Hole → Prop} (hjoin : ∀ x y, P x → P y → P (x.join y)) (hb : P b)
    (hl : ∀ y ∈ l, P y) : ∀ y ∈ insertBlock b l, P y := by
  induction l with
  | nil => exact fun y hy => List.mem_singleton.mp hy ▸ hb
  | cons x l ih =>
    obtain ⟨hx, hrest⟩ := List.forall_mem_cons.mp hl
    rw [insertBlock]
    split
    · rw [settle]
      split
      · exact List.forall_mem_cons.mpr ⟨hjoin b x hb hx, hrest⟩
      · exact List.forall_mem_cons.mpr ⟨hb, hl⟩
    · split
      · exact List.forall_mem_cons.mpr ⟨hjoin x b hx hb, hrest⟩
      · exact List.forall_mem_cons.mpr ⟨hx, ih hrest⟩

end

/-! ## The pass -/

section
variable {A : Arena} {m m1 : ByteMemory} {metadata fuel : Nat} {b x : Hole} {l : List Hole}

theorem insertLoop_inserted {p : Nat} (hp : p ≠ 0) : insertLoop metadata (fuel + 1) true m p =
    insertLoop metadata fuel true (coalesce m p) (next (coalesce m p) p) := by
  rw [insertLoop, if_neg hp]
  rfl

theorem insertLoop_pending {p : Nat} {inserted : Bool} (hp : p ≠ 0)
    (hins : insertAfter m metadata p = (inserted, m1)) : insertLoop metadata (fuel + 1) false m p =
    insertLoop metadata fuel inserted (coalesce m1 p) (next (coalesce m1 p) p) := by
  rw [insertLoop, if_neg hp]
  simp only [Bool.false_eq_true, if_false, hins]

theorem keep_of_gaps (hx : x.range.Sub A.range) (hc : Chain m x.addr (x :: l) 0)
    (hgap : ∀ y ∈ l, x.addr + 16 + x.size < y.addr) : coalesce m x.addr = m :=
  coalesce_keep hx hc fun y hy => Nat.ne_of_lt (hgap y (List.mem_of_mem_head? hy))

/-- Where no blocks touch the pass changes nothing. -/
theorem walk_gaps : ∀ (l : List Hole) (fuel p : Nat), Chain m p l 0 → Gaps l → (∀ y ∈ l, y.range.Sub A.range) →
    l.length < fuel → insertLoop metadata fuel true m p = some m
  | [], fuel + 1, p, hc, _, _, _ => if_pos hc
  | x :: l, fuel + 1, p, hc, hl, hin, hfuel => by
    obtain rfl : p = x.addr := hc.1
    obtain ⟨hgap, hrest⟩ := gaps_cons.mp hl
    have hx := hin x List.mem_cons_self
    obtain ⟨hpos, -, -⟩ := hole_bounds hx
    rw [insertLoop_inserted (by omega), keep_of_gaps hx hc hgap]
    exact walk_gaps l fuel _ hc.2.2 hrest (fun y hy => hin y (List.mem_cons_of_mem _ hy)) (Nat.lt_of_succ_lt_succ hfuel)

/-- The pass from a block that has just been put in front of the rest. -/
theorem walk_settle (metadata fuel : Nat) (hc : Chain m x.addr (x :: l) 0) (hp : Packed ((x :: l).map Hole.range))
    (hin : ∀ y ∈ x :: l, y.range.Sub A.range) (hl : Gaps l) (hfuel : l.length + 1 < fuel) :
    ∃ m', insertLoop metadata fuel true m x.addr = some m' ∧ Chain m' x.addr (settle x l) 0 ∧
      ∀ k, ¬ x.range.Has k → m' k = m k := by
  obtain ⟨hpos, -, -⟩ := hole_bounds (hin x List.mem_cons_self)
  obtain ⟨fuel, rfl⟩ : ∃ n, fuel = n + 1 := ⟨fuel - 1, by omega⟩
  have hrest : ∀ y ∈ l, y.range.Sub A.range := fun y hy => hin y (List.mem_cons_of_mem _ hy)
  have hkeep : (∀ y ∈ l.head?, x.addr + 16 + x.size ≠ y.addr) →
      insertLoop metadata (fuel + 1) true m x.addr = some m := fun hne => by
    rw [insertLoop_inserted (by omega), coalesce_keep (hin x List.mem_cons_self) hc hne]
    exact walk_gaps l fuel _ hc.2.2 hl hrest (by omega)
  cases l with
  | nil => exact ⟨m, hkeep (fun y hy => by cases hy), hc, fun _ _ => rfl⟩
  | cons y l =>
    rw [settle]
    split
    · rename_i htouch
      obtain ⟨hchain, hout⟩ := coalesce_join hc hp hin htouch
      refine ⟨coalesce m x.addr, ?_, hchain, hout⟩
      rw [insertLoop_inserted (by omega)]
      exact walk_gaps l fuel _ hchain.2.2 (gaps_cons.mp hl).2 (fun z hz => hrest z (List.mem_cons_of_mem _ hz))
        (by simp only [List.length_cons] at hfuel; omega)
    · rename_i hapart
      refine ⟨m, hkeep fun z hz => ?_, hc, fun _ _ => rfl⟩
      cases hz
      exact hapart

/-- The pass after the block `b` has been put behind `x`. -/
theorem walk_behind (metadata fuel : Nat) (hc : Chain m x.addr (x :: b :: l) 0) (hp : Packed ((x :: b :: l).map Hole.range))
    (hin : ∀ y ∈ x :: b :: l, y.range.Sub A.range) (hl : Gaps l) (hfuel : l.length + 1 < fuel) :
    ∃ m', insertLoop metadata fuel true (coalesce m x.addr) (next (coalesce m x.addr) x.addr) = some m' ∧
      Chain m' x.addr (if x.addr + 16 + x.size = b.addr then x.join b :: l else x :: settle b l) 0 ∧
      ∀ k, ¬ x.range.Has k → ¬ b.range.Has k → m' k = m k := by
  split
  · rename_i htouch
    obtain ⟨hchain, hout⟩ := coalesce_join hc hp hin htouch
    refine ⟨coalesce m x.addr, ?_, hchain, fun k hk _ => hout k hk⟩
    exact walk_gaps l fuel _ hchain.2.2 hl (fun y hy => hin y (by simp [hy])) (by omega)
  · rename_i hapart
    have hkeep : coalesce m x.addr = m := coalesce_keep (hin x List.mem_cons_self) hc fun y hy => by
      cases hy
      exact hapart
    have hd := disj_of_packed hp List.mem_cons_self
    obtain ⟨-, hsize, hrest⟩ := hc
    obtain ⟨m', hrun, hchain, hout⟩ := walk_settle metadata fuel (hrest.1 ▸ hrest)
      (packed_cons.mp hp).2 (fun y hy => hin y (List.mem_cons_of_mem _ hy)) hl hfuel
    have hsame : ∀ k, x.addr + 4 ≤ k → k < x.addr + 16 → m' k = m k := fun k h1 h2 => hout k fun hk => by
      change b.addr ≤ k ∧ k < b.addr + (16 + b.size) at hk
      omega
    rw [hkeep, hrest.1]
    refine ⟨m', hrun, ⟨rfl, (size_congr hsame).trans hsize, ?_⟩, fun k _ hk => hout k hk⟩
    rw [next_congr hsame, hrest.1]
    exact hchain

/-- The pass puts the block where it belongs. At the end of the list it needs a `next` that is null. -/
theorem walk_insert : ∀ (l : List Hole) (x : Hole) (m : ByteMemory) (fuel : Nat), Chain m x.addr (x :: l) 0 →
    size m b.addr = b.size → (next m b.addr = 0 ∨ ∃ y ∈ x :: l, b.addr < y.addr) →
    Packed ((b :: x :: l).map Hole.range) → (∀ y ∈ b :: x :: l, y.range.Sub A.range) → Gaps (x :: l) →
    x.addr ≤ b.addr → l.length + 2 < fuel →
    ∃ m', insertLoop b.addr fuel false m x.addr = some m' ∧ Chain m' x.addr (insertBlock b (x :: l)) 0 ∧
      ∀ k, (∀ y ∈ b :: x :: l, ¬ y.range.Has k) → m' k = m k := by
  intro l
  induction l with
  | nil =>
    intro x m fuel hc hsize hnext hp hin hl hle hfuel
    have hd := disj_of_packed hp List.mem_cons_self
    obtain ⟨hpos, -, -⟩ := hole_bounds (hin x (by simp))
    have hswap : [b, x].Perm [x, b] := List.Perm.swap _ _ _
    have hp' : Packed ([x, b].map Hole.range) := (packed_perm (hswap.map _)).mp hp
    have hin' : ∀ y ∈ [x, b], y.range.Sub A.range := fun y hy => hin y (hswap.mem_iff.mpr hy)
    have hnull : next m b.addr = 0 := hnext.resolve_right fun ⟨y, hy, hlt⟩ => by
      obtain rfl := List.mem_singleton.mp hy
      omega
    obtain ⟨fuel, rfl⟩ : ∃ n, fuel = n + 1 := ⟨fuel - 1, by omega⟩
    obtain ⟨m1, hins, hchain, hout⟩ := insertAfter_last hsize hnull hc hp' hin'
    obtain ⟨m', hrun, hchain', hout'⟩ := walk_behind b.addr fuel hchain hp' hin'
      List.Pairwise.nil (by simp only [List.length_nil] at *; omega)
    refine ⟨m', ?_, ?_, fun k hk => ?_⟩
    · rw [insertLoop_pending (by omega) hins]
      exact hrun
    · rw [insertBlock, if_neg (by omega)]
      exact hchain'
    · exact (hout' k (hk x (by simp)) (hk b (by simp))).trans (hout k (hk x (by simp)))
  | cons z l ih =>
    intro x m fuel hc hsize hnext hp hin hl hle hfuel
    have hd := disj_of_packed hp List.mem_cons_self
    obtain ⟨hpos, -, -⟩ := hole_bounds (hin x (by simp))
    obtain ⟨hgap, hrest⟩ := gaps_cons.mp hl
    obtain ⟨hgapz, hlz⟩ := gaps_cons.mp hrest
    have hswap : (b :: x :: z :: l).Perm (x :: b :: z :: l) := List.Perm.swap _ _ _
    have hp' : Packed ((x :: b :: z :: l).map Hole.range) := (packed_perm (hswap.map _)).mp hp
    have hin' : ∀ y ∈ x :: b :: z :: l, y.range.Sub A.range := fun y hy => hin y (hswap.mem_iff.mpr hy)
    obtain ⟨fuel, rfl⟩ : ∃ n, fuel = n + 1 := ⟨fuel - 1, by omega⟩
    by_cases hlt : b.addr < z.addr
    · obtain ⟨m1, hins, hchain, hout⟩ := insertAfter_between hsize hc hp' hin' ⟨by omega, hlt⟩
      obtain ⟨m', hrun, hchain', hout'⟩ := walk_behind b.addr fuel hchain hp' hin' hrest
        (by simp only [List.length_cons] at *; omega)
      have hbefore : ∀ y ∈ z :: l, b.addr < y.addr := fun y hy => by
        rcases List.mem_cons.mp hy with rfl | hy
        · exact hlt
        · have := hgapz y hy
          omega
      refine ⟨m', ?_, ?_, fun k hk => ?_⟩
      · rw [insertLoop_pending (by omega) hins]
        exact hrun
      · rw [insertBlock, if_neg (by omega), insertBlock_before hbefore]
        exact hchain'
      · exact (hout' k (hk x (by simp)) (hk b (by simp))).trans (hout k (hk x (by simp)) (hk b (by simp)))
    · have hins := insertAfter_past b.addr hc (fun y hy => hin y (List.mem_cons_of_mem _ hy))
        fun h => hlt h.2
      have hkeep := keep_of_gaps (hin x (by simp)) hc hgap
      have hxz := hgap z List.mem_cons_self
      have hlater : next m b.addr = 0 ∨ ∃ y ∈ z :: l, b.addr < y.addr := hnext.imp_right fun ⟨y, hy, hby⟩ => by
        rcases List.mem_cons.mp hy with rfl | hy
        · omega
        · exact ⟨y, hy, hby⟩
      have hpz : Packed ((b :: z :: l).map Hole.range) := (packed_cons.mp hp').2
      obtain ⟨-, hsizex, hrestc⟩ := hc
      obtain ⟨m', hrun, hchain, hout⟩ := ih z m fuel (hrestc.1 ▸ hrestc) hsize hlater hpz
        (fun y hy => hin' y (List.mem_cons_of_mem _ hy)) hrest (by omega) (by simp only [List.length_cons] at *; omega)
      have hsame : ∀ k, x.addr + 4 ≤ k → k < x.addr + 16 → m' k = m k := fun k h1 h2 => hout k fun y hy hk => by
        have hdy := disj_of_packed hp' hy
        change y.addr ≤ k ∧ k < y.addr + (16 + y.size) at hk
        omega
      refine ⟨m', ?_, ?_, fun k hk => hout k fun y hy => hk y ?_⟩
      · rw [insertLoop_pending (by omega) hins, hkeep, hrestc.1]
        exact hrun
      · rw [insertBlock, if_neg (by omega), if_neg (by omega)]
        refine ⟨rfl, (size_congr hsame).trans hsizex, ?_⟩
        rw [next_congr hsame, hrestc.1]
        exact hchain
      · rcases List.mem_cons.mp hy with rfl | hy
        · exact List.mem_cons_self
        · exact List.mem_cons_of_mem _ (List.mem_cons_of_mem _ hy)

end

/-! ## The arena -/

/-- The headers of a handed-out block. With a padding of 8 the copy of the header lies on the original's `next`. -/
structure Header (m : ByteMemory) (b : Held) : Prop where
  size : IOHeap.size m b.addr = b.size
  pad : padding m (b.addr + b.pad) = b.pad
  next : b.pad = 0 → IOHeap.next m b.addr = 0
  small : b.pad = 0 ∨ b.pad = 8
  fits : b.pad + b.request ≤ b.size
  words : b.addr % 8 = 0 ∧ b.size % 8 = 0

/-- Free and handed-out blocks tile the arena, and no two free ones touch. -/
structure Tidy (A : Arena) (s : State) (holes : List Hole) (held : List Held) : Prop where
  chain : Chain s.mem s.head holes 0
  headers : ∀ b ∈ held, Header s.mem b
  packed : Packed (ranges holes held)
  tiles : ∀ k, Holds (ranges holes held) k ↔ A.range.Has k
  gaps : Gaps holes
  words : ∀ x ∈ holes, x.addr % 8 = 0 ∧ x.size % 8 = 0

section
variable {A : Arena} {m m' : ByteMemory} {s : State} {holes : List Hole} {held : List Held} {x : Hole} {b : Held}

theorem Tidy.inside (h : Tidy A s holes held) : ∀ r ∈ ranges holes held, r.Sub A.range := fun r hr =>
  sub_of_has (ranges_pos hr) fun k hk => (h.tiles k).mp ⟨r, hr, hk⟩

theorem Header.congr (hb : Header m b) (h : ∀ k, b.addr ≤ k → k < b.addr + b.pad + 16 → m' k = m k) : Header m' b := by
  have hsize : IOHeap.size m' b.addr = IOHeap.size m b.addr :=
    size_congr fun k h1 h2 => h k (by omega) (by omega)
  have hpad : padding m' (b.addr + b.pad) = padding m (b.addr + b.pad) :=
    ByteMemory.read_congr fun k h1 h2 => h k (by omega) (by omega)
  have hnext : IOHeap.next m' b.addr = IOHeap.next m b.addr := next_congr fun k h1 h2 => h k (by omega) (by omega)
  exact ⟨hsize.trans hb.size, hpad.trans hb.pad, fun h0 => hnext.trans (hb.next h0), hb.small, hb.fits, hb.words⟩

theorem Header.frame (hb : Header m b) (h : ∀ k, b.range.Has k → m' k = m k) : Header m' b := by
  have hfits := hb.fits
  exact hb.congr fun k h1 h2 => h k (show b.addr ≤ k ∧ k < b.addr + (16 + b.size) by omega)

/-! ## `Free` -/

theorem Tidy.freed (h : Tidy A s holes held) (hb : b ∈ held) (hw : ¬ Wedged ⟨b.addr, b.size⟩ holes) {head : Nat}
    (hc : Chain m' head (insertBlock ⟨b.addr, b.size⟩ holes) 0)
    (hm : ∀ k, (∀ y ∈ Hole.mk b.addr b.size :: holes, ¬ y.range.Has k) → m' k = s.mem k) :
    Tidy A ⟨m', head⟩ (insertBlock ⟨b.addr, b.size⟩ holes) (held.erase b) := by
  have hp := packed_returned hb h.packed
  have hpos : ∀ r ∈ (held.erase b).map Held.range, 0 < r.size := fun r hr =>
    ranges_pos (show r ∈ ranges holes (held.erase b) from List.mem_append_right _ hr)
  have hdisj : ∀ y ∈ holes, (Hole.mk b.addr b.size).range.Disj y.range := fun y hy => disj_symm (holes_apart h.packed hy hb)
  refine ⟨hc, fun c hcb => ?_, (refined_insertBlock _ _).packed _ hpos hp, fun k => ?_,
    gaps_insertBlock h.gaps hdisj hw, forall_insertBlock ?_ (h.headers b hb).words h.words⟩
  · exact (h.headers c (List.mem_of_mem_erase hcb)).frame (held_kept hp hm hcb)
  · rw [← h.tiles, holds_perm (ranges_erase hb)]
    unfold ranges
    rw [holds_append, holds_append, holds_insertBlock]
  · intro x y hx hy
    change x.addr % 8 = 0 ∧ (x.size + (16 + y.size)) % 8 = 0
    omega

/-- The header that `Free` goes back to.
mirrors kernel/src/mm/IOHeap.cpp:165-169 -/
def metadataOf (m : ByteMemory) (ptr : Nat) : Nat :=
  Word.sub (Word.sub ptr sizeofMetadata) (padding m (Word.sub ptr sizeofMetadata))

theorem Tidy.metadataOf (h : Tidy A s holes held) (hb : b ∈ held) :
    Word.sub b.payload.start sizeofMetadata = b.addr + b.pad ∧ IOHeap.metadataOf s.mem b.payload.start = b.addr := by
  have hok := h.headers b hb
  have hfits := hok.fits
  obtain ⟨hpos, hspace, -⟩ := hole_bounds (x := ⟨b.addr, b.size⟩) (held_in h.inside hb)
  simp only at hpos hspace
  have huser : Word.sub b.payload.start sizeofMetadata = b.addr + b.pad := payload_header b
  refine ⟨huser, ?_⟩
  unfold IOHeap.metadataOf
  rw [huser, hok.pad, Word.sub_eq (by omega), Nat.add_sub_cancel]

/-- A block that is not wedged, and that either has no padding or does not end the list, is put back. -/
theorem Tidy.free (h : Tidy A s holes held) (hb : b ∈ held) (hw : ¬ Wedged ⟨b.addr, b.size⟩ holes)
    (hend : b.pad = 0 ∨ holes = [] ∨ ∃ y ∈ holes, b.addr < y.addr) :
    ∃ s', IOHeap.free s b.payload.start = some s' ∧
      Tidy A s' (insertBlock ⟨b.addr, b.size⟩ holes) (held.erase b) := by
  obtain ⟨huser, hmeta⟩ := h.metadataOf hb
  unfold IOHeap.metadataOf at hmeta
  rw [huser] at hmeta
  have hok := h.headers b hb
  obtain ⟨hpos, hspace, -⟩ := hole_bounds (x := ⟨b.addr, b.size⟩) (held_in h.inside hb)
  simp only at hpos hspace
  have hlen := ranges_length_lt h.packed h.inside
  have hp := holes_packed (packed_returned hb h.packed)
  have hin : ∀ y ∈ Hole.mk b.addr b.size :: holes, y.range.Sub A.range := fun y hy =>
    hole_in (returned_inside hb h.inside) hy
  have hout : ∀ v k, ¬ (Hole.mk b.addr b.size).range.Has k → setNext s.mem b.addr v k = s.mem k := fun v k hk =>
    setNext_outside hk s.mem v
  unfold IOHeap.free
  have hptr : b.payload.start ≠ 0 := by
    change b.addr + b.pad + 16 ≠ 0
    omega
  rw [if_neg hptr, huser]
  simp only [hmeta]
  cases holes with
  | nil =>
    have hhead : s.head = 0 := h.chain
    rw [if_pos hhead]
    refine ⟨_, rfl, h.freed hb hw ⟨rfl, ?_, ?_⟩ fun k hk => hout 0 k (hk _ (by simp))⟩
    · exact (size_setNext _ _).trans hok.size
    · exact next_setNext (by omega)
  | cons x l =>
    have hx := hole_bounds (hole_in h.inside (x := x) (by simp))
    have hhead : s.head = x.addr := h.chain.1
    have hchain := h.chain
    rw [hhead] at hchain ⊢
    rw [if_neg (by omega)]
    split
    · rename_i hlt
      have hfirst : Chain (setNext s.mem b.addr x.addr) b.addr (⟨b.addr, b.size⟩ :: x :: l) 0 := by
        refine ⟨rfl, (size_setNext _ _).trans hok.size, ?_⟩
        rw [next_setNext (by omega)]
        exact chain_frame [] hp (List.Subset.refl _) (hout x.addr) hchain
      obtain ⟨m', hrun, hc, hm⟩ := walk_settle b.addr walkFuel hfirst hp hin h.gaps hlen
      have hrun' : insertLoop b.addr walkFuel true (setNext s.mem b.addr x.addr) b.addr = some m' := hrun
      rw [hrun']
      refine ⟨_, rfl, h.freed hb hw ?_ fun k hk => (hm k (hk _ (by simp))).trans (hout x.addr k (hk _ (by simp)))⟩
      rw [insertBlock, if_pos hlt]
      exact hc
    · rename_i hge
      have hnext : next s.mem b.addr = 0 ∨ ∃ y ∈ x :: l, b.addr < y.addr := by
        rcases hend with h0 | hnil | hlater
        · exact .inl (hok.next h0)
        · cases hnil
        · exact .inr hlater
      obtain ⟨m', hrun, hc, hm⟩ := walk_insert (b := ⟨b.addr, b.size⟩) l x s.mem walkFuel hchain hok.size hnext hp hin
        h.gaps (by simp only; omega) (by simp only [List.length_cons] at hlen; omega)
      have hrun' : insertLoop b.addr walkFuel false s.mem x.addr = some m' := hrun
      rw [hrun']
      exact ⟨_, rfl, h.freed hb hw hc hm⟩

/-! ## `Allocate` -/

/-- What is left of a block takes its place. -/
theorem gaps_remains {pre post rest : List Hole} {n : Nat} (h : Gaps (pre ++ x :: post)) (hr : Remains x n rest) :
    Gaps (pre ++ (rest ++ post)) := by
  obtain ⟨hpre, hx, hcross⟩ := List.pairwise_append.mp h
  obtain ⟨hgap, hpost⟩ := gaps_cons.mp hx
  rcases hr with ⟨-, rfl⟩ | ⟨hn, rfl⟩
  · exact List.pairwise_append.mpr ⟨hpre, hpost, fun y hy z hz => hcross y hy z (List.mem_cons_of_mem _ hz)⟩
  · refine List.pairwise_append.mpr ⟨hpre, gaps_cons.mpr ⟨fun z hz => ?_, hpost⟩, fun y hy z hz => ?_⟩
    · have := hgap z hz
      simp only
      omega
    · rcases List.mem_cons.mp hz with rfl | hz
      · have := hcross y hy x List.mem_cons_self
        simp only
        omega
      · exact hcross y hy z (List.mem_cons_of_mem _ hz)

/-- At multiples of 8 an alignment of 8 or 16 needs a padding of 0 or 8. -/
theorem paddingFor_word {addr alignment : Nat} (ha : addr % 8 = 0) (hal : alignment = 8 ∨ alignment = 16) :
    paddingFor addr alignment = 0 ∨ paddingFor addr alignment = 8 := by
  unfold paddingFor Word.add sizeofMetadata
  dsimp only
  rcases hal with rfl | rfl
  · split <;> omega
  · split <;> omega

theorem Tidy.size_eq (h : Tidy A s holes held) (hx : x ∈ holes) : size s.mem x.addr = x.size := by
  obtain ⟨pre, post, rfl⟩ := List.append_of_mem hx
  obtain ⟨q, -, rfl, hsize, -⟩ := chain_append.mp h.chain
  exact hsize

theorem Tidy.take {pre post : List Hole} (h : Tidy A s (pre ++ x :: post) held) {request : Nat} (hsize : 16 ≤ x.size)
    (hpad : padding s.mem x.addr = 0 ∨ padding s.mem x.addr = 8) (hrequest : request % 8 = 0)
    (hfits : padding s.mem x.addr + request ≤ x.size) :
    ∃ holes' b, (IOHeap.take s request (prevOf pre) x.addr).1 = b.payload.start ∧ b.request = request ∧
      Tidy A (IOHeap.take s request (prevOf pre) x.addr).2 holes' (b :: held) := by
  generalize ht : IOHeap.take s request (prevOf pre) x.addr = r
  obtain ⟨ptr, t⟩ := r
  obtain ⟨n, rest, hr, hroom, hexact, hptr, hchain, hsize', hpad', hnext, hout⟩ := take_chain h.chain (holes_packed h.packed)
    (fun y hy => hole_in h.inside hy) hsize (by omega) hfits ht
  have hwx := h.words x (by simp)
  obtain ⟨hp, hholds⟩ := taken_ranges (b := ⟨x.addr, n, padding s.mem x.addr, request⟩) hr rfl h.packed
  have hkept : ∀ b ∈ held, Header t.mem b := fun b hb =>
    (h.headers b hb).frame (held_kept h.packed (fun k hk => hout k fun y hy => hk y (mem_cut hy)) hb)
  have hword : n % 8 = 0 := by
    by_cases hn : n = x.size
    · rw [hn]
      exact hwx.2
    · have := hexact hn
      omega
  refine ⟨pre ++ (rest ++ post), ⟨x.addr, n, padding s.mem x.addr, request⟩, hptr, rfl, hchain, fun b hb => ?_, hp,
    fun k => (hholds k).trans (h.tiles k), gaps_remains h.gaps hr, fun y hy => ?_⟩
  · rcases List.mem_cons.mp hb with rfl | hb
    · exact ⟨hsize', hpad', fun h0 => hnext (.inl h0), hpad, hroom, hwx.1, hword⟩
    · exact hkept b hb
  · rcases List.mem_append.mp hy with hy | hy
    · exact h.words y (List.mem_append_left _ hy)
    rcases List.mem_append.mp hy with hy | hy
    · rcases hr with ⟨-, rfl⟩ | ⟨hn, rfl⟩
      · cases hy
      · obtain rfl := List.mem_singleton.mp hy
        simp only
        omega
    · exact h.words y (List.mem_append_right _ (List.mem_cons_of_mem _ hy))

theorem Tidy.allocate (h : Tidy A s holes held) {request alignment : Nat} (hrequest : request % 8 = 0)
    (hal : alignment = 8 ∨ alignment = 16)
    (hok : ∀ x ∈ holes, Word.add (paddingFor x.addr alignment) request ≤ x.size →
      16 ≤ x.size ∧ paddingFor x.addr alignment + request < 2 ^ 64) :
    ∃ r, IOHeap.allocate s request alignment = some r ∧
      ((r.1 = 0 ∧ Tidy A r.2 holes held) ∨
        ∃ holes' b, r.1 = b.payload.start ∧ b.request = request ∧ Tidy A r.2 holes' (b :: held)) := by
  have hpage : 0 < alignment ∧ alignment ≤ pageSize ∧ alignment % 8 = 0 := by
    unfold pageSize
    omega
  have hlen := ranges_length_lt h.packed h.inside
  unfold IOHeap.allocate
  rw [if_neg (by omega)]
  obtain ⟨m', r, hs, hloc, hout⟩ := search_spec request hpage.1 hpage.2.1 holes [] walkFuel
    s.mem s.head none h.chain (by omega) (holes_packed h.packed) (fun x hx => hole_in h.inside hx) trivial
  have hs' : search request alignment walkFuel s.mem 0 s.head none = some (m', r) := hs
  obtain ⟨hchain, hkept⟩ := chain_searched (holes_packed h.packed) h.chain hout
  have hsearched : Tidy A ⟨m', s.head⟩ holes held :=
    ⟨hchain, fun b hb => (h.headers b hb).frame (held_kept h.packed hkept hb), h.packed, h.tiles, h.gaps, h.words⟩
  rw [hs', Option.map_some]
  cases r with
  | none => exact ⟨_, rfl, .inl ⟨rfl, hsearched⟩⟩
  | some b =>
    obtain ⟨prev, fit⟩ := b
    obtain ⟨pre, x, post, hl, rfl, rfl, hpad, hfit⟩ := hloc
    rw [List.nil_append] at hl
    subst hl
    obtain ⟨hsize, hwrap⟩ := hok x (by simp) hfit
    rw [Word.add_eq hwrap] at hfit
    rw [← hpad] at hfit
    refine ⟨_, rfl, .inr (hsearched.take hsize ?_ hrequest hfit)⟩
    rw [hpad]
    exact paddingFor_word (h.words x (by simp)).1 hal

/-- Owners write behind their headers. -/
theorem Tidy.store (h : Tidy A s holes held) (hb : b ∈ held) {offset : Nat} (hoff : offset < b.payload.size)
    (byte : BitVec 8) : Tidy A ⟨s.mem.write (b.payload.start + offset) 1 byte.toNat, s.head⟩ holes held := by
  obtain ⟨hholes, hheld⟩ := store_outside h.packed (fun c hc => (h.headers c hc).fits) hb hoff s.mem byte.toNat
  exact ⟨chain_congr h.chain hholes, fun c hc => (h.headers c hc).congr (hheld c hc), h.packed, h.tiles, h.gaps, h.words⟩

end

/-! ## Runs -/

/-- The list is sorted, and no two neighbours on it touch. -/
def Coalesced (s : State) : Prop :=
  ∃ holes, Chain s.mem s.head holes 0 ∧ holes.Pairwise (fun x y => x.addr < y.addr) ∧
    holes.IsChain fun x y => x.addr + sizeofMetadata + x.size ≠ y.addr

/-- The list is the block of `Create`. -/
def Whole (A : Arena) (s : State) : Prop :=
  Chain s.mem s.head [⟨A.base, defaultArenaSize - sizeofMetadata⟩] 0

/-- Sizes are multiples of 8, alignments 8 or 16. -/
def WordCall : Op → Prop
  | .allocate request alignment => request % 8 = 0 ∧ (alignment = 8 ∨ alignment = 16)
  | .free _ => True
  | .store _ _ _ => True

/-- `Allocate`: every block that passes its test is as large as a header, and the sum in the test does not wrap.
`Free`: the block has not two neighbours, and if it has a padding it does not become the last of a list. -/
def CallOk (s : Sys) : Op → Prop
  | .allocate request alignment => ∀ f, OnList s.heap.mem s.heap.head f →
      Word.add (paddingFor f alignment) request ≤ size s.heap.mem f →
      sizeofMetadata ≤ size s.heap.mem f ∧ paddingFor f alignment + request < 2 ^ 64
  | .free block =>
      ¬ ((∃ x, OnList s.heap.mem s.heap.head x ∧
          x + sizeofMetadata + size s.heap.mem x = metadataOf s.heap.mem block.start) ∧
        ∃ y, OnList s.heap.mem s.heap.head y ∧ metadataOf s.heap.mem block.start + sizeofMetadata +
          size s.heap.mem (metadataOf s.heap.mem block.start) = y) ∧
      (padding s.heap.mem (Word.sub block.start sizeofMetadata) = 0 ∨ s.heap.head = 0 ∨
        ∃ y, OnList s.heap.mem s.heap.head y ∧ metadataOf s.heap.mem block.start < y)
  | .store _ _ _ => True

structure SysTidy (A : Arena) (s : Sys) (holes : List Hole) (held : List Held) : Prop where
  tidy : Tidy A s.heap holes held
  live : s.live.Perm (held.map Held.payload)

section
variable {A : Arena} {s : Sys} {holes : List Hole} {held : List Held}

theorem onList_of_mem {m : ByteMemory} : ∀ {l : List Hole} {p : Nat}, Chain m p l 0 → (∀ x ∈ l, x.addr ≠ 0) →
    ∀ {x}, x ∈ l → OnList m p x.addr
  | y :: l, p, hc, hpos, x, hx => by
    obtain ⟨rfl, -, hrest⟩ := hc
    rcases List.mem_cons.mp hx with rfl | hx
    · exact .here (hpos x List.mem_cons_self)
    · exact .there (hpos y List.mem_cons_self)
        (onList_of_mem hrest (fun z hz => hpos z (List.mem_cons_of_mem _ hz)) hx)

theorem Tidy.onList {t : State} (h : Tidy A t holes held) {x : Hole} (hx : x ∈ holes) :
    OnList t.mem t.head x.addr :=
  onList_of_mem h.chain (fun _ hy => Nat.ne_of_gt (hole_bounds (hole_in h.inside hy)).1) hx

theorem Tidy.coalesced {t : State} (h : Tidy A t holes held) : Coalesced t := by
  refine ⟨holes, h.chain, h.gaps.imp fun hlt => ?_, (h.gaps.imp fun hlt => ?_).isChain⟩
  · omega
  · exact Nat.ne_of_lt hlt

/-- Blocks that tile the arena without touching are one. -/
theorem Tidy.whole {t : State} (h : Tidy A t holes []) : Whole A t := by
  have hholds : ∀ k, Holds (holes.map Hole.range) k ↔ A.range.Has k := fun k => by
    have := h.tiles k
    rwa [ranges, List.map_nil, List.append_nil] at this
  have hhole : ∀ x ∈ holes, ∀ k, x.range.Has k → A.range.Has k := fun x hx k hk =>
    (hholds k).mp ⟨_, List.mem_map_of_mem hx, hk⟩
  have hat : ∀ k, A.range.Has k → ∃ x ∈ holes, x.range.Has k := fun k hk => by
    obtain ⟨r, hr, hrk⟩ := (hholds k).mpr hk
    obtain ⟨x, hx, rfl⟩ := List.mem_map.mp hr
    exact ⟨x, hx, hrk⟩
  have hbase : A.base < A.base + defaultArenaSize := Nat.lt_add_of_pos_right (by decide)
  have hchain := h.chain
  have hgaps := h.gaps
  cases holes with
  | nil =>
    obtain ⟨x, hx, -⟩ := hat A.base ⟨Nat.le_refl _, hbase⟩
    cases hx
  | cons x l =>
    obtain ⟨hgap, -⟩ := gaps_cons.mp hgaps
    have hx := hhole x List.mem_cons_self
    have hend : A.base + defaultArenaSize ≤ x.addr + 16 + x.size := by
      refine Nat.le_of_not_lt fun hlt => ?_
      -- the address behind `x` lies in no block
      have hfirst := (hx x.addr ⟨Nat.le_refl _, by change x.addr < x.addr + (16 + x.size); omega⟩).1
      change A.base ≤ x.addr at hfirst
      obtain ⟨y, hy, hlo, hhi⟩ := hat (x.addr + 16 + x.size) ⟨by change A.base ≤ _; omega, hlt⟩
      change y.addr ≤ x.addr + 16 + x.size at hlo
      change x.addr + 16 + x.size < y.addr + (16 + y.size) at hhi
      rcases List.mem_cons.mp hy with rfl | hy
      · omega
      · have := hgap y hy
        omega
    have hsub : x.range.Sub A.range := hole_in h.inside List.mem_cons_self
    obtain ⟨hlo, hhi⟩ := hsub
    change A.base ≤ x.addr at hlo
    change x.addr + (16 + x.size) ≤ A.base + defaultArenaSize at hhi
    have hnil : l = [] := by
      cases l with
      | nil => rfl
      | cons y l =>
        have hy := hole_in h.inside (x := y) (by simp)
        have hgapy := hgap y List.mem_cons_self
        obtain ⟨-, hyend⟩ := hy
        change y.addr + (16 + y.size) ≤ A.base + defaultArenaSize at hyend
        omega
    obtain ⟨y, hy, hylo, -⟩ := hat A.base ⟨Nat.le_refl _, hbase⟩
    change y.addr ≤ A.base at hylo
    subst hnil
    obtain rfl := List.mem_singleton.mp hy
    have hone : y = ⟨A.base, defaultArenaSize - sizeofMetadata⟩ := by
      obtain ⟨addr, size⟩ := y
      simp only at *
      obtain rfl : addr = A.base := by omega
      refine congrArg (Hole.mk _) ?_
      unfold sizeofMetadata
      omega
    rw [hone] at hchain
    exact hchain

theorem SysTidy.free (h : SysTidy A s holes held) {b : Held} (hb : b ∈ held) (hok : CallOk s (.free b.payload)) :
    ∃ t holes', IOHeap.free s.heap b.payload.start = some t ∧ Tidy A t holes' (held.erase b) := by
  obtain ⟨huser, hmeta⟩ := h.tidy.metadataOf hb
  have hheader := h.tidy.headers b hb
  obtain ⟨hwedged, hend⟩ := hok
  rw [hmeta, hheader.size] at hwedged
  rw [hmeta, huser, hheader.pad] at hend
  have hw : ¬ Wedged ⟨b.addr, b.size⟩ holes := by
    rintro ⟨⟨x, hx, hxb⟩, y, hy, hby⟩
    refine hwedged ⟨⟨x.addr, h.tidy.onList hx, ?_⟩, y.addr, h.tidy.onList hy, hby⟩
    rw [h.tidy.size_eq hx]
    exact hxb
  have hlast : b.pad = 0 ∨ holes = [] ∨ ∃ y ∈ holes, b.addr < y.addr := by
    rcases hend with h0 | hnull | ⟨y, hy, hlt⟩
    · exact .inl h0
    · refine .inr (.inl ?_)
      cases holes with
      | nil => rfl
      | cons x l =>
        have hx := hole_bounds (hole_in h.tidy.inside (x := x) (by simp))
        have := h.tidy.chain.1
        omega
    · obtain ⟨z, hz, rfl, -⟩ := mem_of_onList h.tidy.chain hy
      exact .inr (.inr ⟨z, hz, hlt⟩)
  obtain ⟨t, ht, htidy⟩ := h.tidy.free hb hw hlast
  exact ⟨t, _, ht, htidy⟩

theorem SysTidy.allocate (h : SysTidy A s holes held) {request alignment : Nat}
    (hword : WordCall (.allocate request alignment)) (hok : CallOk s (.allocate request alignment)) :
    ∃ r, IOHeap.allocate s.heap request alignment = some r ∧
      ((r.1 = 0 ∧ Tidy A r.2 holes held) ∨
        ∃ holes' b, r.1 = b.payload.start ∧ b.request = request ∧ Tidy A r.2 holes' (b :: held)) := by
  refine h.tidy.allocate hword.1 hword.2 fun x hx hfits => ?_
  rw [← h.tidy.size_eq hx] at hfits ⊢
  exact hok x.addr (h.tidy.onList hx) hfits

theorem SysTidy.serves (h : SysTidy A s holes held) {op : Op} (hword : WordCall op) (hok : CallOk s op) :
    Serves (fun t held => ∃ holes, Tidy A t holes held) s.heap held op := by
  cases op with
  | allocate request alignment =>
    intro _
    obtain ⟨r, hr, hcase⟩ := h.allocate hword hok
    exact ⟨r, hr, hcase.imp (fun ⟨hnull, htidy⟩ => ⟨hnull, holes, htidy⟩)
      fun ⟨holes', b, hptr, hreq, htidy⟩ => ⟨b, hptr, hreq, holes', htidy⟩⟩
  | free block =>
    rintro b hb rfl
    obtain ⟨t, holes', ht, htidy⟩ := h.free hb hok
    exact ⟨t, ht, holes', htidy⟩
  | store block offset byte =>
    rintro b hb rfl hoff
    exact ⟨holes, h.tidy.store hb hoff byte⟩

/-- What `Create` sets up. -/
theorem create_tidy (A : Arena) (hbase : A.base % pageSize = 0) (m : ByteMemory) :
    SysTidy A ⟨create A.base m, []⟩ [⟨A.base, defaultArenaSize - sizeofMetadata⟩] [] := by
  have hinv := (create_inv A m).inv
  have hrange : Hole.range ⟨A.base, defaultArenaSize - sizeofMetadata⟩ = A.range :=
    congrArg (Range.mk A.base) (show sizeofMetadata + (defaultArenaSize - sizeofMetadata) = defaultArenaSize by decide)
  refine ⟨⟨hinv.chain, fun b hb => (by cases hb), hinv.packed, fun k => ?_, List.pairwise_singleton _ _, fun x hx => ?_⟩,
    List.Perm.refl _⟩
  · unfold ranges
    rw [List.map_cons, List.map_nil, List.map_nil, List.append_nil, hrange, holds_cons]
    simp [Holds]
  · obtain rfl := List.mem_singleton.mp hx
    unfold pageSize at hbase
    exact ⟨show A.base % 8 = 0 by omega, show (defaultArenaSize - sizeofMetadata) % 8 = 0 by decide⟩

end

/-- Along every run of calls with word sizes that meet `CallOk`, from the block that `Create` sets up: the list is sorted
and no two of its blocks touch, it is that block again when everything has been freed, and every such call returns. -/
theorem ioHeap_coalesced (A : Arena) (hbase : A.base % pageSize = 0) (m : ByteMemory) (ops : List Op)
    (hok : AllSteps step (fun s op => WordCall op ∧ CallOk s op) ⟨create A.base m, []⟩ ops) :
    AllStates step (fun s => Coalesced s.heap ∧ (s.live = [] → Whole A s.heap) ∧
      ∀ op, Admissible s op → WordCall op → CallOk s op → (step s op).isSome) ⟨create A.base m, []⟩ ops := by
  refine AllStates.mono (P := fun s => ∃ holes held, SysTidy A s holes held) ?_ ops _
    (allStates_of_allSteps ?_ ops _ ⟨_, _, create_tidy A hbase m⟩ hok)
  · intro s ⟨holes, held, h⟩
    refine ⟨h.tidy.coalesced, fun hlive => ?_, fun op hadm hword hcall => (h.serves hword hcall).returns h.live hadm⟩
    obtain rfl : held = [] := by
      have := h.live.length_eq
      rw [hlive, List.length_map] at this
      exact List.length_eq_zero_iff.mp this.symm
    exact h.tidy.whole
  · intro s op s' ⟨holes, held, h⟩ hg hs
    obtain ⟨held', ⟨holes', htidy⟩, hlive⟩ := (h.serves hg.1 hg.2).step h.live hs
    exact ⟨holes', held', htidy, hlive⟩

/-- The blocks on the list from `p` on. -/
def freeBlocks (m : ByteMemory) : Nat → Nat → Option (List Nat)
  | 0, _ => none
  | fuel + 1, p => if p = 0 then some [] else (freeBlocks m fuel (next m p)).map (p :: ·)

theorem mem_freeBlocks {m : ByteMemory} : ∀ {fuel p f : Nat} {l : List Nat}, freeBlocks m fuel p = some l →
    (OnList m p f ↔ f ∈ l)
  | 0, _, _, _, h => by cases h
  | fuel + 1, p, f, l, h => by
    unfold freeBlocks at h
    split at h
    · next hp =>
      cases h
      refine ⟨fun hf => ?_, fun hf => by cases hf⟩
      cases hf with
      | here hn | there hn _ => exact absurd hp hn
    · next hp =>
      obtain ⟨rest, hrest, rfl⟩ := Option.map_eq_some_iff.mp h
      rw [List.mem_cons, ← mem_freeBlocks hrest]
      constructor
      · intro hf
        cases hf with
        | here _ => exact .inl rfl
        | there _ hf => exact .inr hf
      · rintro (rfl | hf)
        · exact .here hp
        · exact .there hp hf

/-- `CallOk`, where `l` are the blocks on the list. -/
def CallFits (s : Sys) (l : List Nat) : Op → Prop
  | .allocate request alignment => ∀ f ∈ l, Word.add (paddingFor f alignment) request ≤ size s.heap.mem f →
      sizeofMetadata ≤ size s.heap.mem f ∧ paddingFor f alignment + request < 2 ^ 64
  | .free block =>
      ¬ ((∃ x ∈ l, x + sizeofMetadata + size s.heap.mem x = metadataOf s.heap.mem block.start) ∧
        metadataOf s.heap.mem block.start + sizeofMetadata + size s.heap.mem (metadataOf s.heap.mem block.start) ∈ l) ∧
      (padding s.heap.mem (Word.sub block.start sizeofMetadata) = 0 ∨ s.heap.head = 0 ∨
        ∃ y ∈ l, metadataOf s.heap.mem block.start < y)
  | .store _ _ _ => True

theorem callOk_iff {s : Sys} {fuel : Nat} {l : List Nat} (h : freeBlocks s.heap.mem fuel s.heap.head = some l) (op : Op) :
    CallOk s op ↔ CallFits s l op := by
  cases op <;> simp only [CallOk, CallFits, mem_freeBlocks h, exists_eq_right']

instance : (op : Op) → Decidable (WordCall op)
  | .allocate _ _ => inferInstanceAs (Decidable (_ ∧ _))
  | .free _ | .store _ _ _ => isTrue trivial

instance (s : Sys) (l : List Nat) : (op : Op) → Decidable (CallFits s l op)
  | .allocate _ _ => inferInstanceAs (Decidable (∀ f ∈ l, _))
  | .free _ => inferInstanceAs (Decidable (_ ∧ _))
  | .store _ _ _ => isTrue trivial

/-- Three blocks, the last one with a padding. The first one is freed and allocated again between the others. -/
def backAndForth : List Op :=
  [.allocate 32 8, .allocate 40 16, .allocate 24 16, .free ⟨generalArena.base + 128, 24⟩,
    .free ⟨generalArena.base + 16, 32⟩, .allocate 32 8, .free ⟨generalArena.base + 64, 40⟩,
    .free ⟨generalArena.base + 16, 32⟩]

theorem ioHeap_coalesced_back_and_forth :
    ∃ s, run step fresh backAndForth = some s ∧ s.live = [] ∧ Coalesced s.heap ∧ Whole generalArena s.heap := by
  have hfits : AllSteps step (fun s op => WordCall op ∧ ∃ l ∈ freeBlocks s.heap.mem 4 s.heap.head, CallFits s l op)
      fresh backAndForth := by decide +kernel
  have hlast : (run step fresh backAndForth).map (·.live) = some [] := by decide +kernel
  obtain ⟨s, hs, hlive⟩ := Option.map_eq_some_iff.mp hlast
  have hall := ioHeap_coalesced generalArena (by decide) (fun _ => 0) backAndForth
    (AllSteps.mono (fun s op ⟨hword, l, hl, hfits⟩ => ⟨hword, (callOk_iff hl op).mpr hfits⟩) _ _ hfits)
  obtain ⟨hcoalesced, hwhole, -⟩ := AllStates.of_run _ _ s hall hs
  exact ⟨s, hs, hlive, hcoalesced, hwhole hlive⟩

/-- Two blocks are freed in the order of their addresses: the second has free neighbours on both sides, and the list
keeps two blocks. -/
theorem two_neighbours : (∀ op ∈ [Op.allocate 24 8, .allocate 24 8, .free ⟨generalArena.base + 16, 24⟩,
      .free ⟨generalArena.base + 56, 24⟩], WordCall op) ∧
    ¬ AllStates step (fun s => Coalesced s.heap ∧ (s.live = [] → Whole generalArena s.heap)) fresh
      [.allocate 24 8, .allocate 24 8, .free ⟨generalArena.base + 16, 24⟩, .free ⟨generalArena.base + 56, 24⟩] := by
  refine ⟨by simp [WordCall], fun hall => ?_⟩
  have hrun : (run step fresh [.allocate 24 8, .allocate 24 8, .free ⟨generalArena.base + 16, 24⟩,
      .free ⟨generalArena.base + 56, 24⟩]).map (fun s => (s.live, size s.heap.mem s.heap.head)) =
        some ([], 64) := by decide +kernel
  obtain ⟨s, hs, hlast⟩ := Option.map_eq_some_iff.mp hrun
  obtain ⟨hlive, hsize⟩ := Prod.mk.inj hlast
  have hwhole : Whole generalArena s.heap := (AllStates.of_run _ _ s hall hs).2 hlive
  have hone : size s.heap.mem s.heap.head = defaultArenaSize - sizeofMetadata := hwhole.2.1
  exact absurd (hone.symm.trans hsize) (by decide)

end BadLands.Mm.IOHeap
