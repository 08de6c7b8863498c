import BadLands.Mm.HeapBestFit

/-!
# Requests of any size

`Allocate` adds the header to the size, rounds it up, and where no node fits `ExtendArena` doubles it and rounds it to
pages, all in 64 bits and without a check. `Honoured` is what a caller may expect: null and an unchanged heap, or a
block in one arena that offers what was asked for, of a size that did not wrap.

`requests_honoured_iff`: exactly which requests are honoured, in every state that honoured ones, frees and writes reach.
-/
namespace BadLands.Mm.Heap

open BadLands.Core BadLands.Core.Avl BadLands.Core.Machine BadLands.Core.Ranges
open BadLands.Mm.HeapTree BadLands.Mm.Layout

/-! ## Every record lies in one arena -/

def Homed (s : Sys) (t : SearchTree Nat) : Prop := ∀ r ∈ records s.mem t.keys s.live, Inside r s.arenas

/-- A tree is determined by its root. -/
theorem rep_unique {m : Mem} : ∀ {t t' : SearchTree Nat} {p p' : Nat}, Rep m t p → Rep m t' p' → ptr t = ptr t' → t = t'
  | .nil, .nil, _, _, _, _, _ => rfl
  | .nil, .node l b r, _, _, _, h', heq => absurd heq.symm h'.1
  | .node l b r, .nil, _, _, h, _, heq => absurd heq h.1
  | .node l b r, .node l' b' r', _, _, h, h', heq => by
    obtain rfl : b = b' := heq
    obtain ⟨-, hl, hr, -, -, hrl, hrr⟩ := h
    obtain ⟨-, hl', hr', -, -, hrl', hrr'⟩ := h'
    rw [rep_unique hrl hrl' (hl.symm.trans hl'), rep_unique hrr hrr' (hr.symm.trans hr')]

theorem homed_of {m : Mem} {ks : List Nat} {live : List Live} {arenas : List Range}
    (hk : ∀ x ∈ ks, Inside (nodeRange m x) arenas) (hl : ∀ b ∈ live, Inside (nodeRange m b.header) arenas) :
    ∀ r ∈ records m ks live, Inside r arenas := by
  intro r hr
  rcases List.mem_append.mp hr with hr | hr
  · obtain ⟨x, hx, rfl⟩ := List.mem_map.mp hr
    exact hk x hx
  · obtain ⟨b, hb, rfl⟩ := List.mem_map.mp hr
    exact hl b hb

section
variable {s : Sys} {t : SearchTree Nat}

theorem Homed.key (hh : Homed s t) {x : Nat} (hx : x ∈ t.keys) : Inside (nodeRange s.mem x) s.arenas :=
  hh _ (Tiled.node_mem hx)

theorem Homed.header (hh : Homed s t) {b : Live} (hb : b ∈ s.live) : Inside (nodeRange s.mem b.header) s.arenas :=
  hh _ (Tiled.live_mem hb)

/-- The pieces of a range lie where it does. -/
theorem inside_cut {m : Mem} {arenas : List Range} {a l n x : Nat} (h : Inside ⟨a, l + n⟩ arenas)
    (hx : (x = a ∧ m.size x = l) ∨ (x = a + l ∧ m.size x = n)) : Inside (nodeRange m x) arenas := by
  obtain ⟨z, hz, hsub⟩ := h
  refine ⟨z, hz, ?_⟩
  unfold Range.Sub nodeRange at *
  simp only at *
  omega

theorem mem_cons_header {p r : Nat} {live : List Live} {b : Live}
    (hb : b ∈ Live.mk (p + sizeofAllocatedNode) r :: live) : b.header = p ∨ b ∈ live := by
  rcases List.mem_cons.mp hb with rfl | hb
  · exact .inl (Nat.add_sub_cancel _ _)
  · exact .inr hb

/-- A call keeps every record in one arena. -/
theorem outcome_homed (h : Inv s t) (hh : Homed s t) {size arena n r : Nat} (hblock : blockSize size = n)
    (hn : 0 < n) (harena : ArenaFits s.arenas arena n) {m' : Mem} {root' p : Nat}
    (ho : Outcome s t arena n (some (m', root', p))) {t' : SearchTree Nat}
    (h' : Inv (s.taking size arena p r m' root') t') : Homed (s.taking size arena p r m' root') t' := by
  have hrep' : Rep m' t' 0 := h'.avl.rep
  have hroot' : root' = ptr t' := h'.root
  rcases ho with ⟨hfind, ⟨har, rfl, rfl, rfl⟩ | ⟨har, hp, l, t₁, hl, hl8, hl40, rfl, rfl, heq⟩⟩ |
    ⟨hp, a, hmem, hfind, ha0, ⟨t₁, hle, rfl, rfl, heq⟩ | ⟨l, hl, hl40, rfl, rfl, rfl⟩⟩
  · obtain rfl := rep_unique h.avl.rep hrep' (h.root.symm.trans hroot')
    simp only [Homed, Sys.taking, arenasAfter, har, ne_eq, not_true_eq_false, and_false, if_false, if_true]
    exact hh
  · obtain ⟨-, -, hspace, hdisj⟩ := harena.resolve_left har
    rw [hl] at hspace hdisj
    have hl0 : 0 < l := Nat.lt_of_lt_of_le (by decide) hl40
    obtain ⟨-, hrest, havl, hkey⟩ := extend_mem h hl0 hn hdisj rfl
    obtain ⟨m₂, t₂, heq₂, havl₂, hperm, hm₂⟩ := insert_spec havl har hkey h.keys_length
    rw [h.root, heq₂] at heq
    obtain ⟨rfl, hroot⟩ := Prod.mk.inj (Option.some.inj heq)
    obtain rfl := rep_unique havl₂.rep hrep' (hroot.trans hroot')
    simp only [Homed, Sys.taking, arenasAfter, hblock, hfind, har, ne_eq, not_false_eq_true, and_self, if_true, hl]
    rw [if_neg hp]
    have hnew : Inside ⟨arena, l + n⟩ (⟨arena, l + n⟩ :: s.arenas) :=
      ⟨_, List.mem_cons_self, Nat.le_refl _, Nat.le_refl _⟩
    have hold : ∀ {x}, nodeRange s.mem x ∈ records s.mem t.keys s.live →
        Inside (nodeRange m₂ x) (⟨arena, l + n⟩ :: s.arenas) := by
      intro x hx
      obtain ⟨z, hz, hsub⟩ := hh _ hx
      refine ⟨z, List.mem_cons_of_mem _ hz, ?_⟩
      rw [show nodeRange m₂ x = nodeRange s.mem x by
        unfold nodeRange
        rw [hm₂]
        exact congrArg _ (hrest hx)]
      exact hsub
    refine homed_of (fun x hx => ?_) fun b hb => ?_
    · rcases List.mem_cons.mp (hperm.mem_iff.mp hx) with rfl | hx
      · refine inside_cut hnew (.inl ⟨rfl, ?_⟩)
        rw [hm₂]
        exact (if_neg (by omega)).trans (if_pos rfl)
      · exact hold (Tiled.node_mem hx)
    · rcases mem_cons_header hb with he | hb
      · rw [he]
        refine inside_cut hnew (.inr ⟨rfl, ?_⟩)
        rw [hm₂]
        exact if_pos rfl
      · exact hold (Tiled.live_mem hb)
  · obtain ⟨m₂, t₂, heq₂, havl₂, hperm, hm₂⟩ := delete_spec h.avl hmem h.keys_length
    rw [h.root, heq₂] at heq
    obtain ⟨rfl, hroot⟩ := Prod.mk.inj (Option.some.inj heq)
    obtain rfl := rep_unique havl₂.rep hrep' (hroot.trans hroot')
    simp only [Homed, Sys.taking, arenasAfter, hblock, hfind, Option.some.injEq, ha0, false_and, if_false]
    rw [if_neg hp]
    have hsame : ∀ x, nodeRange m₂ x = nodeRange s.mem x := fun x => by
      unfold nodeRange
      rw [hm₂]
    refine homed_of (fun x hx => ?_) fun b hb => ?_
    · rw [hsame]
      exact hh.key (hperm.mem_iff.mpr (List.mem_cons_of_mem _ hx))
    · rw [hsame]
      rcases mem_cons_header hb with he | hb
      · rw [he]
        exact hh.key hmem
      · exact hh.header hb
  · have hsame : Rep ((s.mem.setSize (a + l) n).setSize a l) t 0 := (isAvl_setSize (isAvl_setSize h.avl _ _) _ _).rep
    obtain rfl := rep_unique hsame hrep' (h.root.symm.trans hroot')
    simp only [Homed, Sys.taking, arenasAfter, hblock, hfind, Option.some.injEq, ha0, false_and, if_false]
    rw [if_neg hp]
    have hnode : Inside ⟨a, l + n⟩ s.arenas := by
      have hin := hh.key hmem
      unfold nodeRange at hin
      rwa [hl] at hin
    have hl0 : 0 < l := Nat.lt_of_lt_of_le (by decide) hl40
    have hcut : ∀ {x}, Inside (nodeRange s.mem x) s.arenas →
        Inside (nodeRange ((s.mem.setSize (a + l) n).setSize a l) x) s.arenas := by
      intro x hx
      by_cases h1 : x = a
      · exact inside_cut hnode (.inl ⟨h1, if_pos h1⟩)
      · by_cases h2 : x = a + l
        · exact inside_cut hnode (.inr ⟨h2, (if_neg h1).trans (if_pos h2)⟩)
        · have hsize : ((s.mem.setSize (a + l) n).setSize a l).size x = s.mem.size x := (if_neg h1).trans (if_neg h2)
          unfold nodeRange at hx ⊢
          rwa [hsize]
    refine homed_of (fun x hx => hcut (hh.key hx)) fun b hb => ?_
    rcases mem_cons_header hb with he | hb
    · rw [he]
      exact inside_cut hnode (.inr ⟨rfl, (if_neg (by omega)).trans (if_pos rfl)⟩)
    · exact hcut (hh.header hb)

end

/-! ## Sizes -/

/-- The size of the block without wrapping: header included, at least a node, aligned. -/
def rounded (size : Nat) : Nat :=
  (max (size + sizeofAllocatedNode) sizeofNode + (arenaAlignment - 1)) / arenaAlignment * arenaAlignment

/-- No step on the size wraps: adding the header, rounding up and, where the arena is extended, doubling and rounding
to pages. -/
def NoWrap (size : Nat) (extended : Prop) : Prop :=
  size + sizeofAllocatedNode < 2 ^ 64 ∧ rounded size < 2 ^ 64 ∧
    (extended → 2 * rounded size + (pageSize - 1) < 2 ^ 64)

theorem rounded_spec (size : Nat) :
    rounded size % arenaAlignment = 0 ∧ sizeofNode ≤ rounded size ∧ sizeofAllocatedNode + size ≤ rounded size := by
  unfold rounded arenaAlignment sizeofNode sizeofAllocatedNode
  omega

theorem align_eq {n : Nat} (h : n + 7 < 2 ^ 64) : align n = (n + 7) / 8 * 8 := by
  unfold align arenaAlignment
  dsimp only
  split
  · rw [Word.add_eq (by omega)]
    omega
  · omega

theorem blockSize_rounded {size : Nat} (h : size + 15 < 2 ^ 64) : blockSize size = rounded size := by
  have hadd : Word.add size sizeofAllocatedNode = size + sizeofAllocatedNode := Word.add_eq (by
    unfold sizeofAllocatedNode
    omega)
  have hmax : (if size + sizeofAllocatedNode < sizeofNode then sizeofNode else size + sizeofAllocatedNode) =
      max (size + sizeofAllocatedNode) sizeofNode := by
    split <;> omega
  simp only [blockSize, hadd, hmax]
  refine align_eq ?_
  unfold sizeofAllocatedNode sizeofNode
  omega

/-- Rounding up wraps to zero. -/
theorem blockSize_zero {size : Nat} (h : 2 ^ 64 ≤ size + 15) (h8 : size + 8 < 2 ^ 64) : blockSize size = 0 := by
  have hadd : Word.add size sizeofAllocatedNode = size + 8 := Word.add_eq h8
  have hnode : ¬ size + 8 < sizeofNode := by
    unfold sizeofNode
    omega
  have hodd : (size + 8) % arenaAlignment ≠ 0 := by
    unfold arenaAlignment
    omega
  simp only [blockSize, hadd, if_neg hnode, align, if_pos hodd]
  unfold Word.add arenaAlignment
  omega

/-- Adding the header wraps, and the block is as small as a node. -/
theorem blockSize_node {size : Nat} (h8 : 2 ^ 64 ≤ size + 8) (h : size < 2 ^ 64) : blockSize size = sizeofNode := by
  have hnode : Word.add size sizeofAllocatedNode < sizeofNode := by
    unfold Word.add sizeofAllocatedNode sizeofNode
    omega
  simp only [blockSize, if_pos hnode]
  decide

theorem arenaSize_room {n : Nat} (h40 : sizeofNode ≤ n) (h : 2 * n + (pageSize - 1) < 2 ^ 64) :
    arenaSize n % arenaAlignment = 0 ∧ 2 * n ≤ arenaSize n := by
  simp only [arenaSize, sizeofNode, arenaAlignment, pageSize] at *
  rw [Word.mul_eq (a := 2) (by omega), Word.add_eq (by omega), Word.mul_eq (by omega)]
  omega

/-- Where doubling or rounding to pages wraps, a block never ends just behind a new arena of the kernel heap. -/
theorem block_ne_arena_end {n arena : Nat} (h : 2 ^ 64 ≤ 2 * n + (pageSize - 1))
    (hstart : kernelHeap.start ≤ arena) (hend : arena + arenaSize n ≤ kernelHeap.end) :
    n ≠ arena + arenaSize n + sizeofAllocatedNode := by
  have hs : kernelHeap.start = 0xFFFF810000000000 := by decide
  have he : kernelHeap.end = 0xFFFFFE8000000000 := by decide
  rw [hs] at hstart
  rw [he] at hend
  unfold arenaSize pageSize at *
  unfold sizeofAllocatedNode Word.mul Word.add at *
  omega

/-! ## Honoured requests -/

/-- What `AllocateKernelHeap` returns for `n` bytes: null, as it does for none, or pages of the kernel heap apart from
those in use. -/
def FromKernelHeap (arenas : List Range) (p n : Nat) : Prop :=
  p = 0 ∨ (0 < n ∧ p % pageSize = 0 ∧ kernelHeap.start ≤ p ∧ p + n ≤ kernelHeap.end ∧
    ∀ r ∈ arenas, (Range.mk p n).Disj r)

instance (arenas : List Range) (p n : Nat) : Decidable (FromKernelHeap arenas p n) :=
  inferInstanceAs (Decidable (_ ∨ _))

/-- Between two calls. -/
structure HeapState (s : Sys) (t : SearchTree Nat) : Prop extends Inv s t where
  homed : Homed s t
  zone : ∀ r ∈ s.arenas, kernelHeap.start ≤ r.start ∧ r.start + r.size ≤ kernelHeap.end

/-- Null, and nothing changed; or a block in one arena, that offers what was asked for. -/
def Honoured (s : Sys) (size arena : Nat) : Prop :=
  match allocate s.mem s.root size arena with
  | none => False
  | some (m', root', p) =>
    (p = 0 ∧ m' = s.mem ∧ root' = s.root) ∨
    (sizeofAllocatedNode ≤ p ∧ sizeofAllocatedNode + size ≤ m'.size (p - sizeofAllocatedNode) ∧
      Inside ⟨p, size⟩ (arenasAfter s size arena) ∧
      NoWrap size (bestFind s.mem (blockSize size) maxNodes s.root = some 0))

/-- Rounding does not wrap and, unless a node is found or there is no memory, neither does the size of the new arena;
where rounding wraps to nothing, no node is free; where the header wraps, no node is found and there is no memory. -/
def Servable (m : Mem) (t : SearchTree Nat) (size arena : Nat) : Prop :=
  if size + 15 < 2 ^ 64 then
    arena = 0 ∨ seen m (rounded size) t ≠ [] ∨ 2 * rounded size + (pageSize - 1) < 2 ^ 64
  else if size + sizeofAllocatedNode < 2 ^ 64 then t.keys = []
  else arena = 0 ∧ seen m sizeofNode t = []

section
variable {s : Sys} {t : SearchTree Nat}

theorem finds_none_iff (h : Inv s t) {n : Nat} (hn : 0 < n) :
    bestFind s.mem n maxNodes s.root = some 0 ↔ seen s.mem n t = [] := by
  obtain ⟨a, hfind, ha⟩ := bestFind_smallest hn t 0 maxNodes h.avl.rep h.keys_length
  rw [h.root, hfind, Option.some.injEq]
  rcases ha with ⟨hnil, ha0⟩ | ⟨hmem, -⟩
  · exact ⟨fun _ => hnil, fun _ => ha0⟩
  · have ha0 := h.avl.rep.keys_ne a (mem_seen hmem).1
    refine ⟨fun h0 => absurd h0 ha0, fun hnil => ?_⟩
    rw [hnil] at hmem
    cases hmem

theorem outcome_null {arena n : Nat} {m' : Mem} {root' p : Nat} (ho : Outcome s t arena n (some (m', root', p))) :
    (p = 0 ↔ arena = 0 ∧ bestFind s.mem n maxNodes s.root = some 0) ∧ (p = 0 → m' = s.mem ∧ root' = s.root) := by
  rcases ho with ⟨hfind, ⟨har, rfl, rfl, rfl⟩ | ⟨har, hp, -⟩⟩ | ⟨hp, a, -, hfind, ha0, -⟩
  · exact ⟨⟨fun _ => ⟨har, hfind⟩, fun _ => rfl⟩, fun _ => ⟨rfl, rfl⟩⟩
  · exact ⟨⟨fun h => absurd h hp, fun h => absurd h.1 har⟩, fun h => absurd h hp⟩
  · refine ⟨⟨fun h => absurd h hp, fun h => ?_⟩, fun h => absurd h hp⟩
    rw [hfind] at h
    exact absurd (Option.some.inj h.2) ha0

theorem FromKernelHeap.fits {arenas : List Range} {arena n : Nat} (h : FromKernelHeap arenas arena (arenaSize n))
    (hn : sizeofNode ≤ n) (h2 : 2 * n + (pageSize - 1) < 2 ^ 64) : ArenaFits arenas arena n := by
  obtain ⟨ha8, hroom⟩ := arenaSize_room hn h2
  have he : kernelHeap.end = 0xFFFFFE8000000000 := by decide
  exact h.imp_right fun hz => ⟨ha8, by omega, by omega, hz.2.2.2.2⟩

/-- A node that is found makes the new arena unnecessary. -/
theorem allocate_found {m : Mem} {root size : Nat} (h : bestFind m (blockSize size) maxNodes root ≠ some 0)
    (arena arena' : Nat) : allocate m root size arena = allocate m root size arena' := by
  simp only [allocate]
  refine Option.bind_congr fun a hfind => ?_
  have ha0 : a ≠ 0 := fun h0 => h (h0 ▸ hfind)
  rw [if_neg ha0, if_neg ha0]

theorem arenasAfter_found {size : Nat} (h : bestFind s.mem (blockSize size) maxNodes s.root ≠ some 0) (arena : Nat) :
    arenasAfter s size arena = s.arenas :=
  if_neg fun h' => h h'.1

/-- A call for a block that fits the address space leaves a heap, and is honoured. -/
theorem served (h : HeapState s t) {size arena : Nat} (hsize : size + 15 < 2 ^ 64)
    (hfits : ArenaFits s.arenas arena (rounded size))
    (hzone : arena = 0 ∨ (kernelHeap.start ≤ arena ∧ arena + arenaSize (rounded size) ≤ kernelHeap.end))
    (hwrap : bestFind s.mem (blockSize size) maxNodes s.root = some 0 → arena ≠ 0 →
      2 * rounded size + (pageSize - 1) < 2 ^ 64) :
    Honoured s size arena ∧ ∃ s' t', exec s (.allocate size arena) = some s' ∧ HeapState s' t' := by
  have hblock := blockSize_rounded hsize
  obtain ⟨hr8, hr40, hroom⟩ := rounded_spec size
  have hr0 : 0 < rounded size := Nat.lt_of_lt_of_le (by decide) hr40
  have hout := allocate_outcome h.toInv hblock ⟨hr8, hr40⟩ hfits
  unfold Honoured
  rw [exec]
  cases hcall : allocate s.mem s.root size arena with
  | none =>
    rw [hcall] at hout
    exact hout.elim
  | some r =>
    obtain ⟨m', root', p⟩ := r
    rw [hcall] at hout
    obtain ⟨t', hinv⟩ := outcome_inv h.toInv hblock ⟨hr8, hr40⟩ hfits hroom hout
    have hhome := outcome_homed h.toInv h.homed hblock hr0 hfits hout hinv
    have hnull := outcome_null hout
    refine ⟨?_, s.taking size arena p size m' root', t', rfl, hinv, hhome, fun z hz => ?_⟩
    · by_cases hp : p = 0
      · exact .inl ⟨hp, hnull.2 hp⟩
      · have hlive : Live.mk p size ∈ (s.taking size arena p size m' root').live := by
          simp only [Sys.taking, if_neg hp]
          exact List.mem_cons_self
        have hptr : sizeofAllocatedNode ≤ p := hinv.ptrs _ hlive
        have hoffer : sizeofAllocatedNode + size ≤ m'.size (p - sizeofAllocatedNode) := hinv.offers _ hlive
        obtain ⟨z, hz, hsub⟩ := hhome.header hlive
        have hpayload : Range.Sub ⟨p, size⟩ z := by
          unfold Range.Sub nodeRange Live.header Sys.taking at hsub
          unfold Range.Sub
          simp only at hsub ⊢
          omega
        refine .inr ⟨hptr, hoffer, ⟨z, hz, hpayload⟩, ?_⟩
        refine ⟨?_, ?_, fun hnone => hwrap hnone fun har => hp ?_⟩
        · unfold sizeofAllocatedNode
          omega
        · unfold rounded arenaAlignment sizeofNode sizeofAllocatedNode
          omega
        · exact hnull.1.mpr ⟨har, hblock ▸ hnone⟩
    · change z ∈ arenasAfter s size arena at hz
      unfold arenasAfter at hz
      split at hz
      · rename_i hext
        rcases List.mem_cons.mp hz with rfl | hz
        · rw [hblock]
          exact hzone.resolve_left hext.2
        · exact h.zone z hz
      · exact h.zone z hz

/-- A call that returns null leaves the heap as it was. -/
theorem exec_null (h : HeapState s t) {size : Nat} (hcall : allocate s.mem s.root size 0 = some (s.mem, s.root, 0)) :
    Honoured s size 0 ∧ ∃ s' t', exec s (.allocate size 0) = some s' ∧ HeapState s' t' := by
  have harenas : arenasAfter s size 0 = s.arenas := if_neg fun h' => h'.2 rfl
  refine ⟨?_, s, t, ?_, h⟩
  · unfold Honoured
    rw [hcall]
    exact .inl ⟨rfl, rfl, rfl⟩
  · rw [exec, hcall, Option.map_some, harenas]
    rfl

/-! ### A block that fits the address space -/

theorem servable_served (h : HeapState s t) {size arena : Nat} (hsize : size + 15 < 2 ^ 64)
    (harena : FromKernelHeap s.arenas arena (arenaSize (blockSize size)))
    (hok : arena = 0 ∨ seen s.mem (rounded size) t ≠ [] ∨ 2 * rounded size + (pageSize - 1) < 2 ^ 64) :
    Honoured s size arena ∧ ∃ s' t', exec s (.allocate size arena) = some s' ∧ HeapState s' t' := by
  have hblock := blockSize_rounded hsize
  have hr40 := (rounded_spec size).2.1
  have hr0 : 0 < rounded size := Nat.lt_of_lt_of_le (by decide) hr40
  have hnoArena := served h hsize (.inl rfl) (.inl rfl) fun _ h0 => absurd rfl h0
  by_cases har : arena = 0
  · rw [har]
    exact hnoArena
  · rcases hok.resolve_left har with hseen | h2
    · -- a node is found, whatever the arena would be
      have hfound : bestFind s.mem (blockSize size) maxNodes s.root ≠ some 0 := fun hnone =>
        hseen ((finds_none_iff h.toInv hr0).mp (hblock ▸ hnone))
      unfold Honoured at hnoArena ⊢
      rw [exec] at hnoArena ⊢
      rw [allocate_found hfound arena 0, arenasAfter_found hfound]
      rw [arenasAfter_found hfound] at hnoArena
      exact hnoArena
    · rw [hblock] at harena
      have hzone := harena.imp_right fun hz => And.intro hz.2.2.1 hz.2.2.2.1
      exact served h hsize (harena.fits hr40 h2) hzone fun _ _ => h2

/-- Where the size of the new arena wraps, what comes back is a block. -/
theorem wrapped_not_honoured (h : HeapState s t) {size arena : Nat} (hsize : size + 15 < 2 ^ 64)
    (harena : FromKernelHeap s.arenas arena (arenaSize (blockSize size))) (har : arena ≠ 0)
    (hseen : seen s.mem (rounded size) t = []) (h2 : 2 ^ 64 ≤ 2 * rounded size + (pageSize - 1)) :
    ¬ Honoured s size arena := by
  have hblock := blockSize_rounded hsize
  have hr0 : 0 < rounded size := Nat.lt_of_lt_of_le (by decide) (rounded_spec size).2.1
  have hfind := (finds_none_iff h.toInv hr0).mpr hseen
  obtain ⟨hn0, -, hstart, hend, -⟩ := harena.resolve_left har
  rw [hblock] at hend hn0
  have hne := block_ne_arena_end h2 hstart hend
  have he : kernelHeap.end = 0xFFFFFE8000000000 := by decide
  have hlt : rounded size < 2 ^ 64 := by
    unfold rounded arenaAlignment sizeofNode sizeofAllocatedNode
    omega
  unfold Honoured
  simp only [allocate, hblock, hfind, Option.bind_some, if_true, if_neg har]
  generalize hm : (clear s.mem arena (arenaSize (rounded size))).setSize arena (arenaSize (rounded size)) = m
  have hsz : m.size arena = arenaSize (rounded size) := hm ▸ if_pos rfl
  rw [hsz]
  cases Mem.insert maxNodes _ s.root arena with
  | none => exact id
  | some r =>
    intro hgot
    rcases hgot with ⟨hp, -⟩ | ⟨-, -, -, -, -, hwrap⟩
    · unfold sizeofAllocatedNode at *
      unfold Word.add Word.sub at hp
      split at hp <;> omega
    · exact absurd (hwrap trivial) (Nat.not_lt.mpr h2)

/-! ### Rounding wraps to zero -/

/-- The choice among the root and what was found in its subtrees is one of them. -/
theorem pick_key {m : Mem} {K : List Nat} {a n : Nat} (ha : a ∈ K) (hn : n = 0 ∨ n ∈ K) :
    ∃ b ∈ K, pick 0 (a, m.size a) (candidate m 0 n) = (b, m.size b) := by
  rcases hn with rfl | hn
  · exact ⟨a, ha, if_neg fun h => absurd h.1 (by simp [candidate, dropSmall])⟩
  · by_cases hn0 : n = 0
    · subst hn0
      exact ⟨a, ha, if_neg fun h => absurd h.1 (by simp [candidate, dropSmall])⟩
    · rw [candidate_fits hn0 (Nat.zero_le _)]
      unfold pick
      split
      · exact ⟨n, hn, rfl⟩
      · exact ⟨a, ha, rfl⟩

/-- For no bytes every node will do. -/
theorem bestFind_nothing {m : Mem} : ∀ (t : SearchTree Nat) (p fuel : Nat), Rep m t p →
    (∀ x ∈ t.keys, 0 < m.size x) → t.keys.length < fuel →
    ∃ a, bestFind m 0 fuel (ptr t) = some a ∧ ((t.keys = [] ∧ a = 0) ∨ a ∈ t.keys)
  | .nil, _, fuel, _, _, hf => by
    obtain ⟨k, rfl⟩ : ∃ k, fuel = k + 1 := ⟨fuel - 1, by simp at hf; omega⟩
    exact ⟨0, rfl, .inl ⟨rfl, rfl⟩⟩
  | .node l b r, p, fuel, ⟨hb0, hl, hr, _, _, hrl, hrr⟩, hpos, hf => by
    simp only [keys_node, List.length_append, List.length_cons] at hf
    obtain ⟨k, rfl⟩ : ∃ k, fuel = k + 1 := ⟨fuel - 1, by omega⟩
    have hb : 0 < m.size b := hpos b (by simp)
    obtain ⟨x, hx, hxs⟩ := bestFind_nothing l b k hrl (fun x hx => hpos x (by simp [hx])) (by omega)
    obtain ⟨y, hy, hys⟩ := bestFind_nothing r b k hrr (fun x hx => hpos x (by simp [hx])) (by omega)
    have hxk : x = 0 ∨ x ∈ (SearchTree.node l b r).keys := hxs.imp And.right fun h => by simp [h]
    have hyk : y = 0 ∨ y ∈ (SearchTree.node l b r).keys := hys.imp And.right fun h => by simp [h]
    have hleft : ¬ (x ≠ 0 ∧ m.size x = 0) := fun h => absurd h.2 (Nat.ne_of_gt (hpos x (hxk.resolve_left h.1)))
    rw [ptr_node, bestFind, if_neg hb0, if_neg (Nat.ne_of_gt hb), hl, hr, hx, Option.bind_some, if_neg hleft, hy,
      candidate_fits hb0 (Nat.zero_le _)]
    obtain ⟨c, hc, hpick⟩ := pick_key (m := m) (a := b) (by simp) hxk
    obtain ⟨d, hd, hpick'⟩ := pick_key (m := m) hc hyk
    rw [hpick, Option.map_some, hpick']
    exact ⟨d, rfl, .inr hd⟩

/-- A block of no bytes is cut off a node, and begins where the next record does. -/
theorem zero_not_honoured (h : HeapState s t) {size : Nat} (arena : Nat) (h15 : 2 ^ 64 ≤ size + 15)
    (h8 : size + 8 < 2 ^ 64) (hkeys : t.keys ≠ []) : ¬ Honoured s size arena := by
  obtain ⟨a, hfind, ha⟩ := bestFind_nothing t 0 maxNodes h.avl.rep (fun x hx => h.size_pos (Tiled.node_mem hx))
    h.keys_length
  rw [← h.root] at hfind
  have hmem := ha.resolve_left fun h' => hkeys h'.1
  have ha0 := h.avl.rep.keys_ne a hmem
  have hsize : sizeofNode ≤ s.mem.size a := (h.sizes _ (Tiled.node_mem hmem)).2
  obtain ⟨z, hz, hsub⟩ := h.homed.key hmem
  have hend := (h.zone z hz).2
  have he : kernelHeap.end = 0xFFFFFE8000000000 := by decide
  have hcut : s.mem.size a > 0 ∧ Word.sub (s.mem.size a) 0 ≥ sizeofNode := by
    rw [Word.sub_eq (Nat.zero_le _)]
    unfold sizeofNode at *
    omega
  unfold Honoured
  simp only [allocate, blockSize_zero h15 h8, hfind, Option.bind_some, if_neg ha0, if_pos hcut]
  intro hgot
  rcases hgot with ⟨hp, -⟩ | ⟨-, -, -, -, hround, -⟩
  · unfold Range.Sub nodeRange at hsub
    simp only at hsub
    unfold Word.add Word.sub sizeofAllocatedNode at hp
    simp only [Nat.zero_le, if_true] at hp
    omega
  · unfold rounded arenaAlignment sizeofNode sizeofAllocatedNode at hround
    omega

theorem zero_null (h : HeapState s t) {size : Nat} (h15 : 2 ^ 64 ≤ size + 15) (h8 : size + 8 < 2 ^ 64)
    (hkeys : t.keys = []) : allocate s.mem s.root size 0 = some (s.mem, s.root, 0) := by
  obtain ⟨a, hfind, ha⟩ := bestFind_nothing t 0 maxNodes h.avl.rep (fun x hx => h.size_pos (Tiled.node_mem hx))
    h.keys_length
  rw [← h.root] at hfind
  have ha0 : a = 0 := ha.elim And.right fun h' => by
    rw [hkeys] at h'
    cases h'
  rw [ha0] at hfind
  simp only [allocate, blockSize_zero h15 h8, hfind, Option.bind_some, if_true]

/-! ### The header wraps -/

theorem node_honoured_iff (h : HeapState s t) {size arena : Nat} (hsize : size < 2 ^ 64) (h8 : 2 ^ 64 ≤ size + 8)
    (harena : FromKernelHeap s.arenas arena (arenaSize (blockSize size))) :
    (Honoured s size arena ↔ arena = 0 ∧ seen s.mem sizeofNode t = []) ∧
      (arena = 0 ∧ seen s.mem sizeofNode t = [] → allocate s.mem s.root size arena = some (s.mem, s.root, 0)) := by
  have hblock := blockSize_node h8 hsize
  rw [hblock] at harena
  have hout := allocate_outcome h.toInv hblock (by decide) (harena.fits (Nat.le_refl _) (by decide))
  have hfind := finds_none_iff h.toInv (n := sizeofNode) (by decide)
  unfold Honoured
  cases hcall : allocate s.mem s.root size arena with
  | none =>
    rw [hcall] at hout
    exact hout.elim
  | some r =>
    obtain ⟨m', root', p⟩ := r
    rw [hcall] at hout
    obtain ⟨hnull, hsame⟩ := outcome_null hout
    rw [hfind] at hnull
    refine ⟨⟨fun hgot => ?_, fun hok => ?_⟩, fun hok => ?_⟩
    · rcases hgot with ⟨hp, -⟩ | ⟨-, -, -, hheader, -⟩
      · exact hnull.mp hp
      · unfold sizeofAllocatedNode at hheader
        omega
    · exact .inl ⟨hnull.mpr hok, hsame (hnull.mpr hok)⟩
    · obtain ⟨rfl, rfl⟩ := hsame (hnull.mpr hok)
      rw [hnull.mpr hok]

/-! ## All sizes -/

theorem allocate_honoured_iff (h : HeapState s t) {size arena : Nat} (hsize : size < 2 ^ 64)
    (harena : FromKernelHeap s.arenas arena (arenaSize (blockSize size))) :
    Honoured s size arena ↔ Servable s.mem t size arena := by
  unfold Servable
  split
  · rename_i h15
    refine ⟨fun hgot => ?_, fun hok => (servable_served h h15 harena hok).1⟩
    by_cases har : arena = 0
    · exact .inl har
    · by_cases hseen : seen s.mem (rounded size) t = []
      · refine .inr (.inr (Nat.lt_of_not_le fun h2 => ?_))
        exact wrapped_not_honoured h h15 harena har hseen h2 hgot
      · exact .inr (.inl hseen)
  · rename_i h15
    have h15 := Nat.not_lt.mp h15
    split
    · rename_i h8
      rw [blockSize_zero h15 h8] at harena
      obtain rfl : arena = 0 := harena.resolve_right fun hz => absurd hz.1 (by decide)
      exact ⟨fun hgot => Classical.byContradiction fun hk => zero_not_honoured h 0 h15 h8 hk hgot,
        fun hk => (exec_null h (zero_null h h15 h8 hk)).1⟩
    · rename_i h8
      exact (node_honoured_iff h hsize (Nat.not_lt.mp h8) harena).1

theorem allocate_heapState (h : HeapState s t) {size arena : Nat} (hsize : size < 2 ^ 64)
    (harena : FromKernelHeap s.arenas arena (arenaSize (blockSize size))) (hok : Servable s.mem t size arena) :
    ∃ s' t', exec s (.allocate size arena) = some s' ∧ HeapState s' t' := by
  unfold Servable at hok
  split at hok
  · rename_i h15
    exact (servable_served h h15 harena hok).2
  · rename_i h15
    have h15 := Nat.not_lt.mp h15
    split at hok
    · rename_i h8
      rw [blockSize_zero h15 h8] at harena
      obtain rfl : arena = 0 := harena.resolve_right fun hz => absurd hz.1 (by decide)
      exact (exec_null h (zero_null h h15 h8 hok)).2
    · rename_i h8
      have hcall := (node_honoured_iff h hsize (Nat.not_lt.mp h8) harena).2 hok
      obtain ⟨rfl, -⟩ := hok
      exact (exec_null h hcall).2

theorem free_heapState (h : HeapState s t) {b : Live} (hb : b ∈ s.live) :
    ∃ s' t', exec s (.free b) = some s' ∧ HeapState s' t' := by
  obtain ⟨hkey, h0⟩ := h.header_not_key hb
  have hsub : Word.sub b.ptr sizeofAllocatedNode = b.header := Word.sub_eq (h.ptrs b hb)
  obtain ⟨m', t', heq, havl, hperm, hm⟩ := insert_spec h.avl h0 hkey h.keys_length
  obtain ⟨s', t₁, hexec, hinv⟩ := free_inv h.toInv hb
  rw [exec, free, hsub, h.root, heq, Option.map_some, Option.some.injEq] at hexec
  subst hexec
  obtain rfl := rep_unique havl.rep hinv.avl.rep hinv.root
  refine ⟨_, t', by rw [exec, free, hsub, h.root, heq]; rfl, hinv, ?_, h.zone⟩
  have hsame : ∀ x, nodeRange m' x = nodeRange s.mem x := fun x => by
    unfold nodeRange
    rw [hm]
  refine homed_of (fun x hx => ?_) fun c hc => ?_
  · rw [hsame]
    rcases List.mem_cons.mp (hperm.mem_iff.mp hx) with rfl | hx
    · exact h.homed.header hb
    · exact h.homed.key hx
  · rw [hsame]
    exact h.homed.header (List.mem_of_mem_erase hc)

theorem write_heapState (h : HeapState s t) (f : Mem) : HeapState { s with mem := s.scribble f } t where
  toInv := write_inv h.toInv f
  homed r hr := h.homed r (h.scribble_records f ▸ hr)
  zone := h.zone

/-! ## Runs -/

/-- One arena holds all records. -/
theorem homed_single (h : Inv s t) (hone : ∀ z ∈ s.arenas, ∀ z' ∈ s.arenas, z = z') : Homed s t := by
  intro r hr
  have hpos := h.size_pos hr
  obtain ⟨z, hz, hfirst⟩ := (h.tiles r.start).mp ⟨r, hr, Nat.le_refl _, by omega⟩
  obtain ⟨z', hz', hlast⟩ := (h.tiles (r.start + r.size - 1)).mp ⟨r, hr, by omega, by omega⟩
  obtain rfl := hone z hz z' hz'
  refine ⟨z, hz, ?_⟩
  unfold Range.Has at *
  unfold Range.Sub
  omega

theorem boot_arenas (m : Mem) (arena : Nat) :
    ∀ z ∈ (boot m arena).arenas, arena ≠ 0 ∧ z = ⟨arena, 16 * pageSize⟩ := by
  intro z hz
  unfold boot at hz
  dsimp only at hz
  split at hz
  · cases hz
  · rename_i h0
    exact ⟨h0, List.mem_singleton.mp hz⟩

theorem boot_heapState {m : Mem} {arena : Nat} (h : FromKernelHeap [] arena (16 * pageSize))
    (hi : Inv (boot m arena) t) : HeapState (boot m arena) t where
  toInv := hi
  homed := homed_single hi fun z hz z' hz' => (boot_arenas m arena z hz).2.trans (boot_arenas m arena z' hz').2.symm
  zone z hz := by
    obtain ⟨h0, rfl⟩ := boot_arenas m arena z hz
    exact ⟨(h.resolve_left h0).2.2.1, (h.resolve_left h0).2.2.2.1⟩

end

/-- What may happen: requests of any size, blocks in use are freed, owners write. -/
def Possible (s : Sys) : Op → Prop
  | .allocate size arena => size < 2 ^ 64 ∧ FromKernelHeap s.arenas arena (arenaSize (blockSize size))
  | .free b => b ∈ s.live
  | .write _ => True

instance (s : Sys) : ∀ op : Op, Decidable (Possible s op)
  | .allocate _ _ => inferInstanceAs (Decidable (_ ∧ _))
  | .free b => inferInstanceAs (Decidable (b ∈ s.live))
  | .write _ => inferInstanceAs (Decidable True)

def call (s : Sys) (op : Op) : Option Sys := if Possible s op then exec s op else none

/-- The requests before this one were servable. -/
def Served (s : Sys) : Op → Prop
  | .allocate size arena => ∃ t, HeapState s t ∧ Servable s.mem t size arena
  | .free _ => True
  | .write _ => True

theorem heapState_unique {s : Sys} {t t' : SearchTree Nat} (h : HeapState s t) (h' : HeapState s t') : t = t' :=
  rep_unique h.avl.rep h'.avl.rep (h.root.symm.trans h'.root)

theorem call_heapState {s s' : Sys} {t : SearchTree Nat} {op : Op} (h : HeapState s t) (hg : Served s op)
    (hcall : call s op = some s') : ∃ t', HeapState s' t' := by
  unfold call at hcall
  split at hcall
  · rename_i hp
    obtain ⟨s₁, t₁, hexec, h₁⟩ : ∃ s' t', exec s op = some s' ∧ HeapState s' t' := by
      cases op with
      | allocate size arena =>
        obtain ⟨t', h', hok⟩ := hg
        obtain rfl := heapState_unique h h'
        exact allocate_heapState h hp.1 hp.2 hok
      | free b => exact free_heapState h hp
      | write f => exact ⟨_, t, rfl, write_heapState h f⟩
    rw [hexec] at hcall
    exact ⟨t₁, Option.some.inj hcall ▸ h₁⟩
  · cases hcall

/-- Along every run of servable requests, frees and writes, a further request of any 64-bit size is honoured exactly
when it is servable. -/
theorem requests_honoured_iff (m : Mem) (arena : Nat) (h : FromKernelHeap [] arena (16 * pageSize)) (ops : List Op)
    (hops : AllSteps call Served (boot m arena) ops) :
    AllStates call (fun s => ∃ t, HeapState s t ∧ ∀ size a, size < 2 ^ 64 →
      FromKernelHeap s.arenas a (arenaSize (blockSize size)) → (Honoured s size a ↔ Servable s.mem t size a))
      (boot m arena) ops := by
  refine AllStates.mono (P := fun s => ∃ t, HeapState s t) ?_ ops _ (allStates_of_allSteps ?_ ops _ ?_ hops)
  · intro s hs
    obtain ⟨t, ht⟩ := hs
    exact ⟨t, ht, fun size a hsize ha => allocate_honoured_iff ht hsize ha⟩
  · intro s op s' hs hg hcall
    obtain ⟨t, ht⟩ := hs
    exact call_heapState ht hg hcall
  · have hspace : Fresh [] arena (16 * pageSize) := h.imp_right fun hz => by
      have he : kernelHeap.end = 0xFFFFFE8000000000 := by decide
      exact ⟨hz.2.1, by omega, hz.2.2.2.2⟩
    obtain ⟨t, ht⟩ := inv_boot m arena hspace
    exact ⟨t, boot_heapState h ht⟩

/-- The heap with its first arena at the start of the zone. -/
def firstArena : Sys := boot ⟨id, id, id, id, id⟩ 0xFFFF810000000000

theorem heapState_firstArena : HeapState firstArena (.node .nil 0xFFFF810000000000 .nil) :=
  boot_heapState (.inr (by decide)) (inv_boot_arena _ (by decide) (by decide))

theorem requests_honoured_one_call :
    AllStates call (fun s => ∃ t, HeapState s t ∧ ∀ size a, size < 2 ^ 64 →
      FromKernelHeap s.arenas a (arenaSize (blockSize size)) → (Honoured s size a ↔ Servable s.mem t size a))
      firstArena [.allocate 100 0] :=
  requests_honoured_iff ⟨id, id, id, id, id⟩ 0xFFFF810000000000 (.inr (by decide)) [.allocate 100 0]
    fun _ _ => ⟨⟨_, heapState_firstArena, .inl rfl⟩, trivial⟩

/-- The header makes eight bytes less than the address space wrap to zero: a block of 40 bytes comes back. -/
theorem header_wraps : (∃ t, HeapState firstArena t) ∧
    FromKernelHeap firstArena.arenas 0 (arenaSize (blockSize (2 ^ 64 - 8))) ∧
    blockSize (2 ^ 64 - 8) = 40 ∧ ¬ Honoured firstArena (2 ^ 64 - 8) 0 := by
  refine ⟨⟨_, heapState_firstArena⟩, .inl rfl, by decide, fun hgot => ?_⟩
  have hseen := ((node_honoured_iff heapState_firstArena (by decide) (by decide) (.inl rfl)).1.mp hgot).2
  exact absurd hseen (by decide)

end BadLands.Mm.Heap
