import BadLands.Core.Machine
import BadLands.Core.Ranges
import BadLands.Mm.PhysicalMemoryOps
import BadLands.Mm.PhysicalMemorySetup

/-!
# Runs of the physical memory allocator

A run starts where `Setup` ends; each free passes back a live block of its own size.

`Mark32MBRegionUsed` does not touch the children of a region that `Allocate32MB` hands out:
they stay flagged free, so `Allocate` and `Allocate2MB` can hand out parts of it again.
`StepOk` excludes exactly the calls that do.

* `physicalMemory_exclusive_iff`: live blocks stay disjoint and inside the frames `Setup` freed
  iff every step of the run meets `StepOk`.
* `page_inside_32MB`: `Allocate32MB`, then `Allocate`, hands out a page twice.
* `regions_represented`: without 32MB calls the 4KB and 2MB levels always agree.
-/
namespace BadLands.Mm.PhysicalMemory

open BadLands.Core BadLands.Core.Machine BadLands.Core.Ranges BadLands.Mm.Layout

inductive BlockSize where
  | kb4 | mb2 | mb32
  deriving DecidableEq, Repr

def BlockSize.bytes : BlockSize → Nat
  | .kb4 => frameSize
  | .mb2 => pdeCoverage
  | .mb32 => 16 * pdeCoverage

structure Block where
  size : BlockSize
  ptr : Nat
  deriving DecidableEq, Repr

def Block.range (b : Block) : Range := ⟨b.ptr, b.size.bytes⟩

structure Sys where
  mem : State
  live : List Block

inductive Op where
  | allocate (size : BlockSize)
  | free (block : Block)

def allocateBlock (s : State) : BlockSize → Nat × State
  | .kb4 => allocate s
  | .mb2 => allocate2MB s
  | .mb32 => allocate32MB s

def freeBlock (s : State) (b : Block) : Bool × State :=
  match b.size with
  | .kb4 => free s b.ptr
  | .mb2 => free2MB s b.ptr
  | .mb32 => free32MB s b.ptr

/-- `none`: the block passed to a free is not live. -/
def step (s : Sys) : Op → Option Sys
  | .allocate size =>
    let r := allocateBlock s.mem size
    some ⟨r.2, if r.1 = 0 then s.live else ⟨size, r.1⟩ :: s.live⟩
  | .free b =>
    if b ∉ s.live then none
    else
      let r := freeBlock s.mem b
      some ⟨r.2, if r.1 then s.live.erase b else s.live⟩

/-- A frame whose bit is clear. -/
def Freed (s : State) (p : Nat) : Prop := p < bitmapEntries4KB ∧ s.bitMap4KB.test p = false

/-- Live blocks are pairwise disjoint and made of frames that were free at the start. -/
structure Safe (boot : State) (s : Sys) : Prop where
  disjoint : Packed (s.live.map Block.range)
  frames : ∀ b ∈ s.live, ∀ p, b.range.Has (p * frameSize) → Freed boot p

def Sys.live4 (s : Sys) (p : Nat) : Prop := ⟨.kb4, p * frameSize⟩ ∈ s.live

def Sys.live2 (s : Sys) (r : Nat) : Prop := ⟨.mb2, r * pdeCoverage⟩ ∈ s.live

def Sys.live32 (s : Sys) (R : Nat) : Prop := ⟨.mb32, R * (16 * pdeCoverage)⟩ ∈ s.live

/-- Neither the cached page nor, without a usable one, the 32MB region that the search turns to
is in a live 32MB block; the 2MB region that `Allocate2MB` tries is not in one either. -/
def StepOk (s : Sys) : Op → Prop
  | .allocate .kb4 =>
    (∀ p, usableCached s.mem = some p → ¬ s.live32 (p / 512 / 16)) ∧
      (usableCached s.mem = none → ∀ R, selected32MB s.mem = some R → ¬ s.live32 R)
  | .allocate .mb2 =>
    ∀ r, Candidate2MB s.mem.view r → ¬ s.mem.view.used2 r → ¬ s.live32 (r / 16)
  | _ => True

structure SysInv (boot : State) (s : Sys) : Prop where
  inv : Inv (Freed boot) s.live4 s.live2 s.live32 s.mem.view
  aligned : ∀ b ∈ s.live, ∃ i, b.ptr = i * b.size.bytes
  nodup : s.live.Nodup

section
variable {boot : State} {s : Sys}

/-! ## Live blocks are disjoint -/

/-- The block of each size that page `p` lies in. -/
def BlockSize.index (size : BlockSize) (p : Nat) : Nat :=
  match size with
  | .kb4 => p
  | .mb2 => p / 512
  | .mb32 => p / 512 / 16

theorem bytes_eq : BlockSize.kb4.bytes = 4096 ∧ BlockSize.mb2.bytes = 2097152 ∧
    BlockSize.mb32.bytes = 33554432 := by decide

theorem has_iff (size : BlockSize) {i p : Nat} :
    (Block.mk size (i * size.bytes)).range.Has (p * frameSize) ↔ size.index p = i := by
  obtain ⟨h4, h2, h32⟩ := bytes_eq
  change i * size.bytes ≤ p * 4096 ∧ p * 4096 < i * size.bytes + size.bytes ↔ _
  cases size with
  | kb4 =>
    rw [h4]
    change _ ↔ p = i
    omega
  | mb2 =>
    rw [h2]
    change _ ↔ p / 512 = i
    omega
  | mb32 =>
    rw [h32]
    change _ ↔ p / 512 / 16 = i
    omega

theorem live_index {b : Block} {i : Nat} (hb : b ∈ s.live) (hi : b.ptr = i * b.size.bytes) :
    match b.size with
    | .kb4 => s.live4 i
    | .mb2 => s.live2 i
    | .mb32 => s.live32 i := by
  obtain ⟨size, ptr⟩ := b
  simp only at hi
  subst hi
  cases size with
  | kb4 => exact hb
  | mb2 => exact hb
  | mb32 => exact hb

/-- The children of a live 32MB region have no page set. -/
theorem Inv.clear32 {F0 L4 L2 L32 : Nat → Prop} {v : View} (h : Inv F0 L4 L2 L32 v) {R p : Nat} (hR : L32 R)
    (hp : p / 512 / 16 = R) : ¬ v.page p := by
  obtain ⟨hlt, -, -, hchildren⟩ := h.live32 R hR
  have hr : p / 512 < bitmapEntries2MB := parent32_lt.mp (hp ▸ hlt)
  exact (h.unused2 hr (hchildren _ hp)).2 p rfl

/-- A page lies in at most one live block. -/
theorem SysInv.owner (h : SysInv boot s) {a b : Block} (ha : a ∈ s.live) (hb : b ∈ s.live) {p : Nat}
    (hap : a.range.Has (p * frameSize)) (hbp : b.range.Has (p * frameSize)) : a = b := by
  obtain ⟨i, hi⟩ := h.aligned a ha
  obtain ⟨j, hj⟩ := h.aligned b hb
  have hla := live_index ha hi
  have hlb := live_index hb hj
  obtain ⟨asize, aptr⟩ := a
  obtain ⟨bsize, bptr⟩ := b
  simp only at hi hj hla hlb
  subst hi hj
  rw [has_iff] at hap hbp
  subst hap hbp
  cases asize with
  | kb4 =>
    obtain ⟨-, hpg, -⟩ := h.inv.live4 _ hla
    cases bsize with
    | kb4 => rfl
    | mb2 => exact absurd hpg ((h.inv.live2 _ hlb).2.2.2 p rfl)
    | mb32 => exact absurd hpg (h.inv.clear32 hlb rfl)
  | mb2 =>
    obtain ⟨-, hu, -, hclear⟩ := h.inv.live2 _ hla
    cases bsize with
    | kb4 => exact absurd (h.inv.live4 _ hlb).2.1 (hclear p rfl)
    | mb2 => rfl
    | mb32 => exact absurd hu ((h.inv.live32 _ hlb).2.2.2 _ rfl)
  | mb32 =>
    cases bsize with
    | kb4 => exact absurd (h.inv.live4 _ hlb).2.1 (h.inv.clear32 hla rfl)
    | mb2 => exact absurd (h.inv.live2 _ hlb).2.1 ((h.inv.live32 _ hla).2.2.2 _ rfl)
    | mb32 => rfl

theorem ptr_aligned (size : BlockSize) (i : Nat) : ∃ p, i * size.bytes = p * frameSize := by
  obtain ⟨h4, h2, h32⟩ := bytes_eq
  cases size with
  | kb4 => exact ⟨i, rfl⟩
  | mb2 => exact ⟨i * 512, by rw [h2]; unfold frameSize; omega⟩
  | mb32 => exact ⟨i * 8192, by rw [h32]; unfold frameSize; omega⟩

theorem bytes_pos (size : BlockSize) : 0 < size.bytes := by
  cases size <;> decide

theorem SysInv.disj (h : SysInv boot s) {a b : Block} (ha : a ∈ s.live) (hb : b ∈ s.live) (hne : a ≠ b) :
    a.range.Disj b.range := by
  obtain ⟨i, hi⟩ := h.aligned a ha
  obtain ⟨j, hj⟩ := h.aligned b hb
  obtain ⟨p, hp⟩ := ptr_aligned a.size i
  obtain ⟨q, hq⟩ := ptr_aligned b.size j
  have hapos := bytes_pos a.size
  have hbpos := bytes_pos b.size
  apply Decidable.byContradiction
  intro hn
  simp only [Range.Disj, Block.range, not_or, Nat.not_le] at hn
  -- the later of the two starts lies in both
  rcases Nat.le_total a.ptr b.ptr with hle | hle
  · refine hne (h.owner ha hb (p := q) ?_ ?_)
    · rw [← hq, ← hj]
      exact ⟨hle, hn.1⟩
    · rw [← hq, ← hj]
      exact ⟨Nat.le_refl _, Nat.lt_add_of_pos_right hbpos⟩
  · refine hne (h.owner ha hb (p := p) ?_ ?_)
    · rw [← hp, ← hi]
      exact ⟨Nat.le_refl _, Nat.lt_add_of_pos_right hapos⟩
    · rw [← hp, ← hi]
      exact ⟨hle, hn.2⟩

theorem SysInv.frames (h : SysInv boot s) {b : Block} (hb : b ∈ s.live) {p : Nat}
    (hp : b.range.Has (p * frameSize)) : Freed boot p := by
  obtain ⟨i, hi⟩ := h.aligned b hb
  have hlb := live_index hb hi
  obtain ⟨size, ptr⟩ := b
  simp only at hi hlb
  subst hi
  rw [has_iff] at hp
  subst hp
  cases size with
  | kb4 => exact (h.inv.live4 _ hlb).2.2
  | mb2 =>
    obtain ⟨hlt, -, -, hclear⟩ := h.inv.live2 _ hlb
    exact h.inv.origin p (parent2_lt.mp hlt) (hclear p rfl)
  | mb32 =>
    have hlt := (h.inv.live32 _ hlb).1
    exact h.inv.origin p (parent2_lt.mp (parent32_lt.mp hlt)) (h.inv.clear32 hlb rfl)

theorem SysInv.safe (h : SysInv boot s) : Safe boot s := by
  refine ⟨?_, fun b hb p hp => h.frames hb hp⟩
  rw [Packed, List.pairwise_map]
  exact h.nodup.imp_of_mem fun ha hb hne => h.disj ha hb hne

/-! ## Steps -/

theorem Inv.of_iff {F0 L4 L2 L32 L4' L2' L32' : Nat → Prop} {v : View} (h : Inv F0 L4 L2 L32 v)
    (h4 : ∀ k, L4' k ↔ L4 k) (h2 : ∀ k, L2' k ↔ L2 k) (h32 : ∀ k, L32' k ↔ L32 k) :
    Inv F0 L4' L2' L32' v := by
  obtain rfl : L4' = L4 := funext fun k => propext (h4 k)
  obtain rfl : L2' = L2 := funext fun k => propext (h2 k)
  obtain rfl : L32' = L32 := funext fun k => propext (h32 k)
  exact h

theorem mem_cons_block (size' : BlockSize) {size : BlockSize} {i k : Nat} {l : List Block} :
    Block.mk size' (k * size'.bytes) ∈ Block.mk size (i * size.bytes) :: l ↔
      (size' = size ∧ k = i) ∨ Block.mk size' (k * size'.bytes) ∈ l := by
  rw [List.mem_cons, Block.mk.injEq]
  refine or_congr_left (and_congr_right fun he => ?_)
  subst he
  exact Nat.mul_left_inj (Nat.ne_of_gt (bytes_pos size'))

/-- Handing out block `i` of a size: what the lists of live blocks become. -/
theorem SysInv.push (h : SysInv boot s) {size : BlockSize} {i : Nat} {mem : State}
    (hnew : Block.mk size (i * size.bytes) ∉ s.live)
    (hinv : Inv (Freed boot) (fun k => size = .kb4 ∧ k = i ∨ s.live4 k) (fun k => size = .mb2 ∧ k = i ∨ s.live2 k)
      (fun k => size = .mb32 ∧ k = i ∨ s.live32 k) mem.view) :
    SysInv boot ⟨mem, ⟨size, i * size.bytes⟩ :: s.live⟩ := by
  refine ⟨hinv.of_iff (fun k => ?_) (fun k => ?_) (fun k => ?_), fun b hb => ?_,
    List.nodup_cons.mpr ⟨hnew, h.nodup⟩⟩
  · refine (mem_cons_block .kb4).trans (or_congr_left ?_)
    rw [eq_comm]
  · refine (mem_cons_block .mb2).trans (or_congr_left ?_)
    rw [eq_comm]
  · refine (mem_cons_block .mb32).trans (or_congr_left ?_)
    rw [eq_comm]
  · rcases List.mem_cons.mp hb with rfl | hb
    · exact ⟨i, rfl⟩
    · exact h.aligned b hb

/-- Nothing handed out. -/
theorem SysInv.same (h : SysInv boot s) {mem : State}
    (hinv : Inv (Freed boot) s.live4 s.live2 s.live32 mem.view) : SysInv boot ⟨mem, s.live⟩ :=
  ⟨hinv, h.aligned, h.nodup⟩

theorem address_ne_zero (size : BlockSize) {i : Nat} (h : 1 ≤ i) : i * size.bytes ≠ 0 :=
  Nat.mul_ne_zero (by omega) (Nat.ne_of_gt (bytes_pos size))

theorem address_ne_zero_kb4 {p : Nat} (h : 1 ≤ p) : p * frameSize ≠ 0 :=
  address_ne_zero .kb4 h

theorem step_allocate (size : BlockSize) : step s (.allocate size) =
    some ⟨(allocateBlock s.mem size).2, if (allocateBlock s.mem size).1 = 0 then s.live
      else ⟨size, (allocateBlock s.mem size).1⟩ :: s.live⟩ := rfl

/-- A new page, taken from a view that satisfies the invariant. -/
theorem SysInv.push_page (h : SysInv boot s) {p : Nat} {v : View} {mem : State}
    (hv : Inv (Freed boot) s.live4 s.live2 s.live32 v) (hp : p < bitmapEntries4KB) (hclear : ¬ v.page p)
    (hL2 : ¬ s.live2 (p / 512)) (hL32 : ¬ s.live32 (p / 512 / 16)) (ht : Took v p mem.view)
    (hcached : ∀ q, mem.view.cached = some q → q < bitmapEntries4KB ∧ ¬ mem.view.page q) :
    SysInv boot ⟨mem, ⟨.kb4, p * BlockSize.kb4.bytes⟩ :: s.live⟩ := by
  refine h.push (fun hl => hclear (hv.live4 p hl).2.1) ?_
  refine (hv.take_page hp hclear hL2 hL32 ht hcached).of_iff (fun k => ?_) (fun k => ?_) fun k => ?_
  · simp
  · simp
  · simp

theorem SysInv.allocate4 (h : SysInv boot s) (hok : StepOk s (.allocate .kb4)) {s' : Sys}
    (hs : step s (.allocate .kb4) = some s') : SysInv boot s' := by
  rw [step_allocate] at hs
  cases hs
  change SysInv boot ⟨(allocate s.mem).2, if (allocate s.mem).1 = 0 then _ else ⟨.kb4, (allocate s.mem).1⟩ :: _⟩
  obtain ⟨p, hu, haddr, hview⟩ | ⟨-, -, haddr, hview⟩ | ⟨hu, R, p, hsel, hpR, haddr, -, hfound⟩ :=
    allocate_cases h.inv
  · obtain ⟨hc, hf⟩ := usableCached_some hu
    obtain ⟨hp, hclear⟩ := h.inv.cached p hc
    have hdma := h.inv.noDMA p (h.inv.origin p hp hclear)
    rw [haddr, if_neg (address_ne_zero_kb4 (by omega))]
    refine h.push_page h.inv hp hclear (fun hl => (h.inv.live2 _ hl).2.2.1 hf) (hok.1 p hu) ?_ ?_
    · rw [hview]
      exact took_cached s.mem.view p none
    · rw [hview]
      exact fun q hq => by cases hq
  · rw [if_pos haddr]
    exact h.same (hview ▸ h.inv.uncache)
  · obtain ⟨v, hv, hclear, ht⟩ := hfound.took
    have hdma := hv.noDMA p (hv.origin p hfound.lt hclear)
    rw [haddr, if_neg (address_ne_zero_kb4 (by omega))]
    refine h.push_page hv hfound.lt hclear hfound.notLive ?_ ht hfound.cached
    rw [hpR]
    exact hok.2 hu R hsel

theorem SysInv.allocate2 (h : SysInv boot s) (hok : StepOk s (.allocate .mb2)) {s' : Sys}
    (hs : step s (.allocate .mb2) = some s') : SysInv boot s' := by
  rw [step_allocate] at hs
  cases hs
  change SysInv boot ⟨(allocate2MB s.mem).2, if (allocate2MB s.mem).1 = 0 then _
    else ⟨.mb2, (allocate2MB s.mem).1⟩ :: _⟩
  obtain ⟨⟨q, hq, ⟨haddr, hview⟩ | ⟨r, hr, hu, hc, haddr, hview⟩⟩, -⟩ := allocate2MB_cases h.inv
  · rw [if_pos haddr]
    exact h.same (hview ▸ h.inv.requeue hq h.inv.queue32)
  · have hL32 : ¬ s.live32 (r / 16) := hc.elim (fun hcand => hok r hcand hu)
      fun hn hl => hn (h.inv.live32 _ hl).2.1
    have hpos := h.inv.pos_of_unused2 hr hu
    have hinv := (h.inv.requeue hq h.inv.queue32).take2 hr hu hL32
    have hne : r * pdeCoverage ≠ 0 := address_ne_zero .mb2 (by omega)
    rw [haddr, if_neg hne]
    refine h.push (fun hl => hu (h.inv.live2 r hl).2.1) (hview ▸ hinv.of_iff (fun k => ?_) (fun k => ?_) fun k => ?_)
    · simp
    · simp
    · simp

theorem SysInv.allocate32 (h : SysInv boot s) {s' : Sys} (hs : step s (.allocate .mb32) = some s') :
    SysInv boot s' := by
  rw [step_allocate] at hs
  cases hs
  change SysInv boot ⟨(allocate32MB s.mem).2, if (allocate32MB s.mem).1 = 0 then _
    else ⟨.mb32, (allocate32MB s.mem).1⟩ :: _⟩
  obtain ⟨q, hq, ⟨haddr, hview⟩ | ⟨R, hR, hu, haddr, hview⟩⟩ := allocate32MB_cases h.inv
  · rw [if_pos haddr]
    exact h.same (hview ▸ h.inv.requeue h.inv.queue2 hq)
  · have hpos := h.inv.pos_of_unused32 hR hu
    have hinv := (h.inv.requeue h.inv.queue2 hq).take32 hR hu
    have hne : R * (16 * pdeCoverage) ≠ 0 := address_ne_zero .mb32 hpos
    rw [Nat.mul_assoc] at haddr
    rw [haddr, if_neg hne]
    refine h.push (fun hl => hu (h.inv.live32 R hl).2.1) (hview ▸ hinv.of_iff (fun k => ?_) (fun k => ?_) fun k => ?_)
    · simp
    · simp
    · simp

/-! ### Frees -/

theorem mem_erase_block (h : SysInv boot s) {b : Block} {size : BlockSize} {k : Nat} :
    Block.mk size (k * size.bytes) ∈ s.live.erase b ↔
      Block.mk size (k * size.bytes) ≠ b ∧ Block.mk size (k * size.bytes) ∈ s.live :=
  h.nodup.mem_erase_iff

theorem SysInv.erase (h : SysInv boot s) {b : Block} {mem : State}
    (hinv : Inv (Freed boot) (fun k => Block.mk .kb4 (k * BlockSize.kb4.bytes) ≠ b ∧ s.live4 k)
      (fun k => Block.mk .mb2 (k * BlockSize.mb2.bytes) ≠ b ∧ s.live2 k)
      (fun k => Block.mk .mb32 (k * BlockSize.mb32.bytes) ≠ b ∧ s.live32 k) mem.view) :
    SysInv boot ⟨mem, s.live.erase b⟩ :=
  ⟨hinv.of_iff (fun _ => mem_erase_block h) (fun _ => mem_erase_block h) (fun _ => mem_erase_block h),
    fun c hc => h.aligned c (List.mem_of_mem_erase hc), h.nodup.erase b⟩

theorem block_ne_iff {size : BlockSize} {i k : Nat} :
    Block.mk size (k * size.bytes) ≠ Block.mk size (i * size.bytes) ↔ k ≠ i := by
  rw [ne_eq, Block.mk.injEq, Nat.mul_left_inj (Nat.ne_of_gt (bytes_pos size))]
  simp

theorem SysInv.free4 (h : SysInv boot s) {p : Nat} (hp : s.live4 p) :
    SysInv boot ⟨(free s.mem (p * frameSize)).2, if (free s.mem (p * frameSize)).1
      then s.live.erase ⟨.kb4, p * BlockSize.kb4.bytes⟩ else s.live⟩ := by
  obtain ⟨hok, hrel, hcached, hpage⟩ := free_released h.inv hp
  obtain ⟨hlt, hpg, hF⟩ := h.inv.live4 p hp
  have hL2 : ¬ s.live2 (p / 512) := fun hl => (h.inv.live2 _ hl).2.2.2 p rfl hpg
  rw [if_pos hok]
  refine h.erase ((h.inv.release (parent2_lt.mpr hlt) (fun hl => h.inv.clear32 hl rfl hpg) hrel
    (fun k => k ≠ p ∧ s.live4 k) s.live2 (fun k hk => ?_) (fun k => ?_) (fun k hk hkc => ?_)
    fun k hk => ?_).of_iff (fun k => ?_) (fun k => ?_) fun k => ?_)
  · exact ⟨hk.2, (hpage k).mpr ⟨hk.1, (h.inv.live4 k hk.2).2.1⟩⟩
  · exact (and_iff_right_of_imp fun hl (he : k = p / 512) => hL2 (he ▸ hl)).symm
  · by_cases hkp : k = p
    · exact hkp ▸ hF
    · exact h.inv.origin k (parent2_lt.mp (hk ▸ parent2_lt.mpr hlt)) fun hn => hkc ((hpage k).mpr ⟨hkp, hn⟩)
  · rw [hcached] at hk
    cases hk
    exact ⟨hlt, fun hn => ((hpage p).mp hn).1 rfl⟩
  · rw [block_ne_iff]
  · simp
  · simp

theorem SysInv.free2 (h : SysInv boot s) {r : Nat} (hr : s.live2 r) :
    SysInv boot ⟨(free2MB s.mem (r * pdeCoverage)).2, if (free2MB s.mem (r * pdeCoverage)).1
      then s.live.erase ⟨.mb2, r * BlockSize.mb2.bytes⟩ else s.live⟩ := by
  obtain ⟨hok, hrel, hcached, hpage⟩ := free2MB_released h.inv hr
  obtain ⟨hlt, hu, -, hclear⟩ := h.inv.live2 r hr
  have hsame : ∀ k, (free2MB s.mem (r * pdeCoverage)).2.view.page k ↔ s.mem.view.page k := fun k =>
    (hpage k).trans (and_iff_right_of_imp fun hpg he => hclear k he hpg)
  rw [if_pos hok]
  refine h.erase ((h.inv.release hlt (fun hl => (h.inv.live32 _ hl).2.2.2 r rfl hu) hrel
    s.live4 (fun k => k ≠ r ∧ s.live2 k) (fun k hk => ?_) (fun k => Iff.rfl)
    (fun k hk hkc => ?_) fun k hk => ?_).of_iff (fun k => ?_) (fun k => ?_) fun k => ?_)
  · exact ⟨hk, (hsame k).mpr (h.inv.live4 k hk).2.1⟩
  · exact h.inv.origin k (parent2_lt.mp (hk ▸ hlt)) fun hn => hkc ((hsame k).mpr hn)
  · rw [hcached] at hk
    rw [hsame]
    exact h.inv.cached k hk
  · simp
  · rw [block_ne_iff]
  · simp

theorem SysInv.free32 (h : SysInv boot s) {R : Nat} (hR : s.live32 R) :
    SysInv boot ⟨(free32MB s.mem (R * (16 * pdeCoverage))).2, if (free32MB s.mem (R * (16 * pdeCoverage))).1
      then s.live.erase ⟨.mb32, R * BlockSize.mb32.bytes⟩ else s.live⟩ := by
  obtain ⟨hlt, hu, -, -⟩ := h.inv.live32 R hR
  have hlow : 1 ≤ R := by
    have hclear := h.inv.clear32 hR (p := R * 8192) (by omega)
    have hp : R * 8192 < bitmapEntries4KB :=
      parent2_lt.mp (parent32_lt.mp (by rwa [show R * 8192 / 512 / 16 = R by omega]))
    have := h.inv.noDMA _ (h.inv.origin _ hp hclear)
    omega
  obtain ⟨hok, hrel⟩ := free32MB_released hlt hlow hu
  rw [if_pos hok]
  refine h.erase ((h.inv.release32 hR hrel).of_iff (fun k => ?_) (fun k => ?_) fun k => ?_)
  · simp
  · simp
  · rw [block_ne_iff]

/-! ## Whole runs -/

theorem step_inv (s : Sys) (op : Op) (s' : Sys) (h : SysInv boot s) (hok : StepOk s op)
    (hs : step s op = some s') : SysInv boot s' := by
  cases op with
  | allocate size =>
    cases size with
    | kb4 => exact h.allocate4 hok hs
    | mb2 => exact h.allocate2 hok hs
    | mb32 => exact h.allocate32 hs
  | free b =>
    simp only [step] at hs
    split at hs
    · cases hs
    · rename_i hmem
      have hb : b ∈ s.live := Classical.not_not.mp hmem
      obtain ⟨i, hi⟩ := h.aligned b hb
      obtain ⟨size, ptr⟩ := b
      simp only at hi
      subst hi
      cases hs
      cases size with
      | kb4 => exact h.free4 hb
      | mb2 => exact h.free2 hb
      | mb32 => exact h.free32 hb

/-- Handing out a block that overlaps a live one breaks safety at once. -/
theorem overlap_unsafe {mem : State} {a b : Block} (hb : b ∈ s.live) {x : Nat} (ha : a.range.Has x)
    (hbx : b.range.Has x) : ¬ Safe boot ⟨mem, a :: s.live⟩ := by
  intro hsafe
  have hdisj := (packed_cons.mp hsafe.disjoint).1 b.range (List.mem_map_of_mem hb)
  obtain ⟨h1, h2⟩ := ha
  obtain ⟨h3, h4⟩ := hbx
  rcases hdisj with h | h
  · omega
  · omega

theorem allocate4_bad (h : SysInv boot s) (hbad : ¬ StepOk s (.allocate .kb4)) {s' : Sys}
    (hs : step s (.allocate .kb4) = some s') : ¬ Safe boot s' := by
  rw [step_allocate] at hs
  cases hs
  change ¬ Safe boot ⟨(allocate s.mem).2, if (allocate s.mem).1 = 0 then _ else ⟨.kb4, (allocate s.mem).1⟩ :: _⟩
  -- whichever page is returned, its 32MB region is live
  obtain ⟨p, hp, haddr, hlive⟩ : ∃ p, 1 ≤ p ∧ (allocate s.mem).1 = p * frameSize ∧ s.live32 (p / 512 / 16) := by
    obtain ⟨p, hu, haddr, -⟩ | ⟨hu, hsel, -, -⟩ | ⟨hu, R, p, hsel, hpR, haddr, -, hfound⟩ := allocate_cases h.inv
    · obtain ⟨hc, -⟩ := usableCached_some hu
      obtain ⟨hp, hclear⟩ := h.inv.cached p hc
      have hdma := h.inv.noDMA p (h.inv.origin p hp hclear)
      refine ⟨p, by omega, haddr, Classical.not_not.mp fun hn => hbad ⟨fun q hq => ?_, fun hq => ?_⟩⟩
      · rw [hu] at hq
        cases hq
        exact hn
      · rw [hu] at hq
        cases hq
    · refine absurd ⟨fun q hq => ?_, fun _ R hR => ?_⟩ hbad
      · rw [hu] at hq
        cases hq
      · rw [hsel] at hR
        cases hR
    · obtain ⟨v, hv, hclear, -⟩ := hfound.took
      have hdma := hv.noDMA p (hv.origin p hfound.lt hclear)
      refine ⟨p, by omega, haddr, Classical.not_not.mp fun hn => hbad ⟨fun q hq => ?_, fun _ K hK => ?_⟩⟩
      · rw [hu] at hq
        cases hq
      · rw [hsel] at hK
        cases hK
        exact hpR ▸ hn
  rw [haddr, if_neg (address_ne_zero_kb4 hp)]
  refine overlap_unsafe hlive (x := p * frameSize) ?_ ?_
  · exact (has_iff .kb4).mpr rfl
  · exact (has_iff .mb32).mpr rfl

theorem allocate2_bad (h : SysInv boot s) (hbad : ¬ StepOk s (.allocate .mb2)) {s' : Sys}
    (hs : step s (.allocate .mb2) = some s') : ¬ Safe boot s' := by
  rw [step_allocate] at hs
  cases hs
  change ¬ Safe boot ⟨(allocate2MB s.mem).2, if (allocate2MB s.mem).1 = 0 then _
    else ⟨.mb2, (allocate2MB s.mem).1⟩ :: _⟩
  obtain ⟨r, hr⟩ := Classical.not_forall.mp hbad
  obtain ⟨hc, hr⟩ := Classical.not_imp.mp hr
  obtain ⟨hu, hlive⟩ := Classical.not_imp.mp hr
  have hlive : s.live32 (r / 16) := Classical.not_not.mp hlive
  obtain ⟨hlt, hused, hfree, -⟩ := h.inv.live32 _ hlive
  have haddr := (allocate2MB_cases h.inv).2 r hc hu hlt ⟨hused, hfree⟩
  have hpos := h.inv.pos_of_unused2 (parent32_lt.mp hlt) hu
  have hne : r * pdeCoverage ≠ 0 := address_ne_zero .mb2 (by omega)
  rw [haddr, if_neg hne]
  have hpage : r * 512 / 512 = r := by omega
  refine overlap_unsafe hlive (x := r * 512 * frameSize) ?_ ?_
  · exact (has_iff .mb2).mpr hpage
  · exact (has_iff .mb32).mpr (congrArg (· / 16) hpage)

theorem step_bad (s : Sys) (op : Op) (s' : Sys) (h : SysInv boot s) (hbad : ¬ StepOk s op)
    (hs : step s op = some s') : ¬ Safe boot s' := by
  cases op with
  | allocate size =>
    cases size with
    | kb4 => exact allocate4_bad h hbad hs
    | mb2 => exact allocate2_bad h hbad hs
    | mb32 => exact absurd trivial hbad
  | free b => exact absurd trivial hbad

end

/-- Nothing is live when `Setup` returns. -/
def start (boot : State) : Sys := ⟨boot, []⟩

theorem Fresh.inv {boot : State} (h : Fresh boot.view) : SysInv boot (start boot) := by
  have hempty : ∀ x : Block, x ∉ (start boot).live := fun x hx => by cases hx
  refine ⟨⟨fun p hp => absurd hp (hempty _), fun r hr => absurd hr (hempty _), fun r hr _ => h.used2 r hr,
    fun r hr _ => (h.free2 r hr).mpr, fun p hp hn => ⟨hp, eq_false_of_ne_true hn⟩, fun p hp => ?_, ?_, ?_,
    fun R hR _ => h.used32 R hR, fun R hR hf => ?_, fun R hR hu => ?_, fun R hR => absurd hR (hempty _),
    fun p hp => h.dma p hp.1 fun hn => ?_⟩, fun b hb => absurd hb (hempty b), List.nodup_nil⟩
  · rw [show (start boot).mem.view.cached = none from h.cached] at hp
    cases hp
  · rw [show (start boot).mem.view.queue2 = [] from h.queue2]
    simp
  · rw [show (start boot).mem.view.queue32 = [] from h.queue32]
    simp
  · obtain ⟨r, hr, hf⟩ := (h.free32 R hR).mp hf
    obtain ⟨p, hp, hn⟩ := (h.free2 r (parent32_lt.mp (hr ▸ hR))).mp hf
    exact ⟨p, by rw [hp, hr], hn, hempty _⟩
  · have hr : R * 16 / 16 = R := by omega
    have hnone : ¬ boot.view.used2 (R * 16) := fun hu' => hu ((h.used32 R hR).mpr ⟨_, hr, hu'⟩)
    have hlt : R * 16 < bitmapEntries2MB := parent32_lt.mp (by rwa [hr])
    have hp : R * 16 * 512 / 512 = R * 16 := by omega
    have hclear : ¬ boot.view.page (R * 16 * 512) := fun hpg => hnone ((h.used2 _ hlt).mpr ⟨_, hp, hpg⟩)
    exact (h.free32 R hR).mpr ⟨R * 16, hr, (h.free2 _ hlt).mpr ⟨_, hp, hclear⟩⟩
  · have hn' : boot.bitMap4KB.test p = true := hn
    rw [hp.2] at hn'
    cases hn'

/-- The calls for pages and 2MB regions. -/
def Op.small : Op → Prop
  | .allocate size => size ≠ .mb32
  | .free b => b.size ≠ .mb32

/-- No 32MB block is live. -/
def Sys.No32MB (s : Sys) : Prop := ∀ b ∈ s.live, b.size ≠ .mb32

theorem Sys.No32MB.step {s s' : Sys} {op : Op} (h : s.No32MB) (hop : op.small)
    (hs : step s op = some s') : s'.No32MB := by
  cases op with
  | allocate size =>
    rw [step_allocate] at hs
    cases hs
    intro b hb
    simp only at hb
    split at hb
    · exact h b hb
    · rcases List.mem_cons.mp hb with rfl | hb
      · exact hop
      · exact h b hb
  | free c =>
    simp only [PhysicalMemory.step] at hs
    split at hs
    · cases hs
    · cases hs
      intro b hb
      simp only at hb
      split at hb
      · exact h b (List.mem_of_mem_erase hb)
      · exact h b hb

theorem Sys.No32MB.stepOk {s : Sys} (h : s.No32MB) (op : Op) : StepOk s op := by
  have hnone : ∀ R, ¬ s.live32 R := fun R hl => h _ hl rfl
  cases op with
  | allocate size =>
    cases size with
    | kb4 => exact ⟨fun _ _ => hnone _, fun _ R _ => hnone R⟩
    | mb2 => exact fun _ _ _ => hnone _
    | mb32 => trivial
  | free b => trivial

/-- From any state a successful `Setup` leaves, the live blocks of a run stay pairwise disjoint
and within the frames `Setup` freed exactly when no `Allocate` and no `Allocate2MB` turns to a
page or region of a live 32MB block. -/
theorem physicalMemory_exclusive_iff (b : Boot) (boot : State) (hsetup : setup b = some boot)
    (ops : List Op) :
    AllStates step (Safe boot) (start boot) ops ↔ AllSteps step StepOk (start boot) ops :=
  allStates_iff_allSteps (fun _ h => h.safe) step_inv step_bad ops (start boot) (setup_flags hsetup).inv

/-- 32MB of memory, the region with number 2. -/
def oneRegion : EfiMemoryDescriptor := ⟨.conventionalMemory, 2 * (16 * pdeCoverage), 8192, by decide⟩

theorem setup_oneRegion : ∃ boot, setup (bootWith oneRegion) = some boot ∧
    (∀ R, R < bitmapEntries32MB → (¬ boot.view.used32 R ↔ R = 2)) ∧
    (∀ R, R < bitmapEntries32MB → (boot.view.free32 R ↔ R = 2)) := by
  obtain ⟨boot, hsetup, hpage⟩ := setup_bootWith (d := oneRegion) rfl (by decide) (by decide)
  have hfresh := setup_flags hsetup
  have hbit : ∀ p, p < bitmapEntries4KB → (boot.view.page p ↔ p / 512 / 16 ≠ 2) := fun p hp => by
    rw [hpage p hp, not_iff_not]
    change 2 * (16 * 0x200000) / 4096 ≤ p ∧ p < 2 * (16 * 0x200000) / 4096 + 8192 ∧ p < bitmapEntries4KB ↔ _
    omega
  have hlt : ∀ {p R}, p / 512 / 16 = R → R < bitmapEntries32MB → p < bitmapEntries4KB := fun h hR =>
    parent2_lt.mp (parent32_lt.mp (h ▸ hR))
  refine ⟨boot, hsetup, fun R hR => ?_, fun R hR => ?_⟩
  · rw [hfresh.used32 R hR]
    constructor
    · intro hn
      have hp : R * 8192 / 512 / 16 = R := by omega
      refine Classical.byContradiction fun hne => hn ⟨R * 8192 / 512, hp, ?_⟩
      have hr : R * 8192 / 512 < bitmapEntries2MB := parent32_lt.mp (by rwa [hp])
      exact (hfresh.used2 _ hr).mpr ⟨R * 8192, rfl, (hbit _ (hlt hp hR)).mpr (by rwa [hp])⟩
    · rintro rfl ⟨r, hr, hu⟩
      obtain ⟨p, hp, hpg⟩ := (hfresh.used2 r (parent32_lt.mp (hr ▸ hR))).mp hu
      exact (hbit p (hlt (by rw [hp, hr]) hR)).mp hpg (by rw [hp, hr])
  · rw [hfresh.free32 R hR]
    constructor
    · rintro ⟨r, hr, hf⟩
      obtain ⟨p, hp, hpg⟩ := (hfresh.free2 r (parent32_lt.mp (hr ▸ hR))).mp hf
      have hpR : p / 512 / 16 = R := by rw [hp, hr]
      have hn := mt (hbit p (hlt hpR hR)).mpr hpg
      rw [hpR] at hn
      exact Classical.not_not.mp hn
    · rintro rfl
      have hclear : ¬ boot.view.page 16384 := by
        rw [hbit _ (by decide)]
        decide
      exact ⟨32, rfl, (hfresh.free2 32 (by decide)).mpr ⟨16384, rfl, hclear⟩⟩

/-- `Allocate2MB` finds a region of it. -/
theorem allocate2MB_oneRegion {boot : State} (hfresh : Fresh boot.view)
    (hused : ∀ R, R < bitmapEntries32MB → (¬ boot.view.used32 R ↔ R = 2)) : (allocate2MB boot).1 ≠ 0 := by
  obtain ⟨h1, h2⟩ := allocateCached2MBPage_nil hfresh.queue2
  rw [allocate2MB_eq, if_neg (not_not.mpr h1)]
  obtain ⟨-, -, -, hall⟩ | ⟨r, q, hr, -, htried, hr'⟩ := rescan2MB_empty (s := (allocateCached2MBPage boot).2)
    (by rw [h2]; exact hfresh.queue2)
  · have hfull := (hall 32 (by decide)).1
    rw [h2] at hfull
    exact absurd hfull ((hused 2 (by decide)).mpr rfl)
  · have hinv : SysInv boot (start boot) := hfresh.inv
    have hunused : ¬ boot.view.used2 r := by
      rw [h2] at hr'
      rcases hr' with hlow | ⟨hfree, -⟩
      · exact hlow.unused
      · exact hinv.inv.children_unused (parent32_lt.mpr hr) hfree r rfl
    have hlow := hinv.inv.pos_of_unused2 hr hunused
    rw [(htried.2 (by rw [h2]; exact hunused)).1]
    unfold pdeCoverage
    omega

/-- A 2MB region is live when the page is taken. -/
theorem physicalMemory_exclusive_region_and_page : ∃ boot s, setup (bootWith oneRegion) = some boot ∧
    run step (start boot) [.allocate .mb2] = some s ∧ s.live.length = 1 ∧
    AllStates step (Safe boot) (start boot) [.allocate .mb2, .allocate .kb4, .allocate .mb2] := by
  obtain ⟨boot, hsetup, hused, -⟩ := setup_oneRegion
  have hstep : step (start boot) (.allocate .mb2) = some ⟨(allocate2MB boot).2, [⟨.mb2, (allocate2MB boot).1⟩]⟩ := by
    rw [step_allocate]
    change some (Sys.mk (allocate2MB boot).2 (if (allocate2MB boot).1 = 0 then [] else [⟨.mb2, (allocate2MB boot).1⟩])) = _
    rw [if_neg (allocate2MB_oneRegion (setup_flags hsetup) hused)]
  have h0 : (start boot).No32MB := fun b hb => by cases hb
  refine ⟨boot, _, hsetup, by rw [run_cons hstep]; rfl, rfl,
    (physicalMemory_exclusive_iff (bootWith oneRegion) boot hsetup _).mpr fun s1 hs1 => ⟨h0.stepOk _, fun s2 hs2 => ⟨?_, fun s3 hs3 => ⟨?_, trivial⟩⟩⟩⟩
  all_goals
    have hsmall : ∀ size : BlockSize, size ≠ .mb32 → (Op.allocate size).small := fun _ h => h
    have h1 := h0.step (hsmall .mb2 (by decide)) hs1
  · exact h1.stepOk _
  · exact (h1.step (hsmall .kb4 (by decide)) hs2).stepOk _

/-- With only region 2 free, `Allocate32MB` takes it, and `Allocate` then returns a page of it. -/
theorem page_inside_32MB : ∃ boot, setup (bootWith oneRegion) = some boot ∧
    ¬ AllStates step (Safe boot) (start boot) [.allocate .mb32, .allocate .kb4] := by
  obtain ⟨boot, hsetup, hused, hfree⟩ := setup_oneRegion
  have hfresh := setup_flags hsetup
  have hinv : SysInv boot (start boot) := hfresh.inv
  refine ⟨boot, hsetup, fun hall => ?_⟩
  obtain ⟨q, -, ⟨h0, -⟩ | ⟨R, hR, hu, haddr, hview⟩⟩ := allocate32MB_cases (s := boot) hinv.inv
  · refine allocate32MB_succeeds hinv.inv hfresh.queue32 ⟨2, by decide, ?_⟩ h0
    exact (hused 2 (by decide)).mpr rfl
  obtain rfl : R = 2 := (hused R hR).mp hu
  change (allocate32MB boot).1 = 2 * (16 * pdeCoverage) at haddr
  have hstep : step (start boot) (.allocate .mb32) =
      some ⟨(allocate32MB boot).2, [⟨.mb32, 2 * (16 * pdeCoverage)⟩]⟩ := by
    rw [step_allocate]
    change some (Sys.mk (allocate32MB boot).2 (if (allocate32MB boot).1 = 0 then [] else [⟨.mb32, (allocate32MB boot).1⟩])) = _
    rw [haddr, if_neg (by decide)]
  have hinv1 := hinv.allocate32 hstep
  refine step_bad _ (.allocate .kb4) _ hinv1 (fun hok => ?_) rfl ((hall.2 _ hstep).2 _ rfl).here
  -- the cache is empty and region 2 is still the only one flagged free
  have hfree2 : (allocate32MB boot).2.view.free32 2 := by
    rw [hview, View.mark32_free32]
    exact ⟨(hfree 2 (by decide)).mpr rfl, fun _ => ⟨32, rfl, hinv.inv.children_unused (by decide) hu 32 rfl⟩⟩
  have hcached : usableCached (allocate32MB boot).2 = none := by
    have hc : (allocate32MB boot).2.view.cached = none := by
      rw [hview]
      exact hfresh.cached
    unfold usableCached
    rw [show (allocate32MB boot).2.cached4KB = none from hc]
    rfl
  cases hsel : selected32MB (allocate32MB boot).2 with
  | none => exact selectIn_none hsel 2 (word_mem (by decide)) hfree2
  | some K =>
    have hKlt := selected_lt hsel
    obtain ⟨-, hK⟩ := selectIn_spec hsel
    rw [hview, View.mark32_free32] at hK
    obtain rfl : K = 2 := (hfree K hKlt).mp hK.1
    exact hok.2 hcached 2 hsel List.mem_cons_self

/-! ## Without 32MB regions -/

/-- How the bits of the two lower levels represent the live blocks. -/
structure Represented (s : Sys) : Prop where
  whole : ∀ r, r < bitmapEntries2MB → s.live2 r →
    s.mem.bitMap2MB.anyUsed.test r = true ∧ s.mem.bitMap2MB.anyFree.test r = false ∧
      ∀ p, p / ptEntries = r → ¬ s.live4 p
  anyUsed : ∀ r, r < bitmapEntries2MB → ¬ s.live2 r →
    (s.mem.bitMap2MB.anyUsed.test r = true ↔ ∃ p, p / ptEntries = r ∧ s.mem.bitMap4KB.test p = true)
  anyFree : ∀ r, r < bitmapEntries2MB → ¬ s.live2 r →
    (∃ p, p / ptEntries = r ∧ s.mem.bitMap4KB.test p = false) → s.mem.bitMap2MB.anyFree.test r = true
  cached : ∀ p, s.mem.cached4KB = some p → p < bitmapEntries4KB ∧ s.mem.bitMap4KB.test p = false

theorem SysInv.represented {boot : State} {s : Sys} (h : SysInv boot s) : Represented s := by
  refine ⟨fun r _ hl => ?_, h.inv.used2, fun r hr hl hex => ?_, fun p hp => ?_⟩
  · obtain ⟨-, hu, hf, hclear⟩ := h.inv.live2 r hl
    exact ⟨hu, eq_false_of_ne_true hf, fun p hp hl4 => hclear p hp (h.inv.live4 p hl4).2.1⟩
  · obtain ⟨p, hp, hpg⟩ := hex
    exact h.inv.free2 r hr hl ⟨p, hp, ne_true_of_eq_false hpg⟩
  · obtain ⟨hlt, hclear⟩ := h.inv.cached p hp
    exact ⟨hlt, eq_false_of_ne_true hclear⟩

/-- The 4KB and 2MB levels agree with the live blocks along every run without 32MB regions. -/
theorem regions_represented (b : Boot) (boot : State) (hsetup : setup b = some boot) (ops : List Op)
    (hops : ∀ op ∈ ops, op.small) : AllStates step Represented (start boot) ops := by
  have hstart : SysInv boot (start boot) ∧ (start boot).No32MB :=
    ⟨(setup_flags hsetup).inv, fun c hc => by cases hc⟩
  have hall := allStates_of_allSteps (I := fun s => SysInv boot s ∧ s.No32MB) (G := fun _ op => op.small)
    (fun s op s' hi hop hs => ⟨step_inv s op s' hi.1 (hi.2.stepOk op) hs, hi.2.step hop hs⟩)
    ops (start boot) hstart (allSteps_of_forall ops (start boot) hops)
  exact AllStates.mono (fun _ hi => hi.1.represented) ops (start boot) hall

theorem regions_represented_two_calls : ∃ boot, setup (bootWith oneRegion) = some boot ∧
    AllStates step Represented (start boot) [.allocate .kb4, .allocate .mb2] := by
  obtain ⟨boot, hsetup, -, -⟩ := setup_oneRegion
  refine ⟨boot, hsetup, regions_represented (bootWith oneRegion) boot hsetup _ fun op hop => ?_⟩
  simp only [List.mem_cons, List.not_mem_nil, or_false] at hop
  rcases hop with rfl | rfl
  · exact fun h => by cases h
  · exact fun h => by cases h

end BadLands.Mm.PhysicalMemory
