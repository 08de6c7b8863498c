import BadLands.Mm.Heap
import BadLands.Sync.Lock

/-!
# The kernel heap under its lock

`Heap::Allocate` and `Heap::Free` begin with a `LockGuard` on `heapLock`
(`kernel/src/mm/Heap.cpp:523-531`). Here any number of tasks call them, scheduled in any
order, the heap's own work cut into accesses in any way that comes to `allocate` and `free`
when nothing comes in between (`Accesses`).

The tasks keep to the heap's contract: `Free` gets a block that `Allocate` returned and that
was not passed to `Free` before. The memory a new arena would take is disjoint from what
`AllocateKernelHeap` offered earlier calls. Writes of the tasks to their blocks are not part
of this model (`BadLands.Mm.Heap` has them between calls).
-/
namespace BadLands.Mm.HeapTasks

open BadLands.Mm BadLands.Mm.Heap BadLands.Core.Avl BadLands.Core.Ranges BadLands.Core.Machine
open BadLands.Core.Monitor hiding State init step Inv
open BadLands.Sync (Lock)

inductive Call where
  | allocate (size arena : Nat)
  | free (b : Live)
  deriving DecidableEq, Repr

def Call.op : Call → Op
  | .allocate size arena => .allocate size arena
  | .free b => .free b

/-- The pointer that the call returns; `Free` returns nothing. -/
def result (s : Sys) : Call → Nat
  | .allocate size arena => ((allocate s.mem s.root size arena).map fun r => r.2.2).getD 0
  | .free _ => 0

/-- What calls made one after another return. -/
def outcomes (s : Sys) : List Call → List Nat
  | [] => []
  | k :: ks => result s k :: (match exec s k.op with
    | some s' => outcomes s' ks
    | none => [])

/-- The work of a call, access by access. -/
structure Accesses where
  body : Call → Body Sys Nat
  run_body : ∀ s c s', exec s c.op = some s' → (body c).run s = (s', result s c)

variable {T : Type}

/-- `owned` are the blocks returned and not yet passed to `Free`, `offered` the memory that
`AllocateKernelHeap` had for the calls. -/
structure Tasks (T : Type) where
  monitor : Core.Monitor.State T Lock Sys Call Nat
  owned : List Live
  offered : List Range

/-- The arena a call would take. -/
def arenaOf (size arena : Nat) : Range := ⟨arena, arenaSize (blockSize size)⟩

def Allowed (c : Tasks T) : Act T Call → Prop
  | .call _ (.allocate size arena) => size < 2 ^ 62 ∧ Fresh c.offered arena (arenaSize (blockSize size))
  | .call _ (.free b) => b ∈ c.owned
  | .turn _ => True

instance decidableAllowed (c : Tasks T) : ∀ a : Act T Call, Decidable (Allowed c a)
  | .call _ (.allocate _ _) => inferInstanceAs (Decidable (_ ∧ _))
  | .call _ (.free b) => inferInstanceAs (Decidable (b ∈ c.owned))
  | .turn _ => isTrue trivial

def ownedAfter (c : Tasks T) : Act T Call → List Live
  | .call _ (.allocate _ _) => c.owned
  | .call _ (.free b) => c.owned.erase b
  | .turn t =>
    match c.monitor.phase t with
    | .inside (.allocate size _) (.ret p) => if p = 0 then c.owned else ⟨p, size⟩ :: c.owned
    | _ => c.owned

def offeredAfter (c : Tasks T) : Act T Call → List Range
  | .call _ (.allocate size arena) => if arena = 0 then c.offered else arenaOf size arena :: c.offered
  | _ => c.offered

/-- mirrors kernel/src/mm/Heap.cpp:523-531 -/
def step [DecidableEq T] (acc : Accesses) (c : Tasks T) (a : Act T Call) : Option (Tasks T) :=
  if Allowed c a then
    (Core.Monitor.step Lock.spinlock acc.body c.monitor a).map fun m =>
      ⟨m, ownedAfter c a, offeredAfter c a⟩
  else none

/-- After `Heap::Create`, with no call under way. -/
def init (m : HeapTree.Mem) (arena : Nat) : Tasks T :=
  ⟨Core.Monitor.init (boot m arena) Lock.init, [], (boot m arena).arenas⟩

/-- The heap that the finished calls make, one after another. -/
def settled (acc : Accesses) (s₀ : Sys) (c : Tasks T) : Sys :=
  (replay acc.body s₀ (c.monitor.returned.map Prod.fst)).1

def Tasks.pending (c : Tasks T) (t : T) : Option Call := (c.monitor.phase t).pending

/-- What holds between the tasks and the heap `s` of the finished calls. -/
structure Sound (s : Sys) (c : Tasks T) : Prop where
  tiled : ∃ w, Heap.Inv s w
  nodup : c.owned.Nodup
  live : ∀ b ∈ s.live, b ∈ c.owned ∨ ∃ u, c.pending u = some (.free b)
  owned : ∀ b ∈ c.owned, b ∈ s.live
  freeing : ∀ u b, c.pending u = some (.free b) → b ∈ s.live ∧ b ∉ c.owned
  once : ∀ u v b, c.pending u = some (.free b) → c.pending v = some (.free b) → u = v
  arenas : ∀ r ∈ s.arenas, r ∈ c.offered
  asking : ∀ u size arena, c.pending u = some (.allocate size arena) → size < 2 ^ 62 ∧
    Fresh s.arenas arena (arenaSize (blockSize size)) ∧ (arena ≠ 0 → arenaOf size arena ∈ c.offered)
  apart : ∀ u v size arena size' arena', u ≠ v → c.pending u = some (.allocate size arena) →
    c.pending v = some (.allocate size' arena') → arena = 0 ∨ arena' = 0 ∨
      (arenaOf size arena).Disj (arenaOf size' arena')

/-- The calls that have returned, as operations of the heap. -/
def Tasks.history (c : Tasks T) : List Op := c.monitor.returned.map fun r => r.1.2.op

/-- `s` is the heap that the finished calls make one after another from `s₀`; `ahead` is the call inside, if there is one. -/
structure Serialized (acc : Accesses) [DecidableEq T] (s₀ : Sys) (c : Tasks T) (s : Sys) : Prop where
  order : run Heap.step s₀ c.history = some s
  results : c.monitor.returned.map Prod.snd = outcomes s₀ (c.monitor.returned.map fun r => r.1.2)
  taken : ∃ ahead, c.monitor.acquired = c.monitor.returned.map Prod.fst ++ ahead ∧
    (c.monitor.lock.held = false → ahead = []) ∧ ∀ t k b, c.monitor.phase t = .inside k b → ahead = [(t, k)]
  exclusive : ∀ t u, (c.monitor.phase t).isInside = true → (c.monitor.phase u).isInside = true → t = u
  quiet : c.monitor.lock.held = false → c.monitor.shared = s
  tiled : ∃ w, Tiled s w
  apart : c.owned.Pairwise fun a b => (nodeRange s.mem a.header).Disj (nodeRange s.mem b.header)
  kept : ∀ b ∈ s.live, b ∈ c.owned ∨ ∃ u, c.pending u = some (.free b)
  completes : ∀ t k, c.pending t = some k →
    ∃ (ts : List T) (c' : Tasks T), run (step acc) c (ts.map .turn) = some c' ∧ c'.pending t = none

/-! ## Blocks in use -/

/-- No block is in use twice. -/
theorem live_nodup {s : Sys} {w : SearchTree Nat} (h : Heap.Inv s w) : s.live.Nodup := by
  have hpacked := (List.pairwise_append.mp h.disjoint).2.1
  rw [List.pairwise_map] at hpacked
  refine hpacked.imp_of_mem fun {a b} ha hb hd he => ?_
  subst he
  have hpos := h.size_pos (Tiled.live_mem ha)
  unfold Range.Disj at hd
  omega

/-- Two blocks in use do not overlap. -/
theorem live_disj {s : Sys} {w : SearchTree Nat} (h : Heap.Inv s w) {a b : Live} (ha : a ∈ s.live)
    (hb : b ∈ s.live) (hne : a ≠ b) : (nodeRange s.mem a.header).Disj (nodeRange s.mem b.header) := by
  have hpacked : Packed (s.live.map fun b => nodeRange s.mem b.header) := (List.pairwise_append.mp h.disjoint).2.1
  rw [packed_perm ((List.perm_cons_erase ha).map _), List.map_cons, packed_cons] at hpacked
  exact hpacked.1 _ (List.mem_map_of_mem ((List.mem_erase_of_ne hne.symm).mpr hb))

/-- `Fresh` memory stays so when arenas go. -/
theorem fresh_mono {l l' : List Range} {p n : Nat} (h : Fresh l p n) (hsub : ∀ r ∈ l', r ∈ l) : Fresh l' p n :=
  h.imp_right fun hf => ⟨hf.1, hf.2.1, fun r hr => hf.2.2 r (hsub r hr)⟩

theorem mem_arenasAfter {s : Sys} {size arena : Nat} {r : Range} (h : r ∈ arenasAfter s size arena) :
    r ∈ s.arenas ∨ arena ≠ 0 ∧ r = arenaOf size arena := by
  unfold arenasAfter at h
  split at h
  · next hc =>
    rcases List.mem_cons.mp h with h | h
    · exact .inr ⟨hc.2, h⟩
    · exact .inl h
  · exact .inl h

section
variable {s s' : Sys} {c c' : Tasks T}

/-- What `exec` makes of an allocation, with the pointer it returns. -/
theorem exec_allocate {size arena : Nat} (h : exec s (.allocate size arena) = some s') :
    s'.live = (if result s (.allocate size arena) = 0 then s.live
      else ⟨result s (.allocate size arena), size⟩ :: s.live) ∧
    s'.arenas = arenasAfter s size arena := by
  rw [exec, Option.map_eq_some_iff] at h
  obtain ⟨r, hr, rfl⟩ := h
  have hres : result s (.allocate size arena) = r.2.2 := by
    rw [result, hr]
    rfl
  rw [hres]
  exact ⟨rfl, rfl⟩

theorem exec_free {b : Live} (h : exec s (.free b) = some s') :
    s'.live = s.live.erase b ∧ s'.arenas = s.arenas := by
  rw [exec, Option.map_eq_some_iff] at h
  obtain ⟨r, -, rfl⟩ := h
  exact ⟨rfl, rfl⟩

/-- A call under way may be executed. -/
theorem Sound.admissible (h : Sound s c) {u : T} {k : Call} (hk : c.pending u = some k) : Admissible s k.op := by
  cases k with
  | allocate size arena => exact ⟨(h.asking u size arena hk).1, (h.asking u size arena hk).2.1⟩
  | free b => exact (h.freeing u b hk).1

/-- The heap is in order after a call, too. -/
theorem Sound.exec (h : Sound s c) {t : T} {k : Call} (ht : c.pending t = some k) (hexec : Heap.exec s k.op = some s') :
    ∃ w, Heap.Inv s' w := by
  obtain ⟨w, hinv⟩ := h.tiled
  obtain ⟨s₁, w', hexec', hinv'⟩ := exec_inv hinv (h.admissible ht)
  rw [hexec] at hexec'
  obtain rfl := Option.some.inj hexec'
  exact ⟨w', hinv'⟩

/-- When a call has ended, who is under way was so before. -/
theorem pending_back {t : T} (ht' : c'.pending t = none) (hothers : ∀ u, u ≠ t → c'.pending u = c.pending u) {u : T}
    {k : Call} (hu : c'.pending u = some k) : u ≠ t ∧ c.pending u = some k := by
  have hne : u ≠ t := fun he => by
    rw [he, ht'] at hu
    cases hu
  exact ⟨hne, hothers u hne ▸ hu⟩

/-- An allocation ends. -/
theorem allocate_sound (h : Sound s c) {t : T} {size arena : Nat}
    (ht : c.pending t = some (.allocate size arena)) (hexec : exec s (.allocate size arena) = some s')
    (ht' : c'.pending t = none) (hothers : ∀ u, u ≠ t → c'.pending u = c.pending u)
    (howned : c'.owned = if result s (.allocate size arena) = 0 then c.owned
      else ⟨result s (.allocate size arena), size⟩ :: c.owned)
    (hoffered : c'.offered = c.offered) : Sound s' c' := by
  obtain ⟨hlive, harenas⟩ := exec_allocate hexec
  obtain ⟨w', hinv'⟩ := h.exec ht hexec
  have hback := fun u k => @pending_back _ c c' t ht' hothers u k
  have hfree : ∀ u b, c.pending u = some (.free b) → c'.pending u = some (.free b) := fun u b hu => by
    rw [hothers u fun he => by rw [he, ht] at hu; cases hu]
    exact hu
  have hnodup := live_nodup hinv'
  have hsub : ∀ b ∈ s.live, b ∈ s'.live := fun b hb => by
    rw [hlive]
    split
    · exact hb
    · exact List.mem_cons_of_mem _ hb
  -- a block that was in use before is not the new one
  have hold : ∀ b ∈ s.live, b ∉ c.owned → b ∉ c'.owned := fun b hb hn hm => by
    rw [howned] at hm
    split at hm
    · exact hn hm
    · next h0 =>
      rcases List.mem_cons.mp hm with he | hm
      · rw [hlive, if_neg h0, List.nodup_cons] at hnodup
        exact hnodup.1 (he ▸ hb)
      · exact hn hm
  refine ⟨⟨w', hinv'⟩, ?_, fun b hb => ?_, fun b hb => ?_, fun u b hu => ?_, fun u v b hu hv => ?_,
    fun r hr => ?_, fun u size' arena' hu => ?_, fun u v _ _ _ _ hne hu hv => ?_⟩
  · rw [howned]
    split
    · exact h.nodup
    · next h0 =>
      rw [hlive, if_neg h0, List.nodup_cons] at hnodup
      exact List.nodup_cons.mpr ⟨fun hm => hnodup.1 (h.owned _ hm), h.nodup⟩
  · rw [hlive] at hb
    rw [howned]
    split at hb
    · next h0 =>
      rw [if_pos h0]
      exact (h.live b hb).imp_right fun ⟨u, hu⟩ => ⟨u, hfree u b hu⟩
    · next h0 =>
      rw [if_neg h0]
      rcases List.mem_cons.mp hb with hb | hb
      · exact .inl (hb ▸ List.mem_cons_self)
      · exact (h.live b hb).imp (List.mem_cons_of_mem _) fun ⟨u, hu⟩ => ⟨u, hfree u b hu⟩
  · rw [howned] at hb
    rw [hlive]
    split at hb
    · next h0 => rw [if_pos h0]; exact h.owned b hb
    · next h0 =>
      rw [if_neg h0]
      exact (List.mem_cons.mp hb).elim (fun he => he ▸ List.mem_cons_self)
        fun hb => List.mem_cons_of_mem _ (h.owned b hb)
  · obtain ⟨hb, hn⟩ := h.freeing u b (hback u _ hu).2
    exact ⟨hsub b hb, hold b hb hn⟩
  · exact h.once u v b (hback u _ hu).2 (hback v _ hv).2
  · rw [harenas] at hr
    rw [hoffered]
    rcases mem_arenasAfter hr with hr | ⟨h0, rfl⟩
    · exact h.arenas r hr
    · exact (h.asking t size arena ht).2.2 h0
  · obtain ⟨hne, hu⟩ := hback u _ hu
    obtain ⟨hsize, hfresh, hoff⟩ := h.asking u size' arena' hu
    refine ⟨hsize, ?_, hoffered ▸ hoff⟩
    rw [harenas]
    by_cases h0 : arena' = 0
    · exact .inl h0
    · obtain ⟨halign, hspace, hdisj⟩ := hfresh.resolve_left h0
      refine .inr ⟨halign, hspace, fun r hr => ?_⟩
      rcases mem_arenasAfter hr with hr | ⟨harena, rfl⟩
      · exact hdisj r hr
      · exact ((h.apart u t _ _ _ _ hne hu ht).resolve_left h0).resolve_left harena
  · exact h.apart u v _ _ _ _ hne (hback u _ hu).2 (hback v _ hv).2

/-- A `Free` ends. -/
theorem free_sound (h : Sound s c) {t : T} {b : Live} (ht : c.pending t = some (.free b))
    (hexec : exec s (.free b) = some s') (ht' : c'.pending t = none)
    (hothers : ∀ u, u ≠ t → c'.pending u = c.pending u) (howned : c'.owned = c.owned)
    (hoffered : c'.offered = c.offered) : Sound s' c' := by
  obtain ⟨hlive, harenas⟩ := exec_free hexec
  obtain ⟨w, hinv⟩ := h.tiled
  obtain ⟨w', hinv'⟩ := h.exec ht hexec
  have hback := fun u k => @pending_back _ c c' t ht' hothers u k
  have hmem : ∀ x, x ∈ s'.live ↔ x ≠ b ∧ x ∈ s.live := fun x => by
    rw [hlive, (live_nodup hinv).mem_erase_iff]
  have hnot := (h.freeing t b ht).2
  refine ⟨⟨w', hinv'⟩, howned ▸ h.nodup, fun x hx => ?_, fun x hx => ?_, fun u x hu => ?_,
    fun u v x hu hv => h.once u v x (hback u _ hu).2 (hback v _ hv).2, fun r hr => ?_,
    fun u size arena hu => ?_, fun u v _ _ _ _ hne hu hv => h.apart u v _ _ _ _ hne (hback u _ hu).2 (hback v _ hv).2⟩
  · obtain ⟨hne, hx⟩ := (hmem x).mp hx
    rw [howned]
    refine (h.live x hx).imp_right fun ⟨u, hu⟩ => ⟨u, ?_⟩
    rw [hothers u fun he => ?_, hu]
    rw [he, ht, Option.some.injEq, Call.free.injEq] at hu
    exact hne hu.symm
  · rw [howned] at hx
    exact (hmem x).mpr ⟨fun he => hnot (he ▸ hx), h.owned x hx⟩
  · obtain ⟨hne, hu⟩ := hback u _ hu
    obtain ⟨hx, hn⟩ := h.freeing u x hu
    exact ⟨(hmem x).mpr ⟨fun he => hne (h.once u t b (he ▸ hu) ht), hx⟩, howned ▸ hn⟩
  · rw [harenas] at hr
    exact hoffered ▸ h.arenas r hr
  · rw [harenas, hoffered]
    exact h.asking u size arena (hback u _ hu).2

/-- A call begins. -/
theorem call_sound (h : Sound s c) {t : T} {k : Call} (hallowed : Allowed c (.call t k))
    (ht : c.pending t = none) (ht' : c'.pending t = some k)
    (hothers : ∀ u, u ≠ t → c'.pending u = c.pending u) (howned : c'.owned = ownedAfter c (.call t k))
    (hoffered : c'.offered = offeredAfter c (.call t k)) : Sound s c' := by
  -- what others have under way is what they had
  have hold : ∀ u k', c'.pending u = some k' → u = t ∧ k' = k ∨ u ≠ t ∧ c.pending u = some k' := fun u k' hu => by
    by_cases he : u = t
    · rw [he, ht', Option.some.injEq] at hu
      exact .inl ⟨he, hu.symm⟩
    · exact .inr ⟨he, hothers u he ▸ hu⟩
  have hnew : ∀ u k', c.pending u = some k' → c'.pending u = some k' := fun u k' hu => by
    rw [hothers u fun he => by rw [he, ht] at hu; cases hu]
    exact hu
  cases k with
  | free b =>
    simp only [ownedAfter] at howned
    simp only [offeredAfter] at hoffered
    have hb : b ∈ c.owned := hallowed
    have hmem : ∀ x, x ∈ c'.owned ↔ x ≠ b ∧ x ∈ c.owned := fun x => by
      rw [howned, h.nodup.mem_erase_iff]
    have hnone : ∀ u, c.pending u ≠ some (.free b) := fun u hu => (h.freeing u b hu).2 hb
    refine ⟨h.tiled, howned ▸ h.nodup.erase b, fun x hx => ?_, fun x hx => h.owned x ((hmem x).mp hx).2,
      fun u x hu => ?_, fun u v x hu hv => ?_, hoffered ▸ h.arenas, fun u size arena hu => ?_,
      fun u v _ _ _ _ hne hu hv => ?_⟩
    · by_cases he : x = b
      · exact .inr ⟨t, he ▸ ht'⟩
      · exact (h.live x hx).imp (fun hx => (hmem x).mpr ⟨he, hx⟩) fun ⟨u, hu⟩ => ⟨u, hnew u _ hu⟩
    · rcases hold u _ hu with ⟨-, he⟩ | ⟨-, hu⟩
      · obtain rfl : x = b := Call.free.inj he
        exact ⟨h.owned x hb, fun hx => ((hmem x).mp hx).1 rfl⟩
      · obtain ⟨hx, hn⟩ := h.freeing u x hu
        exact ⟨hx, fun hm => hn ((hmem x).mp hm).2⟩
    · rcases hold u _ hu with ⟨hut, he⟩ | ⟨-, hu⟩ <;> rcases hold v _ hv with ⟨hvt, he'⟩ | ⟨-, hv⟩
      · rw [hut, hvt]
      · cases he
        exact absurd hv (hnone v)
      · cases he'
        exact absurd hu (hnone u)
      · exact h.once u v x hu hv
    · rcases hold u _ hu with ⟨-, he⟩ | ⟨-, hu⟩
      · cases he
      · rw [hoffered]
        exact h.asking u size arena hu
    · rcases hold u _ hu with ⟨-, he⟩ | ⟨-, hu⟩
      · cases he
      · rcases hold v _ hv with ⟨-, he'⟩ | ⟨-, hv⟩
        · cases he'
        · exact h.apart u v _ _ _ _ hne hu hv
  | allocate size arena =>
    obtain ⟨hsize, hfresh⟩ : size < 2 ^ 62 ∧ Fresh c.offered arena (arenaSize (blockSize size)) := hallowed
    simp only [ownedAfter] at howned
    simp only [offeredAfter] at hoffered
    have hsub : ∀ r ∈ c.offered, r ∈ c'.offered := fun r hr => by
      rw [hoffered]
      split
      · exact hr
      · exact List.mem_cons_of_mem _ hr
    -- the new arena is apart from every one asked for before
    have hapart : ∀ u size' arena', c.pending u = some (.allocate size' arena') → arena = 0 ∨ arena' = 0 ∨
        (arenaOf size arena).Disj (arenaOf size' arena') := fun u size' arena' hu => by
      by_cases h0 : arena = 0
      · exact .inl h0
      · by_cases h0' : arena' = 0
        · exact .inr (.inl h0')
        · exact .inr (.inr ((hfresh.resolve_left h0).2.2 _ ((h.asking u size' arena' hu).2.2 h0')))
    have hfree : ∀ u b, c'.pending u = some (.free b) → c.pending u = some (.free b) := fun u b hu => by
      rcases hold u _ hu with ⟨-, he⟩ | ⟨-, hu⟩
      · cases he
      · exact hu
    refine ⟨h.tiled, howned ▸ h.nodup, fun x hx => ?_, fun x hx => h.owned x (howned ▸ hx), fun u x hu => ?_,
      fun u v x hu hv => h.once u v x (hfree u x hu) (hfree v x hv), fun r hr => hsub r (h.arenas r hr),
      fun u size' arena' hu => ?_, fun u v _ _ _ _ hne hu hv => ?_⟩
    · rw [howned]
      exact (h.live x hx).imp_right fun ⟨u, hu⟩ => ⟨u, hnew u _ hu⟩
    · rw [howned]
      exact h.freeing u x (hfree u x hu)
    · rcases hold u _ hu with ⟨-, he⟩ | ⟨-, hu⟩
      · cases he
        refine ⟨hsize, fresh_mono hfresh h.arenas, fun h0 => ?_⟩
        rw [hoffered, if_neg h0]
        exact List.mem_cons_self
      · obtain ⟨hsize', hfresh', hoff⟩ := h.asking u size' arena' hu
        exact ⟨hsize', hfresh', fun h0 => hsub _ (hoff h0)⟩
    · rcases hold u _ hu with ⟨hut, he⟩ | ⟨-, hu⟩ <;> rcases hold v _ hv with ⟨hvt, he'⟩ | ⟨-, hv⟩
      · exact absurd (hut.trans hvt.symm) hne
      · cases he
        exact hapart v _ _ hv
      · cases he'
        rcases hapart u _ _ hu with h0 | h0 | hd
        · exact .inr (.inl h0)
        · exact .inl h0
        · exact .inr (.inr (disj_symm hd))
      · exact h.apart u v _ _ _ _ hne hu hv

end

/-! ## Runs -/

theorem outcomes_append {s' : Sys} {k : Call} : ∀ (ks : List Call) (s : Sys),
    run Heap.step s (ks.map Call.op) = some s' → outcomes s (ks ++ [k]) = outcomes s ks ++ [result s' k]
  | [], s, h => by
    obtain rfl := Option.some.inj h
    rw [List.nil_append, outcomes, outcomes, List.nil_append, List.cons.injEq]
    refine ⟨rfl, ?_⟩
    split <;> rfl
  | k' :: ks, s, h => by
    rw [List.map_cons, run, Option.bind_eq_some_iff] at h
    obtain ⟨s₁, hstep, hrun⟩ := h
    have hexec : exec s k'.op = some s₁ := by
      unfold Heap.step at hstep
      split at hstep
      · exact hstep
      · cases hstep
    rw [List.cons_append, outcomes, outcomes, hexec]
    exact congrArg _ (outcomes_append ks s₁ hrun)

structure Good (acc : Accesses) (s₀ : Sys) (c : Tasks T) : Prop where
  monitor : Core.Monitor.Inv Lock.spinlock acc.body s₀ c.monitor
  sound : Sound (settled acc s₀ c) c
  sequential : run Heap.step s₀ c.history = some (settled acc s₀ c)
  results : c.monitor.returned.map Prod.snd = outcomes s₀ (c.monitor.returned.map fun r => r.1.2)

theorem init_good {acc : Accesses} (m : HeapTree.Mem) (arena : Nat) (h : Fresh [] arena (16 * Layout.pageSize)) :
    Good acc (boot m arena) (init m arena : Tasks T) := by
  have hnone : ∀ t, (init m arena : Tasks T).pending t = none := fun _ => rfl
  have hlive : (boot m arena).live = [] := rfl
  refine ⟨inv_init (L := Lock.spinlock) rfl, ⟨inv_boot m arena h, List.nodup_nil, fun b hb => ?_, fun b hb => ?_,
    fun u b hu => ?_, fun u v b hu _ => ?_, fun r hr => hr, fun u size arena hu => ?_,
    fun u v _ _ _ _ _ hu _ => ?_⟩, rfl, rfl⟩
  · exact absurd (hlive ▸ hb) List.not_mem_nil
  · exact absurd hb List.not_mem_nil
  all_goals
    rw [hnone] at hu
    cases hu

section
variable [DecidableEq T] {acc : Accesses} {s₀ : Sys} {c c' : Tasks T}

theorem leave_good (h : Good acc s₀ c) {t : T} {k : Call} {r : Nat}
    (ht : c.monitor.phase t = .inside k (.ret r))
    (hm : Core.Monitor.Inv Lock.spinlock acc.body s₀ (c.monitor.leave Lock.spinlock t k r)) :
    Good acc s₀ ⟨c.monitor.leave Lock.spinlock t k r, ownedAfter c (.turn t), offeredAfter c (.turn t)⟩ := by
  have hpending : c.pending t = some k := by rw [Tasks.pending, ht]; rfl
  obtain ⟨cs, s₁, -, hreplay, hrun⟩ := h.monitor.busy t k _ ht
  have hcs : c.monitor.returned.map Prod.fst = cs := by
    rw [← replay_map_fst acc.body s₀ cs, hreplay]
  have hs₁ : settled acc s₀ c = s₁ := by rw [settled, hcs, hreplay]
  -- what the body has done is what the heap's own call does
  obtain ⟨w, hinv⟩ := h.sound.tiled
  obtain ⟨s', -, hexec, -⟩ := exec_inv hinv (h.sound.admissible hpending)
  have hbody := acc.run_body _ _ _ hexec
  rw [Body.run, ← hs₁, hbody, Prod.mk.injEq] at hrun
  have hsettled : settled acc s₀ (⟨c.monitor.leave Lock.spinlock t k r, ownedAfter c (.turn t),
      offeredAfter c (.turn t)⟩ : Tasks T) = s' := by
    rw [settled, State.leave, List.map_append, replay_append, ← settled, List.map_singleton, replay, hbody]
    rfl
  have hsame : ∀ u, u ≠ t → ((c.monitor.leave Lock.spinlock t k r).phase u).pending = c.pending u :=
    fun u hu => congrArg Phase.pending (phase_move (s := c.monitor) hu)
  have hidle : ((c.monitor.leave Lock.spinlock t k r).phase t).pending = none :=
    congrArg Phase.pending (phase_move_self (s := c.monitor))
  refine ⟨hm, ?_, ?_, ?_⟩
  · rw [hsettled]
    cases k with
    | allocate size arena =>
      refine allocate_sound h.sound hpending hexec hidle hsame ?_ rfl
      rw [← hrun.2]
      simp only [ownedAfter, ht]
    | free b =>
      refine free_sound h.sound hpending hexec hidle hsame ?_ rfl
      simp only [ownedAfter, ht]
  · have hstep : Heap.step (settled acc s₀ c) k.op = some s' := by
      rw [Heap.step, if_pos (h.sound.admissible hpending), hexec]
    rw [hsettled, Tasks.history, State.leave, List.map_append, run_append]
    change (run Heap.step s₀ c.history).bind _ = _
    rw [h.sequential, Option.bind_some]
    exact run_cons hstep []
  · have hseq : run Heap.step s₀ ((c.monitor.returned.map fun r => r.1.2).map Call.op) =
        some (settled acc s₀ c) := by
      rw [List.map_map]
      exact h.sequential
    rw [State.leave, List.map_append, List.map_append, h.results, List.map_singleton, List.map_singleton,
      outcomes_append _ s₀ hseq, hrun.2]

theorem step_good (h : Good acc s₀ c) {a : Act T Call} (hs : step acc c a = some c') : Good acc s₀ c' := by
  unfold step at hs
  split at hs
  · next hallowed =>
    rw [Option.map_eq_some_iff] at hs
    obtain ⟨m, hm, rfl⟩ := hs
    have hmi := step_inv h.monitor hm
    rcases step_cases hm with ⟨t, k, rfl, ht, rfl⟩ | ⟨t, rfl, hne, hret, hpending⟩ | ⟨t, k, r, rfl, ht, rfl⟩
    · have hnone : c.pending t = none := by rw [Tasks.pending, ht]; rfl
      refine ⟨hmi, call_sound h.sound hallowed hnone ?_ (fun u hu => ?_) rfl rfl, h.sequential, h.results⟩
      · exact congrArg Phase.pending (phase_move_self (s := c.monitor))
      · exact congrArg Phase.pending (phase_move (s := c.monitor) hu)
    · have howned : ownedAfter c (.turn t) = c.owned := by
        simp only [ownedAfter]
        split
        · next size arena p ht => exact absurd ht (hne _ _)
        · rfl
      have hsettled : settled acc s₀ (⟨m, ownedAfter c (.turn t), offeredAfter c (.turn t)⟩ : Tasks T) =
          settled acc s₀ c := by rw [settled, settled, hret]
      refine ⟨hmi, ?_, ?_, hret ▸ h.results⟩
      · rw [hsettled, howned]
        have hp : ∀ u, (⟨m, c.owned, offeredAfter c (.turn t)⟩ : Tasks T).pending u = c.pending u := hpending
        have hs := h.sound
        exact ⟨hs.tiled, hs.nodup, fun b hb => (hs.live b hb).imp_right fun ⟨u, hu⟩ => ⟨u, (hp u).trans hu⟩,
          hs.owned, fun u b hu => hs.freeing u b ((hp u).symm.trans hu),
          fun u v b hu hv => hs.once u v b ((hp u).symm.trans hu) ((hp v).symm.trans hv), hs.arenas,
          fun u size arena hu => hs.asking u size arena ((hp u).symm.trans hu),
          fun u v _ _ _ _ hne hu hv => hs.apart u v _ _ _ _ hne ((hp u).symm.trans hu) ((hp v).symm.trans hv)⟩
      · rw [hsettled, Tasks.history, hret]
        exact h.sequential
    · exact leave_good h ht hmi
  · cases hs

/-- Turns of the monitor are turns of the tasks. -/
theorem run_turns : ∀ (ts : List T) (c : Tasks T) (m : Core.Monitor.State T Lock Sys Call Nat),
    run (Core.Monitor.step Lock.spinlock acc.body) c.monitor (ts.map .turn) = some m →
    ∃ c', run (step acc) c (ts.map .turn) = some c' ∧ c'.monitor = m
  | [], c, m, h => ⟨c, rfl, Option.some.inj h⟩
  | t :: ts, c, m, h => by
    rw [List.map_cons, run, Option.bind_eq_some_iff] at h
    obtain ⟨m₁, hstep, hrun⟩ := h
    obtain ⟨c', hrun', hm⟩ := run_turns ts ⟨m₁, ownedAfter c (.turn t), offeredAfter c (.turn t)⟩ m hrun
    refine ⟨c', ?_, hm⟩
    have hs : step acc c (.turn t) = some ⟨m₁, ownedAfter c (.turn t), offeredAfter c (.turn t)⟩ := by
      rw [step, if_pos (show Allowed c (.turn t) from trivial), hstep, Option.map_some]
    rw [List.map_cons, run_cons hs, hrun']

theorem Good.serialized (h : Good acc s₀ c) : Serialized acc s₀ c (settled acc s₀ c) where
  order := h.sequential
  results := h.results
  taken := h.monitor.taken
  exclusive := h.monitor.unique
  quiet hfree := by
    obtain ⟨ahead, hacquired, hnone, -⟩ := h.monitor.taken
    rw [hnone hfree, List.append_nil] at hacquired
    rw [settled, ← hacquired, h.monitor.free hfree]
  tiled := by
    obtain ⟨w, hw⟩ := h.sound.tiled
    exact ⟨w, hw.toTiled⟩
  apart := by
    obtain ⟨w, hw⟩ := h.sound.tiled
    exact h.sound.nodup.imp_of_mem fun {a b} ha hb hne =>
      live_disj hw (h.sound.owned a ha) (h.sound.owned b hb) hne
  kept := h.sound.live
  completes t k hk := by
    obtain ⟨ts, m, hrun, hidle⟩ := completes h.monitor hk
    obtain ⟨c', hrun', rfl⟩ := run_turns ts c m hrun
    exact ⟨ts, c', hrun', congrArg Phase.pending hidle⟩

end

/-- Whatever the schedule, the finished calls form a run of the heap's own operations, in the order
in which they took the lock, with the results that run has. -/
theorem heap_serialized [DecidableEq T] (acc : Accesses) (m : HeapTree.Mem) (arena : Nat)
    (h : Fresh [] arena (16 * Layout.pageSize)) (as : List (Act T Call)) :
    AllStates (step acc) (fun c => ∃ s, Serialized acc (boot m arena) c s) (init m arena) as :=
  AllStates.mono (fun _ hg => ⟨_, hg.serialized⟩) as _
    (allStates_of_inv (fun _ _ _ hg hs => step_good hg hs) as _ (init_good m arena h))

/-- The whole call as one access. -/
def wholeBody (k : Call) : Body Sys Nat :=
  .access (fun s => (exec s k.op).getD s) fun s => .ret (result s k)

def whole : Accesses where
  body := wholeBody
  run_body s k s' h := by
    rw [wholeBody, Body.run, Body.run, h, Option.getD_some]

theorem heap_serialized_two_tasks :
    AllStates (step whole) (fun c => ∃ s, Serialized whole (boot ⟨id, id, id, id, id⟩ 65536) c s)
      (init ⟨id, id, id, id, id⟩ 65536) [.call 0 (.allocate 100 0), .call 1 (.allocate 40 0),
        .turn (1 : Nat), .turn 0, .turn 1, .turn 1, .turn 0] :=
  heap_serialized whole ⟨id, id, id, id, id⟩ 65536 (.inr (by decide)) _

end BadLands.Mm.HeapTasks
