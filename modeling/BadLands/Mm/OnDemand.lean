import BadLands.Interrupts.PageFault
import BadLands.Mm.AddressSpaceTables

/-!
# `MapOnDemand`: pages that are reserved

`MapOnDemand` adds the tables of a range of pages and writes into each entry that the page is on demand. What it adds it
takes from `Allocate`, so it can end half-way, where `Allocate` returns null with the frames that are taken then.

`Sound` is the state of the tables between two calls, with the frames that have been taken since. `Spares` says what a
step leaves alone: the tables, the entries of the other pages, and the contents of every frame taken before.
-/
namespace BadLands.Mm.OnDemand

open BadLands.Core BadLands.Core.PageTable BadLands.Mm.Layout
open BadLands.Mm.Paging hiding ensureTable
open BadLands.Interrupts.PageFault (npOnDemand npUserMode npReadWrite npPK)
open BadLands.Mm.AddressSpace (World Supply ensureTable)

/-- The three levels of `MapOnDemand<true>`.
mirrors kernel/src/mm/VirtualMemory.cpp:179-243 -/
def ensureTables (supply : Supply) (w : World) (root maxPhyAddr address : Nat) (privilege : AccessPrivilege) :
    Option (Bool × World) := do
  let mapping := parseVirtualAddress address
  let userMode := decide (privilege ≠ .high)
  let (ok, w) ← ensureTable supply w root maxPhyAddr userMode setPML4EInfo
    (getPML4EAddress mapping true) (getPDPTAddress mapping true)
  if !ok then return (false, w)
  let (ok, w) ← ensureTable supply w root maxPhyAddr userMode setPDPTEInfo
    (getPDPTEAddress mapping true) (getPDAddress mapping true)
  if !ok then return (false, w)
  ensureTable supply w root maxPhyAddr userMode setPDEInfo (getPDEAddress mapping true) (getPTAddress mapping true)

/-- The entry of a page on demand.
mirrors kernel/src/mm/VirtualMemory.cpp:249-251 -/
def reservedEntry (privilege : AccessPrivilege) : Entry :=
  npOnDemand ||| (if privilege = .low then npUserMode else 0#64) ||| npReadWrite

/-- The `for` of `MapOnDemand<true>` with `k` pages left.
mirrors kernel/src/mm/VirtualMemory.cpp:174-259 -/
def mapOnDemand (supply : Supply) (root maxPhyAddr : Nat) (privilege : AccessPrivilege) :
    Nat → Nat → World → Option (Bool × World)
  | 0, _, w => some (true, w)
  | k + 1, address, w => do
    let (ok, w) ← ensureTables supply w root maxPhyAddr address privilege
    if !ok then return (false, w)
    let m ← writeVirtual w.mem root (getPTEAddress (parseVirtualAddress address) true) (reservedEntry privilege)
    mapOnDemand supply root maxPhyAddr privilege k (Word.add address frameSize) { w with mem := m }

/-! ## What a step leaves alone -/

/-- `m₀`: the memory at the start. The frames that `Allocate` still has are no tables. -/
structure Sound (m₀ : PhysMem) (root maxPhyAddr : Nat) (w : World) : Prop where
  tables : Tables w.mem root
  noLarge : ∀ a, Outside windows a → NoLarge m₀ root a → NoLarge w.mem root a
  unused : ∀ p, GoodPage m₀ root maxPhyAddr p → p ∉ w.taken → Fresh w.mem root windows p.toNat

/-- What `Allocate` returns: frames that were no tables at the start, each of them once. -/
structure Frames (supply : Supply) (m₀ : PhysMem) (root maxPhyAddr : Nat) : Prop where
  good : ∀ s p, supply s = some p → GoodPage m₀ root maxPhyAddr p
  once : ∀ s p, supply s = some p → p ∉ s

/-- From `w` to `w'` only the entries of the pages `S` change, and new frames. -/
structure Spares (root : Nat) (S : Nat → Prop) (w w' : World) : Prop where
  taken : ∀ p, p ∈ w.taken → p ∈ w'.taken
  reach : ∀ a t, Outside windows a → Reach w.mem a 3 root 0 t → Reach w'.mem a 3 root 0 t
  entry : ∀ a t, Outside windows a → Canonical a → ¬ S (a / 4096) → Reach w.mem a 3 root 0 t →
    w'.mem (slot t 0 a) = w.mem (slot t 0 a)
  same : ∀ a, Outside windows a → ¬ S (a / 4096) → translation w'.mem root a = translation w.mem root a
  data : ∀ p, p ∈ w.taken → Fresh w.mem root windows p.toNat → Fresh w'.mem root windows p.toNat ∧
    ∀ k, k < 4096 → w'.mem (p.toNat + k) = w.mem (p.toNat + k)

section
variable {supply : Supply} {m₀ : PhysMem} {root maxPhyAddr va : Nat} {w w' w'' : World} {S S' : Nat → Prop}

theorem sound_start (h : Tables m₀ root) : Sound m₀ root maxPhyAddr ⟨m₀, [], []⟩ :=
  ⟨h, fun _ _ hl => hl, fun _ hp _ => hp.2⟩

theorem Frames.page (hf : Frames supply m₀ root maxPhyAddr) (h : Sound m₀ root maxPhyAddr w) {p : Entry}
    (hp : supply w.taken = some p) : GoodPage w.mem root maxPhyAddr p :=
  ⟨(hf.good _ p hp).1, h.unused p (hf.good _ p hp) (hf.once _ p hp)⟩

theorem Spares.refl (root : Nat) (S : Nat → Prop) (w : World) : Spares root S w w :=
  ⟨fun _ h => h, fun _ _ _ h => h, fun _ _ _ _ _ _ => rfl, fun _ _ _ => rfl,
    fun _ _ h => ⟨h, fun _ _ => rfl⟩⟩

theorem Spares.trans (h : Spares root S w w') (h' : Spares root S' w' w'') :
    Spares root (fun n => S n ∨ S' n) w w'' where
  taken p hp := h'.taken p (h.taken p hp)
  reach a t ha hr := h'.reach a t ha (h.reach a t ha hr)
  entry a t ha hc hn hr :=
    (h'.entry a t ha hc (fun hs => hn (.inr hs)) (h.reach a t ha hr)).trans
      (h.entry a t ha hc (fun hs => hn (.inl hs)) hr)
  same a ha hn := (h'.same a ha fun hs => hn (.inr hs)).trans (h.same a ha fun hs => hn (.inl hs))
  data p hp hfresh := by
    obtain ⟨hfresh', hsame⟩ := h.data p hp hfresh
    obtain ⟨hfresh'', hsame'⟩ := h'.data p (h.taken p hp) hfresh'
    exact ⟨hfresh'', fun k hk => (hsame' k hk).trans (hsame k hk)⟩

theorem Spares.mono (h : Spares root S w w') (hS : ∀ n, S n → S' n) : Spares root S' w w' :=
  { h with
    entry := fun a t ha hc hn hr => h.entry a t ha hc (fun hs => hn (hS _ hs)) hr
    same := fun a ha hn => h.same a ha fun hs => hn (hS _ hs) }

/-- A word of a table is not one of a frame that is no table. -/
theorem slot_beside {m : PhysMem} {a n t f k : Nat} (hroot : root % 4096 = 0) (ha : Outside windows a)
    (hr : Reach m a 3 root n t) (hf : Fresh m root windows f) (hk : k < 4096) : f + k ≠ slot t n a := by
  have ht := hr.aligned hroot
  have hfa := hf.aligned
  have hne := hf.unused a n t ha hr
  have hi := index_lt n a
  unfold slot
  omega

/-! ## One level -/

/-- A table is linked, on the frame `p`. -/
theorem linked_step {n t : Nat} {p : Entry} {m' : PhysMem} (hf : Frames supply m₀ root maxPhyAddr)
    (h : Sound m₀ root maxPhyAddr w) (hp : supply w.taken = some p)
    (hl : Link w.mem m' root windows va n t p.toNat) :
    Sound m₀ root maxPhyAddr { w with mem := m', taken := p :: w.taken } ∧
    Spares root (fun _ => False) w { w with mem := m', taken := p :: w.taken } := by
  have hg := grown_of_link h.tables hl
  have hroot := h.tables.tree.aligned
  have hgood := hf.page h hp
  have htop : Reach m' va 3 root (n + 1) t := (hl.reach_iff h.tables.tree hl.outside).mpr (.inl hl.reach)
  refine ⟨⟨hg.tables, fun a ha hn => hg.noLarge a ha (h.noLarge a ha hn), fun q hq hnot => ?_⟩,
    ⟨fun q hq => .tail _ hq, fun a u ha hr => hg.reach a 0 u ha hr, fun a u ha _ _ hr => ?_, fun a ha _ => hg.same a ha,
      fun q hq hfresh => ?_⟩⟩
  · rw [List.mem_cons, not_or] at hnot
    refine hg.fresh _ (h.unused q hq hnot.2) fun q' hq' he => hnot.1 ?_
    rw [← hq']
    exact BitVec.eq_of_toNat_eq he
  · refine hl.same _ (fun he => ?_) fun f hfp hin => ?_
    · have hr' := hg.reach a 0 u ha hr
      obtain ⟨rfl, -⟩ := slot_inj (hr.aligned hroot) (hl.reach.aligned hroot) he
      obtain ⟨h0, -⟩ := hg.tables.tree.once a va 0 (n + 1) u ha hl.outside hr' htop
      omega
    · have hin' : p.toNat + (slot u 0 a - p.toNat) = slot u 0 a := by omega
      exact slot_beside hroot ha hr hgood.2 (by omega) hin'
  · have hne : q ≠ p := by
      rintro rfl
      exact hf.once _ q hp hq
    have hfresh' : Fresh m' root windows q.toNat := hg.fresh _ hfresh fun q' hq' he => hne (by
      rw [← hq']
      exact BitVec.eq_of_toNat_eq he)
    refine ⟨hfresh', fun k hk => hl.same _ (slot_beside hroot hl.outside htop hfresh' hk) fun f hfp hin => ?_⟩
    have hqa := hfresh.aligned
    have hpa := hgood.2.aligned
    have hnat : q.toNat ≠ p.toNat := fun he => hne (BitVec.eq_of_toNat_eq he)
    omega

/-- One level of the tables: it is there afterwards, or `Allocate` returns null. -/
theorem ensureTable_step {n t entryPtr tablePtr : Nat} {userMode : Bool} {setInfo : EntryInfo → Entry}
    (hf : Frames supply m₀ root maxPhyAddr) (h : Sound m₀ root maxPhyAddr w) (hva : Outside windows va)
    (hlarge : NoLarge m₀ root va) (ht : Reach w.mem va 3 root (n + 1) t)
    (hptr : Pointers root va n entryPtr tablePtr)
    (hset : ∀ a, setInfo (linkInfo userMode a) = withFlag 3#64 entryUserMode userMode ||| (a &&& entryAddress)) :
    ∃ ok w', ensureTable supply w root maxPhyAddr userMode setInfo entryPtr tablePtr = some (ok, w') ∧
      Sound m₀ root maxPhyAddr w' ∧ Spares root (fun _ => False) w w' ∧
      (ok = true → ∃ u, Reach w'.mem va 3 root n u) ∧ (ok = false → supply w'.taken = none) := by
  have hread : readVirtual w.mem root entryPtr = some (w.mem (slot t (n + 1) va)) := by
    unfold readVirtual
    rw [hptr.entry _ t h.tables.window ht]
    rfl
  obtain ⟨ok, m', hrun, hcase⟩ := ensureTable_cases h.tables hva ht hptr hset fun p hp => hf.page h hp
  unfold ensureTable
  simp only [Option.bind_eq_bind, hread, hrun, Option.bind_some, present_iff]
  refine ⟨ok, _, rfl, ?_⟩
  obtain ⟨rfl, hpresent, hnone⟩ | ⟨rfl, p, hp, hl⟩ := hcase
  · cases ok with
    | true =>
      rw [if_pos hpresent]
      exact ⟨h, .refl root _ w,
        fun _ => ⟨_, ht.next ⟨hpresent, h.noLarge va hva hlarge (n + 1) t ht (by omega) hpresent⟩⟩,
        fun hok => by cases hok⟩
    | false =>
      rw [if_neg (by rw [hpresent]; decide), hnone rfl]
      exact ⟨h, .refl root _ w, (fun hok => by cases hok), fun _ => hnone rfl⟩
  · rw [if_neg (by rw [hl.absent]; decide), hp]
    obtain ⟨hsound, hspares⟩ := linked_step hf h hp hl
    exact ⟨hsound, hspares, fun _ => ⟨_, (hl.reach_iff h.tables.tree hva).mpr (.inr ⟨rfl, rfl, fun _ _ _ => rfl⟩)⟩,
      fun hok => by cases hok⟩


/-- All levels: afterwards the page has an entry, or `Allocate` returns null. -/
theorem ensureTables_step (privilege : AccessPrivilege) (hf : Frames supply m₀ root maxPhyAddr)
    (h : Sound m₀ root maxPhyAddr w) (hva : Outside windows va) (hlarge : NoLarge m₀ root va) :
    ∃ ok w', ensureTables supply w root maxPhyAddr va privilege = some (ok, w') ∧ Sound m₀ root maxPhyAddr w' ∧
      Spares root (fun _ => False) w w' ∧ (ok = true → ∃ t, Reach w'.mem va 3 root 0 t) ∧
      (ok = false → supply w'.taken = none) := by
  obtain ⟨ok₃, w₃, hrun₃, hs₃, hk₃, hr₃, hn₃⟩ := ensureTable_step (n := 2) hf h hva hlarge (.here _ _) pointers_pdpt
    (setPML4EInfo_link (decide (privilege ≠ .high)))
  unfold ensureTables
  simp only [Option.bind_eq_bind, hrun₃, Option.bind_some]
  cases ok₃ with
  | false => exact ⟨false, w₃, rfl, hs₃, hk₃, (fun hok => by cases hok), fun _ => hn₃ rfl⟩
  | true =>
    obtain ⟨t₂, ht₂⟩ := hr₃ rfl
    obtain ⟨ok₂, w₂, hrun₂, hs₂, hk₂, hr₂, hn₂⟩ := ensureTable_step (n := 1) hf hs₃ hva hlarge ht₂ pointers_pd
      (setPDPTEInfo_link (decide (privilege ≠ .high)))
    have hboth := (hk₃.trans hk₂).mono fun _ hs => hs.elim id id
    simp only [Bool.not_true, Bool.false_eq_true, if_false, hrun₂, Option.bind_some]
    cases ok₂ with
    | false => exact ⟨false, w₂, rfl, hs₂, hboth, (fun hok => by cases hok), fun _ => hn₂ rfl⟩
    | true =>
      obtain ⟨t₁, ht₁⟩ := hr₂ rfl
      obtain ⟨ok₁, w₁, hrun₁, hs₁, hk₁, hr₁, hn₁⟩ := ensureTable_step (n := 0) hf hs₂ hva hlarge ht₁ pointers_pt
        (setPDEInfo_link (decide (privilege ≠ .high)))
      simp only [Bool.not_true, Bool.false_eq_true, if_false, hrun₁]
      exact ⟨ok₁, w₁, rfl, hs₁, (hboth.trans hk₁).mono fun _ hs => hs.elim id id, hr₁, hn₁⟩

/-! ## The entry of a page -/

/-- The entry of the page at `va` is written. -/
theorem leaf_step {t : Nat} {e : Entry} (h : Sound m₀ root maxPhyAddr w) (hva : Outside windows va)
    (hcan : Canonical va) (ht : Reach w.mem va 3 root 0 t) :
    Sound m₀ root maxPhyAddr { w with mem := update w.mem (slot t 0 va) e } ∧
    Spares root (· = va / 4096) w { w with mem := update w.mem (slot t 0 va) e } := by
  have hroot := h.tables.tree.aligned
  have hbut : SameBut w.mem (update w.mem (slot t 0 va) e) (slot t 0 va) fun _ => False := fun q hq _ => if_neg hq
  have hreach := fun {a k u : Nat} (ha : Outside windows a) => @leaf_reach _ _ _ _ _ _ h.tables.tree hva ht hbut a k u ha
  have hfresh : ∀ f, Fresh w.mem root windows f → Fresh (update w.mem (slot t 0 va) e) root windows f := fun f hf =>
    ⟨hf.aligned, fun a n u ha hu => hf.unused a n u ha ((hreach ha).mp hu)⟩
  refine ⟨⟨leaf_tables h.tables hva ht hbut, fun a ha hn => leaf_noLarge h.tables.tree hva ht hbut ha (h.noLarge a ha hn),
    fun p hp hnot => hfresh _ (h.unused p hp hnot)⟩,
    ⟨fun _ hp => hp, fun a u ha hr => (hreach ha).mpr hr, fun a u ha hc hne hr => if_neg fun he => hne ?_,
      fun a ha hne => ?_, fun p _ hp => ⟨hfresh _ hp, fun k hk => if_neg (slot_beside hroot hva ht hp hk)⟩⟩⟩
  · obtain ⟨rfl, hidx⟩ := slot_inj (hr.aligned hroot) (ht.aligned hroot) he
    obtain ⟨-, hpath⟩ := h.tables.tree.once a va 0 0 u ha hva hr ht
    exact samePath_page hc hcan (hpath.cons hidx)
  · by_cases hc : Canonical a
    · exact leaf_translate_other h.tables.tree hva ht hbut ha fun hp => hne (samePath_page hc hcan hp)
    · unfold translation
      rw [if_neg hc, if_neg hc]

/-- One page is reserved. -/
theorem reserve_step {t : Nat} (privilege : AccessPrivilege) (h : Sound m₀ root maxPhyAddr w)
    (ht : Reach w.mem va 3 root 0 t) :
    writeVirtual w.mem root (getPTEAddress (parseVirtualAddress va) true) (reservedEntry privilege) =
      some (update w.mem (slot t 0 va) (reservedEntry privilege)) := by
  unfold writeVirtual
  rw [ptePointer h.tables.window ht]
  rfl

/-! ## The loop -/

/-- The pages of a range that can be reserved. -/
def Reservable (m₀ : PhysMem) (root address pages : Nat) : Prop :=
  ∀ i, i < pages → Canonical (address + i * frameSize) ∧ Outside windows (address + i * frameSize) ∧
    NoLarge m₀ root (address + i * frameSize)

/-- The page number `n` is one of the range. -/
def InRange (address pages n : Nat) : Prop := address / frameSize ≤ n ∧ n < address / frameSize + pages

instance InRange.decidable (address pages n : Nat) : Decidable (InRange address pages n) :=
  inferInstanceAs (Decidable (_ ∧ _))

/-- The page with the number `n` is reserved and has no frame. -/
def Reserved (m : PhysMem) (root n : Nat) : Prop :=
  ∃ t privilege, Reach m (n * frameSize) 3 root 0 t ∧ m (slot t 0 (n * frameSize)) = reservedEntry privilege

theorem reach_page {m : PhysMem} {a b n k u t : Nat} (h : a / 4096 = b / 4096) (hn : n ≤ 3)
    (hr : Reach m a n t k u) : Reach m b n t k u :=
  SamePath.reach (fun j _ _ => index_page h j) hn hr

theorem slot_page {a b t n : Nat} (h : a / 4096 = b / 4096) : slot t n a = slot t n b := by
  unfold slot
  rw [index_page h]

theorem base_page (a : Nat) : a / frameSize * frameSize / 4096 = a / 4096 :=
  Nat.mul_div_cancel _ (by decide)

theorem number_page (n : Nat) : n * frameSize / 4096 = n := Nat.mul_div_cancel _ (by decide)

theorem outside_page {a b : Nat} (h : a / 4096 = b / 4096) (hb : Outside windows b) : Outside windows a := by
  unfold Outside at hb ⊢
  rw [index_page h]
  exact hb

/-- What is reserved stays so. -/
theorem Spares.reserved {n : Nat} (h : Spares root S w w') (hr : Reserved w.mem root n) (hn : ¬ S n)
    (hcan : Canonical (n * frameSize)) (hout : Outside windows (n * frameSize)) : Reserved w'.mem root n := by
  obtain ⟨t, privilege, ht, hentry⟩ := hr
  refine ⟨t, privilege, h.reach _ t hout ht, (h.entry _ t hout hcan ?_ ht).trans hentry⟩
  rw [number_page]
  exact hn

theorem inRange_succ {address k n : Nat} :
    InRange address (k + 1) n ↔ n = address / frameSize ∨ InRange (address + frameSize) k n := by
  unfold InRange
  rw [Nat.add_div_right _ (show 0 < frameSize by decide)]
  omega

/-- The range behind the first page. -/
theorem Reservable.next {address k : Nat} (h : Reservable m₀ root address (k + 1)) :
    Reservable m₀ root (address + frameSize) k := by
  intro i hi
  have hnext := h (i + 1) (by omega)
  rwa [Nat.succ_mul, Nat.add_comm (i * frameSize), ← Nat.add_assoc] at hnext

theorem canonical_lt {a : Nat} (h : Canonical a) : a < 2 ^ 64 := by
  unfold Canonical at h
  omega

/-- The pointer is advanced. It can leave the address space behind the last page only. -/
theorem mapOnDemand_next {address k : Nat} {privilege : AccessPrivilege} (h : Reservable m₀ root address (k + 1)) :
    mapOnDemand supply root maxPhyAddr privilege k (Word.add address frameSize) w =
      mapOnDemand supply root maxPhyAddr privilege k (address + frameSize) w := by
  cases k with
  | zero => rw [mapOnDemand, mapOnDemand]
  | succ k =>
    have hlt := canonical_lt (h.next 0 (Nat.succ_pos k)).1
    rw [Nat.zero_mul, Nat.add_zero] at hlt
    exact congrArg (mapOnDemand supply root maxPhyAddr privilege (k + 1) · w) (Word.add_eq hlt)

/-- A call of `MapOnDemand` returns. It touches nothing but the entries of its pages; if it succeeds, all of them are
reserved, and otherwise `Allocate` returns null there. -/
theorem mapOnDemand_spec (privilege : AccessPrivilege) (hf : Frames supply m₀ root maxPhyAddr) :
    ∀ (k address : Nat) (w : World), Sound m₀ root maxPhyAddr w → Reservable m₀ root address k →
      ∃ ok w', mapOnDemand supply root maxPhyAddr privilege k address w = some (ok, w') ∧
        Sound m₀ root maxPhyAddr w' ∧ Spares root (InRange address k) w w' ∧
        (ok = true → ∀ n, InRange address k n → Reserved w'.mem root n) ∧ (ok = false → supply w'.taken = none)
  | 0, address, w, h, _ =>
    ⟨true, w, rfl, h, .refl root _ w, fun _ n hn => absurd hn.2 (Nat.not_lt.mpr hn.1), fun hok => by cases hok⟩
  | k + 1, address, w, h, hrange => by
    obtain ⟨hcan, hout, hlarge⟩ := hrange 0 (Nat.succ_pos k)
    rw [Nat.zero_mul, Nat.add_zero] at hcan hout hlarge
    obtain ⟨ok, w₁, hrun₁, hs₁, hk₁, hr₁, hn₁⟩ := ensureTables_step privilege hf h hout hlarge
    rw [mapOnDemand]
    simp only [Option.bind_eq_bind, hrun₁, Option.bind_some]
    cases ok with
    | false =>
      exact ⟨false, w₁, rfl, hs₁, hk₁.mono fun _ hs => hs.elim, (fun hok => by cases hok), fun _ => hn₁ rfl⟩
    | true =>
      obtain ⟨t, ht⟩ := hr₁ rfl
      obtain ⟨hs₂, hk₂⟩ := leaf_step (e := reservedEntry privilege) hs₁ hout hcan ht
      have hfirst : Reserved (update w₁.mem (slot t 0 address) (reservedEntry privilege)) root (address / frameSize) := by
        refine ⟨t, privilege, reach_page (base_page address).symm (Nat.le_refl 3) (hk₂.reach address t hout ht), ?_⟩
        rw [slot_page (base_page address), update, if_pos rfl]
      obtain ⟨ok, w', hrun, hs, hk, hall, hno⟩ := mapOnDemand_spec privilege hf k (address + frameSize) _ hs₂ hrange.next
      refine ⟨ok, w', ?_, hs, ((hk₁.trans hk₂).trans hk).mono ?_, fun hok n hn => ?_, hno⟩
      · simp only [Bool.not_true, Bool.false_eq_true, if_false, reserve_step privilege hs₁ ht, Option.bind_some,
          mapOnDemand_next hrange, hrun]
      · rintro n ((hs | hs) | hs)
        · exact hs.elim
        · exact inRange_succ.mpr (.inl hs)
        · exact inRange_succ.mpr (.inr hs)
      · obtain rfl | hn := inRange_succ.mp hn
        · refine hk.reserved hfirst (fun hin => ?_) (canonical_page (base_page address) hcan)
            (outside_page (base_page address) hout)
          have hlow := hin.1
          rw [Nat.add_div_right _ (show 0 < frameSize by decide)] at hlow
          omega
        · exact hall hok n hn

theorem reserved_absent {m : PhysMem} {a n : Nat} (h : Reserved m root n) (ha : a / frameSize = n) :
    translation m root a = none := by
  obtain ⟨t, privilege, hr, hentry⟩ := h
  have hpage : n * frameSize / 4096 = a / 4096 := (number_page n).trans ha.symm
  refine translation_absent (n := 0) (fun _ _ _ => rfl) (by decide) (reach_page hpage (Nat.le_refl 3) hr) ?_
  rw [← slot_page hpage, hentry]
  cases privilege <;> decide

end

/-- For every page table with its window, every range that can be reserved and every supply of frames: the call returns,
and no page beside the range is translated differently. On success each page of the range is reserved and not mapped
to anything; on failure `Allocate` has returned null, with the frames that are taken at the end. -/
theorem mapOnDemand_reserves (supply : Supply) (m₀ : PhysMem) (root maxPhyAddr : Nat) (privilege : AccessPrivilege)
    (address pages : Nat) (ht : Tables m₀ root) (hf : Frames supply m₀ root maxPhyAddr)
    (hrange : Reservable m₀ root address pages) :
    ∃ ok w', mapOnDemand supply root maxPhyAddr privilege pages address ⟨m₀, [], []⟩ = some (ok, w') ∧
      Tables w'.mem root ∧
      (∀ a, Outside windows a → ¬ InRange address pages (a / frameSize) →
        translation w'.mem root a = translation m₀ root a) ∧
      (ok = true → ∀ a, InRange address pages (a / frameSize) →
        Reserved w'.mem root (a / frameSize) ∧ translation w'.mem root a = none) ∧
      (ok = false → supply w'.taken = none) := by
  obtain ⟨ok, w', hrun, hs, hk, hall, hno⟩ := mapOnDemand_spec privilege hf pages address _ (sound_start ht) hrange
  refine ⟨ok, w', hrun, hs.tables, hk.same, fun hok a ha => ?_, hno⟩
  have hreserved := hall hok _ ha
  exact ⟨hreserved, reserved_absent hreserved rfl⟩

/-- The frames from 0x2000 up, five of them. -/
def fiveFrames : Supply := fun taken =>
  [0x2000#64, 0x3000#64, 0x4000#64, 0x5000#64, 0x6000#64].find? (fun p => decide (p ∉ taken))

theorem frames_fiveFrames : Frames fiveFrames emptyRoot 0x1000 48 where
  good s p hp := by
    have hmem := List.mem_of_find?_eq_some hp
    simp only [List.mem_cons, List.not_mem_nil, or_false] at hmem
    rcases hmem with rfl | rfl | rfl | rfl | rfl <;>
      exact goodPage_emptyRoot (by decide) (by decide) (by decide)
  once s p hp := by simpa using List.find?_some hp

theorem reservable_emptyRoot {pages : Nat} (hpages : pages ≤ 512) : Reservable emptyRoot 0x1000 0x400000 pages := by
  intro i hi
  have hindex : index 3 (0x400000 + i * frameSize) = 0 := by
    unfold index
    change (0x400000 + i * 4096) / 2 ^ (12 + 9 * 3) % 512 = 0
    omega
  have hout : Outside windows (0x400000 + i * frameSize) := by
    unfold Outside windows
    rw [hindex]
    decide
  refine ⟨.inl ?_, hout, fun n t hr _ hp => ?_⟩
  · change 0x400000 + i * 4096 < 2 ^ 47
    omega
  · obtain ⟨rfl, rfl⟩ := reach_emptyRoot hout hr
    rw [slot, hindex] at hp ⊢
    revert hp
    decide

/-- Two pages of an empty table. -/
theorem mapOnDemand_reserves_two_pages : ∃ ok w',
    mapOnDemand fiveFrames 0x1000 48 .low 2 0x400000 ⟨emptyRoot, [], []⟩ = some (ok, w') ∧ Tables w'.mem 0x1000 ∧
      (∀ a, Outside windows a → ¬ InRange 0x400000 2 (a / frameSize) →
        translation w'.mem 0x1000 a = translation emptyRoot 0x1000 a) ∧
      (ok = true → ∀ a, InRange 0x400000 2 (a / frameSize) →
        Reserved w'.mem 0x1000 (a / frameSize) ∧ translation w'.mem 0x1000 a = none) ∧
      (ok = false → fiveFrames w'.taken = none) :=
  mapOnDemand_reserves fiveFrames emptyRoot 0x1000 48 .low 0x400000 2 tables_emptyRoot frames_fiveFrames
    (reservable_emptyRoot (by decide))

end BadLands.Mm.OnDemand
