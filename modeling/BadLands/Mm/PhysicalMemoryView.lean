import BadLands.Mm.PhysicalMemory

/-!
# Physical memory as sets

`View` is what the bitmaps and caches of `PhysicalMemory` mean: which pages have their bit
set, which regions are flagged used or free at each size, the two queues and the cached page.
The lemmas here say what each function of the model does to the view, so that nothing below
has to look at words and masks again.
-/
namespace BadLands.Mm.PhysicalMemory

open BadLands.Core BadLands.Mm.Layout

@[ext] structure View where
  page : Nat → Prop
  used2 : Nat → Prop
  free2 : Nat → Prop
  used32 : Nat → Prop
  free32 : Nat → Prop
  queue2 : List Nat
  queue32 : List Nat
  cached : Option Nat

def State.view (s : State) : View where
  page p := s.bitMap4KB.test p = true
  used2 r := s.bitMap2MB.anyUsed.test r = true
  free2 r := s.bitMap2MB.anyFree.test r = true
  used32 r := s.bitMap32MB.anyUsed.test r = true
  free32 r := s.bitMap32MB.anyFree.test r = true
  queue2 := s.cache2MB.entries
  queue32 := s.cache32MB.entries
  cached := s.cached4KB

/-- Queues hold 64 entries of 32 bits. -/
def enqueue (q : List Nat) (entry : Nat) : List Nat := if q.length = 64 then q else q ++ [entry % 2 ^ 32]

namespace View

variable (v : View)

def setPage (p : Nat) : View := { v with page := fun k => k = p ∨ v.page k }

def clearPage (p : Nat) : View := { v with page := fun k => k ≠ p ∧ v.page k }

def putUsed2 (r : Nat) (b : Prop) : View := { v with used2 := fun k => if k = r then b else v.used2 k }

def putFree2 (r : Nat) (b : Prop) : View := { v with free2 := fun k => if k = r then b else v.free2 k }

def putUsed32 (R : Nat) (b : Prop) : View := { v with used32 := fun k => if k = R then b else v.used32 k }

def putFree32 (R : Nat) (b : Prop) : View := { v with free32 := fun k => if k = R then b else v.free32 k }

def push2 (r : Nat) : View := { v with queue2 := enqueue v.queue2 r }

def push32 (R : Nat) : View := { v with queue32 := enqueue v.queue32 R }

def setCached (p : Option Nat) : View := { v with cached := p }

/-- What `Mark32MBRegionUsed` does. -/
def mark32 (R : Nat) : View :=
  (v.putUsed32 R True).putFree32 R (v.free32 R ∧ ¬ ∀ r, r / 16 = R → v.used2 r)

/-- What `Mark2MBRegionUsed` does. -/
def mark2 (r : Nat) : View :=
  ((v.putUsed2 r True).mark32 (r / 16)).putFree2 r (v.free2 r ∧ ¬ ∀ p, p / 512 = r → v.page p)

/-- What `Update32MBFlags` does. -/
def update32 (R : Nat) : View :=
  (v.putUsed32 R (∃ r, r / 16 = R ∧ v.used2 r)).putFree32 R (∃ r, r / 16 = R ∧ v.free2 r)

/-- A 2MB region taken as a whole. -/
def take2 (r : Nat) : View := ((v.putUsed2 r True).putFree2 r False).mark32 (r / 16)

/-- A 2MB region with all its pages freed. -/
def clear2 (r : Nat) : View :=
  (({ v with page := fun k => k / 512 ≠ r ∧ v.page k }).putUsed2 r False).putFree2 r True

/-! ### The flags after each -/

variable {v} {k r R p : Nat}

@[simp] theorem setPage_page : (v.setPage p).page k ↔ k = p ∨ v.page k := Iff.rfl

@[simp] theorem clearPage_page : (v.clearPage p).page k ↔ k ≠ p ∧ v.page k := Iff.rfl

@[simp] theorem mark32_used32 : (v.mark32 R).used32 k ↔ k = R ∨ v.used32 k := by
  change (if k = R then True else v.used32 k) ↔ _
  split <;> simp [*]

@[simp] theorem mark32_free32 : (v.mark32 R).free32 k ↔
    v.free32 k ∧ (k = R → ∃ r, r / 16 = R ∧ ¬ v.used2 r) := by
  change (if k = R then v.free32 R ∧ ¬ (∀ r, r / 16 = R → v.used2 r) else v.free32 k) ↔ _
  split <;> simp [*]

@[simp] theorem mark2_page : (v.mark2 r).page = v.page := rfl

@[simp] theorem mark2_used2 : (v.mark2 r).used2 k ↔ k = r ∨ v.used2 k := by
  change (if k = r then True else v.used2 k) ↔ _
  split <;> simp [*]

@[simp] theorem mark2_free2 : (v.mark2 r).free2 k ↔
    v.free2 k ∧ (k = r → ∃ p, p / 512 = r ∧ ¬ v.page p) := by
  change (if k = r then v.free2 r ∧ ¬ (∀ p, p / 512 = r → v.page p) else v.free2 k) ↔ _
  split <;> simp [*]

@[simp] theorem mark2_used32 : (v.mark2 r).used32 k ↔ k = r / 16 ∨ v.used32 k :=
  mark32_used32 (v := v.putUsed2 r True)

@[simp] theorem mark2_free32 : (v.mark2 r).free32 k ↔
    v.free32 k ∧ (k = r / 16 → ∃ x, x / 16 = r / 16 ∧ x ≠ r ∧ ¬ v.used2 x) := by
  refine (mark32_free32 (v := v.putUsed2 r True)).trans ?_
  have hused : ∀ x, ¬ (v.putUsed2 r True).used2 x ↔ x ≠ r ∧ ¬ v.used2 x := by
    intro x
    change ¬ (if x = r then True else v.used2 x) ↔ _
    split <;> simp [*]
  simp only [hused]
  rfl

@[simp] theorem update32_used32 : (v.update32 R).used32 k ↔
    if k = R then ∃ r, r / 16 = R ∧ v.used2 r else v.used32 k := Iff.rfl

@[simp] theorem update32_free32 : (v.update32 R).free32 k ↔
    if k = R then ∃ r, r / 16 = R ∧ v.free2 r else v.free32 k := Iff.rfl

@[simp] theorem take2_used2 : (v.take2 r).used2 k ↔ k = r ∨ v.used2 k := by
  change (if k = r then True else v.used2 k) ↔ _
  split <;> simp [*]

@[simp] theorem take2_free2 : (v.take2 r).free2 k ↔ k ≠ r ∧ v.free2 k := by
  change (if k = r then False else v.free2 k) ↔ _
  split <;> simp [*]

@[simp] theorem take2_used32 : (v.take2 r).used32 k ↔ k = r / 16 ∨ v.used32 k :=
  mark32_used32 (v := (v.putUsed2 r True).putFree2 r False)

@[simp] theorem take2_free32 : (v.take2 r).free32 k ↔
    v.free32 k ∧ (k = r / 16 → ∃ x, x / 16 = r / 16 ∧ x ≠ r ∧ ¬ v.used2 x) :=
  mark2_free32 (v := v) (r := r)

@[simp] theorem clear2_page : (v.clear2 r).page k ↔ k / 512 ≠ r ∧ v.page k := Iff.rfl

@[simp] theorem clear2_used2 : (v.clear2 r).used2 k ↔ k ≠ r ∧ v.used2 k := by
  change (if k = r then False else v.used2 k) ↔ _
  split <;> simp [*]

@[simp] theorem clear2_free2 : (v.clear2 r).free2 k ↔ k = r ∨ v.free2 k := by
  change (if k = r then True else v.free2 k) ↔ _
  split <;> simp [*]

end View

/-! ## Ranges of children and pages -/

theorem all_children (R : Nat) (f : Nat → Bool) :
    ((List.range' (R * 16) 16).all f) = true ↔ ∀ r, r / 16 = R → f r = true := by
  rw [List.all_eq_true]
  constructor
  · intro h r hr
    exact h r (List.mem_range'_1.mpr (by omega))
  · intro h r hr
    rw [List.mem_range'_1] at hr
    exact h r (by omega)

theorem any_children (R : Nat) (f : Nat → Bool) :
    ((List.range' (R * 16) 16).any f) = true ↔ ∃ r, r / 16 = R ∧ f r = true := by
  rw [List.any_eq_true]
  constructor
  · rintro ⟨r, hr, hf⟩
    rw [List.mem_range'_1] at hr
    exact ⟨r, by omega, hf⟩
  · rintro ⟨r, hr, hf⟩
    exact ⟨r, List.mem_range'_1.mpr (by omega), hf⟩

theorem all_pages (r : Nat) (f : Nat → Bool) :
    ((List.range' (r * ptEntries) ptEntries).all f) = true ↔ ∀ p, p / 512 = r → f p = true := by
  unfold ptEntries
  rw [List.all_eq_true]
  constructor
  · intro h p hp
    exact h p (List.mem_range'_1.mpr (by omega))
  · intro h p hp
    rw [List.mem_range'_1] at hp
    exact h p (by omega)

theorem startWord4KB_eq (r : Nat) : startWord4KB r = r * 8 := by
  unfold startWord4KB ptEntries
  omega

theorem endWord4KB_eq (r : Nat) : endWord4KB r = r * 8 + 8 := by
  unfold endWord4KB ptEntries
  omega

theorem words4KB_eq (r : Nat) : words4KB r = List.range' (r * 8) 8 := by
  rw [words4KB, startWord4KB_eq, endWord4KB_eq, Nat.add_sub_cancel_left]

theorem entries_pushEntry (c : LargeMemoryCache) (entry : Nat) :
    (c.pushEntry entry).entries = enqueue c.entries entry := by
  rw [LargeMemoryCache.pushEntry, Ring.entries_push, enqueue, Ring.length_entries]
  simp only [Ring.isFull, beq_iff_eq]

theorem region2MBHasUsed_iff (s : State) (r : Nat) :
    region2MBHasUsed s r = true ↔ ∃ p, p / 512 = r ∧ s.view.page p := by
  rw [region2MBHasUsed, words4KB_eq, Bitmap.any_ne_zero]
  constructor
  · rintro ⟨p, h1, h2, hp⟩
    exact ⟨p, by omega, hp⟩
  · rintro ⟨p, hr, hp⟩
    exact ⟨p, by omega, by omega, hp⟩

/-! ## The helpers -/

section
variable (s : State)

@[simp] theorem view_setPage (p : Nat) : (s.setPage p).view = s.view.setPage p := by
  ext k <;> simp [State.view, State.setPage, View.setPage, Bitmap.test_set]

@[simp] theorem view_clearPage (p : Nat) : (s.clearPage p).view = s.view.clearPage p := by
  ext k <;> simp [State.view, State.clearPage, View.clearPage, Bitmap.test_clear]

@[simp] theorem view_putUsed2MB (r : Nat) (b : Bool) :
    (s.putUsed2MB r b).view = s.view.putUsed2 r (b = true) := by
  ext k <;> simp only [State.view, State.putUsed2MB, View.putUsed2, Bitmap.test_put]
  split <;> rfl

@[simp] theorem view_putFree2MB (r : Nat) (b : Bool) :
    (s.putFree2MB r b).view = s.view.putFree2 r (b = true) := by
  ext k <;> simp only [State.view, State.putFree2MB, View.putFree2, Bitmap.test_put]
  split <;> rfl

@[simp] theorem view_putUsed32MB (r : Nat) (b : Bool) :
    (s.putUsed32MB r b).view = s.view.putUsed32 r (b = true) := by
  ext k <;> simp only [State.view, State.putUsed32MB, View.putUsed32, Bitmap.test_put]
  split <;> rfl

@[simp] theorem view_putFree32MB (r : Nat) (b : Bool) :
    (s.putFree32MB r b).view = s.view.putFree32 r (b = true) := by
  ext k <;> simp only [State.view, State.putFree32MB, View.putFree32, Bitmap.test_put]
  split <;> rfl

@[simp] theorem view_push2MB (r : Nat) : (s.push2MB r).view = s.view.push2 r := by
  simp only [State.view, State.push2MB, View.push2, entries_pushEntry]

@[simp] theorem view_push32MB (r : Nat) : (s.push32MB r).view = s.view.push32 r := by
  simp only [State.view, State.push32MB, View.push32, entries_pushEntry]

@[simp] theorem view_setCached (p : Option Nat) : (s.setCached p).view = s.view.setCached p := rfl

theorem view_mark32 (R : Nat) : (mark32MBRegionUsed s R).view = s.view.mark32 R := by
  have hall := all_children R fun child => (s.putUsed32MB R true).bitMap2MB.anyUsed.test child
  unfold mark32MBRegionUsed
  by_cases h : ∀ r, r / 16 = R → s.view.used2 r
  · have hnot : (s.view.free32 R ∧ ¬ ∀ r, r / 16 = R → s.view.used2 r) = False :=
      eq_false fun hn => hn.2 h
    simp only [if_pos (hall.mpr h), view_putFree32MB, view_putUsed32MB, View.mark32, hnot,
      Bool.false_eq_true]
  · simp only [if_neg fun hn => h (hall.mp hn), view_putUsed32MB, View.mark32, h, not_false_eq_true,
      and_true]
    ext k <;> simp only [View.putFree32, View.putUsed32]
    split
    · rename_i hk
      rw [hk]
    · rfl

theorem mark32_bitMap4KB (R : Nat) : (mark32MBRegionUsed s R).bitMap4KB = s.bitMap4KB := by
  unfold mark32MBRegionUsed
  extract_lets
  split <;> rfl

theorem view_mark2 (r : Nat) : (mark2MBRegionUsed s r).view = s.view.mark2 r := by
  have hall := all_pages r fun page => (s.putUsed2MB r true).bitMap4KB.test page
  unfold mark2MBRegionUsed
  by_cases h : ∀ p, p / 512 = r → s.view.page p
  · have hnot : (s.view.free2 r ∧ ¬ ∀ p, p / 512 = r → s.view.page p) = False :=
      eq_false fun hn => hn.2 h
    simp only [mark32_bitMap4KB, if_pos (hall.mpr h), view_putFree2MB, view_mark32, view_putUsed2MB,
      View.mark2, hnot, Bool.false_eq_true, get2MBParent32MB]
  · simp only [mark32_bitMap4KB, if_neg fun hn => h (hall.mp hn), view_mark32, view_putUsed2MB,
      View.mark2, h, not_false_eq_true, and_true, get2MBParent32MB]
    ext k <;> simp only [View.putFree2, View.mark32, View.putFree32, View.putUsed32, View.putUsed2]
    split
    · rename_i hk
      rw [hk]
    · rfl

theorem view_update32 (R : Nat) : (update32MBFlags s R).2.view = s.view.update32 R := by
  have hused := any_children R fun child => s.bitMap2MB.anyUsed.test child
  have hfree := any_children R fun child => s.bitMap2MB.anyFree.test child
  simp only [update32MBFlags, view_putFree32MB, view_putUsed32MB, View.update32, hused, hfree]
  rfl

theorem update32_free (R : Nat) :
    (update32MBFlags s R).1 = true ↔ ∀ r, r / 16 = R → ¬ s.view.used2 r := by
  have hused := any_children R fun child => s.bitMap2MB.anyUsed.test child
  rw [update32MBFlags, Bool.not_eq_true', Bool.eq_false_iff, ne_eq, hused]
  exact ⟨fun h r hr hu => h ⟨r, hr, hu⟩, fun h ⟨r, hr, hu⟩ => h r hr hu⟩

theorem view_clearWords (r : Nat) : (s.clearWords (startWord4KB r) (endWord4KB r)).view =
    { s.view with page := fun k => k / 512 ≠ r ∧ s.view.page k } := by
  ext k <;> simp only [State.view, State.clearWords, startWord4KB_eq, endWord4KB_eq,
    Bitmap.test_fillWords, Bool.and_eq_true, Bool.not_eq_true', decide_eq_false_iff_not]
  refine and_congr_left fun _ => ?_
  omega

/-- `Update32MBFlags`, then the region is queued if nothing in it is used. -/
def settle32 (R : Nat) : State :=
  if (update32MBFlags s R).1 then (update32MBFlags s R).2.push32MB R else (update32MBFlags s R).2

theorem view_settle32 (R : Nat) : ∃ fullyFree : Bool,
    (fullyFree = true ↔ ∀ r, r / 16 = R → ¬ s.view.used2 r) ∧
    (settle32 s R).view = bif fullyFree then (s.view.update32 R).push32 R else s.view.update32 R := by
  refine ⟨(update32MBFlags s R).1, update32_free s R, ?_⟩
  simp only [settle32, apply_ite State.view, view_push32MB, view_update32, Bool.cond_eq_ite]

theorem view_clear2 (r : Nat) :
    (((s.clearWords (startWord4KB r) (endWord4KB r)).putUsed2MB r false).putFree2MB r true).view
      = s.view.clear2 r := by
  simp only [view_putFree2MB, view_putUsed2MB, view_clearWords, View.clear2, Bool.false_eq_true]

theorem mark2MBRegionFreed_eq (r : Nat) : mark2MBRegionFreed s r =
    (settle32 (((s.clearWords (startWord4KB r) (endWord4KB r)).putUsed2MB r false).putFree2MB r true)
      (r / 16)).push2MB r := rfl

/-- The page bit and the 2MB flags of `Free`. -/
def releasePage (p : Nat) : State :=
  let s := (s.clearPage p).putFree2MB (p / 512) true
  if !region2MBHasUsed s (p / 512) then (s.putUsed2MB (p / 512) false).push2MB (p / 512) else s

/-- `Free` of a page outside the DMA zone. -/
theorem free_at (s : State) {p : Nat} (hpos : p ≠ 0) (hmax : p * 4096 < maxAddressableMemory)
    (hdma : isDMAAddress (p * 4096) = false) :
    free s (p * frameSize) = (true, if s.bitMap4KB.test p
      then (settle32 (releasePage s p) (p / 512 / 16)).setCached (some p) else s) := by
  change free s (p * 4096) = _
  have halign : alignDown (p * 4096) frameSize / frameSize = p := by
    unfold alignDown frameSize
    rw [if_neg (by omega)]
    omega
  rw [free, if_neg (by omega), if_neg (by simp [isAddressable, hmax, hdma])]
  simp only [halign]
  cases s.bitMap4KB.test p with
  | true => rfl
  | false => rfl

/-- `Free` of a page whose bit is set. -/
theorem free_eq {s : State} {p : Nat} (hpos : p ≠ 0) (hmax : p * 4096 < maxAddressableMemory)
    (hdma : isDMAAddress (p * 4096) = false) (hset : s.view.page p) :
    free s (p * frameSize) =
      (true, (settle32 (releasePage s p) (p / 512 / 16)).setCached (some p)) := by
  rw [free_at s hpos hmax hdma, if_pos (show s.bitMap4KB.test p = true from hset)]

theorem view_releasePage (p : Nat) :
    (releasePage s p).view =
      let v := (s.view.clearPage p).putFree2 (p / 512) True
      bif region2MBHasUsed ((s.clearPage p).putFree2MB (p / 512) true) (p / 512) then v
        else (v.putUsed2 (p / 512) False).push2 (p / 512) := by
  cases hused : region2MBHasUsed ((s.clearPage p).putFree2MB (p / 512) true) (p / 512) with
  | true => simp [releasePage, hused]
  | false => simp [releasePage, hused]

/-! ## Taking pages -/

/-- What the search of words for a clear bit does: it takes one of their pages, if there is
one, and may cache another. -/
theorem takePage_cases : ∀ ws : List Nat,
    (takePage s ws = (none, s) ∧ ∀ p, p / 64 ∈ ws → s.view.page p) ∨
    ∃ p c, p / 64 ∈ ws ∧ ¬ s.view.page p ∧ (takePage s ws).1 = some p ∧
      (takePage s ws).2.view = (s.view.setPage p).setCached c ∧
      (c = s.view.cached ∨ ∃ q, c = some q ∧ q / 64 = p / 64 ∧ q ≠ p ∧ ¬ s.view.page q)
  | [] => .inl ⟨rfl, fun _ h => by cases h⟩
  | w :: ws => by
    by_cases hw : s.bitMap4KB w = ones
    · have hskip : takePage s (w :: ws) = takePage s ws := by
        rw [takePage, if_neg (not_not.mpr hw)]
      rw [hskip]
      obtain ⟨h, hfull⟩ | ⟨p, c, hp, h⟩ := takePage_cases ws
      · refine .inl ⟨h, fun p hp => ?_⟩
        obtain hp | hp := List.mem_cons.mp hp
        · exact (Bitmap.word_eq_ones _ w).mp hw p hp
        · exact hfull p hp
      · exact .inr ⟨p, c, List.mem_cons_of_mem _ hp, h⟩
    · right
      obtain ⟨hdiv, hclear, -⟩ := Bitmap.lowest_spec (fun w => ~~~s.bitMap4KB w)
        (fun h => hw ((Bitmap.not_eq_zero _ w).mp h))
      rw [Bitmap.test_not, Bool.not_eq_true'] at hclear
      generalize hpg : w * 64 + Bitmap.countrZero (~~~s.bitMap4KB w) = p at hdiv hclear
      have hpage : ¬ s.view.page p := by simpa [State.view] using hclear
      by_cases hnext : (s.setPage p).bitMap4KB w = ones
      · refine ⟨p, s.view.cached, by rw [hdiv]; exact List.mem_cons_self, hpage, ?_, ?_, .inl rfl⟩
        · rw [takePage, if_pos hw, hpg]
        · rw [takePage, if_pos hw, hpg]
          simp only [if_neg (not_not.mpr hnext), view_setPage]
          rfl
      · obtain ⟨hdiv', hclear', -⟩ := Bitmap.lowest_spec (fun w => ~~~(s.setPage p).bitMap4KB w)
          (fun h => hnext ((Bitmap.not_eq_zero _ w).mp h))
        rw [Bitmap.test_not, Bool.not_eq_true'] at hclear'
        generalize hq : w * 64 + Bitmap.countrZero (~~~(s.setPage p).bitMap4KB w) = q at hdiv' hclear'
        have hqpage : ¬ (s.view.setPage p).page q := by
          rw [← view_setPage]
          simpa [State.view] using hclear'
        refine ⟨p, some q, by rw [hdiv]; exact List.mem_cons_self, hpage, ?_, ?_,
          .inr ⟨q, rfl, by omega, fun h => hqpage (.inl h), fun h => hqpage (.inr h)⟩⟩
        · rw [takePage, if_pos hw, hpg]
        · rw [takePage, if_pos hw, hpg]
          simp only [if_pos hnext, hq, view_setCached, view_setPage]

end

end BadLands.Mm.PhysicalMemory
