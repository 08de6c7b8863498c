import BadLands.Core.ByteMemory
import BadLands.Core.Word
import BadLands.Mm.GeneralMapping

/-!
# Mapping ACPI tables

`MapTable` maps the first page of a table to read its length, unmaps it, and maps as many pages as the length needs;
`UnmapTable` reads the length again and computes the same number. The window is seen as the frames of its pages, with
`MapGeneralPages` and `UnmapGeneralPages` as specified; `mapGeneralPages_asSpecified` connects that to their code.

`mapTable_roundTrip_iff`: exactly when the range that is mapped is the table and is unmapped again. The `Length` field
ends 8 bytes into the table: where the first page ends before, part of it is read through the page behind, which the
first mapping does not cover.
-/
namespace BadLands.Acpi.TableMapping

open BadLands.Core BadLands.Core.PageTable BadLands.Mm.Layout BadLands.Mm.Paging

/-! ## The window -/

/-- The frames of the pages from the start of the general mapping zone on; those behind its end are other zones'. -/
abbrev Window := Nat → Option Nat

/-- `n` free pages from page `s` on, and none before. -/
structure First (w : Window) (n s : Nat) : Prop where
  fits : s + n ≤ gpPages
  free : ∀ j, j < n → w (s + j) = none
  first : ∀ s', s' < s → ∃ j, j < n ∧ w (s' + j) ≠ none

/-- The `n` pages from page `s` on are mapped to the frames from that of `p` on. -/
def mapped (w : Window) (p s n : Nat) : Window := fun i =>
  if s ≤ i ∧ i < s + n then some (p / pageSize * pageSize + (i - s) * pageSize) else w i

def cleared (w : Window) (s n : Nat) : Window := fun i => if s ≤ i ∧ i < s + n then none else w i

def translate (w : Window) (address : Nat) : Option Nat :=
  (w ((address - generalMapping.start) / pageSize)).map (· + (address - generalMapping.start) % pageSize)

/-- `MapGeneralPages`, whose calls are numbered, and `UnmapGeneralPages`, as specified. -/
structure GeneralPages where
  mapGeneralPages : Nat → Window → Nat → Nat → Option Nat × Window
  unmapGeneralPages : Window → Nat → Nat → Bool × Window
  map_spec : ∀ call w p n, 0 < n → mapGeneralPages call w p n = (none, w) ∨
    ∃ s, First w n s ∧ mapGeneralPages call w p n = (some (generalPage s + p % pageSize), mapped w p s n)
  unmap_spec : ∀ w s o n, o < pageSize → (∀ j, j < n → w (s + j) ≠ none) →
    unmapGeneralPages w (generalPage s + o) n = (true, cleared w s n)

/-! ## The code -/

/-- mirrors kernel/src/acpi/Interface.cpp:34-40 -/
def requiredPages (start length : Nat) : Nat :=
  Word.add (Word.sub (Word.add start length / pageSize) (start / pageSize)) 1

/-- Offset of `Length` in `Header`.
mirrors kernel/include/acpi/header.hpp:20-22 -/
def lengthOffset : Nat := 4

/-- The bytes at virtual addresses. -/
def view (memory : ByteMemory) (w : Window) : ByteMemory := fun a => ((translate w a).map memory).getD 0

/-- `mapped->Length`; `none` is a page fault. -/
def readLength (memory : ByteMemory) (w : Window) (header : Nat) : Option Nat :=
  if ∀ i, i < 4 → (translate w (header + lengthOffset + i)).isSome then
    some ((view memory w).read (header + lengthOffset) 4)
  else none

/-- mirrors kernel/src/acpi/Interface.cpp:120-134 -/
def mapTable (G : GeneralPages) (memory : ByteMemory) (w : Window) (physicalAddress : Nat) :
    Option (Option Nat × Window) :=
  match G.mapGeneralPages 0 w physicalAddress 1 with
  | (none, w) => some (none, w)
  | (some header, w) => (readLength memory w header).map fun length =>
    let pages := requiredPages header length
    match G.unmapGeneralPages w header 1 with
    | (false, w) => (none, w)
    | (true, w) => G.mapGeneralPages 1 w physicalAddress pages

/-- mirrors kernel/src/acpi/Interface.cpp:136-142 -/
def unmapTable (G : GeneralPages) (memory : ByteMemory) (w : Window) (address : Nat) : Option (Bool × Window) :=
  (readLength memory w address).map fun length =>
    let pages := requiredPages address length
    G.unmapGeneralPages w address pages

/-! ## The property -/

/-- The length in the table's header. -/
def tableLength (memory : ByteMemory) (p : Nat) : Nat := memory.read (p + lengthOffset) 4

/-- The pages of a table. -/
def tablePages (p length : Nat) : Nat := (p % pageSize + length) / pageSize + 1

/-- Null, and nothing is mapped; or the table's bytes are mapped, in pages that were free, and `UnmapTable` is about
exactly these pages and gives back the window. -/
def RoundTrip (G : GeneralPages) (memory : ByteMemory) (w : Window) (p : Nat) : Prop :=
  match mapTable G memory w p with
  | none => False
  | some (none, w') => w' = w
  | some (some v, w') => (∀ i, i < tableLength memory p → translate w' (v + i) = some (p + i)) ∧
    ∃ s n, v = generalPage s + p % pageSize ∧ w' = mapped w p s n ∧ (∀ j, j < n → w (s + j) = none) ∧
      (readLength memory w' v).map (requiredPages v) = some n ∧ unmapTable G memory w' v = some (true, w)

/-- The length that is read when only page `s` is mapped. -/
def lengthSeen (memory : ByteMemory) (w : Window) (p s : Nat) : Option Nat :=
  readLength memory (mapped w p s 1) (generalPage s + p % pageSize)

/-- When the first page is mapped, the `Length` field lies in it; or the length seen through the page behind gives the
table's number of pages, or a single page that the table does not leave, unless these pages cannot be mapped. -/
def LengthFound (G : GeneralPages) (memory : ByteMemory) (w : Window) (p : Nat) : Prop :=
  ∀ s, G.mapGeneralPages 0 w p 1 = (some (generalPage s + p % pageSize), mapped w p s 1) → First w 1 s →
    p % pageSize + 8 ≤ pageSize ∨ ∃ length, lengthSeen memory w p s = some length ∧
      ((G.mapGeneralPages 1 w p (tablePages p length)).1 = none ∨
        tablePages p length = tablePages p (tableLength memory p) ∨
        (tablePages p length = 1 ∧ p % pageSize + tableLength memory p ≤ pageSize))

/-! ## Reading through the window -/

section
variable {G : GeneralPages} {memory : ByteMemory} {w : Window} {p s n : Nat}

theorem read_shift {m m' : ByteMemory} {a b : Nat} : ∀ (n : Nat), (∀ i, i < n → m (a + i) = m' (b + i)) →
    m.read a n = m'.read b n := by
  intro n
  induction n generalizing a b with
  | zero => exact fun _ => rfl
  | succ n ih =>
    intro h
    have hrest : m.read (a + 1) n = m'.read (b + 1) n := ih fun i hi => by
      have := h (i + 1) (by omega)
      rwa [show a + 1 + i = a + (i + 1) by omega, show b + 1 + i = b + (i + 1) by omega]
    have hfirst := h 0 (Nat.succ_pos n)
    rw [Nat.add_zero, Nat.add_zero] at hfirst
    rw [ByteMemory.read, ByteMemory.read, hfirst, hrest]

/-- The page and the offset of byte `i` of a range in the window. -/
theorem translate_general (w : Window) (s o : Nat) :
    translate w (generalPage s + o) = (w (s + o / pageSize)).map (· + o % pageSize) := by
  have hstart : generalPage s + o - generalMapping.start = s * 4096 + o := by
    unfold generalPage pageSize
    omega
  unfold translate pageSize
  rw [hstart, show (s * 4096 + o) / 4096 = s + o / 4096 by omega, show (s * 4096 + o) % 4096 = o % 4096 by omega]

theorem translate_mapped {i : Nat} (hi : p % pageSize + i < n * pageSize) :
    translate (mapped w p s n) (generalPage s + p % pageSize + i) = some (p + i) := by
  rw [Nat.add_assoc, translate_general]
  unfold mapped pageSize at *
  rw [if_pos (by omega), Option.map_some]
  congr 1
  omega

theorem readLength_eq {v : Nat} (h : ∀ i, i < 4 → translate w (v + lengthOffset + i) = some (p + lengthOffset + i)) :
    readLength memory w v = some (tableLength memory p) := by
  unfold readLength
  rw [if_pos fun i hi => by rw [h i hi]; rfl]
  refine congrArg some (read_shift 4 fun i hi => ?_)
  unfold view
  rw [h i hi]
  rfl

/-- A mapping that covers the header's first eight bytes. -/
theorem readLength_mapped (memory : ByteMemory) (w : Window) (s : Nat) (h : p % pageSize + 8 ≤ n * pageSize) :
    readLength memory (mapped w p s n) (generalPage s + p % pageSize) = some (tableLength memory p) := by
  refine readLength_eq fun i hi => ?_
  have hin : p % pageSize + (4 + i) < n * pageSize := by omega
  unfold lengthOffset
  rw [Nat.add_assoc _ 4 i, Nat.add_assoc p 4 i]
  exact translate_mapped hin

theorem readLength_lt {v length : Nat} (h : readLength memory w v = some length) : length < 2 ^ 32 := by
  unfold readLength at h
  split at h
  · obtain rfl := Option.some.inj h
    exact ByteMemory.read_lt _ 4
  · cases h

theorem requiredPages_eq {length : Nat} (hs : s < gpPages) (hlength : length < 2 ^ 32) :
    requiredPages (generalPage s + p % pageSize) length = tablePages p length := by
  rw [gpPages_eq] at hs
  rw [generalPage_eq]
  unfold requiredPages tablePages pageSize
  rw [Word.add_eq (a := 0xFFFF800130000000 + s * 4096 + p % 4096) (by omega), Word.sub_eq (by omega),
    Word.add_eq (by omega)]
  omega

theorem cleared_mapped (h : ∀ j, j < n → w (s + j) = none) : cleared (mapped w p s n) s n = w := by
  funext i
  unfold cleared mapped
  split
  · rename_i hi
    have := h (i - s) (by omega)
    rwa [Nat.add_sub_cancel' hi.1, eq_comm] at this
  · rfl

theorem unmap_mapped (h : ∀ j, j < n → w (s + j) = none) :
    G.unmapGeneralPages (mapped w p s n) (generalPage s + p % pageSize) n = (true, w) := by
  rw [G.unmap_spec _ _ _ _ (Nat.mod_lt _ (by decide)) fun j hj => ?_, cleared_mapped h]
  unfold mapped
  rw [if_pos ⟨Nat.le_add_right _ _, by omega⟩]
  exact Option.some_ne_none _

theorem First.unique {s' : Nat} (h : First w n s) (h' : First w n s') : s = s' := by
  rcases Nat.lt_trichotomy s s' with hlt | heq | hlt
  · obtain ⟨j, hj, hne⟩ := h'.first s hlt
    exact absurd (h.free j hj) hne
  · exact heq
  · obtain ⟨j, hj, hne⟩ := h.first s' hlt
    exact absurd (h'.free j hj) hne

/-! ## The second mapping -/

/-- What is left once the length has been read. -/
theorem mapTable_read {length : Nat} (hfirst : First w 1 s)
    (hmap : G.mapGeneralPages 0 w p 1 = (some (generalPage s + p % pageSize), mapped w p s 1))
    (hread : lengthSeen memory w p s = some length) :
    mapTable G memory w p = some (G.mapGeneralPages 1 w p (tablePages p length)) := by
  have hs : s < gpPages := hfirst.fits
  have hunmap : G.unmapGeneralPages (mapped w p s 1) (generalPage s + p % pageSize) 1 = (true, w) :=
    unmap_mapped hfirst.free
  unfold lengthSeen at hread
  unfold mapTable
  simp only [hmap, hread, Option.map_some, hunmap, requiredPages_eq hs (readLength_lt hread)]

/-- The pages behind a first one that is not mapped as the table's are told by its length. -/
theorem seen_of_mapped (h : ¬ p % pageSize + tableLength memory p ≤ pageSize)
    (hall : ∀ i, i < tableLength memory p → translate (mapped w p s 1) (generalPage s + p % pageSize + i) = some (p + i)) :
    lengthSeen memory w p s = some (tableLength memory p) := by
  have hmod : p % pageSize < pageSize := Nat.mod_lt _ (by decide)
  -- the first byte behind the page names the frame of the next one
  have hnext := hall (pageSize - p % pageSize) (by omega)
  rw [Nat.add_assoc, translate_general] at hnext
  unfold lengthSeen
  refine readLength_eq fun i hi => ?_
  unfold lengthOffset
  rw [Nat.add_assoc _ 4 i, Nat.add_assoc p 4 i]
  by_cases hin : p % pageSize + (4 + i) < 1 * pageSize
  · exact translate_mapped hin
  · rw [Nat.add_assoc, translate_general]
    unfold pageSize at *
    rw [show (p % 4096 + (4096 - p % 4096)) / 4096 = 1 by omega,
      show (p % 4096 + (4096 - p % 4096)) % 4096 = 0 by omega] at hnext
    rw [show (p % 4096 + (4 + i)) / 4096 = 1 by omega]
    obtain ⟨f, hf, hframe⟩ := Option.map_eq_some_iff.mp hnext
    rw [hf, Option.map_some]
    congr 1
    omega

/-- The window tells how many pages were mapped, when they were free before. -/
theorem mapped_count {s s' n n' : Nat} (hv : generalPage s + p % pageSize = generalPage s' + p % pageSize)
    (hw : mapped w p s n = mapped w p s' n') (hfree : ∀ j, j < n → w (s + j) = none)
    (hfree' : ∀ j, j < n' → w (s' + j) = none) : n' = n := by
  obtain rfl : s = s' := by
    rw [generalPage_eq, generalPage_eq] at hv
    omega
  rcases Nat.lt_trichotomy n' n with hlt | heq | hlt
  · have hat := congrFun hw (s + n')
    unfold mapped at hat
    rw [if_pos ⟨by omega, by omega⟩, if_neg (by omega), hfree n' hlt] at hat
    cases hat
  · exact heq
  · have hat := congrFun hw (s + n)
    unfold mapped at hat
    rw [if_neg (by omega), if_pos ⟨by omega, by omega⟩, hfree' _ hlt] at hat
    cases hat

/-- The pages that are mapped are the table's, or one that it does not leave. -/
theorem roundTrip_mapped {length s' : Nat} (hfirst : First w 1 s)
    (hmap : G.mapGeneralPages 0 w p 1 = (some (generalPage s + p % pageSize), mapped w p s 1))
    (hread : lengthSeen memory w p s = some length) (hfirst' : First w (tablePages p length) s')
    (hmap' : G.mapGeneralPages 1 w p (tablePages p length) =
      (some (generalPage s' + p % pageSize), mapped w p s' (tablePages p length))) :
    RoundTrip G memory w p ↔ tablePages p length = tablePages p (tableLength memory p) ∨
      (tablePages p length = 1 ∧ p % pageSize + tableLength memory p ≤ pageSize) := by
  have hs' : s' < gpPages := by
    have hpos : 0 < tablePages p length := Nat.succ_pos _
    have := hfirst'.fits
    omega
  have hlength : tableLength memory p < 2 ^ 32 := ByteMemory.read_lt _ 4
  have hmod : p % pageSize < pageSize := Nat.mod_lt _ (by decide)
  -- what is read through the second mapping
  have hone : tablePages p length = 1 → s' = s := fun h1 => (h1 ▸ hfirst').unique hfirst
  have hagain : readLength memory (mapped w p s' (tablePages p length)) (generalPage s' + p % pageSize) =
      some (if tablePages p length = 1 then length else tableLength memory p) := by
    split
    · rename_i h1
      rw [h1, hone h1]
      exact hread
    · rename_i hne
      refine readLength_mapped memory w s' ?_
      unfold tablePages pageSize at *
      omega
  have hpages : (readLength memory (mapped w p s' (tablePages p length)) (generalPage s' + p % pageSize)).map
      (requiredPages (generalPage s' + p % pageSize)) =
        some (if tablePages p length = 1 then 1 else tablePages p (tableLength memory p)) := by
    rw [hagain, Option.map_some]
    split
    · rename_i h1
      rw [requiredPages_eq hs' (readLength_lt hread), h1]
    · rw [requiredPages_eq hs' hlength]
  unfold RoundTrip
  rw [mapTable_read hfirst hmap hread, hmap']
  constructor
  · rintro ⟨hall, s'', n, hv, hw, hfree, hn, -⟩
    obtain rfl := mapped_count hv hw hfirst'.free hfree
    rw [hpages, Option.some.injEq] at hn
    by_cases h1 : tablePages p length = 1
    · by_cases hleave : p % pageSize + tableLength memory p ≤ pageSize
      · exact .inr ⟨h1, hleave⟩
      · rw [h1, hone h1] at hall
        rw [seen_of_mapped hleave hall] at hread
        exact .inl (congrArg (tablePages p) (Option.some.inj hread).symm)
    · rw [if_neg h1] at hn
      exact .inl hn.symm
  · intro hok
    have hcover : ∀ i, i < tableLength memory p → p % pageSize + i < tablePages p length * pageSize := fun i hi => by
      rcases hok with heq | ⟨h1, hleave⟩
      · rw [heq]
        unfold tablePages pageSize
        omega
      · rw [h1]
        omega
    have hn : (if tablePages p length = 1 then 1 else tablePages p (tableLength memory p)) = tablePages p length := by
      split
      · rename_i h1
        exact h1.symm
      · rename_i hne
        exact (hok.resolve_right fun h => hne h.1).symm
    rw [hn] at hpages
    obtain ⟨seen, hseen, hseen'⟩ := Option.map_eq_some_iff.mp hpages
    refine ⟨fun i hi => translate_mapped (hcover i hi), s', tablePages p length, rfl, rfl, hfirst'.free, hpages, ?_⟩
    unfold unmapTable
    rw [hseen, Option.map_some, hseen', unmap_mapped hfirst'.free]

end

/-- For every window, every physical address, every length in the table's header and every outcome of the mappings: the
round trip succeeds exactly when the length can be found through the first page. -/
theorem mapTable_roundTrip_iff (G : GeneralPages) (memory : ByteMemory) (w : Window) (p : Nat) :
    RoundTrip G memory w p ↔ LengthFound G memory w p := by
  rcases G.map_spec 0 w p 1 Nat.one_pos with hnull | ⟨s, hfirst, hmap⟩
  · refine ⟨fun _ s hmap => ?_, fun _ => ?_⟩
    · rw [hnull] at hmap
      cases (Prod.mk.inj hmap).1
    · unfold RoundTrip mapTable
      rw [hnull]
  · have hcase : LengthFound G memory w p ↔ p % pageSize + 8 ≤ pageSize ∨
        ∃ length, lengthSeen memory w p s = some length ∧
          ((G.mapGeneralPages 1 w p (tablePages p length)).1 = none ∨
            tablePages p length = tablePages p (tableLength memory p) ∨
            (tablePages p length = 1 ∧ p % pageSize + tableLength memory p ≤ pageSize)) := by
      refine ⟨fun h => h s hmap hfirst, fun h s' _ hfirst' => ?_⟩
      rw [← hfirst.unique hfirst']
      exact h
    rw [hcase]
    cases hread : lengthSeen memory w p s with
    | none =>
      -- the field reaches into a page that is not mapped
      have hcross : ¬ p % pageSize + 8 ≤ pageSize := fun hin => by
        have := readLength_mapped (n := 1) memory w s (by rwa [Nat.one_mul])
        unfold lengthSeen at hread
        rw [this] at hread
        cases hread
      have hfault : mapTable G memory w p = none := by
        unfold lengthSeen at hread
        unfold mapTable
        simp only [hmap, hread, Option.map_none]
      unfold RoundTrip
      rw [hfault]
      refine ⟨fun h => h.elim, fun h => ?_⟩
      obtain ⟨length, hlength, -⟩ := h.resolve_left hcross
      cases hlength
    | some length =>
      have hinside : p % pageSize + 8 ≤ pageSize → length = tableLength memory p := fun hin => by
        have := readLength_mapped (n := 1) memory w s (by rwa [Nat.one_mul])
        unfold lengthSeen at hread
        rw [this] at hread
        exact (Option.some.inj hread).symm
      have hpos : 0 < tablePages p length := Nat.succ_pos _
      rcases G.map_spec 1 w p (tablePages p length) hpos with hnull | ⟨s', hfirst', hmap'⟩
      · have htrip : RoundTrip G memory w p := by
          unfold RoundTrip
          rw [mapTable_read hfirst hmap hread, hnull]
        exact ⟨fun _ => .inr ⟨length, rfl, .inl (by rw [hnull])⟩, fun _ => htrip⟩
      · rw [roundTrip_mapped hfirst hmap hread hfirst' hmap']
        constructor
        · intro hok
          exact .inr ⟨length, rfl, .inr hok⟩
        · rintro (hin | ⟨length', hlength', hok⟩)
          · rw [hinside hin]
            exact .inl rfl
          · obtain rfl := Option.some.inj hlength'
            refine hok.resolve_left fun hnull => ?_
            rw [hmap'] at hnull
            cases hnull

/-! ## A window -/

/-- The scan for the first run, with the page it is at. -/
def scan (w : Window) (n : Nat) : Nat → Nat → Option Nat
  | 0, _ => none
  | left + 1, s => if s + n ≤ gpPages ∧ ∀ j, j < n → w (s + j) = none then some s else scan w n left (s + 1)

theorem scan_first (w : Window) (n : Nat) : ∀ (left s : Nat), (∀ s', s' < s → s' + n ≤ gpPages →
    ∃ j, j < n ∧ w (s' + j) ≠ none) → ∀ r, scan w n left s = some r → First w n r
  | 0, _, _, _, h => by cases h
  | left + 1, s, hbefore, r, h => by
    rw [scan] at h
    split at h
    · rename_i hrun
      obtain rfl := Option.some.inj h
      exact ⟨hrun.1, hrun.2, fun s' hlt => hbefore s' hlt (by omega)⟩
    · rename_i hrun
      refine scan_first w n left (s + 1) (fun s' hlt hfits => ?_) r h
      by_cases heq : s' = s
      · rw [heq] at hfits ⊢
        exact Classical.byContradiction fun hall => hrun ⟨hfits, fun j hj =>
          Classical.byContradiction fun hne => hall ⟨j, hj, hne⟩⟩
      · exact hbefore s' (by omega) hfits

theorem generalPage_index (s : Nat) {o : Nat} (ho : o < pageSize) :
    (generalPage s + o - generalMapping.start) / pageSize = s := by
  unfold generalPage pageSize at *
  omega

/-- A window whose tables can always be allocated. -/
def scannedPages : GeneralPages where
  mapGeneralPages _ w p n :=
    match scan w n gpPages 0 with
    | none => (none, w)
    | some s => (some (generalPage s + p % pageSize), mapped w p s n)
  unmapGeneralPages w address n := (true, cleared w ((address - generalMapping.start) / pageSize) n)
  map_spec _ w p n _ := by
    cases hscan : scan w n gpPages 0 with
    | none => exact .inl rfl
    | some s => exact .inr ⟨s, scan_first w n gpPages 0 (fun s' hlt => absurd hlt (Nat.not_lt_zero _)) s hscan, rfl⟩
  unmap_spec w s o n ho _ := by
    rw [generalPage_index s ho]

/-- A table whose header begins four bytes before the end of a page: its length is in the page behind, which is not
mapped, and `MapTable` faults. -/
theorem header_across_pages : mapTable scannedPages (fun _ => 0) (fun _ => none) 0xFFC = none ∧
    ¬ RoundTrip scannedPages (fun _ => 0) (fun _ => none) 0xFFC := by
  have hfault : mapTable scannedPages (fun _ => 0) (fun _ => none) 0xFFC = none := by
    rw [← Option.isNone_iff_eq_none]
    decide +kernel
  refine ⟨hfault, fun h => ?_⟩
  unfold RoundTrip at h
  rw [hfault] at h
  exact h

/-! ## The code of the window -/

/-- The window as the page tables have it. -/
def windowOf (m : PhysMem) (root : Nat) : Window := fun i => translation m root (generalPage i)

/-- `MapGeneralPages` and a following `UnmapGeneralPages` do what `GeneralPages` asks, for runs of frames that the
processor implements. -/
theorem mapGeneralPages_asSpecified (m : PhysMem) (root maxPhyAddr pages : Nat) (pageAddress flags : Entry)
    (allocs : Nat → Option Entry × Option Entry) (hm : GeneralReady m root maxPhyAddr allocs) (hmax : maxPhyAddr ≤ 52)
    (hflags : flags &&& entryAddress = 0#64) (hpages : 0 < pages)
    (hp : pageAddress.toNat + pages * pageSize ≤ 2 ^ maxPhyAddr) :
    ∃ r m', mapGeneralPages m root maxPhyAddr pageAddress pages flags allocs = some (r, m') ∧
      ((r = none ∧ ∀ i, i < gpPages → windowOf m' root i = windowOf m root i) ∨
      ∃ s, First (windowOf m root) pages s ∧ r = some (generalPage s + pageAddress.toNat % pageSize) ∧
        (∀ i, i < gpPages → windowOf m' root i = mapped (windowOf m root) pageAddress.toNat s pages i) ∧
        ∃ m'', unmapGeneralPages m' root (generalPage s + pageAddress.toNat % pageSize) pages = some (true, m'') ∧
          ∀ i, i < gpPages → windowOf m'' root i = windowOf m root i) := by
  obtain ⟨r, m', hrun, hout⟩ := mapGeneralPages_spec pageAddress hm hflags hpages
  refine ⟨r, m', hrun, ?_⟩
  have hmapped := hout.runMapped hmax
  cases r with
  | none => exact .inl ⟨rfl, fun i hi => hmapped _ (generalPage_outside hi)⟩
  | some v =>
    obtain ⟨s, hs, rfl, hpage, hothers, m'', hunmap, hback⟩ := hmapped
    refine .inr ⟨s, ⟨hs.fits, hs.unmapped, hs.first⟩, rfl, fun i hi => ?_, m'', hunmap,
      fun i hi => hback _ (generalPage_outside hi)⟩
    have hi_eq := generalPage_eq i
    have hs_eq := generalPage_eq s
    unfold windowOf mapped
    split
    · rename_i hin
      obtain ⟨k, rfl⟩ : ∃ k, i = s + k := ⟨i - s, by omega⟩
      have hk := hpage k 0 (by omega) (by decide)
      have hlt : pageAddress.toNat + k * 4096 < 2 ^ maxPhyAddr := by
        have := Nat.mul_le_mul_right 4096 (show k + 1 ≤ pages by omega)
        unfold pageSize at hp
        omega
      have hframe : (pageAddress.toNat + k * 4096) / 4096 * 4096 + 0 =
          pageAddress.toNat / 4096 * 4096 + (s + k - s) * 4096 := by omega
      rw [Nat.mod_eq_of_lt hlt, hframe, show generalPage s + k * 4096 + 0 = generalPage (s + k) by omega] at hk
      exact hk
    · refine hothers _ (generalPage_outside hi) ?_
      omega

end BadLands.Acpi.TableMapping
