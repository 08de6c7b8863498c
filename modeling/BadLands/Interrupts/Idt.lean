import BadLands.Core.Bitmap
import BadLands.Core.Machine

/-!
# Interrupt vectors

`int_usage_map` is a set of 256 interrupt vectors in four 64-bit words. The source builds the mask of
a vector as `1 << (i % 64)`, where `1` is an `int`: the shift is one of 32 bits, its result is sign
extended to the word. So the mask of vector 31 has bits 31 to 63, and a shift by 32 or more has no
value that C++ defines (`excess` stands for whatever it is).

The functions are over any mask. With the 64-bit mask the map is the set of the reserved vectors along
every run (`ownership_wide`). With the mask of the source it is not even after `kernel_idt_setup`, which
reserves vector 31 and so marks all of 31 to 63 (`ownership_fails`).
-/
namespace BadLands.Interrupts.Idt

open BadLands.Core BadLands.Core.Machine

/-- mirrors kernel/src/interrupts/IDT.cpp:67-68 -/
structure Tables where
  intUsageMap : Bitmap
  providers : Nat → Option Nat

def vectors : Nat := 0x100

def softwareYieldIrq : Nat := 0x21

/-- `1 << (i % 64)`, as the word that `|=` and `&` get.
mirrors kernel/src/interrupts/IDT.cpp:126,132,143 -/
def intMask (excess : Nat → BitVec 32) (i : Nat) : BitVec 64 :=
  (if i % 64 < 32 then 1#32 <<< (i % 64) else excess (i % 64)).signExtend 64

section
variable (mask : Nat → BitVec 64)

/-- mirrors kernel/src/interrupts/IDT.cpp:124-128 -/
def reserveKnownInterrupt (idt : Tables) (i : Nat) : Tables :=
  if i < vectors then
    { idt with intUsageMap := idt.intUsageMap.setWord (i / 64) (idt.intUsageMap (i / 64) ||| mask i) }
  else idt

/-- `none` for -1.
mirrors kernel/src/interrupts/IDT.cpp:130-139 -/
def reserveInterrupt (idt : Tables) : Option Nat × Tables :=
  match (List.range vectors).find? fun i => idt.intUsageMap (i / 64) &&& mask i == 0#64 with
  | some i => (some i, reserveKnownInterrupt mask idt i)
  | none => (none, idt)

/-- mirrors kernel/src/interrupts/IDT.cpp:141-146 -/
def releaseInterrupt (idt : Tables) (i : Nat) : Tables :=
  if i < vectors then
    { intUsageMap := idt.intUsageMap.setWord (i / 64) (idt.intUsageMap (i / 64) &&& ~~~mask i)
      providers := fun k => if k = i then none else idt.providers k }
  else idt

/-- mirrors kernel/src/interrupts/IDT.cpp:118-122 -/
def registerProvider (idt : Tables) (i provider : Nat) : Tables :=
  if i < vectors then { idt with providers := fun k => if k = i then some provider else idt.providers k } else idt

/-- mirrors kernel/src/interrupts/IDT.cpp:213-216 -/
def registerIRQ (idt : Tables) (interruptVector provider : Nat) : Tables :=
  registerProvider (reserveKnownInterrupt mask idt interruptVector) interruptVector provider

/-- `pageFault`: the provider of vector 14.
mirrors kernel/src/interrupts/IDT.cpp:149-191 -/
def kernelIdtSetup (pageFault : Nat) : Tables :=
  let idt := registerProvider ⟨fun _ => 0#64, fun _ => none⟩ 14 pageFault
  reserveKnownInterrupt mask ((List.range 0x20).foldl (reserveKnownInterrupt mask) idt) softwareYieldIrq

/-! ## Runs -/

inductive Call where
  | registerIRQ (interruptVector provider : Nat)
  | reserveInterrupt
  | releaseInterrupt (i : Nat)
  deriving DecidableEq, Repr

/-- The tables, and which vectors are reserved. -/
structure Sys where
  idt : Tables
  reserved : List Nat

def setup (pageFault : Nat) : Sys := ⟨kernelIdtSetup mask pageFault, softwareYieldIrq :: List.range 0x20⟩

/-- Vectors are below 256. -/
def step (s : Sys) : Call → Option Sys
  | .registerIRQ i provider => if i < vectors then some ⟨registerIRQ mask s.idt i provider, i :: s.reserved⟩ else none
  | .reserveInterrupt =>
    let (i, idt) := reserveInterrupt mask s.idt
    some ⟨idt, i.toList ++ s.reserved⟩
  | .releaseInterrupt i =>
    if i < vectors then some ⟨releaseInterrupt mask s.idt i, s.reserved.filter (· ≠ i)⟩ else none

/-- The map is the set of the reserved vectors. -/
def Encodes (s : Sys) : Prop := ∀ i, i < vectors → (s.idt.intUsageMap.test i = true ↔ i ∈ s.reserved)

/-- The smallest vector that is not reserved, and only that one is marked; -1 when there is none. -/
def ReservesSmallest (s : Sys) : Call → Prop
  | .reserveInterrupt =>
    match reserveInterrupt mask s.idt with
    | (some i, idt) => i < vectors ∧ i ∉ s.reserved ∧ (∀ k, k < i → k ∈ s.reserved) ∧
        ∀ k, idt.intUsageMap.test k = (decide (k = i) || s.idt.intUsageMap.test k)
    | (none, _) => ∀ i, i < vectors → i ∈ s.reserved
  | _ => True

/-- What the map is for, along a run. -/
def Owns (pageFault : Nat) (calls : List Call) : Prop :=
  AllStates (step mask) Encodes (setup mask pageFault) calls ∧
    AllSteps (step mask) (ReservesSmallest mask) (setup mask pageFault) calls

end

/-! ## One vector -/

section
variable {mask : Nat → BitVec 64} {idt : Tables} {s s' : Sys} {c : Call}

theorem test_setWord_or (m : Bitmap) (i k : Nat) (v : BitVec 64) : (m.setWord (i / 64) (m (i / 64) ||| v)).test k =
    (decide (k / 64 = i / 64) && v.getLsbD (k % 64) || m.test k) := by
  rw [Bitmap.test_eq, Bitmap.test_eq, Bitmap.setWord]
  by_cases h : k / 64 = i / 64
  · simp [h, Bool.or_comm]
  · simp [h]

theorem test_reserveKnownInterrupt {i : Nat} (hi : i < vectors) (k : Nat) :
    (reserveKnownInterrupt mask idt i).intUsageMap.test k =
      (decide (k / 64 = i / 64) && (mask i).getLsbD (k % 64) || idt.intUsageMap.test k) := by
  unfold reserveKnownInterrupt
  rw [if_pos hi]
  exact test_setWord_or _ _ _ _

/-- A loop that reserves a list of vectors marks the bits of all their masks. -/
theorem test_reserveAll (k : Nat) : ∀ (l : List Nat) (idt : Tables), (∀ i ∈ l, i < vectors) →
    ((l.foldl (reserveKnownInterrupt mask) idt).intUsageMap.test k = true ↔
      (∃ i ∈ l, k / 64 = i / 64 ∧ (mask i).getLsbD (k % 64) = true) ∨ idt.intUsageMap.test k = true)
  | [], idt, _ => by simp
  | i :: l, idt, h => by
    have ih := test_reserveAll k l (reserveKnownInterrupt mask idt i) fun j hj => h j (List.mem_cons_of_mem _ hj)
    rw [List.foldl_cons, ih, test_reserveKnownInterrupt (h i List.mem_cons_self)]
    simp only [Bool.or_eq_true, Bool.and_eq_true, decide_eq_true_eq, List.mem_cons, exists_eq_or_imp]
    exact or_left_comm.trans or_assoc.symm

/-- The vectors of `kernel_idt_setup`. -/
theorem test_kernelIdtSetup (pageFault k : Nat) : (kernelIdtSetup mask pageFault).intUsageMap.test k = true ↔
    ∃ i, (i = softwareYieldIrq ∨ i < 0x20) ∧ k / 64 = i / 64 ∧ (mask i).getLsbD (k % 64) = true := by
  have hempty : (registerProvider ⟨fun _ => 0#64, fun _ => none⟩ 14 pageFault).intUsageMap.test k = false := by
    rw [Bitmap.test_eq]
    simp [registerProvider, vectors]
  have hrange : ∀ i ∈ List.range 0x20, i < vectors := fun i hi => by
    have := List.mem_range.mp hi
    unfold vectors
    omega
  unfold kernelIdtSetup
  rw [test_reserveKnownInterrupt (show softwareYieldIrq < vectors by simp [softwareYieldIrq, vectors])]
  simp only [Bool.or_eq_true, Bool.and_eq_true, decide_eq_true_eq]
  rw [test_reserveAll k _ _ hrange, hempty]
  simp only [List.mem_range, Bool.false_eq_true, or_false]
  constructor
  · intro h
    cases h with
    | inl h => exact ⟨_, .inl rfl, h⟩
    | inr h =>
      obtain ⟨i, hi, h⟩ := h
      exact ⟨i, .inr hi, h⟩
  · intro ⟨i, hi, h⟩
    cases hi with
    | inl hi => exact .inl (hi ▸ h)
    | inr hi => exact .inr ⟨i, hi, h⟩

/-! ## The mask of one 64-bit bit -/

theorem mask_bit (i k : Nat) : (k / 64 = i / 64 ∧ (Bitmap.mask i).getLsbD (k % 64) = true) ↔ k = i := by
  rw [Bitmap.getLsbD_mask, decide_eq_true_eq]
  omega

theorem encodes_setup (pageFault : Nat) : Encodes (setup Bitmap.mask pageFault) := by
  intro k _
  unfold setup
  rw [test_kernelIdtSetup]
  simp only [mask_bit, List.mem_cons, List.mem_range]
  constructor
  · intro ⟨i, hi, hk⟩
    rwa [hk]
  · intro hk
    exact ⟨k, hk, rfl⟩

theorem test_reserved {i : Nat} (hi : i < vectors) (k : Nat) :
    (reserveKnownInterrupt Bitmap.mask idt i).intUsageMap.test k = (decide (k = i) || idt.intUsageMap.test k) := by
  rw [test_reserveKnownInterrupt hi, Bool.eq_iff_iff]
  simp only [Bool.or_eq_true, Bool.and_eq_true, decide_eq_true_eq, mask_bit]

/-- The test of the loop is the one of the bit. -/
theorem unmarked_iff (i : Nat) : (idt.intUsageMap (i / 64) &&& Bitmap.mask i == 0#64) = !idt.intUsageMap.test i := by
  unfold Bitmap.test
  simp [bne]

theorem reserveInterrupt_cases (idt : Tables) :
    (∃ i, reserveInterrupt Bitmap.mask idt = (some i, reserveKnownInterrupt Bitmap.mask idt i) ∧ i < vectors ∧
      idt.intUsageMap.test i = false ∧ ∀ k, k < i → idt.intUsageMap.test k = true) ∨
    (reserveInterrupt Bitmap.mask idt = (none, idt) ∧ ∀ k, k < vectors → idt.intUsageMap.test k = true) := by
  unfold reserveInterrupt
  simp only [unmarked_iff]
  cases hfind : (List.range vectors).find? fun i => !idt.intUsageMap.test i with
  | none =>
    refine .inr ⟨rfl, fun k hk => ?_⟩
    simpa using List.find?_eq_none.mp hfind k (List.mem_range.mpr hk)
  | some i =>
    rw [List.find?_range_eq_some] at hfind
    obtain ⟨hmarked, hi, hbefore⟩ := hfind
    refine .inl ⟨i, rfl, List.mem_range.mp hi, by simpa using hmarked, fun k hk => ?_⟩
    simpa using hbefore k hk

theorem encodes_step (h : Encodes s) (hs : step Bitmap.mask s c = some s') : Encodes s' := by
  cases c with
  | registerIRQ i provider =>
    rw [step] at hs
    split at hs
    · rename_i hi
      cases hs
      intro k hk
      have hmap : (registerIRQ Bitmap.mask s.idt i provider).intUsageMap =
          (reserveKnownInterrupt Bitmap.mask s.idt i).intUsageMap := by
        unfold registerIRQ registerProvider
        rw [if_pos hi]
      dsimp only
      rw [hmap, test_reserved hi]
      simp [h k hk]
    · cases hs
  | reserveInterrupt =>
    rw [step] at hs
    obtain ⟨i, hreserve, hi, -, -⟩ | ⟨hreserve, -⟩ := reserveInterrupt_cases s.idt
    · rw [hreserve] at hs
      cases hs
      intro k hk
      dsimp only
      rw [test_reserved hi]
      simp [h k hk]
    · rw [hreserve] at hs
      cases hs
      exact h
  | releaseInterrupt i =>
    rw [step] at hs
    split at hs
    · rename_i hi
      cases hs
      intro k hk
      have hmap : (releaseInterrupt Bitmap.mask s.idt i).intUsageMap = s.idt.intUsageMap.clear i := by
        unfold releaseInterrupt
        rw [if_pos hi]
        rfl
      dsimp only
      rw [hmap, Bitmap.test_clear]
      simp [h k hk, and_comm]
    · cases hs

theorem reservesSmallest_of_encodes (h : Encodes s) : ReservesSmallest Bitmap.mask s c := by
  cases c with
  | registerIRQ i provider => trivial
  | releaseInterrupt i => trivial
  | reserveInterrupt =>
    unfold ReservesSmallest
    obtain ⟨i, hreserve, hi, hfree, hbefore⟩ | ⟨hreserve, hall⟩ := reserveInterrupt_cases s.idt
    · rw [hreserve]
      refine ⟨hi, fun hmem => ?_, fun k hk => ?_, test_reserved hi⟩
      · rw [(h i hi).mpr hmem] at hfree
        cases hfree
      · exact (h k (by omega)).mp (hbefore k hk)
    · rw [hreserve]
      exact fun i hi => (h i hi).mp (hall i hi)

theorem allSteps_of_encodes : ∀ (calls : List Call) (s : Sys), Encodes s →
    AllSteps (step Bitmap.mask) (ReservesSmallest Bitmap.mask) s calls
  | [], _, _ => trivial
  | _ :: calls, _, h => fun s' hs => ⟨reservesSmallest_of_encodes h, allSteps_of_encodes calls s' (encodes_step h hs)⟩

/-- With a 64-bit operand the map is what it is for, in every run. -/
theorem ownership_wide (pageFault : Nat) (calls : List Call) : Owns Bitmap.mask pageFault calls :=
  ⟨allStates_of_inv (fun _ _ _ h hs => encodes_step h hs) calls _ (encodes_setup pageFault),
    allSteps_of_encodes calls _ (encodes_setup pageFault)⟩

/-! ## The mask of the source -/

theorem intMask_low (excess : Nat → BitVec 32) {i : Nat} (hi : i < 31) : intMask excess i = Bitmap.mask i := by
  unfold intMask
  have hbits : ∀ j : Fin 31, (1#32 <<< j.val).signExtend 64 = 1#64 <<< j.val := by decide
  rw [Bitmap.mask, Nat.mod_eq_of_lt (show i < 64 by omega), if_pos (show i < 32 by omega)]
  exact hbits ⟨i, hi⟩

theorem intMask_31 (excess : Nat → BitVec 32) : intMask excess 31 = 0xFFFFFFFF80000000#64 := by
  unfold intMask
  rw [if_pos (by decide)]
  decide

/-- After `kernel_idt_setup` the vectors below 64 are marked, whatever the shift by 33 is. -/
theorem setup_marks (excess : Nat → BitVec 32) (pageFault k : Nat) :
    (kernelIdtSetup (intMask excess) pageFault).intUsageMap.test k = true ↔ k < 64 := by
  rw [test_kernelIdtSetup]
  constructor
  · intro ⟨i, hi, hk, _⟩
    unfold softwareYieldIrq at hi
    omega
  · intro hk
    by_cases hlow : k < 31
    · refine ⟨k, .inr (by omega), rfl, ?_⟩
      rw [intMask_low excess hlow, Bitmap.getLsbD_mask]
      simp
    · refine ⟨31, .inr (by omega), by omega, ?_⟩
      rw [intMask_31, Nat.mod_eq_of_lt hk]
      have hhigh : ∀ j : Fin 64, 31 ≤ j.val → (0xFFFFFFFF80000000#64).getLsbD j.val = true := by decide
      exact hhigh ⟨k, hk⟩ (show 31 ≤ k by omega)

/-- In no run is the map the set of the reserved vectors: it starts with 64 of them marked, of which
33 are reserved. -/
theorem ownership_fails (excess : Nat → BitVec 32) (pageFault : Nat) (calls : List Call) :
    ¬ Owns (intMask excess) pageFault calls := by
  intro ⟨hencodes, _⟩
  have h := hencodes.here 32 (by simp [vectors])
  have hmem := h.mp ((setup_marks excess pageFault 32).mpr (by omega))
  simp [setup, softwareYieldIrq] at hmem

end

/-- The shift of the processor, which takes the count modulo 32. -/
def processorShift (k : Nat) : BitVec 32 := 1#32 <<< (k % 32)

/-- The first vector that is reserved after the setup is 64, and vectors from 32 on are not reserved. -/
theorem first_reserved_64 :
    (reserveInterrupt (intMask processorShift) (kernelIdtSetup (intMask processorShift) 0)).1 = some 64 ∧
      32 ∉ (setup (intMask processorShift) 0).reserved ∧ ¬ Owns (intMask processorShift) 0 [.reserveInterrupt] := by
  refine ⟨by decide +kernel, by decide, fun h => ?_⟩
  have hfirst := (h.2 _ rfl).1
  unfold ReservesSmallest at hfirst
  have hreserve : (reserveInterrupt (intMask processorShift) (kernelIdtSetup (intMask processorShift) 0)).1 = some 64 := by
    decide +kernel
  revert hfirst
  cases hr : reserveInterrupt (intMask processorShift) (setup (intMask processorShift) 0).idt with
  | mk i idt =>
    have hi : i = some 64 := by
      rw [← hreserve]
      exact (congrArg Prod.fst hr).symm
    subst hi
    intro ⟨_, _, hbefore, _⟩
    exact absurd (hbefore 32 (by omega)) (by decide)

end BadLands.Interrupts.Idt
