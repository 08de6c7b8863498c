import BadLands.Core.ByteMemory
import Mathlib.Logic.Function.Iterate

/-!
# The MADT

`APIC::Initialize` walks the entries of the table twice: it counts the local APICs, allocates as many
processors, and interprets the entries. Offsets are from the beginning of the table, and every turn is
given with the bytes that it reads.

* `right_counting`, `right_interpreting`: each pass against the list of the entries.
* `initialize_iff`: exactly when the interpretation is right.
-/
namespace BadLands.Interrupts.Madt

open BadLands.Core

/-! ## The table -/

/-- mirrors kernel/include/acpi/madt.hpp:22-63 -/
def sizeofMADT : Nat := 44

def LocalAPIC._Type : BitVec 8 := 0x00
def IOAPIC._Type : BitVec 8 := 0x01
def InterruptSourceOverride._Type : BitVec 8 := 0x02
def APICOverride._Type : BitVec 8 := 0x05

def headerLength (table : ByteMemory) : Nat := table.read 4 4

def LocalInterruptControlAddress (table : ByteMemory) : Nat := table.read 36 4

/-- The field of an override entry, which the code does not read. -/
def LocalApicAddress (table : ByteMemory) (entry : Nat) : Nat := table.read (entry + 4) 8

/-! ## The code -/

/-- What the constructor of a processor is given. -/
structure Processor where
  apic_id : BitVec 8
  apic_uid : BitVec 8
  enabled : Bool
  online_capable : Bool
  deriving DecidableEq, Repr

def APIC_ONLINE : Nat := 0

def APIC_CAPABLE : Nat := 1

/-- mirrors kernel/src/interrupts/APIC.cpp:508-527 -/
def processor (table : ByteMemory) (entry : Nat) : Processor :=
  let flags := table.read (entry + 4) 4
  ⟨table (entry + 3), table (entry + 2), flags.testBit APIC_ONLINE, flags.testBit APIC_CAPABLE⟩

/-- Which calls succeed: the allocation of the processors, and what the entry at an offset needs. -/
structure Calls where
  allocates : Bool
  accepts : Nat → Bool

inductive State
  | begin
  | counting (type lapic_count : Nat)
  | counted (lapic_count : Nat)
  | interpreting (type processor_count : Nat) (processors : List Processor) (PhysicalLocalAPIC : Nat)
  | initialized (processor_count : Nat) (processors : List Processor) (PhysicalLocalAPIC : Nat)
  | illegalAllocation
  | shutdown

/-- A turn. The table is mapped at `madt`.

mirrors kernel/src/interrupts/APIC.cpp:451-613, kernel/src/sched/Self.cpp:197-212 -/
def step (table : ByteMemory) (madt : Nat) (calls : Calls) : State → State
  | .begin => .counting sizeofMADT 0
  | .counting type lapic_count =>
    if type < headerLength table then
      if table type = LocalAPIC._Type then .counting (type + (table (type + 1)).toNat) (lapic_count + 1)
      else .counting (type + (table (type + 1)).toNat) lapic_count
    else .counted lapic_count
  | .counted lapic_count =>
    if calls.allocates ∧ 0 < lapic_count then
      .interpreting sizeofMADT lapic_count [] (LocalInterruptControlAddress table)
    else .shutdown
  | .interpreting type processor_count processors PhysicalLocalAPIC =>
    if type < headerLength table then
      let next := type + (table (type + 1)).toNat
      if table type = LocalAPIC._Type then
        if ¬ calls.accepts type then .shutdown
        else if processor_count ≤ processors.length then .illegalAllocation
        else .interpreting next processor_count (processors ++ [processor table type]) PhysicalLocalAPIC
      else if table type = IOAPIC._Type then
        if ¬ calls.accepts type then .shutdown else .interpreting next processor_count processors PhysicalLocalAPIC
      else if table type = APICOverride._Type then .interpreting next processor_count processors (madt + type)
      else .interpreting next processor_count processors PhysicalLocalAPIC
    else .initialized processor_count processors PhysicalLocalAPIC
  | s => s

/-- The bytes of an entry that the second pass looks at. -/
def entrySize (table : ByteMemory) (entry : Nat) : Nat :=
  if table entry = LocalAPIC._Type then 8
  else if table entry = IOAPIC._Type ∨ table entry = InterruptSourceOverride._Type then 12
  else 2

/-- The bytes that the turn reads, as an offset and a number. -/
def reads (table : ByteMemory) : State → List (Nat × Nat)
  | .begin => [(36, 4), (40, 4)]
  | .counting type _ => (4, 4) :: if type < headerLength table then [(type, 2)] else []
  | .interpreting type _ _ _ => (4, 4) :: if type < headerLength table then [(type, entrySize table type)] else []
  | _ => []

/-! ## The property -/

/-- The entries, one behind the other; no more than `fuel`. -/
def entries (table : ByteMemory) : Nat → Nat → List Nat
  | 0, _ => []
  | fuel + 1, entry =>
    if entry < headerLength table then entry :: entries table fuel (entry + (table (entry + 1)).toNat) else []

def allEntries (table : ByteMemory) : List Nat := entries table (headerLength table) sizeofMADT

def lapics (table : ByteMemory) (l : List Nat) : List Nat := l.filter (table · = LocalAPIC._Type)

def lastOverride (table : ByteMemory) (l : List Nat) : Option Nat := (l.filter (table · = APICOverride._Type)).getLast?

/-- The address in the last override entry, or that of the header. -/
def localApicAddress (table : ByteMemory) : Nat :=
  ((lastOverride table (allEntries table)).map (LocalApicAddress table)).getD (LocalInterruptControlAddress table)

/-- As many processors as were counted, and the address; or the system has been shut down. -/
def Good (table : ByteMemory) : State → Prop
  | .initialized processor_count processors PhysicalLocalAPIC =>
    processor_count = (lapics table (allEntries table)).length ∧ processors.length = processor_count ∧
      PhysicalLocalAPIC = localApicAddress table
  | .shutdown => True
  | _ => False

def Inside (table : ByteMemory) (s : State) : Prop := ∀ r ∈ reads table s, r.1 + r.2 ≤ headerLength table

/-- From this state on. -/
def Right (table : ByteMemory) (madt : Nat) (calls : Calls) (s : State) : Prop :=
  (∀ n, Inside table ((step table madt calls)^[n] s)) ∧ ∃ n, Good table ((step table madt calls)^[n] s)

/-- The entries up to the first one for which a call fails. -/
def reached (table : ByteMemory) (calls : Calls) : List Nat → List Nat
  | [] => []
  | e :: l =>
    e :: if (table e = LocalAPIC._Type ∨ table e = IOAPIC._Type) ∧ calls.accepts e = false then [] else reached table calls l

/-- No call fails for any of the entries. -/
def Accepted (table : ByteMemory) (calls : Calls) (l : List Nat) : Prop :=
  ∀ e ∈ l, table e = LocalAPIC._Type ∨ table e = IOAPIC._Type → calls.accepts e = true

/-- The bytes of the entries that are interpreted are in the table; and if all are, the mapped address of the last
override entry is the address in it. -/
def Interpretable (table : ByteMemory) (madt : Nat) (calls : Calls) : Prop :=
  (∀ e ∈ reached table calls (allEntries table), e + entrySize table e ≤ headerLength table) ∧
    (Accepted table calls (allEntries table) →
      ∀ e, lastOverride table (allEntries table) = some e → madt + e = LocalApicAddress table e)

/-- The table holds its header; entries have a length, and their first two bytes are in the table; and they can be
interpreted, when there are processors for them. -/
def WellFormed (table : ByteMemory) (madt : Nat) (calls : Calls) : Prop :=
  sizeofMADT ≤ headerLength table ∧
    (∀ e ∈ allEntries table, table (e + 1) ≠ 0 ∧ e + 2 ≤ headerLength table) ∧
    (calls.allocates → lapics table (allEntries table) ≠ [] → Interpretable table madt calls)

/-! ## A turn and the rest -/

section
variable {table : ByteMemory} {madt : Nat} {calls : Calls} {s : State}

theorem right_step (h : ¬ Good table s) :
    Right table madt calls s ↔ Inside table s ∧ Right table madt calls (step table madt calls s) := by
  constructor
  · rintro ⟨hinside, n, hn⟩
    refine ⟨hinside 0, fun n => hinside (n + 1), ?_⟩
    cases n with
    | zero => exact absurd hn h
    | succ n => exact ⟨n, hn⟩
  · rintro ⟨hfirst, hinside, n, hn⟩
    refine ⟨fun n => ?_, n + 1, hn⟩
    cases n with
    | zero => exact hfirst
    | succ n => exact hinside n

/-- An entry without a length is counted forever. -/
theorem counting_stuck {type : Nat} (hlt : type < headerLength table) (hzero : table (type + 1) = 0) (c : Nat) :
    ¬ Right table madt calls (.counting type c) := by
  rintro ⟨-, n, hn⟩
  have hstays : ∀ n c, ∃ c', (step table madt calls)^[n] (.counting type c) = .counting type c' := by
    intro n
    induction n with
    | zero => exact fun c => ⟨c, rfl⟩
    | succ n ih =>
      intro c
      obtain ⟨c', hstep⟩ : ∃ c', step table madt calls (.counting type c) = .counting type c' := by
        rw [step, if_pos hlt, hzero]
        split
        · exact ⟨c + 1, rfl⟩
        · exact ⟨c, rfl⟩
      rw [Function.iterate_succ_apply, hstep]
      exact ih c'
  obtain ⟨c', hc'⟩ := hstays n c
  rw [hc'] at hn
  exact hn

/-! ## The passes -/

theorem entries_done {type : Nat} (hge : headerLength table ≤ type) (fuel : Nat) : entries table fuel type = [] := by
  cases fuel with
  | zero => rfl
  | succ fuel => exact if_neg (Nat.not_lt.mpr hge)

/-- The first pass, from an entry on. -/
theorem right_counting (hheader : sizeofMADT ≤ headerLength table) : ∀ (fuel type c : Nat), headerLength table ≤ type + fuel →
    (Right table madt calls (.counting type c) ↔
      (∀ e ∈ entries table fuel type, table (e + 1) ≠ 0 ∧ e + 2 ≤ headerLength table) ∧
        Right table madt calls (.counted (c + (lapics table (entries table fuel type)).length)))
  | fuel, type, c, hfuel => by
    have hlength : 4 + 4 ≤ headerLength table := Nat.le_trans (by decide) hheader
    rcases Nat.lt_or_ge type (headerLength table) with hlt | hge
    · obtain ⟨fuel, rfl⟩ : ∃ n, fuel = n + 1 := ⟨fuel - 1, by omega⟩
      have hinside : Inside table (.counting type c) ↔ type + 2 ≤ headerLength table := by
        unfold Inside
        rw [reads, if_pos hlt]
        simp [hlength]
      rw [entries, if_pos hlt, List.forall_mem_cons]
      by_cases hzero : table (type + 1) = 0
      · exact ⟨fun h => absurd h (counting_stuck hlt hzero c), fun h => absurd hzero h.1.1.1⟩
      · have hnext : headerLength table ≤ type + (table (type + 1)).toNat + fuel := by
          have : (table (type + 1)).toNat ≠ 0 := fun h => hzero (BitVec.eq_of_toNat_eq h)
          omega
        rw [right_step (show ¬ Good table (.counting type c) from id), hinside, step, if_pos hlt]
        split
        · next hlapic =>
          rw [right_counting hheader fuel _ _ hnext, lapics, lapics, List.filter_cons_of_pos (by simpa using hlapic),
            List.length_cons, Nat.add_assoc, Nat.add_comm 1]
          simp only [ne_eq, hzero, not_false_eq_true, true_and, and_assoc]
        · next hother =>
          rw [right_counting hheader fuel _ _ hnext, lapics, lapics, List.filter_cons_of_neg (by simpa using hother)]
          simp only [ne_eq, hzero, not_false_eq_true, true_and, and_assoc]
    · have hinside : Inside table (.counting type c) := by
        unfold Inside
        rw [reads, if_neg (Nat.not_lt.mpr hge)]
        simp [hlength]
      rw [entries_done hge, right_step (show ¬ Good table (.counting type c) from id), step, if_neg (Nat.not_lt.mpr hge)]
      simp only [hinside, List.not_mem_nil, false_imp_iff, implies_true, true_and]
      rfl

/-- A state that does not change and reads nothing. -/
theorem right_end (hstep : step table madt calls s = s) (hreads : reads table s = []) :
    Right table madt calls s ↔ Good table s := by
  have hstays : ∀ n, (step table madt calls)^[n] s = s := fun n => Function.iterate_fixed hstep n
  unfold Right
  simp only [hstays]
  constructor
  · rintro ⟨-, n, h⟩
    exact h
  · intro h
    refine ⟨fun _ r hr => ?_, 0, h⟩
    rw [hreads] at hr
    cases hr

variable {type count address : Nat} {processors : List Processor}

theorem step_refused (hlt : type < headerLength table) (hentry : table type = LocalAPIC._Type ∨ table type = IOAPIC._Type)
    (hrefused : calls.accepts type = false) :
    step table madt calls (.interpreting type count processors address) = .shutdown := by
  rw [step, if_pos hlt]
  dsimp only
  rw [hrefused]
  rcases hentry with h | h <;> rw [h] <;> rfl

theorem step_interpreted (hlt : type < headerLength table)
    (haccepted : table type = LocalAPIC._Type ∨ table type = IOAPIC._Type → calls.accepts type = true)
    (hroom : table type = LocalAPIC._Type → processors.length < count) :
    step table madt calls (.interpreting type count processors address) =
      .interpreting (type + (table (type + 1)).toNat) count
        (processors ++ if table type = LocalAPIC._Type then [processor table type] else [])
        (if table type = APICOverride._Type then madt + type else address) := by
  rw [step, if_pos hlt]
  dsimp only
  by_cases hlapic : table type = LocalAPIC._Type
  · rw [if_pos hlapic, if_neg (by rw [haccepted (.inl hlapic)]; decide), if_neg (Nat.not_le.mpr (hroom hlapic)),
      if_pos hlapic, if_neg (by rw [hlapic]; decide)]
  · rw [if_neg hlapic, if_neg hlapic, List.append_nil]
    by_cases hioapic : table type = IOAPIC._Type
    · rw [if_pos hioapic, if_neg (by rw [haccepted (.inr hioapic)]; decide), if_neg (by rw [hioapic]; decide)]
    · rw [if_neg hioapic]
      split <;> rfl

/-- The address after some entries. -/
theorem address_cons (e : Nat) (l : List Nat) (f : Nat → Nat) (x : Nat) :
    ((lastOverride table (e :: l)).map f).getD x =
      ((lastOverride table l).map f).getD (if table e = APICOverride._Type then f e else x) := by
  unfold lastOverride
  by_cases h : table e = APICOverride._Type
  · rw [List.filter_cons_of_pos (by simpa using h), if_pos h, List.getLast?_cons]
    cases (l.filter fun e => table e = APICOverride._Type).getLast? <;> rfl
  · rw [List.filter_cons_of_neg (by simpa using h), if_neg h]

theorem lapics_cons (e : Nat) (l : List Nat) :
    (lapics table (e :: l)).length = (if table e = LocalAPIC._Type then 1 else 0) + (lapics table l).length := by
  unfold lapics
  by_cases h : table e = LocalAPIC._Type
  · rw [List.filter_cons_of_pos (by simpa using h), if_pos h, List.length_cons, Nat.add_comm]
  · rw [List.filter_cons_of_neg (by simpa using h), if_neg h, Nat.zero_add]

/-- The second pass, from an entry on: there are as many local APICs left as processors. -/
theorem right_interpreting (hheader : sizeofMADT ≤ headerLength table)
    (htotal : count = (lapics table (allEntries table)).length) : ∀ (fuel type address : Nat) (processors : List Processor),
    headerLength table ≤ type + fuel → (∀ e ∈ entries table fuel type, table (e + 1) ≠ 0) →
    processors.length + (lapics table (entries table fuel type)).length = count →
    (Right table madt calls (.interpreting type count processors address) ↔
      (∀ e ∈ reached table calls (entries table fuel type), e + entrySize table e ≤ headerLength table) ∧
        (Accepted table calls (entries table fuel type) →
          ((lastOverride table (entries table fuel type)).map (madt + ·)).getD address = localApicAddress table))
  | fuel, type, address, processors, hfuel, hlengths, hcount => by
    have hlength : 4 + 4 ≤ headerLength table := Nat.le_trans (by decide) hheader
    have hgoing : ¬ Good table (.interpreting type count processors address) := id
    rcases Nat.lt_or_ge type (headerLength table) with hlt | hge
    · obtain ⟨fuel, rfl⟩ : ∃ n, fuel = n + 1 := ⟨fuel - 1, by omega⟩
      have hinside : Inside table (.interpreting type count processors address) ↔
          type + entrySize table type ≤ headerLength table := by
        unfold Inside
        rw [reads, if_pos hlt]
        simp [hlength]
      rw [entries, if_pos hlt, List.forall_mem_cons] at hlengths
      rw [entries, if_pos hlt, lapics_cons] at hcount
      rw [entries, if_pos hlt, right_step hgoing, hinside, reached]
      by_cases hrefused : (table type = LocalAPIC._Type ∨ table type = IOAPIC._Type) ∧ calls.accepts type = false
      · have hshutdown : Right table madt calls .shutdown := (right_end rfl rfl).mpr trivial
        rw [if_pos hrefused, step_refused hlt hrefused.1 hrefused.2, List.forall_mem_singleton]
        refine and_congr_right fun _ => ⟨fun _ haccepted => ?_, fun _ => hshutdown⟩
        have := haccepted type List.mem_cons_self hrefused.1
        rw [hrefused.2] at this
        cases this
      · have haccepted : table type = LocalAPIC._Type ∨ table type = IOAPIC._Type → calls.accepts type = true := fun h => by
          cases hcall : calls.accepts type with
          | true => rfl
          | false => exact absurd ⟨h, hcall⟩ hrefused
        have hnext : headerLength table ≤ type + (table (type + 1)).toNat + fuel := by
          have : (table (type + 1)).toNat ≠ 0 := fun h => hlengths.1 (BitVec.eq_of_toNat_eq h)
          omega
        have hroom : table type = LocalAPIC._Type → processors.length < count := fun h => by
          rw [if_pos h] at hcount
          omega
        have hcount' : (processors ++ if table type = LocalAPIC._Type then [processor table type] else []).length +
            (lapics table (entries table fuel (type + (table (type + 1)).toNat))).length = count := by
          rw [List.length_append, ← hcount]
          split <;> simp only [List.length_singleton, List.length_nil] <;> omega
        have hall : ∀ l, Accepted table calls (type :: l) ↔ Accepted table calls l := fun l => by
          unfold Accepted
          rw [List.forall_mem_cons]
          exact and_iff_right haccepted
        rw [if_neg hrefused, step_interpreted hlt haccepted hroom,
          right_interpreting hheader htotal fuel _ _ _ hnext hlengths.2 hcount', List.forall_mem_cons, hall, address_cons,
          and_assoc]
    · have hinside : Inside table (.interpreting type count processors address) := by
        unfold Inside
        rw [reads, if_neg (Nat.not_lt.mpr hge)]
        simp [hlength]
      have hdone : step table madt calls (.interpreting type count processors address) =
          .initialized count processors address := if_neg (Nat.not_lt.mpr hge)
      rw [entries_done hge] at hcount
      rw [entries_done hge, right_step hgoing, hdone, right_end rfl rfl]
      refine ⟨fun h => ⟨nofun, fun _ => h.2.2.2⟩, fun h => ⟨hinside, htotal, hcount, h.2 nofun⟩⟩

/-- The last override entry decides whether the address is right. -/
theorem address_right (table : ByteMemory) (madt : Nat) (l : List Nat) (x : Nat) :
    ((lastOverride table l).map (madt + ·)).getD x = ((lastOverride table l).map (LocalApicAddress table)).getD x ↔
      ∀ e, lastOverride table l = some e → madt + e = LocalApicAddress table e := by
  cases lastOverride table l with
  | none =>
    rw [Option.map_none, Option.map_none]
    exact ⟨fun _ => nofun, fun _ => rfl⟩
  | some e =>
    rw [Option.map_some, Option.map_some, Option.getD_some, Option.getD_some]
    refine ⟨fun h e' he' => ?_, fun h => h e rfl⟩
    rw [← Option.some.inj he']
    exact h

end

/-- For every content of the table, address that it is mapped at, and outcome of the calls: the interpretation is right
exactly when the table is well formed. -/
theorem initialize_iff (table : ByteMemory) (madt : Nat) (calls : Calls) :
    Right table madt calls .begin ↔ WellFormed table madt calls := by
  have hbegin : Inside table .begin ↔ sizeofMADT ≤ headerLength table := by
    unfold Inside sizeofMADT
    rw [reads]
    simp only [List.forall_mem_cons, List.not_mem_nil, false_imp_iff, implies_true, and_true]
    omega
  rw [right_step (show ¬ Good table .begin from id), hbegin, step]
  unfold WellFormed
  refine and_congr_right fun hheader => ?_
  rw [right_counting hheader (headerLength table) _ _ (Nat.le_add_left _ _), Nat.zero_add]
  refine and_congr_right fun hlengths => ?_
  have hcounted : Inside table (.counted (lapics table (allEntries table)).length) := nofun
  change Right table madt calls (.counted (lapics table (allEntries table)).length) ↔ _
  rw [right_step (show ¬ Good table (.counted _) from id), and_iff_right hcounted, step]
  by_cases hprocessors : calls.allocates ∧ 0 < (lapics table (allEntries table)).length
  · rw [if_pos hprocessors, right_interpreting hheader rfl (headerLength table) _ _ _ (Nat.le_add_left _ _)
      (fun e he => (hlengths e he).1) (Nat.zero_add _)]
    have haddress := address_right table madt (allEntries table) (LocalInterruptControlAddress table)
    refine Iff.trans (and_congr_right fun _ => imp_congr_right fun _ => haddress) ?_
    exact ⟨fun h _ _ => h, fun h => h hprocessors.1 (List.length_pos_iff.mp hprocessors.2)⟩
  · rw [if_neg hprocessors, right_end rfl rfl]
    exact ⟨fun _ hallocates hsome => absurd ⟨hallocates, List.length_pos_iff.mpr hsome⟩ hprocessors, fun _ => trivial⟩

/-- A table with one local APIC. -/
def oneProcessor : ByteMemory := fun i => if i = 4 then 52 else if i = 45 then 8 else 0

theorem initialize_one : Right oneProcessor 0xFFFF800130000000 ⟨true, fun _ => true⟩ .begin := by
  have hentries : allEntries oneProcessor = [44] := by decide
  refine (initialize_iff oneProcessor 0xFFFF800130000000 ⟨true, fun _ => true⟩).mpr ⟨by decide, by decide, fun _ _ => ?_⟩
  unfold Interpretable
  rw [hentries]
  exact ⟨by decide, fun _ => nofun⟩

/-- An entry of length 0 at the beginning. -/
def noLength : ByteMemory := fun i => if i = 4 then 60 else if i = 44 then 4 else 0

theorem initialize_endless : ¬ ∀ (table : ByteMemory) (madt : Nat) (calls : Calls), Right table madt calls .begin := by
  intro h
  have hright := h noLength 0 ⟨true, fun _ => true⟩
  rw [right_step (show ¬ Good noLength .begin from id)] at hright
  exact counting_stuck (by decide) (by decide) 0 hright.2

end BadLands.Interrupts.Madt
