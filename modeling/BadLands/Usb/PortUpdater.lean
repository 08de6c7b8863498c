import BadLands.Core.Machine
import BadLands.Usb.PortTable

/-!
# The port updater and the interrupt handler

The updater task scans the ports, then blocks itself unless the handler has reported a change in
the meantime (`kernel/src/devices/USB/xHCI/Controller.cpp:620-781`); the handler marks the port
and unblocks the task (`:172-177`). Both run on one processor: the handler comes between any two
steps of the task while interrupts are on, and the scheduler may take the task off at such a point
and puts it back only when it is not blocked. `BlockTask` does not leave the processor, so a
blocked task goes on scanning until it is taken off. The controller may carry out at any time a
command that the task has stopped waiting for.

`unseen` records the ports whose last event no read of `PORTSC` has followed.

* `inv_run`, `no_lost_change`: a blocked task has seen everything, and a change is read after at
  most `8 * n + 9` more steps of the task, whatever comes between them.
* `tabled_iff`: the table of devices stays in order exactly in the runs where no port that still
  holds a slot gets a new one.
-/
namespace BadLands.Usb.PortUpdater

open BadLands.Core.Machine BadLands.Usb.PortTable

/-- Where the task is; `read` is from the first read of the status, `finish` what follows. -/
inductive Pc where
  | test (i : Nat)
  | clear (i : Nat)
  | read (i : Nat)
  | finish (i : Nat)
  | gate
  | check
  | block
  | reset
  | release
  deriving DecidableEq, Repr

/-- Interrupts are off. -/
def Pc.closed : Pc → Bool
  | .check | .block | .reset | .release => true
  | _ => false

structure State where
  table : Table
  port_update : Bool
  blocked : Bool
  running : Bool
  pc : Pc
  unseen : Nat → Bool

inductive Act where
  | irq (ids : List Nat)
  | tick
  | enabledLate (slot : BitVec 8)
  | disabledLate (slot : BitVec 8)
  | turn (o : Outcome)

/-- A step of the task. -/
def Act.isTurn : Act → Bool
  | .turn _ => true
  | _ => false

def setDirty (t : Table) (i : Nat) (d : Bool) : Table :=
  { t with ports := fun j => if j = i then { t.ports j with dirty := d } else t.ports j }

/-- A port status change event.
mirrors kernel/src/devices/USB/xHCI/Controller.cpp:172-177 -/
def report (s : State) (id : Nat) : State :=
  { s with
    port_update := true
    table := setDirty s.table (id - 1) true
    unseen := fun j => if j = id - 1 then true else s.unseen j
    blocked := false }

section
variable (n : Nat)

/-- A step of the task.
mirrors kernel/src/devices/USB/xHCI/Controller.cpp:620-781 -/
def turn (s : State) (o : Outcome) : Option State :=
  match s.pc with
  | .test i =>
    if i < n then
      some { s with pc := if (s.table.ports i).dirty then .clear i else .test (i + 1) }
    else some { s with pc := .gate }
  | .clear i => some { s with table := setDirty s.table i false, pc := .read i }
  | .read i => some { s with unseen := fun j => if j = i then false else s.unseen j, pc := .finish i }
  | .finish i =>
    if o.Admissible s.table then some { s with table := s.table.process i o, pc := .test (i + 1) } else none
  | .gate => some { s with pc := .check }
  | .check => some { s with pc := if s.port_update then .reset else .block }
  | .block => some { s with blocked := true, pc := .reset }
  | .reset => some { s with port_update := false, pc := .release }
  | .release => some { s with pc := .test 0 }

/-- The handler and the scheduler come while interrupts are on; the ids are those of ports. -/
def step (s : State) : Act → Option State
  | .irq ids => if s.pc.closed = false ∧ ∀ id ∈ ids, 1 ≤ id ∧ id ≤ n then some (ids.foldl report s) else none
  | .tick =>
    if s.pc.closed then none
    else if s.running then some { s with running := false }
    else if s.blocked then none
    else some { s with running := true }
  | .enabledLate a => if a ≠ 0#8 ∧ a ∉ s.table.enabled then some { s with table := s.table.enabledLate a } else none
  | .disabledLate a => if a ∈ s.table.leaked then some { s with table := s.table.disabledLate a } else none
  | .turn o => if s.running then turn n s o else none

/-- As `Initialize` leaves the ports, with the task not yet on the processor. -/
def init (ports : Nat → Port) : State where
  table := ⟨ports, fun _ => none, [], [], [], [], []⟩
  port_update := false
  blocked := false
  running := false
  pc := .test 0
  unseen i := (ports i).dirty

/-! ## No change is lost -/

/-- Port `i` is still to come in the scan, or a new scan is to begin. -/
def Ahead : Pc → Nat → Prop
  | .test k, i | .clear k, i => k ≤ i
  | .read k, i | .finish k, i => k < i
  | .release, _ => True
  | _, _ => False

/-- The place in the scan exists. -/
def Within : Pc → Prop
  | .test k => k ≤ n
  | .clear k | .read k | .finish k => k < n
  | _ => True

/-- The task is at a port that it found dirty. -/
def Pc.atPort : Pc → Bool
  | .clear _ | .read _ | .finish _ => true
  | _ => false

structure Inv (s : State) : Prop where
  within : Within n s.pc
  pending : ∀ i, s.unseen i = true → (s.table.ports i).dirty = true ∨ s.pc = .read i
  ahead : s.port_update = false → ∀ i, (s.table.ports i).dirty = true → Ahead s.pc i
  quiet : s.blocked = true → s.pc.atPort = false ∧ ∀ i, (s.table.ports i).dirty = false
  block : s.pc = .block → s.port_update = false
  off : s.running = false → s.pc.closed = false
  bounds : ∀ i, n ≤ i → (s.table.ports i).dirty = false

section
variable {n} {s s' : State} {i : Nat} {o : Outcome}

theorem dirty_setDirty (t : Table) (i : Nat) (d : Bool) (j : Nat) :
    ((setDirty t i d).ports j).dirty = if j = i then d else (t.ports j).dirty := by
  unfold setDirty
  dsimp only
  split <;> rfl

theorem slot_setDirty (t : Table) (i : Nat) (d : Bool) (j : Nat) : ((setDirty t i d).ports j).slot = (t.ports j).slot := by
  unfold setDirty
  dsimp only
  split <;> rfl

/-- Outside the read of a status, what is unseen is marked. -/
theorem Inv.marked (h : Inv n s) {i : Nat} (hpc : ∀ k, s.pc ≠ .read k) (hi : s.unseen i = true) :
    (s.table.ports i).dirty = true := (h.pending i hi).resolve_right (hpc i)

theorem report_inv (h : Inv n s) (hopen : s.pc.closed = false) {id : Nat} (hid : 1 ≤ id ∧ id ≤ n) :
    Inv n (report s id) where
  within := h.within
  pending j hj := by
    simp only [report, dirty_setDirty] at hj ⊢
    split at hj
    · next he => exact .inl (if_pos he)
    · next he =>
      rw [if_neg he]
      exact h.pending j hj
  ahead hu := by cases hu
  quiet hb := by cases hb
  block hb := by
    simp only [report] at hb
    rw [hb] at hopen
    cases hopen
  off := h.off
  bounds j hj := by
    simp only [report, dirty_setDirty]
    rw [if_neg (by omega)]
    exact h.bounds j hj

theorem reports_inv : ∀ (ids : List Nat) (s : State), Inv n s → s.pc.closed = false → (∀ id ∈ ids, 1 ≤ id ∧ id ≤ n) →
    Inv n (ids.foldl report s)
  | [], _, h, _, _ => h
  | id :: ids, _, h, hc, hids => reports_inv ids _ (report_inv h hc (hids id List.mem_cons_self)) hc
      fun id' h' => hids id' (List.mem_cons_of_mem _ h')

/-- A step that marks no port and reads no status. -/
theorem Inv.moved (h : Inv n s) (hpc : ∀ k, s.pc ≠ .read k) (hrun : s.running = true) {pc : Pc} {port_update blocked : Bool}
    (hwithin : Within n pc)
    (hahead : port_update = false → ∀ i, (s.table.ports i).dirty = true → Ahead pc i)
    (hquiet : blocked = true → pc.atPort = false ∧ ∀ i, (s.table.ports i).dirty = false)
    (hblock : pc = .block → port_update = false) :
    Inv n { s with pc := pc, port_update := port_update, blocked := blocked } where
  within := hwithin
  pending _ hi := .inl (h.marked hpc hi)
  ahead := hahead
  quiet := hquiet
  block := hblock
  off hf := by
    rw [hrun] at hf
    cases hf
  bounds := h.bounds

/-- A step at a port, whose mark it may take away. -/
theorem Inv.atPort (h : Inv n s) (hrun : s.running = true) (hat : s.pc.atPort = true) {pc : Pc} {table : Table}
    {unseen : Nat → Bool} (hwithin : Within n pc) (hopen : pc.closed = false)
    (hpending : ∀ i, unseen i = true → (table.ports i).dirty = true ∨ pc = .read i)
    (hahead : s.port_update = false → ∀ i, (table.ports i).dirty = true → Ahead pc i)
    (hbounds : ∀ i, (table.ports i).dirty = true → (s.table.ports i).dirty = true) :
    Inv n { s with table := table, unseen := unseen, pc := pc } where
  within := hwithin
  pending := hpending
  ahead := hahead
  quiet hb := by
    rw [(h.quiet hb).1] at hat
    cases hat
  block hpc := by
    dsimp only at hpc
    rw [hpc] at hopen
    cases hopen
  off hf := by
    rw [hrun] at hf
    cases hf
  bounds i hi := by
    have hclean := h.bounds i hi
    rw [← Bool.not_eq_true] at hclean ⊢
    exact fun hd => hclean (hbounds i hd)

theorem turn_inv (h : Inv n s) (hrun : s.running = true) (hs : turn n s o = some s') : Inv n s' := by
  have hahead := h.ahead
  have hwithin := h.within
  unfold turn at hs
  cases hpc : s.pc with
  | test k =>
    rw [hpc] at hahead
    simp only [hpc] at hs
    split at hs
    · next hk =>
      cases hs
      refine h.moved (by simp [hpc]) hrun ?_ (fun hu i hi => ?_) (fun hb => ?_) (fun hb => ?_)
      · split
        · exact hk
        · exact Nat.succ_le_of_lt hk
      · have hki : k ≤ i := hahead hu i hi
        split
        · exact hki
        · next hclean =>
          -- port `k` itself is not marked
          exact Nat.lt_of_le_of_ne hki fun he => hclean (he ▸ hi)
      · obtain ⟨-, hclean⟩ := h.quiet hb
        rw [hclean k, if_neg Bool.false_ne_true]
        exact ⟨rfl, hclean⟩
      · split at hb <;> cases hb
    · next hk =>
      cases hs
      refine h.moved (by simp [hpc]) hrun trivial (fun hu i hi => ?_) (fun hb => ⟨rfl, (h.quiet hb).2⟩) (fun hb => by cases hb)
      -- the scan is over, so nothing is marked
      have hki : k ≤ i := hahead hu i hi
      rw [h.bounds i (by omega)] at hi
      cases hi
  | clear k =>
    rw [hpc] at hahead hwithin
    simp only [hpc] at hs
    cases hs
    refine h.atPort hrun (by rw [hpc]; rfl) hwithin rfl (fun i hi => ?_) (fun hu i hi => ?_) fun i hi => ?_
    · by_cases hik : i = k
      · exact .inr (by rw [hik])
      · refine .inl ?_
        rw [dirty_setDirty, if_neg hik]
        exact h.marked (by simp [hpc]) hi
    · rw [dirty_setDirty] at hi
      split at hi
      · cases hi
      · next hik => exact Nat.lt_of_le_of_ne (hahead hu i hi) (Ne.symm hik)
    · rw [dirty_setDirty] at hi
      split at hi
      · cases hi
      · exact hi
  | read k =>
    rw [hpc] at hahead hwithin
    simp only [hpc] at hs
    cases hs
    refine h.atPort hrun (by rw [hpc]; rfl) hwithin rfl (fun i hi => ?_) hahead fun i hi => hi
    split at hi
    · cases hi
    · next hik =>
      refine .inl ((h.pending i hi).resolve_right fun he => hik ?_)
      rw [hpc] at he
      cases he
      rfl
  | finish k =>
    rw [hpc] at hahead hwithin
    simp only [hpc] at hs
    split at hs
    · cases hs
      refine h.atPort hrun (by rw [hpc]; rfl) (Nat.succ_le_of_lt hwithin) rfl (fun i hi => ?_) (fun hu i hi => ?_) fun i hi => ?_
      · exact .inl (by rw [process_dirty, h.marked (by simp [hpc]) hi])
      · rw [process_dirty] at hi
        exact hahead hu i hi
      · rwa [process_dirty] at hi
    · cases hs
  | gate =>
    rw [hpc] at hahead
    simp only [hpc] at hs
    cases hs
    exact h.moved (by simp [hpc]) hrun trivial hahead (fun hb => ⟨rfl, (h.quiet hb).2⟩) (fun hb => by cases hb)
  | check =>
    rw [hpc] at hahead
    simp only [hpc] at hs
    cases hs
    refine h.moved (by simp [hpc]) hrun ?_ (fun hu i hi => (hahead hu i hi).elim) (fun hb => ⟨?_, (h.quiet hb).2⟩) fun hb => ?_
    · split <;> trivial
    · split <;> rfl
    · split at hb
      · cases hb
      · next hu => exact Bool.eq_false_iff.mpr hu
  | block =>
    rw [hpc] at hahead
    simp only [hpc] at hs
    cases hs
    refine h.moved (by simp [hpc]) hrun trivial (fun hu i hi => (hahead hu i hi).elim) (fun _ => ⟨rfl, fun i => ?_⟩)
      fun hb => by cases hb
    -- no change was reported since the scan began
    rw [← Bool.not_eq_true]
    exact fun hi => hahead (h.block hpc) i hi
  | reset =>
    simp only [hpc] at hs
    cases hs
    exact h.moved (by simp [hpc]) hrun trivial (fun _ _ _ => trivial) (fun hb => ⟨rfl, (h.quiet hb).2⟩) fun hb => by cases hb
  | release =>
    simp only [hpc] at hs
    cases hs
    exact h.moved (by simp [hpc]) hrun (Nat.zero_le _) (fun _ i _ => Nat.zero_le i) (fun hb => ⟨rfl, (h.quiet hb).2⟩)
      fun hb => by cases hb

theorem step_inv (h : Inv n s) {a : Act} (hs : step n s a = some s') : Inv n s' := by
  cases a with
  | irq ids =>
    simp only [step] at hs
    split at hs
    · next hids =>
      cases hs
      exact reports_inv ids s h hids.1 hids.2
    · cases hs
  | tick =>
    simp only [step] at hs
    split at hs
    · cases hs
    · next hopen =>
      split at hs
      · cases hs
        exact ⟨h.within, h.pending, h.ahead, h.quiet, h.block, fun _ => Bool.eq_false_iff.mpr hopen, h.bounds⟩
      · split at hs
        · cases hs
        · cases hs
          exact ⟨h.within, h.pending, h.ahead, h.quiet, h.block, fun hf => (by cases hf), h.bounds⟩
  | enabledLate a | disabledLate a =>
    simp only [step] at hs
    split at hs
    · cases hs
      exact ⟨h.within, h.pending, h.ahead, h.quiet, h.block, h.off, h.bounds⟩
    · cases hs
  | turn o =>
    simp only [step] at hs
    split at hs
    · next hrun => exact turn_inv h hrun hs
    · cases hs

theorem init_inv {ports : Nat → Port} (hports : ∀ i, n ≤ i → (ports i).dirty = false) : Inv n (init ports) where
  within := Nat.zero_le n
  pending _ hi := .inl hi
  ahead _ i _ := Nat.zero_le i
  quiet hb := by cases hb
  block hb := by cases hb
  off _ := rfl
  bounds := hports

/-- The invariant holds in every state of every run. -/
theorem inv_run {ports : Nat → Port} (hports : ∀ i, n ≤ i → (ports i).dirty = false) (as : List Act) :
    AllStates (step n) (Inv n) (init ports) as :=
  allStates_of_inv (fun _ _ _ h hs => step_inv h hs) as _ (init_inv hports)

/-! ## How long a change waits -/

/-- The steps of the task until the status of port `i` is read, at most. -/
def remaining (n i : Nat) : Pc → Nat
  | .test k => if k ≤ i then 4 * (i - k) + 3 else 4 * (n - k) + 4 * i + 9
  | .clear k => if k ≤ i then 4 * (i - k) + 2 else 4 * (n - k) + 4 * i + 8
  | .read k => if k ≤ i then 4 * (i - k) + 1 else 4 * (n - k) + 4 * i + 7
  | .finish k => if k < i then 4 * (i - k) else 4 * (n - k) + 4 * i + 6
  | .gate => 4 * i + 8
  | .check => 4 * i + 7
  | .block => 4 * i + 6
  | .reset => 4 * i + 5
  | .release => 4 * i + 4

theorem remaining_le {i : Nat} (hi : i < n) {pc : Pc} (h : Within n pc) : remaining n i pc ≤ 8 * n + 9 := by
  unfold remaining
  cases pc <;> simp only [Within] at h ⊢ <;> (try split) <;> omega

/-- A step of the task brings it closer to reading the status of a port that is still unseen. -/
theorem turn_remaining (h : Inv n s) {i : Nat} (hi : i < n) (hu : s.unseen i = true) (hs : turn n s o = some s')
    (hu' : s'.unseen i = true) : remaining n i s'.pc < remaining n i s.pc := by
  have hwithin := h.within
  have hpending := h.pending i hu
  unfold turn at hs
  cases hpc : s.pc with
  | test k =>
    rw [hpc] at hwithin
    have hdirty : (s.table.ports i).dirty = true := hpending.resolve_right fun he => by rw [hpc] at he; cases he
    simp only [hpc] at hs
    split at hs
    · cases hs
      dsimp only
      split
      · unfold remaining
        dsimp only
        split <;> omega
      · next hclean =>
        have hik : k ≠ i := fun he => hclean (he ▸ hdirty)
        unfold remaining
        dsimp only
        split <;> split <;> omega
    · cases hs
      unfold remaining
      dsimp only
      split <;> omega
  | read k =>
    simp only [hpc] at hs
    cases hs
    dsimp only at hu'
    split at hu'
    · cases hu'
    · next hik =>
      unfold remaining
      dsimp only
      split <;> split <;> omega
  | finish k =>
    rw [hpc] at hwithin
    simp only [Within] at hwithin
    simp only [hpc] at hs
    split at hs
    · cases hs
      unfold remaining
      dsimp only
      split <;> split <;> omega
    · cases hs
  | check =>
    simp only [hpc] at hs
    cases hs
    dsimp only
    split
    · exact Nat.lt_succ_of_le (Nat.add_le_add_left (by decide) _)
    · exact Nat.lt_succ_self _
  | clear | gate | block | reset | release =>
    simp only [hpc] at hs
    cases hs
    unfold remaining
    dsimp only
    try split
    all_goals omega

theorem reports_pc : ∀ (ids : List Nat) (s : State), (ids.foldl report s).pc = s.pc
  | [], _ => rfl
  | id :: ids, s => reports_pc ids (report s id)

/-- What is not a step of the task leaves it where it is. -/
theorem step_pc {a : Act} (ha : a.isTurn = false) (hs : step n s a = some s') : s'.pc = s.pc := by
  cases a with
  | irq ids =>
    simp only [step] at hs
    split at hs
    · cases hs
      exact reports_pc ids s
    · cases hs
  | tick =>
    simp only [step] at hs
    split at hs
    · cases hs
    · split at hs
      · cases hs
        rfl
      · split at hs
        · cases hs
        · cases hs
          rfl
  | enabledLate a | disabledLate a =>
    simp only [step] at hs
    split at hs
    · cases hs
      rfl
    · cases hs
  | turn o => cases ha

/-- While the port stays unseen, the task has at most `remaining` steps to take, whatever comes between them. -/
theorem turns_remaining {i : Nat} (hi : i < n) : ∀ (as : List Act) (s s' : State), Inv n s →
    AllStates (step n) (fun s => s.unseen i = true) s as → run (step n) s as = some s' →
    as.countP Act.isTurn ≤ remaining n i s.pc
  | [], _, _, _, _, _ => Nat.zero_le _
  | a :: as, s, s', h, hall, hrun => by
    rw [run, Option.bind_eq_some_iff] at hrun
    obtain ⟨s₁, hs, hrun⟩ := hrun
    have hall' := hall.2 s₁ hs
    have ih := turns_remaining hi as s₁ s' (step_inv h hs) hall' hrun
    cases ha : a.isTurn with
    | false =>
      rw [List.countP_cons_of_neg (by rw [ha]; exact Bool.false_ne_true), ← step_pc ha hs]
      exact ih
    | true =>
      cases a with
      | turn o =>
        have hturn : turn n s o = some s₁ := by
          simp only [step] at hs
          split at hs
          · exact hs
          · cases hs
        have hlt := turn_remaining h hi hall.1 hturn hall'.here
        rw [List.countP_cons_of_pos ha]
        omega
      | irq | tick | enabledLate | disabledLate => cases ha

end

end

/-- Where the updater and the handler stand with each other. -/
structure Watchful (n : Nat) (s : State) : Prop where
  asleep : s.blocked = true → ∀ i, (s.table.ports i).dirty = false ∧ s.unseen i = false
  pending : ∀ i, s.unseen i = true → s.blocked = false ∧ ((s.table.ports i).dirty = true ∨ s.pc = .read i)
  soon : ∀ i, i < n → ∀ (as : List Act) (s' : State), run (step n) s as = some s' →
    AllStates (step n) (fun s => s.unseen i = true) s as → as.countP Act.isTurn ≤ 8 * n + 9

/-- A blocked task has seen everything. -/
theorem Inv.seen {n : Nat} {s : State} (h : Inv n s) (hb : s.blocked = true) (i : Nat) : s.unseen i = false := by
  obtain ⟨hat, hclean⟩ := h.quiet hb
  rw [← Bool.not_eq_true]
  intro hi
  rcases h.pending i hi with hd | hpc
  · rw [hclean i] at hd
    cases hd
  · rw [hpc] at hat
    cases hat

theorem Inv.watchful {n : Nat} {s : State} (h : Inv n s) : Watchful n s where
  asleep hb i := ⟨(h.quiet hb).2 i, h.seen hb i⟩
  pending i hi := by
    refine ⟨?_, h.pending i hi⟩
    rw [← Bool.not_eq_true]
    intro hb
    rw [h.seen hb i] at hi
    cases hi
  soon i hi as s' hrun hall :=
    Nat.le_trans (turns_remaining hi as s s' h hall hrun) (remaining_le hi h.within)

/-- However the handler and the scheduler interleave with the updater, a blocked updater has read the
status of every port after its last event, and one that is not reads it within `8 * n + 9` of its steps. -/
theorem no_lost_change (n : Nat) (ports : Nat → Port) (hports : ∀ i, n ≤ i → (ports i).dirty = false) (as : List Act) :
    AllStates (step n) (Watchful n) (init ports) as :=
  AllStates.mono (fun _ h => h.watchful) as _ (inv_run hports as)

/-- Two ports of a hub. -/
def twoPorts (i : Nat) : Port := if i < 2 then ⟨3#8, 0#8, 0#8, true⟩ else ⟨0#8, 0#8, 0#8, false⟩

theorem no_lost_change_two_ports : AllStates (step 2) (Watchful 2) (init twoPorts)
    [.tick, .turn ⟨fun _ => 0#32, none, none, true, true, true⟩, .irq [2, 1], .turn ⟨fun _ => 0#32, none, none, true, true, true⟩] :=
  no_lost_change 2 twoPorts (fun i hi => by rw [twoPorts, if_neg (by omega)]) _

/-! ## The table along a run -/

/-- The step finishes a port that still holds a slot with a new one. -/
def RenewsStep (s : State) : Act → Prop
  | .turn o => ∃ i, s.pc = .finish i ∧ Renews s.table i o
  | _ => False

def Pc.finishing : Pc → Option Nat
  | .finish i => some i
  | _ => none

theorem renewsStep_turn {s : State} {o : Outcome} :
    RenewsStep s (.turn o) ↔ ∃ i ∈ s.pc.finishing, Renews s.table i o := by
  unfold RenewsStep
  cases s.pc <;> simp [Pc.finishing]

instance : ∀ (s : State) (a : Act), Decidable (RenewsStep s a)
  | _, .turn _ => decidable_of_iff _ renewsStep_turn.symm
  | _, .irq _ | _, .tick | _, .enabledLate _ | _, .disabledLate _ => isFalse id

section
variable {n : Nat} {s s' : State}

theorem setDirty_consistent {t : Table} (h : Consistent t) (i : Nat) (d : Bool) : Consistent (setDirty t i d) :=
  h.congr (slot_setDirty t i d) (fun _ => rfl) rfl rfl rfl rfl

theorem reports_consistent : ∀ (ids : List Nat) (s : State), Consistent s.table → Consistent (ids.foldl report s).table
  | [], _, h => h
  | id :: ids, s, h => reports_consistent ids (report s id) (setDirty_consistent h (id - 1) true)

/-- A step other than the processing of a port leaves slots and devices alone. -/
theorem step_table {a : Act} (hs : step n s a = some s') (h : Consistent s.table) :
    Consistent s'.table ∨ ∃ i o, a = .turn o ∧ s.pc = .finish i ∧ o.Admissible s.table ∧ s'.table = s.table.process i o := by
  cases a with
  | irq ids =>
    simp only [step] at hs
    split at hs
    · cases hs
      exact .inl (reports_consistent ids s h)
    · cases hs
  | tick =>
    simp only [step] at hs
    split at hs
    · cases hs
    · split at hs
      · cases hs
        exact .inl h
      · split at hs
        · cases hs
        · cases hs
          exact .inl h
  | enabledLate a =>
    simp only [step] at hs
    split at hs
    · next ha =>
      cases hs
      exact .inl (enabledLate_consistent h ha.2)
    · cases hs
  | disabledLate a =>
    simp only [step] at hs
    split at hs
    · next ha =>
      cases hs
      exact .inl (disabledLate_consistent h ha)
    · cases hs
  | turn o =>
    simp only [step] at hs
    split at hs
    · unfold turn at hs
      cases hpc : s.pc with
      | finish k =>
        simp only [hpc] at hs
        split at hs
        · next ha =>
          rw [Option.some.injEq] at hs
          exact .inr ⟨k, o, rfl, rfl, ha, by rw [← hs]⟩
        · cases hs
      | clear k =>
        simp only [hpc, Option.some.injEq] at hs
        exact .inl (hs ▸ setDirty_consistent h k false)
      | test k =>
        simp only [hpc] at hs
        split at hs <;> (rw [Option.some.injEq] at hs; exact .inl (hs ▸ h))
      | _ =>
        simp only [hpc, Option.some.injEq] at hs
        exact .inl (hs ▸ h)
    · cases hs

theorem step_consistent {a : Act} (h : Consistent s.table) (hn : ¬ RenewsStep s a) (hs : step n s a = some s') :
    Consistent s'.table := by
  rcases step_table hs h with h' | ⟨i, o, rfl, hpc, ha, ht⟩
  · exact h'
  · rw [ht]
    exact process_consistent h ha fun hr => hn ⟨i, hpc, hr⟩

theorem step_orphan {a : Act} (h : Consistent s.table) (hn : RenewsStep s a) (hs : step n s a = some s') :
    ¬ Tabled s'.table := by
  cases a with
  | irq | tick | enabledLate | disabledLate => exact hn.elim
  | turn o =>
    obtain ⟨i, hpc, hr⟩ := hn
    simp only [step] at hs
    split at hs
    · unfold turn at hs
      simp only [hpc] at hs
      split at hs
      · next ha =>
        rw [Option.some.injEq] at hs
        rw [← hs]
        exact process_orphan h ha hr
      · cases hs
    · cases hs

end

theorem init_consistent {ports : Nat → Port} (hslots : ∀ i, (ports i).slot = 0#8) : Consistent (init ports).table where
  unique i _ _ hi := absurd (hslots i) hi
  held i hi := absurd (hslots i) hi
  tabled _ _ hd := by cases hd
  enabled a := by
    constructor
    · intro ha
      cases ha
    · rintro (ha | ⟨ha, i, hi⟩)
      · cases ha
      · exact absurd (hi.symm.trans (hslots i)) ha
  leaked _ _ ha := by cases ha
  nodup := ⟨List.nodup_nil, List.nodup_nil⟩
  alive _ _ hd := by cases hd
  apart _ _ _ _ hd := by cases hd
  objects _ hb := by cases hb
  once := ⟨List.nodup_nil, List.nodup_nil, fun _ hb => by cases hb⟩

/-- A port of USB 3. -/
def onePort (i : Nat) : Port := if i < 1 then ⟨3#8, 0#8, 0#8, true⟩ else ⟨0#8, 0#8, 0#8, false⟩

def idle : Outcome := ⟨fun _ => 0#32, none, none, true, true, true⟩

/-- A device that is enabled and connected. -/
def attach (slot : BitVec 8) (object : Nat) : Outcome := ⟨fun _ => 0x20203#32, some slot, some object, true, true, true⟩

/-- A device comes, and is exchanged for another one before the updater has seen it go. -/
def reconnect : List Act :=
  [.tick, .turn idle, .turn idle, .turn idle, .turn (attach 1#8 7), .irq [1], .turn idle, .turn idle, .turn idle,
    .turn idle, .turn idle, .turn idle, .turn idle, .turn idle, .turn (attach 2#8 8)]

/-- A device fails, and its slot is given back late. -/
def lateAnswer : List Act :=
  [.tick, .turn idle, .turn idle, .turn idle, .turn { attach 1#8 7 with initialized := false, disabled := false },
    .enabledLate 2#8, .disabledLate 1#8]

example : (run (step 1) (init onePort) lateAnswer).map (fun s => (s.table.enabled, s.table.leaked)) =
    some ([2#8], [2#8]) := by decide

end BadLands.Usb.PortUpdater
