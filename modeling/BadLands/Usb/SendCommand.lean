import BadLands.Core.Machine
import Mathlib.Logic.Function.Basic

/-!
# Completions of commands

`Controller::SendCommand` enqueues a command, clears the one `command_completion` of the controller
and waits until `HandleIRQ` has put an event there. Which command an event is for is not looked at,
and a command can complete after its sender has given up.

A sender has the command lock, so there is one at a time; `step` interleaves its stores and loads
with the events, which arrive in any order. `completion_attributed`: the event that is returned is
the one of the command, when no other event arrives between the clearing and the return, and none
between the stores to the last two words. `completion_misattributed`: the event of a command that
has timed out is returned for the next one.
-/
namespace BadLands.Usb.SendCommand

open BadLands.Core.Machine

/-- The words of an event. -/
abbrev EventTRB := Fin 4 → BitVec 32

/-- Where `SendCommand` is. `clearing k`: `k` words are cleared; `waiting`: the doorbell is rung;
`copying k`: the predicate was true and `k` words of the result are loaded. -/
inductive Phase where
  | clearing (k : Fin 4)
  | signalling
  | waiting
  | copying (k : Fin 4) (result : EventTRB)

/-- `calls`: the commands enqueued so far, numbered in that order; `sender`: the call in progress is
the last of them. `events`: what the controller has generated, by command. `returned`: the events
that calls have returned. -/
structure Controller where
  commandCompletion : EventTRB
  calls : Nat
  sender : Option Phase
  events : Nat → Option EventTRB
  returned : List (Nat × EventTRB)

/-- `complete`: the event of a command is handled. `timeout`: 200 ms have passed. -/
inductive Act where
  | send
  | proceed
  | timeout
  | complete (command : Nat) (event : EventTRB)

def Controller.enter (c : Controller) (phase : Phase) : Controller := { c with sender := some phase }

/-- The stores, the doorbell, a test of the predicate, or a load of the result.
mirrors kernel/src/devices/USB/xHCI/Controller.cpp:1132-1143 -/
def proceed (c : Controller) : Phase → Controller
  | .clearing k =>
    { c with commandCompletion := Function.update c.commandCompletion k 0#32,
             sender := some (if k = 3 then .signalling else .clearing (k + 1)) }
  | .signalling => c.enter .waiting
  | .waiting => if c.commandCompletion 2 ≠ 0#32 then c.enter (.copying 0 fun _ => 0#32) else c
  | .copying k result =>
    let result := Function.update result k (c.commandCompletion k)
    if k = 3 then { c with sender := none, returned := c.returned ++ [(c.calls - 1, result)] }
    else c.enter (.copying (k + 1) result)

/-- The controller completes a command that was enqueued, once.
mirrors kernel/src/devices/USB/xHCI/Controller.cpp:165-171,1120-1144 -/
def step (c : Controller) : Act → Option Controller
  | .send =>
    match c.sender with
    | none => some { c with calls := c.calls + 1, sender := some (.clearing 0) }
    | some _ => none
  | .proceed => c.sender.map (proceed c)
  | .timeout =>
    match c.sender with
    | some .waiting => some { c with sender := none }
    | _ => none
  | .complete command event =>
    if command < c.calls ∧ c.events command = none then
      some { c with commandCompletion := event, events := Function.update c.events command (some event) }
    else none

def start (commandCompletion : EventTRB) : Controller := ⟨commandCompletion, 0, none, fun _ => none, []⟩

/-- The event that a call has returned is the one of its command. -/
def Attributed (c : Controller) : Prop := ∀ x ∈ c.returned, c.events x.1 = some x.2

/-- The event of `command` arrives before the store to the third word, or it is the one of the last
call and arrives behind the store to the fourth. -/
def Phase.Accepts (calls command : Nat) : Phase → Prop
  | .clearing k => k ≠ 3
  | _ => command + 1 = calls

/-- The events that arrive during a call are such. -/
def StepOk (c : Controller) : Act → Prop
  | .complete command _ => ∀ phase ∈ c.sender, phase.Accepts c.calls command
  | _ => True

instance decidableAccepts (calls command : Nat) : (phase : Phase) → Decidable (phase.Accepts calls command)
  | .clearing k => inferInstanceAs (Decidable (k ≠ 3))
  | .signalling => inferInstanceAs (Decidable (command + 1 = calls))
  | .waiting => inferInstanceAs (Decidable (command + 1 = calls))
  | .copying _ _ => inferInstanceAs (Decidable (command + 1 = calls))

instance decidableStepOk (c : Controller) : (a : Act) → Decidable (StepOk c a)
  | .complete command _ => inferInstanceAs (Decidable (∀ phase ∈ c.sender, phase.Accepts c.calls command))
  | .send => isTrue trivial
  | .proceed => isTrue trivial
  | .timeout => isTrue trivial

/-- What the words hold at each point: when the third one is not zero, they are the event of the
command in progress. -/
def Phase.Holds (c : Controller) : Phase → Prop
  | .clearing k => k = 3 → c.commandCompletion 2 = 0#32
  | .signalling | .waiting => c.commandCompletion 2 = 0#32 ∨ c.events (c.calls - 1) = some c.commandCompletion
  | .copying k result => c.events (c.calls - 1) = some c.commandCompletion ∧
      ∀ j < k, result j = c.commandCompletion j

structure Inv (c : Controller) : Prop where
  attributed : Attributed c
  sender : ∀ phase, c.sender = some phase → 0 < c.calls ∧ phase.Holds c

section
variable {c c' : Controller}

theorem inv_start (commandCompletion : EventTRB) : Inv (start commandCompletion) where
  attributed x hx := by cases hx
  sender phase h := by cases h

theorem Inv.proceed (h : Inv c) {phase : Phase} (hp : c.sender = some phase) : Inv (SendCommand.proceed c phase) := by
  obtain ⟨hcalls, hholds⟩ := h.sender phase hp
  cases phase with
  | clearing k =>
    refine ⟨h.attributed, fun phase' he => ⟨hcalls, ?_⟩⟩
    simp only [SendCommand.proceed, Option.some.injEq] at he
    subst he
    split
    · -- the last store leaves the third word as it is
      rename_i hk
      subst hk
      left
      show Function.update c.commandCompletion 3 0#32 2 = 0#32
      rw [Function.update_of_ne (by decide)]
      exact hholds rfl
    · intro hnext
      obtain rfl : k = 2 := by omega
      show Function.update c.commandCompletion 2 0#32 2 = 0#32
      rw [Function.update_self]
  | signalling =>
    refine ⟨h.attributed, fun phase' he => ?_⟩
    obtain rfl : Phase.waiting = phase' := Option.some.inj he
    exact ⟨hcalls, hholds⟩
  | waiting =>
    simp only [SendCommand.proceed]
    split
    · rename_i hready
      refine ⟨h.attributed, fun phase' he => ?_⟩
      obtain rfl : Phase.copying 0 (fun _ => 0#32) = phase' := Option.some.inj he
      exact ⟨hcalls, hholds.resolve_left hready, fun j hj => absurd hj (Fin.not_lt_zero j)⟩
    · exact h
  | copying k result =>
    obtain ⟨hevent, hresult⟩ := hholds
    -- one more word is loaded
    have hloaded : ∀ j ≤ k, Function.update result k (c.commandCompletion k) j = c.commandCompletion j := by
      intro j hj
      by_cases hjk : j = k
      · rw [hjk, Function.update_self]
      · rw [Function.update_of_ne hjk]
        exact hresult j (by omega)
    simp only [SendCommand.proceed]
    split
    · rename_i hk
      subst hk
      refine ⟨fun x hx => ?_, fun phase' he => by cases he⟩
      rcases List.mem_append.mp hx with hx | hx
      · exact h.attributed x hx
      · rw [List.mem_singleton.mp hx]
        have hall : Function.update result 3 (c.commandCompletion 3) = c.commandCompletion :=
          funext fun j => hloaded j (by omega)
        rw [hall]
        exact hevent
    · refine ⟨h.attributed, fun phase' he => ?_⟩
      obtain rfl := Option.some.inj he
      exact ⟨hcalls, hevent, fun j hj => hloaded j (by omega)⟩

theorem Inv.complete {command : Nat} {event : EventTRB} (h : Inv c) (hg : StepOk c (.complete command event))
    (hnew : c.events command = none) :
    Inv { c with commandCompletion := event, events := Function.update c.events command (some event) } := by
  refine ⟨fun x hx => ?_, fun phase hp => ?_⟩
  · have hold := h.attributed x hx
    have hne : x.1 ≠ command := by
      intro he
      rw [he, hnew] at hold
      cases hold
    dsimp only
    rw [Function.update_of_ne hne]
    exact hold
  · obtain ⟨hcalls, hholds⟩ := h.sender phase hp
    have haccepts := hg phase hp
    refine ⟨hcalls, ?_⟩
    cases phase with
    | clearing k => exact fun hk => absurd hk haccepts
    | signalling =>
      right
      obtain rfl : command = c.calls - 1 := Nat.eq_sub_of_add_eq haccepts
      exact Function.update_self ..
    | waiting =>
      right
      obtain rfl : command = c.calls - 1 := Nat.eq_sub_of_add_eq haccepts
      exact Function.update_self ..
    | copying k result =>
      -- the command has completed before
      obtain rfl : command = c.calls - 1 := Nat.eq_sub_of_add_eq haccepts
      rw [hholds.1] at hnew
      cases hnew

theorem Inv.step {a : Act} (h : Inv c) (hg : StepOk c a) (hs : SendCommand.step c a = some c') : Inv c' := by
  cases a with
  | send =>
    cases hc : c.sender with
    | some phase => simp [SendCommand.step, hc] at hs
    | none =>
      simp only [SendCommand.step, hc, Option.some.injEq] at hs
      subst hs
      refine ⟨h.attributed, fun phase hp => ⟨Nat.succ_pos _, ?_⟩⟩
      obtain rfl : Phase.clearing 0 = phase := Option.some.inj hp
      exact fun hk => absurd hk (by decide)
  | proceed =>
    obtain ⟨phase, hp, rfl⟩ := Option.map_eq_some_iff.mp hs
    exact h.proceed hp
  | timeout =>
    simp only [SendCommand.step] at hs
    split at hs
    · cases hs
      exact ⟨h.attributed, fun phase hp => by cases hp⟩
    · cases hs
  | complete command event =>
    simp only [SendCommand.step] at hs
    split at hs
    · rename_i hnew
      cases hs
      exact h.complete hg hnew.2
    · cases hs

end

/-- In every run in which an event that arrives during a call comes before the call has cleared the
third word, or is the one of its command and comes behind the store to the last word, every call
that returns an event returns the one of its command. -/
theorem completion_attributed (commandCompletion : EventTRB) (acts : List Act)
    (h : AllSteps step StepOk (start commandCompletion) acts) :
    AllStates step Attributed (start commandCompletion) acts :=
  AllStates.mono (fun _ hi => hi.attributed) acts _
    (allStates_of_allSteps (fun _ _ _ hi hg hs => hi.step hg hs) acts _ (inv_start commandCompletion) h)

/-- A Command Completion Event with code Success for slot 1. -/
def success (pointer : BitVec 32) : EventTRB
  | 0 => pointer
  | 1 => 0#32
  | 2 => 0x01000000#32
  | 3 => 0x01008401#32

/-- A command up to the doorbell. -/
def signal : List Act := [.send, .proceed, .proceed, .proceed, .proceed, .proceed]

/-- The test that succeeds, and the copy. -/
def receive : List Act := [.proceed, .proceed, .proceed, .proceed, .proceed]

theorem completion_attributed_one_command : AllStates step Attributed (start fun _ => 0#32)
    (signal ++ [.complete 0 (success 0x1000#32)] ++ receive) :=
  completion_attributed (fun _ => 0#32) _ (by decide)

/-- The first command times out and completes while the second one is waited for. -/
def lateCompletion : List Act := signal ++ [.timeout] ++ signal ++ [.complete 0 (success 0x1000#32)] ++ receive

theorem completion_misattributed : ¬ AllStates step Attributed (start fun _ => 0#32) lateCompletion := by
  intro hall
  have hrun : (run step (start fun _ => 0#32) lateCompletion).map (fun c => (c.returned.map Prod.fst, (c.events 1).isNone)) =
      some ([1], true) := by decide +kernel
  obtain ⟨c, hc, hlast⟩ := Option.map_eq_some_iff.mp hrun
  obtain ⟨hreturned, hevents⟩ := Prod.mk.inj hlast
  obtain ⟨x, hx, hx1⟩ : ∃ x ∈ c.returned, x.1 = 1 :=
    List.mem_map.mp (by rw [hreturned]; exact List.mem_singleton_self 1)
  have hattributed := AllStates.of_run _ _ c hall hc x hx
  rw [hx1, Option.isNone_iff_eq_none.mp hevents] at hattributed
  cases hattributed

end BadLands.Usb.SendCommand
