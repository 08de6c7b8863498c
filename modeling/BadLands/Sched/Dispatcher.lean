import BadLands.Core.Machine
import BadLands.Sched.TaskManager

/-!
# The scheduler interrupt

`SCHEDULER_IRQ_DISPATCHER` gives the handler the page tables and the stack to continue with; a
null `CR3` lets it return to the interrupted task. `Processor` runs it together with the calls on
the task manager, and keeps next to the manager what the interrupts have done to each task.

`context_preserved`: a task continues where the switch that left it last has interrupted it, or
from its entry. The first switch does not save a context, since it interrupts no task; the
counter that tells it has 64 bits, and the result is for the runs in which it does not come round
to zero. `context_rolled_back` is a run in which it does: a task that was never left gets the
stack of an older interrupt.
-/
namespace BadLands.Sched

open BadLands.Core BadLands.Core.Machine

/-- mirrors kernel/src/sched/Dispatcher.cpp:24-27 -/
structure SwitchResult where
  cr3 : Pointer
  rsp : Pointer
  deriving DecidableEq

def SwitchResult.null : SwitchResult := ⟨0#64, 0#64⟩

/-- mirrors kernel/src/sched/Dispatcher.cpp:44-51 -/
def reschedule (m : TaskManager) (stackContext : Pointer) (locked : Bool) : Option (SwitchResult × TaskManager) := do
  let (task, m) ← m.taskSwitch stackContext locked
  if task ≠ 0#64 then
    let context := (m.tasks task).context
    return (⟨context.cr3, context.stackPointer⟩, m)
  return (.null, m)

/-- `millis`: the count of the timer. The handlers pass a result on their stack.
mirrors kernel/src/sched/Dispatcher.cpp:53-73 -/
def schedulerIRQDispatcher (m : TaskManager) (stackContext : Pointer) (isTimerIRQ : Bool) (millis : Nat)
    (locked : Bool) : Option (SwitchResult × TaskManager) :=
  if isTimerIRQ then
    if millis % 10 = 0 then reschedule m stackContext locked
    else some (.null, m)
  else reschedule m stackContext locked

/-- `added`: the contexts of the tasks that `AddTask` has accepted. `left`: what was passed to the
switch that last left the task. `ran`: a result was reported for the task. `started`: a switch
has obtained the lock. -/
structure Processor where
  manager : TaskManager
  added : Pointer → Option TaskContext
  left : Pointer → Option Pointer
  ran : Pointer → Bool
  started : Bool

/-- `locked`: the interrupt comes while a call has the lock. -/
inductive Event where
  | addTask (context : TaskContext) (blockable : Bool) (mem : Pointer)
  | blockTask (taskId : BitVec 64)
  | unblockTask (taskId : BitVec 64)
  | interrupt (stackContext : Pointer) (isTimerIRQ : Bool) (millis : Nat) (locked : Bool)

/-- What an interrupt has done to the tasks. -/
def Processor.interrupted (s : Processor) (stackContext : Pointer) (result : SwitchResult) (m : TaskManager) :
    Processor where
  manager := m
  added := s.added
  left := if m.head ≠ s.manager.head then Function.update s.left s.manager.head (some stackContext) else s.left
  ran := if result.cr3 ≠ 0#64 then Function.update s.ran m.head true else s.ran
  started := s.started || m.switches != s.manager.switches

/-- The heap does not give out the memory of a task again. -/
def Processor.step (s : Processor) : Event → Option Processor
  | .addTask context blockable mem =>
    let (id, m) := s.manager.addTask context blockable mem
    if s.added mem ≠ none then none
    else if id = 0#64 then some { s with manager := m }
    else some { s with manager := m, added := Function.update s.added mem (some context) }
  | .blockTask taskId => do
    let m ← s.manager.blockTask taskId
    return { s with manager := m }
  | .unblockTask taskId => do
    let m ← s.manager.unblockTask taskId
    return { s with manager := m }
  | .interrupt stackContext isTimerIRQ millis locked => do
    let (result, m) ← schedulerIRQDispatcher s.manager stackContext isTimerIRQ millis locked
    return s.interrupted stackContext result m

def Processor.start (tasks : Pointer → Task) : Processor :=
  ⟨⟨0#64, 0#64, 0#64, tasks⟩, fun _ => none, fun _ => none, fun _ => false, false⟩

/-- What is reported for `task`: the page tables it was added with, and the stack of the switch
that last left it, or the one it was added with if it never ran. -/
def Processor.Resumes (s : Processor) (task : Pointer) (result : SwitchResult) : Prop :=
  ∃ context, s.added task = some context ∧ result.cr3 = context.cr3 ∧
    (s.left task = some result.rsp ∨
      s.left task = none ∧ s.ran task = false ∧ result.rsp = context.stackPointer)

/-- The interrupt returns; it reports the context of the task that is then the current one, or
null, and then the current one is as before. -/
def Processor.Preserved (s : Processor) : Event → Prop
  | .interrupt stackContext isTimerIRQ millis locked =>
    ∃ result m, schedulerIRQDispatcher s.manager stackContext isTimerIRQ millis locked = some (result, m) ∧
      (result.cr3 ≠ 0#64 → s.Resumes m.head result) ∧
      (result.cr3 = 0#64 → result = .null ∧ m.head = s.manager.head)
  | _ => True

/-- A switch after the first one finds the counter of switches not at zero. -/
def Processor.Counted (s : Processor) : Event → Prop
  | .interrupt _ isTimerIRQ millis locked => (isTimerIRQ = true → millis % 10 = 0) → locked = false →
      s.started = true → s.manager.switches ≠ 0#64
  | _ => True

instance (s : Processor) : (e : Event) → Decidable (s.Counted e)
  | .interrupt _ isTimerIRQ millis locked => inferInstanceAs (Decidable ((isTimerIRQ = true → millis % 10 = 0) →
      locked = false → s.started = true → s.manager.switches ≠ 0#64))
  | .addTask _ _ _ | .blockTask _ | .unblockTask _ => isTrue trivial

/-- The context of a task in memory. -/
def stored (m : TaskManager) (p : Pointer) : SwitchResult :=
  ⟨(m.tasks p).context.cr3, (m.tasks p).context.stackPointer⟩

/-- Between the calls. The context of the current task is outdated while it runs. -/
structure Kept (s : Processor) (ring : List Pointer) : Prop where
  ordered : Ordered s.manager ring
  mem : ∀ p, p ∈ ring ↔ s.added p ≠ none
  cr3 : ∀ p context, s.added p = some context → (s.manager.tasks p).context.cr3 = context.cr3 ∧ context.cr3 ≠ 0#64
  waiting : ∀ p ∈ ring, p ≠ s.manager.head ∨ s.started = false → s.Resumes p (stored s.manager p)
  unknown : ∀ p ∉ ring, s.left p = none ∧ s.ran p = false
  fresh : s.started = false → s.manager.switches = 0#64
  started : s.started = true → ring ≠ []

section
variable {s s' : Processor} {ring : List Pointer}

theorem Kept.start (tasks : Pointer → Task) : Kept (.start tasks) [] where
  ordered := ⟨rfl, by simp, List.nodup_nil, trivial, rfl, (fun p hp => by cases hp), fun p hp => by cases hp⟩
  mem p := by simp [Processor.start]
  cr3 p context h := by cases h
  waiting p hp := by cases hp
  unknown p _ := ⟨rfl, rfl⟩
  fresh _ := rfl
  started h := by cases h

/-- Calls that keep the ring and the contexts. -/
theorem Kept.frame {m' : TaskManager} (h : Kept s ring) (ho : Ordered m' ring) (hhead : m'.head = s.manager.head)
    (hswitches : m'.switches = s.manager.switches)
    (hcontext : ∀ p, (m'.tasks p).context = (s.manager.tasks p).context) : Kept { s with manager := m' } ring where
  ordered := ho
  mem := h.mem
  cr3 p context hp := by
    rw [hcontext]
    exact h.cr3 p context hp
  waiting p hp hw := by
    have hstored : stored m' p = stored s.manager p := by
      unfold stored
      rw [hcontext]
    rw [hhead] at hw
    rw [hstored]
    exact h.waiting p hp hw
  unknown := h.unknown
  fresh hf := hswitches.trans (h.fresh hf)
  started := h.started

theorem Kept.blockTask {taskId : BitVec 64} (h : Kept s ring) (hs : s.step (.blockTask taskId) = some s') :
    Kept s' ring := by
  obtain ⟨m', hrun, ho, hhead, hswitches, htasks⟩ := h.ordered.blockTask taskId
  simp only [Processor.step, hrun, Option.bind_eq_bind, Option.bind_some, Option.pure_def, Option.some.injEq] at hs
  subst hs
  refine h.frame ho hhead hswitches fun p => ?_
  rcases htasks p with he | ⟨-, he⟩ <;> rw [he]

theorem Kept.unblockTask {taskId : BitVec 64} (h : Kept s ring) (hs : s.step (.unblockTask taskId) = some s') :
    Kept s' ring := by
  obtain ⟨m', hrun, ho, hhead, hswitches, htasks⟩ := h.ordered.unblockTask taskId
  simp only [Processor.step, hrun, Option.bind_eq_bind, Option.bind_some, Option.pure_def, Option.some.injEq] at hs
  subst hs
  refine h.frame ho hhead hswitches fun p => ?_
  rcases htasks p with he | he <;> rw [he]

theorem Kept.addTask {context : TaskContext} {blockable : Bool} {mem : Pointer} (h : Kept s ring)
    (hs : s.step (.addTask context blockable mem) = some s') : ∃ ring', Kept s' ring' := by
  simp only [Processor.step] at hs
  split at hs
  · cases hs
  rename_i hfree
  have hmem : mem ∉ ring := fun hm => hfree ((h.mem mem).mp hm)
  obtain hrun | ⟨id, m', hrun, hid, hc, ha⟩ := h.ordered.addTask context blockable hmem
  · rw [hrun, if_pos rfl] at hs
    cases hs
    exact ⟨ring, h⟩
  rw [hrun, if_neg hid] at hs
  cases hs
  have hkept : ∀ p ∈ ring, (m'.tasks p).context = (s.manager.tasks p).context := by
    intro p hp
    obtain ⟨prev, next, he⟩ := ha.kept p hp
    rw [he]
  obtain ⟨prev, next, hnew⟩ := ha.fresh
  have hother : ∀ p, p ≠ mem → Function.update s.added mem (some context) p = s.added p :=
    fun p hp => Function.update_of_ne hp _ _
  have hsame : Function.update s.added mem (some context) mem = some context := Function.update_self ..
  refine ⟨ring ++ [mem], ha.ordered, fun p => ?_, fun p c hp => ?_, fun p hp hw => ?_, fun p hp => ?_,
    fun hf => ha.switches.trans (h.fresh hf), fun _ => List.append_ne_nil_of_right_ne_nil _ (List.cons_ne_nil _ _)⟩
  · by_cases hp : p = mem
    · subst hp
      simp
    · simp only [List.mem_append, List.mem_singleton, hp, or_false, hother p hp]
      exact h.mem p
  · by_cases hpm : p = mem
    · subst hpm
      obtain rfl : context = c := Option.some.inj (hsame.symm.trans hp)
      rw [hnew]
      exact ⟨rfl, fun h0 => hc (.inl h0)⟩
    · replace hp : s.added p = some c := (hother p hpm).symm.trans hp
      have hring : p ∈ ring := (h.mem p).mpr (by rw [hp]; exact Option.some_ne_none _)
      rw [hkept p hring]
      exact h.cr3 p c hp
  · by_cases hpm : p = mem
    · -- the new task
      subst hpm
      have hunknown := h.unknown p hmem
      refine ⟨context, hsame, ?_, .inr ⟨hunknown.1, hunknown.2, ?_⟩⟩
      · simp only [stored, hnew]
      · simp only [stored, hnew]
    · have hring : p ∈ ring := by simpa [hpm] using hp
      have hhead : m'.head = s.manager.head := by
        rw [ha.ordered.head, h.ordered.head]
        cases ring with
        | nil => cases hring
        | cons a l => rfl
      rw [hhead] at hw
      obtain ⟨c, hadded, hresumes⟩ := h.waiting p hring hw
      have hstored : stored m' p = stored s.manager p := by
        unfold stored
        rw [hkept p hring]
      rw [hstored]
      exact ⟨c, (hother p hpm).trans hadded, hresumes⟩
  · exact h.unknown p fun hm => hp (List.mem_append_left _ hm)

/-- An interrupt that reports null and leaves the manager as it is. -/
theorem interrupted_null (s : Processor) (stackContext : Pointer) :
    s.interrupted stackContext .null s.manager = s := by
  unfold Processor.interrupted
  simp [SwitchResult.null]

/-- What an interrupt owes. -/
structure Handled (s : Processor) (stackContext : Pointer) (result : SwitchResult) (m : TaskManager) : Prop where
  resumes : result.cr3 ≠ 0#64 → s.Resumes m.head result
  remains : result.cr3 = 0#64 → result = .null ∧ m.head = s.manager.head
  kept : ∃ ring, Kept (s.interrupted stackContext result m) ring

theorem handled_null (h : Kept s ring) (stackContext : Pointer) : Handled s stackContext .null s.manager where
  resumes h0 := absurd rfl h0
  remains _ := ⟨rfl, rfl⟩
  kept := ⟨ring, by rw [interrupted_null]; exact h⟩

theorem ne_add_one (x : BitVec 64) : (x + 1#64 != x) = true := by
  rw [bne_iff_ne]
  intro he
  have hone : (1#64 : BitVec 64) = 0#64 := by
    calc 1#64 = x + 1#64 - x := by rw [BitVec.add_comm, BitVec.add_sub_cancel]
      _ = 0#64 := by rw [he, BitVec.sub_self]
  exact absurd hone (by decide)

theorem interrupted_ran {stackContext : Pointer} {result : SwitchResult} {m : TaskManager} {p : Pointer}
    (hp : p ≠ m.head) : (s.interrupted stackContext result m).ran p = s.ran p := by
  unfold Processor.interrupted
  dsimp only
  split
  · exact Function.update_of_ne hp _ _
  · rfl

theorem interrupted_left {stackContext : Pointer} {result : SwitchResult} {m : TaskManager} {p : Pointer}
    (hp : p ≠ s.manager.head) : (s.interrupted stackContext result m).left p = s.left p := by
  unfold Processor.interrupted
  dsimp only
  split
  · exact Function.update_of_ne hp _ _
  · rfl

theorem interrupted_left_head {stackContext : Pointer} {result : SwitchResult} {m : TaskManager}
    (h : m.head ≠ s.manager.head) : (s.interrupted stackContext result m).left s.manager.head = some stackContext := by
  unfold Processor.interrupted
  dsimp only
  rw [if_pos h, Function.update_self]

/-- After a switch. Only the context of the task that was interrupted has changed, and it is saved
when the task is left. -/
theorem Kept.switch {stackContext : Pointer} {result : SwitchResult} {m : TaskManager} {ring' : List Pointer}
    (h : Kept s ring) (ho : Ordered m ring') (hring : ∀ p, p ∈ ring' ↔ p ∈ ring) (hhead : m.head ∈ ring)
    (hold : s.manager.head ∈ ring) (hswitches : m.switches = s.manager.switches + 1#64)
    (hcr3 : ∀ p, (m.tasks p).context.cr3 = (s.manager.tasks p).context.cr3)
    (hsp : ∀ p, p ≠ s.manager.head → (m.tasks p).context.stackPointer = (s.manager.tasks p).context.stackPointer)
    (hsaved : m.head ≠ s.manager.head → (m.tasks s.manager.head).context.stackPointer = stackContext) :
    Kept (s.interrupted stackContext result m) ring' := by
  have hstarted : (s.interrupted stackContext result m).started = true := by
    unfold Processor.interrupted
    dsimp only
    rw [hswitches, ne_add_one, Bool.or_true]
  refine ⟨ho, fun p => (hring p).trans (h.mem p), fun p c hp => ?_, fun p hp hw => ?_, fun p hp => ?_, fun hf => ?_,
    fun _ => List.ne_nil_of_mem ((hring _).mpr hhead)⟩
  · have hold := h.cr3 p c hp
    exact ⟨(hcr3 p).trans hold.1, hold.2⟩
  · have hpne : p ≠ m.head := by
      rcases hw with hw | hw
      · exact hw
      · rw [hstarted] at hw
        cases hw
    by_cases hleft : p = s.manager.head
    · -- the task that was left
      subst hleft
      obtain ⟨c, hc⟩ := Option.ne_none_iff_exists'.mp ((h.mem _).mp hold)
      refine ⟨c, hc, (hcr3 _).trans (h.cr3 _ c hc).1, .inl ?_⟩
      rw [interrupted_left_head hpne.symm]
      exact congrArg some (hsaved hpne.symm).symm
    · obtain ⟨c, hc, hc3, hstack⟩ := h.waiting p ((hring p).mp hp) (.inl hleft)
      refine ⟨c, hc, (hcr3 p).trans hc3, ?_⟩
      rw [interrupted_left hleft, interrupted_ran hpne]
      have hrsp : (stored (s.interrupted stackContext result m).manager p).rsp = (stored s.manager p).rsp :=
        hsp p hleft
      rw [hrsp]
      exact hstack
  · have hnot : p ∉ ring := fun hm => hp ((hring p).mpr hm)
    have hne : p ≠ s.manager.head := fun he => hnot (he ▸ hold)
    have hne' : p ≠ m.head := fun he => hnot (he ▸ hhead)
    rw [interrupted_left hne, interrupted_ran hne']
    exact h.unknown p hnot
  · rw [hstarted] at hf
    cases hf

/-- What is stored for a task has its page tables. -/
theorem Kept.stored_ne (h : Kept s ring) {p : Pointer} (hp : p ∈ ring) : (stored s.manager p).cr3 ≠ 0#64 := by
  obtain ⟨c, hc⟩ := Option.ne_none_iff_exists'.mp ((h.mem p).mp hp)
  have hcr3 := h.cr3 p c hc
  unfold stored
  rw [hcr3.1]
  exact hcr3.2

theorem reschedule_eq {m m' : TaskManager} {stackContext r : Pointer} {locked : Bool}
    (h : m.taskSwitch stackContext locked = some (r, m')) :
    reschedule m stackContext locked = some (if r ≠ 0#64 then stored m' r else .null, m') := by
  unfold reschedule
  rw [h]
  by_cases h0 : r = 0#64 <;> simp [h0, stored]

theorem Kept.reschedule {stackContext : Pointer} {locked : Bool} (h : Kept s ring)
    (hcounted : locked = false → s.started = true → s.manager.switches ≠ 0#64) :
    ∃ result m, Sched.reschedule s.manager stackContext locked = some (result, m) ∧
      Handled s stackContext result m := by
  by_cases hrefused : s.manager.head = 0#64 ∨ locked = true
  · exact ⟨_, _, reschedule_eq (taskSwitch_refused hrefused), handled_null h stackContext⟩
  obtain ⟨h0, rfl, a, l, rfl⟩ := h.ordered.not_refused hrefused
  have hhead : s.manager.head = a := h.ordered.head
  have hmem : s.manager.head ∈ a :: l := hhead ▸ List.mem_cons_self
  obtain ⟨r, m', ring', hrun, hswitched, ho⟩ := h.ordered.taskSwitch stackContext
  refine ⟨_, _, reschedule_eq hrun, ?_⟩
  have hsame := saved_same s.manager stackContext
  cases hswitched with
  | first hfirst =>
    have hstarted : s.started = false := by
      cases hs : s.started with
      | false => rfl
      | true => exact absurd hfirst (hcounted rfl hs)
    have hne := h.stored_ne List.mem_cons_self
    rw [if_pos (hhead ▸ h0)]
    refine ⟨fun _ => ?_, fun hn => absurd hn hne, a :: l, ?_⟩
    · rw [hhead]
      exact h.waiting a List.mem_cons_self (.inr hstarted)
    · exact h.switch ho (fun _ => Iff.rfl) hmem hmem rfl (fun _ => rfl) (fun _ _ => rfl) fun hn => absurd rfl hn
  | stay hlater hall =>
    rw [if_neg (by simp)]
    refine ⟨fun hn => absurd rfl hn, fun _ => ⟨rfl, hhead.symm⟩, a :: l, ?_⟩
    refine h.switch ho (fun _ => Iff.rfl) List.mem_cons_self hmem rfl (fun p => (hsame a p).2.2.2.2.2.1)
      (fun p hp => ?_) fun hn => absurd hhead.symm hn
    rw [(hsame a p).2.2.2.2.2.2, if_neg hp]
  | move xs ys _ hlater hl hall hfree =>
    subst hl
    have hr : r ∈ a :: (xs ++ r :: ys) := List.mem_cons_of_mem _ (List.mem_append_right _ List.mem_cons_self)
    have hrne : r ≠ s.manager.head := by
      rw [hhead]
      rintro rfl
      exact (List.nodup_cons.mp h.ordered.nodup).1 (List.mem_append_right _ List.mem_cons_self)
    have hr0 : r ≠ 0#64 := fun he => h.ordered.nonnull (he ▸ hr)
    have hstored : stored (saved s.manager stackContext r) r = stored s.manager r := by
      unfold stored
      rw [(hsame r r).2.2.2.2.2.1, (hsame r r).2.2.2.2.2.2, if_neg hrne]
    have hne := h.stored_ne hr
    rw [if_pos hr0, hstored]
    refine ⟨fun _ => h.waiting r hr (.inl hrne), fun hn => absurd hn hne, r :: ys ++ a :: xs, ?_⟩
    refine h.switch ho (fun p => ?_) hr hmem rfl (fun p => (hsame r p).2.2.2.2.2.1) (fun p hp => ?_) fun _ => ?_
    · simp only [List.mem_append, List.mem_cons]
      tauto
    · rw [(hsame r p).2.2.2.2.2.2, if_neg hp]
    · rw [(hsame r _).2.2.2.2.2.2, if_pos rfl]

theorem Kept.dispatch {stackContext : Pointer} {isTimerIRQ : Bool} {millis : Nat} {locked : Bool} (h : Kept s ring)
    (hcounted : s.Counted (.interrupt stackContext isTimerIRQ millis locked)) :
    ∃ result m, schedulerIRQDispatcher s.manager stackContext isTimerIRQ millis locked = some (result, m) ∧
      Handled s stackContext result m := by
  unfold schedulerIRQDispatcher
  cases isTimerIRQ with
  | false =>
    rw [if_neg (by decide)]
    exact h.reschedule (hcounted fun hf => by cases hf)
  | true =>
    rw [if_pos rfl]
    by_cases hmillis : millis % 10 = 0
    · rw [if_pos hmillis]
      exact h.reschedule (hcounted fun _ => hmillis)
    · rw [if_neg hmillis]
      exact ⟨_, _, rfl, handled_null h stackContext⟩

theorem Kept.step {e : Event} (h : Kept s ring) (hcounted : s.Counted e) (hs : s.step e = some s') :
    ∃ ring', Kept s' ring' := by
  cases e with
  | addTask context blockable mem => exact h.addTask hs
  | blockTask taskId => exact ⟨ring, h.blockTask hs⟩
  | unblockTask taskId => exact ⟨ring, h.unblockTask hs⟩
  | interrupt stackContext isTimerIRQ millis locked =>
    obtain ⟨result, m, hrun, hhandled⟩ := h.dispatch hcounted
    simp only [Processor.step, hrun, Option.bind_eq_bind, Option.bind_some, Option.pure_def, Option.some.injEq] at hs
    subst hs
    exact hhandled.kept

theorem Kept.preserved {e : Event} (h : Kept s ring) (hcounted : s.Counted e) : s.Preserved e := by
  cases e with
  | addTask => trivial
  | blockTask => trivial
  | unblockTask => trivial
  | interrupt stackContext isTimerIRQ millis locked =>
    obtain ⟨result, m, hrun, hhandled⟩ := h.dispatch hcounted
    exact ⟨result, m, hrun, hhandled.resumes, hhandled.remains⟩

end

/-- For every run of interrupts and calls in which no switch but the first one finds the counter
of switches at zero, and in every state of it: such an interrupt returns, reports the context of
the task that it makes the current one, and null only if the current task stays. -/
theorem context_preserved (tasks : Pointer → Task) (events : List Event)
    (h : AllSteps Processor.step Processor.Counted (.start tasks) events) :
    AllStates Processor.step (fun s => ∀ e, s.Counted e → s.Preserved e) (.start tasks) events := by
  have hkept : AllStates Processor.step (fun s => ∃ ring, Kept s ring) (.start tasks) events :=
    allStates_of_allSteps (fun _ _ _ ⟨_, hi⟩ hc hs => hi.step hc hs) events _ ⟨[], .start tasks⟩ h
  exact AllStates.mono (fun _ ⟨_, hi⟩ _ hc => hi.preserved hc) events _ hkept

def yield : Event := .interrupt 0x9000#64 false 0 false

def addIdle : Event := .addTask ⟨0x5000#64, 0x400000#64, 0x7000#64⟩ false 0x1000#64

/-- Two tasks take turns. An interrupt comes between two turns of the timer, one while a call has the lock, and one
while the second task is blocked. -/
def takingTurns : List Event :=
  [addIdle, .addTask ⟨0x6000#64, 0x500000#64, 0x8000#64⟩ true 0x2000#64, yield, .interrupt 0x6F00#64 false 0 false,
    .interrupt 0x7F00#64 true 7 false, .interrupt 0x7E00#64 true 10 true, .interrupt 0x7D00#64 true 20 false,
    .blockTask 2#64, .interrupt 0x6E00#64 true 30 false, .unblockTask 2#64, .interrupt 0x6D00#64 false 0 false]

theorem context_preserved_two_tasks : AllStates Processor.step (fun s => ∀ e, s.Counted e → s.Preserved e)
    (.start fun _ => default) takingTurns :=
  context_preserved (fun _ => default) takingTurns (by decide +kernel)

/-- The second task comes back to the stack it was left with. -/
example : (run Processor.step (.start fun _ => default) takingTurns).map (fun s => (s.manager.head, stored s.manager 0x2000#64)) =
    some (0x2000#64, ⟨0x6000#64, 0x7D00#64⟩) := by decide +kernel

/-- The idle task, alone, interrupted `n` times. -/
structure Alone (s : Processor) (n : Nat) : Prop where
  ordered : Ordered s.manager [0x1000#64]
  cr3 : (s.manager.tasks 0x1000#64).context.cr3 = 0x5000#64
  switches : s.manager.switches = BitVec.ofNat 64 n
  left : s.left 0x1000#64 = none
  ran : 0 < n → s.ran 0x1000#64 = true

theorem alone_start : ∃ s, Processor.step (.start fun _ => default) addIdle = some s ∧ Alone s 0 := by
  have ho := (Kept.start fun _ => default).ordered
  obtain ⟨id, m, hrun, hid, ha⟩ := ho.addTask_accepted ⟨0x5000#64, 0x400000#64, 0x7000#64⟩ false 0x1000#64
    (by unfold TaskContext.Valid; decide) (by decide) (by decide)
  obtain ⟨prev, next, hnew⟩ := ha.fresh
  refine ⟨{ Processor.start (fun _ => default) with
    manager := m, added := Function.update (fun _ => none) 0x1000#64 (some ⟨0x5000#64, 0x400000#64, 0x7000#64⟩) }, ?_,
    ha.ordered, ?_, ha.switches, rfl, fun hn => absurd hn (by decide)⟩
  · unfold addIdle
    simp only [Processor.step, hrun]
    rw [if_neg (by decide), if_neg hid]
    rfl
  · simp only [hnew]

/-- The switch at count `n`: it reports the task when the counter is at zero. -/
theorem Alone.dispatch {s : Processor} {n : Nat} (h : Alone s n) :
    schedulerIRQDispatcher s.manager 0x9000#64 false 0 false =
      if s.manager.switches = 0#64 then
        some (stored s.manager 0x1000#64, { s.manager with switches := s.manager.switches + 1#64 })
      else some (.null, saved s.manager 0x9000#64 0x1000#64) := by
  unfold schedulerIRQDispatcher
  rw [if_neg (by decide)]
  obtain ⟨r, m, ring, hrun, hswitched, -⟩ := h.ordered.taskSwitch 0x9000#64
  rw [reschedule_eq hrun]
  cases hswitched with
  | first hfirst =>
    rw [if_pos hfirst, if_pos (by decide)]
    rfl
  | stay hlater =>
    rw [if_neg hlater, if_neg (by simp)]
  | move xs ys _ _ hl =>
    have hlength := congrArg List.length hl
    simp at hlength

theorem Alone.next {s : Processor} {n : Nat} (h : Alone s n) :
    ∃ s', s.step yield = some s' ∧ Alone s' (n + 1) := by
  have hhead : s.manager.head = 0x1000#64 := h.ordered.head
  have hcount : s.manager.switches + 1#64 = BitVec.ofNat 64 (n + 1) := by
    rw [h.switches]
    exact (BitVec.ofNat_add n 1).symm
  by_cases hzero : s.manager.switches = 0#64
  · have hrun := h.dispatch
    rw [if_pos hzero] at hrun
    refine ⟨s.interrupted 0x9000#64 (stored s.manager 0x1000#64)
      { s.manager with switches := s.manager.switches + 1#64 }, ?_, ?_, h.cr3, hcount, ?_, fun _ => ?_⟩
    · simp only [yield, Processor.step, hrun]
      rfl
    · exact h.ordered.congr rfl rfl (fun _ _ => rfl) (fun _ _ => rfl) fun _ _ => rfl
    · simpa [Processor.interrupted] using h.left
    · simp [Processor.interrupted, stored, h.cr3, hhead]
  · have hrun := h.dispatch
    rw [if_neg hzero] at hrun
    have hpos : 0 < n := by
      rcases Nat.eq_zero_or_pos n with h0 | hpos
      · rw [h.switches, h0] at hzero
        exact absurd rfl hzero
      · exact hpos
    have ho := h.ordered.save 0x9000#64
    rw [hhead] at ho
    refine ⟨s.interrupted 0x9000#64 .null (saved s.manager 0x9000#64 0x1000#64), ?_, ho, ?_, hcount, ?_, fun _ => ?_⟩
    · simp only [yield, Processor.step, hrun]
      rfl
    · exact (saved_same s.manager 0x9000#64 0x1000#64 0x1000#64).2.2.2.2.2.1.trans h.cr3
    · simpa [Processor.interrupted, saved, hhead] using h.left
    · simpa [Processor.interrupted, SwitchResult.null] using h.ran hpos

theorem alone_run {s : Processor} (h : Alone s 0) (n : Nat) :
    ∃ s', run Processor.step s (List.replicate n yield) = some s' ∧ Alone s' n := by
  induction n with
  | zero => exact ⟨s, rfl, h⟩
  | succ n ih =>
    obtain ⟨s₁, hrun, h₁⟩ := ih
    obtain ⟨s₂, hstep, h₂⟩ := h₁.next
    refine ⟨s₂, ?_, h₂⟩
    rw [List.replicate_succ', run_append, hrun]
    simp only [Option.bind_some, run, hstep]

/-- After `2 ^ 64` interrupts the idle task, never left, is sent back to the stack of the last one. -/
theorem context_rolled_back : ¬ AllStates Processor.step (fun s => ∀ e, s.Preserved e) (.start fun _ => default)
    (addIdle :: List.replicate (2 ^ 64) yield) := by
  intro hall
  obtain ⟨s₁, hstep, h₁⟩ := alone_start
  obtain ⟨s₂, hrun, h₂⟩ := alone_run h₁ (2 ^ 64)
  have hzero : s₂.manager.switches = 0#64 := h₂.switches
  have hhead : s₂.manager.head = 0x1000#64 := h₂.ordered.head
  have hpreserved := AllStates.of_run _ _ _ hall ((run_cons hstep _).trans hrun) yield
  obtain ⟨result, m, hdispatch, hresumes, -⟩ := hpreserved
  rw [h₂.dispatch, if_pos hzero] at hdispatch
  cases hdispatch
  have hcr3 : (stored s₂.manager 0x1000#64).cr3 ≠ 0#64 := by
    have hne : (0x5000#64 : Pointer) ≠ 0#64 := by decide
    rwa [← h₂.cr3] at hne
  obtain ⟨context, -, -, hleft | ⟨-, hran, -⟩⟩ := hresumes hcr3
  · rw [hhead, h₂.left] at hleft
    cases hleft
  · rw [hhead, h₂.ran (by decide)] at hran
    cases hran

end BadLands.Sched
