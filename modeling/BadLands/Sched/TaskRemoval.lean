import BadLands.Sched.TaskRing

/-!
# Tasks that are removed

`RemoveTask` does not test what `FindTask` returns, and it does not link the neighbours of the task
with each other: it changes a link of the task itself, which is freed then. Only when the id is that
of the only task does it do what it is for, which is nothing.

`removal_iff`: over any run of the calls, the tasks that are left are linked in a circle, and none
points to a freed one, exactly while `RemoveTask` is called for the only task.
-/
namespace BadLands.Sched

open BadLands.Core BadLands.Core.LinkedRing BadLands.Core.Machine

/-- `fault`: a field of a task is accessed through a null pointer. `done`: with the task that was
freed. -/
inductive RemoveResult where
  | fault
  | done (m : TaskManager) (freed : Option Pointer)

namespace TaskManager

/-- Without a task, the first link that is looked at or written is one of the null pointer.
`TaskContext::Destroy` returns.
mirrors kernel/src/sched/TaskManager.cpp:93-108 -/
def removeTask (m : TaskManager) (taskId : BitVec 64) : Option RemoveResult := do
  let task ← m.findTask taskId
  if task = 0#64 then return .fault
  else if task = m.head ∧ m.next task = task then return .done m none
  else
    let m := if m.head = task then { m with head := m.next task } else m
    return .done (m.store task { m.tasks task with prev := m.next task }) (some task)

end TaskManager

/-- `live`: the tasks that there have to be. `freed`: the memory that was given back. `untouched`: the
manager before the last call, when that had no task to remove. -/
structure Removals where
  manager : TaskManager
  live : List Pointer
  freed : List Pointer
  crashed : Bool
  untouched : Option TaskManager

inductive Call where
  | addTask (context : TaskContext) (blockable : Bool) (mem : Pointer)
  | blockTask (taskId : BitVec 64)
  | unblockTask (taskId : BitVec 64)
  | taskSwitch (stackContext : Pointer) (locked : Bool)
  | removeTask (taskId : BitVec 64)

/-- The task that `RemoveTask` has to remove: the one with the id, unless there is no other one. -/
def toRemove (m : TaskManager) (live : List Pointer) (taskId : BitVec 64) : Option Pointer :=
  if live.length = 1 then none else live.find? fun p => (m.tasks p).id == taskId

local instance : LawfulBEq Pointer := inferInstance

/-- `mem` is what `Heap::Allocate` returns, never the memory of a task. -/
def Removals.call (s : Removals) : Call → Option Removals
  | .addTask context blockable mem =>
    let (id, m) := s.manager.addTask context blockable mem
    if mem ∈ s.live then none
    else if id = 0#64 then some { s with manager := m, untouched := none }
    else some { s with manager := m, live := s.live ++ [mem], freed := s.freed.erase mem, untouched := none }
  | .blockTask taskId => (s.manager.blockTask taskId).map fun m => { s with manager := m, untouched := none }
  | .unblockTask taskId => (s.manager.unblockTask taskId).map fun m => { s with manager := m, untouched := none }
  | .taskSwitch stackContext locked =>
    (s.manager.taskSwitch stackContext locked).map fun r => { s with manager := r.2, untouched := none }
  | .removeTask taskId =>
    let target := toRemove s.manager s.live taskId
    let live := target.elim s.live s.live.erase
    let untouched := if target = none then some s.manager else none
    (s.manager.removeTask taskId).map fun
      | .fault => { s with live := live, crashed := true, untouched := untouched }
      | .done m freed => { s with manager := m, live := live, freed := freed.toList ++ s.freed, untouched := untouched }

/-- There are no calls after a fault. -/
def Removals.step (s : Removals) (c : Call) : Option Removals := if s.crashed then none else s.call c

/-- A manager as it is constructed. -/
def Removals.start (tasks : Pointer → Task) : Removals := ⟨⟨0#64, 0#64, 0#64, tasks⟩, [], [], false, none⟩

/-- The tasks that there have to be are a circular doubly linked list, none of them points to memory
that was given back, and a removal that has nothing to remove has changed nothing. -/
structure RemovalSafe (s : Removals) : Prop where
  running : s.crashed = false
  empty : s.live = [] → s.manager.head = 0#64
  inverse : ∀ p ∈ s.live, (s.manager.next p ∈ s.live ∧ s.manager.prev (s.manager.next p) = p) ∧
    s.manager.prev p ∈ s.live ∧ s.manager.next (s.manager.prev p) = p
  reached : ∀ p ∈ s.live, ∃! k, k < s.live.length ∧ s.manager.next^[k] s.manager.head = p
  dangling : ∀ p ∈ s.live, s.manager.next p ∉ s.freed ∧ s.manager.prev p ∉ s.freed
  untouched : ∀ m ∈ s.untouched, s.manager = m

/-- A removal is one of the only task. -/
def RemovalOk (s : Removals) : Call → Prop
  | .removeTask taskId => ∃ p, s.live = [p] ∧ (s.manager.tasks p).id = taskId
  | _ => True

structure RemovalInv (s : Removals) (ring : List Pointer) : Prop where
  ordered : Ordered s.manager ring
  perm : ring.Perm s.live
  running : s.crashed = false
  freed : s.freed = []
  untouched : ∀ m ∈ s.untouched, s.manager = m

section
variable {s s' : Removals} {ring : List Pointer}

theorem RemovalInv.safe (h : RemovalInv s ring) : RemovalSafe s where
  running := h.running
  empty he := h.ordered.head_eq_zero.mpr (List.perm_nil.mp (he ▸ h.perm))
  inverse := h.ordered.inverse h.perm
  reached := h.ordered.reached h.perm
  dangling p _ := by simp [h.freed]
  untouched := h.untouched

theorem RemovalInv.step_eq (h : RemovalInv s ring) (c : Call) : s.step c = s.call c := by
  unfold Removals.step
  rw [h.running, if_neg (by decide)]

theorem removalInv_start (tasks : Pointer → Task) : RemovalInv (.start tasks) [] :=
  ⟨(inv_start tasks).ordered, List.Perm.nil, rfl, rfl, fun m hm => by cases hm⟩

/-- Calls that keep which tasks there are. -/
theorem RemovalInv.frame {m : TaskManager} {ring' : List Pointer} (h : RemovalInv s ring) (ho : Ordered m ring')
    (hperm : ring'.Perm ring) : RemovalInv { s with manager := m, untouched := none } ring' :=
  ⟨ho, hperm.trans h.perm, h.running, h.freed, fun m hm => by cases hm⟩

theorem RemovalInv.addTask {context : TaskContext} {blockable : Bool} {mem : Pointer} (h : RemovalInv s ring)
    (hs : s.call (.addTask context blockable mem) = some s') : ∃ ring', RemovalInv s' ring' := by
  simp only [Removals.call] at hs
  split at hs
  · cases hs
  next hguard =>
  have hnot : mem ∉ ring := fun hm => hguard (h.perm.mem_iff.mp hm)
  obtain hrun | ⟨id, m', hrun, hid, -, hadded⟩ := h.ordered.addTask context blockable hnot
  · rw [hrun, if_pos rfl] at hs
    cases hs
    exact ⟨ring, h.frame h.ordered (List.Perm.refl _)⟩
  · rw [hrun, if_neg hid] at hs
    cases hs
    exact ⟨ring ++ [mem], hadded.ordered, h.perm.append_right [mem], h.running, by simp [h.freed], fun m hm => by cases hm⟩

theorem RemovalInv.taskSwitch {stackContext : Pointer} {locked : Bool} (h : RemovalInv s ring)
    (hs : s.call (.taskSwitch stackContext locked) = some s') : ∃ ring', RemovalInv s' ring' := by
  rw [Removals.call] at hs
  by_cases hrefused : s.manager.head = 0#64 ∨ locked = true
  · rw [taskSwitch_refused hrefused] at hs
    cases hs
    exact ⟨ring, h.frame h.ordered (List.Perm.refl _)⟩
  obtain ⟨-, rfl, a, l, rfl⟩ := h.ordered.not_refused hrefused
  obtain ⟨r, m', ring', hrun, hswitched, ho⟩ := h.ordered.taskSwitch stackContext
  rw [hrun] at hs
  cases hs
  exact ⟨ring', h.frame ho hswitched.perm⟩

/-- The id of the only task: nothing is done. -/
theorem RemovalInv.removeTask {taskId : BitVec 64} (h : RemovalInv s ring) (hok : RemovalOk s (.removeTask taskId))
    (hs : s.call (.removeTask taskId) = some s') : RemovalInv s' ring := by
  obtain ⟨p, hlive, hid⟩ := hok
  have hring : ring = [p] := List.perm_singleton.mp (hlive ▸ h.perm)
  subst hring
  have hhead : s.manager.head = p := h.ordered.head
  have hp : p ≠ 0#64 := fun he => h.ordered.nonnull (he ▸ List.mem_cons_self)
  have hnext : s.manager.next p = p := (List.isChain_pair.mp (ring_cons.mp h.ordered.linked)).1
  have hfind : s.manager.findTask taskId = some p := by
    rw [h.ordered.findTask, withId, List.find?_cons_of_pos (by simpa using hid)]
    rfl
  have hrun : s.manager.removeTask taskId = some (.done s.manager none) := by
    unfold TaskManager.removeTask
    rw [hfind, Option.bind_eq_bind, Option.bind_some, if_neg hp, if_pos ⟨hhead.symm, hnext⟩]
    rfl
  have htarget : toRemove s.manager s.live taskId = none := if_pos (by rw [hlive]; rfl)
  simp only [Removals.call, hrun, htarget, Option.map_some, Option.some.injEq] at hs
  subst hs
  exact ⟨h.ordered, h.perm, h.running, by simpa using h.freed, fun m hm => by simpa using hm⟩

theorem RemovalInv.step {c : Call} (h : RemovalInv s ring) (hok : RemovalOk s c) (hs : s.step c = some s') :
    ∃ ring', RemovalInv s' ring' := by
  rw [h.step_eq] at hs
  cases c with
  | addTask context blockable mem => exact h.addTask hs
  | taskSwitch stackContext locked => exact h.taskSwitch hs
  | removeTask taskId => exact ⟨ring, h.removeTask hok hs⟩
  | blockTask taskId =>
    obtain ⟨m', hrun, ho, -⟩ := h.ordered.blockTask taskId
    rw [Removals.call, hrun] at hs
    cases hs
    exact ⟨ring, h.frame ho (List.Perm.refl _)⟩
  | unblockTask taskId =>
    obtain ⟨m', hrun, ho, -⟩ := h.ordered.unblockTask taskId
    rw [Removals.call, hrun] at hs
    cases hs
    exact ⟨ring, h.frame ho (List.Perm.refl _)⟩

/-- A task that is not the only one. -/
theorem two_le {live : List Pointer} (hperm : ring.Perm live) {p : Pointer} (hp : p ∈ live) (hother : live ≠ [p]) :
    2 ≤ ring.length := by
  rw [hperm.length_eq]
  rcases live with _ | ⟨q, _ | ⟨q', rest⟩⟩
  · cases hp
  · obtain rfl : p = q := by simpa using hp
    exact absurd rfl hother
  · simp

/-- A task that is not the only one is freed, and no `next` is changed. -/
theorem Ordered.removeTask_other {m : TaskManager} {taskId : BitVec 64} {p : Pointer} (h : Ordered m ring)
    (hfind : ring.find? (fun q => (m.tasks q).id == taskId) = some p) (hmany : 2 ≤ ring.length) :
    ∃ m', m.removeTask taskId = some (.done m' (some p)) ∧ ∀ q, m'.next q = m.next q := by
  have hp : p ∈ ring := List.mem_of_find?_eq_some hfind
  have h0 : p ≠ 0#64 := fun he => h.nonnull (he ▸ hp)
  have hself : m.next p ≠ p := h.linked.next_ne h.nodup hmany hp
  refine ⟨{ m.store p { m.tasks p with prev := m.next p } with head := if m.head = p then m.next p else m.head },
    ?_, fun q => ?_⟩
  · unfold TaskManager.removeTask
    rw [h.findTask, withId, hfind, Option.bind_eq_bind, Option.bind_some, Option.getD_some, if_neg h0,
      if_neg fun hboth => hself hboth.2]
    by_cases hhead : m.head = p
    · simp only [if_pos hhead]
      rfl
    · simp only [if_neg hhead]
      rfl
  · by_cases hq : q = p
    · subst hq
      simp [TaskManager.next, TaskManager.store]
    · simp [TaskManager.next, TaskManager.store, hq]

theorem RemovalInv.toRemove_other {taskId : BitVec 64} {p : Pointer} (h : RemovalInv s ring)
    (hfind : ring.find? (fun q => (s.manager.tasks q).id == taskId) = some p) (hother : s.live ≠ [p]) :
    toRemove s.manager s.live taskId = some p := by
  have hp : p ∈ ring := List.mem_of_find?_eq_some hfind
  have hid : (s.manager.tasks p).id = taskId := by simpa using List.find?_some hfind
  have hmany : s.live.length ≠ 1 := by
    have htwo := two_le h.perm (h.perm.mem_iff.mp hp) hother
    rw [h.perm.length_eq] at htwo
    omega
  rw [toRemove, if_neg hmany]
  cases hfound : s.live.find? fun q => (s.manager.tasks q).id == taskId with
  | none =>
    have hnone := List.find?_eq_none.mp hfound p (h.perm.mem_iff.mp hp)
    simp [hid] at hnone
  | some q =>
    have hq : q ∈ ring := h.perm.mem_iff.mpr (List.mem_of_find?_eq_some hfound)
    have hqid : (s.manager.tasks q).id = taskId := by simpa using List.find?_some hfound
    rw [h.ordered.ids q hq p hp (hqid.trans hid.symm)]

/-- Without a task with the id, a null pointer is followed; another task than the only one is still
the next one of the task before it. -/
theorem RemovalInv.step_bad {c : Call} (h : RemovalInv s ring) (hbad : ¬ RemovalOk s c) (hs : s.step c = some s') :
    ¬ RemovalSafe s' := by
  cases c with
  | addTask => exact absurd trivial hbad
  | blockTask => exact absurd trivial hbad
  | unblockTask => exact absurd trivial hbad
  | taskSwitch => exact absurd trivial hbad
  | removeTask taskId =>
    intro hsafe
    rw [h.step_eq] at hs
    cases hfind : ring.find? fun p => (s.manager.tasks p).id == taskId with
    | none =>
      -- the null pointer
      have hrun : s.manager.removeTask taskId = some .fault := by
        unfold TaskManager.removeTask
        rw [h.ordered.findTask, withId, hfind]
        rfl
      rw [Removals.call, hrun] at hs
      cases hs
      cases hsafe.running
    | some p =>
      have hp : p ∈ ring := List.mem_of_find?_eq_some hfind
      have hid : (s.manager.tasks p).id = taskId := by simpa using List.find?_some hfind
      have hlive : p ∈ s.live := h.perm.mem_iff.mp hp
      have hnodup : s.live.Nodup := h.perm.nodup_iff.mp h.ordered.nodup
      have hother : s.live ≠ [p] := fun hone => hbad ⟨p, hone, hid⟩
      obtain ⟨m', hrun, hnext⟩ := h.ordered.removeTask_other hfind (two_le h.perm hlive hother)
      rw [Removals.call, hrun, h.toRemove_other hfind hother] at hs
      cases hs
      -- the task before it still points to it
      obtain ⟨-, hprev, hlink⟩ := h.ordered.inverse h.perm p hlive
      have hne : s.manager.prev p ≠ p := fun he =>
        h.ordered.linked.next_ne h.ordered.nodup (two_le h.perm hlive hother) hp (by rwa [he] at hlink)
      have hleft : s.manager.prev p ∈ s.live.erase p := (List.mem_erase_of_ne hne).mpr hprev
      have hkeeps := (hsafe.inverse _ hleft).1.1
      rw [hnext, hlink] at hkeeps
      exact (List.Nodup.not_mem_erase hnodup) hkeeps

end

/-- Over every sequence of calls, the tasks that are not removed are a circular list with no link to a
freed task, and a removal that is refused changes nothing, as long as each removal is one of the
only task; another one is wrong at once. -/
theorem removal_iff (tasks : Pointer → Task) (calls : List Call) :
    AllStates Removals.step RemovalSafe (.start tasks) calls ↔ AllSteps Removals.step RemovalOk (.start tasks) calls :=
  allStates_iff_allSteps (I := fun s => ∃ ring, RemovalInv s ring) (fun _ ⟨_, h⟩ => h.safe)
    (fun _ _ _ ⟨_, h⟩ hok hs => h.step hok hs) (fun _ _ _ ⟨_, h⟩ hbad hs => h.step_bad hbad hs) calls _
    ⟨[], removalInv_start tasks⟩

/-- A task that is accepted. -/
theorem RemovalInv.addTask_accepted {s : Removals} {ring : List Pointer} (h : RemovalInv s ring) (context : TaskContext)
    (blockable : Bool) (mem : Pointer) (hc : context.Valid) (h0 : mem ≠ 0#64) (hmem : mem ∉ ring) :
    ∃ s', s.step (.addTask context blockable mem) = some s' ∧ RemovalInv s' (ring ++ [mem]) ∧
      (s'.manager.tasks mem).id = s.manager.taskCount + 1#64 ∧ s'.live = s.live ++ [mem] := by
  obtain ⟨id, m', hrun, hid, hadded⟩ := h.ordered.addTask_accepted context blockable mem hc h0 hmem
  obtain ⟨prev, next, hfresh⟩ := hadded.fresh
  refine ⟨{ s with manager := m', live := s.live ++ [mem], freed := s.freed.erase mem, untouched := none }, ?_, ?_, ?_, rfl⟩
  · rw [h.step_eq, Removals.call, hrun]
    exact (if_neg fun hm => hmem (h.perm.mem_iff.mpr hm)).trans (if_neg hid)
  · exact ⟨hadded.ordered, h.perm.append_right [mem], h.running, by simp [h.freed], fun m hm => by cases hm⟩
  · simp only [hfresh]

/-- The second of two tasks is removed: the first one is still linked to it. -/
theorem removal_dangles : ¬ AllStates Removals.step RemovalSafe (.start fun _ => default)
    [.addTask ⟨0x5000#64, 0x400000#64, 0x7000#64⟩ false 0x1000#64,
      .addTask ⟨0x6000#64, 0x500000#64, 0x8000#64⟩ true 0x2000#64, .removeTask 2#64] := by
  obtain ⟨s₁, hstep₁, h₁, -, hlive₁⟩ := (removalInv_start fun _ => default).addTask_accepted
    ⟨0x5000#64, 0x400000#64, 0x7000#64⟩ false 0x1000#64 (by unfold TaskContext.Valid; decide) (by decide) (by decide)
  have hcount : s₁.manager.taskCount = 1#64 := BitVec.eq_of_toNat_eq h₁.ordered.count
  obtain ⟨s₂, hstep₂, h₂, hid, hlive₂⟩ := h₁.addTask_accepted
    ⟨0x6000#64, 0x500000#64, 0x8000#64⟩ true 0x2000#64 (by unfold TaskContext.Valid; decide) (by decide) (by decide)
  rw [hcount] at hid
  have hlive : s₂.live = [0x1000#64, 0x2000#64] := by
    rw [hlive₂, hlive₁]
    rfl
  have hbad : ¬ RemovalOk s₂ (.removeTask 2#64) := by
    rintro ⟨p, hp, -⟩
    rw [hlive] at hp
    cases hp
  intro hall
  have hlast := (hall.2 s₁ hstep₁).2 s₂ hstep₂
  cases hs : s₂.step (.removeTask 2#64) with
  | some s₃ => exact h₂.step_bad hbad hs (hlast.2 s₃ hs)
  | none =>
    -- the search ends, so the removal does
    rw [h₂.step_eq, Removals.call, Option.map_eq_none_iff] at hs
    cases hfind : ([0x1000#64, 0x2000#64] : List Pointer).find? fun q => (s₂.manager.tasks q).id == 2#64 with
    | none =>
      have hnone := List.find?_eq_none.mp hfind 0x2000#64 (by decide)
      simp [hid] at hnone
    | some p =>
      obtain ⟨m', hrun, -⟩ := h₂.ordered.removeTask_other hfind (by decide)
      rw [hrun] at hs
      cases hs

end BadLands.Sched
