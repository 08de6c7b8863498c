import BadLands.Core.LinkedRing

/-!
# The task manager of a processor

The tasks form a circular list; `head` is the current task, and new ones are linked in behind
it, last in turn. `Ordered m ring` says which tasks there are, in their order from `head` on.

* `Ordered.findTask`: a task is found by its id, and the search ends.
* `Ordered.addTask`, `Ordered.blockTask`, `Ordered.unblockTask`, `Ordered.taskSwitch`: what the
  calls do to the order.

The ids come from a 64-bit counter that does not overflow: the tasks are at different addresses,
and none of them is null (`Ordered.room`).
-/
namespace BadLands.Sched

open BadLands.Core BadLands.Core.LinkedRing

abbrev Pointer := BitVec 64

/-- mirrors kernel/include/sched/TaskContext.hpp:20-27 -/
structure TaskContext where
  cr3 : Pointer
  instructionPointer : Pointer
  stackPointer : Pointer
  deriving DecidableEq, Inhabited

/-- mirrors kernel/include/sched/TaskManager.hpp:27-34 -/
structure Task where
  blockable : Bool
  blocked : Bool
  id : BitVec 64
  prev : Pointer
  next : Pointer
  context : TaskContext
  deriving DecidableEq, Inhabited

/-- With the memory of the tasks.
mirrors kernel/include/sched/TaskManager.hpp:36-40 -/
structure TaskManager where
  switches : BitVec 64
  head : Pointer
  taskCount : BitVec 64
  tasks : Pointer → Task

namespace TaskManager

def next (m : TaskManager) (p : Pointer) : Pointer := (m.tasks p).next

def prev (m : TaskManager) (p : Pointer) : Pointer := (m.tasks p).prev

def store (m : TaskManager) (p : Pointer) (t : Task) : TaskManager :=
  { m with tasks := Function.update m.tasks p t }

/-- As many turns as there are pointers: a loop that has not come to its end by then does not. -/
def turns : Nat := 2 ^ 64

/-- `none`: the loop does not end.
mirrors kernel/src/sched/TaskManager.cpp:29-50 -/
def findTask (m : TaskManager) (taskId : BitVec 64) : Option Pointer :=
  if m.head = 0#64 then some 0#64
  else if (m.tasks m.head).id = taskId then some m.head
  else do
    let ptr ← follow m.next (fun p => p == m.head || (m.tasks p).id == taskId) turns (m.next m.head)
    if ptr ≠ m.head then return ptr else return 0#64

/-- The part with the lock.
mirrors kernel/src/sched/TaskManager.cpp:67-90 -/
def link (m : TaskManager) (context : TaskContext) (blockable : Bool) (newTask : Pointer) : TaskManager :=
  let m := { m with taskCount := m.taskCount + 1 }
  let m := m.store newTask ⟨blockable, false, m.taskCount, 0#64, 0#64, context⟩
  if m.head = 0#64 then
    let m := { m with head := newTask }
    m.store newTask { m.tasks newTask with prev := newTask, next := newTask }
  else
    let tail := m.prev m.head
    let m := m.store tail { m.tasks tail with next := newTask }
    let m := m.store newTask { m.tasks newTask with prev := tail, next := m.head }
    m.store m.head { m.tasks m.head with prev := newTask }

/-- `mem`: what `Heap::Allocate` returns.
mirrors kernel/src/sched/TaskManager.cpp:52-91 -/
def addTask (m : TaskManager) (context : TaskContext) (blockable : Bool) (mem : Pointer) :
    BitVec 64 × TaskManager :=
  if context.cr3 = 0#64 ∨ context.instructionPointer = 0#64 ∨ context.stackPointer = 0#64 then (0#64, m)
  else if mem = 0#64 then (0#64, m)
  else
    let m := m.link context blockable mem
    ((m.tasks mem).id, m)

/-- mirrors kernel/src/sched/TaskManager.cpp:110-118 -/
def blockTask (m : TaskManager) (taskId : BitVec 64) : Option TaskManager := do
  let task ← m.findTask taskId
  if task ≠ 0#64 ∧ (m.tasks task).blockable then return m.store task { m.tasks task with blocked := true }
  return m

/-- mirrors kernel/src/sched/TaskManager.cpp:120-128 -/
def unblockTask (m : TaskManager) (taskId : BitVec 64) : Option TaskManager := do
  let task ← m.findTask taskId
  if task ≠ 0#64 then return m.store task { m.tasks task with blocked := false }
  return m

/-- The task whose context is returned, 0 for `nullptr`. `locked`: the lock is held, by the call
that the switch interrupts or by another processor.
mirrors kernel/src/sched/TaskManager.cpp:130-162 -/
def taskSwitch (m : TaskManager) (stackContext : Pointer) (locked : Bool) : Option (Pointer × TaskManager) :=
  if m.head = 0#64 then some (0#64, m)
  else if locked then some (0#64, m)
  else do
    let current := m.head
    let next ← follow m.next (fun p => p == current || !(m.tasks p).blocked) turns (m.next current)
    let switches := m.switches
    let m := { m with switches := switches + 1#64 }
    if switches = 0#64 then return (current, m)
    let task := m.tasks current
    let m := m.store current { task with context := { task.context with stackPointer := stackContext } }
    let m := { m with head := next }
    if next = current then return (0#64, m)
    return (next, m)

end TaskManager

/-- The tasks from `head` on. -/
structure Ordered (m : TaskManager) (ring : List Pointer) : Prop where
  head : m.head = ring.headD 0#64
  nonnull : 0#64 ∉ ring
  nodup : ring.Nodup
  linked : Ring m.next m.prev ring
  count : m.taskCount.toNat = ring.length
  issued : ∀ p ∈ ring, 1 ≤ (m.tasks p).id.toNat ∧ (m.tasks p).id.toNat ≤ ring.length
  ids : ∀ p ∈ ring, ∀ q ∈ ring, (m.tasks p).id = (m.tasks q).id → p = q

/-- The part of the order that a switch depends on. -/
structure Circle (m : TaskManager) (ring : List Pointer) : Prop where
  head : m.head = ring.headD 0#64
  nonnull : 0#64 ∉ ring
  nodup : ring.Nodup
  linked : Ring m.next m.prev ring

section
variable {m : TaskManager} {ring : List Pointer}

theorem Ordered.circle (h : Ordered m ring) : Circle m ring := ⟨h.head, h.nonnull, h.nodup, h.linked⟩

/-- Different addresses that are not null. -/
theorem length_lt_of_nodup (h0 : 0#64 ∉ ring) (h : ring.Nodup) : ring.length < 2 ^ 64 := by
  have hsub : (ring.map BitVec.toNat).toFinset ⊆ (Finset.range (2 ^ 64)).erase 0 := by
    intro n hn
    obtain ⟨p, hp, rfl⟩ := List.mem_map.mp (List.mem_toFinset.mp hn)
    refine Finset.mem_erase.mpr ⟨fun hz => h0 ?_, Finset.mem_range.mpr p.isLt⟩
    have hzero : p = 0#64 := BitVec.eq_of_toNat_eq hz
    rwa [← hzero]
  have hcard := Finset.card_le_card hsub
  rw [List.toFinset_card_of_nodup (h.map (fun _ _ => BitVec.eq_of_toNat_eq)), List.length_map,
    Finset.card_erase_of_mem (Finset.mem_range.mpr (by decide)), Finset.card_range] at hcard
  omega

theorem Ordered.room (h : Ordered m ring) : ring.length < 2 ^ 64 := length_lt_of_nodup h.nonnull h.nodup

theorem Ordered.head_eq_zero (h : Ordered m ring) : m.head = 0#64 ↔ ring = [] := by
  rw [h.head]
  cases ring with
  | nil => exact ⟨fun _ => rfl, fun _ => rfl⟩
  | cons a l =>
    have ha : a ≠ 0#64 := fun he => h.nonnull (he ▸ List.mem_cons_self)
    exact ⟨fun he => absurd he ha, fun he => by cases he⟩

theorem Ordered.inverse (h : Ordered m ring) {tasks : List Pointer} (hperm : ring.Perm tasks) : ∀ p ∈ tasks,
    (m.next p ∈ tasks ∧ m.prev (m.next p) = p) ∧ m.prev p ∈ tasks ∧ m.next (m.prev p) = p := by
  intro p hp
  obtain ⟨⟨h1, h2⟩, h3, h4⟩ := h.linked.neighbours (hperm.mem_iff.mpr hp)
  exact ⟨⟨hperm.mem_iff.mp h1, h2⟩, hperm.mem_iff.mp h3, h4⟩

theorem Ordered.reached (h : Ordered m ring) {tasks : List Pointer} (hperm : ring.Perm tasks) : ∀ p ∈ tasks,
    ∃! k, k < tasks.length ∧ m.next^[k] m.head = p := by
  intro p hp
  have hmem := hperm.mem_iff.mpr hp
  rw [← hperm.length_eq]
  cases ring with
  | nil => cases hmem
  | cons a l =>
    have hhead : m.head = a := h.head
    rw [hhead]
    exact h.linked.reach h.nodup hmem

/-- The task with an id, 0 when there is none. -/
def withId (m : TaskManager) (ring : List Pointer) (taskId : BitVec 64) : Pointer :=
  (ring.find? fun p => (m.tasks p).id == taskId).getD 0#64

theorem Ordered.findTask (h : Ordered m ring) (taskId : BitVec 64) :
    m.findTask taskId = some (withId m ring taskId) := by
  unfold TaskManager.findTask withId
  cases ring with
  | nil => rw [if_pos (h.head_eq_zero.mpr rfl)]; rfl
  | cons a l =>
    have hhead : m.head = a := h.head
    have ha : a ≠ 0#64 := fun he => h.nonnull (he ▸ List.mem_cons_self)
    rw [hhead, if_neg ha]
    by_cases hid : (m.tasks a).id = taskId
    · rw [if_pos hid, List.find?_cons_of_pos (by simpa using hid)]
      rfl
    · have hroom := h.room
      rw [if_neg hid, List.find?_cons_of_neg (by simpa using hid),
        h.linked.follow (by simp) (by rw [TaskManager.turns]; simp at hroom; omega)]
      -- the loop stops at the first match in `l`, or at `a`
      have hstop : ∀ l : List Pointer, a ∉ l →
          (l ++ [a]).find? (fun p => p == a || (m.tasks p).id == taskId) =
            some ((l.find? fun p => (m.tasks p).id == taskId).getD a) := by
        intro l hl
        induction l with
        | nil => simp
        | cons b l ih =>
          have hb : ¬ b = a := fun he => hl (he ▸ List.mem_cons_self)
          have hl' : a ∉ l := fun hm => hl (List.mem_cons_of_mem _ hm)
          by_cases hm : (m.tasks b).id = taskId
          · simp [hm]
          · simp [hm, hb, ih hl']
      have hnot := (List.nodup_cons.mp h.nodup).1
      rw [hstop l hnot]
      cases hf : l.find? fun p => (m.tasks p).id == taskId with
      | none => simp
      | some b =>
        have hb : b ≠ a := fun he => hnot (he ▸ List.mem_of_find?_eq_some hf)
        simp [hb]

/-- The links and ids decide the order. -/
theorem Ordered.congr {m' : TaskManager} (h : Ordered m ring) (hhead : m'.head = m.head)
    (hcount : m'.taskCount = m.taskCount) (hnext : ∀ p ∈ ring, (m'.tasks p).next = (m.tasks p).next)
    (hprev : ∀ p ∈ ring, (m'.tasks p).prev = (m.tasks p).prev)
    (hid : ∀ p ∈ ring, (m'.tasks p).id = (m.tasks p).id) : Ordered m' ring where
  head := hhead.trans h.head
  nonnull := h.nonnull
  nodup := h.nodup
  linked := h.linked.congr hnext hprev
  count := by rw [hcount, h.count]
  issued p hp := by
    rw [hid p hp]
    exact h.issued p hp
  ids p hp q hq he := by
    rw [hid p hp, hid q hq] at he
    exact h.ids p hp q hq he

/-- A task keeps its place when its links and its id stay. -/
theorem Ordered.store (h : Ordered m ring) (p : Pointer) {t : Task} (hnext : t.next = (m.tasks p).next)
    (hprev : t.prev = (m.tasks p).prev) (hid : t.id = (m.tasks p).id) : Ordered (m.store p t) ring := by
  have hfields : ∀ q, ((m.store p t).tasks q).next = (m.tasks q).next ∧
      ((m.store p t).tasks q).prev = (m.tasks q).prev ∧ ((m.store p t).tasks q).id = (m.tasks q).id := by
    intro q
    by_cases hq : q = p
    · subst hq
      simp [TaskManager.store, hnext, hprev, hid]
    · simp [TaskManager.store, hq]
  exact h.congr rfl rfl (fun q _ => (hfields q).1) (fun q _ => (hfields q).2.1) fun q _ => (hfields q).2.2

/-- `blocked` changes in one task. -/
theorem Ordered.setBlocked (h : Ordered m ring) (p : Pointer) (blocked : Bool) :
    Ordered (m.store p { m.tasks p with blocked }) ring ∧ ∀ q, (m.store p { m.tasks p with blocked }).tasks q = m.tasks q ∨
      q = p ∧ (m.store p { m.tasks p with blocked }).tasks q = { m.tasks q with blocked } := by
  refine ⟨h.store p rfl rfl rfl, fun q => ?_⟩
  by_cases hq : q = p
  · subst hq
    exact .inr ⟨rfl, by simp [TaskManager.store]⟩
  · exact .inl (by simp [TaskManager.store, hq])

/-- Only the task with this id is touched, and only if it is blockable. -/
theorem Ordered.blockTask (h : Ordered m ring) (taskId : BitVec 64) :
    ∃ m', m.blockTask taskId = some m' ∧ Ordered m' ring ∧ m'.head = m.head ∧ m'.switches = m.switches ∧
      ∀ p, m'.tasks p = m.tasks p ∨ (m.tasks p).blockable = true ∧ m'.tasks p = { m.tasks p with blocked := true } := by
  unfold TaskManager.blockTask
  rw [h.findTask taskId, Option.bind_eq_bind, Option.bind_some]
  split
  · rename_i hb
    obtain ⟨hordered, htasks⟩ := h.setBlocked (withId m ring taskId) true
    refine ⟨_, rfl, hordered, rfl, rfl, fun p => (htasks p).imp_right ?_⟩
    rintro ⟨rfl, hp⟩
    exact ⟨hb.2, hp⟩
  · exact ⟨m, rfl, h, rfl, rfl, fun p => .inl rfl⟩

theorem Ordered.unblockTask (h : Ordered m ring) (taskId : BitVec 64) :
    ∃ m', m.unblockTask taskId = some m' ∧ Ordered m' ring ∧ m'.head = m.head ∧ m'.switches = m.switches ∧
      ∀ p, m'.tasks p = m.tasks p ∨ m'.tasks p = { m.tasks p with blocked := false } := by
  unfold TaskManager.unblockTask
  rw [h.findTask taskId, Option.bind_eq_bind, Option.bind_some]
  split
  · obtain ⟨hordered, htasks⟩ := h.setBlocked (withId m ring taskId) false
    exact ⟨_, rfl, hordered, rfl, rfl, fun p => (htasks p).imp_right And.right⟩
  · exact ⟨m, rfl, h, rfl, rfl, fun p => .inl rfl⟩

/-! ## A new task -/

variable {context : TaskContext} {blockable : Bool} {newTask : Pointer}

/-- The tasks after a new one is linked in between `tail` and `a`. -/
def withNew (m : TaskManager) (a newTask : Pointer) (context : TaskContext) (blockable : Bool) (p : Pointer) : Task :=
  if p = newTask then ⟨blockable, false, m.taskCount + 1#64, m.prev a, a, context⟩
  else { m.tasks p with next := if p = m.prev a then newTask else m.next p
                        prev := if p = a then newTask else m.prev p }

theorem link_first (h : m.head = 0#64) : m.link context blockable newTask =
    { m with head := newTask, taskCount := m.taskCount + 1#64,
             tasks := Function.update m.tasks newTask
               ⟨blockable, false, m.taskCount + 1#64, newTask, newTask, context⟩ } := by
  unfold TaskManager.link
  simp [TaskManager.store, h]

theorem link_behind (h : m.head ≠ 0#64) (hhead : newTask ≠ m.head) (htail : newTask ≠ m.prev m.head) :
    m.link context blockable newTask =
      { m with taskCount := m.taskCount + 1#64, tasks := withNew m m.head newTask context blockable } := by
  have hprev : ∀ t c, TaskManager.prev ⟨m.switches, m.head, c, Function.update m.tasks newTask t⟩ m.head =
      m.prev m.head := by
    intro t c
    simp [TaskManager.prev, hhead.symm]
  unfold TaskManager.link
  simp only [TaskManager.store, BitVec.ofNat_eq_ofNat, h, if_false, hprev]
  congr 1
  funext p
  unfold withNew TaskManager.next TaskManager.prev at *
  by_cases hnew : p = newTask
  · subst hnew
    simp [hhead, htail]
  · by_cases ha : p = m.head
    · subst ha
      by_cases ht : m.head = (m.tasks m.head).prev
      · rw [← ht]
        simp [hnew]
      · simp [hnew, ht]
    · by_cases ht : p = (m.tasks m.head).prev
      · subst ht
        simp [hnew, ha]
      · simp [hnew, ha, ht]

/-- The new task comes last, and the others keep all but their links. -/
structure Added (m m' : TaskManager) (ring : List Pointer) (newTask : Pointer) (context : TaskContext)
    (blockable : Bool) : Prop where
  ordered : Ordered m' (ring ++ [newTask])
  switches : m'.switches = m.switches
  kept : ∀ p ∈ ring, ∃ prev next, m'.tasks p = { m.tasks p with prev := prev, next := next }
  fresh : ∃ prev next, m'.tasks newTask = ⟨blockable, false, m.taskCount + 1#64, prev, next, context⟩

theorem Ordered.newId (h : Ordered m ring) (hroom : ring.length + 1 < 2 ^ 64) :
    (m.taskCount + 1#64).toNat = ring.length + 1 := by
  rw [BitVec.toNat_add, h.count]
  exact Nat.mod_eq_of_lt hroom

/-- The id of the new task is the next one. -/
theorem Ordered.append {m' : TaskManager} (h : Ordered m ring) (h0 : newTask ≠ 0#64) (hnew : newTask ∉ ring)
    (hhead : m'.head = (ring ++ [newTask]).headD 0#64) (hlinked : Ring m'.next m'.prev (ring ++ [newTask]))
    (hcount : m'.taskCount = m.taskCount + 1#64) (hid : (m'.tasks newTask).id = m.taskCount + 1#64)
    (hids : ∀ p ∈ ring, (m'.tasks p).id = (m.tasks p).id) : Ordered m' (ring ++ [newTask]) := by
  have hnonnull : 0#64 ∉ ring ++ [newTask] := by
    simp only [List.mem_append, List.mem_singleton, not_or]
    exact ⟨h.nonnull, h0.symm⟩
  have hnodup : (ring ++ [newTask]).Nodup := by
    refine List.nodup_append.mpr ⟨h.nodup, List.nodup_singleton _, fun p hp q hq => ?_⟩
    rw [List.mem_singleton.mp hq]
    exact fun he => hnew (he ▸ hp)
  have hroom : ring.length + 1 < 2 ^ 64 := by
    have hlt := length_lt_of_nodup hnonnull hnodup
    simpa using hlt
  have hnext := h.newId hroom
  refine ⟨hhead, hnonnull, hnodup, hlinked, ?_, fun p hp => ?_, fun p hp q hq he => ?_⟩
  · rw [hcount, hnext, List.length_append, List.length_singleton]
  · rw [List.length_append, List.length_singleton]
    rcases List.mem_append.mp hp with hp | hp
    · have hold := h.issued p hp
      rw [hids p hp]
      omega
    · rw [List.mem_singleton.mp hp, hid, hnext]
      omega
  · -- an old id is not above the count
    have hold : ∀ p ∈ ring, (m'.tasks p).id ≠ m.taskCount + 1#64 := by
      intro p hp he
      have hle := h.issued p hp
      rw [← hids p hp, he, hnext] at hle
      omega
    rcases List.mem_append.mp hp with hp | hp <;> rcases List.mem_append.mp hq with hq | hq
    · rw [hids p hp, hids q hq] at he
      exact h.ids p hp q hq he
    · rw [List.mem_singleton.mp hq, hid] at he
      exact absurd he (hold p hp)
    · rw [List.mem_singleton.mp hp, hid] at he
      exact absurd he.symm (hold q hq)
    · rw [List.mem_singleton.mp hp, List.mem_singleton.mp hq]

theorem Ordered.link (h : Ordered m ring) (h0 : newTask ≠ 0#64) (hnew : newTask ∉ ring) :
    Added m (m.link context blockable newTask) ring newTask context blockable := by
  cases ring with
  | nil =>
    rw [link_first (h.head_eq_zero.mpr rfl)]
    refine ⟨h.append h0 hnew rfl (ring_single ?_ ?_) rfl ?_ (fun p hp => by cases hp), rfl,
      (fun p hp => by cases hp), ⟨newTask, newTask, Function.update_self ..⟩⟩
    · simp [TaskManager.next]
    · simp [TaskManager.prev]
    · simp
  | cons a l =>
    have hhead : m.head = a := h.head
    have ha : a ≠ 0#64 := fun he => h.nonnull (he ▸ List.mem_cons_self)
    have hprev := (h.linked.neighbours List.mem_cons_self).2.1
    have hne : newTask ≠ a := fun he => hnew (he ▸ List.mem_cons_self)
    have htail : newTask ≠ m.prev a := fun he => hnew (he ▸ hprev)
    have hother : ∀ p ∈ a :: l, p ≠ newTask := fun p hp he => hnew (he ▸ hp)
    have hlink : m.link context blockable newTask =
        { m with taskCount := m.taskCount + 1#64, tasks := withNew m a newTask context blockable } := by
      rw [link_behind (by rwa [hhead]) (by rwa [hhead]) (by rwa [hhead]), hhead]
    have hrest : ∀ p ∈ a :: l, withNew m a newTask context blockable p =
        { m.tasks p with next := if p = m.prev a then newTask else m.next p
                         prev := if p = a then newTask else m.prev p } := fun p hp => if_neg (hother p hp)
    have hfresh : withNew m a newTask context blockable newTask =
        ⟨blockable, false, m.taskCount + 1#64, m.prev a, a, context⟩ := if_pos rfl
    rw [hlink]
    refine ⟨h.append h0 hnew hhead ?_ rfl ?_ fun p hp => ?_, rfl, fun p hp => ⟨_, _, hrest p hp⟩, ⟨_, _, hfresh⟩⟩
    · refine h.linked.insert h.nodup ?_ ?_ ?_ ?_ ?_ ?_
      · simp only [TaskManager.next, hrest _ hprev, if_true]
      · simp only [TaskManager.next, hfresh]
      · simp only [TaskManager.prev, hfresh]
      · simp only [TaskManager.prev, hrest a List.mem_cons_self, if_true]
      · intro y hy hne
        simp only [TaskManager.next, hrest y hy]
        exact if_neg hne
      · intro y hy hne
        simp only [TaskManager.prev, hrest y hy]
        exact if_neg hne
    · simp only [hfresh]
    · simp only [hrest p hp]

/-- A context that `AddTask` takes. -/
def TaskContext.Valid (context : TaskContext) : Prop :=
  ¬ (context.cr3 = 0#64 ∨ context.instructionPointer = 0#64 ∨ context.stackPointer = 0#64)

theorem Ordered.addTask_accepted (h : Ordered m ring) (context : TaskContext) (blockable : Bool) (mem : Pointer)
    (hc : context.Valid) (h0 : mem ≠ 0#64) (hmem : mem ∉ ring) :
    ∃ id m', m.addTask context blockable mem = (id, m') ∧ id ≠ 0#64 ∧ Added m m' ring mem context blockable := by
  have hadded : Added m (m.link context blockable mem) ring mem context blockable := h.link h0 hmem
  unfold TaskManager.addTask
  rw [if_neg hc, if_neg h0]
  refine ⟨_, _, rfl, fun hid => ?_, hadded⟩
  have hissued := hadded.ordered.issued mem (List.mem_append_right _ (List.mem_singleton_self _))
  rw [hid] at hissued
  exact absurd hissued.1 (by decide)

/-- A call of `AddTask` is refused and changes nothing, or adds a task. -/
theorem Ordered.addTask (h : Ordered m ring) (context : TaskContext) (blockable : Bool) {mem : Pointer}
    (hmem : mem ∉ ring) :
    m.addTask context blockable mem = (0#64, m) ∨
      ∃ id m', m.addTask context blockable mem = (id, m') ∧ id ≠ 0#64 ∧ context.Valid ∧
        Added m m' ring mem context blockable := by
  by_cases hc : context.cr3 = 0#64 ∨ context.instructionPointer = 0#64 ∨ context.stackPointer = 0#64
  · exact .inl (if_pos hc)
  by_cases h0 : mem = 0#64
  · left
    unfold TaskManager.addTask
    rw [if_neg hc, if_pos h0]
  obtain ⟨id, m', hrun, hid, hadded⟩ := h.addTask_accepted context blockable mem hc h0 hmem
  exact .inr ⟨id, m', hrun, hid, hc, hadded⟩

/-! ## A switch -/

/-- The context of the current task saved, and `next` in its place. -/
def saved (m : TaskManager) (stackContext next : Pointer) : TaskManager :=
  let task := m.tasks m.head
  { (m.store m.head { task with context := { task.context with stackPointer := stackContext } }) with
    switches := m.switches + 1#64, head := next }

/-- What a switch does that is not refused: the task it returns, the manager and the order after
it. The first one returns the current task. The others go to the first task behind it that is not
blocked; the current one comes last, and whether it is blocked is not looked at. -/
inductive Switched (m : TaskManager) (stackContext a : Pointer) (l : List Pointer) :
    Pointer → TaskManager → List Pointer → Prop
  | first : m.switches = 0#64 → Switched m stackContext a l a { m with switches := m.switches + 1#64 } (a :: l)
  | stay : m.switches ≠ 0#64 → (∀ p ∈ l, (m.tasks p).blocked = true) →
      Switched m stackContext a l 0#64 (saved m stackContext a) (a :: l)
  | move (xs ys : List Pointer) (q : Pointer) : m.switches ≠ 0#64 → l = xs ++ q :: ys →
      (∀ p ∈ xs, (m.tasks p).blocked = true) → (m.tasks q).blocked = false →
      Switched m stackContext a l q (saved m stackContext q) (q :: ys ++ a :: xs)

theorem saved_same (m : TaskManager) (stackContext next p : Pointer) :
    ((saved m stackContext next).tasks p).next = (m.tasks p).next ∧
      ((saved m stackContext next).tasks p).prev = (m.tasks p).prev ∧
      ((saved m stackContext next).tasks p).id = (m.tasks p).id ∧
      ((saved m stackContext next).tasks p).blockable = (m.tasks p).blockable ∧
      ((saved m stackContext next).tasks p).blocked = (m.tasks p).blocked ∧
      ((saved m stackContext next).tasks p).context.cr3 = (m.tasks p).context.cr3 ∧
      ((saved m stackContext next).tasks p).context.stackPointer =
        if p = m.head then stackContext else (m.tasks p).context.stackPointer := by
  by_cases hp : p = m.head
  · subst hp
    simp [saved, TaskManager.store]
  · simp [saved, TaskManager.store, hp]

/-- The order does not depend on which task is read first. -/
theorem Circle.rotate (xs : List Pointer) {ys : List Pointer} {q : Pointer} (h : Circle m (xs ++ q :: ys)) :
    Circle { m with head := q } (q :: ys ++ xs) where
  head := rfl
  nonnull h0 := h.nonnull (List.perm_append_comm.mem_iff.mp h0)
  nodup := (List.perm_append_comm.nodup_iff).mp h.nodup
  linked := h.linked.rotate

theorem Circle.save (h : Circle m ring) (stackContext : Pointer) : Circle (saved m stackContext m.head) ring where
  head := h.head
  nonnull := h.nonnull
  nodup := h.nodup
  linked := h.linked.congr (fun p _ => (saved_same m stackContext m.head p).1)
    fun p _ => (saved_same m stackContext m.head p).2.1

theorem Ordered.save (h : Ordered m ring) (stackContext : Pointer) :
    Ordered (saved m stackContext m.head) ring :=
  h.congr rfl rfl (fun p _ => (saved_same m stackContext m.head p).1)
    (fun p _ => (saved_same m stackContext m.head p).2.1) fun p _ => (saved_same m stackContext m.head p).2.2.1

/-- The search for the next task comes back to `a` only when the others are all blocked. -/
theorem find_next (blocked : Pointer → Bool) {a : Pointer} (l : List Pointer) (ha : a ∉ l) :
    ∃ next, (l ++ [a]).find? (fun p => p == a || !blocked p) = some next ∧
      (next = a ∧ (∀ p ∈ l, blocked p = true) ∨
        ∃ xs ys, l = xs ++ next :: ys ∧ (∀ p ∈ xs, blocked p = true) ∧ blocked next = false) := by
  induction l with
  | nil => exact ⟨a, by simp, .inl ⟨rfl, fun p hp => by cases hp⟩⟩
  | cons b l ih =>
    have hb : ¬ b = a := fun he => ha (he ▸ List.mem_cons_self)
    obtain ⟨next, hfind, hnext⟩ := ih fun hm => ha (List.mem_cons_of_mem _ hm)
    cases hblocked : blocked b with
    | false => exact ⟨b, by simp [hblocked], .inr ⟨[], l, rfl, (fun p hp => by cases hp), hblocked⟩⟩
    | true =>
      refine ⟨next, by simpa [hb, hblocked] using hfind, ?_⟩
      obtain ⟨rfl, hall⟩ | ⟨xs, ys, rfl, hall, hfree⟩ := hnext
      · exact .inl ⟨rfl, List.forall_mem_cons.mpr ⟨hblocked, hall⟩⟩
      · exact .inr ⟨b :: xs, ys, rfl, List.forall_mem_cons.mpr ⟨hblocked, hall⟩, hfree⟩

/-- A switch that is refused. -/
theorem taskSwitch_refused {stackContext : Pointer} {locked : Bool}
    (h : m.head = 0#64 ∨ locked = true) : m.taskSwitch stackContext locked = some (0#64, m) := by
  unfold TaskManager.taskSwitch
  by_cases h0 : m.head = 0#64
  · rw [if_pos h0]
  · rw [if_neg h0, if_pos (h.resolve_left h0)]

/-- A switch that is not refused has the lock, and a ring to go around. -/
theorem Ordered.not_refused {locked : Bool} (h : Ordered m ring) (hrefused : ¬ (m.head = 0#64 ∨ locked = true)) :
    m.head ≠ 0#64 ∧ locked = false ∧ ∃ a l, ring = a :: l := by
  obtain ⟨h0, hlocked⟩ := not_or.mp hrefused
  refine ⟨h0, by simpa using hlocked, ?_⟩
  cases ring with
  | nil => exact absurd (h.head_eq_zero.mpr rfl) h0
  | cons a l => exact ⟨a, l, rfl⟩

/-- A switch ends, and keeps the circle. -/
theorem Circle.taskSwitch {a : Pointer} {l : List Pointer} (h : Circle m (a :: l)) (stackContext : Pointer) :
    ∃ r m' ring', m.taskSwitch stackContext false = some (r, m') ∧ Switched m stackContext a l r m' ring' ∧
      Circle m' ring' := by
  have hhead : m.head = a := h.head
  have ha : a ≠ 0#64 := fun he => h.nonnull (he ▸ List.mem_cons_self)
  have hnot := (List.nodup_cons.mp h.nodup).1
  have hroom := length_lt_of_nodup h.nonnull h.nodup
  have hfollow : follow m.next (fun p => p == a || !(m.tasks p).blocked) TaskManager.turns (m.next a) =
      (l ++ [a]).find? fun p => p == a || !(m.tasks p).blocked :=
    h.linked.follow (by simp) (by rw [TaskManager.turns]; simp at hroom; omega)
  obtain ⟨next, hfind, hnext⟩ := find_next (fun p => (m.tasks p).blocked) l hnot
  have hrun : m.taskSwitch stackContext false =
      if m.switches = 0#64 then some (a, { m with switches := m.switches + 1#64 })
      else if next = a then some (0#64, saved m stackContext next) else some (next, saved m stackContext next) := by
    unfold TaskManager.taskSwitch saved
    rw [hhead, if_neg ha, if_neg (by decide)]
    dsimp only
    rw [hfollow, hfind]
    rfl
  by_cases hfirst : m.switches = 0#64
  · rw [hrun, if_pos hfirst]
    exact ⟨_, _, _, rfl, .first hfirst, h.head, h.nonnull, h.nodup, h.linked⟩
  rw [hrun, if_neg hfirst]
  have hsaved := h.save stackContext
  rw [hhead] at hsaved
  obtain ⟨rfl, hall⟩ | ⟨xs, ys, rfl, hall, hfree⟩ := hnext
  · rw [if_pos rfl]
    exact ⟨_, _, _, rfl, .stay hfirst hall, hsaved⟩
  · have hne : next ≠ a := fun he => hnot (he ▸ List.mem_append_right _ List.mem_cons_self)
    rw [if_neg hne]
    exact ⟨_, _, _, rfl, .move xs ys next hfirst rfl hall hfree, Circle.rotate (a :: xs) hsaved⟩

section
variable {m' : TaskManager} {stackContext a r : Pointer} {l ring' : List Pointer}

theorem Switched.perm (h : Switched m stackContext a l r m' ring') : ring'.Perm (a :: l) := by
  cases h with
  | first => exact List.Perm.refl _
  | stay => exact List.Perm.refl _
  | move xs ys _ _ hl => exact hl ▸ List.perm_append_comm

/-- The counter goes on, and the tasks keep their ids and whether they are blocked. -/
theorem Switched.keeps (h : Switched m stackContext a l r m' ring') : m'.taskCount = m.taskCount ∧
    m'.switches = m.switches + 1#64 ∧ ∀ p, (m'.tasks p).id = (m.tasks p).id ∧
      (m'.tasks p).blocked = (m.tasks p).blocked := by
  cases h with
  | first => exact ⟨rfl, rfl, fun p => ⟨rfl, rfl⟩⟩
  | stay | move =>
    exact ⟨rfl, rfl, fun p => ⟨(saved_same m stackContext _ p).2.2.1, (saved_same m stackContext _ p).2.2.2.2.1⟩⟩

end

/-- A switch ends, and keeps the ring. -/
theorem Ordered.taskSwitch {a : Pointer} {l : List Pointer} (h : Ordered m (a :: l)) (stackContext : Pointer) :
    ∃ r m' ring', m.taskSwitch stackContext false = some (r, m') ∧ Switched m stackContext a l r m' ring' ∧
      Ordered m' ring' := by
  obtain ⟨r, m', ring', hrun, hswitched, hcircle⟩ := h.circle.taskSwitch stackContext
  have hperm := hswitched.perm
  obtain ⟨hcount, -, hsame⟩ := hswitched.keeps
  refine ⟨r, m', ring', hrun, hswitched, hcircle.head, hcircle.nonnull, hcircle.nodup, hcircle.linked, ?_, ?_, ?_⟩
  · rw [hcount, hperm.length_eq, h.count]
  · intro p hp
    rw [(hsame p).1, hperm.length_eq]
    exact h.issued p (hperm.mem_iff.mp hp)
  · intro p hp q hq he
    rw [(hsame p).1, (hsame q).1] at he
    exact h.ids p (hperm.mem_iff.mp hp) q (hperm.mem_iff.mp hq) he

end

end BadLands.Sched
