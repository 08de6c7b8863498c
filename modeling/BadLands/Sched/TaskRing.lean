import BadLands.Core.Machine
import BadLands.Sched.TaskManager

/-!
# The ring of tasks over whole runs

Any sequence of `AddTask`, `BlockTask`, `UnblockTask` and `TaskSwitch`, from an empty manager
whose first task is not blockable. The tasks stay in a circle under different ids, and every call
returns. That a switch does not land on a blocked task rests on the counter `switches`: it tells
the first switch, which keeps the current task, and it has 64 bits. When it has come round to
zero a switch takes the path of the first one, and the current task stays though it is blocked.

`switch_lands_iff` is the exact condition; `ring_blocked_head` the run of `2 ^ 64` switches.
-/
namespace BadLands.Sched

open BadLands.Core BadLands.Core.LinkedRing BadLands.Core.Machine

/-- `added`: the tasks that `AddTask` has accepted. `started`: a switch has obtained the lock.
`landed`: the last call was a switch that obtained the lock, and not the first one. -/
structure System where
  manager : TaskManager
  added : List Pointer
  started : Bool
  landed : Bool

/-- `mem` is the memory that `AddTask` gets; `locked`: the switch finds the lock held. -/
inductive Act where
  | addTask (context : TaskContext) (blockable : Bool) (mem : Pointer)
  | blockTask (taskId : BitVec 64)
  | unblockTask (taskId : BitVec 64)
  | taskSwitch (stackContext : Pointer) (locked : Bool)

/-- The heap does not give out the memory of a task again, and the first task is not blockable. -/
def step (s : System) : Act → Option System
  | .addTask context blockable mem =>
    let (id, m) := s.manager.addTask context blockable mem
    if mem ∈ s.added then none
    else if id = 0#64 then some { s with manager := m, landed := false }
    else if s.added = [] ∧ blockable then none
    else some { s with manager := m, added := s.added ++ [mem], landed := false }
  | .blockTask taskId => do
    let m ← s.manager.blockTask taskId
    return { s with manager := m, landed := false }
  | .unblockTask taskId => do
    let m ← s.manager.unblockTask taskId
    return { s with manager := m, landed := false }
  | .taskSwitch stackContext locked => do
    let obtained := s.manager.head != 0#64 && !locked
    let (_, m) ← s.manager.taskSwitch stackContext locked
    return { s with manager := m, started := s.started || obtained, landed := s.started && obtained }

/-- A manager as it is constructed. -/
def start (tasks : Pointer → Task) : System := ⟨⟨0#64, 0#64, 0#64, tasks⟩, [], false, false⟩

/-- A circular doubly linked list of the tasks, with different ids; after a switch, a current task
that is not blocked. Every call returns. -/
structure Conforms (s : System) : Prop where
  inverse : ∀ p ∈ s.added, (s.manager.next p ∈ s.added ∧ s.manager.prev (s.manager.next p) = p) ∧
    s.manager.prev p ∈ s.added ∧ s.manager.next (s.manager.prev p) = p
  reached : ∀ p ∈ s.added, ∃! k, k < s.added.length ∧ s.manager.next^[k] s.manager.head = p
  distinct : ∀ p ∈ s.added, ∀ q ∈ s.added, (s.manager.tasks p).id = (s.manager.tasks q).id → p = q
  runs : s.landed = true → s.manager.head ∈ s.added ∧ (s.manager.tasks s.manager.head).blocked = false
  finds : ∀ taskId, s.manager.findTask taskId ≠ none
  switches : ∀ stackContext locked, s.manager.taskSwitch stackContext locked ≠ none

/-- A switch after the first one that obtains the lock while the counter is at zero is made by a
task that is not blocked. -/
def StepOk (s : System) : Act → Prop
  | .taskSwitch _ locked => s.started = true → locked = false → s.manager.switches = 0#64 →
      (s.manager.tasks s.manager.head).blocked = false
  | _ => True

structure Inv (s : System) (ring : List Pointer) : Prop where
  ordered : Ordered s.manager ring
  perm : ring.Perm s.added
  blockable : ∀ p ∈ ring, (s.manager.tasks p).blocked = true → (s.manager.tasks p).blockable = true
  idle : ring ≠ [] → ∃ p ∈ ring, (s.manager.tasks p).blockable = false
  runs : s.landed = true → (s.manager.tasks s.manager.head).blocked = false
  fresh : s.started = false → s.manager.switches = 0#64
  started : s.started = true → ring ≠ []
  landed : s.landed = true → s.started = true

section
variable {s s' : System} {ring : List Pointer}

theorem Inv.conforms (h : Inv s ring) : Conforms s where
  inverse := h.ordered.inverse h.perm
  reached := h.ordered.reached h.perm
  distinct p hp q hq := h.ordered.ids p (h.perm.mem_iff.mpr hp) q (h.perm.mem_iff.mpr hq)
  runs hl := by
    refine ⟨?_, h.runs hl⟩
    have hne := h.started (h.landed hl)
    cases ring with
    | nil => exact absurd rfl hne
    | cons a l =>
      have hhead : s.manager.head = a := h.ordered.head
      rw [hhead]
      exact h.perm.mem_iff.mp List.mem_cons_self
  finds taskId := by
    rw [h.ordered.findTask]
    exact Option.some_ne_none _
  switches stackContext locked := by
    cases hring : ring with
    | nil =>
      subst hring
      unfold TaskManager.taskSwitch
      rw [if_pos (h.ordered.head_eq_zero.mpr rfl)]
      exact Option.some_ne_none _
    | cons a l =>
      subst hring
      cases locked with
      | true =>
        unfold TaskManager.taskSwitch
        split <;> exact Option.some_ne_none _
      | false =>
        obtain ⟨r, m', ring', hrun, -, -⟩ := h.ordered.taskSwitch stackContext
        rw [hrun]
        exact Option.some_ne_none _

theorem inv_start (tasks : Pointer → Task) : Inv (start tasks) [] where
  ordered := ⟨rfl, by simp, List.nodup_nil, trivial, rfl, (fun p hp => by cases hp), fun p hp => by cases hp⟩
  perm := List.Perm.nil
  blockable p hp := by cases hp
  idle h := absurd rfl h
  runs h := by cases h
  fresh _ := rfl
  started h := by cases h
  landed h := by cases h

theorem Inv.addTask {context : TaskContext} {blockable : Bool} {mem : Pointer} (h : Inv s ring)
    (hs : step s (.addTask context blockable mem) = some s') : ∃ ring', Inv s' ring' := by
  simp only [step] at hs
  split at hs
  · cases hs
  · rename_i hmem
    have hnot : mem ∉ ring := fun hm => hmem (h.perm.mem_iff.mp hm)
    obtain hrun | ⟨id, m', hrun, hid, -, ha⟩ := h.ordered.addTask context blockable hnot
    · rw [hrun, if_pos rfl] at hs
      cases hs
      exact ⟨ring, h.ordered, h.perm, h.blockable, h.idle, (fun hl => by cases hl), h.fresh, h.started,
        fun hl => by cases hl⟩
    · rw [hrun, if_neg hid] at hs
      split at hs
      · cases hs
      · rename_i hfirst
        cases hs
        have hkept : ∀ p ∈ ring, (m'.tasks p).blocked = (s.manager.tasks p).blocked ∧
            (m'.tasks p).blockable = (s.manager.tasks p).blockable := by
          intro p hp
          obtain ⟨prev, next, he⟩ := ha.kept p hp
          rw [he]
          exact ⟨rfl, rfl⟩
        obtain ⟨prev, next, hnew⟩ := ha.fresh
        refine ⟨ring ++ [mem], ha.ordered, h.perm.append_right [mem], ?_, fun _ => ?_, (fun hl => by cases hl),
          fun hf => ha.switches.trans (h.fresh hf), ?_, fun hl => by cases hl⟩
        · intro p hp hblocked
          rcases List.mem_append.mp hp with hp | hp
          · rw [(hkept p hp).2]
            rw [(hkept p hp).1] at hblocked
            exact h.blockable p hp hblocked
          · rw [List.mem_singleton.mp hp, hnew] at hblocked
            cases hblocked
        · -- the first task, or one that was there before
          by_cases hring : ring = []
          · refine ⟨mem, List.mem_append_right _ (List.mem_singleton_self _), ?_⟩
            have hadded : s.added = [] := by
              rw [hring] at h
              exact List.nil_perm.mp h.perm
            rw [hnew]
            simpa [hadded] using hfirst
          · obtain ⟨p, hp, hidle⟩ := h.idle hring
            exact ⟨p, List.mem_append_left _ hp, (hkept p hp).2.trans hidle⟩
        · exact fun _ => List.append_ne_nil_of_right_ne_nil _ (List.cons_ne_nil _ _)

/-- Calls that keep the ring, the counter and which tasks are blockable. -/
theorem Inv.frame {m' : TaskManager} (h : Inv s ring) (ho : Ordered m' ring)
    (hswitches : m'.switches = s.manager.switches)
    (hblockable : ∀ p, (m'.tasks p).blockable = (s.manager.tasks p).blockable)
    (hblocked : ∀ p, (m'.tasks p).blocked = true → (s.manager.tasks p).blocked = true ∨
      (s.manager.tasks p).blockable = true) : Inv { s with manager := m', landed := false } ring where
  ordered := ho
  perm := h.perm
  blockable p hp hb := by
    rw [hblockable]
    rcases hblocked p hb with hb | hb
    · exact h.blockable p hp hb
    · exact hb
  idle hne := by
    obtain ⟨p, hp, hidle⟩ := h.idle hne
    exact ⟨p, hp, (hblockable p).trans hidle⟩
  runs hl := by cases hl
  fresh hf := hswitches.trans (h.fresh hf)
  started := h.started
  landed hl := by cases hl

theorem Inv.blockTask {taskId : BitVec 64} (h : Inv s ring) (hs : step s (.blockTask taskId) = some s') :
    Inv s' ring := by
  obtain ⟨m', hrun, ho, -, hswitches, htasks⟩ := h.ordered.blockTask taskId
  simp only [step, hrun, Option.bind_eq_bind, Option.bind_some, Option.pure_def, Option.some.injEq] at hs
  subst hs
  refine h.frame ho hswitches (fun p => ?_) fun p hb => ?_
  · rcases htasks p with he | ⟨-, he⟩ <;> rw [he]
  · rcases htasks p with he | ⟨hblockable, -⟩
    · exact .inl (he ▸ hb)
    · exact .inr hblockable

theorem Inv.unblockTask {taskId : BitVec 64} (h : Inv s ring) (hs : step s (.unblockTask taskId) = some s') :
    Inv s' ring := by
  obtain ⟨m', hrun, ho, -, hswitches, htasks⟩ := h.ordered.unblockTask taskId
  simp only [step, hrun, Option.bind_eq_bind, Option.bind_some, Option.pure_def, Option.some.injEq] at hs
  subst hs
  refine h.frame ho hswitches (fun p => ?_) fun p hb => ?_
  · rcases htasks p with he | he <;> rw [he]
  · rcases htasks p with he | he
    · exact .inl (he ▸ hb)
    · rw [he] at hb
      cases hb

/-- The task that is never blocked is not passed over. -/
theorem Inv.not_all_blocked (h : Inv s ring) (hne : ring ≠ []) : ∃ p ∈ ring, (s.manager.tasks p).blocked = false := by
  obtain ⟨p, hp, hidle⟩ := h.idle hne
  refine ⟨p, hp, Bool.eq_false_iff.mpr fun hb => ?_⟩
  rw [h.blockable p hp hb] at hidle
  cases hidle

/-- What a switch leaves of the invariant: all but that the current task is not blocked. -/
theorem Inv.switched {m' : TaskManager} {ring' : List Pointer} {started landed : Bool} (h : Inv s ring)
    (ho : Ordered m' ring') (hperm : ring'.Perm ring) (hstarted : started = true → ring' ≠ [])
    (hfresh : started = false → m'.switches = 0#64) (hlanded : landed = true → started = true)
    (hsame : ∀ p, (m'.tasks p).blockable = (s.manager.tasks p).blockable ∧
      (m'.tasks p).blocked = (s.manager.tasks p).blocked)
    (hruns : landed = true → (s.manager.tasks m'.head).blocked = false) :
    Inv { s with manager := m', started := started, landed := landed } ring' where
  ordered := ho
  perm := hperm.trans h.perm
  blockable p hp hb := by
    rw [(hsame p).1]
    rw [(hsame p).2] at hb
    exact h.blockable p (hperm.mem_iff.mp hp) hb
  idle hne := by
    have hring : ring ≠ [] := by
      rintro rfl
      exact hne (List.perm_nil.mp hperm)
    obtain ⟨p, hp, hidle⟩ := h.idle hring
    exact ⟨p, hperm.mem_iff.mpr hp, (hsame p).1.trans hidle⟩
  runs hl := (hsame _).2.trans (hruns hl)
  fresh := hfresh
  started := hstarted
  landed := hlanded

theorem saved_tasks (m : TaskManager) (stackContext next p : Pointer) :
    ((saved m stackContext next).tasks p).blockable = (m.tasks p).blockable ∧
      ((saved m stackContext next).tasks p).blocked = (m.tasks p).blocked := by
  obtain ⟨-, -, -, h1, h2, -⟩ := saved_same m stackContext next p
  exact ⟨h1, h2⟩

theorem Inv.taskSwitch {stackContext : Pointer} {locked : Bool} (h : Inv s ring)
    (hg : StepOk s (.taskSwitch stackContext locked)) (hs : step s (.taskSwitch stackContext locked) = some s') :
    ∃ ring', Inv s' ring' := by
  by_cases hrefused : s.manager.head = 0#64 ∨ locked = true
  · have hobtained : (s.manager.head != 0#64 && !locked) = false := by
      rcases hrefused with h0 | h0 <;> simp [h0]
    simp only [step, taskSwitch_refused hrefused, hobtained, Option.bind_eq_bind, Option.bind_some, Bool.or_false,
      Bool.and_false, Option.pure_def, Option.some.injEq] at hs
    subst hs
    exact ⟨ring, h.frame h.ordered rfl (fun _ => rfl) fun _ hb => .inl hb⟩
  obtain ⟨h0, rfl, a, l, rfl⟩ := h.ordered.not_refused hrefused
  have hhead : s.manager.head = a := h.ordered.head
  obtain ⟨r, m', ring', hrun, hswitched, ho⟩ := h.ordered.taskSwitch stackContext
  have hobtained : (s.manager.head != 0#64 && !false) = true := by simpa using h0
  simp only [step, hrun, hobtained, Option.bind_eq_bind, Option.bind_some, Bool.or_true, Bool.and_true,
    Option.pure_def, Option.some.injEq] at hs
  subst hs
  refine ⟨ring', ?_⟩
  cases hswitched with
  | first hfirst =>
    exact h.switched ho (List.Perm.refl _) (fun _ => List.cons_ne_nil _ _) (fun hf => by cases hf)
      (fun hl => rfl) (fun _ => ⟨rfl, rfl⟩) fun hl => hg hl rfl hfirst
  | stay hlater hall =>
    refine h.switched ho (List.Perm.refl _) (fun _ => List.cons_ne_nil _ _) (fun hf => by cases hf)
      (fun hl => rfl) (saved_tasks _ _ _) fun _ => ?_
    -- one task is not blocked, and it is not among the others
    obtain ⟨p, hp, hfree⟩ := h.not_all_blocked (List.cons_ne_nil _ _)
    rcases List.mem_cons.mp hp with rfl | hp
    · exact hfree
    · rw [hall p hp] at hfree
      cases hfree
  | move xs ys _ hlater hl hall hfree =>
    subst hl
    have hperm : (r :: ys ++ a :: xs).Perm (a :: (xs ++ r :: ys)) := List.perm_append_comm
    exact h.switched ho hperm (fun _ => List.cons_ne_nil _ _) (fun hf => by cases hf) (fun hl => rfl)
      (saved_tasks _ _ _) fun _ => hfree

theorem Inv.step {a : Act} (h : Inv s ring) (hg : StepOk s a) (hs : Sched.step s a = some s') :
    ∃ ring', Inv s' ring' := by
  cases a with
  | addTask context blockable mem => exact h.addTask hs
  | blockTask taskId => exact ⟨ring, h.blockTask hs⟩
  | unblockTask taskId => exact ⟨ring, h.unblockTask hs⟩
  | taskSwitch stackContext locked => exact h.taskSwitch hg hs

/-- The path of the first switch, taken later by a blocked task. -/
theorem Inv.step_bad {a : Act} (h : Inv s ring) (hg : ¬ StepOk s a) (hs : Sched.step s a = some s') :
    ¬ Conforms s' := by
  cases a with
  | addTask => exact absurd trivial hg
  | blockTask => exact absurd trivial hg
  | unblockTask => exact absurd trivial hg
  | taskSwitch stackContext locked =>
    unfold StepOk at hg
    push Not at hg
    obtain ⟨hstarted, rfl, hzero, hblocked⟩ := hg
    intro hc
    cases hring : ring with
    | nil => exact h.started hstarted hring
    | cons b l =>
      subst hring
      have h0 : s.manager.head ≠ 0#64 := fun he => by
        have := h.ordered.head_eq_zero.mp he
        cases this
      obtain ⟨r, m', ring', hrun, hswitched, ho⟩ := h.ordered.taskSwitch stackContext
      have hobtained : (s.manager.head != 0#64 && !false) = true := by simpa using h0
      simp only [Sched.step, hrun, hobtained, hstarted, Option.bind_eq_bind, Option.bind_some, Bool.or_true,
        Bool.and_true, Option.pure_def, Option.some.injEq] at hs
      subst hs
      cases hswitched with
      | first hfirst => exact hblocked (hc.runs rfl).2
      | stay hlater => exact hlater hzero
      | move xs ys q hlater => exact hlater hzero

end

/-- For every sequence of calls: the ring, the ids and the current task are as they should be in
every state iff no switch after the first one is made by a blocked task while the counter of
switches is at zero. -/
theorem switch_lands_iff (tasks : Pointer → Task) (acts : List Act) :
    AllStates step Conforms (start tasks) acts ↔ AllSteps step StepOk (start tasks) acts :=
  allStates_iff_allSteps (I := fun s => ∃ ring, Inv s ring) (fun _ ⟨_, hi⟩ => hi.conforms)
    (fun _ _ _ ⟨_, hi⟩ hg hs => hi.step hg hs) (fun _ _ _ ⟨_, hi⟩ hg hs => hi.step_bad hg hs) acts (start tasks)
    ⟨[], inv_start tasks⟩

/-- The idle task of a processor, and a second task. -/
def addTwo : List Act :=
  [.addTask ⟨0x5000#64, 0x400000#64, 0x7000#64⟩ false 0x1000#64,
    .addTask ⟨0x6000#64, 0x500000#64, 0x8000#64⟩ true 0x2000#64]

/-- The tasks are switched `2 ^ 64` times, then the current one is blocked and yields. -/
def comeRound : List Act :=
  addTwo ++ List.replicate (2 ^ 64) (.taskSwitch 0x9000#64 false) ++ [.blockTask 2#64, .taskSwitch 0x9000#64 false]

/-- After `n` switches, `n` not zero. -/
structure Alternating (s : System) (n : Nat) : Prop where
  ordered : Ordered s.manager (if n % 2 = 1 then [0x1000#64, 0x2000#64] else [0x2000#64, 0x1000#64])
  idle : (s.manager.tasks 0x1000#64).blocked = false
  second : (s.manager.tasks 0x2000#64).blocked = false
  blockable : (s.manager.tasks 0x2000#64).blockable = true
  id : (s.manager.tasks 0x2000#64).id = 2#64
  switches : s.manager.switches = BitVec.ofNat 64 n
  started : s.started = true

/-- A task that is accepted. -/
theorem step_addTask {s : System} {ring : List Pointer} (ho : Ordered s.manager ring) (hring : ring = s.added)
    (context : TaskContext) (blockable : Bool) (mem : Pointer) (hmem : mem ∉ ring) (h0 : mem ≠ 0#64)
    (hc : context.Valid) (hfirst : ring = [] → blockable = false) :
    ∃ m', step s (.addTask context blockable mem) = some ⟨m', s.added ++ [mem], s.started, false⟩ ∧
      Added s.manager m' ring mem context blockable := by
  obtain ⟨id, m', hrun, hid, hadded⟩ := ho.addTask_accepted context blockable mem hc h0 hmem
  refine ⟨m', ?_, hadded⟩
  simp only [step, hrun]
  rw [if_neg (by rwa [← hring]), if_neg hid, if_neg]
  rintro ⟨he, hb⟩
  rw [hfirst (hring.trans he)] at hb
  cases hb

theorem alternating_first : ∃ s, run step (start fun _ => default) (addTwo ++ [.taskSwitch 0x9000#64 false]) = some s ∧
    Alternating s 1 := by
  obtain ⟨m₁, hstep₁, h₁⟩ := step_addTask (inv_start fun _ => default).ordered rfl
    ⟨0x5000#64, 0x400000#64, 0x7000#64⟩ false 0x1000#64 (by decide) (by decide) (by unfold TaskContext.Valid; decide)
    (fun _ => rfl)
  have hcount : m₁.taskCount = 1#64 := BitVec.eq_of_toNat_eq h₁.ordered.count
  obtain ⟨m₂, hstep₂, h₂⟩ := step_addTask (s := ⟨m₁, [0x1000#64], false, false⟩) h₁.ordered rfl
    ⟨0x6000#64, 0x500000#64, 0x8000#64⟩ true 0x2000#64 (by decide) (by decide) (by unfold TaskContext.Valid; decide)
    (fun he => by cases he)
  obtain ⟨r, m₃, ring₃, hrun, hswitched, ho⟩ := h₂.ordered.taskSwitch 0x9000#64
  have hhead : m₂.head = 0x1000#64 := h₂.ordered.head
  have hswitches : m₂.switches = 0#64 := h₂.switches.trans h₁.switches
  have hstep₃ : step ⟨m₂, [0x1000#64, 0x2000#64], false, false⟩ (.taskSwitch 0x9000#64 false) =
      some ⟨m₃, [0x1000#64, 0x2000#64], true, false⟩ := by
    simp only [step, hrun]
    simp [hhead]
  refine ⟨⟨m₃, [0x1000#64, 0x2000#64], true, false⟩, ?_, ?_⟩
  · exact (run_cons hstep₁ _).trans ((run_cons hstep₂ _).trans (run_cons hstep₃ _))
  · obtain ⟨prev, next, hnew⟩ := h₁.fresh
    obtain ⟨prev₁, next₁, hkept⟩ := h₂.kept 0x1000#64 (List.mem_singleton_self _)
    obtain ⟨prev₂, next₂, hsecond⟩ := h₂.fresh
    cases hswitched with
    | first =>
      refine ⟨ho, ?_, ?_, ?_, ?_, ?_, rfl⟩
      · simp only [hkept, hnew]
      · simp only [hsecond]
      · simp only [hsecond]
      · simp only [hsecond, hcount]
        rfl
      · simp only [hswitches]
        rfl
    | stay hlater => exact absurd hswitches hlater
    | move _ _ _ hlater => exact absurd hswitches hlater

/-- Two tasks that are not blocked take turns. -/
theorem Alternating.next {s : System} {n : Nat} (h : Alternating s n) (hpos : 0 < n) (hn : n < 2 ^ 64) :
    ∃ s', step s (.taskSwitch 0x9000#64 false) = some s' ∧ Alternating s' (n + 1) := by
  have hswitches : s.manager.switches ≠ 0#64 := by
    rw [h.switches]
    intro he
    have := congrArg BitVec.toNat he
    rw [BitVec.toNat_ofNat, Nat.mod_eq_of_lt hn] at this
    simp at this
    omega
  obtain ⟨a, b, hpair, hother, hfree⟩ : ∃ a b, (if n % 2 = 1 then [0x1000#64, 0x2000#64] else [0x2000#64, 0x1000#64])
      = [a, b] ∧ (if (n + 1) % 2 = 1 then [0x1000#64, 0x2000#64] else [0x2000#64, 0x1000#64]) = [b, a] ∧
      (s.manager.tasks b).blocked = false := by
    by_cases hodd : n % 2 = 1
    · exact ⟨_, _, if_pos hodd, if_neg (by omega), h.second⟩
    · exact ⟨_, _, if_neg hodd, if_pos (by omega), h.idle⟩
  have ho := h.ordered
  rw [hpair] at ho
  have h0 : s.manager.head ≠ 0#64 := fun he => by
    have := ho.head_eq_zero.mp he
    cases this
  obtain ⟨r, m', ring', hrun, hswitched, ho'⟩ := ho.taskSwitch 0x9000#64
  refine ⟨⟨m', s.added, true, true⟩, ?_, ?_⟩
  · simp [step, hrun, h0, h.started]
  · cases hswitched with
    | first hfirst => exact absurd hfirst hswitches
    | stay _ hall =>
      rw [hall b (List.mem_singleton_self b)] at hfree
      cases hfree
    | move xs ys _ _ hl hall _ =>
      obtain ⟨rfl, rfl, rfl⟩ : xs = [] ∧ r = b ∧ ys = [] := by
        cases xs with
        | nil => exact ⟨rfl, by simpa [eq_comm] using hl⟩
        | cons x xs =>
          have hlength := congrArg List.length hl
          simp at hlength
      have hkept := saved_same s.manager 0x9000#64 r
      refine ⟨by rw [hother]; exact ho', ?_, ?_, ?_, ?_, ?_, rfl⟩
      · exact (hkept _).2.2.2.2.1.trans h.idle
      · exact (hkept _).2.2.2.2.1.trans h.second
      · exact (hkept _).2.2.2.1.trans h.blockable
      · exact (hkept _).2.2.1.trans h.id
      · show s.manager.switches + 1#64 = _
        rw [h.switches]
        exact (BitVec.ofNat_add n 1).symm

theorem alternating_run {s : System} (h : Alternating s 1) (k : Nat) (hk : k < 2 ^ 64) :
    ∃ s', run step s (List.replicate k (.taskSwitch 0x9000#64 false)) = some s' ∧ Alternating s' (k + 1) := by
  induction k with
  | zero => exact ⟨s, rfl, h⟩
  | succ k ih =>
    obtain ⟨s₁, hrun, h₁⟩ := ih (by omega)
    obtain ⟨s₂, hstep, h₂⟩ := h₁.next (by omega) hk
    refine ⟨s₂, ?_, h₂⟩
    rw [List.replicate_succ', run_append, hrun]
    simp only [Option.bind_some, run, hstep]

/-- The current task blocked, and a switch with the counter at zero. -/
theorem Alternating.blocked {s : System} (h : Alternating s (2 ^ 64)) :
    ∃ s', run step s [.blockTask 2#64, .taskSwitch 0x9000#64 false] = some s' ∧ s'.landed = true ∧
      (s'.manager.tasks s'.manager.head).blocked = true := by
  have ho : Ordered s.manager [0x2000#64, 0x1000#64] := h.ordered
  have hhead : s.manager.head = 0x2000#64 := ho.head
  have hblock : s.manager.blockTask 2#64 =
      some (s.manager.store 0x2000#64 { s.manager.tasks 0x2000#64 with blocked := true }) := by
    unfold TaskManager.blockTask TaskManager.findTask
    rw [hhead, if_neg (by decide), if_pos h.id, Option.bind_eq_bind, Option.bind_some,
      if_pos ⟨by decide, h.blockable⟩]
    rfl
  have ho' := ho.store 0x2000#64 (t := { s.manager.tasks 0x2000#64 with blocked := true }) rfl rfl rfl
  obtain ⟨r, m', ring', hrun, hswitched, -⟩ := ho'.taskSwitch 0x9000#64
  refine ⟨⟨m', s.added, true, true⟩, ?_, rfl, ?_⟩
  · have hnext : step ⟨s.manager.store 0x2000#64 { s.manager.tasks 0x2000#64 with blocked := true }, s.added, s.started,
        false⟩ (.taskSwitch 0x9000#64 false) = some ⟨m', s.added, true, true⟩ := by
      simp only [step, hrun]
      simp [TaskManager.store, hhead, h.started]
    have hfirst : step s (.blockTask 2#64) = some ⟨s.manager.store 0x2000#64
        { s.manager.tasks 0x2000#64 with blocked := true }, s.added, s.started, false⟩ := by
      simp only [step, hblock]
      rfl
    exact (run_cons hfirst _).trans (run_cons hnext _)
  · have hzero : s.manager.switches = 0#64 := h.switches
    cases hswitched with
    | first => simp [TaskManager.store, hhead]
    | stay hlater => exact absurd hzero hlater
    | move _ _ _ hlater => exact absurd hzero hlater

/-- Where the counter has come round, the blocked task stays the current one. -/
theorem ring_blocked_head : ¬ AllStates step Conforms (start fun _ => default) comeRound := by
  intro hall
  obtain ⟨s₁, hrun₁, h₁⟩ := alternating_first
  obtain ⟨s₂, hrun₂, h₂⟩ := alternating_run h₁ (2 ^ 64 - 1) (by decide)
  obtain ⟨s₃, hrun₃, hlanded, hblocked⟩ := h₂.blocked
  have hacts : comeRound = addTwo ++ [.taskSwitch 0x9000#64 false] ++
      List.replicate (2 ^ 64 - 1) (.taskSwitch 0x9000#64 false) ++ [.blockTask 2#64, .taskSwitch 0x9000#64 false] := by
    have hsplit : List.replicate (2 ^ 64) (Act.taskSwitch 0x9000#64 false) =
        [.taskSwitch 0x9000#64 false] ++ List.replicate (2 ^ 64 - 1) (.taskSwitch 0x9000#64 false) :=
      List.replicate_succ
    unfold comeRound
    rw [hsplit]
    simp only [List.append_assoc]
  have hrun : run step (start fun _ => default) comeRound = some s₃ := by
    rw [hacts, run_append, run_append, hrun₁, Option.bind_some, hrun₂, Option.bind_some, hrun₃]
  have hgood := (AllStates.of_run _ _ _ hall hrun).runs hlanded
  rw [hblocked] at hgood
  cases hgood.2

end BadLands.Sched
