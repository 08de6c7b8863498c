import BadLands.Sched.TaskRing

/-!
# A round of the task ring

With `k` tasks that are not blocked, the current one among them, `k` switches visit each of them
once, in the order of the ring, and come back. What counts is which of them are still to come:
`upcoming`, the tasks behind the current one and then itself, the blocked ones left out. A switch
goes to the first of these, and it becomes the last (`Turn.switch`).

`roundRobin_iff`: this holds unless the 64-bit counter `switches` is zero in one of the calls, which
then takes the path of the first switch and keeps the current task. `round_wraps` is a run that
gets there.
-/
namespace BadLands.Sched

open BadLands.Core BadLands.Core.LinkedRing BadLands.Core.Machine

/-- One call of `TaskSwitch` after the other, with the lock free: the tasks that become current. -/
def switchAll (m : TaskManager) : List Pointer → Option (List Pointer × TaskManager)
  | [] => some ([], m)
  | stackContext :: rest => do
    let (_, m) ← m.taskSwitch stackContext false
    let (current, m') ← switchAll m rest
    return (m.head :: current, m')

/-- The tasks of the ring that are not blocked, the current one last. -/
def upcoming (m : TaskManager) (ring : List Pointer) : List Pointer :=
  (ring.rotate 1).filter fun p => !(m.tasks p).blocked

/-- Each task that is not blocked becomes current once, in the order of the ring, and the last one
is the one that was current before. -/
def RoundRobin (m : TaskManager) (ring saves : List Pointer) : Prop :=
  ∃ m', switchAll m saves = some (upcoming m ring, m') ∧ m'.head = m.head

/-- The current task, not blocked, and the tasks that come next. -/
structure Turn (m : TaskManager) (up : List Pointer) : Prop where
  order : ∃ l, Circle m (m.head :: l) ∧ up = upcoming m (m.head :: l)
  free : (m.tasks m.head).blocked = false

section
variable {m : TaskManager} {x : Pointer} {up xs ys saves : List Pointer}

theorem upcoming_cons {a : Pointer} {l : List Pointer} (hfree : (m.tasks a).blocked = false) :
    upcoming m (a :: l) = l.filter (fun p => !(m.tasks p).blocked) ++ [a] := by
  rw [upcoming, List.rotate_cons_succ, List.rotate_zero, List.filter_append, List.filter_singleton, hfree]
  rfl

theorem Turn.last (h : Turn m up) : ∃ before, up = before ++ [m.head] := by
  obtain ⟨⟨l, -, rfl⟩, hfree⟩ := h
  exact ⟨_, upcoming_cons hfree⟩

theorem Turn.nodup (h : Turn m up) : up.Nodup := by
  obtain ⟨⟨l, hcircle, rfl⟩, -⟩ := h
  exact (List.nodup_rotate.mpr hcircle.nodup).filter _

/-- A switch to the task that comes next. -/
theorem Turn.switch (h : Turn m (x :: up)) (hlater : m.switches ≠ 0#64) (stackContext : Pointer) : ∃ r m',
    m.taskSwitch stackContext false = some (r, m') ∧ m'.head = x ∧ m'.switches = m.switches + 1#64 ∧
      Turn m' (up ++ [x]) := by
  obtain ⟨⟨l, hcircle, hup⟩, hfree⟩ := h
  rw [upcoming_cons hfree] at hup
  obtain ⟨r, m', ring', hrun, hswitched, hcircle'⟩ := hcircle.taskSwitch stackContext
  obtain ⟨-, hswitches, hsame⟩ := hswitched.keeps
  have hblocked : ∀ p, (m'.tasks p).blocked = (m.tasks p).blocked := fun p => (hsame p).2
  refine ⟨r, m', hrun, ?_⟩
  cases hswitched with
  | first hfirst => exact absurd hfirst hlater
  | stay _ hall =>
    -- the others are blocked: the current task is the one to come
    have hnone : l.filter (fun p => !(m.tasks p).blocked) = [] :=
      List.filter_eq_nil_iff.mpr fun p hp => by simp [hall p hp]
    rw [hnone, List.nil_append, List.cons.injEq] at hup
    obtain ⟨rfl, rfl⟩ := hup
    have hfree' : ((saved m stackContext m.head).tasks (saved m stackContext m.head).head).blocked = false :=
      (hblocked _).trans hfree
    refine ⟨rfl, hswitches, ⟨l, hcircle', ?_⟩, hfree'⟩
    rw [upcoming_cons hfree']
    simp only [hblocked, hnone]
    rfl
  | move xs ys _ _ hl hall hq =>
    subst hl
    have hnone : xs.filter (fun p => !(m.tasks p).blocked) = [] :=
      List.filter_eq_nil_iff.mpr fun p hp => by simp [hall p hp]
    rw [List.filter_append, hnone, List.nil_append, List.filter_cons_of_pos (by simp [hq]), List.cons_append,
      List.cons.injEq] at hup
    obtain ⟨rfl, rfl⟩ := hup
    have hq' : ((saved m stackContext x).tasks (saved m stackContext x).head).blocked = false :=
      (hblocked _).trans hq
    refine ⟨rfl, hswitches, ⟨ys ++ m.head :: xs, hcircle', ?_⟩, hq'⟩
    rw [upcoming_cons hq']
    simp only [hblocked, List.filter_append, List.filter_cons_of_pos, hfree, hnone, Bool.not_false]
    rfl

/-- The first switch keeps the current task. -/
theorem Turn.firstSwitch (h : Turn m up) (hfirst : m.switches = 0#64) (stackContext : Pointer) : ∃ r m',
    m.taskSwitch stackContext false = some (r, m') ∧ m'.head = m.head ∧ m'.switches = m.switches + 1#64 ∧ Turn m' up := by
  obtain ⟨⟨l, hcircle, hup⟩, hfree⟩ := h
  obtain ⟨r, m', ring', hrun, hswitched, hcircle'⟩ := hcircle.taskSwitch stackContext
  refine ⟨r, m', hrun, ?_⟩
  cases hswitched with
  | first => exact ⟨rfl, rfl, ⟨l, hcircle', hup⟩, hfree⟩
  | stay hlater => exact absurd hfirst hlater
  | move _ _ _ hlater => exact absurd hfirst hlater

theorem switchAll_cons {m₁ : TaskManager} {r stackContext : Pointer} {rest : List Pointer}
    (h : m.taskSwitch stackContext false = some (r, m₁)) :
    switchAll m (stackContext :: rest) = (switchAll m₁ rest).map fun (current, m') => (m₁.head :: current, m') := by
  rw [switchAll, h]
  simp only [Option.bind_eq_bind, Option.bind_some]
  cases switchAll m₁ rest <;> rfl

/-- As many switches as tasks of `xs` to come, with the counter never at zero. -/
theorem Turn.round (h : Turn m (xs ++ ys)) (hcalls : saves.length = xs.length)
    (hlater : ∀ i < saves.length, m.switches + BitVec.ofNat 64 i ≠ 0#64) :
    ∃ m', switchAll m saves = some (xs, m') ∧ m'.switches = m.switches + BitVec.ofNat 64 saves.length ∧
      Turn m' (ys ++ xs) := by
  induction saves generalizing m xs ys with
  | nil =>
    obtain rfl := List.length_eq_zero_iff.mp hcalls.symm
    exact ⟨m, rfl, by simp, by simpa using h⟩
  | cons stackContext rest ih =>
    cases xs with
    | nil => cases hcalls
    | cons x xs =>
      rw [List.cons_append] at h
      have hnow : m.switches ≠ 0#64 := by simpa using hlater 0 (Nat.succ_pos _)
      obtain ⟨r, m₁, hrun, hx, hswitches, hturn⟩ := Turn.switch h hnow stackContext
      have hnext : ∀ i, m₁.switches + BitVec.ofNat 64 i = m.switches + BitVec.ofNat 64 (i + 1) := fun i => by
        rw [hswitches, BitVec.add_assoc, ← BitVec.ofNat_add, Nat.add_comm]
      rw [List.append_assoc] at hturn
      obtain ⟨m', hall, hcount, hturn'⟩ := ih hturn (by simpa using hcalls) fun i hi => by
        rw [hnext]
        exact hlater (i + 1) (by simpa using hi)
      refine ⟨m', ?_, ?_, by simpa using hturn'⟩
      · rw [switchAll_cons hrun, hall, ← hx]
        rfl
      · rw [hcount, hnext, List.length_cons]

theorem switchAll_append {before after : List Pointer} : switchAll m (before ++ after) =
    (switchAll m before).bind fun (current, m₁) => (switchAll m₁ after).map fun (rest, m') => (current ++ rest, m') := by
  induction before generalizing m with
  | nil => simp [switchAll]
  | cons stackContext before ih =>
    simp only [List.cons_append, switchAll]
    cases m.taskSwitch stackContext false with
    | none => rfl
    | some r =>
      simp only [Option.bind_eq_bind, Option.bind_some, ih]
      cases switchAll r.2 before with
      | none => rfl
      | some c =>
        simp only [Option.bind_some, Option.pure_def]
        cases switchAll c.2 after <;> rfl

/-- A call that finds the counter at zero, where another task was to come. -/
theorem Turn.not_round (h : Turn m up) (hcalls : saves.length = up.length) (hmany : 2 ≤ up.length) {i : Nat}
    (hi : i < saves.length) (hlater : ∀ j < i, m.switches + BitVec.ofNat 64 j ≠ 0#64)
    (hzero : m.switches + BitVec.ofNat 64 i = 0#64) (m' : TaskManager) : switchAll m saves ≠ some (up, m') := by
  intro hround
  obtain ⟨before, last, after, rfl, rfl⟩ : ∃ before last after, saves = before ++ last :: after ∧ before.length = i :=
    ⟨saves.take i, saves[i], saves.drop (i + 1), by rw [← List.drop_eq_getElem_cons hi, List.take_append_drop],
      List.length_take_of_le (Nat.le_of_lt hi)⟩
  obtain ⟨xs, y, ys, rfl, hxs⟩ : ∃ xs y ys, up = xs ++ y :: ys ∧ xs.length = before.length := by
    have hup : before.length < up.length := hcalls ▸ hi
    exact ⟨up.take before.length, up[before.length], up.drop (before.length + 1),
      by rw [← List.drop_eq_getElem_cons hup, List.take_append_drop], List.length_take_of_le (Nat.le_of_lt hup)⟩
  obtain ⟨m₁, hrun₁, hcount, hturn₁⟩ := h.round hxs.symm hlater
  obtain ⟨r, m₂, hrun₂, hhead, -, -⟩ := Turn.firstSwitch hturn₁ (hcount.trans hzero) last
  rw [switchAll_append, hrun₁, Option.bind_some] at hround
  dsimp only at hround
  rw [switchAll_cons hrun₂] at hround
  -- the task that stays is the one that was to come last
  obtain ⟨others, hlast⟩ := hturn₁.last
  have hnodup := hturn₁.nodup
  cases hrest : switchAll m₂ after with
  | none =>
    rw [hrest] at hround
    cases hround
  | some rest =>
    rw [hrest] at hround
    simp only [Option.map_some, Option.some.injEq, Prod.mk.injEq, List.append_cancel_left_eq, List.cons.injEq] at hround
    have hy : m₁.head = y := hhead.symm.trans hround.1.1
    rw [hlast, hy] at hnodup
    cases others with
    | nil =>
      have hone := congrArg List.length hlast
      simp only [List.length_append, List.length_cons, List.length_nil] at hone hmany
      omega
    | cons z others =>
      obtain rfl : y = z := (List.cons.inj hlast).1
      simp at hnodup

/-- The last of the tasks to come is the current one again. -/
theorem Turn.round_head (h : Turn m up) {m' : TaskManager} (h' : Turn m' up) : m'.head = m.head := by
  obtain ⟨before, hlast⟩ := h.last
  obtain ⟨before', hlast'⟩ := h'.last
  exact (List.append_inj' (hlast'.symm.trans hlast) rfl).2 |> List.cons.inj |> And.left

/-- A task that is alone stays current, whatever the counter is. -/
theorem Turn.alone (h : Turn m up) (hone : up.length = 1) (hcalls : saves.length = 1) :
    ∃ m', switchAll m saves = some (up, m') ∧ m'.head = m.head := by
  obtain ⟨stackContext, rfl⟩ := List.length_eq_one_iff.mp hcalls
  obtain ⟨x, rfl⟩ := List.length_eq_one_iff.mp hone
  have hx : m.head = x := by
    obtain ⟨before, hlast⟩ := h.last
    have hbefore : before = [] := by
      have hlength := congrArg List.length hlast
      rw [List.length_append, List.length_singleton, List.length_singleton] at hlength
      exact List.length_eq_zero_iff.mp (by omega)
    rw [hbefore] at hlast
    exact (List.cons.inj hlast).1.symm
  obtain ⟨r, m', hrun, hhead⟩ : ∃ r m', m.taskSwitch stackContext false = some (r, m') ∧ m'.head = x := by
    by_cases hfirst : m.switches = 0#64
    · obtain ⟨r, m', hrun, hhead, -⟩ := Turn.firstSwitch h hfirst stackContext
      exact ⟨r, m', hrun, hhead.trans hx⟩
    · obtain ⟨r, m', hrun, hhead, -⟩ := Turn.switch h hfirst stackContext
      exact ⟨r, m', hrun, hhead⟩
  refine ⟨m', ?_, hhead.trans hx.symm⟩
  rw [switchAll_cons hrun, hhead]
  rfl

end

theorem counter_later {switches : BitVec 64} {calls : Nat} (h : switches ≠ 0#64) (hroom : switches.toNat + calls ≤ 2 ^ 64) :
    ∀ i < calls, switches + BitVec.ofNat 64 i ≠ 0#64 := by
  intro i hi hzero
  have hvalue := congrArg BitVec.toNat hzero
  have hpos : switches.toNat ≠ 0 := fun h0 => h (BitVec.eq_of_toNat_eq h0)
  rw [BitVec.toNat_add, BitVec.toNat_ofNat, Nat.mod_eq_of_lt (by omega : i < 2 ^ 64), Nat.mod_eq_of_lt (by omega)] at hvalue
  simp at hvalue
  omega

/-- The calls before the counter comes to zero. -/
theorem counter_zero {switches : BitVec 64} {calls : Nat}
    (h : ¬ (switches ≠ 0#64 ∧ switches.toNat + calls ≤ 2 ^ 64)) (hpos : 0 < calls) : ∃ i < calls,
      (∀ j < i, switches + BitVec.ofNat 64 j ≠ 0#64) ∧ switches + BitVec.ofNat 64 i = 0#64 := by
  by_cases hzero : switches = 0#64
  · exact ⟨0, hpos, (fun j hj => absurd hj (Nat.not_lt_zero j)), by simp [hzero]⟩
  · have hwrap : 2 ^ 64 < switches.toNat + calls := Nat.lt_of_not_le fun hle => h ⟨hzero, hle⟩
    have hlt := switches.isLt
    refine ⟨2 ^ 64 - switches.toNat, by omega, counter_later hzero (by omega), BitVec.eq_of_toNat_eq ?_⟩
    have hpos : switches.toNat ≠ 0 := fun h0 => hzero (BitVec.eq_of_toNat_eq h0)
    rw [BitVec.toNat_add, BitVec.toNat_ofNat, Nat.mod_eq_of_lt (by omega : 2 ^ 64 - switches.toNat < 2 ^ 64),
      Nat.add_sub_cancel' (by omega), Nat.mod_self]
    rfl

/-- `k` switches are a round of the `k` tasks that are not blocked, from any of them on, exactly when
none of the calls finds the counter at zero; with one task it stays current in any case. -/
theorem roundRobin_iff {m : TaskManager} {a : Pointer} {l saves : List Pointer} (h : Circle m (a :: l))
    (hfree : (m.tasks a).blocked = false) (hcalls : saves.length = (upcoming m (a :: l)).length) :
    RoundRobin m (a :: l) saves ↔
      saves.length = 1 ∨ m.switches ≠ 0#64 ∧ m.switches.toNat + saves.length ≤ 2 ^ 64 := by
  have hhead : m.head = a := h.head
  have hturn : Turn m (upcoming m (a :: l)) := ⟨⟨l, hhead ▸ h, by rw [hhead]⟩, hhead ▸ hfree⟩
  obtain ⟨others, hlast⟩ := hturn.last
  have hpos : 0 < saves.length := by
    rw [hcalls, hlast, List.length_append, List.length_singleton]
    exact Nat.succ_pos _
  constructor
  · rintro ⟨m', hround, -⟩
    refine or_iff_not_imp_left.mpr fun hmany => Classical.byContradiction fun hcounter => ?_
    obtain ⟨i, hi, hlater, hzero⟩ := counter_zero hcounter hpos
    exact hturn.not_round hcalls (by omega) hi hlater hzero m' hround
  · intro hcounter
    by_cases hone : saves.length = 1
    · exact hturn.alone (hcalls.symm.trans hone) hone
    · obtain ⟨hnow, hroom⟩ := hcounter.resolve_left hone
      have hlater : ∀ i < saves.length, m.switches + BitVec.ofNat 64 i ≠ 0#64 := counter_later hnow hroom
      have hwhole : Turn m (upcoming m (a :: l) ++ []) := by rwa [List.append_nil]
      obtain ⟨m', hrun, -, hturn'⟩ := hwhole.round hcalls hlater
      exact ⟨m', hrun, hturn.round_head hturn'⟩

/-- Two tasks, after the first switch. -/
def twoTasks : TaskManager where
  switches := 1#64
  head := 0x1000#64
  taskCount := 2#64
  tasks := fun p =>
    if p = 0x1000#64 then ⟨false, false, 1#64, 0x2000#64, 0x2000#64, ⟨0x5000#64, 0x400000#64, 0x7000#64⟩⟩
    else ⟨true, false, 2#64, 0x1000#64, 0x1000#64, ⟨0x6000#64, 0x500000#64, 0x8000#64⟩⟩

theorem roundRobin_twoTasks : RoundRobin twoTasks [0x1000#64, 0x2000#64] [0x9000#64, 0xA000#64] := by
  have hcircle : Circle twoTasks [0x1000#64, 0x2000#64] := by
    refine ⟨rfl, by decide, by decide, ring_cons.mpr ?_⟩
    simp [Adjacent, TaskManager.next, TaskManager.prev, twoTasks]
  have hcalls : ([0x9000#64, 0xA000#64] : List Pointer).length = (upcoming twoTasks [0x1000#64, 0x2000#64]).length := by
    decide
  have hcounter : twoTasks.switches ≠ 0#64 ∧
      twoTasks.switches.toNat + ([0x9000#64, 0xA000#64] : List Pointer).length ≤ 2 ^ 64 := by
    decide
  exact (roundRobin_iff hcircle (by decide) hcalls).mpr (.inr hcounter)

/-- Two tasks that are not blocked, and a counter that the second call finds at zero. -/
theorem round_wraps : ∃ s, run step (start fun _ => default)
      (addTwo ++ List.replicate (2 ^ 64 - 1) (.taskSwitch 0x9000#64 false)) = some s ∧ s.started = true ∧
    Circle s.manager [0x1000#64, 0x2000#64] ∧ (s.manager.tasks 0x1000#64).blocked = false ∧
    (upcoming s.manager [0x1000#64, 0x2000#64]).length = 2 ∧
    ¬ RoundRobin s.manager [0x1000#64, 0x2000#64] [0x9000#64, 0x9000#64] := by
  obtain ⟨s₁, hrun₁, h₁⟩ := alternating_first
  obtain ⟨s, hrun, h⟩ := alternating_run h₁ (2 ^ 64 - 2) (by decide)
  have hcircle : Circle s.manager [0x1000#64, 0x2000#64] := h.ordered.circle
  have hhead : s.manager.head = 0x1000#64 := hcircle.head
  have hfree : (s.manager.tasks 0x1000#64).blocked = false := h.idle
  have hup : upcoming s.manager [0x1000#64, 0x2000#64] = [0x2000#64, 0x1000#64] := by
    rw [upcoming_cons hfree, List.filter_singleton, h.second]
    rfl
  have hturn : Turn s.manager (upcoming s.manager [0x1000#64, 0x2000#64]) :=
    ⟨⟨[0x2000#64], hhead ▸ hcircle, by rw [hhead]⟩, hhead ▸ hfree⟩
  have hcount : s.manager.switches = 0xFFFFFFFFFFFFFFFF#64 := h.switches
  refine ⟨s, ?_, h.started, hcircle, hfree, by rw [hup]; rfl, ?_⟩
  · have hacts : addTwo ++ List.replicate (2 ^ 64 - 1) (Act.taskSwitch 0x9000#64 false) =
        addTwo ++ [.taskSwitch 0x9000#64 false] ++ List.replicate (2 ^ 64 - 2) (.taskSwitch 0x9000#64 false) := by
      have hsplit : List.replicate (2 ^ 64 - 1) (Act.taskSwitch 0x9000#64 false) =
          [.taskSwitch 0x9000#64 false] ++ List.replicate (2 ^ 64 - 2) (.taskSwitch 0x9000#64 false) :=
        List.replicate_succ
      rw [hsplit, List.append_assoc]
    rw [hacts, run_append, hrun₁, Option.bind_some, hrun]
  · rintro ⟨m', hround, -⟩
    have hlater : ∀ j < 1, s.manager.switches + BitVec.ofNat 64 j ≠ 0#64 := by
      intro j hj
      obtain rfl : j = 0 := by omega
      rw [hcount]
      decide
    have hzero : s.manager.switches + BitVec.ofNat 64 1 = 0#64 := by rw [hcount]; rfl
    exact hturn.not_round (by rw [hup]; rfl) (by rw [hup]; decide) (by decide) hlater hzero m' hround

end BadLands.Sched
