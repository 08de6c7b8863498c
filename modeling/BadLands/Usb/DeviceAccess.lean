import BadLands.Core.Machine
import Mathlib.Algebra.Group.Nat.Defs
import Mathlib.Logic.Function.Basic

/-!
# Accesses to a device

Drivers and interrupt handlers count their accesses to a `Device` (`SetBusy`, `ReleaseBusy`), so that
`Destroy` can wait for them. `step` interleaves any number of calls, load by load and store by
store; what the calls inside `Initialize` return is part of the step.

`accesses_balanced_iff`: the count is the number of accesses in progress, and nothing is freed while
there is one or one can start, exactly in the runs in which no `Initialize` that has its access
leaves without giving it back: it does when it has no context, and when its `Release` frees
something or resets the count. `initialize_unbalanced` has a run of each kind.
-/
namespace BadLands.Usb.DeviceAccess

open BadLands.Core.Machine

/-- The pointers that `Release` frees and sets to null. -/
inductive Resource where
  | context
  | control
  | configurations
  | endpoints
  | drivers
  deriving DecidableEq, Repr

inductive ReleaseStep where
  | free (r : Resource)
  | resetAccesses
  | setUnavailable
  deriving DecidableEq, Repr

/-- mirrors kernel/src/devices/USB/xHCI/Device.cpp:1671-1702 -/
def release : List ReleaseStep :=
  [.free .context, .free .control, .free .configurations, .free .endpoints, .free .drivers, .resetAccesses,
    .setUnavailable]

/-- The calls in `Initialize` that may fail, in order, and the choice of the drivers.
mirrors kernel/src/devices/USB/xHCI/Device.cpp:1418-1625 -/
inductive InitStage where
  | context
  | ring
  | maxPacketSize
  | addressDevice
  | deviceDescriptor
  | configurations
  | drivers
  deriving DecidableEq, Repr

/-- The calls, `access` for a pair of `SetBusy` and `ReleaseBusy` of a driver or a handler. -/
inductive Op where
  | access
  | signalTransferComplete
  | postInitialization
  | init
  deriving DecidableEq, Repr

/-- Where a call is. `entering`, `leaving` and `retiring` want the lock for `SetBusy`, `ReleaseBusy`
and `SetUnvailable`, the phases behind them have it. -/
inductive Phase where
  | entering (op : Op)
  | checking (op : Op)
  | counting (op : Op)
  | body
  | posting (left : Nat)
  | initializing (stage : InitStage)
  | leaving (result : Bool)
  | testing (result : Bool)
  | decrementing (result : Bool)
  | retiring
  | closing
  | waiting
  | releasing (rest : List ReleaseStep) (byInitialize : Bool)
  | returned (result : Bool)
  deriving DecidableEq, Repr

/-- `held`: the pointers that are not null; `drivers`: how many drivers were added. `freed` says that a
resource has been freed. `threads`: the calls so far. The count has 64 bits, more than accesses in
progress fit in memory. -/
structure Device where
  unavailable : Bool
  currentAccesses : Nat
  lock : Option Nat
  held : Resource → Bool
  drivers : Nat
  freed : Bool
  threads : List Phase

/-- mirrors kernel/include/devices/USB/xHCI/Device.hpp:222-234,259-261,281 -/
def create : Device := ⟨false, 0, none, fun _ => false, 0, false, []⟩

/-- The call has an access, from the increment of the count to the decrement. -/
def Phase.accessing : Phase → Bool
  | .body | .posting _ | .initializing _ | .leaving _ | .testing _ | .decrementing _ => true
  | .releasing _ byInitialize => byInitialize
  | _ => false

def Phase.locks : Phase → Bool
  | .checking _ | .counting _ | .testing _ | .decrementing _ | .closing => true
  | _ => false

/-- How many accesses are in progress. -/
def Device.inProgress (s : Device) : Nat := s.threads.countP Phase.accessing

/-- The part of a call behind `SetBusy`. -/
def Op.inside (s : Device) : Op → Phase
  | .access | .signalTransferComplete => .body
  | .postInitialization => .posting s.drivers
  | .init => .initializing .context

def Device.hold (s : Device) (r : Resource) : Device := { s with held := Function.update s.held r true }

/-- A call in `Initialize` that has succeeded, and the next one. The drivers are found or not, which
fails nothing.
mirrors kernel/src/devices/USB/xHCI/Device.cpp:1418-1627 -/
def initialized (s : Device) (found : Nat) : InitStage → Device × Phase
  | .context => (s.hold .context, .initializing .ring)
  | .ring => (s.hold .control, .initializing .maxPacketSize)
  | .maxPacketSize => (s, .initializing .addressDevice)
  | .addressDevice => (s, .initializing .deviceDescriptor)
  | .deviceDescriptor => (s, .initializing .configurations)
  | .configurations => (s.hold .configurations, .initializing .drivers)
  | .drivers =>
    (if found = 0 then s else { (s.hold .endpoints).hold .drivers with drivers := found }, .leaving true)

/-- The exits of `Initialize`; `AddressDevice` has called `Release` already.
mirrors kernel/src/devices/USB/xHCI/Device.cpp:273-292,1420-1426,1444-1512 -/
def failed : InitStage → Phase
  | .context => .returned false
  | .addressDevice => .releasing (release ++ release) true
  | .drivers => .leaving true
  | _ => .releasing release true

/-- mirrors kernel/src/devices/USB/xHCI/Device.cpp:1671-1702 -/
def releaseStep (s : Device) : ReleaseStep → Device
  | .free r => { s with held := Function.update s.held r false, freed := s.freed || s.held r }
  | .resetAccesses => { s with currentAccesses := 0 }
  | .setUnavailable => { s with unavailable := true }

/-- The next load or store of the call `i`; `ok` is what a call in it returns. A decrement of 0 goes round.
mirrors kernel/src/devices/USB/xHCI/Device.cpp:1405-1754 -/
def advance (s : Device) (i : Nat) (ok : Bool) (found : Nat) : Phase → Device × Phase
  | .entering op => if s.lock = none then ({ s with lock := some i }, .checking op) else (s, .entering op)
  | .checking op => if s.unavailable then ({ s with lock := none }, .returned false) else (s, .counting op)
  | .counting op => ({ s with currentAccesses := s.currentAccesses + 1, lock := none }, op.inside s)
  | .body => (s, .leaving true)
  | .posting 0 => (s, .leaving true)
  | .posting (left + 1) => (s, if ok then .posting left else .leaving false)
  | .initializing stage => if ok then initialized s found stage else (s, failed stage)
  | .leaving result => if s.lock = none then ({ s with lock := some i }, .testing result) else (s, .leaving result)
  | .testing result =>
    if 0 < s.currentAccesses then (s, .decrementing result) else ({ s with lock := none }, .returned result)
  | .decrementing result =>
    let left := if s.currentAccesses = 0 then 2 ^ 64 - 1 else s.currentAccesses - 1
    ({ s with currentAccesses := left, lock := none }, .returned result)
  | .retiring => if s.lock = none then ({ s with lock := some i }, .closing) else (s, .retiring)
  | .closing => ({ s with unavailable := true, lock := none }, .waiting)
  | .waiting => (s, if 0 < s.currentAccesses then .waiting else .releasing release false)
  | .releasing [] _ => (s, .returned false)
  | .releasing (x :: rest) byInitialize => (releaseStep s x, .releasing rest byInitialize)
  | .returned result => (s, .returned result)

inductive Act where
  | call (op : Op)
  | destroy
  | proceed (i : Nat) (ok : Bool) (found : Nat)
  deriving DecidableEq, Repr

def step (s : Device) : Act → Option Device
  | .call op => some { s with threads := s.threads ++ [.entering op] }
  | .destroy => some { s with threads := s.threads ++ [.retiring] }
  | .proceed i ok found => (s.threads[i]?).map fun phase =>
      let r := advance s i ok found phase
      { r.1 with threads := s.threads.set i r.2 }

/-- The count is the number of accesses; what is freed is not in use, and no access can start. -/
def Balanced (s : Device) : Prop :=
  s.currentAccesses = s.inProgress ∧ (s.freed = true → s.inProgress = 0 ∧ s.unavailable = true)

/-- The call does not leave `Initialize` with its access: neither without a context, nor by a `Release`
that frees something or resets the count. -/
def Phase.Keeps (s : Device) (ok : Bool) : Phase → Prop
  | .initializing stage => stage = .context → ok = true
  | .releasing (.free r :: _) byInitialize => byInitialize = true → s.held r = false
  | .releasing (.resetAccesses :: _) byInitialize => byInitialize = false
  | _ => True

def StepOk (s : Device) : Act → Prop
  | .proceed i ok _ => ∀ phase ∈ s.threads[i]?, phase.Keeps s ok
  | _ => True

/-! ## The invariant -/

/-- What a phase says about the device. An `Initialize` in `Release` has the reset of the count before it. -/
def Phase.Sound (s : Device) : Phase → Prop
  | .counting _ => s.unavailable = false
  | .waiting => s.unavailable = true
  | .releasing _ false => s.unavailable = true ∧ s.inProgress = 0
  | .releasing rest true => ∃ (before : List Resource) (after : List ReleaseStep),
      rest = before.map ReleaseStep.free ++ .resetAccesses :: after
  | _ => True

structure Inv (s : Device) : Prop where
  count : s.currentAccesses = s.inProgress
  freed : s.freed = true → s.inProgress = 0 ∧ s.unavailable = true
  locked : ∀ (i : Nat) p, s.threads[i]? = some p → p.locks = true → s.lock = some i
  sound : ∀ p ∈ s.threads, p.Sound s

section
variable {s s' : Device} {i : Nat} {p q : Phase}

theorem inv_create : Inv create := by
  refine ⟨rfl, (fun h => by cases h), fun i p hp => ?_, fun p hp => ?_⟩
  · simp [create] at hp
  · simp [create] at hp

/-- A phase says the same of two devices with the same flag and as many accesses. -/
theorem Phase.Sound.congr (h : p.Sound s) (hflag : s'.unavailable = s.unavailable)
    (hcount : s'.inProgress = s.inProgress) : p.Sound s' := by
  unfold Phase.Sound at h ⊢
  split at h
  all_goals simp_all

/-- The accesses when one call moves on. -/
theorem countP_set (hp : s.threads[i]? = some p) (q : Phase) :
    (s.threads.set i q).countP Phase.accessing + (if p.accessing then 1 else 0) =
      s.inProgress + if q.accessing then 1 else 0 := by
  obtain ⟨hi, hget⟩ := List.getElem?_eq_some_iff.mp hp
  have hpos : (if p.accessing then 1 else 0) ≤ s.threads.countP Phase.accessing := by
    split
    · next hacc => exact List.countP_pos_iff.mpr ⟨p, List.mem_of_getElem? hp, hacc⟩
    · exact Nat.zero_le _
  unfold Device.inProgress
  rw [List.countP_set hi, hget]
  omega

theorem getElem?_set_cases {threads : List Phase} {j : Nat} {r : Phase} (h : (threads.set i q)[j]? = some r) :
    (j = i ∧ r = q) ∨ (j ≠ i ∧ threads[j]? = some r) := by
  rw [List.getElem?_set] at h
  split at h
  · next hij =>
    split at h
    · exact .inl ⟨hij.symm, (Option.some.inj h).symm⟩
    · cases h
  · next hij => exact .inr ⟨fun h => hij h.symm, h⟩

/-- A call that moves on without a change to the flag, the count and the accesses. -/
theorem Inv.quiet (h : Inv s) (hp : s.threads[i]? = some p) (hs' : s'.threads = s.threads.set i q)
    (hflag : s'.unavailable = s.unavailable) (hcount : s'.currentAccesses = s.currentAccesses)
    (hfreed : s'.freed = true → s.inProgress = 0 ∧ s.unavailable = true) (hacc : q.accessing = p.accessing)
    (hq : q.Sound s) (hlock : q.locks = true → s'.lock = some i)
    (hothers : ∀ j, j ≠ i → s.lock = some j → s'.lock = some j) : Inv s' := by
  have hsame : s'.inProgress = s.inProgress := by
    have hset := countP_set hp q
    rw [hacc] at hset
    rw [Device.inProgress, hs']
    omega
  refine ⟨by rw [hcount, hsame, h.count], ?_, ?_, ?_⟩
  · rw [hsame, hflag]
    exact hfreed
  · intro j r hr hl
    rw [hs'] at hr
    rcases getElem?_set_cases hr with ⟨rfl, rfl⟩ | ⟨hne, hr⟩
    · exact hlock hl
    · exact hothers j hne (h.locked j r hr hl)
  · intro r hr
    rw [hs'] at hr
    rcases List.mem_or_eq_of_mem_set hr with hr | rfl
    · exact (h.sound r hr).congr hflag hsame
    · exact hq.congr hflag hsame

/-- A call that only moves on, with the lock as it is. -/
theorem Inv.move (h : Inv s) (hp : s.threads[i]? = some p) (hacc : q.accessing = p.accessing) (hq : q.Sound s)
    (hlocks : q.locks = true → p.locks = true) : Inv { s with threads := s.threads.set i q } :=
  h.quiet hp rfl rfl rfl h.freed hacc hq (fun hl => h.locked i p hp (hlocks hl)) fun _ _ hj => hj

/-- A call that takes the lock, or waits for it. -/
theorem Inv.acquire (h : Inv s) (hp : s.threads[i]? = some p) (hacc : q.accessing = p.accessing) (hq : q.Sound s)
    (hself : p.Sound s) :
    Inv { (if s.lock = none then ({ s with lock := some i }, q) else (s, p)).1 with
      threads := s.threads.set i (if s.lock = none then ({ s with lock := some i }, q) else (s, p)).2 } := by
  split
  · next hnone =>
    exact h.quiet hp rfl rfl rfl h.freed hacc hq (fun _ => rfl) fun j _ hj => by rw [hnone] at hj; cases hj
  · exact h.move hp rfl hself fun hl => hl

/-- The holder of the lock gives it back. -/
theorem Inv.unlock (h : Inv s) (hp : s.threads[i]? = some p) (hlocks : p.locks = true)
    (hacc : q.accessing = p.accessing) (hq : q.Sound s) (hfree : q.locks = false) :
    Inv { s with lock := none, threads := s.threads.set i q } := by
  refine h.quiet hp rfl rfl rfl h.freed hacc hq (fun hl => ?_) fun j hne hj => ?_
  · rw [hfree] at hl
    cases hl
  · rw [h.locked i p hp hlocks] at hj
    exact absurd (Option.some.inj hj).symm hne

/-- Once the holder has given the lock back, nobody has it. -/
theorem Inv.unlocked (h : Inv s) (hp : s.threads[i]? = some p) (hlocks : p.locks = true) (hfree : q.locks = false) :
    ∀ r ∈ s.threads.set i q, r.locks = false := by
  intro r hr
  obtain ⟨j, hj⟩ := List.mem_iff_getElem?.mp hr
  rcases getElem?_set_cases hj with ⟨rfl, rfl⟩ | ⟨hne, hj⟩
  · exact hfree
  · apply Bool.eq_false_iff.mpr
    intro hl
    have hother := h.locked j r hj hl
    rw [h.locked i p hp hlocks, Option.some.injEq] at hother
    exact hne hother.symm

/-- `++current_accesses` -/
theorem Inv.count_up (h : Inv s) {op : Op} (hp : s.threads[i]? = some (.counting op)) :
    Inv { s with currentAccesses := s.currentAccesses + 1, lock := none, threads := s.threads.set i (op.inside s) } := by
  have hopen : s.unavailable = false := h.sound _ (List.mem_of_getElem? hp)
  have hinside : (op.inside s).accessing = true ∧ (op.inside s).locks = false ∧
      ∀ s' : Device, (op.inside s).Sound s' := by
    cases op <;> exact ⟨rfl, rfl, fun _ => trivial⟩
  have hcount : (s.threads.set i (op.inside s)).countP Phase.accessing = s.inProgress + 1 := by
    have hset := countP_set hp (op.inside s)
    rw [hinside.1] at hset
    exact hset
  refine ⟨?_, fun hf => ?_, fun j r hr hl => ?_, fun r hr => ?_⟩
  · exact (congrArg (· + 1) h.count).trans hcount.symm
  · have hclosed := (h.freed hf).2
    rw [hopen] at hclosed
    cases hclosed
  · rw [h.unlocked hp rfl hinside.2.1 r (List.mem_of_getElem? hr)] at hl
    cases hl
  · rcases List.mem_or_eq_of_mem_set hr with hr | rfl
    · -- the device is open, so no `Destroy` is at its end
      have hsound := h.sound r hr
      unfold Phase.Sound at hsound ⊢
      split at hsound
      · exact hsound
      · exact hsound
      · rw [hopen] at hsound
        cases hsound.1
      · exact hsound
      · trivial
    · exact hinside.2.2 _

/-- `--current_accesses` -/
theorem Inv.count_down (h : Inv s) {result : Bool} (hp : s.threads[i]? = some (.decrementing result)) :
    Inv { s with
      currentAccesses := if s.currentAccesses = 0 then 2 ^ 64 - 1 else s.currentAccesses - 1
      lock := none
      threads := s.threads.set i (.returned result) } := by
  have hbusy : 0 < s.inProgress := List.countP_pos_iff.mpr ⟨_, List.mem_of_getElem? hp, rfl⟩
  have hcount : (s.threads.set i (.returned result)).countP Phase.accessing + 1 = s.inProgress :=
    countP_set hp (.returned result)
  refine ⟨?_, fun hf => ?_, fun j r hr hl => ?_, fun r hr => ?_⟩
  · have hsame := h.count
    simp only [Device.inProgress]
    rw [if_neg (by omega)]
    omega
  · have hidle := (h.freed hf).1
    omega
  · rw [h.unlocked hp rfl rfl r (List.mem_of_getElem? hr)] at hl
    cases hl
  · rcases List.mem_or_eq_of_mem_set hr with hr | rfl
    · -- this access is in progress, so no `Destroy` is at its end
      have hsound := h.sound r hr
      unfold Phase.Sound at hsound ⊢
      split at hsound
      · exact hsound
      · exact hsound
      · omega
      · exact hsound
      · trivial
    · trivial

/-- `unavailable.store(true)` in `SetUnvailable` -/
theorem Inv.close (h : Inv s) (hp : s.threads[i]? = some .closing) :
    Inv { s with unavailable := true, lock := none, threads := s.threads.set i .waiting } := by
  have hcount : (s.threads.set i .waiting).countP Phase.accessing = s.inProgress := countP_set hp .waiting
  refine ⟨h.count.trans hcount.symm, fun hf => ⟨hcount.trans (h.freed hf).1, rfl⟩, fun j r hr hl => ?_, fun r hr => ?_⟩
  · rw [h.unlocked hp rfl rfl r (List.mem_of_getElem? hr)] at hl
    cases hl
  · have hunlocked := h.unlocked (q := .waiting) hp rfl rfl r hr
    rcases List.mem_or_eq_of_mem_set hr with hr | rfl
    · -- nobody else has the lock, so no `SetBusy` is behind its check
      have hsound := h.sound r hr
      unfold Phase.Sound at hsound ⊢
      split at hsound
      · cases hunlocked
      · rfl
      · exact ⟨rfl, hcount.trans hsound.2⟩
      · exact hsound
      · trivial
    · rfl

theorem Inv.initialized (h : Inv s) {stage : InitStage} (found : Nat) (hp : s.threads[i]? = some (.initializing stage)) :
    Inv { (initialized s found stage).1 with threads := s.threads.set i (initialized s found stage).2 } := by
  have hmove : ∀ {s' : Device} {q : Phase}, s'.unavailable = s.unavailable → s'.currentAccesses = s.currentAccesses →
      s'.freed = s.freed → s'.lock = s.lock → q.accessing = true → q.Sound s → q.locks = false →
      Inv { s' with threads := s.threads.set i q } := by
    intro s' q hflag hcount hfreed hlock hacc hq hfree
    refine h.quiet hp rfl hflag hcount (fun hf => h.freed (hfreed ▸ hf)) hacc hq (fun hl => ?_) fun j _ hj => ?_
    · rw [hfree] at hl
      cases hl
    · exact hlock.trans hj
  cases stage with
  | drivers =>
    unfold DeviceAccess.initialized
    simp only
    split
    · exact hmove rfl rfl rfl rfl rfl trivial rfl
    · exact hmove rfl rfl rfl rfl rfl trivial rfl
  | context => exact hmove rfl rfl rfl rfl rfl trivial rfl
  | ring => exact hmove rfl rfl rfl rfl rfl trivial rfl
  | maxPacketSize => exact hmove rfl rfl rfl rfl rfl trivial rfl
  | addressDevice => exact hmove rfl rfl rfl rfl rfl trivial rfl
  | deviceDescriptor => exact hmove rfl rfl rfl rfl rfl trivial rfl
  | configurations => exact hmove rfl rfl rfl rfl rfl trivial rfl

/-- The exits of `Initialize` but the first are in `Release`, before the reset of the count. -/
theorem failed_sound (s : Device) (stage : InitStage) (hne : stage ≠ .context) :
    (failed stage).accessing = true ∧ (failed stage).locks = false ∧ (failed stage).Sound s := by
  have hrelease : release = [.context, .control, .configurations, .endpoints, .drivers].map ReleaseStep.free ++
      [.resetAccesses, .setUnavailable] := rfl
  cases stage with
  | context => exact absurd rfl hne
  | drivers => exact ⟨rfl, rfl, trivial⟩
  | addressDevice => exact ⟨rfl, rfl, _, _, by rw [hrelease, List.append_assoc]; rfl⟩
  | ring => exact ⟨rfl, rfl, _, _, hrelease⟩
  | maxPacketSize => exact ⟨rfl, rfl, _, _, hrelease⟩
  | deviceDescriptor => exact ⟨rfl, rfl, _, _, hrelease⟩
  | configurations => exact ⟨rfl, rfl, _, _, hrelease⟩

/-- A step of `Release`, by `Destroy` or harmless. -/
theorem Inv.released (h : Inv s) {x : ReleaseStep} {rest : List ReleaseStep} {byInitialize ok : Bool}
    (hp : s.threads[i]? = some (.releasing (x :: rest) byInitialize))
    (hok : (Phase.releasing (x :: rest) byInitialize).Keeps s ok) :
    Inv { releaseStep s x with threads := s.threads.set i (.releasing rest byInitialize) } := by
  have hsound := h.sound _ (List.mem_of_getElem? hp)
  cases byInitialize with
  | false =>
    obtain ⟨hclosed, hidle⟩ : s.unavailable = true ∧ s.inProgress = 0 := hsound
    have hcount := h.count
    cases x with
    | free r =>
      exact h.quiet hp rfl rfl rfl (fun _ => ⟨hidle, hclosed⟩) rfl ⟨hclosed, hidle⟩ (fun hl => by cases hl) fun _ _ hj => hj
    | resetAccesses =>
      exact h.quiet hp rfl rfl (by rw [hcount, hidle]; rfl) h.freed rfl ⟨hclosed, hidle⟩ (fun hl => by cases hl)
        fun _ _ hj => hj
    | setUnavailable =>
      exact h.quiet hp rfl hclosed.symm rfl h.freed rfl ⟨hclosed, hidle⟩ (fun hl => by cases hl) fun _ _ hj => hj
  | true =>
    obtain ⟨before, after, hrest⟩ := hsound
    cases before with
    | nil =>
      obtain ⟨rfl, rfl⟩ := List.cons.inj hrest
      cases hok
    | cons r before =>
      obtain ⟨rfl, rfl⟩ := List.cons.inj hrest
      have hfree : s.held r = false := hok rfl
      refine h.quiet hp rfl rfl rfl (fun hf => h.freed ?_) rfl ⟨before, after, rfl⟩ (fun hl => by cases hl) fun _ _ hj => hj
      simpa [releaseStep, hfree] using hf

theorem Inv.advance (h : Inv s) {ok : Bool} (found : Nat) (hp : s.threads[i]? = some p) (hok : p.Keeps s ok) :
    Inv { (advance s i ok found p).1 with threads := s.threads.set i (advance s i ok found p).2 } := by
  have hsound := h.sound p (List.mem_of_getElem? hp)
  cases p with
  | entering op => exact h.acquire hp rfl trivial trivial
  | checking op =>
    unfold DeviceAccess.advance
    simp only
    split
    · exact h.unlock hp rfl rfl trivial rfl
    · next hopen => exact h.move hp rfl (by simpa [Phase.Sound] using hopen) fun _ => rfl
  | counting op => exact h.count_up hp
  | body => exact h.move hp rfl trivial fun hl => by cases hl
  | posting left =>
    cases left with
    | zero => exact h.move hp rfl trivial fun hl => by cases hl
    | succ left =>
      cases ok with
      | true => exact h.move hp rfl trivial fun hl => by cases hl
      | false => exact h.move hp rfl trivial fun hl => by cases hl
  | initializing stage =>
    cases ok with
    | true => exact h.initialized found hp
    | false =>
      obtain ⟨hacc, hlocks, hq⟩ := failed_sound s stage fun he => by cases hok he
      exact h.move hp hacc hq fun hl => absurd (hlocks.symm.trans hl) (by decide)
  | leaving result => exact h.acquire hp rfl trivial trivial
  | testing result =>
    have hbusy : 0 < s.inProgress := List.countP_pos_iff.mpr ⟨_, List.mem_of_getElem? hp, rfl⟩
    unfold DeviceAccess.advance
    simp only
    rw [if_pos (by rw [h.count]; exact hbusy)]
    exact h.move hp rfl trivial fun _ => rfl
  | decrementing result => exact h.count_down hp
  | retiring => exact h.acquire hp rfl trivial trivial
  | closing => exact h.close hp
  | waiting =>
    unfold DeviceAccess.advance
    simp only
    split
    · exact h.move hp rfl hsound fun hl => hl
    · next hidle =>
      refine h.move hp rfl ⟨hsound, ?_⟩ fun hl => by cases hl
      have hcount := h.count
      omega
  | releasing rest byInitialize =>
    cases rest with
    | nil =>
      cases byInitialize with
      | false => exact h.move hp rfl trivial fun hl => by cases hl
      | true =>
        obtain ⟨before, after, hrest⟩ := hsound
        simp at hrest
    | cons x rest => exact h.released hp hok
  | returned result => exact h.move hp rfl trivial fun hl => hl

/-- A new call. -/
theorem Inv.append (h : Inv s) (hacc : q.accessing = false) (hlocks : q.locks = false) (hq : ∀ s : Device, q.Sound s) :
    Inv { s with threads := s.threads ++ [q] } := by
  have hcount : (s.threads ++ [q]).countP Phase.accessing = s.inProgress := by
    rw [List.countP_append, List.countP_singleton, hacc]
    rfl
  refine ⟨h.count.trans hcount.symm, fun hf => ⟨hcount.trans (h.freed hf).1, (h.freed hf).2⟩, fun j r hr hl => ?_,
    fun r hr => ?_⟩
  · by_cases hj : j < s.threads.length
    · rw [List.getElem?_append_left hj] at hr
      exact h.locked j r hr hl
    · rw [List.getElem?_append_right (Nat.le_of_not_lt hj)] at hr
      rw [List.mem_singleton.mp (List.mem_of_getElem? hr), hlocks] at hl
      cases hl
  · rcases List.mem_append.mp hr with hr | hr
    · exact (h.sound r hr).congr rfl hcount
    · rw [List.mem_singleton.mp hr]
      exact hq _

theorem step_inv (s : Device) (a : Act) (s' : Device) (h : Inv s) (hok : StepOk s a) (hs : step s a = some s') :
    Inv s' := by
  cases a with
  | call op =>
    cases hs
    exact h.append rfl rfl fun _ => trivial
  | destroy =>
    cases hs
    exact h.append rfl rfl fun _ => trivial
  | proceed i ok found =>
    obtain ⟨p, hp, rfl⟩ := Option.map_eq_some_iff.mp hs
    exact h.advance found hp (hok p hp)

/-- An `Initialize` that leaves with its access breaks the balance at once. -/
theorem step_unbalanced (s : Device) (a : Act) (s' : Device) (h : Inv s) (hbad : ¬ StepOk s a)
    (hs : step s a = some s') : ¬ Balanced s' := by
  cases a with
  | call op => exact absurd trivial hbad
  | destroy => exact absurd trivial hbad
  | proceed i ok found =>
    obtain ⟨p, hp, rfl⟩ := Option.map_eq_some_iff.mp hs
    have hkeeps : ¬ p.Keeps s ok := fun hk => hbad fun q hq => by
      rw [Option.mem_def, hp, Option.some.injEq] at hq
      exact hq ▸ hk
    rintro ⟨hcount, hfreed⟩
    unfold Phase.Keeps at hkeeps
    split at hkeeps
    · next stage =>
      -- the access is over, but still counted
      obtain ⟨rfl, hfail⟩ := Classical.not_imp.mp hkeeps
      have hset : (s.threads.set i (.returned false)).countP Phase.accessing + 1 = s.inProgress :=
        countP_set hp (.returned false)
      cases ok with
      | true => exact hfail rfl
      | false =>
        have hsame : s.currentAccesses = (s.threads.set i (.returned false)).countP Phase.accessing := hcount
        have := h.count
        omega
    · next r rest byInitialize =>
      obtain ⟨rfl, hheld⟩ := Classical.not_imp.mp hkeeps
      have hset : (s.threads.set i (.releasing rest true)).countP Phase.accessing + 1 = s.inProgress + 1 :=
        countP_set hp (.releasing rest true)
      have hbusy : 0 < s.inProgress := List.countP_pos_iff.mpr ⟨_, List.mem_of_getElem? hp, rfl⟩
      have hidle : (s.threads.set i (.releasing rest true)).countP Phase.accessing = 0 :=
        (hfreed (by simpa [advance, releaseStep] using .inr (by simpa using hheld))).1
      omega
    · next rest byInitialize =>
      have hbyInitialize : byInitialize = true := by simpa using hkeeps
      subst hbyInitialize
      have hset : (s.threads.set i (.releasing rest true)).countP Phase.accessing + 1 = s.inProgress + 1 :=
        countP_set hp (.releasing rest true)
      have hbusy : 0 < s.inProgress := List.countP_pos_iff.mpr ⟨_, List.mem_of_getElem? hp, rfl⟩
      have hreset : 0 = (s.threads.set i (.releasing rest true)).countP Phase.accessing := hcount
      omega
    · exact hkeeps trivial

/-- The count and the accesses agree, and nothing is freed in use, exactly along the runs in which no
`Initialize` leaves with its access. -/
theorem accesses_balanced_iff (acts : List Act) :
    AllStates step Balanced create acts ↔ AllSteps step StepOk create acts :=
  allStates_iff_allSteps (fun _ h => ⟨h.count, h.freed⟩) step_inv step_unbalanced acts create inv_create

end

/-- `Initialize` has taken its access. -/
def initializeBusy : List Act := [.call .init, .proceed 0 true 0, .proceed 0 true 0, .proceed 0 true 0]

/-- `Initialize` gets no context and returns: its access stays counted. Or it gets no transfer ring and
frees the context, while an event is handled and the next one can be. -/
theorem initialize_unbalanced :
    (∃ s, run step create (initializeBusy ++ [.proceed 0 false 0]) = some s ∧
      s.threads = [.returned false] ∧ s.currentAccesses = 1 ∧ s.inProgress = 0) ∧
    ∃ s, run step create (initializeBusy ++ [.call .signalTransferComplete, .proceed 1 true 0, .proceed 1 true 0,
        .proceed 1 true 0, .proceed 0 true 0, .proceed 0 false 0, .proceed 0 true 0]) = some s ∧
      s.freed = true ∧ s.inProgress = 2 ∧ s.unavailable = false :=
  ⟨⟨_, rfl, rfl, rfl, rfl⟩, ⟨_, rfl, rfl, rfl, rfl⟩⟩

end BadLands.Usb.DeviceAccess
