import BadLands.Core.Machine
import Mathlib.Logic.Function.Basic

/-!
# Block devices: who frees the memory

A `Device` owns the array of its partitions, and both are nodes of the device directory with
reference counts of their own. `Device::ReleaseResources` runs twice: first it takes the names out
of the directory, then, entered again through the last `Close` or through `DestroyDevice`, it
frees the array and the device. It calls `Directory::Remove`, which calls `Close`, which calls
`Destroy` and so `ReleaseResources` again: the functions below take the inner `Remove` as a
parameter, and `directoryRemove` ties the knot.

The second run looks at the device only. `lifetime_of_steps` says that the memory is used
properly along every run in which the freeing step finds no client at the partitions and no name
left behind; `lifetime_partition_open` is a run where it does not.
-/
namespace BadLands.Devices.BlockLifetime

open BadLands.Core.Machine

inductive Node where
  | device
  | partition (i : Nat)
  deriving DecidableEq

/-- `linked`: the node has its entry in the device directory. `held`: what clients have got from
`Find` and not closed. `fault`: freed memory was accessed.
mirrors kernel/include/devices/Block/Device.hpp:38-56, 130-147 and kernel/include/fs/IFNode.hpp -/
structure State where
  partitionsCount : Nat
  valid : Nat → Bool
  hasArray : Bool
  linked : Node → Bool
  openReferences : Node → Nat
  removed : Node → Bool
  destroyed : Node → Bool
  partitionsRemoved : Bool
  arrayFreed : Nat
  deviceFreed : Nat
  fault : Bool
  held : Node → Nat

namespace State

def isFreed (s : State) : Node → Bool
  | .device => s.deviceFreed != 0
  | .partition _ => s.arrayFreed != 0

/-- An access to the memory of the node. -/
def touch (s : State) (x : Node) : State := { s with fault := s.fault || s.isFreed x }

/-- mirrors kernel/src/fs/IFNode.cpp:21-29 -/
def openNode (s : State) (x : Node) : Bool × State :=
  let s := s.touch x
  if s.removed x then (false, s)
  else (true, { s with openReferences := Function.update s.openReferences x (s.openReferences x + 1) })

/-- mirrors kernel/src/fs/IFNode.cpp:43-45 -/
def markForRemoval (s : State) (x : Node) : State :=
  let s := s.touch x
  { s with removed := Function.update s.removed x true }

/-- The entry of the node is cleared. -/
def unlink (s : State) (x : Node) : State := { s with linked := Function.update s.linked x false }

def setDestroyed (s : State) (x : Node) : State := { s with destroyed := Function.update s.destroyed x true }

/-- The destructor of `partitions`, and `Heap::Free(this)`. -/
def free (s : State) : State :=
  { s with arrayFreed := if s.hasArray then s.arrayFreed + 1 else s.arrayFreed
           deviceFreed := s.deviceFreed + 1 }

section
variable (remove : State → Node → Option State) (ok : Node → Bool)

/-- `ok`: whether there is memory for the name that `GetName` makes.
mirrors kernel/src/devices/Block/Device.cpp:448-469 -/
def releasePartition (s : State) (i : Nat) : Option State :=
  let s := s.touch (.partition i)
  if s.destroyed (.partition i) then some s
  else
    let s := s.setDestroyed (.partition i)
    if ok (.partition i) then remove s (.partition i) else some s

/-- The loops of `ReleaseResources` with `k` partitions left. -/
def destroyPartitions : Nat → Nat → State → Option State
  | 0, _, s => some s
  | k + 1, i, s =>
    let s := s.touch (.partition i)
    if s.valid i then (releasePartition remove ok s i).bind (destroyPartitions k (i + 1))
    else destroyPartitions k (i + 1) s

/-- mirrors kernel/src/devices/Block/Device.cpp:749-791 -/
def releaseResources (s : State) (removePartitions : Bool) : Option State :=
  let s := s.touch .device
  if s.destroyed .device then
    if s.partitionsRemoved then some s.free
    else (destroyPartitions remove ok s.partitionsCount 0 s).map free
  else
    let s := s.setDestroyed .device
    let removed := if removePartitions then
        (destroyPartitions remove ok s.partitionsCount 0 s).map fun s => { s with partitionsRemoved := true }
      else some s
    removed.bind fun s => if ok .device then remove s .device else some s

/-- mirrors kernel/src/devices/Block/Device.cpp:471-475, 793-797 -/
def destroy (s : State) (x : Node) (deleted : Bool) : Option State :=
  if deleted then
    match x with
    | .device => releaseResources remove ok s false
    | .partition i => releasePartition remove ok s i
  else some s

/-- mirrors kernel/src/fs/IFNode.cpp:31-37 -/
def close (s : State) (x : Node) : Option State :=
  let s := s.touch x
  let s := { s with openReferences := Function.update s.openReferences x (s.openReferences x - 1) }
  if s.openReferences x = 0 then destroy remove ok s x (s.removed x) else some s

end

/-- `Remove` of the name of a node; `none`: more than `depth` calls inside each other.
mirrors kernel/src/fs/NPFS.cpp:465-501 -/
def directoryRemove (ok : Node → Bool) : Nat → State → Node → Option State
  | 0, _, _ => none
  | depth + 1, s, x =>
    if s.linked x then
      match s.openNode x with
      | (false, s) => some s
      | (true, s) => close (directoryRemove ok depth) ok ((s.markForRemoval x).unlink x) x
    else some s

/-- No `Remove` is deeper than this. -/
def depth : Nat := 3

/-- mirrors kernel/src/devices/Block/Device.cpp:799-801 -/
def destroyDevice (s : State) (ok : Node → Bool) : Option State :=
  releaseResources (directoryRemove ok depth) ok s true

end State

/-- The operations: `Find` of the name of a node, `Close` by a client that holds it, `Remove` of
its name, and `DestroyDevice` by the driver. -/
inductive Act where
  | find (x : Node)
  | close (x : Node) (ok : Node → Bool)
  | remove (x : Node) (ok : Node → Bool)
  | destroyDevice (ok : Node → Bool)

open State

def step (s : State) : Act → Option State
  | .find x =>
    if s.linked x then
      match s.openNode x with
      | (false, s) => some s
      | (true, s) => some { s with held := Function.update s.held x (s.held x + 1) }
    else some s
  | .close x ok =>
    if s.held x = 0 then none
    else (s.close (directoryRemove ok depth) ok x).map fun s' =>
      { s' with held := Function.update s'.held x (s'.held x - 1) }
  | .remove x ok => directoryRemove ok depth s x
  | .destroyDevice ok => s.destroyDevice ok

/-- What `AddDevice` leaves: the device and its valid partitions have their entries. -/
structure Start (s : State) : Prop where
  device : s.linked .device = true
  partitions : ∀ i, s.linked (.partition i) = decide (i < s.partitionsCount ∧ s.valid i = true)
  openReferences : ∀ x, s.openReferences x = 0
  held : ∀ x, s.held x = 0
  removed : ∀ x, s.removed x = false
  destroyed : ∀ x, s.destroyed x = false
  partitionsRemoved : s.partitionsRemoved = false
  arrayFreed : s.arrayFreed = 0
  deviceFreed : s.deviceFreed = 0
  fault : s.fault = false

/-- The memory is freed at most once, not while a client holds a node, and not accessed then. -/
structure Proper (s : State) : Prop where
  array : s.arrayFreed ≤ 1
  device : s.deviceFreed ≤ 1
  released : (s.arrayFreed = 1 ∨ s.deviceFreed = 1) → ∀ x, s.held x = 0
  access : s.fault = false

/-! ## The condition -/

/-- The step runs `ReleaseResources` on a device that is destroyed already. -/
def frees (s : State) : Act → Bool
  | .find _ => false
  | .close x _ => x == .device && s.openReferences x == 1 && s.removed x && s.destroyed x
  | .remove x _ => x == .device && s.linked x && s.openReferences x == 0 && s.destroyed x
  | .destroyDevice ok => s.destroyed .device ||
      (ok .device && s.linked .device && s.openReferences .device == 0)

/-- The names that the step takes out of the directory before it frees. -/
def takesOut (s : State) : Act → Node → Bool
  | .remove x _, y => x == y
  | .destroyDevice ok, .device => !s.destroyed .device && ok .device
  | .destroyDevice ok, .partition i => !s.partitionsRemoved && ok (.partition i)
  | _, _ => false

/-- The one reference that a step gives back itself. -/
def gives : Act → Node → Nat
  | .close x _, y => if x = y then 1 else 0
  | _, _ => 0

/-- A step that frees leaves no reference of a client and no name behind, and the driver does not
destroy a device that is gone. -/
structure Safe (s : State) (a : Act) : Prop where
  alive : ∀ ok, a = .destroyDevice ok → s.deviceFreed = 0
  unheld : frees s a = true → ∀ x, s.held x = gives a x
  unlinked : frees s a = true → ∀ x, s.linked x = true → takesOut s a x = true

/-! ## While the memory is there -/

structure Live (s : State) : Prop where
  array : s.arrayFreed = 0
  device : s.deviceFreed = 0
  fault : s.fault = false
  marks : ∀ x, s.linked x = true → s.removed x = false
  valid : ∀ i, s.linked (.partition i) = true → i < s.partitionsCount ∧ s.valid i = true

/-- A name is taken out of the directory. -/
def dropped (s : State) (x : Node) : State :=
  { s with linked := Function.update s.linked x false, removed := Function.update s.removed x true }

/-- A reference is taken. -/
def opened (s : State) (x : Node) : State :=
  { s with openReferences := Function.update s.openReferences x (s.openReferences x + 1) }

/-- A reference is given back. -/
def closed (s : State) (x : Node) : State :=
  { s with openReferences := Function.update s.openReferences x (s.openReferences x - 1) }

section
variable {s : State} {x : Node} {ok : Node → Bool} {d i : Nat}

theorem Live.touch (h : Live s) (x : Node) : s.touch x = s := by
  have hx : s.isFreed x = false := by
    cases x with
    | device => simp [isFreed, h.device]
    | partition i => simp [isFreed, h.array]
  unfold State.touch
  rw [hx, Bool.or_false]

theorem dropped_linked (y : Node) :
    (dropped s x).linked y = true ↔ y ≠ x ∧ s.linked y = true := by
  unfold dropped
  by_cases hy : y = x
  · simp [hy]
  · simp [hy]

theorem Live.drop (h : Live s) (x : Node) : Live (dropped s x) := by
  refine ⟨h.array, h.device, h.fault, fun y hy => ?_, fun i hi => ?_⟩
  · obtain ⟨hne, hl⟩ := (dropped_linked y).mp hy
    have := h.marks y hl
    simp [dropped, hne, this]
  · exact h.valid i ((dropped_linked _).mp hi).2

theorem Live.setDestroyed (h : Live s) (x : Node) : Live (s.setDestroyed x) :=
  ⟨h.array, h.device, h.fault, h.marks, h.valid⟩

theorem Live.take (h : Live s) (x : Node) : Live (opened s x) :=
  ⟨h.array, h.device, h.fault, h.marks, h.valid⟩

theorem Live.openNode (h : Live s) (hx : s.linked x = true) : s.openNode x = (true, opened s x) := by
  unfold State.openNode
  rw [h.touch]
  dsimp only
  rw [h.marks x hx]
  rfl

theorem directoryRemove_unlinked (h : s.linked x = false) : directoryRemove ok (d + 1) s x = some s := by
  unfold directoryRemove
  rw [h]
  rfl

theorem closed_opened (s : State) (x : Node) : closed (opened s x) x = s := by
  unfold closed opened
  simp only [Function.update_self, Nat.add_sub_cancel, Function.update_idem, Function.update_eq_self]

theorem Live.close (h : Live s) (remove : State → Node → Option State) (x : Node) :
    State.close remove ok s x = if s.openReferences x - 1 = 0 then
      destroy remove ok (closed s x) x (s.removed x) else some (closed s x) := by
  unfold State.close
  rw [h.touch]
  unfold closed
  simp only [Function.update_self]

/-- `Remove` of a name that is there: the last reference may be its own. -/
theorem Live.directoryRemove (h : Live s) (hx : s.linked x = true) :
    State.directoryRemove ok (d + 1) s x = if s.openReferences x = 0 then
      destroy (State.directoryRemove ok d) ok (dropped s x) x true else some (dropped s x) := by
  have hdropped : ((opened s x).markForRemoval x).unlink x =
      opened (dropped s x) x := by
    unfold markForRemoval
    rw [(h.take x).touch]
    rfl
  have hremoved : (opened (dropped s x) x).removed x = true := Function.update_self ..
  have hreferences : (opened (dropped s x) x).openReferences x - 1 = s.openReferences x := by
    simp [opened, dropped]
  rw [State.directoryRemove, if_pos hx, h.openNode hx]
  dsimp only
  rw [hdropped, ((h.drop x).take x).close, hreferences, hremoved, closed_opened]

/-- The first release of a partition only marks it when its name is gone. -/
theorem Live.releasePartition_unlinked (h : Live s) (hx : s.linked (.partition i) = false) :
    releasePartition (State.directoryRemove ok (d + 1)) ok s i = some (s.setDestroyed (.partition i)) := by
  unfold releasePartition
  rw [h.touch]
  dsimp only
  split
  · rename_i hd
    have hself : s.setDestroyed (.partition i) = s := by
      unfold State.setDestroyed
      rw [← hd, Function.update_eq_self]
    rw [hself]
  · split
    · exact directoryRemove_unlinked hx
    · rfl

end

/-! ## The loop over the partitions -/

/-- `s` with the names and marks that a loop leaves. -/
def renamed (s : State) (linked removed destroyed : Node → Bool) : State :=
  { s with linked := linked, removed := removed, destroyed := destroyed }

/-- What the loop over the partitions from `lo` to `hi` does to them: `l`, `r` and `t` are
`linked`, `removed` and `destroyed` afterwards. -/
structure Loses (ok : Node → Bool) (s : State) (l r t : Node → Bool) (lo hi : Nat) : Prop where
  device : l .device = s.linked .device ∧ r .device = s.removed .device ∧ t .device = s.destroyed .device
  linked : ∀ x, l x = true → s.linked x = true ∧ r x = s.removed x
  later : ∀ j, hi ≤ j → t (.partition j) = s.destroyed (.partition j)
  cleared : ∀ j, lo ≤ j → j < hi → s.valid j = true → s.destroyed (.partition j) = false →
    ok (.partition j) = true → l (.partition j) = false

section
variable {s : State} {ok : Node → Bool} {l r t l' r' t' : Node → Bool} {lo mid hi d i : Nat}

theorem Loses.live (h : Loses ok s l r t lo hi) (hl : Live s) : Live (renamed s l r t) := by
  refine ⟨hl.array, hl.device, hl.fault, fun x hx => ?_, fun j hj => hl.valid j (h.linked _ hj).1⟩
  obtain ⟨hold, hr⟩ := h.linked x hx
  exact hr.trans (hl.marks x hold)

theorem Loses.trans (h : Loses ok s l r t lo mid) (h' : Loses ok (renamed s l r t) l' r' t' mid hi)
    (hle : mid ≤ hi) : Loses ok s l' r' t' lo hi := by
  refine ⟨⟨h'.device.1.trans h.device.1, h'.device.2.1.trans h.device.2.1, h'.device.2.2.trans h.device.2.2⟩,
    fun x hx => ?_, fun j hj => ?_, fun j hlo hhi hv hd hok => ?_⟩
  · obtain ⟨h1, h2⟩ := h'.linked x hx
    obtain ⟨h3, h4⟩ := h.linked x h1
    exact ⟨h3, h2.trans h4⟩
  · exact (h'.later j hj).trans (h.later j (by omega))
  · by_cases hj : j < mid
    · have hfalse := h.cleared j hlo hj hv hd hok
      cases hl : l' (.partition j) with
      | false => rfl
      | true =>
        have hold : l (.partition j) = true := (h'.linked _ hl).1
        rw [hfalse] at hold
        cases hold
    · exact h'.cleared j (by omega) hhi hv ((h.later j (by omega)).trans hd) hok

theorem loses_skip (hv : s.valid i = false) : Loses ok s s.linked s.removed s.destroyed i (i + 1) := by
  refine ⟨⟨rfl, rfl, rfl⟩, fun x hx => ⟨hx, rfl⟩, fun j _ => rfl, fun j hlo hhi hvj => ?_⟩
  rw [show j = i by omega, hv] at hvj
  cases hvj

/-- `DestroyPartition` in a live state. -/
theorem Live.releasePartition (h : Live s) : ∃ l r t,
    State.releasePartition (State.directoryRemove ok (d + 2)) ok s i = some (renamed s l r t) ∧
      Loses ok s l r t i (i + 1) := by
  unfold State.releasePartition
  rw [h.touch]
  dsimp only
  have hne : ∀ j, i + 1 ≤ j → (Node.partition j) ≠ .partition i := by
    intro j hj heq
    cases heq
    omega
  by_cases hd : s.destroyed (.partition i) = true
  · refine ⟨s.linked, s.removed, s.destroyed, by rw [if_pos hd]; rfl, ⟨rfl, rfl, rfl⟩,
      fun x hx => ⟨hx, rfl⟩, fun j _ => rfl, fun j hlo hhi _ hdj => ?_⟩
    rw [show j = i by omega, hd] at hdj
    cases hdj
  rw [if_neg hd]
  have hmarked : ∀ l r, (l .device = s.linked .device ∧ r .device = s.removed .device) →
      (∀ x, l x = true → s.linked x = true ∧ r x = s.removed x) →
      (ok (.partition i) = true → l (.partition i) = false) →
      Loses ok s l r (Function.update s.destroyed (.partition i) true) i (i + 1) := by
    intro l r hdev hlinked hcleared
    refine ⟨⟨hdev.1, hdev.2, Function.update_of_ne (by intro hc; cases hc) ..⟩, hlinked, fun j hj => ?_,
      fun j hlo hhi _ _ hok => ?_⟩
    · rw [Function.update_of_ne (hne j hj)]
    · rw [show j = i by omega] at hok ⊢
      exact hcleared hok
  by_cases hok : ok (.partition i) = true
  · rw [if_pos hok]
    have hl := h.setDestroyed (.partition i)
    by_cases hx : s.linked (.partition i) = true
    · have hdrop := hmarked (Function.update s.linked (.partition i) false)
        (Function.update s.removed (.partition i) true)
        ⟨Function.update_of_ne (by intro hc; cases hc) .., Function.update_of_ne (by intro hc; cases hc) ..⟩
        (fun x hx' => by
          by_cases hxi : x = .partition i
          · rw [hxi, Function.update_self] at hx'
            cases hx'
          · rw [Function.update_of_ne hxi] at hx' ⊢
            exact ⟨hx', rfl⟩)
        (fun _ => Function.update_self ..)
      rw [Live.directoryRemove hl (d := d + 1) hx]
      split
      · -- the partition has no other reference: `Destroy` finds it destroyed
        refine ⟨_, _, _, ?_, hdrop⟩
        have hunlinked : (dropped (s.setDestroyed (.partition i)) (.partition i)).linked (.partition i) = false :=
          Function.update_self ..
        change State.releasePartition (State.directoryRemove ok (d + 1)) ok _ i = _
        rw [(hl.drop _).releasePartition_unlinked hunlinked]
        simp only [State.setDestroyed, dropped, renamed, Function.update_idem]
      · exact ⟨_, _, _, rfl, hdrop⟩
    · have hunlinked : (s.setDestroyed (.partition i)).linked (.partition i) = false :=
        Bool.eq_false_iff.mpr hx
      rw [directoryRemove_unlinked hunlinked]
      exact ⟨_, _, _, rfl, hmarked s.linked s.removed ⟨rfl, rfl⟩ (fun x hx => ⟨hx, rfl⟩)
        fun _ => Bool.eq_false_iff.mpr hx⟩
  · rw [if_neg hok]
    exact ⟨_, _, _, rfl, hmarked s.linked s.removed ⟨rfl, rfl⟩ (fun x hx => ⟨hx, rfl⟩) fun h => absurd h hok⟩

theorem Live.destroyPartitions (ok : Node → Bool) (k : Nat) : ∀ {s : State} (i : Nat), Live s → ∃ l r t,
    State.destroyPartitions (State.directoryRemove ok (d + 2)) ok k i s = some (renamed s l r t) ∧
      Loses ok s l r t i (i + k) := by
  induction k with
  | zero =>
    intro s i h
    exact ⟨_, _, _, rfl, ⟨rfl, rfl, rfl⟩, fun x hx => ⟨hx, rfl⟩, fun j _ => rfl,
      fun j hlo hhi => absurd hhi (by omega)⟩
  | succ k ih =>
    intro s i h
    unfold State.destroyPartitions
    rw [h.touch]
    dsimp only
    have hfirst : ∃ l r t, (if s.valid i then State.releasePartition (State.directoryRemove ok (d + 2)) ok s i
        else some s) = some (renamed s l r t) ∧ Loses ok s l r t i (i + 1) := by
      split
      · exact h.releasePartition
      · rename_i hv
        exact ⟨_, _, _, rfl, loses_skip (Bool.eq_false_iff.mpr hv)⟩
    obtain ⟨l, r, t, hrun, hlose⟩ := hfirst
    obtain ⟨l', r', t', hrun', hlose'⟩ := ih (i + 1) (hlose.live h)
    refine ⟨l', r', t', ?_, ?_⟩
    · split
      · rename_i hv
        rw [if_pos hv] at hrun
        rw [hrun, Option.bind_some, hrun']
        rfl
      · rename_i hv
        rw [if_neg hv] at hrun
        rw [Option.some.inj hrun]
        exact hrun'
    · rw [show i + (k + 1) = i + 1 + k by omega]
      exact hlose.trans hlose' (by omega)

/-! ## The two runs of `ReleaseResources` -/

/-- The names that the second run leaves in the directory: those it does not try to take out, and
those there was no memory for. -/
def Left (ok : Node → Bool) (s : State) : Node → Prop
  | .device => s.linked .device = true
  | .partition j => s.linked (.partition j) = true ∧ (s.partitionsRemoved = true ∨
      s.destroyed (.partition j) = true ∨ ok (.partition j) = false)

theorem Loses.left (h : Loses ok s l r t 0 s.partitionsCount) (hl : Live s) {x : Node} (hx : l x = true) :
    Left ok s x := by
  obtain ⟨hold, -⟩ := h.linked x hx
  cases x with
  | device => exact hold
  | partition j =>
    refine ⟨hold, ?_⟩
    obtain ⟨hj, hv⟩ := hl.valid j hold
    cases hd : s.destroyed (.partition j) with
    | true => exact .inr (.inl rfl)
    | false =>
      cases ho : ok (.partition j) with
      | false => exact .inr (.inr rfl)
      | true =>
        have hfalse := h.cleared j (Nat.zero_le _) hj hv hd ho
        rw [hx] at hfalse
        cases hfalse

/-- The run on a destroyed device frees, whoever is there. -/
theorem Live.release_again (h : Live s) (ok : Node → Bool) (hd : s.destroyed .device = true) (b : Bool) : ∃ s',
    releaseResources (State.directoryRemove ok (d + 2)) ok s b = some s'.free ∧
      Live s' ∧ s'.held = s.held ∧ ∀ x, s'.linked x = true → Left ok s x := by
  unfold releaseResources
  rw [h.touch]
  dsimp only
  rw [if_pos hd]
  by_cases hp : s.partitionsRemoved = true
  · refine ⟨s, by rw [if_pos hp], h, rfl, fun x hx => ?_⟩
    cases x with
    | device => exact hx
    | partition j => exact ⟨hx, .inl hp⟩
  · obtain ⟨l, r, t, hrun, hlose⟩ := Live.destroyPartitions (d := d) ok s.partitionsCount 0 h
    rw [Nat.zero_add] at hlose
    refine ⟨renamed s l r t, ?_, hlose.live h, rfl, fun x hx => hlose.left h hx⟩
    rw [if_neg hp, hrun]
    rfl

/-- `Destroy(true)` of a device whose name is gone. -/
theorem Live.destroy_device (h : Live s) (hx : s.linked .device = false) (hd : s.destroyed .device = false) :
    destroy (State.directoryRemove ok (d + 1)) ok s .device true = some (s.setDestroyed .device) := by
  unfold destroy releaseResources
  rw [if_pos rfl]
  dsimp only
  rw [h.touch, hd]
  rw [if_neg (by decide), if_neg (by decide), Option.bind_some]
  split
  · exact directoryRemove_unlinked hx
  · rfl

/-! ## Every run -/

/-- The references are those of the clients. -/
def Counted (s : State) : Prop := ∀ x, s.openReferences x = s.held x

/-- As long as the device has not called `DestroyPartition`, a partition with a name is not destroyed. -/
def Fresh (s : State) : Prop :=
  s.partitionsRemoved = false → ∀ i, s.linked (.partition i) = true → s.destroyed (.partition i) = false

/-- The memory is freed, and nobody can reach it. -/
structure Gone (s : State) : Prop where
  array : s.arrayFreed ≤ 1
  device : s.deviceFreed = 1
  fault : s.fault = false
  held : ∀ x, s.held x = 0
  linked : ∀ x, s.linked x = false

def Inv (s : State) : Prop := (Live s ∧ Counted s ∧ Fresh s) ∨ Gone s

theorem Inv.proper (h : Inv s) : Proper s := by
  rcases h with ⟨hl, -, -⟩ | hg
  · refine ⟨by rw [hl.array]; decide, by rw [hl.device]; decide, fun hf => ?_, hl.fault⟩
    rw [hl.array, hl.device] at hf
    rcases hf with hf | hf <;> cases hf
  · exact ⟨hg.array, Nat.le_of_eq hg.device, fun _ => hg.held, hg.fault⟩

theorem Start.inv (h : Start s) : Inv s := by
  refine .inl ⟨⟨h.arrayFreed, h.deviceFreed, h.fault, fun x _ => h.removed x, fun i hi => ?_⟩, fun x => ?_,
    fun _ i _ => h.destroyed _⟩
  · rw [h.partitions] at hi
    exact of_decide_eq_true hi
  · rw [h.openReferences, h.held]

theorem Live.free (h : Live s) (hheld : ∀ x, s.held x = 0) (hlinked : ∀ x, s.linked x = false) : Gone s.free := by
  refine ⟨?_, ?_, h.fault, hheld, hlinked⟩
  · dsimp only [State.free]
    rw [h.array]
    split <;> decide
  · dsimp only [State.free]
    rw [h.device]

theorem Fresh.drop (h : Fresh s) (x : Node) : Fresh (dropped s x) := by
  intro hp i hi
  exact h hp i ((dropped_linked _).mp hi).2

theorem Fresh.setDestroyed (h : Fresh s) {x : Node} (hx : s.linked x = false) : Fresh (s.setDestroyed x) := by
  intro hp i hi
  have hne : Node.partition i ≠ x := by
    rintro rfl
    rw [show (s.setDestroyed (.partition i)).linked (.partition i) = s.linked (.partition i) from rfl, hx] at hi
    cases hi
  dsimp only [State.setDestroyed]
  rw [Function.update_of_ne hne]
  exact h hp i hi

/-- In a live state, `Destroy(true)` of a node without a name and without references. -/
theorem Live.destroy_unlinked (h : Live s) (ok : Node → Bool) {x : Node} (hx : s.linked x = false) :
    (destroy (State.directoryRemove ok (d + 2)) ok s x true = some (s.setDestroyed x)) ∨
    (x = .device ∧ s.destroyed .device = true ∧ ∃ s',
      destroy (State.directoryRemove ok (d + 2)) ok s x true = some s'.free ∧
      Live s' ∧ s'.held = s.held ∧ ∀ x, s'.linked x = true → Left ok s x) := by
  cases x with
  | partition i => exact .inl (h.releasePartition_unlinked hx)
  | device =>
    cases hd : s.destroyed .device with
    | false => exact .inl (h.destroy_device hx hd)
    | true => exact .inr ⟨rfl, rfl, h.release_again ok hd false⟩

/-- The steps once the memory is freed. -/
theorem Gone.step (h : Gone s) {a : Act} {s' : State} (hsafe : Safe s a) (hs : step s a = some s') : s' = s := by
  cases a with
  | find x =>
    rw [BlockLifetime.step, h.linked x, if_neg (by decide)] at hs
    exact (Option.some.inj hs).symm
  | close x ok =>
    rw [BlockLifetime.step, if_pos (h.held x)] at hs
    cases hs
  | remove x ok =>
    have hs' : State.directoryRemove ok (2 + 1) s x = some s' := hs
    rw [directoryRemove_unlinked (h.linked x)] at hs'
    exact (Option.some.inj hs').symm
  | destroyDevice ok =>
    have hzero := hsafe.alive ok rfl
    rw [h.device] at hzero
    cases hzero

theorem step_find {x : Node} (hl : Live s) (hc : Counted s) (hf : Fresh s) :
    ∃ s', step s (.find x) = some s' ∧ Inv s' := by
  rw [step]
  split
  · rename_i hx
    rw [hl.openNode hx]
    refine ⟨_, rfl, .inl ⟨⟨hl.array, hl.device, hl.fault, hl.marks, hl.valid⟩, fun y => ?_, hf⟩⟩
    dsimp only [opened]
    rw [Function.update_apply, Function.update_apply, hc, hc]
  · exact ⟨s, rfl, .inl ⟨hl, hc, hf⟩⟩

theorem Counted.give (h : Counted s) (x : Node) (s' : State)
    (href : s'.openReferences = (closed s x).openReferences) (hheld : s'.held = s.held) :
    Counted { s' with held := Function.update s'.held x (s'.held x - 1) } := by
  intro y
  dsimp only
  rw [href, hheld]
  dsimp only [closed]
  rw [Function.update_apply, Function.update_apply, h, h]

theorem step_close {x : Node} (hl : Live s) (hc : Counted s) (hf : Fresh s) (hx : s.held x ≠ 0)
    (hsafe : Safe s (.close x ok)) : ∃ s', step s (.close x ok) = some s' ∧ Inv s' := by
  have hclosed : Live (closed s x) := ⟨hl.array, hl.device, hl.fault, hl.marks, hl.valid⟩
  -- the reference is given back, and nothing is freed
  have hgive : ∀ s', Live s' → Fresh s' → s'.openReferences = (closed s x).openReferences → s'.held = s.held →
      Inv { s' with held := Function.update s'.held x (s'.held x - 1) } := by
    intro s' hl' hf' href hheld
    exact .inl ⟨⟨hl'.array, hl'.device, hl'.fault, hl'.marks, hl'.valid⟩, hc.give x s' href hheld, hf'⟩
  rw [step, if_neg hx, hl.close]
  split
  · rename_i hlast
    cases hm : s.removed x with
    | false => exact ⟨_, rfl, hgive _ hclosed hf rfl rfl⟩
    | true =>
      have hunlinked : s.linked x = false := by
        cases hlk : s.linked x with
        | false => rfl
        | true =>
          rw [hl.marks x hlk] at hm
          cases hm
      rcases hclosed.destroy_unlinked (d := 1) ok hunlinked with hrun | ⟨rfl, hd, s', hrun, hl', hheld, hleft⟩
      · refine ⟨_, by rw [show depth = 1 + 2 from rfl, hrun]; rfl, ?_⟩
        exact hgive _ (hclosed.setDestroyed x) (Fresh.setDestroyed hf hunlinked) rfl rfl
      · have hone : s.openReferences .device = 1 := by
          rw [hc] at hlast ⊢
          omega
        have hfrees : frees s (.close .device ok) = true := by
          have hd' : s.destroyed .device = true := hd
          simp [frees, hone, hm, hd']
        refine ⟨_, by rw [show depth = 1 + 2 from rfl, hrun]; rfl, .inr ?_⟩
        have hgone : ∀ y, s'.linked y = false := by
          intro y
          cases hy : s'.linked y with
          | false => rfl
          | true =>
            have hold : s.linked y = true := by
              cases y with
              | device => exact hleft _ hy
              | partition j => exact (hleft _ hy).1
            have := hsafe.unlinked hfrees y hold
            cases this
        have hheld' : ∀ y, (Function.update s'.held .device (s'.held .device - 1)) y = 0 := by
          intro y
          rw [hheld, Function.update_apply]
          change (if y = .device then s.held .device - 1 else s.held y) = 0
          rw [hsafe.unheld hfrees, hsafe.unheld hfrees]
          dsimp only [gives]
          by_cases hy : y = .device
          · simp [hy]
          · rw [if_neg hy, if_neg fun h => hy h.symm]
        have hfree : Live { s' with held := Function.update s'.held .device (s'.held .device - 1) } :=
          ⟨hl'.array, hl'.device, hl'.fault, hl'.marks, hl'.valid⟩
        exact hfree.free hheld' hgone
  · exact ⟨_, rfl, hgive _ hclosed hf rfl rfl⟩

theorem step_remove {x : Node} (hl : Live s) (hc : Counted s) (hf : Fresh s) (hsafe : Safe s (.remove x ok)) :
    ∃ s', step s (.remove x ok) = some s' ∧ Inv s' := by
  change ∃ s', State.directoryRemove ok (1 + 1 + 1) s x = some s' ∧ Inv s'
  by_cases hx : s.linked x = true
  · rw [hl.directoryRemove hx]
    have hdropped := hl.drop x
    have hunlinked : (dropped s x).linked x = false := Function.update_self ..
    split
    · rename_i hzero
      rcases hdropped.destroy_unlinked (d := 0) ok hunlinked with hrun | ⟨rfl, hd, s', hrun, hl', hheld, hleft⟩
      · refine ⟨_, hrun, .inl ⟨hdropped.setDestroyed x, hc, (hf.drop x).setDestroyed hunlinked⟩⟩
      · have hfrees : frees s (.remove .device ok) = true := by
          have hd' : s.destroyed .device = true := hd
          simp [frees, hx, hzero, hd']
        refine ⟨_, hrun, .inr (hl'.free (fun y => ?_) fun y => ?_)⟩
        · rw [hheld]
          exact hsafe.unheld hfrees y
        · cases hy : s'.linked y with
          | false => rfl
          | true =>
            have hold : (dropped s .device).linked y = true := by
              cases y with
              | device => exact hleft _ hy
              | partition j => exact (hleft _ hy).1
            obtain ⟨hne, hold⟩ := (dropped_linked y).mp hold
            have htakes := hsafe.unlinked hfrees y hold
            exact absurd (of_decide_eq_true htakes).symm hne
    · exact ⟨_, rfl, .inl ⟨hdropped, hc, hf.drop x⟩⟩
  · rw [directoryRemove_unlinked (Bool.eq_false_iff.mpr hx)]
    exact ⟨s, rfl, .inl ⟨hl, hc, hf⟩⟩

/-- The run of `DestroyDevice` on a destroyed device. -/
theorem step_destroyDevice_again (hl : Live s) (hf : Fresh s) (hsafe : Safe s (.destroyDevice ok))
    (hd : s.destroyed .device = true) : ∃ s', step s (.destroyDevice ok) = some s' ∧ Inv s' := by
  have hfrees : frees s (.destroyDevice ok) = true := by simp [frees, hd]
  obtain ⟨s', hrun, hl', hheld, hleft⟩ := hl.release_again (d := 1) ok hd true
  refine ⟨s'.free, hrun, .inr (hl'.free (fun y => ?_) fun y => ?_)⟩
  · rw [hheld]
    exact hsafe.unheld hfrees y
  · cases hy : s'.linked y with
    | false => rfl
    | true =>
      have hleft' := hleft y hy
      cases y with
      | device =>
        have htakes := hsafe.unlinked hfrees .device hleft'
        simp [takesOut, hd] at htakes
      | partition j =>
        obtain ⟨hold, hwhy⟩ := hleft'
        have htakes := hsafe.unlinked hfrees (.partition j) hold
        simp only [takesOut, Bool.and_eq_true, Bool.not_eq_true'] at htakes
        obtain ⟨hp, hok⟩ := htakes
        rw [hp, hok, hf hp j hold] at hwhy
        simp at hwhy

/-- After the loop of the first run. -/
def emptied (s : State) (l r t : Node → Bool) : State :=
  { renamed (s.setDestroyed .device) l r t with partitionsRemoved := true }

/-- The first run of `DestroyDevice`. -/
theorem step_destroyDevice_first (hl : Live s) (hc : Counted s) (hf : Fresh s)
    (hsafe : Safe s (.destroyDevice ok)) (hd : s.destroyed .device = false) :
    ∃ s', step s (.destroyDevice ok) = some s' ∧ Inv s' := by
  have hl1 := hl.setDestroyed .device
  obtain ⟨l, r, t, hrun, hlose⟩ := Live.destroyPartitions (d := 1) ok s.partitionsCount 0 hl1
  rw [Nat.zero_add] at hlose
  have hl2 : Live (emptied s l r t) := by
    have h := hlose.live hl1
    exact ⟨h.array, h.device, h.fault, h.marks, h.valid⟩
  have hfresh : ∀ x, Fresh (dropped (emptied s l r t) x) :=
    fun x hp => by cases hp
  have hstep : step s (.destroyDevice ok) = if ok .device then State.directoryRemove ok (2 + 1)
      (emptied s l r t) .device
      else some (emptied s l r t) := by
    change releaseResources (State.directoryRemove ok (1 + 2)) ok s true = _
    unfold releaseResources
    simp only [hl.touch, hd, Bool.false_eq_true, if_false, if_true]
    rw [show (s.setDestroyed .device).partitionsCount = s.partitionsCount from rfl, hrun, Option.map_some,
      Option.bind_some]
    rfl
  rw [hstep]
  split
  · rename_i hok
    by_cases hx : l .device = true
    · rw [hl2.directoryRemove hx]
      split
      · rename_i hzero
        have hlinked : s.linked .device = true := (hlose.linked .device hx).1
        have hfrees : frees s (.destroyDevice ok) = true := by
          have hzero' : s.openReferences .device = 0 := hzero
          simp [frees, hd, hok, hlinked, hzero']
        have hdestroyed : (s.setDestroyed .device).destroyed .device = true := by simp [State.setDestroyed]
        -- `Destroy` enters `ReleaseResources` again, which frees
        obtain ⟨s', hrun', hl', hheld, hleft⟩ := Live.release_again (d := 0) (hl2.drop .device) ok
          (show t .device = true from hlose.device.2.2.trans hdestroyed) false
        refine ⟨_, hrun', .inr (hl'.free (fun y => ?_) fun y => ?_)⟩
        · rw [hheld]
          exact hsafe.unheld hfrees y
        · cases hy : s'.linked y with
          | false => rfl
          | true =>
            have hold : (dropped (emptied s l r t)
                .device).linked y = true := by
              cases y with
              | device => exact hleft _ hy
              | partition j => exact (hleft _ hy).1
            obtain ⟨hne, hold⟩ := (dropped_linked y).mp hold
            have hleft2 := hlose.left hl1 hold
            cases y with
            | device => exact absurd rfl hne
            | partition j =>
              have htakes := hsafe.unlinked hfrees (.partition j) hleft2.1
              simp only [takesOut, Bool.and_eq_true, Bool.not_eq_true'] at htakes
              have hwhy := hleft2.2
              have hdj : (s.setDestroyed .device).destroyed (.partition j) = false := by
                dsimp only [State.setDestroyed]
                rw [Function.update_of_ne (by intro hc; cases hc)]
                exact hf htakes.1 j hleft2.1
              rw [htakes.2, hdj] at hwhy
              have hp : (s.setDestroyed .device).partitionsRemoved = false := htakes.1
              rw [hp] at hwhy
              simp at hwhy
      · exact ⟨_, rfl, .inl ⟨hl2.drop .device, hc, hfresh .device⟩⟩
    · rw [directoryRemove_unlinked (Bool.eq_false_iff.mpr hx)]
      exact ⟨_, rfl, .inl ⟨hl2, hc, fun hp => by cases hp⟩⟩
  · exact ⟨_, rfl, .inl ⟨hl2, hc, fun hp => by cases hp⟩⟩

/-- A step in the state it finds. -/
theorem Inv.step (s : State) (a : Act) (s' : State) (h : Inv s) (hsafe : Safe s a) (hs : step s a = some s') :
    Inv s' := by
  rcases h with ⟨hl, hc, hf⟩ | hg
  · have hone : ∃ s'', BlockLifetime.step s a = some s'' ∧ Inv s'' := by
      cases a with
      | find x => exact step_find hl hc hf
      | close x ok =>
        have hx : s.held x ≠ 0 := by
          intro hx
          rw [BlockLifetime.step, if_pos hx] at hs
          cases hs
        exact step_close hl hc hf hx hsafe
      | remove x ok => exact step_remove hl hc hf hsafe
      | destroyDevice ok =>
        cases hd : s.destroyed .device with
        | true => exact step_destroyDevice_again hl hf hsafe hd
        | false => exact step_destroyDevice_first hl hc hf hsafe hd
    obtain ⟨s'', hs'', hi⟩ := hone
    rw [hs] at hs''
    cases hs''
    exact hi
  · rw [hg.step hsafe hs]
    exact .inr hg

/-- Along every run of safe steps the memory is freed at most once, not while it is held, and
not used afterwards. -/
theorem lifetime_of_steps (s : State) (as : List Act) (h : Start s) (hsafe : AllSteps step Safe s as) :
    AllStates step Proper s as :=
  AllStates.mono (fun _ hi => hi.proper) as s (allStates_of_allSteps Inv.step as s h.inv hsafe)

end

/-- A disk with one partition. -/
def onePartition : State where
  partitionsCount := 1
  valid := fun _ => true
  hasArray := true
  linked := fun
    | .device => true
    | .partition i => decide (i < 1)
  openReferences := fun _ => 0
  removed := fun _ => false
  destroyed := fun _ => false
  partitionsRemoved := false
  arrayFreed := 0
  deviceFreed := 0
  fault := false
  held := fun _ => 0

theorem onePartition_start : Start onePartition :=
  ⟨rfl, fun _ => by simp [onePartition], fun _ => rfl, fun _ => rfl, fun _ => rfl, fun _ => rfl, rfl, rfl, rfl, rfl⟩

/-- A client closes the partition before the driver goes. -/
theorem lifetime_of_steps_close : AllStates step Proper onePartition
    [.find (.partition 0), .close (.partition 0) fun _ => true, .destroyDevice fun _ => true,
      .remove .device fun _ => true] := by
  apply lifetime_of_steps _ _ onePartition_start
  have hquiet : ∀ s a, frees s a = false → (∀ ok, a ≠ .destroyDevice ok) → Safe s a := by
    intro s a hf ha
    refine ⟨fun ok h => absurd h (ha ok), fun h => ?_, fun h => ?_⟩
    · rw [hf] at h
      cases h
    · rw [hf] at h
      cases h
  intro s1 h1
  refine ⟨hquiet _ _ rfl (fun ok h => by cases h), fun s2 h2 => ⟨hquiet _ _ rfl (fun ok h => by cases h), ?_⟩⟩
  cases h1
  cases h2
  intro s3 h3
  refine ⟨⟨fun _ _ => rfl, fun _ x => ?_, fun _ x _ => ?_⟩, fun s4 _ => ⟨?_, trivial⟩⟩
  · change Function.update (Function.update (fun _ => 0) (Node.partition 0) 1) (Node.partition 0) 0 x = 0
    rw [Function.update_idem, Function.update_apply]
    split <;> rfl
  · cases x with
    | device => rfl
    | partition i => rfl
  · cases h3
    exact hquiet _ _ rfl fun ok h => by cases h

/-- The client has the partition open when the driver goes. -/
theorem lifetime_partition_open : Start onePartition ∧
    ¬ AllStates step Proper onePartition [.find (.partition 0), .destroyDevice fun _ => true] := by
  refine ⟨onePartition_start, fun h => ?_⟩
  have hend := (h.2 _ rfl).2 _ rfl
  have hheld := hend.released (.inr rfl) (.partition 0)
  exact absurd hheld (by decide)

end BadLands.Devices.BlockLifetime
