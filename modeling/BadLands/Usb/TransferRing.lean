import BadLands.Core.Machine
import BadLands.Usb.Trb

/-!
# Transfer rings

`TransferRing::Enqueue` writes a TRB at `index` and, behind the last TRB of a lap, a Link TRB;
each write first waits until the slot's cycle bit is not the TRB's own. `step` interleaves
these writes with the steps of the controller, so the controller may also run between the
TRB and the Link TRB of one call.

`transferRing_delivers`: while at most `capacity - 2` TRBs are not consumed, the controller
obtains the enqueued TRBs in order, can always obtain all of them, and no write ever waits.
-/
namespace BadLands.Usb.TransferRing

open BadLands.Core BadLands.Core.CycleRing

/-- `base[index].GetCycle() == trb.GetCycle()` is the wait loop, which nothing but another
write to the slot ends: `none`.
mirrors kernel/src/devices/USB/xHCI/Specification.cpp:581-592 -/
def enqueueTRB (slots : Nat → TRB) (index : Nat) (trb : TRB) : Option (Nat → TRB) :=
  if (slots index).getCycle = trb.getCycle then none else some (write slots index trb)

/-- A ring, the controller that consumes it, and what was enqueued and obtained so far.
`linking`: `Enqueue` is between its two writes. `blocked`: it stays in the wait loop. -/
structure State where
  slots : Nat → TRB
  index : Nat
  cycle : Bool
  linking : Bool
  blocked : Bool
  consumer : Consumer
  enqueued : List TRB
  obtained : List TRB

/-- mirrors kernel/src/devices/USB/xHCI/Specification.cpp:578-579,604-627 -/
def create : State where
  slots := fun _ => .zero
  index := 0
  cycle := true
  linking := false
  blocked := false
  consumer := ⟨0, true⟩
  enqueued := []
  obtained := []

inductive Act where
  | enqueue (trb : TRB)
  | link
  | consume
  deriving DecidableEq, Repr

/-- `none`: the step is not one the callers make. They enqueue one TRB at a time, stamped with
`GetCycle()`, that is no Link TRB, and never have more than `capacity - 2` outstanding.
mirrors kernel/src/devices/USB/xHCI/Specification.cpp:594-602,637-647 -/
def step (r : RingMemory) (s : State) : Act → Option State
  | .enqueue trb =>
    if s.blocked ∨ s.linking ∨ trb.isLink ∨ trb.getCycle ≠ s.cycle ∨
        s.obtained.length + (r.capacity - 2) < s.enqueued.length + 1 then none
    else match enqueueTRB s.slots s.index trb with
      | none => some { s with blocked := true }
      | some slots => some { s with
          slots := slots
          index := s.index + 1
          linking := decide (s.index + 1 ≥ r.capacity - 1)
          enqueued := s.enqueued ++ [trb] }
  | .link =>
    if s.blocked ∨ !s.linking then none
    else match enqueueTRB s.slots s.index (LinkTRB.create s.cycle r.base) with
      | none => some { s with blocked := true }
      | some slots => some { s with slots := slots, index := 0, cycle := !s.cycle, linking := false }
  | .consume =>
    match Usb.consume r s.slots s.consumer with
    | none => some s
    | some (trb, consumer) =>
      some { s with consumer := consumer, obtained := s.obtained ++ trb.toList }

/-! ## The invariant -/

/-- The ring holds `w`, of which the controller has passed `n`. -/
structure Ghost (r : RingMemory) (s : State) (w : List TRB) (n : Nat) : Prop where
  ring : RingInv r s.slots w
  index : s.index = w.length % r.capacity
  cycle : s.cycle = lapCycle r.capacity w.length
  linking : s.linking = true ↔ w.length % r.capacity = r.capacity - 1
  free : s.blocked = false
  consumer : s.consumer.At r.capacity n
  passed : n ≤ w.length
  enqueued : s.enqueued = payload w
  obtained : s.obtained = payload (w.take n)
  lag : s.enqueued.length ≤ s.obtained.length + (r.capacity - 2)

def Inv (r : RingMemory) (s : State) : Prop := ∃ w n, Ghost r s w n

section
variable {r : RingMemory} {s s' : State} {w : List TRB} {n : Nat}

/-- A ring that nothing was written to. -/
theorem ringInv_zero (r : RingMemory) : RingInv r (fun _ => .zero) [] := by
  refine ⟨holds_nil fun _ => zero_getCycle, fun j t ht => ?_, fun j t ht => ?_⟩
  · simp at ht
  · simp at ht

theorem inv_create (r : RingMemory) : Inv r create := by
  have hcap := r.capacity_ge
  refine ⟨[], 0, ringInv_zero r, ?_, ?_, ?_, rfl, ⟨?_, ?_⟩, Nat.le_refl _, rfl, rfl, Nat.zero_le _⟩
  · exact (Nat.zero_mod _).symm
  · exact (lapCycle_first r.pos).symm
  · rw [List.length_nil, Nat.zero_mod]
    exact ⟨(fun h => by cases h), fun h => by omega⟩
  · exact (Nat.zero_mod _).symm
  · exact (lapCycle_first r.pos).symm

/-- The wait loop lets every write with the cycle of the lap through: the slot is one of the last lap. -/
theorem enqueueTRB_ring {slots : Nat → TRB} (h : RingInv r slots w) {trb : TRB}
    (ht : trb.getCycle = lapCycle r.capacity w.length) :
    enqueueTRB slots (w.length % r.capacity) trb = some (write slots (w.length % r.capacity) trb) := by
  unfold enqueueTRB
  rw [h.holds.stale r.pos, ht, if_neg]
  cases lapCycle r.capacity w.length <;> decide

theorem Ghost.enqueueTRB (h : Ghost r s w n) {trb : TRB} (ht : trb.getCycle = s.cycle) :
    enqueueTRB s.slots s.index trb = some (write s.slots (w.length % r.capacity) trb) := by
  rw [h.index]
  exact enqueueTRB_ring h.ring (ht.trans h.cycle)

theorem Ghost.enqueue {trb : TRB} (h : Ghost r s w n) (hs : step r s (.enqueue trb) = some s') :
    Ghost r s' (w ++ [trb]) n := by
  have hpos := r.pos
  have hcap := r.capacity_ge
  have hbound := Nat.mod_lt w.length hpos
  rw [step] at hs
  split at hs
  · cases hs
  · rename_i hguard
    obtain ⟨-, hlinking, hlink, hcycle, hroom⟩ : ¬ s.blocked = true ∧ ¬ s.linking = true ∧
        ¬ trb.isLink = true ∧ trb.getCycle = s.cycle ∧
        s.enqueued.length + 1 ≤ s.obtained.length + (r.capacity - 2) := by
      simp only [not_or, ne_eq, Decidable.not_not, Nat.not_lt] at hguard
      exact hguard
    rw [Bool.not_eq_true] at hlink
    have hplace : w.length % r.capacity ≠ r.capacity - 1 := fun he => hlinking (h.linking.mpr he)
    rw [h.enqueueTRB hcycle, Option.some.injEq] at hs
    subst hs
    refine ⟨h.ring.push (hcycle.trans h.cycle) (fun he => absurd he hplace) fun _ => hlink, ?_, ?_, ?_,
      h.free, h.consumer, ?_, ?_, ?_, ?_⟩
    · rw [List.length_append, List.length_singleton, next_slot hpos, if_neg (by omega), h.index]
    · rw [List.length_append, List.length_singleton, next_cycle hpos, if_neg (by omega), h.cycle]
    · rw [List.length_append, List.length_singleton, next_slot hpos, if_neg (by omega), ← h.index,
        decide_eq_true_iff]
      have := h.index
      constructor
      · intro hge
        omega
      · intro he
        omega
    · rw [List.length_append]
      exact Nat.le_trans h.passed (Nat.le_add_right _ _)
    · rw [payload_concat, hlink, if_neg (by decide), h.enqueued]
    · rw [List.take_append_of_le_length h.passed]
      exact h.obtained
    · rw [List.length_append, List.length_singleton]
      exact hroom

theorem Ghost.link (h : Ghost r s w n) (hs : step r s .link = some s') :
    Ghost r s' (w ++ [LinkTRB.create s.cycle r.base]) n := by
  have hpos := r.pos
  have hcap := r.capacity_ge
  rw [step] at hs
  split at hs
  · cases hs
  · rename_i hguard
    have hlinking : s.linking = true := by
      rw [not_or, Bool.not_eq_true'] at hguard
      cases hb : s.linking with
      | true => rfl
      | false => exact absurd hb hguard.2
    have hplace := h.linking.mp hlinking
    rw [h.enqueueTRB (link_getCycle _ _), Option.some.injEq] at hs
    subst hs
    refine ⟨h.ring.push ((link_getCycle _ _).trans h.cycle) (fun _ => by rw [h.cycle])
      (fun hne => absurd hplace hne), ?_, ?_, ?_, h.free, h.consumer, ?_, ?_, ?_, h.lag⟩
    · rw [List.length_append, List.length_singleton, next_slot hpos, if_pos (by omega)]
    · rw [List.length_append, List.length_singleton, next_cycle hpos, if_pos (by omega), h.cycle]
    · rw [List.length_append, List.length_singleton, next_slot hpos, if_pos (by omega)]
      exact ⟨(fun hf => by cases hf), fun he => by omega⟩
    · rw [List.length_append]
      exact Nat.le_trans h.passed (Nat.le_add_right _ _)
    · rw [payload_concat, if_pos (link_isLink _ _), h.enqueued]
    · rw [List.take_append_of_le_length h.passed]
      exact h.obtained

/-- The controller passes the next entry, if there is one. -/
theorem Ghost.consume (h : Ghost r s w n) :
    (n = w.length ∧ step r s .consume = some s) ∨
      ∃ s₁, step r s .consume = some s₁ ∧ s₁.enqueued = s.enqueued ∧ n < w.length ∧ Ghost r s₁ w (n + 1) := by
  have hlag := h.lag
  rw [h.enqueued, h.obtained] at hlag
  rcases consume_cases h.ring h.consumer h.passed hlag with ⟨he, hnone⟩ | ⟨trb, c', hlt, hrun, hat, htake⟩
  · left
    refine ⟨he, ?_⟩
    rw [step, hnone]
  · right
    refine ⟨{ s with consumer := c', obtained := s.obtained ++ trb.toList }, ?_, rfl, hlt, h.ring, h.index,
      h.cycle, h.linking, h.free, hat, hlt, h.enqueued, ?_, ?_⟩
    · rw [step, hrun]
    · rw [htake, ← h.obtained]
    · rw [List.length_append]
      exact Nat.le_trans h.lag (by omega)

theorem inv_step (a : Act) (h : Inv r s) (hs : step r s a = some s') : Inv r s' := by
  obtain ⟨w, n, hg⟩ := h
  cases a with
  | enqueue trb => exact ⟨_, n, hg.enqueue hs⟩
  | link => exact ⟨_, n, hg.link hs⟩
  | consume =>
    rcases hg.consume with ⟨-, hidle⟩ | ⟨s₁, hrun, -, -, hg₁⟩
    · rw [hidle, Option.some.injEq] at hs
      subst hs
      exact ⟨w, n, hg⟩
    · rw [hrun, Option.some.injEq] at hs
      subst hs
      exact ⟨w, n + 1, hg₁⟩

/-- The controller alone obtains everything. -/
theorem Ghost.drain (h : Ghost r s w n) :
    ∃ s', Machine.run (step r) s (List.replicate (w.length - n) .consume) = some s' ∧ s'.obtained = s.enqueued := by
  obtain ⟨s', hrun, hg, hsame⟩ := Machine.run_drain (P := (Ghost r · w)) (f := State.enqueued)
    (fun _ _ => Ghost.consume) (w.length - n) s n h (Nat.add_sub_cancel' h.passed)
  refine ⟨s', hrun, ?_⟩
  rw [hg.obtained, List.take_length, ← hg.enqueued, hsame]

end

/-- What the controller is promised of a ring. -/
structure Delivers (r : RingMemory) (s : State) : Prop where
  free : s.blocked = false
  inOrder : s.obtained <+: s.enqueued
  all : ∃ k s', Machine.run (step r) s (List.replicate k .consume) = some s' ∧ s'.obtained = s.enqueued

theorem delivers_of_inv {r : RingMemory} {s : State} (h : Inv r s) : Delivers r s := by
  obtain ⟨w, n, hg⟩ := h
  refine ⟨hg.free, ?_, w.length - n, ?_⟩
  · rw [hg.obtained, hg.enqueued]
    exact (List.take_prefix n w).filter _
  · exact hg.drain

/-- Along every interleaving of `Enqueue` calls with the controller's steps, from a cleared ring:
no write waits, the controller has obtained the enqueued TRBs in order, each once, and only has
to go on to obtain the rest. -/
theorem transferRing_delivers (r : RingMemory) (acts : List Act) :
    Machine.AllStates (step r) (Delivers r) create acts :=
  Machine.AllStates.mono (fun _ => delivers_of_inv) acts create
    (Machine.allStates_of_inv (fun _ a _ h hs => inv_step a h hs) acts create (inv_create r))

end BadLands.Usb.TransferRing
