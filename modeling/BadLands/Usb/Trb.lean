import BadLands.Core.CycleRing
import Mathlib.Data.List.Induction

/-!
# xHCI transfer request blocks and the controller's side of a ring

`TRB` is the four words of the source. A ring the kernel writes has a Link TRB in its last
slot that leads back to the first one and toggles the cycle.

`consume` is the step the controller makes on such a ring, from the xHCI rules: it takes the
TRB at its dequeue pointer when the cycle bit is its own, and follows a Link. `RingInv` says
what the kernel wrote (`w`, Link TRBs included); `consume_ready` and `consume_idle` say what
the controller then does.
-/
namespace BadLands.Usb

open BadLands.Core BadLands.Core.CycleRing

/-! ## Formats -/

/-- mirrors common/include/shared/Bitwise.hpp:23-27 -/
def modifyPacked (target mask : BitVec 32) (shift : Nat) (value : BitVec 32) : BitVec 32 :=
  (target &&& ~~~mask) ||| ((value <<< shift) &&& mask)

/-- mirrors common/include/shared/Bitwise.hpp:34-37 -/
def getPacked (source mask : BitVec 32) (shift : Nat) : BitVec 32 := (source &&& mask) >>> shift

/-- mirrors kernel/include/devices/USB/xHCI/TRB.hpp:22-68 -/
structure TRB where
  data0 : BitVec 32
  data1 : BitVec 32
  data2 : BitVec 32
  data3 : BitVec 32
  deriving DecidableEq, Repr

namespace TRB

def zero : TRB := ⟨0#32, 0#32, 0#32, 0#32⟩

/-- mirrors kernel/src/devices/USB/xHCI/TRB.cpp:28-30 -/
def getCycle (t : TRB) : Bool := t.data3 &&& 0x00000001#32 != 0#32

/-- mirrors kernel/src/devices/USB/xHCI/TRB.cpp:32-35 -/
def setCycle (t : TRB) (cycle : Bool) : TRB :=
  { t with data3 := modifyPacked t.data3 0x00000001#32 0 (if cycle then 1#32 else 0#32) }

/-- mirrors kernel/src/devices/USB/xHCI/TRB.cpp:37-41 -/
def setTRBType (t : TRB) (type : BitVec 32) : TRB :=
  { t with data3 := modifyPacked t.data3 0x0000FC00#32 10 type }

/-- mirrors kernel/src/devices/USB/xHCI/TRB.cpp:225-236 -/
def setDataBufferPointer (t : TRB) (pointer : BitVec 64) : TRB :=
  { t with data0 := pointer.setWidth 32, data1 := (pointer >>> 32).setWidth 32 }

/-- mirrors kernel/src/devices/USB/xHCI/TRB.cpp:238-242 -/
def setTRBTransferLength (t : TRB) (length : BitVec 32) : TRB :=
  { t with data2 := modifyPacked t.data2 0x0001FFFF#32 0 length }

/-- mirrors kernel/src/devices/USB/xHCI/TRB.cpp:244-248 -/
def setTDSize (t : TRB) (size : BitVec 8) : TRB :=
  { t with data2 := modifyPacked t.data2 0x003E0000#32 17 (size.setWidth 32) }

/-- mirrors kernel/src/devices/USB/xHCI/TRB.cpp:250-254 -/
def setInterrupterTarget (t : TRB) (target : BitVec 16) : TRB :=
  { t with data2 := modifyPacked t.data2 0xFFC00000#32 22 (target.setWidth 32) }

/-- The setters of a one-bit field. -/
def setFlag (t : TRB) (mask : BitVec 32) (shift : Nat) (flag : Bool) : TRB :=
  { t with data3 := modifyPacked t.data3 mask shift (if flag then 1#32 else 0#32) }

/-- mirrors kernel/src/devices/USB/xHCI/TRB.cpp:256-260 -/
def setENT (t : TRB) (ent : Bool) : TRB := t.setFlag 0x00000002#32 1 ent

/-- mirrors kernel/src/devices/USB/xHCI/TRB.cpp:262-266 -/
def setISP (t : TRB) (isp : Bool) : TRB := t.setFlag 0x00000004#32 2 isp

/-- mirrors kernel/src/devices/USB/xHCI/TRB.cpp:268-272 -/
def setNoSnoop (t : TRB) (noSnoop : Bool) : TRB := t.setFlag 0x00000008#32 3 noSnoop

/-- mirrors kernel/src/devices/USB/xHCI/TRB.cpp:274-278 -/
def setChain (t : TRB) (chain : Bool) : TRB := t.setFlag 0x00000010#32 4 chain

/-- mirrors kernel/src/devices/USB/xHCI/TRB.cpp:280-284 -/
def setInterruptOnCompletion (t : TRB) (ioc : Bool) : TRB := t.setFlag 0x00000020#32 5 ioc

/-- mirrors kernel/src/devices/USB/xHCI/TRB.cpp:286-290 -/
def setImmediateData (t : TRB) (immediateData : Bool) : TRB := t.setFlag 0x00000040#32 6 immediateData

/-- The type field, as the controller and `EventTRB::GetType` read it.
mirrors kernel/src/devices/USB/xHCI/TRB.cpp:50-54 -/
def getType (t : TRB) : BitVec 32 := getPacked t.data3 0x0000FC00#32 10

def isLink (t : TRB) : Bool := t.getType == 6#32

/-- The toggle flag of a Link TRB. -/
def toggles (t : TRB) : Bool := t.data3 &&& 0x00000002#32 != 0#32

/-- The pointer of a Link TRB. -/
def linkTarget (t : TRB) : BitVec 64 := (t.data1 ++ t.data0) &&& 0xFFFFFFFFFFFFFFF0#64

end TRB

/-- mirrors kernel/src/devices/USB/xHCI/TRB.cpp:205-223 -/
def LinkTRB.create (cycle : Bool) (next : BitVec 64) : TRB :=
  let rawNext := next &&& 0xFFFFFFFFFFFFFFF0#64
  let trb : TRB := ⟨rawNext.setWidth 32, (rawNext >>> 32).setWidth 32, 0#32, 0x00000002#32⟩
  (trb.setCycle cycle).setTRBType 6#32

/-- `sizeof(TRB)`. -/
def trbSize : Nat := 16

theorem zero_getCycle : TRB.zero.getCycle = false := by decide

section
variable {target mask other value : BitVec 32} {shift : Nat}

/-- A packed field does not touch the bits of another one. -/
theorem modifyPacked_other (h : ~~~mask &&& other = other) :
    modifyPacked target mask shift value &&& other = target &&& other := by
  have hmask : mask &&& other = 0#32 := by
    rw [← h, ← BitVec.and_assoc, BitVec.and_not_self]
    exact BitVec.zero_and
  unfold modifyPacked
  rw [BitVec.and_or_distrib_right, BitVec.and_assoc, h, BitVec.and_assoc, hmask, BitVec.and_zero,
    BitVec.or_zero]

theorem modifyPacked_same :
    modifyPacked target mask shift value &&& mask = (value <<< shift) &&& mask := by
  unfold modifyPacked
  rw [BitVec.and_or_distrib_right, BitVec.and_assoc, BitVec.and_assoc, BitVec.and_self,
    BitVec.and_comm (~~~mask), BitVec.and_not_self, show (0 : BitVec 32) = 0#32 from rfl, BitVec.and_zero,
    BitVec.zero_or]

theorem setCycle_getCycle {t : TRB} {cycle : Bool} : (t.setCycle cycle).getCycle = cycle := by
  unfold TRB.getCycle TRB.setCycle
  simp only
  rw [modifyPacked_same]
  cases cycle <;> decide

end

section
variable (cycle : Bool) (next : BitVec 64)

theorem link_data3 : (LinkTRB.create cycle next).data3 =
    modifyPacked (modifyPacked 2#32 1#32 0 (if cycle then 1#32 else 0#32)) 0x0000FC00#32 10 6#32 := rfl

@[simp] theorem link_getCycle : (LinkTRB.create cycle next).getCycle = cycle := by
  unfold TRB.getCycle
  rw [link_data3]
  cases cycle <;> decide

@[simp] theorem link_isLink : (LinkTRB.create cycle next).isLink = true := by
  unfold TRB.isLink TRB.getType
  rw [link_data3]
  cases cycle <;> decide

@[simp] theorem link_toggles : (LinkTRB.create cycle next).toggles = true := by
  unfold TRB.toggles
  rw [link_data3]
  cases cycle <;> decide

theorem append_halves (x : BitVec 64) : (x >>> 32).setWidth 32 ++ x.setWidth 32 = x := by
  apply BitVec.eq_of_toNat_eq
  have hx := x.isLt
  rw [BitVec.toNat_append, BitVec.toNat_setWidth, BitVec.toNat_setWidth, BitVec.toNat_ushiftRight,
    Nat.shiftRight_eq_div_pow, Nat.mod_eq_of_lt (show x.toNat / 2 ^ 32 < 2 ^ 32 by omega),
    ← Nat.shiftLeft_add_eq_or_of_lt (Nat.mod_lt _ (by decide)), Nat.shiftLeft_eq]
  omega

theorem link_linkTarget : (LinkTRB.create cycle next).linkTarget = next &&& 0xFFFFFFFFFFFFFFF0#64 := by
  have htarget : (LinkTRB.create cycle next).linkTarget =
      ((((next &&& 0xFFFFFFFFFFFFFFF0#64) >>> 32).setWidth 32 ++
        (next &&& 0xFFFFFFFFFFFFFFF0#64).setWidth 32) &&& 0xFFFFFFFFFFFFFFF0#64) := rfl
  rw [htarget, append_halves, BitVec.and_assoc, BitVec.and_self]

end

/-! ## The controller -/

/-- Where a ring is: `base` is what `AllocateDMA` returned, so a page address. -/
structure RingMemory where
  base : BitVec 64
  capacity : Nat
  capacity_ge : 3 ≤ capacity
  aligned : base &&& 0xFFFFFFFFFFFFFFF0#64 = base

/-- A page has 256 TRBs. -/
theorem page_capacity : 3 ≤ 256 := by decide

/-- The controller's dequeue pointer, as a slot of the ring, and its cycle state. -/
structure Consumer where
  dequeue : Nat
  cycle : Bool
  deriving DecidableEq, Repr

/-- One step: nothing to do (`none`), a Link TRB, or a TRB that it obtains. -/
def consume (r : RingMemory) (slots : Nat → TRB) (c : Consumer) : Option (Option TRB × Consumer) :=
  let t := slots c.dequeue
  if t.getCycle ≠ c.cycle then none
  else if t.isLink then
    some (none, ⟨(t.linkTarget - r.base).toNat / trbSize, if t.toggles then !c.cycle else c.cycle⟩)
  else some (some t, ⟨c.dequeue + 1, c.cycle⟩)

/-- The ring after the TRBs `w`, Link TRBs included, were written to it. -/
structure RingInv (r : RingMemory) (slots : Nat → TRB) (w : List TRB) : Prop where
  holds : Holds r.capacity TRB.getCycle slots w
  links : ∀ j t, w[j]? = some t → j % r.capacity = r.capacity - 1 →
    t = LinkTRB.create (lapCycle r.capacity j) r.base
  others : ∀ j t, w[j]? = some t → j % r.capacity ≠ r.capacity - 1 → t.isLink = false

/-- The controller has passed `n` entries. -/
structure Consumer.At (c : Consumer) (capacity n : Nat) : Prop where
  dequeue : c.dequeue = n % capacity
  cycle : c.cycle = lapCycle capacity n

/-- The TRBs that are no Link TRBs. -/
def payload (w : List TRB) : List TRB := w.filter fun t => !t.isLink

section
variable {r : RingMemory} {slots : Nat → TRB} {w : List TRB} {c : Consumer} {n : Nat}

theorem RingMemory.pos (r : RingMemory) : 0 < r.capacity := by
  have := r.capacity_ge
  omega

theorem payload_concat (w : List TRB) (t : TRB) :
    payload (w ++ [t]) = if t.isLink then payload w else payload w ++ [t] := by
  unfold payload
  rw [List.filter_append]
  cases h : t.isLink with
  | true => simp [h]
  | false => simp [h]

theorem RingInv.isLink_iff (h : RingInv r slots w) (j : Nat) (t : TRB) (ht : w[j]? = some t) :
    t.isLink = true ↔ j % r.capacity = r.capacity - 1 := by
  by_cases hl : j % r.capacity = r.capacity - 1
  · rw [h.links j t ht hl]
    exact ⟨fun _ => hl, fun _ => link_isLink _ _⟩
  · rw [h.others j t ht hl]
    exact ⟨(fun hf => by cases hf), fun he => absurd he hl⟩

/-- Every lap has one Link TRB. -/
theorem length_payload {cap : Nat} (hpos : 0 < cap)
    (h : ∀ (j : Nat) t, w[j]? = some t → (t.isLink = true ↔ j % cap = cap - 1)) :
    (payload w).length + w.length / cap = w.length := by
  induction w using List.reverseRecOn with
  | nil => simp [payload]
  | append_singleton w t ih =>
    have hcount := ih fun j u hu => h j u (by
      rw [List.getElem?_append_left (List.getElem?_eq_some_iff.mp hu).1]
      exact hu)
    have hlast := h w.length t List.getElem?_concat_length
    have hbound := Nat.mod_lt w.length hpos
    rw [payload_concat, List.length_append, List.length_singleton, next_lap hpos]
    by_cases hl : w.length % cap = cap - 1
    · rw [if_pos (hlast.mpr hl), if_pos (by omega)]
      omega
    · rw [if_neg fun he => hl (hlast.mp he), List.length_append, List.length_singleton, if_neg (by omega)]
      omega

/-- With at most `capacity - 2` TRBs not obtained, the controller is less than a lap behind. -/
theorem RingInv.lag (h : RingInv r slots w) (hn : n ≤ w.length)
    (hlag : (payload w).length ≤ (payload (w.take n)).length + (r.capacity - 2)) :
    w.length < n + r.capacity := by
  apply Decidable.byContradiction
  intro hfull
  have hpos := r.pos
  have hcap := r.capacity_ge
  have hw := length_payload hpos h.isLink_iff
  have htake := length_payload (w := w.take n) hpos fun j t ht => h.isLink_iff j t (by
    rw [List.getElem?_take] at ht
    split at ht
    · exact ht
    · cases ht)
  rw [List.length_take, Nat.min_eq_left hn] at htake
  -- a lap has `capacity - 1` TRBs that are no Link TRBs
  have hlap : (n + r.capacity) / r.capacity = n / r.capacity + 1 := Nat.add_div_right n hpos
  have hmono : w.length / r.capacity ≤
      (n + r.capacity) / r.capacity + (w.length - (n + r.capacity)) := by
    have h1 := Nat.div_add_mod (n + r.capacity) r.capacity
    have h2 := Nat.mod_lt (n + r.capacity) hpos
    have h3 : w.length - (n + r.capacity) ≤ r.capacity * (w.length - (n + r.capacity)) :=
      Nat.le_mul_of_pos_left _ hpos
    rw [Nat.div_le_iff_le_mul_add_pred hpos, Nat.mul_add]
    omega
  omega

theorem RingInv.push (h : RingInv r slots w) {t : TRB} (ht : t.getCycle = lapCycle r.capacity w.length)
    (hlink : w.length % r.capacity = r.capacity - 1 → t = LinkTRB.create (lapCycle r.capacity w.length) r.base)
    (hother : w.length % r.capacity ≠ r.capacity - 1 → t.isLink = false) :
    RingInv r (write slots (w.length % r.capacity) t) (w ++ [t]) := by
  have hlast : ∀ (j : Nat) u, (w ++ [t])[j]? = some u → w[j]? = some u ∨ (j = w.length ∧ u = t) := by
    intro j u hj
    by_cases hlt : j < w.length
    · rw [List.getElem?_append_left hlt] at hj
      exact .inl hj
    · have hjlen : j = w.length := by
        obtain ⟨hbound, -⟩ := List.getElem?_eq_some_iff.mp hj
        rw [List.length_append, List.length_singleton] at hbound
        omega
      subst hjlen
      rw [List.getElem?_concat_length, Option.some.injEq] at hj
      exact .inr ⟨rfl, hj.symm⟩
  refine ⟨h.holds.push ht, fun j u hj hm => ?_, fun j u hj hm => ?_⟩
  · rcases hlast j u hj with hj' | ⟨rfl, rfl⟩
    · exact h.links j u hj' hm
    · exact hlink hm
  · rcases hlast j u hj with hj' | ⟨rfl, rfl⟩
    · exact h.others j u hj' hm
    · exact hother hm

/-- There is an entry: the controller passes it, and obtains it unless it is a Link TRB. -/
theorem consume_ready (h : RingInv r slots w) (hc : c.At r.capacity n) (hn : n < w.length)
    (hlap : w.length ≤ n + r.capacity) :
    ∃ c', consume r slots c = some (if w[n].isLink then none else some w[n], c') ∧
      c'.At r.capacity (n + 1) := by
  have hpos := r.pos
  have hbound := Nat.mod_lt n hpos
  have hget : w[n]? = some w[n] := List.getElem?_eq_getElem hn
  have hslot : slots c.dequeue = w[n] := by
    rw [hc.dequeue]
    exact h.holds.entry hlap hn
  have hcycle : w[n].getCycle = c.cycle := by
    rw [hc.cycle]
    exact h.holds.stamped n _ hget
  unfold consume
  rw [hslot]
  simp only [ne_eq, hcycle, not_true_eq_false, if_false]
  by_cases hl : n % r.capacity = r.capacity - 1
  · -- the Link TRB leads to slot 0 of the next lap
    have hw := h.links n _ hget hl
    have htarget : (w[n].linkTarget - r.base).toNat / trbSize = 0 := by
      rw [hw, link_linkTarget, r.aligned, BitVec.sub_self]
      rfl
    have hlink : w[n].isLink = true := by rw [hw, link_isLink]
    have htoggle : w[n].toggles = true := by rw [hw, link_toggles]
    refine ⟨⟨0, !c.cycle⟩, ?_, ?_, ?_⟩
    · simp only [hlink, htoggle, htarget, if_true]
    · rw [next_slot hpos, if_pos (by omega)]
    · rw [next_cycle hpos, if_pos (by omega), hc.cycle]
  · have hlink := h.others n _ hget hl
    refine ⟨⟨c.dequeue + 1, c.cycle⟩, ?_, ?_, ?_⟩
    · simp only [hlink, Bool.false_eq_true, if_false]
    · rw [next_slot hpos, if_neg (by omega), hc.dequeue]
    · rw [next_cycle hpos, if_neg (by omega), hc.cycle]

/-- There is none: the controller waits. -/
theorem consume_idle (h : RingInv r slots w) (hc : c.At r.capacity w.length) :
    consume r slots c = none := by
  have hstale := h.holds.stale r.pos
  unfold consume
  rw [hc.dequeue, if_pos]
  rw [hstale, hc.cycle]
  cases lapCycle r.capacity w.length <;> decide

/-- The controller's step, by what it adds to the payload it has passed. -/
theorem consume_cases (h : RingInv r slots w) (hc : c.At r.capacity n) (hn : n ≤ w.length)
    (hlag : (payload w).length ≤ (payload (w.take n)).length + (r.capacity - 2)) :
    (n = w.length ∧ consume r slots c = none) ∨
      ∃ trb c', n < w.length ∧ consume r slots c = some (trb, c') ∧ c'.At r.capacity (n + 1) ∧
        payload (w.take (n + 1)) = payload (w.take n) ++ trb.toList := by
  rcases Nat.eq_or_lt_of_le hn with rfl | hlt
  · exact .inl ⟨rfl, consume_idle h hc⟩
  · have hbehind := h.lag hn hlag
    obtain ⟨c', hrun, hat⟩ := consume_ready h hc hlt (Nat.le_of_lt hbehind)
    refine .inr ⟨_, c', hlt, hrun, hat, ?_⟩
    rw [List.take_succ_eq_append_getElem hlt, payload_concat]
    cases w[n].isLink with
    | true => simp
    | false => simp

end

end BadLands.Usb
