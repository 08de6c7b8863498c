import BadLands.Hid.Keyboard
import Mathlib.Data.List.Induction

/-!
# Key events over runs of reports

The events of a report are what its bitmap has changed, and that bitmap becomes the old one after
every report: also after one that was too short, which had no events, and after one of another ID,
which says nothing about the keys of the first.

* `handleReport_edges`: the press or release of a key that a report emits.
* `Agrees`: the reports that change no key behind the back of the events.
* `Settled.of_agrees`: in a run of such reports, presses and releases alternate, and the keys that are
  down are those that the reports say.
-/
namespace BadLands.Hid

open BadLands.Core

/-! ## Presses and releases -/

/-- Presses (`true`) and releases, of a key that is `down` before. -/
def Alternates : Bool → List Bool → Prop
  | _, [] => True
  | down, edge :: edges => edge ≠ down ∧ Alternates edge edges

/-- Whether the key is down after them. -/
def levelAfter (down : Bool) (edges : List Bool) : Bool := edges.getLastD down

theorem levelAfter_append (down : Bool) (edges edges' : List Bool) :
    levelAfter down (edges ++ edges') = levelAfter (levelAfter down edges) edges' := by
  cases edges' with
  | nil => rw [List.append_nil]; rfl
  | cons edge edges' => simp [levelAfter, List.getLastD_eq_getLast?]

theorem alternates_append : ∀ {down : Bool} {edges edges' : List Bool}, Alternates down edges →
    Alternates (levelAfter down edges) edges' → Alternates down (edges ++ edges')
  | _, [], _, _, h => h
  | _, edge :: edges, edges', ⟨hne, hrest⟩, h => by
    refine ⟨hne, alternates_append hrest ?_⟩
    rw [levelAfter, List.getLastD_cons] at h
    exact h

/-- The edge between two levels. -/
def edgeOf (old new : Bool) : List Bool := if new = old then [] else [new]

theorem edgeOf_spec (old new : Bool) : Alternates old (edgeOf old new) ∧ levelAfter old (edgeOf old new) = new := by
  cases old <;> cases new <;> simp [edgeOf, Alternates, levelAfter]

namespace Keyboard

def KeyEvent.edge (usage : Nat) : KeyEvent → Option Bool
  | .pressed u _ => if u = usage then some true else none
  | .released u _ => if u = usage then some false else none
  | .held _ _ => none

/-- The presses and releases of a key. -/
def edges (usage : Nat) (events : List KeyEvent) : List Bool := events.filterMap (KeyEvent.edge usage)

/-- A usage with a key. -/
def HasKeypoint (usage : Nat) : Prop := getKeypoint usage ≠ 0#8

/-! ## Runs -/

/-- A call of `HandleReport`, and what the timer says. -/
structure InputReport where
  reportID : BitVec 8
  data : ByteMemory
  length : Nat
  timestamp : BitVec 64

def receive (k : Keyboard) (r : InputReport) : Keyboard × List KeyEvent :=
  k.handleReport r.reportID r.data r.length r.timestamp

/-- The reports one after the other. -/
def receiveAll (k : Keyboard) : List InputReport → Keyboard × List KeyEvent
  | [] => (k, [])
  | r :: reports =>
    let (k, events) := k.receive r
    let (k, rest) := receiveAll k reports
    (k, events ++ rest)

/-- A report that is long enough for its ID. -/
def Adequate (k : Keyboard) (r : InputReport) : Bool := (scan r.reportID r.length k.collections).2

/-- An element that says that this usage is down. -/
def Visit.marks (data : ByteMemory) (usage : Nat) (v : Visit) : Bool :=
  if v.item.size = 1#32 then
    (v.item.usageMinimum + BitVec.ofNat 32 v.element).toNat == usage &&
      (data v.byteIndex &&& (1#8 <<< (v.bit % 8)) != 0#8)
  else (data v.byteIndex).toNat == usage && data v.byteIndex != 0#8

/-- A key that a report marks as down, in an element that is looked at. -/
def Marks (k : Keyboard) (r : InputReport) (usage : Nat) : Bool :=
  (scan r.reportID r.length k.collections).1.any (Visit.marks r.data usage)

/-- The latest adequate report with this ID. -/
def latest (k : Keyboard) (reportID : BitVec 8) (reports : List InputReport) : Option InputReport :=
  (reports.filter fun r => r.reportID == reportID && k.Adequate r).getLast?

/-- A key that one of the latest adequate reports marks. -/
def Down (k : Keyboard) (reports : List InputReport) (usage : Nat) : Prop :=
  ∃ reportID, ∃ r ∈ k.latest reportID reports, k.Marks r usage

/-- The events of a keyboard that was just created, with its collections, and got these reports: they
alternate, and after an adequate report they agree with the reports. -/
structure Settled (k : Keyboard) (reports : List InputReport) : Prop where
  alternates : ∀ usage, HasKeypoint usage → Alternates false (edges usage (k.receiveAll reports).2)
  down : ∀ r ∈ reports.getLast?, k.Adequate r → ∀ usage, HasKeypoint usage →
    (levelAfter false (edges usage (k.receiveAll reports).2) = true ↔ k.Down reports usage)

/-- A report that comes after others. An adequate one marks the keys that the reports of other IDs have
down. Another one marks, in the collections it is long enough for, the keys that were down before. -/
structure Agrees (k : Keyboard) (reports : List InputReport) (r : InputReport) : Prop where
  adequate : k.Adequate r → ∀ reportID ≠ r.reportID, ∀ q ∈ k.latest reportID reports, ∀ usage, HasKeypoint usage →
    k.Marks q usage → k.Marks r usage
  short : k.Adequate r = false → ∀ usage, HasKeypoint usage →
    (k.Marks r usage = (k.receiveAll reports).1.previousKeys.test usage)

/-- A run of reports that agree, each with those before it. -/
inductive Agreeing (k : Keyboard) : List InputReport → Prop
  | nil : Agreeing k []
  | snoc {reports : List InputReport} {r : InputReport} (h : Agreeing k reports) (hr : k.Agrees reports r) :
      Agreeing k (reports ++ [r])

/-- Bitmaps without keys, as those of a new keyboard. -/
def Clear (k : Keyboard) : Prop := (∀ w, k.currentKeys w = 0#64) ∧ ∀ w, k.previousKeys w = 0#64

/-! ## The events of a report -/

section
variable {k k' : Keyboard} {r : InputReport} {reports : List InputReport} {usage : Nat} {flags : BitVec 8}
  {timestamp : BitVec 64} {data : ByteMemory}

theorem edges_append (usage : Nat) (events events' : List KeyEvent) :
    edges usage (events ++ events') = edges usage events ++ edges usage events' := List.filterMap_append

/-- Behind the table there are no keys. -/
theorem HasKeypoint.lt (h : HasKeypoint usage) : usage < bitmapSize := by
  refine Nat.lt_of_not_le fun hle => h ?_
  have hlength : keypointTable.length ≤ usage := Nat.le_trans (by decide +kernel) hle
  rw [getKeypoint, List.getD_eq_getElem?_getD, List.getElem?_eq_none hlength]
  rfl

theorem packetOf_some (h : HasKeypoint usage) (flags : BitVec 16) : ∃ packet, packetOf usage flags = some packet := by
  rw [packetOf, if_neg h]
  exact ⟨_, rfl⟩

theorem onKeyPressed_edges (k : Keyboard) (flags : BitVec 8) (timestamp : BitVec 64) (h : HasKeypoint usage) (u : Nat) :
    edges usage (k.onKeyPressed u flags timestamp).2 = if u = usage then [true] else [] := by
  unfold onKeyPressed
  split
  · next hnone =>
    rw [if_neg]
    · rfl
    · rintro rfl
      obtain ⟨packet, hpacket⟩ := packetOf_some h (flags.setWidth 16 ||| flagKeyPressed)
      rw [hpacket] at hnone
      cases hnone
  · by_cases hu : u = usage <;> simp [edges, KeyEvent.edge, hu]

theorem onKeyReleased_edges (k : Keyboard) (flags : BitVec 8) (h : HasKeypoint usage) (u : Nat) :
    edges usage (k.onKeyReleased u flags).2 = if u = usage then [false] else [] := by
  unfold onKeyReleased
  split
  · next hnone =>
    rw [if_neg]
    · rfl
    · rintro rfl
      obtain ⟨packet, hpacket⟩ := packetOf_some h (flags.setWidth 16 &&& ~~~flagKeyPressed)
      rw [hpacket] at hnone
      cases hnone
  · by_cases hu : u = usage <;> simp [edges, KeyEvent.edge, hu]

theorem onKeyHeld_edges (k : Keyboard) (flags : BitVec 8) (timestamp : BitVec 64) (u : Nat) :
    edges usage (k.onKeyHeld u flags timestamp).2 = [] := by
  unfold onKeyHeld
  split
  · cases packetOf u (flags.setWidth 16 ||| flagKeyPressed) <;> rfl
  · rfl

/-- A key has an event of its own, when it changed. -/
theorem keyEvent_edges (k : Keyboard) (flags : BitVec 8) (timestamp : BitVec 64) (h : HasKeypoint usage) (u : Nat) :
    edges usage (k.keyEvent flags timestamp u).2 =
      if u = usage then edgeOf (k.previousKeys.test usage) (k.currentKeys.test usage) else [] := by
  unfold keyEvent
  dsimp only
  by_cases hu : u = usage
  · subst hu
    have hchanged : k.keyStateChanged u = (k.currentKeys.test u != k.previousKeys.test u) := by
      rw [keyStateChanged, decide_eq_true h.lt, Bool.true_and]
    rw [if_pos rfl, hchanged, edgeOf]
    by_cases hsame : k.currentKeys.test u = k.previousKeys.test u
    · rw [if_neg (by simp [hsame]), if_pos hsame]
      split
      · exact onKeyHeld_edges k flags timestamp u
      · rfl
    · rw [if_pos (by simpa using hsame), if_neg hsame]
      split
      · next hpressed => rw [onKeyPressed_edges k flags timestamp h, if_pos rfl, hpressed]
      · next hpressed => rw [onKeyReleased_edges k flags h, if_pos rfl, Bool.eq_false_of_not_eq_true hpressed]
  · rw [if_neg hu]
    split
    · split
      · rw [onKeyPressed_edges k flags timestamp h, if_neg hu]
      · rw [onKeyReleased_edges k flags h, if_neg hu]
    · split
      · exact onKeyHeld_edges k flags timestamp u
      · rfl

/-- Timestamps do not change which keys have changed. -/
theorem Timed.keys (h : Timed k k') : k'.previousKeys = k.previousKeys ∧ k'.currentKeys = k.currentKeys ∧
    k'.collections = k.collections := by
  obtain ⟨press, hold, rfl⟩ := h
  exact ⟨rfl, rfl, rfl⟩

theorem keyEvents_edges (flags : BitVec 8) (timestamp : BitVec 64) (h : HasKeypoint usage) :
    ∀ (usages : List Nat) (k : Keyboard), usages.Nodup → edges usage (k.keyEvents flags timestamp usages).2 =
      if usage ∈ usages then edgeOf (k.previousKeys.test usage) (k.currentKeys.test usage) else []
  | [], k, _ => rfl
  | u :: usages, k, hnodup => by
    obtain ⟨hu, hnodup⟩ := List.nodup_cons.mp hnodup
    obtain ⟨hprevious, hcurrent, -⟩ := (keyEvent_timed k flags timestamp u).keys
    have hrest := keyEvents_edges flags timestamp h usages (k.keyEvent flags timestamp u).1 hnodup
    rw [hprevious, hcurrent] at hrest
    rw [keyEvents]
    dsimp only
    rw [edges_append, keyEvent_edges k flags timestamp h u, hrest]
    by_cases hthis : u = usage
    · subst hthis
      rw [if_pos rfl, if_neg hu, if_pos List.mem_cons_self, List.append_nil]
    · rw [if_neg hthis, List.nil_append]
      simp [Ne.symm hthis]

theorem test_handleKeyUsage (h : usage < bitmapSize) (keys : Bitmap) (u : BitVec 32) (pressed : Bool) :
    (handleKeyUsage keys u pressed).test usage = (keys.test usage || (u.toNat == usage && pressed)) := by
  unfold handleKeyUsage
  split
  · next hset =>
    rw [Bitmap.test_set, hset.1, Bool.and_true, Bool.or_comm, Bool.beq_eq_decide_eq]
    simp only [eq_comm]
  · next hset =>
    have hnot : (u.toNat == usage && pressed) = false := by
      refine Bool.eq_false_iff.mpr fun hboth => hset ?_
      rw [Bool.and_eq_true, beq_iff_eq] at hboth
      exact ⟨hboth.2, by rw [hboth.1]; exact h⟩
    rw [hnot, Bool.or_false]

/-- The key of an element is added, when it is down. -/
theorem test_handle (h : usage < bitmapSize) (keys : Bitmap) (v : Visit) :
    (v.handle data keys).test usage = (keys.test usage || v.marks data usage) := by
  unfold Visit.handle Visit.marks
  split
  · exact test_handleKeyUsage h keys _ _
  · rw [test_handleKeyUsage h, BitVec.toNat_setWidth_of_le (by decide)]

theorem test_foldl_handle (h : usage < bitmapSize) : ∀ (visits : List Visit) (keys : Bitmap),
    (visits.foldl (Visit.handle data) keys).test usage = (keys.test usage || visits.any (Visit.marks data usage))
  | [], keys => by simp
  | v :: visits, keys => by
    rw [List.foldl_cons, test_foldl_handle h visits, test_handle h, List.any_cons, Bool.or_assoc]

theorem test_clear_eq {keys : Bitmap} (h : ∀ w, keys w = 0#64) : keys.test usage = false := by
  rw [Bitmap.test_eq, h, BitVec.getLsbD_zero]

theorem test_marksOf (hclear : ∀ w, k.currentKeys w = 0#64) (h : usage < bitmapSize) :
    (k.marksOf r.reportID r.data r.length).test usage = k.Marks r usage := by
  rw [marksOf, test_foldl_handle h, test_clear_eq hclear, Bool.false_or]
  rfl

/-- The state behind a report. -/
theorem receive_keys (k : Keyboard) (r : InputReport) :
    (k.receive r).1.previousKeys = k.marksOf r.reportID r.data r.length ∧
    (∀ w, (k.receive r).1.currentKeys w = 0#64) ∧ (k.receive r).1.collections = k.collections := by
  obtain ⟨hprevious, hcurrent, hcollections⟩ := (k.handleReport_timed r.reportID r.data r.length r.timestamp).keys
  exact ⟨hprevious, fun w => congrFun hcurrent w, hcollections⟩

/-- The edge of a key that an adequate report emits; another report emits none. -/
theorem handleReport_edges (hclear : ∀ w, k.currentKeys w = 0#64) (r : InputReport) (h : HasKeypoint usage) :
    edges usage (k.receive r).2 = if k.Adequate r then edgeOf (k.previousKeys.test usage) (k.Marks r usage) else [] := by
  unfold receive handleReport updateKeys
  dsimp only
  rw [← test_marksOf hclear h.lt, Adequate]
  split
  · rw [keyEvents_edges _ _ h _ _ List.nodup_range, if_pos (List.mem_range.mpr h.lt)]
    rfl
  · rfl

/-! ## Runs of reports -/

theorem receiveAll_append (k : Keyboard) : ∀ (reports : List InputReport) (r : InputReport),
    k.receiveAll (reports ++ [r]) = (((k.receiveAll reports).1.receive r).1,
      (k.receiveAll reports).2 ++ ((k.receiveAll reports).1.receive r).2)
  | [], r => by simp [receiveAll]
  | q :: reports, r => by
    have ih := receiveAll_append (k.receive q).1 reports r
    rw [List.cons_append, receiveAll, receiveAll]
    dsimp only
    rw [ih, List.append_assoc]

/-- A collection list decides which reports are adequate and what they mark. -/
theorem adequate_congr (h : k'.collections = k.collections) (r : InputReport) : k'.Adequate r = k.Adequate r := by
  rw [Adequate, h, Adequate]

theorem marks_congr (h : k'.collections = k.collections) (r : InputReport) : k'.Marks r usage = k.Marks r usage := by
  rw [Marks, h, Marks]

theorem latest_append (reportID : BitVec 8) (reports : List InputReport) (r : InputReport) :
    k.latest reportID (reports ++ [r]) =
      if r.reportID = reportID ∧ k.Adequate r then some r else k.latest reportID reports := by
  unfold latest
  rw [List.filter_append, List.filter_cons, List.filter_nil]
  by_cases hthis : r.reportID = reportID ∧ k.Adequate r
  · rw [if_pos hthis, if_pos (by simpa using hthis), List.getLast?_append, List.getLast?_singleton, Option.some_or]
  · rw [if_neg hthis, if_neg (by simpa using hthis), List.append_nil]

/-- The old bitmap is what the events say, and what the reports say. -/
structure Follows (k : Keyboard) (reports : List InputReport) : Prop where
  collections : (k.receiveAll reports).1.collections = k.collections
  clear : ∀ w, (k.receiveAll reports).1.currentKeys w = 0#64
  alternates : ∀ usage, HasKeypoint usage → Alternates false (edges usage (k.receiveAll reports).2)
  level : ∀ usage, HasKeypoint usage →
    levelAfter false (edges usage (k.receiveAll reports).2) = (k.receiveAll reports).1.previousKeys.test usage
  down : ∀ usage, HasKeypoint usage → ((k.receiveAll reports).1.previousKeys.test usage = true ↔ k.Down reports usage)

theorem Follows.start (hclear : k.Clear) : Follows k [] :=
  ⟨rfl, hclear.1, fun _ _ => trivial, fun usage _ => (test_clear_eq hclear.2).symm, fun usage _ => by
    rw [receiveAll, test_clear_eq hclear.2]
    exact ⟨fun h => (by cases h), fun ⟨_, r, hr, _⟩ => (by cases hr)⟩⟩

/-- An adequate report that agrees marks what is down after it. -/
theorem Agrees.down_adequate (hr : k.Agrees reports r) (hadequate : k.Adequate r) (h : HasKeypoint usage) :
    k.Marks r usage = true ↔ k.Down (reports ++ [r]) usage := by
  constructor
  · intro hmarks
    exact ⟨r.reportID, r, by rw [latest_append, if_pos ⟨rfl, hadequate⟩]; rfl, hmarks⟩
  · rintro ⟨reportID, q, hq, hmarks⟩
    rw [latest_append] at hq
    split at hq
    · cases hq
      exact hmarks
    · next hother =>
      exact hr.adequate hadequate reportID (fun he => hother ⟨he.symm, hadequate⟩) q hq usage h hmarks

/-- A report that is too short is not the latest one of any ID. -/
theorem down_short (hshort : k.Adequate r = false) : k.Down (reports ++ [r]) usage ↔ k.Down reports usage := by
  unfold Down
  refine exists_congr fun reportID => ?_
  rw [latest_append, if_neg (fun h => by rw [hshort] at h; exact absurd h.2 (by decide))]

theorem Follows.step (hk : Follows k reports) (hr : k.Agrees reports r) : Follows k (reports ++ [r]) := by
  obtain ⟨hprevious, hcurrent, hcollections⟩ := (k.receiveAll reports).1.receive_keys r
  have htest : ∀ usage, HasKeypoint usage →
      ((k.receiveAll reports).1.receive r).1.previousKeys.test usage = k.Marks r usage := by
    intro usage h
    rw [hprevious, test_marksOf hk.clear h.lt, marks_congr hk.collections]
  have hedges : ∀ usage, HasKeypoint usage → edges usage ((k.receiveAll reports).1.receive r).2 =
      if k.Adequate r then edgeOf ((k.receiveAll reports).1.previousKeys.test usage) (k.Marks r usage) else [] := by
    intro usage h
    rw [handleReport_edges hk.clear r h, adequate_congr hk.collections, marks_congr hk.collections]
  cases hadequate : k.Adequate r with
  | true =>
    have hspec := fun usage =>
      edgeOf_spec ((k.receiveAll reports).1.previousKeys.test usage) (k.Marks r usage)
    refine ⟨?_, ?_, fun usage h => ?_, fun usage h => ?_, fun usage h => ?_⟩ <;> rw [receiveAll_append]
    · exact hcollections.trans hk.collections
    · exact hcurrent
    · rw [edges_append, hedges usage h, if_pos hadequate]
      exact alternates_append (hk.alternates usage h) (by rw [hk.level usage h]; exact (hspec usage).1)
    · rw [edges_append, hedges usage h, if_pos hadequate, levelAfter_append, hk.level usage h, htest usage h]
      exact (hspec usage).2
    · rw [htest usage h]
      exact hr.down_adequate hadequate h
  | false =>
    have hnone : ∀ usage, HasKeypoint usage → edges usage ((k.receiveAll reports).2 ++
        ((k.receiveAll reports).1.receive r).2) = edges usage (k.receiveAll reports).2 := by
      intro usage h
      rw [edges_append, hedges usage h, if_neg (by rw [hadequate]; decide), List.append_nil]
    refine ⟨?_, ?_, fun usage h => ?_, fun usage h => ?_, fun usage h => ?_⟩ <;> rw [receiveAll_append]
    · exact hcollections.trans hk.collections
    · exact hcurrent
    · rw [hnone usage h]
      exact hk.alternates usage h
    · rw [hnone usage h, htest usage h, hr.short hadequate usage h]
      exact hk.level usage h
    · rw [htest usage h, hr.short hadequate usage h, hk.down usage h]
      exact (down_short hadequate).symm

theorem Agreeing.follows (hclear : k.Clear) (h : k.Agreeing reports) : Follows k reports := by
  induction h with
  | nil => exact .start hclear
  | snoc _ hr ih => exact ih.step hr

theorem Follows.settled (hk : Follows k reports) : k.Settled reports :=
  ⟨hk.alternates, fun _ _ _ usage h => by rw [hk.level usage h]; exact hk.down usage h⟩

/-- Reports of one ID that are long enough agree. -/
theorem agreeing_of_adequate (reportID : BitVec 8) (h : ∀ r ∈ reports, r.reportID = reportID ∧ k.Adequate r) :
    k.Agreeing reports := by
  induction reports using List.reverseRecOn with
  | nil => exact .nil
  | append_singleton reports r ih =>
    obtain ⟨hreports, hr⟩ := List.forall_mem_append.mp h
    obtain ⟨rfl, hadequate⟩ := List.forall_mem_singleton.mp hr
    refine .snoc (ih hreports) ⟨fun _ other hother q hq => ?_, fun hshort => ?_⟩
    · have hmem := List.mem_of_getLast? hq
      obtain ⟨hq, hid⟩ := List.mem_filter.mp hmem
      rw [Bool.and_eq_true, beq_iff_eq] at hid
      exact absurd (hid.1.symm.trans (hreports q hq).1) hother
    · rw [hshort] at hadequate
      cases hadequate

end

/-- Over a run of reports that agree, of a keyboard with any collections, the events of every key alternate and
are in step with the reports. -/
theorem settled_of_agreeing (k : Keyboard) (reports : List InputReport) (hclear : k.Clear) (h : k.Agreeing reports) :
    k.Settled reports :=
  (h.follows hclear).settled

/-- A keyboard that reports one key, in one byte. -/
def oneKey : Keyboard :=
  { create with collections := [⟨0, none, [⟨0#32, [⟨false, 1#32, 0#32, 0#32, 0#32, 0#32, 0#32, 8#32, 1#32⟩]⟩], []⟩] }

/-- A report of so many bytes, all of them `A`. -/
def keyA (length : Nat) : InputReport := ⟨0#8, fun _ => 0x04#8, length, 0#64⟩

/-- A report of one byte, without a key. -/
def noKey : InputReport := ⟨0#8, fun _ => 0#8, 1, 0#64⟩

/-- `A` is pressed, released and pressed again. -/
theorem settled_released : oneKey.Settled [keyA 1, keyA 1, noKey, keyA 1] ∧
    edges 4 (oneKey.receiveAll [keyA 1, keyA 1, noKey, keyA 1]).2 = [true, false, true] := by
  refine ⟨settled_of_agreeing _ _ ⟨fun _ => rfl, fun _ => rfl⟩ (agreeing_of_adequate 0#8 fun r hr => ?_),
    by decide +kernel⟩
  obtain rfl | rfl | rfl : r = keyA 1 ∨ r = noKey ∨ r = keyA 1 := by simpa using hr
  all_goals exact ⟨rfl, by decide⟩

/-- A report without bytes between two that hold `A`: it is pressed twice. -/
theorem pressed_twice : ¬ oneKey.Settled [keyA 1, keyA 0, keyA 1] := by
  rintro ⟨halternates, -⟩
  have hkey : HasKeypoint 4 := by
    unfold HasKeypoint
    decide +kernel
  have hedges : edges 4 (oneKey.receiveAll [keyA 1, keyA 0, keyA 1]).2 = [true, true] := by decide +kernel
  have htwice : ¬ Alternates false [true, true] := fun ⟨_, hsecond, _⟩ => hsecond rfl
  generalize (oneKey.receiveAll [keyA 1, keyA 0, keyA 1]).2 = events at halternates hedges
  exact htwice (hedges ▸ halternates 4 hkey)

end Keyboard

end BadLands.Hid
