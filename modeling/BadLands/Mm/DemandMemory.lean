import BadLands.Mm.OnDemand

/-!
# Memory on demand, as a program sees it

A program loads and stores words of the ranges that `MapOnDemand` has reserved. The processor translates the address and,
where there is no translation, calls the page fault handler and makes the access again.

To the program this is a plain memory (`Plain`): what it stores is what it loads, whatever frames and tables the kernel
takes in between. Before the first access to a page its words are not known, and only that access faults. The rights of
an access are not looked at: a program uses its pages in the mode they are reserved for.
-/
namespace BadLands.Mm.DemandMemory

open BadLands.Core BadLands.Core.PageTable BadLands.Mm.Layout BadLands.Mm.OnDemand
open BadLands.Mm.Paging hiding ensureTable
open BadLands.Interrupts.PageFault
open BadLands.Mm.AddressSpace (World Supply Undisturbed undisturbed_of_pages)

/-! ## The machine -/

/-- mirrors kernel/src/interrupts/core/PageFault.cpp:31-32 -/
def pfWrite : Entry := 0x00000002#64
def pfUserMode : Entry := 0x00000004#64

/-- What the processor pushes where an entry is not present. -/
def errorCode (write user : Bool) : Entry :=
  (if write then pfWrite else 0#64) ||| (if user then pfUserMode else 0#64)

/-- A call of `MapOnDemand`, or an access to the 64-bit word at `address`. -/
inductive Event where
  | reserve (address pages : Nat) (privilege : AccessPrivilege)
  | load (address : Nat) (user : Bool)
  | store (address : Nat) (value : Entry) (user : Bool)

/-- The kernel panics, or there is no way on: the handler faults, or the access does once more. -/
inductive Halt where
  | panic (reason : Panic)
  | fault
  deriving DecidableEq

/-- `faulted`: the access was made after a page fault. -/
inductive Answer where
  | reserved (ok : Bool)
  | value (v : Entry) (faulted : Bool)
  | stored (faulted : Bool)
  | halted (reason : Halt)
  deriving DecidableEq

section
variable (supply : Supply) (root maxPhyAddr : Nat)

/-- The physical address of an access, and whether it has faulted. -/
def resolve (w : World) (address : Nat) (errv : Entry) : Except Halt (Nat × Bool × World) :=
  match translation w.mem root address with
  | some physical => .ok (physical, false, w)
  | none =>
    match pageFaultHandler w.mem root maxPhyAddr address errv (supply w.taken) with
    | none => .error .fault
    | some (.panic reason) => .error (.panic reason)
    | some (.resumed m) =>
      match translation m root address with
      | none => .error .fault
      | some physical => .ok (physical, true, { w with mem := m, taken := (supply w.taken).toList ++ w.taken })

def step (w : World) : Event → Except Halt (Answer × World)
  | .reserve address pages privilege =>
    match mapOnDemand supply root maxPhyAddr privilege pages address w with
    | none => .error .fault
    | some (ok, w) => .ok (.reserved ok, w)
  | .load address user => (resolve supply root maxPhyAddr w address (errorCode false user)).map fun r =>
    (.value (r.2.2.mem r.1) r.2.1, r.2.2)
  | .store address value user => (resolve supply root maxPhyAddr w address (errorCode true user)).map fun r =>
    (.stored r.2.1, { r.2.2 with mem := update r.2.2.mem r.1 value })

/-- The answers, up to a halt, each with the frames that are taken by then. -/
def run (w : World) : List Event → List (Answer × List Entry)
  | [] => []
  | e :: events =>
    match step supply root maxPhyAddr w e with
    | .error reason => [(.halted reason, w.taken)]
    | .ok (answer, w) => (answer, w.taken) :: run w events

end

/-! ## The plain memory -/

/-- `promised`, `touched`: of the page with this number. `value`: what the program knows of the word at this address. -/
structure Plain where
  promised : Nat → Bool
  touched : Nat → Bool
  value : Nat → Option Entry

def Plain.empty : Plain := ⟨fun _ => false, fun _ => false, fun _ => none⟩

/-- A range is reserved. What was known of it is lost, and after a failure it is not promised. -/
def Plain.reserve (s : Plain) (address pages : Nat) (ok : Bool) : Plain where
  promised n := if InRange address pages n then ok else s.promised n
  touched n := if InRange address pages n then false else s.touched n
  value a := if InRange address pages (a / frameSize) then none else s.value a

def Plain.touch (s : Plain) (n : Nat) : Plain := { s with touched := fun k => if k = n then true else s.touched k }

def Plain.learn (s : Plain) (a : Nat) (v : Entry) : Plain :=
  { s with value := fun b => if b = a then some v else s.value b }

/-- What an access to the word at `a` leaves, which is `v` then. -/
def Plain.access (s : Plain) (a : Nat) (v : Entry) : Plain := (s.touch (a / frameSize)).learn a v

/-- The answers are those of a plain memory. A reservation is refused and the kernel panics only when `Allocate` returns
null with the frames that are taken then. Nothing is said of a program once it has left the pages it was promised. -/
def Plain.Accepts (supply : Supply) (s : Plain) : List Event → List (Answer × List Entry) → Prop
  | [], answers => answers = []
  | .reserve address pages _ :: events, answers => ∃ ok taken rest, answers = (.reserved ok, taken) :: rest ∧
    (ok = false → supply taken = none) ∧ (s.reserve address pages ok).Accepts supply events rest
  | .load a _ :: events, answers => s.promised (a / frameSize) = true →
    (∃ taken, answers = [(.halted (.panic .outOfMemory), taken)] ∧ s.touched (a / frameSize) = false ∧
      supply taken = none) ∨
    ∃ v taken rest, answers = (.value v (!s.touched (a / frameSize)), taken) :: rest ∧
      (∀ u, s.value a = some u → v = u) ∧ (s.access a v).Accepts supply events rest
  | .store a v _ :: events, answers => s.promised (a / frameSize) = true →
    (∃ taken, answers = [(.halted (.panic .outOfMemory), taken)] ∧ s.touched (a / frameSize) = false ∧
      supply taken = none) ∨
    ∃ taken rest, answers = (.stored (!s.touched (a / frameSize)), taken) :: rest ∧
      (s.access a v).Accepts supply events rest

/-- Ranges that can be reserved, and whole words. -/
def Event.Proper (m₀ : PhysMem) (root : Nat) : Event → Prop
  | .reserve address pages _ => Reservable m₀ root address pages
  | .load address _ => address % 8 = 0
  | .store address _ _ => address % 8 = 0

/-! ## The frames behind the pages -/

/-- The entry of a page without a frame, or with the frame `p`. -/
def Serves (e : Entry) : Option Entry → Prop
  | none => ∃ privilege, e = reservedEntry privilege
  | some p => e.present = true ∧ e.frame = p.toNat

/-- The page with the number `n` is as the program knows it. -/
structure Page (root : Nat) (w : World) (s : Plain) (frame : Option Entry) (n : Nat) : Prop where
  canonical : Canonical (n * frameSize)
  outside : Outside windows (n * frameSize)
  entry : ∃ t, Reach w.mem (n * frameSize) 3 root 0 t ∧ Serves (w.mem (slot t 0 (n * frameSize))) frame
  touched : s.touched n = frame.isSome
  taken : ∀ p, frame = some p → p ∈ w.taken ∧ Fresh w.mem root windows p.toNat
  value : ∀ a v, a / frameSize = n → s.value a = some v → ∃ p, frame = some p ∧ w.mem (p.toNat + a % frameSize) = v

/-- `frame n`: the frame of the page with the number `n`. No two pages have the same one. -/
structure Inv (m₀ : PhysMem) (root maxPhyAddr : Nat) (frame : Nat → Option Entry) (w : World) (s : Plain) : Prop where
  sound : Sound m₀ root maxPhyAddr w
  pages : ∀ n, s.promised n = true → Page root w s (frame n) n
  apart : ∀ n k p, s.promised n = true → s.promised k = true → frame n = some p → frame k = some p → n = k

section
variable {supply : Supply} {m₀ : PhysMem} {root maxPhyAddr a n : Nat} {w w' : World} {s s' : Plain}
  {frame : Nat → Option Entry} {f : Option Entry} {S : Nat → Prop}

theorem errorCode_present (write user : Bool) : errorCode write user &&& pfPresent ≠ 1#64 := by
  cases write <;> cases user <;> decide

theorem reservedEntry_demand (privilege : AccessPrivilege) : reservedEntry privilege &&& npOnDemand ≠ 0#64 := by
  cases privilege <;> decide

theorem reservedEntry_key (privilege : AccessPrivilege) : reservedEntry privilege &&& npPK = 0#64 := by
  cases privilege <;> decide

theorem onDemandEntry_serves {pte p : Entry} (hp : filterAddress maxPhyAddr p &&& entryAddress = p)
    (hkey : pte &&& npPK = 0#64) : Serves (onDemandEntry maxPhyAddr pte p) (some p) := by
  have h := (converted_iff hp).mpr hkey
  exact ⟨(present_iff _).symm.trans h.present, congrArg BitVec.toNat h.address⟩

/-- A page that no step has to do with. -/
theorem Page.kept (h : Page root w s f n) (hk : Spares root S w w') (hn : ¬ S n) (ht : s'.touched n = s.touched n)
    (hv : ∀ a, a / frameSize = n → s'.value a = s.value a) : Page root w' s' f n where
  canonical := h.canonical
  outside := h.outside
  entry := by
    obtain ⟨t, hr, hs⟩ := h.entry
    refine ⟨t, hk.reach _ t h.outside hr, ?_⟩
    rw [hk.entry _ t h.outside h.canonical (by rw [number_page]; exact hn) hr]
    exact hs
  touched := ht.trans h.touched
  taken p hp := ⟨hk.taken p (h.taken p hp).1, (hk.data p (h.taken p hp).1 (h.taken p hp).2).1⟩
  value a v ha hav := by
    rw [hv a ha] at hav
    obtain ⟨p, hp, hmem⟩ := h.value a v ha hav
    refine ⟨p, hp, ?_⟩
    exact ((hk.data p (h.taken p hp).1 (h.taken p hp).2).2 _ (Nat.mod_lt a (by decide))).trans hmem

/-- A page that is reserved and not known. -/
theorem Page.fresh (hr : Reserved w.mem root n) (hcan : Canonical (n * frameSize)) (hout : Outside windows (n * frameSize))
    (ht : s.touched n = false) (hv : ∀ a, a / frameSize = n → s.value a = none) : Page root w s none n where
  canonical := hcan
  outside := hout
  entry := by
    obtain ⟨t, privilege, hr, he⟩ := hr
    exact ⟨t, hr, privilege, he⟩
  touched := ht
  taken p hp := by cases hp
  value a v ha hav := by
    rw [hv a ha] at hav
    cases hav

theorem reservable_page {address pages : Nat} (h : Reservable m₀ root address pages) (hin : InRange address pages n) :
    Canonical (n * frameSize) ∧ Outside windows (n * frameSize) := by
  obtain ⟨hlow, hhigh⟩ := hin
  obtain ⟨hcan, hout, -⟩ := h (n - address / frameSize) (by omega)
  have hpage : n * frameSize / 4096 = (address + (n - address / frameSize) * frameSize) / 4096 := by
    rw [number_page]
    change n = (address + (n - address / 4096) * 4096) / 4096
    change address / 4096 ≤ n at hlow
    omega
  exact ⟨canonical_page hpage hcan, outside_page hpage hout⟩

/-! ## A range is reserved -/

theorem reserve_inv {address pages : Nat} {ok : Bool} (h : Inv m₀ root maxPhyAddr frame w s)
    (hrange : Reservable m₀ root address pages) (hs : Sound m₀ root maxPhyAddr w')
    (hk : Spares root (InRange address pages) w w')
    (hall : ok = true → ∀ n, InRange address pages n → Reserved w'.mem root n) :
    Inv m₀ root maxPhyAddr (fun n => if InRange address pages n then none else frame n) w'
      (s.reserve address pages ok) where
  sound := hs
  pages n hn := by
    by_cases hin : InRange address pages n
    · have hok : ok = true := by
        simpa only [Plain.reserve, if_pos hin] using hn
      obtain ⟨hcan, hout⟩ := reservable_page hrange hin
      rw [if_pos hin]
      exact .fresh (hall hok n hin) hcan hout (if_pos hin) fun a ha => if_pos (by rw [ha]; exact hin)
    · have hpromised : s.promised n = true := by
        simpa only [Plain.reserve, if_neg hin] using hn
      rw [if_neg hin]
      exact (h.pages n hpromised).kept hk hin (if_neg hin) fun a ha => if_neg (by rw [ha]; exact hin)
  apart n k p hn hk hfn hfk := by
    by_cases hin : InRange address pages n
    · simp only [if_pos hin] at hfn
      cases hfn
    · by_cases hik : InRange address pages k
      · simp only [if_pos hik] at hfk
        cases hfk
      · simp only [Plain.reserve, if_neg hin, if_neg hik] at hn hk hfn hfk
        exact h.apart n k p hn hk hfn hfk

/-! ## An access -/

/-- The address of a page with a frame. -/
theorem Page.backed {p : Entry} (h : Page root w s (some p) n) (ha : a / frameSize = n) :
    translation w.mem root a = some (p.toNat + a % frameSize) := by
  obtain ⟨t, hr, hpresent, hframe⟩ := h.entry
  have hpage : n * frameSize / 4096 = a / 4096 := (number_page n).trans ha.symm
  have hr' := reach_page hpage (Nat.le_refl 3) hr
  rw [slot_page hpage] at hpresent hframe
  unfold translation
  rw [if_pos (canonical_page hpage.symm h.canonical), hr'.walk, walk, if_pos hpresent, hframe]
  rfl

/-- The handler without a frame. -/
theorem pageFaultHandler_exhausted {t : Nat} {errv : Entry} (hw : Window w.mem root root true)
    (ht : Reach w.mem a 3 root 0 t) (hdemand : w.mem (slot t 0 a) &&& npOnDemand ≠ 0#64)
    (herrv : errv &&& pfPresent ≠ 1#64) :
    pageFaultHandler w.mem root maxPhyAddr a errv none = some (.panic .outOfMemory) := by
  have hentry : w.mem (slot t 0 a) ≠ 0#64 := by
    intro hz
    rw [hz] at hdemand
    exact hdemand BitVec.zero_and
  obtain ⟨t1, h1, hl1, -⟩ := ht.linked (by decide)
  have hs1 : (getPDEInfo (w.mem (slot t1 1 a))).pageSize = false := (linked_info hl1).2
  unfold pageFaultHandler
  simp only [if_neg herrv, Option.bind_eq_bind, checkUnmappedAccess_reserved hw ht hentry,
    readVirtual_of (pdePointer hw h1), readVirtual_of (ptePointer hw ht), Option.bind_some, hs1, Bool.not_true,
    Bool.false_eq_true, if_false, if_neg hdemand]
  rfl

theorem sound_take (h : Sound m₀ root maxPhyAddr w) (p : Entry) :
    Sound m₀ root maxPhyAddr { w with taken := p :: w.taken } :=
  ⟨h.tables, h.noLarge, fun q hq hnot => h.unused q hq fun hmem => hnot (.tail _ hmem)⟩

theorem spares_take (h : Spares root S w w') (p : Entry) : Spares root S w { w' with taken := p :: w'.taken } :=
  { h with taken := fun q hq => .tail _ (h.taken q hq) }

/-- The page of `a`, which has no frame yet, is served with the frame `p`. -/
theorem serve_inv {t : Nat} {p : Entry} (hf : Frames supply m₀ root maxPhyAddr) (h : Inv m₀ root maxPhyAddr frame w s)
    (hpromised : s.promised (a / frameSize) = true) (hnone : frame (a / frameSize) = none)
    (hp : supply w.taken = some p) (hr : Reach w.mem a 3 root 0 t) (hkey : w.mem (slot t 0 a) &&& npPK = 0#64) :
    Inv m₀ root maxPhyAddr (fun k => if k = a / frameSize then some p else frame k)
      { w with mem := update w.mem (slot t 0 a) (onDemandEntry maxPhyAddr (w.mem (slot t 0 a)) p),
               taken := p :: w.taken } (s.touch (a / frameSize)) := by
  have hpage := h.pages _ hpromised
  have hbase : a / frameSize * frameSize / 4096 = a / 4096 := base_page a
  obtain ⟨hsound, hspares⟩ := leaf_step (e := onDemandEntry maxPhyAddr (w.mem (slot t 0 a)) p) h.sound
    (outside_page hbase.symm hpage.outside) (canonical_page hbase.symm hpage.canonical) hr
  have hgood := hf.good _ p hp
  have hnot := hf.once _ p hp
  refine ⟨sound_take hsound p, fun n hn => ?_, fun n k q hn hk hfn hfk => ?_⟩
  · by_cases he : n = a / frameSize
    · subst he
      rw [if_pos rfl]
      refine ⟨hpage.canonical, hpage.outside, ⟨t, reach_page hbase.symm (Nat.le_refl 3) ?_, ?_⟩, if_pos rfl, ?_, ?_⟩
      · exact hspares.reach a t (outside_page hbase.symm hpage.outside) hr
      · dsimp only
        rw [slot_page hbase, update, if_pos rfl]
        exact onDemandEntry_serves hgood.1 hkey
      · rintro q hq
        cases hq
        exact ⟨.head _, hsound.unused p hgood hnot⟩
      · intro b v hb hv
        obtain ⟨q, hq, -⟩ := hpage.value b v hb hv
        rw [hnone] at hq
        cases hq
    · rw [if_neg he]
      exact (h.pages n hn).kept (spares_take hspares p) he (if_neg he) fun _ _ => rfl
  · -- the frame is new, so no other page has it
    have hold : ∀ k, s.promised k = true → frame k ≠ some p := fun k hk hfk => hnot ((h.pages k hk).taken p hfk).1
    split at hfn <;> split at hfk
    · rename_i h1 h2
      rw [h1, h2]
    · cases hfn
      exact absurd hfk (hold k hk)
    · cases hfk
      exact absurd hfn (hold n hn)
    · exact h.apart n k q hn hk hfn hfk

/-- The address of an access to a promised page: it faults exactly if it is the first one. -/
theorem resolve_spec (errv : Entry) (herrv : errv &&& pfPresent ≠ 1#64) (hf : Frames supply m₀ root maxPhyAddr)
    (h : Inv m₀ root maxPhyAddr frame w s) (hpromised : s.promised (a / frameSize) = true) :
    (resolve supply root maxPhyAddr w a errv = .error (.panic .outOfMemory) ∧ s.touched (a / frameSize) = false ∧
      supply w.taken = none) ∨
    ∃ frame' p w', resolve supply root maxPhyAddr w a errv =
        .ok (p.toNat + a % frameSize, !s.touched (a / frameSize), w') ∧
      Inv m₀ root maxPhyAddr frame' w' (s.touch (a / frameSize)) ∧ frame' (a / frameSize) = some p := by
  have hpage := h.pages _ hpromised
  have htouched := hpage.touched
  cases hframe : frame (a / frameSize) with
  | some p =>
    rw [hframe] at hpage htouched
    have hsame : s.touch (a / frameSize) = s := by
      have hall : (fun k => if k = a / frameSize then true else s.touched k) = s.touched := by
        funext k
        split
        · rename_i hk
          rw [hk, htouched]
          rfl
        · rfl
      unfold Plain.touch
      rw [hall]
    refine .inr ⟨frame, p, w, ?_, hsame.symm ▸ h, hframe⟩
    unfold resolve
    simp only [hpage.backed rfl, htouched]
    rfl
  | none =>
    rw [hframe] at hpage htouched
    obtain ⟨t, hr, privilege, hentry⟩ := hpage.entry
    have hbase : a / frameSize * frameSize / 4096 = a / 4096 := base_page a
    have hr' := reach_page hbase (Nat.le_refl 3) hr
    have habsent : translation w.mem root a = none := reserved_absent ⟨t, privilege, hr, hentry⟩ rfl
    rw [slot_page hbase] at hentry
    have hdemand : w.mem (slot t 0 a) &&& npOnDemand ≠ 0#64 := by
      rw [hentry]
      exact reservedEntry_demand privilege
    cases hp : supply w.taken with
    | none =>
      refine .inl ⟨?_, htouched, rfl⟩
      unfold resolve
      simp only [habsent, hp, pageFaultHandler_exhausted h.sound.tables.window hr' hdemand herrv]
    | some p =>
      have hinv := serve_inv hf h hpromised hframe hp hr' (by rw [hentry]; exact reservedEntry_key privilege)
      have hbacked := hinv.pages _ hpromised
      rw [if_pos rfl] at hbacked
      have htranslate := hbacked.backed rfl
      refine .inr ⟨_, p, _, ?_, hinv, if_pos rfl⟩
      unfold resolve
      simp only [habsent, hp, pageFaultHandler_run h.sound.tables.window hr' hdemand herrv p, htranslate, htouched]
      rfl

/-! ## Loads and stores -/

/-- What a load finds is known from then on. -/
theorem load_inv {p : Entry} (h : Inv m₀ root maxPhyAddr frame w s) (hp : frame (a / frameSize) = some p) :
    Inv m₀ root maxPhyAddr frame w (s.learn a (w.mem (p.toNat + a % frameSize))) where
  sound := h.sound
  pages n hn := by
    have hpage := h.pages n hn
    refine ⟨hpage.canonical, hpage.outside, hpage.entry, hpage.touched, hpage.taken, fun b v hb hv => ?_⟩
    unfold Plain.learn at hv
    dsimp only at hv
    split at hv
    · rename_i he
      subst he
      exact ⟨p, hb ▸ hp, Option.some.inj hv⟩
    · exact hpage.value b v hb hv
  apart := h.apart

/-- A store changes the word in the frame of its page and no table. -/
theorem store_inv {p v : Entry} (h : Inv m₀ root maxPhyAddr frame w s) (hpromised : s.promised (a / frameSize) = true)
    (hp : frame (a / frameSize) = some p) :
    Inv m₀ root maxPhyAddr frame { w with mem := update w.mem (p.toNat + a % frameSize) v } (s.learn a v) := by
  obtain ⟨-, hfresh⟩ := (h.pages _ hpromised).taken p hp
  have hoff : a % frameSize < 4096 := Nat.mod_lt a (by decide)
  have hun : Undisturbed w.mem (update w.mem (p.toNat + a % frameSize) v) root := by
    refine undisturbed_of_pages (F := (· = p.toNat)) h.sound.tables (fun f hf => hf ▸ hfresh) fun q _ hq => if_neg ?_
    have hout := hq _ rfl
    omega
  refine ⟨⟨hun.tables h.sound.tables, fun b hb hl => hun.noLarge hb (h.sound.noLarge b hb hl),
    fun q hq hnot => hun.fresh (h.sound.unused q hq hnot)⟩, fun n hn => ?_, h.apart⟩
  have hpage := h.pages n hn
  refine ⟨hpage.canonical, hpage.outside, ?_, hpage.touched,
    fun q hq => ⟨(hpage.taken q hq).1, hun.fresh (hpage.taken q hq).2⟩, fun b u hb hu => ?_⟩
  · obtain ⟨t, hr, hs⟩ := hpage.entry
    refine ⟨t, (hun.reach_iff hpage.outside).mpr hr, ?_⟩
    dsimp only
    rw [hun.entry _ 0 t hpage.outside hr]
    exact hs
  · unfold Plain.learn at hu
    dsimp only at hu
    split at hu
    · rename_i he
      subst he
      exact ⟨p, hb ▸ hp, (if_pos rfl).trans (Option.some.inj hu)⟩
    · rename_i hne
      obtain ⟨q, hq, hmem⟩ := hpage.value b u hb hu
      refine ⟨q, hq, (if_neg fun he => hne ?_).trans hmem⟩
      -- the words are in one frame, so the pages are one
      have hpa := hfresh.aligned
      have hqa := (hpage.taken q hq).2.aligned
      have hboff : b % frameSize < 4096 := Nat.mod_lt b (by decide)
      have hsame : q = p := BitVec.eq_of_toNat_eq (by omega)
      subst hsame
      have hnumber := h.apart n _ q hn hpromised hq hp
      change b % 4096 < 4096 at hboff
      change q.toNat + b % 4096 = q.toNat + a % 4096 at he
      change b / 4096 = n at hb
      change n = a / 4096 at hnumber
      omega

/-! ## The run -/

theorem inv_start (h : Tables m₀ root) : Inv m₀ root maxPhyAddr (fun _ => none) ⟨m₀, [], []⟩ Plain.empty where
  sound := sound_start h
  pages n hn := by cases hn
  apart n k p hn := by cases hn

theorem run_accepts (hf : Frames supply m₀ root maxPhyAddr) :
    ∀ (events : List Event) (frame : Nat → Option Entry) (w : World) (s : Plain), Inv m₀ root maxPhyAddr frame w s →
      (∀ e, e ∈ events → e.Proper m₀ root) →
      s.Accepts supply events (run supply root maxPhyAddr w events)
  | [], _, _, _, _, _ => rfl
  | .reserve address pages privilege :: events, frame, w, s, h, hproper => by
    have hrange : Reservable m₀ root address pages := hproper _ (.head _)
    obtain ⟨ok, w', hrun, hs, hk, hall, hno⟩ := mapOnDemand_spec privilege hf pages address w h.sound hrange
    have hnext := run_accepts hf events _ w' _ (reserve_inv h hrange hs hk hall) fun e he => hproper e (.tail _ he)
    refine ⟨ok, w'.taken, _, ?_, hno, hnext⟩
    simp only [run, step, hrun]
  | .load a user :: events, frame, w, s, h, hproper => fun hpromised => by
    obtain ⟨hpanic, htouched, hno⟩ | ⟨frame', p, w', hresolve, hinv, hp⟩ :=
      resolve_spec _ (errorCode_present false user) hf h hpromised
    · refine .inl ⟨w.taken, ?_, htouched, hno⟩
      simp only [run, step, hpanic, Except.map]
    · refine .inr ⟨w'.mem (p.toNat + a % frameSize), w'.taken, _, ?_, fun u hu => ?_,
        run_accepts hf events frame' w' _ (load_inv hinv hp) fun e he => hproper e (.tail _ he)⟩
      · simp only [run, step, hresolve, Except.map]
      · obtain ⟨q, hq, hmem⟩ := (hinv.pages _ hpromised).value a u rfl hu
        rw [hp] at hq
        cases hq
        exact hmem
  | .store a v user :: events, frame, w, s, h, hproper => fun hpromised => by
    obtain ⟨hpanic, htouched, hno⟩ | ⟨frame', p, w', hresolve, hinv, hp⟩ :=
      resolve_spec _ (errorCode_present true user) hf h hpromised
    · refine .inl ⟨w.taken, ?_, htouched, hno⟩
      simp only [run, step, hpanic, Except.map]
    · refine .inr ⟨w'.taken, _, ?_,
        run_accepts hf events frame' _ _ (store_inv hinv hpromised hp) fun e he => hproper e (.tail _ he)⟩
      simp only [run, step, hresolve, Except.map]

end

end BadLands.Mm.DemandMemory
