import BadLands.Fs.NpfsData

/-!
# NPFS data nodes when the heap runs out

`GetBlock` of a data node, with a heap that may refuse any allocation: `heap t` is its answer to the
`t`-th one. `none` is a division by zero: the divisor of a junction is a power of 64, and that of a
junction of depth 12 is `0`.

An id that does not fit and an allocation that is refused look the same to `DataNode::GetBlock`: on
either it puts a new root over the tree and tries again. So a call that returns null has left the
tree alone only if the first new root was refused as well, and calls that were short of memory can
deepen the tree until the next one divides by zero (`getBlocks_keep_iff`).
-/
namespace BadLands.Fs.Npfs.Alloc

open BadLands.Core

/-- `DataJunction::GetBlock` of a junction of depth `d + 1`.
mirrors kernel/src/fs/NPFS.cpp:118-167 -/
def getBlock (heap : Nat → Bool) (use : Block → Block) :
    (d : Nat) → Junction d → Nat → Nat → Option (Status × Junction d × Nat)
  | 0, junction, blockId, t =>
    if blockId ≥ junctionSize then some (.outOfBounds, junction, t)
    else match junction blockId with
      | some block => some (.success, setSlot junction blockId (use block), t)
      | none =>
        if !heap t then some (.deviceError, junction, t + 1)
        else some (.success, setSlot junction blockId (use zeros), t + 1)
  | d + 1, junction, blockId, t =>
    if reductor (d + 2) = 0 then none
    else if blockId / reductor (d + 2) ≥ junctionSize then some (.outOfBounds, junction, t)
    else match junction (blockId / reductor (d + 2)) with
      | some sub => do
        let (status, sub, t) ← getBlock heap use d sub (blockId % reductor (d + 2)) t
        return (status, setSlot junction (blockId / reductor (d + 2)) sub, t)
      | none =>
        if !heap t then some (.deviceError, junction, t + 1)
        else do
          let (status, sub, t) ← getBlock heap use d (emptyJunction d) (blockId % reductor (d + 2)) (t + 1)
          return (status, setSlot junction (blockId / reductor (d + 2)) sub, t)

/-- The `while` of `DataNode::GetBlock` with `attempts` left; the flag is "not null".
mirrors kernel/src/fs/NPFS.cpp:209-230 -/
def tryBlock (heap : Nat → Bool) (use : Block → Block) (blockId : Nat) :
    Nat → DataNode → Nat → Option (Bool × DataNode × Nat)
  | 0, n, t => some (false, n, t)
  | attempts + 1, n, t => do
    let (status, data, t) ← getBlock heap use n.level n.data blockId t
    let n : DataNode := ⟨n.level, data⟩
    if status = .success then return (true, n, t)
    if attempts = 0 then return (false, n, t)
    if !heap t then return (false, n, t + 1)
    tryBlock heap use blockId attempts n.grow (t + 1)

/-- mirrors kernel/src/fs/NPFS.cpp:209-230 -/
def DataNode.getBlock (heap : Nat → Bool) (n : DataNode) (blockId : Nat) (use : Block → Block) (t : Nat) :
    Option (Bool × DataNode × Nat) := tryBlock heap use blockId 5 n t

/-! ## One attempt -/

/-- How many nodes the path to a block lacks. -/
def missing : (d : Nat) → Junction d → Nat → Nat
  | 0, junction, id => match junction id with
    | some _ => 0
    | none => 1
  | d + 1, junction, id => match junction (id / 64 ^ (d + 1)) with
    | some sub => missing d sub (id % 64 ^ (d + 1))
    | none => d + 2

section
variable {heap : Nat → Bool} {use : Block → Block} {d id t : Nat}

theorem missing_succ (j : Junction (d + 1)) (id : Nat) : missing (d + 1) j id =
    match j (id / 64 ^ (d + 1)) with
    | some sub => missing d sub (id % 64 ^ (d + 1))
    | none => d + 2 := by
  rw [missing]

theorem missing_empty (id : Nat) : ∀ d, missing d (emptyJunction d) id = d + 1
  | 0 => rfl
  | _ + 1 => rfl

theorem reductor_zero (d : Nat) : reductor (d + 12) = 0 := by
  induction d with
  | zero => decide
  | succ d ih =>
    rw [show d + 1 + 12 = (d + 11) + 2 by omega, reductor, show d + 11 + 1 = d + 12 by omega, ih]
    decide

/-- The junction is too deep. -/
theorem getBlock_divides (hd : 11 ≤ d) (j : Junction d) : getBlock heap use d j id t = none := by
  obtain ⟨d, rfl⟩ : ∃ e, d = e + 10 + 1 := ⟨d - 11, by omega⟩
  rw [getBlock, if_pos (reductor_zero d)]

theorem getBlock_outOfBounds (hd : d ≤ 10) (j : Junction d) (h : 64 ^ (d + 1) ≤ id) :
    getBlock heap use d j id t = some (.outOfBounds, j, t) := by
  cases d with
  | zero =>
    rw [getBlock, if_pos]
    exact h
  | succ d =>
    have hpos : 0 < 64 ^ (d + 1) := Nat.pow_pos (by decide)
    rw [getBlock, reductor_eq (by omega), if_neg (by omega), if_pos (beyond_junction h)]

/-- An attempt that is granted what it asks for. -/
theorem getBlock_granted (hd : d ≤ 10) (j : Junction d) (hid : id < 64 ^ (d + 1))
    (hgranted : ∀ i, i < missing d j id → heap (t + i) = true) :
    getBlock heap use d j id t = some (.success, (Npfs.getBlock use d j id).2, t + missing d j id) := by
  induction d generalizing id t with
  | zero =>
    have hin : ¬ id ≥ junctionSize := by
      unfold junctionSize
      omega
    rw [getBlock, if_neg hin, Npfs.getBlock, if_neg hin]
    unfold missing at hgranted ⊢
    cases hj : j id with
    | some block => rfl
    | none =>
      rw [hj] at hgranted
      have hheap : heap t = true := hgranted 0 (Nat.lt_succ_self 0)
      simp only [hheap, Bool.not_true, Bool.false_eq_true, if_false]
      rfl
  | succ d ih =>
    have hr := reductor_eq (d := d + 1) (by omega)
    have hpos : 0 < 64 ^ (d + 1) := Nat.pow_pos (by decide)
    have hin := in_junction hid
    have hmod : id % 64 ^ (d + 1) < 64 ^ (d + 1) := Nat.mod_lt _ hpos
    rw [getBlock, Npfs.getBlock, hr, if_neg (by omega), if_neg hin, if_neg hin]
    unfold missing at hgranted ⊢
    cases hj : j (id / 64 ^ (d + 1)) with
    | some sub =>
      rw [hj] at hgranted
      simp only [ih (by omega) sub hmod hgranted]
      rfl
    | none =>
      rw [hj] at hgranted
      have hheap : heap t = true := hgranted 0 (Nat.succ_pos _)
      have hrest := ih (t := t + 1) (by omega) (emptyJunction d) hmod fun i hi => by
        rw [missing_empty] at hi
        have hnext := hgranted (i + 1) (Nat.succ_lt_succ hi)
        rwa [show t + (i + 1) = t + 1 + i by omega] at hnext
      rw [missing_empty] at hrest
      simp only [hheap, Bool.not_true, Bool.false_eq_true, if_false, hrest]
      exact congrArg (fun x => some (_, _, x)) (show t + 1 + (d + 1) = t + (d + 2) by omega)

/-- Replacing a child by one with the same blocks. -/
theorem getWeakBlock_setSlot (hd : d + 1 ≤ 10) (j : Junction (d + 1)) (q : Nat) (sub : Junction d)
    (hsame : ∀ k, getWeakBlock d sub k = (j q).bind fun s => getWeakBlock d s k) (k : Nat) :
    getWeakBlock (d + 1) (setSlot j q sub) k = getWeakBlock (d + 1) j k := by
  rw [getWeakBlock, getWeakBlock, reductor_eq hd]
  by_cases hq : k / 64 ^ (d + 1) = q
  · rw [hq, setSlot_same, Option.bind_some, hsame]
  · rw [setSlot_other _ _ hq]

/-- An attempt that is refused an allocation: what it was granted before stays. -/
theorem getBlock_refused {p : Nat} (hd : d ≤ 10) (j : Junction d) (hid : id < 64 ^ (d + 1)) (hp : p < missing d j id)
    (hgranted : ∀ i, i < p → heap (t + i) = true) (hrefused : heap (t + p) = false) :
    ∃ j', getBlock heap use d j id t = some (.deviceError, j', t + p + 1) ∧
      missing d j' id = missing d j id - p ∧ ∀ k, getWeakBlock d j' k = getWeakBlock d j k := by
  induction d generalizing id t p with
  | zero =>
    have hin : ¬ id ≥ junctionSize := by
      unfold junctionSize
      omega
    cases hj : j id with
    | some block =>
      unfold missing at hp
      rw [hj] at hp
      exact absurd hp (Nat.not_lt_zero p)
    | none =>
      obtain rfl : p = 0 := by
        unfold missing at hp
        rw [hj] at hp
        exact Nat.lt_one_iff.mp hp
      refine ⟨j, ?_, rfl, fun _ => rfl⟩
      rw [getBlock, if_neg hin, hj]
      simp only [show heap t = false from hrefused, Bool.not_false, if_true]
  | succ d ih =>
    have hr := reductor_eq (d := d + 1) (by omega)
    have hpos : 0 < 64 ^ (d + 1) := Nat.pow_pos (by decide)
    have hin := in_junction hid
    have hmod : id % 64 ^ (d + 1) < 64 ^ (d + 1) := Nat.mod_lt _ hpos
    rw [getBlock, hr, if_neg (by omega), if_neg hin]
    unfold missing at hp ⊢
    cases hj : j (id / 64 ^ (d + 1)) with
    | some sub =>
      rw [hj] at hp
      obtain ⟨sub', hsub, hmissing, hweak⟩ := ih (by omega) sub hmod hp hgranted hrefused
      refine ⟨setSlot j (id / 64 ^ (d + 1)) sub', ?_, ?_, getWeakBlock_setSlot hd j _ sub' fun k => ?_⟩
      · simp only [hsub]
        rfl
      · rw [setSlot_same]
        exact hmissing
      · rw [hweak, hj]
        rfl
    | none =>
      rw [hj] at hp
      cases p with
      | zero =>
        refine ⟨j, ?_, by rw [hj]; rfl, fun _ => rfl⟩
        simp only [show heap t = false from hrefused, Bool.not_false, if_true]
      | succ p =>
        have hlt : p < d + 1 := Nat.lt_of_succ_lt_succ hp
        have hheap : heap t = true := hgranted 0 (Nat.succ_pos p)
        obtain ⟨sub', hsub, hmissing, hweak⟩ := ih (t := t + 1) (p := p) (by omega) (emptyJunction d) hmod
          (by rw [missing_empty]; exact hlt)
          (fun i hi => by
            have hnext := hgranted (i + 1) (Nat.succ_lt_succ hi)
            rwa [show t + (i + 1) = t + 1 + i by omega] at hnext)
          (by rwa [show t + (p + 1) = t + 1 + p by omega] at hrefused)
        refine ⟨setSlot j (id / 64 ^ (d + 1)) sub', ?_, ?_, getWeakBlock_setSlot hd j _ sub' fun k => ?_⟩
        · simp only [hheap, Bool.not_true, Bool.false_eq_true, if_false, hsub]
          exact congrArg (fun x => some (_, _, x)) (show t + 1 + p + 1 = t + (p + 1) + 1 by omega)
        · rw [setSlot_same]
          rw [missing_empty] at hmissing
          show missing d sub' _ = d + 2 - (p + 1)
          omega
        · rw [hweak, hj, getWeakBlock_empty]
          rfl

/-- The heap grants all of the next `n` allocations, or refuses one of them first. -/
theorem granted_or_refused (heap : Nat → Bool) (t n : Nat) : (∀ i, i < n → heap (t + i) = true) ∨
    ∃ p, p < n ∧ (∀ i, i < p → heap (t + i) = true) ∧ heap (t + p) = false := by
  induction n with
  | zero => exact .inl fun i hi => absurd hi (Nat.not_lt_zero i)
  | succ n ih =>
    rcases ih with hall | ⟨p, hp, hgranted, hrefused⟩
    · cases hlast : heap (t + n) with
      | false => exact .inr ⟨n, Nat.lt_succ_self n, hall, hlast⟩
      | true =>
        refine .inl fun i hi => ?_
        rcases Nat.lt_succ_iff_lt_or_eq.mp hi with hlt | rfl
        · exact hall i hlt
        · exact hlast
    · exact .inr ⟨p, Nat.lt_succ_of_lt hp, hgranted, hrefused⟩

end

/-! ## The heap's answers -/

/-- An attempt under a root of depth `level + 1`, with `need` nodes of the path missing, that comes to
an error: how many nodes are missing under a new root, and the allocations so far. -/
inductive Lacks (heap : Nat → Bool) (id level need t : Nat) : (need' t' : Nat) → Prop
  | beyond : 64 ^ (level + 1) ≤ id → Lacks heap id level need t (level + 2) t
  | refused {p : Nat} : id < 64 ^ (level + 1) → p < need → (∀ i, i < p → heap (t + i) = true) →
      heap (t + p) = false → Lacks heap id level need t (need - p) (t + p + 1)

/-- The heap lets a call come to its block: it grants the nodes, or at least a new root, in one of the
attempts that are left. -/
inductive Served (heap : Nat → Bool) (id : Nat) : (attempts level need t : Nat) → Prop
  | fits {attempts level need t : Nat} : level ≤ 10 → id < 64 ^ (level + 1) →
      (∀ i, i < need → heap (t + i) = true) → Served heap id (attempts + 1) level need t
  | again {attempts level need t need' t' : Nat} : level ≤ 10 → Lacks heap id level need t need' t' →
      heap t' = true → Served heap id attempts (level + 1) need' (t' + 1) → Served heap id (attempts + 1) level need t

/-- The heap refuses a new root, or the last attempt comes to an error. -/
inductive Denied (heap : Nat → Bool) (id : Nat) : (attempts level need t : Nat) → Prop
  | root {attempts level need t need' t' : Nat} : level ≤ 10 → Lacks heap id level need t need' t' →
      attempts = 0 ∨ heap t' = false → Denied heap id (attempts + 1) level need t
  | again {attempts level need t need' t' : Nat} : level ≤ 10 → Lacks heap id level need t need' t' →
      attempts ≠ 0 → heap t' = true → Denied heap id attempts (level + 1) need' (t' + 1) →
      Denied heap id (attempts + 1) level need t

/-- The first attempt comes to an error, and the heap refuses the new root. -/
def Refused (heap : Nat → Bool) (n : DataNode) (id t : Nat) : Prop :=
  n.level ≤ 10 ∧ ∃ need t', Lacks heap id n.level (missing n.level n.data id) t need t' ∧ heap t' = false

section
variable {heap : Nat → Bool} {id t level need : Nat}

theorem Lacks.unique {n₁ t₁ n₂ t₂ : Nat} (h₁ : Lacks heap id level need t n₁ t₁) (h₂ : Lacks heap id level need t n₂ t₂) :
    n₁ = n₂ ∧ t₁ = t₂ := by
  cases h₁ with
  | beyond hout =>
    cases h₂ with
    | beyond _ => exact ⟨rfl, rfl⟩
    | refused hin => omega
  | @refused p hin hp hgranted hrefused =>
    cases h₂ with
    | beyond hout => omega
    | @refused q _ hq hgranted' hrefused' =>
      rcases Nat.lt_trichotomy p q with hlt | rfl | hgt
      · rw [hgranted' p hlt] at hrefused
        cases hrefused
      · exact ⟨rfl, rfl⟩
      · rw [hgranted q hgt] at hrefused'
        cases hrefused'

/-- An attempt that is granted all of its nodes lacks none. -/
theorem Lacks.not_granted {n' t' : Nat} (h : Lacks heap id level need t n' t') (hid : id < 64 ^ (level + 1))
    (hall : ∀ i, i < need → heap (t + i) = true) : False := by
  cases h with
  | beyond hout => omega
  | @refused p _ hp _ hrefused =>
    rw [hall p hp] at hrefused
    cases hrefused

theorem served_again_iff {attempts n' t' : Nat} (hl : level ≤ 10) (h : Lacks heap id level need t n' t') :
    Served heap id (attempts + 1) level need t ↔ heap t' = true ∧ Served heap id attempts (level + 1) n' (t' + 1) := by
  constructor
  · intro hs
    cases hs with
    | fits _ hin hall => exact (h.not_granted hin hall).elim
    | again _ h' hroot hrest =>
      obtain ⟨rfl, rfl⟩ := h.unique h'
      exact ⟨hroot, hrest⟩
  · exact fun hs => .again hl h hs.1 hs.2

theorem denied_again_iff {attempts n' t' : Nat} (hl : level ≤ 10) (h : Lacks heap id level need t n' t') :
    Denied heap id (attempts + 1) level need t ↔ (attempts = 0 ∨ heap t' = false) ∨
      attempts ≠ 0 ∧ heap t' = true ∧ Denied heap id attempts (level + 1) n' (t' + 1) := by
  constructor
  · intro hd
    cases hd with
    | root _ h' hroot =>
      obtain ⟨rfl, rfl⟩ := h.unique h'
      exact .inl hroot
    | again _ h' hattempts hroot hrest =>
      obtain ⟨rfl, rfl⟩ := h.unique h'
      exact .inr ⟨hattempts, hroot, hrest⟩
  · rintro (hroot | ⟨hattempts, hroot, hrest⟩)
    · exact .root hl h hroot
    · exact .again hl h hattempts hroot hrest

end

/-! ## The attempts -/

section
variable {heap : Nat → Bool} {use : Block → Block} {id t : Nat} {n n' : DataNode}

theorem grow_missing (hid : id < 64 ^ (n.level + 1)) :
    missing n.grow.level n.grow.data id = missing n.level n.data id := by
  refine (missing_succ n.grow.data id).trans ?_
  rw [Nat.div_eq_of_lt hid, Nat.mod_eq_of_lt hid]
  rfl

theorem grow_missing_beyond (hid : 64 ^ (n.level + 1) ≤ id) :
    missing n.grow.level n.grow.data id = n.level + 2 := by
  have hne : id / 64 ^ (n.level + 1) ≠ 0 :=
    Nat.div_ne_zero_iff.mpr ⟨Nat.ne_of_gt (Nat.pow_pos (by decide)), hid⟩
  have hslot : n.grow.data (id / 64 ^ (n.level + 1)) = none := if_neg hne
  refine (missing_succ n.grow.data id).trans ?_
  rw [hslot]

/-- What an attempt comes to: a division by zero, its block, or an error and a tree with the blocks it
had. -/
theorem attempt_cases (heap : Nat → Bool) (use : Block → Block) (n : DataNode) (id t : Nat) :
    (11 ≤ n.level ∧ getBlock heap use n.level n.data id t = none) ∨
    (n.level ≤ 10 ∧ id < 64 ^ (n.level + 1) ∧ (∀ i, i < missing n.level n.data id → heap (t + i) = true) ∧
      getBlock heap use n.level n.data id t =
        some (.success, (Npfs.getBlock use n.level n.data id).2, t + missing n.level n.data id)) ∨
    ∃ status j t', n.level ≤ 10 ∧ getBlock heap use n.level n.data id t = some (status, j, t') ∧ status ≠ .success ∧
      Lacks heap id n.level (missing n.level n.data id) t
        (missing (n.level + 1) (DataNode.grow ⟨n.level, j⟩).data id) t' ∧
      ∀ k, Npfs.getWeakBlock n.level j k = n.getWeakBlock k := by
  rcases Nat.lt_or_ge 10 n.level with hdeep | hl
  · exact .inl ⟨hdeep, getBlock_divides hdeep n.data⟩
  rcases Nat.lt_or_ge id (64 ^ (n.level + 1)) with hin | hout
  · rcases granted_or_refused heap t (missing n.level n.data id) with hall | ⟨p, hp, hgranted, hrefused⟩
    · exact .inr (.inl ⟨hl, hin, hall, getBlock_granted hl n.data hin hall⟩)
    · obtain ⟨j, hget, hmissing, hweak⟩ := @getBlock_refused heap use n.level id t p hl n.data hin hp hgranted hrefused
      refine .inr (.inr ⟨.deviceError, j, t + p + 1, hl, hget, by decide, ?_, hweak⟩)
      have hgrown : missing (n.level + 1) (DataNode.grow ⟨n.level, j⟩).data id = missing n.level n.data id - p :=
        (grow_missing (n := ⟨n.level, j⟩) hin).trans hmissing
      rw [hgrown]
      exact .refused hin hp hgranted hrefused
  · refine .inr (.inr ⟨.outOfBounds, n.data, t, hl, getBlock_outOfBounds hl n.data hout, by decide, ?_, fun _ => rfl⟩)
    have hgrown : missing (n.level + 1) (DataNode.grow ⟨n.level, n.data⟩).data id = n.level + 2 :=
      grow_missing_beyond hout
    rw [hgrown]
    exact .beyond hout

theorem tryBlock_divides {attempts : Nat} (h : 11 ≤ n.level) : tryBlock heap use id (attempts + 1) n t = none := by
  rw [tryBlock, getBlock_divides h]
  rfl

/-- After an attempt that came to an error. -/
theorem tryBlock_error {attempts t' : Nat} {status : Status} {j : Junction n.level}
    (h : getBlock heap use n.level n.data id t = some (status, j, t')) (hs : status ≠ .success) :
    tryBlock heap use id (attempts + 1) n t =
      if attempts = 0 then some (false, ⟨n.level, j⟩, t')
      else if !heap t' then some (false, ⟨n.level, j⟩, t' + 1)
      else tryBlock heap use id attempts (DataNode.grow ⟨n.level, j⟩) (t' + 1) := by
  rw [tryBlock, h]
  simp only [Option.bind_eq_bind, Option.bind_some, if_neg hs]
  rfl

/-- The tree of a call that returns is at least as deep as it was, and has the blocks it had, but for
the one that was asked for. -/
theorem tryBlock_blocks {attempts t' : Nat} {ok : Bool} (h : tryBlock heap use id attempts n t = some (ok, n', t')) :
    n.level ≤ n'.level ∧ ∀ k, n'.getWeakBlock k =
      if ok = true ∧ k = id then some (use ((n.getWeakBlock id).getD zeros)) else n.getWeakBlock k := by
  induction attempts generalizing n t with
  | zero =>
    obtain ⟨rfl, hpair⟩ := Prod.mk.inj (Option.some.inj h)
    obtain ⟨rfl, -⟩ := Prod.mk.inj hpair
    exact ⟨Nat.le_refl _, fun k => (if_neg fun hk => Bool.false_ne_true hk.1).symm⟩
  | succ attempts ih =>
    rcases attempt_cases heap use n id t with ⟨hdeep, -⟩ | ⟨hl, hin, -, hget⟩ | ⟨status, j, t₁, hl, hget, hs, -, hweak⟩
    · rw [tryBlock_divides hdeep] at h
      cases h
    · rw [tryBlock, hget] at h
      obtain ⟨rfl, hpair⟩ := Prod.mk.inj (Option.some.inj h)
      obtain ⟨rfl, -⟩ := Prod.mk.inj hpair
      obtain ⟨j', hj, hblocks⟩ := getBlock_success use n.data id hl hin
      refine ⟨Nat.le_refl _, fun k => ?_⟩
      rw [hj]
      show Npfs.getWeakBlock n.level j' k = _
      rw [hblocks]
      by_cases hk : k = id
      · rw [if_pos hk, if_pos ⟨rfl, hk⟩]
        rfl
      · rw [if_neg hk, if_neg fun h => hk h.2]
        rfl
    · rw [tryBlock_error hget hs] at h
      have hnull : ∀ t₂, some (false, (⟨n.level, j⟩ : DataNode), t₂) = some (ok, n', t') →
          n.level ≤ n'.level ∧ ∀ k, n'.getWeakBlock k =
            if ok = true ∧ k = id then some (use ((n.getWeakBlock id).getD zeros)) else n.getWeakBlock k := by
        intro t₂ hnull
        obtain ⟨rfl, hpair⟩ := Prod.mk.inj (Option.some.inj hnull)
        obtain ⟨rfl, -⟩ := Prod.mk.inj hpair
        refine ⟨Nat.le_refl _, fun k => ?_⟩
        rw [if_neg fun hk => Bool.false_ne_true hk.1]
        exact hweak k
      split at h
      · exact hnull _ h
      next hattempts =>
      split at h
      · exact hnull _ h
      · obtain ⟨attempts, rfl⟩ := Nat.exists_eq_succ_of_ne_zero hattempts
        have hl' : n.level ≤ 9 := by
          apply Nat.le_of_not_lt
          intro hten
          rw [tryBlock_divides (show 11 ≤ n.level + 1 by omega)] at h
          cases h
        obtain ⟨hlevel, hblocks⟩ := ih h
        refine ⟨Nat.le_of_succ_le hlevel, fun k => ?_⟩
        have hgrow := fun k => DataNode.grow_getWeakBlock (n := ⟨n.level, j⟩) hl' k
        rw [hblocks k, hgrow, hgrow]
        show (if _ then some (use ((Npfs.getWeakBlock n.level j id).getD zeros)) else Npfs.getWeakBlock n.level j k) = _
        rw [hweak, hweak]

theorem Served.level {attempts level need : Nat} (h : Served heap id attempts level need t) : level ≤ 10 := by
  cases h with
  | fits hl => exact hl
  | again hl => exact hl

theorem Denied.level {attempts level need : Nat} (h : Denied heap id attempts level need t) : level ≤ 10 := by
  cases h with
  | root hl => exact hl
  | again hl => exact hl

/-- A call returns its block exactly when the heap lets it. -/
theorem tryBlock_served_iff (attempts : Nat) : (∃ n' t', tryBlock heap use id attempts n t = some (true, n', t')) ↔
    Served heap id attempts n.level (missing n.level n.data id) t := by
  induction attempts generalizing n t with
  | zero =>
    constructor
    · rintro ⟨n', t', h⟩
      cases h
    · intro h
      cases h
  | succ attempts ih =>
    rcases attempt_cases heap use n id t with ⟨hdeep, -⟩ | ⟨hl, hin, hall, hget⟩ | ⟨status, j, t₁, hl, hget, hs, hlacks, -⟩
    · constructor
      · rintro ⟨n', t', h⟩
        rw [tryBlock_divides hdeep] at h
        cases h
      · intro h
        have hl := h.level
        omega
    · refine iff_of_true ⟨⟨n.level, (Npfs.getBlock use n.level n.data id).2⟩, t + missing n.level n.data id, ?_⟩
        (.fits hl hin hall)
      rw [tryBlock, hget]
      rfl
    · rw [tryBlock_error hget hs, served_again_iff hl hlacks]
      by_cases hattempts : attempts = 0
      · subst hattempts
        rw [if_pos rfl]
        constructor
        · rintro ⟨n', t', h⟩
          cases h
        · rintro ⟨-, h⟩
          cases h
      · rw [if_neg hattempts]
        cases hheap : heap t₁ with
        | false =>
          constructor
          · rintro ⟨n', t', h⟩
            cases h
          · rintro ⟨h, -⟩
            cases h
        | true => exact (@ih (t₁ + 1) (DataNode.grow ⟨n.level, j⟩)).trans (and_iff_right rfl).symm

theorem denied_divides {attempts : Nat} (h : 11 ≤ n.level) :
    (∃ n' t', tryBlock heap use id (attempts + 1) n t = some (false, n', t')) ↔
      Denied heap id (attempts + 1) n.level (missing n.level n.data id) t := by
  constructor
  · rintro ⟨n', t', hrun⟩
    rw [tryBlock_divides h] at hrun
    cases hrun
  · intro hdenied
    have hl := hdenied.level
    omega

theorem denied_granted {attempts t' : Nat} {j : Junction n.level} (hin : id < 64 ^ (n.level + 1))
    (hall : ∀ i, i < missing n.level n.data id → heap (t + i) = true)
    (hget : getBlock heap use n.level n.data id t = some (.success, j, t')) :
    (∃ n' t', tryBlock heap use id (attempts + 1) n t = some (false, n', t')) ↔
      Denied heap id (attempts + 1) n.level (missing n.level n.data id) t := by
  constructor
  · rintro ⟨n', t', h⟩
    rw [tryBlock, hget] at h
    cases h
  · intro h
    cases h with
    | root _ hlacks => exact (hlacks.not_granted hin hall).elim
    | again _ hlacks => exact (hlacks.not_granted hin hall).elim

/-- A call returns null exactly when the heap denies it its block. -/
theorem tryBlock_denied_iff (attempts : Nat) :
    (∃ n' t', tryBlock heap use id (attempts + 1) n t = some (false, n', t')) ↔
      Denied heap id (attempts + 1) n.level (missing n.level n.data id) t := by
  induction attempts generalizing n t with
  | zero =>
    rcases attempt_cases heap use n id t with ⟨hdeep, -⟩ | ⟨hl, hin, hall, hget⟩ | ⟨status, j, t₁, hl, hget, hs, hlacks, -⟩
    · exact denied_divides hdeep
    · exact denied_granted hin hall hget
    · rw [tryBlock_error hget hs, if_pos rfl, denied_again_iff hl hlacks]
      exact iff_of_true ⟨⟨n.level, j⟩, t₁, rfl⟩ (.inl (.inl rfl))
  | succ attempts ih =>
    rcases attempt_cases heap use n id t with ⟨hdeep, -⟩ | ⟨hl, hin, hall, hget⟩ | ⟨status, j, t₁, hl, hget, hs, hlacks, -⟩
    · exact denied_divides hdeep
    · exact denied_granted hin hall hget
    · rw [tryBlock_error hget hs, if_neg (Nat.succ_ne_zero attempts), denied_again_iff hl hlacks]
      cases hheap : heap t₁ with
      | false => exact iff_of_true ⟨⟨n.level, j⟩, t₁ + 1, rfl⟩ (.inl (.inr rfl))
      | true =>
        refine (@ih (t₁ + 1) (DataNode.grow ⟨n.level, j⟩)).trans ⟨fun h => .inr ⟨Nat.succ_ne_zero attempts, rfl, h⟩, ?_⟩
        rintro ((h | h) | ⟨-, -, h⟩)
        · cases h
        · cases h
        · exact h

/-- A call that returns null has a tree of the old depth exactly when the first new root was refused. -/
theorem tryBlock_null_iff {attempts : Nat} : (∃ n' t', tryBlock heap use id (attempts + 2) n t = some (false, n', t') ∧
    n'.level = n.level) ↔ Refused heap n id t := by
  unfold Refused
  rcases attempt_cases heap use n id t with ⟨hdeep, -⟩ | ⟨hl, hin, hall, hget⟩ | ⟨status, j, t₁, hl, hget, hs, hlacks, -⟩
  · refine iff_of_false ?_ fun h => by omega
    rintro ⟨n', t', h, -⟩
    rw [tryBlock_divides hdeep] at h
    cases h
  · refine iff_of_false ?_ ?_
    · rintro ⟨n', t', h, -⟩
      rw [tryBlock, hget] at h
      cases h
    · rintro ⟨-, need, t', hlacks, -⟩
      exact hlacks.not_granted hin hall
  · rw [tryBlock_error hget hs, if_neg (Nat.succ_ne_zero attempts)]
    constructor
    · rintro ⟨n', t', h, hlevel⟩
      refine ⟨hl, _, t₁, hlacks, ?_⟩
      cases hheap : heap t₁ with
      | false => rfl
      | true =>
        rw [hheap] at h
        have hdeeper : n.level + 1 ≤ n'.level := (tryBlock_blocks h).1
        omega
    · rintro ⟨-, need, t', hlacks', hroot⟩
      obtain ⟨-, rfl⟩ := hlacks.unique hlacks'
      rw [hroot]
      exact ⟨⟨n.level, j⟩, t₁ + 1, rfl, rfl⟩

end

/-! ## Runs -/

/-- A call of the run: the id, and what the caller does with the block. -/
structure Call where
  blockId : Nat
  use : Block → Block

/-- Every call returns, without a division by zero, and one that returns null leaves the depth of the
tree and the blocks that were there. -/
def Keeps (heap : Nat → Bool) : List Call → DataNode → Nat → Prop
  | [], _, _ => True
  | c :: calls, n, t => ∃ ok n' t', DataNode.getBlock heap n c.blockId c.use t = some (ok, n', t') ∧
      (ok = false → n'.depth = n.depth ∧ ∀ k b, n.getWeakBlock k = some b → n'.getWeakBlock k = some b) ∧
      Keeps heap calls n' t'

/-- Every call is served, or refused its first new root. -/
def Answered (heap : Nat → Bool) : List Call → DataNode → Nat → Prop
  | [], _, _ => True
  | c :: calls, n, t =>
    (Refused heap n c.blockId t ∨ Served heap c.blockId 5 n.level (missing n.level n.data c.blockId) t) ∧
      ∀ ok n' t', DataNode.getBlock heap n c.blockId c.use t = some (ok, n', t') → Answered heap calls n' t'

theorem getBlock_keeps_iff (heap : Nat → Bool) (n : DataNode) (c : Call) (t : Nat) :
    (∃ ok n' t', DataNode.getBlock heap n c.blockId c.use t = some (ok, n', t') ∧
      (ok = false → n'.depth = n.depth ∧ ∀ k b, n.getWeakBlock k = some b → n'.getWeakBlock k = some b)) ↔
    (Refused heap n c.blockId t ∨ Served heap c.blockId 5 n.level (missing n.level n.data c.blockId) t) := by
  rw [← @tryBlock_served_iff heap c.use c.blockId t n 5, ← @tryBlock_null_iff heap c.use c.blockId t n 3]
  constructor
  · rintro ⟨ok, n', t', hget, hkeep⟩
    cases ok with
    | true => exact .inr ⟨n', t', hget⟩
    | false => exact .inl ⟨n', t', hget, Nat.succ.inj (hkeep rfl).1⟩
  · rintro (⟨n', t', hget, hlevel⟩ | ⟨n', t', hget⟩)
    · refine ⟨false, n', t', hget, fun _ => ⟨congrArg (· + 1) hlevel, fun k b hb => ?_⟩⟩
      rw [(tryBlock_blocks hget).2 k, if_neg fun hk => Bool.false_ne_true hk.1]
      exact hb
    · exact ⟨true, n', t', hget, fun h => by cases h⟩

/-- In a run over a heap that may refuse any allocation, no call divides by zero, and none that returns
null deepens the tree or loses a block, exactly when each call is served, or refused the first new root
that it asks for. -/
theorem getBlocks_keep_iff (heap : Nat → Bool) (calls : List Call) (n : DataNode) (t : Nat) :
    Keeps heap calls n t ↔ Answered heap calls n t := by
  induction calls generalizing n t with
  | nil => exact Iff.rfl
  | cons c calls ih =>
    unfold Keeps Answered
    rw [← getBlock_keeps_iff heap n c t]
    constructor
    · rintro ⟨ok, n', t', hget, hkeep, hrest⟩
      refine ⟨⟨ok, n', t', hget, hkeep⟩, fun ok₁ n₁ t₁ hget₁ => ?_⟩
      obtain ⟨rfl, hpair⟩ := Prod.mk.inj (Option.some.inj (hget.symm.trans hget₁))
      obtain ⟨rfl, rfl⟩ := Prod.mk.inj hpair
      exact (ih n' t').mp hrest
    · rintro ⟨⟨ok, n', t', hget, hkeep⟩, hrest⟩
      exact ⟨ok, n', t', hget, hkeep, (ih n' t').mpr (hrest ok n' t' hget)⟩

/-- The run: the depth after each call, `none` where it divides by zero. -/
def depths (heap : Nat → Bool) : List Call → DataNode → Nat → List (Option (Bool × Nat))
  | [], _, _ => []
  | c :: calls, n, t => match DataNode.getBlock heap n c.blockId c.use t with
    | none => [none]
    | some (ok, n', t') => some (ok, n'.depth) :: depths heap calls n' t'

/-- The heap refuses every block and grants every new root. Three calls for block 0 of a new node: each
of the first two returns null and deepens the tree by four, the third one divides by zero. -/
theorem getBlocks_divide_by_zero :
    depths (fun t => t % 9 % 2 = 1) [⟨0, id⟩, ⟨0, id⟩, ⟨0, id⟩] DataNode.construct 0 =
      [some (false, 5), some (false, 9), none] ∧
    ¬ ∀ heap calls n t, Keeps heap calls n t := by
  refine ⟨by decide, fun h => ?_⟩
  obtain ⟨ok, n', t', hget, hkeep, -⟩ := h (fun t => t % 9 % 2 = 1) [⟨0, id⟩] DataNode.construct 0
  have hfirst : (DataNode.getBlock (fun t => t % 9 % 2 = 1) DataNode.construct 0 id 0).map
      (fun r => (r.1, r.2.1.depth)) = some (false, 5) := by decide
  rw [hget] at hfirst
  obtain ⟨rfl, hdepth⟩ := Prod.mk.inj (Option.some.inj hfirst)
  have hsame := (hkeep rfl).1
  rw [show n'.depth = 5 from hdepth] at hsame
  cases hsame

end BadLands.Fs.Npfs.Alloc
