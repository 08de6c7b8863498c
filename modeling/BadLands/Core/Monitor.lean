import BadLands.Core.Machine

/-!
# Operations under one lock

Any number of threads call operations on a shared state. A call waits for the
lock, then runs its body one access at a time while the other threads take
turns of their own, and gives the lock back. Threads are scheduled in any order.

* `Inv`, `step_inv`: at most one thread is inside, and the shared state with the rest
  of its body comes to what the whole body makes of the sequential state: what the
  calls returned, in the order in which they left, is what the same calls return one
  after another in the order in which they took the lock.
* `Inv.taken`: calls leave the lock in the order in which they took it.
* `completes`: from every state of a run, turns of the threads alone bring any
  call under way to its end.
-/
namespace BadLands.Core.Monitor

open BadLands.Core.Machine

/-- A lock with its states in `Λ`: `trylock` succeeds iff it is not held. -/
structure Spinlock (Λ : Type) where
  held : Λ → Bool
  trylock : Λ → Bool × Λ
  unlock : Λ → Λ
  trylock_fst : ∀ l, (trylock l).1 = !held l
  held_trylock : ∀ l, held (trylock l).2 = true
  held_unlock : ∀ l, held (unlock l) = false

/-- What a call does while it has the lock: accesses to the shared state, each
chosen by what the earlier ones read. -/
inductive Body (σ R : Type) : Type
  | ret (r : R)
  | access (upd : σ → σ) (next : σ → Body σ R)

/-- The body with nothing in between. -/
def Body.run {σ R : Type} : Body σ R → σ → σ × R
  | .ret r, s => (s, r)
  | .access upd next, s => (next s).run (upd s)

inductive Phase (σ Op R : Type) : Type
  | idle
  | waiting (op : Op)
  | inside (op : Op) (b : Body σ R)

def Phase.isInside {σ Op R : Type} : Phase σ Op R → Bool
  | .inside _ _ => true
  | _ => false

/-- The call under way. -/
def Phase.pending {σ Op R : Type} : Phase σ Op R → Option Op
  | .idle => none
  | .waiting op => some op
  | .inside op _ => some op

/-- `acquired` and `returned` record the calls as they take and leave the lock. -/
structure State (T Λ σ Op R : Type) where
  shared : σ
  lock : Λ
  phase : T → Phase σ Op R
  acquired : List (T × Op)
  returned : List ((T × Op) × R)

inductive Act (T Op : Type) : Type
  | call (t : T) (op : Op)
  | turn (t : T)

section
variable {T Λ σ Op R : Type} (L : Spinlock Λ) (body : Op → Body σ R)

def init (s₀ : σ) (l₀ : Λ) : State T Λ σ Op R := ⟨s₀, l₀, fun _ => .idle, [], []⟩

/-- The calls one after another. -/
def replay (s₀ : σ) : List (T × Op) → σ × List ((T × Op) × R)
  | [] => (s₀, [])
  | c :: cs =>
    let r := (body c.2).run s₀
    let rest := replay r.1 cs
    (rest.1, (c, r.2) :: rest.2)

theorem replay_append (s₀ : σ) : ∀ (cs ds : List (T × Op)),
    replay body s₀ (cs ++ ds) =
      ((replay body (replay body s₀ cs).1 ds).1,
        (replay body s₀ cs).2 ++ (replay body (replay body s₀ cs).1 ds).2)
  | [], _ => rfl
  | c :: cs, ds => by
    simp only [List.cons_append, replay, replay_append _ cs ds]

theorem replay_map_fst (s₀ : σ) : ∀ cs : List (T × Op), (replay body s₀ cs).2.map Prod.fst = cs
  | [] => rfl
  | c :: cs => by
    rw [replay, List.map_cons, replay_map_fst _ cs]

/-- `s₀` is the state the first call found. -/
structure Inv (s₀ : σ) (s : State T Λ σ Op R) : Prop where
  lock_iff : L.held s.lock = true ↔ ∃ t, (s.phase t).isInside = true
  unique : ∀ t u, (s.phase t).isInside = true → (s.phase u).isInside = true → t = u
  free : L.held s.lock = false → replay body s₀ s.acquired = (s.shared, s.returned)
  busy : ∀ t op b, s.phase t = .inside op b → ∃ cs s₁, s.acquired = cs ++ [(t, op)] ∧
    replay body s₀ cs = (s₁, s.returned) ∧ b.run s.shared = (body op).run s₁

variable {L body} {s₀ : σ} {s : State T Λ σ Op R}

theorem inv_init {l₀ : Λ} (h : L.held l₀ = false) : Inv L body s₀ (init s₀ l₀ : State T Λ σ Op R) where
  lock_iff := by
    rw [show (init s₀ l₀ : State T Λ σ Op R).lock = l₀ from rfl, h]
    simp [init, Phase.isInside]
  unique t u ht _ := by simp [init, Phase.isInside] at ht
  free _ := rfl
  busy t op b ht := by simp [init] at ht

/-- With a thread inside, every other one is outside. -/
theorem Inv.outside (hi : Inv L body s₀ s) {t u : T} (ht : (s.phase t).isInside = true) (h : u ≠ t) :
    (s.phase u).isInside = false := by
  rw [← Bool.not_eq_true]
  exact fun hu => h (hi.unique u t hu ht)

/-- Nobody is inside while the lock is free. -/
theorem Inv.none_inside (hi : Inv L body s₀ s) (h : L.held s.lock = false) (t : T) :
    (s.phase t).isInside = false := by
  rw [← Bool.not_eq_true]
  intro ht
  rw [hi.lock_iff.mpr ⟨t, ht⟩] at h
  cases h

/-- The calls leave the lock in the order in which they took it: at most the one inside has still to leave. -/
theorem Inv.taken (hi : Inv L body s₀ s) : ∃ ahead, s.acquired = s.returned.map Prod.fst ++ ahead ∧
    (L.held s.lock = false → ahead = []) ∧ ∀ t op b, s.phase t = .inside op b → ahead = [(t, op)] := by
  cases hlock : L.held s.lock with
  | false =>
    refine ⟨[], ?_, fun _ => rfl, fun t op b ht => ?_⟩
    · rw [List.append_nil, ← replay_map_fst body s₀ s.acquired, hi.free hlock]
    · have hin := hi.none_inside hlock t
      rw [ht] at hin
      cases hin
  | true =>
    obtain ⟨t, ht⟩ := hi.lock_iff.mp hlock
    cases hphase : s.phase t with
    | inside op b =>
      obtain ⟨cs, s₁, hacquired, hreplay, -⟩ := hi.busy t op b hphase
      have hcs : s.returned.map Prod.fst = cs := by rw [← replay_map_fst body s₀ cs, hreplay]
      refine ⟨[(t, op)], by rw [hacquired, hcs], fun h => (by cases h), fun u op' b' hu => ?_⟩
      obtain rfl := hi.unique u t (by rw [hu]; rfl) ht
      rw [hphase, Phase.inside.injEq] at hu
      rw [hu.1]
    | idle | waiting => rw [hphase] at ht; cases ht

end

section
variable {T Λ σ Op R : Type} [DecidableEq T] (L : Spinlock Λ) (body : Op → Body σ R)

def State.move (s : State T Λ σ Op R) (t : T) (p : Phase σ Op R) : State T Λ σ Op R :=
  { s with phase := fun u => if u = t then p else s.phase u }

/-- The lock taken. -/
def State.enter (s : State T Λ σ Op R) (t : T) (op : Op) : State T Λ σ Op R :=
  { s.move t (.inside op (body op)) with
    lock := (L.trylock s.lock).2, acquired := s.acquired ++ [(t, op)] }

def State.access (s : State T Λ σ Op R) (t : T) (op : Op) (upd : σ → σ) (next : σ → Body σ R) :
    State T Λ σ Op R :=
  { s.move t (.inside op (next s.shared)) with shared := upd s.shared }

/-- The lock given back. -/
def State.leave (s : State T Λ σ Op R) (t : T) (op : Op) (r : R) : State T Λ σ Op R :=
  { s.move t .idle with lock := L.unlock s.lock, returned := s.returned ++ [((t, op), r)] }

/-- A thread's own turn. -/
def turn (s : State T Λ σ Op R) (t : T) : Option (State T Λ σ Op R) :=
  match s.phase t with
  | .idle => none
  | .waiting op =>
    if (L.trylock s.lock).1 then some (s.enter L body t op)
    else some { s with lock := (L.trylock s.lock).2 }
  | .inside op (.access upd next) => some (s.access t op upd next)
  | .inside op (.ret r) => some (s.leave L t op r)

def step (s : State T Λ σ Op R) : Act T Op → Option (State T Λ σ Op R)
  | .call t op =>
    match s.phase t with
    | .idle => some (s.move t (.waiting op))
    | _ => none
  | .turn t => turn L body s t

variable {L body} {s₀ : σ} {s s' : State T Λ σ Op R}

theorem phase_move {t u : T} {p : Phase σ Op R} (h : u ≠ t) : (s.move t p).phase u = s.phase u :=
  if_neg h

theorem phase_move_self {t : T} {p : Phase σ Op R} : (s.move t p).phase t = p :=
  if_pos rfl

/-- The threads that are inside after thread `t` moves to `p`. -/
theorem isInside_move {t : T} {p : Phase σ Op R} (u : T) :
    ((s.move t p).phase u).isInside = if u = t then p.isInside else (s.phase u).isInside := by
  by_cases h : u = t
  · rw [h, phase_move_self, if_pos rfl]
  · rw [phase_move h, if_neg h]

theorem call_inv (hi : Inv L body s₀ s) {t : T} {op : Op} (ht : s.phase t = .idle) :
    Inv L body s₀ (s.move t (.waiting op)) := by
  have hin : ∀ u, ((s.move t (.waiting op)).phase u).isInside = (s.phase u).isInside := fun u => by
    rw [isInside_move]
    split
    · next h => rw [h, ht]; rfl
    · rfl
  refine ⟨?_, fun u v hu hv => ?_, hi.free, fun u op' b hu => ?_⟩
  · simp only [hin]
    exact hi.lock_iff
  · rw [hin] at hu hv
    exact hi.unique u v hu hv
  · by_cases h : u = t
    · rw [h, phase_move_self] at hu
      cases hu
    · rw [phase_move h] at hu
      exact hi.busy u op' b hu

@[simp] theorem enter_lock (t : T) (op : Op) : (s.enter L body t op).lock = (L.trylock s.lock).2 := rfl

@[simp] theorem access_lock (t : T) (op : Op) (upd : σ → σ) (next : σ → Body σ R) :
    (s.access t op upd next).lock = s.lock := rfl

@[simp] theorem leave_lock (t : T) (op : Op) (r : R) : (s.leave L t op r).lock = L.unlock s.lock := rfl

theorem enter_phase (t : T) (op : Op) : (s.enter L body t op).phase t = .inside op (body op) := phase_move_self

theorem access_phase (t : T) (op : Op) (upd : σ → σ) (next : σ → Body σ R) :
    (s.access t op upd next).phase t = .inside op (next s.shared) := phase_move_self

theorem enter_inv (hi : Inv L body s₀ s) {t : T} {op : Op} (hfree : L.held s.lock = false) :
    Inv L body s₀ (s.enter L body t op) := by
  have hin : ∀ u, ((s.enter L body t op).phase u).isInside = decide (u = t) := fun u => by
    refine (isInside_move u).trans ?_
    split
    · next h => rw [decide_eq_true h]; rfl
    · next h => rw [decide_eq_false h, hi.none_inside hfree]
  refine ⟨?_, fun u v hu hv => ?_, fun h => ?_, fun u op' b hu => ?_⟩
  · simp only [enter_lock, L.held_trylock, hin, decide_eq_true_eq, exists_eq]
  · rw [hin, decide_eq_true_eq] at hu hv
    rw [hu, hv]
  · rw [enter_lock, L.held_trylock] at h
    cases h
  · have h : u = t := by
      have hu' := congrArg Phase.isInside hu
      rw [hin] at hu'
      exact of_decide_eq_true hu'
    subst h
    rw [enter_phase, Phase.inside.injEq] at hu
    obtain ⟨rfl, rfl⟩ := hu
    exact ⟨s.acquired, s.shared, rfl, hi.free hfree, rfl⟩

theorem access_inv (hi : Inv L body s₀ s) {t : T} {op : Op} {upd : σ → σ} {next : σ → Body σ R}
    (ht : s.phase t = .inside op (.access upd next)) : Inv L body s₀ (s.access t op upd next) := by
  have hti : (s.phase t).isInside = true := by rw [ht]; rfl
  have hin : ∀ u, ((s.access t op upd next).phase u).isInside = (s.phase u).isInside := fun u => by
    refine (isInside_move u).trans ?_
    split
    · next h => rw [h, hti]; rfl
    · rfl
  refine ⟨?_, fun u v hu hv => ?_, fun h => ?_, fun u op' b hu => ?_⟩
  · simp only [hin]
    exact hi.lock_iff
  · rw [hin] at hu hv
    exact hi.unique u v hu hv
  · -- the lock is not free: `t` is inside
    rw [access_lock, hi.lock_iff.mpr ⟨t, hti⟩] at h
    cases h
  · by_cases h : u = t
    · subst h
      rw [access_phase, Phase.inside.injEq] at hu
      obtain ⟨rfl, rfl⟩ := hu
      exact hi.busy u op _ ht
    · have hu' := congrArg Phase.isInside hu
      rw [hin, hi.outside hti h] at hu'
      cases hu'

theorem leave_inv (hi : Inv L body s₀ s) {t : T} {op : Op} {r : R} (ht : s.phase t = .inside op (.ret r)) :
    Inv L body s₀ (s.leave L t op r) := by
  have hti : (s.phase t).isInside = true := by rw [ht]; rfl
  have hin : ∀ u, ((s.leave L t op r).phase u).isInside = false := fun u => by
    refine (isInside_move u).trans ?_
    split
    · rfl
    · next h => exact hi.outside hti h
  obtain ⟨cs, s₁, hacq, hreplay, hrun⟩ := hi.busy t op _ ht
  refine ⟨?_, fun u v hu _ => ?_, fun _ => ?_, fun u op' b hu => ?_⟩
  · simp only [leave_lock, L.held_unlock, hin, Bool.false_eq_true, exists_false]
  · rw [hin] at hu
    cases hu
  · -- the body has come to its end, so the sequential call has too
    rw [Body.run] at hrun
    simp only [State.leave, State.move, hacq, replay_append, hreplay, replay, ← hrun]
  · have hu' := congrArg Phase.isInside hu
    rw [hin] at hu'
    cases hu'

theorem step_inv (hi : Inv L body s₀ s) {a : Act T Op} (h : step L body s a = some s') :
    Inv L body s₀ s' := by
  cases a with
  | call t op =>
    simp only [step] at h
    split at h
    · next ht => exact Option.some.inj h ▸ call_inv hi ht
    · cases h
  | turn t =>
    simp only [step, turn] at h
    split at h
    · cases h
    · next op ht =>
      split at h
      · next htry =>
        rw [L.trylock_fst, Bool.not_eq_true'] at htry
        exact Option.some.inj h ▸ enter_inv hi htry
      · next htry =>
        -- the lock stays held by whoever holds it
        rw [L.trylock_fst, Bool.not_eq_true', Bool.not_eq_false] at htry
        rw [← Option.some.inj h]
        refine ⟨?_, hi.unique, fun hfree => ?_, hi.busy⟩
        · rw [← hi.lock_iff, L.held_trylock, htry]
        · rw [L.held_trylock] at hfree
          cases hfree
    · next op upd next ht => exact Option.some.inj h ▸ access_inv hi ht
    · next op r ht => exact Option.some.inj h ▸ leave_inv hi ht

/-- A step is a call, a turn that only goes on with the calls under way, or the end of one. -/
theorem step_cases {a : Act T Op} (h : step L body s a = some s') :
    (∃ t op, a = .call t op ∧ s.phase t = .idle ∧ s' = s.move t (.waiting op)) ∨
    (∃ t, a = .turn t ∧ (∀ op r, s.phase t ≠ .inside op (.ret r)) ∧ s'.returned = s.returned ∧
      ∀ u, (s'.phase u).pending = (s.phase u).pending) ∨
    ∃ t op r, a = .turn t ∧ s.phase t = .inside op (.ret r) ∧ s' = s.leave L t op r := by
  cases a with
  | call t op =>
    simp only [step] at h
    split at h
    · next ht => exact .inl ⟨t, op, rfl, ht, (Option.some.inj h).symm⟩
    · cases h
  | turn t =>
    have hpending : ∀ p : Phase σ Op R, p.pending = (s.phase t).pending →
        ∀ u, ((s.move t p).phase u).pending = (s.phase u).pending := fun p hp u => by
      by_cases hu : u = t
      · rw [hu, phase_move_self, hp]
      · rw [phase_move hu]
    simp only [step, turn] at h
    split at h
    · cases h
    · next op ht =>
      have hne : ∀ op' r, s.phase t ≠ .inside op' (.ret r) := fun _ _ he => by
        rw [ht] at he
        cases he
      split at h
      · rw [← Option.some.inj h]
        exact .inr (.inl ⟨t, rfl, hne, rfl, hpending _ (by rw [ht]; rfl)⟩)
      · rw [← Option.some.inj h]
        exact .inr (.inl ⟨t, rfl, hne, rfl, fun _ => rfl⟩)
    · next op upd next ht =>
      rw [← Option.some.inj h]
      refine .inr (.inl ⟨t, rfl, fun op' r he => ?_, rfl, hpending _ (by rw [ht]; rfl)⟩)
      rw [ht] at he
      cases he
    · next op r ht => exact .inr (.inr ⟨t, op, r, rfl, ht, (Option.some.inj h).symm⟩)

/-! ## No call is stuck -/

/-- A thread inside gets to the end of its body by turns of its own. -/
theorem leaves {t : T} {op : Op} : ∀ (b : Body σ R) (s : State T Λ σ Op R), s.phase t = .inside op b →
    ∃ n s', run (step L body) s (List.replicate n (.turn t)) = some s' ∧ s'.phase t = .idle ∧
      L.held s'.lock = false ∧ ∀ u, u ≠ t → s'.phase u = s.phase u := by
  intro b
  induction b with
  | ret r =>
    intro s hs
    refine ⟨1, s.leave L t op r, ?_, if_pos rfl, L.held_unlock s.lock,
      fun u hu => if_neg hu⟩
    simp only [List.replicate, run, step, turn, hs, Option.bind_some]
  | access upd next ih =>
    intro s hs
    obtain ⟨n, s', hrun, hidle, hfree, hothers⟩ :=
      ih s.shared (s.access t op upd next) phase_move_self
    refine ⟨n + 1, s', ?_, hidle, hfree, fun u hu => (hothers u hu).trans (if_neg hu)⟩
    have hstep : step L body s (.turn t) = some (s.access t op upd next) := by
      simp only [step, turn, hs]
    rw [List.replicate_succ, run_cons hstep, hrun]

/-- With the lock free, a waiting thread comes to its end by turns of its own. -/
theorem passes {t : T} {op : Op} (ht : s.phase t = .waiting op) (hfree : L.held s.lock = false) :
    ∃ n s', run (step L body) s (List.replicate n (.turn t)) = some s' ∧ s'.phase t = .idle := by
  obtain ⟨n, s', hrun, hidle, -⟩ := leaves (body op) (s.enter L body t op) phase_move_self
  have hstep : step L body s (.turn t) = some (s.enter L body t op) := by
    simp only [step, turn, ht, L.trylock_fst, hfree, Bool.not_false, if_true]
  refine ⟨n + 1, s', ?_, hidle⟩
  rw [List.replicate_succ, run_cons hstep, hrun]

/-- A call under way comes to its end by turns of the threads, whoever has the lock. -/
theorem completes (hi : Inv L body s₀ s) {t : T} {op : Op} (ht : (s.phase t).pending = some op) :
    ∃ (ts : List T) (s' : State T Λ σ Op R), run (step L body) s (ts.map .turn) = some s' ∧
      s'.phase t = .idle := by
  cases hp : s.phase t with
  | idle => rw [hp] at ht; cases ht
  | inside op' b =>
    obtain ⟨n, s', hrun, hidle, -⟩ := leaves b s hp
    exact ⟨List.replicate n t, s', by rw [List.map_replicate, hrun], hidle⟩
  | waiting op' =>
    by_cases hheld : L.held s.lock = true
    · -- first whoever is inside leaves
      obtain ⟨u, hu⟩ := hi.lock_iff.mp hheld
      obtain ⟨op₁, b, hub⟩ : ∃ op₁ b, s.phase u = .inside op₁ b := by
        cases hpu : s.phase u with
        | idle => rw [hpu] at hu; cases hu
        | waiting op₁ => rw [hpu] at hu; cases hu
        | inside op₁ b => exact ⟨op₁, b, rfl⟩
      have hne : t ≠ u := fun he => by
        rw [← he, hp] at hub
        cases hub
      obtain ⟨n, s₁, hrun, -, hfree, hothers⟩ := leaves b s hub
      obtain ⟨m, s', hrun', hidle⟩ := passes ((hothers t hne).trans hp) hfree
      refine ⟨List.replicate n u ++ List.replicate m t, s', ?_, hidle⟩
      rw [List.map_append, List.map_replicate, List.map_replicate, run_append, hrun]
      exact hrun'
    · obtain ⟨n, s', hrun, hidle⟩ := passes hp (Bool.eq_false_iff.mpr hheld)
      exact ⟨List.replicate n t, s', by rw [List.map_replicate, hrun], hidle⟩

end

end BadLands.Core.Monitor
