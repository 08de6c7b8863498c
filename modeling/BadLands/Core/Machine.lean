/-!
# Deterministic machines and their runs

A machine is a step function `step : S → A → Option S`; `none` means that the
action is not admissible in that state (the environment never takes it there),
so a run ends. `AllStates step P s as` says that every state the run of `as`
from `s` passes through satisfies `P`; `AllSteps step G s as` that every step
it takes meets `G` in the state before it.

* `allStates_of_inv`: an invariant that every admissible step keeps holds along
  every run.
* `allStates_iff_allSteps`: when `G` is exactly what keeps an invariant (a step
  outside `G` breaks the property at once), a run is safe iff all its steps
  meet `G`.
-/
namespace BadLands.Core.Machine

variable {S A : Type}

def run (step : S → A → Option S) : S → List A → Option S
  | s, [] => some s
  | s, a :: as => (step s a).bind fun s' => run step s' as

theorem run_cons {step : S → A → Option S} {s s' : S} {a : A} (h : step s a = some s') (as : List A) :
    run step s (a :: as) = run step s' as := by
  rw [run, h, Option.bind_some]

theorem run_append (step : S → A → Option S) : ∀ (as bs : List A) (s : S),
    run step s (as ++ bs) = (run step s as).bind fun s' => run step s' bs
  | [], _, _ => rfl
  | a :: as, bs, s => by
    simp only [List.cons_append, run, Option.bind_assoc]
    congr 1
    funext s'
    exact run_append step as bs s'

/-- `P` holds in every state along the run of `as` from `s`. -/
def AllStates (step : S → A → Option S) (P : S → Prop) : S → List A → Prop
  | s, [] => P s
  | s, a :: as => P s ∧ ∀ s', step s a = some s' → AllStates step P s' as

/-- Every step along the run of `as` from `s` meets `G`. -/
def AllSteps (step : S → A → Option S) (G : S → A → Prop) : S → List A → Prop
  | _, [] => True
  | s, a :: as => ∀ s', step s a = some s' → G s a ∧ AllSteps step G s' as

instance decidableAllSteps (step : S → A → Option S) (G : S → A → Prop)
    [inst : ∀ s a, Decidable (G s a)] : ∀ s as, Decidable (AllSteps step G s as)
  | _, [] => isTrue trivial
  | s, a :: as =>
    match h : step s a with
    | none => isTrue fun s' hs => by rw [h] at hs; cases hs
    | some s₁ =>
      have := decidableAllSteps step G s₁ as
      decidable_of_iff (G s a ∧ AllSteps step G s₁ as)
        ⟨fun hg s' hs => by rw [h] at hs; cases hs; exact hg, fun hg => hg s₁ h⟩

section
variable {step : S → A → Option S} {I P : S → Prop} {G : S → A → Prop}

theorem AllStates.here {s : S} {as : List A} (h : AllStates step P s as) : P s := by
  cases as with
  | nil => exact h
  | cons a as => exact h.1

theorem AllStates.mono {Q : S → Prop} (hPQ : ∀ s, P s → Q s) :
    ∀ (as : List A) (s : S), AllStates step P s as → AllStates step Q s as
  | [], s, h => hPQ s h
  | _ :: as, s, h => ⟨hPQ s h.1, fun s' hs => AllStates.mono hPQ as s' (h.2 s' hs)⟩

/-- A state reached by a run satisfies what holds along the run. -/
theorem AllStates.of_run : ∀ (as : List A) (s s' : S), AllStates step P s as →
    run step s as = some s' → P s'
  | [], s, s', h, hr => by
    simp only [run, Option.some.injEq] at hr
    exact hr ▸ h
  | a :: as, s, s', h, hr => by
    simp only [run, Option.bind_eq_some_iff] at hr
    obtain ⟨s₁, hs, hr⟩ := hr
    exact AllStates.of_run as s₁ s' (h.2 s₁ hs) hr

theorem allSteps_of_forall {Q : A → Prop} : ∀ (as : List A) (s : S), (∀ a ∈ as, Q a) →
    AllSteps step (fun _ a => Q a) s as
  | [], _, _ => trivial
  | a :: as, _, h => fun s' _ =>
    ⟨h a List.mem_cons_self, allSteps_of_forall as s' fun b hb => h b (List.mem_cons_of_mem _ hb)⟩

theorem AllSteps.mono {G' : S → A → Prop} (hG : ∀ s a, G s a → G' s a) :
    ∀ (as : List A) (s : S), AllSteps step G s as → AllSteps step G' s as
  | [], _, _ => trivial
  | _ :: as, _, h => fun s' hs => ⟨hG _ _ (h s' hs).1, AllSteps.mono hG as s' (h s' hs).2⟩

/-- An action that advances a counter and keeps `f`, taken until the counter is at its end. -/
theorem run_drain {B : Type} {P : S → Nat → Prop} {f : S → B} {a : A} {last : Nat}
    (hstep : ∀ s n, P s n → (n = last ∧ step s a = some s) ∨
      ∃ s', step s a = some s' ∧ f s' = f s ∧ n < last ∧ P s' (n + 1)) (k : Nat) :
    ∀ (s : S) (n : Nat), P s n → n + k = last →
      ∃ s', run step s (List.replicate k a) = some s' ∧ P s' last ∧ f s' = f s := by
  induction k with
  | zero =>
    rintro s n h rfl
    exact ⟨s, rfl, h, rfl⟩
  | succ k ih =>
    intro s n h hlast
    obtain ⟨hend, -⟩ | ⟨s₁, hs, hkept, -, h₁⟩ := hstep s n h
    · omega
    obtain ⟨s', hrun, h', hkept'⟩ := ih s₁ (n + 1) h₁ (by omega)
    refine ⟨s', ?_, h', hkept'.trans hkept⟩
    rw [List.replicate_succ, run_cons hs]
    exact hrun

/-- Invariant rule restricted to the runs whose steps all meet `G`. -/
theorem allStates_of_allSteps (hstep : ∀ s a s', I s → G s a → step s a = some s' → I s') :
    ∀ (as : List A) (s : S), I s → AllSteps step G s as → AllStates step I s as
  | [], _, hi, _ => hi
  | _ :: as, _, hi, hg => ⟨hi, fun s' hs =>
      allStates_of_allSteps hstep as s' (hstep _ _ _ hi (hg s' hs).1 hs) (hg s' hs).2⟩

/-- Invariant rule. -/
theorem allStates_of_inv (hstep : ∀ s a s', I s → step s a = some s' → I s') :
    ∀ (as : List A) (s : S), I s → AllStates step I s as
  | [], _, hi => hi
  | _ :: as, _, hi => ⟨hi, fun s' hs => allStates_of_inv hstep as s' (hstep _ _ _ hi hs)⟩

/-- When a step outside `G` breaks `P` at once, safe runs take only steps in `G`. -/
theorem allSteps_of_allStates (hstep : ∀ s a s', I s → G s a → step s a = some s' → I s')
    (hbad : ∀ s a s', I s → ¬ G s a → step s a = some s' → ¬ P s') :
    ∀ (as : List A) (s : S), I s → AllStates step P s as → AllSteps step G s as
  | [], _, _, _ => trivial
  | a :: as, s, hi, hp => fun s' hs => by
    have hg : G s a := Classical.byContradiction fun hn =>
      hbad s a s' hi hn hs (hp.2 s' hs).here
    exact ⟨hg, allSteps_of_allStates hstep hbad as s' (hstep _ _ _ hi hg hs) (hp.2 s' hs)⟩

/-- `G` is the exact condition for `P` along a run. -/
theorem allStates_iff_allSteps (hIP : ∀ s, I s → P s)
    (hstep : ∀ s a s', I s → G s a → step s a = some s' → I s')
    (hbad : ∀ s a s', I s → ¬ G s a → step s a = some s' → ¬ P s') (as : List A) (s : S)
    (hi : I s) : AllStates step P s as ↔ AllSteps step G s as :=
  ⟨allSteps_of_allStates hstep hbad as s hi,
    fun hg => AllStates.mono hIP as s (allStates_of_allSteps hstep as s hi hg)⟩

end

end BadLands.Core.Machine
