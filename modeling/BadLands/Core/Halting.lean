import Mathlib.Logic.Function.Iterate

/-!
# Machines that run by themselves

A step function `step : S → S`. A state where it stops is one that it does not change: `final` when
it is done, `stuck` when it is not.

* `halts_iff`: when every other step makes a measure smaller, the run comes to a final state exactly
  when it never comes to one where it is stuck.
* `Comes`: a run against the result of a function that may not come back, with `Comes.of_step` and
  `Comes.of_call` to put runs together.
-/
namespace BadLands.Core.Halting

variable {S : Type} {step : S → S} {final stuck : S → Prop} {s t u : S} {r : Option S}

/-- So many steps lead from one state to another. -/
def Leads (step : S → S) (s t : S) : Prop := ∃ n, step^[n] s = t

theorem Leads.refl (s : S) : Leads step s s := ⟨0, rfl⟩

theorem Leads.of_step (h : Leads step (step s) t) : Leads step s t := by
  obtain ⟨n, rfl⟩ := h
  exact ⟨n + 1, rfl⟩

theorem Leads.trans (h : Leads step s t) (h' : Leads step t u) : Leads step s u := by
  obtain ⟨n, rfl⟩ := h
  obtain ⟨m, rfl⟩ := h'
  exact ⟨m + n, Function.iterate_add_apply step m n s⟩

/-- A measure that no step makes larger. -/
theorem Leads.measure_le (h : Leads step s t) {measure : S → Nat} (hle : ∀ s, measure (step s) ≤ measure s) :
    measure t ≤ measure s := by
  obtain ⟨n, rfl⟩ := h
  induction n generalizing s with
  | zero => exact Nat.le_refl _
  | succ n ih => exact Nat.le_trans ih (hle s)

/-- From a run to a state that does not change, every part of the run leads there. -/
theorem Leads.fixed (h : Leads step s t) (hfixed : step t = t) (n : Nat) : Leads step (step^[n] s) t := by
  obtain ⟨m, rfl⟩ := h
  refine ⟨m, ?_⟩
  rw [← Function.iterate_add_apply, Nat.add_comm, Function.iterate_add_apply, Function.iterate_fixed hfixed]

/-- The states that do not change are where the run ends. -/
theorem Leads.unique (h : Leads step s t) (h' : Leads step s u) (ht : step t = t) (hu : step u = u) : t = u := by
  obtain ⟨n, rfl⟩ := h
  obtain ⟨m, hm⟩ := h'.fixed hu n
  rw [Function.iterate_fixed ht] at hm
  exact hm

/-- The run comes to the state that the function returns, or is stuck when it does not come back. -/
def Comes (step : S → S) (stuck : S → Prop) (s : S) : Option S → Prop
  | some t => Leads step s t
  | none => ∃ t, Leads step s t ∧ stuck t

theorem Comes.of_leads (h : Leads step s t) (hr : Comes step stuck t r) : Comes step stuck s r := by
  cases r with
  | some u => exact h.trans hr
  | none =>
    obtain ⟨u, hu, hstuck⟩ := hr
    exact ⟨u, h.trans hu, hstuck⟩

theorem Comes.of_step (hr : Comes step stuck (step s) r) : Comes step stuck s r := hr.of_leads ⟨1, rfl⟩

/-- A function that calls another one: it does not come back when that one does not. -/
theorem Comes.of_call {α : Type} {x : Option α} {f : α → S} (h : Comes step stuck s (x.map f)) (hnone : x = none → r = none)
    (hsome : ∀ a, x = some a → Comes step stuck (f a) r) : Comes step stuck s r := by
  cases x with
  | some a => exact (hsome a rfl).of_leads h
  | none =>
    rw [hnone rfl]
    exact h

/-- A run that comes to a final state is never stuck. -/
theorem not_stuck (hfinal : ∀ s, final s → step s = s) (hstuck : ∀ s, stuck s → step s = s)
    (hne : ∀ s, stuck s → ¬ final s) (h : Leads step s t) (ht : final t) (n : Nat) : ¬ stuck (step^[n] s) := by
  intro hs
  have hlast := (h.fixed (hfinal t ht) n).unique (Leads.refl _) (hfinal t ht) (hstuck _ hs)
  rw [hlast] at ht
  exact hne _ hs ht

/-- The measure can only get smaller so often. -/
theorem halts_iff (hfinal : ∀ s, final s → step s = s) (hstuck : ∀ s, stuck s → step s = s)
    (hne : ∀ s, stuck s → ¬ final s) (measure : S → Nat)
    (hless : ∀ s, ¬ final s → ¬ stuck s → measure (step s) < measure s) (s : S) :
    (∃ n, final (step^[n] s)) ↔ ∀ n, ¬ stuck (step^[n] s) := by
  constructor
  · rintro ⟨n, hn⟩
    exact not_stuck hfinal hstuck hne ⟨n, rfl⟩ hn
  · intro hfree
    induction hm : measure s using Nat.strongRecOn generalizing s with
    | ind m ih =>
      subst hm
      by_cases hs : final s
      · exact ⟨0, hs⟩
      · obtain ⟨n, hn⟩ := ih _ (hless s hs (hfree 0)) (step s) (fun n => hfree (n + 1)) rfl
        exact ⟨n + 1, hn⟩

end BadLands.Core.Halting
