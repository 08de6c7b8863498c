/-!
# Scripts of calls

A program that makes a fixed list of calls and stops at the first one that fails. The calls
are answered by an environment that knows the calls before (`answer`), and the state of the
program is the list of calls made so far. A line of a script is a call and whether its failure
is looked at.

* `forEach_run`: a loop whose turns are scripts is a script.
* `run_answered`: when all answers are good, all calls are made.
* `run_extends`: the calls made are from the script, and one that stops has a failed call.
-/
namespace BadLands.Core.Script

variable {C : Type}

/-- One call. -/
def pass (answer : List C → C → Bool) (c : C) (s : List C) : Bool × List C := (answer s c, s ++ [c])

def run (answer : List C → C → Bool) : List (C × Bool) → List C → Bool × List C
  | [], s => (true, s)
  | (c, checked) :: rest, s =>
    if answer s c || !checked then run answer rest (s ++ [c]) else (false, s ++ [c])

/-- The turns `i`, `i + 1`, … of a loop, `k` of them, until one fails; `none` is a fault. -/
def forEach (body : Nat → List C → Option (Bool × List C)) : Nat → Nat → List C → Option (Bool × List C)
  | 0, _, s => some (true, s)
  | k + 1, i, s => do
    let (ok, s) ← body i s
    if !ok then return (false, s)
    forEach body k (i + 1) s

section
variable {answer : List C → C → Bool}

theorem run_append (xs ys : List (C × Bool)) (s : List C) :
    run answer (xs ++ ys) s =
      if (run answer xs s).1 then run answer ys (run answer xs s).2 else run answer xs s := by
  induction xs generalizing s with
  | nil => rfl
  | cons x xs ih =>
    obtain ⟨c, checked⟩ := x
    rw [List.cons_append, run, run]
    split
    · exact ih (s ++ [c])
    · rfl

theorem run_checked (c : C) (s : List C) : run answer [(c, true)] s = pass answer c s := by
  unfold pass
  rw [run, run]
  cases answer s c with
  | true => rfl
  | false => rfl

/-- A script and then a call whose answer is the result. -/
theorem run_then_checked (xs : List (C × Bool)) (c : C) (s : List C) : run answer (xs ++ [(c, true)]) s =
    if !(run answer xs s).1 then (false, (run answer xs s).2) else pass answer c (run answer xs s).2 := by
  rw [run_append, run_checked]
  cases run answer xs s with
  | mk ok s' =>
    cases ok with
    | true => rfl
    | false => rfl

/-- A script and then a call whose answer is not looked at. -/
theorem run_then_unchecked (xs : List (C × Bool)) (c : C) (s : List C) : run answer (xs ++ [(c, false)]) s =
    if !(run answer xs s).1 then (false, (run answer xs s).2)
    else (true, (pass answer c (run answer xs s).2).2) := by
  have hlast : ∀ s, run answer [(c, false)] s = (true, s ++ [c]) := by
    intro s
    rw [run, run]
    simp
  rw [run_append, hlast]
  cases run answer xs s with
  | mk ok s' =>
    cases ok with
    | true => rfl
    | false => rfl

/-- A loop whose turns are scripts. -/
theorem forEach_run {body : Nat → List C → Option (Bool × List C)} {script : Nat → List (C × Bool)} (k : Nat) :
    ∀ i s, (∀ j, i ≤ j → j < i + k → ∀ s, body j s = some (run answer (script j) s)) →
      forEach body k i s = some (run answer ((List.range' i k).flatMap script) s) := by
  induction k with
  | zero =>
    intro i s _
    rfl
  | succ k ih =>
    intro i s h
    rw [forEach, h i (Nat.le_refl _) (by omega) s, List.range'_succ, List.flatMap_cons, run_append]
    simp only [Option.bind_eq_bind, Option.bind_some]
    cases hrun : run answer (script i) s with
    | mk ok s' =>
      cases ok with
      | true => exact ih (i + 1) s' fun j h1 h2 => h j (by omega) (by omega)
      | false => rfl

/-- When every call is answered well, all are made. -/
theorem run_answered (xs : List (C × Bool)) (s : List C)
    (h : ∀ x ∈ xs, ∀ s, answer s x.1 = true) : run answer xs s = (true, s ++ xs.map (·.1)) := by
  induction xs generalizing s with
  | nil => rw [run, List.map_nil, List.append_nil]
  | cons x xs ih =>
    obtain ⟨c, checked⟩ := x
    rw [run, h (c, checked) List.mem_cons_self s, Bool.true_or, if_pos rfl,
      ih (s ++ [c]) fun y hy => h y (List.mem_cons_of_mem _ hy), List.map_cons, List.append_assoc]
    rfl

/-- The calls made are calls of the script, and a script that stops has a call that failed. -/
theorem run_extends (answer : List C → C → Bool) (xs : List (C × Bool)) (s : List C) :
    ∃ made, (run answer xs s).2 = s ++ made ∧
    (∀ c ∈ made, c ∈ xs.map (·.1)) ∧
    ((run answer xs s).1 = true → made = xs.map (·.1)) ∧
    ((run answer xs s).1 = false → ∃ c ∈ made, ∃ s, answer s c = false) := by
  induction xs generalizing s with
  | nil => exact ⟨[], (List.append_nil s).symm, (fun c hc => hc), (fun _ => rfl), (fun h => by cases h)⟩
  | cons x xs ih =>
    obtain ⟨c, checked⟩ := x
    rw [run]
    by_cases hgo : (answer s c || !checked) = true
    · obtain ⟨made, h1, h2, h3, h4⟩ := ih (s ++ [c])
      rw [if_pos hgo]
      refine ⟨c :: made, ?_, fun d hd => ?_, fun hok => ?_, fun hstop => ?_⟩
      · rw [h1, List.append_assoc]
        rfl
      · rcases List.mem_cons.mp hd with rfl | hd
        · exact List.mem_cons_self
        · exact List.mem_cons_of_mem _ (h2 d hd)
      · rw [h3 hok, List.map_cons]
      · obtain ⟨d, hd, hs⟩ := h4 hstop
        exact ⟨d, List.mem_cons_of_mem _ hd, hs⟩
    · rw [if_neg hgo]
      refine ⟨[c], rfl, fun d hd => ?_, (fun h => by cases h), fun _ => ⟨c, List.mem_singleton_self c, s, ?_⟩⟩
      · rw [List.mem_singleton.mp hd]
        exact List.mem_cons_self
      · cases hc : answer s c with
        | true =>
          rw [hc] at hgo
          exact absurd rfl hgo
        | false => rfl

/-- The calls of a loop are added to those before. -/
theorem forEach_extends (body : Nat → List C → Option (Bool × List C))
    (hbody : ∀ i s ok s', body i s = some (ok, s') → ∃ made, s' = s ++ made) (k : Nat) :
    ∀ i s ok s', forEach body k i s = some (ok, s') → ∃ made, s' = s ++ made := by
  induction k with
  | zero =>
    intro i s ok s' h
    cases h
    exact ⟨[], (List.append_nil s).symm⟩
  | succ k ih =>
    intro i s ok s' h
    rw [forEach] at h
    simp only [Option.bind_eq_bind, Option.bind_eq_some_iff] at h
    obtain ⟨⟨ok₁, s₁⟩, h₁, h⟩ := h
    obtain ⟨made, rfl⟩ := hbody i s ok₁ s₁ h₁
    cases ok₁ with
    | false =>
      cases h
      exact ⟨made, rfl⟩
    | true =>
      obtain ⟨made', rfl⟩ := ih (i + 1) (s ++ made) ok s' h
      exact ⟨made ++ made', List.append_assoc _ _ _⟩

/-- The first turn of a loop, and the rest. -/
theorem forEach_succ {body : Nat → List C → Option (Bool × List C)}
    (hbody : ∀ i s ok s', body i s = some (ok, s') → ∃ made, s' = s ++ made) {k i : Nat} {s s' : List C}
    {ok : Bool} (h : forEach body (k + 1) i s = some (ok, s')) : ∃ ok₁ s₁, body i s = some (ok₁, s₁) ∧
      (∃ made, s' = s₁ ++ made) ∧ (ok₁ = true → forEach body k (i + 1) s₁ = some (ok, s')) := by
  rw [forEach] at h
  simp only [Option.bind_eq_bind, Option.bind_eq_some_iff] at h
  obtain ⟨⟨ok₁, s₁⟩, h₁, h⟩ := h
  refine ⟨ok₁, s₁, h₁, ?_⟩
  cases ok₁ with
  | false =>
    cases h
    exact ⟨⟨[], (List.append_nil _).symm⟩, fun hok => by cases hok⟩
  | true => exact ⟨forEach_extends _ hbody k (i + 1) s₁ ok s' h, fun _ => h⟩

end

end BadLands.Core.Script
