import Mathlib.Data.List.Perm.Basic

/-!
# Disposal of blocks

What a program does to the blocks it owns, as a list of events. `Safe` says that a block is neither
touched nor freed once it was freed; `Disposes kept blocks events` that the events free `blocks`,
each once and safely, and use nothing else but `kept`.

`Disposes.append` and `Disposes.free` compose: one part is disposed of after another, and an object
after its parts.
-/
namespace BadLands.Core.Disposal

variable {α : Type}

/-- What is done to the block a pointer leads to, or to a place that is in none (`wild`). -/
inductive Event (α : Type) where
  | touch (p : Option α)
  | free (p : Option α)
  | wild
  deriving DecidableEq, Repr

/-- The blocks that are freed, in order. -/
def frees (events : List (Event α)) : List α :=
  events.filterMap fun
    | .free p => p
    | _ => none

/-- Nothing is done to a block of `freed`, nor to one that was freed before, nor to no block. -/
def Safe : List α → List (Event α) → Prop
  | _, [] => True
  | freed, .touch (some b) :: events => b ∉ freed ∧ Safe freed events
  | freed, .free (some b) :: events => b ∉ freed ∧ Safe (b :: freed) events
  | _, _ :: _ => False

section
variable {events a b : List (Event α)} {freed kept blocks A B : List α} {x : α}

theorem frees_append (a b : List (Event α)) : frees (a ++ b) = frees a ++ frees b := List.filterMap_append

theorem frees_flatMap {β : Type} (l : List β) (f : β → List (Event α)) :
    frees (l.flatMap f) = l.flatMap fun x => frees (f x) := List.filterMap_flatMap

/-- With less freed before, what is safe stays so. -/
theorem Safe.anti : ∀ {events : List (Event α)} {freed freed' : List α}, (∀ x ∈ freed', x ∈ freed) → Safe freed events →
    Safe freed' events
  | [], _, _, _, _ => trivial
  | .touch (some _) :: _, _, _, hsub, h => ⟨fun hx => h.1 (hsub _ hx), h.2.anti hsub⟩
  | .free (some _) :: _, _, _, hsub, h => by
    refine ⟨fun hx => h.1 (hsub _ hx), h.2.anti fun y hy => ?_⟩
    rcases List.mem_cons.mp hy with rfl | hy
    · exact List.mem_cons_self
    · exact List.mem_cons_of_mem _ (hsub y hy)
  | .touch none :: _, _, _, _, h => h.elim
  | .free none :: _, _, _, _, h => h.elim
  | .wild :: _, _, _, _, h => h.elim

theorem safe_append : ∀ {a : List (Event α)} {freed : List α}, Safe freed a → Safe (frees a ++ freed) b →
    Safe freed (a ++ b)
  | [], _, _, hb => hb
  | .touch (some x) :: a, freed, ha, hb => ⟨ha.1, safe_append ha.2 hb⟩
  | .free (some x) :: a, freed, ha, hb => by
    refine ⟨ha.1, safe_append ha.2 (hb.anti fun y hy => ?_)⟩
    have hfrees : frees (.free (some x) :: a) = x :: frees a := rfl
    rw [hfrees]
    rcases List.mem_append.mp hy with hy | hy
    · exact List.mem_append_left _ (List.mem_cons_of_mem _ hy)
    · rcases List.mem_cons.mp hy with rfl | hy
      · exact List.mem_append_left _ List.mem_cons_self
      · exact List.mem_append_right _ hy
  | .touch none :: _, _, ha, _ => ha.elim
  | .free none :: _, _, ha, _ => ha.elim
  | .wild :: _, _, ha, _ => ha.elim

/-- `events` frees `blocks`, each once and untouched afterwards, and touches otherwise only `kept`. -/
structure Disposes (kept blocks : List α) (events : List (Event α)) : Prop where
  frees : (frees events).Perm blocks
  safe : ∀ freed, (∀ x ∈ freed, x ∉ kept ∧ x ∉ blocks) → Safe freed events

theorem Disposes.nil : Disposes kept [] [] := ⟨.nil, fun _ _ => trivial⟩

theorem Disposes.touch (h : Disposes kept blocks events) (hx : x ∈ kept) :
    Disposes kept blocks (.touch (some x) :: events) :=
  ⟨h.frees, fun freed hf => ⟨fun hxf => (hf x hxf).1 hx, h.safe freed hf⟩⟩

theorem Disposes.append (ha : Disposes kept A a) (hb : Disposes kept B b) (hnd : (kept ++ (A ++ B)).Nodup) :
    Disposes kept (A ++ B) (a ++ b) := by
  obtain ⟨-, hAB, hkept⟩ := List.nodup_append.mp hnd
  obtain ⟨-, -, hdisj⟩ := List.nodup_append.mp hAB
  refine ⟨by rw [frees_append]; exact ha.frees.append hb.frees, fun freed hf => ?_⟩
  refine safe_append (ha.safe freed fun x hx => ⟨(hf x hx).1, fun hA => (hf x hx).2 (List.mem_append_left _ hA)⟩)
    (hb.safe _ fun x hx => ?_)
  rcases List.mem_append.mp hx with hx | hx
  · have hA := ha.frees.mem_iff.mp hx
    exact ⟨fun hk => hkept x hk x (List.mem_append_left _ hA) rfl, fun hB => hdisj x hA x hB rfl⟩
  · exact ⟨(hf x hx).1, fun hB => (hf x hx).2 (List.mem_append_right _ hB)⟩

/-- A block that was in use so far is freed at the end. -/
theorem Disposes.free (h : Disposes (x :: kept) blocks events) (hx : x ∉ blocks) :
    Disposes kept (x :: blocks) (events ++ [.free (some x)]) := by
  refine ⟨?_, fun freed hf => ?_⟩
  · rw [frees_append]
    exact (h.frees.append_right _).trans (List.perm_append_singleton _ _)
  · refine safe_append (h.safe freed fun y hy => ?_) ⟨fun hmem => ?_, trivial⟩
    · obtain ⟨hk, hb⟩ := hf y hy
      rw [List.mem_cons, not_or] at hb
      exact ⟨fun hy => (List.mem_cons.mp hy).elim hb.1 hk, hb.2⟩
    · rcases List.mem_append.mp hmem with hmem | hmem
      · exact hx (h.frees.mem_iff.mp hmem)
      · exact (hf x hmem).2 List.mem_cons_self

end

end BadLands.Core.Disposal
