import Mathlib.Data.List.Basic

/-!
# Line editors

A line of bounded length is edited at its end, and echoed as it is typed: each character, whether the line takes it or
not, and each character that is taken back from the line. Lines that fit are handed over as typed (`play_lines`).
-/
namespace BadLands.Core.LineEditor

inductive Key (α : Type) where
  | char (c : α)
  | erase
  | enter
  | other
  deriving DecidableEq

/-- What the editor shows, and the lines it hands over. -/
inductive Output (α : Type) where
  | echo (c : α)
  | back
  | newline
  | run (line : List α)
  | tooLong
  | prompt
  deriving DecidableEq

section
variable {α : Type} (limit : Nat)

def step (line : List α) : Key α → List α × List (Output α)
  | .char c => (if line.length < limit then line ++ [c] else line, [.echo c])
  | .erase => if line = [] then (line, []) else (line.dropLast, [.back])
  | .enter => ([], [.newline, if line.length < limit then .run line else .tooLong, .prompt])
  | .other => (line, [])

/-- The line after the keys, and all that was shown. -/
def play (line : List α) : List (Key α) → List α × List (Output α)
  | [] => (line, [])
  | k :: keys => ((play (step limit line k).1 keys).1, (step limit line k).2 ++ (play (step limit line k).1 keys).2)

variable {limit}

theorem play_append (keys keys' : List (Key α)) : ∀ line : List α,
    play limit line (keys ++ keys') =
      ((play limit (play limit line keys).1 keys').1,
        (play limit line keys).2 ++ (play limit (play limit line keys).1 keys').2) := by
  induction keys with
  | nil => exact fun _ => rfl
  | cons k keys ih =>
    intro line
    rw [List.cons_append, play, play, ih, List.append_assoc]

/-- Keys of no meaning change nothing. -/
theorem play_other (keys : List (Key α)) : ∀ line : List α,
    play limit line (keys.flatMap fun k => [k, .other]) = play limit line keys := by
  induction keys with
  | nil => exact fun _ => rfl
  | cons k keys ih =>
    intro line
    rw [List.flatMap_cons, List.cons_append, play, List.singleton_append, play, play]
    simp only [step, List.nil_append, ih]

/-- Characters for which there is room. -/
theorem play_chars (text : List α) : ∀ line : List α, line.length + text.length ≤ limit →
    play limit line (text.map .char) = (line ++ text, text.map .echo) := by
  induction text with
  | nil => exact fun line _ => by rw [List.append_nil]; rfl
  | cons c text ih =>
    intro line hfits
    rw [List.length_cons] at hfits
    rw [List.map_cons, play, step, if_pos (by omega)]
    dsimp only
    rw [ih (line ++ [c]) (by rw [List.length_append, List.length_singleton]; omega), List.append_assoc]
    rfl

/-- Lines that fit are handed over one after the other. -/
theorem play_lines (lines : List (List α)) (hfits : ∀ l, l ∈ lines → l.length < limit) :
    play limit [] (lines.flatMap fun l => l.map .char ++ [.enter]) =
      ([], lines.flatMap fun l => l.map .echo ++ [.newline, .run l, .prompt]) := by
  induction lines with
  | nil => rfl
  | cons l lines ih =>
    have hl := hfits l (.head _)
    have hline : play limit [] (l.map Key.char ++ [.enter]) = ([], l.map .echo ++ [.newline, .run l, .prompt]) := by
      rw [play_append, play_chars l [] (by rw [List.length_nil]; omega)]
      simp only [play, step, List.nil_append, if_pos hl, List.append_nil]
    rw [List.flatMap_cons, play_append, hline, ih fun l hl => hfits l (.tail _ hl)]
    rfl

end

end BadLands.Core.LineEditor
