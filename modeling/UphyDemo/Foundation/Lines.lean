import Mathlib.Data.List.Basic

namespace Lines

variable {α : Type} [DecidableEq α] (stop : α)

def unlines (ls : List (List α)) : List α := ls.flatMap fun l => l ++ [stop]

-- what follows the last terminator is not a line
def linesFrom : List α → List α → List (List α)
  | _, [] => []
  | line, x :: xs => if x = stop then line :: linesFrom [] xs else linesFrom (line ++ [x]) xs

def lines (xs : List α) : List (List α) := linesFrom stop [] xs

theorem linesFrom_line {l : List α} (h : stop ∉ l) (line rest : List α) :
    linesFrom stop line (l ++ stop :: rest) = (line ++ l) :: lines stop rest := by
  induction l generalizing line with
  | nil => simp [linesFrom, lines]
  | cons x l ih =>
    rw [List.mem_cons, not_or] at h
    rw [List.cons_append, linesFrom, if_neg (Ne.symm h.1), ih h.2, List.append_assoc]
    rfl

theorem lines_unlines {ls : List (List α)} (h : ∀ l ∈ ls, stop ∉ l) :
    lines stop (unlines stop ls) = ls := by
  induction ls with
  | nil => rfl
  | cons l ls ih =>
    rw [List.forall_mem_cons] at h
    have hcons : unlines stop (l :: ls) = l ++ stop :: unlines stop ls := by simp [unlines]
    rw [hcons, lines, linesFrom_line stop h.1, ih h.2, List.nil_append]

end Lines
