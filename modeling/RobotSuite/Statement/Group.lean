/-
# Lines that belong together

A line with data is continued by the lines that start with `...`; lines that hold only
a comment may stand between them.  Headers, blank lines and lines with nothing but a
comment stand alone.  `flatten_groupLines`: grouping keeps every line in its place.
-/

import RobotSuite.Token

namespace RobotSuite

/-- The lines up to the next continuation line, when nothing but comment lines stands
before it, and the lines behind it. -/
def takeContinuation : List (List Token) → Option (List (List Token) × List (List Token))
  | [] => none
  | line :: rest =>
    if isContinuationLine line then some ([line], rest)
    else if isCommentLine line then
      (takeContinuation rest).map fun (taken, left) => (line :: taken, left)
    else none

/-- What is taken and what is left are the lines. -/
theorem append_of_takeContinuation {lines taken left : List (List Token)}
    (h : takeContinuation lines = some (taken, left)) : taken ++ left = lines := by
  induction lines generalizing taken left with
  | nil => simp [takeContinuation] at h
  | cons line rest ih =>
    unfold takeContinuation at h
    split at h
    · simp at h; simp [← h.1, ← h.2]
    · split at h
      · cases hr : takeContinuation rest with
        | none => simp [hr] at h
        | some p =>
          simp [hr] at h
          obtain ⟨rfl, rfl⟩ := h
          simp [ih hr]
      · simp at h

/-- Something is taken. -/
theorem length_lt_of_takeContinuation {lines taken left : List (List Token)}
    (h : takeContinuation lines = some (taken, left)) : left.length < lines.length := by
  induction lines generalizing taken left with
  | nil => simp [takeContinuation] at h
  | cons line rest ih =>
    unfold takeContinuation at h
    split at h
    · simp at h; simp [← h.2]
    · split at h
      · cases hr : takeContinuation rest with
        | none => simp [hr] at h
        | some p =>
          simp [hr] at h
          obtain ⟨-, rfl⟩ := h
          have := ih hr
          simp; omega
      · simp at h

/-- All lines that continue the line in front of them, and the lines behind. -/
def takeContinuations (lines : List (List Token)) :
    List (List Token) × List (List Token) :=
  match _h : takeContinuation lines with
  | none => ([], lines)
  | some (taken, left) =>
    let (more, rest) := takeContinuations left
    (taken ++ more, rest)
termination_by lines.length
decreasing_by exact length_lt_of_takeContinuation _h

/-- All that is taken and what is left are the lines. -/
theorem takeContinuations_append (lines : List (List Token)) :
    (takeContinuations lines).1 ++ (takeContinuations lines).2 = lines := by
  fun_induction takeContinuations lines with
  | case1 => rfl
  | case2 lines taken left h more rest hm ih =>
    rw [hm] at ih
    simp at ih ⊢
    rw [ih, append_of_takeContinuation h]

/-- No line is added. -/
theorem length_takeContinuations_le (lines : List (List Token)) :
    (takeContinuations lines).2.length ≤ lines.length := by
  have := congrArg List.length (takeContinuations_append lines)
  simp at this; omega

/-- Whether a line can be continued. -/
def isContinuable (line : List Token) : Bool := !isHeaderLine line && line.any (·.isData)

/-- The lines of each statement. -/
def groupLines : List (List Token) → List (List (List Token))
  | [] => []
  | line :: rest =>
    if isContinuable line then
      (line :: (takeContinuations rest).1) :: groupLines (takeContinuations rest).2
    else [line] :: groupLines rest
termination_by lines => lines.length
decreasing_by
  · have := length_takeContinuations_le rest; simp; omega
  · simp

/-- Grouping keeps every line in its place. -/
theorem flatten_groupLines (lines : List (List Token)) :
    (groupLines lines).flatten = lines := by
  fun_induction groupLines lines with
  | case1 => rfl
  | case2 line rest h ih => simp [ih, takeContinuations_append]
  | case3 line rest h ih => simp [ih]

end RobotSuite
