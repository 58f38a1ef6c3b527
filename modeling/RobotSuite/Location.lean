/-
# Places in a source text

A location is a line, a column and an offset.  Lines and columns count from one,
offsets from zero; columns and offsets are measured in code units.  Reading a text
moves a location forward (`Location.advance`), and reading two texts one after the
other is reading their concatenation (`Location.advance_append`).
-/

import RobotSuite.Text.Units

namespace RobotSuite

/-- A place in a source text. -/
structure Location where
  /-- Line, counted from one. -/
  line : Nat
  /-- Column in code units, counted from one. -/
  column : Nat
  /-- Offset in code units from the start of the text. -/
  offset : Int
deriving Repr, DecidableEq, Inhabited

namespace Location

/-- The start of every text. -/
def origin : Location := ⟨1, 1, 0⟩

/-- The place of text that stands in no source. -/
def synthetic : Location := ⟨0, 0, -1⟩

/-- The place behind one character. -/
def step (l : Location) (c : Char) : Location :=
  if c = '\n' then ⟨l.line + 1, 1, l.offset + 1⟩
  else ⟨l.line, l.column + Text.charUnits c, l.offset + Text.charUnits c⟩

/-- The place behind a text. -/
def advance (l : Location) (cs : List Char) : Location := cs.foldl step l

@[simp] theorem advance_nil (l : Location) : l.advance [] = l := rfl

@[simp] theorem advance_cons (l : Location) (c : Char) (cs : List Char) :
    l.advance (c :: cs) = (l.step c).advance cs := rfl

/-- Moving past two texts is moving past one and then the other. -/
theorem advance_append (l : Location) (a b : List Char) :
    l.advance (a ++ b) = (l.advance a).advance b := by
  simp [advance]

/-- The place `delta` code units further on the same line. -/
def shift (l : Location) (delta : Nat) : Location :=
  ⟨l.line, l.column + delta, l.offset + delta⟩

end Location

/-- A place as it is reported.  Its numbers may be fractions, because a limit that is
configured as a fraction gives a fraction of a column. -/
structure Spot where
  /-- Line, counted from one. -/
  line : Rat
  /-- Column, counted from one. -/
  column : Rat
  /-- Offset from the start of the source. -/
  offset : Rat
deriving Repr, DecidableEq, Inhabited

/-- A location as it is reported. -/
def Location.spot (l : Location) : Spot := ⟨l.line, l.column, l.offset⟩

/-- A stretch of a source text. -/
structure Span where
  /-- Where the stretch starts. -/
  start : Location
  /-- The place behind its last character. -/
  stop : Location
deriving Repr, DecidableEq, Inhabited

/-- The span of text that stands in no source. -/
def Span.synthetic : Span := ⟨.synthetic, .synthetic⟩

end RobotSuite
