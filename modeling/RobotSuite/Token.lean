/-
# Tokens

Test data is written in lines of cells.  A token is a cell, the gap before or behind
one, a comment or a line ending, with its text and its place.  `isData` picks the
tokens that carry data, and `splitLines` cuts a list of tokens after each line ending.
-/

import RobotSuite.Location

namespace RobotSuite

/-- What a token is. -/
inductive TokenKind where
  /-- First cell of a line that starts with an asterisk. -/
  | sectionHeader
  /-- First cell of a line, when it starts in column one. -/
  | name
  /-- Any other cell. -/
  | argument
  /-- Indentation, the gap between cells, or trailing space. -/
  | separator
  /-- The cell `...` in front of a continued line. -/
  | continuation
  /-- From `#` to the end of the line. -/
  | comment
  /-- A line ending; empty on a last line without one. -/
  | eol
  /-- A cell that holds control characters. -/
  | unknown
deriving Repr, DecidableEq, Inhabited

namespace TokenKind

/-- Kinds in the order of their declaration. -/
def all : List TokenKind :=
  [.sectionHeader, .name, .argument, .separator, .continuation, .comment, .eol, .unknown]

/-- The name of a kind in messages. -/
def title : TokenKind → String
  | .sectionHeader => "SECTION_HEADER"
  | .name => "NAME"
  | .argument => "ARGUMENT"
  | .separator => "SEPARATOR"
  | .continuation => "CONTINUATION"
  | .comment => "COMMENT"
  | .eol => "EOL"
  | .unknown => "UNKNOWN"

/-- The kind of a given name. -/
def ofTitle? (s : String) : Option TokenKind := all.find? fun k => k.title = s

/-- Kinds that carry data. -/
def isData : TokenKind → Bool
  | .name | .argument | .sectionHeader | .unknown => true
  | _ => false

end TokenKind

/-- A token: its kind, its text and its place. -/
structure Token where
  /-- What the token is. -/
  kind : TokenKind
  /-- Its text. -/
  value : String
  /-- Where it stands. -/
  span : Span
deriving Repr, DecidableEq, Inhabited

namespace Token

/-- A token that stands in no source. -/
def create (kind : TokenKind) (value : String) : Token := ⟨kind, value, .synthetic⟩

/-- Whether the token carries data. -/
def isData (t : Token) : Bool := t.kind.isData

/-- Whether the token is a comment. -/
def isComment (t : Token) : Bool := t.kind == .comment

/-- Whether the token is a line ending. -/
def isEol (t : Token) : Bool := t.kind == .eol

/-- Whether the token is a gap. -/
def isSeparator (t : Token) : Bool := t.kind == .separator

/-- Whether the token is the marker of a continued line. -/
def isContinuation (t : Token) : Bool := t.kind == .continuation

/-- The same token with another text. -/
def withValue (t : Token) (value : String) : Token := { t with value }

end Token

/-- The text of a list of tokens. -/
def renderTokens (ts : List Token) : String := String.join (ts.map (·.value))

/-- Two stretches of tokens are rendered one after the other. -/
@[simp] theorem renderTokens_append (a b : List Token) :
    renderTokens (a ++ b) = renderTokens a ++ renderTokens b := by
  rw [← String.toList_inj]; simp [renderTokens]

/-- The first token is rendered first. -/
theorem renderTokens_cons (t : Token) (ts : List Token) :
    renderTokens (t :: ts) = t.value ++ renderTokens ts := renderTokens_append [t] ts

/-- The tokens that carry data, in order. -/
def dataTokens (ts : List Token) : List Token := ts.filter (·.isData)

/-- The comments among some tokens, in order. -/
def commentTokens (ts : List Token) : List Token := ts.filter (·.isComment)

/-- Cut after each line ending.  Tokens behind the last line ending form a line of
their own. -/
def splitLines : List Token → List (List Token)
  | [] => []
  | t :: ts =>
    if t.isEol then [t] :: splitLines ts
    else match splitLines ts with
      | [] => [[t]]
      | line :: lines => (t :: line) :: lines

/-- Cutting into lines loses nothing. -/
theorem flatten_splitLines (ts : List Token) : (splitLines ts).flatten = ts := by
  induction ts with
  | nil => rfl
  | cons t ts ih =>
    unfold splitLines
    split
    · simp [ih]
    · split <;> rename_i h <;> rw [h] at ih <;> simp at ih <;> simp [← ih]

/-- A line with neither data nor comment. -/
def isBlankLine (line : List Token) : Bool := line.all fun t => t.isSeparator || t.isEol

/-- A line that holds a comment and neither data nor a continuation marker. -/
def isCommentLine (line : List Token) : Bool :=
  line.any (·.isComment) && !line.any fun t => t.isData || t.isContinuation

/-- The first token of a line that is neither a gap nor the line ending. -/
def firstSignificant (line : List Token) : Option Token :=
  line.find? fun t => !(t.isSeparator || t.isEol)

/-- A line that opens a section. -/
def isHeaderLine (line : List Token) : Bool :=
  (firstSignificant line).any fun t => t.kind == .sectionHeader

/-- A line that continues the one before. -/
def isContinuationLine (line : List Token) : Bool :=
  (firstSignificant line).any (·.isContinuation)

/-- Whether a run of spaces and tabs keeps cells apart: two characters or a tab.  A
single space is part of a cell. -/
def isCellSeparator (run : String) : Bool :=
  2 ≤ Text.length run || run.toList.contains '\t'

end RobotSuite
