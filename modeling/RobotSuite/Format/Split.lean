/-
# Splitting of long lines

A statement with a line that is too long is laid out again: its head stays on the first
line, and arguments are filled into lines greedily.  Statements with lines that hold
nothing but a comment are left alone; comments behind cells move to the last line.
-/

import RobotSuite.Format.Pass
import RobotSuite.Format.Layout

namespace RobotSuite
namespace Split

/-- Columns of a line with some cells. -/
def rowWidth (indent : String) (cells : List Token) (separator : String) : Nat :=
  Text.length indent + Text.length (separator.intercalate (cells.map (·.value)))

/-- Fill arguments into rows behind those of the row that is open. -/
def fillFrom (indent separator : String) (limit : Int) (everyArg : Bool) (row : List Token) :
    List Token → List (List Token)
  | [] => [row]
  | arg :: args =>
    let width := rowWidth indent row separator + Text.length separator + Text.length arg.value
    if !everyArg && width ≤ limit then
      fillFrom indent separator limit everyArg (row ++ [arg]) args
    else row :: fillFrom indent separator limit everyArg [continuationMarker, arg] args

/-- The rows of a statement: the head opens the first row, an argument joins a row when it
fits within the limit, and otherwise opens a row of its own. -/
def fillRows (indent : String) (head args : List Token) (separator : String) (limit : Int)
    (everyArg : Bool) : List (List Token) :=
  fillFrom indent separator limit everyArg head args

/-- How many data tokens of a statement stay on its first line, if it may be split. -/
def headSize (s : Statement) : Option Nat :=
  match s.type with
  | .keywordCall => some (s.assign.length + if s.name.isSome then 1 else 0)
  | .setting | .blockSetting => if s.setting? = some "Documentation" then none else some 1
  | .variable => some 1
  | _ => none

/-- The comments of a statement as one. -/
def joinComments (separator : String) : List Token → Option Token
  | [] => none
  | c :: cs => some (c.withValue (separator.intercalate ((c :: cs).map (·.value))))

/-- Rows laid out as lines.  The comment and the line ending of the statement go to the
last of them. -/
def composeRows (indent separator newline : String) (comment : Option Token)
    (ending : Token) : List (List Token) → List Token
  | [] => []
  | [row] => composeLine indent ⟨row, comment, ending⟩ separator fun _ => separator
  | row :: next :: rows =>
    (composeLine indent ⟨row, none, .create .eol newline⟩ separator fun _ => separator) ++
      composeRows indent separator newline comment ending (next :: rows)

/-- The tokens of a statement that is split behind some data tokens. -/
def splitTokens (setup : PassSetup) (everyArg : Bool) (size : Nat) (tokens : List Token) :
    List Token :=
  let indent := indentOf tokens
  let separator := setup.config.separator
  let data := dataTokens tokens
  let rows := fillRows indent (data.take size) (data.drop size) separator
    setup.config.lineLength everyArg
  composeRows indent separator setup.newline (joinComments separator (commentTokens tokens))
    (tokens.getLast?.getD noEnding) rows

/-- Whether a line of a statement is too long. -/
def isTooLong (limit : Nat) (s : Statement) : Bool :=
  (splitLines s.tokens).any fun line => limit < dataWidth line

/-- A statement whose lines are split; nothing if its text does not change. -/
def split (setup : PassSetup) (s : Statement) : Option Statement :=
  (headSize s).bind fun size =>
    if !isTooLong setup.config.lineLength s || s.hasCommentLine then none
    else
      let tokens := splitTokens setup (setup.params.flag "splitOnEveryArg" false) size s.tokens
      if renderTokens tokens = s.text then none else some (s.withTokens tokens)

/-- What the pass declares. -/
def info : PassInfo :=
  { name := "SPLIT_TOO_LONG_LINE"
    description := "Split statements longer than the line length"
    params := [⟨"splitOnEveryArg", .flag false,
      "Put every argument on its own continuation line"⟩] }

/-- **Splitting of long lines.** -/
def pass : Pass := .ofStatements info fun setup _ s => .ofOption (split setup s)

end Split
end RobotSuite
