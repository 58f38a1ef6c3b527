/-
# Rules on indentation and empty space

Indentation, blanks at the end of lines, runs of empty lines, and tabs beside spaces.
-/

import RobotSuite.Lint.Rule
import RobotSuite.Number.Binary

namespace RobotSuite
namespace SpaceRules

/-! ## Indentation -/

/-- The statements that lead the items of a container, and the type of each item that is a
statement itself. -/
def leadingItems : Container → List (Statement × Option StatementType)
  | .file _ => []
  | .sect s => s.body.map fun i => (i.leading, i.statement?.map (·.type))
  | .block b => b.body.map leadingItem
  | .control c => c.body.map leadingItem
  | .branch b => b.body.map leadingItem
where
  /-- The statement that leads a body item. -/
  leadingItem (i : BodyItem) : Statement × Option StatementType :=
    (i.leading, match i with
      | .statement s => some s.type
      | .control _ => none)

/-- Whether an item can give a comment its indentation. -/
def isAnchor (i : Statement × Option StatementType) : Bool :=
  i.2 != some .comment && i.2 != some .emptyLine

/-- The indentation that a comment follows: that of the nearest item in front of it that
is neither a comment nor an empty line, or else of the nearest behind it. -/
def neighbourIndent (s : Statement) (items : List (Statement × Option StatementType)) :
    Option Nat :=
  let front := items.takeWhile fun i => !(i.2.isSome && i.1 = s)
  if front.length = items.length then none
  else
    let anchor :=
      (front.reverse.find? isAnchor) <|> ((items.drop (front.length + 1)).find? isAnchor)
    anchor.map fun i => i.1.indent 4

/-- What the rule on indentation declares. -/
def indentInfo : RuleInfo :=
  { code := "BAD_INDENT", category := .spacing, severity := .warning
    description := "Line indentation does not match its nesting depth"
    params := [⟨"indent", .number 4, "Columns per nesting level"⟩] }

/-- The indentation that a statement should have. -/
def expectedIndent (ctx : RuleContext) (s : Statement) : Rat :=
  let byDepth := Number.mul (ctx.scope.depth s) (ctx.params.number "indent" 4)
  if s.type = .comment then
    ((ctx.scope.parent?.bind fun c => neighbourIndent s (leadingItems c)).map
      fun n : Nat => (n : Rat)).getD byDepth
  else byDepth

/-- Reports statements that are indented too far or not far enough. -/
def indent : Rule :=
  .ofStatements indentInfo
    (fun t => t != .emptyLine && t != .sectionHeader && t != .error) fun ctx s =>
    let laidOut := ctx.scope.section?.any fun sect =>
      sect.kind != .comments && sect.kind != .invalid
    let actual : Rat := s.indent 4
    let expected := expectedIndent ctx s
    match s.tokens.find? fun t => !t.isSeparator with
    | some cell =>
      if !laidOut || actual = expected then []
      else
        [ctx.report indentInfo cell.span.start.spot
          (if expected < actual then "Line is over-indented" else "Line is under-indented")
          none]
    | none => []

/-! ## Blanks at the end of lines -/

/-- What the rule on blanks at the end of lines declares. -/
def trailingInfo : RuleInfo :=
  { code := "TRAILING_WHITESPACE", category := .spacing, severity := .warning
    description := "Line ends with whitespace" }

/-- The gap at the end of a line. -/
def trailingGap? (line : List Token) : Option Token :=
  ((line.filter fun t => !t.isEol).getLast?).filter (·.isSeparator)

/-- Reports gaps at the end of lines. -/
def trailing : Rule :=
  .ofStatements trailingInfo (fun _ => true) fun ctx s =>
    ((splitLines s.tokens).filterMap trailingGap?).map fun t =>
      ctx.report trailingInfo t.span.start.spot "Trailing whitespace at the end of line"
        (some (Fix.replaceToken t "" "Remove trailing whitespace"))

/-! ## Runs of empty lines -/

/-- What the rule on runs of empty lines declares. -/
def emptyRunInfo : RuleInfo :=
  { code := "CONSECUTIVE_EMPTY_LINES", category := .spacing, severity := .warning
    description := "Too many consecutive empty lines"
    params := [⟨"emptyLines", .number 1, "Allowed consecutive empty lines"⟩] }

/-- Runs of empty lines inside sections and blocks: those behind which a statement stands
that opens none.  The run right in front is `run`. -/
def innerRuns (run : List Statement) : List Statement → List (List Statement)
  | [] => []
  | s :: ss =>
    if s.type = .emptyLine then innerRuns (run ++ [s]) ss
    else if s.type = .sectionHeader || s.type = .testCaseName || s.type = .keywordName then
      innerRuns [] ss
    else run :: innerRuns [] ss

/-- The element of a list at a place, if the place is a whole number. -/
def elementAt {α : Type} (xs : List α) (place : Rat) : Option α :=
  if place.den = 1 && 0 ≤ place.num then xs[place.num.toNat]? else none

/-- Reports runs of empty lines that are longer than allowed. -/
def emptyRun : Rule :=
  .ofFile emptyRunInfo fun ctx f =>
    let allowed := ctx.params.number "emptyLines" 1
    (innerRuns [] f.statements).filterMap fun run =>
      (elementAt run allowed).map fun s =>
        ctx.report emptyRunInfo s.span.start.spot
          (s!"Too many consecutive empty lines ({run.length}/" ++ Number.text allowed ++ ")")
          none

/-! ## Tabs beside spaces -/

/-- What the rule on tabs beside spaces declares. -/
def mixedInfo : RuleInfo :=
  { code := "MIXED_TABS_AND_SPACES", category := .spacing, severity := .warning
    description := "File mixes tabs and spaces as separators" }

/-- Whether a gap holds a tab. -/
def hasTab (t : Token) : Bool := t.value.toList.contains '\t'

/-- The first gap of another style than the first gap of all. -/
def firstOfOtherStyle : List Token → Option Token
  | [] => none
  | first :: gaps => gaps.find? fun t => hasTab t != hasTab first

/-- Reports the first gap of another style than the first gap of the file. -/
def mixed : Rule :=
  .ofFile mixedInfo fun ctx f =>
    let gaps := (f.statements.flatMap (·.tokens)).filter (·.isSeparator)
    (firstOfOtherStyle gaps).toList.map fun t =>
      ctx.report mixedInfo t.span.start.spot "Inconsistent use of tabs and spaces in file" none

end SpaceRules
end RobotSuite
