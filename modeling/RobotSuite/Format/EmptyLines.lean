/-
# Empty lines

A configured number of empty lines follows each section but the last and each block but
the last of its section.  Elsewhere one empty line at most stands in a row, and none at
the start of a body.  Empty lines that a directive protects stay as they are.
-/

import RobotSuite.Format.Pass
import RobotSuite.Format.Ending

namespace RobotSuite
namespace EmptyLines

/-- How many empty lines follow sections and blocks. -/
structure Spacing where
  /-- Behind a section. -/
  sections : Nat
  /-- Between test cases. -/
  testCases : Nat
  /-- Between keywords. -/
  keywords : Nat
  /-- The line ending of an empty line. -/
  newline : String
deriving Repr, DecidableEq, Inhabited

/-! ## Runs of empty lines -/

section
variable {α : Type} (isEmpty : α → Bool)

/-- An empty line that no directive protects. -/
def isRemovable (x : Marked α) : Bool := isEmpty x.1 && !x.2

/-- Items with one empty line at most in a row; `behind` tells whether an empty line
stands in front. -/
def collapse (behind : Bool) : List (Marked α) → List (Marked α)
  | [] => []
  | x :: xs =>
    if isRemovable isEmpty x && behind then collapse (isEmpty x.1) xs
    else x :: collapse (isEmpty x.1) xs

/-- Items without empty lines at the start. -/
def stripStart (xs : List (Marked α)) : List (Marked α) := xs.dropWhile (isRemovable isEmpty)

/-- Items without empty lines at the end. -/
def stripEnd (xs : List (Marked α)) : List (Marked α) :=
  Text.dropEndWhile (isRemovable isEmpty) xs

/-- Items with one empty line at most in a row and none at the start. -/
def tidy (xs : List (Marked α)) : List (Marked α) :=
  stripStart isEmpty (collapse isEmpty false xs)

end

/-- Empty lines that stand in no source, unless there are too many. -/
def padding (newline : String) (count : Nat) : Except Overflow (List Statement) :=
  copies? count (Statement.emptyLine newline)

/-- Items with the empty lines behind them, unless these are none and nothing has gone. -/
def withPadding {α : Type} (item : Statement → α) (total : Nat)
    (front closing : List (Marked α)) :
    Except Overflow (List Statement) → Decision (List (Marked α))
  | .error reason => .breakOff (.overflow reason)
  | .ok lines =>
    let result := front ++ lines.map (fun s => (item s, false)) ++ closing
    if lines.isEmpty && result.length = total then .keep else .put result

/-- Some of the items, unless they are all. -/
def keepSome {α : Type} (total : Nat) (items : List (Marked α)) : Decision (List (Marked α)) :=
  if items.length = total then .keep else .put items

/-! ## Bodies -/

/-- Whether a body item is an empty line. -/
def isEmptyItem (i : BodyItem) : Bool := i.isOfType .emptyLine

/-- Whether a body item is a comment. -/
def isCommentItem (i : Marked BodyItem) : Bool := i.1.isOfType .comment

/-- A body cut in front of the comments that close it, when another block follows and
they are not all there is. -/
def splitClosing (followed : Bool) (items : List (Marked BodyItem)) :
    List (Marked BodyItem) × List (Marked BodyItem) :=
  let front := Text.dropEndWhile isCommentItem items
  if followed && !front.isEmpty then (front, Text.takeEndWhile isCommentItem items)
  else (items, [])

/-- Empty lines behind a block. -/
def linesBehind (spacing : Spacing) (place : Place) (type : BlockType) : Nat :=
  if place.blockFollows then
    match type with
    | .testCase => spacing.testCases
    | .keyword => spacing.keywords
  else if place.sectionFollows then spacing.sections else 0

/-- The items of a block and the empty lines behind it.  Between blocks the empty lines go
in front of the comments that close the block, which belong to the next one.  A body that
ends where a directive protects it keeps its end. -/
def spaceBlock (spacing : Spacing) (place : Place) (type : BlockType) (header : Bool)
    (items : List (Marked BodyItem)) : Decision (List (Marked BodyItem)) :=
  let content := tidy isEmptyItem items
  if lastMark header items then keepSome items.length content
  else
    let (front, closing) := splitClosing place.blockFollows (stripEnd isEmptyItem content)
    withPadding .statement items.length (stripEnd isEmptyItem front) closing
      (padding spacing.newline (linesBehind spacing place type))

/-- The items of a control block or branch. -/
def spaceBody (items : List (Marked BodyItem)) : Decision (List (Marked BodyItem)) :=
  keepSome items.length (collapse isEmptyItem false items)

/-! ## Sections -/

/-- Whether a section item is an empty line. -/
def isEmptySectionItem (i : SectionItem) : Bool := i.isOfType .emptyLine

/-- The items of a section and the empty lines behind it.  The empty lines behind a
section with blocks are those behind its last block. -/
def spaceSection (spacing : Spacing) (place : Place) (header : Option Bool)
    (items : List (Marked SectionItem)) : Decision (List (Marked SectionItem)) :=
  let lead := tidy isEmptySectionItem (items.takeWhile fun i => !i.1.isBlock)
  if items.any (·.1.isBlock) then
    keepSome items.length (lead ++ items.filter (·.1.isBlock))
  else if lastMark (header.getD false) items then keepSome items.length lead
  else
    let content := stripEnd isEmptySectionItem lead
    let isEmpty := content.isEmpty && header.isNone
    let count := if !place.sectionFollows || isEmpty then 0 else spacing.sections
    withPadding .statement items.length content [] (padding spacing.newline count)

/-! ## The pass -/

/-- The last statement of a file and its number, if the last section holds one. -/
def finalStatement? (f : File) : Option (Nat × Statement) :=
  (f.sections.getLast?.bind fun s => s.statements.getLast?).map fun s =>
    (f.statements.length - 1, s)

/-- Whether a statement, given with its number, is the last of its file. -/
def isFinal (final : Option (Nat × Statement)) (index : Nat) (s : Statement) : Bool :=
  final.any fun (number, last) =>
    if last.label.isSome then s.label = last.label else index = number

/-- What the pass declares. -/
def info : PassInfo :=
  { name := "NORMALIZE_NEW_LINES"
    description := "Normalize empty lines between sections, blocks and statements"
    params :=
      [⟨"sectionLines", .number 2, "Empty lines after a section"⟩,
       ⟨"testCaseLines", .number 1, "Empty lines between test cases"⟩,
       ⟨"keywordLines", .number 1, "Empty lines between keywords"⟩] }

/-- A number of lines, which is not negative and has no fraction. -/
def lineCount (q : Rat) : Nat := q.floor.toNat

/-- The spacing that is configured. -/
def spacingOf (setup : PassSetup) : Spacing :=
  { sections := lineCount (setup.params.number "sectionLines" 2)
    testCases := lineCount (setup.params.number "testCaseLines" 1)
    keywords := lineCount (setup.params.number "keywordLines" 1)
    newline := setup.newline }

/-- The items of a body that is left. -/
def leaveBody (spacing : Spacing) (place : Place) (header : Bool)
    (items : List (Marked BodyItem)) : Decision (List (Marked BodyItem)) :=
  match place.scope.parent? with
  | some (.block b) => spaceBlock spacing place b.type header items
  | _ => spaceBody items

/-- **Empty lines.**  The last statement of the file gets a line break. -/
def pass : Pass :=
  .ofTransform info fun setup f =>
    let spacing := spacingOf setup
    let final := finalStatement? f
    { name := info.name
      statement := fun scope index s =>
        if isFinal final index s && !scope.disables info.name s &&
            !(s.lastEol.any fun t => t.value != "") then
          .put (s.terminate spacing.newline)
        else .keep
      leaveBody := leaveBody spacing
      leaveSection := fun place header => spaceSection spacing place (header.map (·.2)) }

end EmptyLines
end RobotSuite
