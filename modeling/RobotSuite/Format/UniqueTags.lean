/-
# Tags in one case and without repetition

Tags are written in one case, and a tag that occurs again in its setting is removed with
the gap in front of it.  A continued line that is left with nothing goes as well.
-/

import RobotSuite.Format.Pass
import RobotSuite.Tag

namespace RobotSuite
namespace UniqueTags

/-- A token after the pass, and whether it is removed. -/
abbrev Edit := Token × Bool

/-- Tags in a given case.  A tag is removed when its key is among those `seen`. -/
def editTags (mode : TagCase) (seen : List String) : List Token → List Edit
  | [] => []
  | t :: ts =>
    if t.isData then
      let value := mode.apply t.value
      let key := Text.tagKey value
      if seen.contains key then (t, true) :: editTags mode seen ts
      else (t.withValue value, false) :: editTags mode (key :: seen) ts
    else (t, false) :: editTags mode seen ts

/-- The tokens of a tag setting: the first data token is its name, all others are tags. -/
def editSetting (mode : TagCase) : List Token → List Edit
  | [] => []
  | t :: ts =>
    if t.isData then (t, false) :: editTags mode [] ts else (t, false) :: editSetting mode ts

/-- The tokens that stay, without the gap in front of each that goes; `kept` holds those
in front, the nearest first. -/
def dropRemoved (kept : List Token) : List Edit → List Token
  | [] => kept.reverse
  | (t, false) :: edits => dropRemoved (t :: kept) edits
  | (_, true) :: edits =>
    match kept with
    | [] => dropRemoved [] edits
    | s :: more => dropRemoved (if s.isSeparator then more else kept) edits

/-- A continued line with neither cell nor comment. -/
def isEmptyContinuation (line : List Token) : Bool :=
  isBlankLine (line.filter fun t => !t.isContinuation)

/-- Lines without those behind the first that hold nothing. -/
def dropEmptyLines : List (List Token) → List (List Token)
  | [] => []
  | line :: lines => line :: lines.filter fun l => !isEmptyContinuation l

/-- A tag setting in one case and without repetition; nothing if that is what it is. -/
def unify (mode : TagCase) (s : Statement) : Option Statement :=
  if s.tagCells.isEmpty then none
  else
    let edits := editSetting mode s.tokens
    if edits.any (·.2) || edits.map (·.1) != s.tokens then
      some (s.withTokens (dropEmptyLines (splitLines (dropRemoved [] edits))).flatten)
    else none

/-- What the pass declares. -/
def info : PassInfo :=
  { name := "NORMALIZE_TAGS"
    description := "Normalize tag case and remove duplicated tags"
    params := [⟨"case", .text "lowercase",
      "Tag case: 'lowercase', 'uppercase', 'titlecase' or 'preserve'"⟩] }

/-- **Tags in one case and without repetition.** -/
def pass : Pass :=
  .ofStatements info fun setup _ s =>
    .ofOption (unify ((TagCase.ofName? (setup.params.text "case" "lowercase")).getD .lower) s)

end UniqueTags
end RobotSuite
