/-
# The type of a statement

What a statement is for follows from the section it stands in and from its first cells.
Markers of control statements are compared with their case.  `classify_tokens`: a
statement keeps the tokens it was made of.
-/

import RobotSuite.Tree

namespace RobotSuite

/-- The type of an indented statement of a test case or keyword. -/
def bodyType (data : List Token) : StatementType :=
  let assigned := data.takeWhile fun t => isAssignment t.value
  let marker := ((data.drop assigned.length).head?.map (·.value)).getD ""
  if !assigned.isEmpty then
    if marker = "IF" then .inlineIf else .keywordCall
  else if SettingName.isBracketed marker then .blockSetting
  else match StatementType.ofMarker? marker with
    | none => .keywordCall
    | some .ifHeader => if 2 < data.length then .inlineIf else .ifHeader
    | some type => type

/-- Whether a setting has a known name; true for all other statements. -/
def Statement.hasKnownSetting (s : Statement) : Bool :=
  s.suiteSetting?.all SettingName.suite.contains &&
    s.blockSetting?.all SettingName.block.contains

/-- A statement, and the defect of a setting with an unknown name. -/
def checkSetting (s : Statement) : Statement × List ParseError :=
  if s.hasKnownSetting then (s, [])
  else
    let at_ := (s.name.map fun t => t.span.start).getD s.span.start
    (s, [⟨.unknownSetting s.nameText, at_⟩])

/-- The type of a statement that has data and does not start with a continuation
marker. -/
def dataType (kind : SectionKind) (data : List Token) : StatementType :=
  match kind with
  | .settings => .setting
  | .variables => .variable
  | .comments | .invalid | .inherited _ => .comment
  | .testCases => if data.head?.any (·.kind == .name) then .testCaseName else bodyType data
  | .keywords => if data.head?.any (·.kind == .name) then .keywordName else bodyType data

/-- A statement that could not be placed, and the defect found at its start. -/
def misplaced (defect : Defect) (tokens : List Token) : Statement × List ParseError :=
  let s := Statement.ofDefect defect tokens
  (s, [⟨defect, s.span.start⟩])

/-- The statement that some tokens make in a section.  One with data has no type in a section
with an inherited name. -/
def classify (kind : SectionKind) (tokens : List Token) : Statement × List ParseError :=
  match tokens.find? fun t => t.kind == .unknown with
  | some t =>
    (Statement.ofDefect .controlCharacters tokens, [⟨.controlCharacters, t.span.start⟩])
  | none =>
    let data := dataTokens tokens
    if isContinuationLine tokens then misplaced .strayContinuation tokens
    else if data.isEmpty then
      (Statement.create (if (commentTokens tokens).isEmpty then .emptyLine else .comment) tokens, [])
    else if kind.isInherited then misplaced .untyped tokens
    else checkSetting (Statement.create (dataType kind data) tokens)

/-- A statement keeps the tokens it was made of. -/
theorem classify_tokens (kind : SectionKind) (tokens : List Token) :
    (classify kind tokens).1.tokens = tokens := by
  unfold classify checkSetting misplaced
  split
  · rfl
  · simp only
    split
    · rfl
    · split
      · rfl
      · split
        · rfl
        · split <;> rfl

end RobotSuite
