/-
# Rules on tags

Tags stand in suite settings, in `[Tags]`, and in the last line of the documentation of a
keyword when that starts with `Tags:`.
-/

import RobotSuite.Lint.Rule
import RobotSuite.Tag

namespace RobotSuite
namespace TagRules

/-! ## Collecting tags -/

/-- A tag in a source. -/
structure TagRef where
  /-- The tag. -/
  value : String
  /-- Where it starts. -/
  location : Location
  /-- The cell that holds the tag and nothing else, with the token in front of it. -/
  cell : Option (Token × Token) := none
deriving Repr, DecidableEq, Inhabited

/-- The data tokens among some tokens, each with the token in front of it. -/
def withPrevious (previous : Option Token) : List Token → List (Option Token × Token)
  | [] => []
  | t :: ts =>
    if t.isData then (previous, t) :: withPrevious (some t) ts else withPrevious (some t) ts

/-- The arguments of a tag setting as tags. -/
def cellTags (s : Statement) : List TagRef :=
  (withPrevious none s.tokens).tail.map fun (previous, t) =>
    { value := t.value, location := t.span.start, cell := previous.map fun p => (p, t) }

/-- The tags in pieces of a cell, the first of which starts at a place. -/
def pieceTags (at_ : Location) : List (List Char) → List TagRef
  | [] => []
  | piece :: pieces =>
    let tag := Text.trimBlank piece
    let lead := piece.takeWhile Text.isBlank
    let rest := pieceTags (at_.shift (Text.units piece + 1)) pieces
    if tag.isEmpty then rest
    else { value := String.ofList tag, location := at_.shift (Text.units lead) } :: rest

/-- The tags of a text that starts at a place, separated by commas. -/
def listedTags (at_ : Location) (cs : List Char) : List TagRef :=
  pieceTags at_ (Text.splitOn ',' cs)

/-- The mark in front of the tags in a documentation. -/
def tagsMark : List Char := "tags:".toList

/-- Tokens without the first that carries data. -/
def dropName : List Token → List Token
  | [] => []
  | t :: ts => if t.isData then ts else t :: dropName ts

/-- The tags in the last line of a documentation. -/
def documentationTags (s : Statement) : List TagRef :=
  let last := ((splitLines (dropName s.tokens)).getLast?).getD []
  match last.filter fun t => t.kind = .argument with
  | [] => []
  | first :: more =>
    let cs := first.value.toList
    if tagsMark.isPrefixOf (Text.lowerChars cs) then
      listedTags (first.span.start.shift tagsMark.length) (cs.drop tagsMark.length) ++
        more.flatMap fun t => listedTags t.span.start t.value.toList
    else []

/-- The tags of a statement, in order. -/
def collectTags (ctx : RuleContext) (s : Statement) : List TagRef :=
  if s.holdsTags then cellTags s
  else if s.blockSetting? = some "Documentation" && ctx.inKeyword then documentationTags s
  else []

/-- Settings, bracketed or not. -/
def isSetting (t : StatementType) : Bool := t = .setting || t = .blockSetting

/-- A rule that reports single tags. -/
def onTags (info : RuleInfo) (isBad : String → Bool) (message : String → String) : Rule :=
  .ofStatements info isSetting fun ctx s =>
    ((collectTags ctx s).filter fun t => isBad t.value).map fun t =>
      ctx.report info t.location.spot (message t.value) none

/-! ## Repetition -/

/-- Tags that occur again, each with its first occurrence; `seen` holds the tags in front,
with their keys. -/
def repetitions (seen : List (String × TagRef)) : List TagRef → List (TagRef × TagRef)
  | [] => []
  | t :: ts =>
    let key := Text.tagKey t.value
    match seen.lookup key with
    | some first => (t, first) :: repetitions seen ts
    | none => repetitions ((key, t) :: seen) ts

/-- The fix that removes a cell and the gap in front of it. -/
def removeCell (t : TagRef) : Option Fix :=
  match t.cell with
  | some (previous, cell) =>
    if previous.isSeparator then
      some
        { description := s!"Remove duplicated tag '{t.value}'"
          applicable := true
          range := ⟨previous.span.start, cell.span.stop⟩
          replacement := "" }
    else none
  | none => none

/-- What the rule on repeated tags declares. -/
def duplicatedInfo : RuleInfo :=
  { code := "DUPLICATED_TAGS", category := .tags, severity := .warning
    description := "Tag is listed more than once in the same setting" }

/-- Reports each repetition of a tag in a statement. -/
def duplicated : Rule :=
  .ofStatements duplicatedInfo isSetting fun ctx s =>
    (repetitions [] (collectTags ctx s)).map fun (t, first) =>
      ctx.report duplicatedInfo t.location.spot
        (s!"Multiple tags with name '{t.value}' (first occurrence at line " ++
          s!"{first.location.line} column {first.location.column})")
        (removeCell t)

/-! ## Spelling -/

/-- What the rule on spaces in tags declares. -/
def spaceInfo : RuleInfo :=
  { code := "TAG_WITH_SPACE", category := .tags, severity := .warning
    description := "Tag contains spaces" }

/-- Reports tags with spaces outside of variables. -/
def withSpace : Rule :=
  onTags spaceInfo (fun tag => (Text.dropVariables tag.toList).contains ' ')
    fun tag => s!"Tag '{tag}' contains spaces"

/-- A character of a word: an ASCII letter or digit or an underscore. -/
def isWordChar (c : Char) : Bool := c.isAlphanum || c = '_'

/-- The longest runs of word characters; `run` holds those right in front. -/
def wordRuns (run : List Char) : List Char → List (List Char)
  | [] => [run]
  | c :: cs => if isWordChar c then wordRuns (run ++ [c]) cs else run :: wordRuns [] cs

/-- What the rule on operators in tags declares. -/
def operatorInfo : RuleInfo :=
  { code := "TAG_WITH_OR_AND", category := .tags, severity := .info
    description := "Tag contains the reserved word OR or AND" }

/-- Reports tags that hold one of the words OR and AND. -/
def withOperator : Rule :=
  onTags operatorInfo
    (fun tag =>
      let runs := wordRuns [] (Text.dropVariables tag.toList)
      runs.contains ['O', 'R'] || runs.contains ['A', 'N', 'D'])
    fun tag => s!"Tag '{tag}' with reserved word OR/AND"

/-- Tags with a meaning of their own. -/
def reservedTags : List String :=
  ["robot:exit", "robot:flatten", "robot:no-dry-run", "robot:continue-on-failure",
   "robot:recursive-continue-on-failure", "robot:skip", "robot:skip-on-failure",
   "robot:stop-on-failure", "robot:recursive-stop-on-failure", "robot:exclude",
   "robot:private"]

/-- What the rule on reserved tags declares. -/
def reservedInfo : RuleInfo :=
  { code := "TAG_WITH_RESERVED_WORD", category := .tags, severity := .warning
    description := "Tag uses the reserved robot: prefix" }

/-- Reports tags that look like reserved tags and are none. -/
def withReservedWord : Rule :=
  onTags reservedInfo
    (fun tag =>
      let lower := Text.lower tag
      Text.removeVariables tag = tag && "robot:".toList.isPrefixOf lower.toList &&
        !reservedTags.contains lower)
    fun tag => s!"Tag '{tag}' prefixed with reserved word \x60robot:\x60"

/-! ## Tags of a test case and of its suite -/

/-- What the rule on empty tag settings declares. -/
def emptyInfo : RuleInfo :=
  { code := "EMPTY_TAGS", category := .tags, severity := .warning
    description := "[Tags] setting without values" }

/-- Whether a statement is a `[Tags]` setting. -/
def isTags (s : Statement) : Bool := s.blockSetting? = some "Tags"

/-- Reports `[Tags]` without values. -/
def empty : Rule :=
  .ofStatements emptyInfo (· = .blockSetting) fun ctx s =>
    if isTags s && s.args.isEmpty then
      let hint :=
        if ctx.inKeyword then ""
        else ". Consider using NONE if you want to overwrite the Default Tags"
      let at_ := (s.name.map fun t => t.span.start).getD s.span.start
      [ctx.report emptyInfo at_.spot ("[Tags] setting without values" ++ hint) none]
    else []

/-- Suite settings that give each test a tag. -/
def testTagSettings : List String := ["Force Tags", "Test Tags", "Task Tags"]

/-- The tags that a file gives each test, by key, with the setting that does so. -/
def suiteTags (f : File) : List (String × String) :=
  let settings := (f.sections.filter (·.kind = .settings)).flatMap fun s =>
    s.body.filterMap SectionItem.statement?
  (settings.filter fun s => s.suiteSetting?.any testTagSettings.contains).flatMap fun s =>
    s.args.map fun t => (Text.tagKey t.value, s.nameText)

/-- What the rule on tags that the suite sets declares. -/
def alreadySetInfo : RuleInfo :=
  { code := "TAG_ALREADY_SET_IN_TEST_TAGS", category := .tags, severity := .info
    description := "Tag is already set by the suite test tags" }

/-- Reports tags of a test case that the suite gives it anyway. -/
def alreadySet : Rule :=
  .ofStatements alreadySetInfo (· = .blockSetting) fun ctx s =>
    if isTags s && ctx.inTestCase then
      let known := suiteTags ctx.file
      s.args.filterMap fun t =>
        (known.lookup (Text.tagKey t.value)).map fun setting =>
          ctx.report alreadySetInfo t.span.start.spot
            s!"Tag '{t.value}' is already set by {setting} in suite settings" none
    else []

end TagRules
end RobotSuite
