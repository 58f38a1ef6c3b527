/-
# Rules on definitions, headers and comments

Names that are defined twice, keywords without documentation, settings and headers that
are out of date, reminders in comments, and sections out of order.
-/

import RobotSuite.Lint.Rule
import RobotSuite.Text.Variables

namespace RobotSuite
namespace StyleRules

/-! ## Names that are defined twice -/

/-- Blocks whose name an earlier block has, each with that block; `seen` holds the blocks in
front, by key. -/
def repetitions (seen : List (String × Block)) : List Block → List (Block × Block)
  | [] => []
  | b :: bs =>
    let key := Text.nameKey b.name
    match seen.lookup key with
    | some first => (b, first) :: repetitions seen bs
    | none => repetitions ((key, b) :: seen) bs

/-- The blocks of one type in a file. -/
def blocksOf (type : BlockType) (f : File) : List Block :=
  (f.sections.flatMap fun s => s.body.filterMap SectionItem.block?).filter (·.type = type)

/-- A rule that reports blocks whose name an earlier block has; `what` names the blocks. -/
def repeatedNames (info : RuleInfo) (type : BlockType) (what : String) : Rule :=
  .ofFile info fun ctx f =>
    (repetitions [] (blocksOf type f)).map fun (b, first) =>
      ctx.report info b.header.span.start.spot
        (s!"Multiple {what} with name '{b.name}' (first occurrence in line " ++
          s!"{first.span.start.line})") none

/-- Reports test cases with the name of another. -/
def repeatedTestCase : Rule :=
  repeatedNames
    { code := "DUPLICATED_TEST_CASE", category := .duplications, severity := .error
      description := "Test case name is used more than once" } .testCase "test cases"

/-- Reports keywords with the name of another. -/
def repeatedKeyword : Rule :=
  repeatedNames
    { code := "DUPLICATED_KEYWORD", category := .duplications, severity := .error
      description := "Keyword name is used more than once" } .keyword "keywords"

/-! ## Documentation -/

/-- What the rule on documentation declares. -/
def documentationInfo : RuleInfo :=
  { code := "MISSING_DOC_KEYWORD", category := .documentation, severity := .warning
    description := "Keyword has no documentation" }

/-- Whether a body item is a documentation. -/
def isDocumentation : BodyItem → Bool
  | .statement s => s.blockSetting? = some "Documentation"
  | .control _ => false

/-- Reports keywords without documentation. -/
def documentation : Rule :=
  .ofKeywords documentationInfo fun ctx b =>
    if b.body.any isDocumentation then []
    else
      [ctx.report documentationInfo b.header.span.start.spot
        s!"Missing documentation in '{b.name}' keyword" none]

/-! ## Spellings out of date -/

/-- What the rule on forced tags declares. -/
def forceTagsInfo : RuleInfo :=
  { code := "DEPRECATED_FORCE_TAGS", category := .deprecated, severity := .warning
    description := "'Force Tags' is replaced by 'Test Tags'" }

/-- Reports `Force Tags`, now called `Test Tags`. -/
def forceTags : Rule :=
  .ofStatements forceTagsInfo (· = .setting) fun ctx s =>
    if s.suiteSetting? = some "Force Tags" then
      s.name.toList.map fun t =>
        ctx.report forceTagsInfo t.span.start.spot
          "'Force Tags' is deprecated, use 'Test Tags' instead"
          (some (Fix.replaceToken t "Test Tags" "Rename 'Force Tags' to 'Test Tags'"))
    else []

/-- What the rule on singular headers declares. -/
def headerInfo : RuleInfo :=
  { code := "DEPRECATED_SINGULAR_HEADER", category := .deprecated, severity := .warning
    description := "Section header uses the singular form" }

/-- The plural of a singular header in a section. -/
def pluralHeader? (kind : SectionKind) (header : String) : Option String :=
  if isSingularHeader header then
    if normalizeHeader header = "task" then some "*** Tasks ***" else kind.canonicalHeader?
  else none

/-- Reports section headers in the singular. -/
def singularHeader : Rule :=
  .ofStatements headerInfo (· = .sectionHeader) fun ctx s =>
    match s.name, ctx.scope.section?.filter (·.kind != .invalid) with
    | some t, some sect =>
      (pluralHeader? sect.kind t.value).toList.map fun plural =>
        ctx.report headerInfo t.span.start.spot
          s!"'{t.value}' deprecated singular header used instead of '{plural}'"
          (some (Fix.replaceToken t plural s!"Replace with '{plural}'"))
    | _, _ => []

/-! ## Reminders in comments -/

/-- Reminders that are looked for unless a configuration says otherwise. -/
def defaultMarkers : List String := ["todo", "fixme"]

/-- What the rule on reminders declares. -/
def reminderInfo : RuleInfo :=
  { code := "TODO_IN_COMMENT", category := .comments, severity := .warning
    description := "Comment contains a follow-up marker"
    params := [⟨"markers", .texts defaultMarkers, "Markers to look for, case-insensitive"⟩] }

/-- The offset of a marker in a comment, in any case. -/
def findMarker (comment marker : String) : Option Nat :=
  if marker = "" then none
  else Text.findUnits (Text.lowerChars marker.toList) (Text.lowerChars comment.toList)

/-- Reports reminders in comments, at most one of each kind in a comment. -/
def reminder : Rule :=
  .ofStatements reminderInfo (fun _ => true) fun ctx s =>
    let markers := ctx.params.texts "markers" defaultMarkers
    (commentTokens s.tokens).flatMap fun t =>
      markers.filterMap fun marker =>
        (findMarker t.value marker).map fun start =>
          let found := Text.slice t.value start (start + Text.length marker)
          ctx.report reminderInfo (t.span.start.shift start).spot
            s!"Found a marker '{found}' in the comments" none

/-! ## Order of sections -/

/-- What the rule on the order of sections declares. -/
def orderInfo : RuleInfo :=
  { code := "SECTION_OUT_OF_ORDER", category := .order, severity := .warning
    description := "Sections are not in the recommended order"
    params := [⟨"order", .texts SectionKind.recommendedOrder,
      "Section kinds in their recommended order"⟩] }

/-- The headers, with the places of their sections in the order, that stand behind one of a
later place; `highest` is the latest place so far. -/
def misplacedHeaders (highest : Nat) : List (Token × Nat) → List Token
  | [] => []
  | (t, place) :: rest =>
    if place < highest then t :: misplacedHeaders highest rest else misplacedHeaders place rest

/-- The header of a section and the place of the section in an order. -/
def headerPlace (order : List String) (s : Section) : Option (Token × Nat) :=
  match s.header.bind Statement.name, s.kind.name?.bind order.idxOf? with
  | some t, some place => some (t, place)
  | _, _ => none

/-- Reports headers that stand behind a section that should follow. -/
def order : Rule :=
  .ofFile orderInfo fun ctx f =>
    let order := ctx.params.texts "order" SectionKind.recommendedOrder
    let shown := " > ".intercalate (order.map fun name =>
      ((SectionKind.ofTitle? name).map SectionKind.display).getD name)
    (misplacedHeaders 0 (f.sections.filterMap (headerPlace order))).map fun t =>
      ctx.report orderInfo t.span.start.spot
        s!"Section '{t.value}' is out of recommended order ({shown})" none

end StyleRules
end RobotSuite
