/-
# Rules on size

The length of lines, and how much a keyword takes and does.
-/

import RobotSuite.Lint.NameRules
import RobotSuite.Format.Layout
import RobotSuite.Number.Binary

namespace RobotSuite
namespace SizeRules

/-! ## Long lines -/

/-- Lines whose text a pattern matches are exempt: by default those with a web address. -/
def defaultExempt : String := "https?://\\S+"

/-- What the rule on long lines declares. -/
def lineInfo : RuleInfo :=
  { code := "LINE_TOO_LONG", category := .lengths, severity := .warning
    description := "Line is longer than the configured limit"
    params :=
      [⟨"lineLength", .number 120, "Maximum line length"⟩,
       ⟨"ignorePattern", .text defaultExempt, "Regular expression for lines exempt from the limit"⟩] }

/-- The text of a line without blanks at its end, its tabs expanded. -/
def shownLine (line : List Char) : List Char :=
  Text.expandTabsFrom tabStop 0 (Text.trimEnd line)

/-- The lines of a source that are too long, each with its number, its offset and its
length. -/
def longLines (isLong : List Char → Bool) (number offset : Nat) :
    List (List Char) → List (Nat × Nat × Nat)
  | [] => []
  | line :: lines =>
    let rest := longLines isLong (number + 1) (offset + Text.units line + 1) lines
    let shown := shownLine line
    if isLong shown then (number, offset, Text.units shown) :: rest else rest

/-- Reports lines that are longer than the limit. -/
def line : Rule :=
  { info := lineInfo
    visits := fun t => t = .file
    validate := fun ctx node =>
      match node with
      | .container (.file _) => do
        let limit := ctx.params.number "lineLength" 120
        let exempt ← NameRules.readPattern .lenient
          (ctx.params.text "ignorePattern" defaultExempt)
        let isExempt (shown : List Char) : Bool :=
          exempt.any (·.occursIn (shown.flatMap Text.codeUnits))
        let isLong (shown : List Char) : Bool :=
          limit < (Text.units shown : Rat) && !isExempt shown
        pure ((longLines isLong 1 0 (Text.splitOn '\n' ctx.source.toList)).map
          fun (number, offset, length) =>
            ctx.report lineInfo ⟨number, Number.add limit 1, Number.add offset limit⟩
              (s!"Line is too long ({length}/" ++ Number.text limit ++ ")") none)
      | _ => pure [] }

/-! ## Large keywords -/

/-- What the rule on arguments declares. -/
def argumentsInfo : RuleInfo :=
  { code := "TOO_MANY_ARGUMENTS", category := .lengths, severity := .warning
    description := "Keyword declares too many arguments"
    params := [⟨"maxArgs", .number 5, "Maximum number of arguments"⟩] }

/-- How many arguments the items of a keyword declare. -/
def declaredArguments : List BodyItem → Nat
  | [] => 0
  | .statement s :: items =>
    (if s.blockSetting? = some "Arguments" then s.args.length else 0) + declaredArguments items
  | .control _ :: items => declaredArguments items

/-- Reports keywords that declare too many arguments. -/
def arguments : Rule :=
  .ofKeywords argumentsInfo fun ctx b =>
    let limit := ctx.params.number "maxArgs" 5
    let count := declaredArguments b.body
    if limit < (count : Rat) then
      [ctx.report argumentsInfo b.header.span.start.spot
        (s!"Keyword '{b.name}' has too many arguments ({count}/" ++ Number.text limit ++ ")")
        none]
    else []

mutual

/-- Keyword calls in a body item, control blocks and their branches included. -/
def itemCalls : BodyItem → Nat
  | .statement s => if s.type = .keywordCall then 1 else 0
  | .control c => controlCalls c

/-- Keyword calls in a control block. -/
def controlCalls : ControlBlock → Nat
  | ⟨_, _, _, body, branches, _, _⟩ => bodyCalls body + branchCalls branches

/-- Keyword calls in a body. -/
def bodyCalls : List BodyItem → Nat
  | [] => 0
  | i :: is => itemCalls i + bodyCalls is

/-- Keyword calls in branches. -/
def branchCalls : List Branch → Nat
  | [] => 0
  | ⟨_, _, body, _⟩ :: bs => bodyCalls body + branchCalls bs

end

/-- What the rule on calls declares. -/
def callsInfo : RuleInfo :=
  { code := "TOO_MANY_CALLS_IN_KEYWORD", category := .lengths, severity := .warning
    description := "Keyword calls too many other keywords"
    params := [⟨"maxCalls", .number 10, "Maximum number of keyword calls"⟩] }

/-- Reports keywords that call too many keywords. -/
def calls : Rule :=
  .ofKeywords callsInfo fun ctx b =>
    let limit := ctx.params.number "maxCalls" 10
    let count := bodyCalls b.body
    if limit < (count : Rat) then
      [ctx.report callsInfo b.header.span.start.spot
        (s!"Keyword '{b.name}' has too many keywords inside ({count}/" ++ Number.text limit ++
          ")") none]
    else []

end SizeRules
end RobotSuite
