/-
# Rules on names

How keywords are named and called, and how ELSE is written.
-/

import RobotSuite.Lint.Rule
import RobotSuite.Pattern.Reader
import RobotSuite.Text.Variables
import RobotSuite.Text.Letter

namespace RobotSuite
namespace NameRules

/-! ## Prefixes of behaviour -/

/-- Words in front of keywords that describe behaviour. -/
def behaviourWords : List String := ["Given", "When", "Then", "And", "But"]

/-- Suite settings whose first argument is a keyword. -/
def suiteFixtures : List String :=
  ["Suite Setup", "Suite Teardown", "Test Setup", "Test Teardown", "Task Setup", "Task Teardown"]

/-- Bracketed settings whose first argument is a keyword. -/
def blockFixtures : List String := ["Setup", "Teardown"]

/-- The keyword that a statement calls, and the cell behind it. -/
def calledKeyword (s : Statement) : Option (Token × Option Token) :=
  if s.type = .keywordCall then s.name.map fun t => (t, s.args.head?)
  else if s.suiteSetting?.any suiteFixtures.contains ||
      s.blockSetting?.any blockFixtures.contains then
    s.args.head?.map fun t => (t, s.args.tail.head?)
  else none

/-- What the rule on prefixes declares. -/
def behaviourInfo : RuleInfo :=
  { code := "BDD_WITHOUT_KEYWORD_CALL", category := .naming, severity := .warning
    description := "BDD prefix is not followed by a keyword in the same cell"
    params := [⟨"words", .texts behaviourWords, "Reserved BDD prefixes, matched case-sensitively"⟩] }

/-- Reports a prefix that fills a whole cell. -/
def behaviour : Rule :=
  .ofStatements behaviourInfo
    (fun t => t = .keywordCall || t = .setting || t = .blockSetting) fun ctx s =>
    match calledKeyword s with
    | none => []
    | some (t, next) =>
      if (ctx.params.texts "words" behaviourWords).contains t.value then
        let hint := match next with
          | none => ""
          | some n => s!". Use one space between: '{t.value} {n.value}'"
        [ctx.report behaviourInfo t.span.start.spot
          (s!"BDD reserved keyword '{t.value}' not followed by any keyword" ++ hint) none]
      else []

/-! ## Case of keyword names -/

/-- Words with a meaning of their own. -/
def reservedWords : List String :=
  ["for", "end", "if", "else if", "else", "while", "continue", "return", "try", "except",
   "finally"]

/-- Which words of a keyword name start with a capital. -/
inductive CaseConvention where
  | eachWord
  | firstWord
deriving Repr, DecidableEq, Inhabited

/-- The convention of a given name. -/
def CaseConvention.ofName? : String → Option CaseConvention
  | "each_word_capitalized" => some .eachWord
  | "first_word_capitalized" => some .firstWord
  | _ => none

/-- A character inside a word of a keyword name. -/
def isNameChar (c : Char) : Bool :=
  Text.isLetter c || Text.isNumber c || c = '(' || c = ')' || c = '-'

/-- Whether a word starts with a small letter. -/
def startsSmall : List Char → Bool
  | [] => false
  | c :: _ => Text.charUnits c = 1 && Text.upperChar c != [c] && Text.lowerChars [c] == [c]

/-- Words of a keyword name, apart from apostrophes. -/
def nameWords (cs : List Char) : List (List Char) :=
  Text.splitOn ' ' ((cs.filter (· != '\'')).map fun c => if isNameChar c then c else ' ')

/-- Whether a keyword name breaks a convention.  Variables, the library in front of a dot,
and what a pattern matches do not count. -/
def breaksConvention (name : String) (convention : CaseConvention)
    (exempt : Option Pattern) : Bool :=
  let bare := Text.removeVariables name
  let bare := match exempt with
    | none => bare
    | some p => p.removeFromText bare
  let words := nameWords (((Text.splitOn '.' bare.toList).getLast?).getD [])
  let words := match convention with
    | .eachWord => words
    | .firstWord => words.take 1
  words.any startsSmall

/-- What the rule on the case of names declares. -/
def caseInfo : RuleInfo :=
  { code := "WRONG_CASE_IN_KEYWORD_NAME", category := .naming, severity := .warning
    description := "Keyword name does not follow the case convention"
    params :=
      [⟨"convention", .text "each_word_capitalized",
        "each_word_capitalized or first_word_capitalized"⟩,
       ⟨"pattern", .text "", "Regular expression for text exempt from the convention"⟩] }

/-- The pattern that a text writes; none for the empty text. -/
def readPattern (mode : Pattern.Mode) (s : String) : Except String (Option Pattern) :=
  if s = "" then pure none
  else match Pattern.read mode s with
    | .ok p => pure (some p)
    | .error f => throw (Pattern.report mode s f)

/-- Whether a keyword name breaks the convention of a given name; each word starts with a
capital unless that name says otherwise. -/
def breaksNamed (name convention exempt : String) : Except String Bool := do
  let exempt ← readPattern .strict exempt
  pure (breaksConvention name ((CaseConvention.ofName? convention).getD .eachWord) exempt)

/-- What the rule on the case of names reports for a name. -/
def checkCase (ctx : RuleContext) (t : Token) : Except String (List Diagnostic) := do
  if t.value.toList.head? = some '#' || reservedWords.contains (Text.lower t.value) then
    return []
  if ← breaksNamed t.value (ctx.params.text "convention" "") (ctx.params.text "pattern" "") then
    pure [ctx.report caseInfo t.span.start.spot
      s!"Keyword name '{t.value}' does not follow case convention" none]
  else pure []

/-- Reports keyword names that break the configured convention. -/
def nameCase : Rule :=
  { info := caseInfo
    visits := fun t => t = .statement .keywordName || t = .statement .keywordCall
    validate := fun ctx node =>
      match node with
      | .statement s => (s.name.map (checkCase ctx)).getD (pure [])
      | .container _ => pure [] }

/-! ## ELSE in capitals -/

/-- Whether a cell is an ELSE or ELSE IF that is not written in capitals. -/
def isSmallElse (t : Token) : Bool :=
  ["else", "else if"].contains (Text.lower t.value) && t.value != Text.upper t.value

/-- What the rule on ELSE declares. -/
def elseInfo : RuleInfo :=
  { code := "ELSE_NOT_UPPER_CASE", category := .naming, severity := .error
    description := "ELSE or ELSE IF is not written in upper case" }

/-- The cells of a statement that might be meant as ELSE. -/
def elseCandidates (ctx : RuleContext) (s : Statement) : List Token :=
  if s.type = .inlineIf then s.args
  else if s.type = .keywordCall && (ctx.scope.nearest? (.control .ifBlock)).isSome then
    s.name.toList
  else []

/-- Reports an ELSE or ELSE IF that is not written in capitals. -/
def upperElse : Rule :=
  .ofStatements elseInfo (fun t => t = .keywordCall || t = .inlineIf) fun ctx s =>
    ((elseCandidates ctx s).filter isSmallElse).map fun t =>
      let upper := Text.upper t.value
      ctx.report elseInfo t.span.start.spot "ELSE and ELSE IF is not uppercase"
        (some (Fix.replaceToken t upper s!"Replace '{t.value}' with '{upper}'"))

end NameRules
end RobotSuite
