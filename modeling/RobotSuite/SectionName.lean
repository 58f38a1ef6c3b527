/-
# Section headers

The kinds of section and the header cells that open them.  A header is compared
without its asterisks, blanks and case: `*** Test Cases ***` is read as `testcases`.
Singular names are read as well, but are out of date.

Names are looked up in a table that answers to two names nobody put into it.  A header
with one of these opens a section too, of a kind that is no kind: nothing else knows it.
-/

import RobotSuite.Text.Blank
import RobotSuite.Text.Case

namespace RobotSuite

/-- The names to which the table of section kinds answers although they are not in it. -/
inductive InheritedName where
  /-- The name `constructor`. -/
  | maker
  /-- The name `__proto__`. -/
  | prototype
deriving Repr, DecidableEq, Inhabited

namespace InheritedName

/-- A name as a header has it. -/
def key : InheritedName → String
  | maker => "constructor"
  | prototype => "__proto__"

/-- What the table answers, in a message. -/
def title : InheritedName → String
  | maker => "function Object() \x7b [native code] \x7d"
  | prototype => "[object Object]"

/-- The inherited name that a text is. -/
def ofKey? (s : String) : Option InheritedName := [maker, prototype].find? fun n => n.key = s

end InheritedName

/-- What a section holds. -/
inductive SectionKind where
  | settings
  | variables
  | testCases
  | keywords
  | comments
  /-- A section whose header names no kind. -/
  | invalid
  /-- A section whose header has an inherited name. -/
  | inherited (name : InheritedName)
deriving Repr, DecidableEq, Inhabited

namespace SectionKind

/-- Whether a kind comes of an inherited name. -/
def isInherited : SectionKind → Bool
  | .inherited _ => true
  | _ => false

/-- The inherited kinds are those of inherited names. -/
theorem isInherited_iff {kind : SectionKind} :
    kind.isInherited = true ↔ ∃ name, kind = .inherited name := by
  cases kind <;> simp [isInherited]

/-- Kinds that have a name, `invalid` among them. -/
def all : List SectionKind :=
  [.comments, .settings, .variables, .testCases, .keywords, .invalid]

/-- The name of a kind in messages. -/
def title : SectionKind → String
  | .settings => "Settings"
  | .variables => "Variables"
  | .testCases => "TestCases"
  | .keywords => "Keywords"
  | .comments => "Comments"
  | .invalid => "Invalid"
  | .inherited name => name.title

/-- The name by which configurations speak of a kind. -/
def name? : SectionKind → Option String
  | .inherited _ => none
  | kind => some kind.title

/-- The name of a kind in running text. -/
def display : SectionKind → String
  | .testCases => "Test Cases"
  | kind => kind.title

/-- The kind of a given name. -/
def ofTitle? (s : String) : Option SectionKind := all.find? fun k => k.title = s

/-- Recommended order of the sections of a file, by the names of their kinds. -/
def recommendedOrder : List String :=
  ["Comments", "Settings", "Variables", "TestCases", "Keywords"]

/-- What is written for a header that is missing. -/
def missingHeader : String := "undefined"

/-- The canonical header of a kind.  The table of headers has none for an inherited name. -/
def canonicalHeader? : SectionKind → Option String
  | .settings => some "*** Settings ***"
  | .variables => some "*** Variables ***"
  | .testCases => some "*** Test Cases ***"
  | .keywords => some "*** Keywords ***"
  | .comments => some "*** Comments ***"
  | .invalid => none
  | .inherited _ => some missingHeader

end SectionKind

/-- A header cell without its asterisks, blanks and case. -/
def normalizeHeader (header : String) : String :=
  let bare := Text.dropEndWhile (· = '*') (header.toList.dropWhile (· = '*'))
  String.ofList (Text.lowerChars (Text.removeBlanks bare))

/-- Header names and the kinds they open. -/
def headerNames : List (String × SectionKind) :=
  [("settings", .settings), ("setting", .settings),
   ("variables", .variables), ("variable", .variables),
   ("testcases", .testCases), ("testcase", .testCases),
   ("tasks", .testCases), ("task", .testCases),
   ("keywords", .keywords), ("keyword", .keywords),
   ("comments", .comments), ("comment", .comments)]

/-- The kind of section that a header cell opens. -/
def SectionKind.ofHeader? (header : String) : Option SectionKind :=
  (headerNames.lookup (normalizeHeader header)).or
    ((InheritedName.ofKey? (normalizeHeader header)).map .inherited)

/-- Singular header names. -/
def singularHeaders : List String :=
  ["setting", "variable", "testcase", "task", "keyword", "comment"]

/-- Whether a header cell uses a singular name. -/
def isSingularHeader (header : String) : Bool :=
  singularHeaders.contains (normalizeHeader header)

/-- Whether a header cell speaks of tasks. -/
def isTaskHeader (header : String) : Bool :=
  "task".toList.isPrefixOf (normalizeHeader header).toList

/-- The canonical spelling of a header cell of a section. -/
def canonicalHeader? (kind : SectionKind) (header : String) : Option String :=
  if kind = .testCases && isTaskHeader header then some "*** Tasks ***"
  else kind.canonicalHeader?

end RobotSuite
