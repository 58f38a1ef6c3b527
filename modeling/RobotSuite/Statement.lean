/-
# Statements

A statement is a line of cells with the lines that continue it.  Its type says what it
is for; its name, arguments and settings are read off its data tokens.  A statement
that could not be placed in the structure of a file is of type `error` and keeps the
`Defect` that was found.
-/

import RobotSuite.Token
import RobotSuite.SectionName
import RobotSuite.SettingName

namespace RobotSuite

/-- What a statement is for. -/
inductive StatementType where
  | sectionHeader
  | emptyLine
  | comment
  | setting
  | variable
  | testCaseName
  | keywordName
  | blockSetting
  | keywordCall
  | inlineIf
  | forHeader
  | whileHeader
  | ifHeader
  | elseIfHeader
  | elseHeader
  | tryHeader
  | exceptHeader
  | finallyHeader
  | blockEnd
  | error
deriving Repr, DecidableEq, Inhabited

namespace StatementType

/-- All types, in the order of their declaration. -/
def all : List StatementType :=
  [.sectionHeader, .emptyLine, .comment, .setting, .variable, .testCaseName, .keywordName,
   .blockSetting, .keywordCall, .inlineIf, .forHeader, .whileHeader, .ifHeader, .elseIfHeader,
   .elseHeader, .tryHeader, .exceptHeader, .finallyHeader, .blockEnd, .error]

/-- The name of a type in messages. -/
def title : StatementType → String
  | .sectionHeader => "SectionHeader"
  | .emptyLine => "EmptyLine"
  | .comment => "Comment"
  | .setting => "Setting"
  | .variable => "Variable"
  | .testCaseName => "TestCaseName"
  | .keywordName => "KeywordName"
  | .blockSetting => "BlockSetting"
  | .keywordCall => "KeywordCall"
  | .inlineIf => "InlineIf"
  | .forHeader => "ForHeader"
  | .whileHeader => "WhileHeader"
  | .ifHeader => "IfHeader"
  | .elseIfHeader => "ElseIfHeader"
  | .elseHeader => "ElseHeader"
  | .tryHeader => "TryHeader"
  | .exceptHeader => "ExceptHeader"
  | .finallyHeader => "FinallyHeader"
  | .blockEnd => "End"
  | .error => "Error"

/-- The type of a given name. -/
def ofTitle? (s : String) : Option StatementType := all.find? fun t => t.title = s

/-- The cell that a control statement starts with. -/
def marker? : StatementType → Option String
  | .forHeader => some "FOR"
  | .whileHeader => some "WHILE"
  | .ifHeader => some "IF"
  | .elseIfHeader => some "ELSE IF"
  | .elseHeader => some "ELSE"
  | .tryHeader => some "TRY"
  | .exceptHeader => some "EXCEPT"
  | .finallyHeader => some "FINALLY"
  | .blockEnd => some "END"
  | _ => none

/-- The control statement that starts with a given cell.  Case counts. -/
def ofMarker? (cell : String) : Option StatementType :=
  all.find? fun t => t.marker? = some cell

/-- Statements laid out one level further left than the body they belong to. -/
def isOuter : StatementType → Bool
  | .testCaseName | .keywordName => true
  | t => t.marker?.isSome

end StatementType

/-- Whether a cell is the marker of a control statement. -/
def isControlMarker (cell : String) : Bool := (StatementType.ofMarker? cell).isSome

/-- The inside of a variable and its closing brace, without line terminators. -/
def closesVariable (cs : List Char) : Bool :=
  match cs.reverse with
  | '}' :: inside => !inside.isEmpty && !inside.any Text.isLineTerminator
  | _ => false

/-- Whether a cell assigns to a variable: a variable of any kind but the environment's,
perhaps with an equals sign behind it. -/
def isAssignment (cell : String) : Bool :=
  match cell.toList with
  | sigil :: '{' :: rest =>
    (sigil = '$' || sigil = '@' || sigil = '&') &&
      (closesVariable rest ||
        (rest.getLast? = some '=' &&
          (closesVariable rest.dropLast ||
            (rest.dropLast.getLast? = some ' ' && closesVariable rest.dropLast.dropLast))))
  | _ => false

/-- The two blocks that a section may hold. -/
inductive BlockType where
  | testCase
  | keyword
deriving Repr, DecidableEq, Inhabited

namespace BlockType

/-- The name of a block type in messages. -/
def title : BlockType → String
  | .testCase => "TestCase"
  | .keyword => "Keyword"

/-- The name of a block type in running text. -/
def display : BlockType → String
  | .testCase => "test case"
  | .keyword => "keyword"

end BlockType

/-- Why a part of a source does not fit the structure of a file. -/
inductive Defect where
  /-- A cell holds control characters. -/
  | controlCharacters
  /-- A section header holds control characters. -/
  | headerControlCharacters
  /-- A section header names no kind of section. -/
  | unknownSection (header : String)
  /-- A continuation marker follows nothing that it could continue. -/
  | strayContinuation
  /-- A setting has an unknown name. -/
  | unknownSetting (name : String)
  /-- A statement precedes the first test case or keyword of its section. -/
  | outsideBlock (owner : BlockType)
  /-- A branch header stands in no block that takes it. -/
  | strayBranch (marker : String) (parent : String)
  /-- An END stands in no block. -/
  | unmatchedEnd
  /-- A control block has no END. -/
  | unclosedBlock (marker : String)
  /-- A statement has no type, since its section has an inherited name. -/
  | untyped
deriving Repr, DecidableEq, Inhabited

/-- The wording of a defect. -/
def Defect.message : Defect → String
  | .controlCharacters => "Cell contains control characters"
  | .headerControlCharacters => "Section header contains control characters"
  | .unknownSection header => s!"Unrecognized section header '{header}'"
  | .strayContinuation => "Continuation marker without a statement to continue"
  | .unknownSetting name => s!"Unknown setting '{name}'"
  | .outsideBlock owner => "Statement outside of a " ++ owner.display
  | .strayBranch marker parent => s!"{marker} outside of {parent}"
  | .unmatchedEnd => "END without an open block"
  | .unclosedBlock marker => s!"{marker} block is not closed with END"
  | .untyped => "Cannot read properties of undefined (reading 'type')"

/-- A statement with the tokens of all its lines. -/
structure Statement where
  /-- What the statement is for. -/
  type : StatementType
  /-- Where it stands. -/
  span : Span
  /-- Its tokens, line endings included. -/
  tokens : List Token
  /-- For a comment: whether it belongs to the statement below it. -/
  ownedByNext : Bool := false
  /-- For an error: what was found. -/
  defect : Option Defect := none
  /-- Statements with the same label are one statement that stands at several places. -/
  label : Option Nat := none
deriving Repr, DecidableEq, Inhabited

/-- From the start of the first token to the end of the last. -/
def spanOfTokens (ts : List Token) : Span :=
  match ts.head?, ts.getLast? with
  | some first, some last => ⟨first.span.start, last.span.stop⟩
  | _, _ => .synthetic

namespace Statement

/-- A statement of a type, made of some tokens. -/
def create (type : StatementType) (tokens : List Token) : Statement :=
  { type, tokens, span := spanOfTokens tokens }

/-- A statement that could not be placed. -/
def ofDefect (defect : Defect) (tokens : List Token) : Statement :=
  { create .error tokens with defect := some defect }

/-- A statement like another with other tokens.  It stands at one place only. -/
def withTokens (s : Statement) (tokens : List Token) : Statement :=
  { s with tokens, label := none }

/-- An empty line that stands in no source. -/
def emptyLine (newline : String) : Statement := create .emptyLine [.create .eol newline]

/-- The text of a statement. -/
def text (s : Statement) : String := renderTokens s.tokens

/-- The data tokens of a statement. -/
def data (s : Statement) : List Token := dataTokens s.tokens

/-- The assignments in front of a keyword call. -/
def assign (s : Statement) : List Token :=
  if s.type = .keywordCall then s.data.takeWhile fun t => isAssignment t.value else []

/-- Keyword, setting name, variable name or marker, behind any assignments. -/
def name (s : Statement) : Option Token := (s.data.drop s.assign.length).head?

/-- The data tokens behind the name. -/
def args (s : Statement) : List Token := (s.data.drop s.assign.length).tail

/-- The text of the name, empty if there is none. -/
def nameText (s : Statement) : String := (s.name.map (·.value)).getD ""

/-- The name of a suite setting. -/
def suiteSetting? (s : Statement) : Option String :=
  if s.type = .setting then some (SettingName.ofSuiteCell s.nameText) else none

/-- The name of a bracketed setting. -/
def blockSetting? (s : Statement) : Option String :=
  if s.type = .blockSetting then some (SettingName.ofBlockCell s.nameText) else none

/-- The setting's name, bracketed or not. -/
def setting? (s : Statement) : Option String := s.suiteSetting? <|> s.blockSetting?

/-- The wording of what was found. -/
def errorMessage (s : Statement) : String :=
  (s.defect.map Defect.message).getD "Invalid statement"

/-- The line ending that closes the statement. -/
def lastEol (s : Statement) : Option Token := s.tokens.getLast?.filter (·.isEol)

/-- Whether the statement ends with an empty line ending. -/
def isUnterminated (s : Statement) : Bool := s.lastEol.any fun t => t.value = ""

/-- Columns in front of the first line, a tab counting `tab`; zero for a blank line. -/
def indent (s : Statement) (tab : Nat) : Nat :=
  match s.tokens with
  | first :: next :: _ =>
    if first.isSeparator && !next.isEol then Text.gapWidth first.value tab else 0
  | _ => 0

end Statement

end RobotSuite
