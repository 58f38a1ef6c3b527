/-
# Valid trees

A tree is valid when the text it makes is read back as the same tree: each statement ends
its lines, a control statement starts with its marker, every statement stands where it may
stand, a control block has its END, and nothing but the very last line lacks a line break.
The functions here list what is wrong, in the order of the text; a tree is valid when the
list is empty.  A section with an inherited name cannot be checked at all unless it is
empty, since no list says which statements may stand in it.
-/

import RobotSuite.Failure

namespace RobotSuite

/-- What may be wrong in a tree. -/
inductive Flaw where
  /-- A statement does not end with a line ending. -/
  | unended (type : StatementType)
  /-- A line ending inside a statement is empty. -/
  | emptyEnding (type : StatementType)
  /-- A token other than a line ending holds a line break. -/
  | lineBreak (kind : TokenKind)
  /-- A control statement does not start with its marker. -/
  | wrongMarker (type : StatementType) (marker : String)
  /-- A node may not stand in a body. -/
  | notInBody (type : NodeType)
  /-- A node may not stand in a section of some kind. -/
  | notInSection (type : NodeType) (kind : SectionKind)
  /-- A branch does not belong to its control block. -/
  | notInControl (type : StatementType) (control : ControlType)
  /-- A control block has no END. -/
  | unclosed (control : ControlType)
  /-- A statement behind a block would be read as part of it. -/
  | behindBlock (type : StatementType)
  /-- A statement inside a section has an empty line ending. -/
  | missingBreak (type : StatementType)
  /-- A section in front of another has an empty line ending. -/
  | openSection
  /-- A section without header is not the first. -/
  | lateHeaderless
  /-- A statement was replaced by one of another type. -/
  | retyped (old new : StatementType)
deriving Repr, DecidableEq, Inhabited

/-- The wording of a flaw. -/
def Flaw.message : Flaw → String
  | .unended t => s!"{t.title} does not end with a line ending"
  | .emptyEnding t => s!"{t.title} has an empty line ending inside it"
  | .lineBreak k => s!"{k.title} token contains a line break"
  | .wrongMarker t marker => s!"{t.title} must start with {marker}"
  | .notInBody t => s!"{t.title} is not allowed in a body"
  | .notInSection t kind => s!"{t.title} is not allowed in {kind.title}"
  | .notInControl t c => s!"{t.title} is not allowed in {c.title}"
  | .unclosed c => s!"{c.title} block is not closed with END"
  | .behindBlock t => s!"{t.title} follows a block at section level"
  | .missingBreak t => s!"{t.title} is missing its line ending"
  | .openSection => "Section does not end with a line break"
  | .lateHeaderless => "Section without header must come first"
  | .retyped old new => s!"{old.title} replaced with {new.title}"

/-- A flaw and its place. -/
structure Issue where
  flaw : Flaw
  location : Location
deriving Repr, DecidableEq, Inhabited

/-! ## Statements -/

/-- Whether a text holds a line break. -/
def hasLineBreak (s : String) : Bool := s.toList.any fun c => c = '\r' || c = '\n'

/-- What is wrong with the tokens of a statement. -/
def tokenFlaws (type : StatementType) : List Token → List Flaw
  | [] => []
  | t :: ts =>
    (if t.isEol then if t.value = "" && !ts.isEmpty then [.emptyEnding type] else []
      else if hasLineBreak t.value then [.lineBreak t.kind] else []) ++ tokenFlaws type ts

/-- What is wrong with a statement by itself. -/
def Statement.flaws (s : Statement) : List Flaw :=
  (if s.lastEol.isNone then [.unended s.type] else []) ++ tokenFlaws s.type s.tokens ++
    match s.type.marker? with
    | some marker =>
      if (s.name.map (·.value)) = some marker then [] else [.wrongMarker s.type marker]
    | none => []

/-- What is wrong with a statement by itself, at its place. -/
def Statement.issues (s : Statement) : List Issue :=
  s.flaws.map fun flaw => ⟨flaw, s.span.start⟩

/-! ## Bodies -/

/-- Statements that may stand in the body of a block. -/
def StatementType.inBody : StatementType → Bool
  | .emptyLine | .comment | .blockSetting | .keywordCall | .inlineIf | .error => true
  | _ => false

/-- What is wrong with a statement in a body. -/
def Statement.bodyIssues (s : Statement) : List Issue :=
  if s.type.inBody then s.issues else [⟨.notInBody (.statement s.type), s.span.start⟩]

mutual

/-- What is wrong with an item of a body. -/
def BodyItem.issues : BodyItem → List Issue
  | .statement s => s.bodyIssues
  | .control c => c.issues

/-- What is wrong with a control block. -/
def ControlBlock.issues : ControlBlock → List Issue
  | ⟨type, span, header, body, branches, close, _⟩ =>
    header.issues ++ bodyIssues body ++ branchesIssues type branches ++
      match close with
      | some s => s.issues
      | none => [⟨.unclosed type, span.start⟩]

/-- What is wrong with the items of a body. -/
def bodyIssues : List BodyItem → List Issue
  | [] => []
  | item :: items => item.issues ++ bodyIssues items

/-- What is wrong with the branches of a control block. -/
def branchesIssues (type : ControlType) : List Branch → List Issue
  | [] => []
  | ⟨span, header, body, _⟩ :: rest =>
    header.issues ++
      (if type.takesBranch header.type then []
        else [⟨.notInControl header.type type, span.start⟩]) ++
      bodyIssues body ++ branchesIssues type rest

end

/-- What is wrong with a branch by itself. -/
def Branch.issues (b : Branch) : List Issue := b.header.issues ++ bodyIssues b.body

/-- What is wrong with a block. -/
def Block.issues (b : Block) : List Issue := b.header.issues ++ bodyIssues b.body

/-! ## Sections -/

/-- Statements that may stand in a section of a kind, outside of blocks. -/
def StatementType.inSection (kind : SectionKind) : StatementType → Bool
  | .emptyLine | .comment | .error => true
  | .setting => kind = .settings
  | .variable => kind = .variables
  | _ => false

/-- Whether the statements that may stand in a section of a kind are listed, and a type is
among them. -/
def StatementType.isListed (kind : SectionKind) (type : StatementType) : Bool :=
  !kind.isInherited && type.inSection kind

/-- Whether a kind of section holds blocks of a type. -/
def BlockType.inSection (kind : SectionKind) : BlockType → Bool
  | .testCase => kind = .testCases
  | .keyword => kind = .keywords

/-- What is wrong with the items of a section one by one; `seen` tells whether a block
stands in front of them. -/
def itemsIssues (kind : SectionKind) (seen : Bool) : List SectionItem → List Issue
  | [] => []
  | .block b :: rest =>
    (if b.type.inSection kind then []
      else [⟨.notInSection (.block b.type) kind, b.span.start⟩]) ++
      b.issues ++ itemsIssues kind true rest
  | .statement s :: rest =>
    (if !s.type.isListed kind then [⟨.notInSection (.statement s.type) kind, s.span.start⟩]
      else if seen then [⟨.behindBlock s.type, s.span.start⟩] else []) ++
      s.issues ++ itemsIssues kind seen rest

/-- All statements but the last must end with a line break. -/
def breakIssues (ss : List Statement) : List Issue :=
  (ss.dropLast.filter (·.isUnterminated)).map fun s => ⟨.missingBreak s.type, s.span.start⟩

/-- What is wrong with the items of a section. -/
def sectionIssues (kind : SectionKind) (items : List SectionItem) : List Issue :=
  itemsIssues kind false items ++ breakIssues (itemsStatements items)

/-- Whether checking the items of a section fails. -/
def isUncheckable (kind : SectionKind) (items : List SectionItem) : Bool :=
  kind.isInherited && items.any fun item => !item.isBlock

/-- Whether checking a section fails. -/
def Section.isUncheckable (s : Section) : Bool := RobotSuite.isUncheckable s.kind s.body

/-- What is wrong with a section. -/
def Section.issues (s : Section) : List Issue :=
  (s.header.map Statement.issues).getD [] ++ sectionIssues s.kind s.body

/-- What is wrong with the sections one by one; `first` tells whether the first of them
is the first of its file. -/
def eachSectionIssues (first : Bool) : List Section → List Issue
  | [] => []
  | s :: rest =>
    (if s.header.isNone && !first then [⟨.lateHeaderless, s.span.start⟩] else []) ++
      s.issues ++ eachSectionIssues false rest

/-- The last statement of a section, if the section ends without a line break. -/
def Section.openEnd? (s : Section) : Option Statement :=
  s.statements.getLast?.filter (·.isUnterminated)

/-- What is wrong with the sections of a file. -/
def sectionsIssues (ss : List Section) : List Issue :=
  eachSectionIssues true ss ++
    (ss.dropLast.filterMap Section.openEnd?).map fun s => ⟨.openSection, s.span.start⟩

/-- What is wrong with a file. -/
def File.issues (f : File) : List Issue := sectionsIssues f.sections

/-- Whether checking a file fails. -/
def File.isUncheckable (f : File) : Bool := f.sections.any (·.isUncheckable)

/-- What is wrong with a container and everything inside it. -/
def Container.issues : Container → List Issue
  | .file f => f.issues
  | .sect s => s.issues
  | .block b => b.issues
  | .control c => c.issues
  | .branch b => b.issues

/-- Whether checking a container fails. -/
def Container.isUncheckable : Container → Bool
  | .file f => f.isUncheckable
  | .sect s => s.isUncheckable
  | _ => false

/-- The wording of a check that fails. -/
def checkFails : String := "Cannot read properties of undefined (reading 'has')"

/-- What checking a container gives. -/
def Container.check (c : Container) : Except Failure (List Issue) :=
  if c.isUncheckable then .error (.internal checkFails) else .ok c.issues

/-- What checking a file gives. -/
def File.check (f : File) : Except Failure (List Issue) := (Container.file f).check

end RobotSuite
