/-
# The model of a file

A file is a list of sections.  Sections of test cases and keywords hold blocks, and the
body of a block nests control blocks (FOR, WHILE, IF and TRY) whose branches are ELSE IF,
ELSE, EXCEPT and FINALLY.  `File.statements` lists the statements in the order in which
they are written, and `File.render` is the text they make.

Nodes may have labels.  Statements with one label are the same statement, and containers
with one label have the same items.  What is read from a source has no labels, since each
node stands at one place.
-/

import RobotSuite.Statement

namespace RobotSuite

/-- The control blocks. -/
inductive ControlType where
  | forLoop
  | whileLoop
  | ifBlock
  | tryBlock
deriving Repr, DecidableEq, Inhabited

namespace ControlType

/-- The name of a control block in messages. -/
def title : ControlType → String
  | .forLoop => "For"
  | .whileLoop => "While"
  | .ifBlock => "If"
  | .tryBlock => "Try"

/-- The control block that a header opens. -/
def ofHeader? : StatementType → Option ControlType
  | .forHeader => some .forLoop
  | .whileHeader => some .whileLoop
  | .ifHeader => some .ifBlock
  | .tryHeader => some .tryBlock
  | _ => none

/-- Whether a control block takes a branch with a given header. -/
def takesBranch : ControlType → StatementType → Bool
  | .ifBlock, .elseIfHeader => true
  | .ifBlock, .elseHeader => true
  | .tryBlock, .exceptHeader => true
  | .tryBlock, .elseHeader => true
  | .tryBlock, .finallyHeader => true
  | _, _ => false

end ControlType

mutual

/-- An item of a body. -/
inductive BodyItem where
  | statement (s : Statement)
  | control (c : ControlBlock)

/-- A control block, its branches and its END, if it has one. -/
structure ControlBlock where
  type : ControlType
  span : Span
  header : Statement
  body : List BodyItem
  branches : List Branch
  close : Option Statement
  label : Option Nat := none

/-- A branch of a control block. -/
structure Branch where
  span : Span
  header : Statement
  body : List BodyItem
  label : Option Nat := none

end

instance : Inhabited BodyItem := ⟨.statement default⟩

/-- A test case or a keyword. -/
structure Block where
  type : BlockType
  span : Span
  header : Statement
  body : List BodyItem
  label : Option Nat := none

/-- An item of a section. -/
inductive SectionItem where
  | statement (s : Statement)
  | block (b : Block)

/-- A section.  Lines in front of the first header form a section without header. -/
structure Section where
  kind : SectionKind
  span : Span
  header : Option Statement
  body : List SectionItem
  label : Option Nat := none

/-- The line ending that most lines of a file have. -/
inductive Newline where
  | lf
  | crlf
deriving Repr, DecidableEq, Inhabited

/-- The text of a line ending. -/
def Newline.text : Newline → String
  | .lf => "\n"
  | .crlf => "\r\n"

/-- A defect and the place where it was found. -/
structure ParseError where
  defect : Defect
  location : Location
deriving Repr, DecidableEq, Inhabited

/-- The model of a file. -/
structure File where
  span : Span
  newline : Newline
  errors : List ParseError
  sections : List Section

/-! ## Parts and their places -/

/-- The span of a body item. -/
def BodyItem.span : BodyItem → Span
  | .statement s => s.span
  | .control c => c.span

/-- The first statement of a body item. -/
def BodyItem.leading : BodyItem → Statement
  | .statement s => s
  | .control c => c.header

/-- Whether a body item is a statement of a given type. -/
def BodyItem.isOfType (type : StatementType) : BodyItem → Bool
  | .statement s => s.type = type
  | .control _ => false

/-- The span of a section item. -/
def SectionItem.span : SectionItem → Span
  | .statement s => s.span
  | .block b => b.span

/-- The first statement of a section item. -/
def SectionItem.leading : SectionItem → Statement
  | .statement s => s
  | .block b => b.header

/-- Whether a section item is a statement of a given type. -/
def SectionItem.isOfType (type : StatementType) : SectionItem → Bool
  | .statement s => s.type = type
  | .block _ => false

/-- Whether a section item is a block. -/
def SectionItem.isBlock : SectionItem → Bool
  | .statement _ => false
  | .block _ => true

/-- The block of a section item. -/
def SectionItem.block? : SectionItem → Option Block
  | .statement _ => none
  | .block b => some b

/-- The statement of a section item. -/
def SectionItem.statement? : SectionItem → Option Statement
  | .statement s => some s
  | .block _ => none

/-! ## Statements in the order in which they are written -/

mutual

/-- Statements of a body item. -/
def BodyItem.statements : BodyItem → List Statement
  | .statement s => [s]
  | .control c => c.statements

/-- Statements of a control block: header, body, branches, END. -/
def ControlBlock.statements : ControlBlock → List Statement
  | ⟨_, _, header, body, branches, close, _⟩ =>
    header :: (bodyStatements body ++ branchesStatements branches ++ close.toList)

/-- Statements of a body. -/
def bodyStatements : List BodyItem → List Statement
  | [] => []
  | item :: items => item.statements ++ bodyStatements items

/-- Statements of a branch. -/
def Branch.statements : Branch → List Statement
  | ⟨_, header, body, _⟩ => header :: bodyStatements body

/-- Statements of the branches of a block. -/
def branchesStatements : List Branch → List Statement
  | [] => []
  | b :: bs => b.statements ++ branchesStatements bs

end

/-- The statements of a body are those of its items. -/
theorem bodyStatements_eq_flatMap (items : List BodyItem) :
    bodyStatements items = items.flatMap BodyItem.statements := by
  induction items with
  | nil => rfl
  | cons item items ih => rw [bodyStatements, ih, List.flatMap_cons]

/-- The statements of two bodies come one after the other. -/
theorem bodyStatements_append (a b : List BodyItem) :
    bodyStatements (a ++ b) = bodyStatements a ++ bodyStatements b := by
  induction a with
  | nil => rfl
  | cons i a ih => simp [bodyStatements, ih]

/-- Statements of a block. -/
def Block.statements (b : Block) : List Statement := b.header :: bodyStatements b.body

/-- Statements of a section item. -/
def SectionItem.statements : SectionItem → List Statement
  | .statement s => [s]
  | .block b => b.statements

/-- Statements of the items of a section. -/
def itemsStatements (items : List SectionItem) : List Statement :=
  items.flatMap SectionItem.statements

/-- Statements of a section. -/
def Section.statements (s : Section) : List Statement :=
  s.header.toList ++ itemsStatements s.body

/-- Statements of a file. -/
def File.statements (f : File) : List Statement := f.sections.flatMap Section.statements

/-- The text of some statements. -/
def renderStatements (ss : List Statement) : String := String.join (ss.map Statement.text)

/-- The text of a section. -/
def Section.render (s : Section) : String := renderStatements s.statements

/-- The text of a file. -/
def File.render (f : File) : String := renderStatements f.statements

/-! ## Containers -/

/-- Anything that holds statements. -/
inductive Container where
  | file (f : File)
  | sect (s : Section)
  | block (b : Block)
  | control (c : ControlBlock)
  | branch (b : Branch)

/-- The types of containers and statements. -/
inductive NodeType where
  | file
  | sect
  | block (t : BlockType)
  | control (t : ControlType)
  | branch
  | statement (t : StatementType)
deriving Repr, DecidableEq, Inhabited

namespace NodeType

/-- The name of a type in messages. -/
def title : NodeType → String
  | .file => "File"
  | .sect => "Section"
  | .block t => t.title
  | .control t => t.title
  | .branch => "Branch"
  | .statement t => t.title

end NodeType

namespace Container

/-- The type of a container. -/
def type : Container → NodeType
  | .file _ => .file
  | .sect _ => .sect
  | .block b => .block b.type
  | .control c => .control c.type
  | .branch _ => .branch

/-- The span of a container. -/
def span : Container → Span
  | .file f => f.span
  | .sect s => s.span
  | .block b => b.span
  | .control c => c.span
  | .branch b => b.span

/-- The header of a container. -/
def header? : Container → Option Statement
  | .file _ => none
  | .sect s => s.header
  | .block b => some b.header
  | .control c => some c.header
  | .branch b => some b.header

/-- The label of a container.  A file has none. -/
def label : Container → Option Nat
  | .file _ => none
  | .sect s => s.label
  | .block b => b.label
  | .control c => c.label
  | .branch b => b.label

/-- Whether the container is a branch. -/
def isBranch : Container → Bool
  | .branch _ => true
  | _ => false

/-- Whether the container is a section without header. -/
def isHeaderless : Container → Bool
  | .sect s => s.header.isNone
  | _ => false

/-- Whether the container adds a level of indentation. -/
def isNesting : Container → Bool
  | .block _ | .control _ => true
  | _ => false

end Container

/-! ## Nodes -/

/-- A node of a tree. -/
inductive Node where
  | statement (s : Statement)
  | container (c : Container)

namespace Node

/-- The type of a node. -/
def type : Node → NodeType
  | statement s => .statement s.type
  | container c => c.type

/-- Where a node starts. -/
def start : Node → Location
  | statement s => s.span.start
  | container c => c.span.start

end Node

end RobotSuite
