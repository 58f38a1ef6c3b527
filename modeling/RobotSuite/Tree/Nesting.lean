/-
# Nesting of control blocks

The statements of a body are nested one by one with a stack of open blocks.  A header
opens a block, a branch header the innermost block accepts opens a branch, END closes
the innermost block, and every other statement joins the body that is open.  What does
not fit is kept as an error in its place, and blocks still open at the end are closed
without END, the innermost first.
-/

import RobotSuite.Statement.Classify

namespace RobotSuite

/-- A control block that has no END yet.  Its last branch, or else its body, is open. -/
structure OpenBlock where
  /-- The kind of block. -/
  type : ControlType
  /-- Its header. -/
  header : Statement
  /-- Items in front of the first branch. -/
  body : List BodyItem
  /-- Branches, each with its items. -/
  branches : List (Statement × List BodyItem)

/-- Where a list of items ends. -/
def endOfItems (items : List BodyItem) : Option Location :=
  items.getLast?.map fun i => i.span.stop

/-- A branch with its span. -/
def closeBranch (header : Statement) (body : List BodyItem) : Branch :=
  { header, body, span := ⟨header.span.start, (endOfItems body).getD header.span.stop⟩ }

namespace OpenBlock

/-- Add an item to the open branch or body. -/
def push (b : OpenBlock) (item : BodyItem) : OpenBlock :=
  match b.branches.getLast? with
  | none => { b with body := b.body ++ [item] }
  | some (header, body) =>
    { b with branches := b.branches.dropLast ++ [(header, body ++ [item])] }

/-- Open a branch. -/
def branch (b : OpenBlock) (header : Statement) : OpenBlock :=
  { b with branches := b.branches ++ [(header, [])] }

/-- The block, closed by END or left open. -/
def close (b : OpenBlock) (blockEnd : Option Statement) : ControlBlock :=
  let branches := b.branches.map fun p => closeBranch p.1 p.2
  let stop :=
    (blockEnd.map fun s => s.span.stop) <|> (branches.getLast?.map fun x => x.span.stop) <|>
      endOfItems b.body
  { type := b.type
    span := ⟨b.header.span.start, stop.getD b.header.span.stop⟩
    header := b.header
    body := b.body
    branches
    close := blockEnd }

end OpenBlock

/-- Items nested so far. -/
structure Nesting where
  /-- Items outside of all open blocks. -/
  root : List BodyItem := []
  /-- Open blocks, the innermost first. -/
  stack : List OpenBlock := []
  /-- Defects found so far. -/
  errors : List ParseError := []

namespace Nesting

/-- Add an item to the innermost open body. -/
def push (n : Nesting) (item : BodyItem) : Nesting :=
  match n.stack with
  | [] => { n with root := n.root ++ [item] }
  | b :: rest => { n with stack := b.push item :: rest }

/-- Record a defect. -/
def record (n : Nesting) (e : ParseError) : Nesting := { n with errors := n.errors ++ [e] }

/-- Keep an error in the place of a statement that does not fit. -/
def reject (n : Nesting) (defect : Defect) (error : Statement) : Nesting :=
  (n.push (.statement error)).record ⟨defect, error.span.start⟩

/-- Whether a statement heads a branch. -/
def isBranchHeader : StatementType → Bool
  | .elseIfHeader | .elseHeader | .exceptHeader | .finallyHeader => true
  | _ => false

/-- The marker of the block that a rejected branch header asks for. -/
def branchParent : StatementType → String
  | .exceptHeader | .finallyHeader => "TRY"
  | _ => "IF"

/-- What is wrong with a branch header that no block takes. -/
def strayBranch (s : Statement) : Defect := .strayBranch s.nameText (branchParent s.type)

/-- Keep a branch header that no block takes as an error. -/
def rejectBranch (n : Nesting) (s : Statement) : Nesting :=
  n.reject (strayBranch s) (.ofDefect (strayBranch s) s.tokens)

/-- Keep an END that closes nothing as an error. -/
def rejectEnd (n : Nesting) (s : Statement) : Nesting :=
  n.reject .unmatchedEnd { s with type := .error, defect := some .unmatchedEnd }

/-- Take in the next statement. -/
def step (n : Nesting) (s : Statement) : Nesting :=
  match ControlType.ofHeader? s.type with
  | some type => { n with stack := ⟨type, s, [], []⟩ :: n.stack }
  | none =>
    if isBranchHeader s.type then
      match n.stack with
      | b :: rest =>
        if b.type.takesBranch s.type then { n with stack := b.branch s :: rest }
        else n.rejectBranch s
      | [] => n.rejectBranch s
    else if s.type = .blockEnd then
      match n.stack with
      | b :: rest => { n with stack := rest }.push (.control (b.close (some s)))
      | [] => n.rejectEnd s
    else n.push (.statement s)

/-- Close the blocks that are still open, the innermost first. -/
def closeAll (root : List BodyItem) (errors : List ParseError) :
    List OpenBlock → List BodyItem × List ParseError
  | [] => (root, errors)
  | [b] =>
    (root ++ [.control (b.close none)],
      errors ++ [⟨.unclosedBlock b.header.nameText, b.header.span.start⟩])
  | b :: outer :: rest =>
    closeAll root (errors ++ [⟨.unclosedBlock b.header.nameText, b.header.span.start⟩])
      (outer.push (.control (b.close none)) :: rest)
termination_by stack => stack.length

end Nesting

/-- The items that a list of statements makes, and the defects found. -/
def nest (ss : List Statement) : List BodyItem × List ParseError :=
  let n := ss.foldl Nesting.step {}
  Nesting.closeAll n.root n.errors n.stack

end RobotSuite
