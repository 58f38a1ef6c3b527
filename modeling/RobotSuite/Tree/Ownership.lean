/-
# Comments and what they describe

A run of comments belongs to the item below it when no empty line stands between them.
Such comments are marked, at section level and in every body.
-/

import RobotSuite.Tree

namespace RobotSuite

/-- The type of a body item that is a statement. -/
def BodyItem.type? : BodyItem → Option StatementType
  | .statement s => some s.type
  | .control _ => none

/-- The type of a section item that is a statement. -/
def SectionItem.type? : SectionItem → Option StatementType
  | .statement s => some s.type
  | .block _ => none

/-- Whether a comment in front of some items belongs to one of them: behind further
comments stands something other than an empty line. -/
def ownsAbove {α : Type} (type? : α → Option StatementType) : List α → Bool
  | [] => false
  | x :: xs =>
    if type? x = some .comment then ownsAbove type? xs else type? x != some .emptyLine

/-- Mark a comment; other statements stay as they are. -/
def Statement.markOwned (s : Statement) (owned : Bool) : Statement :=
  if s.type = .comment then { s with ownedByNext := owned } else s

mutual

/-- Mark the comments inside a control block. -/
def ControlBlock.markOwned : ControlBlock → ControlBlock
  | ⟨type, span, header, body, branches, close, label⟩ =>
    ⟨type, span, header, markOwnedBody body, markOwnedBranches branches, close, label⟩

/-- Mark the comments of a body. -/
def markOwnedBody : List BodyItem → List BodyItem
  | [] => []
  | .statement s :: rest =>
    .statement (s.markOwned (ownsAbove BodyItem.type? rest)) :: markOwnedBody rest
  | .control c :: rest => .control c.markOwned :: markOwnedBody rest

/-- Mark the comments of the branches of a block. -/
def markOwnedBranches : List Branch → List Branch
  | [] => []
  | ⟨span, header, body, label⟩ :: rest =>
    ⟨span, header, markOwnedBody body, label⟩ :: markOwnedBranches rest

end

/-- Mark the comments of a section. -/
def markOwnedItems : List SectionItem → List SectionItem
  | [] => []
  | .statement s :: rest =>
    .statement (s.markOwned (ownsAbove SectionItem.type? rest)) :: markOwnedItems rest
  | .block b :: rest => .block { b with body := markOwnedBody b.body } :: markOwnedItems rest

end RobotSuite
