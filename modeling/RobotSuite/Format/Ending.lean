/-
# Line breaks at the end of statements and sections

Only the last statement of a file can lack a line break.  A statement or section that is
moved away from the end needs one.  A container whose items are rewritten is a new one and
has no label, one whose items stay keeps its label.
-/

import RobotSuite.Tree

namespace RobotSuite

/-- The same statement with a line break at its end. -/
def Statement.terminate (newline : String) (s : Statement) : Statement :=
  match s.lastEol with
  | none => s.withTokens (s.tokens ++ [.create .eol newline])
  | some t =>
    if t.value = "" then s.withTokens (s.tokens.dropLast ++ [.create .eol newline]) else s

mutual

/-- The item with a line break at its end.  The last line of a control block without END
is looked for in its last branch, or in its body if it has none; a branch or body
without items is left alone. -/
def BodyItem.terminate (newline : String) : BodyItem → BodyItem
  | .statement s => .statement (s.terminate newline)
  | .control c => .control (c.terminate newline)

/-- The control block with a line break at its end. -/
def ControlBlock.terminate (newline : String) : ControlBlock → ControlBlock
  | ⟨type, span, header, body, branches, some close, label⟩ =>
    ⟨type, span, header, body, branches, some (close.terminate newline), label⟩
  | ⟨type, span, header, body, [], none, _⟩ =>
    ⟨type, span, header, terminateBody newline body, [], none, none⟩
  | ⟨type, span, header, body, b :: bs, none, _⟩ =>
    ⟨type, span, header, body, terminateBranches newline (b :: bs), none, none⟩

/-- A body with a line break at its end. -/
def terminateBody (newline : String) : List BodyItem → List BodyItem
  | [] => []
  | [item] => [item.terminate newline]
  | item :: next :: rest => item :: terminateBody newline (next :: rest)

/-- Branches with a line break at the end of the last. -/
def terminateBranches (newline : String) : List Branch → List Branch
  | [] => []
  | [⟨span, header, body, _⟩] => [⟨span, header, terminateBody newline body, none⟩]
  | b :: next :: rest => b :: terminateBranches newline (next :: rest)

end

/-- The block with a line break at its end. -/
def Block.terminate (newline : String) (b : Block) : Block :=
  if b.body.isEmpty then { b with header := b.header.terminate newline }
  else { b with body := terminateBody newline b.body, label := none }

/-- The item with a line break at its end. -/
def SectionItem.terminate (newline : String) : SectionItem → SectionItem
  | .statement s => .statement (s.terminate newline)
  | .block b => .block (b.terminate newline)

/-- The section with a line break at its end. -/
def Section.terminate (newline : String) (s : Section) : Section :=
  match s.body.getLast? with
  | none => { s with header := s.header.map (·.terminate newline) }
  | some last =>
    { s with body := s.body.dropLast ++ [last.terminate newline], label := none }

end RobotSuite
