/-
# Labels of nodes

A label says which node a node is, wherever it stands.  Here all nodes that have none are
given labels, counted from a number on, in the order in which a walk meets them.  Labels
that are there stay, so that parts taken from a labelled tree are still the same nodes.
-/

import RobotSuite.Tree

namespace RobotSuite

/-- A label, the given one or else the next, and the number behind it. -/
def nextLabel (next : Nat) : Option Nat → Option Nat × Nat
  | some label => (some label, next)
  | none => (some next, next + 1)

/-- Go through a list with a state that each element may change. -/
def threadList {σ α β : Type} (f : σ → α → β × σ) (s : σ) : List α → List β × σ
  | [] => ([], s)
  | x :: xs =>
    let (y, s) := f s x
    let (ys, s) := threadList f s xs
    (y :: ys, s)

/-- Label a statement. -/
def Statement.labelled (next : Nat) (s : Statement) : Statement × Nat :=
  let (label, next) := nextLabel next s.label
  ({ s with label }, next)

/-- Label a statement, if there is one. -/
def labelOption (next : Nat) : Option Statement → Option Statement × Nat
  | none => (none, next)
  | some s =>
    let (s, next) := s.labelled next
    (some s, next)

mutual

/-- Label a body item and everything inside it. -/
def BodyItem.labelled (next : Nat) : BodyItem → BodyItem × Nat
  | .statement s =>
    let (s, next) := s.labelled next
    (.statement s, next)
  | .control c =>
    let (c, next) := c.labelled next
    (.control c, next)

/-- Label a control block and everything inside it. -/
def ControlBlock.labelled (next : Nat) : ControlBlock → ControlBlock × Nat
  | ⟨type, span, header, body, branches, close, label⟩ =>
    let (label, next) := nextLabel next label
    let (header, next) := header.labelled next
    let (body, next) := labelBody next body
    let (branches, next) := labelBranches next branches
    let (close, next) := labelOption next close
    (⟨type, span, header, body, branches, close, label⟩, next)

/-- Label the items of a body and everything inside them. -/
def labelBody (next : Nat) : List BodyItem → List BodyItem × Nat
  | [] => ([], next)
  | item :: items =>
    let (item, next) := item.labelled next
    let (items, next) := labelBody next items
    (item :: items, next)

/-- Label a branch and everything inside it. -/
def Branch.labelled (next : Nat) : Branch → Branch × Nat
  | ⟨span, header, body, label⟩ =>
    let (label, next) := nextLabel next label
    let (header, next) := header.labelled next
    let (body, next) := labelBody next body
    (⟨span, header, body, label⟩, next)

/-- Label some branches and everything inside them. -/
def labelBranches (next : Nat) : List Branch → List Branch × Nat
  | [] => ([], next)
  | b :: bs =>
    let (b, next) := b.labelled next
    let (bs, next) := labelBranches next bs
    (b :: bs, next)

end

/-- Label a block and everything inside it. -/
def Block.labelled (next : Nat) (b : Block) : Block × Nat :=
  let (label, next) := nextLabel next b.label
  let (header, next) := b.header.labelled next
  let (body, next) := labelBody next b.body
  ({ b with header, body, label }, next)

/-- Label a section item and everything inside it. -/
def SectionItem.labelled (next : Nat) : SectionItem → SectionItem × Nat
  | .statement s =>
    let (s, next) := s.labelled next
    (.statement s, next)
  | .block b =>
    let (b, next) := b.labelled next
    (.block b, next)

/-- Label a section and everything inside it. -/
def Section.labelled (next : Nat) (s : Section) : Section × Nat :=
  let (label, next) := nextLabel next s.label
  let (header, next) := labelOption next s.header
  let (body, next) := threadList SectionItem.labelled next s.body
  ({ s with header, body, label }, next)

end RobotSuite
