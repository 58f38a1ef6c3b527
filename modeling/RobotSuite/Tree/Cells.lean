/-
# Cells

A container that stands at several places has the same items everywhere.  The items are
kept in a cell that is found by the label of the container, so that a change at one place
is seen at all of them.  The containers among the items of a cell are looked up in turn:
`Cells.block` gives a block as it is now, all the way down, and so on for the others.
-/

import RobotSuite.Tree.Label

namespace RobotSuite

/-- The items of containers of one kind, by the labels of the containers. -/
abbrev Rack (α : Type) := List (Nat × List α)

namespace Rack

/-- The items of a container, if it has a cell. -/
def get? {α : Type} (r : Rack α) (label : Option Nat) : Option (List α) :=
  label.bind fun l => List.lookup l r

/-- Set the items of a container. -/
def set {α : Type} (r : Rack α) (label : Option Nat) (items : List α) : Rack α :=
  match label with
  | none => r
  | some l => (l, items) :: List.filter (fun e => e.1 != l) r

/-- What is set at a label is found there. -/
theorem get?_set {α : Type} (r : Rack α) (l : Nat) (items : List α) :
    (r.set (some l) items).get? (some l) = some items := by
  simp [get?, set]

end Rack

/-- The items of all containers. -/
structure Cells where
  /-- The items of sections. -/
  sections : Rack SectionItem := []
  /-- The items of blocks, control blocks and branches. -/
  bodies : Rack BodyItem := []
  /-- The branches of control blocks. -/
  branches : Rack Branch := []

namespace Cells

/-! ## Looking up

What has no cell is as it stands. -/

/-- Containers nest no deeper than this, since none stands inside itself. -/
def depth (c : Cells) : Nat := c.bodies.length + 1

mutual

/-- A body item as it is now, to some depth. -/
def itemTo (c : Cells) : Nat → BodyItem → BodyItem
  | _, .statement s => .statement s
  | 0, .control b => .control b
  | n + 1, .control b =>
    .control { b with
      body := ((c.bodies.get? b.label).getD b.body).map (c.itemTo n)
      branches := ((c.branches.get? b.label).getD b.branches).map (c.branchTo n) }

/-- A branch as it is now, to some depth. -/
def branchTo (c : Cells) : Nat → Branch → Branch
  | 0, b => b
  | n + 1, b => { b with body := ((c.bodies.get? b.label).getD b.body).map (c.itemTo n) }

end

/-- A body item as it is now. -/
def item (c : Cells) (i : BodyItem) : BodyItem := c.itemTo c.depth i

/-- A branch as it is now. -/
def branch (c : Cells) (b : Branch) : Branch := c.branchTo c.depth b

/-- A control block as it is now. -/
def control (c : Cells) (b : ControlBlock) : ControlBlock :=
  { b with
    body := ((c.bodies.get? b.label).getD b.body).map c.item
    branches := ((c.branches.get? b.label).getD b.branches).map c.branch }

/-- A block as it is now. -/
def block (c : Cells) (b : Block) : Block :=
  { b with body := ((c.bodies.get? b.label).getD b.body).map c.item }

/-- A section item as it is now. -/
def sectionItem (c : Cells) : SectionItem → SectionItem
  | .statement s => .statement s
  | .block b => .block (c.block b)

/-- A section as it is now. -/
def sect (c : Cells) (s : Section) : Section :=
  { s with body := ((c.sections.get? s.label).getD s.body).map c.sectionItem }

/-! ## Setting -/

/-- Set the items of a body. -/
def setBody (c : Cells) (label : Option Nat) (items : List BodyItem) : Cells :=
  { c with bodies := c.bodies.set label items }

/-- Set the branches of a control block. -/
def setBranches (c : Cells) (label : Option Nat) (bs : List Branch) : Cells :=
  { c with branches := c.branches.set label bs }

/-- Set the items of a section. -/
def setSection (c : Cells) (label : Option Nat) (items : List SectionItem) : Cells :=
  { c with sections := c.sections.set label items }

/-! ## Taking in new nodes

A container that has a cell is the same node as before, and its items stay as they are. -/

mutual

/-- Make cells for the containers of a body item. -/
def addItem (c : Cells) : BodyItem → Cells
  | .statement _ => c
  | .control b => c.addControl b

/-- Make cells for a control block and the containers inside it. -/
def addControl (c : Cells) : ControlBlock → Cells
  | ⟨_, _, _, body, branches, _, label⟩ =>
    if (c.bodies.get? label).isSome then c
    else (((c.addBody body).addBranches branches).setBody label body).setBranches label branches

/-- Make cells for the containers of a body. -/
def addBody (c : Cells) : List BodyItem → Cells
  | [] => c
  | item :: items => (c.addItem item).addBody items

/-- Make cells for a branch and the containers inside it. -/
def addBranch (c : Cells) : Branch → Cells
  | ⟨_, _, body, label⟩ =>
    if (c.bodies.get? label).isSome then c else (c.addBody body).setBody label body

/-- Make cells for some branches and the containers inside them. -/
def addBranches (c : Cells) : List Branch → Cells
  | [] => c
  | b :: bs => (c.addBranch b).addBranches bs

end

/-- Make cells for a block and the containers inside it. -/
def addBlock (c : Cells) (b : Block) : Cells :=
  if (c.bodies.get? b.label).isSome then c else (c.addBody b.body).setBody b.label b.body

/-- Make cells for the containers of a section item. -/
def addSectionItem (c : Cells) : SectionItem → Cells
  | .statement _ => c
  | .block b => c.addBlock b

/-- Make cells for a section and the containers inside it. -/
def addSection (c : Cells) (s : Section) : Cells :=
  if (c.sections.get? s.label).isSome then c
  else (s.body.foldl addSectionItem c).setSection s.label s.body

end Cells

end RobotSuite
