/-
# Edits of single nodes

Statements are numbered in the order in which they are written, and containers in the
order in which a walk enters them.  A statement may be replaced, and the children of a
container may be set, by number.  As in every transform, an edit that would make the tree
invalid is refused with the first issue.  A node that is put at several places is the same
node at all of them, so that a later edit of it is seen everywhere.
-/

import RobotSuite.Tree.Shared
import RobotSuite.Format.Ending

namespace RobotSuite

namespace Node

/-- The body item that a node is. -/
def bodyItem? : Node → Option BodyItem
  | statement s => some (.statement s)
  | container (.control c) => some (.control c)
  | _ => none

/-- The section item that a node is. -/
def sectionItem? : Node → Option SectionItem
  | statement s => some (.statement s)
  | container (.block b) => some (.block b)
  | _ => none

/-- The section that a node is. -/
def section? : Node → Option Section
  | container (.sect s) => some s
  | _ => none

/-- Whether a node is a file. -/
def isFile : Node → Bool
  | container (.file _) => true
  | _ => false

/-- What is wrong with a node in a body. -/
def bodyIssues (n : Node) : List Issue :=
  match n.bodyItem? with
  | some item => item.issues
  | none => [⟨.notInBody n.type, n.start⟩]

end Node

/-- The children of a container. -/
def Container.children : Container → List Node
  | .file f => f.sections.map fun s => .container (.sect s)
  | .sect s => s.body.map fun
    | .statement s => .statement s
    | .block b => .container (.block b)
  | .block b => b.body.map itemNode
  | .control c => c.body.map itemNode
  | .branch b => b.body.map itemNode
where
  /-- A body item as a node. -/
  itemNode : BodyItem → Node
    | .statement s => .statement s
    | .control c => .container (.control c)

/-- Why an edit is not made. -/
inductive EditFault where
  /-- It would make the tree invalid. -/
  | refused (issue : Issue)
  /-- A container would stand inside itself. -/
  | circular
  /-- A file would stand in a section. -/
  | fileInSection
  /-- It cannot be checked. -/
  | uncheckable

/-- A new tree, unless there are issues. -/
def refuseFirst {α : Type} (new : α) : List Issue → Except EditFault α
  | [] => .ok new
  | issue :: _ => .error (.refused issue)

namespace SharedFile

/-- Set the sections of a file. -/
def setSections (f : SharedFile) (sections : List Section) : Except EditFault SharedFile :=
  if sections.any (·.isUncheckable) then .error .uncheckable
  else refuseFirst (f.withSections sections) (sectionsIssues sections)

/-- Set the items of a section. -/
def setItems (f : SharedFile) (s : Section) (items : List SectionItem) :
    Except EditFault SharedFile :=
  let (new, next) := threadList SectionItem.labelled f.next items
  let cells := (new.foldl Cells.addSectionItem f.cells).setSection s.label new
  if isUncheckable s.kind items then .error .uncheckable
  else refuseFirst { f with cells, next } (sectionIssues s.kind items)

/-- Set the items of a body. -/
def setBody (f : SharedFile) (c : Container) (nodes : List Node) :
    Except EditFault SharedFile := do
  let items := nodes.filterMap Node.bodyItem?
  let (new, next) := labelBody f.next items
  let cells := (f.cells.addBody new).setBody c.label new
  let result ← refuseFirst { f with cells, next } (nodes.flatMap Node.bodyIssues)
  if (enteredContainers (bodySteps items)).any fun inner => inner.label = c.label then
    throw .circular
  pure result

/-- Set the children of a container, given by its number.  There is no result when the
file has no such container, or when nodes can by no means be its children. -/
def setChildren (f : SharedFile) (number : Nat) (nodes : List Node) :
    Option (Except EditFault SharedFile) :=
  match f.file.containers[number]? with
  | none => none
  | some (.file _) => (nodes.mapM Node.section?).map f.setSections
  | some (.sect s) =>
    ((nodes.filter fun n => !n.isFile).mapM Node.sectionItem?).map fun items =>
      if nodes.any (·.isFile) then .error .fileInSection else f.setItems s items
  | some c => if nodes.any fun n => n.section?.isSome then none else some (f.setBody c nodes)

/-- Replace a statement wherever it stands. -/
def replaceStatement (name : String) (f : SharedFile) (old new : Statement) :
    Transformed SharedFile :=
  f.run
    { name
      statement := fun _ _ s => if s.label = old.label then .put new else .keep }

/-- Replace a section, given by its number, by itself with a line break at its end. -/
def terminateSection (f : SharedFile) (number : Nat) (newline : String) :
    Option (Except EditFault SharedFile) :=
  let sections := f.file.sections
  (sections[number]?).map fun s =>
    f.setSections (sections.set number (s.terminate newline))

end SharedFile

end RobotSuite
