/-
# Transforms of shared nodes

In a file that is edited by hand a node may stand at several places.  A transform meets it
at each of them, and finds there what it has made of its items at the places before.  A
statement that it replaces at one place is a new statement, and stays what it was at the
others.  Otherwise the walk is that of `Transform.run`, with which it shares its steps.
-/

import RobotSuite.Tree.Cells
import RobotSuite.Tree.Transform

namespace RobotSuite

/-- A file whose nodes may stand at several places. -/
structure SharedFile where
  /-- The file.  The items of its sections are in the cells. -/
  base : File
  /-- The items of all containers. -/
  cells : Cells := {}
  /-- A number from which on labels are free. -/
  next : Nat := 0

namespace SharedFile

/-- The file as it is now. -/
def file (f : SharedFile) : File :=
  { f.base with sections := f.base.sections.map f.cells.sect }

/-- The file with other sections. -/
def withSections (f : SharedFile) (sections : List Section) : SharedFile :=
  let (sections, next) := threadList Section.labelled f.next sections
  { base := { f.base with sections }, cells := sections.foldl Cells.addSection f.cells, next }

/-- A file without labels, each of whose nodes stands at one place. -/
def ofFile (f : File) : SharedFile := ({ base := f } : SharedFile).withSections f.sections

end SharedFile

/-! ## What follows a block -/

/-- What follows a block: whether a further block of its section does, and whether a
further section does. -/
abbrev Following := Bool × Bool

/-- What follows the blocks among the items of a section. -/
def followingItems (sectionFollows : Bool) : List SectionItem → List (Option Nat × Following)
  | [] => []
  | .statement _ :: rest => followingItems sectionFollows rest
  | .block b :: rest =>
    (b.label, rest.any (·.isBlock), sectionFollows) :: followingItems sectionFollows rest

/-- What follows the blocks of some sections. -/
def followingSections : List Section → List (Option Nat × Following)
  | [] => []
  | s :: rest => followingItems (!rest.isEmpty) s.body ++ followingSections rest

/-! ## The walk -/

/-- How far a transform of shared nodes has come. -/
structure SharedWalk where
  /-- What it shares with a transform of a file. -/
  progress : Progress := {}
  /-- The items of all containers. -/
  cells : Cells
  /-- A number from which on labels are free. -/
  next : Nat
  /-- What follows each block, the last of the places at which it stands first. -/
  following : List (Option Nat × Following)
  /-- The label of the last section. -/
  lastSection : Option Nat

namespace SharedWalk

/-- Enter a container. -/
def enter (w : SharedWalk) (c : Container) : SharedWalk :=
  { w with progress := w.progress.enter c }

/-- Leave the innermost container. -/
def leave (w : SharedWalk) : SharedWalk := { w with progress := w.progress.leave }

/-- Set what follows the place. -/
def follow (w : SharedWalk) (x : Following) : SharedWalk :=
  { w with progress := { w.progress with blockFollows := x.1, sectionFollows := x.2 } }

/-- Transform one statement. -/
def onStatement (t : Transform) (w : SharedWalk) (s : Statement) : Statement × SharedWalk :=
  let ((s, _), progress) := t.onStatement w.progress s
  let (s, next) := s.labelled w.next
  (s, { w with progress, next })

/-- Transform a header or an END, if there is one. -/
def onStatement? (t : Transform) (w : SharedWalk) :
    Option Statement → Option Statement × SharedWalk
  | none => (none, w)
  | some s =>
    let (s, w) := w.onStatement t s
    (some s, w)

/-- Replace the items of a body that is left. -/
def onBody (t : Transform) (w : SharedWalk) (label : Option Nat) (header : Statement) :
    SharedWalk :=
  let items := ((w.cells.bodies.get? label).getD []).map fun i => (w.cells.item i, false)
  let (items, progress) := t.onBody w.progress (w.progress.isOff header) items
  let (items, next) := labelBody w.next (unmark items)
  { w with progress, next, cells := (w.cells.addBody items).setBody label items }

mutual

/-- Transform an item of a body, to some depth of nesting. -/
def onItem (t : Transform) : Nat → SharedWalk → BodyItem → BodyItem × SharedWalk
  | _, w, .statement s =>
    let (s, w) := w.onStatement t s
    (.statement s, w)
  | 0, w, .control b => (.control b, w)
  | n + 1, w, .control b =>
    let w := w.enter (.control (w.cells.control b))
    let (header, w) := w.onStatement t b.header
    let (items, w) := threadList (onItem t n) w ((w.cells.bodies.get? b.label).getD [])
    let w := { w with cells := w.cells.setBody b.label items }
    let (branches, w) := threadList (onBranch t n) w ((w.cells.branches.get? b.label).getD [])
    let w := { w with cells := w.cells.setBranches b.label branches }
    let (close, w) := w.onStatement? t b.close
    let w := w.onBody t b.label header
    (.control { b with
      header := w.progress.settle b.header header
      close := w.progress.settle b.close close }, w.leave)

/-- Transform a branch, to some depth of nesting. -/
def onBranch (t : Transform) : Nat → SharedWalk → Branch → Branch × SharedWalk
  | 0, w, b => (b, w)
  | n + 1, w, b =>
    let w := w.enter (.branch (w.cells.branch b))
    let (header, w) := w.onStatement t b.header
    let (items, w) := threadList (onItem t n) w ((w.cells.bodies.get? b.label).getD [])
    let w := { w with cells := w.cells.setBody b.label items }
    let w := w.onBody t b.label header
    ({ b with header := w.progress.settle b.header header }, w.leave)

end

/-- Transform a block. -/
def onBlock (t : Transform) (w : SharedWalk) (b : Block) : Block × SharedWalk :=
  let w := w.enter (.block (w.cells.block b))
  let (header, w) := w.onStatement t b.header
  let (items, w) :=
    threadList (onItem t w.cells.depth) w ((w.cells.bodies.get? b.label).getD [])
  let w := { w with cells := w.cells.setBody b.label items }
  let w := (w.follow ((w.following.lookup b.label).getD (false, false))).onBody t b.label header
  ({ b with header := w.progress.settle b.header header }, w.leave)

/-- Transform a section item. -/
def onSectionItem (t : Transform) (w : SharedWalk) : SectionItem → SectionItem × SharedWalk
  | .statement s =>
    let (s, w) := w.onStatement t s
    (.statement s, w)
  | .block b =>
    let (b, w) := w.onBlock t b
    (.block b, w)

/-- Replace the items of a section that is left. -/
def onSectionBody (t : Transform) (w : SharedWalk) (s : Section) (header : Option Statement) :
    SharedWalk :=
  let items := ((w.cells.sections.get? s.label).getD []).map fun i =>
    (w.cells.sectionItem i, false)
  let header := header.map fun h => (h, w.progress.isOff h)
  let (items, progress) := t.onSectionBody w.progress s.kind header items
  let (items, next) := threadList SectionItem.labelled w.next (unmark items)
  let cells := (items.foldl Cells.addSectionItem w.cells).setSection s.label items
  { w with progress, next, cells }

/-- Transform a section. -/
def onSection (t : Transform) (w : SharedWalk) (s : Section) : Section × SharedWalk :=
  let w := w.enter (.sect (w.cells.sect s))
  let (header, w) := w.onStatement? t s.header
  let (items, w) := threadList (onSectionItem t) w ((w.cells.sections.get? s.label).getD [])
  let w := { w with cells := w.cells.setSection s.label items }
  let w := (w.follow (false, s.label != w.lastSection)).onSectionBody t s header
  ({ s with header := w.progress.settle s.header header }, w.leave)

end SharedWalk

namespace SharedFile

/-- A walk at the start of a file. -/
def startWalk (f : SharedFile) : SharedWalk :=
  { progress := ({} : Progress).enter (.file f.file)
    cells := f.cells
    next := f.next
    following := (followingSections f.file.sections).reverse
    lastSection := f.base.sections.getLast?.bind (·.label) }

/-- Transform a file whose nodes may stand at several places. -/
def run (t : Transform) (f : SharedFile) : Transformed SharedFile :=
  let (sections, w) := threadList (SharedWalk.onSection t) f.startWalk f.base.sections
  let (sections, p) := t.onFileBody w.progress (sections.map w.cells.sect)
  let start : SharedFile := { base := f.base, cells := w.cells, next := w.next }
  ⟨start.withSections sections, p.refused, p.broken⟩

end SharedFile

end RobotSuite
