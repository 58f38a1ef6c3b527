/-
# Transforms of a file

A transform walks through a file, may replace each statement by another, and may replace
the children of each container when the walk leaves it.  What it asks for is checked
first: a replacement that would make the tree invalid is refused, and the node stays as
it was.  The walk shows the same scopes as `File.visits`; directives are read off the
statements as they were in front of the transform.

A transform that cannot make or check a replacement breaks off.  What it has done stays done, but
the containers that the walk has not left by then keep their headers and ENDs.
-/

import RobotSuite.Limit
import RobotSuite.Walk
import RobotSuite.Tree.Validity

namespace RobotSuite

/-- The place at which a walk leaves a container. -/
structure Place where
  /-- The scope inside the container. -/
  scope : Scope
  /-- Statements met so far. -/
  index : Nat
  /-- Whether a further block of the same section follows. -/
  blockFollows : Bool
  /-- Whether a further section follows. -/
  sectionFollows : Bool

/-- An item, and whether directives switch the transform off at its last statement. -/
abbrev Marked (α : Type) := α × Bool

/-- The items without their marks. -/
def unmark {α : Type} (items : List (Marked α)) : List α := items.map (·.1)

/-- Why a transform breaks off. -/
inductive Breakdown where
  /-- A replacement would be too large. -/
  | overflow (o : Overflow)
  /-- A replacement cannot be checked. -/
  | uncheckable
deriving Repr, DecidableEq, Inhabited

/-- The wording of a breakdown. -/
def Breakdown.message : Breakdown → String
  | .overflow o => o.message
  | .uncheckable => checkFails

/-- What a transform decides at a node. -/
inductive Decision (α : Type) where
  /-- The node stays as it is. -/
  | keep
  /-- Something takes the place of the node, or of its children. -/
  | put (new : α)
  /-- There can be no replacement, and the transform breaks off. -/
  | breakOff (reason : Breakdown)
deriving Repr, DecidableEq, Inhabited

namespace Decision

/-- A replacement, if there is one. -/
def ofOption {α : Type} : Option α → Decision α
  | none => keep
  | some new => put new

/-- A decision that breaks off if the replacement cannot be checked. -/
def guarded {α : Type} (fails : α → Bool) : Decision α → Decision α
  | put new => if fails new then breakOff .uncheckable else put new
  | decision => decision

/-- A guarded decision puts what passes the guard. -/
theorem guarded_eq_put_iff {α : Type} {fails : α → Bool} {d : Decision α} {new : α} :
    d.guarded fails = .put new ↔ d = .put new ∧ fails new = false := by
  cases d with
  | put x =>
    cases hx : fails x with
    | true => simpa [guarded, hx] using fun he => he ▸ hx
    | false => simpa [guarded, hx] using fun he => he ▸ hx
  | keep => simp [guarded]
  | breakOff reason => simp [guarded]

end Decision

/-- A transform of files. -/
structure Transform where
  /-- The name by which directives switch it off. -/
  name : String
  /-- The replacement of a statement, given how many were met before it. -/
  statement : Scope → Nat → Statement → Decision Statement := fun _ _ _ => .keep
  /-- The new items of a body, given the mark of the header in front of it. -/
  leaveBody : Place → Bool → List (Marked BodyItem) → Decision (List (Marked BodyItem)) :=
    fun _ _ _ => .keep
  /-- The new items of a section, given its header and the mark of that. -/
  leaveSection : Place → Option (Marked Statement) → List (Marked SectionItem) →
    Decision (List (Marked SectionItem)) := fun _ _ _ => .keep
  /-- The new sections of a file. -/
  leaveFile : Place → List Section → Decision (List Section) := fun _ _ => .keep

/-- How far a transform has come. -/
structure Progress where
  /-- The scope behind the last step. -/
  scope : Scope := {}
  /-- Statements met so far. -/
  index : Nat := 0
  /-- Why replacements were refused, in order. -/
  refused : List Issue := []
  /-- Why the transform broke off. -/
  broken : Option Breakdown := none
  /-- Labels of statements at which directives have switched the transform off. -/
  off : List Nat := []
  /-- Whether a further block of the same section follows. -/
  blockFollows : Bool := false
  /-- Whether a further section follows. -/
  sectionFollows : Bool := false

namespace Progress

/-- Enter a container. -/
def enter (p : Progress) (c : Container) : Progress := { p with scope := p.scope.enter c }

/-- Leave the innermost container. -/
def leave (p : Progress) : Progress := { p with scope := p.scope.leave }

/-- The place at which a container is left. -/
def place (p : Progress) : Place := ⟨p.scope, p.index, p.blockFollows, p.sectionFollows⟩

/-- Carry out a decision about what stands at a place.  `issues` tells what is wrong with
a replacement, which is refused if there is anything. -/
def carryOut {α : Type} (p : Progress) (old : α) (issues : α → List Issue) :
    Decision α → α × Progress
  | .keep => (old, p)
  | .put new =>
    match issues new with
    | [] => (new, p)
    | issue :: _ => (old, { p with refused := p.refused ++ [issue] })
  | .breakOff reason => (old, { p with broken := some reason })

/-- A part of a container that is left: the new one, unless the transform has broken off. -/
def settle {α : Type} (p : Progress) (old new : α) : α := if p.broken.isSome then old else new

/-- Note that directives switch the transform off at a statement. -/
def switchOff (p : Progress) (s : Statement) : Progress :=
  match s.label with
  | none => p
  | some label => { p with off := label :: p.off }

/-- Whether directives have switched the transform off at a statement, here or at another
place where it stands. -/
def isOff (p : Progress) (s : Statement) : Bool := s.label.any p.off.contains

/-- Items with marks that also count other places at which their last statements stand. -/
def remark {α : Type} (p : Progress) (statements : α → List Statement)
    (items : List (Marked α)) : List (Marked α) :=
  if p.off.isEmpty then items
  else items.map fun (item, off) => (item, off || (statements item).getLast?.any p.isOff)

/-- Nothing is marked where nothing is off. -/
theorem remark_of_off_eq_nil {α : Type} {p : Progress} (h : p.off = [])
    (statements : α → List Statement) (items : List (Marked α)) :
    p.remark statements items = items := by
  simp [remark, h]

end Progress

/-- The mark of the last item, or of what stands in front of the items. -/
def lastMark {α : Type} (front : Bool) (items : List (Marked α)) : Bool :=
  (items.getLast?.map (·.2)).getD front

/-- What is wrong with replacing a statement by another. -/
def replacementIssues (old new : Statement) : List Issue :=
  (if new.type = old.type then [] else [⟨.retyped old.type new.type, old.span.start⟩]) ++
    new.issues

namespace Transform

/-- Transform one statement. -/
def onStatement (t : Transform) (p : Progress) (s : Statement) : Marked Statement × Progress :=
  let scope := p.scope.note s
  let off := scope.disables t.name s
  let next := { p with scope, index := p.index + 1 }
  let next := if off then next.switchOff s else next
  match p.broken with
  | some _ => ((s, off), next)
  | none =>
    let (result, next) := next.carryOut s (replacementIssues s) (t.statement scope p.index s)
    ((result, off), next)

/-- Replace the items of a body that is left. -/
def onBody (t : Transform) (p : Progress) (header : Bool) (items : List (Marked BodyItem)) :
    List (Marked BodyItem) × Progress :=
  match p.broken with
  | some _ => (items, p)
  | none =>
    let items := p.remark BodyItem.statements items
    p.carryOut items (fun new => bodyIssues (unmark new)) (t.leaveBody p.place header items)

/-- Transform a header or an END, if there is one. -/
def onStatement? (t : Transform) (p : Progress) :
    Option Statement → Option (Marked Statement) × Progress
  | none => (none, p)
  | some s =>
    let (s, p) := t.onStatement p s
    (some s, p)

mutual

/-- Transform an item of a body. -/
def onItem (t : Transform) (p : Progress) : BodyItem → Marked BodyItem × Progress
  | .statement s =>
    let ((s, off), p) := t.onStatement p s
    ((.statement s, off), p)
  | .control c =>
    let ((c, off), p) := t.onControl p c
    ((.control c, off), p)

/-- Transform a control block. -/
def onControl (t : Transform) (p : Progress) : ControlBlock → Marked ControlBlock × Progress
  | ⟨type, span, header, body, branches, close, label⟩ =>
    let p := p.enter (.control ⟨type, span, header, body, branches, close, label⟩)
    let ((newHeader, headerOff), p) := t.onStatement p header
    let (items, p) := t.onItems p body
    let (branches, p) := t.onBranches p branches
    let (newClose, p) := t.onStatement? p close
    let (items, p) := t.onBody p headerOff items
    let off := (newClose.map (·.2)).getD (lastMark (lastMark headerOff items) branches)
    ((⟨type, span, p.settle header newHeader, unmark items, unmark branches,
      p.settle close (newClose.map (·.1)), label⟩, off), p.leave)

/-- Transform the items of a body. -/
def onItems (t : Transform) (p : Progress) : List BodyItem → List (Marked BodyItem) × Progress
  | [] => ([], p)
  | item :: items =>
    let (item, p) := t.onItem p item
    let (items, p) := t.onItems p items
    (item :: items, p)

/-- Transform a branch. -/
def onBranch (t : Transform) (p : Progress) : Branch → Marked Branch × Progress
  | ⟨span, header, body, label⟩ =>
    let p := p.enter (.branch ⟨span, header, body, label⟩)
    let ((newHeader, headerOff), p) := t.onStatement p header
    let (items, p) := t.onItems p body
    let (items, p) := t.onBody p headerOff items
    ((⟨span, p.settle header newHeader, unmark items, label⟩, lastMark headerOff items), p.leave)

/-- Transform the branches of a control block. -/
def onBranches (t : Transform) (p : Progress) : List Branch → List (Marked Branch) × Progress
  | [] => ([], p)
  | b :: bs =>
    let (b, p) := t.onBranch p b
    let (bs, p) := t.onBranches p bs
    (b :: bs, p)

end

/-- Transform a block. -/
def onBlock (t : Transform) (p : Progress) (b : Block) : Marked Block × Progress :=
  let p := p.enter (.block b)
  let ((header, headerOff), p) := t.onStatement p b.header
  let (items, p) := t.onItems p b.body
  let (items, p) := t.onBody p headerOff items
  (({ b with header := p.settle b.header header, body := unmark items },
    lastMark headerOff items), p.leave)

/-- Transform the items of a section. -/
def onSectionItems (t : Transform) (p : Progress) :
    List SectionItem → List (Marked SectionItem) × Progress
  | [] => ([], p)
  | .statement s :: rest =>
    let ((s, off), p) := t.onStatement p s
    let (rest, p) := t.onSectionItems p rest
    ((.statement s, off) :: rest, p)
  | .block b :: rest =>
    let ((b, off), p) := t.onBlock { p with blockFollows := rest.any (·.isBlock) } b
    let (rest, p) := t.onSectionItems p rest
    ((.block b, off) :: rest, p)

/-- Replace the items of a section that is left. -/
def onSectionBody (t : Transform) (p : Progress) (kind : SectionKind)
    (header : Option (Marked Statement)) (items : List (Marked SectionItem)) :
    List (Marked SectionItem) × Progress :=
  match p.broken with
  | some _ => (items, p)
  | none =>
    let items := p.remark SectionItem.statements items
    p.carryOut items (fun new => sectionIssues kind (unmark new))
      ((t.leaveSection p.place header items).guarded fun new => isUncheckable kind (unmark new))

/-- Transform a section. -/
def onSection (t : Transform) (p : Progress) (s : Section) : Section × Progress :=
  let p := p.enter (.sect s)
  let (header, p) := t.onStatement? p s.header
  let (items, p) := t.onSectionItems p s.body
  let (items, p) := t.onSectionBody p s.kind header items
  ({ s with header := p.settle s.header (header.map (·.1)), body := unmark items }, p.leave)

/-- Transform the sections of a file. -/
def onSections (t : Transform) (p : Progress) : List Section → List Section × Progress
  | [] => ([], p)
  | s :: rest =>
    let (s, p) := t.onSection { p with sectionFollows := !rest.isEmpty } s
    let (rest, p) := t.onSections p rest
    (s :: rest, p)

/-- Replace the sections of a file that is left. -/
def onFileBody (t : Transform) (p : Progress) (sections : List Section) :
    List Section × Progress :=
  match p.broken with
  | some _ => (sections, p)
  | none =>
    p.carryOut sections sectionsIssues
      ((t.leaveFile p.place sections).guarded fun new => new.any (·.isUncheckable))

end Transform

/-- What a transform has led to. -/
structure Transformed (α : Type) where
  /-- The new tree. -/
  tree : α
  /-- Why replacements were refused, in order. -/
  refused : List Issue
  /-- Why the transform broke off, if it did. -/
  broken : Option Breakdown

/-- Transform a file. -/
def Transform.run (t : Transform) (f : File) : Transformed File :=
  let (sections, p) := t.onSections (({} : Progress).enter (.file f)) f.sections
  let (sections, p) := t.onFileBody p sections
  ⟨{ f with sections }, p.refused, p.broken⟩

end RobotSuite
