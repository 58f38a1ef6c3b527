/-
# Scopes of directives

Walking through a file, a scope keeps the containers around the current place and, for
each of them but branches, which passes have been switched off or on.  The innermost
frame that speaks of a pass decides.  A directive on a header holds for its container, a
directive on a line of its own from there to the end of its container, and one in front
of the first header for the whole file.
-/

import RobotSuite.Directive
import RobotSuite.Tree

namespace RobotSuite

/-- What the directives of one container say: for a pass, or for all passes under the
key `*`, whether it is switched off. -/
abbrev Frame := List (String × Bool)

namespace Frame

/-- The key that stands for all passes. -/
def everyPass : String := "*"

/-- Set one entry of a frame. -/
def set (f : Frame) (pass : String) (off : Bool) : Frame :=
  (pass, off) :: f.filter fun e => e.1 != pass

/-- What a frame says after a directive.  One that speaks of every pass replaces all
that was said before. -/
def apply (f : Frame) (d : Directive) : Frame :=
  if d.passes.isEmpty then [(everyPass, !d.enabled)]
  else d.passes.foldl (fun f pass => f.set pass !d.enabled) f

/-- Whether the frame switches a pass off or on, or does not speak of it. -/
def entry? (f : Frame) (pass : String) : Option Bool :=
  f.lookup pass <|> f.lookup everyPass

end Frame

/-- The frames in force, the innermost first. -/
abbrev Frames := List Frame

namespace Frames

/-- Apply a directive to the innermost frame. -/
def applyInner : Frames → Directive → Frames
  | [], _ => []
  | f :: fs, d => f.apply d :: fs

/-- Apply a directive to the outermost frame. -/
def applyOuter : Frames → Directive → Frames
  | [], _ => []
  | [f], d => [f.apply d]
  | f :: g :: fs, d => f :: applyOuter (g :: fs) d

/-- Whether a pass is switched off: the innermost frame that speaks of it decides. -/
def disables (fs : Frames) (pass : String) : Bool :=
  (fs.findSome? fun f => f.entry? pass).getD false

/-- A directive opens no frame. -/
@[simp] theorem length_applyInner (fs : Frames) (d : Directive) :
    (applyInner fs d).length = fs.length := by
  cases fs <;> rfl

/-- A directive opens no frame. -/
@[simp] theorem length_applyOuter (fs : Frames) (d : Directive) :
    (applyOuter fs d).length = fs.length := by
  induction fs with
  | nil => rfl
  | cons f fs ih => cases fs <;> simp_all [applyOuter]

end Frames

/-- What surrounds a place in a file. -/
structure Scope where
  /-- The containers around it, the innermost first. -/
  ancestors : List Container := []
  /-- The frames in force, the innermost first. -/
  frames : Frames := []

namespace Scope

/-- Enter a container. -/
def enter (sc : Scope) (c : Container) : Scope :=
  { ancestors := c :: sc.ancestors
    frames :=
      if c.isBranch then sc.frames
      else
        let frame : Frame := []
        ((c.header?.bind Statement.directive?).elim frame frame.apply) :: sc.frames }

/-- Leave the innermost container. -/
def leave (sc : Scope) : Scope :=
  { ancestors := sc.ancestors.tail
    frames := if sc.ancestors.head?.any (·.isBranch) then sc.frames else sc.frames.tail }

/-- Take note of a statement: a comment may switch passes off or on. -/
def note (sc : Scope) (s : Statement) : Scope :=
  if s.type = .comment then
    match s.directive? with
    | none => sc
    | some d =>
      if sc.ancestors.head?.any (·.isHeaderless) then
        { sc with frames := sc.frames.applyOuter d }
      else { sc with frames := sc.frames.applyInner d }
  else sc

/-- Whether a pass leaves a statement alone.  A directive behind the statement itself
counts as well. -/
def disables (sc : Scope) (pass : String) (s : Statement) : Bool :=
  (s.type != .comment && s.directive?.any (·.disables pass)) || sc.frames.disables pass

/-- The innermost container of a given type. -/
def nearest? (sc : Scope) (type : NodeType) : Option Container :=
  sc.ancestors.find? fun c => c.type = type

/-- The section around a place. -/
def section? (sc : Scope) : Option Section :=
  sc.ancestors.findSome? fun
    | .sect s => some s
    | _ => none

/-- The container right around the place. -/
def parent? (sc : Scope) : Option Container := sc.ancestors.head?

/-- Levels of indentation of a statement: one for each test case, keyword and control
block around it.  Headers of those, branch headers and END stand one level out. -/
def depth (sc : Scope) (s : Statement) : Int :=
  sc.ancestors.countP (·.isNesting) - if s.type.isOuter then 1 else 0

end Scope

/-- Whether a directive on the header of a section, or on a line of its own between the
items of the section, switches a pass off. -/
def Section.disables (s : Section) (pass : String) : Bool :=
  (s.header.bind Statement.directive?).any (·.disables pass) ||
    (s.body.filterMap SectionItem.statement?).any fun c =>
      c.type = .comment && c.directive?.any (·.disables pass)

/-- Whether a directive at the level of sections switches a pass off. -/
def File.disablesInSections (f : File) (pass : String) : Bool :=
  f.sections.any (·.disables pass)

end RobotSuite
