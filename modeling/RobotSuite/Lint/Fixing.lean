/-
# Applying fixes

The fixes of diagnostics are applied from the end of the source to its start.  A fix that
overlaps one already chosen is left out, and when the result would have more defects than
the source, nothing is changed at all.
-/

import RobotSuite.Lint.Diagnostic
import RobotSuite.Tree.Parse

namespace RobotSuite

/-- A change of a source between two offsets. -/
structure Change where
  /-- The code of the diagnostic that asks for it. -/
  code : String
  /-- Where it starts. -/
  start : Int
  /-- Where it ends. -/
  stop : Int
  /-- The new text. -/
  replacement : String
deriving Repr, DecidableEq, Inhabited

/-- Why a fix was left out. -/
inductive FixRefusal where
  /-- Its range overlaps with that of another fix. -/
  | overlap
  /-- The fixes together would bring in defects. -/
  | defects
deriving Repr, DecidableEq, Inhabited

/-- The wording of a refusal. -/
def FixRefusal.message : FixRefusal → String
  | .overlap => "Fix range overlaps with another fix"
  | .defects => "Fixes would introduce parse errors"

/-- What applying fixes has led to. -/
structure FixResult where
  /-- The new source. -/
  modified : String
  /-- How many fixes were applied. -/
  applied : Nat
  /-- The fixes that were left out, by the codes of their diagnostics. -/
  refused : List (String × FixRefusal)
deriving Repr, DecidableEq, Inhabited

namespace Change

/-- The change that a diagnostic asks for, if it may be made. -/
def ofDiagnostic? (d : Diagnostic) : Option Change :=
  (d.fix.filter fun f => f.applicable && 0 ≤ f.range.start.offset).map fun f =>
    ⟨d.code, f.range.start.offset, f.range.stop.offset, f.replacement⟩

/-- Whether two changes cannot both be made.  Two insertions collide at one place only. -/
def overlaps (a b : Change) : Bool :=
  if a.start = a.stop && b.start = b.stop then a.start = b.start
  else a.start < b.stop && b.start < a.stop

/-- An offset within a text of some length.  A negative one counts from the end. -/
def clamp (length : Nat) (offset : Int) : Nat :=
  if offset < 0 then (length + offset).toNat else min length offset.toNat

/-- Make one change in the code units of a text. -/
def apply (units : List Nat) (c : Change) : List Nat :=
  units.take (clamp units.length c.start) ++ Text.unitsOf c.replacement ++
    units.drop (clamp units.length c.stop)

/-- Make changes in a text, one after the other. -/
def applyAll (source : String) (cs : List Change) : String :=
  Text.ofUnits (cs.foldl apply (Text.unitsOf source))

/-- The changes that can be made together, the first that is given being preferred, and
those that cannot; `kept` holds those already chosen. -/
def choose (kept : List Change) : List Change → List Change × List Change
  | [] => ([], [])
  | c :: cs =>
    if kept.any c.overlaps then
      let (valid, refused) := choose kept cs
      (valid, c :: refused)
    else
      let (valid, refused) := choose (kept ++ [c]) cs
      (c :: valid, refused)

/-- Changes from the end of the source to its start, those that end at one place as they
are. -/
def fromEnd (cs : List Change) : List Change := cs.mergeSort fun a b => b.stop ≤ a.stop

end Change

/-- Apply the fixes of some diagnostics. -/
def applyFixes (source : String) (ds : List Diagnostic) : FixResult :=
  let changes := Change.fromEnd (ds.filterMap Change.ofDiagnostic?)
  let (valid, refused) := Change.choose [] changes
  let modified := Change.applyAll source valid
  if (parse source).errors.length < (parse modified).errors.length then
    ⟨source, 0, changes.map fun c => (c.code, .defects)⟩
  else ⟨modified, valid.length, refused.map fun c => (c.code, .overlap)⟩

/-- Apply the fixes of some diagnostics, unless the source or the result cannot be read. -/
def applyFixes? (source : String) (ds : List Diagnostic) : Except Failure FixResult := do
  let changes := Change.fromEnd (ds.filterMap Change.ofDiagnostic?)
  if !changes.isEmpty then
    let _ ← parse? source
    let _ ← parse? (Change.applyAll source (Change.choose [] changes).1)
  return applyFixes source ds

end RobotSuite
