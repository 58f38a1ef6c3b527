/-
# Gaps between cells

Each line is indented by its depth, its cells are kept apart by the configured separator,
and nothing stands behind its last cell or comment.  Comment sections are free text.
-/

import RobotSuite.Format.Pass
import RobotSuite.Format.Layout

namespace RobotSuite
namespace Gaps

/-- Lines laid out with one indentation and one separator. -/
def relay (indent separator : String) (tokens : List Token) : List Token :=
  (LineLayout.ofTokens tokens).flatMap fun line =>
    composeLine indent line separator fun _ => separator

/-- The indentation of a statement by its depth, unless it is too long. -/
def indentAt (setup : PassSetup) (sc : Scope) (s : Statement) : Except Overflow String :=
  spaces? ((sc.depth s).toNat * setup.config.indent)

/-- The tokens of a statement with gaps as configured. -/
def spaced (setup : PassSetup) (sc : Scope) (s : Statement) : Except Overflow (List Token) :=
  if s.type = .emptyLine then .ok [endingOf s.tokens]
  else (indentAt setup sc s).map fun indent => relay indent setup.config.separator s.tokens

/-- Whether the section around a statement is laid out at all. -/
def isLaidOut (sc : Scope) : Bool :=
  sc.section?.any fun sect => sect.kind != .comments && sect.kind != .invalid

/-- A statement with gaps as configured, unless its text does not change. -/
def space (setup : PassSetup) (sc : Scope) (s : Statement) : Decision Statement :=
  if s.type = .error || !isLaidOut sc then .keep
  else
    match spaced setup sc s with
    | .error reason => .breakOff (.overflow reason)
    | .ok tokens => if renderTokens tokens = s.text then .keep else .put (s.withTokens tokens)

/-- What the pass declares. -/
def info : PassInfo :=
  { name := "NORMALIZE_SEPARATORS"
    description := "Normalize indentation and separators between cells" }

/-- **Gaps between cells.** -/
def pass : Pass := .ofStatements info space

end Gaps
end RobotSuite
