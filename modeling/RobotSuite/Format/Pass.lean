/-
# Formatter passes

A pass plans a transform of the model of a file.  It may fail before or in the middle of
its work, and it tells which of its replacements were refused.
-/

import RobotSuite.Format.Config
import RobotSuite.Tree.Shared
import RobotSuite.Notice

namespace RobotSuite

/-- What a pass works with. -/
structure PassSetup where
  /-- The configuration of the formatter. -/
  config : FormatConfig
  /-- Values of the parameters of the pass. -/
  params : Params
  /-- The line ending of the file. -/
  newline : String
deriving Repr

/-- A formatter pass. -/
structure Pass where
  /-- What the pass declares. -/
  info : PassInfo
  /-- The transform of a file; or why the pass failed. -/
  plan : PassSetup → File → Except String Transform

/-- Why a pass failed. -/
inductive PassFault where
  /-- It failed before it had a transform. -/
  | unplanned (reason : String)
  /-- Its transform broke off. -/
  | brokenOff (b : Breakdown)
deriving Repr, DecidableEq, Inhabited

/-- The reason for which a pass failed. -/
def PassFault.reason : PassFault → String
  | .unplanned reason => reason
  | .brokenOff b => b.message

/-- What a pass has led to. -/
structure PassResult (α : Type) where
  /-- The model behind the pass. -/
  tree : α
  /-- Why replacements were refused, in order. -/
  refused : List Issue := []
  /-- Why the pass failed, if it did. -/
  fault : Option PassFault := none

/-- What the transform of a pass has led to. -/
def PassResult.ofTransformed {α : Type} (r : Transformed α) : PassResult α :=
  ⟨r.tree, r.refused, r.broken.map .brokenOff⟩

namespace Pass

/-- The name of a pass. -/
def name (p : Pass) : String := p.info.name

/-- A pass that plans a transform whatever the file. -/
def ofTransform (info : PassInfo) (t : PassSetup → File → Transform) : Pass :=
  { info, plan := fun setup f => pure (t setup f) }

/-- A pass that may replace each statement in its scope, unless directives switch it off
there. -/
def ofStatements (info : PassInfo) (f : PassSetup → Scope → Statement → Decision Statement) :
    Pass :=
  ofTransform info fun setup _ =>
    { name := info.name
      statement := fun scope _ s =>
        if scope.disables info.name s then .keep else f setup scope s }

/-- Run a pass over a file whose nodes may stand at several places. -/
def applyShared (p : Pass) (setup : PassSetup) (f : SharedFile) : PassResult SharedFile :=
  match p.plan setup f.file with
  | .error reason => { tree := f, fault := some (.unplanned reason) }
  | .ok t => .ofTransformed (f.run t)

/-- Run a pass over a file. -/
def apply (p : Pass) (setup : PassSetup) (f : File) : PassResult File :=
  match p.plan setup f with
  | .error reason => { tree := f, fault := some (.unplanned reason) }
  | .ok t => .ofTransformed (t.run f)

end Pass

end RobotSuite
