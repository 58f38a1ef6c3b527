/-
# Formatting

The passes that a configuration switches on run one after the other over the model of a
file, and the result is written as text.  A file with defects is left alone, and a pass
that fails leaves the model to the next one as it has come to be.
-/

import RobotSuite.Format.Registry
import RobotSuite.Tree.Parse

namespace RobotSuite

/-- What running passes has led to. -/
structure FormatRun where
  /-- The model behind the last pass. -/
  file : File
  /-- The passes that ran. -/
  applied : List String := []
  /-- Why the file was left alone. -/
  skipped : Option String := none
  /-- Notices, in order. -/
  notices : List Notice := []

/-- Why a file with defects is left alone. -/
def hasDefects : String := "File has parse errors"

namespace FormatRun

/-- Run one pass if the configuration switches it on. -/
def step (config : FormatConfig) (run : FormatRun) (p : Pass) : FormatRun :=
  if config.runs p.info then
    let setup : PassSetup := ⟨config, config.paramsOf p.name, run.file.newline.text⟩
    let result := p.apply setup run.file
    let refused := result.refused.map (Notice.skip p.name)
    match result.fault with
    | none =>
      { run with
        file := result.tree
        applied := run.applied ++ [p.name]
        notices := run.notices ++ refused }
    | some fault =>
      { run with
        file := result.tree
        notices := run.notices ++ refused ++ [Notice.passFault p.name fault.reason] }
  else run

end FormatRun

/-- Run passes over a model. -/
def formatFile (f : File) (config : FormatConfig) (passes : List Pass) : FormatRun :=
  if f.errors.isEmpty then passes.foldl (FormatRun.step config) { file := f }
  else
    { file := f
      skipped := some hasDefects
      notices := [Notice.notFormatted hasDefects f.errors.length] }

/-- The text of a valid model, or the first thing that is wrong with it. -/
def File.renderStrict (f : File) : Except Failure String :=
  match f.check with
  | .error failure => .error failure
  | .ok [] => .ok f.render
  | .ok (issue :: _) => .error (.render issue.flaw.message (some issue.location.spot))

/-- A text that has been formatted. -/
structure Formatted where
  /-- The new text. -/
  text : String
  /-- Whether it differs from the old one. -/
  changed : Bool
  /-- Why the text was left alone. -/
  skipped : Option String
deriving Repr, DecidableEq, Inhabited

/-- Format a source, with the notices of the passes. -/
def formatSource (source : String) (config : FormatConfig) (passes : List Pass) :
    Except Failure Formatted × List Notice :=
  match parse? source with
  | .error failure => (.error failure, [])
  | .ok f =>
    let run := formatFile f config passes
    match run.skipped with
    | some reason => (.ok ⟨source, false, some reason⟩, run.notices)
    | none =>
      (run.file.renderStrict.map fun text => ⟨text, text != source, none⟩, run.notices)

end RobotSuite
