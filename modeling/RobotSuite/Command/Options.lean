/-
# Options

Arguments that start with a dash are options.  Some options take the argument behind them
as their value; all other arguments are files.  Of an option that is given several times
the first counts.
-/

import RobotSuite.Number.Literal
import RobotSuite.Number.Shortest

namespace RobotSuite

/-- What may be wrong with the arguments of a command. -/
inductive ArgumentFault where
  /-- There is no such option. -/
  | unknownOption (argument : String)
  /-- An option has no value. -/
  | missingValue (option : String)
  /-- No file is named. -/
  | missingFile
  /-- The output format is none of the formats. -/
  | badFormat (value : String)
  /-- The threshold is none of the severities. -/
  | badThreshold (value : String)
  /-- The number of files processed at once is not a positive whole number. -/
  | badConcurrency (value : String)
deriving Repr, DecidableEq, Inhabited

/-- The wording of a fault. -/
def ArgumentFault.message : ArgumentFault → String
  | unknownOption argument => s!"Unknown option: {argument}"
  | missingValue option => s!"{option} requires an argument"
  | missingFile => "Missing file argument"
  | badFormat value => s!"Invalid format: {value}. Expected text or json"
  | badThreshold value => s!"Invalid threshold: {value}. Expected error, warning or info"
  | badConcurrency value => s!"Invalid concurrency: {value}. Expected a positive integer"

/-- The options that a command knows. -/
structure OptionTable where
  /-- Options that stand alone. -/
  flags : List String
  /-- Options that take a value. -/
  valued : List String
deriving Repr, DecidableEq, Inhabited

namespace OptionTable

/-- Whether an argument is an option. -/
def isOption (argument : String) : Bool := argument.toList.head? = some '-'

/-- Whether a command knows an option. -/
def knows (t : OptionTable) (option : String) : Bool :=
  t.flags.contains option || t.valued.contains option

/-- The files among some arguments. -/
def files (t : OptionTable) : List String → Except ArgumentFault (List String)
  | [] => pure []
  | [argument] =>
    if !isOption argument then pure [argument]
    else if t.knows argument then pure []
    else throw (.unknownOption argument)
  | argument :: next :: rest =>
    if !isOption argument then do pure (argument :: (← t.files (next :: rest)))
    else if !t.knows argument then throw (.unknownOption argument)
    else if t.valued.contains argument then t.files rest
    else t.files (next :: rest)

/-- The files among some arguments, of which there must be one. -/
def someFiles (t : OptionTable) (arguments : List String) :
    Except ArgumentFault (List String) := do
  let found ← t.files arguments
  if found.isEmpty then throw .missingFile else pure found

end OptionTable

/-- The value of an option, wherever the option stands. -/
def optionValue? (option : String) : List String → Except ArgumentFault (Option String)
  | [] => pure none
  | [argument] => if argument = option then throw (.missingValue option) else pure none
  | argument :: next :: rest =>
    if argument = option then
      if OptionTable.isOption next then throw (.missingValue option) else pure (some next)
    else optionValue? option (next :: rest)

/-- The value of an option as `read` understands it. -/
def readOption {α : Type} (option : String) (read : String → Except ArgumentFault α)
    (arguments : List String) : Except ArgumentFault (Option α) := do
  match ← optionValue? option arguments with
  | none => pure none
  | some value => pure (some (← read value))

/-- A number of files processed at once. -/
def readConcurrency (value : String) : Except ArgumentFault Nat :=
  match Number.ofText? value with
  | some q => if q.den = 1 && 1 ≤ q.num then pure q.num.toNat else throw (.badConcurrency value)
  | none => throw (.badConcurrency value)

end RobotSuite
