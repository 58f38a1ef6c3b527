/-
# Configuration of the formatter

The formatter knows a line length, an indentation and a separator, and for each pass
whether it is switched on and the values of its parameters.
-/

import RobotSuite.Config.Param
import RobotSuite.Token

namespace RobotSuite

/-- The configuration of one pass. -/
structure PassSetting where
  /-- Whether the pass runs. -/
  enabled : Bool
  /-- Values of its parameters. -/
  params : Params
deriving Repr, DecidableEq, Inhabited

/-- The configuration of the formatter. -/
structure FormatConfig where
  /-- Columns that a line may take. -/
  lineLength : Nat
  /-- Spaces for each level of indentation. -/
  indent : Nat
  /-- The gap between cells. -/
  separator : String
  /-- The configurations of the passes, by name. -/
  passes : Table PassSetting
deriving Repr, DecidableEq, Inhabited

/-- What a pass declares about itself. -/
structure PassInfo where
  /-- Its name, by which directives and configurations speak of it. -/
  name : String
  /-- What it does. -/
  description : String
  /-- Whether it runs unless a configuration says otherwise. -/
  enabled : Bool := true
  /-- Its parameters. -/
  params : List Param := []
deriving Repr, DecidableEq, Inhabited

namespace FormatConfig

/-- The configuration that asks for nothing, for some passes. -/
def standard (passes : List PassInfo) : FormatConfig :=
  { lineLength := 120
    indent := 4
    separator := Text.spaces 4
    passes := passes.foldl
      (fun t p => Table.set t p.name ⟨p.enabled, Params.defaults p.params⟩) [] }

/-- Whether a pass runs. -/
def runs (c : FormatConfig) (p : PassInfo) : Bool :=
  ((c.passes.get? p.name).map (·.enabled)).getD p.enabled

/-- The values of the parameters of a pass. -/
def paramsOf (c : FormatConfig) (name : String) : Params :=
  ((c.passes.get? name).map (·.params)).getD []

/-- A size that a configuration may give. -/
def size (d : Option Document) (field : String) (fallback : Nat) : Except ConfigFault Nat :=
  match d with
  | none => pure fallback
  | some (.number q) =>
    if q.den = 1 && 1 ≤ q.num then pure q.num.toNat else throw (.notPositive field)
  | some _ => throw (.notPositive field)

/-- The separator that a configuration may give: a number of spaces, or blanks that keep
cells apart. -/
def readSeparator (fallback : String) : Option Document → Except ConfigFault String
  | none => pure fallback
  | some (.number q) =>
    if q.den = 1 && 2 ≤ q.num then (spaces? q.num.toNat).mapError .overflow
    else throw .badSeparator
  | some (.text s) =>
    if s.toList.all Text.isGap && isCellSeparator s then pure s else throw .badSeparator
  | some _ => throw .badSeparator

/-- A field that counts as absent when it is null. -/
def given? (d : Document) (key : String) : Option Document :=
  match d.field? key with
  | some .null => none
  | other => other

/-- The configuration of a pass that an entry gives, over another. -/
def readPass (p : PassInfo) (current : PassSetting) (entry : Document) :
    Except ConfigFault PassSetting :=
  match entry with
  | .flag b => pure { current with enabled := b }
  | .mapping _ => do
    let enabled ← match given? entry "enabled" with
      | none => pure current.enabled
      | some (.flag b) => pure b
      | some _ => throw (.badSwitch p.name)
    let params ← match entry.field? "params" with
      | none => pure current.params
      | some values => Params.merge s!"pass {p.name}" p.params current.params values
    pure ⟨enabled, params⟩
  | _ => throw (.badPass p.name)

/-- The configurations of the passes that a document gives, over those of a table. -/
def readPasses (passes : List PassInfo) (base : Table PassSetting)
    (fields : List (String × Document)) : Except ConfigFault (Table PassSetting) :=
  fields.foldlM (fun t (name, entry) => do
    match passes.find? (·.name = name), t.get? name with
    | some p, some current => pure (Table.set t name (← readPass p current entry))
    | _, _ => throw (.unknownPass name)) base

/-- The configuration that a document gives.  What it does not speak of keeps its
default. -/
def ofDocument (passes : List PassInfo) (d : Document) : Except ConfigFault FormatConfig := do
  let base := standard passes
  if let .null := d then return base
  if d.fields?.isNone then throw (.notObject "format")
  let fields ← match given? d "passes" with
    | none => pure []
    | some (.mapping fields) => pure fields
    | some _ => throw (.notObject "passes")
  let settings ← readPasses passes base.passes fields
  pure
    { lineLength := ← size (d.field? "lineLength") "lineLength" base.lineLength
      indent := ← size (d.field? "indent") "indent" base.indent
      separator := ← readSeparator base.separator (d.field? "separator")
      passes := settings }

/-- A configuration as a document, from which it can be read again. -/
def toDocument (c : FormatConfig) : Document :=
  .mapping
    [("lineLength", .ofNat c.lineLength), ("indent", .ofNat c.indent),
      ("separator", .text c.separator),
      ("passes", .mapping (c.passes.map fun (name, p) =>
        (name, .mapping [("enabled", .flag p.enabled),
          ("params", .mapping (p.params.map fun (key, v) => (key, v.toDocument)))])))]

end FormatConfig

end RobotSuite
