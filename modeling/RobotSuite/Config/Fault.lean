/-
# Faults of a configuration

What may be wrong in a configuration, and the failure that reports it.
-/

import RobotSuite.Failure
import RobotSuite.Limit

namespace RobotSuite

/-- The type of a parameter. -/
inductive ParamType where
  | number
  | text
  | flag
  | texts
deriving Repr, DecidableEq, Inhabited

/-- The name of a parameter type in messages. -/
def ParamType.title : ParamType → String
  | .number => "number"
  | .text => "string"
  | .flag => "boolean"
  | .texts => "string[]"

/-- What may be wrong in a configuration. -/
inductive ConfigFault where
  /-- The whole configuration is no mapping. -/
  | notMapping
  /-- The configuration has an entry that it may not have. -/
  | unknownKey (key : String)
  /-- A part of the configuration is no mapping. -/
  | notObject (field : String)
  /-- A rule is not registered. -/
  | unknownRule (code : String)
  /-- The state of a rule is none of the states. -/
  | badState (code shown : String)
  /-- The severity of a rule is none of the severities. -/
  | badSeverity (code shown : String)
  /-- A pass is not registered. -/
  | unknownPass (name : String)
  /-- The entry of a pass is neither a flag nor a mapping. -/
  | badPass (name : String)
  /-- A pass is switched by something other than a flag. -/
  | badSwitch (name : String)
  /-- The parameters of a rule or pass are no mapping. -/
  | badParams (owner : String)
  /-- A rule or pass has no parameter of some name. -/
  | unknownParam (owner name : String)
  /-- A parameter has a value of another type. -/
  | mistypedParam (owner name : String) (type : ParamType)
  /-- A size is not a positive whole number. -/
  | notPositive (field : String)
  /-- The separator would not keep cells apart. -/
  | badSeparator
  /-- The configuration file could not be read. -/
  | unreadable (reason : String)
  /-- The text of the configuration file is no document. -/
  | malformed
  /-- A value that may not stand somewhere cannot be put into the message about it. -/
  | unshown
  /-- A value is too large to be made. -/
  | overflow (o : Overflow)
deriving Repr, DecidableEq, Inhabited

namespace ConfigFault

/-- The wording of a fault. -/
def message : ConfigFault → String
  | notMapping => "configuration must be a mapping"
  | unknownKey key => s!"unknown key {key}"
  | notObject field => s!"{field} must be an object"
  | unknownRule code => s!"unknown rule {code}"
  | badState code shown =>
    s!"rule {code} has invalid state \"" ++ shown ++ "\" (must be 'on', 'off', or 'warn')"
  | badSeverity code shown =>
    s!"rule {code} has invalid severity \"" ++ shown ++
      "\" (must be 'error', 'warning', or 'info')"
  | unknownPass name => s!"unknown pass {name}"
  | badPass name => s!"pass {name} must be a boolean or an object"
  | badSwitch name => s!"enabled of pass {name} must be a boolean"
  | badParams owner => s!"params of {owner} must be an object"
  | unknownParam owner name => s!"{owner} has no parameter {name}"
  | mistypedParam owner name type =>
    s!"parameter {name} of {owner} must be of type " ++ type.title
  | notPositive field => s!"{field} must be a positive integer"
  | badSeparator =>
    "separator must be at least 2 spaces, given as a number or a whitespace string"
  | unreadable reason => s!"failed to read file ({reason})"
  | malformed => "invalid YAML"
  | unshown => Failure.unshown.summary
  | overflow o => o.message

/-- Details of a fault for programs. -/
def context : ConfigFault → Option Document
  | unknownRule code | badState code _ | badSeverity code _ =>
    some (.mapping [("rule", .text code)])
  | unknownPass name | badPass name | badSwitch name => some (.mapping [("pass", .text name)])
  | badParams owner => some (.mapping [("owner", .text owner)])
  | unknownParam owner name | mistypedParam owner name _ =>
    some (.mapping [("owner", .text owner), ("param", .text name)])
  | _ => none

/-- The failure that reports a fault.  An overflow, or a value that cannot be put into a
message, is not reported as a fault of the configuration. -/
def failure : ConfigFault → Failure
  | overflow o => Failure.overflow o.message
  | unshown => Failure.unshown
  | f => Failure.config f.message f.context

/-- The fault of a value, whose text stands in its message. -/
def ofValue (fault : String → ConfigFault) (value : Document) : ConfigFault :=
  if value.isShowable then fault value.shown else unshown

end ConfigFault

end RobotSuite
