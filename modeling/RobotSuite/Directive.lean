/-
# Formatter directives

A comment such as `# fmt: off` or `# robolint: fmt: on = ALIGN, SPLIT` switches formatter
passes off or on.  Without names it speaks of every pass.  Letters may be written in any
case, and blanks may stand between all parts.
-/

import RobotSuite.Statement
import RobotSuite.Text.Blank

namespace RobotSuite

/-- An instruction to the formatter. -/
structure Directive where
  /-- Whether the passes are switched on. -/
  enabled : Bool
  /-- The passes it speaks of; none for every pass. -/
  passes : List String
deriving Repr, DecidableEq, Inhabited

namespace Directive

/-- An ASCII letter in lower case; any other character as it is. -/
def lowerAscii (c : Char) : Char :=
  if 'A' ≤ c && c ≤ 'Z' then Char.ofNat (c.toNat + 32) else c

/-- An ASCII letter in upper case; any other character as it is. -/
def upperAscii (c : Char) : Char :=
  if 'a' ≤ c && c ≤ 'z' then Char.ofNat (c.toNat - 32) else c

/-- The rest behind a word that is written in any case. -/
def dropWord? : List Char → List Char → Option (List Char)
  | [], cs => some cs
  | _ :: _, [] => none
  | w :: ws, c :: cs => if lowerAscii c = w then dropWord? ws cs else none

/-- The first character of a pass name. -/
def isNameStart (c : Char) : Bool :=
  ('a' ≤ lowerAscii c && lowerAscii c ≤ 'z') || c = '_'

/-- The further characters of a pass name. -/
def isNameRest (c : Char) : Bool := isNameStart c || ('0' ≤ c && c ≤ '9')

/-- The pass that a text names, blanks around it ignored. -/
def passName? (cs : List Char) : Option String :=
  match Text.trimBlank cs with
  | [] => none
  | c :: rest =>
    if isNameStart c && rest.all isNameRest then
      some (String.ofList ((c :: rest).map upperAscii))
    else none

/-- The passes named behind the switch of a directive. -/
def passes? : List Char → Option (List String)
  | [] => some []
  | '=' :: cs => (Text.splitOn ',' cs).mapM passName?
  | _ => none

/-- The switch of a directive and the text behind it. -/
def switch? (cs : List Char) : Option (Bool × List Char) :=
  ((dropWord? ['o', 'f', 'f'] cs).map fun rest => (false, rest)) <|>
    ((dropWord? ['o', 'n'] cs).map fun rest => (true, rest))

/-- The text behind an optional `robolint:`. -/
def dropOwner (cs : List Char) : List Char :=
  ((dropWord? "robolint:".toList cs).map Text.trimStart).getD cs

end Directive

/-- The directive that a comment is, if it is one. -/
def parseDirective (comment : String) : Option Directive := do
  let body ← Directive.dropWord? ['#'] comment.toList
  let rest ← Directive.dropWord? "fmt:".toList (Directive.dropOwner (Text.trimStart body))
  let (enabled, rest) ← Directive.switch? (Text.trimStart rest)
  let passes ← Directive.passes? (Text.trimStart rest)
  pure ⟨enabled, passes⟩

/-- Whether a directive switches a pass off. -/
def Directive.disables (d : Directive) (pass : String) : Bool :=
  !d.enabled && (d.passes.isEmpty || d.passes.contains pass)

/-- The first directive among the comments of a statement. -/
def Statement.directive? (s : Statement) : Option Directive :=
  (commentTokens s.tokens).findSome? fun t => parseDirective t.value

end RobotSuite
