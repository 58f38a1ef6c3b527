/-
# Variables inside texts

A variable is written as a sigil and a name in braces: `${user}`, `@{list}`, `&{map}` or
`%{HOME}`.  Rules on names and tags look at a text without its variables.
-/

import RobotSuite.Text.Blank
import RobotSuite.Text.Case

namespace RobotSuite
namespace Text

/-- A character that opens a variable when a brace follows. -/
def isSigil (c : Char) : Bool := c = '$' || c = '@' || c = '&' || c = '%'

/-- Whether a variable is opened somewhere. -/
def opensVariable : List Char → Bool
  | [] => false
  | [_] => false
  | c :: d :: cs => (isSigil c && d = '{') || opensVariable (d :: cs)

/-- The text behind the next closing brace. -/
def behindBrace? : List Char → Option (List Char)
  | [] => none
  | c :: cs => if c = '}' then some cs else behindBrace? cs

/-- Behind a brace less is left. -/
theorem length_behindBrace?_lt {cs rest : List Char} (h : behindBrace? cs = some rest) :
    rest.length < cs.length := by
  induction cs with
  | nil => simp [behindBrace?] at h
  | cons c cs ih =>
    unfold behindBrace? at h
    split at h
    · cases h; simp
    · have := ih h; simp; omega

/-- The text behind a variable that starts a text. -/
def behindVariable? : List Char → Option (List Char)
  | c :: '{' :: cs => if isSigil c then behindBrace? cs else none
  | _ => none

/-- Behind a variable less is left. -/
theorem length_behindVariable?_lt {cs rest : List Char} (h : behindVariable? cs = some rest) :
    rest.length < cs.length := by
  unfold behindVariable? at h
  split at h
  · split at h
    · have := length_behindBrace?_lt h; simp; omega
    · cases h
  · cases h

/-- A list of characters without its variables. -/
def dropVariables (cs : List Char) : List Char :=
  match _h : behindVariable? cs with
  | some rest => dropVariables rest
  | none =>
    match cs with
    | [] => []
    | c :: cs => c :: dropVariables cs
termination_by cs.length
decreasing_by
  · exact length_behindVariable?_lt _h
  · simp

/-- A text without its variables. -/
def removeVariables (s : String) : String := String.ofList (dropVariables s.toList)

/-- The form in which names are compared: lower case without blanks and underscores. -/
def nameKey (s : String) : String :=
  String.ofList ((lowerChars s.toList).filter fun c => !(isBlank c || c = '_'))

/-- The form in which tags are compared: lower case without blanks. -/
def tagKey (s : String) : String := String.ofList (removeBlanks (lowerChars s.toList))

end Text
end RobotSuite
