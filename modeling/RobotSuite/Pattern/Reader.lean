/-
# Reading patterns

The written form of patterns.  It is read over code units, leniently: what has no meaning
stands for itself.  Or it is read over code points, and strictly.  Either way the first
fault from the left is reported.
-/

import RobotSuite.Pattern
import RobotSuite.Text.Units

namespace RobotSuite

/-- What may be wrong with a written pattern. -/
inductive PatternFault where
  | unterminatedGroup
  | invalidGroup
  | invalidGroupName
  | unmatchedParenthesis
  | unterminatedClass
  | nothingToRepeat
  | endsInEscape
  | wrongBounds
  | wrongRange
  | loneBracket
  | incompleteQuantifier
  | invalidQuantifier
  | invalidEscape
  | invalidCodeEscape
  | invalidClass
  | invalidProperty
deriving Repr, DecidableEq, Inhabited

/-- The wording of a fault. -/
def PatternFault.message : PatternFault → String
  | .unterminatedGroup => "Unterminated group"
  | .invalidGroup => "Invalid group"
  | .invalidGroupName => "Invalid capture group name"
  | .unmatchedParenthesis => "Unmatched ')'"
  | .unterminatedClass => "Unterminated character class"
  | .nothingToRepeat => "Nothing to repeat"
  | .endsInEscape => "\\ at end of pattern"
  | .wrongBounds => "numbers out of order in \x7b\x7d quantifier"
  | .wrongRange => "Range out of order in character class"
  | .loneBracket => "Lone quantifier brackets"
  | .incompleteQuantifier => "Incomplete quantifier"
  | .invalidQuantifier => "Invalid quantifier"
  | .invalidEscape => "Invalid escape"
  | .invalidCodeEscape => "Invalid Unicode escape"
  | .invalidClass => "Invalid character class"
  | .invalidProperty => "Invalid property name"

namespace Pattern

/-- How a pattern is read. -/
inductive Mode where
  /-- Over code units, and what has no meaning stands for itself. -/
  | lenient
  /-- Over code points, and what has no meaning is a fault. -/
  | strict
deriving Repr, DecidableEq, Inhabited

/-- The symbols of a text. -/
def Mode.symbols (mode : Mode) (s : String) : List Nat :=
  match mode with
  | .lenient => s.toList.flatMap Text.codeUnits
  | .strict => s.toList.map Char.toNat

/-- A symbol as a character, to be compared with characters that have a meaning. -/
def sign (n : Nat) : Char := Char.ofNat n

/-! ## Quantifiers -/

/-- The value of a decimal digit. -/
def digit? (n : Nat) : Option Nat := if 48 ≤ n && n ≤ 57 then some (n - 48) else none

/-- The value of a hexadecimal digit. -/
def hexDigit? (n : Nat) : Option Nat :=
  if 48 ≤ n && n ≤ 57 then some (n - 48)
  else if 65 ≤ n && n ≤ 70 then some (n - 55)
  else if 97 ≤ n && n ≤ 102 then some (n - 87)
  else none

/-- A number at the start of some symbols, and the rest. -/
def readNumber? (cs : List Nat) : Option (Nat × List Nat) :=
  let digits := cs.takeWhile fun n => (digit? n).isSome
  if digits.isEmpty then none
  else some (digits.foldl (fun v n => 10 * v + (n - 48)) 0, cs.drop digits.length)

/-- Bounds in braces, behind the opening brace. -/
def readBounds? (cs : List Nat) : Option ((Nat × Option Nat) × List Nat) := do
  let (least, cs) ← readNumber? cs
  match cs.map sign, cs.tail with
  | '}' :: _, rest => pure ((least, some least), rest)
  | ',' :: '}' :: _, rest => pure ((least, none), rest.tail)
  | ',' :: _, rest =>
    let (most, cs) ← readNumber? rest
    if (cs.head?.map sign) = some '}' then pure ((least, some most), cs.tail) else none
  | _, _ => none

/-- The bounds of a quantifier, if one stands here, and the rest. -/
def readRange (mode : Mode) (cs : List Nat) :
    Except PatternFault (Option (Nat × Option Nat) × List Nat) :=
  match cs.head?.map sign with
  | some '*' => pure (some (0, none), cs.tail)
  | some '+' => pure (some (1, none), cs.tail)
  | some '?' => pure (some (0, some 1), cs.tail)
  | some '{' =>
    match readBounds? cs.tail with
    | some ((least, most), rest) =>
      if most.any (· < least) then throw .wrongBounds else pure (some (least, most), rest)
    | none => if mode = .strict then throw .incompleteQuantifier else pure (none, cs)
  | _ => pure (none, cs)

/-- A pattern with the quantifier behind it, and the rest. -/
def quantify (mode : Mode) (p : Pattern) (cs : List Nat) :
    Except PatternFault (Pattern × List Nat) := do
  match ← readRange mode cs with
  | (none, rest) => pure (p, rest)
  | (some (least, most), rest) =>
    if (rest.head?.map sign) = some '?' then pure (repeated p least most false, rest.tail)
    else pure (repeated p least most true, rest)

/-! ## Escapes -/

/-- What an escape stands for. -/
inductive Escape where
  | symbol (n : Nat)
  | range (r : SymbolRange)
deriving Repr

/-- The number that exactly `count` hexadecimal digits make, and the rest. -/
def readHex? (count : Nat) (cs : List Nat) : Option (Nat × List Nat) :=
  let digits := (cs.take count).filterMap hexDigit?
  if digits.length = count then some (digits.foldl (fun v d => 16 * v + d) 0, cs.drop count)
  else none

/-- A code in braces, behind the opening brace, and the rest. -/
def readBraced? (cs : List Nat) : Option (Nat × List Nat) :=
  let digits := cs.takeWhile fun n => (hexDigit? n).isSome
  let value := (digits.filterMap hexDigit?).foldl (fun v d => 16 * v + d) 0
  let rest := cs.drop digits.length
  if digits.isEmpty || 0x10FFFF < value || (rest.head?.map sign) != some '}' then none
  else some (value, rest.tail)

/-- A code behind `\u`, and the rest. -/
def readCode? (mode : Mode) (cs : List Nat) : Option (Nat × List Nat) :=
  if mode = .strict && (cs.head?.map sign) = some '{' then readBraced? cs.tail
  else match readHex? 4 cs with
    | none => none
    | some (high, rest) =>
      if mode = .strict && 0xD800 ≤ high && high < 0xDC00 then
        match (rest.take 2).map sign, readHex? 4 (rest.drop 2) with
        | ['\\', 'u'], some (low, more) =>
          if 0xDC00 ≤ low && low < 0xE000 then
            some (0x10000 + (high - 0xD800) * 0x400 + (low - 0xDC00), more)
          else some (high, rest)
        | _, _ => some (high, rest)
      else some (high, rest)

/-- A property behind `\p`, and the rest. -/
def readProperty? (cs : List Nat) : Option (SymbolClass × List Nat) :=
  match (cs.take 3).map sign with
  | ['{', 'L', '}'] => some (.letter, cs.drop 3)
  | ['{', 'N', '}'] => some (.number, cs.drop 3)
  | _ => none

/-- Characters that an escape may make literal. -/
def isSyntaxSign (c : Char) : Bool :=
  ['^', '$', '\\', '.', '*', '+', '?', '(', ')', '[', ']', '{', '}', '|', '/'].contains c

/-- The escape behind a backslash, and the rest.  Within a class also a hyphen may be
escaped. -/
def readEscape (mode : Mode) (inClass : Bool) (cs : List Nat) :
    Except PatternFault (Escape × List Nat) :=
  match cs with
  | [] => throw .endsInEscape
  | n :: rest =>
    let known (c : SymbolClass) (negated : Bool) : Except PatternFault (Escape × List Nat) :=
      pure (.range (.class c negated), rest)
    let literal : Except PatternFault (Escape × List Nat) := pure (.symbol n, rest)
    match sign n with
    | 'd' => known .digit false
    | 'D' => known .digit true
    | 'w' => known .word false
    | 'W' => known .word true
    | 's' => known .blank false
    | 'S' => known .blank true
    | 'f' => pure (.symbol 12, rest)
    | 'n' => pure (.symbol 10, rest)
    | 'r' => pure (.symbol 13, rest)
    | 't' => pure (.symbol 9, rest)
    | 'v' => pure (.symbol 11, rest)
    | '0' =>
      if mode = .strict && rest.head?.any fun n => (digit? n).isSome then throw .invalidEscape
      else pure (.symbol 0, rest)
    | 'x' =>
      match readHex? 2 rest with
      | some (v, rest) => pure (.symbol v, rest)
      | none => if mode = .strict then throw .invalidEscape else literal
    | 'u' =>
      match readCode? mode rest with
      | some (v, rest) => pure (.symbol v, rest)
      | none => if mode = .strict then throw .invalidCodeEscape else literal
    | 'c' =>
      match rest with
      | [] => if mode = .strict then throw .invalidCodeEscape else pure (.symbol 92, cs)
      | l :: more =>
        if (65 ≤ l && l ≤ 90) || (97 ≤ l && l ≤ 122) then pure (.symbol (l % 32), more)
        else if mode = .strict then throw .invalidCodeEscape
        else pure (.symbol 92, cs)
    | c =>
      if mode = .lenient || isSyntaxSign c || (inClass && c = '-') then literal
      else if c = 'p' || c = 'P' then
        match readProperty? rest with
        | some (cls, rest) => pure (.range (.class cls (c = 'P')), rest)
        | none => throw .invalidProperty
      else throw .invalidEscape

/-! ## Classes -/

/-- One member of a class, and the rest. -/
def readMember (mode : Mode) : List Nat → Except PatternFault (Escape × List Nat)
  | [] => throw .unterminatedClass
  | n :: rest =>
    if sign n = '\\' then
      if (rest.head?.map sign) = some 'b' then pure (.symbol 8, rest.tail)
      else readEscape mode true rest
    else pure (.symbol n, rest)

/-- A member as a range. -/
def Escape.toRange : Escape → SymbolRange
  | .symbol n => .between n n
  | .range r => r

/-- The ranges between two members that a hyphen joins. -/
def joinMembers (mode : Mode) : Escape → Escape → Except PatternFault (List SymbolRange)
  | .symbol low, .symbol high =>
    if high < low then throw .wrongRange else pure [.between low high]
  | low, high =>
    if mode = .strict then throw .invalidClass
    else pure [low.toRange, .between 45 45, high.toRange]

/-- The ranges of a class behind its opening bracket, and the rest; `fuel` bounds the
number of members. -/
def readMembers (mode : Mode) :
    Nat → List Nat → Except PatternFault (List SymbolRange × List Nat)
  | 0, _ => throw .unterminatedClass
  | fuel + 1, cs => do
    if (cs.head?.map sign) = some ']' then pure ([], cs.tail)
    else
      let (low, rest) ← readMember mode cs
      let (ranges, rest) ← match (rest.take 2).map sign with
        | ['-', ']'] => pure ([low.toRange], rest)
        | ['-', _] =>
          let (high, rest) ← readMember mode rest.tail
          pure (← joinMembers mode low high, rest)
        | _ => pure ([low.toRange], rest)
      let (more, rest) ← readMembers mode fuel rest
      pure (ranges ++ more, rest)

/-- A class behind its opening bracket, and the rest. -/
def readClass (mode : Mode) (cs : List Nat) : Except PatternFault (Pattern × List Nat) := do
  let negated := (cs.head?.map sign) = some '^'
  let (ranges, rest) ← readMembers mode (cs.length + 1) (if negated then cs.tail else cs)
  pure (symbol negated ranges, rest)

/-! ## Groups -/

/-- What a group is for. -/
inductive GroupKind where
  | plain
  | ahead (negated : Bool)
  | behind (negated : Bool)
deriving Repr, DecidableEq, Inhabited

/-- A group that is open. -/
structure OpenGroup where
  /-- What the group is for. -/
  kind : GroupKind
  /-- Alternatives that are complete, the last first. -/
  alternatives : List Pattern := []
  /-- Parts of the alternative that is open, the last first. -/
  parts : List Pattern := []
deriving Repr

namespace OpenGroup

/-- Add a part to the alternative that is open. -/
def push (g : OpenGroup) (p : Pattern) : OpenGroup := { g with parts := p :: g.parts }

/-- The alternative that is open. -/
def current (g : OpenGroup) : Pattern := g.parts.foldl (fun rest p => both p rest) empty

/-- Open the next alternative. -/
def nextAlternative (g : OpenGroup) : OpenGroup :=
  { g with alternatives := g.current :: g.alternatives, parts := [] }

/-- The pattern of a group that is closed. -/
def close (g : OpenGroup) : Pattern :=
  let inner := g.alternatives.foldl (fun rest p => either p rest) g.current
  match g.kind with
  | .plain => inner
  | .ahead negated => ahead negated inner
  | .behind negated => behind negated inner

end OpenGroup

/-- A name in angle brackets, behind the opening one: the rest. -/
def dropGroupName? (cs : List Nat) : Option (List Nat) :=
  let name := cs.takeWhile fun n => isWordSymbol n || sign n = '$'
  let rest := cs.drop name.length
  if name.isEmpty || name.head?.any (fun n => (digit? n).isSome) ||
      (rest.head?.map sign) != some '>' then none
  else some rest.tail

/-- The kind of a group behind its opening parenthesis, and the rest. -/
def readGroup (cs : List Nat) : Except PatternFault (GroupKind × List Nat) :=
  match (cs.take 3).map sign with
  | '?' :: ':' :: _ => pure (.plain, cs.drop 2)
  | '?' :: '=' :: _ => pure (.ahead false, cs.drop 2)
  | '?' :: '!' :: _ => pure (.ahead true, cs.drop 2)
  | ['?', '<', '='] => pure (.behind false, cs.drop 3)
  | ['?', '<', '!'] => pure (.behind true, cs.drop 3)
  | '?' :: '<' :: _ =>
    match dropGroupName? (cs.drop 2) with
    | some rest => pure (.plain, rest)
    | none => throw .invalidGroupName
  | '?' :: _ => throw .invalidGroup
  | _ => pure (.plain, cs)

/-- Read what is left of a pattern.  The innermost open group is `group`, those around it
are `outer`; each step takes a symbol at least, so `fuel` need not exceed their number. -/
def readRest (mode : Mode) :
    Nat → OpenGroup → List OpenGroup → List Nat → Except PatternFault Pattern
  | _, group, outer, [] => if outer.isEmpty then pure group.close else throw .unterminatedGroup
  | 0, _, _, _ :: _ => throw .unterminatedGroup
  | fuel + 1, group, outer, n :: rest => do
    let atom (p : Pattern) (cs : List Nat) : Except PatternFault Pattern := do
      let (p, cs) ← quantify mode p cs
      readRest mode fuel (group.push p) outer cs
    let assertion (p : Pattern) (cs : List Nat) : Except PatternFault Pattern :=
      readRest mode fuel (group.push p) outer cs
    match sign n with
    | '|' => readRest mode fuel group.nextAlternative outer rest
    | '(' =>
      let (kind, rest) ← readGroup rest
      readRest mode fuel { kind } (group :: outer) rest
    | ')' =>
      match outer with
      | [] => throw .unmatchedParenthesis
      | next :: outer =>
        let quantified : Except PatternFault (Pattern × List Nat) :=
          match group.kind with
          | .plain => quantify mode group.close rest
          | .behind _ => pure (group.close, rest)
          | .ahead _ => do
            let (p, more) ← quantify mode group.close rest
            if mode = .strict && more.length < rest.length then throw .invalidQuantifier
            pure (p, more)
        let (p, rest) ← quantified
        readRest mode fuel (next.push p) outer rest
    | '^' => assertion atStart rest
    | '$' => assertion atEnd rest
    | '*' => throw .nothingToRepeat
    | '+' => throw .nothingToRepeat
    | '?' => throw .nothingToRepeat
    | '.' => atom anySymbol rest
    | '[' =>
      let (p, rest) ← readClass mode rest
      atom p rest
    | '\\' =>
      match rest.head?.map sign with
      | some 'b' => assertion (boundary false) rest.tail
      | some 'B' => assertion (boundary true) rest.tail
      | _ =>
        let (e, rest) ← readEscape mode false rest
        atom (symbol false [e.toRange]) rest
    | c =>
      if c = '{' && (readBounds? rest).isSome then throw .nothingToRepeat
      else if mode = .strict && (c = '{' || c = '}' || c = ']') then throw .loneBracket
      else atom (one n) rest

/-- The pattern that a text writes. -/
def read (mode : Mode) (s : String) : Except PatternFault Pattern :=
  let cs := mode.symbols s
  readRest mode cs.length { kind := .plain } [] cs

/-- The report of a fault; `flags` names the mode. -/
def report (mode : Mode) (s : String) (f : PatternFault) : String :=
  let flags := match mode with
    | .lenient => ""
    | .strict => "gu"
  s!"Invalid regular expression: /{s}/{flags}: " ++ f.message

end Pattern

end RobotSuite
