/-
# Patterns of texts

Regular expressions as rules use them: alternatives, repetition, groups, character
classes, anchors, word boundaries and lookaround.  A text is a list of symbols, which are
code units or code points.  `Pattern.find` looks for a match that starts at a place and
can be completed by whatever has to follow it: where several can, it finds the one that
the pattern prefers.
-/

import RobotSuite.Text.Blank
import RobotSuite.Text.Letter

namespace RobotSuite

/-- A set of symbols that has a letter of its own in patterns. -/
inductive SymbolClass where
  | digit
  | word
  | blank
  | letter
  | number
deriving Repr, DecidableEq, Inhabited

/-- A symbol of a word: an ASCII letter or digit or an underscore. -/
def isWordSymbol (n : Nat) : Bool :=
  (48 ≤ n && n ≤ 57) || (65 ≤ n && n ≤ 90) || n = 95 || (97 ≤ n && n ≤ 122)

/-- Whether a class holds a symbol. -/
def SymbolClass.contains (c : SymbolClass) (n : Nat) : Bool :=
  match c with
  | .digit => 48 ≤ n && n ≤ 57
  | .word => isWordSymbol n
  | .blank => Text.isBlank (Char.ofNat n)
  | .letter => Text.isLetter (Char.ofNat n)
  | .number => Text.isNumber (Char.ofNat n)

/-- A part of a set of symbols. -/
inductive SymbolRange where
  | between (low high : Nat)
  | class (c : SymbolClass) (negated : Bool)
deriving Repr, DecidableEq, Inhabited

/-- Whether a part of a set holds a symbol. -/
def SymbolRange.contains (r : SymbolRange) (n : Nat) : Bool :=
  match r with
  | .between low high => low ≤ n && n ≤ high
  | .class c negated => c.contains n != negated

/-- A pattern. -/
inductive Pattern where
  /-- Nothing. -/
  | empty
  /-- One symbol in, or outside of, some ranges. -/
  | symbol (negated : Bool) (ranges : List SymbolRange)
  /-- One pattern behind another. -/
  | both (first second : Pattern)
  /-- One pattern or, less preferred, another. -/
  | either (first second : Pattern)
  /-- A pattern some number of times. -/
  | repeated (inner : Pattern) (least : Nat) (most : Option Nat) (greedy : Bool)
  /-- The start of the text. -/
  | atStart
  /-- The end of the text. -/
  | atEnd
  /-- A place between a word symbol and another, or any other place. -/
  | boundary (negated : Bool)
  /-- A place at which a pattern matches, or does not. -/
  | ahead (negated : Bool) (inner : Pattern)
  /-- A place behind a match of a pattern, or any other place. -/
  | behind (negated : Bool) (inner : Pattern)
deriving Repr, Inhabited

namespace Pattern

/-- The pattern that matches one symbol. -/
def one (n : Nat) : Pattern := symbol false [.between n n]

/-- Any symbol but those that end a line. -/
def anySymbol : Pattern :=
  symbol true [.between 10 10, .between 13 13, .between 0x2028 0x2029]

/-! ## Places -/

/-- A place in a text. -/
structure Place where
  /-- How many symbols stand in front of the place. -/
  index : Nat
  /-- Symbols in front of the place, the nearest first. -/
  before : List Nat
  /-- Symbols behind the place. -/
  rest : List Nat
deriving Repr, DecidableEq, Inhabited

namespace Place

/-- The place at the start of a text. -/
def start (symbols : List Nat) : Place := ⟨0, [], symbols⟩

/-- The place one symbol further, if the symbol passes a test. -/
def next? (test : Nat → Bool) (p : Place) : Option Place :=
  match p.rest with
  | [] => none
  | n :: rest => if test n then some ⟨p.index + 1, n :: p.before, rest⟩ else none

/-- The place one symbol back; the start has none in front. -/
def back (p : Place) : Place :=
  match p.before with
  | [] => p
  | n :: before => ⟨p.index - 1, before, n :: p.rest⟩

/-- Whether a place lies between a word symbol and another. -/
def isBoundary (p : Place) : Bool :=
  p.before.head?.any isWordSymbol != p.rest.head?.any isWordSymbol

/-- The place behind at most `most` symbols that pass a test, and how many they are, added
to `count`. -/
def runEnd (test : Nat → Bool) (count : Nat) : Nat → Place → Nat × Place
  | 0, p => (count, p)
  | most + 1, p =>
    match p.next? test with
    | none => (count, p)
    | some q => runEnd test (count + 1) most q

end Place

/-! ## Matches -/

/-- What has to follow a match: where the whole ends, or nothing if it cannot be
completed. -/
abbrev Follow := Place → Option Place

/-- Complete a match at a place, or else at the places up to `count` symbols in front of
it, the last of them first. -/
def giveBack (follow : Follow) : Nat → Place → Option Place
  | 0, p => follow p
  | count + 1, p =>
    match follow p with
    | some q => some q
    | none => giveBack follow count p.back

/-- Complete a match at a place, or else at the first place behind further symbols, at
most `most` of them, each of which passes a test. -/
def takeMore (test : Nat → Bool) (follow : Follow) : Nat → Place → Option Place
  | 0, p => follow p
  | most + 1, p =>
    match follow p with
    | some q => some q
    | none =>
      match p.next? test with
      | none => none
      | some q => takeMore test follow most q

/-- As many or as few symbols as possible that pass a test, and then what follows. -/
def symbolRun (test : Nat → Bool) (greedy : Bool) (follow : Follow) (least : Nat)
    (most : Option Nat) (p : Place) : Option Place :=
  let (count, q) := p.runEnd test 0 least
  if count < least then none
  else
    let room := (most.map (· - least)).getD q.rest.length
    if greedy then
      let (count, q) := q.runEnd test 0 (min room q.rest.length)
      giveBack follow count q
    else takeMore test follow (min room q.rest.length) q

/-- At most `fuel` further matches of a part, each of which takes a symbol, and then what
follows. -/
def further (part : Place → Follow → Option Place) (greedy : Bool) (follow : Follow) :
    Nat → Option Nat → Place → Option Place
  | 0, _, p => follow p
  | fuel + 1, most, p =>
    if most = some 0 then follow p
    else
      let again : Follow := fun q =>
        if q.index = p.index then none else further part greedy follow fuel (most.map (· - 1)) q
      if greedy then
        match part p again with
        | some q => some q
        | none => follow p
      else
        match follow p with
        | some q => some q
        | none => part p again

/-- A part a number of times, perhaps further times, and then what follows. -/
def times (part : Place → Follow → Option Place) (greedy : Bool) (most : Option Nat)
    (follow : Follow) : Nat → Place → Option Place
  | 0, p => further part greedy follow p.rest.length most p
  | least + 1, p => part p (times part greedy most follow least)

/-- Where a match that starts at a place ends together with what follows it. -/
def find : Pattern → Place → Follow → Option Place
  | empty, p, follow => follow p
  | symbol negated ranges, p, follow =>
    (p.next? fun n => ranges.any (·.contains n) != negated).bind follow
  | both first second, p, follow => first.find p fun q => second.find q follow
  | either first second, p, follow =>
    match first.find p follow with
    | some q => some q
    | none => second.find p follow
  | repeated (symbol negated ranges) least most greedy, p, follow =>
    symbolRun (fun n => ranges.any (·.contains n) != negated) greedy follow least most p
  | repeated inner least most greedy, p, follow =>
    times inner.find greedy (most.map (· - least)) follow least p
  | atStart, p, follow => if p.before.isEmpty then follow p else none
  | atEnd, p, follow => if p.rest.isEmpty then follow p else none
  | boundary negated, p, follow => if p.isBoundary != negated then follow p else none
  | ahead negated inner, p, follow =>
    if (inner.find p some).isSome != negated then follow p else none
  | behind negated inner, p, follow =>
    let isEnd : Follow := fun q => if q.index = p.index then some q else none
    if (giveBack (fun q => inner.find q isEnd) p.index p).isSome != negated then follow p
    else none

/-- Whether the pattern matches somewhere behind a place. -/
def searchFrom (pattern : Pattern) (index : Nat) (before : List Nat) : List Nat → Bool
  | [] => (pattern.find ⟨index, before, []⟩ some).isSome
  | n :: rest =>
    (pattern.find ⟨index, before, n :: rest⟩ some).isSome ||
      pattern.searchFrom (index + 1) (n :: before) rest

/-- Whether the pattern matches somewhere in a text. -/
def occursIn (pattern : Pattern) (symbols : List Nat) : Bool :=
  pattern.searchFrom 0 [] symbols

/-- What is left of a text when all matches are taken out, from left to right; `skip`
symbols belong to a match that has begun. -/
def removeFrom (pattern : Pattern) (index : Nat) (before : List Nat) (skip : Nat) :
    List Nat → List Nat
  | [] => []
  | n :: rest =>
    if 0 < skip then pattern.removeFrom (index + 1) (n :: before) (skip - 1) rest
    else
      match pattern.find ⟨index, before, n :: rest⟩ some with
      | none => n :: pattern.removeFrom (index + 1) (n :: before) 0 rest
      | some q =>
        if q.index ≤ index then n :: pattern.removeFrom (index + 1) (n :: before) 0 rest
        else pattern.removeFrom (index + 1) (n :: before) (q.index - index - 1) rest

/-- A text without the matches of a pattern. -/
def removeFromText (pattern : Pattern) (s : String) : String :=
  String.ofList ((pattern.removeFrom 0 [] 0 (s.toList.map Char.toNat)).map Char.ofNat)

end Pattern

end RobotSuite
