/-
# Trees of lexemes

The lexemes of a document make up one tree: a scalar, a collection in brackets (a flow),
or a mapping or sequence set off by indentation.  A collection has entries, each with a
key, a value or both, and with the lexemes that stand in front of them.

While a file is read, a tree is open until a lexeme comes that has no place in it.  Then it
is closed, and the tree around it receives it: as a key, as a value or as an item.  Layout
behind the last entry of a block goes out of it (`outside`).
-/

import RobotSuite.Yaml.Scan

namespace RobotSuite
namespace Yaml

mutual

/-- A tree of lexemes.  The trail of a scalar or flow is the layout behind it. -/
inductive Tree where
  | scalar (source : Lexeme) (trail : List Lexeme)
  | flow (opening : Lexeme) (entries : List Entry) (trail : List Lexeme)
  | mapping (indent : Nat) (entries : List Entry)
  | sequence (indent : Nat) (entries : List Entry)

/-- An entry of a collection: what leads to it, perhaps a key, the lexemes between key
and value if there is a place for a value, and perhaps a value. -/
structure Entry where
  lead : List Lexeme
  key : Option Tree
  marks : Option (List Lexeme)
  value : Option Tree

end

instance : Inhabited Tree := ⟨.mapping 0 []⟩

namespace Entry

/-- An entry of which only the lexemes in front are known. -/
def ofLead (lead : List Lexeme) : Entry := ⟨lead, none, none, none⟩

/-- An entry of which the key is known. -/
def ofKey (lead : List Lexeme) (key : Tree) : Entry := ⟨lead, some key, some [], none⟩

/-- An entry without key, behind its mark. -/
def ofMark (lead : List Lexeme) (l : Lexeme) : Entry := ⟨lead, none, some [l], none⟩

/-- An entry in which only layout stands. -/
def isLayout (e : Entry) : Bool :=
  e.key.isNone && e.marks.isNone && e.value.isNone && e.lead.all fun l => l.kind.isLayout

/-- An entry whose key is marked. -/
def isExplicit (e : Entry) : Bool := Lexeme.holds .keyMark e.lead

/-- Add a lexeme to what leads to an entry. -/
def addLead (e : Entry) (l : Lexeme) : Entry := { e with lead := l :: e.lead }

/-- Add a lexeme between key and value. -/
def addMark (e : Entry) (l : Lexeme) : Entry := { e with marks := some (l :: e.marks.getD []) }

/-- Lexemes between key and value, the latest first, from the second line break on that
comes behind the latest mark or comment: comments that are not indented more than the
mapping do not count. -/
def emptyLines (indent : Nat) (marks : List Lexeme) : List Lexeme :=
  let isBreak (l : Lexeme) : Bool := l.kind = .lineBreak
  let latest := marks.takeWhile fun l =>
    isBreak l || l.kind = .space || (l.kind = .comment && l.indent ≤ indent)
  let behind := (latest.reverse.dropWhile (!isBreak ·)).drop 1
  (behind.dropWhile (!isBreak ·)).reverse

/-- An entry without value in front of the next one, which empty lines lead to. -/
def cutEmptyLines (indent : Nat) (e : Entry) : Entry × List Lexeme :=
  let lead := if e.value.isSome then [] else emptyLines indent (e.marks.getD [])
  ({ e with marks := e.marks.map fun run => run.drop lead.length }, lead)

/-- An entry with its lexemes in the order of the text. -/
def settle (e : Entry) : Entry :=
  { e with lead := e.lead.reverse, marks := e.marks.map List.reverse }

end Entry

/-! ## Trees that are still open -/


/-- A tree that is still open.  Entries and lexemes are held with the latest first. -/
inductive Growth where
  | scalar (source : Lexeme) (trail : List Lexeme)
  /-- A flow, with its trail once its bracket is closed. -/
  | flow (opening : Lexeme) (entries : List Entry) (trail : Option (List Lexeme))
  | mapping (indent : Nat) (entries : List Entry)
  | sequence (indent : Nat) (entries : List Entry)

namespace Growth

/-- Whether layout in front of no entry can go to the collection around a block: a comment
in it is indented less than the block. -/
def goesOut (indent : Nat) (e : Entry) : Bool :=
  e.isLayout && !e.lead.isEmpty &&
    (indent = 0 || e.lead.all fun l => l.kind ≠ .comment || l.indent < indent)

/-- Layout behind the last entry of a block, as far as it can go out. -/
def outside : Growth → List Lexeme
  | mapping indent (e :: _) | sequence indent (e :: _) => if goesOut indent e then e.lead else []
  | _ => []

/-- An open tree without the layout that goes out. -/
def inside : Growth → Growth
  | mapping indent (e :: before) =>
    mapping indent (if goesOut indent e then before else e :: before)
  | sequence indent (e :: before) =>
    sequence indent (if goesOut indent e then before else e :: before)
  | g => g

/-- The closed tree; none for a flow whose bracket is missing. -/
def close? : Growth → Option Tree
  | scalar source trail => some (.scalar source trail.reverse)
  | flow opening entries trail =>
    trail.map fun t => .flow opening (entries.map Entry.settle).reverse t.reverse
  | mapping indent entries => some (.mapping indent (entries.map Entry.settle).reverse)
  | sequence indent entries => some (.sequence indent (entries.map Entry.settle).reverse)

/-- Entries of a mapping behind a closed tree: the tree is the value of the latest entry,
or its key if it has no place for a value yet, or else the key of a new entry. -/
def receiveEntry (t : Tree) : List Entry → List Entry
  | [] => [.ofKey [] t]
  | e :: before =>
    if e.value.isSome then .ofKey [] t :: e :: before
    else if e.marks.isSome then { e with value := some t } :: before
    else { e with key := some t, marks := some [] } :: before

/-- Items of a sequence behind a closed tree. -/
def receiveItem (t : Tree) : List Entry → List Entry
  | [] => [⟨[], none, none, some t⟩]
  | e :: before =>
    if e.value.isSome then ⟨[], none, none, some t⟩ :: e :: before
    else { e with value := some t } :: before

/-- An open tree behind a closed one inside it, which is no part of a scalar. -/
def receive? (t : Tree) : Growth → Option Growth
  | scalar .. => none
  | flow opening entries trail => some (flow opening (receiveEntry t entries) trail)
  | mapping indent entries => some (mapping indent (receiveEntry t entries))
  | sequence indent entries => some (sequence indent (receiveItem t entries))

/-- An open block behind layout that comes out of a value. -/
def addLayout (run : List Lexeme) (g : Growth) : Growth :=
  if run.isEmpty then g
  else
    match g with
    | mapping indent entries => mapping indent (.ofLead run :: entries)
    | sequence indent entries => sequence indent (.ofLead run :: entries)
    | g => g

/-- Whether the latest entry of a mapping has a marked key. -/
def isExplicit : Growth → Bool
  | mapping _ (e :: _) => e.isExplicit
  | _ => false

/-- Whether a closed tree becomes a key of a mapping that is set off by indentation. -/
def takesKey : Growth → Bool
  | mapping _ (e :: _) => e.value.isSome || e.marks.isNone
  | _ => false

/-- The tree that a lexeme opens. -/
def ofLexeme? (l : Lexeme) : Option Growth :=
  match l.kind with
  | .scalar _ => some (scalar l [])
  | .opening _ => some (flow l [] none)
  | .itemMark => some (sequence l.indent [.ofLead [l]])
  | .keyMark => some (mapping l.indent [.ofLead [l]])
  | .valueMark => some (mapping l.indent [.ofMark [] l])
  | _ => none

end Growth

end Yaml
end RobotSuite
