/-
# Reading documents from configuration files

A tree of lexemes is read as a node when its parts are spaced as they should be, its keys
stand on one line and differ from each other, and its scalars are well written.

`Document.ofYaml?` reads a whole file; a file without a document says null.
-/

import RobotSuite.Yaml.Node
import RobotSuite.Yaml.Reading
import RobotSuite.Yaml.Scan
import RobotSuite.Yaml.Spacing

namespace RobotSuite
namespace Yaml

mutual

/-- Whether a tree goes over several lines. -/
def Tree.hasBreak : Tree → Bool
  | .scalar source trail => source.text.contains '\n' || Lexeme.holds .lineBreak trail
  | .flow _ entries _ => entriesHaveBreak entries
  | .mapping .. | .sequence .. => true

/-- Whether entries go over several lines. -/
def entriesHaveBreak : List Entry → Bool
  | [] => false
  | ⟨lead, key, marks, value⟩ :: rest =>
    Lexeme.holds .lineBreak lead || Lexeme.holds .lineBreak (marks.getD []) ||
      partHasBreak key || partHasBreak value || entriesHaveBreak rest

/-- Whether a key or value goes over several lines. -/
def partHasBreak : Option Tree → Bool
  | none => false
  | some t => t.hasBreak

end

/-- The farthest that a value mark may stand behind the start of its key. -/
def keyReach : Nat := 1024

/-- Whether a mark is near enough to the start of its key. -/
def isNear (key : Option Tree) (mark : Lexeme) : Bool :=
  match key with
  | some (.scalar source _) => mark.offset ≤ source.offset + keyReach
  | some (.flow opening _ _) => mark.offset ≤ opening.offset + keyReach
  | _ => true

/-- Whether a tree may be a key without a mark in a mapping of some indentation. -/
def isKeyAt (indent : Nat) : Option Tree → Bool
  | none => true
  | some (.scalar source _) => source.indent = indent
  | some (.flow opening _ _) => opening.indent = indent
  | some (.mapping margin _) => margin = indent
  | some (.sequence ..) => false

/-- Whether a run of lexemes may stand behind a tree in brackets. -/
def isTrailOf (marks : List Lexeme) : Option Tree → Bool
  | some (.scalar _ trail) => Spacing.isTrail false (trail ++ marks)
  | some (.flow _ _ trail) => Spacing.isTrail false (trail.tail ++ marks)
  | _ => true

/-- Whether an entry of a sequence in brackets is an item, not a pair. -/
def isItem (spacing : Spacing) (marks : Option (List Lexeme)) (value : Option Tree) : Bool :=
  spacing.mark.isNone && value.isNone && !Lexeme.holds .valueMark (marks.getD [])

/-- Whether a key without a mark and its value mark stand in one line, near each other. -/
def isOnOneLine (key : Option Tree) (marks : List Lexeme) (mark : Option Lexeme) : Bool :=
  !partHasBreak key &&
    mark.all fun m =>
      isNear key m && !Lexeme.holds .lineBreak (marks.takeWhile fun l => l.kind ≠ .valueMark)

/-- A mapping whose keys differ. -/
def distinct? (pairs : List (Node × Node)) : Option Node :=
  if Node.hasRepeatedKey pairs then none else some (.mapping pairs)

mutual

/-- What a tree says; none if it is not well written. -/
def Node.ofTree? : Tree → Option Node
  | .scalar source trail =>
    match source.kind with
    | .scalar style =>
      if Spacing.isTrail false trail then
        (scalarText? style source.text).map fun cs =>
          .scalar style (String.ofList cs) (scalarValue style cs)
      else none
    | _ => none
  | .flow opening entries trail =>
    if !Spacing.isTrail false trail.tail then none
    else if opening.kind = .opening true && trail.head?.any fun l => l.kind = .closing true then
      (pairsInFlow? true entries).bind distinct?
    else if opening.kind = .opening false && trail.head?.any fun l => l.kind = .closing false then
      (itemsInFlow? true entries).map .sequence
    else none
  | .mapping indent entries => (pairsInBlock? indent entries).bind distinct?
  | .sequence indent entries => (itemsInBlock? indent entries).map .sequence

/-- What a key or value says; nothing is null. -/
def Node.ofPart? : Option Tree → Option Node
  | none => some .empty
  | some t => Node.ofTree? t

/-- What the entries of a mapping in brackets say. -/
def pairsInFlow? (isFirst : Bool) : List Entry → Option (List (Node × Node))
  | [] => some []
  | ⟨lead, key, marks, value⟩ :: rest => do
    let spacing ← Spacing.read? { inFlow := true, mark := .keyMark } lead
    if spacing.mark.isNone && marks.isNone then
      if rest.isEmpty && !(isFirst && spacing.comma) then some [] else none
    else if spacing.comma = isFirst then none
    else
      let between ← Spacing.read? { inFlow := true, mark := .valueMark } (marks.getD [])
      if between.mark.isNone && value.isSome then none
      else
        let k ← Node.ofPart? key
        let v ← Node.ofPart? value
        let pairs ← pairsInFlow? false rest
        some ((k, if between.mark.isNone then .absent else v) :: pairs)

/-- What the entries of a sequence in brackets say: items, and pairs, each of which is a
mapping of its own. -/
def itemsInFlow? (isFirst : Bool) : List Entry → Option (List Node)
  | [] => some []
  | ⟨lead, key, marks, value⟩ :: rest => do
    let spacing ← Spacing.read? { inFlow := true, mark := .keyMark } lead
    if spacing.mark.isNone && marks.isNone then
      if rest.isEmpty && !(isFirst && spacing.comma) then some [] else none
    else if spacing.comma = isFirst then none
    else if isItem spacing marks value then
      let item ← Node.ofPart? key
      if isTrailOf (marks.getD []) key then (itemsInFlow? false rest).map (item :: ·) else none
    else
      let run := marks.getD []
      let between ← Spacing.read? { inFlow := true, mark := .valueMark } run
      if between.mark.isNone && value.isSome then none
      else if spacing.mark.isNone && !isOnOneLine key run between.mark then none
      else
        let k ← Node.ofPart? key
        let v ← Node.ofPart? value
        let items ← itemsInFlow? false rest
        some (.mapping [(k, if between.mark.isNone then .absent else v)] :: items)

/-- What the entries of a mapping say that is set off by indentation. -/
def pairsInBlock? (indent : Nat) : List Entry → Option (List (Node × Node))
  | [] => some []
  | ⟨lead, key, marks, value⟩ :: rest => do
    let site : Site := { mark := .keyMark, next := .ofTree key, indent, startsLine := true }
    let spacing ← Spacing.read? site lead
    if spacing.mark.isNone && !isKeyAt indent key then none
    else if spacing.mark.any fun l => l.indent ≠ indent then none
    else if spacing.mark.isNone && marks.isNone then pairsInBlock? indent rest
    else if spacing.mark.isNone && partHasBreak key then none
    else
      let site : Site :=
        { mark := .valueMark, next := .ofTree value, indent, startsLine := key.isNone }
      let between ← Spacing.read? site (marks.getD [])
      let k ← Node.ofPart? key
      let v ← if between.mark.isSome then Node.ofPart? value else some .absent
      let pairs ← pairsInBlock? indent rest
      match spacing.mark, between.mark with
      | none, none => none
      | some _, none => some ((k, v) :: pairs)
      | some _, some _ => some ((k, v) :: pairs)
      | none, some mark =>
        let isNested := match value with
          | some (.mapping ..) => !between.hasBreak
          | _ => false
        if isNested || !isNear key mark then none else some ((k, v) :: pairs)

/-- What the entries of a sequence say that is set off by indentation. -/
def itemsInBlock? (indent : Nat) : List Entry → Option (List Node)
  | [] => some []
  | ⟨lead, _, _, value⟩ :: rest => do
    let site : Site := { mark := .itemMark, next := .ofTree value, indent, startsLine := true }
    let spacing ← Spacing.read? site lead
    if spacing.mark.isSome then
      let item ← Node.ofPart? value
      (itemsInBlock? indent rest).map (item :: ·)
    else if value.isNone then itemsInBlock? indent rest
    else none

end

/-- What a document says.  A mapping or sequence that is set off by indentation does not
start in the line of the dashes. -/
def Node.ofRoot? (root : Root) : Option Node := do
  let next := Next.ofTree root.tree
  let spacing ← Spacing.read? { mark := .documentStart, next, startsLine := true } root.lead
  if spacing.mark.isSome && next = .block && !spacing.hasBreak then none
  else Node.ofPart? root.tree

end Yaml

/-- The document that a configuration file holds; none if it is not well written. -/
def Document.ofYaml? (source : String) : Option Document := do
  let lexemes ← Yaml.lexemes? source
  let root ← Yaml.Root.ofLexemes? lexemes
  (Yaml.Node.ofRoot? root).map Yaml.Node.toDocument

end RobotSuite
