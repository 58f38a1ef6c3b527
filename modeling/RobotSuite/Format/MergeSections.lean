/-
# Merging and ordering of sections

Sections of one kind are merged into the first of them, and the sections are put into a
configured order.  A section without header stays in front.
-/

import RobotSuite.Format.Pass
import RobotSuite.Format.Ending

namespace RobotSuite
namespace MergeSections

/-- The comment of a header that is dropped, on a line of its own. -/
def headerComment (newline : String) (s : Section) : List SectionItem :=
  match (s.header.map fun h => commentTokens h.tokens).bind List.head? with
  | none => []
  | some comment =>
    [.statement (Statement.create .comment [comment, .create .eol newline])]

/-- Add items behind others.  Statements in front of the first block that is added join
the last block that is there. -/
def appendItems (items added : List SectionItem) : List SectionItem :=
  match items.getLast? with
  | some (.block b) =>
    let leading := added.takeWhile fun i => !i.isBlock
    let joined := leading.filterMap SectionItem.statement?
    items.dropLast ++
      [.block { b with body := b.body ++ joined.map .statement, label := none }] ++
      added.drop leading.length
  | _ => items ++ added

/-- Add the items of one section to another. -/
def mergeInto (newline : String) (target source : Section) : Section :=
  let base := target.terminate newline
  { base with
    body := appendItems base.body (headerComment newline source ++ source.body)
    label := none }

/-- Add a section to a list of sections: to the one of its kind, or at the end.  Sections
of no known kind stay apart. -/
def addSection (newline : String) (merged : List Section) (s : Section) : List Section :=
  match merged with
  | [] => [s]
  | t :: ts =>
    if t.kind = s.kind && s.kind != .invalid then mergeInto newline t s :: ts
    else t :: addSection newline ts s

/-- The place of a kind in an order of kinds; behind all others if the order does not speak
of it. -/
def kindRank (order : List String) (kind : SectionKind) : Nat :=
  (kind.name?.map order.idxOf).getD order.length

/-- The place of a section in an order of kinds. -/
def rank (order : List String) (s : Section) : Nat := kindRank order s.kind

/-- The sections in order, those of one rank as they are. -/
def sortSections (order : List String) (ss : List Section) : List Section :=
  ss.mergeSort fun a b => rank order a ≤ rank order b

/-- Sections with a line break at the end of each but the last. -/
def terminateFront (newline : String) (ss : List Section) : List Section :=
  ss.dropLast.map (·.terminate newline) ++ ss.getLast?.toList

/-- Sections without those in front that have no header. -/
def splitLead : List Section → List Section × List Section
  | [] => ([], [])
  | s :: ss => if s.header.isNone then ([s], ss) else ([], s :: ss)

/-- The sections of a file merged and in order, or nothing if that is what they are. -/
def arrange (order : List String) (newline : String) (sections : List Section) :
    Option (List Section) :=
  let (lead, rest) := splitLead sections
  let merged := rest.foldl (addSection newline) []
  let ordered := sortSections order merged
  if merged.length = rest.length && ordered.map (rank order) = merged.map (rank order) then none
  else some (terminateFront newline (lead ++ ordered))

/-- What the pass declares. -/
def info : PassInfo :=
  { name := "MERGE_AND_ORDER_SECTIONS"
    description := "Merge duplicated sections and order sections by kind"
    params := [⟨"order", .texts SectionKind.recommendedOrder, "Section kinds in output order"⟩] }

/-- **Merging and ordering of sections.**  A directive at the level of sections switches
the pass off for the whole file. -/
def pass : Pass :=
  .ofTransform info fun setup f =>
    let order := setup.params.texts "order" SectionKind.recommendedOrder
    { name := info.name
      leaveFile := fun _ sections =>
        if f.disablesInSections info.name then .keep
        else .ofOption (arrange order setup.newline sections) }

end MergeSections
end RobotSuite
