/-
# Spacing between the parts of a tree

Between two scalars, and in front of the first, stand commas, marks and layout.  A comment
needs white space in front of it, no mark or comma stands there twice, and outside
brackets a tab is not part of an indentation.
-/

import RobotSuite.Yaml.Tree

namespace RobotSuite
namespace Yaml

/-- What comes behind a run of lexemes. -/
inductive Next where
  | nothing
  | scalar
  | flow
  | block
deriving DecidableEq

/-- What a tree is for the lexemes in front of it. -/
def Next.ofTree : Option Tree → Next
  | none => nothing
  | some (.scalar ..) => scalar
  | some (.flow ..) => flow
  | some (.mapping ..) | some (.sequence ..) => block

/-- Where a run of lexemes stands. -/
structure Site where
  /-- Inside brackets, where commas may stand and tabs do not matter. -/
  inFlow : Bool := false
  /-- The mark that may stand in the run. -/
  mark : Kind
  next : Next := .nothing
  /-- Indentation of the collection around the run. -/
  indent : Nat := 0
  /-- Whether the run starts a line. -/
  startsLine : Bool := false

/-- What a run of lexemes holds. -/
structure Spacing where
  comma : Bool := false
  mark : Option Lexeme := none
  hasBreak : Bool := false

namespace Spacing

/-- A run of lexemes of which a part is read. -/
structure Progress extends Spacing where
  atLineStart : Bool
  hasSpace : Bool
  /-- Blanks with a tab that came just before. -/
  tab : Option Lexeme := none

/-- Whether tabs matter at a site.  In front of a document in brackets they do not. -/
def minds (site : Site) : Bool :=
  !site.inFlow && !(site.mark = .documentStart && site.next = .flow)

/-- Read one lexeme of a run. -/
def step? (site : Site) (p : Progress) (l : Lexeme) : Option Progress :=
  if p.tab.isSome && p.atLineStart && l.kind ≠ .comment && l.kind ≠ .lineBreak then none
  else
    let p := { p with tab := none }
    match l.kind with
    | .space =>
      let tab := if minds site && l.text.contains '\t' then some l else none
      some { p with tab, hasSpace := true }
    | .comment => if p.hasSpace then some { p with atLineStart := false } else none
    | .lineBreak => some { p with atLineStart := true, hasBreak := true, hasSpace := true }
    | .comma =>
      if site.inFlow && !p.comma then
        some { p with comma := true, atLineStart := false, hasSpace := false }
      else none
    | kind =>
      if kind = site.mark && p.mark.isNone then
        let atLineStart := kind = .itemMark || kind = .keyMark
        some { p with mark := some l, atLineStart, hasSpace := false }
      else none

/-- Read a run of lexemes; none if it may not stand at its site. -/
def read? (site : Site) (run : List Lexeme) : Option Spacing := do
  let start : Progress := { atLineStart := site.startsLine, hasSpace := site.startsLine }
  let p ← run.foldlM (step? site) start
  let isIndent := p.tab.any fun tab =>
    (p.atLineStart && tab.indent ≤ site.indent) || site.next = .block
  if isIndent then none else some p.toSpacing

/-- Whether a run may stand behind a scalar or a closed bracket: layout only, with white
space in front of a comment. -/
def isTrail (hasSpace : Bool) : List Lexeme → Bool
  | [] => true
  | l :: run =>
    match l.kind with
    | .space | .lineBreak => isTrail true run
    | .comment => hasSpace && isTrail hasSpace run
    | _ => false

end Spacing

end Yaml
end RobotSuite
