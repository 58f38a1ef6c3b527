/-
# Keyword calls in columns

The cells of the keyword calls that stand directly in one body are aligned in columns.  A
call that would then be too long keeps its layout and does not count for the widths, so
the widths are found in rounds.
-/

import RobotSuite.Format.Pass
import RobotSuite.Format.Layout

namespace RobotSuite
namespace Columns

/-- Pairwise maxima of two lists of widths; a missing width counts as zero. -/
def maxWidths : List Nat → List Nat → List Nat
  | [], ws => ws
  | vs, [] => vs
  | v :: vs, w :: ws => max v w :: maxWidths vs ws

/-- The widest cell of each column, over all cells that another cell follows. -/
def columnWidths (rows : List (List Token)) : List Nat :=
  rows.foldl (fun widths row =>
    maxWidths widths (row.dropLast.map fun t => Text.length t.value)) []

/-- A keyword call that may be aligned. -/
structure Candidate where
  /-- Its indentation. -/
  indent : String
  /-- Its lines. -/
  lines : List LineLayout
deriving Repr, DecidableEq, Inhabited

/-- The tokens of a line aligned in columns. -/
def alignLine (indent separator : String) (widths : List Nat) (line : LineLayout) :
    List Token :=
  composeLine indent line separator fun column =>
    let cell := ((line.cells[column]?).map fun t => Text.length t.value).getD 0
    Text.spaces ((widths[column]?).getD 0 - cell) ++ separator

/-- The tokens of a keyword call aligned in columns. -/
def Candidate.align (separator : String) (widths : List Nat) (c : Candidate) : List Token :=
  c.lines.flatMap (alignLine c.indent separator widths)

/-- Whether no line of some tokens is too long. -/
def fits (limit : Nat) (tokens : List Token) : Bool :=
  (splitLines tokens).all fun line => dataWidth line ≤ limit

/-- The widths of the columns of some calls. -/
def widthsOf (cs : List (Option Candidate)) : List Nat :=
  columnWidths ((cs.filterMap id).flatMap fun c => c.lines.map (·.cells))

/-- The calls that fit when they are aligned. -/
def keepFitting (limit : Nat) (separator : String) (cs : List (Option Candidate)) :
    List (Option Candidate) :=
  let widths := widthsOf cs
  cs.map fun c => c.filter fun c => fits limit (c.align separator widths)

/-- How many calls there are. -/
def count (cs : List (Option Candidate)) : Nat := cs.countP (·.isSome)

/-- Leaving out what does not fit leaves no more than there was. -/
theorem count_keepFitting_le (limit : Nat) (separator : String)
    (cs : List (Option Candidate)) : count (keepFitting limit separator cs) ≤ count cs := by
  unfold count keepFitting
  rw [List.countP_map]
  apply List.countP_mono_left
  intro c _ h
  cases c with
  | none => simp at h
  | some c => rfl

/-- The calls that are aligned: those that are left when every call that is left fits. -/
def settle (limit : Nat) (separator : String) (cs : List (Option Candidate)) :
    List (Option Candidate) :=
  if _h : count (keepFitting limit separator cs) = count cs then cs
  else settle limit separator (keepFitting limit separator cs)
termination_by count cs
decreasing_by
  have := count_keepFitting_le limit separator cs
  omega

/-- The call that an item of a body is, if it may be aligned. -/
def candidate? : Marked BodyItem → Option Candidate
  | (.statement s, false) =>
    if s.type = .keywordCall && !s.hasCommentLine then
      some ⟨indentOf s.tokens, LineLayout.ofTokens s.tokens⟩
    else none
  | _ => none

/-- An item of a body with new tokens, if its text changes. -/
def retoken? (item : BodyItem) (tokens : List Token) : Option BodyItem :=
  match item with
  | .statement s =>
    if renderTokens tokens = s.text then none else some (.statement (s.withTokens tokens))
  | .control _ => none

/-- The items of a body, each with its replacement if it is aligned. -/
def alignments (limit : Nat) (separator : String) (items : List (Marked BodyItem)) :
    List (Option BodyItem) :=
  let calls := settle limit separator (items.map candidate?)
  let widths := widthsOf calls
  (items.zip calls).map fun (item, call) =>
    call.bind fun c => retoken? item.1 (c.align separator widths)

/-- A body with its keyword calls aligned; nothing if no text changes. -/
def alignBody (limit : Nat) (separator : String) (items : List (Marked BodyItem)) :
    Option (List (Marked BodyItem)) :=
  let found := alignments limit separator items
  if found.any (·.isSome) then
    some ((items.zip found).map fun (item, new) => (new.getD item.1, item.2))
  else none

/-- What the pass declares. -/
def info : PassInfo :=
  { name := "ALIGN_KEYWORD_CALLS"
    description := "Align keyword call cells into columns"
    enabled := false }

/-- **Keyword calls in columns.** -/
def pass : Pass :=
  .ofTransform info fun setup _ =>
    { name := info.name
      leaveBody := fun _ _ items =>
        .ofOption (alignBody setup.config.lineLength setup.config.separator items) }

end Columns
end RobotSuite
