/-
# Reading tokens

Every line of a source becomes a list of tokens that ends with its line ending, and
every character lands in exactly one token.  A line is first cut off the source
(`cutLine`), then into pieces (`linePieces`), and the pieces are laid out from the
place where the line starts (`layOut`).

* `cutLine_eq` and `pieceText_linePieces`: the cuts lose nothing.
* `toList_renderTokens_layOut`: laying out pieces keeps their text.
-/

import RobotSuite.Token
import RobotSuite.Text.Blank

namespace RobotSuite

open Text (isGap dropEndWhile takeEndWhile)

/-- A character that no cell should hold: C0 apart from the tab, and DEL. -/
def isControlChar (c : Char) : Bool := (c.toNat < 0x20 && c != '\t') || c.toNat = 0x7F

/-- Cut a text behind its first line: the line, its ending and the rest.  A carriage
return ends a line only in front of a line feed. -/
def cutLine : List Char → List Char × List Char × List Char
  | [] => ([], [], [])
  | '\n' :: rest => ([], ['\n'], rest)
  | '\r' :: '\n' :: rest => ([], ['\r', '\n'], rest)
  | c :: rest => let (line, eol, rest) := cutLine rest; (c :: line, eol, rest)

/-- The line, its ending and the rest are the text. -/
theorem cutLine_eq (cs : List Char) :
    (cutLine cs).1 ++ (cutLine cs).2.1 ++ (cutLine cs).2.2 = cs := by
  fun_induction cutLine cs <;> simp_all

/-- A line that is cut off leaves less. -/
theorem length_cutLine_lt {cs : List Char} (h : cs ≠ []) :
    (cutLine cs).2.2.length < cs.length := by
  fun_induction cutLine cs with
  | case1 => exact absurd rfl h
  | case2 => simp
  | case3 => simp only [List.length_cons]; omega
  | case4 c rest h1 h2 line eol rest' h3 ih =>
    rw [h3] at ih
    by_cases hr : rest = []
    · subst hr; simp [cutLine] at h3; simp [← h3.2.2]
    · have := ih hr; simp at this ⊢; omega

/-- Cut a cell off the front of a line.  A tab ends it, and so does a space at the end
of the line or in front of another gap character. -/
def cutCell : List Char → List Char × List Char
  | [] => ([], [])
  | [c] => if isGap c then ([], [c]) else ([c], [])
  | c :: d :: rest =>
    if c = '\t' || (c = ' ' && isGap d) then ([], c :: d :: rest)
    else let (cell, after) := cutCell (d :: rest); (c :: cell, after)

/-- The cell and the rest are the text. -/
theorem cutCell_eq (cs : List Char) : (cutCell cs).1 ++ (cutCell cs).2 = cs := by
  fun_induction cutCell cs <;> simp_all

/-- A cell that starts with no gap is not empty. -/
theorem cutCell_ne_nil {c : Char} {cs : List Char} (h : isGap c = false) :
    (cutCell (c :: cs)).1 ≠ [] := by
  cases cs with
  | nil => simp [cutCell, h]
  | cons d rest =>
    simp [isGap] at h
    simp [cutCell, h]

/-- A piece of a line: the kind and text of a token to be. -/
abbrev Piece := TokenKind × List Char

/-- The text of some pieces. -/
def pieceText (ps : List Piece) : List Char := ps.flatMap (·.2)

/-- Kind of a cell.  `header` says that the line starts with an asterisk, `first` that
no cell stands before it, and `atStart` that the cell starts the line. -/
def cellKind (header first atStart : Bool) (cell : List Char) : TokenKind :=
  if cell.any isControlChar then .unknown
  else if header && first then .sectionHeader
  else if first && cell = ['.', '.', '.'] then .continuation
  else if first && atStart then .name
  else .argument

/-- A comment and the gap behind it. -/
def commentPieces (cs : List Char) : List Piece :=
  let trailing := takeEndWhile isGap cs
  (.comment, dropEndWhile isGap cs) :: if trailing.isEmpty then [] else [(.separator, trailing)]

/-- The pieces of a line, from left to right. -/
def linePieces (header first atStart : Bool) (cs : List Char) : List Piece :=
  match cs with
  | [] => []
  | c :: rest =>
    if _h : isGap c then
      (.separator, (c :: rest).takeWhile isGap) ::
        linePieces header first false ((c :: rest).dropWhile isGap)
    else if c = '#' then commentPieces (c :: rest)
    else
      (cellKind header first atStart (cutCell (c :: rest)).1, (cutCell (c :: rest)).1) ::
        linePieces header false false (cutCell (c :: rest)).2
termination_by cs.length
decreasing_by
  · have : (rest.dropWhile isGap).length ≤ rest.length := (List.dropWhile_suffix isGap).length_le
    simp [_h]; omega
  · have hne : (cutCell (c :: rest)).1 ≠ [] := cutCell_ne_nil (by simpa using _h)
    have := congrArg List.length (cutCell_eq (c :: rest))
    have := List.length_pos_iff.mpr hne
    simp at *; omega

/-- The pieces of a comment are its text. -/
theorem pieceText_commentPieces (cs : List Char) : pieceText (commentPieces cs) = cs := by
  have h := Text.dropEndWhile_append_takeEndWhile isGap cs
  unfold commentPieces pieceText
  by_cases ht : takeEndWhile isGap cs = []
  · rw [ht] at h; simp [ht]; simpa using h
  · simp [ht, h]

/-- The pieces of a line are its text. -/
theorem pieceText_linePieces (header first atStart : Bool) (cs : List Char) :
    pieceText (linePieces header first atStart cs) = cs := by
  fun_induction linePieces header first atStart cs with
  | case1 => rfl
  | case2 first atStart c rest h ih =>
    simp only [pieceText, List.flatMap_cons] at ih ⊢
    rw [ih, List.takeWhile_append_dropWhile]
  | case3 first atStart rest h => exact pieceText_commentPieces _
  | case4 first atStart c rest h hc ih =>
    simp only [pieceText, List.flatMap_cons] at ih ⊢
    rw [ih, cutCell_eq]

/-- Give pieces their places, one behind the other. -/
def layOut (at_ : Location) : List Piece → List Token
  | [] => []
  | (kind, text) :: ps =>
    ⟨kind, String.ofList text, ⟨at_, at_.advance text⟩⟩ :: layOut (at_.advance text) ps

/-- Pieces laid out render as their text. -/
theorem toList_renderTokens_layOut (l : Location) (ps : List Piece) :
    (renderTokens (layOut l ps)).toList = pieceText ps := by
  induction ps generalizing l with
  | nil => rfl
  | cons p ps ih =>
    have := ih (l.advance p.2)
    simp [renderTokens, layOut, pieceText] at this ⊢
    exact this

/-- A place in a source and the text that is still to be read from there. -/
structure Cursor where
  /-- Where the rest starts. -/
  location : Location
  /-- Text still to be read. -/
  rest : List Char
deriving Repr

/-- The start of a source. -/
def Cursor.ofSource (source : String) : Cursor := ⟨.origin, source.toList⟩

/-- Whether a line starts with an asterisk. -/
def startsWithAsterisk (line : List Char) : Bool := line.head? == some '*'

/-- Pieces of the next line, its line ending last. -/
def nextPieces (cs : List Char) : List Piece :=
  linePieces (startsWithAsterisk (cutLine cs).1) true true (cutLine cs).1 ++
    [(.eol, (cutLine cs).2.1)]

/-- Tokens of the next line and the place behind it.  Behind the end of the source
there are empty line endings only. -/
def Cursor.nextLine (c : Cursor) : List Token × Cursor :=
  (layOut c.location (nextPieces c.rest),
    ⟨c.location.advance (pieceText (nextPieces c.rest)), (cutLine c.rest).2.2⟩)

/-- The lines from a cursor to the end of its source. -/
def Cursor.lines (c : Cursor) : List (List Token) :=
  if _h : c.rest = [] then []
  else c.nextLine.1 :: c.nextLine.2.lines
termination_by c.rest.length
decreasing_by exact length_cutLine_lt _h

/-- The tokens of a source, line by line.  An empty source has no line. -/
def tokenize (source : String) : List (List Token) := (Cursor.ofSource source).lines

end RobotSuite
