/-
# Lines in a source

A source without control characters in its cells is read as lines of the grammar, of which
all but the last end with a line break (`written_of_mem_lines`, `terminated_of_mem_lines`).
In return, lines of which all but the last end with a line break, and which hold no other
line break, are read one by one from the text that they make (`bare_lines`), and each of the
grammar is read as it is (`bare_nextPieces`).  Places are not kept; `Token.bare` leaves them
out.
-/

import RobotSuite.Proofs.Statement.Lines
import RobotSuite.Tree.Validity

namespace RobotSuite

/-! ## Tokens without their places -/

/-- The token without its place. -/
def Token.bare (t : Token) : Token := .create t.kind t.value

/-- The token of a piece without a place. -/
def Piece.bare (p : Piece) : Token := .create p.1 (String.ofList p.2)

/-- Without its place a token is of the same kind. -/
@[simp] theorem Token.bare_kind (t : Token) : t.bare.kind = t.kind := rfl

/-- Without its place a token has the same text. -/
@[simp] theorem Token.bare_value (t : Token) : t.bare.value = t.value := rfl

/-- A piece and its token are the same without a place. -/
@[simp] theorem Token.bare_piece (t : Token) : Piece.bare t.piece = t.bare := by
  simp [Piece.bare, Token.piece, Token.bare]

/-- Pieces laid out are, without places, the pieces. -/
theorem map_bare_layOut (l : Location) (ps : List Piece) :
    (layOut l ps).map Token.bare = ps.map Piece.bare := by
  induction ps generalizing l with
  | nil => rfl
  | cons p ps ih =>
    rw [layOut_cons, List.map_cons, List.map_cons, ih]
    rfl

/-- The second list of pieces is laid out behind the first. -/
theorem layOut_append (l : Location) (ps qs : List Piece) :
    layOut l (ps ++ qs) = layOut l ps ++ layOut (l.advance (pieceText ps)) qs := by
  induction ps generalizing l with
  | nil => rfl
  | cons p ps ih =>
    have htext : pieceText (p :: ps) = p.2 ++ pieceText ps := rfl
    rw [List.cons_append, layOut_cons, layOut_cons, ih, List.cons_append, htext,
      Location.advance_append]

/-- Laying pieces out keeps their text. -/
theorem chars_layOut (l : Location) (ps : List Piece) : chars (layOut l ps) = pieceText ps := by
  induction ps generalizing l with
  | nil => rfl
  | cons p ps ih =>
    rw [layOut_cons, chars_cons, ih]
    simp [Piece.token, pieceText]

/-! ## What is read from a source -/

/-- A line ends with a feed, a return and a feed, or with the text. -/
theorem ending_cutLine (cs : List Char) :
    (cutLine cs).2.1 = ['\n'] ∨ (cutLine cs).2.1 = ['\r', '\n'] ∨
      (cutLine cs).2.1 = [] ∧ (cutLine cs).2.2 = [] := by
  fun_induction cutLine cs with
  | case1 => simp
  | case2 => simp
  | case3 => simp
  | case4 c rest _ _ line eol rest' h ih => simpa [h] using ih

/-- The ending that is cut off is a line break or empty. -/
theorem isBreak_cutLine (l : Location) (cs : List Char) :
    IsBreak (Piece.token l (.eol, (cutLine cs).2.1)) := by
  refine ⟨rfl, ?_⟩
  rcases ending_cutLine cs with h | h | ⟨h, -⟩ <;> simp [Piece.token, h]

/-- The next line is one of the grammar, unless it holds control characters. -/
theorem written_nextLine (c : Cursor) (hu : ∀ t ∈ c.nextLine.1, t.kind ≠ .unknown) :
    ∃ k, Written k c.nextLine.1 ∧
      (k = some .sectionHeader ↔ startsWithAsterisk (cutLine c.rest).1 = true) := by
  rw [Cursor.nextLine, nextPieces, layOut_append] at hu ⊢
  have hline : ∀ p ∈ linePieces (startsWithAsterisk (cutLine c.rest).1) true true
      (cutLine c.rest).1, p.1 ≠ .unknown := by
    intro p hp hk
    have hmem : p.bare ∈ (layOut c.location (linePieces (startsWithAsterisk (cutLine c.rest).1)
        true true (cutLine c.rest).1)).map Token.bare := by
      rw [map_bare_layOut]
      exact List.mem_map_of_mem hp
    obtain ⟨t, ht, he⟩ := List.mem_map.1 hmem
    have hkind : t.kind = p.1 := congrArg Token.kind he
    exact hu t (List.mem_append_left _ ht) (hkind.trans hk)
  obtain ⟨k, hk, hstar⟩ := line_of_linePieces c.location _ hline
  exact ⟨k, .mk hk (isBreak_cutLine _ _), hstar⟩

/-- **The lines of a source are lines of the grammar,** unless they hold control characters. -/
theorem written_of_mem_lines {c : Cursor} {line : List Token} (h : line ∈ c.lines)
    (hu : ∀ t ∈ line, t.kind ≠ .unknown) :
    ∃ k, Written k line ∧ (k = some .sectionHeader ↔ startsWithAsterisk (chars line) = true) := by
  fun_induction Cursor.lines c with
  | case1 => simp at h
  | case2 c hne ih =>
    rcases List.mem_cons.1 h with rfl | h
    · obtain ⟨k, hk, hstar⟩ := written_nextLine c hu
      refine ⟨k, hk, hstar.trans ?_⟩
      rw [Cursor.nextLine, chars_layOut, nextPieces, pieceText, List.flatMap_append]
      have hend := ending_cutLine c.rest
      have htext := pieceText_linePieces (startsWithAsterisk (cutLine c.rest).1) true true
        (cutLine c.rest).1
      rw [pieceText] at htext
      rw [htext]
      cases hcs : (cutLine c.rest).1 with
      | nil => rcases hend with h | h | ⟨h, -⟩ <;> simp [startsWithAsterisk, h]
      | cons d cs => simp [startsWithAsterisk]
    · exact ih h

/-- All lines of a source but the last end with a line break. -/
theorem terminated_of_mem_lines {c : Cursor} {line : List Token} (h : line ∈ c.lines.dropLast) :
    ∀ e ∈ line.getLast?, e.value ≠ "" := by
  fun_induction Cursor.lines c with
  | case1 => simp at h
  | case2 c hne ih =>
    by_cases hrest : c.nextLine.2.rest = []
    · rw [Cursor.lines, dif_pos hrest] at h
      simp at h
    · have hlines : c.nextLine.2.lines ≠ [] := by
        rw [Cursor.lines, dif_neg hrest]
        simp
      rw [List.dropLast_cons_of_ne_nil hlines] at h
      rcases List.mem_cons.1 h with rfl | h
      · intro e he
        rw [Cursor.nextLine, nextPieces, layOut_append, layOut_cons] at he
        obtain rfl : Piece.token _ (.eol, (cutLine c.rest).2.1) = e := by simpa [layOut] using he
        rcases ending_cutLine c.rest with h | h | ⟨-, h⟩
        · simp [Piece.token, h]
        · simp [Piece.token, h]
        · exact absurd h hrest
      · exact ih h

/-! ## What is written to a source -/

/-- Whether a text holds no line break. -/
def isUnbroken (cs : List Char) : Bool := cs.all fun c => c != '\r' && c != '\n'

/-- Lines that can stand one behind the other in a source: each ends with a line break, but
the last may end without one, if it is not empty. -/
inductive Joined : List (List Token) → Prop
  | nil : Joined []
  | last {ts : List Token} {e : Token} : isUnbroken (chars ts) = true → e.kind = .eol →
      e.value = "" → chars ts ≠ [] → Joined [ts ++ [e]]
  | cons {ts : List Token} {e : Token} {ls : List (List Token)} :
      isUnbroken (chars ts) = true → IsBreak e → e.value ≠ "" → Joined ls →
      Joined ((ts ++ [e]) :: ls)

/-- A text without breaks is part of the line that is cut off. -/
theorem cutLine_append {cs rest : List Char} (h : isUnbroken cs = true) :
    cutLine (cs ++ rest) = (cs ++ (cutLine rest).1, (cutLine rest).2) := by
  induction cs with
  | nil => rfl
  | cons c cs ih =>
    simp only [isUnbroken, List.all_cons, Bool.and_eq_true, bne_iff_ne] at h ih
    obtain ⟨⟨hr, hn⟩, hcs⟩ := h
    rw [List.cons_append, cutLine, ih hcs]
    · rfl
    · exact hn
    · exact fun _ h _ => hr h

/-- A line break in front cuts off an empty line. -/
theorem cutLine_ending {e : Token} (h : IsBreak e) (hne : e.value ≠ "") (rest : List Char) :
    cutLine (e.value.toList ++ rest) = ([], e.value.toList, rest) := by
  rcases h.value with h | h | h
  · rw [h]; rfl
  · rw [h]; rfl
  · exact absurd h hne

/-- A line is cut at its ending, which may be missing. -/
theorem cutLine_line {ts : List Token} {e : Token} (hts : isUnbroken (chars ts) = true)
    (he : IsBreak e) : cutLine (chars (ts ++ [e])) = (chars ts, e.value.toList, []) := by
  rw [chars_append, chars_cons, chars_nil, List.append_nil, cutLine_append hts]
  rcases he.value with h | h | h <;> rw [h] <;> simp [cutLine]

/-- The pieces of a line do not depend on what stands behind it. -/
theorem nextPieces_append {ts : List Token} {e : Token} (hts : isUnbroken (chars ts) = true)
    (he : IsBreak e) (hne : e.value ≠ "") (rest : List Char) :
    nextPieces (chars (ts ++ [e]) ++ rest) = nextPieces (chars (ts ++ [e])) := by
  have hcut (rest : List Char) :
      cutLine (chars (ts ++ [e]) ++ rest) = (chars ts, e.value.toList, rest) := by
    rw [chars_append, chars_cons, chars_nil, List.append_nil, List.append_assoc,
      cutLine_append hts, cutLine_ending he hne, List.append_nil]
  have := hcut []
  rw [List.append_nil] at this
  rw [nextPieces, nextPieces, hcut, this]

/-- **Lines that are joined are read one by one.** -/
theorem bare_lines {ls : List (List Token)} (h : Joined ls) (l : Location) :
    (Cursor.lines ⟨l, chars ls.flatten⟩).map (·.map Token.bare) =
      ls.map fun line => (nextPieces (chars line)).map Piece.bare := by
  induction h generalizing l with
  | nil => rw [List.flatten_nil, chars_nil, Cursor.lines, dif_pos rfl]; rfl
  | @last ts e hts hk he hne =>
    have hchars : chars (ts ++ [e]) = chars ts := by simp [he]
    have hrest : (cutLine (chars ts)).2.2 = [] := by
      have : cutLine (chars ts ++ []) = _ := cutLine_append hts
      rw [List.append_nil] at this
      rw [this]
      rfl
    rw [List.flatten_cons, List.flatten_nil, List.append_nil, hchars, Cursor.lines, dif_neg hne,
      Cursor.nextLine, Cursor.lines, dif_pos hrest, List.map_cons, map_bare_layOut]
    simp [he]
  | @cons ts e ls hts he hne _ ih =>
    have hcut : cutLine (chars (ts ++ [e]) ++ chars ls.flatten) =
        (chars ts, e.value.toList, chars ls.flatten) := by
      rw [chars_append, chars_cons, chars_nil, List.append_nil, List.append_assoc,
        cutLine_append hts, cutLine_ending he hne, List.append_nil]
    have hchars : chars (ts ++ [e]) ++ chars ls.flatten ≠ [] := by
      simp [hne]
    rw [List.flatten_cons, chars_append, Cursor.lines, dif_neg hchars, Cursor.nextLine, hcut,
      List.map_cons, ih, map_bare_layOut, nextPieces_append hts he hne, List.map_cons]

/-- Tokens without breaks hold none together. -/
theorem isUnbroken_chars {ts : List Token} (h : ∀ t ∈ ts, isUnbroken t.value.toList = true) :
    isUnbroken (chars ts) = true := by
  rw [isUnbroken, chars, List.all_flatMap, List.all_eq_true]
  exact h

/-- **A line of the grammar is read as it is,** if it starts with an asterisk exactly when it
is a header. -/
theorem bare_nextPieces {k : Option TokenKind} {line : List Token} (h : Written k line)
    (hu : ∀ t ∈ line, t.kind ≠ .eol → isUnbroken t.value.toList = true)
    (hs : k = some .sectionHeader ↔ startsWithAsterisk (chars line) = true) :
    (nextPieces (chars line)).map Piece.bare = line.map Token.bare := by
  obtain @⟨ts, e, hl, he⟩ := h
  have hts : isUnbroken (chars ts) = true := isUnbroken_chars fun t ht =>
    hu t (List.mem_append_left _ ht) (hl.kind t ht).1
  have hstar : startsWithAsterisk (chars ts) = (k == some .sectionHeader) := by
    have hhead : startsWithAsterisk (chars (ts ++ [e])) = startsWithAsterisk (chars ts) := by
      rw [chars_append, chars_cons, chars_nil, List.append_nil]
      cases chars ts with
      | nil => rcases he.value with h | h | h <;> rw [h] <;> rfl
      | cons c cs => rfl
    rw [hhead] at hs
    rw [Bool.eq_iff_iff, ← hs, beq_iff_eq]
  have hend : Piece.bare (.eol, e.value.toList) = e.bare := by
    simp [Piece.bare, Token.bare, he.kind]
  rw [nextPieces, cutLine_line hts he, hstar, linePieces_of_line hl, List.map_append,
    List.map_append, List.map_map]
  simp [hend]

end RobotSuite
