/-
# Lines in columns

The cells of a line that is laid out start where the widths of the columns in front of them say
(`LineLayout.Fits.starts_composeLine`), and what stands behind the last cell is not padded
(`LineLayout.Fits.behindCells_composeLine`).  A line of the grammar that is laid out again keeps its
cells, its comment and its ending (`Written.ofLine_composeLine`).  So a keyword call whose columns
are wide enough stands in them when it is aligned (`Columns.inColumns_aligned`), and one with the
same text stands in them already (`Columns.InColumns.of_bare`).
-/

import RobotSuite.Proofs.Format.Layout.EvenGaps
import RobotSuite.Proofs.Format.Layout.Passes
import RobotSuite.Proofs.Format.Split.Widths

namespace RobotSuite

/-! ## Where cells start -/

/-- How many code units of a line stand in front of each of its cells; `start` counts those in front
of the tokens. -/
def cellStarts (start : Nat) : List Token → List Nat
  | [] => []
  | t :: ts =>
    if t.isData || t.isContinuation then start :: cellStarts (start + Text.length t.value) ts
    else cellStarts (start + Text.length t.value) ts

/-- What a line holds behind its last cell. -/
def behindCells (line : List Token) : List Token :=
  Text.takeEndWhile (fun t => !(t.isData || t.isContinuation)) line

/-- Where a column starts, if the columns in front of it have some widths. -/
def columnStart (indent separator : String) (width : Nat → Nat) (column : Nat) : Nat :=
  Text.length indent + ((List.range column).map fun c => width c + Text.length separator).sum

/-- A line whose cells stand in columns of some widths.  Behind the last cell there is nothing but
the separator and the comment, if there is one, and the line ending. -/
structure LineInColumns (indent separator : String) (width : Nat → Nat) (line : List Token) :
    Prop where
  starts : cellStarts 0 line =
    (List.range (cellTokens line).length).map (columnStart indent separator width)
  behind : renderTokens (behindCells line) =
    ((LineLayout.ofLine line).comment.elim "" fun c => separator ++ c.value) ++
      (endingOf line).value

section
variable {indent separator : String} {width : Nat → Nat} {gapAt : Nat → String}

/-- A column starts behind the one in front of it and a separator. -/
theorem columnStart_succ (indent separator : String) (width : Nat → Nat) (column : Nat) :
    columnStart indent separator width (column + 1) =
      columnStart indent separator width column + (width column + Text.length separator) := by
  rw [columnStart, columnStart, List.range_succ, List.map_append, List.sum_append,
    List.map_singleton, List.sum_singleton, Nat.add_assoc]

/-- The cells of what comes behind start where the text in front ends. -/
theorem cellStarts_append (start : Nat) (a b : List Token) : cellStarts start (a ++ b) =
    cellStarts start a ++ cellStarts (start + Text.length (renderTokens a)) b := by
  induction a generalizing start with
  | nil => rfl
  | cons t a ih =>
    rw [List.cons_append, cellStarts, cellStarts, ih, renderTokens_cons, Text.length_append,
      Nat.add_assoc]
    split <;> rfl

/-- Where there are no cells, none starts. -/
theorem cellStarts_of_none {ts : List Token}
    (h : ∀ t ∈ ts, (t.isData || t.isContinuation) = false) (start : Nat) :
    cellStarts start ts = [] := by
  induction ts generalizing start with
  | nil => rfl
  | cons t ts ih =>
    obtain ⟨ht, hts⟩ := List.forall_mem_cons.1 h
    rw [cellStarts, ht, if_neg Bool.false_ne_true, ih hts]

/-- Where cells start does not depend on places. -/
theorem cellStarts_map_bare (start : Nat) (line : List Token) :
    cellStarts start (line.map Token.bare) = cellStarts start line := by
  induction line generalizing start with
  | nil => rfl
  | cons t line ih =>
    rw [List.map_cons, cellStarts, cellStarts, ih, Token.bare_value]
    rfl

/-- What stands behind the last cell does not depend on places. -/
theorem behindCells_map_bare (line : List Token) :
    behindCells (line.map Token.bare) = (behindCells line).map Token.bare := by
  rw [behindCells, behindCells, Text.takeEndWhile, Text.takeEndWhile, ← List.map_reverse,
    List.takeWhile_map, List.map_reverse]
  rfl

/-- Whether a line stands in columns does not hang on the places of its tokens. -/
theorem lineInColumns_map_bare (line : List Token) :
    LineInColumns indent separator width (line.map Token.bare) ↔
      LineInColumns indent separator width line := by
  have hcells : (cellTokens (line.map Token.bare)).length = (cellTokens line).length := by
    rw [cellTokens, List.filter_map, List.length_map]
    rfl
  have hlayout := LineLayout.ofLine_map_bare line
  have hcomment : (LineLayout.ofLine (line.map Token.bare)).comment =
      (LineLayout.ofLine line).comment.map Token.bare := by rw [hlayout]; rfl
  have hending : endingOf (line.map Token.bare) = (endingOf line).bare :=
    congrArg LineLayout.ending hlayout
  have hbehind : (LineLayout.ofLine (line.map Token.bare)).comment.elim ""
      (fun c => separator ++ c.value) =
        (LineLayout.ofLine line).comment.elim "" fun c => separator ++ c.value := by
    rw [hcomment]
    cases (LineLayout.ofLine line).comment <;> rfl
  constructor
  · rintro ⟨hstarts, hrest⟩
    rw [cellStarts_map_bare, hcells] at hstarts
    rw [behindCells_map_bare, renderTokens_map_bare, hbehind, hending, Token.bare_value] at hrest
    exact ⟨hstarts, hrest⟩
  · rintro ⟨hstarts, hrest⟩
    refine ⟨?_, ?_⟩
    · rwa [cellStarts_map_bare, hcells]
    · rwa [behindCells_map_bare, renderTokens_map_bare, hbehind, hending, Token.bare_value]

/-! ## Lines that are laid out -/

/-- Cells behind others start where their columns do, if the columns are as wide as each cell with
the gap behind it says. -/
theorem cellStarts_composeRest {start : Nat → Nat} {cells : List Token} {n stop : Nat}
    (hcells : ∀ c ∈ cells, (c.isData || c.isContinuation) = true)
    (hstop : cells ≠ [] → stop + Text.length (gapAt n) = start (n + 1))
    (hnext : ∀ k c, cells[k]? = some c → k + 1 < cells.length →
      start (n + 1 + k) + Text.length c.value + Text.length (gapAt (n + 1 + k)) =
        start (n + 1 + k + 1)) :
    cellStarts stop (composeRest gapAt n cells) = (List.range' (n + 1) cells.length).map start := by
  induction cells generalizing n stop with
  | nil => rfl
  | cons c cells ih =>
    obtain ⟨hc, hcells⟩ := List.forall_mem_cons.1 hcells
    have hplaced : ((placeCell false c).isData || (placeCell false c).isContinuation) = true := by
      rwa [placeCell_isData, placeCell_isContinuation]
    have hgap : ((gap (gapAt n)).isData || (gap (gapAt n)).isContinuation) = false := rfl
    rw [composeRest, cellStarts, hgap, if_neg Bool.false_ne_true, cellStarts, hplaced, if_pos rfl,
      show (gap (gapAt n)).value = gapAt n from rfl, hstop (List.cons_ne_nil _ _), placeCell_value,
      List.length_cons, List.range'_succ, List.map_cons]
    refine congrArg (_ :: ·) (ih hcells (fun hne => ?_) fun k d hd hk => ?_)
    · exact hnext 0 c rfl (Nat.succ_lt_succ (List.length_pos_of_ne_nil hne))
    · have := hnext (k + 1) d hd (Nat.succ_lt_succ hk)
      rwa [show n + 1 + (k + 1) = n + 1 + 1 + k by omega] at this

/-- The last of some cells is a cell. -/
theorem isCell_getLast?_composeRest {front : Token} {cells : List Token} (n : Nat)
    (hfront : (front.isData || front.isContinuation) = true)
    (hcells : ∀ c ∈ cells, (c.isData || c.isContinuation) = true) :
    ∀ t ∈ (front :: composeRest gapAt n cells).getLast?,
      (!(t.isData || t.isContinuation)) = false := by
  induction cells generalizing front n with
  | nil =>
    intro t ht
    rw [composeRest, List.getLast?_singleton] at ht
    rw [← Option.some.inj ht, hfront]
    rfl
  | cons c cells ih =>
    obtain ⟨hc, hcells⟩ := List.forall_mem_cons.1 hcells
    rw [composeRest, List.getLast?_cons_cons, List.getLast?_cons_cons]
    refine ih (n + 1) ?_ hcells
    rwa [placeCell_isData, placeCell_isContinuation]

variable {l : LineLayout}

/-- What is written behind the cells of a line. -/
def LineLayout.back (l : LineLayout) (separator : String) : List Token :=
  (l.comment.elim [] fun c => (if l.cells.isEmpty then [] else [gap separator]) ++ [c]) ++
    [l.ending]

/-- A line is written as its indentation, its cells, and what stands behind them. -/
theorem composeLine_eq (indent separator : String) (l : LineLayout) (gapAt : Nat → String) :
    composeLine indent l separator gapAt = ((if indent = "" then [] else [gap indent]) ++
      composeCells gapAt (indent = "") l.cells) ++ l.back separator := by
  rw [composeLine, LineLayout.back, List.append_assoc _ _ [l.ending]]
  cases l.comment <;> rfl

/-- Behind the cells of a line there is no cell. -/
theorem LineLayout.Fits.back (h : l.Fits) (separator : String) :
    ∀ t ∈ l.back separator, (t.isData || t.isContinuation) = false := by
  have hend : (l.ending.isData || l.ending.isContinuation) = false := by
    simp [Token.isData, Token.isContinuation, TokenKind.isData, h.ending.kind]
  rw [LineLayout.back, List.forall_mem_append, List.forall_mem_singleton]
  refine ⟨?_, hend⟩
  cases hc : l.comment with
  | none => exact List.forall_mem_nil _
  | some c =>
    have hcomment : (c.isData || c.isContinuation) = false := by
      simp [Token.isData, Token.isContinuation, TokenKind.isData, (h.comment c hc).1]
    rw [Option.elim_some, List.forall_mem_append, List.forall_mem_singleton]
    refine ⟨fun t ht => ?_, hcomment⟩
    split at ht
    · cases ht
    · rw [List.mem_singleton.1 ht]
      rfl

/-- **A line stands in the columns in which it is laid out.** -/
theorem LineLayout.Fits.starts_composeLine (h : l.Fits)
    (hgap : ∀ k c, l.cells[k]? = some c → k + 1 < l.cells.length →
      Text.length c.value + Text.length (gapAt k) = width k + Text.length separator) :
    cellStarts 0 (composeLine indent l separator gapAt) =
      (List.range l.cells.length).map (columnStart indent separator width) := by
  have hfront : cellStarts 0 (if indent = "" then [] else [gap indent]) = [] ∧
      renderTokens (if indent = "" then [] else [gap indent]) = indent := by
    split
    · rename_i hempty
      exact ⟨rfl, hempty.symm⟩
    · exact ⟨rfl, (renderTokens_cons _ []).trans String.append_empty⟩
  rw [composeLine_eq, cellStarts_append, cellStarts_append, hfront.1, hfront.2,
    cellStarts_of_none (h.back separator), List.append_nil, List.nil_append, Nat.zero_add]
  have hcells := h.isCell
  cases hl : l.cells with
  | nil => rfl
  | cons c cells =>
    rw [hl] at hcells hgap
    obtain ⟨hc, hcells⟩ := List.forall_mem_cons.1 hcells
    have hplaced : ((placeCell (indent = "") c).isData ||
        (placeCell (indent = "") c).isContinuation) = true := by
      rwa [placeCell_isData, placeCell_isContinuation]
    have hzero : columnStart indent separator width 0 = Text.length indent := rfl
    rw [composeCells, cellStarts, hplaced, if_pos rfl, placeCell_value, List.length_cons,
      List.range_eq_range', List.range'_succ, List.map_cons, hzero]
    refine congrArg (_ :: ·) (cellStarts_composeRest hcells (fun hne => ?_) fun k d hd hk => ?_)
    · have := hgap 0 c rfl (Nat.succ_lt_succ (List.length_pos_of_ne_nil hne))
      rw [columnStart_succ, hzero]
      omega
    · have := hgap (k + 1) d hd (Nat.succ_lt_succ hk)
      rw [Nat.zero_add, Nat.add_comm 1 k, columnStart_succ indent separator width (k + 1)]
      omega

/-- **What stands behind the last cell** of a line that is laid out. -/
theorem LineLayout.Fits.behindCells_composeLine (h : l.Fits) (hne : l.cells ≠ []) :
    renderTokens (behindCells (composeLine indent l separator gapAt)) =
      (l.comment.elim "" fun c => separator ++ c.value) ++ l.ending.value := by
  have hcells := h.isCell
  rw [composeLine_eq, behindCells]
  have hlast : ∀ t ∈ ((if indent = "" then [] else [gap indent]) ++
      composeCells gapAt (indent = "") l.cells).getLast?,
      (!(t.isData || t.isContinuation)) = false := by
    cases hl : l.cells with
    | nil => exact absurd hl hne
    | cons c cells =>
      rw [hl] at hcells
      obtain ⟨hc, hcells⟩ := List.forall_mem_cons.1 hcells
      rw [composeCells, List.getLast?_append_of_ne_nil _ (List.cons_ne_nil _ _)]
      refine isCell_getLast?_composeRest 0 ?_ hcells
      rwa [placeCell_isData, placeCell_isContinuation]
  have hall : Text.takeEndWhile (fun t => !(t.isData || t.isContinuation)) (l.back separator) =
      l.back separator := by
    rw [Text.takeEndWhile, List.takeWhile_eq_self_iff.2, List.reverse_reverse]
    intro t ht
    simp [h.back separator t (List.mem_reverse.1 ht)]
  rw [(Text.endWhile_append hlast _).1, hall, LineLayout.back]
  cases l.comment with
  | none => exact (renderTokens_cons _ []).trans (by simp [renderTokens])
  | some c => simp [renderTokens, hne, gap, Token.create, String.append_assoc]

end

/-! ## Lines that are laid out again -/

section
variable {k : Option TokenKind} {line : List Token} {indent separator : String}
  {gapAt : Nat → String} {l : LineLayout}

/-- A cell that is of the kind of its place stays as it is there. -/
theorem placeCell_self {atStart : Bool} {c : Token} (ha : c.kind = .argument → atStart = false)
    (hn : c.kind = .name → atStart = true) : placeCell atStart c = c := by
  unfold placeCell
  cases atStart with
  | true => rw [if_neg (by simpa using ha), if_neg (by simp)]
  | false => rw [if_neg (by simp), if_neg (by simpa using hn)]

/-- The cells of a line that is laid out, if each is of the kind of its place. -/
theorem cellTokens_composeCells {atStart : Bool} {cells : List Token}
    (hcells : ∀ c ∈ cells, (c.isData || c.isContinuation) = true)
    (hhead : ∀ c ∈ cells.head?, placeCell atStart c = c)
    (hrest : ∀ c ∈ cells.tail, placeCell false c = c) :
    cellTokens (composeCells gapAt atStart cells) = cells := by
  have hbehind (n : Nat) (cells : List Token)
      (hcells : ∀ c ∈ cells, (c.isData || c.isContinuation) = true)
      (hrest : ∀ c ∈ cells, placeCell false c = c) :
      cellTokens (composeRest gapAt n cells) = cells := by
    induction cells generalizing n with
    | nil => rfl
    | cons c cells ih =>
      obtain ⟨hc, hcells⟩ := List.forall_mem_cons.1 hcells
      obtain ⟨hplace, hrest⟩ := List.forall_mem_cons.1 hrest
      rw [composeRest, hplace, cellTokens, List.filter_cons_of_neg Bool.false_ne_true,
        List.filter_cons, if_pos hc]
      exact congrArg (c :: ·) (ih (n + 1) hcells hrest)
  cases cells with
  | nil => rfl
  | cons c cells =>
    obtain ⟨hc, hcells⟩ := List.forall_mem_cons.1 hcells
    rw [composeCells, hhead c rfl, cellTokens, List.filter_cons, if_pos hc]
    exact congrArg (c :: ·) (hbehind 0 cells hcells hrest)

/-- **A line keeps its layout when it is laid out again** with an indentation like the one that it
has. -/
theorem Written.ofLine_composeLine (h : Written k line)
    (hi : startsData k → (indent = "" ↔ k = some .name)) :
    LineLayout.ofLine (composeLine indent (.ofLine line) separator gapAt) = .ofLine line := by
  obtain ⟨-, hrest, hkind⟩ := h.cells
  have hfits := h.fits_ofLine
  have hcells : cellTokens (composeCells gapAt (indent = "") (LineLayout.ofLine line).cells) =
      (LineLayout.ofLine line).cells := by
    refine cellTokens_composeCells hfits.isCell (fun c hc => ?_) fun c hc =>
      placeCell_self (fun _ => rfl) fun hname => ?_
    · -- the first cell is a name exactly in column one
      have hc : (cellTokens line).head? = some c := hc
      rw [hc, Option.map_some] at hkind
      have hstart (hck : c.kind = .name ∨ c.kind = .argument) : indent = "" ↔ c.kind = .name := by
        rw [hi (by rw [← hkind]; exact hck.imp (congrArg some) (congrArg some)), ← hkind,
          Option.some_inj]
      refine placeCell_self (fun ha => ?_) fun hn => ?_
      · rw [decide_eq_false_iff_not, hstart (.inr ha), ha]
        decide
      · rw [decide_eq_true_eq, hstart (.inl hn), hn]
    · have harg := (hrest c hc).2
      rw [hname] at harg
      cases harg
  have hindent : cellTokens (if indent = "" then [] else [gap indent]) = [] := by split <;> rfl
  have hfound : (composeLine indent (.ofLine line) separator gapAt).find? (·.isComment) =
      (LineLayout.ofLine line).comment := by
    have hnone : ((if indent = "" then [] else [gap indent]) ++ composeCells gapAt (indent = "")
        (LineLayout.ofLine line).cells).find? (·.isComment) = none := by
      rw [List.find?_eq_none]
      intro t ht
      simpa using (Bool.or_eq_false_iff.1 (hfits.front_composeLine indent gapAt t ht)).1
    rw [composeLine_eq, List.find?_append, hnone, Option.none_or, LineLayout.back]
    have hend : (LineLayout.ofLine line).ending.isComment = false := by
      simp [Token.isComment, hfits.ending.kind]
    cases hcomment : (LineLayout.ofLine line).comment with
    | none => simp [hend]
    | some c =>
      have hc : c.isComment = true := by
        rw [Token.isComment, (hfits.comment c hcomment).1]
        rfl
      have hgap : (gap separator).isComment = false := rfl
      rw [Option.elim_some]
      split <;> simp [hc, hgap]
  have hnone : cellTokens ((LineLayout.ofLine line).back separator) = [] :=
    List.filter_eq_nil_iff.2 fun t ht => by simp [hfits.back separator t ht]
  have hlaid : cellTokens (composeLine indent (.ofLine line) separator gapAt) =
      (LineLayout.ofLine line).cells := by
    rw [composeLine_eq, cellTokens, List.filter_append, List.filter_append]
    exact (congrArg₂ (· ++ ·) (congrArg₂ (· ++ ·) hindent hcells) hnone).trans (List.append_nil _)
  have hending : endingOf (composeLine indent (.ofLine line) separator gapAt) =
      (LineLayout.ofLine line).ending := by
    rw [composeLine, endingOf_concat hfits.ending.kind]
  rw [LineLayout.ofLine, hfound, hending]
  exact congrArg (LineLayout.mk · _ _) hlaid

end

/-! ## Keyword calls -/

/-- A keyword call of which no line holds nothing but a comment. -/
structure Statement.IsCall (s : Statement) : Prop where
  type : s.type = .keywordCall
  cells : s.hasCommentLine = false

section
variable {kind : SectionKind} {s : Statement}

/-- A keyword call has data. -/
theorem Statement.IsSound.dataTexts_of_call (h : s.IsSound kind) (hs : s.type = .keywordCall) :
    dataTexts s.tokens ≠ [] := by
  intro hd
  obtain ⟨-, -, hplain, -⟩ := readsAs_iff.1 h.reads
  have := hplain hd
  rw [hs] at this
  split at this <;> cases this

/-- The lines of a keyword call: each holds a cell, and only the first one can start with a name. -/
theorem Statement.IsSound.lines_of_call (h : s.IsSound kind) (hs : s.IsCall) :
    ∀ line ∈ splitLines s.tokens, (LineLayout.ofLine line).cells ≠ [] ∧ ∃ k, Written k line ∧
      (startsData k → (indentOf s.tokens = "" ↔ k = some .name)) := by
  have hd := h.dataTexts_of_call hs.type
  have hcells {k : TokenKind} {line : List Token} (hw : Written (some k) line) :
      (LineLayout.ofLine line).cells ≠ [] := by
    intro hnil
    have hnone : cellTokens line = [] := hnil
    obtain ⟨-, -, hkind⟩ := hw.cells
    rw [hnone] at hkind
    cases hkind
  have hlines : ∀ line ∈ splitLines s.tokens, (LineLayout.ofLine line).isCommentOnly = false := by
    have := hs.cells
    rw [Statement.hasCommentLine, LineLayout.ofTokens, List.any_map, List.any_eq_false] at this
    exact fun line hline => Bool.eq_false_iff.2 (this line hline)
  obtain ⟨k, first, more, hsplit, hfirst, hw, hk, hmore⟩ := h.laid.exists_data hd
  rw [hsplit] at hlines ⊢
  rw [List.forall_mem_cons] at hlines ⊢
  refine ⟨⟨?_, k, hw, fun _ => ?_⟩, fun line hline => ?_⟩
  · rcases hk with rfl | rfl <;> exact hcells hw
  · rw [hfirst]
    exact (hw.indentOf hk _).2
  · rcases hmore line hline with hw | ⟨hw, hcomment⟩
    · refine ⟨hcells hw, _, hw, fun hk => ?_⟩
      rcases hk with hk | hk <;> cases hk
    · -- a line without cells holds a comment, and the call has no such line
      have hnone : (LineLayout.ofLine line).cells = [] :=
        cellTokens_eq_nil hw.kind_of_none
      have hsome : (LineLayout.ofLine line).comment.isSome = true := by
        rw [LineLayout.ofLine, List.find?_isSome]
        exact List.any_eq_true.1 hcomment
      have := hlines.2 line hline
      rw [LineLayout.isCommentOnly, hnone, hsome] at this
      cases this

end

namespace Columns

/-- Tokens of a statement in columns of some widths: each line stands in them, behind the indentation
of the statement, and is no longer than the limit, and the cells, comments and line endings are those
of the statement. -/
structure InColumns (limit : Nat) (separator : String) (width : Nat → Nat) (s : Statement)
    (ts : List Token) : Prop where
  layout : LineLayout.ofTokens ts = LineLayout.ofTokens s.tokens
  columns : ∀ line ∈ splitLines ts, LineInColumns (indentOf s.tokens) separator width line
  fits : ∀ line ∈ splitLines ts, dataWidth line ≤ limit

section
variable {kind : SectionKind} {limit : Nat} {separator : String} {widths : List Nat}
  {s : Statement} {ts : List Token}

/-- The tokens of a call that is aligned. -/
abbrev aligned (separator : String) (widths : List Nat) (s : Statement) : List Token :=
  Candidate.align separator widths ⟨indentOf s.tokens, LineLayout.ofTokens s.tokens⟩

/-- The gap behind a cell of a call that is aligned. -/
def gapBehind (separator : String) (widths : List Nat) (l : LineLayout) (column : Nat) : String :=
  Text.spaces (widthAt widths column -
    ((l.cells[column]?).map fun t => Text.length t.value).getD 0) ++ separator

/-- A line in columns is one whose gaps fill the widths. -/
theorem alignLine_eq (indent separator : String) (widths : List Nat) (l : LineLayout) :
    alignLine indent separator widths l =
      composeLine indent l separator (gapBehind separator widths l) := rfl

/-- A call is aligned line by line. -/
theorem splitLines_aligned (h : s.IsSound kind) (hs : IsWide separator) (widths : List Nat) :
    splitLines (aligned separator widths s) = (LineLayout.ofTokens s.tokens).map
      (alignLine (indentOf s.tokens) separator widths) := by
  obtain ⟨hi, -⟩ := h.laid.indentOf
  have hwide (l : List Token) (column : Nat) :
      IsWide (gapBehind separator widths (.ofLine l) column) := hs.spaces_append _
  rw [aligned, Candidate.align, LineLayout.ofTokens, List.flatMap_map, List.map_map]
  exact (h.laid.relay (h.laid.alike_composeLines hi hs hwide (by simp))).1

/-- A line of a call keeps its layout when the call is aligned. -/
theorem ofLine_alignLine (h : s.IsSound kind) (hcall : s.IsCall) (separator : String)
    (widths : List Nat) : ∀ line ∈ splitLines s.tokens,
      LineLayout.ofLine (alignLine (indentOf s.tokens) separator widths (.ofLine line)) =
        .ofLine line := by
  intro line hline
  obtain ⟨-, k, hk, hname⟩ := h.lines_of_call hcall line hline
  exact hk.ofLine_composeLine hname

/-- **A call keeps its cells, its comments and its line ends when it is aligned.** -/
theorem ofTokens_aligned (h : s.IsSound kind) (hs : IsWide separator) (hcall : s.IsCall)
    (widths : List Nat) :
    LineLayout.ofTokens (aligned separator widths s) = LineLayout.ofTokens s.tokens := by
  rw [LineLayout.ofTokens, splitLines_aligned h hs, LineLayout.ofTokens, List.map_map, List.map_map]
  exact List.map_congr_left (ofLine_alignLine h hcall separator widths)

/-- **A call that is aligned stands in its columns,** if they are wide enough and no line is too
long. -/
theorem inColumns_aligned (h : s.IsSound kind) (hs : IsWide separator) (hcall : s.IsCall)
    (hwide : ∀ l ∈ LineLayout.ofTokens s.tokens, ∀ column cell, l.Followed column cell →
      Text.length cell.value ≤ widthAt widths column)
    (hfits : fits limit (aligned separator widths s) = true) :
    InColumns limit separator (widthAt widths) s (aligned separator widths s) := by
  refine ⟨ofTokens_aligned h hs hcall widths, fun new hnew => ?_, fun new hnew => ?_⟩
  · rw [splitLines_aligned h hs, LineLayout.ofTokens, List.map_map] at hnew
    obtain ⟨line, hline, rfl⟩ := List.mem_map.1 hnew
    obtain ⟨hne, k, hk, -⟩ := h.lines_of_call hcall line hline
    have hsame := ofLine_alignLine h hcall separator widths line hline
    have hcells : cellTokens (alignLine (indentOf s.tokens) separator widths (.ofLine line)) =
        (LineLayout.ofLine line).cells := congrArg LineLayout.cells hsame
    rw [Function.comp_apply]
    refine ⟨?_, ?_⟩
    · rw [hcells, alignLine_eq]
      refine hk.fits_ofLine.starts_composeLine fun column cell hcell hnext => ?_
      have := hwide _ (List.mem_map_of_mem hline) column cell ⟨hcell, hnext⟩
      rw [gapBehind, hcell, Text.length_append, Text.length_spaces, Option.map_some,
        Option.getD_some]
      omega
    · rw [hsame, show endingOf _ = (LineLayout.ofLine line).ending from
        congrArg LineLayout.ending hsame, alignLine_eq]
      exact hk.fits_ofLine.behindCells_composeLine hne
  · exact of_decide_eq_true (List.all_eq_true.1 hfits new hnew)

/-- **A call with the text that it has in columns stands in them.** -/
theorem InColumns.of_bare {width : Nat → Nat} (h : InColumns limit separator width s ts)
    (hb : ts.map Token.bare = s.tokens.map Token.bare) :
    InColumns limit separator width s s.tokens := by
  have hsame : ∀ line ∈ splitLines s.tokens, ∃ new ∈ splitLines ts,
      new.map Token.bare = line.map Token.bare := by
    intro line hline
    refine List.mem_map.1 ?_
    rw [← splitLines_map_bare, hb, splitLines_map_bare]
    exact List.mem_map_of_mem hline
  refine ⟨rfl, fun line hline => ?_, fun line hline => ?_⟩
  · obtain ⟨new, hnew, heq⟩ := hsame line hline
    rw [← lineInColumns_map_bare, ← heq, lineInColumns_map_bare]
    exact h.columns new hnew
  · obtain ⟨new, hnew, heq⟩ := hsame line hline
    rw [← dataWidth_map_bare, ← heq, dataWidth_map_bare]
    exact h.fits new hnew

/-- A call keeps its indentation when it is aligned. -/
theorem indentOf_aligned (h : s.IsSound kind) (hcall : s.IsCall) (widths : List Nat) :
    indentOf (aligned separator widths s) = indentOf s.tokens := by
  have hlines := h.lines_of_call hcall
  obtain ⟨-, first, more, hsplit, -⟩ := h.laid.exists_data (h.dataTexts_of_call hcall.type)
  rw [aligned, Candidate.align, LineLayout.ofTokens, hsplit, List.map_cons, List.flatMap_cons,
    alignLine_eq]
  obtain ⟨hne, k, hk, -⟩ := hlines first (by simp [hsplit])
  have hcells := hk.fits_ofLine.isCell
  rw [composeLine]
  by_cases hi : indentOf s.tokens = ""
  · cases hl : (LineLayout.ofLine first).cells with
    | nil => exact absurd hl hne
    | cons c cells =>
      rw [hl] at hcells
      have hc : ((placeCell true c).isData || (placeCell true c).isContinuation) = true := by
        rw [placeCell_isData, placeCell_isContinuation]
        exact hcells c List.mem_cons_self
      have hgap : (placeCell true c).isSeparator = false := by
        cases hs : (placeCell true c).isSeparator with
        | false => rfl
        | true => simp [isData_of_isSeparator hs, isContinuation_of_isSeparator hs] at hc
      rw [if_pos hi, decide_eq_true hi, composeCells]
      exact (if_neg (by simp [hgap])).trans hi.symm
  · rw [if_neg hi]
    rfl

end
end Columns

end RobotSuite
