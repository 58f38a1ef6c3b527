/-
# Lines that are laid out again

A layout whose cells and comment are texts of the grammar is written as a line, whatever the
gaps, if these are wide and the line is indented by blanks or not at all
(`LineLayout.Fits.written`).  The layout of a line of the grammar is such a one
(`Written.fits_ofLine`), so that laying the lines of a statement out again keeps it laid out
(`Laid.map`), with the texts of its cells and comments (`dataTexts_composeLine`,
`commentTexts_composeLine`).
-/

import RobotSuite.Format.Layout
import RobotSuite.Proofs.Tree.Sound

namespace RobotSuite

/-! ## Cells in their places -/

/-- A token that can be the first cell of a line. -/
def Token.IsLead (c : Token) : Prop :=
  (c.kind = .sectionHeader ∧ (IsStarred c.value ∨ c.value = SectionKind.missingHeader)) ∨
    (c.kind = .continuation ∧ c.value = "...") ∨
    ((c.kind = .name ∨ c.kind = .argument) ∧ c.value ≠ "...")

/-- A token that can be a cell behind others. -/
def Token.IsRest (c : Token) : Prop := IsCell c.value ∧ (c.kind = .name ∨ c.kind = .argument)

section
variable {atStart : Bool} {c : Token}

/-- Retyping a cell for its place keeps its text. -/
@[simp] theorem placeCell_value (atStart : Bool) (c : Token) :
    (placeCell atStart c).value = c.value := by
  unfold placeCell
  split
  · rfl
  · split <;> rfl

/-- A name or an argument is a name at the start of a line and an argument elsewhere. -/
theorem placeCell_kind (h : c.kind = .name ∨ c.kind = .argument) :
    (placeCell atStart c).kind = if atStart then .name else .argument := by
  unfold placeCell
  rcases h with h | h <;> cases atStart <;> simp [h]

/-- Other cells are not retyped. -/
theorem placeCell_of_ne (hn : c.kind ≠ .name) (ha : c.kind ≠ .argument) :
    placeCell atStart c = c := by
  simp [placeCell, hn, ha]

/-- Retyping a cell for its place keeps data data. -/
@[simp] theorem placeCell_isData (atStart : Bool) (c : Token) :
    (placeCell atStart c).isData = c.isData := by
  by_cases h : c.kind = .name ∨ c.kind = .argument
  · rw [Token.isData, Token.isData, placeCell_kind h]
    rcases h with h | h <;> cases atStart <;> simp [h, TokenKind.isData]
  · rw [not_or] at h
    rw [placeCell_of_ne h.1 h.2]

/-- Retyping a cell for its place makes no comment. -/
@[simp] theorem placeCell_isComment (atStart : Bool) (c : Token) :
    (placeCell atStart c).isComment = c.isComment := by
  by_cases h : c.kind = .name ∨ c.kind = .argument
  · rw [Token.isComment, Token.isComment, placeCell_kind h]
    rcases h with h | h <;> cases atStart <;> rw [h] <;> rfl
  · rw [not_or] at h
    rw [placeCell_of_ne h.1 h.2]

/-- Retyping a cell for its place makes no line ending. -/
@[simp] theorem placeCell_isEol (atStart : Bool) (c : Token) :
    (placeCell atStart c).isEol = c.isEol := by
  by_cases h : c.kind = .name ∨ c.kind = .argument
  · rw [Token.isEol, Token.isEol, placeCell_kind h]
    rcases h with h | h <;> cases atStart <;> rw [h] <;> rfl
  · rw [not_or] at h
    rw [placeCell_of_ne h.1 h.2]

/-- A cell that may lead a line does so once it is retyped. -/
theorem Token.IsLead.placeCell (h : c.IsLead) (hs : c.kind = .sectionHeader → atStart = true) :
    Lead atStart (placeCell atStart c).value (placeCell atStart c).kind := by
  rw [placeCell_value]
  rcases h with ⟨hk, hv⟩ | ⟨hk, hv⟩ | ⟨hk, hv⟩
  · rw [placeCell_of_ne (by simp [hk]) (by simp [hk]), hk]
    exact .header (hs hk) hv
  · rw [placeCell_of_ne (by simp [hk]) (by simp [hk]), hk]
    exact .continuation hv
  · rw [placeCell_kind hk]
    cases atStart with
    | false => exact .argument rfl hv
    | true => exact .name rfl hv

/-- A cell that leads a line may lead one. -/
theorem Lead.isLead {k : TokenKind} (h : Lead atStart c.value k) (hk : c.kind = k) :
    c.IsLead := by
  cases h with
  | header _ hv => exact .inl ⟨hk, hv⟩
  | continuation hv => exact .inr (.inl ⟨hk, hv⟩)
  | name _ hv => exact .inr (.inr ⟨.inl hk, hv⟩)
  | argument _ hv => exact .inr (.inr ⟨.inr hk, hv⟩)

end

/-! ## Layouts that fit -/

/-- A layout that can be written as a line. -/
structure LineLayout.Fits (l : LineLayout) : Prop where
  head : ∀ c ∈ l.cells.head?, IsCell c.value ∧ c.IsLead
  rest : ∀ c ∈ l.cells.tail, c.IsRest
  comment : ∀ c ∈ l.comment, c.kind = .comment ∧ IsComment c.value
  ending : IsBreak l.ending

/-- The kind of the first cell of a line that is laid out. -/
def LineLayout.lead (l : LineLayout) (atStart : Bool) : Option TokenKind :=
  l.cells.head?.map fun c => (placeCell atStart c).kind

/-- An indentation of a line: none, or a gap. -/
def IsIndent (indent : String) : Prop := indent = "" ∨ IsGap indent

/-- The text of an indent is written as one. -/
theorem indent_of_isIndent {indent : String} (h : IsIndent indent) :
    Indent (if indent = "" then [] else [gap indent]) ∧
      (if indent = "" then [] else [gap indent]).isEmpty = decide (indent = "") := by
  by_cases hn : indent = ""
  · simp only [hn, if_true]
    exact ⟨.none, rfl⟩
  · simp only [hn, if_false]
    exact ⟨.gap rfl (h.resolve_left hn), rfl⟩

/-- Cells written behind the first are what may follow it. -/
theorem tail_composeRest {gapAt : Nat → String} (hg : ∀ n, IsWide (gapAt n)) {cells : List Token}
    (hc : ∀ c ∈ cells, c.IsRest) {ts : List Token} (ht : Tail ts) (n : Nat) :
    Tail (composeRest gapAt n cells ++ ts) := by
  induction cells generalizing n with
  | nil => exact ht
  | cons c cells ih =>
    obtain ⟨hcell, hk⟩ := hc c List.mem_cons_self
    rw [composeRest, List.cons_append, List.cons_append]
    refine .cell rfl (hg n) ?_ ?_ (ih (fun d hd => hc d (List.mem_cons_of_mem _ hd)) _)
    · rw [placeCell_kind hk]
      rfl
    · rwa [placeCell_value]

section
variable {l : LineLayout} {indent separator : String} {gapAt : Nat → String}

/-- **A layout that fits is written as a line.** -/
theorem LineLayout.Fits.written (h : l.Fits) (hi : IsIndent indent) (hs : IsWide separator)
    (hg : ∀ n, IsWide (gapAt n))
    (hh : ∀ c ∈ l.cells.head?, c.kind = .sectionHeader → indent = "") :
    Written (l.lead (indent = "")) (composeLine indent l separator gapAt) := by
  obtain ⟨hindent, hempty⟩ := indent_of_isIndent hi
  obtain ⟨cells, comment, ending⟩ := l
  obtain ⟨hhead, hrest, hcomment, hending⟩ := h
  rw [composeLine]
  refine .mk ?_ hending
  cases cells with
  | nil =>
    rw [composeCells, List.append_nil]
    cases comment with
    | none =>
      rw [List.append_nil]
      exact .blank hindent
    | some c =>
      obtain ⟨hk, hc⟩ := hcomment c rfl
      exact .remark hindent (.plain hk hc)
  | cons c cells =>
    obtain ⟨hcell, hlead⟩ := hhead c rfl
    have hline {ts : List Token} (ht : Tail ts) :
        Line (LineLayout.lead ⟨c :: cells, comment, ending⟩ (indent = ""))
          ((if indent = "" then [] else [gap indent]) ++
            placeCell (indent = "") c :: (composeRest gapAt 0 cells ++ ts)) := by
      refine .cells hindent ?_ ?_ (tail_composeRest hg hrest ht 0)
      · rwa [placeCell_value]
      · rw [hempty]
        exact hlead.placeCell fun hk => by simpa using hh c rfl hk
    rw [composeCells, List.append_assoc, List.cons_append]
    cases comment with
    | none => exact hline .nil
    | some d =>
      obtain ⟨hk, hd⟩ := hcomment d rfl
      exact hline (.remark rfl hs (.plain hk hd))

/-! ## Texts of lines that are laid out -/

section
variable {p : Token → Bool} (hgap : ∀ v, p (gap v) = false)
  (hplace : ∀ atStart c, p (placeCell atStart c) = p c)
include hgap hplace

/-- Writing cells keeps the texts a test picks out, behind the first. -/
theorem filter_composeRest (gapAt : Nat → String) (n : Nat) (cells : List Token) :
    ((composeRest gapAt n cells).filter p).map (·.value) = (cells.filter p).map (·.value) := by
  induction cells generalizing n with
  | nil => rfl
  | cons c cells ih =>
    rw [composeRest, List.filter_cons, hgap, List.filter_cons, List.filter_cons, hplace]
    cases p c <;> simp [ih]

/-- Writing cells keeps the texts a test picks out. -/
theorem filter_composeCells (gapAt : Nat → String) (atStart : Bool) (cells : List Token) :
    ((composeCells gapAt atStart cells).filter p).map (·.value) =
      (cells.filter p).map (·.value) := by
  cases cells with
  | nil => rfl
  | cons c cells =>
    rw [composeCells, List.filter_cons, List.filter_cons, hplace]
    have hrest := filter_composeRest hgap hplace gapAt 0 cells
    cases p c <;> simp [hrest]

/-- What is no gap is in a line that is laid out as it is in the layout. -/
theorem filter_composeLine (l : LineLayout) (indent separator : String) (gapAt : Nat → String) :
    ((composeLine indent l separator gapAt).filter p).map (·.value) =
      ((l.cells ++ (l.comment.toList ++ [l.ending])).filter p).map (·.value) := by
  have hindent : (if indent = "" then [] else [gap indent]).filter p = [] := by
    split
    · rfl
    · simp [hgap]
  have hcells := filter_composeCells hgap hplace gapAt (indent = "") l.cells
  rw [composeLine, List.filter_append, List.filter_append, List.filter_append, hindent,
    List.nil_append, List.map_append, List.map_append, hcells, List.filter_append,
    List.filter_append, List.map_append, List.map_append, List.append_assoc]
  congr 2
  cases l.comment with
  | none => rfl
  | some c => cases l.cells <;> simp [hgap]

end

/-- The cells of a layout are neither comments nor endings. -/
theorem LineLayout.Fits.kind_cells (h : l.Fits) : ∀ c ∈ l.cells,
    c.kind ≠ .comment ∧ c.kind ≠ .eol := by
  intro c hc
  obtain ⟨hhead, hrest, -, -⟩ := h
  cases hcells : l.cells with
  | nil => simp [hcells] at hc
  | cons d ds =>
    rw [hcells] at hc hhead hrest
    rcases List.mem_cons.1 hc with rfl | hc
    · rcases (hhead c rfl).2 with ⟨hk, -⟩ | ⟨hk, -⟩ | ⟨hk | hk, -⟩ <;> simp [hk]
    · rcases (hrest c hc).2 with hk | hk <;> simp [hk]

/-- A written line holds the data of its layout. -/
theorem LineLayout.Fits.dataTexts_composeLine (h : l.Fits) (indent separator : String)
    (gapAt : Nat → String) :
    dataTexts (composeLine indent l separator gapAt) = dataTexts l.cells := by
  have hcomment : (l.comment.toList ++ [l.ending]).filter (·.isData) = [] := by
    rw [List.filter_eq_nil_iff]
    intro t ht
    rcases List.mem_append.1 ht with ht | ht
    · simp [Token.isData, TokenKind.isData, (h.comment t (by simpa using ht)).1]
    · obtain rfl := List.mem_singleton.1 ht
      simp [Token.isData, TokenKind.isData, h.ending.kind]
  rw [dataTexts, dataTokens, filter_composeLine (fun _ => rfl) placeCell_isData,
    List.filter_append, hcomment, List.append_nil]
  rfl

/-- A written line holds the comment of its layout. -/
theorem LineLayout.Fits.commentTexts_composeLine (h : l.Fits) (indent separator : String)
    (gapAt : Nat → String) :
    commentTexts (composeLine indent l separator gapAt) = l.comment.toList.map (·.value) := by
  have hcells : l.cells.filter (·.isComment) = [] := by
    rw [List.filter_eq_nil_iff]
    intro c hc
    simpa [Token.isComment] using (h.kind_cells c hc).1
  have hcomment : (l.comment.toList ++ [l.ending]).filter (·.isComment) = l.comment.toList := by
    cases hc : l.comment with
    | none => simp [Token.isComment, h.ending.kind]
    | some c => simp [Token.isComment, h.ending.kind, (h.comment c hc).1]
  rw [commentTexts, commentTokens, filter_composeLine (fun _ => rfl) placeCell_isComment,
    List.filter_append, hcells, hcomment, List.nil_append]

end

/-! ## Layouts of lines -/

/-- Comments among the tokens of a line: one at most, and a text of the grammar. -/
structure HoldsRemark (ts : List Token) : Prop where
  single : (commentTokens ts).length ≤ 1
  comment : ∀ c ∈ commentTokens ts, c.kind = .comment ∧ IsComment c.value

/-- The cells of a line, and the marker in front of them. -/
abbrev cellTokens (ts : List Token) : List Token := ts.filter fun t => t.isData || t.isContinuation

section
variable {ts : List Token}

/-- Gaps, comments and endings are no cells. -/
theorem cellTokens_eq_nil (h : ∀ t ∈ ts, t.kind = .separator ∨ t.kind = .comment ∨ t.kind = .eol) :
    cellTokens ts = [] := by
  rw [cellTokens, List.filter_eq_nil_iff]
  intro t ht
  rcases h t ht with h | h | h <;> simp [Token.isData, Token.isContinuation, TokenKind.isData, h]

/-- Without comments there are none to collect. -/
theorem commentTokens_eq_nil (h : ∀ t ∈ ts, t.kind ≠ .comment) : commentTokens ts = [] := by
  rw [commentTokens, List.filter_eq_nil_iff]
  intro t ht
  simpa [Token.isComment] using h t ht

/-- The data of two stretches comes one after the other. -/
theorem dataTokens_append (a b : List Token) :
    dataTokens (a ++ b) = dataTokens a ++ dataTokens b := by
  simp [dataTokens]

/-- The comments of two stretches come one after the other. -/
theorem commentTokens_append (a b : List Token) :
    commentTokens (a ++ b) = commentTokens a ++ commentTokens b := by
  simp [commentTokens]

/-- Holding a remark is told by the comments. -/
theorem HoldsRemark.of_eq {a b : List Token} (h : HoldsRemark a)
    (he : commentTokens b = commentTokens a) : HoldsRemark b := by
  obtain ⟨hs, hc⟩ := h
  rw [← he] at hs hc
  exact ⟨hs, hc⟩

theorem HoldsRemark.nil : HoldsRemark [] := ⟨by simp [commentTokens], by simp [commentTokens]⟩

/-- A remark holds one. -/
theorem Remark.holdsRemark (h : Remark ts) : HoldsRemark ts := by
  have hone {c : Token} (hk : c.kind = .comment) (hc : IsComment c.value)
      (he : commentTokens ts = [c]) : HoldsRemark ts := by
    refine ⟨by simp [he], fun d hd => ?_⟩
    rw [he] at hd
    obtain rfl := List.mem_singleton.1 hd
    exact ⟨hk, hc⟩
  cases h with
  | plain hk hc => exact hone hk hc (by simp [commentTokens, Token.isComment, hk])
  | trailed hk hc hg _ => exact hone hk hc (by simp [commentTokens, Token.isComment, hk, hg])

/-- What follows the first cell holds a remark. -/
theorem Tail.holdsRemark (h : Tail ts) : HoldsRemark ts := by
  induction h with
  | nil => exact .nil
  | gap hk _ => exact HoldsRemark.nil.of_eq (by simp [commentTokens, Token.isComment, hk])
  | remark hk _ hr =>
    exact hr.holdsRemark.of_eq (by simp [commentTokens, Token.isComment, hk])
  | cell hk _ hc _ _ ih => exact ih.of_eq (by simp [commentTokens, Token.isComment, hk, hc])

/-- The cells behind the first are arguments. -/
theorem Tail.cells (h : Tail ts) : ∀ c ∈ cellTokens ts, IsCell c.value ∧ c.kind = .argument := by
  induction h with
  | nil => simp
  | gap hk _ => simp [Token.isData, Token.isContinuation, TokenKind.isData, hk]
  | remark hk _ hr =>
    intro c hc
    rw [cellTokens_eq_nil] at hc
    · simp at hc
    · intro t ht
      rcases List.mem_cons.1 ht with rfl | ht
      · exact .inl hk
      · rcases hr.kind t ht with h | h
        · exact .inl h
        · exact .inr (.inl h)
  | cell hk _ hck hc _ ih =>
    intro d hd
    rw [cellTokens, List.filter_cons, List.filter_cons] at hd
    simp only [Token.isData, Token.isContinuation, hk, hck, TokenKind.isData] at hd
    rcases List.mem_cons.1 hd with rfl | hd
    · exact ⟨hc, hck⟩
    · exact ih d hd

end

/-- The ending is the last token. -/
theorem endingOf_concat {ts : List Token} {e : Token} (he : e.kind = .eol) :
    endingOf (ts ++ [e]) = e := by
  rw [endingOf, List.getLast?_concat, Option.filter_some, Token.isEol, he]
  rfl

section
variable {k : Option TokenKind} {line : List Token}

/-- A line of the grammar holds one comment at most. -/
theorem Written.holdsRemark (h : Written k line) : HoldsRemark line := by
  obtain ⟨hl, he⟩ := h
  have hend {ts : List Token} {e : Token} (he : IsBreak e) :
      commentTokens (ts ++ [e]) = commentTokens ts := by
    simp [commentTokens, Token.isComment, he.kind]
  have hindent {i : List Token} (hi : Indent i) : commentTokens i = [] :=
    commentTokens_eq_nil fun t ht => by simp [hi.kind t ht]
  refine HoldsRemark.of_eq ?_ (hend he)
  cases hl with
  | blank hi => exact HoldsRemark.nil.of_eq (hindent hi)
  | remark hi hr =>
    exact hr.holdsRemark.of_eq (by rw [commentTokens_append, hindent hi, List.nil_append])
  | @cells i ts c hi _ hlead htail =>
    refine htail.holdsRemark.of_eq ?_
    have hc : c.isComment = false := by
      rcases hlead.kind with h | h | h | h <;> simp [Token.isComment, h]
    rw [commentTokens_append, hindent hi, List.nil_append, commentTokens, List.filter_cons, hc]
    rfl

/-- The cells of a line of the grammar. -/
theorem Written.cells (h : Written k line) :
    (∀ c ∈ (cellTokens line).head?, IsCell c.value ∧ c.IsLead) ∧
      (∀ c ∈ (cellTokens line).tail, IsCell c.value ∧ c.kind = .argument) ∧
        (cellTokens line).head?.map (·.kind) = k := by
  cases k with
  | none =>
    rw [cellTokens_eq_nil h.kind_of_none]
    simp
  | some k =>
    obtain @⟨_, e, hl, he⟩ := h
    cases hl with
    | @cells i ts c hi hc hlead htail =>
      have hindent : cellTokens i = [] :=
        cellTokens_eq_nil fun t ht => .inl (hi.kind t ht)
      have hend : cellTokens [e] = [] :=
        cellTokens_eq_nil fun t ht => .inr (.inr (List.mem_singleton.1 ht ▸ he.kind))
      have hfirst : (c.isData || c.isContinuation) = true := by
        rcases hlead.kind with h | h | h | h <;>
          simp [Token.isData, Token.isContinuation, TokenKind.isData, h]
      have hcells : cellTokens ((i ++ c :: ts) ++ [e]) =
          c :: cellTokens ts := by
        simp only [cellTokens] at hindent hend ⊢
        rw [List.filter_append, List.filter_append, hindent, hend,
          List.filter_cons_of_pos (by simpa using hfirst), List.nil_append, List.append_nil]
      rw [hcells]
      refine ⟨?_, htail.cells, rfl⟩
      intro d hd
      obtain rfl : c = d := by simpa using hd
      exact ⟨hc, hlead.isLead rfl⟩

/-- **The layout of a line of the grammar can be written.** -/
theorem Written.fits_ofLine (h : Written k line) : (LineLayout.ofLine line).Fits := by
  obtain ⟨hhead, hrest, -⟩ := h.cells
  refine ⟨hhead, fun c hc => (hrest c hc).imp_right .inr, fun c hc => ?_, ?_⟩
  · have hmem : c ∈ commentTokens line := by
      have hc : line.find? (·.isComment) = some c := hc
      exact List.mem_filter.2 ⟨List.mem_of_find?_eq_some hc, List.find?_some hc⟩
    exact h.holdsRemark.comment c hmem
  · obtain ⟨-, he⟩ := h
    show IsBreak (endingOf _)
    rw [endingOf_concat he.kind]
    exact he

/-- What the first cell is in a line that is laid out again. -/
theorem Written.lead_ofLine (h : Written k line) (atStart : Bool) :
    (startsData k → (LineLayout.ofLine line).lead atStart =
      some (if atStart then .name else .argument)) ∧
      (¬startsData k → (LineLayout.ofLine line).lead atStart = k) := by
  obtain ⟨-, -, hk⟩ := h.cells
  have hlead : (LineLayout.ofLine line).lead atStart =
      (cellTokens line).head?.map fun c => (placeCell atStart c).kind := rfl
  rw [hlead]
  cases hc : (cellTokens line).head? with
  | none =>
    rw [hc] at hk
    subst hk
    refine ⟨fun hd => ?_, fun _ => rfl⟩
    rcases hd with hd | hd
    · cases hd
    · cases hd
  | some c =>
    rw [hc, Option.map_some] at hk
    subst hk
    rw [Option.map_some]
    constructor
    · intro hd
      have hd : c.kind = .name ∨ c.kind = .argument := by simpa [startsData] using hd
      rw [placeCell_kind hd]
    · intro hd
      have hd : ¬(c.kind = .name ∨ c.kind = .argument) := by simpa [startsData] using hd
      rw [not_or] at hd
      rw [placeCell_of_ne hd.1 hd.2]

/-- All data is among the cells. -/
theorem dataTokens_cellTokens (line : List Token) :
    dataTokens (cellTokens line) = dataTokens line := by
  rw [dataTokens, cellTokens, List.filter_filter, dataTokens]
  congr 1
  funext t
  cases t.isData <;> rfl

/-- The layout of a line holds its data. -/
theorem dataTexts_ofLine (line : List Token) :
    dataTexts (LineLayout.ofLine line).cells = dataTexts line :=
  congrArg (List.map Token.value) (dataTokens_cellTokens line)

/-- The layout of a line holds its comment. -/
theorem Written.commentTexts_ofLine (h : Written k line) :
    (LineLayout.ofLine line).comment.toList.map (·.value) = commentTexts line := by
  have hsingle := h.holdsRemark.single
  have hfind : (LineLayout.ofLine line).comment = (commentTokens line).head? := by
    rw [commentTokens, List.head?_filter]
    rfl
  rw [hfind, commentTexts]
  cases hc : commentTokens line with
  | nil => rfl
  | cons c cs =>
    cases cs with
    | nil => rfl
    | cons d cs =>
      rw [hc] at hsingle
      simp at hsingle

end

/-! ## Statements -/

/-- The layout of a comment line is one of a comment only. -/
theorem LineLayout.isCommentOnly_ofLine (line : List Token) :
    (LineLayout.ofLine line).isCommentOnly = isCommentLine line := by
  rw [isCommentOnly, ofLine, isCommentLine, Bool.and_comm, List.isSome_find?]
  congr 1
  rw [Bool.eq_iff_iff]
  simp

/-- A statement with a cell in each line has no line with nothing but a comment. -/
theorem Statement.hasCommentLine_eq (s : Statement) :
    s.hasCommentLine = (splitLines s.tokens).any isCommentLine := by
  rw [hasCommentLine, LineLayout.ofTokens, List.any_map]
  congr 1
  exact funext LineLayout.isCommentOnly_ofLine

/-- A line with a cell is no line with nothing but a comment. -/
theorem isCommentLine_of_cells {line : List Token} (h : cellTokens line ≠ []) :
    isCommentLine line = false := by
  obtain ⟨c, hc⟩ := List.exists_mem_of_ne_nil _ h
  obtain ⟨hmem, hcell⟩ := List.mem_filter.1 hc
  have : line.any (fun t => t.isData || t.isContinuation) = true := List.any_eq_true.2 ⟨c, hmem, hcell⟩
  rw [isCommentLine, this, Bool.not_true, Bool.and_false]

/-- Lines whose first cells are of the same sort. -/
structure Alike (line new : List Token) : Prop where
  written : ∀ k, Written k line → ∃ k', Written k' new ∧ (k' = k ∨ startsData k ∧ startsData k')
  comment : new.any (·.isComment) = line.any (·.isComment)

/-- A line alike a continuation is one. -/
theorem Continues.alike {line new : List Token} (h : Continues line) (ha : Alike line new) :
    Continues new := by
  have hnot {k : Option TokenKind} (hk : startsData k) : k ≠ some .continuation ∧ k ≠ none := by
    rcases hk with rfl | rfl <;> simp
  rcases h with hw | ⟨hw, hc⟩
  · obtain ⟨k', hw', rfl | ⟨hk, -⟩⟩ := ha.written _ hw
    · exact .inl hw'
    · exact absurd rfl (hnot hk).1
  · obtain ⟨k', hw', rfl | ⟨hk, -⟩⟩ := ha.written _ hw
    · exact .inr ⟨hw', ha.comment.trans hc⟩
    · exact absurd rfl (hnot hk).2

/-- Changing the lines of a statement into lines alike keeps it laid out. -/
theorem Laid.map {header : Bool} {lines : List (List Token)} (h : Laid header lines)
    {f : List Token → List Token} (hf : ∀ l ∈ lines, Alike l (f l)) :
    Laid header (lines.map f) := by
  cases h with
  | @header line hw =>
    obtain ⟨k', hw', rfl | ⟨hk, -⟩⟩ := (hf line (by simp)).written _ hw
    · exact .header hw'
    · rcases hk with hk | hk <;> cases hk
  | @plain line hw =>
    obtain ⟨k', hw', rfl | ⟨hk, -⟩⟩ := (hf line (by simp)).written _ hw
    · exact .plain hw'
    · rcases hk with hk | hk <;> cases hk
  | @data k first more hw hk hm =>
    have hfirst := hf first List.mem_cons_self
    obtain ⟨k', hw', hk'⟩ := hfirst.written _ hw
    refine .data hw' ?_ ?_
    · rcases hk' with rfl | ⟨-, hk'⟩
      · exact hk
      · exact hk'
    · intro l hl
      obtain ⟨m, hmem, rfl⟩ := List.mem_map.1 hl
      exact (hm m hmem).alike (hf m (List.mem_cons_of_mem _ hmem))

/-- A line has no comment texts exactly when it has no comment. -/
theorem commentTexts_isEmpty (ts : List Token) :
    (commentTexts ts).isEmpty = !ts.any (·.isComment) := by
  rw [commentTexts, List.isEmpty_map, commentTokens, Bool.eq_iff_iff]
  simp

/-- The data texts of two stretches come one after the other. -/
theorem dataTexts_append (a b : List Token) : dataTexts (a ++ b) = dataTexts a ++ dataTexts b := by
  simp [dataTexts, dataTokens]

/-- The comment texts of two stretches come one after the other. -/
theorem commentTexts_append (a b : List Token) :
    commentTexts (a ++ b) = commentTexts a ++ commentTexts b := by
  simp [commentTexts, commentTokens]

/-- The data texts are those of the lines. -/
theorem dataTexts_flatten (lines : List (List Token)) :
    dataTexts lines.flatten = lines.flatMap dataTexts := by
  induction lines with
  | nil => rfl
  | cons l lines ih => rw [List.flatten_cons, dataTexts_append, ih, List.flatMap_cons]

/-- The comment texts are those of the lines. -/
theorem commentTexts_flatten (lines : List (List Token)) :
    commentTexts lines.flatten = lines.flatMap commentTexts := by
  induction lines with
  | nil => rfl
  | cons l lines ih => rw [List.flatten_cons, commentTexts_append, ih, List.flatMap_cons]

section
variable {k : Option TokenKind} {line : List Token} {indent separator : String}
  {gapAt : Nat → String}

/-- Laying a line out again keeps what its first cell is, and the texts in it. -/
theorem Written.alike_composeLine (h : Written k line) (hi : IsIndent indent)
    (hs : IsWide separator) (hg : ∀ n, IsWide (gapAt n))
    (hh : k = some .sectionHeader → indent = "") :
    Alike line (composeLine indent (.ofLine line) separator gapAt) ∧
      dataTexts (composeLine indent (.ofLine line) separator gapAt) = dataTexts line ∧
      commentTexts (composeLine indent (.ofLine line) separator gapAt) =
        commentTexts line := by
  have hfits := h.fits_ofLine
  have hhead : ∀ c ∈ (LineLayout.ofLine line).cells.head?, c.kind = .sectionHeader →
      indent = "" := by
    intro c hc hk
    obtain ⟨-, -, hkind⟩ := h.cells
    refine hh (hkind.symm.trans ?_)
    show (LineLayout.ofLine line).cells.head?.map _ = _
    rw [Option.mem_def.1 hc, Option.map_some, hk]
  have hw := hfits.written hi hs hg hhead
  have hcomments := (hfits.commentTexts_composeLine indent separator gapAt).trans
    h.commentTexts_ofLine
  refine ⟨⟨fun k' hk' => ⟨_, hw, ?_⟩, ?_⟩, ?_, hcomments⟩
  · obtain ⟨hdata, hother⟩ := hk'.lead_ofLine (indent = "")
    by_cases hd : startsData k'
    · refine .inr ⟨hd, ?_⟩
      rw [hdata hd]
      split <;> simp [startsData]
    · exact .inl (hother hd)
  · have := congrArg List.isEmpty hcomments
    rwa [commentTexts_isEmpty, commentTexts_isEmpty, Bool.not_inj_iff] at this
  · rw [hfits.dataTexts_composeLine, dataTexts_ofLine]

/-- Whether the first cell of a statement stands in column one. -/
theorem Written.startsWithName (h : Written k line) (hk : startsData k) (rest : List Token) :
    startsWithName (line ++ rest) = (k == some .name) := by
  obtain ⟨-, -, hkind⟩ := h.cells
  have hdata := dataTokens_cellTokens line
  cases hc : cellTokens line with
  | nil =>
    rw [hc] at hkind
    rcases hk with hk | hk <;> rw [hk] at hkind <;> cases hkind
  | cons c cs =>
    rw [hc, List.head?_cons, Option.map_some] at hkind
    subst hkind
    have hd : c.isData = true := by
      rcases hk with hk | hk <;> simp [Token.isData, TokenKind.isData, Option.some.inj hk]
    rw [hc, dataTokens, List.filter_cons_of_pos hd] at hdata
    rw [RobotSuite.startsWithName, dataTokens_append, ← hdata]
    rfl

/-- The indentation of a line with a cell. -/
theorem Written.indentOf (h : Written k line) (hk : startsData k) (rest : List Token) :
    IsIndent (indentOf (line ++ rest)) ∧ (indentOf (line ++ rest) = "" ↔ k = some .name) := by
  obtain ⟨hl, -⟩ := h
  cases hl with
  | blank => rcases hk with hk | hk <;> cases hk
  | remark => rcases hk with hk | hk <;> cases hk
  | @cells i ts c hi hc hlead _ =>
    have hname : c.kind = .name ↔ i = [] := by
      rcases hk with hk | hk <;> rw [Option.some.inj hk] at hlead ⊢ <;> cases hlead <;>
        simp_all
    cases hi with
    | none =>
      have hsep : c.isSeparator = false := by
        rcases hlead.kind with h | h | h | h <;> simp [Token.isSeparator, h]
      simp [RobotSuite.indentOf, hsep, IsIndent, hname]
    | @gap g hg hgap =>
      have hsep : g.isSeparator = true := by simp [Token.isSeparator, hg]
      simp [RobotSuite.indentOf, hsep, IsIndent, hname, hgap, hgap.1]

/-- The text of an indent is the indent of its line. -/
theorem Indent.isIndent_indentOf {i : List Token} (h : Indent i) {ts : List Token}
    (ht : ∀ t ∈ ts.head?, t.kind ≠ .separator) : IsIndent (RobotSuite.indentOf (i ++ ts)) := by
  cases h with
  | none =>
    cases ts with
    | nil => exact .inl rfl
    | cons t ts =>
      have hsep : t.isSeparator = false := by simpa [Token.isSeparator] using ht t rfl
      simp [RobotSuite.indentOf, hsep, IsIndent]
  | @gap g hg hgap =>
    have hsep : g.isSeparator = true := by simp [Token.isSeparator, hg]
    simp [RobotSuite.indentOf, hsep, IsIndent, hgap]

/-- The indentation of a line without cells. -/
theorem Written.isIndent_indentOf (h : Written none line) :
    IsIndent (RobotSuite.indentOf line) := by
  obtain ⟨hl, he⟩ := h
  cases hl with
  | blank hi => exact hi.isIndent_indentOf (by simp [he.kind])
  | remark hi hr =>
    rw [List.append_assoc]
    refine hi.isIndent_indentOf ?_
    cases hr with
    | plain hk _ => simp [hk]
    | trailed hk _ _ _ => simp [hk]

end

end RobotSuite
