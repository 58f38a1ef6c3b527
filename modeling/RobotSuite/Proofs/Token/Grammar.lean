/-
# The grammar of tokens

Which lists of typed texts are the tokens of some source can be said without the reader:
each text has the form that its kind asks for, gaps stand between cells and are wide enough,
a comment is the last of its line, the kind of a cell follows from its text and its place,
and line breaks are line endings.  `Fits` says so of one token between its neighbours,
`TokenLine` of a line, and `WellFormed` of the lines of a source.

The reader gives such lines for every source, and it gives any such lines back from the text
that they make (`tokenize_accepts_grammar`).  Control characters are not left out here, other
than in `Line`: a cell may hold them, and a carriage return may stand inside a line.
-/

import RobotSuite.Proofs.Token.SourceLines
import RobotSuite.Proofs.Tree.Lossless

namespace RobotSuite

open Text (isGap dropEndWhile takeEndWhile)

/-! ## The grammar -/

/-- Kinds of cells. -/
def TokenKind.isCell : TokenKind → Bool
  | .separator | .comment | .eol => false
  | _ => true

/-- A run of spaces and tabs. -/
def IsGapText (g : List Char) : Prop := g ≠ [] ∧ ∀ c ∈ g, c = ' ' ∨ c = '\t'

/-- The text of a comment. -/
structure IsCommentText (text : List Char) : Prop where
  starts : text.head? = some '#'
  ends : ∀ c ∈ text.getLast?, c ≠ ' ' ∧ c ≠ '\t'

/-- The text of a cell. -/
structure IsCellText (text : List Char) : Prop where
  ne_nil : text ≠ []
  no_hash : text.head? ≠ some '#'
  no_tab : '\t' ∉ text
  no_spaces : ¬ [' ', ' '] <:+: text
  starts : text.head? ≠ some ' '
  ends : text.getLast? ≠ some ' '

/-- A character of C0 other than the tab, or DEL. -/
def IsControl (c : Char) : Prop := (c.toNat < 0x20 ∧ c ≠ '\t') ∨ c.toNat = 0x7F

instance (c : Char) : Decidable (IsControl c) :=
  inferInstanceAs (Decidable (_ ∨ _))

/-- A control character is looked for in the text, not among all characters. -/
instance (text : List Char) : Decidable (∃ c ∈ text, IsControl c) :=
  List.decidableBEx IsControl text

/-- The kind that a cell of the line `row` must have behind the tokens `front`. -/
def forcedKind (row front : List Piece) (text : List Char) : TokenKind :=
  let first := ¬ ∃ p ∈ front, p.1.isCell = true
  if ∃ c ∈ text, IsControl c then .unknown
  else if first ∧ (pieceText row).head? = some '*' then .sectionHeader
  else if first ∧ text = ['.', '.', '.'] then .continuation
  else if first ∧ front = [] then .name
  else .argument

/-- What is asked of the token `p` of the line `row`, which stands behind the tokens `front`
and before the tokens `back`.  The line ending is not among them. -/
structure Fits (row front : List Piece) (p : Piece) (back : List Piece) : Prop where
  inner : p.1 ≠ .eol
  unbroken : '\n' ∉ p.2
  gap : p.1 = .separator → IsGapText p.2
  gap_alone : p.1 = .separator → ∀ q ∈ back.head?, q.1 ≠ .separator
  gap_wide : p.1 = .separator → (∃ q ∈ front, q.1.isCell = true) →
    (∃ q ∈ back, q.1.isCell = true ∨ q.1 = .comment) → isCellSeparator (String.ofList p.2) = true
  comment : p.1 = .comment → IsCommentText p.2
  /-- Only a gap may follow, so a line has one comment at most. -/
  comment_last : p.1 = .comment → ∀ q ∈ back, q.1 = .separator
  cell : p.1.isCell = true → IsCellText p.2
  cell_alone : p.1.isCell = true → ∀ q ∈ back.head?, q.1 = .separator
  cell_kind : p.1.isCell = true → p.1 = forcedKind row front p.2

/-- Which line ending may follow the tokens of a line. -/
inductive LineEnding (row : List Piece) : List Char → Prop
  | feed : (pieceText row).getLast? ≠ some '\r' → LineEnding row ['\n']
  | returnFeed : LineEnding row ['\r', '\n']
  | none : row ≠ [] → LineEnding row []

/-- A line of tokens: tokens that fit where they stand, and a line ending. -/
inductive TokenLine : List Piece → Prop
  | mk {row : List Piece} {ending : List Char} :
      (∀ front p back, row = front ++ p :: back → Fits row front p back) →
      LineEnding row ending → TokenLine (row ++ [(.eol, ending)])

/-- The lines of a source: each is a line of tokens, and all but the last have a line
break. -/
structure WellFormed (lines : List (List Piece)) : Prop where
  line : ∀ line ∈ lines, TokenLine line
  ended : ∀ line ∈ lines.dropLast, line.getLast? ≠ some (.eol, [])

/-- Lines of tokens without their places. -/
def typed (lines : List (List Token)) : List (List Piece) := lines.map (·.map Token.piece)

/-! ## Texts of the grammar -/

section
variable {c : Char} {cs : List Char}

/-- A gap character is a blank or a tab. -/
theorem isGap_iff : isGap c = true ↔ c = ' ' ∨ c = '\t' := by
  simp [isGap]

/-- Any character but a blank and a tab is none. -/
theorem not_isGap_iff : isGap c = false ↔ c ≠ ' ' ∧ c ≠ '\t' := by
  simp [isGap]

/-- The program's control characters are those of the grammar. -/
theorem isControlChar_iff : isControlChar c = true ↔ IsControl c := by
  simp only [isControlChar, IsControl, Bool.or_eq_true, Bool.and_eq_true, decide_eq_true_eq,
    bne_iff_ne]

/-- A text in which no cell ends holds no tab and no two spaces, and it does not end with a
space. -/
theorem isTight_iff (cs : List Char) :
    isTight cs = true ↔ '\t' ∉ cs ∧ ¬ [' ', ' '] <:+: cs ∧ cs.getLast? ≠ some ' ' := by
  induction cs with
  | nil => exact ⟨fun _ => ⟨List.not_mem_nil, by decide, by decide⟩, fun _ => rfl⟩
  | cons c cs ih =>
    rw [isTight, Bool.and_eq_true, ih, List.infix_cons_iff]
    cases cs with
    | nil =>
      have hsp : ¬ [' ', ' '] <+: [c] := fun h => absurd h.length_le (by simp)
      simp only [endsCell, isGap, hsp, Bool.not_eq_true', Bool.or_eq_false_iff,
        decide_eq_false_iff_not, List.mem_singleton, List.getLast?_singleton]
      grind
    | cons d cs =>
      simp only [endsCell, isGap, Bool.not_eq_true', Bool.or_eq_false_iff, decide_eq_false_iff_not,
        Bool.and_eq_false_iff, List.cons_prefix_cons, List.nil_prefix, and_true, List.mem_cons,
        not_or, List.getLast?_cons_cons]
      grind

/-- A gap of the grammar is a separator's text. -/
theorem IsGapText.isGap {g : List Char} (h : IsGapText g) : IsGap (String.ofList g) := by
  refine ⟨by simpa using h.1, ?_⟩
  rw [String.toList_ofList, List.all_eq_true]
  exact fun c hc => isGap_iff.2 (h.2 c hc)

/-- A cell is a tight text that starts with neither a gap nor a comment. -/
theorem isCellText_cons :
    IsCellText (c :: cs) ↔ isGap c = false ∧ c ≠ '#' ∧ isTight (c :: cs) = true := by
  rw [isTight_iff, not_isGap_iff]
  constructor
  · intro h
    have htab := h.no_tab
    refine ⟨⟨fun hc => h.starts (by rw [hc]; rfl), fun hc => htab (by simp [hc])⟩, ?_,
      htab, h.no_spaces, h.ends⟩
    exact fun hc => h.no_hash (by rw [hc]; rfl)
  · rintro ⟨⟨hsp, -⟩, hh, htab, hss, hend⟩
    exact ⟨by simp, by simpa using hh, htab, hss, by simpa using hsp, hend⟩

/-- A comment of the grammar is a comment's text. -/
theorem IsCommentText.isComment {text : List Char} (h : IsCommentText text) :
    IsComment (String.ofList text) := by
  refine ⟨by simpa using h.starts, ?_⟩
  rw [String.toList_ofList]
  exact fun c hc => not_isGap_iff.2 (h.ends c hc)

end

/-! ## The rest of a line -/

/-- The tokens `ts` fit behind the tokens `front`. -/
def FitsFrom (row front ts : List Piece) : Prop :=
  ∀ mid p back, ts = mid ++ p :: back → Fits row (front ++ mid) p back

section
variable {row front ts back : List Piece} {p : Piece}

theorem fitsFrom_nil (row front : List Piece) : FitsFrom row front [] := by
  intro mid p back h
  simp at h

/-- Pieces fit when the first does and the others fit behind it. -/
theorem fitsFrom_cons :
    FitsFrom row front (p :: ts) ↔ Fits row front p ts ∧ FitsFrom row (front ++ [p]) ts := by
  constructor
  · intro h
    refine ⟨by simpa using h [] p ts rfl, fun mid q back hts => ?_⟩
    have := h (p :: mid) q back (by rw [hts]; rfl)
    simpa using this
  · rintro ⟨hp, hts⟩ mid q back h
    cases mid with
    | nil =>
      obtain ⟨rfl, rfl⟩ := List.cons.inj h
      simpa using hp
    | cons m mid =>
      rw [List.cons_append] at h
      obtain ⟨rfl, hmid⟩ := List.cons.inj h
      simpa using hts mid q back hmid

/-- No cell stands among the tokens. -/
def noCell (front : List Piece) : Bool := !front.any (·.1.isCell)

/-- A cell stands in front as soon as one piece is one. -/
theorem noCell_eq_false : noCell front = false ↔ ∃ q ∈ front, q.1.isCell = true := by
  rw [noCell, Bool.not_eq_false', List.any_eq_true]

/-- A piece that is no cell changes nothing. -/
theorem noCell_append (h : p.1.isCell = false) : noCell (front ++ [p]) = noCell front := by
  simp [noCell, h]

/-- A cell in front is one. -/
theorem noCell_append_cell (h : p.1.isCell = true) : noCell (front ++ [p]) = false := by
  simp [noCell, h]

/-- The reader gives a cell the kind that its place forces. -/
theorem cellKind_eq_forcedKind (row front : List Piece) (text : List Char) :
    cellKind (startsWithAsterisk (pieceText row)) (noCell front) front.isEmpty text =
      forcedKind row front text := by
  have hcontrol : text.any isControlChar = true ↔ ∃ c ∈ text, IsControl c := by
    simp only [List.any_eq_true, isControlChar_iff]
  have hfirst : noCell front = true ↔ ¬ ∃ p ∈ front, p.1.isCell = true := by
    rw [← noCell_eq_false, Bool.not_eq_false]
  simp only [cellKind, forcedKind, hcontrol, ← hfirst, startsWithAsterisk, Bool.and_eq_true,
    beq_iff_eq, decide_eq_true_eq, List.isEmpty_iff, and_comm]

/-! ## Tokens that fit are read from their text -/

/-- A piece of a line is a gap, a comment, a cell or the ending. -/
theorem isCell_or (h : p.1 ≠ .eol) :
    p.1 = .separator ∨ p.1 = .comment ∨ p.1.isCell = true := by
  cases hp : p.1 <;> simp_all [TokenKind.isCell]

/-- No piece that fits is empty. -/
theorem Fits.ne_nil (h : Fits row front p back) : p.2 ≠ [] := by
  rcases isCell_or h.inner with hk | hk | hk
  · exact (h.gap hk).1
  · intro hnil
    have := (h.comment hk).starts
    simp [hnil] at this
  · exact (h.cell hk).ne_nil

/-- What does not start with a gap has a text that does not. -/
theorem FitsFrom.head? (h : FitsFrom row front ts) (hs : ∀ q ∈ ts.head?, q.1 ≠ .separator) :
    ∀ c ∈ (pieceText ts).head?, isGap c = false := by
  cases ts with
  | nil => simp [pieceText]
  | cons q ts =>
    obtain ⟨kind, text⟩ := q
    obtain ⟨hq, -⟩ := fitsFrom_cons.1 h
    intro c hc
    rw [pieceText, List.flatMap_cons] at hc
    rcases isCell_or hq.inner with hk | hk | hk
    · exact absurd hk (hs _ rfl)
    · have hstart := (hq.comment hk).starts
      cases text with
      | nil => simp at hstart
      | cons d text =>
        obtain rfl : d = '#' := by simpa using hstart
        obtain rfl : '#' = c := by simpa using hc
        decide
    · have hcell := hq.cell hk
      cases text with
      | nil => exact absurd rfl hcell.ne_nil
      | cons d text =>
        obtain rfl : d = c := by simpa using hc
        exact (isCellText_cons.1 hcell).1

/-- Behind a cell, tokens that fit start with what ends the cell. -/
theorem FitsFrom.endsCell (h : FitsFrom row front ts) (hcell : ∃ q ∈ front, q.1.isCell = true)
    (hs : ∀ q ∈ ts.head?, q.1 = .separator) : endsCell (pieceText ts) = true := by
  cases ts with
  | nil => rfl
  | cons g ts =>
    obtain ⟨hg, hts⟩ := fitsFrom_cons.1 h
    have hk : g.1 = .separator := hs g rfl
    have hgap := (hg.gap hk).isGap.2
    rw [String.toList_ofList] at hgap
    cases ts with
    | nil => simpa [pieceText] using endsCell_of_all_isGap hgap
    | cons q ts =>
      have hq := (fitsFrom_cons.1 hts).1
      have hback : q.1.isCell = true ∨ q.1 = .comment := by
        rcases isCell_or hq.inner with hsep | hcom | hcl
        · exact absurd hsep (hg.gap_alone hk q rfl)
        · exact .inr hcom
        · exact .inl hcl
      have hwide := hg.gap_wide hk hcell ⟨q, List.mem_cons_self, hback⟩
      have : RobotSuite.endsCell ((String.ofList g.2).toList ++ pieceText (q :: ts)) = true :=
        endsCell_of_isWide ⟨by simpa using hgap, hwide⟩
      simpa [pieceText] using this

/-- A comment that fits is read with the gap behind it. -/
theorem linePieces_comment {header first atStart : Bool} (hk : p.1 = .comment)
    (hp : Fits row front p ts) (hts : FitsFrom row (front ++ [p]) ts) :
    linePieces header first atStart (pieceText (p :: ts)) = p :: ts := by
  have hcom := (hp.comment hk).isComment
  obtain ⟨kind, text⟩ := p
  obtain rfl : kind = .comment := hk
  cases ts with
  | nil =>
    have := @linePieces_remark header first atStart _
      (.plain (c := Piece.bare (.comment, text)) rfl hcom)
    simpa [chars, pieceText, Token.piece, Piece.bare, Token.create] using this
  | cons g ts =>
    obtain ⟨hg, hmore⟩ := fitsFrom_cons.1 hts
    have hgk : g.1 = .separator := hp.comment_last rfl g List.mem_cons_self
    obtain rfl : ts = [] := by
      cases ts with
      | nil => rfl
      | cons q ts =>
        have hq := hp.comment_last rfl q (by simp)
        exact absurd hq (hg.gap_alone hgk q rfl)
    obtain ⟨kind, gap⟩ := g
    obtain rfl : kind = .separator := hgk
    have := @linePieces_remark header first atStart _
      (.trailed (c := Piece.bare (.comment, text)) (g := Piece.bare (.separator, gap)) rfl hcom rfl
        (hg.gap rfl).isGap)
    simpa [chars, pieceText, Token.piece, Piece.bare, Token.create] using this

/-- **Tokens that fit are read from their text.** -/
theorem linePieces_of_fits (h : FitsFrom row front ts) :
    linePieces (startsWithAsterisk (pieceText row)) (noCell front) front.isEmpty (pieceText ts) =
      ts := by
  induction ts generalizing front with
  | nil => simp [pieceText, linePieces]
  | cons p ts ih =>
    obtain ⟨hp, hts⟩ := fitsFrom_cons.1 h
    have hrest := ih hts
    have hstart : (front ++ [p]).isEmpty = false := by simp
    rw [hstart] at hrest
    have htext : pieceText (p :: ts) = p.2 ++ pieceText ts := rfl
    rcases isCell_or hp.inner with hk | hk | hk
    · have hgap := @linePieces_gap (startsWithAsterisk (pieceText row)) (noCell front)
        front.isEmpty _ _ (hp.gap hk).isGap (hts.head? (hp.gap_alone hk))
      rw [noCell_append (by rw [hk]; rfl)] at hrest
      rw [String.toList_ofList, hrest] at hgap
      rw [htext, hgap, ← hk]
    · exact linePieces_comment hk hp hts
    · have hcell := hp.cell hk
      have hends := hts.endsCell ⟨p, by simp, hk⟩ (hp.cell_alone hk)
      rw [noCell_append_cell hk] at hrest
      cases htx : p.2 with
      | nil => exact absurd htx hcell.ne_nil
      | cons c cs =>
        rw [htx] at hcell
        obtain ⟨hg, hh, ht⟩ := isCellText_cons.1 hcell
        rw [htext, htx, linePieces_tight hg hh ht hends, hrest, cellKind_eq_forcedKind, ← htx,
          ← hp.cell_kind hk]

end

/-! ## What is read fits -/

section
variable {header first atStart : Bool} {cs : List Char}

/-- What is read from a text that starts with no gap starts with no gap. -/
theorem head?_linePieces (h : ∀ c ∈ cs.head?, isGap c = false) :
    ∀ q ∈ (linePieces header first atStart cs).head?, q.1 ≠ .separator := by
  intro q hq
  cases cs with
  | nil => simp [linePieces] at hq
  | cons c cs =>
    rw [linePieces, dif_neg (by simp [h c rfl])] at hq
    split at hq
    · obtain rfl : _ = q := by simpa [commentPieces] using hq
      simp
    · obtain rfl : _ = q := by simpa using hq
      simp only [cellKind]
      grind

/-- What is read behind a cell starts with a gap. -/
theorem head?_linePieces_of_endsCell (h : endsCell cs = true) :
    ∀ q ∈ (linePieces header first atStart cs).head?, q.1 = .separator := by
  intro q hq
  cases cs with
  | nil => simp [linePieces] at hq
  | cons c cs =>
    rw [linePieces, dif_pos (isGap_of_endsCell h)] at hq
    obtain rfl : _ = q := by simpa using hq
    rfl

/-- Every kind a cell is read as is a cell's. -/
theorem isCell_cellKind (text : List Char) :
    (cellKind header first atStart text).isCell = true := by
  unfold cellKind
  repeat' split
  all_goals rfl

/-- A remark that is not empty starts with a comment. -/
theorem Remark.head {t : Token} {ts : List Token} (h : Remark (t :: ts)) : IsComment t.value := by
  cases h <;> assumption

/-- A hash and what follows, its gap at the end dropped, is a comment. -/
theorem isCommentText_dropEndWhile (cs : List Char) :
    IsCommentText (dropEndWhile isGap ('#' :: cs)) := by
  have hc : IsComment (String.ofList (dropEndWhile isGap ('#' :: cs))) := by
    have := remark_commentPieces .origin cs
    rw [commentPieces, layOut_cons] at this
    exact this.head
  refine ⟨by simpa using hc.starts, fun c h => not_isGap_iff.1 (hc.ends c ?_)⟩
  rwa [String.toList_ofList]

end

section
variable {row front : List Piece} {cs : List Char}

/-- A comment and the gap behind it fit anywhere. -/
theorem fits_commentPieces (hb : '\n' ∉ '#' :: cs) :
    FitsFrom row front (commentPieces ('#' :: cs)) := by
  have happ := Text.dropEndWhile_append_takeEndWhile isGap ('#' :: cs)
  rw [← happ, List.mem_append, not_or] at hb
  have hall := Text.all_takeEndWhile isGap ('#' :: cs)
  rw [List.all_eq_true] at hall
  have hback : ∀ q ∈ (if (takeEndWhile isGap ('#' :: cs)).isEmpty then []
      else [(TokenKind.separator, takeEndWhile isGap ('#' :: cs))]), q.1 = .separator := by
    grind
  have hcomment : Fits row front (.comment, dropEndWhile isGap ('#' :: cs)) _ :=
    { inner := by simp
      unbroken := hb.1
      gap := by simp
      gap_alone := by simp
      gap_wide := by simp
      comment := fun _ => isCommentText_dropEndWhile cs
      comment_last := fun _ => hback
      cell := by simp [TokenKind.isCell]
      cell_alone := by simp [TokenKind.isCell]
      cell_kind := by simp [TokenKind.isCell] }
  refine fitsFrom_cons.2 ⟨hcomment, ?_⟩
  by_cases ht : takeEndWhile isGap ('#' :: cs) = []
  · simpa [ht] using fitsFrom_nil _ _
  · simp only [List.isEmpty_iff, ht, if_false]
    refine fitsFrom_cons.2 ⟨?_, fitsFrom_nil _ _⟩
    exact
      { inner := by simp
        unbroken := hb.2
        gap := fun _ => ⟨ht, fun c hc => isGap_iff.1 (hall c hc)⟩
        gap_alone := by simp
        gap_wide := by simp
        comment := by simp
        comment_last := by simp
        cell := by simp [TokenKind.isCell]
        cell_alone := by simp [TokenKind.isCell]
        cell_kind := by simp [TokenKind.isCell] }

/-- **What is read from a line fits.**  Behind a cell, the text starts with what ends the
cell, or the gap that did so is already read. -/
theorem fits_linePieces {first atStart : Bool} (hfirst : first = noCell front)
    (hstart : atStart = front.isEmpty) (hb : '\n' ∉ cs)
    (hends : first = false → endsCell cs = true ∨ ∀ c ∈ cs.head?, isGap c = false) :
    FitsFrom row front
      (linePieces (startsWithAsterisk (pieceText row)) first atStart cs) := by
  fun_induction linePieces (startsWithAsterisk (pieceText row)) first atStart cs
    generalizing front with
  | case1 => exact fitsFrom_nil _ _
  | case2 first atStart c rest hc ih =>
    have hsplit := List.takeWhile_append_dropWhile (p := isGap) (l := c :: rest)
    have hgap := isGap_takeWhile rest hc
    have hhead := head?_dropWhile_isGap (c :: rest)
    rw [← hsplit, List.mem_append, not_or] at hb
    have hwide : (∃ q ∈ front, q.1.isCell = true) → (c :: rest).dropWhile isGap ≠ [] →
        isCellSeparator (String.ofList ((c :: rest).takeWhile isGap)) = true := by
      intro hcell hne
      obtain ⟨d, more, hd⟩ := List.exists_cons_of_ne_nil hne
      rcases hends (hfirst.trans (noCell_eq_false.2 hcell)) with h | h
      · rw [← hsplit, hd] at h
        have hall := hgap.2
        rw [String.toList_ofList] at hall
        exact (isWide_of_endsCell hall (by simpa using hgap.1) (hhead d (by rw [hd]; rfl)) h).2
      · exact absurd hc (by simp [h c rfl])
    have hfit : Fits row front (.separator, (c :: rest).takeWhile isGap)
        (linePieces (startsWithAsterisk (pieceText row)) first false
          ((c :: rest).dropWhile isGap)) :=
      { inner := by simp
        unbroken := hb.1
        gap := fun _ => by
          refine ⟨by simpa using hgap.1, fun d hd => isGap_iff.1 ?_⟩
          exact List.all_eq_true.1 hgap.2 d (by simpa using hd)
        gap_alone := fun _ => head?_linePieces hhead
        gap_wide := fun _ hcell hback => by
          refine hwide hcell fun hnil => ?_
          rw [hnil, linePieces] at hback
          simp at hback
        comment := by simp
        comment_last := by simp
        cell := by simp [TokenKind.isCell]
        cell_alone := by simp [TokenKind.isCell]
        cell_kind := by simp [TokenKind.isCell] }
    refine fitsFrom_cons.2 ⟨hfit, ih ?_ (by simp) hb.2 fun _ => .inr hhead⟩
    rw [noCell_append rfl, hfirst]
  | case3 first atStart rest h => exact fits_commentPieces hb
  | case4 first atStart c rest hc hh ih =>
    have hg : isGap c = false := by simpa using hc
    have hcut := cutCell_eq (c :: rest)
    have hends := endsCell_cutCell (c :: rest)
    have hform : (cutCell (c :: rest)).1 = c :: (cutCell rest).1 := by
      rw [cutCell_of_not_endsCell (endsCell_of_not_isGap hg)]
    have htight := isTight_cutCell (c :: rest)
    have hcellKind := cellKind_eq_forcedKind row front (cutCell (c :: rest)).1
    rw [← hfirst, ← hstart] at hcellKind
    rw [← hcut, List.mem_append, not_or] at hb
    have hfit : Fits row front (cellKind (startsWithAsterisk (pieceText row)) first atStart
        (cutCell (c :: rest)).1, (cutCell (c :: rest)).1)
        (linePieces (startsWithAsterisk (pieceText row)) false false (cutCell (c :: rest)).2) := by
      have hk : (cellKind (startsWithAsterisk (pieceText row)) first atStart
          (cutCell (c :: rest)).1).isCell = true := isCell_cellKind _
      have hsep (k : TokenKind) (h : k.isCell = false) : cellKind
          (startsWithAsterisk (pieceText row)) first atStart (cutCell (c :: rest)).1 ≠ k := by
        rintro rfl
        rw [hk] at h
        exact absurd h (by simp)
      exact
        { inner := hsep _ rfl
          unbroken := hb.1
          gap := fun h => absurd h (hsep _ rfl)
          gap_alone := fun h => absurd h (hsep _ rfl)
          gap_wide := fun h => absurd h (hsep _ rfl)
          comment := fun h => absurd h (hsep _ rfl)
          comment_last := fun h => absurd h (hsep _ rfl)
          cell := fun _ => by
            rw [hform] at htight ⊢
            exact isCellText_cons.2 ⟨hg, hh, htight⟩
          cell_alone := fun _ => head?_linePieces_of_endsCell hends
          cell_kind := fun _ => hcellKind }
    refine fitsFrom_cons.2 ⟨hfit, ih ?_ (by simp) hb.2 fun _ => .inl hends⟩
    rw [noCell_append_cell (isCell_cellKind _)]

end

/-! ## Lines -/

/-- The text in front of a line ending is cut off with it. -/
theorem cutLine_ending_append {row : List Piece} {ending rest : List Char}
    (h : LineEnding row ending) (hb : '\n' ∉ pieceText row) (hrest : ending = [] → rest = []) :
    cutLine (pieceText row ++ (ending ++ rest)) = (pieceText row, ending, rest) := by
  have key (cs : List Char) (hb : '\n' ∉ cs) (hr : ending = ['\n'] → cs.getLast? ≠ some '\r') :
      cutLine (cs ++ (ending ++ rest)) = (cs, ending, rest) := by
    induction cs with
    | nil =>
      cases h with
      | feed => rfl
      | returnFeed => rfl
      | none => rw [hrest rfl]; rfl
    | cons c cs ih =>
      have hc : c ≠ '\n' := fun hc => hb (by simp [hc])
      have hcs : '\n' ∉ cs := fun h => hb (List.mem_cons_of_mem _ h)
      have hfeed : c = '\r' → (cs ++ (ending ++ rest)).head? ≠ some '\n' := by
        rintro rfl
        cases cs with
        | nil =>
          cases h with
          | feed => exact absurd rfl (hr rfl)
          | returnFeed => simp
          | none => simp [hrest rfl]
        | cons d cs => simpa [eq_comm] using fun hd => hcs (by simp [hd])
      have hih := ih hcs fun he => by
        have := hr he
        cases cs with
        | nil => simp
        | cons d cs => simpa using this
      rw [List.cons_append, cutLine, hih]
      · exact hc
      · intro more hcr hmore
        exact hfeed hcr (by rw [hmore]; rfl)
  refine key _ hb ?_
  rintro rfl
  cases h with
  | feed hlast => exact hlast

/-- A text is cut in front of a line ending that may stand there. -/
theorem ending_of_cutLine {cs : List Char} {row : List Piece} (hne : cs ≠ [])
    (hrow : pieceText row = (cutLine cs).1) : LineEnding row (cutLine cs).2.1 := by
  have hlast : (cutLine cs).2.1 = ['\n'] → (cutLine cs).1.getLast? ≠ some '\r' := by
    clear hrow hne
    fun_induction cutLine cs with
    | case1 => simp
    | case2 => simp
    | case3 => simp
    | case4 c rest hc hcr line eol rest' h ih =>
      rw [h] at ih
      intro heol
      have hih := ih heol
      cases line with
      | nil =>
        have happ := cutLine_eq rest
        rw [h] at happ
        simp only at heol
        rw [heol] at happ
        have : c ≠ '\r' := fun hc => hcr rest' hc happ.symm
        simpa using this
      | cons d line => simpa using hih
  have happ := cutLine_eq cs
  rcases ending_cutLine cs with h | h | ⟨h, hr⟩
  · rw [h]
    exact .feed (by rw [hrow]; exact hlast h)
  · rw [h]
    exact .returnFeed
  · rw [h]
    refine .none ?_
    rintro rfl
    rw [← hrow, h, hr] at happ
    exact hne happ.symm

/-- A line that is cut off holds no feed. -/
theorem noFeed_cutLine (cs : List Char) : '\n' ∉ (cutLine cs).1 := by
  fun_induction cutLine cs with
  | case1 => simp
  | case2 => simp
  | case3 => simp
  | case4 c rest hc _ line eol rest' h ih =>
    rw [h] at ih
    simpa [eq_comm] using ⟨hc, ih⟩

/-- The next line of a source is a line of tokens. -/
theorem tokenLine_nextPieces {cs : List Char} (h : cs ≠ []) : TokenLine (nextPieces cs) := by
  obtain ⟨row, hrow⟩ :
      ∃ row, linePieces (startsWithAsterisk (cutLine cs).1) true true (cutLine cs).1 = row :=
    ⟨_, rfl⟩
  have htext : pieceText row = (cutLine cs).1 := by rw [← hrow, pieceText_linePieces]
  have hfits : FitsFrom row [] row := by
    have := @fits_linePieces row [] (cutLine cs).1 true true rfl rfl (noFeed_cutLine cs) (by simp)
    rwa [htext, hrow] at this
  rw [nextPieces, hrow]
  exact .mk (fun front p back hsplit => hfits front p back hsplit) (ending_of_cutLine h htext)

/-- Laying pieces out keeps their kinds and texts. -/
theorem map_piece_layOut (l : Location) (ps : List Piece) :
    (layOut l ps).map Token.piece = ps := by
  induction ps generalizing l with
  | nil => rfl
  | cons p ps ih =>
    rw [layOut_cons, List.map_cons, ih]
    simp [Piece.token, Token.piece]

/-- A line of the grammar is not empty. -/
theorem TokenLine.pieceText_ne_nil {line : List Piece} (h : TokenLine line) :
    pieceText line ≠ [] := by
  obtain @⟨row, ending, hfits, hend⟩ := h
  rw [pieceText_append]
  intro hnil
  obtain ⟨hrow, hending⟩ := List.append_eq_nil_iff.1 hnil
  cases hend with
  | feed => simp [pieceText] at hending
  | returnFeed => simp [pieceText] at hending
  | none hne =>
    obtain ⟨p, back, rfl⟩ := List.exists_cons_of_ne_nil hne
    rw [pieceText, List.flatMap_cons, List.append_eq_nil_iff] at hrow
    exact (hfits [] p back rfl).ne_nil hrow.1

/-- **The lines of a source are well formed.** -/
theorem wellFormed_lines (c : Cursor) : WellFormed (typed c.lines) := by
  constructor
  · intro line hline
    obtain ⟨tokens, htokens, rfl⟩ := List.mem_map.1 hline
    clear hline
    fun_induction Cursor.lines c with
    | case1 => simp at htokens
    | case2 c hne ih =>
      rcases List.mem_cons.1 htokens with rfl | htokens
      · rw [Cursor.nextLine, map_piece_layOut]
        exact tokenLine_nextPieces hne
      · exact ih htokens
  · intro line hline hlast
    rw [typed, ← List.map_dropLast] at hline
    obtain ⟨tokens, htokens, rfl⟩ := List.mem_map.1 hline
    rw [List.getLast?_map, Option.map_eq_some_iff] at hlast
    obtain ⟨e, he, hpiece⟩ := hlast
    refine terminated_of_mem_lines htokens e he ?_
    simpa [Token.piece] using (congrArg Prod.snd hpiece)

/-- A line of tokens at the front of a source is read from it. -/
theorem nextPieces_of_tokenLine {line : List Piece} {rest : List Char} (h : TokenLine line)
    (hrest : line.getLast? = some (.eol, []) → rest = []) :
    nextPieces (pieceText line ++ rest) = line ∧
      (cutLine (pieceText line ++ rest)).2.2 = rest := by
  obtain @⟨row, ending, hfits, hend⟩ := h
  have hb : '\n' ∉ pieceText row := by
    intro hmem
    obtain ⟨p, hp, hc⟩ := List.mem_flatMap.1 hmem
    obtain ⟨front, back, hrow⟩ := List.append_of_mem hp
    exact (hfits front p back hrow).unbroken hc
  have hcut : cutLine (pieceText row ++ (ending ++ rest)) = (pieceText row, ending, rest) :=
    cutLine_ending_append hend hb fun he => hrest (by simp [he])
  have htext : pieceText (row ++ [(.eol, ending)]) ++ rest =
      pieceText row ++ (ending ++ rest) := by
    simp [pieceText]
  have hfrom : FitsFrom row [] row := fun mid p back hrow => hfits mid p back hrow
  have hread := linePieces_of_fits hfrom
  have hstart : linePieces (startsWithAsterisk (pieceText row)) true true (pieceText row) = row :=
    hread
  rw [htext, nextPieces, hcut]
  exact ⟨by simp only [hstart], rfl⟩

/-- **Well-formed lines are read from their text.** -/
theorem typed_lines_of_wellFormed {lines : List (List Piece)} (h : WellFormed lines)
    (l : Location) : typed (Cursor.lines ⟨l, pieceText lines.flatten⟩) = lines := by
  induction lines generalizing l with
  | nil =>
    rw [Cursor.lines, dif_pos (by rfl)]
    rfl
  | cons line lines ih =>
    have hline := h.line line List.mem_cons_self
    have hlines : WellFormed lines := by
      refine ⟨fun x hx => h.line x (List.mem_cons_of_mem _ hx), fun x hx => h.ended x ?_⟩
      rw [List.dropLast_cons_of_ne_nil (by rintro rfl; simp at hx)]
      exact List.mem_cons_of_mem _ hx
    have hrest : line.getLast? = some (.eol, []) → pieceText lines.flatten = [] := by
      intro hlast
      cases lines with
      | nil => rfl
      | cons x xs => exact absurd hlast (h.ended line (by simp))
    have hne : pieceText (line :: lines).flatten ≠ [] := by
      rw [List.flatten_cons, pieceText_append]
      exact fun h => hline.pieceText_ne_nil (List.append_eq_nil_iff.1 h).1
    obtain ⟨hread, hleft⟩ := nextPieces_of_tokenLine hline hrest
    rw [List.flatten_cons, pieceText_append] at hne ⊢
    rw [Cursor.lines, dif_neg hne, typed, List.map_cons, Cursor.nextLine, map_piece_layOut, hread,
      hleft]
    exact congrArg _ (ih hlines _)

/-- **The reader accepts exactly its grammar, and putting texts together undoes it.**  The
tokens of a source are well formed and make up the source; and lines are well formed exactly
when they are the tokens of the text that they make. -/
theorem tokenize_accepts_grammar :
    (∀ source : String, WellFormed (typed (tokenize source)) ∧
      renderTokens (tokenize source).flatten = source) ∧
    ∀ lines : List (List Piece), WellFormed lines ↔
      typed (tokenize (String.ofList (pieceText lines.flatten))) = lines := by
  refine ⟨fun source => ⟨wellFormed_lines _, ?_⟩, fun lines => ⟨fun h => ?_, fun h => ?_⟩⟩
  · rw [← String.toList_inj, tokenize, toList_renderTokens_lines, Cursor.ofSource]
  · rw [tokenize, Cursor.ofSource, String.toList_ofList]
    exact typed_lines_of_wellFormed h _
  · rw [← h]
    exact wellFormed_lines _

end RobotSuite
