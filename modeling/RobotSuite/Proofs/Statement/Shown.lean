/-
# Statements without their gaps

What the cells and comments of a statement say does not depend on the gaps between them.  A view
leaves out where the tokens of a statement stand and, unless they are to show, its gaps
(`Statement.shown`).  In statements whose tokens end a line, all else can be told by what shows: the
cells, the directive, what is wrong with the tokens (`Statement.shownBy_shown`), and how the
statement looks with a line break at its end (`Statement.terminate_shown`).
-/

import RobotSuite.Proofs.Format.MovePasses
import RobotSuite.Proofs.Transform.Views
import RobotSuite.Proofs.Tree.ValidSources
import RobotSuite.Tag

namespace RobotSuite

/-- Tokens without their places, and without gaps unless these are to show. -/
def showTokens (gaps : Bool) (ts : List Token) : List Token :=
  (ts.filter fun t => gaps || !t.isSeparator).map Token.bare

/-- Tokens that end a line, and whose gaps hold no line break. -/
structure EndsLine (ts : List Token) : Prop where
  last : ∃ front e, ts = front ++ [e] ∧ e.kind = .eol
  gaps : ∀ t ∈ ts, t.kind = .separator → isUnbroken t.value.toList = true

/-! ## Tokens -/

section
variable {gaps : Bool}

/-- The first token is shown bare, unless it is a gap that is hidden. -/
theorem showTokens_cons (t : Token) (ts : List Token) : showTokens gaps (t :: ts) =
    if gaps || !t.isSeparator then t.bare :: showTokens gaps ts else showTokens gaps ts := by
  rw [showTokens, List.filter_cons]
  split <;> rfl

/-- A token that is no gap is shown. -/
theorem showTokens_cons_of_not_gap {t : Token} (h : t.isSeparator = false) (ts : List Token) :
    showTokens gaps (t :: ts) = t.bare :: showTokens gaps ts := by
  rw [showTokens_cons, h, Bool.not_false, Bool.or_true, if_pos rfl]

/-- Tokens are shown one after the other. -/
theorem showTokens_append (a b : List Token) :
    showTokens gaps (a ++ b) = showTokens gaps a ++ showTokens gaps b := by
  rw [showTokens, List.filter_append, List.map_append]
  rfl

/-- A line ending is no separator. -/
theorem isSeparator_of_isEol {t : Token} (h : t.isEol = true) : t.isSeparator = false := by
  have hk : t.kind = .eol := by simpa [Token.isEol] using h
  simp [Token.isSeparator, hk]

/-- A last line ending is shown last. -/
theorem showTokens_concat {e : Token} (he : e.isEol = true) (front : List Token) :
    showTokens gaps (front ++ [e]) = showTokens gaps front ++ [e.bare] := by
  rw [showTokens_append, showTokens_cons, isSeparator_of_isEol he, Bool.not_false, Bool.or_true,
    if_pos rfl]
  rfl

/-- Where gaps show, all tokens do. -/
theorem showTokens_true (ts : List Token) : showTokens true ts = ts.map Token.bare := by
  simp [showTokens]

/-- Tokens of a sort that gaps do not belong to. -/
theorem filter_showTokens {p : Token → Bool} (hbare : ∀ t : Token, p t.bare = p t)
    (hgap : ∀ t : Token, t.isSeparator = true → p t = false) (ts : List Token) :
    (showTokens gaps ts).filter p = (ts.filter p).map Token.bare := by
  have hp : p ∘ Token.bare = p := funext hbare
  rw [showTokens, List.filter_map, hp, List.filter_filter]
  congr 1
  refine List.filter_congr fun t _ => ?_
  cases hs : t.isSeparator with
  | false => simp
  | true => rw [hgap t hs, Bool.false_and]

/-- A separator is no data. -/
theorem isData_of_isSeparator {t : Token} (h : t.isSeparator = true) : t.isData = false := by
  have hk : t.kind = .separator := by simpa [Token.isSeparator] using h
  simp [Token.isData, hk, TokenKind.isData]

/-- A separator is no comment. -/
theorem isComment_of_isSeparator {t : Token} (h : t.isSeparator = true) : t.isComment = false := by
  have hk : t.kind = .separator := by simpa [Token.isSeparator] using h
  simp [Token.isComment, hk]

/-- Data is no separator. -/
theorem isSeparator_of_isData {t : Token} (h : t.isData = true) : t.isSeparator = false := by
  cases hs : t.isSeparator with
  | false => rfl
  | true => simp [isData_of_isSeparator hs] at h

/-- Showing commutes with reversing. -/
theorem showTokens_reverse (ts : List Token) :
    showTokens gaps ts.reverse = (showTokens gaps ts).reverse := by
  rw [showTokens, showTokens, List.filter_reverse, List.map_reverse]

/-- Lines are shown one after the other. -/
theorem showTokens_flatten (lines : List (List Token)) :
    showTokens gaps lines.flatten = (lines.map (showTokens gaps)).flatten := by
  induction lines with
  | nil => rfl
  | cons line lines ih =>
    rw [List.flatten_cons, showTokens_append, ih, List.map_cons, List.flatten_cons]

/-- The data is shown. -/
@[simp] theorem dataTokens_showTokens (ts : List Token) :
    dataTokens (showTokens gaps ts) = (dataTokens ts).map Token.bare :=
  filter_showTokens Token.bare_isData (fun _ => isData_of_isSeparator) ts

/-- The comments are shown. -/
@[simp] theorem commentTokens_showTokens (ts : List Token) :
    commentTokens (showTokens gaps ts) = (commentTokens ts).map Token.bare :=
  filter_showTokens Token.bare_isComment (fun _ => isComment_of_isSeparator) ts

/-- Something is shown of tokens that end a line. -/
theorem showTokens_ne_nil (ts : List Token) {e : Token} (he : e.isEol = true) :
    showTokens gaps (ts ++ [e]) ≠ [] := by
  rw [showTokens_concat he]
  simp

/-- Lines show one by one. -/
theorem splitLines_showTokens_concat (front : List Token) {e : Token} (he : e.isEol = true) :
    splitLines (showTokens gaps (front ++ [e])) =
      (splitLines (front ++ [e])).map (showTokens gaps) := by
  induction front with
  | nil =>
    rw [showTokens_concat he, List.nil_append, splitLines, if_pos he]
    show splitLines [e.bare] = [showTokens gaps ([] ++ [e])]
    rw [splitLines, Token.bare_isEol, if_pos he, showTokens_concat he]
    rfl
  | cons t front ih =>
    rw [List.cons_append, showTokens_cons]
    cases ht : t.isEol with
    | true =>
      rw [isSeparator_of_isEol ht, Bool.not_false, Bool.or_true, if_pos rfl, splitLines,
        Token.bare_isEol, if_pos ht, ih, splitLines.eq_def (t :: _)]
      dsimp only
      rw [if_pos ht, List.map_cons]
      congr 1
      exact (showTokens_concat ht []).symm
    | false =>
      obtain ⟨line, lines, hlines⟩ : ∃ line lines, splitLines (front ++ [e]) = line :: lines := by
        have hne : splitLines (front ++ [e]) ≠ [] := fun h => by
          have hflat := flatten_splitLines (front ++ [e])
          rw [h] at hflat
          simp at hflat
        exact List.exists_cons_of_ne_nil hne
      have hsplit : splitLines (t :: (front ++ [e])) = (t :: line) :: lines := by
        rw [splitLines, if_neg (by simp [ht]), hlines]
      rw [hlines] at ih
      rw [hsplit, List.map_cons, showTokens_cons]
      split
      · rw [splitLines, Token.bare_isEol, if_neg (by simp [ht]), ih]
        rfl
      · rw [ih]
        rfl

/-- The lines of the shown tokens are the shown lines. -/
theorem EndsLine.splitLines {ts : List Token} (h : EndsLine ts) :
    splitLines (showTokens gaps ts) = (RobotSuite.splitLines ts).map (showTokens gaps) := by
  obtain ⟨front, e, rfl, he⟩ := h.last
  exact splitLines_showTokens_concat front (by simp [Token.isEol, he])

/-- The shown tokens have the same flaws. -/
theorem EndsLine.tokenFlaws {ts : List Token} (h : EndsLine ts) (type : StatementType) :
    tokenFlaws type (showTokens gaps ts) = RobotSuite.tokenFlaws type ts := by
  obtain ⟨⟨front, e, rfl, he⟩, hgaps⟩ := h
  have he : e.isEol = true := by simp [Token.isEol, he]
  induction front with
  | nil =>
    rw [showTokens_concat he]
    show RobotSuite.tokenFlaws type [e.bare] = RobotSuite.tokenFlaws type [e]
    simp [RobotSuite.tokenFlaws, he]
  | cons t front ih =>
    rw [List.cons_append, List.forall_mem_cons] at hgaps
    have hrest := ih hgaps.2
    have hempty : (showTokens gaps (front ++ [e])).isEmpty = (front ++ [e]).isEmpty := by
      rw [List.isEmpty_eq_false_iff.2 (showTokens_ne_nil front he), List.isEmpty_eq_false_iff.2
        (by simp)]
    rw [List.cons_append, showTokens_cons]
    split
    · rw [RobotSuite.tokenFlaws, RobotSuite.tokenFlaws, hrest, Token.bare_isEol, Token.bare_value,
        Token.bare_kind, hempty]
    · rename_i hshow
      have hsep : t.isSeparator = true :=
        (by simpa using hshow : gaps = false ∧ t.isSeparator = true).2
      have hkind : t.kind = .separator := by simpa [Token.isSeparator] using hsep
      have heol : t.isEol = false := by simp [Token.isEol, hkind]
      have hbreak : hasLineBreak t.value = false := hasLineBreak_eq_false.2 (hgaps.1 hkind)
      rw [RobotSuite.tokenFlaws, heol, hbreak, hrest]
      rfl

end

/-- Laid tokens end their line. -/
theorem Laid.endsLine {header : Bool} {ts : List Token} (h : Laid header (splitLines ts)) :
    EndsLine ts := by
  obtain ⟨front, e, hts, he⟩ := h.getLast?
  refine ⟨⟨front, e, hts, he.kind⟩, fun t ht hk => ?_⟩
  rw [← flatten_splitLines ts, List.mem_flatten] at ht
  obtain ⟨line, hline, ht⟩ := ht
  obtain ⟨k, hw⟩ := h.written line hline
  exact hw.isUnbroken t ht (by simp [hk]) (by simp [hk])

/-! ## Statements -/

/-- A statement without the places of its tokens, and without its gaps unless these are to show. -/
def Statement.shown (gaps : Bool) (s : Statement) : Statement :=
  { s with span := .synthetic, tokens := showTokens gaps s.tokens }

namespace Statement

section
variable {gaps : Bool}

/-- Showing keeps the type. -/
@[simp] theorem shown_type (s : Statement) : (s.shown gaps).type = s.type := rfl

/-- Showing keeps the label. -/
@[simp] theorem shown_label (s : Statement) : (s.shown gaps).label = s.label := rfl

/-- Showing keeps the mark. -/
@[simp] theorem shown_ownedByNext (s : Statement) :
    (s.shown gaps).ownedByNext = s.ownedByNext := rfl

/-- Replacing the tokens commutes with showing. -/
theorem shown_withTokens (s : Statement) (ts : List Token) :
    (s.withTokens ts).shown gaps = (s.shown gaps).withTokens (showTokens gaps ts) := rfl

/-- An empty line that stands in no source shows as it is. -/
theorem shown_emptyLine (newline : String) :
    (emptyLine newline).shown gaps = emptyLine newline := by
  cases gaps <;> rfl

/-- The data is shown. -/
@[simp] theorem shown_data (s : Statement) : (s.shown gaps).data = s.data.map Token.bare :=
  dataTokens_showTokens s.tokens

/-- The assigned variables are shown. -/
theorem shown_assign (s : Statement) : (s.shown gaps).assign = s.assign.map Token.bare := by
  rw [assign, assign, shown_data, shown_type]
  split
  · rw [List.takeWhile_map]
    rfl
  · rfl

/-- The name is shown. -/
@[simp] theorem shown_name (s : Statement) : (s.shown gaps).name = s.name.map Token.bare := by
  rw [name, name, shown_assign, shown_data, List.length_map, ← List.map_drop, List.head?_map]

/-- The arguments are shown. -/
@[simp] theorem shown_args (s : Statement) : (s.shown gaps).args = s.args.map Token.bare := by
  rw [args, args, shown_assign, shown_data, List.length_map, ← List.map_drop, List.map_tail]

/-- Showing keeps the name's text. -/
@[simp] theorem shown_nameText (s : Statement) : (s.shown gaps).nameText = s.nameText := by
  rw [nameText, nameText, shown_name, Option.map_map]
  rfl

/-- Showing keeps the setting of a suite. -/
@[simp] theorem shown_suiteSetting? (s : Statement) :
    (s.shown gaps).suiteSetting? = s.suiteSetting? := by
  rw [suiteSetting?, suiteSetting?, shown_nameText, shown_type]

/-- Showing keeps the setting of a block. -/
@[simp] theorem shown_blockSetting? (s : Statement) :
    (s.shown gaps).blockSetting? = s.blockSetting? := by
  rw [blockSetting?, blockSetting?, shown_nameText, shown_type]

/-- Showing keeps the directive. -/
@[simp] theorem shown_directive? (s : Statement) : (s.shown gaps).directive? = s.directive? := by
  rw [directive?, directive?]
  show (commentTokens (showTokens gaps s.tokens)).findSome? _ = _
  rw [commentTokens_showTokens, List.findSome?_map]
  rfl

/-- The tag cells are shown. -/
theorem shown_tagCells (s : Statement) : (s.shown gaps).tagCells = s.tagCells.map Token.bare := by
  rw [tagCells, tagCells, holdsTags, holdsTags, shown_suiteSetting?, shown_blockSetting?]
  split
  · exact shown_args s
  · rfl

end

section
variable {gaps : Bool} {s : Statement} (h : EndsLine s.tokens)
include h

/-- The line ending is shown. -/
theorem shown_lastEol : (s.shown gaps).lastEol = s.lastEol.map Token.bare := by
  obtain ⟨⟨front, e, hts, he⟩, -⟩ := h
  have he : e.isEol = true := by simp [Token.isEol, he]
  rw [lastEol, lastEol]
  show (showTokens gaps s.tokens).getLast?.filter _ = _
  rw [hts, showTokens_concat he, List.getLast?_concat, List.getLast?_concat, Option.filter_some,
    Option.filter_some, Token.bare_isEol, if_pos he, if_pos he]
  rfl

/-- Showing keeps the flaws. -/
theorem shown_flaws : (s.shown gaps).flaws = s.flaws := by
  have htokens : tokenFlaws (s.shown gaps).type (s.shown gaps).tokens =
      tokenFlaws s.type s.tokens := h.tokenFlaws s.type
  rw [flaws, flaws, htokens, shown_lastEol h, shown_type, shown_name, Option.map_map,
    Option.isNone_map]
  rfl

/-- Showing keeps whether the line ends. -/
theorem shown_isUnterminated : (s.shown gaps).isUnterminated = s.isUnterminated := by
  rw [isUnterminated, isUnterminated, shown_lastEol h, Option.any_map]
  rfl

/-- **All that a walk looks at and all that is checked of a statement shows.** -/
theorem shownBy_shown : s.ShownBy (Statement.shown gaps) :=
  ⟨rfl, s.shown_directive?, shown_flaws h, shown_isUnterminated h⟩

/-- A line break at the end of a statement shows. -/
theorem terminate_shown (newline : String) :
    (s.shown gaps).terminate newline = (s.terminate newline).shown gaps := by
  obtain ⟨front, e, hts, he⟩ := h.last
  have he : e.isEol = true := by simp [Token.isEol, he]
  have hlast : s.lastEol = some e := by
    rw [lastEol, hts, List.getLast?_concat, Option.filter_some, if_pos he]
  rw [terminate, terminate, shown_lastEol h, hlast]
  dsimp only [Option.map_some]
  rw [Token.bare_value]
  split
  · show (s.shown gaps).withTokens ((showTokens gaps s.tokens).dropLast ++ _) = _
    rw [shown_withTokens, hts, showTokens_concat he, List.dropLast_concat, List.dropLast_concat,
      showTokens_concat rfl]
    rfl
  · rfl

end

end Statement

/-- The statements of a sound file end lines. -/
theorem endsLine_of_sound {kind : SectionKind} {s : Statement}
    (h : s.IsSound kind ∨ s.IsHeader kind) : EndsLine s.tokens :=
  h.elim (·.laid.endsLine) (·.laid.endsLine)

/-- What shows of the statements of each section, by whether gaps show. -/
def gapView (gaps : SectionKind → Bool) : View := fun kind => Statement.shown (gaps kind)

end RobotSuite
