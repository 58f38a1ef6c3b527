/-
# Layout of lines with even gaps

A pass that lays lines out again looks at the cells and comments of the lines, at the gap in front
of them and at the line ending, but at no places and no labels.  So what it makes of the statements
that show is what shows of the ones it makes (`Transform.ShowsPlain.mirrors`).  Splitting is one
such pass (`Split.showsPlain`), and alignment another (`Columns.showsPlain`).

Splitting puts the comments of a statement together, and what comes of two comments is never a
directive, because it holds a second number sign (`parseDirective_eq_none`).
-/

import RobotSuite.Proofs.Directive.Grammar
import RobotSuite.Proofs.Format.Gaps.HiddenGaps
import RobotSuite.Proofs.Format.Split.Pass

namespace RobotSuite

/-! ## Comments put together -/

/-- **A comment with a second number sign is no directive.** -/
theorem parseDirective_eq_none {comment : String} (h : '#' ∈ comment.toList.tail) :
    parseDirective comment = none := by
  rw [Option.eq_none_iff_forall_ne_some]
  intro d hd
  obtain ⟨names, hwrites, -⟩ := parseDirective_eq_some_iff.1 hd
  exact hwrites.numberSign_notMem h

/-- Comments put together are no directive. -/
theorem parseDirective_intercalate (separator : String) {c d : String} (cs : List String)
    (h : ∀ e ∈ c :: d :: cs, IsComment e) :
    parseDirective (separator.intercalate (c :: d :: cs)) = none := by
  refine parseDirective_eq_none ?_
  obtain ⟨hstart, -⟩ := h c List.mem_cons_self
  obtain ⟨hrest, -⟩ := isComment_intercalate separator
    fun e he => h e (List.mem_cons_of_mem c he)
  rw [String.intercalate_cons_cons, String.toList_append, String.toList_append, List.append_assoc]
  cases hc : c.toList with
  | nil =>
    rw [hc] at hstart
    cases hstart
  | cons first more =>
    rw [List.cons_append, List.tail_cons]
    exact List.mem_append_right _ (List.mem_append_right _ (List.mem_of_head? hrest))

/-! ## Quiet files -/

namespace Transform

/-- A transform that leaves sections and files alone, and decides about what shows of statements
without directives as it does about the statements. -/
structure ShowsPlain (t : Transform) : Prop where
  keeps : t.Keeps (Statement.IsQuiet Statement.IsSound) (Statement.IsQuiet Statement.IsHeader)
  statement : ∀ {sc sc' n s}, sc.Like sc' → sc.IsCalm → s.directive? = none →
    t.statement sc' n s.plain = (t.statement sc n s).map Statement.plain
  body : ∀ {place place' header items},
    t.leaveBody place' header (viewMarked (BodyItem.view Statement.plain) items) =
      (t.leaveBody place header items).map (viewMarked (BodyItem.view Statement.plain))
  sect : t.leaveSection = fun _ _ _ => .keep
  file : t.leaveFile = fun _ _ => .keep

/-- A transform that treats plain pictures alike runs on a file and on its plain picture alike. -/
theorem ShowsPlain.mirrors {t : Transform} (h : t.ShowsPlain) :
    t.Mirrors t False Scope.IsCalm (Statement.IsQuiet Statement.IsSound)
      (Statement.IsQuiet Statement.IsHeader) plainView plainView where
  name := rfl
  start := by simp [Scope.IsCalm]
  keeps := h.keeps
  labels := False.elim
  silent := .inr fun hc hs => hc.disables (hs.elim (·.silent) (·.silent)) _
  sees hs := Statement.shownBy_plain (endsLine_of_sound (hs.imp (·.holds) (·.holds)))
  shows hs := Statement.shownBy_plain (endsLine_of_sound (hs.imp (·.holds) (·.holds)))
  enter hc hh := hc.enter fun header hmem => (hh header hmem).elim (·.silent) (·.silent)
  leave hc := hc.leave
  note hc hs := hc.note (hs.elim (·.silent) (·.silent))
  statement {kind sc sc' n s} hc hlike hs := by
    show Decision.Agree _ _ _ _ (t.statement sc' n s.plain)
    rw [h.statement hlike hc (hs.elim (·.2.silent) (·.2.2.silent))]
    refine Decision.agree_map rfl fun new hput => ⟨rfl, fun ht => ?_⟩
    rcases hs with ⟨hshows, hs⟩ | ⟨hsect, hlevels, hs⟩
    · exact Statement.shownBy_plain
        (endsLine_of_sound (.inl (h.keeps.statement hput hshows ht hs).holds))
    · exact Statement.shownBy_plain
        (endsLine_of_sound (.inr (h.keeps.header hput hsect hlevels ht hs).holds))
  body _ _ _ := h.body
  sect _ _ _ _ _ := by rw [h.sect]; rfl
  file _ _ := by rw [h.file]; rfl

end Transform

/-! ## Lines without places -/

/-- Bare tokens render as the tokens do. -/
theorem renderTokens_map_bare (ts : List Token) :
    renderTokens (ts.map Token.bare) = renderTokens ts := by
  rw [renderTokens, renderTokens, List.map_map]
  rfl

/-- Lines are cut alike without marks and places. -/
theorem splitLines_map_bare (ts : List Token) :
    splitLines (ts.map Token.bare) = (splitLines ts).map (List.map Token.bare) := by
  induction ts with
  | nil => rfl
  | cons t ts ih =>
    rw [List.map_cons, splitLines, splitLines, Token.bare_isEol, ih]
    split
    · rfl
    · cases splitLines ts <;> rfl

/-- Bare cells are as wide as the cells. -/
theorem dataWidth_map_bare (line : List Token) :
    dataWidth (line.map Token.bare) = dataWidth line := by
  have htake : (line.map Token.bare).takeWhile (fun t => !(t.isComment || t.isEol)) =
      (line.takeWhile fun t => !(t.isComment || t.isEol)).map Token.bare := by
    rw [List.takeWhile_map]
    rfl
  rw [dataWidth, dataWidth, htake, renderTokens_map_bare]

/-- The indent of a bare line is that of the line. -/
theorem indentOf_map_bare (ts : List Token) : indentOf (ts.map Token.bare) = indentOf ts := by
  cases ts with
  | nil => rfl
  | cons t ts => rfl

/-- The layout of a bare line is the bare layout of the line. -/
theorem LineLayout.ofLine_map_bare (line : List Token) :
    LineLayout.ofLine (line.map Token.bare) = (LineLayout.ofLine line).bare := by
  have hending : endingOf (line.map Token.bare) = (endingOf line).bare := by
    rw [endingOf, endingOf, List.getLast?_map]
    cases line.getLast? with
    | none => rfl
    | some e =>
      rw [Option.map_some, Option.filter_some, Option.filter_some, Token.bare_isEol]
      split <;> rfl
  rw [ofLine, ofLine, bare, hending, List.filter_map, List.find?_map]
  rfl

/-- The layouts of bare lines are the bare layouts of the lines. -/
theorem LineLayout.ofTokens_map_bare (ts : List Token) :
    LineLayout.ofTokens (ts.map Token.bare) = (LineLayout.ofTokens ts).map LineLayout.bare := by
  rw [ofTokens, ofTokens, splitLines_map_bare, List.map_map, List.map_map]
  exact List.map_congr_left fun line _ => ofLine_map_bare line

namespace Statement

/-- The tokens of the plain picture are the bare tokens. -/
theorem plain_tokens (s : Statement) : s.plain.tokens = s.tokens.map Token.bare :=
  showTokens_true s.tokens

/-- A statement's plain picture gives the same directive. -/
theorem plain_directive? (s : Statement) : s.plain.directive? = s.directive? := s.shown_directive?

/-- A statement's plain picture has the same text. -/
theorem plain_text (s : Statement) : s.plain.text = s.text := by
  rw [text, text, plain_tokens, renderTokens_map_bare]

/-- Replacing the tokens commutes with the plain picture. -/
theorem plain_withTokens (s : Statement) (ts : List Token) :
    (s.withTokens ts).plain = s.plain.withTokens (ts.map Token.bare) := by
  rw [plain_eq, plain_eq]
  rfl

/-- Where a statement has a line with a comment and no cell shows. -/
theorem plain_hasCommentLine (s : Statement) : s.plain.hasCommentLine = s.hasCommentLine := by
  rw [hasCommentLine, hasCommentLine, plain_tokens, LineLayout.ofTokens_map_bare, List.any_map]
  congr 1
  funext l
  rw [Function.comp_apply, LineLayout.isCommentOnly, LineLayout.isCommentOnly, LineLayout.bare,
    List.isEmpty_map, Option.isSome_map]

end Statement

/-! ## Long lines -/

namespace Split
variable {setup : PassSetup} {s : Statement}

/-- The plain picture has a head of the same size. -/
theorem headSize_plain (s : Statement) : headSize s.plain = headSize s :=
  headSize_congr rfl (by rw [s.plain_tokens, dataTexts_map_bare])

/-- A bare row is as wide as the row. -/
theorem rowWidth_map_bare (indent separator : String) (cells : List Token) :
    rowWidth indent (cells.map Token.bare) separator = rowWidth indent cells separator := by
  rw [rowWidth, rowWidth, List.map_map]
  rfl

/-- Rows are filled alike without marks and places. -/
theorem fillFrom_map_bare (indent separator : String) (limit : Int) (everyArg : Bool)
    (row args : List Token) :
    fillFrom indent separator limit everyArg (row.map Token.bare) (args.map Token.bare) =
      (fillFrom indent separator limit everyArg row args).map (List.map Token.bare) := by
  induction args generalizing row with
  | nil => rfl
  | cons arg args ih =>
    rw [List.map_cons, fillFrom, fillFrom, rowWidth_map_bare, Token.bare_value]
    split
    · rw [← ih, List.map_append]
      rfl
    · rw [List.map_cons, ← ih]
      rfl

/-- Rows are composed alike without marks and places. -/
theorem composeRows_map_bare (indent separator newline : String) (comment : Option Token)
    (ending : Token) (rows : List (List Token)) :
    composeRows indent separator newline (comment.map Token.bare) ending.bare
        (rows.map (List.map Token.bare)) =
      (composeRows indent separator newline comment ending rows).map Token.bare := by
  induction rows with
  | nil => rfl
  | cons row rows ih =>
    cases rows with
    | nil => exact composeLine_bare indent separator ⟨row, comment, ending⟩ _
    | cons next rows =>
      rw [List.map_cons, List.map_cons, composeRows, composeRows, List.map_append, ← ih,
        List.map_cons]
      exact congrArg (· ++ _)
        (composeLine_bare indent separator ⟨row, none, .create .eol newline⟩ _)

/-- Comments are joined alike without marks and places. -/
theorem joinComments_map_bare (separator : String) (cs : List Token) :
    joinComments separator (cs.map Token.bare) = (joinComments separator cs).map Token.bare := by
  cases cs with
  | nil => rfl
  | cons c cs =>
    rw [List.map_cons, joinComments, joinComments, Option.map_some, ← List.map_cons, List.map_map]
    rfl

/-- A statement is split alike without marks and places. -/
theorem splitTokens_map_bare (everyArg : Bool) (size : Nat) (ts : List Token) :
    splitTokens setup everyArg size (ts.map Token.bare) =
      (splitTokens setup everyArg size ts).map Token.bare := by
  have hending : ((ts.map Token.bare).getLast?).getD noEnding =
      ((ts.getLast?).getD noEnding).bare := by
    rw [List.getLast?_map]
    cases ts.getLast? <;> rfl
  rw [splitTokens, splitTokens, indentOf_map_bare, dataTokens_map_bare, commentTokens_map_bare,
    joinComments_map_bare, hending, ← composeRows_map_bare, fillRows, fillRows, ← List.map_take,
    ← List.map_drop, fillFrom_map_bare]

/-- **A statement is split by what shows of it.** -/
theorem split_plain (s : Statement) :
    split setup s.plain = (split setup s).map Statement.plain := by
  have hlong : isTooLong setup.config.lineLength s.plain =
      isTooLong setup.config.lineLength s := by
    rw [isTooLong, isTooLong, s.plain_tokens, splitLines_map_bare, List.any_map]
    congr 1
    funext line
    rw [Function.comp_apply, dataWidth_map_bare]
  rw [split, split, headSize_plain]
  cases headSize s with
  | none => rfl
  | some size =>
    rw [Option.bind_some, Option.bind_some, hlong, s.plain_hasCommentLine]
    split
    · rfl
    · dsimp only
      rw [s.plain_tokens, splitTokens_map_bare, renderTokens_map_bare, s.plain_text]
      split
      · rfl
      · rw [Option.map_some, Statement.plain_withTokens]

/-- A statement that is split has no directive if it had none. -/
theorem silent_splitTokens {kind : SectionKind} {size : Nat} (everyArg : Bool)
    (hv : setup.IsValid) (h : s.IsSound kind) (hs : headSize s = some size)
    (hd : s.directive? = none) :
    (s.withTokens (splitTokens setup everyArg size s.tokens)).directive? = none := by
  obtain ⟨-, hcomments⟩ := texts_splitTokens everyArg hv h hs
  have htexts : ∀ c ∈ commentTexts s.tokens, IsComment c := by
    intro c hc
    obtain ⟨t, ht, rfl⟩ := List.mem_map.1 hc
    exact (h.laid.commentTokens t ht).2
  rw [Statement.directive?_eq] at hd ⊢
  show (commentTexts (splitTokens setup everyArg size s.tokens)).findSome? _ = none
  rw [hcomments]
  generalize commentTexts s.tokens = texts at hd htexts
  cases texts with
  | nil => rfl
  | cons c texts =>
    rw [if_neg (List.cons_ne_nil _ _)]
    cases texts with
    | nil => rwa [String.intercalate_singleton]
    | cons d texts =>
      rw [List.findSome?_singleton]
      exact parseDirective_intercalate _ _ htexts

/-- The transform of the pass. -/
abbrev transform (setup : PassSetup) : Transform :=
  { name := info.name
    statement := fun sc _ s =>
      if sc.disables info.name s then .keep else .ofOption (split setup s) }

/-- What the pass puts in a statement's place is the statement split. -/
theorem exists_split {sc : Scope} {n : Nat} {new : Statement}
    (h : (transform setup).statement sc n s = .put new) : split setup s = some new := by
  dsimp only [transform] at h
  split at h
  · cases h
  · exact Decision.ofOption_eq_put h

/-- **Splitting of long lines looks at what shows.** -/
theorem showsPlain (hv : setup.IsValid) : (transform setup).ShowsPlain := by
  obtain ⟨hkeeps, -⟩ := keepsSound_pass setup ⟨.synthetic, .lf, [], []⟩ _ hv rfl
  refine
    { keeps :=
        { statement := fun h hsh ht hs => ⟨hkeeps.statement h hsh ht hs.holds, ?_⟩
          header := fun h hk hl ht hs => ⟨hkeeps.header h hk hl ht hs.holds, ?_⟩
          body := fun h => by cases h
          sect := fun h => by cases h
          file := fun h => by cases h }
      statement := fun {sc sc' n s} hlike hc hs => ?_
      body := rfl
      sect := rfl
      file := rfl }
  · obtain ⟨size, everyArg, hsize, rfl⟩ := split_eq_some (exists_split h)
    exact silent_splitTokens everyArg hv hs.holds hsize hs.silent
  · obtain ⟨size, everyArg, hsize, -⟩ := split_eq_some (exists_split h)
    simp [headSize, hs.holds.type] at hsize
  · have hoff : sc'.disables info.name s.plain = sc.disables info.name s :=
      hlike.disables _ rfl s.plain_directive?
    dsimp only [transform]
    rw [hoff, hc.disables hs, if_neg Bool.false_ne_true, if_neg Bool.false_ne_true,
      split_plain, Decision.map_ofOption]

end Split

/-! ## Columns -/

namespace Columns
variable {limit : Nat} {separator : String} {widths : List Nat}

/-- A call without the places of its tokens. -/
def Candidate.bare (c : Candidate) : Candidate := ⟨c.indent, c.lines.map LineLayout.bare⟩

/-- A line is aligned alike without marks and places. -/
theorem alignLine_bare (indent separator : String) (widths : List Nat) (line : LineLayout) :
    alignLine indent separator widths line.bare =
      (alignLine indent separator widths line).map Token.bare := by
  rw [alignLine, alignLine, ← composeLine_bare]
  congr 1
  funext column
  rw [LineLayout.bare, List.getElem?_map, Option.map_map]
  rfl

/-- A call is aligned alike without marks and places. -/
theorem align_bare (c : Candidate) :
    c.bare.align separator widths = (c.align separator widths).map Token.bare := by
  rw [Candidate.align, Candidate.align, Candidate.bare, List.flatMap_map, List.map_flatMap]
  exact List.flatMap_congr fun line _ => alignLine_bare c.indent separator widths line

/-- Bare lines fit the limit exactly when the lines do. -/
theorem fits_map_bare (limit : Nat) (ts : List Token) :
    fits limit (ts.map Token.bare) = fits limit ts := by
  rw [fits, fits, splitLines_map_bare, List.all_map]
  congr 1
  funext line
  rw [Function.comp_apply, dataWidth_map_bare]

/-- Bare rows have the same column widths. -/
theorem columnWidths_map_bare (rows : List (List Token)) :
    columnWidths (rows.map (List.map Token.bare)) = columnWidths rows := by
  rw [columnWidths, columnWidths, List.foldl_map]
  congr 1
  funext widths row
  rw [← List.map_dropLast, List.map_map]
  rfl

/-- Bare candidates ask for the same widths. -/
theorem widthsOf_map_bare (cs : List (Option Candidate)) :
    widthsOf (cs.map (Option.map Candidate.bare)) = widthsOf cs := by
  have hrows : ((cs.map (Option.map Candidate.bare)).filterMap id).flatMap
      (fun c => c.lines.map (·.cells)) =
        ((cs.filterMap id).flatMap fun c => c.lines.map (·.cells)).map (List.map Token.bare) := by
    induction cs with
    | nil => rfl
    | cons c cs ih =>
      cases c with
      | none => exact ih
      | some c =>
        have hlines : c.bare.lines.map (·.cells) =
            (c.lines.map (·.cells)).map (List.map Token.bare) := by
          rw [Candidate.bare, List.map_map, List.map_map]
          rfl
        show (c.bare.lines.map (·.cells)) ++ _ = (c.lines.map (·.cells) ++ _).map _
        rw [List.map_append, ← hlines]
        exact congrArg (_ ++ ·) ih
  rw [widthsOf, widthsOf, hrows, columnWidths_map_bare]

/-- The candidates that fit are the same without marks and places. -/
theorem keepFitting_map_bare (cs : List (Option Candidate)) :
    keepFitting limit separator (cs.map (Option.map Candidate.bare)) =
      (keepFitting limit separator cs).map (Option.map Candidate.bare) := by
  rw [keepFitting, keepFitting, widthsOf_map_bare, List.map_map, List.map_map]
  refine List.map_congr_left fun c _ => ?_
  rw [Function.comp_apply, Function.comp_apply, Option.filter_map]
  congr 2
  funext c
  rw [Function.comp_apply, align_bare, fits_map_bare]

/-- Dropping marks and places loses no candidate. -/
theorem count_map_bare (cs : List (Option Candidate)) :
    count (cs.map (Option.map Candidate.bare)) = count cs := by
  rw [count, count, List.countP_map]
  congr 1
  funext c
  exact Option.isSome_map

/-- Calls are left out by what shows of them. -/
theorem settle_map_bare (cs : List (Option Candidate)) :
    settle limit separator (cs.map (Option.map Candidate.bare)) =
      (settle limit separator cs).map (Option.map Candidate.bare) := by
  fun_induction settle limit separator cs with
  | case1 cs h =>
    rw [settle, dif_pos]
    rw [keepFitting_map_bare, count_map_bare, count_map_bare, h]
  | case2 cs h ih =>
    rw [settle, dif_neg, keepFitting_map_bare, ih]
    rwa [keepFitting_map_bare, count_map_bare, count_map_bare]

/-- The plain picture of an item is a candidate exactly when the item is. -/
theorem candidate?_plain (item : Marked BodyItem) :
    candidate? (item.1.view Statement.plain, item.2) = (candidate? item).map Candidate.bare := by
  obtain ⟨item, mark⟩ := item
  cases item with
  | control c => cases mark <;> rfl
  | statement s =>
    cases mark with
    | true => rfl
    | false =>
      rw [BodyItem.view, candidate?, candidate?, s.plain_hasCommentLine, s.plain_tokens,
        indentOf_map_bare, LineLayout.ofTokens_map_bare]
      show (if (s.type = .keywordCall && !s.hasCommentLine) = true then _ else _) = _
      split <;> rfl

/-- Giving an item new tokens commutes with the plain picture. -/
theorem retoken?_plain (item : BodyItem) (ts : List Token) :
    retoken? (item.view Statement.plain) (ts.map Token.bare) =
      (retoken? item ts).map (BodyItem.view Statement.plain) := by
  cases item with
  | control c => rfl
  | statement s =>
    rw [BodyItem.view, retoken?, retoken?, renderTokens_map_bare, s.plain_text]
    split
    · rfl
    · rw [Option.map_some, BodyItem.view, s.plain_withTokens]

/-- The aligned calls of a plain body are the plain pictures of the aligned calls. -/
theorem alignments_plain (items : List (Marked BodyItem)) :
    alignments limit separator (viewMarked (BodyItem.view Statement.plain) items) =
      (alignments limit separator items).map (Option.map (BodyItem.view Statement.plain)) := by
  have hcalls : (viewMarked (BodyItem.view Statement.plain) items).map candidate? =
      (items.map candidate?).map (Option.map Candidate.bare) := by
    rw [viewMarked, List.map_map, List.map_map]
    exact List.map_congr_left fun item _ => candidate?_plain item
  rw [alignments, alignments]
  dsimp only
  rw [hcalls, settle_map_bare, widthsOf_map_bare, viewMarked, List.zip_map, List.map_map,
    List.map_map]
  refine List.map_congr_left fun item _ => ?_
  obtain ⟨item, call⟩ := item
  cases call with
  | none => rfl
  | some c =>
    show retoken? (item.1.view Statement.plain) (c.bare.align _ _) = _
    rw [align_bare, retoken?_plain]
    rfl

/-- **A body is aligned by what shows of it.** -/
theorem alignBody_plain (items : List (Marked BodyItem)) :
    alignBody limit separator (viewMarked (BodyItem.view Statement.plain) items) =
      (alignBody limit separator items).map (viewMarked (BodyItem.view Statement.plain)) := by
  have hany : ((alignments limit separator items).map
      (Option.map (BodyItem.view Statement.plain))).any (·.isSome) =
        (alignments limit separator items).any (·.isSome) := by
    rw [List.any_map]
    congr 1
    funext new
    exact Option.isSome_map
  rw [alignBody, alignBody]
  dsimp only
  rw [alignments_plain, hany]
  split
  · rw [Option.map_some, viewMarked, viewMarked, List.zip_map, List.map_map, List.map_map]
    congr 1
    refine List.map_congr_left fun item _ => ?_
    obtain ⟨item, new⟩ := item
    cases new <;> rfl
  · rfl

/-- The transform of the pass. -/
abbrev transform (setup : PassSetup) : Transform :=
  { name := info.name
    leaveBody := fun _ _ items =>
      .ofOption (alignBody setup.config.lineLength setup.config.separator items) }

/-- A call that is aligned has no directive if it had none. -/
theorem silent_align {kind : SectionKind} {s : Statement} (h : s.IsSound kind)
    (hd : s.directive? = none) :
    (s.withTokens (Candidate.align separator widths
      ⟨indentOf s.tokens, LineLayout.ofTokens s.tokens⟩)).directive? = none := by
  obtain ⟨gapAt, heq, -⟩ := align_eq separator widths (indentOf s.tokens) s.tokens
  refine (directive?_congr ?_).trans hd
  show commentTexts (Candidate.align separator widths _) = _
  rw [heq]
  exact h.laid.commentTexts_composeLines _ _ _

/-- **Alignment of keyword calls looks at what shows.** -/
theorem showsPlain {setup : PassSetup} (hv : setup.IsValid) : (transform setup).ShowsPlain := by
  refine
    { keeps :=
        { statement := fun h => by cases h
          header := fun h => by cases h
          body := fun h => bodyHolds_alignBody (Decision.ofOption_eq_put h) fun widths s hs =>
            ⟨sound_align hs.holds hv.separator widths, silent_align hs.holds hs.silent⟩
          sect := fun h => by cases h
          file := fun h => by cases h }
      statement := fun _ _ _ => rfl
      body := fun {place place' header items} => ?_
      sect := rfl
      file := rfl }
  dsimp only [transform]
  rw [alignBody_plain, Decision.map_ofOption]

end Columns
end RobotSuite
