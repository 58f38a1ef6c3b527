/-
# Sources behind one another

A header is read as it would be at the start of a source, whatever stands in front of it, as
long as its line starts behind a line break.  The tokens of the two sources follow one
another (`tokenize_append`), the header ends the statement in front of it and the section with
all blocks that are open there (`groupLines_append_cons`, `splitParts_append_cons`), and so
the sections and the defects of the two sources follow one another as well
(`parse_append`).  What stands behind is read at other places, as many lines and code units
further on as the text in front of it has.
-/

import RobotSuite.Proofs.Lint.FixedGroups
import RobotSuite.Proofs.Tree.Relocation

namespace RobotSuite

/-! ## Places behind a text -/

/-- The place behind a text of which the last line is empty. -/
def Location.behind (text : List Char) (l : Location) : Location :=
  ⟨l.line + text.count '\n', l.column, l.offset + Text.units text⟩

/-- A text of which the last line is empty. -/
def EndsBroken (text : List Char) : Prop := text = [] ∨ text.getLast? = some '\n'

instance (text : List Char) : Decidable (EndsBroken text) := inferInstanceAs (Decidable (_ ∨ _))

section
variable {text : List Char}

/-- The end of a text that ends with a break does so too. -/
theorem EndsBroken.of_suffix {back : List Char} (h : EndsBroken text) (hs : back <:+ text) :
    EndsBroken back := by
  obtain ⟨front, rfl⟩ := hs
  rcases back.eq_nil_or_concat' with rfl | ⟨cs, c, rfl⟩
  · exact .inl rfl
  · refine .inr (h.resolve_left (by simp) ▸ ?_)
    rw [← List.append_assoc, List.getLast?_concat, List.getLast?_concat]

/-- Stepping past a character commutes with moving behind a text. -/
theorem Location.step_behind (l : Location) (c : Char) :
    (l.behind text).step c = (l.step c).behind text := by
  rw [step, step]
  split <;> simp only [behind, Location.mk.injEq, true_and] <;> omega

/-- Reading goes on behind a text as it does elsewhere. -/
theorem Location.advance_behind (l : Location) (cs : List Char) :
    (l.behind text).advance cs = (l.advance cs).behind text := by
  induction cs generalizing l with
  | nil => rfl
  | cons c cs ih => rw [advance_cons, advance_cons, l.step_behind, ih]

/-- Moving past characters counts their feeds and units. -/
theorem Location.advance_line (l : Location) (cs : List Char) :
    (l.advance cs).line = l.line + cs.count '\n' ∧
      (l.advance cs).offset = l.offset + Text.units cs := by
  induction cs generalizing l with
  | nil => simp
  | cons c cs ih =>
    obtain ⟨hline, hoffset⟩ := ih (l.step c)
    rw [advance_cons, hline, hoffset, List.count_cons, Text.units_cons, step]
    by_cases hc : c = '\n'
    · subst hc
      have hunits : Text.charUnits '\n' = 1 := rfl
      simp [hunits]
      omega
    · simp [hc]
      omega

/-- The place behind a text of which the last line is empty is the start of a line. -/
theorem Location.advance_of_endsBroken (h : EndsBroken text) :
    origin.advance text = origin.behind text := by
  obtain ⟨hline, hoffset⟩ := origin.advance_line text
  have hcolumn : (origin.advance text).column = 1 := by
    rcases h with rfl | h
    · rfl
    · obtain ⟨cs, rfl⟩ := List.getLast?_eq_some_iff.1 h
      rw [advance_append, advance_cons, advance_nil, step, if_pos rfl]
  rw [behind, ← hline, ← hoffset]
  exact congrArg (Location.mk _ · _) hcolumn

/-! ## Tokens -/

/-- Pieces laid out behind a text are the pieces, moved. -/
theorem layOut_behind (l : Location) (ps : List Piece) :
    layOut (l.behind text) ps = (layOut l ps).map (Token.moved (Location.behind text)) := by
  induction ps generalizing l with
  | nil => rfl
  | cons p ps ih =>
    rw [layOut_cons, layOut_cons, l.advance_behind, ih, List.map_cons, Piece.token,
      l.advance_behind]
    rfl

/-- Lines are read behind a text as they are read elsewhere. -/
theorem lines_behind (l : Location) (cs : List Char) :
    Cursor.lines ⟨l.behind text, cs⟩ =
      (Cursor.lines ⟨l, cs⟩).map (·.map (Token.moved (Location.behind text))) := by
  generalize hc : (⟨l, cs⟩ : Cursor) = c
  fun_induction Cursor.lines c generalizing l cs with
  | case1 c h =>
    subst hc
    rw [Cursor.lines, dif_pos h]
    rfl
  | case2 c h ih =>
    subst hc
    rw [Cursor.lines, dif_neg h, List.map_cons, ← ih _ _ rfl]
    simp only [Cursor.nextLine, layOut_behind, l.advance_behind]

/-- The first line of a text that ends with a break does not reach behind it. -/
theorem cutLine_append_of_endsBroken (h : EndsBroken text) (hne : text ≠ [])
    (back : List Char) :
    cutLine (text ++ back) =
      ((cutLine text).1, (cutLine text).2.1, (cutLine text).2.2 ++ back) := by
  fun_induction cutLine text with
  | case1 => exact absurd rfl hne
  | case2 => rfl
  | case3 => rfl
  | case4 c rest hfeed hreturn line eol rest' hcut ih =>
    have hlast : (c :: rest).getLast? = some '\n' := h.resolve_left hne
    have hrest : rest ≠ [] := by
      rintro rfl
      exact hfeed (Option.some.inj hlast)
    have hends : EndsBroken rest := .inr (by rwa [List.getLast?_cons_of_ne_nil hrest] at hlast)
    have hcut' := ih hends hrest
    rw [hcut] at hcut'
    rw [List.cons_append, cutLine, hcut']
    · exact hfeed
    · intro more hc hmore
      cases rest with
      | nil => exact hrest rfl
      | cons d rest =>
        obtain ⟨rfl, -⟩ := List.cons.inj hmore
        exact hreturn _ hc rfl

/-- **The lines of a text that ends with a line break are read whatever stands behind them.** -/
theorem lines_append (h : EndsBroken text) (l : Location) (back : List Char) :
    Cursor.lines ⟨l, text ++ back⟩ =
      Cursor.lines ⟨l, text⟩ ++ Cursor.lines ⟨l.advance text, back⟩ := by
  generalize hc : (⟨l, text⟩ : Cursor) = c
  fun_induction Cursor.lines c generalizing l text with
  | case1 c hnil =>
    subst hc
    obtain rfl : text = [] := hnil
    rfl
  | case2 c hne ih =>
    subst hc
    have hcut := cutLine_append_of_endsBroken h hne back
    have hpieces : nextPieces (text ++ back) = nextPieces text := by
      rw [nextPieces, nextPieces, hcut]
    have htext := cutLine_eq text
    have hadvance : (l.advance (pieceText (nextPieces text))).advance (cutLine text).2.2 =
        l.advance text := by
      rw [← Location.advance_append, pieceText_nextPieces, htext]
    have hends : EndsBroken (cutLine text).2.2 := h.of_suffix ⟨_, htext⟩
    rw [Cursor.lines, dif_neg (by simpa using fun h => absurd h hne), List.cons_append,
      ← hadvance, ← ih hends _ rfl]
    simp only [Cursor.nextLine, hpieces, hcut]

end

/-- The tokens of two sources follow one another. -/
theorem tokenize_append {first : String} (h : EndsBroken first.toList) (second : String) :
    tokenize (first ++ second) = tokenize first ++
      (tokenize second).map (·.map (Token.moved (Location.behind first.toList))) := by
  rw [tokenize, tokenize, tokenize, Cursor.ofSource, String.toList_append, lines_append h,
    Location.advance_of_endsBroken h, lines_behind]
  rfl

/-! ## Sections -/

section
variable {α : Type} {opens : α → Bool} {x : α}

/-- An opening element starts a part of its own. -/
theorem splitParts_head (h : opens x = true) (back : List α) :
    ∃ rest parts, splitParts opens (x :: back) = (some x, rest) :: parts := by
  rw [splitParts]
  split <;> simp [h]

/-- An element that opens a part ends the part in front of it. -/
theorem splitParts_append_cons (h : opens x = true) (front back : List α) :
    splitParts opens (front ++ x :: back) =
      splitParts opens front ++ splitParts opens (x :: back) := by
  obtain ⟨rest, parts, hback⟩ := splitParts_head h back
  rw [hback]
  induction front with
  | nil => exact hback
  | cons y front ih =>
    rw [List.cons_append, splitParts, ih, splitParts]
    cases hfront : splitParts opens front with
    | nil => rfl
    | cons p more =>
      obtain ⟨header, ys⟩ := p
      cases header <;> rfl

end

/-- Every part behind an element that opens one has such an element. -/
theorem header_of_mem_splitParts {α : Type} {opens : α → Bool} {x : α} (h : opens x = true)
    (back : List α) : ∀ p ∈ splitParts opens (x :: back), p.1 ≠ none := by
  obtain ⟨rest, parts, hback⟩ := splitParts_head h back
  have htail : ∀ p ∈ (splitParts opens (x :: back)).tail, p.1 ≠ none := splitParts_tail
  rw [hback] at htail ⊢
  exact List.forall_mem_cons.2 ⟨by simp, htail⟩

section
variable {header : List Token}

/-- A header continues nothing and is no comment. -/
theorem roles_of_isHeaderLine (h : isHeaderLine header = true) :
    isContinuationLine header = false ∧ isCommentLine header = false ∧
      isContinuable header = false := by
  have hdata : header.any (fun t => t.isData || t.isContinuation) = true := by
    rw [isHeaderLine, Option.any_eq_true] at h
    obtain ⟨t, ht, hk⟩ := h
    refine List.any_eq_true.2 ⟨t, List.mem_of_find?_eq_some ht, ?_⟩
    rw [beq_iff_eq] at hk
    simp [Token.isData, hk, TokenKind.isData]
  refine ⟨isContinuationLine_of_isHeaderLine h, ?_, ?_⟩
  · rw [isCommentLine, hdata]
    simp
  · rw [isContinuable, h]
    rfl

/-- The groups of some lines, the first of which is a header. -/
theorem groupLines_header (h : isHeaderLine header = true) (rest : List (List Token)) :
    (groupLines (header :: rest)).map List.flatten =
      header :: (groupLines rest).map List.flatten := by
  have hcont : ¬isContinuable header = true := by
    rw [(roles_of_isHeaderLine h).2.2]
    exact Bool.false_ne_true
  rw [groupLines, if_neg hcont, List.map_cons, List.flatten_singleton]

/-- A header ends the statement in front of it and the section in which that stands. -/
theorem sectionParts_append (h : isHeaderLine header = true) (front rest : List (List Token)) :
    sectionParts (front ++ header :: rest) =
      sectionParts front ++ sectionParts (header :: rest) := by
  obtain ⟨hcont, hcomment, -⟩ := roles_of_isHeaderLine h
  rw [sectionParts, sectionParts, sectionParts, groupLines_append_cons hcont hcomment,
    List.map_append, groupLines_header h, splitParts_append_cons h]

/-- **Sections are read from moved lines as they are read from the lines,** if they have headers or
the start of the source stays where it is. -/
theorem parseTokens_moved (f : Location → Location) {lines : List (List Token)}
    (hlines : ∀ l ∈ lines, l ≠ [])
    (hp : (∀ p ∈ sectionParts lines, p.1 ≠ none) ∨ f .origin = .origin) :
    (parseTokens (lines.map (·.map (Token.moved f)))).sections =
        (parseTokens lines).sections.map (Section.moved f) ∧
      (parseTokens (lines.map (·.map (Token.moved f)))).errors =
        (parseTokens lines).errors.map (ParseError.moved f) := by
  have hparts : sectionParts (lines.map (·.map (Token.moved f))) =
      (sectionParts lines).map (viewPart (List.map (Token.moved f))) := by
    have hgroups : (groupLines (lines.map (·.map (Token.moved f)))).map List.flatten =
        ((groupLines lines).map List.flatten).map (List.map (Token.moved f)) := by
      rw [groupLines_moved, List.map_map, List.map_map]
      exact List.map_congr_left fun g _ => List.map_flatten.symm
    rw [sectionParts, hgroups, splitParts_map, funext isHeaderLine_moved]
    rfl
  have hgroups := ne_nil_of_mem_groups hlines
  have hread : ∀ p ∈ sectionParts lines, (∀ ts ∈ p.1, ts ≠ []) ∧ (∀ g ∈ p.2, g ≠ []) ∧
      (p.1 ≠ none ∨ f .origin = .origin) := by
    intro p hmem
    obtain ⟨hheader, hrest⟩ := splitParts_spec p hmem
    exact ⟨fun ts hts => hgroups ts (hheader ts hts).2, fun g hg => hgroups g (hrest g hg).2,
      hp.imp_left fun h => h p hmem⟩
  constructor
  · rw [parseTokens_sections, parseTokens_sections, ← sectionParts, ← sectionParts, hparts,
      List.map_map, List.map_map]
    refine List.map_congr_left fun p hmem => ?_
    obtain ⟨hts, hg, hplace⟩ := hread p hmem
    exact markedSection_moved hts hg hplace
  · rw [parseTokens_errors, parseTokens_errors, ← sectionParts, ← sectionParts, hparts,
      List.flatMap_map, List.map_flatMap]
    refine List.flatMap_congr fun p hmem => ?_
    obtain ⟨hts, hg, hplace⟩ := hread p hmem
    rw [viewPart, buildSection_moved hts hg hplace, movedRead]

end

/-- No line read is empty. -/
theorem ne_nil_of_mem_tokenize {source : String} {line : List Token} (h : line ∈ tokenize source) :
    line ≠ [] := by
  obtain ⟨ts, e, rfl, -⟩ := (tokenLine_of_mem_tokenize h).isRow
  simp

/-- **Sections are read independently.**  A text that is empty or ends with a line feed, and a
text that starts with a header, are read one behind the other as they are read alone: the
tokens, the sections and the defects of the first are followed by those of the second, which
stand as many lines and code units further on as the first text has. -/
theorem parse_append {first second : String} (h : EndsBroken first.toList)
    (hs : ((tokenize second).head?.bind List.head?).any (·.kind == .sectionHeader) = true) :
    tokenize (first ++ second) = tokenize first ++
        (tokenize second).map (·.map (Token.moved (Location.behind first.toList))) ∧
      (parse (first ++ second)).sections = (parse first).sections ++
        (parse second).sections.map (Section.moved (Location.behind first.toList)) ∧
      (parse (first ++ second)).errors = (parse first).errors ++
        (parse second).errors.map (ParseError.moved (Location.behind first.toList)) := by
  have htokens := tokenize_append h second
  refine ⟨htokens, ?_⟩
  generalize Location.behind first.toList = f at htokens ⊢
  obtain ⟨header, rest, hsecond, hheader⟩ : ∃ header rest,
      tokenize second = header :: rest ∧ isHeaderLine header = true := by
    cases hlines : tokenize second with
    | nil => simp [hlines] at hs
    | cons header rest =>
      refine ⟨header, rest, rfl, ?_⟩
      cases header with
      | nil => simp [hlines] at hs
      | cons t ts =>
        have hk : t.kind = .sectionHeader := by simpa [hlines] using hs
        simp [isHeaderLine, firstSignificant, Token.isSeparator, Token.isEol, hk]
  have hmoved : isHeaderLine (header.map (Token.moved f)) = true := by
    rw [isHeaderLine_moved, hheader]
  have hp : ∀ p ∈ sectionParts (tokenize second), p.1 ≠ none := by
    rw [hsecond, sectionParts, groupLines_header hheader]
    exact header_of_mem_splitParts hheader _
  obtain ⟨hsections, herrors⟩ :=
    parseTokens_moved f (fun l hl => ne_nil_of_mem_tokenize hl) (.inl hp)
  have hparts : sectionParts (tokenize (first ++ second)) = sectionParts (tokenize first) ++
      sectionParts ((tokenize second).map (·.map (Token.moved f))) := by
    rw [htokens, hsecond, List.map_cons, sectionParts_append hmoved]
  rw [parse, parse, parse, ← hsections, ← herrors, parseTokens_sections, parseTokens_sections,
    parseTokens_sections, parseTokens_errors, parseTokens_errors, parseTokens_errors,
    ← sectionParts, ← sectionParts, ← sectionParts, hparts, List.map_append, List.flatMap_append]
  exact ⟨rfl, rfl⟩

set_option maxRecDepth 100000 in
/-- A block that is left open and a comment in front of a header, and a setting that is not
known behind it. -/
theorem parse_append_open :
    let first := "*** Keywords ***\nK\n    IF    $x\n# note\n"
    let second := "*** Settings ***\nForce    a\n...    b\n"
    EndsBroken first.toList ∧
      ((tokenize second).head?.bind List.head?).any (·.kind == .sectionHeader) = true ∧
      (parse (first ++ second)).errors = (parse first).errors ++
        (parse second).errors.map (ParseError.moved (Location.behind first.toList)) ∧
      (parse (first ++ second)).errors =
        [⟨.unclosedBlock "IF", ⟨3, 1, 19⟩⟩, ⟨.unknownSetting "Force", ⟨6, 1, 56⟩⟩] := by
  have hends : EndsBroken "*** Keywords ***\nK\n    IF    $x\n# note\n".toList := by
    decide +kernel
  have hheader : ((tokenize "*** Settings ***\nForce    a\n...    b\n").head?.bind
      List.head?).any (·.kind == .sectionHeader) = true := by
    decide +kernel
  exact ⟨hends, hheader, (parse_append hends hheader).2.2, by decide +kernel⟩

end RobotSuite
