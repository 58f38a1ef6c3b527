/-
# Sources with other gaps

Two sources hold the same cells, comments and line endings, line by line, and the same text where
lines are not laid out.  Then they are read as models that show alike but for the gaps that are laid
out (`view_parse`), and so they are formatted alike (`formatSource_of_content`).  This needs the
pass that lays out the gaps to run: where it fails, the gaps stay as they are, and show in the
result (`formatSource_of_failed_layout`).
-/

import RobotSuite.Proofs.Format.RespacedRuns
import RobotSuite.Proofs.Tree.GapFreeReading

namespace RobotSuite

/-! ## The parts of a source -/

/-- The kinds and texts of the tokens of a line other than its gaps. -/
def lineContent (line : List Token) : List (TokenKind × String) :=
  (line.filter fun t => !t.isSeparator).map fun t => (t.kind, t.value)

/-- What a line holds is what shows of it without gaps. -/
theorem map_create_lineContent (line : List Token) :
    (lineContent line).map (fun p => Token.create p.1 p.2) = showTokens false line := by
  rw [lineContent, showTokens, List.map_map]
  rfl

/-- Lines that hold the same show alike without gaps. -/
theorem map_showTokens_of_content {lines others : List (List Token)}
    (h : lines.map lineContent = others.map lineContent) :
    lines.map (showTokens false) = others.map (showTokens false) :=
  map_congr_of_map (fun x y hxy => by
    rw [← map_create_lineContent, ← map_create_lineContent, hxy]) h

section
variable {gaps : Bool} {lines others : List (List Token)}

/-- Lines are cut into sections without regard to their gaps. -/
theorem sectionParts_showTokens (lines : List (List Token)) :
    sectionParts (lines.map (showTokens gaps)) =
      (sectionParts lines).map (viewPart (showTokens gaps)) := by
  have hflat : ((groupLines lines).map (·.map (showTokens gaps))).map List.flatten =
      ((groupLines lines).map List.flatten).map (showTokens gaps) := by
    rw [List.map_map, List.map_map]
    exact List.map_congr_left fun g _ => (showTokens_flatten g).symm
  have hheader : (fun ts => isHeaderLine (showTokens gaps ts)) = isHeaderLine :=
    funext fun ts => isHeaderLine_showTokens ts
  rw [sectionParts, groupLines_showTokens, hflat, splitParts_map, hheader, sectionParts]

/-- Lines that show alike are cut into sections at the same places. -/
theorem sectionParts_of_shown (h : lines.map (showTokens gaps) = others.map (showTokens gaps)) :
    (sectionParts lines).map (viewPart (showTokens gaps)) =
      (sectionParts others).map (viewPart (showTokens gaps)) := by
  rw [← sectionParts_showTokens, ← sectionParts_showTokens, h]

/-- The line break that is used most shows. -/
theorem dominantNewline_showTokens (h : ∀ line ∈ lines, ∃ k, Written k line) :
    dominantNewline (lines.map (showTokens gaps)) = dominantNewline lines := by
  have hlast : (lines.map (showTokens gaps)).filterMap (fun l => l.getLast?.filter (·.isEol)) =
      (lines.filterMap fun l => l.getLast?.filter (·.isEol)).map Token.bare := by
    rw [List.filterMap_map, List.map_filterMap]
    refine List.filterMap_congr fun line hline => ?_
    obtain ⟨k, hk⟩ := h line hline
    obtain @⟨us, e, -, he⟩ := hk
    have heol : e.isEol = true := by simpa [Token.isEol] using he.kind
    rw [Function.comp_apply, showTokens_concat heol, List.getLast?_concat, List.getLast?_concat,
      Option.filter_some, Option.filter_some, Token.bare_isEol, heol]
    rfl
  rw [dominantNewline, dominantNewline, hlast]
  rw [List.countP_map, List.countP_map]
  rfl

end

/-! ## Comments of a source -/

/-- The comments of a source are those of its lines. -/
theorem comments_parse (source : String) :
    (parse source).comments = commentTexts (tokenize source).flatten := by
  rw [← tokensOf_parseTokens, ← parse, File.comments, tokensOf]
  generalize (parse source).statements = ss
  induction ss with
  | nil => rfl
  | cons s ss ih =>
    rw [remarks_cons, ih, List.flatMap_cons, commentTexts, commentTexts, commentTexts,
      ← List.map_append, commentTokens, commentTokens, commentTokens, List.filter_append]

section
variable {source other : String}

/-- Sources with the same content have the same comments. -/
theorem comments_of_content
    (h : (tokenize source).map lineContent = (tokenize other).map lineContent) :
    (parse source).comments = (parse other).comments := by
  have hshown := congrArg List.flatten (map_showTokens_of_content h)
  rw [← showTokens_flatten, ← showTokens_flatten] at hshown
  have hcomments := congrArg (List.map (·.value)) (commentTokens_of_shown hshown)
  rw [List.map_map, List.map_map] at hcomments
  rw [comments_parse, comments_parse]
  exact hcomments

section
variable (hp : (parse source).errors = [])
  (hc : ∀ c ∈ (parse source).comments, isUnbroken c.toList = true)
include hp hc

/-- A source that is read without a defect, and whose comments hold no line break, is read as a
fair model. -/
theorem fair_parse : (parse source).IsFair := by
  refine ⟨sound_parse hp, (sound_parse hp).almostPlaced (parse_sections source).1 ?_⟩
  refine flaws_parse hp fun s hs t ht hk => ?_
  refine hc t.value (List.mem_flatMap.2 ⟨s, hs, List.mem_map_of_mem ?_⟩)
  exact List.mem_filter.2 ⟨ht, by simp [Token.isComment, hk]⟩

/-- It is read as an intact one if it can be checked. -/
theorem intact_parse (hcheck : (parse source).isUncheckable = false) : (parse source).Intact := by
  obtain ⟨hlead, hheaders⟩ := parse_sections source
  exact ⟨sound_parse hp, ((sound_parse hp).wellPlaced hcheck hlead hheaders
    (fair_parse hp hc).flaws).issues_eq_nil (separated_parse hp).1⟩

end

/-! ## Lines that are read from their text -/

/-- Each line of a source has a text. -/
theorem chars_ne_nil_of_mem_lines {c : Cursor} {line : List Token} (h : line ∈ c.lines) :
    chars line ≠ [] := by
  fun_induction Cursor.lines c with
  | case1 => simp at h
  | case2 c hne ih =>
    rcases List.mem_cons.1 h with rfl | h
    · rw [Cursor.nextLine, chars_layOut, pieceText_nextPieces]
      intro hnil
      have hlength := congrArg List.length (cutLine_eq c.rest)
      rw [hnil, List.nil_append] at hlength
      exact absurd hlength (length_cutLine_lt hne).ne
    · exact ih h

/-- Lines that are joined are so up to each of them. -/
theorem Joined.of_append_left {ls rest : List (List Token)} (h : Joined (ls ++ rest)) :
    Joined ls := by
  induction ls with
  | nil => exact .nil
  | cons line ls ih =>
    rw [List.cons_append] at h
    generalize hlines : line :: (ls ++ rest) = lines at h
    cases h with
    | nil => cases hlines
    | last hts he hv hc =>
      obtain ⟨rfl, hnil⟩ := List.cons_eq_cons.1 hlines
      rw [(List.append_eq_nil_iff.1 hnil).1]
      exact .last hts he hv hc
    | cons hts he hv hrest =>
      obtain ⟨rfl, rfl⟩ := List.cons_eq_cons.1 hlines
      exact .cons hts he hv (ih hrest)

/-- Lines that are joined are so from each of them on. -/
theorem Joined.of_append_right {front ls : List (List Token)} (h : Joined (front ++ ls)) :
    Joined ls := by
  induction front with
  | nil => exact h
  | cons line front ih =>
    rw [List.cons_append] at h
    generalize hlines : line :: (front ++ ls) = lines at h
    cases h with
    | nil => cases hlines
    | last hts he hv hc =>
      obtain ⟨-, hnil⟩ := List.cons_eq_cons.1 hlines
      rw [(List.append_eq_nil_iff.1 hnil).2]
      exact .nil
    | cons hts he hv hrest =>
      obtain ⟨-, rfl⟩ := List.cons_eq_cons.1 hlines
      exact ih hrest

/-- Lines that are joined, and that are read as they are. -/
structure ReadsBack (ls : List (List Token)) : Prop where
  joined : Joined ls
  pieces : ∀ line ∈ ls, (nextPieces (chars line)).map Piece.bare = line.map Token.bare

/-- Lines that are read as they are can be told from their text. -/
theorem ReadsBack.map_bare {ls others : List (List Token)} (h : ReadsBack ls)
    (ho : ReadsBack others) (hc : chars ls.flatten = chars others.flatten) :
    ls.map (·.map Token.bare) = others.map (·.map Token.bare) := by
  have hread {ls : List (List Token)} (h : ReadsBack ls) :
      (Cursor.lines ⟨.origin, chars ls.flatten⟩).map (·.map Token.bare) =
        ls.map (·.map Token.bare) :=
    (bare_lines h.joined .origin).trans (List.map_congr_left h.pieces)
  rw [← hread h, ← hread ho, hc]

/-- The lines of a fair source are read as they are. -/
theorem readsBack_tokenize (hp : (parse source).errors = []) (hf : (parse source).IsFair) :
    ReadsBack (tokenize source) := by
  have hlines := lines_parse hp
  have hwritten := (groups_of_clean hp).1
  have htext : withText (tokenize source) = tokenize source := by
    rw [withText, List.filter_eq_self]
    intro line hline
    simpa using chars_ne_nil_of_mem_lines hline
  refine ⟨?_, fun line hline => ?_⟩
  · have htokens : (parse source).lines.flatten = (tokenize source).flatten := by rw [hlines]
    rw [← htext, ← hlines]
    refine joined_of_written (sound_parse hp).written ?_ ?_
    · rw [flatten_lines]
      exact unbroken_of_flaws hf.flaws
    · rw [htokens]
      exact ending_ne_of_mem_tokenize
  · obtain ⟨_, hknown⟩ := hwritten line hline
    obtain ⟨k, hk, hstar⟩ := written_of_mem_lines hline hknown.known
    exact bare_line hf.flaws (hlines ▸ hline) hk hstar

/-! ## Sections that are read from their text -/

/-- The lines of a section. -/
def Section.lines (s : Section) : List (List Token) :=
  s.statements.flatMap fun r => splitLines r.tokens

/-- The lines of a section are its text. -/
theorem Section.chars_lines (s : Section) : chars s.lines.flatten = s.render.toList := by
  rw [Section.render, renderStatements_eq, toList_renderTokens, Section.lines, tokensOf]
  refine congrArg chars ?_
  rw [List.flatMap_def, List.flatten_flatten, List.map_map, ← List.flatMap_def]
  exact congrArg (List.flatMap · _) (funext fun r => flatten_splitLines r.tokens)

/-- The lines of a section of a fair source are read as they are. -/
theorem readsBack_section (hp : (parse source).errors = []) (hf : (parse source).IsFair)
    {s : Section} (hs : s ∈ (parse source).sections) : ReadsBack s.lines := by
  obtain ⟨hjoined, hpieces⟩ := readsBack_tokenize hp hf
  obtain ⟨front, rest, hsections⟩ := List.append_of_mem hs
  have hlines : tokenize source =
      front.flatMap Section.lines ++ (s.lines ++ rest.flatMap Section.lines) := by
    rw [← lines_parse hp, File.lines, File.statements, hsections, List.flatMap_append,
      List.flatMap_cons, List.flatMap_append, List.flatMap_append, List.flatMap_assoc,
      List.flatMap_assoc]
    rfl
  rw [hlines] at hjoined hpieces
  exact ⟨hjoined.of_append_right.of_append_left, fun line hline => hpieces line
    (List.mem_append_right _ (List.mem_append_left _ hline))⟩

/-- Groups of lines with the same content and the same lines are the same. -/
theorem map_bare_of_shown {gs others : List (List Token)} (hg : ∀ g ∈ gs, EndsLine g)
    (ho : ∀ g ∈ others, EndsLine g)
    (h : gs.map (showTokens false) = others.map (showTokens false))
    (hlines : (gs.flatMap splitLines).map (·.map Token.bare) =
      (others.flatMap splitLines).map (·.map Token.bare)) :
    gs.map (·.map Token.bare) = others.map (·.map Token.bare) := by
  have hcounts {gs : List (List Token)} (hg : ∀ g ∈ gs, EndsLine g) :
      (gs.map fun g => (splitLines g).map (·.map Token.bare)).map List.length =
        (gs.map (showTokens false)).map fun ts => (splitLines ts).length := by
    rw [List.map_map, List.map_map]
    refine List.map_congr_left fun g hmem => ?_
    rw [Function.comp_apply, Function.comp_apply, (hg g hmem).splitLines, List.length_map,
      List.length_map]
  have hflat (gs : List (List Token)) :
      (gs.map fun g => (splitLines g).map (·.map Token.bare)).flatten =
        (gs.flatMap splitLines).map (·.map Token.bare) := by
    rw [← List.flatMap_def, List.map_flatMap]
  have hsplit : (gs.map fun g => (splitLines g).map (·.map Token.bare)) =
      others.map fun g => (splitLines g).map (·.map Token.bare) :=
    List.eq_iff_flatten_eq.2 ⟨by rw [hflat, hflat, hlines], by rw [hcounts hg, hcounts ho, h]⟩
  refine map_congr_of_map (fun x y hxy => ?_) hsplit
  have hflatten := congrArg List.flatten hxy
  rwa [← List.map_flatten, ← List.map_flatten, flatten_splitLines, flatten_splitLines] at hflatten

/-- A section is made of the tokens that it is read of. -/
theorem tokenLists_markedSection (p : Option (List Token) × List (List Token)) :
    tokenLists (markedSection p).statements = p.1.toList ++ p.2 := by
  rw [markedSection, tokenLists_markOwned_section, tokenLists_buildSection]

/-- A section has the lines that it is read of. -/
theorem lines_markedSection (p : Option (List Token) × List (List Token)) :
    (markedSection p).lines = (p.1.toList ++ p.2).flatMap splitLines := by
  rw [Section.lines, ← tokenLists_markedSection, tokenLists, List.flatMap_map]

/-- Parts show alike if both or none have a header, and all their groups show alike. -/
theorem viewPart_eq_iff {α β : Type} {f : α → β} {p q : Option α × List α} :
    viewPart f p = viewPart f q ↔ p.1.isSome = q.1.isSome ∧
      (p.1.toList ++ p.2).map f = (q.1.toList ++ q.2).map f := by
  obtain ⟨_ | x, xs⟩ := p <;> obtain ⟨_ | y, ys⟩ := q <;> simp [viewPart]

variable {p q : Option (List Token) × List (List Token)}

/-- Each group that a section is read of ends a line. -/
theorem endsLine_of_markedSection (hp : (parse source).errors = [])
    (hs : markedSection p ∈ (parse source).sections) : ∀ g ∈ p.1.toList ++ p.2, EndsLine g := by
  intro g hg
  rw [← tokenLists_markedSection] at hg
  obtain ⟨s, hmem, rfl⟩ := List.mem_map.1 hg
  exact ((sound_parse hp).laid s (List.mem_flatMap.2 ⟨_, hs, hmem⟩)).endsLine

/-- Sections of fair sources with the same content and the same text hold the same tokens. -/
theorem viewPart_of_render (hp : (parse source).errors = []) (hf : (parse source).IsFair)
    (ho : (parse other).errors = []) (hfo : (parse other).IsFair)
    (hs : markedSection p ∈ (parse source).sections)
    (hso : markedSection q ∈ (parse other).sections)
    (h : viewPart (showTokens false) p = viewPart (showTokens false) q)
    (ht : (markedSection p).render = (markedSection q).render) :
    viewPart (showTokens true) p = viewPart (showTokens true) q := by
  obtain ⟨hsome, hgroups⟩ := viewPart_eq_iff.1 h
  have hlines := (readsBack_section hp hf hs).map_bare (readsBack_section ho hfo hso)
    (by rw [Section.chars_lines, Section.chars_lines, ht])
  rw [lines_markedSection, lines_markedSection] at hlines
  have hbare : showTokens true = List.map Token.bare := funext showTokens_true
  rw [viewPart_eq_iff, hbare]
  exact ⟨hsome, map_bare_of_shown (endsLine_of_markedSection hp hs)
    (endsLine_of_markedSection ho hso) hgroups hlines⟩

/-! ## Models of sources -/

/-- What follows for pairs of elements of two lists that some of the elements agree on more. -/
theorem map_congr_of_filter {α β γ δ : Type} {m : α → β} {c : α → Bool} {r : α → γ} {g : α → δ}
    (hc : ∀ x y, m x = m y → c x = c y) {xs ys : List α} (hm : xs.map m = ys.map m)
    (hr : (xs.filter c).map r = (ys.filter c).map r)
    (hg : ∀ x ∈ xs, ∀ y ∈ ys, m x = m y → (c x = true → r x = r y) → g x = g y) :
    xs.map g = ys.map g := by
  induction xs generalizing ys with
  | nil =>
    rw [List.map_nil] at hm
    rw [List.map_eq_nil_iff.1 hm.symm]
  | cons x xs ih =>
    cases ys with
    | nil => cases hm
    | cons y ys =>
      obtain ⟨hxy, hm⟩ := List.cons_eq_cons.1 hm
      have htail : (xs.filter c).map r = (ys.filter c).map r ∧ (c x = true → r x = r y) := by
        rw [List.filter_cons, List.filter_cons, ← hc x y hxy] at hr
        cases hcx : c x with
        | false =>
          rw [hcx, if_neg Bool.false_ne_true, if_neg Bool.false_ne_true] at hr
          exact ⟨hr, fun h => absurd h Bool.false_ne_true⟩
        | true =>
          rw [hcx, if_pos rfl, if_pos rfl] at hr
          obtain ⟨hhead, htail⟩ := List.cons_eq_cons.1 hr
          exact ⟨htail, fun _ => hhead⟩
      have hrest := ih hm htail.1 fun a ha b hb =>
        hg a (List.mem_cons_of_mem _ ha) b (List.mem_cons_of_mem _ hb)
      rw [List.map_cons, List.map_cons, hg x List.mem_cons_self y List.mem_cons_self hxy htail.2,
        hrest]

/-- A section of a source without defects is of a known kind. -/
theorem kind_ne_invalid {s : Section} (hp : (parse source).errors = [])
    (hs : s ∈ (parse source).sections) : s.kind ≠ .invalid :=
  ((sound_parse hp).sections s hs).kind_ne_invalid

/-- **Reading looks at no gaps where lines are laid out:** fair sources with the same content, and
the same text in sections of comments, are read as models that show alike. -/
theorem view_parse (hp : (parse source).errors = []) (hf : (parse source).IsFair)
    (ho : (parse other).errors = []) (hfo : (parse other).IsFair)
    (h : (tokenize source).map lineContent = (tokenize other).map lineContent)
    (ht : ((parse source).sections.filter (·.kind = .comments)).map Section.render =
      ((parse other).sections.filter (·.kind = .comments)).map Section.render) :
    (parse source).view contentView = (parse other).view contentView := by
  have hshown := map_showTokens_of_content h
  have hsections (source : String) : (parse source).sections =
      (sectionParts (tokenize source)).map markedSection := parseTokens_sections _
  have hview (p : Option (List Token) × List (List Token)) :
      (markedSection p).view contentView = (markedSection p).view fun _ =>
        Statement.shown !(kindOfHeader p.1).isLaidOut := by
    rw [← kind_markedSection]
    rfl
  have hparts : (sectionParts (tokenize source)).map (fun p => (markedSection p).view contentView) =
      (sectionParts (tokenize other)).map fun p => (markedSection p).view contentView := by
    rw [hsections, hsections, List.filter_map, List.filter_map, List.map_map, List.map_map] at ht
    refine map_congr_of_filter (fun p q hpq => ?_) (sectionParts_of_shown hshown) ht
      fun p hmem q hmemq hpq htext => ?_
    · rw [Function.comp_apply, Function.comp_apply, kind_markedSection, kind_markedSection,
        kindOfHeader_shown (congrArg Prod.fst hpq)]
    · have hkind := kindOfHeader_shown (congrArg Prod.fst hpq)
      have hs : markedSection p ∈ (parse source).sections := hsections source ▸
        List.mem_map_of_mem hmem
      have hso : markedSection q ∈ (parse other).sections := hsections other ▸
        List.mem_map_of_mem hmemq
      rw [hview, hview, ← hkind]
      cases hlaid : (kindOfHeader p.1).isLaidOut with
      | true => exact view_markedSection hpq
      | false =>
        have hcomments : (markedSection p).kind = .comments := by
          have hne := kind_ne_invalid hp hs
          rw [kind_markedSection] at hne ⊢
          simpa [SectionKind.isLaidOut, hne] using hlaid
        exact view_markedSection (viewPart_of_render hp hf ho hfo hs hso hpq
          (htext (by simpa using hcomments)))
  have hnewline : (parse source).newline = (parse other).newline := by
    have hdominant {source : String} (hp : (parse source).errors = []) :=
      @dominantNewline_showTokens false _ (groups_of_clean hp).1
    exact (hdominant hp).symm.trans ((congrArg dominantNewline hshown).trans (hdominant ho))
  rw [File.view, File.view, hnewline, hsections, hsections, List.map_map, List.map_map]
  exact congrArg (fun ss => (⟨.synthetic, _, [], ss⟩ : File)) hparts

end

/-! ## What is written of a source -/

section
variable {source other : String} {d : Document} {config : FormatConfig}

/-- A source without defects is formatted to the text of its model. -/
theorem toOption_formatSource (hp : (parse source).errors = []) :
    (formatSource source config Pass.all).1.toOption.map (·.text) =
      (formatFile (parse source) config Pass.all).file.renderStrict.toOption := by
  rw [formatSource_of_errors hp]
  cases (formatFile (parse source) config Pass.all).file.renderStrict <;> rfl

/-- A source without defects is read as an orderly file. -/
theorem orderly_parse (hp : (parse source).errors = []) : (parse source).IsOrderly :=
  ⟨sound_parse hp, (parse_sections source).1⟩

/-- Nothing is written of a source with a line break in a comment. -/
theorem formatSource_of_broken (hp : (parse source).errors = []) (hc : config.IsValid)
    (hb : ¬ ∀ c ∈ (parse source).comments, isUnbroken c.toList = true) :
    (formatSource source config Pass.all).1.toOption.map (·.text) = none := by
  rw [toOption_formatSource hp, file_formatFile hp]
  cases hr : (runPasses config (parse source) _).renderStrict with
  | error failure => rfl
  | ok text =>
    refine absurd ?_ hb
    exact unbroken_runPasses hc (fun p hp => (List.mem_filter.1 hp).1) (orderly_parse hp)
      (File.unbroken_comments (renderStrict_eq_ok hr).1)

/-- **What is written of a source does not depend on its gaps.**  Two sources are read without a
defect, the first holds no directive, and line by line they have the same tokens but for the gaps;
their sections of comments, among them what stands in front of all headers, have the same texts.
Then the formatter writes the same text of both, or of none of them, if the run on the first applies
the pass that lays out the gaps. -/
theorem formatSource_of_content (hp : (parse source).errors = []) (ho : (parse other).errors = [])
    (hs : ∀ s ∈ (parse source).statements, s.directive? = none)
    (h : (tokenize source).map lineContent = (tokenize other).map lineContent)
    (ht : ((parse source).sections.filter (·.kind = .comments)).map Section.render =
      ((parse other).sections.filter (·.kind = .comments)).map Section.render)
    (hc : FormatConfig.read d = .ok config)
    (hrun : Gaps.pass.name ∈ (formatFile (parse source) config Pass.all).applied) :
    (formatSource source config Pass.all).1.toOption.map (·.text) =
      (formatSource other config Pass.all).1.toOption.map (·.text) := by
  have hvalid := FormatConfig.isValid_of_read hc
  have hcomments := comments_of_content h
  by_cases hb : ∀ c ∈ (parse source).comments, isUnbroken c.toList = true
  · have hf := fair_parse hp hb
    have hfo := fair_parse ho (hcomments ▸ hb)
    have hview := view_formatFile hvalid hf hfo (parse_sections source).1 (parse_sections other).1
      hp ho hs (view_parse hp hf ho hfo h ht) hrun
    rw [toOption_formatSource hp, toOption_formatSource ho]
    exact renderStrict_of_view (fair_formatFile hvalid hf hp) (fair_formatFile hvalid hfo ho) hview
  · rw [formatSource_of_broken hp hvalid hb, formatSource_of_broken ho hvalid (hcomments ▸ hb)]

set_option maxRecDepth 100000 in
/-- Gaps of two spaces and tabs are laid out alike. -/
theorem formatSource_of_tabs :
    let source := "# top  \n*** Test Cases ***\nA\n  Log  x   # b\n  ...   y\n"
    let other := "# top  \n*** Test Cases ***  \nA\n\tLog\tx  # b  \n    ...\ty\n"
    (parse source).errors = [] ∧ (parse other).errors = [] ∧
      (∀ s ∈ (parse source).statements, s.directive? = none) ∧
      (tokenize source).map lineContent = (tokenize other).map lineContent ∧
      ((parse source).sections.filter (·.kind = .comments)).map Section.render =
        ((parse other).sections.filter (·.kind = .comments)).map Section.render ∧
      FormatConfig.read (.mapping []) = .ok .default ∧
      Gaps.pass.name ∈ (formatFile (parse source) .default Pass.all).applied ∧
      (formatSource source .default Pass.all).1.toOption.map (·.text) =
        (formatSource other .default Pass.all).1.toOption.map (·.text) := by
  intro source other
  have hc : FormatConfig.read (.mapping []) = .ok .default := eq_ok_of_toOption (by decide +kernel)
  obtain ⟨hp, ho, hs, h, ht, hrun⟩ : (parse source).errors = [] ∧ (parse other).errors = [] ∧
      (∀ s ∈ (parse source).statements, s.directive? = none) ∧
      (tokenize source).map lineContent = (tokenize other).map lineContent ∧
      ((parse source).sections.filter (·.kind = .comments)).map Section.render =
        ((parse other).sections.filter (·.kind = .comments)).map Section.render ∧
      Gaps.pass.name ∈ (formatFile (parse source) .default Pass.all).applied := by
    decide +kernel
  exact ⟨hp, ho, hs, h, ht, hc, hrun, formatSource_of_content hp ho hs h ht hc hrun⟩

set_option maxRecDepth 100000 in
/-- An indentation that is too long to be built leaves the gaps as they are, and they show in the
texts. -/
theorem formatSource_of_failed_layout :
    let source := "*** Test Cases ***\nA\n    Log    x\n"
    let other := "*** Test Cases ***\nA\n  Log    x\n"
    let config := { FormatConfig.default with indent := 600000000 }
    (parse source).errors = [] ∧ (parse other).errors = [] ∧
      (∀ s ∈ (parse source).statements ++ (parse other).statements, s.directive? = none) ∧
      (tokenize source).map lineContent = (tokenize other).map lineContent ∧
      (∀ s ∈ (parse source).sections ++ (parse other).sections, s.kind ≠ .comments) ∧
      FormatConfig.read (.mapping [("indent", .number 600000000)]) = .ok config ∧
      config.runs Gaps.pass.info = true ∧
      (formatSource source config Pass.all).1 = .ok ⟨source, false, none⟩ ∧
      (formatSource other config Pass.all).1 = .ok ⟨other, false, none⟩ := by
  intro source other config
  have hc : FormatConfig.read (.mapping [("indent", .number 600000000)]) = .ok config :=
    eq_ok_of_toOption (by decide +kernel)
  obtain ⟨hp, ho, hs, h, ht, hruns, hf, hother⟩ :
      (parse source).errors = [] ∧ (parse other).errors = [] ∧
        (∀ s ∈ (parse source).statements ++ (parse other).statements, s.directive? = none) ∧
        (tokenize source).map lineContent = (tokenize other).map lineContent ∧
        (∀ s ∈ (parse source).sections ++ (parse other).sections, s.kind ≠ .comments) ∧
        config.runs Gaps.pass.info = true ∧
        (formatSource source config Pass.all).1.toOption = some ⟨source, false, none⟩ ∧
        (formatSource other config Pass.all).1.toOption = some ⟨other, false, none⟩ := by
    decide +kernel
  exact ⟨hp, ho, hs, h, ht, hc, hruns, eq_ok_of_toOption hf, eq_ok_of_toOption hother⟩

end

end RobotSuite
