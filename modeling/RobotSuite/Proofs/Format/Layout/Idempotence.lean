/-
# Lines that are laid out stay

Laying lines out changes gaps, splits statements and puts comments together.  The type of a statement
stays, and so do its data and its last line ending, and an empty line but for its gap
(`Statement.gist`).  So a file behind the passes that lay lines out is the same tree of statements
with the same gists as in front of them (`Gaps.keepsGists`, `Split.keepsGists`,
`Columns.keepsGists`).

Where these passes have come to the end, nothing is left for them to do: gaps as configured stay
(`Gaps.view_apply_again`), lines that have been split are not split again, calls that stand in columns
stand in them, and neither of these disturbs what another pass has done.  So what they make of a model
that shows like the one that they have left, gaps aside, shows like that one again, gaps included
(`layout_again`).
-/

import RobotSuite.Proofs.Format.Columns.Bodies
import RobotSuite.Proofs.Format.Gaps.Idempotence
import RobotSuite.Proofs.Format.LineEndings
import RobotSuite.Proofs.Format.RespacedRuns
import RobotSuite.Proofs.Transform.Views

namespace RobotSuite

/-! ## Gists -/

/-- What is left of a statement when its layout is forgotten: its type, its data and its last line
ending, and of an empty line, whose gap may show, what shows. -/
def Statement.gist (gaps : Bool) (s : Statement) : Statement :=
  if s.type = .emptyLine then (s.shown gaps).markless
  else ⟨s.type, .synthetic, (dataTexts s.tokens).map (Token.create .argument) ++
    (eolTexts s.tokens).getLast?.toList.map (Token.create .eol), false, none, none⟩

/-- The gists of the statements of each section, by whether gaps of empty lines show. -/
def gistView (gaps : SectionKind → Bool) : View := fun kind => Statement.gist (gaps kind)

namespace Statement
variable {gaps : Bool} {s r : Statement}

/-- The gist of a statement keeps its type. -/
@[simp] theorem gist_type (gaps : Bool) (s : Statement) : (s.gist gaps).type = s.type := by
  rw [gist]
  split <;> rfl

/-- The gist of an empty line keeps its line ending and drops its mark. -/
theorem gist_of_emptyLine (h : s.type = .emptyLine) : s.gist gaps = (s.shown gaps).markless :=
  if_pos h

/-- Statements with the same data and the same last line ending have the same gist. -/
theorem gist_congr (ht : r.type = s.type) (he : s.type ≠ .emptyLine)
    (hd : dataTexts r.tokens = dataTexts s.tokens)
    (hl : (eolTexts r.tokens).getLast? = (eolTexts s.tokens).getLast?) :
    r.gist gaps = s.gist gaps := by
  rw [gist, gist, ht, if_neg he, if_neg he, hd, hl]

/-- Shown tokens have the same data cells. -/
theorem dataTexts_showTokens (gaps : Bool) (ts : List Token) :
    dataTexts (showTokens gaps ts) = dataTexts ts := by
  rw [dataTexts, dataTokens_showTokens, List.map_map]
  rfl

/-- Shown tokens have the same line endings. -/
theorem eolTexts_showTokens (gaps : Bool) (ts : List Token) :
    eolTexts (showTokens gaps ts) = eolTexts ts := by
  rw [eolTexts, filter_showTokens (fun _ => rfl) (fun t h => ?_), List.map_map, eolTexts]
  · rfl
  · have hk : t.kind = .separator := by simpa [Token.isSeparator] using h
    simp [Token.isEol, hk]

/-- Showing twice keeps the gaps only if both showings do. -/
theorem showTokens_showTokens (a b : Bool) (ts : List Token) :
    showTokens a (showTokens b ts) = showTokens (a && b) ts := by
  rw [showTokens, showTokens, showTokens, List.filter_map, List.map_map, List.filter_filter]
  refine congrArg₂ List.map rfl (List.filter_congr fun t _ => ?_)
  show ((a || !t.isSeparator) && (b || !t.isSeparator)) = _
  cases a <;> cases b <;> cases t.isSeparator <;> rfl

/-- The gist of a statement is that of what shows of it. -/
theorem gist_shown (h : gaps = true → b = true) (s : Statement) :
    (s.shown b).gist gaps = s.gist gaps := by
  by_cases he : s.type = .emptyLine
  · have hgaps : (gaps && b) = gaps := by cases gaps <;> simp_all
    rw [gist_of_emptyLine he, gist_of_emptyLine (s := s.shown b) he]
    exact congrArg (Statement.mk s.type .synthetic · false none none)
      ((showTokens_showTokens gaps b s.tokens).trans (by rw [hgaps, shown]))
  · exact gist_congr rfl he (dataTexts_showTokens b s.tokens)
      (congrArg List.getLast? (eolTexts_showTokens b s.tokens))

/-- The plain picture has the same gist. -/
theorem gist_plain (s : Statement) : s.plain.gist gaps = s.gist gaps :=
  gist_shown (fun _ => rfl) s

/-- Statements with the same gist have the same data. -/
theorem dataTexts_of_gist (h : r.gist gaps = s.gist gaps) (hs : s.type ≠ .emptyLine) :
    dataTexts r.tokens = dataTexts s.tokens := by
  have ht : r.type = s.type := by simpa using congrArg Statement.type h
  have htokens := congrArg (fun x => dataTexts x.tokens) h
  have hdata (texts : List String) (last : Option String) :
      dataTexts (texts.map (Token.create .argument) ++
        last.toList.map (Token.create .eol)) = texts := by
    rw [dataTexts_append]
    cases last <;> simp [dataTexts, dataTokens, Token.isData, TokenKind.isData, Token.create,
      List.filter_map, Function.comp_def]
  rw [gist, gist, ht, if_neg hs, if_neg hs] at htokens
  rwa [hdata, hdata] at htokens

end Statement

/-! ## Passes that lay lines out -/

/-- A statement whose lines are laid out with other gaps has the same gist. -/
theorem gist_of_respaced {gaps header : Bool} {f : List Token → List Token} {s : Statement}
    (he : s.type ≠ .emptyLine) (hl : Laid header (splitLines s.tokens))
    (hf : ∀ l ∈ splitLines s.tokens, Respaced l (f l)) :
    (s.withTokens ((splitLines s.tokens).flatMap f)).gist gaps = s.gist gaps :=
  Statement.gist_congr rfl he (hl.respaced hf).2.1
    (congrArg List.getLast? (eolTexts_of_rewritten (rewritten_of_respaced hl hf)))

/-- Of an empty line nothing but its line ending shows without gaps. -/
theorem showTokens_of_blank {ts : List Token} (hw : Written none ts) (hc : commentTexts ts = []) :
    showTokens false ts = [(endingOf ts).bare] := by
  have hnone : ∀ t ∈ ts, t.isSeparator = !t.isEol := by
    intro t ht
    have hcomment : t.kind ≠ .comment := by
      intro hk
      have hmem : t ∈ commentTokens ts := List.mem_filter.2 ⟨ht, by simp [Token.isComment, hk]⟩
      rw [commentTexts, List.map_eq_nil_iff] at hc
      simp [hc] at hmem
    rcases hw.kind_of_none t ht with h | h | h
    · simp [Token.isSeparator, Token.isEol, h]
    · exact absurd h hcomment
    · simp [Token.isSeparator, Token.isEol, h]
  have hone := hw.eolTexts
  obtain @⟨front, e, -, he⟩ := hw
  have heol : e.isEol = true := by simp [Token.isEol, he.kind]
  rw [eolTexts_concat he.kind] at hone
  have hfront : front.filter (·.isEol) = [] := by
    have := congrArg List.length hone
    simpa [eolTexts] using this
  rw [showTokens_concat heol, endingOf_concat he.kind, showTokens]
  refine congrArg (· ++ [e.bare]) (List.map_eq_nil_iff.2 ?_)
  rw [← hfront]
  refine List.filter_congr fun t ht => ?_
  rw [hnone t (List.mem_append_left _ ht)]
  simp

namespace Gaps
variable {setup : PassSetup} {kind : SectionKind} {sc : Scope} {n : Nat} {s new : Statement}

/-- The pass replaces statements only where it lays lines out. -/
theorem isLaidOut_of_put (h : (transform setup).statement sc n s = .put new) :
    isLaidOut sc = true := by
  cases hoff : isLaidOut sc with
  | true => rfl
  | false =>
    have hkeep : (transform setup).statement sc n s = .keep := by
      dsimp only [transform]
      rw [space, hoff]
      simp
    rw [hkeep] at h
    cases h

/-- Respacing a statement keeps its gist without gaps. -/
theorem gist_of_spaced (hv : setup.IsValid) {tokens : List Token} {header : Bool}
    (hl : Laid header (splitLines s.tokens))
    (he : s.type = .emptyLine → dataTexts s.tokens = [] ∧ commentTexts s.tokens = [])
    (hh : header = true → s.type ≠ .emptyLine ∧ sc.depth s = 0)
    (h : spaced setup sc s = .ok tokens) :
    (s.withTokens tokens).gist false = s.gist false := by
  by_cases hempty : s.type = .emptyLine
  · obtain ⟨hd, hc⟩ := he hempty
    obtain rfl : header = false := by
      cases header with
      | false => rfl
      | true => exact absurd hempty (hh rfl).1
    obtain ⟨-, hw⟩ := hl.plain_of_dataTexts hd
    obtain rfl : [endingOf s.tokens] = tokens := by
      rw [spaced, if_pos hempty] at h
      exact Except.ok.inj h
    have hshown := showTokens_of_blank hw hc
    have hending : (endingOf s.tokens).isEol = true := by
      obtain ⟨front, e, htokens, hbreak⟩ := hl.getLast?
      rw [htokens, endingOf_concat hbreak.kind, Token.isEol, hbreak.kind]
      rfl
    rw [Statement.gist_of_emptyLine hempty,
      Statement.gist_of_emptyLine (s := s.withTokens [endingOf s.tokens]) hempty]
    refine congrArg (Statement.mk s.type .synthetic · false none none) ?_
    exact (showTokens_concat hending []).trans hshown.symm
  · obtain ⟨f, rfl, hf⟩ := spaced_eq_ok hv hl he hh h
    exact gist_of_respaced hempty hl hf

/-- **Laying gaps out changes no gist.** -/
theorem keepsGists (hv : setup.IsValid) :
    (transform setup).KeepsView (Statement.IsQuiet (IsFit Statement.IsSound))
      (Statement.IsQuiet (IsFit Statement.IsHeader)) (gistView fun kind => !kind.isLaidOut) where
  toKeepsInside := (keeps_quiet hv).toKeepsInside
  seen {kind sc n s new} h hk hs := by
    have hlaidOut := isLaidOut_of_put h
    rw [isLaidOut_eq hk] at hlaidOut
    obtain ⟨tokens, htokens, rfl⟩ := exists_spaced h
    rw [gistView, hlaidOut, Bool.not_true]
    rcases hs with hs | ⟨hlevels, hs⟩
    · exact gist_of_spaced hv hs.holds.1.laid hs.holds.1.texts_of_emptyLine nofun htokens
    · exact gist_of_spaced hv hs.holds.1.laid
        (fun he => absurd he (depth_of_header hs.holds.1 hlevels).1)
        (fun _ => depth_of_header hs.holds.1 hlevels) htokens
  bodySeen h := by cases h
  noSection := rfl
  noFile := rfl

end Gaps

namespace Split
variable {setup : PassSetup} {kind : SectionKind} {s new : Statement}

/-- A statement that is split has the same gist. -/
theorem gist_of_split (hv : setup.IsValid) (h : s.IsSound kind) (hsplit : split setup s = some new)
    (gaps : Bool) : new.gist gaps = s.gist gaps := by
  obtain ⟨size, everyArg, hsize, rfl⟩ := split_eq_some hsplit
  have hempty : s.type ≠ .emptyLine := by
    intro he
    simp [headSize, he] at hsize
  refine Statement.gist_congr rfl hempty (texts_splitTokens everyArg hv h hsize).1 ?_
  obtain ⟨row, more, hrows, -⟩ := rows_spec h hsize (indentOf s.tokens) setup.config.separator
    setup.config.lineLength everyArg
  obtain ⟨front, hfront⟩ : ∃ front, splitTokens setup everyArg size s.tokens =
      front ++ [s.tokens.getLast?.getD noEnding] := by
    rw [splitTokens, hrows]
    exact composeRows_concat (List.cons_ne_nil _ _)
  obtain ⟨back, e, htokens, he⟩ := h.laid.getLast?
  have hlast : s.tokens.getLast?.getD noEnding = e := by
    rw [htokens, List.getLast?_concat, Option.getD_some]
  show (eolTexts (splitTokens setup everyArg size s.tokens)).getLast? = _
  rw [hfront, hlast, eolTexts_concat he.kind, htokens, eolTexts_concat he.kind,
    List.getLast?_concat, List.getLast?_concat]

/-- **Splitting long lines changes no gist.** -/
theorem keepsGists (hv : setup.IsValid) (gaps : SectionKind → Bool) :
    (transform setup).KeepsView (Statement.IsQuiet Statement.IsSound)
      (Statement.IsQuiet Statement.IsHeader) (gistView gaps) where
  toKeepsInside := (showsPlain hv).keeps.toKeepsInside
  seen h _ hs := by
    have hsplit := exists_split h
    rcases hs with hs | ⟨-, hs⟩
    · exact gist_of_split hv hs.holds hsplit _
    · obtain ⟨size, everyArg, hsize, -⟩ := split_eq_some hsplit
      simp [headSize, hs.holds.type] at hsize
  bodySeen h := by cases h
  noSection := rfl
  noFile := rfl

end Split

namespace Columns
variable {setup : PassSetup}

/-- What is seen of a file stays if it stays of each call that is aligned. -/
theorem keepsView_of_calls {v : View} (hv : setup.IsValid)
    (h : ∀ {kind : SectionKind} {s : Statement} (widths : List Nat), s.IsSound kind → s.IsCall →
      v kind (s.withTokens (aligned setup.config.separator widths s)) = v kind s) :
    (transform setup).KeepsView (Statement.IsQuiet Statement.IsSound)
      (Statement.IsQuiet Statement.IsHeader) v where
  toKeepsInside := (showsPlain hv).keeps.toKeepsInside
  seen h := by cases h
  bodySeen {kind place header items new} hput _ hi := by
    have hnew : alignBody setup.config.lineLength setup.config.separator items = some new :=
      Decision.ofOption_eq_put hput
    have hunmark := unmark_alignBody setup.config.lineLength setup.config.separator items
    rw [hnew, Option.getD_some] at hunmark
    rw [hunmark, viewBody_eq_map, viewBody_eq_map, unmark, List.map_map, List.map_map]
    refine List.map_congr_left fun item hmem => ?_
    have hitem := (bodyHolds_iff.1 hi) item.1 (List.mem_map_of_mem hmem)
    rcases alignItem_cases setup.config.separator (settle setup.config.lineLength
      setup.config.separator (items.map candidate?)) item with heq | ⟨s, rfl, hcall, -, heq⟩
    · exact congrArg (BodyItem.view (v kind)) heq
    · rw [BodyItem.Holds] at hitem
      refine (congrArg (BodyItem.view (v kind)) heq).trans ?_
      exact congrArg BodyItem.statement (h _ hitem.2.holds hcall)
  noSection := rfl
  noFile := rfl

/-- **Aligning calls changes no gist.** -/
theorem keepsGists (hv : setup.IsValid) (gaps : SectionKind → Bool) :
    (transform setup).KeepsView (Statement.IsQuiet Statement.IsSound)
      (Statement.IsQuiet Statement.IsHeader) (gistView gaps) :=
  keepsView_of_calls hv fun widths hs hcall => by
    obtain ⟨f, hf, hlines⟩ := respaced_aligned hs hv.separator widths
    rw [hf]
    exact gist_of_respaced (by simp [hcall.type]) hs.laid hlines

end Columns

/-! ## Gaps -/

namespace Gaps
variable {setup : PassSetup} {f : File}

/-- Scopes of like sections lay lines out alike. -/
theorem isLaidOut_like {sc sc' : Scope} (h : sc.Like sc') : isLaidOut sc' = isLaidOut sc := by
  have hkind := congrArg (Option.any fun kind => kind != .comments && kind != .invalid) h.section?
  rwa [Option.any_map, Option.any_map] at hkind

/-- **Gaps as configured stay.** -/
theorem view_apply_again (hv : setup.IsValid) (hf : f.IsFair) (hs : f.IsSilent)
    (h : Spaced setup f) : (pass.apply setup f).tree.view plainView = f.view plainView :=
  File.view_of_shape (File.shape_of_view ((keepsGists hv).run (fit_sections hf hs)))
    (congrArg (List.map Statement.plain) (statements_of_spaced h).1)

end Gaps

/-! ## Long lines -/

namespace Split
variable {setup setup' : PassSetup} {f : File}

/-- The pass keeps the shape of the tree. -/
theorem shape_apply (hv : setup.IsValid) (hf : f.IsQuiet) :
    ((pass.apply setup f).tree.view fun _ => Statement.blank) =
      f.view fun _ => Statement.blank :=
  File.shape_of_view ((keepsGists hv fun _ => false).run hf)

/-- Whether a statement stays when its file is split. -/
def Rests (setup : PassSetup) (s : Statement) : Prop :=
  (Decision.ofOption (split setup s)).outcome s (replacementIssues s) = s

/-- A statement that is not split rests under the pass. -/
theorem rests_of_eq_none {s : Statement} (h : split setup s = none) : Rests setup s := by
  rw [Rests, h]
  rfl

/-- **Statements of a file that has been split** stay. -/
theorem rests_apply (hv : setup.IsValid) (hf : f.IsSound) (hs : f.IsSilent) :
    ∀ s ∈ (pass.apply setup f).tree.statements, Rests setup s := by
  intro s hmem
  rw [statements_apply] at hmem
  obtain ⟨m, hm, rfl⟩ := List.mem_map.1 hmem
  have hmade : madeOf setup m = _ := Pass.made_of_silent hs (fun _ => split setup) m hm
  rcases madeOf_cases hf m hm with heq | ⟨kind, hsound, hsplit⟩
  · rw [heq] at hmade ⊢
    exact hmade.symm
  · exact rests_of_eq_none (split_again hv hsound hsplit)

/-- **A file in which statements stay** is not split. -/
theorem view_apply_of_rests (hv : setup.IsValid) (hf : f.IsQuiet) (hs : f.IsSilent)
    (h : ∀ s ∈ f.statements, Rests setup s) :
    (pass.apply setup f).tree.view plainView = f.view plainView := by
  refine File.view_of_shape (shape_apply hv hf) (congrArg (List.map Statement.plain) ?_)
  rw [statements_apply]
  refine Eq.trans (List.map_congr_left fun m hm => ?_) (File.map_fst_meetings f)
  exact (Pass.made_of_silent hs (fun _ => split setup) m hm).trans
    (h m.1 (File.map_fst_meetings f ▸ List.mem_map_of_mem hm))

/-- **A file with gaps as configured** has them when it is split. -/
theorem spaced_apply (hc : setup'.config = setup.config) (hv : setup.IsValid)
    (hv' : setup'.IsValid) (hf : f.IsFair) (h : Gaps.Spaced setup f) :
    Gaps.Spaced setup (pass.apply setup' f).tree := by
  have hsame : (pass.apply setup' f).tree.Matches Statement.Alike (pass.apply setup' f).tree :=
    File.matches_of_view rfl
  have hmet := forall₂_meetings_again hsame hf.sound
  intro n hn hlaid
  obtain ⟨m, hm, halike, hlike⟩ := exists_of_mem_forall₂ hmet hn
  have hmem : m.1 ∈ f.statements := File.map_fst_meetings f ▸ List.mem_map_of_mem hm
  have hlaid' : Gaps.isLaidOut m.2 = true := by rwa [← Gaps.isLaidOut_like hlike]
  rw [hlike.levels]
  refine Gaps.IsSpaced.alike ?_ halike
  rcases madeOf_cases hf.sound m hm with heq | ⟨kind, hsound, hsplit⟩
  · rw [heq]
    exact h m hm hlaid'
  · exact (h m hm hlaid').split hc hv hv' hsound (hf.flaws m.1 hmem) hsplit

end Split

/-! ## Columns -/

section
variable {k : Option TokenKind} {header : Bool} {line ts us : List Token}

/-- What a gap is not. -/
theorem Token.sort_of_gap {t : Token} (h : t.kind = .separator) : t.isSeparator = true ∧
    (t.isData || t.isContinuation) = false ∧ t.isComment = false := by
  simp [isSeparator, isData, TokenKind.isData, isContinuation, isComment, h]

/-- What a comment is not. -/
theorem Token.sort_of_comment {t : Token} (h : t.kind = .comment) : t.isSeparator = false ∧
    (t.isData || t.isContinuation) = false ∧ t.isComment = true := by
  simp [isSeparator, isData, TokenKind.isData, isContinuation, isComment, h]

/-- What a cell is not. -/
theorem Token.sort_of_cell {t : Token} (h : t.kind = .sectionHeader ∨ t.kind = .continuation ∨
      t.kind = .name ∨ t.kind = .argument) :
    t.isSeparator = false ∧ (t.isData || t.isContinuation) = true ∧ t.isComment = false := by
  rcases h with h | h | h | h <;>
    simp [isSeparator, isData, TokenKind.isData, isContinuation, isComment, h]

/-- What is behind a cell: cells, and then perhaps a comment. -/
theorem Tail.contents (h : Tail ts) :
    (ts.filter fun t => !t.isSeparator) = cellTokens ts ++ commentTokens ts := by
  induction h with
  | nil => rfl
  | gap hk _ => simp [commentTokens, Token.sort_of_gap hk]
  | remark hk _ hr =>
    cases hr with
    | plain hc _ => simp [commentTokens, Token.sort_of_gap hk, Token.sort_of_comment hc]
    | trailed hc _ hg _ =>
      simp [commentTokens, Token.sort_of_gap hk, Token.sort_of_comment hc, Token.sort_of_gap hg]
  | cell hk _ hc _ _ ih =>
    have hgap := Token.sort_of_gap hk
    have hcell := Token.sort_of_cell (.inr (.inr (.inr hc)))
    simp_all [commentTokens]

/-- What is in a line: cells, and then perhaps a comment. -/
theorem Line.contents (h : Line k ts) :
    (ts.filter fun t => !t.isSeparator) = cellTokens ts ++ commentTokens ts := by
  have hindent {i : List Token} (hi : Indent i) (us : List Token) :
      ((i ++ us).filter fun t => !t.isSeparator) = (us.filter fun t => !t.isSeparator) ∧
        cellTokens (i ++ us) = cellTokens us ∧ commentTokens (i ++ us) = commentTokens us := by
    cases hi with
    | none => exact ⟨rfl, rfl, rfl⟩
    | gap hk _ => simp [commentTokens, Token.sort_of_gap hk]
  cases h with
  | blank hi =>
    obtain ⟨hall, hcells, hcomments⟩ := hindent hi []
    rw [List.append_nil] at hall hcells hcomments
    rw [hall, hcells, hcomments]
    rfl
  | remark hi hr =>
    obtain ⟨hall, hcells, hcomments⟩ := hindent hi _
    rw [hall, hcells, hcomments]
    cases hr with
    | plain hc _ => simp [commentTokens, Token.sort_of_comment hc]
    | trailed hc _ hg _ =>
      simp [commentTokens, Token.sort_of_comment hc, Token.sort_of_gap hg]
  | cells hi _ hlead htail =>
    obtain ⟨hall, hcells, hcomments⟩ := hindent hi _
    have hcell := Token.sort_of_cell hlead.kind
    have htail := htail.contents
    rw [hall, hcells, hcomments]
    simp_all [commentTokens]

/-- **A line without its gaps** is its layout. -/
theorem Written.contents (h : Written k line) : showTokens false line =
    ((LineLayout.ofLine line).cells ++ (LineLayout.ofLine line).comment.toList ++
      [(LineLayout.ofLine line).ending]).map Token.bare := by
  have hcomment : commentTokens line = (line.find? (·.isComment)).toList := by
    have hsingle := h.holdsRemark.single
    rw [← List.head?_filter]
    change commentTokens line = (commentTokens line).head?.toList
    match hcs : commentTokens line, hsingle with
    | [], _ => rfl
    | [c], _ => rfl
  have hline : (line.filter fun t => !t.isSeparator) =
      cellTokens line ++ commentTokens line ++ [endingOf line] := by
    obtain @⟨ts, e, hl, he⟩ := h
    have hend : [e].filter (fun t => !t.isSeparator) = [e] ∧ cellTokens [e] = [] ∧
        commentTokens [e] = [] := by
      simp [commentTokens, Token.isSeparator, Token.isData, TokenKind.isData,
        Token.isContinuation, Token.isComment, he.kind]
    have hcells : cellTokens (ts ++ [e]) = cellTokens ts ++ cellTokens [e] := List.filter_append ..
    rw [List.filter_append, hcells, commentTokens_append, hend.1, hend.2.1, hend.2.2,
      List.append_nil, List.append_nil, hl.contents, endingOf_concat he.kind]
  show (line.filter fun t => false || !t.isSeparator).map Token.bare = _
  simp only [Bool.false_or]
  rw [hline, hcomment]
  rfl

/-- Without gaps, laid tokens are the cells, comments and endings of their lines. -/
theorem Laid.contents (h : Laid header (splitLines ts)) : showTokens false ts =
    (LineLayout.ofTokens ts).flatMap fun l =>
      (l.cells ++ l.comment.toList ++ [l.ending]).map Token.bare := by
  conv_lhs => rw [← flatten_splitLines ts]
  rw [showTokens_flatten, LineLayout.ofTokens, List.flatMap_map, List.flatMap_def]
  congr 1
  refine List.map_congr_left fun line hline => ?_
  obtain ⟨k, hk⟩ := h.written line hline
  exact hk.contents

end

namespace Columns
variable {setup : PassSetup} {f : File}

/-- **Aligning calls changes nothing but gaps** where lines are laid out. -/
theorem keepsLoose (hv : setup.IsValid) :
    (transform setup).KeepsView (Statement.IsQuiet Statement.IsSound)
      (Statement.IsQuiet Statement.IsHeader) looseView :=
  keepsView_of_calls hv fun {kind s} widths hs hcall => by
    have hkind : kind.isLaidOut = true := by
      have hdata := ((readsAs_iff.1 hs.reads).2.2.2 (hs.dataTexts_of_call hcall.type)).1
      rw [hcall.type] at hdata
      cases kind <;> first | rfl | cases hdata
    have hlaid : Laid false (splitLines (aligned setup.config.separator widths s)) :=
      (sound_align hs hv.separator widths).laid
    have hshown : showTokens false (aligned setup.config.separator widths s) =
        showTokens false s.tokens := by
      rw [hlaid.contents, hs.laid.contents]
      exact congrArg (List.flatMap _) (ofTokens_aligned hs hv.separator hcall widths)
    show Statement.markless ((s.withTokens _).shown !kind.isLaidOut) =
      (s.shown !kind.isLaidOut).markless
    rw [hkind, Bool.not_true, Statement.markless, Statement.markless]
    exact congrArg (Statement.mk s.type .synthetic · false none none) hshown

/-- No call that is aligned is too long. -/
theorem rests_apply {setup' : PassSetup} (hc : setup'.config = setup.config) (hv : setup.IsValid)
    (hf : f.IsSound) (hlead : ∀ s ∈ f.sections, leadsBlocks s.body)
    (h : ∀ s ∈ f.statements, Split.Rests setup' s) :
    ∀ s ∈ (pass.apply setup f).tree.statements, Split.Rests setup' s := by
  have hlinear : IsLinear (List.Forall₂ fun s new =>
      Split.Rests setup' s → Split.Rests setup' new) :=
    { refl := fun _ => List.forall₂_same.2 fun _ _ => id
      trans := fun h h' => forall₂_comp h h' fun _ _ _ ha hb hc => hb (ha hc)
      append := fun h h' => List.rel_append h h' }
  have hrelated := relates_of_calls hlinear hv (fun {kind s} widths hs hcall hfits _ => ?_) hf hlead
  · intro s hs
    obtain ⟨r, hr, himp⟩ := exists_of_mem_forall₂ hrelated hs
    exact himp (h r hr)
  · have hshort : Split.isTooLong setup'.config.lineLength
        (s.withTokens (aligned setup.config.separator widths s)) = false := by
      rw [hc, Split.isTooLong, List.any_eq_false]
      intro line hline
      simpa using List.all_eq_true.1 hfits line hline
    refine Split.rests_of_eq_none ?_
    rw [Split.split, hshort]
    cases Split.headSize _ <;> rfl

/-- A statement without its label. -/
def unlabeled (s : Statement) : Statement := { s with label := none }

/-- **Calls in columns stay.** -/
theorem view_apply_again (hv : setup.IsValid) (hf : f.IsFair) (hs : f.IsSilent) :
    (pass.apply setup (pass.apply setup f).tree).tree.view plainView =
      (pass.apply setup f).tree.view plainView := by
  -- labels do not show, and without them the walk changes no call twice
  let u := f.view fun _ => unlabeled
  have hplain : u.view plainView = f.view plainView := File.view_view _ _ f
  have hquiet := hf.sound.quiet hs
  have huquiet : u.IsQuiet := List.forall_mem_map.2 fun s hmem =>
    (hquiet s hmem).view (fun _ _ => rfl) (fun _ _ h => ⟨⟨h.holds.laid, h.holds.reads⟩, h.silent⟩)
      fun _ _ h => ⟨⟨h.holds.type, h.holds.laid, h.holds.opens⟩, h.silent⟩
  have hready : ∀ s ∈ u.sections, s.Holds Statement.IsReady fun _ h => h.label = none :=
    List.forall_mem_map.2 fun s hmem => (Gaps.fit_sections hf hs s hmem).view (fun _ _ => rfl)
      (fun _ _ h => ⟨⟨h.holds.1.laid, h.holds.1.reads⟩, h.holds.2, rfl⟩) fun _ _ _ => rfl
  obtain ⟨ss, hrun, hgo⟩ := run_goes setup.config.lineLength hv.separator hready
  have htree : (pass.apply setup u).tree = { u with sections := ss } := by
    rw [apply_eq, hrun]
    rfl
  have hagain : (pass.apply setup (pass.apply setup u).tree).tree = (pass.apply setup u).tree := by
    rw [htree, apply_eq, run_again setup.config.lineLength hv.separator hgo]
    rfl
  have hview {g : File} (hg : g.IsQuiet) := Pass.view_layout hv hg pass
    (List.mem_cons_of_mem _ List.mem_cons_self)
  have hsame : (pass.apply setup f).tree.view plainView =
      (pass.apply setup u).tree.view plainView := by
    rw [← (hview hquiet).2, ← (hview huquiet).2, hplain]
  rw [← (hview (hview hquiet).1).2, hsame, (hview (hview huquiet).1).2, hagain]

end Columns

/-! ## All layouts -/

/-- A valid model without directives, in which the statements of a section stand in front of its
blocks. -/
structure File.IsCalm (f : File) : Prop extends f.IsFair where
  leads : ∀ s ∈ f.sections, leadsBlocks s.body
  silent : f.IsSilent

namespace Pass

/-- The passes that lay lines out. -/
def layouts : List Pass := [Gaps.pass, Split.pass, Columns.pass]

/-- The layout passes are built in. -/
theorem mem_all_of_layout : ∀ p ∈ layouts, p ∈ all := fun _ hp =>
  List.mem_append_right front hp

end Pass

section
variable {setup : PassSetup} {config : FormatConfig} {f g x y : File}

/-- A quiet file holds no directive. -/
theorem File.IsQuiet.silent (h : f.IsQuiet) : f.IsSilent := fun s hs =>
  (File.statement_of_holds h s hs).elim fun _ h => h.elim (·.silent) (·.silent)

/-- A file is calm behind a pass that lays lines out. -/
theorem File.IsCalm.apply (h : f.IsCalm) (hv : setup.IsValid) {p : Pass} (hp : p ∈ Pass.layouts) :
    (p.apply setup f).tree.IsCalm := by
  have hall := Pass.mem_all_of_layout p hp
  have hquiet := h.sound.quiet h.silent
  have hnew : (p.apply setup f).tree.IsQuiet := by
    rcases List.mem_cons.1 hp with rfl | hp
    · exact fun s hs => ((Gaps.keeps_quiet hv).run (Gaps.fit_sections h.toIsFair h.silent) s hs).imp
        (fun _ _ h => ⟨h.holds.1, h.silent⟩) fun _ _ h => ⟨h.holds.1, h.silent⟩
    · exact (Pass.view_layout hv hquiet p hp).1
  have horderly : f.IsOrderly := ⟨h.sound, h.leads⟩
  exact ⟨h.toIsFair.apply hv hall, (horderly.apply hv hall).leads, hnew.silent⟩

/-- What a pass gets to look at besides a file. -/
abbrev FormatConfig.setupOf (config : FormatConfig) (p : Pass) (f : File) : PassSetup :=
  ⟨config, config.paramsOf p.name, f.newline.text⟩

/-- The file behind a pass, if the pass is switched on. -/
def FormatConfig.after (config : FormatConfig) (p : Pass) (f : File) : File :=
  if config.runs p.info then (p.apply (config.setupOf p f) f).tree else f

/-- The passes that are switched on run one behind the other. -/
theorem runPasses_filter (config : FormatConfig) (f : File) (passes : List Pass) :
    runPasses config f (passes.filter fun p => config.runs p.info) =
      passes.foldl (fun f p => config.after p f) f := by
  induction passes generalizing f with
  | nil => rfl
  | cons p passes ih =>
    rw [List.filter_cons, List.foldl_cons, ← ih, FormatConfig.after]
    split <;> rfl

/-- A pass keeps the newline the file is written with. -/
theorem FormatConfig.newline_after (config : FormatConfig) (p : Pass) (f : File) :
    (config.after p f).newline = f.newline := by
  rw [after]
  split
  · exact p.newline_apply _ f
  · rfl

/-- A layout pass keeps a calm file calm. -/
theorem File.IsCalm.after (h : f.IsCalm) (hc : config.IsValid) {p : Pass} (hp : p ∈ Pass.layouts) :
    (config.after p f).IsCalm := by
  rw [FormatConfig.after]
  split
  · exact h.apply (PassSetup.isValid_of_config hc _ f) hp
  · exact h

/-- Splitting and aligning look at what shows. -/
theorem view_after (hc : config.IsValid) (hf : f.IsCalm) (hg : g.IsCalm) {p : Pass}
    (hp : p ∈ [Split.pass, Columns.pass]) (h : f.view plainView = g.view plainView) :
    (config.after p f).view plainView = (config.after p g).view plainView := by
  have hnewline : (f.view plainView).newline = (g.view plainView).newline := by rw [h]
  change f.newline = g.newline at hnewline
  rw [FormatConfig.after, FormatConfig.after]
  split
  · rw [FormatConfig.setupOf, hnewline, ← (Pass.view_layout (PassSetup.isValid_of_config hc _ g)
      (hf.sound.quiet hf.silent) p hp).2, ← (Pass.view_layout (PassSetup.isValid_of_config hc _ g)
      (hg.sound.quiet hg.silent) p hp).2, h]
  · exact h

/-- **Calls in columns stay.** -/
theorem after_columns_again (hc : config.IsValid) (hf : f.IsCalm) :
    (config.after Columns.pass (config.after Columns.pass f)).view plainView =
      (config.after Columns.pass f).view plainView := by
  have hv := PassSetup.isValid_of_config hc (config.paramsOf Columns.pass.name) f
  rw [FormatConfig.after]
  split
  · rename_i hruns
    rw [FormatConfig.setupOf, config.newline_after, FormatConfig.after, if_pos hruns]
    exact Columns.view_apply_again hv hf.toIsFair hf.silent
  · rfl

/-- Whether the statements of a file stay when lines are split, if they are. -/
def FormatConfig.KeepsLines (config : FormatConfig) (f : File) : Prop :=
  config.runs Split.pass.info = true →
    ∀ s ∈ f.statements, Split.Rests (config.setupOf Split.pass f) s

/-- Where lines have been split, none is too long. -/
theorem keepsLines_after_split (hc : config.IsValid) (hf : f.IsCalm) :
    config.KeepsLines (config.after Split.pass f) := by
  intro hruns
  rw [FormatConfig.setupOf, config.newline_after, FormatConfig.after, if_pos hruns]
  exact Split.rests_apply (PassSetup.isValid_of_config hc _ f) hf.sound hf.silent

/-- Aligned calls have no line that is too long if there was none. -/
theorem FormatConfig.KeepsLines.after_columns (h : config.KeepsLines f) (hc : config.IsValid)
    (hf : f.IsCalm) : config.KeepsLines (config.after Columns.pass f) := by
  intro hruns
  have hrests := h hruns
  rw [setupOf, config.newline_after, after]
  split
  · exact Columns.rests_apply rfl (PassSetup.isValid_of_config hc _ f) hf.sound hf.leads hrests
  · exact hrests

/-- **Lines that are not too long stay.** -/
theorem FormatConfig.KeepsLines.after_split (h : config.KeepsLines f) (hc : config.IsValid)
    (hf : f.IsCalm) : (config.after Split.pass f).view plainView = f.view plainView := by
  rw [after]
  split
  · rename_i hruns
    exact Split.view_apply_of_rests (PassSetup.isValid_of_config hc _ f) (hf.sound.quiet hf.silent)
      hf.silent (h hruns)
  · rfl

/-- **Gaps as configured stay,** also when lines have been split and calls have been aligned. -/
theorem after_gaps_again (hc : config.IsValid) (hy : y.IsCalm) (hx : x.IsCalm)
    (hruns : config.runs Gaps.pass.info = true)
    (hfault : (Gaps.pass.apply (config.setupOf Gaps.pass y) y).fault = none)
    (h : x.view looseView = (config.after Columns.pass
      (config.after Split.pass (config.after Gaps.pass y))).view looseView) :
    (config.after Gaps.pass x).view plainView =
      (config.after Split.pass (config.after Gaps.pass y)).view plainView := by
  have hv7 := PassSetup.isValid_of_config hc (config.paramsOf Gaps.pass.name) y
  have hmem7 : Gaps.pass ∈ Pass.layouts := List.mem_cons_self
  have hmem8 : Split.pass ∈ Pass.layouts := List.mem_cons_of_mem _ List.mem_cons_self
  have hspaced7 : Gaps.Spaced (config.setupOf Gaps.pass y) (config.after Gaps.pass y) := by
    rw [FormatConfig.after, if_pos hruns]
    exact Gaps.spaced_apply hv7 hy.toIsFair hy.silent hfault
  have hcalm7 := hy.after hc hmem7
  have hnewline7 := config.newline_after Gaps.pass y
  generalize config.after Gaps.pass y = y7 at hspaced7 hcalm7 hnewline7 h ⊢
  have hspaced8 : Gaps.Spaced (config.setupOf Gaps.pass y) (config.after Split.pass y7) := by
    rw [FormatConfig.after]
    split
    · exact Split.spaced_apply rfl hv7 (PassSetup.isValid_of_config hc _ y7) hcalm7.toIsFair hspaced7
    · exact hspaced7
  have hcalm8 := hcalm7.after hc hmem8
  have hnewline8 : (config.after Split.pass y7).newline = y.newline :=
    (config.newline_after Split.pass y7).trans hnewline7
  generalize config.after Split.pass y7 = y8 at hspaced8 hcalm8 hnewline8 h ⊢
  have hloose : (config.after Columns.pass y8).view looseView = y8.view looseView := by
    rw [FormatConfig.after]
    split
    · exact (Columns.keepsLoose (PassSetup.isValid_of_config hc _ y8)).run
        (hcalm8.sound.quiet hcalm8.silent)
    · rfl
  rw [hloose] at h
  have hnewline : (x.view looseView).newline = (y8.view looseView).newline := by rw [h]
  change x.newline = y8.newline at hnewline
  rw [FormatConfig.after, if_pos hruns, FormatConfig.setupOf, hnewline, hnewline8]
  obtain ⟨-, -, hsame⟩ := Gaps.apply_view hv7 hcalm8.toIsFair hx.toIsFair hcalm8.silent hx.silent
    h.symm (Gaps.statements_of_spaced hspaced8).2
  rw [← hsame, Gaps.view_apply_again hv7 hcalm8.toIsFair hcalm8.silent hspaced8]

/-- **Lines that are laid out stay,** gaps included, where all that shows of them is what has been
laid out, gaps aside if these are laid out too. -/
theorem layout_again (hc : config.IsValid) (hy : y.IsCalm) (hx : x.IsCalm)
    (hfault : config.runs Gaps.pass.info = true →
      (Gaps.pass.apply (config.setupOf Gaps.pass y) y).fault = none)
    (h : x.view (if config.runs Gaps.pass.info then looseView else plainView) =
      (Pass.layouts.foldl (fun f p => config.after p f) y).view
        (if config.runs Gaps.pass.info then looseView else plainView)) :
    (Pass.layouts.foldl (fun f p => config.after p f) x).view plainView =
      (Pass.layouts.foldl (fun f p => config.after p f) y).view plainView := by
  have hmem7 : Gaps.pass ∈ Pass.layouts := List.mem_cons_self
  have hmem8 : Split.pass ∈ Pass.layouts := List.mem_cons_of_mem _ List.mem_cons_self
  have hmem9 : Columns.pass ∈ Pass.layouts :=
    List.mem_cons_of_mem _ (List.mem_cons_of_mem _ List.mem_cons_self)
  have hsplit : Split.pass ∈ [Split.pass, Columns.pass] := List.mem_cons_self
  have hcolumns : Columns.pass ∈ [Split.pass, Columns.pass] :=
    List.mem_cons_of_mem _ List.mem_cons_self
  simp only [Pass.layouts, List.foldl_cons, List.foldl_nil] at h ⊢
  have hcalm7 := hy.after hc hmem7
  have hcalm8 := hcalm7.after hc hmem8
  have hcalm9 := hcalm8.after hc hmem9
  have hxcalm7 := hx.after hc hmem7
  have hxcalm8 := hxcalm7.after hc hmem8
  have hlines := keepsLines_after_split hc hcalm7
  by_cases hruns : config.runs Gaps.pass.info = true
  · rw [if_pos hruns] at h
    have h7 := after_gaps_again hc hy hx hruns (hfault hruns) h
    have h8 := (view_after hc hxcalm7 hcalm8 hsplit h7).trans (hlines.after_split hc hcalm8)
    exact view_after hc hxcalm8 hcalm8 hcolumns h8
  · rw [if_neg hruns] at h
    have hsame : config.after Gaps.pass x = x := if_neg hruns
    rw [hsame] at hxcalm8 ⊢
    have h8 := (view_after hc hx hcalm9 hsplit h).trans
      ((hlines.after_columns hc hcalm8).after_split hc hcalm9)
    exact (view_after hc hxcalm8 hcalm9 hcolumns h8).trans (after_columns_again hc hcalm8)

end

end RobotSuite
