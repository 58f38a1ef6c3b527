/-
# Gaps as configured stay

Laying the lines of a statement out looks at the texts in their layouts only
(`Gaps.renderTokens_relay_congr`), and what it writes has these texts again.  So a statement with
gaps as configured keeps them when it is laid out again (`Gaps.spaced_again`), and one that has been
split has them as well (`Gaps.IsSpaced.split`).  A file of such statements is left as it is by the
pass (`Gaps.statements_of_spaced`).
-/

import RobotSuite.Proofs.Format.Layout.SplitAndAlign
import RobotSuite.Proofs.Lint.LayoutAgreement

namespace RobotSuite

/-! ## Texts of layouts -/

/-- The texts in a layout. -/
def LineLayout.values (l : LineLayout) : List String × Option String × String :=
  (l.cells.map (·.value), l.comment.map (·.value), l.ending.value)

section
variable {l : LineLayout} {ls : List LineLayout} {indent separator : String} {gapAt : Nat → String}

/-- A layout that is written holds the same texts. -/
theorem LineLayout.Fits.values_ofLine (h : l.Fits) (indent separator : String)
    (gapAt : Nat → String) :
    (LineLayout.ofLine (composeLine indent l separator gapAt)).values = l.values := by
  have hcells := filter_composeLine (p := fun t => t.isData || t.isContinuation) (fun _ => rfl)
    (fun atStart c => by rw [placeCell_isData, placeCell_isContinuation]) l indent separator gapAt
  have hcomment : (composeLine indent l separator gapAt).find? (·.isComment) =
      (commentTokens (composeLine indent l separator gapAt)).head? := List.head?_filter.symm
  have hending : endingOf (composeLine indent l separator gapAt) = l.ending := by
    rw [composeLine, endingOf_concat h.ending.kind]
  have hnone : ∀ t ∈ l.comment.toList ++ [l.ending], (t.isData || t.isContinuation) = false := by
    intro t ht
    rcases List.mem_append.1 ht with ht | ht
    · simp [Token.isData, TokenKind.isData, Token.isContinuation,
        (h.comment t (Option.mem_toList.1 ht)).1]
    · simp [Token.isData, TokenKind.isData, Token.isContinuation, List.mem_singleton.1 ht,
        h.ending.kind]
  have hnil : (l.comment.toList ++ [l.ending]).filter (fun t => t.isData || t.isContinuation) = [] :=
    List.filter_eq_nil_iff.2 fun t ht => by simp [hnone t ht]
  rw [List.filter_append, List.filter_eq_self.2 h.isCell, hnil, List.append_nil] at hcells
  have hcomments := congrArg List.head? (h.commentTexts_composeLine indent separator gapAt)
  rw [commentTexts, List.head?_map] at hcomments
  rw [LineLayout.values, LineLayout.ofLine, hcells, hcomment, hcomments, hending]
  cases hc : l.comment <;> simp [LineLayout.values, hc]

/-- Layouts that are written as the lines of a statement hold the same texts. -/
theorem values_ofTokens (hi : IsIndent indent) (hs : IsWide separator) (hg : ∀ n, IsWide (gapAt n))
    (hfits : ∀ m ∈ ls, m.Fits)
    (hh : ∀ m ∈ ls, ∀ c ∈ m.cells.head?, c.kind = .sectionHeader → indent = "") :
    (LineLayout.ofTokens (ls.flatMap fun m => composeLine indent m separator gapAt)).map
      LineLayout.values = ls.map LineLayout.values := by
  have hwritten : ∀ line ∈ ls.map fun m => composeLine indent m separator gapAt,
      ∃ k, Written k line := by
    intro line hline
    obtain ⟨m, hm, rfl⟩ := List.mem_map.1 hline
    exact ⟨_, (hfits m hm).written hi hs hg (hh m hm)⟩
  rw [LineLayout.ofTokens, List.flatMap_def, splitLines_flatten hwritten, List.map_map,
    List.map_map]
  exact List.map_congr_left fun m hm => (hfits m hm).values_ofLine indent separator gapAt

end

namespace Gaps

section
variable {indent separator : String} {ts us : List Token} {ls ms : List LineLayout}

/-- What is written of layouts depends on the texts in them. -/
theorem renderTokens_flatMap_congr (h : ls.map LineLayout.values = ms.map LineLayout.values) :
    renderTokens (ls.flatMap fun m => composeLine indent m separator fun _ => separator) =
      renderTokens (ms.flatMap fun m => composeLine indent m separator fun _ => separator) := by
  induction ls generalizing ms with
  | nil =>
    cases ms with
    | nil => rfl
    | cons => cases h
  | cons l ls ih =>
    cases ms with
    | nil => cases h
    | cons m ms =>
      rw [List.map_cons, List.map_cons, List.cons_eq_cons] at h
      obtain ⟨hcells, hcomment, hending⟩ : l.cells.map (·.value) = m.cells.map (·.value) ∧
          l.comment.map (·.value) = m.comment.map (·.value) ∧ l.ending.value = m.ending.value := by
        simpa [LineLayout.values] using h.1
      have hempty : l.cells.isEmpty = m.cells.isEmpty := by
        have hlength := congrArg List.isEmpty hcells
        rwa [List.isEmpty_map, List.isEmpty_map] at hlength
      rw [List.flatMap_cons, List.flatMap_cons, renderTokens_append, renderTokens_append, ih h.2,
        renderTokens_composeLine, renderTokens_composeLine, hcells, hcomment, hending, hempty]

/-- **What is laid out depends on the texts in the layouts.** -/
theorem renderTokens_relay_congr (h : (LineLayout.ofTokens ts).map LineLayout.values =
      (LineLayout.ofTokens us).map LineLayout.values) :
    renderTokens (relay indent separator ts) = renderTokens (relay indent separator us) :=
  renderTokens_flatMap_congr h

/-- Lines that are laid out are laid out alike again. -/
theorem renderTokens_relay_flatMap (hi : IsIndent indent) (hs : IsWide separator)
    (hfits : ∀ m ∈ ls, m.Fits)
    (hh : ∀ m ∈ ls, ∀ c ∈ m.cells.head?, c.kind = .sectionHeader → indent = "") :
    renderTokens (relay indent separator
        (ls.flatMap fun m => composeLine indent m separator fun _ => separator)) =
      renderTokens (ls.flatMap fun m => composeLine indent m separator fun _ => separator) :=
  renderTokens_flatMap_congr (values_ofTokens hi hs (fun _ => hs) hfits hh)

end

/-! ## Statements with gaps as configured -/

section
variable {setup : PassSetup} {kind : SectionKind} {sc sc' : Scope} {s r new : Statement}
  {header : Bool} {tokens : List Token} {levels : Nat}

/-- Whether a statement that stands below some levels of indentation has gaps as configured. -/
def IsSpaced (setup : PassSetup) (levels : Nat) (s : Statement) : Prop :=
  ∀ sc : Scope, sc.levels = levels →
    ∃ tokens, spaced setup sc s = .ok tokens ∧ renderTokens tokens = s.text

/-- All that is looked at around a statement are the levels of indentation. -/
theorem spaced_congr (h : sc'.levels = sc.levels) : spaced setup sc' s = spaced setup sc s := by
  have hdepth : sc'.depth s = sc.depth s := by
    rw [Scope.depth, Scope.depth, ← Scope.levels, ← Scope.levels, h]
  rw [spaced, spaced, indentAt, indentAt, hdepth]

/-- Respacing succeeds exactly when the indent is found, and lays the lines out from there. -/
theorem spaced_eq_ok_iff (ht : s.type ≠ .emptyLine) : spaced setup sc s = .ok tokens ↔
    ∃ indent, indentAt setup sc s = .ok indent ∧
      tokens = relay indent setup.config.separator s.tokens := by
  rw [spaced, if_neg ht]
  cases indentAt setup sc s with
  | error reason =>
    constructor
    · intro h
      cases h
    · rintro ⟨_, hi, -⟩
      cases hi
  | ok indent =>
    refine ⟨fun h => ⟨indent, rfl, (Except.ok.inj h).symm⟩, ?_⟩
    rintro ⟨_, hi, rfl⟩
    obtain rfl := Except.ok.inj hi
    rfl

/-- **A statement with gaps as configured** is laid out alike again. -/
theorem spaced_again (hv : setup.IsValid) (hl : Laid header (splitLines s.tokens))
    (hh : header = true → sc.depth s = 0) (h : spaced setup sc s = .ok tokens) :
    IsSpaced setup sc.levels (s.withTokens tokens) := by
  intro sc' hlevels
  rw [spaced_congr hlevels]
  by_cases ht : s.type = .emptyLine
  · rw [spaced, if_pos ht] at h
    obtain ⟨front, e, htokens, he⟩ := hl.getLast?
    obtain rfl : [e] = tokens := by
      rw [htokens, endingOf_concat he.kind] at h
      exact Except.ok.inj h
    have hending : endingOf ([] ++ [e]) = e := endingOf_concat he.kind
    exact ⟨[e], (if_pos ht).trans (congrArg (fun e => Except.ok [e]) hending), rfl⟩
  · obtain ⟨indent, hi, rfl⟩ := (spaced_eq_ok_iff ht).1 h
    refine ⟨_, (spaced_eq_ok_iff (s := s.withTokens _) ht).2 ⟨indent, hi, rfl⟩, ?_⟩
    obtain ⟨-, rfl⟩ := spaces_eq_ok_iff.1 hi
    refine renderTokens_relay_flatMap (isIndent_spaces _) hv.separator (fun m hm => ?_)
      fun m hm c hc hk => ?_
    · obtain ⟨line, hline, rfl⟩ := List.mem_map.1 hm
      obtain ⟨k, hw⟩ := hl.written line hline
      exact hw.fits_ofLine
    · obtain ⟨line, hline, rfl⟩ := List.mem_map.1 hm
      obtain ⟨k, hw⟩ := hl.written line hline
      have hkind : (LineLayout.ofLine line).cells.head?.map (·.kind) = k := hw.cells.2.2
      rw [Option.mem_def.1 hc, Option.map_some, hk] at hkind
      cases header with
      | true => simp [hh rfl, spaces_eq_empty]
      | false =>
        have hnone := List.countP_eq_zero.1 hl.countP_isHeaderLine line hline
        rw [hw.isHeaderLine, ← hkind] at hnone
        exact absurd rfl hnone

/-- The pass gives a statement at which it does not break off gaps as configured. -/
theorem isSpaced_outcome (hv : setup.IsValid) (hl : Laid header (splitLines s.tokens))
    (he : s.type = .emptyLine → dataTexts s.tokens = [] ∧ commentTexts s.tokens = [])
    (hh : header = true → s.type ≠ .emptyLine ∧ sc.depth s = 0) (hf : s.flaws = [])
    (ht : s.type ≠ .error) (hk : isLaidOut sc = true) (hc : sc.IsCalm) (hs : s.directive? = none)
    {n : Nat} (hb : ((transform setup).statement sc n s).breakdown? = none) :
    IsSpaced setup sc.levels
      (((transform setup).statement sc n s).outcome s (replacementIssues s)) := by
  dsimp only [transform] at hb ⊢
  rw [hc.disables hs, if_neg Bool.false_ne_true, space, hk] at hb ⊢
  rw [if_neg (by simp [ht])] at hb ⊢
  cases htokens : spaced setup sc s with
  | error reason =>
    rw [htokens] at hb
    cases hb
  | ok tokens =>
    dsimp only
    split
    · rename_i htext
      exact fun sc' hlevels => ⟨tokens, (spaced_congr hlevels).trans htokens, htext⟩
    · obtain ⟨-, hflaws, -, -⟩ := spaced_spec hv hl he hh hf htokens
      rw [Decision.outcome_put s (s.withTokens tokens) rfl hflaws]
      exact spaced_again hv hl (fun hheader => (hh hheader).2) htokens

/-- Statements that show alike have the same gaps. -/
theorem IsSpaced.alike (h : IsSpaced setup levels s) (hr : s.Alike r) :
    IsSpaced setup levels r := by
  intro sc hlevels
  obtain ⟨tokens, htokens, htext⟩ := h sc hlevels
  have hlayouts : (LineLayout.ofTokens r.tokens).map LineLayout.values =
      (LineLayout.ofTokens s.tokens).map LineLayout.values := by
    have hbare (ts : List Token) : (LineLayout.ofTokens (ts.map Token.bare)).map LineLayout.values =
        (LineLayout.ofTokens ts).map LineLayout.values := by
      rw [LineLayout.ofTokens_map_bare, List.map_map]
      refine List.map_congr_left fun l _ => ?_
      simp [LineLayout.values, LineLayout.bare, Function.comp_def]
    rw [← hbare, hr.2, hbare]
  have hending : (endingOf r.tokens).value = (endingOf s.tokens).value := by
    have hbare (ts : List Token) : (endingOf (ts.map Token.bare)).value = (endingOf ts).value :=
      congrArg (fun l => l.ending.value) (LineLayout.ofLine_map_bare ts)
    rw [← hbare, hr.2, hbare]
  have hindent : indentAt setup sc r = indentAt setup sc s := by
    rw [indentAt, indentAt, Scope.depth, Scope.depth, hr.1]
  rw [hr.text, ← htext]
  by_cases ht : s.type = .emptyLine
  · rw [spaced, if_pos ht] at htokens
    obtain rfl := Except.ok.inj htokens
    refine ⟨[endingOf r.tokens], if_pos (hr.1.trans ht), ?_⟩
    rw [renderTokens_cons, renderTokens_cons, hending]
  · obtain ⟨indent, hi, rfl⟩ := (spaced_eq_ok_iff ht).1 htokens
    have htr : r.type ≠ .emptyLine := hr.1 ▸ ht
    exact ⟨_, (spaced_eq_ok_iff htr).2 ⟨indent, hindent.trans hi, rfl⟩,
      renderTokens_relay_congr hlayouts⟩

/-- A statement with gaps as configured stays as it is. -/
theorem IsSpaced.statement_eq_keep (h : isLaidOut sc = true → IsSpaced setup sc.levels s)
    (n : Nat) : (transform setup).statement sc n s = .keep := by
  dsimp only [transform]
  split
  · rfl
  rw [space]
  split
  · rfl
  · rename_i hlaid
    have hk : isLaidOut sc = true := by
      rw [Bool.not_eq_true, Bool.or_eq_false_iff] at hlaid
      simpa using hlaid.2
    obtain ⟨tokens, htokens, htext⟩ := h hk sc rfl
    rw [htokens]
    exact if_pos htext

/-- What is laid out starts with its indentation. -/
theorem indentOf_relay (hs : s.IsSound kind) (hd : dataTexts s.tokens ≠ [])
    (indent separator : String) : indentOf (relay indent separator s.tokens) = indent := by
  obtain ⟨k, first, more, hlines, hw, hk, -⟩ := hs.laid.startsWithName hd
  have hkind : (LineLayout.ofLine first).cells.head?.map (·.kind) = k := hw.cells.2.2
  rw [relay, LineLayout.ofTokens, hlines, List.map_cons, List.flatMap_cons]
  refine indentOf_composeLine ?_ _
  cases hc : (LineLayout.ofLine first).cells.head? with
  | none =>
    rw [hc] at hkind
    subst hkind
    rcases hk with hk | hk <;> cases hk
  | some c =>
    rw [hc] at hkind
    subst hkind
    exact ⟨c, rfl, hk.imp Option.some.inj Option.some.inj⟩

/-- A statement with gaps as configured has them when it is split. -/
theorem IsSpaced.split {setup' : PassSetup} (hc : setup'.config = setup.config)
    (hv : setup.IsValid) (hv' : setup'.IsValid) (h : IsSpaced setup levels s)
    (hs : s.IsSound kind) (hf : s.flaws = []) (hsplit : Split.split setup' s = some new) :
    IsSpaced setup levels new := by
  have hdata := (Split.relaid_split hv' hs hsplit).cells
  obtain ⟨size, everyArg, hsize, rfl⟩ := Split.split_eq_some hsplit
  have ht : s.type ≠ .emptyLine := by
    intro ht
    rw [Split.headSize, ht] at hsize
    cases hsize
  obtain ⟨l, ls, htokens, hfits, hl, hls, -⟩ := Split.layouts_splitTokens everyArg hv' hs hsize
  intro sc hlevels
  obtain ⟨tokens, hspaced, htext⟩ := h sc hlevels
  obtain ⟨indent, hi, rfl⟩ := (spaced_eq_ok_iff ht).1 hspaced
  refine ⟨_, (spaced_eq_ok_iff (s := s.withTokens _) ht).2 ⟨indent, hi, rfl⟩, ?_⟩
  have hindent : indentOf s.tokens = indent := by
    obtain ⟨-, -, -, hsame⟩ :=
      spaced_spec hv hs.laid hs.texts_of_emptyLine (absurd · Bool.false_ne_true)
      hf hspaced
    rw [← indentOf_map_bare, ← hsame htext, indentOf_map_bare]
    exact indentOf_relay hs hdata indent setup.config.separator
  show renderTokens (relay indent setup.config.separator (Split.splitTokens _ _ _ _)) =
    renderTokens (Split.splitTokens _ _ _ _)
  rw [htokens, hindent, hc]
  refine renderTokens_relay_flatMap ?_ hv.separator hfits fun m hm c hc hk => ?_
  · obtain ⟨-, rfl⟩ := spaces_eq_ok_iff.1 hi
    exact isIndent_spaces _
  · -- no line of a statement that is split starts with the cell of a header
    rcases List.mem_cons.1 hm with rfl | hm
    · obtain ⟨d, hd, hkind⟩ := hl
      obtain rfl : c = d := Option.some.inj (hc.symm.trans hd)
      rcases hkind with hkind | hkind <;> cases hk.symm.trans hkind
    · obtain ⟨d, hd, hkind⟩ := hls m hm
      obtain rfl : c = d := Option.some.inj (hc.symm.trans hd)
      cases hk.symm.trans hkind

end

/-! ## Files with gaps as configured -/

/-- Whether the statements of a file have gaps as configured where lines are laid out. -/
def Spaced (setup : PassSetup) (f : File) : Prop :=
  ∀ m ∈ f.meetings, isLaidOut m.2 = true → IsSpaced setup m.2.levels m.1

section
variable {setup : PassSetup} {f : File}

/-- The pass gives the statements of a file gaps as configured. -/
theorem settlesSpaced (hv : setup.IsValid) : (transform setup).Settles Scope.IsCalm
    (Statement.IsQuiet (IsFit Statement.IsSound)) (Statement.IsQuiet (IsFit Statement.IsHeader))
    fun kind levels s => kind.isLaidOut = true → IsSpaced setup levels s where
  start := (settles hv).start
  enter := (settles hv).enter
  leave := (settles hv).leave
  note := (settles hv).note
  statement {kind sc n s} hc hs hb hk := by
    have hkind (hsect : sc.section?.map (·.kind) = some kind) : isLaidOut sc = true :=
      (isLaidOut_eq hsect).trans hk
    rcases hs with ⟨hshows, hs⟩ | ⟨hsect, hlevels, hs⟩
    · exact isSpaced_outcome hv hs.holds.1.laid hs.holds.1.texts_of_emptyLine
        (absurd · Bool.false_ne_true) hs.holds.2 hs.holds.1.reads.type_ne.2 (hkind hshows.sect) hc
        hs.silent hb
    · have hheader := depth_of_header hs.holds.1 hlevels
      exact isSpaced_outcome hv hs.holds.1.laid (fun he => absurd he hheader.1) (fun _ => hheader)
        hs.holds.2 (by simp [hs.holds.1.type]) (hkind hsect) hc hs.silent hb
  body := rfl
  sect := rfl
  file := rfl

/-- **Behind the pass, statements have gaps as configured** where lines are laid out. -/
theorem spaced_apply (hv : setup.IsValid) (hf : f.IsFair) (hs : f.IsSilent)
    (hfault : (pass.apply setup f).fault = none) : Spaced setup (pass.apply setup f).tree := by
  have hnone : ((transform setup).run f).broken = none := Option.map_eq_none_iff.1 hfault
  have hholds := (keeps_quiet hv).run (fit_sections hf hs)
  have hleveled := (settlesSpaced hv).run (fit_sections hf hs) hnone
  intro m hm hlaid
  obtain ⟨s, -, hin, hspaced⟩ := meetings_inside (A := fun _ _ _ => True)
    (Q := fun kind levels s => kind.isLaidOut = true → IsSpaced setup levels s) hholds hleveled
    (fun _ _ _ _ _ _ _ => trivial) (fun _ _ => trivial) m hm
  refine hspaced ?_
  rwa [← isLaidOut_eq (congrArg (Option.map fun s : Section => s.kind) hin.sect)]

/-- The pass answers every statement with one statement. -/
theorem single_transform (setup : PassSetup) : (transform setup).Single := ⟨rfl, rfl, rfl⟩

/-- **A file with gaps as configured** keeps its statements. -/
theorem statements_of_spaced (h : Spaced setup f) :
    (pass.apply setup f).tree.statements = f.statements ∧ (pass.apply setup f).fault = none := by
  have hkeep : ∀ m ∈ f.meetings, ∀ n, (transform setup).statement m.2 n m.1 = .keep :=
    fun m hm => IsSpaced.statement_eq_keep (h m hm)
  obtain ⟨hstatements, -, hbroken⟩ := (single_transform setup).run_eq (f := f)
    fun m hm n => congrArg Decision.breakdown? (hkeep m hm n)
  refine ⟨hstatements.trans ?_, Option.map_eq_none_iff.2 hbroken⟩
  rw [← File.map_fst_meetings]
  refine List.ext_getElem (by simp) fun i hi _ => ?_
  rw [List.getElem_mapIdx, List.getElem_map, Transform.answer, hkeep _ (List.getElem_mem _)]
  rfl

end

end Gaps
end RobotSuite
