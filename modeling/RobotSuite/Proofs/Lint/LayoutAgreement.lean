/-
# The formatter and the rules agree on the layout

The pass that lays out the gaps indents lines by their depth.  The rule on indentation compares a
comment with the items around it, and everything else with its depth.  Behind the pass both come to
the same: headers stand one level out of their bodies, so every item that can give a comment its
indentation stands at the level of the comment (`anchors_body`, `anchors_section`), and the product
of depth and width is exact, since the pass has made a text of that length.  So the rule finds
nothing, nor does the rule on blanks at the end of lines (`layout_agreed`).  Where the pass fails,
the lines stay as they are (`indent_of_failed_layout`).
-/

import Mathlib.Data.Option.Basic
import RobotSuite.Lint.Check
import RobotSuite.Proofs.Data.WholeNumbers
import RobotSuite.Proofs.Format.Gaps.EvenLines
import RobotSuite.Proofs.Format.RespacedRuns
import RobotSuite.Proofs.Format.Run
import RobotSuite.Proofs.Transform.Levels

namespace RobotSuite

/-! ## Where statements and their neighbours stand -/

/-- A statement that stands at its depth below some levels of indentation. -/
def Statement.StandsBelow (width levels : Nat) (s : Statement) : Prop :=
  ∃ depth : Nat, (levels : Int) - (if s.type.isOuter then 1 else 0) = depth ∧
    s.StandsAt (depth * width)

/-- A container in which the items that give comments their indentation stand at its level. -/
def EvenAnchors (width levels : Nat) (c : Container) : Prop :=
  ∀ i ∈ SpaceRules.leadingItems c, SpaceRules.isAnchor i = true → i.1.indent 4 = levels * width

section
variable {width n : Nat} {s : Statement}

/-- A statement at a level is indented by that many steps. -/
theorem Statement.StandsBelow.indent (h : s.StandsBelow width n) (ho : s.type.isOuter = false)
    (he : s.type ≠ .emptyLine) : s.indent 4 = n * width := by
  obtain ⟨depth, hdepth, hs⟩ := h
  rw [ho, if_neg Bool.false_ne_true] at hdepth
  obtain rfl : n = depth := by omega
  exact hs.indent he

/-- What stands one level out stands at the level of the items around it. -/
theorem Statement.StandsBelow.indent_outer (h : s.StandsBelow width (n + 1))
    (ho : s.type.isOuter = true) : s.indent 4 = n * width := by
  obtain ⟨depth, hdepth, hs⟩ := h
  rw [ho, if_pos rfl] at hdepth
  obtain rfl : n = depth := by omega
  refine hs.indent fun he => ?_
  rw [he] at ho
  cases ho

/-- Statements of a body are no outer ones. -/
theorem isOuter_of_inBody {type : StatementType} (h : type.inBody = true) :
    type.isOuter = false := by
  cases type <;> first | rfl | cases h

/-- Statements of a section are no outer ones. -/
theorem isOuter_of_inSection {type : StatementType} {kind : SectionKind}
    (h : type.inSection kind = true) : type.isOuter = false := by
  cases type <;> first | rfl | (cases kind <;> cases h)

/-- The opener of a block is an outer one. -/
theorem isOuter_opener (type : ControlType) : type.opener.isOuter = true := by
  cases type <;> rfl

/-- The name of a block is an outer one. -/
theorem isOuter_nameType (type : BlockType) : type.nameType.isOuter = true := by
  cases type <;> rfl

/-- The anchors of a body stand at its level. -/
theorem anchors_body {P : Statement → Prop} {items : List BodyItem} (hi : bodyHolds P items)
    (hl : bodyLeveled (Statement.StandsBelow width) n items) :
    ∀ i ∈ items.map SpaceRules.leadingItems.leadingItem, SpaceRules.isAnchor i = true →
      i.1.indent 4 = n * width := by
  induction items with
  | nil => simp
  | cons item items ih =>
    rw [bodyHolds] at hi
    cases item with
    | statement s =>
      rw [BodyItem.Holds] at hi
      rw [bodyLeveled] at hl
      refine List.forall_mem_cons.2 ⟨fun hanchor => ?_, ih hi.2 hl.2⟩
      refine hl.1.indent (isOuter_of_inBody hi.1.1) fun he => ?_
      simp [SpaceRules.isAnchor, SpaceRules.leadingItems.leadingItem, he] at hanchor
    | control c =>
      obtain ⟨type, span, header, body, branches, close, label⟩ := c
      rw [BodyItem.Holds, ControlBlock.Holds] at hi
      rw [bodyLeveled, ControlBlock.Leveled] at hl
      refine List.forall_mem_cons.2 ⟨fun _ => ?_, ih hi.2 hl.2⟩
      exact hl.1.1.indent_outer (hi.1.1.1 ▸ isOuter_opener type)

/-- The items of a section that give comments their indentation stand at the margin. -/
theorem anchors_section {S H : SectionKind → Statement → Prop} {s : Section} (hs : s.Holds S H)
    (hl : s.Leveled (Statement.StandsBelow width)) : EvenAnchors width 0 (.sect s) := by
  intro i hi hanchor
  obtain ⟨item, hitem, rfl⟩ := List.mem_map.1 hi
  have hholds := hs.items item hitem
  have hleveled := hl.items item hitem
  cases item with
  | statement r =>
    have hne : r.type ≠ .emptyLine := fun he => by
      simp [SpaceRules.isAnchor, SectionItem.statement?, he] at hanchor
    exact Statement.StandsBelow.indent hleveled (isOuter_of_inSection hholds.1) hne
  | block b =>
    have ho : b.header.type.isOuter = true := by
      rw [hholds.1.2.1]
      exact isOuter_nameType b.type
    exact Statement.StandsBelow.indent_outer hleveled.1 ho

end

/-! ## What the pass leads to -/

/-- A statement of the grammar that is not an empty line holds data or a comment. -/
theorem Statement.IsSound.filled {kind : SectionKind} {s : Statement} (h : s.IsSound kind)
    (hne : s.type ≠ .emptyLine) : dataTexts s.tokens ≠ [] ∨ commentTexts s.tokens ≠ [] := by
  obtain ⟨-, -, hplain, -⟩ := readsAs_iff.1 h.reads
  by_cases hd : dataTexts s.tokens = []
  · refine .inr fun hc => hne ?_
    rw [hplain hd, hc]
    rfl
  · exact .inl hd

/-- All sections but Comments are laid out. -/
theorem Section.Holds.isLaidOut {P : SectionKind → Statement → Prop} {s : Section}
    (h : s.Holds P Statement.IsHeader) (hne : s.kind ≠ .comments) : s.kind.isLaidOut = true := by
  simp [SectionKind.isLaidOut, hne, h.kind_ne_invalid]

/-- No statement stands out of the margin. -/
theorem Scope.Shows.depth_nonneg {sc : Scope} {kind : SectionKind} {s : Statement}
    (h : sc.Shows kind s) : 0 ≤ sc.depth s := by
  cases hname : isBlockName s with
  | true => exact (h.name hname).ge
  | false =>
    cases hin : s.type.inSection kind with
    | true =>
      rw [Scope.depth, isOuter_of_inSection hin]
      simp
    | false => exact le_trans (by decide) (h.body hname hin)

namespace Gaps
variable {setup : PassSetup} {f : File}

/-- **With gaps as configured, statements stand at their depths** where lines are laid out. -/
theorem settles (hv : setup.IsValid) : (transform setup).Settles Scope.IsCalm
    (Statement.IsQuiet (IsFit Statement.IsSound)) (Statement.IsQuiet (IsFit Statement.IsHeader))
    fun kind levels s => kind.isLaidOut = true → s.StandsBelow setup.config.indent levels where
  start := by simp [Scope.IsCalm]
  enter hc hh := hc.enter fun header hmem => (hh header hmem).elim (·.silent) (·.silent)
  leave hc := hc.leave
  note hc hs := hc.note (hs.elim (·.silent) (·.silent))
  statement {kind sc n s} hc hs hb hk := by
    have hkind (hsect : sc.section?.map (·.kind) = some kind) : isLaidOut sc = true :=
      (isLaidOut_eq hsect).trans hk
    have hnew : 0 ≤ sc.depth s ∧
        (((transform setup).statement sc n s).outcome s (replacementIssues s)).type = s.type ∧
        (((transform setup).statement sc n s).outcome s (replacementIssues s)).StandsAt
          ((sc.depth s).toNat * setup.config.indent) := by
      rcases hs with ⟨hshows, hs⟩ | ⟨hsect, hlevels, hs⟩
      · exact ⟨hshows.depth_nonneg, standsAt_outcome hv hs.holds.1.laid
          (fun hne => .inr (hs.holds.1.filled hne)) (absurd · Bool.false_ne_true)
          hs.holds.1.texts_of_emptyLine hs.holds.2 hs.holds.1.reads.type_ne.2
          (hkind hshows.sect) hc hs.silent hb⟩
      · obtain ⟨hne, hdepth⟩ := depth_of_header hs.holds.1 hlevels
        exact ⟨hdepth.ge, standsAt_outcome hv hs.holds.1.laid (fun _ => .inl rfl)
          (fun _ => ⟨hne, hdepth⟩) (fun he => absurd he hne) hs.holds.2 (by simp [hs.holds.1.type])
          (hkind hsect) hc hs.silent hb⟩
    obtain ⟨hdepth, htype, hstands⟩ := hnew
    refine ⟨(sc.depth s).toNat, ?_, hstands⟩
    rw [htype, Int.toNat_of_nonneg hdepth]
    rfl
  body := rfl
  sect := rfl
  file := rfl

/-- Levelled bodies have even anchors. -/
theorem holdsOfBodies (kind : SectionKind) (P : Statement → Prop) (width : Nat) :
    HoldsOfBodies (fun levels c => kind.isLaidOut = true → EvenAnchors width levels c) P
      fun levels s => kind.isLaidOut = true → s.StandsBelow width levels := by
  intro c n items hc hi hl hk i hmem hanchor
  simp only [hk, true_imp_iff] at hl
  rw [hc] at hmem
  exact anchors_body hi hl i hmem hanchor

/-- **Behind the pass, what a walk meets stands at its depth,** and so do the items right around
it that give comments their indentation, but for sections that are not laid out. -/
theorem meets_stands (hv : setup.IsValid) (hf : ∀ s ∈ f.sections,
      s.Holds (Statement.IsQuiet (IsFit Statement.IsSound))
        (Statement.IsQuiet (IsFit Statement.IsHeader)))
    (hfault : (pass.apply setup f).fault = none) :
    ∀ m ∈ (pass.apply setup f).tree.meetings, ∃ s, m.2.section? = some s ∧
      (s.kind ≠ .comments → m.1.StandsBelow setup.config.indent m.2.levels ∧
        ∀ c ∈ m.2.parent?, EvenAnchors setup.config.indent m.2.levels c) := by
  have hnone : ((transform setup).run f).broken = none := Option.map_eq_none_iff.1 hfault
  have hholds := (keeps_quiet hv).run hf
  have hleveled := (settles hv).run hf hnone
  intro m hm
  obtain ⟨s, hs, hin, hstands⟩ := meetings_inside
    (A := fun kind levels c => kind.isLaidOut = true → EvenAnchors setup.config.indent levels c)
    hholds hleveled (fun kind => holdsOfBodies kind _ _)
    (fun s hs hk => by
      have hl := hleveled s hs
      simp only [hk, true_imp_iff] at hl
      exact anchors_section (hholds s hs) hl) m hm
  refine ⟨s, hin.sect, fun hne => ?_⟩
  have hk : s.kind.isLaidOut = true := by
    refine Section.Holds.isLaidOut (P := Statement.IsQuiet (IsFit Statement.IsSound)) ?_ hne
    exact (hholds s hs).imp (fun _ _ h => h) fun _ _ h => h.holds.1
  exact ⟨hstands hk, fun c hc => hin.parent c hc hk⟩

end Gaps

/-! ## What rules find there -/

namespace SpaceRules
variable {ctx : RuleContext} {s : Statement} {width : Nat}

/-- A comment follows an item that can give it its indentation, if there is one. -/
theorem neighbourIndent_eq_some {items : List (Statement × Option StatementType)} {n : Nat}
    (h : neighbourIndent s items = some n) : ∃ i ∈ items, isAnchor i = true ∧ i.1.indent 4 = n := by
  rw [neighbourIndent] at h
  dsimp only at h
  split at h
  · cases h
  · obtain ⟨i, hi, rfl⟩ := Option.map_eq_some_iff.1 h
    rw [Option.orElse_eq_some] at hi
    rcases hi with hi | ⟨-, hi⟩
    · have hmem := List.mem_reverse.1 (List.mem_of_find?_eq_some hi)
      exact ⟨i, List.takeWhile_subset _ hmem, List.find?_some hi, rfl⟩
    · exact ⟨i, List.mem_of_mem_drop (List.mem_of_find?_eq_some hi), List.find?_some hi, rfl⟩

/-- **The rule on indentation finds nothing** at a statement that stands at its depth among items
that do. -/
theorem validate_indent (hwidth : ctx.params.number "indent" 4 = width)
    (hs : s.StandsBelow width ctx.scope.levels) (hne : s.type ≠ .emptyLine)
    (hparent : ∀ c ∈ ctx.scope.parent?, EvenAnchors width ctx.scope.levels c) :
    indent.validate ctx (.statement s) = .ok [] := by
  obtain ⟨depth, hdepth, hstands⟩ := hs
  have hbyDepth : Number.mul (ctx.scope.depth s) (ctx.params.number "indent" 4) =
      ((depth * width : Nat) : Rat) := by
    have hdepth : ctx.scope.depth s = depth := hdepth
    have hbound : depth * width < 2 ^ 53 :=
      (hstands.bounded hne).trans_lt (by decide)
    rw [hwidth, hdepth, Number.mul, ← Number.toBinary_natCast hbound]
    push_cast
    rfl
  have hexpected : expectedIndent ctx s = ((depth * width : Nat) : Rat) := by
    rw [expectedIndent, hbyDepth]
    split
    · rename_i hcomment
      cases hn : ctx.scope.parent?.bind fun c => neighbourIndent s (leadingItems c) with
      | none => rfl
      | some n =>
        -- a comment stands at the level of its neighbours, since it is no header
        obtain ⟨c, hc, hneighbour⟩ := Option.bind_eq_some_iff.1 hn
        obtain ⟨i, hi, hanchor, rfl⟩ := neighbourIndent_eq_some hneighbour
        have hlevel : ctx.scope.levels = depth := by
          rw [hcomment, if_neg (by decide)] at hdepth
          omega
        rw [hparent c hc i hi hanchor, hlevel]
        rfl
    · rfl
  have hactual : s.indent 4 = depth * width := hstands.indent hne
  rw [indent, Rule.ofStatements]
  dsimp only
  rw [hactual, hexpected]
  cases s.tokens.find? fun t => !t.isSeparator with
  | none => rfl
  | some cell => simp [pure, Except.pure]

/-- The rule on indentation leaves sections of comments alone. -/
theorem validate_indent_of_comments (h : ∀ s ∈ ctx.scope.section?, s.kind = .comments) :
    indent.validate ctx (.statement s) = .ok [] := by
  have hlaidOut : (ctx.scope.section?.any fun sect =>
      sect.kind != .comments && sect.kind != .invalid) = false := by
    cases hs : ctx.scope.section? with
    | none => rfl
    | some sect => simp [h sect hs]
  rw [indent, Rule.ofStatements]
  dsimp only
  rw [hlaidOut]
  cases s.tokens.find? fun t => !t.isSeparator <;> rfl

/-- **The rule on blanks at the end of lines finds nothing** at such a statement. -/
theorem validate_trailing {column : Nat} (hs : s.StandsAt column) :
    trailing.validate ctx (.statement s) = .ok [] := by
  have hnone : (splitLines s.tokens).filterMap trailingGap? = [] :=
    List.filterMap_eq_nil_iff.2 hs.trailing
  rw [trailing, Rule.ofStatements]
  dsimp only
  rw [hnone]
  rfl

end SpaceRules

/-! ## The two agree -/

section
variable {lint : LintConfig} {text : String} {lines : Array (List Char)} {f : File}
  {rules : List Rule} {v : Step × Scope}

/-- Rules that find nothing at a node report nothing at the step that comes to it. -/
theorem diagnostics_checkStep (h : ∀ r ∈ rules, ∀ node ∈ v.1.node?, r.visits node.type = true →
      r.validate ⟨text, lines, f, v.2, lint.paramsOf r.code⟩ node = .ok []) :
    ∀ found ∈ checkStep lint text lines f rules v, found.diagnostics = [] := by
  intro found hfound
  unfold checkStep at hfound
  cases hnode : v.1.node? with
  | none =>
    rw [hnode] at hfound
    cases hfound
  | some node =>
    rw [hnode] at hfound
    obtain ⟨r, hr, rfl⟩ := List.mem_map.1 hfound
    obtain ⟨hmem, hvisits⟩ := List.mem_filter.1 hr
    rw [Rule.run, h r hmem node hnode hvisits]
    dsimp only
    split <;> rfl

/-- A file at which no rule reports has no diagnostics. -/
theorem diagnostics_checkFile (h : ∀ v ∈ f.visits, ∀ r ∈ rules, ∀ node ∈ v.1.node?,
      r.visits node.type = true →
      r.validate ⟨text, sourceLines text, f, v.2, lint.paramsOf r.code⟩ node = .ok []) :
    (checkFile f text lint rules).diagnostics = [] := by
  rw [checkFile]
  dsimp only
  have hnone : (f.visits.flatMap (checkStep lint text (sourceLines text) f
      (rules.filter fun r => lint.runs r.code))).flatMap (·.diagnostics) = [] := by
    rw [List.flatMap_eq_nil_iff]
    intro found hfound
    obtain ⟨v, hv, hfound⟩ := List.mem_flatMap.1 hfound
    exact diagnostics_checkStep (fun r hr => h v hv r (List.mem_filter.1 hr).1) found hfound
  rw [hnone, sortDiagnostics, List.mergeSort_nil]

/-- A step that comes to a statement is one of those at which a walk meets statements. -/
theorem mem_meetings {s : Statement} (hv : v ∈ f.visits) (hs : v.1 = .meet s) :
    (s, v.2) ∈ f.meetings := by
  obtain ⟨step, sc⟩ := v
  obtain rfl : step = .meet s := hs
  exact List.mem_filterMap.2 ⟨_, hv, rfl⟩

/-- A rule on statements looks at no container. -/
theorem exists_meet_of_visits {info : RuleInfo} {types : StatementType → Bool}
    {check : RuleContext → Statement → List Diagnostic} {node : Node} (hnode : node ∈ v.1.node?)
    (h : (Rule.ofStatements info types check).visits node.type = true) :
    ∃ s, node = .statement s ∧ v.1 = .meet s ∧ types s.type = true := by
  obtain ⟨step, sc⟩ := v
  cases step with
  | enter c =>
    obtain rfl : .container c = node := Option.some.inj hnode
    cases c <;> cases h
  | meet s =>
    obtain rfl : .statement s = node := Option.some.inj hnode
    exact ⟨s, rfl, rfl, h⟩
  | leave c => cases hnode

variable {source : String} {d : Document} {config : FormatConfig}

/-- **The formatter and the rules agree on the layout.**  A source has no defect, its model is valid
and holds no directive, and the pass that lays out the gaps does not fail on it.  Then the rule on
indentation finds nothing in the model that the pass leads to, if it counts as many columns for a
level as the pass, and the rule on blanks at the end of lines finds nothing outside sections of
comments. -/
theorem layout_agreed (hp : (parse source).errors = []) (hi : (parse source).issues = [])
    (hs : (parse source).IsSilent) (hc : FormatConfig.read d = .ok config)
    (hrun : (Gaps.pass.apply ⟨config, config.paramsOf Gaps.pass.name, (parse source).newline.text⟩
      (parse source)).fault = none)
    (hwidth : (lint.paramsOf SpaceRules.indent.code).number "indent" 4 = config.indent) :
    let f := (Gaps.pass.apply ⟨config, config.paramsOf Gaps.pass.name,
      (parse source).newline.text⟩ (parse source)).tree
    (checkFile f text lint [SpaceRules.indent]).diagnostics = [] ∧
      ∀ v ∈ f.visits, (∀ s ∈ v.2.section?, s.kind ≠ .comments) →
        ∀ found ∈ checkStep lint text (sourceLines text) f [SpaceRules.trailing] v,
          found.diagnostics = [] := by
  intro f
  have hvalid := PassSetup.isValid_of_config (FormatConfig.isValid_of_read hc)
    (config.paramsOf Gaps.pass.name) (parse source)
  have hfit := Gaps.fit_sections (File.Intact.fair ⟨sound_parse hp, hi⟩) hs
  have hmeets := Gaps.meets_stands hvalid hfit hrun
  refine ⟨diagnostics_checkFile ?_, fun v hv hsect => diagnostics_checkStep ?_⟩
  · intro v hv r hr node hnode hvisits
    obtain rfl := List.mem_singleton.1 hr
    obtain ⟨s, rfl, hmeet, htypes⟩ := exists_meet_of_visits hnode hvisits
    obtain ⟨sect, hsect, hstands⟩ := hmeets (s, v.2) (mem_meetings hv hmeet)
    by_cases hcomments : sect.kind = .comments
    · refine SpaceRules.validate_indent_of_comments fun s hs => ?_
      obtain rfl : sect = s := Option.some.inj (hsect.symm.trans hs)
      exact hcomments
    · obtain ⟨hbelow, hanchors⟩ := hstands hcomments
      have hne : s.type ≠ .emptyLine := fun he => by simp [he] at htypes
      exact SpaceRules.validate_indent hwidth hbelow hne hanchors
  · intro r hr node hnode hvisits
    obtain rfl := List.mem_singleton.1 hr
    obtain ⟨s, rfl, hmeet, -⟩ := exists_meet_of_visits hnode hvisits
    obtain ⟨sect, hin, hstands⟩ := hmeets (s, v.2) (mem_meetings hv hmeet)
    obtain ⟨⟨depth, -, hat⟩, -⟩ := hstands (hsect sect hin)
    exact SpaceRules.validate_trailing hat

set_option maxRecDepth 100000 in
/-- A loop with a branch in it and comments at all levels, out of place in the source. -/
theorem layout_agreed_nested :
    let source := "*** Settings ***\nLibrary  X\n# s\n*** Test Cases ***\n# before\nA\n  # c\n" ++
      "\tFOR  ${i}  IN  1  \n        # in\n     IF  $i\n  Log  x  \n# end\n  ELSE\n No\n  END\n" ++
      "  END\n  # last\n"
    let config := { FormatConfig.default with indent := 2 }
    let lint := { LintConfig.default with
      params := Table.set LintConfig.default.params "BAD_INDENT" [("indent", .number 2)] }
    let after := Gaps.pass.apply ⟨config, config.paramsOf Gaps.pass.name,
      (parse source).newline.text⟩ (parse source)
    let text := after.tree.render
    (parse source).errors = [] ∧ (parse source).issues = [] ∧
      (∀ s ∈ (parse source).statements, s.directive? = none) ∧
      FormatConfig.read (.mapping [("indent", .number 2)]) = .ok config ∧ after.fault = none ∧
      ((parse source).visits.flatMap fun v =>
        (checkStep lint source (sourceLines source) (parse source)
          [SpaceRules.indent, SpaceRules.trailing] v).flatMap (·.diagnostics)).length = 12 ∧
      (checkFile after.tree text lint [SpaceRules.indent]).diagnostics = [] ∧
      ∀ v ∈ after.tree.visits, (∀ s ∈ v.2.section?, s.kind ≠ .comments) →
        ∀ found ∈ checkStep lint text (sourceLines text) after.tree [SpaceRules.trailing] v,
          found.diagnostics = [] := by
  intro source config lint after text
  obtain ⟨hp, hi, hs, hrun, hbefore⟩ : (parse source).errors = [] ∧
      (parse source).issues = [] ∧ (∀ s ∈ (parse source).statements, s.directive? = none) ∧
      after.fault = none ∧ ((parse source).visits.flatMap fun v =>
        (checkStep lint source (sourceLines source) (parse source)
          [SpaceRules.indent, SpaceRules.trailing] v).flatMap (·.diagnostics)).length = 12 := by
    decide +kernel
  have hc : FormatConfig.read (.mapping [("indent", .number 2)]) = .ok config :=
    eq_ok_of_toOption (by decide +kernel)
  exact ⟨hp, hi, hs, hc, hrun, hbefore, layout_agreed hp hi hs hc hrun (by decide +kernel)⟩

end

set_option maxRecDepth 100000 in
/-- **Where the pass fails, the rule goes by a width that no line has.**  A level is wider than a
text can be, so the pass leaves the lines as they are. -/
theorem indent_of_failed_layout :
    let source := "*** Test Cases ***\nA\n    Log    x\n"
    let config := { FormatConfig.default with indent := 600000000 }
    let lint := { LintConfig.default with
      params := Table.set LintConfig.default.params "BAD_INDENT" [("indent", .number 600000000)] }
    let f := (Gaps.pass.apply ⟨config, config.paramsOf Gaps.pass.name,
      (parse source).newline.text⟩ (parse source)).tree
    (parse source).errors = [] ∧ (parse source).issues = [] ∧
      (∀ s ∈ (parse source).statements, s.directive? = none) ∧
      FormatConfig.read (.mapping [("indent", .number 600000000)]) = .ok config ∧
      LintConfig.read (.mapping [("params",
        .mapping [("BAD_INDENT", .mapping [("indent", .number 600000000)])])]) = .ok lint ∧
      (lint.paramsOf SpaceRules.indent.code).number "indent" 4 = config.indent ∧
      (checkFile f source lint [SpaceRules.indent]).diagnostics.map (·.message) =
        ["Line is under-indented"] := by
  intro source config lint f
  obtain ⟨hc, hlint⟩ : (FormatConfig.read (.mapping [("indent", .number 600000000)])).toOption =
      some config ∧ (LintConfig.read (.mapping [("params",
        .mapping [("BAD_INDENT", .mapping [("indent", .number 600000000)])])])).toOption =
      some lint := by decide +kernel
  obtain ⟨hp, hi, hs, hfound⟩ : (parse source).errors = [] ∧ (parse source).issues = [] ∧
      (∀ s ∈ (parse source).statements, s.directive? = none) ∧
      (lint.paramsOf SpaceRules.indent.code).number "indent" 4 = config.indent ∧
      (checkFile f source lint [SpaceRules.indent]).diagnostics.map (·.message) =
        ["Line is under-indented"] := by
    decide +kernel
  exact ⟨hp, hi, hs, eq_ok_of_toOption hc, eq_ok_of_toOption hlint, hfound⟩

end RobotSuite
