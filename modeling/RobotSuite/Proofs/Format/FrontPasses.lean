/-
# Passes in front of the layout

What holds of all statements of a file holds behind a pass that puts nothing else there: sections
are merged of statements that were there and of comments (`MergeSections.forall_apply`), settings are
put in order among empty lines (`OrderSettings.forall_apply`), and no other name makes a setting
another one (`UniqueTags.forall_apply_setting`).  So statements stay told apart by their places, and
what holds of the tags of a source holds of those that are unified (`UniqueTags.inCase_apply`).

A configuration settles a source if what it asks for can be done once and for all
(`FormatConfig.Settles`).  Then settings are in order and tags in their case when lines are to be
spaced (`FormatConfig.isReady_unspaced`).
-/

import RobotSuite.Proofs.Format.OrderSettings.Idempotence

namespace RobotSuite

/-! ## Merged sections -/

namespace MergeSections
variable {setup : PassSetup} {f : File}

/-- What holds of the sections of a file, of any two that are merged, and with line breaks at their
ends, holds behind the pass. -/
theorem forall_sections {P : Section → Prop} (ht : ∀ s, P s → P (s.terminate setup.newline))
    (hm : ∀ t s, P t → P s → t.kind = s.kind → P (mergeInto setup.newline t s))
    (h : ∀ s ∈ f.sections, P s) : ∀ s ∈ (pass.apply setup f).tree.sections, P s := by
  rw [(run_pass setup f).2]
  dsimp only
  split
  · exact h
  · cases ha : arrange (setup.params.texts "order" SectionKind.recommendedOrder) setup.newline
        f.sections with
    | none => exact h
    | some new =>
      obtain ⟨ordered, rfl, hordered⟩ := arrange_eq_some ha hm h
      rw [Decision.ofOption, Decision.outcome]
      split
      · exact forall_of_ended ht (ended_terminateFront ordered) hordered
      · exact h

/-- Sections keep their kinds. -/
theorem forall_kinds {P : SectionKind → Prop} (h : ∀ s ∈ f.sections, P s.kind) :
    ∀ s ∈ (pass.apply setup f).tree.sections, P s.kind :=
  forall_sections (P := fun s => P s.kind) (fun s hs => by rwa [s.terminate_kind])
    (fun t s ht _ _ => by rwa [mergeInto, t.terminate_kind]) h

/-- **What holds of statements and of comments holds behind the pass.** -/
theorem forall_apply {Q : Statement → Prop} (hc : ∀ ts, Q (.create .comment ts))
    (ht : ∀ newline s, Q s → Q (s.terminate newline)) (h : ∀ s ∈ f.statements, Q s) :
    ∀ s ∈ (pass.apply setup f).tree.statements, Q s := by
  rw [File.statements, List.forall_mem_flatMap] at h ⊢
  have hterminate (s : Section) (hs : ∀ r ∈ s.statements, Q r) :
      ∀ r ∈ (s.terminate setup.newline).statements, Q r :=
    (s.completed_terminate setup.newline).forall (ht setup.newline) hs
  refine forall_sections (P := fun s => ∀ r ∈ s.statements, Q r) hterminate
    (fun t s ht hs _ => ?_) h
  rw [statements_mergeInto, List.forall_mem_append, List.forall_mem_append]
  refine ⟨hterminate t ht, fun r hr => ?_, fun r hr => hs r (List.mem_append_right _ hr)⟩
  obtain ⟨-, -, c, -, rfl⟩ := mem_headerComment hr
  exact hc _

/-- **Behind the pass the sections of a valid source are clear.** -/
theorem clear_apply {source : String} (hp : (parse source).errors = [])
    (hi : (parse source).issues = [])
    (hkinds : ∀ s ∈ (parse source).sections, s.kind.isInherited = false)
    (hoff : (parse source).disablesInSections info.name = false)
    (hn : setup.newline = (parse source).newline.text) :
    ∀ s ∈ (pass.apply setup (parse source)).tree.sections, s.IsClear := by
  have hbare : ∀ s ∈ (parse source).sections, s.kind.isInherited = true →
      ∀ h ∈ s.header, commentTexts h.tokens = [] := fun s hs hk => by
    rw [hkinds s hs] at hk
    cases hk
  obtain ⟨lead, others, hcut, htree, -⟩ := exists_arranged hp hi hbare hoff hn
  rw [htree, ← hcut]
  exact clear_arrange (newline_of_parse hn) _ (mergeable_parse hp hi hbare)

end MergeSections

/-! ## Ordered settings -/

namespace OrderSettings
variable {setup : PassSetup} {f : File} (hn : setup.newline = "\n" ∨ setup.newline = "\r\n")
  (ho : (allGroups (setup.params.texts "groupOrder" defaultOrder)).Nodup)
  (hs : ∀ s ∈ f.sections, s.IsClear)
include hn ho hs

/-- What holds of the sections of a file, and of those of settings when these are in order, holds
behind the pass. -/
theorem forall_sections {P : Section → Prop}
    (hm : ∀ s, s.kind = .settings → s.IsClear → P s →
      P (arranged (setup.params.texts "groupOrder" defaultOrder) setup.newline s))
    (h : ∀ s ∈ f.sections, P s) : ∀ s ∈ (pass.apply setup f).tree.sections, P s := by
  obtain ⟨-, new, htree, hlength, hnew⟩ := tree_pass hn ho hs
  rw [htree]
  intro r hr
  obtain ⟨i, hi, rfl⟩ := List.mem_iff_getElem.1 hr
  have hold : i < f.sections.length := hlength ▸ hi
  obtain ⟨hcut, hfront⟩ := exists_cut hold
  have hleft := hnew _ _ _ hcut
  rw [hfront, List.getElem?_eq_getElem hi, Option.some_inj] at hleft
  have hmem := List.getElem_mem hold
  show P new[i]
  rw [hleft]
  rcases left_cases setup f (f.sections.take i) f.sections[i] with heq | ⟨hk, heq⟩
  · rw [heq]
    exact h _ hmem
  · rw [heq]
    exact hm _ hk (hs _ hmem) (h _ hmem)

/-- Sections keep their kinds. -/
theorem forall_kinds {P : SectionKind → Prop} (h : ∀ s ∈ f.sections, P s.kind) :
    ∀ s ∈ (pass.apply setup f).tree.sections, P s.kind :=
  forall_sections hn ho hs (P := fun s => P s.kind) (fun _ _ _ hP => hP) h

/-- **What holds of statements and of empty lines holds behind the pass.** -/
theorem forall_apply {Q : Statement → Prop} (he : ∀ newline, Q (.emptyLine newline))
    (ht : ∀ newline s, Q s → Q (s.terminate newline)) (h : ∀ s ∈ f.statements, Q s) :
    ∀ s ∈ (pass.apply setup f).tree.statements, Q s := by
  rw [File.statements, List.forall_mem_flatMap] at h ⊢
  refine forall_sections hn ho hs (P := fun s => ∀ r ∈ s.statements, Q r)
    (fun s hk hclear hall => ?_) h
  rw [Section.statements, body_of_sound hclear.sound hk, itemsStatements_map_statement,
    List.forall_mem_append] at hall
  rw [statements_arranged, List.forall_mem_append]
  exact ⟨hall.1, forall_arrange (he _) (ht _) hall.2⟩

end OrderSettings

/-! ## Places of statements -/

section
variable {setup : PassSetup} {f : File}

/-- A statement that is spelled in another way is told apart by its place. -/
theorem Spelling.label_respell {canonical : Option String} {s new : Statement}
    (h : respell canonical s = some new) : new.label = none := by
  obtain ⟨v, -, -, rfl⟩ := respell_eq_some h
  rfl

/-- A setting whose tags are unified is told apart by its place. -/
theorem UniqueTags.label_unify {mode : TagCase} {s new : Statement} (h : unify mode s = some new) :
    new.label = none := by
  rw [unify] at h
  split at h
  · cases h
  · dsimp only at h
    split at h
    · rw [← Option.some.inj h]
      rfl
    · cases h

/-- A line break at the end puts no label. -/
theorem terminate_label (newline : String) (s : Statement) (h : s.label = none) :
    (s.terminate newline).label = none := by
  rw [Statement.terminate]
  split
  · rfl
  · split
    · rfl
    · exact h

end

/-! ## Tags -/

namespace UniqueTags
variable {setup : PassSetup} {f : File} {mode : TagCase} {s : Statement} {P : String → Prop}

/-- What holds of the tags of a statement shows in its data. -/
theorem tellsByData_tagCells (P : String → Prop) :
    TellsByData fun s => ∀ t ∈ s.tagCells, P t.value := by
  intro s r h hs
  have hvalues : ∀ v ∈ r.tagCells.map (·.value), P v := by
    rw [h.tags]
    exact List.forall_mem_map.2 hs
  exact List.forall_mem_map.1 hvalues

/-- Nothing but settings has tags. -/
theorem tagCells_eq_nil (h : s.type ≠ .setting) (hb : s.type ≠ .blockSetting) : s.tagCells = [] := by
  rw [Statement.tagCells, if_neg]
  exact fun hholds => (type_of_holdsTags hholds).elim h hb

/-- Headers have no tags under any name. -/
theorem forall_apply_header (h : ∀ s ∈ f.statements, ∀ t ∈ s.tagCells, P t.value) :
    ∀ s ∈ (Spelling.headerPass.apply setup f).tree.statements, ∀ t ∈ s.tagCells, P t.value := by
  refine Pass.forall_apply_of_keeps (Q := fun s => ∀ t ∈ s.tagCells, P t.value)
    (fun {_ s new} _ hput _ => ?_) h
  obtain ⟨v, hheader, -, rfl⟩ := Spelling.respell_eq_some hput
  have htype : s.type = .sectionHeader := by
    by_contra ht
    rw [Spelling.header?_eq_none ht] at hheader
    cases hheader
  have hnone : (s.withTokens (Spelling.rename v s.tokens)).tagCells = [] :=
    tagCells_eq_nil (by simp [Statement.withTokens, htype]) (by simp [Statement.withTokens, htype])
  rw [hnone]
  exact List.forall_mem_nil _

/-- A setting has the same tags under its canonical name. -/
theorem forall_apply_setting (hf : f.IsSound)
    (h : ∀ s ∈ f.statements, ∀ t ∈ s.tagCells, P t.value) :
    ∀ s ∈ (Spelling.settingPass.apply setup f).tree.statements, ∀ t ∈ s.tagCells, P t.value := by
  refine Pass.forall_apply_of_keeps (Q := fun s => ∀ t ∈ s.tagCells, P t.value)
    (fun {_ s new} hmem hput hs => ?_) h
  obtain ⟨v, hname, hdata, rfl⟩ := Spelling.respell_eq_some hput
  have htype : s.type = .setting ∨ s.type = .blockSetting :=
    (Spelling.setting?_cases hname).imp And.left And.left
  obtain ⟨kind, hheader | hsound⟩ := hf.statement_cases s hmem
  · rcases htype with ht | ht <;> cases hheader.type.symm.trans ht
  · have hcall : s.type ≠ .keywordCall := by rcases htype with ht | ht <;> simp [ht]
    obtain ⟨c, rest, hold, hnew⟩ :=
      Spelling.dataTokens_rename hsound.laid hdata (Spelling.isName_setting? hname)
    obtain ⟨hsuite, hblock⟩ := Spelling.settings_respelled hsound hname
    have hcells : (s.withTokens (Spelling.rename v s.tokens)).tagCells = s.tagCells := by
      rw [Statement.tagCells, Statement.tagCells, Statement.holdsTags, Statement.holdsTags, hsuite,
        hblock, (data_eq hcall hold).2,
        (data_eq (s := s.withTokens (Spelling.rename v s.tokens)) hcall hnew).2]
    rw [hcells]
    exact hs

/-- **Behind the pass tags are in their case,** if the case is settled once it has been applied. -/
theorem inCase_apply (hf : f.IsFair) (hs : f.IsSilent)
    (h : ∀ s ∈ f.statements, ∀ t ∈ s.tagCells,
      (caseOf setup).apply ((caseOf setup).apply t.value) = (caseOf setup).apply t.value) :
    ∀ s ∈ (pass.apply setup f).tree.statements, ∀ t ∈ s.tagCells,
      (caseOf setup).apply t.value = t.value := by
  rw [pass, Pass.statements_ofStatements, List.forall_mem_map]
  intro m hm
  rw [Pass.made_of_silent hs _ m hm]
  show ∀ t ∈ ((Decision.ofOption (unify (caseOf setup) m.1)).outcome m.1
    (replacementIssues m.1)).tagCells, _
  have hmem : m.1 ∈ f.statements := f.map_fst_meetings ▸ List.mem_map_of_mem hm
  obtain ⟨kind, hheader | hsound⟩ := hf.sound.statement_cases m.1 hmem
  · have hnone : m.1.tagCells = [] :=
      tagCells_eq_nil (by simp [hheader.type]) (by simp [hheader.type])
    have hkept : unify (caseOf setup) m.1 = none := by
      rw [unify, hnone]
      rfl
    rw [hkept]
    show ∀ t ∈ m.1.tagCells, _
    rw [hnone]
    exact List.forall_mem_nil _
  · rw [outcome_unify hsound (hf.flaws m.1 hmem)]
    cases hholds : m.1.holdsTags with
    | false =>
      rw [unified_of_not_holdsTags hholds, Statement.tagCells, hholds]
      exact List.forall_mem_nil _
    | true =>
      have hcells := (isUnified (caseOf setup) hsound hholds).cells
      have hvalues : ∀ v ∈ (unified (caseOf setup) m.1).tagCells.map (·.value),
          (caseOf setup).apply v = v := by
        rw [hcells, leftTags, List.forall_mem_map]
        exact fun t ht => h m.1 hmem t ((sublist_firsts _ _ _).subset ht)
      exact List.forall_mem_map.1 hvalues

end UniqueTags
section
variable {config : FormatConfig} {f g : File} {passes : List Pass} {gaps : SectionKind → Bool}

/-! ## Passes in front of the layout -/

/-- A file is calm behind a pass in front of the layout. -/
theorem File.IsCalm.after_front (h : f.IsCalm) (hc : config.IsValid) {p : Pass}
    (hp : p ∈ Pass.front) : (config.after p f).IsCalm := by
  have hv := PassSetup.isValid_of_config hc (config.paramsOf p.name) f
  have hall := Pass.mem_all_of_front p hp
  have horderly : f.IsOrderly := ⟨h.sound, h.leads⟩
  rw [FormatConfig.after]
  split
  · refine ⟨h.toIsFair.apply hv hall, (horderly.apply hv hall).leads, ?_⟩
    have hsilent : (runPasses config f [p]).IsSilent :=
      silent_runPasses hc (List.forall_mem_singleton.2 hp) horderly h.silent
    exact hsilent
  · exact h

/-- A file stays calm behind passes. -/
theorem File.IsCalm.foldl (h : f.IsCalm) (hc : config.IsValid)
    (hp : ∀ p ∈ passes, p ∈ Pass.all) :
    (passes.foldl (fun f p => config.after p f) f).IsCalm := by
  induction passes generalizing f with
  | nil => exact h
  | cons p passes ih =>
    rw [List.forall_mem_cons] at hp
    have hmem : p ∈ Pass.front ∨ p ∈ Pass.layouts := List.mem_append.1 hp.1
    exact ih (hmem.elim (h.after_front hc) (h.after hc)) hp.2

/-- The passes in front of the layout look at what shows. -/
theorem view_after_front (gaps : SectionKind → Bool) (hc : config.IsValid) (hf : f.IsSound)
    (hg : g.IsSound) {p : Pass} (hp : p ∈ Pass.front)
    (h : g.view (gapView gaps) = f.view (gapView gaps)) :
    (config.after p g).view (gapView gaps) = (config.after p f).view (gapView gaps) := by
  have hnewline : (g.view (gapView gaps)).newline = (f.view (gapView gaps)).newline := by rw [h]
  change g.newline = f.newline at hnewline
  have hv := PassSetup.isValid_of_config hc (config.paramsOf p.name) f
  rw [FormatConfig.after, FormatConfig.after]
  split
  · rw [FormatConfig.setupOf, hnewline, ← Pass.commutes_front gaps p hp _ g hv hg,
      ← Pass.commutes_front gaps p hp _ f hv hf, h]
  · exact h

/-- **What each of some passes leaves,** they leave one behind the other. -/
theorem view_foldl_front (gaps : SectionKind → Bool) (hc : config.IsValid) (hf : f.IsSound)
    (hp : ∀ p ∈ passes, p ∈ Pass.front ∧
      (config.after p f).view (gapView gaps) = f.view (gapView gaps))
    (hg : g.IsCalm) (h : g.view (gapView gaps) = f.view (gapView gaps)) :
    (passes.foldl (fun f p => config.after p f) g).view (gapView gaps) =
      f.view (gapView gaps) := by
  induction passes generalizing g with
  | nil => exact h
  | cons p passes ih =>
    rw [List.forall_mem_cons] at hp
    obtain ⟨⟨hfront, hrests⟩, hp⟩ := hp
    exact ih hp (hg.after_front hc hfront)
      ((view_after_front gaps hc hf hg.sound hfront h).trans hrests)

/-- A file stays intact behind a pass. -/
theorem File.Intact.after (h : f.Intact) (hc : config.IsValid) {p : Pass} (hp : p ∈ Pass.all) :
    (config.after p f).Intact := by
  rw [FormatConfig.after]
  split
  · exact h.apply (PassSetup.isValid_of_config hc _ f) hp
  · exact h

/-- No directive switches a pass off in a file without directives. -/
theorem File.IsSilent.disablesInSections (h : f.IsSilent) (pass : String) :
    f.disablesInSections pass = false := by
  rw [File.disablesInSections, List.any_eq_false]
  intro s hs
  have hsilent : ∀ r ∈ s.statements, r.directive? = none := fun r hr =>
    h r (List.mem_flatMap.2 ⟨s, hs, hr⟩)
  rw [Section.disables, Bool.not_eq_true, Bool.or_eq_false_iff]
  constructor
  · cases hheader : s.header with
    | none => rfl
    | some r =>
      have hr : r ∈ s.statements := List.mem_append_left _ (by simp [hheader])
      rw [Option.bind_some, hsilent r hr]
      rfl
  · rw [List.any_eq_false]
    intro c hmem
    obtain ⟨item, hitem, hc⟩ := List.mem_filterMap.1 hmem
    have hr : c ∈ s.statements := by
      refine List.mem_append_right _ (List.mem_flatMap.2 ⟨item, hitem, ?_⟩)
      cases item with
      | statement r => exact Option.some.inj hc ▸ List.mem_singleton_self _
      | block b => cases hc
    rw [hsilent c hr]
    simp

/-- Sections that are seen alike are of the same kinds. -/
theorem File.forall_kinds_of_view {v : View} {P : SectionKind → Prop} (h : f.view v = g.view v)
    (hf : ∀ s ∈ f.sections, P s.kind) : ∀ s ∈ g.sections, P s.kind := by
  have hkinds (f : File) : (f.view v).sections.map (·.kind) = f.sections.map (·.kind) := by
    show (f.sections.map _).map _ = _
    rw [List.map_map]
    rfl
  have hall : ∀ k ∈ g.sections.map (·.kind), P k := by
    rw [← hkinds, ← h, hkinds]
    exact List.forall_mem_map.2 hf
  exact List.forall_mem_map.1 hall

end

/-! ## Files between passes -/

/-- The order of groups that is configured. -/
def FormatConfig.groupOrder (config : FormatConfig) : List String :=
  (config.paramsOf OrderSettings.pass.name).texts "groupOrder" OrderSettings.defaultOrder

/-- The case of tags that is configured. -/
def FormatConfig.tagCase (config : FormatConfig) : TagCase :=
  (TagCase.ofName? ((config.paramsOf UniqueTags.pass.name).text "case" "lowercase")).getD .lower

/-- The gaps that show behind all passes: those that are not laid out. -/
def FormatConfig.looseGaps (config : FormatConfig) : SectionKind → Bool := fun kind =>
  !(config.runs Gaps.pass.info && kind.isLaidOut)

/-- Whether the case of a text stays when it is applied again. -/
def TagCase.Settles (mode : TagCase) (v : String) : Prop :=
  mode.apply (mode.apply v) = mode.apply v

/-- A statement that is told apart by its place, and whose tags are in their case once it has been
applied to them. -/
structure FormatConfig.IsSteady (config : FormatConfig) (s : Statement) : Prop where
  label : s.label = none
  tags : config.runs UniqueTags.pass.info = true → ∀ t ∈ s.tagCells, config.tagCase.Settles t.value

/-- A file that the passes in front of the layout can put in order once and for all. -/
structure FormatConfig.IsReady (config : FormatConfig) (f : File) : Prop
    extends EmptyLines.IsSpaceable f where
  steady : ∀ s ∈ f.statements, config.IsSteady s

namespace FormatConfig
variable {config : FormatConfig} {f : File} {s : Statement}

/-- A statement without tags and without a label is steady. -/
theorem isSteady_of_not_setting (hl : s.label = none) (h : s.type ≠ .setting)
    (hb : s.type ≠ .blockSetting) : config.IsSteady s := by
  refine ⟨hl, fun _ => ?_⟩
  rw [UniqueTags.tagCells_eq_nil h hb]
  exact List.forall_mem_nil _

/-- A statement with the data of a steady one is steady, unless it has a label. -/
theorem IsSteady.of_echoes {r : Statement} (h : config.IsSteady s) (he : s.Echoes r)
    (hl : r.label = none) : config.IsSteady r :=
  ⟨hl, fun hruns => UniqueTags.tellsByData_tagCells config.tagCase.Settles he (h.tags hruns)⟩

/-- A steady statement with a line break at its end is steady. -/
theorem IsSteady.terminate (newline : String) (h : config.IsSteady s) :
    config.IsSteady (s.terminate newline) :=
  h.of_echoes ⟨terminate_type newline s, (texts_terminate newline s).1⟩
    (terminate_label newline s h.label)

/-- A file stays ready behind a pass that keeps kinds of sections and leaves statements steady. -/
theorem IsReady.after (h : config.IsReady f) (hc : config.IsValid) {p : Pass} (hp : p ∈ Pass.front)
    (hkinds : config.runs p.info = true → ∀ s ∈ (p.apply (config.setupOf p f) f).tree.sections,
      s.kind.isInherited = false)
    (hsteady : config.runs p.info = true → ∀ s ∈ (p.apply (config.setupOf p f) f).tree.statements,
      config.IsSteady s) : config.IsReady (config.after p f) := by
  have hcalm := h.toIsCalm.after_front hc hp
  have hintact := File.Intact.after ⟨h.sound, h.valid⟩ hc (Pass.mem_all_of_front p hp)
  by_cases hruns : config.runs p.info = true
  · rw [FormatConfig.after, if_pos hruns] at hcalm hintact ⊢
    exact ⟨⟨hcalm, hintact.valid, hkinds hruns, fun s hs => (hsteady hruns s hs).label⟩,
      hsteady hruns⟩
  · rwa [FormatConfig.after, if_neg hruns]

/-- A file that is ready stays so when sections are merged. -/
theorem IsReady.after_merge (h : config.IsReady f) (hc : config.IsValid) :
    config.IsReady (config.after MergeSections.pass f) :=
  h.after hc List.mem_cons_self
    (fun _ => MergeSections.forall_kinds (P := fun kind => kind.isInherited = false) h.kinds)
    fun _ => MergeSections.forall_apply (fun _ => isSteady_of_not_setting rfl nofun nofun)
      (fun newline _ hs => hs.terminate newline) h.steady

/-- A pass is set up with one of two line breaks. -/
theorem newline_setupOf (config : FormatConfig) (p : Pass) (f : File) :
    (config.setupOf p f).newline = "\n" ∨ (config.setupOf p f).newline = "\r\n" :=
  OrderSettings.newline_text f.newline

/-- A pass is set up with a line break. -/
theorem newline_setupOf_ne (config : FormatConfig) (p : Pass) (f : File) :
    (config.setupOf p f).newline ≠ "" := by
  rcases config.newline_setupOf p f with h | h <;> rw [h] <;> decide

/-- A file that is ready stays so when settings are ordered, if no group is named twice. -/
theorem IsReady.after_order (h : config.IsReady f) (hc : config.IsValid)
    (ho : config.runs OrderSettings.pass.info = true →
      (OrderSettings.allGroups config.groupOrder).Nodup)
    (hs : ∀ s ∈ f.sections, s.IsClear) :
    config.IsReady (config.after OrderSettings.pass f) := by
  have hn := newline_setupOf config OrderSettings.pass f
  refine h.after hc (List.mem_of_getElem? (i := 1) rfl) (fun hruns => ?_) fun hruns => ?_
  · exact OrderSettings.forall_kinds hn (ho hruns) hs (P := fun kind => kind.isInherited = false)
      h.kinds
  · exact OrderSettings.forall_apply hn (ho hruns) hs
      (fun _ => isSteady_of_not_setting rfl nofun nofun)
      (fun newline _ hs => hs.terminate newline) h.steady

/-- A file that is ready stays so when headers are spelled in one way. -/
theorem IsReady.after_header (h : config.IsReady f) (hc : config.IsValid) :
    config.IsReady (config.after Spelling.headerPass f) := by
  have hv := PassSetup.isValid_of_config hc (config.paramsOf Spelling.headerPass.name) f
  refine h.after hc (List.mem_of_getElem? (i := 2) rfl) (fun _ => ?_)
    fun hruns s hs => ⟨?_, fun htags => ?_⟩
  · have hview := OrderSettings.view_headerPass config.looseGaps hv h.sound
    exact File.forall_kinds_of_view (P := fun kind => kind.isInherited = false) hview.symm h.kinds
  · exact Pass.forall_apply_of_keeps (Q := fun s => s.label = none)
      (fun _ hput _ => Spelling.label_respell hput) h.labels s hs
  · exact UniqueTags.forall_apply_header (fun s hs => (h.steady s hs).tags htags) s hs

/-- A file that is ready stays so when settings are spelled in one way. -/
theorem IsReady.after_setting (h : config.IsReady f) (hc : config.IsValid) :
    config.IsReady (config.after Spelling.settingPass f) := by
  have hv := PassSetup.isValid_of_config hc (config.paramsOf Spelling.settingPass.name) f
  refine h.after hc (List.mem_of_getElem? (i := 3) rfl) (fun _ => ?_)
    fun hruns s hs => ⟨?_, fun htags => ?_⟩
  · have hview := OrderSettings.view_settingPass config.looseGaps hv h.sound
    exact File.forall_kinds_of_view (P := fun kind => kind.isInherited = false) hview.symm h.kinds
  · exact Pass.forall_apply_of_keeps (Q := fun s => s.label = none)
      (fun _ hput _ => Spelling.label_respell hput) h.labels s hs
  · exact UniqueTags.forall_apply_setting h.sound (fun s hs => (h.steady s hs).tags htags) s hs

end FormatConfig

/-! ## Settled sources -/

/-- Whether what is configured can be done with a file once and for all: no group of settings is
named twice, blocks stand an empty line apart at least, and tags that are put in title case are in it
then.  Tags that are put in another case always are (`TagCase.apply_apply`). -/
structure FormatConfig.Settles (config : FormatConfig) (f : File) : Prop where
  groups : config.runs OrderSettings.pass.info = true →
    (OrderSettings.allGroups config.groupOrder).Nodup
  lines : config.runs EmptyLines.pass.info = true → ∀ type,
    1 ≤ (EmptyLines.spacingOf (config.setupOf EmptyLines.pass f)).between type
  tags : config.runs UniqueTags.pass.info = true → config.tagCase = .title →
    ∀ s ∈ f.statements, ∀ t ∈ s.tagCells, TagCase.title.Settles t.value

/-- What the passes in front of the one that spaces lines make of a file. -/
def FormatConfig.unspaced (config : FormatConfig) (f : File) : File :=
  Pass.front.dropLast.foldl (fun f p => config.after p f) f

namespace FormatConfig
variable {config : FormatConfig} {source : String}

/-- The statements of a source that can be settled are steady. -/
theorem Settles.isSteady (h : config.Settles (parse source)) :
    ∀ s ∈ (parse source).statements, config.IsSteady s := by
  refine fun s hs => ⟨label_parse source s hs, fun hruns t ht => ?_⟩
  by_cases htitle : config.tagCase = .title
  · rw [htitle]
    exact h.tags hruns htitle s hs t ht
  · exact TagCase.apply_apply htitle t.value

/-- What each run of a pass leaves of what shows is left, whether the pass is switched on or not. -/
theorem view_after {f : File} {v : View} {p : Pass} (hc : config.IsValid)
    (h : ∀ setup : PassSetup, setup.IsValid → (p.apply setup f).tree.view v = f.view v) :
    (config.after p f).view v = f.view v := by
  rw [after]
  split
  · exact h _ (PassSetup.isValid_of_config hc _ f)
  · rfl

/-- The sections of a source are clear behind the pass that merges them, switched on or not. -/
theorem clear_after_merge (hp : (parse source).errors = []) (h : config.IsReady (parse source)) :
    ∀ s ∈ (config.after MergeSections.pass (parse source)).sections, s.IsClear := by
  rw [after]
  split
  · exact MergeSections.clear_apply hp h.valid h.kinds (h.silent.disablesInSections _) rfl
  · exact clear_sections hp h.valid

/-- **A source that can be settled is ready when lines are to be spaced,** its settings are in order,
and its tags in their case. -/
theorem isReady_unspaced (hc : config.IsValid) (hp : (parse source).errors = [])
    (h : config.IsReady (parse source)) (hs : config.Settles (parse source))
    (gaps : SectionKind → Bool) :
    config.IsReady (config.unspaced (parse source)) ∧
      (config.runs OrderSettings.pass.info = true → ∀ s ∈ (config.unspaced (parse source)).sections,
        OrderSettings.IsLaid config.groupOrder (parse source).newline.text gaps s) ∧
      (config.runs UniqueTags.pass.info = true → ∀ s ∈ (config.unspaced (parse source)).statements,
        ∀ t ∈ s.tagCells, config.tagCase.apply t.value = t.value) := by
  have hmerged := h.after_merge hc
  have hclear := clear_after_merge hp h
  have hordered := hmerged.after_order hc hs.groups hclear
  have hheaders := hordered.after_header hc
  have hsettings := hheaders.after_setting hc
  have hview : (config.unspaced (parse source)).view (OrderSettings.keyView gaps) =
      (config.after OrderSettings.pass (config.after MergeSections.pass (parse source))).view
        (OrderSettings.keyView gaps) :=
    (view_after hc fun setup hv => OrderSettings.view_tagPass gaps hv hsettings.sound).trans
      ((view_after hc fun setup hv => OrderSettings.view_settingPass gaps hv hheaders.sound).trans
        (view_after hc fun setup hv => OrderSettings.view_headerPass gaps hv hordered.sound))
  have hincase : config.runs UniqueTags.pass.info = true →
      ∀ s ∈ (config.unspaced (parse source)).statements, ∀ t ∈ s.tagCells,
        config.tagCase.apply t.value = t.value := by
    intro hruns
    show ∀ s ∈ (config.after UniqueTags.pass _).statements, _
    rw [after, if_pos hruns]
    exact UniqueTags.inCase_apply hsettings.toIsFair hsettings.silent fun s hmem =>
      (hsettings.steady s hmem).tags hruns
  refine ⟨?_, fun hruns => ?_, hincase⟩
  · refine hsettings.after hc (List.mem_of_getElem? (i := 4) rfl) (fun _ => ?_) fun hruns s hmem =>
      ⟨?_, fun _ t ht => ?_⟩
    · exact File.forall_kinds_of_view (P := fun kind => kind.isInherited = false)
        (OrderSettings.view_tagPass gaps (PassSetup.isValid_of_config hc _ _)
          hsettings.sound).symm hsettings.kinds
    · exact Pass.forall_apply_of_keeps (Q := fun s => s.label = none)
        (fun _ hput _ => UniqueTags.label_unify hput) hsettings.labels s hmem
    · have hcase : config.tagCase.apply t.value = t.value := by
        refine hincase hruns s ?_ t ht
        show s ∈ (config.after UniqueTags.pass _).statements
        rwa [after, if_pos hruns]
      rw [TagCase.Settles, hcase, hcase]
  · refine OrderSettings.forall_isLaid_of_view hview.symm ?_
    rw [after, if_pos hruns]
    have hnewline := config.newline_after MergeSections.pass (parse source)
    rw [← hnewline]
    exact OrderSettings.isLaid_apply (config.newline_setupOf _ _) (hs.groups hruns) hclear
      hmerged.silent

end FormatConfig

end RobotSuite
