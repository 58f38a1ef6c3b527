/-
# Formatting what has been formatted

What a run of the formatter has written is read as the model that it was written of, gaps included.
The passes in front of the layout find nothing to do there (`FormatConfig.HasSettled.rests`): what
they have done shows in the gists of the statements, which no layout changes.  So all that shows in
front of the layout is what has been laid out, and it is laid out in the same way again
(`layout_again`).  Of a first section that held nothing but empty lines nothing is written, and so it
is not read; without it the passes do the same (`full_layouts`).

Three things may be left over when all passes have run once: settings of a group that is named
twice, blocks without an empty line between them, and tags whose title case changes when it is
applied again.  A configuration settles a source without these (`FormatConfig.Settles`), and then its
text stays (`format_again_rests`).
-/

import RobotSuite.Proofs.Format.FrontPasses

namespace RobotSuite

section
variable {config : FormatConfig} {f g y : File} {passes : List Pass} {gaps : SectionKind → Bool}

/-! ## What passes have done -/

/-- Whether a file shows what the passes in front of the layout have done, the one that spaces lines
apart. -/
structure FormatConfig.HasSettled (config : FormatConfig) (f : File) : Prop where
  sections : config.runs MergeSections.pass.info = true →
    MergeSections.InOrder (config.setupOf MergeSections.pass f) f.headedKinds
  order : config.runs OrderSettings.pass.info = true →
    ∀ s ∈ f.sections, OrderSettings.IsLaid config.groupOrder f.newline.text config.looseGaps s
  headers : config.runs Spelling.headerPass.info = true →
    ∀ s ∈ f.statements, Spelling.HasCanonicalHeader s
  settings : config.runs Spelling.settingPass.info = true →
    ∀ s ∈ f.statements, Spelling.HasCanonicalSetting s
  tags : config.runs UniqueTags.pass.info = true → ∀ s ∈ f.statements, UniqueTags.HasUniqueTags s
  inCase : config.runs UniqueTags.pass.info = true →
    ∀ s ∈ f.statements, ∀ t ∈ s.tagCells, config.tagCase.apply t.value = t.value

/-- What passes have done shows in gists. -/
theorem FormatConfig.HasSettled.of_gists (h : config.HasSettled f)
    (hview : f.view (gistView config.looseGaps) = g.view (gistView config.looseGaps)) :
    config.HasSettled g where
  sections hruns := by
    have hkinds : g.headedKinds = f.headedKinds := by
      rw [← File.headedKinds_view (gistView config.looseGaps) g, ← hview, File.headedKinds_view]
    rw [hkinds]
    exact h.sections hruns
  order hruns := by
    have hnewline : f.newline = g.newline := (congrArg File.newline hview :)
    have hkeys := OrderSettings.view_key_of_gists hview
    rw [← hnewline]
    exact OrderSettings.forall_isLaid_of_view hkeys (h.order hruns)
  headers hruns := Spelling.tellsByData_header.of_gists hview (h.headers hruns)
  settings hruns := Spelling.tellsByData_setting.of_gists hview (h.settings hruns)
  tags hruns := UniqueTags.tellsByData_tags.of_gists hview (h.tags hruns)
  inCase hruns := TellsByData.of_gists
    (UniqueTags.tellsByData_tagCells fun v => config.tagCase.apply v = v) hview (h.inCase hruns)

/-- No layout changes the gist of a statement. -/
theorem gists_layouts (hc : config.IsValid) (hy : y.IsCalm) :
    (Pass.layouts.foldl (fun f p => config.after p f) y).view (gistView config.looseGaps) =
      y.view (gistView config.looseGaps) := by
  have hmem7 : Gaps.pass ∈ Pass.layouts := List.mem_cons_self
  have hmem8 : Split.pass ∈ Pass.layouts := List.mem_cons_of_mem _ List.mem_cons_self
  have hcalm7 := hy.after hc hmem7
  have hcalm8 := hcalm7.after hc hmem8
  simp only [Pass.layouts, List.foldl_cons, List.foldl_nil]
  generalize hgaps : config.looseGaps = gaps
  have h7 : (config.after Gaps.pass y).view (gistView gaps) = y.view (gistView gaps) := by
    rw [FormatConfig.after]
    split
    · rename_i hruns
      have hloose : config.looseGaps = fun kind => !kind.isLaidOut := by
        funext kind
        rw [FormatConfig.looseGaps, hruns, Bool.true_and]
      rw [← hgaps, hloose]
      exact (Gaps.keepsGists (PassSetup.isValid_of_config hc _ y)).run
        (Gaps.fit_sections hy.toIsFair hy.silent)
    · rfl
  have h8 : (config.after Split.pass (config.after Gaps.pass y)).view (gistView gaps) =
      (config.after Gaps.pass y).view (gistView gaps) := by
    rw [FormatConfig.after]
    split
    · exact (Split.keepsGists (PassSetup.isValid_of_config hc _ _) gaps).run
        (hcalm7.sound.quiet hcalm7.silent)
    · rfl
  refine Eq.trans ?_ (h8.trans h7)
  rw [FormatConfig.after]
  split
  · exact (Columns.keepsGists (PassSetup.isValid_of_config hc _ _) gaps).run
      (hcalm8.sound.quiet hcalm8.silent)
  · rfl

/-- A pass that keeps a property of the statements of calm files. -/
def Pass.KeepsEach (p : Pass) (Q : Statement → Prop) : Prop :=
  ∀ setup f, setup.IsValid → f.IsCalm → (∀ s ∈ f.statements, Q s) →
    ∀ s ∈ (p.apply setup f).tree.statements, Q s

/-- What passes keep of statements holds behind them. -/
theorem FormatConfig.forall_foldl {Q : Statement → Prop} (hc : config.IsValid) (hf : f.IsCalm)
    (hp : ∀ p ∈ passes, p ∈ Pass.front) (hkeeps : ∀ p ∈ passes, p.KeepsEach Q)
    (h : ∀ s ∈ f.statements, Q s) :
    ∀ s ∈ (passes.foldl (fun f p => config.after p f) f).statements, Q s := by
  induction passes generalizing f with
  | nil => exact h
  | cons p passes ih =>
    rw [List.forall_mem_cons] at hp hkeeps
    refine ih (hf.after_front hc hp.1) hp.2 hkeeps.2 ?_
    show ∀ s ∈ (config.after p f).statements, Q s
    rw [after]
    split
    · exact hkeeps.1 _ f (PassSetup.isValid_of_config hc _ f) hf h
    · exact h

/-- What a pass gives to statements, and what those behind it keep, holds in front of the layout if the
pass is switched on. -/
theorem FormatConfig.forall_front {Q : Statement → Prop} {a b : List Pass} {p : Pass}
    (hcut : Pass.front = a ++ p :: b) (hc : config.IsValid) (hf : f.IsCalm)
    (hruns : config.runs p.info = true)
    (hp : ∀ setup f, setup.IsValid → f.IsCalm → ∀ s ∈ (p.apply setup f).tree.statements, Q s)
    (hkeeps : ∀ p ∈ b, p.KeepsEach Q) :
    ∀ s ∈ (Pass.front.foldl (fun f p => config.after p f) f).statements, Q s := by
  have hfront : ∀ q ∈ a ++ p :: b, q ∈ Pass.front := fun q hq => hcut ▸ hq
  rw [List.forall_mem_append, List.forall_mem_cons] at hfront
  obtain ⟨hbefore, hhere, hbehind⟩ := hfront
  have hcalm := hf.foldl hc fun q hq => Pass.mem_all_of_front q (hbefore q hq)
  rw [hcut, List.foldl_append, List.foldl_cons]
  refine forall_foldl hc (hcalm.after_front hc hhere) hbehind hkeeps ?_
  rw [after, if_pos hruns]
  exact hp _ _ (PassSetup.isValid_of_config hc _ _) hcalm

/-- No pass in front of the layout moves sections but the first. -/
theorem headedKinds_after {p : Pass} (hp : p ∈ Pass.front.tail) :
    (config.after p f).headedKinds = f.headedKinds := by
  have happly : ∀ p ∈ Pass.front.tail, ∀ setup : PassSetup,
      (p.apply setup f).tree.headedKinds = f.headedKinds := by
    simp only [Pass.front, List.tail_cons, List.forall_mem_cons, List.not_mem_nil, false_imp_iff,
      implies_true, and_true]
    exact ⟨fun _ => Transform.headedKinds_run rfl f, fun _ => Transform.headedKinds_run rfl f,
      fun _ => Transform.headedKinds_run rfl f, fun _ => Transform.headedKinds_run rfl f,
      fun _ => Transform.headedKinds_run rfl f⟩
  rw [FormatConfig.after]
  split
  · exact happly p hp _
  · rfl

/-- No passes in front of the layout but the first move sections. -/
theorem headedKinds_foldl (hp : ∀ p ∈ passes, p ∈ Pass.front.tail) :
    (passes.foldl (fun f p => config.after p f) f).headedKinds = f.headedKinds := by
  induction passes generalizing f with
  | nil => rfl
  | cons p passes ih =>
    obtain ⟨hfirst, hp⟩ := List.forall_mem_cons.1 hp
    exact (ih hp).trans (headedKinds_after hfirst)

/-- Passes leave the line break of a file. -/
theorem newline_foldl (config : FormatConfig) (passes : List Pass) (f : File) :
    (passes.foldl (fun f p => config.after p f) f).newline = f.newline := by
  rw [← runPasses_filter, newline_runPasses]

/-- Empty lines come and go, and what data tells of other statements stays. -/
theorem EmptyLines.keepsEach {Q : Statement → Prop} (hQ : TellsByData Q)
    (hempty : ∀ s, s.type = .emptyLine → Q s) : pass.KeepsEach Q :=
  fun setup f hv hf => links_tellsByData hQ hempty setup f hv hf.sound hf.leads

/-- An empty line has no tags. -/
theorem Statement.tagCells_emptyLine {s : Statement} (hs : s.type = .emptyLine) : s.tagCells = [] :=
  UniqueTags.tagCells_eq_nil (by simp [hs]) (by simp [hs])

/-- **The passes in front of the layout settle a source.** -/
theorem hasSettled_parse {source : String} (hc : config.IsValid) (hp : (parse source).errors = [])
    (hf : config.IsReady (parse source)) (hs : config.Settles (parse source))
    (hfault : config.runs EmptyLines.pass.info = true → (EmptyLines.pass.apply
      (config.setupOf EmptyLines.pass (config.unspaced (parse source)))
      (config.unspaced (parse source))).fault = none) :
    config.HasSettled (Pass.front.foldl (fun f p => config.after p f) (parse source)) := by
  obtain ⟨hready, horder, hcase⟩ := config.isReady_unspaced hc hp hf hs config.looseGaps
  have hcalm := hf.toIsCalm
  have hnewline : (config.unspaced (parse source)).newline = (parse source).newline :=
    newline_foldl config _ _
  refine ⟨?sections, ?order, ?headers, ?settings, ?tags, ?inCase⟩
  case sections =>
    intro hruns
    have hsame : (Pass.front.foldl (fun f p => config.after p f) (parse source)).headedKinds =
        (config.after MergeSections.pass (parse source)).headedKinds :=
      headedKinds_foldl fun _ h => h
    rw [hsame, FormatConfig.after, if_pos hruns]
    exact MergeSections.inOrder_parse hp hf.valid
      (fun s hs hk => by rw [hf.kinds s hs] at hk; cases hk) (hf.silent.disablesInSections _) rfl
  case order =>
    intro hruns
    rw [newline_foldl]
    show ∀ s ∈ (config.after EmptyLines.pass (config.unspaced (parse source))).sections, _
    have hspaced := hready.toIsCalm.after_front hc (p := EmptyLines.pass)
      (List.mem_of_getElem? (i := 5) rfl)
    by_cases hlines : config.runs EmptyLines.pass.info = true
    · rw [FormatConfig.after, if_pos hlines] at hspaced ⊢
      have hlaid := horder hruns
      rw [← hnewline] at hlaid ⊢
      exact OrderSettings.isLaid_spaced hready.toIsSpaceable (config.newline_setupOf_ne _ _)
        (hfault hlines) hspaced.sound hlaid
    · rw [FormatConfig.after, if_neg hlines]
      exact horder hruns
  case headers =>
    intro hruns
    have hcut : Pass.front =
        [MergeSections.pass, OrderSettings.pass] ++ Spelling.headerPass :: _ := rfl
    refine FormatConfig.forall_front hcut hc hcalm hruns
      (fun _ _ hv hy => Spelling.canonical_headers hv hy.toIsFair hy.silent) ?_
    simp only [List.forall_mem_cons, List.not_mem_nil, false_imp_iff, implies_true, and_true]
    exact ⟨fun _ _ _ _ => Spelling.canonical_headers_settingPass,
      fun _ _ _ _ => UniqueTags.canonical_headers_pass,
      EmptyLines.keepsEach Spelling.tellsByData_header fun s hs ht => by cases hs.symm.trans ht⟩
  case settings =>
    intro hruns
    have hcut : Pass.front = [MergeSections.pass, OrderSettings.pass, Spelling.headerPass] ++
        Spelling.settingPass :: _ := rfl
    refine FormatConfig.forall_front hcut hc hcalm hruns
      (fun _ _ hv hy => Spelling.canonical_settings hv hy.toIsFair hy.silent) ?_
    simp only [List.forall_mem_cons, List.not_mem_nil, false_imp_iff, implies_true, and_true]
    refine ⟨fun _ _ _ hy => UniqueTags.canonical_settings_pass hy.sound,
      EmptyLines.keepsEach Spelling.tellsByData_setting fun s hs v hv => ?_⟩
    rcases Spelling.setting?_cases hv with ⟨ht, -⟩ | ⟨ht, -⟩ <;> cases hs.symm.trans ht
  case tags =>
    intro hruns
    have hcut : Pass.front = [MergeSections.pass, OrderSettings.pass, Spelling.headerPass,
        Spelling.settingPass] ++ UniqueTags.pass :: _ := rfl
    refine FormatConfig.forall_front hcut hc hcalm hruns
      (fun _ _ hv hy => UniqueTags.unique_tags hv hy.toIsFair hy.silent) ?_
    refine List.forall_mem_singleton.2 (EmptyLines.keepsEach UniqueTags.tellsByData_tags
      fun s hs => ?_)
    rw [UniqueTags.HasUniqueTags, Statement.tagCells_emptyLine hs]
    exact List.nodup_nil
  case inCase =>
    intro hruns
    have hkeeps : EmptyLines.pass.KeepsEach fun s =>
        ∀ t ∈ s.tagCells, config.tagCase.apply t.value = t.value :=
      EmptyLines.keepsEach (UniqueTags.tellsByData_tagCells fun v => config.tagCase.apply v = v)
        fun s hs => by rw [Statement.tagCells_emptyLine hs]; exact List.forall_mem_nil _
    show ∀ s ∈ ([EmptyLines.pass].foldl (fun f p => config.after p f)
      (config.unspaced (parse source))).statements, _
    exact FormatConfig.forall_foldl hc hready.toIsCalm
      (List.forall_mem_singleton.2 (List.mem_of_getElem? (i := 5) rfl))
      (List.forall_mem_singleton.2 hkeeps) (hcase hruns)

/-! ## Nothing is left to do -/

/-- Whether a pass leaves what shows of a file behind all passes as it is, if it is switched on. -/
def FormatConfig.RestsOn (config : FormatConfig) (p : Pass) (f : File) : Prop :=
  (config.after p f).view (gapView config.looseGaps) = f.view (gapView config.looseGaps)

/-- Sections keep their kinds when their lines are spaced. -/
theorem kinds_after_lines {x : File} (hx : EmptyLines.IsSpaceable x)
    (hfault : config.runs EmptyLines.pass.info = true →
      (EmptyLines.pass.apply (config.setupOf EmptyLines.pass x) x).fault = none) :
    ∀ s ∈ (config.after EmptyLines.pass x).sections, s.kind.isInherited = false := by
  by_cases hruns : config.runs EmptyLines.pass.info = true
  · rw [FormatConfig.after, if_pos hruns]
    intro r hr
    have hrun := hx.run (config.newline_setupOf_ne EmptyLines.pass x) (.inl (hfault hruns))
    obtain ⟨s, hs, hkind, -⟩ := hrun.1.leads r hr
    rw [hkind]
    exact hx.kinds s hs
  · rw [FormatConfig.after, if_neg hruns]
    exact hx.kinds

/-- Empty lines that are read have no marks. -/
theorem isUnmarked_parse (text : String) :
    ∀ s ∈ (parse text).statements, EmptyLines.IsUnmarked s := by
  intro s hs he
  obtain ⟨hfresh, howned⟩ := fresh_parseTokens (tokenize text) s hs
  exact ⟨howned (by simp [he]), hfresh.defect (by simp [he]), hfresh.label⟩

/-- **Lines that have been spaced rest,** also where sections in front have gone. -/
theorem restsOn_lines {x : File} (hx : EmptyLines.IsSpaceable x)
    (hlines : config.runs EmptyLines.pass.info = true → ∀ type,
      1 ≤ (EmptyLines.spacingOf (config.setupOf EmptyLines.pass x)).between type)
    (hfault : config.runs EmptyLines.pass.info = true →
      (EmptyLines.pass.apply (config.setupOf EmptyLines.pass x) x).fault = none)
    (hg : EmptyLines.IsSpaceable g) (hmarks : ∀ s ∈ g.statements, EmptyLines.IsUnmarked s)
    (hnewline : g.newline = x.newline) (hy : y.IsCalm)
    (hpart : y.sections <:+ (config.after EmptyLines.pass x).sections)
    (h : y.view (gistView config.looseGaps) = g.view (gistView config.looseGaps)) :
    config.RestsOn EmptyLines.pass g := by
  have hsetup : config.setupOf EmptyLines.pass g = config.setupOf EmptyLines.pass x := by
    rw [FormatConfig.setupOf, hnewline]
  by_cases hruns : config.runs EmptyLines.pass.info = true
  · rw [FormatConfig.RestsOn, FormatConfig.after, if_pos hruns, hsetup]
    rw [FormatConfig.after, if_pos hruns] at hpart
    exact EmptyLines.view_again hx hg hmarks (config.newline_setupOf_ne _ _) (hlines hruns)
      (hfault hruns) hy hpart h
  · rw [FormatConfig.RestsOn, FormatConfig.after, if_neg hruns]

/-- **Where passes have done their work,** they leave a text as it is. -/
theorem FormatConfig.HasSettled.rests {text : String} (h : config.HasSettled (parse text))
    (hp : (parse text).errors = []) (hi : (parse text).issues = [])
    (hgroups : config.runs OrderSettings.pass.info = true →
      (OrderSettings.allGroups config.groupOrder).Nodup)
    (hlines : config.RestsOn EmptyLines.pass (parse text)) :
    ∀ p ∈ Pass.front, config.RestsOn p (parse text) := by
  have hf := sound_parse hp
  have hafter {p : Pass} (hp : config.runs p.info = true →
      (p.apply (config.setupOf p (parse text)) (parse text)).tree.view (gapView config.looseGaps) =
        (parse text).view (gapView config.looseGaps)) : config.RestsOn p (parse text) := by
    rw [RestsOn, after]
    split
    · exact hp ‹_›
    · rfl
  simp only [Pass.front, List.forall_mem_cons, List.not_mem_nil, false_imp_iff, implies_true,
    and_true]
  refine ⟨hafter fun hruns => ?_, hafter fun hruns => ?_, hafter fun hruns => ?_,
    hafter fun hruns => ?_, hafter fun hruns => ?_, hlines⟩
  · rw [MergeSections.tree_of_inOrder (parse_sections _).2 (h.sections hruns)]
  · exact OrderSettings.view_of_laid hp hi (config.newline_setupOf _ _) (hgroups hruns)
      (h.order hruns)
  · exact Spelling.view_of_canonical_headers hf (h.headers hruns) _
  · exact Spelling.view_of_canonical_settings hf (h.settings hruns) _
  · refine UniqueTags.view_of_unique_tags hf (h.tags hruns) ?_ _
    exact h.inCase hruns

end

/-! ## Sections without statements -/

/-- A file without the sections in front that hold no statement. -/
def File.full (f : File) : File :=
  { f with sections := f.sections.dropWhile fun s => s.statements.isEmpty }

section
variable {v : View} {f g : File}

/-- No section comes in. -/
theorem File.suffix_full (f : File) : f.full.sections <:+ f.sections := List.dropWhile_suffix _

/-- No statement goes. -/
theorem File.statements_full (f : File) : f.full.statements = f.statements := by
  show (f.sections.dropWhile _).flatMap Section.statements = f.sections.flatMap Section.statements
  induction f.sections with
  | nil => rfl
  | cons s ss ih =>
    rw [List.dropWhile_cons]
    split
    · rename_i hs
      rw [ih, List.flatMap_cons, List.isEmpty_iff.1 hs, List.nil_append]
    · rfl

/-- Which sections hold no statement shows. -/
theorem File.full_view (v : View) (f : File) : (f.view v).full = f.full.view v := by
  have hempty : (fun s : Section => s.statements.isEmpty) ∘ Section.view v =
      fun s => s.statements.isEmpty := by
    funext s
    rw [Function.comp_apply, Section.statements_view, List.isEmpty_map]
  show File.mk _ _ _ ((f.sections.map _).dropWhile _) = File.mk _ _ _ ((f.sections.dropWhile _).map _)
  rw [List.dropWhile_map, hempty]
  rfl

/-- Each section that is left holds a statement, if all but the first have headers. -/
theorem File.statements_ne_nil_full (h : ∀ s ∈ f.sections.tail, s.header ≠ none) :
    ∀ s ∈ f.full.sections, s.statements ≠ [] := by
  show ∀ s ∈ f.sections.dropWhile _, _
  cases hsections : f.sections with
  | nil => exact List.forall_mem_nil _
  | cons s ss =>
    rw [hsections] at h
    have hrest : ∀ r ∈ ss, r.statements ≠ [] := fun r hr => Section.statements_ne_nil (h r hr)
    rw [List.dropWhile_cons]
    split
    · exact fun r hr => hrest r ((List.dropWhile_suffix _).subset hr)
    · rename_i hs
      exact List.forall_mem_cons.2 ⟨fun hnil => hs (List.isEmpty_iff.2 hnil), hrest⟩

/-- The kinds of sections with headers stay. -/
theorem File.headedKinds_full (f : File) : f.full.headedKinds = f.headedKinds := by
  show ((f.sections.dropWhile _).filter _).map _ = (f.sections.filter _).map _
  induction f.sections with
  | nil => rfl
  | cons s ss ih =>
    rw [List.dropWhile_cons]
    split
    · rename_i hs
      have hheader : s.header = none := by
        by_contra hne
        exact Section.statements_ne_nil hne (List.isEmpty_iff.1 hs)
      rw [ih, List.filter_cons_of_neg (by simp [hheader])]
    · rfl

/-- A valid file stays valid. -/
theorem File.issues_full (h : f.issues = []) : f.full.issues = [] := by
  rw [File.issues, sectionsIssues, List.append_eq_nil_iff, eachSectionIssues_true,
    List.map_eq_nil_iff, List.filterMap_eq_nil_iff] at h ⊢
  obtain ⟨front, hfront⟩ := f.suffix_full
  obtain ⟨⟨hissues, hheaders⟩, hends⟩ := h
  rw [← hfront] at hissues hheaders hends
  cases hsections : f.full.sections with
  | nil => simp
  | cons s ss =>
    rw [hsections] at hissues hheaders hends
    refine ⟨⟨fun r hr => hissues r (List.mem_append_right _ hr), fun r hr => hheaders r ?_⟩,
      fun r hr => hends r ?_⟩
    · cases front with
      | nil => exact hr
      | cons x front => exact List.mem_append_right _ (List.mem_cons_of_mem _ hr)
    · rw [List.dropLast_append_of_ne_nil (List.cons_ne_nil s ss)]
      exact List.mem_append_right _ hr

/-- A calm file stays calm. -/
theorem File.IsCalm.full (h : f.IsCalm) : f.full.IsCalm := by
  have hsub {P : Section → Prop} (h : ∀ s ∈ f.sections, P s) : ∀ s ∈ f.full.sections, P s :=
    fun s hs => h s (f.suffix_full.subset hs)
  refine ⟨⟨⟨hsub h.sound.sections, ?_⟩, hsub h.placed⟩, hsub h.leads, ?_⟩
  · have hends := h.sound.headers
    show headersEnd (f.sections.dropWhile _)
    generalize f.sections = ss at hends
    induction ss with
    | nil => trivial
    | cons s ss ih =>
      rw [List.dropWhile_cons]
      split
      · exact ih hends.2
      · exact hends
  · rw [File.IsSilent, f.statements_full]
    exact h.silent

/-- What passes have done shows without sections that hold nothing. -/
theorem FormatConfig.HasSettled.full {config : FormatConfig} (h : config.HasSettled f) :
    config.HasSettled f.full where
  sections hruns := by
    rw [f.headedKinds_full]
    exact h.sections hruns
  order hruns s hs := h.order hruns s (f.suffix_full.subset hs)
  headers hruns := by
    rw [f.statements_full]
    exact h.headers hruns
  settings hruns := by
    rw [f.statements_full]
    exact h.settings hruns
  tags hruns := by
    rw [f.statements_full]
    exact h.tags hruns
  inCase hruns := by
    rw [f.statements_full]
    exact h.inCase hruns

/-- **Sections in front that hold no statement do not matter** to a transform that can be seen at
work, and that leaves sections and files alone. -/
theorem Transform.Mirrors.run_full {t t' : Transform} {L : Prop} {C : Scope → Prop}
    {S H : SectionKind → Statement → Prop} {v w : View} (h : t.Mirrors t' L C S H v w)
    (hsect : t.leaveSection = fun _ _ _ => .keep) (hfile : t.leaveFile = fun _ _ => .keep)
    (hf : ∀ s ∈ f.sections, s.Holds S H) (hsteady : v = w ∨ (t.run f).broken = none) :
    (t.run f.full).broken = (t.run f).broken ∧
      (t.run f.full).tree.view w = (t.run f).tree.full.view w := by
  obtain ⟨span, newline, errors, ss⟩ := f
  induction ss with
  | nil =>
    obtain ⟨htree, -⟩ := run_of_leaveFile hfile (File.mk span newline errors [])
    refine ⟨rfl, ?_⟩
    show (t.run (File.mk span newline errors [])).tree.view w = _
    rw [htree]
    rfl
  | cons s ss ih =>
    rw [List.forall_mem_cons] at hf
    by_cases hs : s.statements = []
    · obtain ⟨hbroken, new, htree, hview⟩ :=
        h.run_cons hsect hfile (File.mk span newline errors []) hs hf.2
      dsimp only at hbroken htree hview
      rw [hbroken] at hsteady ⊢
      obtain ⟨hagain, htail⟩ := ih hf.2 hsteady
      have hfull (xs : List Section) : (File.mk span newline errors (s :: xs)).full =
          (File.mk span newline errors xs).full := by
        rw [File.full, File.full, List.dropWhile_cons, if_pos (List.isEmpty_iff.2 hs)]
      rw [hfull, htree, hfull, ← File.full_view, hview hsteady, File.full_view]
      exact ⟨hagain, htail⟩
    · obtain ⟨htree, -⟩ := run_of_leaveFile hfile (File.mk span newline errors (s :: ss))
      have hfull {r : Section} (hr : r.statements ≠ []) (xs : List Section) :
          (File.mk span newline errors (r :: xs)).full = File.mk span newline errors (r :: xs) := by
        rw [File.full, List.dropWhile_cons, if_neg (fun he => hr (List.isEmpty_iff.1 he))]
      rw [hfull hs, htree]
      dsimp only
      rw [Transform.onSections, hfull (statements_ne_nil_onSection hsect _ hs)]
      exact ⟨rfl, rfl⟩

end

section
variable {config : FormatConfig} {f y : File}

/-- Sections that hold nothing do not matter to passes that split and align lines. -/
theorem full_after (hc : config.IsValid) (hf : f.IsCalm) {p : Pass}
    (hp : p ∈ [Split.pass, Columns.pass]) :
    (config.after p f.full).view plainView = (config.after p f).full.view plainView := by
  have hquiet := hf.sound.quiet hf.silent
  have happly : ∀ p ∈ [Split.pass, Columns.pass], ∀ setup : PassSetup, setup.IsValid →
      (p.apply setup f.full).tree.view plainView = (p.apply setup f).tree.full.view plainView := by
    simp only [List.forall_mem_cons, List.not_mem_nil, false_imp_iff, implies_true, and_true]
    exact ⟨fun _ hv => ((Split.showsPlain hv).mirrors.run_full rfl rfl hquiet (.inl rfl)).2,
      fun _ hv => ((Columns.showsPlain hv).mirrors.run_full rfl rfl hquiet (.inl rfl)).2⟩
  rw [FormatConfig.after, FormatConfig.after]
  split
  · exact happly p hp _ (PassSetup.isValid_of_config hc _ f)
  · rfl

/-- **Sections that hold nothing do not matter** to the passes that lay lines out. -/
theorem full_layouts (hc : config.IsValid) (hy : y.IsCalm)
    (hfault : config.runs Gaps.pass.info = true →
      (Gaps.pass.apply (config.setupOf Gaps.pass y) y).fault = none) :
    (config.runs Gaps.pass.info = true →
        (Gaps.pass.apply (config.setupOf Gaps.pass y.full) y.full).fault = none) ∧
      (Pass.layouts.foldl (fun f p => config.after p f) y.full).view plainView =
        (Pass.layouts.foldl (fun f p => config.after p f) y).full.view plainView := by
  have hmem7 : Gaps.pass ∈ Pass.layouts := List.mem_cons_self
  have hmem8 : Split.pass ∈ Pass.layouts := List.mem_cons_of_mem _ List.mem_cons_self
  have hsplit : Split.pass ∈ [Split.pass, Columns.pass] := List.mem_cons_self
  have hcolumns : Columns.pass ∈ [Split.pass, Columns.pass] :=
    List.mem_cons_of_mem _ List.mem_cons_self
  have hcalm7 := hy.after hc hmem7
  have hcalm8 := hcalm7.after hc hmem8
  have hgaps (hruns : config.runs Gaps.pass.info = true) :=
    (Gaps.mirrors_even (PassSetup.isValid_of_config hc _ y)).run_full rfl rfl
      (Gaps.fit_sections hy.toIsFair hy.silent)
      (.inr (Option.map_eq_none_iff.1 (hfault hruns)))
  have h7 : (config.after Gaps.pass y.full).view plainView =
      (config.after Gaps.pass y).full.view plainView := by
    by_cases hruns : config.runs Gaps.pass.info = true
    · rw [FormatConfig.after, FormatConfig.after, if_pos hruns, if_pos hruns]
      exact (hgaps hruns).2
    · rw [FormatConfig.after, FormatConfig.after, if_neg hruns, if_neg hruns]
  refine ⟨fun hruns => ?_, ?_⟩
  · exact Option.map_eq_none_iff.2
      ((hgaps hruns).1.trans (Option.map_eq_none_iff.1 (hfault hruns)))
  · have h8 := (view_after hc (hy.full.after hc hmem7) hcalm7.full hsplit h7).trans
      (full_after hc hcalm7 hsplit)
    exact (view_after hc ((hy.full.after hc hmem7).after hc hmem8) hcalm8.full hcolumns h8).trans
      (full_after hc hcalm8 hcolumns)

end

/-! ## Models that show alike -/

section
variable {v : View} {f g : File} {gaps : SectionKind → Bool}

/-- Gists show with gaps. -/
theorem view_gists (h : f.view plainView = g.view plainView) :
    f.view (gistView gaps) = g.view (gistView gaps) := by
  refine File.view_of_factors (fun kind s r (hsame : s.plain = r.plain) => ?_) h
  show s.gist _ = r.gist _
  rw [← s.gist_plain, hsame, r.gist_plain]

/-- What shows without marks, with gaps in some sections, shows with gaps. -/
theorem view_markless (h : f.view plainView = g.view plainView) :
    f.view (fun kind s => (s.shown (gaps kind)).markless) =
      g.view (fun kind s => (s.shown (gaps kind)).markless) := by
  refine File.view_of_factors (fun kind s r (hsame : s.plain = r.plain) => ?_) h
  have hplain (s : Statement) : (s.plain.shown (gaps kind)).markless =
      (s.shown (gaps kind)).markless := by
    have htokens := Statement.showTokens_showTokens (gaps kind) true s.tokens
    rw [Bool.and_true] at htokens
    exact congrArg (Statement.mk s.type .synthetic · false none none) htokens
  show (s.shown _).markless = (r.shown _).markless
  rw [← hplain s, hsame, hplain r]

/-- Statements of models that show alike are alike. -/
theorem forall₂_of_view (h : f.view plainView = g.view plainView) :
    List.Forall₂ Statement.Alike f.statements g.statements := by
  have hplain (f : File) : (f.view plainView).statements = f.statements.map Statement.plain := by
    rw [File.statements_view, File.statements, List.map_flatMap]
    rfl
  have hmap : f.statements.map Statement.plain = g.statements.map Statement.plain := by
    rw [← hplain, h, hplain]
  rw [← List.forall₂_eq_eq_eq, List.forall₂_map_left_iff, List.forall₂_map_right_iff] at hmap
  exact hmap.imp fun _ _ => Statement.alike_of_plain

end

/-! ## Runs -/

section
variable {source text : String} {d : Document} {config : FormatConfig} {out : Formatted} {y : File}

/-- The model behind all passes. -/
theorem file_formatFile_all (hp : (parse source).errors = []) :
    (formatFile (parse source) config Pass.all).file =
      Pass.layouts.foldl (fun f p => config.after p f)
        (Pass.front.foldl (fun f p => config.after p f) (parse source)) := by
  have hall : Pass.all = Pass.front ++ Pass.layouts := rfl
  rw [file_formatFile hp, runPasses_filter, hall, List.foldl_append]

/-- A text that is written of its own model again is formatted to itself. -/
theorem formatSource_of_render (hc : config.IsValid) (hp : (parse text).errors = [])
    (hi : (parse text).Intact)
    (h : (formatFile (parse text) config Pass.all).file.render = text) :
    (formatSource text config Pass.all).1 = .ok ⟨text, false, none⟩ := by
  have hintact : (formatFile (parse text) config Pass.all).file.Intact := by
    rw [file_formatFile hp]
    exact intact_runPasses hc (fun p hp => (List.mem_filter.1 hp).1) hi
  rw [formatSource_of_errors hp, renderStrict_of_issues hintact.valid, h]
  simp [Except.map]

/-- The model of a text that was written of a calm and valid one. -/
theorem calm_of_view {g : File} (hp : (parse text).errors = []) (hg : g.IsCalm)
    (hi : g.issues = []) (h : g.view plainView = (parse text).view plainView) :
    (parse text).IsCalm ∧ (parse text).Intact := by
  have halike := forall₂_of_view h
  have hunbroken := unbroken_of_alike hi halike
  refine ⟨⟨fair_parse hp hunbroken, (orderly_parse hp).leads, fun r hr => ?_⟩,
    intact_parse hp hunbroken
      ((isUncheckable_of_view (congrArg File.sections h)).symm.trans (File.isUncheckable_of_issues hi))⟩
  obtain ⟨s, hs, hsr⟩ := exists_of_mem_forall₂ halike hr
  rw [hsr.directive]
  exact hg.silent s hs

/-- **What has been laid out is laid out in the same way again,** where the passes in front of the
layout have nothing to do. -/
theorem layouts_of_rests (hc : config.IsValid) (hy : y.IsCalm)
    (hfault : config.runs Gaps.pass.info = true →
      (Gaps.pass.apply (config.setupOf Gaps.pass y) y).fault = none)
    {g : File} (hg : g.IsCalm)
    (h : g.view plainView = (Pass.layouts.foldl (fun f p => config.after p f) y).view plainView)
    (hrests : ∀ p ∈ Pass.front, config.RestsOn p g) :
    (Pass.layouts.foldl (fun f p => config.after p f)
        (Pass.front.foldl (fun f p => config.after p f) g)).view plainView =
      (Pass.layouts.foldl (fun f p => config.after p f) y).view plainView := by
  have hx := hg.foldl hc Pass.mem_all_of_front
  refine layout_again hc hy hx hfault ?_
  have hfront := view_foldl_front config.looseGaps hc hg.sound (fun p hp => ⟨hp, hrests p hp⟩) hg rfl
  have hunmark := File.view_of_factors
    (w := fun kind s => (s.shown (config.looseGaps kind)).markless)
    (fun kind s r (hsame : s.shown _ = r.shown _) => congrArg Statement.markless hsame) hfront
  have hshown := hunmark.trans (view_markless h)
  split
  · rename_i hruns
    have hloose : config.looseGaps = fun kind => !kind.isLaidOut := by
      funext kind
      rw [FormatConfig.looseGaps, hruns, Bool.true_and]
    rwa [hloose] at hshown
  · rename_i hruns
    have hloose : config.looseGaps = fun _ => true := by
      funext kind
      rw [FormatConfig.looseGaps, Bool.eq_false_iff.2 hruns]
      rfl
    rwa [hloose] at hshown

/-- A pass did not fail if it is among those that a run says it has applied. -/
theorem fault_of_applied (front : List Pass) {rest : List Pass} {p : Pass}
    (hcut : Pass.all = front ++ p :: rest)
    (hne : ∀ q ∈ front ++ rest, q.name ≠ p.name) (hp : (parse source).errors = [])
    (happlied : config.runs p.info = true →
      p.name ∈ (formatFile (parse source) config Pass.all).applied) :
    let x := front.foldl (fun f p => config.after p f) (parse source)
    config.runs p.info = true → (p.apply (config.setupOf p x) x).fault = none := by
  intro x hruns
  have hmem := happlied hruns
  rw [hcut] at hmem
  have hfault := (fault_of_mem_applied hne hp hmem).2
  dsimp only at hfault
  rwa [runPasses_filter] at hfault

/-- A calm model that is legible shows like what is read of its text, with the same line break, but for
a section in front that holds nothing. -/
theorem view_of_written {g : File} (hg : g.IsCalm) (hi : g.issues = []) (htext : text = g.render)
    (hl : g.Legible) (hnewline : g.newline = (parse text).newline) :
    g.full.view plainView = (parse text).view plainView := by
  have hlegible : g.full.Legible := by
    constructor <;> rw [g.statements_full]
    exacts [hl.asterisks, hl.comments, hl.ends]
  have hsections := hg.full.sound.plain_read_back (File.issues_full hi) hlegible
    (File.statements_ne_nil_full (header_of_mem_tail hi)) hg.full.leads
  rw [File.render, g.statements_full, ← File.render, ← htext] at hsections
  have hsame : g.full.newline = (parse text).newline := hnewline
  rw [File.view, File.view, hsame, hsections]

/-- A source with defects is left alone. -/
theorem eq_of_defects (hp : (parse source).errors ≠ [])
    (hf : (formatSource source config Pass.all).1 = .ok out) :
    out = ⟨source, false, some hasDefects⟩ := by
  unfold formatSource at hf
  cases hread : parse? source with
  | error failure =>
    rw [hread] at hf
    cases hf
  | ok f =>
    obtain rfl : f = parse source := parseTokens?_eq_ok hread
    rw [hread] at hf
    dsimp only at hf
    rw [formatFile, if_neg (by simpa using hp)] at hf
    exact (Except.ok.inj hf).symm

/-- No source without defects is left alone. -/
theorem skipped_of_formatSource (hp : (parse source).errors = [])
    (hf : (formatSource source config Pass.all).1 = .ok out) : out.skipped = none := by
  rw [formatSource_of_errors hp] at hf
  cases hr : (formatFile (parse source) config Pass.all).file.renderStrict with
  | error e =>
    rw [hr] at hf
    cases hf
  | ok text =>
    rw [hr] at hf
    cases hf
    rfl

end

end RobotSuite
