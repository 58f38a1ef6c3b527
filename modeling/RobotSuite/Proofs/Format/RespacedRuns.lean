/-
# Runs over models with other gaps

The passes in front of the layout look at no gaps, and then lines get the gaps that are configured,
which do not depend on those there were (`Gaps.apply_view`).  So two fair models without directives
that show alike but for their gaps are written alike (`view_formatFile`, `renderStrict_of_view`), if
only the pass that lays out the gaps does not fail.  Where a comment holds a line break, and hence no
text can be written, that stays so in whatever passes do (`unbroken_runPasses`).
-/

import RobotSuite.Proofs.Format.GapFreeMoves
import RobotSuite.Proofs.Format.Layout.EvenGaps

namespace RobotSuite

/-! ## Comments behind passes -/

/-- A model without directives. -/
def File.IsSilent (f : File) : Prop := ∀ s ∈ f.statements, s.directive? = none

/-- A file is silent if none of its comments is a directive. -/
theorem File.isSilent_iff {f : File} :
    f.IsSilent ↔ ∀ c ∈ f.comments, parseDirective c = none := by
  rw [IsSilent, comments, remarks, List.forall_mem_flatMap]
  refine forall₂_congr fun s _ => ?_
  rw [s.directive?_eq, List.findSome?_eq_none_iff]

namespace Pass

/-- The pass that splits lines is known by its name. -/
theorem eq_split {p : Pass} (hp : p ∈ all) (h : p.name = Split.info.name) : p = Split.pass := by
  simp only [all, List.mem_cons, List.not_mem_nil, or_false] at hp
  rcases hp with rfl | rfl | rfl | rfl | rfl | rfl | rfl | rfl | rfl
  case inr.inr.inr.inr.inr.inr.inr.inl => rfl
  all_goals exact absurd h (by decide)

/-- The passes in front of the layout are among all passes. -/
theorem mem_all_of_front : ∀ p ∈ front, p ∈ all := by
  intro p hp
  exact List.mem_append_left [Gaps.pass, Split.pass, Columns.pass] hp

/-- No pass in front of the layout writes a comment that was not there. -/
theorem noneNew_front : ∀ p ∈ front, p.Links NoneNew := by
  simp only [front, List.forall_mem_cons, List.not_mem_nil, false_imp_iff, implies_true, and_true]
  exact ⟨MergeSections.permRemarks_pass.imp .of_perm,
    OrderSettings.links_pass isLinear_noneNew .of_eq
      fun order newline ss _ => OrderSettings.noneNew_arrange order newline ss,
    (Spelling.sameRemarks_respell Spelling.keepsSound_headerPass).imp .of_eq,
    (Spelling.sameRemarks_respell Spelling.keepsSound_settingPass).imp .of_eq,
    UniqueTags.sameRemarks_pass.imp .of_eq, EmptyLines.sameRemarks_pass.imp .of_eq⟩

end Pass

section
variable {config : FormatConfig} {f : File} {passes : List Pass}

/-- **No directive comes into a model in front of the layout.** -/
theorem silent_runPasses (hc : config.IsValid) (hp : ∀ p ∈ passes, p ∈ Pass.front)
    (h : f.IsOrderly) (hs : f.IsSilent) : (runPasses config f passes).IsSilent := by
  induction passes generalizing f with
  | nil => exact hs
  | cons p passes ih =>
    rw [List.forall_mem_cons] at hp
    have hv := PassSetup.isValid_of_config hc (config.paramsOf p.name) f
    refine ih hp.2 (h.apply hv (Pass.mem_all_of_front p hp.1)) ?_
    rw [File.isSilent_iff] at hs ⊢
    exact fun c hmem => hs c (Pass.noneNew_front p hp.1 _ f hv h.sound h.leads hmem)

/-- A text holds no line break if neither of two parts does. -/
theorem isUnbroken_append {a b : List Char} :
    isUnbroken (a ++ b) = true ↔ isUnbroken a = true ∧ isUnbroken b = true := by
  rw [isUnbroken, List.all_append, Bool.and_eq_true]
  rfl

/-- A line break in one of several comments is in what they are put together to. -/
theorem isUnbroken_intercalate {separator : String} {cs : List String}
    (h : isUnbroken (separator.intercalate cs).toList = true) :
    ∀ c ∈ cs, isUnbroken c.toList = true := by
  induction cs with
  | nil => simp
  | cons c cs ih =>
    cases cs with
    | nil =>
      rw [String.intercalate_singleton] at h
      exact List.forall_mem_singleton.2 h
    | cons d cs =>
      rw [String.intercalate_cons_cons, String.toList_append, isUnbroken_append,
        String.toList_append, isUnbroken_append] at h
      exact List.forall_mem_cons.2 ⟨h.1.1, ih h.2⟩

/-- Where comments are put together, a line break stays in one. -/
theorem EachJoins.broken {separator : String} {a b : List Statement} (h : EachJoins separator a b)
    (hb : ∀ c ∈ remarks b, isUnbroken c.toList = true) :
    ∀ c ∈ remarks a, isUnbroken c.toList = true := by
  induction h with
  | nil => exact hb
  | @cons s new a b hs _ ih =>
    rw [remarks_cons, List.forall_mem_append] at hb ⊢
    refine ⟨?_, ih hb.2⟩
    rcases hs with hs | ⟨-, hs⟩
    · rw [← hs]
      exact hb.1
    · rw [hs] at hb
      exact isUnbroken_intercalate (hb.1 _ List.mem_cons_self)

/-- Whether there is no line break in the comments of some statements if there is none in those of
others. -/
def Unbroken (a b : List Statement) : Prop :=
  (∀ c ∈ remarks b, isUnbroken c.toList = true) → ∀ c ∈ remarks a, isUnbroken c.toList = true

/-- No pass puts a line break into a comment. -/
theorem Pass.unbroken_all : ∀ p ∈ all, p.Links Unbroken := by
  intro p hp
  by_cases hname : p.name = Split.info.name
  · obtain rfl := eq_split hp hname
    exact fun setup f hv hf hlead => (Split.eachJoins_pass hv hf hlead).broken
  · have hkept : p.Links NoneLost := keepsComments_all p hp hname
    refine hkept.imp fun h hb c hc => hb c ?_
    exact List.count_pos_iff.1 ((List.count_pos_iff.2 hc).trans_le (h c))

/-- **No pass takes a line break out of a comment.** -/
theorem unbroken_runPasses (hc : config.IsValid) (hp : ∀ p ∈ passes, p ∈ Pass.all)
    (h : f.IsOrderly) : Unbroken f.statements (runPasses config f passes).statements := by
  induction passes generalizing f with
  | nil => exact id
  | cons p passes ih =>
    rw [List.forall_mem_cons] at hp
    have hv := PassSetup.isValid_of_config hc (config.paramsOf p.name) f
    exact fun hb => Pass.unbroken_all p hp.1 _ f hv h.sound h.leads
      (ih hp.2 (h.apply hv hp.1) hb)

/-- There is no line break in the comments of a valid model. -/
theorem File.unbroken_comments (hi : f.issues = []) :
    ∀ c ∈ f.comments, isUnbroken c.toList = true := by
  intro c hc
  obtain ⟨s, hs, hc⟩ := List.mem_flatMap.1 hc
  obtain ⟨t, ht, rfl⟩ := List.mem_map.1 hc
  obtain ⟨hmem, hcomment⟩ := List.mem_filter.1 ht
  have hk : t.kind = .comment := by simpa [Token.isComment] using hcomment
  exact unbroken_of_issues hi t (List.mem_flatMap.2 ⟨s, hs, hmem⟩) (by simp [hk])

/-! ## Views -/

/-- The statements that show in a model. -/
theorem File.statements_view (v : View) (f : File) : (f.view v).statements =
    f.sections.flatMap fun s => s.statements.map (v s.kind) := by
  rw [statements, view, List.flatMap_map]
  exact List.flatMap_congr fun s _ => s.statements_view v

/-- The comments of a model show. -/
theorem File.comments_view (gaps : SectionKind → Bool) (f : File) :
    (f.view (gapView gaps)).comments = f.comments := by
  have hcomments (s : Statement) (gaps : Bool) :
      commentTexts (s.shown gaps).tokens = commentTexts s.tokens := by
    show commentTexts (showTokens gaps s.tokens) = _
    rw [commentTexts, commentTokens_showTokens, List.map_map]
    rfl
  rw [comments, comments, f.statements_view, statements, remarks_flatMap, remarks_flatMap]
  refine List.flatMap_congr fun s _ => ?_
  rw [remarks, List.flatMap_map]
  exact List.flatMap_congr fun r _ => hcomments r _

/-- The text of a model shows if gaps do. -/
theorem File.render_view (f : File) : (f.view plainView).render = f.render := by
  rw [render, render, f.statements_view, renderStatements, renderStatements, statements,
    List.map_flatMap, List.map_flatMap]
  congr 1
  refine List.flatMap_congr fun s _ => ?_
  rw [List.map_map]
  exact List.map_congr_left fun r _ => r.plain_text

/-! ## The passes in front of the layout -/

/-- What shows without the gaps in laid out sections decides what the passes in front of the layout
lead to, as it shows. -/
theorem view_runPasses (gaps : SectionKind → Bool) (hc : config.IsValid)
    (hp : ∀ p ∈ passes, p ∈ Pass.front) (h : f.IsSound) :
    runPasses config (f.view (gapView gaps)) passes =
      (runPasses config f passes).view (gapView gaps) := by
  induction passes generalizing f with
  | nil => rfl
  | cons p passes ih =>
    rw [List.forall_mem_cons] at hp
    have hv := PassSetup.isValid_of_config hc (config.paramsOf p.name) f
    have hstep := Pass.commutes_front gaps p hp.1 _ f hv h
    have hsound := (Pass.keepsSound_all p (Pass.mem_all_of_front p hp.1)).apply hv h
    rw [runPasses, runPasses, List.foldl_cons, List.foldl_cons]
    exact (congrArg (fun g => passes.foldl _ g) hstep).trans (ih hp.2 hsound)

end

/-! ## The layout -/

/-- A model that is laid out as the grammar has it, without directives. -/
abbrev File.IsQuiet (f : File) : Prop := ∀ s ∈ f.sections,
  s.Holds (Statement.IsQuiet Statement.IsSound) (Statement.IsQuiet Statement.IsHeader)

section
variable {setup : PassSetup} {config : FormatConfig} {f g : File}

/-- A sound file without directives is quiet. -/
theorem File.IsSound.quiet (h : f.IsSound) (hs : f.IsSilent) : f.IsQuiet := by
  intro s hmem
  have hsilent : ∀ r ∈ s.statements, r.directive? = none :=
    fun r hr => hs r (List.mem_flatMap.2 ⟨s, hmem, hr⟩)
  exact (h.sections s hmem).imp (fun r hr hsound => ⟨hsound, hsilent r hr⟩)
    fun r hr hheader => ⟨hheader, hsilent r hr⟩

/-- A transform that looks at what shows leads from a quiet model to one, and from what shows of the
first to what shows of the second. -/
theorem Transform.ShowsPlain.run {t : Transform} (h : t.ShowsPlain) (hf : f.IsQuiet) :
    (t.run f).tree.IsQuiet ∧ (t.run (f.view plainView)).tree = (t.run f).tree.view plainView :=
  ⟨h.keeps.run hf, (h.mirrors.run hf).2 (.inl rfl)⟩

/-- The passes behind the gaps look at what shows with gaps. -/
theorem Pass.view_layout (hv : setup.IsValid) (hf : f.IsQuiet) :
    ∀ p ∈ [Split.pass, Columns.pass], (p.apply setup f).tree.IsQuiet ∧
      (p.apply setup (f.view plainView)).tree = (p.apply setup f).tree.view plainView := by
  simp only [List.forall_mem_cons, List.not_mem_nil, false_imp_iff, implies_true, and_true]
  exact ⟨(Split.showsPlain hv).run hf, (Columns.showsPlain hv).run hf⟩

/-- **Lines with even gaps are laid out by what shows.** -/
theorem view_runLayout {passes : List Pass} (hc : config.IsValid)
    (hp : ∀ p ∈ passes, p ∈ [Split.pass, Columns.pass]) (hf : f.IsQuiet) :
    runPasses config (f.view plainView) passes = (runPasses config f passes).view plainView := by
  induction passes generalizing f with
  | nil => rfl
  | cons p passes ih =>
    rw [List.forall_mem_cons] at hp
    have hv := PassSetup.isValid_of_config hc (config.paramsOf p.name) f
    obtain ⟨hquiet, hstep⟩ := Pass.view_layout hv hf p hp.1
    rw [runPasses, runPasses, List.foldl_cons, List.foldl_cons]
    exact (congrArg (fun g => passes.foldl _ g) hstep).trans (ih hp.2 hquiet)

/-- The sections of a valid model without directives, as the pass that lays out the gaps needs
them. -/
theorem Gaps.fit_sections (hf : f.IsFair) (hs : f.IsSilent) : ∀ s ∈ f.sections,
    s.Holds (Statement.IsQuiet (IsFit Statement.IsSound))
      (Statement.IsQuiet (IsFit Statement.IsHeader)) := by
  intro s hmem
  have hflaws : ∀ r ∈ s.statements, r.flaws = [] := fun r hr =>
    hf.flaws r (List.mem_flatMap.2 ⟨s, hmem, hr⟩)
  exact (hf.sound.quiet hs s hmem).imp
    (fun r hr h => ⟨⟨h.holds, hflaws r hr⟩, h.silent⟩)
    fun r hr h => ⟨⟨h.holds, hflaws r hr⟩, h.silent⟩

/-- Models that show alike without gaps show alike without marks too. -/
theorem view_looseView (h : f.view contentView = g.view contentView) :
    f.view looseView = g.view looseView := by
  have hview := congrArg (File.view fun _ => Statement.markless) h
  rwa [File.view_view, File.view_view] at hview

/-- **Gaps as configured do not depend on the gaps there were:** if what shows of two valid models
without directives is the same but for the gaps, then the pass fails on both or none of them, and if
it does not then what shows behind it is the same, gaps included. -/
theorem Gaps.apply_view (hv : setup.IsValid) (hf : f.IsFair) (hg : g.IsFair)
    (hfs : f.IsSilent) (hgs : g.IsSilent) (h : f.view looseView = g.view looseView)
    (hfault : (pass.apply setup f).fault = none) :
    (pass.apply setup f).tree.IsQuiet ∧ (pass.apply setup g).tree.IsQuiet ∧
      (pass.apply setup f).tree.view plainView = (pass.apply setup g).tree.view plainView := by
  have hquiet {f : File} (hf : f.IsFair) (hs : f.IsSilent) :
      (pass.apply setup f).tree.IsQuiet := fun s hmem =>
    ((keeps_quiet hv).run (fit_sections hf hs) s hmem).imp
      (fun _ _ h => ⟨h.holds.1, h.silent⟩) fun _ _ h => ⟨h.holds.1, h.silent⟩
  obtain ⟨hbrokenf, htreef⟩ := (mirrors_even hv).run (fit_sections hf hfs)
  obtain ⟨hbrokeng, htreeg⟩ := (mirrors_even hv).run (fit_sections hg hgs)
  have hnone : ((transform setup).run f).broken = none := Option.map_eq_none_iff.1 hfault
  have hnone' : ((transform setup).run g).broken = none := by
    rw [← hbrokeng, ← h, hbrokenf, hnone]
  refine ⟨hquiet hf hfs, hquiet hg hgs, ?_⟩
  exact (htreef (.inr hnone)).symm.trans ((h ▸ htreeg (.inr hnone')))

end

/-! ## Runs -/

section
variable {config : FormatConfig} {f g : File} {passes : List Pass}

/-- A pass is applied in one step if it is switched on and does not fail. -/
theorem mem_applied_step {name : String} {run : FormatRun} {p : Pass}
    (h : name ∈ (run.step config p).applied) : name ∈ run.applied ∨
      p.name = name ∧ config.runs p.info = true ∧ (p.apply
        ⟨config, config.paramsOf p.name, run.file.newline.text⟩ run.file).fault = none := by
  rw [FormatRun.step] at h
  split at h
  · rename_i hruns
    dsimp only at h
    split at h
    · rename_i hfault
      refine (List.mem_append.1 h).imp_right fun h => ?_
      exact ⟨(List.mem_singleton.1 h).symm, hruns, hfault⟩
    · exact .inl h
  · exact .inl h

/-- A pass is applied if it is among those that run. -/
theorem mem_applied_steps {name : String} {run : FormatRun}
    (h : name ∈ (passes.foldl (FormatRun.step config) run).applied) :
    name ∈ run.applied ∨ ∃ p ∈ passes, p.name = name := by
  induction passes generalizing run with
  | nil => exact .inl h
  | cons p passes ih =>
    rcases ih h with h | ⟨q, hq, hname⟩
    · rcases mem_applied_step h with h | ⟨hname, -⟩
      · exact .inl h
      · exact .inr ⟨p, List.mem_cons_self, hname⟩
    · exact .inr ⟨q, List.mem_cons_of_mem _ hq, hname⟩

/-- A pass that a run says it has applied is switched on and did not fail. -/
theorem fault_of_mem_applied {front rest : List Pass} {p : Pass}
    (hne : ∀ q ∈ front ++ rest, q.name ≠ p.name) (hf : f.errors = [])
    (h : p.name ∈ (formatFile f config (front ++ p :: rest)).applied) :
    config.runs p.info = true ∧
      let before := runPasses config f (front.filter fun p => config.runs p.info)
      (p.apply ⟨config, config.paramsOf p.name, before.newline.text⟩ before).fault = none := by
  rw [List.forall_mem_append] at hne
  have hnone {passes : List Pass} {run : FormatRun} (hne : ∀ q ∈ passes, q.name ≠ p.name)
      (h : p.name ∈ (passes.foldl (FormatRun.step config) run).applied) :
      p.name ∈ run.applied :=
    (mem_applied_steps h).resolve_right fun ⟨q, hq, hname⟩ => hne q hq hname
  have hfile : (front.foldl (FormatRun.step config) { file := f }).file =
      runPasses config f (front.filter fun p => config.runs p.info) := FormatRun.file_steps _
  rw [← hfile]
  rw [formatFile, hf, if_pos (by rfl), List.foldl_append, List.foldl_cons] at h
  rcases mem_applied_step (hnone hne.2 h) with h | ⟨-, hruns, hfault⟩
  · cases hnone hne.1 h
  · exact ⟨hruns, hfault⟩

/-- **What shows of what passes lead to does not depend on the gaps** where lines are laid out. -/
theorem view_runPasses_gaps {front rest : List Pass} (hc : config.IsValid) (hf : f.IsFair)
    (hg : g.IsFair) (hlf : ∀ s ∈ f.sections, leadsBlocks s.body)
    (hlg : ∀ s ∈ g.sections, leadsBlocks s.body) (hs : f.IsSilent)
    (h : f.view contentView = g.view contentView) (hfront : ∀ p ∈ front, p ∈ Pass.front)
    (hrest : ∀ p ∈ rest, p ∈ [Split.pass, Columns.pass])
    (hfault : let before := runPasses config f front
      (Gaps.pass.apply ⟨config, config.paramsOf Gaps.pass.name, before.newline.text⟩ before).fault =
        none) :
    (runPasses config f (front ++ Gaps.pass :: rest)).view plainView =
      (runPasses config g (front ++ Gaps.pass :: rest)).view plainView := by
  have hall : ∀ p ∈ front, p ∈ Pass.all := fun p hp => Pass.mem_all_of_front p (hfront p hp)
  have hgs : g.IsSilent := by
    rw [File.isSilent_iff] at hs ⊢
    have hcomments := congrArg File.comments h
    rw [contentView, File.comments_view, File.comments_view] at hcomments
    rwa [← hcomments]
  have hview : (runPasses config f front).view contentView =
      (runPasses config g front).view contentView := by
    rw [contentView, ← view_runPasses _ hc hfront hf.sound, ← view_runPasses _ hc hfront hg.sound]
    exact congrArg (runPasses config · front) h
  have hnewline : (runPasses config g front).newline = (runPasses config f front).newline :=
    (congrArg File.newline hview).symm
  obtain ⟨hquietf, hquietg, hplain⟩ := Gaps.apply_view
    (PassSetup.isValid_of_config hc (config.paramsOf Gaps.pass.name) (runPasses config f front))
    (fair_runPasses hc hall hf) (fair_runPasses hc hall hg)
    (silent_runPasses hc hfront ⟨hf.sound, hlf⟩ hs)
    (silent_runPasses hc hfront ⟨hg.sound, hlg⟩ hgs) (view_looseView hview) hfault
  have hsplit (f : File) : runPasses config f (front ++ Gaps.pass :: rest) =
      runPasses config (Gaps.pass.apply ⟨config, config.paramsOf Gaps.pass.name,
        (runPasses config f front).newline.text⟩ (runPasses config f front)).tree rest := by
    rw [runPasses, List.foldl_append, List.foldl_cons]
    rfl
  rw [hsplit f, hsplit g, hnewline, ← view_runLayout hc hrest hquietf,
    ← view_runLayout hc hrest hquietg, hplain]

/-- **What shows of a run of the formatter does not depend on the gaps** where lines are laid out. -/
theorem view_formatFile (hc : config.IsValid) (hf : f.IsFair) (hg : g.IsFair)
    (hlf : ∀ s ∈ f.sections, leadsBlocks s.body) (hlg : ∀ s ∈ g.sections, leadsBlocks s.body)
    (hef : f.errors = []) (heg : g.errors = []) (hs : f.IsSilent)
    (h : f.view contentView = g.view contentView)
    (happlied : Gaps.pass.name ∈ (formatFile f config Pass.all).applied) :
    (formatFile f config Pass.all).file.view plainView =
      (formatFile g config Pass.all).file.view plainView := by
  have hall : Pass.all = Pass.front ++ Gaps.pass :: [Split.pass, Columns.pass] := rfl
  rw [hall] at happlied
  obtain ⟨hruns, hfault⟩ := fault_of_mem_applied (by decide) hef happlied
  rw [file_formatFile hef, file_formatFile heg, hall, List.filter_append, List.filter_cons,
    if_pos hruns]
  exact view_runPasses_gaps hc hf hg hlf hlg hs h (fun p hp => (List.mem_filter.1 hp).1)
    (fun p hp => (List.mem_filter.1 hp).1) hfault

/-- A run of the formatter leaves the model fair. -/
theorem fair_formatFile (hc : config.IsValid) (hf : f.IsFair) (hef : f.errors = []) :
    (formatFile f config Pass.all).file.IsFair := by
  rw [file_formatFile hef]
  exact fair_runPasses hc (fun p hp => (List.mem_filter.1 hp).1) hf

/-- **The same is written of fair models that show alike,** or nothing of both. -/
theorem renderStrict_of_view (hf : f.IsFair) (hg : g.IsFair)
    (h : f.view plainView = g.view plainView) :
    f.renderStrict.toOption = g.renderStrict.toOption := by
  have hissues {f : File} (hf : f.IsFair) : (f.view plainView).issues = [] ↔ f.issues = [] :=
    flawsOf_eq_nil (view_sectionsIssues fun s hs r hr =>
      Statement.shownBy_plain (hf.sound.laid r (List.mem_flatMap.2 ⟨s, hs, hr⟩)).endsLine)
  have hsame : f.issues = [] ↔ g.issues = [] := (hissues hf).symm.trans (h ▸ hissues hg)
  have hrender : f.render = g.render := by rw [← f.render_view, h, g.render_view]
  by_cases hi : f.issues = []
  · rw [renderStrict_of_issues hi, renderStrict_of_issues (hsame.1 hi), hrender]
  · have hnone {f : File} (hi : f.issues ≠ []) : f.renderStrict.toOption = none := by
      cases hr : f.renderStrict with
      | error e => rfl
      | ok text => exact absurd (renderStrict_eq_ok hr).1 hi
    rw [hnone hi, hnone (mt hsame.2 hi)]

end

end RobotSuite
