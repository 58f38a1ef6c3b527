/-
# What a run of the formatter writes

A run of the formatter starts from a model that was read without a defect, which is sound,
and each pass leads from sound models to sound ones (`Pass.keepsSound_all`) whatever the
configuration says (`FormatConfig.isValid_of_read`).  So the model that is written is sound,
and valid, since it is checked before it is written.  Hence its text is read back as it is
exactly if the model is legible (`format_read_back_iff`).  A text that was written may still be
changed when it is formatted again (`format_again_changes`, `split_again_changes`).

Passes lead from valid models to valid ones, too, so any sequence of passes does, in any order and
with repetitions (`intact_runPasses`).  A run of the formatter is the sequence of those passes that
the configuration switches on (`file_formatFile`).  Hence what is made of a valid source can always be
written (`format_keeps_valid`).
-/

import RobotSuite.Format.Run
import RobotSuite.Proofs.Data.Outcomes
import RobotSuite.Proofs.Format.EmptyLines.Pass
import RobotSuite.Proofs.Format.Layout.Passes
import RobotSuite.Proofs.Format.Split.Pass
import RobotSuite.Proofs.Format.UniqueTags.Pass
import RobotSuite.Proofs.Tree.Legibility

namespace RobotSuite

/-! ## Configurations -/

/-- A configuration that keeps cells apart and indents bodies. -/
structure FormatConfig.IsValid (c : FormatConfig) : Prop where
  separator : IsWide c.separator
  indent : 1 ≤ c.indent

/-- Two spaces keep cells apart, and more do. -/
theorem isWide_spaces {n : Nat} (h : 2 ≤ n) : IsWide (Text.spaces n) := by
  refine ⟨all_isGap_spaces n, ?_⟩
  rw [isCellSeparator, Text.length_spaces, Bool.or_eq_true]
  exact .inl (by simpa using h)

namespace FormatConfig

/-- A separator that is read keeps cells apart. -/
theorem isWide_of_readSeparator {fallback s : String} {d : Option Document}
    (hf : IsWide fallback) (h : readSeparator fallback d = .ok s) : IsWide s := by
  unfold readSeparator at h
  split at h
  · cases h
    exact hf
  · rename_i q
    split at h
    · rename_i hq
      rw [Bool.and_eq_true, decide_eq_true_eq, decide_eq_true_eq] at hq
      cases hs : spaces? q.num.toNat with
      | error o =>
        rw [hs] at h
        cases h
      | ok r =>
        obtain ⟨-, rfl⟩ := spaces_eq_ok_iff.1 hs
        rw [hs] at h
        cases h
        exact isWide_spaces (by omega)
    · cases h
  · split at h
    · rename_i hs
      rw [Bool.and_eq_true] at hs
      cases h
      exact hs
    · cases h
  · cases h

/-- A size that is read is positive. -/
theorem one_le_of_size {d : Option Document} {field : String} {fallback n : Nat}
    (hf : 1 ≤ fallback) (h : size d field fallback = .ok n) : 1 ≤ n := by
  unfold size at h
  split at h
  · cases h
    exact hf
  · split at h
    · rename_i hq
      rw [Bool.and_eq_true, decide_eq_true_eq, decide_eq_true_eq] at hq
      cases h
      omega
    · cases h
  · cases h

/-- The standard configuration is valid. -/
theorem isValid_standard (passes : List PassInfo) : (standard passes).IsValid :=
  ⟨isWide_spaces (n := 4) (by omega), by simp [standard]⟩

/-- The part of a reading that comes behind the fields of the passes. -/
theorem isValid_of_sizes {base c : FormatConfig} (hb : base.IsValid) {d : Document}
    {settings : Except ConfigFault (Table PassSetting)}
    (h : (do
      let settings ← settings
      pure
        { lineLength := ← size (d.field? "lineLength") "lineLength" base.lineLength
          indent := ← size (d.field? "indent") "indent" base.indent
          separator := ← readSeparator base.separator (d.field? "separator")
          passes := settings }) = Except.ok c) : c.IsValid := by
  obtain ⟨settings, -, h⟩ := bind_eq_ok h
  obtain ⟨length, -, h⟩ := bind_eq_ok h
  obtain ⟨indent, hindent, h⟩ := bind_eq_ok h
  obtain ⟨separator, hseparator, h⟩ := bind_eq_ok h
  cases h
  exact ⟨isWide_of_readSeparator hb.separator hseparator, one_le_of_size hb.indent hindent⟩

/-- **Whatever a configuration says, it keeps cells apart and indents bodies.** -/
theorem isValid_of_read {d : Document} {c : FormatConfig} (h : read d = .ok c) : c.IsValid := by
  have hstandard := isValid_standard (Pass.all.map (·.info))
  unfold read ofDocument at h
  split at h
  · cases h
    exact hstandard
  · dsimp only at h
    split at h
    · cases h
    · split at h <;>
        obtain ⟨fields, -, h⟩ := bind_eq_ok h <;>
        exact isValid_of_sizes hstandard h

end FormatConfig

/-! ## Passes -/

/-- **Each pass leads from sound files to sound ones.** -/
theorem Pass.keepsSound_all : ∀ p ∈ Pass.all, p.KeepsSound := by
  intro p hp
  simp only [Pass.all, List.mem_cons, List.not_mem_nil, or_false] at hp
  rcases hp with rfl | rfl | rfl | rfl | rfl | rfl | rfl | rfl | rfl
  · exact MergeSections.keepsSound_pass
  · exact OrderSettings.keepsSound_pass
  · exact Spelling.keepsSound_headerPass
  · exact Spelling.keepsSound_settingPass
  · exact UniqueTags.keepsSound_pass
  · exact EmptyLines.keepsSound_pass
  · exact Gaps.keepsSound_pass
  · exact Split.keepsSound_pass
  · exact Columns.keepsSound_pass

section
variable {config : FormatConfig} (hc : config.IsValid)
include hc

/-- Passes of a run work with a configuration that keeps cells apart, and with line breaks. -/
theorem PassSetup.isValid_of_config (params : Params) (f : File) :
    (⟨config, params, f.newline.text⟩ : PassSetup).IsValid := by
  refine ⟨hc.separator, hc.indent, ?_⟩
  cases f.newline
  · exact .inl rfl
  · exact .inr rfl

/-- A pass leaves the model sound, also where it fails. -/
theorem FormatRun.sound_step {run : FormatRun} {p : Pass} (hp : p.KeepsSound)
    (h : run.file.IsSound) : (run.step config p).file.IsSound := by
  have hresult := hp.apply (PassSetup.isValid_of_config hc (config.paramsOf p.name) run.file) h
  unfold step
  split
  · dsimp only
    split <;> exact hresult
  · exact h

/-- **The model that a run of the formatter leads to is sound.** -/
theorem sound_formatFile {f : File} {passes : List Pass} (hp : ∀ p ∈ passes, p.KeepsSound)
    (h : f.IsSound) : (formatFile f config passes).file.IsSound := by
  have hrun {run : FormatRun} (h : run.file.IsSound) :
      (passes.foldl (FormatRun.step config) run).file.IsSound := by
    induction passes generalizing run with
    | nil => exact h
    | cons p passes ih =>
      exact ih (fun q hq => hp q (List.mem_cons_of_mem _ hq))
        (FormatRun.sound_step hc (hp p List.mem_cons_self) h)
  unfold formatFile
  split
  · exact hrun h
  · exact h

end

/-- A file without defects is not left alone. -/
theorem skipped_formatFile {f : File} {config : FormatConfig} {passes : List Pass}
    (h : f.errors = []) : (formatFile f config passes).skipped = none := by
  have hstep (run : FormatRun) (p : Pass) : (run.step config p).skipped = run.skipped := by
    unfold FormatRun.step
    split
    · dsimp only
      split <;> rfl
    · rfl
  have hrun (run : FormatRun) :
      (passes.foldl (FormatRun.step config) run).skipped = run.skipped := by
    induction passes generalizing run with
    | nil => rfl
    | cons p passes ih => rw [List.foldl_cons, ih, hstep]
  rw [formatFile, h, List.isEmpty_nil, if_pos rfl, hrun]

/-! ## Texts -/

/-- Text is only written of a valid model. -/
theorem renderStrict_eq_ok {f : File} {text : String} (h : f.renderStrict = .ok text) :
    f.issues = [] ∧ text = f.render := by
  unfold File.renderStrict at h
  split at h
  · cases h
  · rename_i hi
    cases h
    exact ⟨File.check_eq_ok_nil_iff.1 hi, rfl⟩
  · cases h

section
variable {source : String} {d : Document} {config : FormatConfig} {out : Formatted}

/-- What is written of a source without defects is the text of the model that the run leads to. -/
theorem formatSource_of_errors {passes : List Pass} (hp : (parse source).errors = []) :
    (formatSource source config passes).1 =
      (formatFile (parse source) config passes).file.renderStrict.map fun text =>
        ⟨text, text != source, none⟩ := by
  unfold formatSource
  rw [parse?_of_errors hp]
  dsimp only
  rw [skipped_formatFile hp]

/-- What is written of a source without defects is the text of a sound and valid model. -/
theorem sound_formatSource (hp : (parse source).errors = []) (hc : FormatConfig.read d = .ok config)
    (hf : (formatSource source config Pass.all).1 = .ok out) :
    let f := (formatFile (parse source) config Pass.all).file
    f.IsSound ∧ f.issues = [] ∧ out.text = f.render := by
  have hsound := sound_formatFile (FormatConfig.isValid_of_read hc) Pass.keepsSound_all
    (sound_parse hp)
  refine ⟨hsound, ?_⟩
  rw [formatSource_of_errors hp] at hf
  cases hr : (formatFile (parse source) config Pass.all).file.renderStrict with
  | error e =>
    rw [hr] at hf
    cases hf
  | ok text =>
    rw [hr] at hf
    cases hf
    exact renderStrict_eq_ok hr

/-- **What is written is read back exactly if it is legible.**  The text that is written of a
source without defects is read without a defect, and as a model with the outline of the one
that was written, exactly if in that model nothing but a header starts with an asterisk, no
statement with data ends with a line that holds nothing but a comment, and the last statement
has a text. -/
theorem format_read_back_iff (hp : (parse source).errors = [])
    (hc : FormatConfig.read d = .ok config)
    (hf : (formatSource source config Pass.all).1 = .ok out) :
    (parse out.text).errors = [] ∧
        (parse out.text).outline = (formatFile (parse source) config Pass.all).file.outline ↔
      (formatFile (parse source) config Pass.all).file.Legible := by
  obtain ⟨hsound, hi, htext⟩ := sound_formatSource hp hc hf
  rw [htext]
  exact hsound.read_back_iff hi

end

set_option maxRecDepth 100000 in
example : (formatSource "*** Settings ***\nLibrary  X\n" .default Pass.all).1.toOption.map (·.text) =
    some "*** Settings ***\nLibrary    X\n" := by
  decide +kernel

set_option maxRecDepth 100000 in
/-- A text that is read back. -/
theorem format_read_back_of_variable :
    let source := "*** Variables ***\nfoo  bar\n"
    let out : Formatted := ⟨"*** Variables ***\nfoo    bar\n", true, none⟩
    (parse source).errors = [] ∧ FormatConfig.read .null = .ok .default ∧
      (formatSource source .default Pass.all).1 = .ok out ∧
      (formatFile (parse source) .default Pass.all).file.Legible := by
  intro source out
  have hc : FormatConfig.read .null = .ok .default := rfl
  obtain ⟨hp, hf, hread⟩ : (parse source).errors = [] ∧
      (formatSource source .default Pass.all).1.toOption = some out ∧
      (parse out.text).errors = [] ∧ (parse out.text).outline =
        (formatFile (parse source) .default Pass.all).file.outline := by
    decide +kernel
  have hf := eq_ok_of_toOption hf
  exact ⟨hp, hc, hf, (format_read_back_iff hp hc hf).1 hread⟩

set_option maxRecDepth 100000 in
/-- An indented cell that starts with an asterisk is written in column one, where it is read
as the header of a section. -/
theorem format_not_read_back :
    let source := "*** Variables ***\n  *foo    bar\n"
    let text := "*** Variables ***\n*foo    bar\n"
    (parse source).errors = [] ∧ FormatConfig.read .null = .ok .default ∧
      (formatSource source .default Pass.all).1 = .ok ⟨text, true, none⟩ ∧
      (parse text).errors ≠ [] ∧
      (parse text).outline ≠ (formatFile (parse source) .default Pass.all).file.outline := by
  intro source text
  obtain ⟨hp, hf, hread⟩ : (parse source).errors = [] ∧
      (formatSource source .default Pass.all).1.toOption = some ⟨text, true, none⟩ ∧
      (parse text).errors ≠ [] ∧
      (parse text).outline ≠ (formatFile (parse source) .default Pass.all).file.outline := by
    decide +kernel
  exact ⟨hp, rfl, eq_ok_of_toOption hf, hread⟩

/-- The configuration that switches on one pass only. -/
def FormatConfig.only (name : String) (config : FormatConfig) : FormatConfig :=
  { config with
    passes := config.passes.map fun (key, setting) =>
      (key, { setting with enabled := key = name }) }

set_option maxRecDepth 100000 in
/-- Three lines with one line ending become two, so that the other one is the more frequent.  The
setting is still too long, and the next run writes its lines with that. -/
theorem split_again_changes :
    let source := "*** Settings ***\n\nLibrary    aaaaaaaaaaaaaaaaaaaaaaaaa\r\n" ++
      "...    b\r\n...    c\r\n...    d"
    let text := "*** Settings ***\n\nLibrary\r\n" ++
      "...    aaaaaaaaaaaaaaaaaaaaaaaaa\r\n...    b    c    d"
    let again := "*** Settings ***\n\nLibrary\n" ++
      "...    aaaaaaaaaaaaaaaaaaaaaaaaa\n...    b    c    d"
    let d := Document.mapping [("lineLength", .number 20), ("passes", .mapping
      (Pass.all.map fun p => (p.name, .flag (p.name = Split.pass.name))))]
    let config := { FormatConfig.default with lineLength := 20 }.only Split.pass.name
    (parse source).errors = [] ∧ FormatConfig.read d = .ok config ∧
      (Pass.all.filter fun p => config.runs p.info).map Pass.name = [Split.pass.name] ∧
      (formatSource source config Pass.all).1 = .ok ⟨text, true, none⟩ ∧
      (formatSource text config Pass.all).1 = .ok ⟨again, true, none⟩ := by
  intro source text again d config
  have hc : FormatConfig.read d = .ok config := eq_ok_of_toOption (by decide +kernel)
  obtain ⟨hp, honly, hf, hagain⟩ : (parse source).errors = [] ∧
      (Pass.all.filter fun p => config.runs p.info).map Pass.name = [Split.pass.name] ∧
      (formatSource source config Pass.all).1.toOption = some ⟨text, true, none⟩ ∧
      (formatSource text config Pass.all).1.toOption = some ⟨again, true, none⟩ := by
    decide +kernel
  exact ⟨hp, hc, honly, eq_ok_of_toOption hf, eq_ok_of_toOption hagain⟩

/-- The model behind a sequence of passes, which run whether or not a configuration switches
them on. -/
def runPasses (config : FormatConfig) (f : File) (passes : List Pass) : File :=
  passes.foldl (fun f p => (p.apply ⟨config, config.paramsOf p.name, f.newline.text⟩ f).tree) f

/-- A model that is laid out as the grammar has it, and in which the check finds nothing. -/
structure File.Intact (f : File) : Prop where
  sound : f.IsSound
  valid : f.issues = []

/-- A model that is laid out as the grammar has it, and whose statements are valid by themselves,
while its sections need not be checkable. -/
structure File.IsFair (f : File) : Prop where
  sound : f.IsSound
  placed : ∀ s ∈ f.sections, s.AlmostPlaced

/-- A file that is sound and valid is fair. -/
theorem File.Intact.fair {f : File} (h : f.Intact) : f.IsFair :=
  ⟨h.sound, fun s hs => ((wellPlaced_of_issues h.valid).sections s hs).almost⟩

/-- No statement of a fair file has a flaw. -/
theorem File.IsFair.flaws {f : File} (h : f.IsFair) : ∀ s ∈ f.statements, s.flaws = [] := by
  intro s hs
  obtain ⟨sect, hsect, hs⟩ := List.mem_flatMap.1 hs
  exact (h.placed sect hsect).flaws s hs

/-- No pass puts another line break than its own. -/
theorem Pass.keepsBreaks_all : ∀ p ∈ Pass.all, p.KeepsBreaks := by
  intro p hp
  simp only [Pass.all, List.mem_cons, List.not_mem_nil, or_false] at hp
  rcases hp with rfl | rfl | rfl | rfl | rfl | rfl | rfl | rfl | rfl
  · exact MergeSections.keepsBreaks_pass
  · exact OrderSettings.keepsBreaks_pass
  · exact Spelling.keepsBreaks_headerPass
  · exact Spelling.keepsBreaks_settingPass
  · exact UniqueTags.keepsBreaks_pass
  · exact EmptyLines.keepsBreaks_pass
  · exact Gaps.keepsBreaks_pass
  · exact Split.keepsBreaks_pass
  · exact Columns.keepsBreaks_pass

/-- A text is written of a valid model. -/
theorem renderStrict_of_issues {f : File} (h : f.issues = []) : f.renderStrict = .ok f.render := by
  rw [File.renderStrict, File.check_eq_ok_nil_iff.2 h]

section
variable {config : FormatConfig} {f : File} {passes : List Pass}

/-- One pass leaves the model intact, also where it fails. -/
theorem File.Intact.apply {setup : PassSetup} {p : Pass} (h : f.Intact) (hv : setup.IsValid)
    (hp : p ∈ Pass.all) : (p.apply setup f).tree.Intact :=
  ⟨(Pass.keepsSound_all p hp).apply hv h.sound,
    (Pass.keepsBreaks_all p hp).valid_apply (Pass.keepsSound_all p hp) hv h.sound h.valid⟩

/-- **A sequence of passes leaves the model intact.** -/
theorem intact_runPasses (hc : config.IsValid) (hp : ∀ p ∈ passes, p ∈ Pass.all) (h : f.Intact) :
    (runPasses config f passes).Intact := by
  induction passes generalizing f with
  | nil => exact h
  | cons p passes ih =>
    rw [List.forall_mem_cons] at hp
    exact ih hp.2 (h.apply (PassSetup.isValid_of_config hc _ f) hp.1)

/-- One pass leaves the model fair, also where it fails. -/
theorem File.IsFair.apply {setup : PassSetup} {p : Pass} (h : f.IsFair) (hv : setup.IsValid)
    (hp : p ∈ Pass.all) : (p.apply setup f).tree.IsFair := by
  refine ⟨(Pass.keepsSound_all p hp).apply hv h.sound, ?_⟩
  rw [Pass.apply]
  split
  · exact h.placed
  · exact Transform.almostPlaced_run _ h.placed

/-- **A sequence of passes leaves the model fair.** -/
theorem fair_runPasses (hc : config.IsValid) (hp : ∀ p ∈ passes, p ∈ Pass.all) (h : f.IsFair) :
    (runPasses config f passes).IsFair := by
  induction passes generalizing f with
  | nil => exact h
  | cons p passes ih =>
    rw [List.forall_mem_cons] at hp
    exact ih hp.2 (h.apply (PassSetup.isValid_of_config hc _ f) hp.1)

/-- The passes that are switched on lead to the model of a run. -/
theorem FormatRun.file_steps (run : FormatRun) : (passes.foldl (FormatRun.step config) run).file =
    runPasses config run.file (passes.filter fun p => config.runs p.info) := by
  induction passes generalizing run with
  | nil => rfl
  | cons p passes ih =>
    rw [List.foldl_cons, ih, List.filter_cons]
    unfold FormatRun.step
    split
    · dsimp only
      split <;> rfl
    · rfl

/-- A run of the formatter is a sequence of the passes that are switched on. -/
theorem file_formatFile (h : f.errors = []) : (formatFile f config passes).file =
    runPasses config f (passes.filter fun p => config.runs p.info) := by
  rw [formatFile, h, List.isEmpty_nil, if_pos rfl, FormatRun.file_steps]

end

section
variable {source : String} {d : Document} {config : FormatConfig} {passes : List Pass}

/-- **Passes never break the tree.**  If a source is read without a defect, and the check finds
nothing wrong with its model, then nothing is wrong after any of a sequence of passes, whatever
the configuration says.  So what they lead to is written, and so is what a run of the formatter
leads to. -/
theorem format_keeps_valid (hp : (parse source).errors = []) (hi : (parse source).issues = [])
    (hc : FormatConfig.read d = .ok config) (hpasses : ∀ p ∈ passes, p ∈ Pass.all) :
    (∀ front, front <+: passes → (runPasses config (parse source) front).issues = []) ∧
      (runPasses config (parse source) passes).renderStrict =
        .ok (runPasses config (parse source) passes).render ∧
      (formatFile (parse source) config passes).file.issues = [] ∧
      ∃ out, (formatSource source config passes).1 = .ok out := by
  have hvalid {passes : List Pass} (hpasses : ∀ p ∈ passes, p ∈ Pass.all) :
      (runPasses config (parse source) passes).issues = [] :=
    (intact_runPasses (FormatConfig.isValid_of_read hc) hpasses ⟨sound_parse hp, hi⟩).valid
  have hrun : (formatFile (parse source) config passes).file.issues = [] := by
    rw [file_formatFile hp]
    exact hvalid fun p hmem => hpasses p (List.mem_filter.1 hmem).1
  refine ⟨fun front hfront => hvalid fun p hmem => hpasses p (hfront.subset hmem),
    renderStrict_of_issues (hvalid hpasses), hrun, ?_⟩
  rw [formatSource_of_errors hp, renderStrict_of_issues hrun]
  exact ⟨_, rfl⟩

set_option maxRecDepth 100000 in
/-- The setting without line break is moved to the front, gets a line break, and an empty line is
put behind it. -/
theorem format_keeps_valid_of_open_end :
    let source := "*** Settings ***\nForce Tags    a\nLibrary    X"
    let passes := [OrderSettings.pass, EmptyLines.pass, OrderSettings.pass, MergeSections.pass]
    (parse source).errors = [] ∧ (parse source).issues = [] ∧
      FormatConfig.read .null = .ok .default ∧ (∀ p ∈ passes, p ∈ Pass.all) ∧
      (runPasses .default (parse source) passes).issues = [] ∧
      (runPasses .default (parse source) passes).render =
        "*** Settings ***\nLibrary    X\n\nForce Tags    a\n" := by
  have hp : (parse "*** Settings ***\nForce Tags    a\nLibrary    X").errors = [] := by
    decide +kernel
  have hi : (parse "*** Settings ***\nForce Tags    a\nLibrary    X").issues = [] := by
    decide +kernel
  have hc : FormatConfig.read .null = .ok .default := rfl
  have hpasses : ∀ p ∈ [OrderSettings.pass, EmptyLines.pass, OrderSettings.pass,
      MergeSections.pass], p ∈ Pass.all := by
    simp [Pass.all]
  exact ⟨hp, hi, hc, hpasses,
    (format_keeps_valid hp hi hc hpasses).1 _ List.prefix_rfl, by decide +kernel⟩

end

end RobotSuite
