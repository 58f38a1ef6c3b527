/-
# Tags that are removed are tags that are reported

The pass removes a tag whose key, in the case that is asked for, is that of a tag in front of it.
The rule on repeated tags goes by the keys of the tags as they are.  So the rule finds nothing
behind the pass, and where the pass leaves the case alone the two mean the same tags
(`repeated_tags_removed`).
-/

import RobotSuite.Lint.Check
import RobotSuite.Proofs.Format.StatementPasses
import RobotSuite.Proofs.Lint.LayoutAgreement

namespace RobotSuite

/-! ## What the rule reports -/

namespace TagRules

/-- Tags that occur again are those whose keys occur in front of them. -/
theorem map_fst_repetitions {seen : List (String × TagRef)} {front : List String}
    (h : ∀ k, (seen.lookup k).isSome = true ↔ k ∈ front) (ts : List TagRef) :
    (repetitions seen ts).map (·.1) = repeats (fun t => Text.tagKey t.value) front ts := by
  induction ts generalizing seen front with
  | nil => rfl
  | cons t ts ih =>
    have hkey := h (Text.tagKey t.value)
    rw [repetitions, repeats_cons]
    cases hseen : seen.lookup (Text.tagKey t.value) with
    | some first =>
      rw [hseen, Option.isSome_some, eq_self_iff_true, true_iff] at hkey
      have hfront : ∀ k, (seen.lookup k).isSome = true ↔ k ∈ front ++ [Text.tagKey t.value] := by
        intro k
        rw [h, List.mem_append, List.mem_singleton, iff_self_or]
        rintro rfl
        exact hkey
      rw [List.map_cons, ih hfront, if_pos (List.contains_iff_mem.2 hkey)]
      rfl
    | none =>
      rw [hseen, Option.isSome_none, Bool.false_eq_true, false_iff] at hkey
      have hfront : ∀ k, (((Text.tagKey t.value, t) :: seen).lookup k).isSome = true ↔
          k ∈ front ++ [Text.tagKey t.value] := by
        intro k
        rw [List.lookup_cons, List.mem_append, List.mem_singleton, ← h]
        by_cases hk : k = Text.tagKey t.value
        · rw [beq_iff_eq.2 hk]
          simp [hk]
        · rw [beq_eq_false_iff_ne.2 hk, or_iff_left hk]
      rw [ih hfront, if_neg fun hc => hkey (List.contains_iff_mem.1 hc), List.nil_append]

/-- Pairing cells with the token in front loses no cell. -/
theorem map_snd_withPrevious (previous : Option Token) (ts : List Token) :
    (withPrevious previous ts).map (·.2) = dataTokens ts := by
  induction ts generalizing previous with
  | nil => rfl
  | cons t ts ih =>
    rw [withPrevious, dataTokens, List.filter_cons]
    split
    · rw [List.map_cons, ih, dataTokens]
    · exact ih _

/-- The key by which the rule tells a tag from others. -/
abbrev keyOf (t : Token) : String := Text.tagKey t.value

/-- The places of the tags of a setting that occur again. -/
theorem locations_repetitions {s : Statement} (h : s.type ≠ .keywordCall) :
    (repetitions [] (cellTags s)).map (·.1.location) =
      (repeats keyOf [] s.args).map (·.span.start) := by
  have hargs : ((withPrevious none s.tokens).tail).map (·.2) = s.args := by
    rw [List.map_tail, map_snd_withPrevious, Statement.args, Statement.assign, if_neg h]
    rfl
  have hnone : ∀ k, (([] : List (String × TagRef)).lookup k).isSome = true ↔ k ∈ [] := by simp
  have hfirst := map_fst_repetitions hnone (cellTags s)
  rw [cellTags, repeats_map] at hfirst
  have hkeys : repeats keyOf [] s.args =
      (repeats (fun p : Option Token × Token => keyOf p.2) []
        (withPrevious none s.tokens).tail).map (·.2) := by
    rw [← hargs, repeats_map]
  calc (repetitions [] (cellTags s)).map (·.1.location)
      = ((repetitions [] (cellTags s)).map (·.1)).map (·.location) := by rw [List.map_map]; rfl
    _ = (repeats keyOf [] s.args).map (·.span.start) := by
      rw [cellTags, hfirst, hkeys, List.map_map, List.map_map]
      rfl

/-- What the rule on repeated tags reports at a step of a walk. -/
def reportedAt (lint : LintConfig) (text : String) (f : File) (v : Step × Scope) :
    List Diagnostic :=
  (checkStep lint text (sourceLines text) f [duplicated] v).flatMap (·.diagnostics)

/-- **What the rule reports at a tag setting.** -/
theorem locations_reportedAt (lint : LintConfig) (text : String) (f : File) {v : Step × Scope}
    {s : Statement} (hv : v.1 = .meet s) (hs : s.holdsTags = true) :
    (reportedAt lint text f v).map (·.location) =
      (repeats keyOf [] s.tagCells).map (·.span.start.spot) := by
  have htype := UniqueTags.type_of_holdsTags hs
  have hvisits : duplicated.visits (Node.statement s).type = true := by
    show isSetting s.type = true
    rcases htype with ht | ht <;> rw [ht] <;> rfl
  have hcall : s.type ≠ .keywordCall := by rcases htype with ht | ht <;> simp [ht]
  have hfound (ctx : RuleContext) : ∃ ds, duplicated.validate ctx (.statement s) = .ok ds ∧
      ds.map (·.location) = (repeats keyOf [] s.tagCells).map (·.span.start.spot) := by
    refine ⟨_, rfl, ?_⟩
    have hplaces := congrArg (List.map Location.spot) (locations_repetitions hcall)
    rw [List.map_map, List.map_map] at hplaces
    have htags : collectTags ctx s = cellTags s := if_pos hs
    dsimp only
    rw [htags, List.map_map, Statement.tagCells, if_pos hs]
    exact hplaces
  obtain ⟨step, sc⟩ := v
  obtain rfl : step = .meet s := hv
  obtain ⟨ds, hds, hplaces⟩ := hfound ⟨text, sourceLines text, f, sc, lint.paramsOf duplicated.code⟩
  have hstep : checkStep lint text (sourceLines text) f [duplicated] (.meet s, sc) =
      [duplicated.run lint text (sourceLines text) f sc (.statement s)] := by
    show ([duplicated].filter fun r => r.visits (Node.statement s).type).map _ = _
    rw [List.filter_singleton, hvisits]
    rfl
  rw [reportedAt, hstep, List.flatMap_singleton, Rule.run, hds]
  dsimp only
  split
  · exact hplaces
  · rw [List.map_map]
    exact hplaces

end TagRules

/-! ## What the pass makes of a tag setting -/

namespace UniqueTags
variable {mode : TagCase} {kind : SectionKind} {s new : Statement}

/-- What is left of a tag setting when its tags are unified. -/
structure IsUnified (mode : TagCase) (s new : Statement) : Prop where
  type : new.type = s.type
  name : new.name = s.name
  cells : new.tagCells.map (·.value) = leftTags mode [] s.tagCells
  comments : commentTokens new.tokens = commentTokens s.tokens
  lines : SettingLeft mode (splitLines s.tokens) (splitLines new.tokens)

/-- What the pass makes of a statement. -/
def unified (mode : TagCase) (s : Statement) : Statement := (unify mode s).getD s

/-- Without removals every token is left. -/
theorem dropRemoved_of_kept {edits : List Edit} (h : edits.any (·.2) = false) :
    dropRemoved [] edits = edits.map (·.1) := by
  have hedits : (edits.map (·.1)).map (fun t => (t, false)) ++ [] = edits := by
    rw [List.append_nil, List.map_map]
    refine (List.map_congr_left fun e he => ?_).trans (List.map_id edits)
    have := List.any_eq_false.1 h e he
    exact Prod.ext rfl (by simpa using this)
  have hrun := dropRemoved_kept [] (edits.map (·.1)) []
  rw [hedits, dropRemoved, List.append_nil, List.reverse_reverse] at hrun
  exact hrun

/-- A setting without tags stays. -/
theorem editSetting_of_singleton {ts : List Token} {c : Token} (h : dataTokens ts = [c]) :
    editSetting mode ts = ts.map fun t => (t, false) := by
  induction ts with
  | nil => rfl
  | cons t ts ih =>
    rw [dataTokens, List.filter_cons] at h
    rw [editSetting, List.map_cons]
    by_cases hd : t.isData = true
    · rw [if_pos hd] at h ⊢
      have hnone := List.filter_eq_nil_iff.1 (List.cons.inj h).2
      have hplain : editTags mode [] (ts ++ []) = ts.map (fun t => (t, false)) ++
          editTags mode [] [] := editTags_of_plain (fun t ht => by simpa using hnone t ht) []
      rw [List.append_nil, editTags, List.append_nil] at hplain
      rw [hplain]
    · rw [if_neg hd] at h ⊢
      rw [ih h]

/-- The tokens of a setting, of which the first with data is the name. -/
theorem data_eq (hs : s.type ≠ .keywordCall) {c : Token} {tags : List Token}
    (h : dataTokens s.tokens = c :: tags) : s.name = some c ∧ s.args = tags := by
  rw [Statement.name, Statement.args, Statement.assign, if_neg hs, Statement.data, h]
  exact ⟨rfl, rfl⟩

/-- A tag setting that the pass leaves as it is keeps all its tokens. -/
theorem dropRemoved_of_unify (h : s.IsSound kind) (ht : s.holdsTags = true)
    (hs : unify mode s = none) : dropRemoved [] (editSetting mode s.tokens) = s.tokens := by
  have htype := type_of_holdsTags ht
  have hcall : s.type ≠ .keywordCall := by rcases htype with ht | ht <;> simp [ht]
  obtain ⟨c, tags, hdata⟩ : ∃ c tags, dataTokens s.tokens = c :: tags :=
    List.exists_cons_of_ne_nil (by simpa [dataTexts] using dataTexts_ne_nil h htype)
  rw [unify] at hs
  split at hs
  · rename_i hnone
    rw [Statement.tagCells, if_pos ht, (data_eq hcall hdata).2, List.isEmpty_iff] at hnone
    rw [hnone] at hdata
    have hkept := dropRemoved_kept [] s.tokens []
    rw [List.append_nil, dropRemoved, List.append_nil, List.reverse_reverse] at hkept
    rw [editSetting_of_singleton hdata, hkept]
  · dsimp only at hs
    split at hs
    · cases hs
    · rename_i hsame
      rw [Bool.or_eq_true, not_or, Bool.not_eq_true, bne_iff_ne, ne_eq, not_not] at hsame
      rw [dropRemoved_of_kept hsame.1, hsame.2]

/-- The lines that the pass leaves of a tag setting. -/
theorem exists_lines (mode : TagCase) (h : s.IsSound kind) (ht : s.holdsTags = true) :
    ∃ rests, (unified mode s).type = s.type ∧ (unified mode s).tokens = rests.flatten ∧
      Laid false rests ∧ SettingLeft mode (splitLines s.tokens) rests := by
  cases hs : unify mode s with
  | some new =>
    obtain ⟨rests, rfl, hlaid, hleft⟩ := unify_eq_some h hs
    rw [unified, hs]
    exact ⟨rests, rfl, rfl, hlaid, hleft⟩
  | none =>
    obtain ⟨rests, hrun, hlaid, hleft, -⟩ :=
      laid_unified mode h.laid (dataTexts_ne_nil h (type_of_holdsTags ht))
    rw [dropRemoved_of_unify h ht hs] at hrun
    rw [unified, hs]
    exact ⟨rests, rfl, hrun, hlaid, hleft⟩

/-- Whether a statement holds tags is told by its type and name. -/
theorem holdsTags_congr {s r : Statement} (ht : r.type = s.type) (hn : r.name = s.name) :
    r.holdsTags = s.holdsTags := by
  rw [Statement.holdsTags, Statement.holdsTags, Statement.suiteSetting?, Statement.suiteSetting?,
    Statement.blockSetting?, Statement.blockSetting?, Statement.nameText, Statement.nameText, ht, hn]

/-- **What the pass makes of a tag setting is what is left of it.** -/
theorem isUnified (mode : TagCase) (h : s.IsSound kind) (ht : s.holdsTags = true) :
    IsUnified mode s (unified mode s) := by
  have hcall : s.type ≠ .keywordCall := by rcases type_of_holdsTags ht with ht | ht <;> simp [ht]
  obtain ⟨rests, htype, htokens, hlaid, hleft⟩ := exists_lines mode h ht
  obtain ⟨c, tags, tags', hold, hnew, htags⟩ := hleft.tags
  have hcomments := hleft.comments
  rw [flatten_splitLines] at hold hcomments
  rw [← htokens] at hnew hcomments
  obtain ⟨hname, hargs⟩ := data_eq hcall hold
  obtain ⟨hname', hargs'⟩ := data_eq (htype ▸ hcall) hnew
  have hsame : (unified mode s).name = s.name := hname'.trans hname.symm
  constructor
  · exact htype
  · exact hsame
  · rw [Statement.tagCells, Statement.tagCells, holdsTags_congr htype hsame, if_pos ht, if_pos ht,
      hargs, hargs', htags]
  · exact hcomments
  · rwa [htokens, splitLines_flatten hlaid.written]

/-- What is not a tag setting stays. -/
theorem unified_of_not_holdsTags (h : s.holdsTags = false) : unified mode s = s := by
  cases hs : unify mode s with
  | none => rw [unified, hs]; rfl
  | some new => simp [holdsTags_of_unify hs] at h

/-- The line endings of what is left are among the old ones. -/
theorem LinesLeft.endings {front : List String} {lines rests : List (List Token)}
    (h : LinesLeft mode front lines rests) (hl : ∀ l ∈ lines, ∃ k, Written k l)
    (hr : ∀ l ∈ rests, ∃ k, Written k l) :
    (eolTexts rests.flatten).Sublist (eolTexts lines.flatten) := by
  rw [eolTexts_flatten, eolTexts_flatten]
  induction h with
  | nil => exact .slnil
  | keep _ _ he _ ih =>
    obtain ⟨⟨k, hline⟩, hlines⟩ := List.forall_mem_cons.1 hl
    obtain ⟨⟨k', hrest⟩, hrests⟩ := List.forall_mem_cons.1 hr
    rw [List.flatMap_cons, List.flatMap_cons, hline.eolTexts, hrest.eolTexts, he]
    exact (ih hlines hrests).cons_cons _
  | drop _ _ _ _ ih =>
    rw [List.flatMap_cons]
    exact (ih (List.forall_mem_cons.1 hl).2 hr).trans (List.sublist_append_right _ _)

/-- The setting left has some of the old line endings, in order. -/
theorem SettingLeft.endings {lines rests : List (List Token)} (h : SettingLeft mode lines rests)
    (hl : ∀ l ∈ lines, ∃ k, Written k l) (hr : ∀ l ∈ rests, ∃ k, Written k l) :
    (eolTexts rests.flatten).Sublist (eolTexts lines.flatten) := by
  obtain ⟨-, -, -, -, he, hleft⟩ := h
  obtain ⟨⟨k, hline⟩, hlines⟩ := List.forall_mem_cons.1 hl
  obtain ⟨⟨k', hrest⟩, hrests⟩ := List.forall_mem_cons.1 hr
  have hmore := hleft.endings hlines hrests
  rw [eolTexts_flatten, eolTexts_flatten] at hmore ⊢
  rw [List.flatMap_cons, List.flatMap_cons, hline.eolTexts, hrest.eolTexts, he]
  exact hmore.cons_cons _

/-- A setting without flaws has none when its tags are unified. -/
theorem flaws_unify (h : s.IsSound kind) (hf : s.flaws = []) (hs : unify mode s = some new) :
    new.flaws = [] := by
  have hcall : s.type ≠ .keywordCall := by rcases type_of_unify hs with ht | ht <;> simp [ht]
  obtain ⟨rests, rfl, hlaid, hleft⟩ := unify_eq_some h hs
  obtain ⟨c, tags, tags', hold, hnew, -⟩ := hleft.tags
  have hcomments := hleft.comments
  have hends := hleft.endings h.laid.written hlaid.written
  rw [flatten_splitLines] at hold hcomments hends
  refine Statement.flaws_withTokens h.laid ?_ ?_ ?_ hends hf
  · rwa [splitLines_flatten hlaid.written]
  · intro _
    have hname : (s.withTokens rests.flatten).name = some c :=
      (data_eq (s := s.withTokens rests.flatten) hcall hnew).1
    rw [hname, (data_eq hcall hold).1]
  · rw [commentTexts, hcomments]
    rfl

/-- The replacement of a setting whose tags are unified is made. -/
theorem outcome_unify (h : s.IsSound kind) (hf : s.flaws = []) :
    (Decision.ofOption (unify mode s)).outcome s (replacementIssues s) = unified mode s := by
  cases hs : unify mode s with
  | none => rw [unified, hs]; rfl
  | some new =>
    obtain ⟨rests, rfl, -, -⟩ := unify_eq_some h hs
    rw [unified, hs]
    exact Decision.outcome_put s _ rfl (flaws_unify h hf hs)

/-- The tags of a setting whose tags are unified have keys that all differ. -/
theorem IsUnified.nodup_keys (h : IsUnified mode s new) :
    (new.tagCells.map TagRules.keyOf).Nodup := by
  have hkeys : new.tagCells.map TagRules.keyOf =
      (firsts (keyOf mode) [] s.tagCells).map (keyOf mode) := by
    have hcells := congrArg (List.map Text.tagKey) h.cells
    rw [leftTags, List.map_map, List.map_map] at hcells
    exact hcells
  rw [hkeys]
  exact (nodup_firsts s.tagCells).1

/-- No tag of a setting whose tags are unified occurs again. -/
theorem IsUnified.nodup (h : IsUnified mode s new) : repeats TagRules.keyOf [] new.tagCells = [] :=
  repeats_eq_nil h.nodup_keys fun _ _ => List.not_mem_nil

/-- Tags that keep their case have the keys by which the rule tells them apart. -/
theorem keyOf_preserve : keyOf .preserve = TagRules.keyOf := by
  funext t
  have hsame : TagCase.apply .preserve t.value = t.value := by
    rw [TagCase.apply]
    split <;> rfl
  rw [keyOf, hsame]

/-- The case that the pass gives to tags. -/
def caseOf (setup : PassSetup) : TagCase :=
  (TagCase.ofName? (setup.params.text "case" "lowercase")).getD .lower

section
variable {source : String} (hp : (parse source).errors = []) (hi : (parse source).issues = [])
  (hs : ∀ s ∈ (parse source).statements, s.directive? = none)
include hp hi hs

/-- The statements behind the pass. -/
theorem statements_pass (setup : PassSetup) : (pass.apply setup (parse source)).tree.statements =
    (parse source).statements.map (unified (caseOf setup)) := by
  have hmet := (parse source).map_fst_meetings
  have hnew : (pass.apply setup (parse source)).tree.statements =
      (parse source).meetings.map (Pass.made info fun _ s => unify (caseOf setup) s) :=
    Pass.statements_ofStatements setup (parse source)
  rw [hnew, ← hmet, List.map_map]
  refine List.map_congr_left fun m hm => ?_
  have hmem : m.1 ∈ (parse source).statements := hmet ▸ List.mem_map_of_mem hm
  rw [Pass.made_of_silent hs _ m hm]
  obtain ⟨kind, hheader | hsound⟩ := (sound_parse hp).statement_cases m.1 hmem
  · have hnone : unify (caseOf setup) m.1 = none := by
      cases hu : unify (caseOf setup) m.1 with
      | none => rfl
      | some new => rcases type_of_unify hu with ht | ht <;> simp [hheader.type] at ht
    rw [Function.comp_apply, unified, hnone]
    rfl
  · exact outcome_unify hsound (flaws_of_mem_statements hi m.1 hmem)

/-- **Tags are removed that occur again, and no others.**  A source has no defect, its model is valid
and holds no directive.  Then the pass leaves what is no tag setting as it is, and of each tag
setting it leaves, line by line, the tags in their case whose keys do not occur in front of them.
The rule on repeated tags finds nothing at the tag settings behind the pass.  And if tags keep their
case, it finds in the source those that the pass removes. -/
theorem repeated_tags_removed (setup : PassSetup) :
    let mode := caseOf setup
    let after := pass.apply setup (parse source)
    after.fault = none ∧
      List.Forall₂ (fun s new => (s.holdsTags = true → IsUnified mode s new) ∧
        (s.holdsTags = false → new = s)) (parse source).statements after.tree.statements ∧
      (∀ lint text, ∀ v ∈ after.tree.visits, ∀ s, v.1 = .meet s → s.holdsTags = true →
        TagRules.reportedAt lint text after.tree v = []) ∧
      (mode = .preserve → ∀ lint, ∀ v ∈ (parse source).visits, ∀ s, v.1 = .meet s →
        s.holdsTags = true → (TagRules.reportedAt lint source (parse source) v).map (·.location) =
          (repeats (keyOf mode) [] s.tagCells).map (·.span.start.spot)) := by
  intro mode after
  have hnew : after.tree.statements = (parse source).statements.map (unified mode) :=
    statements_pass hp hi hs setup
  have hunified : ∀ s ∈ (parse source).statements, s.holdsTags = true →
      IsUnified mode s (unified mode s) := by
    intro s hmem ht
    obtain ⟨kind, hheader | hsound⟩ := (sound_parse hp).statement_cases s hmem
    · rcases type_of_holdsTags ht with ht | ht <;> simp [hheader.type] at ht
    · exact isUnified mode hsound ht
  refine ⟨?_, ?_, ?_, ?_⟩
  · have hbroken := ((Pass.asks info fun _ s => unify mode s).run_transform info.name
      (parse source)).2.2
    have hrun : after = .ofTransformed (((Pass.asks info fun _ s => unify mode s).transform
      info.name).run (parse source)) := Pass.apply_ofStatements setup (parse source)
    rw [hrun, PassResult.ofTransformed, hbroken]
    rfl
  · rw [hnew, List.forall₂_map_right_iff, List.forall₂_same]
    exact fun s hmem => ⟨hunified s hmem, unified_of_not_holdsTags⟩
  · intro lint text v hv new hmeet ht
    have hmem : new ∈ after.tree.statements := by
      rw [← metStatements_file, ← map_fst_meetings {}]
      exact List.mem_map_of_mem (mem_meetings hv hmeet)
    rw [hnew] at hmem
    obtain ⟨s, hsource, rfl⟩ := List.mem_map.1 hmem
    have hold : s.holdsTags = true := by
      cases hs : s.holdsTags with
      | true => rfl
      | false => rwa [unified_of_not_holdsTags hs, hs] at ht
    have hplaces := TagRules.locations_reportedAt lint text after.tree hmeet ht
    rw [(hunified s hsource hold).nodup] at hplaces
    exact List.map_eq_nil_iff.1 hplaces
  · intro hmode lint v hv s hmeet ht
    rw [hmode, keyOf_preserve]
    exact TagRules.locations_reportedAt lint source (parse source) hmeet ht

end

set_option maxRecDepth 100000 in
/-- Tags over lines with comments between them, in upper case and as they are.  Only in upper case
is a sharp s the same as two of them. -/
theorem repeated_tags_removed_over_lines :
    let source := "*** Settings ***\nForce Tags    a b    AB\n*** Test Cases ***\nT\n" ++
      "    [Tags]    \u00DF    x    SS    # one\n    ...    X\n    # two\n" ++
      "    ...    s s    \u00DF    y\n    Log    x    x\n"
    let upper : PassSetup := ⟨.default, [("case", .text "uppercase")], "\n"⟩
    let same : PassSetup := ⟨.default, [("case", .text "preserve")], "\n"⟩
    let after := pass.apply upper (parse source)
    let upperText := "*** Settings ***\nForce Tags    A B\n*** Test Cases ***\nT\n" ++
      "    [Tags]    SS    X    # one\n    # two\n    ...    Y\n    Log    x    x\n"
    let sameText := "*** Settings ***\nForce Tags    a b\n*** Test Cases ***\nT\n" ++
      "    [Tags]    \u00DF    x    SS    # one\n    # two\n    ...    y\n    Log    x    x\n"
    (parse source).errors = [] ∧ (parse source).issues = [] ∧
      (∀ s ∈ (parse source).statements, s.directive? = none) ∧ after.fault = none ∧
      after.tree.render = upperText ∧ (pass.apply same (parse source)).tree.render = sameText ∧
      List.Forall₂ (fun s new => (s.holdsTags = true → IsUnified .upper s new) ∧
        (s.holdsTags = false → new = s)) (parse source).statements after.tree.statements ∧
      (∀ lint text, ∀ v ∈ after.tree.visits, ∀ s, v.1 = .meet s → s.holdsTags = true →
        TagRules.reportedAt lint text after.tree v = []) ∧
      ∀ lint, ∀ v ∈ (parse source).visits, ∀ s, v.1 = .meet s → s.holdsTags = true →
        (TagRules.reportedAt lint source (parse source) v).map (·.location) =
          (repeats (keyOf .preserve) [] s.tagCells).map (·.span.start.spot) := by
  intro source upper same after upperText sameText
  -- what the kernel computes is kept together, so that the source is read once
  obtain ⟨hp, hi, hs, hrender, hrender'⟩ : (parse source).errors = [] ∧
      (parse source).issues = [] ∧ (∀ s ∈ (parse source).statements, s.directive? = none) ∧
      after.tree.render = upperText ∧ (pass.apply same (parse source)).tree.render = sameText := by
    decide +kernel
  have hupper : caseOf upper = .upper := by decide
  have hsame : caseOf same = .preserve := by decide
  obtain ⟨hfault, hstatements, hnone, -⟩ := repeated_tags_removed hp hi hs upper
  obtain ⟨-, -, -, hplaces⟩ := repeated_tags_removed hp hi hs same
  rw [hupper] at hstatements
  rw [hsame] at hplaces
  exact ⟨hp, hi, hs, hfault, hrender, hrender', hstatements, hnone, hplaces rfl⟩

end UniqueTags
end RobotSuite
