/-
# The fixes of a check

A check walks through the model of a source and lets rules look at its nodes.  The fixes that come
out are the edits of the statements as they occur in the file, whatever the order in which the
diagnostics are reported (`fixChanges_checkSource`).
-/

import Mathlib.Data.List.Perm.Basic
import RobotSuite.Proofs.Lint.FixingRules

namespace RobotSuite

/-! ## Rows -/

/-- The tokens of a line: the last of them is a line ending, and no other. -/
def IsRow (line : List Token) : Prop :=
  ∃ ts e, line = ts ++ [e] ∧ e.kind = .eol ∧ ∀ t ∈ ts, t.kind ≠ .eol

/-- A line of the grammar ends with its only line ending. -/
theorem TokenLine.isRow {line : List Token} (h : TokenLine (line.map Token.piece)) :
    IsRow line := by
  generalize hps : line.map Token.piece = ps at h
  obtain @⟨row, ending, hfits, -⟩ := h
  obtain ⟨ts, es, rfl, hts, hes⟩ := List.map_eq_append_iff.1 hps
  obtain ⟨e, rfl, he⟩ := List.map_eq_singleton_iff.1 hes
  refine ⟨ts, e, rfl, congrArg Prod.fst he, fun t ht => ?_⟩
  obtain ⟨front, back, hsplit⟩ := List.append_of_mem (hts ▸ List.mem_map_of_mem ht)
  exact (hfits _ _ _ hsplit).inner

/-- Every line the tokenizer reads is of the grammar. -/
theorem tokenLine_of_mem_tokenize {source : String} {line : List Token}
    (h : line ∈ tokenize source) : TokenLine (line.map Token.piece) :=
  (wellFormed_lines _).line _ (List.mem_map_of_mem h)

namespace IsRow
variable {line : List Token} {lines : List (List Token)}

/-- A row in front is the first line. -/
theorem splitLines_append (h : IsRow line) (rest : List Token) :
    splitLines (line ++ rest) = line :: splitLines rest := by
  obtain ⟨ts, e, rfl, he, hts⟩ := h
  rw [List.append_assoc, List.singleton_append]
  exact RobotSuite.splitLines_append hts he rest

/-- Rows written one after the other are the lines. -/
theorem splitLines_flatten (h : ∀ l ∈ lines, IsRow l) : splitLines lines.flatten = lines := by
  induction lines with
  | nil => rfl
  | cons line lines ih =>
    obtain ⟨hline, hlines⟩ := List.forall_mem_cons.1 h
    rw [List.flatten_cons, hline.splitLines_append, ih hlines]

/-- The slots of a line end with it. -/
theorem slots_append (h : IsRow line) (rest : List Token) :
    slots (line ++ rest) = slots line ++ slots rest := by
  obtain ⟨ts, e, rfl, he, -⟩ := h
  rw [List.append_assoc, List.singleton_append]
  exact RobotSuite.slots_append _ _ (by simp [he])

/-- Slots are cut line by line. -/
theorem slots_flatten (h : ∀ l ∈ lines, IsRow l) : slots lines.flatten = lines.flatMap slots := by
  induction lines with
  | nil => rfl
  | cons line lines ih =>
    obtain ⟨hline, hlines⟩ := List.forall_mem_cons.1 h
    rw [List.flatten_cons, hline.slots_append, ih hlines, List.flatMap_cons]

/-- The gap at the end of a line stands in front of the line ending. -/
theorem endGaps_slots (h : IsRow line) :
    endGaps (slots line) = (SpaceRules.trailingGap? line).toList := by
  obtain ⟨ts, e, rfl, he, hts⟩ := h
  have hrow : (ts ++ [e]).filter (fun t => !t.isEol) = ts := by
    have hall : ts.filter (fun t => !t.isEol) = ts :=
      List.filter_eq_self.2 fun t ht => by simpa [Token.isEol] using hts t ht
    rw [List.filter_append, hall]
    simp [Token.isEol, he]
  have hfrom (gap : Option Token) (hgap : ∀ g ∈ gap, g.isSeparator = true) :
      endGaps (slotsFrom gap (ts ++ [e])) =
        (((gap.toList ++ ts).getLast?).filter (·.isSeparator)).toList := by
    clear hrow
    induction ts generalizing gap with
    | nil =>
      have hsep : e.isSeparator = false := by simp [Token.isSeparator, he]
      have heol : e.isEol = true := by simp [Token.isEol, he]
      cases gap with
      | none => simp [slotsFrom, hsep, endGaps]
      | some g => simp [slotsFrom, hsep, heol, endGaps, Option.filter, hgap g rfl]
    | cons t ts ih =>
      obtain ⟨ht, hts⟩ := List.forall_mem_cons.1 hts
      rw [List.cons_append, slotsFrom, List.getLast?_append_of_ne_nil _ (List.cons_ne_nil _ _)]
      by_cases hsep : t.isSeparator = true
      · rw [if_pos hsep, ih hts (some t) (by simpa using hsep)]
        rfl
      · have heol : t.isEol = false := by simpa [Token.isEol] using ht
        rw [if_neg hsep, endGaps, List.filterMap_cons_none (by simp [heol])]
        refine (ih hts none (by simp)).trans ?_
        cases ts with
        | nil => simp [Option.filter, hsep]
        | cons u us => rw [List.getLast?_cons_cons, Option.toList_none, List.nil_append]
  rw [SpaceRules.trailingGap?, hrow]
  exact hfrom none (by simp)

/-- The gaps at the ends of lines are those that the slots of the lines tell. -/
theorem trailingGaps (h : ∀ l ∈ lines, IsRow l) :
    (splitLines lines.flatten).filterMap SpaceRules.trailingGap? =
      endGaps (slots lines.flatten) := by
  rw [splitLines_flatten h, slots_flatten h]
  induction lines with
  | nil => rfl
  | cons line lines ih =>
    obtain ⟨hline, hlines⟩ := List.forall_mem_cons.1 h
    rw [List.flatMap_cons, endGaps_append, ← ih hlines, hline.endGaps_slots]
    cases hg : SpaceRules.trailingGap? line <;> simp [hg]

end IsRow

/-! ## The statements of a source -/

/-- Checking a statement against the open blocks keeps its tokens. -/
theorem tokens_keep (opened : List Statement) (s : Statement) :
    (keep opened s).tokens = s.tokens := by
  rw [keep]
  cases misfit? opened s with
  | none => rfl
  | some d =>
    rw [Option.map_some, Option.getD_some, asError]
    split <;> rfl

/-- The statement read off a group holds the tokens of the group. -/
theorem tokens_take (r : Reading) (g : List Token) : (r.take g).1.tokens = g := by
  have htokens := classify_tokens r.kind g
  rw [Reading.take]
  split
  · rfl
  · dsimp only
    split
    · exact htokens
    · rename_i owner _
      simp only [placeInSection]
      split
      · exact htokens
      · split
        · rw [leadingItem]
          split <;> exact htokens
        · exact (tokens_keep _ _).trans htokens

/-- A reading keeps the tokens that it is given. -/
theorem tokens_runScan_take (r : Reading) (groups : List (List Token)) :
    (runScan Reading.take r groups).map (·.tokens) = groups := by
  induction groups generalizing r with
  | nil => rfl
  | cons g groups ih => rw [runScan, List.map_cons, ih, tokens_take]

/-- What occurs in a file is made of the groups of its lines. -/
theorem exists_lines_of_mem_occurrences {source : String} {o : Occurrence}
    (ho : o ∈ (parse source).occurrences) : ∃ g ∈ groupLines (tokenize source),
      o.tokens = g.flatten ∧ ∀ l ∈ g, TokenLine (l.map Token.piece) := by
  have hmem : o.tokens ∈ (groupLines (tokenize source)).map List.flatten := by
    rw [← tokens_runScan_take {} ((groupLines (tokenize source)).map List.flatten)]
    refine List.mem_map_of_mem ?_
    rwa [parse, occurrences_parseTokens] at ho
  obtain ⟨g, hg, hflat⟩ := List.mem_map.1 hmem
  refine ⟨g, hg, hflat.symm, fun l hl => ?_⟩
  have hline : l ∈ (groupLines (tokenize source)).flatten := List.mem_flatten.2 ⟨g, hg, hl⟩
  rw [flatten_groupLines] at hline
  exact tokenLine_of_mem_tokenize hline

/-! ## The fixes of a check -/

section
variable {config : LintConfig} {source : String} {lines : Array (List Char)} {f : File}

/-- Rules give fixes at statements only. -/
theorem Rule.fixless_or_visits : ∀ r ∈ Rule.all,
    r.Fixless ∨ ∀ c : Container, r.visits c.type = false := by
  have hstatements (info : RuleInfo) (types : StatementType → Bool)
      (check : RuleContext → Statement → List Diagnostic) :
      ∀ c : Container, (Rule.ofStatements info types check).visits c.type = false := by
    intro c
    cases c <;> rfl
  simp only [Rule.all, List.forall_mem_cons]
  exact ⟨.inr (hstatements _ _ _), .inl Rule.fixless_onTags, .inl Rule.fixless_onTags,
    .inl Rule.fixless_onTags, .inl Rule.fixless_empty, .inl Rule.fixless_alreadySet,
    .inl Rule.fixless_behaviour, .inl Rule.fixless_nameCase, .inr (hstatements _ _ _),
    .inl Rule.fixless_indent, .inr (hstatements _ _ _), .inl Rule.fixless_emptyRun,
    .inl Rule.fixless_mixed, .inl Rule.fixless_line, .inl Rule.fixless_arguments,
    .inl Rule.fixless_calls, .inl Rule.fixless_repeatedNames, .inl Rule.fixless_repeatedNames,
    .inl Rule.fixless_documentation, .inr (hstatements _ _ _), .inr (hstatements _ _ _),
    .inl Rule.fixless_reminder, .inl Rule.fixless_order, by simp⟩

/-- Entering a container proposes no fix. -/
theorem fixChanges_checkStep_enter (c : Container) (sc : Scope) :
    fixChanges ((checkStep config source lines f (Rule.all.filter fun r => config.runs r.code)
      (.enter c, sc)).flatMap (·.diagnostics)) = [] := by
  rw [fixChanges_flatMap, List.flatMap_eq_nil_iff]
  intro found hfound
  obtain ⟨r, hr, rfl⟩ := List.mem_map.1 hfound
  obtain ⟨hr, hvisits⟩ := List.mem_filter.1 hr
  rcases Rule.fixless_or_visits r (List.mem_filter.1 hr).1 with h | h
  · exact Rule.fixChanges_run_of_fixless h
  · rw [Node.type, h] at hvisits
    cases hvisits

/-- Steps that meet no statement lead to no fix. -/
theorem fixChanges_steps (visits : List (Step × Scope)) :
    fixChanges ((visits.flatMap (checkStep config source lines f
        (Rule.all.filter fun r => config.runs r.code))).flatMap (·.diagnostics)) =
      (visits.filterMap fun
        | (.meet s, scope) => some (s, scope)
        | _ => none).flatMap fun m => fixChanges ((checkStep config source lines f
          (Rule.all.filter fun r => config.runs r.code) (.meet m.1, m.2)).flatMap
            (·.diagnostics)) := by
  induction visits with
  | nil => rfl
  | cons v visits ih =>
    rw [List.flatMap_cons, List.flatMap_append, fixChanges_append, ih]
    obtain ⟨step, sc⟩ := v
    cases step with
    | enter c => rw [fixChanges_checkStep_enter]; rfl
    | meet s => rfl
    | leave c => rfl

/-- The fixes come in the order of the diagnostics. -/
theorem perm_fixChanges {ds es : List Diagnostic} (h : ds.Perm es) :
    (fixChanges ds).Perm (fixChanges es) := h.filterMap _

/-- Sorting loses no diagnostic. -/
theorem perm_sortDiagnostics (ds : List Diagnostic) : (sortDiagnostics ds).Perm ds :=
  List.mergeSort_perm _ _

/-- **The fixes of a check are the edits of the statements of the source.** -/
theorem fixChanges_checkSource (source : String) (config : LintConfig) :
    (fixChanges (checkSource source config Rule.all).diagnostics).Perm
      (((parse source).occurrences.flatMap fun o => o.edits config.runs).filterMap change?) := by
  have herrors :
      fixChanges ((parse source).errors.map (·.diagnostic (sourceLines source))) = [] := by
    rw [fixChanges, List.filterMap_map, List.filterMap_eq_nil_iff]
    exact fun _ _ => rfl
  refine (perm_fixChanges (perm_sortDiagnostics _)).trans ?_
  rw [fixChanges_append, herrors, List.nil_append]
  refine (perm_fixChanges (perm_sortDiagnostics _)).trans ?_
  rw [fixChanges_steps, List.filterMap_flatMap]
  have hmeet : ∀ m ∈ (parse source).meetings, (fixChanges ((checkStep config source
      (sourceLines source) (parse source) (Rule.all.filter fun r => config.runs r.code)
        (.meet m.1, m.2)).flatMap (·.diagnostics))).Perm
      (((Occurrence.ofMeeting m).edits config.runs).filterMap change?) := by
    intro m hm
    obtain ⟨g, -, hg, hlines⟩ :=
      exists_lines_of_mem_occurrences (o := .ofMeeting m) (List.mem_map_of_mem hm)
    have hg' : m.1.tokens = g.flatten := hg
    refine changes_checkStep ?_
    rw [hg']
    exact IsRow.trailingGaps fun l hl => (hlines l hl).isRow
  rw [File.occurrences, List.flatMap_map]
  exact List.Perm.flatMap_left _ hmeet

/-- What a check reports is a defect of the source, or a rule finds it at a node. -/
theorem cases_of_checkSource {rules : List Rule} {d : Diagnostic}
    (hd : d ∈ (checkSource source config rules).diagnostics) :
    (∃ e ∈ (parse source).errors, d = e.diagnostic (sourceLines source)) ∨
      ∃ visit ∈ (parse source).visits, ∃ node, visit.1.node? = some node ∧ ∃ r ∈ rules,
        d ∈ (r.run config source (sourceLines source) (parse source) visit.2 node).diagnostics := by
  rcases List.mem_append.1 ((perm_sortDiagnostics _).mem_iff.1 hd) with hd | hd
  · obtain ⟨e, he, rfl⟩ := List.mem_map.1 hd
    exact .inl ⟨e, he, rfl⟩
  · obtain ⟨found, hfound, hd⟩ := List.mem_flatMap.1 ((perm_sortDiagnostics _).mem_iff.1 hd)
    obtain ⟨visit, hvisit, hfound⟩ := List.mem_flatMap.1 hfound
    unfold checkStep at hfound
    split at hfound
    · cases hfound
    · rename_i node hnode
      obtain ⟨r, hr, rfl⟩ := List.mem_map.1 hfound
      have henabled := (List.mem_filter.1 hr).1
      exact .inr ⟨visit, hvisit, node, hnode, r, (List.mem_filter.1 henabled).1, hd⟩

/-- All fixes of a check may be made without being asked. -/
theorem mends_checkSource (source : String) (config : LintConfig) :
    ∀ d ∈ (checkSource source config Rule.all).diagnostics, d.Mends := by
  intro d hd
  rcases cases_of_checkSource hd with ⟨e, -, rfl⟩ | ⟨visit, -, node, -, r, hr, hd⟩
  · intro f hf
    cases hf
  · exact Rule.mends_run (Rule.mends_all r hr) d hd

/-- Nothing is to be fixed exactly when no diagnostic carries a fix. -/
theorem fixChanges_eq_nil_iff {ds : List Diagnostic} :
    fixChanges ds = [] ↔ ∀ d ∈ ds, d.fix = none := by
  rw [fixChanges, List.filterMap_eq_nil_iff]
  refine forall₂_congr fun d _ => ?_
  rw [Diagnostic.change?, Option.map_eq_none_iff]

/-- What is applied are the fixes themselves, when all of them may be made. -/
theorem filterMap_ofDiagnostic? {ds : List Diagnostic} (h : ∀ d ∈ ds, d.Mends)
    (hstart : ∀ c ∈ fixChanges ds, 0 ≤ c.start) :
    ds.filterMap Change.ofDiagnostic? = fixChanges ds := by
  refine List.filterMap_congr fun d hd => ?_
  rw [Change.ofDiagnostic?, Diagnostic.change?]
  cases hfix : d.fix with
  | none => rfl
  | some f =>
    have happlicable : f.applicable = true := h d hd f hfix
    have hmem : (⟨d.code, f.range.start.offset, f.range.stop.offset, f.replacement⟩ : Change) ∈
        fixChanges ds := by
      refine List.mem_filterMap.2 ⟨d, hd, ?_⟩
      rw [Diagnostic.change?, hfix]
      rfl
    have := hstart _ hmem
    simp [Option.filter, happlicable, this]

end

end RobotSuite
