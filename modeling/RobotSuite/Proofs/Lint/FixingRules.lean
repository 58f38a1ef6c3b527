/-
# Fixes as edits

Five rules give fixes, and each of them looks at single statements.  What their fixes come to is a
plan for the data of the statement, which follows from its type, the texts of its data, the kind of
its section and whether an IF block surrounds it (`cellEdits`), and that gaps at the ends of lines
go.
-/

import RobotSuite.Lint.Fixing
import RobotSuite.Proofs.Lint.Occurrences
import RobotSuite.Proofs.Lint.SlotEdits

namespace RobotSuite

/-! ## Fixes of rules -/

/-- The change that the fix of a diagnostic stands for. -/
def Diagnostic.change? (d : Diagnostic) : Option Change :=
  d.fix.map fun f => ⟨d.code, f.range.start.offset, f.range.stop.offset, f.replacement⟩

/-- The changes that the fixes of some diagnostics stand for. -/
def fixChanges (ds : List Diagnostic) : List Change := ds.filterMap Diagnostic.change?

@[simp] theorem fixChanges_nil : fixChanges [] = [] := rfl

/-- The changes of two lists of diagnostics come one after the other. -/
@[simp] theorem fixChanges_append (ds es : List Diagnostic) :
    fixChanges (ds ++ es) = fixChanges ds ++ fixChanges es :=
  List.filterMap_append

/-- A fix that may be made without being asked. -/
def Diagnostic.Mends (d : Diagnostic) : Prop := ∀ f ∈ d.fix, f.applicable = true

/-- A rule that gives no fix. -/
def Rule.Fixless (r : Rule) : Prop :=
  ∀ ctx node ds, r.validate ctx node = .ok ds → ∀ d ∈ ds, d.fix = none

/-- A rule whose fixes may all be made without being asked. -/
def Rule.Mends (r : Rule) : Prop :=
  ∀ ctx node ds, r.validate ctx node = .ok ds → ∀ d ∈ ds, d.Mends

namespace Rule
variable {r : Rule} {info : RuleInfo} {types : StatementType → Bool}

/-- A rule without fixes mends. -/
theorem Fixless.mends (h : r.Fixless) : r.Mends := by
  intro ctx node ds hds d hd f hf
  rw [h ctx node ds hds d hd] at hf
  cases hf

section
variable {config : LintConfig} {source : String} {lines : Array (List Char)} {f : File}
  {sc : Scope} {node : Node}

/-- A configuration says how severe a finding is, and nothing else about it. -/
theorem fixChanges_run {ds : List Diagnostic}
    (h : r.validate ⟨source, lines, f, sc, config.paramsOf r.code⟩ node = .ok ds) :
    fixChanges (r.run config source lines f sc node).diagnostics = fixChanges ds := by
  rw [run, h]
  dsimp only
  split
  · rfl
  · rw [fixChanges, List.filterMap_map]
    rfl

/-- A rule without fixes proposes no change at any node. -/
theorem fixChanges_run_of_fixless (h : r.Fixless) :
    fixChanges (r.run config source lines f sc node).diagnostics = [] := by
  cases hv : r.validate ⟨source, lines, f, sc, config.paramsOf r.code⟩ node with
  | ok ds =>
    rw [fixChanges_run hv, fixChanges, List.filterMap_eq_nil_iff]
    intro d hd
    rw [Diagnostic.change?, h _ _ _ hv d hd]
    rfl
  | error reason =>
    rw [run, hv]
    rfl

/-- What a mending rule reports at a node mends. -/
theorem mends_run (h : r.Mends) :
    ∀ d ∈ (r.run config source lines f sc node).diagnostics, d.Mends := by
  cases hv : r.validate ⟨source, lines, f, sc, config.paramsOf r.code⟩ node with
  | ok ds =>
    have hds := h _ _ _ hv
    rw [run, hv]
    dsimp only
    split
    · exact hds
    · intro d hd
      obtain ⟨e, he, rfl⟩ := List.mem_map.1 hd
      exact hds e he
  | error reason =>
    rw [run, hv]
    intro d hd
    obtain rfl := List.mem_singleton.1 hd
    intro f hf
    cases hf

end

/-- A statement rule has no fixes if its check gives none. -/
theorem fixless_ofStatements {check : RuleContext → Statement → List Diagnostic}
    (h : ∀ ctx s, ∀ d ∈ check ctx s, d.fix = none) : (ofStatements info types check).Fixless := by
  intro ctx node ds hds
  cases node with
  | statement s =>
    obtain rfl : check ctx s = ds := Except.ok.inj hds
    exact h ctx s
  | container c =>
    obtain rfl : [] = ds := Except.ok.inj hds
    simp

/-- A statement rule mends if the fixes of its check do. -/
theorem mends_ofStatements {check : RuleContext → Statement → List Diagnostic}
    (h : ∀ ctx s, ∀ d ∈ check ctx s, d.Mends) : (ofStatements info types check).Mends := by
  intro ctx node ds hds
  cases node with
  | statement s =>
    obtain rfl : check ctx s = ds := Except.ok.inj hds
    exact h ctx s
  | container c =>
    obtain rfl : [] = ds := Except.ok.inj hds
    simp

/-- A file rule has no fixes if its check gives none. -/
theorem fixless_ofFile {check : RuleContext → File → List Diagnostic}
    (h : ∀ ctx f, ∀ d ∈ check ctx f, d.fix = none) : (ofFile info check).Fixless := by
  intro ctx node ds hds
  cases node with
  | statement s =>
    obtain rfl : [] = ds := Except.ok.inj hds
    simp
  | container c =>
    cases c with
    | file f =>
      obtain rfl : check ctx f = ds := Except.ok.inj hds
      exact h ctx f
    | _ =>
      obtain rfl : [] = ds := Except.ok.inj hds
      simp

/-- A keyword rule has no fixes if its check gives none. -/
theorem fixless_ofKeywords {check : RuleContext → Block → List Diagnostic}
    (h : ∀ ctx b, ∀ d ∈ check ctx b, d.fix = none) : (ofKeywords info check).Fixless := by
  intro ctx node ds hds
  cases node with
  | statement s =>
    obtain rfl : [] = ds := Except.ok.inj hds
    simp
  | container c =>
    cases c with
    | block b =>
      obtain rfl : check ctx b = ds := Except.ok.inj hds
      exact h ctx b
    | _ =>
      obtain rfl : [] = ds := Except.ok.inj hds
      simp

theorem fixless_onTags {isBad : String → Bool} {message : String → String} :
    (TagRules.onTags info isBad message).Fixless := by
  refine fixless_ofStatements fun ctx s d hd => ?_
  obtain ⟨t, -, rfl⟩ := List.mem_map.1 hd
  rfl

theorem fixless_repeatedNames {type : BlockType} {what : String} :
    (StyleRules.repeatedNames info type what).Fixless := by
  refine fixless_ofFile fun ctx f d hd => ?_
  obtain ⟨t, -, rfl⟩ := List.mem_map.1 hd
  rfl

theorem fixless_empty : TagRules.empty.Fixless := by
  refine fixless_ofStatements fun ctx s d hd => ?_
  split at hd
  · obtain rfl := List.mem_singleton.1 hd
    rfl
  · cases hd

theorem fixless_alreadySet : TagRules.alreadySet.Fixless := by
  refine fixless_ofStatements fun ctx s d hd => ?_
  split at hd
  · obtain ⟨t, -, ht⟩ := List.mem_filterMap.1 hd
    obtain ⟨setting, -, rfl⟩ := Option.map_eq_some_iff.1 ht
    rfl
  · cases hd

theorem fixless_behaviour : NameRules.behaviour.Fixless := by
  refine fixless_ofStatements fun ctx s d hd => ?_
  split at hd
  · cases hd
  · split at hd
    · obtain rfl := List.mem_singleton.1 hd
      rfl
    · cases hd

theorem fixless_nameCase : NameRules.nameCase.Fixless := by
  intro ctx node ds hds d hd
  cases node with
  | container c =>
    obtain rfl : [] = ds := Except.ok.inj hds
    cases hd
  | statement s =>
    cases hn : s.name with
    | none =>
      have hnone : (pure [] : Except String (List Diagnostic)) = .ok ds := by
        simpa [NameRules.nameCase, hn] using hds
      obtain rfl : [] = ds := Except.ok.inj hnone
      cases hd
    | some t =>
      have hcheck : NameRules.checkCase ctx t = .ok ds := by
        simpa [NameRules.nameCase, hn] using hds
      unfold NameRules.checkCase at hcheck
      split at hcheck
      · obtain rfl : [] = ds := Except.ok.inj hcheck
        cases hd
      · cases hb : NameRules.breaksNamed t.value (ctx.params.text "convention" "")
            (ctx.params.text "pattern" "") with
        | error reason =>
          rw [hb] at hcheck
          cases hcheck
        | ok breaks =>
          rw [hb] at hcheck
          cases breaks with
          | false =>
            obtain rfl : [] = ds := Except.ok.inj hcheck
            cases hd
          | true =>
            have := Except.ok.inj hcheck
            subst this
            obtain rfl := List.mem_singleton.1 hd
            rfl

theorem fixless_indent : SpaceRules.indent.Fixless := by
  refine fixless_ofStatements fun ctx s d hd => ?_
  dsimp only at hd
  split at hd
  · split at hd
    · cases hd
    · obtain rfl := List.mem_singleton.1 hd
      rfl
  · cases hd

theorem fixless_emptyRun : SpaceRules.emptyRun.Fixless := by
  refine fixless_ofFile fun ctx f d hd => ?_
  obtain ⟨run, -, hrun⟩ := List.mem_filterMap.1 hd
  obtain ⟨s, -, rfl⟩ := Option.map_eq_some_iff.1 hrun
  rfl

theorem fixless_mixed : SpaceRules.mixed.Fixless := by
  refine fixless_ofFile fun ctx f d hd => ?_
  obtain ⟨t, -, rfl⟩ := List.mem_map.1 hd
  rfl

theorem fixless_line : SizeRules.line.Fixless := by
  intro ctx node ds hds d hd
  unfold SizeRules.line at hds
  dsimp only at hds
  split at hds
  · cases hp : NameRules.readPattern .lenient
        (ctx.params.text "ignorePattern" SizeRules.defaultExempt) with
    | error reason =>
      rw [hp] at hds
      cases hds
    | ok exempt =>
      rw [hp] at hds
      have := Except.ok.inj hds
      subst this
      obtain ⟨t, -, rfl⟩ := List.mem_map.1 hd
      rfl
  · obtain rfl : [] = ds := Except.ok.inj hds
    cases hd

theorem fixless_arguments : SizeRules.arguments.Fixless := by
  refine fixless_ofKeywords fun ctx b d hd => ?_
  dsimp only at hd
  split at hd
  · obtain rfl := List.mem_singleton.1 hd
    rfl
  · cases hd

theorem fixless_calls : SizeRules.calls.Fixless := by
  refine fixless_ofKeywords fun ctx b d hd => ?_
  dsimp only at hd
  split at hd
  · obtain rfl := List.mem_singleton.1 hd
    rfl
  · cases hd

theorem fixless_documentation : StyleRules.documentation.Fixless := by
  refine fixless_ofKeywords fun ctx b d hd => ?_
  split at hd
  · cases hd
  · obtain rfl := List.mem_singleton.1 hd
    rfl

theorem fixless_reminder : StyleRules.reminder.Fixless := by
  refine fixless_ofStatements fun ctx s d hd => ?_
  obtain ⟨t, -, ht⟩ := List.mem_flatMap.1 hd
  obtain ⟨marker, -, hm⟩ := List.mem_filterMap.1 ht
  obtain ⟨start, -, rfl⟩ := Option.map_eq_some_iff.1 hm
  rfl

theorem fixless_order : StyleRules.order.Fixless := by
  refine fixless_ofFile fun ctx f d hd => ?_
  obtain ⟨t, -, rfl⟩ := List.mem_map.1 hd
  rfl

/-- Removing a repeated tag mends. -/
theorem mends_duplicated : TagRules.duplicated.Mends := by
  refine mends_ofStatements fun ctx s d hd => ?_
  obtain ⟨⟨t, first⟩, -, rfl⟩ := List.mem_map.1 hd
  intro f hf
  have hf' : TagRules.removeCell t = some f := hf
  unfold TagRules.removeCell at hf'
  split at hf'
  · split at hf'
    · rw [← Option.some.inj hf']
    · cases hf'
  · cases hf'

/-- Writing `ELSE` in capitals mends. -/
theorem mends_upperElse : NameRules.upperElse.Mends := by
  refine mends_ofStatements fun ctx s d hd f hf => ?_
  obtain ⟨t, -, rfl⟩ := List.mem_map.1 hd
  rw [← Option.some.inj hf]
  rfl

/-- Trimming the end of a line mends. -/
theorem mends_trailing : SpaceRules.trailing.Mends := by
  refine mends_ofStatements fun ctx s d hd f hf => ?_
  obtain ⟨t, -, rfl⟩ := List.mem_map.1 hd
  rw [← Option.some.inj hf]
  rfl

/-- Renaming the old tag setting mends. -/
theorem mends_forceTags : StyleRules.forceTags.Mends := by
  refine mends_ofStatements fun ctx s d hd f hf => ?_
  split at hd
  · obtain ⟨t, -, rfl⟩ := List.mem_map.1 hd
    rw [← Option.some.inj hf]
    rfl
  · cases hd

/-- Writing a header in the plural mends. -/
theorem mends_singularHeader : StyleRules.singularHeader.Mends := by
  refine mends_ofStatements fun ctx s d hd f hf => ?_
  split at hd
  · obtain ⟨t, -, rfl⟩ := List.mem_map.1 hd
    rw [← Option.some.inj hf]
    rfl
  · cases hd

/-- **All fixes may be made without being asked.** -/
theorem mends_all : ∀ r ∈ Rule.all, r.Mends := by
  simp only [Rule.all, List.forall_mem_cons]
  exact ⟨mends_duplicated, fixless_onTags.mends, fixless_onTags.mends, fixless_onTags.mends,
    fixless_empty.mends, fixless_alreadySet.mends, fixless_behaviour.mends, fixless_nameCase.mends,
    mends_upperElse, fixless_indent.mends, mends_trailing, fixless_emptyRun.mends,
    fixless_mixed.mends, fixless_line.mends, fixless_arguments.mends, fixless_calls.mends,
    fixless_repeatedNames.mends, fixless_repeatedNames.mends, fixless_documentation.mends,
    mends_forceTags, mends_singularHeader, fixless_reminder.mends, fixless_order.mends, by simp⟩

end Rule

/-! ## Plans -/

section
variable (on : String → Bool)

/-- What becomes of a cell that might be meant as ELSE. -/
def elseEdit (cell : String) : Edit :=
  if on NameRules.elseInfo.code && NameRules.isSmallElse (.create .argument cell) then
    .write NameRules.elseInfo.code (Text.upper cell)
  else .keep

/-- What becomes of the name of a suite setting. -/
def suiteNameEdit (cell : String) : Edit :=
  if on StyleRules.forceTagsInfo.code && SettingName.ofSuiteCell cell = "Force Tags" then
    .write StyleRules.forceTagsInfo.code "Test Tags"
  else .keep

/-- What becomes of the header of a section of some kind. -/
def headerEdit (kind : Option SectionKind) (cell : String) : Edit :=
  if on StyleRules.headerInfo.code then
    ((kind.filter (· != .invalid)).bind fun k => StyleRules.pluralHeader? k cell).elim .keep
      (.write StyleRules.headerInfo.code)
  else .keep

/-- What becomes of tags, when `seen` are the keys of those in front. -/
def tagEdits (seen : List String) : List String → List Edit
  | [] => []
  | tag :: tags =>
    if seen.contains (Text.tagKey tag) then .remove :: tagEdits seen tags
    else .keep :: tagEdits (Text.tagKey tag :: seen) tags

/-- What becomes of the arguments of a setting. -/
def argumentEdits (holdsTags : Bool) (cells : List String) : List Edit :=
  if holdsTags && on TagRules.duplicatedInfo.code then tagEdits [] cells else []

/-- What becomes of the data of a statement of a type, in a section of a kind, and in an IF block or
not.  What the list does not reach stays. -/
def cellEdits (kind : Option SectionKind) (inIf : Bool) : StatementType → List String → List Edit
  | .setting, name :: cells =>
    suiteNameEdit on name ::
      argumentEdits on (SettingName.tags.contains (SettingName.ofSuiteCell name)) cells
  | .blockSetting, name :: cells =>
    .keep :: argumentEdits on (SettingName.ofBlockCell name = "Tags") cells
  | .inlineIf, _ :: cells => .keep :: cells.map (elseEdit on)
  | .keywordCall, cells =>
    if inIf then
      (cells.takeWhile isAssignment).map (fun _ => .keep) ++
        ((cells.dropWhile isAssignment).head?.map (elseEdit on)).toList
    else []
  | .sectionHeader, cell :: _ => [headerEdit on kind cell]
  | _, _ => []

namespace Occurrence

/-- What becomes of the data of a statement. -/
def plan (o : Occurrence) : List Edit := cellEdits on o.kind o.inIf o.type (dataTexts o.tokens)

/-- What becomes of the slots of a statement. -/
def edits (o : Occurrence) : List (Slot × Edit) :=
  edited (on SpaceRules.trailingInfo.code) (o.plan on) (slots o.tokens)

end Occurrence

end

/-! ## The slots of a statement -/

/-- The change that writes a token in another way. -/
def writeChange (code : String) (t : Token) (value : String) : Change :=
  ⟨code, t.span.start.offset, t.span.stop.offset, value⟩

section
variable (on : String → Bool) {xs : List Slot}

/-- The data slots of a line hold its data cells. -/
theorem dataSlots_token (ts : List Token) :
    (dataSlots (slots ts)).map (·.token) = dataTokens ts := by
  have hfrom (gap : Option Token) :
      (dataSlots (slotsFrom gap ts)).map (·.token) = dataTokens ts := by
    induction ts generalizing gap with
    | nil => rfl
    | cons t ts ih =>
      rw [slotsFrom, dataTokens, List.filter_cons]
      by_cases hsep : t.isSeparator = true
      · have hdata : t.isData = false := Token.isData_eq_false (eq_of_beq hsep) rfl
        rw [if_pos hsep, ih, hdata]
        rfl
      · rw [if_neg hsep, dataSlots, List.filter_cons]
        split
        · rw [List.map_cons]
          exact congrArg _ (ih none)
        · exact ih none
  exact hfrom none

/-- The data of some tokens, each with the gap in front of it. -/
theorem dataSlots_withPrevious (ts : List Token) :
    (TagRules.withPrevious none ts).map (fun d => (d.1.filter (·.isSeparator), d.2)) =
      (dataSlots (slots ts)).map fun x => (x.gap, x.token) := by
  have hfrom (previous gap : Option Token) (h : previous.filter (·.isSeparator) = gap) :
      (TagRules.withPrevious previous ts).map (fun d => (d.1.filter (·.isSeparator), d.2)) =
        (dataSlots (slotsFrom gap ts)).map fun x => (x.gap, x.token) := by
    induction ts generalizing previous gap with
    | nil => rfl
    | cons t ts ih =>
      rw [TagRules.withPrevious, slotsFrom]
      by_cases hsep : t.isSeparator = true
      · have hdata : t.isData = false := Token.isData_eq_false (eq_of_beq hsep) rfl
        rw [if_pos hsep, hdata, if_neg Bool.false_ne_true]
        exact ih (some t) (some t) (by simp [Option.filter, hsep])
      · have hnext := ih (some t) none (by simp [Option.filter, hsep])
        rw [if_neg hsep, dataSlots, List.filter_cons]
        by_cases hdata : t.isData = true
        · rw [if_pos hdata, if_pos hdata, List.map_cons, List.map_cons, h]
          exact congrArg _ hnext
        · rw [if_neg hdata, if_neg hdata]
          exact hnext
  exact hfrom none none rfl

/-- No plan, no change. -/
theorem changes_planned_nil (xs : List Slot) : (planned [] xs).filterMap change? = [] := by
  induction xs with
  | nil => rfl
  | cons x xs ih =>
    rw [planned, filterMap_change?_cons]
    exact ih

/-- The first edit changes the first slot. -/
theorem changes_planned_cons (e : Edit) (es : List Edit) (x : Slot) (xs : List Slot) :
    (planned (e :: es) (x :: xs)).filterMap change? =
      (change? (x, e)).toList ++ (planned es xs).filterMap change? := by
  rw [planned, filterMap_change?_cons]
  rfl

/-- What stays asks for no change. -/
theorem changes_planned_keep {α : Type} (as : List α) (es : List Edit) (xs : List Slot) :
    (planned (as.map (fun _ => Edit.keep) ++ es) xs).filterMap change? =
      (planned es (xs.drop as.length)).filterMap change? := by
  induction as generalizing xs with
  | nil => rfl
  | cons a as ih =>
    cases xs with
    | nil => simp [planned]
    | cons x xs =>
      rw [List.map_cons, List.cons_append, changes_planned_cons, ih, List.length_cons,
        List.drop_succ_cons]
      rfl

/-- The `ELSE` edit of a slot is the change the rule reports for its cell. -/
theorem change?_elseEdit (x : Slot) : (change? (x, elseEdit on x.token.value)).toList =
    if on NameRules.elseInfo.code && NameRules.isSmallElse x.token then
      [writeChange NameRules.elseInfo.code x.token (Text.upper x.token.value)]
    else [] := by
  have hsmall : NameRules.isSmallElse (.create .argument x.token.value) =
      NameRules.isSmallElse x.token := rfl
  rw [elseEdit, hsmall]
  split <;> rfl

/-- The planned `ELSE` edits are the changes the rule reports. -/
theorem changes_planned_else (xs : List Slot) :
    (planned (xs.map fun x => elseEdit on x.token.value) xs).filterMap change? =
      if on NameRules.elseInfo.code then
        ((xs.map (·.token)).filter NameRules.isSmallElse).map fun t =>
          writeChange NameRules.elseInfo.code t (Text.upper t.value)
      else [] := by
  induction xs with
  | nil => simp [planned]
  | cons x xs ih =>
    rw [List.map_cons, changes_planned_cons, ih, change?_elseEdit, List.map_cons, List.filter_cons]
    cases on NameRules.elseInfo.code <;> cases NameRules.isSmallElse x.token <;> rfl

/-- A key is found exactly when it is among the keys seen. -/
theorem isSome_lookup {α : Type} (seen : List (String × α)) (key : String) :
    (seen.lookup key).isSome = (seen.map (·.1)).contains key := by
  induction seen with
  | nil => rfl
  | cons p seen ih =>
    rw [List.lookup_cons, List.map_cons, List.contains_cons]
    cases key == p.1 with
    | true => rfl
    | false => exact ih

/-- The change that removes a tag with the gap in front of it. -/
def removalChange? (t : TagRules.TagRef) : Option Change :=
  (TagRules.removeCell t).map fun f =>
    ⟨TagRules.duplicatedInfo.code, f.range.start.offset, f.range.stop.offset, f.replacement⟩

/-- A cell as a tag, given with the token in front of it. -/
def cellTag (d : Option Token × Token) : TagRules.TagRef :=
  { value := d.2.value, location := d.2.span.start, cell := d.1.map fun p => (p, d.2) }

/-- Removing a tag's cell is removing its slot. -/
theorem removalChange?_cellTag {d : Option Token × Token} {x : Slot}
    (h : (d.1.filter (·.isSeparator), d.2) = (x.gap, x.token)) :
    removalChange? (cellTag d) = change? (x, .remove) := by
  obtain ⟨previous, t⟩ := d
  obtain ⟨gap, u⟩ := x
  obtain ⟨rfl, rfl⟩ := Prod.mk.inj h
  cases previous with
  | none => rfl
  | some q =>
    cases hq : q.isSeparator <;>
      simp [removalChange?, cellTag, TagRules.removeCell, change?, Option.filter, hq]

/-- Repeated tags go with the gaps in front of them. -/
theorem changes_repetitions (seen : List (String × TagRules.TagRef))
    (ps : List (Option Token × Token)) (xs : List Slot)
    (h : ps.map (fun d => (d.1.filter (·.isSeparator), d.2)) = xs.map fun x => (x.gap, x.token)) :
    (TagRules.repetitions seen (ps.map cellTag)).filterMap (fun p => removalChange? p.1) =
      (planned (tagEdits (seen.map (·.1)) (xs.map (·.token.value))) xs).filterMap change? := by
  induction ps generalizing seen xs with
  | nil =>
    obtain rfl : xs = [] := by simpa using h.symm
    rfl
  | cons p ps ih =>
    obtain ⟨x, xs, rfl, hx, hxs⟩ := List.map_eq_cons_iff.1 h.symm
    have hvalue : (cellTag p).value = x.token.value :=
      congrArg (fun d => d.2.value) hx.symm
    have hremoval := removalChange?_cellTag hx.symm
    have hlookup := isSome_lookup seen (Text.tagKey x.token.value)
    rw [List.map_cons, TagRules.repetitions, hvalue, List.map_cons, tagEdits]
    cases hl : seen.lookup (Text.tagKey x.token.value) with
    | some first =>
      rw [hl, Option.isSome_some] at hlookup
      rw [if_pos hlookup.symm, changes_planned_cons, ← ih seen xs hxs.symm, ← hremoval]
      cases hc : removalChange? (cellTag p) <;> simp [hc]
    | none =>
      rw [hl] at hlookup
      have hne : ¬ (seen.map (·.1)).contains (Text.tagKey x.token.value) = true := by
        rw [← hlookup]
        exact Bool.false_ne_true
      rw [if_neg hne, changes_planned_cons]
      exact ih ((Text.tagKey x.token.value, cellTag p) :: seen) xs hxs.symm

end

/-! ## What rules find at a statement -/

section
variable {config : LintConfig} {source : String} {lines : Array (List Char)} {f : File}
  {sc : Scope} {s : Statement}

/-- The changes of a rule at a statement, if it is switched on. -/
def partOf (config : LintConfig) (source : String) (lines : Array (List Char)) (f : File)
    (sc : Scope) (s : Statement) (r : Rule) : List Change :=
  if config.runs r.code && r.visits (.statement s.type) then
    fixChanges (r.run config source lines f sc (.statement s)).diagnostics
  else []

/-- A rule without fixes has no part in the changes. -/
theorem partOf_of_fixless {r : Rule} (h : r.Fixless) :
    partOf config source lines f sc s r = [] := by
  rw [partOf, Rule.fixChanges_run_of_fixless h, ite_self]

/-- The changes of a concatenation are those of its parts. -/
theorem fixChanges_flatMap {α : Type} (g : α → List Diagnostic) (xs : List α) :
    fixChanges (xs.flatMap g) = xs.flatMap fun x => fixChanges (g x) := by
  induction xs with
  | nil => rfl
  | cons x xs ih => rw [List.flatMap_cons, List.flatMap_cons, fixChanges_append, ih]

/-- **Five rules give fixes at a statement.** -/
theorem fixChanges_checkStep :
    fixChanges ((checkStep config source lines f (Rule.all.filter fun r => config.runs r.code)
        (.meet s, sc)).flatMap (·.diagnostics)) =
      [TagRules.duplicated, NameRules.upperElse, SpaceRules.trailing, StyleRules.forceTags,
        StyleRules.singularHeader].flatMap (partOf config source lines f sc s) := by
  have hparts (rs : List Rule) :
      fixChanges ((checkStep config source lines f (rs.filter fun r => config.runs r.code)
        (.meet s, sc)).flatMap (·.diagnostics)) =
      rs.flatMap (partOf config source lines f sc s) := by
    rw [fixChanges_flatMap]
    induction rs with
    | nil => rfl
    | cons r rs ih =>
      have hnode : Step.node? (.meet s) = some (.statement s) := rfl
      simp only [checkStep, hnode] at ih ⊢
      rw [List.flatMap_cons, ← ih, partOf, List.filter_cons]
      cases config.runs r.code with
      | false => rfl
      | true =>
        rw [if_pos rfl, List.filter_cons, Bool.true_and]
        cases hv : r.visits (.statement s.type) with
        | false => simp [Node.type, hv]
        | true => simp [Node.type, hv]
  rw [hparts]
  simp only [Rule.all, List.flatMap_cons, List.flatMap_nil, List.append_nil, List.nil_append,
    TagRules.withSpace, TagRules.withOperator, TagRules.withReservedWord,
    StyleRules.repeatedTestCase, StyleRules.repeatedKeyword,
    partOf_of_fixless Rule.fixless_onTags, partOf_of_fixless Rule.fixless_empty,
    partOf_of_fixless Rule.fixless_alreadySet, partOf_of_fixless Rule.fixless_behaviour,
    partOf_of_fixless Rule.fixless_nameCase, partOf_of_fixless Rule.fixless_indent,
    partOf_of_fixless Rule.fixless_emptyRun, partOf_of_fixless Rule.fixless_mixed,
    partOf_of_fixless Rule.fixless_line, partOf_of_fixless Rule.fixless_arguments,
    partOf_of_fixless Rule.fixless_calls, partOf_of_fixless Rule.fixless_repeatedNames,
    partOf_of_fixless Rule.fixless_documentation, partOf_of_fixless Rule.fixless_reminder,
    partOf_of_fixless Rule.fixless_order]

/-- A statement rule's part is what its check proposes, where it runs. -/
theorem partOf_ofStatements {info : RuleInfo} {types : StatementType → Bool}
    {check : RuleContext → Statement → List Diagnostic} :
    partOf config source lines f sc s (.ofStatements info types check) =
      if config.runs info.code && types s.type then
        fixChanges (check ⟨source, lines, f, sc, config.paramsOf info.code⟩ s)
      else [] := by
  rw [partOf, Rule.fixChanges_run rfl]
  rfl

/-- Diagnostics that each carry a change give those changes. -/
theorem fixChanges_map {α : Type} {g : α → Diagnostic} {h : α → Change}
    (hg : ∀ x, (g x).change? = some (h x)) (xs : List α) : fixChanges (xs.map g) = xs.map h := by
  induction xs with
  | nil => rfl
  | cons x xs ih =>
    rw [fixChanges] at ih ⊢
    rw [List.map_cons, List.filterMap_cons_some (hg x), ih, List.map_cons]

/-- The trailing whitespace rule's part are the trims of the line ends. -/
theorem partOf_trailing
    (hends : (splitLines s.tokens).filterMap SpaceRules.trailingGap? = endGaps (slots s.tokens)) :
    partOf config source lines f sc s SpaceRules.trailing =
      if config.runs SpaceRules.trailingInfo.code then (endGaps (slots s.tokens)).map trimChange
      else [] := by
  rw [SpaceRules.trailing, partOf_ofStatements, Bool.and_true, hends, fixChanges_map]
  exact fun _ => rfl

/-- The `ELSE` rule's part are its capital spellings. -/
theorem partOf_upperElse : partOf config source lines f sc s NameRules.upperElse =
    if config.runs NameRules.elseInfo.code && (s.type = .keywordCall || s.type = .inlineIf) then
      ((NameRules.elseCandidates ⟨source, lines, f, sc, config.paramsOf NameRules.elseInfo.code⟩
        s).filter NameRules.isSmallElse).map fun t =>
          writeChange NameRules.elseInfo.code t (Text.upper t.value)
    else [] := by
  rw [NameRules.upperElse, partOf_ofStatements, fixChanges_map]
  exact fun _ => rfl

/-- The repeated tags that can be removed give the changes. -/
theorem fixChanges_repetitions (ctx : RuleContext) (ts : List TagRules.TagRef)
    (message : TagRules.TagRef × TagRules.TagRef → String) :
    fixChanges ((TagRules.repetitions [] ts).map fun p =>
        ctx.report TagRules.duplicatedInfo p.1.location.spot (message p)
          (TagRules.removeCell p.1)) =
      (TagRules.repetitions [] ts).filterMap fun p => removalChange? p.1 := by
  rw [fixChanges, List.filterMap_map]
  refine List.filterMap_congr fun p _ => ?_
  rfl

/-- Tags in a documentation fill no cells of their own. -/
theorem removalChange?_documentationTags {t : TagRules.TagRef}
    (h : t ∈ TagRules.documentationTags s) : removalChange? t = none := by
  have hpieces (at_ : Location) (ps : List (List Char)) :
      ∀ t ∈ TagRules.pieceTags at_ ps, t.cell = none := by
    induction ps generalizing at_ with
    | nil => simp [TagRules.pieceTags]
    | cons p ps ih =>
      rw [TagRules.pieceTags]
      split
      · exact ih _
      · exact List.forall_mem_cons.2 ⟨rfl, ih _⟩
  have hcell : t.cell = none := by
    unfold TagRules.documentationTags at h
    dsimp only at h
    split at h
    · cases h
    · split at h
      · rcases List.mem_append.1 h with h | h
        · exact hpieces _ _ t h
        · obtain ⟨u, -, hu⟩ := List.mem_flatMap.1 h
          exact hpieces _ _ t hu
      · cases h
  rw [removalChange?, TagRules.removeCell, hcell]
  rfl

/-- A repetition is one of the tags. -/
theorem mem_of_mem_repetitions {seen : List (String × TagRules.TagRef)} {ts : List TagRules.TagRef}
    {p : TagRules.TagRef × TagRules.TagRef} (h : p ∈ TagRules.repetitions seen ts) : p.1 ∈ ts := by
  induction ts generalizing seen with
  | nil => cases h
  | cons t ts ih =>
    rw [TagRules.repetitions] at h
    split at h
    · rcases List.mem_cons.1 h with rfl | h
      · exact List.mem_cons_self
      · exact List.mem_cons_of_mem _ (ih h)
    · exact List.mem_cons_of_mem _ (ih h)

/-- The duplicated tags rule's part are the planned removals. -/
theorem partOf_duplicated : partOf config source lines f sc s TagRules.duplicated =
    if config.runs TagRules.duplicatedInfo.code && TagRules.isSetting s.type && s.holdsTags then
      (planned (tagEdits [] ((dataSlots (slots s.tokens)).tail.map (·.token.value)))
        (dataSlots (slots s.tokens)).tail).filterMap change?
    else [] := by
  rw [TagRules.duplicated, partOf_ofStatements, fixChanges_repetitions, TagRules.collectTags]
  cases hs : s.holdsTags with
  | true =>
    rw [Bool.and_true, if_pos rfl]
    refine if_congr Iff.rfl (changes_repetitions [] _ _ ?_) rfl
    rw [List.map_tail, List.map_tail, dataSlots_withPrevious]
  | false =>
    rw [Bool.and_false, if_neg Bool.false_ne_true, if_neg Bool.false_ne_true, ite_eq_right_iff]
    intro _
    rw [List.filterMap_eq_nil_iff]
    intro p hp
    have hmem := mem_of_mem_repetitions hp
    split at hmem
    · exact removalChange?_documentationTags hmem
    · cases hmem

/-- The tag setting rule's part is the new name. -/
theorem partOf_forceTags : partOf config source lines f sc s StyleRules.forceTags =
    if config.runs StyleRules.forceTagsInfo.code && s.suiteSetting? = some "Force Tags" then
      s.name.toList.map fun t => writeChange StyleRules.forceTagsInfo.code t "Test Tags"
    else [] := by
  rw [StyleRules.forceTags, partOf_ofStatements]
  by_cases hs : s.suiteSetting? = some "Force Tags"
  · have ht : s.type = .setting := by
      by_contra hne
      simp [Statement.suiteSetting?, hne] at hs
    simp only [hs, ht, if_true, decide_true, Bool.and_true]
    rw [fixChanges_map]
    exact fun _ => rfl
  · simp [hs]

/-- The header rule's part is the plural name. -/
theorem partOf_singularHeader : partOf config source lines f sc s StyleRules.singularHeader =
    if config.runs StyleRules.headerInfo.code && s.type = .sectionHeader then
      s.name.toList.flatMap fun t =>
        (((sc.kind?.filter (· != .invalid)).bind fun k =>
          StyleRules.pluralHeader? k t.value).map fun v =>
            writeChange StyleRules.headerInfo.code t v).toList
    else [] := by
  rw [StyleRules.singularHeader, partOf_ofStatements]
  refine if_congr Iff.rfl ?_ rfl
  have hkind : (sc.section?.filter (·.kind != .invalid)).map (·.kind) =
      sc.kind?.filter (· != .invalid) := by
    rw [Scope.kind?]
    cases sc.section? with
    | none => rfl
    | some sect => cases h : sect.kind <;> simp [Option.filter, h]
  rw [← hkind]
  dsimp only
  cases s.name with
  | none => rfl
  | some t =>
    cases sc.section?.filter (·.kind != .invalid) with
    | none => rfl
    | some sect =>
      rw [Option.toList_some, List.flatMap_singleton, Option.map_some, Option.bind_some]
      dsimp only
      rw [fixChanges_map, Option.toList_map]
      exact fun _ => rfl

/-- A statement's data are the tokens of its data slots. -/
theorem data_eq_dataSlots (s : Statement) : s.data = (dataSlots (slots s.tokens)).map (·.token) :=
  (dataSlots_token s.tokens).symm

/-- Only keyword calls assign. -/
theorem assign_of_ne (h : s.type ≠ .keywordCall) : s.assign = [] := by
  rw [Statement.assign, if_neg h]

/-- Outside keyword calls the first cell is the name. -/
theorem name_of_ne (h : s.type ≠ .keywordCall) : s.name = s.data.head? := by
  rw [Statement.name, assign_of_ne h]
  rfl

/-- Outside keyword calls all cells but the first are arguments. -/
theorem args_of_ne (h : s.type ≠ .keywordCall) : s.args = s.data.tail := by
  rw [Statement.args, assign_of_ne h]
  rfl

/-- A setting of a suite is known by its first cell. -/
theorem suiteSetting?_of_setting (ht : s.type = .setting) {t : Token} (hd : s.data.head? = some t) :
    s.suiteSetting? = some (SettingName.ofSuiteCell t.value) ∧
      s.holdsTags = SettingName.tags.contains (SettingName.ofSuiteCell t.value) := by
  have hname : s.name = some t := (name_of_ne (by rw [ht]; decide)).trans hd
  have hsuite : s.suiteSetting? = some (SettingName.ofSuiteCell t.value) := by
    simp [Statement.suiteSetting?, ht, Statement.nameText, hname]
  exact ⟨hsuite, by simp [Statement.holdsTags, hsuite, Statement.blockSetting?, ht]⟩

/-- So is a setting of a block. -/
theorem holdsTags_of_blockSetting (ht : s.type = .blockSetting) {t : Token}
    (hd : s.data.head? = some t) :
    s.holdsTags = decide (SettingName.ofBlockCell t.value = "Tags") := by
  have hname : s.name = some t := (name_of_ne (by rw [ht]; decide)).trans hd
  simp [Statement.holdsTags, Statement.suiteSetting?, Statement.blockSetting?, ht,
    Statement.nameText, hname]

/-- The argument edits are removals of repeated tags, where the rule runs. -/
theorem changes_planned_argumentEdits (on : String → Bool) (holdsTags : Bool) (xs : List Slot) :
    (planned (argumentEdits on holdsTags (xs.map (·.token.value))) xs).filterMap change? =
      if on TagRules.duplicatedInfo.code && holdsTags then
        (planned (tagEdits [] (xs.map (·.token.value))) xs).filterMap change?
      else [] := by
  rw [argumentEdits, Bool.and_comm]
  split
  · rfl
  · exact changes_planned_nil xs

/-- The header edit of a slot is the change the rule reports for its cell. -/
theorem change?_headerEdit (on : String → Bool) (kind : Option SectionKind) (x : Slot) :
    (change? (x, headerEdit on kind x.token.value)).toList =
      if on StyleRules.headerInfo.code then
        (((kind.filter (· != .invalid)).bind fun k =>
          StyleRules.pluralHeader? k x.token.value).map fun v =>
            writeChange StyleRules.headerInfo.code x.token v).toList
      else [] := by
  rw [headerEdit]
  generalize ((kind.filter (· != .invalid)).bind fun k =>
    StyleRules.pluralHeader? k x.token.value) = plural
  split
  · cases plural <;> rfl
  · rfl

/-- The name edit of a slot is the change the rule reports for its cell. -/
theorem change?_suiteNameEdit (on : String → Bool) (x : Slot) :
    (change? (x, suiteNameEdit on x.token.value)).toList =
      if on StyleRules.forceTagsInfo.code &&
          SettingName.ofSuiteCell x.token.value = "Force Tags" then
        [writeChange StyleRules.forceTagsInfo.code x.token "Test Tags"]
      else [] := by
  rw [suiteNameEdit]
  split <;> rfl

/-- The first cell behind the assignments might be meant as ELSE. -/
theorem changes_planned_call (on : String → Bool) (xs : List Slot) :
    (planned (((xs.map (·.token.value)).takeWhile isAssignment).map (fun _ => Edit.keep) ++
        (((xs.map (·.token.value)).dropWhile isAssignment).head?.map (elseEdit on)).toList)
      xs).filterMap change? =
      if on NameRules.elseInfo.code then
        (((xs.map (·.token)).drop
          ((xs.map (·.token)).takeWhile fun t => isAssignment t.value).length).head?.toList.filter
            NameRules.isSmallElse).map fun t =>
              writeChange NameRules.elseInfo.code t (Text.upper t.value)
      else [] := by
  rw [changes_planned_keep]
  induction xs with
  | nil => simp [planned]
  | cons x xs ih =>
    rw [List.map_cons, List.map_cons, List.takeWhile_cons, List.dropWhile_cons,
      List.takeWhile_cons]
    cases hx : isAssignment x.token.value with
    | true => exact ih
    | false =>
      simp only [Bool.false_eq_true, if_false, List.length_nil, List.drop_zero, List.head?_cons,
        Option.map_some, Option.toList_some, changes_planned_cons, changes_planned_nil,
        List.append_nil, change?_elseEdit, List.filter_cons, List.filter_nil]
      cases on NameRules.elseInfo.code <;> cases NameRules.isSmallElse x.token <;> rfl

/-- The changes that a plan asks for are those of the rules on data. -/
theorem changes_planned_plan :
    (partOf config source lines f sc s TagRules.duplicated ++
        partOf config source lines f sc s NameRules.upperElse ++
        (partOf config source lines f sc s StyleRules.forceTags ++
          partOf config source lines f sc s StyleRules.singularHeader)).Perm
      ((planned ((Occurrence.ofMeeting (s, sc)).plan config.runs)
        (dataSlots (slots s.tokens))).filterMap change?) := by
  have htexts : dataTexts s.tokens = (dataSlots (slots s.tokens)).map (·.token.value) := by
    rw [dataTexts, ← dataSlots_token, List.map_map]
    rfl
  have hdata := data_eq_dataSlots s
  rw [Occurrence.plan, partOf_duplicated, partOf_upperElse, partOf_forceTags, partOf_singularHeader]
  simp only [Occurrence.ofMeeting, htexts]
  generalize dataSlots (slots s.tokens) = xs at hdata ⊢
  cases ht : s.type
  case sectionHeader =>
    have hname : s.name = s.data.head? := name_of_ne (by rw [ht]; decide)
    rw [hname, hdata]
    cases xs with
    | nil => simp [TagRules.isSetting, Statement.suiteSetting?, ht, planned]
    | cons x xs =>
      simp only [List.map_cons, cellEdits]
      rw [changes_planned_cons, changes_planned_nil, change?_headerEdit]
      simp [TagRules.isSetting, Statement.suiteSetting?, ht]
  case setting =>
    have hname : s.name = s.data.head? := name_of_ne (by rw [ht]; decide)
    cases xs with
    | nil => simp [planned, hname, hdata]
    | cons x xs =>
      obtain ⟨hsuite, hholds⟩ := suiteSetting?_of_setting ht (t := x.token) (by rw [hdata]; rfl)
      simp only [List.map_cons, cellEdits]
      rw [changes_planned_cons, changes_planned_argumentEdits,
        change?_suiteNameEdit, hholds, hsuite, hname, hdata]
      simpa [TagRules.isSetting] using List.perm_append_comm
  case blockSetting =>
    cases xs with
    | nil => simp [TagRules.isSetting, Statement.suiteSetting?, ht, planned]
    | cons x xs =>
      have hholds := holdsTags_of_blockSetting ht (t := x.token) (by rw [hdata]; rfl)
      simp only [List.map_cons, cellEdits]
      rw [changes_planned_cons, changes_planned_argumentEdits, hholds]
      simp [TagRules.isSetting, ht, Statement.suiteSetting?, change?]
  case keywordCall =>
    have hname : s.name = ((xs.map (·.token)).drop
        ((xs.map (·.token)).takeWhile fun t => isAssignment t.value).length).head? := by
      rw [Statement.name, Statement.assign, if_pos ht, hdata]
    have hif : (sc.nearest? (.control .ifBlock)).isSome = sc.inIf := rfl
    simp only [cellEdits]
    rw [NameRules.elseCandidates, ht, hname]
    dsimp only
    rw [hif]
    cases sc.inIf with
    | true =>
      rw [if_pos rfl, changes_planned_call]
      simp [TagRules.isSetting, Statement.suiteSetting?, ht]
    | false => simp [TagRules.isSetting, Statement.suiteSetting?, ht, changes_planned_nil]
  case inlineIf =>
    have hargs : s.args = s.data.tail := args_of_ne (by rw [ht]; decide)
    cases xs with
    | nil =>
      simp [TagRules.isSetting, Statement.suiteSetting?, ht, planned, NameRules.elseCandidates,
        hargs, hdata]
    | cons x xs =>
      simp only [List.map_cons, cellEdits]
      rw [changes_planned_cons, List.map_map, NameRules.elseCandidates,
        if_pos ht, hargs, hdata, List.map_cons, List.tail_cons]
      have := changes_planned_else config.runs xs
      simp only [Function.comp_def, this]
      simp [TagRules.isSetting, Statement.suiteSetting?, ht, change?]
  all_goals
    simp [TagRules.isSetting, Statement.suiteSetting?, ht, cellEdits, changes_planned_nil]

/-- **The fixes at a statement are the edits of its slots.** -/
theorem changes_checkStep
    (hends : (splitLines s.tokens).filterMap SpaceRules.trailingGap? = endGaps (slots s.tokens)) :
    (fixChanges ((checkStep config source lines f (Rule.all.filter fun r => config.runs r.code)
        (.meet s, sc)).flatMap (·.diagnostics))).Perm
      (((Occurrence.ofMeeting (s, sc)).edits config.runs).filterMap change?) := by
  have hplan := @changes_planned_plan config source lines f sc s
  rw [fixChanges_checkStep]
  simp only [List.flatMap_cons, List.flatMap_nil, List.append_nil]
  -- the fix of the rule on gaps at the ends of lines goes behind the others
  refine .trans ?_ (((hplan.append_right _).trans (changes_edited _ _ _).symm))
  rw [partOf_trailing hends]
  refine .trans ?_ (.of_eq (List.append_assoc _ _ _).symm)
  rw [← List.append_assoc]
  exact List.perm_append_comm.append_left _

end

end RobotSuite
