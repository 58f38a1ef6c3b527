/-
# Reports of single rules

A check lists the defects of a source and what each rule reports at each node, sorted by place.  The
list does not say where a diagnostic comes from: two rules may report the same, and a failure of any
rule is reported under one code.  `reportsInOrder` keeps the origin with each diagnostic, in the
order in which they are made, and `attributedReports` sorts them as the check does.

The check is this list without the origins (`diagnostics_checkSource`), for it does not matter that
the reports of rules are sorted on their own first.  What a rule reports depends on nothing that the
configuration says of other rules (`reports_switchOff`), so switching a rule off leaves out what
stands under its name and moves nothing else (`rules_do_not_interfere`).
-/

import Mathlib.Algebra.Order.Ring.Unbundled.Rat
import RobotSuite.Lint.Check
import RobotSuite.Proofs.Data.StableSorts

namespace RobotSuite

/-! ## A rule that is switched off -/

namespace LintConfig
variable {code other : String}

/-- The configuration with a rule switched off. -/
def switchOff (c : LintConfig) (code : String) : LintConfig :=
  { c with rules := c.rules.set code .off }

/-- A rule that is switched off does not run. -/
theorem runs_switchOff_self (c : LintConfig) (code : String) :
    (c.switchOff code).runs code = false := by
  rw [runs, switchOff, Table.get?_set, if_pos rfl]

/-- Switching a rule off leaves the others running. -/
theorem runs_switchOff (c : LintConfig) (h : other ≠ code) :
    (c.switchOff code).runs other = c.runs other := by
  rw [runs, switchOff, Table.get?_set, if_neg h, runs]

/-- Switching a rule off keeps the severities of the others. -/
theorem severityOf?_switchOff (c : LintConfig) (h : other ≠ code) :
    (c.switchOff code).severityOf? other = c.severityOf? other := by
  rw [severityOf?, switchOff, Table.get?_set, if_neg h, severityOf?]

end LintConfig

namespace Rule
variable {r : Rule} {config : LintConfig} {source : String} {f : File} {visit : Step × Scope}

/-- What a rule reports when a walk comes to a place; nothing if it is switched off or does not look
at nodes of this type. -/
def reports (r : Rule) (config : LintConfig) (source : String) (f : File) (visit : Step × Scope) :
    List Diagnostic :=
  match visit.1.node? with
  | none => []
  | some node =>
    if config.runs r.code && r.visits node.type then
      (r.run config source (sourceLines source) f visit.2 node).diagnostics
    else []

/-- A rule that does not run reports nothing. -/
theorem reports_of_off (h : config.runs r.code = false) : r.reports config source f visit = [] := by
  rw [reports]
  split <;> simp [h]

/-- Other rules report what they would report anyway. -/
theorem reports_switchOff {code : String} (h : r.code ≠ code) :
    r.reports (config.switchOff code) source f visit = r.reports config source f visit := by
  have hparams : (config.switchOff code).paramsOf r.code = config.paramsOf r.code := rfl
  simp only [reports, run, LintConfig.runs_switchOff config h,
    LintConfig.severityOf?_switchOff config h, hparams]

/-- A rule that fails reports that it does, at the start of the node. -/
theorem reports_of_failure {node : Node} {reason : String} (hnode : visit.1.node? = some node)
    (hvisits : r.visits node.type = true) (hruns : config.runs r.code = true)
    (hfails : r.validate ⟨source, sourceLines source, f, visit.2, config.paramsOf r.code⟩ node =
      .error reason) :
    r.reports config source f visit =
      [{ location := node.start.spot
         severity := .error
         code := "RULE_FAULT"
         message := (Failure.ruleFault r.code reason (some node.start.spot)).bare
         context := contextLine source node.start.line
         fix := none }] := by
  rw [reports, hnode]
  dsimp only
  rw [hruns, hvisits, Bool.and_self, if_pos rfl, run, hfails]
  rfl

end Rule

/-! ## Reports with their origins -/

/-- Where a diagnostic comes from. -/
inductive Origin where
  /-- A defect of the source. -/
  | defect
  /-- A rule at a node: the places of the node in the walk and of the rule in the registry. -/
  | rule (visit place : Nat)
deriving DecidableEq

namespace Origin

/-- Origins in order: defects in front, then nodes as they are walked through, and at one node rules
as they are registered. -/
def NotBehind : Origin → Origin → Prop
  | defect, _ => True
  | rule .., defect => False
  | rule visit place, rule visit' place' => visit < visit' ∨ visit = visit' ∧ place ≤ place'

/-- Whether a diagnostic comes from the rule at a place of the registry. -/
def isRule (place : Nat) : Origin → Bool
  | defect => false
  | rule _ other => other = place

end Origin

section
variable (source : String) (config : LintConfig) (rules : List Rule)

/-- The defects of a source and the reports of rules in order, each with its origin. -/
def reportsInOrder : List (Origin × Diagnostic) :=
  (parse source).errors.map (fun e => (.defect, e.diagnostic (sourceLines source))) ++
    (parse source).visits.zipIdx.flatMap fun (visit, n) => rules.zipIdx.flatMap fun (r, place) =>
      (r.reports config source (parse source) visit).map fun d => (.rule n place, d)

/-- Whether a report may stand in front of another, whatever their origins. -/
def reportPrecedes (a b : Origin × Diagnostic) : Bool := a.2.precedes b.2

/-- The reports of a check in the order of their places, each with its origin. -/
def attributedReports : List (Origin × Diagnostic) :=
  (reportsInOrder source config rules).mergeSort reportPrecedes

/-! ## The check without origins -/

/-- Diagnostics are sorted by line, then by column. -/
theorem precedes_iff {a b : Diagnostic} : a.precedes b = true ↔ a.location.line < b.location.line ∨
    a.location.line = b.location.line ∧ a.location.column ≤ b.location.column := by
  rw [Diagnostic.precedes]
  split_ifs with h
  · simp [h]
  · rw [decide_eq_true_iff, le_iff_lt_or_eq]
    simp [h]

/-- The order of diagnostics is transitive. -/
theorem precedes_trans (a b c : Diagnostic) (hab : a.precedes b) (hbc : b.precedes c) :
    a.precedes c := by
  rw [precedes_iff] at hab hbc ⊢
  rcases hab with hab | ⟨hline, hab⟩ <;> rcases hbc with hbc | ⟨hline', hbc⟩
  · exact .inl (hab.trans hbc)
  · exact .inl (hline' ▸ hab)
  · exact .inl (hline ▸ hbc)
  · exact .inr ⟨hline.trans hline', hab.trans hbc⟩

/-- Any two diagnostics are ordered. -/
theorem precedes_total (a b : Diagnostic) : (a.precedes b || b.precedes a) = true := by
  rw [Bool.or_eq_true, precedes_iff, precedes_iff]
  rcases lt_trichotomy a.location.line b.location.line with h | h | h
  · exact .inl (.inl h)
  · rcases le_total a.location.column b.location.column with hc | hc
    · exact .inl (.inr ⟨h, hc⟩)
    · exact .inr (.inr ⟨h.symm, hc⟩)
  · exact .inr (.inl h)

/-- The order of reports is transitive. -/
theorem reportPrecedes_trans (a b c : Origin × Diagnostic) (hab : reportPrecedes a b)
    (hbc : reportPrecedes b c) : reportPrecedes a c := precedes_trans _ _ _ hab hbc

/-- Any two reports are ordered. -/
theorem reportPrecedes_total (a b : Origin × Diagnostic) :
    (reportPrecedes a b || reportPrecedes b a) = true := precedes_total _ _

/-- At one visit the rules that run report in their order. -/
theorem diagnostics_checkStep_filter (f : File) (visit : Step × Scope) :
    (checkStep config source (sourceLines source) f (rules.filter fun r => config.runs r.code)
        visit).flatMap (·.diagnostics) =
      rules.flatMap fun r => r.reports config source f visit := by
  unfold checkStep Rule.reports
  cases hnode : visit.1.node? with
  | none => simp
  | some node =>
    dsimp only
    induction rules with
    | nil => rfl
    | cons r rules ih =>
      rw [List.flatMap_cons, ← ih]
      cases hruns : config.runs r.code <;> cases hvisits : r.visits node.type <;>
        simp [hruns, hvisits]

/-- Places in a list do not matter to what is made of its elements. -/
theorem flatMap_zipIdx {α β : Type} (l : List α) (make : α → List β) :
    (l.zipIdx.flatMap fun e => make e.1) = l.flatMap make := by
  rw [← List.flatMap_map Prod.fst make, List.zipIdx_map_fst]

/-- Without their origins the reports are the parse errors and what the visits give. -/
theorem map_snd_reportsInOrder : (reportsInOrder source config rules).map (·.2) =
    (parse source).errors.map (·.diagnostic (sourceLines source)) ++
      (parse source).visits.flatMap fun visit =>
        rules.flatMap fun r => r.reports config source (parse source) visit := by
  rw [reportsInOrder, List.map_append, List.map_map]
  congr 1
  simp only [List.map_flatMap, List.map_map, Function.comp_def, List.map_id']
  rw [flatMap_zipIdx _ fun visit => rules.zipIdx.flatMap fun e =>
    e.1.reports config source (parse source) visit]
  exact List.flatMap_congr fun visit _ =>
    flatMap_zipIdx rules fun r => r.reports config source (parse source) visit

/-- **A check lists its reports without their origins.** -/
theorem diagnostics_checkSource :
    (checkSource source config rules).diagnostics =
      (attributedReports source config rules).map (·.2) := by
  have hsort : (attributedReports source config rules).map (·.2) =
      sortDiagnostics ((reportsInOrder source config rules).map (·.2)) :=
    List.map_mergeSort fun _ _ _ _ => rfl
  rw [hsort, map_snd_reportsInOrder]
  have hfile : (checkFile (parse source) source config rules).diagnostics =
      sortDiagnostics ((parse source).visits.flatMap fun visit =>
        rules.flatMap fun r => r.reports config source (parse source) visit) := by
    rw [checkFile]
    dsimp only
    rw [List.flatMap_assoc]
    simp only [diagnostics_checkStep_filter]
  rw [checkSource, hfile]
  exact mergeSort_append_mergeSort precedes_trans precedes_total _ _

/-! ## Order -/

/-- Reports come in the order of their origins. -/
theorem pairwise_reportsInOrder :
    (reportsInOrder source config rules).Pairwise fun a b => a.1.NotBehind b.1 := by
  have hplaces {α : Type} (l : List α) : l.zipIdx.Pairwise fun a b => a.2 < b.2 := by
    rw [← List.pairwise_map (f := Prod.snd) (R := (· < ·)), List.zipIdx_map_snd]
    exact List.pairwise_lt_range'
  rw [reportsInOrder, List.pairwise_append, List.pairwise_map, List.pairwise_flatMap]
  refine ⟨List.pairwise_of_forall fun _ _ => trivial, ⟨?_, ?_⟩, ?_⟩
  · rintro ⟨visit, n⟩ -
    rw [List.pairwise_flatMap]
    refine ⟨fun e _ => List.pairwise_map.2 (List.pairwise_of_forall fun _ _ => .inr ⟨rfl, le_rfl⟩),
      (hplaces rules).imp fun hlt a ha b hb => ?_⟩
    obtain ⟨_, -, rfl⟩ := List.mem_map.1 ha
    obtain ⟨_, -, rfl⟩ := List.mem_map.1 hb
    exact .inr ⟨rfl, hlt.le⟩
  · refine (hplaces _).imp fun hlt a ha b hb => ?_
    obtain ⟨_, -, ha⟩ := List.mem_flatMap.1 ha
    obtain ⟨_, -, hb⟩ := List.mem_flatMap.1 hb
    obtain ⟨_, -, rfl⟩ := List.mem_map.1 ha
    obtain ⟨_, -, rfl⟩ := List.mem_map.1 hb
    exact .inl hlt
  · intro a ha b _
    obtain ⟨_, -, rfl⟩ := List.mem_map.1 ha
    trivial

/-! ## Reports of one rule -/

variable {source config rules}

/-- Of what is made of the elements of a list only one part is left when the others go. -/
theorem filter_flatMap_zipIdx {α β : Type} {l : List α} {make : α × Nat → List β} {p : β → Bool}
    {n : Nat} {a : α} (ha : l[n]? = some a)
    (hother : ∀ e ∈ l.zipIdx, e.2 ≠ n → (make e).filter p = []) :
    (l.zipIdx.flatMap make).filter p = (make (a, n)).filter p := by
  have hmem : (a, n) ∈ l.zipIdx := List.mk_mem_zipIdx_iff_getElem?.2 ha
  obtain ⟨front, back, hsplit⟩ := List.append_of_mem hmem
  have hnodup : (l.zipIdx.map (·.2)).Nodup := by
    rw [List.zipIdx_map_snd]
    exact List.nodup_range'
  rw [hsplit, List.map_append, List.map_cons, List.nodup_append, List.nodup_cons] at hnodup
  have hnone (part : List (α × Nat)) (hpart : ∀ e ∈ part, e ∈ l.zipIdx ∧ e.2 ≠ n) :
      (part.flatMap make).filter p = [] := by
    rw [List.filter_flatMap, List.flatMap_eq_nil_iff]
    exact fun e he => hother e (hpart e he).1 (hpart e he).2
  rw [hsplit, List.flatMap_append, List.flatMap_cons, List.filter_append, List.filter_append,
    hnone front, hnone back, List.nil_append, List.append_nil]
  · rintro ⟨b, m⟩ he
    refine ⟨hsplit ▸ List.mem_append_right _ (List.mem_cons_of_mem _ he), ?_⟩
    rintro rfl
    exact hnodup.2.1.1 (List.mem_map.2 ⟨(b, m), he, rfl⟩)
  · refine fun e he => ⟨hsplit ▸ List.mem_append_left _ he, fun heq => ?_⟩
    exact hnodup.2.2 _ (List.mem_map_of_mem he) _ List.mem_cons_self heq

/-- What a rule reports at a node is all that stands under its name there. -/
theorem filter_reportsInOrder {n place : Nat} {visit : Step × Scope} {r : Rule}
    (hvisit : (parse source).visits[n]? = some visit) (hr : rules[place]? = some r) :
    (reportsInOrder source config rules).filter (·.1 = .rule n place) =
      (r.reports config source (parse source) visit).map fun d => (.rule n place, d) := by
  have hdefects : ((parse source).errors.map fun e =>
      (Origin.defect, e.diagnostic (sourceLines source))).filter (·.1 = .rule n place) = [] := by
    simp [List.filter_map, Function.comp_def]
  rw [reportsInOrder, List.filter_append, hdefects, List.nil_append,
    filter_flatMap_zipIdx hvisit, filter_flatMap_zipIdx hr]
  · simp [List.filter_map, Function.comp_def]
  · rintro ⟨other, place'⟩ - hne
    simp_all [List.filter_map, Function.comp_def]
  · rintro ⟨other, n'⟩ - hne
    simp_all [List.filter_map, List.filter_flatMap, Function.comp_def]

/-- Switching a rule off leaves out what stands under its name. -/
theorem reportsInOrder_switchOff {place : Nat} {r : Rule} (hr : rules[place]? = some r)
    (hcode : ∀ (other : Nat) (r' : Rule), rules[other]? = some r' → r'.code = r.code →
      other = place) :
    reportsInOrder source (config.switchOff r.code) rules =
      (reportsInOrder source config rules).filter fun d => !d.1.isRule place := by
  rw [reportsInOrder, reportsInOrder, List.filter_append, List.filter_flatMap]
  congr 1
  · simp [List.filter_map, Function.comp_def, Origin.isRule]
  · refine List.flatMap_congr fun v _ => ?_
    rw [List.filter_flatMap]
    refine List.flatMap_congr ?_
    rintro ⟨r', other⟩ he
    have hget : rules[other]? = some r' := List.mk_mem_zipIdx_iff_getElem?.1 he
    dsimp only
    by_cases hplace : other = place
    · subst hplace
      obtain rfl : r' = r := Option.some.inj (hget.symm.trans hr)
      rw [Rule.reports_of_off (config.runs_switchOff_self _)]
      simp [List.filter_map, Function.comp_def, Origin.isRule]
    · rw [Rule.reports_switchOff fun h => hplace (hcode _ _ hget h)]
      simp [List.filter_map, Function.comp_def, Origin.isRule, hplace]

/-- Filtering the sorted reports is sorting the filtered ones. -/
theorem filter_attributedReports (p : Origin × Diagnostic → Bool) :
    (attributedReports source config rules).filter p =
      ((reportsInOrder source config rules).filter p).mergeSort reportPrecedes :=
  mergeSort_filter reportPrecedes_trans reportPrecedes_total _

/-- **Rules do not interfere.**  A check is a list of reports with their origins, sorted by line and
column; reports of one place stand in the order of their origins.  For a rule whose code no other
has, switching it off leaves out the reports that have it as their origin and no other, and moves
none.  These are what the rule reports at each node, in order, and where it fails, one report of that
failure at the start of the node.  The configuration is given, so what a rule checks may depend on
all of it but on which rules run. -/
theorem rules_do_not_interfere {place : Nat} {r : Rule} (hr : rules[place]? = some r)
    (hcode : ∀ (other : Nat) (r' : Rule), rules[other]? = some r' → r'.code = r.code →
      other = place) :
    let reports := attributedReports source config rules
    (checkSource source config rules).diagnostics = reports.map (·.2) ∧
      (checkSource source (config.switchOff r.code) rules).diagnostics =
        (reports.filter fun d => !d.1.isRule place).map (·.2) ∧
      reports.Pairwise (fun a b => a.2.location.line < b.2.location.line ∨
        a.2.location.line = b.2.location.line ∧ (a.2.location.column < b.2.location.column ∨
          a.2.location.column = b.2.location.column ∧ a.1.NotBehind b.1)) ∧
      ∀ (n : Nat) (visit : Step × Scope), (parse source).visits[n]? = some visit →
        (reports.filter (·.1 = .rule n place)).map (·.2) =
            sortDiagnostics (r.reports config source (parse source) visit) ∧
          ∀ (node : Node) (reason : String), visit.1.node? = some node →
            r.visits node.type = true → config.runs r.code = true →
            r.validate ⟨source, sourceLines source, parse source, visit.2,
              config.paramsOf r.code⟩ node = .error reason →
            reports.filter (·.1 = .rule n place) =
              [(.rule n place,
                { location := node.start.spot
                  severity := .error
                  code := "RULE_FAULT"
                  message := (Failure.ruleFault r.code reason (some node.start.spot)).bare
                  context := contextLine source node.start.line
                  fix := none })] := by
  intro reports
  refine ⟨diagnostics_checkSource .., ?_, ?_, fun n visit hvisit => ⟨?_, ?_⟩⟩
  · rw [filter_attributedReports, ← reportsInOrder_switchOff hr hcode, ← attributedReports,
      diagnostics_checkSource]
  · have hsorted := List.pairwise_mergeSort reportPrecedes_trans reportPrecedes_total
      (reportsInOrder source config rules)
    have hties := pairwise_mergeSort_ties reportPrecedes_trans reportPrecedes_total
      (pairwise_reportsInOrder source config rules)
    refine (hsorted.and hties).imp fun {a b} h => ?_
    obtain ⟨hle, htie⟩ := h
    rcases precedes_iff.1 hle with hline | ⟨hline, hcolumn⟩
    · exact .inl hline
    · refine .inr ⟨hline, ?_⟩
      rcases hcolumn.lt_or_eq with hcolumn | hcolumn
      · exact .inl hcolumn
      · exact .inr ⟨hcolumn, htie (precedes_iff.2 (.inr ⟨hline.symm, hcolumn.ge⟩))⟩
  · rw [filter_attributedReports, filter_reportsInOrder hvisit hr, sortDiagnostics]
    have hsort := List.map_mergeSort (f := Prod.snd)
      (r := reportPrecedes) (s := Diagnostic.precedes)
      (l := (r.reports config source (parse source) visit).map fun d => (Origin.rule n place, d))
      fun _ _ _ _ => rfl
    rw [hsort, List.map_map]
    simp [Function.comp_def]
  · intro node reason hnode hvisits hruns hfails
    rw [filter_attributedReports, filter_reportsInOrder hvisit hr,
      Rule.reports_of_failure hnode hvisits hruns hfails, List.map_singleton,
      List.mergeSort_singleton]

end

set_option maxRecDepth 100000 in
/-- A rule that fails at a section and at two settings, of which one is a defect of the source. -/
theorem rules_do_not_interfere_of_failure :
    let broken : Rule :=
      { info := ⟨"BROKEN", .order, .info, "Fails", []⟩
        visits := fun t => t = .sect || t = .statement .setting
        validate := fun _ _ => .error "broken rule" }
    let rules := [TagRules.withSpace, broken]
    let config := LintConfig.standard (rules.map (·.info))
    let source := "*** Settings ***\nTest Tags    a b\nFoo\n"
    rules[1]? = some broken ∧
      (∀ (other : Nat) (r : Rule), rules[other]? = some r → r.code = broken.code → other = 1) ∧
      (checkSource source config rules).diagnostics.map (·.code) =
        ["RULE_FAULT", "RULE_FAULT", "TAG_WITH_SPACE", "PARSE_ERROR", "RULE_FAULT"] ∧
      (checkSource source (config.switchOff broken.code) rules).diagnostics.map (·.code) =
        ["TAG_WITH_SPACE", "PARSE_ERROR"] ∧
      (checkSource source (config.switchOff broken.code) rules).diagnostics =
        ((attributedReports source config rules).filter fun d => !d.1.isRule 1).map (·.2) := by
  intro broken rules config source
  have hcode : ∀ (other : Nat) (r : Rule), rules[other]? = some r → r.code = broken.code →
      other = 1 := by
    intro other r hr hcode
    match other with
    | 0 =>
      obtain rfl : TagRules.withSpace = r := Option.some.inj hr
      exact absurd hcode (by decide)
    | 1 => rfl
    | _ + 2 => cases hr
  have hcodes (c : LintConfig) : (checkSource source c rules).diagnostics.map (·.code) =
      ((reportsInOrder source c rules).foldr (putIn reportPrecedes) []).map (·.2.code) := by
    rw [diagnostics_checkSource, attributedReports,
      mergeSort_eq_foldr reportPrecedes_trans reportPrecedes_total, List.map_map]
    rfl
  exact ⟨rfl, hcode, (hcodes _).trans (by decide +kernel), (hcodes _).trans (by decide +kernel),
    (rules_do_not_interfere rfl hcode).2.1⟩

end RobotSuite
