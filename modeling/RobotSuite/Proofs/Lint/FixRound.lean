/-
# One round of fixes

The groups of a source are mended one by one, as they are read (`mendedGroups`).  The edits of what
occurs in the source come to them (`slotTokens_mended_edits`), they are the groups that are read
from the new source (`groups_tokenize_mended`), and nothing that is read there has a fix left
(`settled_runScan`).

The fixes of a check are edits of the tokens of its source, so they do not collide, and making them
leaves the mended groups of the source (`changes_checkSource`).  Nothing in these has a fix left
(`fix_eq_none_of_fixedSource`).  So one round either makes all fixes, behind which a check has none,
or makes none at all, when they would bring in defects (`outcome_applyFixes_checkSource`).
-/

import RobotSuite.Proofs.Lint.FixedGroups

namespace RobotSuite

/-! ## The mended groups -/

/-- The lines of the next group of a source, with the fixes made that its statement asks for. -/
def Reading.mend (on : String → Bool) (r : Reading) (g : List (List Token)) :
    List (List Token) × Reading :=
  (newLines (on SpaceRules.trailingInfo.code) ((r.take g.flatten).1.plan on) g,
    (r.take g.flatten).2)

/-- The groups of a source with the fixes made. -/
def mendedGroups (on : String → Bool) (r : Reading) (groups : List (List (List Token))) :
    List (List (List Token)) :=
  runScan (Reading.mend on) r groups

/-- Lines of tokens that are put together. -/
structure IsGroup (lines g : List (List Token)) : Prop where
  mem : g ∈ groupLines lines
  line : ∀ l ∈ g, TokenLine (l.map Token.piece)

section
variable {on : String → Bool} {r r' : Reading} {lines g : List (List Token)}
  {groups : List (List (List Token))}

/-- A line may be continued when it is no header and holds data. -/
theorem isContinuable_eq (line : List Token) :
    isContinuable line = (!isHeaderLine line && !(dataTokens line).isEmpty) := by
  have hany : line.any (·.isData) = !(dataTokens line).isEmpty := by
    induction line with
    | nil => rfl
    | cons t ts ih =>
      rw [dataTokens, List.any_cons, List.filter_cons, ih]
      cases t.isData <;> rfl
  rw [isContinuable, hany]

/-- Groups of the same shape start alike. -/
theorem SameShape.starts {l : List Token} {ls new : List (List Token)}
    (h : SameShape (l :: ls) new) (halone : isContinuable l = false → ls = []) :
    isHeaderLine new.flatten = isHeaderLine (l :: ls).flatten ∧
      isContinuationLine new.flatten = isContinuationLine (l :: ls).flatten := by
  obtain ⟨hroles, hcont⟩ := h
  cases hroles with
  | @cons _ l' _ ls' hl hls =>
    have hcont' : isContinuable l' = isContinuable l := Option.some.inj hcont
    have halone' : isContinuable l' = false → ls' = [] := fun hn => by
      obtain rfl := halone (hcont' ▸ hn)
      exact List.forall₂_nil_left_iff.1 hls
    rw [isHeaderLine, isHeaderLine, isContinuationLine, isContinuationLine,
      firstSignificant_group halone, firstSignificant_group halone']
    exact ⟨hl.header, hl.continuation⟩

namespace IsGroup

/-- Every line of a group is a row. -/
theorem isRow (h : IsGroup lines g) : ∀ l ∈ g, IsRow l := fun l hl => (h.line l hl).isRow

/-- The slots of a group hold its tokens. -/
theorem slotTokens_slots (h : IsGroup lines g) : slotTokens (slots g.flatten) = g.flatten := by
  have hlines : g.flatMap (fun l => slotTokens (slots l)) = g.flatMap id :=
    List.flatMap_congr fun l hl => (slotLine_of_tokenLine (h.line l hl)).2
  rw [IsRow.slots_flatten h.isRow, slotTokens, List.flatMap_assoc, ← List.flatMap_id]
  exact hlines

variable (on r)

/-- The plan of a group edits its lines, each by its slots. -/
theorem editsLines (h : IsGroup lines g) :
    EditsLines (on SpaceRules.trailingInfo.code) ((r.take g.flatten).1.plan on) g :=
  editsLines_group h.mem h.line _

/-- A mended group has its lines mended one by one. -/
theorem forall₂_mend (h : IsGroup lines g) :
    List.Forall₂ (LineMended (on SpaceRules.trailingInfo.code)) g (r.mend on g).1 :=
  forall₂_newLines (h.editsLines on r) trim_notMem_cellEdits

/-- A mended group has as many lines as the group, for what those are for. -/
theorem sameShape (h : IsGroup lines g) : SameShape g (r.mend on g).1 := by
  constructor
  · have hboth := (List.forall₂_and_left g _).2 ⟨h.line, h.forall₂_mend on r⟩
    exact hboth.imp fun _ _ ⟨hold, hm⟩ => hm.sameRole hold
  · obtain ⟨l, ls, rfl, -, -⟩ := exists_cons_of_mem_groupLines h.mem
    have hl := h.line l List.mem_cons_self
    obtain ⟨hm, -⟩ := List.forall₂_cons.1 (h.forall₂_mend on r)
    have hrole := hm.sameRole hl
    have hnew := @renewed_mended (on SpaceRules.trailingInfo.code)
      ((r.take (l :: ls).flatten).1.plan on) _ _ (slotLine_of_tokenLine hl).2
      head?_cellEdits_ne_remove rfl hrole.header hrole.continuation
    show some (isContinuable _) = some (isContinuable l)
    rw [isContinuable_eq, isContinuable_eq, hrole.header, hnew.isEmpty_data]

/-- A mended group is what its statement becomes. -/
theorem renewed (h : IsGroup lines g) :
    Renewed (on SpaceRules.trailingInfo.code) ((r.take g.flatten).1.plan on) g.flatten
      (r.mend on g).1.flatten := by
  have hshape := h.sameShape on r
  have hslots := h.slotTokens_slots
  have hnew := @flatten_newLines (on SpaceRules.trailingInfo.code)
    ((r.take g.flatten).1.plan on) g h.isRow
  obtain ⟨l, ls, rfl, halone, -⟩ := exists_cons_of_mem_groupLines h.mem
  obtain ⟨hheader, hcont⟩ := hshape.starts halone
  exact renewed_mended hslots head?_cellEdits_ne_remove hnew hheader hcont

end IsGroup

/-- Mended groups keep their shapes, and their lines are mended one by one. -/
theorem forall₂_mendedGroups (h : ∀ g ∈ groups, IsGroup lines g) :
    List.Forall₂ SameShape groups (mendedGroups on r groups) ∧
      List.Forall₂ (LineMended (on SpaceRules.trailingInfo.code)) groups.flatten
        (mendedGroups on r groups).flatten := by
  induction groups generalizing r with
  | nil => exact ⟨.nil, .nil⟩
  | cons g groups ih =>
    obtain ⟨hg, hgs⟩ := List.forall_mem_cons.1 h
    obtain ⟨hshapes, hmended⟩ := ih hgs
    exact ⟨.cons (hg.sameShape on r) hshapes, List.rel_append (hg.forall₂_mend on r) hmended⟩

/-! ## Their text -/

/-- The edits of what is read from the groups of a source. -/
def sourceEdits (on : String → Bool) (r : Reading) (groups : List (List (List Token))) :
    List (Slot × Edit) :=
  (runScan Reading.take r (groups.map List.flatten)).flatMap (·.edits on)

/-- The edits of the first group come first. -/
theorem sourceEdits_cons (on : String → Bool) (r : Reading) (g : List (List Token))
    (groups : List (List (List Token))) : sourceEdits on r (g :: groups) =
      edited (on SpaceRules.trailingInfo.code) ((r.take g.flatten).1.plan on) (slots g.flatten) ++
        sourceEdits on (r.take g.flatten).2 groups := by
  rw [sourceEdits, List.map_cons, runScan, List.flatMap_cons, Occurrence.edits, tokens_take]
  rfl

/-- Every edit stands on a slot it may change. -/
theorem founded_sourceEdits (h : ∀ g ∈ groups, IsGroup lines g) :
    ∀ d ∈ sourceEdits on r groups, Founded d := by
  induction groups generalizing r with
  | nil => exact List.forall_mem_nil _
  | cons g groups ih =>
    obtain ⟨hg, hgs⟩ := List.forall_mem_cons.1 h
    rw [sourceEdits_cons]
    exact List.forall_mem_append.2
      ⟨founded_of_editsLines hg.line (hg.editsLines on r) trim_notMem_cellEdits, ih hgs⟩

/-- The slots in front of the edits hold all tokens. -/
theorem slotTokens_oldSlots_edits (h : ∀ g ∈ groups, IsGroup lines g) :
    slotTokens (oldSlots (sourceEdits on r groups)) = groups.flatten.flatten := by
  induction groups generalizing r with
  | nil => rfl
  | cons g groups ih =>
    obtain ⟨hg, hgs⟩ := List.forall_mem_cons.1 h
    rw [sourceEdits_cons, oldSlots, List.map_append, ← oldSlots, ← oldSlots, oldSlots_edited,
      slotTokens_append, hg.slotTokens_slots, ih hgs, List.flatten_cons, List.flatten_append]

/-- The edits of a source come to its mended groups. -/
theorem slotTokens_mended_edits (h : ∀ g ∈ groups, IsGroup lines g) :
    slotTokens (mended (sourceEdits on r groups)) = (mendedGroups on r groups).flatten.flatten := by
  induction groups generalizing r with
  | nil => rfl
  | cons g groups ih =>
    obtain ⟨hg, hgs⟩ := List.forall_mem_cons.1 h
    rw [sourceEdits_cons, mended_append, slotTokens_append, ← flatten_newLines hg.isRow, ih hgs,
      ← List.flatten_append]
    rfl

/-! ## Reading the new source -/

/-- Lines with the same text in the same kinds of tokens differ in places only. -/
theorem map_bare_of_typed {a b : List (List Token)} (h : typed a = typed b) :
    a.map (·.map Token.bare) = b.map (·.map Token.bare) := by
  have hbare (ls : List (List Token)) :
      ls.map (·.map Token.bare) = (typed ls).map (·.map Piece.bare) := by
    simp [typed, Function.comp_def]
  rw [hbare, hbare, h]

/-- Well-formed lines are grouped into groups of rows. -/
theorem isGroup_of_wellFormed (hw : WellFormed (typed lines)) :
    ∀ g ∈ groupLines lines, IsGroup lines g := by
  refine fun g hg => ⟨hg, fun l hl => hw.line _ (List.mem_map_of_mem ?_)⟩
  rw [← flatten_groupLines lines]
  exact List.mem_flatten.2 ⟨g, hg, hl⟩

/-- **The groups of the new source are the mended groups,** but for a last one of which nothing is
left. -/
theorem groups_tokenize_mended (hw : WellFormed (typed lines)) (hreturn : ∀ l ∈ lines, NoReturn l) :
    ((groupLines (tokenize (String.ofList
        (chars (mendedGroups on r (groupLines lines)).flatten.flatten)))).map
        fun g => g.flatten.map Token.bare) <+:
      (mendedGroups on r (groupLines lines)).map fun g => g.flatten.map Token.bare := by
  obtain ⟨hshapes, hmended⟩ := @forall₂_mendedGroups on r _ _ (isGroup_of_wellFormed hw)
  rw [flatten_groupLines] at hmended
  obtain ⟨kept, htyped, hkept⟩ := typed_tokenize_mended hw hreturn hmended
  have hnew := groupLines_of_sameShape hshapes
  generalize mendedGroups on r (groupLines lines) = new at hmended htyped hkept hnew ⊢
  -- a last line of which nothing is left is a group of its own
  have hprefix : groupLines kept <+: new := by
    rcases hkept with rfl | ⟨last, hlast, hnil⟩
    · exact hnew.symm ▸ List.prefix_refl new
    · rw [hlast] at hmended hnew
      obtain ⟨l, hl, plan, -, hedits, rfl⟩ := exists_of_mem_forall₂ hmended
        (List.mem_append_right _ List.mem_cons_self)
      have hline := (slotLine_mended (hw.line _ (List.mem_map_of_mem hl)) hedits).2.2
      obtain ⟨hcont, hremark⟩ := hline.roles_of_chars hnil
      rw [← hnew, groupLines_append_cons hcont hremark]
      exact List.prefix_append _ _
  have hmap (ls : List (List Token)) : (groupLines ls).map (fun g => g.flatten.map Token.bare) =
      (groupLines (ls.map (·.map Token.bare))).map List.flatten := by
    rw [groupLines_map_bare, List.map_map]
    exact List.map_congr_left fun g _ => List.map_flatten
  rw [hmap, map_bare_of_typed htyped, ← hmap]
  exact hprefix.map _

/-- An idle plan asks for no change. -/
theorem changes_planned_of_idle {plan : List Edit} (h : Idle plan) (xs : List Slot) :
    (planned plan xs).filterMap change? = [] := by
  induction xs generalizing plan with
  | nil => rfl
  | cons x xs ih =>
    cases plan with
    | nil => exact ih h
    | cons e plan =>
      obtain ⟨rfl, hplan⟩ := idle_cons.1 h
      exact ih hplan

/-- What has settled has no fix. -/
theorem changes_edits_of_idle {o : Occurrence} (h : Idle (o.plan on))
    (hends : on SpaceRules.trailingInfo.code = true → endGaps (slots o.tokens) = []) :
    (o.edits on).filterMap change? = [] := by
  refine List.Perm.eq_nil ((changes_edited _ _ _).trans ?_)
  rw [changes_planned_of_idle h, List.nil_append]
  split
  · rename_i ht
    rw [hends ht, List.map_nil]
  · exact .refl _

/-- **Nothing that is read from the mended groups has a fix.** -/
theorem settled_runScan (hr : r.Alike r') (h : ∀ g ∈ groups, IsGroup lines g)
    {us : List (List Token)} (hu : us.map (·.map Token.bare) <+:
      (mendedGroups on r groups).map fun g => g.flatten.map Token.bare) :
    ∀ o ∈ runScan Reading.take r' us, (o.edits on).filterMap change? = [] := by
  induction us generalizing groups r r' with
  | nil => exact List.forall_mem_nil _
  | cons u us ih =>
    cases groups with
    | nil => cases List.prefix_nil.1 hu
    | cons g groups =>
      obtain ⟨hg, hgs⟩ := List.forall_mem_cons.1 h
      obtain ⟨hbare, hrest⟩ := List.cons_prefix_cons.1 hu
      have hrenewed := (hg.renewed on r).of_bare hbare
      obtain ⟨halike, hidle⟩ := take_renewed hr hrenewed
      refine List.forall_mem_cons.2 ⟨changes_edits_of_idle hidle fun ht => ?_, ih halike hgs hrest⟩
      rw [tokens_take]
      exact hrenewed.ends ht

end

/-! ## The fixes of a check -/

/-- Ranges inside a text of some length, none of them empty and none meeting another. -/
structure LieApart (length : Nat) (ranges : List Span) : Prop where
  inside : ∀ r ∈ ranges, 0 ≤ r.start.offset ∧ r.start.offset < r.stop.offset ∧
    r.stop.offset ≤ length
  apart : ranges.Pairwise fun a b =>
    a.stop.offset ≤ b.start.offset ∨ b.stop.offset ≤ a.start.offset

/-- The ranges of the fixes of some diagnostics. -/
def fixRanges (ds : List Diagnostic) : List Span := (ds.filterMap (·.fix)).map (·.range)

/-- What is left of a source when all fixes of a check have been made. -/
def fixedSource (source : String) (config : LintConfig) : String :=
  Change.applyAll source
    (Change.fromEnd (fixChanges (checkSource source config Rule.all).diagnostics))

section
variable {source : String} {config : LintConfig} {ds : List Diagnostic}

/-- The fixes have the ranges of their changes. -/
theorem offsets_fixRanges (ds : List Diagnostic) :
    (fixRanges ds).map (fun r => (r.start.offset, r.stop.offset)) =
      (fixChanges ds).map fun c => (c.start, c.stop) := by
  rw [fixRanges, fixChanges, List.map_map, List.map_filterMap, List.map_filterMap]
  refine List.filterMap_congr fun d _ => ?_
  rw [Diagnostic.change?, Option.map_map]
  rfl

/-- Every change carries the code of its diagnostic. -/
theorem codes_fixChanges (ds : List Diagnostic) :
    (fixChanges ds).map (·.code) = (ds.filter (·.fix.isSome)).map (·.code) := by
  induction ds with
  | nil => rfl
  | cons d ds ih =>
    rw [fixChanges] at ih ⊢
    rw [List.filter_cons]
    cases hfix : d.fix with
    | none =>
      rw [List.filterMap_cons_none (by rw [Diagnostic.change?, hfix]; rfl)]
      exact ih
    | some f =>
      rw [List.filterMap_cons_some (by rw [Diagnostic.change?, hfix]; rfl), List.map_cons, ih]
      rfl

/-- Fixes lie apart when their changes do. -/
theorem lieApart_fixRanges {length : Nat}
    (hinside : ∀ c ∈ fixChanges ds, 0 ≤ c.start ∧ c.start < c.stop ∧ c.stop ≤ length)
    (hapart : (fixChanges ds).Pairwise fun a b => a.stop ≤ b.start ∨ b.stop ≤ a.start) :
    LieApart length (fixRanges ds) := by
  have hoffsets := offsets_fixRanges ds
  constructor
  · have hall : ∀ p : Int × Int, p ∈ (fixChanges ds).map (fun c => (c.start, c.stop)) →
        0 ≤ p.1 ∧ p.1 < p.2 ∧ p.2 ≤ length := List.forall_mem_map.2 hinside
    rw [← hoffsets] at hall
    exact List.forall_mem_map.1 hall
  · have hall : ((fixChanges ds).map fun c => (c.start, c.stop)).Pairwise
        fun p q => p.2 ≤ q.1 ∨ q.2 ≤ p.1 := List.pairwise_map.2 hapart
    rw [← hoffsets] at hall
    exact List.pairwise_map.1 hall

/-- **The fixes of a check do not collide,** and making them leaves the mended groups. -/
theorem changes_checkSource (source : String) (config : LintConfig) :
    let cs := fixChanges (checkSource source config Rule.all).diagnostics
    (∀ c ∈ cs, 0 ≤ c.start ∧ c.start < c.stop ∧ c.stop ≤ Text.length source) ∧
      cs.Pairwise (fun a b => a.stop ≤ b.start ∨ b.stop ≤ a.start) ∧
      Change.choose [] (Change.fromEnd cs) = (Change.fromEnd cs, []) ∧
      fixedSource source config = String.ofList
        (chars (mendedGroups config.runs {} (groupLines (tokenize source))).flatten.flatten) := by
  have hgroups : ∀ g ∈ groupLines (tokenize source), IsGroup (tokenize source) g :=
    isGroup_of_wellFormed (wellFormed_lines _)
  have hold : slotTokens (oldSlots (sourceEdits config.runs {} (groupLines (tokenize source)))) =
      (tokenize source).flatten := by
    rw [slotTokens_oldSlots_edits hgroups, flatten_groupLines]
  have hperm := fixChanges_checkSource source config
  rw [parse, occurrences_parseTokens] at hperm
  have hspans : Spans 0 (tokenize source).flatten := spans_lines _ rfl
  rw [← hold] at hspans
  have h := changes_of_edits (founded_sourceEdits hgroups) hspans hperm
  rw [hold, chars_tokenize, String.ofList_toList, slotTokens_mended_edits hgroups] at h
  exact h

/-- Nothing that is left has a fix. -/
theorem fix_eq_none_of_fixedSource (h : FeedsReturns source.toList) :
    ∀ d ∈ (checkSource (fixedSource source config) config Rule.all).diagnostics, d.fix = none := by
  have hwell : WellFormed (typed (tokenize source)) := wellFormed_lines _
  obtain ⟨-, -, -, hfixed⟩ := changes_checkSource source config
  have hnew := @groups_tokenize_mended config.runs {} _ hwell fun l hl =>
    noReturn_of_mem_tokenize h hl
  rw [← fixChanges_eq_nil_iff, hfixed]
  refine List.Perm.eq_nil ((fixChanges_checkSource _ config).trans ?_)
  rw [List.filterMap_flatMap, parse, occurrences_parseTokens]
  refine .of_eq (List.flatMap_eq_nil_iff.2 ?_)
  refine settled_runScan ⟨rfl, rfl⟩ (isGroup_of_wellFormed hwell) ?_
  rw [List.map_map]
  exact hnew

/-- What a round of fixes comes to. -/
theorem applyFixes_checkSource (source : String) (config : LintConfig) :
    let ds := (checkSource source config Rule.all).diagnostics
    applyFixes source ds =
      if (parse source).errors.length < (parse (fixedSource source config)).errors.length then
        ⟨source, 0, (Change.fromEnd (fixChanges ds)).map fun c => (c.code, .defects)⟩
      else ⟨fixedSource source config, (fixChanges ds).length, []⟩ := by
  intro ds
  obtain ⟨hinside, -, hchoose, -⟩ := changes_checkSource source config
  have hall : ds.filterMap Change.ofDiagnostic? = fixChanges ds :=
    filterMap_ofDiagnostic? (mends_checkSource source config) fun c hc => (hinside c hc).1
  have hlength : (Change.fromEnd (fixChanges ds)).length = (fixChanges ds).length :=
    List.length_mergeSort _
  rw [applyFixes, hall, hchoose]
  dsimp only
  rw [hlength]
  rfl

/-- **A round of fixes is complete and free of collisions.**  The fixes of a check have ranges in
the source that are not empty and do not meet.  Applying them refuses all of them and keeps the
source, when making them would bring in defects, or applies all of them, and then a check of what is
left finds nothing that has a fix; in the source, carriage returns have to stand in front of line
feeds. -/
theorem outcome_applyFixes_checkSource (h : FeedsReturns source.toList) (config : LintConfig) :
    let ds := (checkSource source config Rule.all).diagnostics
    let result := applyFixes source ds
    LieApart (Text.length source) (fixRanges ds) ∧
      ((parse source).errors.length < (parse (fixedSource source config)).errors.length ∧
          result.modified = source ∧ result.applied = 0 ∧
          result.refused.Perm ((ds.filter (·.fix.isSome)).map fun d => (d.code, .defects)) ∨
        (parse result.modified).errors.length ≤ (parse source).errors.length ∧
          result.modified = fixedSource source config ∧ result.refused = [] ∧
          result.applied = (fixRanges ds).length ∧
          ∀ d ∈ (checkSource result.modified config Rule.all).diagnostics, d.fix = none) := by
  intro ds result
  obtain ⟨hinside, hapart, -⟩ := changes_checkSource source config
  refine ⟨lieApart_fixRanges hinside hapart, ?_⟩
  have hresult : result = _ := applyFixes_checkSource source config
  split at hresult
  · rename_i hmore
    left
    rw [hresult]
    refine ⟨hmore, rfl, rfl, ?_⟩
    have hperm := (List.mergeSort_perm (fixChanges ds) fun a b => b.stop ≤ a.stop).map
      fun c => (c.code, FixRefusal.defects)
    have hcodes := congrArg (List.map fun code => (code, FixRefusal.defects)) (codes_fixChanges ds)
    rw [List.map_map, List.map_map] at hcodes
    exact hperm.trans (.of_eq hcodes)
  · rename_i hfew
    right
    have hlength := congrArg List.length (offsets_fixRanges ds)
    rw [List.length_map, List.length_map] at hlength
    rw [hresult]
    exact ⟨Nat.not_lt.1 hfew, rfl, rfl, hlength.symm, fix_eq_none_of_fixedSource h⟩

end

set_option maxRecDepth 100000 in
/-- A header, an end of a line and a tag are mended in one round. -/
theorem outcome_applyFixes_of_three_fixes :
    let source := "*** Test Case ***\r\nA  \r\n    [Tags]    a    A\r\n"
    let config := LintConfig.standard (Rule.all.map (·.info))
    let ds := (checkSource source config Rule.all).diagnostics
    let modified := "*** Test Cases ***\r\nA\r\n    [Tags]    a\r\n"
    FeedsReturns source.toList ∧ LieApart (Text.length source) (fixRanges ds) ∧
      (applyFixes source ds).modified = modified ∧ (applyFixes source ds).refused = [] ∧
      ∀ d ∈ (checkSource modified config Rule.all).diagnostics, d.fix = none := by
  intro source config ds modified
  have hreturns : FeedsReturns source.toList := by decide +kernel
  have hfixed : fixedSource source config = modified := by
    rw [(changes_checkSource source config).2.2.2]
    decide +kernel
  have herrors : ¬ (parse source).errors.length < (parse modified).errors.length := by
    decide +kernel
  have hresult : (applyFixes source ds).modified = modified := by
    rw [applyFixes_checkSource, hfixed, if_neg herrors]
  obtain ⟨hapart, hround⟩ := outcome_applyFixes_checkSource hreturns config
  rw [hfixed] at hround
  rcases hround with ⟨hmore, -⟩ | ⟨-, -, hrefused, -, hnone⟩
  · exact absurd hmore herrors
  · rw [hresult] at hnone
    exact ⟨hreturns, hapart, hresult, hrefused, hnone⟩

end RobotSuite
