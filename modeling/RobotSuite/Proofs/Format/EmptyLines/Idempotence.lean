/-
# Empty lines as configured stay

Whether the statements of a file stand as far apart as is configured shows in the types of its
statements and in its empty lines (`sectionsSpaced`).  So behind the pass it shows in each file with
the same gists, and such a file is left as it is (`EmptyLines.view_again`).
-/

import RobotSuite.Proofs.Format.EmptyLines.Files
import RobotSuite.Proofs.Format.FrontIdempotence

namespace RobotSuite
namespace EmptyLines

/-! ## Lists that are told apart -/

section
variable {α β γ : Type} {u : α → β} {v : α → γ} {isEmpty isComment p : α → Bool}
  {a b xs lines : List α}

/-- Lists that have the same items of one kind, and whose items of the other kind are seen as the
same, are seen as the same. -/
theorem map_eq_of_filter (hp : ∀ x ∈ a, ∀ y ∈ b, u x = u y → p x = p y)
    (hv : ∀ x ∈ a, ∀ y ∈ b, p x = false → p y = false → u x = u y → v x = v y)
    (hmap : a.map u = b.map u) (hfilter : a.filter p = b.filter p) : a.map v = b.map v := by
  induction a generalizing b with
  | nil =>
    rw [List.map_nil, eq_comm, List.map_eq_nil_iff] at hmap
    rw [hmap]
  | cons x a ih =>
    obtain ⟨y, b, rfl, hy, hb⟩ := List.map_eq_cons_iff.1 hmap.symm
    have hx := hp x List.mem_cons_self y List.mem_cons_self hy.symm
    have hp' : ∀ x ∈ a, ∀ y ∈ b, u x = u y → p x = p y := fun x hx y hy =>
      hp x (List.mem_cons_of_mem _ hx) y (List.mem_cons_of_mem _ hy)
    have hv' : ∀ x ∈ a, ∀ y ∈ b, p x = false → p y = false → u x = u y → v x = v y :=
      fun x hx y hy => hv x (List.mem_cons_of_mem _ hx) y (List.mem_cons_of_mem _ hy)
    rw [List.filter_cons, List.filter_cons, ← hx] at hfilter
    cases hcase : p x with
    | true =>
      rw [hcase, if_pos rfl, if_pos rfl] at hfilter
      obtain ⟨rfl, hrest⟩ := List.cons.inj hfilter
      rw [List.map_cons, List.map_cons, ih hp' hv' hb.symm hrest]
    | false =>
      rw [hcase, if_neg Bool.false_ne_true, if_neg Bool.false_ne_true] at hfilter
      rw [List.map_cons, List.map_cons, ih hp' hv' hb.symm hfilter,
        hv x List.mem_cons_self y List.mem_cons_self hcase (hx ▸ hcase) hy.symm]

/-- Squeezing leaves out nothing but empty lines. -/
theorem filter_squeeze (behind : Bool) (xs : List α) :
    (squeeze isEmpty behind xs).filter (fun x => !isEmpty x) = xs.filter fun x => !isEmpty x := by
  induction xs generalizing behind with
  | nil => rfl
  | cons x xs ih =>
    rw [squeeze_cons]
    split
    · rename_i h
      rw [Bool.and_eq_true] at h
      rw [ih, List.filter_cons_of_neg (by simp [h.1])]
    · rw [List.filter_cons, List.filter_cons, ih]

/-- Nothing is left without what all of it is. -/
theorem filter_not_of_all (h : xs.all p = true) : xs.filter (fun x => !p x) = [] :=
  List.filter_eq_nil_iff.2 fun x hx => by simp [List.all_eq_true.1 h x hx]

/-- Without empty lines it does not matter whether the end is stripped. -/
theorem filter_dropEndWhile (xs : List α) :
    (Text.dropEndWhile p xs).filter (fun x => !p x) = xs.filter fun x => !p x := by
  conv_rhs => rw [← Text.dropEndWhile_append_takeEndWhile p xs]
  rw [List.filter_append, filter_not_of_all (Text.all_takeEndWhile p xs), List.append_nil]

/-- Without empty lines it does not matter whether the ends are stripped. -/
theorem filter_inner (xs : List α) :
    (inner isEmpty xs).filter (fun x => !isEmpty x) = xs.filter fun x => !isEmpty x := by
  conv_rhs => rw [← xs.takeWhile_append_dropWhile (p := isEmpty)]
  rw [inner, filter_dropEndWhile, List.filter_append, filter_not_of_all List.all_takeWhile,
    List.nil_append]

/-- Lines are put among items without any other change. -/
theorem filter_withLines (followed : Bool) (hlines : ∀ x ∈ lines, isEmpty x = true) :
    (withLines isEmpty isComment lines followed xs).filter (fun x => !isEmpty x) =
      xs.filter fun x => !isEmpty x := by
  rw [withLines, List.filter_append, List.filter_append, filter_squeeze, filter_dropEndWhile,
    filter_not_of_all (List.all_eq_true.2 hlines), List.append_nil, ← List.filter_append,
    opening_append_closing, filter_inner]

end

/-! ## Types tell what is tidy -/

section
variable {w : Statement → Statement}

/-- Which bodies are squeezed shows in the types of their statements. -/
theorem squeeze_view (hw : ∀ s, (w s).type = s.type) {items : List BodyItem} :
    squeeze isEmptyItem false (viewBody w items) = viewBody w items ↔
      squeeze isEmptyItem false items = items := by
  have hempty : isEmptyItem ∘ BodyItem.view w = isEmptyItem := isOfType_comp_view hw .emptyLine
  rw [viewBody_eq_map, squeeze_map, hempty]
  refine ⟨fun h => (sublist_squeeze false items).eq_of_length ?_, fun h => by rw [h]⟩
  have hlength := congrArg List.length h
  rwa [List.length_map, List.length_map] at hlength

mutual

/-- Whether a control block is tidy shows where types do. -/
theorem controlTidy_view (hw : ∀ s, (w s).type = s.type) :
    ∀ {c : ControlBlock}, controlTidy (c.view w) ↔ controlTidy c
  | ⟨_, _, _, body, branches, _, _⟩ => by
    rw [ControlBlock.view, controlTidy, controlTidy, squeeze_view hw, bodyTidy_view hw,
      branchesTidy_view hw]

/-- Whether a body is tidy shows where types do. -/
theorem bodyTidy_view (hw : ∀ s, (w s).type = s.type) :
    ∀ {items : List BodyItem}, bodyTidy (viewBody w items) ↔ bodyTidy items
  | [] => .rfl
  | .statement s :: items => by
    rw [viewBody, BodyItem.view, bodyTidy, bodyTidy, bodyTidy_view hw]
  | .control c :: items => by
    rw [viewBody, BodyItem.view, bodyTidy, bodyTidy, controlTidy_view hw, bodyTidy_view hw]

/-- Whether branches are tidy shows where types do. -/
theorem branchesTidy_view (hw : ∀ s, (w s).type = s.type) :
    ∀ {bs : List Branch}, branchesTidy (viewBranches w bs) ↔ branchesTidy bs
  | [] => .rfl
  | ⟨_, _, body, _⟩ :: bs => by
    rw [viewBranches, Branch.view, branchesTidy, branchesTidy, squeeze_view hw, bodyTidy_view hw,
      branchesTidy_view hw]

end

end

/-! ## Distances that show -/

section
variable {spacing : Spacing} {w : Statement → Statement} {v : View} {lines : Nat}

/-- Blocks are seen alike if their types, headers and bodies are. -/
theorem view_eq_iff {b c : Block} : b.view w = c.view w ↔
    b.type = c.type ∧ w b.header = w c.header ∧
      b.body.map (BodyItem.view w) = c.body.map (BodyItem.view w) := by
  rw [Block.view, Block.view, viewBody_eq_map, viewBody_eq_map, Block.mk.injEq]
  simp

/-- Blocks that are seen alike have room for as many lines. -/
theorem blocksFit_of_view {a b : List Block} (h : a.map (Block.view w) = b.map (Block.view w))
    (ha : blocksFit spacing lines a) : blocksFit spacing lines b := by
  induction a generalizing b with
  | nil =>
    rw [List.map_nil, eq_comm, List.map_eq_nil_iff] at h
    rw [h]
    trivial
  | cons x a ih =>
    obtain ⟨y, b, rfl, hy, hb⟩ := List.map_eq_cons_iff.1 h.symm
    have hempty := congrArg List.isEmpty hb
    rw [List.isEmpty_map, List.isEmpty_map] at hempty
    rw [blocksFit] at ha ⊢
    rw [hempty, (view_eq_iff.1 hy).1]
    exact ⟨ha.1, ih hb.symm ha.2⟩

/-- Whether blocks have their distances shows where it is seen. -/
theorem blocksSpaced_of_view (hw : ∀ s, (w s).type = s.type) {a b : List Block}
    (h : a.map (Block.view w) = b.map (Block.view w)) (ha : blocksSpaced spacing w lines a) :
    blocksSpaced spacing w lines b := by
  induction a generalizing b with
  | nil =>
    rw [List.map_nil, eq_comm, List.map_eq_nil_iff] at h
    rw [h]
    trivial
  | cons x a ih =>
    obtain ⟨y, b, rfl, hy, hb⟩ := List.map_eq_cons_iff.1 h.symm
    have hempty := congrArg List.isEmpty hb
    rw [List.isEmpty_map, List.isEmpty_map] at hempty
    obtain ⟨htype, -, hbody⟩ := view_eq_iff.1 hy
    obtain ⟨⟨htidy, hspaced⟩, ha⟩ := ha
    refine ⟨⟨?_, ?_⟩, ih hb.symm ha⟩
    · rwa [← bodyTidy_view hw, viewBody_eq_map, hbody, ← viewBody_eq_map, bodyTidy_view hw]
    · rwa [hempty, htype, map_spaced hw, hbody, ← map_spaced hw]

/-- What stays as it is is seen as it is. -/
theorem blocksSpaced_of_id {a : List Block} (ha : blocksSpaced spacing id lines a) :
    blocksSpaced spacing w lines a := by
  induction a with
  | nil => trivial
  | cons b a ih =>
    have hview : BodyItem.view w ∘ BodyItem.view id = BodyItem.view w :=
      funext fun i => i.view_view w id
    have hseen := congrArg (List.map (BodyItem.view w)) ha.1.2
    rw [List.map_map, List.map_map, hview] at hseen
    exact ⟨⟨ha.1.1, hseen⟩, ih ha.2⟩

end

/-! ## Empty lines that show -/

section
variable {spacing : Spacing} {gaps : Bool} {lines : Nat} {newline : String} {count : Nat}
  {last follows : Bool}

/-- An empty line without marks, or another statement. -/
def IsUnmarked (s : Statement) : Prop :=
  s.type = .emptyLine → s.ownedByNext = false ∧ s.defect = none ∧ s.label = none

/-- An empty line that is put has no marks. -/
theorem isUnmarked_emptyLine (newline : String) : IsUnmarked (.emptyLine newline) :=
  fun _ => ⟨rfl, rfl, rfl⟩

/-- Of an empty line without marks the gist is what shows. -/
theorem shown_of_gist {s r : Statement} (hs : IsUnmarked s) (hr : IsUnmarked r)
    (hes : s.type = .emptyLine) (her : r.type = .emptyLine) (h : s.gist gaps = r.gist gaps) :
    s.shown gaps = r.shown gaps := by
  have hshown {s : Statement} (hs : IsUnmarked s) (he : s.type = .emptyLine) :
      s.gist gaps = s.shown gaps := by
    obtain ⟨howned, hdefect, hlabel⟩ := hs he
    rw [Statement.gist_of_emptyLine he, Statement.markless, Statement.shown, howned, hdefect, hlabel]
  rw [← hshown hs hes, h, hshown hr her]

/-- Where statements are spaced by their gists, they are by what shows. -/
theorem spacedLead_shown {lead : List Statement} (hmarks : ∀ s ∈ lead, IsUnmarked s)
    (h : (spacedLead newline count last lead).map (Statement.gist gaps) =
      lead.map (Statement.gist gaps)) :
    (spacedLead newline count last lead).map (Statement.shown gaps) =
      lead.map (Statement.shown gaps) := by
  have hspaced : ∀ s ∈ spacedLead newline count last lead, IsUnmarked s := fun s hs =>
    (mem_spacedLead hs).elim (hmarks s) fun h => h ▸ isUnmarked_emptyLine newline
  have hempty {s : Statement} (hs : (!s.isEmptyLine) = false) : s.type = .emptyLine := by
    simpa [Statement.isEmptyLine] using hs
  refine map_eq_of_filter (p := fun s : Statement => !s.isEmptyLine) (fun s _ r _ hsame => ?_)
    (fun s hs r hr hes her => shown_of_gist (hspaced s hs) (hmarks r hr) (hempty hes) (hempty her))
    h contents_spacedLead
  have htype := congrArg Statement.type hsame
  rw [Statement.gist_type, Statement.gist_type] at htype
  rw [Statement.isEmptyLine, Statement.isEmptyLine, htype]

/-- Where bodies are spaced by their gists, they are by what shows. -/
theorem spaced_shown {items : List BodyItem} {followed : Bool}
    (hmarks : ∀ s ∈ bodyStatements items, IsUnmarked s)
    (h : (spaced newline count followed items).map (BodyItem.view (Statement.gist gaps)) =
      items.map (BodyItem.view (Statement.gist gaps))) :
    (spaced newline count followed items).map (BodyItem.view (Statement.shown gaps)) =
      items.map (BodyItem.view (Statement.shown gaps)) := by
  have hitem {s : Statement} (hs : .statement s ∈ items) : IsUnmarked s := by
    refine hmarks s ?_
    rw [bodyStatements_eq_flatMap]
    exact List.mem_flatMap.2 ⟨_, hs, by rw [BodyItem.statements]; exact List.mem_singleton_self s⟩
  have hspaced {s : Statement} (hs : .statement s ∈ spaced newline count followed items) :
      IsUnmarked s := by
    rcases mem_spaced hs with hs | hs
    · exact hitem hs
    · exact BodyItem.statement.inj hs ▸ isUnmarked_emptyLine newline
  have hlines : ∀ i ∈ List.replicate count (BodyItem.statement (.emptyLine newline)),
      isEmptyItem i = true := fun i hi => by
    rw [List.eq_of_mem_replicate hi]
    rfl
  refine map_eq_of_filter (p := fun i => !isEmptyItem i) (fun i _ j _ hsame => ?_)
    (fun i hi j hj hei hej hsame => ?_) h (filter_withLines followed hlines)
  · have hempty (i : BodyItem) : isEmptyItem (i.view (Statement.gist gaps)) = isEmptyItem i :=
      congrFun (isOfType_comp_view (Statement.gist_type gaps) .emptyLine) i
    rw [← hempty i, hsame, hempty]
  · cases i with
    | control c => cases hei
    | statement s =>
      cases j with
      | control c => cases hej
      | statement r =>
        have hempty {s : Statement} (h : (!isEmptyItem (.statement s)) = false) :
            s.type = .emptyLine := by
          rw [Bool.not_eq_false'] at h
          exact of_decide_eq_true h
        have hes := hempty hei
        have her := hempty hej
        exact congrArg BodyItem.statement
          (shown_of_gist (hspaced hi) (hitem hj) hes her (BodyItem.statement.inj hsame))

/-- Where blocks are spaced by the gists of their statements, they are by what shows. -/
theorem blocksSpaced_shown {a : List Block}
    (hmarks : ∀ s ∈ itemsStatements (a.map .block), IsUnmarked s)
    (h : blocksSpaced spacing (Statement.gist gaps) lines a) :
    blocksSpaced spacing (Statement.shown gaps) lines a := by
  induction a with
  | nil => trivial
  | cons b a ih =>
    have hcut : itemsStatements ((b :: a).map .block) =
        b.header :: (bodyStatements b.body ++ itemsStatements (a.map .block)) := rfl
    rw [hcut, List.forall_mem_cons, List.forall_mem_append] at hmarks
    exact ⟨⟨h.1.1, spaced_shown hmarks.2.1 h.1.2⟩, ih hmarks.2.2 h.2⟩

end

/-! ## Sections that show alike -/

section
variable {spacing : Spacing} {v : View} {follows : Bool} {s t : Section} {ss ts : List Section}

/-- The statements of a section are seen where they stand. -/
theorem leadOf_view (v : View) (s : Section) : leadOf (s.view v) = (leadOf s).map (v s.kind) := by
  show (s.body.map _).filterMap _ = _
  rw [leadOf, List.filterMap_map, List.map_filterMap]
  exact List.filterMap_congr fun i _ => by cases i <;> rfl

/-- The blocks of a section are seen where they stand. -/
theorem blocksOf_view (v : View) (s : Section) :
    blocksOf (s.view v) = (blocksOf s).map (Block.view (v s.kind)) := by
  show (s.body.map _).filterMap _ = _
  rw [blocksOf, List.filterMap_map, List.map_filterMap]
  exact List.filterMap_congr fun i _ => by cases i <;> rfl

/-- The parts of sections that are seen alike. -/
theorem parts_of_view (h : s.view v = t.view v) :
    s.kind = t.kind ∧ s.header.isNone = t.header.isNone ∧
      (leadOf s).map (v s.kind) = (leadOf t).map (v s.kind) ∧
      (blocksOf s).map (Block.view (v s.kind)) = (blocksOf t).map (Block.view (v s.kind)) := by
  have hkind : (s.view v).kind = (t.view v).kind := by rw [h]
  change s.kind = t.kind at hkind
  have hnone : (s.view v).header.isNone = (t.view v).header.isNone := by rw [h]
  have hlead := leadOf_view v t
  have hblocks := blocksOf_view v t
  rw [← h, ← hkind, leadOf_view] at hlead
  rw [← h, ← hkind, blocksOf_view] at hblocks
  exact ⟨hkind, (Option.isNone_map.symm.trans hnone).trans Option.isNone_map, hlead, hblocks⟩

variable (hv : ∀ kind s, (v kind s).type = s.type)
include hv

/-- Sections that are seen alike end with as many lines. -/
theorem endLines_of_view (h : s.view v = t.view v) :
    endLines spacing follows s = endLines spacing follows t := by
  obtain ⟨-, hnone, hlead, -⟩ := parts_of_view h
  have hempty : Statement.isEmptyLine ∘ v s.kind = Statement.isEmptyLine :=
    funext fun r => congrArg (fun t => decide (t = StatementType.emptyLine)) (hv s.kind r)
  have hall := congrArg (List.all · Statement.isEmptyLine) hlead
  rw [List.all_map, List.all_map, hempty] at hall
  rw [endLines, endLines, isEmpty_contents, isEmpty_contents, hall, hnone]

/-- Sections that are seen alike have room for as many lines. -/
theorem sectionFits_of_view (h : s.view v = t.view v) (hs : sectionFits spacing follows s) :
    sectionFits spacing follows t := by
  obtain ⟨-, -, -, hblocks⟩ := parts_of_view h
  refine ⟨fun hnil => ?_, blocksFit_of_view hblocks hs.2⟩
  rw [← endLines_of_view hv h]
  rw [hnil, List.map_nil, List.map_eq_nil_iff] at hblocks
  exact hs.1 hblocks

/-- Sections that are seen alike have the same distances. -/
theorem sectionSpaced_of_view (h : s.view v = t.view v)
    (hs : sectionSpaced spacing (v s.kind) follows s) :
    sectionSpaced spacing (v t.kind) follows t := by
  obtain ⟨hkind, -, hlead, hblocks⟩ := parts_of_view h
  have hempty := congrArg List.isEmpty hblocks
  rw [List.isEmpty_map, List.isEmpty_map] at hempty
  rw [← hkind]
  refine ⟨?_, blocksSpaced_of_view (hv s.kind) hblocks hs.2⟩
  rw [← endLines_of_view hv h, ← hempty, ← hlead, ← spacedLead_congr (hv s.kind) hlead]
  exact hs.1

/-- Sections that are seen alike have room for as many lines, all of them. -/
theorem sectionsFit_of_view (h : ss.map (Section.view v) = ts.map (Section.view v))
    (hs : sectionsFit spacing ss) : sectionsFit spacing ts := by
  induction ss generalizing ts with
  | nil =>
    rw [List.map_nil, eq_comm, List.map_eq_nil_iff] at h
    rw [h]
    trivial
  | cons s ss ih =>
    obtain ⟨t, ts, rfl, ht, hts⟩ := List.map_eq_cons_iff.1 h.symm
    have hempty := congrArg List.isEmpty hts
    rw [List.isEmpty_map, List.isEmpty_map] at hempty
    rw [sectionsFit, hempty]
    exact ⟨sectionFits_of_view hv ht.symm hs.1, ih hts.symm hs.2⟩

/-- Whether sections have their distances shows where types do. -/
theorem sectionsSpaced_of_view (h : ss.map (Section.view v) = ts.map (Section.view v))
    (hs : sectionsSpaced spacing v ss) : sectionsSpaced spacing v ts := by
  induction ss generalizing ts with
  | nil =>
    rw [List.map_nil, eq_comm, List.map_eq_nil_iff] at h
    rw [h]
    trivial
  | cons s ss ih =>
    obtain ⟨t, ts, rfl, ht, hts⟩ := List.map_eq_cons_iff.1 h.symm
    have hempty := congrArg List.isEmpty hts
    rw [List.isEmpty_map, List.isEmpty_map] at hempty
    rw [sectionsSpaced, hempty]
    exact ⟨sectionSpaced_of_view hv ht.symm hs.1, ih hts.symm hs.2⟩

omit hv in
/-- There is room in front of what follows. -/
theorem sectionsFit_of_suffix (h : ts <:+ ss) (hs : sectionsFit spacing ss) :
    sectionsFit spacing ts := by
  obtain ⟨front, rfl⟩ := h
  induction front with
  | nil => exact hs
  | cons s front ih => exact ih hs.2

omit hv in
/-- Sections have their distances whatever stands in front. -/
theorem sectionsSpaced_of_suffix (h : ts <:+ ss) (hs : sectionsSpaced spacing v ss) :
    sectionsSpaced spacing v ts := by
  obtain ⟨front, rfl⟩ := h
  induction front with
  | nil => exact hs
  | cons s front ih => exact ih hs.2

omit hv in
/-- Sections that have their distances are seen with them. -/
theorem sectionsSpaced_of_id (h : sectionsSpaced spacing (fun _ => id) ss) :
    sectionsSpaced spacing v ss := by
  induction ss with
  | nil => trivial
  | cons s ss ih =>
    have hlead := congrArg (List.map (v s.kind)) h.1.1
    rw [List.map_id, List.map_id] at hlead
    exact ⟨⟨hlead, blocksSpaced_of_id h.1.2⟩, ih h.2⟩

omit hv in
/-- The statements of the parts of a section are statements of the section. -/
theorem mem_statements_of_parts {r : Statement}
    (h : r ∈ leadOf s ∨ r ∈ itemsStatements ((blocksOf s).map .block)) : r ∈ s.statements := by
  refine List.mem_append_right _ (List.mem_flatMap.2 ?_)
  rcases h with h | h
  · obtain ⟨i, hi, hr⟩ := List.mem_filterMap.1 h
    cases i with
    | statement q => exact ⟨_, hi, Option.some.inj hr ▸ List.mem_singleton_self q⟩
    | block b => cases hr
  · obtain ⟨i, hi, hr⟩ := List.mem_flatMap.1 h
    obtain ⟨b, hb, rfl⟩ := List.mem_map.1 hi
    obtain ⟨j, hj, hjb⟩ := List.mem_filterMap.1 hb
    cases j with
    | statement q => cases hjb
    | block c => exact ⟨_, hj, Option.some.inj hjb ▸ hr⟩

omit hv in
/-- Where sections are spaced by the gists of their statements, they are by what shows. -/
theorem sectionsSpaced_shown {gaps : SectionKind → Bool}
    (hmarks : ∀ r ∈ ss.flatMap Section.statements, IsUnmarked r)
    (h : sectionsSpaced spacing (gistView gaps) ss) : sectionsSpaced spacing (gapView gaps) ss := by
  induction ss with
  | nil => trivial
  | cons s ss ih =>
    rw [List.flatMap_cons, List.forall_mem_append] at hmarks
    refine ⟨⟨spacedLead_shown (fun r hr => ?_) h.1.1, blocksSpaced_shown (fun r hr => ?_) h.1.2⟩,
      ih hmarks.2 h.2⟩
    · exact hmarks.1 r (mem_statements_of_parts (.inl hr))
    · exact hmarks.1 r (mem_statements_of_parts (.inr hr))

end

/-! ## Line breaks that show -/

section
variable {gaps : Bool} {s r : Statement} {newline : String}

/-- The last line ending of a statement is part of its gist. -/
theorem ending_of_gist (h : s.gist gaps = r.gist gaps) :
    (eolTexts s.tokens).getLast? = (eolTexts r.tokens).getLast? := by
  have htype : s.type = r.type := by simpa using congrArg Statement.type h
  have htokens := congrArg (fun s : Statement => (eolTexts s.tokens).getLast?) h
  by_cases he : s.type = .emptyLine
  · rw [Statement.gist_of_emptyLine he, Statement.gist_of_emptyLine (htype.symm.trans he)] at htokens
    have hshown (s : Statement) : eolTexts (s.shown gaps).markless.tokens = eolTexts s.tokens :=
      Statement.eolTexts_showTokens gaps s.tokens
    rwa [hshown, hshown] at htokens
  · have hlast (texts : List String) (last : Option String) :
        (eolTexts (texts.map (Token.create .argument) ++
          last.toList.map (Token.create .eol))).getLast? = last := by
      cases last <;> simp [eolTexts, Token.isEol, Token.create, List.filter_map, Function.comp_def]
    rw [Statement.gist, Statement.gist, htype, if_neg (htype ▸ he), if_neg (htype ▸ he)] at htokens
    dsimp only at htokens
    rwa [hlast, hlast] at htokens

/-- Whether a statement ends with a line break shows in its gist. -/
theorem isUnterminated_of_gist (hs : s.flaws = []) (hr : r.flaws = [])
    (h : s.gist gaps = r.gist gaps) : s.isUnterminated = r.isUnterminated := by
  obtain ⟨front, e, hes, he, -⟩ := concat_of_flaws hs
  obtain ⟨front', e', her, he', -⟩ := concat_of_flaws hr
  have hend := ending_of_gist h
  rw [hes, her, eolTexts_concat he, eolTexts_concat he', List.getLast?_concat,
    List.getLast?_concat, Option.some.injEq] at hend
  rw [isUnterminated_concat hes, isUnterminated_concat her, Token.isEol, Token.isEol, he, he', hend]

/-- A statement that ends with a line break needs no other. -/
theorem terminate_of_isUnterminated (hs : s.flaws = []) (h : s.isUnterminated = false) :
    s.terminate newline = s := by
  obtain ⟨front, e, hes, he, -⟩ := concat_of_flaws hs
  have hlast : s.lastEol = some e := by
    rw [Statement.lastEol, hes, List.getLast?_concat, Option.filter_some, Token.isEol, he]
    rfl
  rw [Statement.isUnterminated, hlast, Option.any_some, decide_eq_false_iff_not] at h
  exact terminate_of_terminated ⟨e, hlast, h⟩

/-- Statements that all end with line breaks need no other. -/
theorem finished_eq_self {size : Nat} {ss : List Statement} (hf : ∀ s ∈ ss, s.flaws = [])
    (h : ∀ s ∈ ss, s.isUnterminated = false) (n : Nat) : finished newline size n ss = ss := by
  induction ss generalizing n with
  | nil => rfl
  | cons s ss ih =>
    rw [List.forall_mem_cons] at hf h
    have hended : ended newline size n s = s := by
      rw [ended, terminate_of_isUnterminated hf.1 h.1, ite_self]
    rw [finished, hended, ih hf.2 h.2]

end

/-! ## The pass -/

/-- A calm file whose statements are told apart by their places. -/
structure IsSpaceable (f : File) : Prop extends f.IsCalm where
  valid : f.issues = []
  kinds : ∀ s ∈ f.sections, s.kind.isInherited = false
  labels : ∀ s ∈ f.statements, s.label = none

section
variable {setup : PassSetup} {f g y : File} {gaps : SectionKind → Bool}

/-- What the pass makes of a file, unless there would be too many lines. -/
theorem IsSpaceable.run (hf : IsSpaceable f) (hn : setup.newline ≠ "")
    (hok : (pass.apply setup f).fault = none ∨ sectionsFit (spacingOf setup) f.sections) :
    SpacedSections (spacingOf setup) f.statements.length 0 false f.sections
        (pass.apply setup f).tree.sections ∧
      finished setup.newline f.statements.length 0 f.statements =
        endLast setup.newline f.statements := by
  have hheaders := header_of_mem_tail hf.valid
  have hcalm : ∀ s ∈ f.statements, s.IsCalm := fun s hs => ⟨hf.flaws s hs, hf.silent s hs⟩
  rw [apply_eq] at hok ⊢
  refine run_calm (spacingOf setup) hf.kinds (isFinal_of_labels hf.labels hheaders)
    (fun s hs => ?_) hf.leads hheaders hn (terminated_of_issues hf.valid hf.sound.headers)
    (hok.imp_left Option.map_eq_none_iff.1)
  have hstatements : ∀ r ∈ s.statements, r.IsCalm := fun r hr =>
    hcalm r (List.mem_flatMap.2 ⟨s, hs, hr⟩)
  exact (hf.sound.sections s hs).imp (fun r hr _ => hstatements r hr) fun r hr h =>
    ⟨h.type, hstatements r hr⟩

/-- **Distances stay.**  A file in which the pass has put the lines that are configured, one at least
between blocks, and another file with the same gists as the last sections of the first: then the pass
leaves the other file as it is. -/
theorem view_again (hf : IsSpaceable f) (hg : IsSpaceable g)
    (hmarks : ∀ s ∈ g.statements, IsUnmarked s) (hn : setup.newline ≠ "")
    (hbetween : ∀ type, 1 ≤ (spacingOf setup).between type)
    (hfault : (pass.apply setup f).fault = none) (hy : y.IsCalm)
    (hpart : y.sections <:+ (pass.apply setup f).tree.sections)
    (h : y.view (gistView gaps) = g.view (gistView gaps)) :
    (pass.apply setup g).tree.view (gapView gaps) = g.view (gapView gaps) := by
  obtain ⟨hspaced, hall⟩ := hf.run hn (.inl hfault)
  have hsections : y.sections.map (Section.view (gistView gaps)) =
      g.sections.map (Section.view (gistView gaps)) := congrArg File.sections h
  have hgist : ∀ kind s, (gistView gaps kind s).type = s.type :=
    fun kind s => s.gist_type (gaps kind)
  have hfits := sectionsFit_of_view hgist hsections (sectionsFit_of_suffix hpart hspaced.fits)
  have hseen := sectionsSpaced_shown hmarks (sectionsSpaced_of_view hgist hsections
    (sectionsSpaced_of_suffix hpart (sectionsSpaced_of_id (hspaced.spaced hbetween))))
  have hends : ∀ s ∈ g.statements, s.isUnterminated = false := by
    intro s hs
    obtain ⟨r, hr, kind, hsame⟩ := File.exists_of_view h s hs
    rw [← isUnterminated_of_gist (hy.flaws r hr) (hg.flaws s hs) hsame]
    obtain ⟨q, hq, hr⟩ := List.mem_flatMap.1 hr
    rcases hspaced.respaced.mem r (List.mem_flatMap.2 ⟨q, hpart.subset hq, hr⟩) with hr | rfl
    · have hclosed := forall_endLast hn (terminated_of_issues hf.valid hf.sound.headers)
      exact hclosed r (hall ▸ hr)
    · exact isUnterminated_emptyLine hn
  obtain ⟨hagain, -⟩ := hg.run hn (.inr hfits)
  have hview := hagain.rests (v := gapView gaps) (fun _ _ => rfl) hseen
    (finished_eq_self hg.flaws hends 0)
  have hfile : (pass.apply setup g).tree =
      { g with sections := (pass.apply setup g).tree.sections } := by
    rw [apply_eq, run_eq]
    rfl
  rw [hfile, File.view, File.view, hview]

end

end EmptyLines
end RobotSuite
