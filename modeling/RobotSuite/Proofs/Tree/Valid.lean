/-
# Valid models

What is checked of a tree is of two kinds.  Each statement must be free of flaws and stand
where it may stand, and all sections but the first need headers: such a file is well placed
(`File.WellPlaced`).  And all statements but the last must end with line breaks (`separated`).
A file is valid if both hold (`File.WellPlaced.issues_eq_nil`), and no valid file is anything
but well placed (`wellPlaced_of_issues`).
-/

import RobotSuite.Proofs.Tree.Sound

namespace RobotSuite

/-- A section whose statements have no flaw and stand where they may stand. -/
structure Section.WellPlaced (s : Section) : Prop where
  header : ∀ h ∈ s.header, h.issues = []
  items : itemsIssues s.kind false s.body = []

/-- The kind by which statements are checked where the kind of a section lists none. -/
def SectionKind.listed : SectionKind → SectionKind
  | .inherited _ => .comments
  | kind => kind

/-- A section that is well placed, but for a kind that lists no statements. -/
structure Section.AlmostPlaced (s : Section) : Prop where
  header : ∀ h ∈ s.header, h.issues = []
  items : itemsIssues s.kind.listed false s.body = []

/-- A file whose sections are well placed, and all but the first have headers. -/
structure File.WellPlaced (f : File) : Prop where
  sections : ∀ s ∈ f.sections, s.WellPlaced
  headers : ∀ s ∈ f.sections.tail, s.header ≠ none

/-- Items with all statements in front of all blocks. -/
def leadsBlocks (items : List SectionItem) : Prop :=
  ∃ (lead : List Statement) (blocks : List Block),
    items = lead.map .statement ++ blocks.map .block

/-- Whether all statements but the last end with line breaks. -/
def separated (ss : List Statement) : Prop := ∀ s ∈ ss.dropLast, s.isUnterminated = false

/-! ## Line breaks between statements -/

section
variable {a b : List Statement}

/-- Statements that all end their lines are separated. -/
theorem separated_of_forall (h : ∀ s ∈ a, s.isUnterminated = false) : separated a :=
  fun s hs => h s (List.dropLast_subset _ hs)

/-- Ended statements in front keep the others separated. -/
theorem separated.append (ha : ∀ s ∈ a, s.isUnterminated = false) (hb : separated b) :
    separated (a ++ b) :=
  dropLast_append_of_ne_nil ha hb

/-- In front of other statements every statement ends with a line break. -/
theorem separated.left (h : separated (a ++ b)) (hb : b ≠ []) :
    ∀ s ∈ a, s.isUnterminated = false := by
  intro s hs
  refine h s ?_
  rw [List.dropLast_append_of_ne_nil hb]
  exact List.mem_append_left _ hs

/-- The second part of separated statements is separated. -/
theorem separated.right (h : separated (a ++ b)) : separated b := by
  intro s hs
  have hb : b ≠ [] := by
    rintro rfl
    simp at hs
  refine h s ?_
  rw [List.dropLast_append_of_ne_nil hb]
  exact List.mem_append_right _ hs

/-- The first part of separated statements is separated. -/
theorem separated.front (h : separated (a ++ b)) : separated a := by
  cases b with
  | nil => rwa [List.append_nil] at h
  | cons s b => exact separated_of_forall (h.left (List.cons_ne_nil s b))

/-- No break is missing exactly when the statements are separated. -/
theorem breakIssues_eq_nil : breakIssues a = [] ↔ separated a := by
  rw [breakIssues, List.map_eq_nil_iff, List.filter_eq_nil_iff]
  simp [separated]

end

/-! ## Parts of the check -/

/-- A statement has no issues in a body when it belongs there and has none itself. -/
theorem Statement.bodyIssues_eq_nil {s : Statement} :
    s.bodyIssues = [] ↔ s.type.inBody = true ∧ s.issues = [] := by
  rw [bodyIssues]
  split <;> simp_all

/-- A block has no issues when its parts have none and fit it. -/
theorem ControlBlock.issues_eq_nil {type : ControlType} {span : Span} {header : Statement}
    {body : List BodyItem} {branches : List Branch} {close : Option Statement}
    {label : Option Nat} :
    (⟨type, span, header, body, branches, close, label⟩ : ControlBlock).issues = [] ↔
      header.issues = [] ∧ bodyIssues body = [] ∧ branchesIssues type branches = [] ∧
        ∃ s, close = some s ∧ s.issues = [] := by
  cases close with
  | none => simp [issues]
  | some s =>
    rw [issues, List.append_eq_nil_iff, List.append_eq_nil_iff, List.append_eq_nil_iff, and_assoc,
      and_assoc]
    simp

/-- Branches have no issues when the first has none and the others have none. -/
theorem branchesIssues_cons {type : ControlType} {span : Span} {header : Statement}
    {body : List BodyItem} {label : Option Nat} {rest : List Branch} :
    branchesIssues type (⟨span, header, body, label⟩ :: rest) = [] ↔
      header.issues = [] ∧ type.takesBranch header.type = true ∧ bodyIssues body = [] ∧
        branchesIssues type rest = [] := by
  rw [branchesIssues, List.append_eq_nil_iff, List.append_eq_nil_iff, List.append_eq_nil_iff,
    and_assoc, and_assoc]
  cases type.takesBranch header.type <;> simp

section
variable {kind : SectionKind} {seen : Bool} {rest : List SectionItem}

/-- A statement of a section belongs there, in front of the blocks. -/
theorem itemsIssues_statement {s : Statement} :
    itemsIssues kind seen (.statement s :: rest) = [] ↔
      s.type.isListed kind = true ∧ seen = false ∧ s.issues = [] ∧
        itemsIssues kind seen rest = [] := by
  rw [itemsIssues, List.append_eq_nil_iff, List.append_eq_nil_iff]
  cases s.type.isListed kind <;> cases seen <;> simp

/-- A block of a section belongs there. -/
theorem itemsIssues_block {b : Block} :
    itemsIssues kind seen (.block b :: rest) = [] ↔
      b.type.inSection kind = true ∧ b.issues = [] ∧ itemsIssues kind true rest = [] := by
  rw [itemsIssues, List.append_eq_nil_iff, List.append_eq_nil_iff]
  cases b.type.inSection kind <;> simp

end

/-- Where nothing is wrong with items, nothing is wrong with them by a kind that lists
statements. -/
theorem itemsIssues_listed {kind : SectionKind} {seen : Bool} {items : List SectionItem}
    (h : itemsIssues kind seen items = []) : itemsIssues kind.listed seen items = [] := by
  cases kind with
  | inherited name =>
    cases items with
    | nil => rfl
    | cons item items =>
      cases item with
      | statement s => simp [itemsIssues, StatementType.isListed, SectionKind.isInherited] at h
      | block b =>
        have hb := (itemsIssues_block.1 h).1
        cases ht : b.type <;> simp [ht, BlockType.inSection] at hb
  | _ => exact h

/-- A well-placed section is almost placed. -/
theorem Section.WellPlaced.almost {s : Section} (h : s.WellPlaced) : s.AlmostPlaced :=
  ⟨h.header, itemsIssues_listed h.items⟩

/-- Statements of a section that is almost placed have no flaw. -/
theorem Section.AlmostPlaced.flaws {s : Section} (h : s.AlmostPlaced) :
    ∀ r ∈ s.statements, r.flaws = [] := by
  intro r hr
  rcases List.mem_append.1 hr with hr | hr
  · exact Statement.issues_eq_nil (h.header r (Option.mem_toList.1 hr))
  · exact items_flaws_of_issues h.items r hr

section
variable {s : Section} {f : File}

/-- A section has no issues when it is well placed and its items are separated. -/
theorem section_issues_iff :
    s.issues = [] ↔ s.WellPlaced ∧ separated (itemsStatements s.body) := by
  rw [Section.issues, sectionIssues, List.append_eq_nil_iff, List.append_eq_nil_iff,
    breakIssues_eq_nil]
  constructor
  · rintro ⟨hheader, hitems, hbreaks⟩
    refine ⟨⟨fun h hh => ?_, hitems⟩, hbreaks⟩
    rw [Option.mem_def.1 hh] at hheader
    exact hheader
  · rintro ⟨hplaced, hbreaks⟩
    refine ⟨?_, hplaced.items, hbreaks⟩
    cases hh : s.header with
    | none => rfl
    | some h => exact hplaced.header h hh

/-- Sections behind the first have no issues when each has a header and none. -/
theorem eachSectionIssues_false {ss : List Section} :
    eachSectionIssues false ss = [] ↔ ∀ s ∈ ss, s.header ≠ none ∧ s.issues = [] := by
  induction ss with
  | nil => simp [eachSectionIssues]
  | cons s ss ih =>
    rw [eachSectionIssues, List.append_eq_nil_iff, List.append_eq_nil_iff, ih]
    cases hh : s.header <;> simp [hh]

/-- Sections have no issues when each has none and all but the first a header. -/
theorem eachSectionIssues_true {ss : List Section} :
    eachSectionIssues true ss = [] ↔
      (∀ s ∈ ss, s.issues = []) ∧ ∀ s ∈ ss.tail, s.header ≠ none := by
  cases ss with
  | nil => simp [eachSectionIssues]
  | cons s ss =>
    rw [eachSectionIssues, List.append_eq_nil_iff, List.append_eq_nil_iff,
      eachSectionIssues_false]
    simp only [Bool.not_true, Bool.and_false, Bool.false_eq_true, if_false, true_and,
      List.forall_mem_cons, List.tail_cons]
    constructor
    · rintro ⟨hs, hss⟩
      exact ⟨⟨hs, fun r hr => (hss r hr).2⟩, fun r hr => (hss r hr).1⟩
    · rintro ⟨⟨hs, hss⟩, hheaders⟩
      exact ⟨hs, fun r hr => ⟨hheaders r hr, hss r hr⟩⟩

/-- A valid file is well placed. -/
theorem wellPlaced_of_issues (h : f.issues = []) : f.WellPlaced :=
  ⟨fun s hs => (section_issues_iff.1 (section_issues_of_issues h s hs)).1, header_of_mem_tail h⟩

/-- Every item holds a statement. -/
theorem itemsStatements_eq_nil {items : List SectionItem} (h : itemsStatements items = []) :
    items = [] := by
  cases items with
  | nil => rfl
  | cons item items =>
    cases item <;> simp [itemsStatements, SectionItem.statements, Block.statements] at h

/-- A section with a header holds a statement. -/
theorem Section.statements_ne_nil (h : s.header ≠ none) : s.statements ≠ [] := by
  obtain ⟨r, hr⟩ := Option.ne_none_iff_exists'.1 h
  simp [Section.statements, hr]

/-- No section in front of another ends without a line break. -/
theorem openEnd?_of_separated {ss : List Section} (h : separated (ss.flatMap Section.statements))
    (hh : ∀ s ∈ ss.tail, s.header ≠ none) : ∀ s ∈ ss.dropLast, s.openEnd? = none := by
  induction ss with
  | nil => simp
  | cons r ss ih =>
    cases ss with
    | nil => simp
    | cons next ss =>
      rw [List.flatMap_cons] at h
      intro s hs
      rw [List.dropLast_cons_of_ne_nil (by simp)] at hs
      rcases List.mem_cons.1 hs with rfl | hs
      · have hnext : (next :: ss).flatMap Section.statements ≠ [] := by
          rw [List.flatMap_cons]
          exact List.append_ne_nil_of_left_ne_nil
            (Section.statements_ne_nil (hh next List.mem_cons_self)) _
        rw [Section.openEnd?, Option.filter_eq_none_iff]
        intro t ht
        simpa using h.left hnext t (List.mem_of_getLast? ht)
      · exact ih h.right (fun t ht => hh t (List.mem_cons_of_mem _ ht)) s hs

/-- **A well-placed file whose statements are separated is valid.** -/
theorem File.WellPlaced.issues_eq_nil (h : f.WellPlaced) (hs : separated f.statements) :
    f.issues = [] := by
  rw [File.issues, sectionsIssues, List.append_eq_nil_iff, eachSectionIssues_true,
    List.map_eq_nil_iff, List.filterMap_eq_nil_iff]
  refine ⟨⟨fun s hmem => section_issues_iff.2 ⟨h.sections s hmem, ?_⟩, h.headers⟩,
    openEnd?_of_separated hs h.headers⟩
  obtain ⟨front, back, hsplit⟩ := List.append_of_mem hmem
  rw [File.statements, hsplit, List.flatMap_append, List.flatMap_cons, Section.statements] at hs
  have hbody := hs.right
  rw [List.append_assoc] at hbody
  have hbody := hbody.right
  cases hback : back.flatMap Section.statements with
  | nil => simpa [hback] using hbody
  | cons t ts => exact separated_of_forall (hbody.left (by simp [hback]))

end

end RobotSuite
