/-
# Sound models

A model is sound when each statement is laid out as the grammar of lines has it and is of
the type that its tokens are read as, and when the tree is well formed.  That is what reading
makes of a source without defects, and what formatting keeps.

What the check of a tree finds is of another kind: line breaks (`flaws_of_mem_statements`,
`terminated_of_issues`), statements behind blocks (`items_of_issues`), and sections without
header (`header_of_mem_tail`).
-/

import RobotSuite.Proofs.Tree.Outline

namespace RobotSuite

/-- A statement that is laid out, and of the type that its tokens have in a section. -/
structure Statement.IsSound (kind : SectionKind) (s : Statement) : Prop where
  laid : Laid false (splitLines s.tokens)
  reads : ReadsAs kind s.type s.tokens

/-- Whether a header stands for a kind: it opens sections of the kind, or it is what a missing
header is written as. -/
def Opens (kind : SectionKind) (header : String) : Prop :=
  SectionKind.ofHeader? header = some kind ∨
    kind.isInherited = true ∧ header = SectionKind.missingHeader

/-- A header that is laid out and opens a section of a kind. -/
structure Statement.IsHeader (kind : SectionKind) (s : Statement) : Prop where
  type : s.type = .sectionHeader
  laid : Laid true (splitLines s.tokens)
  opens : Opens kind s.nameText

/-- The type of the statement that names a block. -/
def BlockType.nameType : BlockType → StatementType
  | .testCase => .testCaseName
  | .keyword => .keywordName

/-- Whether an item may stand in a section of a kind and a property holds of its statements. -/
def SectionItem.Holds (P : Statement → Prop) (kind : SectionKind) : SectionItem → Prop
  | .statement s => s.type.inSection kind = true ∧ P s
  | .block b =>
    (b.type.inSection kind = true ∧ b.header.type = b.type.nameType ∧ P b.header) ∧
      bodyHolds P b.body

/-- A section that is well formed, with properties of its statements and of its header. -/
structure Section.Holds (S H : SectionKind → Statement → Prop) (s : Section) : Prop where
  header : ∀ h ∈ s.header, H s.kind h
  headerless : s.header = none → s.kind = .comments
  items : ∀ item ∈ s.body, item.Holds (S s.kind) s.kind

/-- A section whose header opens it and whose statements are sound. -/
abbrev Section.IsSound (s : Section) : Prop := s.Holds Statement.IsSound Statement.IsHeader

/-- Whether nothing stands behind a header without line break. -/
def headersEnd : List Section → Prop
  | [] => True
  | s :: rest =>
    ((∃ h ∈ s.header, h.isUnterminated = true) → s.body = [] ∧ rest = []) ∧ headersEnd rest

/-- A file whose sections are sound. -/
structure File.IsSound (f : File) : Prop where
  sections : ∀ s ∈ f.sections, s.IsSound
  headers : headersEnd f.sections

/-! ## What is checked of a tree -/

/-- A statement without issues has no flaws. -/
theorem Statement.issues_eq_nil {s : Statement} (h : s.issues = []) : s.flaws = [] := by
  simpa [Statement.issues] using h

mutual

/-- The statements of an item without issues have no flaws. -/
theorem BodyItem.flaws_of_issues : ∀ {item : BodyItem}, item.issues = [] →
    ∀ s ∈ item.statements, s.flaws = []
  | .statement r, h, s, hs => by
    rw [BodyItem.issues, Statement.bodyIssues] at h
    rw [BodyItem.statements, List.mem_singleton] at hs
    subst hs
    split at h
    · exact Statement.issues_eq_nil h
    · simp at h
  | .control c, h, s, hs => by
    rw [BodyItem.issues] at h
    rw [BodyItem.statements] at hs
    exact ControlBlock.flaws_of_issues h s hs

/-- The same for a control block. -/
theorem ControlBlock.flaws_of_issues : ∀ {c : ControlBlock}, c.issues = [] →
    ∀ s ∈ c.statements, s.flaws = []
  | ⟨_, _, header, body, branches, none, _⟩, h, s, hs => by
    simp [ControlBlock.issues] at h
  | ⟨_, _, header, body, branches, some close, _⟩, h, s, hs => by
    rw [ControlBlock.issues, List.append_eq_nil_iff, List.append_eq_nil_iff,
      List.append_eq_nil_iff] at h
    obtain ⟨⟨⟨hh, hb⟩, hbs⟩, hc⟩ := h
    simp only [ControlBlock.statements, List.mem_cons, List.mem_append, Option.mem_toList,
      Option.some.injEq] at hs
    rcases hs with rfl | (hs | hs) | rfl
    · exact Statement.issues_eq_nil hh
    · exact body_flaws_of_issues hb s hs
    · exact branches_flaws_of_issues hbs s hs
    · exact Statement.issues_eq_nil hc

/-- The same for a body. -/
theorem body_flaws_of_issues : ∀ {items : List BodyItem}, bodyIssues items = [] →
    ∀ s ∈ bodyStatements items, s.flaws = []
  | [], _, s, hs => by simp [bodyStatements] at hs
  | item :: items, h, s, hs => by
    rw [bodyIssues, List.append_eq_nil_iff] at h
    rw [bodyStatements, List.mem_append] at hs
    rcases hs with hs | hs
    · exact BodyItem.flaws_of_issues h.1 s hs
    · exact body_flaws_of_issues h.2 s hs

/-- The same for the branches of a block. -/
theorem branches_flaws_of_issues {type : ControlType} : ∀ {bs : List Branch},
    branchesIssues type bs = [] → ∀ s ∈ branchesStatements bs, s.flaws = []
  | [], _, s, hs => by simp [branchesStatements] at hs
  | ⟨_, header, body, _⟩ :: bs, h, s, hs => by
    rw [branchesIssues, List.append_eq_nil_iff, List.append_eq_nil_iff,
      List.append_eq_nil_iff] at h
    obtain ⟨⟨⟨hh, -⟩, hb⟩, hbs⟩ := h
    simp only [branchesStatements, Branch.statements, List.cons_append, List.mem_cons,
      List.mem_append] at hs
    rcases hs with rfl | hs | hs
    · exact Statement.issues_eq_nil hh
    · exact body_flaws_of_issues hb s hs
    · exact branches_flaws_of_issues hbs s hs

end

/-- The same for the items of a section. -/
theorem items_flaws_of_issues {kind : SectionKind} {seen : Bool} {items : List SectionItem}
    (h : itemsIssues kind seen items = []) : ∀ s ∈ itemsStatements items, s.flaws = [] := by
  induction items generalizing seen with
  | nil => simp [itemsStatements]
  | cons item items ih =>
    intro s hs
    rw [itemsStatements, List.flatMap_cons, List.mem_append] at hs
    cases item with
    | statement r =>
      rw [itemsIssues, List.append_eq_nil_iff, List.append_eq_nil_iff] at h
      rcases hs with hs | hs
      · obtain rfl := List.mem_singleton.1 hs
        exact Statement.issues_eq_nil h.1.2
      · exact ih h.2 s hs
    | block b =>
      rw [itemsIssues, List.append_eq_nil_iff, List.append_eq_nil_iff] at h
      rcases hs with hs | hs
      · have hb := h.1.2
        rw [Block.issues, List.append_eq_nil_iff] at hb
        rcases List.mem_cons.1 hs with rfl | hs
        · exact Statement.issues_eq_nil hb.1
        · exact body_flaws_of_issues hb.2 s hs
      · exact ih h.2 s hs

/-- The same for a section. -/
theorem section_flaws_of_issues {sect : Section} (h : sect.issues = []) :
    ∀ s ∈ sect.statements, s.flaws = [] := by
  intro s hs
  rw [Section.issues, sectionIssues, List.append_eq_nil_iff, List.append_eq_nil_iff] at h
  rw [Section.statements, List.mem_append, Option.mem_toList] at hs
  rcases hs with hs | hs
  · rw [hs] at h
    exact Statement.issues_eq_nil h.1
  · exact items_flaws_of_issues h.2.1 s hs

/-- Sections without issues together have none each. -/
theorem section_issues_of_each {first : Bool} {ss : List Section}
    (h : eachSectionIssues first ss = []) : ∀ s ∈ ss, s.issues = [] := by
  induction ss generalizing first with
  | nil => simp
  | cons r ss ih =>
    rw [eachSectionIssues, List.append_eq_nil_iff, List.append_eq_nil_iff] at h
    intro s hs
    rcases List.mem_cons.1 hs with rfl | hs
    · exact h.1.2
    · exact ih h.2 s hs

section
variable {f : File}

/-- The sections of a valid file have no issues. -/
theorem section_issues_of_issues (h : f.issues = []) : ∀ s ∈ f.sections, s.issues = [] := by
  rw [File.issues, sectionsIssues, List.append_eq_nil_iff] at h
  exact section_issues_of_each h.1

/-- Statements of a valid file have no flaw. -/
theorem flaws_of_mem_statements (h : f.issues = []) : ∀ s ∈ f.statements, s.flaws = [] := by
  intro s hs
  obtain ⟨sect, hsect, hs⟩ := List.mem_flatMap.1 hs
  exact section_flaws_of_issues (section_issues_of_issues h sect hsect) s hs

/-- Sections of a valid file but the first have headers. -/
theorem header_of_mem_tail (h : f.issues = []) : ∀ s ∈ f.sections.tail, s.header ≠ none := by
  have hlate {ss : List Section} (h : eachSectionIssues false ss = []) :
      ∀ s ∈ ss, s.header ≠ none := by
    induction ss with
    | nil => simp
    | cons r ss ih =>
      rw [eachSectionIssues, List.append_eq_nil_iff, List.append_eq_nil_iff] at h
      intro s hs
      rcases List.mem_cons.1 hs with rfl | hs
      · intro hn
        simp [hn] at h
      · exact ih h.2 s hs
  rw [File.issues, sectionsIssues, List.append_eq_nil_iff] at h
  cases hs : f.sections with
  | nil => simp
  | cons r ss =>
    rw [hs, eachSectionIssues, List.append_eq_nil_iff] at h
    exact hlate h.1.2

/-- In a valid section the statements stand in front of the blocks. -/
theorem items_of_issues {kind : SectionKind} {items : List SectionItem}
    (h : itemsIssues kind false items = []) :
    ∃ (lead : List Statement) (blocks : List Block),
      items = lead.map .statement ++ blocks.map .block := by
  have hblocks {items : List SectionItem} (h : itemsIssues kind true items = []) :
      ∃ blocks : List Block, items = blocks.map .block := by
    induction items with
    | nil => exact ⟨[], rfl⟩
    | cons item items ih =>
      cases item with
      | statement s =>
        rw [itemsIssues, List.append_eq_nil_iff, List.append_eq_nil_iff] at h
        have := h.1.1
        split at this <;> simp at this
      | block b =>
        rw [itemsIssues, List.append_eq_nil_iff] at h
        obtain ⟨blocks, rfl⟩ := ih h.2
        exact ⟨b :: blocks, rfl⟩
  induction items with
  | nil => exact ⟨[], [], rfl⟩
  | cons item items ih =>
    cases item with
    | statement s =>
      rw [itemsIssues, List.append_eq_nil_iff] at h
      obtain ⟨lead, blocks, rfl⟩ := ih h.2
      exact ⟨s :: lead, blocks, rfl⟩
    | block b =>
      rw [itemsIssues, List.append_eq_nil_iff] at h
      obtain ⟨blocks, rfl⟩ := hblocks h.2
      exact ⟨[], b :: blocks, rfl⟩

end

/-- A section with which nothing is wrong can be checked. -/
theorem isUncheckable_of_issues {kind : SectionKind} {items : List SectionItem}
    (h : sectionIssues kind items = []) : isUncheckable kind items = false := by
  rw [sectionIssues, List.append_eq_nil_iff] at h
  replace h := h.1
  cases hkind : kind.isInherited with
  | false => rw [isUncheckable, hkind, Bool.false_and]
  | true =>
    rw [isUncheckable, hkind, Bool.true_and, List.any_eq_false]
    generalize false = seen at h
    induction items generalizing seen with
    | nil => simp
    | cons item items ih =>
      cases item with
      | statement s => simp [itemsIssues, StatementType.isListed, hkind] at h
      | block b =>
        rw [itemsIssues, List.append_eq_nil_iff] at h
        simpa [SectionItem.isBlock] using ih _ h.2

/-- Sections with which nothing is wrong can be checked. -/
theorem any_isUncheckable_of_issues {ss : List Section} (h : sectionsIssues ss = []) :
    (ss.any fun s => s.isUncheckable) = false := by
  rw [sectionsIssues, List.append_eq_nil_iff] at h
  have heach := section_issues_of_each h.1
  refine List.any_eq_false.2 fun s hs => ?_
  have hs := heach s hs
  rw [Section.issues, List.append_eq_nil_iff] at hs
  rw [Section.isUncheckable, isUncheckable_of_issues hs.2]
  exact Bool.false_ne_true

/-- A file with which nothing is wrong can be checked. -/
theorem File.isUncheckable_of_issues {f : File} (h : f.issues = []) : f.isUncheckable = false :=
  any_isUncheckable_of_issues h

/-- A check finds nothing exactly if nothing is wrong. -/
theorem File.check_eq_ok_nil_iff {f : File} : f.check = .ok [] ↔ f.issues = [] := by
  rw [File.check, Container.check, Container.isUncheckable, Container.issues]
  split
  · rename_i hcheck
    exact ⟨fun h => (by cases h), fun h => by simp [File.isUncheckable_of_issues h] at hcheck⟩
  · exact ⟨Except.ok.inj, congrArg _⟩

/-! ## Line breaks -/

/-- What holds of the first part and of the second but its last holds of both but the last. -/
theorem dropLast_append_of_ne_nil {α : Type} {P : α → Prop} {a b : List α}
    (ha : ∀ x ∈ a, P x) (hb : ∀ x ∈ b.dropLast, P x) : ∀ x ∈ (a ++ b).dropLast, P x := by
  intro x hx
  cases b with
  | nil =>
    rw [List.append_nil] at hx
    exact ha x (List.dropLast_subset _ hx)
  | cons y b =>
    rw [List.dropLast_append_of_ne_nil (by simp), List.mem_append] at hx
    rcases hx with hx | hx
    · exact ha x hx
    · exact hb x hx

/-- An element of a list is its last or stands before it. -/
theorem mem_dropLast_or_getLast? {α : Type} {xs : List α} {x : α} (h : x ∈ xs) :
    x ∈ xs.dropLast ∨ xs.getLast? = some x := by
  rcases List.eq_nil_or_concat xs with rfl | ⟨front, last, rfl⟩
  · simp at h
  · rw [List.concat_eq_append] at h ⊢
    simpa [eq_comm] using h

/-- The statements of a valid section that is sound but the last end with a line break. -/
theorem section_terminated_of_issues {sect : Section} (h : sect.issues = [])
    (hh : (∃ r ∈ sect.header, r.isUnterminated = true) → sect.body = []) :
    ∀ s ∈ sect.statements.dropLast, s.isUnterminated = false := by
  rw [Section.issues, sectionIssues, List.append_eq_nil_iff, List.append_eq_nil_iff,
    breakIssues, List.map_eq_nil_iff, List.filter_eq_nil_iff] at h
  have hitems : ∀ s ∈ (itemsStatements sect.body).dropLast, s.isUnterminated = false := by
    intro s hs
    simpa using h.2.2 s hs
  cases hr : sect.header with
  | none => simpa [Section.statements, hr] using hitems
  | some r =>
    cases hterm : r.isUnterminated with
    | true =>
      have := hh ⟨r, hr, hterm⟩
      simp [Section.statements, hr, this, itemsStatements]
    | false =>
      rw [Section.statements, hr]
      refine dropLast_append_of_ne_nil ?_ hitems
      simpa using hterm

/-- A section without an open end ends its last line. -/
theorem Section.openEnd?_eq_none {sect : Section} (h : sect.openEnd? = none) :
    ∀ s ∈ sect.statements.getLast?, s.isUnterminated = false := by
  intro s hs
  rw [Section.openEnd?, hs] at h
  simpa [Option.filter_eq_none_iff] using h

/-- **All statements of a valid file but the last end with a line break.** -/
theorem terminated_of_issues {f : File} (h : f.issues = []) (hf : headersEnd f.sections) :
    ∀ s ∈ f.statements.dropLast, s.isUnterminated = false := by
  have heach := section_issues_of_issues h
  rw [File.issues, sectionsIssues, List.append_eq_nil_iff, List.map_eq_nil_iff,
    List.filterMap_eq_nil_iff] at h
  have hopen := h.2
  rw [File.statements]
  generalize f.sections = ss at heach hopen hf
  induction ss with
  | nil => simp
  | cons sect ss ih =>
    obtain ⟨hh, hrest⟩ := hf
    have hsect := section_terminated_of_issues (heach sect List.mem_cons_self) fun hr => (hh hr).1
    rw [List.flatMap_cons]
    by_cases hss : ss = []
    · simpa [hss] using hsect
    · have hend := Section.openEnd?_eq_none (hopen sect (by
        rw [List.dropLast_cons_of_ne_nil hss]
        exact List.mem_cons_self))
      refine dropLast_append_of_ne_nil (fun s hs => ?_) (ih ?_ ?_ hrest)
      · rcases mem_dropLast_or_getLast? hs with hs | hs
        · exact hsect s hs
        · exact hend s hs
      · exact fun s hs => heach s (List.mem_cons_of_mem _ hs)
      · intro s hs
        refine hopen s ?_
        rw [List.dropLast_cons_of_ne_nil hss]
        exact List.mem_cons_of_mem _ hs

end RobotSuite
