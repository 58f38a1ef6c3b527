/-
# Outlines

The outline of a file is what a reader of its text makes of it: the sections, blocks,
branches and statements as they are nested, each statement with its type, the texts of its
cells and those of its comments.  Gaps, line endings, places and labels are left out, and so
is a section that holds no statement.

A tree is well formed when its statements stand where the grammar of bodies has them
(`bodyHolds`).  Nesting the statements of such a body, or others with the same outlines,
makes a tree with the same outline (`nest_outline`).
-/

import RobotSuite.Proofs.Statement.Reading
import RobotSuite.Proofs.Tree.BlockGrammar

namespace RobotSuite

/-- A statement or container without anything that only its layout tells. -/
inductive Outline where
  /-- A statement: its type, the texts of its cells and of its comments. -/
  | leaf (type : StatementType) (cells comments : List String)
  /-- A container and what is in it. -/
  | node (type : NodeType) (children : List Outline)

mutual

/-- Whether two outlines are the same. -/
def Outline.decEq : (a b : Outline) → Decidable (a = b)
  | .leaf type cells comments, .leaf type' cells' comments' =>
    decidable_of_iff (type = type' ∧ cells = cells' ∧ comments = comments') (by simp)
  | .node type children, .node type' children' =>
    have := decEqOutlines children children'
    decidable_of_iff (type = type' ∧ children = children') (by simp)
  | .leaf .., .node .. => isFalse nofun
  | .node .., .leaf .. => isFalse nofun

/-- Whether outlines are the same. -/
def decEqOutlines : (a b : List Outline) → Decidable (a = b)
  | [], [] => isTrue rfl
  | o :: os, o' :: os' =>
    have := o.decEq o'
    have := decEqOutlines os os'
    decidable_of_iff (o = o' ∧ os = os') (by simp)
  | [], _ :: _ => isFalse nofun
  | _ :: _, [] => isFalse nofun

end

instance : DecidableEq Outline := Outline.decEq

/-- The outline of a statement. -/
def Statement.outline (s : Statement) : Outline :=
  .leaf s.type (dataTexts s.tokens) (commentTexts s.tokens)

mutual

/-- The outline of a body item. -/
def BodyItem.outline : BodyItem → Outline
  | .statement s => s.outline
  | .control c => c.outline

/-- The outline of a control block: header, body, branches, END. -/
def ControlBlock.outline : ControlBlock → Outline
  | ⟨type, _, header, body, branches, close, _⟩ =>
    .node (.control type)
      (header.outline ::
        (bodyOutline body ++ branchesOutline branches ++ (close.map Statement.outline).toList))

/-- The outlines of the items of a body. -/
def bodyOutline : List BodyItem → List Outline
  | [] => []
  | item :: items => item.outline :: bodyOutline items

/-- The outline of a branch. -/
def Branch.outline : Branch → Outline
  | ⟨_, header, body, _⟩ => .node .branch (header.outline :: bodyOutline body)

/-- The outlines of the branches of a block. -/
def branchesOutline : List Branch → List Outline
  | [] => []
  | b :: bs => b.outline :: branchesOutline bs

end

/-- The outline of a block. -/
def Block.outline (b : Block) : Outline :=
  .node (.block b.type) (b.header.outline :: bodyOutline b.body)

/-- The outline of a section item. -/
def SectionItem.outline : SectionItem → Outline
  | .statement s => s.outline
  | .block b => b.outline

/-- A section without anything that only its layout tells. -/
structure SectionOutline where
  /-- What the section holds. -/
  kind : SectionKind
  /-- Its header. -/
  header : Option Outline
  /-- Its items. -/
  items : List Outline
deriving DecidableEq

/-- The outline of a section. -/
def Section.outline (s : Section) : SectionOutline :=
  ⟨s.kind, s.header.map Statement.outline, s.body.map SectionItem.outline⟩

/-- The outline of a file. -/
def File.outline (f : File) : List SectionOutline :=
  (f.sections.filter fun s => !s.statements.isEmpty).map Section.outline

/-- The outlines of two bodies come one after the other. -/
theorem bodyOutline_append (a b : List BodyItem) :
    bodyOutline (a ++ b) = bodyOutline a ++ bodyOutline b := by
  induction a with
  | nil => rfl
  | cons i a ih => simp [bodyOutline, ih]

/-- The outline tells the type. -/
theorem Statement.type_of_outline {s r : Statement} (h : s.outline = r.outline) :
    s.type = r.type := by
  unfold outline at h
  injection h

/-! ## Well-formed trees -/

section
variable (P : Statement → Prop)

mutual

/-- Whether a body item is well formed and a property holds of its statements. -/
def BodyItem.Holds : BodyItem → Prop
  | .statement s => s.type.inBody = true ∧ P s
  | .control c => c.Holds

/-- Whether a control block is well formed and a property holds of its statements. -/
def ControlBlock.Holds : ControlBlock → Prop
  | ⟨type, _, header, body, branches, close, _⟩ =>
    (header.type = type.opener ∧ P header) ∧ bodyHolds body ∧ branchesHold type branches ∧
      ∃ s, close = some s ∧ s.type = .blockEnd ∧ P s

/-- Whether a body is well formed and a property holds of its statements. -/
def bodyHolds : List BodyItem → Prop
  | [] => True
  | item :: items => item.Holds ∧ bodyHolds items

/-- Whether a branch fits a control block and a property holds of its statements. -/
def Branch.Holds (type : ControlType) : Branch → Prop
  | ⟨_, header, body, _⟩ => (header.type ∈ type.branchHeaders ∧ P header) ∧ bodyHolds body

/-- Whether branches fit a control block and a property holds of their statements. -/
def branchesHold (type : ControlType) : List Branch → Prop
  | [] => True
  | b :: bs => b.Holds type ∧ branchesHold type bs

end

end

section
variable {P Q : Statement → Prop}

/-- What holds of two bodies holds of both together. -/
theorem bodyHolds_append {a b : List BodyItem} :
    bodyHolds P (a ++ b) ↔ bodyHolds P a ∧ bodyHolds P b := by
  induction a with
  | nil => simp [bodyHolds]
  | cons i a ih => simp [bodyHolds, ih, and_assoc]

/-- What holds of a body holds of its items. -/
theorem bodyHolds_iff {items : List BodyItem} :
    bodyHolds P items ↔ ∀ item ∈ items, item.Holds P := by
  induction items with
  | nil => simp [bodyHolds]
  | cons i items ih => simp [bodyHolds, ih]

/-- What holds of branches holds of each. -/
theorem branchesHold_iff {type : ControlType} {bs : List Branch} :
    branchesHold P type bs ↔ ∀ b ∈ bs, b.Holds P type := by
  induction bs with
  | nil => simp [branchesHold]
  | cons b bs ih => simp [branchesHold, ih]

/-- Statements of a body are plain. -/
theorem isPlain_of_inBody {t : StatementType} (h : t.inBody = true) : t.isPlain = true := by
  cases t <;> first | rfl | simp [StatementType.inBody] at h

end

/-! ## Derivations of well-formed trees -/

/-- The outline of a body starts with its first statement. -/
theorem bodyOutline_statement (s : Statement) (items : List BodyItem) :
    bodyOutline (.statement s :: items) = s.outline :: bodyOutline items := by
  rw [bodyOutline, BodyItem.outline]

/-- Each branch is outlined by its header and its items. -/
theorem branchesOutline_trees (parts : List BranchPart) :
    branchesOutline (BranchPart.trees parts) =
      parts.map fun p => .node .branch (p.header.outline :: bodyOutline p.items) := by
  induction parts with
  | nil => rfl
  | cons p parts ih =>
    have : BranchPart.trees (p :: parts) = closeBranch p.header p.items :: BranchPart.trees parts :=
      rfl
    rw [this, branchesOutline, ih, List.map_cons, closeBranch, Branch.outline]

/-- A closed block is outlined by its header, body, branches and end. -/
theorem outline_closedBlock (type : ControlType) (header close : Statement)
    (body : List BodyItem) (parts : List BranchPart) :
    (closedBlock type header body parts close).outline =
      .node (.control type)
        (header.outline ::
          (bodyOutline body ++
            (parts.map fun p => .node .branch (p.header.outline :: bodyOutline p.items)) ++
            [close.outline])) := by
  rw [closedBlock, ControlBlock.outline, branchesOutline_trees]
  rfl

mutual

/-- The statements of a well-formed item derive an item with the same outline. -/
theorem BodyItem.Holds.derives {P : Statement → Prop} : ∀ {item : BodyItem}, item.Holds P →
    ∃ items, Derives item.statements items ∧ bodyOutline items = [item.outline]
  | .statement s, h => by
    rw [BodyItem.Holds] at h
    exact ⟨[.statement s], .plain (isPlain_of_inBody h.1) .nil, rfl⟩
  | .control c, h => by
    rw [BodyItem.Holds] at h
    exact h.derives

/-- The statements of a well-formed control block derive a block with the same outline. -/
theorem ControlBlock.Holds.derives {P : Statement → Prop} : ∀ {c : ControlBlock}, c.Holds P →
    ∃ items, Derives c.statements items ∧ bodyOutline items = [c.outline]
  | ⟨type, _, header, body, branches, close, _⟩, h => by
    rw [ControlBlock.Holds] at h
    obtain ⟨⟨ho, -⟩, hbody, hbranches, s, rfl, hs, -⟩ := h
    obtain ⟨items, hd, hi⟩ := bodyHolds_derives hbody
    obtain ⟨parts, hp, hps, hyield, htrees⟩ := branchesHold_derives hbranches
    have hblock := Derives.block ho hd hp hps hs .nil
    refine ⟨[.control (closedBlock type header items parts s)], ?_, ?_⟩
    · rw [ControlBlock.statements, ← hyield]
      exact hblock
    · rw [bodyOutline, BodyItem.outline, outline_closedBlock, ControlBlock.outline, hi, ← htrees]
      rfl

/-- The statements of a well-formed body derive a body with the same outline. -/
theorem bodyHolds_derives {P : Statement → Prop} : ∀ {body : List BodyItem}, bodyHolds P body →
    ∃ items, Derives (bodyStatements body) items ∧ bodyOutline items = bodyOutline body
  | [], _ => ⟨[], .nil, rfl⟩
  | item :: body, h => by
    rw [bodyHolds] at h
    obtain ⟨front, hf, hfo⟩ := h.1.derives
    obtain ⟨items, hd, hi⟩ := bodyHolds_derives h.2
    refine ⟨front ++ items, ?_, ?_⟩
    · rw [bodyStatements]
      exact hf.append hd
    · rw [bodyOutline_append, hfo, hi, bodyOutline]
      rfl

/-- The statements of well-formed branches derive branches with the same outlines. -/
theorem branchesHold_derives {P : Statement → Prop} {type : ControlType} :
    ∀ {bs : List Branch}, branchesHold P type bs →
      ∃ parts : List BranchPart, (∀ p ∈ parts, p.header.type ∈ type.branchHeaders) ∧
        (∀ p ∈ parts, Derives p.statements p.items) ∧
        BranchPart.yield parts = branchesStatements bs ∧
        (parts.map fun p => .node .branch (p.header.outline :: bodyOutline p.items)) =
          branchesOutline bs
  | [], _ => ⟨[], by simp, by simp, rfl, rfl⟩
  | ⟨_, header, body, _⟩ :: bs, h => by
    rw [branchesHold, Branch.Holds] at h
    obtain ⟨⟨⟨hh, -⟩, hbody⟩, hbs⟩ := h
    obtain ⟨items, hd, hi⟩ := bodyHolds_derives hbody
    obtain ⟨parts, hp, hps, hyield, htrees⟩ := branchesHold_derives hbs
    refine ⟨⟨header, bodyStatements body, items⟩ :: parts, ?_, ?_, ?_, ?_⟩
    · simpa [hh] using hp
    · simpa [hd] using hps
    · rw [branchesStatements, Branch.statements, ← hyield]
      rfl
    · rw [List.map_cons, htrees, hi, branchesOutline, Branch.outline]

end

/-! ## Statements with the same outlines -/

/-- Branches of statements with the same outlines. -/
theorem branches_of_outline {parts : List BranchPart}
    (ih : ∀ p ∈ parts, ∀ ss : List Statement, ss.map Statement.outline =
      p.statements.map Statement.outline → ∃ items, Derives ss items ∧
        bodyOutline items = bodyOutline p.items) {ss : List Statement}
    (h : ss.map Statement.outline = (BranchPart.yield parts).map Statement.outline) :
    ∃ parts' : List BranchPart, BranchPart.yield parts' = ss ∧
      (∀ p ∈ parts', Derives p.statements p.items) ∧
      parts'.map (fun p => p.header.type) = parts.map (fun p => p.header.type) ∧
      (parts'.map fun p => Outline.node .branch (p.header.outline :: bodyOutline p.items)) =
        parts.map fun p => Outline.node .branch (p.header.outline :: bodyOutline p.items) := by
  induction parts generalizing ss with
  | nil =>
    obtain rfl : ss = [] := by simpa [BranchPart.yield] using h
    exact ⟨[], rfl, by simp, rfl, rfl⟩
  | cons p parts ihp =>
    rw [BranchPart.yield, List.flatMap_cons, List.cons_append, List.map_cons, List.map_append] at h
    obtain ⟨header, more, rfl, hh, hmore⟩ := List.map_eq_cons_iff.1 h
    obtain ⟨body, rest, rfl, hb, hr⟩ := List.map_eq_append_iff.1 hmore
    obtain ⟨items, hd, hi⟩ := ih p List.mem_cons_self body hb
    obtain ⟨parts', hy, hp, ht, ho⟩ := ihp (fun q hq => ih q (List.mem_cons_of_mem _ hq)) hr
    refine ⟨⟨header, body, items⟩ :: parts', ?_, ?_, ?_, ?_⟩
    · rw [← hy]
      rfl
    · simpa [hd] using hp
    · simp [Statement.type_of_outline hh, ht]
    · simp [hh, hi, ho]

/-- **Statements with the same outlines derive trees with the same outline.** -/
theorem Derives.of_outline {ss : List Statement} {items : List BodyItem} (h : Derives ss items) :
    ∀ {rs : List Statement}, rs.map Statement.outline = ss.map Statement.outline →
      ∃ items', Derives rs items' ∧ bodyOutline items' = bodyOutline items := by
  induction h with
  | nil =>
    intro rs hr
    obtain rfl : rs = [] := by simpa using hr
    exact ⟨[], .nil, rfl⟩
  | plain hp _ ih =>
    intro rs hr
    obtain ⟨r, rest, rfl, ho, hrest⟩ := List.map_eq_cons_iff.1 hr
    obtain ⟨items, hd, hi⟩ := ih hrest
    refine ⟨.statement r :: items, .plain ?_ hd, ?_⟩
    · rwa [Statement.type_of_outline ho]
    · rw [bodyOutline_statement, bodyOutline_statement, ho, hi]
  | @block type header close body rest items more parts hopen _ hp _ hclose _ ihb ihp ihr =>
    intro rs hr
    rw [List.map_cons, List.map_append, List.map_append, List.map_cons] at hr
    obtain ⟨header', rs, rfl, hh, hr⟩ := List.map_eq_cons_iff.1 hr
    obtain ⟨front, back, rfl, hfront, hback⟩ := List.map_eq_append_iff.1 hr
    obtain ⟨body', branches', rfl, hbody, hbranches⟩ := List.map_eq_append_iff.1 hfront
    obtain ⟨close', rest', rfl, hc, hrest⟩ := List.map_eq_cons_iff.1 hback
    obtain ⟨items', hd, hi⟩ := ihb hbody
    obtain ⟨more', hm, hmi⟩ := ihr hrest
    obtain ⟨parts', rfl, hps, htypes, houts⟩ :=
      branches_of_outline (fun p hm ss hs => ihp p hm hs) hbranches
    have hp' : ∀ p ∈ parts', p.header.type ∈ type.branchHeaders := by
      intro p hm
      have : p.header.type ∈ parts.map fun p => p.header.type := by
        rw [← htypes]
        exact List.mem_map_of_mem hm
      obtain ⟨q, hq, he⟩ := List.mem_map.1 this
      rw [← he]
      exact hp q hq
    have hopen' : header'.type = type.opener := by rw [Statement.type_of_outline hh, hopen]
    have hclose' : close'.type = .blockEnd := by rw [Statement.type_of_outline hc, hclose]
    refine ⟨_, .block hopen' hd hp' hps hclose' hm, ?_⟩
    rw [bodyOutline, bodyOutline, BodyItem.outline, BodyItem.outline, outline_closedBlock,
      outline_closedBlock, hh, hi, houts, hc, hmi]

/-- **Statements with the outlines of a well-formed body nest to a body with its outline,**
without a defect. -/
theorem nest_outline {P : Statement → Prop} {body : List BodyItem} (h : bodyHolds P body)
    {ss : List Statement}
    (hs : ss.map Statement.outline = (bodyStatements body).map Statement.outline) :
    (nest ss).2 = [] ∧ bodyOutline (nest ss).1 = bodyOutline body := by
  obtain ⟨items, hd, hi⟩ := bodyHolds_derives h
  obtain ⟨items', hd', hi'⟩ := hd.of_outline hs
  rw [nest_of_derives hd']
  exact ⟨rfl, hi'.trans hi⟩

end RobotSuite
