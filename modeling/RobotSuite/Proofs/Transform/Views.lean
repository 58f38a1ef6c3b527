/-
# Models seen through a view

Some passes look at models in which not everything shows: not where a statement stands in its
source, or not how wide the gaps between its cells are.  A view says what is seen of the
statements of each section (`View`), and `File.view` is the model that is seen, without places and
labels of containers.  What is checked of a tree shows if it shows of the statements
(`view_sectionsIssues`).

Where no replacement of a transform changes what is seen of a statement, and no new body what is
seen of the old one, the file behind the walk is seen as the file in front of it
(`Transform.KeepsView.run`).  A view that shows nothing leaves the shape of a file, and a file is
told by its shape and by what is seen of its statements, in their order (`File.view_of_shape`).
-/

import Mathlib.Data.List.Basic
import RobotSuite.Proofs.Transform.Invariants

namespace RobotSuite

/-- What is seen of the statements of a section, by the kind of the section. -/
abbrev View := SectionKind → Statement → Statement

/-! ## Trees -/

section
variable (f : Statement → Statement)

mutual

/-- A body item of which the statements are seen. -/
def BodyItem.view : BodyItem → BodyItem
  | .statement s => .statement (f s)
  | .control c => .control c.view

/-- A control block of which the statements are seen. -/
def ControlBlock.view : ControlBlock → ControlBlock
  | ⟨type, _, header, body, branches, close, _⟩ =>
    ⟨type, .synthetic, f header, viewBody body, viewBranches branches, close.map f, none⟩

/-- A body of which the statements are seen. -/
def viewBody : List BodyItem → List BodyItem
  | [] => []
  | item :: items => item.view :: viewBody items

/-- A branch of which the statements are seen. -/
def Branch.view : Branch → Branch
  | ⟨_, header, body, _⟩ => ⟨.synthetic, f header, viewBody body, none⟩

/-- Branches of which the statements are seen. -/
def viewBranches : List Branch → List Branch
  | [] => []
  | b :: bs => b.view :: viewBranches bs

end

/-- A block of which the statements are seen. -/
def Block.view (b : Block) : Block :=
  ⟨b.type, .synthetic, f b.header, viewBody f b.body, none⟩

/-- A section item of which the statements are seen. -/
def SectionItem.view : SectionItem → SectionItem
  | .statement s => .statement (f s)
  | .block b => .block (b.view f)

end

/-- A section as it is seen. -/
def Section.view (v : View) (s : Section) : Section :=
  ⟨s.kind, .synthetic, s.header.map (v s.kind), s.body.map (SectionItem.view (v s.kind)), none⟩

/-- A file as it is seen. -/
def File.view (v : View) (f : File) : File :=
  { f with span := .synthetic, errors := [], sections := f.sections.map (Section.view v) }

/-- Items as they are seen, with their marks. -/
def viewMarked {α : Type} (g : α → α) (items : List (Marked α)) : List (Marked α) :=
  items.map fun item => (g item.1, item.2)

/-- Branches are viewed one by one. -/
theorem viewBranches_eq_map (f : Statement → Statement) (bs : List Branch) :
    viewBranches f bs = bs.map (Branch.view f) := by
  induction bs with
  | nil => rfl
  | cons b bs ih => rw [viewBranches, ih, List.map_cons]

/-- Marked items are viewed as the items. -/
theorem unmark_viewMarked {α : Type} (g : α → α) (items : List (Marked α)) :
    unmark (viewMarked g items) = (unmark items).map g := by
  rw [unmark, unmark, viewMarked, List.map_map, List.map_map]
  rfl

/-- A view loses no item. -/
@[simp] theorem length_viewMarked {α : Type} (g : α → α) (items : List (Marked α)) :
    (viewMarked g items).length = items.length := List.length_map _

/-- A view empties nothing. -/
@[simp] theorem isEmpty_viewMarked {α : Type} (g : α → α) (items : List (Marked α)) :
    (viewMarked g items).isEmpty = items.isEmpty := List.isEmpty_map

/-- A view keeps the marks. -/
theorem lastMark_viewMarked {α : Type} (g : α → α) (front : Bool) (items : List (Marked α)) :
    lastMark front (viewMarked g items) = lastMark front items := by
  rw [lastMark, lastMark, viewMarked, List.getLast?_map, Option.map_map]
  rfl

/-- Two stretches are viewed one after the other. -/
theorem viewMarked_append {α : Type} (g : α → α) (a b : List (Marked α)) :
    viewMarked g (a ++ b) = viewMarked g a ++ viewMarked g b := List.map_append

/-! ## Statements -/

section
variable {f : Statement → Statement}

/-- Body items are viewed one by one. -/
theorem viewBody_eq_map (items : List BodyItem) :
    viewBody f items = items.map (BodyItem.view f) := by
  induction items with
  | nil => rfl
  | cons item items ih => rw [viewBody, ih, List.map_cons]

mutual

/-- The statements of a viewed item are the viewed statements. -/
theorem BodyItem.statements_view : ∀ item : BodyItem,
    (item.view f).statements = item.statements.map f
  | .statement s => rfl
  | .control c => by
    rw [BodyItem.view, BodyItem.statements, BodyItem.statements, c.statements_view]

/-- The same for a control block. -/
theorem ControlBlock.statements_view : ∀ c : ControlBlock,
    (c.view f).statements = c.statements.map f
  | ⟨_, _, header, body, branches, close, _⟩ => by
    rw [ControlBlock.view, ControlBlock.statements, ControlBlock.statements,
      bodyStatements_viewBody body, branchesStatements_viewBranches branches]
    cases close <;> simp

/-- The same for a body. -/
theorem bodyStatements_viewBody : ∀ items : List BodyItem,
    bodyStatements (viewBody f items) = (bodyStatements items).map f
  | [] => rfl
  | item :: items => by
    rw [viewBody, bodyStatements, bodyStatements, item.statements_view,
      bodyStatements_viewBody items, List.map_append]

/-- The same for the branches of a block. -/
theorem branchesStatements_viewBranches : ∀ bs : List Branch,
    branchesStatements (viewBranches f bs) = (branchesStatements bs).map f
  | [] => rfl
  | ⟨_, header, body, _⟩ :: bs => by
    rw [viewBranches, branchesStatements, branchesStatements, Branch.view, Branch.statements,
      Branch.statements, bodyStatements_viewBody body, branchesStatements_viewBranches bs]
    simp

end

/-- The same for an item of a section. -/
theorem SectionItem.statements_view (item : SectionItem) :
    (item.view f).statements = item.statements.map f := by
  cases item with
  | statement s => rfl
  | block b =>
    show f b.header :: bodyStatements (viewBody f b.body) = _
    rw [bodyStatements_viewBody]
    rfl

/-- The same for the items of a section. -/
theorem itemsStatements_view (items : List SectionItem) :
    itemsStatements (items.map (SectionItem.view f)) = (itemsStatements items).map f := by
  rw [itemsStatements, itemsStatements, List.flatMap_map, List.map_flatMap]
  exact List.flatMap_congr fun item _ => item.statements_view

end

/-- The same for a section. -/
theorem Section.statements_view (v : View) (s : Section) :
    (s.view v).statements = s.statements.map (v s.kind) := by
  rw [Section.statements, Section.statements, List.map_append]
  show (s.header.map (v s.kind)).toList ++ itemsStatements (s.body.map _) = _
  rw [itemsStatements_view]
  cases s.header <;> rfl

/-! ## Views of views -/

section
variable (g f : Statement → Statement)

mutual

/-- Viewing twice is viewing with both. -/
theorem BodyItem.view_view : ∀ item : BodyItem,
    (item.view f).view g = item.view fun s => g (f s)
  | .statement _ => rfl
  | .control c => by
    rw [BodyItem.view, BodyItem.view, BodyItem.view, c.view_view]

/-- The same for a control block. -/
theorem ControlBlock.view_view : ∀ c : ControlBlock,
    (c.view f).view g = c.view fun s => g (f s)
  | ⟨_, _, _, body, branches, close, _⟩ => by
    rw [ControlBlock.view, ControlBlock.view, ControlBlock.view, viewBody_view body,
      viewBranches_view branches, Option.map_map]
    rfl

/-- The same for a body. -/
theorem viewBody_view : ∀ items : List BodyItem,
    viewBody g (viewBody f items) = viewBody (fun s => g (f s)) items
  | [] => rfl
  | item :: items => by
    rw [viewBody, viewBody, viewBody, item.view_view, viewBody_view items]

/-- The same for the branches of a block. -/
theorem viewBranches_view : ∀ bs : List Branch,
    viewBranches g (viewBranches f bs) = viewBranches (fun s => g (f s)) bs
  | [] => rfl
  | ⟨_, _, body, _⟩ :: bs => by
    rw [viewBranches, viewBranches, viewBranches, Branch.view, Branch.view, Branch.view,
      viewBody_view body, viewBranches_view bs]

end

/-- The same for an item of a section. -/
theorem SectionItem.view_view (item : SectionItem) :
    (item.view f).view g = item.view fun s => g (f s) := by
  cases item with
  | statement s => rfl
  | block b =>
    rw [SectionItem.view, SectionItem.view, SectionItem.view, Block.view, Block.view, Block.view,
      viewBody_view]

end

/-- The same for a file. -/
theorem File.view_view (w v : View) (f : File) :
    (f.view v).view w = f.view fun kind s => w kind (v kind s) := by
  have hsection (s : Section) :
      (s.view v).view w = s.view fun kind s => w kind (v kind s) := by
    rw [Section.view, Section.view, Section.view, Option.map_map, List.map_map]
    exact congrArg (Section.mk s.kind .synthetic
      (s.header.map fun r => w s.kind (v s.kind r)) · none)
      (List.map_congr_left fun item _ => SectionItem.view_view _ _ item)
  rw [File.view, File.view, File.view, List.map_map]
  exact congrArg (fun sections => { f with span := .synthetic, errors := [], sections })
    (List.map_congr_left fun s _ => hsection s)

/-! ## What is checked of a tree -/

/-- Whether all that a walk looks at and all that is checked of a statement shows. -/
structure Statement.ShownBy (f : Statement → Statement) (s : Statement) : Prop where
  type : (f s).type = s.type
  directive? : (f s).directive? = s.directive?
  flaws : (f s).flaws = s.flaws
  isUnterminated : (f s).isUnterminated = s.isUnterminated

/-- What is wrong, without the places. -/
def flawsOf (issues : List Issue) : List Flaw := issues.map (·.flaw)

section
variable {f : Statement → Statement} {s : Statement} {a b : List Issue}

/-- The flaws of two lists of issues come one after the other. -/
@[simp] theorem flawsOf_append (a b : List Issue) : flawsOf (a ++ b) = flawsOf a ++ flawsOf b :=
  List.map_append

/-- Issues with the same flaws are there, or not, both. -/
theorem flawsOf_eq_nil (h : flawsOf a = flawsOf b) : a = [] ↔ b = [] := by
  rw [← List.map_eq_nil_iff (f := (·.flaw)), ← List.map_eq_nil_iff (l := b) (f := (·.flaw))]
  exact iff_of_eq (congrArg (· = []) h)

/-- A statement's issues are its flaws. -/
theorem flawsOf_issues (s : Statement) : flawsOf s.issues = s.flaws := by
  rw [flawsOf, Statement.issues, List.map_map]
  exact List.map_id _

/-- A view that shows a statement keeps its flaws. -/
theorem Statement.ShownBy.issues (h : s.ShownBy f) : flawsOf (f s).issues = flawsOf s.issues := by
  rw [flawsOf_issues, flawsOf_issues, h.flaws]

mutual

/-- A view that shows every statement keeps the flaws of an item. -/
theorem BodyItem.view_issues : ∀ {item : BodyItem}, (∀ s ∈ item.statements, s.ShownBy f) →
    flawsOf (item.view f).issues = flawsOf item.issues
  | .statement s, h => by
    have hs := h s List.mem_cons_self
    rw [BodyItem.view, BodyItem.issues, BodyItem.issues, Statement.bodyIssues,
      Statement.bodyIssues, hs.type]
    split
    · exact hs.issues
    · rfl
  | .control c, h => by
    rw [BodyItem.view, BodyItem.issues, BodyItem.issues]
    exact c.view_issues h

/-- The same for a control block. -/
theorem ControlBlock.view_issues : ∀ (c : ControlBlock), (∀ s ∈ c.statements, s.ShownBy f) →
    flawsOf (c.view f).issues = flawsOf c.issues
  | ⟨type, span, header, body, branches, close, label⟩, h => by
    simp only [ControlBlock.statements, List.forall_mem_cons, List.forall_mem_append] at h
    obtain ⟨hheader, ⟨hbody, hbranches⟩, hclose⟩ := h
    rw [ControlBlock.view]
    cases close with
    | none =>
      simp only [Option.map_none, ControlBlock.issues, flawsOf_append, hheader.issues,
        viewBody_issues hbody, viewBranches_issues hbranches]
      rfl
    | some s =>
      simp only [Option.map_some, ControlBlock.issues, flawsOf_append, hheader.issues,
        viewBody_issues hbody, viewBranches_issues hbranches, (hclose s (by simp)).issues]

/-- The same for a body. -/
theorem viewBody_issues : ∀ {items : List BodyItem}, (∀ s ∈ bodyStatements items, s.ShownBy f) →
    flawsOf (bodyIssues (viewBody f items)) = flawsOf (bodyIssues items)
  | [], _ => by rw [viewBody]
  | item :: items, h => by
    rw [bodyStatements, List.forall_mem_append] at h
    rw [viewBody, bodyIssues, bodyIssues, flawsOf_append, flawsOf_append,
      BodyItem.view_issues h.1, viewBody_issues h.2]

/-- The same for the branches of a block. -/
theorem viewBranches_issues {type : ControlType} : ∀ {bs : List Branch},
    (∀ s ∈ branchesStatements bs, s.ShownBy f) →
      flawsOf (branchesIssues type (viewBranches f bs)) = flawsOf (branchesIssues type bs)
  | [], _ => by rw [viewBranches]
  | ⟨_, header, body, _⟩ :: bs, h => by
    rw [branchesStatements, Branch.statements, List.forall_mem_append, List.forall_mem_cons] at h
    obtain ⟨⟨hheader, hbody⟩, hbs⟩ := h
    rw [viewBranches, Branch.view, branchesIssues, branchesIssues]
    simp only [flawsOf_append, hheader.issues, hheader.type, viewBody_issues hbody,
      viewBranches_issues hbs]
    split <;> rfl

end

/-- The same for the items of a section. -/
theorem view_itemsIssues {kind : SectionKind} {seen : Bool} {items : List SectionItem}
    (h : ∀ s ∈ itemsStatements items, s.ShownBy f) :
    flawsOf (itemsIssues kind seen (items.map (SectionItem.view f))) =
      flawsOf (itemsIssues kind seen items) := by
  induction items generalizing seen with
  | nil => rfl
  | cons item items ih =>
    rw [itemsStatements, List.flatMap_cons, List.forall_mem_append] at h
    cases item with
    | statement s =>
      have hs := h.1 s List.mem_cons_self
      rw [List.map_cons, SectionItem.view, itemsIssues, itemsIssues]
      simp only [flawsOf_append, hs.issues, hs.type, ih h.2]
      split
      · rfl
      · split <;> rfl
    | block b =>
      obtain ⟨hheader, hbody⟩ := List.forall_mem_cons.1 h.1
      rw [List.map_cons, SectionItem.view, itemsIssues, itemsIssues, Block.issues, Block.issues,
        Block.view]
      simp only [flawsOf_append, hheader.issues, viewBody_issues hbody, ih h.2]
      split <;> rfl

/-- The same for missing line breaks. -/
theorem map_dropLast_isUnterminated {ss : List Statement} (h : ∀ s ∈ ss, s.ShownBy f) :
    flawsOf (breakIssues (ss.map f)) = flawsOf (breakIssues ss) := by
  have hdrop : ∀ s ∈ ss.dropLast, s.ShownBy f := fun s hs => h s (List.dropLast_subset _ hs)
  rw [breakIssues, breakIssues, ← List.map_dropLast]
  generalize ss.dropLast = front at hdrop
  induction front with
  | nil => rfl
  | cons s front ih =>
    rw [List.forall_mem_cons] at hdrop
    have hrest := ih hdrop.2
    rw [List.map_cons, List.filter_cons, List.filter_cons, hdrop.1.isUnterminated]
    split
    · simp only [flawsOf, List.map_cons, hdrop.1.type] at hrest ⊢
      rw [hrest]
    · exact hrest

/-- The same for the body of a section. -/
theorem view_sectionIssues {kind : SectionKind} {items : List SectionItem}
    (h : ∀ s ∈ itemsStatements items, s.ShownBy f) :
    flawsOf (sectionIssues kind (items.map (SectionItem.view f))) =
      flawsOf (sectionIssues kind items) := by
  rw [sectionIssues, sectionIssues, flawsOf_append, flawsOf_append, view_itemsIssues h,
    itemsStatements_view, map_dropLast_isUnterminated h]

/-- Whether the items of a section can be checked shows. -/
theorem isUncheckable_view (kind : SectionKind) (items : List SectionItem) :
    isUncheckable kind (items.map (SectionItem.view f)) = isUncheckable kind items := by
  rw [isUncheckable, isUncheckable, List.any_map]
  refine congrArg (kind.isInherited && ·) (congrArg (fun g => List.any items g) (funext fun item => ?_))
  cases item <;> rfl

end

section
variable {v : View} {ss : List Section}

/-- Whether sections can be checked shows. -/
theorem any_isUncheckable_view :
    ((ss.map (Section.view v)).any fun s => s.isUncheckable) = ss.any fun s => s.isUncheckable := by
  rw [List.any_map]
  exact congrArg (fun g => List.any ss g) (funext fun s => isUncheckable_view s.kind s.body)

/-- Files of which the same sections show can be checked alike. -/
theorem isUncheckable_of_view {f g : File}
    (h : f.sections.map (Section.view v) = g.sections.map (Section.view v)) :
    f.isUncheckable = g.isUncheckable := by
  rw [File.isUncheckable, File.isUncheckable, ← any_isUncheckable_view, h, any_isUncheckable_view]

/-- The same for the sections of a file. -/
theorem view_eachSectionIssues {first : Bool}
    (h : ∀ s ∈ ss, ∀ r ∈ s.statements, r.ShownBy (v s.kind)) :
    flawsOf (eachSectionIssues first (ss.map (Section.view v))) =
      flawsOf (eachSectionIssues first ss) := by
  induction ss generalizing first with
  | nil => rfl
  | cons s ss ih =>
    rw [List.forall_mem_cons] at h
    obtain ⟨hs, hss⟩ := h
    rw [Section.statements, List.forall_mem_append] at hs
    obtain ⟨kind, span, header, body, label⟩ := s
    rw [List.map_cons, eachSectionIssues, eachSectionIssues, Section.issues, Section.issues]
    simp only [flawsOf_append, ih hss, Section.view, view_sectionIssues hs.2]
    cases header with
    | none => cases first <;> rfl
    | some header =>
      have hheader := (hs.1 header (by simp)).issues
      simp only [Option.map_some, Option.getD_some, hheader, Option.isNone_some, Bool.false_and,
        Bool.false_eq_true, if_false]

/-- The open end of a section is shown. -/
theorem openEnd?_view {s : Section} (h : ∀ r ∈ s.statements, r.ShownBy (v s.kind)) :
    (s.view v).openEnd? = s.openEnd?.map (v s.kind) := by
  rw [Section.openEnd?, Section.openEnd?, Section.statements_view, List.getLast?_map]
  cases hlast : s.statements.getLast? with
  | none => rfl
  | some r =>
    have hr := h r (List.mem_of_getLast? hlast)
    rw [Option.map_some, Option.filter_some, Option.filter_some, hr.isUnterminated]
    split <;> rfl

/-- What is wrong with sections shows if it shows of their statements. -/
theorem view_sectionsIssues (h : ∀ s ∈ ss, ∀ r ∈ s.statements, r.ShownBy (v s.kind)) :
    flawsOf (sectionsIssues (ss.map (Section.view v))) = flawsOf (sectionsIssues ss) := by
  have hdrop : ∀ s ∈ ss.dropLast, (s.view v).openEnd? = s.openEnd?.map (v s.kind) :=
    fun s hs => openEnd?_view (h s (List.dropLast_subset _ hs))
  rw [sectionsIssues, sectionsIssues, flawsOf_append, flawsOf_append, view_eachSectionIssues h,
    ← List.map_dropLast, List.filterMap_map]
  congr 1
  generalize ss.dropLast = front at hdrop
  induction front with
  | nil => rfl
  | cons s front ih =>
    rw [List.forall_mem_cons] at hdrop
    have hrest := ih hdrop.2
    rw [List.filterMap_cons, List.filterMap_cons, Function.comp_apply, hdrop.1]
    cases s.openEnd? with
    | none => exact hrest
    | some r => exact congrArg (Flaw.openSection :: ·) hrest

end

/-- A state in place is at the same level. -/
theorem Progress.At.levels {p q : Progress} (h : p.At q) : q.scope.levels = p.scope.levels := by
  rw [Scope.levels, Scope.levels, h.ancestors]

namespace Transform

/-- A transform that moves nothing, and whose replacements are seen as what they replace. -/
structure KeepsView (t : Transform) (S H : SectionKind → Statement → Prop) (v : View) : Prop
    extends t.KeepsInside S H where
  seen : ∀ {kind sc n s new}, t.statement sc n s = .put new →
    sc.section?.map (·.kind) = some kind → S kind s ∨ sc.levels = 0 ∧ H kind s →
    v kind new = v kind s
  bodySeen : ∀ {kind place header items new}, t.leaveBody place header items = .put new →
    place.scope.section?.map (·.kind) = some kind → bodyHolds (S kind) (unmark items) →
    viewBody (v kind) (unmark new) = viewBody (v kind) (unmark items)
  noSection : t.leaveSection = fun _ _ _ => .keep
  noFile : t.leaveFile = fun _ _ => .keep

section
variable {t : Transform} {S H : SectionKind → Statement → Prop} {v : View} {kind : SectionKind}
  {p : Progress}

/-- A statement keeps its picture. -/
theorem KeepsView.onStatement (h : t.KeepsView S H v)
    (hk : p.scope.section?.map (·.kind) = some kind) {s : Statement}
    (hs : S kind s ∨ p.scope.levels = 0 ∧ H kind s) :
    v kind (t.onStatement p s).1.1 = v kind s := by
  obtain ⟨-, heq | ⟨sc, new, ha, hput, -, -, heq⟩⟩ := t.onStatement_spec p s
  · rw [heq]
  · have hlevels : sc.levels = p.scope.levels := by rw [Scope.levels, ha, ← Scope.levels]
    rw [heq]
    exact h.seen hput (Scope.Within.congr ⟨hk, Nat.zero_le _⟩ ha).sect (hlevels ▸ hs)

/-- Leaving a body keeps its picture. -/
theorem KeepsView.onBody (h : t.KeepsView S H v)
    (hk : p.scope.section?.map (·.kind) = some kind)
    {items : List (Marked BodyItem)} (hi : bodyHolds (S kind) (unmark items)) (header : Bool) :
    viewBody (v kind) (unmark (t.onBody p header items).1) = viewBody (v kind) (unmark items) := by
  obtain ⟨-, heq | ⟨marked, new, hm, hput, -, heq⟩⟩ := t.onBody_spec p header items
  · rw [heq]
  · rw [heq, ← hm]
    exact h.bodySeen hput hk (by rwa [hm])

/-- A header or an END that the walk settles on. -/
theorem KeepsView.settle (q : Progress) {α β : Type} {g : α → β} {old new : α}
    (h : g new = g old) : g (q.settle old new) = g old :=
  Progress.settle_of (P := fun x => g x = g old) q rfl h

mutual

/-- An item keeps its picture. -/
theorem KeepsView.onItem (h : t.KeepsView S H v) {p : Progress} (hp : p.scope.Within kind 1) :
    ∀ {item : BodyItem}, item.Holds (S kind) →
      (t.onItem p item).1.1.view (v kind) = item.view (v kind)
  | .statement s, hi => by
    rw [BodyItem.Holds] at hi
    rw [Transform.onItem]
    exact congrArg BodyItem.statement (h.onStatement hp.sect (.inl hi.2))
  | .control c, hi => by
    rw [BodyItem.Holds] at hi
    rw [Transform.onItem]
    exact congrArg BodyItem.control (h.onControl hp hi)

/-- The same for a control block. -/
theorem KeepsView.onControl (h : t.KeepsView S H v) {p : Progress} (hp : p.scope.Within kind 1) :
    ∀ {c : ControlBlock}, c.Holds (S kind) →
      (t.onControl p c).1.1.view (v kind) = c.view (v kind)
  | ⟨type, span, header, body, branches, close, label⟩, hc => by
    rw [ControlBlock.Holds] at hc
    obtain ⟨⟨ho, hS⟩, hbody, hbranches, s, rfl, hs, hSs⟩ := hc
    have henter := hp.enter_nesting
      (c := .control ⟨type, span, header, body, branches, some s, label⟩) rfl
    have hheader := h.onStatement (p := p.enter _) henter.sect (.inl hS)
    obtain ⟨-, -, hat1⟩ := h.toKeepsInside.onStatement (p := p.enter _)
      (henter.shows_outer (isBlockName_of_opener ho)) hS
    have hw1 := henter.congr hat1.ancestors
    have hitems := h.onItems (hw1.mono (by omega)) hbody
    obtain ⟨hholds, hat2⟩ := h.toKeepsInside.onItems (hw1.mono (by omega)) hbody
    have hw2 := hw1.congr hat2.ancestors
    have hbs := h.onBranches hw2 hbranches
    obtain ⟨-, hat3⟩ := h.toKeepsInside.onBranches hw2 hbranches
    have hw3 := hw2.congr hat3.ancestors
    have hclose := h.onStatement hw3.sect (.inl hSs)
    obtain ⟨-, -, hat4⟩ := h.toKeepsInside.onStatement
      (hw3.shows_outer (by simp [isBlockName, hs])) hSs
    have hnew := h.onBody (hw3.congr hat4.ancestors).sect hholds
    rw [Transform.onControl]
    show ControlBlock.view _ ⟨_, _, _, _, _, _, _⟩ = _
    rw [ControlBlock.view, ControlBlock.view, ControlBlock.mk.injEq]
    exact ⟨rfl, rfl, KeepsView.settle _ hheader, (hnew _).trans hitems, hbs,
      KeepsView.settle (g := Option.map (v kind)) _ (congrArg some hclose), rfl⟩

/-- The same for the items of a body. -/
theorem KeepsView.onItems (h : t.KeepsView S H v) {p : Progress} (hp : p.scope.Within kind 1) :
    ∀ {items : List BodyItem}, bodyHolds (S kind) items →
      viewBody (v kind) (unmark (t.onItems p items).1) = viewBody (v kind) items
  | [], _ => by
    rw [Transform.onItems]
    rfl
  | item :: items, hi => by
    rw [bodyHolds] at hi
    obtain ⟨-, hat⟩ := h.toKeepsInside.onItem hp hi.1
    rw [Transform.onItems]
    exact congrArg₂ List.cons (h.onItem hp hi.1) (h.onItems (hp.congr hat.ancestors) hi.2)

/-- The same for the branches of a block. -/
theorem KeepsView.onBranches (h : t.KeepsView S H v) {p : Progress} (hp : p.scope.Within kind 2)
    {type : ControlType} : ∀ {bs : List Branch}, branchesHold (S kind) type bs →
      viewBranches (v kind) (unmark (t.onBranches p bs).1) = viewBranches (v kind) bs
  | [], _ => by
    rw [Transform.onBranches]
    rfl
  | ⟨span, header, body, label⟩ :: bs, hb => by
    rw [branchesHold] at hb
    obtain ⟨-, hat⟩ := h.toKeepsInside.onBranch hp hb.1
    have hrest := h.onBranches (hp.congr hat.ancestors) hb.2
    obtain ⟨hbranch, -⟩ := hb
    rw [Branch.Holds] at hbranch
    obtain ⟨⟨ht, hS⟩, hbody⟩ := hbranch
    have henter := hp.enter_branch (b := ⟨span, header, body, label⟩)
    have hheader := h.onStatement (p := p.enter _) henter.sect (.inl hS)
    obtain ⟨-, -, hat1⟩ := h.toKeepsInside.onStatement (p := p.enter _)
      (henter.shows_outer (isBlockName_of_branchHeader ht)) hS
    have hw1 := henter.congr hat1.ancestors
    have hitems := h.onItems (hw1.mono (by omega)) hbody
    obtain ⟨hholds, hat2⟩ := h.toKeepsInside.onItems (hw1.mono (by omega)) hbody
    have hnew := h.onBody (hw1.congr hat2.ancestors).sect hholds
    have hview : (t.onBranch p ⟨span, header, body, label⟩).1.1.view (v kind) =
        Branch.view (v kind) ⟨span, header, body, label⟩ := by
      rw [Transform.onBranch]
      show Branch.view _ ⟨_, _, _, _⟩ = _
      rw [Branch.view, Branch.view, Branch.mk.injEq]
      exact ⟨rfl, KeepsView.settle _ hheader, (hnew _).trans hitems, rfl⟩
    rw [Transform.onBranches]
    exact congrArg₂ List.cons hview hrest

end

/-- The same for a block. -/
theorem KeepsView.onBlock (h : t.KeepsView S H v)
    (hk : p.scope.section?.map (·.kind) = some kind) (hl : p.scope.levels = 0) {b : Block}
    (hb : (SectionItem.block b).Holds (S kind) kind) :
    (t.onBlock p b).1.1.view (v kind) = b.view (v kind) := by
  obtain ⟨⟨-, hname, hS⟩, hbody⟩ := hb
  have henter := Scope.Within.enter_nesting (c := .block b) ⟨hk, Nat.zero_le _⟩ rfl
  have hheader := h.onStatement (p := p.enter (.block b)) hk (.inl hS)
  obtain ⟨-, -, hat1⟩ := h.toKeepsInside.onStatement (p := p.enter (.block b))
    (Scope.shows_name hk hl (isBlockName_of_nameType hname)) hS
  have hw1 := henter.congr hat1.ancestors
  have hitems := h.onItems hw1 hbody
  obtain ⟨hholds, hat2⟩ := h.toKeepsInside.onItems hw1 hbody
  have hnew := h.onBody (hw1.congr hat2.ancestors).sect hholds
  rw [Transform.onBlock, Block.view, Block.view, Block.mk.injEq]
  exact ⟨rfl, rfl, KeepsView.settle _ hheader, (hnew _).trans hitems, rfl⟩

/-- The same for the items of a section. -/
theorem KeepsView.onSectionItems (h : t.KeepsView S H v)
    (hk : p.scope.section?.map (·.kind) = some kind) (hl : p.scope.levels = 0)
    {items : List SectionItem} (hi : ∀ item ∈ items, item.Holds (S kind) kind) :
    (unmark (t.onSectionItems p items).1).map (SectionItem.view (v kind)) =
      items.map (SectionItem.view (v kind)) := by
  induction items generalizing p with
  | nil =>
    rw [Transform.onSectionItems]
    rfl
  | cons item items ih =>
    rw [List.forall_mem_cons] at hi
    cases item with
    | statement s =>
      obtain ⟨-, -, hat⟩ := h.toKeepsInside.onStatement
        (Scope.Within.shows_section ⟨hk, Nat.zero_le _⟩ hi.1.1) hi.1.2
      have hw := Scope.Within.congr ⟨hk, Nat.zero_le _⟩ hat.ancestors
      rw [Transform.onSectionItems]
      exact congrArg₂ List.cons
        (congrArg SectionItem.statement (h.onStatement hk (.inl hi.1.2)))
        (ih hw.sect (hat.levels.trans hl) hi.2)
    | block b =>
      have hat0 : p.At { p with blockFollows := items.any (·.isBlock) } := ⟨rfl, rfl⟩
      obtain ⟨-, hat⟩ := h.toKeepsInside.onBlock
        (p := { p with blockFollows := items.any (·.isBlock) }) hk hl hi.1
      have hw := Scope.Within.congr ⟨hk, Nat.zero_le _⟩ (hat0.trans hat).ancestors
      rw [Transform.onSectionItems]
      exact congrArg₂ List.cons
        (congrArg SectionItem.block
          (h.onBlock (p := { p with blockFollows := items.any (·.isBlock) }) hk hl hi.1))
        (ih hw.sect ((hat0.trans hat).levels.trans hl) hi.2)

/-- The same for a section. -/
theorem KeepsView.onSection (h : t.KeepsView S H v) (hl : p.scope.levels = 0) {s : Section}
    (hs : s.Holds S H) : (t.onSection p s).1.view v = s.view v := by
  have henter : (p.enter (.sect s)).scope.section?.map (·.kind) = some s.kind := rfl
  have hheader : ((t.onStatement? (p.enter (.sect s)) s.header).1.map (·.1)).map (v s.kind) =
      s.header.map (v s.kind) := by
    cases hh : s.header with
    | none => rfl
    | some r => exact congrArg some (h.onStatement henter (.inr ⟨hl, hs.header r hh⟩))
  obtain ⟨hat1, -, -⟩ := t.onStatement?_spec (p.enter (.sect s)) s.header
  have hw := Scope.Within.congr ⟨henter, Nat.zero_le _⟩ hat1.ancestors
  have hitems := h.onSectionItems hw.sect (hat1.levels.trans hl) hs.items
  obtain ⟨-, hbody⟩ := t.onSectionBody_spec
    (t.onSectionItems (t.onStatement? (p.enter (.sect s)) s.header).2 s.body).2 s.kind
    (t.onStatement? (p.enter (.sect s)) s.header).1
    (t.onSectionItems (t.onStatement? (p.enter (.sect s)) s.header).2 s.body).1
  have hkeeps := hbody.resolve_right fun ⟨_, _, _, hput, _⟩ => by
    rw [h.noSection] at hput
    cases hput
  rw [Transform.onSection, Section.view, Section.view, Section.mk.injEq]
  refine ⟨rfl, rfl, KeepsView.settle (g := Option.map (v s.kind)) _ hheader, ?_, rfl⟩
  exact (congrArg (List.map _) hkeeps).trans hitems

/-- The same for the sections of a file. -/
theorem KeepsView.onSections (h : t.KeepsView S H v) (hl : p.scope.levels = 0)
    {ss : List Section} (hs : ∀ s ∈ ss, s.Holds S H) :
    (t.onSections p ss).1.map (Section.view v) = ss.map (Section.view v) := by
  induction ss generalizing p with
  | nil => rfl
  | cons s ss ih =>
    rw [List.forall_mem_cons] at hs
    obtain ⟨-, hat⟩ := h.toKeepsInside.onSection (p := { p with sectionFollows := !ss.isEmpty }) hl
      hs.1
    rw [Transform.onSections]
    exact congrArg₂ List.cons
      (h.onSection (p := { p with sectionFollows := !ss.isEmpty }) hl hs.1)
      (ih (hat.levels.trans hl) hs.2)

/-- **A file is seen as before** where no replacement is seen. -/
theorem KeepsView.run (h : t.KeepsView S H v) {f : File} (hf : ∀ s ∈ f.sections, s.Holds S H) :
    (t.run f).tree.view v = f.view v := by
  have hs := h.onSections (p := ({} : Progress).enter (.file f)) rfl hf
  rw [Transform.run]
  rcases t.onFileBody_spec (t.onSections (({} : Progress).enter (.file f)) f.sections).2
    (t.onSections (({} : Progress).enter (.file f)) f.sections).1 with heq | ⟨new, hput, -, -⟩
  · dsimp only
    rw [heq, File.view, File.view]
    exact congrArg (fun sections => { f with span := .synthetic, errors := [], sections }) hs
  · rw [h.noFile] at hput
    cases hput

end

end Transform

/-! ## Shapes -/

/-- Nothing of a statement. -/
def Statement.blank (_ : Statement) : Statement := default

section
variable {w : Statement → Statement} {xs xs' ys ys' : List Statement}

/-- Lists that are as long in their first parts are the same in both parts. -/
theorem map_append_inj (hlength : xs.map Statement.blank = xs'.map Statement.blank)
    (h : (xs ++ ys).map w = (xs' ++ ys').map w) : xs.map w = xs'.map w ∧ ys.map w = ys'.map w := by
  rw [List.map_append, List.map_append] at h
  have := congrArg List.length hlength
  exact List.append_inj h (by simpa using this)

mutual

/-- Blocks of one shape and the same viewed statements are viewed the same. -/
theorem ControlBlock.view_of_shape : ∀ {c d : ControlBlock},
    c.view Statement.blank = d.view Statement.blank → c.statements.map w = d.statements.map w →
      c.view w = d.view w
  | ⟨type, span, header, body, branches, close, label⟩,
    ⟨type', span', header', body', branches', close', label'⟩, hc, hs => by
    rw [ControlBlock.view, ControlBlock.view, ControlBlock.mk.injEq] at hc
    obtain ⟨rfl, -, -, hbody, hbranches, hclose, -⟩ := hc
    rw [ControlBlock.statements, ControlBlock.statements, List.map_cons, List.map_cons,
      List.cons.injEq] at hs
    have hitems := congrArg bodyStatements hbody
    have hparts := congrArg branchesStatements hbranches
    rw [bodyStatements_viewBody, bodyStatements_viewBody] at hitems
    rw [branchesStatements_viewBranches, branchesStatements_viewBranches] at hparts
    obtain ⟨hfront, hback⟩ := map_append_inj (by simp [hitems, hparts]) hs.2
    obtain ⟨hfirst, hsecond⟩ := map_append_inj hitems hfront
    have hend : close.map w = close'.map w := by
      cases close with
      | none =>
        rw [Option.map_eq_none_iff.1 hclose.symm]
      | some s =>
        obtain ⟨r, rfl, -⟩ := Option.map_eq_some_iff.1 hclose.symm
        exact congrArg some (List.cons.inj hback).1
    rw [ControlBlock.view, ControlBlock.view, hs.1, viewBody_of_shape hbody hfirst,
      viewBranches_of_shape hbranches hsecond, hend]

/-- The same for bodies. -/
theorem viewBody_of_shape : ∀ {a b : List BodyItem},
    viewBody Statement.blank a = viewBody Statement.blank b →
      (bodyStatements a).map w = (bodyStatements b).map w → viewBody w a = viewBody w b
  | [], [], _, _ => rfl
  | [], _ :: _, h, _ => by cases h
  | _ :: _, [], h, _ => by cases h
  | .statement s :: a, .statement r :: b, h, hs => by
    rw [viewBody, viewBody, List.cons.injEq] at h
    obtain ⟨hfirst, hrest⟩ := List.cons.inj hs
    rw [viewBody, viewBody, viewBody_of_shape h.2 hrest, BodyItem.view, BodyItem.view, hfirst]
  | .statement _ :: _, .control _ :: _, h, _ => by cases h
  | .control _ :: _, .statement _ :: _, h, _ => by cases h
  | .control c :: a, .control d :: b, h, hs => by
    rw [viewBody, viewBody, List.cons.injEq] at h
    have hc := BodyItem.control.inj h.1
    have hlength := congrArg ControlBlock.statements hc
    rw [ControlBlock.statements_view, ControlBlock.statements_view] at hlength
    obtain ⟨hfirst, hrest⟩ := map_append_inj hlength hs
    rw [viewBody, viewBody, viewBody_of_shape h.2 hrest, BodyItem.view, BodyItem.view,
      ControlBlock.view_of_shape hc hfirst]

/-- The same for the branches of blocks. -/
theorem viewBranches_of_shape : ∀ {a b : List Branch},
    viewBranches Statement.blank a = viewBranches Statement.blank b →
      (branchesStatements a).map w = (branchesStatements b).map w →
        viewBranches w a = viewBranches w b
  | [], [], _, _ => rfl
  | [], _ :: _, h, _ => by cases h
  | _ :: _, [], h, _ => by cases h
  | ⟨span, header, body, label⟩ :: a, ⟨span', header', body', label'⟩ :: b, h, hs => by
    rw [viewBranches, viewBranches, List.cons.injEq, Branch.view, Branch.view,
      Branch.mk.injEq] at h
    obtain ⟨⟨-, -, hbody, -⟩, hrest⟩ := h
    rw [branchesStatements, branchesStatements, Branch.statements, Branch.statements,
      List.cons_append, List.cons_append, List.map_cons, List.map_cons, List.cons.injEq] at hs
    have hitems := congrArg bodyStatements hbody
    rw [bodyStatements_viewBody, bodyStatements_viewBody] at hitems
    obtain ⟨hfirst, hsecond⟩ := map_append_inj hitems hs.2
    rw [viewBranches, viewBranches, viewBranches_of_shape hrest hsecond, Branch.view, Branch.view,
      viewBody_of_shape hbody hfirst, hs.1]

end

/-- The same for items of sections. -/
theorem SectionItem.view_of_shape {a b : SectionItem}
    (h : a.view Statement.blank = b.view Statement.blank)
    (hs : a.statements.map w = b.statements.map w) : a.view w = b.view w := by
  cases a with
  | statement s =>
    cases b with
    | statement r => exact congrArg SectionItem.statement (List.cons.inj hs).1
    | block d => cases h
  | block c =>
    cases b with
    | statement r => cases h
    | block d =>
      have hblock := SectionItem.block.inj h
      rw [Block.view, Block.view, Block.mk.injEq] at hblock
      obtain ⟨htype, -, -, hbody, -⟩ := hblock
      obtain ⟨hheader, hrest⟩ := List.cons.inj hs
      rw [SectionItem.view, SectionItem.view, Block.view, Block.view, htype, hheader,
        viewBody_of_shape hbody hrest]

/-- The same for the items of a section. -/
theorem itemsView_of_shape {a b : List SectionItem}
    (h : a.map (SectionItem.view Statement.blank) = b.map (SectionItem.view Statement.blank))
    (hs : (itemsStatements a).map w = (itemsStatements b).map w) :
    a.map (SectionItem.view w) = b.map (SectionItem.view w) := by
  induction a generalizing b with
  | nil => rw [List.map_eq_nil_iff.1 h.symm]
  | cons x a ih =>
    obtain ⟨y, b, rfl, hitem, hrest⟩ := List.map_eq_cons_iff.1 h.symm
    have hlength := congrArg SectionItem.statements hitem
    rw [SectionItem.statements_view, SectionItem.statements_view] at hlength
    obtain ⟨hfirst, hsecond⟩ := map_append_inj hlength.symm hs
    exact congrArg₂ List.cons (SectionItem.view_of_shape hitem.symm hfirst) (ih hrest.symm hsecond)

/-- The same for sections. -/
theorem sectionsView_of_shape {a b : List Section}
    (h : a.map (Section.view fun _ => Statement.blank) =
      b.map (Section.view fun _ => Statement.blank))
    (hs : (a.flatMap Section.statements).map w = (b.flatMap Section.statements).map w) :
    a.map (Section.view fun _ => w) = b.map (Section.view fun _ => w) := by
  induction a generalizing b with
  | nil => rw [List.map_eq_nil_iff.1 h.symm]
  | cons s a ih =>
    obtain ⟨r, b, rfl, hsection, hrest⟩ := List.map_eq_cons_iff.1 h.symm
    have hlength := congrArg Section.statements hsection
    rw [Section.statements_view, Section.statements_view] at hlength
    obtain ⟨hfirst, hsecond⟩ := map_append_inj hlength.symm hs
    rw [Section.view, Section.view, Section.mk.injEq] at hsection
    obtain ⟨hkind, -, hheader, hbody, -⟩ := hsection
    have hheaders := congrArg Option.toList hheader
    rw [Option.toList_map, Option.toList_map] at hheaders
    obtain ⟨hfront, hback⟩ := map_append_inj hheaders.symm hfirst
    have hhead : s.header.map w = r.header.map w := by
      have := congrArg List.head? hfront
      rw [List.head?_map, List.head?_map, Option.head?_toList, Option.head?_toList] at this
      exact this
    have hview : s.view (fun _ => w) = r.view (fun _ => w) := by
      rw [Section.view, Section.view, Section.mk.injEq]
      exact ⟨hkind.symm, rfl, hhead, itemsView_of_shape hbody.symm hback, rfl⟩
    exact congrArg₂ List.cons hview (ih hrest.symm hsecond)

end

/-- Files that show alike, in whatever way, have the same shape. -/
theorem File.shape_of_view {v : View} {f g : File} (h : f.view v = g.view v) :
    (f.view fun _ => Statement.blank) = g.view fun _ => Statement.blank := by
  have hview := congrArg (File.view fun _ => Statement.blank) h
  rwa [File.view_view, File.view_view] at hview

/-- **A file is told by its shape and its statements.** -/
theorem File.view_of_shape {w : Statement → Statement} {f g : File}
    (h : (f.view fun _ => Statement.blank) = g.view fun _ => Statement.blank)
    (hs : f.statements.map w = g.statements.map w) : (f.view fun _ => w) = g.view fun _ => w := by
  rw [File.view, File.view, File.mk.injEq] at h ⊢
  exact ⟨rfl, h.2.1, rfl, sectionsView_of_shape h.2.2.2 hs⟩

end RobotSuite
