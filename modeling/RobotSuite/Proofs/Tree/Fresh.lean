/-
# Statements and trees that are read

A statement is fresh (`Statement.IsFresh`) when it is nothing but what its tokens make: it spans
them, stands at one place, and is not marked as a comment that belongs to the statement below it.
So is every statement of a section that is built (`isFresh_buildSection`).  A file that is read is
made of such sections with their comments marked, and marks change neither the span nor the label of
a statement (`fresh_parseTokens`).

What holds of plain statements, and of each block that is closed around items of which it holds,
holds of all items that nesting makes (`NestedProperty.forall_nest`).  So in what is read each
statement stands where its type places it (`isTyped_parseTokens`): openers head control blocks, the
headers of branches stand in front of the branches of blocks that take them, each END closes a
block, and nothing else does.
-/

import RobotSuite.Proofs.Tree.SoundReading

namespace RobotSuite

/-! ## What a mark leaves as it is -/

namespace Statement
variable (s : Statement) (owned : Bool)

/-- A mark keeps the span. -/
@[simp] theorem markOwned_span : (s.markOwned owned).span = s.span := by
  unfold markOwned
  split <;> rfl

end Statement

/-! ## What is made of tokens -/

/-- Whether a statement spans its tokens, has neither a label nor the mark of a comment, and no
defect unless it is an error. -/
structure Statement.IsFresh (s : Statement) : Prop where
  span : s.span = spanOfTokens s.tokens
  label : s.label = none
  owned : s.ownedByNext = false
  defect : s.type ≠ .error → s.defect = none

section
variable {ss : List Statement}

/-- A created statement is fresh. -/
theorem isFresh_create (type : StatementType) (ts : List Token) :
    (Statement.create type ts).IsFresh := ⟨rfl, rfl, rfl, fun _ => rfl⟩

/-- An error statement is fresh. -/
theorem isFresh_ofDefect (defect : Defect) (ts : List Token) :
    (Statement.ofDefect defect ts).IsFresh := ⟨rfl, rfl, rfl, fun h => absurd rfl h⟩

/-- A classified statement is fresh. -/
theorem isFresh_classify (kind : SectionKind) (ts : List Token) :
    (classify kind ts).1.IsFresh := by
  unfold classify checkSetting misplaced
  split
  · exact isFresh_ofDefect _ ts
  · dsimp only
    split
    · exact isFresh_ofDefect _ ts
    · split
      · exact isFresh_create _ ts
      · split
        · exact isFresh_ofDefect _ ts
        · split <;> exact isFresh_create _ ts

/-- A fresh statement turned into an error is fresh. -/
theorem Statement.IsFresh.asError {s : Statement} (h : s.IsFresh) (defect : Defect) :
    (asError s defect).IsFresh := by
  rw [RobotSuite.asError]
  split
  · exact ⟨h.span, h.label, h.owned, fun ht => absurd rfl ht⟩
  · exact isFresh_ofDefect defect s.tokens

/-- Fresh statements checked against the open blocks are fresh. -/
theorem isFresh_kept (h : ∀ s ∈ ss, s.IsFresh) (opened : List Statement) :
    ∀ s ∈ kept opened ss, s.IsFresh := by
  induction ss generalizing opened with
  | nil => exact List.forall_mem_nil _
  | cons s ss ih =>
    rw [List.forall_mem_cons] at h
    refine List.forall_mem_cons.2 ⟨?_, ih h.2 _⟩
    rw [keep]
    cases misfit? opened s with
    | none => exact h.1
    | some defect => exact h.1.asError defect

/-- An item in front of the blocks is fresh. -/
theorem isFresh_leadingItem (owner : BlockType) {s : Statement} (h : s.IsFresh) :
    ∀ r ∈ (leadingItem owner s).1.statements, r.IsFresh := by
  rw [leadingItem]
  split
  · exact List.forall_mem_singleton.2 h
  · exact List.forall_mem_singleton.2 (isFresh_ofDefect _ s.tokens)

/-- The statements of a block are fresh. -/
theorem isFresh_blockPart (owner : BlockType) {p : Option Statement × List Statement}
    (h : ∀ s ∈ p.1.toList ++ p.2, s.IsFresh) :
    ∀ s ∈ itemsStatements (blockPart owner p).1, s.IsFresh := by
  obtain ⟨header, ss⟩ := p
  cases header with
  | none =>
    rw [blockPart, itemsStatements, List.map_map, List.flatMap_map, List.forall_mem_flatMap]
    exact fun s hs => isFresh_leadingItem owner (h s hs)
  | some header =>
    rw [Option.toList_some, List.singleton_append, List.forall_mem_cons] at h
    rw [blockPart, itemsStatements, List.flatMap_singleton, SectionItem.statements,
      Block.statements, buildBlock, bodyStatements_nest]
    exact List.forall_mem_cons.2 ⟨h.1, isFresh_kept h.2 []⟩

/-- The statements of a section's items are fresh. -/
theorem isFresh_buildItems (kind : SectionKind) (groups : List (List Token)) :
    ∀ s ∈ itemsStatements (buildItems kind groups).1, s.IsFresh := by
  have hread : ∀ s ∈ (groups.map (classify kind)).map (·.1), s.IsFresh := by
    rw [List.map_map, List.forall_mem_map]
    exact fun ts _ => isFresh_classify kind ts
  rw [buildItems]
  cases kind.blockType? with
  | none =>
    dsimp only
    rw [itemsStatements_map_statement]
    exact hread
  | some owner =>
    dsimp only
    rw [buildBlocks, itemsStatements_flatMap, List.flatMap_map, List.forall_mem_flatMap]
    refine fun p hp => isFresh_blockPart owner fun s hs => hread s ?_
    rw [← flatMap_splitParts isBlockName ((groups.map (classify kind)).map (·.1))]
    exact List.mem_flatMap.2 ⟨p, hp, hs⟩

/-- **What is built is fresh.** -/
theorem isFresh_buildSection (header : Option (List Token)) (groups : List (List Token)) :
    ∀ s ∈ (buildSection header groups).1.statements, s.IsFresh := by
  obtain ⟨hheader, hbody, -⟩ := buildSection_spec header groups
  rw [Section.statements, hheader, hbody, List.forall_mem_append]
  refine ⟨fun s hs => ?_, isFresh_buildItems _ groups⟩
  obtain ⟨ts, -, rfl⟩ := Option.map_eq_some_iff.1 (Option.mem_toList.1 hs)
  exact isFresh_create _ ts

end

/-- What is read is fresh but for the marks of its comments. -/
theorem fresh_parseTokens (lines : List (List Token)) :
    ∀ s ∈ (parseTokens lines).statements, ({ s with ownedByNext := false } : Statement).IsFresh ∧
      (s.type ≠ .comment → s.ownedByNext = false) := by
  rw [File.statements, List.forall_mem_flatMap, parseTokens_sections, List.forall_mem_map]
  intro p _ s hs
  let facts (s : Statement) : Statement × Bool :=
    ({ s with ownedByNext := false }, s.type != .comment && s.ownedByNext)
  have hmark (s : Statement) (owned : Bool) : facts (s.markOwned owned) = facts s := by
    unfold Statement.markOwned
    split
    · simp [facts, ‹s.type = .comment›]
    · rfl
  have hmem : facts s ∈ (markedSection p).statements.map facts := List.mem_map_of_mem hs
  rw [markedSection, map_markOwned_section hmark] at hmem
  obtain ⟨r, hr, hsame⟩ := List.mem_map.1 hmem
  have hfresh := isFresh_buildSection p.1 p.2 r hr
  obtain ⟨hmodel, howned⟩ := Prod.mk.inj hsame
  rw [hfresh.owned, Bool.and_false] at howned
  rw [← hmodel]
  exact ⟨⟨hfresh.span, hfresh.label, rfl, hfresh.defect⟩, fun hc => by simpa [hc] using howned.symm⟩

/-! ## What nesting keeps -/

section
variable (Q : BodyItem → Prop)

/-- Whether the headers of an open block are what its kind of block takes, and a property holds of
the items in it. -/
structure OpenBlock.IsFilled (b : OpenBlock) : Prop where
  header : b.header.type = b.type.opener
  body : ∀ item ∈ b.body, Q item
  branches : ∀ p ∈ b.branches, p.1.type ∈ b.type.branchHeaders ∧ ∀ item ∈ p.2, Q item

/-- Whether a property holds of all items that are nested so far. -/
structure Nesting.IsFilled (n : Nesting) : Prop where
  root : ∀ item ∈ n.root, Q item
  stack : ∀ b ∈ n.stack, b.IsFilled Q

/-- A property that holds of plain statements, and of what is closed around items of which it
holds. -/
structure NestedProperty : Prop where
  plain : ∀ {s : Statement}, s.type.isPlain = true → Q (.statement s)
  close : ∀ {b : OpenBlock} {blockEnd : Option Statement}, b.IsFilled Q →
    (∀ s ∈ blockEnd, s.type = .blockEnd) → Q (.control (b.close blockEnd))

end

section
variable {Q : BodyItem → Prop} {n : Nesting} {item : BodyItem}

/-- An open block is filled with what is pushed. -/
theorem OpenBlock.IsFilled.push {b : OpenBlock} (h : b.IsFilled Q) (hitem : Q item) :
    (b.push item).IsFilled Q := by
  obtain ⟨-, heq⟩ | ⟨front, last, items, hbranches, heq⟩ := b.push_eq item
  · rw [heq]
    exact ⟨h.header, List.forall_mem_append.2 ⟨h.body, List.forall_mem_singleton.2 hitem⟩,
      h.branches⟩
  · have hall := h.branches
    rw [hbranches, List.forall_mem_append, List.forall_mem_singleton] at hall
    rw [heq]
    exact ⟨h.header, h.body, List.forall_mem_append.2 ⟨hall.1, List.forall_mem_singleton.2
      ⟨hall.2.1, List.forall_mem_append.2 ⟨hall.2.2, List.forall_mem_singleton.2 hitem⟩⟩⟩⟩

/-- The open blocks are filled with what is pushed. -/
theorem Nesting.IsFilled.push (h : n.IsFilled Q) (hitem : Q item) : (n.push item).IsFilled Q := by
  unfold Nesting.push
  split
  · exact ⟨List.forall_mem_append.2 ⟨h.root, List.forall_mem_singleton.2 hitem⟩, h.stack⟩
  · rename_i b rest hstack
    have hall := h.stack
    rw [hstack, List.forall_mem_cons] at hall
    exact ⟨h.root, List.forall_mem_cons.2 ⟨hall.1.push hitem, hall.2⟩⟩

/-- An error is plain. -/
theorem isPlain_asError (s : Statement) (defect : Defect) :
    (asError s defect).type.isPlain = true := by
  unfold asError
  split <;> rfl

namespace NestedProperty
variable (hQ : NestedProperty Q)
include hQ

/-- A rejection fills the open blocks with an error. -/
theorem reject (h : n.IsFilled Q) (s : Statement) (defect : Defect) :
    (n.reject defect (asError s defect)).IsFilled Q := by
  have hpush := h.push (hQ.plain (isPlain_asError s defect))
  exact ⟨hpush.root, hpush.stack⟩

/-- **One step:** of what joins, is closed or is kept as an error, the property holds. -/
theorem step (h : n.IsFilled Q) (s : Statement) : (n.step s).IsFilled Q := by
  have hmove := Nesting.move_step n s
  generalize n.step s = after at hmove
  cases hmove with
  | opens hopener =>
    exact ⟨h.root, List.forall_mem_cons.2
      ⟨⟨hopener, List.forall_mem_nil _, List.forall_mem_nil _⟩, h.stack⟩⟩
  | @branches b rest hstack htakes =>
    have hall := h.stack
    rw [hstack, List.forall_mem_cons] at hall
    have hbranch : (b.branch s).IsFilled Q := ⟨hall.1.header, hall.1.body,
      List.forall_mem_append.2 ⟨hall.1.branches,
        List.forall_mem_singleton.2 ⟨htakes, List.forall_mem_nil _⟩⟩⟩
    exact ⟨h.root, List.forall_mem_cons.2 ⟨hbranch, hall.2⟩⟩
  | @closes b rest hstack hend =>
    have hall := h.stack
    rw [hstack, List.forall_mem_cons] at hall
    have hrest : Nesting.IsFilled Q { n with stack := rest } := ⟨h.root, hall.2⟩
    exact hrest.push (hQ.close hall.1 fun r hr => Option.some.inj hr ▸ hend)
  | joins hplain => exact h.push (hQ.plain hplain)
  | strayBranch hbranch _ =>
    rw [Nesting.rejectBranch_eq n hbranch]
    exact hQ.reject h s _
  | strayEnd hend _ =>
    rw [Nesting.rejectEnd_eq n hend]
    exact hQ.reject h s _

/-- Building fills the open blocks with what the steps make. -/
theorem foldl_step (h : n.IsFilled Q) (ss : List Statement) :
    (ss.foldl Nesting.step n).IsFilled Q := by
  induction ss generalizing n with
  | nil => exact h
  | cons s ss ih => exact ih (hQ.step h s)

/-- Blocks that are left open at the end are closed one in another. -/
theorem forall_closeAll {root : List BodyItem} {errors : List ParseError} {stack : List OpenBlock}
    (hroot : ∀ item ∈ root, Q item) (hstack : ∀ b ∈ stack, b.IsFilled Q) :
    ∀ item ∈ (Nesting.closeAll root errors stack).1, Q item := by
  have hopen : ∀ s ∈ (none : Option Statement), s.type = .blockEnd := fun s hs => nomatch hs
  fun_induction Nesting.closeAll root errors stack with
  | case1 => exact hroot
  | case2 errors b =>
    have hb := hQ.close (hstack b List.mem_cons_self) hopen
    exact List.forall_mem_append.2 ⟨hroot, List.forall_mem_singleton.2 hb⟩
  | case3 errors b outer rest ih =>
    rw [List.forall_mem_cons, List.forall_mem_cons] at hstack
    obtain ⟨hb, houter, hrest⟩ := hstack
    exact ih (List.forall_mem_cons.2 ⟨houter.push (hQ.close hb hopen), hrest⟩)

/-- **A run:** the property holds of all items that nesting makes. -/
theorem forall_nest (ss : List Statement) : ∀ item ∈ (nest ss).1, Q item := by
  have hstart : Nesting.IsFilled Q {} := ⟨List.forall_mem_nil _, List.forall_mem_nil _⟩
  have hrun := hQ.foldl_step hstart ss
  rw [nest]
  exact hQ.forall_closeAll hrun.root hrun.stack

end NestedProperty

end

/-! ## Statements where their types place them -/

mutual

/-- Whether the statements of a body item stand where their types place them. -/
def BodyItem.IsTyped : BodyItem → Prop
  | .statement s => s.type.isPlain = true
  | .control c => c.IsTyped

/-- Whether the statements of a control block stand where their types place them.  It need not be
closed. -/
def ControlBlock.IsTyped : ControlBlock → Prop
  | ⟨type, _, header, body, branches, close, _⟩ =>
    header.type = type.opener ∧ bodyTyped body ∧ branchesTyped type branches ∧
      ∀ s ∈ close, s.type = .blockEnd

/-- Whether the statements of a body stand where their types place them. -/
def bodyTyped : List BodyItem → Prop
  | [] => True
  | item :: items => item.IsTyped ∧ bodyTyped items

/-- Whether the statements of a branch stand where their types place them. -/
def Branch.IsTyped (type : ControlType) : Branch → Prop
  | ⟨_, header, body, _⟩ => header.type ∈ type.branchHeaders ∧ bodyTyped body

/-- Whether the statements of branches stand where their types place them. -/
def branchesTyped (type : ControlType) : List Branch → Prop
  | [] => True
  | b :: bs => b.IsTyped type ∧ branchesTyped type bs

end

/-- Whether the statements of a section item stand where their types place them. -/
def SectionItem.IsTyped : SectionItem → Prop
  | .statement s => s.type.isPlain = true
  | .block b => isBlockName b.header = true ∧ bodyTyped b.body

/-- Whether the statements of a section stand where their types place them. -/
structure Section.IsTyped (s : Section) : Prop where
  header : ∀ h ∈ s.header, h.type = .sectionHeader
  items : ∀ item ∈ s.body, item.IsTyped

/-- A body is typed when its items are. -/
theorem bodyTyped_iff {items : List BodyItem} : bodyTyped items ↔ ∀ item ∈ items, item.IsTyped := by
  induction items with
  | nil => exact ⟨fun _ => List.forall_mem_nil _, fun _ => trivial⟩
  | cons item items ih => rw [bodyTyped, ih, List.forall_mem_cons]

/-- Branches are typed when each is. -/
theorem branchesTyped_iff {type : ControlType} {bs : List Branch} :
    branchesTyped type bs ↔ ∀ b ∈ bs, b.IsTyped type := by
  induction bs with
  | nil => exact ⟨fun _ => List.forall_mem_nil _, fun _ => trivial⟩
  | cons b bs ih => rw [branchesTyped, ih, List.forall_mem_cons]

/-- Being typed is kept by nesting. -/
theorem isTyped_nested : NestedProperty BodyItem.IsTyped where
  plain h := by rwa [BodyItem.IsTyped]
  close h hend := by
    rw [BodyItem.IsTyped, OpenBlock.close, ControlBlock.IsTyped, bodyTyped_iff, branchesTyped_iff,
      List.forall_mem_map]
    refine ⟨h.header, h.body, fun p hp => ?_, hend⟩
    obtain ⟨htakes, hitems⟩ := h.branches p hp
    exact ⟨htakes, bodyTyped_iff.2 hitems⟩

/-- A nested body is typed. -/
theorem bodyTyped_nest (ss : List Statement) : bodyTyped (nest ss).1 :=
  bodyTyped_iff.2 (isTyped_nested.forall_nest ss)

/-! ## Sections -/

/-- The items of a block's part are typed. -/
theorem isTyped_blockPart (owner : BlockType) {p : Option Statement × List Statement}
    (h : ∀ s ∈ p.1, isBlockName s = true) : ∀ item ∈ (blockPart owner p).1, item.IsTyped := by
  obtain ⟨header, ss⟩ := p
  cases header with
  | none =>
    rw [blockPart, List.map_map, List.forall_mem_map]
    intro s _
    rw [Function.comp_apply, leadingItem]
    split
    · rename_i htype
      simp only [Bool.or_eq_true, decide_eq_true_eq] at htype
      show s.type.isPlain = true
      obtain (htype | htype) | htype := htype <;> rw [htype] <;> rfl
    · rfl
  | some header =>
    exact List.forall_mem_singleton.2 ⟨h header rfl, bodyTyped_nest ss⟩

/-- Without blocks, each statement of a section is plain. -/
theorem isPlain_classify {kind : SectionKind} (hk : kind.blockType? = none) (ts : List Token) :
    (classify kind ts).1.type.isPlain = true := by
  have hdata : (dataType kind (dataTokens ts)).isPlain = true := by
    cases kind <;> first | rfl | cases hk
  unfold classify checkSetting misplaced
  split
  · rfl
  · dsimp only
    split
    · rfl
    · split
      · show (if _ then StatementType.emptyLine else .comment).isPlain = true
        split <;> rfl
      · split
        · rfl
        · split <;> exact hdata

/-- The items of a section are typed. -/
theorem isTyped_buildItems (kind : SectionKind) (groups : List (List Token)) :
    ∀ item ∈ (buildItems kind groups).1, item.IsTyped := by
  rw [buildItems]
  cases hk : kind.blockType? with
  | none =>
    simp only [List.map_map, List.forall_mem_map]
    exact fun ts _ => isPlain_classify hk ts
  | some owner =>
    simp only [buildBlocks, List.forall_mem_flatMap, List.forall_mem_map]
    exact fun p hp => isTyped_blockPart owner fun s hs => ((splitParts_spec p hp).1 s hs).1

mutual

/-- Marking keeps a block typed. -/
theorem isTyped_markOwned : ∀ c : ControlBlock, c.IsTyped → c.markOwned.IsTyped
  | ⟨_, _, _, body, branches, _, _⟩, ⟨hheader, hbody, hbranches, hend⟩ =>
    ⟨hheader, bodyTyped_markOwned body hbody, branchesTyped_markOwned branches hbranches, hend⟩

/-- Marking keeps a body typed. -/
theorem bodyTyped_markOwned : ∀ items : List BodyItem, bodyTyped items →
    bodyTyped (markOwnedBody items)
  | [], _ => trivial
  | .statement s :: items, ⟨hs, hitems⟩ => by
    rw [BodyItem.IsTyped] at hs
    rw [markOwnedBody, bodyTyped, BodyItem.IsTyped, s.markOwned_type]
    exact ⟨hs, bodyTyped_markOwned items hitems⟩
  | .control c :: items, ⟨hc, hitems⟩ => by
    rw [BodyItem.IsTyped] at hc
    rw [markOwnedBody, bodyTyped, BodyItem.IsTyped]
    exact ⟨isTyped_markOwned c hc, bodyTyped_markOwned items hitems⟩

/-- Marking keeps branches typed. -/
theorem branchesTyped_markOwned {type : ControlType} : ∀ bs : List Branch, branchesTyped type bs →
    branchesTyped type (markOwnedBranches bs)
  | [], _ => trivial
  | ⟨_, _, body, _⟩ :: bs, ⟨⟨hheader, hbody⟩, hbs⟩ =>
    ⟨⟨hheader, bodyTyped_markOwned body hbody⟩, branchesTyped_markOwned bs hbs⟩

end

/-- Marking keeps the items of a section typed. -/
theorem isTyped_markOwnedItems {items : List SectionItem} (h : ∀ item ∈ items, item.IsTyped) :
    ∀ item ∈ markOwnedItems items, item.IsTyped := by
  induction items with
  | nil => exact h
  | cons item items ih =>
    obtain ⟨hitem, hitems⟩ := List.forall_mem_cons.1 h
    cases item with
    | statement s =>
      refine List.forall_mem_cons.2 ⟨?_, ih hitems⟩
      rw [SectionItem.IsTyped] at hitem ⊢
      rwa [s.markOwned_type]
    | block b =>
      exact List.forall_mem_cons.2 ⟨⟨hitem.1, bodyTyped_markOwned b.body hitem.2⟩, ih hitems⟩

/-- **In what is read, each statement stands where its type places it.** -/
theorem isTyped_parseTokens (lines : List (List Token)) :
    ∀ s ∈ (parseTokens lines).sections, s.IsTyped := by
  rw [parseTokens_sections, List.forall_mem_map]
  intro p _
  obtain ⟨hheader, hbody, -⟩ := buildSection_spec p.1 p.2
  constructor
  · rw [markedSection, hheader]
    intro h hh
    obtain ⟨ts, -, rfl⟩ := Option.map_eq_some_iff.1 hh
    rfl
  · rw [markedSection, hbody]
    exact isTyped_markOwnedItems (isTyped_buildItems _ p.2)

end RobotSuite
