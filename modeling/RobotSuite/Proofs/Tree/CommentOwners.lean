/-
# Comments and what they belong to

Behind a comment stand its next siblings.  The first of these that is no comment owns the comment,
unless it is an empty line or there is none (`NextOwns`).  In what is read from a source each
comment stands among the items of a section or body and is marked as owned exactly if it is, and
apart from the marks the model is as it was before them (`comments_owned`).

A mark changes single statements and leaves everything else as it is: kinds, spans, labels, and
which container holds what (`File.mapStatements`).  Where no statement changes, nothing does
(`File.mapStatements_eq_self`).
-/

import RobotSuite.Proofs.Transform.FrozenRegions
import RobotSuite.Proofs.Tree.Fresh

namespace RobotSuite

open Container.children (itemNode)

/-! ## Siblings -/

/-- Whether the first of some nodes that is no comment is there and is not an empty line, as the
types of the nodes tell. -/
def NextOwns (types : List NodeType) : Prop :=
  ∃ t ∈ (types.dropWhile isCommentType).head?, t ≠ .statement .emptyLine

/-- Whether each comment among some siblings is marked exactly if what follows owns it. -/
def MarksComments (siblings : List Node) : Prop :=
  ∀ front s rest, siblings = front ++ .statement s :: rest → s.type = .comment →
    (s.ownedByNext = true ↔ NextOwns (rest.map Node.type))

section
variable {t : NodeType} {types : List NodeType} {s : Statement} {n : Node} {rest : List Node}

/-- A comment hands the question on to what follows it. -/
theorem nextOwns_comment : NextOwns (.statement .comment :: types) ↔ NextOwns types := Iff.rfl

/-- What follows a comment owns it unless it is an empty line. -/
theorem nextOwns_cons (h : t ≠ .statement .comment) :
    NextOwns (t :: types) ↔ t ≠ .statement .emptyLine := by
  have hstop : isCommentType t = false := decide_eq_false h
  simp [NextOwns, hstop]

/-- The scan from the end of a list finds what its beginning tells. -/
theorem ownsAbove_iff {α : Type} {type? : α → Option StatementType} {type : α → NodeType}
    (h : ∀ x t, type? x = some t ↔ type x = .statement t) (xs : List α) :
    ownsAbove type? xs = true ↔ NextOwns (xs.map type) := by
  induction xs with
  | nil => simp [ownsAbove, NextOwns]
  | cons x xs ih =>
    rw [ownsAbove, List.map_cons]
    split
    · rename_i hcomment
      rw [ih, (h x .comment).1 hcomment, nextOwns_comment]
    · rename_i hcomment
      rw [nextOwns_cons fun htype => hcomment ((h x .comment).2 htype), bne_iff_ne]
      exact not_congr (h x .emptyLine)

theorem marksComments_nil : MarksComments [] := fun front s rest h => by
  cases front <;> cases h

/-- The first node is marked rightly, and so are the others. -/
theorem marksComments_cons : MarksComments (n :: rest) ↔
    (∀ s, n = .statement s → s.type = .comment →
      (s.ownedByNext = true ↔ NextOwns (rest.map Node.type))) ∧ MarksComments rest := by
  constructor
  · refine fun h => ⟨fun s hn => h [] s rest (by rw [hn]; rfl), fun front s back hrest => ?_⟩
    exact h (n :: front) s back (by rw [hrest]; rfl)
  · rintro ⟨hfirst, hrest⟩ front s back h
    cases front with
    | nil =>
      obtain ⟨hn, rfl⟩ := List.cons.inj h
      exact hfirst s hn
    | cons m front => exact hrest front s back (List.cons.inj h).2

/-- A container needs no mark. -/
theorem marksComments_container (c : Container) :
    MarksComments (.container c :: rest) ↔ MarksComments rest := by
  rw [marksComments_cons]
  exact and_iff_right fun s hn => nomatch hn

/-- A statement marked by what follows it is marked rightly. -/
theorem marksComments_markOwned (owned : Bool) (h : owned = true ↔ NextOwns (rest.map Node.type)) :
    MarksComments (.statement (s.markOwned owned) :: rest) ↔ MarksComments rest := by
  rw [marksComments_cons]
  refine and_iff_right fun r hr hcomment => ?_
  obtain rfl := Node.statement.inj hr
  rw [s.markOwned_type] at hcomment
  rw [Statement.markOwned, if_pos hcomment]
  exact h

end

/-! ## Bodies and sections -/

/-- A body item's statement type is that of its node. -/
theorem BodyItem.type?_eq_some_iff (item : BodyItem) (t : StatementType) :
    item.type? = some t ↔ item.nodeType = .statement t := by
  cases item with
  | statement s =>
    exact ⟨fun h => congrArg NodeType.statement (Option.some.inj h),
      fun h => congrArg some (NodeType.statement.inj h)⟩
  | control c => exact ⟨nofun, nofun⟩

/-- A section item's statement type is that of its node. -/
theorem SectionItem.type?_eq_some_iff (item : SectionItem) (t : StatementType) :
    item.type? = some t ↔ item.node.type = .statement t := by
  cases item with
  | statement s =>
    exact ⟨fun h => congrArg NodeType.statement (Option.some.inj h),
      fun h => congrArg some (NodeType.statement.inj h)⟩
  | block b => exact ⟨nofun, nofun⟩

/-- Marking keeps the node types of a body. -/
theorem nodeTypes_markOwnedBody (items : List BodyItem) :
    ((markOwnedBody items).map itemNode).map Node.type = items.map BodyItem.nodeType := by
  induction items with
  | nil => rfl
  | cons item items ih =>
    cases item with
    | statement s =>
      rw [markOwnedBody, List.map_cons, List.map_cons, ih]
      exact congrArg (· :: _) (congrArg NodeType.statement (s.markOwned_type _))
    | control c =>
      rw [markOwnedBody, List.map_cons, List.map_cons, ih]
      cases c
      rfl

/-- The comments of a body are marked rightly. -/
theorem marks_markOwnedBody (items : List BodyItem) :
    MarksComments ((markOwnedBody items).map itemNode) := by
  induction items with
  | nil => exact marksComments_nil
  | cons item items ih =>
    cases item with
    | statement s =>
      refine (marksComments_markOwned _ ?_).2 ih
      rw [nodeTypes_markOwnedBody]
      exact ownsAbove_iff BodyItem.type?_eq_some_iff items
    | control c => exact (marksComments_container _).2 ih

mutual

/-- So are those of every container in a body. -/
theorem marks_body : ∀ items : List BodyItem,
    ∀ c ∈ enteredContainers (bodySteps (markOwnedBody items)), MarksComments c.children
  | [], c, hc => by
    rw [markOwnedBody, bodySteps] at hc
    cases hc
  | .statement s :: items, c, hc => by
    rw [markOwnedBody, bodySteps, enteredContainers_append] at hc
    exact marks_body items c hc
  | .control ⟨type, span, header, body, branches, close, label⟩ :: items, c, hc => by
    rw [markOwnedBody, bodySteps, enteredContainers_append, BodyItem.steps, ControlBlock.markOwned,
      enteredContainers_control, List.mem_append, List.mem_cons, List.mem_append] at hc
    obtain (rfl | hc | hc) | hc := hc
    · exact marks_markOwnedBody body
    · exact marks_body body c hc
    · exact marks_branches branches c hc
    · exact marks_body items c hc

/-- So are those of every container in branches. -/
theorem marks_branches : ∀ bs : List Branch,
    ∀ c ∈ enteredContainers (branchesSteps (markOwnedBranches bs)), MarksComments c.children
  | [], c, hc => by
    rw [markOwnedBranches, branchesSteps] at hc
    cases hc
  | ⟨span, header, body, label⟩ :: bs, c, hc => by
    rw [markOwnedBranches, enteredContainers_branches, List.mem_cons, List.mem_append] at hc
    obtain rfl | hc | hc := hc
    · exact marks_markOwnedBody body
    · exact marks_body body c hc
    · exact marks_branches bs c hc

end

/-- Marking keeps the node types of a section. -/
theorem nodeTypes_markOwnedItems (items : List SectionItem) :
    ((markOwnedItems items).map SectionItem.node).map Node.type =
      items.map fun item => item.node.type := by
  induction items with
  | nil => rfl
  | cons item items ih =>
    cases item with
    | statement s =>
      rw [markOwnedItems, List.map_cons, List.map_cons, ih]
      exact congrArg (· :: _) (congrArg NodeType.statement (s.markOwned_type _))
    | block b => rw [markOwnedItems, List.map_cons, List.map_cons, ih]; rfl

/-- The comments of a section and its containers are marked rightly. -/
theorem marks_markOwnedItems (items : List SectionItem) :
    MarksComments ((markOwnedItems items).map SectionItem.node) ∧
      ∀ item ∈ markOwnedItems items, ∀ c ∈ enteredContainers item.steps,
        MarksComments c.children := by
  induction items with
  | nil => exact ⟨marksComments_nil, List.forall_mem_nil _⟩
  | cons item items ih =>
    obtain ⟨hitems, hinner⟩ := ih
    cases item with
    | statement s =>
      refine ⟨(marksComments_markOwned _ ?_).2 hitems,
        List.forall_mem_cons.2 ⟨fun c hc => (nomatch hc), hinner⟩⟩
      rw [nodeTypes_markOwnedItems]
      exact ownsAbove_iff SectionItem.type?_eq_some_iff items
    | block b =>
      refine ⟨(marksComments_container _).2 hitems, List.forall_mem_cons.2 ⟨?_, hinner⟩⟩
      rw [SectionItem.steps, enteredContainers_block, List.forall_mem_cons]
      exact ⟨marks_markOwnedBody b.body, marks_body b.body⟩

/-- The children of a section are the nodes of its items. -/
theorem Container.children_sect (s : Section) :
    (Container.sect s).children = s.body.map SectionItem.node :=
  List.map_congr_left fun item _ => by cases item <;> rfl

/-- The comments of what is read are marked. -/
theorem marks_parseTokens (lines : List (List Token)) :
    ∀ c ∈ (parseTokens lines).containers, MarksComments c.children := by
  rw [enteredContainers_file, List.forall_mem_cons, enteredContainers_flatMap,
    List.forall_mem_flatMap]
  constructor
  · -- the children of a file are sections
    show MarksComments ((parseTokens lines).sections.map fun s => .container (.sect s))
    induction (parseTokens lines).sections with
    | nil => exact marksComments_nil
    | cons s sections ih => exact (marksComments_container _).2 ih
  · rw [parseTokens_sections, List.forall_mem_map]
    intro p _
    obtain ⟨hitems, hinner⟩ := marks_markOwnedItems (buildSection p.1 p.2).1.body
    rw [enteredContainers_section, List.forall_mem_cons, enteredContainers_flatMap,
      List.forall_mem_flatMap, Container.children_sect]
    exact ⟨hitems, hinner⟩

/-! ## Where comments stand -/

/-- A type that is not plain is not that of comments. -/
theorem ne_comment_of_isPlain_eq_false {t : StatementType} (h : t.isPlain = false) :
    t ≠ .comment := by
  rintro rfl
  cases h

/-- An opener is not plain. -/
theorem isPlain_opener (c : ControlType) : c.opener.isPlain = false := by cases c <;> rfl

/-- A branch header is not plain. -/
theorem isPlain_branchHeader {c : ControlType} {t : StatementType} (h : t ∈ c.branchHeaders) :
    t.isPlain = false := by
  rw [StatementType.isPlain, ControlType.isBranchHeader_of_mem h, Bool.not_true, Bool.and_false,
    Bool.false_and]

mutual

/-- A comment of a body is a child of it or of a container in it. -/
theorem comment_body : ∀ items : List BodyItem, bodyTyped items →
    ∀ s ∈ bodyStatements items, s.type = .comment → .statement s ∈ items.map itemNode ∨
      ∃ c ∈ enteredContainers (bodySteps items), .statement s ∈ c.children
  | [], _, s, hs, _ => by
    rw [bodyStatements] at hs
    cases hs
  | .statement r :: items, ⟨_, hitems⟩, s, hs, hcomment => by
    rw [bodyStatements, BodyItem.statements, List.singleton_append, List.mem_cons] at hs
    rw [bodySteps, enteredContainers_append]
    obtain rfl | hs := hs
    · exact .inl List.mem_cons_self
    · exact (comment_body items hitems s hs hcomment).imp (List.mem_cons_of_mem _) id
  | .control ⟨type, span, header, body, branches, close, label⟩ :: items, ⟨hc, hitems⟩, s, hs,
      hcomment => by
    rw [BodyItem.IsTyped, ControlBlock.IsTyped] at hc
    obtain ⟨hheader, hbody, hbranches, hclose⟩ := hc
    rw [bodyStatements, BodyItem.statements, ControlBlock.statements, List.mem_append,
      List.mem_cons, List.mem_append, List.mem_append, Option.mem_toList] at hs
    rw [bodySteps, enteredContainers_append, BodyItem.steps, enteredContainers_control]
    simp only [List.mem_append, List.mem_cons, or_and_right, exists_or, exists_eq_left]
    obtain (rfl | (hs | hs) | hs) | hs := hs
    · exact absurd hcomment (ne_comment_of_isPlain_eq_false (hheader ▸ isPlain_opener type))
    · obtain hs | hs := comment_body body hbody s hs hcomment
      · exact .inr (.inl (.inl hs))
      · exact .inr (.inl (.inr (.inl hs)))
    · exact .inr (.inl (.inr (.inr (comment_branches branches hbranches s hs hcomment))))
    · exact absurd hcomment (ne_comment_of_isPlain_eq_false (hclose s hs ▸ rfl))
    · exact (comment_body items hitems s hs hcomment).imp (List.mem_cons_of_mem _) .inr

/-- A comment of branches is a child of a container in them. -/
theorem comment_branches {type : ControlType} : ∀ bs : List Branch, branchesTyped type bs →
    ∀ s ∈ branchesStatements bs, s.type = .comment →
      ∃ c ∈ enteredContainers (branchesSteps bs), .statement s ∈ c.children
  | [], _, s, hs, _ => by
    rw [branchesStatements] at hs
    cases hs
  | ⟨span, header, body, label⟩ :: bs, ⟨⟨hheader, hbody⟩, hbs⟩, s, hs, hcomment => by
    rw [branchesStatements, Branch.statements, List.mem_append, List.mem_cons] at hs
    rw [enteredContainers_branches]
    simp only [List.mem_append, List.mem_cons, or_and_right, exists_or, exists_eq_left]
    obtain (rfl | hs) | hs := hs
    · exact absurd hcomment (ne_comment_of_isPlain_eq_false (isPlain_branchHeader hheader))
    · obtain hs | hs := comment_body body hbody s hs hcomment
      · exact .inl hs
      · exact .inr (.inl hs)
    · exact .inr (.inr (comment_branches bs hbs s hs hcomment))

end

/-- Each comment of a section stands among the items of the section or of a body. -/
theorem comment_section {sect : Section} (h : sect.IsTyped) :
    ∀ s ∈ sect.statements, s.type = .comment →
      ∃ c ∈ enteredContainers sect.steps, .statement s ∈ c.children := by
  intro s hs hcomment
  rw [Section.statements, List.mem_append, Option.mem_toList] at hs
  rw [enteredContainers_section, enteredContainers_flatMap]
  obtain hs | hs := hs
  · rw [h.header s hs] at hcomment
    cases hcomment
  obtain ⟨item, hitem, hs⟩ := List.mem_flatMap.1 hs
  have htyped := h.items item hitem
  cases item with
  | statement r =>
    obtain rfl := List.mem_singleton.1 hs
    refine ⟨_, List.mem_cons_self, ?_⟩
    rw [Container.children_sect]
    exact List.mem_map_of_mem hitem
  | block b =>
    have hinner : ∃ c ∈ enteredContainers b.steps, .statement s ∈ c.children := by
      rw [enteredContainers_block]
      obtain rfl | hs := List.mem_cons.1 hs
      · have hname : isBlockName b.header = true := htyped.1
        rw [isBlockName, hcomment] at hname
        cases hname
      · obtain hs | ⟨c, hc, hs⟩ := comment_body b.body htyped.2 s hs hcomment
        · exact ⟨_, List.mem_cons_self, hs⟩
        · exact ⟨c, List.mem_cons_of_mem _ hc, hs⟩
    obtain ⟨c, hc, hs⟩ := hinner
    exact ⟨c, List.mem_cons_of_mem _ (List.mem_flatMap.2 ⟨_, hitem, hc⟩), hs⟩

/-- Every comment is a child of some container. -/
theorem comment_parseTokens (lines : List (List Token)) :
    ∀ s ∈ (parseTokens lines).statements, s.type = .comment →
      ∃ c ∈ (parseTokens lines).containers, .statement s ∈ c.children := by
  intro s hs hcomment
  obtain ⟨sect, hsect, hs⟩ := List.mem_flatMap.1 hs
  obtain ⟨c, hc, hchild⟩ :=
    comment_section (isTyped_parseTokens lines sect hsect) s hs hcomment
  rw [enteredContainers_file, enteredContainers_flatMap]
  exact ⟨c, List.mem_cons_of_mem _ (List.mem_flatMap.2 ⟨sect, hsect, hc⟩), hchild⟩

/-! ## Trees in which only statements change -/

section
variable (f : Statement → Statement)

mutual

/-- A body item with its statements changed. -/
def BodyItem.mapStatements : BodyItem → BodyItem
  | .statement s => .statement (f s)
  | .control c => .control c.mapStatements

/-- A control block with its statements changed. -/
def ControlBlock.mapStatements : ControlBlock → ControlBlock
  | ⟨type, span, header, body, branches, close, label⟩ =>
    ⟨type, span, f header, mapBody body, mapBranches branches, close.map f, label⟩

/-- A body with its statements changed. -/
def mapBody : List BodyItem → List BodyItem
  | [] => []
  | item :: items => item.mapStatements :: mapBody items

/-- A branch with its statements changed. -/
def Branch.mapStatements : Branch → Branch
  | ⟨span, header, body, label⟩ => ⟨span, f header, mapBody body, label⟩

/-- Branches with their statements changed. -/
def mapBranches : List Branch → List Branch
  | [] => []
  | b :: bs => b.mapStatements :: mapBranches bs

end

/-- A section item with its statements changed. -/
def SectionItem.mapStatements : SectionItem → SectionItem
  | .statement s => .statement (f s)
  | .block b => .block { b with header := f b.header, body := mapBody f b.body }

/-- A section with its statements changed. -/
def Section.mapStatements (s : Section) : Section :=
  { s with header := s.header.map f, body := s.body.map (SectionItem.mapStatements f) }

/-- A file with its statements changed. -/
def File.mapStatements (file : File) : File :=
  { file with sections := file.sections.map (Section.mapStatements f) }

end

section
variable {f : Statement → Statement}

mutual

/-- A map that keeps the statements keeps the block. -/
theorem ControlBlock.mapStatements_eq_self : ∀ c : ControlBlock, (∀ s ∈ c.statements, f s = s) →
    c.mapStatements f = c
  | ⟨_, _, header, body, branches, close, _⟩, h => by
    rw [ControlBlock.statements, List.forall_mem_cons, List.forall_mem_append,
      List.forall_mem_append] at h
    obtain ⟨hheader, ⟨hbody, hbranches⟩, hclose⟩ := h
    have hend : close.map f = close := by
      cases close with
      | none => rfl
      | some s => exact congrArg some (hclose s List.mem_cons_self)
    rw [ControlBlock.mapStatements, hheader, mapBody_eq_self body hbody,
      mapBranches_eq_self branches hbranches, hend]

/-- The same for a body. -/
theorem mapBody_eq_self : ∀ items : List BodyItem, (∀ s ∈ bodyStatements items, f s = s) →
    mapBody f items = items
  | [], _ => rfl
  | .statement s :: items, h => by
    rw [bodyStatements, BodyItem.statements, List.forall_mem_append] at h
    rw [mapBody, BodyItem.mapStatements, h.1 s List.mem_cons_self, mapBody_eq_self items h.2]
  | .control c :: items, h => by
    rw [bodyStatements, BodyItem.statements, List.forall_mem_append] at h
    rw [mapBody, BodyItem.mapStatements, c.mapStatements_eq_self h.1, mapBody_eq_self items h.2]

/-- The same for the branches of a block. -/
theorem mapBranches_eq_self : ∀ bs : List Branch, (∀ s ∈ branchesStatements bs, f s = s) →
    mapBranches f bs = bs
  | [], _ => rfl
  | ⟨_, header, body, _⟩ :: bs, h => by
    rw [branchesStatements, Branch.statements, List.forall_mem_append, List.forall_mem_cons] at h
    rw [mapBranches, Branch.mapStatements, h.1.1, mapBody_eq_self body h.1.2,
      mapBranches_eq_self bs h.2]

end

/-- The same for an item of a section. -/
theorem SectionItem.mapStatements_eq_self {item : SectionItem}
    (h : ∀ s ∈ item.statements, f s = s) : item.mapStatements f = item := by
  cases item with
  | statement s => exact congrArg SectionItem.statement (h s List.mem_cons_self)
  | block b =>
    obtain ⟨hheader, hbody⟩ := List.forall_mem_cons.1 h
    rw [SectionItem.mapStatements, hheader, mapBody_eq_self b.body hbody]

/-- The same for a section. -/
theorem Section.mapStatements_eq_self {s : Section} (h : ∀ r ∈ s.statements, f r = r) :
    s.mapStatements f = s := by
  obtain ⟨kind, span, header, body, label⟩ := s
  rw [Section.statements, List.forall_mem_append, itemsStatements, List.forall_mem_flatMap] at h
  have hheader : header.map f = header := by
    cases header with
    | none => rfl
    | some r => exact congrArg some (h.1 r List.mem_cons_self)
  have hbody : body.map (SectionItem.mapStatements f) = body :=
    (List.map_congr_left fun item hitem => SectionItem.mapStatements_eq_self (h.2 item hitem)).trans
      (List.map_id' body)
  rw [Section.mapStatements, hheader, hbody]

/-- Where no statement changes, the file does not. -/
theorem File.mapStatements_eq_self {file : File} (h : ∀ s ∈ file.statements, f s = s) :
    file.mapStatements f = file := by
  obtain ⟨span, newline, errors, sections⟩ := file
  rw [File.statements, List.forall_mem_flatMap] at h
  have hsections : sections.map (Section.mapStatements f) = sections :=
    (List.map_congr_left fun s hs => Section.mapStatements_eq_self (h s hs)).trans
      (List.map_id' sections)
  rw [File.mapStatements, hsections]

end

/-! ## What marks change -/

section
variable {f : Statement → Statement}

mutual

/-- A map that looks at no mark undoes the marking of a block. -/
theorem ControlBlock.mapStatements_markOwned (hf : ∀ s owned, f (s.markOwned owned) = f s) :
    ∀ c : ControlBlock, c.markOwned.mapStatements f = c.mapStatements f
  | ⟨_, _, _, body, branches, _, _⟩ => by
    rw [ControlBlock.markOwned, ControlBlock.mapStatements, ControlBlock.mapStatements,
      mapBody_markOwned hf body, mapBranches_markOwned hf branches]

/-- The same for a body. -/
theorem mapBody_markOwned (hf : ∀ s owned, f (s.markOwned owned) = f s) :
    ∀ items : List BodyItem, mapBody f (markOwnedBody items) = mapBody f items
  | [] => rfl
  | .statement s :: items => by
    rw [markOwnedBody, mapBody, mapBody, BodyItem.mapStatements, BodyItem.mapStatements, hf,
      mapBody_markOwned hf items]
  | .control c :: items => by
    rw [markOwnedBody, mapBody, mapBody, BodyItem.mapStatements, BodyItem.mapStatements,
      c.mapStatements_markOwned hf, mapBody_markOwned hf items]

/-- The same for the branches of a block. -/
theorem mapBranches_markOwned (hf : ∀ s owned, f (s.markOwned owned) = f s) :
    ∀ bs : List Branch, mapBranches f (markOwnedBranches bs) = mapBranches f bs
  | [] => rfl
  | ⟨_, _, body, _⟩ :: bs => by
    rw [markOwnedBranches, mapBranches, mapBranches, Branch.mapStatements, Branch.mapStatements,
      mapBody_markOwned hf body, mapBranches_markOwned hf bs]

end

/-- The same for the items of a section. -/
theorem map_mapStatements_markOwned (hf : ∀ s owned, f (s.markOwned owned) = f s)
    (items : List SectionItem) : (markOwnedItems items).map (SectionItem.mapStatements f) =
      items.map (SectionItem.mapStatements f) := by
  induction items with
  | nil => rfl
  | cons item items ih =>
    cases item with
    | statement s =>
      rw [markOwnedItems, List.map_cons, List.map_cons, ih, SectionItem.mapStatements,
        SectionItem.mapStatements, hf]
    | block b =>
      rw [markOwnedItems, List.map_cons, List.map_cons, ih, SectionItem.mapStatements,
        SectionItem.mapStatements, mapBody_markOwned hf]

/-- A file of which the comments are marked. -/
def File.markOwned (file : File) : File :=
  { file with sections := file.sections.map fun s => { s with body := markOwnedItems s.body } }

/-- Marking changes nothing that does not depend on marks. -/
theorem File.mapStatements_markOwned (hf : ∀ s owned, f (s.markOwned owned) = f s) (file : File) :
    file.markOwned.mapStatements f = file.mapStatements f := by
  rw [File.mapStatements, File.mapStatements, File.markOwned, List.map_map]
  refine congrArg (fun sections => { file with sections }) (List.map_congr_left fun s _ => ?_)
  rw [Function.comp_apply, Section.mapStatements, Section.mapStatements,
    map_mapStatements_markOwned hf]

end

/-- A statement without the mark of a comment. -/
def Statement.unmarked (s : Statement) : Statement := { s with ownedByNext := false }

/-- Dropping the mark undoes the marking. -/
theorem unmarked_markOwned (s : Statement) (owned : Bool) :
    (s.markOwned owned).unmarked = s.unmarked := by
  unfold Statement.markOwned
  split <;> rfl

/-- A fresh statement has no mark to drop. -/
theorem Statement.IsFresh.unmarked_eq_self {s : Statement} (h : s.IsFresh) : s.unmarked = s := by
  obtain ⟨type, span, tokens, owned, defect, label⟩ := s
  obtain rfl : owned = false := h.owned
  rfl

/-- The model of some lines of tokens before its comments are marked. -/
def readTokens (lines : List (List Token)) : File :=
  let parts := (sectionParts lines).map fun p => buildSection p.1 p.2
  let sections := parts.map (·.1)
  { sections
    newline := dominantNewline lines
    errors := parts.flatMap (·.2)
    span :=
      ⟨(sections.head?.map fun s => s.span.start).getD .origin,
        (sections.getLast?.map fun s => s.span.stop).getD .origin⟩ }

/-- A file is read, and then its comments are marked. -/
theorem parseTokens_eq_markOwned (lines : List (List Token)) :
    parseTokens lines = (readTokens lines).markOwned := by
  simp only [parseTokens, readTokens, File.markOwned, sectionParts, List.map_map, List.head?_map,
    List.getLast?_map, Option.map_map]
  rfl

/-- The statements read are fresh. -/
theorem isFresh_readTokens (lines : List (List Token)) :
    ∀ s ∈ (readTokens lines).statements, s.IsFresh := by
  rw [File.statements, List.forall_mem_flatMap, readTokens]
  simp only [List.map_map, List.forall_mem_map]
  exact fun p _ => isFresh_buildSection p.1 p.2

/-- **Comments are marked by what they belong to.**  The comments of a source stand among the items
of its sections and bodies.  Each of them is marked as owned exactly if, behind the comments that
follow it there, something other than an empty line follows.  The marks are put on a model without
marks, and without them the model is that one again. -/
theorem comments_owned (source : String) :
    (∀ c ∈ (parse source).containers, MarksComments c.children) ∧
      (∀ s ∈ (parse source).statements, s.type = .comment →
        ∃ c ∈ (parse source).containers, .statement s ∈ c.children) ∧
      parse source = (readTokens (tokenize source)).markOwned ∧
      (parse source).mapStatements Statement.unmarked = readTokens (tokenize source) := by
  refine ⟨marks_parseTokens _, comment_parseTokens _, parseTokens_eq_markOwned _, ?_⟩
  rw [parse, parseTokens_eq_markOwned, File.mapStatements_markOwned unmarked_markOwned]
  exact File.mapStatements_eq_self fun s hs =>
    (isFresh_readTokens (tokenize source) s hs).unmarked_eq_self

end RobotSuite
