/-
# What is written is read back

The statements of a sound, valid and legible model, read from its text, are of the same
types and hold the same cells and comments.  They are cut into the same sections and blocks,
and nest in the same way: the text is read without a defect, and its outline is that of the
model (`File.IsSound.read_back`).
-/

import RobotSuite.Proofs.Tree.FileLines

namespace RobotSuite

/-! ## Cutting into parts -/

section
variable {α : Type} {opens : α → Bool} {xs rest : List α}

/-- A list that starts with an element that opens a part has no part in front of it. -/
theorem splitParts_of_head (h : ∀ x ∈ rest.head?, opens x = true) :
    ∀ p ∈ (splitParts opens rest).head?, p.1 ≠ none := by
  cases rest with
  | nil => simp [splitParts]
  | cons x xs =>
    have hx : opens x = true := h x rfl
    rw [splitParts]
    split <;> simp [hx]

/-- Elements that open nothing form a part of their own in front of one that does. -/
theorem splitParts_append (hne : xs ≠ []) (hx : ∀ x ∈ xs, opens x = false)
    (hr : ∀ x ∈ rest.head?, opens x = true) :
    splitParts opens (xs ++ rest) = (none, xs) :: splitParts opens rest := by
  induction xs with
  | nil => exact absurd rfl hne
  | cons x xs ih =>
    have hox : opens x = false := hx x List.mem_cons_self
    rw [List.cons_append, splitParts]
    by_cases hxs : xs = []
    · subst hxs
      have hhead := splitParts_of_head hr
      rw [List.nil_append]
      cases hp : splitParts opens rest with
      | nil => simp [hox]
      | cons p parts =>
        obtain ⟨header, ys⟩ := p
        cases header with
        | none => exact absurd rfl (hhead (none, ys) (by simp [hp]))
        | some h => simp [hox]
    · rw [ih hxs fun y hy => hx y (List.mem_cons_of_mem _ hy)]
      simp [hox]

/-- An element that opens a part is followed by those that open nothing. -/
theorem splitParts_cons {h : α} (hh : opens h = true) (hx : ∀ x ∈ xs, opens x = false)
    (hr : ∀ x ∈ rest.head?, opens x = true) :
    splitParts opens (h :: (xs ++ rest)) = (some h, xs) :: splitParts opens rest := by
  rw [splitParts]
  by_cases hxs : xs = []
  · subst hxs
    have hhead := splitParts_of_head hr
    rw [List.nil_append]
    cases hp : splitParts opens rest with
    | nil => simp [hh]
    | cons p parts =>
      obtain ⟨header, ys⟩ := p
      cases header with
      | none => exact absurd rfl (hhead (none, ys) (by simp [hp]))
      | some h => simp [hh]
  · rw [splitParts_append hxs hx hr]
    simp [hh]

end

/-! ## Blocks -/

/-- Statements outlined in two parts are two parts. -/
theorem map_outline_append {ss : List Statement} {a b : List Outline}
    (h : ss.map Statement.outline = a ++ b) :
    ∃ front back, ss = front ++ back ∧ front.map Statement.outline = a ∧
      back.map Statement.outline = b :=
  List.map_eq_append_iff.1 h

/-- Statements with the outlines of others are names of blocks where these are. -/
theorem isBlockName_of_outline {ss rs : List Statement} {b : Bool}
    (h : ss.map Statement.outline = rs.map Statement.outline)
    (hr : ∀ r ∈ rs, isBlockName r = b) : ∀ s ∈ ss, isBlockName s = b := by
  intro s hs
  have hmem : s.outline ∈ rs.map Statement.outline := h ▸ List.mem_map_of_mem hs
  obtain ⟨r, hr', ho⟩ := List.mem_map.1 hmem
  rw [← hr r hr', isBlockName, isBlockName, Statement.type_of_outline ho]

/-- A block that is named and well formed. -/
def Block.IsFormed (b : Block) : Prop :=
  b.header.type = b.type.nameType ∧ ∃ P, bodyHolds P b.body

/-- A block built of statements outlined alike is outlined alike. -/
theorem buildBlock_outline {b : Block} (h : b.IsFormed) {header : Statement} {ss : List Statement}
    (hh : header.outline = b.header.outline)
    (hs : ss.map Statement.outline = (bodyStatements b.body).map Statement.outline) :
    (buildBlock b.type header ss).2 = [] ∧ (buildBlock b.type header ss).1.outline = b.outline := by
  obtain ⟨-, P, hbody⟩ := h
  obtain ⟨hn, ho⟩ := nest_outline hbody hs
  rw [buildBlock]
  exact ⟨hn, by rw [Block.outline, Block.outline, hh, ho]⟩

/-- Blocks are built from statements with the same outlines. -/
theorem blockParts_outline (owner : BlockType) {blocks : List Block}
    (hb : ∀ b ∈ blocks, b.IsFormed) {ss : List Statement}
    (hs : ss.map Statement.outline = (blocks.flatMap Block.statements).map Statement.outline) :
    (∀ s ∈ ss.head?, isBlockName s = true) ∧
      ((splitParts isBlockName ss).map (blockPart owner)).flatMap (·.2) = [] ∧
      (((splitParts isBlockName ss).map (blockPart owner)).flatMap (·.1)).map SectionItem.outline =
        blocks.map Block.outline := by
  induction blocks generalizing ss with
  | nil =>
    obtain rfl : ss = [] := by simpa using hs
    simp [splitParts]
  | cons b blocks ih =>
    obtain ⟨hname, P, hbody⟩ := hb b List.mem_cons_self
    rw [List.flatMap_cons, Block.statements, List.cons_append, List.map_cons,
      List.map_append] at hs
    obtain ⟨header, more, rfl, hh, hmore⟩ := List.map_eq_cons_iff.1 hs
    obtain ⟨body, rest, rfl, hfront, hrest⟩ := map_outline_append hmore
    obtain ⟨hhead, herr, hout⟩ := ih (fun c hc => hb c (List.mem_cons_of_mem _ hc)) hrest
    have htype := (Statement.type_of_outline hh).trans hname
    have hheader := isBlockName_of_nameType htype
    have hnone : ∀ s ∈ body, isBlockName s = false :=
      isBlockName_of_outline hfront fun s hs => (bodyHolds_statements hbody s hs).2
    have hblock : (if header.type = .testCaseName then BlockType.testCase else .keyword) =
        b.type := by
      rw [htype]
      cases b.type <;> rfl
    obtain ⟨he, ho⟩ := buildBlock_outline ⟨hname, P, hbody⟩ hh hfront
    refine ⟨by simpa using hheader, ?_, ?_⟩
    · rw [splitParts_cons hheader hnone hhead, List.map_cons, List.flatMap_cons, herr, blockPart,
        hblock]
      simpa using he
    · rw [splitParts_cons hheader hnone hhead, List.map_cons, List.flatMap_cons, List.map_append,
        hout, blockPart, hblock]
      simpa [SectionItem.outline] using ho

/-- Items of a section with blocks are built from statements with the same outlines. -/
theorem buildBlocks_outline (owner : BlockType) {lead : List Statement} {blocks : List Block}
    (hl : ∀ s ∈ lead, s.type = .emptyLine ∨ s.type = .comment)
    (hb : ∀ b ∈ blocks, b.IsFormed) {ss : List Statement}
    (hs : ss.map Statement.outline =
      (lead ++ blocks.flatMap Block.statements).map Statement.outline) :
    (buildBlocks owner ss).2 = [] ∧
      (buildBlocks owner ss).1.map SectionItem.outline =
        lead.map Statement.outline ++ blocks.map Block.outline := by
  rw [List.map_append] at hs
  obtain ⟨front, rest, rfl, hfront, hrest⟩ := map_outline_append hs
  obtain ⟨hhead, herr, hout⟩ := blockParts_outline owner hb hrest
  have htypes : ∀ s ∈ front, s.type = .emptyLine ∨ s.type = .comment := by
    intro s hs
    have hmem : s.outline ∈ lead.map Statement.outline := hfront ▸ List.mem_map_of_mem hs
    obtain ⟨r, hr, ho⟩ := List.mem_map.1 hmem
    rw [← Statement.type_of_outline ho]
    exact hl r hr
  have hnone : ∀ s ∈ front, isBlockName s = false := by
    intro s hs
    rcases htypes s hs with h | h <;> simp [isBlockName, h]
  have hlead : front.map (leadingItem owner) = front.map fun s => (.statement s, []) := by
    refine List.map_congr_left fun s hs => ?_
    rcases htypes s hs with h | h <;> simp [leadingItem, h]
  rw [buildBlocks]
  by_cases hne : front = []
  · subst hne
    obtain rfl : lead = [] := by simpa [eq_comm] using hfront
    simp only [List.nil_append, List.map_nil]
    exact ⟨herr, hout⟩
  · rw [splitParts_append hne hnone hhead, List.map_cons, List.flatMap_cons, List.flatMap_cons,
      herr, List.map_append, hout, blockPart, hlead, ← hfront]
    simp [Function.comp_def, SectionItem.outline]

/-! ## Sections -/

/-- Groups of tokens are read as the statements that they make up. -/
theorem classify_outline {kind : SectionKind} {ss : List Statement}
    (hr : ∀ s ∈ ss, ReadsAs kind s.type s.tokens) {groups : List (List Token)}
    (hg : groups.map (·.map Token.bare) = ss.map fun s => s.tokens.map Token.bare) :
    (groups.map (classify kind)).flatMap (·.2) = [] ∧
      ((groups.map (classify kind)).map (·.1)).map Statement.outline =
        ss.map Statement.outline := by
  induction ss generalizing groups with
  | nil =>
    obtain rfl : groups = [] := by simpa using hg
    simp
  | cons s ss ih =>
    rw [List.map_cons] at hg
    obtain ⟨g, gs, rfl, hgs, hrest⟩ := List.map_eq_cons_iff.1 hg
    obtain ⟨he, ho⟩ := ih (fun r hm => hr r (List.mem_cons_of_mem _ hm)) hrest
    obtain ⟨htype, herr⟩ := (hr s List.mem_cons_self).of_bare hgs
    have hout : (classify kind g).1.outline = s.outline := by
      rw [Statement.outline, Statement.outline, classify_tokens, htype, ← dataTexts_map_bare,
        hgs, dataTexts_map_bare, ← commentTexts_map_bare g, hgs, commentTexts_map_bare]
    constructor
    · rw [List.map_cons, List.flatMap_cons, herr, he]
      rfl
    · rw [List.map_cons, List.map_cons, List.map_cons, hout, ho, List.map_cons]

/-- A section that takes a type of block is owned by it. -/
theorem blockType?_of_inSection {kind : SectionKind} {type : BlockType}
    (h : type.inSection kind = true) : kind.blockType? = some type := by
  cases type <;> cases kind <;> simp_all [BlockType.inSection, SectionKind.blockType?]

/-- In front of the blocks stand empty lines and comments. -/
theorem type_of_inSection {kind : SectionKind} {owner : BlockType} {t : StatementType}
    (hk : kind.blockType? = some owner) (ht : t.inSection kind = true) (he : t ≠ .error) :
    t = .emptyLine ∨ t = .comment := by
  cases kind <;> simp_all [SectionKind.blockType?] <;>
    cases t <;> simp_all [StatementType.inSection]

/-- The items of a section are built from the tokens of its statements. -/
theorem buildItems_outline {kind : SectionKind} {items : List SectionItem}
    (hi : ∀ item ∈ items, item.Holds (Statement.IsSound kind) kind)
    (hv : itemsIssues kind false items = []) {groups : List (List Token)}
    (hg : groups.map (·.map Token.bare) =
      (itemsStatements items).map fun s => s.tokens.map Token.bare) :
    (buildItems kind groups).2 = [] ∧
      (buildItems kind groups).1.map SectionItem.outline = items.map SectionItem.outline := by
  have hreads : ∀ s ∈ itemsStatements items, ReadsAs kind s.type s.tokens := by
    intro s hs
    obtain ⟨item, hitem, hs⟩ := List.mem_flatMap.1 hs
    exact ((hi item hitem).statements s hs).reads
  obtain ⟨herr, hout⟩ := classify_outline hreads hg
  obtain ⟨lead, blocks, rfl⟩ := items_of_issues hv
  have hstatements : itemsStatements (lead.map .statement ++ blocks.map .block) =
      lead ++ blocks.flatMap Block.statements := by
    rw [itemsStatements, List.flatMap_append, List.flatMap_map, List.flatMap_map]
    simp [SectionItem.statements]
  have hformed : ∀ b ∈ blocks, b.IsFormed ∧ b.type.inSection kind = true := by
    intro b hb
    obtain ⟨⟨hin, hname, -⟩, hbody⟩ := hi (.block b) (by simp [hb])
    exact ⟨⟨hname, _, hbody⟩, hin⟩
  rw [hstatements] at hout
  rw [buildItems]
  cases hk : kind.blockType? with
  | none =>
    have hnil : blocks = [] := by
      cases blocks with
      | nil => rfl
      | cons b blocks =>
        have := blockType?_of_inSection (hformed b List.mem_cons_self).2
        rw [hk] at this
        cases this
    subst hnil
    refine ⟨herr, ?_⟩
    simpa [SectionItem.outline, Function.comp_def] using hout
  | some owner =>
    have hlead : ∀ s ∈ lead, s.type = .emptyLine ∨ s.type = .comment := by
      intro s hs
      obtain ⟨hin, hsound⟩ := hi (.statement s) (by simp [hs])
      exact type_of_inSection hk hin hsound.reads.type_ne.2
    obtain ⟨hmore, hitems⟩ :=
      buildBlocks_outline owner hlead (fun b hb => (hformed b hb).1) hout
    refine ⟨by simp only [herr, hmore]; rfl, ?_⟩
    simpa [SectionItem.outline, Function.comp_def] using hitems

mutual

/-- Marking keeps the outline of a block. -/
theorem ControlBlock.outline_markOwned : ∀ c : ControlBlock, c.markOwned.outline = c.outline
  | ⟨_, _, _, body, branches, _, _⟩ => by
    rw [ControlBlock.markOwned, ControlBlock.outline, ControlBlock.outline,
      bodyOutline_markOwned body, branchesOutline_markOwned branches]

/-- The same for a body. -/
theorem bodyOutline_markOwned : ∀ items : List BodyItem,
    bodyOutline (markOwnedBody items) = bodyOutline items
  | [] => rfl
  | .statement s :: rest => by
    have hs (owned : Bool) : (s.markOwned owned).outline = s.outline := by
      unfold Statement.markOwned; split <;> rfl
    rw [markOwnedBody, bodyOutline, bodyOutline, BodyItem.outline, BodyItem.outline, hs,
      bodyOutline_markOwned rest]
  | .control c :: rest => by
    rw [markOwnedBody, bodyOutline, bodyOutline, BodyItem.outline, BodyItem.outline,
      c.outline_markOwned, bodyOutline_markOwned rest]

/-- The same for the branches of a block. -/
theorem branchesOutline_markOwned : ∀ bs : List Branch,
    branchesOutline (markOwnedBranches bs) = branchesOutline bs
  | [] => rfl
  | ⟨_, _, body, _⟩ :: rest => by
    rw [markOwnedBranches, branchesOutline, branchesOutline, Branch.outline, Branch.outline,
      bodyOutline_markOwned body, branchesOutline_markOwned rest]

end

/-- Marking comments keeps the outline. -/
theorem map_outline_markOwnedItems (items : List SectionItem) :
    (markOwnedItems items).map SectionItem.outline = items.map SectionItem.outline := by
  induction items with
  | nil => rfl
  | cons item items ih =>
    cases item with
    | statement s =>
      have hs (owned : Bool) : (s.markOwned owned).outline = s.outline := by
        unfold Statement.markOwned; split <;> rfl
      simp [markOwnedItems, SectionItem.outline, hs, ih]
    | block b =>
      simp [markOwnedItems, SectionItem.outline, Block.outline, bodyOutline_markOwned, ih]

/-- Whether the header of a section opens sections of its kind. -/
def Section.IsOpened (s : Section) : Prop :=
  ∀ h ∈ s.header, SectionKind.ofHeader? h.nameText = some s.kind

/-- The headers of a legible file open their sections. -/
theorem File.IsSound.isOpened_of_legible {f : File} (h : f.IsSound) (hl : f.Legible) :
    ∀ s ∈ f.sections, s.IsOpened := by
  intro s hs r hr
  have hheader := (h.sections s hs).header r hr
  have hmem : r ∈ f.statements :=
    List.mem_flatMap.2 ⟨s, hs, List.mem_append_left _ (Option.mem_toList.2 hr)⟩
  exact hheader.opens_of_asterisk ((hl.asterisks r hmem).trans (beq_iff_eq.2 hheader.type))

/-- A header is read without regard to its place. -/
theorem readHeader_of_isHeader {kind : SectionKind} {h : Statement} (hh : h.IsHeader kind)
    (hopens : SectionKind.ofHeader? h.nameText = some kind)
    {ts : List Token} (hb : ts.map Token.bare = h.tokens.map Token.bare) :
    readHeader (Statement.create .sectionHeader ts) = (kind, []) := by
  have hname : (Statement.create .sectionHeader ts).nameText = h.nameText := by
    refine nameText_congr hh.type.symm ?_
    rw [← dataTexts_map_bare, Statement.create, hb, dataTexts_map_bare]
  have hnone : (Statement.create .sectionHeader ts).tokens.filter (fun t => t.kind == .unknown) =
      [] := by
    rw [List.filter_eq_nil_iff]
    intro t ht
    have hmem : t.bare ∈ h.tokens.map Token.bare := hb ▸ List.mem_map_of_mem ht
    obtain ⟨r, hr, he⟩ := List.mem_map.1 hmem
    have hkind : r.bare.kind = t.bare.kind := congrArg Token.kind he
    rw [Token.bare_kind, Token.bare_kind] at hkind
    simpa [← hkind] using hh.laid.known r hr
  rw [readHeader, hnone, hname, hopens]
  rfl

/-- The section of a part as it stands in a file. -/
def markedSection (p : Option (List Token) × List (List Token)) : Section :=
  { (buildSection p.1 p.2).1 with body := markOwnedItems (buildSection p.1 p.2).1.body }

/-- A section is built from the tokens of its statements. -/
theorem buildSection_outline {sect : Section} (hs : sect.IsSound) (hopens : sect.IsOpened)
    (hv : itemsIssues sect.kind false sect.body = []) (header : Option (List Token))
    {groups : List (List Token)}
    (hh : header.map (·.map Token.bare) = sect.header.map fun s => s.tokens.map Token.bare)
    (hg : groups.map (·.map Token.bare) =
      (itemsStatements sect.body).map fun s => s.tokens.map Token.bare) :
    (buildSection header groups).2 = [] ∧
      (markedSection (header, groups)).outline = sect.outline := by
  obtain ⟨herr, hout⟩ := buildItems_outline hs.items hv hg
  cases hsect : sect.header with
  | none =>
    have hkind := hs.headerless hsect
    obtain rfl : header = none := by simpa [hsect] using hh
    rw [hkind] at herr hout
    simp [markedSection, buildSection, Section.outline, map_outline_markOwnedItems, herr, hout,
      hsect, hkind]
  | some h =>
    have hheader := hs.header h hsect
    rw [hsect, Option.map_some] at hh
    obtain ⟨ts, rfl, hts⟩ := Option.map_eq_some_iff.1 hh
    have hread := readHeader_of_isHeader hheader (hopens h hsect) hts
    have hleaf : (Statement.create .sectionHeader ts).outline = h.outline := by
      rw [Statement.outline, Statement.outline, hheader.type, Statement.create,
        ← dataTexts_map_bare, hts, dataTexts_map_bare, ← commentTexts_map_bare ts, hts,
        commentTexts_map_bare]
    simp [markedSection, buildSection, hread, Section.outline, map_outline_markOwnedItems, herr,
      hout, hsect, hleaf]

/-! ## Files -/

/-- A laid statement is a header line exactly when it is laid as one. -/
theorem isHeaderLine_of_laid {s : Statement} {header : Bool}
    (h : Laid header (splitLines s.tokens)) : isHeaderLine s.tokens = header := by
  rw [← h.isHeaderLine, flatten_splitLines]

/-- So is a line of the same bare tokens. -/
theorem isHeaderLine_of_bare {g : List Token} {s : Statement} {header : Bool}
    (h : Laid header (splitLines s.tokens)) (hg : g.map Token.bare = s.tokens.map Token.bare) :
    isHeaderLine g = header := by
  rw [← isHeaderLine_map_bare, hg, isHeaderLine_map_bare, isHeaderLine_of_laid h]

/-- The statements of a sound section's items are laid as body lines. -/
theorem Section.IsSound.items_laid {sect : Section} (h : sect.IsSound) :
    ∀ s ∈ itemsStatements sect.body, Laid false (splitLines s.tokens) := by
  intro s hs
  obtain ⟨item, hitem, hs⟩ := List.mem_flatMap.1 hs
  exact ((h.items item hitem).statements s hs).laid

/-- Tokens of the statements of a section are no headers. -/
theorem Section.IsSound.isHeaderLine {sect : Section} (h : sect.IsSound)
    {groups : List (List Token)} (hg : groups.map (·.map Token.bare) =
      (itemsStatements sect.body).map fun s => s.tokens.map Token.bare) :
    ∀ g ∈ groups, RobotSuite.isHeaderLine g = false := by
  intro g hmem
  have : g.map Token.bare ∈ (itemsStatements sect.body).map fun s => s.tokens.map Token.bare :=
    hg ▸ List.mem_map_of_mem hmem
  obtain ⟨s, hs, he⟩ := List.mem_map.1 this
  exact isHeaderLine_of_bare (h.items_laid s hs) he.symm

/-- Sections with headers are built from the tokens of their statements. -/
theorem sections_outline {ss : List Section} (hs : ∀ s ∈ ss, s.IsSound)
    (ho : ∀ s ∈ ss, s.IsOpened) (hv : ∀ s ∈ ss, itemsIssues s.kind false s.body = [])
    (hh : ∀ s ∈ ss, s.header ≠ none)
    {groups : List (List Token)}
    (hg : groups.map (·.map Token.bare) =
      (ss.flatMap Section.statements).map fun s => s.tokens.map Token.bare) :
    (∀ g ∈ groups.head?, isHeaderLine g = true) ∧
      ((splitParts isHeaderLine groups).flatMap fun p => (buildSection p.1 p.2).2) = [] ∧
      ((splitParts isHeaderLine groups).map markedSection).map Section.outline =
        ss.map Section.outline := by
  induction ss generalizing groups with
  | nil =>
    obtain rfl : groups = [] := by simpa using hg
    simp [splitParts]
  | cons sect ss ih =>
    have hsect := hs sect List.mem_cons_self
    cases hheader : sect.header with
    | none => exact absurd hheader (hh sect List.mem_cons_self)
    | some h =>
      rw [List.flatMap_cons, Section.statements, hheader, Option.toList_some,
        List.singleton_append, List.cons_append, List.map_cons, List.map_append] at hg
      obtain ⟨header, more, rfl, hbare, hmore⟩ := List.map_eq_cons_iff.1 hg
      obtain ⟨items, rest, rfl, hitems, hrest⟩ := List.map_eq_append_iff.1 hmore
      obtain ⟨hhead, herr, hout⟩ := ih (fun s hm => hs s (List.mem_cons_of_mem _ hm))
        (fun s hm => ho s (List.mem_cons_of_mem _ hm))
        (fun s hm => hv s (List.mem_cons_of_mem _ hm))
        (fun s hm => hh s (List.mem_cons_of_mem _ hm)) hrest
      have hopens := isHeaderLine_of_bare (hsect.header h hheader).laid hbare
      obtain ⟨he, ho⟩ := buildSection_outline hsect (ho sect List.mem_cons_self)
        (hv sect List.mem_cons_self) (some header)
        (by rw [hheader, Option.map_some, Option.map_some, hbare]) hitems
      rw [splitParts_cons hopens (hsect.isHeaderLine hitems) hhead]
      refine ⟨by simpa using hopens, ?_, ?_⟩
      · rw [List.flatMap_cons, herr, he]
        rfl
      · rw [List.map_cons, List.map_cons, hout, ho, List.map_cons]

/-- A section holds a statement unless it has neither a header nor an item. -/
theorem isEmpty_statements (s : Section) :
    s.statements.isEmpty = (s.header.isNone && s.body.isEmpty) := by
  have hitem (item : SectionItem) : item.statements ≠ [] := by
    cases item <;> simp [SectionItem.statements, Block.statements]
  rw [Section.statements]
  cases s.header with
  | some h => rfl
  | none =>
    cases s.body with
    | nil => rfl
    | cons item items =>
      have := hitem item
      simp [itemsStatements, List.flatMap_cons, this]

/-- Sections of one outline are both empty or neither. -/
theorem isEmpty_statements_of_outline {a b : Section} (h : a.outline = b.outline) :
    a.statements.isEmpty = b.statements.isEmpty := by
  rw [isEmpty_statements, isEmpty_statements]
  unfold Section.outline at h
  injection h with _ hheader hitems
  have h1 := congrArg Option.isNone hheader
  have h2 := congrArg List.isEmpty hitems
  simp only [Option.isNone_map, List.isEmpty_map] at h1 h2
  rw [h1, h2]

/-- Sections with the outlines of others give the same outline of a file. -/
theorem outline_congr {a b : List Section} (h : a.map Section.outline = b.map Section.outline) :
    (a.filter fun s => !s.statements.isEmpty).map Section.outline =
      (b.filter fun s => !s.statements.isEmpty).map Section.outline := by
  induction a generalizing b with
  | nil =>
    obtain rfl : b = [] := by simpa [eq_comm] using h
    rfl
  | cons s ss ih =>
    obtain ⟨r, rs, rfl, hr, hrs⟩ := List.map_eq_cons_iff.1 h.symm
    have := ih hrs.symm
    rw [List.filter_cons, List.filter_cons, isEmpty_statements_of_outline hr]
    split
    · rw [List.map_cons, List.map_cons, this, hr]
    · exact this

/-- The sections are read part by part. -/
theorem parseTokens_sections (lines : List (List Token)) :
    (parseTokens lines).sections =
      (splitParts isHeaderLine ((groupLines lines).map List.flatten)).map markedSection := by
  simp only [parseTokens, List.map_map]
  rfl

/-- The errors are found part by part. -/
theorem parseTokens_errors (lines : List (List Token)) :
    (parseTokens lines).errors =
      (splitParts isHeaderLine ((groupLines lines).map List.flatten)).flatMap fun p =>
        (buildSection p.1 p.2).2 := by
  simp only [parseTokens, List.flatMap_map]

/-- **What is written is read back.**  The text of a sound, valid and legible model is read
without a defect, and as a model with the same outline. -/
theorem File.IsSound.read_back {f : File} (h : f.IsSound) (hi : f.issues = []) (hl : f.Legible) :
    (parse f.render).errors = [] ∧ (parse f.render).outline = f.outline := by
  have hg := h.bare_groups hi hl
  have hv : ∀ s ∈ f.sections, itemsIssues s.kind false s.body = [] := by
    intro s hs
    have := section_issues_of_issues hi s hs
    rw [Section.issues, sectionIssues, List.append_eq_nil_iff, List.append_eq_nil_iff] at this
    exact this.2.1
  have htail := header_of_mem_tail hi
  have hsound := h.sections
  have hopened := h.isOpened_of_legible hl
  rw [File.outline, parse, parseTokens_sections, parseTokens_errors, File.outline]
  generalize (groupLines (tokenize f.render)).map List.flatten = groups at hg
  rw [File.statements] at hg
  generalize f.sections = ss at *
  cases ss with
  | nil =>
    obtain rfl : groups = [] := by simpa using hg
    exact ⟨rfl, rfl⟩
  | cons sect ss =>
    cases hheader : sect.header with
    | some r =>
      have hh : ∀ s ∈ sect :: ss, s.header ≠ none := by
        intro s hs
        rcases List.mem_cons.1 hs with rfl | hs
        · simp [hheader]
        · exact htail s hs
      obtain ⟨-, herr, hout⟩ := sections_outline hsound hopened hv hh hg
      exact ⟨herr, outline_congr hout⟩
    | none =>
      rw [List.flatMap_cons, List.map_append, Section.statements, hheader, Option.toList_none,
        List.nil_append] at hg
      obtain ⟨items, rest, rfl, hitems, hrest⟩ := List.map_eq_append_iff.1 hg
      have hsect := hsound sect List.mem_cons_self
      obtain ⟨hhead, herr, hout⟩ := sections_outline
        (fun s hm => hsound s (List.mem_cons_of_mem _ hm))
        (fun s hm => hopened s (List.mem_cons_of_mem _ hm))
        (fun s hm => hv s (List.mem_cons_of_mem _ hm)) htail hrest
      obtain ⟨he, ho⟩ := buildSection_outline hsect (hopened sect List.mem_cons_self)
        (hv sect List.mem_cons_self) none (by rw [hheader]; rfl) hitems
      -- a first section without header and items leaves nothing in the text
      by_cases hne : items = []
      · subst hne
        have hempty : sect.statements.isEmpty = true := by
          have hnil : itemsStatements sect.body = [] := by simpa using hitems.symm
          rw [Section.statements, hheader, hnil]
          rfl
        rw [List.nil_append, List.filter_cons, if_neg (by simp [hempty])]
        exact ⟨herr, outline_congr hout⟩
      · rw [splitParts_append hne (hsect.isHeaderLine hitems) hhead]
        refine ⟨?_, outline_congr ?_⟩
        · rw [List.flatMap_cons, herr, he]
          rfl
        · rw [List.map_cons, List.map_cons, hout, ho, List.map_cons]

end RobotSuite
