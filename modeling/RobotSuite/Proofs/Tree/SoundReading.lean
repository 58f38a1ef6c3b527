/-
# What is read without a defect is sound

Reading records a defect wherever tokens cannot be read or do not fit the structure of a
file.  Without one, every cell is free of control characters, every statement has the type
that its tokens are read as, and every body is one of the grammar: the model is sound
(`sound_parse`).
-/

import RobotSuite.Proofs.Tree.ReadBack

namespace RobotSuite

/-! ## Parts -/

section
variable {α : Type} {opens : α → Bool} {xs : List α}

/-- A part starts with an opening element, and the others do not open one. -/
theorem splitParts_spec : ∀ p ∈ splitParts opens xs,
    (∀ h ∈ p.1, opens h = true ∧ h ∈ xs) ∧ ∀ x ∈ p.2, opens x = false ∧ x ∈ xs := by
  induction xs with
  | nil => simp [splitParts]
  | cons x xs ih =>
    have hmono {p : Option α × List α} (hp : p ∈ splitParts opens xs) :
        (∀ h ∈ p.1, opens h = true ∧ h ∈ x :: xs) ∧ ∀ y ∈ p.2, opens y = false ∧ y ∈ x :: xs := by
      obtain ⟨h1, h2⟩ := ih p hp
      exact ⟨fun h hh => ⟨(h1 h hh).1, List.mem_cons_of_mem _ (h1 h hh).2⟩,
        fun y hy => ⟨(h2 y hy).1, List.mem_cons_of_mem _ (h2 y hy).2⟩⟩
    intro p hp
    rw [splitParts] at hp
    split at hp
    · rename_i ys parts h
      have hys := (hmono (p := (none, ys)) (by simp [h])).2
      rcases List.mem_cons.1 hp with rfl | hp
      · by_cases hx : opens x = true
        · simp only [hx, if_true]
          exact ⟨by simp [hx], hys⟩
        · simp only [hx]
          refine ⟨by simp, fun y hy => ?_⟩
          rcases List.mem_cons.1 hy with rfl | hy
          · exact ⟨by simpa using hx, List.mem_cons_self⟩
          · exact hys y hy
      · exact hmono (by simp [h, hp])
    · rcases List.mem_cons.1 hp with rfl | hp
      · by_cases hx : opens x = true
        · simp [hx]
        · simp [hx]
      · exact hmono hp

/-- No part that a list is cut into is empty. -/
theorem splitParts_ne_nil : ∀ p ∈ splitParts opens xs, p.1.toList ++ p.2 ≠ [] := by
  induction xs with
  | nil => simp [splitParts]
  | cons x xs ih =>
    rw [splitParts]
    split
    · rename_i ys parts hparts
      rw [hparts, List.forall_mem_cons] at ih
      exact List.forall_mem_cons.2 ⟨by split <;> simp, ih.2⟩
    · exact List.forall_mem_cons.2 ⟨by split <;> simp, ih⟩

/-- All parts but the first have an element that opens them. -/
theorem splitParts_tail : ∀ p ∈ (splitParts opens xs).tail, p.1 ≠ none := by
  induction xs with
  | nil => simp [splitParts]
  | cons x xs ih =>
    rw [splitParts]
    split
    · rename_i ys parts h
      simpa [h] using ih
    · rename_i h
      intro p hp hn
      cases hs : splitParts opens xs with
      | nil => simp [hs] at hp
      | cons q parts =>
        rw [hs] at ih hp
        rcases List.mem_cons.1 hp with rfl | hp
        · obtain ⟨header, ys⟩ := p
          obtain rfl : header = none := hn
          exact h ys parts hs
        · exact ih p hp hn

end

/-! ## Bodies -/

/-- The tree of a derivation is well formed. -/
theorem bodyHolds_of_derives {P : Statement → Prop} {ss : List Statement} {items : List BodyItem}
    (h : Derives ss items)
    (hs : ∀ s ∈ ss, P s ∧ (s.type.isPlain = true → s.type.inBody = true)) :
    bodyHolds P items := by
  induction h with
  | nil => trivial
  | plain hp _ ih =>
    obtain ⟨hP, hin⟩ := hs _ List.mem_cons_self
    rw [bodyHolds, BodyItem.Holds]
    exact ⟨⟨hin hp, hP⟩, ih fun s h => hs s (List.mem_cons_of_mem _ h)⟩
  | @block type header close body rest items more parts hopen _ hp _ hclose _ ihb ihp ihr =>
    have hheader := hs header List.mem_cons_self
    have hbody := ihb fun s h => hs s (by simp [h])
    have hrest := ihr fun s h => hs s (by simp [h])
    have hend := hs close (by simp)
    have hbranches : branchesHold P type (BranchPart.trees parts) := by
      rw [branchesHold_iff]
      intro b hb
      obtain ⟨p, hmem, rfl⟩ := List.mem_map.1 hb
      have hin : ∀ s, s = p.header ∨ s ∈ p.statements → s ∈ BranchPart.yield parts := by
        intro s h
        rw [BranchPart.yield]
        exact List.mem_flatMap.2 ⟨p, hmem, by simpa using h⟩
      rw [closeBranch, Branch.Holds]
      exact ⟨⟨hp p hmem, (hs p.header (by simp [hin])).1⟩,
        ihp p hmem fun s h => hs s (by simp [hin s (.inr h)])⟩
    rw [bodyHolds, BodyItem.Holds, closedBlock, ControlBlock.Holds]
    exact ⟨⟨⟨hopen, hheader.1⟩, hbody, hbranches, close, rfl, hclose, hend.1⟩, hrest⟩

/-- Statements that are read in a section with blocks stand in bodies, if they are plain. -/
theorem inBody_of_readsAs {kind : SectionKind} {owner : BlockType} {s : Statement}
    (hk : kind.blockType? = some owner) (h : ReadsAs kind s.type s.tokens)
    (hn : isBlockName s = false) : s.type.isPlain = true → s.type.inBody = true := by
  obtain ⟨-, -, hplain, hdata⟩ := readsAs_iff.1 h
  have hname : s.type ≠ .testCaseName ∧ s.type ≠ .keywordName := by
    simpa [isBlockName] using hn
  intro hp
  by_cases hd : dataTexts s.tokens = []
  · rw [hplain hd]
    split <;> rfl
  · have htype := (hdata hd).1
    have hbody : s.type = bodyType (dataTokens s.tokens) := by
      cases kind <;> simp only [SectionKind.blockType?, reduceCtorEq] at hk <;>
        simp only [dataType] at htype <;> split at htype <;> simp_all
    rw [hbody] at hp ⊢
    have h := isIndented_bodyType (dataTokens s.tokens)
    generalize bodyType (dataTokens s.tokens) = t at h hp
    cases t <;> first
      | rfl
      | simp_all [StatementType.isIndented, StatementType.marker?, StatementType.isPlain,
          ControlType.ofHeader?, Nesting.isBranchHeader]

/-- The name of a block in a section is that of the blocks of the section. -/
theorem type_of_isBlockName {kind : SectionKind} {owner : BlockType} {s : Statement}
    (hk : kind.blockType? = some owner) (h : ReadsAs kind s.type s.tokens)
    (hn : isBlockName s = true) : s.type = owner.nameType := by
  obtain ⟨-, -, hplain, hdata⟩ := readsAs_iff.1 h
  have hname : s.type = .testCaseName ∨ s.type = .keywordName := by
    simpa [isBlockName] using hn
  have hd : dataTexts s.tokens ≠ [] := by
    intro hd
    have ht := hplain hd
    split at ht <;> rcases hname with h | h <;> rw [h] at ht <;> cases ht
  have htype := (hdata hd).1
  have hne : bodyType (dataTokens s.tokens) ≠ .testCaseName ∧
      bodyType (dataTokens s.tokens) ≠ .keywordName := ⟨bodyType_ne _ rfl, bodyType_ne _ rfl⟩
  cases kind <;> simp only [SectionKind.blockType?, reduceCtorEq, Option.some.injEq] at hk <;>
    subst hk <;> simp only [dataType] at htype <;> split at htype <;>
    first
    | exact htype
    | (rw [← htype] at hne; rcases hname with h | h <;> simp [h] at hne)

/-- A statement that is read with a type is of that type. -/
theorem inSection_of_readsAs {kind : SectionKind} {s : Statement}
    (hk : kind.blockType? = none) (h : ReadsAs kind s.type s.tokens) :
    s.type.inSection kind = true := by
  obtain ⟨-, -, hplain, hdata⟩ := readsAs_iff.1 h
  by_cases hd : dataTexts s.tokens = []
  · rw [hplain hd]
    split <;> rfl
  · rw [(hdata hd).1]
    cases kind <;> simp_all [SectionKind.blockType?, dataType, StatementType.inSection]

/-! ## Sections -/

/-- Groups of lines that are read without a defect make sound statements. -/
theorem sound_of_classify {kind : SectionKind} {groups : List (List Token)}
    (hg : ∀ g ∈ groups, Laid false (splitLines g))
    (he : (groups.map (classify kind)).flatMap (·.2) = []) :
    ∀ s ∈ (groups.map (classify kind)).map (·.1), s.IsSound kind := by
  intro s hs
  rw [List.map_map] at hs
  obtain ⟨g, hmem, rfl⟩ := List.mem_map.1 hs
  rw [List.flatMap_map, List.flatMap_eq_nil_iff] at he
  have htokens := classify_tokens kind g
  refine ⟨?_, ?_⟩
  · simpa [htokens] using hg g hmem
  · simp only [Function.comp_apply, htokens]
    exact ⟨rfl, he g hmem⟩

/-- A block of sound statements is well formed. -/
theorem holds_of_blockPart {kind : SectionKind} {owner : BlockType}
    {p : Option Statement × List Statement} (hk : kind.blockType? = some owner)
    (hs : ∀ s ∈ p.1.toList ++ p.2, s.IsSound kind)
    (hh : ∀ h ∈ p.1, isBlockName h = true) (hn : ∀ s ∈ p.2, isBlockName s = false)
    (he : (blockPart owner p).2 = []) :
    ∀ item ∈ (blockPart owner p).1, item.Holds (Statement.IsSound kind) kind := by
  obtain ⟨header, ss⟩ := p
  have hin : owner.inSection kind = true := by
    cases kind <;> simp only [SectionKind.blockType?, reduceCtorEq, Option.some.injEq] at hk <;>
      subst hk <;> rfl
  cases header with
  | none =>
    rw [blockPart] at he ⊢
    simp only [List.flatMap_map, List.flatMap_eq_nil_iff] at he
    intro item hitem
    rw [List.map_map] at hitem
    obtain ⟨s, hmem, rfl⟩ := List.mem_map.1 hitem
    have hsound := hs s (by simpa using hmem)
    have herr := he s hmem
    have htype : s.type = .emptyLine ∨ s.type = .comment := by
      by_cases ht : s.type = .emptyLine ∨ s.type = .comment
      · exact ht
      · rw [not_or] at ht
        simp [leadingItem, ht, hsound.reads.type_ne.2, misplaced] at herr
    have hlead : leadingItem owner s = (.statement s, []) := by
      rcases htype with h | h <;> simp [leadingItem, h]
    rw [Function.comp_apply, hlead]
    refine ⟨?_, hsound⟩
    rcases htype with h | h <;> rw [h] <;> rfl
  | some header =>
    have hname := hh header rfl
    have hheader := hs header (by simp)
    have htype := type_of_isBlockName hk hheader.reads hname
    have hblock : (if header.type = .testCaseName then BlockType.testCase else .keyword) =
        owner := by
      rw [htype]
      cases owner <;> rfl
    rw [blockPart, hblock, buildBlock] at he ⊢
    intro item hitem
    obtain rfl := List.mem_singleton.1 hitem
    have hd := derives_of_errors_eq_nil he
    refine ⟨⟨hin, htype, hheader⟩, bodyHolds_of_derives hd fun s hmem => ?_⟩
    have hsound := hs s (by simp [hmem])
    exact ⟨hsound, inBody_of_readsAs hk hsound.reads (hn s hmem)⟩

/-- The items of a section read without errors are well formed. -/
theorem holds_of_buildItems {kind : SectionKind} {groups : List (List Token)}
    (hg : ∀ g ∈ groups, Laid false (splitLines g)) (he : (buildItems kind groups).2 = []) :
    ∀ item ∈ (buildItems kind groups).1, item.Holds (Statement.IsSound kind) kind := by
  rw [buildItems] at he ⊢
  cases hk : kind.blockType? with
  | none =>
    rw [hk] at he
    have hsound := sound_of_classify hg he
    intro item hitem
    obtain ⟨s, hs, rfl⟩ := List.mem_map.1 hitem
    exact ⟨inSection_of_readsAs hk (hsound s hs).reads, hsound s hs⟩
  | some owner =>
    rw [hk] at he
    simp only [List.append_eq_nil_iff] at he
    have hsound := sound_of_classify hg he.1
    have hblocks := he.2
    simp only [buildBlocks, List.flatMap_map, List.flatMap_eq_nil_iff] at hblocks ⊢
    intro item hitem
    obtain ⟨p, hp, hitem⟩ := List.mem_flatMap.1 hitem
    obtain ⟨hheader, hrest⟩ := splitParts_spec p hp
    refine holds_of_blockPart hk (fun s hs => ?_) (fun h hh => (hheader h hh).1)
      (fun s hs => (hrest s hs).1) (hblocks p hp) item hitem
    rcases List.mem_append.1 hs with hs | hs
    · exact hsound s (hheader s (by simpa using hs)).2
    · exact hsound s (hrest s hs).2

/-! ## Marked comments -/

/-- A mark keeps the type. -/
theorem Statement.markOwned_type (s : Statement) (owned : Bool) :
    (s.markOwned owned).type = s.type := by
  unfold markOwned
  split <;> rfl

/-- A mark keeps a statement sound. -/
theorem Statement.IsSound.markOwned {kind : SectionKind} {s : Statement} (h : s.IsSound kind)
    (owned : Bool) : (s.markOwned owned).IsSound kind := by
  refine ⟨?_, ?_⟩
  · rw [markOwned_tokens]
    exact h.laid
  · rw [markOwned_tokens, markOwned_type]
    exact h.reads

section
variable {P : Statement → Prop}

mutual

/-- Marking keeps what holds of a block. -/
theorem ControlBlock.Holds.markOwned (hP : ∀ s owned, P s → P (s.markOwned owned)) :
    ∀ {c : ControlBlock}, c.Holds P → c.markOwned.Holds P
  | ⟨_, _, _, _, _, _, _⟩, h => by
    rw [ControlBlock.Holds] at h
    rw [ControlBlock.markOwned, ControlBlock.Holds]
    exact ⟨h.1, bodyHolds_markOwned hP h.2.1, branchesHold_markOwned hP h.2.2.1, h.2.2.2⟩

/-- The same for a body. -/
theorem bodyHolds_markOwned (hP : ∀ s owned, P s → P (s.markOwned owned)) :
    ∀ {items : List BodyItem}, bodyHolds P items → bodyHolds P (markOwnedBody items)
  | [], _ => by
    rw [markOwnedBody]
    trivial
  | .statement s :: rest, h => by
    rw [bodyHolds, BodyItem.Holds] at h
    rw [markOwnedBody, bodyHolds, BodyItem.Holds, s.markOwned_type]
    exact ⟨⟨h.1.1, hP _ _ h.1.2⟩, bodyHolds_markOwned hP h.2⟩
  | .control c :: rest, h => by
    rw [bodyHolds, BodyItem.Holds] at h
    rw [markOwnedBody, bodyHolds, BodyItem.Holds]
    exact ⟨h.1.markOwned hP, bodyHolds_markOwned hP h.2⟩

/-- The same for the branches of a block. -/
theorem branchesHold_markOwned (hP : ∀ s owned, P s → P (s.markOwned owned))
    {type : ControlType} : ∀ {bs : List Branch},
      branchesHold P type bs → branchesHold P type (markOwnedBranches bs)
  | [], _ => by
    rw [markOwnedBranches]
    trivial
  | ⟨_, _, _, _⟩ :: rest, h => by
    rw [branchesHold, Branch.Holds] at h
    rw [markOwnedBranches, branchesHold, Branch.Holds]
    exact ⟨⟨h.1.1, bodyHolds_markOwned hP h.1.2⟩, branchesHold_markOwned hP h.2⟩

end

/-- Marking comments keeps a section well formed. -/
theorem holds_markOwnedItems (hP : ∀ s owned, P s → P (s.markOwned owned)) {kind : SectionKind}
    {items : List SectionItem} (h : ∀ item ∈ items, item.Holds P kind) :
    ∀ item ∈ markOwnedItems items, item.Holds P kind := by
  induction items with
  | nil => simp [markOwnedItems]
  | cons item items ih =>
    have hrest := ih fun i hi => h i (List.mem_cons_of_mem _ hi)
    have hitem := h item List.mem_cons_self
    intro i hi
    cases item with
    | statement s =>
      rw [markOwnedItems] at hi
      rcases List.mem_cons.1 hi with rfl | hi
      · refine ⟨?_, hP _ _ hitem.2⟩
        rw [s.markOwned_type]
        exact hitem.1
      · exact hrest i hi
    | block b =>
      rw [markOwnedItems] at hi
      rcases List.mem_cons.1 hi with rfl | hi
      · exact ⟨hitem.1, bodyHolds_markOwned hP hitem.2⟩
      · exact hrest i hi

end

/-! ## Sources -/

/-- No header names the invalid kind. -/
theorem ofHeader?_ne_invalid (header : String) : SectionKind.ofHeader? header ≠ some .invalid := by
  have hnames : ∀ entry ∈ headerNames, entry.2 ≠ .invalid := by decide
  intro h
  rcases Option.or_eq_some_iff.1 h with h | ⟨-, h⟩
  · obtain ⟨front, back, hsplit, -⟩ := List.lookup_eq_some_iff.1 h
    refine hnames (normalizeHeader header, .invalid) ?_ rfl
    rw [hsplit]
    exact List.mem_append_right _ List.mem_cons_self
  · obtain ⟨name, -, hname⟩ := Option.map_eq_some_iff.1 h
    cases hname

/-- A section that its header opens, or that has none, is of a known kind. -/
theorem Section.Holds.kind_ne_invalid {P : SectionKind → Statement → Prop} {s : Section}
    (h : s.Holds P Statement.IsHeader) : s.kind ≠ .invalid := by
  cases hh : s.header with
  | none => simp [h.headerless hh]
  | some header =>
    intro he
    rcases (h.header header hh).opens with hopens | ⟨hinherited, -⟩
    · exact ofHeader?_ne_invalid header.nameText (he ▸ hopens)
    · rw [he] at hinherited
      cases hinherited

/-- A header without a defect opens a section of a kind. -/
theorem known_of_readHeader {h : Statement} (he : (readHeader h).2 = []) :
    SectionKind.ofHeader? h.nameText = some (readHeader h).1 ∧
      ∀ t ∈ h.tokens, t.kind ≠ .unknown := by
  rw [readHeader] at he ⊢
  cases hk : SectionKind.ofHeader? h.nameText with
  | none => simp [hk] at he
  | some kind =>
    rw [hk] at he
    refine ⟨rfl, fun t ht hu => ?_⟩
    have hnil : h.tokens.filter (fun t => t.kind == .unknown) = [] := by simpa using he
    rw [List.filter_eq_nil_iff] at hnil
    exact hnil t ht (by simpa using hu)

/-- Items read without errors are classified without errors. -/
theorem buildItems_classify {kind : SectionKind} {groups : List (List Token)}
    (he : (buildItems kind groups).2 = []) : (groups.map (classify kind)).flatMap (·.2) = [] := by
  rw [buildItems] at he
  cases hk : kind.blockType? with
  | none => simpa [hk] using he
  | some owner =>
    rw [hk] at he
    simp only [List.append_eq_nil_iff] at he
    exact he.1

/-- Groups that are read without a defect hold no control characters, and none of them starts
with a continuation marker. -/
theorem known_of_classify {kind : SectionKind} {groups : List (List Token)}
    (he : (groups.map (classify kind)).flatMap (·.2) = []) :
    ∀ g ∈ groups, (∀ t ∈ g, t.kind ≠ .unknown) ∧ isContinuationLine g = false := by
  intro g hg
  rw [List.flatMap_map, List.flatMap_eq_nil_iff] at he
  have hr : ReadsAs kind (classify kind g).1.type g := ⟨rfl, he g hg⟩
  have hr := readsAs_iff.1 hr
  exact ⟨hr.1, hr.2.1⟩

/-- The errors of a section are those of its header and of its items. -/
theorem buildSection_spec (header : Option (List Token)) (groups : List (List Token)) :
    (buildSection header groups).1.header = header.map (Statement.create .sectionHeader) ∧
      (buildSection header groups).1.body =
        (buildItems (buildSection header groups).1.kind groups).1 ∧
      (header = none → (buildSection header groups).1.kind = .comments) ∧
      ((buildSection header groups).2 = [] →
        (buildItems (buildSection header groups).1.kind groups).2 = [] ∧
          ∀ h ∈ header, (readHeader (.create .sectionHeader h)).2 = [] ∧
            (readHeader (.create .sectionHeader h)).1 = (buildSection header groups).1.kind) := by
  cases header with
  | none => simp [buildSection]
  | some h => simpa [buildSection] using fun h1 h2 => ⟨h2, h1⟩

/-- A header line is no continuation. -/
theorem isContinuationLine_of_isHeaderLine {ts : List Token} (h : isHeaderLine ts = true) :
    isContinuationLine ts = false := by
  rw [isHeaderLine] at h
  rw [isContinuationLine]
  cases hf : firstSignificant ts with
  | none => rfl
  | some t =>
    rw [hf, Option.any_some, beq_iff_eq] at h
    simp [Token.isContinuation, h]

/-- The groups of a section that is read without a defect. -/
theorem known_of_buildSection {p : Option (List Token) × List (List Token)}
    (hh : ∀ h ∈ p.1, isHeaderLine h = true) (he : (buildSection p.1 p.2).2 = []) :
    ∀ g ∈ p.1.toList ++ p.2, (∀ t ∈ g, t.kind ≠ .unknown) ∧ isContinuationLine g = false := by
  obtain ⟨-, -, -, herr⟩ := buildSection_spec p.1 p.2
  obtain ⟨hitems, hheader⟩ := herr he
  intro g hg
  rcases List.mem_append.1 hg with hg | hg
  · have hg : g ∈ p.1 := by simpa using hg
    exact ⟨(known_of_readHeader (hheader g hg).1).2, isContinuationLine_of_isHeaderLine (hh g hg)⟩
  · exact known_of_classify (buildItems_classify hitems) g hg

/-- A section that is read from lines of the grammar without a defect is sound. -/
theorem sound_of_buildSection {p : Option (List Token) × List (List Token)}
    (hh : ∀ h ∈ p.1, Laid true (splitLines h)) (hg : ∀ g ∈ p.2, Laid false (splitLines g))
    (he : (buildSection p.1 p.2).2 = []) : (markedSection p).IsSound := by
  obtain ⟨hheader, hbody, hkind, herr⟩ := buildSection_spec p.1 p.2
  obtain ⟨hitems, hread⟩ := herr he
  refine ⟨?_, ?_, ?_⟩
  · intro r hr
    have hr : r ∈ p.1.map (Statement.create .sectionHeader) := by rw [← hheader]; exact hr
    obtain ⟨h, hmem, rfl⟩ := Option.map_eq_some_iff.1 hr
    obtain ⟨hopens, -⟩ := known_of_readHeader (hread h hmem).1
    refine ⟨rfl, hh h hmem, .inl (hopens.trans ?_)⟩
    rw [(hread h hmem).2]
    rfl
  · intro hn
    have hn : (buildSection p.1 p.2).1.header = none := hn
    rw [hheader] at hn
    exact hkind (by simpa using hn)
  · refine holds_markOwnedItems (fun s owned h => h.markOwned owned) ?_
    rw [hbody]
    exact holds_of_buildItems hg hitems

/-- Of no groups no item is read. -/
theorem buildItems_nil (kind : SectionKind) : buildItems kind [] = ([], []) := by
  cases kind <;> rfl

/-- Nothing is read behind a header without line break. -/
theorem headersEnd_of_parts {parts : List (Option (List Token) × List (List Token))}
    (ht : ∀ p ∈ parts.tail, p.1 ≠ none)
    (he : ∀ g ∈ (parts.flatMap fun p => p.1.toList ++ p.2).dropLast,
      ∀ e ∈ g.getLast?, e.value ≠ "") :
    headersEnd (parts.map markedSection) := by
  induction parts with
  | nil => trivial
  | cons p parts ih =>
    refine ⟨?_, ih (fun q hq => ht q (List.mem_of_mem_tail hq)) fun g hmem => he g ?_⟩
    · rintro ⟨r, hr, hopen⟩
      have hr : r ∈ p.1.map (Statement.create .sectionHeader) := by
        rw [← (buildSection_spec p.1 p.2).1]
        exact hr
      obtain ⟨h, hmem, rfl⟩ := Option.map_eq_some_iff.1 hr
      have hbad : ∃ e ∈ h.getLast?, e.value = "" := by
        rw [Statement.isUnterminated, Option.any_eq_true] at hopen
        obtain ⟨e, he, hv⟩ := hopen
        exact ⟨e, (Option.filter_eq_some_iff.1 he).1, by simpa using hv⟩
      obtain ⟨e, hlast, hv⟩ := hbad
      -- an unterminated header is the last group of all, so nothing stands behind it
      have hnil : p.2 = [] ∧ (parts.flatMap fun p => p.1.toList ++ p.2) = [] := by
        refine Classical.byContradiction fun hne => he h ?_ e hlast hv
        have hne : p.2 ++ (parts.flatMap fun p => p.1.toList ++ p.2) ≠ [] := by
          intro hn
          exact hne (List.append_eq_nil_iff.1 hn)
        rw [List.flatMap_cons, Option.mem_def.1 hmem, Option.toList_some, List.append_assoc,
          List.singleton_append, List.dropLast_cons_of_ne_nil hne]
        exact List.mem_cons_self
      have hparts : parts = [] := by
        cases parts with
        | nil => rfl
        | cons q parts =>
          have hq := ht q List.mem_cons_self
          have := hnil.2
          rw [List.flatMap_cons, List.append_eq_nil_iff, List.append_eq_nil_iff] at this
          exact absurd (by simpa using this.1.1) hq
      refine ⟨?_, by rw [hparts]; rfl⟩
      rw [markedSection, (buildSection_spec p.1 p.2).2.1, hnil.1, buildItems_nil]
      rfl
    · have hne : (parts.flatMap fun p => p.1.toList ++ p.2) ≠ [] := by
        intro hn
        rw [hn] at hmem
        simp at hmem
      rw [List.flatMap_cons, List.dropLast_append_of_ne_nil hne]
      exact List.mem_append_right _ hmem

/-- No group of lines is empty. -/
theorem ne_nil_of_mem_groupLines {lines g : List (List Token)} (h : g ∈ groupLines lines) :
    g ≠ [] :=
  (formsGroup_of_mem_groupLines h).ne_nil

/-- Each statement holds a whole line. -/
theorem exists_line_of_mem_groups {lines : List (List Token)} :
    ∀ g ∈ (groupLines lines).map List.flatten, ∃ line ∈ lines, ∃ front back,
      g = front ++ (line ++ back) := by
  intro g hg
  obtain ⟨ls, hls, rfl⟩ := List.mem_map.1 hg
  obtain ⟨line, hline⟩ := List.exists_mem_of_ne_nil ls (ne_nil_of_mem_groupLines hls)
  have hmem : line ∈ lines := by
    rw [← flatten_groupLines lines]
    exact List.mem_flatten.2 ⟨ls, hls, hline⟩
  obtain ⟨front, back, rfl⟩ := List.append_of_mem hline
  refine ⟨line, hmem, front.flatten, back.flatten, ?_⟩
  rw [List.flatten_append, List.flatten_cons]

/-- No group of tokens is empty. -/
theorem ne_nil_of_mem_groups {lines : List (List Token)} (h : ∀ line ∈ lines, line ≠ []) :
    ∀ g ∈ (groupLines lines).map List.flatten, g ≠ [] := by
  intro g hg hnil
  obtain ⟨line, hline, front, back, rfl⟩ := exists_line_of_mem_groups g hg
  rw [List.append_eq_nil_iff, List.append_eq_nil_iff] at hnil
  exact h line hline hnil.2.1

/-- What stands in a list but the last is not the last of all. -/
theorem mem_dropLast_flatten {α : Type} {gs : List (List α)} (hne : ∀ g ∈ gs, g ≠ [])
    {g : List α} (hg : g ∈ gs.dropLast) : ∀ x ∈ g, x ∈ gs.flatten.dropLast := by
  intro x hx
  have hgs : gs ≠ [] := by
    rintro rfl
    simp at hg
  have hlast : gs.getLast hgs ≠ [] := hne _ (List.getLast_mem hgs)
  have hsplit : gs.flatten = gs.dropLast.flatten ++ gs.getLast hgs := by
    have := congrArg List.flatten (List.dropLast_concat_getLast hgs)
    simpa using this.symm
  rw [hsplit, List.dropLast_append_of_ne_nil hlast]
  exact List.mem_append_left _ (List.mem_flatten.2 ⟨g, hg, hx⟩)

section
variable {source : String}

/-- The lines of a source without defects are put together to statements that are laid out,
and nothing of them is a comment that stands by itself. -/
theorem groups_of_clean (h : (parse source).errors = []) :
    (∀ line ∈ tokenize source, ∃ k, Written k line) ∧
      ∀ g ∈ groupLines (tokenize source), Laid (isHeaderLine g.flatten) g ∧ regroup g = [g] := by
  rw [parse, parseTokens_errors, List.flatMap_eq_nil_iff] at h
  have hlines : ∀ line ∈ tokenize source, (∀ t ∈ line, t.kind ≠ .unknown) →
      ∃ k, Written k line := by
    intro line hline hu
    obtain ⟨k, hk, -⟩ := written_of_mem_lines hline hu
    exact ⟨k, hk⟩
  generalize tokenize source = lines at *
  have hknown : ∀ g ∈ groupLines lines,
      (∀ t ∈ g.flatten, t.kind ≠ .unknown) ∧ isContinuationLine g.flatten = false := by
    intro g hg
    have hmem : g.flatten ∈ (groupLines lines).map List.flatten := List.mem_map_of_mem hg
    rw [← flatMap_splitParts isHeaderLine ((groupLines lines).map List.flatten)] at hmem
    obtain ⟨p, hp, hmem⟩ := List.mem_flatMap.1 hmem
    exact known_of_buildSection (fun h hh => ((splitParts_spec p hp).1 h hh).1) (h p hp) _ hmem
  have hwritten : ∀ line ∈ lines, ∃ k, Written k line := by
    intro line hline
    rw [← flatten_groupLines lines] at hline
    obtain ⟨g, hg, hmem⟩ := List.mem_flatten.1 hline
    refine hlines line ?_ fun t ht => (hknown g hg).1 t (List.mem_flatten.2 ⟨line, hmem, ht⟩)
    rw [← flatten_groupLines lines]
    exact hline
  refine ⟨hwritten, fun g hg => ?_⟩
  obtain ⟨⟨header, hl⟩, hone⟩ := laid_of_mem_groupLines hwritten hg (hknown g hg).2
  rw [hl.isHeaderLine]
  exact ⟨hl, hone⟩

/-- **What is read without a defect is sound.** -/
theorem sound_parse (h : (parse source).errors = []) : (parse source).IsSound := by
  obtain ⟨hwritten, hgroups⟩ := groups_of_clean h
  have hterm : ∀ line ∈ (tokenize source).dropLast, ∀ e ∈ line.getLast?, e.value ≠ "" :=
    fun line hline => terminated_of_mem_lines hline
  rw [parse] at h ⊢
  rw [parseTokens_errors, List.flatMap_eq_nil_iff] at h
  generalize tokenize source = lines at *
  have hlaid : ∀ ts ∈ (groupLines lines).map List.flatten,
      Laid (isHeaderLine ts) (splitLines ts) := by
    intro ts hts
    obtain ⟨g, hg, rfl⟩ := List.mem_map.1 hts
    obtain ⟨hl, -⟩ := hgroups g hg
    rwa [splitLines_flatten hl.written]
  have hlast : ∀ ts ∈ ((groupLines lines).map List.flatten).dropLast,
      ∀ e ∈ ts.getLast?, e.value ≠ "" := by
    intro ts hts e he
    rw [← List.map_dropLast] at hts
    obtain ⟨g, hg, rfl⟩ := List.mem_map.1 hts
    have hmem := List.dropLast_subset _ hg
    rcases List.eq_nil_or_concat g with rfl | ⟨front, line, rfl⟩
    · exact absurd rfl (ne_nil_of_mem_groupLines hmem)
    · rw [List.concat_eq_append] at hg hmem he
      have hline : line ∈ lines.dropLast := by
        rw [← flatten_groupLines lines]
        exact mem_dropLast_flatten (fun g hg => ne_nil_of_mem_groupLines hg) hg line (by simp)
      obtain ⟨k, hk⟩ := hwritten line (List.dropLast_subset _ hline)
      obtain @⟨us, b, -, -⟩ := hk
      refine hterm _ hline e ?_
      simpa using he
  refine ⟨?_, ?_⟩
  · rw [parseTokens_sections]
    intro sect hsect
    obtain ⟨p, hp, rfl⟩ := List.mem_map.1 hsect
    obtain ⟨hheader, hrest⟩ := splitParts_spec p hp
    refine sound_of_buildSection (fun r hr => ?_) (fun g hg => ?_) (h p hp)
    · have := hlaid r (hheader r hr).2
      rwa [(hheader r hr).1] at this
    · have := hlaid g (hrest g hg).2
      rwa [(hrest g hg).1] at this
  · rw [parseTokens_sections]
    refine headersEnd_of_parts splitParts_tail ?_
    rw [flatMap_splitParts isHeaderLine ((groupLines lines).map List.flatten)]
    exact hlast

/-- The lines of the model of a source without defects are those of the source. -/
theorem lines_parse (h : (parse source).errors = []) : (parse source).lines = tokenize source := by
  obtain ⟨-, hgroups⟩ := groups_of_clean h
  have htokens : (parse source).statements.map (·.tokens) =
      (groupLines (tokenize source)).map List.flatten := tokenLists_parseTokens _
  have hlines : (parse source).lines =
      ((parse source).statements.map (·.tokens)).flatMap splitLines := by
    rw [File.lines, List.flatMap_map]
  rw [hlines, htokens, List.flatMap_map, ← flatten_groupLines (tokenize source), List.flatMap_def]
  congr 1
  rw [flatten_groupLines]
  refine (List.map_congr_left fun g hg => ?_).trans (List.map_id _)
  exact splitLines_flatten (hgroups g hg).1.written

end

end RobotSuite
