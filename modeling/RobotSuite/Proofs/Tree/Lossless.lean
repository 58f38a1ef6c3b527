/-
# Reading loses nothing

Lines are put together to statements, and each of these lands in its place in the model: the
statements of the model, in the order in which they are written, hold the tokens of the
groups of lines in their order (`tokenLists_parseTokens`), whatever defects were found on the
way.  Each layer of the model keeps the tokens of the one below: nesting, marking of
comments, blocks, sections.  So the text of a model that was read from a source is that
source.

There is no model where a statement has no type: that is, where it has data and stands in a section
with an inherited name (`parseTokens?_cases`).
-/

import RobotSuite.Proofs.Tree.BlockGrammar
import RobotSuite.Tree.Parse

namespace RobotSuite

/-- The tokens of some statements, in order. -/
def tokensOf (ss : List Statement) : List Token := ss.flatMap (·.tokens)

@[simp] theorem tokensOf_nil : tokensOf [] = [] := rfl

@[simp] theorem tokensOf_cons (s : Statement) (ss : List Statement) :
    tokensOf (s :: ss) = s.tokens ++ tokensOf ss := rfl

/-- The tokens of each of some statements. -/
def tokenLists (ss : List Statement) : List (List Token) := ss.map (·.tokens)

@[simp] theorem tokenLists_nil : tokenLists [] = [] := rfl

@[simp] theorem tokenLists_cons (s : Statement) (ss : List Statement) :
    tokenLists (s :: ss) = s.tokens :: tokenLists ss := rfl

/-- The tokens of two lists of statements come one after the other. -/
@[simp] theorem tokenLists_append (a b : List Statement) :
    tokenLists (a ++ b) = tokenLists a ++ tokenLists b := by
  simp [tokenLists]

/-- The token lists hold the tokens. -/
theorem flatten_tokenLists (ss : List Statement) : (tokenLists ss).flatten = tokensOf ss := by
  rw [tokensOf, List.flatMap_def, tokenLists]

/-- The text of statements is the text of their tokens. -/
theorem renderStatements_eq (ss : List Statement) :
    renderStatements ss = renderTokens (tokensOf ss) := by
  induction ss with
  | nil => rfl
  | cons s ss ih =>
    rw [tokensOf_cons, renderTokens_append, ← ih]
    simp [renderStatements, Statement.text, String.join_cons]

/-! ## Comments -/

/-- A mark keeps the tokens. -/
@[simp] theorem Statement.markOwned_tokens (s : Statement) (owned : Bool) :
    (s.markOwned owned).tokens = s.tokens := by
  unfold markOwned; split <;> rfl

section
variable {α : Type} {f : Statement → α}

mutual

/-- Marking a block keeps what looks at no mark. -/
theorem ControlBlock.map_markOwned (hf : ∀ s owned, f (s.markOwned owned) = f s) :
    ∀ c : ControlBlock, c.markOwned.statements.map f = c.statements.map f
  | ⟨_, _, _, body, branches, _, _⟩ => by
    simp [ControlBlock.markOwned, ControlBlock.statements, map_markOwnedBody hf body,
      map_markOwnedBranches hf branches]

/-- The same for a body. -/
theorem map_markOwnedBody (hf : ∀ s owned, f (s.markOwned owned) = f s) :
    ∀ items : List BodyItem,
      (bodyStatements (markOwnedBody items)).map f = (bodyStatements items).map f
  | [] => rfl
  | .statement s :: rest => by
    rw [markOwnedBody, bodyStatements, bodyStatements, List.map_append, List.map_append,
      map_markOwnedBody hf rest, BodyItem.statements, BodyItem.statements, List.map_singleton, hf]
    rfl
  | .control c :: rest => by
    simp [markOwnedBody, bodyStatements, BodyItem.statements, c.map_markOwned hf,
      map_markOwnedBody hf rest]

/-- The same for the branches of a block. -/
theorem map_markOwnedBranches (hf : ∀ s owned, f (s.markOwned owned) = f s) :
    ∀ bs : List Branch,
      (branchesStatements (markOwnedBranches bs)).map f = (branchesStatements bs).map f
  | [] => rfl
  | ⟨_, _, body, _⟩ :: rest => by
    simp [markOwnedBranches, branchesStatements, Branch.statements, map_markOwnedBody hf body,
      map_markOwnedBranches hf rest]

end

/-- The same for the items of a section. -/
theorem map_markOwnedItems (hf : ∀ s owned, f (s.markOwned owned) = f s)
    (items : List SectionItem) :
    (itemsStatements (markOwnedItems items)).map f = (itemsStatements items).map f := by
  induction items with
  | nil => rfl
  | cons item items ih =>
    rw [itemsStatements, itemsStatements] at ih
    cases item with
    | statement s =>
      rw [markOwnedItems, itemsStatements, itemsStatements, List.flatMap_cons, List.flatMap_cons,
        List.map_append, List.map_append, ih, SectionItem.statements, SectionItem.statements,
        List.map_singleton, hf]
      rfl
    | block b =>
      rw [markOwnedItems, itemsStatements, itemsStatements, List.flatMap_cons, List.flatMap_cons,
        List.map_append, List.map_append, ih, SectionItem.statements, SectionItem.statements,
        Block.statements, Block.statements, List.map_cons, List.map_cons, map_markOwnedBody hf]

/-- Marking comments changes nothing but the marks. -/
theorem map_markOwned_section (hf : ∀ s owned, f (s.markOwned owned) = f s) (s : Section) :
    ({ s with body := markOwnedItems s.body } : Section).statements.map f = s.statements.map f := by
  rw [Section.statements, Section.statements, List.map_append, List.map_append,
    map_markOwnedItems hf]

end

/-! ## Blocks and sections -/

/-- Nesting keeps the tokens of a body. -/
theorem tokenLists_nest (ss : List Statement) :
    tokenLists (bodyStatements (nest ss).1) = tokenLists ss := by
  rw [bodyStatements_nest]
  exact map_tokens_kept [] ss

/-- An item in front of the blocks keeps its tokens. -/
@[simp] theorem tokenLists_leadingItem (owner : BlockType) (s : Statement) :
    tokenLists (leadingItem owner s).1.statements = [s.tokens] := by
  unfold leadingItem
  split <;> simp [SectionItem.statements, misplaced, Statement.ofDefect, Statement.create]

/-- A block keeps its statements' tokens. -/
theorem tokenLists_blockPart (owner : BlockType) (p : Option Statement × List Statement) :
    tokenLists (itemsStatements (blockPart owner p).1) = tokenLists (p.1.toList ++ p.2) := by
  obtain ⟨header, ss⟩ := p
  cases header with
  | none =>
    induction ss with
    | nil => rfl
    | cons s ss ih => simpa [blockPart, itemsStatements] using ih
  | some header =>
    simp [blockPart, itemsStatements, SectionItem.statements, Block.statements, buildBlock,
      tokenLists_nest]

/-- The tokens of parts come one after the other. -/
theorem tokenLists_flatMap {α : Type} (f : α → List Statement) (xs : List α) :
    tokenLists (xs.flatMap f) = xs.flatMap fun x => tokenLists (f x) := by
  simp [tokenLists, List.map_flatMap]

/-- The statements of parts come one after the other. -/
theorem itemsStatements_flatMap {α : Type} (f : α → List SectionItem) (xs : List α) :
    itemsStatements (xs.flatMap f) = xs.flatMap fun x => itemsStatements (f x) := by
  simp [itemsStatements, List.flatMap_assoc]

/-- Plain items hold the statements. -/
theorem itemsStatements_map_statement (ss : List Statement) :
    itemsStatements (ss.map .statement) = ss := by
  simp [itemsStatements, List.flatMap_map, SectionItem.statements]

/-- The blocks keep all tokens. -/
theorem tokenLists_buildBlocks (owner : BlockType) (ss : List Statement) :
    tokenLists (itemsStatements (buildBlocks owner ss).1) = tokenLists ss := by
  have hparts := congrArg tokenLists (flatMap_splitParts isBlockName ss)
  rw [tokenLists_flatMap] at hparts
  rw [← hparts, buildBlocks, itemsStatements_flatMap, tokenLists_flatMap, List.flatMap_map]
  simp only [tokenLists_blockPart]

/-- The items of a section keep all groups. -/
theorem tokenLists_buildItems (kind : SectionKind) (groups : List (List Token)) :
    tokenLists (itemsStatements (buildItems kind groups).1) = groups := by
  have hread : tokenLists ((groups.map (classify kind)).map (·.1)) = groups := by
    simp [tokenLists, Function.comp_def, classify_tokens]
  unfold buildItems
  cases kind.blockType? with
  | none => rw [itemsStatements_map_statement, hread]
  | some owner => exact (tokenLists_buildBlocks owner _).trans hread

/-- A section keeps its header and all groups. -/
theorem tokenLists_buildSection (header : Option (List Token)) (groups : List (List Token)) :
    tokenLists (buildSection header groups).1.statements = header.toList ++ groups := by
  cases header <;>
    simp [buildSection, Section.statements, tokenLists_buildItems, Statement.create]

/-! ## Files -/

/-- Marking a section keeps its tokens. -/
theorem tokenLists_markOwned_section (s : Section) :
    tokenLists ({ s with body := markOwnedItems s.body } : Section).statements =
      tokenLists s.statements :=
  map_markOwned_section Statement.markOwned_tokens s

/-- **Each statement holds the tokens of its lines.** -/
theorem tokenLists_parseTokens (lines : List (List Token)) :
    tokenLists (parseTokens lines).statements = (groupLines lines).map List.flatten := by
  let groups := (groupLines lines).map List.flatten
  calc tokenLists (parseTokens lines).statements
      = (splitParts isHeaderLine groups).flatMap fun p =>
          tokenLists (buildSection p.1 p.2).1.statements := by
        simp only [parseTokens, File.statements, List.map_map, List.flatMap_map, tokenLists_flatMap,
          Function.comp_apply, tokenLists_markOwned_section, groups]
    _ = groups := by simp only [tokenLists_buildSection, flatMap_splitParts]

/-- Every token of every line is kept once and in its place. -/
theorem tokensOf_parseTokens (lines : List (List Token)) :
    tokensOf (parseTokens lines).statements = lines.flatten := by
  rw [← flatten_tokenLists, tokenLists_parseTokens, ← List.flatten_flatten, flatten_groupLines]

/-- The texts of two lists of pieces come one after the other. -/
@[simp] theorem pieceText_append (a b : List Piece) :
    pieceText (a ++ b) = pieceText a ++ pieceText b := by
  simp [pieceText]

/-- The pieces of a line are its text and its ending. -/
theorem pieceText_nextPieces (cs : List Char) :
    pieceText (nextPieces cs) = (cutLine cs).1 ++ (cutLine cs).2.1 := by
  rw [nextPieces, pieceText_append, pieceText_linePieces]
  simp [pieceText]

/-- The tokens of a source make up its text. -/
theorem toList_renderTokens_lines (c : Cursor) :
    (renderTokens c.lines.flatten).toList = c.rest := by
  fun_induction Cursor.lines c with
  | case1 c h => simp [renderTokens, h]
  | case2 c h ih =>
    rw [List.flatten_cons, renderTokens_append, String.toList_append, ih, Cursor.nextLine,
      toList_renderTokens_layOut, pieceText_nextPieces, cutLine_eq]

/-- The text of the model of a source is that source. -/
theorem render_parse (source : String) : (parse source).render = source := by
  rw [File.render, renderStatements_eq, parse, tokensOf_parseTokens, ← String.toList_inj, tokenize,
    toList_renderTokens_lines, Cursor.ofSource]

/-! ## What cannot be read -/

/-- The sections that some lines of tokens make: the tokens of a header, if there is one, and those
of each statement behind it. -/
def sectionParts (lines : List (List Token)) : List (Option (List Token) × List (List Token)) :=
  splitParts isHeaderLine ((groupLines lines).map List.flatten)

/-- Whether some tokens make a statement with data: there is a cell, none holds control characters,
and the first is no continuation marker. -/
def needsType (ts : List Token) : Bool :=
  (ts.all fun t => t.kind != .unknown) && !isContinuationLine ts && !(dataTokens ts).isEmpty

/-- Whether a section is opened by an inherited name and holds a statement with data. -/
def IsUntyped (p : Option (List Token) × List (List Token)) : Prop :=
  (∃ h ∈ p.1, ∃ name,
    SectionKind.ofHeader? (Statement.create .sectionHeader h).nameText = some (.inherited name)) ∧
      ∃ ts ∈ p.2, needsType ts = true

/-- Some defects, one of which is that a statement has no type. -/
def lacksType (errors : List ParseError) : Bool := errors.any fun e => e.defect = .untyped

/-- A type is lacking in two lists when it is in one. -/
@[simp] theorem lacksType_append (a b : List ParseError) :
    lacksType (a ++ b) = (lacksType a || lacksType b) := List.any_append

/-- A type is lacking in parts when it is in one. -/
theorem lacksType_flatMap {α : Type} (f : α → List ParseError) (xs : List α) :
    lacksType (xs.flatMap f) = xs.any fun x => lacksType (f x) := List.any_flatMap

/-- A statement has no type exactly if it has data and stands in a section with an inherited name. -/
theorem lacksType_classify (kind : SectionKind) (ts : List Token) :
    lacksType (classify kind ts).2 = (kind.isInherited && needsType ts) := by
  rw [classify, needsType]
  cases hfind : ts.find? fun t => t.kind == .unknown with
  | some t =>
    have hall : (ts.all fun t => t.kind != .unknown) = false := by
      have hmem := List.mem_of_find?_eq_some hfind
      have hkind := List.find?_some hfind
      exact List.all_eq_false.2 ⟨t, hmem, by simpa using hkind⟩
    rw [hall, Bool.false_and, Bool.false_and, Bool.and_false]
    rfl
  | none =>
    have hall : (ts.all fun t => t.kind != .unknown) = true := by
      rw [List.find?_eq_none] at hfind
      exact List.all_eq_true.2 fun t ht => by simpa using hfind t ht
    rw [hall, Bool.true_and]
    dsimp only
    cases isContinuationLine ts with
    | true => simp [lacksType, misplaced]
    | false =>
      cases (dataTokens ts).isEmpty with
      | true => simp [lacksType]
      | false =>
        cases hk : kind.isInherited with
        | true => simp [lacksType, misplaced]
        | false => cases h : (checkSetting (Statement.create (dataType kind (dataTokens ts)) ts)) with
          | mk s errors =>
            rw [checkSetting] at h
            split at h <;> cases h <;> simp [lacksType]

/-- Nesting finds other defects. -/
theorem lacksType_nest (ss : List Statement) : lacksType (nest ss).2 = false := by
  have hrejections (opened : List Statement) : lacksType (rejections opened ss) = false := by
    induction ss generalizing opened with
    | nil => rfl
    | cons s ss ih =>
      have hmisfit : ∀ d ∈ misfit? opened s, d ≠ .untyped := by
        intro d hd
        rw [misfit?] at hd
        split at hd
        · split at hd <;> cases hd
          simp
        · split at hd <;> cases hd
          simp [Nesting.strayBranch]
      rw [rejections, lacksType_append, ih, Bool.or_false, rejection]
      cases hd : misfit? opened s with
      | none => rfl
      | some d => simpa [lacksType] using hmisfit d hd
  have hunclosed : lacksType ((openAfter ss).map unclosed) = false := by
    simp [lacksType, unclosed]
  rw [errors_nest, lacksType_append, hrejections, hunclosed, Bool.or_false]

/-- So does the reading of blocks. -/
theorem lacksType_buildBlocks (owner : BlockType) (ss : List Statement) :
    lacksType (buildBlocks owner ss).2 = false := by
  show lacksType (((splitParts isBlockName ss).map (blockPart owner)).flatMap (·.2)) = false
  rw [List.flatMap_map, lacksType_flatMap, List.any_eq_false]
  rintro ⟨header, rest⟩ -
  cases header with
  | none =>
    rw [blockPart, List.flatMap_map, lacksType_flatMap, Bool.not_eq_true, List.any_eq_false]
    intro s _
    rw [leadingItem]
    split <;> simp [lacksType, misplaced]
  | some header =>
    rw [blockPart, buildBlock, Bool.not_eq_true]
    exact lacksType_nest rest

/-- Among the items of a section a statement has no type exactly if the section has an inherited name
and holds a statement with data. -/
theorem lacksType_buildItems (kind : SectionKind) (groups : List (List Token)) :
    lacksType (buildItems kind groups).2 = (kind.isInherited && groups.any needsType) := by
  have hread : lacksType ((groups.map (classify kind)).flatMap (·.2)) =
      (kind.isInherited && groups.any needsType) := by
    rw [List.flatMap_map, lacksType_flatMap]
    simp only [lacksType_classify]
    cases kind.isInherited <;> simp
  rw [buildItems]
  cases kind.blockType? with
  | none => exact hread
  | some owner =>
    dsimp only
    rw [lacksType_append, hread, lacksType_buildBlocks, Bool.or_false]

/-- The same of a whole section. -/
theorem lacksType_buildSection (p : Option (List Token) × List (List Token)) :
    lacksType (buildSection p.1 p.2).2 = true ↔ IsUntyped p := by
  obtain ⟨header, groups⟩ := p
  cases header with
  | none =>
    have hitems : lacksType (buildItems .comments groups).2 = false := lacksType_buildItems _ _
    simpa [buildSection, IsUntyped] using hitems
  | some h =>
    have hunknown : lacksType (readHeader (Statement.create .sectionHeader h)).2 = false := by
      rw [readHeader]
      split <;> simp [lacksType]
    have hkind : (readHeader (Statement.create .sectionHeader h)).1.isInherited = true ↔
        ∃ name, SectionKind.ofHeader? (Statement.create .sectionHeader h).nameText =
          some (.inherited name) := by
      rw [readHeader]
      split <;> rename_i hread <;> simp [hread, SectionKind.isInherited_iff]
    simp [buildSection, lacksType_buildItems, hunknown, hkind, IsUntyped]

/-- **Reading fails exactly if a section with an inherited name holds a statement with data,** and
gives the model otherwise. -/
theorem parseTokens?_cases (lines : List (List Token)) :
    (∀ p ∈ sectionParts lines, ¬ IsUntyped p) ∧ parseTokens? lines = .ok (parseTokens lines) ∨
      (∃ p ∈ sectionParts lines, IsUntyped p) ∧
        parseTokens? lines = .error (.internal Defect.untyped.message) := by
  have herrors : (parseTokens lines).isUnreadable = (sectionParts lines).any fun p =>
      lacksType (buildSection p.1 p.2).2 := by
    rw [← lacksType_flatMap]
    simp only [File.isUnreadable, parseTokens, List.flatMap_map, sectionParts]
    rfl
  rw [parseTokens?]
  cases hread : (parseTokens lines).isUnreadable with
  | false =>
    rw [herrors, List.any_eq_false] at hread
    exact .inl ⟨fun p hp h => hread p hp ((lacksType_buildSection p).2 h), rfl⟩
  | true =>
    rw [herrors, List.any_eq_true] at hread
    obtain ⟨p, hp, h⟩ := hread
    exact .inr ⟨⟨p, hp, (lacksType_buildSection p).1 h⟩, rfl⟩

/-- What reading gives is the model. -/
theorem parseTokens?_eq_ok {lines : List (List Token)} {f : File}
    (h : parseTokens? lines = .ok f) : f = parseTokens lines := by
  rcases parseTokens?_cases lines with ⟨-, hok⟩ | ⟨-, herror⟩
  · exact Except.ok.inj (h.symm.trans hok)
  · cases h.symm.trans herror

/-- **Reading loses nothing,** if it does not fail.  The statements of what is read of any lines of
tokens, in the order in which they are written, hold these tokens, each once and in order, whatever
defects are found; and what is read of a source has that source as its text.  Reading fails exactly
if a section with an inherited name holds a statement with data. -/
theorem parse_lossless (source : String) (lines : List (List Token)) :
    (∀ f, parseTokens? lines = .ok f → f.statements.flatMap (·.tokens) = lines.flatten) ∧
    (∀ f, parse? source = .ok f → f.render = source) ∧
    ((∃ f, parseTokens? lines = .ok f) ↔ ∀ p ∈ sectionParts lines, ¬ IsUntyped p) := by
  refine ⟨fun f h => ?_, fun f h => ?_, ?_⟩
  · rw [parseTokens?_eq_ok h]
    exact tokensOf_parseTokens lines
  · rw [parseTokens?_eq_ok h]
    exact render_parse source
  · rcases parseTokens?_cases lines with ⟨hnone, hok⟩ | ⟨⟨p, hp, huntyped⟩, herror⟩
    · exact iff_of_true ⟨_, hok⟩ hnone
    · exact iff_of_false (fun ⟨f, hf⟩ => by cases herror.symm.trans hf) fun h => h p hp huntyped

/-- A statement with data has no type in a section that is named `constructor`, so its source has no
model. -/
theorem parse_fails : let source := "*** constructor ***\nfoo\n"
    parse? source = .error (.internal "Cannot read properties of undefined (reading 'type')") ∧
      ∀ f, parse? source ≠ .ok f := by
  intro source
  have hfails : parse? source =
      .error (.internal "Cannot read properties of undefined (reading 'type')") :=
    if_pos (by decide +kernel)
  exact ⟨hfails, fun f hf => by cases hfails.symm.trans hf⟩

end RobotSuite
