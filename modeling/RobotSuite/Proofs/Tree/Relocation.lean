/-
# Models at other places

The parts of a model know where they stand in their source.  Moving a model changes these
places by a function and nothing else.  Reading only hands places on: what is made of moved
lines is what is made of the lines, moved, as far as it stands in a source at all
(`classify_moved`, `nest_moved`, `markedSection_moved`).  Tokens that follow a header are such
a part, whatever stands in front of them; without a header a section may be empty, and stands
at the start of the source wherever its tokens do, so that the start must stay where it is.
-/

import RobotSuite.Proofs.Tree.GapFreeReading

namespace RobotSuite

/-! ## Moving -/

section
variable (f : Location → Location)

/-- A stretch at another place. -/
def Span.moved (s : Span) : Span := ⟨f s.start, f s.stop⟩

/-- A token at another place. -/
def Token.moved (t : Token) : Token := { t with span := t.span.moved f }

/-- A statement at another place. -/
def Statement.moved (s : Statement) : Statement :=
  { s with span := s.span.moved f, tokens := s.tokens.map (Token.moved f) }

/-- A defect that was found at another place. -/
def ParseError.moved (e : ParseError) : ParseError := { e with location := f e.location }

mutual

/-- A body item at another place. -/
def BodyItem.moved : BodyItem → BodyItem
  | .statement s => .statement (s.moved f)
  | .control c => .control c.moved

/-- A control block at another place. -/
def ControlBlock.moved : ControlBlock → ControlBlock
  | ⟨type, span, header, body, branches, close, label⟩ =>
    ⟨type, span.moved f, header.moved f, movedBody body, movedBranches branches,
      close.map (Statement.moved f), label⟩

/-- A body at another place. -/
def movedBody : List BodyItem → List BodyItem
  | [] => []
  | item :: items => item.moved :: movedBody items

/-- A branch at another place. -/
def Branch.moved : Branch → Branch
  | ⟨span, header, body, label⟩ => ⟨span.moved f, header.moved f, movedBody body, label⟩

/-- Branches at another place. -/
def movedBranches : List Branch → List Branch
  | [] => []
  | b :: bs => b.moved :: movedBranches bs

end

/-- A block at another place. -/
def Block.moved (b : Block) : Block :=
  { b with span := b.span.moved f, header := b.header.moved f, body := movedBody f b.body }

/-- A section item at another place. -/
def SectionItem.moved : SectionItem → SectionItem
  | .statement s => .statement (s.moved f)
  | .block b => .block (b.moved f)

/-- A section at another place. -/
def Section.moved (s : Section) : Section :=
  { s with
    span := s.span.moved f
    header := s.header.map (Statement.moved f)
    body := s.body.map (SectionItem.moved f) }

/-- A block that is still open, at another place. -/
def OpenBlock.moved (b : OpenBlock) : OpenBlock :=
  ⟨b.type, b.header.moved f, movedBody f b.body,
    b.branches.map fun p => (p.1.moved f, movedBody f p.2)⟩

/-- Items nested so far, at another place. -/
def Nesting.moved (n : Nesting) : Nesting :=
  ⟨movedBody f n.root, n.stack.map (OpenBlock.moved f), n.errors.map (ParseError.moved f)⟩

/-- What was made of some tokens and the defects found, at another place. -/
def movedRead {α : Type} (m : α → α) (r : α × List ParseError) : α × List ParseError :=
  (m r.1, r.2.map (ParseError.moved f))

end

section
variable {f : Location → Location}

/-- Body items are moved one by one. -/
theorem movedBody_eq_map (items : List BodyItem) :
    movedBody f items = items.map (BodyItem.moved f) := by
  induction items with
  | nil => rfl
  | cons item items ih => rw [movedBody, ih, List.map_cons]

/-- Branches are moved one by one. -/
theorem movedBranches_eq_map (bs : List Branch) :
    movedBranches f bs = bs.map (Branch.moved f) := by
  induction bs with
  | nil => rfl
  | cons b bs ih => rw [movedBranches, ih, List.map_cons]

/-- The last item is moved last. -/
theorem movedBody_concat (items : List BodyItem) (item : BodyItem) :
    movedBody f (items ++ [item]) = movedBody f items ++ [item.moved f] := by
  rw [movedBody_eq_map, movedBody_eq_map, List.map_append, List.map_singleton]

/-- A moved item spans the moved span. -/
theorem BodyItem.span_moved (item : BodyItem) : (item.moved f).span = item.span.moved f := by
  cases item with
  | statement s => rfl
  | control c => cases c; rfl

/-- The same for an item of a section. -/
theorem SectionItem.span_moved (item : SectionItem) :
    (item.moved f).span = item.span.moved f := by
  cases item <;> rfl

/-- Moved items end where the end is moved to. -/
theorem endOfItems_moved (items : List BodyItem) :
    endOfItems (movedBody f items) = (endOfItems items).map f := by
  rw [endOfItems, endOfItems, movedBody_eq_map, List.getLast?_map, Option.map_map,
    Option.map_map]
  exact congrArg (Option.map · _) (funext fun i => by
    rw [Function.comp_apply, i.span_moved]
    rfl)

/-! ## Tokens -/

section
variable (ts : List Token)

/-- The first significant token is moved. -/
theorem firstSignificant_moved :
    firstSignificant (ts.map (Token.moved f)) = (firstSignificant ts).map (Token.moved f) := by
  rw [firstSignificant, List.find?_map]
  rfl

/-- Places do not decide what is a header. -/
theorem isHeaderLine_moved : isHeaderLine (ts.map (Token.moved f)) = isHeaderLine ts := by
  rw [isHeaderLine, firstSignificant_moved, Option.any_map]
  rfl

/-- Places do not decide what continues. -/
theorem isContinuationLine_moved :
    isContinuationLine (ts.map (Token.moved f)) = isContinuationLine ts := by
  rw [isContinuationLine, firstSignificant_moved, Option.any_map]
  rfl

/-- Places do not decide what is a comment line. -/
theorem isCommentLine_moved : isCommentLine (ts.map (Token.moved f)) = isCommentLine ts := by
  rw [isCommentLine, List.any_map, List.any_map]
  rfl

/-- Places do not decide what may be continued. -/
theorem isContinuable_moved : isContinuable (ts.map (Token.moved f)) = isContinuable ts := by
  rw [isContinuable, isHeaderLine_moved, List.any_map]
  rfl

/-- The data is moved. -/
theorem dataTokens_moved :
    dataTokens (ts.map (Token.moved f)) = (dataTokens ts).map (Token.moved f) := by
  rw [dataTokens, List.filter_map]
  rfl

/-- The comments are moved. -/
theorem commentTokens_moved :
    commentTokens (ts.map (Token.moved f)) = (commentTokens ts).map (Token.moved f) := by
  rw [commentTokens, List.filter_map]
  rfl

/-- Moving keeps the data texts. -/
theorem dataTexts_moved : dataTexts (ts.map (Token.moved f)) = dataTexts ts := by
  rw [dataTexts, dataTokens_moved, List.map_map]
  rfl

/-- Places do not decide the type of a statement. -/
theorem dataType_moved (kind : SectionKind) :
    dataType kind (ts.map (Token.moved f)) = dataType kind ts := by
  refine dataType_congr ?_ ?_
  · rw [List.map_map]
    rfl
  · rw [List.head?_map, Option.any_map]
    rfl

end

/-- Moved lines are put together as they were. -/
theorem groupLines_moved (lines : List (List Token)) :
    groupLines (lines.map (·.map (Token.moved f))) =
      (groupLines lines).map (·.map (·.map (Token.moved f))) :=
  groupLines_map (fun line => ⟨isContinuationLine_moved line, isCommentLine_moved line,
    isContinuable_moved line⟩) lines

/-- Tokens stand where the first of them and the last do, if there are any. -/
theorem spanOfTokens_moved {ts : List Token} (h : ts ≠ []) :
    spanOfTokens (ts.map (Token.moved f)) = (spanOfTokens ts).moved f := by
  rw [spanOfTokens, spanOfTokens, List.head?_map, List.getLast?_map, List.head?_eq_some_head h,
    List.getLast?_eq_some_getLast h]
  rfl

/-! ## Statements -/

/-- A statement of moved tokens is the moved statement. -/
theorem create_moved (type : StatementType) {ts : List Token} (h : ts ≠ []) :
    Statement.create type (ts.map (Token.moved f)) = (Statement.create type ts).moved f := by
  rw [Statement.create, spanOfTokens_moved h]
  rfl

/-- An error of moved tokens is the moved error. -/
theorem ofDefect_moved (defect : Defect) {ts : List Token} (h : ts ≠ []) :
    Statement.ofDefect defect (ts.map (Token.moved f)) =
      (Statement.ofDefect defect ts).moved f := by
  rw [Statement.ofDefect, create_moved .error h]
  rfl

/-- A misplaced statement is reported at its moved place. -/
theorem misplaced_moved (defect : Defect) {ts : List Token} (h : ts ≠ []) :
    misplaced defect (ts.map (Token.moved f)) =
      movedRead f (Statement.moved f) (misplaced defect ts) := by
  rw [misplaced, ofDefect_moved defect h]
  rfl

/-- The data is moved. -/
theorem Statement.data_moved (s : Statement) :
    (s.moved f).data = s.data.map (Token.moved f) := dataTokens_moved s.tokens

/-- Moving keeps the name's text. -/
theorem Statement.nameText_moved (s : Statement) : (s.moved f).nameText = s.nameText :=
  nameText_congr rfl (dataTexts_moved s.tokens)

/-- The name is moved. -/
theorem Statement.name_moved (s : Statement) :
    (s.moved f).name = s.name.map (Token.moved f) := by
  have hassign : (s.moved f).assign = s.assign.map (Token.moved f) := by
    rw [assign, assign, data_moved, List.takeWhile_map]
    show (if s.type = .keywordCall then _ else _) = _
    split <;> rfl
  rw [name, name, hassign, List.length_map, data_moved, ← List.map_drop, List.head?_map]

/-- A setting is checked alike at its moved place. -/
theorem checkSetting_moved (s : Statement) :
    checkSetting (s.moved f) = movedRead f (Statement.moved f) (checkSetting s) := by
  have hknown : (s.moved f).hasKnownSetting = s.hasKnownSetting :=
    hasKnownSetting_congr rfl s.nameText_moved
  rw [checkSetting, checkSetting, hknown, s.name_moved, s.nameText_moved]
  split
  · rfl
  · cases s.name <;> rfl

/-- **Moved tokens are read as the tokens are.** -/
theorem classify_moved (kind : SectionKind) {ts : List Token} (h : ts ≠ []) :
    classify kind (ts.map (Token.moved f)) =
      movedRead f (Statement.moved f) (classify kind ts) := by
  have hfind : (ts.map (Token.moved f)).find? (fun t => t.kind == .unknown) =
      (ts.find? fun t => t.kind == .unknown).map (Token.moved f) := by
    rw [List.find?_map]
    rfl
  rw [classify, classify, hfind]
  cases ts.find? fun t => t.kind == .unknown with
  | some t =>
    rw [Option.map_some, ofDefect_moved .controlCharacters h]
    rfl
  | none =>
    rw [Option.map_none]
    dsimp only
    rw [isContinuationLine_moved, dataTokens_moved, commentTokens_moved, List.isEmpty_map,
      List.isEmpty_map, dataType_moved, create_moved _ h, create_moved _ h, checkSetting_moved]
    split
    · exact misplaced_moved .strayContinuation h
    · split
      · rfl
      · split
        · exact misplaced_moved .untyped h
        · rfl

/-! ## Bodies -/

namespace OpenBlock

/-- Pushing commutes with moving. -/
theorem moved_push (b : OpenBlock) (item : BodyItem) :
    (b.push item).moved f = (b.moved f).push (item.moved f) := by
  have hlast : (b.moved f).branches.getLast? =
      b.branches.getLast?.map fun p => (p.1.moved f, movedBody f p.2) := List.getLast?_map
  rw [push, push, hlast]
  cases b.branches.getLast? with
  | none =>
    show OpenBlock.mk _ _ (movedBody f (b.body ++ [item])) _ = _
    rw [movedBody_concat]
    rfl
  | some p =>
    obtain ⟨header, body⟩ := p
    show OpenBlock.mk _ _ _ (List.map _ (b.branches.dropLast ++ [(header, body ++ [item])])) = _
    rw [List.map_append, List.map_dropLast, List.map_singleton, movedBody_concat]
    rfl

/-- Starting a branch commutes with moving. -/
theorem moved_branch (b : OpenBlock) (s : Statement) :
    (b.branch s).moved f = (b.moved f).branch (s.moved f) := by
  rw [branch, branch, moved, moved, List.map_append]
  rfl

/-- Closing a branch commutes with moving. -/
theorem closeBranch_moved (header : Statement) (body : List BodyItem) :
    closeBranch (header.moved f) (movedBody f body) = (closeBranch header body).moved f := by
  rw [closeBranch, closeBranch, Branch.moved, endOfItems_moved]
  cases endOfItems body <;> rfl

/-- Closing a block commutes with moving. -/
theorem moved_close (b : OpenBlock) (blockEnd : Option Statement) :
    (b.moved f).close (blockEnd.map (Statement.moved f)) = (b.close blockEnd).moved f := by
  have hbranches : ((b.moved f).branches.map fun p => closeBranch p.1 p.2) =
      (b.branches.map fun p => closeBranch p.1 p.2).map (Branch.moved f) := by
    rw [moved, List.map_map, List.map_map]
    exact List.map_congr_left fun p _ => closeBranch_moved p.1 p.2
  have hstop : (b.moved f).body = movedBody f b.body := rfl
  rw [close, close, ControlBlock.moved, movedBranches_eq_map, hbranches, hstop, endOfItems_moved,
    List.getLast?_map]
  cases blockEnd with
  | some s => rfl
  | none =>
    cases (b.branches.map fun p => closeBranch p.1 p.2).getLast? with
    | some x => cases x; rfl
    | none => cases endOfItems b.body <;> rfl

end OpenBlock

namespace Nesting
variable (n : Nesting)

/-- Pushing commutes with moving. -/
theorem moved_push (item : BodyItem) :
    (n.push item).moved f = (n.moved f).push (item.moved f) := by
  obtain ⟨root, stack, errors⟩ := n
  cases stack with
  | nil =>
    show Nesting.mk (movedBody f (root ++ [item])) _ _ = _
    rw [movedBody_concat]
    rfl
  | cons b rest =>
    show Nesting.mk _ ((b.push item).moved f :: rest.map (OpenBlock.moved f)) _ = _
    rw [OpenBlock.moved_push]
    rfl

/-- Rejecting commutes with moving. -/
theorem moved_reject (defect : Defect) (error : Statement) :
    (n.reject defect error).moved f = (n.moved f).reject defect (error.moved f) := by
  have herrors : (n.push (.statement error)).errors = n.errors := by
    rw [push]
    split <;> rfl
  have hmoved : ((n.moved f).push (.statement (error.moved f))).errors = (n.moved f).errors := by
    rw [push]
    split <;> rfl
  have hpush : (n.push (.statement error)).moved f =
      (n.moved f).push (.statement (error.moved f)) :=
    n.moved_push (.statement error)
  have hroot := congrArg Nesting.root hpush
  have hstack := congrArg Nesting.stack hpush
  rw [reject, reject, record, record, hmoved, ← hroot, ← hstack, moved, herrors, List.map_append]
  rfl

/-- **A moved statement is taken in as the statement is.** -/
theorem moved_step {s : Statement} (h : s.tokens ≠ []) :
    (n.step s).moved f = (n.moved f).step (s.moved f) := by
  have hbranch : (n.rejectBranch s).moved f = (n.moved f).rejectBranch (s.moved f) := by
    have hdefect : strayBranch (s.moved f) = strayBranch s := by
      rw [strayBranch, strayBranch, s.nameText_moved]
      rfl
    rw [rejectBranch, rejectBranch, n.moved_reject, hdefect, ← ofDefect_moved _ h]
    rfl
  have hend : (n.rejectEnd s).moved f = (n.moved f).rejectEnd (s.moved f) :=
    n.moved_reject .unmatchedEnd _
  have htype : (s.moved f).type = s.type := rfl
  have hstack : (n.moved f).stack = n.stack.map (OpenBlock.moved f) := rfl
  rw [step, step, htype, hstack]
  cases ControlType.ofHeader? s.type with
  | some type => rfl
  | none =>
    dsimp only
    cases hn : n.stack with
    | nil =>
      rw [List.map_nil]
      split
      · exact hbranch
      · split
        · exact hend
        · exact n.moved_push (.statement s)
    | cons b rest =>
      rw [List.map_cons]
      dsimp only
      have hb : (b.moved f).type = b.type := rfl
      rw [hb]
      split
      · split
        · rw [moved, List.map_cons, OpenBlock.moved_branch]
          rfl
        · exact hbranch
      · split
        · rw [moved_push, BodyItem.moved, ← OpenBlock.moved_close]
          rfl
        · exact n.moved_push (.statement s)

end Nesting

/-- Building commutes with moving. -/
theorem foldl_moved {ss : List Statement} (h : ∀ s ∈ ss, s.tokens ≠ []) (n : Nesting) :
    (ss.foldl Nesting.step n).moved f =
      (ss.map (Statement.moved f)).foldl Nesting.step (n.moved f) := by
  induction ss generalizing n with
  | nil => rfl
  | cons s ss ih =>
    rw [List.forall_mem_cons] at h
    rw [List.foldl_cons, List.map_cons, List.foldl_cons, ih h.2, n.moved_step h.1]

/-- Closing all blocks commutes with moving. -/
theorem closeAll_moved (root : List BodyItem) (errors : List ParseError)
    (stack : List OpenBlock) :
    Nesting.closeAll (movedBody f root) (errors.map (ParseError.moved f))
        (stack.map (OpenBlock.moved f)) =
      movedRead f (movedBody f) (Nesting.closeAll root errors stack) := by
  have herror (b : OpenBlock) (errors : List ParseError) :
      errors.map (ParseError.moved f) ++
          [⟨.unclosedBlock (b.moved f).header.nameText, (b.moved f).header.span.start⟩] =
        List.map (ParseError.moved f)
          (errors ++ [⟨.unclosedBlock b.header.nameText, b.header.span.start⟩]) := by
    have hname : (b.moved f).header.nameText = b.header.nameText := b.header.nameText_moved
    rw [hname, List.map_append]
    rfl
  have hclose (b : OpenBlock) :
      BodyItem.control ((b.moved f).close none) = (BodyItem.control (b.close none)).moved f :=
    congrArg BodyItem.control (b.moved_close none)
  fun_induction Nesting.closeAll root errors stack with
  | case1 errors => rw [List.map_nil, Nesting.closeAll]; rfl
  | case2 errors b =>
    rw [List.map_singleton, Nesting.closeAll, herror, hclose, ← movedBody_concat]
    rfl
  | case3 errors b outer rest ih =>
    rw [List.map_cons, OpenBlock.moved_push] at ih
    rw [List.map_cons, List.map_cons, Nesting.closeAll, herror, hclose, ih]

/-- **Moved statements nest as the statements do.** -/
theorem nest_moved {ss : List Statement} (h : ∀ s ∈ ss, s.tokens ≠ []) :
    nest (ss.map (Statement.moved f)) = movedRead f (movedBody f) (nest ss) := by
  have hfold := foldl_moved (f := f) h {}
  rw [nest, nest, ← closeAll_moved]
  exact congrArg (fun n : Nesting => Nesting.closeAll n.root n.errors n.stack) hfold.symm

/-! ## Marks -/

/-- Marking commutes with moving. -/
theorem Statement.moved_markOwned (s : Statement) (owned : Bool) :
    (s.markOwned owned).moved f = (s.moved f).markOwned owned := by
  rw [markOwned, markOwned]
  show _ = if s.type = .comment then _ else _
  split <;> rfl

/-- A map that keeps the types keeps what is owned. -/
theorem ownsAbove_map {α : Type} {type? : α → Option StatementType} {m : α → α}
    (h : ∀ x, type? (m x) = type? x) (xs : List α) :
    ownsAbove type? (xs.map m) = ownsAbove type? xs := by
  induction xs with
  | nil => rfl
  | cons x xs ih => rw [List.map_cons, ownsAbove, ownsAbove, h, ih]

/-- Places do not decide what a body owns. -/
theorem ownsAbove_movedBody (items : List BodyItem) :
    ownsAbove BodyItem.type? (movedBody f items) = ownsAbove BodyItem.type? items := by
  rw [movedBody_eq_map]
  exact ownsAbove_map (fun item => by cases item <;> rfl) items

mutual

/-- Marking a block commutes with moving. -/
theorem ControlBlock.moved_markOwned : ∀ c : ControlBlock,
    c.markOwned.moved f = (c.moved f).markOwned
  | ⟨type, span, header, body, branches, close, label⟩ => by
    rw [ControlBlock.markOwned, ControlBlock.moved, ControlBlock.moved, ControlBlock.markOwned,
      movedBody_markOwned body, movedBranches_markOwned branches]

/-- The same for a body. -/
theorem movedBody_markOwned : ∀ items : List BodyItem,
    movedBody f (markOwnedBody items) = markOwnedBody (movedBody f items)
  | [] => rfl
  | .statement s :: rest => by
    rw [markOwnedBody, movedBody, movedBody, BodyItem.moved, BodyItem.moved, markOwnedBody,
      s.moved_markOwned, ownsAbove_movedBody, movedBody_markOwned rest]
  | .control c :: rest => by
    rw [markOwnedBody, movedBody, movedBody, BodyItem.moved, BodyItem.moved, markOwnedBody,
      c.moved_markOwned, movedBody_markOwned rest]

/-- The same for the branches of a block. -/
theorem movedBranches_markOwned : ∀ bs : List Branch,
    movedBranches f (markOwnedBranches bs) = markOwnedBranches (movedBranches f bs)
  | [] => rfl
  | ⟨span, header, body, label⟩ :: rest => by
    rw [markOwnedBranches, movedBranches, movedBranches, Branch.moved, Branch.moved,
      markOwnedBranches, movedBody_markOwned body, movedBranches_markOwned rest]

end

/-- The same for the items of a section. -/
theorem markOwnedItems_moved (items : List SectionItem) :
    markOwnedItems (items.map (SectionItem.moved f)) =
      (markOwnedItems items).map (SectionItem.moved f) := by
  induction items with
  | nil => rfl
  | cons item items ih =>
    cases item with
    | statement s =>
      rw [markOwnedItems, List.map_cons, List.map_cons, SectionItem.moved, SectionItem.moved,
        markOwnedItems, s.moved_markOwned, ih, ownsAbove_map fun item => by cases item <;> rfl]
    | block b =>
      rw [markOwnedItems, List.map_cons, List.map_cons, SectionItem.moved, SectionItem.moved,
        markOwnedItems, ih, Block.moved, Block.moved, movedBody_markOwned]

/-! ## Sections -/

/-- Items in front of the blocks are read alike at their moved places. -/
theorem leadingItem_moved (owner : BlockType) {s : Statement} (h : s.tokens ≠ []) :
    leadingItem owner (s.moved f) = movedRead f (SectionItem.moved f) (leadingItem owner s) := by
  have htokens : (s.moved f).tokens = s.tokens.map (Token.moved f) := rfl
  have htype : (s.moved f).type = s.type := rfl
  rw [leadingItem, leadingItem, htokens, htype, misplaced_moved _ h]
  split <;> rfl

/-- A block is built alike at its moved place. -/
theorem buildBlock_moved (type : BlockType) (header : Statement) {ss : List Statement}
    (h : ∀ s ∈ ss, s.tokens ≠ []) :
    buildBlock type (header.moved f) (ss.map (Statement.moved f)) =
      movedRead f (Block.moved f) (buildBlock type header ss) := by
  rw [buildBlock, buildBlock, nest_moved h]
  dsimp only [movedRead]
  rw [endOfItems_moved]
  cases endOfItems (nest ss).1 <;> rfl

section
variable {α : Type} {m : α → α} (rs : List (α × List ParseError))

/-- What is read is moved. -/
theorem map_fst_movedRead :
    (rs.map (movedRead f m)).map (·.1) = (rs.map (·.1)).map m := by
  rw [List.map_map, List.map_map]
  rfl

/-- The errors are moved. -/
theorem flatMap_snd_movedRead :
    (rs.map (movedRead f m)).flatMap (·.2) = (rs.flatMap (·.2)).map (ParseError.moved f) := by
  rw [List.flatMap_map, List.map_flatMap]
  rfl

/-- What is read of parts is moved. -/
theorem flatMap_fst_movedRead (rs : List (List α × List ParseError)) :
    (rs.map (movedRead f (List.map m))).flatMap (·.1) = (rs.flatMap (·.1)).map m := by
  rw [List.flatMap_map, List.map_flatMap]
  rfl

end

/-- A part is read alike at its moved place. -/
theorem blockPart_moved (owner : BlockType) {p : Option Statement × List Statement}
    (h : ∀ s ∈ p.2, s.tokens ≠ []) :
    blockPart owner (viewPart (Statement.moved f) p) =
      movedRead f (List.map (SectionItem.moved f)) (blockPart owner p) := by
  obtain ⟨header, ss⟩ := p
  cases header with
  | none =>
    have hitems : (ss.map (Statement.moved f)).map (leadingItem owner) =
        (ss.map (leadingItem owner)).map (movedRead f (SectionItem.moved f)) := by
      rw [List.map_map, List.map_map]
      exact List.map_congr_left fun s hs => leadingItem_moved owner (h s hs)
    rw [viewPart, Option.map_none, blockPart, blockPart, hitems, map_fst_movedRead,
      flatMap_snd_movedRead]
    rfl
  | some header =>
    have htype : (header.moved f).type = header.type := rfl
    rw [viewPart, Option.map_some, blockPart, blockPart, htype, buildBlock_moved _ header h]
    rfl

/-- Blocks are read alike at their moved places. -/
theorem buildBlocks_moved (owner : BlockType) {ss : List Statement}
    (h : ∀ s ∈ ss, s.tokens ≠ []) :
    buildBlocks owner (ss.map (Statement.moved f)) =
      movedRead f (List.map (SectionItem.moved f)) (buildBlocks owner ss) := by
  have hparts : (splitParts isBlockName (ss.map (Statement.moved f))).map (blockPart owner) =
      ((splitParts isBlockName ss).map (blockPart owner)).map
        (movedRead f (List.map (SectionItem.moved f))) := by
    rw [splitParts_map, List.map_map, List.map_map]
    refine List.map_congr_left fun p hp => blockPart_moved owner fun s hs => ?_
    exact h s ((splitParts_spec p hp).2 s hs).2
  rw [buildBlocks, buildBlocks, hparts, flatMap_fst_movedRead, flatMap_snd_movedRead]
  rfl

/-- The items of moved tokens are those of the tokens. -/
theorem buildItems_moved (kind : SectionKind) {groups : List (List Token)}
    (h : ∀ g ∈ groups, g ≠ []) :
    buildItems kind (groups.map (·.map (Token.moved f))) =
      movedRead f (List.map (SectionItem.moved f)) (buildItems kind groups) := by
  have hread : (groups.map (·.map (Token.moved f))).map (classify kind) =
      (groups.map (classify kind)).map (movedRead f (Statement.moved f)) := by
    rw [List.map_map, List.map_map]
    exact List.map_congr_left fun g hg => classify_moved kind (h g hg)
  rw [buildItems, buildItems, hread]
  dsimp only
  rw [map_fst_movedRead, flatMap_snd_movedRead]
  have hss : ∀ s ∈ (groups.map (classify kind)).map (·.1), s.tokens ≠ [] := by
    intro s hs
    rw [List.map_map] at hs
    obtain ⟨g, hg, rfl⟩ := List.mem_map.1 hs
    rw [Function.comp_apply, classify_tokens]
    exact h g hg
  generalize (groups.map (classify kind)).map (·.1) = ss at hss ⊢
  cases kind.blockType? with
  | none =>
    dsimp only [movedRead]
    rw [List.map_map, List.map_map]
    rfl
  | some owner =>
    dsimp only
    rw [buildBlocks_moved owner hss]
    dsimp only [movedRead]
    rw [List.map_append]

/-- A header is read alike at its moved place. -/
theorem readHeader_moved (header : Statement) :
    readHeader (header.moved f) = movedRead f id (readHeader header) := by
  have hunknown : (header.moved f).tokens.filter (fun t => t.kind == .unknown) =
      (header.tokens.filter fun t => t.kind == .unknown).map (Token.moved f) := by
    show List.filter _ (header.tokens.map (Token.moved f)) = _
    rw [List.filter_map]
    rfl
  rw [readHeader, readHeader, hunknown, header.nameText_moved, List.map_map]
  cases SectionKind.ofHeader? header.nameText with
  | some kind =>
    dsimp only [movedRead]
    rw [List.map_map]
    rfl
  | none =>
    dsimp only [movedRead]
    rw [List.map_append, List.map_map]
    rfl

/-- A moved section spans the moved span. -/
theorem sectionSpan_moved (header : Option Statement) (items : List SectionItem)
    (h : header ≠ none ∨ f .origin = .origin) :
    sectionSpan (header.map (Statement.moved f)) (items.map (SectionItem.moved f)) =
      (sectionSpan header items).moved f := by
  have hspans : ((header.map (Statement.moved f)).map fun h => h.span).toList ++
      (items.map (SectionItem.moved f)).map (fun i => i.span) =
      ((header.map fun h => h.span).toList ++ items.map fun i => i.span).map (Span.moved f) := by
    have hitems : (items.map (SectionItem.moved f)).map (fun i => i.span) =
        (items.map fun i => i.span).map (Span.moved f) := by
      rw [List.map_map, List.map_map]
      exact List.map_congr_left fun i _ => i.span_moved
    rw [hitems, List.map_append]
    cases header <;> rfl
  rw [sectionSpan, sectionSpan, hspans]
  generalize hall : (header.map fun h => h.span).toList ++ items.map (fun i => i.span) = spans
  cases spans with
  | nil =>
    have hnone : header = none := by
      cases header with
      | none => rfl
      | some _ => cases hall
    have horigin : f .origin = .origin := h.resolve_left fun hne => hne hnone
    exact congrArg₂ Span.mk horigin.symm horigin.symm
  | cons span spans =>
    rw [List.head?_map, List.getLast?_map, List.getLast?_cons]
    rfl

/-- A section with a header is read by the kind it names. -/
theorem buildSection_some (ts : List Token) (groups : List (List Token)) :
    buildSection (some ts) groups =
      ({ kind := (readHeader (.create .sectionHeader ts)).1
         header := some (.create .sectionHeader ts)
         body := (buildItems (readHeader (.create .sectionHeader ts)).1 groups).1
         span := sectionSpan (some (.create .sectionHeader ts))
           (buildItems (readHeader (.create .sectionHeader ts)).1 groups).1 },
        (readHeader (.create .sectionHeader ts)).2 ++
          (buildItems (readHeader (.create .sectionHeader ts)).1 groups).2) := by
  rw [buildSection, Option.map_some, Option.map_some, Option.getD_some]

/-- A section without a header is one of comments. -/
theorem buildSection_none (groups : List (List Token)) :
    buildSection none groups =
      ({ kind := .comments
         header := none
         body := (buildItems .comments groups).1
         span := sectionSpan none (buildItems .comments groups).1 },
        (buildItems .comments groups).2) := by
  rw [buildSection, Option.map_none, Option.map_none, Option.getD_none]
  exact congrArg _ (List.nil_append _)

/-- **A section is read from moved tokens as it is read from the tokens.** -/
theorem buildSection_moved {header : Option (List Token)} {groups : List (List Token)}
    (hheader : ∀ ts ∈ header, ts ≠ []) (h : ∀ g ∈ groups, g ≠ [])
    (hplace : header ≠ none ∨ f .origin = .origin) :
    buildSection (header.map (·.map (Token.moved f))) (groups.map (·.map (Token.moved f))) =
      movedRead f (Section.moved f) (buildSection header groups) := by
  cases header with
  | none =>
    rw [Option.map_none, buildSection_none, buildSection_none, buildItems_moved _ h]
    dsimp only [movedRead, Section.moved]
    rw [← sectionSpan_moved none _ (.inr (hplace.resolve_left fun h => h rfl))]
    rfl
  | some ts =>
    rw [Option.map_some, buildSection_some, buildSection_some, create_moved _ (hheader ts rfl),
      readHeader_moved]
    dsimp only [movedRead, id_eq, Section.moved]
    rw [buildItems_moved _ h]
    dsimp only [movedRead]
    rw [← sectionSpan_moved (some _) _ (.inl (Option.some_ne_none _)), List.map_append]
    rfl

/-- A section is read alike at its moved place. -/
theorem markedSection_moved {header : Option (List Token)} {groups : List (List Token)}
    (hheader : ∀ ts ∈ header, ts ≠ []) (h : ∀ g ∈ groups, g ≠ [])
    (hplace : header ≠ none ∨ f .origin = .origin) :
    markedSection (header.map (·.map (Token.moved f)), groups.map (·.map (Token.moved f))) =
      (markedSection (header, groups)).moved f := by
  rw [markedSection, markedSection, buildSection_moved hheader h hplace]
  dsimp only [movedRead, Section.moved]
  rw [markOwnedItems_moved]

end

end RobotSuite
