/-
# Reading looks at no gaps

A source is read line by line, and what is made of the lines does not depend on the gaps in them nor
on where they stand: which lines belong together (`groupLines_showTokens`), what a statement is
(`classify_shown`), how statements nest (`view_nest`), and so what a section holds
(`view_markedSection`).  Each of these shows in the same way if the tokens do.
-/

import RobotSuite.Proofs.Token.RespacedLines
import RobotSuite.Proofs.Tree.SoundReading

namespace RobotSuite

section
variable {gaps : Bool}

/-! ## Lines -/

/-- The first significant token is shown. -/
theorem firstSignificant_showTokens (ts : List Token) :
    firstSignificant (showTokens gaps ts) = (firstSignificant ts).map Token.bare :=
  find?_showTokens (fun _ => rfl) (fun t ht => by simp [ht]) ts

/-- A test no gap passes is decided by the shown tokens. -/
theorem any_showTokens {p : Token → Bool} (hbare : ∀ t : Token, p t.bare = p t)
    (hgap : ∀ t : Token, t.isSeparator = true → p t = false) (ts : List Token) :
    (showTokens gaps ts).any p = ts.any p := by
  rw [← List.isSome_find?, ← List.isSome_find?, find?_showTokens hbare hgap, Option.isSome_map]

/-- Headers are told by the shown tokens. -/
theorem isHeaderLine_showTokens (line : List Token) :
    isHeaderLine (showTokens gaps line) = isHeaderLine line := by
  rw [isHeaderLine, isHeaderLine, firstSignificant_showTokens, Option.any_map]
  rfl

/-- Continuations are told by the shown tokens. -/
theorem isContinuationLine_showTokens (line : List Token) :
    isContinuationLine (showTokens gaps line) = isContinuationLine line := by
  rw [isContinuationLine, isContinuationLine, firstSignificant_showTokens, Option.any_map]
  rfl

/-- Comment lines are told by the shown tokens. -/
theorem isCommentLine_showTokens (line : List Token) :
    isCommentLine (showTokens gaps line) = isCommentLine line := by
  rw [isCommentLine, isCommentLine, any_showTokens (fun _ => rfl) fun _ => isComment_of_isSeparator,
    any_showTokens (fun _ => rfl) fun t ht => by
      rw [isData_of_isSeparator ht, isContinuation_of_isSeparator ht, Bool.or_false]]

/-- Whether a line may be continued is told by the shown tokens. -/
theorem isContinuable_showTokens (line : List Token) :
    isContinuable (showTokens gaps line) = isContinuable line := by
  rw [isContinuable, isContinuable, isHeaderLine_showTokens,
    any_showTokens (fun _ => rfl) fun _ => isData_of_isSeparator]

/-- Lines are put together without regard to their gaps. -/
theorem groupLines_showTokens (lines : List (List Token)) :
    groupLines (lines.map (showTokens gaps)) = (groupLines lines).map (·.map (showTokens gaps)) :=
  groupLines_map (fun line => ⟨isContinuationLine_showTokens line, isCommentLine_showTokens line,
    isContinuable_showTokens line⟩) lines

/-! ## Statements -/

/-- Statements created of tokens shown alike are shown alike. -/
theorem shown_create (type : StatementType) {ts us : List Token}
    (h : showTokens gaps ts = showTokens gaps us) :
    (Statement.create type ts).shown gaps = (Statement.create type us).shown gaps := by
  rw [Statement.shown, Statement.shown]
  show ({ Statement.create type ts with span := _, tokens := showTokens gaps ts } : Statement) = _
  rw [h]
  rfl

/-- Error statements of tokens shown alike are shown alike. -/
theorem shown_ofDefect (defect : Defect) {ts us : List Token}
    (h : showTokens gaps ts = showTokens gaps us) :
    (Statement.ofDefect defect ts).shown gaps = (Statement.ofDefect defect us).shown gaps := by
  rw [Statement.shown, Statement.shown]
  show ({ Statement.ofDefect defect ts with span := _, tokens := showTokens gaps ts } :
    Statement) = _
  rw [h]
  rfl

section
variable {ts us : List Token} (h : showTokens gaps ts = showTokens gaps us)
include h

/-- Lines shown alike continue alike. -/
theorem isContinuationLine_of_shown : isContinuationLine ts = isContinuationLine us :=
  (isContinuationLine_showTokens ts).symm.trans
    ((congrArg isContinuationLine h).trans (isContinuationLine_showTokens us))

/-- Tokens shown alike hold the same data. -/
theorem dataTokens_of_shown : (dataTokens ts).map Token.bare = (dataTokens us).map Token.bare :=
  (dataTokens_showTokens ts).symm.trans ((congrArg dataTokens h).trans (dataTokens_showTokens us))

/-- Tokens shown alike hold the same comments. -/
theorem commentTokens_of_shown :
    (commentTokens ts).map Token.bare = (commentTokens us).map Token.bare :=
  (commentTokens_showTokens ts).symm.trans
    ((congrArg commentTokens h).trans (commentTokens_showTokens us))

/-- Tokens shown alike hold an unknown token or none, both. -/
theorem isSome_unknown_of_shown : (ts.find? fun t => t.kind == .unknown).isSome =
    (us.find? fun t => t.kind == .unknown).isSome := by
  have hgap (t : Token) (ht : t.isSeparator = true) : (t.kind == .unknown) = false := by
    have hk : t.kind = .separator := by simpa [Token.isSeparator] using ht
    rw [hk]
    rfl
  have hfind (ts : List Token) : ((showTokens gaps ts).find? fun t => t.kind == .unknown).isSome =
      (ts.find? fun t => t.kind == .unknown).isSome := by
    rw [find?_showTokens (fun _ => rfl) hgap, Option.isSome_map]
  rw [← hfind, h, hfind]

/-- Tokens are read by what shows of them. -/
theorem classify_shown (kind : SectionKind) :
    (classify kind ts).1.shown gaps = (classify kind us).1.shown gaps := by
  have hunknown := isSome_unknown_of_shown h
  have hdata := dataTokens_of_shown h
  have hcomments : (commentTokens ts).isEmpty = (commentTokens us).isEmpty := by
    rw [← List.isEmpty_map (f := Token.bare), commentTokens_of_shown h, List.isEmpty_map]
  have hempty : (dataTokens ts).isEmpty = (dataTokens us).isEmpty := by
    rw [← List.isEmpty_map (f := Token.bare), hdata, List.isEmpty_map]
  have htype : dataType kind (dataTokens ts) = dataType kind (dataTokens us) := by
    have hvalues := congrArg (List.map (·.value)) hdata
    have hnames := congrArg (fun ts => ts.head?.any (·.kind == .name)) hdata
    rw [List.map_map, List.map_map] at hvalues
    rw [List.head?_map, List.head?_map, Option.any_map, Option.any_map] at hnames
    exact dataType_congr hvalues hnames
  have hcheck (s : Statement) : (checkSetting s).1 = s := by
    rw [checkSetting]
    split <;> rfl
  rw [classify, classify]
  cases hts : ts.find? fun t => t.kind == .unknown with
  | some t =>
    rw [hts] at hunknown
    cases hus : us.find? fun t => t.kind == .unknown with
    | none =>
      rw [hus] at hunknown
      cases hunknown
    | some u => exact shown_ofDefect _ h
  | none =>
    rw [hts] at hunknown
    cases hus : us.find? fun t => t.kind == .unknown with
    | some u =>
      rw [hus] at hunknown
      cases hunknown
    | none =>
      dsimp only
      rw [isContinuationLine_of_shown h, hempty, hcomments, htype]
      split
      · exact shown_ofDefect _ h
      · split
        · exact shown_create _ h
        · split
          · exact shown_ofDefect _ h
          · rw [hcheck, hcheck]
            exact shown_create _ h

end

/-- Statements shown alike are of one type. -/
theorem type_of_shown {s r : Statement} (h : s.shown gaps = r.shown gaps) : s.type = r.type :=
  (congrArg Statement.type h :)

/-- Statements shown alike have one name. -/
theorem nameText_of_shown {s r : Statement} (h : s.shown gaps = r.shown gaps) :
    s.nameText = r.nameText :=
  s.shown_nameText.symm.trans ((congrArg Statement.nameText h).trans r.shown_nameText)

/-! ## Bodies -/

/-- An open block of which the statements are seen. -/
def OpenBlock.view (f : Statement → Statement) (b : OpenBlock) : OpenBlock :=
  ⟨b.type, f b.header, viewBody f b.body, b.branches.map fun p => (f p.1, viewBody f p.2)⟩

section
variable {f : Statement → Statement}

/-- The last item is viewed last. -/
theorem viewBody_concat (items : List BodyItem) (item : BodyItem) :
    viewBody f (items ++ [item]) = viewBody f items ++ [item.view f] := by
  rw [viewBody_eq_map, viewBody_eq_map, List.map_append, List.map_singleton]

namespace OpenBlock

/-- Pushing commutes with a view. -/
theorem view_push (b : OpenBlock) (item : BodyItem) :
    (b.push item).view f = (b.view f).push (item.view f) := by
  have hlast : (b.view f).branches.getLast? =
      b.branches.getLast?.map fun p => (f p.1, viewBody f p.2) := List.getLast?_map
  rw [push, push, hlast]
  cases b.branches.getLast? with
  | none =>
    show OpenBlock.mk _ _ (viewBody f (b.body ++ [item])) _ = _
    rw [viewBody_concat]
    rfl
  | some p =>
    obtain ⟨header, body⟩ := p
    show OpenBlock.mk _ _ _ (List.map _ (b.branches.dropLast ++ [(header, body ++ [item])])) = _
    rw [List.map_append, List.map_dropLast, List.map_singleton, viewBody_concat]
    rfl

/-- Starting a branch commutes with a view. -/
theorem view_branch (b : OpenBlock) (s : Statement) :
    (b.branch s).view f = (b.view f).branch (f s) := by
  rw [branch, branch, view, view, List.map_append]
  rfl

/-- A block that is closed shows by what shows of it while it is open. -/
theorem view_close (b : OpenBlock) (blockEnd : Option Statement) :
    (b.close blockEnd).view f =
      ⟨b.type, .synthetic, (b.view f).header, (b.view f).body,
        (b.view f).branches.map fun p => ⟨.synthetic, p.1, p.2, none⟩, blockEnd.map f, none⟩ := by
  rw [close, ControlBlock.view, viewBranches_eq_map, view, List.map_map, List.map_map]
  rfl

end OpenBlock

/-- Two nestings that show alike. -/
structure Nesting.Alike (f : Statement → Statement) (n n' : Nesting) : Prop where
  root : viewBody f n.root = viewBody f n'.root
  stack : n.stack.map (OpenBlock.view f) = n'.stack.map (OpenBlock.view f)

namespace Nesting.Alike
variable {n n' : Nesting}

/-- Alike builders have no block open, or alike blocks. -/
theorem stack_cases (h : Alike f n n') : (n.stack = [] ∧ n'.stack = []) ∨
    ∃ b b' rest rest', n.stack = b :: rest ∧ n'.stack = b' :: rest' ∧ b.view f = b'.view f ∧
      rest.map (OpenBlock.view f) = rest'.map (OpenBlock.view f) := by
  have hstack := h.stack
  cases hn : n.stack with
  | nil =>
    rw [hn, List.map_nil, eq_comm, List.map_eq_nil_iff] at hstack
    exact .inl ⟨rfl, hstack⟩
  | cons b rest =>
    rw [hn, List.map_cons, eq_comm] at hstack
    obtain ⟨b', rest', hn', hb, hrest⟩ := List.map_eq_cons_iff.1 hstack
    exact .inr ⟨b, b', rest, rest', rfl, hn', hb.symm, hrest.symm⟩

/-- Pushing alike items keeps builders alike. -/
theorem push (h : Alike f n n') {item item' : BodyItem} (hi : item.view f = item'.view f) :
    Alike f (n.push item) (n'.push item') := by
  rcases h.stack_cases with ⟨hn, hn'⟩ | ⟨b, b', rest, rest', hn, hn', hb, hrest⟩
  · rw [Nesting.push, Nesting.push, hn, hn']
    refine ⟨?_, rfl⟩
    show viewBody f (n.root ++ [item]) = viewBody f (n'.root ++ [item'])
    rw [viewBody_concat, viewBody_concat, h.root, hi]
  · rw [Nesting.push, Nesting.push, hn, hn']
    refine ⟨h.root, ?_⟩
    rw [List.map_cons, List.map_cons, OpenBlock.view_push, OpenBlock.view_push, hb, hi, hrest]

/-- Rejecting alike statements keeps builders alike. -/
theorem reject (h : Alike f n n') (defect : Defect) {error error' : Statement}
    (he : f error = f error') : Alike f (n.reject defect error) (n'.reject defect error') := by
  have hitem : (BodyItem.statement error).view f = (BodyItem.statement error').view f :=
    congrArg BodyItem.statement he
  have hpush := h.push hitem
  exact ⟨hpush.root, hpush.stack⟩

end Nesting.Alike
end

/-- Blocks closed alike are viewed alike. -/
theorem view_control {f : Statement → Statement} {b b' : OpenBlock}
    {close close' : Option Statement} (hb : b.view f = b'.view f)
    (he : close.map f = close'.map f) :
    (BodyItem.control (b.close close)).view f = (BodyItem.control (b'.close close')).view f := by
  have htype : b.type = b'.type := (congrArg OpenBlock.type hb :)
  rw [BodyItem.view, BodyItem.view, OpenBlock.view_close, OpenBlock.view_close, hb, he, htype]

/-- **A statement is taken in by what shows of it.** -/
theorem Nesting.Alike.step {n n' : Nesting} (h : Alike (Statement.shown gaps) n n')
    {s s' : Statement} (hs : s.shown gaps = s'.shown gaps) :
    Alike (Statement.shown gaps) (n.step s) (n'.step s') := by
  have htype := type_of_shown hs
  have hname := nameText_of_shown hs
  have htokens : showTokens gaps s.tokens = showTokens gaps s'.tokens :=
    congrArg Statement.tokens hs
  have hbranch : Alike (Statement.shown gaps) (n.rejectBranch s) (n'.rejectBranch s') := by
    rw [rejectBranch, rejectBranch, strayBranch, strayBranch, hname, htype]
    exact h.reject _ (shown_ofDefect _ htokens)
  have hend : Alike (Statement.shown gaps) (n.rejectEnd s) (n'.rejectEnd s') := by
    refine h.reject _ ?_
    exact congrArg (fun s : Statement =>
      { s with type := .error, defect := some .unmatchedEnd }) hs
  rw [Nesting.step, Nesting.step, htype]
  cases ControlType.ofHeader? s'.type with
  | some type =>
    refine ⟨h.root, ?_⟩
    rw [List.map_cons, List.map_cons, h.stack, OpenBlock.view, OpenBlock.view, hs]
  | none =>
    dsimp only
    rcases h.stack_cases with ⟨hn, hn'⟩ | ⟨b, b', rest, rest', hn, hn', hb, hrest⟩
    · rw [hn, hn']
      split
      · exact hbranch
      · split
        · exact hend
        · exact h.push (congrArg BodyItem.statement hs)
    · have hb' : b.type = b'.type := (congrArg OpenBlock.type hb :)
      rw [hn, hn']
      dsimp only
      rw [hb']
      split
      · split
        · refine ⟨h.root, ?_⟩
          rw [List.map_cons, List.map_cons, OpenBlock.view_branch, OpenBlock.view_branch, hb, hs,
            hrest]
        · exact hbranch
      · split
        · have hclosed : Alike (Statement.shown gaps) { n with stack := rest }
              { n' with stack := rest' } := ⟨h.root, hrest⟩
          exact hclosed.push (view_control hb (congrArg some hs))
        · exact h.push (congrArg BodyItem.statement hs)

/-- Building from statements shown alike keeps builders alike. -/
theorem Nesting.Alike.foldl {n n' : Nesting} (h : Alike (Statement.shown gaps) n n')
    {ss rs : List Statement} (hs : ss.map (Statement.shown gaps) = rs.map (Statement.shown gaps)) :
    Alike (Statement.shown gaps) (ss.foldl Nesting.step n) (rs.foldl Nesting.step n') := by
  induction ss generalizing n n' rs with
  | nil =>
    rw [List.map_nil, eq_comm, List.map_eq_nil_iff] at hs
    subst hs
    exact h
  | cons s ss ih =>
    rw [List.map_cons, eq_comm] at hs
    obtain ⟨r, rs, rfl, hr, hrs⟩ := List.map_eq_cons_iff.1 hs
    exact ih (h.step hr.symm) hrs.symm

/-- Blocks that are left open are closed by what shows of them. -/
theorem view_closeAll {f : Statement → Statement} {root root' : List BodyItem}
    {errors errors' : List ParseError} {stack stack' : List OpenBlock}
    (hr : viewBody f root = viewBody f root')
    (hs : stack.map (OpenBlock.view f) = stack'.map (OpenBlock.view f)) :
    viewBody f (Nesting.closeAll root errors stack).1 =
      viewBody f (Nesting.closeAll root' errors' stack').1 := by
  fun_induction Nesting.closeAll root errors stack generalizing errors' stack' with
  | case1 errors =>
    rw [List.map_nil, eq_comm, List.map_eq_nil_iff] at hs
    subst hs
    rw [Nesting.closeAll]
    exact hr
  | case2 errors b =>
    rw [List.map_singleton, eq_comm, List.map_eq_singleton_iff] at hs
    obtain ⟨b', rfl, hb⟩ := hs
    rw [Nesting.closeAll, viewBody_concat, viewBody_concat, hr, view_control hb.symm rfl]
  | case3 errors b outer rest ih =>
    rw [List.map_cons, eq_comm] at hs
    obtain ⟨b', more, rfl, hb, hmore⟩ := List.map_eq_cons_iff.1 hs
    rw [List.map_cons] at hmore
    obtain ⟨outer', rest', rfl, houter, hrest⟩ := List.map_eq_cons_iff.1 hmore
    rw [Nesting.closeAll]
    refine ih ?_
    rw [List.map_cons, List.map_cons, OpenBlock.view_push, OpenBlock.view_push, houter, hrest,
      view_control hb.symm rfl]

/-- **Statements nest by what shows of them.** -/
theorem view_nest {ss rs : List Statement}
    (h : ss.map (Statement.shown gaps) = rs.map (Statement.shown gaps)) :
    viewBody (Statement.shown gaps) (nest ss).1 = viewBody (Statement.shown gaps) (nest rs).1 := by
  have hn : Nesting.Alike (Statement.shown gaps) {} {} := ⟨rfl, rfl⟩
  exact view_closeAll (hn.foldl h).root (hn.foldl h).stack

/-! ## Marks -/

/-- Marking commutes with showing. -/
theorem shown_markOwned (s : Statement) (owned : Bool) :
    (s.markOwned owned).shown gaps = (s.shown gaps).markOwned owned := by
  rw [Statement.markOwned, Statement.markOwned, Statement.shown_type]
  split <;> rfl

/-- What a body owns is told by the shown items. -/
theorem ownsAbove_viewBody (items : List BodyItem) :
    ownsAbove BodyItem.type? (viewBody (Statement.shown gaps) items) =
      ownsAbove BodyItem.type? items := by
  induction items with
  | nil => rfl
  | cons item items ih =>
    have htype : (item.view (Statement.shown gaps)).type? = item.type? := by
      cases item <;> rfl
    rw [viewBody, ownsAbove, ownsAbove, htype, ih]

/-- What a section's items own is told by the shown items. -/
theorem ownsAbove_map_view (items : List SectionItem) :
    ownsAbove SectionItem.type? (items.map (SectionItem.view (Statement.shown gaps))) =
      ownsAbove SectionItem.type? items := by
  induction items with
  | nil => rfl
  | cons item items ih =>
    have htype : (item.view (Statement.shown gaps)).type? = item.type? := by
      cases item <;> rfl
    rw [List.map_cons, ownsAbove, ownsAbove, htype, ih]

mutual

/-- Marking a block commutes with showing. -/
theorem ControlBlock.view_markOwned : ∀ c : ControlBlock,
    c.markOwned.view (Statement.shown gaps) = (c.view (Statement.shown gaps)).markOwned
  | ⟨type, span, header, body, branches, close, label⟩ => by
    rw [ControlBlock.markOwned, ControlBlock.view, ControlBlock.view, ControlBlock.markOwned,
      viewBody_markOwned body, viewBranches_markOwned branches]

/-- The same for a body. -/
theorem viewBody_markOwned : ∀ items : List BodyItem,
    viewBody (Statement.shown gaps) (markOwnedBody items) =
      markOwnedBody (viewBody (Statement.shown gaps) items)
  | [] => rfl
  | .statement s :: rest => by
    rw [markOwnedBody, viewBody, viewBody, BodyItem.view, BodyItem.view, markOwnedBody,
      shown_markOwned, ownsAbove_viewBody, viewBody_markOwned rest]
  | .control c :: rest => by
    rw [markOwnedBody, viewBody, viewBody, BodyItem.view, BodyItem.view, markOwnedBody,
      c.view_markOwned, viewBody_markOwned rest]

/-- The same for the branches of a block. -/
theorem viewBranches_markOwned : ∀ bs : List Branch,
    viewBranches (Statement.shown gaps) (markOwnedBranches bs) =
      markOwnedBranches (viewBranches (Statement.shown gaps) bs)
  | [] => rfl
  | ⟨span, header, body, label⟩ :: rest => by
    rw [markOwnedBranches, viewBranches, viewBranches, Branch.view, Branch.view,
      markOwnedBranches, viewBody_markOwned body, viewBranches_markOwned rest]

end

/-- Comments are marked by what shows of the items. -/
theorem map_view_markOwnedItems (items : List SectionItem) :
    (markOwnedItems items).map (SectionItem.view (Statement.shown gaps)) =
      markOwnedItems (items.map (SectionItem.view (Statement.shown gaps))) := by
  induction items with
  | nil => rfl
  | cons item items ih =>
    cases item with
    | statement s =>
      rw [markOwnedItems, List.map_cons, List.map_cons, SectionItem.view, SectionItem.view,
        markOwnedItems, shown_markOwned, ih, ownsAbove_map_view]
    | block b =>
      rw [markOwnedItems, List.map_cons, List.map_cons, SectionItem.view, SectionItem.view,
        markOwnedItems, ih, Block.view, Block.view, viewBody_markOwned]

/-! ## Sections -/

/-- What follows from what shows of each element follows from what shows of a list. -/
theorem map_congr_of_map {α β γ : Type} {m : α → β} {g : α → γ}
    (h : ∀ x y, m x = m y → g x = g y) {xs ys : List α} (hm : xs.map m = ys.map m) :
    xs.map g = ys.map g := by
  induction xs generalizing ys with
  | nil =>
    rw [List.map_nil, eq_comm, List.map_eq_nil_iff] at hm
    rw [hm]
  | cons x xs ih =>
    rw [List.map_cons, eq_comm] at hm
    obtain ⟨y, ys, rfl, hy, hys⟩ := List.map_eq_cons_iff.1 hm
    rw [List.map_cons, List.map_cons, h x y hy.symm, ih hys.symm]

/-- A part of which the elements are seen. -/
def viewPart {α β : Type} (f : α → β) (p : Option α × List α) : Option β × List β :=
  (p.1.map f, p.2.map f)

/-- Parts are split alike along a map that keeps what opens them. -/
theorem splitParts_map {α β : Type} (opens : β → Bool) (f : α → β) (xs : List α) :
    splitParts opens (xs.map f) = (splitParts (fun x => opens (f x)) xs).map (viewPart f) := by
  induction xs with
  | nil => rfl
  | cons x xs ih =>
    rw [List.map_cons, splitParts, splitParts, ih]
    cases splitParts (fun x => opens (f x)) xs with
    | nil => cases opens (f x) <;> simp [viewPart]
    | cons p parts =>
      obtain ⟨header, rest⟩ := p
      cases header <;> cases opens (f x) <;> simp [viewPart]

/-- Optional values with one picture are both missing or both there. -/
theorem option_cases_of_map {α β : Type} {m : α → β} {a b : Option α} (h : a.map m = b.map m) :
    (a = none ∧ b = none) ∨ ∃ x y, a = some x ∧ b = some y ∧ m x = m y := by
  cases a with
  | none => exact .inl ⟨rfl, Option.map_eq_none_iff.1 h.symm⟩
  | some x =>
    obtain ⟨y, hy, hxy⟩ := Option.map_eq_some_iff.1 h.symm
    exact .inr ⟨x, y, rfl, hy, hxy.symm⟩

/-- Items in front of the blocks are shown alike. -/
theorem leadingItem_shown (owner : BlockType) {s r : Statement}
    (h : s.shown gaps = r.shown gaps) :
    (leadingItem owner s).1.view (Statement.shown gaps) =
      (leadingItem owner r).1.view (Statement.shown gaps) := by
  rw [leadingItem, leadingItem, type_of_shown h]
  split
  · exact congrArg SectionItem.statement h
  · exact congrArg SectionItem.statement
      (shown_ofDefect _ (congrArg Statement.tokens h :))

/-- A built block is viewed as its header and its nested body. -/
theorem view_buildBlock (f : Statement → Statement) (type : BlockType) (header : Statement)
    (ss : List Statement) : (buildBlock type header ss).1.view f =
      ⟨type, .synthetic, f header, viewBody f (nest ss).1, none⟩ := rfl

/-- A part with a header is the block built of it. -/
theorem blockPart_some (owner : BlockType) (header : Statement) (ss : List Statement) :
    (blockPart owner (some header, ss)).1 =
      [.block (buildBlock (if header.type = .testCaseName then .testCase else .keyword)
        header ss).1] := rfl

/-- Parts shown alike make blocks shown alike. -/
theorem blockPart_shown (owner : BlockType) {p q : Option Statement × List Statement}
    (h : viewPart (Statement.shown gaps) p = viewPart (Statement.shown gaps) q) :
    (blockPart owner p).1.map (SectionItem.view (Statement.shown gaps)) =
      (blockPart owner q).1.map (SectionItem.view (Statement.shown gaps)) := by
  obtain ⟨header, ss⟩ := p
  obtain ⟨header', rs⟩ := q
  obtain ⟨hheader, hss⟩ := Prod.mk.inj h
  rcases option_cases_of_map hheader with ⟨hp, hq⟩ | ⟨s, r, hp, hq, hs⟩
  · dsimp only at hp hq
    subst hp hq
    rw [blockPart, blockPart, List.map_map, List.map_map, List.map_map, List.map_map]
    exact map_congr_of_map (fun _ _ => leadingItem_shown owner) hss
  · dsimp only at hp hq
    subst hp hq
    rw [blockPart_some, blockPart_some, List.map_singleton, List.map_singleton, SectionItem.view,
      SectionItem.view, view_buildBlock, view_buildBlock, type_of_shown hs, hs, view_nest hss]

/-- The items of a section are built by what shows of the tokens. -/
theorem buildItems_shown (kind : SectionKind) {groups others : List (List Token)}
    (h : groups.map (showTokens gaps) = others.map (showTokens gaps)) :
    (buildItems kind groups).1.map (SectionItem.view (Statement.shown gaps)) =
      (buildItems kind others).1.map (SectionItem.view (Statement.shown gaps)) := by
  have hread : ((groups.map (classify kind)).map (·.1)).map (Statement.shown gaps) =
      ((others.map (classify kind)).map (·.1)).map (Statement.shown gaps) := by
    rw [List.map_map, List.map_map, List.map_map, List.map_map]
    exact map_congr_of_map (fun _ _ h => classify_shown h kind) h
  rw [buildItems, buildItems]
  dsimp only
  generalize (groups.map (classify kind)).map (·.1) = ss at hread ⊢
  generalize (others.map (classify kind)).map (·.1) = rs at hread ⊢
  cases kind.blockType? with
  | none =>
    dsimp only
    rw [List.map_map, List.map_map]
    exact map_congr_of_map (fun _ _ h => congrArg SectionItem.statement h) hread
  | some owner =>
    have hparts : (splitParts isBlockName ss).map (viewPart (Statement.shown gaps)) =
        (splitParts isBlockName rs).map (viewPart (Statement.shown gaps)) := by
      have hsplit := congrArg (splitParts isBlockName) hread
      rwa [splitParts_map, splitParts_map] at hsplit
    have hitems := map_congr_of_map (fun _ _ => blockPart_shown owner) hparts
    dsimp only [buildBlocks]
    rw [List.flatMap_map, List.flatMap_map, List.map_flatMap, List.map_flatMap, List.flatMap_def,
      List.flatMap_def]
    exact congrArg List.flatten hitems

/-- The kind of the section that a header opens. -/
def kindOfHeader (header : Option (List Token)) : SectionKind :=
  (((header.map (Statement.create .sectionHeader)).map readHeader).getD (.comments, [])).1

/-- Headers shown alike name one kind. -/
theorem kindOfHeader_shown {header other : Option (List Token)}
    (h : header.map (showTokens gaps) = other.map (showTokens gaps)) :
    kindOfHeader header = kindOfHeader other := by
  rcases option_cases_of_map h with ⟨rfl, rfl⟩ | ⟨ts, us, rfl, rfl, hts⟩
  · rfl
  · have hname := nameText_of_shown (shown_create .sectionHeader hts)
    have hread (ts : List Token) : kindOfHeader (some ts) =
        (SectionKind.ofHeader? (Statement.create .sectionHeader ts).nameText).getD .invalid := by
      rw [kindOfHeader, Option.map_some, Option.map_some, Option.getD_some, readHeader]
      split <;> rename_i hk <;> rw [hk] <;> rfl
    rw [hread, hread, hname]

/-- A section is of the kind its header names. -/
theorem kind_markedSection (p : Option (List Token) × List (List Token)) :
    (markedSection p).kind = kindOfHeader p.1 := by
  rw [markedSection, buildSection, kindOfHeader]

/-- A section read is viewed by its header and its items. -/
theorem markedSection_view (p : Option (List Token) × List (List Token)) :
    (markedSection p).view (fun _ => Statement.shown gaps) =
      ⟨kindOfHeader p.1, .synthetic,
        p.1.map fun ts => (Statement.create .sectionHeader ts).shown gaps,
        markOwnedItems ((buildItems (kindOfHeader p.1) p.2).1.map
          (SectionItem.view (Statement.shown gaps))), none⟩ := by
  obtain ⟨header, groups⟩ := p
  have hkind : (buildSection header groups).1.kind = kindOfHeader header :=
    kind_markedSection (header, groups)
  obtain ⟨hheader, hbody, -⟩ := buildSection_spec header groups
  rw [Section.view, markedSection]
  dsimp only
  rw [hkind, hheader, hbody, hkind, map_view_markOwnedItems, Option.map_map]
  rfl

/-- **A section is built by what shows of its tokens.** -/
theorem view_markedSection {p q : Option (List Token) × List (List Token)}
    (h : viewPart (showTokens gaps) p = viewPart (showTokens gaps) q) :
    (markedSection p).view (fun _ => Statement.shown gaps) =
      (markedSection q).view (fun _ => Statement.shown gaps) := by
  obtain ⟨hheader, hgroups⟩ := Prod.mk.inj h
  have hcreate : (p.1.map fun ts => (Statement.create .sectionHeader ts).shown gaps) =
      q.1.map fun ts => (Statement.create .sectionHeader ts).shown gaps := by
    rcases option_cases_of_map hheader with ⟨hp, hq⟩ | ⟨ts, us, hp, hq, hts⟩
    · rw [hp, hq]
    · rw [hp, hq, Option.map_some, Option.map_some, shown_create _ hts]
  rw [markedSection_view, markedSection_view, kindOfHeader_shown hheader, hcreate,
    buildItems_shown _ hgroups]

end

end RobotSuite
