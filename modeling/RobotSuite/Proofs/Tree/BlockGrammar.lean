/-
# The grammar of bodies

A body is a list of plain statements and control blocks.  A control block is a header, a
body, branches of the kinds that the block takes, each with a body of its own, and END:

    Body = (plain | FOR Body END | WHILE Body END
             | IF Body ((ELSE IF | ELSE) Body)* END
             | TRY Body ((EXCEPT | ELSE | FINALLY) Body)* END)*

`Derives` says which statements make a body and which tree they make.  Nesting finds no
defect exactly in the bodies of the grammar (`derives_of_errors_eq_nil`) and then makes their
tree (`nest_of_derives`).  In any other list the defects are those of `rejections`, one for
each statement that is turned away, and one for each block of `openAfter`
(`errors_nest`); what is turned away stays in its place as an error (`nest_kept`).
-/

import RobotSuite.Tree.Nesting

namespace RobotSuite

/-! ## The grammar -/

namespace ControlType

/-- The header that opens a control block. -/
def opener : ControlType → StatementType
  | .forLoop => .forHeader
  | .whileLoop => .whileHeader
  | .ifBlock => .ifHeader
  | .tryBlock => .tryHeader

/-- The headers of the branches that a control block takes. -/
def branchHeaders : ControlType → List StatementType
  | .forLoop | .whileLoop => []
  | .ifBlock => [.elseIfHeader, .elseHeader]
  | .tryBlock => [.exceptHeader, .elseHeader, .finallyHeader]

/-- A header opens a block exactly when it is the block's opener. -/
theorem ofHeader?_eq_some_iff {s : StatementType} {c : ControlType} :
    ofHeader? s = some c ↔ s = c.opener := by
  cases s <;> cases c <;> simp [ofHeader?, opener]

/-- A block takes the branches listed for it. -/
theorem takesBranch_iff {s : StatementType} {c : ControlType} :
    c.takesBranch s = true ↔ s ∈ c.branchHeaders := by
  cases s <;> cases c <;> simp [takesBranch, branchHeaders]

/-- The branches listed for a block are branch headers. -/
theorem isBranchHeader_of_mem {s : StatementType} {c : ControlType}
    (h : s ∈ c.branchHeaders) : Nesting.isBranchHeader s = true := by
  cases s <;> cases c <;> simp_all [branchHeaders, Nesting.isBranchHeader]

/-- A branch header opens no block. -/
theorem ofHeader?_of_mem {s : StatementType} {c : ControlType}
    (h : s ∈ c.branchHeaders) : ofHeader? s = none := by
  cases s <;> cases c <;> simp_all [branchHeaders, ofHeader?]

end ControlType

/-- Statements that neither open a block nor a branch nor close a block. -/
def StatementType.isPlain (t : StatementType) : Bool :=
  (ControlType.ofHeader? t).isNone && !Nesting.isBranchHeader t && t != .blockEnd

/-- A branch as the grammar has it: its header, the statements behind it, and their tree. -/
structure BranchPart where
  /-- The header. -/
  header : Statement
  /-- The statements of its body. -/
  statements : List Statement
  /-- Their tree. -/
  items : List BodyItem

namespace BranchPart

/-- The statements of some branches. -/
def yield (parts : List BranchPart) : List Statement :=
  parts.flatMap fun p => p.header :: p.statements

/-- The branches of a tree. -/
def trees (parts : List BranchPart) : List Branch :=
  parts.map fun p => closeBranch p.header p.items

end BranchPart

/-- The tree of a control block that is closed. -/
def closedBlock (type : ControlType) (header : Statement) (body : List BodyItem)
    (parts : List BranchPart) (close : Statement) : ControlBlock :=
  { type, header, body
    span := ⟨header.span.start, close.span.stop⟩
    branches := BranchPart.trees parts
    close := some close }

/-- Statements that make a body, and the tree that they make. -/
inductive Derives : List Statement → List BodyItem → Prop
  | nil : Derives [] []
  | plain {s : Statement} {ss : List Statement} {items : List BodyItem} :
      s.type.isPlain = true → Derives ss items → Derives (s :: ss) (.statement s :: items)
  | block {type : ControlType} {header close : Statement} {body rest : List Statement}
      {items more : List BodyItem} {parts : List BranchPart} :
      header.type = type.opener → Derives body items →
      (∀ p ∈ parts, p.header.type ∈ type.branchHeaders) →
      (∀ p ∈ parts, Derives p.statements p.items) →
      close.type = .blockEnd → Derives rest more →
      Derives (header :: (body ++ BranchPart.yield parts ++ close :: rest))
        (.control (closedBlock type header items parts close) :: more)

/-- Derivations of two stretches derive both together. -/
theorem Derives.append {a b : List Statement} {x y : List BodyItem} (ha : Derives a x)
    (hb : Derives b y) : Derives (a ++ b) (x ++ y) := by
  induction ha with
  | nil => exact hb
  | plain hs _ ih => exact .plain hs ih
  | block ho hd hp hps hc _ _ _ ih =>
    simp only [List.cons_append, List.append_assoc] at ih ⊢
    rw [← List.append_assoc]
    exact .block ho hd hp hps hc ih

/-! ## What a step can do -/

namespace Nesting

/-- What taking in a statement can come to. -/
inductive Move (n : Nesting) (s : Statement) : Nesting → Prop
  | opens {type : ControlType} : s.type = type.opener →
      Move n s { n with stack := ⟨type, s, [], []⟩ :: n.stack }
  | branches {b : OpenBlock} {rest : List OpenBlock} : n.stack = b :: rest →
      s.type ∈ b.type.branchHeaders → Move n s { n with stack := b.branch s :: rest }
  | closes {b : OpenBlock} {rest : List OpenBlock} : n.stack = b :: rest → s.type = .blockEnd →
      Move n s ({ n with stack := rest }.push (.control (b.close (some s))))
  | joins : s.type.isPlain = true → Move n s (n.push (.statement s))
  | strayBranch : isBranchHeader s.type = true →
      (∀ b ∈ n.stack.head?, s.type ∉ b.type.branchHeaders) → Move n s (n.rejectBranch s)
  | strayEnd : s.type = .blockEnd → n.stack = [] → Move n s (n.rejectEnd s)

/-- Every step of the builder is a move of the grammar. -/
theorem move_step (n : Nesting) (s : Statement) : Move n s (n.step s) := by
  unfold step
  cases ho : ControlType.ofHeader? s.type with
  | some type => exact .opens (ControlType.ofHeader?_eq_some_iff.1 ho)
  | none =>
    by_cases hb : isBranchHeader s.type = true
    · simp only [hb, if_true]
      cases hs : n.stack with
      | nil => exact .strayBranch hb (by simp [hs])
      | cons b rest =>
        by_cases ht : b.type.takesBranch s.type = true
        · simp only [ht, if_true]
          exact .branches hs (ControlType.takesBranch_iff.1 ht)
        · simp only [ht]
          refine .strayBranch hb fun c hc => ?_
          rw [hs, List.head?_cons, Option.mem_some_iff] at hc
          exact fun hm => ht (ControlType.takesBranch_iff.2 (hc ▸ hm))
    · by_cases he : s.type = .blockEnd
      · simp only [he]
        cases hs : n.stack with
        | nil => exact .strayEnd he hs
        | cons b rest => exact .closes hs he
      · simp only [hb, he]
        exact .joins (by simp [StatementType.isPlain, ho, hb, he])

/-! ## Derivations are followed -/

/-- An opener opens a block. -/
theorem step_of_opener (n : Nesting) {s : Statement} {type : ControlType}
    (h : s.type = type.opener) :
    n.step s = { n with stack := ⟨type, s, [], []⟩ :: n.stack } := by
  simp [step, ControlType.ofHeader?_eq_some_iff.2 h]

/-- A plain statement goes into the innermost body. -/
theorem step_of_plain (n : Nesting) {s : Statement} (h : s.type.isPlain = true) :
    n.step s = n.push (.statement s) := by
  simp only [StatementType.isPlain, Bool.and_eq_true, Option.isNone_iff_eq_none,
    Bool.not_eq_true', bne_iff_ne] at h
  simp [step, h]

/-- A branch header that is taken starts a branch. -/
theorem step_of_branch (root : List BodyItem) (b : OpenBlock) (rest : List OpenBlock)
    (errors : List ParseError) {s : Statement} (h : s.type ∈ b.type.branchHeaders) :
    step ⟨root, b :: rest, errors⟩ s = ⟨root, b.branch s :: rest, errors⟩ := by
  simp [step, ControlType.ofHeader?_of_mem h, ControlType.isBranchHeader_of_mem h,
    ControlType.takesBranch_iff.2 h]

/-- An end closes the innermost block. -/
theorem step_of_end (root : List BodyItem) (b : OpenBlock) (rest : List OpenBlock)
    (errors : List ParseError) {s : Statement} (h : s.type = .blockEnd) :
    step ⟨root, b :: rest, errors⟩ s =
      push ⟨root, rest, errors⟩ (.control (b.close (some s))) := by
  simp [step, h, ControlType.ofHeader?, isBranchHeader]

/-- With no block open, items go to the root. -/
theorem foldl_push_root (root items : List BodyItem) (errors : List ParseError) :
    items.foldl push ⟨root, [], errors⟩ = ⟨root ++ items, [], errors⟩ := by
  induction items generalizing root with
  | nil => simp
  | cons item items ih => simp [push, ih]

/-- With a block open, items go into it. -/
theorem foldl_push_open (items : List BodyItem) (root : List BodyItem) (b : OpenBlock)
    (rest : List OpenBlock) (errors : List ParseError) :
    items.foldl push ⟨root, b :: rest, errors⟩ =
      ⟨root, items.foldl OpenBlock.push b :: rest, errors⟩ := by
  induction items generalizing b with
  | nil => rfl
  | cons item items ih => simp [push, ih]

end Nesting

/-- With no branch started, items go into the body. -/
theorem OpenBlock.foldl_push_body (items : List BodyItem) (type : ControlType)
    (header : Statement) (body : List BodyItem) :
    items.foldl OpenBlock.push ⟨type, header, body, []⟩ = ⟨type, header, body ++ items, []⟩ := by
  induction items generalizing body with
  | nil => simp
  | cons item items ih => simp [push, ih]

/-- With a branch started, items go into the branch. -/
theorem OpenBlock.foldl_push_branch (items : List BodyItem) (type : ControlType)
    (header : Statement) (body : List BodyItem) (front : List (Statement × List BodyItem))
    (last : Statement) (open_ : List BodyItem) :
    items.foldl OpenBlock.push ⟨type, header, body, front ++ [(last, open_)]⟩ =
      ⟨type, header, body, front ++ [(last, open_ ++ items)]⟩ := by
  induction items generalizing open_ with
  | nil => simp
  | cons item items ih => simp [push, ih]

namespace Nesting

/-- Branches that the open block takes are added to it, each with its items. -/
theorem foldl_step_yield {parts : List BranchPart} {type : ControlType}
    (hp : ∀ p ∈ parts, p.header.type ∈ type.branchHeaders)
    (hs : ∀ p ∈ parts, ∀ n, p.statements.foldl step n = p.items.foldl push n)
    (root : List BodyItem) (header : Statement) (body : List BodyItem)
    (front : List (Statement × List BodyItem)) (rest : List OpenBlock)
    (errors : List ParseError) :
    (BranchPart.yield parts).foldl step ⟨root, ⟨type, header, body, front⟩ :: rest, errors⟩ =
      ⟨root, ⟨type, header, body, front ++ parts.map fun p => (p.header, p.items)⟩ :: rest,
        errors⟩ := by
  induction parts generalizing front with
  | nil => simp [BranchPart.yield]
  | cons p parts ih =>
    have ht := hp p List.mem_cons_self
    rw [BranchPart.yield, List.flatMap_cons, List.cons_append, List.foldl_cons,
      step_of_branch _ _ _ _ ht, List.foldl_append, hs p List.mem_cons_self, foldl_push_open,
      OpenBlock.branch, OpenBlock.foldl_push_branch]
    have := ih (fun q hq => hp q (List.mem_cons_of_mem _ hq))
      (fun q hq => hs q (List.mem_cons_of_mem _ hq)) (front ++ [(p.header, p.items)])
    simpa [BranchPart.yield] using this

/-- **Statements that make a body add its tree to the innermost open body.** -/
theorem foldl_step_of_derives {ss : List Statement} {items : List BodyItem}
    (h : Derives ss items) (n : Nesting) : ss.foldl step n = items.foldl push n := by
  induction h generalizing n with
  | nil => rfl
  | plain hs _ ih => rw [List.foldl_cons, List.foldl_cons, step_of_plain n hs, ih]
  | block ho hd hp hps hc _ ihb ihp ihr =>
    rename_i type header close body rest items more parts
    rw [List.foldl_cons, List.foldl_cons, step_of_opener n ho, List.foldl_append,
      List.foldl_append, ihb, foldl_push_open, OpenBlock.foldl_push_body,
      foldl_step_yield hp ihp, List.foldl_cons, step_of_end _ _ _ _ hc, ihr]
    simp [OpenBlock.close, closedBlock, BranchPart.trees, Function.comp_def]

end Nesting

/-- **Nesting makes the tree of a derivation** and finds no defect. -/
theorem nest_of_derives {ss : List Statement} {items : List BodyItem} (h : Derives ss items) :
    nest ss = (items, []) := by
  rw [nest, Nesting.foldl_step_of_derives h, Nesting.foldl_push_root]
  simp [Nesting.closeAll]

/-! ## Defects -/

/-- The headers of the blocks that are open behind a statement, the innermost first, given
those in front of it. -/
def openStep (opened : List Statement) (s : Statement) : List Statement :=
  if (ControlType.ofHeader? s.type).isSome then s :: opened
  else if s.type = .blockEnd then opened.tail
  else opened

/-- The headers of the blocks that are open behind some statements, the innermost first. -/
def openAfter (ss : List Statement) : List Statement := ss.foldl openStep []

/-- Whether the innermost of some open blocks takes a branch. -/
def innermostTakes (opened : List Statement) (branch : StatementType) : Bool :=
  opened.head?.any fun header =>
    (ControlType.ofHeader? header.type).any fun type => type.branchHeaders.contains branch

/-- Why a statement is turned away among some open blocks: an END when none is open, a branch
header when the innermost does not take it. -/
def misfit? (opened : List Statement) (s : Statement) : Option Defect :=
  if s.type = .blockEnd then if opened.isEmpty then some .unmatchedEnd else none
  else if Nesting.isBranchHeader s.type && !innermostTakes opened s.type then
    some (Nesting.strayBranch s)
  else none

/-- The error that a statement becomes when it is turned away. -/
def asError (s : Statement) (defect : Defect) : Statement :=
  if s.type = .blockEnd then { s with type := .error, defect := some defect }
  else .ofDefect defect s.tokens

/-- A statement as it is kept among some open blocks: itself, or an error. -/
def keep (opened : List Statement) (s : Statement) : Statement :=
  ((misfit? opened s).map (asError s)).getD s

/-- Statements as they are kept behind some open blocks. -/
def kept (opened : List Statement) : List Statement → List Statement
  | [] => []
  | s :: ss => keep opened s :: kept (openStep opened s) ss

/-- The defect of a statement that is turned away among some open blocks. -/
def rejection (opened : List Statement) (s : Statement) : List ParseError :=
  ((misfit? opened s).map fun d => ⟨d, (asError s d).span.start⟩).toList

/-- The defects of the statements that are turned away behind some open blocks, in order. -/
def rejections (opened : List Statement) : List Statement → List ParseError
  | [] => []
  | s :: ss => rejection opened s ++ rejections (openStep opened s) ss

/-- The defect of a block without END. -/
def unclosed (header : Statement) : ParseError :=
  ⟨.unclosedBlock header.nameText, header.span.start⟩

/-- A statement turned into an error keeps its tokens. -/
@[simp] theorem asError_tokens (s : Statement) (d : Defect) : (asError s d).tokens = s.tokens := by
  unfold asError; split <;> rfl

/-- A statement checked against the open blocks keeps its tokens. -/
@[simp] theorem keep_tokens (opened : List Statement) (s : Statement) :
    (keep opened s).tokens = s.tokens := by
  unfold keep; cases misfit? opened s <;> simp

/-- What is turned away keeps its tokens and its place. -/
theorem map_tokens_kept (opened ss : List Statement) :
    (kept opened ss).map (·.tokens) = ss.map (·.tokens) := by
  induction ss generalizing opened with
  | nil => rfl
  | cons s ss ih => simp [kept, ih]

section
variable {opened : List Statement} {s : Statement}

/-- An opener always fits. -/
theorem misfit?_of_opener {type : ControlType} (h : s.type = type.opener) :
    misfit? opened s = none := by
  cases type <;> simp [misfit?, h, ControlType.opener, Nesting.isBranchHeader]

/-- A plain statement always fits. -/
theorem misfit?_of_plain (h : s.type.isPlain = true) : misfit? opened s = none := by
  simp only [StatementType.isPlain, Bool.and_eq_true, Option.isNone_iff_eq_none,
    Bool.not_eq_true', bne_iff_ne] at h
  simp [misfit?, h]

/-- An end fits where a block is open. -/
theorem misfit?_of_end (h : s.type = .blockEnd) (hne : opened ≠ []) : misfit? opened s = none := by
  simp [misfit?, h, hne]

/-- A branch header is no end. -/
theorem ne_blockEnd_of_isBranchHeader (h : Nesting.isBranchHeader s.type = true) :
    s.type ≠ .blockEnd := by
  intro he
  simp [he, Nesting.isBranchHeader] at h

/-- A branch header fits where the innermost block takes it. -/
theorem misfit?_of_branch (h : Nesting.isBranchHeader s.type = true) :
    misfit? opened s =
      if innermostTakes opened s.type then none else some (Nesting.strayBranch s) := by
  cases ht : innermostTakes opened s.type <;>
    simp [misfit?, ne_blockEnd_of_isBranchHeader h, h, ht]

/-- An opener opens a block. -/
theorem openStep_of_opener {type : ControlType} (h : s.type = type.opener) :
    openStep opened s = s :: opened := by
  simp [openStep, ControlType.ofHeader?_eq_some_iff.2 h]

/-- An end closes the innermost block. -/
theorem openStep_of_end (h : s.type = .blockEnd) : openStep opened s = opened.tail := by
  simp [openStep, h, ControlType.ofHeader?]

/-- A plain statement opens and closes nothing. -/
theorem openStep_of_plain (h : s.type.isPlain = true) : openStep opened s = opened := by
  simp only [StatementType.isPlain, Bool.and_eq_true, Option.isNone_iff_eq_none,
    Bool.not_eq_true', bne_iff_ne] at h
  simp [openStep, h]

/-- A branch header opens and closes nothing. -/
theorem openStep_of_branch (h : Nesting.isBranchHeader s.type = true) :
    openStep opened s = opened := by
  unfold openStep
  cases ht : s.type <;> simp_all [Nesting.isBranchHeader, ControlType.ofHeader?]

end

/-! ## Statements in their places -/

/-- The statements of an open block, in the order in which they are written. -/
def OpenBlock.statements (b : OpenBlock) : List Statement :=
  b.header :: (bodyStatements b.body ++ b.branches.flatMap fun p => p.1 :: bodyStatements p.2)

/-- The statements that are nested so far, in the order in which they are written. -/
def Nesting.statements (n : Nesting) : List Statement :=
  bodyStatements n.root ++ n.stack.reverse.flatMap OpenBlock.statements

/-- A body of one item holds the item's statements. -/
@[simp] theorem bodyStatements_singleton (item : BodyItem) :
    bodyStatements [item] = item.statements := by
  simp [bodyStatements]

/-- Closed branches hold their headers and bodies. -/
theorem branchesStatements_map_closeBranch (bs : List (Statement × List BodyItem)) :
    branchesStatements (bs.map fun p => closeBranch p.1 p.2) =
      bs.flatMap fun p => p.1 :: bodyStatements p.2 := by
  induction bs with
  | nil => rfl
  | cons b bs ih => simp [branchesStatements, closeBranch, Branch.statements, ← ih]

namespace OpenBlock

/-- An item goes into the last branch, or the body if there is none. -/
theorem push_eq (b : OpenBlock) (item : BodyItem) :
    (b.branches = [] ∧ b.push item = { b with body := b.body ++ [item] }) ∨
      ∃ front last items, b.branches = front ++ [(last, items)] ∧
        b.push item = { b with branches := front ++ [(last, items ++ [item])] } := by
  rcases List.eq_nil_or_concat b.branches with h | ⟨front, ⟨last, items⟩, h⟩
  · exact .inl ⟨h, by simp [push, h]⟩
  · exact .inr ⟨front, last, items, by simpa using h, by simp [push, h]⟩

/-- Pushing keeps the header of the open block. -/
@[simp] theorem header_push (b : OpenBlock) (item : BodyItem) :
    (b.push item).header = b.header := by
  rcases b.push_eq item with ⟨-, h⟩ | ⟨_, _, _, -, h⟩ <;> rw [h]

/-- Pushing keeps the type of the open block. -/
@[simp] theorem type_push (b : OpenBlock) (item : BodyItem) : (b.push item).type = b.type := by
  rcases b.push_eq item with ⟨-, h⟩ | ⟨_, _, _, -, h⟩ <;> rw [h]

/-- A pushed item's statements come last. -/
@[simp] theorem statements_push (b : OpenBlock) (item : BodyItem) :
    (b.push item).statements = b.statements ++ item.statements := by
  rcases b.push_eq item with ⟨hb, h⟩ | ⟨front, last, items, hb, h⟩
  · simp [h, statements, hb, bodyStatements_append]
  · simp [h, statements, hb, bodyStatements_append]

/-- A branch header comes last. -/
@[simp] theorem statements_branch (b : OpenBlock) (s : Statement) :
    (b.branch s).statements = b.statements ++ [s] := by
  simp [branch, statements, bodyStatements]

/-- The end comes last. -/
@[simp] theorem statements_close (b : OpenBlock) (blockEnd : Option Statement) :
    (b.close blockEnd).statements = b.statements ++ blockEnd.toList := by
  simp [close, ControlBlock.statements, statements, branchesStatements_map_closeBranch]

end OpenBlock

namespace Nesting

/-- Pushing an item is no error. -/
@[simp] theorem errors_push (n : Nesting) (item : BodyItem) : (n.push item).errors = n.errors := by
  unfold push; split <;> rfl

/-- A pushed item's statements come last. -/
@[simp] theorem statements_push (n : Nesting) (item : BodyItem) :
    (n.push item).statements = n.statements ++ item.statements := by
  unfold push
  split
  · rename_i h
    simp [statements, h, bodyStatements_append]
  · rename_i b rest h
    simp [statements, h]

/-- A rejection is recorded at the start of the error statement. -/
@[simp] theorem errors_reject (n : Nesting) (d : Defect) (e : Statement) :
    (n.reject d e).errors = n.errors ++ [⟨d, e.span.start⟩] := by
  simp [reject, record]

/-- A rejected statement stays, as an error. -/
@[simp] theorem statements_reject (n : Nesting) (d : Defect) (e : Statement) :
    (n.reject d e).statements = n.statements ++ [e] :=
  n.statements_push (.statement e)

/-- Some headers are those of the open blocks, each of the type that its header opens. -/
structure Tracks (n : Nesting) (opened : List Statement) : Prop where
  headers : n.stack.map (·.header) = opened
  types : ∀ b ∈ n.stack, b.header.type = b.type.opener

/-- Pushing an item keeps the open blocks. -/
theorem Tracks.push {n : Nesting} {opened : List Statement} (h : n.Tracks opened)
    (item : BodyItem) : (n.push item).Tracks opened := by
  obtain ⟨hh, ht⟩ := h
  cases hs : n.stack with
  | nil => exact ⟨by simpa [Nesting.push, hs] using hh, by simp [Nesting.push, hs]⟩
  | cons b rest =>
    rw [hs] at hh ht
    refine ⟨by simpa [Nesting.push, hs] using hh, fun c hc => ?_⟩
    simp only [Nesting.push, hs, List.mem_cons] at hc
    rcases hc with rfl | hc
    · simpa using ht b List.mem_cons_self
    · exact ht c (List.mem_cons_of_mem _ hc)

/-- A rejection keeps the open blocks. -/
theorem Tracks.reject {n : Nesting} {opened : List Statement} (h : n.Tracks opened) (d : Defect)
    (e : Statement) : (n.reject d e).Tracks opened :=
  ⟨(h.push _).headers, (h.push _).types⟩

/-- The headers tell which branches the innermost block takes. -/
theorem innermostTakes_iff {n : Nesting} {opened : List Statement} (h : n.Tracks opened)
    (branch : StatementType) :
    innermostTakes opened branch = true ↔ ∃ b ∈ n.stack.head?, branch ∈ b.type.branchHeaders := by
  obtain ⟨rfl, ht⟩ := h
  cases hs : n.stack with
  | nil => simp [innermostTakes]
  | cons b rest =>
    have hb := ControlType.ofHeader?_eq_some_iff.2 (ht b (by simp [hs]))
    simp [innermostTakes, hb]

/-- A branch no open block takes is a misfit. -/
theorem misfit?_of_strayBranch {n : Nesting} {opened : List Statement} {s : Statement}
    (h : n.Tracks opened) (hb : isBranchHeader s.type = true)
    (ht : ∀ b ∈ n.stack.head?, s.type ∉ b.type.branchHeaders) :
    misfit? opened s = some (strayBranch s) := by
  rw [misfit?_of_branch hb, if_neg fun hc => ?_]
  obtain ⟨b, hbs, hbt⟩ := (innermostTakes_iff h s.type).1 hc
  exact ht b hbs hbt

/-- An end without an open block is a misfit. -/
theorem misfit?_of_strayEnd {n : Nesting} {opened : List Statement} {s : Statement}
    (h : n.Tracks opened) (he : s.type = .blockEnd) (hs : n.stack = []) :
    misfit? opened s = some .unmatchedEnd := by
  obtain rfl : opened = [] := by simpa [hs] using h.headers.symm
  simp [misfit?, he]

/-- A stray branch becomes an error statement. -/
theorem rejectBranch_eq (n : Nesting) {s : Statement} (hb : isBranchHeader s.type = true) :
    n.rejectBranch s = n.reject (strayBranch s) (asError s (strayBranch s)) := by
  rw [rejectBranch, asError, if_neg (ne_blockEnd_of_isBranchHeader hb)]

/-- A stray end becomes an error statement. -/
theorem rejectEnd_eq (n : Nesting) {s : Statement} (he : s.type = .blockEnd) :
    n.rejectEnd s = n.reject .unmatchedEnd (asError s .unmatchedEnd) := by
  rw [rejectEnd, asError, if_pos he]

/-- What a step does, told by the headers of the open blocks alone. -/
theorem Move.spec {n n' : Nesting} {s : Statement} (m : Move n s n') {opened : List Statement}
    (h : n.Tracks opened) :
    n'.Tracks (openStep opened s) ∧ n'.errors = n.errors ++ rejection opened s ∧
      n'.statements = n.statements ++ [keep opened s] := by
  cases m with
  | opens ht =>
    refine ⟨⟨by simp [openStep_of_opener ht, h.headers], ?_⟩, ?_, ?_⟩
    · intro b hb
      rcases List.mem_cons.1 hb with rfl | hb
      · exact ht
      · exact h.types b hb
    · simp [rejection, misfit?_of_opener ht]
    · simp [keep, misfit?_of_opener ht, statements, OpenBlock.statements, bodyStatements]
  | @branches b rest hs ht =>
    have hb := ControlType.isBranchHeader_of_mem ht
    have hm : misfit? opened s = none := by
      rw [misfit?_of_branch hb, (innermostTakes_iff h s.type).2 ⟨b, by simp [hs], ht⟩]
      rfl
    rw [openStep_of_branch hb]
    refine ⟨⟨by simpa [hs, OpenBlock.branch] using h.headers, fun c hc => ?_⟩, ?_, ?_⟩
    · rcases List.mem_cons.1 hc with rfl | hc
      · exact h.types b (by simp [hs])
      · exact h.types c (by simp [hs, hc])
    · simp [rejection, hm]
    · simp [keep, hm, statements, hs]
  | @closes b rest hs ht =>
    have hm : misfit? opened s = none := by
      refine misfit?_of_end ht fun he => ?_
      simpa [he, hs] using h.headers
    have hrest : Tracks { n with stack := rest } opened.tail :=
      ⟨by simp [← h.headers, hs], fun c hc => h.types c (by simp [hs, hc])⟩
    rw [openStep_of_end ht]
    refine ⟨hrest.push _, by simp [rejection, hm], ?_⟩
    rw [statements_push]
    simp [keep, hm, statements, hs, BodyItem.statements]
  | joins ht =>
    have hm : misfit? opened s = none := misfit?_of_plain ht
    rw [openStep_of_plain ht]
    exact ⟨h.push _, by simp [rejection, hm], by simp [keep, hm, BodyItem.statements]⟩
  | strayBranch hb ht =>
    have hm := misfit?_of_strayBranch h hb ht
    rw [openStep_of_branch hb, rejectBranch_eq n hb]
    exact ⟨h.reject _ _, by simp [rejection, hm], by simp [keep, hm]⟩
  | strayEnd he hs =>
    have hm := misfit?_of_strayEnd h he hs
    have hnil : opened = [] := by simpa [hs] using h.headers.symm
    rw [openStep_of_end he, rejectEnd_eq n he]
    refine ⟨?_, by simp [rejection, hm], by simp [keep, hm]⟩
    rw [hnil] at h ⊢
    exact h.reject _ _

/-- What a run of steps does, told by the headers of the open blocks alone. -/
theorem foldl_step_spec (ss : List Statement) {n : Nesting} {opened : List Statement}
    (h : n.Tracks opened) :
    (ss.foldl step n).Tracks (ss.foldl openStep opened) ∧
      (ss.foldl step n).errors = n.errors ++ rejections opened ss ∧
      (ss.foldl step n).statements = n.statements ++ kept opened ss := by
  induction ss generalizing n opened with
  | nil => simpa [rejections, kept] using h
  | cons s ss ih =>
    obtain ⟨ht, he, hs⟩ := (move_step n s).spec h
    obtain ⟨ht', he', hs'⟩ := ih ht
    refine ⟨ht', ?_, ?_⟩
    · rw [List.foldl_cons, he', he, rejections, List.append_assoc]
    · rw [List.foldl_cons, hs', hs, kept, List.append_assoc, List.singleton_append]

/-- At the start no block is open. -/
theorem tracks_start : ({} : Nesting).Tracks [] := ⟨rfl, by simp⟩

/-- Blocks that are left open at the end are closed around what they hold. -/
theorem closeAll_eq (root : List BodyItem) (errors : List ParseError) (stack : List OpenBlock) :
    bodyStatements (closeAll root errors stack).1 = statements ⟨root, stack, errors⟩ ∧
      (closeAll root errors stack).2 = errors ++ stack.map fun b => unclosed b.header := by
  fun_induction closeAll root errors stack with
  | case1 => simp [statements]
  | case2 => simp [statements, bodyStatements_append, BodyItem.statements, unclosed]
  | case3 errors b outer rest ih =>
    obtain ⟨hs, he⟩ := ih
    exact ⟨by simp [hs, statements, BodyItem.statements], by simp [he, unclosed]⟩

end Nesting

/-- **The statements of the tree** are those that were nested, in the same order, with an
error in the place of each that is turned away. -/
theorem bodyStatements_nest (ss : List Statement) : bodyStatements (nest ss).1 = kept [] ss := by
  obtain ⟨-, -, hs⟩ := Nesting.foldl_step_spec ss Nesting.tracks_start
  rw [nest, (Nesting.closeAll_eq _ _ _).1, hs]
  simp [Nesting.statements, bodyStatements]

/-- **The defects of a body:** one for each statement that is turned away, and one for each
block that is still open at the end, the innermost first. -/
theorem errors_nest (ss : List Statement) :
    (nest ss).2 = rejections [] ss ++ (openAfter ss).map unclosed := by
  obtain ⟨ht, he, -⟩ := Nesting.foldl_step_spec ss Nesting.tracks_start
  rw [nest, (Nesting.closeAll_eq _ _ _).2, he, openAfter, ← ht.headers]
  simp

/-! ## Bodies without defects are derivations -/

/-- Statements that make a tree up to some blocks, which are still open: the items outside
of them, and the open blocks, the innermost first. -/
inductive Partial : List Statement → List BodyItem → List OpenBlock → Prop
  | outside {ss : List Statement} {items : List BodyItem} : Derives ss items → Partial ss items []
  | inside {ss : List Statement} {root : List BodyItem} {stack : List OpenBlock}
      {type : ControlType} {header : Statement} {body : List Statement} {items : List BodyItem}
      {parts : List BranchPart} :
      Partial ss root stack → header.type = type.opener → Derives body items →
      (∀ p ∈ parts, p.header.type ∈ type.branchHeaders) →
      (∀ p ∈ parts, Derives p.statements p.items) →
      Partial (ss ++ header :: (body ++ BranchPart.yield parts)) root
        (⟨type, header, items, parts.map fun p => (p.header, p.items)⟩ :: stack)

namespace Partial

/-- A derivation of one more item continues the innermost open body. -/
theorem push {ss more : List Statement} {n : Nesting} {item : BodyItem}
    (h : Partial ss n.root n.stack) (hd : Derives more [item]) :
    Partial (ss ++ more) (n.push item).root (n.push item).stack := by
  obtain ⟨root, stack, errors⟩ := n
  cases h with
  | outside h => exact .outside (h.append hd)
  | @inside ss _ stack type header body items parts h ho hb hp hs =>
    rw [List.append_assoc, List.cons_append, List.append_assoc]
    rcases List.eq_nil_or_concat parts with rfl | ⟨front, last, rfl⟩
    · have := inside h ho (hb.append hd) (by simp) (List.forall_mem_nil _)
      simpa [Nesting.push, OpenBlock.push, BranchPart.yield] using this
    · -- the last branch is open, so it takes the item
      let more' : BranchPart := ⟨last.header, last.statements ++ more, last.items ++ [item]⟩
      rw [List.concat_eq_append] at hp hs ⊢
      obtain ⟨hp, hplast⟩ := List.forall_mem_append.1 hp
      obtain ⟨hs, hslast⟩ := List.forall_mem_append.1 hs
      have hp' : ∀ p ∈ front ++ [more'], p.header.type ∈ type.branchHeaders :=
        List.forall_mem_append.2 ⟨hp, List.forall_mem_singleton.2 (hplast last (by simp))⟩
      have hs' : ∀ p ∈ front ++ [more'], Derives p.statements p.items :=
        List.forall_mem_append.2
          ⟨hs, List.forall_mem_singleton.2 ((hslast last (by simp)).append hd)⟩
      have := inside h ho hb hp' hs'
      simpa [Nesting.push, OpenBlock.push, BranchPart.yield, more'] using this

/-- A step that turns nothing away continues the derivation. -/
theorem step {ss : List Statement} {n : Nesting} {s : Statement} {opened : List Statement}
    (h : Partial ss n.root n.stack) (ht : n.Tracks opened) (hm : misfit? opened s = none) :
    Partial (ss ++ [s]) (n.step s).root (n.step s).stack := by
  obtain ⟨root, stack, errors⟩ := n
  have hmove := Nesting.move_step ⟨root, stack, errors⟩ s
  generalize Nesting.step ⟨root, stack, errors⟩ s = next at hmove ⊢
  cases hmove with
  | opens ho =>
    have := inside h ho .nil (by simp) (List.forall_mem_nil _)
    simpa [BranchPart.yield] using this
  | joins hp =>
    exact h.push (.plain hp .nil)
  | @branches b rest hs hb =>
    obtain rfl : stack = b :: rest := hs
    cases h with
    | @inside ss _ stack type header body items parts h ho hd hp hps =>
      have hp' : ∀ p ∈ parts ++ [(⟨s, [], []⟩ : BranchPart)], p.header.type ∈ type.branchHeaders :=
        List.forall_mem_append.2 ⟨hp, List.forall_mem_singleton.2 hb⟩
      have hs' : ∀ p ∈ parts ++ [(⟨s, [], []⟩ : BranchPart)], Derives p.statements p.items :=
        List.forall_mem_append.2 ⟨hps, List.forall_mem_singleton.2 .nil⟩
      have := inside h ho hd hp' hs'
      simpa [BranchPart.yield, OpenBlock.branch] using this
  | @closes b rest hs he =>
    obtain rfl : stack = b :: rest := hs
    cases h with
    | @inside ss _ stack type header body items parts h ho hd hp hps =>
      have hblock := Derives.block ho hd hp hps he .nil
      have hc : OpenBlock.close ⟨type, header, items, parts.map fun p => (p.header, p.items)⟩
          (some s) = closedBlock type header items parts s := by
        simp [OpenBlock.close, closedBlock, BranchPart.trees, Function.comp_def]
      rw [← hc] at hblock
      have := push (n := ⟨root, rest, errors⟩) h hblock
      simpa using this
  | strayBranch hb ht' => simp [Nesting.misfit?_of_strayBranch ht hb ht'] at hm
  | strayEnd he hs => simp [Nesting.misfit?_of_strayEnd ht he hs] at hm

/-- Steps that turn nothing away continue the derivation. -/
theorem foldl_step (more : List Statement) {ss : List Statement} {n : Nesting}
    {opened : List Statement} (h : Partial ss n.root n.stack) (ht : n.Tracks opened)
    (hm : rejections opened more = []) :
    Partial (ss ++ more) (more.foldl Nesting.step n).root (more.foldl Nesting.step n).stack := by
  induction more generalizing ss n opened with
  | nil => simpa using h
  | cons s more ih =>
    rw [rejections, List.append_eq_nil_iff] at hm
    have hs : misfit? opened s = none := by simpa [rejection] using hm.1
    have := ih (h.step ht hs) ((Nesting.move_step n s).spec ht).1 hm.2
    simpa using this

end Partial

/-- Statements that nest without a defect make a body of the grammar. -/
theorem derives_of_errors_eq_nil {ss : List Statement} (h : (nest ss).2 = []) :
    Derives ss (nest ss).1 := by
  rw [errors_nest, List.append_eq_nil_iff, List.map_eq_nil_iff] at h
  have hp := Partial.foldl_step ss (n := {}) (.outside .nil) Nesting.tracks_start h.1
  obtain ⟨ht, -, -⟩ := Nesting.foldl_step_spec ss Nesting.tracks_start
  have hs : (ss.foldl Nesting.step {}).stack = [] := by
    rw [← List.map_eq_nil_iff (f := OpenBlock.header), ht.headers]
    exact h.2
  rw [nest, hs, Nesting.closeAll]
  rw [hs] at hp
  cases hp with
  | outside hd => exact hd

/-! ## Errors stand in the bodies of what they replace -/

namespace Nesting

/-- Two states with the same items; their defects may differ. -/
def SameItems (n m : Nesting) : Prop := n.root = m.root ∧ n.stack = m.stack

/-- Pushing one item to both keeps the items the same. -/
theorem SameItems.push {n m : Nesting} (h : n.SameItems m) (item : BodyItem) :
    (n.push item).SameItems (m.push item) := by
  obtain ⟨root, stack, errors⟩ := n
  obtain ⟨root', stack', errors'⟩ := m
  obtain ⟨rfl, rfl⟩ : root = root' ∧ stack = stack' := h
  cases stack <;> exact ⟨rfl, rfl⟩

/-- One step of both keeps the items the same. -/
theorem SameItems.step {n m : Nesting} (h : n.SameItems m) (s : Statement) :
    (n.step s).SameItems (m.step s) := by
  obtain ⟨root, stack, errors⟩ := n
  obtain ⟨root', stack', errors'⟩ := m
  obtain ⟨rfl, rfl⟩ : root = root' ∧ stack = stack' := h
  have hpush (stack : List OpenBlock) (item : BodyItem) :
      SameItems (Nesting.push ⟨root, stack, errors⟩ item)
        (Nesting.push ⟨root, stack, errors'⟩ item) := by
    have hsame : SameItems ⟨root, stack, errors⟩ ⟨root, stack, errors'⟩ := ⟨rfl, rfl⟩
    exact hsame.push item
  unfold Nesting.step
  cases ControlType.ofHeader? s.type with
  | some type => exact ⟨rfl, rfl⟩
  | none =>
    by_cases hb : isBranchHeader s.type = true
    · simp only [hb, if_true]
      cases stack with
      | nil => exact hpush [] _
      | cons b rest =>
        by_cases ht : b.type.takesBranch s.type = true
        · simp only [ht, if_true]
          exact ⟨rfl, rfl⟩
        · simp only [ht]
          exact hpush (b :: rest) _
    · by_cases he : s.type = .blockEnd
      · simp only [he]
        cases stack with
        | nil => exact hpush [] _
        | cons b rest => exact hpush rest _
      · simp only [hb, he]
        exact hpush stack _

/-- A statement that is turned away is kept as an error. -/
theorem step_of_misfit {n : Nesting} {opened : List Statement} (h : n.Tracks opened)
    {s : Statement} {d : Defect} (hm : misfit? opened s = some d) :
    n.step s = n.reject d (asError s d) := by
  have hmove := move_step n s
  generalize n.step s = next at hmove ⊢
  cases hmove with
  | opens ho => simp [misfit?_of_opener ho] at hm
  | joins hp => simp [misfit?_of_plain hp] at hm
  | @branches b rest hs hb =>
    have ht := (innermostTakes_iff h s.type).2 ⟨b, by simp [hs], hb⟩
    simp [misfit?_of_branch (ControlType.isBranchHeader_of_mem hb), ht] at hm
  | closes hs he =>
    have hne : opened ≠ [] := by simp [← h.headers, hs]
    simp [misfit?_of_end he hne] at hm
  | strayBranch hb ht =>
    rw [misfit?_of_strayBranch h hb ht] at hm
    obtain rfl := Option.some.inj hm
    exact rejectBranch_eq n hb
  | strayEnd he hs =>
    rw [misfit?_of_strayEnd h he hs] at hm
    obtain rfl := Option.some.inj hm
    exact rejectEnd_eq n he

/-- A statement and what is kept of it lead to the same items. -/
theorem SameItems.keep {n m : Nesting} (h : n.SameItems m) {opened : List Statement}
    (ht : n.Tracks opened) (s : Statement) :
    (n.step s).SameItems (m.step (keep opened s)) := by
  cases hm : misfit? opened s with
  | none => simpa [RobotSuite.keep, hm] using h.step s
  | some d =>
    have hp : (asError s d).type.isPlain = true := by
      unfold asError
      split <;> rfl
    rw [step_of_misfit ht hm, RobotSuite.keep, hm, Option.map_some, Option.getD_some,
      step_of_plain m hp]
    exact h.push _

/-- The errors written in place build the same items. -/
theorem SameItems.foldl_kept (ss : List Statement) {n m : Nesting} (h : n.SameItems m)
    {opened : List Statement} (ht : n.Tracks opened) :
    (ss.foldl Nesting.step n).SameItems ((kept opened ss).foldl Nesting.step m) := by
  induction ss generalizing n m opened with
  | nil => exact h
  | cons s ss ih => exact ih (h.keep ht s) ((move_step n s).spec ht).1

/-- The errors do not decide how blocks are closed. -/
theorem closeAll_items (root : List BodyItem) (errors errors' : List ParseError)
    (stack : List OpenBlock) :
    (closeAll root errors stack).1 = (closeAll root errors' stack).1 := by
  fun_induction closeAll root errors stack generalizing errors' with
  | case1 => simp [closeAll]
  | case2 => simp [closeAll]
  | case3 errors b outer rest ih =>
    rw [closeAll]
    exact ih _

end Nesting

/-- **What is turned away stays in its body:** the tree is that of the statements as they are
kept, in which an error is as plain as any other statement. -/
theorem nest_kept (ss : List Statement) : (nest (kept [] ss)).1 = (nest ss).1 := by
  obtain ⟨hr, hs⟩ := Nesting.SameItems.foldl_kept ss (n := {}) ⟨rfl, rfl⟩ Nesting.tracks_start
  rw [nest, nest, ← hr, ← hs]
  exact Nesting.closeAll_items _ _ _ _

/-- **Nesting accepts the grammar of bodies and nothing else.**  It finds no defect exactly
in the statements of a derivation, and makes the tree of that.  In any list there is one
defect for each END that closes nothing and for each branch header that the innermost open
block does not take, in order, and then one for each block that is left open, the innermost
first.  What is turned away becomes an error with the same tokens, in the same place of the
text and of the tree. -/
theorem nest_accepts_grammar (ss : List Statement) :
    ((nest ss).2 = [] ↔ ∃ items, Derives ss items) ∧
      (∀ items, Derives ss items → (nest ss).1 = items) ∧
      (nest ss).2 = rejections [] ss ++ (openAfter ss).map unclosed ∧
      bodyStatements (nest ss).1 = kept [] ss ∧
      (kept [] ss).map (·.tokens) = ss.map (·.tokens) ∧
      (nest (kept [] ss)).1 = (nest ss).1 := by
  refine ⟨⟨fun h => ⟨_, derives_of_errors_eq_nil h⟩, ?_⟩, ?_, errors_nest ss,
    bodyStatements_nest ss, map_tokens_kept [] ss, nest_kept ss⟩
  · rintro ⟨items, h⟩
    rw [nest_of_derives h]
  · intro items h
    rw [nest_of_derives h]

end RobotSuite
