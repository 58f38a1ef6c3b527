/-
# Items that a transform leaves alone

Behind a directive that switches a transform off, and in front of the next directive, a
transform that heeds directives (`Transform.Freezes`) meets each statement in a scope that
disables it.  So the walk comes through these items without change, and marks all of them
(`Transform.Freezes.onItems_off`, `Transform.Freezes.onSectionItems_off`).
-/

import RobotSuite.Proofs.Transform.Run
import RobotSuite.Tree.Edit

namespace RobotSuite

open Container.children (itemNode)

/-! ## Regions -/

/-- Statements of a container. -/
def Container.statements : Container → List Statement
  | .file f => f.statements
  | .sect s => s.statements
  | .block b => b.statements
  | .control c => c.statements
  | .branch b => b.statements

/-- Statements of a node. -/
def Node.statements : Node → List Statement
  | .statement s => [s]
  | .container c => c.statements

/-- A section item as a node. -/
def SectionItem.node : SectionItem → Node
  | .statement s => .statement s
  | .block b => .container (.block b)

/-- A directive on a line of its own that switches a pass off, and what stands behind it in the
same body, without further directives. -/
def SwitchedOff (pass : String) : List Node → Prop
  | .statement s :: rest => s.type = .comment ∧ s.directive?.any (·.disables pass) = true ∧
      ∀ n ∈ rest, ∀ r ∈ n.statements, r.directive? = none
  | _ => False

instance (pass : String) : DecidablePred (SwitchedOff pass)
  | [] => .isFalse id
  | .container _ :: _ => .isFalse id
  | .statement _ :: _ => inferInstanceAs (Decidable (_ ∧ _ ∧ _))

section
variable {pass : String}

/-- A body item and its node hold the same statements. -/
@[simp] theorem statements_itemNode (item : BodyItem) :
    (itemNode item).statements = item.statements := by
  cases item with
  | statement s => rw [BodyItem.statements]; rfl
  | control c => rw [BodyItem.statements]; rfl

/-- An item of a section and its node hold the same statements. -/
@[simp] theorem statements_node (item : SectionItem) : item.node.statements = item.statements := by
  cases item <;> rfl

/-- A switched-off region starts with a statement. -/
theorem SwitchedOff.exists_eq_cons {nodes : List Node} (h : SwitchedOff pass nodes) :
    ∃ s rest, nodes = .statement s :: rest := by
  match nodes with
  | [] => exact h.elim
  | .container c :: rest => exact h.elim
  | .statement s :: rest => exact ⟨s, rest, rfl⟩

/-- In a body a region starts with the comment that turns the pass off. -/
theorem SwitchedOff.bodyItems {items : List BodyItem} (h : SwitchedOff pass (items.map itemNode)) :
    ∃ s rest, items = .statement s :: rest ∧ s.type = .comment ∧
      s.directive?.any (·.disables pass) = true ∧
      ∀ r ∈ bodyStatements rest, r.directive? = none := by
  match items with
  | [] => exact h.elim
  | .control c :: rest => exact h.elim
  | .statement s :: rest =>
    obtain ⟨hs, hd, hr⟩ := h
    refine ⟨s, rest, rfl, hs, hd, ?_⟩
    rw [bodyStatements_eq_flatMap, List.forall_mem_flatMap]
    intro item hmem
    rw [← statements_itemNode]
    exact hr _ (List.mem_map_of_mem hmem)

/-- In a section a region starts with the comment that turns the pass off. -/
theorem SwitchedOff.sectionItems {items : List SectionItem}
    (h : SwitchedOff pass (items.map SectionItem.node)) :
    ∃ s rest, items = .statement s :: rest ∧ s.type = .comment ∧
      s.directive?.any (·.disables pass) = true ∧
      ∀ r ∈ itemsStatements rest, r.directive? = none := by
  match items with
  | [] => exact h.elim
  | .block b :: rest => exact h.elim
  | .statement s :: rest =>
    obtain ⟨hs, hd, hr⟩ := h
    refine ⟨s, rest, rfl, hs, hd, ?_⟩
    rw [itemsStatements, List.forall_mem_flatMap]
    intro item hmem
    rw [← statements_node]
    exact hr _ (List.mem_map_of_mem hmem)

end

/-! ## Directives in force -/

section
variable {pass : String} {d : Directive} {sc : Scope} {s : Statement}

/-- Setting a name in a frame is seen at that name only. -/
theorem Frame.lookup_set (f : Frame) (name pass : String) (off : Bool) :
    (f.set name off).lookup pass = if pass = name then some off else f.lookup pass := by
  have hfilter (h : pass ≠ name) : (f.filter fun e => e.1 != name).lookup pass = f.lookup pass := by
    induction f with
    | nil => rfl
    | cons e f ih =>
      rw [List.filter_cons]
      by_cases he : e.1 = name
      · have hne : (pass == e.1) = false := by simpa [he] using h
        rw [if_neg (by simp [he]), ih, List.lookup_cons, hne]
      · rw [if_pos (by simpa using he), List.lookup_cons, List.lookup_cons, ih]
  rw [set, List.lookup_cons]
  split <;> rename_i hp
  · rw [if_pos (by simpa using hp)]
  · have hne : pass ≠ name := by simpa using hp
    rw [if_neg hne, hfilter hne]

/-- Behind a directive that switches a pass off a frame says so. -/
theorem Frame.says_apply (f : Frame) (h : d.disables pass = true) :
    Frame.entry? (f.apply d) pass = some true := by
  have hfold {names : List String} {f : Frame}
      (h : pass ∈ names ∨ f.lookup pass = some true) :
      (names.foldl (fun f name => f.set name true) f).lookup pass = some true := by
    induction names generalizing f with
    | nil => simpa using h
    | cons name names ih =>
      refine ih ?_
      rw [lookup_set]
      by_cases hp : pass = name
      · exact .inr (if_pos hp)
      · rw [if_neg hp]
        exact h.imp_left fun hmem => (List.mem_cons.1 hmem).resolve_left hp
  rw [Directive.disables, Bool.and_eq_true, Bool.or_eq_true, Bool.not_eq_true'] at h
  obtain ⟨hoff, hnames⟩ := h
  rw [apply, hoff, Bool.not_false]
  by_cases hall : d.passes.isEmpty = true
  · rw [if_pos hall, entry?, List.lookup_cons]
    cases pass == everyPass <;> rfl
  · have hmem : pass ∈ d.passes := by simpa using hnames.resolve_left hall
    rw [if_neg hall, entry?, hfold (.inl hmem)]
    rfl

/-- A pass that the inner frame turns off is off. -/
theorem Frames.disables_cons {f : Frame} (fs : Frames) (h : f.entry? pass = some true) :
    Frames.disables (f :: fs) pass = true := by
  simp [Frames.disables, h]

/-- An empty frame decides nothing. -/
theorem Frames.disables_nil_cons (fs : Frames) :
    Frames.disables ([] :: fs) pass = fs.disables pass := rfl

/-- A scope in which directives on lines of their own take effect.  Those of a section without
header hold for the whole file. -/
def Scope.Hears (sc : Scope) : Prop :=
  if sc.ancestors.head?.any (·.isHeaderless) then ∃ f, sc.frames = [[], f] else sc.frames ≠ []

/-- Behind a directive that switches a pass off, the pass is off. -/
theorem Scope.Hears.disables_note (h : sc.Hears) (hs : s.type = .comment)
    (hd : s.directive?.any (·.disables pass) = true) :
    (sc.note s).frames.disables pass = true := by
  obtain ⟨d, hdir, hoff⟩ := Option.any_eq_true _ _ |>.1 hd
  rw [Scope.Hears] at h
  rw [Scope.note, if_pos hs, hdir]
  dsimp only
  split at h <;> rename_i hh
  · obtain ⟨f, hf⟩ := h
    rw [if_pos hh, hf]
    exact (Frames.disables_nil_cons _).trans
      (Frames.disables_cons _ (Frame.says_apply f hoff))
  · rw [if_neg hh]
    obtain ⟨f, fs, hf⟩ := List.exists_cons_of_ne_nil h
    rw [hf]
    exact Frames.disables_cons _ (Frame.says_apply f hoff)

/-- A statement that is no directive is not noted. -/
theorem Scope.note_of_directive? (h : s.directive? = none) : sc.note s = sc := by
  rw [Scope.note, h]
  split <;> rfl

end

/-! ## Transforms that heed directives -/

/-- The statement type of comments. -/
def isCommentType (t : NodeType) : Bool := t = .statement .comment

/-- Whether comments close a region but do not make up all of it, and behind it there are only
comments and then empty lines. -/
def straddles (region back : List NodeType) : Bool :=
  region.getLast?.any isCommentType && !region.all isCommentType && !back.isEmpty &&
    (back.dropWhile isCommentType).all fun t => t = .statement .emptyLine

/-- Whether empty lines are put in front of the comments that close the block that is left;
`between` tells how many of them stand between blocks. -/
def Place.pads (place : Place) (between : BlockType → Nat) : Prop :=
  ∃ b, place.scope.parent? = some (.block b) ∧ place.blockFollows = true ∧ between b.type ≠ 0

/-- The control block that a body item is. -/
def BodyItem.control? : BodyItem → Option ControlBlock
  | .statement _ => none
  | .control c => some c

/-- The type of a body item. -/
def BodyItem.nodeType (item : BodyItem) : NodeType := (itemNode item).type

/-- A transform that heeds directives: it leaves alone statements at which it is switched off,
and keeps the items of a region in which it is switched off together, unless it puts empty lines
between them. -/
structure Transform.Freezes (t : Transform) (between : BlockType → Nat) : Prop where
  statement : ∀ {sc n s}, sc.disables t.name s = true → t.statement sc n s = .keep
  marked : ∀ {place items}, (∀ x ∈ items, x.2 = true) → t.leaveBody place true items = .keep
  body : ∀ {place header front region back new},
    t.leaveBody place header (front ++ region ++ back) = .put new → (∀ x ∈ region, x.2 = true) →
    SwitchedOff t.name ((unmark region).map itemNode) →
    (place.pads between → straddles ((unmark region).map BodyItem.nodeType)
      ((unmark back).map BodyItem.nodeType) = false) →
    unmark region <:+: unmark new
  controls : ∀ {place header items new}, t.leaveBody place header items = .put new →
    (unmark new).filterMap BodyItem.control? = (unmark items).filterMap BodyItem.control?
  sect : ∀ {place header front region back new},
    t.leaveSection place header (front ++ region ++ back) = .put new →
    (∀ x ∈ region, x.2 = true) → SwitchedOff t.name ((unmark region).map SectionItem.node) →
    leadsBlocks (unmark (front ++ region ++ back)) → unmark region <:+: unmark new
  blocks : ∀ {place header items new}, t.leaveSection place header items = .put new →
    leadsBlocks (unmark items) →
    (unmark new).filterMap SectionItem.block? = (unmark items).filterMap SectionItem.block?
  file : ∀ {place ss}, t.leaveFile place ss = .keep

/-! ## The walk through a region -/

/-- Marking a statement off keeps the scope. -/
@[simp] theorem Progress.scope_switchOff (p : Progress) (s : Statement) :
    (p.switchOff s).scope = p.scope := by
  rw [switchOff]
  split <;> rfl

/-- Items, all of which are marked. -/
def markAll {α : Type} (items : List α) : List (Marked α) := items.map fun item => (item, true)

/-- Marked items are the items. -/
@[simp] theorem unmark_markAll {α : Type} (items : List α) : unmark (markAll items) = items := by
  simp [unmark, markAll, Function.comp_def]

/-- Items that are all marked stay so. -/
theorem Progress.remark_markAll {α : Type} (p : Progress) (statements : α → List Statement)
    (items : List α) : p.remark statements (markAll items) = markAll items := by
  rw [remark]
  split
  · rfl
  · simp [markAll]

/-- The last of marked items is marked. -/
theorem lastMark_markAll {α : Type} (items : List α) : lastMark true (markAll items) = true := by
  rw [lastMark, markAll, List.getLast?_map]
  cases items.getLast? <;> rfl

/-- Settling for what stands changes nothing. -/
theorem Progress.settle_self {α : Type} (p : Progress) (x : α) : p.settle x x = x := by
  rw [settle]
  split <;> rfl

namespace Transform
variable {t : Transform} {between : BlockType → Nat} {p : Progress}

/-- Where a transform is switched off a statement stays as it is. -/
theorem Freezes.onStatement (h : t.Freezes between) {s : Statement}
    (hoff : (p.scope.note s).frames.disables t.name = true) :
    ∃ q, t.onStatement p s = ((s, true), q) ∧ q.scope = p.scope.note s := by
  have hdis : (p.scope.note s).disables t.name s = true := by
    rw [Scope.disables, hoff, Bool.or_true]
  rw [Transform.onStatement]
  dsimp only
  rw [hdis, if_pos rfl]
  split
  · exact ⟨_, rfl, Progress.scope_switchOff _ _⟩
  · rw [h.statement hdis]
    exact ⟨_, rfl, Progress.scope_switchOff _ _⟩

/-- Where the pass is off a statement stays. -/
theorem Freezes.onStatement_off (h : t.Freezes between) {s : Statement}
    (hoff : p.scope.frames.disables t.name = true) (hs : s.directive? = none) :
    ∃ q, t.onStatement p s = ((s, true), q) ∧ q.scope = p.scope := by
  have hnote : p.scope.note s = p.scope := Scope.note_of_directive? hs
  rw [← hnote] at hoff
  obtain ⟨q, hstay, hscope⟩ := h.onStatement hoff
  exact ⟨q, hstay, hscope.trans hnote⟩

/-- Where the pass is off a closing statement stays. -/
theorem Freezes.onStatement?_off (h : t.Freezes between) {close : Option Statement}
    (hoff : p.scope.frames.disables t.name = true) (hs : ∀ s ∈ close, s.directive? = none) :
    ∃ q, t.onStatement? p close = (close.map fun s => (s, true), q) ∧ q.scope = p.scope := by
  cases close with
  | none => exact ⟨p, rfl, rfl⟩
  | some s =>
    obtain ⟨q, hstay, hscope⟩ := h.onStatement_off hoff (hs s rfl)
    exact ⟨q, by rw [onStatement?, hstay]; rfl, hscope⟩

/-- Where all items are marked the body stays. -/
theorem Freezes.onBody_off (h : t.Freezes between) (p : Progress) (items : List BodyItem) :
    t.onBody p true (markAll items) = (markAll items, p) := by
  rw [onBody]
  split
  · rfl
  · rw [Progress.remark_markAll]
    dsimp only
    rw [h.marked fun x hx => ?_]
    · rfl
    · obtain ⟨item, -, rfl⟩ := List.mem_map.1 hx
      rfl

/-- Inside a container whose header carries no directive a transform is off as it is outside. -/
theorem disables_enter (sc : Scope) {c : Container} {pass : String}
    (hoff : sc.frames.disables pass = true) (hc : ∀ s ∈ c.header?, s.directive? = none) :
    (sc.enter c).frames.disables pass = true := by
  have hnone : c.header?.bind Statement.directive? = none := by
    cases hh : c.header? with
    | none => rfl
    | some s => exact hc s hh
  rw [Scope.enter, hnone]
  dsimp only
  split
  · exact hoff
  · exact (Frames.disables_nil_cons _).trans hoff

mutual

/-- Where the pass is off an item stays. -/
theorem Freezes.onItem_off (h : t.Freezes between) {p : Progress}
    (hoff : p.scope.frames.disables t.name = true) : ∀ {item : BodyItem},
      (∀ s ∈ item.statements, s.directive? = none) →
      ∃ q, t.onItem p item = ((item, true), q) ∧ q.scope = p.scope
  | .statement s, hi => by
    obtain ⟨q, hstay, hscope⟩ := h.onStatement_off hoff (hi s (by simp [BodyItem.statements]))
    exact ⟨q, by rw [Transform.onItem, hstay], hscope⟩
  | .control c, hi => by
    rw [BodyItem.statements] at hi
    obtain ⟨q, hstay, hscope⟩ := h.onControl_off hoff hi
    exact ⟨q, by rw [Transform.onItem, hstay], hscope⟩

/-- Where the pass is off a control block stays. -/
theorem Freezes.onControl_off (h : t.Freezes between) {p : Progress}
    (hoff : p.scope.frames.disables t.name = true) : ∀ {c : ControlBlock},
      (∀ s ∈ c.statements, s.directive? = none) →
      ∃ q, t.onControl p c = ((c, true), q) ∧ q.scope = p.scope
  | ⟨type, span, header, body, branches, close, label⟩, hc => by
    rw [ControlBlock.statements, List.forall_mem_cons, List.forall_mem_append,
      List.forall_mem_append] at hc
    obtain ⟨hheader, ⟨hbody, hbranches⟩, hclose⟩ := hc
    have hin := disables_enter p.scope
      (c := .control ⟨type, span, header, body, branches, close, label⟩) hoff
      fun s hs => Option.some.inj hs ▸ hheader
    obtain ⟨q1, hq1, hs1⟩ := h.onStatement_off (p := p.enter _) hin hheader
    obtain ⟨q2, hq2, hs2⟩ := h.onItems_off (p := q1) (by rw [hs1]; exact hin) hbody
    obtain ⟨q3, hq3, hs3⟩ := h.onBranches_off (p := q2) (by rw [hs2, hs1]; exact hin) hbranches
    obtain ⟨q4, hq4, hs4⟩ := h.onStatement?_off (p := q3) (by rw [hs3, hs2, hs1]; exact hin)
      fun s hs => hclose s (by simpa using hs)
    refine ⟨q4.leave, ?_, ?_⟩
    · rw [Transform.onControl]
      simp only [hq1, hq2, hq3, hq4, h.onBody_off, unmark_markAll, Progress.settle_self,
        lastMark_markAll]
      cases close <;> simp [Progress.settle_self]
    · show q4.scope.leave = p.scope
      rw [hs4, hs3, hs2, hs1]
      exact Scope.leave_enter _ _

/-- Where the pass is off a body stays. -/
theorem Freezes.onItems_off (h : t.Freezes between) {p : Progress}
    (hoff : p.scope.frames.disables t.name = true) : ∀ {items : List BodyItem},
      (∀ s ∈ bodyStatements items, s.directive? = none) →
      ∃ q, t.onItems p items = (markAll items, q) ∧ q.scope = p.scope
  | [], _ => ⟨p, by rw [Transform.onItems]; rfl, rfl⟩
  | item :: items, hi => by
    rw [bodyStatements, List.forall_mem_append] at hi
    obtain ⟨q, hstay, hscope⟩ := h.onItem_off hoff hi.1
    obtain ⟨r, hrest, hscope'⟩ := h.onItems_off (p := q) (by rw [hscope]; exact hoff) hi.2
    refine ⟨r, ?_, hscope'.trans hscope⟩
    rw [Transform.onItems, hstay]
    dsimp only
    rw [hrest]
    rfl

/-- Where the pass is off the branches stay. -/
theorem Freezes.onBranches_off (h : t.Freezes between) {p : Progress}
    (hoff : p.scope.frames.disables t.name = true) : ∀ {bs : List Branch},
      (∀ s ∈ branchesStatements bs, s.directive? = none) →
      ∃ q, t.onBranches p bs = (markAll bs, q) ∧ q.scope = p.scope
  | [], _ => ⟨p, by rw [Transform.onBranches]; rfl, rfl⟩
  | ⟨span, header, body, label⟩ :: bs, hb => by
    rw [branchesStatements, Branch.statements, List.cons_append, List.forall_mem_cons,
      List.forall_mem_append] at hb
    obtain ⟨hheader, hbody, hbs⟩ := hb
    have hin := disables_enter p.scope (c := .branch ⟨span, header, body, label⟩) hoff
      fun s hs => Option.some.inj hs ▸ hheader
    obtain ⟨q1, hq1, hs1⟩ := h.onStatement_off (p := p.enter _) hin hheader
    obtain ⟨q2, hq2, hs2⟩ := h.onItems_off (p := q1) (by rw [hs1]; exact hin) hbody
    have hleave : q2.leave.scope = p.scope := by
      show q2.scope.leave = p.scope
      rw [hs2, hs1]
      exact Scope.leave_enter _ _
    obtain ⟨q3, hq3, hs3⟩ := h.onBranches_off (p := q2.leave) (by rw [hleave]; exact hoff) hbs
    refine ⟨q3, ?_, hs3.trans hleave⟩
    rw [Transform.onBranches, Transform.onBranch]
    simp only [hq1, hq2, hq3, h.onBody_off, unmark_markAll, Progress.settle_self,
      lastMark_markAll]
    rfl

end

/-- Where a transform is switched off a block stays as it is. -/
theorem Freezes.onBlock_off (h : t.Freezes between)
    (hoff : p.scope.frames.disables t.name = true) {b : Block}
    (hb : ∀ s ∈ b.statements, s.directive? = none) :
    ∃ q, t.onBlock p b = ((b, true), q) ∧ q.scope = p.scope := by
  rw [Block.statements, List.forall_mem_cons] at hb
  have hin := disables_enter p.scope (c := .block b) hoff
    fun s hs => Option.some.inj hs ▸ hb.1
  obtain ⟨q1, hq1, hs1⟩ := h.onStatement_off (p := p.enter _) hin hb.1
  obtain ⟨q2, hq2, hs2⟩ := h.onItems_off (p := q1) (by rw [hs1]; exact hin) hb.2
  refine ⟨q2.leave, ?_, ?_⟩
  · rw [Transform.onBlock]
    simp only [hq1, hq2, h.onBody_off, unmark_markAll, Progress.settle_self, lastMark_markAll]
  · show q2.scope.leave = p.scope
    rw [hs2, hs1]
    exact Scope.leave_enter _ _

/-- Where a transform is switched off the items of a section stay as they are. -/
theorem Freezes.onSectionItems_off (h : t.Freezes between) {items back : List SectionItem}
    (hoff : p.scope.frames.disables t.name = true)
    (hi : ∀ s ∈ itemsStatements items, s.directive? = none) :
    ∃ back', (t.onSectionItems p (items ++ back)).1 = markAll items ++ back' := by
  induction items generalizing p with
  | nil => exact ⟨_, rfl⟩
  | cons item items ih =>
    rw [itemsStatements, List.flatMap_cons, List.forall_mem_append] at hi
    cases item with
    | statement s =>
      obtain ⟨q, hstay, hscope⟩ :=
        h.onStatement_off hoff (hi.1 s (by simp [SectionItem.statements]))
      obtain ⟨back', hrest⟩ := ih (p := q) (by rw [hscope]; exact hoff) hi.2
      refine ⟨back', ?_⟩
      rw [List.cons_append, Transform.onSectionItems]
      simp only [hstay, hrest]
      rfl
    | block b =>
      obtain ⟨q, hstay, hscope⟩ := h.onBlock_off
        (p := { p with blockFollows := (items ++ back).any (·.isBlock) }) hoff hi.1
      obtain ⟨back', hrest⟩ := ih (p := q) (by rw [hscope]; exact hoff) hi.2
      refine ⟨back', ?_⟩
      rw [List.cons_append, Transform.onSectionItems]
      simp only [hstay, hrest]
      rfl

end Transform

end RobotSuite
