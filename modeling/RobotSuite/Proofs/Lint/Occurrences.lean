/-
# Occurrences of statements

What rules see of a statement besides its tokens is the kind of its section and whether an IF block
surrounds it (`Occurrence`).  A file is a tree, and a walk tells both by the containers around the
statement.  Nothing of the tree is needed, though: one pass over the groups of lines tells them too,
with no more memory than the kind of the section and the headers of the blocks that are open
(`Reading.take`, `occurrences_parseTokens`).  So a group is read alike whatever stands behind it.
-/

import RobotSuite.Proofs.Transform.Invariants
import RobotSuite.Proofs.Tree.Lossless
import RobotSuite.Proofs.Tree.SoundReading
import RobotSuite.Proofs.Walk.Scopes

namespace RobotSuite

/-! ## Statements with what surrounds them -/

/-- A statement as it stands in a file. -/
structure Occurrence where
  type : StatementType
  tokens : List Token
  /-- The kind of the section around it. -/
  kind : Option SectionKind
  /-- Whether an IF block surrounds it. -/
  inIf : Bool

namespace Scope

/-- Whether an IF block surrounds a place. -/
def inIf (sc : Scope) : Bool := (sc.nearest? (.control .ifBlock)).isSome

/-- The kind of the section around a place. -/
def kind? (sc : Scope) : Option SectionKind := sc.section?.map (·.kind)

end Scope

/-- A statement that a walk meets in a scope. -/
def Occurrence.ofMeeting (m : Statement × Scope) : Occurrence :=
  ⟨m.1.type, m.1.tokens, m.2.kind?, m.2.inIf⟩

/-- A statement in a section of a kind, with whether an IF block surrounds it. -/
def Occurrence.inSection (kind : SectionKind) (p : Statement × Bool) : Occurrence :=
  ⟨p.1.type, p.1.tokens, some kind, p.2⟩

/-- The statements of a file as they stand in it. -/
def File.occurrences (f : File) : List Occurrence := f.meetings.map .ofMeeting

/-! ## Statements of a tree -/

mutual

/-- The statements of a body item, each with whether an IF block surrounds it. -/
def BodyItem.flagged (inIf : Bool) : BodyItem → List (Statement × Bool)
  | .statement s => [(s, inIf)]
  | .control c => c.flagged inIf

/-- The statements of a control block, each with whether an IF block surrounds it. -/
def ControlBlock.flagged (inIf : Bool) : ControlBlock → List (Statement × Bool)
  | ⟨type, _, header, body, branches, close, _⟩ =>
    let here := inIf || type = .ifBlock
    (header, here) :: (bodyFlagged here body ++ branchesFlagged here branches ++
      close.toList.map fun s => (s, here))

/-- The statements of a body, each with whether an IF block surrounds it. -/
def bodyFlagged (inIf : Bool) : List BodyItem → List (Statement × Bool)
  | [] => []
  | item :: items => item.flagged inIf ++ bodyFlagged inIf items

/-- The statements of some branches, each with whether an IF block surrounds it. -/
def branchesFlagged (inIf : Bool) : List Branch → List (Statement × Bool)
  | [] => []
  | ⟨_, header, body, _⟩ :: bs => (header, inIf) :: bodyFlagged inIf body ++ branchesFlagged inIf bs

end

/-- Bodies are flagged item by item. -/
theorem bodyFlagged_append (inIf : Bool) (a b : List BodyItem) :
    bodyFlagged inIf (a ++ b) = bodyFlagged inIf a ++ bodyFlagged inIf b := by
  induction a with
  | nil => rfl
  | cons i a ih => simp [bodyFlagged, ih]

/-- A body of one item is flagged as the item. -/
theorem bodyFlagged_singleton (inIf : Bool) (item : BodyItem) :
    bodyFlagged inIf [item] = item.flagged inIf := by
  simp [bodyFlagged]

/-- The statements of a section item, each with whether an IF block surrounds it. -/
def SectionItem.flagged : SectionItem → List (Statement × Bool)
  | .statement s => [(s, false)]
  | .block b => (b.header, false) :: bodyFlagged false b.body

/-! ## What a walk sees of them -/

/-- Steps that leave all containers that they enter. -/
def Balanced (steps : List Step) : Prop :=
  ∀ sc : Scope, (sc.behind steps).ancestors = sc.ancestors

namespace Balanced
variable {a b steps : List Step}

/-- No step is balanced. -/
theorem nil : Balanced [] := fun _ => rfl

/-- Meeting a statement is balanced. -/
theorem meet (s : Statement) : Balanced [.meet s] := fun sc => sc.note_ancestors s

/-- Balanced walks may follow each other. -/
theorem append (ha : Balanced a) (hb : Balanced b) : Balanced (a ++ b) := by
  intro sc
  rw [Scope.behind_append, hb, ha]

/-- A statement may be met in front of a balanced walk. -/
theorem cons (s : Statement) (h : Balanced steps) : Balanced (.meet s :: steps) :=
  (meet s).append h

/-- A container around a balanced walk is balanced. -/
theorem enclose (c : Container) (h : Balanced steps) :
    Balanced (.enter c :: (steps ++ [.leave c])) := by
  intro sc
  rw [Scope.behind_cons, Scope.behind_append]
  show List.tail (Scope.ancestors _) = _
  rw [h]
  rfl

/-- Meeting statements one after the other is balanced. -/
theorem map_meet (ss : List Statement) : Balanced (ss.map .meet) := by
  induction ss with
  | nil => exact nil
  | cons s ss ih => exact cons s ih

/-- Balanced parts make a balanced walk. -/
theorem flatMap {α : Type} {f : α → List Step} {xs : List α} (h : ∀ x ∈ xs, Balanced (f x)) :
    Balanced (xs.flatMap f) := by
  induction xs with
  | nil => exact nil
  | cons x xs ih =>
    obtain ⟨hx, hxs⟩ := List.forall_mem_cons.1 h
    exact hx.append (ih hxs)

end Balanced

mutual

/-- The walk over a block is balanced. -/
theorem balanced_control : ∀ c : ControlBlock, Balanced c.steps
  | ⟨_, _, _, body, branches, close, _⟩ => by
    rw [ControlBlock.steps]
    have h := (balanced_body body).append (balanced_branches branches)
    exact .enclose _ (.cons _ (h.append (.map_meet close.toList)))

/-- The walk over a body is balanced. -/
theorem balanced_body : ∀ items : List BodyItem, Balanced (bodySteps items)
  | [] => .nil
  | .statement s :: items => by
    rw [bodySteps, BodyItem.steps]
    exact .cons s (balanced_body items)
  | .control c :: items => by
    rw [bodySteps, BodyItem.steps]
    exact (balanced_control c).append (balanced_body items)

/-- The walk over a branch is balanced. -/
theorem balanced_branch : ∀ b : Branch, Balanced b.steps
  | ⟨_, _, body, _⟩ => by
    rw [Branch.steps]
    exact .enclose _ (.cons _ (balanced_body body))

/-- The walk over the branches is balanced. -/
theorem balanced_branches : ∀ bs : List Branch, Balanced (branchesSteps bs)
  | [] => .nil
  | b :: bs => by
    rw [branchesSteps]
    exact (balanced_branch b).append (balanced_branches bs)

end

namespace Scope
variable (sc : Scope)

/-- The kind of section is told by the ancestors. -/
theorem kind?_congr {a b : Scope} (h : a.ancestors = b.ancestors) : a.kind? = b.kind? := by
  rw [kind?, kind?, section?, section?, h]

/-- Standing in an `IF` is told by the ancestors. -/
theorem inIf_congr {a b : Scope} (h : a.ancestors = b.ancestors) : a.inIf = b.inIf := by
  rw [inIf, inIf, nearest?, nearest?, h]

/-- Meeting a statement stays in the kind of section. -/
@[simp] theorem kind?_note (s : Statement) : (sc.note s).kind? = sc.kind? :=
  kind?_congr (sc.note_ancestors s)

/-- Meeting a statement stays in the `IF`. -/
@[simp] theorem inIf_note (s : Statement) : (sc.note s).inIf = sc.inIf :=
  inIf_congr (sc.note_ancestors s)

/-- A block stays in the kind of section. -/
@[simp] theorem kind?_enter_control (c : ControlBlock) :
    (sc.enter (.control c)).kind? = sc.kind? := rfl

/-- A branch stays in the kind of section. -/
@[simp] theorem kind?_enter_branch (b : Branch) : (sc.enter (.branch b)).kind? = sc.kind? := rfl

/-- An `IF` block is the one container that puts its content in an `IF`. -/
@[simp] theorem inIf_enter_control (c : ControlBlock) :
    (sc.enter (.control c)).inIf = (sc.inIf || c.type = .ifBlock) := by
  cases h : c.type <;>
    simp [inIf, nearest?, enter, Container.type, h]

/-- A branch stays in the `IF` of its block. -/
@[simp] theorem inIf_enter_branch (b : Branch) : (sc.enter (.branch b)).inIf = sc.inIf := by
  simp [inIf, nearest?, enter, Container.type]

end Scope

/-- What a walk sees of some statements in a section. -/
def seenIn (kind : Option SectionKind) (ps : List (Statement × Bool)) : List Occurrence :=
  ps.map fun p => ⟨p.1.type, p.1.tokens, kind, p.2⟩

/-- What is seen of two lists comes one after the other. -/
@[simp] theorem seenIn_append (kind : Option SectionKind) (a b : List (Statement × Bool)) :
    seenIn kind (a ++ b) = seenIn kind a ++ seenIn kind b :=
  List.map_append

@[simp] theorem seenIn_cons (kind : Option SectionKind) (p : Statement × Bool)
    (ps : List (Statement × Bool)) :
    seenIn kind (p :: ps) = ⟨p.1.type, p.1.tokens, kind, p.2⟩ :: seenIn kind ps := rfl

@[simp] theorem seenIn_nil (kind : Option SectionKind) : seenIn kind [] = [] := rfl

/-- What a walk sees. -/
def seen (sc : Scope) (steps : List Step) : List Occurrence :=
  (meetings sc steps).map .ofMeeting

section
variable (sc : Scope) (steps more : List Step)

/-- What two walks see comes one after the other. -/
theorem seen_append : seen sc (steps ++ more) = seen sc steps ++ seen (sc.behind steps) more := by
  rw [seen, meetings_append, List.map_append]
  rfl

/-- What a walk sees depends on the containers around it only. -/
theorem seen_congr {a b : Scope} (h : a.ancestors = b.ancestors) : seen a steps = seen b steps := by
  induction steps generalizing a b with
  | nil => rfl
  | cons step steps ih =>
    cases step with
    | enter c =>
      refine ih ?_
      show c :: a.ancestors = c :: b.ancestors
      rw [h]
    | leave c =>
      refine ih ?_
      show a.ancestors.tail = b.ancestors.tail
      rw [h]
    | meet s =>
      have hnote : (a.note s).ancestors = (b.note s).ancestors := by
        rw [Scope.note_ancestors, Scope.note_ancestors, h]
      rw [seen, seen, meetings_meet, meetings_meet, List.map_cons, List.map_cons,
        Occurrence.ofMeeting, Occurrence.ofMeeting, Scope.kind?_congr hnote,
        Scope.inIf_congr hnote]
      exact congrArg _ (ih hnote)

/-- Meeting a statement sees it in the current scope. -/
theorem seen_meet (s : Statement) :
    seen sc (.meet s :: steps) = ⟨s.type, s.tokens, sc.kind?, sc.inIf⟩ :: seen sc steps := by
  have hrest : seen (sc.note s) steps = seen sc steps := seen_congr steps (sc.note_ancestors s)
  rw [← hrest, seen, meetings_meet, List.map_cons, Occurrence.ofMeeting, Scope.kind?_note,
    Scope.inIf_note]
  rfl

/-- Behind a balanced walk the scope is as before it. -/
theorem seen_append_of_balanced (h : Balanced steps) :
    seen sc (steps ++ more) = seen sc steps ++ seen sc more := by
  rw [seen_append, seen_congr more (h sc)]

/-- A container's content is seen from inside. -/
theorem seen_enclose (c : Container) (h : Balanced steps) :
    seen sc (.enter c :: (steps ++ [.leave c])) = seen (sc.enter c) steps := by
  have hrest : seen (sc.enter c) [.leave c] = [] := rfl
  show seen (sc.enter c) (steps ++ [.leave c]) = _
  rw [seen_append_of_balanced _ _ _ h, hrest, List.append_nil]

/-- Statements met one after the other are seen in one scope. -/
theorem seen_map_meet (ss : List Statement) :
    seen sc (ss.map .meet) = seenIn sc.kind? (ss.map fun s => (s, sc.inIf)) := by
  induction ss with
  | nil => rfl
  | cons s ss ih =>
    rw [List.map_cons, seen_meet, ih]
    rfl

end

mutual

/-- A block's statements are seen as they are flagged. -/
theorem seen_control : ∀ (c : ControlBlock) (sc : Scope),
    seen sc c.markOwned.steps = seenIn sc.kind? (c.flagged sc.inIf)
  | ⟨_, _, _, body, branches, close, _⟩, sc => by
    have hb := balanced_body (markOwnedBody body)
    have hbs := balanced_branches (markOwnedBranches branches)
    have hinner := hb.append hbs
    have hall := hinner.append (.map_meet close.toList)
    rw [ControlBlock.markOwned, ControlBlock.steps, ControlBlock.flagged]
    show seen sc (.enter _ :: (.meet _ :: (_ ++ _) ++ [.leave _])) = _
    rw [seen_enclose _ _ _ (.cons _ hall), seen_meet, seen_append_of_balanced _ _ _ hinner,
      seen_append_of_balanced _ _ _ hb, seen_body body, seen_branches branches, seen_map_meet]
    simp

/-- A body's statements are seen as they are flagged. -/
theorem seen_body : ∀ (items : List BodyItem) (sc : Scope),
    seen sc (bodySteps (markOwnedBody items)) = seenIn sc.kind? (bodyFlagged sc.inIf items)
  | [], _ => rfl
  | .statement s :: items, sc => by
    rw [markOwnedBody, bodySteps, BodyItem.steps, List.singleton_append, seen_meet,
      seen_body items, bodyFlagged, BodyItem.flagged, List.singleton_append, seenIn_cons,
      Statement.markOwned_tokens, Statement.markOwned_type]
  | .control c :: items, sc => by
    rw [markOwnedBody, bodySteps, BodyItem.steps,
      seen_append_of_balanced _ _ _ (balanced_control _), seen_control c, seen_body items,
      bodyFlagged, BodyItem.flagged, seenIn_append]

/-- The statements of branches are seen as they are flagged. -/
theorem seen_branches : ∀ (bs : List Branch) (sc : Scope),
    seen sc (branchesSteps (markOwnedBranches bs)) =
      seenIn sc.kind? (branchesFlagged sc.inIf bs)
  | [], _ => rfl
  | ⟨span, header, body, label⟩ :: bs, sc => by
    have hb := balanced_body (markOwnedBody body)
    have hmarked := Balanced.cons header hb
    have hall := hmarked.enclose (.branch ⟨span, header, markOwnedBody body, label⟩)
    rw [markOwnedBranches, branchesSteps, Branch.steps, branchesFlagged]
    show seen sc ((.enter _ :: (.meet _ :: _ ++ [.leave _])) ++ _) = _
    rw [seen_append_of_balanced _ _ _ hall, seen_enclose _ _ _ hmarked, seen_meet,
      seen_body body, seen_branches bs]
    simp

end

/-- What a walk sees of the items of a section. -/
theorem seen_items (items : List SectionItem) {sc : Scope} (hc : sc.inIf = false) :
    seen sc ((markOwnedItems items).flatMap SectionItem.steps) =
      seenIn sc.kind? (items.flatMap SectionItem.flagged) := by
  induction items with
  | nil => rfl
  | cons item items ih =>
    cases item with
    | statement s =>
      rw [markOwnedItems, List.flatMap_cons, List.flatMap_cons, SectionItem.steps,
        List.singleton_append, seen_meet, ih, hc]
      simp [SectionItem.flagged, Statement.markOwned_type]
    | block b =>
      have hb := Balanced.cons b.header (balanced_body (markOwnedBody b.body))
      have hall := hb.enclose (.block { b with body := markOwnedBody b.body })
      have hin : (sc.enter (.block { b with body := markOwnedBody b.body })).inIf = false := by
        rw [← hc]
        simp [Scope.inIf, Scope.nearest?, Scope.enter, Container.type]
      have hkind : (sc.enter (.block { b with body := markOwnedBody b.body })).kind? = sc.kind? :=
        rfl
      rw [markOwnedItems, List.flatMap_cons, List.flatMap_cons, SectionItem.steps, Block.steps]
      show seen sc ((.enter _ :: (.meet _ :: _ ++ [.leave _])) ++ _) = _
      rw [seen_append_of_balanced _ _ _ hall, seen_enclose _ _ _ hb, seen_meet, seen_body, ih,
        hin, hkind]
      simp [SectionItem.flagged]

/-- The walk over an item of a section is balanced. -/
theorem balanced_item : ∀ item : SectionItem, Balanced item.steps
  | .statement s => .meet s
  | .block b => (Balanced.cons b.header (balanced_body b.body)).enclose (.block b)

/-- The walk over the items of a section is balanced. -/
theorem balanced_items (items : List SectionItem) :
    Balanced (items.flatMap SectionItem.steps) :=
  .flatMap fun item _ => balanced_item item

/-- The statements of a section as they stand in it, when its comments are not marked yet. -/
def Section.seen (s : Section) : List Occurrence :=
  seenIn (some s.kind) (s.header.toList.map (fun h => (h, false)) ++
    s.body.flatMap SectionItem.flagged)

/-- What a walk sees of a section. -/
theorem seen_section (s : Section) {sc : Scope} (hc : sc.inIf = false) :
    RobotSuite.seen sc ({ s with body := markOwnedItems s.body } : Section).steps = s.seen := by
  let marked : Section := { s with body := markOwnedItems s.body }
  have hin : (sc.enter (.sect marked)).inIf = false := by
    rw [← hc]
    simp [Scope.inIf, Scope.nearest?, Scope.enter, Container.type]
  have hkind : (sc.enter (.sect marked)).kind? = some s.kind := rfl
  have hh : Balanced (s.header.toList.map .meet) := .map_meet _
  have hall := hh.append (balanced_items (markOwnedItems s.body))
  rw [Section.steps]
  show RobotSuite.seen sc (.enter (.sect marked) :: (_ ++ [.leave _])) = _
  rw [seen_enclose _ _ _ hall, seen_append_of_balanced _ _ _ hh, seen_map_meet,
    seen_items s.body hin, hin, hkind, Section.seen, seenIn_append]

/-- The walk over a section is balanced. -/
theorem balanced_section (s : Section) : Balanced s.steps :=
  ((Balanced.map_meet s.header.toList).append (balanced_items s.body)).enclose (.sect s)

/-- The walk over sections is balanced. -/
theorem balanced_sections (ss : List Section) : Balanced (ss.flatMap Section.steps) :=
  .flatMap fun s _ => balanced_section s

/-- What a walk sees of a file, section by section. -/
theorem occurrences_sections (lines : List (List Token)) :
    (parseTokens lines).occurrences =
      (splitParts isHeaderLine ((groupLines lines).map List.flatten)).flatMap fun p =>
        (buildSection p.1 p.2).1.seen := by
  have hall := balanced_sections (parseTokens lines).sections
  show seen {} (.enter (.file _) :: (_ ++ [.leave _])) = _
  rw [seen_enclose _ _ _ hall, parseTokens_sections]
  generalize hsc : Scope.enter {} (.file (parseTokens lines)) = sc
  have hin : sc.inIf = false := by rw [← hsc]; rfl
  clear hsc hall
  induction splitParts isHeaderLine ((groupLines lines).map List.flatten) with
  | nil => rfl
  | cons p parts ih =>
    rw [List.map_cons, List.flatMap_cons, List.flatMap_cons,
      seen_append_of_balanced _ _ _ (balanced_section (markedSection p)), ih]
    exact congrArg (· ++ _) (seen_section (buildSection p.1 p.2).1 hin)

/-! ## Nesting -/

/-- Whether a statement stands in an IF block, or heads one, when some blocks are open in front of
it. -/
def standsInIf (opened : List Statement) (s : Statement) : Bool :=
  s.type = .ifHeader || opened.any (·.type = .ifHeader)

/-- A statement of a body as it is kept among the blocks that are open, and those that are open
behind it. -/
def placeInBody (opened : List Statement) (s : Statement) :
    (Statement × Bool) × List Statement :=
  ((keep opened s, standsInIf opened s), openStep opened s)

/-- What a machine gives for each element of a list. -/
def runScan {σ α β : Type} (step : σ → α → β × σ) (state : σ) : List α → List β
  | [] => []
  | x :: xs => (step state x).1 :: runScan step (step state x).2 xs

namespace OpenBlock

/-- The statements of an open block, each with whether an IF block surrounds it. -/
def flagged (inIf : Bool) (b : OpenBlock) : List (Statement × Bool) :=
  (b.header, inIf) ::
    (bodyFlagged inIf b.body ++ b.branches.flatMap fun p => (p.1, inIf) :: bodyFlagged inIf p.2)

/-- A pushed item is flagged last. -/
theorem flagged_push (inIf : Bool) (b : OpenBlock) (item : BodyItem) :
    (b.push item).flagged inIf = b.flagged inIf ++ item.flagged inIf := by
  rcases b.push_eq item with ⟨hb, h⟩ | ⟨front, last, items, hb, h⟩
  · simp [h, flagged, hb, bodyFlagged_append, bodyFlagged_singleton]
  · simp [h, flagged, hb, bodyFlagged_append, bodyFlagged_singleton]

/-- A branch header is flagged last. -/
theorem flagged_branch (inIf : Bool) (b : OpenBlock) (s : Statement) :
    (b.branch s).flagged inIf = b.flagged inIf ++ [(s, inIf)] := by
  simp [branch, flagged, bodyFlagged]

/-- Closed branches are flagged header by header. -/
theorem branchesFlagged_map_closeBranch (inIf : Bool) (bs : List (Statement × List BodyItem)) :
    branchesFlagged inIf (bs.map fun p => closeBranch p.1 p.2) =
      bs.flatMap fun p => (p.1, inIf) :: bodyFlagged inIf p.2 := by
  induction bs with
  | nil => rfl
  | cons b bs ih => simp [branchesFlagged, closeBranch, ← ih]

/-- A closed block is flagged as the open one, in the `IF` it opens. -/
theorem flagged_close (inIf : Bool) (b : OpenBlock) (blockEnd : Option Statement) :
    (b.close blockEnd).flagged inIf =
      b.flagged (inIf || b.type = .ifBlock) ++
        blockEnd.toList.map fun s => (s, inIf || b.type = .ifBlock) := by
  simp [close, ControlBlock.flagged, flagged, branchesFlagged_map_closeBranch]

end OpenBlock

namespace Nesting

/-- Whether one of some open blocks is an IF block. -/
def stackInIf (stack : List OpenBlock) : Bool := stack.any (·.type = .ifBlock)

/-- The statements of some open blocks, each with whether an IF block surrounds it. -/
def stackFlagged : List OpenBlock → List (Statement × Bool)
  | [] => []
  | b :: rest => stackFlagged rest ++ b.flagged (stackInIf (b :: rest))

/-- The statements nested so far, each with whether an IF block surrounds it. -/
def flagged (n : Nesting) : List (Statement × Bool) :=
  bodyFlagged false n.root ++ stackFlagged n.stack

/-- An open `IF` anywhere on the stack counts. -/
theorem stackInIf_cons (b : OpenBlock) (rest : List OpenBlock) :
    stackInIf (b :: rest) = (stackInIf rest || b.type = .ifBlock) := by
  rw [stackInIf, List.any_cons, Bool.or_comm]
  rfl

/-- A pushed item is flagged last. -/
theorem flagged_push (n : Nesting) (item : BodyItem) :
    (n.push item).flagged = n.flagged ++ item.flagged (stackInIf n.stack) := by
  obtain ⟨root, stack, errors⟩ := n
  cases stack with
  | nil => simp [push, flagged, stackFlagged, stackInIf, bodyFlagged_append, bodyFlagged_singleton]
  | cons b rest =>
    have hin : stackInIf (b.push item :: rest) = stackInIf (b :: rest) := by
      simp [stackInIf]
    simp [push, flagged, stackFlagged, hin, OpenBlock.flagged_push]

/-- The headers of the open blocks tell whether an IF block is open. -/
theorem Tracks.stackInIf {n : Nesting} {opened : List Statement} (h : n.Tracks opened) :
    Nesting.stackInIf n.stack = opened.any (·.type = .ifHeader) := by
  obtain ⟨rfl, ht⟩ := h
  rw [Nesting.stackInIf, List.any_map, Bool.eq_iff_iff, List.any_eq_true, List.any_eq_true]
  refine exists_congr fun b => and_congr_right fun hb => ?_
  rw [Function.comp_apply, ht b hb]
  cases b.type <;> simp [ControlType.opener]

/-- A statement other than an `IF` header stands in an `IF` when one is open. -/
theorem standsInIf_of_ne {s : Statement} (h : s.type ≠ .ifHeader) (opened : List Statement) :
    standsInIf opened s = opened.any (·.type = .ifHeader) := by
  simp [standsInIf, h]

/-- What a step adds to the statements, told by the headers of the open blocks alone. -/
theorem Move.flagged {n n' : Nesting} {s : Statement} (m : Move n s n') {opened : List Statement}
    (h : n.Tracks opened) : n'.flagged = n.flagged ++ [(placeInBody opened s).1] := by
  have hin := h.stackInIf
  -- a statement that is turned away stays in its place as an error
  have hreject (d : Defect) (hm : misfit? opened s = some d) (hne : s.type ≠ .ifHeader) :
      (n.reject d (asError s d)).flagged = n.flagged ++ [(placeInBody opened s).1] := by
    have hpush := n.flagged_push (.statement (asError s d))
    rw [hin] at hpush
    refine hpush.trans ?_
    rw [placeInBody, keep, hm, standsInIf_of_ne hne]
    rfl
  cases m with
  | @opens type ht =>
    have hstands : standsInIf opened s = Nesting.stackInIf (⟨type, s, [], []⟩ :: n.stack) := by
      rw [standsInIf, Nesting.stackInIf, List.any_cons, ← hin, Nesting.stackInIf, ht]
      cases type <;> rfl
    rw [placeInBody, keep, misfit?_of_opener ht, hstands]
    simp [Nesting.flagged, stackFlagged, OpenBlock.flagged, bodyFlagged]
  | @branches b rest hs ht =>
    have hb := ControlType.isBranchHeader_of_mem ht
    have hne : s.type ≠ .ifHeader := by
      intro he
      simp [he, isBranchHeader] at hb
    have hm : misfit? opened s = none := by
      rw [misfit?_of_branch hb, (innermostTakes_iff h s.type).2 ⟨b, by simp [hs], ht⟩]
      rfl
    have hsame : Nesting.stackInIf (b.branch s :: rest) = Nesting.stackInIf (b :: rest) := rfl
    rw [placeInBody, keep, hm, standsInIf_of_ne hne, ← hin, hs]
    simp [Nesting.flagged, stackFlagged, hs, hsame, OpenBlock.flagged_branch]
  | @closes b rest hs ht =>
    have hm : misfit? opened s = none := by
      refine misfit?_of_end ht fun he => ?_
      simpa [he, hs] using h.headers
    rw [flagged_push, placeInBody, keep, hm, standsInIf_of_ne (by simp [ht]), ← hin, hs,
      BodyItem.flagged, OpenBlock.flagged_close, stackInIf_cons]
    simp [Nesting.flagged, stackFlagged, hs, stackInIf_cons]
  | joins ht =>
    have hne : s.type ≠ .ifHeader := by
      intro he
      simp [he, StatementType.isPlain, ControlType.ofHeader?] at ht
    rw [flagged_push, hin, placeInBody, keep, misfit?_of_plain ht, standsInIf_of_ne hne]
    rfl
  | strayBranch hb ht =>
    have hne : s.type ≠ .ifHeader := by
      intro he
      simp [he, isBranchHeader] at hb
    rw [rejectBranch_eq n hb]
    exact hreject _ (misfit?_of_strayBranch h hb ht) hne
  | strayEnd he hs =>
    rw [rejectEnd_eq n he]
    exact hreject _ (misfit?_of_strayEnd h he hs) (by simp [he])

/-- What a run of steps adds to the statements. -/
theorem foldl_step_flagged (ss : List Statement) {n : Nesting} {opened : List Statement}
    (h : n.Tracks opened) :
    (ss.foldl step n).flagged = n.flagged ++ runScan placeInBody opened ss := by
  induction ss generalizing n opened with
  | nil => simp [runScan]
  | cons s ss ih =>
    have hmove := move_step n s
    rw [List.foldl_cons, ih (hmove.spec h).1, hmove.flagged h, List.append_assoc]
    rfl

/-- Closing all open blocks flags what they hold. -/
theorem closeAll_flagged (root : List BodyItem) (errors : List ParseError)
    (stack : List OpenBlock) :
    bodyFlagged false (closeAll root errors stack).1 = flagged ⟨root, stack, errors⟩ := by
  fun_induction closeAll root errors stack with
  | case1 => simp [flagged, stackFlagged]
  | case2 errors b =>
    rw [bodyFlagged_append, bodyFlagged_singleton, BodyItem.flagged, OpenBlock.flagged_close]
    simp [flagged, stackFlagged, stackInIf]
  | case3 errors b outer rest ih =>
    have hin : stackInIf (outer.push (.control (b.close none)) :: rest) =
        stackInIf (outer :: rest) := by
      simp [stackInIf]
    rw [ih, flagged, flagged, stackFlagged, stackFlagged, hin, OpenBlock.flagged_push,
      BodyItem.flagged, OpenBlock.flagged_close, ← stackInIf_cons]
    simp [stackFlagged]

end Nesting

/-- **What surrounds the statements of a body is told by the headers in front of them.** -/
theorem bodyFlagged_nest (ss : List Statement) :
    bodyFlagged false (nest ss).1 = runScan placeInBody [] ss := by
  rw [nest, Nesting.closeAll_flagged]
  have h := Nesting.foldl_step_flagged ss Nesting.tracks_start
  simpa [Nesting.flagged, Nesting.stackFlagged, bodyFlagged] using h

/-! ## Machines -/

section
variable {σ α β : Type} {step : σ → α → β × σ} {opens : α → Bool}

/-- Two stretches are scanned one after the other. -/
theorem runScan_append (state : σ) (xs ys : List α) :
    ∃ next, runScan step state (xs ++ ys) = runScan step state xs ++ runScan step next ys := by
  induction xs generalizing state with
  | nil => exact ⟨state, rfl⟩
  | cons x xs ih =>
    obtain ⟨next, h⟩ := ih (step state x).2
    exact ⟨next, congrArg _ h⟩

/-- A machine that starts anew at each element that opens a part runs through the parts one by
one. -/
theorem runScan_splitParts (h : ∀ s t x, opens x = true → step s x = step t x) (state : σ)
    (xs : List α) :
    runScan step state xs =
      (splitParts opens xs).flatMap fun p => runScan step state (p.1.toList ++ p.2) := by
  have key (parts : List (Option α × List α))
      (hp : ∀ p ∈ parts.tail, ∃ x, p.1 = some x ∧ opens x = true) :
      runScan step state (parts.flatMap fun p => p.1.toList ++ p.2) =
        parts.flatMap fun p => runScan step state (p.1.toList ++ p.2) := by
    induction parts with
    | nil => rfl
    | cons p parts ih =>
      have htail : ∀ q ∈ parts, ∃ x, q.1 = some x ∧ opens x = true := hp
      obtain ⟨next, happ⟩ := @runScan_append σ α β step state (p.1.toList ++ p.2)
        (parts.flatMap fun p => p.1.toList ++ p.2)
      -- the next part is run through alike from every state
      have hnext : runScan step next (parts.flatMap fun p => p.1.toList ++ p.2) =
          runScan step state (parts.flatMap fun p => p.1.toList ++ p.2) := by
        cases parts with
        | nil => rfl
        | cons q parts =>
          obtain ⟨x, hx, hopens⟩ := htail q List.mem_cons_self
          rw [List.flatMap_cons, hx, Option.toList_some, List.cons_append, List.cons_append,
            runScan, runScan, h next state x hopens]
      rw [List.flatMap_cons, List.flatMap_cons, happ, hnext,
        ih fun q hq => htail q (List.mem_of_mem_tail hq)]
  have hparts : ∀ p ∈ (splitParts opens xs).tail, ∃ x, p.1 = some x ∧ opens x = true := by
    intro p hp
    obtain ⟨x, hx⟩ := Option.ne_none_iff_exists'.1 (splitParts_tail p hp)
    exact ⟨x, hx, ((splitParts_spec p (List.mem_of_mem_tail hp)).1 x hx).1⟩
  have := key _ hparts
  rwa [flatMap_splitParts] at this

end

/-! ## Reading from left to right -/

/-- What a section of test cases or keywords makes of its next statement.  The state holds the
headers of the open control blocks, once the first block of the section has been begun. -/
def placeInSection (owner : BlockType) (opened : Option (List Statement)) (s : Statement) :
    (Statement × Bool) × Option (List Statement) :=
  if isBlockName s then ((s, false), some [])
  else match opened with
    | none => (((leadingItem owner s).1.leading, false), none)
    | some opened => ((placeInBody opened s).1, some (placeInBody opened s).2)

/-- What has been read in front of a group of lines. -/
structure Reading where
  /-- The kind of the section. -/
  kind : SectionKind := .comments
  /-- The headers of the open control blocks, once a block has been begun. -/
  opened : Option (List Statement) := none

namespace Reading

/-- What a header makes of the tokens of its line. -/
def header (g : List Token) : Occurrence × Reading :=
  let kind := (readHeader (.create .sectionHeader g)).1
  (⟨.sectionHeader, g, some kind, false⟩, { kind })

/-- Read the tokens of the next group of lines. -/
def take (r : Reading) (g : List Token) : Occurrence × Reading :=
  if isHeaderLine g then header g
  else
    let s := (classify r.kind g).1
    match r.kind.blockType? with
    | none => (.inSection r.kind (s, false), r)
    | some owner =>
      let (placed, opened) := placeInSection owner r.opened s
      (.inSection r.kind placed, { r with opened })

/-- Groups of a section of test cases or keywords are read as its statements are placed. -/
theorem runScan_take_of_owner {kind : SectionKind} {owner : BlockType}
    (ho : kind.blockType? = some owner) {groups : List (List Token)}
    (hg : ∀ g ∈ groups, isHeaderLine g = false) (opened : Option (List Statement)) :
    runScan take ⟨kind, opened⟩ groups =
      (runScan (placeInSection owner) opened (groups.map fun g => (classify kind g).1)).map
        (.inSection kind) := by
  induction groups generalizing opened with
  | nil => rfl
  | cons g groups ih =>
    obtain ⟨hhead, htail⟩ := List.forall_mem_cons.1 hg
    rw [List.map_cons, runScan, runScan, List.map_cons, ← ih htail]
    simp only [take, hhead, ho, Bool.false_eq_true, if_false]

/-- Groups of another section are read one by one. -/
theorem runScan_take_of_none {kind : SectionKind} (ho : kind.blockType? = none)
    {groups : List (List Token)} (hg : ∀ g ∈ groups, isHeaderLine g = false)
    (opened : Option (List Statement)) :
    runScan take ⟨kind, opened⟩ groups =
      groups.map fun g => .inSection kind ((classify kind g).1, false) := by
  induction groups with
  | nil => rfl
  | cons g groups ih =>
    obtain ⟨hhead, htail⟩ := List.forall_mem_cons.1 hg
    have htake : take ⟨kind, opened⟩ g =
        (.inSection kind ((classify kind g).1, false), ⟨kind, opened⟩) := by
      simp only [take, hhead, ho, Bool.false_eq_true, if_false]
    rw [runScan, List.map_cons, htake, ih htail]

end Reading

section
variable {owner : BlockType} {ss : List Statement}

/-- Statements in front of the first block of a section. -/
theorem runScan_leading (hs : ∀ s ∈ ss, isBlockName s = false) :
    runScan (placeInSection owner) none ss =
      (ss.map fun s => (leadingItem owner s).1).flatMap SectionItem.flagged := by
  induction ss with
  | nil => rfl
  | cons s ss ih =>
    obtain ⟨hhead, htail⟩ := List.forall_mem_cons.1 hs
    have hplace : placeInSection owner none s =
        (((leadingItem owner s).1.leading, false), none) := by
      simp only [placeInSection, hhead, Bool.false_eq_true, if_false]
    have hitem : (leadingItem owner s).1.flagged = [((leadingItem owner s).1.leading, false)] := by
      unfold leadingItem
      split <;> rfl
    rw [runScan, hplace, List.map_cons, List.flatMap_cons, hitem, ih htail]
    rfl

/-- Statements behind the name of a block. -/
theorem runScan_body (hs : ∀ s ∈ ss, isBlockName s = false) (opened : List Statement) :
    runScan (placeInSection owner) (some opened) ss = runScan placeInBody opened ss := by
  induction ss generalizing opened with
  | nil => rfl
  | cons s ss ih =>
    obtain ⟨hhead, htail⟩ := List.forall_mem_cons.1 hs
    have hplace : placeInSection owner (some opened) s =
        ((placeInBody opened s).1, some (placeInBody opened s).2) := by
      simp only [placeInSection, hhead, Bool.false_eq_true, if_false]
    rw [runScan, runScan, hplace, ih htail]

/-- The statements of a part of a section as they are placed. -/
theorem flagged_blockPart {p : Option Statement × List Statement}
    (hh : ∀ h ∈ p.1, isBlockName h = true) (hs : ∀ s ∈ p.2, isBlockName s = false) :
    (blockPart owner p).1.flatMap SectionItem.flagged =
      runScan (placeInSection owner) none (p.1.toList ++ p.2) := by
  obtain ⟨header, ss⟩ := p
  cases header with
  | none =>
    rw [Option.toList_none, List.nil_append, runScan_leading hs, blockPart, List.map_map]
    rfl
  | some header =>
    have hplace : placeInSection owner none header = ((header, false), some []) := by
      simp only [placeInSection, hh header rfl, if_true]
    rw [Option.toList_some, List.singleton_append, runScan, hplace, runScan_body hs,
      ← bodyFlagged_nest]
    simp [blockPart, buildBlock, SectionItem.flagged]

/-- The statements of a section as they are placed. -/
theorem flagged_buildBlocks (owner : BlockType) (ss : List Statement) :
    (buildBlocks owner ss).1.flatMap SectionItem.flagged =
      runScan (placeInSection owner) none ss := by
  have hanew : ∀ a b s, isBlockName s = true →
      placeInSection owner a s = placeInSection owner b s := by
    intro a b s hs
    simp only [placeInSection, hs, if_true]
  have hspec := @splitParts_spec Statement isBlockName ss
  rw [runScan_splitParts hanew, buildBlocks]
  dsimp only
  generalize splitParts isBlockName ss = parts at hspec ⊢
  induction parts with
  | nil => rfl
  | cons p parts ih =>
    obtain ⟨hp, hparts⟩ := List.forall_mem_cons.1 hspec
    rw [List.map_cons, List.flatMap_cons, List.flatMap_cons, List.flatMap_append, ih hparts,
      flagged_blockPart (fun h hh => (hp.1 h hh).1) fun s hs => (hp.2 s hs).1]

end

/-- Plain statements of a section stand in no `IF`. -/
theorem flagged_map_statement (ss : List Statement) :
    (ss.map SectionItem.statement).flatMap SectionItem.flagged = ss.map fun s => (s, false) := by
  induction ss with
  | nil => rfl
  | cons s ss ih =>
    rw [List.map_cons, List.flatMap_cons, ih]
    rfl

/-- **The items of a section are read from left to right.** -/
theorem seenIn_buildItems (kind : SectionKind) {groups : List (List Token)}
    (hg : ∀ g ∈ groups, isHeaderLine g = false) :
    seenIn (some kind) ((buildItems kind groups).1.flatMap SectionItem.flagged) =
      runScan Reading.take { kind } groups := by
  cases ho : kind.blockType? with
  | none =>
    have hitems : (buildItems kind groups).1 =
        (groups.map fun g => (classify kind g).1).map .statement := by
      simp only [buildItems, ho, List.map_map, Function.comp_def]
    rw [Reading.runScan_take_of_none ho hg, hitems, flagged_map_statement, seenIn, List.map_map,
      List.map_map]
    rfl
  | some owner =>
    have hitems : (buildItems kind groups).1 =
        (buildBlocks owner (groups.map fun g => (classify kind g).1)).1 := by
      simp only [buildItems, ho, List.map_map, Function.comp_def]
    rw [Reading.runScan_take_of_owner ho hg, hitems, flagged_buildBlocks]
    rfl

/-- The section is of the kind its header names. -/
theorem kind_buildSection (h : List Token) (groups : List (List Token)) :
    (buildSection (some h) groups).1.kind = (readHeader (.create .sectionHeader h)).1 := by
  simp only [buildSection, Option.map_some, Option.getD_some]

/-- A section is read from left to right. -/
theorem seen_buildSection {p : Option (List Token) × List (List Token)}
    (hh : ∀ h ∈ p.1, isHeaderLine h = true) (hg : ∀ g ∈ p.2, isHeaderLine g = false) :
    (buildSection p.1 p.2).1.seen = runScan Reading.take {} (p.1.toList ++ p.2) := by
  obtain ⟨header, groups⟩ := p
  cases header with
  | none => exact seenIn_buildItems .comments hg
  | some h =>
    have htake : Reading.take {} h = Reading.header h := by
      simp only [Reading.take, hh h rfl, if_true]
    obtain ⟨hheader, hbody, -⟩ := buildSection_spec (some h) groups
    rw [Option.toList_some, List.singleton_append, runScan, htake, Section.seen, seenIn_append,
      hheader, hbody, kind_buildSection, seenIn_buildItems _ hg, Reading.header]
    simp [seenIn, Statement.create]

/-- **A file is read from left to right.**  What a walk through the model of some lines sees of
their statements is what one pass over the groups of lines tells. -/
theorem occurrences_parseTokens (lines : List (List Token)) :
    (parseTokens lines).occurrences =
      runScan Reading.take {} ((groupLines lines).map List.flatten) := by
  have hanew : ∀ r s g, isHeaderLine g = true → Reading.take r g = Reading.take s g := by
    intro r s g hg
    rw [Reading.take, Reading.take, if_pos hg, if_pos hg]
  have hspec := @splitParts_spec (List Token) isHeaderLine ((groupLines lines).map List.flatten)
  rw [occurrences_sections, runScan_splitParts hanew]
  generalize splitParts isHeaderLine ((groupLines lines).map List.flatten) = parts at hspec ⊢
  induction parts with
  | nil => rfl
  | cons p parts ih =>
    obtain ⟨hp, hparts⟩ := List.forall_mem_cons.1 hspec
    rw [List.flatMap_cons, List.flatMap_cons, ih hparts,
      seen_buildSection (fun h hh => (hp.1 h hh).1) fun g hg => (hp.2 g hg).1]

end RobotSuite
