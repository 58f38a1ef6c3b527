/-
# Transforms of whole sections

Some transforms have nothing to say about statements and bodies (`Transform.LeavesBodies`).  The
walk of such a transform comes through all items as they are, in the scopes in which they are read
(`Progress.Past`).  So each section keeps all but the items that are put in their place
(`Transform.LeavesBodies.onSections`), and where sections are left alone too, nothing counts but the
decision about the whole file (`Transform.LeavesBodies.run_sections`).

A directive holds for the container in which it stands, so a section with a header makes no
difference to what follows it (`Scope.behind_headed`).
-/

import RobotSuite.Proofs.Transform.CheckedEdits
import RobotSuite.Proofs.Transform.FrozenItems
import RobotSuite.Proofs.Walk.Scopes

namespace RobotSuite

/-- A walk that has come past some steps without a replacement. -/
structure Progress.Past (p : Progress) (steps : List Step) (q : Progress) : Prop where
  scope : q.scope = p.scope.behind steps
  broken : q.broken = p.broken
  refused : q.refused = p.refused

namespace Progress
variable {p p' q r : Progress} {a b : List Step}

theorem Past.nil (p : Progress) : p.Past [] p := ⟨rfl, rfl, rfl⟩

/-- Passing two stretches passes both. -/
theorem Past.append (h : p.Past a q) (h' : q.Past b r) : p.Past (a ++ b) r := by
  refine ⟨?_, h'.broken.trans h.broken, h'.refused.trans h.refused⟩
  rw [h'.scope, h.scope, Scope.behind_append]

/-- The walk through a container. -/
theorem Past.around {c : Container} (h : (p.enter c).Past a q) :
    p.Past (.enter c :: (a ++ [.leave c])) q.leave := by
  refine ⟨?_, h.broken, h.refused⟩
  rw [Scope.behind_cons, Scope.behind_append]
  exact congrArg Scope.leave h.scope

/-- Whether further blocks or sections follow makes no difference. -/
theorem Past.congr (h : p'.Past a q) (hs : p'.scope = p.scope) (hb : p'.broken = p.broken)
    (hr : p'.refused = p.refused) : p.Past a q :=
  ⟨by rw [h.scope, hs], h.broken.trans hb, h.refused.trans hr⟩

end Progress

namespace Transform
variable {t : Transform}

/-- A transform that leaves statements and bodies as they are. -/
structure LeavesBodies (t : Transform) : Prop where
  statement : t.statement = fun _ _ _ => .keep
  body : t.leaveBody = fun _ _ _ => .keep

section
variable {p : Progress}

/-- A statement is met and left as it is. -/
theorem LeavesBodies.onStatement (h : t.LeavesBodies) (p : Progress) (s : Statement) :
    (t.onStatement p s).1.1 = s ∧ p.Past [.meet s] (t.onStatement p s).2 := by
  have hoff (q : Progress) (off : Bool) (hq : p.Past [.meet s] q) :
      p.Past [.meet s] (if off then q.switchOff s else q) := by
    unfold Progress.switchOff
    split
    · split <;> exact ⟨hq.scope, hq.broken, hq.refused⟩
    · exact hq
  rw [Transform.onStatement, h.statement]
  dsimp only
  split <;> exact ⟨rfl, hoff _ _ ⟨rfl, rfl, rfl⟩⟩

/-- A closing statement is met and left as it is. -/
theorem LeavesBodies.onStatement? (h : t.LeavesBodies) (p : Progress) (s : Option Statement) :
    (t.onStatement? p s).1.map (·.1) = s ∧
      p.Past (s.toList.map .meet) (t.onStatement? p s).2 := by
  cases s with
  | none => exact ⟨rfl, .nil p⟩
  | some s =>
    obtain ⟨hsame, hpast⟩ := h.onStatement p s
    exact ⟨congrArg some hsame, hpast⟩

/-- Leaving a body leaves it as it is. -/
theorem LeavesBodies.onBody (h : t.LeavesBodies) (p : Progress) (header : Bool)
    (items : List (Marked BodyItem)) :
    unmark (t.onBody p header items).1 = unmark items ∧ (t.onBody p header items).2 = p := by
  rw [Transform.onBody, h.body]
  split
  · exact ⟨rfl, rfl⟩
  · exact ⟨Progress.unmark_remark _ _ _, rfl⟩

mutual

/-- An item is passed and left as it is. -/
theorem LeavesBodies.onItem (h : t.LeavesBodies) (p : Progress) : ∀ item : BodyItem,
    (t.onItem p item).1.1 = item ∧ p.Past item.steps (t.onItem p item).2
  | .statement s => by
    obtain ⟨hsame, hpast⟩ := h.onStatement p s
    rw [Transform.onItem, BodyItem.steps]
    exact ⟨congrArg BodyItem.statement hsame, hpast⟩
  | .control c => by
    obtain ⟨hsame, hpast⟩ := h.onControl p c
    rw [Transform.onItem, BodyItem.steps]
    exact ⟨congrArg BodyItem.control hsame, hpast⟩

/-- The same for a control block. -/
theorem LeavesBodies.onControl (h : t.LeavesBodies) (p : Progress) : ∀ c : ControlBlock,
    (t.onControl p c).1.1 = c ∧ p.Past c.steps (t.onControl p c).2
  | ⟨type, span, header, body, branches, close, label⟩ => by
    obtain ⟨hheader, hp1⟩ := h.onStatement
      (p.enter (.control ⟨type, span, header, body, branches, close, label⟩)) header
    obtain ⟨hitems, hp2⟩ := h.onItems _ body
    obtain ⟨hbranches, hp3⟩ := h.onBranches _ branches
    obtain ⟨hclose, hp4⟩ := h.onStatement? _ close
    rw [Transform.onControl, ControlBlock.steps]
    dsimp only
    rw [(h.onBody _ _ _).1, (h.onBody _ _ _).2, hitems, hbranches, hclose, hheader,
      Progress.settle_self, Progress.settle_self]
    exact ⟨rfl, (hp1.append ((hp2.append hp3).append hp4)).around⟩

/-- The same for the items of a body. -/
theorem LeavesBodies.onItems (h : t.LeavesBodies) (p : Progress) : ∀ items : List BodyItem,
    unmark (t.onItems p items).1 = items ∧ p.Past (bodySteps items) (t.onItems p items).2
  | [] => by
    rw [Transform.onItems, bodySteps]
    exact ⟨rfl, .nil p⟩
  | item :: items => by
    obtain ⟨hitem, hp1⟩ := h.onItem p item
    obtain ⟨hitems, hp2⟩ := h.onItems (t.onItem p item).2 items
    rw [Transform.onItems, bodySteps]
    exact ⟨List.cons_eq_cons.2 ⟨hitem, hitems⟩, hp1.append hp2⟩

/-- The same for a branch. -/
theorem LeavesBodies.onBranch (h : t.LeavesBodies) (p : Progress) : ∀ b : Branch,
    (t.onBranch p b).1.1 = b ∧ p.Past b.steps (t.onBranch p b).2
  | ⟨span, header, body, label⟩ => by
    obtain ⟨hheader, hp1⟩ := h.onStatement (p.enter (.branch ⟨span, header, body, label⟩)) header
    obtain ⟨hitems, hp2⟩ := h.onItems _ body
    rw [Transform.onBranch, Branch.steps]
    dsimp only
    rw [(h.onBody _ _ _).1, (h.onBody _ _ _).2, hitems, hheader, Progress.settle_self]
    exact ⟨rfl, (hp1.append hp2).around⟩

/-- The same for the branches of a block. -/
theorem LeavesBodies.onBranches (h : t.LeavesBodies) (p : Progress) : ∀ bs : List Branch,
    unmark (t.onBranches p bs).1 = bs ∧ p.Past (branchesSteps bs) (t.onBranches p bs).2
  | [] => by
    rw [Transform.onBranches, branchesSteps]
    exact ⟨rfl, .nil p⟩
  | b :: bs => by
    obtain ⟨hbranch, hp1⟩ := h.onBranch p b
    obtain ⟨hbranches, hp2⟩ := h.onBranches (t.onBranch p b).2 bs
    rw [Transform.onBranches, branchesSteps]
    exact ⟨List.cons_eq_cons.2 ⟨hbranch, hbranches⟩, hp1.append hp2⟩

end

/-- The same for a block. -/
theorem LeavesBodies.onBlock (h : t.LeavesBodies) (p : Progress) (b : Block) :
    (t.onBlock p b).1.1 = b ∧ p.Past b.steps (t.onBlock p b).2 := by
  obtain ⟨hheader, hp1⟩ := h.onStatement (p.enter (.block b)) b.header
  obtain ⟨hitems, hp2⟩ := h.onItems (t.onStatement (p.enter (.block b)) b.header).2 b.body
  rw [Transform.onBlock, Block.steps]
  dsimp only
  rw [(h.onBody _ _ _).1, (h.onBody _ _ _).2, hitems, hheader, Progress.settle_self]
  exact ⟨rfl, (hp1.append hp2).around⟩

/-- The same for the items of a section. -/
theorem LeavesBodies.onSectionItems (h : t.LeavesBodies) (p : Progress)
    (items : List SectionItem) :
    unmark (t.onSectionItems p items).1 = items ∧
      p.Past (items.flatMap SectionItem.steps) (t.onSectionItems p items).2 := by
  induction items generalizing p with
  | nil =>
    rw [Transform.onSectionItems]
    exact ⟨rfl, .nil p⟩
  | cons item items ih =>
    cases item with
    | statement s =>
      obtain ⟨hsame, hp1⟩ := h.onStatement p s
      obtain ⟨hitems, hp2⟩ := ih (t.onStatement p s).2
      rw [Transform.onSectionItems, List.flatMap_cons]
      exact ⟨List.cons_eq_cons.2 ⟨congrArg SectionItem.statement hsame, hitems⟩, hp1.append hp2⟩
    | block b =>
      obtain ⟨hsame, hp1⟩ := h.onBlock { p with blockFollows := items.any (·.isBlock) } b
      obtain ⟨hitems, hp2⟩ := ih (t.onBlock { p with blockFollows := items.any (·.isBlock) } b).2
      rw [Transform.onSectionItems, List.flatMap_cons]
      exact ⟨List.cons_eq_cons.2 ⟨congrArg SectionItem.block hsame, hitems⟩,
        (hp1.append hp2).congr rfl rfl rfl⟩

end

end Transform

/-! ## Scopes behind sections -/

/-- The scope in which a section is left, if it is entered in a given scope. -/
def Scope.insideOf (sc : Scope) (s : Section) : Scope :=
  (sc.enter (.sect s)).behind (s.header.toList.map .meet ++ s.body.flatMap SectionItem.steps)

/-- The scope behind a section is that inside it, left. -/
theorem Scope.behind_section (sc : Scope) (s : Section) :
    sc.behind s.steps = (sc.insideOf s).leave := by
  rw [Section.steps, behind_cons, behind_append]
  rfl

namespace Scope

/-- A scope around the same place, of which at most the innermost frame is another. -/
structure Around (sc sc' : Scope) : Prop where
  ancestors : sc'.ancestors = sc.ancestors
  frames : sc'.frames.tail = sc.frames.tail

section
variable {sc sc' : Scope} {c : Container}

/-- A scope is around itself. -/
theorem Around.refl (sc : Scope) : sc.Around sc := ⟨rfl, rfl⟩

/-- A scope around one around another is around it. -/
theorem Around.trans {r : Scope} (h : sc.Around sc') (h' : sc'.Around r) : sc.Around r :=
  ⟨h'.ancestors.trans h.ancestors, h'.frames.trans h.frames⟩

/-- Noting a statement keeps the ancestors. -/
theorem ancestors_note (sc : Scope) (s : Statement) : (sc.note s).ancestors = sc.ancestors := by
  unfold note
  split
  · split
    · rfl
    · split <;> rfl
  · rfl

/-- Inside a container that is no section without header a directive holds for that container. -/
theorem around_note (h : sc.ancestors.head?.any (·.isHeaderless) = false) (s : Statement) :
    sc.Around (sc.note s) := by
  refine ⟨ancestors_note sc s, ?_⟩
  unfold note
  rw [h]
  split
  · split
    · rfl
    · show (sc.frames.applyInner _).tail = _
      cases sc.frames <;> rfl
  · rfl

/-- What holds inside a container does not hold behind it. -/
theorem Around.leave (h : (sc.enter c).Around sc') (hc : c.isBranch = false) : sc'.leave = sc := by
  have hancestors : sc'.ancestors = c :: sc.ancestors := h.ancestors
  have hframes : sc'.frames.tail = sc.frames := by
    simpa [enter, hc] using h.frames
  simp [Scope.leave, hancestors, hframes, hc]

/-- A branch has no frame of its own. -/
theorem Around.leave_branch (h : (sc.enter c).Around sc') (hc : c.isBranch = true) :
    sc.Around sc'.leave := by
  have hancestors : sc'.ancestors = c :: sc.ancestors := h.ancestors
  have hframes : sc'.frames.tail = sc.frames.tail := by
    simpa [enter, hc] using h.frames
  exact ⟨by simp [Scope.leave, hancestors], by simp [Scope.leave, hancestors, hframes, hc]⟩

end

mutual

/-- Behind a control block the scope is what it was. -/
theorem behind_control : ∀ (c : ControlBlock) (sc : Scope), sc.behind c.steps = sc
  | ⟨type, span, header, body, branches, close, label⟩, sc => by
    rw [ControlBlock.steps]
    simp only [behind_cons, behind_append, behind_nil, after]
    have hclose (sc : Scope) (h : sc.ancestors.head?.any (·.isHeaderless) = false) :
        sc.Around (sc.behind (close.toList.map .meet)) := by
      cases close with
      | none => exact .refl sc
      | some s => exact around_note h s
    have h1 := @around_note (sc.enter (.control
      ⟨type, span, header, body, branches, close, label⟩)) rfl header
    have h2 := h1.trans (around_body body (by rw [h1.ancestors]; rfl))
    have h3 := h2.trans (around_branches branches (by rw [h2.ancestors]; rfl))
    exact (h3.trans (hclose _ (by rw [h3.ancestors]; rfl))).leave rfl

/-- A body is in one container. -/
theorem around_body : ∀ (items : List BodyItem) {sc : Scope},
    sc.ancestors.head?.any (·.isHeaderless) = false → sc.Around (sc.behind (bodySteps items))
  | [], sc, _ => .refl sc
  | .statement s :: items, sc, h => by
    rw [bodySteps, BodyItem.steps, behind_append]
    have hs : sc.Around (sc.behind [.meet s]) := around_note h s
    exact hs.trans (around_body items (by rw [hs.ancestors]; exact h))
  | .control c :: items, sc, h => by
    rw [bodySteps, BodyItem.steps, behind_append, behind_control c]
    exact around_body items h

/-- The walk over branches comes back around. -/
theorem around_branches : ∀ (bs : List Branch) {sc : Scope},
    sc.ancestors.head?.any (·.isHeaderless) = false → sc.Around (sc.behind (branchesSteps bs))
  | [], sc, _ => .refl sc
  | ⟨span, header, body, label⟩ :: bs, sc, h => by
    rw [branchesSteps, Branch.steps]
    simp only [behind_cons, behind_append, behind_nil, after]
    have h1 := @around_note (sc.enter (.branch ⟨span, header, body, label⟩)) rfl header
    have h2 := (h1.trans (around_body body (by rw [h1.ancestors]; rfl))).leave_branch rfl
    exact h2.trans (around_branches bs (by rw [h2.ancestors]; exact h))

end

/-- The walk over a block comes back to the scope. -/
theorem behind_block (sc : Scope) (b : Block) : sc.behind b.steps = sc := by
  rw [Block.steps]
  simp only [behind_cons, behind_append, behind_nil, after]
  have h1 := @around_note (sc.enter (.block b)) rfl b.header
  exact (h1.trans (around_body b.body (by rw [h1.ancestors]; rfl))).leave rfl

/-- The walk over items comes back to the ancestors. -/
theorem ancestors_items (sc : Scope) (items : List SectionItem) :
    (sc.behind (items.flatMap SectionItem.steps)).ancestors = sc.ancestors := by
  induction items generalizing sc with
  | nil => rfl
  | cons item items ih =>
    rw [List.flatMap_cons, behind_append, ih]
    cases item with
    | statement s => exact ancestors_note sc s
    | block b => exact congrArg Scope.ancestors (behind_block sc b)

/-- The walk over items comes back around. -/
theorem around_items {sc : Scope} (h : sc.ancestors.head?.any (·.isHeaderless) = false)
    (items : List SectionItem) : sc.Around (sc.behind (items.flatMap SectionItem.steps)) := by
  induction items generalizing sc with
  | nil => exact .refl sc
  | cons item items ih =>
    have hitem : sc.Around (sc.behind item.steps) := by
      cases item with
      | statement s => exact around_note h s
      | block b =>
        rw [SectionItem.steps, behind_block]
        exact .refl sc
    rw [List.flatMap_cons, behind_append]
    exact hitem.trans (ih (by rw [hitem.ancestors]; exact h))

/-- The section around the end of a section is that section. -/
theorem ancestors_insideOf (sc : Scope) (s : Section) :
    (sc.insideOf s).ancestors = .sect s :: sc.ancestors := by
  rw [insideOf, behind_append, ancestors_items]
  cases s.header with
  | none => rfl
  | some r => exact ancestors_note _ r

/-- Inside a section it is the section. -/
theorem section?_insideOf (sc : Scope) (s : Section) : (sc.insideOf s).section? = some s := by
  rw [section?, ancestors_insideOf]
  rfl

/-- **Behind a section with a header the scope is what it was.** -/
theorem behind_headed (sc : Scope) {s : Section} (hs : s.header ≠ none) :
    sc.behind s.steps = sc := by
  obtain ⟨r, hr⟩ := Option.ne_none_iff_exists'.1 hs
  have hhead : (sc.enter (.sect s)).ancestors.head?.any (·.isHeaderless) = false := by
    simp [enter, Container.isHeaderless, hr]
  have h1 := around_note hhead r
  rw [behind_section, insideOf, hr, behind_append]
  exact (h1.trans (around_items (by rw [h1.ancestors]; exact hhead) s.body)).leave rfl

end Scope
/-! ## Sections -/

/-- A decision that puts something or nothing goes on with the walk. -/
theorem Progress.broken_carryOut {α : Type} {p : Progress} (old : α) (issues : α → List Issue)
    {d : Decision α} (hd : ∀ reason, d ≠ .breakOff reason) :
    (p.carryOut old issues d).2.broken = p.broken ∧
      (p.carryOut old issues d).2.scope = p.scope := by
  cases d with
  | keep => exact ⟨rfl, rfl⟩
  | put new =>
    rw [carryOut]
    split <;> exact ⟨rfl, rfl⟩
  | breakOff reason => exact absurd rfl (hd reason)

/-- Sections of which only the items may be others than before: those that a transform puts when
it leaves them. -/
def Transform.LeftBy (t : Transform) (sc : Scope) (s r : Section) : Prop :=
  ∃ (place : Place) (header : Option (Marked Statement)) (items : List (Marked SectionItem)),
    place.scope = sc.insideOf s ∧ header.map (·.1) = s.header ∧ unmark items = s.body ∧
      r = { s with
        body := unmark ((t.leaveSection place header items).outcome items fun new =>
          sectionIssues s.kind (unmark new)) }

/-- A transform that never breaks off when it leaves a section: it puts only what can be
checked. -/
def Transform.LeavesSections (t : Transform) : Prop :=
  ∀ (place : Place) (header : Option (Marked Statement)) (items : List (Marked SectionItem))
    (reason : Breakdown), ∀ s ∈ place.scope.section?,
      (t.leaveSection place header items).guarded (fun new => isUncheckable s.kind (unmark new)) ≠
        .breakOff reason

namespace Transform
variable {t : Transform} {p : Progress}

section
variable (h : t.LeavesBodies) (hs : t.LeavesSections)
include h hs

/-- A section is left by its own decision only. -/
theorem LeavesBodies.onSection (hp : p.broken = none) (s : Section) :
    t.LeftBy p.scope s (t.onSection p s).1 ∧ (t.onSection p s).2.broken = none ∧
      (t.onSection p s).2.scope = p.scope.behind s.steps := by
  obtain ⟨hheader, hp1⟩ := h.onStatement? (p.enter (.sect s)) s.header
  obtain ⟨hitems, hp2⟩ := h.onSectionItems (t.onStatement? (p.enter (.sect s)) s.header).2 s.body
  have hpast := hp1.append hp2
  generalize hq : (t.onSectionItems (t.onStatement? (p.enter (.sect s)) s.header).2 s.body).2 = q
    at hpast
  generalize hm : (t.onSectionItems (t.onStatement? (p.enter (.sect s)) s.header).2 s.body).1 =
    items at hitems
  have hbroken : q.broken = none := hpast.broken.trans hp
  have hsect : s ∈ q.place.scope.section? := by
    rw [Progress.place, hpast.scope]
    exact Scope.section?_insideOf p.scope s
  rw [Transform.onSection]
  dsimp only
  rw [hq, hm, hheader, Progress.settle_self, Transform.onSectionBody, hbroken]
  dsimp only
  obtain ⟨hsame, hscope⟩ := Progress.broken_carryOut (p := q)
    (q.remark SectionItem.statements items) (fun new => sectionIssues s.kind (unmark new))
    (fun reason => hs q.place (t.onStatement? (p.enter (.sect s)) s.header).1
      (q.remark SectionItem.statements items) reason s hsect)
  refine ⟨⟨q.place, (t.onStatement? (p.enter (.sect s)) s.header).1,
    q.remark SectionItem.statements items, hpast.scope, hheader, ?_, ?_⟩, ?_, ?_⟩
  · rw [Progress.unmark_remark, hitems]
  · rw [Progress.carryOut_fst, Decision.outcome_guarded fun _ => isUncheckable_of_issues]
  · exact hsame.trans hbroken
  · rw [Scope.behind_section]
    exact congrArg Scope.leave (hscope.trans hpast.scope)

/-- **Sections are left one by one,** each in the scope behind those in front of it. -/
theorem LeavesBodies.onSections (hp : p.broken = none) {ss front back : List Section}
    {s : Section} (hcut : ss = front ++ s :: back) :
    ∃ r, (t.onSections p ss).1[front.length]? = some r ∧
      t.LeftBy (p.scope.behind (front.flatMap Section.steps)) s r := by
  induction front generalizing p ss with
  | nil =>
    subst hcut
    rw [List.nil_append, Transform.onSections]
    exact ⟨_, rfl, (h.onSection hs (p := { p with sectionFollows := !back.isEmpty }) hp s).1⟩
  | cons r front ih =>
    subst hcut
    obtain ⟨-, hbroken, hscope⟩ := h.onSection hs
      (p := { p with sectionFollows := !(front ++ s :: back).isEmpty }) hp r
    rw [List.cons_append, Transform.onSections, List.flatMap_cons, Scope.behind_append]
    obtain ⟨r', hget, hleft⟩ := ih hbroken rfl
    rw [hscope] at hleft
    exact ⟨r', hget, hleft⟩

/-- Leaving bodies alone breaks nothing down. -/
theorem LeavesBodies.broken_onSections (hp : p.broken = none) (ss : List Section) :
    (t.onSections p ss).2.broken = none := by
  induction ss generalizing p with
  | nil =>
    rw [Transform.onSections]
    exact hp
  | cons s ss ih =>
    rw [Transform.onSections]
    exact ih (h.onSection hs (p := { p with sectionFollows := !ss.isEmpty }) hp s).2.1

end

/-- A transform that leaves sections alone goes on. -/
theorem LeavesSections.of_keep (hs : t.leaveSection = fun _ _ _ => .keep) : t.LeavesSections := by
  intro place header items reason s _ hbreak
  rw [hs] at hbreak
  cases hbreak

/-- A transform that leaves sections alone leaves all of them as they are. -/
theorem LeavesBodies.same_sections (h : t.LeavesBodies)
    (hs : t.leaveSection = fun _ _ _ => .keep) (hp : p.broken = none) (ss : List Section) :
    (t.onSections p ss).1 = ss := by
  have hs' := LeavesSections.of_keep hs
  refine List.ext_getElem? fun i => ?_
  by_cases hi : i < ss.length
  · have hcut : ss = ss.take i ++ ss[i] :: ss.drop (i + 1) := by
      rw [List.getElem_cons_drop, List.take_append_drop]
    obtain ⟨r, hget, place, header, items, -, -, hitems, rfl⟩ := h.onSections hs' hp hcut
    rw [List.length_take, Nat.min_eq_left (Nat.le_of_lt hi)] at hget
    have hkeep : t.leaveSection place header items = .keep := by rw [hs]
    rw [hget, List.getElem?_eq_getElem hi, hkeep]
    show some { ss[i] with body := unmark items } = _
    rw [hitems]
  · have hlength := t.length_onSections p ss
    rw [List.getElem?_eq_none (by omega), List.getElem?_eq_none (by omega)]

/-! ## Files -/

/-- **Nothing counts but the decision about the file** where a transform leaves sections alone. -/
theorem LeavesBodies.run_sections (h : t.LeavesBodies)
    (hs : t.leaveSection = fun _ _ _ => .keep) (f : File) :
    ∃ place,
      ((∀ reason, (t.leaveFile place f.sections).guarded (fun new => new.any (·.isUncheckable)) ≠
        .breakOff reason) → (t.run f).broken = none) ∧
      (t.run f).tree =
        { f with
          sections := (t.leaveFile place f.sections).outcome f.sections sectionsIssues } := by
  have hsame := h.same_sections hs (p := ({} : Progress).enter (.file f)) rfl f.sections
  have hbroken := h.broken_onSections (p := ({} : Progress).enter (.file f))
    (LeavesSections.of_keep hs) rfl f.sections
  rw [run]
  dsimp only
  rw [hsame, onFileBody, hbroken]
  refine ⟨_, fun hf => (Progress.broken_carryOut _ _ hf).1.trans hbroken, ?_⟩
  rw [Progress.carryOut_fst, Decision.outcome_guarded fun _ => any_isUncheckable_of_issues]

/-- Where a transform leaves files alone the sections are those that the walk has left. -/
theorem LeavesBodies.run_left (h : t.LeavesBodies) (hs : t.LeavesSections)
    (hf : t.leaveFile = fun _ _ => .keep) (f : File) :
    (t.run f).tree =
        { f with sections := (t.onSections (({} : Progress).enter (.file f)) f.sections).1 } ∧
      (t.run f).broken = none := by
  have hbroken := h.broken_onSections (p := ({} : Progress).enter (.file f)) hs rfl f.sections
  rw [run]
  dsimp only
  rw [onFileBody, hbroken, hf]
  exact ⟨rfl, hbroken⟩

end Transform

end RobotSuite
