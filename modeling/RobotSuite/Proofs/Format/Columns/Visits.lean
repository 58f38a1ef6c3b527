/-
# Visits to bodies in columns

Whether directives switch the pass off at the items of a body is told by the scope in front of them
(`Columns.markedItems`).  A walk through a file whose calls are aligned visits the same containers
in scopes in which it can tell the same, and each body is taken from the body that is visited
instead (`Columns.Goes`).  What is around bodies does not change that (`Columns.Goes.append`,
`Columns.Goes.enclose`), and of a body it is enough to know what the walk has made of its control
blocks (`Columns.Walked.aligned`).
-/

import RobotSuite.Proofs.Format.Columns.Bodies
import RobotSuite.Proofs.Transform.WholeSections

namespace RobotSuite

/-- Steps behind others are met in the scope behind these. -/
theorem withScopes_append (sc : Scope) (a b : List Step) :
    withScopes sc (a ++ b) = withScopes sc a ++ withScopes (sc.behind a) b := by
  induction a generalizing sc with
  | nil => rfl
  | cons step a ih => exact congrArg (_ :: ·) (ih _)

/-- The body of a container.  A file and a section hold no body items. -/
def Container.body : Container → List BodyItem
  | .file _ => []
  | .sect _ => []
  | .block b => b.body
  | .control c => c.body
  | .branch b => b.body

/-- The containers that some steps enter, each with the scope inside it. -/
def entries (sc : Scope) (steps : List Step) : List (Container × Scope) :=
  (withScopes sc steps).filterMap fun
    | (.enter c, inside) => some (c, inside)
    | _ => none

/-- The containers of a file, each with the scope in which a walk enters it. -/
def File.entries (f : File) : List (Container × Scope) := RobotSuite.entries {} f.steps

namespace Columns

/-! ## Directives in bodies -/

/-- The items of a body, each with whether directives switch the pass off at it.  They are looked
at for statements only, and the scope behind a control block is the one in front of it. -/
def markedItems : Scope → List BodyItem → List (Marked BodyItem)
  | _, [] => []
  | sc, .statement s :: items =>
    (.statement s, (sc.note s).disables info.name s) :: markedItems (sc.note s) items
  | sc, .control c :: items => (.control c, false) :: markedItems sc items

section
variable {kind : SectionKind} {limit : Nat} {separator : String} {sc sc' : Scope}

/-- Items with their marks are the items. -/
@[simp] theorem unmark_markedItems (sc : Scope) (items : List BodyItem) :
    unmark (markedItems sc items) = items := by
  induction items generalizing sc with
  | nil => rfl
  | cons item items ih =>
    cases item with
    | statement s => exact congrArg (_ :: ·) (ih _)
    | control c => exact congrArg (_ :: ·) (ih _)

/-- Where calls are aligned the same directives hold as before. -/
theorem marks_of_aligned (hs : IsWide separator) {calls : List (Option Candidate)}
    {items new : List BodyItem} (hlike : sc.Like sc')
    (hi : bodyHolds (Statement.IsReady kind) items)
    (h : List.Forall₂ (fun item i => i.control?.isSome = item.1.control?.isSome ∧
      (item.1.control? = none → i = alignItem separator calls item)) (markedItems sc items) new) :
    (markedItems sc' new).map (·.2) = (markedItems sc items).map (·.2) := by
  induction items generalizing sc sc' new with
  | nil =>
    cases h
    rfl
  | cons item items ih =>
    rw [bodyHolds] at hi
    cases item with
    | statement s =>
      obtain ⟨i, new, ⟨-, hitem⟩, hnew, rfl⟩ := List.forall₂_cons_left_iff.1 h
      have hkept : ∃ r, i = .statement r ∧ s.Kept r := by
        rw [hitem rfl]
        rcases alignItem_cases separator calls (.statement s, _) with heq | ⟨r, hr, hcall, -, heq⟩
        · exact ⟨s, heq, .refl s⟩
        · obtain ⟨hsr, -⟩ := Prod.mk.inj hr
          obtain rfl := BodyItem.statement.inj hsr
          rw [BodyItem.Holds] at hi
          exact ⟨_, heq, kept_aligned hi.1.2.sound hs hcall.type _⟩
      obtain ⟨r, rfl, hkept⟩ := hkept
      have hnote := hlike.note hkept.type hkept.directive
      exact congrArg₂ (· :: ·) (hnote.disables info.name hkept.type hkept.directive)
        (ih hnote hi.2 hnew)
    | control c =>
      obtain ⟨i, new, ⟨hitem, -⟩, hnew, rfl⟩ := List.forall₂_cons_left_iff.1 h
      cases i with
      | statement r => cases hitem
      | control c' => exact congrArg (false :: ·) (ih hlike hi.2 hnew)

/-- **A body whose calls are aligned is not aligned again.** -/
theorem rests_of_taken (hs : IsWide separator) (hlike : sc.Like sc') {items new : List BodyItem}
    (hi : bodyHolds (Statement.IsReady kind) items)
    (h : Taken limit separator (markedItems sc items) new) :
    alignBody limit separator (markedItems sc' new) = none := by
  have hunmark := unmark_markedItems sc items
  refine Taken.again hs (by rw [hunmark]; exact hi) (by rw [unmark_markedItems]; exact h) ?_
  exact marks_of_aligned hs hlike hi h

end

/-! ## Visits -/

/-- A visit of a walk, and the visit in its place when calls are aligned. -/
inductive Visited (limit : Nat) (separator : String) : Step × Scope → Step × Scope → Prop
  | enter {kind : SectionKind} {c c' : Container} {sc sc' : Scope} : c'.role = c.role →
      c'.header? = c.header? → sc.Like sc' → bodyHolds (Statement.IsReady kind) c.body →
      Taken limit separator (markedItems sc c.body) c'.body →
      Visited limit separator (.enter c, sc) (.enter c', sc')
  | meet {s s' : Statement} {sc sc' : Scope} : s.Kept s' →
      Visited limit separator (.meet s, sc) (.meet s', sc')
  | leave {c c' : Container} {sc sc' : Scope} :
      Visited limit separator (.leave c, sc) (.leave c', sc')

/-- Steps of a walk, and the steps in their place when calls are aligned. -/
structure Goes (limit : Nat) (separator : String) (sc : Scope) (old new : List Step) : Prop where
  behind : ∀ {sc'}, sc.Like sc' → (sc.behind old).Like (sc'.behind new)
  visits : ∀ {sc'}, sc.Like sc' →
    List.Forall₂ (Visited limit separator) (withScopes sc old) (withScopes sc' new)

/-- Whether no body that is visited changes when its calls are aligned. -/
def RestsIn (limit : Nat) (separator : String) (sc : Scope) (steps : List Step) : Prop :=
  ∀ c inside, (.enter c, inside) ∈ withScopes sc steps →
    alignBody limit separator (markedItems inside c.body) = none

section
variable {kind : SectionKind} {limit : Nat} {separator : String} {sc : Scope}
  {a b a' b' old new : List Step} {c c' : Container} {s s' : Statement}

theorem Goes.nil : Goes limit separator sc [] [] := ⟨fun h => h, fun _ => .nil⟩

/-- Walks one behind the other go as those that correspond to them. -/
theorem Goes.append (h : Goes limit separator sc a a')
    (h' : Goes limit separator (sc.behind a) b b') :
    Goes limit separator sc (a ++ b) (a' ++ b') := by
  constructor
  · intro sc' hlike
    rw [Scope.behind_append, Scope.behind_append]
    exact h'.behind (h.behind hlike)
  · intro sc' hlike
    rw [withScopes_append, withScopes_append]
    exact List.rel_append (h.visits hlike) (h'.visits (h.behind hlike))

/-- Meeting a statement goes as meeting what it has become. -/
theorem Goes.meet (h : s.Kept s') : Goes limit separator sc [.meet s] [.meet s'] :=
  ⟨fun hlike => hlike.note h.type h.directive, fun _ => .cons (.meet h) .nil⟩

/-- Statements that stay are met as they are. -/
theorem Goes.meets (sc : Scope) (ss : List Statement) :
    Goes limit separator sc (ss.map .meet) (ss.map .meet) := by
  induction ss generalizing sc with
  | nil => exact .nil
  | cons s ss ih => exact (Goes.meet (.refl s)).append (ih _)

/-- Steps inside a container. -/
theorem Goes.enclose (hr : c'.role = c.role) (hheader : c'.header? = c.header?)
    (hi : bodyHolds (Statement.IsReady kind) c.body)
    (htaken : Taken limit separator (markedItems (sc.enter c) c.body) c'.body)
    (h : Goes limit separator (sc.enter c) old new) :
    Goes limit separator sc (.enter c :: (old ++ [.leave c]))
      (.enter c' :: (new ++ [.leave c'])) := by
  have henter {sc' : Scope} (hlike : sc.Like sc') : (sc.enter c).Like (sc'.enter c') :=
    hlike.enter hr (by rw [hheader])
  have hinner : Goes limit separator (sc.enter c) (old ++ [.leave c]) (new ++ [.leave c']) :=
    h.append ⟨fun hlike => hlike.leave, fun _ => .cons .leave .nil⟩
  exact ⟨fun hlike => hinner.behind (henter hlike), fun hlike =>
    .cons (.enter hr hheader (henter hlike) hi htaken) (hinner.visits (henter hlike))⟩

/-- Nothing changes in steps one behind the other if nothing changes in each. -/
theorem restsIn_append : RestsIn limit separator sc (a ++ b) ↔
    RestsIn limit separator sc a ∧ RestsIn limit separator (sc.behind a) b := by
  simp only [RestsIn, withScopes_append, List.mem_append, or_imp, forall_and]

/-- What rests in a container. -/
theorem RestsIn.inside (h : RestsIn limit separator sc (.enter c :: (a ++ [.leave c]))) :
    alignBody limit separator (markedItems (sc.enter c) c.body) = none ∧
      RestsIn limit separator (sc.enter c) a := by
  have hinner : RestsIn limit separator (sc.enter c) (a ++ [.leave c]) :=
    fun c inside hmem => h c inside (List.mem_cons_of_mem _ hmem)
  exact ⟨h c _ List.mem_cons_self, (restsIn_append.1 hinner).1⟩

/-- Behind a statement nothing changes either. -/
theorem RestsIn.behind_meet (h : RestsIn limit separator sc (.meet s :: a)) :
    RestsIn limit separator (sc.note s) a :=
  fun c inside hmem => h c inside (List.mem_cons_of_mem _ hmem)

/-- Statements in the place of others, as a walk meets them. -/
theorem kept_of_visited {sc' : Scope}
    (hvisits : List.Forall₂ (Visited limit separator) (withScopes sc old) (withScopes sc' new)) :
    List.Forall₂ Statement.Kept (metStatements old) (metStatements new) := by
  induction old generalizing sc sc' new with
  | nil =>
    cases new with
    | nil => exact .nil
    | cons step new => cases hvisits
  | cons step old ih =>
    cases new with
    | nil => cases hvisits
    | cons step' new =>
      obtain ⟨hvisit, hrest⟩ := List.forall₂_cons.1 hvisits
      have hothers := ih hrest
      cases hvisit with
      | enter => exact hothers
      | meet hkept => exact .cons hkept hothers
      | leave => exact hothers

/-- Containers in the place of others: of the same type and with the same header, and with a body in
columns. -/
theorem settled_of_visited (hs : IsWide separator) {sc' : Scope}
    (hvisits : List.Forall₂ (Visited limit separator) (withScopes sc old) (withScopes sc' new)) :
    List.Forall₂ (fun c c' => c'.type = c.1.type ∧ c'.header? = c.1.header? ∧
        Settled limit separator (markedItems c.2 c.1.body) c'.body)
      (RobotSuite.entries sc old) (enteredContainers new) := by
  induction old generalizing sc sc' new with
  | nil =>
    cases new with
    | nil => exact .nil
    | cons step new => cases hvisits
  | cons step old ih =>
    cases new with
    | nil => cases hvisits
    | cons step' new =>
      obtain ⟨hvisit, hrest⟩ := List.forall₂_cons.1 hvisits
      have hothers := ih hrest
      cases hvisit with
      | meet => exact hothers
      | leave => exact hothers
      | enter hrole hheader _ hi htaken =>
        have hsettled := settled_of_taken hs (by rwa [unmark_markedItems]) htaken
        exact .cons ⟨congrArg Prod.fst hrole, hheader, hsettled⟩ hothers

/-- **What has been aligned rests.** -/
theorem Goes.rests (hs : IsWide separator) (h : Goes limit separator sc old new) {sc' : Scope}
    (hlike : sc.Like sc') : RestsIn limit separator sc' new := by
  have hvisits := h.visits hlike
  generalize withScopes sc old = visits at hvisits
  rw [RestsIn]
  generalize withScopes sc' new = visits' at hvisits
  induction hvisits with
  | nil => simp
  | cons hvisit _ ih =>
    intro c inside hmem
    rcases List.mem_cons.1 hmem with rfl | hmem
    · cases hvisit with
      | enter _ _ hlike hi htaken => exact rests_of_taken hs hlike hi htaken
    · exact ih c inside hmem

end

/-! ## Bodies that are walked through -/

/-- The items of a body, and the items in their place when calls are aligned. -/
inductive ItemsGo (limit : Nat) (separator : String) :
    Scope → List BodyItem → List BodyItem → Prop
  | nil {sc : Scope} : ItemsGo limit separator sc [] []
  | statement {sc : Scope} {s s' : Statement} {items new : List BodyItem} : s.Kept s' →
      ItemsGo limit separator (sc.note s) items new →
      ItemsGo limit separator sc (.statement s :: items) (.statement s' :: new)
  | control {sc : Scope} {c c' : ControlBlock} {items new : List BodyItem} :
      Goes limit separator sc c.steps c'.steps → ItemsGo limit separator sc items new →
      ItemsGo limit separator sc (.control c :: items) (.control c' :: new)

/-- The items of a body, and what a walk makes of them before it aligns the calls among them. -/
structure Walked (limit : Nat) (separator : String) (kind : SectionKind) (sc : Scope)
    (items : List BodyItem) (marked : List (Marked BodyItem)) : Prop where
  go : ItemsGo limit separator sc items (unmark marked)
  corresponds : List.Forall₂ Corresponds (markedItems sc items) marked
  ready : bodyHolds (Statement.IsReady kind) (unmark marked)
  rests : RestsIn limit separator sc (bodySteps items) → unmark marked = items

section
variable {kind : SectionKind} {limit : Nat} {separator : String} {sc : Scope}
  {items new : List BodyItem} {marked : List (Marked BodyItem)}

/-- The walk through items goes as that through what they have become. -/
theorem ItemsGo.goes (h : ItemsGo limit separator sc items new) :
    Goes limit separator sc (bodySteps items) (bodySteps new) := by
  induction h with
  | nil =>
    rw [bodySteps]
    exact .nil
  | statement hs _ ih =>
    rw [bodySteps, bodySteps, BodyItem.steps, BodyItem.steps]
    exact (Goes.meet hs).append ih
  | control hc _ ih =>
    rw [bodySteps, bodySteps, BodyItem.steps, BodyItem.steps]
    refine hc.append ?_
    rwa [Scope.behind_control]

/-- Statements in the place of others may be aligned. -/
theorem ItemsGo.align (hs : IsWide separator) {calls : List (Option Candidate)}
    (h : ItemsGo limit separator sc items (unmark marked))
    (hi : bodyHolds (Statement.IsReady kind) (unmark marked)) :
    ItemsGo limit separator sc items (marked.map (alignItem separator calls)) := by
  induction marked generalizing sc items with
  | nil => exact h
  | cons item marked ih =>
    obtain ⟨item, off⟩ := item
    rw [unmark, List.map_cons, bodyHolds] at hi
    rw [unmark, List.map_cons] at h
    rw [List.map_cons]
    cases h with
    | control hc hrest =>
      rw [alignItem_of_none (candidate?_of_control rfl)]
      exact .control hc (ih hrest hi.2)
    | @statement sc s r items _ hkept hrest =>
      rcases alignItem_cases separator calls (.statement r, off) with heq | ⟨q, hq, hcall, -, heq⟩
      · rw [heq]
        exact .statement hkept (ih hrest hi.2)
      · obtain ⟨hqr, -⟩ := Prod.mk.inj hq
        obtain rfl := BodyItem.statement.inj hqr
        have hready := hi.1
        rw [BodyItem.Holds] at hready
        rw [heq]
        exact .statement (hkept.trans (kept_aligned hready.2.sound hs hcall.type _)) (ih hrest hi.2)

/-- What the pass leaves of a body. -/
structure BodyGoes (limit : Nat) (separator : String) (kind : SectionKind) (sc : Scope)
    (items new : List BodyItem) : Prop where
  goes : Goes limit separator sc (bodySteps items) (bodySteps new)
  taken : Taken limit separator (markedItems sc items) new
  ready : bodyHolds (Statement.IsReady kind) new
  rests : RestsIn limit separator sc (bodySteps items) →
    alignBody limit separator (markedItems sc items) = none → new = items

/-- A body that is aligned holds statements as a source can hold them. -/
theorem ready_alignBody (hs : IsWide separator)
    (hi : bodyHolds (Statement.IsReady kind) (unmark marked)) :
    bodyHolds (Statement.IsReady kind)
      (unmark ((alignBody limit separator marked).getD marked)) := by
  cases h : alignBody limit separator marked with
  | none => exact hi
  | some new =>
    exact bodyHolds_alignBody h (fun widths s hready => ready_aligned hready hs widths) hi

/-- **What aligning leaves of a body that has been walked through.** -/
theorem Walked.aligned (hs : IsWide separator) (h : Walked limit separator kind sc items marked) :
    BodyGoes limit separator kind sc items
      (unmark ((alignBody limit separator marked).getD marked)) := by
  refine ⟨?_, taken_of_corresponds h.corresponds, ready_alignBody hs h.ready, ?_⟩
  · rw [unmark_alignBody]
    exact (h.go.align hs h.ready).goes
  · intro hrests hnone
    rw [alignBody_of_corresponds h.corresponds hnone]
    exact h.rests hrests

end

/-! ## Control blocks, branches and blocks -/

/-- What the pass leaves of a part of a file: a part of which something holds, the same if no body
in it changes. -/
structure Leaves (limit : Nat) (separator : String) (sc : Scope) {α : Type}
    (steps : α → List Step) (P : α → Prop) (old new : α) : Prop where
  goes : Goes limit separator sc (steps old) (steps new)
  ready : P new
  rests : RestsIn limit separator sc (steps old) → new = old

/-- What the pass leaves of a control block. -/
abbrev ControlGoes (limit : Nat) (separator : String) (kind : SectionKind) (sc : Scope)
    (c new : ControlBlock) : Prop :=
  Leaves limit separator sc ControlBlock.steps (·.Holds (Statement.IsReady kind)) c new

/-- What the pass leaves of the branches of a control block. -/
abbrev BranchesGo (limit : Nat) (separator : String) (kind : SectionKind) (type : ControlType)
    (sc : Scope) (bs new : List Branch) : Prop :=
  Leaves limit separator sc branchesSteps (branchesHold (Statement.IsReady kind) type) bs new

/-- What the pass leaves of the items of a section. -/
abbrev SectionItemsGo (limit : Nat) (separator : String) (kind : SectionKind) (sc : Scope)
    (items new : List SectionItem) : Prop :=
  Leaves limit separator sc (List.flatMap SectionItem.steps)
    (∀ item ∈ ·, item.Holds (Statement.IsReady kind) kind) items new

/-- What the pass leaves of sections. -/
abbrev SectionsGo (limit : Nat) (separator : String) (sc : Scope) (ss new : List Section) : Prop :=
  Leaves limit separator sc (List.flatMap Section.steps)
    (∀ s ∈ ·, s.Holds Statement.IsReady fun _ h => h.label = none) ss new

section
variable {limit : Nat} {separator : String} {sc : Scope} {α : Type} {steps : α → List Step}
  {P : α → Prop}

/-- No members leave none. -/
theorem Leaves.nil (sc : Scope) :
    Leaves limit separator sc (List.flatMap steps) (∀ x ∈ ·, P x) [] [] :=
  ⟨.nil, List.forall_mem_nil _, fun _ => rfl⟩

/-- A first member and the others leave what each leaves. -/
theorem Leaves.cons {x y : α} {xs ys : List α} (h : Leaves limit separator sc steps P x y)
    (h' : Leaves limit separator (sc.behind (steps x)) (List.flatMap steps) (∀ x ∈ ·, P x) xs ys) :
    Leaves limit separator sc (List.flatMap steps) (∀ x ∈ ·, P x) (x :: xs) (y :: ys) := by
  refine ⟨?_, List.forall_mem_cons.2 ⟨h.ready, h'.ready⟩, fun hr => ?_⟩
  · rw [List.flatMap_cons, List.flatMap_cons]
    exact h.goes.append h'.goes
  · rw [List.flatMap_cons, restsIn_append] at hr
    exact congrArg₂ (· :: ·) (h.rests hr.1) (h'.rests hr.2)

end

section
variable {kind : SectionKind} {limit : Nat} {separator : String} {sc : Scope} {span : Span}
  {header : Statement} {body new : List BodyItem} {label : Option Nat} {type : ControlType}

/-- A header is no comment, so directives hold behind it as in front of it. -/
theorem note_of_opener (h : header.type = type.opener) (sc : Scope) : sc.note header = sc := by
  refine if_neg fun hc => ?_
  rw [hc] at h
  cases type <;> cases h

/-- The header of a branch switches nothing. -/
theorem note_of_branch (h : header.type ∈ type.branchHeaders) (sc : Scope) :
    sc.note header = sc := by
  refine if_neg fun hc => ?_
  rw [hc] at h
  cases type <;> simp [ControlType.branchHeaders] at h

/-- The name of a block switches nothing. -/
theorem note_of_name {type : BlockType} (h : header.type = type.nameType) (sc : Scope) :
    sc.note header = sc := by
  refine if_neg fun hc => ?_
  rw [hc] at h
  cases type <;> cases h

/-- Steps behind a header that is no comment. -/
theorem Goes.behind_header {old new : List Step} (hnote : sc.note header = sc)
    (h : Goes limit separator sc old new) :
    Goes limit separator sc (.meet header :: old) (.meet header :: new) := by
  refine (Goes.meet (.refl header)).append ?_
  show Goes limit separator (sc.note header) old new
  rwa [hnote]

/-- **A control block with a body and branches as the pass leaves them.** -/
theorem BodyGoes.control {branches bs : List Branch} {s : Statement}
    (hheader : header.type = type.opener ∧ header.IsReady kind)
    (hclose : s.type = .blockEnd ∧ s.IsReady kind)
    (hold : bodyHolds (Statement.IsReady kind) body)
    (hbody : BodyGoes limit separator kind
      (sc.enter (.control ⟨type, span, header, body, branches, some s, label⟩)) body new)
    (hbranches : BranchesGo limit separator kind type
      ((sc.enter (.control ⟨type, span, header, body, branches, some s, label⟩)).behind
        (bodySteps body)) branches bs) :
    ControlGoes limit separator kind sc ⟨type, span, header, body, branches, some s, label⟩
      ⟨type, span, header, new, bs, some s, label⟩ := by
  have hnote := note_of_opener hheader.1
  constructor
  · have hinner := hbody.goes.append hbranches.goes
    rw [ControlBlock.steps, ControlBlock.steps]
    refine Goes.enclose ?_ ?_ hold ?_ ((hinner.append (Goes.meets _ [s])).behind_header (hnote _))
    · rfl
    · rfl
    · exact hbody.taken
  · rw [ControlBlock.Holds]
    exact ⟨hheader, hbody.ready, hbranches.ready, s, rfl, hclose⟩
  · intro h
    rw [ControlBlock.steps] at h
    obtain ⟨hnone, hinside⟩ := RestsIn.inside (a := .meet header :: _) h
    have hparts := hinside.behind_meet
    rw [hnote] at hparts
    obtain ⟨hparts, -⟩ := restsIn_append.1 hparts
    obtain ⟨hrest, hrest'⟩ := restsIn_append.1 hparts
    rw [hbody.rests hrest hnone, hbranches.rests hrest']

/-- **A branch with a body as the pass leaves it,** in front of others. -/
theorem BodyGoes.branch {bs bs' : List Branch}
    (hheader : header.type ∈ type.branchHeaders ∧ header.IsReady kind)
    (hold : bodyHolds (Statement.IsReady kind) body)
    (hbody : BodyGoes limit separator kind (sc.enter (.branch ⟨span, header, body, label⟩)) body
      new)
    (hrest : BranchesGo limit separator kind type
      (sc.behind (Branch.steps ⟨span, header, body, label⟩)) bs bs') :
    BranchesGo limit separator kind type sc (⟨span, header, body, label⟩ :: bs)
      (⟨span, header, new, label⟩ :: bs') := by
  have hnote := note_of_branch hheader.1
  constructor
  · rw [branchesSteps, branchesSteps]
    refine Goes.append ?_ hrest.goes
    rw [Branch.steps, Branch.steps]
    refine Goes.enclose ?_ ?_ hold ?_ (hbody.goes.behind_header (hnote _))
    · rfl
    · rfl
    · exact hbody.taken
  · rw [branchesHold, Branch.Holds]
    exact ⟨⟨hheader, hbody.ready⟩, hrest.ready⟩
  · intro h
    rw [branchesSteps] at h
    obtain ⟨hfirst, hothers⟩ := restsIn_append.1 h
    rw [Branch.steps] at hfirst
    obtain ⟨hnone, hinside⟩ := RestsIn.inside (a := .meet header :: _) hfirst
    have hparts := hinside.behind_meet
    rw [hnote] at hparts
    rw [hbody.rests hparts hnone, hrest.rests hothers]

/-- **A block with a body as the pass leaves it.** -/
theorem BodyGoes.block {b : Block} (hb : (SectionItem.block b).Holds (Statement.IsReady kind) kind)
    (hbody : BodyGoes limit separator kind (sc.enter (.block b)) b.body new) :
    Leaves limit separator sc SectionItem.steps (·.Holds (Statement.IsReady kind) kind)
      (.block b) (.block { b with body := new }) := by
  have hnote := note_of_name hb.1.2.1
  constructor
  · rw [SectionItem.steps, SectionItem.steps, Block.steps, Block.steps]
    refine Goes.enclose ?_ ?_ hb.2 ?_ (hbody.goes.behind_header (hnote _))
    · rfl
    · rfl
    · exact hbody.taken
  · exact ⟨hb.1, hbody.ready⟩
  · intro h
    rw [SectionItem.steps, Block.steps] at h
    obtain ⟨hnone, hinside⟩ := RestsIn.inside (a := .meet b.header :: _) h
    have hparts := hinside.behind_meet
    rw [hnote] at hparts
    rw [hbody.rests hparts hnone]

/-- **A section with items as the pass leaves them.** -/
theorem SectionItemsGo.section {s : Section} {items : List SectionItem}
    (hs : s.Holds Statement.IsReady fun _ h => h.label = none)
    (h : SectionItemsGo limit separator s.kind
      ((sc.enter (.sect s)).behind (s.header.toList.map .meet)) s.body items) :
    Leaves limit separator sc Section.steps (·.Holds Statement.IsReady fun _ h => h.label = none)
      s { s with body := items } := by
  have hempty : bodyHolds (Statement.IsReady s.kind) (Container.sect s).body := trivial
  constructor
  · rw [Section.steps, Section.steps]
    refine Goes.enclose ?_ ?_ hempty ?_ ((Goes.meets _ _).append h.goes)
    · rfl
    · rfl
    · exact .nil
  · exact ⟨hs.header, hs.headerless, h.ready⟩
  · intro hr
    rw [Section.steps] at hr
    rw [h.rests (restsIn_append.1 hr.inside.2).2]

/-- **A file with sections as the pass leaves them.** -/
theorem SectionsGo.file {f : File} {ss : List Section}
    (h : SectionsGo limit separator (({} : Scope).enter (.file f)) f.sections ss) :
    Goes limit separator {} f.steps { f with sections := ss }.steps ∧
      (RestsIn limit separator {} f.steps → { f with sections := ss } = f) := by
  have hempty : bodyHolds (Statement.IsReady .settings) (Container.file f).body := trivial
  rw [File.steps, File.steps]
  refine ⟨Goes.enclose ?_ ?_ hempty ?_ h.goes, fun hr => ?_⟩
  · rfl
  · rfl
  · exact .nil
  · rw [h.rests hr.inside.2]

/-- Items that have been walked through, behind a statement. -/
theorem Walked.statement {items : List BodyItem} {marked : List (Marked BodyItem)} {s : Statement}
    (hs : s.type.inBody = true ∧ s.IsReady kind)
    (h : Walked limit separator kind (sc.note s) items marked) :
    Walked limit separator kind sc (.statement s :: items)
      ((.statement s, (sc.note s).disables info.name s) :: marked) := by
  refine ⟨.statement (.refl s) h.go, .cons ⟨rfl, fun _ => rfl⟩ h.corresponds, ?_, fun hr => ?_⟩
  · show bodyHolds _ (.statement s :: unmark marked)
    rw [bodyHolds, BodyItem.Holds]
    exact ⟨hs, h.ready⟩
  · rw [bodySteps, BodyItem.steps] at hr
    exact congrArg (.statement s :: ·) (h.rests (RestsIn.behind_meet hr))

/-- Items that have been walked through, behind a control block. -/
theorem Walked.control {items : List BodyItem} {marked : List (Marked BodyItem)}
    {c c' : ControlBlock} {off : Bool} (hc : ControlGoes limit separator kind sc c c')
    (h : Walked limit separator kind sc items marked) :
    Walked limit separator kind sc (.control c :: items) ((.control c', off) :: marked) := by
  refine ⟨.control hc.goes h.go, .cons ⟨rfl, fun hn => by cases hn⟩ h.corresponds, ?_, fun hr => ?_⟩
  · show bodyHolds _ (.control c' :: unmark marked)
    rw [bodyHolds, BodyItem.Holds]
    exact ⟨hc.ready, h.ready⟩
  · rw [bodySteps, BodyItem.steps, restsIn_append, Scope.behind_control] at hr
    exact congrArg₂ (· :: ·) (congrArg BodyItem.control (hc.rests hr.1)) (h.rests hr.2)

end

end Columns
end RobotSuite
