/-
# Scopes of a walk

A walk meets the statements of a file in the order in which they are written
(`metStatements_file`), and each of them in a scope (`File.meetings`).  The scope behind some steps
(`Scope.behind`) goes from parts to the whole, and so do the meetings (`meetings_append`), so that
both can be read off the tree.  In every scope there is one frame for each container around it
that is no branch (`Scope.Framed`).

The containers that a walk enters come each in front of those inside it.  Below the file there is no
other file, and the header of a container is one of the statements around it (`Container.IsInside`).
So a walk enters the one file that it goes through (`eq_file_of_visits`), and the headers that it
passes are statements of that file (`header_mem_of_containers`).
-/

import RobotSuite.Walk

namespace RobotSuite

/-! ## Statements -/

/-- Entering a container meets no statement. -/
@[simp] theorem metStatements_enter (c : Container) (steps : List Step) :
    metStatements (.enter c :: steps) = metStatements steps := rfl

/-- Leaving a container meets no statement. -/
@[simp] theorem metStatements_leave (c : Container) (steps : List Step) :
    metStatements (.leave c :: steps) = metStatements steps := rfl

/-- Meeting a statement meets it. -/
@[simp] theorem metStatements_meet (s : Statement) (steps : List Step) :
    metStatements (.meet s :: steps) = s :: metStatements steps := rfl

@[simp] theorem metStatements_nil : metStatements [] = [] := rfl

/-- Two walks meet one after the other. -/
@[simp] theorem metStatements_append (a b : List Step) :
    metStatements (a ++ b) = metStatements a ++ metStatements b :=
  List.filterMap_append

/-- Meeting statements meets them in order. -/
@[simp] theorem metStatements_map_meet (ss : List Statement) :
    metStatements (ss.map .meet) = ss := by
  induction ss with
  | nil => rfl
  | cons s ss ih => rw [List.map_cons, metStatements_meet, ih]

mutual

/-- The walk over an item meets its statements. -/
theorem metStatements_item : ∀ item : BodyItem, metStatements item.steps = item.statements
  | .statement s => by
    rw [BodyItem.steps, BodyItem.statements]
    rfl
  | .control c => by
    rw [BodyItem.steps, BodyItem.statements]
    exact metStatements_control c

/-- The same for a control block. -/
theorem metStatements_control : ∀ c : ControlBlock, metStatements c.steps = c.statements
  | ⟨_, _, header, body, branches, close, _⟩ => by
    rw [ControlBlock.steps, ControlBlock.statements]
    simp [metStatements_body body, metStatements_branches branches]

/-- The same for a body. -/
theorem metStatements_body : ∀ items : List BodyItem,
    metStatements (bodySteps items) = bodyStatements items
  | [] => by
    rw [bodySteps, bodyStatements]
    rfl
  | item :: items => by
    rw [bodySteps, bodyStatements, metStatements_append, metStatements_item item,
      metStatements_body items]

/-- The same for a branch. -/
theorem metStatements_branch : ∀ b : Branch, metStatements b.steps = b.statements
  | ⟨_, _, body, _⟩ => by
    rw [Branch.steps, Branch.statements]
    simp [metStatements_body body]

/-- The same for the branches of a block. -/
theorem metStatements_branches : ∀ bs : List Branch,
    metStatements (branchesSteps bs) = branchesStatements bs
  | [] => by
    rw [branchesSteps, branchesStatements]
    rfl
  | b :: bs => by
    rw [branchesSteps, branchesStatements, metStatements_append, metStatements_branch b,
      metStatements_branches bs]

end

/-- The same for a section. -/
theorem metStatements_section (s : Section) : metStatements s.steps = s.statements := by
  have hitems : metStatements (s.body.flatMap SectionItem.steps) = itemsStatements s.body := by
    induction s.body with
    | nil => rfl
    | cons item items ih =>
      have hitem : metStatements item.steps = item.statements := by
        cases item with
        | statement r => rfl
        | block b => simp [SectionItem.steps, SectionItem.statements, Block.steps,
            Block.statements, metStatements_body]
      rw [List.flatMap_cons, metStatements_append, hitem, ih]
      rfl
  rw [Section.steps, Section.statements]
  simp [hitems]

/-- **A walk meets the statements of a file in order.** -/
theorem metStatements_file (f : File) : metStatements f.steps = f.statements := by
  have hsections : metStatements (f.sections.flatMap Section.steps) = f.statements := by
    rw [File.statements]
    induction f.sections with
    | nil => rfl
    | cons s ss ih =>
      rw [List.flatMap_cons, List.flatMap_cons, metStatements_append, metStatements_section, ih]
  rw [File.steps]
  simp [hsections]

/-! ## Scopes -/

/-- The scope behind some steps. -/
def Scope.behind (sc : Scope) (steps : List Step) : Scope := steps.foldl Scope.after sc

/-- The statements that a walk meets, each with the scope in which it meets it. -/
def meetings (sc : Scope) (steps : List Step) : List (Statement × Scope) :=
  (withScopes sc steps).filterMap fun
    | (.meet s, scope) => some (s, scope)
    | _ => none

/-- The statements of a file, each with the scope in which a walk meets it. -/
def File.meetings (f : File) : List (Statement × Scope) := RobotSuite.meetings {} f.steps

section
variable (sc : Scope) (steps : List Step)

@[simp] theorem Scope.behind_nil : sc.behind [] = sc := rfl

@[simp] theorem Scope.behind_cons (step : Step) :
    sc.behind (step :: steps) = (sc.after step).behind steps := rfl

/-- The scope behind two walks is that behind the second. -/
@[simp] theorem Scope.behind_append (more : List Step) :
    sc.behind (steps ++ more) = (sc.behind steps).behind more :=
  List.foldl_append

@[simp] theorem meetings_nil : meetings sc [] = [] := rfl

/-- Entering a container opens its scope. -/
@[simp] theorem meetings_enter (c : Container) :
    meetings sc (.enter c :: steps) = meetings (sc.enter c) steps := rfl

/-- Leaving a container closes its scope. -/
@[simp] theorem meetings_leave (c : Container) :
    meetings sc (.leave c :: steps) = meetings sc.leave steps := rfl

/-- A statement is met in the scope that has noted it. -/
@[simp] theorem meetings_meet (s : Statement) :
    meetings sc (.meet s :: steps) = (s, sc.note s) :: meetings (sc.note s) steps := rfl

/-- Two walks meet one after the other, in their scopes. -/
@[simp] theorem meetings_append (more : List Step) :
    meetings sc (steps ++ more) = meetings sc steps ++ meetings (sc.behind steps) more := by
  induction steps generalizing sc with
  | nil => rfl
  | cons step steps ih =>
    cases step with
    | meet s => exact congrArg _ (ih _)
    | enter c => exact ih _
    | leave c => exact ih _

/-- The statements that are met are those of the steps. -/
theorem map_fst_meetings : (meetings sc steps).map (·.1) = metStatements steps := by
  induction steps generalizing sc with
  | nil => rfl
  | cons step steps ih =>
    cases step with
    | meet s => exact congrArg _ (ih _)
    | enter c => exact ih _
    | leave c => exact ih _

/-- The walk over a file meets its statements. -/
theorem File.map_fst_meetings (f : File) : f.meetings.map (·.1) = f.statements := by
  rw [File.meetings, RobotSuite.map_fst_meetings, metStatements_file]

end

/-! ## Frames -/

/-- A scope with one frame for each container around it that is no branch. -/
def Scope.Framed (sc : Scope) : Prop :=
  sc.frames.length = sc.ancestors.countP fun c => !c.isBranch

namespace Scope
variable {sc : Scope}

/-- The empty scope is framed. -/
theorem framed_empty : ({} : Scope).Framed := rfl

/-- Noting a statement keeps a scope framed. -/
theorem Framed.note (h : sc.Framed) (s : Statement) : (sc.note s).Framed := by
  rw [Framed] at h
  unfold Scope.note Framed
  split
  · split
    · exact h
    · split
      · exact (Frames.length_applyOuter _ _).trans h
      · exact (Frames.length_applyInner _ _).trans h
  · exact h

/-- Entering a container keeps a scope framed. -/
theorem Framed.enter (h : sc.Framed) (c : Container) : (sc.enter c).Framed := by
  rw [Framed] at h ⊢
  rw [Scope.enter, List.countP_cons]
  cases c.isBranch with
  | true => simpa using h
  | false => simpa using h

/-- Leaving a container keeps a scope framed. -/
theorem Framed.leave (h : sc.Framed) : sc.leave.Framed := by
  rw [Framed] at h ⊢
  obtain ⟨ancestors, frames⟩ := sc
  cases ancestors with
  | nil =>
    obtain rfl : frames = [] := List.length_eq_zero_iff.1 h
    rfl
  | cons c cs =>
    rw [List.countP_cons] at h
    cases hc : c.isBranch with
    | true => simpa [Scope.leave, hc] using h
    | false =>
      rw [hc] at h
      simp only [Bool.not_false, if_true] at h
      simp [Scope.leave, hc, h]

/-- A scope is framed at every step. -/
theorem Framed.at (h : sc.Framed) : ∀ step, (sc.at step).Framed
  | .enter c => h.enter c
  | .meet s => h.note s
  | .leave _ => h

/-- A scope is framed after every step. -/
theorem Framed.after (h : sc.Framed) : ∀ step, (sc.after step).Framed
  | .enter c => h.enter c
  | .meet s => h.note s
  | .leave _ => h.leave

/-- A scope is framed behind every walk. -/
theorem Framed.behind (h : sc.Framed) (steps : List Step) : (sc.behind steps).Framed := by
  induction steps generalizing sc with
  | nil => exact h
  | cons step steps ih => exact ih (h.after step)

/-- Every step takes place in a scope with one frame for each container but branches. -/
theorem Framed.withScopes (h : sc.Framed) (steps : List Step) :
    ∀ v ∈ withScopes sc steps, v.2.Framed := by
  induction steps generalizing sc with
  | nil => simp [RobotSuite.withScopes]
  | cons step steps ih =>
    rw [RobotSuite.withScopes]
    exact List.forall_mem_cons.2 ⟨h.at step, ih (h.after step)⟩

/-- No container around a place, no frame in force there. -/
theorem Framed.eq_empty (h : sc.Framed) (ha : sc.ancestors = []) : sc = {} := by
  obtain ⟨ancestors, frames⟩ := sc
  obtain rfl : ancestors = [] := ha
  obtain rfl : frames = [] := List.length_eq_zero_iff.1 h
  rfl

end Scope

/-! ## Containers in order -/

/-- Two walks enter containers one after the other. -/
theorem enteredContainers_append (a b : List Step) :
    enteredContainers (a ++ b) = enteredContainers a ++ enteredContainers b :=
  List.filterMap_append

/-- The containers of parts are entered one part after the other. -/
theorem enteredContainers_flatMap {α : Type} (steps : α → List Step) (xs : List α) :
    enteredContainers (xs.flatMap steps) = xs.flatMap fun x => enteredContainers (steps x) :=
  List.filterMap_flatMap

/-- A block enters itself, its body and its branches. -/
theorem enteredContainers_control (type : ControlType) (span : Span) (header : Statement)
    (body : List BodyItem) (branches : List Branch) (close : Option Statement)
    (label : Option Nat) :
    enteredContainers (ControlBlock.steps ⟨type, span, header, body, branches, close, label⟩) =
      .control ⟨type, span, header, body, branches, close, label⟩ ::
        (enteredContainers (bodySteps body) ++ enteredContainers (branchesSteps branches)) := by
  have hclose : enteredContainers (close.toList.map .meet) = [] := by cases close <;> rfl
  rw [ControlBlock.steps]
  show _ :: enteredContainers (_ ++ _ ++ _ ++ [_]) = _
  rw [enteredContainers_append, enteredContainers_append, enteredContainers_append, hclose,
    List.append_nil]
  exact congrArg _ (List.append_nil _)

/-- Branches enter themselves and their bodies. -/
theorem enteredContainers_branches (span : Span) (header : Statement) (body : List BodyItem)
    (label : Option Nat) (bs : List Branch) :
    enteredContainers (branchesSteps (⟨span, header, body, label⟩ :: bs)) =
      .branch ⟨span, header, body, label⟩ ::
        (enteredContainers (bodySteps body) ++ enteredContainers (branchesSteps bs)) := by
  rw [branchesSteps, Branch.steps, enteredContainers_append]
  show _ :: enteredContainers (_ ++ [_]) ++ _ = _
  rw [enteredContainers_append]
  simp [enteredContainers]

/-- A block enters itself and its body. -/
theorem enteredContainers_block (b : Block) :
    enteredContainers b.steps = .block b :: enteredContainers (bodySteps b.body) := by
  rw [Block.steps]
  show _ :: enteredContainers (_ ++ [_]) = _
  rw [enteredContainers_append]
  simp [enteredContainers]

/-- A section enters itself and its items. -/
theorem enteredContainers_section (s : Section) :
    enteredContainers s.steps =
      .sect s :: enteredContainers (s.body.flatMap SectionItem.steps) := by
  have hheader : enteredContainers (s.header.toList.map .meet) = [] := by cases s.header <;> rfl
  rw [Section.steps]
  show _ :: enteredContainers (_ ++ _ ++ [_]) = _
  rw [enteredContainers_append, enteredContainers_append, hheader]
  simp [enteredContainers]

/-- A file enters itself and its sections. -/
theorem enteredContainers_file (f : File) :
    f.containers = .file f :: enteredContainers (f.sections.flatMap Section.steps) := by
  rw [File.containers, File.steps]
  show _ :: enteredContainers (_ ++ [_]) = _
  rw [enteredContainers_append]
  exact congrArg _ (List.append_nil _)

/-! ## What is entered inside a container -/

/-- A container inside of what has some statements. -/
structure Container.IsInside (c : Container) (ss : List Statement) : Prop where
  ne_file : c.type ≠ .file
  header : ∀ h ∈ c.header?, h ∈ ss

/-- A container inside statements is inside more of them. -/
theorem Container.IsInside.mono {c : Container} {ss rs : List Statement} (h : c.IsInside ss)
    (hsub : ss ⊆ rs) : c.IsInside rs :=
  ⟨h.ne_file, fun header hheader => hsub (h.header header hheader)⟩

mutual

/-- The containers of a body are inside its statements. -/
theorem inside_body : ∀ items : List BodyItem, ∀ c ∈ enteredContainers (bodySteps items),
    c.IsInside (bodyStatements items)
  | [], c, hc => by simp [bodySteps, enteredContainers] at hc
  | .statement s :: items, c, hc => by
    rw [bodySteps, BodyItem.steps, enteredContainers_append] at hc
    exact (inside_body items c hc).mono (List.subset_append_right _ _)
  | .control ⟨type, span, header, body, branches, close, label⟩ :: items, c, hc => by
    rw [bodySteps, BodyItem.steps, enteredContainers_append, enteredContainers_control,
      List.mem_append, List.mem_cons, List.mem_append] at hc
    rw [bodyStatements, BodyItem.statements, ControlBlock.statements]
    rcases hc with (rfl | hc | hc) | hc
    · exact ⟨by simp [Container.type], by simp [Container.header?]⟩
    · exact (inside_body body c hc).mono (by simp)
    · exact (inside_branches branches c hc).mono fun _ hmem => by simp [hmem]
    · exact (inside_body items c hc).mono (List.subset_append_right _ _)

/-- The same for the branches of a block. -/
theorem inside_branches : ∀ bs : List Branch, ∀ c ∈ enteredContainers (branchesSteps bs),
    c.IsInside (branchesStatements bs)
  | [], c, hc => by simp [branchesSteps, enteredContainers] at hc
  | ⟨span, header, body, label⟩ :: bs, c, hc => by
    rw [enteredContainers_branches, List.mem_cons, List.mem_append] at hc
    rw [branchesStatements, Branch.statements]
    rcases hc with rfl | hc | hc
    · exact ⟨by simp [Container.type], by simp [Container.header?]⟩
    · exact (inside_body body c hc).mono (by simp)
    · exact (inside_branches bs c hc).mono (List.subset_append_right _ _)

end

/-- The same for a section. -/
theorem inside_section (s : Section) :
    ∀ c ∈ enteredContainers s.steps, c.IsInside s.statements := by
  have hitems (items : List SectionItem) :
      ∀ c ∈ enteredContainers (items.flatMap SectionItem.steps),
        c.IsInside (itemsStatements items) := by
    induction items with
    | nil => simp [enteredContainers]
    | cons item items ih =>
      rw [List.flatMap_cons, enteredContainers_append, List.forall_mem_append]
      refine ⟨fun c hc => Container.IsInside.mono ?_ (List.subset_append_left _ _),
        fun c hc => (ih c hc).mono (List.subset_append_right _ _)⟩
      cases item with
      | statement s => simp [SectionItem.steps, enteredContainers] at hc
      | block b =>
        rw [SectionItem.steps, enteredContainers_block, List.mem_cons] at hc
        rcases hc with rfl | hc
        · exact ⟨by simp [Container.type],
            by simp [Container.header?, SectionItem.statements, Block.statements]⟩
        · exact (inside_body b.body c hc).mono (List.subset_cons_self _ _)
  intro c hc
  rw [enteredContainers_section, List.mem_cons] at hc
  rcases hc with rfl | hc
  · exact ⟨by simp [Container.type],
      fun h hh => List.mem_append_left _ (Option.mem_toList.2 hh)⟩
  · exact (hitems s.body c hc).mono (List.subset_append_right _ _)

section
variable {f g : File} {c : Container} {v : Step × Scope}

/-- The containers of a file are the file and what is inside it. -/
theorem inside_of_containers (hc : c ∈ f.containers) : c = .file f ∨ c.IsInside f.statements := by
  rw [enteredContainers_file, List.mem_cons] at hc
  refine hc.imp_right fun hc => ?_
  obtain ⟨step, hstep, henter⟩ := List.mem_filterMap.1 hc
  obtain ⟨s, hs, hstep⟩ := List.mem_flatMap.1 hstep
  exact (inside_section s c (List.mem_filterMap.2 ⟨step, hstep, henter⟩)).mono
    fun r hr => List.mem_flatMap.2 ⟨s, hs, hr⟩

/-- The header of a container is one of the statements of the file. -/
theorem header_mem_of_containers {h : Statement} (hc : c ∈ f.containers) (hh : h ∈ c.header?) :
    h ∈ f.statements := by
  rcases inside_of_containers hc with rfl | hinside
  · cases hh
  · exact hinside.header h hh

/-- A step met in its scope is a step of the walk. -/
theorem mem_steps_of_withScopes {sc : Scope} {steps : List Step} {v : Step × Scope}
    (h : v ∈ withScopes sc steps) : v.1 ∈ steps := by
  induction steps generalizing sc with
  | nil => cases h
  | cons step steps ih =>
    rcases List.mem_cons.1 h with rfl | h
    · exact List.mem_cons_self
    · exact List.mem_cons_of_mem _ (ih h)

/-- What a walk enters is one of the containers of the file. -/
theorem mem_containers_of_visits (hv : v ∈ f.visits) (h : v.1 = .enter c) : c ∈ f.containers :=
  List.mem_filterMap.2 ⟨v.1, mem_steps_of_withScopes hv, by rw [h]⟩

/-- The only file that a walk through a file enters is that file. -/
theorem eq_file_of_visits (hv : v ∈ f.visits) (h : v.1 = .enter (.file g)) : g = f := by
  rcases inside_of_containers (mem_containers_of_visits hv h) with hsame | hinside
  · exact Container.file.inj hsame
  · exact absurd rfl hinside.ne_file

end

end RobotSuite
