/-
# Walking through a file

A walk enters a container, meets its statements and inner containers in the order in
which they are written, and leaves it.  `File.steps` is that sequence, and `File.visits`
pairs each step with the scope in which it takes place.
-/

import RobotSuite.Scope

namespace RobotSuite

/-- One step of a walk. -/
inductive Step where
  | enter (c : Container)
  | meet (s : Statement)
  | leave (c : Container)

mutual

/-- The steps through a body item. -/
def BodyItem.steps : BodyItem → List Step
  | .statement s => [.meet s]
  | .control c => c.steps

/-- The steps through a control block. -/
def ControlBlock.steps : ControlBlock → List Step
  | ⟨type, span, header, body, branches, close, label⟩ =>
    let c := Container.control ⟨type, span, header, body, branches, close, label⟩
    .enter c :: .meet header ::
      (bodySteps body ++ branchesSteps branches ++ close.toList.map .meet ++ [.leave c])

/-- The steps through a body. -/
def bodySteps : List BodyItem → List Step
  | [] => []
  | item :: items => item.steps ++ bodySteps items

/-- The steps through a branch. -/
def Branch.steps : Branch → List Step
  | ⟨span, header, body, label⟩ =>
    let c := Container.branch ⟨span, header, body, label⟩
    .enter c :: .meet header :: (bodySteps body ++ [.leave c])

/-- The steps through the branches of a block. -/
def branchesSteps : List Branch → List Step
  | [] => []
  | b :: bs => b.steps ++ branchesSteps bs

end

/-- The steps through a block. -/
def Block.steps (b : Block) : List Step :=
  .enter (.block b) :: .meet b.header :: (bodySteps b.body ++ [.leave (.block b)])

/-- The steps through a section item. -/
def SectionItem.steps : SectionItem → List Step
  | .statement s => [.meet s]
  | .block b => b.steps

/-- The steps through a section. -/
def Section.steps (s : Section) : List Step :=
  .enter (.sect s) ::
    (s.header.toList.map .meet ++ s.body.flatMap SectionItem.steps ++ [.leave (.sect s)])

/-- The steps through a file. -/
def File.steps (f : File) : List Step :=
  .enter (.file f) :: (f.sections.flatMap Section.steps ++ [.leave (.file f)])

/-- The statements that a walk meets. -/
def metStatements (steps : List Step) : List Statement :=
  steps.filterMap fun
    | .meet s => some s
    | _ => none

/-- The containers that a walk enters. -/
def enteredContainers (steps : List Step) : List Container :=
  steps.filterMap fun
    | .enter c => some c
    | _ => none

/-- The scope in which a step takes place. -/
def Scope.at (sc : Scope) : Step → Scope
  | .enter c => sc.enter c
  | .meet s => sc.note s
  | .leave _ => sc

/-- The scope behind a step. -/
def Scope.after (sc : Scope) : Step → Scope
  | .enter c => sc.enter c
  | .meet s => sc.note s
  | .leave _ => sc.leave

/-- Pair each step with the scope in which it takes place. -/
def withScopes (sc : Scope) : List Step → List (Step × Scope)
  | [] => []
  | step :: steps => (step, sc.at step) :: withScopes (sc.after step) steps

/-- The steps through a file with their scopes. -/
def File.visits (f : File) : List (Step × Scope) := withScopes {} f.steps

/-- The containers of a file, each in front of those inside it. -/
def File.containers (f : File) : List Container := enteredContainers f.steps

end RobotSuite
