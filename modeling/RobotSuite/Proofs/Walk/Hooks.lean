/-
# Hooks for statements

A reading walk meets the statements of a file without changing them (`File.meetings`).  A transform
replaces statements, headers among them, while it walks.  Both walks show the same: a transform that
decides about nothing but statements, and breaks off at none that the reading walk meets, is asked
once for each of these, in order, in the scope in which the reading walk meets the statement
(`Transform.Single.run_eq`).  One that has a hook for statements is such a transform
(`Hook.walks_agree`).
-/

import Mathlib.Data.List.ReduceOption
import RobotSuite.Proofs.Transform.FrozenRegions
import RobotSuite.Proofs.Transform.Mirrors
import RobotSuite.Proofs.Walk.Scopes

namespace RobotSuite

namespace Transform

/-- A transform that decides about nothing but statements. -/
structure Single (t : Transform) : Prop where
  body : t.leaveBody = fun _ _ _ => .keep
  sect : t.leaveSection = fun _ _ _ => .keep
  file : t.leaveFile = fun _ _ => .keep

/-- What a transform makes of a statement that is met in a scope. -/
def answer (t : Transform) (n : Nat) (met : Statement × Scope) : Statement :=
  (t.statement met.2 n met.1).outcome met.1 (replacementIssues met.1)

/-- Why the replacement of a statement that is met in a scope is refused, if it is. -/
def refusal? (t : Transform) (n : Nat) (met : Statement × Scope) : Option Issue :=
  match t.statement met.2 n met.1 with
  | .put new => (replacementIssues met.1 new).head?
  | _ => none

/-- What a transform makes of statements, the first of which has a number. -/
def answers (t : Transform) (n : Nat) (met : List (Statement × Scope)) : List Statement :=
  met.mapIdx fun i m => t.answer (n + i) m

/-- Why replacements of statements are refused, in order. -/
def refusals (t : Transform) (n : Nat) (met : List (Statement × Scope)) : List Issue :=
  (met.mapIdx fun i m => t.refusal? (n + i) m).reduceOption

/-- Whether a transform breaks off at none of some statements. -/
def GoesOn (t : Transform) (met : List (Statement × Scope)) : Prop :=
  ∀ m ∈ met, ∀ n, (t.statement m.2 n m.1).breakdown? = none

section
variable (t : Transform) (n : Nat) (a b : List (Statement × Scope))

@[simp] theorem answers_nil : t.answers n [] = [] := rfl

@[simp] theorem refusals_nil : t.refusals n [] = [] := rfl

/-- Two stretches are answered one after the other. -/
theorem answers_append : t.answers n (a ++ b) =
    t.answers n a ++ t.answers (n + a.length) b := by
  rw [answers, List.mapIdx_append]
  refine congrArg _ (congrArg (fun f => b.mapIdx f) ?_)
  funext i m
  rw [Nat.add_comm i, Nat.add_assoc]

/-- Two stretches are refused one after the other. -/
theorem refusals_append : t.refusals n (a ++ b) =
    t.refusals n a ++ t.refusals (n + a.length) b := by
  rw [refusals, List.mapIdx_append, List.reduceOption_append]
  refine congrArg _ (congrArg (fun f => (b.mapIdx f).reduceOption) ?_)
  funext i m
  rw [Nat.add_comm i, Nat.add_assoc]

end

/-! ## Following a walk -/

/-- A transform goes from `p` to `q` as the reading walk goes through some steps, and makes `new` of
the statements on its way. -/
structure Follows (t : Transform) (p : Progress) (steps : List Step) (new : List Statement)
    (q : Progress) : Prop where
  scope : q.scope = p.scope.behind steps
  index : q.index = p.index + (meetings p.scope steps).length
  broken : q.broken = none
  new : new = t.answers p.index (meetings p.scope steps)
  refused : q.refused = p.refused ++ t.refusals p.index (meetings p.scope steps)

section
variable {t : Transform} {p q r : Progress} {a b : List Step}
  {x y : List Statement}

theorem Follows.nil (hp : p.broken = none) : t.Follows p [] [] p :=
  ⟨rfl, rfl, hp, rfl, (List.append_nil _).symm⟩

/-- Following two stretches follows both. -/
theorem Follows.append (h : t.Follows p a x q) (h' : t.Follows q b y r) :
    t.Follows p (a ++ b) (x ++ y) r := by
  have hmet : meetings q.scope b = meetings (p.scope.behind a) b := by rw [h.scope]
  constructor
  · rw [h'.scope, h.scope, Scope.behind_append]
  · rw [h'.index, h.index, hmet, meetings_append, List.length_append, Nat.add_assoc]
  · exact h'.broken
  · rw [h'.new, h.new, h.index, hmet, meetings_append, answers_append]
  · rw [h'.refused, h.refused, h.index, hmet, meetings_append, refusals_append,
      List.append_assoc]

/-- The walk through a container. -/
theorem Follows.around {c : Container} (h : t.Follows (p.enter c) a x q) :
    t.Follows p (.enter c :: (a ++ [.leave c])) x q.leave := by
  have hmet : meetings p.scope (.enter c :: (a ++ [.leave c])) =
      meetings (p.enter c).scope a := by
    rw [meetings_enter, meetings_append, meetings_leave, meetings_nil, List.append_nil]
    rfl
  constructor
  · rw [Scope.behind_cons, Scope.behind_append]
    exact congrArg Scope.leave h.scope
  · rw [hmet]
    exact h.index
  · exact h.broken
  · rw [hmet]
    exact h.new
  · rw [hmet]
    exact h.refused

/-- Whether further blocks or sections follow makes no difference. -/
theorem Follows.congr {p' : Progress} (h : t.Follows p' a x q) (hs : p'.scope = p.scope)
    (hi : p'.index = p.index) (hr : p'.refused = p.refused) : t.Follows p a x q := by
  obtain ⟨hscope, hindex, hbroken, hnew, hrefused⟩ := h
  rw [hs] at hscope hindex hnew hrefused
  rw [hi] at hindex hnew hrefused
  rw [hr] at hrefused
  exact ⟨hscope, hindex, hbroken, hnew, hrefused⟩

/-- A replacement is put, or the first thing that is wrong with it is noted. -/
theorem carryOut_eq (t : Transform) (p : Progress) (n : Nat) (met : Statement × Scope)
    (hg : (t.statement met.2 n met.1).breakdown? = none) :
    p.carryOut met.1 (replacementIssues met.1) (t.statement met.2 n met.1) =
      (t.answer n met, { p with refused := p.refused ++ (t.refusal? n met).toList }) := by
  rw [answer, refusal?]
  cases hd : t.statement met.2 n met.1 with
  | keep => simp [Progress.carryOut, Decision.outcome]
  | put new =>
    rw [Progress.carryOut, Decision.outcome]
    cases hi : replacementIssues met.1 new with
    | nil => simp [hi]
    | cons issue rest => simp [hi]
  | breakOff reason =>
    rw [hd] at hg
    cases hg

/-- The transform is asked for a statement that is met. -/
theorem follows_onStatement (t : Transform) (hp : p.broken = none) {s : Statement}
    (hg : t.GoesOn (meetings p.scope [.meet s])) :
    t.Follows p [.meet s] [(t.onStatement p s).1.1] (t.onStatement p s).2 := by
  have hoff (q : Progress) (off : Bool) : (if off then q.switchOff s else q) =
      { q with off := (if off then q.switchOff s else q).off } := by
    unfold Progress.switchOff
    split
    · split <;> rfl
    · rfl
  rw [Transform.onStatement, hp, hoff]
  dsimp only
  rw [t.carryOut_eq _ p.index (s, p.scope.note s) (hg _ (List.mem_singleton_self _) _)]
  constructor
  · rfl
  · rfl
  · rfl
  · rfl
  · show p.refused ++ _ =
      p.refused ++ [t.refusal? (p.index + 0) (s, p.scope.note s)].reduceOption
    rw [Nat.add_zero]
    cases t.refusal? p.index (s, p.scope.note s) <;> rfl

/-- A walk that goes on through some steps does so through their parts. -/
theorem Follows.goesOn (h : t.Follows p a x q) (hg : t.GoesOn (meetings p.scope (a ++ b))) :
    t.GoesOn (meetings q.scope b) := by
  rw [h.scope]
  rw [meetings_append] at hg
  exact fun m hm => hg m (List.mem_append_right _ hm)

/-- What goes on over two stretches does over the first. -/
theorem goesOn_left (hg : t.GoesOn (meetings p.scope (a ++ b))) :
    t.GoesOn (meetings p.scope a) := by
  rw [meetings_append] at hg
  exact fun m hm => hg m (List.mem_append_left _ hm)

/-- What goes on around a container does inside it. -/
theorem goesOn_around {c : Container}
    (hg : t.GoesOn (meetings p.scope (.enter c :: (a ++ [.leave c])))) :
    t.GoesOn (meetings (p.enter c).scope a) := by
  rw [meetings_enter] at hg
  exact goesOn_left (p := p.enter c) hg

/-! ## The whole walk -/

/-- A closing statement is followed. -/
theorem follows_onStatement? (t : Transform) (hp : p.broken = none) {s : Option Statement}
    (hg : t.GoesOn (meetings p.scope (s.toList.map .meet))) :
    t.Follows p (s.toList.map .meet) ((t.onStatement? p s).1.map (·.1)).toList
      (t.onStatement? p s).2 := by
  cases s with
  | none => exact .nil hp
  | some s => exact t.follows_onStatement hp hg

/-- A run that follows settles for the new. -/
theorem Follows.settle {α : Type} (h : t.Follows p a x q) (old new : α) :
    q.settle old new = new := by
  rw [Progress.settle, h.broken]
  rfl

/-- Such a transform has nothing to say about bodies. -/
theorem Single.onBody_eq (h : t.Single) (hp : p.broken = none) (header : Bool)
    (items : List (Marked BodyItem)) :
    t.onBody p header items = (p.remark BodyItem.statements items, p) := by
  rw [Transform.onBody, hp, h.body]
  rfl

mutual

/-- The transform of an item follows the walk over it. -/
theorem Single.follows_onItem (h : t.Single) {p : Progress} (hp : p.broken = none) :
    ∀ {item : BodyItem}, t.GoesOn (meetings p.scope item.steps) →
      t.Follows p item.steps (t.onItem p item).1.1.statements (t.onItem p item).2
  | .statement s, hg => by
    rw [BodyItem.steps] at hg ⊢
    rw [Transform.onItem]
    show t.Follows p _ (BodyItem.statements (.statement _)) _
    rw [BodyItem.statements]
    exact t.follows_onStatement hp hg
  | .control c, hg => by
    rw [BodyItem.steps] at hg ⊢
    rw [Transform.onItem]
    show t.Follows p _ (BodyItem.statements (.control _)) _
    rw [BodyItem.statements]
    exact Single.follows_onControl h hp hg

/-- The same for a control block. -/
theorem Single.follows_onControl (h : t.Single) {p : Progress} (hp : p.broken = none) :
    ∀ {c : ControlBlock}, t.GoesOn (meetings p.scope c.steps) →
      t.Follows p c.steps (t.onControl p c).1.1.statements (t.onControl p c).2
  | ⟨type, span, header, body, branches, close, label⟩, hg => by
    rw [ControlBlock.steps] at hg
    replace hg := goesOn_around (a := [.meet header] ++
      (bodySteps body ++ branchesSteps branches ++ close.toList.map .meet)) hg
    rw [List.append_assoc (bodySteps body)] at hg
    have hheader := t.follows_onStatement
      (p := p.enter (.control ⟨type, span, header, body, branches, close, label⟩)) hp
      (goesOn_left hg)
    replace hg := hheader.goesOn hg
    have hitems := Single.follows_onItems h hheader.broken (goesOn_left hg)
    replace hg := hitems.goesOn hg
    have hbranches := Single.follows_onBranches h hitems.broken (goesOn_left hg)
    have hclose := t.follows_onStatement? hbranches.broken (hbranches.goesOn hg)
    have hall := hheader.append ((hitems.append hbranches).append hclose)
    rw [Transform.onControl, ControlBlock.steps]
    dsimp only
    rw [h.onBody_eq hclose.broken]
    dsimp only
    rw [hall.settle, hall.settle, Progress.unmark_remark]
    show t.Follows p _ (ControlBlock.statements ⟨_, _, _, _, _, _, _⟩) _
    rw [ControlBlock.statements]
    exact hall.around

/-- The same for the items of a body. -/
theorem Single.follows_onItems (h : t.Single) {p : Progress} (hp : p.broken = none) :
    ∀ {items : List BodyItem}, t.GoesOn (meetings p.scope (bodySteps items)) →
      t.Follows p (bodySteps items) (bodyStatements (unmark (t.onItems p items).1))
        (t.onItems p items).2
  | [], _ => by
    rw [Transform.onItems, bodySteps]
    exact .nil hp
  | item :: items, hg => by
    rw [bodySteps] at hg ⊢
    have hitem := Single.follows_onItem h hp (goesOn_left hg)
    rw [Transform.onItems]
    show t.Follows p _ (bodyStatements (_ :: _)) _
    rw [bodyStatements]
    exact hitem.append (Single.follows_onItems h hitem.broken (hitem.goesOn hg))

/-- The same for a branch. -/
theorem Single.follows_onBranch (h : t.Single) {p : Progress} (hp : p.broken = none) :
    ∀ {b : Branch}, t.GoesOn (meetings p.scope b.steps) →
      t.Follows p b.steps (t.onBranch p b).1.1.statements (t.onBranch p b).2
  | ⟨span, header, body, label⟩, hg => by
    rw [Branch.steps] at hg
    replace hg := goesOn_around (a := [.meet header] ++ bodySteps body) hg
    have hheader := t.follows_onStatement
      (p := p.enter (.branch ⟨span, header, body, label⟩)) hp (goesOn_left hg)
    have hitems := Single.follows_onItems h hheader.broken (hheader.goesOn hg)
    have hall := hheader.append hitems
    rw [Transform.onBranch, Branch.steps]
    dsimp only
    rw [h.onBody_eq hitems.broken]
    dsimp only
    rw [hall.settle, Progress.unmark_remark]
    show t.Follows p _ (Branch.statements ⟨_, _, _, _⟩) _
    rw [Branch.statements]
    exact hall.around

/-- The same for the branches of a block. -/
theorem Single.follows_onBranches (h : t.Single) {p : Progress} (hp : p.broken = none) :
    ∀ {bs : List Branch}, t.GoesOn (meetings p.scope (branchesSteps bs)) →
      t.Follows p (branchesSteps bs) (branchesStatements (unmark (t.onBranches p bs).1))
        (t.onBranches p bs).2
  | [], _ => by
    rw [Transform.onBranches, branchesSteps]
    exact .nil hp
  | b :: bs, hg => by
    rw [branchesSteps] at hg ⊢
    have hbranch := Single.follows_onBranch h hp (goesOn_left hg)
    rw [Transform.onBranches]
    show t.Follows p _ (branchesStatements (_ :: _)) _
    rw [branchesStatements]
    exact hbranch.append (Single.follows_onBranches h hbranch.broken (hbranch.goesOn hg))

end

/-- The same for a block. -/
theorem Single.follows_onBlock (h : t.Single) (hp : p.broken = none) {b : Block}
    (hg : t.GoesOn (meetings p.scope b.steps)) :
    t.Follows p b.steps (t.onBlock p b).1.1.statements (t.onBlock p b).2 := by
  rw [Block.steps] at hg
  replace hg := goesOn_around (a := [.meet b.header] ++ bodySteps b.body) hg
  have hheader := t.follows_onStatement (p := p.enter (.block b)) hp (goesOn_left hg)
  have hitems := h.follows_onItems hheader.broken (hheader.goesOn hg)
  have hall := hheader.append hitems
  rw [Transform.onBlock, Block.steps]
  dsimp only
  rw [h.onBody_eq hitems.broken]
  dsimp only
  rw [hall.settle, Progress.unmark_remark]
  exact hall.around

/-- The same for the items of a section. -/
theorem Single.follows_onSectionItems (h : t.Single) (hp : p.broken = none)
    {items : List SectionItem} (hg : t.GoesOn (meetings p.scope (items.flatMap SectionItem.steps))) :
    t.Follows p (items.flatMap SectionItem.steps)
      (itemsStatements (unmark (t.onSectionItems p items).1)) (t.onSectionItems p items).2 := by
  induction items generalizing p with
  | nil =>
    rw [Transform.onSectionItems]
    exact .nil hp
  | cons item items ih =>
    rw [List.flatMap_cons] at hg ⊢
    cases item with
    | statement s =>
      have hitem := t.follows_onStatement hp (goesOn_left hg)
      rw [Transform.onSectionItems]
      exact hitem.append (ih hitem.broken (hitem.goesOn hg))
    | block b =>
      have hitem := h.follows_onBlock
        (p := { p with blockFollows := items.any (·.isBlock) }) hp (goesOn_left hg)
      rw [Transform.onSectionItems]
      exact (hitem.append (ih hitem.broken (hitem.goesOn hg))).congr rfl rfl rfl

/-- The same for a section. -/
theorem Single.follows_onSection (h : t.Single) (hp : p.broken = none) {s : Section}
    (hg : t.GoesOn (meetings p.scope s.steps)) :
    t.Follows p s.steps (t.onSection p s).1.statements (t.onSection p s).2 := by
  rw [Section.steps] at hg
  replace hg := goesOn_around hg
  have hheader := t.follows_onStatement? (p := p.enter (.sect s)) hp (goesOn_left hg)
  have hitems := h.follows_onSectionItems hheader.broken (hheader.goesOn hg)
  have hall := hheader.append hitems
  have hbody (items : List (Marked SectionItem)) (q : Progress) (hq : q.broken = none)
      (header : Option (Marked Statement)) : t.onSectionBody q s.kind header items =
        (q.remark SectionItem.statements items, q) := by
    rw [Transform.onSectionBody, hq, h.sect]
    rfl
  rw [Transform.onSection, Section.steps]
  dsimp only
  rw [hbody _ _ hitems.broken]
  dsimp only
  rw [hall.settle, Progress.unmark_remark]
  exact hall.around

/-- The same for the sections of a file. -/
theorem Single.follows_onSections (h : t.Single) (hp : p.broken = none) {ss : List Section}
    (hg : t.GoesOn (meetings p.scope (ss.flatMap Section.steps))) :
    t.Follows p (ss.flatMap Section.steps)
      ((t.onSections p ss).1.flatMap Section.statements) (t.onSections p ss).2 := by
  induction ss generalizing p with
  | nil =>
    rw [Transform.onSections]
    exact .nil hp
  | cons s ss ih =>
    rw [List.flatMap_cons] at hg ⊢
    have hsect := h.follows_onSection
      (p := { p with sectionFollows := !ss.isEmpty }) hp (goesOn_left hg)
    rw [Transform.onSections]
    exact (hsect.append (ih hsect.broken (hsect.goesOn hg))).congr rfl rfl rfl

/-- The walk through the sections of a file. -/
theorem Single.follows_file (h : t.Single) {f : File} (hg : t.GoesOn f.meetings) :
    t.Follows (({} : Progress).enter (.file f)) (f.sections.flatMap Section.steps)
      ((t.onSections (({} : Progress).enter (.file f)) f.sections).1.flatMap Section.statements)
      (t.onSections (({} : Progress).enter (.file f)) f.sections).2 :=
  h.follows_onSections rfl (goesOn_around (p := {}) hg)

/-- **A transform that decides about statements only,** and breaks off at none that the reading walk
meets, makes its answers of these, and refuses what they are refused for. -/
theorem Single.run_eq (h : t.Single) {f : File} (hg : t.GoesOn f.meetings) :
    (t.run f).tree.statements = f.meetings.mapIdx t.answer ∧
      (t.run f).refused = (f.meetings.mapIdx t.refusal?).reduceOption ∧
      (t.run f).broken = none := by
  have hsections := h.follows_file hg
  have hall := hsections.around
  have hrun : ∀ p, p.broken = none → ∀ ss, t.onFileBody p ss = (ss, p) := by
    intro p hp ss
    rw [Transform.onFileBody, hp, h.file]
    rfl
  rw [Transform.run]
  dsimp only
  rw [hrun _ hsections.broken]
  refine ⟨hall.new.trans ?_, hall.refused.trans ?_, hsections.broken⟩
  · simp only [answers, Nat.zero_add]
    rfl
  · simp only [refusals, Nat.zero_add]
    rfl

end

/-- Behind the sections the walk stands in the file again. -/
theorem ancestors_onSections (t : Transform) (p : Progress) (ss : List Section) :
    (t.onSections p ss).2.scope.ancestors = p.scope.ancestors := by
  induction ss generalizing p with
  | nil => rw [Transform.onSections]
  | cons s ss ih =>
    obtain ⟨b, hback⟩ := t.back_onSection { p with sectionFollows := !ss.isEmpty } s
    rw [Transform.onSections]
    exact (ih _).trans hback.ancestors

end Transform

/-! ## Hooks -/

/-- A hook for statements.  It is asked in a scope, is told how many statements were met before,
and returns a replacement or nothing. -/
abbrev Hook := Scope → Nat → Statement → Option Statement

namespace Hook

/-- What a hook makes of a statement that is met in a scope. -/
def answer (hook : Hook) (n : Nat) (met : Statement × Scope) : Statement :=
  (Decision.ofOption (hook met.2 n met.1)).outcome met.1 (replacementIssues met.1)

/-- Why the replacement of a statement that is met in a scope is refused, if it is. -/
def refusal? (hook : Hook) (n : Nat) (met : Statement × Scope) : Option Issue :=
  (hook met.2 n met.1).bind fun new => (replacementIssues met.1 new).head?

/-- The transform that asks a hook. -/
def transform (hook : Hook) (name : String) : Transform :=
  { name
    statement := fun sc n s => .ofOption (hook sc n s) }

/-- A hook's transform answers every statement with one. -/
theorem single_transform (hook : Hook) (name : String) : (hook.transform name).Single :=
  ⟨rfl, rfl, rfl⟩

/-- A hook's transform goes on. -/
theorem goesOn_transform (hook : Hook) (name : String) (met : List (Statement × Scope)) :
    (hook.transform name).GoesOn met := by
  intro m _ n
  rw [transform]
  dsimp only
  cases hook m.2 n m.1 <;> rfl

/-- A hook's transform refuses what the hook does. -/
theorem refusal?_transform (hook : Hook) (name : String) :
    (hook.transform name).refusal? = hook.refusal? := by
  funext n m
  rw [refusal?, Transform.refusal?, transform]
  dsimp only
  cases hook m.2 n m.1 <;> rfl

/-- A transform that asks a hook makes the answers of the statements that the reading walk meets, and
refuses what they are refused for. -/
theorem run_transform (hook : Hook) (name : String) (f : File) :
    ((hook.transform name).run f).tree.statements = f.meetings.mapIdx hook.answer ∧
      ((hook.transform name).run f).refused = (f.meetings.mapIdx hook.refusal?).reduceOption ∧
      ((hook.transform name).run f).broken = none := by
  have hrun := (hook.single_transform name).run_eq (hook.goesOn_transform name f.meetings)
  rwa [refusal?_transform] at hrun

/-- **A reading walk and a transform show the same.**  A transform that asks a hook, which may
replace any statements, asks it for the statements of the file, once each and in order, and in the
scopes in which the reading walk meets them: with the same containers around, at the same depth and
with the same passes switched off.  In each scope there is a frame for each container around it but
branches, and behind both walks there is neither a container nor a frame. -/
theorem walks_agree (hook : Hook) (name : String) (f : File) :
    let t := hook.transform name
    let q := (t.onSections (({} : Progress).enter (.file f)) f.sections).2.leave
    f.meetings.map (·.1) = f.statements ∧ q.index = f.statements.length ∧
      (t.run f).tree.statements = f.meetings.mapIdx hook.answer ∧
      (t.run f).refused = (f.meetings.mapIdx hook.refusal?).reduceOption ∧
      (∀ v ∈ f.visits, v.2.frames.length = v.2.ancestors.countP fun c => !c.isBranch) ∧
      ({} : Scope).behind f.steps = {} ∧ q.scope = {} := by
  intro t q
  have hall := ((hook.single_transform name).follows_file
    (hook.goesOn_transform name f.meetings)).around
  have hmet := f.map_fst_meetings
  obtain ⟨hnew, hrefused, -⟩ := run_transform hook name f
  have hscope : q.scope = {} := by
    have hframed : q.scope.Framed := by
      rw [hall.scope]
      exact Scope.framed_empty.behind _
    refine hframed.eq_empty ?_
    show List.tail (Scope.ancestors _) = []
    rw [Transform.ancestors_onSections]
    rfl
  refine ⟨hmet, ?_, hnew, hrefused, ?_, ?_, hscope⟩
  · rw [← hmet, List.length_map]
    exact hall.index.trans (Nat.zero_add _)
  · exact Scope.framed_empty.withScopes f.steps
  · exact hall.scope.symm.trans hscope

end Hook

end RobotSuite
