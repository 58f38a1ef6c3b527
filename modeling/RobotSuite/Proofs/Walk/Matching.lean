/-
# Walks that match

Two files have the same tree if walks through them match step by step: they enter containers of the
same type, meet statements that are related, and leave (`Step.Matches`).  Then the statements of the
files are related one by one (`File.Matches.statements`), and a walk through the one comes to them
in the same scopes as a walk through the other (`forall₂_visits`).

A transform that replaces statements only leaves a file that matches the one it has come to
(`Transform.Replaces.run`).  So do walks through files that show alike but for places and marks
(`File.matches_of_view`), and what is read from a text shows like the model that was written
(`File.IsSound.plain_read_back`).
-/

import RobotSuite.Proofs.Format.Columns.Visits
import RobotSuite.Proofs.Tree.SectionReading

namespace RobotSuite

section
variable (R : Statement → Statement → Prop)

/-- Whether two items of bodies are statements that are related, or two control blocks. -/
inductive BodyItem.Matches : BodyItem → BodyItem → Prop
  | statement {s r : Statement} : R s r → BodyItem.Matches (.statement s) (.statement r)
  | control {c d : ControlBlock} : BodyItem.Matches (.control c) (.control d)

/-- Whether two steps of walks do the same: they enter containers of one type with related headers
and items that match, they meet related statements, or they leave. -/
inductive Step.Matches : Step → Step → Prop
  | enter {c d : Container} : d.role = c.role → Option.Rel R c.header? d.header? →
      List.Forall₂ (BodyItem.Matches R) c.body d.body → Step.Matches (.enter c) (.enter d)
  | meet {s r : Statement} : R s r → Step.Matches (.meet s) (.meet r)
  | leave {c d : Container} : Step.Matches (.leave c) (.leave d)

/-- Whether walks through two files match: the files have the same sections, blocks, branches and
statements in the same nesting, and the statements are related. -/
def File.Matches (f g : File) : Prop := List.Forall₂ (Step.Matches R) f.steps g.steps

end

/-! ## Relations of statements -/

/-- One relation behind another, along two lists. -/
theorem forall₂_comp {α β γ : Type} {R : α → β → Prop} {Q : β → γ → Prop} {T : α → γ → Prop}
    {as : List α} {bs : List β} {cs : List γ} (hr : List.Forall₂ R as bs)
    (hq : List.Forall₂ Q bs cs) (h : ∀ a b c, R a b → Q b c → T a c) : List.Forall₂ T as cs := by
  induction hr generalizing cs with
  | nil =>
    cases hq
    exact .nil
  | cons hab _ ih =>
    obtain _ | ⟨hbc, hrest⟩ := hq
    exact .cons (h _ _ _ hab hbc) (ih hrest)

section
variable {R Q T : Statement → Statement → Prop}

/-- Matches of body items compose along a composition of relations. -/
theorem BodyItem.Matches.comp (h : ∀ s m r, R s m → Q m r → T s r) {a b c : BodyItem}
    (hab : a.Matches R b) (hbc : b.Matches Q c) : a.Matches T c := by
  cases hab with
  | statement hs =>
    cases hbc with
    | statement hr => exact .statement (h _ _ _ hs hr)
  | control =>
    cases hbc with
    | control => exact .control

/-- Matches of steps compose along a composition of relations. -/
theorem Step.Matches.comp (h : ∀ s m r, R s m → Q m r → T s r) {a b c : Step}
    (hab : a.Matches R b) (hbc : b.Matches Q c) : a.Matches T c := by
  cases hab with
  | @enter c₁ c₂ hr hh hb =>
    cases hbc with
    | @enter _ c₃ hr' hh' hb' =>
      refine .enter (hr'.trans hr) ?_ (forall₂_comp hb hb' fun _ _ _ => .comp h)
      generalize c₁.header? = x at hh
      generalize c₂.header? = y at hh hh'
      generalize c₃.header? = z at hh'
      cases hh with
      | none =>
        cases hh'
        exact .none
      | some hs =>
        obtain ⟨hr⟩ | _ := hh'
        exact .some (h _ _ _ hs hr)
  | meet hs =>
    cases hbc with
    | meet hr => exact .meet (h _ _ _ hs hr)
  | leave =>
    cases hbc with
    | leave => exact .leave

/-- Files that match a file in between match each other. -/
theorem File.Matches.comp (h : ∀ s m r, R s m → Q m r → T s r) {a b c : File}
    (hab : a.Matches R b) (hbc : b.Matches Q c) : a.Matches T c :=
  forall₂_comp hab hbc fun _ _ _ => .comp h

/-- Walks that match meet as many statements, and these are related. -/
theorem forall₂_metStatements {a b : List Step} (h : List.Forall₂ (Step.Matches R) a b) :
    List.Forall₂ R (metStatements a) (metStatements b) := by
  induction h with
  | nil => exact .nil
  | cons hstep _ ih =>
    cases hstep with
    | enter => exact ih
    | meet hs => exact .cons hs ih
    | leave => exact ih

/-- Files that match hold related statements. -/
theorem File.Matches.statements {f g : File} (h : f.Matches R g) :
    List.Forall₂ R f.statements g.statements := by
  rw [← metStatements_file, ← metStatements_file]
  exact forall₂_metStatements h

end

/-! ## Scopes -/

section
variable {R : Statement → Statement → Prop} {sc sc' : Scope}

/-- **Walks that match go through the same scopes** if types, and the directives of headers and of
comments, are the same. -/
theorem forall₂_visits (ht : ∀ {s r}, R s r → r.type = s.type)
    (hd : ∀ {s r}, R s r → s.type = .comment → r.directive? = s.directive?) {a b : List Step}
    (hh : ∀ c ∈ enteredContainers a, ∀ h ∈ c.header?, ∀ r, R h r → r.directive? = h.directive?)
    (h : List.Forall₂ (Step.Matches R) a b) (hl : sc.Like sc') :
    List.Forall₂ (fun v w => v.1.Matches R w.1 ∧ v.2.Like w.2) (withScopes sc a)
      (withScopes sc' b) := by
  induction h generalizing sc sc' with
  | nil => exact .nil
  | @cons v w _ _ hstep _ ih =>
    cases hstep with
    | @enter c d hr hheader hbody =>
      obtain ⟨hc, hrest⟩ := List.forall_mem_cons.1 hh
      have hdirective : d.header?.bind Statement.directive? =
          c.header?.bind Statement.directive? := by
        generalize d.header? = y at hheader
        generalize c.header? = x at hheader hc
        cases hheader with
        | none => rfl
        | some hs => exact hc _ rfl _ hs
      have hin := hl.enter hr hdirective
      exact .cons ⟨.enter hr hheader hbody, hin⟩ (ih hrest hin)
    | @meet s r hs =>
      have hin : (sc.note s).Like (sc'.note r) := by
        by_cases hc : s.type = .comment
        · exact hl.note (ht hs) (hd hs hc)
        · rw [Scope.note, Scope.note, if_neg hc, if_neg (by rwa [ht hs])]
          exact hl
      exact .cons ⟨.meet hs, hin⟩ (ih hh hin)
    | leave => exact .cons ⟨.leave, hl⟩ (ih hh hl.leave)

/-- Statements that walks meet in the same scopes. -/
theorem forall₂_meetings {a b : List Step}
    (h : List.Forall₂ (fun v w => v.1.Matches R w.1 ∧ v.2.Like w.2) (withScopes sc a)
      (withScopes sc' b)) :
    List.Forall₂ (fun m n => R m.1 n.1 ∧ m.2.Like n.2) (meetings sc a) (meetings sc' b) := by
  rw [meetings, meetings]
  generalize withScopes sc a = vs at h
  generalize withScopes sc' b = ws at h
  induction h with
  | nil => exact .nil
  | @cons v w _ _ hstep _ ih =>
    obtain ⟨step, scope⟩ := v
    obtain ⟨step', scope'⟩ := w
    obtain ⟨hstep, hl⟩ := hstep
    cases hstep with
    | enter => exact ih
    | meet hs => exact .cons ⟨hs, hl⟩ ih
    | leave => exact ih

end

/-! ## Headers -/

/-- Whether statements of a type are headers of containers. -/
def StatementType.isHeading : StatementType → Bool
  | .sectionHeader | .testCaseName | .keywordName => true
  | .forHeader | .whileHeader | .ifHeader | .tryHeader => true
  | .elseIfHeader | .elseHeader | .exceptHeader | .finallyHeader => true
  | _ => false

/-- Whether the header of a container, if it has one, is of a type for headers. -/
def Container.IsHeaded (c : Container) : Prop := ∀ h ∈ c.header?, h.type.isHeading = true

/-- An opener is a heading. -/
theorem isHeading_of_opener {t : StatementType} {type : ControlType} (h : t = type.opener) :
    t.isHeading = true := by
  subst h
  cases type <;> rfl

/-- A branch header is a heading. -/
theorem isHeading_of_branchHeader {t : StatementType} {type : ControlType}
    (h : t ∈ type.branchHeaders) : t.isHeading = true := by
  cases type <;> simp [ControlType.branchHeaders] at h <;>
    rcases h with rfl | rfl | rfl <;> rfl

section
variable {P : Statement → Prop}

mutual

/-- The containers in a block are headed. -/
theorem headed_control : ∀ {c : ControlBlock}, c.Holds P →
    ∀ d ∈ enteredContainers c.steps, d.IsHeaded
  | ⟨type, span, header, body, branches, close, label⟩, h, d, hd => by
    rw [ControlBlock.Holds] at h
    rw [enteredContainers_control, List.mem_cons, List.mem_append] at hd
    rcases hd with rfl | hd | hd
    · intro r hr
      obtain rfl : header = r := Option.some.inj hr
      exact isHeading_of_opener h.1.1
    · exact headed_body h.2.1 d hd
    · exact headed_branches h.2.2.1 d hd

/-- The same for a body. -/
theorem headed_body : ∀ {items : List BodyItem}, bodyHolds P items →
    ∀ d ∈ enteredContainers (bodySteps items), d.IsHeaded
  | [], _, d, hd => by simp [bodySteps, enteredContainers] at hd
  | .statement s :: items, h, d, hd => by
    rw [bodySteps, BodyItem.steps, enteredContainers_append] at hd
    exact headed_body h.2 d hd
  | .control c :: items, h, d, hd => by
    rw [bodyHolds, BodyItem.Holds] at h
    rw [bodySteps, BodyItem.steps, enteredContainers_append, List.mem_append] at hd
    exact hd.elim (headed_control h.1 d) (headed_body h.2 d)

/-- The same for the branches of a block. -/
theorem headed_branches {type : ControlType} : ∀ {bs : List Branch}, branchesHold P type bs →
    ∀ d ∈ enteredContainers (branchesSteps bs), d.IsHeaded
  | [], _, d, hd => by simp [branchesSteps, enteredContainers] at hd
  | ⟨span, header, body, label⟩ :: bs, h, d, hd => by
    rw [branchesHold, Branch.Holds] at h
    rw [enteredContainers_branches, List.mem_cons, List.mem_append] at hd
    rcases hd with rfl | hd | hd
    · intro r hr
      obtain rfl : header = r := Option.some.inj hr
      exact isHeading_of_branchHeader h.1.1.1
    · exact headed_body h.1.2 d hd
    · exact headed_branches h.2 d hd

end

end

/-- The same for a section. -/
theorem headed_section {s : Section} (hs : s.IsSound) :
    ∀ d ∈ enteredContainers s.steps, d.IsHeaded := by
  intro d hd
  rw [enteredContainers_section, List.mem_cons, enteredContainers_flatMap, List.mem_flatMap] at hd
  obtain rfl | ⟨item, hitem, hd⟩ := hd
  · intro r hr
    rw [(hs.header r hr).type]
    rfl
  · cases item with
    | statement r => simp [SectionItem.steps, enteredContainers] at hd
    | block b =>
      obtain ⟨⟨-, hname, -⟩, hbody⟩ := hs.items _ hitem
      rw [SectionItem.steps, enteredContainers_block, List.mem_cons] at hd
      obtain rfl | hd := hd
      · intro r hr
        obtain rfl : b.header = r := Option.some.inj hr
        rw [hname]
        cases b.type <;> rfl
      · exact headed_body hbody d hd

/-- **The containers of a sound file have headers.** -/
theorem File.IsSound.headed {f : File} (h : f.IsSound) : ∀ c ∈ f.containers, c.IsHeaded := by
  intro c hc
  rw [enteredContainers_file, List.mem_cons, enteredContainers_flatMap, List.mem_flatMap] at hc
  obtain rfl | ⟨s, hs, hc⟩ := hc
  · intro r hr
    cases hr
  · exact headed_section (h.sections s hs) c hc

/-! ## Transforms of statements -/

section
variable {R : Statement → Statement → Prop}

/-- Related closing statements are met as matching steps. -/
theorem matches_meets {s r : Option Statement} (h : Option.Rel R s r) :
    List.Forall₂ (Step.Matches R) (s.toList.map .meet) (r.toList.map .meet) := by
  cases h with
  | none => exact .nil
  | some hs => exact .cons (.meet hs) .nil

/-- Walks through containers match if those through their contents do. -/
theorem matches_around {c d : Container} {a b : List Step} (hr : d.role = c.role)
    (hh : Option.Rel R c.header? d.header?)
    (hb : List.Forall₂ (BodyItem.Matches R) c.body d.body)
    (h : List.Forall₂ (Step.Matches R) a b) :
    List.Forall₂ (Step.Matches R) (.enter c :: (a ++ [.leave c])) (.enter d :: (b ++ [.leave d])) :=
  .cons (.enter hr hh hb) (List.rel_append h (.cons .leave .nil))

end

namespace Transform

/-- A transform that replaces statements, each by one that is related to it, and no items. -/
structure Replaces (t : Transform) (R : Statement → Statement → Prop) : Prop where
  refl : ∀ s, R s s
  statement : ∀ {sc n s new}, t.statement sc n s = .put new → new.type = s.type → R s new
  body : t.leaveBody = fun _ _ _ => .keep
  sect : t.leaveSection = fun _ _ _ => .keep
  file : t.leaveFile = fun _ _ => .keep

section
variable {t : Transform} {R : Statement → Statement → Prop} {p : Progress}

/-- A statement is related to what is put in its place. -/
theorem Replaces.onStatement (h : t.Replaces R) (p : Progress) (s : Statement) :
    R s (t.onStatement p s).1.1 := by
  obtain ⟨-, heq | ⟨sc, new, -, hput, htype, -, heq⟩⟩ := t.onStatement_spec p s
  · rw [heq]
    exact h.refl s
  · rw [heq]
    exact h.statement hput htype

/-- A statement is related to what is settled for. -/
theorem Replaces.settle (h : t.Replaces R) (q : Progress) (p : Progress) (s : Statement) :
    R s (q.settle s (t.onStatement p s).1.1) :=
  q.settle_of (h.refl s) (h.onStatement p s)

/-- A closing statement is related to what is settled for. -/
theorem Replaces.onStatement? (h : t.Replaces R) (q p : Progress) (s : Option Statement) :
    Option.Rel R s (q.settle s ((t.onStatement? p s).1.map (·.1))) := by
  cases s with
  | none =>
    refine q.settle_of (P := Option.Rel R none) .none ?_
    exact .none
  | some s =>
    refine q.settle_of (P := Option.Rel R (some s)) (.some (h.refl s)) ?_
    exact .some (h.onStatement p s)

/-- Leaving a body leaves it as it is. -/
theorem Replaces.onBody (h : t.Replaces R) (p : Progress) (header : Bool)
    (items : List (Marked BodyItem)) : unmark (t.onBody p header items).1 = unmark items := by
  obtain ⟨-, heq | ⟨marked, new, -, hput, -, -⟩⟩ := t.onBody_spec p header items
  · exact heq
  · rw [h.body] at hput
    cases hput

mutual

/-- An item matches what becomes of it. -/
theorem Replaces.onItem (h : t.Replaces R) (p : Progress) : ∀ item : BodyItem,
    item.Matches R (t.onItem p item).1.1 ∧
      List.Forall₂ (Step.Matches R) item.steps (t.onItem p item).1.1.steps
  | .statement s => by
    rw [Transform.onItem, BodyItem.steps]
    show BodyItem.Matches R _ (.statement _) ∧
      List.Forall₂ _ _ (BodyItem.steps (.statement _))
    rw [BodyItem.steps]
    exact ⟨.statement (h.onStatement p s), .cons (.meet (h.onStatement p s)) .nil⟩
  | .control c => by
    rw [Transform.onItem, BodyItem.steps]
    show BodyItem.Matches R _ (.control _) ∧ List.Forall₂ _ _ (BodyItem.steps (.control _))
    rw [BodyItem.steps]
    exact ⟨.control, Replaces.onControl h p c⟩

/-- The same for a control block. -/
theorem Replaces.onControl (h : t.Replaces R) (p : Progress) : ∀ c : ControlBlock,
    List.Forall₂ (Step.Matches R) c.steps (t.onControl p c).1.1.steps
  | ⟨type, span, header, body, branches, close, label⟩ => by
    rw [Transform.onControl, ControlBlock.steps]
    dsimp only
    rw [ControlBlock.steps, h.onBody]
    obtain ⟨hitems, hsteps⟩ := Replaces.onItems h (t.onStatement (p.enter
      (.control ⟨type, span, header, body, branches, close, label⟩)) header).2 body
    have hheader (q : Progress) := h.settle q (p.enter
      (.control ⟨type, span, header, body, branches, close, label⟩)) header
    refine matches_around ?_ ?_ ?_ (.cons (.meet (hheader _)) ?_)
    · rfl
    · exact .some (hheader _)
    · exact hitems
    · exact List.rel_append (List.rel_append hsteps (Replaces.onBranches h _ branches))
        (matches_meets (h.onStatement? _ _ close))

/-- The same for the items of a body. -/
theorem Replaces.onItems (h : t.Replaces R) (p : Progress) : ∀ items : List BodyItem,
    List.Forall₂ (BodyItem.Matches R) items (unmark (t.onItems p items).1) ∧
      List.Forall₂ (Step.Matches R) (bodySteps items) (bodySteps (unmark (t.onItems p items).1))
  | [] => by
    rw [Transform.onItems]
    exact ⟨.nil, .nil⟩
  | item :: items => by
    obtain ⟨hitem, hsteps⟩ := Replaces.onItem h p item
    obtain ⟨hitems, hrest⟩ := Replaces.onItems h (t.onItem p item).2 items
    rw [onItems_cons]
    show List.Forall₂ _ _ (_ :: unmark _) ∧ List.Forall₂ _ _ (bodySteps (_ :: unmark _))
    rw [bodySteps, bodySteps]
    exact ⟨.cons hitem hitems, List.rel_append hsteps hrest⟩

/-- The same for the branches of a block. -/
theorem Replaces.onBranches (h : t.Replaces R) (p : Progress) : ∀ bs : List Branch,
    List.Forall₂ (Step.Matches R) (branchesSteps bs)
      (branchesSteps (unmark (t.onBranches p bs).1))
  | [] => by
    rw [Transform.onBranches]
    exact .nil
  | ⟨span, header, body, label⟩ :: bs => by
    rw [Transform.onBranches]
    dsimp only
    show List.Forall₂ _ _ (branchesSteps (_ :: unmark _))
    rw [branchesSteps, branchesSteps]
    refine List.rel_append ?_ (Replaces.onBranches h _ bs)
    rw [Transform.onBranch, Branch.steps]
    dsimp only
    rw [Branch.steps, h.onBody]
    obtain ⟨hitems, hsteps⟩ := Replaces.onItems h
      (t.onStatement (p.enter (.branch ⟨span, header, body, label⟩)) header).2 body
    have hheader (q : Progress) := h.settle q (p.enter (.branch ⟨span, header, body, label⟩)) header
    refine matches_around ?_ ?_ ?_ (.cons (.meet (hheader _)) hsteps)
    · rfl
    · exact .some (hheader _)
    · exact hitems

end

/-- The same for a block. -/
theorem Replaces.onBlock (h : t.Replaces R) (p : Progress) (b : Block) :
    List.Forall₂ (Step.Matches R) b.steps (t.onBlock p b).1.1.steps := by
  rw [Transform.onBlock, Block.steps]
  dsimp only
  rw [Block.steps, h.onBody]
  obtain ⟨hitems, hsteps⟩ := h.onItems (t.onStatement (p.enter (.block b)) b.header).2 b.body
  have hheader (q : Progress) := h.settle q (p.enter (.block b)) b.header
  refine matches_around ?_ ?_ ?_ (.cons (.meet (hheader _)) hsteps)
  · rfl
  · exact .some (hheader _)
  · exact hitems

/-- The same for the items of a section. -/
theorem Replaces.onSectionItems (h : t.Replaces R) (p : Progress) (items : List SectionItem) :
    List.Forall₂ (Step.Matches R) (items.flatMap SectionItem.steps)
      ((unmark (t.onSectionItems p items).1).flatMap SectionItem.steps) := by
  induction items generalizing p with
  | nil =>
    rw [Transform.onSectionItems]
    exact .nil
  | cons item items ih =>
    cases item with
    | statement s =>
      rw [Transform.onSectionItems]
      exact .cons (.meet (h.onStatement p s)) (ih _)
    | block b =>
      rw [Transform.onSectionItems]
      exact List.rel_append (h.onBlock _ b) (ih _)

/-- The same for a section. -/
theorem Replaces.onSection (h : t.Replaces R) (p : Progress) (s : Section) :
    List.Forall₂ (Step.Matches R) s.steps (t.onSection p s).1.steps := by
  have hbody (q : Progress) (kind : SectionKind) (header : Option (Marked Statement))
      (items : List (Marked SectionItem)) :
      unmark (t.onSectionBody q kind header items).1 = unmark items := by
    obtain ⟨-, heq | ⟨marked, new, -, hput, -, -⟩⟩ := t.onSectionBody_spec q kind header items
    · exact heq
    · rw [h.sect] at hput
      cases hput
  have hheader (q : Progress) := h.onStatement? q (p.enter (.sect s)) s.header
  rw [Transform.onSection, Section.steps]
  dsimp only
  rw [Section.steps, hbody]
  refine matches_around ?_ (hheader _) .nil
    (List.rel_append (matches_meets (hheader _)) (h.onSectionItems _ s.body))
  have hnone {x y : Option Statement} (hxy : Option.Rel R x y) : y.isNone = x.isNone := by
    cases hxy <;> rfl
  exact congrArg (fun b => (NodeType.sect, some s.kind, b)) (hnone (hheader _))

/-- **A transform that replaces statements leaves the walk through a file as it is.** -/
theorem Replaces.run (h : t.Replaces R) (f : File) : f.Matches R (t.run f).tree := by
  have hsections (p : Progress) (ss : List Section) :
      List.Forall₂ (Step.Matches R) (ss.flatMap Section.steps)
        ((t.onSections p ss).1.flatMap Section.steps) := by
    induction ss generalizing p with
    | nil =>
      rw [Transform.onSections]
      exact .nil
    | cons s ss ih =>
      rw [Transform.onSections]
      exact List.rel_append (h.onSection _ s) (ih _)
  have hfile (q : Progress) (ss : List Section) : (t.onFileBody q ss).1 = ss := by
    obtain heq | ⟨new, hput, -, -⟩ := t.onFileBody_spec q ss
    · exact heq
    · rw [h.file] at hput
      cases hput
  rw [Transform.run]
  dsimp only
  rw [hfile]
  exact matches_around rfl .none .nil (hsections _ f.sections)

end

end Transform

/-! ## Statements that are alike -/

/-- Whether two statements are of one type and have the same tokens at any places. -/
def Statement.Alike (s r : Statement) : Prop :=
  r.type = s.type ∧ r.tokens.map Token.bare = s.tokens.map Token.bare

/-- A statement is alike itself. -/
theorem Statement.Alike.refl (s : Statement) : s.Alike s := ⟨rfl, rfl⟩

/-- Statements of one plain picture are alike. -/
theorem Statement.alike_of_plain {s r : Statement} (h : s.plain = r.plain) : s.Alike r :=
  Statement.plain_eq_iff.1 h.symm

section

mutual

/-- Blocks of one plain picture match. -/
theorem ControlBlock.matches_of_view : ∀ {c d : ControlBlock},
    c.view Statement.plain = d.view Statement.plain →
      List.Forall₂ (Step.Matches Statement.Alike) c.steps d.steps
  | ⟨type, span, header, body, branches, close, label⟩,
    ⟨type', span', header', body', branches', close', label'⟩, h => by
    rw [ControlBlock.view, ControlBlock.view, ControlBlock.mk.injEq] at h
    obtain ⟨rfl, -, hheader, hbody, hbranches, hclose, -⟩ := h
    obtain ⟨hitems, hsteps⟩ := matches_of_viewBody hbody
    rw [ControlBlock.steps, ControlBlock.steps]
    refine matches_around ?_ ?_ ?_ (.cons (.meet (Statement.alike_of_plain hheader))
      (List.rel_append (List.rel_append hsteps (matches_of_viewBranches hbranches)) ?_))
    · rfl
    · exact .some (Statement.alike_of_plain hheader)
    · exact hitems
    · cases close with
      | none =>
        obtain rfl : close' = none := Option.map_eq_none_iff.1 hclose.symm
        exact .nil
      | some s =>
        obtain ⟨r, rfl, hr⟩ := Option.map_eq_some_iff.1 hclose.symm
        exact .cons (.meet (Statement.alike_of_plain hr.symm)) .nil

/-- The same for bodies. -/
theorem matches_of_viewBody : ∀ {a b : List BodyItem},
    viewBody Statement.plain a = viewBody Statement.plain b →
      List.Forall₂ (BodyItem.Matches Statement.Alike) a b ∧
        List.Forall₂ (Step.Matches Statement.Alike) (bodySteps a) (bodySteps b)
  | [], [], _ => ⟨.nil, .nil⟩
  | [], _ :: _, h => by cases h
  | _ :: _, [], h => by cases h
  | .statement s :: a, .statement r :: b, h => by
    rw [viewBody, viewBody, List.cons.injEq] at h
    obtain ⟨hitems, hsteps⟩ := matches_of_viewBody h.2
    have hs : s.Alike r := Statement.alike_of_plain (BodyItem.statement.inj h.1)
    exact ⟨.cons (.statement hs) hitems, .cons (.meet hs) hsteps⟩
  | .statement _ :: _, .control _ :: _, h => by cases h
  | .control _ :: _, .statement _ :: _, h => by cases h
  | .control c :: a, .control d :: b, h => by
    rw [viewBody, viewBody, List.cons.injEq] at h
    obtain ⟨hitems, hsteps⟩ := matches_of_viewBody h.2
    have hc := ControlBlock.matches_of_view (BodyItem.control.inj h.1)
    rw [bodySteps, bodySteps, BodyItem.steps, BodyItem.steps]
    exact ⟨.cons .control hitems, List.rel_append hc hsteps⟩

/-- The same for the branches of blocks. -/
theorem matches_of_viewBranches : ∀ {a b : List Branch},
    viewBranches Statement.plain a = viewBranches Statement.plain b →
      List.Forall₂ (Step.Matches Statement.Alike) (branchesSteps a) (branchesSteps b)
  | [], [], _ => .nil
  | [], _ :: _, h => by cases h
  | _ :: _, [], h => by cases h
  | ⟨span, header, body, label⟩ :: a, ⟨span', header', body', label'⟩ :: b, h => by
    rw [viewBranches, viewBranches, List.cons.injEq, Branch.view, Branch.view,
      Branch.mk.injEq] at h
    obtain ⟨⟨-, hheader, hbody, -⟩, hrest⟩ := h
    obtain ⟨hitems, hsteps⟩ := matches_of_viewBody hbody
    rw [branchesSteps, branchesSteps, Branch.steps, Branch.steps]
    refine List.rel_append (matches_around ?_ ?_ ?_
      (.cons (.meet (Statement.alike_of_plain hheader)) hsteps)) (matches_of_viewBranches hrest)
    · rfl
    · exact .some (Statement.alike_of_plain hheader)
    · exact hitems

end

/-- The same for items of sections. -/
theorem SectionItem.matches_of_view {a b : SectionItem}
    (h : a.view Statement.plain = b.view Statement.plain) :
    List.Forall₂ (Step.Matches Statement.Alike) a.steps b.steps := by
  cases a with
  | statement s =>
    cases b with
    | statement r =>
      exact .cons (.meet (Statement.alike_of_plain (SectionItem.statement.inj h))) .nil
    | block d => cases h
  | block c =>
    cases b with
    | statement r => cases h
    | block d =>
      have hblock := SectionItem.block.inj h
      rw [Block.view, Block.view, Block.mk.injEq] at hblock
      obtain ⟨htype, -, hheader, hbody, -⟩ := hblock
      obtain ⟨hitems, hsteps⟩ := matches_of_viewBody hbody
      refine matches_around ?_ ?_ ?_ (.cons (.meet (Statement.alike_of_plain hheader)) hsteps)
      · show (NodeType.block d.type, (none : Option SectionKind), false) = _
        rw [← htype]
        rfl
      · exact .some (Statement.alike_of_plain hheader)
      · exact hitems

/-- The same for sections. -/
theorem Section.matches_of_view {s r : Section} (h : s.view plainView = r.view plainView) :
    List.Forall₂ (Step.Matches Statement.Alike) s.steps r.steps := by
  rw [Section.view, Section.view, Section.mk.injEq] at h
  obtain ⟨hkind, -, hheader, hbody, -⟩ := h
  have hheaders : Option.Rel Statement.Alike s.header r.header := by
    cases hs : s.header with
    | none =>
      rw [hs] at hheader
      rw [Option.map_eq_none_iff.1 hheader.symm]
      exact .none
    | some a =>
      rw [hs] at hheader
      obtain ⟨b, hb, hplain⟩ := Option.map_eq_some_iff.1 hheader.symm
      rw [hb]
      exact .some (Statement.alike_of_plain hplain.symm)
  have hitems : List.Forall₂ (Step.Matches Statement.Alike) (s.body.flatMap SectionItem.steps)
      (r.body.flatMap SectionItem.steps) := by
    refine List.rel_flatMap ?_ fun _ _ => SectionItem.matches_of_view
    exact List.forall₂_map_left_iff.1 (List.forall₂_map_right_iff.1 (List.forall₂_eq_eq_eq ▸ hbody))
  refine matches_around ?_ hheaders .nil (List.rel_append (matches_meets hheaders) hitems)
  have hnone : r.header.isNone = s.header.isNone := by
    rw [← Option.isNone_map, ← hheader, Option.isNone_map]
  show (NodeType.sect, some r.kind, r.header.isNone) = _
  rw [hnone, ← hkind]
  rfl

/-- **Walks through files match** if these show alike but for places and marks. -/
theorem File.matches_of_view {f g : File}
    (h : f.sections.map (Section.view plainView) = g.sections.map (Section.view plainView)) :
    f.Matches Statement.Alike g := by
  refine matches_around rfl .none .nil (List.rel_flatMap ?_ fun _ _ => Section.matches_of_view)
  exact List.forall₂_map_left_iff.1 (List.forall₂_map_right_iff.1 (List.forall₂_eq_eq_eq ▸ h))

end

/-! ## Reading statements -/

section
variable {P : Statement → Prop}

mutual

/-- Statements that show like those of a well-formed control block make one that shows alike. -/
theorem ControlBlock.Holds.shows : ∀ {c : ControlBlock} {rs : List Statement}, c.Holds P →
    rs.map Statement.plain = c.statements.map Statement.plain →
      ∃ d : ControlBlock, Derives rs [.control d] ∧
        d.view Statement.plain = c.view Statement.plain
  | ⟨type, span, header, body, branches, close, label⟩, rs, hc, h => by
    rw [ControlBlock.Holds] at hc
    obtain ⟨⟨hopen, -⟩, hbody, hbranches, s, rfl, hclose, -⟩ := hc
    rw [ControlBlock.statements, List.map_cons, List.map_append, List.map_append] at h
    obtain ⟨header', rest, rfl, hheader, hrest⟩ := List.map_eq_cons_iff.1 h
    obtain ⟨front, back, rfl, hfront, hback⟩ := List.map_eq_append_iff.1 hrest
    obtain ⟨body', branches', rfl, hb, hbs⟩ := List.map_eq_append_iff.1 hfront
    obtain ⟨s', rfl, hs⟩ := List.map_eq_singleton_iff.1 hback
    obtain ⟨items, hd, hitems⟩ := bodyHolds_shows hbody hb
    obtain ⟨parts, hp, hps, rfl, htrees⟩ := branchesHold_shows hbranches hbs
    refine ⟨closedBlock type header' items parts s', ?_, ?_⟩
    · exact .block ((Statement.plain_eq_iff.1 hheader).1.trans hopen) hd hp hps
        ((Statement.plain_eq_iff.1 hs).1.trans hclose) .nil
    · rw [closedBlock, ControlBlock.view, ControlBlock.view, hheader, hitems, htrees]
      exact congrArg (fun r => ControlBlock.mk _ _ _ _ _ (some r) none) hs

/-- Statements that show like those of a well-formed body make one that shows alike. -/
theorem bodyHolds_shows : ∀ {body : List BodyItem} {rs : List Statement}, bodyHolds P body →
    rs.map Statement.plain = (bodyStatements body).map Statement.plain →
      ∃ items, Derives rs items ∧
        viewBody Statement.plain items = viewBody Statement.plain body
  | [], rs, _, h => by
    obtain rfl : rs = [] := List.map_eq_nil_iff.1 h
    exact ⟨[], .nil, rfl⟩
  | .statement s :: body, rs, hb, h => by
    rw [bodyHolds, BodyItem.Holds] at hb
    obtain ⟨r, rest, rfl, hr, hrest⟩ := List.map_eq_cons_iff.1 h
    obtain ⟨items, hd, hitems⟩ := bodyHolds_shows hb.2 hrest
    refine ⟨.statement r :: items, .plain ?_ hd, ?_⟩
    · rw [(Statement.plain_eq_iff.1 hr).1]
      exact isPlain_of_inBody hb.1.1
    · rw [viewBody, viewBody, hitems, BodyItem.view, BodyItem.view, hr]
  | .control c :: body, rs, hb, h => by
    rw [bodyHolds, BodyItem.Holds] at hb
    rw [bodyStatements, BodyItem.statements, List.map_append] at h
    obtain ⟨front, back, rfl, hfront, hback⟩ := List.map_eq_append_iff.1 h
    obtain ⟨d, hd, hview⟩ := hb.1.shows hfront
    obtain ⟨items, hmore, hitems⟩ := bodyHolds_shows hb.2 hback
    refine ⟨.control d :: items, hd.append hmore, ?_⟩
    rw [viewBody, viewBody, hitems, BodyItem.view, BodyItem.view, hview]

/-- Statements that show like those of well-formed branches make branches that show alike. -/
theorem branchesHold_shows {type : ControlType} : ∀ {bs : List Branch} {rs : List Statement},
    branchesHold P type bs →
    rs.map Statement.plain = (branchesStatements bs).map Statement.plain →
      ∃ parts : List BranchPart, (∀ p ∈ parts, p.header.type ∈ type.branchHeaders) ∧
        (∀ p ∈ parts, Derives p.statements p.items) ∧ BranchPart.yield parts = rs ∧
        viewBranches Statement.plain (BranchPart.trees parts) =
          viewBranches Statement.plain bs
  | [], rs, _, h => by
    obtain rfl : rs = [] := List.map_eq_nil_iff.1 h
    exact ⟨[], List.forall_mem_nil _, List.forall_mem_nil _, rfl, rfl⟩
  | ⟨span, header, body, label⟩ :: bs, rs, hb, h => by
    rw [branchesHold, Branch.Holds] at hb
    obtain ⟨⟨⟨hin, -⟩, hbody⟩, hrest⟩ := hb
    rw [branchesStatements, Branch.statements, List.cons_append, List.map_cons,
      List.map_append] at h
    obtain ⟨header', more, rfl, hheader, hmore⟩ := List.map_eq_cons_iff.1 h
    obtain ⟨front, back, rfl, hfront, hback⟩ := List.map_eq_append_iff.1 hmore
    obtain ⟨items, hd, hitems⟩ := bodyHolds_shows hbody hfront
    obtain ⟨parts, hp, hps, rfl, htrees⟩ := branchesHold_shows hrest hback
    refine ⟨⟨header', front, items⟩ :: parts, List.forall_mem_cons.2 ⟨?_, hp⟩,
      List.forall_mem_cons.2 ⟨hd, hps⟩, rfl, ?_⟩
    · rw [(Statement.plain_eq_iff.1 hheader).1]
      exact hin
    · show viewBranches _ (closeBranch header' items :: BranchPart.trees parts) = _
      rw [viewBranches, viewBranches, htrees, closeBranch, Branch.view, Branch.view, hheader,
        hitems]

end

end

/-! ## Marked comments -/

/-- A mark is not in the plain picture. -/
theorem Statement.plain_markOwned (s : Statement) (owned : Bool) :
    (s.markOwned owned).plain = s.plain := by
  rw [Statement.markOwned]
  split <;> rfl

mutual

/-- Marking keeps the plain picture of a block. -/
theorem ControlBlock.plain_view_markOwned : ∀ c : ControlBlock,
    c.markOwned.view Statement.plain = c.view Statement.plain
  | ⟨type, span, header, body, branches, close, label⟩ => by
    rw [ControlBlock.markOwned, ControlBlock.view, ControlBlock.view, plain_view_markedBody body,
      plain_view_markedBranches branches]

/-- The same for a body. -/
theorem plain_view_markedBody : ∀ items : List BodyItem,
    viewBody Statement.plain (markOwnedBody items) = viewBody Statement.plain items
  | [] => rfl
  | .statement s :: items => by
    rw [markOwnedBody, viewBody, viewBody, plain_view_markedBody items, BodyItem.view, BodyItem.view,
      Statement.plain_markOwned]
  | .control c :: items => by
    rw [markOwnedBody, viewBody, viewBody, plain_view_markedBody items, BodyItem.view, BodyItem.view,
      c.plain_view_markOwned]

/-- The same for the branches of a block. -/
theorem plain_view_markedBranches : ∀ bs : List Branch,
    viewBranches Statement.plain (markOwnedBranches bs) = viewBranches Statement.plain bs
  | [] => rfl
  | ⟨span, header, body, label⟩ :: bs => by
    rw [markOwnedBranches, viewBranches, viewBranches, plain_view_markedBranches bs, Branch.view,
      Branch.view, plain_view_markedBody body]

end

/-- The same for the items of a section. -/
theorem plain_view_markedItems (items : List SectionItem) :
    (markOwnedItems items).map (SectionItem.view Statement.plain) =
      items.map (SectionItem.view Statement.plain) := by
  induction items with
  | nil => rfl
  | cons item items ih =>
    cases item with
    | statement s =>
      rw [markOwnedItems, List.map_cons, List.map_cons, ih, SectionItem.view, SectionItem.view,
        Statement.plain_markOwned]
    | block b =>
      rw [markOwnedItems, List.map_cons, List.map_cons, ih, SectionItem.view, SectionItem.view,
        Block.view, Block.view, plain_view_markedBody]

/-! ## Reading sections -/

/-- What holds of the types of statements holds of those of statements that show alike. -/
theorem forall_of_plain {Q : StatementType → Prop} {ss rs : List Statement}
    (h : rs.map Statement.plain = ss.map Statement.plain) (hs : ∀ s ∈ ss, Q s.type) :
    ∀ r ∈ rs, Q r.type := by
  intro r hr
  obtain ⟨s, hmem, hplain⟩ := List.mem_map.1 (h ▸ List.mem_map_of_mem (f := Statement.plain) hr)
  rw [← (Statement.plain_eq_iff.1 hplain).1]
  exact hs s hmem

/-- Statements that show like those of well-formed blocks make blocks that show alike. -/
theorem blocks_shown (owner : BlockType) {blocks : List Block} (hb : ∀ b ∈ blocks, b.IsFormed)
    {rs : List Statement}
    (h : rs.map Statement.plain = (blocks.flatMap Block.statements).map Statement.plain) :
    (∀ r ∈ rs.head?, isBlockName r = true) ∧
      (((splitParts isBlockName rs).map (blockPart owner)).flatMap (·.1)).map
          (SectionItem.view Statement.plain) =
        (blocks.map SectionItem.block).map (SectionItem.view Statement.plain) := by
  induction blocks generalizing rs with
  | nil =>
    obtain rfl : rs = [] := List.map_eq_nil_iff.1 h
    exact ⟨by simp, rfl⟩
  | cons b blocks ih =>
    obtain ⟨hname, P, hbody⟩ := hb b List.mem_cons_self
    rw [List.flatMap_cons, Block.statements, List.cons_append, List.map_cons,
      List.map_append] at h
    obtain ⟨header, more, rfl, hheader, hmore⟩ := List.map_eq_cons_iff.1 h
    obtain ⟨front, rest, rfl, hfront, hrest⟩ := List.map_eq_append_iff.1 hmore
    obtain ⟨hhead, hblocks⟩ := ih (fun c hc => hb c (List.mem_cons_of_mem _ hc)) hrest
    have htype : header.type = b.type.nameType := (Statement.plain_eq_iff.1 hheader).1.trans hname
    have hopens := isBlockName_of_nameType htype
    have hnone : ∀ r ∈ front, isBlockName r = false := by
      refine forall_of_plain (Q := fun t => (t = .testCaseName || t = .keywordName) = false) hfront
        fun s hs => ?_
      exact (bodyHolds_statements hbody s hs).2
    have hblock : (if header.type = .testCaseName then BlockType.testCase else .keyword) =
        b.type := by
      rw [htype]
      cases b.type <;> rfl
    obtain ⟨items, hd, hitems⟩ := bodyHolds_shows hbody hfront
    refine ⟨by simpa using hopens, ?_⟩
    rw [splitParts_cons hopens hnone hhead, List.map_cons, blockPart, hblock, buildBlock,
      nest_of_derives hd]
    dsimp only
    rw [List.flatMap_cons, List.map_append, hblocks]
    refine congrArg (· :: _) ?_
    rw [SectionItem.view, SectionItem.view, Block.view, Block.view, hheader, hitems]

/-- Groups of tokens are read as statements that show like those that they make up. -/
theorem plain_classify {kind : SectionKind} {ss : List Statement}
    (hr : ∀ s ∈ ss, ReadsAs kind s.type s.tokens) {groups : List (List Token)}
    (hg : groups.map (·.map Token.bare) = ss.map fun s => s.tokens.map Token.bare) :
    (groups.map fun g => (classify kind g).1).map Statement.plain = ss.map Statement.plain := by
  induction ss generalizing groups with
  | nil =>
    obtain rfl : groups = [] := by simpa using hg
    rfl
  | cons s ss ih =>
    rw [List.forall_mem_cons] at hr
    obtain ⟨g, gs, rfl, hbare, hrest⟩ := List.map_eq_cons_iff.1 hg
    rw [List.map_cons, List.map_cons, List.map_cons, ih hr.2 hrest]
    refine congrArg (· :: _) (Statement.plain_eq_iff.2 ⟨(hr.1.of_bare hbare).1, ?_⟩)
    rw [classify_tokens, hbare]

/-- The items of a section are read as items that show alike. -/
theorem items_shown {kind : SectionKind} {items : List SectionItem}
    (hi : ∀ item ∈ items, item.Holds (Statement.IsSound kind) kind) (hl : leadsBlocks items)
    {groups : List (List Token)}
    (hg : groups.map (·.map Token.bare) =
      (itemsStatements items).map fun s => s.tokens.map Token.bare) :
    (buildItems kind groups).1.map (SectionItem.view Statement.plain) =
      items.map (SectionItem.view Statement.plain) := by
  have hreads : ∀ s ∈ itemsStatements items, ReadsAs kind s.type s.tokens := by
    intro s hs
    obtain ⟨item, hitem, hs⟩ := List.mem_flatMap.1 hs
    exact ((hi item hitem).statements s hs).reads
  have hplain := plain_classify hreads hg
  obtain ⟨lead, blocks, rfl⟩ := hl
  have hformed : ∀ b ∈ blocks, b.IsFormed ∧ b.type.inSection kind = true := by
    intro b hb
    obtain ⟨⟨hin, hname, -⟩, hbody⟩ := hi (.block b) (by simp [hb])
    exact ⟨⟨hname, _, hbody⟩, hin⟩
  have hitems {rs : List Statement} (h : rs.map Statement.plain = lead.map Statement.plain) :
      (rs.map SectionItem.statement).map (SectionItem.view Statement.plain) =
        (lead.map SectionItem.statement).map (SectionItem.view Statement.plain) := by
    rw [List.map_map, List.map_map]
    simpa [SectionItem.view, Function.comp_def] using congrArg (List.map SectionItem.statement) h
  have hstatements : itemsStatements (lead.map .statement ++ blocks.map .block) =
      lead ++ blocks.flatMap Block.statements := by
    rw [itemsStatements, List.flatMap_append, List.flatMap_map, List.flatMap_map]
    simp [SectionItem.statements]
  rw [hstatements, List.map_append] at hplain
  obtain ⟨front, rest, hcut, hfront, hrest⟩ := List.map_eq_append_iff.1 hplain
  rw [List.map_append]
  cases hk : kind.blockType? with
  | none =>
    have hnil : blocks = [] := by
      cases blocks with
      | nil => rfl
      | cons b blocks =>
        have := blockType?_of_inSection (hformed b List.mem_cons_self).2
        rw [hk] at this
        cases this
    subst hnil
    obtain rfl : rest = [] := List.map_eq_nil_iff.1 hrest
    rw [buildItems_statements hk, hcut, List.append_nil]
    simpa using hitems hfront
  | some owner =>
    obtain ⟨hhead, hblocks⟩ := blocks_shown owner (fun b hb => (hformed b hb).1) hrest
    have hlead : ∀ s ∈ lead, s.type = .emptyLine ∨ s.type = .comment := by
      intro s hs
      obtain ⟨hin, hsound⟩ := hi (.statement s) (by simp [hs])
      exact type_of_inSection hk hin hsound.reads.type_ne.2
    have htypes : ∀ r ∈ front, r.type = .emptyLine ∨ r.type = .comment :=
      forall_of_plain (Q := fun t => t = .emptyLine ∨ t = .comment) hfront hlead
    have hnone : ∀ r ∈ front, isBlockName r = false := by
      intro r hr
      rcases htypes r hr with h | h <;> simp [isBlockName, h]
    have hleading : front.map (leadingItem owner) = front.map fun s => (.statement s, []) := by
      refine List.map_congr_left fun r hr => ?_
      rcases htypes r hr with h | h <;> simp [leadingItem, h]
    rw [buildItems, hk]
    dsimp only
    rw [List.map_map]
    show (buildBlocks owner (groups.map fun g => (classify kind g).1)).1.map _ = _
    rw [hcut, buildBlocks]
    dsimp only
    by_cases hne : front = []
    · subst hne
      obtain rfl : lead = [] := List.map_eq_nil_iff.1 hfront.symm
      exact hblocks
    · rw [splitParts_append hne hnone hhead, List.map_cons, List.flatMap_cons, blockPart,
        hleading, List.map_append, hblocks]
      refine congrArg (· ++ _) ?_
      simpa [Function.comp_def] using hitems hfront

/-- **A section is read as one that shows alike.** -/
theorem Section.IsSound.plain_read {s : Section} (hs : s.IsSound) (hopens : s.IsOpened)
    (hl : leadsBlocks s.body)
    {p : Option (List Token) × List (List Token)}
    (hp : viewPart (showTokens true) p = viewPart (showTokens true) s.part) :
    (markedSection p).view plainView = s.view plainView := by
  have hbare : showTokens true = List.map Token.bare := funext showTokens_true
  rw [hbare] at hp
  obtain ⟨hh, hg⟩ := Prod.mk.inj hp
  have hgroups : p.2.map (·.map Token.bare) =
      (itemsStatements s.body).map fun r => r.tokens.map Token.bare := by
    rw [hg, Section.part, tokenLists, List.map_map]
    rfl
  obtain ⟨hheader, hbody, -, -⟩ := buildSection_spec p.1 p.2
  have hkind : (markedSection p).kind = s.kind ∧
      (markedSection p).header.map Statement.plain = s.header.map Statement.plain := by
    rw [kind_markedSection, kindOfHeader, markedSection, hheader]
    rw [Section.part] at hh
    cases hsect : s.header with
    | none =>
      have hnone : p.1 = none := by simpa [hsect] using hh
      rw [hnone, hs.headerless hsect]
      exact ⟨rfl, rfl⟩
    | some h =>
      rw [hsect] at hh
      obtain ⟨ts, hts, hb⟩ := Option.map_eq_some_iff.1 hh
      have hread := readHeader_of_isHeader (hs.header h hsect) (hopens h hsect) hb
      rw [hts]
      refine ⟨?_, congrArg some (Statement.plain_eq_iff.2
        ⟨(hs.header h hsect).type.symm, hb⟩)⟩
      rw [Option.map_some, Option.map_some, hread]
      rfl
  obtain ⟨hkind, hheader⟩ := hkind
  have hkind' : (buildSection p.1 p.2).1.kind = s.kind := hkind
  have hitems : (markedSection p).body.map (SectionItem.view Statement.plain) =
      s.body.map (SectionItem.view Statement.plain) := by
    have hread := items_shown hs.items hl hgroups
    rw [← hkind', ← hbody] at hread
    exact (plain_view_markedItems _).trans hread
  rw [Section.view, Section.view, Section.mk.injEq]
  exact ⟨hkind, rfl, hheader, hitems, rfl⟩

/-! ## Reading files -/

/-- **What is read from the text of a model shows like the model.** -/
theorem File.IsSound.plain_read_back {f : File} (h : f.IsSound) (hi : f.issues = [])
    (hl : f.Legible) (hne : ∀ s ∈ f.sections, s.statements ≠ [])
    (hlead : ∀ s ∈ f.sections, leadsBlocks s.body) :
    (parse f.render).sections.map (Section.view plainView) =
      f.sections.map (Section.view plainView) := by
  have hbare : showTokens true = List.map Token.bare := funext showTokens_true
  have hheader : (fun ts => isHeaderLine (showTokens true ts)) = isHeaderLine :=
    funext fun ts => isHeaderLine_showTokens ts
  have hcut (gs : List (List Token)) :
      (RobotSuite.splitParts isHeaderLine gs).map (viewPart (showTokens true)) =
        RobotSuite.splitParts isHeaderLine (gs.map (showTokens true)) := by
    rw [splitParts_map, hheader]
  have hgroups : ((groupLines (tokenize f.render)).map List.flatten).map (showTokens true) =
      (tokenLists f.statements).map (showTokens true) := by
    rw [hbare, h.bare_groups hi hl, tokenLists, List.map_map]
    rfl
  have hparts : (sectionParts (tokenize f.render)).map (viewPart (showTokens true)) =
      (f.sections.map Section.part).map (viewPart (showTokens true)) := by
    rw [← h.splitParts (header_of_mem_tail hi) hne, sectionParts, hcut, hcut, hgroups]
  rw [parse, parseTokens_sections, ← sectionParts, List.map_map]
  generalize sectionParts (tokenize f.render) = ps at hparts
  have hs := h.sections
  have hopens := h.isOpened_of_legible hl
  clear hgroups hne
  generalize f.sections = ss at hs hopens hlead hparts
  induction ss generalizing ps with
  | nil =>
    obtain rfl : ps = [] := by simpa using hparts
    rfl
  | cons s ss ih =>
    rw [List.forall_mem_cons] at hs hopens hlead
    obtain ⟨p, ps, rfl, hp, hrest⟩ := List.map_eq_cons_iff.1 hparts
    exact congrArg₂ List.cons (hs.1.plain_read hopens.1 hlead.1 hp)
      (ih ps hs.2 hopens.2 hlead.2 hrest)

end RobotSuite
