/-
# Statements in front of a walk and behind it

Some properties of a transform are about its statements in a row: no comment is lost, or each
statement has its counterpart.  Such a property is a relation of two lists of statements.  If
appending keeps the relation (`IsLinear`) and each decision puts something related to what it
takes the place of (`Transform.Relates`), then the statements of a file and those that a walk
leads to are related (`Transform.Relates.run`).

What is checked of sections also keeps their statements in front of their blocks, whatever a
transform decides (`Transform.leadsBlocks_run`).
-/

import RobotSuite.Proofs.Transform.FrozenRegions

namespace RobotSuite

/-- A relation of lists of statements that appending keeps. -/
structure IsLinear (R : List Statement → List Statement → Prop) : Prop where
  refl : ∀ ss, R ss ss
  trans : ∀ {a b c}, R a b → R b c → R a c
  append : ∀ {a a' b b'}, R a a' → R b b' → R (a ++ b) (a' ++ b')

namespace Transform
variable {t : Transform} {p : Progress}

/-! ## Statements in front of blocks -/

/-- What leads the blocks of a section stays. -/
theorem leadsBlocks_onSection (t : Transform) (p : Progress) {s : Section}
    (h : leadsBlocks s.body) : leadsBlocks (t.onSection p s).1.body := by
  have hitems := t.leadsBlocks_onSectionItems
    (p := (t.onStatement? (p.enter (.sect s)) s.header).2) h
  rw [onSection]
  rcases (t.onSectionBody_spec
    (t.onSectionItems (t.onStatement? (p.enter (.sect s)) s.header).2 s.body).2 s.kind
    (t.onStatement? (p.enter (.sect s)) s.header).1
    (t.onSectionItems (t.onStatement? (p.enter (.sect s)) s.header).2 s.body).1).2 with
      heq | ⟨marked, new, -, -, hissues, heq⟩
  · dsimp only
    rw [heq]
    exact hitems
  · dsimp only
    rw [heq]
    exact items_of_issues (List.append_eq_nil_iff.1 hissues).1

/-- The same for all sections. -/
theorem leadsBlocks_onSections (t : Transform) (p : Progress) {ss : List Section}
    (h : ∀ s ∈ ss, leadsBlocks s.body) : ∀ s ∈ (t.onSections p ss).1, leadsBlocks s.body := by
  induction ss generalizing p with
  | nil => exact h
  | cons s ss ih =>
    rw [List.forall_mem_cons] at h
    rw [onSections]
    exact List.forall_mem_cons.2 ⟨t.leadsBlocks_onSection _ h.1, ih _ h.2⟩

/-- **In each section statements stay in front of blocks,** whatever a transform decides. -/
theorem leadsBlocks_run (t : Transform) {f : File} (h : ∀ s ∈ f.sections, leadsBlocks s.body) :
    ∀ s ∈ (t.run f).tree.sections, leadsBlocks s.body := by
  have hsections := t.leadsBlocks_onSections (({} : Progress).enter (.file f)) h
  rw [run]
  dsimp only
  rcases t.onFileBody_spec (t.onSections (({} : Progress).enter (.file f)) f.sections).2
    (t.onSections (({} : Progress).enter (.file f)) f.sections).1 with
      heq | ⟨new, -, hissues, heq⟩
  · rw [heq]
    exact hsections
  · rw [heq]
    intro s hs
    have hitems := (section_issues_iff.1
      (section_issues_of_each (List.append_eq_nil_iff.1 hissues).1 s hs)).1.items
    exact items_of_issues hitems

/-! ## Related statements -/

/-- A transform whose decisions put statements related to those that they take the place of. -/
structure Relates (t : Transform) (S H : SectionKind → Statement → Prop)
    (R : List Statement → List Statement → Prop) : Prop where
  keeps : t.Keeps S H
  linear : IsLinear R
  statement : ∀ {kind sc n s new}, t.statement sc n s = .put new → new.type = s.type →
    S kind s ∨ H kind s → R [s] [new]
  body : ∀ {kind place header items new}, t.leaveBody place header items = .put new →
    bodyHolds (S kind) (unmark items) →
    R (bodyStatements (unmark items)) (bodyStatements (unmark new))
  sect : ∀ {kind place header items new}, t.leaveSection place header items = .put new →
    place.scope.section?.map (·.kind) = some kind →
    (∀ item ∈ unmark items, item.Holds (S kind) kind) → leadsBlocks (unmark items) →
    R (itemsStatements (unmark items)) (itemsStatements (unmark new))
  file : ∀ {place ss new}, t.leaveFile place ss = .put new → (∀ s ∈ ss, s.Holds S H) →
    R (ss.flatMap Section.statements) (new.flatMap Section.statements)

section
variable {S H : SectionKind → Statement → Prop} {R : List Statement → List Statement → Prop}
  {kind : SectionKind}

/-- A statement is related to what is put in its place. -/
theorem Relates.onStatement (h : t.Relates S H R) {s : Statement} (hs : S kind s ∨ H kind s) :
    R [s] [(t.onStatement p s).1.1] := by
  obtain ⟨-, heq | ⟨sc, new, -, hput, htype, -, heq⟩⟩ := t.onStatement_spec p s
  · rw [heq]
    exact h.linear.refl _
  · rw [heq]
    exact h.statement hput htype hs

/-- A header, as it stays or is replaced. -/
theorem Relates.settle (h : t.Relates S H R) {q : Progress} {s : Statement} (hs : S kind s) :
    R [s] [q.settle s (t.onStatement p s).1.1] :=
  Progress.settle_of (P := fun r => R [s] [r]) q (h.linear.refl _) (h.onStatement (.inl hs))

/-- A body is related to what is left of it. -/
theorem Relates.onBody (h : t.Relates S H R) {header : Bool} {items : List (Marked BodyItem)}
    (hi : bodyHolds (S kind) (unmark items)) :
    R (bodyStatements (unmark items)) (bodyStatements (unmark (t.onBody p header items).1)) := by
  obtain ⟨-, heq | ⟨marked, new, hm, hput, -, heq⟩⟩ := t.onBody_spec p header items
  · rw [heq]
    exact h.linear.refl _
  · rw [heq, ← hm]
    rw [← hm] at hi
    exact h.body hput hi

/-- The items of a body, as they are left behind. -/
theorem Relates.leave (h : t.Relates S H R) {q : Progress} {header : Bool} {items : List BodyItem}
    (hp : p.scope.Within kind 1) (hi : bodyHolds (S kind) items)
    (hitems : R (bodyStatements items) (bodyStatements (unmark (t.onItems p items).1))) :
    R (bodyStatements items)
      (bodyStatements (unmark (t.onBody q header (t.onItems p items).1).1)) :=
  h.linear.trans hitems (h.onBody (h.keeps.onItems hp hi).1)

mutual

/-- An item is related to what becomes of it. -/
theorem Relates.onItem (h : t.Relates S H R) {p : Progress} (hp : p.scope.Within kind 1) :
    ∀ {item : BodyItem}, item.Holds (S kind) → R item.statements (t.onItem p item).1.1.statements
  | .statement s, hi => by
    rw [BodyItem.Holds] at hi
    rw [Transform.onItem, BodyItem.statements]
    exact h.onStatement (.inl hi.2)
  | .control c, hi => by
    rw [BodyItem.Holds] at hi
    rw [Transform.onItem, BodyItem.statements]
    exact h.onControl hp hi

/-- The same for a control block. -/
theorem Relates.onControl (h : t.Relates S H R) {p : Progress} (hp : p.scope.Within kind 1) :
    ∀ {c : ControlBlock}, c.Holds (S kind) → R c.statements (t.onControl p c).1.1.statements
  | ⟨type, span, header, body, branches, close, label⟩, hc => by
    rw [ControlBlock.Holds] at hc
    obtain ⟨⟨ho, hS⟩, hbody, hbranches, s, rfl, hs, hSs⟩ := hc
    have henter := hp.enter_nesting
      (c := .control ⟨type, span, header, body, branches, some s, label⟩) rfl
    have hw1 := henter.congr (t.back_onStatement (p.enter _) header).ancestors
    have hw2 := hw1.congr (t.back_onItems _ body).ancestors
    have hitems := h.onItems (hw1.mono (by omega)) hbody
    rw [Transform.onControl]
    refine h.linear.append (a := [header]) (h.settle hS) (h.linear.append (h.linear.append
      (h.leave (hw1.mono (by omega)) hbody hitems) (h.onBranches hw2 hbranches)) ?_)
    exact Progress.settle_of (P := fun r : Option Statement => R [s] r.toList) _ (h.linear.refl _)
      (h.onStatement (.inl hSs))

/-- The same for the items of a body. -/
theorem Relates.onItems (h : t.Relates S H R) {p : Progress} (hp : p.scope.Within kind 1) :
    ∀ {items : List BodyItem}, bodyHolds (S kind) items →
      R (bodyStatements items) (bodyStatements (unmark (t.onItems p items).1))
  | [], _ => by
    rw [Transform.onItems]
    exact h.linear.refl _
  | item :: items, hi => by
    rw [bodyHolds] at hi
    have hrest := h.onItems (hp.congr (t.back_onItem p item).ancestors) hi.2
    rw [Transform.onItems]
    exact h.linear.append (h.onItem hp hi.1) hrest

/-- The same for the branches of a block. -/
theorem Relates.onBranches (h : t.Relates S H R) {p : Progress} (hp : p.scope.Within kind 2)
    {type : ControlType} :
    ∀ {bs : List Branch}, branchesHold (S kind) type bs →
      R (branchesStatements bs) (branchesStatements (unmark (t.onBranches p bs).1))
  | [], _ => by
    rw [Transform.onBranches]
    exact h.linear.refl _
  | ⟨span, header, body, label⟩ :: bs, hb => by
    rw [branchesHold, Branch.Holds] at hb
    obtain ⟨⟨⟨ht, hS⟩, hbody⟩, hbs⟩ := hb
    have henter := hp.enter_branch (b := ⟨span, header, body, label⟩)
    have hw := henter.congr (t.back_onStatement (p.enter _) header).ancestors
    have hitems := h.onItems (hw.mono (by omega)) hbody
    have hrest := h.onBranches
      (hp.congr (t.back_onBranch p ⟨span, header, body, label⟩).ancestors) hbs
    rw [Transform.onBranches, Transform.onBranch]
    exact h.linear.append (h.linear.append (a := [header]) (h.settle hS)
      (h.leave (hw.mono (by omega)) hbody hitems)) hrest

end

/-- The same for a block. -/
theorem Relates.onBlock (h : t.Relates S H R)
    (hs : p.scope.section?.map (·.kind) = some kind) {b : Block}
    (hb : (SectionItem.block b).Holds (S kind) kind) :
    R b.statements (t.onBlock p b).1.1.statements := by
  obtain ⟨⟨-, -, hS⟩, hbody⟩ := hb
  have henter := Scope.Within.enter_nesting (c := .block b) ⟨hs, Nat.zero_le _⟩ rfl
  have hw := henter.congr (t.back_onStatement (p.enter _) b.header).ancestors
  rw [Transform.onBlock]
  exact h.linear.append (a := [b.header]) (h.settle hS)
    (h.leave hw hbody (h.onItems hw hbody))

/-- The same for the items of a section. -/
theorem Relates.onSectionItems (h : t.Relates S H R)
    (hs : p.scope.section?.map (·.kind) = some kind)
    {items : List SectionItem} (hi : ∀ item ∈ items, item.Holds (S kind) kind) :
    R (itemsStatements items) (itemsStatements (unmark (t.onSectionItems p items).1)) := by
  induction items generalizing p with
  | nil =>
    rw [Transform.onSectionItems]
    exact h.linear.refl _
  | cons item items ih =>
    rw [List.forall_mem_cons] at hi
    cases item with
    | statement s =>
      have hrest := ih (Scope.Within.congr ⟨hs, Nat.zero_le _⟩
        (t.back_onStatement p s).ancestors).sect hi.2
      rw [Transform.onSectionItems]
      exact h.linear.append (a := [s]) (h.onStatement (.inl hi.1.2)) hrest
    | block b =>
      have hrest := ih (Scope.Within.congr ⟨hs, Nat.zero_le _⟩
        (t.back_onBlock { p with blockFollows := items.any (·.isBlock) } b).ancestors).sect hi.2
      rw [Transform.onSectionItems]
      exact h.linear.append (a := b.statements)
        (h.onBlock (p := { p with blockFollows := items.any (·.isBlock) }) hs hi.1) hrest

/-- The same for a section. -/
theorem Relates.onSection (h : t.Relates S H R) (hl : p.scope.levels = 0) {s : Section}
    (hs : s.Holds S H)
    (hlead : leadsBlocks s.body) : R s.statements (t.onSection p s).1.statements := by
  have hback := t.back_onStatement? (p.enter (.sect s)) s.header
  have henter : (p.enter (.sect s)).scope.section?.map (·.kind) = some s.kind := rfl
  have hw := Scope.Within.congr ⟨henter, Nat.zero_le _⟩ hback.ancestors
  have hlevels : (t.onStatement? (p.enter (.sect s)) s.header).2.scope.levels = 0 := by
    rw [Scope.levels, hback.ancestors]
    exact hl
  have hitems := h.onSectionItems  hw.sect hs.items
  obtain ⟨hkept, hat⟩ := h.keeps.onSectionItems hw.sect hlevels hs.items
  have hlead' := t.leadsBlocks_onSectionItems
    (p := (t.onStatement? (p.enter (.sect s)) s.header).2) hlead
  rw [Transform.onSection]
  refine h.linear.append ?_ (h.linear.trans hitems ?_)
  · refine Progress.settle_of (P := fun r : Option Statement => R s.header.toList r.toList) _
      (h.linear.refl _) ?_
    cases hh : s.header with
    | none => exact h.linear.refl _
    | some r => exact h.onStatement (.inr (hs.header r hh))
  · obtain ⟨-, heq | ⟨marked, new, hm, hput, -, heq⟩⟩ := t.onSectionBody_spec
      (t.onSectionItems (t.onStatement? (p.enter (.sect s)) s.header).2 s.body).2 s.kind
      (t.onStatement? (p.enter (.sect s)) s.header).1
      (t.onSectionItems (t.onStatement? (p.enter (.sect s)) s.header).2 s.body).1
    · dsimp only
      rw [heq]
      exact h.linear.refl _
    · dsimp only
      rw [heq, ← hm]
      rw [← hm] at hkept hlead'
      exact h.sect hput (hw.congr hat.ancestors).sect hkept hlead'

/-- The same for the sections of a file. -/
theorem Relates.onSections (h : t.Relates S H R) (hl : p.scope.levels = 0) {ss : List Section}
    (hs : ∀ s ∈ ss, s.Holds S H) (hlead : ∀ s ∈ ss, leadsBlocks s.body) :
    R (ss.flatMap Section.statements) ((t.onSections p ss).1.flatMap Section.statements) := by
  induction ss generalizing p with
  | nil => exact h.linear.refl _
  | cons s ss ih =>
    rw [List.forall_mem_cons] at hs hlead
    have hat := (h.keeps.onSection (p := { p with sectionFollows := !ss.isEmpty }) hl hs.1).2
    have hlevels : (t.onSection { p with sectionFollows := !ss.isEmpty } s).2.scope.levels = 0 := by
      rw [Scope.levels, hat.ancestors]
      exact hl
    rw [Transform.onSections]
    exact h.linear.append
      (h.onSection (p := { p with sectionFollows := !ss.isEmpty }) hl hs.1 hlead.1)
      (ih hlevels hs.2 hlead.2)

end

/-- **The statements of a file and those that a walk leads to are related,** if each decision
puts something related to what it takes the place of. -/
theorem Relates.run {S H : SectionKind → Statement → Prop}
    {R : List Statement → List Statement → Prop} (h : t.Relates S H R) {f : File}
    (hf : ∀ s ∈ f.sections, s.Holds S H)
    (hlead : ∀ s ∈ f.sections, leadsBlocks s.body) : R f.statements (t.run f).tree.statements := by
  have hl : (({} : Progress).enter (.file f)).scope.levels = 0 := rfl
  have hsections := h.onSections hl hf hlead
  have hkept := h.keeps.onSections hl hf
  rw [Transform.run]
  rcases t.onFileBody_spec (t.onSections (({} : Progress).enter (.file f)) f.sections).2
    (t.onSections (({} : Progress).enter (.file f)) f.sections).1 with
      heq | ⟨new, hput, -, heq⟩
  · dsimp only
    rw [File.statements, File.statements, heq]
    exact hsections
  · dsimp only
    rw [File.statements, File.statements, heq]
    exact h.linear.trans hsections (h.file hput hkept)

end Transform

end RobotSuite
