/-
# Levels of a tree

A property of statements may depend on the levels of indentation around them
(`Section.Leveled`).  A transform of single statements that gives such a property to each statement
it does not break off at gives it to all statements of the file, unless it breaks off
(`Transform.Settles.run`).  And where the sections of a file have such a property, whatever a walk
meets has it at the level of the scope, and the containers right around it have the properties that
follow for containers (`meetings_inside`).
-/

import RobotSuite.Lint.SpaceRules
import RobotSuite.Proofs.Format.Gaps.HiddenGaps
import RobotSuite.Proofs.Lint.Occurrences

namespace RobotSuite

namespace Scope
variable {sc sc' : Scope} {c : Container}

/-- The level is told by the ancestors. -/
theorem levels_congr (h : sc'.ancestors = sc.ancestors) : sc'.levels = sc.levels := by
  rw [levels, levels, h]

/-- A nesting container adds a level. -/
theorem levels_enter (hc : c.isNesting = true) : (sc.enter c).levels = sc.levels + 1 :=
  List.countP_cons_of_pos hc

/-- A branch adds none. -/
theorem levels_enter_branch {b : Branch} : (sc.enter (.branch b)).levels = sc.levels :=
  List.countP_cons_of_neg Bool.false_ne_true

end Scope

/-! ## Trees by levels -/

mutual

/-- Whether a property that depends on the levels of indentation around a statement holds of the
statements of a control block, which stands below `n` levels. -/
def ControlBlock.Leveled (Q : Nat → Statement → Prop) (n : Nat) : ControlBlock → Prop
  | ⟨_, _, header, body, branches, close, _⟩ =>
    Q (n + 1) header ∧ bodyLeveled Q (n + 1) body ∧ branchesLeveled Q (n + 1) branches ∧
      ∀ s ∈ close, Q (n + 1) s

/-- Whether such a property holds of the statements of a body. -/
def bodyLeveled (Q : Nat → Statement → Prop) (n : Nat) : List BodyItem → Prop
  | [] => True
  | .statement s :: items => Q n s ∧ bodyLeveled Q n items
  | .control c :: items => c.Leveled Q n ∧ bodyLeveled Q n items

/-- Whether such a property holds of the statements of a branch. -/
def Branch.Leveled (Q : Nat → Statement → Prop) (n : Nat) : Branch → Prop
  | ⟨_, header, body, _⟩ => Q n header ∧ bodyLeveled Q n body

/-- Whether such a property holds of the statements of some branches. -/
def branchesLeveled (Q : Nat → Statement → Prop) (n : Nat) : List Branch → Prop
  | [] => True
  | b :: bs => b.Leveled Q n ∧ branchesLeveled Q n bs

end

/-- Whether such a property holds of the statements of a section item. -/
def SectionItem.Leveled (Q : Nat → Statement → Prop) : SectionItem → Prop
  | .statement s => Q 0 s
  | .block b => Q 1 b.header ∧ bodyLeveled Q 1 b.body

/-- A section of whose statements a property holds that depends on the levels of indentation around
them. -/
structure Section.Leveled (Q : Nat → Statement → Prop) (s : Section) : Prop where
  header : ∀ h ∈ s.header, Q 0 h
  items : ∀ item ∈ s.body, item.Leveled Q

/-! ## What a transform leads to -/

namespace Transform

/-- A transform of single statements that gives a property to those for which it does not break
off.  The property depends on the kind of the section and on the levels of indentation. -/
structure Settles (t : Transform) (C : Scope → Prop) (S H : SectionKind → Statement → Prop)
    (Q : SectionKind → Nat → Statement → Prop) : Prop where
  start : C {}
  enter : ∀ {kind sc c}, C sc → (∀ header ∈ c.header?, S kind header ∨ H kind header) →
    C (sc.enter c)
  leave : ∀ {sc}, C sc → C sc.leave
  note : ∀ {kind sc s}, C sc → S kind s ∨ H kind s → C (sc.note s)
  statement : ∀ {kind sc n s}, C sc →
    sc.Shows kind s ∧ S kind s ∨
      sc.section?.map (·.kind) = some kind ∧ sc.levels = 0 ∧ H kind s →
    (t.statement sc n s).breakdown? = none →
    Q kind sc.levels ((t.statement sc n s).outcome s (replacementIssues s))
  body : t.leaveBody = fun _ _ _ => .keep
  sect : t.leaveSection = fun _ _ _ => .keep
  file : t.leaveFile = fun _ _ => .keep

section
variable {t : Transform} {C : Scope → Prop} {S H : SectionKind → Statement → Prop}
  {Q : SectionKind → Nat → Statement → Prop} {kind : SectionKind} {p : Progress}

/-- A walk that goes on leaves the new part of a container behind. -/
theorem settle_new {α : Type} {P : α → Prop} {old new : α} (hp : p.broken = none) (hn : P new) :
    P (p.settle old new) := by
  rw [Progress.settle, hp]
  exact hn

/-- Such a transform leaves bodies as they are. -/
theorem Settles.onBody (h : t.Settles C S H Q) (p : Progress) (header : Bool)
    (items : List (Marked BodyItem)) :
    unmark (t.onBody p header items).1 = unmark items ∧ (t.onBody p header items).2 = p := by
  rw [Transform.onBody, h.body]
  split
  · exact ⟨rfl, rfl⟩
  · exact ⟨Progress.unmark_remark _ _ _, rfl⟩

/-- The scope inside a container with a header. -/
theorem Settles.enter_headed (h : t.Settles C S H Q) (hC : C p.scope) {c : Container}
    {header : Statement} (hc : c.header? = some header) (hS : S kind header) :
    C (p.enter c).scope := by
  have hheader : ∀ r ∈ c.header?, S kind r ∨ H kind r := by
    intro r hr
    rw [hc] at hr
    obtain rfl : header = r := Option.some.inj hr
    exact .inl hS
  exact h.enter hC hheader

/-- A statement of a section, or its header, gets the property. -/
theorem Settles.onStatement (h : t.Settles C S H Q) (hC : C p.scope) {s : Statement}
    (hs : p.scope.Shows kind s ∧ S kind s ∨
      p.scope.section?.map (·.kind) = some kind ∧ p.scope.levels = 0 ∧ H kind s)
    (hb : (t.onStatement p s).2.broken = none) :
    Q kind p.scope.levels (t.onStatement p s).1.1 ∧ C (t.onStatement p s).2.scope := by
  have hSH : S kind s ∨ H kind s := hs.imp (·.2) (·.2.2)
  have hpb := (t.back_onStatement p s).broken hb
  have ha := p.scope.note_ancestors s
  refine ⟨?_, ?_⟩
  · rw [onStatement_eq, hpb] at hb ⊢
    dsimp only at hb ⊢
    rw [Progress.carryOut_fst, ← Scope.levels_congr ha]
    refine h.statement (h.note hC hSH) (hs.imp (fun hs => ⟨hs.1.congr ha, hs.2⟩) fun hs => ?_)
      (Decision.breakdown?_of_carryOut hb)
    exact ⟨(Scope.Within.congr ⟨hs.1, Nat.zero_le _⟩ ha).sect,
      (Scope.levels_congr ha).trans hs.2.1, hs.2.2⟩
  · rw [t.scope_onStatement]
    exact h.note hC hSH

/-- A closing statement is settled at its level. -/
theorem Settles.onStatement? (h : t.Settles C S H Q) (hC : C p.scope) {s : Option Statement}
    (hs : ∀ r ∈ s, p.scope.Shows kind r ∧ S kind r ∨
      p.scope.section?.map (·.kind) = some kind ∧ p.scope.levels = 0 ∧ H kind r)
    (hb : (t.onStatement? p s).2.broken = none) :
    (∀ r ∈ (t.onStatement? p s).1.map (·.1), Q kind p.scope.levels r) ∧
      C (t.onStatement? p s).2.scope := by
  cases s with
  | none => exact ⟨fun _ hr => absurd hr (Option.not_mem_none _), hC⟩
  | some s =>
    obtain ⟨hQ, hC'⟩ := h.onStatement hC (hs s rfl) hb
    refine ⟨fun r hr => ?_, hC'⟩
    obtain rfl : (t.onStatement p s).1.1 = r := by simpa [Transform.onStatement?] using hr
    exact hQ

mutual

/-- A control block is settled at its level. -/
theorem Settles.onControl (h : t.Settles C S H Q) {p : Progress} (hp : p.scope.Within kind 1)
    (hC : C p.scope) : ∀ {c : ControlBlock}, c.Holds (S kind) →
      (t.onControl p c).2.broken = none →
      (t.onControl p c).1.1.Leveled (Q kind) p.scope.levels ∧ C (t.onControl p c).2.scope
  | ⟨type, span, header, body, branches, close, label⟩, hc, hb => by
    rw [ControlBlock.Holds] at hc
    obtain ⟨⟨ho, hS⟩, hbody, hbranches, s, rfl, hs, hSs⟩ := hc
    let c : Container := .control ⟨type, span, header, body, branches, some s, label⟩
    let r1 := t.onStatement (p.enter c) header
    let r2 := t.onItems r1.2 body
    let r3 := t.onBranches r2.2 branches
    let r4 := t.onStatement r3.2 s
    obtain ⟨hitems, hleft⟩ := h.onBody r4.2 r1.1.2 r2.1
    -- the walk has not broken off behind the block, so it had not behind any part of it, and
    -- between the parts it stands right inside the block
    have hb4 : r4.2.broken = none := by rwa [← hleft]
    have hb3 := (t.back_onStatement r3.2 s).broken hb4
    have hb2 := (t.back_onBranches r2.2 branches).broken hb3
    have hb1 := (t.back_onItems r1.2 body).broken hb2
    have ha1 := (t.back_onStatement (p.enter c) header).ancestors
    have ha2 := (t.back_onItems r1.2 body).ancestors.trans ha1
    have ha3 := (t.back_onBranches r2.2 branches).ancestors.trans ha2
    have hw : (p.enter c).scope.Within kind 2 := hp.enter_nesting rfl
    have hn : (p.enter c).scope.levels = p.scope.levels + 1 := Scope.levels_enter rfl
    obtain ⟨hQ1, hC1⟩ := h.onStatement (h.enter_headed hC rfl hS)
      (.inl ⟨hw.shows_outer (isBlockName_of_opener ho), hS⟩) hb1
    obtain ⟨hQ2, hC2⟩ := h.onItems ((hw.congr ha1).mono (by omega)) hC1 hbody hb2
    obtain ⟨hQ3, hC3⟩ := h.onBranches (hw.congr ha2) hC2 hbranches hb3
    obtain ⟨hQ4, hC4⟩ := h.onStatement hC3
      (.inl ⟨(hw.congr ha3).shows_outer (by simp [isBlockName, hs]), hSs⟩) hb4
    rw [Scope.levels_congr ha1] at hQ2
    rw [Scope.levels_congr ha2] at hQ3
    rw [Scope.levels_congr ha3] at hQ4
    rw [hn] at hQ1 hQ2 hQ3 hQ4
    have hC5 : C (t.onBody r4.2 r1.1.2 r2.1).2.scope := by rwa [hleft]
    have hb5 : (t.onBody r4.2 r1.1.2 r2.1).2.broken = none := by rwa [hleft]
    rw [Transform.onControl]
    refine ⟨?_, h.leave hC5⟩
    show ControlBlock.Leveled _ _ ⟨type, span, _, unmark (t.onBody r4.2 r1.1.2 r2.1).1, unmark r3.1,
      _, label⟩
    rw [ControlBlock.Leveled, hitems]
    refine ⟨?_, hQ2, hQ3, ?_⟩
    · exact settle_new (P := Q kind _) hb5 hQ1
    · refine settle_new (P := fun close => ∀ r ∈ close, Q kind _ r) hb5 fun r hr => ?_
      obtain rfl := Option.some.inj hr
      exact hQ4

/-- The same for the items of a body. -/
theorem Settles.onItems (h : t.Settles C S H Q) {p : Progress} (hp : p.scope.Within kind 1)
    (hC : C p.scope) : ∀ {items : List BodyItem}, bodyHolds (S kind) items →
      (t.onItems p items).2.broken = none →
      bodyLeveled (Q kind) p.scope.levels (unmark (t.onItems p items).1) ∧
        C (t.onItems p items).2.scope
  | [], _, _ => by
    rw [Transform.onItems]
    exact ⟨trivial, hC⟩
  | .statement s :: items, hi, hb => by
    rw [bodyHolds, BodyItem.Holds] at hi
    rw [Transform.onItems, Transform.onItem] at hb ⊢
    have hb1 := (t.back_onItems (t.onStatement p s).2 items).broken hb
    have ha1 := (t.back_onStatement p s).ancestors
    obtain ⟨hQ, hC1⟩ := h.onStatement hC (.inl ⟨hp.shows_body hi.1.1, hi.1.2⟩) hb1
    obtain ⟨hrest, hC2⟩ := h.onItems (hp.congr ha1) hC1 hi.2 hb
    rw [Scope.levels_congr ha1] at hrest
    refine ⟨?_, hC2⟩
    show bodyLeveled _ _ (.statement _ :: _)
    rw [bodyLeveled]
    exact ⟨hQ, hrest⟩
  | .control c :: items, hi, hb => by
    rw [bodyHolds, BodyItem.Holds] at hi
    rw [Transform.onItems, Transform.onItem] at hb ⊢
    have hb1 := (t.back_onItems (t.onControl p c).2 items).broken hb
    have ha1 := (t.back_onControl p c).ancestors
    obtain ⟨hQ, hC1⟩ := h.onControl hp hC hi.1 hb1
    obtain ⟨hrest, hC2⟩ := h.onItems (hp.congr ha1) hC1 hi.2 hb
    rw [Scope.levels_congr ha1] at hrest
    refine ⟨?_, hC2⟩
    show bodyLeveled _ _ (.control _ :: _)
    rw [bodyLeveled]
    exact ⟨hQ, hrest⟩

/-- The same for a branch. -/
theorem Settles.onBranch (h : t.Settles C S H Q) {p : Progress} (hp : p.scope.Within kind 2)
    (hC : C p.scope) {type : ControlType} : ∀ {b : Branch}, b.Holds (S kind) type →
      (t.onBranch p b).2.broken = none →
      (t.onBranch p b).1.1.Leveled (Q kind) p.scope.levels ∧ C (t.onBranch p b).2.scope
  | ⟨span, header, body, label⟩, hh, hb => by
    rw [Branch.Holds] at hh
    obtain ⟨⟨ht, hS⟩, hbody⟩ := hh
    let b : Container := .branch ⟨span, header, body, label⟩
    let r1 := t.onStatement (p.enter b) header
    let r2 := t.onItems r1.2 body
    obtain ⟨hitems, hleft⟩ := h.onBody r2.2 r1.1.2 r2.1
    rw [Transform.onBranch] at hb ⊢
    have hb3 : (t.onBody r2.2 r1.1.2 r2.1).2.broken = none := hb
    have hb2 : r2.2.broken = none := by rwa [hleft] at hb3
    have hb1 := (t.back_onItems r1.2 body).broken hb2
    have ha1 := (t.back_onStatement (p.enter b) header).ancestors
    have hw : (p.enter b).scope.Within kind 2 := hp.enter_branch
    have hn : (p.enter b).scope.levels = p.scope.levels := Scope.levels_enter_branch
    obtain ⟨hQ1, hC1⟩ := h.onStatement (h.enter_headed hC rfl hS)
      (.inl ⟨hw.shows_outer (isBlockName_of_branchHeader ht), hS⟩) hb1
    obtain ⟨hQ2, hC2⟩ := h.onItems ((hw.congr ha1).mono (by omega)) hC1 hbody hb2
    rw [Scope.levels_congr ha1] at hQ2
    rw [hn] at hQ1 hQ2
    have hC3 : C (t.onBody r2.2 r1.1.2 r2.1).2.scope := by rwa [hleft]
    refine ⟨?_, h.leave hC3⟩
    show Branch.Leveled _ _ ⟨span, _, unmark (t.onBody r2.2 r1.1.2 r2.1).1, label⟩
    rw [Branch.Leveled, hitems]
    exact ⟨settle_new (P := Q kind _) hb3 hQ1, hQ2⟩

/-- The same for the branches of a block. -/
theorem Settles.onBranches (h : t.Settles C S H Q) {p : Progress} (hp : p.scope.Within kind 2)
    (hC : C p.scope) {type : ControlType} : ∀ {bs : List Branch},
      branchesHold (S kind) type bs → (t.onBranches p bs).2.broken = none →
      branchesLeveled (Q kind) p.scope.levels (unmark (t.onBranches p bs).1) ∧
        C (t.onBranches p bs).2.scope
  | [], _, _ => by
    rw [Transform.onBranches]
    exact ⟨trivial, hC⟩
  | b :: bs, hh, hb => by
    rw [branchesHold] at hh
    rw [Transform.onBranches] at hb ⊢
    have hb1 := (t.back_onBranches (t.onBranch p b).2 bs).broken hb
    have ha1 := (t.back_onBranch p b).ancestors
    obtain ⟨hQ, hC1⟩ := h.onBranch hp hC hh.1 hb1
    obtain ⟨hrest, hC2⟩ := h.onBranches (hp.congr ha1) hC1 hh.2 hb
    rw [Scope.levels_congr ha1] at hrest
    refine ⟨?_, hC2⟩
    show branchesLeveled _ _ (_ :: _)
    rw [branchesLeveled]
    exact ⟨hQ, hrest⟩

end

/-- The same for a block. -/
theorem Settles.onBlock (h : t.Settles C S H Q)
    (hk : p.scope.section?.map (·.kind) = some kind) (hl : p.scope.levels = 0) (hC : C p.scope)
    {b : Block} (hb : (SectionItem.block b).Holds (S kind) kind)
    (hbroken : (t.onBlock p b).2.broken = none) :
    (SectionItem.block (t.onBlock p b).1.1).Leveled (Q kind) ∧ C (t.onBlock p b).2.scope := by
  obtain ⟨⟨hin, hname, hS⟩, hbody⟩ := hb
  let r1 := t.onStatement (p.enter (.block b)) b.header
  let r2 := t.onItems r1.2 b.body
  obtain ⟨hitems, hleft⟩ := h.onBody r2.2 r1.1.2 r2.1
  rw [Transform.onBlock] at hbroken ⊢
  have hb3 : (t.onBody r2.2 r1.1.2 r2.1).2.broken = none := hbroken
  have hb2 : r2.2.broken = none := by rwa [hleft] at hb3
  have hb1 := (t.back_onItems r1.2 b.body).broken hb2
  have ha1 := (t.back_onStatement (p.enter (.block b)) b.header).ancestors
  have hw : (p.enter (.block b)).scope.Within kind 1 :=
    Scope.Within.enter_nesting (c := .block b) ⟨hk, Nat.zero_le _⟩ rfl
  have hn : (p.enter (.block b)).scope.levels = 1 := (Scope.levels_enter rfl).trans (by rw [hl])
  obtain ⟨hQ1, hC1⟩ := h.onStatement (h.enter_headed hC rfl hS)
    (.inl ⟨Scope.shows_name hk hl (isBlockName_of_nameType hname), hS⟩) hb1
  obtain ⟨hQ2, hC2⟩ := h.onItems (hw.congr ha1) hC1 hbody hb2
  rw [Scope.levels_congr ha1] at hQ2
  rw [hn] at hQ1 hQ2
  have hC3 : C (t.onBody r2.2 r1.1.2 r2.1).2.scope := by rwa [hleft]
  refine ⟨⟨settle_new (P := Q kind 1) hb3 hQ1, ?_⟩, h.leave hC3⟩
  show bodyLeveled _ _ (unmark (t.onBody r2.2 r1.1.2 r2.1).1)
  rwa [hitems]

/-- The same for the items of a section. -/
theorem Settles.onSectionItems (h : t.Settles C S H Q)
    (hk : p.scope.section?.map (·.kind) = some kind) (hl : p.scope.levels = 0) (hC : C p.scope)
    {items : List SectionItem} (hi : ∀ item ∈ items, item.Holds (S kind) kind)
    (hb : (t.onSectionItems p items).2.broken = none) :
    (∀ item ∈ unmark (t.onSectionItems p items).1, item.Leveled (Q kind)) ∧
      C (t.onSectionItems p items).2.scope := by
  induction items generalizing p with
  | nil =>
    rw [Transform.onSectionItems]
    exact ⟨by simp [unmark], hC⟩
  | cons item items ih =>
    obtain ⟨hitem, hrest⟩ := List.forall_mem_cons.1 hi
    cases item with
    | statement s =>
      rw [Transform.onSectionItems] at hb ⊢
      obtain ⟨_, hback⟩ := t.back_onSectionItems (t.onStatement p s).2 items
      have hb1 := hback.broken hb
      have ha1 := (t.back_onStatement p s).ancestors
      have hw := Scope.Within.congr ⟨hk, Nat.zero_le _⟩ ha1
      obtain ⟨hQ, hC1⟩ := h.onStatement hC
        (.inl ⟨Scope.Within.shows_section ⟨hk, Nat.zero_le _⟩ hitem.1, hitem.2⟩) hb1
      obtain ⟨hall, hC2⟩ := ih hw.sect ((Scope.levels_congr ha1).trans hl) hC1 hrest hb
      rw [hl] at hQ
      exact ⟨List.forall_mem_cons.2 ⟨hQ, hall⟩, hC2⟩
    | block b =>
      rw [Transform.onSectionItems] at hb ⊢
      let p' : Progress := { p with blockFollows := items.any (·.isBlock) }
      obtain ⟨_, hback⟩ := t.back_onSectionItems (t.onBlock p' b).2 items
      have hb1 := hback.broken hb
      have ha1 := (t.back_onBlock p' b).ancestors
      have hw := Scope.Within.congr ⟨hk, Nat.zero_le _⟩ ha1
      obtain ⟨hQ, hC1⟩ := h.onBlock (p := p') hk hl hC hitem hb1
      obtain ⟨hall, hC2⟩ := ih hw.sect ((Scope.levels_congr ha1).trans hl) hC1 hrest hb
      exact ⟨List.forall_mem_cons.2 ⟨hQ, hall⟩, hC2⟩

/-- The same for a section. -/
theorem Settles.onSection (h : t.Settles C S H Q) (hl : p.scope.levels = 0) (hC : C p.scope)
    {s : Section} (hs : s.Holds S H) (hb : (t.onSection p s).2.broken = none) :
    (t.onSection p s).1.Leveled (Q s.kind) ∧ C (t.onSection p s).2.scope := by
  let r1 := t.onStatement? (p.enter (.sect s)) s.header
  let r2 := t.onSectionItems r1.2 s.body
  have hleave : unmark (t.onSectionBody r2.2 s.kind r1.1 r2.1).1 = unmark r2.1 ∧
      (t.onSectionBody r2.2 s.kind r1.1 r2.1).2 = r2.2 := by
    rw [Transform.onSectionBody, h.sect]
    split
    · exact ⟨rfl, rfl⟩
    · exact ⟨Progress.unmark_remark _ _ _, rfl⟩
  obtain ⟨hitems, hleft⟩ := hleave
  rw [Transform.onSection] at hb ⊢
  have hb3 : (t.onSectionBody r2.2 s.kind r1.1 r2.1).2.broken = none := hb
  have hb2 : r2.2.broken = none := by rwa [hleft] at hb3
  obtain ⟨_, hback⟩ := t.back_onSectionItems r1.2 s.body
  have hb1 := hback.broken hb2
  have ha1 := (t.back_onStatement? (p.enter (.sect s)) s.header).ancestors
  have hk : (p.enter (.sect s)).scope.section?.map (·.kind) = some s.kind := rfl
  have hw := Scope.Within.congr ⟨hk, Nat.zero_le _⟩ ha1
  have hC0 : C (p.enter (.sect s)).scope := h.enter hC fun r hr => .inr (hs.header r hr)
  obtain ⟨hQ1, hC1⟩ := h.onStatement? hC0
    (fun r hr => .inr ⟨hk, hl, hs.header r hr⟩) hb1
  obtain ⟨hQ2, hC2⟩ := h.onSectionItems hw.sect ((Scope.levels_congr ha1).trans hl) hC1 hs.items hb2
  have hC3 : C (t.onSectionBody r2.2 s.kind r1.1 r2.1).2.scope := by rwa [hleft]
  refine ⟨⟨?_, ?_⟩, h.leave hC3⟩
  · rw [show (p.enter (.sect s)).scope.levels = 0 from hl] at hQ1
    exact settle_new (P := fun header => ∀ r ∈ header, Q s.kind 0 r) hb3 hQ1
  · show ∀ item ∈ unmark (t.onSectionBody r2.2 s.kind r1.1 r2.1).1, _
    rwa [hitems]

/-- The same for the sections of a file. -/
theorem Settles.onSections (h : t.Settles C S H Q) (hl : p.scope.levels = 0) (hC : C p.scope)
    {ss : List Section} (hs : ∀ s ∈ ss, s.Holds S H) (hb : (t.onSections p ss).2.broken = none) :
    ∀ s ∈ (t.onSections p ss).1, s.Leveled (Q s.kind) := by
  induction ss generalizing p with
  | nil => simp [Transform.onSections]
  | cons s ss ih =>
    rw [List.forall_mem_cons] at hs
    rw [Transform.onSections] at hb ⊢
    let p' : Progress := { p with sectionFollows := !ss.isEmpty }
    obtain ⟨_, hback⟩ := t.back_onSection p' s
    obtain ⟨hQ, hC1⟩ := h.onSection (p := p') hl hC hs.1 (unbroken_onSections t hb)
    exact List.forall_mem_cons.2
      ⟨hQ, ih ((Scope.levels_congr hback.ancestors).trans hl) hC1 hs.2 hb⟩

/-- **A transform of single statements that does not break off** gives its property to all
statements. -/
theorem Settles.run (h : t.Settles C S H Q) {f : File} (hf : ∀ s ∈ f.sections, s.Holds S H)
    (hb : (t.run f).broken = none) : ∀ s ∈ (t.run f).tree.sections, s.Leveled (Q s.kind) := by
  have hC : C (({} : Progress).enter (.file f)).scope :=
    h.enter h.start (fun _ hh => (nomatch hh : S .comments _ ∨ H .comments _))
  let r := t.onSections (({} : Progress).enter (.file f)) f.sections
  have hleave : t.onFileBody r.2 r.1 = r := by
    rw [Transform.onFileBody, h.file]
    split <;> rfl
  rw [Transform.run] at hb ⊢
  dsimp only at hb ⊢
  rw [hleave] at hb ⊢
  exact h.onSections rfl hC hf hb

end

end Transform

/-! ## What a walk through such a tree meets -/

/-- A place in a section, right inside a container with a property. -/
structure Scope.Inside (sect : Section) (A : Nat → Container → Prop) (sc : Scope) : Prop where
  sect : sc.section? = some sect
  parent : ∀ c ∈ sc.parent?, A sc.levels c

section
variable {sect : Section} {A : Nat → Container → Prop} {P : Statement → Prop}
  {Q : Nat → Statement → Prop} {sc sc' : Scope}

/-- Being inside a section is told by the ancestors. -/
theorem Scope.Inside.congr (h : sc.Inside sect A) (ha : sc'.ancestors = sc.ancestors) :
    sc'.Inside sect A := by
  obtain ⟨hsect, hparent⟩ := h
  constructor
  · rw [Scope.section?, ha]
    exact hsect
  · rw [Scope.parent?, ha, Scope.levels_congr ha]
    exact hparent

/-- A container of the section is inside it. -/
theorem Scope.Inside.enter {c : Container} (hsect : (sc.enter c).section? = some sect)
    (hA : A (sc.enter c).levels c) : (sc.enter c).Inside sect A := by
  refine ⟨hsect, fun d hd => ?_⟩
  obtain rfl : c = d := Option.some.inj hd
  exact hA

/-- What is met, inside containers with a property, has a property itself. -/
abbrev MeetsInside (sect : Section) (A : Nat → Container → Prop) (Q : Nat → Statement → Prop)
    (met : List (Statement × Scope)) : Prop :=
  ∀ m ∈ met, m.2.Inside sect A ∧ Q m.2.levels m.1

/-- A statement is met inside the section, at its level. -/
theorem meetsInside_meet {s : Statement} (h : sc.Inside sect A) (hs : Q sc.levels s) :
    (sc.note s).Inside sect A ∧ Q (sc.note s).levels s := by
  have ha := sc.note_ancestors s
  rw [Scope.levels_congr ha]
  exact ⟨h.congr ha, hs⟩

/-- A closing statement is met inside the section, at its level. -/
theorem meetsInside_meet? {s : Option Statement} (h : sc.Inside sect A)
    (hs : ∀ r ∈ s, Q sc.levels r) : MeetsInside sect A Q (meetings sc (s.toList.map .meet)) := by
  cases s with
  | none => exact List.forall_mem_nil _
  | some s => exact List.forall_mem_singleton.2 (meetsInside_meet h (hs s rfl))

/-- Whether the property of containers follows, for those with bodies, from what holds of their
bodies. -/
abbrev HoldsOfBodies (A : Nat → Container → Prop) (P : Statement → Prop)
    (Q : Nat → Statement → Prop) : Prop :=
  ∀ c n items, SpaceRules.leadingItems c = items.map SpaceRules.leadingItems.leadingItem →
    bodyHolds P items → bodyLeveled Q n items → A n c

mutual

/-- The statements of a control block are met inside the section, at their levels. -/
theorem meetsInside_control (hA : HoldsOfBodies A P Q) : ∀ {c : ControlBlock} {sc : Scope},
    c.Holds P → c.Leveled Q sc.levels → sc.section? = some sect →
    MeetsInside sect A Q (meetings sc c.steps)
  | ⟨type, span, header, body, branches, close, label⟩, sc, hc, hl, hsect => by
    rw [ControlBlock.Holds] at hc
    rw [ControlBlock.Leveled] at hl
    obtain ⟨-, hbody, hbranches, -⟩ := hc
    obtain ⟨hQ1, hQ2, hQ3, hQ4⟩ := hl
    let c : Container := .control ⟨type, span, header, body, branches, close, label⟩
    have hn : (sc.enter c).levels = sc.levels + 1 := Scope.levels_enter rfl
    have hin : (sc.enter c).Inside sect A := .enter hsect (hn ▸ hA _ _ _ rfl hbody hQ2)
    have ha1 := (sc.enter c).note_ancestors header
    have ha2 := (balanced_body body _).trans ha1
    have ha3 := (balanced_branches branches _).trans ha2
    rw [ControlBlock.steps]
    simp only [meetings_enter, meetings_meet, meetings_append, meetings_leave, meetings_nil,
      List.append_nil, Scope.behind_append, MeetsInside, List.forall_mem_cons,
      List.forall_mem_append]
    rw [← hn] at hQ1 hQ2 hQ3 hQ4
    refine ⟨meetsInside_meet hin hQ1, ⟨?_, ?_⟩, ?_⟩
    · exact meetsInside_body hA (hin.congr ha1) hbody (by rwa [Scope.levels_congr ha1])
    · exact meetsInside_branches hA (hin.congr ha2).sect hbranches (by rwa [Scope.levels_congr ha2])
    · exact meetsInside_meet? (hin.congr ha3) (by rwa [Scope.levels_congr ha3])

/-- The same for a body. -/
theorem meetsInside_body (hA : HoldsOfBodies A P Q) : ∀ {items : List BodyItem} {sc : Scope},
    sc.Inside sect A → bodyHolds P items → bodyLeveled Q sc.levels items →
    MeetsInside sect A Q (meetings sc (bodySteps items))
  | [], _, _, _, _ => List.forall_mem_nil _
  | .statement s :: items, sc, hin, hi, hl => by
    rw [bodyHolds] at hi
    rw [bodyLeveled] at hl
    have ha : (sc.behind [.meet s]).ancestors = sc.ancestors := sc.note_ancestors s
    rw [bodySteps, BodyItem.steps, meetings_append]
    refine List.forall_mem_append.2 ⟨List.forall_mem_singleton.2 (meetsInside_meet hin hl.1), ?_⟩
    exact meetsInside_body hA (hin.congr ha) hi.2 (by rw [Scope.levels_congr ha]; exact hl.2)
  | .control c :: items, sc, hin, hi, hl => by
    rw [bodyHolds, BodyItem.Holds] at hi
    rw [bodyLeveled] at hl
    have ha := balanced_control c sc
    rw [bodySteps, BodyItem.steps, meetings_append]
    refine List.forall_mem_append.2 ⟨meetsInside_control hA hi.1 hl.1 hin.sect, ?_⟩
    exact meetsInside_body hA (hin.congr ha) hi.2 (by rw [Scope.levels_congr ha]; exact hl.2)

/-- The same for a branch. -/
theorem meetsInside_branch (hA : HoldsOfBodies A P Q) : ∀ {b : Branch} {type : ControlType}
    {sc : Scope}, b.Holds P type → b.Leveled Q sc.levels → sc.section? = some sect →
    MeetsInside sect A Q (meetings sc b.steps)
  | ⟨span, header, body, label⟩, _, sc, hb, hl, hsect => by
    rw [Branch.Holds] at hb
    rw [Branch.Leveled] at hl
    let b : Container := .branch ⟨span, header, body, label⟩
    have hn : (sc.enter b).levels = sc.levels := Scope.levels_enter_branch
    have hin : (sc.enter b).Inside sect A := .enter hsect (hn ▸ hA _ _ _ rfl hb.2 hl.2)
    have ha := (sc.enter b).note_ancestors header
    rw [← hn] at hl
    rw [Branch.steps]
    simp only [meetings_enter, meetings_meet, meetings_append, meetings_leave, meetings_nil,
      List.append_nil, MeetsInside, List.forall_mem_cons]
    exact ⟨meetsInside_meet hin hl.1,
      meetsInside_body hA (hin.congr ha) hb.2 (by rw [Scope.levels_congr ha]; exact hl.2)⟩

/-- The same for the branches of a block. -/
theorem meetsInside_branches (hA : HoldsOfBodies A P Q) : ∀ {bs : List Branch}
    {type : ControlType} {sc : Scope}, sc.section? = some sect → branchesHold P type bs →
    branchesLeveled Q sc.levels bs → MeetsInside sect A Q (meetings sc (branchesSteps bs))
  | [], _, _, _, _, _ => List.forall_mem_nil _
  | b :: bs, _, sc, hsect, hb, hl => by
    rw [branchesHold] at hb
    rw [branchesLeveled] at hl
    have ha := balanced_branch b sc
    rw [branchesSteps, meetings_append]
    refine List.forall_mem_append.2 ⟨meetsInside_branch hA hb.1 hl.1 hsect, ?_⟩
    refine meetsInside_branches hA ?_ hb.2 (by rw [Scope.levels_congr ha]; exact hl.2)
    rw [Scope.section?, ha]
    exact hsect

end

/-- The same for a block. -/
theorem meetsInside_block (hA : HoldsOfBodies A P Q) {b : Block} {kind : SectionKind}
    (hb : (SectionItem.block b).Holds P kind) (hl : (SectionItem.block b).Leveled Q)
    (hsect : sc.section? = some sect) (hn : sc.levels = 0) :
    MeetsInside sect A Q (meetings sc b.steps) := by
  have hlevels : (sc.enter (.block b)).levels = 1 := (Scope.levels_enter rfl).trans (by rw [hn])
  have hin : (sc.enter (.block b)).Inside sect A :=
    .enter hsect (hlevels ▸ hA _ _ _ rfl hb.2 hl.2)
  have ha := (sc.enter (.block b)).note_ancestors b.header
  obtain ⟨hQ1, hQ2⟩ := hl
  rw [← hlevels] at hQ1 hQ2
  rw [Block.steps]
  simp only [meetings_enter, meetings_meet, meetings_append, meetings_leave, meetings_nil,
    List.append_nil, MeetsInside, List.forall_mem_cons]
  exact ⟨meetsInside_meet hin hQ1,
    meetsInside_body hA (hin.congr ha) hb.2 (by rwa [Scope.levels_congr ha])⟩

/-- The same for an item of a section. -/
theorem meetsInside_item (hA : HoldsOfBodies A P Q) {kind : SectionKind} {item : SectionItem}
    (hin : sc.Inside sect A) (hn : sc.levels = 0) (hi : item.Holds P kind) (hl : item.Leveled Q) :
    MeetsInside sect A Q (meetings sc item.steps) := by
  cases item with
  | statement s =>
    have hs : Q sc.levels s := by rw [hn]; exact hl
    exact List.forall_mem_singleton.2 (meetsInside_meet hin hs)
  | block b => exact meetsInside_block hA hi hl hin.sect hn

/-- The same for the items of a section. -/
theorem meetsInside_items (hA : HoldsOfBodies A P Q) {kind : SectionKind}
    {items : List SectionItem} (hin : sc.Inside sect A) (hn : sc.levels = 0)
    (hi : ∀ item ∈ items, item.Holds P kind) (hl : ∀ item ∈ items, item.Leveled Q) :
    MeetsInside sect A Q (meetings sc (items.flatMap SectionItem.steps)) := by
  induction items generalizing sc with
  | nil => exact List.forall_mem_nil _
  | cons item items ih =>
    rw [List.forall_mem_cons] at hi hl
    have ha := balanced_item item sc
    rw [List.flatMap_cons, meetings_append]
    refine List.forall_mem_append.2 ⟨meetsInside_item hA hin hn hi.1 hl.1, ?_⟩
    exact ih (hin.congr ha) ((Scope.levels_congr ha).trans hn) hi.2 hl.2

end

section
variable {S H : SectionKind → Statement → Prop} {Q : SectionKind → Nat → Statement → Prop}
  {A : SectionKind → Nat → Container → Prop} {sc : Scope}

/-- The same for a section. -/
theorem meetsInside_section {s : Section} (hA : HoldsOfBodies (A s.kind) (S s.kind) (Q s.kind))
    (hs : s.Holds S H) (hl : s.Leveled (Q s.kind)) (hsect : A s.kind 0 (.sect s))
    (hn : sc.levels = 0) : MeetsInside s (A s.kind) (Q s.kind) (meetings sc s.steps) := by
  have hlevels : (sc.enter (.sect s)).levels = 0 := hn
  have hin : (sc.enter (.sect s)).Inside s (A s.kind) := .enter rfl (hlevels ▸ hsect)
  have ha := Balanced.map_meet s.header.toList (sc.enter (.sect s))
  rw [Section.steps, List.append_assoc]
  simp only [meetings_enter, meetings_append, meetings_leave, meetings_nil, List.append_nil,
    MeetsInside, List.forall_mem_append]
  refine ⟨meetsInside_meet? hin fun r hr => ?_, ?_⟩
  · rw [hlevels]
    exact hl.header r hr
  · exact meetsInside_items hA (hin.congr ha) ((Scope.levels_congr ha).trans hlevels) hs.items
      hl.items

/-- **Whatever a walk meets in a file,** whose sections have a property by levels, stands in a
section, has the property at its level, and stands right inside a container with a property that
follows for containers with bodies and for sections. -/
theorem meetings_inside {f : File} (hf : ∀ s ∈ f.sections, s.Holds S H)
    (hl : ∀ s ∈ f.sections, s.Leveled (Q s.kind))
    (hA : ∀ kind, HoldsOfBodies (A kind) (S kind) (Q kind))
    (hsect : ∀ s ∈ f.sections, A s.kind 0 (.sect s)) :
    ∀ m ∈ f.meetings, ∃ s ∈ f.sections, m.2.Inside s (A s.kind) ∧ Q s.kind m.2.levels m.1 := by
  have hall (ss : List Section) (hss : ∀ s ∈ ss, s ∈ f.sections) (sc : Scope)
      (hn : sc.levels = 0) : ∀ m ∈ meetings sc (ss.flatMap Section.steps), ∃ s ∈ f.sections,
        m.2.Inside s (A s.kind) ∧ Q s.kind m.2.levels m.1 := by
    induction ss generalizing sc with
    | nil => exact List.forall_mem_nil _
    | cons s ss ih =>
      obtain ⟨hmem, hrest⟩ := List.forall_mem_cons.1 hss
      have ha := balanced_section s sc
      rw [List.flatMap_cons, meetings_append]
      refine List.forall_mem_append.2 ⟨fun m hm => ⟨s, hmem, ?_⟩,
        ih hrest _ ((Scope.levels_congr ha).trans hn)⟩
      exact meetsInside_section (hA s.kind) (hf s hmem) (hl s hmem) (hsect s hmem) hn m hm
  rw [File.meetings, File.steps, meetings_enter, meetings_append, meetings_leave, meetings_nil,
    List.append_nil]
  exact hall f.sections (fun _ h => h) _ rfl

end

end RobotSuite
