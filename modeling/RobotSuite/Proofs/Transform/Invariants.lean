/-
# What transforms keep

A transform walks through a whole file, but what it does is decided at single statements and
bodies.  If no decision spoils a property of statements and the shape of what it is about
(`Transform.Keeps`), the file that the walk leads to has the property and the shape, wherever
decisions were refused and wherever the walk broke off (`Transform.Keeps.run`).  The walk
meets each statement in its section and, in a body, at a depth of one at least
(`Scope.Shows`).
-/

import RobotSuite.Format.Pass
import RobotSuite.Proofs.Tree.FileLines

namespace RobotSuite

/-! ## Places -/

/-- Levels of indentation around a place. -/
def Scope.levels (sc : Scope) : Nat := sc.ancestors.countP (·.isNesting)

/-- A place in a section of a kind, below some levels of indentation at least. -/
structure Scope.Within (sc : Scope) (kind : SectionKind) (n : Nat) : Prop where
  sect : sc.section?.map (·.kind) = some kind
  levels : n ≤ sc.levels

/-- What is around a statement of a section of a kind. -/
structure Scope.Shows (sc : Scope) (kind : SectionKind) (s : Statement) : Prop where
  /-- The section. -/
  sect : sc.section?.map (·.kind) = some kind
  /-- Names of blocks stand at the margin. -/
  name : isBlockName s = true → sc.depth s = 0
  /-- What stands in a body is indented. -/
  body : isBlockName s = false → s.type.inSection kind = false → 1 ≤ sc.depth s

section
variable {sc sc' : Scope} {kind : SectionKind} {n : Nat}

/-- Noting a statement keeps the ancestors. -/
theorem Scope.note_ancestors (sc : Scope) (s : Statement) :
    (sc.note s).ancestors = sc.ancestors := by
  unfold note
  split
  · split
    · rfl
    · split <;> rfl
  · rfl

/-- Being within levels is told by the ancestors. -/
theorem Scope.Within.congr (h : sc.Within kind n) (ha : sc'.ancestors = sc.ancestors) :
    sc'.Within kind n := by
  obtain ⟨hk, hn⟩ := h
  constructor
  · rw [Scope.section?, ha]
    exact hk
  · rw [Scope.levels, ha]
    exact hn

/-- What is within many levels is within fewer. -/
theorem Scope.Within.mono {m : Nat} (h : sc.Within kind n) (hm : m ≤ n) : sc.Within kind m :=
  ⟨h.sect, Nat.le_trans hm h.levels⟩

/-- A nesting container adds a level. -/
theorem Scope.Within.enter_nesting {c : Container} (h : sc.Within kind n)
    (hc : c.isNesting = true) : (sc.enter c).Within kind (n + 1) := by
  constructor
  · have hk := h.sect
    cases c <;> simp_all [Container.isNesting, Scope.enter, Scope.section?]
  · have hn := h.levels
    rw [Scope.levels] at hn
    rw [Scope.levels, Scope.enter, List.countP_cons_of_pos hc]
    exact Nat.succ_le_succ hn

/-- A branch adds none. -/
theorem Scope.Within.enter_branch {b : Branch} (h : sc.Within kind n) :
    (sc.enter (.branch b)).Within kind n := by
  constructor
  · simpa [Scope.enter, Scope.section?] using h.sect
  · simpa [Scope.levels, Scope.enter, Container.isNesting] using h.levels

/-- Statements that may stand in a section by themselves. -/
theorem Scope.Within.shows_section {s : Statement} (h : sc.Within kind n)
    (hs : s.type.inSection kind = true) : sc.Shows kind s := by
  refine ⟨h.sect, fun hn => ?_, fun _ hf => by simp [hs] at hf⟩
  unfold isBlockName at hn
  cases ht : s.type <;> simp_all [StatementType.inSection]

/-- Statements in the body of a block. -/
theorem Scope.Within.shows_body {s : Statement} (h : sc.Within kind 1)
    (hs : s.type.inBody = true) : sc.Shows kind s := by
  refine ⟨h.sect, fun hn => ?_, fun _ _ => ?_⟩
  · rw [isBlockName_of_inBody hs] at hn
    exact absurd hn (by simp)
  · have ho : s.type.isOuter = false := by
      cases ht : s.type <;> simp_all [StatementType.inBody, StatementType.isOuter,
        StatementType.marker?]
    have := h.levels
    rw [Scope.levels] at this
    rw [Scope.depth, ho, if_neg Bool.false_ne_true]
    omega

/-- Headers and ENDs of control blocks. -/
theorem Scope.Within.shows_outer {s : Statement} (h : sc.Within kind 2)
    (hn : isBlockName s = false) : sc.Shows kind s := by
  refine ⟨h.sect, fun hb => by simp [hn] at hb, fun _ _ => ?_⟩
  have := h.levels
  rw [Scope.levels] at this
  rw [Scope.depth]
  split <;> omega

/-- The name of a block that stands in a section. -/
theorem Scope.shows_name {b : Block} {s : Statement} (hk : sc.section?.map (·.kind) = some kind)
    (hl : sc.levels = 0) (hs : isBlockName s = true) : (sc.enter (.block b)).Shows kind s := by
  refine ⟨by simpa [Scope.enter, Scope.section?] using hk, fun _ => ?_,
    fun hf => by simp [hs] at hf⟩
  have ho : s.type.isOuter = true := by
    unfold isBlockName at hs
    cases ht : s.type <;> simp_all [StatementType.isOuter]
  rw [Scope.levels] at hl
  rw [Scope.depth, ho, Scope.enter, List.countP_cons_of_pos rfl, hl]
  rfl

/-- Where a statement is shown is told by the ancestors. -/
theorem Scope.Shows.congr {s : Statement} (h : sc.Shows kind s)
    (ha : sc'.ancestors = sc.ancestors) : sc'.Shows kind s := by
  obtain ⟨hk, hn, hb⟩ := h
  rw [Scope.section?, ← ha] at hk
  rw [Scope.depth, ← ha] at hn hb
  exact ⟨hk, hn, hb⟩

end

/-! ## Steps of a walk -/

/-- Two states of a walk that stand at the same place. -/
structure Progress.At (p q : Progress) : Prop where
  ancestors : q.scope.ancestors = p.scope.ancestors
  follows : q.sectionFollows = p.sectionFollows

namespace Progress

/-- A state is where it is. -/
@[refl] theorem At.refl (p : Progress) : p.At p := ⟨rfl, rfl⟩

/-- Staying in place twice is staying in place. -/
theorem At.trans {p q r : Progress} (h : p.At q) (h' : q.At r) : p.At r :=
  ⟨h'.ancestors.trans h.ancestors, h'.follows.trans h.follows⟩

/-- Behind a container the walk stands where it stood in front of it. -/
theorem At.leave {p q : Progress} {c : Container} (h : (p.enter c).At q) : p.At q.leave := by
  obtain ⟨ha, hf⟩ := h
  refine ⟨?_, hf⟩
  show q.scope.ancestors.tail = p.scope.ancestors
  rw [ha]
  rfl

/-- What holds of the old and the new holds of what is settled for. -/
theorem settle_of {α : Type} {P : α → Prop} (p : Progress) {old new : α} (ho : P old)
    (hn : P new) : P (p.settle old new) := by
  unfold settle
  split
  · exact ho
  · exact hn

/-- A decision either leaves things as they are, or puts something with which nothing is
wrong. -/
theorem carryOut_spec {α : Type} (p : Progress) (old : α) (issues : α → List Issue)
    (d : Decision α) :
    p.At (p.carryOut old issues d).2 ∧
      ((p.carryOut old issues d).1 = old ∨
        ∃ new, d = .put new ∧ issues new = [] ∧ (p.carryOut old issues d).1 = new) := by
  cases d with
  | keep => exact ⟨.refl p, .inl rfl⟩
  | put new =>
    rw [carryOut]
    cases hi : issues new with
    | nil => exact ⟨.refl p, .inr ⟨new, rfl, hi, rfl⟩⟩
    | cons issue rest => exact ⟨⟨rfl, rfl⟩, .inl rfl⟩
  | breakOff reason => exact ⟨⟨rfl, rfl⟩, .inl rfl⟩

/-- Marking items keeps them. -/
theorem unmark_remark {α : Type} (p : Progress) (statements : α → List Statement)
    (items : List (Marked α)) : unmark (p.remark statements items) = unmark items := by
  unfold remark
  split
  · rfl
  · simp [unmark, Function.comp_def]

end Progress

namespace Transform
variable {t : Transform} {p : Progress}

/-- A statement stays as it is, or a sound replacement of its type takes its place. -/
theorem onStatement_spec (t : Transform) (p : Progress) (s : Statement) :
    p.At (t.onStatement p s).2 ∧
      ((t.onStatement p s).1.1 = s ∨
        ∃ sc new, sc.ancestors = p.scope.ancestors ∧ t.statement sc p.index s = .put new ∧
          new.type = s.type ∧ new.issues = [] ∧ (t.onStatement p s).1.1 = new) := by
  have hnext (q : Progress) :
      q.At (if (p.scope.note s).disables t.name s then q.switchOff s else q) := by
    unfold Progress.switchOff
    split
    · split <;> exact ⟨rfl, rfl⟩
    · exact .refl q
  have hnoted : p.At { p with scope := p.scope.note s, index := p.index + 1 } :=
    ⟨Scope.note_ancestors _ _, rfl⟩
  have hat := hnoted.trans (hnext _)
  rw [onStatement]
  dsimp only
  generalize (if (p.scope.note s).disables t.name s then
    ({ p with scope := p.scope.note s, index := p.index + 1 } : Progress).switchOff s
    else { p with scope := p.scope.note s, index := p.index + 1 }) = next at hat ⊢
  split
  · exact ⟨hat, .inl rfl⟩
  · obtain ⟨hcarry, hcase⟩ := next.carryOut_spec s (replacementIssues s)
      (t.statement (p.scope.note s) p.index s)
    refine ⟨hat.trans hcarry, hcase.imp_right ?_⟩
    rintro ⟨new, hput, hissues, heq⟩
    rw [replacementIssues, List.append_eq_nil_iff] at hissues
    have htype : new.type = s.type := by
      have := hissues.1
      split at this
      · assumption
      · simp at this
    exact ⟨_, new, Scope.note_ancestors _ _, hput, htype, hissues.2, heq⟩

/-- Leaving a body keeps its items or puts accepted ones in their place. -/
theorem onBody_spec (t : Transform) (p : Progress) (header : Bool)
    (items : List (Marked BodyItem)) :
    p.At (t.onBody p header items).2 ∧
      (unmark (t.onBody p header items).1 = unmark items ∨
        ∃ marked new, unmark marked = unmark items ∧
          t.leaveBody p.place header marked = .put new ∧ bodyIssues (unmark new) = [] ∧
          (t.onBody p header items).1 = new) := by
  rw [onBody]
  cases hb : p.broken with
  | some _ => exact ⟨.refl p, .inl rfl⟩
  | none =>
    obtain ⟨hat, hcase⟩ := p.carryOut_spec (p.remark BodyItem.statements items)
      (fun new => bodyIssues (unmark new))
      (t.leaveBody p.place header (p.remark BodyItem.statements items))
    refine ⟨hat, hcase.imp ?_ ?_⟩
    · intro heq
      rw [heq, Progress.unmark_remark]
    · rintro ⟨new, hput, hissues, heq⟩
      exact ⟨_, new, Progress.unmark_remark _ _ _, hput, hissues, heq⟩

/-- Leaving a section keeps its items or puts accepted ones in their place. -/
theorem onSectionBody_spec (t : Transform) (p : Progress) (kind : SectionKind)
    (header : Option (Marked Statement)) (items : List (Marked SectionItem)) :
    p.At (t.onSectionBody p kind header items).2 ∧
      (unmark (t.onSectionBody p kind header items).1 = unmark items ∨
        ∃ marked new, unmark marked = unmark items ∧
          t.leaveSection p.place header marked = .put new ∧ sectionIssues kind (unmark new) = [] ∧
          (t.onSectionBody p kind header items).1 = new) := by
  rw [onSectionBody]
  cases hb : p.broken with
  | some _ => exact ⟨.refl p, .inl rfl⟩
  | none =>
    obtain ⟨hat, hcase⟩ := p.carryOut_spec (p.remark SectionItem.statements items)
      (fun new => sectionIssues kind (unmark new))
      ((t.leaveSection p.place header (p.remark SectionItem.statements items)).guarded
        fun new => isUncheckable kind (unmark new))
    refine ⟨hat, hcase.imp ?_ ?_⟩
    · exact fun heq => (congrArg unmark heq).trans (Progress.unmark_remark _ _ _)
    · rintro ⟨new, hput, hissues, heq⟩
      exact ⟨_, new, Progress.unmark_remark _ _ _, (Decision.guarded_eq_put_iff.1 hput).1,
        hissues, heq⟩

/-- Leaving the file keeps its sections or puts accepted ones in their place. -/
theorem onFileBody_spec (t : Transform) (p : Progress) (ss : List Section) :
    (t.onFileBody p ss).1 = ss ∨
      ∃ new, t.leaveFile p.place ss = .put new ∧ sectionsIssues new = [] ∧
        (t.onFileBody p ss).1 = new := by
  rw [onFileBody]
  cases hb : p.broken with
  | some _ => exact .inl rfl
  | none =>
    obtain ⟨-, hcase⟩ := p.carryOut_spec ss sectionsIssues
      ((t.leaveFile p.place ss).guarded fun new => new.any (·.isUncheckable))
    refine hcase.imp_right ?_
    rintro ⟨new, hput, hissues, heq⟩
    exact ⟨new, (Decision.guarded_eq_put_iff.1 hput).1, hissues, heq⟩

/-! ## Properties that are kept -/

/-- A transform whose decisions inside sections keep a property `S` of their statements, a
property `H` of their headers, and the shape of bodies and sections. -/
structure KeepsInside (t : Transform) (S H : SectionKind → Statement → Prop) : Prop where
  statement : ∀ {kind sc n s new}, t.statement sc n s = .put new → sc.Shows kind s →
    new.type = s.type → S kind s → S kind new
  header : ∀ {kind sc n s new}, t.statement sc n s = .put new →
    sc.section?.map (·.kind) = some kind → sc.levels = 0 → new.type = s.type → H kind s → H kind new
  body : ∀ {kind place header items new}, t.leaveBody place header items = .put new →
    bodyHolds (S kind) (unmark items) → bodyHolds (S kind) (unmark new)
  sect : ∀ {kind place header items new}, t.leaveSection place header items = .put new →
    place.scope.section?.map (·.kind) = some kind →
    (∀ item ∈ unmark items, item.Holds (S kind) kind) →
    ∀ item ∈ unmark new, item.Holds (S kind) kind

/-- A transform whose decisions keep properties of statements and headers, and the shape of
bodies, sections and files. -/
structure Keeps (t : Transform) (S H : SectionKind → Statement → Prop) : Prop
    extends t.KeepsInside S H where
  file : ∀ {place ss new}, t.leaveFile place ss = .put new →
    (∀ s ∈ ss, s.Holds S H) → ∀ s ∈ new, s.Holds S H

section
variable {S H : SectionKind → Statement → Prop} {kind : SectionKind}

/-- A statement keeps what holds inside sections. -/
theorem KeepsInside.onStatement (h : t.KeepsInside S H) {s : Statement} (hs : p.scope.Shows kind s)
    (hS : S kind s) : S kind (t.onStatement p s).1.1 ∧ (t.onStatement p s).1.1.type = s.type ∧
      p.At (t.onStatement p s).2 := by
  obtain ⟨hat, heq | ⟨sc, new, ha, hput, htype, -, heq⟩⟩ := t.onStatement_spec p s
  · rw [heq]
    exact ⟨hS, rfl, hat⟩
  · rw [heq]
    exact ⟨h.statement hput (hs.congr ha) htype hS, htype, hat⟩

/-- A header keeps what holds of headers. -/
theorem KeepsInside.onHeader (h : t.KeepsInside S H) {s : Statement}
    (hs : p.scope.section?.map (·.kind) = some kind) (hl : p.scope.levels = 0) (hH : H kind s) :
    H kind (t.onStatement p s).1.1 := by
  obtain ⟨-, heq | ⟨sc, new, ha, hput, htype, -, heq⟩⟩ := t.onStatement_spec p s
  · rwa [heq]
  · rw [heq]
    have hlevels : sc.levels = 0 := by
      rw [Scope.levels, ha]
      exact hl
    exact h.header hput (Scope.Within.congr ⟨hs, Nat.zero_le _⟩ ha).sect hlevels htype hH

/-- Leaving a body keeps what holds of its items. -/
theorem KeepsInside.onBody (h : t.KeepsInside S H) {header : Bool}
    {items : List (Marked BodyItem)} (hi : bodyHolds (S kind) (unmark items)) :
    bodyHolds (S kind) (unmark (t.onBody p header items).1) ∧ p.At (t.onBody p header items).2 := by
  obtain ⟨hat, heq | ⟨marked, new, hm, hput, -, heq⟩⟩ := t.onBody_spec p header items
  · rw [heq]
    exact ⟨hi, hat⟩
  · rw [heq]
    rw [← hm] at hi
    exact ⟨h.body hput hi, hat⟩

mutual

/-- A body item keeps what holds inside sections. -/
theorem KeepsInside.onItem (h : t.KeepsInside S H) {p : Progress} (hp : p.scope.Within kind 1) :
    ∀ {item : BodyItem}, item.Holds (S kind) →
      (t.onItem p item).1.1.Holds (S kind) ∧ p.At (t.onItem p item).2
  | .statement s, hi => by
    rw [BodyItem.Holds] at hi
    obtain ⟨hS, htype, hat⟩ := h.onStatement (hp.shows_body hi.1) hi.2
    rw [Transform.onItem]
    refine ⟨?_, hat⟩
    show BodyItem.Holds _ (.statement _)
    rw [BodyItem.Holds, htype]
    exact ⟨hi.1, hS⟩
  | .control c, hi => by
    rw [BodyItem.Holds] at hi
    obtain ⟨hc, hat⟩ := h.onControl hp hi
    rw [Transform.onItem]
    refine ⟨?_, hat⟩
    show BodyItem.Holds _ (.control _)
    rw [BodyItem.Holds]
    exact hc

/-- The same for a control block. -/
theorem KeepsInside.onControl (h : t.KeepsInside S H) {p : Progress} (hp : p.scope.Within kind 1) :
    ∀ {c : ControlBlock}, c.Holds (S kind) →
      (t.onControl p c).1.1.Holds (S kind) ∧ p.At (t.onControl p c).2
  | ⟨type, span, header, body, branches, close, label⟩, hc => by
    rw [ControlBlock.Holds] at hc
    obtain ⟨⟨ho, hS⟩, hbody, hbranches, s, rfl, hs, hSs⟩ := hc
    have henter := hp.enter_nesting
      (c := .control ⟨type, span, header, body, branches, some s, label⟩) rfl
    obtain ⟨hheader, htype, hat1⟩ := h.onStatement (p := p.enter _)
      (henter.shows_outer (isBlockName_of_opener ho)) hS
    have hw1 := henter.congr hat1.ancestors
    obtain ⟨hitems, hat2⟩ := h.onItems (hw1.mono (by omega)) hbody
    have hw2 := hw1.congr hat2.ancestors
    obtain ⟨hbs, hat3⟩ := h.onBranches hw2 hbranches
    have hw3 := hw2.congr hat3.ancestors
    obtain ⟨hclose, hct, hat4⟩ := h.onStatement
      (hw3.shows_outer (by simp [isBlockName, hs])) hSs
    obtain ⟨hnew, hat5⟩ := h.onBody hitems
    rw [Transform.onControl]
    refine ⟨?_, (((hat1.trans hat2).trans hat3).trans (hat4.trans hat5)).leave⟩
    show ControlBlock.Holds _ ⟨_, _, _, _, _, _, _⟩
    rw [ControlBlock.Holds]
    refine ⟨?_, hnew, hbs, ?_⟩
    · exact Progress.settle_of (P := fun r => r.type = type.opener ∧ S kind r) _ ⟨ho, hS⟩
        ⟨htype.trans ho, hheader⟩
    · exact Progress.settle_of
        (P := fun c => ∃ r, c = some r ∧ r.type = .blockEnd ∧ S kind r) _
        ⟨s, rfl, hs, hSs⟩ ⟨_, rfl, hct.trans hs, hclose⟩

/-- The same for the items of a body. -/
theorem KeepsInside.onItems (h : t.KeepsInside S H) {p : Progress} (hp : p.scope.Within kind 1) :
    ∀ {items : List BodyItem}, bodyHolds (S kind) items →
      bodyHolds (S kind) (unmark (t.onItems p items).1) ∧ p.At (t.onItems p items).2
  | [], _ => by
    rw [Transform.onItems]
    exact ⟨trivial, .refl p⟩
  | item :: items, hi => by
    rw [bodyHolds] at hi
    obtain ⟨hitem, hat⟩ := h.onItem hp hi.1
    obtain ⟨hrest, hat'⟩ := h.onItems (hp.congr hat.ancestors) hi.2
    rw [Transform.onItems]
    refine ⟨?_, hat.trans hat'⟩
    show bodyHolds _ (_ :: _)
    rw [bodyHolds]
    exact ⟨hitem, hrest⟩

/-- The same for a branch. -/
theorem KeepsInside.onBranch (h : t.KeepsInside S H) {p : Progress} (hp : p.scope.Within kind 2)
    {type : ControlType} : ∀ {b : Branch}, b.Holds (S kind) type →
      (t.onBranch p b).1.1.Holds (S kind) type ∧ p.At (t.onBranch p b).2
  | ⟨span, header, body, label⟩, hb => by
    rw [Branch.Holds] at hb
    obtain ⟨⟨ht, hS⟩, hbody⟩ := hb
    have henter := hp.enter_branch (b := ⟨span, header, body, label⟩)
    obtain ⟨hheader, htype, hat1⟩ := h.onStatement (p := p.enter _)
      (henter.shows_outer (isBlockName_of_branchHeader ht)) hS
    have hw1 := henter.congr hat1.ancestors
    obtain ⟨hitems, hat2⟩ := h.onItems (hw1.mono (by omega)) hbody
    obtain ⟨hnew, hat3⟩ := h.onBody hitems
    rw [Transform.onBranch]
    refine ⟨?_, ((hat1.trans hat2).trans hat3).leave⟩
    show Branch.Holds _ _ ⟨_, _, _, _⟩
    rw [Branch.Holds]
    refine ⟨?_, hnew⟩
    refine Progress.settle_of (P := fun r => r.type ∈ type.branchHeaders ∧ S kind r) _
      ⟨ht, hS⟩ ⟨?_, hheader⟩
    rw [htype]
    exact ht

/-- The same for the branches of a block. -/
theorem KeepsInside.onBranches (h : t.KeepsInside S H) {p : Progress} (hp : p.scope.Within kind 2)
    {type : ControlType} : ∀ {bs : List Branch}, branchesHold (S kind) type bs →
      branchesHold (S kind) type (unmark (t.onBranches p bs).1) ∧ p.At (t.onBranches p bs).2
  | [], _ => by
    rw [Transform.onBranches]
    exact ⟨trivial, .refl p⟩
  | b :: bs, hb => by
    rw [branchesHold] at hb
    obtain ⟨hbranch, hat⟩ := h.onBranch hp hb.1
    obtain ⟨hrest, hat'⟩ := h.onBranches (hp.congr hat.ancestors) hb.2
    rw [Transform.onBranches]
    refine ⟨?_, hat.trans hat'⟩
    show branchesHold _ _ (_ :: _)
    rw [branchesHold]
    exact ⟨hbranch, hrest⟩

end

/-- The same for a block. -/
theorem KeepsInside.onBlock (h : t.KeepsInside S H)
    (hk : p.scope.section?.map (·.kind) = some kind) (hl : p.scope.levels = 0) {b : Block}
    (hb : (SectionItem.block b).Holds (S kind) kind) :
    (SectionItem.block (t.onBlock p b).1.1).Holds (S kind) kind ∧ p.At (t.onBlock p b).2 := by
  obtain ⟨⟨hin, hname, hS⟩, hbody⟩ := hb
  have henter := Scope.Within.enter_nesting (c := .block b) ⟨hk, Nat.zero_le _⟩ rfl
  obtain ⟨hheader, htype, hat1⟩ := h.onStatement (p := p.enter (.block b))
    (Scope.shows_name hk hl (isBlockName_of_nameType hname)) hS
  obtain ⟨hitems, hat2⟩ := h.onItems (henter.congr hat1.ancestors) hbody
  obtain ⟨hnew, hat3⟩ := h.onBody hitems
  rw [Transform.onBlock]
  refine ⟨⟨⟨hin, ?_⟩, hnew⟩, ((hat1.trans hat2).trans hat3).leave⟩
  exact Progress.settle_of (P := fun r => r.type = b.type.nameType ∧ S kind r) _ ⟨hname, hS⟩
    ⟨htype.trans hname, hheader⟩

/-- The same for the items of a section. -/
theorem KeepsInside.onSectionItems (h : t.KeepsInside S H)
    (hk : p.scope.section?.map (·.kind) = some kind) (hl : p.scope.levels = 0)
    {items : List SectionItem} (hi : ∀ item ∈ items, item.Holds (S kind) kind) :
    (∀ item ∈ unmark (t.onSectionItems p items).1, item.Holds (S kind) kind) ∧
      p.At (t.onSectionItems p items).2 := by
  induction items generalizing p with
  | nil =>
    rw [Transform.onSectionItems]
    exact ⟨by simp [unmark], .refl p⟩
  | cons item items ih =>
    have hitem := hi item List.mem_cons_self
    have hrest := fun i hm => hi i (List.mem_cons_of_mem _ hm)
    cases item with
    | statement s =>
      obtain ⟨hS, htype, hat⟩ := h.onStatement
        (Scope.Within.shows_section ⟨hk, Nat.zero_le _⟩ hitem.1) hitem.2
      have hw := Scope.Within.congr ⟨hk, Nat.zero_le _⟩ hat.ancestors
      obtain ⟨hall, hat'⟩ := ih hw.sect (by rw [Scope.levels, hat.ancestors]; exact hl) hrest
      have hin : (t.onStatement p s).1.1.type.inSection kind = true := by
        rw [htype]
        exact hitem.1
      rw [Transform.onSectionItems]
      refine ⟨?_, hat.trans hat'⟩
      intro i hm
      rcases List.mem_cons.1 hm with rfl | hm
      · exact ⟨hin, hS⟩
      · exact hall i hm
    | block b =>
      have hat0 : p.At { p with blockFollows := items.any (·.isBlock) } := ⟨rfl, rfl⟩
      obtain ⟨hblock, hat⟩ := h.onBlock (p := { p with blockFollows := items.any (·.isBlock) })
        hk hl hitem
      have hw := Scope.Within.congr ⟨hk, Nat.zero_le _⟩ (hat0.trans hat).ancestors
      obtain ⟨hall, hat'⟩ := ih hw.sect
        (by rw [Scope.levels, (hat0.trans hat).ancestors]; exact hl) hrest
      rw [Transform.onSectionItems]
      refine ⟨?_, (hat0.trans hat).trans hat'⟩
      intro i hm
      rcases List.mem_cons.1 hm with rfl | hm
      · exact hblock
      · exact hall i hm

/-- A header stays, or a replacement takes its place. -/
theorem onStatement?_spec (t : Transform) (p : Progress) (header : Option Statement) :
    p.At (t.onStatement? p header).2 ∧
      (∀ r ∈ (t.onStatement? p header).1.map (·.1), ∃ s ∈ header,
        r = (t.onStatement p s).1.1) ∧
      ((t.onStatement? p header).1 = none ↔ header = none) := by
  cases header with
  | none => exact ⟨.refl p, by simp [onStatement?], by simp [onStatement?]⟩
  | some s =>
    refine ⟨(t.onStatement_spec p s).1, ?_, by simp [onStatement?]⟩
    intro r hr
    exact ⟨s, rfl, by simpa [onStatement?, eq_comm] using hr⟩

/-- The same for a section. -/
theorem KeepsInside.onSection (h : t.KeepsInside S H) (hl : p.scope.levels = 0) {s : Section}
    (hs : s.Holds S H) : (t.onSection p s).1.Holds S H ∧ p.At (t.onSection p s).2 := by
  have henter : (p.enter (.sect s)).scope.section?.map (·.kind) = some s.kind := rfl
  have hlevels : (p.enter (.sect s)).scope.levels = 0 := hl
  obtain ⟨hat1, hheader, hnone⟩ := t.onStatement?_spec (p.enter (.sect s)) s.header
  have hw := Scope.Within.congr ⟨henter, Nat.zero_le _⟩ hat1.ancestors
  obtain ⟨hitems, hat2⟩ := h.onSectionItems hw.sect
    (by rw [Scope.levels, hat1.ancestors]; exact hlevels) hs.items
  have hw2 := hw.congr hat2.ancestors
  obtain ⟨hat3, hbody⟩ := t.onSectionBody_spec
    (t.onSectionItems (t.onStatement? (p.enter (.sect s)) s.header).2 s.body).2 s.kind
    (t.onStatement? (p.enter (.sect s)) s.header).1
    (t.onSectionItems (t.onStatement? (p.enter (.sect s)) s.header).2 s.body).1
  rw [Transform.onSection]
  refine ⟨⟨?_, ?_, ?_⟩, ((hat1.trans hat2).trans hat3).leave⟩
  · refine Progress.settle_of (P := fun c => ∀ r ∈ c, H s.kind r) _ hs.header fun r hr => ?_
    obtain ⟨old, hold, rfl⟩ := hheader r hr
    exact h.onHeader henter hlevels (hs.header old hold)
  · refine Progress.settle_of (P := fun c => c = none → s.kind = .comments) _ hs.headerless
      fun hn => hs.headerless (hnone.1 (Option.map_eq_none_iff.1 hn))
  · rcases hbody with heq | ⟨marked, new, hm, hput, -, heq⟩
    · show ∀ item ∈ unmark _, _
      rw [heq]
      exact hitems
    · show ∀ item ∈ unmark _, _
      rw [heq]
      rw [← hm] at hitems
      exact h.sect hput hw2.sect hitems

/-- The same for the sections of a file. -/
theorem KeepsInside.onSections (h : t.KeepsInside S H) (hl : p.scope.levels = 0)
    {ss : List Section} (hs : ∀ s ∈ ss, s.Holds S H) :
    ∀ s ∈ (t.onSections p ss).1, s.Holds S H := by
  induction ss generalizing p with
  | nil => simp [Transform.onSections]
  | cons s ss ih =>
    obtain ⟨hsect, hat⟩ := h.onSection (p := { p with sectionFollows := !ss.isEmpty }) hl
      (hs s List.mem_cons_self)
    have hrest := ih (p := (t.onSection { p with sectionFollows := !ss.isEmpty } s).2)
      (by rw [Scope.levels, hat.ancestors]; exact hl) fun r hr => hs r (List.mem_cons_of_mem _ hr)
    rw [Transform.onSections]
    intro r hr
    rcases List.mem_cons.1 hr with rfl | hr
    · exact hsect
    · exact hrest r hr

/-- **What no decision spoils is kept by the whole walk.** -/
theorem Keeps.run (h : t.Keeps S H) {f : File} (hf : ∀ s ∈ f.sections, s.Holds S H) :
    ∀ s ∈ (t.run f).tree.sections, s.Holds S H := by
  have hs := h.onSections (p := ({} : Progress).enter (.file f)) rfl hf
  rw [Transform.run]
  rcases t.onFileBody_spec (t.onSections (({} : Progress).enter (.file f)) f.sections).2
    (t.onSections (({} : Progress).enter (.file f)) f.sections).1 with heq | ⟨new, hput, -, heq⟩
  · dsimp only
    rw [heq]
    exact hs
  · dsimp only
    rw [heq]
    exact h.file hput hs

end

/-! ## Headers without line break -/

/-- A transform that puts nothing behind a header without line break. -/
structure KeepsEnds (t : Transform) : Prop where
  header : ∀ {kind sc n s new}, t.statement sc n s = .put new → s.IsHeader kind →
    new.isUnterminated = true → s.isUnterminated = true
  sect : ∀ {place header items new}, t.leaveSection place header items = .put new →
    unmark items = [] → place.sectionFollows = false → unmark new = []
  file : ∀ {place ss new}, t.leaveFile place ss = .put new → headersEnd ss → headersEnd new

theorem onSectionItems_nil (t : Transform) (p : Progress) : t.onSectionItems p [] = ([], p) := by
  rw [onSectionItems]

/-- A section that ends with its header stays so. -/
theorem KeepsEnds.onSection (h : t.KeepsEnds) {s : Section}
    (ht : ∀ r ∈ s.header, r.IsHeader s.kind)
    (he : (∃ r ∈ s.header, r.isUnterminated = true) → s.body = [] ∧ p.sectionFollows = false)
    (hr : ∃ r ∈ (t.onSection p s).1.header, r.isUnterminated = true) :
    (t.onSection p s).1.body = [] ∧ ∃ r ∈ s.header, r.isUnterminated = true := by
  obtain ⟨hat, hheader, -⟩ := t.onStatement?_spec (p.enter (.sect s)) s.header
  have hold : ∃ r ∈ s.header, r.isUnterminated = true := by
    obtain ⟨r, hr, hu⟩ := hr
    rw [Transform.onSection] at hr
    revert hr
    refine Progress.settle_of (P := fun c => r ∈ c → ∃ r ∈ s.header, r.isUnterminated = true) _
      (fun hr => ⟨r, hr, hu⟩) fun hr => ?_
    obtain ⟨old, hold, rfl⟩ := hheader r hr
    refine ⟨old, hold, ?_⟩
    obtain ⟨-, heq | ⟨sc, new, -, hput, -, -, heq⟩⟩ := t.onStatement_spec (p.enter (.sect s)) old
    · rwa [heq] at hu
    · rw [heq] at hu
      exact h.header hput (ht old hold) hu
  obtain ⟨hnil, hfollows⟩ := he hold
  refine ⟨?_, hold⟩
  rw [Transform.onSection, hnil]
  show unmark _ = []
  rw [onSectionItems_nil]
  obtain ⟨-, heq | ⟨marked, new, hm, hput, -, heq⟩⟩ := t.onSectionBody_spec
    (t.onStatement? (p.enter (.sect s)) s.header).2 s.kind
    (t.onStatement? (p.enter (.sect s)) s.header).1 []
  · exact heq
  · rw [heq]
    exact h.sect hput hm (hat.follows.trans hfollows)

/-- No section is added or lost on the way. -/
theorem length_onSections (t : Transform) (p : Progress) (ss : List Section) :
    (t.onSections p ss).1.length = ss.length := by
  induction ss generalizing p with
  | nil => rfl
  | cons s ss ih => simp [onSections, ih]

/-- Headers go on ending their lines. -/
theorem KeepsEnds.onSections (h : t.KeepsEnds) {ss : List Section}
    (ht : ∀ s ∈ ss, ∀ r ∈ s.header, r.IsHeader s.kind) (he : headersEnd ss) :
    headersEnd (t.onSections p ss).1 := by
  induction ss generalizing p with
  | nil => trivial
  | cons s ss ih =>
    obtain ⟨hhead, hrest⟩ := he
    rw [Transform.onSections]
    refine ⟨fun hr => ?_, ih (fun r hr => ht r (List.mem_cons_of_mem _ hr)) hrest⟩
    obtain ⟨hnil, hold⟩ := h.onSection (ht s List.mem_cons_self) (fun hr => by simp [hhead hr]) hr
    refine ⟨hnil, ?_⟩
    have hlen := t.length_onSections (t.onSection { p with sectionFollows := !ss.isEmpty } s).2 ss
    rw [(hhead hold).2] at hlen ⊢
    rfl

/-- **Behind a header without line break nothing comes to stand.** -/
theorem KeepsEnds.run (h : t.KeepsEnds) {f : File}
    (ht : ∀ s ∈ f.sections, ∀ r ∈ s.header, r.IsHeader s.kind) (hf : headersEnd f.sections) :
    headersEnd (t.run f).tree.sections := by
  have hs := h.onSections (p := ({} : Progress).enter (.file f)) ht hf
  rw [Transform.run]
  rcases t.onFileBody_spec (t.onSections (({} : Progress).enter (.file f)) f.sections).2
    (t.onSections (({} : Progress).enter (.file f)) f.sections).1 with heq | ⟨new, hput, -, heq⟩
  · dsimp only
    rw [heq]
    exact hs
  · dsimp only
    rw [heq]
    exact h.file hput hs

/-- **A transform whose decisions keep statements sound and headers in front leads from a
sound file to a sound file.** -/
theorem sound_run (hk : t.Keeps Statement.IsSound Statement.IsHeader) (he : t.KeepsEnds)
    {f : File} (hf : f.IsSound) : (t.run f).tree.IsSound := by
  exact ⟨hk.run hf.sections, he.run (fun s hs => (hf.sections s hs).header) hf.headers⟩

end Transform

/-! ## Passes -/

/-- What a pass works with in a run of the formatter. -/
structure PassSetup.IsValid (setup : PassSetup) : Prop where
  separator : IsWide setup.config.separator
  indent : 1 ≤ setup.config.indent
  newline : setup.newline = "\n" ∨ setup.newline = "\r\n"

/-- The newline of a valid setup is a line break. -/
theorem PassSetup.IsValid.isBreak {setup : PassSetup} (h : setup.IsValid) :
    IsBreak (.create .eol setup.newline) := by
  refine ⟨rfl, ?_⟩
  rcases h.newline with h | h
  · exact .inl h
  · exact .inr (.inl h)

/-- The newline of a valid setup is not empty. -/
theorem PassSetup.IsValid.newline_ne {setup : PassSetup} (h : setup.IsValid) :
    setup.newline ≠ "" := by
  rcases h.newline with h | h <;> simp [h]

/-- A decision to put comes from a value. -/
theorem Decision.ofOption_eq_put {α : Type} {o : Option α} {new : α}
    (h : Decision.ofOption o = .put new) : o = some new := by
  cases o with
  | none => cases h
  | some x =>
    obtain rfl : x = new := by simpa [Decision.ofOption] using h
    rfl

namespace Pass
variable {info : PassInfo}

/-- A pass whose decisions keep statements sound, and put nothing behind a header without line
break. -/
def KeepsSound (p : Pass) : Prop :=
  ∀ setup f t, setup.IsValid → p.plan setup f = .ok t →
    t.Keeps Statement.IsSound Statement.IsHeader ∧ t.KeepsEnds

/-- Such a pass leads from sound files to sound files, also where it fails. -/
theorem KeepsSound.apply {p : Pass} (h : p.KeepsSound) {setup : PassSetup} {f : File}
    (hv : setup.IsValid) (hf : f.IsSound) : (p.apply setup f).tree.IsSound := by
  rw [Pass.apply]
  cases hplan : p.plan setup f with
  | error reason => exact hf
  | ok t =>
    obtain ⟨hk, he⟩ := h setup f t hv hplan
    exact Transform.sound_run hk he hf

/-- A pass keeps files sound if its transform keeps statements so. -/
theorem keepsSound_ofTransform {t : PassSetup → File → Transform}
    (hk : ∀ setup f, setup.IsValid → (t setup f).Keeps Statement.IsSound Statement.IsHeader)
    (he : ∀ setup f, setup.IsValid → (t setup f).KeepsEnds) : (ofTransform info t).KeepsSound := by
  intro setup f t hv hplan
  obtain rfl := Except.ok.inj hplan
  exact ⟨hk setup f hv, he setup f hv⟩

/-- A pass over single statements keeps files sound if it keeps statements and headers. -/
theorem keepsSound_ofStatements {g : PassSetup → Scope → Statement → Decision Statement}
    (hs : ∀ {setup kind sc s new}, setup.IsValid → g setup sc s = .put new → sc.Shows kind s →
      s.IsSound kind → new.IsSound kind)
    (hh : ∀ {setup kind sc s new}, setup.IsValid → g setup sc s = .put new →
      sc.section?.map (·.kind) = some kind → sc.levels = 0 → s.IsHeader kind → new.IsHeader kind)
    (he : ∀ {setup kind sc s new}, setup.IsValid → g setup sc s = .put new → s.IsHeader kind →
      new.isUnterminated = true → s.isUnterminated = true) : (ofStatements info g).KeepsSound := by
  have hput {setup sc s new} (h : (if sc.disables info.name s then .keep else g setup sc s) =
      Decision.put new) : g setup sc s = .put new := by
    split at h
    · cases h
    · exact h
  refine keepsSound_ofTransform (fun setup f hv => ?_) fun setup f hv => ?_
  · exact
      { statement := fun h hsh _ hS => hs hv (hput h) hsh hS
        header := fun h hk hl _ hH => hh hv (hput h) hk hl hH
        body := fun h => by cases h
        sect := fun h => by cases h
        file := fun h => by cases h }
  · exact
      { header := fun h => he hv (hput h)
        sect := fun h => by cases h
        file := fun h => by cases h }

/-- A pass over single statements that leaves headers alone keeps files sound if it keeps
statements. -/
theorem keepsSound_ofItems {g : PassSetup → Scope → Statement → Decision Statement}
    (hs : ∀ {setup kind sc s new}, setup.IsValid → g setup sc s = .put new → sc.Shows kind s →
      s.IsSound kind → new.IsSound kind)
    (hh : ∀ {setup sc s new}, g setup sc s = .put new → s.type ≠ .sectionHeader) :
    (ofStatements info g).KeepsSound := by
  refine keepsSound_ofStatements hs ?_ ?_
  · intro setup kind sc s new _ h _ _ hheader
    exact absurd hheader.type (hh h)
  · intro setup kind sc s new _ h hheader _
    exact absurd hheader.type (hh h)

end Pass

end RobotSuite
