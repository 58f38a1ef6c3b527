/-
# What every transform keeps

Whatever a transform decides, its walk comes back to the place from which it set out
(`Progress.Back`), and it never spoils what is checked of the tree by itself: a replacement is
checked before it is carried out, so a well-placed file stays well placed
(`Transform.wellPlaced_run`).  Only line breaks between statements need an argument about the
transform.
-/

import RobotSuite.Proofs.Transform.Invariants
import RobotSuite.Proofs.Tree.Valid

namespace RobotSuite

/-! ## Coming back -/

/-- Leaving a container entered is back in the scope. -/
theorem Scope.leave_enter (sc : Scope) (c : Container) : (sc.enter c).leave = sc := by
  rw [Scope.enter, Scope.leave]
  by_cases hc : c.isBranch = true <;> simp [hc]

/-- Two states of a walk that stand at the same place in the same surroundings. -/
structure Progress.Back (p q : Progress) : Prop where
  ancestors : q.scope.ancestors = p.scope.ancestors
  /-- The frames may have changed, but not their number. -/
  frames : q.scope.frames.length = p.scope.frames.length
  blockFollows : q.blockFollows = p.blockFollows
  sectionFollows : q.sectionFollows = p.sectionFollows
  /-- A walk that has broken off stays so. -/
  broken : q.broken = none → p.broken = none

namespace Progress
variable {p q r : Progress}

/-- A state is back at itself. -/
@[refl] theorem Back.refl (p : Progress) : p.Back p := ⟨rfl, rfl, rfl, rfl, id⟩

/-- Coming back twice is coming back. -/
theorem Back.trans (h : p.Back q) (h' : q.Back r) : p.Back r :=
  ⟨h'.ancestors.trans h.ancestors, h'.frames.trans h.frames,
    h'.blockFollows.trans h.blockFollows, h'.sectionFollows.trans h.sectionFollows,
    fun hr => h.broken (h'.broken hr)⟩

/-- Behind a container the walk stands where it stood in front of it. -/
theorem Back.leave {c : Container} (h : (p.enter c).Back q) : p.Back q.leave := by
  obtain ⟨ha, hf, hb, hs, hbroken⟩ := h
  have ha : q.scope.ancestors = c :: p.scope.ancestors := ha
  refine ⟨?_, ?_, hb, hs, hbroken⟩
  · show q.scope.ancestors.tail = p.scope.ancestors
    rw [ha]
    rfl
  · show (if q.scope.ancestors.head?.any (·.isBranch) then q.scope.frames
      else q.scope.frames.tail).length = p.scope.frames.length
    rw [ha, List.head?_cons, Option.any_some]
    have hf : q.scope.frames.length =
      (if c.isBranch then p.scope.frames else _ :: p.scope.frames).length := hf
    split at hf
    · rename_i hc
      rw [if_pos hc, hf]
    · rename_i hc
      rw [if_neg hc, List.length_tail, hf, List.length_cons, Nat.add_sub_cancel]

/-- Carrying a decision out stays in the scope. -/
theorem back_carryOut {α : Type} (p : Progress) (old : α) (issues : α → List Issue)
    (d : Decision α) : p.Back (p.carryOut old issues d).2 := by
  cases d with
  | keep => exact .refl p
  | put new =>
    rw [carryOut]
    split <;> exact ⟨rfl, rfl, rfl, rfl, id⟩
  | breakOff reason => exact ⟨rfl, rfl, rfl, rfl, fun h => absurd h (Option.some_ne_none reason)⟩

/-- Noting a statement stays among the ancestors. -/
theorem back_note (p : Progress) (s : Statement) :
    p.Back { p with scope := p.scope.note s, index := p.index + 1 } := by
  refine ⟨Scope.note_ancestors _ _, ?_, rfl, rfl, id⟩
  show (p.scope.note s).frames.length = _
  unfold Scope.note
  split
  · split
    · rfl
    · split <;> simp
  · rfl

end Progress

namespace Transform
variable (t : Transform)

/-- The run comes back from a statement. -/
theorem back_onStatement (p : Progress) (s : Statement) : p.Back (t.onStatement p s).2 := by
  have hnext (q : Progress) :
      q.Back (if (p.scope.note s).disables t.name s then q.switchOff s else q) := by
    unfold Progress.switchOff
    split
    · split <;> exact ⟨rfl, rfl, rfl, rfl, id⟩
    · exact .refl q
  have hback := (p.back_note s).trans (hnext _)
  rw [onStatement]
  dsimp only
  split
  · exact hback
  · exact hback.trans (Progress.back_carryOut _ _ _ _)

/-- The run comes back from a closing statement. -/
theorem back_onStatement? (p : Progress) (s : Option Statement) :
    p.Back (t.onStatement? p s).2 := by
  cases s with
  | none => exact .refl p
  | some s => exact t.back_onStatement p s

/-- The run comes back from leaving a body. -/
theorem back_onBody (p : Progress) (header : Bool) (items : List (Marked BodyItem)) :
    p.Back (t.onBody p header items).2 := by
  rw [onBody]
  split
  · exact .refl p
  · exact p.back_carryOut _ _ _

/-- The run comes back from leaving a section. -/
theorem back_onSectionBody (p : Progress) (kind : SectionKind) (header : Option (Marked Statement))
    (items : List (Marked SectionItem)) : p.Back (t.onSectionBody p kind header items).2 := by
  rw [onSectionBody]
  split
  · exact .refl p
  · exact p.back_carryOut _ _ _

mutual

/-- The run comes back from an item. -/
theorem back_onItem (p : Progress) : ∀ item : BodyItem, p.Back (t.onItem p item).2
  | .statement s => by
    rw [onItem]
    exact t.back_onStatement p s
  | .control c => by
    rw [onItem]
    exact back_onControl p c

/-- The same for a control block. -/
theorem back_onControl (p : Progress) : ∀ c : ControlBlock, p.Back (t.onControl p c).2
  | ⟨_, _, _, body, branches, _, _⟩ => by
    rw [onControl]
    exact (((t.back_onStatement _ _).trans (back_onItems _ body)).trans
      ((back_onBranches _ branches).trans
        ((t.back_onStatement? _ _).trans (t.back_onBody _ _ _)))).leave

/-- The same for the items of a body. -/
theorem back_onItems (p : Progress) : ∀ items : List BodyItem, p.Back (t.onItems p items).2
  | [] => by
    rw [onItems]
  | item :: items => by
    rw [onItems]
    exact (back_onItem p item).trans (back_onItems _ items)

/-- The same for a branch. -/
theorem back_onBranch (p : Progress) : ∀ b : Branch, p.Back (t.onBranch p b).2
  | ⟨_, _, body, _⟩ => by
    rw [onBranch]
    exact (((t.back_onStatement _ _).trans (back_onItems _ body)).trans (t.back_onBody _ _ _)).leave

/-- The same for the branches of a block. -/
theorem back_onBranches (p : Progress) : ∀ bs : List Branch, p.Back (t.onBranches p bs).2
  | [] => by
    rw [onBranches]
  | b :: bs => by
    rw [onBranches]
    exact (back_onBranch p b).trans (back_onBranches _ bs)

end

/-- The same for a block. -/
theorem back_onBlock (p : Progress) (b : Block) : p.Back (t.onBlock p b).2 := by
  rw [onBlock]
  exact (((t.back_onStatement _ _).trans (t.back_onItems _ _)).trans (t.back_onBody _ _ _)).leave

/-- Behind the items of a section it may have been noted otherwise whether blocks follow. -/
theorem back_onSectionItems (p : Progress) (items : List SectionItem) :
    ∃ b, { p with blockFollows := b }.Back (t.onSectionItems p items).2 := by
  induction items generalizing p with
  | nil =>
    rw [onSectionItems]
    exact ⟨p.blockFollows, .refl p⟩
  | cons item items ih =>
    cases item with
    | statement s =>
      have hback := t.back_onStatement p s
      obtain ⟨b, hrest⟩ := ih (t.onStatement p s).2
      rw [onSectionItems]
      exact ⟨b, hrest.ancestors.trans hback.ancestors, hrest.frames.trans hback.frames,
        hrest.blockFollows, hrest.sectionFollows.trans hback.sectionFollows,
        fun hq => hback.broken (hrest.broken hq)⟩
    | block b =>
      have hback := t.back_onBlock { p with blockFollows := items.any (·.isBlock) } b
      obtain ⟨c, hrest⟩ := ih (t.onBlock { p with blockFollows := items.any (·.isBlock) } b).2
      rw [onSectionItems]
      exact ⟨c, hrest.ancestors.trans hback.ancestors, hrest.frames.trans hback.frames,
        hrest.blockFollows, hrest.sectionFollows.trans hback.sectionFollows,
        fun hq => hback.broken (hrest.broken hq)⟩

/-- The same for a section, what follows it apart. -/
theorem back_onSection (p : Progress) (s : Section) :
    ∃ b, { p with blockFollows := b }.Back (t.onSection p s).2 := by
  have hheader := t.back_onStatement? (p.enter (.sect s)) s.header
  obtain ⟨b, hitems⟩ := t.back_onSectionItems (t.onStatement? (p.enter (.sect s)) s.header).2 s.body
  have hrest := hitems.trans (t.back_onSectionBody _ s.kind
    (t.onStatement? (p.enter (.sect s)) s.header).1
    (t.onSectionItems (t.onStatement? (p.enter (.sect s)) s.header).2 s.body).1)
  have hback : ({ p with blockFollows := b }.enter (.sect s)).Back _ :=
    ⟨hrest.ancestors.trans hheader.ancestors, hrest.frames.trans hheader.frames,
      hrest.blockFollows, hrest.sectionFollows.trans hheader.sectionFollows,
      fun hq => hheader.broken (hrest.broken hq)⟩
  rw [onSection]
  exact ⟨b, hback.leave⟩

/-! ## Checked replacements -/

section
variable {t} {p : Progress}

/-- A statement without issues gives way to one without issues, of its type. -/
theorem placed_onStatement {s : Statement} (h : s.issues = []) :
    (t.onStatement p s).1.1.issues = [] ∧ (t.onStatement p s).1.1.type = s.type := by
  obtain ⟨-, heq | ⟨sc, new, -, -, htype, hissues, heq⟩⟩ := t.onStatement_spec p s
  · rw [heq]
    exact ⟨h, rfl⟩
  · rw [heq]
    exact ⟨hissues, htype⟩

/-- Leaving a body leaves it well placed. -/
theorem placed_onBody {header : Bool} {items : List (Marked BodyItem)}
    (h : bodyIssues (unmark items) = []) :
    bodyIssues (unmark (t.onBody p header items).1) = [] := by
  obtain ⟨-, heq | ⟨marked, new, -, -, hissues, heq⟩⟩ := t.onBody_spec p header items
  · rwa [heq]
  · rwa [heq]

mutual

/-- A well-placed item stays so. -/
theorem placed_onItem {p : Progress} :
    ∀ {item : BodyItem}, item.issues = [] → (t.onItem p item).1.1.issues = []
  | .statement s, h => by
    rw [BodyItem.issues, Statement.bodyIssues_eq_nil] at h
    obtain ⟨hissues, htype⟩ := placed_onStatement h.2
    rw [onItem]
    show BodyItem.issues (.statement _) = []
    rw [BodyItem.issues, Statement.bodyIssues_eq_nil, htype]
    exact ⟨h.1, hissues⟩
  | .control c, h => by
    rw [BodyItem.issues] at h
    rw [onItem]
    show BodyItem.issues (.control _) = []
    rw [BodyItem.issues]
    exact placed_onControl h

/-- The same for a control block. -/
theorem placed_onControl {p : Progress} :
    ∀ {c : ControlBlock}, c.issues = [] → (t.onControl p c).1.1.issues = []
  | ⟨type, span, header, body, branches, close, label⟩, h => by
    obtain ⟨hheader, hbody, hbranches, s, rfl, hclose⟩ := ControlBlock.issues_eq_nil.1 h
    rw [onControl]
    refine ControlBlock.issues_eq_nil.2 ⟨?_, placed_onBody (placed_onItems hbody),
      placed_onBranches hbranches, ?_⟩
    · exact Progress.settle_of (P := fun r : Statement => r.issues = []) _ hheader
        (placed_onStatement hheader).1
    · exact Progress.settle_of (P := fun c => ∃ r : Statement, c = some r ∧ r.issues = []) _
        ⟨s, rfl, hclose⟩ ⟨_, rfl, (placed_onStatement hclose).1⟩

/-- The same for the items of a body. -/
theorem placed_onItems {p : Progress} :
    ∀ {items : List BodyItem}, bodyIssues items = [] →
      bodyIssues (unmark (t.onItems p items).1) = []
  | [], h => by
    rw [onItems]
    exact h
  | item :: items, h => by
    rw [bodyIssues, List.append_eq_nil_iff] at h
    rw [onItems]
    show bodyIssues (_ :: _) = []
    rw [bodyIssues, List.append_eq_nil_iff]
    exact ⟨placed_onItem h.1, placed_onItems h.2⟩

/-- The same for the branches of a block. -/
theorem placed_onBranches {p : Progress} {type : ControlType} :
    ∀ {bs : List Branch}, branchesIssues type bs = [] →
      branchesIssues type (unmark (t.onBranches p bs).1) = []
  | [], h => by
    rw [onBranches]
    exact h
  | ⟨span, header, body, label⟩ :: bs, h => by
    obtain ⟨hheader, htype, hbody, hbs⟩ := branchesIssues_cons.1 h
    obtain ⟨hnew, hsame⟩ := placed_onStatement (t := t)
      (p := p.enter (.branch ⟨span, header, body, label⟩)) hheader
    rw [← hsame] at htype
    rw [onBranches, onBranch]
    refine branchesIssues_cons.2 ⟨?_, ?_, placed_onBody (placed_onItems hbody),
      placed_onBranches hbs⟩
    · exact Progress.settle_of (P := fun r : Statement => r.issues = []) _ hheader hnew
    · exact Progress.settle_of (P := fun r : Statement => type.takesBranch r.type = true) _
        (hsame ▸ htype) htype

end

/-- The same for a block. -/
theorem placed_onBlock {b : Block} (h : b.issues = []) : (t.onBlock p b).1.1.issues = [] := by
  rw [Block.issues, List.append_eq_nil_iff] at h
  rw [onBlock, Block.issues, List.append_eq_nil_iff]
  refine ⟨?_, placed_onBody (placed_onItems h.2)⟩
  exact Progress.settle_of (P := fun r : Statement => r.issues = []) _ h.1
    (placed_onStatement h.1).1

/-- The same for the items of a section. -/
theorem placed_onSectionItems {kind : SectionKind} {seen : Bool} {items : List SectionItem}
    (h : itemsIssues kind seen items = []) :
    itemsIssues kind seen (unmark (t.onSectionItems p items).1) = [] := by
  induction items generalizing p seen with
  | nil =>
    rw [onSectionItems]
    exact h
  | cons item items ih =>
    cases item with
    | statement s =>
      obtain ⟨hin, hseen, hissues, hrest⟩ := itemsIssues_statement.1 h
      obtain ⟨hnew, htype⟩ := placed_onStatement (t := t) (p := p) hissues
      rw [← htype] at hin
      rw [onSectionItems]
      exact itemsIssues_statement.2 ⟨hin, hseen, hnew, ih hrest⟩
    | block b =>
      obtain ⟨hin, hissues, hrest⟩ := itemsIssues_block.1 h
      rw [onSectionItems]
      exact itemsIssues_block.2 ⟨hin, placed_onBlock hissues, ih hrest⟩

/-- Leaving a section leaves it well placed. -/
theorem placed_onSectionBody {kind : SectionKind} {header : Option (Marked Statement)}
    {items : List (Marked SectionItem)} (h : itemsIssues kind false (unmark items) = []) :
    itemsIssues kind false (unmark (t.onSectionBody p kind header items).1) = [] := by
  obtain ⟨-, heq | ⟨marked, new, -, -, hissues, heq⟩⟩ := t.onSectionBody_spec p kind header items
  · rwa [heq]
  · rw [heq]
    rw [sectionIssues, List.append_eq_nil_iff] at hissues
    exact hissues.1

/-- The same for a section. -/
theorem placed_onSection {s : Section} (h : s.WellPlaced) : (t.onSection p s).1.WellPlaced := by
  rw [onSection]
  refine ⟨?_, placed_onSectionBody (placed_onSectionItems h.items)⟩
  refine Progress.settle_of (P := fun c => ∀ r ∈ c, Statement.issues r = []) _ h.header ?_
  intro r hr
  obtain ⟨-, hheader, -⟩ := t.onStatement?_spec (p.enter (.sect s)) s.header
  obtain ⟨old, hold, rfl⟩ := hheader r hr
  exact (placed_onStatement (h.header old hold)).1

/-- A section keeps or lacks its header. -/
theorem header_onSection (t : Transform) (p : Progress) (s : Section) :
    (t.onSection p s).1.header = none ↔ s.header = none := by
  obtain ⟨-, -, hnone⟩ := t.onStatement?_spec (p.enter (.sect s)) s.header
  rw [onSection]
  refine Progress.settle_of (P := fun c => c = none ↔ s.header = none) _ Iff.rfl ?_
  rw [Option.map_eq_none_iff]
  exact hnone

/-- The same for the sections of a file. -/
theorem placed_onSections {ss : List Section} (h : ∀ s ∈ ss, s.WellPlaced) :
    ∀ s ∈ (t.onSections p ss).1, s.WellPlaced := by
  induction ss generalizing p with
  | nil => simp [onSections]
  | cons s ss ih =>
    rw [List.forall_mem_cons] at h
    rw [onSections]
    exact List.forall_mem_cons.2 ⟨placed_onSection h.1, ih h.2⟩

/-- Sections keep their headers. -/
theorem headers_onSections {ss : List Section} (h : ∀ s ∈ ss, s.header ≠ none) :
    ∀ s ∈ (t.onSections p ss).1, s.header ≠ none := by
  induction ss generalizing p with
  | nil => simp [onSections]
  | cons s ss ih =>
    rw [List.forall_mem_cons] at h
    rw [onSections]
    exact List.forall_mem_cons.2 ⟨(not_congr (t.header_onSection _ s)).2 h.1, ih h.2⟩

end

/-- Sections but the first keep their headers. -/
theorem tail_onSections (t : Transform) (p : Progress) {ss : List Section}
    (h : ∀ s ∈ ss.tail, s.header ≠ none) : ∀ s ∈ (t.onSections p ss).1.tail, s.header ≠ none := by
  cases ss with
  | nil => simp [onSections]
  | cons s ss =>
    rw [onSections]
    exact headers_onSections h

/-- **A well-placed file stays well placed,** whatever a transform decides. -/
theorem wellPlaced_run {f : File} (h : f.WellPlaced) : (t.run f).tree.WellPlaced := by
  have hsections := placed_onSections (t := t) (p := ({} : Progress).enter (.file f)) h.sections
  have hheaders := t.tail_onSections (({} : Progress).enter (.file f)) h.headers
  rw [run]
  rcases t.onFileBody_spec (t.onSections (({} : Progress).enter (.file f)) f.sections).2
    (t.onSections (({} : Progress).enter (.file f)) f.sections).1 with
      heq | ⟨new, -, hissues, heq⟩
  · dsimp only
    rw [heq]
    exact ⟨hsections, hheaders⟩
  · dsimp only
    rw [heq]
    exact wellPlaced_of_issues (f := { f with sections := new }) hissues

/-! ## Sections that cannot be checked -/

/-- A section that is almost placed stays so. -/
theorem almostPlaced_onSection {p : Progress} {s : Section} (h : s.AlmostPlaced) :
    (t.onSection p s).1.AlmostPlaced := by
  rw [onSection]
  constructor
  · refine Progress.settle_of (P := fun c => ∀ r ∈ c, Statement.issues r = []) _ h.header ?_
    intro r hr
    obtain ⟨-, hheader, -⟩ := t.onStatement?_spec (p.enter (.sect s)) s.header
    obtain ⟨old, hold, rfl⟩ := hheader r hr
    exact (placed_onStatement (h.header old hold)).1
  · dsimp only
    obtain ⟨-, heq | ⟨marked, new, -, -, hissues, heq⟩⟩ := t.onSectionBody_spec
      (t.onSectionItems (t.onStatement? (p.enter (.sect s)) s.header).2 s.body).2 s.kind
      (t.onStatement? (p.enter (.sect s)) s.header).1
      (t.onSectionItems (t.onStatement? (p.enter (.sect s)) s.header).2 s.body).1
    · rw [heq]
      exact placed_onSectionItems h.items
    · rw [heq]
      rw [sectionIssues, List.append_eq_nil_iff] at hissues
      exact itemsIssues_listed hissues.1

/-- **Sections that are almost placed stay so,** whatever a transform decides. -/
theorem almostPlaced_run {f : File} (h : ∀ s ∈ f.sections, s.AlmostPlaced) :
    ∀ s ∈ (t.run f).tree.sections, s.AlmostPlaced := by
  have hsections {p : Progress} {ss : List Section} (h : ∀ s ∈ ss, s.AlmostPlaced) :
      ∀ s ∈ (t.onSections p ss).1, s.AlmostPlaced := by
    induction ss generalizing p with
    | nil => simp [onSections]
    | cons s ss ih =>
      rw [List.forall_mem_cons] at h
      rw [onSections]
      exact List.forall_mem_cons.2 ⟨t.almostPlaced_onSection h.1, ih h.2⟩
  rw [run]
  dsimp only
  rcases t.onFileBody_spec (t.onSections (({} : Progress).enter (.file f)) f.sections).2
    (t.onSections (({} : Progress).enter (.file f)) f.sections).1 with
      heq | ⟨new, -, hissues, heq⟩
  · rw [heq]
    exact hsections h
  · rw [heq]
    exact fun s hs =>
      ((wellPlaced_of_issues (f := { f with sections := new }) hissues).sections s hs).almost

end Transform

end RobotSuite
