/-
# Keyword calls in columns

The pass walks through a source without defects, refuses nothing and fails nowhere.  Whatever it
comes to, nothing but the calls of bodies changes (`Columns.run_goes`).  So behind the pass each
body stands in columns, all other statements are what they were, and when the pass runs again
nothing changes (`Columns.calls_settled`).
-/

import RobotSuite.Proofs.Format.Columns.Visits
import RobotSuite.Proofs.Format.Run
import RobotSuite.Proofs.Tree.SectionReading

namespace RobotSuite

/-- A walk that has come to a scope: it goes on, has refused nothing, and no statement at which it
was switched off has a label. -/
structure Progress.Stands (sc : Scope) (p : Progress) : Prop where
  scope : p.scope = sc
  off : p.off = []
  broken : p.broken = none
  refused : p.refused = []

section
variable {sc : Scope} {p : Progress}

/-- The walk and the scope go into a container together. -/
theorem Progress.Stands.enter (h : p.Stands sc) (c : Container) :
    (p.enter c).Stands (sc.enter c) :=
  ⟨congrArg (Scope.enter · c) h.scope, h.off, h.broken, h.refused⟩

/-- The walk and the scope leave a container together. -/
theorem Progress.Stands.leave (h : p.Stands sc) : p.leave.Stands sc.leave :=
  ⟨congrArg Scope.leave h.scope, h.off, h.broken, h.refused⟩

/-- A walk that has not broken off takes what is new. -/
theorem Progress.Stands.settle {α : Type} (h : p.Stands sc) (old new : α) :
    p.settle old new = new := by
  rw [Progress.settle, h.broken]
  rfl

end

namespace Columns

/-- The transform that aligns calls. -/
def aligning (limit : Nat) (separator : String) : Transform :=
  { name := info.name
    leaveBody := fun _ _ items => .ofOption (alignBody limit separator items) }

section
variable {kind : SectionKind} {limit : Nat} {separator : String} {sc : Scope} {p : Progress}

/-! ## Statements and bodies -/

/-- The walk leaves a statement as it is. -/
theorem onStatement_stands (limit : Nat) (separator : String) (hp : p.Stands sc) {s : Statement}
    (hl : s.label = none) : ∃ q, (aligning limit separator).onStatement p s =
      ((s, (sc.note s).disables info.name s), q) ∧ q.Stands (sc.note s) := by
  have hmet : ((aligning limit separator).met p s).Stands (sc.note s) := by
    rw [Transform.met]
    have hnext : Progress.Stands (sc.note s)
        { p with scope := p.scope.note s, index := p.index + 1 } :=
      ⟨congrArg (Scope.note · s) hp.scope, hp.off, hp.broken, hp.refused⟩
    split
    · rw [Progress.switchOff, hl]
      exact hnext
    · exact hnext
  refine ⟨_, ?_, hmet⟩
  rw [Transform.onStatement_eq, hp.broken, hp.scope]
  rfl

/-- Of a body that is left the calls are aligned. -/
theorem onBody_stands (limit : Nat) (hs : IsWide separator) (hp : p.Stands sc)
    {marked : List (Marked BodyItem)} (hi : bodyHolds (Statement.IsReady kind) (unmark marked))
    (header : Bool) : (aligning limit separator).onBody p header marked =
      ((alignBody limit separator marked).getD marked, p) := by
  have hready : bodyHolds (Statement.IsReady kind)
      (unmark ((alignBody limit separator marked).getD marked)) := ready_alignBody hs hi
  have hdecision : (aligning limit separator).leaveBody p.place header marked =
      .ofOption (alignBody limit separator marked) := rfl
  rw [Transform.onBody, hp.broken]
  dsimp only
  rw [Progress.remark_of_off_eq_nil hp.off, hdecision]
  cases halign : alignBody limit separator marked with
  | none => rfl
  | some new =>
    rw [halign, Option.getD_some] at hready
    have hissues : bodyIssues (unmark new) = [] :=
      bodyIssues_of_holds hready fun s hmem => (bodyHolds_statements hready s hmem).1.flaws
    rw [Decision.ofOption, Progress.carryOut, hissues]
    rfl

/-! ## Control blocks -/

mutual

/-- Through a control block the walk goes as through what comes out of it. -/
theorem onControl_goes (limit : Nat) (hs : IsWide separator) {sc : Scope} {p : Progress}
    (hp : p.Stands sc) :
    ∀ {c : ControlBlock}, c.Holds (Statement.IsReady kind) →
      ∃ new off q, (aligning limit separator).onControl p c = ((new, off), q) ∧ q.Stands sc ∧
        ControlGoes limit separator kind sc c new
  | ⟨type, span, header, body, branches, close, label⟩, h => by
    rw [ControlBlock.Holds] at h
    obtain ⟨hheader, hbody, hbranches, s, rfl, hclose⟩ := h
    let c : ControlBlock := ⟨type, span, header, body, branches, some s, label⟩
    obtain ⟨q1, h1, hq1⟩ := onStatement_stands limit separator (hp.enter (.control c))
      hheader.2.label
    rw [note_of_opener hheader.1] at h1 hq1
    obtain ⟨items, q2, h2, hq2, hitems⟩ := onItems_goes limit hs hq1 hbody
    obtain ⟨bs, q3, h3, hq3, hbs⟩ := onBranches_goes limit hs hq2 hbranches
    obtain ⟨q4, h4, hq4⟩ := onStatement_stands limit separator hq3 hclose.2.label
    generalize Scope.disables _ info.name s = off at h4
    have h5 := onBody_stands limit hs hq4 hitems.ready
    have hcontrol := (hitems.aligned hs).control hheader hclose hbody hbs
    have hleft : q4.leave.Stands sc := by
      have hq5 := hq4.leave
      have hscope : sc.behind c.steps = ((((sc.enter (.control c)).behind (bodySteps body)).behind
          (branchesSteps branches)).note s).leave := by
        rw [ControlBlock.steps]
        simp [Scope.after, note_of_opener hheader.1, c]
      rwa [← hscope, Scope.behind_control] at hq5
    refine ⟨_, off, q4.leave, ?_, hleft, hcontrol⟩
    rw [Transform.onControl]
    dsimp only
    rw [h1]
    dsimp only
    rw [h2]
    dsimp only
    rw [h3]
    dsimp only
    rw [Transform.onStatement?, h4]
    dsimp only
    rw [h5]
    dsimp only
    rw [hq4.settle, hq4.settle]
    rfl

/-- Through items the walk goes as through what comes out of them. -/
theorem onItems_goes (limit : Nat) (hs : IsWide separator) {sc : Scope} {p : Progress}
    (hp : p.Stands sc) :
    ∀ {items : List BodyItem}, bodyHolds (Statement.IsReady kind) items →
      ∃ marked q, (aligning limit separator).onItems p items = (marked, q) ∧
        q.Stands (sc.behind (bodySteps items)) ∧ Walked limit separator kind sc items marked
  | [], _ => by
    refine ⟨[], p, ?_, hp, ⟨.nil, .nil, trivial, fun _ => rfl⟩⟩
    rw [Transform.onItems]
  | .statement s :: items, h => by
    rw [bodyHolds, BodyItem.Holds] at h
    obtain ⟨q1, h1, hq1⟩ := onStatement_stands limit separator hp h.1.2.label
    obtain ⟨marked, q, h2, hq, hwalked⟩ := onItems_goes limit hs hq1 h.2
    refine ⟨_, q, ?_, hq, hwalked.statement h.1⟩
    rw [Transform.onItems, Transform.onItem, h1]
    dsimp only
    rw [h2]
  | .control c :: items, h => by
    rw [bodyHolds, BodyItem.Holds] at h
    obtain ⟨new, off, q1, h1, hq1, hcontrol⟩ := onControl_goes limit hs hp h.1
    obtain ⟨marked, q, h2, hq, hwalked⟩ := onItems_goes limit hs hq1 h.2
    refine ⟨(.control new, off) :: marked, q, ?_, ?_, hwalked.control hcontrol⟩
    · rw [Transform.onItems, Transform.onItem, h1]
      dsimp only
      rw [h2]
    · rwa [bodySteps, BodyItem.steps, Scope.behind_append, Scope.behind_control]

/-- Through branches the walk goes as through what comes out of them. -/
theorem onBranches_goes (limit : Nat) (hs : IsWide separator) {sc : Scope} {p : Progress}
    (hp : p.Stands sc) {type : ControlType} :
    ∀ {bs : List Branch}, branchesHold (Statement.IsReady kind) type bs →
      ∃ new q, (aligning limit separator).onBranches p bs = (new, q) ∧
        q.Stands (sc.behind (branchesSteps bs)) ∧
        BranchesGo limit separator kind type sc bs (unmark new)
  | [], _ => by
    refine ⟨[], p, ?_, hp, ?_, trivial, fun _ => rfl⟩
    · rw [Transform.onBranches]
    · exact .nil
  | ⟨span, header, body, label⟩ :: bs, h => by
    rw [branchesHold, Branch.Holds] at h
    obtain ⟨⟨hheader, hbody⟩, hrest⟩ := h
    let c : Container := .branch ⟨span, header, body, label⟩
    obtain ⟨q1, h1, hq1⟩ := onStatement_stands limit separator (hp.enter c) hheader.2.label
    rw [note_of_branch hheader.1] at h1 hq1
    generalize Scope.disables _ info.name header = off at h1
    obtain ⟨items, q2, h2, hq2, hitems⟩ := onItems_goes limit hs hq1 hbody
    have h3 := onBody_stands limit hs hq2 hitems.ready off
    have hscope : sc.behind (Branch.steps ⟨span, header, body, label⟩) =
        ((sc.enter c).behind (bodySteps body)).leave := by
      rw [Branch.steps]
      simp [Scope.after, note_of_branch hheader.1, c]
    have hq3 := hq2.leave
    rw [← hscope] at hq3
    obtain ⟨new, q, h4, hq, hbs⟩ := onBranches_goes limit hs hq3 hrest
    let items' := (alignBody limit separator items).getD items
    refine ⟨(⟨span, header, unmark items', label⟩, lastMark off items') :: new, q, ?_, ?_,
      (hitems.aligned hs).branch hheader hbody hbs⟩
    · rw [Transform.onBranches, Transform.onBranch]
      dsimp only
      rw [h1]
      dsimp only
      rw [h2]
      dsimp only
      rw [h3]
      dsimp only
      rw [h4, hq2.settle]
    · rwa [branchesSteps, Scope.behind_append]

end

/-! ## Sections -/

/-- Through a block the walk goes as through what comes out of it. -/
theorem onBlock_goes (limit : Nat) (hs : IsWide separator) (hp : p.Stands sc) {b : Block}
    (hb : (SectionItem.block b).Holds (Statement.IsReady kind) kind) :
    ∃ new off q, (aligning limit separator).onBlock p b = ((new, off), q) ∧ q.Stands sc ∧
      Leaves limit separator sc SectionItem.steps (·.Holds (Statement.IsReady kind) kind)
        (.block b) (.block new) := by
  obtain ⟨q1, h1, hq1⟩ := onStatement_stands limit separator (hp.enter (.block b)) hb.1.2.2.label
  rw [note_of_name hb.1.2.1] at h1 hq1
  generalize Scope.disables _ info.name b.header = off at h1
  obtain ⟨items, q2, h2, hq2, hitems⟩ := onItems_goes limit hs hq1 hb.2
  have h3 := onBody_stands limit hs hq2 hitems.ready off
  have hleft : q2.leave.Stands sc := by
    have hq3 := hq2.leave
    have hscope : sc.behind b.steps = ((sc.enter (.block b)).behind (bodySteps b.body)).leave := by
      rw [Block.steps]
      simp [Scope.after, note_of_name hb.1.2.1]
    rwa [← hscope, Scope.behind_block] at hq3
  let items' := (alignBody limit separator items).getD items
  refine ⟨{ b with body := unmark items' }, lastMark off items', q2.leave, ?_, hleft,
    (hitems.aligned hs).block hb⟩
  rw [Transform.onBlock]
  dsimp only
  rw [h1]
  dsimp only
  rw [h2]
  dsimp only
  rw [h3]
  dsimp only
  rw [hq2.settle]

/-- Of the items of a section the walk changes nothing but blocks. -/
theorem onSectionItems_goes (limit : Nat) (hs : IsWide separator) {items : List SectionItem}
    (hi : ∀ item ∈ items, item.Holds (Statement.IsReady kind) kind) {sc : Scope} {p : Progress}
    (hp : p.Stands sc) :
    ∃ new q, (aligning limit separator).onSectionItems p items = (new, q) ∧
      q.Stands (sc.behind (items.flatMap SectionItem.steps)) ∧
      SectionItemsGo limit separator kind sc items (unmark new) := by
  induction items generalizing sc p with
  | nil =>
    refine ⟨[], p, ?_, hp, .nil sc⟩
    rw [Transform.onSectionItems]
  | cons item items ih =>
    rw [List.forall_mem_cons] at hi
    cases item with
    | statement s =>
      obtain ⟨q1, h1, hq1⟩ := onStatement_stands limit separator hp hi.1.2.label
      generalize Scope.disables _ info.name s = off at h1
      obtain ⟨new, q, h2, hq, hgo⟩ := ih hi.2 hq1
      refine ⟨(.statement s, off) :: new, q, ?_, ?_, .cons ?_ hgo⟩
      · rw [Transform.onSectionItems, h1]
        dsimp only
        rw [h2]
      · exact hq
      · exact ⟨Goes.meet (.refl s), hi.1, fun _ => rfl⟩
    | block b =>
      have hfollows : Progress.Stands sc { p with blockFollows := items.any (·.isBlock) } :=
        ⟨hp.scope, hp.off, hp.broken, hp.refused⟩
      obtain ⟨b', off, q1, h1, hq1, hblock⟩ := onBlock_goes limit hs hfollows hi.1
      obtain ⟨new, q, h2, hq, hgo⟩ := ih hi.2 hq1
      have hscope : sc.behind (SectionItem.block b).steps = sc := Scope.behind_block sc b
      refine ⟨(.block b', off) :: new, q, ?_, ?_, .cons hblock ?_⟩
      · rw [Transform.onSectionItems, h1]
        dsimp only
        rw [h2]
      · rwa [List.flatMap_cons, Scope.behind_append, hscope]
      · rwa [hscope]

/-- The items of a section stay as they are. -/
theorem onSectionBody_stands (limit : Nat) (separator : String) (hp : p.Stands sc)
    (header : Option (Marked Statement)) (items : List (Marked SectionItem)) :
    (aligning limit separator).onSectionBody p kind header items = (items, p) := by
  rw [Transform.onSectionBody, hp.broken]
  dsimp only
  rw [Progress.remark_of_off_eq_nil hp.off]
  rfl

/-- Through a section the walk goes as through what comes out of it. -/
theorem onSection_goes (limit : Nat) (hs : IsWide separator) (hp : p.Stands sc) {s : Section}
    (h : s.Holds Statement.IsReady fun _ h => h.label = none) :
    ∃ new q, (aligning limit separator).onSection p s = (new, q) ∧ q.Stands (sc.behind s.steps) ∧
      Leaves limit separator sc Section.steps (·.Holds Statement.IsReady fun _ h => h.label = none)
        s new := by
  obtain ⟨header, q1, h1, hheader, hq1⟩ : ∃ header q,
      (aligning limit separator).onStatement? (p.enter (.sect s)) s.header = (header, q) ∧
        header.map (·.1) = s.header ∧
        q.Stands ((sc.enter (.sect s)).behind (s.header.toList.map .meet)) := by
    have hin := hp.enter (.sect s)
    have hlabel := h.header
    generalize sc.enter (.sect s) = sc' at hin ⊢
    generalize p.enter (.sect s) = p' at hin ⊢
    generalize s.header = header at hlabel
    cases header with
    | none => exact ⟨none, p', rfl, rfl, hin⟩
    | some r =>
      obtain ⟨q, hr, hq⟩ := onStatement_stands limit separator hin (hlabel r rfl)
      refine ⟨some (r, (sc'.note r).disables info.name r), q, ?_, rfl, hq⟩
      rw [Transform.onStatement?, hr]
  obtain ⟨items, q2, h2, hq2, hitems⟩ := onSectionItems_goes limit hs h.items hq1
  refine ⟨_, q2.leave, ?_, ?_, hitems.section h⟩
  · rw [Transform.onSection]
    dsimp only
    rw [h1]
    dsimp only
    rw [h2]
    dsimp only
    rw [onSectionBody_stands limit separator hq2, hq2.settle, hheader]
  · have hq3 := hq2.leave
    have hscope : sc.behind s.steps = (((sc.enter (.sect s)).behind
        (s.header.toList.map .meet)).behind (s.body.flatMap SectionItem.steps)).leave := by
      rw [Section.steps]
      simp [Scope.after]
    rwa [hscope]

/-- Through sections the walk goes as through what comes out of them. -/
theorem onSections_goes (limit : Nat) (hs : IsWide separator) {ss : List Section}
    (h : ∀ s ∈ ss, s.Holds Statement.IsReady fun _ h => h.label = none) {sc : Scope} {p : Progress}
    (hp : p.Stands sc) : ∃ new q, (aligning limit separator).onSections p ss = (new, q) ∧
      q.Stands (sc.behind (ss.flatMap Section.steps)) ∧ SectionsGo limit separator sc ss new := by
  induction ss generalizing sc p with
  | nil =>
    refine ⟨[], p, ?_, hp, .nil sc⟩
    rw [Transform.onSections]
  | cons s ss ih =>
    rw [List.forall_mem_cons] at h
    have hfollows : Progress.Stands sc { p with sectionFollows := !ss.isEmpty } :=
      ⟨hp.scope, hp.off, hp.broken, hp.refused⟩
    obtain ⟨s', q1, h1, hq1, hsection⟩ := onSection_goes limit hs hfollows h.1
    obtain ⟨new, q, h2, hq, hgo⟩ := ih h.2 hq1
    refine ⟨s' :: new, q, ?_, ?_, .cons hsection hgo⟩
    · rw [Transform.onSections, h1]
      dsimp only
      rw [h2]
    · rwa [List.flatMap_cons, Scope.behind_append]

/-- **What the pass leaves of a file.**  It refuses nothing and fails nowhere. -/
theorem run_goes (limit : Nat) (hs : IsWide separator) {f : File}
    (h : ∀ s ∈ f.sections, s.Holds Statement.IsReady fun _ h => h.label = none) :
    ∃ ss, (aligning limit separator).run f = ⟨{ f with sections := ss }, [], none⟩ ∧
      SectionsGo limit separator (({} : Scope).enter (.file f)) f.sections ss := by
  have hstart : ({} : Progress).Stands {} := ⟨rfl, rfl, rfl, rfl⟩
  obtain ⟨ss, q, hrun, hq, hgo⟩ := onSections_goes limit hs h (hstart.enter (.file f))
  refine ⟨ss, ?_, hgo⟩
  have hbody : (aligning limit separator).onFileBody q ss = (ss, q) := by
    rw [Transform.onFileBody, hq.broken]
    rfl
  rw [Transform.run, hrun]
  dsimp only
  rw [hbody, hq.refused, hq.broken]

/-- **A file whose calls have been aligned** is left as it is. -/
theorem run_again (limit : Nat) (hs : IsWide separator) {f : File} {ss : List Section}
    (h : SectionsGo limit separator (({} : Scope).enter (.file f)) f.sections ss) :
    (aligning limit separator).run { f with sections := ss } =
      ⟨{ f with sections := ss }, [], none⟩ := by
  obtain ⟨again, hrun, hagain⟩ := run_goes limit hs (f := { f with sections := ss }) h.ready
  rw [hrun, hagain.file.2 (h.file.1.rests hs ⟨rfl, rfl⟩)]

end

/-! ## Files -/

section
variable {limit : Nat} {separator : String} {source : String}

/-- The statements of a source without defects are ready. -/
theorem ready_parse (hp : (parse source).errors = []) (hi : (parse source).issues = []) :
    ∀ s ∈ (parse source).sections, s.Holds Statement.IsReady fun _ h => h.label = none := by
  intro s hs
  have hmem : ∀ r ∈ s.statements, r ∈ (parse source).statements := fun r hr =>
    List.mem_flatMap.2 ⟨s, hs, hr⟩
  refine ((sound_parse hp).sections s hs).imp (fun r hr hsound => ?_) fun r hr _ => ?_
  · exact ⟨hsound, flaws_of_mem_statements hi r (hmem r hr), label_parse source r (hmem r hr)⟩
  · exact label_parse source r (hmem r hr)

/-- The pass is one walk with the configured limit and separator. -/
theorem apply_eq (setup : PassSetup) (f : File) : pass.apply setup f =
    .ofTransformed ((aligning setup.config.lineLength setup.config.separator).run f) := rfl

/-- **Keyword calls are aligned in columns.**  A source has no defect, its model is valid, and the
formatter is configured by a document.  Then the pass goes through and refuses nothing, it changes
no statement but keyword calls and no header, each body stands in columns, and when the pass runs
again nothing changes. -/
theorem calls_settled {d : Document} {config : FormatConfig} (hp : (parse source).errors = [])
    (hi : (parse source).issues = []) (hc : FormatConfig.read d = .ok config) (params : Params) :
    let setup : PassSetup := ⟨config, params, (parse source).newline.text⟩
    let after := pass.apply setup (parse source)
    after.refused = [] ∧ after.fault = none ∧
      List.Forall₂ (fun s new => s.type ≠ .keywordCall → new = s)
        (parse source).statements after.tree.statements ∧
      List.Forall₂ (fun c new => new.type = c.1.type ∧ new.header? = c.1.header? ∧
          Settled config.lineLength config.separator (markedItems c.2 c.1.body) new.body)
        (parse source).entries after.tree.containers ∧
      pass.apply setup after.tree = { tree := after.tree } := by
  intro setup after
  have hv : setup.IsValid :=
    PassSetup.isValid_of_config (FormatConfig.isValid_of_read hc) params (parse source)
  obtain ⟨ss, hrun, hgo⟩ := run_goes config.lineLength hv.separator (ready_parse hp hi)
  have hafter : after = { tree := { parse source with sections := ss } } := by
    show pass.apply setup (parse source) = _
    rw [apply_eq, hrun]
    rfl
  have hgoes := hgo.file.1
  rw [hafter]
  refine ⟨rfl, rfl, ?_, ?_, ?_⟩
  · rw [← metStatements_file, ← metStatements_file]
    exact (kept_of_visited (hgoes.visits ⟨rfl, rfl⟩)).imp fun s new hkept => hkept.other
  · exact settled_of_visited hv.separator (hgoes.visits ⟨rfl, rfl⟩)
  · rw [apply_eq, run_again config.lineLength hv.separator hgo]
    rfl

end

set_option maxRecDepth 100000 in
/-- A call that is too long for columns as wide as all calls need, calls in a body inside, one where
the pass is switched off, and one with a line of its own for a comment. -/
theorem calls_settled_overflow :
    let source := "*** Test Cases ***\nT\n    Log    a    b\n    Set Variable    x    # one\n" ++
      "    ...    yy    z\n    Very Long Keyword Name Here    aaaaaaaaaaaa\n    IF    $x\n" ++
      "        Log    1\n        Should Be Equal    1    2\n    END\n    # fmt: off\n" ++
      "    Log    off    c\n    # fmt: on\n    Log    n\n    # between\n    ...    o\n"
    let config := { FormatConfig.default with lineLength := 45 }
    let setup : PassSetup := ⟨config, [], (parse source).newline.text⟩
    let after := pass.apply setup (parse source)
    (parse source).errors = [] ∧ (parse source).issues = [] ∧
      FormatConfig.read (.mapping [("lineLength", .number 45)]) = .ok config ∧
      after.tree.render =
        "*** Test Cases ***\nT\n    Log             a     b\n    Set Variable    x    # one\n" ++
        "    ...             yy    z\n    Very Long Keyword Name Here    aaaaaaaaaaaa\n" ++
        "    IF    $x\n        Log                1\n        Should Be Equal    1    2\n" ++
        "    END\n    # fmt: off\n    Log    off    c\n    # fmt: on\n    Log    n\n" ++
        "    # between\n    ...    o\n" ∧
      after.refused = [] ∧ after.fault = none ∧
      List.Forall₂ (fun s new => s.type ≠ .keywordCall → new = s)
        (parse source).statements after.tree.statements ∧
      List.Forall₂ (fun c new => new.type = c.1.type ∧ new.header? = c.1.header? ∧
          Settled config.lineLength config.separator (markedItems c.2 c.1.body) new.body)
        (parse source).entries after.tree.containers ∧
      pass.apply setup after.tree = { tree := after.tree } := by
  intro source config setup after
  obtain ⟨hp, hi, hrender⟩ : (parse source).errors = [] ∧ (parse source).issues = [] ∧
      after.tree.render =
        "*** Test Cases ***\nT\n    Log             a     b\n    Set Variable    x    # one\n" ++
        "    ...             yy    z\n    Very Long Keyword Name Here    aaaaaaaaaaaa\n" ++
        "    IF    $x\n        Log                1\n        Should Be Equal    1    2\n" ++
        "    END\n    # fmt: off\n    Log    off    c\n    # fmt: on\n    Log    n\n" ++
        "    # between\n    ...    o\n" := by
    have hsource : parse source = _ :=
      parse_of_toList (by simp only [source, String.toList_append]; rfl)
    simp only [after, setup, hsource]
    decide +kernel
  have hc : FormatConfig.read (.mapping [("lineLength", .number 45)]) = .ok config :=
    eq_ok_of_toOption (by decide +kernel)
  exact ⟨hp, hi, hc, hrender, calls_settled hp hi hc []⟩

end Columns
end RobotSuite
