/-
# Every defect leaves a trace

Defects are listed beside the tree, and are found in six places: at the header of a section, at
cells that cannot be read, at stray continuation markers, at settings with unknown names, in
front of the first block of a section, and in bodies.  Each of them shows in the tree that is
made, and what shows in the tree was listed.  A tree in which nothing shows is clean
(`File.IsClean`).  Whether it is can be seen from the steps of a walk (`File.isClean_iff`), so
that the lists of parts and the trees of parts are compared one layer at a time: statements
(`classify_eq_nil_iff`), bodies (`nest_eq_nil_iff`), blocks, sections
(`buildSection_eq_nil_iff`), and files (`parse_errors_eq_nil_iff`).
-/

import RobotSuite.Proofs.Transform.FrozenRegions
import RobotSuite.Proofs.Tree.SoundReading
import RobotSuite.Proofs.Walk.Scopes

namespace RobotSuite

/-! ## Clean trees -/

/-- A statement that has its place, and a known name if it is a setting. -/
structure Statement.IsClean (s : Statement) : Prop where
  placed : s.type ≠ .error
  suite : ∀ name ∈ s.suiteSetting?, name ∈ SettingName.suite
  block : ∀ name ∈ s.blockSetting?, name ∈ SettingName.block

/-- A section of a known kind, whose header holds no control characters. -/
structure Section.HasCleanHeader (s : Section) : Prop where
  known : s.kind ≠ .invalid
  header : ∀ h ∈ s.header, ∀ t ∈ h.tokens, t.kind ≠ .unknown

/-- A header is clean when it names a section and holds no unknown token. -/
theorem Section.hasCleanHeader_iff {s : Section} : s.HasCleanHeader ↔
    s.kind ≠ .invalid ∧ ∀ h ∈ s.header, ∀ t ∈ h.tokens, t.kind ≠ .unknown :=
  ⟨fun h => ⟨h.known, h.header⟩, fun h => ⟨h.1, h.2⟩⟩

/-- Whether a container is no control block without END. -/
def Container.IsClosed : Container → Prop
  | .control c => c.close ≠ none
  | _ => True

/-- A file in whose tree no defect shows. -/
structure File.IsClean (f : File) : Prop where
  statements : ∀ s ∈ f.statements, s.IsClean
  sections : ∀ s ∈ f.sections, s.HasCleanHeader
  containers : ∀ c ∈ f.containers, c.IsClosed

/-- Whether nothing shows at a step of a walk. -/
def Step.IsClean : Step → Prop
  | .enter c => c.IsClosed
  | .meet s => s.IsClean
  | .leave _ => True

/-- Whether nothing shows at any of some steps. -/
def cleanSteps (steps : List Step) : Prop := ∀ step ∈ steps, step.IsClean

section
variable {a b : List Step}

@[simp] theorem cleanSteps_nil : cleanSteps [] := List.forall_mem_nil _

/-- Two walks are clean when both are. -/
@[simp] theorem cleanSteps_append : cleanSteps (a ++ b) ↔ cleanSteps a ∧ cleanSteps b :=
  List.forall_mem_append

/-- Entering a container is clean when it is closed. -/
@[simp] theorem cleanSteps_enter {c : Container} :
    cleanSteps (.enter c :: a) ↔ c.IsClosed ∧ cleanSteps a :=
  List.forall_mem_cons

/-- Meeting a statement is clean when it is. -/
@[simp] theorem cleanSteps_meet {s : Statement} :
    cleanSteps (.meet s :: a) ↔ s.IsClean ∧ cleanSteps a :=
  List.forall_mem_cons

/-- Leaving a container is clean. -/
@[simp] theorem cleanSteps_leave {c : Container} : cleanSteps (.leave c :: a) ↔ cleanSteps a :=
  List.forall_mem_cons.trans (and_iff_right trivial)

/-- Meeting statements is clean when each is. -/
@[simp] theorem cleanSteps_map_meet {ss : List Statement} :
    cleanSteps (ss.map .meet) ↔ ∀ s ∈ ss, s.IsClean :=
  List.forall_mem_map

/-- A walk over parts is clean when each part is. -/
theorem cleanSteps_flatMap {α : Type} {f : α → List Step} {xs : List α} :
    cleanSteps (xs.flatMap f) ↔ ∀ x ∈ xs, cleanSteps (f x) := by
  induction xs with
  | nil => simp
  | cons x xs ih => rw [List.flatMap_cons, cleanSteps_append, ih, List.forall_mem_cons]

/-- Steps are clean if the statements and the containers that they come to are. -/
theorem cleanSteps_iff : cleanSteps a ↔
    (∀ s ∈ metStatements a, s.IsClean) ∧ ∀ c ∈ enteredContainers a, c.IsClosed := by
  induction a with
  | nil => simp [enteredContainers]
  | cons step a ih =>
    cases step with
    | enter c =>
      have hcons : enteredContainers (.enter c :: a) = c :: enteredContainers a := rfl
      rw [cleanSteps_enter, ih, metStatements_enter, hcons, List.forall_mem_cons]
      exact and_left_comm
    | meet s =>
      rw [cleanSteps_meet, ih, metStatements_meet, List.forall_mem_cons, and_assoc]
      rfl
    | leave c =>
      rw [cleanSteps_leave, ih, metStatements_leave]
      rfl

end

/-- **Whether a file is clean shows at the steps of a walk through its sections.** -/
theorem File.isClean_iff {f : File} :
    f.IsClean ↔ ∀ s ∈ f.sections, s.HasCleanHeader ∧ cleanSteps s.steps := by
  have hsteps : cleanSteps f.steps ↔ ∀ s ∈ f.sections, cleanSteps s.steps := by
    rw [File.steps, cleanSteps_enter, cleanSteps_append, cleanSteps_flatMap, cleanSteps_leave]
    simp [Container.IsClosed]
  have hwalk := cleanSteps_iff (a := f.steps)
  rw [metStatements_file] at hwalk
  constructor
  · intro h s hs
    exact ⟨h.sections s hs, hsteps.1 (hwalk.2 ⟨h.statements, h.containers⟩) s hs⟩
  · intro h
    obtain ⟨hstatements, hcontainers⟩ := hwalk.1 (hsteps.2 fun s hs => (h s hs).2)
    exact ⟨hstatements, fun s hs => (h s hs).1, hcontainers⟩

/-! ## Statements -/

/-- A setting is known when its name is one of the listed ones. -/
theorem Statement.hasKnownSetting_iff {s : Statement} : s.hasKnownSetting = true ↔
    (∀ name ∈ s.suiteSetting?, name ∈ SettingName.suite) ∧
      ∀ name ∈ s.blockSetting?, name ∈ SettingName.block := by
  rw [hasKnownSetting, Bool.and_eq_true]
  simp [Option.all_eq_true]

/-- A statement that is no setting has no name of a setting that could be unknown. -/
theorem Statement.isClean_of_type {s : Statement} (he : s.type ≠ .error) (hs : s.type ≠ .setting)
    (hb : s.type ≠ .blockSetting) : s.IsClean :=
  ⟨he, by simp [suiteSetting?, hs], by simp [blockSetting?, hb]⟩

/-- **A statement is read without a defect exactly if it is clean.** -/
theorem classify_eq_nil_iff (kind : SectionKind) (ts : List Token) :
    (classify kind ts).2 = [] ↔ (classify kind ts).1.IsClean := by
  have hmisplaced (d : Defect) : ¬(Statement.ofDefect d ts).IsClean := fun h => h.placed rfl
  have hplain (type : StatementType)
      (h : type ≠ .error ∧ type ≠ .setting ∧ type ≠ .blockSetting) :
      (Statement.create type ts).IsClean := Statement.isClean_of_type h.1 h.2.1 h.2.2
  unfold classify
  split
  · simp [hmisplaced]
  · dsimp only
    split
    · simp [misplaced, hmisplaced]
    · split
      · split
        · exact iff_of_true rfl (hplain .emptyLine (by decide))
        · exact iff_of_true rfl (hplain .comment (by decide))
      · split
        · simp [misplaced, hmisplaced]
        have hne := (dataType_ne kind (dataTokens ts)).2.2
        rw [checkSetting]
        split
        · rename_i hk
          obtain ⟨hsuite, hblock⟩ := Statement.hasKnownSetting_iff.1 hk
          exact iff_of_true rfl ⟨hne, hsuite, hblock⟩
        · rename_i hk
          simp only [List.cons_ne_nil, false_iff]
          exact fun h => hk (Statement.hasKnownSetting_iff.2 ⟨h.suite, h.block⟩)

/-- Nothing is reported of groups exactly when each statement is clean. -/
theorem classifyAll_eq_nil_iff (kind : SectionKind) (groups : List (List Token)) :
    (groups.map (classify kind)).flatMap (·.2) = [] ↔
      ∀ s ∈ (groups.map (classify kind)).map (·.1), s.IsClean := by
  rw [List.flatMap_map, List.flatMap_eq_nil_iff, List.map_map, List.forall_mem_map]
  exact forall₂_congr fun g _ => classify_eq_nil_iff kind g

/-! ## Bodies -/

/-- A body is clean when its statements are and its containers are closed. -/
theorem cleanSteps_body {items : List BodyItem} :
    cleanSteps (bodySteps items) ↔ (∀ s ∈ bodyStatements items, s.IsClean) ∧
      ∀ c ∈ enteredContainers (bodySteps items), c.IsClosed := by
  rw [cleanSteps_iff, metStatements_body]

/-- Branches of closed bodies are closed. -/
theorem closed_trees {parts : List BranchPart}
    (h : ∀ p ∈ parts, ∀ c ∈ enteredContainers (bodySteps p.items), c.IsClosed) :
    ∀ c ∈ enteredContainers (branchesSteps (BranchPart.trees parts)), c.IsClosed := by
  induction parts with
  | nil => exact List.forall_mem_nil _
  | cons p parts ih =>
    rw [List.forall_mem_cons] at h
    rw [BranchPart.trees, List.map_cons, closeBranch, enteredContainers_branches,
      List.forall_mem_cons, List.forall_mem_append]
    exact ⟨trivial, h.1, ih h.2⟩

/-- All blocks of a derivation are closed. -/
theorem Derives.closed {ss : List Statement} {items : List BodyItem} (h : Derives ss items) :
    ∀ c ∈ enteredContainers (bodySteps items), c.IsClosed := by
  induction h with
  | nil => simp [bodySteps, enteredContainers]
  | plain _ _ ih => exact ih
  | @block type header close body rest items more parts _ _ _ _ _ _ ihb ihp ihr =>
    have hbranches := closed_trees ihp
    rw [bodySteps, BodyItem.steps, closedBlock, enteredContainers_append,
      enteredContainers_control, List.cons_append, List.forall_mem_cons, List.forall_mem_append,
      List.forall_mem_append]
    exact ⟨Option.some_ne_none close, ⟨ihb, hbranches⟩, ihr⟩

/-- If a block is left open, one without END stands in the body. -/
theorem Nesting.exists_unclosed (root : List BodyItem) (errors : List ParseError)
    {stack : List OpenBlock} (h : stack ≠ []) :
    ∃ c, .control c ∈ (closeAll root errors stack).1 ∧ c.close = none := by
  fun_induction closeAll root errors stack with
  | case1 => exact absurd rfl h
  | case2 => exact ⟨_, List.mem_append_right _ List.mem_cons_self, rfl⟩
  | case3 errors b outer rest ih => exact ih (List.cons_ne_nil _ _)

/-- Statements that are kept as they were are not turned away. -/
theorem rejections_eq_nil {opened ss : List Statement} (h : ∀ s ∈ kept opened ss, s.type ≠ .error) :
    rejections opened ss = [] ∧ kept opened ss = ss := by
  induction ss generalizing opened with
  | nil => exact ⟨rfl, rfl⟩
  | cons s ss ih =>
    rw [kept, List.forall_mem_cons] at h
    obtain ⟨hr, hk⟩ := ih h.2
    have hm : misfit? opened s = none := by
      cases hm : misfit? opened s with
      | none => rfl
      | some d =>
        refine absurd ?_ h.1
        rw [keep, hm]
        show (asError s d).type = .error
        unfold asError
        split <;> rfl
    rw [rejections, rejection, kept, keep, hm, hr, hk]
    exact ⟨rfl, rfl⟩

/-- Where nothing is rejected every statement is kept. -/
theorem kept_of_rejections {opened ss : List Statement} (h : rejections opened ss = []) :
    kept opened ss = ss := by
  induction ss generalizing opened with
  | nil => rfl
  | cons s ss ih =>
    rw [rejections, List.append_eq_nil_iff] at h
    have hm : misfit? opened s = none := by
      cases hm : misfit? opened s with
      | none => rfl
      | some d => simp [rejection, hm] at h
    rw [kept, keep, hm, ih h.2]
    rfl

/-- **Clean statements nest without a defect exactly if their tree is clean.** -/
theorem nest_eq_nil_iff (ss : List Statement) :
    (∀ s ∈ ss, s.IsClean) ∧ (nest ss).2 = [] ↔ cleanSteps (bodySteps (nest ss).1) := by
  rw [cleanSteps_body, bodyStatements_nest]
  constructor
  · rintro ⟨hs, he⟩
    have hclosed := (derives_of_errors_eq_nil he).closed
    rw [errors_nest, List.append_eq_nil_iff] at he
    rw [kept_of_rejections he.1]
    exact ⟨hs, hclosed⟩
  · rintro ⟨hs, hc⟩
    obtain ⟨hr, hk⟩ := rejections_eq_nil fun s h => (hs s h).placed
    rw [hk] at hs
    refine ⟨hs, ?_⟩
    rw [errors_nest, hr, List.nil_append, List.map_eq_nil_iff]
    obtain ⟨ht, -, -⟩ := Nesting.foldl_step_spec ss Nesting.tracks_start
    rw [openAfter, ← ht.headers, List.map_eq_nil_iff]
    by_contra hopen
    obtain ⟨c, hmem, hclose⟩ := Nesting.exists_unclosed _ _ hopen
    refine hc (.control c) ?_ hclose
    rw [enteredContainers_body]
    refine List.mem_flatMap.2 ⟨c, List.mem_filterMap.2 ⟨_, hmem, rfl⟩, ?_⟩
    obtain ⟨type, span, header, body, branches, close, label⟩ := c
    rw [enteredContainers_control]
    exact List.mem_cons_self

/-! ## Blocks -/

/-- A statement in front of all blocks is clean where it stands exactly if it was clean and may
stand there. -/
theorem leadingItem_eq_nil_iff (owner : BlockType) (s : Statement) :
    s.IsClean ∧ (leadingItem owner s).2 = [] ↔ cleanSteps (leadingItem owner s).1.steps := by
  unfold leadingItem
  split
  · simp [SectionItem.steps]
  · rw [misplaced, SectionItem.steps, cleanSteps_meet]
    exact iff_of_false (fun h => List.cons_ne_nil _ _ h.2) fun h => h.1.placed rfl

/-- Nothing is reported of a block exactly when it is clean. -/
theorem blockPart_eq_nil_iff (owner : BlockType) (p : Option Statement × List Statement) :
    (∀ s ∈ p.1.toList ++ p.2, s.IsClean) ∧ (blockPart owner p).2 = [] ↔
      cleanSteps ((blockPart owner p).1.flatMap SectionItem.steps) := by
  obtain ⟨header, ss⟩ := p
  cases header with
  | none =>
    simp only [blockPart, Option.toList_none, List.nil_append, List.flatMap_map,
      List.flatMap_eq_nil_iff, List.map_map, cleanSteps_flatMap, Function.comp_apply,
      ← leadingItem_eq_nil_iff]
    exact forall₂_and.symm
  | some header =>
    simp only [blockPart, buildBlock, Option.toList_some, List.singleton_append,
      List.flatMap_singleton, SectionItem.steps, Block.steps, cleanSteps_enter, cleanSteps_meet,
      cleanSteps_append, cleanSteps_leave, cleanSteps_nil, List.forall_mem_cons,
      ← nest_eq_nil_iff]
    simp [Container.IsClosed, and_assoc]

/-- **Clean statements of a section are put into blocks without a defect exactly if the items
are clean.** -/
theorem buildBlocks_eq_nil_iff (owner : BlockType) (ss : List Statement) :
    (∀ s ∈ ss, s.IsClean) ∧ (buildBlocks owner ss).2 = [] ↔
      cleanSteps ((buildBlocks owner ss).1.flatMap SectionItem.steps) := by
  have hstatements : (∀ s ∈ ss, s.IsClean) ↔
      ∀ p ∈ splitParts isBlockName ss, ∀ s ∈ p.1.toList ++ p.2, s.IsClean := by
    conv_lhs => rw [← flatMap_splitParts isBlockName ss]
    simp only [List.mem_flatMap]
    exact ⟨fun h p hp s hs => h s ⟨p, hp, hs⟩, fun h s ⟨p, hp, hs⟩ => h p hp s hs⟩
  rw [hstatements, buildBlocks]
  dsimp only
  rw [List.flatMap_map, List.flatMap_eq_nil_iff, List.flatMap_map, List.flatMap_assoc,
    cleanSteps_flatMap, ← forall₂_and]
  exact forall₂_congr fun p _ => blockPart_eq_nil_iff owner p

/-- Nothing is reported of a section's items exactly when they are clean. -/
theorem buildItems_eq_nil_iff (kind : SectionKind) (groups : List (List Token)) :
    (buildItems kind groups).2 = [] ↔
      cleanSteps ((buildItems kind groups).1.flatMap SectionItem.steps) := by
  rw [buildItems]
  cases kind.blockType? with
  | none =>
    simp only [classifyAll_eq_nil_iff, cleanSteps_flatMap, List.forall_mem_map, SectionItem.steps,
      cleanSteps_meet, cleanSteps_nil, and_true]
  | some owner =>
    rw [← buildBlocks_eq_nil_iff, ← classifyAll_eq_nil_iff]
    exact List.append_eq_nil_iff

/-! ## Marked comments -/

/-- A mark does not decide whether a statement is clean. -/
theorem Statement.isClean_markOwned {s : Statement} {owned : Bool} :
    (s.markOwned owned).IsClean ↔ s.IsClean := by
  unfold markOwned
  split
  · exact ⟨fun ⟨h, hs, hb⟩ => ⟨h, hs, hb⟩, fun ⟨h, hs, hb⟩ => ⟨h, hs, hb⟩⟩
  · rfl

mutual

/-- Marks do not decide whether a block is clean. -/
theorem ControlBlock.cleanSteps_markOwned : ∀ c : ControlBlock,
    cleanSteps c.markOwned.steps ↔ cleanSteps c.steps
  | ⟨type, _, header, body, branches, close, _⟩ => by
    simp only [ControlBlock.markOwned, ControlBlock.steps, cleanSteps_enter, cleanSteps_meet,
      cleanSteps_append, cleanSteps_leave, cleanSteps_body_markOwned body,
      cleanSteps_branches_markOwned branches]
    rfl

/-- The same for a body. -/
theorem cleanSteps_body_markOwned : ∀ items : List BodyItem,
    cleanSteps (bodySteps (markOwnedBody items)) ↔ cleanSteps (bodySteps items)
  | [] => by rw [markOwnedBody]
  | .statement s :: rest => by
    rw [markOwnedBody, bodySteps, bodySteps, cleanSteps_append, cleanSteps_append,
      cleanSteps_body_markOwned rest, BodyItem.steps, BodyItem.steps, cleanSteps_meet,
      cleanSteps_meet, Statement.isClean_markOwned]
  | .control c :: rest => by
    rw [markOwnedBody, bodySteps, bodySteps, cleanSteps_append, cleanSteps_append,
      cleanSteps_body_markOwned rest, BodyItem.steps, BodyItem.steps, c.cleanSteps_markOwned]

/-- The same for the branches of a block. -/
theorem cleanSteps_branches_markOwned : ∀ bs : List Branch,
    cleanSteps (branchesSteps (markOwnedBranches bs)) ↔ cleanSteps (branchesSteps bs)
  | [] => by rw [markOwnedBranches]
  | ⟨_, header, body, _⟩ :: rest => by
    simp only [markOwnedBranches, branchesSteps, Branch.steps, cleanSteps_enter, cleanSteps_meet,
      cleanSteps_append, cleanSteps_leave, cleanSteps_body_markOwned body,
      cleanSteps_branches_markOwned rest]
    rfl

end

/-- Marking comments neither leaves nor removes a trace. -/
theorem cleanSteps_markOwnedItems (items : List SectionItem) :
    cleanSteps ((markOwnedItems items).flatMap SectionItem.steps) ↔
      cleanSteps (items.flatMap SectionItem.steps) := by
  induction items with
  | nil => rfl
  | cons item items ih =>
    cases item with
    | statement s =>
      rw [markOwnedItems, List.flatMap_cons, List.flatMap_cons, cleanSteps_append,
        cleanSteps_append, ih, SectionItem.steps, SectionItem.steps, cleanSteps_meet,
        cleanSteps_meet, Statement.isClean_markOwned]
    | block b =>
      simp only [markOwnedItems, List.flatMap_cons, cleanSteps_append, ih, SectionItem.steps,
        Block.steps, cleanSteps_enter, cleanSteps_meet, cleanSteps_leave,
        cleanSteps_body_markOwned]
      rfl

/-! ## Sections and files -/

/-- A header is read without a defect exactly if it opens a section of a known kind and holds no
control characters. -/
theorem readHeader_eq_nil_iff (h : Statement) :
    (readHeader h).2 = [] ↔
      (readHeader h).1 ≠ .invalid ∧ ∀ t ∈ h.tokens, t.kind ≠ .unknown := by
  have hunknown : (h.tokens.filter fun t => t.kind == .unknown) = [] ↔
      ∀ t ∈ h.tokens, t.kind ≠ .unknown := by
    simp [List.filter_eq_nil_iff]
  rw [readHeader]
  cases hk : SectionKind.ofHeader? h.nameText with
  | none => simp
  | some kind =>
    have hne : kind ≠ .invalid := fun he => ofHeader?_ne_invalid h.nameText (he ▸ hk)
    simp only [List.map_eq_nil_iff, hunknown]
    exact (and_iff_right hne).symm

/-- A section is clean when its header and its items are. -/
theorem cleanSteps_section {s : Section} :
    cleanSteps s.steps ↔ (∀ h ∈ s.header, h.IsClean) ∧
      cleanSteps (s.body.flatMap SectionItem.steps) := by
  rw [Section.steps, cleanSteps_enter, cleanSteps_append, cleanSteps_append, cleanSteps_map_meet,
    cleanSteps_leave]
  simp [Container.IsClosed]

/-- **A section is read without a defect exactly if no defect shows in it.** -/
theorem buildSection_eq_nil_iff (p : Option (List Token) × List (List Token)) :
    (buildSection p.1 p.2).2 = [] ↔
      (markedSection p).HasCleanHeader ∧ cleanSteps (markedSection p).steps := by
  obtain ⟨header, groups⟩ := p
  rw [cleanSteps_section, Section.hasCleanHeader_iff]
  simp only [markedSection, cleanSteps_markOwnedItems]
  cases header with
  | none =>
    simp [buildSection, buildItems_eq_nil_iff]
  | some h =>
    have htype : (Statement.create .sectionHeader h).type = .sectionHeader := rfl
    have hheader : (Statement.create .sectionHeader h).IsClean :=
      Statement.isClean_of_type (by simp [htype]) (by simp [htype]) (by simp [htype])
    simp only [buildSection, List.append_eq_nil_iff, buildItems_eq_nil_iff, Option.map_some,
      Option.getD_some, readHeader_eq_nil_iff, Option.mem_some_iff, forall_eq', hheader, true_and]

/-- Control characters are a defect wherever they stand. -/
theorem known_of_parseTokens {lines : List (List Token)} (h : (parseTokens lines).errors = []) :
    ∀ line ∈ lines, ∀ t ∈ line, t.kind ≠ .unknown := by
  rw [parseTokens_errors, List.flatMap_eq_nil_iff] at h
  intro line hline
  rw [← flatten_groupLines lines] at hline
  obtain ⟨g, hg, hmem⟩ := List.mem_flatten.1 hline
  have hgroup : g.flatten ∈ (groupLines lines).map List.flatten := List.mem_map_of_mem hg
  rw [← flatMap_splitParts isHeaderLine ((groupLines lines).map List.flatten)] at hgroup
  obtain ⟨p, hp, hpart⟩ := List.mem_flatMap.1 hgroup
  have hknown := known_of_buildSection (fun h hh => ((splitParts_spec p hp).1 h hh).1) (h p hp)
  exact fun t ht => (hknown _ hpart).1 t (List.mem_flatten.2 ⟨line, hmem, ht⟩)

/-- **The list of defects is empty exactly if no defect shows in the tree,** where reading gives one.
A file without defects has no control characters in any of its lines.  There is neither a list nor a
tree exactly if a section with an inherited name holds a statement with data. -/
theorem parse_errors_eq_nil_iff (lines : List (List Token)) :
    (∀ f, parseTokens? lines = .ok f → (f.errors = [] ↔ f.IsClean) ∧
      (f.errors = [] → ∀ line ∈ lines, ∀ t ∈ line, t.kind ≠ .unknown)) ∧
    ((∃ failure, parseTokens? lines = .error failure) ↔ ∃ p ∈ sectionParts lines, IsUntyped p) := by
  constructor
  · intro f hread
    obtain rfl := parseTokens?_eq_ok hread
    refine ⟨?_, known_of_parseTokens⟩
    rw [parseTokens_errors, File.isClean_iff, parseTokens_sections, List.flatMap_eq_nil_iff,
      List.forall_mem_map]
    exact forall₂_congr fun p _ => buildSection_eq_nil_iff p
  · rcases parseTokens?_cases lines with ⟨hnone, hok⟩ | ⟨hsome, herror⟩
    · exact iff_of_false (fun ⟨_, h⟩ => by cases hok.symm.trans h) fun ⟨p, hp, h⟩ => hnone p hp h
    · exact iff_of_true ⟨_, herror⟩ hsome

/-- Of a statement with data in a section that is named `__proto__` there is no list of defects. -/
theorem parseTokens_no_errors : let lines := tokenize "*** __proto__ ***\nfoo\n"
    ∀ f, parseTokens? lines ≠ .ok f := by
  intro lines f h
  have hfails : (parseTokens lines).isUnreadable = true := by decide +kernel
  rw [parseTokens?] at h
  cases (if_pos hfails).symm.trans h

end RobotSuite
