/-
# Files with configured distances

The statements of a section stand in front of its blocks, so the empty lines among them are squeezed
and none is left at the start.  A section without blocks loses those at the end too and gets as many
as are configured, unless it is the last or nothing but empty lines stands in the file so far
(`spacedLead`).  That tells how much room there is in front of each statement of a file
(`fileRooms`), and a walk leaves the file with it (`onSections_calm`, `run_calm`), unless it breaks
off because there would be too many lines.
-/

import RobotSuite.Proofs.Format.EmptyLines.Blocks
import RobotSuite.Proofs.Format.OrderSettings.Pass

namespace RobotSuite
namespace EmptyLines

/-! ## Statements in front of blocks -/

/-- The statements in front of the blocks of a section.  If there are no blocks, `count` empty lines
stand behind them. -/
def spacedLead (newline : String) (count : Nat) (last : Bool) (lead : List Statement) :
    List Statement :=
  if last then
    squeeze Statement.isEmptyLine false (inner Statement.isEmptyLine lead) ++
      List.replicate count (.emptyLine newline)
  else squeeze Statement.isEmptyLine false (lead.dropWhile Statement.isEmptyLine)

section
variable {α β : Type} {isEmpty : α → Bool}

/-- Nothing is left of what is all empty lines. -/
theorem isEmpty_inner (xs : List α) : (inner isEmpty xs).isEmpty = xs.all isEmpty := by
  rw [inner, isEmpty_dropEndWhile]
  conv_rhs => rw [← xs.takeWhile_append_dropWhile (p := isEmpty), List.all_append,
    List.all_takeWhile, Bool.true_and]

end

section
variable {newline : String} {count : Nat} {last : Bool} {lead : List Statement}

/-- A statement is empty as the line that it is. -/
theorem isPart_statement (s : Statement) : IsPart Statement.isEmptyLine (fun s => [s]) s :=
  ⟨fun h => ⟨s, rfl, h⟩, fun h => compact_singleton h⟩

/-- Statements hold nothing if they are all empty lines. -/
theorem isEmpty_contents (ss : List Statement) :
    (contents ss).isEmpty = ss.all Statement.isEmptyLine := by
  induction ss with
  | nil => rfl
  | cons s ss ih =>
    rw [List.all_cons]
    cases hs : s.isEmptyLine with
    | true => rw [contents_line hs, ih, Bool.true_and]
    | false => rw [contents_statement hs, List.isEmpty_cons, Bool.false_and]

/-- Among the statements of a section that is spaced stand those that were there, and empty lines.
-/
theorem mem_spacedLead {s : Statement} (h : s ∈ spacedLead newline count last lead) :
    s ∈ lead ∨ s = .emptyLine newline := by
  rw [spacedLead] at h
  split at h
  · rcases List.mem_append.1 h with h | h
    · exact .inl ((sublist_inner _ _).subset ((sublist_squeeze _ _).subset h))
    · exact .inr (List.eq_of_mem_replicate h)
  · exact .inl ((List.dropWhile_sublist _).subset ((sublist_squeeze _ _).subset h))

/-- Squeezing empty lines leaves what statements hold. -/
theorem contents_squeezed (ss : List Statement) :
    contents (squeeze Statement.isEmptyLine false ss) = contents ss := by
  have h := contents_squeeze (fun s (_ : s ∈ ss) => isPart_statement s) false
  rwa [List.flatMap_singleton', List.flatMap_singleton'] at h

/-- Stripping empty lines leaves what statements hold. -/
theorem contents_stripped (ss : List Statement) :
    contents (ss.dropWhile Statement.isEmptyLine) = contents ss ∧
      contents (inner Statement.isEmptyLine ss) = contents ss := by
  have hstart := (contents_trimmed (fun s (_ : s ∈ ss) => isPart_statement s)).1
  have hend := (contents_trimmed
    (fun s (_ : s ∈ ss.dropWhile Statement.isEmptyLine) => isPart_statement s)).2
  rw [List.flatMap_singleton', List.flatMap_singleton'] at hstart hend
  exact ⟨hstart, hend.trans hstart⟩

/-- The statements of a section hold what they held. -/
theorem contents_spacedLead : contents (spacedLead newline count last lead) = contents lead := by
  rw [spacedLead]
  split
  · rw [contents_append, contents_lines, List.append_nil, contents_squeezed,
      (contents_stripped lead).2]
  · rw [contents_squeezed, (contents_stripped lead).1]

/-- **Statements that are spaced are so again.** -/
theorem spacedLead_spacedLead :
    spacedLead newline count last (spacedLead newline count last lead) =
      spacedLead newline count last lead := by
  cases last with
  | true =>
    have htrim : IsTrim Statement.isEmptyLine
        (squeeze Statement.isEmptyLine false (inner Statement.isEmptyLine lead)) := by
      have h := @isTrim_opening Statement Statement.isEmptyLine (fun _ => false) false lead
      rwa [opening, isCut, Bool.false_and, if_neg Bool.false_ne_true, inner,
        (endWhile_of_last (Text.getLast?_dropEndWhile _ _)).2, ← inner] at h
    have hlines : ∀ s ∈ List.replicate count (Statement.emptyLine newline),
        s.isEmptyLine = true := fun s hs => by
      rw [List.eq_of_mem_replicate hs]
      rfl
    rw [spacedLead, if_pos rfl, spacedLead, if_pos rfl, htrim.inner_append hlines, htrim.squeezed]
  | false =>
    have hhead : ∀ s ∈ (squeeze Statement.isEmptyLine false
        (lead.dropWhile Statement.isEmptyLine)).head?, s.isEmptyLine = false := by
      intro s hs
      have hhead := List.head?_dropWhile_not Statement.isEmptyLine lead
      rw [head?_squeeze_false] at hs
      rwa [hs] at hhead
    rw [spacedLead, if_neg Bool.false_ne_true, spacedLead, if_neg Bool.false_ne_true,
      dropWhile_of_head hhead, squeeze_squeeze]

/-- What is seen of statements that are spaced depends on what is seen of the statements alone. -/
theorem spacedLead_congr {w : Statement → Statement} (hw : ∀ s, (w s).type = s.type)
    {a b : List Statement} (h : a.map w = b.map w) :
    (spacedLead newline count last a).map w = (spacedLead newline count last b).map w := by
  have hempty : Statement.isEmptyLine ∘ w = Statement.isEmptyLine :=
    funext fun s => congrArg (fun t => decide (t = StatementType.emptyLine)) (hw s)
  have hseen (lead : List Statement) : (spacedLead newline count last lead).map w =
      if last then squeeze Statement.isEmptyLine false (inner Statement.isEmptyLine (lead.map w)) ++
        List.replicate count (w (.emptyLine newline))
      else squeeze Statement.isEmptyLine false ((lead.map w).dropWhile Statement.isEmptyLine) := by
    rw [spacedLead]
    split
    · rw [List.map_append, List.map_replicate, inner_map, squeeze_map, hempty]
    · rw [List.dropWhile_map, squeeze_map, hempty]
  rw [hseen, hseen, h]

/-- Statements without blocks behind them. -/
theorem fitted_spacedLead_last :
    Fitted 0 (rooms (.exactly 0) (.atMost 1) lead) (spacedLead newline count true lead) count := by
  have hfit := fitted_headed (fun s (_ : s ∈ inner Statement.isEmptyLine lead) =>
    isPart_statement s) head?_inner
  have hend : endsInEmpty Statement.isEmptyLine false (inner Statement.isEmptyLine lead) = false :=
    endsInEmpty_eq_false (Text.getLast?_dropEndWhile _ _)
  rw [hend, List.flatMap_singleton', rooms_congr (congrArg List.length
    ((contents_squeezed _).trans (contents_stripped lead).2))] at hfit
  have hlines := fitted_lines 0 count (s := Statement.emptyLine newline) rfl
  rw [Nat.zero_add] at hlines
  have hall := hfit.append hlines
  rwa [List.append_nil] at hall

/-- Statements with blocks behind them. -/
theorem fitted_spacedLead_front :
    ∃ k, (if (contents lead).isEmpty then Room.exactly 0 else .atMost 1).Admits k ∧
      Fitted 0 (rooms (.exactly 0) (.atMost 1) lead) (spacedLead newline count false lead) k := by
  have hhead : ∀ s ∈ (lead.dropWhile Statement.isEmptyLine).head?, s.isEmptyLine = false := by
    intro s hs
    have hhead := List.head?_dropWhile_not Statement.isEmptyLine lead
    rwa [hs] at hhead
  have hfit := fitted_headed (fun s (_ : s ∈ lead.dropWhile Statement.isEmptyLine) =>
    isPart_statement s) hhead
  rw [List.flatMap_singleton', rooms_congr (congrArg List.length ((contents_squeezed _).trans
    (contents_stripped lead).1))] at hfit
  refine ⟨_, ?_, hfit⟩
  split
  · rename_i hempty
    rw [isEmpty_contents] at hempty
    rw [List.dropWhile_eq_nil_iff.2 (List.all_eq_true.1 hempty)]
    exact rfl
  · exact Bool.toNat_le _

end

/-! ## The items of a section -/

/-- The items of a section: statements, and blocks behind them. -/
def itemsOf (lead : List Statement) (blocks : List Block) : List SectionItem :=
  lead.map .statement ++ blocks.map .block

/-- The empty lines behind a section without blocks: none if no section follows, or if nothing but
empty lines stands in the file so far. -/
def linesAtEnd (spacing : Spacing) (follows isEmpty : Bool) : Nat :=
  if !follows || isEmpty then 0 else spacing.sections

section
variable {lead : List Statement} {blocks : List Block}

/-- The statements of a section are those in front of its blocks and those of the blocks. -/
theorem itemsStatements_itemsOf (lead : List Statement) (blocks : List Block) :
    itemsStatements (itemsOf lead blocks) = lead ++ itemsStatements (blocks.map .block) := by
  rw [itemsStatements, itemsOf, List.flatMap_append]
  exact congrArg (· ++ _) (itemsStatements_map_statement lead)

/-- Statements and blocks are told apart. -/
theorem cut_items (lead : List Statement) (blocks : List Block) :
    (unprotected (itemsOf lead blocks)).takeWhile (fun i => !i.1.isBlock) =
        unprotected (lead.map .statement) ∧
      (unprotected (itemsOf lead blocks)).filter (·.1.isBlock) =
        unprotected (blocks.map .block) ∧
      (unprotected (itemsOf lead blocks)).any (·.1.isBlock) = !blocks.isEmpty := by
  induction lead with
  | nil =>
    rw [itemsOf, List.map_nil, List.nil_append]
    refine ⟨?_, ?_, ?_⟩
    · cases blocks <;> rfl
    · rw [List.filter_eq_self, unprotected, List.map_map, List.forall_mem_map]
      exact fun b _ => rfl
    · cases blocks <;> rfl
  | cons s lead ih =>
    obtain ⟨hfront, hblocks, hany⟩ := ih
    exact ⟨congrArg ((SectionItem.statement s, false) :: ·) hfront, hblocks, hany⟩

/-- The items of a section and the empty lines behind it. -/
theorem spaceSection_unprotected (spacing : Spacing) (place : Place) {header : Option Bool}
    (hheader : header.getD false = false) (lead : List Statement) (blocks : List Block) :
    spaceSection spacing place header (unprotected (itemsOf lead blocks)) =
      if blocks.isEmpty then
        withPadding .statement (itemsOf lead blocks).length
          (unprotected ((squeeze Statement.isEmptyLine false
            (inner Statement.isEmptyLine lead)).map .statement))
          (unprotected []) (padding spacing.newline (linesAtEnd spacing place.sectionFollows
            ((contents lead).isEmpty && header.isNone)))
      else keepSome (itemsOf lead blocks).length
        (unprotected (itemsOf (squeeze Statement.isEmptyLine false
          (lead.dropWhile Statement.isEmptyLine)) blocks)) := by
  obtain ⟨hfront, hblocks, hany⟩ := cut_items lead blocks
  have htidy : tidy isEmptySectionItem (unprotected (lead.map SectionItem.statement)) =
      unprotected ((squeeze Statement.isEmptyLine false
        (lead.dropWhile Statement.isEmptyLine)).map .statement) := by
    rw [tidy_unprotected, List.dropWhile_map, squeeze_map]
    rfl
  have hinner : stripEnd isEmptySectionItem (unprotected ((squeeze Statement.isEmptyLine false
      (lead.dropWhile Statement.isEmptyLine)).map .statement)) =
        unprotected ((squeeze Statement.isEmptyLine false
          (inner Statement.isEmptyLine lead)).map .statement) := by
    have hlines : isEmptySectionItem ∘ SectionItem.statement = Statement.isEmptyLine := rfl
    rw [stripEnd_unprotected, dropEndWhile_map, hlines, dropEndWhile_squeeze]
    rfl
  have hempty : (unprotected ((squeeze Statement.isEmptyLine false
      (inner Statement.isEmptyLine lead)).map SectionItem.statement)).isEmpty =
        (contents lead).isEmpty := by
    rw [unprotected, List.isEmpty_map, List.isEmpty_map, isEmpty_squeeze, isEmpty_inner,
      isEmpty_contents]
  rw [spaceSection]
  dsimp only
  rw [hfront, hblocks, hany, length_unprotected, htidy, hheader, lastMark_unprotected, hinner,
    hempty]
  cases blocks with
  | nil =>
    rfl
  | cons b blocks =>
    rw [itemsOf, unprotected, unprotected, ← List.map_append]
    rfl

/-- Nothing is wrong with statements and blocks that all end with line breaks. -/
theorem issues_itemsOf {kind : SectionKind} (hkind : kind.isInherited = false)
    (hlead : ∀ s ∈ lead, s.type.inSection kind = true ∧ s.flaws = [])
    (hblocks : ∀ item ∈ blocks.map SectionItem.block, item.Holds (fun s => s.flaws = []) kind)
    (hend : ∀ s ∈ itemsStatements (itemsOf lead blocks), s.isUnterminated = false) :
    sectionIssues kind (itemsOf lead blocks) = [] := by
  have hitems : ∀ item ∈ itemsOf lead blocks, item.Holds (fun s => s.flaws = []) kind :=
    List.forall_mem_append.2 ⟨List.forall_mem_map.2 hlead, hblocks⟩
  rw [sectionIssues, List.append_eq_nil_iff, breakIssues_eq_nil]
  refine ⟨itemsIssues_of_holds (by rw [isUncheckable, hkind]; rfl) hitems fun s hs => ?_,
    separated_of_forall hend⟩
  obtain ⟨item, hitem, hs⟩ := List.mem_flatMap.1 hs
  exact (hitems item hitem).statements s hs

end

/-! ## Rooms of sections -/

/-- How much room there is in front of the statements of a section; `front` tells whether something
stands in front of it. -/
def sectionRooms (spacing : Spacing) (front : Bool) (s : Section) : List Room :=
  let lead := s.body.filterMap SectionItem.statement?
  s.header.toList.map (fun _ => .exactly (if front then spacing.sections else 0)) ++
    (rooms (.exactly 0) (.atMost 1) lead ++
      blocksRooms spacing (if (contents lead).isEmpty then .exactly 0 else .atMost 1)
        (s.body.filterMap SectionItem.block?))

/-- How much room there is in front of the statements of sections. -/
def sectionsRooms (spacing : Spacing) (front : Bool) : List Section → List Room
  | [] => []
  | s :: ss => sectionRooms spacing front s ++
      sectionsRooms spacing (front || !(contents s.statements).isEmpty) ss

/-- The empty lines behind a section. -/
def sectionEnd (spacing : Spacing) (follows front : Bool) (s : Section) : Nat :=
  if follows && (front || !(contents s.statements).isEmpty) then spacing.sections else 0

/-! ## Sections with their distances -/

/-- The statements in front of the blocks of a section. -/
def leadOf (s : Section) : List Statement := s.body.filterMap SectionItem.statement?

/-- The blocks of a section. -/
def blocksOf (s : Section) : List Block := s.body.filterMap SectionItem.block?

/-- The empty lines behind a section if it has no blocks. -/
def endLines (spacing : Spacing) (follows : Bool) (s : Section) : Nat :=
  linesAtEnd spacing follows ((contents (leadOf s)).isEmpty && s.header.isNone)

/-- Whether the empty lines of a section are not too many; `follows` tells whether another section
stands behind it. -/
def sectionFits (spacing : Spacing) (follows : Bool) (s : Section) : Prop :=
  (blocksOf s = [] → endLines spacing follows s ≤ maxItems) ∧
    blocksFit spacing (if follows then spacing.sections else 0) (blocksOf s)

/-- Whether a section, as it is seen, has the distances that are configured. -/
def sectionSpaced (spacing : Spacing) (w : Statement → Statement) (follows : Bool) (s : Section) :
    Prop :=
  (spacedLead spacing.newline (endLines spacing follows s) (blocksOf s).isEmpty (leadOf s)).map w =
      (leadOf s).map w ∧
    blocksSpaced spacing w (if follows then spacing.sections else 0) (blocksOf s)

/-- Whether the empty lines of sections are not too many. -/
def sectionsFit (spacing : Spacing) : List Section → Prop
  | [] => True
  | s :: ss => sectionFits spacing (!ss.isEmpty) s ∧ sectionsFit spacing ss

/-- Whether sections, as they are seen, have the distances that are configured. -/
def sectionsSpaced (spacing : Spacing) (v : View) : List Section → Prop
  | [] => True
  | s :: ss => sectionSpaced spacing (v s.kind) (!ss.isEmpty) s ∧ sectionsSpaced spacing v ss

section
variable {newline : String} {size n : Nat} {lead : List Statement} {blocks : List Block}

/-- Statements hold nothing behind it if they held nothing. -/
theorem isEmpty_contents_finished (newline : String) (size n : Nat) (ss : List Statement) :
    (contents (finished newline size n ss)).isEmpty = (contents ss).isEmpty := by
  have hlength := length_contents_finished newline size n ss
  rw [Bool.eq_iff_iff, List.isEmpty_iff, List.isEmpty_iff, ← List.length_eq_zero_iff, hlength,
    List.length_eq_zero_iff]

/-- What holds of each statement, ended or not, holds of all that are finished. -/
theorem forall_finished {P : Statement → Prop} {ss : List Statement}
    (hP : ∀ n, ∀ s ∈ ss, P (ended newline size n s)) (n : Nat) :
    ∀ s ∈ finished newline size n ss, P s := by
  induction ss generalizing n with
  | nil => exact List.forall_mem_nil _
  | cons s ss ih =>
    exact List.forall_mem_cons.2 ⟨hP n s List.mem_cons_self,
      ih (fun n r hr => hP n r (List.mem_cons_of_mem _ hr)) (n + 1)⟩

/-- The items of a section are its statements and its blocks. -/
theorem filterMap_itemsOf (lead : List Statement) (blocks : List Block) :
    (itemsOf lead blocks).filterMap SectionItem.statement? = lead ∧
      (itemsOf lead blocks).filterMap SectionItem.block? = blocks := by
  simp [itemsOf, List.filterMap_map, Function.comp_def, SectionItem.statement?,
    SectionItem.block?]

end

/-! ## Sections that are left -/

/-- A section behind `n` statements as a walk leaves it. -/
def leftSection (newline : String) (size n count : Nat) (s : Section) (lead : List Statement)
    (blocks : List Block) : Section :=
  { s with
    header := s.header.map (ended newline size n)
    body := itemsOf (spacedLead newline count blocks.isEmpty
      (finished newline size (n + s.header.toList.length) lead)) blocks }

section
variable {spacing : Spacing} {size n count lines : Nat} {s : Section} {lead : List Statement}
  {blocks new : List Block}

/-- The statements of a section that is left. -/
theorem statements_leftSection (newline : String) (size n count : Nat) (s : Section)
    (lead : List Statement) (blocks : List Block) :
    (leftSection newline size n count s lead blocks).statements =
      finished newline size n s.header.toList ++ (spacedLead newline count blocks.isEmpty
          (finished newline size (n + s.header.toList.length) lead) ++
        itemsStatements (blocks.map .block)) := by
  rw [Section.statements, leftSection, itemsStatements_itemsOf]
  cases s.header <;> rfl

/-- A section that is left is spaced as its blocks are. -/
theorem respaced_leftSection (hbody : s.body = itemsOf lead blocks)
    (hnew : SpacedBlocks spacing s.kind size (n + (s.header.toList ++ lead).length) lines blocks
      new) :
    Respaced spacing.newline (finished spacing.newline size n s.statements)
      (leftSection spacing.newline size n count s lead new).statements := by
  have hheader : Thinned (finished spacing.newline size n s.header.toList) _ := .refl _
  have hblocks := hnew.respaced
  rw [List.length_append, ← Nat.add_assoc] at hblocks
  rw [statements_leftSection, Section.statements, hbody, itemsStatements_itemsOf, finished_append,
    finished_append]
  exact (respaced_of_thinned hheader).append
    (.append ⟨contents_spacedLead, fun _ => mem_spacedLead⟩ hblocks)

/-- Whether a section holds nothing but empty lines. -/
theorem isEmpty_contents_section (hheader : ∀ h ∈ s.header, h.isEmptyLine = false)
    (hnames : ∀ b ∈ blocks, b.header.isEmptyLine = false) (hbody : s.body = itemsOf lead blocks) :
    (contents s.statements).isEmpty =
      (s.header.isNone && ((contents lead).isEmpty && blocks.isEmpty)) := by
  have hnone : s.header.toList.all Statement.isEmptyLine = s.header.isNone := by
    cases hh : s.header with
    | none => rfl
    | some h => simp [hheader h hh]
  have hblocks : (itemsStatements (blocks.map .block)).all Statement.isEmptyLine =
      blocks.isEmpty := by
    cases blocks with
    | nil => rfl
    | cons b blocks =>
      have hname := hnames b List.mem_cons_self
      have hfirst : itemsStatements ((b :: blocks).map .block) =
          b.header :: (bodyStatements b.body ++ itemsStatements (blocks.map .block)) := rfl
      rw [hfirst, List.all_cons, hname, Bool.false_and]
      rfl
  rw [isEmpty_contents, isEmpty_contents, Section.statements, hbody, itemsStatements_itemsOf,
    List.all_append, List.all_append, hnone, hblocks]

/-- **A section leaves as much room as is told.** -/
theorem fitted_leftSection (hheader : ∀ h ∈ s.header, h.isEmptyLine = false)
    (hnames : ∀ b ∈ blocks, b.header.isEmptyLine = false)
    (hbody : s.body = itemsOf lead blocks) (follows front : Bool)
    (hfront : s.header = none → front = false)
    (hnew : SpacedBlocks spacing s.kind size (n + (s.header.toList ++ lead).length)
      (if follows then spacing.sections else 0) blocks new) :
    Fitted (if front then spacing.sections else 0) (sectionRooms spacing front s)
      (leftSection spacing.newline size n (linesAtEnd spacing follows
        ((contents lead).isEmpty && s.header.isNone)) s lead new).statements
      (sectionEnd spacing follows front s) := by
  obtain ⟨hlead, hblocks⟩ := filterMap_itemsOf lead blocks
  have hempty := isEmpty_contents_section hheader hnames hbody
  rw [statements_leftSection, sectionRooms, hbody, hlead, hblocks, hnew.isEmpty]
  have hstart : Fitted (if front then spacing.sections else 0)
      (s.header.toList.map fun _ => Room.exactly (if front then spacing.sections else 0))
      (finished spacing.newline size n s.header.toList) 0 := by
    cases hh : s.header with
    | none =>
      rw [hfront hh]
      exact .nil 0
    | some h => exact .statement (by simpa using hheader h hh) rfl (.nil 0)
  refine hstart.append ?_
  have hcount := length_contents_finished spacing.newline size (n + s.header.toList.length) lead
  cases blocks with
  | nil =>
    obtain rfl : new = [] := List.isEmpty_iff.1 hnew.isEmpty
    have hlines : linesAtEnd spacing follows ((contents lead).isEmpty && s.header.isNone) =
        sectionEnd spacing follows front s := by
      rw [linesAtEnd, sectionEnd, hempty]
      cases hh : s.header with
      | none =>
        rw [hfront hh]
        cases follows <;> cases (contents lead).isEmpty <;> rfl
      | some h => cases follows <;> simp
    have hfit := @fitted_spacedLead_last spacing.newline (sectionEnd spacing follows front s)
      (finished spacing.newline size (n + s.header.toList.length) lead)
    rw [rooms_congr hcount] at hfit
    rw [hlines]
    exact hfit.append (.nil _)
  | cons b blocks =>
    have hlines : sectionEnd spacing follows front s = if follows then spacing.sections else 0 := by
      rw [sectionEnd, hempty]
      simp
    obtain ⟨k, hk, hfit⟩ := @fitted_spacedLead_front spacing.newline (linesAtEnd spacing follows
      ((contents lead).isEmpty && s.header.isNone))
      (finished spacing.newline size (n + s.header.toList.length) lead)
    rw [rooms_congr hcount] at hfit
    rw [isEmpty_contents_finished] at hk
    rw [hlines]
    exact hfit.append (hnew.fitted (List.cons_ne_nil b blocks) k _ hk)

/-- A section behind `n` statements, and what a walk has made of it: a section with as much room as is
told.  A section that is seen so is seen as it was. -/
structure SpacedSection (spacing : Spacing) (size n : Nat) (follows : Bool) (old new : Section) :
    Prop where
  respaced : Respaced spacing.newline (finished spacing.newline size n old.statements) new.statements
  fitted : ∀ front, (old.header = none → front = false) →
    Fitted (if front then spacing.sections else 0) (sectionRooms spacing front old) new.statements
      (sectionEnd spacing follows front old)
  kind : new.kind = old.kind
  lead : ∃ count m, leadOf new = spacedLead spacing.newline count (blocksOf new).isEmpty
    (finished spacing.newline size m (leadOf old))
  fits : sectionFits spacing follows new
  spaced : (∀ type, 1 ≤ spacing.between type) → sectionSpaced spacing id follows new
  rests : ∀ {v : View}, (∀ kind s, (v kind s).type = s.type) →
    sectionSpaced spacing (v old.kind) follows old →
    finished spacing.newline size n old.statements = old.statements → new.view v = old.view v

/-- Sections behind `n` statements, and what a walk has made of them: sections with as much room as is
told, and no empty line at the end.  Sections that are seen so are seen as they were. -/
structure SpacedSections (spacing : Spacing) (size n : Nat) (front : Bool) (old new : List Section) :
    Prop where
  isEmpty : new.isEmpty = old.isEmpty
  respaced : Respaced spacing.newline
    (finished spacing.newline size n (old.flatMap Section.statements))
    (new.flatMap Section.statements)
  fitted : Fitted (if front && !old.isEmpty then spacing.sections else 0)
    (sectionsRooms spacing front old) (new.flatMap Section.statements) 0
  leads : ∀ r ∈ new, ∃ s ∈ old, r.kind = s.kind ∧ ∃ count m, leadOf r =
    spacedLead spacing.newline count (blocksOf r).isEmpty (finished spacing.newline size m (leadOf s))
  fits : sectionsFit spacing new
  spaced : (∀ type, 1 ≤ spacing.between type) → sectionsSpaced spacing (fun _ => id) new
  rests : ∀ {v : View}, (∀ kind s, (v kind s).type = s.type) → sectionsSpaced spacing v old →
    finished spacing.newline size n (old.flatMap Section.statements) =
      old.flatMap Section.statements → new.map (Section.view v) = old.map (Section.view v)

/-- What is seen of statements and blocks. -/
theorem view_itemsOf (w : Statement → Statement) (lead : List Statement) (blocks : List Block) :
    (itemsOf lead blocks).map (SectionItem.view w) =
      itemsOf (lead.map w) (blocks.map (Block.view w)) := by
  rw [itemsOf, itemsOf, List.map_append, List.map_map, List.map_map, List.map_map, List.map_map]
  rfl

/-- **A section that is left** has its distances. -/
theorem spaced_leftSection {follows : Bool} (hheader : ∀ h ∈ s.header, h.isEmptyLine = false)
    (hnames : ∀ b ∈ blocks, b.header.isEmptyLine = false) (hbody : s.body = itemsOf lead blocks)
    (hcount : count = linesAtEnd spacing follows ((contents lead).isEmpty && s.header.isNone))
    (hfits : new = [] → count ≤ maxItems)
    (hnew : SpacedBlocks spacing s.kind size (n + (s.header.toList ++ lead).length)
      (if follows then spacing.sections else 0) blocks new) :
    SpacedSection spacing size n follows s
      (leftSection spacing.newline size n count s lead new) := by
  obtain ⟨hlead, hblocks⟩ : leadOf s = lead ∧ blocksOf s = blocks := by
    rw [leadOf, blocksOf, hbody]
    exact filterMap_itemsOf lead blocks
  obtain ⟨hleadLeft, hblocksLeft⟩ :
      leadOf (leftSection spacing.newline size n count s lead new) =
          spacedLead spacing.newline count new.isEmpty
            (finished spacing.newline size (n + s.header.toList.length) lead) ∧
        blocksOf (leftSection spacing.newline size n count s lead new) = new :=
    filterMap_itemsOf _ new
  have hlines : endLines spacing follows (leftSection spacing.newline size n count s lead new) =
      count := by
    have hnone : (leftSection spacing.newline size n count s lead new).header.isNone =
        s.header.isNone := Option.isNone_map
    rw [endLines, hleadLeft, contents_spacedLead, isEmpty_contents_finished, hnone, hcount]
  refine ⟨respaced_leftSection hbody hnew, fun front hfront => ?_, rfl,
    ⟨count, n + s.header.toList.length, ?_⟩, ?_, fun hbetween => ?_, fun {v} hv hseen hend => ?_⟩
  · rw [hcount]
    exact fitted_leftSection hheader hnames hbody follows front hfront hnew
  · rw [hleadLeft, hblocksLeft, hlead]
  · rw [sectionFits, hblocksLeft, hlines]
    exact ⟨hfits, hnew.fits⟩
  · rw [sectionSpaced, hblocksLeft, hlines, hleadLeft, spacedLead_spacedLead]
    exact ⟨rfl, hnew.spaced hbetween⟩
  · rw [sectionSpaced, hlead, hblocks, endLines, hlead, ← hcount] at hseen
    rw [Section.statements, hbody, itemsStatements_itemsOf] at hend
    obtain ⟨hendHeader, hend⟩ := finished_append_eq_self hend
    obtain ⟨hendLead, hendBlocks⟩ := finished_append_eq_self hend
    rw [List.length_append, ← Nat.add_assoc] at hnew
    have hheaderSeen : (s.header.map (ended spacing.newline size n)).map (v s.kind) =
        s.header.map (v s.kind) := by
      cases hh : s.header with
      | none => rfl
      | some h =>
        rw [hh] at hendHeader
        exact congrArg (fun r => some (v s.kind r)) (List.cons.inj hendHeader).1
    have hbodySeen : (itemsOf (spacedLead spacing.newline count new.isEmpty
        (finished spacing.newline size (n + s.header.toList.length) lead)) new).map
          (SectionItem.view (v s.kind)) = s.body.map (SectionItem.view (v s.kind)) := by
      rw [hbody, view_itemsOf, view_itemsOf, hendLead, hnew.rests (hv s.kind) hseen.2 hendBlocks,
        hnew.isEmpty, hseen.1]
    exact congrArg₂ (Section.mk s.kind .synthetic · · none) hheaderSeen hbodySeen

end

/-! ## Walks through sections -/

/-- A walk that goes on behind sections has gone on in front of them. -/
theorem broken_of_onSections {t : Transform} {p : Progress} {ss : List Section}
    (h : (t.onSections p ss).2.broken = none) : p.broken = none := by
  induction ss generalizing p with
  | nil => exact h
  | cons s ss ih =>
    rw [Transform.onSections] at h
    obtain ⟨_, hback⟩ := t.back_onSection { p with sectionFollows := !ss.isEmpty } s
    exact hback.broken (ih h)

section
variable (spacing : Spacing) {final : Option (Nat × Statement)} {size : Nat}

/-- The items of a section that is left. -/
theorem onSectionBody_calm (final : Option (Nat × Statement)) {p : Progress} (hp : p.IsCalm)
    {kind : SectionKind} (hkind : kind.isInherited = false) {header : Option (Marked Statement)}
    (hheader : (header.map (·.2)).getD false = false) {lead : List Statement}
    {blocks : List Block}
    {count : Nat}
    (hcount : count = linesAtEnd spacing p.sectionFollows ((contents lead).isEmpty && header.isNone))
    (hi : sectionIssues kind (itemsOf (spacedLead spacing.newline count blocks.isEmpty lead) blocks) =
      [])
    (hok : ((transform spacing final).onSectionBody p kind header
      (unprotected (itemsOf lead blocks))).2.broken = none ∨ (blocks = [] → count ≤ maxItems)) :
    (blocks = [] → count ≤ maxItems) ∧
      (transform spacing final).onSectionBody p kind header (unprotected (itemsOf lead blocks)) =
        (unprotected (itemsOf (spacedLead spacing.newline count blocks.isEmpty lead) blocks), p) := by
  have hleave : (transform spacing final).leaveSection p.place header
      (unprotected (itemsOf lead blocks)) = _ :=
    spaceSection_unprotected spacing p.place hheader lead blocks
  have hplace : p.place.sectionFollows = p.sectionFollows := rfl
  rw [Option.isNone_map, hplace, ← hcount] at hleave
  rw [Transform.onSectionBody, hp.broken] at hok ⊢
  dsimp only at hok ⊢
  have hguard (new : List (Marked SectionItem)) : isUncheckable kind (unmark new) = false := by
    rw [isUncheckable, hkind, Bool.false_and]
  rw [Progress.remark_of_off_eq_nil hp.off, hleave, Decision.guarded_of_false hguard] at hok ⊢
  rw [← unmark_unprotected (itemsOf (spacedLead _ _ _ _) _)] at hi
  cases blocks with
  | nil =>
    let front := (squeeze Statement.isEmptyLine false (inner Statement.isEmptyLine lead)).map
      SectionItem.statement
    have hfront : (front ++ []).Sublist (itemsOf lead []) := by
      rw [itemsOf, List.map_nil, List.append_nil, List.append_nil]
      exact ((sublist_squeeze _ _).trans (sublist_inner _ _)).map _
    have hitems (count : Nat) : itemsOf (spacedLead spacing.newline count true lead) [] =
        front ++ List.replicate count (.statement (.emptyLine spacing.newline)) ++ [] := by
      rw [itemsOf, spacedLead, if_pos rfl, List.map_append, List.map_replicate]
      rfl
    rw [List.isEmpty_nil, if_pos rfl] at hok
    rw [List.isEmpty_nil, hitems] at hi ⊢
    rw [if_pos rfl]
    obtain ⟨hfits, hresult⟩ := carryOut_withPadding hfront hi (hok.imp_right (· rfl))
    exact ⟨fun _ => hfits, hresult⟩
  | cons b blocks =>
    have hfront : (itemsOf (squeeze Statement.isEmptyLine false
        (lead.dropWhile Statement.isEmptyLine)) (b :: blocks)).Sublist
          (itemsOf lead (b :: blocks)) :=
      (((sublist_squeeze _ _).trans (List.dropWhile_sublist _)).map _).append (.refl _)
    rw [List.isEmpty_cons, spacedLead, if_neg Bool.false_ne_true] at hi ⊢
    rw [if_neg Bool.false_ne_true, ← length_unprotected]
    exact ⟨fun h => absurd h (List.cons_ne_nil b blocks), carryOut_keepSome (hfront.map _) hi⟩

variable (hfinal : ∀ n s, isFinal final n s = decide (n + 1 = size))
include hfinal

/-- A calm walk comes past the statements in front of the blocks. -/
theorem onLead_calm {p : Progress} (hp : p.IsCalm) {lead : List Statement}
    (hlead : ∀ s ∈ lead, s.IsCalm) (items : List SectionItem) :
    (transform spacing final).onSectionItems p (lead.map .statement ++ items) =
      (unprotected ((finished spacing.newline size p.index lead).map .statement) ++
          ((transform spacing final).onSectionItems (p.past lead) items).1,
        ((transform spacing final).onSectionItems (p.past lead) items).2) := by
  induction lead generalizing p with
  | nil => rfl
  | cons s lead ih =>
    rw [List.forall_mem_cons] at hlead
    rw [List.map_cons, List.cons_append, Transform.onSectionItems,
      onStatement_calm spacing hfinal hp hlead.1]
    dsimp only
    rw [ih (hp.past [s]) hlead.2, Progress.past_past]
    rfl

/-- A calm walk comes past the header of a section. -/
theorem onHeader_calm {p : Progress} (hp : p.IsCalm) {header : Option Statement}
    (hheader : ∀ s ∈ header, s.IsCalm) :
    (transform spacing final).onStatement? p header =
      (header.map fun s => (ended spacing.newline size p.index s, false),
        p.past header.toList) := by
  cases header with
  | none => rfl
  | some s =>
    rw [Transform.onStatement?, onStatement_calm spacing hfinal hp (hheader s rfl)]
    rfl

/-- The statements and blocks of a section. -/
theorem onItemsOf_calm {p : Progress} (hp : p.IsCalm) {kind : SectionKind} {lead : List Statement}
    {blocks : List Block} (hlead : ∀ s ∈ lead, s.IsCalm)
    (hblocks : ∀ item ∈ blocks.map SectionItem.block, item.Holds Statement.IsCalm kind)
    (hok : ((transform spacing final).onSectionItems p (itemsOf lead blocks)).2.broken = none ∨
      blocksFit spacing (if p.sectionFollows then spacing.sections else 0) blocks) :
    ∃ new follows, (transform spacing final).onSectionItems p (itemsOf lead blocks) =
        (unprotected (itemsOf (finished spacing.newline size p.index lead) new),
          (p.past (itemsStatements (itemsOf lead blocks))).followed follows) ∧
      SpacedBlocks spacing kind size (p.index + lead.length)
        (if p.sectionFollows then spacing.sections else 0) blocks new := by
  have hwalk := onLead_calm spacing hfinal hp hlead (blocks.map SectionItem.block)
  rw [← itemsOf] at hwalk
  rw [hwalk] at hok ⊢
  obtain ⟨new, follows, h, hnew⟩ := onBlocks_calm spacing hfinal (hp.past lead) hblocks hok
  refine ⟨new, follows, ?_, hnew⟩
  rw [h, Progress.past_past, itemsStatements_itemsOf, itemsOf, unprotected, unprotected,
    unprotected, List.map_append]

/-- **What a walk makes of a section.** -/
theorem onSection_calm {p : Progress} (hp : p.IsCalm) {s : Section}
    (hkind : s.kind.isInherited = false)
    (hs : s.Holds (fun _ r => r.IsCalm) fun _ h => h.type = .sectionHeader ∧ h.IsCalm)
    (hleads : leadsBlocks s.body) (hne : spacing.newline ≠ "")
    (hend : ∀ r ∈ finished spacing.newline size p.index s.statements, r.isUnterminated = false)
    (hok : ((transform spacing final).onSection p s).2.broken = none ∨
      sectionFits spacing p.sectionFollows s) :
    ∃ new follows, (transform spacing final).onSection p s =
        (new, (p.past s.statements).followed follows) ∧
      SpacedSection spacing size p.index p.sectionFollows s new := by
  obtain ⟨lead, blocks, hbody⟩ := hleads
  replace hbody : s.body = itemsOf lead blocks := hbody
  obtain ⟨hleadOf, hblocksOf⟩ : leadOf s = lead ∧ blocksOf s = blocks := by
    rw [leadOf, blocksOf, hbody]
    exact filterMap_itemsOf lead blocks
  obtain ⟨hheader, -, hitems⟩ := hs
  obtain ⟨hlead, hblocks⟩ : (∀ r ∈ lead, r.type.inSection s.kind = true ∧ r.IsCalm) ∧
      ∀ item ∈ blocks.map SectionItem.block, item.Holds Statement.IsCalm s.kind := by
    rw [hbody, itemsOf, List.forall_mem_append, List.forall_mem_map] at hitems
    exact hitems
  have hp0 : (p.enter (.sect s)).IsCalm := hp.enter fun r hr => (hheader r hr).2.silent
  have hleave := p.leave_past_enter (.sect s)
  rw [sectionFits, endLines, hleadOf, hblocksOf] at hok
  rw [Transform.onSection, onHeader_calm spacing hfinal hp0 fun r hr => (hheader r hr).2, hbody]
    at hok ⊢
  dsimp only at hok ⊢
  have hp1 := hp0.past s.header.toList
  obtain ⟨new, follows, h, hnew⟩ := onItemsOf_calm spacing hfinal hp1 (fun r hr => (hlead r hr).2)
    hblocks (hok.imp ((transform spacing final).back_onSectionBody _ _ _ _).broken And.right)
  have hstatements : s.header.toList ++ itemsStatements s.body = s.statements := rfl
  have hindex : ((p.enter (.sect s)).past s.header.toList).index =
      p.index + s.header.toList.length := rfl
  rw [h, ← hbody, Progress.past_past, hstatements, hindex] at hok ⊢
  dsimp only at hok ⊢
  have hq := (hp0.past s.statements).followed follows
  have hblocksNew : SpacedBlocks spacing s.kind size (p.index + (s.header.toList ++ lead).length)
      (if p.sectionFollows then spacing.sections else 0) blocks new := by
    rw [List.length_append, ← Nat.add_assoc]
    exact hnew
  obtain ⟨count, hcount⟩ : ∃ count, count = linesAtEnd spacing p.sectionFollows
    ((contents lead).isEmpty && s.header.isNone) := ⟨_, rfl⟩
  let left : Section := leftSection spacing.newline size p.index count s lead new
  have hrespaced : Respaced spacing.newline (finished spacing.newline size p.index s.statements)
      left.statements := respaced_leftSection hbody hblocksNew
  have hissues : sectionIssues s.kind left.body = [] := by
    refine issues_itemsOf hkind (fun r hr => ?_) hnew.holds fun r hr => ?_
    · rcases mem_spacedLead hr with hr | rfl
      · have hstart : ∀ r ∈ finished spacing.newline size (p.index + s.header.toList.length) lead,
            r.type.inSection s.kind = true ∧ r.flaws = [] :=
          forall_finished (fun _ r hr => ⟨by rw [ended_type]; exact (hlead r hr).1,
            flaws_ended (hlead r hr).2.flaws⟩) _
        exact hstart r hr
      · exact ⟨rfl, flaws_emptyLine _⟩
    · rcases hrespaced.mem r (List.mem_append_right _ hr) with hr | rfl
      · exact hend r hr
      · exact isUnterminated_emptyLine hne
  have hnil : new = [] ↔ blocks = [] := by
    rw [← List.isEmpty_iff, hnew.isEmpty, List.isEmpty_iff]
  obtain ⟨hfits, hleft⟩ := onSectionBody_calm spacing final hq hkind
    (by rw [Option.map_map]; cases s.header <;> rfl)
    (by rw [isEmpty_contents_finished, Option.isNone_map]; exact hcount) hissues
    (hok.imp_right fun h hnone => hcount.trans_le (h.1 (hnil.1 hnone)))
  rw [hleft]
  dsimp only
  rw [unmark_unprotected, hq.settle, Option.map_map]
  refine ⟨left, follows, Prod.ext rfl (congrArg (·.followed follows) (hleave s.statements)), ?_⟩
  exact spaced_leftSection (fun h hh => by rw [Statement.isEmptyLine, (hheader h hh).1]; rfl)
    (fun b hb => isEmptyLine_name (hblocks _ (List.mem_map_of_mem hb))) hbody hcount hfits hblocksNew

/-- **What a walk makes of the sections of a file.** -/
theorem onSections_calm {ss : List Section} {p : Progress} (hp : p.IsCalm) (front : Bool)
    (hkinds : ∀ s ∈ ss, s.kind.isInherited = false)
    (hs : ∀ s ∈ ss, s.Holds (fun _ r => r.IsCalm) fun _ h => h.type = .sectionHeader ∧ h.IsCalm)
    (hleads : ∀ s ∈ ss, leadsBlocks s.body) (hheaders : ∀ s ∈ ss.tail, s.header ≠ none)
    (hfront : ∀ s ∈ ss.head?, s.header = none → front = false) (hne : spacing.newline ≠ "")
    (hend : ∀ r ∈ finished spacing.newline size p.index (ss.flatMap Section.statements),
      r.isUnterminated = false)
    (hok : ((transform spacing final).onSections p ss).2.broken = none ∨ sectionsFit spacing ss) :
    SpacedSections spacing size p.index front ss ((transform spacing final).onSections p ss).1 := by
  induction ss generalizing p front with
  | nil =>
    rw [Transform.onSections]
    refine ⟨rfl, ⟨rfl, List.forall_mem_nil _⟩, ?_, List.forall_mem_nil _, trivial,
      fun _ => trivial, fun _ _ _ => rfl⟩
    rw [List.isEmpty_nil, Bool.not_true, Bool.and_false]
    exact .nil 0
  | cons s ss ih =>
    rw [List.forall_mem_cons] at hs hleads hkinds
    rw [List.flatMap_cons, finished_append, List.forall_mem_append] at hend
    rw [Transform.onSections] at hok ⊢
    dsimp only at hok ⊢
    have hp1 : ({ p with sectionFollows := !ss.isEmpty } : Progress).IsCalm :=
      ⟨hp.scope, hp.off, hp.broken⟩
    obtain ⟨left, follows, h, hleft⟩ := onSection_calm spacing hfinal hp1 hkinds.1 hs.1
      hleads.1 hne hend.1 (hok.imp broken_of_onSections And.left)
    rw [h] at hok ⊢
    dsimp only at hok ⊢
    have hrest := ih ((hp1.past s.statements).followed follows)
      (front || !(contents s.statements).isEmpty) hkinds.2 hs.2 hleads.2
      (fun r hr => hheaders r (List.mem_of_mem_tail hr))
      (fun r hr hnone => absurd hnone (hheaders r (List.mem_of_mem_head? hr))) hend.2
      (hok.imp_right And.right)
    refine ⟨rfl, ?_, ?_, ?_, ?_, fun hbetween => ?_, fun {v} hv hseen hend => ?_⟩
    · rw [List.flatMap_cons, finished_append, List.flatMap_cons]
      exact hleft.respaced.append hrest.respaced
    · have hfirst := hleft.fitted front (hfront s rfl)
      rw [sectionEnd, Bool.and_comm] at hfirst
      rw [List.flatMap_cons, List.isEmpty_cons, Bool.not_false, Bool.and_true]
      exact hfirst.append hrest.fitted
    · refine List.forall_mem_cons.2 ⟨⟨s, List.mem_cons_self, hleft.kind, hleft.lead⟩, fun r hr => ?_⟩
      obtain ⟨t, ht, hr⟩ := hrest.leads r hr
      exact ⟨t, List.mem_cons_of_mem s ht, hr⟩
    · rw [sectionsFit, hrest.isEmpty]
      exact ⟨hleft.fits, hrest.fits⟩
    · rw [sectionsSpaced, hrest.isEmpty]
      exact ⟨hleft.spaced hbetween, hrest.spaced hbetween⟩
    · rw [List.flatMap_cons] at hend
      obtain ⟨hendFirst, hendRest⟩ := finished_append_eq_self hend
      rw [List.map_cons, List.map_cons, hleft.rests hv hseen.1 hendFirst,
        hrest.rests hv hseen.2 hendRest]

end

/-! ## The end of a file -/

section
variable {newline : String} {ss : List Statement} {s : Statement}

/-- A statement that ends with a line break. -/
def Breaks (s : Statement) : Prop :=
  ∃ t, s.lastEol = some t ∧ (t.value = "\n" ∨ t.value = "\r\n")

/-- A statement with a line break at its end ends its line. -/
theorem breaks_terminate (hn : newline = "\n" ∨ newline = "\r\n")
    (h : ∃ front e, s.tokens = front ++ [e] ∧ IsBreak e) : Breaks (s.terminate newline) := by
  obtain ⟨front, e, htokens, hbreak⟩ := h
  have hlast : s.lastEol = some e := by
    rw [Statement.lastEol, htokens, List.getLast?_concat, Option.filter_some, Token.isEol,
      hbreak.kind]
    rfl
  by_cases hv : e.value = ""
  · have hend : s.terminate newline = s.withTokens (front ++ [Token.create .eol newline]) := by
      rw [Statement.terminate, hlast]
      dsimp only
      rw [if_pos hv, htokens, List.dropLast_concat]
    refine ⟨.create .eol newline, ?_, hn⟩
    have hnew : (s.terminate newline).tokens = front ++ [Token.create .eol newline] := by
      rw [hend]
      rfl
    rw [Statement.lastEol, hnew, List.getLast?_concat]
    rfl
  · rw [terminate_of_terminated ⟨e, hlast, hv⟩]
    exact ⟨e, hlast, hbreak.value.imp_right fun h => h.resolve_right hv⟩

/-- The last statement of some is the last of those that are no empty lines, if it is none. -/
theorem getLast?_contents (h : s ∈ ss.getLast?) (hs : s.isEmptyLine = false) :
    s ∈ (contents ss).getLast? := by
  obtain ⟨front, rfl⟩ := List.getLast?_eq_some_iff.1 h
  rw [contents_append, contents_statement hs]
  exact List.getLast?_concat

/-- The last statement of a file is the one that gets a line break. -/
theorem getLast?_endLast (newline : String) (ss : List Statement) :
    (endLast newline ss).getLast? = ss.getLast?.map (·.terminate newline) := by
  rcases List.eq_nil_or_concat ss with rfl | ⟨front, s, rfl⟩
  · rfl
  · rw [List.concat_eq_append, endLast_append front (List.cons_ne_nil s []), List.getLast?_concat]
    exact List.getLast?_concat

/-- Ending the last statement of a file ends the last that is no empty line. -/
theorem contents_endLast (hf : ∀ s ∈ ss, s.flaws = []) (hs : separated ss) :
    contents (endLast newline ss) = endLast newline (contents ss) := by
  rcases List.eq_nil_or_concat ss with rfl | ⟨front, s, rfl⟩
  · rfl
  rw [List.concat_eq_append] at hf hs ⊢
  have hend (a : List Statement) : endLast newline (a ++ [s]) = a ++ [s.terminate newline] :=
    endLast_append a (List.cons_ne_nil s [])
  have hline : (s.terminate newline).isEmptyLine = s.isEmptyLine := by
    rw [Statement.isEmptyLine, terminate_type, Statement.isEmptyLine]
  cases hempty : s.isEmptyLine with
  | false =>
    have hnil : contents [] = [] := rfl
    rw [hend, contents_append, contents_append, contents_statement hempty,
      contents_statement (hline.trans hempty), hnil, hend]
  | true =>
    -- all statements in front of the empty line end with line breaks already
    have hdone : ∀ r ∈ contents front, r.terminate newline = r := by
      intro r hr
      have hmem := (List.mem_filter.1 hr).1
      obtain ⟨us, e, htokens, he, -⟩ := concat_of_flaws (hf r (List.mem_append_left _ hmem))
      have hlast : r.lastEol = some e := by
        rw [Statement.lastEol, htokens, List.getLast?_concat, Option.filter_some, Token.isEol, he]
        rfl
      have hclosed := hs.left (List.cons_ne_nil s []) r hmem
      rw [Statement.isUnterminated, hlast, Option.any_some, decide_eq_false_iff_not] at hclosed
      exact terminate_of_terminated ⟨e, hlast, hclosed⟩
    have hkept : endLast newline (contents front) = contents front := by
      rcases List.eq_nil_or_concat (contents front) with hnil | ⟨init, r, hr⟩
      · rw [hnil]
        rfl
      · rw [List.concat_eq_append] at hr
        have hlast := hdone r (by simp [hr])
        rw [hr, endLast_append init (List.cons_ne_nil r [])]
        exact congrArg (fun x => init ++ [x]) hlast
    rw [hend, contents_append, contents_append, contents_line hempty,
      contents_line (hline.trans hempty)]
    show contents front ++ [] = endLast newline (contents front ++ [])
    rw [List.append_nil, hkept]

end

/-! ## The pass -/

/-- How much room there is in front of the statements of a file. -/
def fileRooms (spacing : Spacing) (f : File) : List Room := sectionsRooms spacing false f.sections

/-- The pass is one walk with the configured distances. -/
theorem apply_eq (setup : PassSetup) (f : File) : pass.apply setup f =
    .ofTransformed ((transform (spacingOf setup) (finalStatement? f)).run f) := rfl

/-- The last statement of a file without labels is known by its number. -/
theorem isFinal_of_labels {f : File} (hlabels : ∀ s ∈ f.statements, s.label = none)
    (hheaders : ∀ s ∈ f.sections.tail, s.header ≠ none) (n : Nat) (s : Statement) :
    isFinal (finalStatement? f) n s = decide (n + 1 = f.statements.length) := by
  have hnone (h : f.statements = []) (last : Option (Nat × Statement)) (hlast : last = none) :
      isFinal last n s = decide (n + 1 = f.statements.length) := by
    rw [h, hlast]
    rfl
  rw [finalStatement?]
  cases hlast : f.sections.getLast? with
  | none =>
    refine hnone ?_ _ rfl
    rw [File.statements, List.getLast?_eq_none_iff.1 hlast]
    rfl
  | some sect =>
    have hsect := List.mem_of_getLast? hlast
    cases hfinal : sect.statements.getLast? with
    | none =>
      -- a section without statements has no header, so it is the only one
      have hnil := List.getLast?_eq_none_iff.1 hfinal
      refine hnone ?_ _ (by rw [Option.bind_some, hfinal, Option.map_none])
      obtain ⟨front, hsections⟩ := List.getLast?_eq_some_iff.1 hlast
      have hheader : sect.header = none := by
        rw [Section.statements, List.append_eq_nil_iff, Option.toList_eq_nil_iff] at hnil
        exact hnil.1
      cases front with
      | nil => rw [File.statements, hsections, List.nil_append, List.flatMap_singleton, hnil]
      | cons first front =>
        have htail : sect ∈ f.sections.tail := by rw [hsections]; simp
        exact absurd hheader (hheaders sect htail)
    | some last =>
      have hmem : last ∈ f.statements :=
        List.mem_flatMap.2 ⟨sect, hsect, List.mem_of_getLast? hfinal⟩
      have hpos := List.length_pos_of_mem hmem
      rw [Option.bind_some, hfinal, Option.map_some, isFinal, Option.any_some]
      dsimp only
      rw [hlabels last hmem, Option.isSome_none, if_neg Bool.false_ne_true]
      exact decide_eq_decide.2 (by omega)

/-- A whole number of lines is taken as it is. -/
theorem lineCount_natCast (n : Nat) : lineCount (n : Rat) = n := by
  rw [lineCount, Rat.floor, Rat.den_natCast, if_pos rfl, Rat.num_natCast, Int.toNat_natCast]

/-- A walk leaves the sections of a file to themselves. -/
theorem run_eq (spacing : Spacing) (final : Option (Nat × Statement)) (f : File) :
    let walked := (transform spacing final).onSections (({} : Progress).enter (.file f)) f.sections
    (transform spacing final).run f =
      ⟨{ f with sections := walked.1 }, walked.2.refused, walked.2.broken⟩ := by
  have hbody (p : Progress) (ss : List Section) :
      (transform spacing final).onFileBody p ss = (ss, p) := by
    rw [Transform.onFileBody]
    split <;> rfl
  rw [Transform.run]
  dsimp only
  rw [hbody]

/-- **What a walk makes of a file.** -/
theorem run_calm (spacing : Spacing) {final : Option (Nat × Statement)} {f : File}
    (hkinds : ∀ s ∈ f.sections, s.kind.isInherited = false)
    (hfinal : ∀ n s, isFinal final n s = decide (n + 1 = f.statements.length))
    (hs : ∀ s ∈ f.sections,
      s.Holds (fun _ r => r.IsCalm) fun _ h => h.type = .sectionHeader ∧ h.IsCalm)
    (hleads : ∀ s ∈ f.sections, leadsBlocks s.body)
    (hheaders : ∀ s ∈ f.sections.tail, s.header ≠ none) (hne : spacing.newline ≠ "")
    (hend : separated f.statements)
    (hok : ((transform spacing final).run f).broken = none ∨ sectionsFit spacing f.sections) :
    SpacedSections spacing f.statements.length 0 false f.sections
        ((transform spacing final).run f).tree.sections ∧
      finished spacing.newline f.statements.length 0 f.statements =
        endLast spacing.newline f.statements := by
  let start : Progress := ({} : Progress).enter (.file f)
  have hstart : start.IsCalm := .enter ⟨by simp [Scope.IsCalm], rfl, rfl⟩
    fun h hh => absurd hh (Option.not_mem_none h)
  have hall : finished spacing.newline f.statements.length 0 f.statements =
      endLast spacing.newline f.statements := by
    have hall := finished_eq_endLast spacing.newline 0 f.statements
    rwa [Nat.zero_add] at hall
  rw [run_eq] at hok ⊢
  exact ⟨onSections_calm spacing hfinal hstart false hkinds hs hleads hheaders (fun _ _ _ => rfl) hne
    (fun r hr => forall_endLast hne hend r (hall ▸ hr)) hok, hall⟩

/-- **Statements stand as far apart as is configured.**  A source has no defect and no formatter
directive, its model is valid and no section is opened by an inherited name.  Then the pass, unless
it breaks off, keeps all statements but empty lines, ends the last with a line break and leaves as
many empty lines in front of each as there is room for, and none at the end. -/
theorem lines_spaced {source : String} {setup : PassSetup} {n m k : Nat}
    (hp : (parse source).errors = []) (hi : (parse source).issues = [])
    (hkinds : ∀ s ∈ (parse source).sections, s.kind.isInherited = false)
    (hoff : ∀ s ∈ (parse source).statements, s.directive? = none)
    (hn : setup.newline = (parse source).newline.text)
    (hs : setup.params.number "sectionLines" 2 = (n : Rat))
    (hm : setup.params.number "testCaseLines" 1 = (m : Rat))
    (hk : setup.params.number "keywordLines" 1 = (k : Rat))
    (hfault : (pass.apply setup (parse source)).fault = none) :
    let spacing : Spacing := ⟨n, m, k, setup.newline⟩
    let after := pass.apply setup (parse source)
    contents after.tree.statements =
        endLast setup.newline (contents (parse source).statements) ∧
      List.Forall₂ Room.Admits (fileRooms spacing (parse source))
        (lineGaps after.tree.statements) ∧
      ∀ s ∈ after.tree.statements.getLast?, s.isEmptyLine = false ∧ Breaks s := by
  intro spacing after
  have hnewline : setup.newline = "\n" ∨ setup.newline = "\r\n" := hn ▸ OrderSettings.newline_text _
  have hne : setup.newline ≠ "" := by rcases hnewline with h | h <;> rw [h] <;> decide
  have hclear := clear_sections hp hi
  have hseparated := (separated_parse hp).1
  have hcalm : ∀ s ∈ (parse source).statements, s.IsCalm := fun s hmem =>
    ⟨(clear_parse hp hi s hmem).flaws, hoff s hmem⟩
  have hsections : ∀ s ∈ (parse source).sections,
      s.Holds (fun _ r => r.IsCalm) fun _ h => h.type = .sectionHeader ∧ h.IsCalm := by
    intro s hmem
    have hstatements : ∀ r ∈ s.statements, r.IsCalm := fun r hr =>
      hcalm r (List.mem_flatMap.2 ⟨s, hmem, hr⟩)
    exact (hclear s hmem).sound.imp (fun r hr _ => hstatements r hr) fun r hr h =>
      ⟨h.type, hstatements r hr⟩
  have hafter : after = .ofTransformed
      ((transform spacing (finalStatement? (parse source))).run (parse source)) := by
    show pass.apply setup (parse source) = _
    rw [apply_eq, spacingOf, hs, hm, hk, lineCount_natCast, lineCount_natCast, lineCount_natCast]
  obtain ⟨hrespaced, hfitted⟩ :
      Respaced setup.newline (endLast setup.newline (parse source).statements)
        after.tree.statements ∧
      Fitted 0 (fileRooms spacing (parse source)) after.tree.statements 0 := by
    change after.fault = none at hfault
    rw [hafter] at hfault ⊢
    obtain ⟨hspaced, hall⟩ := run_calm spacing hkinds
      (isFinal_of_labels (label_parse source) (parse_sections source).2) hsections
      (fun s hmem => (hclear s hmem).leads) (parse_sections source).2 hne hseparated
      (.inl (Option.map_eq_none_iff.1 hfault))
    exact ⟨hall ▸ hspaced.respaced, hspaced.fitted⟩
  have hcontents : contents after.tree.statements =
      endLast setup.newline (contents (parse source).statements) :=
    hrespaced.contents.trans (contents_endLast (fun s hmem => (hcalm s hmem).flaws) hseparated)
  refine ⟨hcontents, hfitted.gaps, fun s hlast => ?_⟩
  have hline := hfitted.getLast? s hlast
  refine ⟨hline, ?_⟩
  -- it is the last of the source but for empty lines, with a line break
  replace hlast := getLast?_contents hlast hline
  rw [hcontents, getLast?_endLast] at hlast
  obtain ⟨r, hr, rfl⟩ := Option.map_eq_some_iff.1 hlast
  have hmem : r ∈ (parse source).statements := List.filter_sublist.subset (List.mem_of_getLast? hr)
  exact breaks_terminate hnewline ((sound_parse hp).laid r hmem).getLast?

set_option maxRecDepth 100000 in
/-- Two tests, of which the first ends with a comment that belongs to the second, and a keyword in a
section without line break at its end. -/
theorem lines_spaced_tests :
    let source := "*** Test Cases ***\n\nA\n    Log    1\n\n\n    Log    2\n# about B\nB\n" ++
      "    No Operation\n*** Keywords ***\nK\n    Fail"
    let setup : PassSetup := ⟨.default, [("testCaseLines", .number 3)], "\n"⟩
    let spacing : Spacing := ⟨2, 3, 1, "\n"⟩
    let after := pass.apply setup (parse source)
    after.fault = none ∧
      contents after.tree.statements = endLast "\n" (contents (parse source).statements) ∧
      fileRooms spacing (parse source) =
        [.exactly 0, .exactly 0, .exactly 0, .atMost 1, .exactly 3, .exactly 0, .exactly 0,
          .exactly 2, .exactly 0, .exactly 0] ∧
      List.Forall₂ Room.Admits (fileRooms spacing (parse source))
        (lineGaps after.tree.statements) ∧
      ∀ s ∈ after.tree.statements.getLast?, s.isEmptyLine = false ∧ Breaks s := by
  intro source setup spacing after
  obtain ⟨hp, hi, hkinds, hoff, hn, hfault⟩ : (parse source).errors = [] ∧
      (parse source).issues = [] ∧
      (∀ s ∈ (parse source).sections, s.kind.isInherited = false) ∧
      (∀ s ∈ (parse source).statements, s.directive? = none) ∧
      setup.newline = (parse source).newline.text ∧ after.fault = none := by
    decide +kernel
  obtain ⟨hcontents, hgaps, hlast⟩ := lines_spaced hp hi hkinds hoff hn (n := 2) (m := 3) (k := 1)
    (by rfl) (by rfl) (by rfl) hfault
  exact ⟨hfault, hcontents, by decide +kernel, hgaps, hlast⟩

set_option maxRecDepth 100000 in
/-- More empty lines than a list may hold are not put: the pass breaks off. -/
theorem lines_not_spaced :
    let source := "*** Settings ***\nLibrary    X\n*** Variables ***\n"
    let setup : PassSetup := ⟨.default, [("sectionLines", .number 4294967296)], "\n"⟩
    let after := pass.apply setup (parse source)
    (parse source).errors = [] ∧ (parse source).issues = [] ∧
      (∀ s ∈ (parse source).statements, s.directive? = none) ∧
      setup.newline = (parse source).newline.text ∧ after.fault ≠ none ∧
      lineGaps after.tree.statements = [0, 0, 0] ∧
      fileRooms ⟨4294967296, 1, 1, "\n"⟩ (parse source) =
        [.exactly 0, .exactly 0, .exactly 4294967296] ∧
      ¬ List.Forall₂ Room.Admits (fileRooms ⟨4294967296, 1, 1, "\n"⟩ (parse source))
        (lineGaps after.tree.statements) := by
  intro source setup after
  obtain ⟨hp, hi, hoff, hn⟩ : (parse source).errors = [] ∧ (parse source).issues = [] ∧
      (∀ s ∈ (parse source).statements, s.directive? = none) ∧
      setup.newline = (parse source).newline.text := by
    decide +kernel
  have hfault : after.fault ≠ none := by decide +kernel
  have hgaps : lineGaps after.tree.statements = [0, 0, 0] := by decide +kernel
  have hrooms : fileRooms ⟨4294967296, 1, 1, "\n"⟩ (parse source) =
      [.exactly 0, .exactly 0, .exactly 4294967296] := by decide +kernel
  refine ⟨hp, hi, hoff, hn, hfault, hgaps, hrooms, fun h => ?_⟩
  rw [hgaps, hrooms] at h
  obtain ⟨-, h⟩ := List.forall₂_cons.1 h
  obtain ⟨-, h⟩ := List.forall₂_cons.1 h
  obtain ⟨hlines, -⟩ := List.forall₂_cons.1 h
  cases hlines

end EmptyLines
end RobotSuite
