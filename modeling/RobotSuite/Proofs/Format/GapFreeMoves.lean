/-
# Passes that move statements look at no gaps

Sections are merged and put in order, so are settings, and empty lines are put and taken away, by
what statements are for, by names, and by what stands where.  None of that depends on the gaps
between cells, so what shows of a model without its gaps is moved in the same way, as it is spelled
in the same way (`Pass.commutes_front`).
-/

import RobotSuite.Proofs.Format.EmptyLines.Pass
import RobotSuite.Proofs.Format.GapFreePasses

namespace RobotSuite

/-! ## Items -/

/-- An end is dropped from a list as from the one that it is made of. -/
theorem dropEndWhile_map {α β : Type} (f : α → β) (p : β → Bool) (xs : List α) :
    Text.dropEndWhile p (xs.map f) = (Text.dropEndWhile (p ∘ f) xs).map f := by
  rw [Text.dropEndWhile, Text.dropEndWhile, ← List.map_reverse, List.dropWhile_map,
    List.map_reverse]

/-- An end is taken from a list as from the one that it is made of. -/
theorem takeEndWhile_map {α β : Type} (f : α → β) (p : β → Bool) (xs : List α) :
    Text.takeEndWhile p (xs.map f) = (Text.takeEndWhile (p ∘ f) xs).map f := by
  rw [Text.takeEndWhile, Text.takeEndWhile, ← List.map_reverse, List.takeWhile_map,
    List.map_reverse]

section
variable {gaps : Bool}

/-- The type of an item of a body shows. -/
theorem isOfType_viewItem (type : StatementType) (i : BodyItem) :
    (i.view (Statement.shown gaps)).isOfType type = i.isOfType type := by
  cases i <;> rfl

/-- The type of an item of a section shows. -/
theorem isOfType_viewSectionItem (type : StatementType) (i : SectionItem) :
    (i.view (Statement.shown gaps)).isOfType type = i.isOfType type := by
  cases i <;> rfl

/-- Blocks show as blocks. -/
@[simp] theorem SectionItem.isBlock_view (f : Statement → Statement) (i : SectionItem) :
    (i.view f).isBlock = i.isBlock := by
  cases i <;> rfl

/-- The statements of a section show where they stand. -/
theorem filterMap_statement?_view (f : Statement → Statement) (items : List SectionItem) :
    (items.map (SectionItem.view f)).filterMap SectionItem.statement? =
      (items.filterMap SectionItem.statement?).map f := by
  rw [List.filterMap_map, List.map_filterMap]
  congr 1
  funext item
  cases item <;> rfl

/-- Whether a directive at the level of its section switches a pass off shows. -/
theorem disables_shown {s s' : Section} (hh : s'.header = s.header.map (Statement.shown gaps))
    (hb : s'.body = s.body.map (SectionItem.view (Statement.shown gaps))) (pass : String) :
    s'.disables pass = s.disables pass := by
  rw [Section.disables, Section.disables, hh, hb, filterMap_statement?_view, List.any_map]
  congr 1
  · cases s.header with
    | none => rfl
    | some h => exact congrArg _ h.shown_directive?
  · congr 1
    funext c
    rw [Function.comp_apply, Statement.shown_directive?, Statement.shown_type]

end

/-! ## Line breaks -/

section
variable {gaps : Bool} (newline : String)

mutual

/-- An item shows with a line break at its end as it is ended. -/
theorem BodyItem.terminate_view : ∀ {item : BodyItem}, (∀ s ∈ item.statements, EndsLine s.tokens) →
    (item.view (Statement.shown gaps)).terminate newline =
      (item.terminate newline).view (Statement.shown gaps)
  | .statement s, h => by
    rw [BodyItem.view, BodyItem.terminate, BodyItem.terminate, BodyItem.view,
      Statement.terminate_shown (h s List.mem_cons_self)]
  | .control c, h => by
    rw [BodyItem.view, BodyItem.terminate, BodyItem.terminate, BodyItem.view,
      ControlBlock.terminate_view h]

/-- A control block shows with a line break at its end as it is ended. -/
theorem ControlBlock.terminate_view : ∀ {c : ControlBlock},
    (∀ s ∈ c.statements, EndsLine s.tokens) →
      (c.view (Statement.shown gaps)).terminate newline =
        (c.terminate newline).view (Statement.shown gaps)
  | ⟨type, span, header, body, branches, some close, label⟩, h => by
    have hclose : EndsLine close.tokens := h close (by simp [ControlBlock.statements])
    rw [ControlBlock.view, Option.map_some, ControlBlock.terminate, ControlBlock.terminate,
      ControlBlock.view, Option.map_some, Statement.terminate_shown hclose]
  | ⟨type, span, header, body, [], none, label⟩, h => by
    have hbody : ∀ s ∈ bodyStatements body, EndsLine s.tokens :=
      fun s hs => h s (by simp [ControlBlock.statements, hs])
    rw [ControlBlock.view, Option.map_none, viewBranches, ControlBlock.terminate,
      ControlBlock.terminate, ControlBlock.view, terminateBody_view hbody]
    rfl
  | ⟨type, span, header, body, b :: bs, none, label⟩, h => by
    have hbranches : ∀ s ∈ branchesStatements (b :: bs), EndsLine s.tokens :=
      fun s hs => h s (by simp [ControlBlock.statements, hs])
    rw [ControlBlock.view, Option.map_none, viewBranches, ControlBlock.terminate,
      ControlBlock.terminate, ControlBlock.view, ← viewBranches, terminateBranches_view hbranches]
    rfl

/-- A body shows with a line break at its end as it is ended. -/
theorem terminateBody_view : ∀ {items : List BodyItem},
    (∀ s ∈ bodyStatements items, EndsLine s.tokens) →
      terminateBody newline (viewBody (Statement.shown gaps) items) =
        viewBody (Statement.shown gaps) (terminateBody newline items)
  | [], _ => rfl
  | [item], h => by
    rw [bodyStatements, List.forall_mem_append] at h
    rw [viewBody, viewBody, terminateBody, terminateBody, viewBody, viewBody,
      BodyItem.terminate_view h.1]
  | item :: next :: rest, h => by
    rw [bodyStatements, List.forall_mem_append] at h
    rw [viewBody, viewBody, terminateBody, ← viewBody, terminateBody_view h.2, terminateBody,
      viewBody]

/-- Branches show with a line break at their end as they are ended. -/
theorem terminateBranches_view : ∀ {bs : List Branch},
    (∀ s ∈ branchesStatements bs, EndsLine s.tokens) →
      terminateBranches newline (viewBranches (Statement.shown gaps) bs) =
        viewBranches (Statement.shown gaps) (terminateBranches newline bs)
  | [], _ => rfl
  | [⟨span, header, body, label⟩], h => by
    have hbody : ∀ s ∈ bodyStatements body, EndsLine s.tokens :=
      fun s hs => h s (by simp [branchesStatements, Branch.statements, hs])
    rw [viewBranches, viewBranches, Branch.view, terminateBranches, terminateBranches,
      viewBranches, viewBranches, Branch.view, terminateBody_view hbody]
  | b :: next :: rest, h => by
    rw [branchesStatements, List.forall_mem_append] at h
    rw [viewBranches, viewBranches, terminateBranches, ← viewBranches, terminateBranches_view h.2,
      terminateBranches, viewBranches]

end

/-- A block shows with a line break at its end as it is ended. -/
theorem Block.terminate_view {b : Block} (h : ∀ s ∈ b.statements, EndsLine s.tokens) :
    (b.view (Statement.shown gaps)).terminate newline =
      (b.terminate newline).view (Statement.shown gaps) := by
  rw [Block.statements, List.forall_mem_cons] at h
  have hempty : (b.view (Statement.shown gaps)).body.isEmpty = b.body.isEmpty := by
    rw [Block.view, viewBody_eq_map, List.isEmpty_map]
  rw [Block.terminate, Block.terminate, hempty]
  split
  · dsimp only [Block.view]
    rw [Statement.terminate_shown h.1]
  · dsimp only [Block.view]
    rw [terminateBody_view newline h.2]

/-- An item of a section shows with a line break at its end as it is ended. -/
theorem SectionItem.terminate_view {item : SectionItem}
    (h : ∀ s ∈ item.statements, EndsLine s.tokens) :
    (item.view (Statement.shown gaps)).terminate newline =
      (item.terminate newline).view (Statement.shown gaps) := by
  cases item with
  | statement s =>
    exact congrArg SectionItem.statement (Statement.terminate_shown (h s List.mem_cons_self) _)
  | block b => exact congrArg SectionItem.block (Block.terminate_view newline h)

end

section
variable {gaps : SectionKind → Bool} (newline : String)

/-- The kind of a section shows. -/
@[simp] theorem Section.view_kind (v : View) (s : Section) : (s.view v).kind = s.kind := rfl

/-- Whether the statements of a section end lines. -/
def Section.EndsLines (s : Section) : Prop := ∀ r ∈ s.statements, EndsLine r.tokens

/-- The statements of a sound section end lines. -/
theorem Section.IsSound.endsLines {s : Section} (h : s.IsSound) : s.EndsLines := by
  intro r hr
  rcases List.mem_append.1 hr with hr | hr
  · exact endsLine_of_sound (.inr (h.header r (by simpa using hr)))
  · obtain ⟨item, hitem, hr⟩ := List.mem_flatMap.1 hr
    exact endsLine_of_sound (.inl ((h.items item hitem).statements r hr))

/-- A section shows with a line break at its end as it is ended. -/
theorem Section.terminate_view {s : Section} (h : s.EndsLines) :
    (s.view (gapView gaps)).terminate newline = (s.terminate newline).view (gapView gaps) := by
  obtain ⟨kind, span, header, body, label⟩ := s
  rw [Section.EndsLines, Section.statements, List.forall_mem_append] at h
  have hlast : (body.map (SectionItem.view (Statement.shown (gaps kind)))).getLast? =
      body.getLast?.map (SectionItem.view (Statement.shown (gaps kind))) := List.getLast?_map
  rw [Section.terminate, Section.terminate]
  dsimp only [Section.view, gapView]
  rw [hlast]
  cases hl : body.getLast? with
  | none =>
    cases header with
    | none => rfl
    | some r =>
      rw [Option.map_none]
      dsimp only [Option.map_some]
      rw [Statement.terminate_shown (h.1 r (by simp))]
  | some last =>
    have hstatements : ∀ r ∈ last.statements, EndsLine r.tokens :=
      fun r hr => h.2 r (List.mem_flatMap.2 ⟨last, List.mem_of_getLast? hl, hr⟩)
    rw [Option.map_some]
    dsimp only
    rw [SectionItem.terminate_view newline hstatements, List.map_append, List.map_dropLast]
    rfl

end

/-! ## Merged sections -/

namespace MergeSections
section
variable {gaps : SectionKind → Bool} {newline : String}

/-- The comment of a header shows in the statement that is made of it. -/
theorem headerComment_view (s : Section) :
    headerComment newline (s.view (gapView gaps)) =
      (headerComment newline s).map (SectionItem.view (Statement.shown (gaps s.kind))) := by
  obtain ⟨kind, span, header, body, label⟩ := s
  rw [headerComment, headerComment]
  dsimp only [Section.view, gapView]
  cases header with
  | none => rfl
  | some r =>
    have hcomments : commentTokens (r.shown (gaps kind)).tokens =
        (commentTokens r.tokens).map Token.bare := commentTokens_showTokens r.tokens
    rw [Option.map_some, Option.map_some, Option.map_some, Option.bind_some, Option.bind_some,
      hcomments, List.head?_map]
    cases hc : (commentTokens r.tokens).head? with
    | none => rfl
    | some comment =>
      have hcomment : comment.isSeparator = false := by
        have hmem := List.mem_of_head? hc
        rw [commentTokens, List.mem_filter] at hmem
        cases hs : comment.isSeparator with
        | false => rfl
        | true => simp [isComment_of_isSeparator hs] at hmem
      rw [Option.map_some]
      dsimp only
      rw [List.map_singleton]
      refine congrArg (fun s => [SectionItem.statement s]) ?_
      rw [Statement.create, Statement.create, Statement.shown]
      congr 1
      rw [showTokens_cons_of_not_gap hcomment, showTokens_cons_of_not_gap rfl]
      rfl

/-- Items are added to those that show as to the items. -/
theorem appendItems_view (f : Statement → Statement) (items added : List SectionItem) :
    appendItems (items.map (SectionItem.view f)) (added.map (SectionItem.view f)) =
      (appendItems items added).map (SectionItem.view f) := by
  have hblock : (fun i : SectionItem => !i.isBlock) ∘ SectionItem.view f = fun i => !i.isBlock :=
    funext fun i => by cases i <;> rfl
  rw [appendItems, appendItems, List.getLast?_map]
  cases items.getLast? with
  | none => rw [Option.map_none, List.map_append]
  | some last =>
    cases last with
    | statement s => rw [Option.map_some, SectionItem.view, List.map_append]
    | block b =>
      rw [Option.map_some, SectionItem.view]
      dsimp only
      rw [List.takeWhile_map, hblock, List.length_map, filterMap_statement?_view]
      simp only [List.map_append, List.map_dropLast, List.map_drop, List.map_singleton,
        SectionItem.view, Block.view, viewBody_eq_map, List.map_map]
      rfl

/-- Two sections are merged as they show. -/
theorem mergeInto_view {t s : Section} (ht : t.EndsLines) (hk : t.kind = s.kind) :
    mergeInto newline (t.view (gapView gaps)) (s.view (gapView gaps)) =
      (mergeInto newline t s).view (gapView gaps) := by
  have hkind : (t.terminate newline).kind = t.kind := by
    unfold Section.terminate
    split <;> rfl
  rw [mergeInto, mergeInto, Section.terminate_view newline ht, headerComment_view]
  dsimp only [Section.view, gapView]
  rw [hkind, hk, ← List.map_append, appendItems_view]

/-- A section is added to those that show as to the sections. -/
theorem addSection_view {merged : List Section} {s : Section} (hm : ∀ t ∈ merged, t.EndsLines) :
    addSection newline (merged.map (Section.view (gapView gaps))) (s.view (gapView gaps)) =
      (addSection newline merged s).map (Section.view (gapView gaps)) := by
  induction merged with
  | nil => rfl
  | cons t ts ih =>
    rw [List.forall_mem_cons] at hm
    rw [List.map_cons, addSection, addSection, Section.view_kind, Section.view_kind]
    split
    · rename_i h
      have hk : t.kind = s.kind := by
        rw [Bool.and_eq_true, decide_eq_true_eq] at h
        exact h.1
      rw [mergeInto_view hm.1 hk]
      rfl
    · rw [ih hm.2]
      rfl

/-- Sections are merged one by one as they show, and stay sound. -/
theorem foldl_addSection_view (hn : IsBreak (.create .eol newline)) {merged rest : List Section}
    (hm : ∀ s ∈ merged, s.IsSound) (hr : ∀ s ∈ rest, s.IsSound) :
    (rest.map (Section.view (gapView gaps))).foldl (addSection newline)
        (merged.map (Section.view (gapView gaps))) =
      (rest.foldl (addSection newline) merged).map (Section.view (gapView gaps)) ∧
        ∀ s ∈ rest.foldl (addSection newline) merged, s.IsSound := by
  induction rest generalizing merged with
  | nil => exact ⟨rfl, hm⟩
  | cons s rest ih =>
    rw [List.forall_mem_cons] at hr
    rw [List.map_cons, List.foldl_cons, List.foldl_cons,
      addSection_view fun t ht => (hm t ht).endsLines]
    exact ih (forall_addSection (fun _ _ => sound_mergeInto hn) hm hr.1) hr.2

/-- All sections but the last are ended as they show. -/
theorem terminateFront_view {ss : List Section} (h : ∀ s ∈ ss, s.EndsLines) :
    terminateFront newline (ss.map (Section.view (gapView gaps))) =
      (terminateFront newline ss).map (Section.view (gapView gaps)) := by
  rw [terminateFront, terminateFront, List.map_append, ← List.map_dropLast, List.getLast?_map,
    List.map_map, List.map_map]
  congr 1
  · exact List.map_congr_left fun s hs =>
      Section.terminate_view newline (h s (List.dropLast_subset _ hs))
  · cases ss.getLast? <;> rfl

/-- Sections without headers are told apart where they show. -/
theorem splitLead_view (ss : List Section) :
    splitLead (ss.map (Section.view (gapView gaps))) =
      ((splitLead ss).1.map (Section.view (gapView gaps)),
        (splitLead ss).2.map (Section.view (gapView gaps))) := by
  cases ss with
  | nil => rfl
  | cons s ss =>
    have hheader : (s.view (gapView gaps)).header.isNone = s.header.isNone := Option.isNone_map
    rw [List.map_cons, splitLead, splitLead, hheader]
    split <;> rfl

/-- Sections are merged and put in order as they show. -/
theorem arrange_view (hn : IsBreak (.create .eol newline)) (order : List String)
    {ss : List Section} (h : ∀ s ∈ ss, s.IsSound) :
    arrange order newline (ss.map (Section.view (gapView gaps))) =
      (arrange order newline ss).map (List.map (Section.view (gapView gaps))) := by
  have hlead : ∀ s ∈ (splitLead ss).1 ++ (splitLead ss).2, s.IsSound := by
    cases ss with
    | nil => exact h
    | cons s ss =>
      rw [splitLead]
      split <;> exact h
  rw [List.forall_mem_append] at hlead
  obtain ⟨hfold, hmerged⟩ := @foldl_addSection_view gaps newline hn [] _ (by simp) hlead.2
  rw [List.map_nil] at hfold
  have hsort (ss : List Section) : sortSections order (ss.map (Section.view (gapView gaps))) =
      (sortSections order ss).map (Section.view (gapView gaps)) :=
    (List.map_mergeSort (f := Section.view (gapView gaps)) fun _ _ _ _ => rfl).symm
  have hranks (ss : List Section) : (ss.map (Section.view (gapView gaps))).map (rank order) =
      ss.map (rank order) := by
    rw [List.map_map]
    rfl
  rw [arrange, arrange, splitLead_view]
  dsimp only
  rw [hfold, hsort, hranks, hranks, List.length_map, List.length_map]
  split
  · rfl
  · rw [Option.map_some, ← List.map_append, terminateFront_view]
    intro s hs
    rcases List.mem_append.1 hs with hs | hs
    · exact (hlead.1 s hs).endsLines
    · rw [sortSections, List.mem_mergeSort] at hs
      exact (hmerged s hs).endsLines

/-- Merging sections looks at no gaps. -/
theorem commutes_pass (gaps : SectionKind → Bool) : pass.Commutes (gapView gaps) := by
  refine Pass.commutes_ofTransform fun setup f hv hf => ?_
  refine
    { name := rfl
      keeps := (keepsSound_pass setup f _ hv rfl).1
      statement := fun _ _ => rfl
      body := fun _ _ => rfl
      sect := fun _ _ _ => rfl
      file := fun {place place' ss} _ hs => ?_ }
  have hoff : (f.view (gapView gaps)).disablesInSections info.name =
      f.disablesInSections info.name := by
    rw [File.disablesInSections, File.disablesInSections]
    show (f.sections.map (Section.view (gapView gaps))).any _ = _
    rw [List.any_map]
    exact congrArg _ (funext fun s => disables_shown rfl rfl info.name)
  dsimp only
  rw [hoff, arrange_view hv.isBreak _ hs]
  split
  · rfl
  · rw [Decision.map_ofOption]

end
end MergeSections

/-! ## Settings in order -/

namespace OrderSettings

/-- A setting and the comments above it as they are seen. -/
def SettingUnit.view (f : Statement → Statement) (u : SettingUnit) : SettingUnit :=
  ⟨u.comments.map f, f u.setting⟩

section
variable {gaps : Bool}

/-- Settings are cut into units as they show. -/
theorem collect_view (pending ss : List Statement) :
    collect (pending.map (Statement.shown gaps)) (ss.map (Statement.shown gaps)) =
      ((collect pending ss).1.map (Statement.shown gaps),
        (collect pending ss).2.map (SettingUnit.view (Statement.shown gaps))) := by
  induction ss generalizing pending with
  | nil => rfl
  | cons s ss ih =>
    rw [List.map_cons, collect, collect, Statement.shown_type, Statement.shown_ownedByNext]
    split
    · exact ih pending
    · split
      · split
        · rw [← ih, List.map_append]
          rfl
        · rw [ih]
          rfl
      · have hrest := ih []
        rw [List.map_nil] at hrest
        rw [hrest]
        rfl

/-- The group of a setting shows. -/
theorem group_view (u : SettingUnit) : (u.view (Statement.shown gaps)).group = u.group := by
  rw [SettingUnit.group, SettingUnit.group, SettingUnit.view, Statement.shown_suiteSetting?]

/-- The place of a setting in its group shows. -/
theorem rank_view (u : SettingUnit) : (u.view (Statement.shown gaps)).rank = u.rank := by
  rw [SettingUnit.rank, SettingUnit.rank, SettingUnit.view, Statement.shown_suiteSetting?]

/-- The members of a group show. -/
theorem members_view (names : List String) (units : List SettingUnit) (group : String) :
    members names (units.map (SettingUnit.view (Statement.shown gaps))) group =
      (members names units group).map (SettingUnit.view (Statement.shown gaps)) := by
  rw [members, members, List.map_mergeSort (s := fun a b => decide (a.rank ≤ b.rank))
    fun a _ b _ => by rw [rank_view, rank_view], List.filter_map]
  simp only [Function.comp_def, group_view]

/-- Groups are put together as they show. -/
theorem joinGroups_view (newline : String) (front : List Statement)
    (groups : List (List SettingUnit)) :
    joinGroups newline (front.map (Statement.shown gaps))
        (groups.map (List.map (SettingUnit.view (Statement.shown gaps)))) =
      (joinGroups newline front groups).map (Statement.shown gaps) := by
  induction groups generalizing front with
  | nil => rfl
  | cons units rest ih =>
    have hunits : (units.map (SettingUnit.view (Statement.shown gaps))).flatMap (·.statements) =
        (units.flatMap (·.statements)).map (Statement.shown gaps) := by
      rw [List.flatMap_map, List.map_flatMap]
      simp [SettingUnit.statements, SettingUnit.view]
    rw [List.map_cons, joinGroups, joinGroups, List.isEmpty_map, List.isEmpty_map, hunits]
    split
    · exact ih front
    · dsimp only
      rw [← ih, List.map_append, List.map_append]
      split
      · rfl
      · rw [List.map_singleton, Statement.shown_emptyLine]

/-- All statements but the last are ended as they show. -/
theorem terminateFront_view (newline : String) {ss : List Statement}
    (h : ∀ s ∈ ss, EndsLine s.tokens) :
    terminateFront newline (ss.map (Statement.shown gaps)) =
      (terminateFront newline ss).map (Statement.shown gaps) := by
  rw [terminateFront, terminateFront, List.map_append, ← List.map_dropLast, List.getLast?_map,
    List.map_map, List.map_map]
  congr 1
  · exact List.map_congr_left fun s hs =>
      Statement.terminate_shown (h s (List.dropLast_subset _ hs)) newline
  · cases ss.getLast? <;> rfl

/-- An empty line ends a line. -/
theorem endsLine_emptyLine (newline : String) : EndsLine (Statement.emptyLine newline).tokens :=
  ⟨⟨[], _, rfl, rfl⟩, by simp [Statement.emptyLine, Statement.create, Token.create]⟩

/-- Settings are put in order as they show. -/
theorem arrange_view (order : List String) (newline : String) {ss : List Statement}
    (h : ∀ s ∈ ss, EndsLine s.tokens) :
    arrange order newline (ss.map (Statement.shown gaps)) =
      (arrange order newline ss).map (Statement.shown gaps) := by
  have hcollect (ss : List Statement) := @collect_view gaps [] ss
  rw [List.map_nil] at hcollect
  have hmembers (names : List String) (units : List SettingUnit) :
      members names (units.map (SettingUnit.view (Statement.shown gaps))) =
        List.map (SettingUnit.view (Statement.shown gaps)) ∘ members names units :=
    funext fun group => members_view names units group
  rw [arrange, arrange, dropEndWhile_map, takeEndWhile_map, hcollect]
  dsimp only
  rw [hmembers, ← List.map_map, joinGroups_view, ← List.map_append]
  exact terminateFront_view newline (forall_joined (endsLine_emptyLine newline) h)

/-- Labels are put where they are put in what shows. -/
theorem labelRepeated_view (order : List String) (first : Nat) (ss : List Statement) :
    labelRepeated order first (ss.map (Statement.shown gaps)) =
      (labelRepeated order first ss).map (Statement.shown gaps) := by
  rw [labelRepeated, labelRepeated]
  split
  · rfl
  · rw [List.zipIdx_map, List.map_map, List.map_map]
    refine List.map_congr_left fun x _ => ?_
    show ite (x.1.label.isSome = true) _ _ = Statement.shown gaps (ite _ _ _)
    rw [apply_ite (Statement.shown gaps)]
    rfl

/-- A label that is free is so in what shows. -/
theorem freeLabel_view (gaps : SectionKind → Bool) (f : File) :
    freeLabel (f.view (gapView gaps)) = freeLabel f := by
  have hlabels : (f.view (gapView gaps)).statements.map (·.label) =
      f.statements.map (·.label) := by
    rw [File.statements, File.statements, List.map_flatMap, List.map_flatMap]
    show (f.sections.map (Section.view (gapView gaps))).flatMap _ = _
    rw [List.flatMap_map]
    refine List.flatMap_congr fun sect _ => ?_
    rw [Section.statements_view, List.map_map]
    rfl
  have hfold (ss : List Statement) : ss.foldl (fun n s => max n ((s.label.map (· + 1)).getD 0)) 0 =
      (ss.map (·.label)).foldl (fun n l => max n ((l.map (· + 1)).getD 0)) 0 := by
    rw [List.foldl_map]
  rw [freeLabel, freeLabel, hfold, hfold, hlabels]

/-- What is left of a section of settings is told by what shows. -/
theorem leave_view {setup : PassSetup} {first : Nat} {place place' : Place}
    (h : place.Like place') (header : Option Statement) {items : List SectionItem}
    (hi : ∀ s ∈ items.filterMap SectionItem.statement?, EndsLine s.tokens) :
    leave setup first place' (header.map (Statement.shown gaps))
        (items.map (SectionItem.view (Statement.shown gaps))) =
      (leave setup first place header items).map
        (List.map (SectionItem.view (Statement.shown gaps))) := by
  have hoff (s : Statement) :
      place'.scope.disables info.name (s.shown gaps) = place.scope.disables info.name s :=
    h.scope.disables _ rfl s.shown_directive?
  have hany : ((items.filterMap SectionItem.statement?).map (Statement.shown gaps)).any
      (place'.scope.disables info.name) =
        (items.filterMap SectionItem.statement?).any (place.scope.disables info.name) := by
    rw [List.any_map]
    exact congrArg _ (funext hoff)
  have hblocks : (items.map (SectionItem.view (Statement.shown gaps))).any (·.isBlock) =
      items.any (·.isBlock) := by
    rw [List.any_map]
    exact congrArg _ (funext (SectionItem.isBlock_view _))
  have hlabelled (order : List String) (n : Nat) : ∀ s ∈ labelRepeated order n
      (items.filterMap SectionItem.statement?), EndsLine s.tokens :=
    forall_labelRepeated (fun _ _ hs => hs) hi
  have hkind := h.scope.section?
  rw [leave, leave]
  dsimp only
  rw [filterMap_statement?_view, hany, hblocks, h.index, List.length_map, h.scope.frames]
  have happlies : (place'.scope.section?.any fun sect =>
      sect.kind = .settings && !place.scope.frames.disables info.name &&
        !{ sect with
            header := header.map (Statement.shown gaps)
            body := items.map (SectionItem.view (Statement.shown gaps)) : Section }.disables
          info.name &&
        !(items.filterMap SectionItem.statement?).any (place.scope.disables info.name) &&
        !items.any (·.isBlock)) =
      place.scope.section?.any fun sect =>
        sect.kind = .settings && !place.scope.frames.disables info.name &&
          !{ sect with header, body := items : Section }.disables info.name &&
          !(items.filterMap SectionItem.statement?).any (place.scope.disables info.name) &&
          !items.any (·.isBlock) := by
    cases hs : place.scope.section? with
    | none =>
      rw [hs, Option.map_none, Option.map_eq_none_iff] at hkind
      rw [hkind, Option.any_none, Option.any_none]
    | some sect =>
      rw [hs, Option.map_some, Option.map_eq_some_iff] at hkind
      obtain ⟨sect', hs', hkind⟩ := hkind
      have hdisables : { sect' with
          header := header.map (Statement.shown gaps)
          body := items.map (SectionItem.view (Statement.shown gaps)) : Section }.disables
            info.name = { sect with header, body := items : Section }.disables info.name :=
        disables_shown rfl rfl info.name
      rw [hs', Option.any_some, Option.any_some, hdisables, hkind]
  rw [happlies]
  split
  · rw [labelRepeated_view, arrange_view _ _ (hlabelled _ _), Option.map_some, List.map_map,
      List.map_map]
    rfl
  · rfl

/-- Ordering settings looks at no gaps. -/
theorem commutes_pass (gaps : SectionKind → Bool) : pass.Commutes (gapView gaps) := by
  refine Pass.commutes_ofTransform fun setup f hv hf => ?_
  refine
    { name := rfl
      keeps := (keepsSound_pass setup f _ hv rfl).1
      statement := fun _ _ => rfl
      body := fun _ _ => rfl
      sect := fun {kind place place' header items} hl _ hi => ?_
      file := fun _ _ => rfl }
  have hlines : ∀ s ∈ (unmark items).filterMap SectionItem.statement?, EndsLine s.tokens := by
    intro s hs
    obtain ⟨item, hitem, hs⟩ := List.mem_filterMap.1 hs
    have hsound := hi item hitem
    cases item with
    | statement r =>
      obtain rfl : r = s := by simpa [SectionItem.statement?] using hs
      exact endsLine_of_sound (.inl hsound.2)
    | block b => simp [SectionItem.statement?] at hs
  have hheader : (header.map fun h : Marked Statement => (h.1.shown (gaps kind), h.2)).map (·.1) =
      (header.map (·.1)).map (Statement.shown (gaps kind)) := by
    cases header <;> rfl
  dsimp only
  rw [freeLabel_view, hheader, unmark_viewMarked, leave_view hl _ hlines, Decision.map_ofOption,
    Option.map_map, Option.map_map]
  congr 2
  funext new
  simp [viewMarked]

end
end OrderSettings

/-! ## Empty lines -/

namespace EmptyLines

section
variable {α : Type} {isEmpty : α → Bool} {g : α → α} (hg : ∀ x, isEmpty (g x) = isEmpty x)
include hg

/-- Whether an item may be removed shows. -/
theorem isRemovable_view :
    (isRemovable isEmpty ∘ fun x : Marked α => (g x.1, x.2)) = isRemovable isEmpty :=
  funext fun x => congrArg (· && !x.2) (hg x.1)

/-- Rows of empty lines are collapsed as they show. -/
theorem collapse_view (behind : Bool) (xs : List (Marked α)) :
    collapse isEmpty behind (viewMarked g xs) = viewMarked g (collapse isEmpty behind xs) := by
  induction xs generalizing behind with
  | nil => rfl
  | cons x xs ih =>
    have hx : isRemovable isEmpty (g x.1, x.2) = isRemovable isEmpty x :=
      congrFun (isRemovable_view hg) x
    rw [viewMarked, List.map_cons, collapse, collapse, hx, hg]
    split
    · exact ih _
    · exact congrArg _ (ih _)

/-- Items are tidied as they show. -/
theorem tidy_view (xs : List (Marked α)) :
    tidy isEmpty (viewMarked g xs) = viewMarked g (tidy isEmpty xs) := by
  rw [tidy, tidy, collapse_view hg, stripStart, stripStart, viewMarked, List.dropWhile_map,
    isRemovable_view hg]
  rfl

/-- The end of items is stripped as it shows. -/
theorem stripEnd_view (xs : List (Marked α)) :
    stripEnd isEmpty (viewMarked g xs) = viewMarked g (stripEnd isEmpty xs) := by
  rw [stripEnd, stripEnd, viewMarked, dropEndWhile_map, isRemovable_view hg]
  rfl

end

section
variable {α : Type} (g : α → α)

/-- Items are kept as they show. -/
theorem keepSome_view (total : Nat) (items : List (Marked α)) :
    keepSome total (viewMarked g items) = (keepSome total items).map (viewMarked g) := by
  rw [keepSome, keepSome, viewMarked, List.length_map]
  split <;> rfl

/-- Empty lines are put between what shows as between the items. -/
theorem withPadding_view {item : Statement → α} {newline : String} {count : Nat} (total : Nat)
    (hitem : g (item (Statement.emptyLine newline)) = item (Statement.emptyLine newline))
    (front closing : List (Marked α)) :
    withPadding item total (viewMarked g front) (viewMarked g closing) (padding newline count) =
      (withPadding item total front closing (padding newline count)).map (viewMarked g) := by
  cases hp : padding newline count with
  | error reason => rfl
  | ok lines =>
    have hlines : viewMarked g (lines.map fun s => (item s, false)) =
        lines.map fun s => (item s, false) := by
      rw [padding_eq_ok hp, List.map_replicate, viewMarked, List.map_replicate, hitem]
    have hresult : viewMarked g front ++ lines.map (fun s => (item s, false)) ++
        viewMarked g closing =
          viewMarked g (front ++ lines.map (fun s => (item s, false)) ++ closing) := by
      rw [viewMarked_append, viewMarked_append, hlines]
    rw [withPadding, withPadding, hresult, length_viewMarked]
    split <;> rfl

end

section
variable {gaps : Bool} {spacing : Spacing} {place place' : Place}

/-- Empty lines in a body show as empty lines. -/
theorem isEmptyItem_view (i : BodyItem) :
    isEmptyItem (i.view (Statement.shown gaps)) = isEmptyItem i := isOfType_viewItem .emptyLine i

/-- Empty lines in a section show as empty lines. -/
theorem isEmptySectionItem_view (i : SectionItem) :
    isEmptySectionItem (i.view (Statement.shown gaps)) = isEmptySectionItem i :=
  isOfType_viewSectionItem .emptyLine i

/-- A body is cut at its closing comments as it shows. -/
theorem splitClosing_view (followed : Bool) (items : List (Marked BodyItem)) :
    splitClosing followed (viewMarked (BodyItem.view (Statement.shown gaps)) items) =
      (viewMarked (BodyItem.view (Statement.shown gaps)) (splitClosing followed items).1,
        viewMarked (BodyItem.view (Statement.shown gaps)) (splitClosing followed items).2) := by
  have hcomment : (isCommentItem ∘ fun x : Marked BodyItem =>
      (x.1.view (Statement.shown gaps), x.2)) = isCommentItem :=
    funext fun x => isOfType_viewItem .comment x.1
  rw [splitClosing, splitClosing, viewMarked, dropEndWhile_map, takeEndWhile_map, hcomment,
    List.isEmpty_map]
  split <;> rfl

/-- As many lines stand behind a block in a place that is like another. -/
theorem linesBehind_like (h : place.Like place') (type : BlockType) :
    linesBehind spacing place' type = linesBehind spacing place type := by
  rw [linesBehind.eq_def, linesBehind.eq_def, h.blockFollows, h.sectionFollows]

/-- A block is spaced as it shows. -/
theorem spaceBlock_view (h : place.Like place') (type : BlockType) (header : Bool)
    (items : List (Marked BodyItem)) :
    spaceBlock spacing place' type header
        (viewMarked (BodyItem.view (Statement.shown gaps)) items) =
      (spaceBlock spacing place type header items).map
        (viewMarked (BodyItem.view (Statement.shown gaps))) := by
  have hline : BodyItem.view (Statement.shown gaps)
      (.statement (Statement.emptyLine spacing.newline)) =
        .statement (Statement.emptyLine spacing.newline) :=
    congrArg BodyItem.statement (Statement.shown_emptyLine spacing.newline)
  rw [spaceBlock, spaceBlock]
  dsimp only
  rw [lastMark_viewMarked, tidy_view isEmptyItem_view, stripEnd_view isEmptyItem_view,
    length_viewMarked, h.blockFollows, linesBehind_like h]
  split
  · exact keepSome_view _ _ _
  · rw [splitClosing_view, stripEnd_view isEmptyItem_view]
    exact withPadding_view _ _ hline _ _

/-- Of the container of a body the type is looked at. -/
theorem leaveBody_eq (header : Bool) (items : List (Marked BodyItem)) :
    leaveBody spacing place header items =
      match place.scope.parent?.map Container.type with
      | some (.block type) => spaceBlock spacing place type header items
      | _ => spaceBody items := by
  rw [leaveBody]
  cases place.scope.parent? with
  | none => rfl
  | some c => cases c <;> rfl

/-- A body is left as it shows. -/
theorem leaveBody_view (h : place.Like place') (header : Bool) (items : List (Marked BodyItem)) :
    leaveBody spacing place' header (viewMarked (BodyItem.view (Statement.shown gaps)) items) =
      (leaveBody spacing place header items).map
        (viewMarked (BodyItem.view (Statement.shown gaps))) := by
  rw [leaveBody_eq, leaveBody_eq, h.scope.parent?]
  split
  · exact spaceBlock_view h _ header items
  · rw [spaceBody, spaceBody, collapse_view isEmptyItem_view, keepSome_view, length_viewMarked]

/-- A section is spaced as it shows. -/
theorem spaceSection_view (h : place.Like place') (header : Option Bool)
    (items : List (Marked SectionItem)) :
    spaceSection spacing place' header
        (viewMarked (SectionItem.view (Statement.shown gaps)) items) =
      (spaceSection spacing place header items).map
        (viewMarked (SectionItem.view (Statement.shown gaps))) := by
  let g : Marked SectionItem → Marked SectionItem := fun x =>
    (x.1.view (Statement.shown gaps), x.2)
  have hblock : (fun i : Marked SectionItem => i.1.isBlock) ∘ g = fun i => i.1.isBlock :=
    funext fun x => x.1.isBlock_view _
  have hnot : (fun i : Marked SectionItem => !i.1.isBlock) ∘ g = fun i => !i.1.isBlock :=
    funext fun x => congrArg (!·) (x.1.isBlock_view _)
  have hline : SectionItem.view (Statement.shown gaps)
      (.statement (Statement.emptyLine spacing.newline)) =
        .statement (Statement.emptyLine spacing.newline) :=
    congrArg SectionItem.statement (Statement.shown_emptyLine spacing.newline)
  have htake : (viewMarked (SectionItem.view (Statement.shown gaps)) items).takeWhile
      (fun i => !i.1.isBlock) = viewMarked (SectionItem.view (Statement.shown gaps))
        (items.takeWhile fun i => !i.1.isBlock) := by
    rw [viewMarked, List.takeWhile_map, hnot]
    rfl
  have hfilter : (viewMarked (SectionItem.view (Statement.shown gaps)) items).filter
      (·.1.isBlock) = viewMarked (SectionItem.view (Statement.shown gaps))
        (items.filter (·.1.isBlock)) := by
    rw [viewMarked, List.filter_map, hblock]
    rfl
  have hany : (viewMarked (SectionItem.view (Statement.shown gaps)) items).any (·.1.isBlock) =
      items.any (·.1.isBlock) := by
    rw [viewMarked, List.any_map, hblock]
  rw [spaceSection, spaceSection]
  dsimp only
  rw [lastMark_viewMarked, htake, hfilter, hany, tidy_view isEmptySectionItem_view,
    stripEnd_view isEmptySectionItem_view, length_viewMarked, h.sectionFollows]
  split
  · rw [← viewMarked_append]
    exact keepSome_view _ _ _
  · split
    · exact keepSome_view _ _ _
    · rw [isEmpty_viewMarked]
      exact withPadding_view _ _ hline _ []

end

/-- Which statement is the last shows. -/
theorem isFinal_view {gaps : SectionKind → Bool} (f : File) (n : Nat) (s : Statement)
    (shows : Bool) :
    isFinal (finalStatement? (f.view (gapView gaps))) n (s.shown shows) =
      isFinal (finalStatement? f) n s := by
  have hlength : (f.view (gapView gaps)).statements.length = f.statements.length := by
    rw [File.statements, File.statements, List.length_flatMap, List.length_flatMap]
    show ((f.sections.map (Section.view (gapView gaps))).map _).sum = _
    rw [List.map_map]
    congr 2
    funext sect
    rw [Function.comp_apply, Section.statements_view, List.length_map]
  have hlast : (f.view (gapView gaps)).sections.getLast? =
      f.sections.getLast?.map (Section.view (gapView gaps)) := List.getLast?_map
  rw [finalStatement?, finalStatement?, hlength, hlast]
  cases f.sections.getLast? with
  | none => rfl
  | some sect =>
    simp only [Option.map_some, Option.bind_some, Section.statements_view, List.getLast?_map]
    cases sect.statements.getLast? <;> rfl

/-- Spacing lines looks at no gaps. -/
theorem commutes_pass (gaps : SectionKind → Bool) : pass.Commutes (gapView gaps) := by
  refine Pass.commutes_ofTransform fun setup f hv hf => ?_
  refine
    { name := rfl
      keeps := (keepsSound_pass setup f _ hv rfl).1
      statement := fun {kind sc sc' n s} hl hs => ?_
      body := fun hl _ => leaveBody_view hl _ _
      sect := fun {kind place place' header items} hl _ _ => ?_
      file := fun _ _ => rfl }
  · have hoff : sc'.disables info.name (s.shown (gaps kind)) = sc.disables info.name s :=
      hl.disables _ rfl s.shown_directive?
    have heol : (s.shown (gaps kind)).lastEol.any (fun t => t.value != "") =
        s.lastEol.any fun t => t.value != "" := by
      rw [Statement.shown_lastEol (endsLine_of_sound hs), Option.any_map]
      rfl
    dsimp only
    rw [isFinal_view, hoff, heol, Statement.terminate_shown (endsLine_of_sound hs)]
    split <;> rfl
  · dsimp only
    rw [Option.map_map]
    exact spaceSection_view hl (header.map (·.2)) items

end EmptyLines

/-! ## All passes in front of the layout -/

namespace Pass

/-- The passes in front of those that lay lines out. -/
def front : List Pass :=
  [MergeSections.pass, OrderSettings.pass, Spelling.headerPass, Spelling.settingPass,
   UniqueTags.pass, EmptyLines.pass]

/-- **The passes in front of those that lay lines out look at no gaps.** -/
theorem commutes_front (gaps : SectionKind → Bool) : ∀ p ∈ front, p.Commutes (gapView gaps) := by
  simp only [front, List.forall_mem_cons, List.not_mem_nil, false_imp_iff, implies_true, and_true]
  exact ⟨MergeSections.commutes_pass gaps, OrderSettings.commutes_pass gaps,
    Spelling.commutes_headerPass gaps, Spelling.commutes_settingPass gaps,
    UniqueTags.commutes_pass gaps, EmptyLines.commutes_pass gaps⟩

end Pass

end RobotSuite
