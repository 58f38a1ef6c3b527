/-
# Sections that are read as they are

A section is built from the tokens of its statements (`Section.part`).  If that gives the section
again, but for places, the section is read as it is (`Section.IsRead`).  So are the sections of a
source (`isRead_parse`), and others are if their statements are (`isRead_of_statements`).  The text
of a file of such sections is read as the file, but for places (`view_read_back`).  The statements
of a source stand at one place each, so none of them has a label (`label_parse`).
-/

import RobotSuite.Proofs.Format.RespacedSources
import RobotSuite.Proofs.Statement.Clear
import RobotSuite.Proofs.Tree.Fresh

namespace RobotSuite

/-- What shows of statements but for places. -/
def wholeView : View := gapView fun _ => true

/-- A statement shown with its gaps has the same text. -/
theorem Statement.shown_text (s : Statement) : (s.shown true).text = s.text := s.plain_text

/-- The text of a file shows. -/
theorem File.render_wholeView (f : File) : (f.view wholeView).render = f.render := by
  rw [render, render, f.statements_view, renderStatements, renderStatements, statements,
    List.map_flatMap, List.map_flatMap]
  congr 1
  refine List.flatMap_congr fun s _ => ?_
  rw [List.map_map]
  exact List.map_congr_left fun r _ => r.shown_text

/-- The tokens of the header of a section and of its other statements. -/
def Section.part (s : Section) : Option (List Token) × List (List Token) :=
  (s.header.map (·.tokens), tokenLists (itemsStatements s.body))

/-- Whether a section is built from the tokens of its statements. -/
def Section.IsRead (s : Section) : Prop :=
  (markedSection s.part).view wholeView = s.view wholeView

/-! ## Sections of a source -/

/-- The part a section was read from is told by it. -/
theorem part_markedSection (p : Option (List Token) × List (List Token)) :
    (markedSection p).part = p := by
  have hheader : (markedSection p).header.map (·.tokens) = p.1 := by
    rw [markedSection, (buildSection_spec p.1 p.2).1, Option.map_map]
    exact congrFun Option.map_id p.1
  have hall := tokenLists_markedSection p
  rw [Section.statements, tokenLists, List.map_append, ← Option.toList_map, hheader] at hall
  exact Prod.ext hheader (List.append_cancel_left hall)

/-- The sections of a parsed file are read. -/
theorem isRead_parse (source : String) : ∀ s ∈ (parse source).sections, s.IsRead := by
  intro s hs
  rw [parse, parseTokens_sections] at hs
  obtain ⟨p, -, rfl⟩ := List.mem_map.1 hs
  rw [Section.IsRead, part_markedSection]

/-- No section read is empty. -/
theorem statements_ne_nil_of_parse (source : String) :
    ∀ s ∈ (parse source).sections, s.statements ≠ [] := by
  intro s hs
  rw [parse, parseTokens_sections] at hs
  obtain ⟨p, hp, rfl⟩ := List.mem_map.1 hs
  have hne := splitParts_ne_nil p hp
  rw [← tokenLists_markedSection] at hne
  exact fun hnil => hne (by rw [hnil]; rfl)

/-- What is read stands at one place. -/
theorem label_parse (source : String) : ∀ s ∈ (parse source).statements, s.label = none :=
  fun s hs => (fresh_parseTokens (tokenize source) s hs).1.label

/-! ## Comments and what they belong to -/

/-- Whether a comment in front of some statements belongs to one of them. -/
def isOwned (ss : List Statement) : Bool := ownsAbove (fun s : Statement => some s.type) ss

/-- Statements of which the comments are marked as what they are. -/
def markStatements : List Statement → List Statement
  | [] => []
  | s :: ss => s.markOwned (isOwned ss) :: markStatements ss

/-- Whether each comment is marked as what it is: part of what stands below it or not. -/
def isMarked : List Statement → Prop
  | [] => True
  | s :: ss => (s.type = .comment → s.ownedByNext = isOwned ss) ∧ isMarked ss

section
variable {s : Statement} {ss : List Statement}

/-- A comment asks what follows, and anything else but an empty line owns. -/
theorem isOwned_cons : isOwned (s :: ss) =
    if s.type = .comment then isOwned ss else s.type != .emptyLine := by
  rw [isOwned, ownsAbove, bne, bne, Option.some_beq_some]
  exact if_congr (by simp) rfl rfl

/-- Only the types of statements tell what comments belong to. -/
theorem isOwned_congr {rs : List Statement} (h : rs.map (·.type) = ss.map (·.type)) :
    isOwned rs = isOwned ss := by
  induction ss generalizing rs with
  | nil => rw [List.map_eq_nil_iff.1 h]
  | cons s ss ih =>
    obtain ⟨r, rs, rfl, hr, hrs⟩ := List.map_eq_cons_iff.1 h
    rw [isOwned_cons, isOwned_cons, hr, ih hrs]

/-- Marking keeps the types. -/
theorem map_type_markStatements (ss : List Statement) :
    (markStatements ss).map (·.type) = ss.map (·.type) := by
  induction ss with
  | nil => rfl
  | cons s ss ih => rw [markStatements, List.map_cons, List.map_cons, s.markOwned_type, ih]

/-- Marked statements are marked rightly. -/
theorem isMarked_markStatements (ss : List Statement) : isMarked (markStatements ss) := by
  induction ss with
  | nil => trivial
  | cons s ss ih =>
    refine ⟨fun hc => ?_, ih⟩
    rw [s.markOwned_type] at hc
    rw [isOwned_congr (map_type_markStatements ss), Statement.markOwned, if_pos hc]

/-- Plain items are marked as their statements. -/
theorem markOwnedItems_statements (ss : List Statement) :
    markOwnedItems (ss.map .statement) = (markStatements ss).map .statement := by
  induction ss with
  | nil => rfl
  | cons s ss ih =>
    have howned : ownsAbove SectionItem.type? (ss.map .statement) = isOwned ss := by
      clear ih
      induction ss with
      | nil => rfl
      | cons r ss ih => rw [List.map_cons, ownsAbove, ih]; rfl
    rw [List.map_cons, markOwnedItems, ih, howned, markStatements, List.map_cons]

end

/-! ## Sections of statements -/

/-- A statement that is nothing but its type, its tokens and the mark of a comment. -/
structure Statement.IsPlain (s : Statement) : Prop where
  defect : s.defect = none
  label : s.label = none
  owned : s.type ≠ .comment → s.ownedByNext = false

section
variable {kind : SectionKind} {type : StatementType} {ts : List Token} {s : Statement}
  {ss : List Statement}

/-- Tokens that are read without a defect make a statement of their own. -/
theorem ReadsAs.classify_eq (h : ReadsAs kind type ts) :
    (classify kind ts).1 = Statement.create type ts := by
  obtain ⟨hknown, hline, -, hdata⟩ := readsAs_iff.1 h
  have hcheck (s : Statement) : (checkSetting s).1 = s := by
    rw [checkSetting]
    split <;> rfl
  rw [← h.1, classify, find?_unknown_eq_none.2 hknown]
  dsimp only
  rw [hline, if_neg Bool.false_ne_true]
  split
  · rfl
  · rename_i hne
    rw [(hdata (by simpa [dataTexts] using hne)).2.2, if_neg Bool.false_ne_true, hcheck]
    rfl

/-- A plain statement is shown as the one created of its tokens. -/
theorem Statement.IsPlain.shown_create (h : s.IsPlain) :
    ((Statement.create s.type s.tokens).markOwned s.ownedByNext).shown true = s.shown true := by
  obtain ⟨type, span, tokens, owned, defect, label⟩ := s
  obtain ⟨hdefect, hlabel, howned⟩ := h
  obtain rfl : defect = none := hdefect
  obtain rfl : label = none := hlabel
  by_cases hc : type = .comment
  · subst hc
    rfl
  · obtain rfl : owned = false := howned hc
    have hmark : (Statement.create type tokens).markOwned false = .create type tokens := if_neg hc
    show ((Statement.create type tokens).markOwned false).shown true = _
    rw [hmark]
    rfl

/-- Marking keeps plain statements plain. -/
theorem plain_markStatements (h : ∀ r ∈ ss, r.IsPlain) : ∀ r ∈ markStatements ss, r.IsPlain := by
  induction ss with
  | nil => simp [markStatements]
  | cons s ss ih =>
    rw [List.forall_mem_cons] at h
    refine List.forall_mem_cons.2 ⟨?_, ih h.2⟩
    rw [Statement.markOwned]
    split
    · rename_i hc
      exact ⟨h.1.defect, h.1.label, fun hne => absurd hc hne⟩
    · exact h.1

/-- **Statements are read as they are** if their tokens are read as what they are, and their
comments are marked as what they are. -/
theorem shown_markStatements (hr : ∀ r ∈ ss, ReadsAs kind r.type r.tokens)
    (hp : ∀ r ∈ ss, r.IsPlain) (hm : isMarked ss) :
    (markStatements ((tokenLists ss).map fun ts => (classify kind ts).1)).map
      (Statement.shown true) = ss.map (Statement.shown true) := by
  induction ss with
  | nil => rfl
  | cons s ss ih =>
    rw [List.forall_mem_cons] at hr hp
    have htypes : ((tokenLists ss).map fun ts => (classify kind ts).1).map (·.type) =
        ss.map (·.type) := by
      rw [tokenLists, List.map_map, List.map_map]
      exact List.map_congr_left fun r hmem => (hr.2 r hmem).1
    have hmark : (Statement.create s.type s.tokens).markOwned (isOwned ss) =
        (Statement.create s.type s.tokens).markOwned s.ownedByNext := by
      by_cases hc : s.type = .comment
      · rw [hm.1 hc]
      · rw [Statement.markOwned, Statement.markOwned]
        exact (if_neg hc).trans (if_neg hc).symm
    rw [tokenLists_cons, List.map_cons, markStatements, List.map_cons, List.map_cons,
      ih hr.2 hp.2 hm.2, isOwned_congr htypes, hr.1.classify_eq, hmark, hp.1.shown_create]

end

section
variable {p : Option (List Token) × List (List Token)} {ss : List Statement} {source : String}

/-- A section without blocks holds its statements one by one. -/
theorem buildItems_statements {kind : SectionKind} (hk : kind.blockType? = none)
    (groups : List (List Token)) : (buildItems kind groups).1 =
      (groups.map fun ts => (classify kind ts).1).map .statement := by
  rw [buildItems, hk]
  simp only [List.map_map]
  rfl

/-- **A section of statements that are read as they are is so itself.** -/
theorem isRead_of_statements (hk : (markedSection p).kind.blockType? = none)
    (hr : ∀ r ∈ ss, ReadsAs (markedSection p).kind r.type r.tokens) (hp : ∀ r ∈ ss, r.IsPlain)
    (hm : isMarked ss) : { markedSection p with body := ss.map .statement : Section }.IsRead := by
  have hpart : ({ markedSection p with body := ss.map .statement } : Section).part =
      (p.1, tokenLists ss) := by
    have hheader := congrArg Prod.fst (part_markedSection p)
    exact Prod.ext hheader (congrArg tokenLists (itemsStatements_map_statement ss))
  have hview (p : Option (List Token) × List (List Token)) :
      (markedSection p).view wholeView = _ := markedSection_view p
  have hheader : (markedSection p).header.map (Statement.shown true) =
      p.1.map fun ts => (Statement.create .sectionHeader ts).shown true :=
    congrArg Section.header (hview p)
  have hbody : markOwnedItems ((buildItems (kindOfHeader p.1) (tokenLists ss)).1.map
      (SectionItem.view (Statement.shown true))) =
        (ss.map .statement).map (SectionItem.view (Statement.shown true)) := by
    rw [kind_markedSection] at hk hr
    rw [buildItems_statements hk, ← map_view_markOwnedItems, markOwnedItems_statements,
      List.map_map, List.map_map]
    have hshown := congrArg (List.map SectionItem.statement) (shown_markStatements hr hp hm)
    rwa [List.map_map, List.map_map] at hshown
  rw [Section.IsRead, hpart, hview, hbody, ← hheader, ← kind_markedSection]
  rfl

/-- The statements of a section without blocks. -/
theorem statements_of_parse (hp : (parse source).errors = []) {s : Section}
    (hs : s ∈ (parse source).sections) (hk : s.kind.blockType? = none) :
    ∃ ss, s.body = ss.map .statement ∧ isMarked ss ∧ ∀ r ∈ ss, r.IsPlain := by
  rw [parse, parseTokens_sections] at hs
  obtain ⟨p, hmem, rfl⟩ := List.mem_map.1 hs
  rw [parse, parseTokens_errors, List.flatMap_eq_nil_iff] at hp
  obtain ⟨-, hbody, -, herrors⟩ := buildSection_spec p.1 p.2
  have hread := buildItems_classify (herrors (hp p hmem)).1
  refine ⟨_, ?_, isMarked_markStatements
    (p.2.map fun ts => (classify (markedSection p).kind ts).1), ?_⟩
  · rw [← markOwnedItems_statements, ← buildItems_statements hk]
    exact congrArg markOwnedItems hbody
  · refine plain_markStatements (List.forall_mem_map.2 fun ts hts => ?_)
    rw [List.flatMap_map, List.flatMap_eq_nil_iff] at hread
    have hreads : ReadsAs (markedSection p).kind _ ts := ⟨rfl, hread ts hts⟩
    rw [hreads.classify_eq]
    exact ⟨rfl, rfl, fun _ => rfl⟩

end

/-! ## Files of such sections -/

section
variable {f : File}

/-- A file is cut into its sections. -/
theorem splitParts_sections {ss : List Section} (hs : ∀ s ∈ ss, s.IsSound)
    (hh : ∀ s ∈ ss, s.header ≠ none) :
    (∀ ts ∈ (tokenLists (ss.flatMap Section.statements)).head?, isHeaderLine ts = true) ∧
      splitParts isHeaderLine (tokenLists (ss.flatMap Section.statements)) =
        ss.map Section.part := by
  induction ss with
  | nil => simp [splitParts]
  | cons s ss ih =>
    rw [List.forall_mem_cons] at hs hh
    obtain ⟨hhead, hparts⟩ := ih hs.2 hh.2
    obtain ⟨h, hheader⟩ := Option.ne_none_iff_exists'.1 hh.1
    have hopens : isHeaderLine h.tokens = true := isHeaderLine_of_laid (hs.1.header h hheader).laid
    have hitems : ∀ ts ∈ tokenLists (itemsStatements s.body), isHeaderLine ts = false := by
      intro ts hts
      obtain ⟨r, hr, rfl⟩ := List.mem_map.1 hts
      exact isHeaderLine_of_laid (hs.1.items_laid r hr)
    have hcut : tokenLists ((s :: ss).flatMap Section.statements) = h.tokens ::
        (tokenLists (itemsStatements s.body) ++ tokenLists (ss.flatMap Section.statements)) := by
      rw [List.flatMap_cons, Section.statements, hheader]
      simp [tokenLists]
    rw [hcut]
    refine ⟨by simpa using hopens, ?_⟩
    rw [splitParts_cons hopens hitems hhead, hparts, List.map_cons, Section.part, hheader]
    rfl

/-- The sections of a file are those into which its statements are cut, if only the first may be
without header and none is without statements. -/
theorem File.IsSound.splitParts (h : f.IsSound) (hh : ∀ s ∈ f.sections.tail, s.header ≠ none)
    (hne : ∀ s ∈ f.sections, s.statements ≠ []) :
    RobotSuite.splitParts isHeaderLine (tokenLists f.statements) = f.sections.map Section.part := by
  have hs := h.sections
  rw [File.statements]
  generalize f.sections = ss at hs hh hne
  cases ss with
  | nil => rfl
  | cons s ss =>
    rw [List.forall_mem_cons] at hs hne
    cases hheader : s.header with
    | some r =>
      exact (splitParts_sections (List.forall_mem_cons.2 hs)
        (List.forall_mem_cons.2 ⟨by simp [hheader], hh⟩)).2
    | none =>
      obtain ⟨hhead, hparts⟩ := splitParts_sections hs.2 hh
      have hstatements : s.statements = itemsStatements s.body := by
        rw [Section.statements, hheader]
        rfl
      have hitems : tokenLists s.statements ≠ [] := by simpa [tokenLists] using hne.1
      have hcut : tokenLists ((s :: ss).flatMap Section.statements) =
          tokenLists s.statements ++ tokenLists (ss.flatMap Section.statements) :=
        List.map_append
      rw [hcut, splitParts_append hitems (fun ts hts => ?_) hhead, hparts, List.map_cons,
        Section.part, hheader, hstatements]
      · rfl
      · obtain ⟨r, hr, rfl⟩ := List.mem_map.1 hts
        exact isHeaderLine_of_laid (hs.1.items_laid r (hstatements ▸ hr))

/-- **The text of a file of sections that are read as they are is read as the file.** -/
theorem File.IsSound.view_read_back (h : f.IsSound) (hi : f.issues = []) (hl : f.Legible)
    (hne : ∀ s ∈ f.sections, s.statements ≠ []) (hr : ∀ s ∈ f.sections, s.IsRead) :
    (parse f.render).sections.map (Section.view wholeView) =
      f.sections.map (Section.view wholeView) := by
  have hbare : showTokens true = List.map Token.bare := funext showTokens_true
  have hheader : (fun ts => isHeaderLine (showTokens true ts)) = isHeaderLine :=
    funext fun ts => isHeaderLine_showTokens ts
  have hcut (gs : List (List Token)) :
      (RobotSuite.splitParts isHeaderLine gs).map (viewPart (showTokens true)) =
        RobotSuite.splitParts isHeaderLine (gs.map (showTokens true)) := by
    rw [splitParts_map, hheader]
  have hgroups : ((groupLines (tokenize f.render)).map List.flatten).map (showTokens true) =
      (tokenLists f.statements).map (showTokens true) := by
    rw [hbare, h.bare_groups hi hl, tokenLists, List.map_map]
    rfl
  have hparts : (sectionParts (tokenize f.render)).map (viewPart (showTokens true)) =
      (f.sections.map Section.part).map (viewPart (showTokens true)) := by
    rw [← h.splitParts (header_of_mem_tail hi) hne, sectionParts, hcut, hcut, hgroups]
  have hview := map_congr_of_map (fun p q => @view_markedSection true p q) hparts
  have hsections : (parse f.render).sections =
      (sectionParts (tokenize f.render)).map markedSection := parseTokens_sections _
  rw [hsections, List.map_map]
  refine hview.trans ?_
  rw [List.map_map]
  exact List.map_congr_left fun s hs => hr s hs

end

end RobotSuite
