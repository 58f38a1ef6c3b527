/-
# The last line of a section

A section that is moved away from the end of a file gets a line break at its end
(`Section.terminate`).  In a section that is read, this is put behind the last statement, whatever
blocks around it are left open, unless that is the header of a control block or branch in which
nothing stands: then no line break is put anywhere (`Section.IsTyped.statements_terminate`).  So the
text of the section is completed by the line break where it lacks one, except behind such a header,
and nothing else changes (`section_completed`, `section_not_completed`).
-/

import RobotSuite.Proofs.Tree.Fresh
import RobotSuite.Proofs.Tree.SectionReading

namespace RobotSuite

/-! ## What a line break leaves as it is -/

section
variable (newline : String)

/-- Ending its line keeps a statement's outline. -/
theorem Statement.outline_terminate (s : Statement) :
    (s.terminate newline).outline = s.outline := by
  obtain ⟨hdata, hcomments⟩ := texts_terminate newline s
  rw [outline, outline, terminate_type, hdata, hcomments]

mutual

/-- The same for a body item. -/
theorem BodyItem.outline_terminate : ∀ item : BodyItem,
    (item.terminate newline).outline = item.outline
  | .statement s => by
    rw [BodyItem.terminate, BodyItem.outline, BodyItem.outline, s.outline_terminate]
  | .control c => by
    rw [BodyItem.terminate, BodyItem.outline, BodyItem.outline, c.outline_terminate]

/-- The same for a control block. -/
theorem ControlBlock.outline_terminate : ∀ c : ControlBlock,
    (c.terminate newline).outline = c.outline
  | ⟨_, _, _, _, _, some close, _⟩ => by
    rw [ControlBlock.terminate, ControlBlock.outline, ControlBlock.outline, Option.map_some,
      Option.map_some, close.outline_terminate]
  | ⟨_, _, _, body, [], none, _⟩ => by
    rw [ControlBlock.terminate, ControlBlock.outline, ControlBlock.outline,
      bodyOutline_terminate body]
  | ⟨_, _, _, _, b :: bs, none, _⟩ => by
    rw [ControlBlock.terminate, ControlBlock.outline, ControlBlock.outline,
      branchesOutline_terminate (b :: bs)]

/-- The same for a body. -/
theorem bodyOutline_terminate : ∀ items : List BodyItem,
    bodyOutline (terminateBody newline items) = bodyOutline items
  | [] => by rw [terminateBody]
  | [item] => by simp only [terminateBody, bodyOutline, item.outline_terminate]
  | item :: next :: rest => by
    rw [terminateBody, bodyOutline, bodyOutline_terminate (next :: rest),
      bodyOutline.eq_def (item :: next :: rest)]

/-- The same for the branches of a block. -/
theorem branchesOutline_terminate : ∀ bs : List Branch,
    branchesOutline (terminateBranches newline bs) = branchesOutline bs
  | [] => by rw [terminateBranches]
  | [⟨_, _, body, _⟩] => by
    simp only [terminateBranches, branchesOutline, Branch.outline, bodyOutline_terminate body]
  | b :: next :: rest => by
    rw [terminateBranches, branchesOutline, branchesOutline_terminate (next :: rest),
      branchesOutline.eq_def (b :: next :: rest)]

end

/-- The same for an item of a section. -/
theorem SectionItem.outline_terminate (item : SectionItem) :
    (item.terminate newline).outline = item.outline := by
  cases item with
  | statement s => exact s.outline_terminate newline
  | block b =>
    rw [SectionItem.terminate, SectionItem.outline, SectionItem.outline, Block.outline,
      Block.outline, Block.terminate]
    split
    · rw [b.header.outline_terminate]
    · rw [bodyOutline_terminate]

/-- A line break at the end of a section leaves its statements and blocks as they are. -/
theorem Section.outline_terminate (s : Section) : (s.terminate newline).outline = s.outline := by
  rw [Section.terminate]
  split
  · have hheader : (s.header.map (·.terminate newline)).map Statement.outline =
        s.header.map Statement.outline := by
      rw [Option.map_map]
      exact Option.map_congr fun r _ => r.outline_terminate newline
    rw [Section.outline, Section.outline, hheader]
  · rename_i last hlast
    obtain ⟨front, hbody⟩ := List.getLast?_eq_some_iff.1 hlast
    rw [Section.outline, Section.outline, hbody, List.dropLast_concat, List.map_append,
      List.map_append, List.map_singleton, List.map_singleton, last.outline_terminate]

end

/-! ## Where the line break is put -/

/-- Whether a body stands behind statements of a type: those that head a control block or a
branch. -/
def StatementType.opensBody (t : StatementType) : Bool :=
  (ControlType.ofHeader? t).isSome || Nesting.isBranchHeader t

/-- An opener opens a body. -/
theorem opensBody_opener (c : ControlType) : c.opener.opensBody = true := by cases c <;> rfl

/-- A branch header opens a body. -/
theorem opensBody_branchHeader {c : ControlType} {t : StatementType} (h : t ∈ c.branchHeaders) :
    t.opensBody = true := by
  rw [StatementType.opensBody, ControlType.isBranchHeader_of_mem h, Bool.or_true]

/-- A plain statement opens no body. -/
theorem opensBody_of_isPlain {t : StatementType} (h : t.isPlain = true) :
    t.opensBody = false := by
  cases t <;> first | rfl | cases h

/-- Whether the last of some statements is the header of a body in which nothing stands. -/
def endsBare (ss : List Statement) : Bool := ss.getLast?.any fun s => s.type.opensBody

/-- Statements with a line break at the end of the last, unless that is the header of a body. -/
def completeLast (newline : String) (ss : List Statement) : List Statement :=
  if endsBare ss then ss else endLast newline ss

section
variable {newline : String} {s : Statement}

/-- Completing two lists completes the second. -/
theorem completeLast_append (newline : String) (a : List Statement) {b : List Statement} (hb : b ≠ []) :
    completeLast newline (a ++ b) = a ++ completeLast newline b := by
  rw [completeLast, completeLast, endsBare, endsBare, List.getLast?_append_of_ne_nil a hb]
  split
  · rfl
  · exact endLast_append a hb

/-- A bare header at the end stays as it is. -/
theorem completeLast_bare (h : s.type.opensBody = true) : completeLast newline [s] = [s] :=
  if_pos h

/-- A plain statement at the end gets its line break. -/
theorem completeLast_of_plain (h : s.type.opensBody = false) :
    completeLast newline [s] = [s.terminate newline] := by
  have hplain : endsBare [s] = false := h
  rw [completeLast, hplain, if_neg Bool.false_ne_true]
  rfl

/-- Branches hold a header at least. -/
theorem branchesStatements_ne_nil (b : Branch) (bs : List Branch) :
    branchesStatements (b :: bs) ≠ [] := by
  obtain ⟨_, header, _, _⟩ := b
  rw [branchesStatements, Branch.statements]
  exact List.cons_ne_nil header _

/-- A body with an item holds a statement. -/
theorem bodyStatements_ne_nil {item : BodyItem} {items : List BodyItem} :
    bodyStatements (item :: items) ≠ [] := by
  rw [bodyStatements]
  exact List.append_ne_nil_of_left_ne_nil item.statements_ne_nil _

/-- A line break at the end of a body is one at the end of its header and its statements. -/
theorem completeLast_body (hs : s.type.opensBody = true) {items new : List BodyItem}
    (h : bodyStatements new = completeLast newline (bodyStatements items)) :
    s :: bodyStatements new = completeLast newline (s :: bodyStatements items) := by
  rw [h]
  cases items with
  | nil => exact (completeLast_bare hs).symm
  | cons item items => exact (completeLast_append newline [s] bodyStatements_ne_nil).symm

mutual

/-- Ending a typed item completes its last statement. -/
theorem BodyItem.IsTyped.statements_terminate : ∀ item : BodyItem, item.IsTyped →
    (item.terminate newline).statements = completeLast newline item.statements
  | .statement s, h => by
    rw [BodyItem.IsTyped] at h
    rw [BodyItem.terminate, BodyItem.statements, BodyItem.statements,
      completeLast_of_plain (opensBody_of_isPlain h)]
  | .control c, h => by
    rw [BodyItem.IsTyped] at h
    rw [BodyItem.terminate, BodyItem.statements, BodyItem.statements,
      ControlBlock.IsTyped.statements_terminate c h]

/-- The same for a control block. -/
theorem ControlBlock.IsTyped.statements_terminate : ∀ c : ControlBlock, c.IsTyped →
    (c.terminate newline).statements = completeLast newline c.statements
  | ⟨_, _, header, body, branches, some close, _⟩, ⟨_, _, _, hclose⟩ => by
    have hend : close.type.opensBody = false := by
      rw [hclose close rfl]
      rfl
    have hlast := completeLast_append newline
      (header :: (bodyStatements body ++ branchesStatements branches)) (List.cons_ne_nil close [])
    rw [completeLast_of_plain hend] at hlast
    rw [ControlBlock.terminate, ControlBlock.statements, ControlBlock.statements]
    exact hlast.symm
  | ⟨type, _, header, body, [], none, _⟩, ⟨hheader, hbody, _, _⟩ => by
    have hopens : header.type.opensBody = true := hheader ▸ opensBody_opener type
    rw [ControlBlock.terminate, ControlBlock.statements, ControlBlock.statements,
      branchesStatements, Option.toList_none, List.append_nil, List.append_nil, List.append_nil,
      List.append_nil]
    exact completeLast_body hopens (bodyTyped.statements_terminate body hbody)
  | ⟨type, _, header, body, b :: bs, none, _⟩, ⟨_, _, hbranches, _⟩ => by
    have hlast := completeLast_append newline (header :: bodyStatements body)
      (branchesStatements_ne_nil b bs)
    rw [ControlBlock.terminate, ControlBlock.statements, ControlBlock.statements,
      branchesTyped.statements_terminate (b :: bs) hbranches, Option.toList_none, List.append_nil,
      List.append_nil]
    exact hlast.symm

/-- The same for a body. -/
theorem bodyTyped.statements_terminate : ∀ items : List BodyItem, bodyTyped items →
    bodyStatements (terminateBody newline items) = completeLast newline (bodyStatements items)
  | [], _ => by
    rw [terminateBody, bodyStatements]
    rfl
  | [item], ⟨hitem, _⟩ => by
    simp only [terminateBody, bodyStatements, List.append_nil]
    exact BodyItem.IsTyped.statements_terminate item hitem
  | item :: next :: rest, ⟨_, hitems⟩ => by
    rw [terminateBody, bodyStatements, bodyTyped.statements_terminate (next :: rest) hitems,
      bodyStatements.eq_def (item :: next :: rest), completeLast_append newline _ bodyStatements_ne_nil]

/-- The same for the branches of a block. -/
theorem branchesTyped.statements_terminate {type : ControlType} : ∀ bs : List Branch,
    branchesTyped type bs → branchesStatements (terminateBranches newline bs) =
      completeLast newline (branchesStatements bs)
  | [], _ => by
    rw [terminateBranches, branchesStatements]
    rfl
  | [⟨_, header, body, _⟩], ⟨⟨hheader, hbody⟩, _⟩ => by
    simp only [terminateBranches, branchesStatements, Branch.statements, List.append_nil]
    exact completeLast_body (opensBody_branchHeader hheader)
      (bodyTyped.statements_terminate body hbody)
  | b :: next :: rest, ⟨_, hbs⟩ => by
    rw [terminateBranches, branchesStatements,
      branchesTyped.statements_terminate (next :: rest) hbs,
      branchesStatements.eq_def (b :: next :: rest),
      completeLast_append newline _ (branchesStatements_ne_nil next rest)]

end

/-- The same for an item of a section. -/
theorem SectionItem.IsTyped.statements_terminate {item : SectionItem} (h : item.IsTyped) :
    (item.terminate newline).statements = completeLast newline item.statements := by
  cases item with
  | statement s => exact (completeLast_of_plain (opensBody_of_isPlain h)).symm
  | block b =>
    obtain ⟨hname, hbody⟩ := h
    have hheader : b.header.type.opensBody = false := by
      rw [isBlockName, Bool.or_eq_true, decide_eq_true_eq, decide_eq_true_eq] at hname
      obtain hname | hname := hname <;> rw [hname] <;> rfl
    rw [SectionItem.terminate, SectionItem.statements, SectionItem.statements, Block.terminate]
    cases hb : b.body with
    | nil =>
      rw [List.isEmpty_nil, if_pos rfl, Block.statements, Block.statements, hb, bodyStatements,
        completeLast_of_plain hheader]
    | cons item items =>
      rw [List.isEmpty_cons, if_neg Bool.false_ne_true, Block.statements, Block.statements,
        bodyTyped.statements_terminate _ (hb ▸ hbody), hb]
      exact (completeLast_append newline [b.header] bodyStatements_ne_nil).symm

/-- **The line break is put behind the last statement,** if that is not the header of a body. -/
theorem Section.IsTyped.statements_terminate {s : Section} (h : s.IsTyped) :
    (s.terminate newline).statements = completeLast newline s.statements := by
  rw [Section.terminate]
  split
  · rename_i hnone
    rw [Section.statements, Section.statements, List.getLast?_eq_none_iff.1 hnone]
    cases hheader : s.header with
    | none => rfl
    | some r =>
      have hplain : r.type.opensBody = false := by
        rw [h.header r hheader]
        rfl
      exact (completeLast_of_plain hplain).symm
  · rename_i last hlast
    obtain ⟨front, hbody⟩ := List.getLast?_eq_some_iff.1 hlast
    have hend : (last.terminate newline).statements = completeLast newline last.statements :=
      (h.items last (List.mem_of_getLast? hlast)).statements_terminate
    have hne : last.statements ≠ [] := by
      cases last <;> exact List.cons_ne_nil _ _
    rw [Section.statements, Section.statements, hbody, List.dropLast_concat, itemsStatements,
      itemsStatements, List.flatMap_append, List.flatMap_append, List.flatMap_singleton,
      List.flatMap_singleton, hend, ← List.append_assoc, ← List.append_assoc,
      completeLast_append newline _ hne]

end

/-! ## Texts -/

/-- Whether the last of some tokens is a line break. -/
def endsInBreak (ts : List Token) : Bool := ts.getLast?.any fun t => t.isEol && t.value != ""

section
variable {newline : String} {s : Statement} {ss : List Statement}

/-- Tokens end in a break when their last ending is not empty. -/
theorem endsInBreak_iff : endsInBreak s.tokens = true ↔ ∃ e ∈ s.lastEol, e.value ≠ "" := by
  rw [endsInBreak, Statement.lastEol]
  cases s.tokens.getLast? with
  | none => simp
  | some t => simp [Option.filter_some, and_comm]

/-- Ending a line adds the newline where none is. -/
theorem text_terminate (newline : String) (s : Statement) :
    (s.terminate newline).text = if endsInBreak s.tokens then s.text else s.text ++ newline := by
  obtain ⟨hlast, heq⟩ | ⟨hlast, front, back, htokens, hback, heq⟩ := terminate_cases newline s
  · rw [heq, if_pos (endsInBreak_iff.2 hlast)]
  · have hopen : ¬ endsInBreak s.tokens = true := by
      rw [endsInBreak_iff]
      exact fun ⟨e, he, hvalue⟩ => hvalue (hlast e he)
    have hempty : renderTokens back = "" := by
      rw [← String.toList_inj, toList_renderTokens, chars, String.toList_empty,
        List.flatMap_eq_nil_iff]
      intro e he
      rw [(hback e he).2]
      rfl
    have hnew : (s.withTokens (front ++ [Token.create .eol newline])).text =
        renderTokens (front ++ [Token.create .eol newline]) := rfl
    have hend : renderTokens [Token.create .eol newline] = newline := String.empty_append
    rw [heq, if_neg hopen, hnew, Statement.text, htokens, renderTokens_append, renderTokens_append,
      hempty, hend, String.append_empty]

/-- The last statement is rendered last. -/
theorem renderStatements_concat (ss : List Statement) (s : Statement) :
    renderStatements (ss ++ [s]) = renderStatements ss ++ s.text := by
  rw [renderStatements_eq, renderStatements_eq, tokensOf, List.flatMap_append,
    List.flatMap_singleton, renderTokens_append]
  rfl

/-- The text of statements with text is completed behind the last. -/
theorem render_endLast (newline : String) (hne : ss ≠ []) (h : ∀ s ∈ ss, s.text ≠ "") :
    renderStatements (endLast newline ss) =
      if endsInBreak (tokensOf ss) then renderStatements ss else renderStatements ss ++ newline := by
  obtain rfl | ⟨front, last, rfl⟩ := List.eq_nil_or_concat ss
  · exact absurd rfl hne
  rw [List.concat_eq_append] at h ⊢
  have htokens : last.tokens ≠ [] := by
    intro hnil
    refine h last (List.mem_append_right _ List.mem_cons_self) ?_
    rw [Statement.text, hnil]
    rfl
  have hend : endLast newline (front ++ [last]) = front ++ [last.terminate newline] :=
    endLast_append front (List.cons_ne_nil last [])
  have hlast : endsInBreak (tokensOf (front ++ [last])) = endsInBreak last.tokens := by
    rw [endsInBreak, endsInBreak, tokensOf, List.flatMap_append, List.flatMap_singleton,
      List.getLast?_append_of_ne_nil _ htokens]
  rw [hend, hlast, renderStatements_concat, renderStatements_concat, text_terminate]
  split
  · rfl
  · rw [String.append_assoc]

end

/-! ## Sections of a source -/

/-- What is read from a source has a text. -/
theorem text_ne_of_parse (source : String) : ∀ s ∈ (parse source).statements, s.text ≠ "" := by
  intro s hs
  have htokens : s.tokens ∈ tokenLists (parse source).statements := List.mem_map_of_mem hs
  rw [parse, tokenLists_parseTokens] at htokens
  obtain ⟨line, hline, front, back, heq⟩ := exists_line_of_mem_groups _ htokens
  have hmem : line.map Token.piece ∈ typed (tokenize source) := List.mem_map_of_mem hline
  have htext := ((wellFormed_lines (.ofSource source)).line _ hmem).pieceText_ne_nil
  intro hempty
  rw [← String.toList_inj, toList_text, heq, chars, List.flatMap_append, List.flatMap_append,
    String.toList_empty, List.append_eq_nil_iff, List.append_eq_nil_iff] at hempty
  refine htext ?_
  rw [pieceText, List.flatMap_map]
  exact hempty.2.1

/-- No section read renders as nothing. -/
theorem render_ne_of_parse {source : String} {s : Section} (hs : s ∈ (parse source).sections) :
    s.render ≠ "" := by
  obtain ⟨r, hr⟩ := List.exists_mem_of_ne_nil _ (statements_ne_nil_of_parse source s hs)
  have htext := text_ne_of_parse source r (List.mem_flatMap.2 ⟨s, hs, hr⟩)
  intro hempty
  rw [← String.toList_inj, Section.render, renderStatements_eq, toList_renderTokens, chars,
    tokensOf, List.flatMap_assoc, String.toList_empty, List.flatMap_eq_nil_iff] at hempty
  exact htext (String.toList_inj.1 ((toList_text r).trans (hempty r hr)))

/-- **The last line of a section is completed, and nothing else is changed.**  With a line break at
its end a section of a source, whatever blocks in it are left open, has the same statements, nested
in the same way.  Its text is followed by the line break, unless it is empty, ends with a line break
already, or ends with the header of a control block or branch behind which nothing stands. -/
theorem section_completed {source : String} {s : Section} (hs : s ∈ (parse source).sections)
    (newline : String) :
    (s.terminate newline).outline = s.outline ∧
      (s.terminate newline).render =
        if s.render = "" ∨ endsInBreak (tokensOf s.statements) = true ∨
          endsBare s.statements = true then s.render else s.render ++ newline := by
  refine ⟨s.outline_terminate newline, ?_⟩
  have htext : ∀ r ∈ s.statements, r.text ≠ "" :=
    fun r hr => text_ne_of_parse source r (List.mem_flatMap.2 ⟨s, hs, hr⟩)
  have hrender : renderStatements (endLast newline s.statements) =
      if endsInBreak (tokensOf s.statements) then s.render else s.render ++ newline :=
    render_endLast newline (statements_ne_nil_of_parse source s hs) htext
  have hstatements : (s.terminate newline).render =
      renderStatements (completeLast newline s.statements) :=
    congrArg renderStatements (isTyped_parseTokens _ s hs).statements_terminate
  rw [hstatements, completeLast]
  by_cases hbare : endsBare s.statements = true
  · rw [if_pos hbare, if_pos (.inr (.inr hbare))]
    rfl
  · rw [if_neg hbare, hrender]
    refine if_congr ?_ rfl rfl
    rw [or_iff_right (render_ne_of_parse hs), or_iff_left hbare]

set_option maxRecDepth 100000 in
/-- A test whose blocks are left open gets the line break behind its last call. -/
theorem section_completed_open :
    let source := "*** Test Cases ***\nA\n    IF    x\n        FOR    y\n            Log    z"
    (parse source).sections ≠ [] ∧ ∀ s ∈ (parse source).sections,
      (s.terminate "\n").outline = s.outline ∧ (s.terminate "\n").render = source ++ "\n" := by
  intro source
  refine ⟨by decide +kernel, fun s hs => ?_⟩
  obtain ⟨houtline, hrender⟩ := section_completed hs "\n"
  have hall : ∀ s ∈ (parse source).sections, s.render = source ∧
      endsInBreak (tokensOf s.statements) = false ∧ endsBare s.statements = false := by
    decide +kernel
  obtain ⟨htext, hbreak, hbare⟩ := hall s hs
  rw [hrender, htext, hbreak, hbare]
  exact ⟨houtline, rfl⟩

set_option maxRecDepth 100000 in
/-- Behind the header of a block that is left open and in which nothing stands there is no line
break, and none is put there. -/
theorem section_not_completed :
    let source := "*** Test Cases ***\nA\n    IF    x"
    ∃ s ∈ (parse source).sections, s.render = source ∧
      endsInBreak (tokensOf s.statements) = false ∧ (s.terminate "\n").render ≠ source ++ "\n" := by
  intro source
  have hfound : (parse source).sections.any (fun s => decide (s.render = source ∧
      endsInBreak (tokensOf s.statements) = false ∧
      (s.terminate "\n").render ≠ source ++ "\n")) = true := by decide +kernel
  obtain ⟨s, hs, hsection⟩ := List.any_eq_true.1 hfound
  exact ⟨s, hs, of_decide_eq_true hsection⟩

end RobotSuite
