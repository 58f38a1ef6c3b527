/-
# Clear statements

A statement is clear if nothing is wrong with it and its text is not read as anything else: it
has a text, it starts with an asterisk only if it is a header, and no comment stands behind its
data (`Statement.IsClear`).  The statements of a valid source are clear (`clear_parse`), and so are
those that moving them about makes of them: with a line break at the end, an empty line, or the
comment of a header on a line of its own.

A section is clear if it is sound, its statements are clear and stand in front of its blocks, and
only the last of them may lack a line break (`Section.IsClear`).  A file of such sections is neither
refused (`File.issues_of_clear`) nor read back as another one (`File.read_back_of_clear`).
-/

import RobotSuite.Proofs.Format.MovePasses
import RobotSuite.Proofs.Tree.Legibility
import RobotSuite.Proofs.Tree.ValidSources

namespace RobotSuite

/-- A statement with which nothing is wrong and whose text is not read as anything else. -/
structure Statement.IsClear (s : Statement) : Prop where
  flaws : s.flaws = []
  /-- Nothing but a header starts with an asterisk. -/
  asterisk : s.type ≠ .sectionHeader → startsWithAsterisk s.text.toList = false
  /-- The name of a header does. -/
  header : s.type = .sectionHeader → (dataTexts s.tokens).head?.any (fun v => decide (IsStarred v))
  /-- The last line does not hold a comment alone, if there is any data. -/
  comment : s.data ≠ [] → ∀ line ∈ (splitLines s.tokens).getLast?, isCommentLine line = false
  text : s.text ≠ ""

section
variable {s : Statement} {newline : String}

/-! ## Statements with another end -/

/-- The lines of tokens in front of a line ending do not depend on it. -/
theorem splitLines_ends (ts : List Token) :
    ∃ init us, ∀ e : Token, e.kind = .eol → splitLines (ts ++ [e]) = init ++ [us ++ [e]] := by
  induction ts with
  | nil => exact ⟨[], [], fun e he => by simp [splitLines, Token.isEol, he]⟩
  | cons t ts ih =>
    obtain ⟨init, us, hl⟩ := ih
    cases ht : t.isEol with
    | true =>
      refine ⟨[t] :: init, us, fun e he => ?_⟩
      rw [List.cons_append, splitLines, if_pos ht, hl e he]
      rfl
    | false =>
      have hne : ¬ t.isEol = true := by simp [ht]
      cases init with
      | nil =>
        refine ⟨[], t :: us, fun e he => ?_⟩
        rw [List.cons_append, splitLines, if_neg hne, hl e he]
        rfl
      | cons line init =>
        refine ⟨(t :: line) :: init, us, fun e he => ?_⟩
        rw [List.cons_append, splitLines, if_neg hne, hl e he]
        rfl

/-- A statement without flaws, with a line break at its end. -/
theorem terminate_of_flaws (h : s.flaws = []) (newline : String) : s.terminate newline = s ∨
    ∃ ts e, s.tokens = ts ++ [e] ∧ e.kind = .eol ∧
      s.terminate newline = s.withTokens (ts ++ [Token.create .eol newline]) := by
  obtain ⟨ts, e, hs, he, -⟩ := concat_of_flaws h
  have hlast : s.lastEol = some e := by
    rw [Statement.lastEol, hs, List.getLast?_concat, Option.filter_some, Token.isEol, he]
    rfl
  rw [Statement.terminate, hlast]
  dsimp only
  split
  · exact .inr ⟨ts, e, hs, he, by rw [hs, List.dropLast_concat]⟩
  · exact .inl rfl

/-- A line ending is no data. -/
theorem data_ending (ts : List Token) {e : Token} (he : e.kind = .eol) :
    dataTokens (ts ++ [e]) = dataTokens ts := by
  simp [dataTokens, Token.isData, TokenKind.isData, he]

/-- Flaws do not depend on the line ending of a statement. -/
theorem flaws_ending {ts : List Token} {e : Token} (h : s.flaws = []) (hs : s.tokens = ts ++ [e])
    (he : e.kind = .eol) (newline : String) :
    (s.withTokens (ts ++ [Token.create .eol newline])).flaws = [] := by
  have hparts := h
  rw [Statement.flaws, List.append_eq_nil_iff, List.append_eq_nil_iff] at hparts
  obtain ⟨⟨-, htokens⟩, hmarker⟩ := hparts
  obtain ⟨hbroken, hinner⟩ := tokenFlaws_eq_nil htokens
  rw [hs, List.dropLast_concat] at hinner
  rw [hs, List.forall_mem_append] at hbroken
  generalize hr : s.withTokens (ts ++ [Token.create .eol newline]) = r
  have hrtokens : r.tokens = ts ++ [Token.create .eol newline] := by rw [← hr]; rfl
  have htype : r.type = s.type := by rw [← hr]; rfl
  have hlast : r.lastEol = some (.create .eol newline) := by
    rw [Statement.lastEol, hrtokens, List.getLast?_concat]
    rfl
  have hdata : r.data = s.data := by
    rw [Statement.data, Statement.data, hrtokens, hs, data_ending ts he, data_ending ts rfl]
  have hname : r.name = s.name := by
    rw [Statement.name, Statement.name, Statement.assign, Statement.assign, htype, hdata]
  rw [Statement.flaws, hlast, htype, hname, hmarker, hrtokens, tokenFlaws_of]
  · rfl
  · refine List.forall_mem_append.2 ⟨hbroken.1, fun t ht hk => ?_⟩
    exact absurd (by rw [List.mem_singleton.1 ht]; rfl) hk
  · rw [List.dropLast_concat]
    exact hinner

/-- **A statement with a line break at its end is as clear as before.** -/
theorem Statement.IsClear.terminate (h : s.IsClear)
    (hn : newline = "\n" ∨ newline = "\r\n") : (s.terminate newline).IsClear := by
  rcases terminate_of_flaws h.flaws newline with heq | ⟨ts, e, hs, he, heq⟩
  · rwa [heq]
  have hdata : (s.withTokens (ts ++ [Token.create .eol newline])).data = s.data := by
    rw [Statement.data, Statement.data, hs, data_ending ts he]
    exact data_ending ts rfl
  have htext : (s.withTokens (ts ++ [Token.create .eol newline])).text.toList =
      chars ts ++ newline.toList := by
    rw [toList_text]
    simp [Statement.withTokens, chars, Token.create]
  have hbreak : newline.toList ≠ [] ∧ startsWithAsterisk newline.toList = false := by
    rcases hn with rfl | rfl <;> decide
  rw [heq]
  refine ⟨flaws_ending h.flaws hs he newline, fun htype => ?_, fun htype => ?_, fun hd => ?_,
    fun hempty => ?_⟩
  · have hold := h.asterisk htype
    rw [toList_text, hs, chars_append] at hold
    rw [htext]
    cases hts : chars ts with
    | nil => exact hbreak.2
    | cons c cs =>
      rw [hts] at hold
      exact hold
  · have hsame : dataTexts (s.withTokens (ts ++ [Token.create .eol newline])).tokens =
        dataTexts s.tokens := congrArg (List.map Token.value) hdata
    rw [hsame]
    exact h.header htype
  · obtain ⟨init, us, hlines⟩ := splitLines_ends ts
    have hold := h.comment (hdata ▸ hd)
    rw [hs, hlines e he] at hold
    intro line hline
    have htokens : (s.withTokens (ts ++ [Token.create .eol newline])).tokens =
        ts ++ [Token.create .eol newline] := rfl
    rw [htokens, hlines _ rfl, List.getLast?_concat] at hline
    obtain rfl := Option.some.inj hline
    have hlast := hold (us ++ [e]) (by rw [List.getLast?_concat]; rfl)
    simpa [isCommentLine, Token.isComment, Token.isData, Token.isContinuation, TokenKind.isData, he,
      Token.create] using hlast
  · have hnil := congrArg String.toList hempty
    rw [htext] at hnil
    exact hbreak.1 (List.append_eq_nil_iff.1 hnil).2

/-- An empty line is clear. -/
theorem isClear_emptyLine (hn : newline = "\n" ∨ newline = "\r\n") :
    (Statement.emptyLine newline).IsClear := by
  rcases hn with rfl | rfl <;>
    exact ⟨by decide, by decide, by decide, by decide, by decide⟩

/-- The comment of a clear header is clear on a line of its own. -/
theorem MergeSections.isClear_headerComment {sect : Section} (h : sect.IsSound)
    (hc : ∀ r ∈ sect.header, r.IsClear) :
    ∀ r ∈ itemsStatements (headerComment newline sect), r.IsClear := by
  intro r hr
  obtain ⟨header, hheader, c, hmem, rfl⟩ := mem_headerComment hr
  obtain ⟨hk, hcomment⟩ := (h.header header hheader).laid.commentTokens c hmem
  have hbroken : isUnbroken c.value.toList = true := by
    have hflaws := (hc header hheader).flaws
    rw [Statement.flaws, List.append_eq_nil_iff, List.append_eq_nil_iff] at hflaws
    exact (tokenFlaws_eq_nil hflaws.1.2).1 c (List.mem_filter.1 hmem).1 (by simp [hk])
  have htext : (Statement.create .comment [c, .create .eol newline]).text.toList =
      c.value.toList ++ newline.toList := by
    rw [toList_text]
    simp [Statement.create, chars, Token.create]
  obtain ⟨d, cs, hvalue⟩ : ∃ d cs, c.value.toList = d :: cs := by
    cases hv : c.value.toList with
    | nil =>
      have := hcomment.starts
      rw [hv] at this
      cases this
    | cons d cs => exact ⟨d, cs, rfl⟩
  obtain rfl : d = '#' := by
    have := hcomment.starts
    rw [hvalue] at this
    exact Option.some.inj this
  rw [hvalue, List.cons_append] at htext
  have htype : (Statement.create .comment [c, .create .eol newline]).type ≠ .sectionHeader := by
    simp [Statement.create]
  refine ⟨?_, fun _ => ?_, (absurd · htype), fun hdata => absurd ?_ hdata, fun hempty => ?_⟩
  · have hbreaks : ∀ t ∈ [c, Token.create .eol newline], t.kind ≠ .eol →
        isUnbroken t.value.toList = true := by
      simp [hbroken, Token.create]
    have hends : ∀ t ∈ [c, Token.create .eol newline].dropLast, t.kind = .eol → t.value ≠ "" := by
      simp [hk]
    rw [Statement.flaws]
    show _ ++ tokenFlaws .comment [c, .create .eol newline] ++ _ = []
    rw [tokenFlaws_of hbreaks hends]
    rfl
  · rw [htext]
    rfl
  · show dataTokens [c, .create .eol newline] = []
    simp [dataTokens, Token.isData, TokenKind.isData, hk, Token.create]
  · rw [hempty] at htext
    cases htext

end

/-! ## Files of clear statements -/

/-- **The statements of a valid source are clear.** -/
theorem clear_parse {source : String} (hp : (parse source).errors = [])
    (hi : (parse source).issues = []) : ∀ s ∈ (parse source).statements, s.IsClear := by
  have hsound := sound_parse hp
  have hsource : (parse source).render = source := render_parse source
  have hc : (parse (parse source).render).errors = [] := by rw [hsource]; exact hp
  have ho : (parse (parse source).render).outline = (parse source).outline := by rw [hsource]
  have hl := hsound.legible_of_read_back hi hc ho
  intro s hs
  refine ⟨flaws_of_mem_statements hi s hs, fun htype => ?_, fun htype => ?_, hl.comments s hs,
    fun htext => ?_⟩
  · rw [hl.asterisks s hs, beq_eq_false_iff_ne]
    exact htype
  · have hlaid := hsound.laid s hs
    rw [htype, beq_self_eq_true] at hlaid
    rw [← hlaid.startsWithAsterisk_header, ← toList_text, hl.asterisks s hs, htype,
      beq_self_eq_true]
  obtain ⟨l, hlines⟩ := List.exists_mem_of_ne_nil _ (hsound.laid s hs).ne_nil
  refine hsound.chars_of_read_back hi hc ho l (List.mem_flatMap.2 ⟨s, hs, hlines⟩) ?_
  have hnil : chars s.tokens = [] := by
    rw [← toList_text, htext]
    rfl
  rw [← flatten_splitLines s.tokens, chars, List.flatMap_eq_nil_iff] at hnil
  rw [chars, List.flatMap_eq_nil_iff]
  exact fun t ht => hnil t (List.mem_flatten.2 ⟨l, hlines, ht⟩)

/-! ## Line breaks at the end of sections -/

/-- Statements with a line break at the end of the last. -/
def endLast (newline : String) (ss : List Statement) : List Statement :=
  ss.dropLast ++ (ss.getLast?.map (·.terminate newline)).toList

section
variable {newline : String} {P : Statement → Prop}

/-- Ending the last line of two lists ends that of the second. -/
theorem endLast_append (a : List Statement) {b : List Statement} (hb : b ≠ []) :
    endLast newline (a ++ b) = a ++ endLast newline b := by
  rw [endLast, endLast, List.dropLast_append_of_ne_nil hb, List.getLast?_append_of_ne_nil _ hb,
    List.append_assoc]

/-- If all statements but the last end with line breaks, all do when the last gets one. -/
theorem forall_endLast (hn : newline ≠ "") {ss : List Statement} (h : separated ss) :
    ∀ s ∈ endLast newline ss, s.isUnterminated = false := by
  intro s hs
  rcases List.mem_append.1 hs with hs | hs
  · exact h s hs
  · obtain ⟨r, -, rfl⟩ := Option.map_eq_some_iff.1 (Option.mem_toList.1 hs)
    exact isUnterminated_terminate hn r

/-- A body item holds a statement. -/
theorem BodyItem.statements_ne_nil (item : BodyItem) : item.statements ≠ [] := by
  cases item with
  | statement s => simp [BodyItem.statements]
  | control c =>
    cases c
    simp [BodyItem.statements, ControlBlock.statements]

/-- Ending an item ends its last statement. -/
theorem BodyItem.Holds.statements_terminate (newline : String) {item : BodyItem}
    (h : item.Holds P) :
    (item.terminate newline).statements = endLast newline item.statements := by
  cases item with
  | statement s => rfl
  | control c =>
    obtain ⟨type, span, header, body, branches, close, label⟩ := c
    rw [BodyItem.Holds, ControlBlock.Holds] at h
    obtain ⟨-, -, -, s, rfl, -, -⟩ := h
    rw [BodyItem.terminate, ControlBlock.terminate, BodyItem.statements, BodyItem.statements,
      ControlBlock.statements, ControlBlock.statements]
    exact (endLast_append (header :: (bodyStatements body ++ branchesStatements branches))
      (List.cons_ne_nil s [])).symm

/-- Ending a body ends its last statement. -/
theorem bodyStatements_terminateBody (newline : String) {items : List BodyItem}
    (h : bodyHolds P items) :
    bodyStatements (terminateBody newline items) = endLast newline (bodyStatements items) := by
  induction items with
  | nil => rfl
  | cons item items ih =>
    rw [bodyHolds] at h
    cases items with
    | nil =>
      simpa [terminateBody, bodyStatements] using h.1.statements_terminate newline
    | cons next rest =>
      have hne : bodyStatements (next :: rest) ≠ [] := by
        rw [bodyStatements]
        exact List.append_ne_nil_of_left_ne_nil next.statements_ne_nil _
      rw [terminateBody, bodyStatements, ih h.2, bodyStatements.eq_def (item :: next :: rest),
        endLast_append _ hne]

/-- Ending an item of a section ends its last statement. -/
theorem SectionItem.Holds.statements_terminate (newline : String) {kind : SectionKind}
    {item : SectionItem} (h : item.Holds P kind) :
    (item.terminate newline).statements = endLast newline item.statements := by
  cases item with
  | statement s => rfl
  | block b =>
    rw [SectionItem.terminate, SectionItem.statements, SectionItem.statements, Block.terminate]
    cases hb : b.body with
    | nil => simp [Block.statements, hb, bodyStatements, endLast]
    | cons item items =>
      have hne : bodyStatements b.body ≠ [] := by
        rw [hb, bodyStatements]
        exact List.append_ne_nil_of_left_ne_nil item.statements_ne_nil _
      have hend := bodyStatements_terminateBody newline h.2
      rw [← hb, if_neg (by simp [hb]), Block.statements, Block.statements, hend]
      exact (endLast_append [b.header] hne).symm

/-- A sound section that gets a line break at its end gets it behind its last statement. -/
theorem Section.IsSound.statements_terminate (newline : String) {s : Section} (h : s.IsSound) :
    (s.terminate newline).statements = endLast newline s.statements := by
  rw [Section.terminate]
  split
  · rename_i hnone
    rw [Section.statements, Section.statements, List.getLast?_eq_none_iff.1 hnone]
    cases s.header <;> rfl
  · rename_i last hlast
    obtain ⟨front, hbody⟩ := List.getLast?_eq_some_iff.1 hlast
    have hend := (h.items last (List.mem_of_getLast? hlast)).statements_terminate newline
    have hne : last.statements ≠ [] := by
      cases last <;> simp [SectionItem.statements, Block.statements]
    rw [Section.statements, Section.statements, hbody, List.dropLast_concat, itemsStatements,
      itemsStatements, List.flatMap_append, List.flatMap_append, List.flatMap_singleton,
      List.flatMap_singleton, hend, ← List.append_assoc, ← List.append_assoc, endLast_append _ hne]

end

/-! ## Sections of clear statements -/

/-- A sound section of clear statements, all in front of its blocks and all but the last with line
breaks at their ends, that can be checked. -/
structure Section.IsClear (s : Section) : Prop where
  sound : s.IsSound
  checkable : s.isUncheckable = false
  leads : leadsBlocks s.body
  clear : ∀ r ∈ s.statements, r.IsClear
  separated : separated s.statements

/-- **The sections of a valid source are clear.** -/
theorem clear_sections {source : String} (hp : (parse source).errors = [])
    (hi : (parse source).issues = []) : ∀ s ∈ (parse source).sections, s.IsClear := by
  intro s hs
  have hseparated := (separated_parse hp).1
  obtain ⟨front, back, hsplit⟩ := List.append_of_mem hs
  rw [File.statements, hsplit, List.flatMap_append, List.flatMap_cons] at hseparated
  have hcheck := List.any_eq_false.1 (File.isUncheckable_of_issues hi) s hs
  exact ⟨(sound_parse hp).sections s hs, Bool.eq_false_iff.2 hcheck, (parse_sections source).1 s hs,
    fun r hr => clear_parse hp hi r (List.mem_flatMap.2 ⟨s, hs, hr⟩), hseparated.right.front⟩

section
variable {newline : String}

/-- A line break at the end does not change whether a section can be checked. -/
theorem isUncheckable_terminate (s : Section) :
    (s.terminate newline).isUncheckable = s.isUncheckable := by
  rw [Section.terminate]
  split
  · rfl
  · rename_i last hlast
    obtain ⟨front, hbody⟩ := List.getLast?_eq_some_iff.1 hlast
    rw [Section.isUncheckable, Section.isUncheckable, RobotSuite.isUncheckable,
      RobotSuite.isUncheckable, hbody, List.dropLast_concat]
    cases last <;> simp [SectionItem.terminate, SectionItem.isBlock]

/-- Ending a section keeps what leads its blocks. -/
theorem leadsBlocks_terminate {s : Section} (h : leadsBlocks s.body) :
    leadsBlocks (s.terminate newline).body := by
  obtain ⟨lead, blocks, hbody⟩ := h
  rw [Section.terminate]
  split
  · exact ⟨lead, blocks, hbody⟩
  · rename_i last hlast
    rw [hbody] at hlast
    rcases List.eq_nil_or_concat blocks with rfl | ⟨front, b, rfl⟩
    · rcases List.eq_nil_or_concat lead with rfl | ⟨front, r, rfl⟩
      · cases hlast
      · obtain rfl : SectionItem.statement r = last := by simpa using hlast
        exact ⟨front ++ [r.terminate newline], [], by simp [hbody, SectionItem.terminate]⟩
    · obtain rfl : SectionItem.block b = last := by simpa using hlast
      refine ⟨lead, front ++ [b.terminate newline], ?_⟩
      have hfront : s.body = (lead.map .statement ++ front.map .block) ++ [.block b] := by
        simp [hbody]
      simp [hfront, SectionItem.terminate]

/-- A clear section that gets a line break at its end is clear. -/
theorem Section.IsClear.terminate (hn : newline = "\n" ∨ newline = "\r\n") {s : Section}
    (h : s.IsClear) : (s.terminate newline).IsClear := by
  have hbreak : IsBreak (.create .eol newline) := ⟨rfl, hn.imp_right .inl⟩
  have hne : newline ≠ "" := by rcases hn with rfl | rfl <;> decide
  have hend := h.sound.statements_terminate newline
  refine ⟨h.sound.terminate hbreak, (isUncheckable_terminate s).trans h.checkable,
    leadsBlocks_terminate h.leads, ?_,
    separated_of_forall (hend ▸ forall_endLast hne h.separated)⟩
  exact (s.completed_terminate newline).forall (fun _ hr => hr.terminate hn) h.clear

end

/-- **A sound file of clear statements is legible.** -/
theorem File.IsSound.legible_of_clear {f : File} (hf : f.IsSound)
    (h : ∀ s ∈ f.statements, s.IsClear) : f.Legible := by
  refine ⟨fun s hs => ?_, fun s hs => (h s hs).comment,
    fun s hs => (h s (List.mem_of_getLast? hs)).text⟩
  have hlaid := hf.laid s hs
  cases htype : s.type == .sectionHeader with
  | false => exact (h s hs).asterisk (beq_eq_false_iff_ne.1 htype)
  | true =>
    rw [htype] at hlaid
    rw [toList_text, hlaid.startsWithAsterisk_header]
    exact (h s hs).header (beq_iff_eq.1 htype)

section
variable {f : File} (h : ∀ s ∈ f.sections, s.IsClear)
  (hh : ∀ s ∈ f.sections.tail, s.header ≠ none) (hs : separated f.statements)

/-- Behind a header without line break stands nothing if all statements but the last have one. -/
theorem headersEnd_of_separated {ss : List Section} (hs : separated (ss.flatMap Section.statements))
    (hh : ∀ s ∈ ss.tail, s.header ≠ none) : headersEnd ss := by
  induction ss with
  | nil => trivial
  | cons s ss ih =>
    rw [List.flatMap_cons] at hs
    refine ⟨?_, ih hs.right fun r hr => hh r (List.mem_of_mem_tail hr)⟩
    rintro ⟨r, hr, hopen⟩
    rw [Section.statements, Option.mem_def.1 hr, Option.toList_some, List.append_assoc] at hs
    have hnil : itemsStatements s.body ++ ss.flatMap Section.statements = [] := by
      refine Classical.byContradiction fun hne => ?_
      have := hs.left hne r (by simp)
      simp [hopen] at this
    obtain ⟨hbody, hrest⟩ := List.append_eq_nil_iff.1 hnil
    refine ⟨itemsStatements_eq_nil hbody, ?_⟩
    cases ss with
    | nil => rfl
    | cons next ss =>
      rw [List.flatMap_cons, List.append_eq_nil_iff] at hrest
      exact absurd hrest.1 (Section.statements_ne_nil (hh next List.mem_cons_self))

include h

/-- The statements of a clear file are clear. -/
theorem File.mem_statements_clear : ∀ s ∈ f.statements, s.IsClear := by
  intro s hs
  obtain ⟨sect, hsect, hs⟩ := List.mem_flatMap.1 hs
  exact (h sect hsect).clear s hs

include hh hs

/-- A clear file is sound. -/
theorem File.sound_of_clear : f.IsSound :=
  ⟨fun s hmem => (h s hmem).sound, headersEnd_of_separated hs hh⟩

/-- **A file of clear sections is valid.** -/
theorem File.issues_of_clear : f.issues = [] := by
  have hcheck : f.isUncheckable = false :=
    List.any_eq_false.2 fun s hmem => Bool.eq_false_iff.1 (h s hmem).checkable
  exact ((File.sound_of_clear h hh hs).wellPlaced hcheck (fun s hmem => (h s hmem).leads) hh
    fun s hmem => (File.mem_statements_clear h s hmem).flaws).issues_eq_nil hs

/-- **A file of clear sections is read back as it is.** -/
theorem File.read_back_of_clear :
    (parse f.render).errors = [] ∧ (parse f.render).outline = f.outline :=
  (File.sound_of_clear h hh hs).read_back (File.issues_of_clear h hh hs)
    ((File.sound_of_clear h hh hs).legible_of_clear (File.mem_statements_clear h))

end

end RobotSuite
