/-
# The lines of a file

A sound and valid model is written as lines that are told apart again when its text is read
(`File.IsSound.bare_tokenize`).  They are read as they are, and put together to the same
statements, but for four things: a statement whose text starts with an asterisk is read as
a header, a header whose text does not is read as another statement, comments at the end of
a statement with data are read as statements of their own, and a last statement without text
is not read at all.  A model in which nothing of this happens is legible
(`File.IsSound.bare_groups`).
-/

import RobotSuite.Proofs.Tree.Lossless
import RobotSuite.Proofs.Tree.Sound

namespace RobotSuite

open Text (dropEndWhile takeEndWhile)

/-- A model whose text keeps its statements apart. -/
structure File.Legible (f : File) : Prop where
  /-- Headers start with an asterisk, and nothing else does. -/
  asterisks : ∀ s ∈ f.statements,
    startsWithAsterisk s.text.toList = (s.type == .sectionHeader)
  /-- No statement with data ends with a line that holds nothing but a comment. -/
  comments : ∀ s ∈ f.statements, s.data ≠ [] →
    ∀ line ∈ (splitLines s.tokens).getLast?, isCommentLine line = false
  /-- The last statement has a text. -/
  ends : ∀ s ∈ f.statements.getLast?, s.text ≠ ""

/-- The lines of a file. -/
def File.lines (f : File) : List (List Token) := f.statements.flatMap fun s => splitLines s.tokens

/-- Rendered tokens are their characters. -/
theorem toList_renderTokens (ts : List Token) : (renderTokens ts).toList = chars ts := by
  simp [renderTokens, chars, List.flatMap_def, Function.comp_def]

/-- A statement's text is its characters. -/
theorem toList_text (s : Statement) : s.text.toList = chars s.tokens := toList_renderTokens _

/-- The lines of a file are its tokens. -/
theorem flatten_lines (f : File) : f.lines.flatten = tokensOf f.statements := by
  rw [File.lines, List.flatMap_def, List.flatten_flatten, List.map_map, tokensOf, List.flatMap_def]
  congr 1
  exact List.map_congr_left fun s _ => flatten_splitLines s.tokens

/-- A rendered file is the characters of its lines. -/
theorem toList_render (f : File) : f.render.toList = chars f.lines.flatten := by
  rw [File.render, renderStatements_eq, toList_renderTokens, flatten_lines]

/-! ## All statements are laid out -/

section
variable {P : Statement → Prop}

/-- A statement of a body names no block. -/
theorem isBlockName_of_inBody {s : Statement} (h : s.type.inBody = true) :
    isBlockName s = false := by
  unfold isBlockName
  cases ht : s.type <;> simp_all [StatementType.inBody]

/-- An opener names no block. -/
theorem isBlockName_of_opener {s : Statement} {type : ControlType} (h : s.type = type.opener) :
    isBlockName s = false := by
  cases type <;> simp [isBlockName, h, ControlType.opener]

/-- A branch header names no block. -/
theorem isBlockName_of_branchHeader {s : Statement} {type : ControlType}
    (h : s.type ∈ type.branchHeaders) : isBlockName s = false := by
  unfold isBlockName
  cases ht : s.type <;> cases type <;> simp_all [ControlType.branchHeaders]

/-- A block's name does. -/
theorem isBlockName_of_nameType {s : Statement} {type : BlockType} (h : s.type = type.nameType) :
    isBlockName s = true := by
  cases type <;> simp [isBlockName, h, BlockType.nameType]

mutual

/-- What holds of a body item holds of its statements, which name no block. -/
theorem BodyItem.Holds.statements : ∀ {item : BodyItem}, item.Holds P →
    ∀ s ∈ item.statements, P s ∧ isBlockName s = false
  | .statement r, h, s, hs => by
    rw [BodyItem.Holds] at h
    rw [BodyItem.statements, List.mem_singleton] at hs
    subst hs
    exact ⟨h.2, isBlockName_of_inBody h.1⟩
  | .control c, h, s, hs => by
    rw [BodyItem.Holds] at h
    rw [BodyItem.statements] at hs
    exact h.statements s hs

/-- The same for a control block. -/
theorem ControlBlock.Holds.statements : ∀ {c : ControlBlock}, c.Holds P →
    ∀ s ∈ c.statements, P s ∧ isBlockName s = false
  | ⟨type, _, header, body, branches, close, _⟩, h, s, hs => by
    rw [ControlBlock.Holds] at h
    obtain ⟨⟨ho, hh⟩, hb, hbs, r, rfl, hr, hc⟩ := h
    simp only [ControlBlock.statements, List.mem_cons, List.mem_append, Option.mem_toList,
      Option.some.injEq] at hs
    rcases hs with rfl | (hs | hs) | rfl
    · exact ⟨hh, isBlockName_of_opener ho⟩
    · exact bodyHolds_statements hb s hs
    · exact branchesHold_statements hbs s hs
    · exact ⟨hc, by simp [isBlockName, hr]⟩

/-- The statements of a body have its property, and none of them is the name of a block. -/
theorem bodyHolds_statements : ∀ {body : List BodyItem}, bodyHolds P body →
    ∀ s ∈ bodyStatements body, P s ∧ isBlockName s = false
  | [], _, s, hs => by simp [bodyStatements] at hs
  | item :: items, h, s, hs => by
    rw [bodyHolds] at h
    rw [bodyStatements, List.mem_append] at hs
    rcases hs with hs | hs
    · exact h.1.statements s hs
    · exact bodyHolds_statements h.2 s hs

/-- The same for the branches of a block. -/
theorem branchesHold_statements {type : ControlType} : ∀ {bs : List Branch},
    branchesHold P type bs → ∀ s ∈ branchesStatements bs, P s ∧ isBlockName s = false
  | [], _, s, hs => by simp [branchesStatements] at hs
  | ⟨_, header, body, _⟩ :: bs, h, s, hs => by
    rw [branchesHold, Branch.Holds] at h
    obtain ⟨⟨⟨ht, hh⟩, hb⟩, hbs⟩ := h
    simp only [branchesStatements, Branch.statements, List.cons_append, List.mem_cons,
      List.mem_append] at hs
    rcases hs with rfl | hs | hs
    · exact ⟨hh, isBlockName_of_branchHeader ht⟩
    · exact bodyHolds_statements hb s hs
    · exact branchesHold_statements hbs s hs

end

/-- What holds of a section item holds of its statements. -/
theorem SectionItem.Holds.statements {kind : SectionKind} {item : SectionItem}
    (h : item.Holds P kind) : ∀ s ∈ item.statements, P s := by
  intro s hs
  cases item with
  | statement r =>
    obtain rfl := List.mem_singleton.1 hs
    exact h.2
  | block b =>
    obtain ⟨⟨-, -, hh⟩, hb⟩ := h
    rcases List.mem_cons.1 hs with rfl | hs
    · exact hh
    · exact (bodyHolds_statements hb s hs).1

end

/-- A statement type read off a marker is written with it. -/
theorem ofMarker?_eq_some {cell : String} {t : StatementType}
    (h : StatementType.ofMarker? cell = some t) : t.marker? = some cell := by
  simpa using List.find?_some h

/-- The types that the data of an indented statement can have. -/
def StatementType.isIndented : StatementType → Bool
  | .inlineIf | .keywordCall | .blockSetting => true
  | type => type.marker?.isSome

/-- Statements of a body are indented. -/
theorem isIndented_bodyType (data : List Token) : (bodyType data).isIndented = true := by
  unfold bodyType
  dsimp only
  split
  · split <;> rfl
  · split
    · rfl
    · split
      · rfl
      · split <;> rfl
      · rename_i type _ hm
        have := ofMarker?_eq_some hm
        cases type <;> simp_all [StatementType.isIndented]

/-- A body is read as no statement that is not indented. -/
theorem bodyType_ne (data : List Token) {t : StatementType} (h : t.isIndented = false) :
    bodyType data ≠ t := by
  rintro rfl
  simp [isIndented_bodyType] at h

/-- Data is not read as an empty line, as a header or as an error. -/
theorem dataType_ne (kind : SectionKind) (data : List Token) : dataType kind data ≠ .emptyLine ∧
    dataType kind data ≠ .sectionHeader ∧ dataType kind data ≠ .error := by
  have hbody : bodyType data ≠ .emptyLine ∧ bodyType data ≠ .sectionHeader ∧
      bodyType data ≠ .error := ⟨bodyType_ne data rfl, bodyType_ne data rfl, bodyType_ne data rfl⟩
  cases kind <;> simp only [dataType] <;> (try split) <;> first | exact hbody | simp

section
variable {kind : SectionKind}

/-- No statement is read as a header or as an error. -/
theorem ReadsAs.type_ne {type : StatementType} {ts : List Token} (h : ReadsAs kind type ts) :
    type ≠ .sectionHeader ∧ type ≠ .error := by
  obtain ⟨-, -, hplain, hdata⟩ := readsAs_iff.1 h
  by_cases hd : dataTexts ts = []
  · rw [hplain hd]
    split <;> simp
  · rw [(hdata hd).1]
    exact (dataType_ne kind _).2

/-- An empty line holds nothing. -/
theorem Statement.IsSound.texts_of_emptyLine {s : Statement} (h : s.IsSound kind)
    (ht : s.type = .emptyLine) : dataTexts s.tokens = [] ∧ commentTexts s.tokens = [] := by
  obtain ⟨-, -, hplain, hdata⟩ := readsAs_iff.1 h.reads
  have hd : dataTexts s.tokens = [] := by
    refine Classical.byContradiction fun hd => ?_
    have := (hdata hd).1
    rw [ht] at this
    exact (dataType_ne kind _).1 this.symm
  refine ⟨hd, ?_⟩
  have := hplain hd
  rw [ht] at this
  split at this
  · rename_i hc
    exact List.isEmpty_iff.1 hc
  · cases this

end

/-- What holds of the statements of each section holds of those of the file. -/
theorem File.statement_of_holds {S H : SectionKind → Statement → Prop} {f : File}
    (h : ∀ s ∈ f.sections, s.Holds S H) : ∀ s ∈ f.statements, ∃ kind, H kind s ∨ S kind s := by
  intro s hs
  obtain ⟨sect, hsect, hs⟩ := List.mem_flatMap.1 hs
  refine ⟨sect.kind, ?_⟩
  rw [Section.statements, List.mem_append, Option.mem_toList] at hs
  rcases hs with hs | hs
  · exact .inl ((h sect hsect).header s hs)
  · obtain ⟨item, hitem, hs⟩ := List.mem_flatMap.1 hs
    exact .inr (((h sect hsect).items item hitem).statements s hs)

/-- The statements of a sound file are headers, or sound in their sections. -/
theorem File.IsSound.statement_cases {f : File} (h : f.IsSound) :
    ∀ s ∈ f.statements, ∃ kind, s.IsHeader kind ∨ s.IsSound kind :=
  statement_of_holds h.sections

/-- The statements of a sound file are laid out. -/
theorem File.IsSound.laid {f : File} (h : f.IsSound) :
    ∀ s ∈ f.statements, Laid (s.type == .sectionHeader) (splitLines s.tokens) := by
  intro s hs
  obtain ⟨kind, hs | hs⟩ := h.statement_cases s hs
  · rw [hs.type]
    exact hs.laid
  · rw [beq_false_of_ne hs.reads.type_ne.1]
    exact hs.laid

/-! ## The text of a file is read in lines -/

/-- Without flaws only the endings break lines, and only the last may be empty. -/
theorem tokenFlaws_eq_nil {type : StatementType} {ts : List Token} (h : tokenFlaws type ts = []) :
    (∀ t ∈ ts, t.kind ≠ .eol → isUnbroken t.value.toList = true) ∧
      ∀ t ∈ ts.dropLast, t.kind = .eol → t.value ≠ "" := by
  induction ts with
  | nil => simp
  | cons t ts ih =>
    rw [tokenFlaws, List.append_eq_nil_iff] at h
    obtain ⟨ht, hts⟩ := h
    obtain ⟨hu, he⟩ := ih hts
    constructor
    · intro r hr hk
      rcases List.mem_cons.1 hr with rfl | hr
      · have heol : r.isEol = false := by simpa [Token.isEol] using hk
        simp only [heol, Bool.false_eq_true, if_false, ite_eq_right_iff, reduceCtorEq,
          imp_false, hasLineBreak, List.any_eq_true, not_exists, not_and, Bool.or_eq_true,
          decide_eq_true_eq, not_or] at ht
        rw [isUnbroken, List.all_eq_true]
        intro c hc
        simpa using ht c hc
      · exact hu r hr hk
    · intro r hr hk
      cases ts with
      | nil => simp at hr
      | cons u us =>
        rw [List.dropLast_cons_of_ne_nil (by simp)] at hr
        rcases List.mem_cons.1 hr with rfl | hr
        · rintro hv
          simp [Token.isEol, hk, hv] at ht
        · exact he r hr hk

section
variable {s : Statement} {front : List Token} {e : Token}

/-- A statement without flaws has one line ending at its end, and line breaks inside. -/
theorem concat_of_flaws (h : s.flaws = []) : ∃ front e, s.tokens = front ++ [e] ∧ e.kind = .eol ∧
    ∀ t ∈ front, t.kind = .eol → t.value ≠ "" := by
  rw [Statement.flaws, List.append_eq_nil_iff, List.append_eq_nil_iff] at h
  obtain ⟨⟨hend, hflaws⟩, -⟩ := h
  obtain ⟨-, hinner⟩ := tokenFlaws_eq_nil hflaws
  rcases List.eq_nil_or_concat s.tokens with hs | ⟨front, e, hs⟩
  · simp [Statement.lastEol, hs] at hend
  · rw [List.concat_eq_append] at hs
    rw [hs, List.dropLast_concat] at hinner
    refine ⟨front, e, hs, ?_, hinner⟩
    rw [Statement.lastEol, hs, List.getLast?_concat, Option.filter_some] at hend
    simpa [Token.isEol] using hend

/-- The statement lacks its line break if its last token is an empty line ending. -/
theorem isUnterminated_concat (h : s.tokens = front ++ [e]) :
    s.isUnterminated = (e.isEol && e.value = "") := by
  rw [Statement.isUnterminated, Statement.lastEol, h, List.getLast?_concat, Option.filter_some]
  cases e.isEol <;> simp

/-- A statement that is not ended has an empty ending. -/
theorem mem_tokens_of_isUnterminated (h : s.isUnterminated = true) :
    ∃ e ∈ s.tokens, e.kind = .eol ∧ e.value = "" := by
  obtain ⟨e, he, hv⟩ := Option.any_eq_true _ _ |>.1 h
  obtain ⟨hlast, hk⟩ := Option.filter_eq_some_iff.1 he
  exact ⟨e, List.mem_of_getLast? hlast, by simpa [Token.isEol] using hk, by simpa using hv⟩

end

/-- The lines with a text. -/
def withText (ls : List (List Token)) : List (List Token) := ls.filter fun l => !(chars l).isEmpty

/-- Lines of the grammar can be joined, but for one without a text at their end. -/
theorem joined_of_written {ls : List (List Token)} (hw : ∀ l ∈ ls, ∃ k, Written k l)
    (hu : ∀ t ∈ ls.flatten, t.kind ≠ .eol → isUnbroken t.value.toList = true)
    (he : ∀ t ∈ ls.flatten.dropLast, t.kind = .eol → t.value ≠ "") :
    Joined (withText ls) := by
  induction ls with
  | nil => exact .nil
  | cons l ls ih =>
    obtain ⟨k, hk⟩ := hw l List.mem_cons_self
    obtain @⟨ts, e, hline, hbreak⟩ := hk
    have hts : isUnbroken (chars ts) = true := isUnbroken_chars fun t ht =>
      hu t (by simp [ht]) (hline.kind t ht).1
    have hrest : Joined (withText ls) := by
      refine ih (fun l hl => hw l (List.mem_cons_of_mem _ hl)) (fun t ht => hu t ?_)
        (fun t ht => he t ?_)
      · rw [List.flatten_cons]
        exact List.mem_append_right _ ht
      · rw [List.flatten_cons, List.dropLast_append_of_ne_nil (fun h => by simp [h] at ht)]
        exact List.mem_append_right _ ht
    by_cases hv : e.value = ""
    · have hnil : ls = [] := by
        cases ls with
        | nil => rfl
        | cons l' ls =>
          obtain ⟨_, hk'⟩ := hw l' (by simp)
          obtain ⟨_, _⟩ := hk'
          refine absurd hv (he e ?_ hbreak.kind)
          rw [List.flatten_cons, List.dropLast_append_of_ne_nil (by simp)]
          simp
      subst hnil
      by_cases hc : chars ts = []
      · simpa [withText, hc, hv] using Joined.nil
      · simpa [withText, hc] using Joined.last hts hbreak.kind hv hc
    · rw [withText, List.filter_cons, if_pos (by simp [hv])]
      exact .cons hts hbreak hv hrest

section
variable {f : File}

/-- The lines of a sound file are written. -/
theorem File.IsSound.written (h : f.IsSound) : ∀ l ∈ f.lines, ∃ k, Written k l := by
  intro l hl
  obtain ⟨s, hs, hl⟩ := List.mem_flatMap.1 hl
  exact (h.laid s hs).written l hl

/-- A laid statement has a line. -/
theorem Laid.ne_nil {header : Bool} {lines : List (List Token)} (h : Laid header lines) :
    lines ≠ [] := by
  cases h <;> simp

/-- The last line of a statement that is laid out. -/
theorem Laid.concat {header : Bool} {ts : List Token} (h : Laid header (splitLines ts)) :
    ∃ k init us e, splitLines ts = init ++ [us ++ [e]] ∧ Written k (us ++ [e]) ∧ IsBreak e ∧
      ts = (init.flatten ++ us) ++ [e] := by
  have hflat := flatten_splitLines ts
  rcases List.eq_nil_or_concat (splitLines ts) with hn | ⟨init, last, hl⟩
  · exact absurd hn h.ne_nil
  · obtain ⟨k, hk⟩ := h.written last (by rw [hl]; simp)
    have hwritten := hk
    obtain @⟨us, e, -, he⟩ := hk
    refine ⟨k, init, us, e, by rw [hl, List.concat_eq_append], hwritten, he, ?_⟩
    rw [← hflat, hl]
    simp

/-- The tokens of a statement that is laid out, up to its line ending. -/
theorem Laid.getLast? {header : Bool} {ts : List Token} (h : Laid header (splitLines ts)) :
    ∃ front e, ts = front ++ [e] ∧ IsBreak e := by
  obtain ⟨-, init, us, e, -, -, he, hts⟩ := h.concat
  exact ⟨_, e, hts, he⟩

/-- In a valid sound file only the last ending may be empty. -/
theorem File.IsSound.breaks (h : f.IsSound) (hi : f.issues = []) :
    ∀ t ∈ (tokensOf f.statements).dropLast, t.kind = .eol → t.value ≠ "" := by
  have hflaws := flaws_of_mem_statements hi
  have hterm := terminated_of_issues hi h.headers
  have hlaid := h.laid
  have hinner {s : Statement} (hs : s.flaws = []) :
      ∀ t ∈ s.tokens.dropLast, t.kind = .eol → t.value ≠ "" := by
    rw [Statement.flaws, List.append_eq_nil_iff, List.append_eq_nil_iff] at hs
    exact (tokenFlaws_eq_nil hs.1.2).2
  generalize f.statements = ss at hflaws hterm hlaid
  induction ss with
  | nil => simp
  | cons s ss ih =>
    rw [tokensOf_cons]
    by_cases hss : ss = []
    · simpa [hss] using hinner (hflaws s List.mem_cons_self)
    · rw [List.dropLast_cons_of_ne_nil hss] at hterm
      refine dropLast_append_of_ne_nil (fun t ht hk => ?_) (ih ?_ ?_ ?_)
      · obtain ⟨front, e, hs, he⟩ := (hlaid s List.mem_cons_self).getLast?
        have hfront := hinner (hflaws s List.mem_cons_self)
        rw [hs, List.dropLast_concat] at hfront
        rw [hs] at ht
        rcases List.mem_append.1 ht with ht | ht
        · exact hfront t ht hk
        · obtain rfl := List.mem_singleton.1 ht
          have := hterm s List.mem_cons_self
          rw [Statement.isUnterminated, Statement.lastEol, hs] at this
          simpa [Token.isEol, hk] using this
      · exact fun r hr => hflaws r (List.mem_cons_of_mem _ hr)
      · exact fun r hr => hterm r (List.mem_cons_of_mem _ hr)
      · exact fun r hr => hlaid r (List.mem_cons_of_mem _ hr)

/-- No token of statements without flaws holds a line break. -/
theorem unbroken_of_flaws (hf : ∀ s ∈ f.statements, s.flaws = []) :
    ∀ t ∈ tokensOf f.statements, t.kind ≠ .eol → isUnbroken t.value.toList = true := by
  intro t ht
  obtain ⟨s, hs, ht⟩ := List.mem_flatMap.1 ht
  have hflaws := hf s hs
  rw [Statement.flaws, List.append_eq_nil_iff, List.append_eq_nil_iff] at hflaws
  exact (tokenFlaws_eq_nil hflaws.1.2).1 t ht

/-- In a valid file only the endings break lines. -/
theorem unbroken_of_issues (hi : f.issues = []) :
    ∀ t ∈ tokensOf f.statements, t.kind ≠ .eol → isUnbroken t.value.toList = true :=
  unbroken_of_flaws (flaws_of_mem_statements hi)

/-- A line with a cell or a comment has a text. -/
theorem Written.chars_ne_nil {k : Option TokenKind} {line : List Token} (h : Written k line)
    (hk : k ≠ none ∨ line.any (·.isComment) = true) : chars line ≠ [] := by
  have hvalue : ∃ t ∈ line, t.value ≠ "" := by
    cases k with
    | some k =>
      obtain @⟨ts, e, hl, -⟩ := h
      cases hl with
      | @cells i ts c _ hc _ _ =>
        obtain ⟨d, hd, -⟩ := hc.starts
        refine ⟨c, by simp, ?_⟩
        rintro hv
        simp [hv] at hd
    | none =>
      have hc : line.any (·.isComment) = true := hk.resolve_left (by simp)
      obtain ⟨t, ht, hkind⟩ := List.any_eq_true.1 hc
      obtain ⟨hl, he⟩ := h
      refine ⟨t, ht, ?_⟩
      rcases List.mem_append.1 ht with ht | ht
      · cases hl with
        | blank hi => simp [Token.isComment, hi.kind t ht] at hkind
        | remark hi hr =>
          rcases List.mem_append.1 ht with ht | ht
          · simp [Token.isComment, hi.kind t ht] at hkind
          · have hstart {c : Token} (hc : IsComment c.value) : c.value ≠ "" := by
              intro hv
              have := hc.starts
              simp [hv] at this
            cases hr with
            | plain _ hcom => exact List.mem_singleton.1 ht ▸ hstart hcom
            | trailed _ hcom hg hgap =>
              rcases List.mem_cons.1 ht with rfl | ht
              · exact hstart hcom
              · exact List.mem_singleton.1 ht ▸ hgap.1
      · obtain rfl := List.mem_singleton.1 ht
        simp [Token.isComment, he.kind] at hkind
  obtain ⟨t, ht, hv⟩ := hvalue
  intro hn
  rw [chars, List.flatMap_eq_nil_iff] at hn
  exact hv (by simpa using hn t ht)

/-- Each line of a statement with a text has one. -/
theorem Laid.chars_ne_nil {header : Bool} {lines : List (List Token)} (h : Laid header lines)
    (hc : chars lines.flatten ≠ []) : ∀ l ∈ lines, chars l ≠ [] := by
  intro l hl
  cases h with
  | header hw =>
    obtain rfl := by simpa using hl
    simpa using hc
  | plain hw =>
    obtain rfl := by simpa using hl
    simpa using hc
  | data hw hk hm =>
    rcases List.mem_cons.1 hl with rfl | hl
    · exact hw.chars_ne_nil (.inl (by rcases hk with h | h <;> simp [h]))
    · rcases hm l hl with hw | ⟨hw, hc⟩
      · exact hw.chars_ne_nil (.inl (by simp))
      · exact hw.chars_ne_nil (.inr hc)

/-- The lines of a valid sound file are read apart. -/
theorem File.IsSound.joined (h : f.IsSound) (hi : f.issues = []) :
    Joined (withText f.lines) := by
  refine joined_of_written h.written ?_ ?_
  · rw [flatten_lines]
    exact unbroken_of_issues hi
  · rw [flatten_lines]
    exact h.breaks hi

/-- Lines without text have no characters. -/
theorem chars_withText (ls : List (List Token)) :
    chars (withText ls).flatten = chars ls.flatten := by
  induction ls with
  | nil => rfl
  | cons l ls ih =>
    rw [withText, List.filter_cons, ← withText]
    cases hc : chars l <;> simp [hc, ih]

/-- How the lines of a file are read, whatever stands at their start. -/
theorem File.IsSound.bare_tokenize (h : f.IsSound) (hi : f.issues = []) :
    (tokenize f.render).map (·.map Token.bare) =
      (withText f.lines).map fun line => (nextPieces (chars line)).map Piece.bare := by
  rw [tokenize, Cursor.ofSource, toList_render, ← chars_withText]
  exact bare_lines (h.joined hi) .origin

/-- All lines have a text if the last statement has one. -/
theorem File.IsSound.withText_lines (h : f.IsSound) (hi : f.issues = [])
    (hl : ∀ s ∈ f.statements.getLast?, s.text ≠ "") : withText f.lines = f.lines := by
  rw [withText, List.filter_eq_self]
  intro l hmem
  obtain ⟨s, hs, hline⟩ := List.mem_flatMap.1 hmem
  have hlaid := h.laid s hs
  have htext : chars s.tokens ≠ [] := by
    rcases mem_dropLast_or_getLast? hs with hs | hs
    · have hend := terminated_of_issues hi h.headers s hs
      obtain ⟨front, e, htokens, he⟩ := hlaid.getLast?
      rw [Statement.isUnterminated, Statement.lastEol, htokens] at hend
      have hvalue : e.value ≠ "" := by simpa [Token.isEol, he.kind] using hend
      rw [htokens]
      simp [hvalue]
    · rw [← toList_text]
      simpa using hl s hs
  rw [← flatten_splitLines s.tokens] at htext
  simpa using hlaid.chars_ne_nil htext l hline

/-- Lines that do not start with a cell in column one do not start with an asterisk. -/
theorem Written.startsWithAsterisk {k : Option TokenKind} {line : List Token} (h : Written k line)
    (hk : k = none ∨ k = some .continuation) :
    RobotSuite.startsWithAsterisk (chars line) = false := by
  have hgap {s : String} (hs : IsGap s) (rest : List Char) :
      RobotSuite.startsWithAsterisk (s.toList ++ rest) = false := by
    obtain ⟨hne, hall⟩ := hs
    cases hc : s.toList with
    | nil => exact absurd (by simpa using hc) hne
    | cons c cs =>
      rw [hc, List.all_cons, Bool.and_eq_true] at hall
      have : c ≠ '*' := by
        rintro rfl
        exact absurd hall.1 (by decide)
      simpa [RobotSuite.startsWithAsterisk] using this
  have hcomment {s : String} (hs : IsComment s) (rest : List Char) :
      RobotSuite.startsWithAsterisk (s.toList ++ rest) = false := by
    rw [RobotSuite.startsWithAsterisk, List.head?_append, hs.starts]
    rfl
  have hindent {i rest : List Token} (hi : Indent i)
      (hr : RobotSuite.startsWithAsterisk (chars rest) = false) :
      RobotSuite.startsWithAsterisk (chars (i ++ rest)) = false := by
    cases hi with
    | none => exact hr
    | gap _ hg => exact hgap hg _
  obtain ⟨hline, he⟩ := h
  have hend : ∀ e : Token, IsBreak e → RobotSuite.startsWithAsterisk (chars [e]) = false := by
    intro e he
    rcases he.value with h | h | h <;> simp [h, RobotSuite.startsWithAsterisk]
  cases hline with
  | blank hi => exact hindent hi (hend _ he)
  | remark hi hr =>
    rw [List.append_assoc]
    refine hindent hi ?_
    cases hr with
    | plain _ hc => exact hcomment hc _
    | trailed _ hc _ _ => exact hcomment hc _
  | @cells i ts c hi _ hlead _ =>
    rw [List.append_assoc]
    refine hindent hi ?_
    have hkind : c.kind = .continuation := by simpa using hk
    rw [hkind] at hlead
    cases hlead with
    | continuation hs => simp [hs, RobotSuite.startsWithAsterisk]

/-- A header starts with the cell that is its name. -/
theorem Laid.exists_header {ts : List Token} (h : Laid true (splitLines ts)) :
    ∃ c rest, ts = c :: rest ∧ c.kind = .sectionHeader ∧ IsCell c.value ∧
      (IsStarred c.value ∨ c.value = SectionKind.missingHeader) := by
  have hflat := flatten_splitLines ts
  generalize splitLines ts = lines at h hflat
  cases h with
  | @header line hw =>
    obtain rfl : line = ts := by simpa using hflat
    generalize hk : some TokenKind.sectionHeader = k at hw
    obtain ⟨hline, -⟩ := hw
    cases hline with
    | blank => cases hk
    | remark => cases hk
    | @cells i rest c hi hc hlead _ =>
      have hkind : c.kind = .sectionHeader := (Option.some.inj hk).symm
      rw [hkind] at hlead
      cases hlead with
      | header ha hs =>
        rw [List.isEmpty_iff] at ha
        subst ha
        exact ⟨c, _, rfl, hkind, hc, hs⟩

/-- A header starts with an asterisk if its name does. -/
theorem Laid.startsWithAsterisk_header {ts : List Token} (h : Laid true (splitLines ts)) :
    RobotSuite.startsWithAsterisk (chars ts) =
      (dataTexts ts).head?.any fun v => decide (IsStarred v) := by
  obtain ⟨c, rest, rfl, hkind, hc, -⟩ := h.exists_header
  have hdata : c.isData = true := by rw [Token.isData, hkind]; rfl
  obtain ⟨d, hd, -⟩ := hc.starts
  rw [dataTexts, dataTokens, List.filter_cons, if_pos hdata]
  cases hv : c.value.toList with
  | nil => simp [hv] at hd
  | cons x xs =>
    rw [chars_cons, hv, RobotSuite.startsWithAsterisk, List.cons_append, List.map_cons,
      List.head?_cons, List.head?_cons, Option.any_some, Bool.eq_iff_iff, decide_eq_true_iff]
    simp [IsStarred, hv]

/-- The name of a header that starts with an asterisk opens sections of its kind. -/
theorem Statement.IsHeader.opens_of_asterisk {kind : SectionKind} {s : Statement}
    (h : s.IsHeader kind) (hs : RobotSuite.startsWithAsterisk s.text.toList = true) :
    SectionKind.ofHeader? s.nameText = some kind := by
  refine h.opens.resolve_right fun hmissing => ?_
  obtain ⟨c, rest, htokens, hkind, -⟩ := h.laid.exists_header
  have hdata : c.isData = true := by rw [Token.isData, hkind]; rfl
  have hname : s.nameText = c.value := by
    rw [Statement.nameText, Statement.name, Statement.assign, h.type, if_neg (by decide),
      Statement.data, htokens, dataTokens, List.filter_cons, if_pos hdata]
    rfl
  rw [toList_text, h.laid.startsWithAsterisk_header, htokens, dataTexts, dataTokens,
    List.filter_cons, if_pos hdata, List.map_cons, List.head?_cons, Option.any_some, ← hname,
    hmissing.2] at hs
  exact absurd hs (by decide)

/-- A line of a file is read as it is, unless it starts with an asterisk and is no header. -/
theorem bare_line {k : Option TokenKind} {line : List Token}
    (hf : ∀ s ∈ f.statements, s.flaws = []) (hmem : line ∈ f.lines) (hk : Written k line)
    (hs : k = some .sectionHeader ↔ startsWithAsterisk (chars line) = true) :
    (nextPieces (chars line)).map Piece.bare = line.map Token.bare := by
  refine bare_nextPieces hk (fun t ht => ?_) hs
  refine unbroken_of_flaws hf t ?_
  rw [← flatten_lines]
  exact List.mem_flatten.2 ⟨line, hmem, ht⟩

/-- In a statement that starts with an asterisk just if it is a header, so do its lines. -/
theorem Laid.startsWithAsterisk {header : Bool} {lines : List (List Token)}
    (h : Laid header lines)
    (hs : RobotSuite.startsWithAsterisk (chars lines.flatten) = header) :
    ∀ l ∈ lines, ∃ k, Written k l ∧
      (k = some .sectionHeader ↔ RobotSuite.startsWithAsterisk (chars l) = true) := by
  intro l hl
  cases h with
  | header hw =>
    obtain rfl := List.mem_singleton.1 hl
    exact ⟨_, hw, by simpa using hs⟩
  | plain hw =>
    obtain rfl := List.mem_singleton.1 hl
    exact ⟨_, hw, by simp [hw.startsWithAsterisk (.inl rfl)]⟩
  | @data k first more hw hk hm =>
    rcases List.mem_cons.1 hl with rfl | hl
    · refine ⟨k, hw, ?_⟩
      have hfirst : RobotSuite.startsWithAsterisk (chars l) = false := by
        have hne : chars l ≠ [] :=
          hw.chars_ne_nil (.inl (by rcases hk with h | h <;> simp [h]))
        have := hs
        rw [List.flatten_cons, chars_append] at this
        cases hc : chars l with
        | nil => exact absurd hc hne
        | cons d ds => simpa [hc, RobotSuite.startsWithAsterisk] using this
      rw [hfirst]
      rcases hk with h | h <;> simp [h]
    · rcases hm l hl with hw | ⟨hw, -⟩
      · exact ⟨_, hw, by simp [hw.startsWithAsterisk (.inr rfl)]⟩
      · exact ⟨_, hw, by simp [hw.startsWithAsterisk (.inl rfl)]⟩

/-- **The lines of a legible file are read as they are.** -/
theorem File.IsSound.bare_tokenize_of_legible (h : f.IsSound) (hi : f.issues = [])
    (hl : f.Legible) : (tokenize f.render).map (·.map Token.bare) =
      f.lines.map (·.map Token.bare) := by
  rw [h.bare_tokenize hi, h.withText_lines hi hl.ends]
  refine List.map_congr_left fun line hmem => ?_
  obtain ⟨s, hs, hline⟩ := List.mem_flatMap.1 hmem
  have hstar : startsWithAsterisk (chars (splitLines s.tokens).flatten) =
      (s.type == .sectionHeader) := by
    rw [flatten_splitLines, ← toList_text]
    exact hl.asterisks s hs
  obtain ⟨k, hk, hkind⟩ := (h.laid s hs).startsWithAsterisk hstar line hline
  exact bare_line (flaws_of_mem_statements hi) hmem hk hkind

/-- Statements without comments at their ends are put together as they were. -/
theorem Laid.regroup {header : Bool} {lines : List (List Token)} (h : Laid header lines)
    (hc : (∃ l ∈ lines, l.any (·.isData) = true) → ∀ l ∈ lines.getLast?, isCommentLine l = false) :
    RobotSuite.regroup lines = [lines] := by
  cases h with
  | header _ => simp [RobotSuite.regroup, takeEndWhile, dropEndWhile]
  | plain _ => simp [RobotSuite.regroup, takeEndWhile, dropEndWhile]
  | @data k first more hw hk _ =>
    have hlast := hc ⟨first, by simp, hw.any_isData_of_startsData hk⟩
    have hmore : ∀ l ∈ more.getLast?, isCommentLine l = false := by
      intro l hl
      refine hlast l ?_
      rw [List.getLast?_cons, Option.mem_def.1 hl]
      rfl
    obtain ⟨htake, hdrop⟩ := Text.endWhile_append hmore []
    rw [List.append_nil] at htake hdrop
    rw [RobotSuite.regroup, htake, hdrop]
    simp [takeEndWhile, dropEndWhile]

/-- The lines of the statements of a sound file are put together to these, but for comments
at their ends. -/
theorem File.IsSound.regroup_lines (h : f.IsSound) :
    groupLines f.lines = f.statements.flatMap fun s => regroup (splitLines s.tokens) := by
  have hlaid : ∀ g ∈ f.statements.map fun s => ((s.type == .sectionHeader), splitLines s.tokens),
      Laid g.1 g.2 := by
    intro g hg
    obtain ⟨s, hs, rfl⟩ := List.mem_map.1 hg
    exact h.laid s hs
  have := groupLines_flatten hlaid
  rw [List.map_map, List.flatMap_map] at this
  rw [← this, File.lines, List.flatMap_def]
  rfl

/-- **The statements of a legible file are put together as they were.** -/
theorem File.IsSound.bare_groups (h : f.IsSound) (hi : f.issues = []) (hl : f.Legible) :
    ((groupLines (tokenize f.render)).map List.flatten).map (·.map Token.bare) =
      f.statements.map fun s => s.tokens.map Token.bare := by
  have hgroups : groupLines f.lines = f.statements.map fun s => splitLines s.tokens := by
    rw [h.regroup_lines, List.map_eq_flatMap, List.flatMap_def, List.flatMap_def]
    congr 1
    refine List.map_congr_left fun s hs => ?_
    refine (h.laid s hs).regroup fun ⟨l, hmem, hdata⟩ => hl.comments s hs ?_
    obtain ⟨t, ht, hk⟩ := List.any_eq_true.1 hdata
    have hmem' : t ∈ s.tokens := by
      rw [← flatten_splitLines s.tokens]
      exact List.mem_flatten.2 ⟨l, hmem, ht⟩
    exact List.ne_nil_of_mem (List.mem_filter.2 ⟨hmem', hk⟩)
  have hbare := congrArg groupLines (h.bare_tokenize_of_legible hi hl)
  rw [groupLines_map_bare, groupLines_map_bare, hgroups] at hbare
  have hflat := congrArg (List.map List.flatten) hbare
  simp only [List.map_map, Function.comp_def, ← List.map_flatten, flatten_splitLines] at hflat ⊢
  exact hflat

end

end RobotSuite
