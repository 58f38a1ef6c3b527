/-
# Statements with new tokens

A sound statement stays sound with other tokens, if these are laid out, hold the same texts,
and start in column one where they did; where a section holds no blocks the last does not
matter (`Statement.IsSound.withTokens`).  So it does when each of its lines is laid out again
(`Statement.IsSound.relay`), and when its end gets a line break
(`Statement.IsSound.terminate`).
-/

import RobotSuite.Format.Ending
import RobotSuite.Proofs.Token.LineLayouts
import RobotSuite.Proofs.Tree.FileLines

namespace RobotSuite

/-- The comments of a statement that is laid out are texts of the grammar. -/
theorem Laid.commentTokens {header : Bool} {ts : List Token} (h : Laid header (splitLines ts)) :
    ∀ c ∈ commentTokens ts, c.kind = .comment ∧ IsComment c.value := by
  intro c hc
  obtain ⟨hmem, hk⟩ := List.mem_filter.1 hc
  rw [← flatten_splitLines ts] at hmem
  obtain ⟨l, hl, hmem⟩ := List.mem_flatten.1 hmem
  obtain ⟨k, hw⟩ := h.written l hl
  exact hw.holdsRemark.comment c (List.mem_filter.2 ⟨hmem, hk⟩)

section
variable {kind : SectionKind} {s : Statement} {ts : List Token}

/-- A sound statement stays sound with other tokens that hold the same texts. -/
theorem Statement.IsSound.withTokens (h : s.IsSound kind) (hl : Laid false (splitLines ts))
    (hd : dataTexts ts = dataTexts s.tokens)
    (hc : (commentTexts ts).isEmpty = (commentTexts s.tokens).isEmpty)
    (hn : kind.blockType? ≠ none → startsWithName ts = startsWithName s.tokens) :
    (s.withTokens ts).IsSound kind := by
  refine ⟨hl, ?_⟩
  obtain ⟨-, -, hplain, hdata⟩ := readsAs_iff.1 h.reads
  have hname : (Statement.create s.type ts).hasKnownSetting =
      (Statement.create s.type s.tokens).hasKnownSetting :=
    hasKnownSetting_congr rfl (nameText_congr rfl hd)
  have htype : dataType kind (dataTokens ts) = dataType kind (dataTokens s.tokens) := by
    cases hk : kind.blockType? with
    | none => cases kind <;> first | rfl | cases hk
    | some owner => exact dataType_congr hd (hn (by simp [hk]))
  show ReadsAs kind s.type ts
  refine hl.readsAs ?_ ?_
  · rw [hd, hc]
    exact hplain
  · rw [hd, htype, hname]
    exact hdata

/-- A header stays one with other tokens that hold the same texts. -/
theorem Statement.IsHeader.withTokens (h : s.IsHeader kind) (hl : Laid true (splitLines ts))
    (hd : dataTexts ts = dataTexts s.tokens) : (s.withTokens ts).IsHeader kind := by
  refine ⟨h.type, hl, ?_⟩
  have hname : (s.withTokens ts).nameText = s.nameText := nameText_congr rfl hd
  rw [hname]
  exact h.opens

/-- In a section with blocks, the statements that start in column one are the names. -/
theorem ReadsAs.startsWithName {owner : BlockType} {type : StatementType}
    (hk : kind.blockType? = some owner) (h : ReadsAs kind type ts) (hd : dataTexts ts ≠ []) :
    startsWithName ts = true ↔ type = .testCaseName ∨ type = .keywordName := by
  obtain ⟨-, -, -, hdata⟩ := readsAs_iff.1 h
  have htype := (hdata hd).1
  have hbody : bodyType (dataTokens ts) ≠ .testCaseName ∧ bodyType (dataTokens ts) ≠ .keywordName :=
    ⟨bodyType_ne _ rfl, bodyType_ne _ rfl⟩
  have hstart : RobotSuite.startsWithName ts = (dataTokens ts).head?.any (·.kind == .name) := rfl
  cases kind <;> simp only [SectionKind.blockType?, reduceCtorEq] at hk <;>
    simp only [dataType, ← hstart] at htype <;> split at htype <;> simp_all

end

/-! ## Lines laid out again -/

/-- Changing lines into lines alike that hold the same texts. -/
theorem Laid.relay {header : Bool} {ts : List Token} (h : Laid header (splitLines ts))
    {f : List Token → List Token}
    (hf : ∀ l ∈ splitLines ts, Alike l (f l) ∧ dataTexts (f l) = dataTexts l ∧
      commentTexts (f l) = commentTexts l) :
    splitLines ((splitLines ts).flatMap f) = (splitLines ts).map f ∧
      Laid header (splitLines ((splitLines ts).flatMap f)) ∧
      dataTexts ((splitLines ts).flatMap f) = dataTexts ts ∧
      commentTexts ((splitLines ts).flatMap f) = commentTexts ts := by
  have hlaid := h.map fun l hl => (hf l hl).1
  have hsplit : splitLines ((splitLines ts).flatMap f) = (splitLines ts).map f := by
    rw [List.flatMap_def]
    exact splitLines_flatten hlaid.written
  refine ⟨hsplit, by rwa [hsplit], ?_, ?_⟩
  · have := dataTexts_flatten ((splitLines ts).map f)
    rw [← List.flatMap_def, List.flatMap_map] at this
    rw [this, ← flatten_splitLines ts, dataTexts_flatten, flatten_splitLines]
    rw [List.flatMap_def, List.flatMap_def]
    congr 1
    exact List.map_congr_left fun l hl => (hf l hl).2.1
  · have := commentTexts_flatten ((splitLines ts).map f)
    rw [← List.flatMap_def, List.flatMap_map] at this
    rw [this, ← flatten_splitLines ts, commentTexts_flatten, flatten_splitLines]
    rw [List.flatMap_def, List.flatMap_def]
    congr 1
    exact List.map_congr_left fun l hl => (hf l hl).2.2

/-- Whether a statement that is laid out starts in column one is seen from its first line. -/
theorem Laid.startsWithName {ts : List Token} (h : Laid false (splitLines ts))
    (hd : dataTexts ts ≠ []) : ∃ k first more, splitLines ts = first :: more ∧ Written k first ∧
      startsData k ∧ startsWithName ts = (k == some .name) := by
  obtain ⟨k, first, more, hlines, hts, hw, hk, -⟩ := h.exists_data hd
  refine ⟨k, first, more, hlines, hw, hk, ?_⟩
  rw [hts]
  exact hw.startsWithName hk _

/-- The indentation of a statement, and whether it has one. -/
theorem Laid.indentOf {ts : List Token} (h : Laid false (splitLines ts)) :
    IsIndent (indentOf ts) ∧ (dataTexts ts ≠ [] →
      RobotSuite.startsWithName ts = decide (RobotSuite.indentOf ts = "")) := by
  have hflat := flatten_splitLines ts
  generalize splitLines ts = lines at h hflat
  subst hflat
  cases h with
  | @plain line hw =>
    refine ⟨?_, fun hd => absurd ?_ hd⟩
    · rw [List.flatten_cons, List.flatten_nil, List.append_nil]
      exact hw.isIndent_indentOf
    · simpa using hw.dataTexts_of_none
  | @data k first more hw hk hm =>
    obtain ⟨hi, hname⟩ := hw.indentOf hk more.flatten
    refine ⟨hi, fun _ => ?_⟩
    rw [List.flatten_cons, hw.startsWithName hk, Bool.eq_iff_iff, decide_eq_true_eq, hname,
      beq_iff_eq]

/-- The text of a statement with data starts with its indentation and its first cell. -/
theorem Statement.IsSound.starts_text {kind : SectionKind} {s : Statement} (h : s.IsSound kind)
    {cell : String} {cells : List String} (hd : dataTexts s.tokens = cell :: cells) : IsCell cell ∧
      ∃ rest, s.text.toList = (indentOf s.tokens).toList ++ (cell.toList ++ rest) := by
  obtain ⟨k, first, more, -, htokens, ⟨hl, -⟩, hk, -⟩ := h.laid.exists_data (by simp [hd])
  rw [toList_text, htokens]
  rw [htokens] at hd
  cases hl with
  | blank => rcases hk with hk | hk <;> cases hk
  | remark => rcases hk with hk | hk <;> cases hk
  | @cells i ts c hi hcell _ _ =>
    have hdata : c.isData = true := by
      rcases hk with hk | hk <;> simp [Token.isData, TokenKind.isData, Option.some.inj hk]
    have hsep : c.isSeparator = false := by
      rcases hk with hk | hk <;> simp [Token.isSeparator, Option.some.inj hk]
    cases hi with
    | none =>
      obtain ⟨rfl, -⟩ : c.value = cell ∧ _ := by simpa [dataTexts, dataTokens, hdata] using hd
      exact ⟨hcell, _, by simp [indentOf, hsep, chars]; rfl⟩
    | @gap g hg _ =>
      have hgap : g.isSeparator = true ∧ g.isData = false := by
        simp [Token.isSeparator, Token.isData, TokenKind.isData, hg]
      obtain ⟨rfl, -⟩ : c.value = cell ∧ _ := by
        simpa [dataTexts, dataTokens, hdata, hgap] using hd
      exact ⟨hcell, _, by simp [indentOf, hgap, chars]; rfl⟩

/-- A statement without data starts with no name. -/
theorem startsWithName_of_dataTexts {ts : List Token} (h : dataTexts ts = []) :
    startsWithName ts = false := by
  have : dataTokens ts = [] := by simpa [dataTexts] using h
  rw [startsWithName, this]
  rfl

section
variable {kind : SectionKind} {s : Statement} {indent separator : String}
  {gapAt : List Token → Nat → String}

/-- The lines of a statement laid out again. -/
def composeLines (indent separator : String) (gapAt : List Token → Nat → String)
    (ts : List Token) : List Token :=
  (splitLines ts).flatMap fun l => composeLine indent (.ofLine l) separator (gapAt l)

/-- Lines laid out anew are alike, with the same data and comments. -/
theorem Laid.alike_composeLines {header : Bool} {ts : List Token} (h : Laid header (splitLines ts))
    (hi : IsIndent indent) (hs : IsWide separator) (hg : ∀ l n, IsWide (gapAt l n))
    (hh : header = true → indent = "") :
    ∀ l ∈ splitLines ts, Alike l (composeLine indent (.ofLine l) separator (gapAt l)) ∧
      dataTexts (composeLine indent (.ofLine l) separator (gapAt l)) = dataTexts l ∧
      commentTexts (composeLine indent (.ofLine l) separator (gapAt l)) = commentTexts l := by
  intro l hl
  obtain ⟨k, hk⟩ := h.written l hl
  refine hk.alike_composeLine hi hs (hg l) fun he => hh ?_
  subst he
  cases header with
  | true => rfl
  | false =>
    have hnone := List.countP_eq_zero.1 h.countP_isHeaderLine l hl
    rw [hk.isHeaderLine] at hnone
    exact absurd rfl hnone

/-- **A statement whose lines are laid out again stays sound,** if in sections with blocks it
is indented or not as it was. -/
theorem Statement.IsSound.compose (h : s.IsSound kind) (hi : IsIndent indent)
    (hs : IsWide separator) (hg : ∀ l n, IsWide (gapAt l n))
    (hn : kind.blockType? ≠ none → dataTexts s.tokens ≠ [] →
      startsWithName s.tokens = decide (indent = "")) :
    (s.withTokens (composeLines indent separator gapAt s.tokens)).IsSound kind := by
  have hlines := h.laid.alike_composeLines hi hs hg (by simp)
  obtain ⟨hsplit, hlaid, hdata, hcomment⟩ := h.laid.relay hlines
  refine h.withTokens hlaid hdata (congrArg List.isEmpty hcomment) fun hk => ?_
  by_cases hd : dataTexts s.tokens = []
  · rw [startsWithName_of_dataTexts hd]
    exact startsWithName_of_dataTexts (hdata.trans hd)
  · rw [hn hk hd]
    obtain ⟨k, first, more, hfirst, hw, hkd, -⟩ := h.laid.startsWithName hd
    have hhead : ∀ c ∈ (LineLayout.ofLine first).cells.head?, c.kind = .sectionHeader →
        indent = "" := by
      intro c hc hk
      have hkind : (LineLayout.ofLine first).cells.head?.map (·.kind) = k := hw.cells.2.2
      rw [Option.mem_def.1 hc, Option.map_some, hk] at hkind
      rcases hkd with rfl | rfl <;> cases hkind
    have hwritten := hw.fits_ofLine.written hi hs (hg first) hhead
    rw [(hw.lead_ofLine _).1 hkd] at hwritten
    rw [RobotSuite.composeLines, hfirst, List.flatMap_cons, hwritten.startsWithName]
    · split <;> simp_all
    · split <;> simp [startsData]

/-- A header whose line is laid out again stays one. -/
theorem Statement.IsHeader.compose (h : s.IsHeader kind) (hs : IsWide separator)
    (hg : ∀ l n, IsWide (gapAt l n)) :
    (s.withTokens (composeLines "" separator gapAt s.tokens)).IsHeader kind := by
  obtain ⟨-, hlaid, hdata, -⟩ := h.laid.relay
    (h.laid.alike_composeLines (.inl rfl) hs hg fun _ => rfl)
  exact h.withTokens hlaid hdata

/-- Tokens with an ending last end their last line with it. -/
theorem splitLines_concat (ts : List Token) {e : Token} (he : e.kind = .eol) :
    ∃ init us, splitLines (ts ++ [e]) = init ++ [us ++ [e]] := by
  induction ts with
  | nil => exact ⟨[], [], by simp [splitLines, Token.isEol, he]⟩
  | cons t ts ih =>
    obtain ⟨init, us, hl⟩ := ih
    rw [List.cons_append, splitLines, hl]
    split
    · exact ⟨[t] :: init, us, rfl⟩
    · cases init with
      | nil => exact ⟨[], t :: us, rfl⟩
      | cons line init => exact ⟨(t :: line) :: init, us, rfl⟩

/-- Lines laid out anew end with the same ending. -/
theorem composeLines_concat (ts : List Token) {e : Token} (he : e.kind = .eol) :
    ∃ front, composeLines indent separator gapAt (ts ++ [e]) = front ++ [e] := by
  obtain ⟨init, us, hl⟩ := splitLines_concat ts he
  rw [composeLines, hl, List.flatMap_append, List.flatMap_cons, List.flatMap_nil, List.append_nil,
    composeLine, LineLayout.ofLine, endingOf_concat he, ← List.append_assoc]
  exact ⟨_, rfl⟩

/-- Laying lines out again keeps the line ending. -/
theorem isUnterminated_composeLines {front : List Token} {e : Token} (h : s.tokens = front ++ [e])
    (he : e.kind = .eol) :
    (s.withTokens (composeLines indent separator gapAt s.tokens)).isUnterminated =
      s.isUnterminated := by
  obtain ⟨new, hnew⟩ : ∃ new, composeLines indent separator gapAt (front ++ [e]) = new ++ [e] :=
    composeLines_concat front he
  rw [← h] at hnew
  rw [isUnterminated_concat h]
  exact isUnterminated_concat hnew

/-- A line that is laid out ends with the line ending of its layout, and holds no other. -/
theorem ending_of_mem_composeLine {l : LineLayout} {gapAt : Nat → String} {t : Token}
    (hcells : ∀ c ∈ l.cells, c.kind ≠ .eol) (hcomment : ∀ c ∈ l.comment, c.kind ≠ .eol)
    (ht : t ∈ composeLine indent l separator gapAt) (hk : t.kind = .eol) :
    t.value = l.ending.value := by
  have hmem : t.value ∈ ((composeLine indent l separator gapAt).filter (·.isEol)).map (·.value) :=
    List.mem_map_of_mem (List.mem_filter.2 ⟨ht, by simp [Token.isEol, hk]⟩)
  rw [filter_composeLine (fun _ => rfl) placeCell_isEol] at hmem
  obtain ⟨u, hu, hv⟩ := List.mem_map.1 hmem
  obtain ⟨hu, huk⟩ := List.mem_filter.1 hu
  rw [Token.isEol, beq_iff_eq] at huk
  rcases List.mem_append.1 hu with hu | hu
  · exact absurd huk (hcells u hu)
  · rcases List.mem_append.1 hu with hu | hu
    · exact absurd huk (hcomment u (Option.mem_toList.1 hu))
    · rw [← hv, List.mem_singleton.1 hu]

/-- Lines that are laid out again end as they did. -/
theorem ending_of_mem_composeLines {ts : List Token} {t : Token}
    (ht : t ∈ composeLines indent separator gapAt ts) (hk : t.kind = .eol) :
    t.value = "" ∨ ∃ u ∈ ts, u.kind = .eol ∧ u.value = t.value := by
  obtain ⟨line, hline, ht⟩ := List.mem_flatMap.1 ht
  have hv := ending_of_mem_composeLine (l := .ofLine line) (fun c hc he => ?_) (fun c hc he => ?_)
    ht hk
  · rw [hv, LineLayout.ofLine, endingOf]
    cases hlast : line.getLast?.filter (·.isEol) with
    | none => exact .inl rfl
    | some u =>
      obtain ⟨hmem, hu⟩ := Option.filter_eq_some_iff.1 hlast
      refine .inr ⟨u, ?_, by simpa [Token.isEol] using hu, rfl⟩
      rw [← flatten_splitLines ts]
      exact List.mem_flatten.2 ⟨line, hline, List.mem_of_getLast? hmem⟩
  · have := (List.mem_filter.1 hc).2
    simp [Token.isData, TokenKind.isData, Token.isContinuation, he] at this
  · have := List.find?_some hc
    simp [Token.isComment, he] at this

end

/-! ## Line breaks -/

/-- A written line may end with any line break. -/
theorem Written.ending {k : Option TokenKind} {ts : List Token} {e e' : Token}
    (h : Written k (ts ++ [e])) (he : IsBreak e') : Written k (ts ++ [e']) := by
  generalize hl : ts ++ [e] = line at h
  obtain ⟨hline, -⟩ := h
  obtain ⟨rfl, -⟩ := List.append_inj' hl rfl
  exact .mk hline he

/-- The last line of a statement may end in another way. -/
theorem Laid.ending {header : Bool} {init : List (List Token)} {ts : List Token} {e e' : Token}
    (h : Laid header (init ++ [ts ++ [e]])) (he : IsBreak e') (hk : e.kind = .eol) :
    Laid header (init ++ [ts ++ [e']]) := by
  have hcomment : (ts ++ [e']).any (·.isComment) = (ts ++ [e]).any (·.isComment) := by
    simp [Token.isComment, hk, he.kind]
  generalize hl : init ++ [ts ++ [e]] = lines at h
  have hsingle {line : List Token} (hl : init ++ [ts ++ [e]] = [line]) :
      init = [] ∧ line = ts ++ [e] := by
    cases init with
    | nil => exact ⟨rfl, (List.head_eq_of_cons_eq hl).symm⟩
    | cons l init => simp at hl
  cases h with
  | header hw =>
    obtain ⟨rfl, rfl⟩ := hsingle hl
    exact .header (hw.ending he)
  | plain hw =>
    obtain ⟨rfl, rfl⟩ := hsingle hl
    exact .plain (hw.ending he)
  | @data k first more hw hd hm =>
    cases init with
    | nil =>
      obtain ⟨rfl, rfl⟩ : ts ++ [e] = first ∧ [] = more := by simpa using hl
      exact .data (hw.ending he) hd (by simp)
    | cons l init =>
      obtain ⟨rfl, rfl⟩ : l = first ∧ init ++ [ts ++ [e]] = more := by simpa using hl
      refine .data hw hd fun r hr => ?_
      rcases List.mem_append.1 hr with hr | hr
      · exact hm r (List.mem_append_left _ hr)
      · obtain rfl := List.mem_singleton.1 hr
        rcases hm (ts ++ [e]) (by simp) with hw | ⟨hw, hc⟩
        · exact .inl (hw.ending he)
        · exact .inr ⟨hw.ending he, hcomment.trans hc⟩

/-- The tokens of a statement that is laid out may end in another way. -/
theorem Laid.splitLines_ending {header : Bool} {ts : List Token} {e e' : Token}
    (h : Laid header (splitLines (ts ++ [e]))) (he : IsBreak e') :
    Laid header (splitLines (ts ++ [e'])) := by
  obtain ⟨k, init, us, e0, hl, -, hbreak, hts⟩ := h.concat
  obtain ⟨rfl, h0⟩ := List.append_inj' hts rfl
  obtain rfl : e = e0 := by simpa using h0
  rw [hl] at h
  have hnew := h.ending he hbreak.kind
  have hsplit := splitLines_flatten hnew.written
  rw [List.flatten_append, List.flatten_cons, List.flatten_nil, List.append_nil,
    ← List.append_assoc] at hsplit
  rwa [hsplit]

/-- A statement with a break last has it for its ending. -/
theorem lastEol_of_isBreak {s : Statement} {ts : List Token} {e : Token}
    (h : s.tokens = ts ++ [e]) (he : IsBreak e) : s.lastEol = some e := by
  rw [Statement.lastEol, h, List.getLast?_concat, Option.filter_some, Token.isEol, he.kind]
  rfl

/-- A statement that is laid out, with a line break at its end. -/
theorem terminate_eq {header : Bool} {s : Statement} (h : Laid header (splitLines s.tokens))
    (newline : String) : s.terminate newline = s ∨
      ∃ ts e, s.tokens = ts ++ [e] ∧ IsBreak e ∧
        s.terminate newline = s.withTokens (ts ++ [Token.create .eol newline]) := by
  obtain ⟨ts, e, hs, he⟩ := h.getLast?
  rw [Statement.terminate, lastEol_of_isBreak hs he]
  dsimp only
  split
  · exact .inr ⟨ts, e, hs, he, by rw [hs, List.dropLast_concat]⟩
  · exact .inl rfl

section
variable {kind : SectionKind} {s : Statement} {newline : String}

/-- Another ending changes neither data nor comments. -/
theorem dataTexts_ending (ts : List Token) {e e' : Token} (h : e.kind = .eol)
    (h' : e'.kind = .eol) :
    dataTexts (ts ++ [e']) = dataTexts (ts ++ [e]) ∧
      commentTexts (ts ++ [e']) = commentTexts (ts ++ [e]) ∧
      startsWithName (ts ++ [e']) = startsWithName (ts ++ [e]) := by
  have hd {e : Token} (h : e.kind = .eol) : dataTokens (ts ++ [e]) = dataTokens ts := by
    simp [dataTokens, Token.isData, TokenKind.isData, h]
  have hc {e : Token} (h : e.kind = .eol) : commentTokens (ts ++ [e]) = commentTokens ts := by
    simp [commentTokens, Token.isComment, h]
  rw [dataTexts, dataTexts, commentTexts, commentTexts, startsWithName, startsWithName, hd h, hd h',
    hc h, hc h']
  exact ⟨rfl, rfl, rfl⟩

/-- **A statement stays sound when it gets a line break.** -/
theorem Statement.IsSound.terminate (h : s.IsSound kind) (hn : IsBreak (.create .eol newline)) :
    (s.terminate newline).IsSound kind := by
  rcases terminate_eq h.laid newline with heq | ⟨ts, e, hs, he, heq⟩
  · rwa [heq]
  · rw [heq]
    obtain ⟨hd, hc, hname⟩ := dataTexts_ending ts he.kind hn.kind
    have hlaid := h.laid
    rw [hs] at hlaid
    refine h.withTokens (hlaid.splitLines_ending hn) ?_ ?_ ?_
    · rw [hs, hd]
    · rw [hs, hc]
    · rw [hs, hname]
      exact fun _ => rfl

/-- Ending a header's line leaves a header. -/
theorem Statement.IsHeader.terminate (h : s.IsHeader kind) (hn : IsBreak (.create .eol newline)) :
    (s.terminate newline).IsHeader kind := by
  rcases terminate_eq h.laid newline with heq | ⟨ts, e, hs, he, heq⟩
  · rwa [heq]
  · rw [heq]
    have hlaid := h.laid
    rw [hs] at hlaid
    refine h.withTokens (hlaid.splitLines_ending hn) ?_
    rw [hs, (dataTexts_ending ts he.kind hn.kind).1]

/-- An empty line that stands in no source is sound. -/
theorem isSound_emptyLine (hn : IsBreak (.create .eol newline)) :
    (Statement.emptyLine newline).IsSound kind := by
  have hlines : splitLines (Statement.emptyLine newline).tokens = [[.create .eol newline]] := rfl
  refine ⟨?_, ?_⟩
  · rw [hlines]
    exact .plain (.mk (.blank .none) hn)
  · exact ⟨rfl, rfl⟩

end

end RobotSuite
