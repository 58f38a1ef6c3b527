/-
# Widths of split lines

Whether an argument still fits into a row is measured by the lengths of the texts, and whether a
line is too long by the columns that it takes.  A row that is wider than the limit holds the head
alone, or the marker and one argument (`fillFrom_width`), and a line takes no more columns than its
row is wide, but for three more for each of its tabs (`dataWidth_composeLine_le`).  So without tabs
a line is too long only where it cannot be made shorter (`rows_fit`).
-/

import RobotSuite.Proofs.Format.Run
import RobotSuite.Proofs.Format.StatementPasses

namespace RobotSuite

/-! ## Columns of a text -/

namespace Text

/-- A tab takes three columns more than another character at most. -/
theorem units_expandTabsFrom_le (column : Nat) (cs : List Char) :
    units (expandTabsFrom tabStop column cs) ≤ units cs + 3 * cs.count '\t' := by
  induction cs generalizing column with
  | nil => exact Nat.le_refl 0
  | cons c cs ih =>
    rw [expandTabsFrom]
    by_cases hc : c = '\t'
    · have hrest := ih (column + (tabStop - column % tabStop))
      have hunits : charUnits '\t' = 1 := rfl
      have hfill : tabStop - column % tabStop ≤ 4 := Nat.sub_le 4 _
      subst hc
      rw [if_pos rfl]
      dsimp only
      rw [units_append, units_replicate, units_cons, List.count_cons_self,
        show charUnits ' ' = 1 from rfl, hunits]
      omega
    · have hrest := ih (column + charUnits c)
      rw [if_neg hc, units_cons, units_cons, List.count_cons_of_ne hc]
      omega

/-- Blanks behind a text do not matter when those at its end go. -/
theorem trimEnd_append {cs gaps : List Char} (h : ∀ c ∈ gaps, isBlank c = true) :
    trimEnd (cs ++ gaps) = trimEnd cs := by
  rw [trimEnd, trimEnd, dropEndWhile, dropEndWhile, List.reverse_append,
    List.dropWhile_append_of_pos fun c hc => h c (List.mem_reverse.1 hc)]

/-- Trimming the end makes a text no longer. -/
theorem units_trimEnd_le (cs : List Char) : units (trimEnd cs) ≤ units cs := by
  have h := congrArg units (dropEndWhile_append_takeEndWhile isBlank cs)
  rw [units_append] at h
  exact Nat.le.intro h

/-- Gap characters are blank. -/
theorem isBlank_of_isGap {c : Char} (h : isGap c = true) : isBlank c = true := by
  rw [isGap, Bool.or_eq_true, decide_eq_true_eq, decide_eq_true_eq] at h
  rcases h with rfl | rfl <;> decide

end Text

/-- What a line holds in front of its comment, without the blanks at its end. -/
def dataChars (line : List Token) : List Char :=
  Text.trimEnd (renderTokens (line.takeWhile fun t => !(t.isComment || t.isEol))).toList

/-- The tabs that a line holds there. -/
def tabCount (line : List Token) : Nat := (dataChars line).count '\t'

/-- A line's data is at most its units wide, and three columns more for each tab. -/
theorem dataWidth_le (line : List Token) :
    dataWidth line ≤ Text.units (dataChars line) + 3 * tabCount line :=
  Text.units_expandTabsFrom_le 0 _

/-! ## Columns of a line that is laid out -/

section
variable {l : LineLayout} {indent separator : String} {gapAt : Nat → String}

/-- In front of the comment of a line stand its cells and gaps. -/
theorem LineLayout.Fits.front_composeLine (h : l.Fits) (indent : String) (gapAt : Nat → String) :
    ∀ t ∈ (if indent = "" then [] else [gap indent]) ++ composeCells gapAt (indent = "") l.cells,
      (t.isComment || t.isEol) = false := by
  have hcells : (composeCells gapAt (indent = "") l.cells).filter
      (fun t => t.isComment || t.isEol) = [] := by
    have hnone : l.cells.filter (fun t => t.isComment || t.isEol) = [] := by
      rw [List.filter_eq_nil_iff]
      intro c hc
      simpa [Token.isComment, Token.isEol] using h.kind_cells c hc
    refine List.map_eq_nil_iff.1 ((filter_composeCells (fun _ => rfl) (fun b c => ?_) gapAt
      (indent = "") l.cells).trans (by rw [hnone]; rfl))
    rw [placeCell_isComment, placeCell_isEol]
  rw [List.forall_mem_append]
  constructor
  · intro t ht
    split at ht
    · cases ht
    · rw [List.mem_singleton.1 ht]
      rfl
  · intro t ht
    simpa using List.filter_eq_nil_iff.1 hcells t ht

/-- The cells of a line stand in front of its comment. -/
theorem LineLayout.Fits.takeWhile_composeLine (h : l.Fits) (hne : l.cells ≠ []) :
    (composeLine indent l separator gapAt).takeWhile (fun t => !(t.isComment || t.isEol)) =
      (if indent = "" then [] else [gap indent]) ++ composeCells gapAt (indent = "") l.cells ++
        l.comment.toList.map fun _ => gap separator := by
  have hend : l.ending.isEol = true := by rw [Token.isEol, h.ending.kind]; rfl
  rw [composeLine, List.append_assoc _ _ [l.ending], List.takeWhile_append_of_pos
    fun t ht => by rw [h.front_composeLine indent gapAt t ht]; rfl]
  congr 1
  cases hc : l.comment with
  | none => simp [hend]
  | some c =>
    have hcomment : c.isComment = true := by rw [Token.isComment, (h.comment c hc).1]; rfl
    have hgap : (gap separator).isComment = false ∧ (gap separator).isEol = false := ⟨rfl, rfl⟩
    simp [hne, hcomment, hgap]

/-- The cells of a line that fits are cells. -/
theorem LineLayout.Fits.isCell (h : l.Fits) :
    ∀ c ∈ l.cells, (c.isData || c.isContinuation) = true := by
  obtain ⟨hhead, hrest, -, -⟩ := h
  intro c hc
  cases hcells : l.cells with
  | nil => simp [hcells] at hc
  | cons d ds =>
    rw [hcells] at hc hhead hrest
    rcases List.mem_cons.1 hc with rfl | hc
    · rcases (hhead c rfl).2 with ⟨hk, -⟩ | ⟨hk, -⟩ | ⟨hk | hk, -⟩ <;>
        simp [Token.isData, TokenKind.isData, Token.isContinuation, hk]
    · rcases (hrest c hc).2 with hk | hk <;> simp [Token.isData, TokenKind.isData, hk]

/-- Retyping a cell for its place keeps continuation marks apart. -/
theorem placeCell_isContinuation (atStart : Bool) (c : Token) :
    (placeCell atStart c).isContinuation = c.isContinuation := by
  by_cases h : c.kind = .name ∨ c.kind = .argument
  · rw [Token.isContinuation, Token.isContinuation, placeCell_kind h]
    rcases h with h | h <;> cases atStart <;> rw [h] <;> rfl
  · rw [not_or] at h
    rw [placeCell_of_ne h.1 h.2]

/-- Cells with one gap between all of them. -/
theorem renderTokens_composeCells (separator : String) (atStart : Bool) (cells : List Token) :
    renderTokens (composeCells (fun _ => separator) atStart cells) =
      separator.intercalate (cells.map (·.value)) := by
  have hrest (n : Nat) (c : String) (cells : List Token) :
      c ++ renderTokens (composeRest (fun _ => separator) n cells) =
        separator.intercalate (c :: cells.map (·.value)) := by
    induction cells generalizing n c with
    | nil => rw [List.map_nil, String.intercalate_singleton]; exact String.append_empty
    | cons d cells ih =>
      rw [composeRest, renderTokens_cons, renderTokens_cons, List.map_cons,
        String.intercalate_cons_cons, ← ih (n + 1), placeCell_value, String.append_assoc]
      rfl
  cases cells with
  | nil => rfl
  | cons c cells => rw [composeCells, renderTokens_cons, hrest, List.map_cons, placeCell_value]

/-- What is written of a line, cells with one gap between them. -/
theorem renderTokens_composeLine (indent separator : String) (l : LineLayout) :
    renderTokens (composeLine indent l separator fun _ => separator) =
      indent ++ separator.intercalate (l.cells.map (·.value)) ++
        ((l.comment.map (·.value)).elim "" fun c =>
          (if l.cells.isEmpty then "" else separator) ++ c) ++ l.ending.value := by
  have hsingle (t : Token) : renderTokens [t] = t.value :=
    (renderTokens_cons t []).trans String.append_empty
  have hindent : renderTokens (if indent = "" then [] else [gap indent]) = indent := by
    split
    · rename_i h
      rw [h]
      rfl
    · exact hsingle _
  obtain ⟨cells, comment, ending⟩ := l
  rw [composeLine, renderTokens_append, renderTokens_append, renderTokens_append, hindent,
    renderTokens_composeCells, hsingle]
  cases comment with
  | none => rfl
  | some c =>
    dsimp only [Option.map_some, Option.elim]
    rw [renderTokens_append, hsingle]
    split
    · rfl
    · rw [hsingle]
      rfl

/-- **A line takes no more columns than its row is wide,** but for three more for each tab. -/
theorem LineLayout.Fits.dataWidth_composeLine_le (h : l.Fits) (hne : l.cells ≠ [])
    (hs : IsWide separator) (indent : String) :
    let line := composeLine indent l separator fun _ => separator
    dataWidth line ≤ Split.rowWidth indent l.cells separator + 3 * tabCount line := by
  intro line
  have hblank : ∀ c ∈ (renderTokens (l.comment.toList.map fun _ => gap separator)).toList,
      Text.isBlank c = true := by
    intro c hc
    refine Text.isBlank_of_isGap (List.all_eq_true.1 hs.1 c ?_)
    cases hcomment : l.comment with
    | none => rw [hcomment] at hc; cases hc
    | some d =>
      rw [hcomment] at hc
      simpa [renderTokens, gap, Token.create] using hc
  have hchars : dataChars line = Text.trimEnd (renderTokens
      ((if indent = "" then [] else [gap indent]) ++
        composeCells (fun _ => separator) (indent = "") l.cells)).toList := by
    rw [dataChars, h.takeWhile_composeLine hne, renderTokens_append, String.toList_append,
      Text.trimEnd_append hblank]
  have hindent : renderTokens (if indent = "" then [] else [gap indent]) = indent := by
    split
    · rename_i hempty
      rw [hempty]
      rfl
    · exact (renderTokens_cons _ []).trans String.append_empty
  have hwidth : Text.units (dataChars line) ≤ Split.rowWidth indent l.cells separator := by
    rw [hchars, renderTokens_append, hindent, renderTokens_composeCells]
    refine Nat.le_trans (Text.units_trimEnd_le _) (Nat.le_of_eq ?_)
    rw [String.toList_append, Text.units_append]
    rfl
  exact Nat.le_trans (dataWidth_le line) (Nat.add_le_add_right hwidth _)

end

namespace Split

/-! ## Rows -/

section
variable {indent separator : String} {limit : Int} {everyArg : Bool} {row args : List Token}

/-- **A row that is too wide** is the one that was open, or holds the marker and one argument. -/
theorem fillFrom_width :
    ∀ r ∈ fillFrom indent separator limit everyArg row args,
      r = row ∨ (∃ arg ∈ args, r = [continuationMarker, arg]) ∨
        rowWidth indent r separator ≤ limit := by
  intro r hr
  cases everyArg with
  | true =>
    rw [fillFrom_everyArg] at hr
    exact (List.mem_cons.1 hr).imp_right fun hr =>
      let ⟨arg, harg, heq⟩ := List.mem_map.1 hr
      .inl ⟨arg, harg, heq.symm⟩
  | false =>
    obtain ⟨hfirst, hlater⟩ := keepsLimit_fillFrom indent separator limit row args
    obtain ⟨front, groups, hrows, rfl, -⟩ := isLayout_iff.1 (isLayout_fillFrom row args)
    rw [hrows] at hr hfirst hlater
    rcases List.mem_cons.1 hr with rfl | hr
    · exact (hfirst _ rfl).imp_right .inr
    · obtain ⟨g, hg, rfl⟩ := List.mem_map.1 hr
      refine .inr ((hlater _ hr).imp_left fun hlen => ?_)
      obtain ⟨arg, rfl⟩ := List.length_eq_one_iff.1 (Nat.succ.inj hlen)
      exact ⟨arg, List.mem_append_right _ (List.mem_flatten_of_mem hg List.mem_cons_self), rfl⟩

end

/-! ## Lines -/

/-- The texts of the cells of a line, and of the marker in front of them. -/
def cellTexts (line : List Token) : List String := (cellTokens line).map (·.value)

/-- A line that cannot be shorter: it holds the head of a statement and no other cell, or the marker
and one argument. -/
def IsMinimal (s : Statement) (line : List Token) : Prop :=
  ∃ size ∈ headSize s, cellTexts line = (dataTexts s.tokens).take size ∨
    ∃ arg ∈ (dataTexts s.tokens).drop size, cellTexts line = ["...", arg]
deriving Decidable

/-- A composed line has the cells of its layout. -/
theorem cellTexts_composeLine {l : LineLayout} (h : l.Fits) (indent separator : String)
    (gapAt : Nat → String) :
    cellTexts (composeLine indent l separator gapAt) = l.cells.map (·.value) := by
  have hcells : l.cells.filter (fun t => t.isData || t.isContinuation) = l.cells :=
    List.filter_eq_self.2 h.isCell
  have hrest : (l.comment.toList ++ [l.ending]).filter
      (fun t => t.isData || t.isContinuation) = [] := by
    refine cellTokens_eq_nil fun t ht => ?_
    rcases List.mem_append.1 ht with ht | ht
    · exact .inr (.inl (h.comment t (Option.mem_toList.1 ht)).1)
    · exact .inr (.inr (List.mem_singleton.1 ht ▸ h.ending.kind))
  rw [cellTexts, cellTokens, filter_composeLine (fun _ => rfl) fun b c => ?_, List.filter_append,
    hcells, hrest, List.append_nil]
  rw [placeCell_isData, placeCell_isContinuation]

section
variable {setup : PassSetup} {kind : SectionKind} {s new : Statement}

/-- **A statement that is split is too long only where it cannot be shorter,** tabs apart. -/
theorem rows_fit (hv : setup.IsValid) (h : s.IsSound kind) (hsplit : split setup s = some new) :
    ∀ line ∈ splitLines new.tokens,
      setup.config.lineLength + 3 * tabCount line < dataWidth line → IsMinimal s line := by
  obtain ⟨size, everyArg, hsize, rfl⟩ := split_eq_some hsplit
  obtain ⟨l, ls, htokens, hfits, hl, hls, -, -, hrows⟩ := layouts_splitTokens everyArg hv h hsize
  obtain ⟨hindent, -⟩ := h.laid.indentOf
  have hlaid := Laid.ofLayouts hindent hv.separator (fun _ => hv.separator)
    (hfits l List.mem_cons_self) hl fun m hm => ⟨hfits m (List.mem_cons_of_mem _ hm), hls m hm⟩
  have hne : ∀ m ∈ l :: ls, m.cells ≠ [] := by
    intro m hm hnil
    rcases List.mem_cons.1 hm with rfl | hm
    · obtain ⟨c, hc, -⟩ := hl
      simp [hnil] at hc
    · obtain ⟨c, hc, -⟩ := hls m hm
      simp [hnil] at hc
  intro line hline hlong
  rw [show (s.withTokens (splitTokens setup everyArg size s.tokens)).tokens = _ from htokens,
    List.flatMap_def, splitLines_flatten hlaid.written] at hline
  obtain ⟨m, hm, rfl⟩ := List.mem_map.1 hline
  have hwidth := (hfits m hm).dataWidth_composeLine_le (hne m hm) hv.separator (indentOf s.tokens)
  have hcells := cellTexts_composeLine (hfits m hm) (indentOf s.tokens) setup.config.separator
    fun _ => setup.config.separator
  have hrow : m.cells ∈ fillFrom (indentOf s.tokens) setup.config.separator
      setup.config.lineLength everyArg ((dataTokens s.tokens).take size)
      ((dataTokens s.tokens).drop size) := by
    rw [← fillRows, ← hrows]
    exact List.mem_map_of_mem hm
  refine ⟨size, hsize, ?_⟩
  rw [hcells]
  rcases fillFrom_width m.cells hrow with hrow | ⟨arg, harg, hrow⟩ | hrow
  · left
    rw [hrow, List.map_take]
    rfl
  · right
    refine ⟨arg.value, ?_, by rw [hrow]; rfl⟩
    rw [dataTexts, ← List.map_drop]
    exact List.mem_map_of_mem harg
  · omega

/-- A header is not split. -/
theorem not_header_of_split (hsplit : split setup s = some new) : s.type ≠ .sectionHeader := by
  obtain ⟨size, -, hsize, -⟩ := split_eq_some hsplit
  intro ht
  simp [headSize, ht] at hsize

end

/-! ## Files -/

section
variable {setup : PassSetup} {f : File}

/-- What the pass makes of a statement that a walk meets in a scope. -/
abbrev madeOf (setup : PassSetup) (m : Statement × Scope) : Statement :=
  Pass.made info (fun _ s => split setup s) m

/-- The pass writes for each statement what it makes of it. -/
theorem statements_apply (setup : PassSetup) (f : File) :
    (pass.apply setup f).tree.statements = f.meetings.map (madeOf setup) :=
  Pass.statements_ofStatements setup f

/-- A statement of a sound file stays, or is sound and split. -/
theorem madeOf_cases (hf : f.IsSound) : ∀ m ∈ f.meetings, madeOf setup m = m.1 ∨
    ∃ kind, m.1.IsSound kind ∧ split setup m.1 = some (madeOf setup m) := by
  intro m hm
  have hmem : m.1 ∈ f.statements := File.map_fst_meetings f ▸ List.mem_map_of_mem hm
  rcases Pass.made_cases info (fun _ s => split setup s) m with hsame | ⟨-, hsplit⟩
  · exact .inl hsame
  · obtain ⟨kind, hheader | hsound⟩ := hf.statement_cases m.1 hmem
    · exact absurd hheader.type (not_header_of_split hsplit)
    · exact .inr ⟨kind, hsound, hsplit⟩

/-- What holds of a statement that stays or is split holds along the statements of a file. -/
theorem forall₂_apply {R : Statement → Statement → Prop} (hf : f.IsSound) (hr : ∀ s, R s s)
    (h : ∀ {kind s new}, s.IsSound kind → split setup s = some new → R s new) :
    List.Forall₂ R f.statements (pass.apply setup f).tree.statements := by
  rw [statements_apply, ← File.map_fst_meetings, List.forall₂_map_left_iff,
    List.forall₂_map_right_iff, List.forall₂_same]
  intro m hm
  rcases madeOf_cases hf m hm with heq | ⟨kind, hsound, hsplit⟩
  · rw [heq]
    exact hr m.1
  · exact h hsound hsplit

end

/-- **Lines of statements that are split are as short as they can be.**  A source has no defect, and
the formatter is configured by a document.  Then the pass leaves each statement as it is, or gives it
lines that take no more columns than the limit and three for each tab, but for lines that hold the
head of the statement and no other cell, or the marker and one argument. -/
theorem split_lines_fit {source : String} {d : Document} {config : FormatConfig}
    (hp : (parse source).errors = []) (hc : FormatConfig.read d = .ok config) (params : Params) :
    List.Forall₂ (fun s new => new = s ∨ ∀ line ∈ splitLines new.tokens,
        config.lineLength + 3 * tabCount line < dataWidth line → IsMinimal s line)
      (parse source).statements
      (pass.apply ⟨config, params, (parse source).newline.text⟩ (parse source)).tree.statements := by
  let setup : PassSetup := ⟨config, params, (parse source).newline.text⟩
  have hv : setup.IsValid :=
    PassSetup.isValid_of_config (FormatConfig.isValid_of_read hc) params (parse source)
  exact forall₂_apply (sound_parse hp) (fun _ => .inl rfl) fun hsound hsplit =>
    .inr (rows_fit hv hsound hsplit)

set_option maxRecDepth 100000 in
/-- A call with two arguments that no line has room for, and an assignment that is longer than a line
by itself. -/
theorem split_lines_fit_wide :
    let source := "*** Test Cases ***\nA\n    ${a}    ${bbbbbbbb}=    Log    x    # y\n" ++
      "    Log    aa    bb    cccccccccccccccccccc    dd    # e\n"
    let config := { FormatConfig.default with lineLength := 22 }
    let new := (pass.apply ⟨config, [], (parse source).newline.text⟩ (parse source)).tree
    (parse source).errors = [] ∧
      FormatConfig.read (.mapping [("lineLength", .number 22)]) = .ok config ∧
      new.render = "*** Test Cases ***\nA\n    ${a}    ${bbbbbbbb}=    Log\n    ...    x    # y\n" ++
        "    Log    aa    bb\n    ...    cccccccccccccccccccc\n    ...    dd    # e\n" ∧
      List.Forall₂ (fun s new => new = s ∨ ∀ line ∈ splitLines new.tokens,
          config.lineLength + 3 * tabCount line < dataWidth line → IsMinimal s line)
        (parse source).statements new.statements := by
  intro source config new
  have hp : (parse source).errors = [] := by decide +kernel
  have hc : FormatConfig.read (.mapping [("lineLength", .number 22)]) = .ok config :=
    eq_ok_of_toOption (by decide +kernel)
  exact ⟨hp, hc, by decide +kernel, split_lines_fit hp hc []⟩

set_option maxRecDepth 100000 in
/-- Cells are kept apart by a tab, which takes three columns more than it is long: a line is left too
long although its argument could stand behind a marker. -/
theorem split_line_too_long :
    let source := "*** Test Cases ***\nA\n    Logs    x\n"
    let config := { FormatConfig.default with lineLength := 10, separator := "\t" }
    let new := (pass.apply ⟨config, [], (parse source).newline.text⟩ (parse source)).tree
    (parse source).errors = [] ∧
      FormatConfig.read (.mapping [("lineLength", .number 10), ("separator", .text "\t")]) =
        .ok config ∧
      new.render = "*** Test Cases ***\nA\n    Logs\tx\n" ∧
      ¬ List.Forall₂ (fun s new => new = s ∨ ∀ line ∈ splitLines new.tokens,
          config.lineLength < dataWidth line → IsMinimal s line)
        (parse source).statements new.statements := by
  intro source config new
  have hc : FormatConfig.read (.mapping [("lineLength", .number 10), ("separator", .text "\t")]) =
      .ok config := eq_ok_of_toOption (by decide +kernel)
  exact ⟨by decide +kernel, hc, by decide +kernel, by decide +kernel⟩

end Split
end RobotSuite
