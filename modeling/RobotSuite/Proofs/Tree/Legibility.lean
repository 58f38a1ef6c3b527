/-
# What is read back is legible

Two models with the same outline have as many headers, as many empty lines, and as many
statements.  In the text of a sound model these are read off its lines: an asterisk in
column one makes one header more, a last line without text is one empty line less, and a
comment at the end of a statement is one statement more.  So a model that is read back as it
was is legible (`File.IsSound.legible_of_read_back`), and legible models are exactly those
that are (`File.IsSound.read_back_iff`).
-/

import RobotSuite.Proofs.Token.LineLayouts
import RobotSuite.Proofs.Tree.SoundReading

namespace RobotSuite

open Text (dropEndWhile_append_takeEndWhile takeEndWhile)

/-! ## Leaves of outlines -/

mutual

/-- The statements of an outline. -/
def Outline.leaves : Outline → List Outline
  | .leaf type cells comments => [.leaf type cells comments]
  | .node _ children => leavesOf children

/-- The statements of some outlines. -/
def leavesOf : List Outline → List Outline
  | [] => []
  | o :: os => o.leaves ++ leavesOf os

end

/-- The leaves of two lists come one after the other. -/
theorem leavesOf_append (a b : List Outline) : leavesOf (a ++ b) = leavesOf a ++ leavesOf b := by
  induction a with
  | nil => rfl
  | cons o a ih => simp [leavesOf, ih]

/-- A statement is its own leaf. -/
theorem Statement.leaves_outline (s : Statement) : s.outline.leaves = [s.outline] := rfl

mutual

/-- The leaves of a body item are its statements. -/
theorem BodyItem.leaves_outline : ∀ item : BodyItem,
    item.outline.leaves = item.statements.map Statement.outline
  | .statement s => by
    rw [BodyItem.outline, BodyItem.statements]
    rfl
  | .control c => by
    rw [BodyItem.outline, BodyItem.statements]
    exact c.leaves_outline

/-- The same for a control block. -/
theorem ControlBlock.leaves_outline : ∀ c : ControlBlock,
    c.outline.leaves = c.statements.map Statement.outline
  | ⟨_, _, header, body, branches, close, _⟩ => by
    have hclose : leavesOf (close.map Statement.outline).toList =
        close.toList.map Statement.outline := by
      cases close <;> rfl
    simp [ControlBlock.outline, ControlBlock.statements, Outline.leaves, leavesOf, leavesOf_append,
      Statement.leaves_outline, leavesOf_bodyOutline body, leavesOf_branchesOutline branches,
      hclose]

/-- The same for a body. -/
theorem leavesOf_bodyOutline : ∀ items : List BodyItem,
    leavesOf (bodyOutline items) = (bodyStatements items).map Statement.outline
  | [] => rfl
  | item :: items => by
    simp [bodyOutline, bodyStatements, leavesOf, item.leaves_outline, leavesOf_bodyOutline items]

/-- The same for the branches of a block. -/
theorem leavesOf_branchesOutline : ∀ bs : List Branch,
    leavesOf (branchesOutline bs) = (branchesStatements bs).map Statement.outline
  | [] => rfl
  | ⟨_, header, body, _⟩ :: bs => by
    simp [branchesOutline, branchesStatements, Branch.outline, Branch.statements, leavesOf,
      Outline.leaves, Statement.leaves_outline, leavesOf_bodyOutline body,
      leavesOf_branchesOutline bs]

end

/-- The same for the items of a section. -/
theorem leavesOf_items (items : List SectionItem) :
    leavesOf (items.map SectionItem.outline) = (itemsStatements items).map Statement.outline := by
  induction items with
  | nil => rfl
  | cons item items ih =>
    rw [List.map_cons, leavesOf, ih, itemsStatements, itemsStatements, List.flatMap_cons,
      List.map_append]
    congr 1
    cases item with
    | statement s => rfl
    | block b =>
      simp [SectionItem.outline, SectionItem.statements, Block.outline, Block.statements,
        Outline.leaves, leavesOf, Statement.leaves_outline, leavesOf_bodyOutline]

/-- The statements of the outline of a section. -/
def SectionOutline.leaves (s : SectionOutline) : List Outline :=
  leavesOf (s.header.toList ++ s.items)

/-- The same for a section. -/
theorem Section.leaves_outline (s : Section) :
    s.outline.leaves = s.statements.map Statement.outline := by
  rw [SectionOutline.leaves, Section.outline, leavesOf_append, leavesOf_items, Section.statements,
    List.map_append]
  cases s.header <;> rfl

/-- The statements of the outline of a file are the outlines of its statements. -/
theorem File.leaves_outline (f : File) :
    f.outline.flatMap SectionOutline.leaves = f.statements.map Statement.outline := by
  rw [File.outline, File.statements, List.flatMap_map]
  induction f.sections with
  | nil => rfl
  | cons s ss ih =>
    rw [List.filter_cons, List.flatMap_cons, List.map_append, ← s.leaves_outline, ← ih]
    split
    · rw [List.flatMap_cons]
    · rename_i hs
      have hnil : s.statements = [] := by simpa using hs
      simp [s.leaves_outline, hnil]

/-- Files with one outline have statements with the same outlines. -/
theorem statements_of_outline {f g : File} (h : f.outline = g.outline) :
    f.statements.map Statement.outline = g.statements.map Statement.outline := by
  rw [← f.leaves_outline, ← g.leaves_outline, h]

/-- Files of one outline hold statements of the same types. -/
theorem types_of_outline {f g : File} (h : f.outline = g.outline) :
    f.statements.map (·.type) = g.statements.map (·.type) := by
  have hlift {ss rs : List Statement} (h : ss.map Statement.outline = rs.map Statement.outline) :
      ss.map (·.type) = rs.map (·.type) := by
    induction ss generalizing rs with
    | nil =>
      obtain rfl : rs = [] := by simpa [eq_comm] using h
      rfl
    | cons s ss ih =>
      obtain ⟨r, rs, rfl, hr, hrs⟩ := List.map_eq_cons_iff.1 h.symm
      rw [List.map_cons, List.map_cons, ih hrs.symm, Statement.type_of_outline hr]
  exact hlift (statements_of_outline h)

/-! ## Counting lines -/

section
variable {α β : Type}

/-- Where one test passes another does, and as many pass both, they pass the same. -/
theorem of_countP_eq {p q : α → Bool} {xs : List α} (h : ∀ x ∈ xs, p x = true → q x = true)
    (hc : xs.countP q = xs.countP p) : ∀ x ∈ xs, q x = true → p x = true := by
  induction xs with
  | nil => simp
  | cons x xs ih =>
    have hrest : ∀ y ∈ xs, p y = true → q y = true := fun y hy => h y (List.mem_cons_of_mem _ hy)
    have hle : xs.countP p ≤ xs.countP q := List.countP_mono_left hrest
    have hx := h x List.mem_cons_self
    rw [List.countP_cons, List.countP_cons] at hc
    have hxx : q x = true → p x = true := by
      intro hq
      cases hp : p x with
      | true => rfl
      | false =>
        rw [hq, hp] at hc
        simp only [if_true, Bool.false_eq_true, if_false] at hc
        omega
    have hsame : q x = p x := by
      rw [Bool.eq_iff_iff]
      exact ⟨hxx, hx⟩
    rw [hsame, Nat.add_right_cancel_iff] at hc
    intro y hy
    rcases List.mem_cons.1 hy with rfl | hy
    · exact hxx
    · exact ih hrest hc y hy

/-- As many lines pass a test as the things they belong to pass another. -/
theorem countP_flatMap_eq {p : β → Bool} {q : α → Bool} {f : α → List β} {xs : List α}
    (h : ∀ x ∈ xs, (f x).countP p = (q x).toNat) : (xs.flatMap f).countP p = xs.countP q := by
  induction xs with
  | nil => rfl
  | cons x xs ih =>
    rw [List.flatMap_cons, List.countP_append, h x List.mem_cons_self,
      ih fun y hy => h y (List.mem_cons_of_mem _ hy), List.countP_cons, Nat.add_comm]
    cases q x <;> rfl

/-- Lists with an element at least have one each if they are as many as all elements. -/
theorem length_eq_one_of_flatMap {f : α → List β} {xs : List α} (h : ∀ x ∈ xs, f x ≠ [])
    (hl : (xs.flatMap f).length = xs.length) : ∀ x ∈ xs, (f x).length = 1 := by
  have hle {xs : List α} (h : ∀ x ∈ xs, f x ≠ []) : xs.length ≤ (xs.flatMap f).length := by
    induction xs with
    | nil => simp
    | cons x xs ih =>
      have := ih fun y hy => h y (List.mem_cons_of_mem _ hy)
      have := List.length_pos_iff.2 (h x List.mem_cons_self)
      rw [List.flatMap_cons, List.length_append, List.length_cons]
      omega
  induction xs with
  | nil => simp
  | cons x xs ih =>
    have hrest : ∀ y ∈ xs, f y ≠ [] := fun y hy => h y (List.mem_cons_of_mem _ hy)
    have := List.length_pos_iff.2 (h x List.mem_cons_self)
    have := hle hrest
    rw [List.flatMap_cons, List.length_append, List.length_cons] at hl
    intro y hy
    rcases List.mem_cons.1 hy with rfl | hy
    · omega
    · exact ih hrest (by omega) y hy

end

/-- A written line is blank when it has neither cell nor comment. -/
theorem Written.isBlankLine {k : Option TokenKind} {line : List Token} (h : Written k line) :
    RobotSuite.isBlankLine line = (k == none && !line.any (·.isComment)) := by
  cases k with
  | some k =>
    obtain ⟨t, ht, rfl⟩ := h.exists_of_some
    have hk : t.kind = .sectionHeader ∨ t.kind = .continuation ∨ t.kind = .name ∨
        t.kind = .argument := by
      rcases h.kind_cases with h | h | h | h | h <;> simp_all
    rw [RobotSuite.isBlankLine, List.all_eq_false.2 ⟨t, ht, ?_⟩]
    · rfl
    · rcases hk with hk | hk | hk | hk <;> simp [Token.isSeparator, Token.isEol, hk]
  | none =>
    rw [RobotSuite.isBlankLine, Bool.eq_iff_iff]
    simp only [beq_self_eq_true, Bool.true_and, Bool.not_eq_true', List.all_eq_true,
      List.any_eq_false]
    refine forall₂_congr fun t ht => ?_
    rcases h.kind_of_none t ht with h | h | h <;>
      simp [Token.isSeparator, Token.isEol, Token.isComment, h]

/-- Bare lines are blank alike. -/
@[simp] theorem isBlankLine_map_bare (line : List Token) :
    isBlankLine (line.map Token.bare) = isBlankLine line := by
  simp [isBlankLine, List.all_map, Function.comp_def]

/-- The line of an empty line is blank, and no other line is. -/
theorem Statement.IsSound.countP_isBlankLine {kind : SectionKind} {s : Statement}
    (h : s.IsSound kind) :
    (splitLines s.tokens).countP isBlankLine = (s.type == .emptyLine).toNat := by
  obtain ⟨-, -, hplain, hdata⟩ := readsAs_iff.1 h.reads
  have hflat := flatten_splitLines s.tokens
  have hlaid := h.laid
  generalize splitLines s.tokens = lines at hlaid hflat
  cases hlaid with
  | @plain line hw =>
    have htokens : s.tokens = line := by simpa using hflat.symm
    have ht := hplain (by rw [htokens, hw.dataTexts_of_none])
    rw [commentTexts_isEmpty, htokens] at ht
    rw [List.countP_cons, List.countP_nil, hw.isBlankLine, ht]
    cases line.any (·.isComment) <;> rfl
  | @data k first more hw hk hm =>
    have hfirst : isBlankLine first = false := by
      rw [hw.isBlankLine]
      rcases hk with rfl | rfl <;> rfl
    have hmore : more.countP isBlankLine = 0 := by
      rw [List.countP_eq_zero]
      intro l hl
      rcases hm l hl with hw | ⟨hw, hc⟩
      · simp [hw.isBlankLine]
      · simp [hw.isBlankLine, hc]
    have hd : dataTexts s.tokens ≠ [] := by
      obtain ⟨t, ht, hk⟩ := List.any_eq_true.1 (hw.any_isData_of_startsData hk)
      rw [← hflat, List.flatten_cons, dataTexts_append]
      intro hn
      have hmem : t.value ∈ dataTexts first := List.mem_map_of_mem (List.mem_filter.2 ⟨ht, hk⟩)
      rw [(List.append_eq_nil_iff.1 hn).1] at hmem
      simp at hmem
    have hne : (s.type == .emptyLine) = false := by
      rw [(hdata hd).1]
      exact beq_false_of_ne (dataType_ne kind _).1
    simp [hfirst, hmore, hne]

section
variable {f : File}

/-- A sound file has as many header lines as headers. -/
theorem File.IsSound.countP_headers (h : f.IsSound) :
    f.lines.countP isHeaderLine = f.statements.countP (·.type == .sectionHeader) :=
  countP_flatMap_eq fun s hs => (h.laid s hs).countP_isHeaderLine

/-- A sound file has as many blank lines as empty lines. -/
theorem File.IsSound.countP_emptyLines (h : f.IsSound) :
    f.lines.countP isBlankLine = f.statements.countP (·.type == .emptyLine) := by
  refine countP_flatMap_eq fun s hs => ?_
  obtain ⟨kind, hs | hs⟩ := h.statement_cases s hs
  · have hlaid := hs.laid
    rw [hs.type]
    generalize splitLines s.tokens = lines at hlaid
    cases hlaid with
    | header hw =>
      simp only [List.countP_cons, List.countP_nil, hw.isBlankLine]
      rfl
  · exact hs.countP_isBlankLine

/-! ## Reading the text of a file -/

/-- Bare tokens have the same characters. -/
theorem chars_map_bare (line : List Token) : chars (line.map Token.bare) = chars line := by
  simp [chars, List.flatMap_map]

/-- Pieces without places have the same characters. -/
theorem chars_map_bare_pieces (ps : List Piece) : chars (ps.map Piece.bare) = pieceText ps := by
  simp [chars, pieceText, List.flatMap_map, Piece.bare, Token.create]

/-- The lines that are read from the text of a file are its lines that have a text. -/
theorem File.IsSound.chars_tokenize (h : f.IsSound) (hi : f.issues = []) :
    (tokenize f.render).map chars = (withText f.lines).map chars := by
  have hbare := congrArg (List.map chars) (h.bare_tokenize hi)
  simp only [List.map_map, Function.comp_def, chars_map_bare, chars_map_bare_pieces] at hbare
  rw [hbare]
  refine List.map_congr_left fun line hmem => ?_
  have hmem : line ∈ f.lines := (List.mem_filter.1 hmem).1
  obtain ⟨k, hk⟩ := h.written line hmem
  obtain @⟨ts, e, hline, he⟩ := hk
  have hts : isUnbroken (chars ts) = true := by
    refine isUnbroken_chars fun t ht => unbroken_of_issues hi t ?_ (hline.kind t ht).1
    rw [← flatten_lines]
    exact List.mem_flatten.2 ⟨_, hmem, List.mem_append_left _ ht⟩
  rw [pieceText_nextPieces, cutLine_line hts he]
  simp

/-- A text that starts with an asterisk has a line that does. -/
theorem exists_startsWithAsterisk {lines : List (List Token)}
    (h : startsWithAsterisk (chars lines.flatten) = true) :
    ∃ l ∈ lines, startsWithAsterisk (chars l) = true := by
  induction lines with
  | nil => cases h
  | cons l lines ih =>
    rw [List.flatten_cons, chars_append] at h
    cases hl : chars l with
    | nil =>
      rw [hl, List.nil_append] at h
      obtain ⟨r, hr, hs⟩ := ih h
      exact ⟨r, List.mem_cons_of_mem _ hr, hs⟩
    | cons c cs =>
      refine ⟨l, List.mem_cons_self, ?_⟩
      rw [hl] at h
      simpa [startsWithAsterisk, hl] using h

/-- A source without a defect is read as lines that start with an asterisk where they are
headers. -/
theorem isHeaderLine_of_clean {source : String} (h : (parse source).errors = []) :
    ∀ line ∈ tokenize source, isHeaderLine line = startsWithAsterisk (chars line) := by
  intro line hline
  obtain ⟨hwritten, -⟩ := groups_of_clean h
  obtain ⟨k, hk⟩ := hwritten line hline
  obtain ⟨k, hk, hstar⟩ := written_of_mem_lines hline hk.known
  rw [hk.isHeaderLine, Bool.eq_iff_iff, beq_iff_eq, hstar]

/-- A statement with data that is put together to one does not end with a comment. -/
theorem Laid.not_isCommentLine {header : Bool} {lines : List (List Token)}
    (h : Laid header lines) (hd : ∃ l ∈ lines, l.any (·.isData) = true)
    (hone : (RobotSuite.regroup lines).length = 1) :
    ∀ line ∈ lines.getLast?, isCommentLine line = false := by
  intro line hline
  cases h with
  | header hw =>
    obtain rfl := by simpa using hline
    exact hw.isCommentLine_of_some
  | plain hw =>
    obtain ⟨l, hl, hd⟩ := hd
    obtain rfl := List.mem_singleton.1 hl
    rw [hw.any_isData_of_none] at hd
    cases hd
  | @data k first more hw hk hm =>
    have hnil : takeEndWhile RobotSuite.isCommentLine more = [] := by
      rw [RobotSuite.regroup, List.length_cons, List.length_map] at hone
      exact List.length_eq_zero_iff.1 (by omega)
    have hmore : ∀ l ∈ more.getLast?, RobotSuite.isCommentLine l = false := by
      have hdrop := dropEndWhile_append_takeEndWhile RobotSuite.isCommentLine more
      rw [hnil, List.append_nil] at hdrop
      rw [← hdrop]
      exact Text.getLast?_dropEndWhile _ _
    rw [List.getLast?_cons] at hline
    cases hl : more.getLast? with
    | none =>
      obtain rfl : first = line := by simpa [hl] using hline
      rcases hk with rfl | rfl <;> exact hw.isCommentLine_of_some
    | some l =>
      obtain rfl : l = line := by simpa [hl] using hline
      exact hmore l hl

/-! ## The text is read as the file -/

section
variable (h : f.IsSound) (hc : (parse f.render).errors = [])
  (ho : (parse f.render).outline = f.outline)
include h hc ho

/-- Headers that are read back start with an asterisk, since those that are read do. -/
theorem File.IsSound.asterisk_of_read_back :
    ∀ s ∈ f.statements, s.type = .sectionHeader → startsWithAsterisk (chars s.tokens) = true := by
  intro s hs htype
  have hsame : s.outline ∈ (parse f.render).statements.map Statement.outline :=
    statements_of_outline ho ▸ List.mem_map_of_mem hs
  obtain ⟨r, hr, hrs⟩ := List.mem_map.1 hsame
  have hrtype : r.type = .sectionHeader := (Statement.type_of_outline hrs).trans htype
  have hlaid {g : File} (hg : g.IsSound) {x : Statement} (hx : x ∈ g.statements)
      (ht : x.type = .sectionHeader) : Laid true (splitLines x.tokens) := by
    have := hg.laid x hx
    rwa [ht, beq_self_eq_true] at this
  have hread := hlaid (sound_parse hc) hr hrtype
  have hstar : startsWithAsterisk (chars r.tokens) = true := by
    have hlines := hread.isHeaderLine
    have hmem : ∀ l ∈ splitLines r.tokens, l ∈ tokenize f.render := fun l hl =>
      lines_parse hc ▸ List.mem_flatMap.2 ⟨r, hr, hl⟩
    have hflat := flatten_splitLines r.tokens
    generalize splitLines r.tokens = lines at hread hlines hmem hflat
    cases hread with
    | @header line hw =>
      obtain rfl : line = r.tokens := by simpa using hflat
      rw [← isHeaderLine_of_clean hc _ (hmem _ List.mem_cons_self)]
      simpa using hlines
  have hdata : dataTexts s.tokens = dataTexts r.tokens := by
    rw [Statement.outline, Statement.outline] at hrs
    injection hrs with _ hdata
    exact hdata.symm
  rw [(hlaid h hs htype).startsWithAsterisk_header, hdata, ← hread.startsWithAsterisk_header]
  exact hstar

end

section
variable (h : f.IsSound) (hi : f.issues = []) (hc : (parse f.render).errors = [])
  (ho : (parse f.render).outline = f.outline)
include h hi hc ho

/-- Headers are the lines that start with an asterisk. -/
theorem File.IsSound.isHeaderLine_of_read_back :
    ∀ line ∈ f.lines, isHeaderLine line = startsWithAsterisk (chars line) := by
  have hstar : ∀ line ∈ f.lines, isHeaderLine line = true →
      startsWithAsterisk (chars line) = true := by
    intro line hline hheader
    obtain ⟨s, hs, hline⟩ := List.mem_flatMap.1 hline
    have hlaid := h.laid s hs
    have hcount := hlaid.countP_isHeaderLine
    cases htype : s.type == .sectionHeader with
    | false =>
      rw [htype] at hcount
      exact absurd hheader (List.countP_eq_zero.1 hcount line hline)
    | true =>
      have hstar := h.asterisk_of_read_back hc ho s hs (beq_iff_eq.1 htype)
      rw [htype] at hlaid
      have hflat := flatten_splitLines s.tokens
      generalize splitLines s.tokens = lines at hlaid hline hflat
      cases hlaid with
      | @header l hw =>
        obtain rfl : l = s.tokens := by simpa using hflat
        rwa [List.mem_singleton.1 hline]
  -- the lines that are read start with an asterisk where they are headers, and are as many
  have hcount : f.lines.countP (fun l => startsWithAsterisk (chars l)) =
      f.lines.countP isHeaderLine := by
    have hread : f.lines.countP isHeaderLine = (tokenize f.render).countP isHeaderLine := by
      rw [← lines_parse hc, h.countP_headers, (sound_parse hc).countP_headers]
      have htypes := congrArg (List.countP (· == .sectionHeader)) (types_of_outline ho)
      simpa [List.countP_map, Function.comp_def] using htypes.symm
    have hchars := congrArg (List.countP startsWithAsterisk) (h.chars_tokenize hi)
    rw [List.countP_map, List.countP_map, withText, List.countP_filter] at hchars
    have hclean : (tokenize f.render).countP isHeaderLine =
        (tokenize f.render).countP (startsWithAsterisk ∘ chars) :=
      List.countP_congr fun line hline => by rw [isHeaderLine_of_clean hc line hline]; rfl
    rw [hread, hclean, hchars]
    refine List.countP_congr fun line _ => ?_
    cases hl : chars line <;> simp [startsWithAsterisk, hl]
  intro line hline
  rw [Bool.eq_iff_iff]
  exact ⟨hstar line hline, of_countP_eq hstar hcount line hline⟩

/-- The lines with a text are read as they are. -/
theorem File.IsSound.bare_tokenize_of_read_back :
    (tokenize f.render).map (·.map Token.bare) = (withText f.lines).map (·.map Token.bare) := by
  rw [h.bare_tokenize hi]
  refine List.map_congr_left fun line hmem => ?_
  have hmem : line ∈ f.lines := (List.mem_filter.1 hmem).1
  obtain ⟨k, hk⟩ := h.written line hmem
  refine bare_line (flaws_of_mem_statements hi) hmem hk ?_
  rw [← h.isHeaderLine_of_read_back hi hc ho line hmem, hk.isHeaderLine, beq_iff_eq]

/-- All lines have a text. -/
theorem File.IsSound.chars_of_read_back : ∀ line ∈ f.lines, chars line ≠ [] := by
  -- a line without text is blank, and is not read
  have hcount : f.lines.countP isBlankLine =
      f.lines.countP fun l => isBlankLine l && !(chars l).isEmpty := by
    have hread : f.lines.countP isBlankLine = (tokenize f.render).countP isBlankLine := by
      rw [← lines_parse hc, h.countP_emptyLines, (sound_parse hc).countP_emptyLines]
      have htypes := congrArg (List.countP (· == .emptyLine)) (types_of_outline ho)
      simpa [List.countP_map, Function.comp_def] using htypes.symm
    have hbare := congrArg (List.countP isBlankLine) (h.bare_tokenize_of_read_back hi hc ho)
    rw [List.countP_map, List.countP_map, withText, List.countP_filter] at hbare
    simp only [Function.comp_def, isBlankLine_map_bare] at hbare
    rw [hread, hbare]
  intro line hline hnil
  obtain ⟨k, hk⟩ := h.written line hline
  have hblank : isBlankLine line = true := by
    rw [hk.isBlankLine]
    refine Classical.byContradiction fun hn => hk.chars_ne_nil ?_ hnil
    rw [Bool.and_eq_true, Bool.not_eq_true', beq_iff_eq] at hn
    by_cases hkind : k = none
    · exact .inr (by simpa [hkind] using hn)
    · exact .inl hkind
  have := of_countP_eq (fun l _ hl => (Bool.and_eq_true_iff.1 hl).1) hcount line hline hblank
  simp [hnil] at this

/-- Each statement is put together to one. -/
theorem File.IsSound.length_regroup_of_read_back :
    ∀ s ∈ f.statements, (regroup (splitLines s.tokens)).length = 1 := by
  have htext : withText f.lines = f.lines := by
    rw [withText, List.filter_eq_self]
    intro line hline
    simpa using h.chars_of_read_back hi hc ho line hline
  have hgroups : (groupLines f.lines).length = f.statements.length := by
    have hread : (parse f.render).statements.length = f.statements.length := by
      simpa using congrArg List.length (types_of_outline ho)
    have htokens := congrArg List.length (tokenLists_parseTokens (tokenize f.render))
    have hbare := congrArg (fun ls => (groupLines ls).length)
      (h.bare_tokenize_of_read_back hi hc ho)
    simp only [htext, groupLines_map_bare, List.length_map] at hbare
    rw [← hbare, ← hread, parse]
    simpa [tokenLists] using htokens.symm
  rw [h.regroup_lines] at hgroups
  refine length_eq_one_of_flatMap (fun s hs => ?_) hgroups
  have hne := (h.laid s hs).ne_nil
  cases hl : splitLines s.tokens with
  | nil => exact absurd hl hne
  | cons l ls => simp [regroup]

/-- **What is read back is legible.** -/
theorem File.IsSound.legible_of_read_back : f.Legible := by
  refine ⟨fun s hs => ?_, fun s hs hdata => ?_, fun s hs htext => ?_⟩
  · cases htype : s.type == .sectionHeader with
    | true =>
      rw [toList_text]
      exact h.asterisk_of_read_back hc ho s hs (beq_iff_eq.1 htype)
    | false =>
    have hlaid := h.laid s hs
    rw [htype] at hlaid
    rw [Bool.eq_false_iff]
    intro hstar
    rw [toList_text, ← flatten_splitLines s.tokens] at hstar
    obtain ⟨l, hl, hstar⟩ := exists_startsWithAsterisk hstar
    have hmem : l ∈ f.lines := List.mem_flatMap.2 ⟨s, hs, hl⟩
    have hnone := List.countP_eq_zero.1 hlaid.countP_isHeaderLine l hl
    rw [h.isHeaderLine_of_read_back hi hc ho l hmem] at hnone
    exact hnone hstar
  · refine (h.laid s hs).not_isCommentLine ?_ (h.length_regroup_of_read_back hi hc ho s hs)
    obtain ⟨t, ht⟩ := List.exists_mem_of_ne_nil _ hdata
    obtain ⟨ht, hk⟩ := List.mem_filter.1 ht
    rw [← flatten_splitLines s.tokens] at ht
    obtain ⟨l, hl, ht⟩ := List.mem_flatten.1 ht
    exact ⟨l, hl, List.any_eq_true.2 ⟨t, ht, hk⟩⟩
  · have hs := List.mem_of_getLast? hs
    have hlaid := h.laid s hs
    obtain ⟨front, e, htokens, he⟩ := hlaid.getLast?
    obtain ⟨l, hl⟩ := List.exists_mem_of_ne_nil _ hlaid.ne_nil
    refine h.chars_of_read_back hi hc ho l (List.mem_flatMap.2 ⟨s, hs, hl⟩) ?_
    have hnil : chars s.tokens = [] := by
      rw [← toList_text, htext]
      rfl
    rw [← flatten_splitLines s.tokens, chars, List.flatMap_eq_nil_iff] at hnil
    rw [chars, List.flatMap_eq_nil_iff]
    exact fun t ht => hnil t (List.mem_flatten.2 ⟨l, hl, ht⟩)

end

/-- **A sound and valid model is read back exactly if it is legible.** -/
theorem File.IsSound.read_back_iff (h : f.IsSound) (hi : f.issues = []) :
    (parse f.render).errors = [] ∧ (parse f.render).outline = f.outline ↔ f.Legible :=
  ⟨fun ⟨hc, ho⟩ => h.legible_of_read_back hi hc ho, h.read_back hi⟩

end

end RobotSuite
