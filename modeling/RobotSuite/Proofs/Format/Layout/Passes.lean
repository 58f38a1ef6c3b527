/-
# Layout keeps files sound and valid

A column is as wide as the widest cell in it that another cell follows
(`Columns.widthAt_widthsOf_le_iff`), so it does not get wider when calls are left out
(`Columns.widthAt_filter_le`).  Calls are left out in rounds, and there is an end to it, since every
round but the last leaves a call out.  Those that are left fit with the widths that they have
themselves, and each that has been left out was too long with widths that were no smaller
(`Columns.settle_spec`).

Passes that write lines with other gaps keep the cells and comments of each line and whether
a statement starts in column one: names of blocks stand at the margin, and what stands in
their bodies is indented (`Gaps.keepsSound_pass`, `Columns.keepsSound_pass`).  The line ending
of a statement stays as well (`Gaps.keepsBreaks_pass`, `Columns.keepsBreaks_pass`).
-/

import Mathlib.Logic.Basic
import RobotSuite.Format.Columns
import RobotSuite.Format.Gaps
import RobotSuite.Proofs.Statement.NewTokens
import RobotSuite.Proofs.Transform.LineEnds

namespace RobotSuite

/-- A cell in a column of a line, with another cell behind it. -/
def LineLayout.Followed (l : LineLayout) (column : Nat) (cell : Token) : Prop :=
  l.cells[column]? = some cell ∧ column + 1 < l.cells.length

namespace Columns

/-- The width of a column; a missing width counts as zero. -/
def widthAt (widths : List Nat) (column : Nat) : Nat := (widths[column]?).getD 0

section
variable {column n : Nat}

/-- The widest of two lists of columns is wide enough for both, and no wider. -/
theorem widthAt_maxWidths (vs ws : List Nat) (column : Nat) :
    widthAt (maxWidths vs ws) column = max (widthAt vs column) (widthAt ws column) := by
  induction vs generalizing ws column with
  | nil => simp [maxWidths, widthAt]
  | cons v vs ih =>
    cases ws with
    | nil => simp [maxWidths, widthAt]
    | cons w ws =>
      cases column with
      | zero => rfl
      | succ column => exact ih ws column

/-- A row's last cell asks for no width: the others bound the column. -/
theorem widthAt_dropLast_le_iff (row : List Token) :
    widthAt (row.dropLast.map fun t => Text.length t.value) column ≤ n ↔
      ∀ cell, row[column]? = some cell → column + 1 < row.length → Text.length cell.value ≤ n := by
  rw [widthAt, List.getElem?_map, List.getElem?_dropLast]
  by_cases hc : column + 1 < row.length
  · rw [if_pos (by omega)]
    cases row[column]? with
    | none => simp
    | some cell => simp [hc]
  · rw [if_neg (by omega)]
    simp [hc]

/-- A column is at most `n` wide exactly when each row's cell in it is. -/
theorem widthAt_columnWidths_le_iff (rows : List (List Token)) :
    widthAt (columnWidths rows) column ≤ n ↔ ∀ row ∈ rows, ∀ cell, row[column]? = some cell →
      column + 1 < row.length → Text.length cell.value ≤ n := by
  have hfold (widths : List Nat) : widthAt (rows.foldl (fun widths row =>
      maxWidths widths (row.dropLast.map fun t => Text.length t.value)) widths) column ≤ n ↔
      widthAt widths column ≤ n ∧ ∀ row ∈ rows, ∀ cell, row[column]? = some cell →
        column + 1 < row.length → Text.length cell.value ≤ n := by
    induction rows generalizing widths with
    | nil => simp
    | cons row rows ih =>
      rw [List.foldl_cons, ih, widthAt_maxWidths, Nat.max_le, widthAt_dropLast_le_iff,
        List.forall_mem_cons, and_assoc]
  rw [columnWidths, hfold, and_iff_right]
  exact Nat.zero_le n

variable {cs : List (Option Candidate)}

/-- **How wide a column is:** as wide as the widest cell in it that another cell follows. -/
theorem widthAt_widthsOf_le_iff : widthAt (widthsOf cs) column ≤ n ↔
    ∀ c, some c ∈ cs → ∀ l ∈ c.lines, ∀ cell, l.Followed column cell →
      Text.length cell.value ≤ n := by
  rw [widthsOf, widthAt_columnWidths_le_iff]
  constructor
  · intro h c hc l hl cell hcell
    refine h l.cells ?_ cell hcell.1 hcell.2
    exact List.mem_flatMap.2 ⟨c, List.mem_filterMap.2 ⟨_, hc, rfl⟩, List.mem_map_of_mem hl⟩
  · intro h row hrow cell hcell hnext
    obtain ⟨c, hc, hrow⟩ := List.mem_flatMap.1 hrow
    obtain ⟨_, hmem, rfl⟩ := List.mem_filterMap.1 hc
    obtain ⟨l, hl, rfl⟩ := List.mem_map.1 hrow
    exact h c hmem l hl cell ⟨hcell, hnext⟩

/-- Filtering the candidates keeps those that pass the test. -/
theorem mem_map_filter {p : Candidate → Bool} {c : Candidate} :
    some c ∈ cs.map (·.filter p) ↔ some c ∈ cs ∧ p c = true := by
  rw [List.mem_map]
  constructor
  · rintro ⟨call, hcall, hfilter⟩
    obtain ⟨rfl, hc⟩ := Option.filter_eq_some_iff.1 hfilter
    exact ⟨hcall, hc⟩
  · rintro ⟨hmem, hc⟩
    exact ⟨some c, hmem, Option.filter_eq_some_iff.2 ⟨rfl, hc⟩⟩

/-- No column gets wider when calls are left out. -/
theorem widthAt_filter_le (q : Candidate → Bool) (column : Nat) :
    widthAt (widthsOf (cs.map (·.filter q))) column ≤ widthAt (widthsOf cs) column := by
  rw [widthAt_widthsOf_le_iff]
  intro c hc
  exact widthAt_widthsOf_le_iff.1 (Nat.le_refl _) c (mem_map_filter.1 hc).1

end

/-! ## Rounds -/

/-- The calls that are chosen from some calls: with the widths of their own columns they fit, and
each other call is too long with widths that are no smaller. -/
structure IsSettled (limit : Nat) (separator : String) (cs calls : List (Option Candidate)) :
    Prop where
  chosen : calls = cs.map (·.filter fun c => calls.contains (some c))
  fitting : ∀ c, some c ∈ calls → fits limit (c.align separator (widthsOf calls)) = true
  overflowing : ∀ c, some c ∈ cs → some c ∉ calls → ∃ more, (∀ column,
    widthAt (widthsOf calls) column ≤ widthAt more column) ∧
      fits limit (c.align separator more) = false

/-- Filtering leaves no more candidates than there were. -/
theorem count_filter_le (p : Candidate → Bool) (cs : List (Option Candidate)) :
    count (cs.map (·.filter p)) ≤ count cs := by
  rw [count, count, List.countP_map]
  exact List.countP_mono_left fun c _ h => Option.isSome_of_isSome_filter p c h

/-- If a choice leaves no call out, it takes all of them. -/
theorem of_count_filter {p : Candidate → Bool} {cs : List (Option Candidate)}
    (h : count (cs.map (·.filter p)) = count cs) : ∀ c, some c ∈ cs → p c = true := by
  induction cs with
  | nil => simp
  | cons call cs ih =>
    have hle := count_filter_le p cs
    rw [List.map_cons, count, count, List.countP_cons, List.countP_cons] at h
    rw [count, count] at hle ih
    intro c hc
    cases call with
    | none => exact ih (by simpa using h) c (by simpa using hc)
    | some d =>
      cases hd : p d with
      | true =>
        rw [Option.filter_some, if_pos hd] at h
        rcases List.mem_cons.1 hc with hcd | hc
        · rw [Option.some.inj hcd, hd]
        · exact ih (Nat.add_right_cancel h) c hc
      | false =>
        rw [Option.filter_some, if_neg (by simp [hd])] at h
        simp only [Option.isSome_some, if_true] at h
        omega

/-- The settled calls are among the candidates. -/
theorem IsSettled.mem {limit : Nat} {separator : String} {cs calls : List (Option Candidate)}
    (h : IsSettled limit separator cs calls) {c : Candidate} (hc : some c ∈ calls) :
    some c ∈ cs := by
  rw [h.chosen] at hc
  exact (mem_map_filter.1 hc).1

/-- **What the rounds end with.** -/
theorem settle_spec (limit : Nat) (separator : String) (cs : List (Option Candidate)) :
    IsSettled limit separator cs (settle limit separator cs) := by
  fun_induction settle limit separator cs with
  | case1 cs h =>
    refine ⟨?_, fun c hc => of_count_filter h c hc, fun c hc hnot => absurd hc hnot⟩
    refine (List.map_id cs).symm.trans (List.map_congr_left fun call hcall => ?_)
    cases call with
    | none => rfl
    | some c => exact (if_pos (List.contains_iff_mem.2 hcall)).symm
  | case2 cs h ih =>
    have hmem {c : Candidate} : some c ∈ keepFitting limit separator cs ↔
        some c ∈ cs ∧ fits limit (c.align separator (widthsOf cs)) = true := mem_map_filter
    generalize settle limit separator (keepFitting limit separator cs) = calls at ih ⊢
    have hfilter : calls = cs.map (·.filter fun c => calls.contains (some c)) := by
      -- what is chosen in the end has fitted in the first round
      refine ih.chosen.trans ?_
      rw [keepFitting, List.map_map]
      refine List.map_congr_left fun call hcall => ?_
      rw [Function.comp_apply, Option.filter_filter]
      refine congrArg (Option.filter · call) (funext fun c => ?_)
      cases hc : calls.contains (some c) with
      | false => rw [Bool.and_false]
      | true =>
        rw [Bool.and_true]
        exact (hmem.1 (ih.mem (List.contains_iff_mem.1 hc))).2
    refine ⟨hfilter, ih.fitting, fun c hc hnot => ?_⟩
    cases hfit : fits limit (c.align separator (widthsOf cs)) with
    | true => exact ih.overflowing c (hmem.2 ⟨hc, hfit⟩) hnot
    | false =>
      refine ⟨widthsOf cs, fun column => ?_, hfit⟩
      rw [hfilter]
      exact widthAt_filter_le _ column

end Columns

/-! ## Runs of spaces -/

/-- Blanks are gap characters. -/
theorem all_isGap_spaces (n : Nat) : (Text.spaces n).toList.all Text.isGap = true := by
  rw [Text.toList_spaces, List.all_eq_true]
  intro c hc
  rw [List.eq_of_mem_replicate hc]
  decide

/-- No blanks are the empty text. -/
theorem spaces_eq_empty {n : Nat} : Text.spaces n = "" ↔ n = 0 := by
  rw [← String.toList_inj, Text.toList_spaces]
  simp

/-- Any number of blanks is an indent. -/
theorem isIndent_spaces (n : Nat) : IsIndent (Text.spaces n) := by
  by_cases hn : n = 0
  · exact .inl (spaces_eq_empty.2 hn)
  · exact .inr ⟨fun h => hn (spaces_eq_empty.1 h), all_isGap_spaces n⟩

/-- A wide gap stays wide behind further spaces. -/
theorem IsWide.spaces_append {separator : String} (h : IsWide separator) (n : Nat) :
    IsWide (Text.spaces n ++ separator) := by
  obtain ⟨hg, hw⟩ := h
  refine ⟨?_, ?_⟩
  · rw [String.toList_append, List.all_append, all_isGap_spaces, hg]
    rfl
  · rw [isCellSeparator, Bool.or_eq_true, decide_eq_true_eq] at hw ⊢
    rcases hw with hw | hw
    · left
      rw [Text.length_append]
      omega
    · right
      rw [String.toList_append]
      simp only [List.contains_eq_mem, decide_eq_true_eq, List.mem_append] at hw ⊢
      exact .inr hw

/-- Lines that are laid out again end with the line breaks that they had. -/
theorem Statement.BreaksIn.composeLines {N : String → Prop} {s : Statement} (h : s.BreaksIn N)
    {indent separator : String} {gapAt : List Token → Nat → String} :
    (s.withTokens (composeLines indent separator gapAt s.tokens)).BreaksIn N :=
  h.of_mem fun _ ht hk => (ending_of_mem_composeLines ht hk).imp_left .inl

/-! ## What is read -/

section
variable {kind : SectionKind} {s : Statement}

/-- Data does not stand in a section with blocks by itself. -/
theorem Statement.IsSound.not_inSection {owner : BlockType} (h : s.IsSound kind)
    (hk : kind.blockType? = some owner) (hd : dataTexts s.tokens ≠ []) :
    s.type.inSection kind = false := by
  obtain ⟨-, -, -, hdata⟩ := readsAs_iff.1 h.reads
  rw [(hdata hd).1]
  have hbody : bodyType (dataTokens s.tokens) ≠ .emptyLine ∧
      bodyType (dataTokens s.tokens) ≠ .comment ∧ bodyType (dataTokens s.tokens) ≠ .error :=
    ⟨bodyType_ne _ rfl, bodyType_ne _ rfl, bodyType_ne _ rfl⟩
  cases kind <;> simp only [SectionKind.blockType?, reduceCtorEq] at hk <;>
    simp only [dataType] <;> split <;> first
      | rfl
      | (cases hb : bodyType (dataTokens s.tokens) <;>
          simp_all [StatementType.inSection])

end

/-! ## Gaps -/

namespace Gaps
variable {setup : PassSetup} {kind : SectionKind} {sc : Scope} {s new : Statement}

/-- Respacing lays out every line with the same separator in every gap. -/
theorem relay_eq (indent separator : String) (ts : List Token) :
    relay indent separator ts = composeLines indent separator (fun _ _ => separator) ts := by
  rw [relay, composeLines, LineLayout.ofTokens, List.flatMap_map]

/-- What stands in place of a statement. -/
theorem space_eq_put (h : space setup sc s = .put new) :
    s.type = .emptyLine ∧ new = s.withTokens [endingOf s.tokens] ∨
      new = s.withTokens (composeLines (Text.spaces ((sc.depth s).toNat * setup.config.indent))
        setup.config.separator (fun _ _ => setup.config.separator) s.tokens) := by
  rw [space] at h
  split at h
  · cases h
  · rw [spaced] at h
    by_cases ht : s.type = .emptyLine
    · rw [if_pos ht] at h
      dsimp only at h
      split at h
      · cases h
      · exact .inl ⟨ht, (Decision.put.inj h).symm⟩
    · rw [if_neg ht, indentAt] at h
      cases hs : spaces? ((sc.depth s).toNat * setup.config.indent) with
      | error reason =>
        rw [hs] at h
        cases h
      | ok indent =>
        obtain ⟨-, rfl⟩ := spaces_eq_ok_iff.1 hs
        rw [hs] at h
        simp only [Except.map] at h
        split at h
        · cases h
        · rw [← relay_eq]
          exact .inr (Decision.put.inj h).symm

/-- An empty line stays one without blanks. -/
theorem sound_blank (h : s.IsSound kind) (ht : s.type = .emptyLine) :
    (s.withTokens [endingOf s.tokens]).IsSound kind := by
  obtain ⟨hd, hc⟩ := h.texts_of_emptyLine ht
  obtain ⟨front, e, htokens, he⟩ := h.laid.getLast?
  have hending : endingOf s.tokens = e := by rw [htokens, endingOf_concat he.kind]
  have hlines : splitLines [e] = [[e]] := by simp [splitLines, Token.isEol, he.kind]
  have hdata : dataTexts [e] = [] := by
    simp [dataTexts, dataTokens, Token.isData, TokenKind.isData, he.kind]
  have hcomment : commentTexts [e] = [] := by
    simp [commentTexts, commentTokens, Token.isComment, he.kind]
  rw [hending]
  refine h.withTokens ?_ (hdata.trans hd.symm) (by rw [hcomment, hc]) fun _ => ?_
  · rw [hlines]
    exact .plain (.mk (.blank .none) he)
  · rw [startsWithName_of_dataTexts hdata, startsWithName_of_dataTexts hd]

/-- In sections with blocks, the statements with data at the margin are the names. -/
theorem startsWithName_eq_margin {owner : BlockType} (h : s.IsSound kind) (hsh : sc.Shows kind s)
    (hk : kind.blockType? = some owner) (hd : dataTexts s.tokens ≠ []) {width : Nat}
    (hw : 1 ≤ width) :
    startsWithName s.tokens = decide (Text.spaces ((sc.depth s).toNat * width) = "") := by
  have hname := h.reads.startsWithName hk hd
  have hblock : isBlockName s = true ↔ s.type = .testCaseName ∨ s.type = .keywordName := by
    simp [isBlockName]
  rw [Bool.eq_iff_iff, hname, decide_eq_true_eq, spaces_eq_empty, ← hblock]
  cases hb : isBlockName s with
  | true =>
    have := hsh.name hb
    simp [this]
  | false =>
    -- what is not a name stands in a body, at a depth of one at least
    have hdepth := hsh.body hb (h.not_inSection hk hd)
    have : 1 ≤ (sc.depth s).toNat := by omega
    have := Nat.mul_pos this hw
    constructor
    · rintro ⟨⟩
    · intro hzero
      omega

/-- **Gaps as configured keep files sound.** -/
theorem keepsSound_pass : pass.KeepsSound := by
  refine Pass.keepsSound_ofStatements ?_ ?_ ?_
  · intro setup kind sc s new hv h hsh hs
    rcases space_eq_put h with ⟨ht, rfl⟩ | rfl
    · exact sound_blank hs ht
    · refine hs.compose (isIndent_spaces _) hv.separator (fun _ _ => hv.separator) fun hk hd => ?_
      obtain ⟨owner, hk⟩ := Option.ne_none_iff_exists'.1 hk
      exact startsWithName_eq_margin hs hsh hk hd hv.indent
  · intro setup kind sc s new hv h hk hl hs
    have hne : s.type ≠ .emptyLine := by simp [hs.type]
    rcases space_eq_put h with ⟨ht, -⟩ | rfl
    · exact absurd ht hne
    · have hdepth : sc.depth s = 0 := by
        rw [Scope.levels] at hl
        simp [Scope.depth, hl, hs.type, StatementType.isOuter, StatementType.marker?]
      rw [hdepth]
      have hzero : Text.spaces ((0 : Int).toNat * setup.config.indent) = "" := by
        simp [spaces_eq_empty]
      rw [hzero]
      exact hs.compose hv.separator fun _ _ => hv.separator
  · intro setup kind sc s new hv h hs hu
    rcases space_eq_put h with ⟨ht, -⟩ | rfl
    · rw [hs.type] at ht
      cases ht
    · obtain ⟨front, e, htokens, he⟩ := hs.laid.getLast?
      rwa [isUnterminated_composeLines htokens he.kind] at hu

/-- **Gaps as configured keep line breaks.** -/
theorem keepsBreaks_pass : pass.KeepsBreaks := by
  refine Pass.keepsBreaks_ofStatements ?_
  intro N setup sc s new _ _ h hs
  obtain ⟨front, e, htokens, he, -⟩ := hs.concat
  rcases space_eq_put h with ⟨-, rfl⟩ | rfl
  · have hend : (s.withTokens [e]).tokens = [] ++ [e] := rfl
    rw [htokens, endingOf_concat he]
    refine ⟨hs.breaks.of_mem fun t ht hk => .inr ⟨t, ?_, hk, rfl⟩, fun hu => ?_⟩
    · rw [htokens]
      exact List.mem_append_right _ ht
    · rw [isUnterminated_concat hend] at hu
      rwa [isUnterminated_concat htokens]
  · exact ⟨hs.breaks.composeLines, fun hu => isUnterminated_composeLines htokens he ▸ hu⟩

end Gaps

/-! ## Columns -/

namespace Columns

/-- The lines of a call aligned in columns are its lines laid out again. -/
theorem align_eq (separator : String) (widths : List Nat) (indent : String) (ts : List Token) :
    ∃ gapAt : List Token → Nat → String,
      Candidate.align separator widths ⟨indent, LineLayout.ofTokens ts⟩ =
        composeLines indent separator gapAt ts ∧
      (IsWide separator → ∀ l n, IsWide (gapAt l n)) := by
  refine ⟨fun l column =>
    let size := ((LineLayout.ofLine l).cells[column]?).map fun t => Text.length t.value
    Text.spaces ((widths[column]?).getD 0 - size.getD 0) ++ separator, ?_,
      fun hs l n => hs.spaces_append _⟩
  rw [Candidate.align, composeLines, LineLayout.ofTokens, List.flatMap_map]
  rfl

/-- A list zipped with its image pairs each element with its value. -/
theorem zip_map_self {α β : Type} (f : α → β) (xs : List α) :
    xs.zip (xs.map f) = xs.map fun x => (x, f x) := by
  have : (xs.map id).zip (xs.map f) = xs.map fun x => (id x, f x) := List.zip_map'
  rwa [List.map_id] at this

/-- The item that takes the place of another, if it is one of the calls that are aligned and its
text changes. -/
def realign? (separator : String) (calls : List (Option Candidate)) (item : Marked BodyItem) :
    Option BodyItem :=
  ((candidate? item).filter fun c => calls.contains (some c)).bind fun c =>
    retoken? item.1 (c.align separator (widthsOf calls))

/-- Each item of the body is realigned with the settled calls of the whole body. -/
theorem alignments_eq_map (limit : Nat) (separator : String) (items : List (Marked BodyItem)) :
    alignments limit separator items =
      items.map (realign? separator (settle limit separator (items.map candidate?))) := by
  have hchosen := (settle_spec limit separator (items.map candidate?)).chosen
  rw [alignments]
  dsimp only
  generalize settle limit separator (items.map candidate?) = calls at hchosen ⊢
  rw [List.map_map] at hchosen
  have hzip := (congrArg items.zip hchosen).trans (zip_map_self _ items)
  rw [hzip, List.map_map]
  rfl

/-- What takes the place of an item is a keyword call with its lines laid out again. -/
theorem eq_of_realign {separator : String} {calls : List (Option Candidate)}
    {item : Marked BodyItem} {new : BodyItem} (h : realign? separator calls item = some new) :
    ∃ s, item = (.statement s, false) ∧ s.type = .keywordCall ∧
      new = .statement (s.withTokens (Candidate.align separator (widthsOf calls)
        ⟨indentOf s.tokens, LineLayout.ofTokens s.tokens⟩)) := by
  obtain ⟨c, hc, hnew⟩ := Option.bind_eq_some_iff.1 h
  obtain ⟨hcand, -⟩ := Option.filter_eq_some_iff.1 hc
  obtain ⟨item, mark⟩ := item
  cases item with
  | control b => simp [retoken?] at hnew
  | statement s =>
    rw [candidate?.eq_def] at hcand
    cases mark with
    | true => simp at hcand
    | false =>
      simp only at hcand
      split at hcand
      · rename_i hs
        obtain rfl := Option.some.inj hcand
        rw [Bool.and_eq_true, decide_eq_true_eq] at hs
        rw [retoken?] at hnew
        split at hnew
        · cases hnew
        · exact ⟨s, rfl, hs.1, (Option.some.inj hnew).symm⟩
      · cases hcand

/-- Each item of a body with aligned calls stands for one of the old body: for itself, or for a
keyword call with its lines laid out again. -/
theorem alignBody_eq_some {limit : Nat} {separator : String} {items new : List (Marked BodyItem)}
    (h : alignBody limit separator items = some new) :
    ∃ (widths : List Nat) (g : Marked BodyItem → Marked BodyItem), new = items.map g ∧ ∀ x,
      g x = x ∨ ∃ s, x = (.statement s, false) ∧ s.type = .keywordCall ∧
        g x = (.statement (s.withTokens (Candidate.align separator widths
          ⟨indentOf s.tokens, LineLayout.ofTokens s.tokens⟩)), false) := by
  rw [alignBody] at h
  dsimp only at h
  split at h
  · rw [alignments_eq_map, zip_map_self, List.map_map] at h
    refine ⟨widthsOf (settle limit separator (items.map candidate?)), _,
      (Option.some.inj h).symm, fun x => ?_⟩
    simp only [Function.comp_apply]
    cases hnew : realign? separator (settle limit separator (items.map candidate?)) x with
    | none => exact .inl rfl
    | some new =>
      obtain ⟨s, rfl, ht, rfl⟩ := eq_of_realign hnew
      exact .inr ⟨s, rfl, ht, rfl⟩
  · cases h

/-- What holds of the statements of a body and is kept when one is aligned holds of those of the
body with aligned calls. -/
theorem bodyHolds_alignBody {P : Statement → Prop} {limit : Nat} {separator : String}
    {items new : List (Marked BodyItem)} (h : alignBody limit separator items = some new)
    (hP : ∀ widths s, P s → P (s.withTokens (Candidate.align separator widths
      ⟨indentOf s.tokens, LineLayout.ofTokens s.tokens⟩)))
    (hi : bodyHolds P (unmark items)) : bodyHolds P (unmark new) := by
  obtain ⟨widths, g, rfl, hg⟩ := alignBody_eq_some h
  rw [bodyHolds_iff] at hi ⊢
  intro i hmem
  rw [unmark, List.map_map] at hmem
  obtain ⟨x, hx, rfl⟩ := List.mem_map.1 hmem
  have hitem := hi x.1 (List.mem_map_of_mem hx)
  rcases hg x with heq | ⟨s, rfl, -, heq⟩
  · rwa [Function.comp_apply, heq]
  · rw [BodyItem.Holds] at hitem
    rw [Function.comp_apply, heq, BodyItem.Holds]
    exact ⟨hitem.1, hP widths s hitem.2⟩

/-- A statement that is aligned stays sound. -/
theorem sound_align {kind : SectionKind} {s : Statement} (h : s.IsSound kind) {separator : String}
    (hs : IsWide separator) (widths : List Nat) :
    (s.withTokens (Candidate.align separator widths
      ⟨indentOf s.tokens, LineLayout.ofTokens s.tokens⟩)).IsSound kind := by
  obtain ⟨gapAt, heq, hg⟩ := align_eq separator widths (indentOf s.tokens) s.tokens
  obtain ⟨hi, hname⟩ := h.laid.indentOf
  rw [heq]
  exact h.compose hi hs (hg hs) fun _ hd => hname hd

/-- **Keyword calls in columns keep files sound.** -/
theorem keepsSound_pass : pass.KeepsSound := by
  refine Pass.keepsSound_ofTransform (fun setup f hv => ?_) fun setup f hv => ?_
  · refine
      { statement := fun h => by cases h
        header := fun h => by cases h
        body := ?_
        sect := fun h => by cases h
        file := fun h => by cases h }
    exact fun h => bodyHolds_alignBody (Decision.ofOption_eq_put h)
      fun widths s hs => sound_align hs hv.separator widths
  · exact
      { header := fun h => by cases h
        sect := fun h => by cases h
        file := fun h => by cases h }

/-- **Keyword calls in columns keep line breaks.**  An item that is aligned ends as before. -/
theorem keepsBreaks_pass : pass.KeepsBreaks := by
  refine Pass.keepsBreaks_ofTransform fun setup f hv _ => ?_
  refine
    { statement := fun h => by cases h
      body := ?_
      sect := fun h => by cases h
      file := fun h => by cases h }
  intro place header items new h hi
  obtain ⟨widths, g, rfl, hg⟩ := alignBody_eq_some (Decision.ofOption_eq_put h)
  rw [unmark.eq_def (List.map _ _), List.map_map] at hi ⊢
  refine .map (g := fun x => (g x).1) hi fun x hissues => ?_
  rcases hg x with heq | ⟨s, rfl, -, heq⟩
  · rw [heq]
  · obtain ⟨gapAt, halign, -⟩ :=
      align_eq setup.config.separator widths (indentOf s.tokens) s.tokens
    rw [heq, halign] at hissues ⊢
    rw [BodyItem.issues, Statement.bodyIssues_eq_nil] at hissues
    refine .singleton
      (fun hs => hs.breaks.composeLines.endsIn (Statement.issues_eq_nil hissues.2)) fun hs hu => ?_
    obtain ⟨front, e, htokens, he, -⟩ := hs.concat
    rwa [isUnterminated_composeLines htokens he] at hu

end Columns

end RobotSuite
