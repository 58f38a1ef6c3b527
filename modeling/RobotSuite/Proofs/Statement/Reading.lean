/-
# What a statement is read as

The type of a statement follows from the section, from the texts of its data cells, and from
whether the first of them stands in column one (`readsAs_iff`, `ReadsAs.congr`).  Nothing
that reading does depends on places (`groupLines_map_bare`, `ReadsAs.of_bare`).
-/

import RobotSuite.Proofs.Token.SourceLines
import RobotSuite.Tree.Parse

namespace RobotSuite

/-! ## Places do not matter -/

section
variable (ts : List Token)

/-- Marks and places do not decide what is data. -/
@[simp] theorem Token.bare_isData (t : Token) : t.bare.isData = t.isData := rfl

/-- Marks and places do not decide what is a comment. -/
@[simp] theorem Token.bare_isComment (t : Token) : t.bare.isComment = t.isComment := rfl

/-- Marks and places do not decide what is a line ending. -/
@[simp] theorem Token.bare_isEol (t : Token) : t.bare.isEol = t.isEol := rfl

/-- Marks and places do not decide what is a separator. -/
@[simp] theorem Token.bare_isSeparator (t : Token) : t.bare.isSeparator = t.isSeparator := rfl

/-- Marks and places do not decide what is a continuation mark. -/
@[simp] theorem Token.bare_isContinuation (t : Token) :
    t.bare.isContinuation = t.isContinuation := rfl

/-- The data of bare tokens are the bare data. -/
theorem dataTokens_map_bare : dataTokens (ts.map Token.bare) = (dataTokens ts).map Token.bare := by
  rw [dataTokens, List.filter_map]
  rfl

/-- The comments of bare tokens are the bare comments. -/
theorem commentTokens_map_bare :
    commentTokens (ts.map Token.bare) = (commentTokens ts).map Token.bare := by
  rw [commentTokens, List.filter_map]
  rfl

/-- The first significant bare token is the bare one. -/
theorem firstSignificant_map_bare :
    firstSignificant (ts.map Token.bare) = (firstSignificant ts).map Token.bare := by
  rw [firstSignificant, List.find?_map]
  rfl

/-- Bare lines are headers alike. -/
@[simp] theorem isHeaderLine_map_bare : isHeaderLine (ts.map Token.bare) = isHeaderLine ts := by
  rw [isHeaderLine, firstSignificant_map_bare, Option.any_map]
  rfl

/-- Bare lines continue alike. -/
@[simp] theorem isContinuationLine_map_bare :
    isContinuationLine (ts.map Token.bare) = isContinuationLine ts := by
  rw [isContinuationLine, firstSignificant_map_bare, Option.any_map]
  rfl

/-- Bare lines are comments alike. -/
@[simp] theorem isCommentLine_map_bare : isCommentLine (ts.map Token.bare) = isCommentLine ts := by
  simp [isCommentLine, List.any_map, Function.comp_def]

/-- Bare lines may be continued alike. -/
@[simp] theorem isContinuable_map_bare : isContinuable (ts.map Token.bare) = isContinuable ts := by
  simp [isContinuable, List.any_map, Function.comp_def]

end

section
variable {g : List Token → List Token}
  (hg : ∀ line, isContinuationLine (g line) = isContinuationLine line ∧
    isCommentLine (g line) = isCommentLine line ∧ isContinuable (g line) = isContinuable line)
include hg

/-- A map that keeps the roles of lines keeps the continuation. -/
theorem takeContinuation_map (lines : List (List Token)) :
    takeContinuation (lines.map g) =
      (takeContinuation lines).map fun p => (p.1.map g, p.2.map g) := by
  induction lines with
  | nil => rfl
  | cons line lines ih =>
    obtain ⟨hcontinuation, hcomment, -⟩ := hg line
    rw [List.map_cons, takeContinuation, takeContinuation, ih, hcontinuation, hcomment]
    by_cases hc : isContinuationLine line = true
    · simp [hc]
    · by_cases hl : isCommentLine line = true
      · cases takeContinuation lines <;> simp [hc, hl]
      · simp [hc, hl]

/-- A map that keeps the roles of lines keeps all continuations. -/
theorem takeContinuations_map (lines : List (List Token)) :
    takeContinuations (lines.map g) =
      ((takeContinuations lines).1.map g, (takeContinuations lines).2.map g) := by
  fun_induction takeContinuations lines with
  | case1 lines h =>
    rw [takeContinuations]
    split
    · rfl
    · rename_i hs
      rw [takeContinuation_map hg, h] at hs
      cases hs
  | case2 lines taken left h more rest hm ih =>
    rw [takeContinuations]
    split
    · rename_i hs
      rw [takeContinuation_map hg, h] at hs
      cases hs
    · rename_i hs
      rw [takeContinuation_map hg, h] at hs
      cases hs
      rw [ih, hm]
      simp

/-- Lines are put together by what they are. -/
theorem groupLines_map (lines : List (List Token)) :
    groupLines (lines.map g) = (groupLines lines).map (·.map g) := by
  fun_induction groupLines lines with
  | case1 => rw [List.map_nil, groupLines]; rfl
  | case2 line rest h ih =>
    rw [List.map_cons, groupLines, (hg line).2.2, if_pos h, takeContinuations_map hg, ih]
    rfl
  | case3 line rest h ih =>
    rw [List.map_cons, groupLines, (hg line).2.2, if_neg (by simpa using h), ih]
    rfl

end

/-- Lines are put together without regard to their places. -/
theorem groupLines_map_bare (lines : List (List Token)) :
    groupLines (lines.map (·.map Token.bare)) =
      (groupLines lines).map (·.map (·.map Token.bare)) :=
  groupLines_map (fun line => by simp) lines

/-! ## The type of a statement -/

/-- The texts of the data cells among some tokens. -/
def dataTexts (ts : List Token) : List String := (dataTokens ts).map (·.value)

/-- The texts of the comments among some tokens. -/
def commentTexts (ts : List Token) : List String := (commentTokens ts).map (·.value)

/-- Whether the first data cell stands in column one. -/
def startsWithName (ts : List Token) : Bool := (dataTokens ts).head?.any (·.kind == .name)

/-- A line without cells has no data. -/
theorem Written.dataTexts_of_none {line : List Token} (h : Written none line) :
    dataTexts line = [] := by
  have := h.any_isData_of_none
  rw [List.any_eq_false] at this
  simpa [dataTexts, dataTokens] using this

/-- The data of a statement starts on its first line. -/
theorem Laid.exists_data {ts : List Token} (h : Laid false (splitLines ts))
    (hd : dataTexts ts ≠ []) : ∃ k first more, splitLines ts = first :: more ∧
      ts = first ++ more.flatten ∧ Written k first ∧ startsData k ∧ ∀ l ∈ more, Continues l := by
  have hflat := flatten_splitLines ts
  generalize splitLines ts = lines at h hflat ⊢
  cases h with
  | @plain line hw =>
    obtain rfl : line = ts := by simpa using hflat
    exact absurd hw.dataTexts_of_none hd
  | @data k first more hw hk hm => exact ⟨k, first, more, rfl, hflat.symm, hw, hk, hm⟩

/-- Whether some tokens are read, in a section of a kind, as a statement of a type, and
without a defect. -/
def ReadsAs (kind : SectionKind) (type : StatementType) (ts : List Token) : Prop :=
  (classify kind ts).1.type = type ∧ (classify kind ts).2 = []

/-- Cells of the same texts make a body statement of the same type. -/
theorem bodyType_congr {a b : List Token} (h : a.map (·.value) = b.map (·.value)) :
    bodyType a = bodyType b := by
  have htake : (a.takeWhile fun t => isAssignment t.value).map (·.value) =
      (b.takeWhile fun t => isAssignment t.value).map (·.value) := by
    have hmap (ts : List Token) : (ts.takeWhile fun t => isAssignment t.value).map (·.value) =
        (ts.map (·.value)).takeWhile isAssignment := by
      rw [List.takeWhile_map]
      rfl
    rw [hmap, hmap, h]
  have hlen := congrArg List.length htake
  rw [List.length_map, List.length_map] at hlen
  have hempty : (a.takeWhile fun t => isAssignment t.value).isEmpty =
      (b.takeWhile fun t => isAssignment t.value).isEmpty := by
    rw [Bool.eq_iff_iff, List.isEmpty_iff_length_eq_zero, List.isEmpty_iff_length_eq_zero, hlen]
  have hmarker (n : Nat) : ((a.drop n).head?.map (·.value)).getD "" =
      ((b.drop n).head?.map (·.value)).getD "" := by
    rw [← List.head?_map, ← List.head?_map, List.map_drop, List.map_drop, h]
  have hlength : a.length = b.length := by
    simpa using congrArg List.length h
  simp only [bodyType, hempty, hmarker, hlen, hlength]

/-- Statements of one type and the same data assign as many variables. -/
theorem length_assign_congr {s r : Statement} (ht : s.type = r.type)
    (h : dataTexts s.tokens = dataTexts r.tokens) : s.assign.length = r.assign.length := by
  have htake (x : Statement) : (x.data.takeWhile fun t => isAssignment t.value).length =
      ((dataTexts x.tokens).takeWhile isAssignment).length := by
    rw [dataTexts, List.takeWhile_map, List.length_map]
    rfl
  rw [Statement.assign, Statement.assign, ht]
  split
  · rw [htake, htake, h]
  · rfl

/-- Statements of one type and the same data have names of the same text. -/
theorem name_congr {s r : Statement} (ht : s.type = r.type)
    (h : dataTexts s.tokens = dataTexts r.tokens) :
    s.name.map (·.value) = r.name.map (·.value) := by
  have hdata : s.data.map (·.value) = r.data.map (·.value) := h
  rw [Statement.name, Statement.name, length_assign_congr ht h, ← List.head?_map,
    ← List.head?_map, List.map_drop, List.map_drop, hdata]

/-- Statements of one type and the same data have the same name. -/
theorem nameText_congr {s r : Statement} (ht : s.type = r.type)
    (h : dataTexts s.tokens = dataTexts r.tokens) : s.nameText = r.nameText := by
  rw [Statement.nameText, Statement.nameText, name_congr ht h]

/-- Whether a setting is known is told by type and name. -/
theorem hasKnownSetting_congr {s r : Statement} (ht : s.type = r.type)
    (h : s.nameText = r.nameText) : s.hasKnownSetting = r.hasKnownSetting := by
  simp only [Statement.hasKnownSetting, Statement.suiteSetting?, Statement.blockSetting?, ht, h]

section
variable {kind : SectionKind} {type : StatementType} {ts : List Token}

/-- Cells of the same texts, a name first or not, are of the same type. -/
theorem dataType_congr {a b : List Token} (h : a.map (·.value) = b.map (·.value))
    (hn : a.head?.any (·.kind == .name) = b.head?.any (·.kind == .name)) :
    dataType kind a = dataType kind b := by
  cases kind <;> simp only [dataType, hn, bodyType_congr h]

/-- No unknown token is found when none is there. -/
theorem find?_unknown_eq_none :
    (ts.find? fun t => t.kind == .unknown) = none ↔ ∀ t ∈ ts, t.kind ≠ .unknown := by
  simp

/-- When tokens are read as a statement of a type. -/
theorem readsAs_iff :
    ReadsAs kind type ts ↔ (∀ t ∈ ts, t.kind ≠ .unknown) ∧ isContinuationLine ts = false ∧
      (dataTexts ts = [] → type = if (commentTexts ts).isEmpty then .emptyLine else .comment) ∧
      (dataTexts ts ≠ [] → type = dataType kind (dataTokens ts) ∧
        (Statement.create type ts).hasKnownSetting = true ∧ kind.isInherited = false) := by
  have hd : dataTexts ts = [] ↔ dataTokens ts = [] := by simp [dataTexts]
  have hc : (commentTexts ts).isEmpty = (commentTokens ts).isEmpty := by simp [commentTexts]
  simp only [ne_eq, hd, hc, ReadsAs, classify]
  cases hu : ts.find? fun t => t.kind == .unknown with
  | some t =>
    have hkind : t.kind = .unknown := by simpa using List.find?_some hu
    have hmem := List.mem_of_find?_eq_some hu
    exact ⟨fun h => absurd h.2 (by simp), fun h => absurd hkind (h.1 t hmem)⟩
  | none =>
    have hall := find?_unknown_eq_none.1 hu
    simp only [List.isEmpty_iff]
    cases hl : isContinuationLine ts with
    | true => simp [misplaced]
    | false =>
      by_cases hdata : dataTokens ts = []
      · simp only [hdata, if_true, Bool.false_eq_true, if_false]
        constructor
        · rintro ⟨h, -⟩
          exact ⟨hall, trivial, fun _ => h.symm, fun h => absurd trivial h⟩
        · rintro ⟨-, -, h, -⟩
          exact ⟨(h trivial).symm, trivial⟩
      · simp only [hdata, if_false, Bool.false_eq_true]
        cases hkind : kind.isInherited with
        | true => simp [misplaced]
        | false =>
          simp only [if_false, Bool.false_eq_true, checkSetting]
          constructor
          · rintro ⟨h, he⟩
            split at he
            · rename_i hk
              rw [if_pos hk] at h
              obtain rfl : dataType kind (dataTokens ts) = type := h
              exact ⟨hall, trivial, fun h => absurd h id, fun _ => ⟨rfl, hk, trivial⟩⟩
            · simp at he
          · rintro ⟨-, -, -, h⟩
            obtain ⟨rfl, hk, -⟩ := h id
            rw [if_pos hk]
            exact ⟨rfl, rfl⟩

/-- Tokens that are laid out as a statement are read as what they hold. -/
theorem Laid.readsAs (h : Laid false (splitLines ts))
    (hp : dataTexts ts = [] → type = if (commentTexts ts).isEmpty then .emptyLine else .comment)
    (hd : dataTexts ts ≠ [] → type = dataType kind (dataTokens ts) ∧
      (Statement.create type ts).hasKnownSetting = true ∧ kind.isInherited = false) :
    ReadsAs kind type ts := by
  have hline := h.isContinuationLine
  rw [flatten_splitLines] at hline
  exact readsAs_iff.2 ⟨h.known, hline, hp, hd⟩

/-- What a statement is read as follows from the texts of its cells, and from whether the
first stands in column one. -/
theorem ReadsAs.congr {us : List Token} (h : ReadsAs kind type ts)
    (hu : ∀ t ∈ us, t.kind ≠ .unknown) (hl : isContinuationLine us = false)
    (hd : dataTexts us = dataTexts ts) (hn : startsWithName us = startsWithName ts)
    (hc : commentTexts us = commentTexts ts) : ReadsAs kind type us := by
  rw [readsAs_iff] at h ⊢
  obtain ⟨-, -, h⟩ := h
  have htype : dataType kind (dataTokens us) = dataType kind (dataTokens ts) :=
    dataType_congr hd hn
  have hname : (Statement.create type us).hasKnownSetting =
      (Statement.create type ts).hasKnownSetting :=
    hasKnownSetting_congr rfl (nameText_congr rfl hd)
  rw [hd, hc, htype, hname]
  exact ⟨hu, hl, h⟩

end

/-- Bare tokens have the same data texts. -/
theorem dataTexts_map_bare (ts : List Token) : dataTexts (ts.map Token.bare) = dataTexts ts := by
  rw [dataTexts, dataTokens_map_bare, List.map_map]
  rfl

/-- Bare tokens have the same comment texts. -/
theorem commentTexts_map_bare (ts : List Token) :
    commentTexts (ts.map Token.bare) = commentTexts ts := by
  rw [commentTexts, commentTokens_map_bare, List.map_map]
  rfl

/-- Bare tokens start with a name alike. -/
theorem startsWithName_map_bare (ts : List Token) :
    startsWithName (ts.map Token.bare) = startsWithName ts := by
  rw [startsWithName, dataTokens_map_bare, List.head?_map, Option.any_map]
  rfl

/-- Tokens are read without regard to their places. -/
theorem ReadsAs.of_bare {kind : SectionKind} {type : StatementType} {ts us : List Token}
    (h : ReadsAs kind type ts) (hb : us.map Token.bare = ts.map Token.bare) :
    ReadsAs kind type us := by
  have hr := readsAs_iff.1 h
  refine h.congr ?_ ?_ ?_ ?_ ?_
  · intro t ht hk
    have hmem : t.bare ∈ ts.map Token.bare := hb ▸ List.mem_map_of_mem ht
    obtain ⟨r, hr', he⟩ := List.mem_map.1 hmem
    exact hr.1 r hr' ((congrArg Token.kind he).trans hk)
  · rw [← isContinuationLine_map_bare, hb, isContinuationLine_map_bare]
    exact hr.2.1
  · rw [← dataTexts_map_bare, hb, dataTexts_map_bare]
  · rw [← startsWithName_map_bare, hb, startsWithName_map_bare]
  · rw [← commentTexts_map_bare us, hb, commentTexts_map_bare]

end RobotSuite
