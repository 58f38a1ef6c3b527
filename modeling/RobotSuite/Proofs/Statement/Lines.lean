/-
# The lines of a statement

A statement is written in one line, or in a line with data and lines that continue it, among
which lines with nothing but a comment may stand; `Laid` says which lines these are.  The
lines of statements that are written one behind the other are put together again as they
were, but for lines with nothing but a comment at the end of a statement: each of these is
read as a statement of its own (`groupLines_flatten`).  What is put together from lines of
the grammar is laid out, unless it starts with a continuation marker (`laid_of_mem_groupLines`).
-/

import RobotSuite.Proofs.Statement.LineGroups
import RobotSuite.Proofs.Token.LineGrammar

namespace RobotSuite

open Text (dropEndWhile takeEndWhile)

/-- The ending of a line. -/
structure IsBreak (e : Token) : Prop where
  kind : e.kind = .eol
  value : e.value = "\n" ∨ e.value = "\r\n" ∨ e.value = ""

/-- A whole line, with the kind of its first cell. -/
inductive Written : Option TokenKind → List Token → Prop
  | mk {k : Option TokenKind} {ts : List Token} {e : Token} : Line k ts → IsBreak e →
      Written k (ts ++ [e])

/-! ## What is in a line -/

/-- An indent is a separator. -/
theorem Indent.kind {i : List Token} (h : Indent i) : ∀ t ∈ i, t.kind = .separator := by
  cases h with
  | none => simp
  | gap hk _ => simpa using hk

/-- A remark is made of separators and comments. -/
theorem Remark.kind {ts : List Token} (h : Remark ts) :
    ∀ t ∈ ts, t.kind = .separator ∨ t.kind = .comment := by
  cases h with
  | plain hk _ => simp [hk]
  | trailed hk _ hg _ => simp [hk, hg]

/-- Behind its first cell a line holds separators, arguments and comments. -/
theorem Tail.kind {ts : List Token} (h : Tail ts) :
    ∀ t ∈ ts, t.kind = .separator ∨ t.kind = .comment ∨ t.kind = .argument := by
  induction h with
  | nil => simp
  | gap hk _ => simp [hk]
  | remark hk _ hr =>
    intro t ht
    rcases List.mem_cons.1 ht with rfl | ht
    · exact .inl hk
    · rcases hr.kind t ht with h | h
      · exact .inl h
      · exact .inr (.inl h)
  | cell hk _ hc _ _ ih => simpa [hk, hc] using ih

/-- The first cell is a header, a mark, a name or an argument. -/
theorem Lead.kind {atStart : Bool} {s : String} {k : TokenKind} (h : Lead atStart s k) :
    k = .sectionHeader ∨ k = .continuation ∨ k = .name ∨ k = .argument := by
  cases h <;> simp

/-- A line holds no ending and no unknown token. -/
theorem Line.kind {k : Option TokenKind} {ts : List Token} (h : Line k ts) :
    ∀ t ∈ ts, t.kind ≠ .eol ∧ t.kind ≠ .unknown := by
  intro t ht
  cases h with
  | blank hi => simp [hi.kind t ht]
  | remark hi hr =>
    rcases List.mem_append.1 ht with ht | ht
    · simp [hi.kind t ht]
    · rcases hr.kind t ht with h | h <;> simp [h]
  | cells hi _ hl htail =>
    rcases List.mem_append.1 ht with ht | ht
    · simp [hi.kind t ht]
    · rcases List.mem_cons.1 ht with rfl | ht
      · rcases hl.kind with h | h | h | h <;> simp [h]
      · rcases htail.kind t ht with h | h | h <;> simp [h]

/-- Kinds of a line's first cell that carry data of a statement. -/
def startsData (k : Option TokenKind) : Prop := k = some .name ∨ k = some .argument

section
variable {k : Option TokenKind} {line : List Token}

/-- An indent is not significant. -/
theorem firstSignificant_indent {i ts : List Token} (h : Indent i) :
    firstSignificant (i ++ ts) = firstSignificant ts := by
  cases h with
  | none => rfl
  | gap hk _ => simp [firstSignificant, Token.isSeparator, hk]

/-- The kind of the first token of a line that is no gap. -/
theorem Written.firstSignificant (h : Written k line) :
    (k = none ∧ ∀ t ∈ RobotSuite.firstSignificant line, t.kind = .comment) ∨
      ∃ c, RobotSuite.firstSignificant line = some c ∧ k = some c.kind := by
  obtain ⟨hl, he⟩ := h
  cases hl with
  | blank hi =>
    refine .inl ⟨rfl, ?_⟩
    rw [firstSignificant_indent hi]
    simp [RobotSuite.firstSignificant, Token.isEol, he.kind]
  | remark hi hr =>
    refine .inl ⟨rfl, ?_⟩
    rw [List.append_assoc, firstSignificant_indent hi]
    cases hr <;> simp_all [RobotSuite.firstSignificant, Token.isEol, Token.isSeparator]
  | @cells i ts c hi _ hlead _ =>
    refine .inr ⟨c, ?_, rfl⟩
    rw [List.append_assoc, firstSignificant_indent hi, List.cons_append]
    rcases hlead.kind with h | h | h | h <;>
      simp [RobotSuite.firstSignificant, Token.isEol, Token.isSeparator, h]

/-- A written line has known tokens only. -/
theorem Written.known (h : Written k line) : ∀ t ∈ line, t.kind ≠ .unknown := by
  obtain ⟨hl, he⟩ := h
  intro t ht
  rcases List.mem_append.1 ht with ht | ht
  · exact (hl.kind t ht).2
  · obtain rfl := List.mem_singleton.1 ht
    simp [he.kind]

/-- A line is blank, a header, a continuation or data. -/
theorem Written.kind_cases (h : Written k line) :
    k = none ∨ k = some .sectionHeader ∨ k = some .continuation ∨ startsData k := by
  obtain ⟨hl, -⟩ := h
  cases hl with
  | blank _ => exact .inl rfl
  | remark _ _ => exact .inl rfl
  | cells _ _ hlead _ => rcases hlead.kind with h | h | h | h <;> simp [h, startsData]

/-- A header line is written with a header cell first. -/
theorem Written.isHeaderLine (h : Written k line) :
    RobotSuite.isHeaderLine line = (k == some .sectionHeader) := by
  rw [RobotSuite.isHeaderLine]
  rcases h.firstSignificant with ⟨rfl, hc⟩ | ⟨c, hc, rfl⟩
  · cases hf : RobotSuite.firstSignificant line with
    | none => rfl
    | some t => simp [hc t hf]
  · simp [hc]

/-- A continuation line is written with a mark first. -/
theorem Written.isContinuationLine (h : Written k line) :
    RobotSuite.isContinuationLine line = (k == some .continuation) := by
  rw [RobotSuite.isContinuationLine]
  rcases h.firstSignificant with ⟨rfl, hc⟩ | ⟨c, hc, rfl⟩
  · cases hf : RobotSuite.firstSignificant line with
    | none => rfl
    | some t => simp [Token.isContinuation, hc t hf]
  · simp [hc, Token.isContinuation]

/-- A line without cells holds gaps, comments and its ending only. -/
theorem Written.kind_of_none (h : Written none line) :
    ∀ t ∈ line, t.kind = .separator ∨ t.kind = .comment ∨ t.kind = .eol := by
  obtain ⟨hl, he⟩ := h
  intro t ht
  rcases List.mem_append.1 ht with ht | ht
  · cases hl with
    | blank hi => exact .inl (hi.kind t ht)
    | remark hi hr =>
      rcases List.mem_append.1 ht with ht | ht
      · exact .inl (hi.kind t ht)
      · rcases hr.kind t ht with h | h
        · exact .inl h
        · exact .inr (.inl h)
  · obtain rfl := List.mem_singleton.1 ht
    exact .inr (.inr he.kind)

/-- A line without cells holds no data. -/
theorem Written.any_isData_of_none (h : Written none line) : line.any (·.isData) = false := by
  rw [List.any_eq_false]
  intro t ht
  rcases h.kind_of_none t ht with h | h | h <;> simp [Token.isData, TokenKind.isData, h]

/-- The first cell of a line is in it. -/
theorem Written.exists_of_some {k : TokenKind} (h : Written (some k) line) :
    ∃ t ∈ line, t.kind = k := by
  rcases h.firstSignificant with ⟨h, -⟩ | ⟨c, hc, hk⟩
  · cases h
  · exact ⟨c, List.mem_of_find?_eq_some hc, (Option.some.inj hk).symm⟩

/-- A line that starts with data holds some. -/
theorem Written.any_isData_of_startsData (h : Written k line) (hk : startsData k) :
    line.any (·.isData) = true := by
  rw [List.any_eq_true]
  rcases hk with rfl | rfl <;>
    obtain ⟨t, ht, hk⟩ := h.exists_of_some <;>
    exact ⟨t, ht, by simp [Token.isData, TokenKind.isData, hk]⟩

/-- A line with a cell is no comment line. -/
theorem Written.isCommentLine_of_some {k : TokenKind} (h : Written (some k) line) :
    RobotSuite.isCommentLine line = false := by
  have hkind : k.isData = true ∨ k = .continuation := by
    rcases h.kind_cases with h | h | h | h | h <;> simp_all [TokenKind.isData]
  obtain ⟨t, ht, rfl⟩ := h.exists_of_some
  have : line.any (fun t => t.isData || t.isContinuation) = true :=
    List.any_eq_true.2 ⟨t, ht, by simpa [Token.isData, Token.isContinuation] using hkind⟩
  rw [RobotSuite.isCommentLine, this, Bool.not_true, Bool.and_false]

/-- A line without cells is a comment line if it holds a comment. -/
theorem Written.isCommentLine_of_none (h : Written none line) :
    RobotSuite.isCommentLine line = line.any (·.isComment) := by
  have hnone : line.any (fun t => t.isData || t.isContinuation) = false := by
    rw [List.any_eq_false]
    intro t ht
    rcases h.kind_of_none t ht with h | h | h <;>
      simp [Token.isData, TokenKind.isData, Token.isContinuation, h]
  rw [RobotSuite.isCommentLine, hnone, Bool.not_false, Bool.and_true]

/-- A line that starts with data may be continued. -/
theorem Written.isContinuable_of_startsData (h : Written k line) (hk : startsData k) :
    isContinuable line = true := by
  rw [isContinuable, h.any_isData_of_startsData hk, h.isHeaderLine]
  rcases hk with rfl | rfl <;> rfl

end

/-! ## Cutting into lines -/

/-- Tokens up to a line ending are the first line. -/
theorem splitLines_append {ts : List Token} {e : Token} (hts : ∀ t ∈ ts, t.kind ≠ .eol)
    (he : e.kind = .eol) (rest : List Token) :
    splitLines (ts ++ e :: rest) = (ts ++ [e]) :: splitLines rest := by
  induction ts with
  | nil => simp [splitLines, Token.isEol, he]
  | cons t ts ih =>
    have ht : t.isEol = false := by simpa [Token.isEol] using hts t List.mem_cons_self
    have := ih fun t h => hts t (List.mem_cons_of_mem _ h)
    simp [splitLines, ht, this]

/-- A written line in front is the first line. -/
theorem Written.splitLines_append {k : Option TokenKind} {line : List Token}
    (h : Written k line) (rest : List Token) :
    splitLines (line ++ rest) = line :: splitLines rest := by
  obtain ⟨hl, he⟩ := h
  rw [List.append_assoc, List.singleton_append]
  exact RobotSuite.splitLines_append (fun t ht => (hl.kind t ht).1) he.kind rest

/-- Whole lines are cut apart again. -/
theorem splitLines_flatten {lines : List (List Token)} (h : ∀ l ∈ lines, ∃ k, Written k l) :
    splitLines lines.flatten = lines := by
  induction lines with
  | nil => rfl
  | cons line lines ih =>
    obtain ⟨k, hk⟩ := h line List.mem_cons_self
    rw [List.flatten_cons, hk.splitLines_append, ih fun l hl => h l (List.mem_cons_of_mem _ hl)]

/-! ## The lines of a statement -/

/-- A line that continues a statement: one behind a marker, or one with nothing but a
comment. -/
def Continues (line : List Token) : Prop :=
  Written (some .continuation) line ∨ Written none line ∧ line.any (·.isComment) = true

/-- The lines of a statement; `header` tells whether it is the header of a section. -/
inductive Laid : Bool → List (List Token) → Prop
  | header {line : List Token} : Written (some .sectionHeader) line → Laid true [line]
  | plain {line : List Token} : Written none line → Laid false [line]
  | data {k : Option TokenKind} {first : List Token} {more : List (List Token)} :
      Written k first → startsData k → (∀ l ∈ more, Continues l) → Laid false (first :: more)

/-- A continuation is a written line. -/
theorem Continues.written {line : List Token} (h : Continues line) : ∃ k, Written k line := by
  rcases h with h | ⟨h, -⟩
  · exact ⟨_, h⟩
  · exact ⟨_, h⟩

/-- Laid lines are written. -/
theorem Laid.written {header : Bool} {lines : List (List Token)} (h : Laid header lines) :
    ∀ l ∈ lines, ∃ k, Written k l := by
  intro l hl
  cases h with
  | header hw => exact ⟨_, List.mem_singleton.1 hl ▸ hw⟩
  | plain hw => exact ⟨_, List.mem_singleton.1 hl ▸ hw⟩
  | data hw _ hc =>
    rcases List.mem_cons.1 hl with rfl | hl
    · exact ⟨_, hw⟩
    · exact (hc l hl).written

/-- The tokens of a statement that is laid out hold no control characters. -/
theorem Laid.known {header : Bool} {ts : List Token} (h : Laid header (splitLines ts)) :
    ∀ t ∈ ts, t.kind ≠ .unknown := by
  intro t ht
  rw [← flatten_splitLines ts] at ht
  obtain ⟨l, hl, ht⟩ := List.mem_flatten.1 ht
  obtain ⟨k, hk⟩ := h.written l hl
  exact hk.known t ht

/-! ## Putting lines together -/

section
variable {more rest taken left : List (List Token)}

/-- What is taken does not depend on the lines behind. -/
theorem takeContinuation_append (h : takeContinuation more = some (taken, left)) :
    takeContinuation (more ++ rest) = some (taken, left ++ rest) := by
  induction more generalizing taken left with
  | nil => simp [takeContinuation] at h
  | cons line more ih =>
    rw [takeContinuation] at h
    rw [List.cons_append, takeContinuation]
    by_cases hc : isContinuationLine line = true
    · simp only [hc, if_true, Option.some.injEq, Prod.mk.injEq] at h ⊢
      obtain ⟨rfl, rfl⟩ := h
      exact ⟨rfl, rfl⟩
    · by_cases hl : isCommentLine line = true
      · cases ht : takeContinuation more with
        | none => simp [hc, hl, ht] at h
        | some p =>
          obtain ⟨rfl, rfl⟩ : line :: p.1 = taken ∧ p.2 = left := by simpa [hc, hl, ht] using h
          simp [hc, hl, ih ht]
      · simp [hc, hl] at h

/-- Lines among which none stands behind a marker are passed over if they hold comments. -/
theorem takeContinuation_eq_none (hm : ∀ l ∈ more, Continues l)
    (h : takeContinuation more = none) (hr : takeContinuation rest = none) :
    more.all isCommentLine = true ∧ takeContinuation (more ++ rest) = none := by
  induction more with
  | nil => exact ⟨rfl, hr⟩
  | cons line more ih =>
    rw [takeContinuation] at h
    rw [List.cons_append, takeContinuation]
    rcases hm line List.mem_cons_self with hw | ⟨hw, hc⟩
    · simp [hw.isContinuationLine] at h
    · have hl : isCommentLine line = true := by rw [hw.isCommentLine_of_none, hc]
      simp only [hw.isContinuationLine, hl] at h ⊢
      have hmore : takeContinuation more = none := by simpa using h
      obtain ⟨hall, hnone⟩ := ih (fun l h => hm l (List.mem_cons_of_mem _ h)) hmore
      simp [hl, hall, hnone]

end

/-- Lines that continue a statement are taken up to the last that stands behind a marker. -/
theorem takeContinuations_flatten {more rest : List (List Token)} (hm : ∀ l ∈ more, Continues l)
    (hr : takeContinuation rest = none) :
    takeContinuations (more ++ rest) =
      (dropEndWhile isCommentLine more, takeEndWhile isCommentLine more ++ rest) := by
  cases h : takeContinuation more with
  | none =>
    obtain ⟨hall, hnone⟩ := takeContinuation_eq_none hm h hr
    obtain ⟨htake, hdrop⟩ := Text.endWhile_of_all hall
    rw [takeContinuations, htake, hdrop]
    split
    · rfl
    · simp_all
  | some p =>
    obtain ⟨taken, left⟩ := p
    have happ := append_of_takeContinuation h
    obtain ⟨last, hlast, hcl⟩ := isContinuationLine_of_takeContinuation h
    have hmem : last ∈ more := by
      rw [← happ]
      exact List.mem_append_left _ (List.mem_of_getLast? hlast)
    have hstop : ∀ l ∈ taken.getLast?, isCommentLine l = false := by
      intro l hl
      rw [hlast, Option.mem_some_iff] at hl
      subst hl
      rcases hm last hmem with hw | ⟨hw, -⟩
      · exact hw.isCommentLine_of_some
      · simp [hw.isContinuationLine] at hcl
    have hleft : ∀ l ∈ left, Continues l := fun l hl =>
      hm l (happ ▸ List.mem_append_right _ hl)
    -- what is taken ends with a marked line, so the comments at the end are all in `left`
    have ih := takeContinuations_flatten hleft hr
    obtain ⟨htake, hdrop⟩ := Text.endWhile_append hstop left
    rw [takeContinuations, ← happ, htake, hdrop]
    split
    · rename_i hn
      rw [happ, takeContinuation_append h] at hn
      cases hn
    · rename_i hs
      rw [happ, takeContinuation_append h] at hs
      cases hs
      simp [ih]
termination_by more.length
decreasing_by exact length_lt_of_takeContinuation h

/-- The lines of a statement as they are put together again. -/
def regroup : List (List Token) → List (List (List Token))
  | [] => []
  | first :: more =>
    (first :: dropEndWhile isCommentLine more) ::
      (takeEndWhile isCommentLine more).map fun l => [l]

/-- No line of a statement continues what stands in front of it. -/
theorem takeContinuation_of_laid {header : Bool} {g rest : List (List Token)}
    (h : Laid header g) (hr : takeContinuation rest = none) :
    takeContinuation (g ++ rest) = none := by
  cases h with
  | header hw => simp [takeContinuation, hw.isContinuationLine, hw.isCommentLine_of_some]
  | plain hw => simp [takeContinuation, hw.isContinuationLine, hr]
  | data hw hk _ =>
    rcases hk with rfl | rfl <;>
      simp [takeContinuation, hw.isContinuationLine, hw.isCommentLine_of_some]

/-- Laid groups do not continue what stands in front. -/
theorem takeContinuation_flatten {gs : List (Bool × List (List Token))}
    (h : ∀ g ∈ gs, Laid g.1 g.2) : takeContinuation (gs.map (·.2)).flatten = none := by
  induction gs with
  | nil => rfl
  | cons g gs ih =>
    exact takeContinuation_of_laid (h g List.mem_cons_self)
      (ih fun g hg => h g (List.mem_cons_of_mem _ hg))

/-- Comment lines in front are groups of their own. -/
theorem groupLines_of_isCommentLine {ls rest : List (List Token)}
    (h : ls.all isCommentLine = true) :
    groupLines (ls ++ rest) = ls.map (fun l => [l]) ++ groupLines rest := by
  induction ls with
  | nil => rfl
  | cons l ls ih =>
    rw [List.all_cons, Bool.and_eq_true] at h
    have hdata : isContinuable l = false := by
      have hl := h.1
      rw [isCommentLine, Bool.and_eq_true, Bool.not_eq_true', List.any_eq_false] at hl
      have hnone : l.any (·.isData) = false := by
        rw [List.any_eq_false]
        intro t ht hd
        exact hl.2 t ht (by simp [hd])
      rw [isContinuable, hnone, Bool.and_false]
    rw [List.cons_append, groupLines, if_neg (by simp [hdata]), ih h.2]
    rfl

/-- **The lines of statements are put together as they were,** but for lines with nothing but
a comment at the end of a statement. -/
theorem groupLines_flatten {gs : List (Bool × List (List Token))} (h : ∀ g ∈ gs, Laid g.1 g.2) :
    groupLines (gs.map (·.2)).flatten = gs.flatMap fun g => regroup g.2 := by
  induction gs with
  | nil => rw [List.map_nil, List.flatten_nil, groupLines]; rfl
  | cons g gs ih =>
    have hrest : ∀ g ∈ gs, Laid g.1 g.2 := fun g hg => h g (List.mem_cons_of_mem _ hg)
    obtain ⟨header, lines⟩ := g
    rw [List.map_cons, List.flatten_cons, List.flatMap_cons, ← ih hrest]
    cases h (header, lines) List.mem_cons_self with
    | @header line hw =>
      have hc : isContinuable line = false := by simp [isContinuable, hw.isHeaderLine]
      rw [List.singleton_append, groupLines, if_neg (by simp [hc])]
      rfl
    | @plain line hw =>
      have hc : isContinuable line = false := by simp [isContinuable, hw.any_isData_of_none]
      rw [List.singleton_append, groupLines, if_neg (by simp [hc])]
      rfl
    | @data k first more hw hk hm =>
      have hnone := takeContinuation_flatten hrest
      have htake := takeContinuations_flatten hm hnone
      rw [List.cons_append, groupLines, if_pos (hw.isContinuable_of_startsData hk), htake,
        groupLines_of_isCommentLine (Text.all_takeEndWhile _ _)]
      rfl

/-! ## What is put together is laid out -/

/-- The lines taken are continuations. -/
theorem continues_of_takeContinuation {lines taken left : List (List Token)}
    (hw : ∀ l ∈ lines, ∃ k, Written k l) (h : takeContinuation lines = some (taken, left)) :
    ∀ l ∈ taken, Continues l := by
  induction lines generalizing taken left with
  | nil => simp [takeContinuation] at h
  | cons line lines ih =>
    obtain ⟨k, hk⟩ := hw line List.mem_cons_self
    rw [takeContinuation] at h
    by_cases hc : isContinuationLine line = true
    · simp only [hc, if_true, Option.some.injEq, Prod.mk.injEq] at h
      obtain ⟨rfl, -⟩ := h
      intro l hl
      obtain rfl := List.mem_singleton.1 hl
      have hkind : k = some .continuation := by simpa [hk.isContinuationLine] using hc
      exact .inl (hkind ▸ hk)
    · by_cases hl : isCommentLine line = true
      · cases ht : takeContinuation lines with
        | none => simp [hc, hl, ht] at h
        | some p =>
          obtain ⟨rfl, rfl⟩ : line :: p.1 = taken ∧ p.2 = left := by simpa [hc, hl, ht] using h
          intro l hm
          rcases List.mem_cons.1 hm with rfl | hm
          · cases k with
            | none => exact .inr ⟨hk, by rwa [hk.isCommentLine_of_none] at hl⟩
            | some k => simp [hk.isCommentLine_of_some] at hl
          · exact ih (fun l h => hw l (List.mem_cons_of_mem _ h)) ht l hm
      · simp [hc, hl] at h

/-- What continues a statement: lines behind markers and comments between them. -/
theorem continues_of_takeContinuations {lines : List (List Token)}
    (hw : ∀ l ∈ lines, ∃ k, Written k l) :
    (∀ l ∈ (takeContinuations lines).1, Continues l) ∧
      ∀ l ∈ (takeContinuations lines).1.getLast?, isCommentLine l = false := by
  fun_induction takeContinuations lines with
  | case1 => simp
  | case2 lines taken left h more rest hm ih =>
    have happ := append_of_takeContinuation h
    have hleft : ∀ l ∈ left, ∃ k, Written k l := fun l hl =>
      hw l (happ ▸ List.mem_append_right _ hl)
    obtain ⟨hc, hlast⟩ := ih hleft
    rw [hm] at hc hlast
    refine ⟨fun l hl => ?_, fun l hl => ?_⟩
    · rcases List.mem_append.1 hl with hl | hl
      · exact continues_of_takeContinuation hw h l hl
      · exact hc l hl
    · cases hmore : more.getLast? with
      | some last =>
        rw [List.getLast?_append, hmore, Option.some_or] at hl
        exact hlast l (by rw [hmore]; exact hl)
      | none =>
        rw [List.getLast?_append, hmore, Option.none_or] at hl
        obtain ⟨last, hlast, hcl⟩ := isContinuationLine_of_takeContinuation h
        rw [hlast, Option.mem_some_iff] at hl
        subst hl
        obtain ⟨k, hk⟩ := hw last (happ ▸ List.mem_append_left _ (List.mem_of_getLast? hlast))
        have hkind : k = some .continuation := by simpa [hk.isContinuationLine] using hcl
        exact (hkind ▸ hk).isCommentLine_of_some

/-- The first cell is found in the first line that has one. -/
theorem firstSignificant_append {k : Option TokenKind} {line rest : List Token}
    (h : Written k line) (hk : k ≠ none) :
    firstSignificant (line ++ rest) = firstSignificant line := by
  rcases h.firstSignificant with ⟨hn, -⟩ | ⟨c, hc, -⟩
  · exact absurd hn hk
  · rw [firstSignificant] at hc ⊢
    rw [List.find?_append, hc, Option.some_or, firstSignificant, hc]

/-- Whether a line continues is told by its first cell. -/
theorem isContinuationLine_append {k : Option TokenKind} {line rest : List Token}
    (h : Written k line) (hk : k ≠ none) :
    isContinuationLine (line ++ rest) = isContinuationLine line := by
  rw [isContinuationLine, isContinuationLine, firstSignificant_append h hk]

/-- A statement is the header of a section if it is laid out as one. -/
theorem Laid.isHeaderLine {header : Bool} {lines : List (List Token)} (h : Laid header lines) :
    RobotSuite.isHeaderLine lines.flatten = header := by
  cases h with
  | header hw => simp [hw.isHeaderLine]
  | plain hw => simp [hw.isHeaderLine]
  | data hw hk _ =>
    rw [List.flatten_cons, RobotSuite.isHeaderLine,
      firstSignificant_append hw (by rcases hk with h | h <;> simp [h]),
      ← RobotSuite.isHeaderLine, hw.isHeaderLine]
    rcases hk with h | h <;> simp [h]

/-- The line of a header is a header, and no line of another statement is. -/
theorem Laid.countP_isHeaderLine {header : Bool} {lines : List (List Token)}
    (h : Laid header lines) : lines.countP RobotSuite.isHeaderLine = header.toNat := by
  cases h with
  | header hw => simp [hw.isHeaderLine]
  | plain hw => simp [hw.isHeaderLine]
  | @data k first more hw hk hm =>
    have hfirst : RobotSuite.isHeaderLine first = false := by
      rw [hw.isHeaderLine]
      rcases hk with rfl | rfl <;> rfl
    have hmore : more.countP RobotSuite.isHeaderLine = 0 := by
      rw [List.countP_eq_zero]
      intro l hl
      rcases hm l hl with hw | ⟨hw, -⟩ <;> simp [hw.isHeaderLine]
    simp [hfirst, hmore]

/-- No statement that is laid out starts with a continuation marker. -/
theorem Laid.isContinuationLine {header : Bool} {lines : List (List Token)}
    (h : Laid header lines) : RobotSuite.isContinuationLine lines.flatten = false := by
  cases h with
  | header hw => simp [hw.isContinuationLine]
  | plain hw => simp [hw.isContinuationLine]
  | data hw hk _ =>
    rw [List.flatten_cons,
      isContinuationLine_append hw (by rcases hk with h | h <;> simp [h]), hw.isContinuationLine]
    rcases hk with h | h <;> simp [h]

/-- **What is put together is laid out,** and is put together again in the same way, unless
it starts with a continuation marker. -/
theorem laid_of_mem_groupLines {lines g : List (List Token)} (hw : ∀ l ∈ lines, ∃ k, Written k l)
    (hg : g ∈ groupLines lines) (hc : isContinuationLine g.flatten = false) :
    (∃ header, Laid header g) ∧ regroup g = [g] := by
  fun_induction groupLines lines with
  | case1 => simp at hg
  | case2 line rest h ih =>
    have hrest : ∀ l ∈ rest, ∃ k, Written k l := fun l hl => hw l (List.mem_cons_of_mem _ hl)
    rcases List.mem_cons.1 hg with rfl | hg
    · obtain ⟨k, hk⟩ := hw line List.mem_cons_self
      obtain ⟨hm, hlast⟩ := continues_of_takeContinuations hrest
      have hstart : startsData k := by
        rw [isContinuable, hk.isHeaderLine, Bool.and_eq_true, Bool.not_eq_true'] at h
        rcases hk.kind_cases with rfl | rfl | rfl | hs
        · simp [hk.any_isData_of_none] at h
        · simp at h
        · rw [List.flatten_cons, isContinuationLine_append hk (by simp),
            hk.isContinuationLine] at hc
          simp at hc
        · exact hs
      refine ⟨⟨false, .data hk hstart hm⟩, ?_⟩
      obtain ⟨htake, hdrop⟩ := Text.endWhile_append hlast []
      rw [List.append_nil] at htake hdrop
      rw [regroup, htake, hdrop]
      simp [takeEndWhile, dropEndWhile]
    · refine ih (fun l hl => hrest l ?_) hg
      rw [← takeContinuations_append rest]
      exact List.mem_append_right _ hl
  | case3 line rest h ih =>
    rcases List.mem_cons.1 hg with rfl | hg
    · obtain ⟨k, hk⟩ := hw line List.mem_cons_self
      refine ⟨?_, by simp [regroup, takeEndWhile, dropEndWhile]⟩
      rcases hk.kind_cases with rfl | rfl | rfl | hs
      · exact ⟨false, .plain hk⟩
      · exact ⟨true, .header hk⟩
      · rw [List.flatten_cons, isContinuationLine_append hk (by simp),
          hk.isContinuationLine] at hc
        simp at hc
      · exact absurd (hk.isContinuable_of_startsData hs) h
    · exact ih (fun l hl => hw l (List.mem_cons_of_mem _ hl)) hg

end RobotSuite
