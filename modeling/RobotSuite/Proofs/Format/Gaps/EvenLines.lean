/-
# Lines with even gaps

Behind its indentation a line that is laid out starts with a cell or a comment, and it ends with one
(`composeLine_inked`), if it holds any.  Every line of a statement does, unless the statement is an
empty line (`Laid.filled`).  So a statement with gaps as configured stands at the column of its
depth, and none of its lines ends with a gap (`Gaps.standsAt_spaced`); and so does a statement that
the pass leaves as it is, because it has these gaps already (`Gaps.standsAt_outcome`).
-/

import RobotSuite.Lint.SpaceRules
import RobotSuite.Proofs.Format.Layout.EvenGaps

namespace RobotSuite

/-- A gap of `n` blanks is `n` columns wide, whatever a tab counts for. -/
theorem Text.gapWidth_spaces (n tab : Nat) : gapWidth (spaces n) tab = n := by
  rw [gapWidth, toList_spaces]
  induction n with
  | zero => rfl
  | succ n ih =>
    rw [List.replicate_succ, gapColumns, if_neg (by decide), ih, Nat.add_comm]

/-- Whether a token is neither a gap nor a line ending. -/
def Token.isInk (t : Token) : Bool := !(t.isSeparator || t.isEol)

/-- A line whose first and last tokens are neither gaps nor line endings. -/
structure Inked (ts : List Token) : Prop where
  first : ∃ t ∈ ts.head?, t.isInk = true
  last : ∃ t ∈ ts.getLast?, t.isInk = true

section
variable {c : Token} {cells : List Token} {gapAt : Nat → String}

/-- Data cells and continuation marks are ink. -/
theorem isInk_of_cell (h : (c.isData || c.isContinuation) = true) : c.isInk = true := by
  unfold Token.isData Token.isContinuation at h
  unfold Token.isInk Token.isSeparator Token.isEol
  cases hk : c.kind <;> simp_all [TokenKind.isData]

/-- Retyping a cell for its place leaves ink ink. -/
@[simp] theorem placeCell_isInk (atStart : Bool) (c : Token) :
    (placeCell atStart c).isInk = c.isInk := by
  by_cases h : c.kind = .name ∨ c.kind = .argument
  · unfold Token.isInk Token.isSeparator Token.isEol
    rw [placeCell_kind h]
    rcases h with h | h <;> cases atStart <;> rw [h] <;> rfl
  · rw [not_or] at h
    rw [placeCell_of_ne h.1 h.2]

/-- The row behind its first cell ends with ink. -/
theorem getLast?_composeRest (hc : ∀ c ∈ cells, c.isInk = true) (n : Nat) :
    ∀ t ∈ (composeRest gapAt n cells).getLast?, t.isInk = true := by
  induction cells generalizing n with
  | nil => simp [composeRest]
  | cons c cells ih =>
    obtain ⟨hcell, hcells⟩ := List.forall_mem_cons.1 hc
    intro t ht
    rw [composeRest, List.getLast?_cons_cons, List.getLast?_cons] at ht
    cases hrest : (composeRest gapAt (n + 1) cells).getLast? with
    | none =>
      rw [hrest] at ht
      obtain rfl : placeCell false c = t := by simpa using ht
      rwa [placeCell_isInk]
    | some u =>
      rw [hrest] at ht
      obtain rfl : u = t := by simpa using ht
      exact ih hcells (n + 1) u hrest

/-- A composed row starts and ends with ink. -/
theorem inked_composeCells (hc : ∀ c ∈ cells, c.isInk = true) (hne : cells ≠ [])
    (gapAt : Nat → String) (atStart : Bool) : Inked (composeCells gapAt atStart cells) := by
  cases cells with
  | nil => exact absurd rfl hne
  | cons c cells =>
    obtain ⟨hcell, hcells⟩ := List.forall_mem_cons.1 hc
    have hfirst : (placeCell atStart c).isInk = true := by rwa [placeCell_isInk]
    refine ⟨⟨_, rfl, hfirst⟩, ?_⟩
    rw [composeCells, List.getLast?_cons]
    refine ⟨_, rfl, ?_⟩
    cases hrest : (composeRest gapAt 0 cells).getLast? with
    | none => exact hfirst
    | some u => exact getLast?_composeRest hcells 0 u hrest

/-- **A line that is laid out ends with a cell or a comment,** if it holds one, and has nothing but
its indentation in front of the first. -/
theorem composeLine_inked {l : LineLayout} (hc : ∀ c ∈ l.cells, c.isInk = true)
    (hr : ∀ c ∈ l.comment, c.isInk = true) (hne : l.cells ≠ [] ∨ l.comment ≠ none)
    (indent separator : String) (gapAt : Nat → String) :
    ∃ ink, Inked ink ∧ composeLine indent l separator gapAt =
      (if indent = "" then [] else [gap indent]) ++ ink ++ [l.ending] := by
  obtain ⟨cells, comment, ending⟩ := l
  cases comment with
  | none =>
    refine ⟨_, inked_composeCells hc (hne.resolve_right (· rfl)) gapAt (indent = ""), ?_⟩
    simp [composeLine]
  | some c =>
    have hlast : c.isInk = true := hr c rfl
    cases cells with
    | nil => exact ⟨[c], ⟨⟨c, rfl, hlast⟩, ⟨c, rfl, hlast⟩⟩, by simp [composeLine, composeCells]⟩
    | cons d cells =>
      obtain ⟨hfirst, -⟩ := inked_composeCells hc (List.cons_ne_nil d cells) gapAt (indent = "")
      refine ⟨composeCells gapAt (indent = "") (d :: cells) ++ [gap separator, c],
        ⟨hfirst, c, by simp, hlast⟩, ?_⟩
      simp [composeLine]

namespace Inked
variable {ink front rest : List Token} {e : Token}

/-- No gap stands at the end of a line behind its last cell or comment. -/
theorem trailingGap? (h : Inked ink) (he : e.isEol = true) :
    SpaceRules.trailingGap? (front ++ ink ++ [e]) = none := by
  obtain ⟨t, ht, hink⟩ := h.last
  obtain ⟨init, rfl⟩ := List.getLast?_eq_some_iff.1 ht
  rw [Token.isInk, Bool.not_eq_true', Bool.or_eq_false_iff] at hink
  simp [SpaceRules.trailingGap?, List.filter_append, hink.1, hink.2, he]

/-- A statement is indented by the gap in front of its first cell or comment. -/
theorem indent {s : Statement} {n : Nat} (h : Inked ink) (tab : Nat)
    (hs : s.tokens =
      (if Text.spaces n = "" then [] else [gap (Text.spaces n)]) ++ ink ++ e :: rest) :
    s.indent tab = n := by
  obtain ⟨t, ht, hink⟩ := h.first
  obtain ⟨more, rfl⟩ := List.head?_eq_some_iff.1 ht
  rw [Token.isInk, Bool.not_eq_true', Bool.or_eq_false_iff] at hink
  rw [Statement.indent, hs]
  by_cases hn : Text.spaces n = ""
  · rw [if_pos hn, spaces_eq_empty.1 hn]
    cases more <;> simp [hink.1]
  · rw [if_neg hn]
    simp [gap, Token.create, Token.isSeparator, hink.2, Text.gapWidth_spaces]

end Inked
end

/-! ## Statements at a column -/

/-- A statement that stands at a column, unless it is an empty line, and no line of which ends with
a gap. -/
structure Statement.StandsAt (column : Nat) (s : Statement) : Prop where
  indent : s.type ≠ .emptyLine → s.indent 4 = column
  bounded : s.type ≠ .emptyLine → column ≤ maxTextLength
  trailing : ∀ line ∈ splitLines s.tokens, SpaceRules.trailingGap? line = none

section
variable {s r : Statement} {header : Bool} {ts : List Token} {n : Nat}

/-- The gap that ends a line is found alike without marks and places. -/
theorem trailingGap?_map_bare (line : List Token) :
    SpaceRules.trailingGap? (line.map Token.bare) =
      (SpaceRules.trailingGap? line).map Token.bare := by
  have hfilter : (line.map Token.bare).filter (fun t => !t.isEol) =
      (line.filter fun t => !t.isEol).map Token.bare := by
    rw [List.filter_map]
    rfl
  rw [SpaceRules.trailingGap?, SpaceRules.trailingGap?, hfilter, List.getLast?_map,
    Option.filter_map]
  rfl

/-- Statements of the same bare tokens are indented alike. -/
theorem indent_congr (h : r.tokens.map Token.bare = s.tokens.map Token.bare) (tab : Nat) :
    r.indent tab = s.indent tab := by
  have hbare (s : Statement) : ({ s with tokens := s.tokens.map Token.bare }).indent tab =
      s.indent tab := by
    unfold Statement.indent
    cases s.tokens with
    | nil => rfl
    | cons t ts => cases ts <;> rfl
  rw [← hbare r, ← hbare s, h]
  rfl

/-- Where a statement stands is seen from its tokens without their places. -/
theorem Statement.StandsAt.congr (h : s.StandsAt n) (ht : r.type = s.type)
    (hr : r.tokens.map Token.bare = s.tokens.map Token.bare) : r.StandsAt n := by
  obtain ⟨hindent, hbounded, htrailing⟩ := h
  rw [← ht] at hindent hbounded
  refine ⟨fun hne => (indent_congr hr 4).trans (hindent hne), hbounded, fun line hline => ?_⟩
  have hmem : line.map Token.bare ∈ (splitLines s.tokens).map (List.map Token.bare) := by
    rw [← splitLines_map_bare, ← hr, splitLines_map_bare]
    exact List.mem_map_of_mem hline
  obtain ⟨old, hold, heq⟩ := List.mem_map.1 hmem
  have hnone := congrArg (Option.map Token.bare) (htrailing old hold)
  rw [← trailingGap?_map_bare, heq, trailingGap?_map_bare] at hnone
  exact Option.map_eq_none_iff.1 hnone

/-- Every line of a statement holds a cell or a comment, unless the statement is an empty line. -/
theorem Laid.filled (h : Laid header (splitLines ts))
    (hne : header = true ∨ dataTexts ts ≠ [] ∨ commentTexts ts ≠ []) :
    ∀ l ∈ splitLines ts,
      (LineLayout.ofLine l).cells ≠ [] ∨ (LineLayout.ofLine l).comment ≠ none := by
  have hcells {k : TokenKind} {l : List Token} (hw : Written (some k) l) :
      (LineLayout.ofLine l).cells ≠ [] := by
    intro hnil
    have hlead := hw.cells.2.2
    rw [show cellTokens l = [] from hnil] at hlead
    cases hlead
  have hcomment {l : List Token} (hc : l.any (·.isComment) = true) :
      (LineLayout.ofLine l).comment ≠ none := by
    obtain ⟨t, ht, hcomment⟩ := List.any_eq_true.1 hc
    exact fun hnone => absurd hcomment (by simpa using List.find?_eq_none.1 hnone t ht)
  have hflat := flatten_splitLines ts
  generalize splitLines ts = lines at h hflat ⊢
  cases h with
  | header hw => exact List.forall_mem_singleton.2 (.inl (hcells hw))
  | @plain line hw =>
    obtain rfl : line = ts := by simpa using hflat
    refine List.forall_mem_singleton.2 ?_
    rcases hne with hfalse | hdata | hcomments
    · cases hfalse
    · refine .inl fun hnil => hdata ?_
      rw [dataTexts, RobotSuite.dataTokens, List.map_eq_nil_iff, List.filter_eq_nil_iff]
      intro t ht hd
      exact List.filter_eq_nil_iff.1 hnil t ht (by simp [hd])
    · refine .inr (hcomment ?_)
      have hempty := commentTexts_isEmpty line
      rw [List.isEmpty_eq_false_iff.2 hcomments] at hempty
      simpa using hempty
  | data hw hk hmore =>
    refine List.forall_mem_cons.2 ⟨.inl ?_, fun l hl => ?_⟩
    · rcases hk with rfl | rfl
      · exact hcells hw
      · exact hcells hw
    · exact (hmore l hl).imp hcells fun hc => hcomment hc.2

/-- A line of a statement that is laid out: behind its indentation it starts with a cell or a
comment, and it ends with one. -/
theorem Laid.inked_line (h : Laid header (splitLines ts))
    (hne : header = true ∨ dataTexts ts ≠ [] ∨ commentTexts ts ≠ []) (l : List Token)
    (hmem : l ∈ splitLines ts) (indent separator : String) (gapAt : Nat → String) :
    ∃ ink e, Inked ink ∧ e.isEol = true ∧ composeLine indent (.ofLine l) separator gapAt =
      (if indent = "" then [] else [gap indent]) ++ ink ++ [e] := by
  have hcells : ∀ c ∈ (LineLayout.ofLine l).cells, c.isInk = true := fun c hc =>
    isInk_of_cell (List.mem_filter.1 hc).2
  have hcomment : ∀ c ∈ (LineLayout.ofLine l).comment, c.isInk = true := by
    intro c hc
    have hk : c.kind = .comment := by simpa [Token.isComment] using List.find?_some hc
    simp [Token.isInk, Token.isSeparator, Token.isEol, hk]
  obtain ⟨ink, hink, heq⟩ := composeLine_inked hcells hcomment (h.filled hne l hmem) indent
    separator gapAt
  obtain ⟨k, hw⟩ := h.written l hmem
  obtain @⟨ts, e, -, he⟩ := hw
  refine ⟨ink, endingOf (ts ++ [e]), hink, ?_, heq⟩
  rw [endingOf_concat he.kind]
  simp [Token.isEol, he.kind]

end

namespace Gaps
variable {setup : PassSetup} {kind : SectionKind} {sc : Scope} {s : Statement} {header : Bool}
  {tokens : List Token} {n : Nat}

section
variable (hv : setup.IsValid) (hl : Laid header (splitLines s.tokens))
  (hne : s.type ≠ .emptyLine →
    header = true ∨ dataTexts s.tokens ≠ [] ∨ commentTexts s.tokens ≠ [])
  (hh : header = true → s.type ≠ .emptyLine ∧ sc.depth s = 0)
include hv hl hne hh

/-- **With gaps as configured a statement stands at its depth.** -/
theorem standsAt_spaced (h : spaced setup sc s = .ok tokens) :
    (s.withTokens tokens).StandsAt ((sc.depth s).toNat * setup.config.indent) := by
  rw [spaced] at h
  split at h
  · rename_i ht
    obtain ⟨front, e, htokens, he⟩ := hl.getLast?
    have heol : e.isEol = true := by simp [Token.isEol, he.kind]
    obtain rfl : [e] = tokens := by
      rw [htokens, endingOf_concat he.kind] at h
      exact Except.ok.inj h
    have hlines : splitLines [e] = [[e]] := by simp [splitLines, heol]
    refine ⟨fun hne => absurd ht hne, fun hne => absurd ht hne, ?_⟩
    show ∀ line ∈ splitLines [e], _
    rw [hlines]
    exact List.forall_mem_singleton.2 (by simp [SpaceRules.trailingGap?, heol])
  · rename_i ht
    cases hi : indentAt setup sc s with
    | error reason =>
      rw [hi] at h
      cases h
    | ok indent =>
      rw [hi] at h
      have htokens : relay indent setup.config.separator s.tokens = tokens := Except.ok.inj h
      obtain ⟨hbound, rfl⟩ := spaces_eq_ok_iff.1 hi
      have hmargin : header = true →
          Text.spaces ((sc.depth s).toNat * setup.config.indent) = "" := fun hheader => by
        simp [(hh hheader).2, spaces_eq_empty]
      rw [relay_eq] at htokens
      subst htokens
      let lay (l : List Token) : List Token :=
        composeLine (Text.spaces ((sc.depth s).toNat * setup.config.indent)) (.ofLine l)
          setup.config.separator fun _ => setup.config.separator
      have hsplit : splitLines ((splitLines s.tokens).flatMap lay) =
          (splitLines s.tokens).map lay :=
        (hl.relay (hl.alike_composeLines (isIndent_spaces _) hv.separator
          (fun _ _ => hv.separator) hmargin)).1
      have hlay (l : List Token) (hmem : l ∈ splitLines s.tokens) := hl.inked_line (hne ht) l hmem
        (Text.spaces ((sc.depth s).toNat * setup.config.indent)) setup.config.separator
        fun _ => setup.config.separator
      refine ⟨fun _ => ?_, fun _ => hbound, ?_⟩
      · obtain ⟨l, more, hlines⟩ := List.exists_cons_of_ne_nil hl.ne_nil
        obtain ⟨ink, e, hink, -, heq⟩ := hlay l (by rw [hlines]; exact List.mem_cons_self)
        have hfirst : (splitLines s.tokens).flatMap lay =
            (if Text.spaces ((sc.depth s).toNat * setup.config.indent) = "" then []
              else [gap (Text.spaces ((sc.depth s).toNat * setup.config.indent))]) ++ ink ++
              e :: more.flatMap lay := by
          rw [hlines, List.flatMap_cons, show lay l = _ from heq]
          simp
        exact hink.indent 4 hfirst
      · show ∀ line ∈ splitLines ((splitLines s.tokens).flatMap lay), _
        rw [hsplit, List.forall_mem_map]
        intro l hmem
        obtain ⟨ink, e, hink, heol, heq⟩ := hlay l hmem
        rw [show lay l = _ from heq]
        exact hink.trailingGap? heol

/-- **What the pass makes of a statement stands at its depth,** whether it is a replacement or the
statement itself. -/
theorem standsAt_outcome
    (he : s.type = .emptyLine → dataTexts s.tokens = [] ∧ commentTexts s.tokens = [])
    (hf : s.flaws = []) (ht : s.type ≠ .error) (hk : isLaidOut sc = true) (hc : sc.IsCalm)
    (hs : s.directive? = none) (hb : ((transform setup).statement sc n s).breakdown? = none) :
    let new := ((transform setup).statement sc n s).outcome s (replacementIssues s)
    new.type = s.type ∧ new.StandsAt ((sc.depth s).toNat * setup.config.indent) := by
  dsimp only [transform] at hb ⊢
  rw [hc.disables hs, if_neg Bool.false_ne_true, space, hk] at hb ⊢
  rw [if_neg (by simp [ht])] at hb ⊢
  cases htokens : spaced setup sc s with
  | error reason =>
    rw [htokens] at hb
    cases hb
  | ok tokens =>
    obtain ⟨-, hflaws, -, hsame⟩ := spaced_spec hv hl he hh hf htokens
    have hnew := standsAt_spaced hv hl hne hh htokens
    dsimp only
    split
    · rename_i htext
      exact ⟨rfl, hnew.congr rfl (hsame htext).symm⟩
    · rw [Decision.outcome_put s (s.withTokens tokens) rfl hflaws]
      exact ⟨rfl, hnew⟩

end
end Gaps

end RobotSuite
