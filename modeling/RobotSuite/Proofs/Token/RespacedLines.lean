/-
# Lines with other gaps

What a line shows besides its gaps does not change when it is laid out with others
(`Laid.ofTokens_showTokens`, `composeLine_bare`), and neither does what is checked of its tokens
(`Statement.flaws_of_respaced`).  In return the gaps can be told from the text: lines with the same
cells and the same text have the same gaps (`Statement.bare_of_respaced`).
-/

import Mathlib.Data.List.Forall2
import RobotSuite.Proofs.Format.Layout.Passes
import RobotSuite.Proofs.Statement.Shown

namespace RobotSuite

/-! ## Layouts -/

/-- A layout without the places of its tokens. -/
def LineLayout.bare (l : LineLayout) : LineLayout :=
  ⟨l.cells.map Token.bare, l.comment.map Token.bare, l.ending.bare⟩

section
variable {gaps : Bool} {k : Option TokenKind} {line ts : List Token}

/-- A search that passes no gap finds the same token among the shown ones. -/
theorem find?_showTokens {p : Token → Bool} (hbare : ∀ t : Token, p t.bare = p t)
    (hgap : ∀ t : Token, t.isSeparator = true → p t = false) (ts : List Token) :
    (showTokens gaps ts).find? p = (ts.find? p).map Token.bare := by
  rw [← List.head?_filter, filter_showTokens hbare hgap, List.head?_map, List.head?_filter]

/-- A separator is no continuation mark. -/
theorem isContinuation_of_isSeparator {t : Token} (h : t.isSeparator = true) :
    t.isContinuation = false := by
  have hk : t.kind = .separator := by simpa [Token.isSeparator] using h
  simp [Token.isContinuation, hk]

/-- The ending is shown. -/
theorem endingOf_showTokens {e : Token} (he : e.isEol = true) (ts : List Token) :
    endingOf (showTokens gaps (ts ++ [e])) = (endingOf (ts ++ [e])).bare := by
  have hkind : e.kind = .eol := by simpa [Token.isEol] using he
  have hbare : e.bare.kind = .eol := hkind
  rw [showTokens_concat he, endingOf_concat hkind, endingOf_concat hbare]

/-- The layout of a line shows without its gaps. -/
theorem Written.ofLine_showTokens (h : Written k line) :
    LineLayout.ofLine (showTokens gaps line) = (LineLayout.ofLine line).bare := by
  obtain @⟨ts, e, hl, he⟩ := h
  have heol : e.isEol = true := by simpa [Token.isEol] using he.kind
  rw [LineLayout.ofLine, LineLayout.ofLine, LineLayout.bare, endingOf_showTokens heol,
    find?_showTokens Token.bare_isComment fun _ => isComment_of_isSeparator,
    filter_showTokens (fun _ => rfl) fun t ht => by
      rw [isData_of_isSeparator ht, isContinuation_of_isSeparator ht, Bool.or_false]]

/-- The layouts of the lines of a statement show without their gaps. -/
theorem Laid.ofTokens_showTokens {header : Bool} (h : Laid header (splitLines ts)) :
    LineLayout.ofTokens (showTokens gaps ts) = (LineLayout.ofTokens ts).map LineLayout.bare := by
  rw [LineLayout.ofTokens, LineLayout.ofTokens, h.endsLine.splitLines, List.map_map, List.map_map]
  refine List.map_congr_left fun line hline => ?_
  obtain ⟨k, hk⟩ := h.written line hline
  exact hk.ofLine_showTokens

/-- Cells are retyped alike without marks and places. -/
theorem placeCell_bare (atStart : Bool) (t : Token) :
    placeCell atStart t.bare = (placeCell atStart t).bare := by
  rw [placeCell, placeCell, Token.bare_kind]
  split
  · rfl
  · split <;> rfl

/-- Cells behind the first are written alike without marks and places. -/
theorem composeRest_bare (gapAt : Nat → String) (n : Nat) (cells : List Token) :
    composeRest gapAt n (cells.map Token.bare) = (composeRest gapAt n cells).map Token.bare := by
  induction cells generalizing n with
  | nil => rfl
  | cons cell cells ih =>
    rw [List.map_cons, composeRest, composeRest, ih, placeCell_bare]
    rfl

/-- Cells are written alike without marks and places. -/
theorem composeCells_bare (gapAt : Nat → String) (atStart : Bool) (cells : List Token) :
    composeCells gapAt atStart (cells.map Token.bare) =
      (composeCells gapAt atStart cells).map Token.bare := by
  cases cells with
  | nil => rfl
  | cons cell cells =>
    rw [List.map_cons, composeCells, composeCells, composeRest_bare, placeCell_bare]
    rfl

/-- A layout without places is written without places. -/
theorem composeLine_bare (indent separator : String) (l : LineLayout) (gapAt : Nat → String) :
    composeLine indent l.bare separator gapAt =
      (composeLine indent l separator gapAt).map Token.bare := by
  have hindent : (if indent = "" then [] else [gap indent]) =
      (if indent = "" then [] else [gap indent]).map Token.bare := by
    split <;> rfl
  obtain ⟨cells, comment, ending⟩ := l
  have hseparator : (if (cells.map Token.bare).isEmpty then [] else [gap separator]) =
      (if cells.isEmpty then [] else [gap separator]).map Token.bare := by
    rw [List.isEmpty_map]
    split <;> rfl
  cases comment with
  | none =>
    simp only [composeLine, LineLayout.bare, Option.map_none, composeCells_bare, List.map_append,
      ← hindent, List.map_nil, List.map_singleton]
  | some comment =>
    show (if indent = "" then [] else [gap indent]) ++
      composeCells gapAt (indent = "") (cells.map Token.bare) ++
      ((if (cells.map Token.bare).isEmpty then [] else [gap separator]) ++ [comment.bare]) ++
      [ending.bare] = _
    rw [hseparator, composeCells_bare, hindent, composeLine]
    simp only [List.map_append, List.map_singleton]

end
/-! ## Lines with the same text -/

/-- A line and another with the same ending, of which both or none are headers. -/
inductive Rewritten : List Token → List Token → Prop
  | mk {k k' : Option TokenKind} {ts us : List Token} {e e' : Token} : Line k ts → Line k' us →
      IsBreak e → e'.bare = e.bare → (k = some .sectionHeader ↔ k' = some .sectionHeader) →
      Rewritten (ts ++ [e]) (us ++ [e'])

/-- A text is read as one line. -/
theorem Line.map_bare {k k' : Option TokenKind} {ts us : List Token} (ht : Line k ts)
    (hu : Line k' us) (hk : k = some .sectionHeader ↔ k' = some .sectionHeader)
    (hc : chars ts = chars us) : ts.map Token.bare = us.map Token.bare := by
  have hheader : (k == some .sectionHeader) = (k' == some .sectionHeader) := by
    rw [Bool.eq_iff_iff, beq_iff_eq, beq_iff_eq]
    exact hk
  have hpieces : ts.map Token.piece = us.map Token.piece := by
    rw [← linePieces_of_line ht, ← linePieces_of_line hu, hheader, hc]
  have hbare (ts : List Token) : ts.map Token.bare = (ts.map Token.piece).map Piece.bare := by
    rw [List.map_map]
    exact List.map_congr_left fun t _ => t.bare_piece.symm
  rw [hbare, hpieces, ← hbare]

/-- **Lines that are rewritten to the same text are the same,** if only their endings hold line
breaks. -/
theorem map_bare_of_chars {ls ls' : List (List Token)} (h : List.Forall₂ Rewritten ls ls')
    (hu : ∀ t ∈ ls.flatten, t.kind ≠ .eol → isUnbroken t.value.toList = true)
    (hu' : ∀ t ∈ ls'.flatten, t.kind ≠ .eol → isUnbroken t.value.toList = true)
    (he : ∀ t ∈ ls.flatten.dropLast, t.kind = .eol → t.value ≠ "")
    (hc : chars ls.flatten = chars ls'.flatten) :
    ls.map (List.map Token.bare) = ls'.map (List.map Token.bare) := by
  induction h with
  | nil => rfl
  | @cons l l' rest rest' hl hrest ih =>
    rw [List.flatten_cons, List.flatten_cons] at hc
    rw [List.flatten_cons, List.forall_mem_append] at hu hu'
    rw [List.flatten_cons] at he
    rw [List.map_cons, List.map_cons]
    cases hl with
    | @mk k k' ts us e e' hts hus hbreak hbare hk =>
      have hvalue : e'.value = e.value := (congrArg Token.value hbare :)
      have hts' := isUnbroken_chars fun t ht =>
        hu.1 t (List.mem_append_left _ ht) (hts.kind t ht).1
      have hus' := isUnbroken_chars fun t ht =>
        hu'.1 t (List.mem_append_left _ ht) (hus.kind t ht).1
      cases hrest with
      | nil =>
        simp only [List.flatten_nil, List.append_nil, chars_append, chars_cons, chars_nil, hvalue,
          List.append_cancel_right_eq] at hc
        rw [List.map_append, List.map_append, hts.map_bare hus hk hc, List.map_singleton,
          List.map_singleton, hbare]
      | @cons l2 l2' rest rest' hl2 hrest =>
        have hnil : (l2 :: rest).flatten ≠ [] := by
          cases hl2
          simp
        rw [List.dropLast_append_of_ne_nil hnil, List.forall_mem_append] at he
        have hne : e.value ≠ "" := he.1 e (by simp) hbreak.kind
        have hbreak' : IsBreak e' := ⟨(congrArg Token.kind hbare :).trans hbreak.kind, by
          rw [hvalue]
          exact hbreak.value⟩
        have hcut := congrArg cutLine hc
        simp only [chars_append, chars_cons, chars_nil, List.append_nil, List.append_assoc] at hcut
        rw [cutLine_append hts', cutLine_append hus', cutLine_ending hbreak hne,
          cutLine_ending hbreak' (hvalue ▸ hne), List.append_nil, List.append_nil] at hcut
        simp only [Prod.mk.injEq, hvalue, true_and] at hcut
        rw [List.map_append, List.map_append, List.map_singleton, List.map_singleton, hbare,
          hts.map_bare hus hk hcut.1, ih hu.2 hu'.2 he.2 hcut.2]

/-! ## Lines laid out with other gaps -/

section
variable {f : List Token → List Token} {line new ts : List Token}

/-- A line that is laid out with other gaps. -/
structure Respaced (line new : List Token) : Prop where
  alike : Alike line new
  data : dataTexts new = dataTexts line
  comments : commentTexts new = commentTexts line
  ending : endingOf new = endingOf line

/-- A line that is laid out again. -/
theorem Written.rewritten {k k' : Option TokenKind} (h : Written k line) (hnew : Written k' new)
    (hk : k' = k ∨ startsData k ∧ startsData k') (he : endingOf new = endingOf line) :
    Rewritten line new := by
  obtain @⟨ts, e, hl, hb⟩ := h
  obtain @⟨us, e', hl', hb'⟩ := hnew
  rw [endingOf_concat hb.kind, endingOf_concat hb'.kind] at he
  refine .mk hl hl' hb (by rw [he]) ?_
  rcases hk with rfl | ⟨hk, hk'⟩
  · rfl
  · rcases hk with rfl | rfl <;> rcases hk' with rfl | rfl <;> simp

/-- A respaced line is rewritten with the same cells. -/
theorem Respaced.rewritten {k : Option TokenKind} (h : Respaced line new) (hw : Written k line) :
    Rewritten line new := by
  obtain ⟨k', hnew, hk⟩ := h.alike.written k hw
  exact hw.rewritten hnew hk h.ending

/-- The texts of the line endings of some tokens. -/
def eolTexts (ts : List Token) : List String := (ts.filter (·.isEol)).map (·.value)

/-- A last line ending comes last. -/
theorem eolTexts_concat {e : Token} (he : e.kind = .eol) (front : List Token) :
    eolTexts (front ++ [e]) = eolTexts front ++ [e.value] := by
  have heol : e.isEol = true := by simpa [Token.isEol] using he
  rw [eolTexts, eolTexts, List.filter_append, List.map_append, List.filter_cons, if_pos heol]
  rfl

/-- A line has one line ending. -/
theorem Written.eolTexts {k : Option TokenKind} (h : Written k line) :
    RobotSuite.eolTexts line = [(endingOf line).value] := by
  obtain @⟨ts, e, hl, he⟩ := h
  have hnone : ts.filter (·.isEol) = [] := by
    rw [List.filter_eq_nil_iff]
    intro t ht
    simpa [Token.isEol] using (hl.kind t ht).1
  rw [eolTexts_concat he.kind, endingOf_concat he.kind, RobotSuite.eolTexts, hnone]
  rfl

/-- A rewritten line ends as the old one. -/
theorem Rewritten.eolTexts (h : Rewritten line new) :
    RobotSuite.eolTexts new = RobotSuite.eolTexts line := by
  obtain @⟨k, k', ts, us, e, e', hl, hl', hb, hbare, -⟩ := h
  have hvalue : e'.value = e.value := (congrArg Token.value hbare :)
  have hb' : IsBreak e' := ⟨(congrArg Token.kind hbare :).trans hb.kind, by
    rw [hvalue]
    exact hb.value⟩
  rw [(Written.mk hl hb).eolTexts, (Written.mk hl' hb').eolTexts, endingOf_concat hb.kind,
    endingOf_concat hb'.kind, hvalue]

/-- The line endings are those of the lines. -/
theorem eolTexts_flatten (lines : List (List Token)) :
    eolTexts lines.flatten = lines.flatMap eolTexts := by
  rw [eolTexts, List.filter_flatten, List.map_flatten, List.map_map, List.flatMap_def]
  rfl

/-- The texts of line endings do not change when lines are rewritten. -/
theorem eolTexts_of_rewritten (hf : ∀ l ∈ splitLines ts, Rewritten l (f l)) :
    eolTexts ((splitLines ts).flatMap f) = eolTexts ts := by
  conv_rhs => rw [← flatten_splitLines ts]
  rw [List.flatMap_def, eolTexts_flatten, eolTexts_flatten, List.flatMap_map]
  exact List.flatMap_congr fun l hl => (hf l hl).eolTexts

/-- A line is written in one way. -/
theorem Written.unique {k k' : Option TokenKind} (h : Written k line) (h' : Written k' line) :
    k = k' := by
  have hcells {k : TokenKind} (h : Written (some k) line) : k ≠ .comment := by
    rintro rfl
    rcases h.kind_cases with h | h | h | h | h <;> cases h
  rcases h.firstSignificant with ⟨rfl, hn⟩ | ⟨c, hc, rfl⟩ <;>
    rcases h'.firstSignificant with ⟨rfl, hn'⟩ | ⟨c', hc', rfl⟩
  · rfl
  · exact absurd (hn c' hc') (hcells h')
  · exact absurd (hn' c hc) (hcells h)
  · rw [Option.some.inj (hc.symm.trans hc')]

/-- A statement without data is one line. -/
theorem Laid.plain_of_dataTexts (h : Laid false (splitLines ts)) (hd : dataTexts ts = []) :
    splitLines ts = [ts] ∧ Written none ts := by
  have hflat := flatten_splitLines ts
  generalize splitLines ts = lines at h hflat ⊢
  cases h with
  | @plain line hw =>
    obtain rfl : line = ts := by simpa using hflat
    exact ⟨rfl, hw⟩
  | @data k first more hw hk _ =>
    have hany := hw.any_isData_of_startsData hk
    rw [← hflat, List.flatten_cons, dataTexts_append, List.append_eq_nil_iff] at hd
    rw [List.any_eq_true] at hany
    obtain ⟨t, ht, hdata⟩ := hany
    have hmem : t.value ∈ dataTexts first := List.mem_map_of_mem (List.mem_filter.2 ⟨ht, hdata⟩)
    simp [hd.1] at hmem

end

/-! ## Statements with other tokens -/

section
variable {s : Statement} {us : List Token} {header : Bool}

/-- New lines with the old comments hold no line break either. -/
theorem isUnbroken_of_commentTexts (hnew : Laid header (splitLines us))
    (hc : commentTexts us = commentTexts s.tokens)
    (hu : ∀ t ∈ s.tokens, t.kind ≠ .eol → isUnbroken t.value.toList = true) :
    ∀ t ∈ us, t.kind ≠ .eol → isUnbroken t.value.toList = true := by
  refine hnew.isUnbroken fun t ht hk => ?_
  have hmem : t.value ∈ commentTexts us :=
    List.mem_map_of_mem (List.mem_filter.2 ⟨ht, by simp [Token.isComment, hk]⟩)
  rw [hc] at hmem
  obtain ⟨r, hr, hv⟩ := List.mem_map.1 hmem
  obtain ⟨hr, hrc⟩ := List.mem_filter.1 hr
  have hrk : r.kind = .comment := by simpa [Token.isComment] using hrc
  rw [← hv]
  exact hu r hr (by simp [hrk])

/-- **A statement without flaws has none with other tokens** that are laid out, if its comments stay,
its line endings are among the old ones, and so does its name if it is a marker. -/
theorem Statement.flaws_withTokens (hl : Laid header (splitLines s.tokens))
    (hnew : Laid header (splitLines us))
    (hname : s.type.marker? ≠ none →
      (s.withTokens us).name.map (·.value) = s.name.map (·.value))
    (hc : commentTexts us = commentTexts s.tokens)
    (he : (eolTexts us).Sublist (eolTexts s.tokens)) (hs : s.flaws = []) :
    (s.withTokens us).flaws = [] := by
  rw [flaws, List.append_eq_nil_iff, List.append_eq_nil_iff] at hs
  obtain ⟨⟨-, htokens⟩, hmarker⟩ := hs
  obtain ⟨hu, hends⟩ := tokenFlaws_eq_nil htokens
  refine flaws_of_laid hnew (fun m hm => ?_) (fun t ht hk => ?_) ?_
  · rw [hname (Option.ne_none_iff_exists'.2 ⟨m, hm⟩)]
    split at hmarker
    · rename_i marker htype
      obtain rfl : m = marker := Option.some.inj (hm.symm.trans htype)
      by_contra hne
      simp [hne] at hmarker
    · rename_i htype
      rw [show (s.withTokens us).type = s.type from rfl, htype] at hm
      cases hm
  · exact isUnbroken_of_commentTexts hnew hc hu t ht (by simp [hk])
  · -- the last ending is behind all others, in the new tokens as in the old ones
    obtain ⟨front, e, hts, hk⟩ := hl.getLast?
    obtain ⟨front', e', hus, hk'⟩ := hnew.getLast?
    rw [hus, eolTexts_concat hk'.kind, hts, eolTexts_concat hk.kind, ← List.reverse_sublist,
      List.reverse_concat, List.reverse_concat] at he
    have hfront : (eolTexts front').Sublist (eolTexts front) :=
      List.reverse_sublist.1 he.of_cons_cons
    rw [hts, List.dropLast_concat] at hends
    show ∀ t ∈ us.dropLast, _
    rw [hus, List.dropLast_concat]
    intro t ht hkind hv
    have hmem : t.value ∈ eolTexts front' :=
      List.mem_map_of_mem (List.mem_filter.2 ⟨ht, by simpa [Token.isEol] using hkind⟩)
    obtain ⟨u, hu, huv⟩ := List.mem_map.1 (hfront.subset hmem)
    obtain ⟨hu, hueol⟩ := List.mem_filter.1 hu
    exact hends u hu (by simpa [Token.isEol] using hueol) (huv.trans hv)

end

/-! ## Statements laid out with other gaps -/

section
variable {f : List Token → List Token} {s : Statement} {header : Bool}
  (hl : Laid header (splitLines s.tokens)) (hf : ∀ l ∈ splitLines s.tokens, Respaced l (f l))
include hl hf

/-- Every line is rewritten by its respacing. -/
theorem rewritten_of_respaced : ∀ l ∈ splitLines s.tokens, Rewritten l (f l) := fun l hmem =>
  (hl.written l hmem).elim fun _ hw => (hf l hmem).rewritten hw

/-- Respacing every line keeps a statement laid, with its data and comments. -/
theorem Laid.respaced : Laid header (splitLines ((splitLines s.tokens).flatMap f)) ∧
    dataTexts ((splitLines s.tokens).flatMap f) = dataTexts s.tokens ∧
      commentTexts ((splitLines s.tokens).flatMap f) = commentTexts s.tokens :=
  (hl.relay fun l hmem => ⟨(hf l hmem).alike, (hf l hmem).data, (hf l hmem).comments⟩).2

/-- **A statement without flaws has none with other gaps.** -/
theorem Statement.flaws_of_respaced (hs : s.flaws = []) :
    (s.withTokens ((splitLines s.tokens).flatMap f)).flaws = [] := by
  obtain ⟨hlaid, hdata, hcomments⟩ := hl.respaced hf
  refine flaws_withTokens hl hlaid (fun _ => name_congr rfl hdata) hcomments ?_ hs
  rw [eolTexts_of_rewritten (rewritten_of_respaced hl hf)]

/-- **With the same text the gaps are the same.** -/
theorem Statement.bare_of_respaced (hs : s.flaws = [])
    (ht : renderTokens ((splitLines s.tokens).flatMap f) = s.text) :
    ((splitLines s.tokens).flatMap f).map Token.bare = s.tokens.map Token.bare := by
  rw [flaws, List.append_eq_nil_iff, List.append_eq_nil_iff] at hs
  obtain ⟨hu, he⟩ := tokenFlaws_eq_nil hs.1.2
  have hflat := flatten_splitLines s.tokens
  have htext : chars s.tokens = chars ((splitLines s.tokens).flatMap f) := by
    rw [← toList_text, ← ht, toList_renderTokens]
  obtain ⟨hlaid, -, hcomments⟩ := hl.respaced hf
  have hu' := isUnbroken_of_commentTexts hlaid hcomments hu
  rw [List.flatMap_def] at htext hu' ⊢
  rw [← hflat] at hu he
  conv_lhs at htext => rw [← hflat]
  conv_rhs => rw [← hflat]
  have hlines : List.Forall₂ Rewritten (splitLines s.tokens) ((splitLines s.tokens).map f) :=
    List.forall₂_map_right_iff.2 (List.forall₂_same.2 (rewritten_of_respaced hl hf))
  rw [List.map_flatten, List.map_flatten]
  exact congrArg List.flatten (map_bare_of_chars hlines hu hu' he htext).symm

end

end RobotSuite
