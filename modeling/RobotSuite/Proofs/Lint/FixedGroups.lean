/-
# The groups of a fixed source

Lines that are for what they were for are put together as before (`groupLines_of_sameShape`), and a
line that continues nothing, such as one of which nothing is left, ends the group in front of it
(`groupLines_append_cons`).  The mended lines of a source are read from their text
(`typed_tokenize_mended`), when carriage returns stand in front of line feeds only.
-/

import Mathlib.Data.List.Forall2
import RobotSuite.Proofs.Lint.FixedReading

namespace RobotSuite

/-! ## Lines of the same roles -/

section
variable {a b : List (List Token)}

/-- Lines of the same roles are continued alike. -/
theorem takeContinuation_sameRole (h : List.Forall₂ SameRole a b) :
    (takeContinuation a = none → takeContinuation b = none) ∧
      ∀ taken left, takeContinuation a = some (taken, left) → ∃ taken' left',
        takeContinuation b = some (taken', left') ∧ List.Forall₂ SameRole taken taken' ∧
          List.Forall₂ SameRole left left' := by
  induction h with
  | nil => simp [takeContinuation]
  | @cons l l' a b hl hab ih =>
    obtain ⟨hnone, hsome⟩ := ih
    rw [takeContinuation, takeContinuation, hl.continuation, hl.remark]
    cases isContinuationLine l with
    | true =>
      refine ⟨by simp, fun taken left he => ?_⟩
      obtain ⟨rfl, rfl⟩ := Prod.mk.inj (Option.some.inj he)
      exact ⟨[l'], b, rfl, .cons hl .nil, hab⟩
    | false =>
      cases isCommentLine l with
      | true =>
        constructor
        · intro he
          simpa using hnone (by simpa using he)
        · intro taken left he
          obtain ⟨⟨more, rest⟩, hmore, hp⟩ := Option.map_eq_some_iff.1 he
          obtain ⟨rfl, rfl⟩ := Prod.mk.inj hp
          obtain ⟨more', rest', hmore', htaken, hrest⟩ := hsome more rest hmore
          refine ⟨l' :: more', rest', ?_, .cons hl htaken, hrest⟩
          simp [hmore']
      | false => simp

/-- Lines of the same roles have the same continuations. -/
theorem takeContinuations_sameRole (h : List.Forall₂ SameRole a b) :
    List.Forall₂ SameRole (takeContinuations a).1 (takeContinuations b).1 ∧
      List.Forall₂ SameRole (takeContinuations a).2 (takeContinuations b).2 := by
  fun_induction takeContinuations a generalizing b with
  | case1 a ha =>
    have hb := (takeContinuation_sameRole h).1 ha
    rw [takeContinuations]
    split
    · exact ⟨.nil, h⟩
    · rename_i hs
      rw [hb] at hs
      cases hs
  | case2 a taken left ha more rest hm ih =>
    obtain ⟨taken', left', hb, htaken, hleft⟩ := (takeContinuation_sameRole h).2 taken left ha
    rw [takeContinuations]
    split
    · rename_i hs
      rw [hb] at hs
      cases hs
    · rename_i hs
      rw [hb] at hs
      obtain ⟨rfl, rfl⟩ := Prod.mk.inj (Option.some.inj hs)
      obtain ⟨hmore, hrest⟩ := ih hleft
      rw [hm] at hmore hrest
      exact ⟨List.rel_append htaken hmore, hrest⟩

end

/-- Groups of lines of the same roles, of which both can be continued or neither. -/
structure SameShape (old new : List (List Token)) : Prop where
  roles : List.Forall₂ SameRole old new
  continuable : new.head?.map isContinuable = old.head?.map isContinuable

/-- **Lines of the same roles are put together alike.** -/
theorem groupLines_of_sameShape {lines : List (List Token)} {groups : List (List (List Token))}
    (h : List.Forall₂ SameShape (groupLines lines) groups) :
    groupLines groups.flatten = groups := by
  fun_induction groupLines lines generalizing groups with
  | case1 =>
    cases h
    rw [List.flatten_nil, groupLines]
  | case2 line rest hc ih =>
    cases h with
    | @cons _ g _ gs hg hgs =>
      obtain ⟨hroles, hcont⟩ := hg
      cases hroles with
      | @cons _ l _ ls hl hls =>
        have hl' : isContinuable l = true := (Option.some.inj hcont).trans hc
        -- the lines behind are taken alike, so as many of them belong to the group
        have hrest : List.Forall₂ SameRole rest (ls ++ gs.flatten) := by
          have hleft : List.Forall₂ SameRole (groupLines (takeContinuations rest).2).flatten
              gs.flatten := List.rel_flatten (hgs.imp fun _ _ h => h.roles)
          rw [flatten_groupLines] at hleft
          rw [← takeContinuations_append rest]
          exact List.rel_append hls hleft
        have htaken := (takeContinuations_sameRole hrest).1
        have hlength : (takeContinuations (ls ++ gs.flatten)).1.length = ls.length := by
          rw [← htaken.length_eq, hls.length_eq]
        obtain ⟨hfirst, hsecond⟩ :=
          List.append_inj (takeContinuations_append (ls ++ gs.flatten)) hlength
        rw [List.flatten_cons, List.cons_append, groupLines, if_pos hl', hfirst, hsecond, ih hgs]
  | case3 line rest hc ih =>
    cases h with
    | @cons _ g _ gs hg hgs =>
      obtain ⟨hroles, hcont⟩ := hg
      cases hroles with
      | @cons _ l _ ls hl hnil =>
        cases hnil
        have hl' : isContinuable l = false := by
          have := Option.some.inj hcont
          rw [this]
          simpa using hc
        rw [List.flatten_cons, List.singleton_append, groupLines, if_neg (by simp [hl']), ih hgs]

/-! ## Lines behind one that continues nothing -/

section
variable {line : List Token}

/-- The search for a continuation stops at a line that is neither comment nor continuation. -/
theorem takeContinuation_append_cons (hc : isContinuationLine line = false)
    (hr : isCommentLine line = false) (front back : List (List Token)) :
    takeContinuation (front ++ line :: back) =
      (takeContinuation front).map fun p => (p.1, p.2 ++ line :: back) := by
  induction front with
  | nil => simp [takeContinuation, hc, hr]
  | cons l front ih =>
    rw [List.cons_append, takeContinuation, takeContinuation, ih]
    split
    · rfl
    · split
      · cases takeContinuation front <;> rfl
      · rfl

/-- So does the search for all continuations. -/
theorem takeContinuations_append_cons (hc : isContinuationLine line = false)
    (hr : isCommentLine line = false) (front back : List (List Token)) :
    takeContinuations (front ++ line :: back) =
      ((takeContinuations front).1, (takeContinuations front).2 ++ line :: back) := by
  fun_induction takeContinuations front with
  | case1 front h =>
    rw [takeContinuations]
    split
    · rfl
    · rename_i hs
      rw [takeContinuation_append_cons hc hr, h] at hs
      cases hs
  | case2 front taken left h more rest hm ih =>
    rw [takeContinuations]
    split
    · rename_i hs
      rw [takeContinuation_append_cons hc hr, h] at hs
      cases hs
    · rename_i hs
      rw [takeContinuation_append_cons hc hr, h] at hs
      obtain ⟨rfl, rfl⟩ := Prod.mk.inj (Option.some.inj hs)
      rw [ih, hm]

/-- A line that continues nothing, and does not stand in front of lines that do, ends the group
in front of it. -/
theorem groupLines_append_cons (hc : isContinuationLine line = false)
    (hr : isCommentLine line = false) (front back : List (List Token)) :
    groupLines (front ++ line :: back) = groupLines front ++ groupLines (line :: back) := by
  fun_induction groupLines front with
  | case1 => rfl
  | case2 l front h ih =>
    rw [List.cons_append, groupLines, if_pos h, takeContinuations_append_cons hc hr, ih]
    rfl
  | case3 l front h ih =>
    rw [List.cons_append, groupLines, if_neg h, ih]
    rfl

end

/-! ## A line of which nothing is left -/

/-- A line of which nothing is left holds neither a cell nor a comment. -/
theorem SlotLine.roles_of_chars {star first : Bool} {xs : List Slot} (h : SlotLine star first xs)
    (hnil : chars (slotTokens xs) = []) :
    isContinuationLine (slotTokens xs) = false ∧ isCommentLine (slotTokens xs) = false := by
  obtain ⟨-, hcont, hcomment⟩ := h.roles
  have hempty : ∀ x ∈ xs, x.token.value.toList = [] := fun x hx =>
    List.flatMap_eq_nil_iff.1 hnil x.token
      (List.mem_flatMap.2 ⟨x, hx, by simp [Slot.tokens]⟩)
  rw [hcont, hcomment]
  cases h with
  | @ending _ gap e hg he => simp [he]
  | @remark _ gap gap' c e hs hk hc hb hg he =>
    have hstarts := hc.starts
    rw [hempty ⟨gap, c⟩ List.mem_cons_self] at hstarts
    cases hstarts
  | @cell _ gap t xs hs hk hc hb hrest =>
    exact absurd (hempty ⟨gap, t⟩ List.mem_cons_self) hc.ne_nil

/-! ## Carriage returns -/

/-- A text in which carriage returns stand in front of line feeds only. -/
def FeedsReturns (cs : List Char) : Prop := ∀ a b, cs = a ++ '\r' :: b → b.head? = some '\n'

theorem feedsReturns_nil : FeedsReturns [] := fun a b h => by cases a <;> cases h

/-- In such a text every return stands in front of a feed. -/
theorem feedsReturns_cons {c : Char} {cs : List Char} :
    FeedsReturns (c :: cs) ↔ (c = '\r' → cs.head? = some '\n') ∧ FeedsReturns cs := by
  constructor
  · intro h
    refine ⟨fun hc => h [] cs (by rw [hc]; rfl), fun a b hcs => h (c :: a) b (by rw [hcs]; rfl)⟩
  · rintro ⟨hc, hcs⟩ a b h
    cases a with
    | nil =>
      obtain ⟨hreturn, rfl⟩ := List.cons.inj h
      exact hc hreturn
    | cons d a => exact hcs a b (List.cons.inj h).2

instance decidableFeedsReturns : (cs : List Char) → Decidable (FeedsReturns cs)
  | [] => isTrue feedsReturns_nil
  | _ :: cs =>
    have := decidableFeedsReturns cs
    decidable_of_iff _ feedsReturns_cons.symm

/-- A line holds no feed in front of its ending. -/
theorem TokenLine.unbroken {ts : List Token} {e : Token}
    (h : TokenLine ((ts ++ [e]).map Token.piece)) : '\n' ∉ chars ts := by
  generalize hps : (ts ++ [e]).map Token.piece = ps at h
  obtain @⟨row, ending, hfits, -⟩ := h
  rw [List.map_append, List.map_singleton] at hps
  obtain ⟨rfl, -⟩ := List.append_inj' hps rfl
  intro hmem
  obtain ⟨t, ht, hc⟩ := List.mem_flatMap.1 hmem
  obtain ⟨front, back, hsplit⟩ := List.append_of_mem (List.mem_map_of_mem ht)
  exact (hfits front _ back hsplit).unbroken hc

/-- The tokens hold the characters of the source. -/
theorem chars_tokenize (source : String) : chars (tokenize source).flatten = source.toList := by
  rw [← toList_renderTokens, tokenize, toList_renderTokens_lines, Cursor.ofSource]

/-- The rows of a source hold no carriage returns, when these stand in front of line feeds only. -/
theorem noReturn_of_mem_tokenize {source : String} (h : FeedsReturns source.toList)
    {line : List Token} (hl : line ∈ tokenize source) : NoReturn line := by
  intro t ht hk hc
  have hline := tokenLine_of_mem_tokenize hl
  obtain ⟨us, e, rfl, he, hus⟩ := hline.isRow
  have htu : t ∈ us := by
    rcases List.mem_append.1 ht with ht | ht
    · exact ht
    · obtain rfl := List.mem_singleton.1 ht
      exact absurd he hk
  -- behind the carriage return stand the rest of the row, the line ending and the other lines
  have hmem : '\r' ∈ chars us := List.mem_flatMap.2 ⟨t, htu, hc⟩
  obtain ⟨c₁, c₂, hrow⟩ := List.append_of_mem hmem
  obtain ⟨front, back, hlines⟩ := List.append_of_mem hl
  have htext : source.toList =
      (chars front.flatten ++ c₁) ++ '\r' :: (c₂ ++ (e.value.toList ++ chars back.flatten)) := by
    rw [← chars_tokenize source, hlines, List.flatten_append, List.flatten_cons, chars_append,
      chars_append, chars_append, hrow]
    simp
  have hhead := h _ _ htext
  cases c₂ with
  | cons c cs =>
    obtain rfl : c = '\n' := Option.some.inj hhead
    exact hline.unbroken (by simp [hrow])
  | nil =>
    rw [List.nil_append] at hhead
    have hend := hline.lineEnding
    generalize he' : e.value.toList = ending at hend hhead
    cases hend with
    | feed hreturn =>
      refine hreturn ?_
      have hchars : pieceText (us.map Token.piece) = chars us := by
        simp [chars, pieceText, Token.piece, List.flatMap_map]
      rw [hchars, hrow, List.getLast?_concat]
    | returnFeed => exact absurd (Option.some.inj hhead) (by decide)
    | none _ =>
      -- only the last line may lack a line break
      have hback : back = [] := by
        by_contra hne
        have hmem : us ++ [e] ∈ (tokenize source).dropLast := by
          rw [hlines, List.dropLast_append_of_ne_nil (by simp),
            List.dropLast_cons_of_ne_nil hne]
          simp
        refine terminated_of_mem_lines hmem e (by simp) ?_
        rw [← String.toList_inj, he']
        rfl
      rw [hback] at hhead
      cases hhead

/-! ## The text of mended lines -/

section
variable {trim : Bool}

/-- A mended line with a line break is a line with that line break. -/
theorem LineMended.ended {old new : List Token} (h : LineMended trim old new)
    (hold : TokenLine (old.map Token.piece)) (hr : NoReturn old)
    (he : (old.map Token.piece).getLast? ≠ some (.eol, [])) :
    TokenLine (new.map Token.piece) ∧ (new.map Token.piece).getLast? ≠ some (.eol, []) := by
  have hline := h.tokenLine hold hr
  have hrow := hold.isRow
  obtain ⟨us, ts, e, rfl, rfl, -⟩ := h.exists_ending hold
  have hlast (row : List Token) : ((row ++ [e]).map Token.piece).getLast? = some e.piece := by
    simp
  rw [hlast] at he ⊢
  refine ⟨hline.resolve_right fun hnil => he ?_, he⟩
  obtain ⟨us', e', hsplit, hkind, -⟩ := hrow
  obtain rfl : e = e' := by simpa using (List.append_inj' hsplit rfl).2
  have hvalue : e.value.toList = [] := by
    rw [chars_append, List.append_eq_nil_iff] at hnil
    simpa [chars] using hnil.2
  simp [Token.piece, hkind, hvalue]

/-- A pairing with a list that has a last element pairs that element last. -/
theorem forall₂_concat {α β : Type} {R : α → β → Prop} {a : List α} {x : α} {b : List β}
    (h : List.Forall₂ R (a ++ [x]) b) :
    ∃ b' y, b = b' ++ [y] ∧ List.Forall₂ R a b' ∧ R x y := by
  induction a generalizing b with
  | nil =>
    cases h with
    | cons hxy hnil =>
      cases hnil
      exact ⟨[], _, rfl, .nil, hxy⟩
  | cons c a ih =>
    cases h with
    | cons hc hrest =>
      obtain ⟨b', y, rfl, hab, hxy⟩ := ih hrest
      exact ⟨_ :: b', y, rfl, .cons hc hab, hxy⟩

/-- Every element on the right has a partner on the left. -/
theorem exists_of_mem_forall₂ {α β : Type} {R : α → β → Prop} {a : List α} {b : List β}
    (h : List.Forall₂ R a b) {y : β} (hy : y ∈ b) : ∃ x ∈ a, R x y := by
  induction h with
  | nil => cases hy
  | @cons x z a b hxz hab ih =>
    rcases List.mem_cons.1 hy with rfl | hy
    · exact ⟨x, List.mem_cons_self, hxz⟩
    · obtain ⟨x', hx', hr⟩ := ih hy
      exact ⟨x', List.mem_cons_of_mem _ hx', hr⟩

/-- Well-formed lines are read from their text. -/
theorem typed_tokenize {lines : List (List Token)} (h : WellFormed (typed lines)) :
    typed (tokenize (String.ofList (chars lines.flatten))) = typed lines := by
  have htext : pieceText (typed lines).flatten = chars lines.flatten := by
    simp [pieceText, typed, chars, Token.piece, List.flatMap_def, List.map_flatten,
      Function.comp_def]
  rw [tokenize, Cursor.ofSource, String.toList_ofList, ← htext]
  exact typed_lines_of_wellFormed h _

/-- **Mended lines are read from their text,** but for a last one of which nothing is left. -/
theorem typed_tokenize_mended {lines new : List (List Token)} (hw : WellFormed (typed lines))
    (hr : ∀ l ∈ lines, NoReturn l) (hm : List.Forall₂ (LineMended trim) lines new) :
    ∃ kept, typed (tokenize (String.ofList (chars new.flatten))) = typed kept ∧
      (new = kept ∨ ∃ last, new = kept ++ [last] ∧ chars last = []) := by
  rcases lines.eq_nil_or_concat' with rfl | ⟨front, l, rfl⟩
  · cases hm
    exact ⟨[], typed_tokenize hw, .inl rfl⟩
  · obtain ⟨front', l', rfl, hfront, hl⟩ := forall₂_concat hm
    have htyped : typed (front ++ [l]) = typed front ++ [l.map Token.piece] := by simp [typed]
    rw [htyped] at hw
    have hended : ∀ x ∈ front', TokenLine (x.map Token.piece) ∧
        (x.map Token.piece).getLast? ≠ some (.eol, []) := by
      intro x hx
      obtain ⟨y, hy, hyx⟩ := exists_of_mem_forall₂ hfront hx
      have hmem : y.map Token.piece ∈ typed front := List.mem_map_of_mem hy
      refine hyx.ended (hw.line _ (List.mem_append_left _ hmem))
        (hr y (List.mem_append_left _ hy)) (hw.ended _ ?_)
      rwa [List.dropLast_concat]
    have hfronts : ∀ line ∈ typed front', TokenLine line ∧ line.getLast? ≠ some (.eol, []) :=
      List.forall_mem_map.2 hended
    rcases hl.tokenLine (hw.line _ (by simp)) (hr l (by simp)) with hline | hnil
    · have htyped' : typed (front' ++ [l']) = typed front' ++ [l'.map Token.piece] := by
        simp [typed]
      refine ⟨front' ++ [l'], typed_tokenize ⟨?_, ?_⟩, .inl rfl⟩
      · rw [htyped']
        exact List.forall_mem_append.2
          ⟨fun line h => (hfronts line h).1, List.forall_mem_singleton.2 hline⟩
      · rw [htyped', List.dropLast_concat]
        exact fun line h => (hfronts line h).2
    · refine ⟨front', ?_, .inr ⟨l', rfl, hnil⟩⟩
      rw [List.flatten_append, chars_append, List.flatten_singleton, hnil, List.append_nil]
      exact typed_tokenize ⟨fun line h => (hfronts line h).1,
        fun line h => (hfronts line (List.dropLast_subset _ h)).2⟩

end

end RobotSuite
