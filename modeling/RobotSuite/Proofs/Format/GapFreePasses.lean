/-
# Passes that look at no gaps

The passes in front of the one that lays lines out move, spell and drop things by what their cells
and comments say.  Those that spell and drop do to what shows of a model without its gaps what they
do to the model (`Pass.Commutes`), since each of their decisions shows.
-/

import RobotSuite.Proofs.Format.UniqueTags.Pass
import RobotSuite.Proofs.Statement.Shown
import RobotSuite.Proofs.Transform.Mirrors

namespace RobotSuite

/-- A pass that does to what is seen of a sound model what it does to the model. -/
def Pass.Commutes (p : Pass) (v : View) : Prop :=
  ∀ setup f, setup.IsValid → f.IsSound → (p.apply setup (f.view v)).tree =
    (p.apply setup f).tree.view v

/-! ## Transforms -/

namespace Transform

/-- Two transforms of which the second decides about what shows of sound files as the first does
about the files. -/
structure Shows (gaps : SectionKind → Bool) (t t' : Transform) : Prop where
  name : t'.name = t.name
  keeps : t.Keeps Statement.IsSound Statement.IsHeader
  statement : ∀ {kind sc sc' n s}, sc.Like sc' → s.IsSound kind ∨ s.IsHeader kind →
    t'.statement sc' n (s.shown (gaps kind)) =
      (t.statement sc n s).map (Statement.shown (gaps kind))
  body : ∀ {kind place place' header items}, place.Like place' →
    bodyHolds (Statement.IsSound kind) (unmark items) →
    t'.leaveBody place' header (viewMarked (BodyItem.view (Statement.shown (gaps kind))) items) =
      (t.leaveBody place header items).map
        (viewMarked (BodyItem.view (Statement.shown (gaps kind))))
  sect : ∀ {kind place place' header items}, place.Like place' →
    place.scope.section?.map (·.kind) = some kind →
    (∀ item ∈ unmark items, item.Holds (Statement.IsSound kind) kind) →
    t'.leaveSection place' (header.map fun h => (h.1.shown (gaps kind), h.2))
        (viewMarked (SectionItem.view (Statement.shown (gaps kind))) items) =
      (t.leaveSection place header items).map
        (viewMarked (SectionItem.view (Statement.shown (gaps kind))))
  file : ∀ {place place' ss}, place.Like place' → (∀ s ∈ ss, s.IsSound) →
    t'.leaveFile place' (ss.map (Section.view (gapView gaps))) =
      (t.leaveFile place ss).map (List.map (Section.view (gapView gaps)))

section
variable {gaps : SectionKind → Bool} {t t' : Transform}

/-- A transform whose decisions show walks as what shows of it. -/
theorem Shows.mirrors (h : t.Shows gaps t') :
    t.Mirrors t' True (fun _ => True) Statement.IsSound Statement.IsHeader (gapView gaps)
      (gapView gaps) where
  name := h.name
  start := trivial
  keeps := h.keeps
  labels _ _ _ _ := ⟨rfl, rfl⟩
  silent := .inl trivial
  sees hs := Statement.shownBy_shown (endsLine_of_sound hs)
  shows hs := Statement.shownBy_shown (endsLine_of_sound hs)
  enter _ _ := trivial
  leave _ := trivial
  note _ _ := trivial
  statement {kind sc sc' n s} _ hl hs := by
    have hsound : s.IsSound kind ∨ s.IsHeader kind := hs.imp (·.2) (·.2.2)
    show Decision.Agree _ _ _ _ (t'.statement sc' n (s.shown (gaps kind)))
    rw [h.statement hl hsound]
    refine Decision.agree_map rfl fun new hput => ⟨rfl, fun ht => ?_⟩
    rcases hs with ⟨hshows, hs⟩ | ⟨hsect, hlevels, hs⟩
    · exact Statement.shownBy_shown
        (endsLine_of_sound (.inl (h.keeps.statement hput hshows ht hs)))
    · exact Statement.shownBy_shown
        (endsLine_of_sound (.inr (h.keeps.header hput hsect hlevels ht hs)))
  body _ hl hi := h.body hl hi
  sect _ hl hk _ hi := h.sect hl hk hi
  file hl hs := h.file hl hs

end

end Transform

/-! ## Passes -/

namespace Pass
variable {info : PassInfo} {gaps : SectionKind → Bool}

/-- A pass looks at no gaps if the decisions of its transform show. -/
theorem commutes_ofTransform {t : PassSetup → File → Transform}
    (h : ∀ setup f, setup.IsValid → f.IsSound →
      (t setup f).Shows gaps (t setup (f.view (gapView gaps)))) :
    (ofTransform info t).Commutes (gapView gaps) := by
  intro setup f hv hf
  exact ((h setup f hv hf).mirrors.run hf.sections).2 (.inl rfl)

/-- A pass over single statements that looks at no gaps. -/
theorem commutes_ofStatements {g : PassSetup → Scope → Statement → Decision Statement}
    (hk : (ofStatements info g).KeepsSound)
    (h : ∀ {setup kind sc sc' s}, setup.IsValid → sc.Like sc' → s.IsSound kind ∨ s.IsHeader kind →
      g setup sc' (s.shown (gaps kind)) = (g setup sc s).map (Statement.shown (gaps kind))) :
    (ofStatements info g).Commutes (gapView gaps) := by
  refine commutes_ofTransform fun setup f hv hf => ?_
  refine
    { name := rfl
      keeps := (hk setup f _ hv rfl).1
      statement := fun {kind sc sc' n s} hl hs => ?_
      body := fun _ _ => rfl
      sect := fun _ _ _ => rfl
      file := fun _ _ => rfl }
  have hoff : sc'.disables info.name (s.shown (gaps kind)) = sc.disables info.name s :=
    hl.disables _ rfl s.shown_directive?
  dsimp only
  rw [hoff, h hv hl hs]
  split <;> rfl

end Pass

/-! ## Spelling and tags -/

namespace Spelling
variable {gaps : Bool}

/-- A name is spelled in another way in what shows. -/
theorem showTokens_rename (v : String) (ts : List Token) :
    rename v (showTokens gaps ts) = showTokens gaps (rename v ts) := by
  induction ts with
  | nil => rfl
  | cons t ts ih =>
    cases hd : t.isData with
    | true =>
      have hgap := isSeparator_of_isData hd
      rw [showTokens_cons_of_not_gap hgap, rename, rename, Token.bare_isData, if_pos hd,
        if_pos hd, showTokens_cons_of_not_gap (t := t.withValue v) hgap]
      rfl
    | false =>
      have hsame : rename v (t :: ts) = t :: rename v ts := by rw [rename, if_neg (by simp [hd])]
      rw [hsame, showTokens_cons, showTokens_cons]
      split
      · rw [rename, Token.bare_isData, if_neg (by simp [hd]), ih]
      · exact ih

/-- A statement is spelled in another way as it shows. -/
theorem shown_respell (canonical : Option String) (s : Statement) :
    respell canonical (s.shown gaps) = (respell canonical s).map (Statement.shown gaps) := by
  rw [respell.eq_def, respell.eq_def, Statement.shown_name]
  cases canonical with
  | none => rfl
  | some v =>
    cases s.name with
    | none => rfl
    | some name =>
      dsimp only [Option.map_some]
      rw [Token.bare_value]
      split
      · rfl
      · rw [Option.map_some, Statement.shown_withTokens, ← showTokens_rename]
        rfl

/-- Spelling headers looks at no gaps. -/
theorem commutes_headerPass (gaps : SectionKind → Bool) : headerPass.Commutes (gapView gaps) := by
  refine Pass.commutes_ofStatements keepsSound_headerPass fun {setup kind sc sc' s} hv hl hs => ?_
  have hheader : header? sc' (s.shown (gaps kind)) = header? sc s := by
    have hkind := hl.section?
    rw [header?, header?, Statement.shown_type, Statement.shown_nameText]
    split
    · cases h : sc.section? <;> cases h' : sc'.section? <;> simp_all
    · rfl
  rw [hheader, shown_respell, Decision.map_ofOption]

/-- Spelling settings looks at no gaps. -/
theorem commutes_settingPass (gaps : SectionKind → Bool) :
    settingPass.Commutes (gapView gaps) := by
  refine Pass.commutes_ofStatements keepsSound_settingPass fun {setup kind sc sc' s} hv hl hs => ?_
  have hsetting : setting? (s.shown (gaps kind)) = setting? s := by
    rw [setting?, setting?, Statement.shown_suiteSetting?, Statement.shown_blockSetting?]
  rw [hsetting, shown_respell, Decision.map_ofOption]

end Spelling

namespace UniqueTags
variable {gaps : Bool} {mode : TagCase}

/-- Edits of tokens, as far as these show. -/
def showEdits (gaps : Bool) (edits : List Edit) : List Edit :=
  (edits.filter fun e => gaps || !e.1.isSeparator).map fun e => (e.1.bare, e.2)

/-- An edit of a token shows if the token does. -/
theorem showEdits_cons (e : Edit) (edits : List Edit) : showEdits gaps (e :: edits) =
    if gaps || !e.1.isSeparator then (e.1.bare, e.2) :: showEdits gaps edits
    else showEdits gaps edits := by
  rw [showEdits, List.filter_cons]
  split <;> rfl

/-- The tokens of edits show as the tokens do. -/
theorem showTokens_map_fst (edits : List Edit) :
    (showEdits gaps edits).map (·.1) = showTokens gaps (edits.map (·.1)) := by
  rw [showEdits, showTokens, List.filter_map, List.map_map, List.map_map]
  rfl

/-- Tags are edited as they show. -/
theorem editTags_showTokens (seen : List String) (ts : List Token) :
    editTags mode seen (showTokens gaps ts) = showEdits gaps (editTags mode seen ts) := by
  induction ts generalizing seen with
  | nil => rfl
  | cons t ts ih =>
    cases hd : t.isData with
    | true =>
      have hgap := isSeparator_of_isData hd
      rw [showTokens_cons_of_not_gap hgap, editTags, editTags, Token.bare_isData, if_pos hd,
        if_pos hd]
      dsimp only
      rw [Token.bare_value]
      split
      · rw [showEdits_cons, hgap, Bool.not_false, Bool.or_true, if_pos rfl, ih]
      · have hv : (t.withValue (mode.apply t.value)).isSeparator = false := hgap
        rw [showEdits_cons, hv, Bool.not_false, Bool.or_true, if_pos rfl, ih]
        rfl
    | false =>
      have hedit : editTags mode seen (t :: ts) = (t, false) :: editTags mode seen ts := by
        rw [editTags, if_neg (by simp [hd])]
      rw [hedit, showTokens_cons, showEdits_cons]
      split
      · rw [editTags, Token.bare_isData, if_neg (by simp [hd]), ih]
      · exact ih seen

/-- A tag setting is edited as it shows. -/
theorem editSetting_showTokens (ts : List Token) :
    editSetting mode (showTokens gaps ts) = showEdits gaps (editSetting mode ts) := by
  induction ts with
  | nil => rfl
  | cons t ts ih =>
    cases hd : t.isData with
    | true =>
      have hgap := isSeparator_of_isData hd
      rw [showTokens_cons_of_not_gap hgap, editSetting, editSetting, Token.bare_isData, if_pos hd,
        if_pos hd, showEdits_cons, hgap, Bool.not_false, Bool.or_true, if_pos rfl,
        editTags_showTokens]
    | false =>
      have hedit : editSetting mode (t :: ts) = (t, false) :: editSetting mode ts := by
        rw [editSetting, if_neg (by simp [hd])]
      rw [hedit, showTokens_cons, showEdits_cons]
      split
      · rw [editSetting, Token.bare_isData, if_neg (by simp [hd]), ih]
      · exact ih

/-- Where gaps do not show, nothing shows of those that go. -/
theorem dropRemoved_showEdits (kept : List Token) (edits : List Edit) :
    dropRemoved (showTokens gaps kept) (showEdits gaps edits) =
      showTokens gaps (dropRemoved kept edits) := by
  induction edits generalizing kept with
  | nil => exact (showTokens_reverse kept).symm
  | cons e edits ih =>
    obtain ⟨t, removed⟩ := e
    cases removed with
    | false =>
      rw [showEdits_cons, dropRemoved, ← ih, showTokens_cons]
      split <;> rfl
    | true =>
      cases gaps with
      | true =>
        rw [showEdits_cons, Bool.true_or, if_pos rfl, dropRemoved.eq_def, dropRemoved.eq_def]
        cases kept with
        | nil => exact ih []
        | cons s more =>
          rw [showTokens_cons, Bool.true_or, if_pos rfl]
          dsimp only
          rw [Token.bare_isSeparator]
          split
          · exact ih more
          · have := ih (s :: more)
            rwa [showTokens_cons, Bool.true_or, if_pos rfl] at this
      | false =>
        have hskip (kept : List Token) (t : Token) (edits : List Edit)
            (h : ∀ s ∈ kept, s.isSeparator = false) :
            dropRemoved kept ((t, true) :: edits) = dropRemoved kept edits := by
          cases kept with
          | nil => rfl
          | cons s more => simp [dropRemoved, h s List.mem_cons_self]
        have hkept : ∀ s ∈ showTokens false kept, s.isSeparator = false := by
          intro s hs
          simp only [showTokens, List.mem_map, List.mem_filter] at hs
          obtain ⟨u, ⟨-, hu⟩, rfl⟩ := hs
          rw [Token.bare_isSeparator]
          simpa using hu
        have hrest : showTokens false (dropRemoved kept ((t, true) :: edits)) =
            dropRemoved (showTokens false kept) (showEdits false edits) := by
          cases kept with
          | nil => exact (ih []).symm
          | cons s more =>
            rw [dropRemoved, ← ih]
            congr 1
            split
            · rename_i hs
              rw [showTokens_cons, hs]
              rfl
            · rfl
        rw [hrest, showEdits_cons]
        split
        · exact hskip _ _ _ hkept
        · rfl

/-- A last token that is no tag stays. -/
theorem dropRemoved_concat (kept : List Token) (edits : List Edit) (e : Token) :
    dropRemoved kept (edits ++ [(e, false)]) = dropRemoved kept edits ++ [e] := by
  induction edits generalizing kept with
  | nil => simp [dropRemoved]
  | cons edit edits ih =>
    obtain ⟨t, removed⟩ := edit
    cases removed with
    | false => exact ih _
    | true =>
      cases kept with
      | nil => exact ih []
      | cons s more => exact ih _

/-- A token without data at the end is left. -/
theorem editTags_concat {e : Token} (he : e.isData = false) (seen : List String)
    (ts : List Token) :
    editTags mode seen (ts ++ [e]) = editTags mode seen ts ++ [(e, false)] := by
  induction ts generalizing seen with
  | nil => simp [editTags, he]
  | cons t ts ih =>
    rw [List.cons_append, editTags, editTags]
    split
    · dsimp only
      split
      · rw [ih, List.cons_append]
      · rw [ih, List.cons_append]
    · rw [ih, List.cons_append]

/-- A token without data at the end of a setting is left. -/
theorem editSetting_concat {e : Token} (he : e.isData = false) (ts : List Token) :
    editSetting mode (ts ++ [e]) = editSetting mode ts ++ [(e, false)] := by
  induction ts with
  | nil => simp [editSetting, he]
  | cons t ts ih =>
    rw [List.cons_append, editSetting, editSetting]
    split
    · rw [editTags_concat he, List.cons_append]
    · rw [ih, List.cons_append]

/-- A continued line that is left with nothing shows as such. -/
theorem isEmptyContinuation_showTokens (line : List Token) :
    isEmptyContinuation (showTokens gaps line) = isEmptyContinuation line := by
  induction line with
  | nil => rfl
  | cons t line ih =>
    unfold isEmptyContinuation isBlankLine at ih ⊢
    rw [showTokens_cons, List.filter_cons]
    cases hs : t.isSeparator with
    | true =>
      have hc : t.isContinuation = false := by
        have : t.kind = .separator := by simpa [Token.isSeparator] using hs
        simp [Token.isContinuation, this]
      cases gaps <;> simp [hs, hc, ih]
    | false => cases hc : t.isContinuation <;> simp [hs, hc, ih]

/-- Continued lines that are left with nothing go as they show. -/
theorem dropEmptyLines_showTokens (lines : List (List Token)) :
    dropEmptyLines (lines.map (showTokens gaps)) =
      (dropEmptyLines lines).map (showTokens gaps) := by
  cases lines with
  | nil => rfl
  | cons line lines =>
    have hp : (fun l => !isEmptyContinuation l) ∘ showTokens gaps =
        fun l => !isEmptyContinuation l :=
      funext fun l => congrArg (!·) (isEmptyContinuation_showTokens l)
    rw [List.map_cons, dropEmptyLines, dropEmptyLines, List.map_cons, List.filter_map, hp]

/-- Tags that are not in their case show. -/
theorem editTags_fixed {seen : List String} {ts : List Token}
    (h : showTokens gaps ((editTags mode seen ts).map (·.1)) = showTokens gaps ts) :
    (editTags mode seen ts).map (·.1) = ts := by
  induction ts generalizing seen with
  | nil => rfl
  | cons t ts ih =>
    rw [editTags] at h ⊢
    split at h
    · rename_i hd
      have hgap := isSeparator_of_isData hd
      rw [if_pos hd]
      dsimp only at h ⊢
      split at h
      · rename_i hseen
        rw [List.map_cons, showTokens_cons_of_not_gap hgap, showTokens_cons_of_not_gap hgap] at h
        rw [if_pos hseen, List.map_cons, ih (List.cons_eq_cons.1 h).2]
      · rename_i hseen
        have hv : (t.withValue (mode.apply t.value)).isSeparator = false := hgap
        rw [List.map_cons, showTokens_cons_of_not_gap hgap, showTokens_cons_of_not_gap hv] at h
        obtain ⟨hbare, hrest⟩ := List.cons_eq_cons.1 h
        have hvalue : mode.apply t.value = t.value := congrArg Token.value hbare
        rw [if_neg hseen, List.map_cons, ih hrest]
        exact congrArg (· :: ts) (by rw [hvalue]; rfl)
    · rename_i hd
      rw [if_neg hd]
      refine congrArg (t :: ·) (ih ?_)
      rw [List.map_cons, showTokens_cons, showTokens_cons] at h
      split at h
      · exact (List.cons_eq_cons.1 h).2
      · exact h

/-- A setting in which nothing shows to be edited is left. -/
theorem editSetting_fixed {ts : List Token}
    (h : showTokens gaps ((editSetting mode ts).map (·.1)) = showTokens gaps ts) :
    (editSetting mode ts).map (·.1) = ts := by
  induction ts with
  | nil => rfl
  | cons t ts ih =>
    have hrest {rest : List Token}
        (h : showTokens gaps (t :: rest) = showTokens gaps (t :: ts)) :
        showTokens gaps rest = showTokens gaps ts := by
      rw [showTokens_cons, showTokens_cons] at h
      split at h
      · exact (List.cons_eq_cons.1 h).2
      · exact h
    rw [editSetting] at h ⊢
    split at h
    · rename_i hd
      rw [if_pos hd]
      exact congrArg (t :: ·) (editTags_fixed (hrest h))
    · rename_i hd
      rw [if_neg hd]
      exact congrArg (t :: ·) (ih (hrest h))

/-- A removal shows unless a gap is removed. -/
theorem any_showEdits {edits : List Edit} (h : ∀ e ∈ edits, e.2 = true → e.1.isSeparator = false) :
    (showEdits gaps edits).any (·.2) = edits.any (·.2) := by
  induction edits with
  | nil => rfl
  | cons e edits ih =>
    rw [List.forall_mem_cons] at h
    rw [showEdits_cons, List.any_cons, ← ih h.2]
    split
    · rfl
    · rename_i hs
      cases he : e.2 with
      | false => rw [Bool.false_or]
      | true => simp [h.1 he] at hs

/-- No gap is removed as a tag. -/
theorem isData_of_removed {seen : List String} {ts : List Token} :
    ∀ e ∈ editTags mode seen ts, e.2 = true → e.1.isSeparator = false := by
  induction ts generalizing seen with
  | nil => simp [editTags]
  | cons t ts ih =>
    rw [editTags]
    split
    · rename_i hd
      dsimp only
      split
      · exact List.forall_mem_cons.2 ⟨fun _ => isSeparator_of_isData hd, ih⟩
      · exact List.forall_mem_cons.2 ⟨fun h => absurd h Bool.false_ne_true, ih⟩
    · exact List.forall_mem_cons.2 ⟨fun h => absurd h Bool.false_ne_true, ih⟩

/-- No gap of a setting is removed as a tag. -/
theorem isData_of_removed_setting {ts : List Token} :
    ∀ e ∈ editSetting mode ts, e.2 = true → e.1.isSeparator = false := by
  induction ts with
  | nil => simp [editSetting]
  | cons t ts ih =>
    rw [editSetting]
    split
    · exact List.forall_mem_cons.2 ⟨fun h => absurd h Bool.false_ne_true, isData_of_removed⟩
    · exact List.forall_mem_cons.2 ⟨fun h => absurd h Bool.false_ne_true, ih⟩

/-- Tags are unified as they show. -/
theorem shown_unify {s : Statement} (h : EndsLine s.tokens) :
    unify mode (s.shown gaps) = (unify mode s).map (Statement.shown gaps) := by
  have hedits : editSetting mode (s.shown gaps).tokens =
      showEdits gaps (editSetting mode s.tokens) := editSetting_showTokens s.tokens
  have hsame : ((editSetting mode (s.shown gaps).tokens).map (·.1) != (s.shown gaps).tokens) =
      ((editSetting mode s.tokens).map (·.1) != s.tokens) := by
    rw [hedits, showTokens_map_fst, Bool.eq_iff_iff, bne_iff_ne, bne_iff_ne, not_iff_not]
    exact ⟨editSetting_fixed, fun h => congrArg (showTokens gaps) h⟩
  have hlines : splitLines (dropRemoved [] (editSetting mode (s.shown gaps).tokens)) =
      (splitLines (dropRemoved [] (editSetting mode s.tokens))).map (showTokens gaps) := by
    obtain ⟨front, e, hts, he⟩ := h.last
    have heol : e.isEol = true := by simp [Token.isEol, he]
    have hconcat := dropRemoved_concat [] (editSetting mode front) e
    have hshown := @dropRemoved_showEdits gaps [] (editSetting mode front ++ [(e, false)])
    rw [hedits, hts, editSetting_concat (by simp [Token.isData, he, TokenKind.isData])]
    rw [hconcat] at hshown ⊢
    rw [← splitLines_showTokens_concat _ heol, ← hshown]
    rfl
  rw [unify, unify, Statement.shown_tagCells, List.isEmpty_map]
  split
  · rfl
  · dsimp only
    rw [hsame, hedits, any_showEdits isData_of_removed_setting]
    split
    · rw [← hedits, hlines, dropEmptyLines_showTokens, ← showTokens_flatten]
      rfl
    · rfl

/-- Unifying tags looks at no gaps. -/
theorem commutes_pass (gaps : SectionKind → Bool) : pass.Commutes (gapView gaps) :=
  Pass.commutes_ofStatements keepsSound_pass fun {setup kind sc sc' s} _ _ hs => by
    rw [shown_unify (endsLine_of_sound hs), Decision.map_ofOption]

end UniqueTags
end RobotSuite
