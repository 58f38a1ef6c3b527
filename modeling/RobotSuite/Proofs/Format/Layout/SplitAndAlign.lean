/-
# Splitting and aligning a second time

Two passes lay statements out again: long lines are split, and keyword calls are aligned.  A statement
that is laid out again keeps its type, its data, and the place where its first cell starts, and has a
cell in each line (`Statement.Relaid`).  So a source that one of the passes has formatted is read as the
same tree, and, since a statement that has been split is not split again (`Split.split_again`) and a
body whose calls are aligned rests, formatting it again changes nothing (`layout_settles`).
-/

import RobotSuite.Proofs.Format.Columns.Pass
import RobotSuite.Proofs.Format.RespacedSources
import RobotSuite.Proofs.Format.Split.Widths
import RobotSuite.Proofs.Lint.FixedGroups
import RobotSuite.Proofs.Walk.Matching

namespace RobotSuite

/-! ## Statements that are alike -/

/-- Bare tokens have the flaws of the tokens. -/
theorem tokenFlaws_map_bare (type : StatementType) (ts : List Token) :
    tokenFlaws type (ts.map Token.bare) = tokenFlaws type ts := by
  induction ts with
  | nil => rfl
  | cons t ts ih =>
    rw [List.map_cons, tokenFlaws, tokenFlaws, ih, List.isEmpty_map]
    rfl

namespace Statement.Alike
variable {s r : Statement} (h : s.Alike r)
include h

/-- Alike statements have the same data cells. -/
theorem data : dataTexts r.tokens = dataTexts s.tokens := by
  rw [← dataTexts_map_bare, h.2, dataTexts_map_bare]

/-- Alike statements have the same comments. -/
theorem comments : commentTexts r.tokens = commentTexts s.tokens := by
  rw [← commentTexts_map_bare, h.2, commentTexts_map_bare]

/-- Alike statements have the same text. -/
theorem text : r.text = s.text := by
  rw [Statement.text, Statement.text, ← renderTokens_map_bare, h.2, renderTokens_map_bare]

/-- Alike statements give the same directive. -/
theorem directive : r.directive? = s.directive? := directive?_congr h.comments

/-- Alike statements hold a comment line or none, both. -/
theorem hasCommentLine : r.hasCommentLine = s.hasCommentLine := by
  have hplain : r.plain.hasCommentLine = s.plain.hasCommentLine := by
    rw [Statement.hasCommentLine, Statement.hasCommentLine, plain_tokens, plain_tokens, h.2]
  rwa [plain_hasCommentLine, plain_hasCommentLine] at hplain

/-- Alike statements have the same flaws. -/
theorem flaws : r.flaws = s.flaws := by
  have htokens : tokenFlaws r.type r.tokens = tokenFlaws s.type s.tokens := by
    rw [← tokenFlaws_map_bare, h.1, h.2, tokenFlaws_map_bare]
  have hlast (x : Statement) :
      x.lastEol.isNone = ((x.tokens.map Token.bare).getLast?.filter (·.isEol)).isNone := by
    rw [lastEol, List.getLast?_map, Option.filter_map, Option.isNone_map]
    rfl
  rw [Statement.flaws, Statement.flaws, htokens, hlast, hlast, h.2, h.1, name_congr h.1 h.data]

end Statement.Alike

/-- A replacement is accepted for a statement exactly when an alike one is for an alike one. -/
theorem replacementIssues_alike {s r new new' : Statement} (h : s.Alike r) (hn : new.Alike new') :
    replacementIssues r new' = [] ↔ replacementIssues s new = [] := by
  rw [replacementIssues, replacementIssues, h.1, hn.1, List.append_eq_nil_iff,
    List.append_eq_nil_iff, Statement.issues, Statement.issues, List.map_eq_nil_iff,
    List.map_eq_nil_iff, hn.flaws]
  refine and_congr_left fun _ => ?_
  split <;> simp

/-- What is known of two answers for statements that are alike. -/
theorem Pass.made_alike {info : PassInfo} {g : Statement → Option Statement}
    (hg : ∀ {s r}, s.Alike r → Option.Rel Statement.Alike (g s) (g r)) {m n : Statement × Scope}
    (h : m.1.Alike n.1) (hl : m.2.Like n.2) :
    (made info (fun _ => g) m).Alike (made info (fun _ => g) n) := by
  have hoff : n.2.disables info.name n.1 = m.2.disables info.name m.1 := by
    rw [Scope.disables, Scope.disables, h.1, h.directive, hl.frames]
  have hasks : Option.Rel Statement.Alike (asks info (fun _ => g) m.2 0 m.1)
      (asks info (fun _ => g) n.2 0 n.1) := by
    rw [asks, asks, hoff]
    split
    · exact .none
    · exact hg h
  rw [made, made, Hook.answer, Hook.answer]
  generalize asks info (fun _ => g) m.2 0 m.1 = x at hasks
  generalize asks info (fun _ => g) n.2 0 n.1 = y at hasks
  cases hasks with
  | none => exact h
  | some hn =>
    rw [Decision.ofOption, Decision.ofOption, Decision.outcome, Decision.outcome]
    simp only [replacementIssues_alike h hn]
    split
    · exact hn
    · exact h

/-! ## The same trees -/

section
variable (R : Statement → Statement → Prop)

/-- Whether two steps of walks take place alike: they enter containers of one role, meet related
statements, or leave. -/
inductive Step.Agrees : Step → Step → Prop
  | enter {c d : Container} : d.role = c.role → Step.Agrees (.enter c) (.enter d)
  | meet {s r : Statement} : R s r → Step.Agrees (.meet s) (.meet r)
  | leave {c d : Container} : Step.Agrees (.leave c) (.leave d)

/-- Whether two files are the same tree of related statements. -/
def File.Agrees (f g : File) : Prop := List.Forall₂ (Step.Agrees R) f.steps g.steps

end

section
variable {R Q T : Statement → Statement → Prop}

/-- Steps that match agree. -/
theorem Step.Matches.agrees {a b : Step} (h : a.Matches R b) : a.Agrees R b := by
  cases h with
  | enter hr _ _ => exact .enter hr
  | meet hs => exact .meet hs
  | leave => exact .leave

/-- Agreement of steps composes along a composition of relations. -/
theorem Step.Agrees.comp (h : ∀ s m r, R s m → Q m r → T s r) {a b c : Step}
    (hab : a.Agrees R b) (hbc : b.Agrees Q c) : a.Agrees T c := by
  cases hab with
  | enter hr =>
    cases hbc with
    | enter hr' => exact .enter (hr'.trans hr)
  | meet hs =>
    cases hbc with
    | meet hr => exact .meet (h _ _ _ hs hr)
  | leave =>
    cases hbc with
    | leave => exact .leave

/-- What is known of the statements in their order is known of them where they are met. -/
theorem agrees_of_statements {a b : List Step} (h : List.Forall₂ (Step.Agrees R) a b)
    (hq : List.Forall₂ Q (metStatements a) (metStatements b)) :
    List.Forall₂ (Step.Agrees Q) a b := by
  induction h with
  | nil => exact .nil
  | cons hstep _ ih =>
    cases hstep with
    | enter hr => exact .cons (.enter hr) (ih hq)
    | meet hs =>
      obtain ⟨hfirst, hrest⟩ := List.forall₂_cons.1 hq
      exact .cons (.meet hfirst) (ih hrest)
    | leave => exact .cons .leave (ih hq)

/-- Files that match agree. -/
theorem File.Matches.agrees {f g : File} (h : f.Matches R g) : f.Agrees R g :=
  h.imp fun _ _ => Step.Matches.agrees

/-- Agreement of files composes along a composition of relations. -/
theorem File.Agrees.comp (h : ∀ s m r, R s m → Q m r → T s r) {a b c : File} (hab : a.Agrees R b)
    (hbc : b.Agrees Q c) : a.Agrees T c :=
  forall₂_comp hab hbc fun _ _ _ => .comp h

/-- Files that agree do so in any relation their statements stand in. -/
theorem File.Agrees.of_statements {f g : File} (h : f.Agrees R g)
    (hq : List.Forall₂ Q f.statements g.statements) : f.Agrees Q g :=
  agrees_of_statements h (by rwa [metStatements_file, metStatements_file])

end

/-! ## Statements that are laid out again -/

/-- A statement with data that is laid out again: with the same cells behind the same indentation, and
with a cell in each line. -/
structure Statement.Relaid (s new : Statement) : Prop where
  type : new.type = s.type
  header : s.type ≠ .sectionHeader
  data : dataTexts new.tokens = dataTexts s.tokens
  cells : dataTexts s.tokens ≠ []
  indent : indentOf new.tokens = indentOf s.tokens
  lines : new.hasCommentLine = false

/-- A statement laid out twice is laid out. -/
theorem Statement.Relaid.trans {a b c : Statement} (h : a.Relaid b) (h' : b.Relaid c) : a.Relaid c :=
  ⟨h'.type.trans h.type, h.header, h'.data.trans h.data, h.cells, h'.indent.trans h.indent, h'.lines⟩

section
variable {kind : SectionKind} {s new : Statement}

/-- **A clear statement that is laid out again is clear.** -/
theorem Statement.Relaid.isClear {kind' : SectionKind} (h : s.Relaid new) (hs : s.IsSound kind)
    (hn : new.IsSound kind') (hc : s.IsClear) (hf : new.flaws = []) : new.IsClear := by
  obtain ⟨cell, cells, hd⟩ := List.exists_cons_of_ne_nil h.cells
  obtain ⟨hcell, rest, htext⟩ := hs.starts_text hd
  obtain ⟨-, rest', htext'⟩ := hn.starts_text (h.data.trans hd)
  obtain ⟨c, hhead, -⟩ := hcell.starts
  obtain ⟨cs, hvalue⟩ := List.head?_eq_some_iff.1 hhead
  rw [h.indent, hvalue] at htext'
  rw [hvalue] at htext
  refine ⟨hf, fun ht => ?_, fun ht => absurd (h.type ▸ ht) h.header, fun _ line hline => ?_,
    fun hempty => ?_⟩
  · have hold := hc.asterisk (h.type ▸ ht)
    rw [htext] at hold
    rw [htext']
    cases hi : (indentOf s.tokens).toList with
    | nil =>
      rw [hi] at hold
      exact hold
    | cons i is =>
      rw [hi] at hold
      exact hold
  · have hlines := h.lines
    rw [Statement.hasCommentLine_eq, List.any_eq_false] at hlines
    simpa using hlines line (List.mem_of_getLast? hline)
  · rw [hempty] at htext'
    simp at htext'

end

/-! ## Long lines -/

namespace Split

section
variable {indent separator newline : String} {setup : PassSetup} {kind : SectionKind}
  {s r new : Statement}

/-- Statements that are alike are split alike. -/
theorem split_alike (h : s.Alike r) :
    Option.Rel Statement.Alike (split setup s) (split setup r) := by
  have hlong : isTooLong setup.config.lineLength r = isTooLong setup.config.lineLength s := by
    have hbare (x : Statement) : isTooLong setup.config.lineLength x =
        (splitLines (x.tokens.map Token.bare)).any fun line =>
          setup.config.lineLength < dataWidth line := by
      rw [isTooLong, splitLines_map_bare, List.any_map]
      congr 1
      funext line
      rw [Function.comp_apply, dataWidth_map_bare]
    rw [hbare, hbare, h.2]
  rw [split, split, headSize_congr h.1 h.data]
  cases headSize s with
  | none => exact .none
  | some size =>
    rw [Option.bind_some, Option.bind_some, hlong, h.hasCommentLine]
    split
    · exact .none
    · dsimp only
      generalize setup.params.flag "splitOnEveryArg" false = everyArg
      have htokens : (splitTokens setup everyArg size r.tokens).map Token.bare =
          (splitTokens setup everyArg size s.tokens).map Token.bare := by
        rw [← splitTokens_map_bare, h.2, splitTokens_map_bare]
      have htext : renderTokens (splitTokens setup everyArg size r.tokens) =
          renderTokens (splitTokens setup everyArg size s.tokens) := by
        rw [← renderTokens_map_bare, htokens, renderTokens_map_bare]
      rw [htext, h.text]
      split
      · exact .none
      · exact .some ⟨h.1, htokens⟩

/-- A split statement is laid out anew. -/
theorem relaid_split (hv : setup.IsValid) (h : s.IsSound kind) (hsplit : split setup s = some new) :
    s.Relaid new := by
  obtain ⟨size, everyArg, hsize, rfl⟩ := split_eq_some hsplit
  obtain ⟨l, ls, htokens, hfits, hl, hls, -⟩ := layouts_splitTokens everyArg hv h hsize
  have hlaid := Laid.ofLayouts h.laid.indentOf.1 hv.separator (fun _ => hv.separator)
    (hfits l List.mem_cons_self) hl fun m hm => ⟨hfits m (List.mem_cons_of_mem _ hm), hls m hm⟩
  have hcells : ∀ m ∈ l :: ls, m.cells ≠ [] := by
    rw [List.forall_mem_cons]
    refine ⟨?_, fun m hm => ?_⟩
    · obtain ⟨c, hc, -⟩ := hl
      exact List.ne_nil_of_mem (List.mem_of_head? hc)
    · obtain ⟨c, hc, -⟩ := hls m hm
      exact List.ne_nil_of_mem (List.mem_of_head? hc)
  refine ⟨rfl, not_header_of_split hsplit, (texts_splitTokens everyArg hv h hsize).1,
    (headSize_spec h hsize).1, ?_, ?_⟩
  · show indentOf (splitTokens setup everyArg size s.tokens) = _
    rw [htokens, List.flatMap_cons, indentOf_composeLine hl]
  · rw [Statement.hasCommentLine_eq]
    show (splitLines (splitTokens setup everyArg size s.tokens)).any isCommentLine = false
    rw [htokens, List.flatMap_def, splitLines_flatten hlaid.written, List.any_map, List.any_eq_false]
    intro m hm hcomment
    have htexts := cellTexts_composeLine (hfits m hm) (indentOf s.tokens) setup.config.separator
      fun _ => setup.config.separator
    have hne : cellTokens (composeLine (indentOf s.tokens) m setup.config.separator
        fun _ => setup.config.separator) ≠ [] := by
      intro hnil
      rw [cellTexts, hnil] at htexts
      exact hcells m hm (List.map_eq_nil_iff.1 htexts.symm)
    rw [Function.comp_apply, isCommentLine_of_cells hne] at hcomment
    cases hcomment

variable {comment comment' : Option Token} {ending ending' : Token}

/-- What is written of rows depends on the texts in them. -/
theorem renderTokens_composeRows (hc : comment'.map (·.value) = comment.map (·.value))
    (he : ending'.value = ending.value) {rows rows' : List (List Token)}
    (h : rows'.map (List.map (·.value)) = rows.map (List.map (·.value))) :
    renderTokens (composeRows indent separator newline comment' ending' rows') =
      renderTokens (composeRows indent separator newline comment ending rows) := by
  induction rows generalizing rows' with
  | nil =>
    obtain rfl : rows' = [] := List.map_eq_nil_iff.1 h
    rfl
  | cons row rows ih =>
    obtain ⟨row', rows', rfl, hrow, hrest⟩ := List.map_eq_cons_iff.1 h
    have hempty : row'.isEmpty = row.isEmpty := by
      rw [← List.isEmpty_map, hrow, List.isEmpty_map]
    cases rows with
    | nil =>
      obtain rfl : rows' = [] := List.map_eq_nil_iff.1 hrest
      rw [composeRows, composeRows, renderTokens_composeLine, renderTokens_composeLine]
      dsimp only
      rw [hrow, hempty, hc, he]
    | cons next rows =>
      obtain ⟨next', rows', rfl, -, -⟩ := List.map_eq_cons_iff.1 hrest
      rw [composeRows, composeRows, renderTokens_append, renderTokens_append, ih hrest,
        renderTokens_composeLine, renderTokens_composeLine]
      dsimp only
      rw [hrow, hempty]

/-- The texts of comments put together, which are put together again. -/
theorem joinComments_values (separator : String) {cs ds : List Token}
    (h : ds.map (·.value) = (joinComments separator cs).toList.map (·.value)) :
    (joinComments separator ds).map (·.value) = (joinComments separator cs).map (·.value) := by
  cases cs with
  | nil =>
    obtain rfl : ds = [] := List.map_eq_nil_iff.1 h
    rfl
  | cons c cs =>
    obtain ⟨d, hd, hvalue⟩ : ∃ d, ds = [d] ∧
        d.value = separator.intercalate ((c :: cs).map (·.value)) := List.map_eq_singleton_iff.1 h
    subst hd
    show some (separator.intercalate [d.value]) = _
    rw [String.intercalate_singleton, hvalue]
    rfl

/-- What is split is laid out in the same lines again. -/
theorem renderTokens_splitTokens {size : Nat} (everyArg : Bool) (hv : setup.IsValid)
    (h : s.IsSound kind) (hs : headSize s = some size)
    (hi : indentOf (splitTokens setup everyArg size s.tokens) = indentOf s.tokens) :
    renderTokens (splitTokens setup everyArg size (splitTokens setup everyArg size s.tokens)) =
      renderTokens (splitTokens setup everyArg size s.tokens) := by
  obtain ⟨hdata, -⟩ := texts_splitTokens everyArg hv h hs
  have hcomments : (commentTokens (splitTokens setup everyArg size s.tokens)).map (·.value) =
      (joinComments setup.config.separator (commentTokens s.tokens)).toList.map (·.value) := by
    obtain ⟨l, ls, htokens, hfits, -, -, -, hcomments, -⟩ := layouts_splitTokens everyArg hv h hs
    rw [htokens, ← hcomments]
    exact (texts_flatMap_composeLine (indentOf s.tokens) setup.config.separator
      (fun _ => setup.config.separator) hfits).2
  have hending : (splitTokens setup everyArg size s.tokens).getLast?.getD noEnding =
      s.tokens.getLast?.getD noEnding := by
    obtain ⟨row, more, hrows, -⟩ := rows_spec h hs (indentOf s.tokens) setup.config.separator
      setup.config.lineLength everyArg
    obtain ⟨front, hfront⟩ : ∃ front, splitTokens setup everyArg size s.tokens =
        front ++ [s.tokens.getLast?.getD noEnding] := by
      rw [splitTokens, hrows]
      exact composeRows_concat (List.cons_ne_nil _ _)
    rw [hfront, List.getLast?_concat, Option.getD_some]
  have hrows : (fillRows (indentOf s.tokens)
      ((dataTokens (splitTokens setup everyArg size s.tokens)).take size)
      ((dataTokens (splitTokens setup everyArg size s.tokens)).drop size) setup.config.separator
      setup.config.lineLength everyArg).map (List.map (·.value)) =
      (fillRows (indentOf s.tokens) ((dataTokens s.tokens).take size)
        ((dataTokens s.tokens).drop size) setup.config.separator setup.config.lineLength
        everyArg).map (List.map (·.value)) := by
    rw [dataTexts, dataTexts] at hdata
    refine fillFrom_values ?_ ?_
    · rw [List.map_take, List.map_take, hdata]
    · rw [List.map_drop, List.map_drop, hdata]
  rw [splitTokens, hi, hending]
  exact renderTokens_composeRows (joinComments_values _ hcomments) rfl hrows

/-- **A statement that has been split is not split again.** -/
theorem split_again (hv : setup.IsValid) (h : s.IsSound kind) (hsplit : split setup s = some new) :
    split setup new = none := by
  have hindent := (relaid_split hv h hsplit).indent
  rw [split] at hsplit ⊢
  generalize setup.params.flag "splitOnEveryArg" false = everyArg at hsplit ⊢
  obtain ⟨size, hsize, hmade⟩ := Option.bind_eq_some_iff.1 hsplit
  split at hmade
  · cases hmade
  dsimp only at hmade
  split at hmade
  · cases hmade
  obtain rfl := Option.some.inj hmade
  have hhead : headSize (s.withTokens (splitTokens setup everyArg size s.tokens)) = headSize s :=
    headSize_congr rfl (texts_splitTokens everyArg hv h hsize).1
  rw [hhead, hsize, Option.bind_some]
  split
  · rfl
  · exact if_pos (renderTokens_splitTokens everyArg hv h hsize hindent)

end

end Split

/-! ## Keyword calls -/

namespace Columns

section
variable {kind : SectionKind} {separator : String} {s new : Statement}

/-- Whether a call may have been aligned: it is laid out again with its comments. -/
def Respread (s new : Statement) : Prop :=
  new = s ∨ s.Relaid new ∧ commentTexts new.tokens = commentTexts s.tokens

/-- A statement spread twice is spread. -/
theorem Respread.trans {a b c : Statement} (h : Respread a b) (h' : Respread b c) : Respread a c := by
  rcases h with rfl | ⟨h, hc⟩
  · exact h'
  · rcases h' with rfl | ⟨h', hc'⟩
    · exact .inr ⟨h, hc⟩
    · exact .inr ⟨h.trans h', hc'.trans hc⟩

/-- Aligning a call spreads its cells, and does nothing else. -/
theorem respread_aligned (h : s.IsSound kind) (hs : IsWide separator) (hcall : s.IsCall)
    (widths : List Nat) : Respread s (s.withTokens (aligned separator widths s)) := by
  obtain ⟨f, heq, hf⟩ := respaced_aligned h hs widths
  obtain ⟨-, hdata, hcomments⟩ := h.laid.respaced hf
  rw [← heq] at hdata hcomments
  refine .inr ⟨⟨rfl, ?_, hdata, h.dataTexts_of_call hcall.type, indentOf_aligned h hcall widths,
    (isCall_aligned h hs hcall widths).cells⟩, hcomments⟩
  rw [hcall.type]
  decide

/-- Spreading is reflexive and transitive, statement by statement. -/
theorem isLinear_respread : IsLinear (List.Forall₂ Respread) where
  refl _ := List.forall₂_same.2 fun _ _ => .inl rfl
  trans h h' := forall₂_comp h h' fun _ _ _ => .trans
  append h h' := List.rel_append h h'

/-- A pass that aligns calls relates statements as it relates calls to aligned ones that fit. -/
theorem relates_of_calls {R : Statement → Statement → Prop} (hR : IsLinear (List.Forall₂ R))
    {setup : PassSetup} (hv : setup.IsValid)
    (h : ∀ {kind : SectionKind} {s : Statement} (widths : List Nat), s.IsSound kind → s.IsCall →
      fits setup.config.lineLength (aligned setup.config.separator widths s) = true →
      R s (s.withTokens (aligned setup.config.separator widths s)))
    {f : File} (hf : f.IsSound) (hlead : ∀ s ∈ f.sections, leadsBlocks s.body) :
    List.Forall₂ R f.statements (pass.apply setup f).tree.statements := by
  refine Pass.relates_apply hR (fun t hplan => ?_) hf hlead
  have hkeeps := (keepsSound_pass setup f t hv hplan).1
  obtain rfl := Except.ok.inj hplan
  refine
    { keeps := hkeeps
      linear := hR
      statement := fun hput => by cases hput
      body := ?_
      sect := fun hput => by cases hput
      file := fun hput => by cases hput }
  intro kind place header items new hput hitems
  have hnew := unmark_alignBody setup.config.lineLength setup.config.separator items
  have hspec := settle_spec setup.config.lineLength setup.config.separator (items.map candidate?)
  rw [Decision.ofOption_eq_put hput, Option.getD_some] at hnew
  rw [hnew, unmark, bodyStatements_eq_flatMap, bodyStatements_eq_flatMap, List.flatMap_map,
    List.flatMap_map]
  generalize settle setup.config.lineLength setup.config.separator (items.map candidate?) = calls
    at hspec
  have hsame : List.Forall₂ (fun x y => x = y ∧ x ∈ items) items items :=
    List.forall₂_same.2 fun x hx => ⟨rfl, hx⟩
  refine List.rel_flatMap hsame ?_
  rintro x _ ⟨rfl, hx⟩
  have hitem := bodyHolds_iff.1 hitems x.1 (List.mem_map_of_mem hx)
  rcases alignItem_cases setup.config.separator calls x with heq | ⟨s, rfl, hcall, hmem, heq⟩
  · dsimp only
    rw [heq]
    exact hR.refl _
  · dsimp only
    rw [BodyItem.Holds] at hitem
    rw [heq, BodyItem.statements, BodyItem.statements]
    exact .cons (h _ hitem.2 hcall (hspec.fitting _ hmem)) .nil

/-- **What the pass does to each statement** of a sound file. -/
theorem respread_apply {setup : PassSetup} (hv : setup.IsValid) {f : File} (hf : f.IsSound)
    (hlead : ∀ s ∈ f.sections, leadsBlocks s.body) :
    List.Forall₂ Respread f.statements (pass.apply setup f).tree.statements :=
  relates_of_calls isLinear_respread hv
    (fun widths hs hcall _ => respread_aligned hs hv.separator hcall widths) hf hlead

end

/-- Calls that are aligned stay at their places. -/
theorem agrees_of_visited {limit : Nat} {separator : String} {sc sc' : Scope} {old new : List Step}
    (h : List.Forall₂ (Visited limit separator) (withScopes sc old) (withScopes sc' new)) :
    List.Forall₂ (Step.Agrees Statement.Kept) old new := by
  induction old generalizing sc sc' new with
  | nil =>
    cases new with
    | nil => exact .nil
    | cons step new => cases h
  | cons step old ih =>
    cases new with
    | nil => cases h
    | cons step' new =>
      obtain ⟨hstep, hrest⟩ := List.forall₂_cons.1 h
      refine .cons ?_ (ih hrest)
      generalize sc.at step = inside at hstep
      generalize sc'.at step' = inside' at hstep
      cases hstep with
      | enter hr _ _ _ _ => exact .enter hr
      | meet hs => exact .meet hs
      | leave => exact .leave

section
variable {limit : Nat} {separator : String}

/-- Two marked items that are alike. -/
structure AlikeItems (x y : Marked BodyItem) : Prop where
  items : x.1.Matches Statement.Alike y.1
  marks : x.2 = y.2

/-- Alike items are the same candidate, marks and places apart. -/
theorem AlikeItems.candidate? {x y : Marked BodyItem} (h : AlikeItems x y) :
    (candidate? y).map Candidate.bare = (candidate? x).map Candidate.bare := by
  obtain ⟨x, off⟩ := x
  obtain ⟨y, off'⟩ := y
  obtain ⟨hitem, rfl : off = off'⟩ := h
  cases hitem with
  | control => cases off <;> rfl
  | @statement s r hs =>
    cases off with
    | true => rfl
    | false =>
      have hcandidate : (⟨indentOf r.tokens, LineLayout.ofTokens r.tokens⟩ : Candidate).bare =
          (⟨indentOf s.tokens, LineLayout.ofTokens s.tokens⟩ : Candidate).bare := by
        rw [Candidate.bare, Candidate.bare]
        dsimp only
        rw [← indentOf_map_bare, ← LineLayout.ofTokens_map_bare, hs.2, indentOf_map_bare,
          LineLayout.ofTokens_map_bare]
      rw [Columns.candidate?, Columns.candidate?, hs.1, hs.hasCommentLine]
      split
      · exact congrArg some hcandidate
      · rfl

/-- Alike items take new tokens alike. -/
theorem AlikeItems.retoken? {x y : Marked BodyItem} (h : AlikeItems x y) {c c' : Candidate}
    (hc : c'.bare = c.bare) (widths : List Nat) :
    (retoken? y.1 (c'.align separator widths)).isSome =
      (retoken? x.1 (c.align separator widths)).isSome := by
  have htext : renderTokens (c'.align separator widths) = renderTokens (c.align separator widths) := by
    rw [← renderTokens_map_bare, ← align_bare, hc, align_bare, renderTokens_map_bare]
  obtain ⟨x, off⟩ := x
  obtain ⟨y, off'⟩ := y
  obtain ⟨hitem, -⟩ := h
  cases hitem with
  | control => rfl
  | statement hs =>
    rw [Columns.retoken?, Columns.retoken?, htext, hs.text]
    split <;> rfl

/-- **Whether a body rests is seen from what its items show.** -/
theorem alignBody_alike {items items' : List (Marked BodyItem)}
    (h : List.Forall₂ AlikeItems items items') (hnone : alignBody limit separator items = none) :
    alignBody limit separator items' = none := by
  have hcalls : (settle limit separator (items'.map candidate?)).map (Option.map Candidate.bare) =
      (settle limit separator (items.map candidate?)).map (Option.map Candidate.bare) := by
    have hcandidates : (items'.map candidate?).map (Option.map Candidate.bare) =
        (items.map candidate?).map (Option.map Candidate.bare) := by
      rw [List.map_map, List.map_map]
      clear hnone
      induction h with
      | nil => rfl
      | cons hitem _ ih =>
        rw [List.map_cons, List.map_cons, ih]
        exact congrArg (· :: _) hitem.candidate?
    rw [← settle_map_bare, hcandidates, settle_map_bare]
  have hwidths : widthsOf (settle limit separator (items'.map candidate?)) =
      widthsOf (settle limit separator (items.map candidate?)) := by
    rw [← widthsOf_map_bare, hcalls, widthsOf_map_bare]
  rw [alignBody_eq_none_iff] at hnone ⊢
  rw [← hnone, alignments, alignments]
  dsimp only
  rw [hwidths, List.any_map, List.any_map]
  generalize widthsOf (settle limit separator (items.map candidate?)) = widths
  generalize settle limit separator (items.map candidate?) = calls at hcalls
  generalize settle limit separator (items'.map candidate?) = calls' at hcalls
  clear hnone hwidths
  induction h generalizing calls calls' with
  | nil => rfl
  | @cons x y _ _ hitem _ ih =>
    cases calls with
    | nil =>
      obtain rfl : calls' = [] := List.map_eq_nil_iff.1 hcalls
      rfl
    | cons call calls =>
      obtain ⟨call', calls', rfl, hcall, hrest⟩ := List.map_eq_cons_iff.1 hcalls
      rw [List.zip_cons_cons, List.zip_cons_cons, List.any_cons, List.any_cons, ih _ _ hrest]
      congr 1
      cases call with
      | none =>
        obtain rfl : call' = none := Option.map_eq_none_iff.1 hcall
        rfl
      | some c =>
        obtain ⟨c', rfl, hc⟩ := Option.map_eq_some_iff.1 hcall
        exact hitem.retoken? hc _

/-- Bodies that match are marked alike in scopes that are alike. -/
theorem alike_markedItems {items items' : List BodyItem}
    (h : List.Forall₂ (BodyItem.Matches Statement.Alike) items items') {sc sc' : Scope}
    (hl : sc.Like sc') : List.Forall₂ AlikeItems (markedItems sc items) (markedItems sc' items') := by
  induction h generalizing sc sc' with
  | nil => exact .nil
  | cons hitem _ ih =>
    cases hitem with
    | @statement s r hs =>
      have hin : (sc.note s).Like (sc'.note r) := hl.note hs.1 hs.directive
      exact .cons ⟨.statement hs, (hin.disables info.name hs.1 hs.directive).symm⟩ (ih hin)
    | control => exact .cons ⟨.control, rfl⟩ (ih hl)

/-- **What matches a walk in which all bodies rest** rests too. -/
theorem restsIn_alike {a b : List Step} {sc sc' : Scope} (hrests : RestsIn limit separator sc a)
    (h : List.Forall₂ (fun v w => v.1.Matches Statement.Alike w.1 ∧ v.2.Like w.2) (withScopes sc a)
      (withScopes sc' b)) : RestsIn limit separator sc' b := by
  intro c inside hc
  obtain ⟨v, hv, hmatch, hl⟩ := exists_of_mem_forall₂ h hc
  obtain ⟨step, scope⟩ := v
  cases hmatch with
  | enter _ _ hbody =>
    exact alignBody_alike (alike_markedItems hbody hl) (hrests _ _ hv)
end

end Columns

/-! ## Files -/

section
variable {f g : File}

/-- **A file with statements laid out again is legible** if the statements were clear. -/
theorem legible_of_relaid (hf : f.IsSound) (hc : ∀ s ∈ f.statements, s.IsClear) (hg : g.Intact)
    (h : List.Forall₂ (fun s new => new = s ∨ s.Relaid new) f.statements g.statements) :
    g.Legible := by
  have hclear : ∀ r ∈ g.statements, r.IsClear := by
    intro r hr
    obtain ⟨s, hs, rfl | hrelaid⟩ := exists_of_mem_forall₂ h hr
    · exact hc r hs
    · obtain ⟨kind, hheader | hsound⟩ := hf.statement_cases s hs
      · exact absurd hheader.type hrelaid.header
      · obtain ⟨kind', hheader' | hsound'⟩ := hg.sound.statement_cases r hr
        · exact absurd (hrelaid.type ▸ hheader'.type) hrelaid.header
        · exact hrelaid.isClear hsound hsound' (hc s hs) (flaws_of_mem_statements hg.valid r hr)
  exact hg.sound.legible_of_clear hclear

/-- A source with comments like those of a valid model has no line break in them. -/
theorem unbroken_of_alike {text : String} (hi : f.issues = [])
    (h : List.Forall₂ Statement.Alike f.statements (parse text).statements) :
    ∀ c ∈ (parse text).comments, isUnbroken c.toList = true := by
  intro c hc
  obtain ⟨r, hr, hc⟩ := List.mem_flatMap.1 hc
  obtain ⟨s, hs, halike⟩ := exists_of_mem_forall₂ h hr
  rw [halike.comments] at hc
  exact File.unbroken_comments hi c (List.mem_flatMap.2 ⟨s, hs, hc⟩)

end

/-- What one of the passes leaves of a statement, read again: its type, its data, and its comments,
which the pass may put together where it lays the statement out again. -/
structure Statement.Restates (joined : List String → List String) (s r : Statement) : Prop where
  type : r.type = s.type
  data : dataTexts r.tokens = dataTexts s.tokens
  comments : commentTexts r.tokens =
    if r.text = s.text then commentTexts s.tokens else joined (commentTexts s.tokens)

/-- A statement restates itself. -/
theorem Statement.Restates.refl (joined : List String → List String) (s : Statement) :
    s.Restates joined s :=
  ⟨rfl, rfl, (if_pos rfl).symm⟩

/-- What is alike a restatement restates too. -/
theorem Statement.Alike.restates {joined : List String → List String} {s new r : Statement}
    (h : s.Restates joined new) (hr : new.Alike r) : s.Restates joined r :=
  ⟨hr.1.trans h.type, hr.data.trans h.data, by rw [hr.comments, h.comments, hr.text]⟩

namespace Split

section
variable {setup : PassSetup} {f : File}

/-- Comments and headings are never split. -/
theorem headSize_eq_none {s : Statement} (h : s.type = .comment ∨ s.type.isHeading = true) :
    headSize s = none := by
  rw [headSize]
  split <;> rename_i ht <;> simp [ht, StatementType.isHeading] at h ⊢

/-- What a statement is after the pass: itself, or split. -/
def SplitOr (setup : PassSetup) (s new : Statement) : Prop := new = s ∨ split setup s = some new

/-- A statement without a head to split stays. -/
theorem SplitOr.eq_of_headSize {s new : Statement} (h : SplitOr setup s new)
    (hs : headSize s = none) : new = s := by
  rcases h with rfl | h
  · rfl
  · rw [split, hs] at h
    cases h

/-- The pass splits statements or leaves them. -/
theorem replaces_transform (setup : PassSetup) : (transform setup).Replaces (SplitOr setup) where
  refl _ := .inl rfl
  statement h _ := .inr (exists_split h)
  body := rfl
  sect := rfl
  file := rfl

/-- The pass's result matches the file, statements split or left. -/
theorem matches_apply (setup : PassSetup) (f : File) :
    f.Matches (SplitOr setup) (pass.apply setup f).tree :=
  (replaces_transform setup).run f

/-- The comments of a statement as one. -/
def joinedRemarks (separator : String) (comments : List String) : List String :=
  if comments = [] then [] else [separator.intercalate comments]

/-- A split statement says the same, its comments joined. -/
theorem restates_split (hv : setup.IsValid) {kind : SectionKind} {s new : Statement}
    (h : s.IsSound kind) (hsplit : split setup s = some new) :
    s.Restates (joinedRemarks setup.config.separator) new := by
  have htext : new.text ≠ s.text := by
    rw [split] at hsplit
    obtain ⟨size, -, hmade⟩ := Option.bind_eq_some_iff.1 hsplit
    split at hmade
    · cases hmade
    dsimp only at hmade
    split at hmade
    · cases hmade
    · rename_i hne
      obtain rfl := Option.some.inj hmade
      exact hne
  obtain ⟨size, everyArg, hsize, rfl⟩ := split_eq_some hsplit
  obtain ⟨hdata, hcomments⟩ := texts_splitTokens everyArg hv h hsize
  refine ⟨rfl, hdata, ?_⟩
  rw [if_neg htext]
  exact hcomments

variable {g : File}

/-- **A walk through the file, read again,** goes through the same scopes. -/
theorem forall₂_meetings_again (h : (pass.apply setup f).tree.Matches Statement.Alike g)
    (hf : f.IsSound) :
    List.Forall₂ (fun m n => (madeOf setup m).Alike n.1 ∧ m.2.Like n.2) f.meetings g.meetings := by
  let R (s r : Statement) : Prop := ∃ new, SplitOr setup s new ∧ new.Alike r
  have hmatch : f.Matches R g := (matches_apply setup f).comp (fun _ m _ hs hr => ⟨m, hs, hr⟩) h
  have hstays {s r : Statement} (hs : s.type = .comment ∨ s.type.isHeading = true) (hr : R s r) :
      r.directive? = s.directive? := by
    obtain ⟨new, hnew, halike⟩ := hr
    rw [← hnew.eq_of_headSize (headSize_eq_none hs)]
    exact halike.directive
  have htype {s r : Statement} (hr : R s r) : r.type = s.type := by
    obtain ⟨new, rfl | hsplit, halike⟩ := hr
    · exact halike.1
    · obtain ⟨size, everyArg, -, rfl⟩ := split_eq_some hsplit
      exact halike.1
  have hstart : ({} : Scope).Like {} := ⟨rfl, rfl⟩
  have hvisits := forall₂_visits (fun hr => htype hr) (fun hr ht => hstays (.inl ht) hr)
    (fun c hc h hh r hr => hstays (.inr (hf.headed c hc h hh)) hr) hmatch hstart
  have hmade := h.statements
  rw [statements_apply, ← File.map_fst_meetings g, List.forall₂_map_left_iff,
    List.forall₂_map_right_iff] at hmade
  exact hmade.mp (fun _ _ halike hmet => ⟨halike, hmet.2⟩) (forall₂_meetings hvisits)

/-- **The statements of a file that has been split, read again,** are not split again. -/
theorem alike_apply_again (hv : setup.IsValid) (hf : f.IsSound)
    (h : (pass.apply setup f).tree.Matches Statement.Alike g) :
    List.Forall₂ Statement.Alike g.statements (pass.apply setup g).tree.statements := by
  have hagain : ∀ m ∈ f.meetings, madeOf setup (madeOf setup m, m.2) = madeOf setup m := by
    intro m hm
    refine Pass.made_again fun hsplit => ?_
    obtain ⟨kind, hheader | hsound⟩ :=
      hf.statement_cases m.1 (File.map_fst_meetings f ▸ List.mem_map_of_mem hm)
    · exact absurd hheader.type (not_header_of_split hsplit)
    · exact split_again hv hsound hsplit
  have hmet := (List.forall₂_and_left f.meetings g.meetings).2
    ⟨hagain, forall₂_meetings_again h hf⟩
  rw [statements_apply, ← File.map_fst_meetings g, List.forall₂_map_left_iff,
    List.forall₂_map_right_iff, List.forall₂_same]
  intro n hn
  obtain ⟨m, -, hsame, halike, hlike⟩ := exists_of_mem_forall₂ hmet hn
  have hnew : (madeOf setup (madeOf setup m, m.2)).Alike (madeOf setup n) :=
    Pass.made_alike (fun h => split_alike h) halike hlike
  rw [hsame] at hnew
  exact ⟨hnew.1.trans halike.1.symm, hnew.2.trans halike.2.symm⟩

/-- **A file that has been split, read again, is not split again.** -/
theorem render_apply_again (hv : setup.IsValid) (hf : f.IsSound)
    (h : (pass.apply setup f).tree.Matches Statement.Alike g) :
    (pass.apply setup g).tree.render = g.render := by
  have hsame := alike_apply_again hv hf h
  rw [File.render, File.render, renderStatements, renderStatements]
  have htexts : List.Forall₂ (· = ·) (g.statements.map Statement.text)
      ((pass.apply setup g).tree.statements.map Statement.text) :=
    List.forall₂_map_left_iff.2 (List.forall₂_map_right_iff.2
      (hsame.imp fun _ _ halike => halike.text.symm))
  rw [List.forall₂_eq_eq_eq] at htexts
  exact congrArg String.join htexts.symm

end
end Split

namespace Columns

section
variable {limit : Nat} {separator : String} {source : String}

/-- **What matches a file in which all bodies rest** is left as it is. -/
theorem apply_again {setup : PassSetup} (hs : IsWide setup.config.separator) {g : File}
    (hrests : RestsIn setup.config.lineLength setup.config.separator {} g.steps)
    (h : g.Matches Statement.Alike (parse source)) (hp : (parse source).errors = [])
    (hi : (parse source).issues = []) : (pass.apply setup (parse source)).tree = parse source := by
  have hstart : ({} : Scope).Like {} := ⟨rfl, rfl⟩
  have hvisits := forall₂_visits (fun hr => hr.1) (fun hr _ => hr.directive)
    (fun _ _ _ _ _ hr => hr.directive) h hstart
  obtain ⟨ss, hrun, hgo⟩ := run_goes setup.config.lineLength hs (ready_parse hp hi)
  have hsame : { parse source with sections := ss } = parse source :=
    hgo.file.2 (restsIn_alike hrests hvisits)
  show ((aligning setup.config.lineLength setup.config.separator).run (parse source)).tree = _
  rw [hrun, hsame]

/-- What the pass leaves of a source: the same tree, in which all bodies rest. -/
theorem agrees_apply {setup : PassSetup} (hv : setup.IsValid) (hp : (parse source).errors = [])
    (hi : (parse source).issues = []) :
    (parse source).Agrees Respread (pass.apply setup (parse source)).tree ∧
      RestsIn setup.config.lineLength setup.config.separator {}
        (pass.apply setup (parse source)).tree.steps := by
  have hrespread := respread_apply hv (sound_parse hp) (parse_sections source).1
  obtain ⟨ss, hrun, hgo⟩ := run_goes setup.config.lineLength hv.separator (ready_parse hp hi)
  have htree : (pass.apply setup (parse source)).tree = { parse source with sections := ss } := by
    show ((aligning setup.config.lineLength setup.config.separator).run (parse source)).tree = _
    rw [hrun]
  have hgoes := hgo.file.1
  rw [htree] at hrespread ⊢
  have hagrees : (parse source).Agrees Statement.Kept { parse source with sections := ss } :=
    agrees_of_visited (hgoes.visits ⟨rfl, rfl⟩)
  exact ⟨hagrees.of_statements hrespread, hgoes.rests hv.separator ⟨rfl, rfl⟩⟩

end

end Columns

/-! ## Texts -/

section
variable {source text : String} {d : Document} {config : FormatConfig} {p : Pass}

/-- A source whose statements a transform has laid out again is read back. -/
theorem reads_relaid {t : Transform} (hs : t.leaveSection = fun _ _ _ => .keep)
    (hfile : t.leaveFile = fun _ _ => .keep) (hi : (parse source).Intact)
    (hp : (parse source).errors = []) (hg : (t.run (parse source)).tree.Intact)
    (h : List.Forall₂ (fun s new => new = s ∨ s.Relaid new) (parse source).statements
      (t.run (parse source)).tree.statements) :
    let text := (t.run (parse source)).tree.render
    (parse text).errors = [] ∧ (parse text).Intact ∧
      (t.run (parse source)).tree.Matches Statement.Alike (parse text) := by
  have hl := legible_of_relaid hi.sound (clear_parse hp hi.valid) hg h
  have hview := (hg.sound.plain_read_back hg.valid hl
    (Transform.statements_ne_nil_run hs hfile (statements_ne_nil_of_parse source))
    (t.leadsBlocks_run (parse_sections source).1)).symm
  have hmatch := File.matches_of_view hview
  have herrors := (hg.sound.read_back hg.valid hl).1
  exact ⟨herrors, intact_parse herrors (unbroken_of_alike hg.valid hmatch.statements)
    ((isUncheckable_of_view hview).symm.trans (File.isUncheckable_of_issues hg.valid)), hmatch⟩

/-- A run of a single pass. -/
theorem file_of_only (hp : (parse source).errors = []) (hmem : p ∈ Pass.all)
    (honly : (Pass.all.filter fun q => config.runs q.info).map Pass.name = [p.name]) :
    (formatFile (parse source) config Pass.all).file =
      (p.apply ⟨config, config.paramsOf p.name, (parse source).newline.text⟩
        (parse source)).tree := by
  obtain ⟨q, hq, hname⟩ := List.map_eq_singleton_iff.1 honly
  have hall : q ∈ Pass.all := (List.mem_filter.1 (hq ▸ List.mem_singleton_self q)).1
  have hsame : q = p :=
    List.inj_on_of_nodup_map (f := Pass.name) (by decide) hall hmem hname
  rw [file_formatFile hp, hq, hsame]
  rfl

/-- **A text that a single pass leaves as it is** is formatted to itself. -/
theorem formatSource_of_rest (hp : (parse text).errors = []) (hi : (parse text).Intact)
    (hc : config.IsValid) (hmem : p ∈ Pass.all)
    (honly : (Pass.all.filter fun q => config.runs q.info).map Pass.name = [p.name])
    (h : (p.apply ⟨config, config.paramsOf p.name, (parse text).newline.text⟩
      (parse text)).tree.render = text) :
    (formatSource text config Pass.all).1 = .ok ⟨text, false, none⟩ := by
  have hintact := hi.apply (PassSetup.isValid_of_config hc (config.paramsOf p.name) (parse text)) hmem
  rw [formatSource_of_errors hp, file_of_only hp hmem honly,
    renderStrict_of_issues hintact.valid, h]
  simp [Except.map]

/-- A source that is formatted has no line break in its comments. -/
theorem unbroken_of_formatSource {out : Formatted} (hp : (parse source).errors = [])
    (hc : config.IsValid) (hf : (formatSource source config Pass.all).1 = .ok out) :
    ∀ c ∈ (parse source).comments, isUnbroken c.toList = true := by
  by_contra hbroken
  have hnone := formatSource_of_broken hp hc hbroken
  rw [hf] at hnone
  cases hnone

/-- What is written of a source whose long lines have been split is read as the same tree, and is not
split again. -/
theorem Split.settles {setup : PassSetup} (hv : setup.IsValid) (hp : (parse source).errors = [])
    (hi : (parse source).Intact) :
    let text := (pass.apply setup (parse source)).tree.render
    (parse text).errors = [] ∧ (parse text).Intact ∧
      (parse source).Agrees (Statement.Restates (joinedRemarks setup.config.separator))
        (parse text) ∧
      (pass.apply setup (parse text)).tree.render = text := by
  have hg : (pass.apply setup (parse source)).tree.Intact := hi.apply hv (by simp [Pass.all])
  have hrelaid : List.Forall₂ (fun s new => new = s ∨ s.Relaid new) (parse source).statements
      (pass.apply setup (parse source)).tree.statements :=
    forall₂_apply hi.sound (fun _ => .inl rfl) fun hs hsplit => .inr (relaid_split hv hs hsplit)
  have hrestates : List.Forall₂ (Statement.Restates (joinedRemarks setup.config.separator))
      (parse source).statements (pass.apply setup (parse source)).tree.statements :=
    forall₂_apply hi.sound (.refl _) fun hs hsplit => restates_split hv hs hsplit
  obtain ⟨herrors, hagain, hmatch⟩ := reads_relaid (t := transform setup) rfl rfl hi hp hg hrelaid
  refine ⟨herrors, hagain, ?_, ?_⟩
  · exact ((matches_apply setup (parse source)).agrees.of_statements hrestates).comp
      (fun _ _ _ hs hr => hr.restates hs) hmatch.agrees
  · exact (render_apply_again hv hi.sound hmatch).trans (render_parse _)

/-- What is written of a source whose calls have been aligned is read as the same tree, and stays as
it is. -/
theorem Columns.settles {setup : PassSetup} (hv : setup.IsValid) (hp : (parse source).errors = [])
    (hi : (parse source).Intact) :
    let text := (pass.apply setup (parse source)).tree.render
    (parse text).errors = [] ∧ (parse text).Intact ∧
      (parse source).Agrees (Statement.Restates id) (parse text) ∧
      ∀ newline, (pass.apply { setup with newline } (parse text)).tree.render = text := by
  have hg : (pass.apply setup (parse source)).tree.Intact := hi.apply hv (by simp [Pass.all])
  have hrespread := respread_apply hv hi.sound (parse_sections source).1
  have hrelaid := hrespread.imp fun s new (h : Respread s new) => h.imp_right (·.1)
  obtain ⟨hagrees, hrests⟩ := agrees_apply hv hp hi.valid
  obtain ⟨herrors, hagain, hmatch⟩ := reads_relaid
    (t := aligning setup.config.lineLength setup.config.separator) rfl rfl hi hp hg hrelaid
  refine ⟨herrors, hagain, ?_, fun newline => ?_⟩
  · refine hagrees.comp (fun s new r hs hr => hr.restates ?_) hmatch.agrees
    rcases hs with rfl | ⟨hrelaid, hcomments⟩
    · exact .refl _ _
    · exact ⟨hrelaid.type, hrelaid.data, by rw [hcomments, id, ite_self]⟩
  · let again : PassSetup := { setup with newline }
    have hs : IsWide again.config.separator := hv.separator
    have hsame := apply_again hs hrests hmatch herrors hagain.valid
    exact (congrArg File.render hsame).trans (render_parse _)

/-- What becomes of the comments of a statement that a pass lays out again: where long lines are split,
they become one. -/
def remarksBehind (p : Pass) (config : FormatConfig) : List String → List String :=
  if p.name = Split.pass.name then Split.joinedRemarks config.separator else id

/-- **Splitting and aligning keep the program, and settle.**  A source has no defect, the formatter is
configured by a document, and of its passes just the one that splits long lines is switched on, or just
the one that aligns keyword calls.  Then what is written is read without a defect, as the same tree:
walks through both enter the same containers and meet statements of the same type with the same data
and comments, but that the comments of a statement that has been split have become one.  If what is
written is formatted again it stays as it is, provided that, where lines are split, the line ending
that prevails is still the same. -/
theorem layout_settles {out : Formatted} (hp : (parse source).errors = [])
    (hc : FormatConfig.read d = .ok config) (hpass : p = Split.pass ∨ p = Columns.pass)
    (honly : (Pass.all.filter fun q => config.runs q.info).map Pass.name = [p.name])
    (hf : (formatSource source config Pass.all).1 = .ok out) :
    (parse out.text).errors = [] ∧
      (parse source).Agrees (Statement.Restates (remarksBehind p config)) (parse out.text) ∧
      ((p.name = Split.pass.name → (parse out.text).newline = (parse source).newline) →
        (formatSource out.text config Pass.all).1 = .ok ⟨out.text, false, none⟩) := by
  have hvalid := FormatConfig.isValid_of_read hc
  have hmem : p ∈ Pass.all := by
    rcases hpass with rfl | rfl <;> simp [Pass.all]
  obtain ⟨-, hissues, htext⟩ := sound_formatSource hp hc hf
  rw [file_of_only hp hmem honly] at hissues htext
  -- neither pass changes whether the model can be checked
  have hcheck : (parse source).isUncheckable = false := by
    have hafter := File.isUncheckable_of_issues hissues
    rcases hpass with rfl | rfl
    · exact (Transform.isUncheckable_run rfl rfl _).symm.trans hafter
    · exact (Transform.isUncheckable_run rfl rfl _).symm.trans hafter
  have hi := intact_parse hp (unbroken_of_formatSource hp hvalid hf) hcheck
  have hv := PassSetup.isValid_of_config hvalid (config.paramsOf p.name) (parse source)
  rw [htext]
  rcases hpass with rfl | rfl
  · obtain ⟨herrors, hagain, hagrees, hrender⟩ := Split.settles hv hp hi
    refine ⟨herrors, ?_, fun hnewline => ?_⟩
    · rw [remarksBehind, if_pos rfl]
      exact hagrees
    · refine formatSource_of_rest herrors hagain hvalid hmem honly ?_
      rw [hnewline rfl]
      exact hrender
  · obtain ⟨herrors, hagain, hagrees, hrender⟩ := Columns.settles hv hp hi
    refine ⟨herrors, ?_, fun _ => ?_⟩
    · rw [remarksBehind, if_neg (by decide)]
      exact hagrees
    · exact formatSource_of_rest herrors hagain hvalid hmem honly (hrender _)

set_option maxRecDepth 100000 in
/-- A call with two comments is split, with one comment at its end. -/
theorem layout_settles_of_call :
    let source := "*** Test Cases ***\nT\n    Log    aaaaaaaaaa    bbbbbbbbbb    # one\n" ++
      "    ...    c    # two\n"
    let text := "*** Test Cases ***\nT\n    Log\n    ...    aaaaaaaaaa\n" ++
      "    ...    bbbbbbbbbb\n    ...    c    # one    # two\n"
    let d := Document.mapping [("lineLength", .number 20), ("passes", .mapping
      (Pass.all.map fun p => (p.name, .flag (p.name = Split.pass.name))))]
    let config := { FormatConfig.default with lineLength := 20 }.only Split.pass.name
    (parse source).errors = [] ∧ FormatConfig.read d = .ok config ∧
      (Pass.all.filter fun q => config.runs q.info).map Pass.name = [Split.pass.name] ∧
      (formatSource source config Pass.all).1 = .ok ⟨text, true, none⟩ ∧
      (parse text).errors = [] ∧
      (parse source).Agrees (Statement.Restates (remarksBehind Split.pass config)) (parse text) ∧
      (formatSource text config Pass.all).1 = .ok ⟨text, false, none⟩ := by
  intro source text d config
  have hc : FormatConfig.read d = .ok config := eq_ok_of_toOption (by decide +kernel)
  obtain ⟨hp, honly, hf, hnewline⟩ : (parse source).errors = [] ∧
      (Pass.all.filter fun q => config.runs q.info).map Pass.name = [Split.pass.name] ∧
      (formatSource source config Pass.all).1.toOption = some ⟨text, true, none⟩ ∧
      (parse text).newline = (parse source).newline := by
    decide +kernel
  have hf := eq_ok_of_toOption hf
  obtain ⟨herrors, hagrees, hagain⟩ := layout_settles hp hc (.inl rfl) honly hf
  exact ⟨hp, hc, honly, hf, herrors, hagrees, hagain fun _ => hnewline⟩

end

end RobotSuite
