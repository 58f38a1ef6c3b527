/-
# No comment is lost

Passes move, merge and drop statements, and write them in other lines.  What they drop holds no
comment: empty lines, tags and gaps, and headers of merged sections, whose comments become
statements (`MergeSections.permRemarks_pass`).  So no comment occurs less often behind a pass
than in front of it (`Pass.keepsComments_all`), but where long lines are split: there the
comments of a statement may become one (`Split.eachJoins_pass`).  Nor do passes write comments that
were not there (`NoneNew`).
-/

import Mathlib.Algebra.Order.BigOperators.Group.List
import Mathlib.Algebra.Order.Ring.Nat
import RobotSuite.Proofs.Format.DisabledRegions
import RobotSuite.Proofs.Format.Run
import RobotSuite.Proofs.Transform.Relations
import RobotSuite.Proofs.Tree.ValidSources

namespace RobotSuite

/-- The comments of some statements, in order. -/
def remarks (ss : List Statement) : List String := ss.flatMap fun s => commentTexts s.tokens

/-- Whether no comment of some statements occurs less often in others. -/
def NoneLost (a b : List Statement) : Prop := ∀ c, (remarks a).count c ≤ (remarks b).count c

section
variable {a b : List Statement}

@[simp] theorem remarks_nil : remarks [] = [] := rfl

@[simp] theorem remarks_cons (s : Statement) (ss : List Statement) :
    remarks (s :: ss) = commentTexts s.tokens ++ remarks ss := List.flatMap_cons

/-- The comments of statements, one behind the other. -/
@[simp] theorem remarks_append (a b : List Statement) :
    remarks (a ++ b) = remarks a ++ remarks b := List.flatMap_append

/-- The comments of parts, one behind the other. -/
theorem remarks_flatMap {α : Type} (statements : α → List Statement) (xs : List α) :
    remarks (xs.flatMap statements) = xs.flatMap fun x => remarks (statements x) :=
  List.flatMap_assoc

/-- Where the comments are the same none is lost. -/
theorem NoneLost.of_eq (h : remarks a = remarks b) : NoneLost a b := fun _ => by rw [h]

/-- Where comments change places only none is lost. -/
theorem NoneLost.of_perm (h : (remarks a).Perm (remarks b)) : NoneLost a b :=
  fun c => (h.count_eq c).le

/-- No comment is lost if none is in each step and each part. -/
theorem isLinear_noneLost : IsLinear NoneLost where
  refl _ _ := le_rfl
  trans h h' c := (h c).trans (h' c)
  append h h' c := by
    rw [remarks_append, remarks_append, List.count_append, List.count_append]
    exact Nat.add_le_add (h c) (h' c)

/-- Whether the comments of some statements are those of others, in order. -/
def SameRemarks (a b : List Statement) : Prop := remarks a = remarks b

/-- The comments are the same if they are in each step and each part. -/
theorem isLinear_sameRemarks : IsLinear SameRemarks where
  refl _ := rfl
  trans h h' := h.trans h'
  append h h' := by rw [SameRemarks, remarks_append, remarks_append, h, h']

/-- Parts with the same comments have the same comments together. -/
theorem SameRemarks.flatMap {α : Type} {f g : α → List Statement} {xs : List α}
    (h : ∀ x ∈ xs, SameRemarks (f x) (g x)) : SameRemarks (xs.flatMap f) (xs.flatMap g) := by
  rw [SameRemarks, remarks_flatMap, remarks_flatMap]
  exact List.flatMap_congr h

/-- Whether the comments of some statements are those of others, in any order. -/
def PermRemarks (a b : List Statement) : Prop := (remarks a).Perm (remarks b)

/-- The comments change places only if they do in each step and each part. -/
theorem isLinear_permRemarks : IsLinear PermRemarks where
  refl _ := .refl _
  trans h h' := h.trans h'
  append h h' := by
    rw [PermRemarks, remarks_append, remarks_append]
    exact h.append h'

/-- Whether each comment in the second list of statements is one of the first. -/
def NoneNew (a b : List Statement) : Prop := remarks b ⊆ remarks a

/-- Where the comments are the same none is new. -/
theorem NoneNew.of_eq (h : remarks a = remarks b) : NoneNew a b := by
  rw [NoneNew, h]
  exact List.Subset.refl _

/-- Where comments change places only none is new. -/
theorem NoneNew.of_perm (h : (remarks a).Perm (remarks b)) : NoneNew a b := h.symm.subset

/-- No comment is new if none is in each step and each part. -/
theorem isLinear_noneNew : IsLinear NoneNew where
  refl _ := List.Subset.refl _
  trans h h' := List.Subset.trans h' h
  append h h' := by
    rw [NoneNew, remarks_append, remarks_append]
    exact List.append_subset.2 ⟨List.subset_append_of_subset_left _ h,
      List.subset_append_of_subset_right _ h'⟩

end

/-! ## Passes -/

namespace Pass
variable {info : PassInfo}

/-- A pass behind which no comment occurs less often. -/
def KeepsComments (p : Pass) : Prop :=
  ∀ setup f, setup.IsValid → f.IsSound → (∀ s ∈ f.sections, leadsBlocks s.body) →
    NoneLost f.statements (p.apply setup f).tree.statements

/-- A pass that leaves related statements behind, in a sound file. -/
def Links (p : Pass) (R : List Statement → List Statement → Prop) : Prop :=
  ∀ setup f, setup.IsValid → f.IsSound → (∀ s ∈ f.sections, leadsBlocks s.body) →
    R f.statements (p.apply setup f).tree.statements

/-- A pass that links statements links them by less. -/
theorem Links.imp {p : Pass} {R R' : List Statement → List Statement → Prop} (h : p.Links R)
    (hR : ∀ {a b}, R a b → R' a b) : p.Links R' :=
  fun setup f hv hf hlead => hR (h setup f hv hf hlead)

/-- Statements in front of a pass and behind it are related if its decisions relate them. -/
theorem relates_apply {p : Pass} {R : List Statement → List Statement → Prop} (hR : IsLinear R)
    {setup : PassSetup} {f : File} (h : ∀ t, p.plan setup f = .ok t →
      t.Relates Statement.IsSound Statement.IsHeader R)
    (hf : f.IsSound) (hlead : ∀ s ∈ f.sections, leadsBlocks s.body) :
    R f.statements (p.apply setup f).tree.statements := by
  rw [apply]
  cases hplan : p.plan setup f with
  | error reason => exact hR.refl _
  | ok t => exact (h t hplan).run hf.sections hlead

/-- A pass over single statements relates statements to those that it puts in their place. -/
theorem relates_ofStatements {g : PassSetup → Scope → Statement → Decision Statement}
    {R : List Statement → List Statement → Prop} (hR : IsLinear R)
    (hp : (ofStatements info g).KeepsSound) {setup : PassSetup} (hv : setup.IsValid)
    (h : ∀ {kind sc s new}, g setup sc s = .put new → s.IsSound kind ∨ s.IsHeader kind →
      R [s] [new]) {f : File} {t : Transform} (hplan : (ofStatements info g).plan setup f = .ok t) :
    t.Relates Statement.IsSound Statement.IsHeader R := by
  have hkeeps := (hp setup f t hv hplan).1
  obtain rfl := Except.ok.inj hplan
  refine
    { keeps := hkeeps
      linear := hR
      statement := fun hput _ hs => ?_
      body := fun hput => by cases hput
      sect := fun hput => by cases hput
      file := fun hput => by cases hput }
  dsimp only at hput
  split at hput
  · cases hput
  · exact h hput hs

/-- A pass over single statements that keeps the comments of each. -/
theorem sameRemarks_ofStatements {g : PassSetup → Scope → Statement → Decision Statement}
    (hp : (ofStatements info g).KeepsSound)
    (h : ∀ {setup kind sc s new}, setup.IsValid → g setup sc s = .put new →
      s.IsSound kind ∨ s.IsHeader kind → commentTexts new.tokens = commentTexts s.tokens) :
    (ofStatements info g).Links SameRemarks := by
  intro setup f hv hf hlead
  refine relates_apply isLinear_sameRemarks
    (fun t => relates_ofStatements isLinear_sameRemarks hp hv ?_) hf hlead
  intro kind sc s new hput hs
  rw [SameRemarks, remarks_cons, remarks_cons, h hv hput hs]

end Pass

/-! ## Spelling and tags -/

/-- Data is no comment. -/
theorem isComment_of_isData {t : Token} (h : t.isData = true) : t.isComment = false := by
  cases hk : t.kind <;> simp_all [Token.isData, TokenKind.isData, Token.isComment]

/-- A token that is no comment adds none. -/
theorem commentTokens_cons_of_ne {t : Token} (h : t.isComment = false) (ts : List Token) :
    commentTokens (t :: ts) = commentTokens ts :=
  List.filter_cons_of_neg (by simp [h])

/-- A name that is spelled in another way is no comment. -/
theorem Spelling.commentTexts_rename (v : String) (ts : List Token) :
    commentTexts (rename v ts) = commentTexts ts := by
  induction ts with
  | nil => rfl
  | cons t ts ih =>
    rw [rename]
    split
    · rename_i hd
      have hnew : (t.withValue v).isComment = false := isComment_of_isData (t := t) hd
      rw [commentTexts, commentTexts, commentTokens_cons_of_ne hnew,
        commentTokens_cons_of_ne (isComment_of_isData hd)]
    · rw [← List.singleton_append, commentTexts_append, ih, ← commentTexts_append]
      rfl

/-- Spelling names in another way leaves all comments. -/
theorem Spelling.sameRemarks_respell {info : PassInfo}
    {canonical : Scope → Statement → Option String}
    (hp : (Pass.ofStatements info fun _ sc s =>
      .ofOption (respell (canonical sc s) s)).KeepsSound) :
    (Pass.ofStatements info fun _ sc s =>
      .ofOption (respell (canonical sc s) s)).Links SameRemarks := by
  refine Pass.sameRemarks_ofStatements hp fun _ h _ => ?_
  obtain ⟨v, -, -, rfl⟩ := respell_eq_some (Decision.ofOption_eq_put h)
  exact commentTexts_rename v _

namespace UniqueTags

/-- Unifying tags leaves all comments. -/
theorem sameRemarks_pass : pass.Links SameRemarks := by
  refine Pass.sameRemarks_ofStatements keepsSound_pass fun {setup kind sc s new} _ h hs => ?_
  have h := Decision.ofOption_eq_put h
  rcases hs with hs | hs
  · obtain ⟨rests, rfl, -, hleft⟩ := unify_eq_some hs h
    have hcomments := hleft.comments
    rw [flatten_splitLines] at hcomments
    exact congrArg (List.map (·.value)) hcomments
  · rcases type_of_unify h with ht | ht <;> simp [hs.type] at ht

end UniqueTags

/-! ## Gaps and columns -/

/-- The comments of a statement are those of its lines, however these are laid out. -/
theorem Laid.commentTexts_composeLines {header : Bool} {ts : List Token}
    (h : Laid header (splitLines ts)) (indent separator : String)
    (gapAt : List Token → Nat → String) :
    commentTexts (composeLines indent separator gapAt ts) = commentTexts ts := by
  have hline : ∀ l ∈ splitLines ts,
      commentTexts (composeLine indent (.ofLine l) separator (gapAt l)) = commentTexts l := by
    intro l hl
    obtain ⟨k, hw⟩ := h.written l hl
    rw [hw.fits_ofLine.commentTexts_composeLine, hw.commentTexts_ofLine]
  rw [composeLines, List.flatMap_def, commentTexts_flatten, List.flatMap_map,
    List.flatMap_congr hline, ← commentTexts_flatten, flatten_splitLines]

namespace Gaps

/-- Laying lines out leaves all comments. -/
theorem sameRemarks_pass : pass.Links SameRemarks := by
  refine Pass.sameRemarks_ofStatements keepsSound_pass fun _ h hs => ?_
  obtain ⟨header, hlaid⟩ : ∃ header, Laid header (splitLines _) :=
    hs.elim (fun hs => ⟨_, hs.laid⟩) fun hs => ⟨_, hs.laid⟩
  rcases space_eq_put h with ⟨ht, rfl⟩ | rfl
  · have hsound : _ := hs.resolve_right fun hs => by simp [hs.type] at ht
    obtain ⟨front, e, htokens, he⟩ := hlaid.getLast?
    rw [(hsound.texts_of_emptyLine ht).2]
    simp [Statement.withTokens, htokens, endingOf_concat he.kind, commentTexts, commentTokens,
      Token.isComment, he.kind]
  · exact hlaid.commentTexts_composeLines _ _ _

end Gaps

namespace Columns

/-- Aligning calls leaves all comments. -/
theorem sameRemarks_pass : pass.Links SameRemarks := by
  intro setup f hv hf hlead
  refine Pass.relates_apply isLinear_sameRemarks (fun t hplan => ?_) hf hlead
  have hkeeps := (keepsSound_pass setup f t hv hplan).1
  obtain rfl := Except.ok.inj hplan
  refine
    { keeps := hkeeps
      linear := isLinear_sameRemarks
      statement := fun hput => by cases hput
      body := ?_
      sect := fun hput => by cases hput
      file := fun hput => by cases hput }
  intro kind place header items new hput hitems
  obtain ⟨widths, g, rfl, hg⟩ := alignBody_eq_some (Decision.ofOption_eq_put hput)
  rw [unmark, unmark, bodyStatements_eq_flatMap, bodyStatements_eq_flatMap, List.flatMap_map,
    List.map_map, List.flatMap_map]
  refine .flatMap fun x hx => ?_
  have hitem := bodyHolds_iff.1 hitems x.1 (List.mem_map_of_mem hx)
  rcases hg x with heq | ⟨s, rfl, -, heq⟩
  · rw [Function.comp_apply, heq]
    exact isLinear_sameRemarks.refl _
  · rw [BodyItem.Holds] at hitem
    obtain ⟨gapAt, halign, -⟩ :=
      align_eq setup.config.separator widths (indentOf s.tokens) s.tokens
    rw [Function.comp_apply, heq, halign, BodyItem.statements, BodyItem.statements, SameRemarks,
      remarks_cons, remarks_cons]
    exact congrArg (· ++ _) (hitem.2.laid.commentTexts_composeLines _ _ _).symm

end Columns

/-! ## Line breaks at the end -/

/-- What a change of all elements but the last keeps of each, it keeps of the list. -/
theorem flatMap_front {α β : Type} {f : α → α} {g : α → List β} (h : ∀ x, g (f x) = g x)
    (xs : List α) : (xs.dropLast.map f ++ xs.getLast?.toList).flatMap g = xs.flatMap g := by
  rcases List.eq_nil_or_concat xs with rfl | ⟨front, x, rfl⟩
  · rfl
  · simp [List.flatMap_map, h]

/-! ## Empty lines -/

namespace EmptyLines

/-- The comments of items, if nothing is read off some that hold none. -/
theorem remarks_flatMap_eq {α : Type} {statements : α → List Statement} {xs : List α}
    {f : α → Option (List String)} (h : ∀ x ∈ xs, (f x).getD [] = remarks (statements x)) :
    remarks (xs.flatMap statements) = (xs.filterMap f).flatten := by
  induction xs with
  | nil => rfl
  | cons x xs ih =>
    rw [List.forall_mem_cons] at h
    rw [List.flatMap_cons, remarks_append, ih h.2, ← h.1]
    cases hx : f x with
    | none => rw [List.filterMap_cons_none hx, Option.getD_none, List.nil_append]
    | some cs => rw [List.filterMap_cons_some hx, Option.getD_some, List.flatten_cons]

/-- The comments of an item, unless it is an empty line. -/
def commentsOf {α : Type} (isEmpty : α → Bool) (statements : α → List Statement) (x : α) :
    Option (List String) := if isEmpty x then none else some (remarks (statements x))

/-- Nothing but empty lines, which hold no comments, goes and comes. -/
theorem sameRemarks_of_filterMap {α : Type} (isEmpty : α → Bool) {statements : α → List Statement}
    {xs ys : List α} (h : ys.filterMap (commentsOf isEmpty statements) =
      xs.filterMap (commentsOf isEmpty statements))
    (hxs : ∀ x ∈ xs, isEmpty x = true → remarks (statements x) = [])
    (hys : ∀ y ∈ ys, isEmpty y = true → remarks (statements y) = []) :
    SameRemarks (xs.flatMap statements) (ys.flatMap statements) := by
  have hread {zs : List α} (hz : ∀ z ∈ zs, isEmpty z = true → remarks (statements z) = []) :
      ∀ z ∈ zs, (commentsOf isEmpty statements z).getD [] = remarks (statements z) := by
    intro z hmem
    rw [commentsOf]
    split
    · rename_i he
      rw [hz z hmem he]
      rfl
    · rfl
  rw [SameRemarks, remarks_flatMap_eq (hread hxs), remarks_flatMap_eq (hread hys), h]

/-- Empty lines of a sound tree hold no comments. -/
theorem remarks_of_emptyLine {kind : SectionKind} {s : Statement} (h : s.IsSound kind)
    (he : s.type = .emptyLine) : remarks [s] = [] := by
  rw [remarks_cons, (h.texts_of_emptyLine he).2]
  rfl

/-- An empty line in a body holds no comment. -/
theorem remarks_of_isEmptyItem {kind : SectionKind} {i : BodyItem}
    (h : i.Holds (Statement.IsSound kind)) (he : isEmptyItem i = true) :
    remarks i.statements = [] := by
  cases i with
  | control c => cases he
  | statement s =>
    rw [BodyItem.Holds] at h
    rw [BodyItem.statements]
    exact remarks_of_emptyLine h.2 (of_decide_eq_true he)

/-- An empty line in a section holds no comment. -/
theorem remarks_of_isEmptySectionItem {kind : SectionKind} {i : SectionItem}
    (h : i.Holds (Statement.IsSound kind) kind) (he : isEmptySectionItem i = true) :
    remarks i.statements = [] := by
  cases i with
  | block b => cases he
  | statement s => exact remarks_of_emptyLine h.2 (of_decide_eq_true he)

/-- Spacing lines leaves all comments. -/
theorem sameRemarks_pass : pass.Links SameRemarks := by
  intro setup f hv hf hlead
  refine Pass.relates_apply isLinear_sameRemarks (fun t hplan => ?_) hf hlead
  have hkeeps := (keepsSound_pass setup f t hv hplan).1
  obtain rfl := Except.ok.inj hplan
  refine
    { keeps := hkeeps
      linear := isLinear_sameRemarks
      statement := fun hput _ _ => ?_
      body := ?_
      sect := ?_
      file := fun hput => by cases hput }
  · rw [statement_eq_put hput, SameRemarks, remarks_cons, remarks_cons, (texts_terminate _ _).2]
  · intro kind place header items new hput hitems
    have hnew := bodyHolds_iff.1 (hkeeps.body hput hitems)
    rw [bodyHolds_iff] at hitems
    rw [bodyStatements_eq_flatMap, bodyStatements_eq_flatMap]
    refine sameRemarks_of_filterMap isEmptyItem
      (filterMap_leaveBody (fun s hs => ?_) hput) (fun i hi => remarks_of_isEmptyItem (hitems i hi))
      fun i hi => remarks_of_isEmptyItem (hnew i hi)
    exact if_pos (decide_eq_true hs)
  · intro kind place header items new hput hk hitems hl
    have hnew := hkeeps.sect hput hk hitems
    refine sameRemarks_of_filterMap isEmptySectionItem
      (filterMap_spaceSection (fun s hs => ?_) hput hl)
      (fun i hi => remarks_of_isEmptySectionItem (hitems i hi))
      fun i hi => remarks_of_isEmptySectionItem (hnew i hi)
    exact if_pos (decide_eq_true hs)

end EmptyLines

/-! ## Settings in order -/

namespace OrderSettings

/-- Settings and the comments above them are collected, and all other comments. -/
theorem count_collect (c : String) (pending : List Statement) {ss : List Statement}
    (h : ∀ s ∈ ss, s.type = .emptyLine → commentTexts s.tokens = []) :
    (remarks (pending ++ ss)).count c = (remarks (collect pending ss).1).count c +
      (remarks ((collect pending ss).2.flatMap (·.statements))).count c := by
  induction ss generalizing pending with
  | nil => simp [collect]
  | cons s ss ih =>
    rw [List.forall_mem_cons] at h
    rw [collect]
    split
    · rename_i he
      rw [← ih _ h.2]
      simp [h.1 he]
    · split
      · split
        · rw [← ih _ h.2, List.append_assoc]
          rfl
        · have hrest := ih pending h.2
          simp only [remarks_append, remarks_cons, List.count_append] at hrest ⊢
          omega
      · have hrest := ih [] h.2
        simp only [remarks_append, remarks_cons, List.count_append, remarks_nil, List.flatMap_cons,
          SettingUnit.statements, List.nil_append, List.append_nil] at hrest ⊢
        omega

/-- Each unit is in one of the groups at least. -/
theorem count_le_groups (c : String) {names : List String} {placed : SettingUnit → String}
    (units : List SettingUnit) (h : ∀ u ∈ units, placed u ∈ names) :
    (remarks (units.flatMap (·.statements))).count c ≤ (names.map fun group =>
      (remarks ((units.filter fun u => placed u = group).flatMap (·.statements))).count c).sum := by
  induction units with
  | nil => exact Nat.zero_le _
  | cons u units ih =>
    rw [List.forall_mem_cons] at h
    have hcons (group : String) :
        (remarks (((u :: units).filter fun u => placed u = group).flatMap (·.statements))).count c =
          (if placed u = group then (remarks u.statements).count c else 0) +
          (remarks ((units.filter fun u => placed u = group).flatMap (·.statements))).count c := by
      rw [List.filter_cons]
      split <;> rename_i hg <;> simp_all
    simp only [hcons, List.sum_map_add]
    rw [List.flatMap_cons, remarks_append, List.count_append]
    refine Nat.add_le_add ?_ (ih h.2)
    have hmem : (remarks u.statements).count c ∈ names.map fun group =>
        if placed u = group then (remarks u.statements).count c else 0 :=
      List.mem_map.2 ⟨placed u, h.1, if_pos rfl⟩
    exact List.single_le_sum (fun _ _ => Nat.zero_le _) _ hmem

/-- Groups that are put together hold their comments. -/
theorem remarks_joinGroups (newline : String) (front : List Statement)
    (groups : List (List SettingUnit)) : remarks (joinGroups newline front groups) =
      remarks front ++ groups.flatMap fun units => remarks (units.flatMap (·.statements)) := by
  induction groups generalizing front with
  | nil => simp [joinGroups]
  | cons units groups ih =>
    have hempty : remarks (if front.isEmpty then [] else [Statement.emptyLine newline]) = [] := by
      split <;> rfl
    rw [joinGroups]
    split
    · rename_i hu
      rw [List.isEmpty_iff.1 hu, ih]
      rfl
    · rw [ih, List.flatMap_cons, remarks_append, remarks_append, hempty]
      simp

/-- A line break at the end is no comment. -/
theorem remarks_terminateFront (newline : String) (ss : List Statement) :
    remarks (terminateFront newline ss) = remarks ss :=
  flatMap_front (f := Statement.terminate newline) (g := fun s : Statement => commentTexts s.tokens)
    (fun s => (texts_terminate newline s).2) ss

/-- The units that belong to a group. -/
theorem perm_members (names : List String) (units : List SettingUnit) (group : String) :
    (members names units group).Perm (units.filter fun u =>
      (if names.contains u.group then u.group else otherGroup) = group) :=
  List.mergeSort_perm _ _

/-- Each unit is in one of the groups. -/
theorem mem_allGroups (order : List String) (u : SettingUnit) :
    (if (allGroups order).contains u.group then u.group else otherGroup) ∈ allGroups order := by
  split
  · rename_i h
    exact List.contains_iff_mem.1 h
  · exact List.mem_append_right _ List.mem_cons_self

/-- **Settings in order hold all the comments.** -/
theorem noneLost_arrange (order : List String) (newline : String) {ss : List Statement}
    (h : ∀ s ∈ ss, s.type = .emptyLine → commentTexts s.tokens = []) :
    NoneLost ss (arrange order newline ss) := by
  intro c
  rw [arrange]
  generalize hempty : (fun s : Statement => decide (s.type = .emptyLine)) = isEmpty
  have hkept : ∀ s ∈ Text.dropEndWhile isEmpty ss,
      s.type = .emptyLine → commentTexts s.tokens = [] :=
    fun s hs => h s (Text.mem_of_mem_dropEndWhile hs)
  have hcollect := count_collect c [] hkept
  have hgroups := count_le_groups c (collect [] (Text.dropEndWhile isEmpty ss)).2
    fun u _ => mem_allGroups order u
  conv_lhs => rw [← Text.dropEndWhile_append_takeEndWhile isEmpty ss]
  have hmembers (group : String) :
      ((List.count c) ∘ fun group => remarks (((members (allGroups order)
        (collect [] (Text.dropEndWhile isEmpty ss)).2) group).flatMap (·.statements))) group =
      (remarks (((collect [] (Text.dropEndWhile isEmpty ss)).2.filter fun u =>
        (if (allGroups order).contains u.group then u.group else otherGroup) = group).flatMap
          (·.statements))).count c :=
    (((perm_members _ _ group).flatMap_right _).flatMap_right _).count_eq c
  rw [remarks_terminateFront, remarks_append, remarks_append, remarks_joinGroups, List.flatMap_map,
    List.count_append, List.count_append, List.count_append, List.count_flatMap,
    List.map_congr_left fun group _ => hmembers group]
  simp only [List.nil_append] at hcollect
  omega

/-- A label is no comment. -/
theorem remarks_labelRepeated (order : List String) (first : Nat) (ss : List Statement) :
    remarks (labelRepeated order first ss) = remarks ss := by
  rw [labelRepeated]
  split
  · rfl
  · have hlabel : ∀ x : Statement × Nat, commentTexts (if x.1.label.isSome then x.1 else
        { x.1 with label := some (first + x.2) }).tokens = commentTexts x.1.tokens := by
      intro x
      split <;> rfl
    conv_rhs => rw [← List.zipIdx_map_fst 0 ss]
    rw [remarks, remarks, List.flatMap_map, List.flatMap_map]
    exact List.flatMap_congr fun x _ => hlabel x

/-- Sections in which settings are put in order hold statements only. -/
theorem itemsStatements_of_leave {setup : PassSetup} {first : Nat} {place : Place}
    {header : Option Statement} {items new : List SectionItem}
    (h : leave setup first place header items = some new) :
    itemsStatements items = items.filterMap SectionItem.statement? := by
  have hblocks : ∀ b, .block b ∉ items := fun b hb => by
    rw [leave_eq_none (.inr ⟨b, hb⟩)] at h
    cases h
  clear h
  induction items with
  | nil => rfl
  | cons item items ih =>
    have hrest := ih fun b hb => hblocks b (List.mem_cons_of_mem _ hb)
    cases item with
    | statement s => exact congrArg (s :: ·) hrest
    | block b => exact absurd List.mem_cons_self (hblocks b)

/-- **No comment is new in settings in order.** -/
theorem noneNew_arrange (order : List String) (newline : String) (ss : List Statement) :
    NoneNew ss (arrange order newline ss) := by
  have hmem : ∀ s ∈ arrange order newline ss, commentTexts s.tokens ⊆ remarks ss := by
    refine forall_arrange (List.nil_subset _)
      (fun s hs => by rwa [(texts_terminate _ s).2]) fun s hs => ?_
    exact fun c hc => List.mem_flatMap.2 ⟨s, hs, hc⟩
  intro c hc
  obtain ⟨s, hs, hc⟩ := List.mem_flatMap.1 hc
  exact hmem s hs hc

/-- A relation of settings to the settings in order, which holds where the comments are the same,
holds of the statements in front of the pass and behind it. -/
theorem links_pass {R : List Statement → List Statement → Prop} (hR : IsLinear R)
    (hsame : ∀ {a b}, remarks a = remarks b → R a b)
    (harrange : ∀ order newline ss, (∀ s ∈ ss, s.type = .emptyLine → commentTexts s.tokens = []) →
      R ss (arrange order newline ss)) : pass.Links R := by
  intro setup f hv hf hlead
  refine Pass.relates_apply hR (fun t hplan => ?_) hf hlead
  have hkeeps := (keepsSound_pass setup f t hv hplan).1
  obtain rfl := Except.ok.inj hplan
  refine
    { keeps := hkeeps
      linear := hR
      statement := fun hput => by cases hput
      body := fun hput => by cases hput
      sect := ?_
      file := fun hput => by cases hput }
  intro kind place header items new hput hk hitems hl
  obtain ⟨items', hleave, rfl⟩ := Option.map_eq_some_iff.1 (Decision.ofOption_eq_put hput)
  obtain ⟨order, label, rfl⟩ := leave_eq_some hleave
  have hempty : ∀ s ∈ (unmark items).filterMap SectionItem.statement?, s.type = .emptyLine →
      commentTexts s.tokens = [] := by
    intro s hs ht
    obtain ⟨item, hitem, hstatement⟩ := List.mem_filterMap.1 hs
    have hold := hitems item hitem
    cases item with
    | block b => cases hstatement
    | statement r =>
      obtain rfl : r = s := Option.some.inj hstatement
      exact (hold.2.texts_of_emptyLine ht).2
  have hstatements (ss : List Statement) :
      itemsStatements (unmark ((ss.map SectionItem.statement).map fun item => (item, false))) =
        ss := by
    simp [itemsStatements, unmark, List.flatMap_map, SectionItem.statements]
  rw [itemsStatements_of_leave hleave, hstatements]
  refine hR.trans (hsame (remarks_labelRepeated order label _).symm)
    (harrange order _ _ ?_)
  exact forall_labelRepeated (fun s n hs => hs) hempty

end OrderSettings

/-! ## Merged sections -/

/-- Statements that get line breaks keep their comments. -/
theorem Completed.remarks {newline : String} {a b : List Statement} (h : Completed newline a b) :
    remarks b = remarks a := by
  induction h with
  | nil => rfl
  | cons h _ ih =>
    rw [remarks_cons, remarks_cons, ih]
    rcases h with rfl | rfl
    · rfl
    · rw [(texts_terminate _ _).2]

namespace MergeSections

/-- The comment of a header that is dropped becomes a statement. -/
theorem remarks_headerComment (newline : String) {s : Section} (h : s.IsSound) :
    remarks (itemsStatements (headerComment newline s)) = remarks s.header.toList := by
  cases hh : s.header with
  | none => simp [headerComment, hh, itemsStatements]
  | some header =>
    have hlaid := (h.header header hh).laid
    have hsingle : (commentTokens header.tokens).length ≤ 1 := by
      generalize hlines : splitLines header.tokens = lines at hlaid
      cases hlaid with
      | header hw =>
        rw [← flatten_splitLines header.tokens, hlines, List.flatten_singleton]
        exact hw.holdsRemark.single
    have hcomment : headerComment newline s = (commentTokens header.tokens).head?.toList.map
        fun c => .statement (.create .comment [c, .create .eol newline]) := by
      rw [headerComment, hh]
      dsimp only [Option.map_some, Option.bind_some]
      cases (commentTokens header.tokens).head? <;> rfl
    rw [hcomment, Option.toList_some, remarks_cons, remarks_nil, List.append_nil, commentTexts]
    generalize hcs : commentTokens header.tokens = cs at hsingle
    cases cs with
    | nil => rfl
    | cons c cs =>
      obtain rfl : cs = [] := by simpa using hsingle
      have hc : c.isComment = true :=
        (List.mem_filter.1 (hcs ▸ List.mem_cons_self : c ∈ commentTokens header.tokens)).2
      have htokens : commentTokens [c, .create .eol newline] = [c] := by
        rw [commentTokens, List.filter_cons_of_pos hc]
        rfl
      show commentTexts [c, .create .eol newline] ++ [] = [c.value]
      rw [commentTexts, htokens]
      rfl

/-- **Merged sections hold the comments of both.** -/
theorem remarks_mergeInto (newline : String) (t : Section) {s : Section} (h : s.IsSound) :
    remarks (mergeInto newline t s).statements = remarks (t.statements ++ s.statements) := by
  have hbase := (t.completed_terminate newline).remarks
  have hadded := remarks_headerComment newline h
  rw [Section.statements, remarks_append] at hbase
  rw [mergeInto, Section.statements, itemsStatements_appendItems, remarks_append, remarks_append,
    ← List.append_assoc, hbase, itemsStatements, List.flatMap_append, remarks_append,
    ← itemsStatements, hadded, remarks_append, Section.statements.eq_def s, remarks_append]
  rfl

/-- A section that is added keeps its comments, that of its header among them. -/
theorem permRemarks_addSection (newline : String) (merged : List Section) {s : Section}
    (h : s.IsSound) : PermRemarks (merged.flatMap Section.statements ++ s.statements)
      ((addSection newline merged s).flatMap Section.statements) := by
  induction merged with
  | nil => exact .of_eq (by simp [addSection])
  | cons t ts ih =>
    rw [addSection]
    split
    · rw [PermRemarks, List.flatMap_cons, List.flatMap_cons, remarks_append, remarks_append,
        remarks_append, remarks_mergeInto newline t h, remarks_append, List.append_assoc,
        List.append_assoc]
      exact List.perm_append_comm.append_left _
    · rw [List.flatMap_cons, List.flatMap_cons, List.append_assoc]
      exact isLinear_permRemarks.append (.refl _) ih

/-- **Merged sections in order hold the comments of the sections.** -/
theorem permRemarks_arrange {order : List String} {newline : String} {ss new : List Section}
    (h : arrange order newline ss = some new) (hs : ∀ s ∈ ss, s.IsSound) :
    PermRemarks (ss.flatMap Section.statements) (new.flatMap Section.statements) := by
  have hfold {rest : List Section} (hr : ∀ s ∈ rest, s.IsSound) (merged : List Section) :
      PermRemarks ((merged ++ rest).flatMap Section.statements)
        ((rest.foldl (addSection newline) merged).flatMap Section.statements) := by
    induction rest generalizing merged with
    | nil => exact .of_eq (by rw [List.append_nil]; rfl)
    | cons r rest ih =>
      rw [List.forall_mem_cons] at hr
      refine isLinear_permRemarks.trans ?_ (ih hr.2 _)
      rw [List.append_cons, List.flatMap_append, List.flatMap_append, List.flatMap_append,
        List.flatMap_singleton]
      exact isLinear_permRemarks.append (permRemarks_addSection newline merged hr.1) (.of_eq rfl)
  have hlead : (splitLead ss).1 ++ (splitLead ss).2 = ss := by
    unfold splitLead
    split
    · rfl
    · split <;> rfl
  have hfront (ss : List Section) : remarks ((terminateFront newline ss).flatMap
      Section.statements) = remarks (ss.flatMap Section.statements) := by
    rw [remarks_flatMap, remarks_flatMap]
    exact flatMap_front (fun s => (s.completed_terminate newline).remarks) ss
  rw [arrange] at h
  dsimp only at h
  split at h
  · cases h
  · obtain rfl := Option.some.inj h
    refine isLinear_permRemarks.trans ?_ (.of_eq (hfront _).symm)
    conv_lhs => rw [← hlead]
    rw [List.flatMap_append, List.flatMap_append]
    refine isLinear_permRemarks.append (.of_eq rfl) ?_
    have hrest := @hfold (splitLead ss).2
      (fun s hmem => hs s (hlead ▸ List.mem_append_right _ hmem)) []
    refine isLinear_permRemarks.trans hrest ?_
    exact ((List.mergeSort_perm _ _).symm.flatMap_right _).flatMap_right _

/-- Merging sections moves comments only. -/
theorem permRemarks_pass : pass.Links PermRemarks := by
  intro setup f hv hf hlead
  refine Pass.relates_apply isLinear_permRemarks (fun t hplan => ?_) hf hlead
  have hkeeps := (keepsSound_pass setup f t hv hplan).1
  obtain rfl := Except.ok.inj hplan
  refine
    { keeps := hkeeps
      linear := isLinear_permRemarks
      statement := fun hput => by cases hput
      body := fun hput => by cases hput
      sect := fun hput => by cases hput
      file := fun hput hs => ?_ }
  dsimp only at hput
  split at hput
  · cases hput
  · exact permRemarks_arrange (Decision.ofOption_eq_put hput) hs

end MergeSections

/-! ## Split lines -/

/-- Whether a statement has the comments of another, or these put together as one. -/
def JoinsComments (separator : String) (s new : Statement) : Prop :=
  commentTexts new.tokens = commentTexts s.tokens ∨ commentTexts s.tokens ≠ [] ∧
    commentTexts new.tokens = [separator.intercalate (commentTexts s.tokens)]

/-- Comments that are joined twice are joined. -/
theorem JoinsComments.trans {separator : String} {a b c : Statement}
    (h : JoinsComments separator a b) (h' : JoinsComments separator b c) :
    JoinsComments separator a c := by
  rcases h with h | ⟨hne, h⟩
  · rwa [JoinsComments, h] at h'
  · refine .inr ⟨hne, ?_⟩
    rcases h' with h' | ⟨-, h'⟩
    · rw [h', h]
    · rw [h', h]
      rfl

/-- Statements stay in their order, each with its comments or with these as one. -/
abbrev EachJoins (separator : String) : List Statement → List Statement → Prop :=
  List.Forall₂ (JoinsComments separator)

/-- Comments are joined in statements if they are in each step and each part. -/
theorem isLinear_eachJoins (separator : String) : IsLinear (EachJoins separator) where
  refl _ := List.forall₂_same.2 fun _ _ => .inl rfl
  trans {a b c} h h' := by
    induction h generalizing c with
    | nil => exact h'
    | cons hab _ ih =>
      cases h' with
      | cons hbc hrest => exact .cons (hab.trans hbc) (ih hrest)
  append h h' := List.rel_append h h'

/-- **Where long lines are split, each statement keeps its comments, or has them as one.** -/
theorem Split.eachJoins_pass {setup : PassSetup} {f : File} (hv : setup.IsValid) (hf : f.IsSound)
    (hlead : ∀ s ∈ f.sections, leadsBlocks s.body) :
    EachJoins setup.config.separator f.statements (pass.apply setup f).tree.statements := by
  have hR := isLinear_eachJoins setup.config.separator
  refine Pass.relates_apply hR (fun t hplan => Pass.relates_ofStatements hR keepsSound_pass hv ?_
    hplan) hf hlead
  intro kind sc s new hput hs
  obtain ⟨size, everyArg, hsize, rfl⟩ := split_eq_some (Decision.ofOption_eq_put hput)
  have hsound := hs.resolve_right fun hs => by simp [headSize, hs.type] at hsize
  obtain ⟨-, hcomments⟩ := texts_splitTokens everyArg hv hsound hsize
  refine .cons ?_ .nil
  by_cases hc : commentTexts s.tokens = []
  · refine .inl ?_
    rw [if_pos hc] at hcomments
    exact hcomments.trans hc.symm
  · refine .inr ⟨hc, ?_⟩
    rw [if_neg hc] at hcomments
    exact hcomments

/-! ## All passes -/

/-- No pass but the one that splits lines loses a comment. -/
theorem Pass.keepsComments_all : ∀ p ∈ Pass.all, p.name ≠ Split.info.name → p.KeepsComments := by
  intro p hp hne
  simp only [Pass.all, List.mem_cons, List.not_mem_nil, or_false] at hp
  rcases hp with rfl | rfl | rfl | rfl | rfl | rfl | rfl | rfl | rfl
  · exact MergeSections.permRemarks_pass.imp .of_perm
  · exact OrderSettings.links_pass isLinear_noneLost .of_eq OrderSettings.noneLost_arrange
  · exact (Spelling.sameRemarks_respell Spelling.keepsSound_headerPass).imp .of_eq
  · exact (Spelling.sameRemarks_respell Spelling.keepsSound_settingPass).imp .of_eq
  · exact UniqueTags.sameRemarks_pass.imp .of_eq
  · exact EmptyLines.sameRemarks_pass.imp .of_eq
  · exact Gaps.sameRemarks_pass.imp .of_eq
  · exact absurd rfl hne
  · exact Columns.sameRemarks_pass.imp .of_eq

/-- The comments of a file, in order. -/
def File.comments (f : File) : List String := remarks f.statements

/-- A model in which comments are safe: it is sound, and statements stand in front of blocks. -/
structure File.IsOrderly (f : File) : Prop where
  sound : f.IsSound
  leads : ∀ s ∈ f.sections, leadsBlocks s.body

/-- A file stays orderly behind a pass. -/
theorem File.IsOrderly.apply {f : File} (h : f.IsOrderly) {setup : PassSetup} {p : Pass}
    (hv : setup.IsValid) (hp : p ∈ Pass.all) : (p.apply setup f).tree.IsOrderly := by
  refine ⟨(Pass.keepsSound_all p hp).apply hv h.sound, ?_⟩
  rw [Pass.apply]
  cases p.plan setup f with
  | error reason => exact h.leads
  | ok t => exact t.leadsBlocks_run h.leads

section
variable {config : FormatConfig} {f : File} {passes : List Pass}

/-- A file stays orderly behind passes. -/
theorem orderly_runPasses (hc : config.IsValid) (hp : ∀ p ∈ passes, p ∈ Pass.all)
    (h : f.IsOrderly) : (runPasses config f passes).IsOrderly := by
  induction passes generalizing f with
  | nil => exact h
  | cons p passes ih =>
    rw [List.forall_mem_cons] at hp
    exact ih hp.2 (h.apply (PassSetup.isValid_of_config hc _ f) hp.1)

/-- The last of some passes runs behind the others. -/
theorem runPasses_concat (config : FormatConfig) (f : File) (front : List Pass) (p : Pass) :
    runPasses config f (front ++ [p]) =
      (p.apply ⟨config, config.paramsOf p.name, (runPasses config f front).newline.text⟩
        (runPasses config f front)).tree := by
  rw [runPasses, List.foldl_concat]
  rfl

end

section
variable {source : String} {d : Document} {config : FormatConfig} {passes : List Pass}

/-- **No comment is lost.**  Whatever passes run over a source that is read without a defect, and
whatever the configuration says, no pass makes a comment occur less often, but that the comments of
a statement whose lines are split may become one: their texts with the separator between them. -/
theorem comments_kept (hp : (parse source).errors = []) (hc : FormatConfig.read d = .ok config)
    (hpasses : ∀ p ∈ passes, p ∈ Pass.all) : ∀ front p, front ++ [p] <+: passes →
      let before := runPasses config (parse source) front
      let after := runPasses config (parse source) (front ++ [p])
      (p.name ≠ Split.info.name → ∀ c, before.comments.count c ≤ after.comments.count c) ∧
        (p.name = Split.info.name →
          EachJoins config.separator before.statements after.statements) := by
  intro front p hfront
  dsimp only
  have hvalid := FormatConfig.isValid_of_read hc
  have hfronts : ∀ q ∈ front, q ∈ Pass.all :=
    fun q hq => hpasses q (hfront.subset (List.mem_append_left _ hq))
  have horderly := orderly_runPasses hvalid hfronts ⟨sound_parse hp, (parse_sections source).1⟩
  have hp := hpasses p (hfront.subset (List.mem_append_right _ List.mem_cons_self))
  rw [runPasses_concat]
  have hsetup := PassSetup.isValid_of_config hvalid (config.paramsOf p.name)
    (runPasses config (parse source) front)
  refine ⟨fun hne => ?_, fun heq => ?_⟩
  · exact Pass.keepsComments_all p hp hne _ _ hsetup horderly.sound horderly.leads
  · simp only [Pass.all, List.mem_cons, List.not_mem_nil, or_false] at hp
    rcases hp with rfl | rfl | rfl | rfl | rfl | rfl | rfl | rfl | rfl
    case inr.inr.inr.inr.inr.inr.inr.inl =>
      exact Split.eachJoins_pass hsetup horderly.sound horderly.leads
    all_goals exact absurd heq (by decide)

set_option maxRecDepth 100000 in
/-- A section is merged into the first, and its comment goes along; then a keyword call is written
in one line, with its two comments as one. -/
theorem comments_kept_of_two_sections :
    let source := "*** Test Cases ***    # one\nA\n    Log    abcdefgh    # x\n" ++
      "    ...    ij    # y\n*** Test Cases ***    # two\n\nB\n    Log    # x\n"
    let d := Document.mapping [("lineLength", .number 16)]
    let config := { FormatConfig.default with lineLength := 16 }
    let merged := runPasses config (parse source) [MergeSections.pass]
    let split := runPasses config (parse source) [MergeSections.pass, Split.pass]
    (parse source).errors = [] ∧ FormatConfig.read d = .ok config ∧
      (∀ p ∈ [MergeSections.pass, Split.pass], p ∈ Pass.all) ∧
      (∀ c, (parse source).comments.count c ≤ merged.comments.count c) ∧
      EachJoins "    " merged.statements split.statements ∧
      (parse source).comments = ["# one", "# x", "# y", "# two", "# x"] ∧
      split.comments = ["# one", "# x    # y", "# two", "# x"] := by
  intro source d config merged split
  have hc : FormatConfig.read d = .ok config := by decide +kernel
  obtain ⟨hp, hcomments, hsplit⟩ : (parse source).errors = [] ∧
      (parse source).comments = ["# one", "# x", "# y", "# two", "# x"] ∧
      split.comments = ["# one", "# x    # y", "# two", "# x"] := by
    decide +kernel
  have hpasses : ∀ p ∈ [MergeSections.pass, Split.pass], p ∈ Pass.all := by simp [Pass.all]
  have hkept := comments_kept hp hc hpasses
  exact ⟨hp, hc, hpasses, (hkept [] MergeSections.pass ⟨[Split.pass], rfl⟩).1 (by decide),
    (hkept [MergeSections.pass] Split.pass List.prefix_rfl).2 rfl, hcomments, hsplit⟩

end

end RobotSuite
