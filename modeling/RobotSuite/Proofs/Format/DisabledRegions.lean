/-
# Passes that heed directives

Each pass but the one that merges sections leaves alone what stands behind a directive that
switches it off (`Pass.freezes_all`).  Passes over single statements look at the scope of each of
them, the ordering of settings gives up a section with such a directive, and calls in columns as
well as empty lines go by the marks of the walk.  Only the empty lines between blocks are put
somewhere without regard to marks: in front of the comments that close a block.
-/

import Mathlib.Data.List.Infix
import Mathlib.Data.List.TakeWhile
import RobotSuite.Format.Registry
import RobotSuite.Proofs.Format.EmptyLines.Pass
import RobotSuite.Proofs.Format.Layout.Passes
import RobotSuite.Proofs.Format.Run
import RobotSuite.Proofs.Transform.FrozenRegions
import RobotSuite.Proofs.Tree.ValidSources

namespace RobotSuite

/-- A pass whose transforms heed directives. -/
def Pass.Freezes (p : Pass) (between : PassSetup → BlockType → Nat) : Prop :=
  ∀ setup f, ∃ t, p.plan setup f = .ok t ∧ t.name = p.name ∧ t.Freezes (between setup)

/-- A pass over single statements that looks at their scopes heeds directives. -/
theorem Pass.freezes_ofStatements (info : PassInfo)
    (g : PassSetup → Scope → Statement → Decision Statement)
    (between : PassSetup → BlockType → Nat) :
    (ofStatements info g).Freezes between := by
  intro setup f
  refine ⟨_, rfl, rfl, ?_⟩
  exact
    { statement := fun hdis => if_pos hdis
      marked := fun _ => rfl
      body := fun h => by cases h
      controls := fun h => by cases h
      sect := fun h => by cases h
      blocks := fun h => by cases h
      file := rfl }

/-! ## Settings in order -/

namespace OrderSettings

/-- A section with a directive that switches the pass off, or with blocks, is left alone. -/
theorem leave_eq_none {setup : PassSetup} {first : Nat} {place : Place} {header : Option Statement}
    {items : List SectionItem} (h : (∃ s, .statement s ∈ items ∧ s.type = .comment ∧
      s.directive?.any (·.disables info.name) = true) ∨ ∃ b, .block b ∈ items) :
    leave setup first place header items = none := by
  rw [leave]
  refine if_neg ?_
  rw [Option.any_eq_true]
  rintro ⟨sect, -, happlies⟩
  simp only [Bool.and_eq_true, Bool.not_eq_true'] at happlies
  obtain ⟨⟨⟨-, hsect⟩, -⟩, hblocks⟩ := happlies
  rcases h with ⟨s, hmem, hs, hd⟩ | ⟨b, hmem⟩
  · rw [Section.disables, Bool.or_eq_false_iff, List.any_eq_false] at hsect
    refine hsect.2 s (List.mem_filterMap.2 ⟨_, hmem, rfl⟩) ?_
    simp [hs, hd]
  · exact List.any_eq_false.1 hblocks _ hmem rfl

/-- The pass that orders settings heeds directives. -/
theorem freezes_pass (between : PassSetup → BlockType → Nat) : pass.Freezes between := by
  intro setup f
  refine ⟨_, rfl, rfl, ?_⟩
  refine
    { statement := fun _ => rfl
      marked := fun _ => rfl
      body := fun h => by cases h
      controls := fun h => by cases h
      sect := ?_
      blocks := ?_
      file := rfl }
  · intro place header front region back new h _ hr _
    obtain ⟨s, rest, hregion, hs, hd, -⟩ := hr.sectionItems
    have hmem : .statement s ∈ unmark (front ++ region ++ back) := by
      have : .statement s ∈ unmark region := by simp [hregion]
      simp only [unmark, List.map_append, List.mem_append]
      exact .inl (.inr this)
    obtain ⟨new, hnew, -⟩ := Option.map_eq_some_iff.1 (Decision.ofOption_eq_put h)
    rw [leave_eq_none (.inl ⟨s, hmem, hs, hd⟩)] at hnew
    cases hnew
  · intro place header items new h _
    obtain ⟨new, hnew, rfl⟩ := Option.map_eq_some_iff.1 (Decision.ofOption_eq_put h)
    have hnone : (unmark items).filterMap SectionItem.block? = [] := by
      rw [List.filterMap_eq_nil_iff]
      intro item hmem
      cases item with
      | statement s => rfl
      | block b =>
        rw [leave_eq_none (.inr ⟨b, hmem⟩)] at hnew
        cases hnew
    obtain ⟨order, label, rfl⟩ := leave_eq_some hnew
    rw [hnone, List.filterMap_eq_nil_iff]
    intro item hmem
    obtain ⟨x, hx, rfl⟩ := List.mem_map.1 hmem
    obtain ⟨i, hi, rfl⟩ := List.mem_map.1 hx
    obtain ⟨s, -, rfl⟩ := List.mem_map.1 hi
    rfl

end OrderSettings

/-! ## Calls in columns -/

namespace Columns

/-- What is protected stands in no columns. -/
theorem candidate?_of_marked {x : Marked BodyItem} (h : x.2 = true) : candidate? x = none := by
  obtain ⟨item, mark⟩ := x
  obtain rfl : mark = true := h
  cases item <;> rfl

/-- Each item of the new body stands for one of the old body: a marked one for itself, a control
block for itself. -/
theorem eq_map_of_alignBody {limit : Nat} {separator : String} {items new : List (Marked BodyItem)}
    (h : alignBody limit separator items = some new) :
    ∃ g : Marked BodyItem → Marked BodyItem, new = items.map g ∧ (∀ x, x.2 = true → g x = x) ∧
      ∀ x, (g x).1.control? = x.1.control? := by
  obtain ⟨widths, g, rfl, hg⟩ := alignBody_eq_some h
  refine ⟨g, rfl, fun x hx => ?_, fun x => ?_⟩
  · rcases hg x with heq | ⟨s, rfl, -, -⟩
    · exact heq
    · cases hx
  · rcases hg x with heq | ⟨s, rfl, -, heq⟩
    · rw [heq]
    · rw [heq]
      rfl

/-- A body that is all protected is left as it is. -/
theorem alignBody_of_marked {limit : Nat} {separator : String} {items : List (Marked BodyItem)}
    (h : ∀ x ∈ items, x.2 = true) : alignBody limit separator items = none := by
  rw [alignBody, alignments_eq_map]
  refine if_neg ?_
  rw [List.any_map, List.any_eq_true]
  rintro ⟨x, hx, hsome⟩
  simp [realign?, candidate?_of_marked (h x hx)] at hsome

/-- The pass that aligns calls heeds directives. -/
theorem freezes_pass (between : PassSetup → BlockType → Nat) : pass.Freezes between := by
  intro setup f
  refine ⟨_, rfl, rfl, ?_⟩
  refine
    { statement := fun _ => rfl
      marked := fun h => congrArg Decision.ofOption (alignBody_of_marked h)
      body := ?_
      controls := ?_
      sect := fun h => by cases h
      blocks := fun h => by cases h
      file := rfl }
  · intro place header front region back new h hm _ _
    obtain ⟨g, rfl, hmarked, -⟩ := eq_map_of_alignBody (Decision.ofOption_eq_put h)
    have hsame : region.map g = region :=
      (List.map_congr_left fun x hx => hmarked x (hm x hx)).trans (List.map_id _)
    rw [List.map_append, List.map_append, hsame]
    exact List.IsInfix.map _ ⟨front.map g, back.map g, rfl⟩
  · intro place header items new h
    obtain ⟨g, rfl, -, hcontrol⟩ := eq_map_of_alignBody (Decision.ofOption_eq_put h)
    rw [unmark, unmark, List.map_map, List.filterMap_map, List.filterMap_map]
    exact List.filterMap_congr fun x _ => hcontrol x

end Columns

/-! ## Empty lines -/

namespace EmptyLines

section
variable {α β : Type} {isEmpty : α → Bool}

/-- Whether an empty line stands behind some items, or in front of them if there are none. -/
def endsEmpty (isEmpty : α → Bool) (behind : Bool) (xs : List (Marked α)) : Bool :=
  (xs.getLast?.map fun x => isEmpty x.1).getD behind

/-- Behind some items the others are collapsed as the last of these says. -/
theorem collapse_append (behind : Bool) (xs ys : List (Marked α)) :
    collapse isEmpty behind (xs ++ ys) =
      collapse isEmpty behind xs ++ collapse isEmpty (endsEmpty isEmpty behind xs) ys := by
  induction xs generalizing behind with
  | nil => rfl
  | cons x xs ih =>
    have hends : endsEmpty isEmpty behind (x :: xs) = endsEmpty isEmpty (isEmpty x.1) xs := by
      rw [endsEmpty, endsEmpty, List.getLast?_cons]
      cases xs.getLast? <;> rfl
    rw [List.cons_append, collapse, collapse, ih, hends]
    split <;> rfl

/-- Items that are protected stay, in a row or not. -/
theorem collapse_of_marked {xs : List (Marked α)} (h : ∀ x ∈ xs, x.2 = true) (behind : Bool) :
    collapse isEmpty behind xs = xs := by
  induction xs generalizing behind with
  | nil => rfl
  | cons x xs ih =>
    rw [List.forall_mem_cons] at h
    rw [collapse, isRemovable, h.1, ih h.2]
    simp

/-- Stripping the start goes no further than to what is protected. -/
theorem stripStart_append {xs : List (Marked α)} (h : ∀ x ∈ xs, x.2 = true) (hne : xs ≠ [])
    (front back : List (Marked α)) :
    stripStart isEmpty (front ++ xs ++ back) = stripStart isEmpty front ++ xs ++ back := by
  obtain ⟨x, rest, rfl⟩ := List.exists_cons_of_ne_nil hne
  have hx : isRemovable isEmpty x = false := by simp [isRemovable, h x List.mem_cons_self]
  rw [stripStart, stripStart, List.append_assoc, List.dropWhile_append, List.cons_append,
    List.dropWhile_cons, hx, List.append_assoc]
  split
  · rename_i hnil
    rw [List.isEmpty_iff.1 hnil]
    rfl
  · rfl

/-- Stripping the end goes no further than to what is protected. -/
theorem stripEnd_append {xs : List (Marked α)} (h : ∀ x ∈ xs, x.2 = true) (hne : xs ≠ [])
    (front back : List (Marked α)) :
    stripEnd isEmpty (front ++ xs ++ back) = front ++ xs ++ stripEnd isEmpty back := by
  refine (Text.endWhile_append (fun x hx => ?_) back).2
  rw [List.getLast?_append_of_ne_nil _ hne] at hx
  simp [isRemovable, h x (List.mem_of_getLast? hx)]

/-- Marked items stay together when empty lines around them go. -/
theorem tidy_append {xs : List (Marked α)} (h : ∀ x ∈ xs, x.2 = true) (hne : xs ≠ [])
    (front back : List (Marked α)) :
    tidy isEmpty (front ++ xs ++ back) = stripStart isEmpty (collapse isEmpty false front) ++ xs ++
      collapse isEmpty (endsEmpty isEmpty false xs) back := by
  have hends (behind : Bool) :
      endsEmpty isEmpty behind (front ++ xs) = endsEmpty isEmpty false xs := by
    rw [endsEmpty, endsEmpty, List.getLast?_append_of_ne_nil _ hne]
    obtain ⟨x, hx⟩ := Option.ne_none_iff_exists'.1 (mt List.getLast?_eq_none_iff.1 hne)
    rw [hx]
    rfl
  rw [tidy, collapse_append, collapse_append, collapse_of_marked h, hends, stripStart_append h hne]

/-- Items that are protected are tidy. -/
theorem tidy_of_marked {xs : List (Marked α)} (h : ∀ x ∈ xs, x.2 = true) :
    tidy isEmpty xs = xs := by
  by_cases hne : xs = []
  · rw [hne]
    rfl
  · have htidy : tidy isEmpty ([] ++ xs ++ []) = _ := tidy_append h hne [] []
    simpa [collapse, stripStart] using htidy

/-- The mark of the last of some protected items. -/
theorem lastMark_append {xs : List (Marked α)} (h : ∀ x ∈ xs, x.2 = true) (hne : xs ≠ [])
    (header : Bool) (front : List (Marked α)) : lastMark header (front ++ xs) = true := by
  rw [lastMark, List.getLast?_append_of_ne_nil _ hne, List.getLast?_eq_some_getLast hne]
  exact h _ (List.getLast_mem hne)

/-- Protected items end with a mark. -/
theorem lastMark_of_marked {xs : List (Marked α)} (h : ∀ x ∈ xs, x.2 = true) :
    lastMark true xs = true := by
  by_cases hne : xs = []
  · rw [hne]
    rfl
  · exact lastMark_append h hne true []

/-- An item stays in its row, or it may be removed. -/
theorem mem_collapse_or {xs : List (Marked α)} {x : Marked α} (hx : x ∈ xs) (behind : Bool) :
    x ∈ collapse isEmpty behind xs ∨ isRemovable isEmpty x = true := by
  induction xs generalizing behind with
  | nil => cases hx
  | cons y xs ih =>
    rw [collapse]
    rcases List.mem_cons.1 hx with rfl | hx
    · split
      · rename_i hy
        rw [Bool.and_eq_true] at hy
        exact .inr hy.1
      · exact .inl List.mem_cons_self
    · split
      · exact ih hx _
      · exact (ih hx _).imp_left (List.mem_cons_of_mem y)

/-! What a partial function reads off items stays, if it reads nothing off empty lines. -/

variable {f : Marked α → Option β} (hf : ∀ x, isRemovable isEmpty x = true → f x = none)
include hf

/-- What is told of items that may not be removed is told behind it too. -/
theorem filterMap_collapse (behind : Bool) (xs : List (Marked α)) :
    (collapse isEmpty behind xs).filterMap f = xs.filterMap f := by
  induction xs generalizing behind with
  | nil => rfl
  | cons x xs ih =>
    rw [collapse]
    split
    · rename_i hx
      rw [Bool.and_eq_true] at hx
      rw [ih, List.filterMap_cons_none (hf x hx.1)]
    · rw [List.filterMap_cons, List.filterMap_cons, ih]

/-- What is told of items that may not be removed is told of the tidy ones. -/
theorem filterMap_tidy (xs : List (Marked α)) :
    (tidy isEmpty xs).filterMap f = xs.filterMap f := by
  have hsplit := (collapse isEmpty false xs).takeWhile_append_dropWhile (p := isRemovable isEmpty)
  have hnone : ((collapse isEmpty false xs).takeWhile (isRemovable isEmpty)).filterMap f = [] :=
    List.filterMap_eq_nil_iff.2 fun x hx =>
      hf x (List.all_eq_true.1 List.all_takeWhile x hx)
  have hcollapse := filterMap_collapse hf false xs
  rw [← hsplit, List.filterMap_append, hnone] at hcollapse
  exact hcollapse

/-- What is told of items that may not be removed is told without the end. -/
theorem filterMap_stripEnd (xs : List (Marked α)) :
    (stripEnd isEmpty xs).filterMap f = xs.filterMap f := by
  have hnone : (Text.takeEndWhile (isRemovable isEmpty) xs).filterMap f = [] :=
    List.filterMap_eq_nil_iff.2 fun x hx =>
      hf x (List.all_eq_true.1 (Text.all_takeEndWhile _ _) x hx)
  conv_rhs => rw [← Text.dropEndWhile_append_takeEndWhile (isRemovable isEmpty) xs]
  rw [List.filterMap_append, hnone, List.append_nil]
  rfl

end

/-! ### Bodies -/

/-- Items are cut in two at the comments that close them. -/
theorem splitClosing_append (followed : Bool) (items : List (Marked BodyItem)) :
    (splitClosing followed items).1 ++ (splitClosing followed items).2 = items := by
  rw [splitClosing]
  split
  · exact Text.dropEndWhile_append_takeEndWhile _ _
  · exact List.append_nil _

/-- Marked items stay together when something is put in front of the comments that close a body,
unless these comments are some but not all of the marked items. -/
theorem infix_splitClosing {followed : Bool} {region front back middle : List (Marked BodyItem)}
    (hm : ∀ x ∈ region, x.2 = true) (hne : region ≠ [])
    (hst : followed = true → middle ≠ [] → back.all isCommentItem = true →
      region.getLast?.any isCommentItem = true → region.all isCommentItem = true) :
    region <:+: stripEnd isEmptyItem (splitClosing followed (front ++ region ++ back)).1 ++
      middle ++ (splitClosing followed (front ++ region ++ back)).2 := by
  have hwhole (back closing : List (Marked BodyItem)) :
      region <:+: stripEnd isEmptyItem (front ++ region ++ back) ++ middle ++ closing := by
    rw [stripEnd_append hm hne]
    exact ⟨front, stripEnd isEmptyItem back ++ middle ++ closing, by simp⟩
  rw [splitClosing]
  split
  · rename_i hfollowed
    rw [Bool.and_eq_true] at hfollowed
    cases hback : back.all isCommentItem with
    | false =>
      obtain ⟨htake, hdrop⟩ := Text.endWhile_append_of_not_all hback (front ++ region)
      rw [htake, hdrop]
      exact hwhole _ _
    | true =>
      obtain ⟨htake, hdrop⟩ := Text.endWhile_append_of_all hback (front ++ region)
      rw [htake, hdrop]
      cases hregion : region.all isCommentItem with
      | true =>
        obtain ⟨htake, -⟩ := Text.endWhile_append_of_all hregion front
        rw [htake]
        exact List.IsInfix.trans ⟨_, back, rfl⟩ (List.suffix_append _ _).isInfix
      | false =>
        obtain ⟨htake, hdrop⟩ := Text.endWhile_append_of_not_all hregion front
        rw [htake, hdrop]
        -- The comments at the end of the region are cut off, unless nothing is put or there are
        -- none.
        have hcut : middle = [] ∨ Text.takeEndWhile isCommentItem region = [] := by
          refine or_iff_not_imp_left.2 fun hmiddle => ?_
          have hlast : ∀ x ∈ region.getLast?, isCommentItem x = false := by
            intro x hx
            rw [Bool.eq_false_iff]
            intro hc
            rw [hst hfollowed.1 hmiddle hback (by rw [Option.mem_def.1 hx]; exact hc)] at hregion
            cases hregion
          simpa [Text.takeEndWhile] using (Text.endWhile_append hlast []).1
        have hsplit := Text.dropEndWhile_append_takeEndWhile isCommentItem region
        have hall := Text.all_takeEndWhile isCommentItem region
        generalize Text.dropEndWhile isCommentItem region = kept at hsplit ⊢
        generalize Text.takeEndWhile isCommentItem region = closing at hsplit hall hcut ⊢
        obtain rfl := hsplit
        have hkept : kept ≠ [] := by
          rintro rfl
          rw [List.nil_append, hall] at hregion
          cases hregion
        have hstrip : stripEnd isEmptyItem (front ++ kept ++ []) = _ :=
          stripEnd_append (fun x hx => hm x (List.mem_append_left _ hx)) hkept front []
        rw [List.append_nil, show stripEnd isEmptyItem [] = [] from rfl, List.append_nil] at hstrip
        rw [hstrip]
        rcases hcut with rfl | rfl
        · exact ⟨front, back, by simp⟩
        · exact ⟨front, middle ++ back, by simp⟩
  · exact hwhole _ _

/-- The type of an item that is a statement is that of the statement. -/
theorem decide_nodeType (item : BodyItem) (type : StatementType) :
    decide (item.nodeType = .statement type) = item.isOfType type := by
  cases item with
  | statement s =>
    show decide (NodeType.statement s.type = .statement type) = decide (s.type = type)
    simp
  | control c => rfl

/-- A comment is no empty line. -/
theorem isEmptyItem_of_comment {x : Marked BodyItem} (h : isCommentItem x = true) :
    isEmptyItem x.1 = false := by
  rw [isCommentItem, ← decide_nodeType, decide_eq_true_eq] at h
  rw [isEmptyItem, ← decide_nodeType, h]
  rfl

/-- If only comments are left of what stands behind a comment, then there are comments and behind
them empty lines. -/
theorem all_isEmptyItem_of_all {back : List (Marked BodyItem)}
    (h : (stripEnd isEmptyItem (collapse isEmptyItem false back)).all isCommentItem = true) :
    (back.dropWhile isCommentItem).all (fun x => isEmptyItem x.1) = true := by
  induction back with
  | nil => rfl
  | cons x back ih =>
    rw [collapse, Bool.and_false, if_neg Bool.false_ne_true] at h
    cases hx : isCommentItem x with
    | true =>
      have hempty := isEmptyItem_of_comment hx
      have hstay : ∀ y ∈ [x].getLast?, isRemovable isEmptyItem y = false := by
        simp [isRemovable, hempty]
      have hstrip := (Text.endWhile_append hstay (collapse isEmptyItem false back)).2
      rw [hempty, stripEnd, ← List.singleton_append, hstrip, List.all_append, Bool.and_eq_true] at h
      rw [List.dropWhile_cons_of_pos hx]
      exact ih h.2
    | false =>
      -- The first item that is no comment has gone, and all behind it with it.
      have hsplit := Text.dropEndWhile_append_takeEndWhile (isRemovable isEmptyItem)
        (x :: collapse isEmptyItem (isEmptyItem x.1) back)
      rw [stripEnd] at h
      have hgone : Text.dropEndWhile (isRemovable isEmptyItem)
          (x :: collapse isEmptyItem (isEmptyItem x.1) back) = [] := by
        cases hd : Text.dropEndWhile (isRemovable isEmptyItem)
            (x :: collapse isEmptyItem (isEmptyItem x.1) back) with
        | nil => rfl
        | cons y ys =>
          rw [hd] at h hsplit
          obtain rfl := (List.cons.inj hsplit).1
          simp [hx] at h
      have hall := Text.all_takeEndWhile (isRemovable isEmptyItem)
        (x :: collapse isEmptyItem (isEmptyItem x.1) back)
      rw [hgone, List.nil_append] at hsplit
      rw [hsplit, List.all_eq_true, List.forall_mem_cons] at hall
      have hempty {y : Marked BodyItem} (hy : isRemovable isEmptyItem y = true) :
          isEmptyItem y.1 = true := (Bool.and_eq_true _ _ |>.mp hy).1
      rw [List.dropWhile_cons_of_neg (by simp [hx]), List.all_eq_true, List.forall_mem_cons]
      refine ⟨hempty hall.1, fun y hy => ?_⟩
      exact hempty ((mem_collapse_or hy _).elim (hall.2 y) id)

/-- Closing comments that begin in a region show that the region straddles the cut. -/
theorem straddles_of_all {region back : List (Marked BodyItem)} (hback : back ≠ [])
    (hlast : region.getLast?.any isCommentItem = true) (hall : region.all isCommentItem = false)
    (h : (stripEnd isEmptyItem (collapse isEmptyItem (endsEmpty isEmptyItem false region) back)).all
      isCommentItem = true) :
    straddles ((unmark region).map BodyItem.nodeType)
      ((unmark back).map BodyItem.nodeType) = true := by
  have hends : endsEmpty isEmptyItem false region = false := by
    rw [endsEmpty]
    cases hl : region.getLast? with
    | none => rfl
    | some x =>
      rw [hl] at hlast
      exact isEmptyItem_of_comment hlast
  rw [hends] at h
  have hcomment (x : Marked BodyItem) : isCommentType x.1.nodeType = isCommentItem x :=
    decide_nodeType x.1 .comment
  have hempty := all_isEmptyItem_of_all h
  rw [straddles, unmark, unmark, List.map_map, List.map_map]
  simp only [Function.comp_def, List.getLast?_map, Option.any_map, List.all_map, List.dropWhile_map,
    List.isEmpty_map, hcomment, decide_nodeType]
  simp only [← isEmptyItem.eq_def]
  rw [hlast, hall, hempty]
  simpa using hback

/-- How many empty lines stand between blocks. -/
def linesBetween (spacing : Spacing) : BlockType → Nat
  | .testCase => spacing.testCases
  | .keyword => spacing.keywords

section
variable {spacing : Spacing} {place : Place}

/-- Behind a block that another one follows stand the lines between the two. -/
theorem linesBehind_of_follows (h : place.blockFollows = true) (type : BlockType) :
    linesBehind spacing place type = linesBetween spacing type := by
  cases type <;> simp [linesBehind, linesBetween, h]

/-- What becomes of the items of a block. -/
theorem spaceBlock_eq_put {type : BlockType} {header : Bool} {items new : List (Marked BodyItem)}
    (h : spaceBlock spacing place type header items = .put new) :
    lastMark header items = true ∧ new = tidy isEmptyItem items ∨
      lastMark header items = false ∧
        new = stripEnd isEmptyItem (splitClosing place.blockFollows
            (stripEnd isEmptyItem (tidy isEmptyItem items))).1 ++
          List.replicate (linesBehind spacing place type)
            (.statement (Statement.emptyLine spacing.newline), false) ++
          (splitClosing place.blockFollows (stripEnd isEmptyItem (tidy isEmptyItem items))).2 := by
  rw [spaceBlock] at h
  split at h
  · rename_i hlast
    exact .inl ⟨hlast, keepSome_eq_put h⟩
  · rename_i hlast
    generalize splitClosing _ _ = parts at h ⊢
    exact .inr ⟨Bool.eq_false_iff.2 hlast, withPadding_eq_put h⟩

/-- Where all items are kept, nothing changes. -/
theorem keepSome_eq_keep {α : Type} (items : List (Marked α)) :
    keepSome items.length items = .keep := if_pos rfl

/-- A body that is all protected is left as it is. -/
theorem leaveBody_of_marked {items : List (Marked BodyItem)} (h : ∀ x ∈ items, x.2 = true) :
    leaveBody spacing place true items = .keep := by
  rw [leaveBody]
  split
  · rw [spaceBlock, tidy_of_marked h]
    rw [if_pos (lastMark_of_marked h)]
    exact keepSome_eq_keep items
  · rw [spaceBody, collapse_of_marked h]
    exact keepSome_eq_keep items

/-- A protected region of a body stays in one piece, unless it straddles the cut. -/
theorem infix_leaveBody {header : Bool} {front region back new : List (Marked BodyItem)}
    (h : leaveBody spacing place header (front ++ region ++ back) = .put new)
    (hm : ∀ x ∈ region, x.2 = true) (hne : region ≠ [])
    (hopen : place.pads (linesBetween spacing) → straddles ((unmark region).map BodyItem.nodeType)
      ((unmark back).map BodyItem.nodeType) = false) : region <:+: new := by
  rw [leaveBody] at h
  split at h
  · rename_i b hb
    rcases spaceBlock_eq_put h with ⟨-, rfl⟩ | ⟨hlast, rfl⟩
    · rw [tidy_append hm hne]
      exact ⟨_, _, rfl⟩
    · rw [tidy_append hm hne, stripEnd_append hm hne]
      refine infix_splitClosing hm hne fun hfollows hmiddle hall hcomment => ?_
      by_contra hregion
      have hback : back ≠ [] := by
        rintro rfl
        rw [List.append_nil, lastMark_append hm hne] at hlast
        cases hlast
      have hlines : linesBetween spacing b.type ≠ 0 := by
        rw [← linesBehind_of_follows hfollows]
        rintro hzero
        exact hmiddle (by rw [hzero]; rfl)
      rw [straddles_of_all hback hcomment (Bool.eq_false_iff.2 hregion) hall] at hopen
      exact Bool.noConfusion (hopen ⟨b, hb, hfollows, hlines⟩)
  · rw [spaceBody, collapse_append, collapse_append, collapse_of_marked hm] at h
    rw [keepSome_eq_put h]
    exact ⟨_, _, rfl⟩

/-- What a partial function reads off the items of a body stays, if it reads nothing off empty
lines. -/
theorem filterMap_leaveBody {β : Type} {f : BodyItem → Option β}
    (hf : ∀ s : Statement, s.type = .emptyLine → f (.statement s) = none) {header : Bool}
    {items new : List (Marked BodyItem)} (h : leaveBody spacing place header items = .put new) :
    (unmark new).filterMap f = (unmark items).filterMap f := by
  have hnone : (f ∘ fun x : Marked BodyItem => x.1)
      (.statement (Statement.emptyLine spacing.newline), false) = none := hf _ rfl
  have hf (x : Marked BodyItem) (hx : isRemovable isEmptyItem x = true) :
      (f ∘ fun x : Marked BodyItem => x.1) x = none := by
    obtain ⟨item, mark⟩ := x
    cases item with
    | statement s =>
      rw [isRemovable, Bool.and_eq_true] at hx
      exact hf s (of_decide_eq_true hx.1)
    | control c => cases hx
  rw [unmark, unmark, List.filterMap_map, List.filterMap_map]
  rw [leaveBody] at h
  split at h
  · rcases spaceBlock_eq_put h with ⟨-, rfl⟩ | ⟨-, rfl⟩
    · exact filterMap_tidy hf items
    · rw [List.filterMap_append, List.filterMap_append,
        List.filterMap_replicate_of_none hnone, List.append_nil]
      have hparts := splitClosing_append place.blockFollows
        (stripEnd isEmptyItem (tidy isEmptyItem items))
      generalize splitClosing _ _ = parts at hparts ⊢
      rw [← filterMap_tidy hf items, ← filterMap_stripEnd hf (tidy isEmptyItem items), ← hparts,
        List.filterMap_append]
      exact congrArg (· ++ _) (filterMap_stripEnd hf parts.1)
  · rw [keepSome_eq_put h]
    exact filterMap_collapse hf false items

/-! ### Sections -/

/-- Items of a section that are not blocks. -/
def isLeading (i : Marked SectionItem) : Bool := !i.1.isBlock

/-- What becomes of the items of a section. -/
theorem spaceSection_eq_put {header : Option Bool} {items new : List (Marked SectionItem)}
    (h : spaceSection spacing place header items = .put new) :
    (∃ x ∈ items, x.1.isBlock = true) ∧
        new = tidy isEmptySectionItem (items.takeWhile isLeading) ++ items.filter (·.1.isBlock) ∨
      (∀ x ∈ items, isLeading x = true) ∧ (new = tidy isEmptySectionItem items ∨
        ∃ n, new = stripEnd isEmptySectionItem (tidy isEmptySectionItem items) ++
          List.replicate n (.statement (Statement.emptyLine spacing.newline), false)) := by
  rw [spaceSection] at h
  split at h
  · rename_i hany
    exact .inl ⟨List.any_eq_true.1 hany, keepSome_eq_put h⟩
  · rename_i hany
    have hall : ∀ x ∈ items, isLeading x = true := by
      intro x hx
      rw [isLeading, Bool.not_eq_true', Bool.eq_false_iff]
      exact fun hb => hany (List.any_eq_true.2 ⟨x, hx, hb⟩)
    have htake : items.takeWhile (fun i => !i.1.isBlock) = items :=
      List.takeWhile_eq_self_iff.2 hall
    rw [htake] at h
    refine .inr ⟨hall, ?_⟩
    split at h
    · exact .inl (keepSome_eq_put h)
    · have hnew := withPadding_eq_put h
      rw [List.append_nil] at hnew
      exact .inr ⟨_, hnew⟩

/-- The items of a section are those in front of the blocks, and the blocks. -/
theorem exists_append_of_leadsBlocks {items : List (Marked SectionItem)}
    (hl : leadsBlocks (unmark items)) :
    ∃ lead blocks, items = lead ++ blocks ∧ (∀ x ∈ lead, isLeading x = true) ∧
      ∀ x ∈ blocks, x.1.isBlock = true := by
  obtain ⟨ss, bs, heq⟩ := hl
  obtain ⟨lead, blocks, rfl, hlead, hblocks⟩ := List.map_eq_append_iff.1 heq
  refine ⟨lead, blocks, rfl, fun x hx => ?_, fun x hx => ?_⟩
  · obtain ⟨s, -, hs⟩ := List.mem_map.1 (hlead ▸ List.mem_map_of_mem hx)
    rw [isLeading, ← hs]
    rfl
  · obtain ⟨b, -, hb⟩ := List.mem_map.1 (hblocks ▸ List.mem_map_of_mem hx)
    rw [← hb]
    rfl

/-- The blocks of a section stand behind its statements. -/
theorem filter_isBlock {items : List (Marked SectionItem)} (hl : leadsBlocks (unmark items)) :
    items.filter (·.1.isBlock) = items.dropWhile isLeading := by
  obtain ⟨lead, blocks, rfl, hlead, hblocks⟩ := exists_append_of_leadsBlocks hl
  have hnone : lead.filter (·.1.isBlock) = [] :=
    List.filter_eq_nil_iff.2 fun x hx => by simpa [isLeading] using hlead x hx
  rw [List.filter_append, hnone, List.filter_eq_self.2 hblocks,
    List.dropWhile_append_of_pos hlead]
  cases blocks with
  | nil => rfl
  | cons x blocks =>
    have hx : ¬ isLeading x = true := by simp [isLeading, hblocks x List.mem_cons_self]
    rw [List.dropWhile_cons_of_neg hx]
    rfl

/-- No block stands in front of a statement. -/
theorem isLeading_of_leadsBlocks {front back : List (Marked SectionItem)} {x : Marked SectionItem}
    (hl : leadsBlocks (unmark (front ++ x :: back))) (hx : isLeading x = true) :
    ∀ y ∈ front, isLeading y = true := by
  obtain ⟨lead, blocks, heq, hlead, hblocks⟩ := exists_append_of_leadsBlocks hl
  rcases List.append_eq_append_iff.1 heq with ⟨rest, rfl, -⟩ | ⟨rest, rfl, rfl⟩
  · exact fun y hy => hlead y (List.mem_append_left _ hy)
  · have hb := hblocks x (List.mem_append_right _ List.mem_cons_self)
    simp [isLeading, hb] at hx

/-- A protected region of a section stays in one piece. -/
theorem infix_spaceSection {header : Option Bool}
    {front region back new : List (Marked SectionItem)} {x : Marked SectionItem}
    (h : spaceSection spacing place header (front ++ region ++ back) = .put new)
    (hm : ∀ x ∈ region, x.2 = true) (hx : region.head? = some x) (hb : isLeading x = true)
    (hl : leadsBlocks (unmark (front ++ region ++ back))) : region <:+: new := by
  have hne : region ≠ [] := by
    rintro rfl
    cases hx
  rcases spaceSection_eq_put h with ⟨-, rfl⟩ | ⟨-, rfl | ⟨n, rfl⟩⟩
  · have hfront : ∀ y ∈ front, isLeading y = true := by
      obtain ⟨rest, rfl⟩ := List.head?_eq_some_iff.1 hx
      rw [List.append_assoc] at hl
      exact isLeading_of_leadsBlocks hl hb
    rw [filter_isBlock hl, List.append_assoc, List.takeWhile_append_of_pos hfront,
      List.dropWhile_append_of_pos hfront]
    by_cases hall : ∀ y ∈ region, isLeading y = true
    · rw [List.takeWhile_append_of_pos hall, ← List.append_assoc, tidy_append hm hne,
        List.append_assoc]
      exact ⟨_, _, rfl⟩
    · -- The region goes on with blocks, which stand behind all statements.
      have hdrop : region.dropWhile isLeading ≠ [] := mt List.dropWhile_eq_nil_iff.1 hall
      have hsplit := region.takeWhile_append_dropWhile (p := isLeading)
      have hlength := congrArg List.length hsplit
      rw [List.length_append] at hlength
      have hpos := List.length_pos_iff.2 hdrop
      rw [List.takeWhile_append, if_neg (by omega), List.dropWhile_append,
        if_neg (by simpa using hdrop)]
      have hlead : region.takeWhile isLeading ≠ [] := by
        obtain ⟨rest, rfl⟩ := List.head?_eq_some_iff.1 hx
        simp [hb]
      have htidy : tidy isEmptySectionItem (front ++ region.takeWhile isLeading ++ []) = _ :=
        tidy_append (fun y hy => hm y (List.takeWhile_subset _ hy)) hlead front []
      rw [List.append_nil, collapse, List.append_nil] at htidy
      rw [htidy, List.append_assoc, ← List.append_assoc (region.takeWhile isLeading), hsplit,
        ← List.append_assoc]
      exact ⟨_, back, rfl⟩
  · rw [tidy_append hm hne]
    exact ⟨_, _, rfl⟩
  · rw [tidy_append hm hne, stripEnd_append hm hne, List.append_assoc]
    exact ⟨_, _, rfl⟩

/-- What a partial function reads off the items of a section stays, if it reads nothing off empty
lines. -/
theorem filterMap_spaceSection {β : Type} {f : SectionItem → Option β}
    (hf : ∀ s : Statement, s.type = .emptyLine → f (.statement s) = none) {header : Option Bool}
    {items new : List (Marked SectionItem)} (h : spaceSection spacing place header items = .put new)
    (hl : leadsBlocks (unmark items)) : (unmark new).filterMap f = (unmark items).filterMap f := by
  have hnone : (f ∘ fun x : Marked SectionItem => x.1)
      (.statement (Statement.emptyLine spacing.newline), false) = none := hf _ rfl
  have hf (x : Marked SectionItem) (hx : isRemovable isEmptySectionItem x = true) :
      (f ∘ fun x : Marked SectionItem => x.1) x = none := by
    obtain ⟨item, mark⟩ := x
    cases item with
    | statement s =>
      rw [isRemovable, Bool.and_eq_true] at hx
      exact hf s (of_decide_eq_true hx.1)
    | block b => cases hx
  rw [unmark, unmark, List.filterMap_map, List.filterMap_map]
  rcases spaceSection_eq_put h with ⟨-, rfl⟩ | ⟨-, rfl | ⟨n, rfl⟩⟩
  · rw [List.filterMap_append, filterMap_tidy hf, filter_isBlock hl, ← List.filterMap_append,
      List.takeWhile_append_dropWhile]
  · exact filterMap_tidy hf items
  · rw [List.filterMap_append, List.filterMap_replicate_of_none hnone, List.append_nil,
      filterMap_stripEnd hf]
    exact filterMap_tidy hf items

end

/-- The pass that spaces lines heeds directives, but for the comments that close a block. -/
theorem freezes_pass : pass.Freezes fun setup => linesBetween (spacingOf setup) := by
  intro setup f
  refine ⟨_, rfl, rfl, ?_⟩
  refine
    { statement := ?_
      marked := leaveBody_of_marked
      body := ?_
      controls := filterMap_leaveBody fun _ _ => rfl
      sect := ?_
      blocks := filterMap_spaceSection fun _ _ => rfl
      file := rfl }
  · intro sc n s hdis
    refine if_neg ?_
    simp [hdis]
  · intro place header front region back new h hm hr hopen
    obtain ⟨s, rest, hregion, -⟩ := hr.bodyItems
    have hne : region ≠ [] := by
      rintro rfl
      cases hregion
    exact (infix_leaveBody h hm hne hopen).map _
  · intro place header front region back new h hm hr hl
    obtain ⟨s, rest, hregion, -⟩ := hr.sectionItems
    obtain ⟨x, marked, rfl, hx, -⟩ := List.map_eq_cons_iff.1 hregion
    exact (infix_spaceSection h hm rfl (by rw [isLeading, hx]; rfl) hl).map _

end EmptyLines

/-! ## All passes -/

/-- How many empty lines a pass puts between blocks. -/
def Pass.linesBetween (p : Pass) (setup : PassSetup) : BlockType → Nat :=
  if p.name = EmptyLines.info.name then EmptyLines.linesBetween (EmptyLines.spacingOf setup)
  else fun _ => 0

/-- **All passes but one heed directives.**  Sections are merged wherever they stand. -/
theorem Pass.freezes_all : ∀ p ∈ Pass.all, p.name ≠ MergeSections.info.name →
    p.Freezes p.linesBetween := by
  intro p hp hne
  simp only [Pass.all, List.mem_cons, List.not_mem_nil, or_false] at hp
  rcases hp with rfl | rfl | rfl | rfl | rfl | rfl | rfl | rfl | rfl
  · exact absurd rfl hne
  · exact OrderSettings.freezes_pass _
  · exact Pass.freezes_ofStatements _ _ _
  · exact Pass.freezes_ofStatements _ _ _
  · exact Pass.freezes_ofStatements _ _ _
  · have hlines : EmptyLines.pass.linesBetween =
        fun setup => EmptyLines.linesBetween (EmptyLines.spacingOf setup) := rfl
    rw [hlines]
    exact EmptyLines.freezes_pass
  · exact Pass.freezes_ofStatements _ _ _
  · exact Pass.freezes_ofStatements _ _ _
  · exact Columns.freezes_pass _

/-! ## Regions in which a pass is switched off -/


/-- Sections that are read from a source without defects are ordered. -/
theorem isOrdered_parse {source : String} (hp : (parse source).errors = []) :
    ∀ s ∈ (parse source).sections, s.IsOrdered := by
  intro s hs
  refine ⟨(parse_sections source).1 s hs, fun hnone item hitem => ?_⟩
  have hsound := (sound_parse hp).sections s hs
  have hholds := hsound.items item hitem
  rw [hsound.headerless hnone] at hholds
  cases item with
  | statement r => rfl
  | block b =>
    obtain ⟨⟨hin, -, -⟩, -⟩ := hholds
    revert hin
    cases b.type <;> nofun

section
variable {source : String} {config : FormatConfig} {p : Pass}

/-- **Regions in which a pass is switched off are frozen.**  Let a source be read without defects,
let `p` be any pass but the one that merges sections, and let `region` stand in the `n`-th
container, with a directive in front that switches `p` off and no further directive.  Then behind
`p` the `n`-th container still holds `region`, in one piece.  Only comments that close a region but
are not all of it may be cut off, when behind them in their block there are only comments and
empty lines, another block follows, and the configuration asks for empty lines between blocks. -/
theorem region_frozen (hp : (parse source).errors = [])
    (hpass : p ∈ Pass.all) (hne : p.name ≠ MergeSections.info.name) {n : Nat} {c : Container}
    {front region back : List Node} (hcontainer : (parse source).containers[n]? = some c)
    (hchildren : c.children = front ++ region ++ back) (hregion : SwitchedOff p.name region)
    (hopen : ¬ (parse source).PadsInside
      (p.linesBetween ⟨config, config.paramsOf p.name, (parse source).newline.text⟩)
      c region back) :
    ∃ c', (runPasses config (parse source) [p]).containers[n]? = some c' ∧
      region <:+: c'.children := by
  obtain ⟨t, hplan, hname, hfreezes⟩ := Pass.freezes_all p hpass hne
    ⟨config, config.paramsOf p.name, (parse source).newline.text⟩ (parse source)
  have hrun : runPasses config (parse source) [p] = (t.run (parse source)).tree := by
    rw [runPasses, List.foldl_cons, List.foldl_nil, Pass.apply, hplan]
    rfl
  rw [← hname] at hregion
  obtain ⟨hlength, hall⟩ :=
    List.forall₂_iff_get.1 (hfreezes.containers_run (isOrdered_parse hp))
  obtain ⟨hn, rfl⟩ := List.getElem?_eq_some_iff.1 hcontainer
  rw [hrun]
  exact ⟨_, List.getElem?_eq_getElem (hlength ▸ hn),
    hall n hn (hlength ▸ hn) front region back hchildren hregion hopen⟩

end

set_option maxRecDepth 100000 in
/-- Empty lines between a directive and the next one stay. -/
theorem region_frozen_of_empty_lines :
    let source :=
      "*** Test Cases ***\nA\n    # fmt: off\n    Log    1\n\n\n    # fmt: on\nB\n    Log    2\n"
    (parse source).errors = [] ∧ EmptyLines.pass ∈ Pass.all ∧
      EmptyLines.pass.name ≠ MergeSections.info.name ∧
      ∃ c c', (parse source).containers[2]? = some c ∧
        SwitchedOff EmptyLines.pass.name (c.children.take 4) ∧
        (runPasses .default (parse source) [EmptyLines.pass]).containers[2]? = some c' ∧
        c.children.take 4 <:+: c'.children := by
  intro source
  have hp : (parse source).errors = [] := by decide +kernel
  have hpass : EmptyLines.pass ∈ Pass.all := by simp [Pass.all]
  have hne : EmptyLines.pass.name ≠ MergeSections.info.name := by decide
  have hfound : (parse source).containers[2]?.any (fun c =>
      decide (SwitchedOff EmptyLines.pass.name (c.children.take 4)) &&
        !straddles ((c.children.take 4).map Node.type) ((c.children.drop 4).map Node.type)) =
      true := by decide +kernel
  obtain ⟨c, hc, hregion⟩ := (Option.any_eq_true _ _).1 hfound
  rw [Bool.and_eq_true, decide_eq_true_eq, Bool.not_eq_true'] at hregion
  have hchildren : c.children = [] ++ c.children.take 4 ++ c.children.drop 4 :=
    (List.take_append_drop 4 c.children).symm
  have hkept : ∃ c', (runPasses .default (parse source) [EmptyLines.pass]).containers[2]? =
      some c' ∧ c.children.take 4 <:+: c'.children := by
    refine region_frozen hp hpass hne hc hchildren hregion.1 ?_
    rintro ⟨-, -, -, -, -, -, -, -, -, hst⟩
    rw [hregion.2] at hst
    cases hst
  obtain ⟨c', hc', hsame⟩ := hkept
  exact ⟨hp, hpass, hne, c, c', hc, hregion.1, hc', hsame⟩

/-- The texts of some nodes. -/
def nodeTexts (nodes : List Node) : List String :=
  nodes.map fun n => renderStatements n.statements

set_option maxRecDepth 100000 in
/-- The comment that closes a region is cut off: the empty line between two tests is put in front
of it, though the pass is still switched off there. -/
theorem region_not_frozen :
    let source :=
      "*** Test Cases ***\nA\n    # fmt: off\n    Log\n    # about\n    # fmt: on\nB\n    Log\n"
    let new := runPasses .default (parse source) [EmptyLines.pass]
    (parse source).errors = [] ∧ FormatConfig.read .null = .ok .default ∧
      EmptyLines.pass ∈ Pass.all ∧ EmptyLines.pass.name ≠ MergeSections.info.name ∧
      ∃ c, (parse source).containers[2]? = some c ∧
        nodeTexts c.children =
          ["    # fmt: off\n", "    Log\n", "    # about\n", "    # fmt: on\n"] ∧
        SwitchedOff EmptyLines.pass.name (c.children.take 3) ∧
        ∀ c' ∈ new.containers, ¬ nodeTexts (c.children.take 3) <:+: nodeTexts c'.children := by
  intro source new
  have hfound : (parse source).containers[2]?.any (fun c =>
      decide (nodeTexts c.children =
          ["    # fmt: off\n", "    Log\n", "    # about\n", "    # fmt: on\n"] ∧
        SwitchedOff EmptyLines.pass.name (c.children.take 3) ∧
        ∀ c' ∈ new.containers, ¬ nodeTexts (c.children.take 3) <:+: nodeTexts c'.children)) =
      true := by decide +kernel
  obtain ⟨c, hc, hregion⟩ := (Option.any_eq_true _ _).1 hfound
  exact ⟨by decide +kernel, rfl, by simp [Pass.all], by decide, c, hc,
    of_decide_eq_true hregion⟩

end RobotSuite
