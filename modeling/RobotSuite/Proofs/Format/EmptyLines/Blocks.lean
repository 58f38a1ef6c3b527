/-
# Blocks with configured distances

Of a body the empty lines at both ends go (`inner`).  If another block follows, the comments that
close what is left belong to it, unless they are all there is (`closing`).  The configured empty
lines stand in front of these comments, so behind the first part of the body (`opening`); without
such comments they stand in front of the next name.  That tells how much room there is in front of
each statement (`blocksRooms`), and a walk through blocks leaves them with it (`onBlock_calm`,
`onBlocks_calm`), unless it breaks off because there would be too many lines.
-/

import RobotSuite.Proofs.Format.EmptyLines.Bodies
import RobotSuite.Proofs.Format.GapFreeMoves

namespace RobotSuite
namespace EmptyLines

/-! ## The ends of a body -/

section
variable {α β : Type} (isEmpty isComment : α → Bool)

/-- Items without the empty lines at both ends. -/
def inner (xs : List α) : List α := Text.dropEndWhile isEmpty (xs.dropWhile isEmpty)

/-- Whether the comments that close some items belong to what follows: something does, and they are
not all there is. -/
def isCut (followed : Bool) (xs : List α) : Bool := followed && !(inner isEmpty xs).all isComment

/-- Items without the empty lines at both ends and the comments that belong to what follows. -/
def opening (followed : Bool) (xs : List α) : List α :=
  if isCut isEmpty isComment followed xs then Text.dropEndWhile isComment (inner isEmpty xs)
  else inner isEmpty xs

/-- The comments that belong to what follows. -/
def closing (followed : Bool) (xs : List α) : List α :=
  if isCut isEmpty isComment followed xs then Text.takeEndWhile isComment (inner isEmpty xs) else []

/-- A body without the empty lines at its ends is cut in two. -/
theorem opening_append_closing (followed : Bool) (xs : List α) :
    opening isEmpty isComment followed xs ++ closing isEmpty isComment followed xs =
      inner isEmpty xs := by
  rw [opening, closing]
  split
  · exact Text.dropEndWhile_append_takeEndWhile _ _
  · exact List.append_nil _

/-- Of a body nothing goes but the empty lines at its ends. -/
theorem sublist_inner (xs : List α) : (inner isEmpty xs).Sublist xs :=
  (sublist_dropEndWhile _ _).trans (List.dropWhile_sublist _)

/-- All that is told of the items is which are empty lines and which are comments. -/
theorem inner_map (f : β → α) (xs : List β) :
    inner isEmpty (xs.map f) = (inner (isEmpty ∘ f) xs).map f := by
  rw [inner, inner, List.dropWhile_map, dropEndWhile_map]

/-- Whether a body is cut is told by what its items are. -/
theorem isCut_map (f : β → α) (followed : Bool) (xs : List β) :
    isCut isEmpty isComment followed (xs.map f) =
      isCut (isEmpty ∘ f) (isComment ∘ f) followed xs := by
  rw [isCut, isCut, inner_map, List.all_map]

/-- The first part of a body is told by what its items are. -/
theorem opening_map (f : β → α) (followed : Bool) (xs : List β) :
    opening isEmpty isComment followed (xs.map f) =
      (opening (isEmpty ∘ f) (isComment ∘ f) followed xs).map f := by
  rw [opening, opening, isCut_map, inner_map]
  split
  · exact dropEndWhile_map f _ _
  · rfl

/-- The comments that close a body are told by what its items are. -/
theorem closing_map (f : β → α) (followed : Bool) (xs : List β) :
    closing isEmpty isComment followed (xs.map f) =
      (closing (isEmpty ∘ f) (isComment ∘ f) followed xs).map f := by
  rw [closing, closing, isCut_map, inner_map]
  split
  · exact takeEndWhile_map f _ _
  · rfl

variable {isEmpty isComment}

/-- Comments close a body, and nothing else does. -/
theorem isComment_of_mem_closing {followed : Bool} {xs : List α} {x : α}
    (h : x ∈ closing isEmpty isComment followed xs) : isComment x = true := by
  rw [closing] at h
  split at h
  · exact List.all_eq_true.1 (Text.all_takeEndWhile _ _) x h
  · cases h

/-- Without an end a list starts as before. -/
theorem head?_dropEndWhile {p : α → Bool} {xs : List α} {x : α}
    (h : x ∈ (Text.dropEndWhile p xs).head?) : x ∈ xs.head? := by
  rw [← Text.dropEndWhile_append_takeEndWhile p xs, List.head?_append, Option.mem_def.1 h]
  rfl

/-- What is left of a body starts with no empty line. -/
theorem head?_inner {xs : List α} : ∀ x ∈ (inner isEmpty xs).head?, isEmpty x = false := by
  intro x hx
  have hhead := List.head?_dropWhile_not isEmpty xs
  rw [head?_dropEndWhile hx] at hhead
  exact hhead

/-- The first part of a body starts with no empty line. -/
theorem head?_opening {followed : Bool} {xs : List α} {x : α}
    (h : x ∈ (opening isEmpty isComment followed xs).head?) : isEmpty x = false := by
  rw [opening] at h
  split at h
  · exact head?_inner x (head?_dropEndWhile h)
  · exact head?_inner x h

end

/-- Squeezing empty lines leaves something where something was. -/
theorem isEmpty_squeeze {α : Type} {isEmpty : α → Bool} (xs : List α) :
    (squeeze isEmpty false xs).isEmpty = xs.isEmpty := by
  cases xs with
  | nil => rfl
  | cons x xs => exact List.isEmpty_eq_false_iff.2 squeeze_false_ne_nil

/-- Nothing is left at the end if all of it may go. -/
theorem isEmpty_dropEndWhile {α : Type} (p : α → Bool) (xs : List α) :
    (Text.dropEndWhile p xs).isEmpty = xs.all p := by
  cases hall : xs.all p with
  | true => rw [(Text.endWhile_of_all hall).2, List.isEmpty_nil]
  | false =>
    refine List.isEmpty_eq_false_iff.2 fun hnil => ?_
    have hsplit := Text.dropEndWhile_append_takeEndWhile p xs
    rw [hnil, List.nil_append] at hsplit
    rw [← hsplit, Text.all_takeEndWhile] at hall
    cases hall

section
variable {α : Type} {isEmpty isComment p : α → Bool} {lines items front back xs : List α}
  {followed : Bool}

/-- Nothing is left out of a list that neither starts nor ends so. -/
theorem dropWhile_of_head (h : ∀ x ∈ xs.head?, p x = false) : xs.dropWhile p = xs := by
  cases xs with
  | nil => rfl
  | cons x xs => rw [List.dropWhile_cons, h x rfl, if_neg Bool.false_ne_true]

/-- Nothing goes from an end that may not. -/
theorem endWhile_of_last (h : ∀ x ∈ xs.getLast?, p x = false) :
    Text.takeEndWhile p xs = [] ∧ Text.dropEndWhile p xs = xs := by
  obtain ⟨htake, hdrop⟩ := Text.endWhile_append h []
  rw [List.append_nil] at htake hdrop
  exact ⟨htake, hdrop.trans (List.append_nil xs)⟩

/-- Items with some lines in front of the comments that belong to what follows; the empty lines at
both ends go, and those in a row but one. -/
def withLines (isEmpty isComment : α → Bool) (lines : List α) (followed : Bool) (items : List α) :
    List α :=
  squeeze isEmpty false (Text.dropEndWhile isEmpty (opening isEmpty isComment followed items)) ++
    lines ++ closing isEmpty isComment followed items

/-- Items that neither start nor end with an empty line and hold no two in a row. -/
structure IsTrim (isEmpty : α → Bool) (xs : List α) : Prop where
  head : ∀ x ∈ xs.head?, isEmpty x = false
  last : ∀ x ∈ xs.getLast?, isEmpty x = false
  squeezed : squeeze isEmpty false xs = xs

/-- All that is told of the items is which are empty lines. -/
theorem isTrim_map {β : Type} {f : β → α} {xs : List β} :
    IsTrim isEmpty (xs.map f) ↔ IsTrim (isEmpty ∘ f) xs := by
  have hsqueezed : squeeze isEmpty false (xs.map f) = xs.map f ↔
      squeeze (isEmpty ∘ f) false xs = xs := by
    rw [squeeze_map]
    refine ⟨fun h => (sublist_squeeze false xs).eq_of_length ?_, fun h => by rw [h]⟩
    have hlength := congrArg List.length h
    rwa [List.length_map, List.length_map] at hlength
  constructor
  · exact fun h => ⟨fun x hx => h.head (f x) (by rw [List.head?_map]; exact Option.mem_map_of_mem f hx),
      fun x hx => h.last (f x) (by rw [List.getLast?_map]; exact Option.mem_map_of_mem f hx),
      hsqueezed.1 h.squeezed⟩
  · refine fun h => ⟨fun y hy => ?_, fun y hy => ?_, hsqueezed.2 h.squeezed⟩
    · rw [List.head?_map] at hy
      obtain ⟨x, hx, rfl⟩ := Option.map_eq_some_iff.1 hy
      exact h.head x hx
    · rw [List.getLast?_map] at hy
      obtain ⟨x, hx, rfl⟩ := Option.map_eq_some_iff.1 hy
      exact h.last x hx

/-- What stands in front of the lines is trim. -/
theorem isTrim_opening (followed : Bool) (items : List α) : IsTrim isEmpty (squeeze isEmpty false
    (Text.dropEndWhile isEmpty (opening isEmpty isComment followed items))) where
  head x hx := by
    rw [head?_squeeze_false] at hx
    exact head?_opening (head?_dropEndWhile hx)
  last x hx := by
    obtain ⟨y, hy, rfl | ⟨hey, -⟩⟩ := getLast?_squeeze hx
    · exact Text.getLast?_dropEndWhile isEmpty _ _ hy
    · rw [Text.getLast?_dropEndWhile isEmpty _ _ hy] at hey
      cases hey
  squeezed := squeeze_squeeze false _

/-- What is trim is all that is left of it and of empty lines behind it. -/
theorem IsTrim.inner_append (h : IsTrim isEmpty front) (hlines : ∀ x ∈ lines, isEmpty x = true) :
    inner isEmpty (front ++ lines) = front := by
  have hall : lines.all isEmpty = true := List.all_eq_true.2 hlines
  rw [inner]
  cases front with
  | nil =>
    rw [List.nil_append, List.dropWhile_eq_nil_iff.2 hlines]
    rfl
  | cons x front =>
    have hhead : (x :: front ++ lines).dropWhile isEmpty = x :: front ++ lines :=
      dropWhile_of_head fun y hy => h.head y hy
    rw [hhead,
      (Text.endWhile_append h.last lines).2, (Text.endWhile_of_all hall).2, List.append_nil]

/-- Comments that belong to what follows stand behind something. -/
theorem opening_ne_nil (h : closing isEmpty isComment followed items ≠ []) :
    squeeze isEmpty false (Text.dropEndWhile isEmpty (opening isEmpty isComment followed items)) ≠ []
      ∧ followed = true := by
  rw [closing] at h
  split at h
  · rename_i hcut
    have hcut' := hcut
    rw [isCut, Bool.and_eq_true, Bool.not_eq_true'] at hcut'
    refine ⟨fun hnil => ?_, hcut'.1⟩
    have hempty := congrArg List.isEmpty hnil
    rw [isEmpty_squeeze, isEmpty_dropEndWhile, opening, if_pos hcut] at hempty
    cases hfirst : (Text.dropEndWhile isComment (inner isEmpty items)) with
    | nil =>
      have hnone := congrArg List.isEmpty hfirst
      rw [isEmpty_dropEndWhile, hcut'.2] at hnone
      cases hnone
    | cons x rest =>
      have hx : isEmpty x = false :=
        head?_inner x (head?_dropEndWhile (p := isComment) (by rw [hfirst]; rfl))
      rw [hfirst] at hempty
      simp [hx] at hempty
  · exact absurd rfl h

/-- Without comments that belong to what follows, what stands in front of the lines ends with no
comment, or is nothing else. -/
theorem endsInComment_of_closing (hdisjoint : ∀ x, isEmpty x = true → isComment x = false)
    (h : closing isEmpty isComment true items = []) :
    let front := squeeze isEmpty false
      (Text.dropEndWhile isEmpty (opening isEmpty isComment true items))
    front.all isComment = true ∨ ∀ x ∈ front.getLast?, isComment x = false := by
  intro front
  rw [closing] at h
  split at h
  · rename_i hcut
    right
    have hinner : Text.dropEndWhile isComment (inner isEmpty items) = inner isEmpty items := by
      have hsplit := Text.dropEndWhile_append_takeEndWhile isComment (inner isEmpty items)
      rwa [h, List.append_nil] at hsplit
    intro x hx
    obtain ⟨y, hy, hcase⟩ := getLast?_squeeze hx
    rw [opening, if_pos hcut, hinner, inner,
      (endWhile_of_last (Text.getLast?_dropEndWhile isEmpty _)).2, ← inner] at hy
    have hcomment := Text.getLast?_dropEndWhile isComment (inner isEmpty items) y (by rwa [hinner])
    rcases hcase with rfl | ⟨-, hex⟩
    · exact hcomment
    · exact hdisjoint x hex
  · rename_i hcut
    left
    have hall : (inner isEmpty items).all isComment = true := by
      simpa [isCut] using hcut
    refine List.all_eq_true.2 fun x hx => List.all_eq_true.1 hall x ?_
    have hmem := Text.mem_of_mem_dropEndWhile ((sublist_squeeze _ _).subset hx)
    rwa [opening, if_neg hcut] at hmem

/-- **Lines that have been put are put again.** -/
theorem withLines_withLines (hdisjoint : ∀ x, isEmpty x = true → isComment x = false)
    (hlines : ∀ x ∈ lines, isEmpty x = true) (hne : followed = true → lines ≠ []) :
    withLines isEmpty isComment lines followed (withLines isEmpty isComment lines followed items) =
      withLines isEmpty isComment lines followed items := by
  have htrim := @isTrim_opening α isEmpty isComment followed items
  have hback : ∀ x ∈ closing isEmpty isComment followed items, isComment x = true := fun x hx =>
    isComment_of_mem_closing hx
  have hopening := @opening_ne_nil α isEmpty isComment items followed
  have hends := @endsInComment_of_closing α isEmpty isComment items hdisjoint
  show withLines isEmpty isComment lines followed (_ ++ lines ++ _) = _ ++ lines ++ _
  generalize hfront : squeeze isEmpty false
    (Text.dropEndWhile isEmpty (opening isEmpty isComment followed items)) = front at *
  by_cases hnil : closing isEmpty isComment followed items = []
  · -- nothing belongs to what follows, so all lines are at the end
    have hinner := htrim.inner_append hlines
    have hsame : (if isCut isEmpty isComment followed (front ++ lines) then
        Text.dropEndWhile isComment front else front) = front ∧
        (if isCut isEmpty isComment followed (front ++ lines) then
          Text.takeEndWhile isComment front else []) = [] := by
      split
      · rename_i hcut
        rw [isCut, hinner, Bool.and_eq_true, Bool.not_eq_true'] at hcut
        obtain ⟨rfl, hcut⟩ := hcut
        have hlast := (hends hnil).resolve_left (by rw [hfront, hcut]; exact Bool.false_ne_true)
        rw [hfront] at hlast
        exact ⟨(endWhile_of_last hlast).2, (endWhile_of_last hlast).1⟩
      · exact ⟨rfl, rfl⟩
    rw [hnil, List.append_nil, withLines, opening, closing, hinner, hsame.1, hsame.2,
      (endWhile_of_last htrim.last).2, htrim.squeezed, List.append_nil]
  · obtain ⟨hfrontNe, rfl⟩ := hopening hnil
    generalize closing isEmpty isComment true items = back at *
    obtain ⟨line, hline⟩ := List.exists_mem_of_ne_nil _ (hne rfl)
    have hlast : ∀ x ∈ (front ++ lines).getLast?, isComment x = false := by
      intro x hx
      rw [List.getLast?_append_of_ne_nil _ (hne rfl)] at hx
      exact hdisjoint x (hlines x (List.mem_of_getLast? hx))
    have hinner : inner isEmpty (front ++ lines ++ back) = front ++ lines ++ back := by
      have hhead : ∀ x ∈ (front ++ lines ++ back).head?, isEmpty x = false := by
        intro x hx
        rw [List.append_assoc, List.head?_append_of_ne_nil _ hfrontNe] at hx
        exact htrim.head x hx
      rw [inner, dropWhile_of_head hhead]
      refine (endWhile_of_last fun x hx => ?_).2
      rw [List.getLast?_append_of_ne_nil _ hnil] at hx
      by_contra hempty
      have hcomment := hback x (List.mem_of_getLast? hx)
      rw [hdisjoint x (by simpa using hempty)] at hcomment
      cases hcomment
    have hcut : isCut isEmpty isComment true (front ++ lines ++ back) = true := by
      rw [isCut, hinner, Bool.true_and, Bool.not_eq_true', List.all_eq_false]
      refine ⟨line, by simp [hline], ?_⟩
      rw [hdisjoint line (hlines line hline)]
      exact Bool.false_ne_true
    obtain ⟨htake, hdrop⟩ := Text.endWhile_append hlast back
    obtain ⟨htakeBack, hdropBack⟩ := Text.endWhile_of_all (List.all_eq_true.2 hback)
    rw [withLines, opening, closing, hcut, if_pos rfl, if_pos rfl, hinner, htake, hdrop, htakeBack,
      hdropBack, List.append_nil, (Text.endWhile_append_of_all (List.all_eq_true.2 hlines) front).2,
      (endWhile_of_last htrim.last).2, htrim.squeezed]

end

/-! ## Items with empty lines behind them -/

section
variable {α : Type} {isEmpty : α → Bool}

/-- Without marks all empty lines may be removed. -/
theorem isRemovable_unprotected : isRemovable isEmpty ∘ (fun x => (x, false)) = isEmpty :=
  funext fun x => Bool.and_true (isEmpty x)

/-- Without marks all empty lines at the end go. -/
theorem stripEnd_unprotected (xs : List α) :
    stripEnd isEmpty (unprotected xs) = unprotected (Text.dropEndWhile isEmpty xs) := by
  rw [stripEnd, unprotected, dropEndWhile_map, isRemovable_unprotected]
  rfl

/-- Without marks a list is squeezed, and loses the empty lines in front. -/
theorem tidy_unprotected (xs : List α) :
    tidy isEmpty (unprotected xs) =
      unprotected (squeeze isEmpty false (xs.dropWhile isEmpty)) := by
  rw [tidy, collapse_unprotected, stripStart, unprotected, List.dropWhile_map,
    isRemovable_unprotected, dropWhile_squeeze]
  rfl

/-- Squeezing comes to the same before and after the end is stripped. -/
theorem dropEndWhile_squeeze (xs : List α) :
    Text.dropEndWhile isEmpty (squeeze isEmpty false xs) =
      squeeze isEmpty false (Text.dropEndWhile isEmpty xs) :=
  (endWhile_squeeze (fun _ _ hx hy => hx.trans hy.symm) false xs).1

/-- As many empty lines are put as are asked for, if there is room in an array. -/
theorem padding_of_le {newline : String} {count : Nat} (h : count ≤ maxItems) :
    padding newline count = .ok (List.replicate count (.emptyLine newline)) := if_pos h

/-- Empty lines are put only if there is room in an array. -/
theorem le_of_padding {newline : String} {count : Nat} {lines : List Statement}
    (h : padding newline count = .ok lines) : count ≤ maxItems := by
  by_contra hcount
  have herror : padding newline count = .error .list := if_neg hcount
  cases herror.symm.trans h

/-- Items are put in place of others with as many empty lines as are told, unless these are too
many. -/
theorem carryOut_withPadding {p : Progress} {item : Statement → α} {xs front closing : List α}
    {issues : List (Marked α) → List Issue} {newline : String} {count : Nat}
    (hsub : (front ++ closing).Sublist xs)
    (hi : issues (unprotected
      (front ++ List.replicate count (item (.emptyLine newline)) ++ closing)) = [])
    (hok : (p.carryOut (unprotected xs) issues (withPadding item xs.length
      (unprotected front) (unprotected closing) (padding newline count))).2.broken = none ∨
        count ≤ maxItems) :
    count ≤ maxItems ∧ p.carryOut (unprotected xs) issues (withPadding item xs.length
        (unprotected front) (unprotected closing) (padding newline count)) =
      (unprotected (front ++ List.replicate count (item (.emptyLine newline)) ++ closing), p) := by
  cases hp : padding newline count with
  | error reason =>
    rcases hok with hok | hok
    · rw [hp] at hok
      cases hok
    · cases hp.symm.trans (padding_of_le hok)
  | ok lines =>
    refine ⟨le_of_padding hp, ?_⟩
    have hresult : unprotected front ++ lines.map (fun s => (item s, false)) ++
        unprotected closing =
          unprotected (front ++ List.replicate count (item (.emptyLine newline)) ++ closing) := by
      rw [padding_eq_ok hp, List.map_replicate, unprotected, unprotected, unprotected,
        List.map_append, List.map_append, List.map_replicate]
    rw [withPadding, hresult]
    split
    · -- nothing has gone and no empty line is put, so nothing changes
      rename_i hkeep
      rw [Bool.and_eq_true, decide_eq_true_eq, length_unprotected] at hkeep
      have hcount : count = 0 := by
        have hempty := hkeep.1
        rw [padding_eq_ok hp] at hempty
        simpa using hempty
      subst hcount
      rw [List.replicate_zero, List.append_nil] at hkeep ⊢
      rw [hsub.eq_of_length hkeep.2]
      rfl
    · rw [Progress.carryOut, hi]

end

/-! ## The items of a block -/

/-- Whether a body item is a comment. -/
def isComment (i : BodyItem) : Bool := i.isOfType .comment

/-- An empty line is no comment. -/
theorem isComment_of_isEmptyItem {i : BodyItem} (h : isEmptyItem i = true) :
    isComment i = false := by
  cases i with
  | statement s =>
    have hs : s.type = .emptyLine := of_decide_eq_true h
    exact decide_eq_false (by rw [hs]; nofun)
  | control c => rfl

/-- Comments are cut off before or after squeezing, since they are no empty lines. -/
theorem splitClosing_unprotected (followed : Bool) (items : List BodyItem) :
    splitClosing followed (unprotected (squeeze isEmptyItem false (inner isEmptyItem items))) =
      (unprotected (squeeze isEmptyItem false (opening isEmptyItem isComment followed items)),
        unprotected (closing isEmptyItem isComment followed items)) := by
  have hcomment : isCommentItem ∘ (fun x => (x, false)) = isComment := rfl
  obtain ⟨hdrop, between, htake⟩ := @endWhile_squeeze BodyItem isEmptyItem isComment
    (fun _ _ hx hy => (isComment_of_isEmptyItem hx).trans (isComment_of_isEmptyItem hy).symm)
    false (inner isEmptyItem items)
  have hnone : ∀ i ∈ Text.takeEndWhile isComment (inner isEmptyItem items),
      isEmptyItem i = false := by
    intro i hi
    have hi := List.all_eq_true.1 (Text.all_takeEndWhile _ _) i hi
    by_contra hempty
    rw [isComment_of_isEmptyItem (Bool.not_eq_false _ ▸ hempty)] at hi
    cases hi
  rw [squeeze_of_none hnone] at htake
  rw [splitClosing, unprotected, dropEndWhile_map, takeEndWhile_map, hcomment, hdrop, htake,
    List.isEmpty_map, isEmpty_squeeze, isEmpty_dropEndWhile, opening, closing, isCut]
  split <;> rfl

/-- The items of a block and the empty lines behind it. -/
theorem spaceBlock_unprotected (spacing : Spacing) (place : Place) (type : BlockType)
    (items : List BodyItem) :
    spaceBlock spacing place type false (unprotected items) =
      withPadding .statement items.length
        (unprotected (squeeze isEmptyItem false (Text.dropEndWhile isEmptyItem
          (opening isEmptyItem isComment place.blockFollows items))))
        (unprotected (closing isEmptyItem isComment place.blockFollows items))
        (padding spacing.newline (linesBehind spacing place type)) := by
  have hinner : stripEnd isEmptyItem (tidy isEmptyItem (unprotected items)) =
      unprotected (squeeze isEmptyItem false (inner isEmptyItem items)) := by
    rw [tidy_unprotected, stripEnd_unprotected, dropEndWhile_squeeze]
    rfl
  rw [spaceBlock]
  dsimp only
  rw [lastMark_unprotected, if_neg Bool.false_ne_true, hinner, splitClosing_unprotected,
    length_unprotected]
  dsimp only
  rw [stripEnd_unprotected, dropEndWhile_squeeze]

/-! ## Items that are told apart alike -/

section
variable {a b : List BodyItem}

/-- The type of a statement is one of its traits. -/
theorem isOfType_eq_trait (type : StatementType) : BodyItem.isOfType type =
    (fun t : NodeType × Nat => decide (t.1 = .statement type)) ∘ BodyItem.trait := by
  funext i
  cases i with
  | statement s =>
    have hsame : s.type = type ↔ NodeType.statement s.type = .statement type := by
      rw [NodeType.statement.injEq]
    exact decide_eq_decide.2 hsame
  | control c => rfl

/-- Whether an item is an empty line is one of its traits. -/
theorem isEmptyItem_eq_trait : isEmptyItem =
    (fun t : NodeType × Nat => decide (t.1 = .statement .emptyLine)) ∘ BodyItem.trait :=
  isOfType_eq_trait .emptyLine

/-- Whether an item is a comment is one of its traits. -/
theorem isComment_eq_trait : isComment =
    (fun t : NodeType × Nat => decide (t.1 = .statement .comment)) ∘ BodyItem.trait :=
  isOfType_eq_trait .comment

/-- Bodies with the same traits are cut at the same place, in front of it. -/
theorem opening_traits (h : a.map BodyItem.trait = b.map BodyItem.trait) (followed : Bool) :
    (opening isEmptyItem isComment followed a).map BodyItem.trait =
      (opening isEmptyItem isComment followed b).map BodyItem.trait := by
  rw [isEmptyItem_eq_trait, isComment_eq_trait, ← opening_map, ← opening_map, h]

/-- Bodies with the same traits are cut at the same place, behind it. -/
theorem closing_traits (h : a.map BodyItem.trait = b.map BodyItem.trait) (followed : Bool) :
    (closing isEmptyItem isComment followed a).map BodyItem.trait =
      (closing isEmptyItem isComment followed b).map BodyItem.trait := by
  rw [isEmptyItem_eq_trait, isComment_eq_trait, ← closing_map, ← closing_map, h]

/-- Bodies with the same traits hold as many statements. -/
theorem length_contents_traits (h : a.map BodyItem.trait = b.map BodyItem.trait) :
    (contents (bodyStatements a)).length = (contents (bodyStatements b)).length := by
  induction a generalizing b with
  | nil =>
    rw [List.map_nil, eq_comm, List.map_eq_nil_iff] at h
    rw [h]
  | cons i a ih =>
    obtain ⟨j, b, rfl, hj, hb⟩ := List.map_eq_cons_iff.1 h.symm
    have hcount : (contents j.statements).length = (contents i.statements).length :=
      congrArg Prod.snd hj
    rw [bodyStatements, bodyStatements, contents_append, contents_append, List.length_append,
      List.length_append, hcount, ih hb.symm]

/-- Bodies with the same traits have the same room. -/
theorem rooms_traits (h : a.map BodyItem.trait = b.map BodyItem.trait) (first rest : Room) :
    rooms first rest (bodyStatements a) = rooms first rest (bodyStatements b) :=
  rooms_congr (length_contents_traits h)

end

/-! ## Bodies with empty lines behind them -/

/-- Items without the empty lines at both ends, with empty lines in front of the comments that
belong to what follows. -/
def spaced (newline : String) (count : Nat) (followed : Bool) (items : List BodyItem) :
    List BodyItem :=
  squeeze isEmptyItem false (Text.dropEndWhile isEmptyItem
      (opening isEmptyItem isComment followed items)) ++
    List.replicate count (.statement (.emptyLine newline)) ++
      closing isEmptyItem isComment followed items

section
variable {newline : String} {count : Nat} {followed : Bool} {items : List BodyItem}

/-- **A body that is spaced is so again.** -/
theorem spaced_spaced (hcount : followed = true → 1 ≤ count) :
    spaced newline count followed (spaced newline count followed items) =
      spaced newline count followed items := by
  refine withLines_withLines (fun _ => isComment_of_isEmptyItem) (fun i hi => ?_)
    fun hfollowed hnil => ?_
  · rw [List.eq_of_mem_replicate hi]
    rfl
  · have := hcount hfollowed
    rw [List.replicate_eq_nil_iff] at hnil
    omega

/-- Of which types items are shows where types are kept. -/
theorem isOfType_comp_view {w : Statement → Statement} (hw : ∀ s, (w s).type = s.type)
    (type : StatementType) : BodyItem.isOfType type ∘ BodyItem.view w = BodyItem.isOfType type := by
  funext i
  cases i with
  | statement s => exact congrArg (fun t => decide (t = type)) (hw s)
  | control c => rfl

/-- What is seen of a body that is spaced depends on what is seen of the body alone. -/
theorem map_spaced {w : Statement → Statement} (hw : ∀ s, (w s).type = s.type) :
    (spaced newline count followed items).map (BodyItem.view w) =
      withLines isEmptyItem isComment
        (List.replicate count (.statement (w (.emptyLine newline)))) followed
        (items.map (BodyItem.view w)) := by
  have hempty : isEmptyItem ∘ BodyItem.view w = isEmptyItem := isOfType_comp_view hw .emptyLine
  have hcomment : isComment ∘ BodyItem.view w = isComment := isOfType_comp_view hw .comment
  rw [withLines, opening_map, closing_map, dropEndWhile_map, squeeze_map, hempty, hcomment,
    spaced, List.map_append, List.map_append, List.map_replicate]
  rfl

/-- What is left of a body are some of its items, in their order. -/
theorem sublist_spaced (followed : Bool) (items : List BodyItem) :
    (squeeze isEmptyItem false (Text.dropEndWhile isEmptyItem
      (opening isEmptyItem isComment followed items)) ++
        closing isEmptyItem isComment followed items).Sublist items := by
  have hopening := (@sublist_squeeze BodyItem isEmptyItem false _).trans
    (sublist_dropEndWhile isEmptyItem (opening isEmptyItem isComment followed items))
  have hall := hopening.append (.refl (closing isEmptyItem isComment followed items))
  rw [opening_append_closing] at hall
  exact hall.trans (sublist_inner isEmptyItem items)

/-- In a body that is spaced stands what was there, and empty lines. -/
theorem mem_spaced {i : BodyItem} (h : i ∈ spaced newline count followed items) :
    i ∈ items ∨ i = .statement (.emptyLine newline) := by
  have hsub := (sublist_spaced followed items).subset
  rw [spaced, List.mem_append, List.mem_append] at h
  rcases h with (h | h) | h
  · exact .inl (hsub (List.mem_append_left _ h))
  · exact .inr (List.eq_of_mem_replicate h)
  · exact .inl (hsub (List.mem_append_right _ h))

/-- The statements of empty lines are the lines. -/
theorem bodyStatements_lines (newline : String) (count : Nat) :
    bodyStatements (List.replicate count (.statement (.emptyLine newline))) =
      List.replicate count (.emptyLine newline) := by
  induction count with
  | zero => rfl
  | succ count ih =>
    rw [List.replicate_succ, List.replicate_succ, bodyStatements, BodyItem.statements, ih]
    rfl

/-- Empty lines hold nothing. -/
theorem contents_lines (newline : String) (count : Nat) :
    contents (List.replicate count (.emptyLine newline)) = [] := by
  rw [contents, List.filter_eq_nil_iff]
  intro s hs
  rw [List.eq_of_mem_replicate hs]
  exact Bool.false_ne_true

/-- A body that is spaced has no flaw if it had none. -/
theorem holds_spaced (h : bodyHolds (fun s => s.flaws = []) items) :
    bodyHolds (fun s => s.flaws = []) (spaced newline count followed items) := by
  rw [bodyHolds_iff] at h ⊢
  intro i hi
  rcases mem_spaced hi with hi | rfl
  · exact h i hi
  · rw [BodyItem.Holds]
    exact ⟨rfl, flaws_emptyLine newline⟩

/-- Between empty lines stand no bodies but those of the items. -/
theorem tidy_spaced (h : bodyTidy items) : bodyTidy (spaced newline count followed items) := by
  refine bodyTidy_iff.2 fun c hc => ?_
  rcases mem_spaced hc with hc | hc
  · exact bodyTidy_iff.1 h c hc
  · cases hc

variable (hparts : ∀ i ∈ items, IsPart isEmptyItem BodyItem.statements i)
include hparts

/-- Nothing but empty lines goes from the first part of a body. -/
theorem contents_opening :
    contents (bodyStatements (squeeze isEmptyItem false (Text.dropEndWhile isEmptyItem
        (opening isEmptyItem isComment followed items)))) =
      contents (bodyStatements (opening isEmptyItem isComment followed items)) := by
  have hopening : ∀ i ∈ opening isEmptyItem isComment followed items,
      IsPart isEmptyItem BodyItem.statements i := by
    intro i hi
    refine hparts i ((sublist_inner isEmptyItem items).subset ?_)
    rw [← opening_append_closing isEmptyItem isComment followed]
    exact List.mem_append_left _ hi
  rw [bodyStatements_eq_flatMap, bodyStatements_eq_flatMap, contents_squeeze
    (fun i hi => hopening i (Text.mem_of_mem_dropEndWhile hi)), (contents_trimmed hopening).2]

/-- A body that is spaced holds what it held. -/
theorem contents_spaced :
    contents (bodyStatements (spaced newline count followed items)) =
      contents (bodyStatements items) := by
  have htrimmed := (contents_trimmed hparts).1
  have hinner := (contents_trimmed fun i hi =>
    hparts i ((List.dropWhile_sublist isEmptyItem).subset hi)).2
  rw [htrimmed, ← bodyStatements_eq_flatMap, ← bodyStatements_eq_flatMap] at hinner
  have hall : Text.dropEndWhile isEmptyItem (items.dropWhile isEmptyItem) = _ :=
    (opening_append_closing isEmptyItem isComment followed items).symm
  rw [hall, bodyStatements_append, contents_append] at hinner
  rw [spaced, bodyStatements_append, bodyStatements_append, contents_append, contents_append,
    bodyStatements_lines, contents_lines, List.append_nil, contents_opening hparts, hinner]

/-- **A body leaves as much room as is told,** behind a name and in front of the comments that
belong to what follows. -/
theorem fitted_spaced :
    Fitted 0
      (rooms (.exactly 0) (.atMost 1)
          (bodyStatements (opening isEmptyItem isComment followed items)) ++
        rooms (.exactly count) (.exactly 0)
          (bodyStatements (closing isEmptyItem isComment followed items)))
      (bodyStatements (spaced newline count followed items))
      (if (closing isEmptyItem isComment followed items).isEmpty then count else 0) := by
  have hopening : ∀ i ∈ Text.dropEndWhile isEmptyItem
      (opening isEmptyItem isComment followed items), IsPart isEmptyItem BodyItem.statements i := by
    intro i hi
    refine hparts i ((sublist_inner isEmptyItem items).subset ?_)
    rw [← opening_append_closing isEmptyItem isComment followed]
    exact List.mem_append_left _ (Text.mem_of_mem_dropEndWhile hi)
  have hfirst := fitted_headed hopening fun i hi => head?_opening (head?_dropEndWhile hi)
  rw [endsInEmpty_eq_false (Text.getLast?_dropEndWhile _ _), ← bodyStatements_eq_flatMap,
    rooms_congr (congrArg List.length (contents_opening hparts))] at hfirst
  have hlines := fitted_lines 0 count (s := Statement.emptyLine newline) rfl
  rw [Nat.zero_add, ← bodyStatements_lines] at hlines
  have hfront := hfirst.append hlines
  rw [List.append_nil, ← bodyStatements_append] at hfront
  rw [spaced, bodyStatements_append]
  refine hfront.append ?_
  have hcomments : ∀ s ∈ bodyStatements (closing isEmptyItem isComment followed items),
      s.isEmptyLine = false := by
    rw [bodyStatements_eq_flatMap, List.forall_mem_flatMap]
    intro i hi s hs
    have hi := isComment_of_mem_closing hi
    cases i with
    | statement r =>
      rw [BodyItem.statements, List.mem_singleton] at hs
      have htype : r.type = .comment := of_decide_eq_true hi
      rw [hs, Statement.isEmptyLine, htype]
      rfl
    | control c => cases hi
  split
  · rename_i hnil
    rw [List.isEmpty_iff.1 hnil]
    exact .nil count
  · rename_i hne
    refine fitted_statements hcomments (fun hnil => hne ?_) rfl rfl
    rw [bodyStatements_eq_flatMap, List.flatMap_eq_nil_iff] at hnil
    rw [List.isEmpty_iff, List.eq_nil_iff_forall_not_mem]
    exact fun i hi => i.statements_ne_nil (hnil i hi)

end

/-! ## Rooms of blocks -/

/-- How many empty lines are configured between blocks. -/
def Spacing.between (spacing : Spacing) : BlockType → Nat
  | .testCase => spacing.testCases
  | .keyword => spacing.keywords

/-- How much room there is in front of the statements of a block: `name` in front of its name, none
behind that, and as much as is configured in front of the comments that belong to the next block. -/
def blockRooms (spacing : Spacing) (name : Room) (followed : Bool) (b : Block) : List Room :=
  name ::
    (rooms (.exactly 0) (.atMost 1)
        (bodyStatements (opening isEmptyItem isComment followed b.body)) ++
      rooms (.exactly (spacing.between b.type)) (.exactly 0)
        (bodyStatements (closing isEmptyItem isComment followed b.body)))

/-- The room in front of the name behind a block: none behind comments that belong to it. -/
def nextName (spacing : Spacing) (b : Block) : Room :=
  .exactly (if (closing isEmptyItem isComment true b.body).isEmpty then spacing.between b.type
    else 0)

/-- How much room there is in front of the statements of blocks. -/
def blocksRooms (spacing : Spacing) (name : Room) : List Block → List Room
  | [] => []
  | b :: bs =>
    blockRooms spacing name (!bs.isEmpty) b ++ blocksRooms spacing (nextName spacing b) bs

/-- The empty lines at the end of a block. -/
def linesAfter (spacing : Spacing) (place : Place) (b : Block) : Nat :=
  if (closing isEmptyItem isComment place.blockFollows b.body).isEmpty then
    linesBehind spacing place b.type
  else 0

/-- Statements of a file with other empty lines. -/
structure Respaced (newline : String) (old new : List Statement) : Prop where
  contents : contents new = contents old
  mem : ∀ s ∈ new, s ∈ old ∨ s = .emptyLine newline

/-- A body that has been walked through. -/
theorem respaced_spaced {newline : String} {size n : Nat} {old items : List BodyItem}
    (h : Relaid newline size n old items) (count : Nat) (followed : Bool) :
    Respaced newline (finished newline size n (bodyStatements old))
      (bodyStatements (spaced newline count followed items)) where
  contents := (contents_spaced h.parts).trans h.thinned.contents
  mem s hs := by
    rw [bodyStatements_eq_flatMap, List.mem_flatMap] at hs
    obtain ⟨i, hi, hs⟩ := hs
    rcases mem_spaced hi with hi | rfl
    · refine .inl (h.thinned.sublist.subset ?_)
      rw [bodyStatements_eq_flatMap, List.mem_flatMap]
      exact ⟨i, hi, hs⟩
    · rw [BodyItem.statements] at hs
      exact .inr (List.mem_singleton.1 hs)

section
variable {newline : String} {a b c d : List Statement}

/-- Statements one behind the other are spaced if each of them are. -/
theorem Respaced.append (h : Respaced newline a b) (h' : Respaced newline c d) :
    Respaced newline (a ++ c) (b ++ d) where
  contents := by rw [contents_append, contents_append, h.contents, h'.contents]
  mem s hs := by
    rw [List.mem_append] at hs ⊢
    rcases hs with hs | hs
    · exact (h.mem s hs).imp_left .inl
    · exact (h'.mem s hs).imp_left .inr

/-- Where only empty lines go, statements are spaced. -/
theorem respaced_of_thinned (h : Thinned a b) : Respaced newline a b :=
  ⟨h.contents, fun _ hs => .inl (h.sublist.subset hs)⟩

end

section
variable {spacing : Spacing} {place : Place}

/-- In front of another block stand as many lines as are configured between blocks. -/
theorem linesBehind_of_followed (h : place.blockFollows = true) (type : BlockType) :
    linesBehind spacing place type = spacing.between type := by
  rw [linesBehind.eq_def, if_pos h]
  rfl

/-- Behind a block that another one follows stand exactly the lines between the two. -/
theorem linesAfter_of_followed (h : place.blockFollows = true) (b : Block) :
    nextName spacing b = .exactly (linesAfter spacing place b) := by
  rw [nextName, linesAfter, h, linesBehind_of_followed h]

/-- Behind the last block of a section stand as many lines as are configured between sections. -/
theorem linesAfter_of_last (h : place.blockFollows = false) (b : Block) :
    linesAfter spacing place b = if place.sectionFollows then spacing.sections else 0 := by
  have hnil : closing isEmptyItem isComment false b.body = [] := rfl
  rw [linesAfter, h, hnil, linesBehind.eq_def, h]
  rfl

/-- Where comments belong to the next block, one follows. -/
theorem rooms_closing (followed : Bool) (h : place.blockFollows = followed) (b : Block) :
    rooms (.exactly (linesBehind spacing place b.type)) (.exactly 0)
        (bodyStatements (closing isEmptyItem isComment followed b.body)) =
      rooms (.exactly (spacing.between b.type)) (.exactly 0)
        (bodyStatements (closing isEmptyItem isComment followed b.body)) := by
  cases followed with
  | false => rfl
  | true => rw [linesBehind_of_followed h]

end

/-- The name of a block is no empty line. -/
theorem isEmptyLine_name {P : Statement → Prop} {kind : SectionKind} {b : Block}
    (h : (SectionItem.block b).Holds P kind) : b.header.isEmptyLine = false := by
  rw [Statement.isEmptyLine, h.1.2.1]
  cases b.type <;> rfl

/-! ## Walks through blocks -/

/-- A walk that goes on behind the items of a section has gone on in front of them. -/
theorem broken_of_onSectionItems {t : Transform} {p : Progress} {items : List SectionItem}
    (h : (t.onSectionItems p items).2.broken = none) : p.broken = none := by
  obtain ⟨_, hback⟩ := t.back_onSectionItems p items
  exact hback.broken h

/-- The walk through items of a section comes to a block and then to the others. -/
theorem onSectionItems_block (t : Transform) (p : Progress) (b : Block)
    (items : List SectionItem) :
    t.onSectionItems p (.block b :: items) =
      ((.block (t.onBlock (p.followed (items.any (·.isBlock))) b).1.1,
          (t.onBlock (p.followed (items.any (·.isBlock))) b).1.2) ::
            (t.onSectionItems (t.onBlock (p.followed (items.any (·.isBlock))) b).2 items).1,
        (t.onSectionItems (t.onBlock (p.followed (items.any (·.isBlock))) b).2 items).2) := by
  rw [Transform.onSectionItems]
  rfl

/-- A walk in front of a block knows whether others follow. -/
theorem followed_place (p : Progress) (blocks : List Block) :
    (p.followed ((blocks.map SectionItem.block).any (·.isBlock))).place.blockFollows =
      !blocks.isEmpty := by
  cases blocks <;> rfl

/-- The empty lines behind a block of which it is known whether others follow. -/
theorem linesBehind_followed (spacing : Spacing) (p : Progress) (blocks : List Block)
    (type : BlockType) :
    linesBehind spacing (p.followed ((blocks.map SectionItem.block).any (·.isBlock))).place type =
      if blocks.isEmpty then if p.sectionFollows then spacing.sections else 0
      else spacing.between type := by
  cases blocks with
  | nil => rfl
  | cons b blocks => exact linesBehind_of_followed rfl type

section
variable (spacing : Spacing) {final : Option (Nat × Statement)} {size : Nat}

/-- The body of a block that is left. -/
theorem onBody_block (final : Option (Nat × Statement)) {p : Progress} (hp : p.IsCalm)
    {type : BlockType} (hparent : p.scope.parent?.map Container.type = some (.block type))
    {items : List BodyItem} (hi : bodyHolds (fun s => s.flaws = []) items)
    (hok : ((transform spacing final).onBody p false (unprotected items)).2.broken = none ∨
      linesBehind spacing p.place type ≤ maxItems) :
    linesBehind spacing p.place type ≤ maxItems ∧
      (transform spacing final).onBody p false (unprotected items) =
        (unprotected (spaced spacing.newline (linesBehind spacing p.place type) p.blockFollows
          items), p) := by
  have hleave : (transform spacing final).leaveBody p.place false (unprotected items) =
      spaceBlock spacing p.place type false (unprotected items) := by
    have hplace : p.place.scope.parent?.map Container.type = some (.block type) := hparent
    show leaveBody spacing p.place false (unprotected items) = _
    rw [leaveBody_eq, hplace]
  have hissues : bodyIssues (unmark (unprotected
      (spaced spacing.newline (linesBehind spacing p.place type) p.blockFollows items))) = [] := by
    rw [unmark_unprotected]
    exact bodyIssues_of_holds (holds_spaced hi) fun s hs =>
      (bodyHolds_statements (holds_spaced hi) s hs).1
  rw [Transform.onBody, hp.broken] at hok ⊢
  dsimp only at hok ⊢
  rw [Progress.remark_of_off_eq_nil hp.off, hleave, spaceBlock_unprotected] at hok ⊢
  exact carryOut_withPadding (sublist_spaced _ _) hissues hok

/-- A block behind `n` statements and at a place, and what a walk has made of it: a block with as
much room as is told.  A block that is seen so is seen as it was. -/
structure SpacedBlock (kind : SectionKind) (size n : Nat) (place : Place) (old new : Block) :
    Prop where
  type : new.type = old.type
  holds : (SectionItem.block new).Holds (fun s => s.flaws = []) kind
  respaced : Respaced spacing.newline (finished spacing.newline size n old.statements)
    new.statements
  fitted : ∀ k name, name.Admits k → Fitted k (blockRooms spacing name place.blockFollows old)
    new.statements (linesAfter spacing place old)
  fits : linesBehind spacing place old.type ≤ maxItems
  spaced : (place.blockFollows = true → 1 ≤ linesBehind spacing place old.type) →
    bodyTidy new.body ∧ EmptyLines.spaced spacing.newline (linesBehind spacing place old.type)
      place.blockFollows new.body = new.body
  rests : ∀ {w : Statement → Statement}, (∀ s, (w s).type = s.type) → bodyTidy old.body →
    (EmptyLines.spaced spacing.newline (linesBehind spacing place old.type) place.blockFollows
      old.body).map (BodyItem.view w) = old.body.map (BodyItem.view w) →
    finished spacing.newline size n old.statements = old.statements → new.view w = old.view w

/-- Whether the empty lines behind blocks, and `lines` behind the last, are not too many. -/
def blocksFit (lines : Nat) : List Block → Prop
  | [] => True
  | b :: bs =>
    (if bs.isEmpty then lines else spacing.between b.type) ≤ maxItems ∧ blocksFit lines bs

/-- Whether the bodies of blocks, as they are seen, have the distances that are configured, and
`lines` empty lines stand behind the last. -/
def blocksSpaced (w : Statement → Statement) (lines : Nat) : List Block → Prop
  | [] => True
  | b :: bs =>
    (bodyTidy b.body ∧ (spaced spacing.newline (if bs.isEmpty then lines else spacing.between b.type)
      (!bs.isEmpty) b.body).map (BodyItem.view w) = b.body.map (BodyItem.view w)) ∧
      blocksSpaced w lines bs

/-- Blocks of a section behind `n` statements, and what a walk has made of them: blocks with as much
room as is told and some empty lines behind them.  Blocks that are seen so are seen as they were. -/
structure SpacedBlocks (kind : SectionKind) (size n lines : Nat) (old new : List Block) : Prop where
  isEmpty : new.isEmpty = old.isEmpty
  holds : ∀ item ∈ new.map SectionItem.block, item.Holds (fun s => s.flaws = []) kind
  respaced : Respaced spacing.newline
    (finished spacing.newline size n (itemsStatements (old.map .block)))
    (itemsStatements (new.map .block))
  fitted : old ≠ [] → ∀ k name, name.Admits k →
    Fitted k (blocksRooms spacing name old) (itemsStatements (new.map .block)) lines
  fits : blocksFit spacing lines new
  spaced : (∀ type, 1 ≤ spacing.between type) → blocksSpaced spacing id lines new
  rests : ∀ {w : Statement → Statement}, (∀ s, (w s).type = s.type) →
    blocksSpaced spacing w lines old →
    finished spacing.newline size n (itemsStatements (old.map .block)) =
      itemsStatements (old.map .block) → new.map (Block.view w) = old.map (Block.view w)

variable (hfinal : ∀ n s, isFinal final n s = decide (n + 1 = size))
include hfinal

/-- **What a walk makes of a block.** -/
theorem onBlock_calm {p : Progress} (hp : p.IsCalm) {kind : SectionKind} {b : Block}
    (hb : (SectionItem.block b).Holds Statement.IsCalm kind)
    (hok : ((transform spacing final).onBlock p b).2.broken = none ∨
      linesBehind spacing p.place b.type ≤ maxItems) :
    ∃ new, (transform spacing final).onBlock p b = ((new, false), p.past b.statements) ∧
      SpacedBlock spacing kind size p.index p.place b new := by
  have hline := isEmptyLine_name hb
  obtain ⟨⟨hkind, htype, hheader⟩, hbody⟩ := hb
  have hp0 : (p.enter (.block b)).IsCalm := hp.enter fun r hr => by
    obtain rfl : b.header = r := Option.some.inj hr
    exact hheader.silent
  have hindex : (p.enter (.block b)).index = p.index := rfl
  have hplace (ss : List Statement) :
      linesBehind spacing ((p.enter (.block b)).past ss).place b.type =
        linesBehind spacing p.place b.type := rfl
  have hfollows (ss : List Statement) :
      ((p.enter (.block b)).past ss).blockFollows = p.blockFollows := rfl
  have hparent : (p.enter (.block b)).scope.parent?.map Container.type = some (.block b.type) := rfl
  have hleave := p.leave_past_enter (.block b)
  have h1 := onStatement_calm spacing hfinal hp0 hheader
  obtain ⟨items, h2, hitems⟩ := onItems_calm spacing hfinal (hp0.past [b.header]) hbody
  have hp2 := (hp0.past [b.header]).past (bodyStatements b.body)
  have hstatements : [b.header] ++ bodyStatements b.body = b.statements := rfl
  have hspaced : Relaid spacing.newline size (p.index + 1) b.body items := hitems
  rw [Progress.past_past, hstatements] at h2 hp2
  rw [Transform.onBlock, h1] at hok ⊢
  dsimp only at hok ⊢
  rw [h2] at hok ⊢
  dsimp only at hok ⊢
  obtain ⟨hfits, h3⟩ := onBody_block spacing final hp2 hparent hitems.holds
    (hok.imp_right (hplace _).trans_le)
  rw [hplace] at hfits
  rw [hplace, hfollows] at h3
  rw [h3]
  dsimp only
  rw [unmark_unprotected, hp2.settle, hleave, lastMark_unprotected, hindex]
  refine ⟨_, rfl, rfl, ⟨⟨hkind, ?_, flaws_ended hheader.flaws⟩, holds_spaced hitems.holds⟩, ?_, ?_,
    hfits, fun hcount => ?_, fun {w} hw htidy hseen hend => ?_⟩
  · exact (ended_type _ _ _ _).trans htype
  · have hname : Thinned [ended spacing.newline size p.index b.header] _ := .refl _
    exact (respaced_of_thinned hname).append
      (respaced_spaced hspaced (linesBehind spacing p.place b.type) p.blockFollows)
  · intro n name hn
    have hname : (ended spacing.newline size p.index b.header).isEmptyLine = false := by
      rw [ended_isEmptyLine, hline]
    have hclosing := congrArg List.isEmpty (closing_traits hitems.traits p.blockFollows)
    rw [List.isEmpty_map, List.isEmpty_map] at hclosing
    have hfit := @fitted_spaced spacing.newline (linesBehind spacing p.place b.type)
      p.blockFollows items hitems.parts
    rw [rooms_traits (opening_traits hitems.traits p.blockFollows),
      rooms_traits (closing_traits hitems.traits p.blockFollows), hclosing,
      rooms_closing p.blockFollows rfl b] at hfit
    exact .statement hname hn hfit
  · exact ⟨tidy_spaced hitems.tidy, spaced_spaced hcount⟩
  · have hcut : b.statements = b.header :: bodyStatements b.body := rfl
    rw [hcut, finished] at hend
    obtain ⟨hopener, hend⟩ := List.cons.inj hend
    rw [hitems.rests htidy hend, hopener, Block.view, Block.view, viewBody_eq_map, viewBody_eq_map]
    exact congrArg (Block.mk b.type .synthetic (w b.header) · none) hseen

/-- **What a walk makes of the blocks of a section.** -/
theorem onBlocks_calm {p : Progress} (hp : p.IsCalm) {kind : SectionKind} {blocks : List Block}
    (hb : ∀ item ∈ blocks.map SectionItem.block, item.Holds Statement.IsCalm kind)
    (hok : ((transform spacing final).onSectionItems p (blocks.map .block)).2.broken = none ∨
      blocksFit spacing (if p.sectionFollows then spacing.sections else 0) blocks) :
    ∃ new follows, (transform spacing final).onSectionItems p (blocks.map .block) =
        (unprotected (new.map .block),
          (p.past (itemsStatements (blocks.map .block))).followed follows) ∧
      SpacedBlocks spacing kind size p.index (if p.sectionFollows then spacing.sections else 0)
        blocks new := by
  induction blocks generalizing p with
  | nil =>
    exact ⟨[], p.blockFollows, rfl, rfl, List.forall_mem_nil _, ⟨rfl, List.forall_mem_nil _⟩,
      fun h => absurd rfl h, trivial, fun _ => trivial, fun _ _ _ => rfl⟩
  | cons b blocks ih =>
    rw [List.map_cons, List.forall_mem_cons] at hb
    have hp1 := hp.followed ((blocks.map SectionItem.block).any (·.isBlock))
    have hlines := linesBehind_followed spacing p blocks b.type
    have hcut : itemsStatements (.block b :: blocks.map .block) =
        b.statements ++ itemsStatements (blocks.map .block) := List.flatMap_cons
    rw [List.map_cons, onSectionItems_block] at hok ⊢
    obtain ⟨first, h1, hnew⟩ := onBlock_calm spacing hfinal hp1 hb.1
      (hok.imp broken_of_onSectionItems fun h => hlines.trans_le h.1)
    rw [h1] at hok ⊢
    dsimp only at hok ⊢
    obtain ⟨rest, follows, h2, hrest⟩ := ih (hp1.past b.statements) hb.2 (hok.imp_right And.right)
    rw [h2]
    have hfits := hnew.fits
    have hspaced := hnew.spaced
    have hrests := @hnew.rests
    rw [hlines] at hfits hspaced
    rw [hlines, followed_place] at hrests
    rw [followed_place] at hspaced
    refine ⟨first :: rest, follows, ?_, rfl, List.forall_mem_cons.2 ⟨hnew.holds, hrest.holds⟩, ?_,
      fun _ k name hk => ?_, ?_, fun hbetween => ?_, fun {w} hw hseen hend => ?_⟩
    · rw [Progress.past_past]
      rfl
    · rw [List.map_cons, hcut, finished_append]
      exact hnew.respaced.append hrest.respaced
    · have hfirst := hnew.fitted k name hk
      cases blocks with
      | nil =>
        rw [List.isEmpty_iff.1 hrest.isEmpty]
        rw [linesAfter_of_last rfl] at hfirst
        exact hfirst.append (.nil _)
      | cons next blocks =>
        have hname := @linesAfter_of_followed spacing (p.followed true).place rfl b
        refine hfirst.append (hrest.fitted (List.cons_ne_nil _ _) _ _ ?_)
        rw [hname]
        exact rfl
    · rw [blocksFit, hrest.isEmpty, hnew.type]
      exact ⟨hfits, hrest.fits⟩
    · rw [blocksSpaced, hrest.isEmpty, hnew.type]
      obtain ⟨htidy, hsame⟩ := hspaced fun hfollowed => by
        rw [Bool.not_eq_true'] at hfollowed
        rw [hfollowed]
        exact hbetween b.type
      exact ⟨⟨htidy, congrArg (List.map (BodyItem.view id)) hsame⟩, hrest.spaced hbetween⟩
    · rw [List.map_cons, hcut] at hend
      obtain ⟨hendFirst, hendRest⟩ := finished_append_eq_self hend
      rw [List.map_cons, List.map_cons, hrests hw hseen.1.1 hseen.1.2 hendFirst,
        hrest.rests hw hseen.2 hendRest]

end

end EmptyLines
end RobotSuite
