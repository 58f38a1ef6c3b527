/-
# Empty lines keep files sound and valid

Of the items of a body or section some stay, in their order, and empty lines are put among
them (`forall_leaveBody`, `forall_spaceSection`).  Nothing is put behind a header that ends
the file without line break.
-/

import RobotSuite.Format.EmptyLines
import RobotSuite.Proofs.Format.MovePasses

namespace RobotSuite
namespace EmptyLines

/-! ## Items that stay -/

section
variable {α : Type} {isEmpty : α → Bool}

/-- Stripping the end leaves what is in front of it. -/
theorem sublist_dropEndWhile (p : α → Bool) (ys : List α) :
    (Text.dropEndWhile p ys).Sublist ys := by
  have := List.sublist_append_left (Text.dropEndWhile p ys) (Text.takeEndWhile p ys)
  rwa [Text.dropEndWhile_append_takeEndWhile] at this

/-- Rows of empty lines lose some of them, and nothing else goes. -/
theorem sublist_collapse (behind : Bool) (xs : List (Marked α)) :
    (collapse isEmpty behind xs).Sublist xs := by
  induction xs generalizing behind with
  | nil => exact .refl _
  | cons y xs ih =>
    rw [collapse]
    split
    · exact (ih _).cons y
    · exact (ih _).cons_cons y

/-- A tidy list is part of the old one. -/
theorem sublist_tidy (xs : List (Marked α)) : (tidy isEmpty xs).Sublist xs :=
  (List.dropWhile_sublist _).trans (sublist_collapse _ _)

/-- Stripping the end takes empty lines only. -/
theorem sublist_stripEnd (xs : List (Marked α)) : (stripEnd isEmpty xs).Sublist xs :=
  sublist_dropEndWhile _ _

end

/-! ## Empty lines that are put -/

section
variable {α : Type} {P : α → Prop} {item : Statement → α} {newline : String} {count total : Nat}
  {front closing new : List (Marked α)}

/-- The lines that are put are empty lines, as many as are asked for. -/
theorem padding_eq_ok {lines : List Statement} (h : padding newline count = .ok lines) :
    lines = List.replicate count (Statement.emptyLine newline) := by
  rw [padding, copies?] at h
  split at h
  · exact (Except.ok.inj h).symm
  · cases h

/-- Items with empty lines between them. -/
theorem withPadding_eq_put
    (h : withPadding item total front closing (padding newline count) = .put new) :
    new = front ++ List.replicate count (item (Statement.emptyLine newline), false) ++ closing := by
  cases hp : padding newline count with
  | error reason =>
    rw [hp] at h
    cases h
  | ok lines =>
    rw [hp, withPadding] at h
    split at h
    · cases h
    · rw [← Decision.put.inj h, padding_eq_ok hp, List.map_replicate]

/-- What holds of the items that stay and of empty lines holds of all. -/
theorem forall_withPadding
    (h : withPadding item total front closing (padding newline count) = .put new)
    (he : P (item (Statement.emptyLine newline))) (hf : ∀ x ∈ front, P x.1)
    (hc : ∀ x ∈ closing, P x.1) : ∀ x ∈ new, P x.1 := by
  rw [withPadding_eq_put h]
  intro x hx
  rcases List.mem_append.1 hx with hx | hx
  · rcases List.mem_append.1 hx with hx | hx
    · exact hf x hx
    · rw [List.eq_of_mem_replicate hx]
      exact he
  · exact hc x hx

/-- The items that are put are those that are kept. -/
theorem keepSome_eq_put {items : List (Marked α)} (h : keepSome total items = .put new) :
    new = items := by
  rw [keepSome] at h
  split at h
  · cases h
  · exact (Decision.put.inj h).symm

end

/-! ## Bodies and sections -/

section
variable {spacing : Spacing} {place : Place}

/-- The parts of a body hold its items. -/
theorem mem_of_mem_splitClosing {followed : Bool} {items : List (Marked BodyItem)}
    {x : Marked BodyItem}
    (h : x ∈ (splitClosing followed items).1 ∨ x ∈ (splitClosing followed items).2) :
    x ∈ items := by
  unfold splitClosing at h
  dsimp only at h
  split at h
  · exact h.elim Text.mem_of_mem_dropEndWhile Text.mem_of_mem_takeEndWhile
  · simpa using h

/-- What holds of items and of empty lines holds of the body that is left. -/
theorem forall_leaveBody {P : BodyItem → Prop} {header : Bool} {items new : List (Marked BodyItem)}
    (h : leaveBody spacing place header items = .put new)
    (he : P (.statement (Statement.emptyLine spacing.newline))) (hi : ∀ x ∈ items, P x.1) :
    ∀ x ∈ new, P x.1 := by
  rw [leaveBody] at h
  split at h
  · rename_i b hb
    rw [spaceBlock] at h
    dsimp only at h
    split at h
    · rw [keepSome_eq_put h]
      exact fun x hx => hi x ((sublist_tidy _).subset hx)
    · have hcontent : ∀ x ∈ stripEnd isEmptyItem (tidy isEmptyItem items), P x.1 :=
        fun x hx => hi x ((sublist_tidy _).subset ((sublist_stripEnd _).subset hx))
      refine forall_withPadding h he (fun x hx => hcontent x ?_) fun x hx => hcontent x ?_
      · exact mem_of_mem_splitClosing (.inl ((sublist_stripEnd _).subset hx))
      · exact mem_of_mem_splitClosing (.inr hx)
  · rw [spaceBody] at h
    rw [keepSome_eq_put h]
    exact fun x hx => hi x ((sublist_collapse _ _).subset hx)

/-- What holds of items and of empty lines holds of the section that is left. -/
theorem forall_spaceSection {P : SectionItem → Prop} {header : Option Bool}
    {items new : List (Marked SectionItem)} (h : spaceSection spacing place header items = .put new)
    (he : P (.statement (Statement.emptyLine spacing.newline))) (hi : ∀ x ∈ items, P x.1) :
    ∀ x ∈ new, P x.1 := by
  have hlead : ∀ x ∈ tidy isEmptySectionItem (items.takeWhile fun i => !i.1.isBlock), P x.1 :=
    fun x hx => hi x (List.takeWhile_subset _ ((sublist_tidy _).subset hx))
  rw [spaceSection] at h
  dsimp only at h
  split at h
  · rw [keepSome_eq_put h]
    intro x hx
    rcases List.mem_append.1 hx with hx | hx
    · exact hlead x hx
    · exact hi x (List.mem_filter.1 hx).1
  · split at h
    · rwa [keepSome_eq_put h]
    · exact forall_withPadding h he (fun x hx => hlead x ((sublist_stripEnd _).subset hx)) (by simp)

/-- An empty section at the end of a file stays empty. -/
theorem spaceSection_nil {header : Option Bool} {new : List (Marked SectionItem)}
    (h : spaceSection spacing place header [] = .put new) (hf : place.sectionFollows = false) :
    new = [] := by
  rw [spaceSection] at h
  dsimp only at h
  split at h
  · exact keepSome_eq_put h
  · split at h
    · exact keepSome_eq_put h
    · rw [hf] at h
      exact withPadding_eq_put h

/-- Without blocks or sections behind it, of a body some items stay and nothing is put. -/
theorem sublist_leaveBody {header : Bool} {items new : List (Marked BodyItem)}
    (h : leaveBody spacing place header items = .put new) (hf : place.follows = false) :
    new.Sublist items := by
  rw [Place.follows, Bool.or_eq_false_iff] at hf
  rw [leaveBody] at h
  split at h
  · rw [spaceBlock] at h
    dsimp only at h
    split at h
    · rw [keepSome_eq_put h]
      exact sublist_tidy _
    · have hlines (type : BlockType) : linesBehind spacing place type = 0 := by
        simp [linesBehind, hf]
      rw [splitClosing, hlines, hf.1] at h
      rw [withPadding_eq_put h]
      simpa using (sublist_stripEnd _).trans ((sublist_stripEnd _).trans (sublist_tidy _))
  · rw [keepSome_eq_put h]
    exact sublist_collapse _ _

/-- Of the last section nothing but empty lines goes, and nothing comes. -/
theorem sublist_spaceSection {header : Option Bool} {items new : List (Marked SectionItem)}
    (h : spaceSection spacing place header items = .put new) (hf : place.sectionFollows = false) :
    new.Sublist items := by
  have hlead : (tidy isEmptySectionItem (items.takeWhile fun i => !i.1.isBlock)).Sublist _ :=
    sublist_tidy _
  rw [spaceSection] at h
  dsimp only at h
  split at h
  · rw [keepSome_eq_put h]
    have hsplit := items.takeWhile_append_dropWhile (p := fun i => !i.1.isBlock)
    have hfilter : items.filter (·.1.isBlock) =
        (items.dropWhile fun i => !i.1.isBlock).filter (·.1.isBlock) := by
      have hnone : (items.takeWhile fun i => !i.1.isBlock).filter (·.1.isBlock) = [] := by
        rw [List.filter_eq_nil_iff]
        intro i hi
        simpa using List.all_eq_true.1 List.all_takeWhile i hi
      have := List.filter_append (p := fun i : Marked SectionItem => i.1.isBlock)
        (items.takeWhile fun i => !i.1.isBlock) (items.dropWhile fun i => !i.1.isBlock)
      rwa [hsplit, hnone, List.nil_append] at this
    have := hlead.append (List.filter_sublist (p := fun i : Marked SectionItem => i.1.isBlock)
      (l := items.dropWhile fun i => !i.1.isBlock))
    rwa [hsplit, ← hfilter] at this
  · split at h
    · rw [keepSome_eq_put h]
      exact hlead.trans (List.takeWhile_sublist _)
    · rw [hf] at h
      rw [withPadding_eq_put h]
      simpa using (sublist_stripEnd _).trans (hlead.trans (List.takeWhile_sublist _))

end

/-! ## The pass -/

/-- What stands in place of a statement. -/
theorem statement_eq_put {setup : PassSetup} {final : Option (Nat × Statement)} {sc : Scope}
    {n : Nat} {s new : Statement}
    (h : (if isFinal final n s && !sc.disables info.name s &&
        !(s.lastEol.any fun t => t.value != "") then
      Decision.put (s.terminate (spacingOf setup).newline) else .keep) = .put new) :
    new = s.terminate setup.newline := by
  split at h
  · exact (Decision.put.inj h).symm
  · cases h

/-- **Empty lines as configured keep files sound.** -/
theorem keepsSound_pass : pass.KeepsSound := by
  refine Pass.keepsSound_ofTransform (fun setup f hv => ?_) fun setup f hv => ?_
  · refine
      { statement := fun h _ _ hs => statement_eq_put h ▸ hs.terminate hv.isBreak
        header := fun h _ _ _ hs => statement_eq_put h ▸ hs.terminate hv.isBreak
        body := ?_
        sect := ?_
        file := fun h => by cases h }
    · intro kind place header items new h hitems
      rw [bodyHolds_iff] at hitems ⊢
      intro i hi
      obtain ⟨x, hx, rfl⟩ := List.mem_map.1 hi
      refine forall_leaveBody (P := (·.Holds (Statement.IsSound kind))) h ?_ (fun y hy => ?_) x hx
      · rw [BodyItem.Holds]
        exact ⟨rfl, isSound_emptyLine hv.isBreak⟩
      · exact hitems y.1 (List.mem_map_of_mem hy)
    · intro kind place header items new h _ hitems i hi
      obtain ⟨x, hx, rfl⟩ := List.mem_map.1 hi
      refine forall_spaceSection (P := (·.Holds (Statement.IsSound kind) kind)) h ?_
        (fun y hy => ?_) x hx
      · exact ⟨rfl, isSound_emptyLine hv.isBreak⟩
      · exact hitems y.1 (List.mem_map_of_mem hy)
  · refine
      { header := fun h _ hu => ?_
        sect := ?_
        file := fun h => by cases h }
    · rw [statement_eq_put h, isUnterminated_terminate hv.newline_ne] at hu
      cases hu
    · intro place header items new h hnil hf
      rw [List.map_eq_nil_iff.1 hnil] at h
      rw [spaceSection_nil h hf]
      rfl

/-- **Empty lines as configured keep line breaks.**  They stand behind statements with line
breaks, since something follows. -/
theorem keepsBreaks_pass : pass.KeepsBreaks := by
  refine Pass.keepsBreaks_ofTransform fun {N} setup f hv hn => ?_
  have hne := hv.newline_ne
  have hline {P : Statement → Prop} (he : P (Statement.emptyLine setup.newline)) :
      ∀ s ∈ [Statement.emptyLine (spacingOf setup).newline], P s :=
    List.forall_mem_singleton.2 he
  refine
    { statement := fun h hs => ⟨?_, fun hu => ?_⟩
      body := ?_
      sect := ?_
      file := fun h => by cases h }
  · rw [statement_eq_put h]
    exact (hs.terminate hn).breaks
  · rw [statement_eq_put h, isUnterminated_terminate hne] at hu
    cases hu
  · intro place header items new h _
    rw [bodyStatements_eq_flatMap, bodyStatements_eq_flatMap]
    cases hf : place.follows with
    | false => exact .of_sublist _ ((sublist_leaveBody h hf).map _)
    | true =>
      have hall {P : Statement → Prop} (he : P (Statement.emptyLine setup.newline))
          (hs : ∀ s ∈ (unmark items).flatMap BodyItem.statements, P s) :
          ∀ s ∈ (unmark new).flatMap BodyItem.statements, P s := by
        rw [unmark, List.flatMap_map, List.forall_mem_flatMap] at hs ⊢
        exact forall_leaveBody (P := fun i => ∀ s ∈ i.statements, P s) h
          (by rw [BodyItem.statements]; exact hline he) hs
      exact ⟨hall (endsIn_emptyLine hn), fun _ => hall (isUnterminated_emptyLine hne), by simp⟩
  · intro place header items new h
    cases hf : place.sectionFollows with
    | false => exact .of_sublist _ ((sublist_spaceSection h hf).map _)
    | true =>
      have hall {P : Statement → Prop} (he : P (Statement.emptyLine setup.newline))
          (hs : ∀ s ∈ itemsStatements (unmark items), P s) :
          ∀ s ∈ itemsStatements (unmark new), P s := by
        rw [itemsStatements, unmark, List.flatMap_map, List.forall_mem_flatMap] at hs ⊢
        exact forall_spaceSection (P := fun i => ∀ s ∈ i.statements, P s) h (hline he) hs
      exact ⟨hall (endsIn_emptyLine hn), fun _ => hall (isUnterminated_emptyLine hne), by simp⟩

end EmptyLines
end RobotSuite
