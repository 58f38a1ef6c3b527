/-
# Edits of slots as changes of a text

Edits of the slots of a file are changes of its text.  The slots cut the text into stretches, so
the changes come one behind the other, and when all are made the text is that of the edited slots
(`changes_of_edits`).
-/

import RobotSuite.Lint.Check
import RobotSuite.Proofs.Lint.Slots
import RobotSuite.Proofs.Lint.TextChanges

namespace RobotSuite

/-! ## Places of tokens -/

/-- Tokens that stand one behind the other in a source, the first of them at an offset. -/
def Spans (start : Nat) : List Token → Prop
  | [] => True
  | t :: ts =>
    t.span.start.offset = start ∧ t.span.stop.offset = (start + Text.units t.value.toList : Nat) ∧
      Spans (start + Text.units t.value.toList) ts

/-- Moving past characters adds their units to the offset. -/
theorem Location.offset_advance (l : Location) (cs : List Char) :
    (l.advance cs).offset = l.offset + Text.units cs := by
  induction cs generalizing l with
  | nil => simp
  | cons c cs ih =>
    have hstep : (l.step c).offset = l.offset + Text.charUnits c := by
      unfold step
      split
      · rename_i h
        rw [h]
        rfl
      · rfl
    rw [advance_cons, ih, hstep, Text.units_cons]
    omega

/-- Two stretches of tokens span one after the other. -/
theorem spans_append {start : Nat} {ts us : List Token} :
    Spans start (ts ++ us) ↔ Spans start ts ∧ Spans (start + Text.units (chars ts)) us := by
  induction ts generalizing start with
  | nil => simp [Spans]
  | cons t ts ih =>
    rw [List.cons_append, Spans, Spans, ih, chars_cons, Text.units_append, Nat.add_assoc,
      and_assoc, and_assoc]

/-- Pieces laid out from a place span from there. -/
theorem spans_layOut {l : Location} {start : Nat} (hl : l.offset = start) (ps : List Piece) :
    Spans start (layOut l ps) := by
  induction ps generalizing l start with
  | nil => trivial
  | cons p ps ih =>
    have hnext : (l.advance p.2).offset = (start + Text.units p.2 : Nat) := by
      rw [Location.offset_advance, hl]
      omega
    rw [layOut_cons, Spans]
    simp only [Piece.token, String.toList_ofList]
    exact ⟨hl, hnext, ih hnext⟩

/-- **The tokens of a source stand where their text stands.** -/
theorem spans_lines (c : Cursor) {start : Nat} (hc : c.location.offset = start) :
    Spans start c.lines.flatten := by
  fun_induction Cursor.lines c generalizing start with
  | case1 => trivial
  | case2 c hne ih =>
    rw [List.flatten_cons]
    refine spans_append.2 ⟨spans_layOut hc _, ih ?_⟩
    rw [Cursor.nextLine, chars_layOut]
    exact (Location.offset_advance _ _).trans (by rw [hc]; omega)

/-! ## Changes -/

/-- The change that an edit of a slot asks for.  What goes leaves nothing. -/
def change? (d : Slot × Edit) : Option Change :=
  match d.2 with
  | .keep => none
  | .trim => d.1.gap.map fun g =>
    ⟨SpaceRules.trailingInfo.code, g.span.start.offset, g.span.stop.offset, ""⟩
  | .remove => d.1.gap.map fun g =>
    ⟨TagRules.duplicatedInfo.code, g.span.start.offset, d.1.token.span.stop.offset, ""⟩
  | .write code value =>
    some ⟨code, d.1.token.span.start.offset, d.1.token.span.stop.offset, value⟩

/-- The text of the gap of a slot. -/
def Slot.gapText (x : Slot) : List Char := chars x.gap.toList

/-- The text of a slot, cut into what stays and what is replaced. -/
def stretches (d : Slot × Edit) : List Stretch :=
  match d.2 with
  | .keep => [⟨chars d.1.tokens, none⟩]
  | .trim => [⟨d.1.gapText, some (SpaceRules.trailingInfo.code, "")⟩,
      ⟨d.1.token.value.toList, none⟩]
  | .remove => [⟨chars d.1.tokens, some (TagRules.duplicatedInfo.code, "")⟩]
  | .write code value => [⟨d.1.gapText, none⟩, ⟨d.1.token.value.toList, some (code, value)⟩]

/-- An edit that takes away or rewrites no more than there is. -/
structure Founded (d : Slot × Edit) : Prop where
  gap : d.2 = .trim ∨ d.2 = .remove → ∃ g ∈ d.1.gap, g.value.toList ≠ []
  token : (∃ code value, d.2 = .write code value) → d.1.token.value.toList ≠ []

section
variable {ds : List (Slot × Edit)}

/-- The first edit gives the first change. -/
theorem filterMap_change?_cons (d : Slot × Edit) (ds : List (Slot × Edit)) :
    (d :: ds).filterMap change? = (change? d).toList ++ ds.filterMap change? := by
  cases h : change? d <;> simp [h]

/-- A slot's characters are its gap and its token's text. -/
theorem chars_slot (x : Slot) : chars x.tokens = x.gapText ++ x.token.value.toList := by
  simp [Slot.tokens, Slot.gapText]

/-- The stretches hold the old text. -/
theorem oldText_stretches (ds : List (Slot × Edit)) :
    oldText (ds.flatMap stretches) = chars (slotTokens (oldSlots ds)) := by
  induction ds with
  | nil => rfl
  | cons d ds ih =>
    have hd : oldText (stretches d) = chars d.1.tokens := by
      unfold stretches
      split <;> simp [oldText, chars_slot]
    rw [oldText] at ih hd ⊢
    rw [List.flatMap_cons, List.flatMap_append, ih, hd, oldSlots, oldSlots, List.map_cons,
      slotTokens_cons, chars_append]

/-- The stretches hold the new text. -/
theorem newText_stretches (ds : List (Slot × Edit)) :
    newText (ds.flatMap stretches) = chars (slotTokens (mended ds)) := by
  induction ds with
  | nil => rfl
  | cons d ds ih =>
    have hd : newText (stretches d) = chars (slotTokens (d.2.apply d.1).toList) := by
      obtain ⟨x, e⟩ := d
      cases e <;>
        simp [newText, stretches, Stretch.new, Edit.apply, Slot.gapText, Slot.tokens,
          Token.withValue]
    rw [newText] at ih hd ⊢
    rw [List.flatMap_cons, List.flatMap_append, ih, hd, mended_cons, slotTokens_append,
      chars_append]

/-- Founded edits make solid stretches. -/
theorem solid_stretches (h : ∀ d ∈ ds, Founded d) : ∀ x ∈ ds.flatMap stretches, x.Solid := by
  have hstays (cs : List Char) : Stretch.Solid ⟨cs, none⟩ := fun h => by cases h
  intro x hx
  obtain ⟨⟨⟨gap, t⟩, e⟩, hd, hx⟩ := List.mem_flatMap.1 hx
  have hf := h _ hd
  cases e with
  | keep =>
    obtain rfl := List.mem_singleton.1 hx
    exact hstays _
  | trim =>
    obtain ⟨g, hg, hne⟩ := hf.gap (.inl rfl)
    obtain rfl : gap = some g := hg
    rcases List.mem_pair.1 hx with rfl | rfl
    · intro _
      simpa [Slot.gapText] using hne
    · exact hstays _
  | remove =>
    obtain ⟨g, hg, hne⟩ := hf.gap (.inr rfl)
    obtain rfl : gap = some g := hg
    obtain rfl := List.mem_singleton.1 hx
    intro _
    simp [Slot.tokens, hne]
  | write code value =>
    rcases List.mem_pair.1 hx with rfl | rfl
    · exact hstays _
    · exact fun _ => hf.token ⟨code, value, rfl⟩

/-- The edits of slots ask for the changes of their stretches. -/
theorem changesFrom_stretches (h : ∀ d ∈ ds, Founded d) {start : Nat}
    (hs : Spans start (slotTokens (oldSlots ds))) :
    changesFrom start (ds.flatMap stretches) = ds.filterMap change? := by
  induction ds generalizing start with
  | nil => rfl
  | cons d ds ih =>
    obtain ⟨hd, hds⟩ := List.forall_mem_cons.1 h
    simp only [oldSlots, List.map_cons, slotTokens_cons] at hs
    obtain ⟨hspan, hrest⟩ := spans_append.1 hs
    have hfirst : changesFrom start (stretches d) = (change? d).toList := by
      obtain ⟨⟨gap, t⟩, e⟩ := d
      simp only [Slot.tokens] at hspan
      have hgap (he : e = .trim ∨ e = .remove) : ∃ g, gap = some g := by
        obtain ⟨g, hg, -⟩ := hd.gap he
        exact ⟨g, hg⟩
      cases e with
      | keep => rfl
      | trim =>
        obtain ⟨g, rfl⟩ := hgap (.inl rfl)
        obtain ⟨hstart, hstop, -⟩ := hspan
        simp [changesFrom, stretches, change?, Slot.gapText, hstart, hstop]
      | remove =>
        obtain ⟨g, rfl⟩ := hgap (.inr rfl)
        obtain ⟨hstart, -, -, hstop, -⟩ := hspan
        simp [changesFrom, stretches, change?, Slot.tokens, hstart]
        omega
      | write code value =>
        cases gap with
        | none =>
          obtain ⟨hstart, hstop, -⟩ := hspan
          simp [changesFrom, stretches, change?, Slot.gapText]
          omega
        | some g =>
          obtain ⟨-, -, hstart, hstop, -⟩ := hspan
          simp [changesFrom, stretches, change?, Slot.gapText]
          omega
    have htext : oldText (stretches d) = chars d.1.tokens := by
      have := oldText_stretches [d]
      simpa [oldSlots] using this
    rw [List.flatMap_cons, changesFrom_append, hfirst, htext, ih hds hrest, filterMap_change?_cons]

/-- **Edits of the slots of a source come to the edited slots.**  Their changes, in whatever order
they are given, lie in the source and apart from each other, none of them is left out, and when they
are made the text is that of the edited slots. -/
theorem changes_of_edits (h : ∀ d ∈ ds, Founded d) (hs : Spans 0 (slotTokens (oldSlots ds)))
    {cs : List Change} (hp : cs.Perm (ds.filterMap change?)) :
    (∀ c ∈ cs, 0 ≤ c.start ∧ c.start < c.stop ∧
        c.stop ≤ Text.units (chars (slotTokens (oldSlots ds)))) ∧
      cs.Pairwise (fun a b => a.stop ≤ b.start ∨ b.stop ≤ a.start) ∧
      Change.choose [] (Change.fromEnd cs) = (Change.fromEnd cs, []) ∧
      Change.applyAll (String.ofList (chars (slotTokens (oldSlots ds)))) (Change.fromEnd cs) =
        String.ofList (chars (slotTokens (mended ds))) := by
  have hsolid := solid_stretches h
  rw [← changesFrom_stretches h hs] at hp
  obtain ⟨hchoose, hfold⟩ := changes_of_perm hsolid hp
  rw [oldText_stretches, newText_stretches] at hfold
  refine ⟨fun c hc => ?_, ?_, hchoose, hfold⟩
  · have := bounds_changesFrom hsolid 0 c (hp.mem_iff.1 hc)
    rw [oldText_stretches, Nat.zero_add] at this
    exact this
  · have hsymm : ∀ a b : Change, a.stop ≤ b.start ∨ b.stop ≤ a.start →
        b.stop ≤ a.start ∨ a.stop ≤ b.start := fun _ _ => Or.symm
    refine (hp.pairwise_iff fun {a b} => hsymm a b).2 ?_
    exact (pairwise_changesFrom hsolid 0).imp .inl

end

/-! ## Edits of the data and of the ends of lines -/

/-- Edits of some slots: those of `plan` for the slots with data, and whether the gaps at the ends
of lines go. -/
def edited (trim : Bool) (plan : List Edit) : List Slot → List (Slot × Edit)
  | [] => []
  | x :: xs =>
    if x.token.isData then (x, plan.headD .keep) :: edited trim plan.tail xs
    else (x, if trim && x.token.isEol && x.gap.isSome then .trim else .keep) ::
      edited trim plan xs

/-- The slots with data. -/
def dataSlots (xs : List Slot) : List Slot := xs.filter (·.token.isData)

/-- The edits of a plan, each with the slot that it is for. -/
def planned (plan : List Edit) : List Slot → List (Slot × Edit)
  | [] => []
  | x :: xs => (x, plan.headD .keep) :: planned plan.tail xs

/-- The gaps at the ends of lines. -/
def endGaps (xs : List Slot) : List Token :=
  xs.filterMap fun x => if x.token.isEol then x.gap else none

/-- The gaps that end lines are found in one part or the other. -/
theorem endGaps_append (xs ys : List Slot) : endGaps (xs ++ ys) = endGaps xs ++ endGaps ys :=
  List.filterMap_append

/-- The change that takes a gap away. -/
def trimChange (g : Token) : Change :=
  ⟨SpaceRules.trailingInfo.code, g.span.start.offset, g.span.stop.offset, ""⟩

section
variable (trim : Bool) (plan : List Edit) (xs ys : List Slot)

/-- The edits keep the old slots. -/
@[simp] theorem oldSlots_edited : oldSlots (edited trim plan xs) = xs := by
  induction xs generalizing plan with
  | nil => rfl
  | cons x xs ih =>
    rw [edited]
    split <;> exact congrArg _ (ih _)

/-- Slots in two parts are edited with two parts of the plan. -/
theorem edited_append : edited trim plan (xs ++ ys) =
    edited trim plan xs ++ edited trim (plan.drop (dataSlots xs).length) ys := by
  induction xs generalizing plan with
  | nil => rfl
  | cons x xs ih =>
    rw [List.cons_append, edited, edited, dataSlots, List.filter_cons]
    split
    · rw [ih, List.length_cons, List.drop_tail]
      rfl
    · rw [ih]
      rfl

/-- The changes of edits are those of the plan and those of the ends of lines. -/
theorem changes_edited : ((edited trim plan xs).filterMap change?).Perm
    ((planned plan (dataSlots xs)).filterMap change? ++
      if trim then (endGaps xs).map trimChange else []) := by
  induction xs generalizing plan with
  | nil => cases trim <;> exact .refl _
  | cons x xs ih =>
    rw [edited]
    by_cases hdata : x.token.isData = true
    · have heol : x.token.isEol = false := Token.isEol_eq_false hdata
      have hends : endGaps (x :: xs) = endGaps xs := by simp [endGaps, heol]
      have hslots : dataSlots (x :: xs) = x :: dataSlots xs := by simp [dataSlots, hdata]
      rw [if_pos hdata, hends, hslots, planned, filterMap_change?_cons, filterMap_change?_cons,
        List.append_assoc]
      exact (ih _).append_left _
    · have hslots : dataSlots (x :: xs) = dataSlots xs := by simp [dataSlots, hdata]
      rw [if_neg hdata, hslots, filterMap_change?_cons]
      -- a gap at the end of a line goes behind the changes of the plan
      by_cases hgoes : (trim && x.token.isEol && x.gap.isSome) = true
      · obtain ⟨⟨rfl, heol⟩, hgap⟩ :
            (trim = true ∧ x.token.isEol = true) ∧ x.gap.isSome = true := by
          simpa using hgoes
        obtain ⟨g, hg⟩ := Option.isSome_iff_exists.1 hgap
        have hends : endGaps (x :: xs) = g :: endGaps xs := by simp [endGaps, heol, hg]
        have hchange : (change? (x, .trim)).toList = [trimChange g] := by
          simp [change?, hg, trimChange]
        rw [if_pos hgoes, hchange, hends, if_pos rfl, List.map_cons, List.singleton_append]
        have := ih plan
        rw [if_pos rfl] at this
        exact (this.cons _).trans List.perm_middle.symm
      · have hends : (if trim then (endGaps (x :: xs)).map trimChange else []) =
            if trim then (endGaps xs).map trimChange else [] := by
          cases trim with
          | false => rfl
          | true =>
            have : (if x.token.isEol then x.gap else none) = none := by
              split
              · rename_i heol
                simpa [heol] using hgoes
              · rfl
            simp [endGaps, this]
        rw [if_neg hgoes, hends]
        exact ih plan

end

end RobotSuite
