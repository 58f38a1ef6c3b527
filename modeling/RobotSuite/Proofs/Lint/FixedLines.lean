/-
# Lines that are fixed

The lines of a statement are mended one by one, each by the part of the plan that is for its data
(`newLines`).  Edits that leave its lines (`EditsLines`) leave them for what they were for
(`LineMended.sameRole`), and each is a line again unless nothing is left of it
(`LineMended.tokenLine`).
-/

import RobotSuite.Proofs.Lint.CheckedFixes
import RobotSuite.Proofs.Lint.FixPlans

namespace RobotSuite

/-! ## Slots and their tokens -/

/-- Slots with gaps in front of what is no gap. -/
def AreSlots (xs : List Slot) : Prop :=
  ∀ x ∈ xs, (∀ g ∈ x.gap, g.kind = .separator) ∧ x.token.kind ≠ .separator

section
variable {x : Slot} {xs : List Slot}

/-- Slots are a gap of separators, if any, and a token that is none. -/
theorem areSlots_cons : AreSlots (x :: xs) ↔
    ((∀ g ∈ x.gap, g.kind = .separator) ∧ x.token.kind ≠ .separator) ∧ AreSlots xs :=
  List.forall_mem_cons

/-- What is cut off a line are slots. -/
theorem areSlots_slots (ts : List Token) : AreSlots (slots ts) := by
  have hfrom (gap : Option Token) (hgap : ∀ g ∈ gap, g.kind = .separator) :
      AreSlots (slotsFrom gap ts) := by
    induction ts generalizing gap with
    | nil => simp [AreSlots, slotsFrom]
    | cons t ts ih =>
      rw [slotsFrom]
      split
      · rename_i h
        exact ih (some t) (by simpa [Token.isSeparator] using h)
      · rename_i h
        exact areSlots_cons.2 ⟨⟨hgap, by simpa [Token.isSeparator] using h⟩, ih none (by simp)⟩
  exact hfrom none (by simp)

/-- The tokens of slots have these slots. -/
theorem AreSlots.slots_slotTokens (h : AreSlots xs) : slots (slotTokens xs) = xs := by
  induction xs with
  | nil => rfl
  | cons x xs ih =>
    obtain ⟨⟨hgap, ht⟩, hxs⟩ := areSlots_cons.1 h
    obtain ⟨gap, t⟩ := x
    cases gap with
    | none =>
      rw [slotTokens_cons, Slot.tokens, Option.toList_none, List.nil_append, List.singleton_append,
        slots_cons ht, ih hxs]
    | some g =>
      rw [slotTokens_cons, Slot.tokens, Option.toList_some, List.singleton_append, List.cons_append,
        List.singleton_append, slots_gap_cons (hgap g rfl) ht, ih hxs]

/-- What is no gap stands in the slots. -/
theorem AreSlots.filter_slotTokens (h : AreSlots xs) {p : Token → Bool}
    (hp : ∀ t, t.kind = .separator → p t = false) :
    (slotTokens xs).filter p = (xs.filter fun x => p x.token).map (·.token) := by
  induction xs with
  | nil => rfl
  | cons x xs ih =>
    obtain ⟨⟨hgap, -⟩, hxs⟩ := areSlots_cons.1 h
    have hnone : x.gap.toList.filter p = [] := by
      rw [List.filter_eq_nil_iff]
      intro g hg
      rw [hp g (hgap g (Option.mem_toList.1 hg))]
      exact Bool.false_ne_true
    rw [slotTokens_cons, Slot.tokens, List.append_assoc, List.filter_append, hnone,
      List.nil_append, List.singleton_append, List.filter_cons, List.filter_cons, ih hxs]
    split <;> rfl

/-- A test no separator passes is decided by the slots' own tokens. -/
theorem AreSlots.any_slotTokens (h : AreSlots xs) {p : Token → Bool}
    (hp : ∀ t, t.kind = .separator → p t = false) :
    (slotTokens xs).any p = xs.any fun x => p x.token := by
  induction xs with
  | nil => rfl
  | cons x xs ih =>
    obtain ⟨⟨hgap, -⟩, hxs⟩ := areSlots_cons.1 h
    have hnone : x.gap.toList.any p = false := by
      rw [List.any_eq_false]
      intro g hg
      rw [hp g (hgap g (Option.mem_toList.1 hg))]
      exact Bool.false_ne_true
    rw [slotTokens_cons, Slot.tokens, List.any_append, List.any_append, hnone, ih hxs]
    simp

/-- A search that passes no separator finds a slot's own token. -/
theorem AreSlots.find?_slotTokens (h : AreSlots (x :: xs)) {p : Token → Bool}
    (hp : ∀ t, t.kind = .separator → p t = false) (hx : p x.token = true) :
    (slotTokens (x :: xs)).find? p = some x.token := by
  obtain ⟨⟨hgap, -⟩, -⟩ := areSlots_cons.1 h
  obtain ⟨gap, t⟩ := x
  cases gap with
  | none => exact List.find?_cons_of_pos hx
  | some g =>
    have hg : ¬ p g = true := by
      rw [hp g (hgap g rfl)]
      exact Bool.false_ne_true
    exact (List.find?_cons_of_neg hg).trans (List.find?_cons_of_pos hx)

/-- The first token of slots that is no gap. -/
theorem AreSlots.firstSignificant (h : AreSlots (x :: xs)) (hx : x.token.kind ≠ .eol) :
    RobotSuite.firstSignificant (slotTokens (x :: xs)) = some x.token := by
  have hsep : x.token.kind ≠ .separator := (areSlots_cons.1 h).1.2
  refine h.find?_slotTokens (fun t ht => ?_) ?_
  · simp [Token.isSeparator, ht]
  · simp [Token.isSeparator, Token.isEol, hsep, hx]

end

/-! ## Edits keep the shape of slots -/

section
variable {trim : Bool} {plan : List Edit} {xs : List Slot}

/-- What is left of a slot holds a token of the same kind, and the same gap if any. -/
theorem apply_spec {x y : Slot} {e : Edit} (he : y ∈ e.apply x) :
    y.token.kind = x.token.kind ∧ ∀ g ∈ y.gap, g ∈ x.gap := by
  cases e with
  | keep =>
    obtain rfl := Option.some.inj he
    exact ⟨rfl, fun _ hg => hg⟩
  | trim =>
    obtain rfl := Option.some.inj he
    exact ⟨rfl, by simp⟩
  | remove => cases he
  | write code value =>
    obtain rfl := Option.some.inj he
    exact ⟨rfl, fun _ hg => hg⟩

/-- Mended slots are slots. -/
theorem areSlots_mended {ds : List (Slot × Edit)} (h : AreSlots (oldSlots ds)) :
    AreSlots (mended ds) := by
  intro y hy
  obtain ⟨d, hd, hy⟩ := List.mem_filterMap.1 hy
  obtain ⟨hgap, ht⟩ := h d.1 (List.mem_map_of_mem hd)
  obtain ⟨hkind, hold⟩ := apply_spec hy
  exact ⟨fun g hg => hgap g (hold g hg), by rwa [hkind]⟩

/-- So are the mended slots of a planned line. -/
theorem areSlots_mended_edited (h : AreSlots xs) : AreSlots (mended (edited trim plan xs)) :=
  areSlots_mended (by rwa [oldSlots_edited])

/-- A slot that ends a line, without its gap if that is to go. -/
def Slot.trimmed (trim : Bool) (x : Slot) : Slot :=
  if trim && x.token.isEol then { x with gap := none } else x

/-- Trimming a slot keeps its token. -/
@[simp] theorem Slot.trimmed_token (x : Slot) : (x.trimmed trim).token = x.token := by
  rw [trimmed]
  split <;> rfl

/-- The first slot is edited if it is data, and trimmed otherwise. -/
theorem mended_edited_cons (x : Slot) (xs : List Slot) : mended (edited trim plan (x :: xs)) =
    if x.token.isData then
      ((plan.headD .keep).apply x).toList ++ mended (edited trim plan.tail xs)
    else x.trimmed trim :: mended (edited trim plan xs) := by
  rw [edited]
  split
  · rw [mended_cons]
  · obtain ⟨gap, t⟩ := x
    rw [mended_cons, Slot.trimmed]
    cases trim <;> cases t.isEol <;> cases gap <;> rfl

/-- The data behind the edits is what the plan makes of the data. -/
theorem dataTexts_mended :
    (dataSlots (mended (edited trim plan xs))).map (·.token.value) =
      applied plan ((dataSlots xs).map (·.token.value)) := by
  induction xs generalizing plan with
  | nil => rfl
  | cons x xs ih =>
    rw [mended_edited_cons, dataSlots, dataSlots, List.filter_cons]
    by_cases hdata : x.token.isData = true
    · rw [if_pos hdata, if_pos hdata, List.filter_append, List.map_append, List.map_cons, applied,
        ← dataSlots, ← dataSlots, ih]
      congr 1
      cases plan.headD .keep with
      | keep => simp [Edit.apply, Edit.respell, dataSlots, hdata]
      | trim => simp [Edit.apply, Edit.respell, dataSlots, hdata]
      | remove => rfl
      | write code value =>
        have hnew : (x.token.withValue value).isData = true := hdata
        rw [Edit.apply, Option.toList_some, dataSlots, List.filter_cons, if_pos hnew]
        rfl
    · rw [if_neg hdata, if_neg hdata, List.filter_cons, Slot.trimmed_token, if_neg hdata]
      exact ih

/-- What is no data stays. -/
theorem filter_mended {p : Token → Bool} (hp : ∀ t, p t = true → t.isData = false) :
    ((mended (edited trim plan xs)).filter fun x => p x.token).map (·.token) =
      (xs.filter fun x => p x.token).map (·.token) := by
  have hdata {t : Token} (ht : t.isData = true) : ¬ p t = true := by
    intro h
    rw [hp t h] at ht
    cases ht
  induction xs generalizing plan with
  | nil => rfl
  | cons x xs ih =>
    rw [mended_edited_cons, List.filter_cons]
    by_cases hx : x.token.isData = true
    · have hnone : (((plan.headD .keep).apply x).toList).filter (fun y => p y.token) = [] := by
        rw [List.filter_eq_nil_iff]
        intro y hy
        have hkind := (apply_spec (Option.mem_toList.1 hy)).1
        exact hdata (by rwa [Token.isData, hkind])
      rw [if_pos hx, List.filter_append, hnone, List.nil_append, if_neg (hdata hx), ih]
    · rw [if_neg hx, List.filter_cons, Slot.trimmed_token]
      split
      · rw [List.map_cons, List.map_cons, Slot.trimmed_token, ih]
      · exact ih

/-- When the gaps at the ends of lines go, none is left. -/
theorem endGaps_mended : endGaps (mended (edited true plan xs)) = [] := by
  induction xs generalizing plan with
  | nil => rfl
  | cons x xs ih =>
    rw [mended_edited_cons]
    split
    · rename_i hx
      have hnone : endGaps (((plan.headD .keep).apply x).toList) = [] := by
        rw [endGaps, List.filterMap_eq_nil_iff]
        intro y hy
        have hkind := (apply_spec (Option.mem_toList.1 hy)).1
        have heol : y.token.isEol = false := by
          rw [Token.isEol, hkind]
          exact Token.isEol_eq_false hx
        rw [heol, if_neg Bool.false_ne_true]
      rw [endGaps_append, hnone, ih, List.append_nil]
    · rw [endGaps, List.filterMap_cons_none]
      · exact ih
      · rw [Slot.trimmed, Bool.true_and]
        split
        · simp
        · rfl

/-- The first slot of a line stays. -/
theorem EditsLine.head?_mended {ds : List (Slot × Edit)} (h : EditsLine true ds) :
    (mended ds).head?.map (·.token.kind) = (oldSlots ds).head?.map (·.token.kind) := by
  cases ds with
  | nil => rfl
  | cons d ds =>
    obtain ⟨hfirst, -⟩ := h
    cases he : d.2.apply d.1 with
    | none =>
      obtain ⟨x, e⟩ := d
      cases e with
      | remove => exact absurd hfirst.1 (by decide)
      | keep => cases he
      | trim => cases he
      | write code value => cases he
    | some y =>
      rw [mended_cons, he, Option.toList_some, List.singleton_append, List.head?_cons,
        Option.map_some, (apply_spec he).1]
      rfl

end

/-! ## What lines are for -/

/-- Lines that are told apart neither by what they open nor by what they continue. -/
structure SameRole (old new : List Token) : Prop where
  header : isHeaderLine new = isHeaderLine old
  continuation : isContinuationLine new = isContinuationLine old
  remark : isCommentLine new = isCommentLine old

section
variable {star star' first first' : Bool} {xs ys : List Slot}

/-- The slots of a line are slots. -/
theorem SlotLine.areSlots (h : SlotLine star first xs) : AreSlots xs := by
  have hgap {gap : Option Token} (hg : IsGapToken gap) : ∀ g ∈ gap, g.kind = .separator :=
    fun g hmem => (hg g hmem).1
  induction h with
  | ending hg he => exact areSlots_cons.2 ⟨⟨hgap hg, by simp [he]⟩, by simp [AreSlots]⟩
  | remark hs hk _ _ hg he =>
    exact areSlots_cons.2 ⟨⟨hgap hs.form, by simp [hk]⟩,
      areSlots_cons.2 ⟨⟨hgap hg, by simp [he]⟩, by simp [AreSlots]⟩⟩
  | cell hs hk _ _ _ ih =>
    refine areSlots_cons.2 ⟨⟨hgap hs.form, fun hsep => ?_⟩, ih⟩
    have hsep' := hk.symm.trans hsep
    exact absurd (congrArg TokenKind.isCell hsep') (by rw [isCell_cellKind]; decide)

/-- What a line is for is told by its first slot. -/
theorem SlotLine.roles (h : SlotLine star first xs) :
    isHeaderLine (slotTokens xs) = (xs.head?.map (·.token.kind) == some .sectionHeader) ∧
      isContinuationLine (slotTokens xs) = (xs.head?.map (·.token.kind) == some .continuation) ∧
      isCommentLine (slotTokens xs) = (xs.head?.map (·.token.kind) == some .comment) := by
  have hslots := h.areSlots
  have hcomment : (slotTokens xs).any (·.isComment) = xs.any fun x => x.token.isComment :=
    hslots.any_slotTokens fun t ht => by simp [Token.isComment, ht]
  have hdata : (slotTokens xs).any (fun t => t.isData || t.isContinuation) =
      xs.any fun x => x.token.isData || x.token.isContinuation :=
    hslots.any_slotTokens fun t ht => by
      simp [Token.isData, Token.isContinuation, TokenKind.isData, ht]
  rw [isHeaderLine, isContinuationLine, isCommentLine, hcomment, hdata]
  cases h with
  | @ending _ gap e hg he =>
    have hnone : firstSignificant (slotTokens [⟨gap, e⟩]) = none := by
      rw [firstSignificant, List.find?_eq_none]
      intro t ht
      rw [slotTokens_cons, slotTokens_nil, List.append_nil, Slot.tokens, List.mem_append,
        Option.mem_toList, List.mem_singleton] at ht
      rcases ht with ht | rfl
      · simp [Token.isSeparator, (hg t ht).1]
      · simp [Token.isEol, he]
    rw [hnone]
    simp [he, Token.isComment]
  | @remark _ gap gap' c e hs hk hc hb hg he =>
    rw [hslots.firstSignificant (by simp [hk])]
    simp [hk, he, Token.isComment, Token.isData, Token.isContinuation, TokenKind.isData]
  | @cell _ gap t xs hs hk hc hb hrest =>
    have hcell : t.kind.isCell = true := by
      rw [hk]
      exact isCell_cellKind _
    have hkind : t.kind ≠ .eol ∧ t.kind ≠ .comment ∧ (t.isData || t.isContinuation) = true := by
      rw [Token.isData, Token.isContinuation]
      revert hcell
      cases t.kind <;> decide
    rw [hslots.firstSignificant hkind.1, List.any_cons, List.any_cons, hkind.2.2]
    simp [hkind.2.1, Token.isContinuation]

/-- Slot lines whose first tokens are of one kind play the same role. -/
theorem SlotLine.sameRole (hx : SlotLine star first xs) (hy : SlotLine star' first' ys)
    (hhead : ys.head?.map (·.token.kind) = xs.head?.map (·.token.kind)) :
    SameRole (slotTokens xs) (slotTokens ys) := by
  obtain ⟨hh, hc, hr⟩ := hx.roles
  obtain ⟨hh', hc', hr'⟩ := hy.roles
  rw [hhead] at hh' hc' hr'
  exact ⟨hh'.trans hh.symm, hc'.trans hc.symm, hr'.trans hr.symm⟩

end

/-! ## Mending a line -/

section
variable {star first trim : Bool} {xs : List Slot} {plan : List Edit} {ds : List (Slot × Edit)}

/-- The edits of a plan make a line, if its first cell does not go and what is written fits. -/
theorem SlotLine.editsLine_edited (h : SlotLine star first xs) (htrim : .trim ∉ plan)
    (hfirst : first = true → ∀ x ∈ xs.head?, x.token.isData = true → plan.head? ≠ some .remove)
    (hwrite : ∀ d ∈ edited trim plan xs, ∀ code u, d.2 = .write code u →
      Respells d.1.token u) : EditsLine first (edited trim plan xs) := by
  have hending {x : Slot} {first : Bool} : Edit.Suits first x
      (if trim && x.token.isEol && x.gap.isSome then .trim else .keep) := by
    split
    · rename_i hgoes
      simp only [Bool.and_eq_true] at hgoes
      show x.token.kind = .eol
      simpa [Token.isEol] using hgoes.1.2
    · trivial
  induction h generalizing plan with
  | @ending first gap e hg he =>
    have hdata : ¬ (Slot.mk gap e).token.isData = true := by
      simp [Token.isData_eq_false he rfl]
    rw [edited, if_neg hdata]
    exact ⟨hending, trivial⟩
  | @remark first gap gap' c e hs hk hc hb hg he =>
    have hcomment : ¬ (Slot.mk gap c).token.isData = true := by
      simp [Token.isData_eq_false hk rfl]
    have hdata : ¬ (Slot.mk gap' e).token.isData = true := by
      simp [Token.isData_eq_false he rfl]
    rw [edited, if_neg hcomment, edited, if_neg hdata]
    exact ⟨hending, hending, trivial⟩
  | @cell first gap t xs hs hk hc hb hrest ih =>
    have hcell : t.kind.isCell = true := by
      rw [hk]
      exact isCell_cellKind _
    have hrole : (first && !(Slot.mk gap t).token.kind.isCell) = false := by simp [hcell]
    rw [edited] at hwrite ⊢
    split
    · rename_i hdata
      rw [if_pos hdata] at hwrite
      obtain ⟨hhead, htail⟩ := List.forall_mem_cons.1 hwrite
      have htrim' : .trim ∉ plan.tail := fun hmem => htrim (List.mem_of_mem_tail hmem)
      refine ⟨?_, hrole ▸ ih htrim' (fun hf => by cases hf) htail⟩
      cases plan with
      | nil => trivial
      | cons e plan =>
        cases e with
        | keep => trivial
        | trim => exact absurd List.mem_cons_self htrim
        | remove =>
          have hnot : first ≠ true := fun hf => hfirst hf _ rfl hdata rfl
          exact ⟨by simpa using hnot, hdata⟩
        | write code value => exact hhead code value rfl
    · rename_i hdata
      rw [if_neg hdata] at hwrite
      obtain ⟨-, htail⟩ := List.forall_mem_cons.1 hwrite
      exact ⟨hending, hrole ▸ ih htrim (fun hf => by cases hf) htail⟩

/-- Edits of a line take away and rewrite what there is. -/
theorem SlotLine.founded (h : SlotLine star first xs) (hxs : oldSlots ds = xs)
    (hd : EditsLine first ds) (htrim : ∀ d ∈ ds, d.2 = .trim → d.1.gap.isSome = true) :
    ∀ d ∈ ds, Founded d := by
  have hgap {gap : Option Token} (hg : IsGapToken gap) (hsome : gap.isSome = true) :
      ∃ g ∈ gap, g.value.toList ≠ [] := by
    obtain ⟨g, rfl⟩ := Option.isSome_iff_exists.1 hsome
    exact ⟨g, rfl, (hg g rfl).2.1⟩
  -- what ends a line loses its gap at most
  have hending {gap : Option Token} {e : Token} {edit : Edit} {first : Bool} (hg : IsGapToken gap)
      (he : e.kind = .eol) (hs : edit.Suits first ⟨gap, e⟩)
      (ht : edit = .trim → gap.isSome = true) : Founded (⟨gap, e⟩, edit) := by
    rcases suits_eol hs he with rfl | rfl
    · exact ⟨by simp, by simp⟩
    · exact ⟨fun _ => hgap hg (ht rfl), by simp⟩
  induction h generalizing ds with
  | @ending first gap e hg he =>
    obtain ⟨edit, es, rfl, hes⟩ := oldSlots_eq_cons hxs
    obtain rfl : es = [] := List.map_eq_nil_iff.1 hes
    obtain ⟨ht, -⟩ := List.forall_mem_cons.1 htrim
    exact List.forall_mem_cons.2 ⟨hending hg he hd.1 ht, by simp⟩
  | @remark first gap gap' c e hs hk hc hb hg he =>
    obtain ⟨edit, es, rfl, hes⟩ := oldSlots_eq_cons hxs
    obtain ⟨edit', es, rfl, hnil⟩ := oldSlots_eq_cons hes
    obtain rfl : es = [] := List.map_eq_nil_iff.1 hnil
    obtain rfl := suits_comment hd.1 hk
    obtain ⟨-, ht⟩ := List.forall_mem_cons.1 htrim
    obtain ⟨ht, -⟩ := List.forall_mem_cons.1 ht
    exact List.forall_mem_cons.2 ⟨⟨by simp, by simp⟩,
      List.forall_mem_cons.2 ⟨hending hg he hd.2.1 ht, by simp⟩⟩
  | @cell first gap t xs hs hk hc hb hrest ih =>
    obtain ⟨edit, es, rfl, hes⟩ := oldSlots_eq_cons hxs
    have hcell : t.kind.isCell = true := by
      rw [hk]
      exact isCell_cellKind _
    have hbehind : EditsLine false es := by
      have := hd.2
      rwa [hcell, Bool.not_true, Bool.and_false] at this
    refine List.forall_mem_cons.2 ⟨⟨fun hgoes => ?_, fun _ => hc.ne_nil⟩,
      ih hes hbehind (List.forall_mem_cons.1 htrim).2⟩
    rcases suits_cell hd.1 hcell with rfl | ⟨rfl, rfl⟩ | ⟨code, value, rfl, hv⟩
    · simp at hgoes
    · obtain ⟨g, hg, -⟩ := hs.wide rfl
      exact hgap hs.form (Option.isSome_iff_exists.2 ⟨g, hg⟩)
    · simp at hgoes

end

/-! ## Mended lines are lines -/

/-- A line without carriage returns, but in its ending. -/
def NoReturn (line : List Token) : Prop := ∀ t ∈ line, t.kind ≠ .eol → '\r' ∉ t.value.toList

/-- A line and what it becomes when the data in it is edited by a plan. -/
def LineMended (trim : Bool) (old new : List Token) : Prop :=
  ∃ plan, .trim ∉ plan ∧ EditsLine true (edited trim plan (slots old)) ∧
    new = slotTokens (mended (edited trim plan (slots old)))

section
variable {trim : Bool} {plan : List Edit} {old new : List Token}

/-- Only a slot with a gap is trimmed. -/
theorem mem_edited_trim {xs : List Slot} {d : Slot × Edit} (h : .trim ∉ plan)
    (hd : d ∈ edited trim plan xs) (ht : d.2 = .trim) : d.1.gap.isSome = true := by
  induction xs generalizing plan with
  | nil => cases hd
  | cons x xs ih =>
    rw [edited] at hd
    split at hd
    · rcases List.mem_cons.1 hd with rfl | hd
      · cases plan with
        | nil => cases ht
        | cons e plan =>
          obtain rfl : e = .trim := ht
          exact absurd List.mem_cons_self h
      · exact ih (fun hmem => h (List.mem_of_mem_tail hmem)) hd
    · rcases List.mem_cons.1 hd with rfl | hd
      · dsimp only at ht ⊢
        split at ht
        · rename_i hgoes
          simp only [Bool.and_eq_true] at hgoes
          exact hgoes.2
        · cases ht
      · exact ih h hd

/-- What a mended line holds was there, or it is written for a cell that was. -/
theorem mem_mended {ds : List (Slot × Edit)} {t : Token} (h : t ∈ slotTokens (mended ds)) :
    t ∈ slotTokens (oldSlots ds) ∨
      ∃ x code u, (x, .write code u) ∈ ds ∧ t = Token.withValue x.token u := by
  obtain ⟨y, hy, ht⟩ := List.mem_flatMap.1 h
  obtain ⟨⟨x, e⟩, hd, hy⟩ := List.mem_filterMap.1 hy
  have hold : ∀ t ∈ x.tokens, t ∈ slotTokens (oldSlots ds) := fun t ht =>
    List.mem_flatMap.2 ⟨x, List.mem_map_of_mem hd, ht⟩
  cases e with
  | keep =>
    obtain rfl := Option.some.inj hy
    exact .inl (hold t ht)
  | trim =>
    obtain rfl := Option.some.inj hy
    obtain rfl := List.mem_singleton.1 ht
    exact .inl (hold _ (by simp [Slot.tokens]))
  | remove => cases hy
  | write code u =>
    obtain rfl := Option.some.inj hy
    rcases List.mem_append.1 ht with ht | ht
    · exact .inl (hold t (List.mem_append_left _ ht))
    · exact .inr ⟨x, code, u, hd, List.mem_singleton.1 ht⟩

/-- Every edit of a line suits its slot. -/
theorem EditsLine.suits {first : Bool} {ds : List (Slot × Edit)} (h : EditsLine first ds) :
    ∀ d ∈ ds, ∃ first, d.2.Suits first d.1 := by
  induction ds generalizing first with
  | nil => simp
  | cons d ds ih => exact List.forall_mem_cons.2 ⟨⟨_, h.1⟩, ih h.2⟩

/-- The slots of a mended line. -/
theorem slotLine_mended (hold : TokenLine (old.map Token.piece))
    (hd : EditsLine true (edited trim plan (slots old))) :
    SlotLine (startsWithAsterisk (chars old)) true (slots old) ∧ slotTokens (slots old) = old ∧
      SlotLine (startsWithAsterisk (chars (slotTokens (mended (edited trim plan (slots old))))))
        true (mended (edited trim plan (slots old))) := by
  obtain ⟨hline, htokens⟩ := slotLine_of_tokenLine hold
  refine ⟨hline, htokens, SlotLine.mended_line ?_ (oldSlots_edited _ _ _) hd⟩
  rwa [htokens]

/-- What is no data and no gap is there still. -/
theorem filter_slotTokens_mended (hold : slotTokens (slots old) = old) {p : Token → Bool}
    (hp : ∀ t, p t = true → t.isData = false ∧ t.kind ≠ .separator) :
    (slotTokens (mended (edited trim plan (slots old)))).filter p = old.filter p := by
  have hsep (t : Token) (ht : t.kind = .separator) : p t = false := by
    by_contra h
    exact (hp t (by simpa using h)).2 ht
  rw [(areSlots_mended_edited (areSlots_slots old)).filter_slotTokens hsep,
    filter_mended fun t ht => (hp t ht).1, ← (areSlots_slots old).filter_slotTokens hsep, hold]

/-- How a line of tokens ends. -/
theorem TokenLine.lineEnding {ts : List Token} {e : Token}
    (h : TokenLine ((ts ++ [e]).map Token.piece)) :
    LineEnding (ts.map Token.piece) e.value.toList := by
  generalize hps : (ts ++ [e]).map Token.piece = ps at h
  obtain @⟨row, ending, -, hend⟩ := h
  rw [List.map_append, List.map_singleton] at hps
  obtain ⟨rfl, hlast⟩ := List.append_inj' hps rfl
  obtain rfl : e.value.toList = ending := congrArg Prod.snd (List.singleton_inj.1 hlast)
  exact hend

namespace LineMended

/-- A mended line is for what it was for. -/
theorem sameRole (h : LineMended trim old new) (hold : TokenLine (old.map Token.piece)) :
    SameRole old new := by
  obtain ⟨plan, -, hd, rfl⟩ := h
  obtain ⟨hline, htokens, hnew⟩ := slotLine_mended hold hd
  have := hline.sameRole hnew (by rw [hd.head?_mended, oldSlots_edited])
  rwa [htokens] at this

/-- A mended line has the line ending that it had. -/
theorem exists_ending (h : LineMended trim old new) (hold : TokenLine (old.map Token.piece)) :
    ∃ us ts e, old = us ++ [e] ∧ new = ts ++ [e] ∧ ∀ t ∈ ts, t.kind ≠ .eol := by
  obtain ⟨plan, -, hd, rfl⟩ := h
  obtain ⟨-, hslots, hnew⟩ := slotLine_mended hold hd
  obtain ⟨ts, e, htokens, he⟩ := hnew.exists_concat
  obtain ⟨us, e', hrow, he', hus⟩ := hold.isRow
  have heol (t : Token) (ht : t.isEol = true) : t.isData = false ∧ t.kind ≠ .separator :=
    ⟨Token.isData_eq_false (eq_of_beq ht) rfl, by simp [show t.kind = .eol from eq_of_beq ht]⟩
  have hfilter := @filter_slotTokens_mended trim plan old hslots (·.isEol) heol
  have hnone : us.filter (·.isEol) = [] :=
    List.filter_eq_nil_iff.2 fun t ht => by simpa [Token.isEol] using hus t ht
  have hmark : e.isEol = true ∧ e'.isEol = true := by simp [Token.isEol, he, he']
  rw [htokens, hrow, List.filter_append, List.filter_append, hnone, List.filter_singleton,
    List.filter_singleton, hmark.1, hmark.2] at hfilter
  obtain ⟨hnil, hlast⟩ := List.append_inj' hfilter rfl
  obtain rfl : e = e' := by simpa using hlast
  exact ⟨us, ts, e, hrow, htokens,
    fun t ht => by simpa [Token.isEol] using List.filter_eq_nil_iff.1 hnil t ht⟩

/-- A mended line holds no return if the old one does not. -/
theorem noReturn (h : LineMended trim old new) (hold : TokenLine (old.map Token.piece))
    (hr : NoReturn old) : NoReturn new := by
  obtain ⟨plan, -, hd, rfl⟩ := h
  obtain ⟨-, hslots, -⟩ := slotLine_mended hold hd
  intro t ht hk hc
  rcases mem_mended ht with ht | ⟨x, code, u, hx, rfl⟩
  · rw [oldSlots_edited, hslots] at ht
    exact hr t ht hk hc
  · obtain ⟨_, hsuits⟩ := hd.suits _ hx
    exact (Respells.unbroken hsuits).2 hc

/-- **A mended line is a line,** unless nothing is left of it. -/
theorem tokenLine (h : LineMended trim old new) (hold : TokenLine (old.map Token.piece))
    (hr : NoReturn old) : TokenLine (new.map Token.piece) ∨ chars new = [] := by
  have hreturn := h.noReturn hold hr
  obtain ⟨us, ts, e, rfl, rfl, hts⟩ := h.exists_ending hold
  have hend := hold.lineEnding
  by_cases hnil : ts = [] ∧ e.value.toList = []
  · right
    rw [hnil.1]
    simp [hnil.2]
  · left
    obtain ⟨plan, -, hd, hnew⟩ := h
    have hline := (slotLine_mended hold hd).2.2
    rw [hnew]
    refine hline.tokenLine fun ts' e' htokens => ?_
    rw [← hnew] at htokens
    obtain ⟨rfl, hlast⟩ := List.append_inj' htokens rfl
    obtain rfl : e = e' := by simpa using hlast
    generalize e.value.toList = ending at hend hnil
    cases hend with
    | feed _ =>
      refine .feed fun hlast => ?_
      obtain ⟨p, hp, hc⟩ := List.mem_flatMap.1 (List.mem_of_getLast? hlast)
      obtain ⟨t, ht, rfl⟩ := List.mem_map.1 hp
      exact hreturn t (List.mem_append_left _ ht) (hts t ht) hc
    | returnFeed => exact .returnFeed
    | none _ => exact .none fun hempty => hnil ⟨List.map_eq_nil_iff.1 hempty, rfl⟩

end LineMended

end

/-! ## Mending the lines of a statement -/

/-- What the lines of a statement become by a plan for its data. -/
def newLines (trim : Bool) : List Edit → List (List Token) → List (List Token)
  | _, [] => []
  | plan, l :: ls => slotTokens (mended (edited trim plan (slots l))) ::
      newLines trim (plan.drop (dataSlots (slots l)).length) ls

section
variable {trim : Bool} {plan : List Edit} {g : List (List Token)}

/-- The new lines hold the tokens of the mended slots. -/
theorem flatten_newLines (h : ∀ l ∈ g, IsRow l) : (newLines trim plan g).flatten =
    slotTokens (mended (edited trim plan (slots g.flatten))) := by
  induction g generalizing plan with
  | nil => rfl
  | cons l ls ih =>
    obtain ⟨hl, hls⟩ := List.forall_mem_cons.1 h
    rw [newLines, List.flatten_cons, List.flatten_cons, ih hls, hl.slots_append, edited_append,
      mended_append, slotTokens_append]

/-- A cell may be respelled with any text that may be written in it. -/
theorem Writable.respells {header : Bool} {u : String} {t : Token} (h : Writable header u)
    (hdata : t.isData = true) (hknown : t.kind ≠ .unknown)
    (hheader : t.kind = .sectionHeader ↔ header = true) : Respells t u :=
  ⟨hdata, hknown, h.cell, h.plain, h.not_dots, h.star.trans hheader.symm⟩

/-- A line that continues another does not start with data. -/
theorem not_data_of_continues {line : List Token} (h : TokenLine (line.map Token.piece))
    (hc : isContinuationLine line = true ∨ isCommentLine line = true) :
    ∀ x ∈ (slots line).head?, x.token.isData = false := by
  obtain ⟨hline, htokens⟩ := slotLine_of_tokenLine h
  obtain ⟨-, hcont, hcomment⟩ := hline.roles
  rw [htokens] at hcont hcomment
  intro x hx
  rw [hcont, hcomment, Option.mem_def.1 hx] at hc
  simp only [Option.map_some, beq_iff_eq, Option.some.injEq] at hc
  rcases hc with hc | hc <;> exact Token.isData_eq_false hc rfl

/-- Edits of the lines of a statement that leave lines. -/
def EditsLines (trim : Bool) : List Edit → List (List Token) → Prop
  | _, [] => True
  | plan, l :: ls => EditsLine true (edited trim plan (slots l)) ∧
      EditsLines trim (plan.drop (dataSlots (slots l)).length) ls

/-- What keeps to the data of a statement leaves its lines. -/
theorem editsLines_of_respells (hlines : ∀ l ∈ g, TokenLine (l.map Token.piece))
    (htrim : .trim ∉ plan)
    (hfirst : ∀ l ∈ g.head?, ∀ x ∈ (slots l).head?, x.token.isData = true →
      plan.head? ≠ some .remove)
    (hmore : ∀ l ∈ g.tail, isContinuationLine l = true ∨ isCommentLine l = true)
    (hwrite : ∀ d ∈ edited trim plan (slots g.flatten), ∀ code u, d.2 = .write code u →
      Respells d.1.token u) : EditsLines trim plan g := by
  induction g generalizing plan with
  | nil => trivial
  | cons l ls ih =>
    obtain ⟨hl, hls⟩ := List.forall_mem_cons.1 hlines
    rw [List.flatten_cons, hl.isRow.slots_append, edited_append] at hwrite
    obtain ⟨hhead, htail⟩ := List.forall_mem_append.1 hwrite
    have hedits := (slotLine_of_tokenLine hl).1.editsLine_edited htrim
      (fun _ => hfirst l rfl) hhead
    refine ⟨hedits, ih hls (fun h => htrim (List.mem_of_mem_drop h))
      ?_ (fun l' hl' => hmore l' (List.mem_of_mem_tail hl')) htail⟩
    intro l' hl' x hx hdata
    have hmem := List.mem_of_mem_head? hl'
    rw [not_data_of_continues (hls l' hmem) (hmore l' hmem) x hx] at hdata
    cases hdata

/-- **The lines of a statement are mended one by one.** -/
theorem forall₂_newLines (h : EditsLines trim plan g) (htrim : .trim ∉ plan) :
    List.Forall₂ (LineMended trim) g (newLines trim plan g) := by
  induction g generalizing plan with
  | nil => exact .nil
  | cons l ls ih =>
    obtain ⟨hl, hls⟩ := h
    exact .cons ⟨plan, htrim, hl, rfl⟩ (ih hls fun hmem => htrim (List.mem_of_mem_drop hmem))

/-- What the edits of a statement take away or rewrite is there. -/
theorem founded_of_editsLines (hlines : ∀ l ∈ g, TokenLine (l.map Token.piece))
    (h : EditsLines trim plan g) (htrim : .trim ∉ plan) :
    ∀ d ∈ edited trim plan (slots g.flatten), Founded d := by
  induction g generalizing plan with
  | nil => exact List.forall_mem_nil _
  | cons l ls ih =>
    obtain ⟨hl, hls⟩ := List.forall_mem_cons.1 hlines
    obtain ⟨hedits, hrest⟩ := h
    rw [List.flatten_cons, hl.isRow.slots_append, edited_append]
    refine List.forall_mem_append.2 ⟨?_, ih hls hrest fun hmem => htrim (List.mem_of_mem_drop hmem)⟩
    exact (slotLine_of_tokenLine hl).1.founded (oldSlots_edited _ _ _) hedits fun d hd =>
      mem_edited_trim htrim hd

end

/-! ## The lines of a group -/

section
variable {lines : List (List Token)}

/-- A group is a line with those that continue it, if it can be continued. -/
theorem exists_cons_of_mem_groupLines {g : List (List Token)} (h : g ∈ groupLines lines) :
    ∃ l ls, g = l :: ls ∧ (isContinuable l = false → ls = []) ∧
      ∀ l' ∈ ls, isContinuationLine l' = true ∨ isCommentLine l' = true := by
  have hgroup := formsGroup_of_mem_groupLines h
  obtain ⟨l, ls, rfl⟩ := List.exists_cons_of_ne_nil hgroup.ne_nil
  refine ⟨l, ls, rfl, fun hn => ?_, hgroup.members⟩
  by_contra hne
  have hstart := isContinuable_iff.2 ((formsGroup_cons.1 hgroup).2 hne)
  rw [hn] at hstart
  cases hstart

end

end RobotSuite
