/-
# Bodies in columns

A call that is aligned keeps what a walk can tell of it (`Columns.kept_aligned`), has no flaw and
stays sound (`Columns.ready_aligned`).  So of the calls of a body those that are chosen stand in
columns that are as wide as these calls need, the others are too long for columns that are no
narrower, and everything else stays (`Columns.settled_of_taken`).  The calls of such a body have the
indentations and the layouts that they had, so the same calls are chosen again, and none of them
gets another text (`Columns.Taken.again`).
-/

import RobotSuite.Proofs.Format.Columns.Lines
import RobotSuite.Proofs.Format.Gaps.HiddenGaps

namespace RobotSuite

/-- A statement as it is read from a source: sound, without flaws and without a label. -/
structure Statement.IsReady (kind : SectionKind) (s : Statement) : Prop where
  sound : s.IsSound kind
  flaws : s.flaws = []
  label : s.label = none

/-- What stands in place of a statement when keyword calls are aligned: a statement of its type and
with its directive, and the statement itself if it is no keyword call. -/
structure Statement.Kept (s new : Statement) : Prop where
  type : new.type = s.type
  directive : new.directive? = s.directive?
  other : s.type ≠ .keywordCall → new = s

namespace Statement.Kept
variable {a b c : Statement}

@[refl] theorem refl (s : Statement) : s.Kept s := ⟨rfl, rfl, fun _ => rfl⟩

theorem trans (h : a.Kept b) (h' : b.Kept c) : a.Kept c :=
  ⟨h'.type.trans h.type, h'.directive.trans h.directive, fun hne =>
    (h'.other (h.type ▸ hne)).trans (h.other hne)⟩

end Statement.Kept

namespace Columns

section
variable {kind : SectionKind} {separator : String} {s : Statement}

/-- The lines of a call that is aligned have other gaps. -/
theorem respaced_aligned (h : s.IsSound kind) (hs : IsWide separator) (widths : List Nat) :
    ∃ f, aligned separator widths s = (splitLines s.tokens).flatMap f ∧
      ∀ l ∈ splitLines s.tokens, Respaced l (f l) := by
  obtain ⟨gapAt, heq, hg⟩ := align_eq separator widths (indentOf s.tokens) s.tokens
  obtain ⟨hi, -⟩ := h.laid.indentOf
  refine ⟨_, heq, fun l hl => ?_⟩
  obtain ⟨halike, hdata, hcomments⟩ := h.laid.alike_composeLines hi hs (hg hs) (by simp) l hl
  obtain ⟨k, hw⟩ := h.laid.written l hl
  exact ⟨halike, hdata, hcomments, Gaps.endingOf_composeLine hw _ _ _⟩

/-- **A call that is aligned** is still one that a source can hold. -/
theorem ready_aligned (h : s.IsReady kind) (hs : IsWide separator) (widths : List Nat) :
    (s.withTokens (aligned separator widths s)).IsReady kind := by
  obtain ⟨f, heq, hf⟩ := respaced_aligned h.sound hs widths
  refine ⟨sound_align h.sound hs widths, ?_, rfl⟩
  rw [heq]
  exact Statement.flaws_of_respaced h.sound.laid hf h.flaws

/-- **A call that is aligned** is a call with the same directive. -/
theorem kept_aligned (h : s.IsSound kind) (hs : IsWide separator) (ht : s.type = .keywordCall)
    (widths : List Nat) : s.Kept (s.withTokens (aligned separator widths s)) := by
  obtain ⟨f, heq, hf⟩ := respaced_aligned h hs widths
  refine ⟨rfl, directive?_congr ?_, fun hne => absurd ht hne⟩
  show commentTexts (aligned separator widths s) = _
  rw [heq]
  exact (h.laid.respaced hf).2.2

/-- A call that is aligned has no line either that holds nothing but a comment. -/
theorem isCall_aligned (h : s.IsSound kind) (hs : IsWide separator) (hcall : s.IsCall)
    (widths : List Nat) : (s.withTokens (aligned separator widths s)).IsCall := by
  refine ⟨hcall.type, ?_⟩
  have hcells := hcall.cells
  rw [Statement.hasCommentLine] at hcells ⊢
  show (LineLayout.ofTokens (aligned separator widths s)).any _ = false
  rwa [ofTokens_aligned h hs hcall]

end

/-! ## Items of bodies -/

/-- The call as which a statement is aligned. -/
abbrev callOf (s : Statement) : Candidate := ⟨indentOf s.tokens, LineLayout.ofTokens s.tokens⟩

/-- Calls that no directive protects may stand in columns. -/
theorem candidate?_eq_some {item : Marked BodyItem} {c : Candidate} :
    candidate? item = some c ↔ ∃ s, item = (.statement s, false) ∧ s.IsCall ∧ c = callOf s := by
  obtain ⟨item, mark⟩ := item
  constructor
  · intro h
    cases item with
    | control b => cases mark <;> cases h
    | statement s =>
      cases mark with
      | true => cases h
      | false =>
        rw [candidate?] at h
        split at h
        · rename_i hcall
          rw [Bool.and_eq_true, decide_eq_true_eq, Bool.not_eq_true'] at hcall
          exact ⟨s, rfl, ⟨hcall.1, hcall.2⟩, (Option.some.inj h).symm⟩
        · cases h
  · rintro ⟨s, hitem, hcall, rfl⟩
    obtain ⟨rfl, rfl⟩ := Prod.mk.inj hitem
    rw [candidate?]
    exact if_pos (by simp [hcall.type, hcall.cells])

/-- What is no call, or is protected, stands in no columns. -/
theorem candidate?_eq_none {item : Marked BodyItem}
    (h : ∀ s, item = (.statement s, false) → ¬ s.IsCall) : candidate? item = none := by
  rw [Option.eq_none_iff_forall_ne_some]
  intro c hc
  obtain ⟨s, hitem, hcall, -⟩ := candidate?_eq_some.1 hc
  exact h s hitem hcall

/-- What stands in place of an item when some calls are aligned. -/
def alignItem (separator : String) (calls : List (Option Candidate)) (item : Marked BodyItem) :
    BodyItem :=
  (realign? separator calls item).getD item.1

section
variable {kind : SectionKind} {limit : Nat} {separator : String} {s : Statement}
  {calls : List (Option Candidate)} {item : Marked BodyItem}

/-- What stands in no columns is left as it is. -/
theorem alignItem_of_none (h : candidate? item = none) :
    alignItem separator calls item = item.1 := by
  rw [alignItem, realign?, h]
  rfl

/-- A call that is not chosen stays. -/
theorem alignItem_of_not_mem (h : s.IsCall) (hc : some (callOf s) ∉ calls) :
    alignItem separator calls (.statement s, false) = .statement s := by
  have hcand : candidate? (.statement s, false) = some (callOf s) :=
    candidate?_eq_some.2 ⟨s, rfl, h, rfl⟩
  rw [alignItem, realign?, hcand, Option.filter_some, if_neg (by simpa using hc)]
  rfl

/-- A call that is chosen is aligned, if that changes its text. -/
theorem alignItem_of_mem (h : s.IsCall) (hc : some (callOf s) ∈ calls) :
    alignItem separator calls (.statement s, false) =
      if renderTokens (aligned separator (widthsOf calls) s) = s.text then .statement s
      else .statement (s.withTokens (aligned separator (widthsOf calls) s)) := by
  have hcand : candidate? (.statement s, false) = some (callOf s) :=
    candidate?_eq_some.2 ⟨s, rfl, h, rfl⟩
  rw [alignItem, realign?, hcand, Option.filter_some, if_pos (by simpa using hc),
    Option.bind_some, retoken?]
  split <;> rfl

/-- An item stays, or is a call that is aligned. -/
theorem alignItem_cases (separator : String) (calls : List (Option Candidate))
    (item : Marked BodyItem) : alignItem separator calls item = item.1 ∨
      ∃ s, item = (.statement s, false) ∧ s.IsCall ∧ some (callOf s) ∈ calls ∧
        alignItem separator calls item =
          .statement (s.withTokens (aligned separator (widthsOf calls) s)) := by
  cases hcand : candidate? item with
  | none => exact .inl (alignItem_of_none hcand)
  | some c =>
    obtain ⟨s, rfl, hcall, rfl⟩ := candidate?_eq_some.1 hcand
    by_cases hc : some (callOf s) ∈ calls
    · rw [alignItem_of_mem hcall hc]
      split
      · exact .inl rfl
      · exact .inr ⟨s, rfl, hcall, hc, rfl⟩
    · exact .inl (alignItem_of_not_mem hcall hc)

/-- **What a body becomes.** -/
theorem unmark_alignBody (limit : Nat) (separator : String) (items : List (Marked BodyItem)) :
    unmark ((alignBody limit separator items).getD items) =
      items.map (alignItem separator (settle limit separator (items.map candidate?))) := by
  rw [alignBody]
  dsimp only
  rw [alignments_eq_map, zip_map_self]
  split
  · rw [Option.getD_some, unmark, List.map_map, List.map_map]
    rfl
  · rename_i hnone
    rw [Option.getD_none, unmark]
    refine List.map_congr_left fun item hitem => ?_
    rw [alignItem]
    cases hr : realign? separator (settle limit separator (items.map candidate?)) item with
    | none => rfl
    | some new =>
      refine absurd (List.any_eq_true.2 ⟨_, List.mem_map_of_mem hitem, ?_⟩) hnone
      rw [hr]
      rfl

/-! ## Bodies in columns -/

/-- An item of a body, with whether directives switch the pass off at it, and what stands in its
place in columns of some widths.  A call of the choice `K` stands in the columns, any other call is
too long for columns that are no narrower, and everything else stays; what stands in place of a
control block is said where its own body is. -/
inductive ItemSettled (limit : Nat) (separator : String) (K : Statement → Prop)
    (width : Nat → Nat) : Marked BodyItem → BodyItem → Prop
  | aligned {s : Statement} {ts : List Token} : s.IsCall → K s →
      InColumns limit separator width s ts →
      ItemSettled limit separator K width (.statement s, false) (.statement (s.withTokens ts))
  | long {s : Statement} {widths : List Nat} : s.IsCall → ¬ K s →
      (∀ column, width column ≤ widthAt widths column) →
      (∃ line ∈ splitLines (aligned separator widths s), limit < dataWidth line) →
      ItemSettled limit separator K width (.statement s, false) (.statement s)
  | other {s : Statement} {off : Bool} : off = true ∨ ¬ s.IsCall →
      ItemSettled limit separator K width (.statement s, off) (.statement s)
  | control {c new : ControlBlock} {off : Bool} :
      ItemSettled limit separator K width (.control c, off) (.control new)

/-- **A body in columns,** made of the items of another: of its calls at which directives do not
switch the pass off, and of which no line holds nothing but a comment, some are chosen.  Each column
is as wide as the widest cell in it that is followed by another cell, on the lines of the chosen
calls alone. -/
def Settled (limit : Nat) (separator : String) (items : List (Marked BodyItem))
    (new : List BodyItem) : Prop :=
  ∃ (K : Statement → Prop) (width : Nat → Nat),
    (∀ column n, width column ≤ n ↔ ∀ s, (.statement s, false) ∈ items → s.IsCall → K s →
      ∀ l ∈ LineLayout.ofTokens s.tokens, ∀ cell, l.Followed column cell →
        Text.length cell.value ≤ n) ∧
    List.Forall₂ (ItemSettled limit separator K width) items new

/-- The items of a body and those that stand in their place when the body is aligned.  A control
block stands in place of a control block. -/
def Taken (limit : Nat) (separator : String) (items : List (Marked BodyItem))
    (new : List BodyItem) : Prop :=
  List.Forall₂ (fun item i => i.control?.isSome = item.1.control?.isSome ∧
    (item.1.control? = none →
      i = alignItem separator (settle limit separator (items.map candidate?)) item)) items new

/-- A chosen call stands in its columns, whether its text changes or not. -/
theorem settled_of_mem {width : Nat → Nat} {K : Statement → Prop} (h : s.IsReady kind)
    (hs : IsWide separator) (hcall : s.IsCall) (hc : some (callOf s) ∈ calls) (hK : K s)
    (hcolumns : InColumns limit separator width s (aligned separator (widthsOf calls) s)) :
    ItemSettled limit separator K width (.statement s, false)
      (alignItem separator calls (.statement s, false)) := by
  rw [alignItem_of_mem hcall hc]
  split
  · rename_i htext
    obtain ⟨f, heq, hf⟩ := respaced_aligned h.sound hs (widthsOf calls)
    have hbare : (aligned separator (widthsOf calls) s).map Token.bare =
        s.tokens.map Token.bare := by
      rw [heq] at htext ⊢
      exact Statement.bare_of_respaced h.sound.laid hf h.flaws htext
    have hsame : s.withTokens s.tokens = s := by rw [Statement.withTokens, ← h.label]
    have := ItemSettled.aligned (K := K) hcall hK (hcolumns.of_bare hbare)
    rwa [hsame] at this
  · exact .aligned hcall hK hcolumns

/-- **A body whose calls are aligned stands in columns.** -/
theorem settled_of_taken {items : List (Marked BodyItem)} {new : List BodyItem}
    (hs : IsWide separator) (hi : bodyHolds (Statement.IsReady kind) (unmark items))
    (h : Taken limit separator items new) : Settled limit separator items new := by
  rw [bodyHolds_iff] at hi
  have hspec := settle_spec limit separator (items.map candidate?)
  rw [Taken] at h
  generalize settle limit separator (items.map candidate?) = calls at hspec h
  have hwidths {column n : Nat} : widthAt (widthsOf calls) column ≤ n ↔
      ∀ s, (.statement s, false) ∈ items → s.IsCall → some (callOf s) ∈ calls →
        ∀ l ∈ LineLayout.ofTokens s.tokens, ∀ cell, l.Followed column cell →
          Text.length cell.value ≤ n := by
    rw [widthAt_widthsOf_le_iff]
    refine ⟨fun hw s _ _ hc => hw _ hc, fun hw c hc => ?_⟩
    obtain ⟨item, hitem, hcand⟩ := List.mem_map.1 (hspec.mem hc)
    obtain ⟨s, rfl, hcall, rfl⟩ := candidate?_eq_some.1 hcand
    exact hw s hitem hcall hc
  refine ⟨fun s => some (callOf s) ∈ calls, widthAt (widthsOf calls), fun _ _ => hwidths, ?_⟩
  refine ((List.forall₂_and_left _ _).2 ⟨fun item hitem => hitem, h⟩).imp ?_
  rintro ⟨item, off⟩ i ⟨hitem, hkind, hi'⟩
  cases item with
  | control c =>
    cases i with
    | statement r => cases hkind
    | control new => exact .control
  | statement s =>
    obtain rfl := hi' rfl
    have hready := (hi _ (List.mem_map_of_mem hitem))
    rw [BodyItem.Holds] at hready
    by_cases hcall : off = false ∧ s.IsCall
    · obtain ⟨rfl, hcall⟩ := hcall
      by_cases hc : some (callOf s) ∈ calls
      · refine settled_of_mem hready.2 hs hcall hc hc
          (inColumns_aligned hready.2.sound hs hcall (fun l hl column cell hcell => ?_) ?_)
        · exact hwidths.1 (Nat.le_refl _) s hitem hcall hc l hl cell hcell
        · exact hspec.fitting _ hc
      · have hcand : some (callOf s) ∈ items.map candidate? :=
          List.mem_map.2 ⟨_, hitem, candidate?_eq_some.2 ⟨s, rfl, hcall, rfl⟩⟩
        obtain ⟨more, hmore, hover⟩ := hspec.overflowing _ hcand hc
        rw [alignItem_of_not_mem hcall hc]
        refine .long hcall hc hmore ?_
        obtain ⟨line, hline, hlong⟩ := List.all_eq_false.1 hover
        exact ⟨line, hline, by simpa using hlong⟩
    · rw [alignItem_of_none (candidate?_eq_none fun r hr hcalls => ?_)]
      · refine .other ?_
        cases off with
        | true => exact .inl rfl
        | false => exact .inr fun h => hcall ⟨rfl, h⟩
      · obtain ⟨hsr, rfl⟩ := Prod.mk.inj hr
        obtain rfl := BodyItem.statement.inj hsr
        exact hcall ⟨rfl, hcalls⟩

/-! ## A second time -/

/-- An item of a body, and what stands in its place when control blocks have been walked through:
the item with its mark, or a control block. -/
def Corresponds (item new : Marked BodyItem) : Prop :=
  new.1.control?.isSome = item.1.control?.isSome ∧ (item.1.control? = none → new = item)

/-- A control block stands in no columns. -/
theorem candidate?_of_control (h : item.1.control?.isSome = true) : candidate? item = none := by
  refine candidate?_eq_none fun s hs _ => ?_
  rw [hs] at h
  cases h

/-- What corresponds to a call may stand in columns if the call may. -/
theorem Corresponds.candidate? {item new : Marked BodyItem} (h : Corresponds item new) :
    candidate? new = candidate? item := by
  cases hc : item.1.control? with
  | none => rw [h.2 hc]
  | some c =>
    have hsome : item.1.control?.isSome = true := by rw [hc, Option.isSome_some]
    rw [candidate?_of_control hsome, candidate?_of_control (h.1.trans hsome)]

/-- What corresponds to an item is laid out as the item is. -/
theorem Corresponds.realign? {item new : Marked BodyItem} (h : Corresponds item new) :
    realign? separator calls new = realign? separator calls item := by
  cases hc : item.1.control? with
  | none => rw [h.2 hc]
  | some c =>
    have hsome : item.1.control?.isSome = true := by rw [hc, Option.isSome_some]
    have hnone := candidate?_of_control hsome
    rw [Columns.realign?, Columns.realign?, h.candidate?, hnone]
    rfl

/-- What is told of corresponding items is told of each other. -/
theorem map_of_corresponds {α : Type} {f : Marked BodyItem → α}
    (hf : ∀ {item new}, Corresponds item new → f new = f item)
    {items marked : List (Marked BodyItem)} (h : List.Forall₂ Corresponds items marked) :
    marked.map f = items.map f := by
  induction h with
  | nil => rfl
  | cons hitem _ ih => rw [List.map_cons, List.map_cons, hf hitem, ih]

/-- A body is left as it is if none of its items has to be laid out again. -/
theorem alignBody_eq_none_iff {items : List (Marked BodyItem)} :
    alignBody limit separator items = none ↔
      (alignments limit separator items).any (·.isSome) = false := by
  rw [alignBody]
  dsimp only
  cases (alignments limit separator items).any (·.isSome) with
  | true => simp
  | false => simp

/-- Whether anything is aligned in a body does not hang on its control blocks. -/
theorem alignBody_of_corresponds {items marked : List (Marked BodyItem)}
    (h : List.Forall₂ Corresponds items marked) (hnone : alignBody limit separator items = none) :
    alignBody limit separator marked = none := by
  rw [alignBody_eq_none_iff, alignments_eq_map] at hnone ⊢
  rwa [map_of_corresponds Corresponds.candidate? h, map_of_corresponds Corresponds.realign? h]

/-- **A body is taken from its items** when the control blocks in it have been walked through and
its calls are aligned. -/
theorem taken_of_corresponds {items marked : List (Marked BodyItem)}
    (h : List.Forall₂ Corresponds items marked) : Taken limit separator items
      (unmark ((alignBody limit separator marked).getD marked)) := by
  rw [unmark_alignBody, map_of_corresponds Corresponds.candidate? h, Taken,
    List.forall₂_map_right_iff]
  refine h.imp fun item new hnew => ?_
  obtain ⟨item, off⟩ := item
  cases item with
  | statement s =>
    rw [hnew.2 rfl]
    refine ⟨?_, fun _ => rfl⟩
    rcases alignItem_cases separator (settle limit separator (items.map Columns.candidate?))
      (.statement s, off) with heq | ⟨r, -, -, -, heq⟩
    · rw [heq]
    · rw [heq]
      rfl
  | control c =>
    rw [alignItem_of_none (candidate?_of_control hnew.1)]
    exact ⟨hnew.1, fun hc => by cases hc⟩

/-- An item that has been aligned is chosen as it was. -/
theorem candidate?_alignItem (hs : IsWide separator) (hi : item.1.Holds (Statement.IsReady kind)) :
    candidate? (alignItem separator calls item, item.2) = candidate? item := by
  rcases alignItem_cases separator calls item with heq | ⟨s, rfl, hcall, -, heq⟩
  · rw [heq]
  · rw [BodyItem.Holds] at hi
    have hsound := hi.2.sound
    rw [heq, candidate?_eq_some.2 ⟨s, rfl, hcall, rfl⟩, candidate?_eq_some]
    refine ⟨_, rfl, isCall_aligned hsound hs hcall _, ?_⟩
    exact congrArg₂ Candidate.mk (indentOf_aligned hsound hcall _).symm
      (ofTokens_aligned hsound hs hcall _).symm

/-- An item that has been aligned is not aligned again. -/
theorem realign?_alignItem (hs : IsWide separator) (hi : item.1.Holds (Statement.IsReady kind)) :
    realign? separator calls (alignItem separator calls item, item.2) = none := by
  have hcand := @candidate?_alignItem kind separator calls item hs hi
  rw [realign?, hcand]
  cases hc : candidate? item with
  | none => rfl
  | some c =>
    obtain ⟨s, rfl, hcall, rfl⟩ := candidate?_eq_some.1 hc
    by_cases hmem : some (callOf s) ∈ calls
    · rw [Option.filter_some, if_pos (by simpa using hmem), Option.bind_some,
        alignItem_of_mem hcall hmem]
      split
      · rename_i htext
        exact if_pos htext
      · exact if_pos rfl
    · rw [Option.filter_some, if_neg (by simpa using hmem)]
      rfl

/-- **Aligned again, a body stays as it is.** -/
theorem Taken.again {items again : List (Marked BodyItem)} (hs : IsWide separator)
    (hi : bodyHolds (Statement.IsReady kind) (unmark items))
    (h : Taken limit separator items (unmark again))
    (hoff : again.map (·.2) = items.map (·.2)) : alignBody limit separator again = none := by
  rw [bodyHolds_iff] at hi
  have hmarks : List.Forall₂ (fun item new : Marked BodyItem => new.2 = item.2) items again := by
    rw [← List.forall₂_eq_eq_eq] at hoff
    exact (List.forall₂_map_left_iff.1 (List.forall₂_map_right_iff.1 hoff)).flip
  rw [Taken, unmark, List.forall₂_map_right_iff] at h
  generalize hcalls : settle limit separator (items.map candidate?) = calls at h
  have hitems : List.Forall₂ (fun new item : Marked BodyItem =>
      realign? separator calls new = none ∧ candidate? new = candidate? item) again items := by
    have hmem := (List.forall₂_and_left (p := (· ∈ items)) _ _).2 ⟨fun _ hitem => hitem, h⟩
    refine (hmem.mp ?_ hmarks).flip
    rintro item ⟨new, off⟩ ⟨hitem, hkind, hnew⟩ rfl
    have hholds := hi _ (List.mem_map_of_mem hitem)
    cases hc : item.1.control? with
    | none =>
      obtain rfl := hnew hc
      exact ⟨realign?_alignItem hs hholds, candidate?_alignItem hs hholds⟩
    | some c =>
      have hsome : item.1.control?.isSome = true := by rw [hc, Option.isSome_some]
      have hnone := @candidate?_of_control (new, item.2) (hkind.trans hsome)
      rw [flip, realign?, hnone, candidate?_of_control hsome]
      exact ⟨rfl, rfl⟩
  obtain ⟨hnone, hsame⟩ := (List.forall₂_and_left _ _).1 hitems
  have hcands : again.map candidate? = items.map candidate? := by
    rw [← List.forall₂_eq_eq_eq]
    exact List.forall₂_map_left_iff.2 (List.forall₂_map_right_iff.2 hsame)
  rw [alignBody_eq_none_iff, alignments_eq_map, hcands, hcalls, List.any_map, List.any_eq_false]
  intro new hnew
  rw [Function.comp_apply, hnone new hnew]
  exact Bool.false_ne_true

end
end Columns
end RobotSuite
