/-
# Moving keeps files sound and valid

Sections are merged and put in order, and so are the settings.  What moves away from the end
of a file gets a line break, the comment of a header that is dropped becomes a statement of
its own, and all else is moved as it is (`MergeSections.keepsSound_pass`,
`OrderSettings.keepsSound_pass`).
-/

import Mathlib.Data.List.Forall2
import RobotSuite.Format.MergeSections
import RobotSuite.Format.OrderSettings
import RobotSuite.Proofs.Statement.NewTokens
import RobotSuite.Proofs.Transform.LineEnds

namespace RobotSuite

/-! ## Line breaks at the end of trees -/

section
variable {kind : SectionKind} {newline : String}

/-- A line break at the end leaves the type of a statement. -/
@[simp] theorem terminate_type (newline : String) (s : Statement) :
    (s.terminate newline).type = s.type := by
  unfold Statement.terminate
  split
  · rfl
  · split <;> rfl

/-- A statement that gets a line break has one at its end already, or it gets one behind its other
tokens, perhaps in place of an empty line ending. -/
theorem terminate_cases (newline : String) (s : Statement) :
    (∃ e ∈ s.lastEol, e.value ≠ "") ∧ s.terminate newline = s ∨
      (∀ e ∈ s.lastEol, e.value = "") ∧ ∃ front back, s.tokens = front ++ back ∧
        (∀ e ∈ back, e.kind = .eol ∧ e.value = "") ∧
        s.terminate newline = s.withTokens (front ++ [Token.create .eol newline]) := by
  rw [Statement.terminate]
  cases hlast : s.lastEol with
  | none =>
    exact .inr ⟨fun e he => absurd he (Option.not_mem_none e), s.tokens, [],
      (List.append_nil _).symm, List.forall_mem_nil _, rfl⟩
  | some t =>
    dsimp only
    split
    · rename_i hempty
      have hmem := hlast
      rw [Statement.lastEol, Option.filter_eq_some_iff] at hmem
      obtain ⟨front, htokens⟩ := List.getLast?_eq_some_iff.1 hmem.1
      have hkind : t.kind = .eol := by simpa [Token.isEol] using hmem.2
      refine .inr ⟨fun e he => Option.some.inj he ▸ hempty, front, [t], htokens,
        List.forall_mem_singleton.2 ⟨hkind, hempty⟩, ?_⟩
      rw [htokens, List.dropLast_concat]
    · rename_i hvalue
      exact .inl ⟨⟨t, rfl, hvalue⟩, rfl⟩

/-- A statement with a line break at its end has one. -/
theorem exists_lastEol_terminate (hn : newline ≠ "") (s : Statement) :
    ∃ t, (s.terminate newline).lastEol = some t ∧ t.value ≠ "" := by
  obtain ⟨⟨e, he, hvalue⟩, heq⟩ | ⟨-, front, -, -, -, heq⟩ := terminate_cases newline s
  · exact ⟨e, by rw [heq, Option.mem_def.1 he], hvalue⟩
  · have htokens : (s.withTokens (front ++ [Token.create .eol newline])).tokens =
      front ++ [Token.create .eol newline] := rfl
    refine ⟨.create .eol newline, ?_, hn⟩
    rw [heq, Statement.lastEol, htokens, List.getLast?_concat]
    rfl

/-- A statement with a line break at its end ends with one. -/
theorem isUnterminated_terminate (hn : newline ≠ "") (s : Statement) :
    (s.terminate newline).isUnterminated = false := by
  obtain ⟨t, ht, hvalue⟩ := exists_lastEol_terminate hn s
  rw [Statement.isUnterminated, ht, Option.any_some]
  exact decide_eq_false hvalue

/-- A line break at the end changes neither the cells nor the comments of a statement. -/
theorem texts_terminate (newline : String) (s : Statement) :
    dataTexts (s.terminate newline).tokens = dataTexts s.tokens ∧
      commentTexts (s.terminate newline).tokens = commentTexts s.tokens := by
  obtain ⟨-, heq⟩ | ⟨-, front, back, htokens, hback, heq⟩ := terminate_cases newline s
  · rw [heq]
    exact ⟨rfl, rfl⟩
  · have hdata : dataTokens back = [] := List.filter_eq_nil_iff.2 fun e he => by
      simp [Token.isData, TokenKind.isData, (hback e he).1]
    have hcomments : commentTokens back = [] := List.filter_eq_nil_iff.2 fun e he => by
      simp [Token.isComment, (hback e he).1]
    have hnew : (s.withTokens (front ++ [Token.create .eol newline])).tokens =
      front ++ [Token.create .eol newline] := rfl
    rw [heq, hnew, htokens, dataTexts_append, dataTexts_append, commentTexts_append,
      commentTexts_append, dataTexts.eq_def back, hdata, commentTexts.eq_def back, hcomments]
    exact ⟨rfl, rfl⟩

/-- An empty line ends with a line break. -/
theorem isUnterminated_emptyLine (hn : newline ≠ "") :
    (Statement.emptyLine newline).isUnterminated = false := by
  have hend : (Statement.emptyLine newline).tokens = [] ++ [Token.create .eol newline] := rfl
  rw [isUnterminated_concat hend]
  simp [Token.create, hn]

section
variable {N : String → Prop}

/-- An empty line ends in its line break. -/
theorem endsIn_emptyLine (hn : N newline) : (Statement.emptyLine newline).EndsIn N := by
  have htokens : (Statement.emptyLine newline).tokens = [.create .eol newline] := rfl
  refine ⟨⟨[], _, htokens, rfl, by simp⟩, fun t ht _ => ?_⟩
  rw [htokens] at ht
  rw [List.mem_singleton.1 ht]
  exact .inr hn

/-- A statement that gets a line break has it at its end. -/
theorem Statement.EndsIn.terminate {s : Statement} (h : s.EndsIn N) (hn : N newline) :
    (s.terminate newline).EndsIn N := by
  obtain ⟨front, e, htokens, he, hinner⟩ := h.concat
  have hlast : s.lastEol = some e := by
    rw [Statement.lastEol, htokens, List.getLast?_concat, Option.filter_some, Token.isEol, he]
    rfl
  rw [Statement.terminate, hlast]
  dsimp only
  split
  · rw [htokens, List.dropLast_concat]
    refine ⟨⟨front, _, rfl, rfl, hinner⟩, fun t ht hk => ?_⟩
    rcases List.mem_append.1 ht with ht | ht
    · exact h.breaks t (htokens ▸ List.mem_append_left _ ht) hk
    · rw [List.mem_singleton.1 ht]
      exact .inr hn
  · exact h

end

/-- Statements of which some got line breaks at their ends. -/
def Completed (newline : String) : List Statement → List Statement → Prop :=
  List.Forall₂ fun s new => new = s ∨ new = s.terminate newline

@[refl] theorem Completed.refl (newline : String) (ss : List Statement) :
    Completed newline ss ss := List.forall₂_same.2 fun _ _ => .inl rfl

/-- A statement is completed by a line break at its end. -/
theorem Completed.terminate (newline : String) (s : Statement) :
    Completed newline [s] [s.terminate newline] := List.Forall₂.cons (.inr rfl) .nil

/-- Statements are completed if each of two parts are. -/
theorem Completed.append {a a' b b' : List Statement} (ha : Completed newline a a')
    (hb : Completed newline b b') : Completed newline (a ++ b) (a' ++ b') :=
  List.rel_append ha hb

/-- Statements are completed if those behind the first are. -/
theorem Completed.cons (s : Statement) {a b : List Statement} (h : Completed newline a b) :
    Completed newline (s :: a) (s :: b) := List.Forall₂.cons (.inl rfl) h

/-- What holds of the members of a list holds of those they are related to. -/
theorem forall_mem_of_forall₂ {α β : Type} {R : α → β → Prop} {P : α → Prop} {Q : β → Prop}
    {a : List α} {b : List β} (h : List.Forall₂ R a b) (hR : ∀ x y, R x y → P x → Q y)
    (ha : ∀ x ∈ a, P x) : ∀ y ∈ b, Q y := by
  induction h with
  | nil => exact List.forall_mem_nil _
  | cons hxy _ ih =>
    rw [List.forall_mem_cons] at ha ⊢
    exact ⟨hR _ _ hxy ha.1, ih ha.2⟩

/-- What holds of statements, with a line break or without, holds where some got one. -/
theorem Completed.forall {P : Statement → Prop} {a b : List Statement} (h : Completed newline a b)
    (ht : ∀ s, P s → P (s.terminate newline)) (ha : ∀ s ∈ a, P s) : ∀ s ∈ b, P s := by
  refine forall_mem_of_forall₂ h ?_ ha
  rintro s new (rfl | rfl) hs
  · exact hs
  · exact ht s hs

mutual

/-- An item that is ended is completed. -/
theorem BodyItem.completed_terminate (newline : String) : ∀ item : BodyItem,
    Completed newline item.statements (item.terminate newline).statements
  | .statement s => by
    rw [BodyItem.terminate, BodyItem.statements, BodyItem.statements]
    exact .terminate newline s
  | .control c => by
    rw [BodyItem.terminate, BodyItem.statements, BodyItem.statements]
    exact c.completed_terminate newline

/-- A control block that is ended is completed. -/
theorem ControlBlock.completed_terminate (newline : String) : ∀ c : ControlBlock,
    Completed newline c.statements (c.terminate newline).statements
  | ⟨_, _, header, body, branches, some close, _⟩ => by
    rw [ControlBlock.terminate, ControlBlock.statements, ControlBlock.statements]
    exact .cons header (.append (.refl _ _) (.terminate newline close))
  | ⟨_, _, header, body, [], none, _⟩ => by
    rw [ControlBlock.terminate, ControlBlock.statements, ControlBlock.statements]
    exact .cons header
      (.append (.append (completed_terminateBody newline body) (.refl _ _)) (.refl _ _))
  | ⟨_, _, header, body, b :: bs, none, _⟩ => by
    rw [ControlBlock.terminate, ControlBlock.statements, ControlBlock.statements]
    exact .cons header
      (.append (.append (.refl _ _) (completed_terminateBranches newline (b :: bs))) (.refl _ _))

/-- A body that is ended is completed. -/
theorem completed_terminateBody (newline : String) : ∀ items : List BodyItem,
    Completed newline (bodyStatements items) (bodyStatements (terminateBody newline items))
  | [] => by
    rw [terminateBody]
  | [item] => by
    rw [terminateBody, bodyStatements, bodyStatements]
    exact .append (item.completed_terminate newline) (.refl _ _)
  | item :: next :: rest => by
    rw [terminateBody, bodyStatements, bodyStatements.eq_def (item :: terminateBody _ _)]
    exact .append (.refl _ _) (completed_terminateBody newline (next :: rest))

/-- Branches that are ended are completed. -/
theorem completed_terminateBranches (newline : String) : ∀ bs : List Branch,
    Completed newline (branchesStatements bs) (branchesStatements (terminateBranches newline bs))
  | [] => by
    rw [terminateBranches]
  | [⟨_, header, body, _⟩] => by
    rw [terminateBranches, branchesStatements, branchesStatements]
    exact .append (.cons header (completed_terminateBody newline body)) (.refl _ _)
  | b :: next :: rest => by
    rw [terminateBranches, branchesStatements,
      branchesStatements.eq_def (b :: terminateBranches _ _)]
    exact .append (.refl _ _) (completed_terminateBranches newline (next :: rest))

end

/-- An item of a section that is ended is completed. -/
theorem SectionItem.completed_terminate (newline : String) (item : SectionItem) :
    Completed newline item.statements (item.terminate newline).statements := by
  cases item with
  | statement s => exact .terminate newline s
  | block b =>
    rw [SectionItem.terminate, SectionItem.statements, SectionItem.statements, Block.terminate]
    split
    · exact .append (.terminate newline b.header) (.refl _ _)
    · exact .cons b.header (completed_terminateBody newline b.body)

/-- A section that is ended is completed, its header and its items each. -/
theorem Section.completed_terminate_parts (newline : String) (s : Section) :
    Completed newline s.header.toList (s.terminate newline).header.toList ∧
      Completed newline (itemsStatements s.body) (itemsStatements (s.terminate newline).body) := by
  rw [Section.terminate]
  split
  · refine ⟨?_, .refl _ _⟩
    cases s.header with
    | none => exact .refl _ _
    | some r => exact .terminate newline r
  · rename_i last hlast
    obtain ⟨front, hbody⟩ := List.getLast?_eq_some_iff.1 hlast
    refine ⟨.refl _ _, ?_⟩
    rw [hbody, List.dropLast_concat, itemsStatements, itemsStatements, List.flatMap_append,
      List.flatMap_append, List.flatMap_cons, List.flatMap_cons]
    exact .append (.refl _ _) (.append (last.completed_terminate newline) (.refl _ _))

/-- In a section with a line break at its end some statements got line breaks. -/
theorem Section.completed_terminate (newline : String) (s : Section) :
    Completed newline s.statements (s.terminate newline).statements :=
  (s.completed_terminate_parts newline).1.append (s.completed_terminate_parts newline).2

/-- An item that is ended is sound. -/
theorem BodyItem.Holds.terminate (hn : IsBreak (.create .eol newline)) {item : BodyItem}
    (h : item.Holds (Statement.IsSound kind)) :
    (item.terminate newline).Holds (Statement.IsSound kind) := by
  cases item with
  | statement s =>
    rw [BodyItem.Holds] at h
    rw [BodyItem.terminate, BodyItem.Holds, terminate_type]
    exact ⟨h.1, h.2.terminate hn⟩
  | control c =>
    obtain ⟨type, span, header, body, branches, close, label⟩ := c
    rw [BodyItem.Holds, ControlBlock.Holds] at h
    obtain ⟨hheader, hbody, hbranches, s, rfl, ht, hs⟩ := h
    rw [BodyItem.terminate, ControlBlock.terminate, BodyItem.Holds, ControlBlock.Holds]
    exact ⟨hheader, hbody, hbranches, _, rfl, (terminate_type newline s).trans ht,
      hs.terminate hn⟩

/-- A body that is ended is sound. -/
theorem bodyHolds_terminate (hn : IsBreak (.create .eol newline)) {items : List BodyItem}
    (h : bodyHolds (Statement.IsSound kind) items) :
    bodyHolds (Statement.IsSound kind) (terminateBody newline items) := by
  induction items with
  | nil => exact h
  | cons item items ih =>
    rw [bodyHolds] at h
    cases items with
    | nil =>
      rw [terminateBody, bodyHolds]
      exact ⟨h.1.terminate hn, h.2⟩
    | cons next rest =>
      rw [terminateBody, bodyHolds]
      exact ⟨h.1, ih h.2⟩

/-- An item of a section that is ended is sound. -/
theorem SectionItem.Holds.terminate (hn : IsBreak (.create .eol newline)) {item : SectionItem}
    (h : item.Holds (Statement.IsSound kind) kind) :
    (item.terminate newline).Holds (Statement.IsSound kind) kind := by
  cases item with
  | statement s =>
    refine ⟨?_, h.2.terminate hn⟩
    rw [terminate_type]
    exact h.1
  | block b =>
    obtain ⟨⟨hin, ht, hs⟩, hbody⟩ := h
    rw [SectionItem.terminate, Block.terminate]
    split
    · exact ⟨⟨hin, (terminate_type newline b.header).trans ht, hs.terminate hn⟩, hbody⟩
    · exact ⟨⟨hin, ht, hs⟩, bodyHolds_terminate hn hbody⟩

/-- A section stays sound when it gets a line break at its end. -/
theorem Section.IsSound.terminate (hn : IsBreak (.create .eol newline)) {s : Section}
    (h : s.IsSound) : (s.terminate newline).IsSound := by
  rw [Section.terminate]
  split
  · refine ⟨fun r hr => ?_, fun hnone => h.headerless ?_, h.items⟩
    · obtain ⟨old, hold, rfl⟩ := Option.map_eq_some_iff.1 hr
      exact (h.header old hold).terminate hn
    · exact Option.map_eq_none_iff.1 hnone
  · rename_i last hlast
    refine ⟨h.header, h.headerless, fun item hitem => ?_⟩
    rcases List.mem_append.1 hitem with hitem | hitem
    · exact h.items item (List.dropLast_subset _ hitem)
    · obtain rfl := List.mem_singleton.1 hitem
      exact (h.items last (List.mem_of_getLast? hlast)).terminate hn

end

/-! ## Headers without line break -/

/-- Whether nothing stands behind the header of a section that lacks a line break. -/
def Section.HeaderEnds (s : Section) : Prop :=
  (∃ r ∈ s.header, r.isUnterminated = true) → s.body = []

/-- Headers that all end with line breaks each do. -/
theorem headerEnds_of_headersEnd {ss : List Section} (h : headersEnd ss) :
    ∀ s ∈ ss, s.HeaderEnds := by
  induction ss with
  | nil => simp
  | cons r ss ih =>
    intro s hs
    rcases List.mem_cons.1 hs with rfl | hs
    · exact fun hr => (h.1 hr).1
    · exact ih h.2 s hs

/-- A section with a line break at its end has one behind its header. -/
theorem Section.HeaderEnds.terminate {newline : String} (hn : newline ≠ "") {s : Section}
    (h : s.HeaderEnds) : ∀ r ∈ (s.terminate newline).header, r.isUnterminated = false := by
  intro r hr
  rw [Section.terminate] at hr
  split at hr
  · obtain ⟨old, -, rfl⟩ := Option.map_eq_some_iff.1 hr
    exact isUnterminated_terminate hn old
  · rename_i last hlast
    cases hu : r.isUnterminated with
    | false => rfl
    | true =>
      have hnil := h ⟨r, hr, hu⟩
      rw [hnil] at hlast
      cases hlast

namespace MergeSections

section
variable {newline : String} {P : Section → Prop}

/-- All headers end with line breaks when all sections but the last are ended. -/
theorem headersEnd_terminateFront (hn : newline ≠ "") {ss : List Section}
    (h : ∀ s ∈ ss, s.HeaderEnds) : headersEnd (terminateFront newline ss) := by
  induction ss with
  | nil => trivial
  | cons s ss ih =>
    cases ss with
    | nil => exact ⟨fun hr => ⟨h s List.mem_cons_self hr, rfl⟩, trivial⟩
    | cons r ss =>
      have hfront : terminateFront newline (s :: r :: ss) =
          s.terminate newline :: terminateFront newline (r :: ss) := by
        simp [terminateFront]
      rw [hfront]
      refine ⟨fun ⟨t, ht, hu⟩ => ?_, ih fun t ht => h t (List.mem_cons_of_mem _ ht)⟩
      have := (h s List.mem_cons_self).terminate hn t ht
      simp [hu] at this

/-- What holds of sections, and of two that are merged, holds when one is added. -/
theorem forall_addSection
    (hm : ∀ t s, P t → P s → t.kind = s.kind → P (mergeInto newline t s)) {merged : List Section}
    {s : Section} (h : ∀ t ∈ merged, P t) (hs : P s) : ∀ t ∈ addSection newline merged s, P t := by
  induction merged with
  | nil => simpa [addSection] using hs
  | cons r merged ih =>
    have hr := h r List.mem_cons_self
    have hrest : ∀ t ∈ merged, P t := fun t ht => h t (List.mem_cons_of_mem _ ht)
    rw [addSection]
    split
    · rename_i hk
      simp only [Bool.and_eq_true, decide_eq_true_eq] at hk
      intro t ht
      rcases List.mem_cons.1 ht with rfl | ht
      · exact hm r s hr hs hk.1
      · exact hrest t ht
    · intro t ht
      rcases List.mem_cons.1 ht with rfl | ht
      · exact hr
      · exact ih hrest t ht

/-- What holds of sections, and of two that are merged, holds of all that are merged. -/
theorem forall_foldl_addSection
    (hm : ∀ t s, P t → P s → t.kind = s.kind → P (mergeInto newline t s))
    {rest merged : List Section} (hr : ∀ s ∈ rest, P s) (h : ∀ t ∈ merged, P t) :
    ∀ t ∈ rest.foldl (addSection newline) merged, P t := by
  induction rest generalizing merged with
  | nil => exact h
  | cons r rest ih =>
    exact ih (fun s hs => hr s (List.mem_cons_of_mem _ hs))
      (forall_addSection hm h (hr r List.mem_cons_self))

/-- What merging keeps holds of all sections that are arranged, but for line breaks. -/
theorem arrange_eq_some {order : List String} {ss new : List Section}
    (h : arrange order newline ss = some new)
    (hm : ∀ t s, P t → P s → t.kind = s.kind → P (mergeInto newline t s)) (hs : ∀ s ∈ ss, P s) :
    ∃ ordered, new = terminateFront newline ordered ∧ ∀ s ∈ ordered, P s := by
  have hlead : ∀ s, s ∈ (splitLead ss).1 ∨ s ∈ (splitLead ss).2 → s ∈ ss := by
    intro s hs
    unfold splitLead at hs
    split at hs
    · simp at hs
    · split at hs <;> simpa using hs
  rw [arrange] at h
  dsimp only at h
  split at h
  · cases h
  · refine ⟨_, (Option.some.inj h).symm, fun s hmem => ?_⟩
    rcases List.mem_append.1 hmem with hmem | hmem
    · exact hs s (hlead s (.inl hmem))
    · rw [sortSections, List.mem_mergeSort] at hmem
      exact forall_foldl_addSection hm (fun r hr => hs r (hlead r (.inr hr))) (by simp) s hmem

end

/-! ## Merged sections -/

section
variable {newline : String} {kind : SectionKind}

/-- The comment of a header is a statement of its own. -/
theorem headerComment_holds (hn : IsBreak (.create .eol newline)) {s : Section} (h : s.IsSound) :
    ∀ item ∈ headerComment newline s, item.Holds (Statement.IsSound kind) kind := by
  intro item hitem
  rw [headerComment] at hitem
  split at hitem
  · simp at hitem
  · rename_i c hc
    obtain rfl := List.mem_singleton.1 hitem
    obtain ⟨ts, hts, hhead⟩ := Option.bind_eq_some_iff.1 hc
    obtain ⟨header, hheader, rfl⟩ := Option.map_eq_some_iff.1 hts
    obtain ⟨hk, hcomment⟩ := (h.header header hheader).laid.commentTokens c
      (List.mem_of_head? hhead)
    have hw : Written none ([c] ++ [Token.create .eol newline]) :=
      .mk (.remark .none (.plain hk hcomment)) hn
    have hlaid : Laid false (splitLines [c, .create .eol newline]) := by
      have := hw.splitLines_append []
      rw [List.append_nil] at this
      rw [show [c, Token.create .eol newline] = [c] ++ [Token.create .eol newline] from rfl, this]
      exact .plain hw
    refine ⟨rfl, hlaid, ?_⟩
    show ReadsAs kind .comment [c, .create .eol newline]
    have hdata : dataTexts [c, .create .eol newline] = [] := by
      simp [dataTexts, dataTokens, Token.isData, TokenKind.isData, hk, Token.create]
    have hcomments : commentTexts [c, .create .eol newline] ≠ [] := by
      simp [commentTexts, commentTokens, Token.isComment, hk]
    refine hlaid.readsAs (fun _ => ?_) fun hd => absurd hdata hd
    rw [if_neg (by simpa using hcomments)]

/-- What stands in a section beside blocks may stand in their bodies. -/
theorem inBody_of_inSection {type : StatementType} {block : BlockType}
    (ht : type.inSection kind = true) (hb : block.inSection kind = true) : type.inBody = true := by
  cases type <;> first
    | rfl
    | (cases block <;> simp_all [StatementType.inSection, BlockType.inSection])

/-- Items that may stand in a section may stand behind others. -/
theorem appendItems_holds {items added : List SectionItem}
    (hi : ∀ item ∈ items, item.Holds (Statement.IsSound kind) kind)
    (ha : ∀ item ∈ added, item.Holds (Statement.IsSound kind) kind) :
    ∀ item ∈ appendItems items added, item.Holds (Statement.IsSound kind) kind := by
  intro item hitem
  rw [appendItems] at hitem
  split at hitem
  · rename_i b hb
    obtain ⟨⟨hin, ht, hs⟩, hbody⟩ := hi (.block b) (List.mem_of_getLast? hb)
    dsimp only at hitem
    rcases List.mem_append.1 hitem with hitem | hitem
    · rcases List.mem_append.1 hitem with hitem | hitem
      · exact hi item (List.dropLast_subset _ hitem)
      · obtain rfl := List.mem_singleton.1 hitem
        refine ⟨⟨hin, ht, hs⟩, bodyHolds_append.2 ⟨hbody, bodyHolds_iff.2 fun i hmem => ?_⟩⟩
        obtain ⟨s, hjoined, rfl⟩ := List.mem_map.1 hmem
        obtain ⟨i, hlead, hstatement⟩ := List.mem_filterMap.1 hjoined
        have hadded := ha i (List.takeWhile_subset _ hlead)
        cases i with
        | block b => cases hstatement
        | statement r =>
          obtain rfl : r = s := Option.some.inj hstatement
          rw [BodyItem.Holds]
          exact ⟨inBody_of_inSection hadded.1 hin, hadded.2⟩
    · exact ha item (List.mem_of_mem_drop hitem)
  · rcases List.mem_append.1 hitem with hitem | hitem
    · exact hi item hitem
    · exact ha item hitem

/-- Items that are added stand behind the others. -/
theorem itemsStatements_appendItems (items added : List SectionItem) :
    itemsStatements (appendItems items added) = itemsStatements items ++ itemsStatements added := by
  have hleading : ∀ leading : List SectionItem, (∀ i ∈ leading, i.isBlock = false) →
      bodyStatements ((leading.filterMap SectionItem.statement?).map .statement) =
        itemsStatements leading := by
    intro leading h
    induction leading with
    | nil => rfl
    | cons i leading ih =>
      rw [List.forall_mem_cons] at h
      cases i with
      | block b => cases h.1
      | statement s => exact congrArg (s :: ·) (ih h.2)
  rw [appendItems]
  split
  · rename_i b hlast
    obtain ⟨front, rfl⟩ := List.getLast?_eq_some_iff.1 hlast
    have htake := hleading (added.takeWhile fun i => !i.isBlock) fun i hi => by
      simpa using List.all_eq_true.1 List.all_takeWhile i hi
    have hadded := added.takeWhile_append_dropWhile (p := fun i => !i.isBlock)
    generalize added.takeWhile _ = leading at hadded htake
    generalize added.dropWhile _ = rest at hadded
    subst hadded
    dsimp only
    rw [List.dropLast_concat, List.drop_left]
    simp [itemsStatements, SectionItem.statements, Block.statements, bodyStatements_append, htake]
  · exact List.flatMap_append

/-- What is made of a header is one comment with a line break. -/
theorem mem_headerComment {s : Section} {r : Statement}
    (hr : r ∈ itemsStatements (headerComment newline s)) :
    ∃ header ∈ s.header, ∃ c ∈ commentTokens header.tokens,
      r = .create .comment [c, .create .eol newline] := by
  rw [headerComment] at hr
  split at hr
  · cases hr
  · rename_i c hc
    obtain ⟨ts, hts, hhead⟩ := Option.bind_eq_some_iff.1 hc
    obtain ⟨header, hheader, rfl⟩ := Option.map_eq_some_iff.1 hts
    exact ⟨header, hheader, c, List.mem_of_head? hhead,
      by simpa [itemsStatements, SectionItem.statements] using hr⟩

/-- The comment of a header stands on a line that ends with a line break. -/
theorem endsIn_headerComment {N : String → Prop} (hn : N newline) (s : Section) :
    ∀ r ∈ itemsStatements (headerComment newline s), r.EndsIn N := by
  intro r hr
  obtain ⟨header, -, c, hc, rfl⟩ := mem_headerComment hr
  have hk : c.kind = .comment := by
    simpa [Token.isComment] using (List.mem_filter.1 hc).2
  have htokens : (Statement.create .comment [c, .create .eol newline]).tokens =
    [c] ++ [Token.create .eol newline] := rfl
  refine ⟨⟨[c], _, htokens, rfl, by simp [hk]⟩, fun t ht hkt => ?_⟩
  rw [htokens] at ht
  rcases List.mem_append.1 ht with ht | ht
  · rw [List.mem_singleton.1 ht, hk] at hkt
    cases hkt
  · rw [List.mem_singleton.1 ht]
    exact .inr hn

/-- What is made of a header ends with a line break. -/
theorem isUnterminated_headerComment (hn : newline ≠ "") (s : Section) :
    ∀ r ∈ itemsStatements (headerComment newline s), r.isUnterminated = false := by
  intro r hr
  obtain ⟨header, -, c, -, rfl⟩ := mem_headerComment hr
  have hend : (Statement.create .comment [c, .create .eol newline]).tokens =
    [c] ++ [Token.create .eol newline] := rfl
  rw [isUnterminated_concat hend]
  simp [Token.create, hn]

/-- The line breaks of merged sections are those of both, or new. -/
theorem endsIn_mergeInto {N : String → Prop} (hn : N newline) {t s : Section}
    (ht : ∀ r ∈ t.statements, r.EndsIn N) (hs : ∀ r ∈ s.statements, r.EndsIn N) :
    ∀ r ∈ (mergeInto newline t s).statements, r.EndsIn N := by
  have hbase := (t.completed_terminate newline).forall (fun _ h => h.terminate hn) ht
  rw [Section.statements, List.forall_mem_append] at hbase hs
  rw [mergeInto, Section.statements, itemsStatements_appendItems, itemsStatements,
    itemsStatements, List.flatMap_append, List.forall_mem_append, List.forall_mem_append,
    List.forall_mem_append]
  exact ⟨hbase.1, hbase.2, endsIn_headerComment hn s, hs.2⟩

/-- Two sound sections of one kind merge to a sound one. -/
theorem sound_mergeInto (hn : IsBreak (.create .eol newline)) {t s : Section} (ht : t.IsSound)
    (hs : s.IsSound) (hk : t.kind = s.kind) : (mergeInto newline t s).IsSound := by
  have hbase := ht.terminate hn
  have hkind : (t.terminate newline).kind = t.kind := by
    rw [Section.terminate]
    split <;> rfl
  refine ⟨hbase.header, hbase.headerless, appendItems_holds hbase.items fun item hitem => ?_⟩
  rcases List.mem_append.1 hitem with hitem | hitem
  · exact headerComment_holds hn hs item hitem
  · have := hs.items item hitem
    rwa [← hk, ← hkind] at this

/-- **Merging and ordering of sections keeps files sound.** -/
theorem keepsSound_pass : pass.KeepsSound := by
  refine Pass.keepsSound_ofTransform (fun setup f hv => ?_) fun setup f hv => ?_
  · refine
      { statement := fun h => by cases h
        header := fun h => by cases h
        body := fun h => by cases h
        sect := fun h => by cases h
        file := ?_ }
    intro place ss new h hs
    dsimp only at h
    split at h
    · cases h
    · obtain ⟨ordered, rfl, hordered⟩ := arrange_eq_some (Decision.ofOption_eq_put h)
        (fun t s ht hs hk => sound_mergeInto hv.isBreak ht hs hk) hs
      intro s hs
      rcases List.mem_append.1 hs with hs | hs
      · obtain ⟨r, hr, rfl⟩ := List.mem_map.1 hs
        exact (hordered r (List.dropLast_subset _ hr)).terminate hv.isBreak
      · exact hordered s (List.mem_of_getLast? (by simpa using hs))
  · refine
      { header := fun h => by cases h
        sect := fun h => by cases h
        file := ?_ }
    intro place ss new h hs
    dsimp only at h
    have hne := hv.newline_ne
    split at h
    · cases h
    · have hmerge (t s : Section) (ht : t.HeaderEnds) :
          (mergeInto setup.newline t s).HeaderEnds := by
        rintro ⟨r, hr, hu⟩
        have := ht.terminate hne r hr
        simp [hu] at this
      obtain ⟨ordered, rfl, hordered⟩ := arrange_eq_some (P := Section.HeaderEnds)
        (Decision.ofOption_eq_put h) (fun t s ht _ _ => hmerge t s ht)
        (headerEnds_of_headersEnd hs)
      exact headersEnd_terminateFront hne hordered

/-- **Merging and ordering of sections keeps line breaks.** -/
theorem keepsBreaks_pass : pass.KeepsBreaks := by
  refine Pass.keepsBreaks_ofTransform fun {N} setup f _ hn => ?_
  refine
    { statement := fun h => by cases h
      body := fun h => by cases h
      sect := fun h => by cases h
      file := ?_ }
  intro place ss new h hs
  dsimp only at h
  split at h
  · cases h
  · obtain ⟨ordered, rfl, hordered⟩ := arrange_eq_some
      (P := fun s => ∀ r ∈ s.statements, r.EndsIn N) (Decision.ofOption_eq_put h)
      (fun t s ht hs _ => endsIn_mergeInto hn ht hs) (List.forall_mem_flatMap.1 hs)
    refine List.forall_mem_flatMap.2 fun s hs => ?_
    rcases List.mem_append.1 hs with hs | hs
    · obtain ⟨r, hr, rfl⟩ := List.mem_map.1 hs
      exact (r.completed_terminate setup.newline).forall (fun _ h => h.terminate hn)
        (hordered r (List.dropLast_subset _ hr))
    · exact hordered s (List.mem_of_getLast? (by simpa using hs))

end

end MergeSections

/-! ## Settings in order -/

namespace OrderSettings

section
variable {newline : String} {P : Statement → Prop}

/-- What holds of settings holds of the units that they are cut into. -/
theorem forall_collect (pending : List Statement) {ss : List Statement} (hp : ∀ s ∈ pending, P s)
    (hs : ∀ s ∈ ss, P s) : (∀ s ∈ (collect pending ss).1, P s) ∧
      ∀ u ∈ (collect pending ss).2, ∀ s ∈ u.statements, P s := by
  induction ss generalizing pending with
  | nil => exact ⟨hp, by simp [collect]⟩
  | cons s ss ih =>
    have hfirst := hs s List.mem_cons_self
    have hrest : ∀ r ∈ ss, P r := fun r hr => hs r (List.mem_cons_of_mem _ hr)
    rw [collect]
    split
    · exact ih _ hp hrest
    · split
      · split
        · refine ih _ (fun r hr => ?_) hrest
          rcases List.mem_append.1 hr with hr | hr
          · exact hp r hr
          · obtain rfl := List.mem_singleton.1 hr
            exact hfirst
        · obtain ⟨hfree, hunits⟩ := ih _ hp hrest
          refine ⟨fun r hr => ?_, hunits⟩
          rcases List.mem_cons.1 hr with rfl | hr
          · exact hfirst
          · exact hfree r hr
      · obtain ⟨hfree, hunits⟩ := ih [] (by simp) hrest
        refine ⟨hfree, fun u hu => ?_⟩
        rcases List.mem_cons.1 hu with rfl | hu
        · intro r hr
          rcases List.mem_append.1 hr with hr | hr
          · exact hp r hr
          · obtain rfl := List.mem_singleton.1 hr
            exact hfirst
        · exact hunits u hu

/-- What holds of settings and of empty lines holds of groups that are put together. -/
theorem forall_joinGroups (he : P (Statement.emptyLine newline)) {front : List Statement}
    {groups : List (List SettingUnit)} (hf : ∀ s ∈ front, P s)
    (hg : ∀ units ∈ groups, ∀ u ∈ units, ∀ s ∈ u.statements, P s) :
    ∀ s ∈ joinGroups newline front groups, P s := by
  induction groups generalizing front with
  | nil => exact hf
  | cons units groups ih =>
    have hrest := fun us hus => hg us (List.mem_cons_of_mem units hus)
    rw [joinGroups]
    split
    · exact ih hf hrest
    · refine ih (fun s hs => ?_) hrest
      rcases List.mem_append.1 hs with hs | hs
      · rcases List.mem_append.1 hs with hs | hs
        · exact hf s hs
        · split at hs
          · simp at hs
          · obtain rfl := List.mem_singleton.1 hs
            exact he
      · obtain ⟨u, hu, hs⟩ := List.mem_flatMap.1 hs
        exact hg units List.mem_cons_self u hu s hs

/-- What holds of statements, ended or not, holds when all but the last are ended. -/
theorem forall_terminateFront (ht : ∀ s, P s → P (s.terminate newline)) {ss : List Statement}
    (hs : ∀ s ∈ ss, P s) : ∀ s ∈ terminateFront newline ss, P s := by
  intro s hmem
  rcases List.mem_append.1 hmem with hmem | hmem
  · obtain ⟨r, hr, rfl⟩ := List.mem_map.1 hmem
    exact ht r (hs r (List.dropLast_subset _ hr))
  · exact hs s (List.mem_of_getLast? (by simpa using hmem))

/-- What holds of settings and of empty lines holds of the settings in order, before those in front
get line breaks. -/
theorem forall_joined (he : P (Statement.emptyLine newline)) {names : List String}
    {isEmpty : Statement → Bool} {ss : List Statement} (hs : ∀ s ∈ ss, P s) :
    ∀ s ∈ joinGroups newline (collect [] (Text.dropEndWhile isEmpty ss)).1
        (names.map (members names (collect [] (Text.dropEndWhile isEmpty ss)).2)) ++
      Text.takeEndWhile isEmpty ss, P s := by
  intro s hmem
  rcases List.mem_append.1 hmem with hmem | hmem
  · obtain ⟨hfree, hunits⟩ := forall_collect (P := P) [] (by simp)
      fun s hmem => hs s (Text.mem_of_mem_dropEndWhile hmem)
    refine forall_joinGroups he hfree (fun units hunit u hu => ?_) s hmem
    obtain ⟨group, -, rfl⟩ := List.mem_map.1 hunit
    rw [members, List.mem_mergeSort, List.mem_filter] at hu
    exact hunits u hu.1
  · exact hs s (Text.mem_of_mem_takeEndWhile hmem)

/-- What holds of settings and of empty lines, with a line break or without, holds of the
settings in order. -/
theorem forall_arrange (he : P (Statement.emptyLine newline))
    (ht : ∀ s, P s → P (s.terminate newline)) {order : List String} {ss : List Statement}
    (hs : ∀ s ∈ ss, P s) : ∀ s ∈ arrange order newline ss, P s := by
  rw [arrange]
  exact forall_terminateFront ht (forall_joined he hs)

end

/-- New items of a Settings section are statements of it, in order. -/
theorem leave_eq_some {setup : PassSetup} {first : Nat} {place : Place} {header : Option Statement}
    {items new : List SectionItem} (h : leave setup first place header items = some new) :
    ∃ order label, new = (arrange order setup.newline (labelRepeated order label
      (items.filterMap SectionItem.statement?))).map .statement := by
  rw [leave] at h
  dsimp only at h
  split at h
  · exact ⟨_, _, (Option.some.inj h).symm⟩
  · cases h

/-- What holds of statements whatever their labels holds when labels are put. -/
theorem forall_labelRepeated {P : Statement → Prop} (hl : ∀ s n, P s → P { s with label := n })
    {order : List String} {first : Nat} {ss : List Statement} (h : ∀ s ∈ ss, P s) :
    ∀ s ∈ labelRepeated order first ss, P s := by
  intro s hs
  rw [labelRepeated] at hs
  split at hs
  · exact h s hs
  · obtain ⟨⟨r, n⟩, hr, rfl⟩ := List.mem_map.1 hs
    have hmem : r ∈ ss := List.fst_mem_of_mem_zipIdx hr
    dsimp only
    split
    · exact h r hmem
    · exact hl r _ (h r hmem)

/-- Where there is no statement there is no label. -/
theorem labelRepeated_nil (order : List String) (first : Nat) :
    labelRepeated order first [] = [] := by
  rw [labelRepeated]
  split <;> rfl

/-- No settings are in order. -/
theorem arrange_nil (order : List String) (newline : String) : arrange order newline [] = [] := by
  have hjoin (names : List String) (groups : List String) :
      joinGroups newline [] (groups.map (members names [])) = [] := by
    induction groups with
    | nil => rfl
    | cons group groups ih =>
      rw [List.map_cons, joinGroups, if_pos (by simp [members]), ih]
  have hcollect : collect [] (Text.dropEndWhile (fun s : Statement => s.type = .emptyLine) []) =
      ([], []) := rfl
  rw [arrange]
  dsimp only
  rw [hcollect]
  dsimp only
  rw [hjoin]
  rfl

/-- **Ordering of settings keeps files sound.** -/
theorem keepsSound_pass : pass.KeepsSound := by
  refine Pass.keepsSound_ofTransform (fun setup f hv => ?_) fun setup f hv => ?_
  · refine
      { statement := fun h => by cases h
        header := fun h => by cases h
        body := fun h => by cases h
        sect := ?_
        file := fun h => by cases h }
    intro kind place header items new h _ hitems
    obtain ⟨items', hleave, rfl⟩ := Option.map_eq_some_iff.1 (Decision.ofOption_eq_put h)
    obtain ⟨order, label, rfl⟩ := leave_eq_some hleave
    have hsound : ∀ s ∈ arrange order setup.newline (labelRepeated order label
        ((unmark items).filterMap SectionItem.statement?)),
        s.type.inSection kind = true ∧ s.IsSound kind := by
      refine forall_arrange ⟨rfl, isSound_emptyLine hv.isBreak⟩ (fun s hs => ?_)
        (forall_labelRepeated (fun s n hs => ⟨hs.1, hs.2.laid, hs.2.reads⟩) fun s hs => ?_)
      · rw [terminate_type]
        exact ⟨hs.1, hs.2.terminate hv.isBreak⟩
      · obtain ⟨item, hitem, hstatement⟩ := List.mem_filterMap.1 hs
        have hold := hitems item hitem
        cases item with
        | block b => cases hstatement
        | statement r =>
          obtain rfl : r = s := Option.some.inj hstatement
          exact hold
    intro item hitem
    rw [unmark, List.map_map] at hitem
    obtain ⟨s', hs', rfl⟩ := List.mem_map.1 hitem
    obtain ⟨s, hs, rfl⟩ := List.mem_map.1 hs'
    exact hsound s hs
  · refine
      { header := fun h => by cases h
        sect := ?_
        file := fun h => by cases h }
    intro place header items new h hnil _
    obtain ⟨items', hleave, rfl⟩ := Option.map_eq_some_iff.1 (Decision.ofOption_eq_put h)
    obtain ⟨order, label, rfl⟩ := leave_eq_some hleave
    rw [hnil, List.filterMap_nil, labelRepeated_nil, arrange_nil]
    rfl

/-- Settings in order are kept apart by line breaks. -/
theorem separated_arrange (hn : newline ≠ "") (order : List String) (ss : List Statement) :
    separated (arrange order newline ss) := by
  have hfront (ss : List Statement) : separated (terminateFront newline ss) := by
    rcases List.eq_nil_or_concat ss with rfl | ⟨front, last, rfl⟩
    · simp [terminateFront, separated]
    · intro s hs
      have heq : terminateFront newline (front.concat last) =
          front.map (·.terminate newline) ++ [last] := by
        simp [terminateFront]
      rw [heq, List.dropLast_concat] at hs
      obtain ⟨r, -, rfl⟩ := List.mem_map.1 hs
      exact isUnterminated_terminate hn r
  exact hfront _

/-- **Ordering of settings keeps line breaks.**  What comes to stand in front of other settings
gets one. -/
theorem keepsBreaks_pass : pass.KeepsBreaks := by
  refine Pass.keepsBreaks_ofTransform fun {N} setup f hv hn => ?_
  refine
    { statement := fun h => by cases h
      body := fun h => by cases h
      sect := ?_
      file := fun h => by cases h }
  intro place header items new h
  obtain ⟨items', hleave, rfl⟩ := Option.map_eq_some_iff.1 (Decision.ofOption_eq_put h)
  obtain ⟨order, label, rfl⟩ := leave_eq_some hleave
  have hne := hv.newline_ne
  have hnew (ss : List Statement) :
      itemsStatements (unmark ((ss.map SectionItem.statement).map fun item => (item, false))) =
        ss := by
    rw [unmark, List.map_map, List.map_map]
    exact itemsStatements_map_statement ss
  have hold : ∀ s ∈ (unmark items).filterMap SectionItem.statement?,
      s ∈ itemsStatements (unmark items) := by
    intro s hmem
    obtain ⟨item, hitem, hstatement⟩ := List.mem_filterMap.1 hmem
    cases item with
    | block b => cases hstatement
    | statement r =>
      obtain rfl : r = s := Option.some.inj hstatement
      exact List.mem_flatMap.2 ⟨_, hitem, List.mem_singleton_self r⟩
  rw [hnew]
  refine .of_separated (fun hs => ?_) (fun hs => ?_) (separated_arrange hne _ _) fun hnil => ?_
  · exact forall_arrange (endsIn_emptyLine hn) (fun s hs => hs.terminate hn)
      (forall_labelRepeated (fun s n hs => ⟨hs.concat, hs.breaks⟩) fun s h => hs s (hold s h))
  · exact forall_arrange (isUnterminated_emptyLine hne) (fun s _ => isUnterminated_terminate hne s)
      (forall_labelRepeated (fun s n hs => hs) fun s h => hs s (hold s h))
  · rw [itemsStatements_eq_nil hnil, List.filterMap_nil, labelRepeated_nil, arrange_nil]

end OrderSettings

end RobotSuite
