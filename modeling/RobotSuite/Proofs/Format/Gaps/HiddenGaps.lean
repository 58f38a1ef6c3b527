/-
# Gaps as configured hide the old ones

The pass that lays lines out gives a statement gaps that do not depend on those it has, and leaves
it as it is only if it has these gaps already.  So a model seen without its gaps is enough to tell
the model behind the pass, seen with gaps (`Gaps.mirrors_even`).  Labels do not show behind the
pass: a statement that is replaced loses its label, one that stays keeps it.  They do not matter
where no directive switches the pass off.
-/

import RobotSuite.Proofs.Format.KeptComments
import RobotSuite.Proofs.Token.RespacedLines
import RobotSuite.Proofs.Transform.Mirrors

namespace RobotSuite

/-! ## Properties of all statements -/

section
variable {P Q : Statement → Prop}

mutual

/-- What holds of a body item's statements may be weakened to what it implies of them. -/
theorem BodyItem.Holds.imp : ∀ {item : BodyItem}, item.Holds P →
    (∀ s ∈ item.statements, P s → Q s) → item.Holds Q
  | .statement s, h, hq => by
    rw [BodyItem.Holds] at h ⊢
    exact ⟨h.1, hq s List.mem_cons_self h.2⟩
  | .control c, h, hq => by
    rw [BodyItem.Holds] at h ⊢
    exact ControlBlock.Holds.imp h hq

/-- The same for a control block. -/
theorem ControlBlock.Holds.imp : ∀ {c : ControlBlock}, c.Holds P →
    (∀ s ∈ c.statements, P s → Q s) → c.Holds Q
  | ⟨_, _, header, body, branches, close, _⟩, h, hq => by
    rw [ControlBlock.Holds] at h ⊢
    simp only [ControlBlock.statements, List.forall_mem_cons, List.forall_mem_append] at hq
    obtain ⟨⟨ht, hh⟩, hb, hbs, s, rfl, hs, hend⟩ := h
    exact ⟨⟨ht, hq.1 hh⟩, bodyHolds_imp hb hq.2.1.1, branchesHold_imp hbs hq.2.1.2, s, rfl, hs,
      hq.2.2 s (by simp) hend⟩

/-- The same for a body. -/
theorem bodyHolds_imp : ∀ {items : List BodyItem}, bodyHolds P items →
    (∀ s ∈ bodyStatements items, P s → Q s) → bodyHolds Q items
  | [], _, _ => trivial
  | item :: items, h, hq => by
    rw [bodyHolds] at h ⊢
    rw [bodyStatements, List.forall_mem_append] at hq
    exact ⟨BodyItem.Holds.imp h.1 hq.1, bodyHolds_imp h.2 hq.2⟩

/-- The same for the branches of a block. -/
theorem branchesHold_imp {type : ControlType} : ∀ {bs : List Branch}, branchesHold P type bs →
    (∀ s ∈ branchesStatements bs, P s → Q s) → branchesHold Q type bs
  | [], _, _ => trivial
  | ⟨_, header, body, _⟩ :: bs, h, hq => by
    rw [branchesHold, Branch.Holds] at h ⊢
    simp only [branchesStatements, Branch.statements, List.cons_append, List.forall_mem_cons,
      List.forall_mem_append] at hq
    exact ⟨⟨⟨h.1.1.1, hq.1 h.1.1.2⟩, bodyHolds_imp h.1.2 hq.2.1⟩, branchesHold_imp h.2 hq.2.2⟩

end

/-- The same for an item of a section. -/
theorem SectionItem.Holds.imp {kind : SectionKind} {item : SectionItem} (h : item.Holds P kind)
    (hq : ∀ s ∈ item.statements, P s → Q s) : item.Holds Q kind := by
  cases item with
  | statement s => exact ⟨h.1, hq s List.mem_cons_self h.2⟩
  | block b =>
    obtain ⟨hheader, hbody⟩ := List.forall_mem_cons.1 hq
    exact ⟨⟨h.1.1, h.1.2.1, hheader h.1.2.2⟩, bodyHolds_imp h.2 hbody⟩

end

/-- The same for a section, its header apart. -/
theorem Section.Holds.imp {S S' H H' : SectionKind → Statement → Prop} {s : Section}
    (h : s.Holds S H) (hS : ∀ r ∈ s.statements, S s.kind r → S' s.kind r)
    (hH : ∀ r ∈ s.statements, H s.kind r → H' s.kind r) : s.Holds S' H' where
  header r hr := hH r (List.mem_append_left _ (by simpa using hr)) (h.header r hr)
  headerless := h.headerless
  items item hitem := (h.items item hitem).imp fun r hr =>
    hS r (List.mem_append_right _ (List.mem_flatMap.2 ⟨item, hitem, hr⟩))

section
variable {P Q : Statement → Prop} {g : Statement → Statement}

mutual

/-- A view that keeps statement types carries what holds of a body item over to its picture. -/
theorem BodyItem.Holds.view (ht : ∀ s, (g s).type = s.type) (hq : ∀ s, P s → Q (g s)) :
    ∀ {item : BodyItem}, item.Holds P → (item.view g).Holds Q
  | .statement s, h => by
    rw [BodyItem.view]
    rw [BodyItem.Holds] at h ⊢
    exact ⟨(ht s).symm ▸ h.1, hq s h.2⟩
  | .control c, h => by
    rw [BodyItem.view]
    rw [BodyItem.Holds] at h ⊢
    exact ControlBlock.Holds.view ht hq h

/-- The same for a control block. -/
theorem ControlBlock.Holds.view (ht : ∀ s, (g s).type = s.type) (hq : ∀ s, P s → Q (g s)) :
    ∀ {c : ControlBlock}, c.Holds P → (c.view g).Holds Q
  | ⟨_, _, header, body, branches, close, _⟩, h => by
    rw [ControlBlock.view]
    rw [ControlBlock.Holds] at h ⊢
    obtain ⟨⟨htype, hh⟩, hb, hbs, s, rfl, hs, hend⟩ := h
    exact ⟨⟨(ht header).trans htype, hq _ hh⟩, bodyHolds_view ht hq hb,
      branchesHold_view ht hq hbs, g s, rfl, (ht s).trans hs, hq _ hend⟩

/-- The same for a body. -/
theorem bodyHolds_view (ht : ∀ s, (g s).type = s.type) (hq : ∀ s, P s → Q (g s)) :
    ∀ {items : List BodyItem}, bodyHolds P items → bodyHolds Q (viewBody g items)
  | [], _ => trivial
  | item :: items, h => by
    rw [viewBody]
    rw [bodyHolds] at h ⊢
    exact ⟨BodyItem.Holds.view ht hq h.1, bodyHolds_view ht hq h.2⟩

/-- The same for the branches of a block. -/
theorem branchesHold_view (ht : ∀ s, (g s).type = s.type) (hq : ∀ s, P s → Q (g s))
    {type : ControlType} : ∀ {bs : List Branch}, branchesHold P type bs →
      branchesHold Q type (viewBranches g bs)
  | [], _ => trivial
  | ⟨_, header, body, _⟩ :: bs, h => by
    rw [viewBranches, Branch.view]
    rw [branchesHold, Branch.Holds] at h ⊢
    exact ⟨⟨⟨(ht header).symm ▸ h.1.1.1, hq _ h.1.1.2⟩, bodyHolds_view ht hq h.1.2⟩,
      branchesHold_view ht hq h.2⟩

end

/-- The same for an item of a section. -/
theorem SectionItem.Holds.view (ht : ∀ s, (g s).type = s.type) (hq : ∀ s, P s → Q (g s))
    {kind : SectionKind} {item : SectionItem} (h : item.Holds P kind) :
    (item.view g).Holds Q kind := by
  cases item with
  | statement s => exact ⟨(congrArg _ (ht s)).trans h.1, hq s h.2⟩
  | block b => exact ⟨⟨h.1.1, (ht b.header).trans h.1.2.1, hq _ h.1.2.2⟩, bodyHolds_view ht hq h.2⟩

end

/-- What holds of the statements of a section holds of what is seen of them. -/
theorem Section.Holds.view {S S' H H' : SectionKind → Statement → Prop} {v : View} {s : Section}
    (ht : ∀ kind s, (v kind s).type = s.type) (hS : ∀ kind s, S kind s → S' kind (v kind s))
    (hH : ∀ kind s, H kind s → H' kind (v kind s)) (h : s.Holds S H) :
    (s.view v).Holds S' H' where
  header r hr := by
    obtain ⟨q, hq, rfl⟩ := Option.map_eq_some_iff.1 hr
    exact hH _ q (h.header q hq)
  headerless hnone := h.headerless (Option.map_eq_none_iff.1 hnone)
  items item hitem := by
    obtain ⟨old, hold, rfl⟩ := List.mem_map.1 hitem
    exact (h.items old hold).view (ht _) (hS _)

/-! ## Walks without directives -/

/-- A scope in which no directive has switched anything off or on. -/
def Scope.IsCalm (sc : Scope) : Prop := ∀ frame ∈ sc.frames, frame = []

namespace Scope.IsCalm
variable {sc : Scope} {s : Statement}

/-- In a calm scope no open container turns a pass off. -/
theorem frames_disables (h : sc.IsCalm) (pass : String) : sc.frames.disables pass = false := by
  have hnone : (sc.frames.findSome? fun f => f.entry? pass) = none := by
    rw [List.findSome?_eq_none_iff]
    intro frame hframe
    rw [h frame hframe]
    rfl
  rw [Frames.disables, hnone]
  rfl

/-- In a calm scope a statement that is no directive is never off. -/
theorem disables (h : sc.IsCalm) (hs : s.directive? = none) (pass : String) :
    sc.disables pass s = false := by
  rw [Scope.disables, h.frames_disables, hs]
  simp

/-- Entering a container whose header is no directive keeps the scope calm. -/
theorem enter (h : sc.IsCalm) {c : Container}
    (hc : ∀ header ∈ c.header?, header.directive? = none) : (sc.enter c).IsCalm := by
  rw [IsCalm, Scope.enter]
  dsimp only
  split
  · exact h
  · refine List.forall_mem_cons.2 ⟨?_, h⟩
    cases hh : c.header? with
    | none => rfl
    | some header => rw [Option.bind_some, hc header hh, Option.elim_none]

/-- Leaving a container keeps the scope calm. -/
theorem leave (h : sc.IsCalm) : sc.leave.IsCalm := by
  rw [IsCalm, Scope.leave]
  dsimp only
  split
  · exact h
  · exact fun frame hframe => h frame (List.mem_of_mem_tail hframe)

/-- Meeting a statement that is no directive keeps the scope calm. -/
theorem note (h : sc.IsCalm) (hs : s.directive? = none) : (sc.note s).IsCalm := by
  rw [Scope.note, hs]
  split <;> exact h

end Scope.IsCalm

/-! ## What shows without labels -/

/-- A statement of which nothing but its type and its tokens shows. -/
def Statement.markless (s : Statement) : Statement :=
  ⟨s.type, .synthetic, s.tokens, false, none, none⟩

/-- The type of a statement and its tokens without their places. -/
def Statement.plain (s : Statement) : Statement := (s.shown true).markless

/-- The plain picture keeps the type and the bare tokens, and nothing else. -/
theorem Statement.plain_eq (s : Statement) :
    s.plain = ⟨s.type, .synthetic, s.tokens.map Token.bare, false, none, none⟩ := by
  rw [plain, markless, shown, showTokens_true]

/-- Statements are the same but for places and marks if their types and tokens are. -/
theorem Statement.plain_eq_iff {s r : Statement} : s.plain = r.plain ↔
    s.type = r.type ∧ s.tokens.map Token.bare = r.tokens.map Token.bare := by
  rw [plain_eq, plain_eq, Statement.mk.injEq]
  simp

/-- What shows of statements but for places and marks. -/
def plainView : View := fun _ => Statement.plain

/-- Whether lines of sections of a kind are laid out. -/
def SectionKind.isLaidOut (kind : SectionKind) : Bool := kind != .comments && kind != .invalid

/-- What shows of statements but for places, and for gaps where lines are laid out. -/
def contentView : View := gapView fun kind => !kind.isLaidOut

/-- What shows of statements but for places and marks, and for gaps where lines are laid out. -/
def looseView : View := fun kind s => (contentView kind s).markless

/-- What is checked of a statement shows without places and marks, with gaps or without them. -/
theorem Statement.shownBy_markless {s : Statement} (h : EndsLine s.tokens) (gaps : Bool) :
    s.ShownBy fun s => (s.shown gaps).markless := by
  have hshown : s.ShownBy (Statement.shown gaps) := Statement.shownBy_shown h
  exact ⟨hshown.type, hshown.directive?, hshown.flaws, hshown.isUnterminated⟩

/-- Dropping marks and places shows every statement that ends its line. -/
theorem Statement.shownBy_plain {s : Statement} (h : EndsLine s.tokens) :
    s.ShownBy Statement.plain :=
  Statement.shownBy_markless h true

/-- A statement in which there is no directive and which has a property. -/
structure Statement.IsQuiet (P : SectionKind → Statement → Prop) (kind : SectionKind)
    (s : Statement) : Prop where
  holds : P kind s
  silent : s.directive? = none

/-- The directive of a statement is in its comments. -/
theorem Statement.directive?_eq (s : Statement) :
    s.directive? = (commentTexts s.tokens).findSome? parseDirective := by
  rw [directive?, commentTexts, List.findSome?_map]
  rfl

/-- Statements with the same comments give the same directive. -/
theorem directive?_congr {s r : Statement}
    (h : commentTexts s.tokens = commentTexts r.tokens) : s.directive? = r.directive? := by
  rw [s.directive?_eq, r.directive?_eq, h]

/-- A replacement without flaws is made. -/
theorem Decision.outcome_put (s new : Statement) (ht : new.type = s.type) (hf : new.flaws = []) :
    (Decision.put new).outcome s (replacementIssues s) = new := by
  refine if_pos ?_
  rw [replacementIssues, if_pos ht, Statement.issues, hf]
  rfl

/-! ## Gaps as configured -/

namespace Gaps
variable {setup : PassSetup} {kind : SectionKind} {sc sc' : Scope} {s : Statement} {header : Bool}
  {tokens : List Token} {n : Nat}

/-- A sound statement or header without flaws. -/
def IsFit (P : SectionKind → Statement → Prop) (kind : SectionKind) (s : Statement) : Prop :=
  P kind s ∧ s.flaws = []

/-- A line laid out anew keeps its ending. -/
theorem endingOf_composeLine {k : Option TokenKind} {line : List Token} (h : Written k line)
    (indent separator : String) (gapAt : Nat → String) :
    endingOf (composeLine indent (.ofLine line) separator gapAt) = endingOf line := by
  obtain @⟨ts, e, -, he⟩ := h
  have hending : (LineLayout.ofLine (ts ++ [e])).ending = e := endingOf_concat he.kind
  rw [composeLine, hending, endingOf_concat he.kind, endingOf_concat he.kind]

/-- The only line of an empty line is one without its gap. -/
theorem respaced_blank (hl : Laid false (splitLines s.tokens)) (hd : dataTexts s.tokens = [])
    (hc : commentTexts s.tokens = []) : splitLines s.tokens = [s.tokens] ∧
      Respaced s.tokens [endingOf s.tokens] := by
  obtain ⟨hlines, hw⟩ := hl.plain_of_dataTexts hd
  obtain ⟨front, e, htokens, he⟩ := hl.getLast?
  have hending : endingOf s.tokens = e := by rw [htokens, endingOf_concat he.kind]
  have hdata : dataTexts [e] = [] := by
    simp [dataTexts, dataTokens, Token.isData, TokenKind.isData, he.kind]
  have hcomment : commentTexts [e] = [] := by
    simp [commentTexts, commentTokens, Token.isComment, he.kind]
  have hany : s.tokens.any (·.isComment) = [e].any (·.isComment) := by
    have h := commentTexts_isEmpty s.tokens
    have h' := commentTexts_isEmpty [e]
    rw [hc] at h
    rw [hcomment] at h'
    simpa using h.symm.trans h'
  rw [hending]
  refine ⟨hlines, ⟨fun k hk => ?_, hany.symm⟩, hdata.trans hd.symm, hcomment.trans hc.symm, ?_⟩
  · exact ⟨none, .mk (.blank .none) he, .inl (hw.unique hk)⟩
  · have hsingle : endingOf ([] ++ [e]) = e := endingOf_concat he.kind
    rw [htokens, endingOf_concat he.kind]
    exact hsingle

/-- The tokens of a statement with gaps as configured are its lines with other gaps. -/
theorem spaced_eq_ok (hv : setup.IsValid) (hl : Laid header (splitLines s.tokens))
    (he : s.type = .emptyLine → dataTexts s.tokens = [] ∧ commentTexts s.tokens = [])
    (hh : header = true → s.type ≠ .emptyLine ∧ sc.depth s = 0)
    (h : spaced setup sc s = .ok tokens) : ∃ f, tokens = (splitLines s.tokens).flatMap f ∧
      ∀ l ∈ splitLines s.tokens, Respaced l (f l) := by
  rw [spaced] at h
  split at h
  · rename_i ht
    obtain ⟨hd, hc⟩ := he ht
    obtain rfl : header = false := by
      cases header with
      | false => rfl
      | true => exact absurd ht (hh rfl).1
    obtain ⟨hlines, hblank⟩ := respaced_blank hl hd hc
    refine ⟨fun l => [endingOf l], ?_, ?_⟩
    · rw [hlines]
      exact (Except.ok.inj h).symm
    · rw [hlines]
      exact List.forall_mem_singleton.2 hblank
  · rename_i ht
    cases hi : indentAt setup sc s with
    | error reason =>
      rw [hi] at h
      cases h
    | ok indent =>
      rw [hi] at h
      have htokens : tokens = relay indent setup.config.separator s.tokens :=
        (Except.ok.inj h).symm
      obtain ⟨-, rfl⟩ := spaces_eq_ok_iff.1 hi
      have hmargin : header = true →
          Text.spaces ((sc.depth s).toNat * setup.config.indent) = "" := fun hheader => by
        simp [(hh hheader).2, spaces_eq_empty]
      rw [relay_eq] at htokens
      refine ⟨_, htokens, fun l hmem => ?_⟩
      obtain ⟨halike, hdata, hcomments⟩ := hl.alike_composeLines (isIndent_spaces _) hv.separator
        (fun _ _ => hv.separator) hmargin l hmem
      obtain ⟨k, hw⟩ := hl.written l hmem
      exact ⟨halike, hdata, hcomments, endingOf_composeLine hw _ _ _⟩

/-- The gaps of statements that are laid out do not matter for how they are laid out again. -/
theorem spaced_shown (hl : Laid header (splitLines s.tokens)) (h : sc.Like sc') (gaps : Bool) :
    spaced setup sc' (s.shown gaps).markless =
      (spaced setup sc s).map (List.map Token.bare) := by
  obtain ⟨front, e, hts, he⟩ := hl.getLast?
  have heol : e.isEol = true := by simp [Token.isEol, he.kind]
  have hending : endingOf (s.shown gaps).tokens = (endingOf s.tokens).bare := by
    show endingOf (showTokens gaps s.tokens) = _
    rw [hts, endingOf_showTokens heol]
  have hrelay (indent separator : String) : relay indent separator (s.shown gaps).tokens =
      (relay indent separator s.tokens).map Token.bare := by
    rw [relay, relay]
    show (LineLayout.ofTokens (showTokens gaps s.tokens)).flatMap _ = _
    rw [hl.ofTokens_showTokens, List.flatMap_map, List.map_flatMap]
    exact List.flatMap_congr fun l _ => composeLine_bare indent separator l _
  rw [spaced, spaced]
  show (if s.type = .emptyLine then .ok [endingOf (s.shown gaps).tokens]
    else (indentAt setup sc' (s.shown gaps).markless).map fun indent =>
      relay indent setup.config.separator (s.shown gaps).tokens) = _
  split
  · rw [hending]
    rfl
  · have hdepth : sc'.depth (s.shown gaps).markless = sc.depth s := h.depth rfl
    rw [indentAt, indentAt, hdepth]
    cases spaces? ((sc.depth s).toNat * setup.config.indent) with
    | error reason => rfl
    | ok indent => exact congrArg Except.ok (hrelay indent _)

/-- Whether a statement is laid out depends on the kind of its section only. -/
theorem isLaidOut_eq (h : sc.section?.map (·.kind) = some kind) :
    isLaidOut sc = kind.isLaidOut := by
  obtain ⟨sect, hsect, rfl⟩ := Option.map_eq_some_iff.1 h
  rw [isLaidOut, hsect]
  rfl

/-- The transform that gives each statement the gaps that are configured, whether or not these
are the ones it has. -/
def even (setup : PassSetup) : Transform :=
  { name := info.name
    statement := fun sc _ s =>
      if isLaidOut sc then
        match spaced setup sc s with
        | .error reason => .breakOff (.overflow reason)
        | .ok tokens => .put { s with tokens }
      else .keep }

/-- The transform of the pass. -/
abbrev transform (setup : PassSetup) : Transform :=
  { name := info.name
    statement := fun sc _ s => if sc.disables info.name s then .keep else space setup sc s }

section
variable (hv : setup.IsValid) (hl : Laid header (splitLines s.tokens))
  (he : s.type = .emptyLine → dataTexts s.tokens = [] ∧ commentTexts s.tokens = [])
  (hh : header = true → s.type ≠ .emptyLine ∧ sc.depth s = 0) (hf : s.flaws = [])
include hv hl he hh hf

/-- The new tokens of a statement are laid out, have no flaw, hold its comments, and are the old
ones if their text is the same. -/
theorem spaced_spec (h : spaced setup sc s = .ok tokens) : Laid header (splitLines tokens) ∧
    (s.withTokens tokens).flaws = [] ∧ commentTexts tokens = commentTexts s.tokens ∧
      (renderTokens tokens = s.text → tokens.map Token.bare = s.tokens.map Token.bare) := by
  obtain ⟨f, rfl, hlines⟩ := spaced_eq_ok hv hl he hh h
  exact ⟨(hl.respaced hlines).1, Statement.flaws_of_respaced hl hlines hf,
    (hl.respaced hlines).2.2, Statement.bare_of_respaced hl hlines hf⟩

/-- **The decision of the pass about a statement shows, whether the gaps are those that are
configured or not.** -/
theorem agree_even (hkind : sc.section?.map (·.kind) = some kind) (ht : s.type ≠ .error)
    (hc : sc.IsCalm) (hs : s.directive? = none) (hlike : sc.Like sc') (n : Nat) :
    Decision.Agree Statement.plain s (looseView kind s) ((transform setup).statement sc n s)
      ((even setup).statement sc' n (looseView kind s)) := by
  have hlaidOut : isLaidOut sc = kind.isLaidOut := isLaidOut_eq hkind
  have hlaidOut' : isLaidOut sc' = kind.isLaidOut :=
    isLaidOut_eq (hlike.section?.trans hkind)
  have hspaced : spaced setup sc' _ = _ := spaced_shown hl hlike (!kind.isLaidOut)
  dsimp only [transform, even]
  rw [hc.disables hs, if_neg Bool.false_ne_true, space, hlaidOut, hlaidOut']
  cases hk : kind.isLaidOut with
  | false =>
    have hview : looseView kind s = s.plain := by
      rw [looseView, contentView, gapView, hk]
      rfl
    rw [Bool.not_false, Bool.or_true, if_pos rfl, if_neg Bool.false_ne_true, hview]
    exact ⟨rfl, fun _ => rfl⟩
  | true =>
    have hview : looseView kind s = (s.shown false).markless := by
      rw [looseView, contentView, gapView, hk]
      rfl
    have hkeep : (s.type = .error || !true) = false := by simp [ht]
    rw [hkeep, if_neg Bool.false_ne_true, if_pos rfl, hview, ← Bool.not_true, ← hk, hspaced]
    cases htokens : spaced setup sc s with
    | error reason => exact ⟨rfl, fun h => absurd h (Option.some_ne_none _)⟩
    | ok tokens =>
      obtain ⟨hlaid, hflaws, -, hsame⟩ := spaced_spec hv hl he hh hf htokens
      have hnew : { (s.shown false).markless with tokens := tokens.map Token.bare } =
          (s.withTokens tokens).plain := by
        rw [Statement.plain_eq]
        rfl
      have hplain : (s.withTokens tokens).plain.flaws = [] :=
        (Statement.shownBy_plain hlaid.endsLine).flaws.trans hflaws
      refine ⟨by dsimp only [Except.map]; split <;> rfl, fun _ => ?_⟩
      dsimp only [Except.map]
      rw [hk, Bool.not_true, hnew]
      refine (Decision.outcome_put (s.shown false).markless (s.withTokens tokens).plain rfl
        hplain).trans ?_
      split
      · rename_i htext
        exact Statement.plain_eq_iff.2 ⟨rfl, hsame htext⟩
      · rw [Decision.outcome_put s (s.withTokens tokens) rfl hflaws]

end

/-- What the pass puts in a statement's place is the statement with its tokens respaced. -/
theorem exists_spaced {new : Statement} (h : (transform setup).statement sc n s = .put new) :
    ∃ tokens, spaced setup sc s = .ok tokens ∧ new = s.withTokens tokens := by
  dsimp only [transform] at h
  split at h
  · cases h
  · rw [space] at h
    split at h
    · cases h
    · cases hs : spaced setup sc s with
      | error reason =>
        rw [hs] at h
        cases h
      | ok tokens =>
        rw [hs] at h
        dsimp only at h
        split at h
        · cases h
        · exact ⟨tokens, rfl, (Decision.put.inj h).symm⟩

/-- A header stands at the margin. -/
theorem depth_of_header (h : s.IsHeader kind) (hl : sc.levels = 0) :
    s.type ≠ .emptyLine ∧ sc.depth s = 0 := by
  rw [Scope.levels] at hl
  exact ⟨by simp [h.type],
    by simp [Scope.depth, hl, h.type, StatementType.isOuter, StatementType.marker?]⟩

/-- A statement with gaps as configured has no flaws and no directive if it had none before. -/
theorem fit_spaced {P : SectionKind → Statement → Prop} {new : Statement} (hv : setup.IsValid)
    (hl : Laid header (splitLines s.tokens))
    (he : s.type = .emptyLine → dataTexts s.tokens = [] ∧ commentTexts s.tokens = [])
    (hh : header = true → s.type ≠ .emptyLine ∧ sc.depth s = 0)
    (h : (transform setup).statement sc n s = .put new) (hs : s.IsQuiet (IsFit P) kind)
    (hnew : P kind new) : new.IsQuiet (IsFit P) kind := by
  obtain ⟨tokens, htokens, rfl⟩ := exists_spaced h
  obtain ⟨-, hflaws, hcomments, -⟩ := spaced_spec hv hl he hh hs.holds.2 htokens
  exact ⟨⟨hnew, hflaws⟩, (directive?_congr hcomments).trans hs.silent⟩

/-- The pass keeps sound statements that are no directives so. -/
theorem keeps_quiet (hv : setup.IsValid) :
    (transform setup).Keeps (Statement.IsQuiet (IsFit Statement.IsSound))
      (Statement.IsQuiet (IsFit Statement.IsHeader)) := by
  obtain ⟨hkeeps, -⟩ := keepsSound_pass setup ⟨.synthetic, .lf, [], []⟩ _ hv rfl
  exact
    { statement := fun h hsh ht hs =>
        fit_spaced hv hs.holds.1.laid hs.holds.1.texts_of_emptyLine nofun h hs
          (hkeeps.statement h hsh ht hs.holds.1)
      header := fun h hk hl ht hs =>
        fit_spaced hv hs.holds.1.laid
          (fun he => absurd he (depth_of_header hs.holds.1 hl).1)
          (fun _ => depth_of_header hs.holds.1 hl) h hs (hkeeps.header h hk hl ht hs.holds.1)
      body := fun h => by cases h
      sect := fun h => by cases h
      file := fun h => by cases h }

/-- The gaps that the pass gives to a statement without flaws and directives. -/
theorem mirrors_even (hv : setup.IsValid) : (transform setup).Mirrors (even setup) False
    Scope.IsCalm (Statement.IsQuiet (IsFit Statement.IsSound))
    (Statement.IsQuiet (IsFit Statement.IsHeader)) looseView plainView where
  name := rfl
  start := by simp [Scope.IsCalm]
  keeps := keeps_quiet hv
  labels := False.elim
  silent := .inr fun hc hs => hc.disables (hs.elim (·.silent) (·.silent)) _
  sees hs :=
    Statement.shownBy_markless (endsLine_of_sound (hs.imp (·.holds.1) (·.holds.1))) _
  shows hs := Statement.shownBy_plain (endsLine_of_sound (hs.imp (·.holds.1) (·.holds.1)))
  enter hc hh := hc.enter fun header hmem => (hh header hmem).elim (·.silent) (·.silent)
  leave hc := hc.leave
  note hc hs := hc.note (hs.elim (·.silent) (·.silent))
  statement {kind sc sc' n s} hc hlike hs := by
    rcases hs with ⟨hshows, hs⟩ | ⟨hkind, hlevels, hs⟩
    · exact agree_even hv hs.holds.1.laid hs.holds.1.texts_of_emptyLine nofun hs.holds.2
        hshows.sect hs.holds.1.reads.type_ne.2 hc hs.silent hlike n
    · exact agree_even hv hs.holds.1.laid
        (fun he => absurd he (depth_of_header hs.holds.1 hlevels).1)
        (fun _ => depth_of_header hs.holds.1 hlevels) hs.holds.2 hkind
        (by simp [hs.holds.1.type]) hc hs.silent hlike n
  body _ _ _ := rfl
  sect _ _ _ _ _ := rfl
  file _ _ := rfl

end Gaps
end RobotSuite
