/-
# Line breaks of statements

A transform keeps a file valid if it keeps the statements of the file apart: all but the last
end with line breaks.  It is enough to look at its decisions one by one.  New statements are
at least as closed as old ones (`AsClosed`) if no line break is lost among them, or, where
nothing follows, none but at their end.  That goes from parts to the whole, so it goes from
the decisions to the file (`Transform.KeepsBreaks.valid_run`).

On the same way it is followed what line breaks are written of: where each that a decision puts
has a property that those of the file have, all have it in the end
(`Transform.KeepsBreaks.endsIn_run`).
-/

import RobotSuite.Proofs.Transform.Run

namespace RobotSuite

/-! ## Line endings in statements -/

section
variable {N : String → Prop} {s : Statement}

/-- A statement whose line endings are empty, or line breaks with a property. -/
def Statement.BreaksIn (N : String → Prop) (s : Statement) : Prop :=
  ∀ t ∈ s.tokens, t.kind = .eol → t.value = "" ∨ N t.value

/-- A statement with a line ending at its end and line breaks inside, which have a property. -/
structure Statement.EndsIn (N : String → Prop) (s : Statement) : Prop where
  concat : ∃ front e, s.tokens = front ++ [e] ∧ e.kind = .eol ∧
    ∀ t ∈ front, t.kind = .eol → t.value ≠ ""
  breaks : s.BreaksIn N

/-- A statement without flaws ends in one of the line breaks. -/
theorem Statement.BreaksIn.endsIn (h : s.BreaksIn N) (hs : s.flaws = []) : s.EndsIn N :=
  ⟨concat_of_flaws hs, h⟩

/-- Of the line breaks of a statement without flaws nothing else is said. -/
theorem Statement.endsIn_of_flaws (h : s.flaws = []) : s.EndsIn fun _ => True :=
  ⟨concat_of_flaws h, fun _ _ _ => .inr trivial⟩

/-- Each line ending is an empty one, one with the property, or one that was there. -/
theorem Statement.BreaksIn.of_mem {new : Statement} (h : s.BreaksIn N)
    (hn : ∀ t ∈ new.tokens, t.kind = .eol → (t.value = "" ∨ N t.value) ∨
      ∃ u ∈ s.tokens, u.kind = .eol ∧ u.value = t.value) : new.BreaksIn N := by
  intro t ht hk
  rcases hn t ht hk with hv | ⟨u, hu, huk, huv⟩
  · exact hv
  · rw [← huv]
    exact h u hu huk

end

/-! ## Statements in place of others -/

/-- New statements in place of old ones with a property: they have it as well, and lack no line
break which the old ones had.  Where something `follows`, the old ones had all. -/
structure AsClosed (P : Statement → Prop) (follows : Bool) (old new : List Statement) : Prop where
  keeps : (∀ s ∈ old, P s) → ∀ s ∈ new, P s
  closed : (∀ s ∈ old, P s) → (∀ s ∈ old, s.isUnterminated = false) →
    ∀ s ∈ new, s.isUnterminated = false
  /-- What stands in front is open where nothing else stands behind it. -/
  behind : (∀ s ∈ old, P s) → follows = false →
    ∀ front, separated (front ++ old) → separated (front ++ new)

namespace AsClosed
variable {P : Statement → Prop} {follows follows' : Bool} {a a' b b' : List Statement}

/-- Statements are closed as they are. -/
@[refl] theorem refl (P : Statement → Prop) (follows : Bool) (a : List Statement) :
    AsClosed P follows a a :=
  ⟨id, fun _ => id, fun _ _ _ h => h⟩

/-- Closing twice is closing. -/
theorem trans {c : List Statement} (h : AsClosed P follows a b) (h' : AsClosed P follows b c) :
    AsClosed P follows a c :=
  ⟨fun hp => h'.keeps (h.keeps hp), fun hp ha => h'.closed (h.keeps hp) (h.closed hp ha),
    fun hp hf front ha => h'.behind (h.keeps hp) hf front (h.behind hp hf front ha)⟩

/-- In front of other statements it is not asked what follows. -/
theorem append_of_ne_nil (ha : AsClosed P follows' a a') (hb : AsClosed P follows b b')
    (hne : b' ≠ []) : AsClosed P follows (a ++ b) (a' ++ b') := by
  refine ⟨fun hp => ?_, fun hp h => ?_, fun hp hf front h => ?_⟩
  · rw [List.forall_mem_append] at hp ⊢
    exact ⟨ha.keeps hp.1, hb.keeps hp.2⟩
  · rw [List.forall_mem_append] at hp h ⊢
    exact ⟨ha.closed hp.1 h.1, hb.closed hp.2 h.2⟩
  · rw [List.forall_mem_append] at hp
    rw [← List.append_assoc] at h ⊢
    have hnew := hb.behind hp.2 hf (front ++ a) h
    have hfront := hnew.left hne
    rw [List.forall_mem_append] at hfront
    exact .append (List.forall_mem_append.2 ⟨hfront.1, ha.closed hp.1 hfront.2⟩) hnew.right

/-- Two stretches are closed one after the other. -/
theorem append (ha : AsClosed P follows a a') (hb : AsClosed P follows b b') :
    AsClosed P follows (a ++ b) (a' ++ b') := by
  by_cases hne : b' = []
  · subst hne
    refine ⟨fun hp => ?_, fun hp h => ?_, fun hp hf front h => ?_⟩
    · rw [List.forall_mem_append] at hp
      rw [List.append_nil]
      exact ha.keeps hp.1
    · rw [List.forall_mem_append] at hp h
      rw [List.append_nil]
      exact ha.closed hp.1 h.1
    · rw [List.forall_mem_append] at hp
      rw [← List.append_assoc] at h
      have hold := hb.behind hp.2 hf (front ++ a) h
      rw [List.append_nil] at hold ⊢
      exact ha.behind hp.1 hf front hold
  · exact ha.append_of_ne_nil hb hne

/-- A statement that has a line break if the old one had. -/
theorem singleton {s new : Statement} (hp : P s → P new)
    (h : P s → new.isUnterminated = true → s.isUnterminated = true) :
    AsClosed P follows [s] [new] := by
  refine ⟨fun hs => ?_, fun hs hc => ?_, fun _ _ front hs => ?_⟩
  · rw [List.forall_mem_singleton] at hs ⊢
    exact hp hs
  · rw [List.forall_mem_singleton] at hs hc ⊢
    rw [Bool.eq_false_iff] at hc ⊢
    exact fun hn => hc (h hs hn)
  · exact .append (hs.left (List.cons_ne_nil _ _)) (by simp [separated])

/-- Statements that are left out. -/
theorem nil (P : Statement → Prop) (follows : Bool) (a : List Statement) :
    AsClosed P follows a [] :=
  ⟨fun _ => by simp, fun _ _ => by simp,
    fun _ _ front h => by rw [List.append_nil]; exact h.front⟩

/-- Statements that are kept apart whatever the old ones were. -/
theorem of_separated (hp : (∀ s ∈ a, P s) → ∀ s ∈ a', P s)
    (hc : (∀ s ∈ a, s.isUnterminated = false) → ∀ s ∈ a', s.isUnterminated = false)
    (hs : separated a') (hn : a = [] → a' = []) : AsClosed P follows a a' := by
  refine ⟨hp, fun _ => hc, fun _ _ front h => ?_⟩
  by_cases ha : a = []
  · rwa [hn ha, ← ha]
  · exact .append (h.left ha) hs

/-- The statements of items of which some are left out. -/
theorem of_sublist {α : Type} (statements : α → List Statement) {items new : List α}
    (h : new.Sublist items) :
    AsClosed P follows (items.flatMap statements) (new.flatMap statements) := by
  induction h with
  | slnil => exact .refl _ _ _
  | cons item _ ih => exact (AsClosed.nil P follows (statements item)).append ih
  | cons_cons item _ ih => exact (AsClosed.refl P follows (statements item)).append ih

/-- Items of a body in place of others, one by one. -/
theorem map {items : List (Marked BodyItem)} {g : Marked BodyItem → BodyItem}
    (hi : bodyIssues (items.map g) = [])
    (h : ∀ item, (g item).issues = [] →
      AsClosed P follows item.1.statements (g item).statements) :
    AsClosed P follows (bodyStatements (unmark items)) (bodyStatements (items.map g)) := by
  induction items with
  | nil => exact .refl _ _ _
  | cons item items ih =>
    rw [List.map_cons, bodyIssues, List.append_eq_nil_iff] at hi
    exact (h item hi.1).append (ih hi.2)

end AsClosed

/-! ## Decisions that keep line breaks -/

/-- Whether a further block or section follows. -/
def Place.follows (place : Place) : Bool := place.blockFollows || place.sectionFollows

/-- Whether a further block or section follows. -/
def Progress.follows (p : Progress) : Bool := p.blockFollows || p.sectionFollows

/-- Coming back keeps what follows. -/
theorem Progress.Back.follows {p q : Progress} (h : p.Back q) : q.follows = p.follows := by
  rw [Progress.follows, h.blockFollows, h.sectionFollows, Progress.follows]

namespace Transform
variable {t : Transform} {N : String → Prop} {p : Progress}

/-- A transform whose decisions lose no line break between statements, and put none without a
property. -/
structure KeepsBreaks (N : String → Prop) (t : Transform) : Prop where
  statement : ∀ {sc n s new}, t.statement sc n s = .put new → s.EndsIn N →
    new.BreaksIn N ∧ (new.isUnterminated = true → s.isUnterminated = true)
  body : ∀ {place header items new}, t.leaveBody place header items = .put new →
    bodyIssues (unmark new) = [] → AsClosed (Statement.EndsIn N) place.follows
      (bodyStatements (unmark items)) (bodyStatements (unmark new))
  sect : ∀ {place header items new}, t.leaveSection place header items = .put new →
    AsClosed (Statement.EndsIn N) place.sectionFollows (itemsStatements (unmark items))
      (itemsStatements (unmark new))
  file : ∀ {place ss new}, t.leaveFile place ss = .put new →
    (∀ s ∈ ss.flatMap Section.statements, s.EndsIn N) →
      ∀ s ∈ new.flatMap Section.statements, s.EndsIn N

section
variable {follows : Bool}

/-- A replacement has no flaw, so its line endings are where they should be. -/
theorem KeepsBreaks.onStatement (h : t.KeepsBreaks N) (s : Statement) :
    AsClosed (Statement.EndsIn N) follows [s] [(t.onStatement p s).1.1] := by
  obtain ⟨-, heq | ⟨sc, new, -, hput, -, hissues, heq⟩⟩ := t.onStatement_spec p s
  · rw [heq]
  · rw [heq]
    exact .singleton (fun hs => (h.statement hput hs).1.endsIn (Statement.issues_eq_nil hissues))
      fun hs => (h.statement hput hs).2

/-- Leaving a body keeps the line breaks it ends in. -/
theorem KeepsBreaks.onBody (h : t.KeepsBreaks N) (header : Bool)
    (items : List (Marked BodyItem)) :
    AsClosed (Statement.EndsIn N) p.follows (bodyStatements (unmark items))
      (bodyStatements (unmark (t.onBody p header items).1)) := by
  obtain ⟨-, heq | ⟨marked, new, hm, hput, hissues, heq⟩⟩ := t.onBody_spec p header items
  · rw [heq]
  · rw [heq, ← hm]
    exact h.body hput hissues

/-- A header, as it stays or is replaced. -/
theorem KeepsBreaks.settle (h : t.KeepsBreaks N) {q : Progress} (s : Statement) :
    AsClosed (Statement.EndsIn N) follows [s] [q.settle s (t.onStatement p s).1.1] :=
  Progress.settle_of (P := fun r => AsClosed (Statement.EndsIn N) follows [s] [r]) q (.refl _ _ _)
    (h.onStatement s)

/-- A header or an END, if there is one. -/
theorem KeepsBreaks.settle? (h : t.KeepsBreaks N) {q : Progress} (s : Option Statement) :
    AsClosed (Statement.EndsIn N) follows s.toList
      (q.settle s ((t.onStatement? p s).1.map (·.1))).toList := by
  refine Progress.settle_of
    (P := fun r : Option Statement => AsClosed (Statement.EndsIn N) follows s.toList r.toList) q
    (.refl _ _ _) ?_
  cases s with
  | none => exact .refl _ _ _
  | some s => exact h.onStatement s

/-- The items of a body, as they are left behind. -/
theorem KeepsBreaks.leave (h : t.KeepsBreaks N) {q r : Progress} (header : Bool)
    {items : List BodyItem} (hq : p.Back q) (hr : p.Back r)
    (hitems : AsClosed (Statement.EndsIn N) q.follows (bodyStatements items)
      (bodyStatements (unmark (t.onItems q items).1))) :
    AsClosed (Statement.EndsIn N) p.follows (bodyStatements items)
      (bodyStatements (unmark (t.onBody r header (t.onItems q items).1).1)) := by
  have hbody := h.onBody (p := r) header (t.onItems q items).1
  rw [hq.follows] at hitems
  rw [hr.follows] at hbody
  exact hitems.trans hbody

mutual

/-- An item keeps the line breaks it ends in. -/
theorem KeepsBreaks.onItem (h : t.KeepsBreaks N) {p : Progress} : ∀ item : BodyItem,
    AsClosed (Statement.EndsIn N) p.follows item.statements (t.onItem p item).1.1.statements
  | .statement s => by
    rw [Transform.onItem]
    exact h.onStatement s
  | .control c => by
    rw [Transform.onItem]
    exact h.onControl c

/-- The same for a control block. -/
theorem KeepsBreaks.onControl (h : t.KeepsBreaks N) {p : Progress} : ∀ c : ControlBlock,
    AsClosed (Statement.EndsIn N) p.follows c.statements (t.onControl p c).1.1.statements
  | ⟨type, span, header, body, branches, close, label⟩ => by
    let c : ControlBlock := ⟨type, span, header, body, branches, close, label⟩
    -- the walk behind the header, the items, the branches and the END
    have hback1 : (p.enter (.control c)).Back (t.onStatement (p.enter (.control c)) header).2 :=
      t.back_onStatement _ _
    have hback2 := hback1.trans (t.back_onItems _ body)
    have hback4 := (hback2.trans (t.back_onBranches _ branches)).trans (t.back_onStatement? _ close)
    have hnew := h.leave (t.onStatement (p.enter (.control c)) header).1.2 hback1 hback4
      (h.onItems body)
    have hbs {q : Progress} (hq : (p.enter (.control c)).Back q) :
        AsClosed (Statement.EndsIn N) p.follows (branchesStatements branches)
          (branchesStatements (unmark (t.onBranches q branches).1)) :=
      hq.follows ▸ h.onBranches branches
    rw [Transform.onControl]
    exact .append (a := [header]) (h.settle header) ((hnew.append (hbs hback2)).append
      (h.settle? close))

/-- The same for the items of a body. -/
theorem KeepsBreaks.onItems (h : t.KeepsBreaks N) {p : Progress} : ∀ items : List BodyItem,
    AsClosed (Statement.EndsIn N) p.follows (bodyStatements items)
      (bodyStatements (unmark (t.onItems p items).1))
  | [] => by
    rw [Transform.onItems]
    exact .refl _ _ _
  | item :: items => by
    have hrest := h.onItems (p := (t.onItem p item).2) items
    rw [(t.back_onItem p item).follows] at hrest
    rw [Transform.onItems]
    exact (h.onItem item).append hrest

/-- The same for the branches of a block. -/
theorem KeepsBreaks.onBranches (h : t.KeepsBreaks N) {p : Progress} : ∀ bs : List Branch,
    AsClosed (Statement.EndsIn N) p.follows (branchesStatements bs)
      (branchesStatements (unmark (t.onBranches p bs).1))
  | [] => by
    rw [Transform.onBranches]
    exact .refl _ _ _
  | ⟨span, header, body, label⟩ :: bs => by
    let b : Branch := ⟨span, header, body, label⟩
    have hback : (p.enter (.branch b)).Back (t.onStatement (p.enter (.branch b)) header).2 :=
      t.back_onStatement _ _
    have hnew := h.leave (t.onStatement (p.enter (.branch b)) header).1.2 hback
      (hback.trans (t.back_onItems _ body)) (h.onItems body)
    have hrest := h.onBranches (p := (t.onBranch p b).2) bs
    rw [(t.back_onBranch p b).follows] at hrest
    rw [Transform.onBranches, Transform.onBranch]
    exact .append (.append (a := [header]) (h.settle header) hnew) hrest

end

/-- The same for a block. -/
theorem KeepsBreaks.onBlock (h : t.KeepsBreaks N) (b : Block) :
    AsClosed (Statement.EndsIn N) p.follows b.statements (t.onBlock p b).1.1.statements := by
  have hback : (p.enter (.block b)).Back (t.onStatement (p.enter (.block b)) b.header).2 :=
    t.back_onStatement _ _
  have hnew := h.leave (t.onStatement (p.enter (.block b)) b.header).1.2 hback
    (hback.trans (t.back_onItems _ b.body)) (h.onItems b.body)
  rw [Transform.onBlock]
  exact .append (a := [b.header]) (h.settle b.header) hnew

/-- Items of a section stay. -/
theorem onSectionItems_ne_nil {item : SectionItem} {items : List SectionItem} :
    itemsStatements (unmark (t.onSectionItems p (item :: items)).1) ≠ [] := by
  intro h
  have := itemsStatements_eq_nil h
  cases item <;> simp [Transform.onSectionItems, unmark] at this

/-- The items of a section keep the line breaks they end in. -/
theorem KeepsBreaks.onSectionItems (h : t.KeepsBreaks N) (items : List SectionItem) :
    AsClosed (Statement.EndsIn N) p.sectionFollows (itemsStatements items)
      (itemsStatements (unmark (t.onSectionItems p items).1)) := by
  induction items generalizing p with
  | nil =>
    rw [Transform.onSectionItems]
    exact .refl _ _ _
  | cons item items ih =>
    cases item with
    | statement s =>
      have hrest := ih (p := (t.onStatement p s).2)
      rw [(t.back_onStatement p s).sectionFollows] at hrest
      rw [Transform.onSectionItems]
      exact .append (a := [s]) (h.onStatement s) hrest
    | block b =>
      have hblock := h.onBlock (p := { p with blockFollows := items.any (·.isBlock) }) b
      have hrest := ih (p := (t.onBlock { p with blockFollows := items.any (·.isBlock) } b).2)
      rw [(t.back_onBlock _ b).sectionFollows] at hrest
      rw [Transform.onSectionItems]
      show AsClosed _ p.sectionFollows (b.statements ++ itemsStatements items)
        (_ ++ itemsStatements _)
      cases items with
      | nil => exact hblock.append hrest
      | cons next items => exact hblock.append_of_ne_nil hrest onSectionItems_ne_nil

/-- Leaving a section keeps the line breaks it ends in. -/
theorem KeepsBreaks.onSectionBody (h : t.KeepsBreaks N) (kind : SectionKind)
    (header : Option (Marked Statement)) (items : List (Marked SectionItem)) :
    AsClosed (Statement.EndsIn N) p.sectionFollows (itemsStatements (unmark items))
      (itemsStatements (unmark (t.onSectionBody p kind header items).1)) := by
  obtain ⟨-, heq | ⟨marked, new, hm, hput, -, heq⟩⟩ := t.onSectionBody_spec p kind header items
  · rw [heq]
  · rw [heq, ← hm]
    exact h.sect hput

/-- The same for a section. -/
theorem KeepsBreaks.onSection (h : t.KeepsBreaks N) (s : Section) :
    AsClosed (Statement.EndsIn N) p.sectionFollows s.statements
      (t.onSection p s).1.statements := by
  have hback := t.back_onStatement? (p.enter (.sect s)) s.header
  obtain ⟨b, hrest⟩ := t.back_onSectionItems (t.onStatement? (p.enter (.sect s)) s.header).2 s.body
  have hitems := h.onSectionItems (p := (t.onStatement? (p.enter (.sect s)) s.header).2) s.body
  have hbody := h.onSectionBody
    (p := (t.onSectionItems (t.onStatement? (p.enter (.sect s)) s.header).2 s.body).2) s.kind
    (t.onStatement? (p.enter (.sect s)) s.header).1
    (t.onSectionItems (t.onStatement? (p.enter (.sect s)) s.header).2 s.body).1
  rw [hback.sectionFollows] at hitems
  rw [hrest.sectionFollows, hback.sectionFollows] at hbody
  rw [Transform.onSection]
  exact .append (h.settle? s.header) (hitems.trans hbody)

/-- A section with a header holds statements. -/
theorem onSections_ne_nil {s : Section} {ss : List Section} (hs : s.header ≠ none) :
    (t.onSections p (s :: ss)).1.flatMap Section.statements ≠ [] := by
  rw [Transform.onSections, List.flatMap_cons]
  exact List.append_ne_nil_of_left_ne_nil
    (Section.statements_ne_nil ((not_congr (t.header_onSection _ s)).2 hs)) _

/-- The same for the sections of a file. -/
theorem KeepsBreaks.onSections (h : t.KeepsBreaks N) {ss : List Section}
    (hh : ∀ s ∈ ss.tail, s.header ≠ none) :
    AsClosed (Statement.EndsIn N) false (ss.flatMap Section.statements)
      ((t.onSections p ss).1.flatMap Section.statements) := by
  induction ss generalizing p with
  | nil => exact .refl _ _ _
  | cons s ss ih =>
    have hsect := h.onSection (p := { p with sectionFollows := !ss.isEmpty }) s
    have hrest := ih (p := (t.onSection { p with sectionFollows := !ss.isEmpty } s).2)
      fun r hr => hh r (List.mem_of_mem_tail hr)
    rw [Transform.onSections, List.flatMap_cons, List.flatMap_cons]
    cases ss with
    | nil => exact hsect.append hrest
    | cons r ss => exact hsect.append_of_ne_nil hrest (onSections_ne_nil (hh r List.mem_cons_self))

end

/-- A transform that leaves sections alone only changes their items one by one. -/
theorem body_onSection {t : Transform} (hs : t.leaveSection = fun _ _ _ => .keep) (p : Progress)
    (s : Section) : (t.onSection p s).1.body = unmark (t.onSectionItems
      (t.onStatement? (p.enter (.sect s)) s.header).2 s.body).1 := by
  rw [onSection]
  rcases (t.onSectionBody_spec
    (t.onSectionItems (t.onStatement? (p.enter (.sect s)) s.header).2 s.body).2 s.kind
    (t.onStatement? (p.enter (.sect s)) s.header).1
    (t.onSectionItems (t.onStatement? (p.enter (.sect s)) s.header).2 s.body).1).2 with
      heq | ⟨marked, new, -, hput, -, -⟩
  · exact heq
  · rw [hs] at hput
    cases hput

/-- A transform of statements and bodies leaves no section without statements that had one. -/
theorem statements_ne_nil_onSection {t : Transform} (hs : t.leaveSection = fun _ _ _ => .keep)
    (p : Progress) {s : Section} (h : s.statements ≠ []) : (t.onSection p s).1.statements ≠ [] := by
  by_cases hheader : s.header = none
  · intro hnil
    rw [Section.statements, body_onSection hs, List.append_eq_nil_iff] at hnil
    cases hitems : s.body with
    | nil =>
      refine h ?_
      rw [Section.statements, hheader, hitems]
      rfl
    | cons item items =>
      rw [hitems] at hnil
      exact onSectionItems_ne_nil hnil.2
  · exact Section.statements_ne_nil fun hnone => hheader ((t.header_onSection p s).1 hnone)

/-- The same for the sections of a file. -/
theorem statements_ne_nil_onSections {t : Transform} (hs : t.leaveSection = fun _ _ _ => .keep)
    {ss : List Section} {p : Progress} (h : ∀ s ∈ ss, s.statements ≠ []) :
    ∀ s ∈ (t.onSections p ss).1, s.statements ≠ [] := by
  induction ss generalizing p with
  | nil => exact h
  | cons s ss ih =>
    rw [List.forall_mem_cons] at h
    rw [onSections]
    exact List.forall_mem_cons.2 ⟨statements_ne_nil_onSection hs _ h.1, ih h.2⟩

/-- **A transform of statements and bodies** leaves no section without statements. -/
theorem statements_ne_nil_run {t : Transform} (hs : t.leaveSection = fun _ _ _ => .keep)
    (hf : t.leaveFile = fun _ _ => .keep) {f : File} (h : ∀ s ∈ f.sections, s.statements ≠ []) :
    ∀ s ∈ (t.run f).tree.sections, s.statements ≠ [] := by
  rw [run]
  dsimp only
  rcases t.onFileBody_spec (t.onSections (({} : Progress).enter (.file f)) f.sections).2
    (t.onSections (({} : Progress).enter (.file f)) f.sections).1 with
      heq | ⟨new, hput, -, -⟩
  · rw [heq]
    exact statements_ne_nil_onSections hs h
  · rw [hf] at hput
    cases hput

/-- Items stay blocks, and no others become blocks. -/
theorem map_isBlock_onSectionItems (t : Transform) (p : Progress) (items : List SectionItem) :
    (unmark (t.onSectionItems p items).1).map SectionItem.isBlock =
      items.map SectionItem.isBlock := by
  induction items generalizing p with
  | nil => rfl
  | cons item items ih =>
    cases item with
    | statement s =>
      rw [onSectionItems]
      exact congrArg (false :: ·) (ih _)
    | block b =>
      rw [onSectionItems]
      exact congrArg (true :: ·) (ih _)

/-- **A transform of statements and bodies** does not change whether a file can be checked. -/
theorem isUncheckable_run {t : Transform} (hs : t.leaveSection = fun _ _ _ => .keep)
    (hf : t.leaveFile = fun _ _ => .keep) (f : File) :
    (t.run f).tree.isUncheckable = f.isUncheckable := by
  have hsection (p : Progress) (s : Section) :
      (t.onSection p s).1.isUncheckable = s.isUncheckable := by
    have hblocks : (t.onSection p s).1.body.map SectionItem.isBlock =
        s.body.map SectionItem.isBlock := by
      rw [body_onSection hs]
      exact t.map_isBlock_onSectionItems _ _
    have hany (items : List SectionItem) : (items.any fun item => !item.isBlock) =
        (items.map SectionItem.isBlock).any not := by
      rw [List.any_map]
      rfl
    rw [Section.isUncheckable, Section.isUncheckable, isUncheckable, isUncheckable, hany, hany,
      hblocks]
    rfl
  have hsections (p : Progress) (ss : List Section) :
      ((t.onSections p ss).1.any fun s => s.isUncheckable) = ss.any fun s => s.isUncheckable := by
    induction ss generalizing p with
    | nil => rfl
    | cons s ss ih => rw [onSections, List.any_cons, List.any_cons, hsection, ih]
  rw [run]
  dsimp only
  rcases t.onFileBody_spec (t.onSections (({} : Progress).enter (.file f)) f.sections).2
    (t.onSections (({} : Progress).enter (.file f)) f.sections).1 with
      heq | ⟨new, hput, -, -⟩
  · rw [File.isUncheckable, heq]
    exact hsections _ _
  · rw [hf] at hput
    cases hput

end Transform

/-! ## Files -/

/-- A file whose statements stand apart and end with line breaks that have a property; all
sections but the first have headers. -/
structure File.EndsIn (N : String → Prop) (f : File) : Prop where
  statements : ∀ s ∈ f.statements, s.EndsIn N
  apart : separated f.statements
  headers : ∀ s ∈ f.sections.tail, s.header ≠ none

/-- Of the line breaks of a valid file nothing else is said. -/
theorem File.endsIn_of_issues {f : File} (hi : f.issues = []) (hf : headersEnd f.sections) :
    f.EndsIn fun _ => True :=
  ⟨fun s hs => Statement.endsIn_of_flaws (flaws_of_mem_statements hi s hs),
    terminated_of_issues hi hf, header_of_mem_tail hi⟩

namespace Transform
variable {t : Transform} {N : String → Prop} {f : File}

/-- **A transform that puts line breaks of a kind leads to files that have no others,** where
all statements but the last end with one, if nothing comes to stand behind an open header. -/
theorem KeepsBreaks.endsIn_run (h : t.KeepsBreaks N) (hf : f.EndsIn N)
    (hends : headersEnd (t.run f).tree.sections) : (t.run f).tree.EndsIn N := by
  have hwalk := h.onSections (p := ({} : Progress).enter (.file f)) hf.headers
  have hheaders := t.tail_onSections (({} : Progress).enter (.file f)) hf.headers
  have hkeeps := hwalk.keeps hf.statements
  rw [Transform.run] at hends ⊢
  rcases t.onFileBody_spec (t.onSections (({} : Progress).enter (.file f)) f.sections).2
    (t.onSections (({} : Progress).enter (.file f)) f.sections).1 with
      heq | ⟨new, hput, hissues, heq⟩
  · dsimp only
    rw [heq]
    exact ⟨hkeeps, hwalk.behind hf.statements rfl [] hf.apart, hheaders⟩
  · dsimp only at hends ⊢
    rw [heq] at hends ⊢
    exact ⟨h.file hput hkeeps, terminated_of_issues (f := { f with sections := new }) hissues hends,
      header_of_mem_tail (f := { f with sections := new }) hissues⟩

/-- **A transform that loses no line break between statements keeps files valid.** -/
theorem KeepsBreaks.valid_run (h : t.KeepsBreaks fun _ => True) (hi : f.issues = [])
    (hf : headersEnd f.sections) (hends : headersEnd (t.run f).tree.sections) :
    (t.run f).tree.issues = [] :=
  (t.wellPlaced_run (wellPlaced_of_issues hi)).issues_eq_nil
    (h.endsIn_run (File.endsIn_of_issues hi hf) hends).apart

end Transform

/-! ## Passes -/

namespace Pass
variable {info : PassInfo}

/-- A pass whose decisions lose no line break between statements, and put none but the line
break of the file. -/
def KeepsBreaks (p : Pass) : Prop :=
  ∀ (N : String → Prop) setup f t, setup.IsValid → N setup.newline → p.plan setup f = .ok t →
    t.KeepsBreaks N

section
variable {p : Pass} {setup : PassSetup} {f : File}

/-- Such a pass puts no other line breaks, also where it fails. -/
theorem KeepsBreaks.endsIn_apply (h : p.KeepsBreaks) (hs : p.KeepsSound) (hv : setup.IsValid)
    {N : String → Prop} (hn : N setup.newline) (hf : f.IsSound) (hb : f.EndsIn N) :
    (p.apply setup f).tree.EndsIn N := by
  have hends := (hs.apply hv hf).headers
  rw [Pass.apply] at hends ⊢
  cases hplan : p.plan setup f with
  | error reason => exact hb
  | ok t =>
    rw [hplan] at hends
    exact (h N setup f t hv hn hplan).endsIn_run hb hends

/-- Such a pass leads from valid files to valid files, also where it fails. -/
theorem KeepsBreaks.valid_apply (h : p.KeepsBreaks) (hs : p.KeepsSound) (hv : setup.IsValid)
    (hf : f.IsSound) (hi : f.issues = []) : (p.apply setup f).tree.issues = [] := by
  have hends := (hs.apply hv hf).headers
  rw [Pass.apply] at hends ⊢
  cases hplan : p.plan setup f with
  | error reason => exact hi
  | ok t =>
    rw [hplan] at hends
    exact (h _ setup f t hv trivial hplan).valid_run hi hf.headers hends

end

/-- A pass keeps line breaks if its transform does. -/
theorem keepsBreaks_ofTransform {t : PassSetup → File → Transform}
    (h : ∀ {N : String → Prop} setup f, setup.IsValid → N setup.newline →
      (t setup f).KeepsBreaks N) : (ofTransform info t).KeepsBreaks := by
  intro N setup f t' hv hn hplan
  obtain rfl := Except.ok.inj hplan
  exact h setup f hv hn

/-- A pass over single statements keeps line breaks if each replacement does. -/
theorem keepsBreaks_ofStatements {g : PassSetup → Scope → Statement → Decision Statement}
    (h : ∀ {N : String → Prop} {setup sc s new}, setup.IsValid → N setup.newline →
      g setup sc s = .put new → s.EndsIn N →
        new.BreaksIn N ∧ (new.isUnterminated = true → s.isUnterminated = true)) :
    (ofStatements info g).KeepsBreaks := by
  refine keepsBreaks_ofTransform fun setup f hv hn => ?_
  refine
    { statement := fun hput hs => ?_
      body := fun hput => by cases hput
      sect := fun hput => by cases hput
      file := fun hput => by cases hput }
  dsimp only at hput
  split at hput
  · cases hput
  · exact h hv hn hput hs

end Pass

end RobotSuite
