/-
# Regions that a transform keeps together

Walking through a file, a transform that heeds directives comes to each region behind a
directive that switches it off, leaves its items alone, and keeps them together when it leaves
the container around them (`Transform.Freezes.onBody_region`).  Containers stay in their order,
so the containers of the new file correspond to those of the old one
(`Transform.Freezes.containers_run`).
-/

import Mathlib.Data.List.Forall2
import RobotSuite.Proofs.Transform.FrozenItems
import RobotSuite.Proofs.Walk.Scopes

namespace RobotSuite

open Container.children (itemNode)

/-! ## Containers in order -/

/-- The containers inside a body are those of its control blocks. -/
theorem enteredContainers_body (items : List BodyItem) :
    enteredContainers (bodySteps items) =
      (items.filterMap BodyItem.control?).flatMap fun c => enteredContainers c.steps := by
  induction items with
  | nil => rfl
  | cons item items ih =>
    rw [bodySteps, enteredContainers_append, ih]
    cases item with
    | statement s => rw [BodyItem.steps]; rfl
    | control c => rw [BodyItem.steps]; rfl

/-- The containers inside a section are those of its blocks. -/
theorem enteredContainers_items (items : List SectionItem) :
    enteredContainers (items.flatMap SectionItem.steps) =
      (items.filterMap SectionItem.block?).flatMap fun b => enteredContainers b.steps := by
  induction items with
  | nil => rfl
  | cons item items ih =>
    rw [List.flatMap_cons, enteredContainers_append, ih]
    cases item <;> rfl

/-! ## Walks through two lists -/

namespace Transform
variable {t : Transform} {p : Progress}

/-- The first item is transformed first. -/
theorem onItems_cons (t : Transform) (p : Progress) (item : BodyItem) (items : List BodyItem) :
    t.onItems p (item :: items) =
      ((t.onItem p item).1 :: (t.onItems (t.onItem p item).2 items).1,
        (t.onItems (t.onItem p item).2 items).2) := by
  rw [Transform.onItems]

/-- Two stretches of items are transformed one after the other. -/
theorem onItems_append (t : Transform) (p : Progress) (a b : List BodyItem) :
    t.onItems p (a ++ b) = ((t.onItems p a).1 ++ (t.onItems (t.onItems p a).2 b).1,
      (t.onItems (t.onItems p a).2 b).2) := by
  induction a generalizing p with
  | nil => rw [Transform.onItems]; rfl
  | cons item a ih => rw [List.cons_append, onItems_cons, onItems_cons, ih]; rfl

/-- An item keeps its node type. -/
theorem nodeType_onItem (t : Transform) (p : Progress) (item : BodyItem) :
    (t.onItem p item).1.1.nodeType = item.nodeType := by
  cases item with
  | statement s =>
    obtain ⟨-, heq | ⟨sc, new, -, -, htype, -, heq⟩⟩ := t.onStatement_spec p s
    · rw [Transform.onItem]
      show NodeType.statement (t.onStatement p s).1.1.type = _
      rw [heq]
      rfl
    · rw [Transform.onItem]
      show NodeType.statement (t.onStatement p s).1.1.type = _
      rw [heq, htype]
      rfl
  | control c =>
    obtain ⟨type, span, header, body, branches, close, label⟩ := c
    rw [Transform.onItem, Transform.onControl]
    rfl

/-- Items keep their node types. -/
theorem nodeType_onItems (t : Transform) (p : Progress) (items : List BodyItem) :
    (unmark (t.onItems p items).1).map BodyItem.nodeType = items.map BodyItem.nodeType := by
  induction items generalizing p with
  | nil => rw [Transform.onItems]; rfl
  | cons item items ih =>
    rw [onItems_cons]
    show (t.onItem p item).1.1.nodeType :: (unmark _).map BodyItem.nodeType = _
    rw [ih, nodeType_onItem]
    rfl

end Transform

/-! ## Regions of bodies -/

/-- A scope in a body: not right in a section without header, and with a frame. -/
structure Scope.InBody (sc : Scope) : Prop where
  headed : sc.ancestors.head?.any (·.isHeaderless) = false
  framed : sc.frames ≠ []

section
variable {sc : Scope} {p q : Progress}

/-- In a body directives are heard. -/
theorem Scope.InBody.hears (h : sc.InBody) : sc.Hears := by
  rw [Hears, if_neg (by simp [h.headed])]
  exact h.framed

/-- A container with a header is a body. -/
theorem Scope.InBody.enter {c : Container} (hc : c.isHeaderless = false)
    (hf : c.isBranch = true → sc.frames ≠ []) : (sc.enter c).InBody := by
  refine ⟨by simpa [Scope.enter] using hc, ?_⟩
  rw [Scope.enter]
  dsimp only
  split
  · rename_i hb
    exact hf hb
  · exact List.cons_ne_nil _ _

/-- Coming back keeps a frame open. -/
theorem Progress.Back.framed (h : p.Back q) (hp : p.scope.frames ≠ []) : q.scope.frames ≠ [] := by
  rw [← List.length_pos_iff] at hp ⊢
  rwa [h.frames]

/-- Coming back stays in the body. -/
theorem Progress.Back.inBody (h : p.Back q) (hp : p.scope.InBody) : q.scope.InBody :=
  ⟨by rw [h.ancestors]; exact hp.headed, h.framed hp.framed⟩

end

/-- What a container keeps of the regions of another, unless a region is left `Open`. -/
def KeepsRegions (pass : String) (Open : Container → List Node → List Node → Prop)
    (old new : Container) : Prop :=
  ∀ front region back, old.children = front ++ region ++ back → SwitchedOff pass region →
    ¬ Open old region back → region <:+: new.children

/-- Two stretches of items are marked one after the other. -/
theorem Progress.remark_append {α : Type} (p : Progress) (statements : α → List Statement)
    (a b : List (Marked α)) :
    p.remark statements (a ++ b) = p.remark statements a ++ p.remark statements b := by
  rw [remark, remark, remark]
  split
  · rfl
  · exact List.map_append

/-- Marked items stand together in the list. -/
theorem infix_unmark {α : Type} (front : List (Marked α)) (region : List α)
    (back : List (Marked α)) : region <:+: unmark (front ++ markAll region ++ back) :=
  ⟨unmark front, unmark back, by simp [unmark, markAll, Function.comp_def]⟩

namespace Transform
variable {t : Transform} {between : BlockType → Nat} {p : Progress}

/-- The walk leaves a region alone and marks all of it. -/
theorem Freezes.onItems_region (h : t.Freezes between) (hp : p.scope.InBody)
    (front : List BodyItem) {region : List BodyItem} (back : List BodyItem)
    (hr : SwitchedOff t.name (region.map itemNode)) :
    ∃ front' back', (t.onItems p (front ++ region ++ back)).1 = front' ++ markAll region ++ back' ∧
      (unmark back').map BodyItem.nodeType = back.map BodyItem.nodeType := by
  obtain ⟨s, rest, rfl, hs, hd, hrest⟩ := hr.bodyItems
  have hoff := ((t.back_onItems p front).inBody hp).hears.disables_note hs hd
  obtain ⟨q, hstay, hscope⟩ := h.onStatement hoff
  obtain ⟨r, hsame, -⟩ := h.onItems_off (p := q) (by rw [hscope]; exact hoff) hrest
  have hregion : t.onItems (t.onItems p front).2 (.statement s :: rest) =
      (markAll (.statement s :: rest), r) := by
    rw [Transform.onItems, Transform.onItem, hstay]
    dsimp only
    rw [hsame]
    rfl
  rw [onItems_append, onItems_append, hregion]
  exact ⟨_, _, rfl, nodeType_onItems _ _ _⟩

/-- A region stays together when the body around it is left. -/
theorem Freezes.onBody_region (h : t.Freezes between) {header : Bool} {region : List BodyItem}
    {front back : List (Marked BodyItem)} (hr : SwitchedOff t.name (region.map itemNode))
    (hopen : p.place.pads between → straddles (region.map BodyItem.nodeType)
      ((unmark back).map BodyItem.nodeType) = false) :
    region <:+: unmark (t.onBody p header (front ++ markAll region ++ back)).1 := by
  rw [onBody]
  split
  · exact infix_unmark _ _ _
  · rw [Progress.remark_append, Progress.remark_append, Progress.remark_markAll]
    dsimp only
    rcases (p.carryOut_spec _ (fun new => bodyIssues (unmark new)) (t.leaveBody p.place header _)).2
      with heq | ⟨new, hput, -, heq⟩
    · rw [heq]
      exact infix_unmark _ _ _
    · rw [heq]
      have hbody := h.body hput
      rw [unmark_markAll, Progress.unmark_remark] at hbody
      exact hbody (by simp [markAll]) hr hopen

/-- A container with a body keeps its regions. -/
theorem Freezes.keeps_body (h : t.Freezes between) {c c' : Container} {items : List BodyItem}
    {Open : Container → List Node → List Node → Prop} {q r : Progress} {header : Bool}
    (hc : c.children = items.map itemNode)
    (hc' : c'.children = (unmark (t.onBody r header (t.onItems q items).1).1).map itemNode)
    (hq : q.scope.InBody)
    (hopen : r.place.pads between → ∀ region back : List Node,
      straddles (region.map Node.type) (back.map Node.type) = true → Open c region back) :
    KeepsRegions t.name Open c c' := by
  intro front region back hchildren hr hnot
  rw [hc] at hchildren
  obtain ⟨items, back, rfl, hfront, rfl⟩ := List.map_eq_append_iff.1 hchildren
  obtain ⟨front, region, rfl, rfl, rfl⟩ := List.map_eq_append_iff.1 hfront
  obtain ⟨front', back', heq, htypes⟩ := h.onItems_region hq front back hr
  rw [hc', heq]
  refine (h.onBody_region hr fun hpads => ?_).map _
  rw [htypes, Bool.eq_false_iff]
  intro hstraddles
  refine hnot (hopen hpads _ _ ?_)
  rw [List.map_map, List.map_map]
  exact hstraddles

/-- Leaving a body keeps the containers inside it. -/
theorem Freezes.containers_onBody (h : t.Freezes between) {header : Bool}
    {items : List (Marked BodyItem)} :
    enteredContainers (bodySteps (unmark (t.onBody p header items).1)) =
      enteredContainers (bodySteps (unmark items)) := by
  obtain ⟨-, heq | ⟨marked, new, hm, hput, -, heq⟩⟩ := t.onBody_spec p header items
  · rw [heq]
  · rw [heq, enteredContainers_body, h.controls hput, hm, ← enteredContainers_body]

/-! ## Containers, one by one -/

/-- The containers that are entered in one walk keep the regions of those in another. -/
def KeepsAllRegions (pass : String) (Open : Container → List Node → List Node → Prop)
    (old new : List Step) : Prop :=
  List.Forall₂ (KeepsRegions pass Open) (enteredContainers old) (enteredContainers new)

section
variable {Open : Container → List Node → List Node → Prop}

/-- No empty lines are put in front of comments that close the body of a container that is not
a block. -/
theorem not_pads {c : Container} {q : Progress} {cs : List Container}
    (hq : q.scope.ancestors = c :: cs) (hc : ∀ b, c ≠ .block b) : ¬ q.place.pads between := by
  rintro ⟨b, hb, -, -⟩
  rw [Progress.place, Scope.parent?, hq, List.head?_cons] at hb
  exact hc b (Option.some.inj hb)

/-- What becomes of a control block: the walk comes back to it in front of the body and when it
leaves the body. -/
theorem onControl_spec (t : Transform) (p : Progress) (type : ControlType) (span : Span)
    (header : Statement) (body : List BodyItem) (branches : List Branch)
    (close : Option Statement) (label : Option Nat) :
    ∃ newHeader off newClose q r,
      (p.enter (.control ⟨type, span, header, body, branches, close, label⟩)).Back q ∧
      (p.enter (.control ⟨type, span, header, body, branches, close, label⟩)).Back r ∧
      (t.onControl p ⟨type, span, header, body, branches, close, label⟩).1.1 =
        ⟨type, span, newHeader, unmark (t.onBody r off (t.onItems q body).1).1,
          unmark (t.onBranches (t.onItems q body).2 branches).1, newClose, label⟩ := by
  rw [onControl]
  refine ⟨_, _, _, _, _, ?_, ?_, rfl⟩
  · exact t.back_onStatement _ _
  · exact (t.back_onStatement _ _).trans ((t.back_onItems _ _).trans
      ((t.back_onBranches _ _).trans (t.back_onStatement? _ _)))

/-- A branch is its header and its body transformed, in this order. -/
theorem onBranch_spec (t : Transform) (p : Progress) (span : Span) (header : Statement)
    (body : List BodyItem) (label : Option Nat) :
    ∃ newHeader off q r, (p.enter (.branch ⟨span, header, body, label⟩)).Back q ∧
      (p.enter (.branch ⟨span, header, body, label⟩)).Back r ∧
      (t.onBranch p ⟨span, header, body, label⟩).1.1 =
        ⟨span, newHeader, unmark (t.onBody r off (t.onItems q body).1).1, label⟩ := by
  rw [onBranch]
  refine ⟨_, _, _, _, ?_, ?_, rfl⟩
  · exact t.back_onStatement _ _
  · exact (t.back_onStatement _ _).trans (t.back_onItems _ _)

/-- A block is its header and its body transformed, in this order. -/
theorem onBlock_spec (t : Transform) (p : Progress) (b : Block) :
    ∃ newHeader off q r, (p.enter (.block b)).Back q ∧ (p.enter (.block b)).Back r ∧
      (t.onBlock p b).1.1 =
        { b with
          header := newHeader
          body := unmark (t.onBody r off (t.onItems q b.body).1).1 } := by
  rw [onBlock]
  refine ⟨_, _, _, _, ?_, ?_, rfl⟩
  · exact t.back_onStatement _ _
  · exact (t.back_onStatement _ _).trans (t.back_onItems _ _)

mutual

/-- The regions inside an item are kept. -/
theorem Freezes.containers_onItem (h : t.Freezes between) {p : Progress} :
    ∀ item : BodyItem, KeepsAllRegions t.name Open item.steps (t.onItem p item).1.1.steps
  | .statement s => by
    rw [Transform.onItem, BodyItem.steps, BodyItem.steps]
    exact .nil
  | .control c => by
    rw [Transform.onItem, BodyItem.steps, BodyItem.steps]
    exact h.containers_onControl c

/-- The regions inside a control block are kept. -/
theorem Freezes.containers_onControl (h : t.Freezes between) {p : Progress} :
    ∀ c : ControlBlock, KeepsAllRegions t.name Open c.steps (t.onControl p c).1.1.steps
  | ⟨type, span, header, body, branches, close, label⟩ => by
    let c : ControlBlock := ⟨type, span, header, body, branches, close, label⟩
    have hin : (p.enter (.control c)).scope.InBody := Scope.InBody.enter rfl nofun
    obtain ⟨newHeader, off, newClose, q, r, hq, hr, heq⟩ :=
      t.onControl_spec p type span header body branches close label
    rw [heq, KeepsAllRegions, enteredContainers_control, enteredContainers_control,
      h.containers_onBody]
    have hpads : ¬ r.place.pads between := not_pads hr.ancestors fun _ hb => by cases hb
    refine .cons ?_ (List.rel_append ?_ ?_)
    · exact h.keeps_body (q := q) (r := r) rfl rfl (hq.inBody hin) fun hp => absurd hp hpads
    · exact h.containers_onItems body
    · exact h.containers_onBranches ((t.back_onItems q body).framed (hq.inBody hin).framed) branches

/-- The regions inside a body's items are kept. -/
theorem Freezes.containers_onItems (h : t.Freezes between) {p : Progress} :
    ∀ items : List BodyItem,
      KeepsAllRegions t.name Open (bodySteps items) (bodySteps (unmark (t.onItems p items).1))
  | [] => by
    rw [Transform.onItems]
    exact .nil
  | item :: items => by
    rw [onItems_cons, KeepsAllRegions, unmark, List.map_cons, bodySteps, bodySteps,
      enteredContainers_append, enteredContainers_append]
    exact List.rel_append (h.containers_onItem item) (h.containers_onItems items)

/-- The regions inside branches are kept. -/
theorem Freezes.containers_onBranches (h : t.Freezes between) {p : Progress}
    (hp : p.scope.frames ≠ []) : ∀ bs : List Branch,
      KeepsAllRegions t.name Open (branchesSteps bs)
        (branchesSteps (unmark (t.onBranches p bs).1))
  | [] => by
    rw [Transform.onBranches]
    exact .nil
  | ⟨span, header, body, label⟩ :: bs => by
    have hin : (p.enter (.branch ⟨span, header, body, label⟩)).scope.InBody :=
      Scope.InBody.enter rfl fun _ => hp
    obtain ⟨newHeader, off, q, r, hq, hr, heq⟩ := t.onBranch_spec p span header body label
    have hback := t.back_onBranch p ⟨span, header, body, label⟩
    have hbs := h.containers_onBranches (hback.framed hp) bs
    have hpads : ¬ r.place.pads between := not_pads hr.ancestors fun _ hb => by cases hb
    rw [Transform.onBranches, KeepsAllRegions, unmark, List.map_cons, heq,
      enteredContainers_branches, enteredContainers_branches, h.containers_onBody]
    refine .cons ?_ (List.rel_append ?_ ?_)
    · exact h.keeps_body (q := q) (r := r) rfl rfl (hq.inBody hin) fun hp => absurd hp hpads
    · exact h.containers_onItems body
    · exact hbs

end

/-- A block keeps its regions, unless its body is padded around an open one. -/
theorem Freezes.containers_onBlock (h : t.Freezes between) {b : Block}
    (hopen : p.blockFollows = true → between b.type ≠ 0 → ∀ region back : List Node,
      straddles (region.map Node.type) (back.map Node.type) = true → Open (.block b) region back) :
    KeepsAllRegions t.name Open b.steps (t.onBlock p b).1.1.steps := by
  have hin : (p.enter (.block b)).scope.InBody := Scope.InBody.enter rfl nofun
  obtain ⟨newHeader, off, q, r, hq, hr, heq⟩ := t.onBlock_spec p b
  rw [heq, KeepsAllRegions, enteredContainers_block, enteredContainers_block,
    h.containers_onBody]
  refine .cons ?_ (h.containers_onItems b.body)
  refine h.keeps_body (q := q) (r := r) rfl rfl (hq.inBody hin) ?_
  rintro ⟨c, hc, hfollows, hne⟩
  have hcb : Container.block b = .block c := by
    rw [Progress.place, Scope.parent?, hr.ancestors] at hc
    exact Option.some.inj hc
  obtain rfl := Container.block.inj hcb
  exact hopen (hr.blockFollows.symm.trans hfollows) hne

/-- The regions inside a section's items are kept. -/
theorem Freezes.containers_onSectionItems (h : t.Freezes between) {items : List SectionItem}
    (hopen : ∀ front b rest, items = front ++ .block b :: rest → rest.any (·.isBlock) = true →
      between b.type ≠ 0 → ∀ region back : List Node,
        straddles (region.map Node.type) (back.map Node.type) = true →
          Open (.block b) region back) :
    KeepsAllRegions t.name Open (items.flatMap SectionItem.steps)
      ((unmark (t.onSectionItems p items).1).flatMap SectionItem.steps) := by
  induction items generalizing p with
  | nil =>
    rw [onSectionItems]
    exact .nil
  | cons item items ih =>
    have hrest {p : Progress} : KeepsAllRegions t.name Open (items.flatMap SectionItem.steps)
        ((unmark (t.onSectionItems p items).1).flatMap SectionItem.steps) :=
      ih fun front b rest heq => hopen (item :: front) b rest (by rw [heq]; rfl)
    cases item with
    | statement s =>
      rw [onSectionItems]
      exact hrest
    | block b =>
      rw [onSectionItems, KeepsAllRegions, unmark, List.map_cons, List.flatMap_cons,
        List.flatMap_cons, enteredContainers_append, enteredContainers_append]
      exact List.rel_append (h.containers_onBlock (hopen [] b items rfl)) hrest

end

/-! ## Regions of sections -/

/-- Transforming a statement notes it, whatever is put in its place. -/
theorem scope_onStatement (t : Transform) (p : Progress) (s : Statement) :
    (t.onStatement p s).2.scope = p.scope.note s := by
  have hnext (q : Progress) : (if (p.scope.note s).disables t.name s then q.switchOff s
      else q).scope = q.scope := by
    split
    · exact q.scope_switchOff s
    · rfl
  have hcarry (q : Progress) (d : Decision Statement) :
      (q.carryOut s (replacementIssues s) d).2.scope = q.scope := by
    cases d with
    | put new =>
      rw [Progress.carryOut]
      split <;> rfl
    | _ => rfl
  rw [onStatement]
  dsimp only
  split
  · exact hnext _
  · exact (hcarry _ _).trans (hnext _)

end Transform

/-- What a statement does to the frames. -/
theorem Scope.frames_note (sc : Scope) (s : Statement) :
    (sc.note s).frames = sc.frames ∨ ∃ d, (sc.note s).frames =
      if sc.ancestors.head?.any (·.isHeaderless) then sc.frames.applyOuter d
      else sc.frames.applyInner d := by
  rw [note]
  split
  · cases s.directive? with
    | none => exact .inl rfl
    | some d =>
      refine .inr ⟨d, ?_⟩
      dsimp only
      split <;> rfl
  · exact .inl rfl

/-- A scope that hears directives goes on hearing them. -/
theorem Scope.Hears.note {sc : Scope} (h : sc.Hears) (s : Statement) : (sc.note s).Hears := by
  rw [Hears] at h ⊢
  rw [note_ancestors]
  rcases sc.frames_note s with heq | ⟨d, heq⟩
  · rwa [heq]
  · rw [heq]
    split at h <;> rename_i hh
    · obtain ⟨f, hf⟩ := h
      rw [if_pos hh, if_pos hh, hf]
      exact ⟨Frame.apply f d, rfl⟩
    · rw [if_neg hh, if_neg hh]
      rw [← List.length_pos_iff] at h ⊢
      rwa [Frames.length_applyInner]

/-- A scope in which directives take effect, and which is not that of a section without header,
is followed by such scopes. -/
theorem Progress.Back.hears {p q : Progress} (h : p.Back q)
    (hh : ¬ p.scope.ancestors.head?.any (·.isHeaderless) = true) (hp : p.scope.Hears) :
    q.scope.Hears := by
  rw [Scope.Hears] at hp ⊢
  rw [if_neg hh] at hp
  rw [h.ancestors, if_neg hh]
  exact h.framed hp

namespace Transform
variable {t : Transform} {between : BlockType → Nat} {p : Progress}

/-- The walk leaves a region of a section alone and marks all of it.  A section without header
holds no blocks. -/
theorem Freezes.onSectionItems_region (h : t.Freezes between) (hp : p.scope.Hears)
    {front region : List SectionItem} (back : List SectionItem)
    (hfront : p.scope.ancestors.head?.any (·.isHeaderless) = true → ∀ i ∈ front, i.isBlock = false)
    (hr : SwitchedOff t.name (region.map SectionItem.node)) :
    ∃ front' back', (t.onSectionItems p (front ++ region ++ back)).1 =
      front' ++ markAll region ++ back' := by
  induction front generalizing p with
  | nil =>
    obtain ⟨s, rest, rfl, hs, hd, hrest⟩ := hr.sectionItems
    have hoff := hp.disables_note hs hd
    obtain ⟨q, hstay, hscope⟩ := h.onStatement hoff
    obtain ⟨back', hsame⟩ := h.onSectionItems_off (p := q) (by rw [hscope]; exact hoff) hrest
    refine ⟨[], back', ?_⟩
    rw [List.nil_append, List.cons_append, Transform.onSectionItems, hstay]
    dsimp only
    rw [hsame]
    rfl
  | cons item front ih =>
    have hstep {q : Progress} (hq : q.scope.Hears)
        (ha : q.scope.ancestors = p.scope.ancestors) :
        ∃ front' back', (t.onSectionItems q (front ++ region ++ back)).1 =
          front' ++ markAll region ++ back' :=
      ih hq fun hh i hi => hfront (by rwa [ha] at hh) i (List.mem_cons_of_mem _ hi)
    cases item with
    | statement s =>
      have hscope := t.scope_onStatement p s
      obtain ⟨front', back', heq⟩ := hstep (q := (t.onStatement p s).2)
        (by rw [hscope]; exact hp.note s) (by rw [hscope, Scope.note_ancestors])
      refine ⟨(.statement (t.onStatement p s).1.1, (t.onStatement p s).1.2) :: front', back', ?_⟩
      rw [List.cons_append, List.cons_append, Transform.onSectionItems]
      dsimp only
      rw [heq]
      rfl
    | block b =>
      have hh : ¬ p.scope.ancestors.head?.any (·.isHeaderless) = true := fun hh =>
        Bool.noConfusion (hfront hh _ List.mem_cons_self)
      generalize hfollows :
        { p with blockFollows := (front ++ region ++ back).any (·.isBlock) } = p'
      have hback := t.back_onBlock p' b
      have hscope : p'.scope = p.scope := by rw [← hfollows]
      rw [← hscope] at hp hh
      obtain ⟨front', back', heq⟩ := hstep (hback.hears hh hp) (by rw [hback.ancestors, hscope])
      refine ⟨(.block (t.onBlock p' b).1.1, (t.onBlock p' b).1.2) :: front', back', ?_⟩
      rw [List.cons_append, List.cons_append, Transform.onSectionItems, hfollows]
      dsimp only
      rw [heq]
      rfl

/-- A region stays together when the section around it is left. -/
theorem Freezes.onSectionBody_region (h : t.Freezes between) {kind : SectionKind}
    {header : Option (Marked Statement)} {region : List SectionItem}
    {front back : List (Marked SectionItem)}
    (hr : SwitchedOff t.name (region.map SectionItem.node))
    (hl : leadsBlocks (unmark (front ++ markAll region ++ back))) :
    region <:+: unmark (t.onSectionBody p kind header (front ++ markAll region ++ back)).1 := by
  rw [onSectionBody]
  split
  · exact infix_unmark _ _ _
  · rw [← p.unmark_remark SectionItem.statements] at hl
    rw [Progress.remark_append, Progress.remark_append, Progress.remark_markAll] at hl ⊢
    dsimp only
    rcases (p.carryOut_spec _ (fun new => sectionIssues kind (unmark new))
      ((t.leaveSection p.place header _).guarded fun new => isUncheckable kind (unmark new))).2
      with heq | ⟨new, hput, -, heq⟩
    · rw [heq]
      exact infix_unmark _ _ _
    · rw [heq]
      have hsect := h.sect (Decision.guarded_eq_put_iff.1 hput).1
      rw [unmark_markAll] at hsect
      exact hsect (by simp [markAll]) hr hl

/-- Leaving a section keeps the containers inside it. -/
theorem Freezes.containers_onSectionBody (h : t.Freezes between) {kind : SectionKind}
    {header : Option (Marked Statement)} {items : List (Marked SectionItem)}
    (hl : leadsBlocks (unmark items)) :
    enteredContainers ((unmark (t.onSectionBody p kind header items).1).flatMap SectionItem.steps) =
      enteredContainers ((unmark items).flatMap SectionItem.steps) := by
  obtain ⟨-, heq | ⟨marked, new, hm, hput, -, heq⟩⟩ := t.onSectionBody_spec p kind header items
  · rw [heq]
  · rw [heq, enteredContainers_items, h.blocks hput (hm ▸ hl), hm, ← enteredContainers_items]

/-- A walk through blocks leads to blocks. -/
theorem blocks_onSectionItems (t : Transform) (p : Progress) (blocks : List Block) :
    ∃ new : List Block, unmark (t.onSectionItems p (blocks.map .block)).1 = new.map .block := by
  induction blocks generalizing p with
  | nil =>
    rw [List.map_nil, onSectionItems]
    exact ⟨[], rfl⟩
  | cons b blocks ih =>
    rw [List.map_cons, onSectionItems]
    generalize { p with blockFollows := (blocks.map SectionItem.block).any (·.isBlock) } = q
    obtain ⟨new, heq⟩ := ih (t.onBlock q b).2
    exact ⟨(t.onBlock q b).1.1 :: new, congrArg (_ :: ·) heq⟩

/-- What leads the blocks of a section stays. -/
theorem leadsBlocks_onSectionItems (t : Transform) {items : List SectionItem}
    (hl : leadsBlocks items) : leadsBlocks (unmark (t.onSectionItems p items).1) := by
  obtain ⟨lead, blocks, rfl⟩ := hl
  induction lead generalizing p with
  | nil =>
    obtain ⟨new, heq⟩ := t.blocks_onSectionItems p blocks
    exact ⟨[], new, heq⟩
  | cons s lead ih =>
    rw [List.map_cons, List.cons_append, onSectionItems]
    obtain ⟨lead, rest, heq⟩ := ih (p := (t.onStatement p s).2)
    exact ⟨(t.onStatement p s).1.1 :: lead, rest, congrArg (_ :: ·) heq⟩

/-- Directly in a file directives of a section take effect. -/
theorem hears_onHeader (t : Transform) {p : Progress} (hp : p.scope.frames.length = 1)
    (s : Section) : (t.onStatement? (p.enter (.sect s)) s.header).2.scope.Hears := by
  have hback := t.back_onStatement? (p.enter (.sect s)) s.header
  rw [Scope.Hears, hback.ancestors]
  show if s.header.isNone then _ else _
  cases hh : s.header with
  | none =>
    obtain ⟨f, hf⟩ := List.length_eq_one_iff.1 hp
    refine ⟨f, ?_⟩
    show (p.scope.enter (.sect s)).frames = _
    rw [Scope.enter, hf]
    simp [Container.header?, Container.isBranch, hh]
  | some header =>
    rw [hh] at hback
    exact hback.framed (List.cons_ne_nil _ _)

/-- What becomes of a section. -/
theorem onSection_spec (t : Transform) {p : Progress} (hp : p.scope.frames.length = 1)
    (s : Section) :
    ∃ newHeader header q r, q.scope.Hears ∧ q.scope.ancestors = .sect s :: p.scope.ancestors ∧
      (t.onSection p s).1 = { s with
        header := newHeader
        body := unmark (t.onSectionBody r s.kind header (t.onSectionItems q s.body).1).1 } := by
  rw [onSection]
  refine ⟨_, _, _, _, ?_, ?_, rfl⟩
  · exact t.hears_onHeader hp s
  · exact (t.back_onStatement? (p.enter (.sect s)) s.header).ancestors

end Transform

/-- A section as it is read: statements stand in front of blocks, and without header there are no
blocks. -/
structure Section.IsOrdered (s : Section) : Prop where
  leads : leadsBlocks s.body
  headerless : s.header = none → ∀ i ∈ s.body, i.isBlock = false

namespace Transform
variable {t : Transform} {between : BlockType → Nat} {p : Progress}
  {Open : Container → List Node → List Node → Prop}

/-- The regions of a section and inside it are kept. -/
theorem Freezes.containers_onSection (h : t.Freezes between) (hp : p.scope.frames.length = 1)
    {s : Section} (hs : s.IsOrdered)
    (hopen : ∀ front b rest, s.body = front ++ .block b :: rest → rest.any (·.isBlock) = true →
      between b.type ≠ 0 → ∀ region back : List Node,
        straddles (region.map Node.type) (back.map Node.type) = true →
          Open (.block b) region back) :
    KeepsAllRegions t.name Open s.steps (t.onSection p s).1.steps := by
  obtain ⟨newHeader, header, q, r, hq, ha, heq⟩ := t.onSection_spec hp s
  have hl := t.leadsBlocks_onSectionItems (p := q) hs.leads
  rw [heq, KeepsAllRegions, enteredContainers_section, enteredContainers_section,
    h.containers_onSectionBody hl]
  refine .cons ?_ (h.containers_onSectionItems hopen)
  intro front region back hchildren hr _
  have hchildren : s.body.map SectionItem.node = _ := hchildren
  obtain ⟨items, back, hbody, hfront, rfl⟩ := List.map_eq_append_iff.1 hchildren
  obtain ⟨front, region, rfl, rfl, rfl⟩ := List.map_eq_append_iff.1 hfront
  have hblocks : q.scope.ancestors.head?.any (·.isHeaderless) = true →
      ∀ i ∈ front, i.isBlock = false := by
    intro hh i hi
    rw [ha] at hh
    have hnone : s.header = none := by simpa [Container.isHeaderless] using hh
    refine hs.headerless hnone i ?_
    rw [hbody]
    simp [hi]
  obtain ⟨front', back', hwalk⟩ := h.onSectionItems_region hq back hblocks hr
  show _ <:+: (unmark (t.onSectionBody r s.kind header (t.onSectionItems q s.body).1).1).map
    SectionItem.node
  rw [hbody, hwalk] at hl ⊢
  exact (h.onSectionBody_region hr hl).map _

/-- The regions of all sections are kept. -/
theorem Freezes.containers_onSections (h : t.Freezes between) (hp : p.scope.frames.length = 1)
    {ss : List Section} (hs : ∀ s ∈ ss, s.IsOrdered)
    (hopen : ∀ s ∈ ss, ∀ front b rest, s.body = front ++ .block b :: rest →
      rest.any (·.isBlock) = true → between b.type ≠ 0 → ∀ region back : List Node,
        straddles (region.map Node.type) (back.map Node.type) = true →
          Open (.block b) region back) :
    KeepsAllRegions t.name Open (ss.flatMap Section.steps)
      ((t.onSections p ss).1.flatMap Section.steps) := by
  induction ss generalizing p with
  | nil =>
    rw [onSections]
    exact .nil
  | cons s ss ih =>
    rw [List.forall_mem_cons] at hs hopen
    rw [onSections, KeepsAllRegions, List.flatMap_cons, List.flatMap_cons,
      enteredContainers_append, enteredContainers_append]
    have hstart : ({ p with sectionFollows := !ss.isEmpty } : Progress).scope.frames.length = 1 :=
      hp
    generalize { p with sectionFollows := !ss.isEmpty } = q at hstart ⊢
    obtain ⟨b, hback⟩ := t.back_onSection q s
    have hp' : (t.onSection q s).2.scope.frames.length = 1 := hback.frames.trans hstart
    exact List.rel_append (h.containers_onSection hstart hs.1 hopen.1) (ih hp' hs.2 hopen.2)

end Transform

/-- A region that comments close stands in a block with a further block behind it, between which
empty lines are put: they come in front of these comments. -/
def File.PadsInside (f : File) (between : BlockType → Nat) (c : Container)
    (region back : List Node) : Prop :=
  ∃ s ∈ f.sections, ∃ front b rest, s.body = front ++ .block b :: rest ∧ c = .block b ∧
    rest.any (·.isBlock) = true ∧ between b.type ≠ 0 ∧
    straddles (region.map Node.type) (back.map Node.type) = true

/-- **A transform that heeds directives keeps every region together:** the containers of the new
file are those of the old one, in their order, and each holds what was switched off in it. -/
theorem Transform.Freezes.containers_run {t : Transform} {between : BlockType → Nat}
    (h : t.Freezes between) {f : File} (hf : ∀ s ∈ f.sections, s.IsOrdered) :
    List.Forall₂ (KeepsRegions t.name (f.PadsInside between)) f.containers
      (t.run f).tree.containers := by
  have hwalk : KeepsAllRegions t.name (f.PadsInside between) (f.sections.flatMap Section.steps)
      ((t.onSections (({} : Progress).enter (.file f)) f.sections).1.flatMap Section.steps) :=
    h.containers_onSections rfl hf fun s hs front b rest hbody hfollows hne region back hst =>
      ⟨s, hs, front, b, rest, hbody, rfl, hfollows, hne, hst⟩
  have hsections : (t.run f).tree.sections =
      (t.onSections (({} : Progress).enter (.file f)) f.sections).1 := by
    rw [run]
    rcases t.onFileBody_spec (t.onSections (({} : Progress).enter (.file f)) f.sections).2
      (t.onSections (({} : Progress).enter (.file f)) f.sections).1 with heq | ⟨new, hput, -, -⟩
    · exact heq
    · rw [h.file] at hput
      cases hput
  rw [enteredContainers_file, enteredContainers_file, hsections]
  refine .cons ?_ hwalk
  -- A file holds no statements of its own.
  intro front region back hchildren hr _
  obtain ⟨s, rest, rfl⟩ := hr.exists_eq_cons
  have hmem : Node.statement s ∈ (Container.file f).children := by
    rw [hchildren]
    simp
  obtain ⟨r, -, hr⟩ := List.mem_map.1 hmem
  cases hr

end RobotSuite
