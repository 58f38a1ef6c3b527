/-
# Spans tile the source

A span is the hull of some spans when it starts where the first of them starts and stops where the
last of them stops.  A hull of hulls is the hull of what these are around (`Span.IsHull.flatMap`),
and hulls are in line, one behind the other, when what they are around is (`Span.InLine.hulls`).

A container is closed with the span from the start of its header to the end of the last of its
parts, whichever that is: its END, its last branch, the last item of its body, or the header
itself.  So it is the hull of its parts (`Container.IsSnug`), which each step of nesting preserves
(`snugBody_nested`), and hence of its statements (`Container.IsSnug.isTight`).  The statements
are hulls of their tokens, and those lie end to end, so the spans of all nodes tile the source
(`spans_tile`).
-/

import Mathlib.Data.List.Chain
import RobotSuite.Location
import RobotSuite.Proofs.Token.Places
import RobotSuite.Proofs.Transform.FrozenRegions
import RobotSuite.Proofs.Tree.Fresh

namespace RobotSuite

namespace Span

/-- One span stops where the next one starts. -/
def Meets (a b : Span) : Prop := a.stop = b.start

/-- The span from the start of the first of some spans to the end of the last. -/
def IsHull (hull : Span) (spans : List Span) : Prop :=
  ∃ first ∈ spans.head?, ∃ last ∈ spans.getLast?, hull = ⟨first.start, last.stop⟩

/-- A span is its own hull. -/
theorem isHull_singleton (s : Span) : s.IsHull [s] := ⟨s, rfl, s, rfl, rfl⟩

/-- The hull reaches from the first start to the last stop. -/
theorem isHull_cons (first : Span) (rest : List Span) :
    IsHull ⟨first.start, (rest.getLast?.getD first).stop⟩ (first :: rest) :=
  ⟨first, rfl, _, List.getLast?_cons, rfl⟩

/-- The hull of spans reaches from the first to the last. -/
theorem isHull_of_ne_nil {spans : List Span} (h : spans ≠ []) :
    IsHull ⟨(spans.head h).start, (spans.getLast h).stop⟩ spans :=
  ⟨_, List.head?_eq_some_head h, _, List.getLast?_eq_some_getLast h, rfl⟩

/-- The same for the spans of a list. -/
theorem isHull_map {α : Type} {span : α → Span} {xs : List α} (h : xs ≠ []) :
    IsHull ⟨(span (xs.head h)).start, (span (xs.getLast h)).stop⟩ (xs.map span) := by
  have hmap : xs.map span ≠ [] := fun hnil => h (List.map_eq_nil_iff.1 hnil)
  have hhull := isHull_of_ne_nil hmap
  rwa [List.head_map, List.getLast_map] at hhull

section
variable {α : Type} {span : α → Span} {parts : α → List Span} {xs : List α}
variable (hxs : ∀ x ∈ xs, (span x).IsHull (parts x))
include hxs

/-- The first of some hulls starts where what they are around starts. -/
theorem start_of_hulls {first : Span} (h : first ∈ (xs.map span).head?) :
    ∃ s ∈ (xs.flatMap parts).head?, first.start = s.start := by
  cases xs with
  | nil => cases h
  | cons x xs =>
    obtain rfl := Option.some.inj h
    obtain ⟨s, hs, _, _, hspan⟩ := hxs x List.mem_cons_self
    exact ⟨s, by rw [List.flatMap_cons, List.head?_append, hs]; rfl, by rw [hspan]⟩

/-- The last of some hulls stops where what they are around stops. -/
theorem stop_of_hulls {last : Span} (h : last ∈ (xs.map span).getLast?) :
    ∃ s ∈ (xs.flatMap parts).getLast?, last.stop = s.stop := by
  obtain rfl | ⟨front, x, rfl⟩ := List.eq_nil_or_concat xs
  · cases h
  · rw [List.concat_eq_append] at h hxs ⊢
    rw [List.map_append, List.getLast?_append] at h
    have hlast : last = span x := (Option.some.inj h).symm
    obtain ⟨_, _, s, hs, hspan⟩ := hxs x (List.mem_append_right _ List.mem_cons_self)
    refine ⟨s, ?_, by rw [hlast, hspan]⟩
    rw [List.flatMap_append, List.flatMap_singleton, List.getLast?_append, hs]
    rfl

/-- **A hull of hulls** is the hull of what these are around. -/
theorem IsHull.flatMap {hull : Span} (h : hull.IsHull (xs.map span)) :
    hull.IsHull (xs.flatMap parts) := by
  obtain ⟨first, hfirst, last, hlast, rfl⟩ := h
  obtain ⟨s, hs, hstart⟩ := start_of_hulls hxs hfirst
  obtain ⟨t, ht, hstop⟩ := stop_of_hulls hxs hlast
  exact ⟨s, hs, t, ht, by rw [hstart, hstop]⟩

/-- Hulls of parts that meet meet. -/
theorem isChain_of_hulls (h : (xs.flatMap parts).IsChain Meets) : (xs.map span).IsChain Meets := by
  induction xs with
  | nil => exact .nil
  | cons x xs ih =>
    have hrest : ∀ y ∈ xs, (span y).IsHull (parts y) := fun y hy =>
      hxs y (List.mem_cons_of_mem _ hy)
    rw [List.flatMap_cons, List.isChain_append] at h
    refine List.isChain_cons.2 ⟨fun next hnext => ?_, ih hrest h.2.1⟩
    obtain ⟨_, _, last, hlast, hspan⟩ := hxs x List.mem_cons_self
    obtain ⟨first, hfirst, hstart⟩ := start_of_hulls hrest hnext
    have hmeets : last.stop = first.start := h.2.2 last hlast first hfirst
    exact (congrArg Span.stop hspan).trans (hmeets.trans hstart.symm)

end

/-! ## Spans in line -/

/-- Spans that meet one another, none of which stops in front of its start. -/
structure InLine (spans : List Span) : Prop where
  meets : spans.IsChain Meets
  forward : ∀ s ∈ spans, s.start.offset ≤ s.stop.offset

/-- Part of a line of spans is one. -/
theorem InLine.of_part {spans more : List Span} (h : InLine more) (hpart : spans <:+: more) :
    InLine spans := by
  refine ⟨?_, fun s hs => h.forward s (hpart.subset hs)⟩
  obtain ⟨front, back, rfl⟩ := hpart
  exact (List.isChain_append.1 (List.isChain_append.1 h.meets).1).2.1

/-- **Spans in line do not overlap.** -/
theorem InLine.pairwise {spans : List Span} (h : InLine spans) :
    spans.Pairwise fun a b => a.stop.offset ≤ b.start.offset := by
  induction spans with
  | nil => exact .nil
  | cons a spans ih =>
    have hpairwise := ih (h.of_part (List.suffix_cons a spans).isInfix)
    refine List.pairwise_cons.2 ⟨fun b hb => ?_, hpairwise⟩
    cases spans with
    | nil => cases hb
    | cons c spans =>
      have hmeets : a.stop = c.start := (List.isChain_cons.1 h.meets).1 c rfl
      rcases List.mem_cons.1 hb with rfl | hb
      · exact Int.le_of_eq (congrArg Location.offset hmeets)
      · have hc : c.start.offset ≤ c.stop.offset :=
          h.forward c (List.mem_cons_of_mem _ List.mem_cons_self)
        exact hmeets ▸ Int.le_trans hc ((List.pairwise_cons.1 hpairwise).1 b hb)

/-- The hull of a line of spans does not end before it starts. -/
theorem InLine.forward_hull {hull : Span} {spans : List Span} (h : InLine spans)
    (hhull : hull.IsHull spans) : hull.start.offset ≤ hull.stop.offset := by
  obtain ⟨first, hfirst, last, hlast, rfl⟩ := hhull
  cases spans with
  | nil => cases hfirst
  | cons s spans =>
    obtain rfl := Option.some.inj hfirst
    have hs := h.forward s List.mem_cons_self
    rcases List.mem_cons.1 (List.mem_of_getLast? hlast) with rfl | hmem
    · exact hs
    · have hlater : s.stop.offset ≤ last.start.offset :=
        (List.pairwise_cons.1 h.pairwise).1 last hmem
      exact Int.le_trans (Int.le_trans hs hlater) (h.forward last (List.mem_cons_of_mem _ hmem))

/-- What an element makes stands together. -/
theorem infix_flatMap {α β : Type} {f : α → List β} {xs : List α} {x : α} (h : x ∈ xs) :
    f x <:+: xs.flatMap f := by
  rw [List.flatMap_def]
  exact List.infix_of_mem_flatten (List.mem_map_of_mem h)

/-- **Hulls are in line** when what they are around is. -/
theorem InLine.hulls {α : Type} {span : α → Span} {parts : α → List Span} {xs : List α}
    (h : InLine (xs.flatMap parts)) (hxs : ∀ x ∈ xs, (span x).IsHull (parts x)) :
    InLine (xs.map span) := by
  refine ⟨isChain_of_hulls hxs h.meets, List.forall_mem_map.2 fun x hx => ?_⟩
  exact (h.of_part (infix_flatMap hx)).forward_hull (hxs x hx)

end Span

open Container.children (itemNode)

/-! ## Parts of containers -/

/-- The span of a node. -/
def Node.span : Node → Span
  | .statement s => s.span
  | .container c => c.span

/-- The nodes that a container is made of, in order: its header, its items, its branches, and its
END. -/
def Container.parts : Container → List Node
  | .file f => f.sections.map fun s => .container (.sect s)
  | .sect s => s.header.toList.map .statement ++ s.body.map SectionItem.node
  | .block b => .statement b.header :: b.body.map itemNode
  | .control c =>
    .statement c.header :: (c.body.map itemNode ++
      c.branches.map (fun b => .container (.branch b)) ++ c.close.toList.map .statement)
  | .branch b => .statement b.header :: b.body.map itemNode

/-- Whether a container spans its parts. -/
def Container.IsSnug (c : Container) : Prop := c.span.IsHull (c.parts.map Node.span)

/-- A body item and its node have one span. -/
@[simp] theorem span_itemNode (item : BodyItem) : (itemNode item).span = item.span := by
  cases item <;> rfl

/-- A section item and its node have one span. -/
@[simp] theorem span_node (item : SectionItem) : item.node.span = item.span := by
  cases item <;> rfl

/-- The nodes of a body span what its items do. -/
theorem map_span_itemNode (items : List BodyItem) :
    (items.map itemNode).map Node.span = items.map BodyItem.span := by
  rw [List.map_map]
  exact List.map_congr_left fun item _ => span_itemNode item

/-- The parts of a block are its header, items, branches and end. -/
theorem ControlBlock.span_parts (c : ControlBlock) : (Container.control c).parts.map Node.span =
    c.header.span :: (c.body.map BodyItem.span ++ c.branches.map Branch.span ++
      c.close.toList.map Statement.span) := by
  rw [Container.parts, List.map_cons, List.map_append, List.map_append, map_span_itemNode,
    List.map_map, List.map_map]
  rfl

/-- The nodes of a body hold its statements. -/
theorem flatMap_statements_itemNode (items : List BodyItem) :
    (items.map itemNode).flatMap Node.statements = bodyStatements items := by
  rw [bodyStatements_eq_flatMap, List.flatMap_map]
  exact List.flatMap_congr fun item _ => statements_itemNode item

/-- Statement nodes hold the statements. -/
theorem flatMap_statements_statement (ss : List Statement) :
    (ss.map Node.statement).flatMap Node.statements = ss := by
  rw [List.flatMap_map]
  exact List.flatMap_singleton' ss

/-- The statements of a container are those of its parts. -/
theorem Container.flatMap_parts (c : Container) :
    c.parts.flatMap Node.statements = c.statements := by
  cases c with
  | file f => rw [parts, List.flatMap_map]; rfl
  | sect s =>
    rw [parts, List.flatMap_append, flatMap_statements_statement, List.flatMap_map]
    exact congrArg _ (List.flatMap_congr fun item _ => statements_node item)
  | block b =>
    rw [parts, List.flatMap_cons, flatMap_statements_itemNode]
    rfl
  | control c =>
    obtain ⟨type, span, header, body, branches, close, label⟩ := c
    have hbranches : (branches.map fun b => Node.container (.branch b)).flatMap Node.statements =
        branchesStatements branches := by
      induction branches with
      | nil => rfl
      | cons b bs ih => rw [List.map_cons, List.flatMap_cons, ih]; rfl
    rw [parts, List.flatMap_cons, List.flatMap_append, List.flatMap_append,
      flatMap_statements_itemNode, hbranches, flatMap_statements_statement, statements,
      ControlBlock.statements]
    rfl
  | branch b =>
    obtain ⟨span, header, body, label⟩ := b
    rw [parts, List.flatMap_cons, flatMap_statements_itemNode, statements, Branch.statements]
    rfl

/-! ## Nesting -/

/-- Whether all containers in a body span their parts. -/
def SnugBody (items : List BodyItem) : Prop :=
  ∀ c ∈ enteredContainers (bodySteps items), c.IsSnug

/-- A body is snug when each item is. -/
theorem snugBody_iff {items : List BodyItem} :
    SnugBody items ↔ ∀ item ∈ items, SnugBody [item] := by
  induction items with
  | nil => exact ⟨fun _ => List.forall_mem_nil _, fun _ c hc => by rw [bodySteps] at hc; cases hc⟩
  | cons item items ih =>
    have hone : bodySteps [item] = item.steps := by rw [bodySteps, bodySteps, List.append_nil]
    rw [List.forall_mem_cons, ← ih, SnugBody, SnugBody, SnugBody, hone, bodySteps,
      enteredContainers_append, List.forall_mem_append]

/-- A statement is snug. -/
theorem snugBody_statement (s : Statement) : SnugBody [.statement s] := fun c hc => by
  rw [enteredContainers_body] at hc
  cases hc

/-- A body ends where its last item does, or its header if there is none. -/
theorem stop_endOfItems (items : List BodyItem) (header : Statement) :
    (endOfItems items).getD header.span.stop =
      ((items.map BodyItem.span).getLast?.getD header.span).stop := by
  rw [endOfItems, List.getLast?_map]
  cases items.getLast? <;> rfl

/-- What ends where its items do, or else its header, is around both. -/
theorem isHull_items (header : Statement) (items : List BodyItem) :
    Span.IsHull ⟨header.span.start, (endOfItems items).getD header.span.stop⟩
      ((Node.statement header :: items.map itemNode).map Node.span) := by
  rw [List.map_cons, map_span_itemNode, stop_endOfItems]
  exact Span.isHull_cons header.span (items.map BodyItem.span)

/-- A closed branch is snug. -/
theorem snug_closeBranch (header : Statement) (body : List BodyItem) :
    (Container.branch (closeBranch header body)).IsSnug :=
  isHull_items header body

/-- A control block ends where its END does, or else its last branch, its last item, or its header.
-/
theorem snug_of_stop {c : ControlBlock} (h : c.span = ⟨c.header.span.start, Option.getD
    (c.close.map (fun s => s.span.stop) <|> c.branches.getLast?.map (fun b => b.span.stop) <|>
      endOfItems c.body) c.header.span.stop⟩) : (Container.control c).IsSnug := by
  have hhull := Span.isHull_cons c.header.span (c.body.map BodyItem.span ++
    c.branches.map Branch.span ++ c.close.toList.map Statement.span)
  rw [Container.IsSnug, ControlBlock.span_parts, Container.span, h]
  convert hhull using 3
  rw [endOfItems, List.getLast?_append, List.getLast?_append, List.getLast?_map,
    List.getLast?_map, List.getLast?_map]
  cases c.close <;> cases c.branches.getLast? <;> cases c.body.getLast? <;> rfl

/-- **Each step** that closes a block makes it span its parts. -/
theorem snugBody_nested : NestedProperty fun item => SnugBody [item] where
  plain _ := snugBody_statement _
  close {b blockEnd} h _ := by
    have hbranches (bs : List (Statement × List BodyItem)) (hbs : ∀ p ∈ bs, SnugBody p.2) :
        ∀ c ∈ enteredContainers (branchesSteps (bs.map fun p => closeBranch p.1 p.2)),
          c.IsSnug := by
      induction bs with
      | nil =>
        intro c hc
        rw [List.map_nil, branchesSteps] at hc
        cases hc
      | cons p bs ih =>
        rw [List.forall_mem_cons] at hbs
        rw [List.map_cons, closeBranch, enteredContainers_branches, List.forall_mem_cons,
          List.forall_mem_append]
        exact ⟨snug_closeBranch p.1 p.2, hbs.1, ih hbs.2⟩
    have hclose : (Container.control (b.close blockEnd)).IsSnug := snug_of_stop rfl
    have hone : [BodyItem.control (b.close blockEnd)].filterMap BodyItem.control? =
        [b.close blockEnd] := rfl
    rw [SnugBody, enteredContainers_body, hone, List.flatMap_singleton]
    rw [OpenBlock.close] at hclose ⊢
    rw [enteredContainers_control, List.forall_mem_cons, List.forall_mem_append]
    exact ⟨hclose, snugBody_iff.2 h.body,
      hbranches b.branches fun p hp => snugBody_iff.2 (h.branches p hp).2⟩

/-- **A run:** all containers of a body span their parts. -/
theorem snug_nest (ss : List Statement) : SnugBody (nest ss).1 :=
  snugBody_iff.2 (snugBody_nested.forall_nest ss)

/-! ## Marks of comments -/

/-- The span of a container and those of its parts. -/
def Container.outline (c : Container) : Span × List Span := (c.span, c.parts.map Node.span)

/-- Being snug is told by the outlines. -/
theorem snug_of_outlines {cs ds : List Container}
    (h : cs.map Container.outline = ds.map Container.outline) (hds : ∀ c ∈ ds, c.IsSnug) :
    ∀ c ∈ cs, c.IsSnug := by
  intro c hc
  have hmem : c.outline ∈ ds.map Container.outline := h ▸ List.mem_map_of_mem hc
  obtain ⟨d, hd, houtline⟩ := List.mem_map.1 hmem
  have hsnug : d.outline.1.IsHull d.outline.2 := hds d hd
  rwa [houtline] at hsnug

/-- Marking keeps the spans of a body. -/
theorem map_span_markOwnedBody (items : List BodyItem) :
    (markOwnedBody items).map BodyItem.span = items.map BodyItem.span := by
  induction items with
  | nil => rfl
  | cons item items ih =>
    cases item with
    | statement s =>
      rw [markOwnedBody, List.map_cons, List.map_cons, ih]
      exact congrArg (· :: _) (s.markOwned_span _)
    | control c =>
      rw [markOwnedBody, List.map_cons, List.map_cons, ih]
      cases c
      rfl

/-- Marking keeps the spans of branches. -/
theorem map_span_markOwnedBranches (bs : List Branch) :
    (markOwnedBranches bs).map Branch.span = bs.map Branch.span := by
  induction bs with
  | nil => rfl
  | cons b bs ih =>
    obtain ⟨span, header, body, label⟩ := b
    rw [markOwnedBranches, List.map_cons, List.map_cons, ih]

/-- Marking keeps the spans of a section's items. -/
theorem map_span_markOwnedItems (items : List SectionItem) :
    (markOwnedItems items).map SectionItem.span = items.map SectionItem.span := by
  induction items with
  | nil => rfl
  | cons item items ih =>
    cases item with
    | statement s =>
      rw [markOwnedItems, List.map_cons, List.map_cons, ih]
      exact congrArg (· :: _) (s.markOwned_span _)
    | block b => rw [markOwnedItems, List.map_cons, List.map_cons, ih]; rfl

mutual

/-- Marking keeps the outlines in a body. -/
theorem outlines_markOwnedBody : ∀ items : List BodyItem,
    (enteredContainers (bodySteps (markOwnedBody items))).map Container.outline =
      (enteredContainers (bodySteps items)).map Container.outline
  | [] => rfl
  | .statement s :: items => by
    rw [markOwnedBody, bodySteps, bodySteps, enteredContainers_append, enteredContainers_append,
      List.map_append, List.map_append, outlines_markOwnedBody items]
    rfl
  | .control ⟨type, span, header, body, branches, close, label⟩ :: items => by
    have houtline : (Container.control ⟨type, span, header, markOwnedBody body,
          markOwnedBranches branches, close, label⟩).outline =
        (Container.control ⟨type, span, header, body, branches, close, label⟩).outline := by
      rw [Container.outline, Container.outline, ControlBlock.span_parts, ControlBlock.span_parts,
        map_span_markOwnedBody, map_span_markOwnedBranches]
      rfl
    rw [markOwnedBody, bodySteps, bodySteps, enteredContainers_append, enteredContainers_append,
      List.map_append, List.map_append, outlines_markOwnedBody items, ControlBlock.markOwned,
      BodyItem.steps, BodyItem.steps, enteredContainers_control, enteredContainers_control,
      List.map_cons, List.map_cons, List.map_append, List.map_append,
      outlines_markOwnedBody body, outlines_markOwnedBranches branches, houtline]

/-- Marking keeps the outlines in branches. -/
theorem outlines_markOwnedBranches : ∀ bs : List Branch,
    (enteredContainers (branchesSteps (markOwnedBranches bs))).map Container.outline =
      (enteredContainers (branchesSteps bs)).map Container.outline
  | [] => rfl
  | ⟨span, header, body, label⟩ :: bs => by
    have houtline : (Container.branch ⟨span, header, markOwnedBody body, label⟩).outline =
        (Container.branch ⟨span, header, body, label⟩).outline := by
      simp only [Container.outline, Container.parts, List.map_cons, map_span_itemNode,
        map_span_markOwnedBody]
      rfl
    rw [markOwnedBranches, enteredContainers_branches, enteredContainers_branches, List.map_cons,
      List.map_cons, List.map_append, List.map_append, outlines_markOwnedBody body,
      outlines_markOwnedBranches bs, houtline]

end

/-- Marking keeps the outlines in a block. -/
theorem outlines_markOwnedItem (b : Block) :
    (enteredContainers ({ b with body := markOwnedBody b.body } : Block).steps).map
        Container.outline = (enteredContainers b.steps).map Container.outline := by
  have houtline : (Container.block { b with body := markOwnedBody b.body }).outline =
      (Container.block b).outline := by
    simp only [Container.outline, Container.parts, List.map_cons, map_span_itemNode,
      map_span_markOwnedBody]
    rfl
  rw [enteredContainers_block, enteredContainers_block, List.map_cons, List.map_cons, houtline,
    outlines_markOwnedBody]

/-! ## Sections -/

/-- Whether all containers in the items of a section span their parts. -/
def SnugItems (items : List SectionItem) : Prop :=
  ∀ item ∈ items, ∀ c ∈ enteredContainers item.steps, c.IsSnug

/-- Marking keeps items snug. -/
theorem snugItems_markOwned {items : List SectionItem} (h : SnugItems items) :
    SnugItems (markOwnedItems items) := by
  induction items with
  | nil => exact h
  | cons item items ih =>
    obtain ⟨hitem, hitems⟩ := List.forall_mem_cons.1 h
    cases item with
    | statement s => exact List.forall_mem_cons.2 ⟨fun c hc => (nomatch hc), ih hitems⟩
    | block b =>
      exact List.forall_mem_cons.2
        ⟨snug_of_outlines (outlines_markOwnedItem b) hitem, ih hitems⟩

/-- A built block is snug. -/
theorem snug_buildBlock (type : BlockType) (header : Statement) (ss : List Statement) :
    ∀ c ∈ enteredContainers (buildBlock type header ss).1.steps, c.IsSnug := by
  rw [enteredContainers_block, List.forall_mem_cons]
  exact ⟨isHull_items header (nest ss).1, snug_nest ss⟩

/-- The items of a block's part are snug. -/
theorem snugItems_blockPart (owner : BlockType) (p : Option Statement × List Statement) :
    SnugItems (blockPart owner p).1 := by
  obtain ⟨_ | header, ss⟩ := p
  · intro item hitem
    simp only [blockPart, List.map_map, List.mem_map, Function.comp_apply] at hitem
    obtain ⟨s, -, rfl⟩ := hitem
    rw [leadingItem]
    split <;> intro c hc <;> cases hc
  · exact List.forall_mem_singleton.2 (snug_buildBlock _ header ss)

/-- The items of a section are snug. -/
theorem snugItems_buildItems (kind : SectionKind) (groups : List (List Token)) :
    SnugItems (buildItems kind groups).1 := by
  unfold buildItems
  split
  · intro item hitem
    obtain ⟨s, -, rfl⟩ := List.mem_map.1 hitem
    exact fun c hc => nomatch hc
  · rename_i owner _
    intro item hitem
    obtain ⟨p, hp, hitem⟩ := List.mem_flatMap.1 hitem
    obtain ⟨q, -, rfl⟩ := List.mem_map.1 hp
    exact snugItems_blockPart owner q item hitem

/-- A section spans its header and its items. -/
theorem isHull_sectionSpan {header : Option Statement} {items : List SectionItem}
    (h : (header.map fun h => h.span).toList ++ items.map (fun i => i.span) ≠ []) :
    (sectionSpan header items).IsHull
      ((header.map fun h => h.span).toList ++ items.map fun i => i.span) := by
  rw [sectionSpan]
  generalize (header.map fun h => h.span).toList ++ items.map (fun i => i.span) = spans at h
  rw [List.head?_eq_some_head h, List.getLast?_eq_some_getLast h]
  exact Span.isHull_of_ne_nil h

/-- The section that is made of the tokens of a header and of statements spans its parts. -/
theorem snug_buildSection {header : Option (List Token)} {groups : List (List Token)}
    (h : header.toList ++ groups ≠ []) :
    let s := (buildSection header groups).1
    ∀ c ∈ enteredContainers ({ s with body := markOwnedItems s.body } : Section).steps,
      c.IsSnug := by
  intro s
  rw [enteredContainers_section, List.forall_mem_cons, enteredContainers_flatMap,
    List.forall_mem_flatMap]
  refine ⟨?_, snugItems_markOwned (snugItems_buildItems _ groups)⟩
  have hstatements : s.statements ≠ [] := by
    rw [← tokenLists_buildSection] at h
    exact fun hnil => h (congrArg tokenLists hnil)
  have hne : (s.header.map fun h => h.span).toList ++ s.body.map (fun i => i.span) ≠ [] := by
    intro hnil
    rw [List.append_eq_nil_iff, List.map_eq_nil_iff, Option.toList_eq_nil_iff,
      Option.map_eq_none_iff] at hnil
    exact hstatements (by rw [Section.statements, hnil.1, hnil.2]; rfl)
  have hparts : (Container.sect { s with body := markOwnedItems s.body }).parts.map Node.span =
      (s.header.map fun h => h.span).toList ++ s.body.map fun i => i.span := by
    rw [Container.parts, List.map_append, List.map_map, List.map_map, ← map_span_markOwnedItems]
    refine congrArg₂ (· ++ ·) ?_ (List.map_congr_left fun item _ => span_node item)
    cases s.header <;> rfl
  rw [Container.IsSnug, hparts]
  exact isHull_sectionSpan hne

/-- **Every container that is read spans its parts.** -/
theorem snug_parseTokens (lines : List (List Token)) :
    (∀ s ∈ (parseTokens lines).sections, ∀ c ∈ enteredContainers s.steps, c.IsSnug) ∧
      ((parseTokens lines).sections ≠ [] → (Container.file (parseTokens lines)).IsSnug) := by
  constructor
  · intro s hs
    simp only [parseTokens, List.map_map, List.mem_map, Function.comp_apply] at hs
    obtain ⟨p, hp, rfl⟩ := hs
    exact snug_buildSection (splitParts_ne_nil p hp)
  · intro hne
    have hspan : (parseTokens lines).span =
        ⟨((parseTokens lines).sections.head?.map fun s => s.span.start).getD .origin,
          ((parseTokens lines).sections.getLast?.map fun s => s.span.stop).getD .origin⟩ := rfl
    rw [Container.IsSnug, Container.span, hspan, Container.parts, List.map_map]
    generalize (parseTokens lines).sections = sections at hne
    rw [List.head?_eq_some_head hne, List.getLast?_eq_some_getLast hne]
    exact Span.isHull_map hne

/-! ## From parts to statements -/

/-- Whether a node spans its statements. -/
def Node.IsTight (n : Node) : Prop := n.span.IsHull (n.statements.map (·.span))

/-- Whether the parts of a container span their statements. -/
def Container.HasTightParts (c : Container) : Prop := ∀ n ∈ c.parts, n.IsTight

/-- A statement is tight. -/
theorem isTight_statement (s : Statement) : (Node.statement s).IsTight :=
  Span.isHull_singleton s.span

/-- A container that spans its parts spans their statements. -/
theorem Container.IsSnug.isTight {c : Container} (h : c.IsSnug) (hparts : c.HasTightParts) :
    (Node.container c).IsTight := by
  have hhull := Span.IsHull.flatMap hparts h
  rwa [← List.map_flatMap, c.flatMap_parts] at hhull

/-- Statements are tight. -/
theorem forall_tight_statements (ss : List Statement) :
    ∀ n ∈ ss.map Node.statement, n.IsTight :=
  List.forall_mem_map.2 fun s _ => isTight_statement s

/-- A container whose parts span their statements, and whose own statements stand together among
some statements. -/
structure Container.IsTiled (c : Container) (ss : List Statement) : Prop where
  parts : c.HasTightParts
  within : c.statements <:+: ss

/-- A container tiled by statements is tiled in more of them. -/
theorem Container.IsTiled.mono {c : Container} {ss rs : List Statement} (h : c.IsTiled ss)
    (hwithin : ss <:+: rs) : c.IsTiled rs := ⟨h.parts, h.within.trans hwithin⟩

mutual

/-- A snug body is tight, and its containers are tiled. -/
theorem tight_body : ∀ items : List BodyItem, SnugBody items →
    (∀ n ∈ items.map itemNode, n.IsTight) ∧
      ∀ c ∈ enteredContainers (bodySteps items), c.IsTiled (bodyStatements items)
  | [], _ => ⟨List.forall_mem_nil _, fun c hc => by rw [bodySteps] at hc; cases hc⟩
  | .statement s :: items, h => by
    rw [SnugBody, bodySteps, enteredContainers_append, List.forall_mem_append] at h
    obtain ⟨hnodes, hinner⟩ := tight_body items h.2
    refine ⟨List.forall_mem_cons.2 ⟨isTight_statement s, hnodes⟩, ?_⟩
    rw [bodySteps, BodyItem.steps, enteredContainers_append]
    exact fun c hc => (hinner c hc).mono (List.suffix_append [s] _).isInfix
  | .control ⟨type, span, header, body, branches, close, label⟩ :: items, h => by
    rw [SnugBody, bodySteps, BodyItem.steps, enteredContainers_append, enteredContainers_control,
      List.forall_mem_append, List.forall_mem_cons, List.forall_mem_append] at h
    obtain ⟨⟨hself, hbody, hbranches⟩, hitems⟩ := h
    obtain ⟨hbodyNodes, hbodyInner⟩ := tight_body body hbody
    obtain ⟨hbranchNodes, hbranchInner⟩ := tight_branches branches hbranches
    obtain ⟨hnodes, hinner⟩ := tight_body items hitems
    have hparts : (Container.control
        ⟨type, span, header, body, branches, close, label⟩).HasTightParts :=
      List.forall_mem_cons.2 ⟨isTight_statement header, List.forall_mem_append.2
        ⟨List.forall_mem_append.2 ⟨hbodyNodes, hbranchNodes⟩, forall_tight_statements _⟩⟩
    refine ⟨List.forall_mem_cons.2 ⟨hself.isTight hparts, hnodes⟩, ?_⟩
    rw [bodySteps, BodyItem.steps, enteredContainers_append, enteredContainers_control,
      List.forall_mem_append, List.forall_mem_cons, List.forall_mem_append, bodyStatements,
      BodyItem.statements, ControlBlock.statements]
    refine ⟨⟨⟨hparts, ?_⟩, fun c hc => (hbodyInner c hc).mono ?_,
      fun c hc => (hbranchInner c hc).mono ?_⟩, fun c hc => (hinner c hc).mono ?_⟩
    · rw [Container.statements, ControlBlock.statements]
      exact (List.prefix_append _ _).isInfix
    · exact ⟨[header], branchesStatements branches ++ close.toList ++ bodyStatements items, by simp⟩
    · exact ⟨header :: bodyStatements body, close.toList ++ bodyStatements items, by simp⟩
    · exact (List.suffix_append _ _).isInfix

/-- Snug branches are tight, and their containers are tiled. -/
theorem tight_branches : ∀ bs : List Branch,
    (∀ c ∈ enteredContainers (branchesSteps bs), c.IsSnug) →
      (∀ n ∈ bs.map (fun b => Node.container (.branch b)), n.IsTight) ∧
        ∀ c ∈ enteredContainers (branchesSteps bs), c.IsTiled (branchesStatements bs)
  | [], _ => ⟨List.forall_mem_nil _, fun c hc => by rw [branchesSteps] at hc; cases hc⟩
  | ⟨span, header, body, label⟩ :: bs, h => by
    rw [enteredContainers_branches, List.forall_mem_cons, List.forall_mem_append] at h
    obtain ⟨hself, hbody, hbranches⟩ := h
    obtain ⟨hbodyNodes, hbodyInner⟩ := tight_body body hbody
    obtain ⟨hnodes, hinner⟩ := tight_branches bs hbranches
    have hparts : (Container.branch ⟨span, header, body, label⟩).HasTightParts :=
      List.forall_mem_cons.2 ⟨isTight_statement header, hbodyNodes⟩
    refine ⟨List.forall_mem_cons.2 ⟨hself.isTight hparts, hnodes⟩, ?_⟩
    rw [enteredContainers_branches, List.forall_mem_cons, List.forall_mem_append,
      branchesStatements, Branch.statements]
    refine ⟨⟨hparts, ?_⟩, fun c hc => (hbodyInner c hc).mono ?_, fun c hc => (hinner c hc).mono ?_⟩
    · rw [Container.statements, Branch.statements]
      exact (List.prefix_append _ _).isInfix
    · exact ⟨[header], branchesStatements bs, by simp⟩
    · exact (List.suffix_append _ _).isInfix

end

/-- A snug item is tight, and its containers are tiled. -/
theorem tight_item {item : SectionItem} (h : ∀ c ∈ enteredContainers item.steps, c.IsSnug) :
    item.node.IsTight ∧ ∀ c ∈ enteredContainers item.steps, c.IsTiled item.statements := by
  cases item with
  | statement s => exact ⟨isTight_statement s, fun c hc => nomatch hc⟩
  | block b =>
    rw [SectionItem.steps, enteredContainers_block, List.forall_mem_cons] at h
    obtain ⟨hnodes, hinner⟩ := tight_body b.body h.2
    have hparts : (Container.block b).HasTightParts :=
      List.forall_mem_cons.2 ⟨isTight_statement b.header, hnodes⟩
    rw [SectionItem.steps, enteredContainers_block, List.forall_mem_cons]
    exact ⟨h.1.isTight hparts, ⟨hparts, List.infix_rfl⟩,
      fun c hc => (hinner c hc).mono (List.suffix_cons _ _).isInfix⟩

/-- A snug section is tight, and its containers are tiled. -/
theorem tight_section {s : Section} (h : ∀ c ∈ enteredContainers s.steps, c.IsSnug) :
    (Node.container (.sect s)).IsTight ∧
      ∀ c ∈ enteredContainers s.steps, c.IsTiled s.statements := by
  rw [enteredContainers_section, List.forall_mem_cons, enteredContainers_flatMap,
    List.forall_mem_flatMap] at h
  have hparts : (Container.sect s).HasTightParts := List.forall_mem_append.2
    ⟨forall_tight_statements _, List.forall_mem_map.2 fun i hi => (tight_item (h.2 i hi)).1⟩
  rw [enteredContainers_section, List.forall_mem_cons, enteredContainers_flatMap,
    List.forall_mem_flatMap]
  refine ⟨h.1.isTight hparts, ⟨hparts, List.infix_rfl⟩, fun item hitem c hc => ?_⟩
  have hitems : item.statements <:+: itemsStatements s.body :=
    Span.infix_flatMap hitem
  exact ((tight_item (h.2 item hitem)).2 c hc).mono
    (hitems.trans (List.suffix_append s.header.toList _).isInfix)

/-- The containers of a snug file are tiled. -/
theorem tight_file {f : File} (h : ∀ s ∈ f.sections, ∀ c ∈ enteredContainers s.steps, c.IsSnug) :
    ∀ c ∈ f.containers, c.IsTiled f.statements := by
  rw [enteredContainers_file, List.forall_mem_cons, enteredContainers_flatMap,
    List.forall_mem_flatMap]
  refine ⟨⟨List.forall_mem_map.2 fun s hs => (tight_section (h s hs)).1, List.infix_rfl⟩,
    fun s hs c hc => ?_⟩
  exact ((tight_section (h s hs)).2 c hc).mono (Span.infix_flatMap hs)

/-! ## From statements to tokens -/

/-- The span of tokens is their hull. -/
theorem isHull_spanOfTokens {ts : List Token} (h : ts ≠ []) :
    (spanOfTokens ts).IsHull (ts.map (·.span)) := by
  rw [spanOfTokens, List.head?_eq_some_head h, List.getLast?_eq_some_getLast h]
  exact Span.isHull_map h

/-- What is read from lines that are not empty spans its tokens. -/
theorem isHull_statement {lines : List (List Token)} (h : ∀ line ∈ lines, line ≠ []) :
    ∀ s ∈ (parseTokens lines).statements, s.span.IsHull (s.tokens.map (·.span)) := by
  intro s hs
  have htokens : s.tokens ∈ tokenLists (parseTokens lines).statements := List.mem_map_of_mem hs
  rw [tokenLists_parseTokens] at htokens
  rw [(fresh_parseTokens lines s hs).1.span]
  exact isHull_spanOfTokens (ne_nil_of_mem_groups h s.tokens htokens)

/-- Spans each of which stops where the next one starts, as their ends tell. -/
theorem isChain_of_starts {spans : List Span} {first last : Location}
    (h : spans.map (·.start) ++ [last] = first :: spans.map (·.stop)) :
    spans.IsChain Span.Meets := by
  induction spans generalizing first with
  | nil => exact .nil
  | cons a spans ih =>
    obtain ⟨-, hrest⟩ := List.cons.inj h
    refine List.isChain_cons.2 ⟨fun b hb => ?_, ih hrest⟩
    cases spans with
    | nil => cases hb
    | cons c spans =>
      obtain rfl := Option.some.inj hb
      exact (List.cons.inj hrest).1.symm

/-- The tokens of a source stand in line. -/
theorem inLine_tokens (source : String) :
    Span.InLine ((tokenize source).flatten.map (·.span)) := by
  obtain ⟨-, hplaces, hends⟩ := tokens_placed source
  constructor
  · refine @isChain_of_starts _ (.inSource source 0) (.inSource source (Text.length source)) ?_
    rw [List.map_map, List.map_map]
    exact hends
  · refine List.forall_mem_map.2 fun t ht => ?_
    obtain ⟨k, hk⟩ := List.mem_iff_getElem?.1 ht
    obtain ⟨hstart, hstop⟩ := hplaces k t hk
    rw [hstart, hstop]
    exact Int.ofNat_le.2 (Nat.le_add_right _ _)

/-! ## Sources -/

/-- Whether a span starts where the first token of the first of some statements starts, and stops
where the last token of the last of them stops. -/
def Span.Covers (span : Span) (ss : List Statement) : Prop :=
  ∃ first ∈ ss.head?, ∃ last ∈ ss.getLast?, ∃ t ∈ first.tokens.head?, ∃ u ∈ last.tokens.getLast?,
    span = ⟨t.span.start, u.span.stop⟩

/-- A hull of statements covers their tokens. -/
theorem Span.IsHull.covers {span : Span} {ss : List Statement} (h : span.IsHull (ss.map (·.span)))
    (hss : ∀ s ∈ ss, s.span.IsHull (s.tokens.map (·.span))) : span.Covers ss := by
  obtain ⟨r, hr, q, hq, rfl⟩ := h
  rw [List.head?_map] at hr
  rw [List.getLast?_map] at hq
  obtain ⟨first, hfirst, rfl⟩ := Option.map_eq_some_iff.1 hr
  obtain ⟨last, hlast, rfl⟩ := Option.map_eq_some_iff.1 hq
  obtain ⟨r, hr, _, _, hstart⟩ := hss first (List.mem_of_head? hfirst)
  obtain ⟨_, _, q, hq, hstop⟩ := hss last (List.mem_of_getLast? hlast)
  rw [List.head?_map] at hr
  rw [List.getLast?_map] at hq
  obtain ⟨t, ht, rfl⟩ := Option.map_eq_some_iff.1 hr
  obtain ⟨u, hu, rfl⟩ := Option.map_eq_some_iff.1 hq
  exact ⟨first, hfirst, last, hlast, t, ht, u, hu, by rw [hstart, hstop]⟩

/-- **Spans tile the source.**  Each statement of a model that was read spans its tokens, and each
container the tokens of its statements, but for a file without sections.  The spans of the
statements meet one another, in the order in which they are written.  So do those of the parts of
each container, which hence do not overlap, and the container spans just these. -/
theorem spans_tile (source : String) :
    (∀ s ∈ (parse source).statements, s.span.Covers [s]) ∧
      ((parse source).statements.map (·.span)).IsChain Span.Meets ∧
      ∀ c ∈ (parse source).containers,
        (c.span.Covers c.statements ∧ c.span.IsHull (c.parts.map Node.span) ∨
          c = .file (parse source) ∧ (parse source).sections = []) ∧
        (c.parts.map Node.span).IsChain Span.Meets ∧
        (c.parts.map Node.span).Pairwise fun a b => a.stop.offset ≤ b.start.offset := by
  let f := parse source
  have hstatements : ∀ s ∈ f.statements, s.span.IsHull (s.tokens.map (·.span)) :=
    isHull_statement fun line => ne_nil_of_mem_tokenize
  have htokens : (tokenize source).flatten.map (·.span) =
      f.statements.flatMap fun s => s.tokens.map (·.span) := by
    rw [← List.map_flatMap]
    exact congrArg _ (tokensOf_parseTokens (tokenize source)).symm
  have hline : Span.InLine (f.statements.map (·.span)) :=
    (htokens ▸ inLine_tokens source).hulls hstatements
  obtain ⟨hsnug, hfile⟩ := snug_parseTokens (tokenize source)
  refine ⟨fun s hs => ?_, hline.meets, fun c hc => ?_⟩
  · exact Span.IsHull.covers (Span.isHull_singleton s.span)
      (List.forall_mem_singleton.2 (hstatements s hs))
  · obtain ⟨hparts, hwithin⟩ := tight_file hsnug c hc
    have hinner : Span.InLine (c.parts.flatMap fun n => n.statements.map (·.span)) := by
      rw [← List.map_flatMap, c.flatMap_parts]
      exact hline.of_part (hwithin.map _)
    have hpartsLine : Span.InLine (c.parts.map Node.span) := hinner.hulls hparts
    refine ⟨?_, hpartsLine.meets, hpartsLine.pairwise⟩
    have hcovers (h : c.IsSnug) : c.span.Covers c.statements :=
      (h.isTight hparts).covers fun s hs => hstatements s (hwithin.subset hs)
    rcases List.mem_cons.1 (enteredContainers_file f ▸ hc) with rfl | hinside
    · by_cases hnil : f.sections = []
      · exact .inr ⟨rfl, hnil⟩
      · exact .inl ⟨hcovers (hfile hnil), hfile hnil⟩
    · obtain ⟨s, hs, hcs⟩ := List.mem_flatMap.1 (enteredContainers_flatMap _ _ ▸ hinside)
      exact .inl ⟨hcovers (hsnug s hs c hcs), hsnug s hs c hcs⟩

end RobotSuite
