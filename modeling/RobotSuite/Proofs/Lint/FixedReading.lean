/-
# Reading what has been fixed

The plan of a statement leaves its lines (`editsLines_group`), and its data becomes what the plan
makes of it (`Renewed`).  The statement is placed as before then, and it asks for no change any
more (`take_renewed`).  A call that has become the header of a branch opens and closes nothing, so
what stands behind it is read as before too.
-/

import RobotSuite.Proofs.Lint.FixedLines

namespace RobotSuite

/-! ## What a group of lines is read as -/

section
variable {r : Reading} {g : List Token}

/-- A statement that fits the open blocks keeps its type, another becomes an error. -/
theorem keep_type {opened : List Statement} {s : Statement} :
    (keep opened s).type = if (misfit? opened s).isSome then .error else s.type := by
  rw [keep]
  cases misfit? opened s with
  | none => rfl
  | some d =>
    rw [Option.map_some, Option.getD_some, asError]
    split <;> rfl

/-- A header line opens a section. -/
theorem take_of_header (h : isHeaderLine g = true) : r.take g = Reading.header g := if_pos h

/-- What is no header is read as it is classified, or as an error. -/
theorem type_take (h : isHeaderLine g = false) : (r.take g).1.type = .error ∨
    (r.take g).1.type = (classify r.kind g).1.type := by
  rw [Reading.take, if_neg (by simp [h])]
  dsimp only
  split
  · exact .inr rfl
  · simp only [placeInSection]
    split
    · exact .inr rfl
    · split
      · rw [leadingItem]
        split
        · exact .inr rfl
        · exact .inl rfl
      · simp only [placeInBody, Occurrence.inSection, keep_type]
        split
        · exact .inl rfl
        · exact .inr rfl

/-- What the type of a statement follows from. -/
theorem type_classify (kind : SectionKind) (g : List Token) : (classify kind g).1.type =
    if g.any (·.kind == .unknown) || isContinuationLine g then .error
    else if (dataTokens g).isEmpty then
      if (commentTokens g).isEmpty then .emptyLine else .comment
    else if kind.isInherited then .error else dataType kind (dataTokens g) := by
  unfold classify
  split
  · rename_i t ht
    have hkind : (t.kind == .unknown) = true := by simpa using List.find?_some ht
    have hany : g.any (·.kind == .unknown) = true :=
      List.any_eq_true.2 ⟨t, List.mem_of_find?_eq_some ht, hkind⟩
    rw [hany]
    rfl
  · rename_i hnone
    have hany : g.any (·.kind == .unknown) = false := by
      rw [List.any_eq_false]
      exact List.find?_eq_none.1 hnone
    rw [hany, Bool.false_or]
    dsimp only
    split
    · rfl
    · split
      · split <;> rfl
      · split
        · rfl
        · rw [checkSetting]
          split <;> rfl

/-- No line of a body is read as a header. -/
theorem classify_type_ne_header (kind : SectionKind) :
    (classify kind g).1.type ≠ .sectionHeader := by
  rw [type_classify]
  split
  · simp
  · split
    · split <;> simp
    · split
      · simp
      · exact (dataType_ne kind (dataTokens g)).2.1

/-- Control characters are for errors, and headers for headers. -/
theorem plan_take (on : String → Bool) (h : isHeaderLine g = false) :
    (r.take g).1.type ≠ .sectionHeader ∧
      (g.any (·.kind == .unknown) = true → (r.take g).1.plan on = []) := by
  constructor
  · rcases type_take h with ht | ht <;> rw [ht]
    · simp
    · exact classify_type_ne_header _
  · intro hu
    have ht : (r.take g).1.type = .error := by
      rcases type_take h with ht | ht
      · exact ht
      · rw [ht, type_classify, hu]
        rfl
    rw [Occurrence.plan, ht]
    simp only [cellEdits]

end

/-! ## The lines of a group are mended -/

section
variable {lines g : List (List Token)} {r : Reading} {on : String → Bool}

/-- What the first line of a group starts with is what the group starts with. -/
theorem firstSignificant_group {l : List Token} {ls : List (List Token)}
    (h : isContinuable l = false → ls = []) :
    firstSignificant (l :: ls).flatten = firstSignificant l := by
  cases hc : isContinuable l with
  | false => rw [h hc, List.flatten_cons, List.flatten_nil, List.append_nil]
  | true =>
    have hdata : l.any (·.isData) = true := by
      rw [isContinuable, Bool.and_eq_true] at hc
      exact hc.2
    obtain ⟨t, ht, hd⟩ := List.any_eq_true.1 hdata
    have hsome : (firstSignificant l).isSome = true := by
      rw [firstSignificant, List.find?_isSome]
      refine ⟨t, ht, ?_⟩
      rw [Token.isSeparator, Token.isEol]
      rw [Token.isData] at hd
      revert hd
      cases t.kind <;> decide
    obtain ⟨u, hu⟩ := Option.isSome_iff_exists.1 hsome
    rw [List.flatten_cons, firstSignificant, List.find?_append, ← firstSignificant, hu]
    rfl

/-- The cell of a header starts its line. -/
theorem SlotLine.eq_head_of_header {star first : Bool} {xs : List Slot}
    (h : SlotLine star first xs) {x : Slot} (hx : x ∈ xs) (hk : x.token.kind = .sectionHeader) :
    first = true ∧ xs.head? = some x := by
  induction h with
  | ending _ he =>
    obtain rfl := List.mem_singleton.1 hx
    simp [he] at hk
  | remark _ hc _ _ _ he =>
    rcases List.mem_pair.1 hx with rfl | rfl
    · simp [hc] at hk
    · simp [he] at hk
  | @cell first gap t xs _ hkind _ _ _ ih =>
    rcases List.mem_cons.1 hx with rfl | hx
    · refine ⟨?_, rfl⟩
      cases first with
      | true => rfl
      | false =>
        have hk' : t.kind = .sectionHeader := hk
        rw [hkind, cellKind] at hk'
        simp at hk'
        split at hk' <;> cases hk'
    · cases (ih hx).1

/-- No cell of another statement is a header. -/
theorem kind_ne_header {line : List Token} (h : TokenLine (line.map Token.piece))
    (hl : isHeaderLine line = false) : ∀ x ∈ slots line, x.token.kind ≠ .sectionHeader := by
  intro x hx hk
  obtain ⟨hline, htokens⟩ := slotLine_of_tokenLine h
  obtain ⟨hrole, -, -⟩ := hline.roles
  rw [htokens, hl, (hline.eq_head_of_header hx hk).2, Option.map_some, hk] at hrole
  cases hrole

/-- A written edit stands on a data slot and comes from the plan. -/
theorem mem_edited_write {trim : Bool} {plan : List Edit} {xs : List Slot} {d : Slot × Edit}
    {code u : String} (hd : d ∈ edited trim plan xs) (he : d.2 = .write code u) :
    d.1 ∈ xs ∧ d.1.token.isData = true ∧ .write code u ∈ plan := by
  induction xs generalizing plan with
  | nil => cases hd
  | cons x xs ih =>
    rw [edited] at hd
    split at hd
    · rename_i hdata
      rcases List.mem_cons.1 hd with rfl | hd
      · refine ⟨List.mem_cons_self, hdata, ?_⟩
        cases plan with
        | nil => cases he
        | cons e plan =>
          obtain rfl : e = .write code u := he
          exact List.mem_cons_self
      · obtain ⟨hx, hdata, hplan⟩ := ih hd
        exact ⟨List.mem_cons_of_mem _ hx, hdata, List.mem_of_mem_tail hplan⟩
    · rcases List.mem_cons.1 hd with rfl | hd
      · dsimp only at he
        split at he <;> cases he
      · obtain ⟨hx, hdata, hplan⟩ := ih hd
        exact ⟨List.mem_cons_of_mem _ hx, hdata, hplan⟩

/-- A line that continues another is no header. -/
theorem isHeaderLine_of_continues {line : List Token} (h : TokenLine (line.map Token.piece))
    (hc : isContinuationLine line = true ∨ isCommentLine line = true) :
    isHeaderLine line = false := by
  obtain ⟨hline, htokens⟩ := slotLine_of_tokenLine h
  obtain ⟨hheader, hcont, hcomment⟩ := hline.roles
  rw [htokens] at hheader hcont hcomment
  rw [hcont, hcomment] at hc
  rw [hheader]
  rcases hc with hc | hc <;> rw [eq_of_beq hc] <;> rfl

/-- A header is edited in its first cell only. -/
theorem tail_cellEdits_header (kind : Option SectionKind) (inIf : Bool) (vs : List String) :
    (cellEdits on kind inIf .sectionHeader vs).tail = [] := by
  cases vs <;> simp [cellEdits]

/-- The first cell of a header tells the kind of its section. -/
theorem readHeader_create (ts : List Token) : (readHeader (.create .sectionHeader ts)).1 =
    (SectionKind.ofHeader? ((dataTexts ts).head?.getD "")).getD .invalid := by
  have hname : (Statement.create .sectionHeader ts).nameText = (dataTexts ts).head?.getD "" := by
    rw [Statement.nameText, Statement.name, Statement.assign, if_neg (by simp [Statement.create])]
    simp [Statement.data, Statement.create, dataTexts]
  rw [readHeader, hname]
  cases SectionKind.ofHeader? ((dataTexts ts).head?.getD "") <;> rfl

/-- A header is read as one of the section that it opens. -/
theorem openedBy_header {g : List Token} : OpenedBy (Reading.header g).1.kind
    ((dataTexts (Reading.header g).1.tokens).headD "") := by
  intro k hk
  obtain rfl : (readHeader (.create .sectionHeader g)).1 = k := Option.some.inj hk
  rw [readHeader_create, List.headD_eq_head?_getD]
  rfl

/-- What is written in the header of a section is written for its first cell. -/
theorem respells_of_header {trim : Bool} {plan : List Edit} {line : List Token}
    (h : TokenLine (line.map Token.piece)) (hl : isHeaderLine line = true) (htail : plan.tail = [])
    (hplan : ∀ code u, .write code u ∈ plan → Writable true u) :
    ∀ d ∈ edited trim plan (slots line), ∀ code u, d.2 = .write code u →
      Respells d.1.token u := by
  intro d hd code u he
  obtain ⟨hline, htokens⟩ := slotLine_of_tokenLine h
  obtain ⟨hrole, -, -⟩ := hline.roles
  obtain ⟨-, hdata, hmem⟩ := mem_edited_write hd he
  rw [htokens, hl] at hrole
  cases hslots : slots line with
  | nil =>
    rw [hslots] at hrole
    cases hrole
  | cons x xs =>
    have hkind : x.token.kind = .sectionHeader := by
      rw [hslots] at hrole
      simpa using hrole.symm
    have hx : x.token.isData = true := by
      rw [Token.isData, hkind]
      rfl
    rw [hslots, edited, if_pos hx, htail] at hd
    rcases List.mem_cons.1 hd with rfl | hd
    · exact (hplan code u hmem).respells hdata (by simp [hkind]) (by simp [hkind])
    · cases (mem_edited_write hd he).2.2

/-- **The plan of a statement leaves its lines.** -/
theorem editsLines_group (hg : g ∈ groupLines lines)
    (hlines : ∀ l ∈ g, TokenLine (l.map Token.piece)) (trim : Bool) :
    EditsLines trim ((r.take g.flatten).1.plan on) g := by
  obtain ⟨l, ls, rfl, halone, hmore⟩ := exists_cons_of_mem_groupLines hg
  obtain ⟨hl, hls⟩ := List.forall_mem_cons.1 hlines
  have hheader : isHeaderLine (l :: ls).flatten = isHeaderLine l := by
    rw [isHeaderLine, firstSignificant_group halone, ← isHeaderLine]
  have hwritable (code u : String) (hu : .write code u ∈ (r.take (l :: ls).flatten).1.plan on) :
      Writable ((r.take (l :: ls).flatten).1.type == .sectionHeader) u := by
    refine writable_of_mem_cellEdits (fun ht => ?_) hu
    have hh : isHeaderLine (l :: ls).flatten = true := by
      by_contra hno
      exact (plan_take (r := r) on (Bool.eq_false_iff.2 hno)).1 ht
    rw [take_of_header hh]
    exact openedBy_header
  refine editsLines_of_respells hlines trim_notMem_cellEdits
    (fun _ _ _ _ _ => head?_cellEdits_ne_remove) hmore ?_
  cases hh : isHeaderLine l with
  | true =>
    have hnil : ls = [] := halone (by rw [isContinuable, hh]; rfl)
    rw [take_of_header (hheader.trans hh)] at hwritable ⊢
    rw [hnil, List.flatten_cons, List.flatten_nil, List.append_nil] at hwritable ⊢
    exact respells_of_header hl hh (tail_cellEdits_header _ _ _) hwritable
  | false =>
    obtain ⟨htype, hunknown⟩ := plan_take (r := r) on (hheader.trans hh)
    intro d hd code u he
    obtain ⟨hx, hdata, hmem⟩ := mem_edited_write hd he
    have hw := hwritable code u hmem
    rw [beq_false_of_ne htype] at hw
    rw [IsRow.slots_flatten fun l' hl' => (hlines l' hl').isRow] at hx
    obtain ⟨l', hl', hx⟩ := List.mem_flatMap.1 hx
    have htoken : d.1.token ∈ (l :: ls).flatten := by
      refine List.mem_flatten.2 ⟨l', hl', ?_⟩
      rw [← (slotLine_of_tokenLine (hlines l' hl')).2]
      exact List.mem_flatMap.2 ⟨d.1, hx, by simp [Slot.tokens]⟩
    have hplain : isHeaderLine l' = false := by
      rcases List.mem_cons.1 hl' with rfl | hl'
      · exact hh
      · exact isHeaderLine_of_continues (hls l' hl') (hmore l' hl')
    refine hw.respells hdata (fun hk => ?_) ?_
    · rw [hunknown (List.any_eq_true.2 ⟨_, htoken, by simp [hk]⟩)] at hmem
      cases hmem
    · simp [kind_ne_header (hlines l' hl') hplain d.1 hx]

end

/-! ## A statement and what it becomes -/

/-- The tokens of a statement, and those that it is left with when a plan has been carried out. -/
structure Renewed (trim : Bool) (plan : List Edit) (old new : List Token) : Prop where
  header : isHeaderLine new = isHeaderLine old
  continuation : isContinuationLine new = isContinuationLine old
  unknown : new.any (·.kind == .unknown) = true → old.any (·.kind == .unknown) = true
  unknown_stays : plan = [] → old.any (·.kind == .unknown) = true →
    new.any (·.kind == .unknown) = true
  remark : (commentTokens new).isEmpty = (commentTokens old).isEmpty
  data : dataTexts new = applied plan (dataTexts old)
  first : (dataTokens new).head?.map (·.kind) = (dataTokens old).head?.map (·.kind)
  ends : trim = true → endGaps (slots new) = []

section
variable {trim : Bool} {plan : List Edit} {old new : List Token}

/-- Slots are cut alike without marks and places. -/
theorem Slot.bare_eq_of_slots (ts : List Token) : slots (ts.map Token.bare) =
    (slots ts).map fun x => ⟨x.gap.map Token.bare, x.token.bare⟩ := by
  have hfrom (gap : Option Token) : slotsFrom (gap.map Token.bare) (ts.map Token.bare) =
      (slotsFrom gap ts).map fun x => ⟨x.gap.map Token.bare, x.token.bare⟩ := by
    induction ts generalizing gap with
    | nil => rfl
    | cons t ts ih =>
      rw [List.map_cons, slotsFrom, slotsFrom, Token.bare_isSeparator]
      split
      · exact ih (some t)
      · rw [List.map_cons]
        exact congrArg _ (ih none)
  exact hfrom none

/-- The gaps that end lines are the same without marks and places. -/
theorem endGaps_map_bare (ts : List Token) :
    endGaps (slots (ts.map Token.bare)) = (endGaps (slots ts)).map Token.bare := by
  rw [Slot.bare_eq_of_slots, endGaps, List.filterMap_map, endGaps, List.map_filterMap]
  refine List.filterMap_congr fun x _ => ?_
  dsimp only [Function.comp]
  rw [Token.bare_isEol]
  split <;> rfl

/-- Places do not matter. -/
theorem Renewed.of_bare {us : List Token} (h : Renewed trim plan old new)
    (hb : us.map Token.bare = new.map Token.bare) : Renewed trim plan old us := by
  have hany (p : TokenKind → Bool) : us.any (fun t => p t.kind) = new.any fun t => p t.kind := by
    have hmap (ts : List Token) : (ts.map Token.bare).any (fun t => p t.kind) =
        ts.any fun t => p t.kind := by
      rw [List.any_map]
      rfl
    rw [← hmap us, hb, hmap]
  have hunknown := hany (· == .unknown)
  refine ⟨?_, ?_, ?_, ?_, ?_, ?_, ?_, fun ht => ?_⟩
  · rw [← h.header, ← isHeaderLine_map_bare us, hb, isHeaderLine_map_bare]
  · rw [← h.continuation, ← isContinuationLine_map_bare us, hb, isContinuationLine_map_bare]
  · rw [hunknown]
    exact h.unknown
  · rw [hunknown]
    exact h.unknown_stays
  · have := congrArg List.isEmpty (congrArg commentTokens hb)
    rw [commentTokens_map_bare, commentTokens_map_bare, List.isEmpty_map, List.isEmpty_map] at this
    exact this.trans h.remark
  · rw [← h.data, ← dataTexts_map_bare us, hb, dataTexts_map_bare]
  · have := congrArg (fun ts => ts.head?.map (·.kind)) (congrArg dataTokens hb)
    rw [dataTokens_map_bare, dataTokens_map_bare, List.head?_map, List.head?_map, Option.map_map,
      Option.map_map] at this
    exact this.trans h.first
  · have := endGaps_map_bare us
    rw [hb, endGaps_map_bare, h.ends ht] at this
    exact List.map_eq_nil_iff.1 this.symm

/-- The kinds of the data, of which the first stays. -/
theorem head?_dataSlots_mended {xs : List Slot} (h : plan.head? ≠ some .remove) :
    (dataSlots (mended (edited trim plan xs))).head?.map (·.token.kind) =
      (dataSlots xs).head?.map (·.token.kind) := by
  induction xs with
  | nil => rfl
  | cons x xs ih =>
    rw [mended_edited_cons, dataSlots, dataSlots, List.filter_cons]
    by_cases hdata : x.token.isData = true
    · cases he : (plan.headD .keep).apply x with
      | none =>
        cases plan with
        | nil => cases he
        | cons e plan => cases e <;> first | cases he; done | exact absurd rfl h
      | some y =>
        have hkind := (apply_spec he).1
        have hy : y.token.isData = true := by rwa [Token.isData, hkind]
        rw [if_pos hdata, if_pos hdata, Option.toList_some, List.singleton_append,
          List.filter_cons, if_pos hy, List.head?_cons, List.head?_cons, Option.map_some,
          Option.map_some, hkind]
    · rw [if_neg hdata, if_neg hdata, List.filter_cons, Slot.trimmed_token, if_neg hdata]
      exact ih

/-- The data cells are the tokens of the data slots. -/
theorem dataTokens_slotTokens {xs : List Slot} (h : AreSlots xs) :
    dataTokens (slotTokens xs) = (dataSlots xs).map (·.token) :=
  h.filter_slotTokens fun _ ht => Token.isData_eq_false ht rfl

/-- Without a plan, the ends of lines lose their gaps at most. -/
theorem mended_edited_nil (xs : List Slot) :
    mended (edited trim [] xs) = xs.map (Slot.trimmed trim) := by
  induction xs with
  | nil => rfl
  | cons x xs ih =>
    rw [mended_edited_cons, List.tail_nil, ih, List.map_cons]
    split
    · rename_i hdata
      rw [Slot.trimmed, Token.isEol_eq_false hdata, Bool.and_false]
      rfl
    · rfl

/-- The statement that is left when a plan has been carried out. -/
theorem renewed_mended (hslots : slotTokens (slots old) = old)
    (hhead : plan.head? ≠ some .remove)
    (hnew : new = slotTokens (mended (edited trim plan (slots old))))
    (hheader : isHeaderLine new = isHeaderLine old)
    (hcont : isContinuationLine new = isContinuationLine old) : Renewed trim plan old new := by
  have hold := areSlots_slots old
  have hmended : AreSlots (mended (edited trim plan (slots old))) := areSlots_mended_edited hold
  have hunknown {t : Token} (ht : t.kind = .separator) : (t.kind == .unknown) = false := by
    rw [ht]
    rfl
  have holdData : dataTokens old = (dataSlots (slots old)).map (·.token) := by
    rw [← dataTokens_slotTokens hold, hslots]
  have hnewData : dataTokens new =
      (dataSlots (mended (edited trim plan (slots old)))).map (·.token) := by
    rw [← dataTokens_slotTokens hmended, hnew]
  refine ⟨hheader, hcont, fun h => ?_, fun hplan h => ?_, ?_, ?_, ?_, fun ht => ?_⟩
  · obtain ⟨t, ht, hk⟩ := List.any_eq_true.1 h
    rw [hnew] at ht
    rcases mem_mended ht with ht | ⟨x, code, u, hd, rfl⟩
    · rw [oldSlots_edited, hslots] at ht
      exact List.any_eq_true.2 ⟨t, ht, hk⟩
    · refine List.any_eq_true.2 ⟨x.token, ?_, hk⟩
      rw [← hslots]
      exact List.mem_flatMap.2 ⟨x, (mem_edited_write hd rfl).1, by simp [Slot.tokens]⟩
  · rw [← hslots, hold.any_slotTokens fun _ => hunknown] at h
    rw [hnew, hmended.any_slotTokens fun _ => hunknown, hplan, mended_edited_nil, List.any_map]
    simpa [Function.comp_def] using h
  · have hcomment (t : Token) (ht : t.isComment = true) :
        t.isData = false ∧ t.kind ≠ .separator :=
      ⟨Token.isData_eq_false (eq_of_beq ht) rfl, by
        simp [show t.kind = .comment from eq_of_beq ht]⟩
    have := @filter_slotTokens_mended trim plan old hslots (·.isComment) hcomment
    rw [commentTokens, commentTokens, hnew, this]
  · rw [dataTexts, dataTexts, hnewData, holdData, List.map_map, List.map_map]
    exact dataTexts_mended
  · rw [hnewData, holdData, List.head?_map, List.head?_map, Option.map_map, Option.map_map]
    exact head?_dataSlots_mended hhead
  · subst ht
    rw [hnew, hmended.slots_slotTokens]
    exact endGaps_mended

end

/-! ## Reading on -/

/-- Readings that differ in nothing that a statement is placed by. -/
structure Reading.Alike (old new : Reading) : Prop where
  kind : new.kind = old.kind
  opened : new.opened.map (·.map (·.type)) = old.opened.map (·.map (·.type))

section
variable {on : String → Bool} {trim inIf : Bool} {plan : List Edit} {kind : SectionKind}
  {g g' : List Token} {r r' : Reading}

/-- A header of a branch asks for nothing. -/
theorem Settles.idle {kind : Option SectionKind} {old new : StatementType} {vs : List String}
    (h : Settles on kind inIf old new vs) : Idle (cellEdits on kind inIf new vs) := by
  rcases h with ⟨rfl, h⟩ | ⟨-, rfl | rfl⟩
  · exact h
  · simpa only [cellEdits] using idle_nil
  · simpa only [cellEdits] using idle_nil

namespace Renewed

/-- A renewed group holds data exactly when the old one does. -/
theorem isEmpty_data (h : Renewed trim plan g g') :
    (dataTokens g').isEmpty = (dataTokens g).isEmpty := by
  have hnone := congrArg Option.isNone h.first
  rw [Option.isNone_map, Option.isNone_map] at hnone
  revert hnone
  cases dataTokens g' <;> cases dataTokens g <;> simp

/-- A renewed group starts with a name exactly when the old one does. -/
theorem startsWithName (h : Renewed trim plan g g') :
    (dataTokens g').head?.any (·.kind == .name) = (dataTokens g).head?.any (·.kind == .name) := by
  have := congrArg (Option.any (· == TokenKind.name)) h.first
  rwa [Option.any_map, Option.any_map] at this

/-- A statement without a plan is of the same type. -/
theorem type_of_nil (h : Renewed trim [] g g') :
    (classify kind g').1.type = (classify kind g).1.type := by
  have hunknown : g'.any (·.kind == .unknown) = g.any (·.kind == .unknown) := by
    rw [Bool.eq_iff_iff]
    exact ⟨h.unknown, h.unknown_stays rfl⟩
  have htype : dataType kind (dataTokens g') = dataType kind (dataTokens g) :=
    dataType_congr (by simpa [dataTexts, applied_nil] using h.data) h.startsWithName
  rw [type_classify, type_classify, hunknown, h.continuation, h.isEmpty_data, h.remark, htype]

/-- **A statement settles when its plan is carried out.** -/
theorem settles (h : Renewed trim
      (cellEdits on (some kind) inIf (classify kind g).1.type (dataTexts g)) g g') :
    Settles on (some kind) inIf (classify kind g).1.type (classify kind g').1.type
      (dataTexts g') := by
  -- what has no data has no plan
  have hplain {t : StatementType} (ht : (classify kind g).1.type = t)
      (hnone : ∀ vs, cellEdits on (some kind) inIf t vs = []) :
      Settles on (some kind) inIf (classify kind g).1.type (classify kind g').1.type
        (dataTexts g') := by
    rw [ht, hnone] at h
    rw [h.type_of_nil, ht]
    exact .inl ⟨rfl, (hnone _).symm ▸ idle_nil⟩
  have htype := type_classify kind g
  split at htype
  · exact hplain htype fun vs => by simp only [cellEdits]
  · rename_i hread
    split at htype
    · split at htype
      · exact hplain htype fun vs => by simp only [cellEdits]
      · exact hplain htype fun vs => by simp only [cellEdits]
    · rename_i hdata
      have hread' : ¬ (g'.any (·.kind == .unknown) || isContinuationLine g') = true := by
        simp only [Bool.or_eq_true, not_or] at hread ⊢
        exact ⟨fun hu => hread.1 (h.unknown hu), by rw [h.continuation]; exact hread.2⟩
      have htype' := type_classify kind g'
      rw [if_neg hread', h.isEmpty_data, if_neg hdata] at htype'
      split at htype
      · exact hplain htype fun vs => by simp only [cellEdits]
      rename_i hlisted
      rw [if_neg hlisted] at htype'
      have hnew := h.data
      rw [htype] at hnew ⊢
      rw [htype']
      exact settled_data on hnew h.startsWithName

end Renewed

/-- Whether a statement fits is told by its type and the types of the open blocks. -/
theorem misfit?_isSome {opened opened' : List Statement} {s s' : Statement}
    (ho : opened'.map (·.type) = opened.map (·.type)) (hs : s'.type = s.type) :
    (misfit? opened' s').isSome = (misfit? opened s).isSome := by
  have hempty : opened'.isEmpty = opened.isEmpty := by
    have := congrArg List.isEmpty ho
    rwa [List.isEmpty_map, List.isEmpty_map] at this
  have htakes : innermostTakes opened' s'.type = innermostTakes opened s.type := by
    have := congrArg (fun ts => ts.head?.any fun t =>
      (ControlType.ofHeader? t).any fun type => type.branchHeaders.contains s.type) ho
    simp only [List.head?_map, Option.any_map] at this
    rw [hs]
    exact this
  rw [misfit?, misfit?, hs, hempty, ← hs, htakes, hs]
  split
  · split <;> rfl
  · split <;> rfl

/-- Which blocks are open is told by types alone. -/
theorem openStep_type {opened opened' : List Statement} {s s' : Statement}
    (ho : opened'.map (·.type) = opened.map (·.type)) (hs : s'.type = s.type) :
    (openStep opened' s').map (·.type) = (openStep opened s).map (·.type) := by
  rw [openStep, openStep, hs]
  split
  · rw [List.map_cons, List.map_cons, ho, hs]
  · split
    · rw [List.map_tail, List.map_tail, ho]
    · exact ho

/-- Whether a statement stands in an `IF` is told by types alone. -/
theorem standsInIf_type {opened opened' : List Statement} {s s' : Statement}
    (ho : opened'.map (·.type) = opened.map (·.type)) (hs : s'.type = s.type) :
    standsInIf opened' s' = standsInIf opened s := by
  have hany (ss : List Statement) : ss.any (·.type = .ifHeader) =
      (ss.map (·.type)).any (· = .ifHeader) := by
    rw [List.any_map]
    rfl
  rw [standsInIf, standsInIf, hs, hany, hany, ho]

/-- The header of a section settles, and its section is of the same kind. -/
theorem header_renewed (h : Renewed trim ((Reading.header g).1.plan on) g g') :
    (Reading.header g).2.Alike (Reading.header g').2 ∧ Idle ((Reading.header g').1.plan on) := by
  have hkind := readHeader_create
  have hdata := h.data
  simp only [Reading.header, Occurrence.plan] at hdata ⊢
  rw [hkind g] at hdata
  cases hv : dataTexts g with
  | nil =>
    rw [hv] at hdata
    have hnil : dataTexts g' = [] := hdata
    rw [hkind, hkind, hv, hnil]
    exact ⟨⟨rfl, rfl⟩, idle_nil⟩
  | cons v vs =>
    rw [hv, List.head?_cons, Option.getD_some] at hdata
    obtain ⟨u, happ, hu, hidle⟩ := settled_header on false vs (v := v) rfl
    rw [happ] at hdata
    rw [hkind, hkind, hv, hdata, List.head?_cons, List.head?_cons, Option.getD_some,
      Option.getD_some, hu]
    exact ⟨⟨rfl, rfl⟩, hidle⟩

/-- The plan of a statement in a section comes from its type and cells. -/
theorem plan_inSection (p : Statement × Bool) : (Occurrence.inSection kind p).plan on =
    cellEdits on (some kind) p.2 p.1.type (dataTexts p.1.tokens) := rfl

/-- An error asks for nothing, so what has become one by its place is of the type it was of. -/
theorem idle_error {vs : List String} : cellEdits on (some kind) inIf .error vs = [] := by
  simp only [cellEdits]

/-- Whether a statement names a block is told by its type. -/
theorem isBlockName_congr {s s' : Statement} (h : s'.type = s.type) :
    isBlockName s' = isBlockName s := by
  rw [isBlockName, isBlockName, h]

/-- In front of the first block, nothing has a plan. -/
theorem plan_leadingItem (owner : BlockType) (s : Statement) (inIf : Bool) :
    (Occurrence.inSection kind ((leadingItem owner s).1.leading, inIf)).plan on = [] := by
  rw [plan_inSection, leadingItem]
  split
  · rename_i h
    simp only [Bool.or_eq_true, decide_eq_true_eq] at h
    rcases h with (h | h) | h <;> simp only [SectionItem.leading, h, cellEdits]
  · exact idle_error

/-- A statement among open blocks is placed alike. -/
theorem placeInBody_renewed {opened opened' : List Statement}
    (ho : opened'.map (·.type) = opened.map (·.type))
    (h : Renewed trim
      ((Occurrence.inSection kind (placeInBody opened (classify kind g).1).1).plan on) g g') :
    isBlockName (classify kind g').1 = isBlockName (classify kind g).1 ∧
      (placeInBody opened' (classify kind g').1).2.map (·.type) =
        (placeInBody opened (classify kind g).1).2.map (·.type) ∧
      Idle ((Occurrence.inSection kind (placeInBody opened' (classify kind g').1).1).plan on) := by
  simp only [placeInBody, plan_inSection, keep_type, tokens_keep, classify_tokens] at h ⊢
  cases hm : (misfit? opened (classify kind g).1).isSome with
  | true =>
    rw [hm, if_pos rfl, idle_error] at h
    have ht : (classify kind g').1.type = (classify kind g).1.type := h.type_of_nil
    rw [misfit?_isSome ho ht, hm, if_pos rfl, idle_error]
    exact ⟨isBlockName_congr ht, openStep_type ho ht, idle_nil⟩
  | false =>
    rw [hm, if_neg Bool.false_ne_true] at h
    rcases h.settles with ⟨ht, hidle⟩ | ⟨hcall, ht⟩
    · rw [misfit?_isSome ho ht, hm, if_neg Bool.false_ne_true, standsInIf_type ho ht, ht]
      exact ⟨isBlockName_congr ht, openStep_type ho ht, hidle⟩
    · -- neither a call nor the header of a branch opens or closes a block
      have hstep (opened : List Statement) {s : Statement}
          (hs : ControlType.ofHeader? s.type = none) (hend : s.type ≠ .blockEnd) :
          openStep opened s = opened := by
        rw [openStep, hs, if_neg (by simp), if_neg hend]
      have hold : openStep opened (classify kind g).1 = opened :=
        hstep opened (by rw [hcall]; rfl) (by rw [hcall]; decide)
      have hnew : openStep opened' (classify kind g').1 = opened' := by
        rcases ht with ht | ht
        · exact hstep opened' (by rw [ht]; rfl) (by rw [ht]; decide)
        · exact hstep opened' (by rw [ht]; rfl) (by rw [ht]; decide)
      have hname : isBlockName (classify kind g').1 = isBlockName (classify kind g).1 := by
        rw [isBlockName, isBlockName, hcall]
        rcases ht with ht | ht <;> rw [ht] <;> rfl
      rw [hold, hnew]
      refine ⟨hname, ho, ?_⟩
      split
      · exact idle_error.symm ▸ idle_nil
      · rcases ht with ht | ht <;> rw [ht] <;> simpa only [cellEdits] using idle_nil

/-- A statement of a section with blocks is placed alike. -/
theorem placeInSection_renewed {owner : BlockType} {opened opened' : Option (List Statement)}
    (ho : opened'.map (·.map (·.type)) = opened.map (·.map (·.type)))
    (h : Renewed trim ((Occurrence.inSection kind
      (placeInSection owner opened (classify kind g).1).1).plan on) g g') :
    (placeInSection owner opened' (classify kind g').1).2.map (·.map (·.type)) =
        (placeInSection owner opened (classify kind g).1).2.map (·.map (·.type)) ∧
      Idle ((Occurrence.inSection kind
        (placeInSection owner opened' (classify kind g').1).1).plan on) := by
  simp only [placeInSection] at h ⊢
  by_cases hb : isBlockName (classify kind g).1 = true
  · rw [if_pos hb, plan_inSection, classify_tokens] at h
    have ht : (classify kind g').1.type = (classify kind g).1.type := by
      rcases h.settles with ⟨ht, -⟩ | ⟨hcall, -⟩
      · exact ht
      · simp [isBlockName, hcall] at hb
    rw [if_pos hb, if_pos ((isBlockName_congr ht).trans hb), plan_inSection, classify_tokens]
    exact ⟨rfl, h.settles.idle⟩
  rw [if_neg hb] at h ⊢
  cases opened with
  | none =>
    obtain rfl : opened' = none := by simpa using ho
    dsimp only at h ⊢
    rw [plan_leadingItem] at h
    rw [if_neg (by rwa [isBlockName_congr h.type_of_nil]), plan_leadingItem]
    exact ⟨rfl, idle_nil⟩
  | some opened =>
    obtain ⟨opened', rfl, htypes⟩ := Option.map_eq_some_iff.1 ho
    obtain ⟨hname, hopened, hidle⟩ := placeInBody_renewed htypes h
    rw [if_neg (by rwa [hname])]
    exact ⟨congrArg some hopened, hidle⟩

/-- **A statement that has been mended is placed alike, and asks for nothing more.** -/
theorem take_renewed (hr : r.Alike r') (h : Renewed trim ((r.take g).1.plan on) g g') :
    (r.take g).2.Alike (r'.take g').2 ∧ Idle ((r'.take g').1.plan on) := by
  by_cases hheader : isHeaderLine g = true
  · rw [take_of_header hheader] at h ⊢
    rw [take_of_header (h.header.trans hheader)]
    exact header_renewed h
  have hheader' : ¬ isHeaderLine g' = true := by rwa [h.header]
  rw [Reading.take, if_neg hheader] at h ⊢
  rw [Reading.take, if_neg hheader', hr.kind]
  cases howner : r.kind.blockType? with
  | none =>
    rw [howner] at h
    simp only [plan_inSection, classify_tokens] at h ⊢
    exact ⟨hr, h.settles.idle⟩
  | some owner =>
    rw [howner] at h
    obtain ⟨hopened, hidle⟩ := placeInSection_renewed hr.opened h
    exact ⟨⟨rfl, hopened⟩, hidle⟩

end

end RobotSuite
