/-
# Splitting keeps files sound and valid

A statement that is split is written in rows: its head, with the arguments that fit, and rows
of arguments behind a marker.  Each of them is a line of the grammar, and together they hold
the cells of the statement in their order (`rows_spec`), so that it is read as before
(`Split.keepsSound_pass`).  Its line ending goes to the last row (`Split.keepsBreaks_pass`).
-/

import RobotSuite.Proofs.Format.Split.Rows
import RobotSuite.Proofs.Statement.NewTokens
import RobotSuite.Proofs.Transform.LineEnds

namespace RobotSuite

/-! ## Cells and comments of a statement -/

/-- The cells of a line behind its first one. -/
theorem Written.isRest_dataTokens {k : Option TokenKind} {line : List Token} (h : Written k line)
    (hk : k = some .continuation ∨ k = none) : ∀ c ∈ dataTokens line, c.IsRest := by
  obtain ⟨-, hrest, hkind⟩ := h.cells
  rw [← dataTokens_cellTokens]
  intro c hc
  obtain ⟨hmem, hd⟩ := List.mem_filter.1 hc
  cases hcells : cellTokens line with
  | nil => simp [hcells] at hmem
  | cons d ds =>
    rw [hcells] at hmem hrest hkind
    rcases List.mem_cons.1 hmem with rfl | hmem
    · rcases hk with rfl | rfl
      · have : c.kind = .continuation := by simpa using hkind
        simp [Token.isData, TokenKind.isData, this] at hd
      · cases hkind
    · exact (hrest c hmem).imp_right .inr

/-- The data cells of a statement: the first may start a line, the others stand behind it. -/
theorem Laid.dataTokens {ts : List Token} (h : Laid false (splitLines ts))
    (hd : dataTexts ts ≠ []) : ∃ c rest, dataTokens ts = c :: rest ∧ IsCell c.value ∧
      c.IsLead ∧ (c.kind = .name ∨ c.kind = .argument) ∧ ∀ d ∈ rest, d.IsRest := by
  obtain ⟨k, first, more, -, rfl, hw, hk, hm⟩ := h.exists_data hd
  obtain ⟨hhead, hrest, hkind⟩ := hw.cells
  have hdata := dataTokens_cellTokens first
  cases hcells : cellTokens first with
  | nil =>
    rw [hcells] at hkind
    rcases hk with hk | hk <;> rw [hk] at hkind <;> cases hkind
  | cons c cs =>
    rw [hcells] at hhead hrest hkind hdata
    obtain ⟨hcell, hlead⟩ := hhead c rfl
    have hck : c.kind = .name ∨ c.kind = .argument := by
      rcases hk with hk | hk <;> rw [hk] at hkind <;> simp at hkind <;> simp [hkind]
    have hcd : c.isData = true := by
      rcases hck with h | h <;> simp [Token.isData, TokenKind.isData, h]
    rw [RobotSuite.dataTokens, List.filter_cons_of_pos hcd] at hdata
    refine ⟨c, cs.filter (·.isData) ++ RobotSuite.dataTokens more.flatten, ?_, hcell, hlead, hck,
      ?_⟩
    · rw [dataTokens_append, ← hdata, List.cons_append]
    · intro d hmem
      rcases List.mem_append.1 hmem with hmem | hmem
      · exact (hrest d (List.mem_filter.1 hmem).1).imp_right .inr
      · obtain ⟨hmem, hdd⟩ := List.mem_filter.1 hmem
        obtain ⟨l, hl, hmem⟩ := List.mem_flatten.1 hmem
        have hmem := List.mem_filter.2 ⟨hmem, hdd⟩
        rcases hm l hl with hw | ⟨hw, -⟩
        · exact hw.isRest_dataTokens (.inl rfl) d hmem
        · exact hw.isRest_dataTokens (.inr rfl) d hmem

/-- Comments put together are a comment. -/
theorem isComment_intercalate (separator : String) {c : String} {cs : List String}
    (h : ∀ d ∈ c :: cs, IsComment d) : IsComment (separator.intercalate (c :: cs)) := by
  induction cs generalizing c with
  | nil =>
    rw [String.intercalate_singleton]
    exact h c List.mem_cons_self
  | cons d cs ih =>
    obtain ⟨hstart, -⟩ := h c List.mem_cons_self
    obtain ⟨hrest, hend⟩ := ih fun e he => h e (List.mem_cons_of_mem _ he)
    rw [String.intercalate_cons_cons]
    constructor
    · rw [String.toList_append, String.toList_append, List.append_assoc, List.head?_append, hstart]
      rfl
    · intro e he
      rw [String.toList_append, List.getLast?_append] at he
      cases hl : (separator.intercalate (d :: cs)).toList.getLast? with
      | none =>
        rw [List.getLast?_eq_none_iff] at hl
        rw [hl] at hrest
        cases hrest
      | some f =>
        rw [hl] at he
        obtain rfl : f = e := Option.some.inj he
        exact hend f hl

/-! ## Lines from layouts -/

section
variable {indent separator : String} {gapAt : Nat → String} {l : LineLayout} {ls : List LineLayout}

/-- A layout with a cell that starts a statement, and others behind markers, written as the
lines of a statement. -/
theorem Laid.ofLayouts (hi : IsIndent indent) (hs : IsWide separator) (hg : ∀ n, IsWide (gapAt n))
    (hl : l.Fits) (hd : ∃ c ∈ l.cells.head?, c.kind = .name ∨ c.kind = .argument)
    (hm : ∀ m ∈ ls, m.Fits ∧ ∃ c ∈ m.cells.head?, c.kind = .continuation) :
    Laid false ((l :: ls).map fun m => composeLine indent m separator gapAt) := by
  obtain ⟨c, hc, hk⟩ := hd
  have hnot : c.kind ≠ .sectionHeader := by
    rcases hk with hk | hk <;> simp [hk]
  have hw := hl.written hi hs hg fun d hd hkind => by
    obtain rfl : c = d := Option.some.inj (hc.symm.trans hd)
    exact absurd hkind hnot
  refine .data hw ?_ ?_
  · rw [LineLayout.lead, hc, Option.map_some, placeCell_kind hk]
    split <;> simp [startsData]
  · intro line hline
    obtain ⟨m, hmem, rfl⟩ := List.mem_map.1 hline
    obtain ⟨hfits, c, hc, hk⟩ := hm m hmem
    have hw := hfits.written hi hs hg fun d hd hkind => by
      obtain rfl : c = d := Option.some.inj (hc.symm.trans hd)
      simp [hk] at hkind
    rw [LineLayout.lead, hc, Option.map_some, placeCell_of_ne (by simp [hk]) (by simp [hk]),
      hk] at hw
    exact .inl hw

/-- The indentation of a line that is laid out. -/
theorem indentOf_composeLine (hd : ∃ c ∈ l.cells.head?, c.kind = .name ∨ c.kind = .argument)
    (rest : List Token) :
    indentOf (composeLine indent l separator gapAt ++ rest) = indent := by
  obtain ⟨c, hc, hk⟩ := hd
  obtain ⟨cells, hcells⟩ : ∃ cells, l.cells = c :: cells := List.head?_eq_some_iff.1 hc
  rw [composeLine, hcells, composeCells]
  by_cases hi : indent = ""
  · have hplace : (placeCell true c).isSeparator = false := by
      simp [Token.isSeparator, placeCell_kind hk]
    simp [hi, indentOf, hplace]
  · simp [hi, indentOf, gap, Token.create, Token.isSeparator]

/-- The texts in layouts that are written. -/
theorem texts_flatMap_composeLine (indent separator : String) (gapAt : Nat → String)
    (h : ∀ l ∈ ls, l.Fits) :
    dataTexts (ls.flatMap fun l => composeLine indent l separator gapAt) =
        dataTexts (ls.flatMap (·.cells)) ∧
      commentTexts (ls.flatMap fun l => composeLine indent l separator gapAt) =
        ls.flatMap fun l => l.comment.toList.map (·.value) := by
  induction ls with
  | nil => exact ⟨rfl, rfl⟩
  | cons l ls ih =>
    obtain ⟨hdata, hcomment⟩ := ih fun m hm => h m (List.mem_cons_of_mem _ hm)
    have hl := h l List.mem_cons_self
    simp only [List.flatMap_cons, dataTexts_append, commentTexts_append]
    rw [hdata, hcomment, hl.dataTexts_composeLine, hl.commentTexts_composeLine]
    exact ⟨rfl, rfl⟩

/-- **A sound statement with data, written in other lines with the same texts, stays sound.** -/
theorem Statement.IsSound.ofLayouts {kind : SectionKind} {s : Statement} (h : s.IsSound kind)
    (hd : dataTexts s.tokens ≠ []) (hs : IsWide separator) (hg : ∀ n, IsWide (gapAt n))
    (hfits : ∀ m ∈ l :: ls, m.Fits) (hl : ∃ c ∈ l.cells.head?, c.kind = .name ∨ c.kind = .argument)
    (hls : ∀ m ∈ ls, ∃ c ∈ m.cells.head?, c.kind = .continuation)
    (hdata : dataTexts ((l :: ls).flatMap (·.cells)) = dataTexts s.tokens)
    (hcomments : ((l :: ls).flatMap fun l => l.comment.toList.map (·.value)).isEmpty =
      (commentTexts s.tokens).isEmpty) :
    (s.withTokens ((l :: ls).flatMap fun m =>
      composeLine (indentOf s.tokens) m separator gapAt)).IsSound kind := by
  obtain ⟨hindent, hname⟩ := h.laid.indentOf
  have hlaid := Laid.ofLayouts hindent hs hg (hfits l List.mem_cons_self) hl fun m hm =>
    ⟨hfits m (List.mem_cons_of_mem _ hm), hls m hm⟩
  rw [← splitLines_flatten hlaid.written, ← List.flatMap_def] at hlaid
  obtain ⟨hdatas, hcomms⟩ := texts_flatMap_composeLine (indentOf s.tokens) separator gapAt hfits
  rw [hdata] at hdatas
  refine h.withTokens hlaid hdatas ?_ fun _ => ?_
  · rw [hcomms, hcomments]
  · rw [(hlaid.indentOf).2 (by rwa [hdatas]), hname hd, List.flatMap_cons,
      indentOf_composeLine hl]

end

namespace Split

/-! ## Rows -/

section
variable {indent separator newline : String} {limit : Int} {everyArg : Bool}

/-- The rows of a statement hold its head and arguments in their order; each but the first is
behind a marker. -/
theorem fillFrom_spec (indent separator : String) (limit : Int) (everyArg : Bool)
    (row args : List Token) : ∃ (extra : List Token) (more : List (List Token)),
    fillFrom indent separator limit everyArg row args =
      (row ++ extra) :: more.map (continuationMarker :: ·) ∧ extra ++ more.flatten = args := by
  obtain ⟨extra, more, hrows, hargs, -⟩ := isLayout_iff.1 (isLayout_fillFrom row args)
  exact ⟨extra, more, hrows, hargs⟩

/-- The layouts of the lines that rows are written as. -/
def rowLayouts (newline : String) (comment : Option Token) (ending : Token) :
    List (List Token) → List LineLayout
  | [] => []
  | [row] => [⟨row, comment, ending⟩]
  | row :: next :: rows =>
    ⟨row, none, .create .eol newline⟩ :: rowLayouts newline comment ending (next :: rows)

variable {comment : Option Token} {ending : Token}

/-- Composed rows are line layouts written with one separator. -/
theorem composeRows_eq (rows : List (List Token)) :
    composeRows indent separator newline comment ending rows =
      (rowLayouts newline comment ending rows).flatMap fun l =>
        composeLine indent l separator fun _ => separator := by
  fun_induction rowLayouts newline comment ending rows with
  | case1 => rfl
  | case2 row => rw [composeRows, List.flatMap_cons, List.flatMap_nil, List.append_nil]
  | case3 row next rows ih => rw [composeRows, ih, List.flatMap_cons]

/-- The layouts hold the cells of the rows. -/
theorem cells_rowLayouts (newline : String) (comment : Option Token) (ending : Token)
    (rows : List (List Token)) :
    (rowLayouts newline comment ending rows).map (·.cells) = rows := by
  fun_induction rowLayouts newline comment ending rows with
  | case1 => rfl
  | case2 row => rfl
  | case3 row next rows ih => rw [List.map_cons, ih]

/-- What is at the end of a line is the same in all lines but the last. -/
theorem ends_rowLayouts (hn : IsBreak (.create .eol newline)) (he : IsBreak ending)
    (hc : ∀ c ∈ comment, c.kind = .comment ∧ IsComment c.value) (rows : List (List Token)) :
    ∀ l ∈ rowLayouts newline comment ending rows,
      (∀ c ∈ l.comment, c.kind = .comment ∧ IsComment c.value) ∧ IsBreak l.ending := by
  fun_induction rowLayouts newline comment ending rows with
  | case1 => simp
  | case2 row =>
    intro l hl
    obtain rfl := List.mem_singleton.1 hl
    exact ⟨hc, he⟩
  | case3 row next rows ih =>
    intro l hl
    rcases List.mem_cons.1 hl with rfl | hl
    · exact ⟨by simp, hn⟩
    · exact ih l hl

/-- The comment stands in one of the lines. -/
theorem comments_rowLayouts (newline : String) (comment : Option Token) (ending : Token)
    {rows : List (List Token)} (h : rows ≠ []) :
    ((rowLayouts newline comment ending rows).flatMap fun l =>
      l.comment.toList.map (·.value)) = comment.toList.map (·.value) := by
  fun_induction rowLayouts newline comment ending rows with
  | case1 => exact absurd rfl h
  | case2 row => rw [List.flatMap_cons, List.flatMap_nil, List.append_nil]
  | case3 row next rows ih =>
    rw [List.flatMap_cons, ih (by simp)]
    rfl

/-- The line ending of the statement stands behind the last row. -/
theorem composeRows_concat {rows : List (List Token)} (h : rows ≠ []) :
    ∃ front, composeRows indent separator newline comment ending rows = front ++ [ending] := by
  fun_induction rowLayouts newline comment ending rows with
  | case1 => exact absurd rfl h
  | case2 row =>
    rw [composeRows, composeLine]
    exact ⟨_, rfl⟩
  | case3 row next rows ih =>
    obtain ⟨front, hfront⟩ := ih (by simp)
    rw [composeRows, hfront, ← List.append_assoc]
    exact ⟨_, rfl⟩

end

/-! ## Statements that are split -/

section
variable {setup : PassSetup} {kind : SectionKind} {s new : Statement} {everyArg : Bool} {size : Nat}

/-- How many data tokens stay on the first line depends on the type and the data. -/
theorem headSize_congr {s r : Statement} (ht : s.type = r.type)
    (hd : dataTexts s.tokens = dataTexts r.tokens) : headSize s = headSize r := by
  have hname := name_congr ht hd
  have hsome : s.name.isSome = r.name.isSome := by
    have := congrArg Option.isSome hname
    rwa [Option.isSome_map, Option.isSome_map] at this
  have hsetting : s.setting? = r.setting? := by
    rw [Statement.setting?, Statement.setting?, Statement.suiteSetting?, Statement.suiteSetting?,
      Statement.blockSetting?, Statement.blockSetting?, nameText_congr ht hd, ht]
  rw [headSize, headSize, length_assign_congr ht hd, hsome, hsetting, ht]

/-- A statement that may be split holds data, and some of it stays on the first line. -/
theorem headSize_spec (h : s.IsSound kind) (hs : headSize s = some size) :
    dataTexts s.tokens ≠ [] ∧ 1 ≤ size := by
  have hd : dataTexts s.tokens ≠ [] := by
    intro hd
    obtain ⟨-, -, hplain, -⟩ := readsAs_iff.1 h.reads
    have ht := hplain hd
    rw [headSize] at hs
    split at ht <;> simp [ht] at hs
  refine ⟨hd, ?_⟩
  rw [headSize] at hs
  split at hs
  · obtain rfl := Option.some.inj hs
    cases ha : s.assign.length with
    | succ n => omega
    | zero =>
      have hname : s.name.isSome = true := by
        rw [Statement.name, ha, List.drop_zero, List.isSome_head?]
        simpa [dataTexts, Statement.data] using hd
      rw [hname]
      simp
  · split at hs
    · cases hs
    · exact Nat.le_of_eq (Option.some.inj hs)
  · split at hs
    · cases hs
    · exact Nat.le_of_eq (Option.some.inj hs)
  · exact Nat.le_of_eq (Option.some.inj hs)
  · cases hs

/-- Joined comments are one comment, and none only if there was none. -/
theorem joinComments_spec (separator : String) {cs : List Token}
    (h : ∀ c ∈ cs, c.kind = .comment ∧ IsComment c.value) :
    (∀ c ∈ joinComments separator cs, c.kind = .comment ∧ IsComment c.value) ∧
      (joinComments separator cs).isNone = cs.isEmpty := by
  cases cs with
  | nil => simp [joinComments]
  | cons c cs =>
    refine ⟨fun d hd => ?_, rfl⟩
    obtain rfl := Option.some.inj hd
    refine ⟨(h c List.mem_cons_self).1, isComment_intercalate separator fun v hv => ?_⟩
    rw [← List.map_cons] at hv
    obtain ⟨d, hd, rfl⟩ := List.mem_map.1 hv
    exact (h d hd).2

/-- The rows of a sound statement, and what holds of each. -/
theorem rows_spec (h : s.IsSound kind) (hs : headSize s = some size) (indent separator : String)
    (limit : Int) (everyArg : Bool) : ∃ (row : List Token) (more : List (List Token)),
      fillRows indent ((dataTokens s.tokens).take size) ((dataTokens s.tokens).drop size) separator
        limit everyArg = row :: more.map (continuationMarker :: ·) ∧
      row ++ more.flatten = dataTokens s.tokens ∧
      (∃ c rest, row = c :: rest ∧ IsCell c.value ∧ c.IsLead ∧
        (c.kind = .name ∨ c.kind = .argument) ∧ ∀ d ∈ rest, d.IsRest) ∧
      ∀ r ∈ more, ∀ d ∈ r, d.IsRest := by
  obtain ⟨hd, hsize⟩ := headSize_spec h hs
  obtain ⟨c, rest, hdata, hcell, hlead, hk, hrest⟩ := h.laid.dataTokens hd
  rw [hdata]
  obtain ⟨n, rfl⟩ : ∃ n, size = n + 1 := ⟨size - 1, by omega⟩
  obtain ⟨extra, more, hrows, hargs⟩ := fillFrom_spec indent separator limit everyArg
    (c :: rest.take n) (rest.drop n)
  have hmem : ∀ d ∈ rest.take n ++ extra ++ more.flatten, d.IsRest := by
    rw [List.append_assoc, hargs, List.take_append_drop]
    exact hrest
  refine ⟨_, more, hrows, ?_, ⟨c, rest.take n ++ extra, rfl, hcell, hlead, hk, ?_⟩, ?_⟩
  · rw [List.append_assoc, hargs, List.cons_append, List.take_append_drop]
  · exact fun d hd => hmem d (List.mem_append_left _ hd)
  · exact fun r hr d hd => hmem d (List.mem_append_right _ (List.mem_flatten.2 ⟨r, hr, hd⟩))

/-- The continuation mark may open a line. -/
theorem isLead_continuationMarker :
    IsCell continuationMarker.value ∧ continuationMarker.IsLead := by
  refine ⟨⟨⟨'.', rfl, by decide, by decide⟩, by decide, by decide⟩, .inr (.inl ⟨rfl, rfl⟩)⟩

/-- Markers hold no data. -/
theorem dataTexts_markers (more : List (List Token)) :
    dataTexts (more.map (continuationMarker :: ·)).flatten = dataTexts more.flatten := by
  rw [dataTexts_flatten, dataTexts_flatten, List.flatMap_map]
  rfl

/-- The lines that a statement is split into: the layouts that they are written from fit, the
first starts with data and the others with a marker, and together they hold the cells of the
statement and its comments as one. -/
theorem layouts_splitTokens (everyArg : Bool) (hv : setup.IsValid) (h : s.IsSound kind)
    (hs : headSize s = some size) : ∃ (l : LineLayout) (ls : List LineLayout),
      splitTokens setup everyArg size s.tokens = ((l :: ls).flatMap fun m =>
        composeLine (indentOf s.tokens) m setup.config.separator fun _ => setup.config.separator) ∧
      (∀ m ∈ l :: ls, m.Fits) ∧ (∃ c ∈ l.cells.head?, c.kind = .name ∨ c.kind = .argument) ∧
      (∀ m ∈ ls, ∃ c ∈ m.cells.head?, c.kind = .continuation) ∧
      dataTexts ((l :: ls).flatMap (·.cells)) = dataTexts s.tokens ∧
      ((l :: ls).flatMap fun l => l.comment.toList.map (·.value)) =
        (joinComments setup.config.separator (commentTokens s.tokens)).toList.map (·.value) ∧
      (l :: ls).map (·.cells) = fillRows (indentOf s.tokens) ((dataTokens s.tokens).take size)
        ((dataTokens s.tokens).drop size) setup.config.separator setup.config.lineLength
        everyArg := by
  obtain ⟨row, more, hrows, hdata, ⟨c, rest, rfl, hcell, hlead, hk, hrest⟩, hmore⟩ :=
    rows_spec h hs (indentOf s.tokens) setup.config.separator setup.config.lineLength everyArg
  obtain ⟨hcomment, -⟩ := joinComments_spec setup.config.separator h.laid.commentTokens
  obtain ⟨front, e, htokens, he⟩ := h.laid.getLast?
  have hend : s.tokens.getLast?.getD noEnding = e := by rw [htokens, List.getLast?_concat]; rfl
  rw [splitTokens, hrows, composeRows_eq, hend]
  generalize joinComments setup.config.separator (commentTokens s.tokens) = comment at *
  have hends := ends_rowLayouts hv.isBreak he hcomment
    ((c :: rest) :: more.map (continuationMarker :: ·))
  have hcells := cells_rowLayouts setup.newline comment e
    ((c :: rest) :: more.map (continuationMarker :: ·))
  have hcomments := comments_rowLayouts setup.newline comment e
    (List.cons_ne_nil (c :: rest) (more.map (continuationMarker :: ·)))
  have htexts : dataTexts (((c :: rest) :: more.map (continuationMarker :: ·)).flatten) =
      dataTexts s.tokens := by
    rw [List.flatten_cons, dataTexts_append, dataTexts_markers, ← dataTexts_append, hdata]
    simp [dataTexts, dataTokens]
  have hfit : ∀ r ∈ (c :: rest) :: more.map (continuationMarker :: ·),
      (∀ d ∈ r.head?, IsCell d.value ∧ d.IsLead) ∧ ∀ d ∈ r.tail, d.IsRest := by
    intro r hr
    rcases List.mem_cons.1 hr with rfl | hr
    · refine ⟨fun d hd => ?_, hrest⟩
      obtain rfl := Option.some.inj hd
      exact ⟨hcell, hlead⟩
    · obtain ⟨args, hargs, rfl⟩ := List.mem_map.1 hr
      refine ⟨fun d hd => ?_, hmore args hargs⟩
      obtain rfl := Option.some.inj hd
      exact isLead_continuationMarker
  -- from here on only the cells, comments and endings of the layouts matter
  generalize rowLayouts setup.newline comment e _ = layouts at hends hcells hcomments
  cases layouts with
  | nil => cases hcells
  | cons l ls =>
    obtain ⟨hl, hls⟩ := List.cons.inj hcells
    refine ⟨l, ls, rfl, fun m hm => ?_, ⟨c, by rw [show l.cells = c :: rest from hl]; rfl, hk⟩,
      fun m hm => ?_, ?_, hcomments, hcells⟩
    · obtain ⟨hc, he⟩ := hends m hm
      obtain ⟨hhead, htail⟩ := hfit m.cells (hcells ▸ List.mem_map_of_mem hm)
      exact ⟨hhead, htail, hc, he⟩
    · have hmem : m.cells ∈ more.map (continuationMarker :: ·) := hls ▸ List.mem_map_of_mem hm
      obtain ⟨r, -, hr⟩ := List.mem_map.1 hmem
      exact ⟨continuationMarker, by rw [← hr]; rfl, rfl⟩
    · rw [List.flatMap_def, hcells, htexts]

/-- **A statement that is split stays sound.** -/
theorem sound_splitTokens (hv : setup.IsValid) (h : s.IsSound kind) (hs : headSize s = some size) :
    (s.withTokens (splitTokens setup everyArg size s.tokens)).IsSound kind := by
  obtain ⟨l, ls, htokens, hfits, hl, hls, hdata, hcomments, -⟩ :=
    layouts_splitTokens everyArg hv h hs
  obtain ⟨-, hnone⟩ := joinComments_spec setup.config.separator h.laid.commentTokens
  rw [htokens]
  refine h.ofLayouts (headSize_spec h hs).1 hv.separator (fun _ => hv.separator) hfits hl hls hdata
    ?_
  rw [hcomments, commentTexts, List.isEmpty_map, List.isEmpty_map, ← hnone]
  cases joinComments setup.config.separator (commentTokens s.tokens) <;> rfl

/-- A statement that is split holds its cells, and its comments as one. -/
theorem texts_splitTokens (everyArg : Bool) (hv : setup.IsValid) (h : s.IsSound kind)
    (hs : headSize s = some size) :
    dataTexts (splitTokens setup everyArg size s.tokens) = dataTexts s.tokens ∧
      commentTexts (splitTokens setup everyArg size s.tokens) =
        if commentTexts s.tokens = [] then []
        else [setup.config.separator.intercalate (commentTexts s.tokens)] := by
  obtain ⟨l, ls, htokens, hfits, -, -, hdata, hcomments, -⟩ :=
    layouts_splitTokens everyArg hv h hs
  obtain ⟨hd, hc⟩ := texts_flatMap_composeLine (indentOf s.tokens) setup.config.separator
    (fun _ => setup.config.separator) hfits
  rw [htokens, hd, hc, hdata, hcomments, commentTexts]
  refine ⟨rfl, ?_⟩
  cases commentTokens s.tokens with
  | nil => rfl
  | cons c cs => rfl

/-- What stands in place of a statement. -/
theorem split_eq_some (h : split setup s = some new) : ∃ size everyArg,
    headSize s = some size ∧ new = s.withTokens (splitTokens setup everyArg size s.tokens) := by
  rw [split] at h
  obtain ⟨size, hsize, h⟩ := Option.bind_eq_some_iff.1 h
  split at h
  · cases h
  · dsimp only at h
    split at h
    · cases h
    · exact ⟨size, _, hsize, (Option.some.inj h).symm⟩

/-- **Splitting of long lines keeps files sound.** -/
theorem keepsSound_pass : pass.KeepsSound := by
  refine Pass.keepsSound_ofItems ?_ ?_
  · intro setup kind sc s new hv h hsh hs
    obtain ⟨size, everyArg, hsize, rfl⟩ := split_eq_some (Decision.ofOption_eq_put h)
    exact sound_splitTokens hv hs hsize
  · intro setup sc s new h ht
    obtain ⟨size, -, hsize, -⟩ := split_eq_some (Decision.ofOption_eq_put h)
    simp [headSize, ht] at hsize

/-- The rows of a statement hold data and markers. -/
theorem kind_of_mem_fillRows {indent separator : String} {limit : Int} {ts : List Token}
    {size : Nat} {row : List Token}
    (hr : row ∈ fillRows indent ((dataTokens ts).take size) ((dataTokens ts).drop size) separator
      limit everyArg) : ∀ c ∈ row, c.kind ≠ .eol := by
  obtain ⟨extra, more, hrows, hargs⟩ := fillFrom_spec indent separator limit everyArg
    ((dataTokens ts).take size) ((dataTokens ts).drop size)
  have hdata : ∀ c ∈ (dataTokens ts).take size ++ extra ++ more.flatten, c.kind ≠ .eol := by
    intro c hc hk
    rw [List.append_assoc, hargs, List.take_append_drop] at hc
    have := (List.mem_filter.1 hc).2
    simp [Token.isData, TokenKind.isData, hk] at this
  rw [fillRows, hrows] at hr
  intro c hc
  rcases List.mem_cons.1 hr with rfl | hr
  · exact hdata c (List.mem_append_left _ hc)
  · obtain ⟨args, hargs, rfl⟩ := List.mem_map.1 hr
    rcases List.mem_cons.1 hc with rfl | hc
    · simp [continuationMarker, Token.create]
    · exact hdata c (List.mem_append_right _ (List.mem_flatten.2 ⟨args, hargs, hc⟩))

/-- Rows end as the statement did, or with a line break that is put between them. -/
theorem ending_of_mem_composeRows {indent separator newline : String} {comment : Option Token}
    {ending t : Token} {rows : List (List Token)} (hr : ∀ row ∈ rows, ∀ c ∈ row, c.kind ≠ .eol)
    (hc : ∀ c ∈ comment, c.kind ≠ .eol)
    (ht : t ∈ composeRows indent separator newline comment ending rows) (hk : t.kind = .eol) :
    t.value = newline ∨ t.value = ending.value := by
  fun_induction composeRows indent separator newline comment ending rows with
  | case1 => simp at ht
  | case2 row => exact .inr (ending_of_mem_composeLine (hr row (by simp)) hc ht hk)
  | case3 row next rows ih =>
    rcases List.mem_append.1 ht with ht | ht
    · exact .inl (ending_of_mem_composeLine (hr row (by simp)) (by simp) ht hk)
    · exact ih (fun row hrow => hr row (List.mem_cons_of_mem _ hrow)) ht

/-- **Splitting of long lines keeps line breaks.** -/
theorem keepsBreaks_pass : pass.KeepsBreaks := by
  refine Pass.keepsBreaks_ofStatements ?_
  intro N setup sc s new _ hn h hs
  obtain ⟨size, everyArg, -, rfl⟩ := split_eq_some (Decision.ofOption_eq_put h)
  obtain ⟨front, e, htokens, he, -⟩ := hs.concat
  have hlast : s.tokens.getLast?.getD noEnding = e := by
    rw [htokens, List.getLast?_concat]
    rfl
  refine ⟨hs.breaks.of_mem fun t ht hk => ?_, fun hu => ?_⟩
  · have hcomment : ∀ c ∈ joinComments setup.config.separator (commentTokens s.tokens),
        c.kind ≠ .eol := by
      intro c hc hk
      cases hcs : commentTokens s.tokens with
      | nil => simp [hcs, joinComments] at hc
      | cons d ds =>
        have hd := (List.mem_filter.1 (hcs ▸ List.mem_cons_self : d ∈ commentTokens s.tokens)).2
        rw [hcs] at hc
        obtain rfl := Option.some.inj hc
        simp [Token.isComment, show d.kind = .eol from hk] at hd
    rcases ending_of_mem_composeRows (fun row => kind_of_mem_fillRows) hcomment ht hk with hv | hv
    · exact .inl (.inr (hv ▸ hn))
    · refine .inr ⟨e, ?_, he, by rw [hv, hlast]⟩
      rw [htokens]
      exact List.mem_append_right _ List.mem_cons_self
  · obtain ⟨extra, more, hrows, -⟩ := fillFrom_spec (indentOf s.tokens) setup.config.separator
      setup.config.lineLength everyArg ((dataTokens s.tokens).take size)
      ((dataTokens s.tokens).drop size)
    obtain ⟨new, hnew⟩ : ∃ new, splitTokens setup everyArg size s.tokens = new ++ [e] := by
      rw [splitTokens, fillRows, hrows, hlast]
      exact composeRows_concat (List.cons_ne_nil _ _)
    have hend : (s.withTokens (splitTokens setup everyArg size s.tokens)).tokens = new ++ [e] :=
      hnew
    rw [isUnterminated_concat hend] at hu
    rwa [isUnterminated_concat htokens]

end

end Split

end RobotSuite
