/-
# Valid sources

A source that is read without a defect makes a model whose tree is well placed: statements
stand in front of blocks, blocks hold what bodies may hold, and control statements start with
their markers.  Line breaks stand at the ends of lines only, but for one gap: nothing is
said of a carriage return inside a comment when it is read, while the check of the tree takes
it for a line break.  So the model is valid exactly if no comment holds one
(`parse_valid_iff`).
-/

import RobotSuite.Format.Run
import RobotSuite.Proofs.Token.Grammar
import RobotSuite.Proofs.Tree.SoundReading
import RobotSuite.Proofs.Tree.Valid

namespace RobotSuite

open Text (isGap)

/-! ## Tokens without line breaks -/

section
variable {k : Option TokenKind} {line : List Token}

/-- A text is unbroken when it holds neither return nor feed. -/
theorem isUnbroken_iff {cs : List Char} : isUnbroken cs = true ↔ '\r' ∉ cs ∧ '\n' ∉ cs := by
  simp only [isUnbroken, List.all_eq_true, Bool.and_eq_true, bne_iff_ne]
  constructor
  · exact fun h => ⟨fun hr => (h _ hr).1 rfl, fun hn => (h _ hn).2 rfl⟩
  · exact fun h c hc => ⟨fun hr => h.1 (hr ▸ hc), fun hn => h.2 (hn ▸ hc)⟩

/-- The program's test is the one of the specification. -/
theorem hasLineBreak_eq_false {s : String} :
    hasLineBreak s = false ↔ isUnbroken s.toList = true := by
  simp [hasLineBreak, isUnbroken]

/-- A gap is unbroken. -/
theorem isUnbroken_of_all_isGap {cs : List Char} (h : cs.all isGap = true) :
    isUnbroken cs = true := by
  rw [List.all_eq_true] at h
  rw [isUnbroken_iff]
  exact ⟨fun hr => absurd (h _ hr) (by decide), fun hn => absurd (h _ hn) (by decide)⟩

/-- A cell is unbroken. -/
theorem IsCell.isUnbroken {s : String} (h : IsCell s) : RobotSuite.isUnbroken s.toList = true := by
  have hp := h.plain
  rw [List.any_eq_false] at hp
  rw [isUnbroken_iff]
  exact ⟨fun hr => hp _ hr (by decide), fun hn => hp _ hn (by decide)⟩

/-- A remark is unbroken but for its comments. -/
theorem Remark.isUnbroken {ts : List Token} (h : Remark ts) :
    ∀ t ∈ ts, t.kind ≠ .comment → RobotSuite.isUnbroken t.value.toList = true := by
  cases h with
  | plain hk _ => simp [hk]
  | trailed hk _ _ hg => simpa [hk] using fun _ => isUnbroken_of_all_isGap hg.2

/-- An indent is unbroken. -/
theorem Indent.isUnbroken {ts : List Token} (h : Indent ts) :
    ∀ t ∈ ts, RobotSuite.isUnbroken t.value.toList = true := by
  cases h with
  | none => simp
  | gap _ hg => simpa using isUnbroken_of_all_isGap hg.2

/-- What follows the first cell is unbroken but for comments. -/
theorem Tail.isUnbroken {ts : List Token} (h : Tail ts) :
    ∀ t ∈ ts, t.kind ≠ .comment → RobotSuite.isUnbroken t.value.toList = true := by
  induction h with
  | nil => simp
  | gap _ hg => simpa using fun _ => isUnbroken_of_all_isGap hg.2
  | remark _ hw hr =>
    intro t ht
    rcases List.mem_cons.1 ht with rfl | ht
    · exact fun _ => isUnbroken_of_all_isGap hw.1
    · exact hr.isUnbroken t ht
  | cell _ hw _ hc _ ih =>
    intro t ht
    rcases List.mem_cons.1 ht with rfl | ht
    · exact fun _ => isUnbroken_of_all_isGap hw.1
    · rcases List.mem_cons.1 ht with rfl | ht
      · exact fun _ => hc.isUnbroken
      · exact ih t ht

/-- Only comments and line endings of a line can hold line breaks. -/
theorem Written.isUnbroken (h : Written k line) : ∀ t ∈ line, t.kind ≠ .eol →
    t.kind ≠ .comment → RobotSuite.isUnbroken t.value.toList = true := by
  obtain ⟨hl, he⟩ := h
  intro t ht hkind hc
  rcases List.mem_append.1 ht with ht | ht
  · cases hl with
    | blank hi => exact hi.isUnbroken t ht
    | remark hi hr =>
      rcases List.mem_append.1 ht with ht | ht
      · exact hi.isUnbroken t ht
      · exact hr.isUnbroken t ht hc
    | cells hi hcell _ htail =>
      rcases List.mem_append.1 ht with ht | ht
      · exact hi.isUnbroken t ht
      · rcases List.mem_cons.1 ht with rfl | ht
        · exact hcell.isUnbroken
        · exact htail.isUnbroken t ht hc
  · obtain rfl := List.mem_singleton.1 ht
    exact absurd he.kind hkind

end

/-! ## Tokens of a source -/

section
variable {lines : List (List Piece)}

/-- A line ending is the last token of its line. -/
theorem TokenLine.kind_ne_eol {line : List Piece} (h : TokenLine line) :
    ∀ p ∈ line.dropLast, p.1 ≠ .eol := by
  obtain @⟨row, ending, hfits, -⟩ := h
  intro p hp
  rw [List.dropLast_concat] at hp
  obtain ⟨front, back, hrow⟩ := List.append_of_mem hp
  exact (hfits front p back hrow).inner

/-- A token that is no line ending fits where it stands. -/
theorem TokenLine.exists_fits {line : List Piece} (h : TokenLine line) :
    ∀ p ∈ line, p.1 ≠ .eol → ∃ row front back, Fits row front p back := by
  obtain @⟨row, ending, hfits, -⟩ := h
  intro p hp hk
  rcases List.mem_append.1 hp with hp | hp
  · obtain ⟨front, back, hrow⟩ := List.append_of_mem hp
    exact ⟨row, front, back, hfits front p back hrow⟩
  · obtain rfl := List.mem_singleton.1 hp
    exact absurd rfl hk

/-- Only the ending of a line holds a feed. -/
theorem TokenLine.noFeed {line : List Piece} (h : TokenLine line) :
    ∀ p ∈ line, p.1 ≠ .eol → '\n' ∉ p.2 := by
  intro p hp hk
  obtain ⟨row, front, back, hfits⟩ := h.exists_fits p hp hk
  exact hfits.unbroken

/-- Only the ending of a line may be empty. -/
theorem TokenLine.ne_nil {line : List Piece} (h : TokenLine line) :
    ∀ p ∈ line, p.1 ≠ .eol → p.2 ≠ [] := by
  intro p hp hk
  obtain ⟨row, front, back, hfits⟩ := h.exists_fits p hp hk
  exact hfits.ne_nil

/-- All line endings of well-formed lines but the last are line breaks. -/
theorem WellFormed.ending_ne_nil (h : WellFormed lines) :
    ∀ p ∈ lines.flatten.dropLast, p.1 = .eol → p.2 ≠ [] := by
  obtain ⟨hline, hended⟩ := h
  induction lines with
  | nil => simp
  | cons line lines ih =>
    have hfirst := (hline line List.mem_cons_self).kind_ne_eol
    rw [List.flatten_cons]
    by_cases hnil : lines.flatten = []
    · rw [hnil, List.append_nil]
      exact fun p hp hk => absurd hk (hfirst p hp)
    · have hlines : lines ≠ [] := by
        rintro rfl
        exact hnil rfl
      rw [List.dropLast_cons_of_ne_nil hlines] at hended
      rw [List.dropLast_append_of_ne_nil hnil]
      intro p hp hk
      rcases List.mem_append.1 hp with hp | hp
      · rcases mem_dropLast_or_getLast? hp with hp | hp
        · exact absurd hk (hfirst p hp)
        · intro hv
          refine hended line List.mem_cons_self ?_
          rw [hp, ← hk, ← hv]
      · exact ih (fun l hl => hline l (List.mem_cons_of_mem _ hl))
          (fun l hl => hended l (List.mem_cons_of_mem _ hl)) p hp hk

end

/-- All line endings of a source but the last are line breaks. -/
theorem ending_ne_of_mem_tokenize {source : String} :
    ∀ t ∈ (tokenize source).flatten.dropLast, t.kind = .eol → t.value ≠ "" := by
  intro t ht hk hv
  have hmem : t.piece ∈ (typed (tokenize source)).flatten.dropLast := by
    rw [typed, ← List.map_flatten, ← List.map_dropLast]
    exact List.mem_map_of_mem ht
  exact (wellFormed_lines (.ofSource source)).ending_ne_nil _ hmem hk (by simp [Token.piece, hv])

/-- Nothing but line endings of a source holds a line feed. -/
theorem noFeed_of_mem_tokenize {source : String} {line : List Token}
    (hline : line ∈ tokenize source) : ∀ t ∈ line, t.kind ≠ .eol → '\n' ∉ t.value.toList := by
  intro t ht
  have hmem : line.map Token.piece ∈ typed (tokenize source) := List.mem_map_of_mem hline
  exact ((wellFormed_lines (.ofSource source)).line _ hmem).noFeed t.piece (List.mem_map_of_mem ht)

/-- Nothing but line endings of a source is empty. -/
theorem ne_of_mem_tokenize {source : String} {line : List Token} (hline : line ∈ tokenize source) :
    ∀ t ∈ line, t.kind ≠ .eol → t.value ≠ "" := by
  intro t ht hk hempty
  have hmem : line.map Token.piece ∈ typed (tokenize source) := List.mem_map_of_mem hline
  refine ((wellFormed_lines (.ofSource source)).line _ hmem).ne_nil t.piece
    (List.mem_map_of_mem ht) hk ?_
  simp [Token.piece, hempty]

/-! ## Statements without flaws -/

/-- Unbroken tokens with endings in place have no flaws. -/
theorem tokenFlaws_of {type : StatementType} {ts : List Token}
    (hu : ∀ t ∈ ts, t.kind ≠ .eol → isUnbroken t.value.toList = true)
    (he : ∀ t ∈ ts.dropLast, t.kind = .eol → t.value ≠ "") : tokenFlaws type ts = [] := by
  induction ts with
  | nil => rfl
  | cons t ts ih =>
    rw [tokenFlaws, List.append_eq_nil_iff]
    refine ⟨?_, ih (fun r hr => hu r (List.mem_cons_of_mem _ hr)) fun r hr => he r ?_⟩
    · by_cases hk : t.kind = .eol
      · have heol : t.isEol = true := by simp [Token.isEol, hk]
        rw [if_pos heol]
        refine if_neg fun h => ?_
        simp only [Bool.and_eq_true, decide_eq_true_eq, Bool.not_eq_true',
          List.isEmpty_eq_false_iff] at h
        refine he t ?_ hk h.1
        rw [List.dropLast_cons_of_ne_nil h.2]
        exact List.mem_cons_self
      · have heol : t.isEol = false := by simpa [Token.isEol] using hk
        have := hasLineBreak_eq_false.2 (hu t List.mem_cons_self hk)
        simp [heol, this]
    · rw [List.dropLast_cons_of_ne_nil (by rintro rfl; simp at hr)]
      exact List.mem_cons_of_mem _ hr

/-- A body type with a marker is that of data that starts with the marker. -/
theorem marker_of_bodyType {data : List Token} {m : String}
    (hm : (bodyType data).marker? = some m) : data.head?.map (·.value) = some m := by
  have hmarker? : ∀ t, t ∈ [StatementType.inlineIf, .keywordCall, .blockSetting] →
      t.marker? = none := by decide
  unfold bodyType at hm
  dsimp only at hm
  split at hm
  · split at hm <;> simp [StatementType.marker?] at hm
  · rename_i hassigned
    have hnone : (data.takeWhile fun t => isAssignment t.value) = [] := by simpa using hassigned
    have hcell {t : StatementType} (ht : StatementType.ofMarker?
        ((((data.drop (data.takeWhile fun t => isAssignment t.value).length).head?).map
          (·.value)).getD "") = some t) (hm : t.marker? = some m) :
        data.head?.map (·.value) = some m := by
      have hvalue := ofMarker?_eq_some ht
      rw [hm, hnone, List.length_nil, List.drop_zero] at hvalue
      have hm : m ≠ "" := by
        rintro rfl
        cases t <;> simp [StatementType.marker?] at hm
      cases hd : data.head? with
      | none =>
        rw [hd] at hvalue
        exact absurd (Option.some.inj hvalue) hm
      | some d =>
        rw [hd] at hvalue
        simpa using hvalue.symm
    split at hm
    · simp [StatementType.marker?] at hm
    · split at hm
      · simp [StatementType.marker?] at hm
      · rename_i ht
        split at hm
        · simp [StatementType.marker?] at hm
        · exact hcell ht hm
      · rename_i ht
        exact hcell ht hm

section
variable {kind : SectionKind} {s : Statement}

/-- A sound control statement starts with its marker. -/
theorem Statement.IsSound.marker (h : s.IsSound kind) :
    ∀ m ∈ s.type.marker?, s.name.map (·.value) = some m := by
  intro m hm
  obtain ⟨-, -, hplain, hdata⟩ := readsAs_iff.1 h.reads
  have hassign : s.assign = [] := by
    refine if_neg fun ht => ?_
    rw [ht] at hm
    cases hm
  have hbody : s.type = bodyType (dataTokens s.tokens) := by
    by_cases hd : dataTexts s.tokens = []
    · rw [hplain hd] at hm
      split at hm <;> cases hm
    · have htype := (hdata hd).1
      rw [htype] at hm ⊢
      cases kind <;> simp only [dataType] at hm ⊢ <;> (try split at hm) <;>
        first
        | cases hm
        | (rename_i hn; rw [if_neg hn])
  rw [hbody] at hm
  have := marker_of_bodyType hm
  rw [Statement.name, hassign, List.length_nil, List.drop_zero]
  exact this

/-- What is laid out holds line breaks in its comments and line endings only. -/
theorem Laid.isUnbroken {header : Bool} {ts : List Token} (hl : Laid header (splitLines ts))
    (hc : ∀ t ∈ ts, t.kind = .comment → RobotSuite.isUnbroken t.value.toList = true) :
    ∀ t ∈ ts, t.kind ≠ .eol → RobotSuite.isUnbroken t.value.toList = true := by
  intro t ht hk
  by_cases hcom : t.kind = .comment
  · exact hc t ht hcom
  · have hmem := ht
    rw [← flatten_splitLines ts] at hmem
    obtain ⟨line, hline, hmem⟩ := List.mem_flatten.1 hmem
    obtain ⟨k, hk'⟩ := hl.written line hline
    exact hk'.isUnbroken t hmem hk hcom

/-- A statement that is laid out has no flaw if its comments hold no line break and its line
endings inside are line breaks. -/
theorem Statement.flaws_of_laid {header : Bool} (hl : Laid header (splitLines s.tokens))
    (hm : ∀ m ∈ s.type.marker?, s.name.map (·.value) = some m)
    (hc : ∀ t ∈ s.tokens, t.kind = .comment → isUnbroken t.value.toList = true)
    (he : ∀ t ∈ s.tokens.dropLast, t.kind = .eol → t.value ≠ "") : s.flaws = [] := by
  obtain ⟨front, e, htokens, hbreak⟩ := hl.getLast?
  have hlast : s.lastEol = some e := by
    rw [Statement.lastEol, htokens, List.getLast?_concat]
    simp [Token.isEol, hbreak.kind]
  have hu := hl.isUnbroken hc
  rw [Statement.flaws, hlast, tokenFlaws_of hu he]
  cases hmarker : s.type.marker? with
  | none => rfl
  | some m =>
    have := hm m hmarker
    simp [this]

end

/-! ## Well-formed trees -/

section
variable {P : Statement → Prop}

mutual

/-- A well-formed item of statements without flaws has no issues. -/
theorem BodyItem.Holds.issues : ∀ {item : BodyItem}, item.Holds P →
    (∀ s ∈ item.statements, s.flaws = []) → item.issues = []
  | .statement s, h, hf => by
    rw [BodyItem.Holds] at h
    rw [BodyItem.issues, Statement.bodyIssues, if_pos h.1, Statement.issues,
      hf s (by simp [BodyItem.statements])]
    rfl
  | .control c, h, hf => by
    rw [BodyItem.Holds] at h
    rw [BodyItem.issues]
    exact h.issues hf

/-- The same for a control block. -/
theorem ControlBlock.Holds.issues : ∀ {c : ControlBlock}, c.Holds P →
    (∀ s ∈ c.statements, s.flaws = []) → c.issues = []
  | ⟨type, _, header, body, branches, close, _⟩, h, hf => by
    rw [ControlBlock.Holds] at h
    obtain ⟨-, hbody, hbranches, r, rfl, -, -⟩ := h
    simp only [ControlBlock.statements, List.forall_mem_cons, List.mem_append, Option.mem_toList,
      or_imp, forall_and] at hf
    obtain ⟨hheader, ⟨hb, hbs⟩, hclose⟩ := hf
    have hend := hclose r rfl
    rw [ControlBlock.issues, bodyIssues_of_holds hbody hb, branchesIssues_of_hold hbranches hbs,
      Statement.issues, hheader]
    simp [Statement.issues, hend]

/-- In a well-formed body only flaws of statements can be found. -/
theorem bodyIssues_of_holds : ∀ {body : List BodyItem}, bodyHolds P body →
    (∀ s ∈ bodyStatements body, s.flaws = []) → bodyIssues body = []
  | [], _, _ => by rw [bodyIssues]
  | item :: items, h, hf => by
    rw [bodyHolds] at h
    rw [bodyStatements, List.forall_mem_append] at hf
    rw [bodyIssues, h.1.issues hf.1, bodyIssues_of_holds h.2 hf.2]
    rfl

/-- The same for the branches of a block. -/
theorem branchesIssues_of_hold {type : ControlType} : ∀ {bs : List Branch},
    branchesHold P type bs → (∀ s ∈ branchesStatements bs, s.flaws = []) →
      branchesIssues type bs = []
  | [], _, _ => by rw [branchesIssues]
  | ⟨_, header, body, _⟩ :: bs, h, hf => by
    rw [branchesHold, Branch.Holds] at h
    obtain ⟨⟨⟨ht, -⟩, hbody⟩, hbs⟩ := h
    rw [branchesStatements, Branch.statements, List.cons_append, List.forall_mem_cons,
      List.forall_mem_append] at hf
    obtain ⟨hheader, hb, hrest⟩ := hf
    rw [branchesIssues, bodyIssues_of_holds hbody hb, branchesIssues_of_hold hbs hrest,
      Statement.issues, hheader, ControlType.takesBranch_iff.2 ht]
    rfl

end

/-- The same for a block. -/
theorem Block.issues_of_holds {kind : SectionKind} {b : Block}
    (h : (SectionItem.block b).Holds P kind) (hf : ∀ s ∈ b.statements, s.flaws = []) :
    b.issues = [] := by
  rw [Block.statements, List.forall_mem_cons] at hf
  rw [Block.issues, Statement.issues, hf.1, bodyIssues_of_holds h.2 hf.2]
  rfl

/-- The same for the blocks of a section. -/
theorem itemsIssues_of_blocks {kind : SectionKind} {seen : Bool} {blocks : List Block}
    (h : ∀ item ∈ blocks.map SectionItem.block, item.Holds P kind)
    (hf : ∀ s ∈ itemsStatements (blocks.map .block), s.flaws = []) :
    itemsIssues kind seen (blocks.map .block) = [] := by
  induction blocks generalizing seen with
  | nil => rfl
  | cons b blocks ih =>
    rw [List.map_cons, List.forall_mem_cons] at h
    rw [List.map_cons, itemsStatements, List.flatMap_cons, List.forall_mem_append] at hf
    rw [List.map_cons, itemsIssues, if_pos h.1.1.1, Block.issues_of_holds h.1 hf.1, ih h.2 hf.2]
    rfl

/-- What may stand in a section may stand in one of a kind that lists it. -/
theorem SectionItem.Holds.listed {kind : SectionKind} {item : SectionItem}
    (h : item.Holds P kind) : item.Holds P kind.listed := by
  cases kind with
  | inherited name =>
    cases item with
    | statement s =>
      refine ⟨?_, h.2⟩
      have hs := h.1
      cases ht : s.type <;> simp [ht, StatementType.inSection] at hs ⊢
    | block b =>
      have hb := h.1.1
      cases ht : b.type <;> simp [ht, BlockType.inSection] at hb
  | _ => exact h

/-- In a section with the statements in front of the blocks only flaws of statements can be
found. -/
theorem itemsIssues_of_holds {kind : SectionKind} {lead : List Statement} {blocks : List Block}
    (hcheck : isUncheckable kind (lead.map .statement ++ blocks.map .block) = false)
    (h : ∀ item ∈ lead.map SectionItem.statement ++ blocks.map .block, item.Holds P kind)
    (hf : ∀ s ∈ itemsStatements (lead.map .statement ++ blocks.map .block), s.flaws = []) :
    itemsIssues kind false (lead.map .statement ++ blocks.map .block) = [] := by
  induction lead with
  | nil => exact itemsIssues_of_blocks h hf
  | cons s lead ih =>
    have hkind : kind.isInherited = false := by
      simpa [isUncheckable, SectionItem.isBlock] using hcheck
    rw [List.map_cons, List.cons_append, List.forall_mem_cons] at h
    rw [List.map_cons, List.cons_append, itemsStatements, List.flatMap_cons,
      List.forall_mem_append] at hf
    have hflaws := hf.1 s (by simp [SectionItem.statements])
    rw [List.map_cons, List.cons_append, itemsIssues, ih (by rw [isUncheckable, hkind]; rfl) h.2 hf.2,
      StatementType.isListed, hkind, h.1.1, Statement.issues, hflaws]
    rfl

end

/-! ## Sections of a source -/

/-- Marking keeps what leads the blocks. -/
theorem leadsBlocks_markOwnedItems {items : List SectionItem} (h : leadsBlocks items) :
    leadsBlocks (markOwnedItems items) := by
  obtain ⟨lead, blocks, rfl⟩ := h
  induction lead with
  | nil =>
    refine ⟨[], blocks.map fun b => { b with body := markOwnedBody b.body }, ?_⟩
    induction blocks with
    | nil => rfl
    | cons b blocks ih =>
      rw [List.map_nil, List.nil_append] at ih ⊢
      rw [List.map_cons, markOwnedItems, ih]
      rfl
  | cons s lead ih =>
    obtain ⟨lead', blocks', h⟩ := ih
    rw [List.map_cons, List.cons_append, markOwnedItems, h]
    exact ⟨_ :: lead', blocks', rfl⟩

/-- In front of the first name stand statements. -/
theorem blockPart_none (owner : BlockType) (ss : List Statement) :
    ∃ lead : List Statement, (blockPart owner (none, ss)).1 = lead.map .statement := by
  induction ss with
  | nil => exact ⟨[], rfl⟩
  | cons s ss ih =>
    obtain ⟨lead, h⟩ := ih
    obtain ⟨r, hr⟩ : ∃ r, (leadingItem owner s).1 = .statement r := by
      unfold leadingItem
      split <;> exact ⟨_, rfl⟩
    refine ⟨r :: lead, ?_⟩
    rw [List.map_cons, ← h, ← hr]
    rfl

/-- In a section read, statements lead the blocks. -/
theorem leadsBlocks_buildItems (kind : SectionKind) (groups : List (List Token)) :
    leadsBlocks (buildItems kind groups).1 := by
  rw [buildItems]
  split
  · exact ⟨_, [], (List.append_nil _).symm⟩
  · rename_i owner _
    have hblocks {parts : List (Option Statement × List Statement)}
        (h : ∀ p ∈ parts, p.1 ≠ none) : ∃ blocks : List Block,
          parts.flatMap (fun p => (blockPart owner p).1) = blocks.map .block := by
      induction parts with
      | nil => exact ⟨[], rfl⟩
      | cons p parts ih =>
        obtain ⟨⟨_ | header, ss⟩, hp⟩ : ∃ q, q = p := ⟨p, rfl⟩
        · exact absurd (congrArg Prod.fst hp).symm (h p List.mem_cons_self)
        · obtain ⟨blocks, hb⟩ := ih fun q hq => h q (List.mem_cons_of_mem _ hq)
          rw [List.flatMap_cons, hb, ← hp]
          exact ⟨_ :: blocks, rfl⟩
    simp only [buildBlocks, List.flatMap_map]
    generalize (groups.map (classify kind)).map (·.1) = ss
    have htail : ∀ p ∈ (splitParts isBlockName ss).tail, p.1 ≠ none := splitParts_tail
    cases hs : splitParts isBlockName ss with
    | nil => exact ⟨[], [], rfl⟩
    | cons p parts =>
      rw [hs] at htail
      rw [List.tail_cons] at htail
      obtain ⟨blocks, hb⟩ := hblocks htail
      rw [List.flatMap_cons, hb]
      obtain ⟨header, lead⟩ := p
      cases header with
      | none =>
        obtain ⟨lead', hlead⟩ := blockPart_none owner lead
        exact ⟨lead', blocks, by rw [hlead]⟩
      | some header => exact ⟨[], _ :: blocks, rfl⟩

section
variable {source : String}

/-- In a parsed file statements lead the blocks, and only the first section lacks a header. -/
theorem parse_sections (source : String) :
    (∀ s ∈ (parse source).sections, leadsBlocks s.body) ∧
      ∀ s ∈ (parse source).sections.tail, s.header ≠ none := by
  rw [parse, parseTokens_sections]
  constructor
  · intro s hs
    obtain ⟨p, -, rfl⟩ := List.mem_map.1 hs
    rw [markedSection]
    refine leadsBlocks_markOwnedItems ?_
    rw [(buildSection_spec p.1 p.2).2.1]
    exact leadsBlocks_buildItems _ _
  · intro s hs
    rw [← List.map_tail] at hs
    obtain ⟨p, hp, rfl⟩ := List.mem_map.1 hs
    rw [markedSection, (buildSection_spec p.1 p.2).1]
    simpa using splitParts_tail p hp

/-- The statements of a source are separated, and their line endings inside are line
breaks. -/
theorem separated_parse (hp : (parse source).errors = []) :
    separated (parse source).statements ∧ ∀ s ∈ (parse source).statements,
      ∀ t ∈ s.tokens.dropLast, t.kind = .eol → t.value ≠ "" := by
  have hending := @ending_ne_of_mem_tokenize source
  have hlaid := (sound_parse hp).laid
  rw [← tokensOf_parseTokens (tokenize source), ← flatten_tokenLists] at hending
  change ∀ t ∈ (tokenLists (parse source).statements).flatten.dropLast, _ at hending
  generalize (parse source).statements = ss at hending hlaid
  have hne : ∀ g ∈ tokenLists ss, g ≠ [] := by
    intro g hg
    obtain ⟨s, hs, rfl⟩ := List.mem_map.1 hg
    obtain ⟨front, e, htokens, -⟩ := (hlaid s hs).getLast?
    simp [htokens]
  have hfront : ∀ s ∈ ss.dropLast, ∀ t ∈ s.tokens, t.kind = .eol → t.value ≠ "" := by
    intro s hs t ht
    refine hending t (mem_dropLast_flatten hne (g := s.tokens) ?_ t ht)
    rw [tokenLists, ← List.map_dropLast]
    exact List.mem_map_of_mem hs
  refine ⟨fun s hs => ?_, fun s hs t ht => ?_⟩
  · obtain ⟨front, e, htokens, he⟩ := (hlaid s (List.dropLast_subset _ hs)).getLast?
    have := hfront s hs e (by simp [htokens]) he.kind
    rw [Statement.isUnterminated, Statement.lastEol, htokens, List.getLast?_concat]
    simp [Token.isEol, he.kind, this]
  · rcases mem_dropLast_or_getLast? hs with hs | hs
    · exact hfront s hs t (List.dropLast_subset _ ht)
    · refine hending t ?_
      obtain ⟨front, rfl⟩ := List.getLast?_eq_some_iff.1 hs
      obtain ⟨us, e, htokens, -⟩ := (hlaid s (by simp)).getLast?
      rw [htokens, List.dropLast_concat] at ht
      rw [tokenLists, List.map_append, List.flatten_append]
      simp only [List.map_cons, List.map_nil, List.flatten_cons, List.flatten_nil, List.append_nil]
      rw [htokens, ← List.append_assoc, List.dropLast_concat]
      exact List.mem_append_right _ ht

/-- A sound file with statements in front of blocks is well placed if its statements have no
flaw. -/
theorem File.IsSound.wellPlaced {f : File} (h : f.IsSound) (hcheck : f.isUncheckable = false)
    (hlead : ∀ s ∈ f.sections, leadsBlocks s.body)
    (hheaders : ∀ s ∈ f.sections.tail, s.header ≠ none)
    (hflaws : ∀ s ∈ f.statements, s.flaws = []) : f.WellPlaced := by
  refine ⟨fun sect hsect => ?_, hheaders⟩
  have hmem : ∀ s ∈ sect.statements, s ∈ f.statements := fun s hs =>
    List.mem_flatMap.2 ⟨sect, hsect, hs⟩
  constructor
  · intro r hr
    rw [Statement.issues, hflaws r (hmem r (by simp [Section.statements, Option.mem_def.1 hr]))]
    rfl
  · have hitems := (h.sections sect hsect).items
    have hf : ∀ s ∈ itemsStatements sect.body, s.flaws = [] := fun s hs =>
      hflaws s (hmem s (by simp [Section.statements, hs]))
    obtain ⟨lead, blocks, hbody⟩ := hlead sect hsect
    have hsectcheck : RobotSuite.isUncheckable sect.kind sect.body = false :=
      Bool.eq_false_iff.2 (List.any_eq_false.1 hcheck sect hsect)
    rw [hbody] at hitems hf hsectcheck ⊢
    exact itemsIssues_of_holds hsectcheck hitems hf

/-- A sound section can be checked unless it has an inherited name and is not empty: no block may
stand in it then. -/
theorem Section.Holds.isUncheckable_iff {S H : SectionKind → Statement → Prop} {s : Section}
    (h : s.Holds S H) : s.isUncheckable = false ↔ (s.kind.isInherited = true → s.body = []) := by
  rw [Bool.eq_false_iff, Section.isUncheckable, RobotSuite.isUncheckable, ne_eq, Bool.and_eq_true,
    not_and]
  refine forall_congr' fun hkind => ?_
  rw [List.any_eq_true, List.eq_nil_iff_forall_not_mem, not_exists]
  refine forall_congr' fun item => ?_
  rw [not_and]
  refine ⟨fun hblocks hitem => ?_, fun hnone hitem => absurd hitem hnone⟩
  cases item with
  | statement s => exact hblocks hitem rfl
  | block b =>
    have hb := (h.items _ hitem).1.1
    obtain ⟨name, hname⟩ := SectionKind.isInherited_iff.1 hkind
    rw [hname] at hb
    cases hb' : b.type <;> simp [hb', BlockType.inSection] at hb

/-- A sound file can be checked exactly if the sections with inherited names are empty. -/
theorem File.IsSound.isUncheckable_iff {f : File} (h : f.IsSound) :
    f.isUncheckable = false ↔ ∀ s ∈ f.sections, s.kind.isInherited = true → s.body = [] := by
  rw [File.isUncheckable, List.any_eq_false]
  refine forall₂_congr fun s hs => ?_
  rw [← (h.sections s hs).isUncheckable_iff, Bool.eq_false_iff]

/-- A sound file with statements in front of blocks is almost placed if its statements have no
flaw. -/
theorem File.IsSound.almostPlaced {f : File} (h : f.IsSound)
    (hlead : ∀ s ∈ f.sections, leadsBlocks s.body)
    (hflaws : ∀ s ∈ f.statements, s.flaws = []) : ∀ s ∈ f.sections, s.AlmostPlaced := by
  intro sect hsect
  have hmem : ∀ s ∈ sect.statements, s.flaws = [] := fun s hs =>
    hflaws s (List.mem_flatMap.2 ⟨sect, hsect, hs⟩)
  rw [Section.statements, List.forall_mem_append] at hmem
  refine ⟨fun r hr => ?_, ?_⟩
  · rw [Statement.issues, hmem.1 r (Option.mem_toList.2 hr)]
    rfl
  · obtain ⟨lead, blocks, hbody⟩ := hlead sect hsect
    have hitems : ∀ item ∈ sect.body, item.Holds (Statement.IsSound sect.kind) sect.kind.listed :=
      fun item hitem => ((h.sections sect hsect).items item hitem).listed
    rw [hbody] at hitems hmem ⊢
    refine itemsIssues_of_holds ?_ hitems hmem.2
    cases sect.kind <;> rfl

/-- Statements of a source without defects have no flaw if their comments hold no line break. -/
theorem flaws_parse (hp : (parse source).errors = [])
    (hc : ∀ s ∈ (parse source).statements, ∀ t ∈ s.tokens, t.kind = .comment →
      isUnbroken t.value.toList = true) : ∀ s ∈ (parse source).statements, s.flaws = [] := by
  have hsound := sound_parse hp
  intro s hs
  refine Statement.flaws_of_laid (hsound.laid s hs) ?_ (hc s hs) ((separated_parse hp).2 s hs)
  obtain ⟨kind, hheader | hs⟩ := hsound.statement_cases s hs
  · rw [hheader.type]
    simp [StatementType.marker?]
  · exact hs.marker

/-- A source without defects whose comments hold no line break makes a well-placed model. -/
theorem wellPlaced_parse (hp : (parse source).errors = [])
    (hcheck : (parse source).isUncheckable = false)
    (hc : ∀ s ∈ (parse source).statements, ∀ t ∈ s.tokens, t.kind = .comment →
      isUnbroken t.value.toList = true) : (parse source).WellPlaced := by
  obtain ⟨hlead, hheaders⟩ := parse_sections source
  exact (sound_parse hp).wellPlaced hcheck hlead hheaders (flaws_parse hp hc)

/-- **When the model of a source without defects is valid.**  It is exactly if none of the
comments of the source holds a carriage return and the sections with inherited names, on which
the check fails, are empty. -/
theorem parse_valid_iff (hp : (parse source).errors = []) :
    (parse source).check = .ok [] ↔
      (∀ s ∈ (parse source).sections, s.kind.isInherited = true → s.body = []) ∧
        ∀ line ∈ tokenize source, ∀ t ∈ line, t.kind = .comment → '\r' ∉ t.value.toList := by
  have htokens : tokensOf (parse source).statements = (tokenize source).flatten :=
    tokensOf_parseTokens _
  rw [File.check_eq_ok_nil_iff, ← (sound_parse hp).isUncheckable_iff]
  constructor
  · intro hi
    refine ⟨File.isUncheckable_of_issues hi, fun line hline t ht hk => ?_⟩
    have hmem : t ∈ tokensOf (parse source).statements := by
      rw [htokens]
      exact List.mem_flatten.2 ⟨line, hline, ht⟩
    exact (isUnbroken_iff.1 (unbroken_of_issues hi t hmem (by simp [hk]))).1
  · rintro ⟨hcheck, hc⟩
    refine (wellPlaced_parse hp hcheck fun s hs t ht hk => ?_).issues_eq_nil (separated_parse hp).1
    have hmem : t ∈ tokensOf (parse source).statements := List.mem_flatMap.2 ⟨s, hs, ht⟩
    rw [htokens] at hmem
    obtain ⟨line, hline, ht⟩ := List.mem_flatten.1 hmem
    exact isUnbroken_iff.2 ⟨hc line hline t ht hk, noFeed_of_mem_tokenize hline t ht (by simp [hk])⟩

end

example : (parse "*** Settings ***\nLibrary    X\n").issues = [] := by decide +kernel

set_option maxRecDepth 100000 in
/-- A model that is valid. -/
theorem parse_valid_of_comment :
    (parse "# a\n").errors = [] ∧ (parse "# a\n").check = .ok [] := by
  have hp : (parse "# a\n").errors = [] := by decide +kernel
  exact ⟨hp, (parse_valid_iff hp).2 (by decide +kernel)⟩

set_option maxRecDepth 100000 in
/-- A carriage return in a comment is read without a defect, and no text can be written of the
model. -/
theorem parse_not_valid :
    (parse "# a\rb\n").errors = [] ∧ (parse "# a\rb\n").check ≠ .ok [] ∧
      (formatSource "# a\rb\n" .default []).1.toOption = none := by
  exact ⟨by decide +kernel, mt File.check_eq_ok_nil_iff.1 (by decide +kernel), by decide +kernel⟩

end RobotSuite
