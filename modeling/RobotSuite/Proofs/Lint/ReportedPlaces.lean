/-
# Places of diagnostics

Rules report at the places of tokens, statements and tags, and a rule that fails is reported where
the node starts.  All of these are places of the source (`Rule.places_all`).  Two rules count on
from there:

* the length of a line is measured, and the place behind its limit is counted, in the line as it is
  shown, without blanks at its end and with its tabs expanded, so the place need not be in the line
  that the source holds (`IsPastLimit`);
* a reminder is looked for in the small letters of a comment, which may be longer than the comment,
  and so it may be found behind its end (`IsBehindComment`).

Everything else that a check reports has a place of the source (`diagnostics_real`).
-/

import RobotSuite.Lint.Check
import RobotSuite.Proofs.Data.WholeNumbers
import RobotSuite.Proofs.Lint.CheckedFixes
import RobotSuite.Proofs.Lint.TagPlaces
import RobotSuite.Proofs.Token.TextPlaces
import RobotSuite.Proofs.Walk.Scopes

namespace RobotSuite

open Text (units)

/-! ## Places that are counted -/

/-- The limit on the length of lines. -/
def LintConfig.lineLimit (config : LintConfig) : Rat :=
  (config.paramsOf SizeRules.lineInfo.code).number "lineLength" 120

/-- The markers of reminders. -/
def LintConfig.markers (config : LintConfig) : List String :=
  (config.paramsOf StyleRules.reminderInfo.code).texts "markers" StyleRules.defaultMarkers

/-- A report on a line that is too long.  It gives the number of the line and the column behind the
limit, which is no column of the line in the source: the limit is no whole number, or the line is
shorter than that before its tabs are expanded. -/
structure IsPastLimit (source : String) (limit : Rat) (d : Diagnostic) : Prop where
  code : d.code = SizeRules.lineInfo.code
  place : ∃ (n : Nat) (line : List Char), (Text.splitOn '\n' source.toList)[n]? = some line ∧
    limit < units (SizeRules.shownLine line) ∧
    d.location.line = 1 + n ∧ d.location.column = Number.add limit 1 ∧
    (Text.length source + 1 < 2 ^ 53 → ∀ k : Nat, limit = k → units line < k)

/-- A report on a marker that is found behind the end of a comment. -/
structure IsBehindComment (source : String) (markers : List String) (d : Diagnostic) : Prop where
  code : d.code = StyleRules.reminderInfo.code
  place : ∃ s ∈ (parse source).statements, ∃ t ∈ commentTokens s.tokens, ∃ marker ∈ markers,
    ∃ start, StyleRules.findMarker t.value marker = some start ∧
      d.location = (t.span.start.shift start).spot ∧ Text.length t.value < start

/-- A diagnostic with a place of the source, or with one that is counted elsewhere. -/
def Diagnostic.IsPlaced (source : String) (config : LintConfig) (d : Diagnostic) : Prop :=
  d.location.IsReal source ∨ IsPastLimit source config.lineLimit d ∨
    IsBehindComment source config.markers d

/-! ## Nodes of a model -/

/-- A node of the model of a source: the model itself, one of its statements, or something whose
header is one. -/
def Node.IsOf (source : String) : Node → Prop
  | .statement s => s ∈ (parse source).statements
  | .container (.file f) => f = parse source
  | .container c => ∀ h ∈ c.header?, h ∈ (parse source).statements

section
variable {source : String} {s : Statement} {t : Token}

/-- The nodes visited are of the file. -/
theorem isOf_of_visits {v : Step × Scope} {node : Node} (hv : v ∈ (parse source).visits)
    (hnode : v.1.node? = some node) : node.IsOf source := by
  obtain ⟨step, sc⟩ := v
  cases step with
  | enter c =>
    obtain rfl : Node.container c = node := Option.some.inj hnode
    have hheader : ∀ h ∈ c.header?, h ∈ (parse source).statements :=
      fun h hh => header_mem_of_containers (mem_containers_of_visits hv rfl) hh
    cases c with
    | file f => exact eq_file_of_visits hv rfl
    | _ => exact hheader
  | meet s =>
    obtain rfl : Node.statement s = node := Option.some.inj hnode
    have hmem : s ∈ metStatements (parse source).steps :=
      List.mem_filterMap.2 ⟨.meet s, mem_steps_of_withScopes hv, rfl⟩
    rwa [metStatements_file] at hmem
  | leave c => cases hnode

/-- The name is one of the tokens. -/
theorem mem_tokens_of_name (h : s.name = some t) : t ∈ s.tokens :=
  (List.mem_filter.1 (List.mem_of_mem_drop (List.mem_of_head? h))).1

/-- The arguments are among the tokens. -/
theorem mem_tokens_of_args (h : t ∈ s.args) : t ∈ s.tokens :=
  (List.mem_filter.1 (List.mem_of_mem_drop (List.mem_of_mem_tail h))).1

/-- Tokens of the model start at places of the source. -/
theorem isReal_token (hs : s ∈ (parse source).statements) (ht : t ∈ s.tokens) :
    t.span.start.spot.IsReal source :=
  (isReal_of_mem ((tokens_consecutive hs).subset ht)).1.spot

/-- A statement starts at a place of the source. -/
theorem isReal_statement (hs : s ∈ (parse source).statements) : s.span.start.spot.IsReal source :=
  ((isReal_parse source).2.1 s hs).spot

/-- A tag stands at a place of the source. -/
theorem isReal_tag {ctx : RuleContext} {tag : TagRules.TagRef} (hs : s ∈ (parse source).statements)
    (htag : tag ∈ TagRules.collectTags ctx s) : tag.location.spot.IsReal source :=
  ((TagRules.stand_collectTags ctx (tokens_consecutive hs)).1 tag htag).2.2.isReal.spot

/-- The headers of the blocks in a model are statements of the model. -/
theorem header_mem_of_blocksOf {type : BlockType} {f : File} {b : Block}
    (hb : b ∈ StyleRules.blocksOf type f) : b.header ∈ f.statements := by
  obtain ⟨sect, hsect, hb⟩ := List.mem_flatMap.1 (List.mem_filter.1 hb).1
  obtain ⟨item, hitem, hblock⟩ := List.mem_filterMap.1 hb
  refine List.mem_flatMap.2 ⟨sect, hsect, List.mem_append_right _ ?_⟩
  refine List.mem_flatMap.2 ⟨item, hitem, ?_⟩
  cases item with
  | statement s => cases hblock
  | block b' =>
    obtain rfl : b' = b := Option.some.inj hblock
    exact List.mem_cons_self

end

/-! ## Rules -/

/-- A rule whose reports at the nodes of a model have places, and which fails at nodes with places
only. -/
def Rule.Places (source : String) (config : LintConfig) (r : Rule) : Prop :=
  ∀ (ctx : RuleContext) (node : Node), ctx.source = source → ctx.params = config.paramsOf r.code →
    node.IsOf source → match r.validate ctx node with
      | .ok ds => ∀ d ∈ ds, d.IsPlaced source config
      | .error _ => node.start.IsReal source

namespace Rule
variable {source : String} {config : LintConfig} {r : Rule} {info : RuleInfo}
  {types : StatementType → Bool}

/-! ### Kinds of rules -/

/-- A statement rule is placed if its check is. -/
theorem places_ofStatements {check : RuleContext → Statement → List Diagnostic}
    (h : ∀ ctx s, ctx.params = config.paramsOf info.code → s ∈ (parse source).statements →
      ∀ d ∈ check ctx s, d.IsPlaced source config) :
    (ofStatements info types check).Places source config := by
  intro ctx node _ hparams hnode
  cases node with
  | statement s => exact h ctx s hparams hnode
  | container c => exact List.forall_mem_nil _

/-- A file rule is placed if its check is. -/
theorem places_ofFile {check : RuleContext → File → List Diagnostic}
    (h : ∀ ctx, ∀ d ∈ check ctx (parse source), d.location.IsReal source) :
    (ofFile info check).Places source config := by
  intro ctx node _ _ hnode
  cases node with
  | statement s => exact List.forall_mem_nil _
  | container c =>
    cases c with
    | file f =>
      obtain rfl : f = parse source := hnode
      exact fun d hd => .inl (h ctx d hd)
    | _ => exact List.forall_mem_nil _

/-- Rules on keywords report at the header. -/
theorem places_ofKeywords {check : RuleContext → Block → List Diagnostic}
    (h : ∀ ctx b, ∀ d ∈ check ctx b, d.location = b.header.span.start.spot) :
    (ofKeywords info check).Places source config := by
  intro ctx node _ _ hnode
  cases node with
  | statement s => exact List.forall_mem_nil _
  | container c =>
    cases c with
    | block b =>
      have hheader : b.header ∈ (parse source).statements := hnode b.header rfl
      exact fun d hd => .inl (h ctx b d hd ▸ isReal_statement hheader)
    | _ => exact List.forall_mem_nil _

/-! ### Rules on tags -/

/-- A repetition is one of the tags. -/
theorem mem_of_mem_repetitions {seen : List (String × TagRules.TagRef)}
    {tags : List TagRules.TagRef} {p : TagRules.TagRef × TagRules.TagRef}
    (hp : p ∈ TagRules.repetitions seen tags) : p.1 ∈ tags := by
  induction tags generalizing seen with
  | nil => cases hp
  | cons tag tags ih =>
    rw [TagRules.repetitions] at hp
    split at hp
    · rcases List.mem_cons.1 hp with rfl | hp
      · exact List.mem_cons_self
      · exact List.mem_cons_of_mem _ (ih hp)
    · exact List.mem_cons_of_mem _ (ih hp)

theorem places_duplicated : TagRules.duplicated.Places source config := by
  refine places_ofStatements fun ctx s _ hs d hd => ?_
  obtain ⟨⟨tag, first⟩, hp, rfl⟩ := List.mem_map.1 hd
  exact .inl (isReal_tag hs (mem_of_mem_repetitions hp))

theorem places_onTags {isBad : String → Bool} {message : String → String} :
    (TagRules.onTags info isBad message).Places source config := by
  refine places_ofStatements fun ctx s _ hs d hd => ?_
  obtain ⟨tag, htag, rfl⟩ := List.mem_map.1 hd
  exact .inl (isReal_tag hs (List.mem_filter.1 htag).1)

theorem places_empty : TagRules.empty.Places source config := by
  refine places_ofStatements fun ctx s _ hs d hd => ?_
  split at hd
  · obtain rfl := List.mem_singleton.1 hd
    refine .inl ?_
    show (Location.spot ((s.name.map fun t => t.span.start).getD s.span.start)).IsReal source
    cases hname : s.name with
    | none => exact isReal_statement hs
    | some t => exact isReal_token hs (mem_tokens_of_name hname)
  · cases hd

theorem places_alreadySet : TagRules.alreadySet.Places source config := by
  refine places_ofStatements fun ctx s _ hs d hd => ?_
  split at hd
  · obtain ⟨t, ht, hset⟩ := List.mem_filterMap.1 hd
    obtain ⟨setting, -, rfl⟩ := Option.map_eq_some_iff.1 hset
    exact .inl (isReal_token hs (mem_tokens_of_args ht))
  · cases hd

/-! ### Rules on names -/

/-- The called keyword is one of the tokens. -/
theorem mem_tokens_of_calledKeyword {s : Statement} {t : Token} {next : Option Token}
    (h : NameRules.calledKeyword s = some (t, next)) : t ∈ s.tokens := by
  rw [NameRules.calledKeyword] at h
  split_ifs at h
  · obtain ⟨name, hname, heq⟩ := Option.map_eq_some_iff.1 h
    obtain rfl : name = t := congrArg Prod.fst heq
    exact mem_tokens_of_name hname
  · obtain ⟨first, hfirst, heq⟩ := Option.map_eq_some_iff.1 h
    obtain rfl : first = t := congrArg Prod.fst heq
    exact mem_tokens_of_args (List.mem_of_head? hfirst)

theorem places_behaviour : NameRules.behaviour.Places source config := by
  refine places_ofStatements fun ctx s _ hs d hd => ?_
  split at hd
  · cases hd
  · rename_i t next hcall
    split at hd
    · obtain rfl := List.mem_singleton.1 hd
      exact .inl (isReal_token hs (mem_tokens_of_calledKeyword hcall))
    · cases hd

/-- The rule on the case of names may fail, at the statement that has the name. -/
theorem places_nameCase : NameRules.nameCase.Places source config := by
  intro ctx node _ _ hnode
  cases node with
  | container c => exact List.forall_mem_nil _
  | statement s =>
    have hstart := (isReal_parse source).2.1 s hnode
    have hcheck : ∀ t ∈ s.name, match NameRules.checkCase ctx t with
        | .ok ds => ∀ d ∈ ds, d.IsPlaced source config
        | .error _ => s.span.start.IsReal source := by
      intro t ht
      unfold NameRules.checkCase
      split_ifs
      · exact List.forall_mem_nil _
      · cases NameRules.breaksNamed t.value (ctx.params.text "convention" "")
            (ctx.params.text "pattern" "") with
        | error reason => exact hstart
        | ok breaks =>
          cases breaks with
          | false => exact List.forall_mem_nil _
          | true =>
            refine List.forall_mem_singleton.2 (.inl ?_)
            exact isReal_token hnode (mem_tokens_of_name ht)
    show match ((s.name.map (NameRules.checkCase ctx)).getD (pure [])) with
      | .ok ds => ∀ d ∈ ds, d.IsPlaced source config
      | .error _ => s.span.start.IsReal source
    cases hname : s.name with
    | none => exact List.forall_mem_nil _
    | some t => exact hcheck t hname

theorem places_upperElse : NameRules.upperElse.Places source config := by
  refine places_ofStatements fun ctx s _ hs d hd => ?_
  obtain ⟨t, ht, rfl⟩ := List.mem_map.1 hd
  have hmem := (List.mem_filter.1 ht).1
  rw [NameRules.elseCandidates] at hmem
  split_ifs at hmem
  · exact .inl (isReal_token hs (mem_tokens_of_args hmem))
  · exact .inl (isReal_token hs (mem_tokens_of_name (Option.mem_toList.1 hmem)))
  · cases hmem

/-! ### Rules on empty space -/

theorem places_indent : SpaceRules.indent.Places source config := by
  refine places_ofStatements fun ctx s _ hs d hd => ?_
  dsimp only at hd
  split at hd
  · rename_i cell hcell
    split at hd
    · cases hd
    · obtain rfl := List.mem_singleton.1 hd
      exact .inl (isReal_token hs (List.mem_of_find?_eq_some hcell))
  · cases hd

/-- The gap that ends a line is one of its tokens. -/
theorem mem_of_trailingGap? {line : List Token} {t : Token}
    (h : SpaceRules.trailingGap? line = some t) : t ∈ line := by
  have hlast := (Option.filter_eq_some_iff.1 h).1
  exact (List.mem_filter.1 (List.mem_of_getLast? hlast)).1

theorem places_trailing : SpaceRules.trailing.Places source config := by
  refine places_ofStatements fun ctx s _ hs d hd => ?_
  obtain ⟨t, ht, rfl⟩ := List.mem_map.1 hd
  obtain ⟨line, hline, hgap⟩ := List.mem_filterMap.1 ht
  refine .inl (isReal_token hs ?_)
  rw [← flatten_splitLines s.tokens]
  exact List.mem_flatten.2 ⟨line, hline, mem_of_trailingGap? hgap⟩

/-- The element at a place is one of the list. -/
theorem mem_of_elementAt {α : Type} {xs : List α} {place : Rat} {a : α}
    (h : SpaceRules.elementAt xs place = some a) : a ∈ xs := by
  rw [SpaceRules.elementAt] at h
  split_ifs at h
  exact List.mem_of_getElem? h

/-- The inner runs hold statements of the list only. -/
theorem mem_of_innerRuns {run ss : List Statement} : ∀ part ∈ SpaceRules.innerRuns run ss,
    ∀ s ∈ part, s ∈ run ∨ s ∈ ss := by
  induction ss generalizing run with
  | nil => exact List.forall_mem_nil _
  | cons next ss ih =>
    rw [SpaceRules.innerRuns]
    have hnext {front : List Statement} (hfront : ∀ s ∈ front, s ∈ run ∨ s ∈ next :: ss) :
        ∀ part ∈ SpaceRules.innerRuns front ss, ∀ s ∈ part, s ∈ run ∨ s ∈ next :: ss :=
      fun part hpart s hs => (ih part hpart s hs).elim (hfront s)
        fun hmem => .inr (List.mem_cons_of_mem _ hmem)
    split_ifs
    · refine hnext (List.forall_mem_append.2 ⟨fun s hs => .inl hs, ?_⟩)
      exact List.forall_mem_singleton.2 (.inr List.mem_cons_self)
    · exact hnext (List.forall_mem_nil _)
    · exact List.forall_mem_cons.2 ⟨fun s hs => .inl hs, hnext (List.forall_mem_nil _)⟩

theorem places_emptyRun : SpaceRules.emptyRun.Places source config := by
  refine places_ofFile fun ctx d hd => ?_
  obtain ⟨run, hrun, hreport⟩ := List.mem_filterMap.1 hd
  obtain ⟨s, hs, rfl⟩ := Option.map_eq_some_iff.1 hreport
  rcases mem_of_innerRuns run hrun s (mem_of_elementAt hs) with hnone | hmem
  · cases hnone
  · exact isReal_statement hmem

/-- The gap of the other style is one of the gaps. -/
theorem mem_of_firstOfOtherStyle {gaps : List Token} {t : Token}
    (h : SpaceRules.firstOfOtherStyle gaps = some t) : t ∈ gaps := by
  cases gaps with
  | nil => cases h
  | cons first gaps => exact List.mem_cons_of_mem _ (List.mem_of_find?_eq_some h)

theorem places_mixed : SpaceRules.mixed.Places source config := by
  refine places_ofFile fun ctx d hd => ?_
  obtain ⟨t, ht, rfl⟩ := List.mem_map.1 hd
  have hgap := mem_of_firstOfOtherStyle (Option.mem_toList.1 ht)
  obtain ⟨s, hs, hmem⟩ := List.mem_flatMap.1 (List.mem_filter.1 hgap).1
  exact isReal_token hs hmem

/-! ### Rules on size -/

/-- A long line is reported by its number and offset. -/
theorem place_longLines {isLong : List Char → Bool} {number offset : Nat}
    {lines : List (List Char)}
    (h : HoldsAt source ⟨number, 1, offset⟩ (['\n'].intercalate lines))
    (hfeed : ∀ line ∈ lines, '\n' ∉ line) : ∀ e ∈ SizeRules.longLines isLong number offset lines,
      ∃ (n : Nat) (line : List Char), lines[n]? = some line ∧
        isLong (SizeRules.shownLine line) = true ∧ e.1 = number + n ∧
          HoldsAt source ⟨e.1, 1, e.2.1⟩ line := by
  induction lines generalizing number offset with
  | nil => exact List.forall_mem_nil _
  | cons line lines ih =>
    obtain ⟨hline, hfeed⟩ := List.forall_mem_cons.1 hfeed
    have hfirst : HoldsAt source ⟨number, 1, offset⟩ line := by
      cases lines with
      | nil => rwa [List.intercalate_singleton] at h
      | cons next lines =>
        rw [List.intercalate_cons_cons] at h
        exact h.start_part.start_part
    have hrest : ∀ e ∈ SizeRules.longLines isLong (number + 1) (offset + units line + 1) lines,
        ∃ (n : Nat) (l : List Char), (line :: lines)[n]? = some l ∧
          isLong (SizeRules.shownLine l) = true ∧ e.1 = number + n ∧
            HoldsAt source ⟨e.1, 1, e.2.1⟩ l := by
      intro e he
      cases lines with
      | nil => cases he
      | cons next lines =>
        rw [List.intercalate_cons_cons] at h
        have hnext := h.behind
        rw [Location.advance_append, Location.advance_of_noFeed _ hline] at hnext
        obtain ⟨n, l, hl, hlong, hnumber, hholds⟩ := ih hnext hfeed e he
        exact ⟨n + 1, l, hl, hlong, hnumber.trans (Nat.add_right_comm number 1 n), hholds⟩
    rw [SizeRules.longLines]
    split_ifs with hlong
    · exact List.forall_mem_cons.2 ⟨⟨0, line, rfl, hlong, rfl, hfirst⟩, hrest⟩
    · exact hrest

/-- The column behind a limit is a column of a line that is not shorter. -/
theorem isReal_limit {number offset k : Nat} {line : List Char}
    (h : HoldsAt source ⟨number, 1, offset⟩ line) (hfeed : '\n' ∉ line) (hk : k ≤ units line)
    (hsource : Text.length source + 1 < 2 ^ 53) :
    Spot.IsReal source ⟨number, Number.add k 1, Number.add offset k⟩ := by
  obtain ⟨n, hn, hstop, -⟩ := h.slice
  have hoffset : offset = n := Int.ofNat.inj (congrArg Location.offset hn)
  have hadd (a b : Nat) (hab : a + b < 2 ^ 53) : Number.add a b = ((a + b : Nat) : Rat) := by
    rw [Number.add, ← Nat.cast_add, Number.toBinary_natCast hab]
  have hcolumn : Number.add k 1 = ((1 + k : Nat) : Rat) :=
    (hadd k 1 (by omega)).trans (congrArg _ (Nat.add_comm k 1))
  have hplace := hadd offset k (by omega)
  rw [hcolumn, hplace]
  exact (h.isReal_shift hfeed hk).spot

/-- The rule on long lines may fail, at the file. -/
theorem places_line : SizeRules.line.Places source config := by
  intro ctx node hctx hparams hnode
  cases node with
  | statement s => exact List.forall_mem_nil _
  | container c =>
    cases c with
    | file f =>
      obtain rfl : f = parse source := hnode
      subst hctx
      unfold SizeRules.line
      dsimp only
      cases NameRules.readPattern .lenient
          (ctx.params.text "ignorePattern" SizeRules.defaultExempt) with
      | error reason => exact (isReal_parse _).2.2
      | ok exempt =>
        intro d hd
        obtain ⟨⟨number, offset, length⟩, he, rfl⟩ := List.mem_map.1 hd
        have hlimit : ctx.params.number "lineLength" 120 = config.lineLimit :=
          congrArg (fun ps : Params => ps.number "lineLength" 120) hparams
        rw [hlimit] at he ⊢
        have hstart : HoldsAt ctx.source ⟨1, 1, ((0 : Nat) : Int)⟩
            (['\n'].intercalate (Text.splitOn '\n' ctx.source.toList)) := by
          rw [Text.intercalate_splitOn]
          exact ⟨[], [], by simp, (Location.inSource_units (List.nil_append _).symm).symm⟩
        obtain ⟨n, line, hline, hlong, rfl, hholds⟩ := place_longLines hstart
          (fun line hmem => Text.not_mem_of_mem_splitOn hmem) _ he
        have hfeed := Text.not_mem_of_mem_splitOn (List.mem_of_getElem? hline)
        have hlong := of_decide_eq_true (Bool.and_eq_true_iff.1 hlong).1
        by_cases hfits : Text.length ctx.source + 1 < 2 ^ 53 ∧
            ∃ k : Nat, config.lineLimit = k ∧ k ≤ units line
        · obtain ⟨hsource, k, hk, hle⟩ := hfits
          rw [hk]
          exact .inl (isReal_limit hholds hfeed hle hsource)
        · refine .inr (.inl ⟨rfl, n, line, hline, hlong, by push_cast; rfl, rfl, ?_⟩)
          intro hsource k hk
          exact Nat.lt_of_not_le fun hle => hfits ⟨hsource, k, hk, hle⟩
    | _ => exact List.forall_mem_nil _

theorem places_arguments : SizeRules.arguments.Places source config := by
  refine places_ofKeywords fun ctx b d hd => ?_
  dsimp only at hd
  split_ifs at hd
  · obtain rfl := List.mem_singleton.1 hd
    rfl
  · cases hd

theorem places_calls : SizeRules.calls.Places source config := by
  refine places_ofKeywords fun ctx b d hd => ?_
  dsimp only at hd
  split_ifs at hd
  · obtain rfl := List.mem_singleton.1 hd
    rfl
  · cases hd

/-! ### Rules on style -/

/-- A repeated block is one of the blocks. -/
theorem mem_of_mem_repeated {seen : List (String × Block)} {bs : List Block} {p : Block × Block}
    (hp : p ∈ StyleRules.repetitions seen bs) : p.1 ∈ bs := by
  induction bs generalizing seen with
  | nil => cases hp
  | cons b bs ih =>
    rw [StyleRules.repetitions] at hp
    split at hp
    · rcases List.mem_cons.1 hp with rfl | hp
      · exact List.mem_cons_self
      · exact List.mem_cons_of_mem _ (ih hp)
    · exact List.mem_cons_of_mem _ (ih hp)

theorem places_repeatedNames {type : BlockType} {what : String} :
    (StyleRules.repeatedNames info type what).Places source config := by
  refine places_ofFile fun ctx d hd => ?_
  obtain ⟨⟨b, first⟩, hp, rfl⟩ := List.mem_map.1 hd
  exact isReal_statement (header_mem_of_blocksOf (mem_of_mem_repeated hp))

theorem places_documentation : StyleRules.documentation.Places source config := by
  refine places_ofKeywords fun ctx b d hd => ?_
  split_ifs at hd
  · cases hd
  · obtain rfl := List.mem_singleton.1 hd
    rfl

theorem places_forceTags : StyleRules.forceTags.Places source config := by
  refine places_ofStatements fun ctx s _ hs d hd => ?_
  split_ifs at hd
  · obtain ⟨t, ht, rfl⟩ := List.mem_map.1 hd
    exact .inl (isReal_token hs (mem_tokens_of_name (Option.mem_toList.1 ht)))
  · cases hd

theorem places_singularHeader : StyleRules.singularHeader.Places source config := by
  refine places_ofStatements fun ctx s _ hs d hd => ?_
  split at hd
  · rename_i t sect hname _
    obtain ⟨plural, -, rfl⟩ := List.mem_map.1 hd
    exact .inl (isReal_token hs (mem_tokens_of_name hname))
  · cases hd

theorem places_reminder : StyleRules.reminder.Places source config := by
  refine places_ofStatements fun ctx s hparams hs d hd => ?_
  obtain ⟨t, ht, hd⟩ := List.mem_flatMap.1 hd
  obtain ⟨marker, hmarker, hd⟩ := List.mem_filterMap.1 hd
  obtain ⟨start, hstart, rfl⟩ := Option.map_eq_some_iff.1 hd
  rw [hparams] at hmarker
  obtain ⟨hmem, hcomment⟩ := List.mem_filter.1 ht
  by_cases hinside : start ≤ Text.length t.value
  · have htoken := (tokens_consecutive hs).subset hmem
    obtain ⟨line, hline, htoken'⟩ := List.mem_flatten.1 htoken
    have hkind : t.kind ≠ .eol := by
      intro hk
      simp [Token.isComment, hk] at hcomment
    have hfeed := noFeed_of_mem_tokenize hline t htoken' hkind
    exact .inl ((holdsAt_start htoken).isReal_shift hfeed hinside).spot
  · exact .inr (.inr ⟨rfl, s, hs, t, ht, marker, hmarker, start, hstart, rfl,
      Nat.lt_of_not_le hinside⟩)

/-- A misplaced header is one of the headers. -/
theorem mem_of_misplacedHeaders {highest : Nat} {headers : List (Token × Nat)} :
    ∀ t ∈ StyleRules.misplacedHeaders highest headers, ∃ p ∈ headers, p.1 = t := by
  induction headers generalizing highest with
  | nil => exact List.forall_mem_nil _
  | cons p headers ih =>
    have hrest (highest : Nat) : ∀ t ∈ StyleRules.misplacedHeaders highest headers,
        ∃ q ∈ p :: headers, q.1 = t := fun t ht =>
      (ih t ht).imp fun q hq => ⟨List.mem_cons_of_mem _ hq.1, hq.2⟩
    obtain ⟨header, place⟩ := p
    rw [StyleRules.misplacedHeaders]
    split_ifs
    · exact List.forall_mem_cons.2 ⟨⟨_, List.mem_cons_self, rfl⟩, hrest _⟩
    · exact hrest _

theorem places_order : StyleRules.order.Places source config := by
  refine places_ofFile fun ctx d hd => ?_
  obtain ⟨t, ht, rfl⟩ := List.mem_map.1 hd
  obtain ⟨⟨_, place⟩, hp, rfl⟩ := mem_of_misplacedHeaders t ht
  obtain ⟨sect, hsect, hplace⟩ := List.mem_filterMap.1 hp
  rw [StyleRules.headerPlace] at hplace
  split at hplace
  · rename_i name order hname _
    obtain rfl : name = _ := congrArg Prod.fst (Option.some.inj hplace)
    obtain ⟨header, hheader, hname⟩ := Option.bind_eq_some_iff.1 hname
    have hmem : header ∈ (parse source).statements :=
      List.mem_flatMap.2 ⟨sect, hsect, List.mem_append_left _ (Option.mem_toList.2 hheader)⟩
    exact isReal_token hmem (mem_tokens_of_name hname)
  · cases hplace

/-- **Rules report at places.** -/
theorem places_all : ∀ r ∈ Rule.all, r.Places source config := by
  simp only [Rule.all, List.forall_mem_cons]
  exact ⟨places_duplicated, places_onTags, places_onTags, places_onTags, places_empty,
    places_alreadySet, places_behaviour, places_nameCase, places_upperElse, places_indent,
    places_trailing, places_emptyRun, places_mixed, places_line, places_arguments, places_calls,
    places_repeatedNames, places_repeatedNames, places_documentation, places_forceTags,
    places_singularHeader, places_reminder, places_order, by simp⟩

/-- A configuration says how severe a finding is, and a failure is found where the node starts. -/
theorem Places.run (h : r.Places source config) {lines : Array (List Char)} {f : File} {sc : Scope}
    {node : Node} (hnode : node.IsOf source) :
    ∀ d ∈ (r.run config source lines f sc node).diagnostics, d.IsPlaced source config := by
  have hplaces := h ⟨source, lines, f, sc, config.paramsOf r.code⟩ node rfl rfl hnode
  rw [Rule.run]
  cases hv : r.validate ⟨source, lines, f, sc, config.paramsOf r.code⟩ node with
  | ok ds =>
    rw [hv] at hplaces
    dsimp only
    split
    · exact hplaces
    · intro d hd
      obtain ⟨e, he, rfl⟩ := List.mem_map.1 hd
      refine (hplaces e he).imp_right (.imp ?_ ?_)
      · exact fun hlimit => ⟨hlimit.code, hlimit.place⟩
      · exact fun hbehind => ⟨hbehind.code, hbehind.place⟩
  | error reason =>
    rw [hv] at hplaces
    exact List.forall_mem_singleton.2 (.inl hplaces.spot)

end Rule

/-! ## Checks -/

/-- **Diagnostics have places of the source.**  Defects and what the rules report, failures of rules
included, stand at an offset of the source, with the line and the column of that offset.  Excepted
are lines that are too long as they are shown, and reminders that are found behind the end of a
comment. -/
theorem diagnostics_real (source : String) (config : LintConfig) :
    ∀ d ∈ (checkSource source config Rule.all).diagnostics, d.location.IsReal source ∨
      IsPastLimit source config.lineLimit d ∨ IsBehindComment source config.markers d := by
  intro d hd
  rcases cases_of_checkSource hd with ⟨e, he, rfl⟩ | ⟨visit, hvisit, node, hnode, r, hr, hd⟩
  · exact .inl ((isReal_parse source).1 e he).spot
  · exact (Rule.places_all r hr).run (isOf_of_visits hvisit hnode) d hd

set_option maxRecDepth 100000 in
/-- A tag behind another in a documentation, in a source with carriage returns. -/
theorem diagnostics_real_of_tag :
    let source := "*** Keywords ***\r\nK\r\n    [Documentation]    Tags: a, b c\r\n"
    let d : Diagnostic :=
      { location := ⟨3, 33, 53⟩
        severity := .warning
        code := "TAG_WITH_SPACE"
        message := "Tag 'b c' contains spaces"
        context := "[Documentation]    Tags: a, b c"
        fix := none }
    d ∈ (checkSource source LintConfig.default Rule.all).diagnostics ∧
      d.location.IsReal source := by
  intro source d
  have hd : d ∈ (checkSource source LintConfig.default Rule.all).diagnostics := by
    refine (perm_sortDiagnostics _).mem_iff.2 (List.mem_append_right _ ?_)
    exact (perm_sortDiagnostics _).mem_iff.2 (by decide +kernel)
  refine ⟨hd, (diagnostics_real source LintConfig.default d hd).resolve_right ?_⟩
  rintro (hlimit | hbehind)
  · exact absurd hlimit.code (by decide)
  · exact absurd hbehind.code (by decide)

set_option maxRecDepth 100000 in
/-- A line of six characters is seventeen columns long with its tabs expanded, and is reported
behind the limit of sixteen, at a column and an offset that the source does not have. -/
theorem not_diagnostics_real_of_tabs :
    let source := "A\t\t\t\tB\n"
    let config : LintConfig :=
      { LintConfig.default with
        params := LintConfig.default.params.set "LINE_TOO_LONG"
          [("lineLength", .number 16), ("ignorePattern", .text SizeRules.defaultExempt)] }
    LintConfig.read (.mapping [("params", .mapping
        [("LINE_TOO_LONG", .mapping [("lineLength", .number 16)])])]) = .ok config ∧
      ∃ d ∈ (checkSource source config Rule.all).diagnostics,
        d.location = ⟨1, 17, 16⟩ ∧ ¬ d.location.IsReal source := by
  intro source config
  let d : Diagnostic :=
    { location := ⟨1, 17, 16⟩
      severity := .warning
      code := "LINE_TOO_LONG"
      message := "Line is too long (17/16)"
      context := "A\t\t\t\tB"
      fix := none }
  refine ⟨by rfl, d, ?_, rfl, ?_⟩
  · refine (perm_sortDiagnostics _).mem_iff.2 (List.mem_append_right _ ?_)
    exact (perm_sortDiagnostics _).mem_iff.2 (by decide +kernel)
  · rintro ⟨n, hn, hplace⟩
    have hoffset : (16 : Rat) = ((n : Int) : Rat) := congrArg Spot.offset hplace
    have hlength : Text.length source = 7 := by decide
    have : (16 : Int) = n := by exact_mod_cast hoffset
    omega

end RobotSuite
