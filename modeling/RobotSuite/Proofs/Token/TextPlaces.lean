/-
# Places of texts

A text stands at a place of a source when the source holds it from the offset of the place on, and
the line and the column of the place are those of the offset (`HoldsAt`).  The tokens of a source
stand at their starts, one behind the other (`holdsAt_start`, `pairwise_tokens`), and a statement of
the model is made of tokens that follow one another (`tokens_consecutive`).  Moving along a line
leads from the place of a text to the places of its parts (`HoldsAt.end_part`).

Reading hands places on and makes none but the start of the source: what is read from moved lines is
what is read from the lines, moved.  So a function that leaves the places of all tokens and the
start of the source where they are leaves the model as it is (`parse_moved`), and since that may be
any such function, the places in the model are among these (`isReal_parse`).
-/

import Mathlib.Data.List.Induction
import Mathlib.Data.List.Infix
import RobotSuite.Proofs.Token.Places
import RobotSuite.Proofs.Tree.JoinedSources
import RobotSuite.Proofs.Tree.ValidSources
import RobotSuite.Proofs.Walk.Scopes

namespace RobotSuite

open Text (units takeUnits dropUnits takeEndWhile codeUnits)

namespace Text

/-- Dropping the units of a prefix drops the prefix. -/
theorem dropUnits_append (a b : List Char) : dropUnits (units a) (a ++ b) = b := by
  have hcut := takeUnits_append_dropUnits (units a) (a ++ b)
  rw [takeUnits_append] at hcut
  exact List.append_cancel_left hcut

/-- The part of a text between two others is cut out where it starts. -/
theorem slice_of_toList {s : String} {front cs back : List Char}
    (h : s.toList = front ++ cs ++ back) :
    slice s (units front) (units front + units cs) = String.ofList cs := by
  rw [slice, h, List.append_assoc, dropUnits_append, Nat.add_sub_cancel_left, takeUnits_append]

end Text

/-! ## Texts -/

/-- A source holds a text at a place. -/
def HoldsAt (source : String) (l : Location) (cs : List Char) : Prop :=
  ∃ front back, source.toList = front ++ cs ++ back ∧ l = .inSource source (units front)

namespace HoldsAt
variable {source : String} {l : Location} {a b c cs : List Char}

/-- What follows a text stands where the text ends. -/
theorem behind (h : HoldsAt source l (a ++ b)) : HoldsAt source (l.advance a) b := by
  obtain ⟨front, back, hsource, rfl⟩ := h
  have hfront : source.toList = front ++ (a ++ b ++ back) := by rw [hsource, List.append_assoc]
  have hpart : source.toList = front ++ a ++ (b ++ back) := by simp [hsource]
  refine ⟨front ++ a, back, by rw [hpart, List.append_assoc _ b], ?_⟩
  rw [Location.inSource_units hfront, Location.inSource_units hpart, Location.advance_append]

/-- What holds a text holds the start of it there. -/
theorem start_part (h : HoldsAt source l (a ++ b)) : HoldsAt source l a := by
  obtain ⟨front, back, hsource, rfl⟩ := h
  exact ⟨front, b ++ back, by simp [hsource], rfl⟩

/-- On a line, what follows a text stands as far behind it as it is long. -/
theorem end_part (h : HoldsAt source l (a ++ b)) (hfeed : '\n' ∉ a) :
    HoldsAt source (l.shift (units a)) b := by
  rw [← l.advance_of_noFeed hfeed]
  exact h.behind

/-- The source is cut at the place of a text. -/
theorem slice (h : HoldsAt source l cs) : ∃ n : Nat, l = .inSource source n ∧
    n + units cs ≤ Text.length source ∧
      Text.slice source n (n + units cs) = String.ofList cs := by
  obtain ⟨front, back, hsource, rfl⟩ := h
  refine ⟨units front, rfl, ?_, Text.slice_of_toList hsource⟩
  rw [Text.length, hsource, Text.units_append, Text.units_append]
  exact Nat.le_add_right _ _

end HoldsAt

/-! ## Code units -/

namespace Text

/-- The code unit of a line feed. -/
def feedUnit : Nat := '\n'.toNat

/-- Only the feed is written with the feed's unit. -/
theorem mem_codeUnits_feed {c : Char} : feedUnit ∈ codeUnits c ↔ c = '\n' := by
  rcases codeUnits_cases c with ⟨hc, -⟩ | ⟨n, -, hn, hc⟩
  · rw [hc, List.mem_singleton, feedUnit, Char.toNat_inj, eq_comm]
  · rw [hc]
    constructor
    · intro hmem
      simp [feedUnit] at hmem
      omega
    · rintro rfl
      exact absurd hn (by simp; omega)

/-- A text holds the feed's unit exactly when it holds a feed. -/
theorem mem_flatMap_codeUnits_feed {cs : List Char} :
    feedUnit ∈ cs.flatMap codeUnits ↔ '\n' ∈ cs := by
  simp [List.mem_flatMap, mem_codeUnits_feed]

/-- Feeds may be counted by their units. -/
theorem count_flatMap_codeUnits (cs : List Char) :
    (cs.flatMap codeUnits).count feedUnit = cs.count '\n' := by
  induction cs with
  | nil => rfl
  | cons c cs ih =>
    rw [List.flatMap_cons, List.count_append, ih, List.count_cons]
    by_cases hc : c = '\n'
    · subst hc
      simp [feedUnit, codeUnits, Nat.add_comm]
    · rw [List.count_eq_zero.2 fun hmem => hc (mem_codeUnits_feed.1 hmem)]
      simp [hc]

/-- The last line may be measured by its units. -/
theorem length_takeEndWhile_codeUnits (cs : List Char) :
    (takeEndWhile (· != feedUnit) (cs.flatMap codeUnits)).length =
      units (takeEndWhile (· != '\n') cs) := by
  induction cs using List.reverseRecOn with
  | nil => rfl
  | append_singleton cs c ih =>
    rw [List.flatMap_append, List.flatMap_singleton]
    by_cases hc : c = '\n'
    · subst hc
      have hunits : codeUnits '\n' = [feedUnit] := rfl
      rw [hunits]
      simp [takeEndWhile]
    · have hall : (codeUnits c).all (· != feedUnit) = true := by
        rw [List.all_eq_true]
        intro u hu
        have : u ≠ feedUnit := fun h => hc (mem_codeUnits_feed.1 (h ▸ hu))
        simpa using this
      rw [(endWhile_append_of_all hall _).1, List.length_append, ih, length_codeUnits,
        (endWhile_append_of_all (by simpa using hc) cs).1, units_append]
      simp

end Text

/-- The place at an offset of a source, which may be inside of a character.  The line counts the
line feeds in front of it, the column the code units behind the last of them or behind the start. -/
def Location.atUnit (source : String) (n : Nat) : Location :=
  let front := (Text.unitsOf source).take n
  ⟨1 + front.count Text.feedUnit, 1 + (takeEndWhile (· != Text.feedUnit) front).length, n⟩

/-- A place of a source. -/
def Location.IsReal (source : String) (l : Location) : Prop :=
  ∃ n ≤ Text.length source, l = .atUnit source n

/-- A place of a source, as it is reported. -/
def Spot.IsReal (source : String) (s : Spot) : Prop :=
  ∃ n ≤ Text.length source, s = (Location.atUnit source n).spot

section
variable {source : String} {l : Location} {cs : List Char} {k : Nat}

/-- In front of a character it does not matter whether characters or code units are counted. -/
theorem Location.inSource_eq_atUnit {front back : List Char} (h : source.toList = front ++ back) :
    inSource source (units front) = atUnit source (units front) := by
  have htake : (Text.unitsOf source).take (units front) = front.flatMap codeUnits := by
    rw [Text.unitsOf, h, List.flatMap_append, List.take_left' (Text.length_flatMap_codeUnits front)]
  rw [inSource, h, Text.takeUnits_append, atUnit, htake, Text.count_flatMap_codeUnits,
    Text.length_takeEndWhile_codeUnits]
  rfl

/-- Along a text on one line all places are places of the source. -/
theorem HoldsAt.isReal_shift (h : HoldsAt source l cs) (hfeed : '\n' ∉ cs) (hk : k ≤ units cs) :
    (l.shift k).IsReal source := by
  obtain ⟨front, back, hsource, rfl⟩ := h
  have hunits : Text.unitsOf source =
      front.flatMap codeUnits ++ (cs.flatMap codeUnits ++ back.flatMap codeUnits) := by
    rw [Text.unitsOf, hsource, List.flatMap_append, List.flatMap_append, List.append_assoc]
  have hlength : (front.flatMap codeUnits).length = units front := Text.length_flatMap_codeUnits _
  have hcs : (cs.flatMap codeUnits).length = units cs := Text.length_flatMap_codeUnits _
  have htake : (Text.unitsOf source).take (units front) = front.flatMap codeUnits := by
    rw [hunits, List.take_left' hlength]
  have hshift : (Text.unitsOf source).take (units front + k) =
      front.flatMap codeUnits ++ (cs.flatMap codeUnits).take k := by
    rw [hunits, ← hlength, List.take_length_add_append, List.take_append_of_le_length (by omega)]
  have hline : Text.feedUnit ∉ (cs.flatMap codeUnits).take k := fun hmem =>
    hfeed (Text.mem_flatMap_codeUnits_feed.1 (List.mem_of_mem_take hmem))
  have hall : ((cs.flatMap codeUnits).take k).all (· != Text.feedUnit) = true := by
    rw [List.all_eq_true]
    intro u hu
    have : u ≠ Text.feedUnit := fun hfeed => hline (hfeed ▸ hu)
    simpa using this
  have hfront : source.toList = front ++ (cs ++ back) := by rw [hsource, List.append_assoc]
  refine ⟨units front + k, ?_, ?_⟩
  · rw [Text.length, hsource, Text.units_append, Text.units_append]
    omega
  · rw [Location.inSource_eq_atUnit hfront, Location.atUnit, Location.atUnit, hshift, htake,
      List.count_append, List.count_eq_zero.2 hline, (Text.endWhile_append_of_all hall _).1,
      List.length_append, List.length_take, hcs, Nat.min_eq_left hk]
    simp only [Location.shift, Nat.add_zero, Nat.add_assoc, Int.natCast_add]

/-- A place that holds a text is one of the source. -/
theorem HoldsAt.isReal (h : HoldsAt source l cs) : l.IsReal source := by
  have hempty : HoldsAt source l [] := h.start_part
  simpa [Location.shift] using hempty.isReal_shift (k := 0) List.not_mem_nil (Nat.zero_le _)

/-- A place that was counted is reported as it is. -/
theorem Location.IsReal.spot (h : l.IsReal source) : l.spot.IsReal source := by
  obtain ⟨n, hn, rfl⟩ := h
  exact ⟨n, hn, rfl⟩

end

/-! ## Tokens -/

section
variable {source : String}

/-- Two stretches of tokens are as long as both together. -/
theorem tokensLength_append (a b : List Token) :
    tokensLength (a ++ b) = tokensLength a + tokensLength b := by
  induction a with
  | nil => rw [List.nil_append, tokensLength, Nat.zero_add]
  | cons t a ih => rw [List.cons_append, tokensLength, tokensLength, ih, Nat.add_assoc]

/-- Rendered tokens are as long as they are together. -/
theorem units_renderTokens (ts : List Token) :
    units (renderTokens ts).toList = tokensLength ts := by
  induction ts with
  | nil => rfl
  | cons t ts ih =>
    rw [renderTokens_cons, String.toList_append, Text.units_append, ih]
    rfl

/-- A token reaches from the place of its text to the place behind it. -/
theorem exists_cut {t : Token} (ht : t ∈ (tokenize source).flatten) :
    ∃ front back, source.toList = front ++ t.value.toList ++ back ∧
      t.span = ⟨.inSource source (units front),
        .inSource source (units (front ++ t.value.toList))⟩ := by
  obtain ⟨hrender, hplaces, -⟩ := tokens_placed source
  obtain ⟨k, hk, rfl⟩ := List.getElem_of_mem ht
  have hcut := List.take_append_drop k (tokenize source).flatten
  rw [List.drop_eq_getElem_cons hk] at hcut
  refine ⟨(renderTokens ((tokenize source).flatten.take k)).toList,
    (renderTokens ((tokenize source).flatten.drop (k + 1))).toList, ?_, ?_⟩
  · conv_lhs => rw [← hrender, ← hcut]
    rw [renderTokens_append, String.toList_append, renderTokens_cons, String.toList_append,
      List.append_assoc]
  · obtain ⟨hstart, hstop⟩ := hplaces k _ (List.getElem?_eq_getElem hk)
    rw [Text.units_append, units_renderTokens]
    exact congrArg₂ Span.mk hstart hstop

/-- A token stands at its start. -/
theorem holdsAt_start {t : Token} (ht : t ∈ (tokenize source).flatten) :
    HoldsAt source t.span.start t.value.toList := by
  obtain ⟨front, back, hsource, hspan⟩ := exists_cut ht
  exact ⟨front, back, hsource, by rw [hspan]⟩

/-- A token starts and ends at places of the source. -/
theorem isReal_of_mem {t : Token} (ht : t ∈ (tokenize source).flatten) :
    t.span.start.IsReal source ∧ t.span.stop.IsReal source := by
  refine ⟨(holdsAt_start ht).isReal, ?_⟩
  obtain ⟨front, back, hsource, hspan⟩ := exists_cut ht
  have hstop : HoldsAt source t.span.stop back :=
    ⟨front ++ t.value.toList, [], by rw [hsource, List.append_nil], by rw [hspan]⟩
  exact hstop.isReal

/-- The tokens of a source stand one behind the other. -/
theorem pairwise_tokens (source : String) : (tokenize source).flatten.Pairwise fun a b =>
    a.span.start.offset + (Text.length a.value : Int) ≤ b.span.start.offset := by
  obtain ⟨-, hplaces, -⟩ := tokens_placed source
  rw [List.pairwise_iff_getElem]
  intro i j hi hj hij
  rw [(hplaces i _ (List.getElem?_eq_getElem hi)).1, (hplaces j _ (List.getElem?_eq_getElem hj)).1]
  have hprefix : (tokenize source).flatten.take (i + 1) <+: (tokenize source).flatten.take j :=
    List.take_prefix_take_left hij
  obtain ⟨back, hback⟩ := hprefix
  have hlength := congrArg tokensLength hback
  rw [tokensLength_append, List.take_add_one, List.getElem?_eq_getElem hi, tokensLength_append]
    at hlength
  simp only [Option.toList_some, tokensLength, Nat.add_zero] at hlength
  simp only [Location.inSource]
  omega

/-- The tokens of a statement follow one another in the source. -/
theorem tokens_consecutive {s : Statement} (hs : s ∈ (parse source).statements) :
    s.tokens <:+: (tokenize source).flatten := by
  rw [← tokensOf_parseTokens]
  exact List.infix_of_mem_flatten (List.mem_map_of_mem hs)

/-- A token that carries data holds text on one line. -/
theorem value_of_isData {t : Token} (ht : t ∈ (tokenize source).flatten) (hdata : t.isData = true) :
    t.value ≠ "" ∧ '\n' ∉ t.value.toList := by
  obtain ⟨line, hline, ht⟩ := List.mem_flatten.1 ht
  have hk : t.kind ≠ .eol := by
    intro hk
    simp [Token.isData, hk, TokenKind.isData] at hdata
  exact ⟨ne_of_mem_tokenize hline t ht hk, noFeed_of_mem_tokenize hline t ht hk⟩

end

/-! ## Statements of moved models -/

section
variable (f : Location → Location)

mutual

/-- The statements of a moved item are the moved statements. -/
theorem BodyItem.statements_moved : ∀ item : BodyItem,
    (item.moved f).statements = item.statements.map (Statement.moved f)
  | .statement s => rfl
  | .control c => by
    rw [BodyItem.moved, BodyItem.statements, BodyItem.statements, c.statements_moved]

/-- The same for a control block. -/
theorem ControlBlock.statements_moved : ∀ c : ControlBlock,
    (c.moved f).statements = c.statements.map (Statement.moved f)
  | ⟨_, _, _, body, branches, close, _⟩ => by
    rw [ControlBlock.moved, ControlBlock.statements, ControlBlock.statements,
      bodyStatements_moved body, branchesStatements_moved branches]
    cases close <;> simp

/-- The same for a body. -/
theorem bodyStatements_moved : ∀ items : List BodyItem,
    bodyStatements (movedBody f items) = (bodyStatements items).map (Statement.moved f)
  | [] => rfl
  | item :: items => by
    rw [movedBody, bodyStatements, bodyStatements, item.statements_moved,
      bodyStatements_moved items, List.map_append]

/-- The same for the branches of a block. -/
theorem branchesStatements_moved : ∀ bs : List Branch,
    branchesStatements (movedBranches f bs) = (branchesStatements bs).map (Statement.moved f)
  | [] => rfl
  | ⟨_, _, body, _⟩ :: bs => by
    rw [movedBranches, Branch.moved, branchesStatements, branchesStatements, Branch.statements,
      Branch.statements, bodyStatements_moved body, branchesStatements_moved bs, List.map_append]
    rfl

end

/-- The same for a section. -/
theorem Section.statements_moved (s : Section) :
    (s.moved f).statements = s.statements.map (Statement.moved f) := by
  have hitems (items : List SectionItem) : itemsStatements (items.map (SectionItem.moved f)) =
      (itemsStatements items).map (Statement.moved f) := by
    rw [itemsStatements, itemsStatements, List.flatMap_map, List.map_flatMap]
    refine List.flatMap_congr fun item _ => ?_
    cases item with
    | statement s => rfl
    | block b => exact congrArg (b.header.moved f :: ·) (bodyStatements_moved f b.body)
  rw [Section.statements, Section.statements, Section.moved, List.map_append, hitems]
  cases s.header <;> rfl

end

/-! ## Places that stay -/

section
variable {source : String} {f : Location → Location}

/-- A model stays as it is when the places of its tokens and the start of the source stay. -/
theorem parse_moved (horigin : f .origin = .origin)
    (htokens : ∀ t ∈ (tokenize source).flatten, t.moved f = t) :
    (parse source).sections.map (Section.moved f) = (parse source).sections ∧
      (parse source).errors.map (ParseError.moved f) = (parse source).errors := by
  have hlines : (tokenize source).map (·.map (Token.moved f)) = tokenize source := by
    refine (List.map_congr_left fun line hline => ?_).trans (List.map_id _)
    refine (List.map_congr_left fun t ht => ?_).trans (List.map_id _)
    exact htokens t (List.mem_flatten.2 ⟨line, hline, ht⟩)
  obtain ⟨hsections, herrors⟩ :=
    parseTokens_moved f (fun l hl => ne_nil_of_mem_tokenize hl) (.inr horigin)
  rw [hlines] at hsections herrors
  exact ⟨hsections.symm, herrors.symm⟩

end

/-- Whatever is the same list behind a function is made of its fixed points. -/
theorem eq_of_map_eq_self {α : Type} {g : α → α} {xs : List α} (h : xs.map g = xs) :
    ∀ x ∈ xs, g x = x :=
  List.map_inj_left.1 (h.trans (List.map_id xs).symm)

/-- The origin is a place of every source. -/
theorem Location.isReal_origin (source : String) : origin.IsReal source :=
  ⟨0, Nat.zero_le _, by simp [atUnit, origin, Text.takeEndWhile]⟩

/-- **The places in a model are places of the source:** those of its defects, the starts of its
statements, and its own start. -/
theorem isReal_parse (source : String) :
    (∀ e ∈ (parse source).errors, e.location.IsReal source) ∧
      (∀ s ∈ (parse source).statements, s.span.start.IsReal source) ∧
        (parse source).span.start.IsReal source := by
  classical
  -- places that are not in the source would be moved
  let f : Location → Location := fun l => if l.IsReal source then l else .origin
  have hreal {l : Location} (h : f l = l) : l.IsReal source := by
    by_contra hnot
    have horigin : Location.origin = l := by simpa [f, hnot] using h
    exact hnot (horigin ▸ Location.isReal_origin source)
  have hstay {l : Location} (h : l.IsReal source) : f l = l := if_pos h
  have htokens : ∀ t ∈ (tokenize source).flatten, t.moved f = t := by
    intro t ht
    obtain ⟨hstart, hstop⟩ := isReal_of_mem ht
    have hspan : t.span.moved f = t.span := congrArg₂ Span.mk (hstay hstart) (hstay hstop)
    rw [Token.moved, hspan]
  obtain ⟨hsections, herrors⟩ := parse_moved (hstay (Location.isReal_origin source)) htokens
  have hstatements : (parse source).statements.map (Statement.moved f) =
      (parse source).statements := by
    have hmoved := congrArg (fun ss => ss.flatMap Section.statements) hsections
    simp only [List.flatMap_map, Section.statements_moved] at hmoved
    rwa [← List.map_flatMap] at hmoved
  refine ⟨fun e he => hreal ?_, fun s hs => hreal ?_, hreal ?_⟩
  · exact congrArg ParseError.location (eq_of_map_eq_self herrors e he)
  · exact congrArg (fun r : Statement => r.span.start) (eq_of_map_eq_self hstatements s hs)
  · have hspan : (parse source).span.start =
        ((parse source).sections.head?.map fun s => s.span.start).getD .origin := rfl
    rw [hspan]
    cases hhead : (parse source).sections.head? with
    | none => exact hstay (Location.isReal_origin source)
    | some s =>
      exact congrArg (fun r : Section => r.span.start)
        (eq_of_map_eq_self hsections s (List.mem_of_head? hhead))

end RobotSuite
