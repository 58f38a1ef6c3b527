/-
# Places of tags

Tags are read from the cells of a tag setting, or from the last line of the documentation of a
keyword.  There they are pieces between commas, without the blanks around them, and the place of
each is counted along the cell (`pieceTags`).  In the first cell the count starts behind the mark
`Tags:`, which is recognised in any case: a mark of five characters is five code units long in the
cell as well, because nothing but ASCII has the small letters of the mark
(`take_of_isPrefixOf_lowerAfter`).

Each tag stands in the source where it is reported, and the tags of a statement stand one behind the
other (`tags_stand`).
-/

import Mathlib.Data.List.DropRight
import RobotSuite.Lint.TagRules
import RobotSuite.Proofs.Data.CaseMapping
import RobotSuite.Proofs.Format.UniqueTags.Repetitions
import RobotSuite.Proofs.Token.TextPlaces

namespace RobotSuite

open Text (units)

namespace Text

/-! ## Blanks around a text -/

/-- A text with something else than blanks is what is left of it, between the blanks at its ends. -/
theorem trimBlank_between (cs : List Char) (h : trimBlank cs ≠ []) :
    cs = cs.takeWhile isBlank ++ trimBlank cs ++ takeEndWhile isBlank cs := by
  have hcut : (trimEnd cs).takeWhile isBlank ++ trimBlank cs = trimEnd cs :=
    List.takeWhile_append_dropWhile
  have hstart : cs.takeWhile isBlank = (trimEnd cs).takeWhile isBlank := by
    have hlength := congrArg List.length hcut
    rw [List.length_append] at hlength
    have hpos := List.length_pos_of_ne_nil h
    conv_lhs => rw [← dropEndWhile_append_takeEndWhile isBlank cs]
    rw [List.takeWhile_append, if_neg, trimEnd]
    rw [← trimEnd]
    omega
  rw [hstart, hcut, trimEnd, dropEndWhile_append_takeEndWhile]

/-- What is left of a text has no blanks at its ends. -/
theorem trimBlank_trimBlank (cs : List Char) : trimBlank (trimBlank cs) = trimBlank cs := by
  have hlast : ∀ c ∈ (trimBlank cs).getLast?, isBlank c = false := by
    intro c hc
    have hcut : (trimEnd cs).takeWhile isBlank ++ trimBlank cs = trimEnd cs :=
      List.takeWhile_append_dropWhile
    have hne : trimBlank cs ≠ [] := fun hnil => by
      rw [hnil] at hc
      cases hc
    refine getLast?_dropEndWhile isBlank cs c ?_
    rw [← trimEnd, ← hcut, List.getLast?_append_of_ne_nil _ hne]
    exact hc
  have hend : trimEnd (trimBlank cs) = trimBlank cs := by
    have hnone : dropEndWhile isBlank [] = [] := (endWhile_of_all rfl).2
    have hdrop := (endWhile_append hlast []).2
    rwa [hnone, List.append_nil] at hdrop
  rw [trimBlank, hend]
  exact List.dropWhile_idempotent (p := isBlank) (trimEnd cs)

/-! ## A mark in any case -/

/-- Beyond ASCII, small letters do not start with a character of ASCII other than `i` and `k`. -/
theorem lowerAfter_of_beyond (before cs : List Char) {c : Char} (hc : 0x80 ≤ c.toNat) :
    ∃ d image, lowerAfter before (c :: cs) = d :: image ∧
      (d.toNat < 0x80 → d.toNat = 0x69 ∨ d.toNat = 0x6B) := by
  rw [lowerAfter]
  split_ifs with hsigma hfinal
  · exact ⟨_, _, rfl, by decide⟩
  · exact ⟨_, _, rfl, by decide⟩
  · rw [lowerChar, if_neg (by omega)]
    split_ifs with hdot
    · exact ⟨_, _, rfl, by decide⟩
    · refine ⟨_, _, rfl, fun hlt => ?_⟩
      by_contra hne
      have hsmall : ∀ d ∈ [shift lowerShifts c], d.toNat < 0x80 ∧ d.toNat ≠ 0x6B :=
        List.forall_mem_singleton.2 ⟨hlt, fun hk => hne (.inr hk)⟩
      exact shift_lowerShifts_notMem hsmall hc (List.mem_singleton_self _)

/-- A text that starts, in small letters, with characters of ASCII other than `i` and `k` starts
with as many characters of one code unit each. -/
theorem take_of_isPrefixOf_lowerAfter {mark : List Char}
    (hmark : ∀ d ∈ mark, d.toNat < 0x80 ∧ d.toNat ≠ 0x69 ∧ d.toNat ≠ 0x6B)
    {before cs : List Char} (h : mark.isPrefixOf (lowerAfter before cs) = true) :
    units (cs.take mark.length) = mark.length := by
  induction mark generalizing before cs with
  | nil => rfl
  | cons d mark ih =>
    obtain ⟨⟨hlt, hi, hk⟩, hmark⟩ := List.forall_mem_cons.1 hmark
    cases cs with
    | nil => cases h
    | cons c cs =>
      by_cases hc : c.toNat < 0x80
      · have hone : charUnits c = 1 := if_pos (by omega)
        have hrest : mark.isPrefixOf (lowerAfter (c :: before) cs) = true := by
          rw [lowerAfter, if_neg (by omega), lowerChar, if_pos hc] at h
          split at h <;> exact (Bool.and_eq_true_iff.1 h).2
        rw [List.length_cons, List.take_succ_cons, units_cons, hone, ih hmark hrest, Nat.add_comm]
      · obtain ⟨e, image, himage, he⟩ := lowerAfter_of_beyond before cs (Nat.le_of_not_lt hc)
        rw [himage] at h
        obtain rfl : d = e := LawfulBEq.eq_of_beq (Bool.and_eq_true_iff.1 h).1
        exact absurd (he hlt) (by omega)

end Text

namespace TagRules

/-! ## Tags of one cell -/

/-- A tag that ends in front of another. -/
def TagRef.EndsBefore (a b : TagRef) : Prop :=
  a.location.offset + (Text.length a.value : Int) ≤ b.location.offset

/-- Tags that stand in a stretch of a source, one behind the other. -/
structure Stand (source : String) (start stop : Int) (tags : List TagRef) : Prop where
  holds : ∀ t ∈ tags, HoldsAt source t.location t.value.toList
  starts : ∀ t ∈ tags, start ≤ t.location.offset
  stops : ∀ t ∈ tags, t.location.offset + (Text.length t.value : Int) ≤ stop
  ordered : tags.Pairwise TagRef.EndsBefore

section
variable {source : String} {start middle stop : Int} {tags more : List TagRef} {at_ : Location}
  {cs piece : List Char}

theorem Stand.nil : Stand source start stop [] := by
  constructor <;> simp

/-- Tags that stand in two stretches stand in both together. -/
theorem Stand.append (h : Stand source start middle tags) (h' : Stand source middle stop more)
    (hstart : start ≤ middle) (hstop : middle ≤ stop) :
    Stand source start stop (tags ++ more) := by
  constructor
  · exact List.forall_mem_append.2 ⟨h.holds, h'.holds⟩
  · exact List.forall_mem_append.2 ⟨h.starts, fun t ht => hstart.trans (h'.starts t ht)⟩
  · exact List.forall_mem_append.2 ⟨fun t ht => (h.stops t ht).trans hstop, h'.stops⟩
  · exact List.pairwise_append.2 ⟨h.ordered, h'.ordered, fun a ha b hb =>
      (h.stops a ha).trans (h'.starts b hb)⟩

/-- Tags that stand in a stretch stand in a longer one. -/
theorem Stand.widen (h : Stand source start middle tags) (hstop : middle ≤ stop) :
    Stand source start stop tags :=
  ⟨h.holds, h.starts, fun t ht => (h.stops t ht).trans hstop, h.ordered⟩

/-- The tags of the first piece, and those of the others behind it. -/
theorem pieceTags_cons (at_ : Location) (piece : List Char) (pieces : List (List Char)) :
    pieceTags at_ (piece :: pieces) =
      pieceTags at_ [piece] ++ pieceTags (at_.shift (units piece + 1)) pieces := by
  rw [pieceTags, pieceTags, pieceTags]
  split_ifs <;> rfl

/-- The tag of a piece stands where the piece does. -/
theorem stand_piece (h : HoldsAt source at_ piece) (hfeed : '\n' ∉ piece) :
    Stand source at_.offset (at_.offset + units piece) (pieceTags at_ [piece]) := by
  rw [pieceTags, pieceTags]
  split_ifs with hempty
  · exact .nil
  · have hcut := Text.trimBlank_between piece (by simpa using hempty)
    have hlength := congrArg units hcut
    rw [Text.units_append, Text.units_append] at hlength
    have hlead : '\n' ∉ piece.takeWhile Text.isBlank := fun hmem =>
      hfeed (List.takeWhile_subset _ hmem)
    rw [hcut] at h
    constructor
    · rw [List.forall_mem_singleton, String.toList_ofList]
      rw [List.append_assoc] at h
      exact (h.end_part hlead).start_part
    · rw [List.forall_mem_singleton]
      simp only [Location.shift]
      omega
    · rw [List.forall_mem_singleton, Text.length, String.toList_ofList]
      simp only [Location.shift]
      omega
    · exact List.pairwise_singleton _ _

/-- Pieces stand behind one another, with a comma between them. -/
theorem stand_pieceTags {pieces : List (List Char)}
    (h : HoldsAt source at_ ([','].intercalate pieces)) (hfeed : '\n' ∉ [','].intercalate pieces) :
    Stand source at_.offset (at_.offset + units ([','].intercalate pieces))
      (pieceTags at_ pieces) := by
  induction pieces generalizing at_ with
  | nil => exact .nil
  | cons piece pieces ih =>
    cases pieces with
    | nil =>
      rw [List.intercalate_singleton] at h hfeed ⊢
      exact stand_piece h hfeed
    | cons next pieces =>
      rw [List.intercalate_cons_cons] at h hfeed ⊢
      rw [pieceTags_cons]
      have hone : units (piece ++ [',']) = units piece + 1 := Text.units_append _ _
      rw [Text.units_append, hone]
      have hrest := h.end_part fun hmem => hfeed (List.mem_append_left _ hmem)
      rw [hone] at hrest
      have hfirst := stand_piece h.start_part.start_part
        fun hmem => hfeed (List.mem_append_left _ (List.mem_append_left _ hmem))
      have htail := ih hrest fun hmem => hfeed (List.mem_append_right _ hmem)
      have hstop : (at_.shift (units piece + 1)).offset +
          (units ([','].intercalate (next :: pieces)) : Int) =
          at_.offset + (units piece + 1 + units ([','].intercalate (next :: pieces)) : Nat) := by
        simp only [Location.shift]
        omega
      rw [hstop] at htail
      refine (hfirst.widen ?_).append htail ?_ ?_ <;> simp only [Location.shift] <;> omega

/-- The tags in a text that stands on one line. -/
theorem stand_listedTags (h : HoldsAt source at_ cs) (hfeed : '\n' ∉ cs) :
    Stand source at_.offset (at_.offset + units cs) (listedTags at_ cs) := by
  have hjoin := Text.intercalate_splitOn ',' cs
  rw [← hjoin] at h hfeed
  have hstand := stand_pieceTags h hfeed
  rwa [hjoin] at hstand

/-- Pieces give tags that are not empty and have no blanks at their ends. -/
theorem trimmed_pieceTags {pieces : List (List Char)} : ∀ t ∈ pieceTags at_ pieces,
    t.value ≠ "" ∧ Text.trim t.value = t.value := by
  induction pieces generalizing at_ with
  | nil => exact List.forall_mem_nil _
  | cons piece pieces ih =>
    rw [pieceTags]
    split_ifs with hempty
    · exact ih
    · refine List.forall_mem_cons.2 ⟨⟨by simpa using hempty, ?_⟩, ih⟩
      rw [Text.trim, String.toList_ofList, Text.trimBlank_trimBlank]

end

/-! ## Tags of a statement -/

section
variable {source : String} {s : Statement} {tags : List TagRef}

/-- Tags that are listed in texts which stand one behind the other do so as well. -/
theorem stand_flatMap {texts : List (Location × List Char)}
    (hholds : ∀ p ∈ texts, HoldsAt source p.1 p.2 ∧ '\n' ∉ p.2)
    (hpair : texts.Pairwise fun p q => p.1.offset + (units p.2 : Int) ≤ q.1.offset) :
    (∀ t ∈ texts.flatMap fun p => listedTags p.1 p.2, HoldsAt source t.location t.value.toList) ∧
      (texts.flatMap fun p => listedTags p.1 p.2).Pairwise TagRef.EndsBefore := by
  have hstand : ∀ p ∈ texts,
      Stand source p.1.offset (p.1.offset + units p.2) (listedTags p.1 p.2) :=
    fun p hp => stand_listedTags (hholds p hp).1 (hholds p hp).2
  refine ⟨fun t ht => ?_, List.pairwise_flatMap.2 ⟨fun p hp => (hstand p hp).ordered, ?_⟩⟩
  · obtain ⟨p, hp, ht⟩ := List.mem_flatMap.1 ht
    exact (hstand p hp).holds t ht
  · refine hpair.imp_of_mem fun {p q} hp hq hbefore a ha b hb => ?_
    exact ((hstand p hp).stops a ha).trans (hbefore.trans ((hstand q hq).starts b hb))

/-- Dropping the name leaves some of the cells, in order. -/
theorem dropName_sublist (ts : List Token) : (dropName ts).Sublist ts := by
  induction ts with
  | nil => exact .refl _
  | cons t ts ih =>
    rw [dropName]
    split_ifs
    · exact List.sublist_cons_self _ _
    · exact ih.cons_cons _

/-- The tags of a documentation are listed in the cells of its last line: in the first of them
behind the mark. -/
theorem documentationTags_cases (s : Statement) : documentationTags s = [] ∨
    ∃ first more, (first :: more).Sublist s.tokens ∧ (∀ t ∈ first :: more, t.kind = .argument) ∧
      tagsMark.isPrefixOf (Text.lowerChars first.value.toList) = true ∧
        documentationTags s =
          ((first.span.start.shift tagsMark.length, first.value.toList.drop tagsMark.length) ::
            more.map fun t => (t.span.start, t.value.toList)).flatMap fun p =>
              listedTags p.1 p.2 := by
  rw [documentationTags]
  have hline : (((splitLines (dropName s.tokens)).getLast?).getD []).Sublist s.tokens := by
    cases hlast : (splitLines (dropName s.tokens)).getLast? with
    | none => exact List.nil_sublist _
    | some line =>
      have hmem := List.sublist_flatten_of_mem (List.mem_of_getLast? hlast)
      rw [flatten_splitLines] at hmem
      exact hmem.trans (dropName_sublist _)
  generalize ((splitLines (dropName s.tokens)).getLast?).getD [] = last at hline
  dsimp only
  split
  · exact .inl rfl
  · rename_i first more hcells
    split_ifs with hmark
    · refine .inr ⟨first, more, hcells ▸ List.filter_sublist.trans hline, ?_, hmark, ?_⟩
      · rw [← hcells]
        exact fun t ht => of_decide_eq_true (List.mem_filter.1 ht).2
      · rw [List.flatMap_cons, List.flatMap_map]
    · exact .inl rfl

/-- The tags of a documentation. -/
theorem stand_documentationTags (hs : s.tokens <:+: (tokenize source).flatten) :
    (∀ t ∈ documentationTags s, HoldsAt source t.location t.value.toList) ∧
      (documentationTags s).Pairwise TagRef.EndsBefore := by
  obtain hnone | ⟨first, more, hcells, hargs, hmark, htags⟩ := documentationTags_cases s
  · rw [hnone]
    exact ⟨List.forall_mem_nil _, .nil⟩
  · have hsublist := hcells.trans hs.sublist
    have hdata : ∀ t ∈ first :: more, t ∈ (tokenize source).flatten ∧ t.isData = true :=
      fun t ht => ⟨hsublist.subset ht, by rw [Token.isData, hargs t ht]; rfl⟩
    have hpair := (pairwise_tokens source).sublist hsublist
    rw [htags]
    -- the mark is as long in the cell as in small letters
    have hunits : units (first.value.toList.take tagsMark.length) = tagsMark.length :=
      Text.take_of_isPrefixOf_lowerAfter (by simp [tagsMark]) hmark
    have hcut := List.take_append_drop tagsMark.length first.value.toList
    have hlength := congrArg units hcut
    rw [Text.units_append, hunits] at hlength
    obtain ⟨hfirst, hmore⟩ := List.forall_mem_cons.1 hdata
    obtain ⟨hbefore, hpair⟩ := List.pairwise_cons.1 hpair
    have hfeed := (value_of_isData hfirst.1 hfirst.2).2
    refine stand_flatMap (List.forall_mem_cons.2 ⟨⟨?_, ?_⟩, ?_⟩) (List.pairwise_cons.2 ⟨?_, ?_⟩)
    · have hholds := holdsAt_start hfirst.1
      rw [← hcut] at hholds
      have hrest := hholds.end_part fun hmem => hfeed (List.take_subset _ _ hmem)
      rwa [hunits] at hrest
    · exact fun hmem => hfeed (List.drop_subset _ _ hmem)
    · rw [List.forall_mem_map]
      exact fun t ht => ⟨holdsAt_start (hmore t ht).1,
        (value_of_isData (hmore t ht).1 (hmore t ht).2).2⟩
    · rw [List.forall_mem_map]
      intro t ht
      have := hbefore t ht
      rw [Text.length] at this
      simp only [Location.shift]
      omega
    · exact List.pairwise_map.2 hpair

/-- The tags of a tag setting are its cells behind the name. -/
theorem stand_cellTags (hs : s.tokens <:+: (tokenize source).flatten) :
    (∀ t ∈ cellTags s, t.value ≠ "" ∧ HoldsAt source t.location t.value.toList) ∧
      (cellTags s).Pairwise TagRef.EndsBefore := by
  have hcells : ((withPrevious none s.tokens).tail.map (·.2)).Sublist s.tokens := by
    rw [List.map_tail, map_snd_withPrevious]
    exact (List.tail_sublist _).trans List.filter_sublist
  have hdata : ∀ t ∈ (withPrevious none s.tokens).tail.map (·.2), t.isData = true := by
    rw [List.map_tail, map_snd_withPrevious]
    exact fun t ht => (List.mem_filter.1 (List.mem_of_mem_tail ht)).2
  have hsublist := hcells.trans hs.sublist
  constructor
  · rw [cellTags, List.forall_mem_map]
    intro p hp
    have hmem : p.2 ∈ (withPrevious none s.tokens).tail.map (·.2) := List.mem_map_of_mem hp
    exact ⟨(value_of_isData (hsublist.subset hmem) (hdata _ hmem)).1,
      holdsAt_start (hsublist.subset hmem)⟩
  · have hpair := (pairwise_tokens source).sublist hsublist
    rw [List.pairwise_map] at hpair
    rw [cellTags, List.pairwise_map]
    exact hpair

/-- Tags in documentation are trimmed and not empty. -/
theorem trimmed_documentationTags (s : Statement) : ∀ t ∈ documentationTags s,
    t.value ≠ "" ∧ Text.trim t.value = t.value := by
  obtain hnone | ⟨first, more, -, -, -, htags⟩ := documentationTags_cases s
  · rw [hnone]
    exact List.forall_mem_nil _
  · rw [htags]
    intro t ht
    obtain ⟨p, -, ht⟩ := List.mem_flatMap.1 ht
    exact trimmed_pieceTags t ht

/-- The tags of a statement stand one behind the other, each where its text does. -/
theorem stand_collectTags (ctx : RuleContext) (hs : s.tokens <:+: (tokenize source).flatten) :
    (∀ t ∈ collectTags ctx s, t.value ≠ "" ∧ (s.holdsTags = false → Text.trim t.value = t.value) ∧
        HoldsAt source t.location t.value.toList) ∧
      (collectTags ctx s).Pairwise TagRef.EndsBefore := by
  rw [collectTags]
  split_ifs with hcells hlisted
  · obtain ⟨hholds, hordered⟩ := stand_cellTags hs
    refine ⟨fun t ht => ⟨(hholds t ht).1, fun hnone => ?_, (hholds t ht).2⟩, hordered⟩
    rw [hcells] at hnone
    cases hnone
  · obtain ⟨hholds, hordered⟩ := stand_documentationTags hs
    refine ⟨fun t ht => ?_, hordered⟩
    obtain ⟨hne, htrim⟩ := trimmed_documentationTags s t ht
    exact ⟨hne, fun _ => htrim, hholds t ht⟩
  · exact ⟨List.forall_mem_nil _, .nil⟩

end

end TagRules

/-- **Tags stand where they are reported.**  A tag of a statement that a walk meets is not empty,
and in a documentation it has no blanks at its ends.  The source holds it at the offset at which it
is reported, the line and the column are those of the offset, and each tag ends in front of the
next. -/
theorem tags_stand (source : String) {s : Statement}
    (hs : s ∈ metStatements (parse source).steps) (ctx : RuleContext) :
    let tags := TagRules.collectTags ctx s
    (∀ t ∈ tags, t.value ≠ "" ∧ (s.holdsTags = false → Text.trim t.value = t.value) ∧
      ∃ n : Nat, t.location = .inSource source n ∧
        Text.slice source n (n + Text.length t.value) = t.value) ∧
      tags.Pairwise fun a b =>
        a.location.offset + (Text.length a.value : Int) ≤ b.location.offset := by
  intro tags
  rw [metStatements_file] at hs
  obtain ⟨hholds, hordered⟩ := TagRules.stand_collectTags ctx (tokens_consecutive hs)
  refine ⟨fun t ht => ?_, hordered⟩
  obtain ⟨hne, htrim, hstands⟩ := hholds t ht
  obtain ⟨n, hn, -, hslice⟩ := hstands.slice
  rw [String.ofList_toList] at hslice
  exact ⟨hne, htrim, n, hn, hslice⟩

/-- A source whose tags stand in its documentation. -/
theorem tags_stand_of_documentation :
    let source := "*** Keywords ***\nK\n    [Documentation]    D\n    ...    TAGS: a,, b    c\n"
    let f := parse source
    let s := (metStatements f.steps).getD 2 default
    let ctx : RuleContext := ⟨source, sourceLines source, f, ⟨f.containers.reverse, []⟩, []⟩
    let tags := TagRules.collectTags ctx s
    tags.map (fun t => (t.value, t.location)) =
        [("a", ⟨4, 18, 61⟩), ("b", ⟨4, 22, 65⟩), ("c", ⟨4, 27, 70⟩)] ∧
      (∀ t ∈ tags, t.value ≠ "" ∧ (s.holdsTags = false → Text.trim t.value = t.value) ∧
        ∃ n : Nat, t.location = .inSource source n ∧
          Text.slice source n (n + Text.length t.value) = t.value) ∧
        tags.Pairwise fun a b =>
          a.location.offset + (Text.length a.value : Int) ≤ b.location.offset := by
  intro source f s ctx tags
  have hs : s ∈ metStatements (parse source).steps := by decide +kernel
  exact ⟨by decide +kernel, tags_stand source hs ctx⟩

end RobotSuite
