/-
# Groups of lines

A statement takes its line and all lines that continue it, with the comments between them.  What
comes of that can be told without reading along: a group of several lines starts with a line that
can be continued, ends with a line behind a marker, and holds nothing but such lines and comments
otherwise, and what stands behind such a line with its group does not continue it (`IsGrouping`).
Lines can be put together in one such way only (`isGrouping_iff`), and that is the way in which the
statements take them (`statements_grouped`).
-/

import RobotSuite.Proofs.Tree.Lossless

namespace RobotSuite

section
variable {line : List Token} {lines taken left : List (List Token)}

/-! ## Lines that continue others -/

/-- Whether some lines continue what stands in front of them: one of them does, and nothing but
comments stands before it. -/
def Resumes (lines : List (List Token)) : Prop :=
  ∃ comments line rest, lines = comments ++ line :: rest ∧
    (∀ l ∈ comments, isCommentLine l = true) ∧ isContinuationLine line = true

theorem not_resumes_nil : ¬ Resumes [] := by
  rintro ⟨comments, line, rest, heq, -⟩
  cases comments <;> cases heq

/-- Lines resume with a continuation, or behind comments. -/
theorem resumes_cons : Resumes (line :: lines) ↔
    isContinuationLine line = true ∨ isCommentLine line = true ∧ Resumes lines := by
  constructor
  · rintro ⟨_ | ⟨l, comments⟩, next, rest, heq, hcomments, hnext⟩
    · obtain ⟨rfl, -⟩ := List.cons.inj heq
      exact .inl hnext
    · obtain ⟨rfl, rfl⟩ := List.cons.inj heq
      obtain ⟨hl, hcomments⟩ := List.forall_mem_cons.1 hcomments
      exact .inr ⟨hl, comments, next, rest, rfl, hcomments, hnext⟩
  · rintro (hc | ⟨hl, comments, next, rest, rfl, hcomments, hnext⟩)
    · exact ⟨[], line, lines, rfl, List.forall_mem_nil _, hc⟩
    · exact ⟨line :: comments, next, rest, rfl, List.forall_mem_cons.2 ⟨hl, hcomments⟩, hnext⟩

/-- Lines behind markers and comments continue what stands in front of them if one of them stands
behind a marker. -/
theorem resumes_append
    (h : ∀ l ∈ taken, isContinuationLine l = true ∨ isCommentLine l = true)
    (hc : ∃ l ∈ taken, isContinuationLine l = true) (left : List (List Token)) :
    Resumes (taken ++ left) := by
  induction taken with
  | nil =>
    obtain ⟨l, hl, -⟩ := hc
    cases hl
  | cons line taken ih =>
    obtain ⟨hline, htaken⟩ := List.forall_mem_cons.1 h
    rw [List.cons_append, resumes_cons]
    obtain ⟨l, hl, hcl⟩ := hc
    rcases List.mem_cons.1 hl with rfl | hl
    · exact .inl hcl
    · exact hline.imp_right fun hr => ⟨hr, ih htaken ⟨l, hl, hcl⟩⟩

/-- Nothing is taken exactly when nothing continues the line in front. -/
theorem takeContinuation_eq_none_iff : takeContinuation lines = none ↔ ¬ Resumes lines := by
  induction lines with
  | nil => exact iff_of_true rfl not_resumes_nil
  | cons line lines ih =>
    rw [takeContinuation, resumes_cons]
    split
    · rename_i hc
      simp [hc]
    · rename_i hc
      split
      · rename_i hr
        rw [Option.map_eq_none_iff, ih]
        simp [hc, hr]
      · rename_i hr
        simp [hc, hr]

/-- What is taken ends with the line behind a marker. -/
theorem isContinuationLine_of_takeContinuation (h : takeContinuation lines = some (taken, left)) :
    ∃ l, taken.getLast? = some l ∧ isContinuationLine l = true := by
  induction lines generalizing taken left with
  | nil => simp [takeContinuation] at h
  | cons line more ih =>
    rw [takeContinuation] at h
    by_cases hc : isContinuationLine line = true
    · simp only [hc, if_true, Option.some.injEq, Prod.mk.injEq] at h
      exact ⟨line, by simp [← h.1], hc⟩
    · by_cases hl : isCommentLine line = true
      · cases ht : takeContinuation more with
        | none => simp [hc, hl, ht] at h
        | some p =>
          obtain ⟨rfl, rfl⟩ : line :: p.1 = taken ∧ p.2 = left := by simpa [hc, hl, ht] using h
          obtain ⟨last, hlast, hcl⟩ := ih ht
          exact ⟨last, by simp [List.getLast?_cons, hlast], hcl⟩
      · simp [hc, hl] at h

/-- What continues a statement are comments and continuations. -/
theorem continues_of_mem_takeContinuation (h : takeContinuation lines = some (taken, left)) :
    ∀ l ∈ taken, isContinuationLine l = true ∨ isCommentLine l = true := by
  induction lines generalizing taken left with
  | nil => simp [takeContinuation] at h
  | cons line rest ih =>
    rw [takeContinuation] at h
    split at h
    · rename_i hc
      obtain ⟨rfl, -⟩ := Prod.mk.inj (Option.some.inj h)
      exact List.forall_mem_singleton.2 (.inl hc)
    · split at h
      · rename_i hr
        obtain ⟨⟨more, rest'⟩, hmore, hp⟩ := Option.map_eq_some_iff.1 h
        obtain ⟨rfl, -⟩ := Prod.mk.inj hp
        exact List.forall_mem_cons.2 ⟨.inr hr, ih hmore⟩
      · cases h

/-! ## Lines behind the first of a group -/

/-- Lines that may stand behind the first of a group: lines behind markers and comments between
them. -/
structure Follow (taken : List (List Token)) : Prop where
  members : ∀ l ∈ taken, isContinuationLine l = true ∨ isCommentLine l = true
  last : ∀ l ∈ taken.getLast?, isContinuationLine l = true

theorem follow_nil : Follow [] := ⟨List.forall_mem_nil _, nofun⟩

/-- What follows a line may be followed on. -/
theorem Follow.append {a b : List (List Token)} (ha : Follow a) (hb : Follow b) :
    Follow (a ++ b) := by
  refine ⟨List.forall_mem_append.2 ⟨ha.members, hb.members⟩, fun l hl => ?_⟩
  rw [List.getLast?_append, Option.mem_def, Option.or_eq_some_iff] at hl
  exact hl.elim (hb.last l) fun h => ha.last l h.2

/-- **All lines that continue the first are taken,** with the comments between them, and nothing
else. -/
theorem follow_takeContinuations (lines : List (List Token)) :
    Follow (takeContinuations lines).1 ∧ ¬ Resumes (takeContinuations lines).2 := by
  fun_induction takeContinuations lines with
  | case1 lines h => exact ⟨follow_nil, takeContinuation_eq_none_iff.1 h⟩
  | case2 lines taken left h more rest hm ih =>
    rw [hm] at ih
    have htaken : Follow taken := by
      refine ⟨continues_of_mem_takeContinuation h, fun l hl => ?_⟩
      obtain ⟨last, hlast, hc⟩ := isContinuationLine_of_takeContinuation h
      rw [hlast] at hl
      obtain rfl := Option.some.inj hl
      exact hc
    exact ⟨htaken.append ih.1, ih.2⟩

/-- Where lines that follow a first one are cut, those behind the cut continue those in front. -/
theorem Follow.resumes {extra : List (List Token)} (h : Follow (taken ++ extra)) (hne : extra ≠ [])
    (left : List (List Token)) : Resumes (extra ++ left) := by
  have hlast : extra.getLast hne ∈ (taken ++ extra).getLast? := by
    rw [List.getLast?_append, List.getLast?_eq_some_getLast hne]
    rfl
  exact resumes_append (fun l hl => h.members l (List.mem_append_right _ hl))
    ⟨extra.getLast hne, List.getLast_mem hne, h.last _ hlast⟩ left

/-- **There is one way to take what continues a line** so that nothing behind it does. -/
theorem takeContinuations_eq (h : Follow taken) (hl : ¬ Resumes left) :
    takeContinuations (taken ++ left) = (taken, left) := by
  obtain ⟨htaken, hleft⟩ := follow_takeContinuations (taken ++ left)
  have happ := takeContinuations_append (taken ++ left)
  generalize takeContinuations (taken ++ left) = cut at htaken hleft happ
  obtain ⟨taken', left'⟩ := cut
  rcases List.append_eq_append_iff.1 happ with ⟨extra, heq, hcut⟩ | ⟨extra, heq, hcut⟩
  · by_cases hnil : extra = []
    · rw [hnil, List.append_nil] at heq
      rw [hnil, List.nil_append] at hcut
      exact Prod.ext heq.symm hcut
    · exact absurd (hcut ▸ (heq ▸ h).resumes hnil left) hleft
  · by_cases hnil : extra = []
    · rw [hnil, List.append_nil] at heq
      rw [hnil, List.nil_append] at hcut
      exact Prod.ext heq hcut.symm
    · exact absurd (hcut ▸ (heq ▸ htaken).resumes hnil left') hl

end

/-! ## Groups -/

/-- Whether a group of several lines may start with a line: it is no header and holds data. -/
def MayStart (line : List Token) : Prop := isHeaderLine line = false ∧ ∃ t ∈ line, t.isData = true

/-- The program's test is the one of the specification. -/
theorem isContinuable_iff {line : List Token} : isContinuable line = true ↔ MayStart line := by
  rw [isContinuable, Bool.and_eq_true, Bool.not_eq_true', List.any_eq_true, MayStart]

/-- Lines that may form a group: one line, or several of which the first may start a group and the
last stands behind a marker, and in between nothing but such lines and comments. -/
structure FormsGroup (g : List (List Token)) : Prop where
  ne_nil : g ≠ []
  start : 1 < g.length → ∃ l ∈ g.head?, MayStart l
  members : ∀ l ∈ g.tail, isContinuationLine l = true ∨ isCommentLine l = true
  last : 1 < g.length → ∃ l ∈ g.getLast?, isContinuationLine l = true

/-- Whether lines are put together in groups, and what stands behind a group that may take more does
not continue it. -/
structure IsGrouping (lines : List (List Token)) (groups : List (List (List Token))) : Prop where
  flatten : groups.flatten = lines
  group : ∀ g ∈ groups, FormsGroup g
  greedy : ∀ front g back, groups = front ++ g :: back → (∃ l ∈ g.head?, MayStart l) →
    ¬ Resumes back.flatten

section
variable {line : List Token} {lines more : List (List Token)} {groups : List (List (List Token))}

/-- Lines form a group when the others follow the first. -/
theorem formsGroup_cons : FormsGroup (line :: more) ↔ Follow more ∧ (more ≠ [] → MayStart line) := by
  have hmany : 1 < (line :: more).length ↔ more ≠ [] := by
    rw [List.length_cons, Nat.lt_add_left_iff_pos, List.length_pos_iff]
  have hlast (hne : more ≠ []) : (line :: more).getLast? = more.getLast? :=
    List.getLast?_cons_of_ne_nil hne
  constructor
  · intro h
    refine ⟨⟨h.members, fun l hl => ?_⟩, fun hne => ?_⟩
    · have hne : more ≠ [] := by
        rintro rfl
        cases hl
      obtain ⟨l', hl', hc⟩ := h.last (hmany.2 hne)
      rw [hlast hne] at hl'
      exact Option.mem_unique hl hl' ▸ hc
    · obtain ⟨l, hl, hstart⟩ := h.start (hmany.2 hne)
      obtain rfl := Option.some.inj hl
      exact hstart
  · rintro ⟨hfollow, hstart⟩
    refine ⟨List.cons_ne_nil _ _, fun h => ⟨line, rfl, hstart (hmany.1 h)⟩, hfollow.members,
      fun h => ?_⟩
    have hmem := List.getLast?_eq_some_getLast (hmany.1 h)
    exact ⟨_, (hlast (hmany.1 h)).trans hmem, hfollow.last _ hmem⟩

/-- The first group is as long as it can be, and the rest is grouped alike. -/
theorem isGrouping_cons : IsGrouping (line :: lines) ((line :: more) :: groups) ↔
    lines = more ++ groups.flatten ∧ FormsGroup (line :: more) ∧
      (MayStart line → ¬ Resumes groups.flatten) ∧ IsGrouping groups.flatten groups := by
  constructor
  · intro h
    obtain ⟨hfirst, hgroups⟩ := List.forall_mem_cons.1 h.group
    refine ⟨(List.cons.inj h.flatten).2.symm, hfirst, fun hl => ?_, rfl, hgroups, ?_⟩
    · exact h.greedy [] _ groups rfl ⟨line, rfl, hl⟩
    · exact fun front g back hsplit => h.greedy (_ :: front) g back (by rw [hsplit]; rfl)
  · rintro ⟨rfl, hfirst, hstart, hrest⟩
    refine ⟨rfl, List.forall_mem_cons.2 ⟨hfirst, hrest.group⟩, fun front g back hsplit hg => ?_⟩
    cases front with
    | nil =>
      obtain ⟨rfl, rfl⟩ := List.cons.inj hsplit
      obtain ⟨l, hl, hmay⟩ := hg
      obtain rfl := Option.some.inj hl
      exact hstart hmay
    | cons _ front => exact hrest.greedy front g back (List.cons.inj hsplit).2 hg

/-- The first group starts with the first line. -/
theorem exists_of_isGrouping_cons (h : IsGrouping (line :: lines) groups) :
    ∃ more rest, groups = (line :: more) :: rest := by
  cases groups with
  | nil => cases h.flatten
  | cons g rest =>
    cases g with
    | nil => exact absurd rfl (h.group [] List.mem_cons_self).ne_nil
    | cons l more =>
      obtain ⟨rfl, -⟩ := List.cons.inj h.flatten
      exact ⟨more, rest, rfl⟩

/-- **There is one way to put lines together** so that each group takes all it can. -/
theorem isGrouping_iff : IsGrouping lines groups ↔ groups = groupLines lines := by
  fun_induction groupLines lines generalizing groups with
  | case1 =>
    constructor
    · intro h
      cases groups with
      | nil => rfl
      | cons g rest =>
        have hg := (List.append_eq_nil_iff.1 h.flatten).1
        exact absurd hg (h.group g List.mem_cons_self).ne_nil
    · rintro rfl
      exact ⟨rfl, List.forall_mem_nil _, fun front g back h => by cases front <;> cases h⟩
  | case2 line rest hc ih =>
    have hstart := isContinuable_iff.1 hc
    constructor
    · intro h
      obtain ⟨more, back, rfl⟩ := exists_of_isGrouping_cons h
      obtain ⟨rfl, hgroup, hgreedy, hback⟩ := isGrouping_cons.1 h
      rw [takeContinuations_eq (formsGroup_cons.1 hgroup).1 (hgreedy hstart)] at ih ⊢
      exact congrArg _ (ih.1 hback)
    · rintro rfl
      obtain ⟨hfollow, hleft⟩ := follow_takeContinuations rest
      rw [isGrouping_cons, flatten_groupLines, takeContinuations_append]
      exact ⟨rfl, formsGroup_cons.2 ⟨hfollow, fun _ => hstart⟩, fun _ => hleft, ih.2 rfl⟩
  | case3 line rest hc ih =>
    have hstart : ¬ MayStart line := fun h => hc (isContinuable_iff.2 h)
    constructor
    · intro h
      obtain ⟨more, back, rfl⟩ := exists_of_isGrouping_cons h
      obtain ⟨rfl, hgroup, -, hback⟩ := isGrouping_cons.1 h
      have hnil : more = [] := by
        by_cases hne : more = []
        · exact hne
        · exact absurd ((formsGroup_cons.1 hgroup).2 hne) hstart
      rw [hnil, List.nil_append] at ih ⊢
      exact congrArg _ (ih.1 hback)
    · rintro rfl
      rw [isGrouping_cons, flatten_groupLines]
      exact ⟨rfl, formsGroup_cons.2 ⟨follow_nil, fun h => absurd rfl h⟩,
        fun h => absurd h hstart, ih.2 rfl⟩

/-- Every group the program makes is one. -/
theorem formsGroup_of_mem_groupLines {g : List (List Token)} (h : g ∈ groupLines lines) :
    FormsGroup g :=
  (isGrouping_iff.2 rfl).group g h

end

/-- **Statements take the lines that continue them.**  There is one way to put lines together in
groups so that a group of several lines starts with a line of data that is no header, goes on with
lines behind markers and comments, and ends with a line behind a marker, and nothing continues a
group that starts with such a line.  Each statement holds the tokens of a group, in order. -/
theorem statements_grouped (lines : List (List Token)) :
    ∃ groups, (∀ other, IsGrouping lines other ↔ other = groups) ∧
      (parseTokens lines).statements.map (·.tokens) = groups.map List.flatten :=
  ⟨groupLines lines, fun _ => isGrouping_iff, tokenLists_parseTokens lines⟩

end RobotSuite
