/-
# Unified tags keep files sound and valid

A tag is removed with the gap in front of it, so what stands behind the first cell of a line
is still laid out (`unified_tail`), line by line (`unified_lines`).  A continued line that is
left with nothing goes.  What is left of the tags, of the comments and of the lines is said by
the keys of the tags in front (`LinesLeft`, `SettingLeft`).  The name of the setting stays, and
what the statement is read as depends on it alone (`sound_unify`).

A tag is repeated when its key is that of a tag at an earlier place, or one of those in front
(`isRepeated`).  What is not repeated has keys that all differ (`nodup_firsts`), and nothing is
repeated in a list whose keys all differ (`repeats_eq_nil`).  Both go through a list from its start,
with the keys in front growing on the way (`firsts_cons`, `repeats_cons`).
-/

import Mathlib.Data.List.Nodup
import RobotSuite.Format.UniqueTags
import RobotSuite.Proofs.Data.CaseMapping
import RobotSuite.Proofs.Format.Spelling

namespace RobotSuite

/-! ## Elements whose keys occur before them -/

section
variable {α β : Type} (key : α → String)

/-- Whether an element has the key of one at an earlier place of a list, or a key in front. -/
def isRepeated (front : List String) (xs : List α) (p : α × Nat) : Bool :=
  (front ++ (xs.take p.2).map key).contains (key p.1)

/-- The elements whose keys do not occur before them. -/
def firsts (front : List String) (xs : List α) : List α :=
  (xs.zipIdx.filter fun p => !isRepeated key front xs p).map (·.1)

/-- The elements whose keys occur before them. -/
def repeats (front : List String) (xs : List α) : List α :=
  (xs.zipIdx.filter (isRepeated key front xs)).map (·.1)

/-- The elements whose keys do not occur before them are some of all. -/
theorem sublist_firsts (front : List String) (xs : List α) : (firsts key front xs).Sublist xs := by
  conv_rhs => rw [← List.zipIdx_map_fst 0 xs]
  exact List.filter_sublist.map _

variable {key} {front : List String}

/-- The elements kept are the first, if the test says so, and those kept behind it. -/
theorem filter_zipIdx_cons (q : Bool → Bool) (x : α) (xs : List α) :
    ((x :: xs).zipIdx.filter fun p => q (isRepeated key front (x :: xs) p)).map (·.1) =
      (if q (front.contains (key x)) then [x] else []) ++
        (xs.zipIdx.filter fun p => q (isRepeated key (front ++ [key x]) xs p)).map (·.1) := by
  have hhead : isRepeated key front (x :: xs) (x, 0) = front.contains (key x) := by
    simp [isRepeated]
  have htail : ((xs.zipIdx 1).filter fun p => q (isRepeated key front (x :: xs) p)).map (·.1) =
      (xs.zipIdx.filter fun p => q (isRepeated key (front ++ [key x]) xs p)).map (·.1) := by
    rw [List.zipIdx_succ, List.filter_map, List.map_map]
    refine congrArg _ (List.filter_congr fun p _ => congrArg q ?_)
    simp [isRepeated]
  rw [List.zipIdx_cons, List.filter_cons, hhead, Nat.zero_add]
  split
  · rw [List.map_cons, htail, List.singleton_append]
  · rw [htail, List.nil_append]

@[simp] theorem firsts_nil : firsts key front [] = [] := rfl

@[simp] theorem repeats_nil : repeats key front [] = [] := rfl

/-- The first element is kept unless its key was seen. -/
theorem firsts_cons (x : α) (xs : List α) : firsts key front (x :: xs) =
    (if front.contains (key x) then [] else [x]) ++ firsts key (front ++ [key x]) xs := by
  rw [firsts, filter_zipIdx_cons (fun b => !b)]
  cases front.contains (key x) <;> rfl

/-- The first element repeats when its key was seen. -/
theorem repeats_cons (x : α) (xs : List α) : repeats key front (x :: xs) =
    (if front.contains (key x) then [x] else []) ++ repeats key (front ++ [key x]) xs :=
  filter_zipIdx_cons id x xs

/-- First occurrences in two lists: those of the first, then those the first has not. -/
theorem firsts_append (xs ys : List α) : firsts key front (xs ++ ys) =
    firsts key front xs ++ firsts key (front ++ xs.map key) ys := by
  induction xs generalizing front with
  | nil => rw [List.map_nil, List.append_nil]; rfl
  | cons x xs ih =>
    rw [List.cons_append, firsts_cons, firsts_cons, ih, List.append_assoc, List.map_cons,
      List.append_assoc, List.singleton_append]

/-- What is repeated among images is the images of what is repeated. -/
theorem repeats_map {γ : Type} (key : β → String) (f : γ → β) (xs : List γ) :
    repeats key front (xs.map f) = (repeats (fun x => key (f x)) front xs).map f := by
  induction xs generalizing front with
  | nil => rfl
  | cons x xs ih =>
    rw [List.map_cons, repeats_cons, repeats_cons, ih, List.map_append]
    split <;> rfl

/-- What is not repeated has keys that all differ, from each other and from those in front. -/
theorem nodup_firsts (xs : List α) : ((firsts key front xs).map key).Nodup ∧
    ∀ x ∈ firsts key front xs, key x ∉ front := by
  induction xs generalizing front with
  | nil => exact ⟨.nil, List.forall_mem_nil _⟩
  | cons x xs ih =>
    obtain ⟨hnodup, hfront⟩ := @ih (front ++ [key x])
    have hnot : ∀ y ∈ firsts key (front ++ [key x]) xs, key y ∉ front ∧ key y ≠ key x :=
      fun y hy => by simpa using hfront y hy
    rw [firsts_cons]
    split
    · exact ⟨hnodup, fun y hy => (hnot y hy).1⟩
    · rename_i hx
      have hx : key x ∉ front := by simpa using hx
      rw [List.singleton_append, List.map_cons, List.nodup_cons, List.forall_mem_cons]
      refine ⟨⟨fun hmem => ?_, hnodup⟩, hx, fun y hy => (hnot y hy).1⟩
      obtain ⟨y, hy, he⟩ := List.mem_map.1 hmem
      exact (hnot y hy).2 he

/-- Nothing is repeated in a list whose keys all differ. -/
theorem repeats_eq_nil {xs : List α} (hn : (xs.map key).Nodup) (hf : ∀ x ∈ xs, key x ∉ front) :
    repeats key front xs = [] := by
  induction xs generalizing front with
  | nil => rfl
  | cons x xs ih =>
    rw [List.map_cons, List.nodup_cons] at hn
    rw [List.forall_mem_cons] at hf
    rw [repeats_cons, if_neg (by simpa using hf.1), List.nil_append]
    refine ih hn.2 fun y hy => ?_
    rw [List.mem_append, List.mem_singleton, not_or]
    exact ⟨hf.2 y hy, fun he => hn.1 (he ▸ List.mem_map_of_mem hy)⟩

end

namespace UniqueTags

open Spelling (nameText_create settings_of_dataType dataType_bracketed)

/-! ## Tokens -/

/-- The key by which a tag is told from others once it is in a given case. -/
def keyOf (mode : TagCase) (t : Token) : String := Text.tagKey (mode.apply t.value)

/-- The texts, in a given case, of the tags that are left behind tags with some keys. -/
def leftTags (mode : TagCase) (front : List String) (tags : List Token) : List String :=
  (firsts (keyOf mode) front tags).map fun t => mode.apply t.value

/-- Tokens `ts` become `us` behind tags with some keys; what is in front and what follows
stays. -/
structure Unified (mode : TagCase) (front : List String) (ts us : List Token) : Prop where
  run : ∀ kept more, dropRemoved kept (editTags mode front (ts ++ more)) =
    dropRemoved (us.reverse ++ kept)
      (editTags mode (front ++ (dataTokens ts).map (keyOf mode)) more)
  tags : dataTexts us = leftTags mode front (dataTokens ts)
  comments : commentTokens us = commentTokens ts

section
variable {mode : TagCase} {front front' : List String}

/-- The tags left of two lists: those of the first, then those the first has not. -/
theorem leftTags_append (a b : List Token) : leftTags mode front (a ++ b) =
    leftTags mode front a ++ leftTags mode (front ++ a.map (keyOf mode)) b := by
  rw [leftTags, firsts_append, List.map_append]
  rfl

/-- One tag is left, in its case, unless its key was seen. -/
theorem leftTags_singleton (t : Token) : leftTags mode front [t] =
    if front.contains (keyOf mode t) then [] else [mode.apply t.value] := by
  rw [leftTags, firsts_cons, firsts_nil, List.append_nil]
  split <;> rfl

/-- A token that is no data is kept as it is. -/
theorem editTags_plain {t : Token} (h : t.isData = false) (ts : List Token) :
    editTags mode front (t :: ts) = (t, false) :: editTags mode front ts := by
  rw [editTags, if_neg (by simp [h])]

/-- A tag is removed when its key was seen, and rewritten otherwise. -/
theorem editTags_tag {t : Token} (h : t.isData = true) (ts : List Token) :
    editTags mode front (t :: ts) =
      if front.contains (keyOf mode t) then (t, true) :: editTags mode front ts
      else (t.withValue (mode.apply t.value), false) :: editTags mode (keyOf mode t :: front) ts := by
  rw [editTags, if_pos h]
  rfl

/-- Which tags are removed depends on which keys are in front, not on their order. -/
theorem editTags_congr (h : ∀ k, k ∈ front ↔ k ∈ front') (ts : List Token) :
    editTags mode front ts = editTags mode front' ts := by
  induction ts generalizing front front' with
  | nil => rfl
  | cons t ts ih =>
    have hcontains (k : String) : front.contains k = front'.contains k := by
      rw [Bool.eq_iff_iff, List.contains_iff_mem, List.contains_iff_mem, h]
    have hcons (k : String) : ∀ k', k' ∈ k :: front ↔ k' ∈ k :: front' := by
      intro k'
      rw [List.mem_cons, List.mem_cons, h]
    rw [editTags, editTags]
    dsimp only
    rw [hcontains, ih h, ih (hcons _)]

/-- Unifying two stretches one after the other unifies both. -/
theorem Unified.append {a b us vs : List Token} (ha : Unified mode front a us)
    (hb : Unified mode (front ++ (dataTokens a).map (keyOf mode)) b vs) :
    Unified mode front (a ++ b) (us ++ vs) := by
  constructor
  · intro kept more
    rw [List.append_assoc, ha.run, hb.run, List.reverse_append, List.append_assoc vs.reverse,
      dataTokens_append, List.map_append, List.append_assoc front]
  · rw [dataTexts_append, ha.tags, hb.tags, dataTokens_append, leftTags_append]
  · rw [commentTokens_append, commentTokens_append, ha.comments, hb.comments]

/-- Tokens without data stay. -/
theorem editTags_of_plain {ts : List Token} (h : ∀ t ∈ ts, t.isData = false) (more : List Token) :
    editTags mode front (ts ++ more) = ts.map (fun t => (t, false)) ++ editTags mode front more := by
  induction ts with
  | nil => rfl
  | cons t ts ih =>
    obtain ⟨ht, hts⟩ := List.forall_mem_cons.1 h
    rw [List.cons_append, editTags_plain ht, ih hts, List.map_cons, List.cons_append]

/-- Edits that keep their tokens are kept. -/
theorem dropRemoved_kept (kept ts : List Token) (edits : List Edit) :
    dropRemoved kept (ts.map (fun t => (t, false)) ++ edits) =
      dropRemoved (ts.reverse ++ kept) edits := by
  induction ts generalizing kept with
  | nil => rfl
  | cons t ts ih =>
    rw [List.map_cons, List.cons_append, dropRemoved, ih]
    simp

/-- Tokens without data are unified as they are. -/
theorem Unified.plain {ts : List Token} (h : ∀ t ∈ ts, t.isData = false) :
    Unified mode front ts ts := by
  have hnone : dataTokens ts = [] := by
    rw [dataTokens, List.filter_eq_nil_iff]
    exact fun t ht => by simp [h t ht]
  refine ⟨fun kept more => ?_, ?_, rfl⟩
  · rw [hnone, List.map_nil, List.append_nil, editTags_of_plain h, dropRemoved_kept]
  · rw [dataTexts, hnone]
    rfl

/-- A tag stays in its case, or goes with the gap in front of it. -/
theorem Unified.tag (mode : TagCase) (front : List String) {g c : Token}
    (hg : g.kind = .separator) (hc : c.kind = .argument) :
    Unified mode front [g, c] (if front.contains (keyOf mode c) then []
      else [g, c.withValue (mode.apply c.value)]) := by
  have hgd : g.isData = false := by simp [Token.isData, TokenKind.isData, hg]
  have hcd : c.isData = true := by simp [Token.isData, TokenKind.isData, hc]
  have hdata (v : String) : dataTokens [g, c.withValue v] = [c.withValue v] := by
    have hcd : (c.withValue v).isData = true := hcd
    simp [dataTokens, hgd, hcd]
  have hnone (v : String) : commentTokens [g, c.withValue v] = [] :=
    commentTokens_eq_nil (by simp [hg, hc, Token.withValue])
  have htag : dataTokens [g, c] = [c] := hdata c.value
  by_cases hs : front.contains (keyOf mode c) = true
  · rw [if_pos hs]
    refine ⟨fun kept more => ?_, ?_, (hnone c.value).symm⟩
    · have hsep : g.isSeparator = true := by simp [Token.isSeparator, hg]
      have hseen : ∀ k, k ∈ front ↔ k ∈ front ++ [keyOf mode c] := by
        intro k
        rw [List.mem_append, List.mem_singleton, iff_self_or]
        rintro rfl
        exact List.contains_iff_mem.1 hs
      rw [List.cons_append, List.cons_append, List.nil_append, editTags_plain hgd,
        editTags_tag hcd, if_pos hs, dropRemoved, dropRemoved, if_pos hsep, htag,
        editTags_congr hseen]
      rfl
    · rw [htag, leftTags_singleton, if_pos hs]
      rfl
  · rw [if_neg hs]
    refine ⟨fun kept more => ?_, ?_, (hnone _).trans (hnone c.value).symm⟩
    · have hseen : ∀ k, k ∈ keyOf mode c :: front ↔ k ∈ front ++ [keyOf mode c] := by
        intro k
        rw [List.mem_cons, List.mem_append, List.mem_singleton, or_comm]
      rw [List.cons_append, List.cons_append, List.nil_append, editTags_plain hgd,
        editTags_tag hcd, if_neg hs, dropRemoved, dropRemoved, htag, editTags_congr hseen]
      rfl
    · rw [dataTexts, hdata, htag, leftTags_singleton, if_neg hs]
      rfl

/-- What stands behind the first cell of a line is laid out when its tags are unified. -/
theorem unified_tail (mode : TagCase) {ts : List Token} (h : Tail ts) (front : List String) :
    ∃ us, Unified mode front ts us ∧ Tail us := by
  induction h generalizing front with
  | nil => exact ⟨[], .plain (by simp), .nil⟩
  | @gap g hk hg =>
    refine ⟨[g], .plain ?_, .gap hk hg⟩
    simp [Token.isData, TokenKind.isData, hk]
  | @remark g ts hk hg hr =>
    refine ⟨g :: ts, .plain fun t ht => ?_, .remark hk hg hr⟩
    rcases List.mem_cons.1 ht with rfl | ht
    · simp [Token.isData, TokenKind.isData, hk]
    · rcases hr.kind t ht with h | h <;> simp [Token.isData, TokenKind.isData, h]
  | @cell g c ts hk hg hck hc ht ih =>
    have htag := Unified.tag mode front hk hck
    obtain ⟨us, hu, htail⟩ := ih (front ++ (dataTokens [g, c]).map (keyOf mode))
    by_cases hs : front.contains (keyOf mode c) = true
    · rw [if_pos hs] at htag
      exact ⟨us, htag.append hu, htail⟩
    · rw [if_neg hs] at htag
      exact ⟨g :: c.withValue (mode.apply c.value) :: us, htag.append hu,
        .cell hk hg hck (hc.apply mode) htail⟩

/-! ## Lines -/

/-- What is left of the lines of a setting behind its first one, when tags with some keys stand in
front of them.  A line goes only if it is continued and is left with neither tag nor comment. -/
inductive LinesLeft (mode : TagCase) : List String → List (List Token) → List (List Token) → Prop
  | nil {front : List String} : LinesLeft mode front [] []
  | keep {front : List String} {line rest : List Token} {lines rests : List (List Token)} :
      dataTexts rest = leftTags mode front (dataTokens line) →
      commentTokens rest = commentTokens line → endingOf rest = endingOf line →
      LinesLeft mode (front ++ (dataTokens line).map (keyOf mode)) lines rests →
      LinesLeft mode front (line :: lines) (rest :: rests)
  | drop {front : List String} {line : List Token} {lines rests : List (List Token)} :
      isContinuationLine line = true → leftTags mode front (dataTokens line) = [] →
      commentTokens line = [] →
      LinesLeft mode (front ++ (dataTokens line).map (keyOf mode)) lines rests →
      LinesLeft mode front (line :: lines) rests

/-- What is left of the lines of a setting.  The first data token is its name. -/
inductive SettingLeft (mode : TagCase) : List (List Token) → List (List Token) → Prop
  | mk {c : Token} {tags tags' first rest : List Token} {lines rests : List (List Token)} :
      dataTokens first = c :: tags → dataTokens rest = c :: tags' →
      tags'.map (·.value) = leftTags mode [] tags →
      commentTokens rest = commentTokens first → endingOf rest = endingOf first →
      LinesLeft mode (tags.map (keyOf mode)) lines rests →
      SettingLeft mode (first :: lines) (rest :: rests)

/-- A line of a setting behind its first one stays such a line. -/
theorem unified_line (mode : TagCase) {line : List Token} (h : Continues line)
    (front : List String) :
    ∃ rest, Unified mode front line rest ∧ Continues rest ∧ endingOf rest = endingOf line := by
  rcases h with hw | ⟨hw, hc⟩
  · generalize hk : some TokenKind.continuation = k at hw
    obtain @⟨_, e, hl, he⟩ := hw
    cases hl with
    | blank => cases hk
    | remark => cases hk
    | @cells i ts c hi hcell hlead htail =>
      have hnot : ∀ t ∈ i ++ [c], t.isData = false := by
        rw [List.forall_mem_append, List.forall_mem_singleton]
        constructor
        · intro t ht
          simp [Token.isData, TokenKind.isData, hi.kind t ht]
        · simp [Token.isData, TokenKind.isData, ← Option.some.inj hk]
      obtain ⟨us, hu, hus⟩ := unified_tail mode htail
        (front ++ (dataTokens (i ++ [c])).map (keyOf mode))
      have hend : ∀ t ∈ [e], t.isData = false := by
        simp [Token.isData, TokenKind.isData, he.kind]
      have hline := ((Unified.plain hnot).append hu).append (Unified.plain hend)
      have hsplit (ts : List Token) : (i ++ [c]) ++ ts = i ++ c :: ts := by simp
      rw [hsplit, hsplit] at hline
      refine ⟨(i ++ c :: us) ++ [e], hline, .inl ?_, ?_⟩
      · rw [hk]
        exact .mk (.cells hi hcell hlead hus) he
      · rw [endingOf_concat he.kind, endingOf_concat he.kind]
  · refine ⟨line, .plain fun t ht => ?_, .inr ⟨hw, hc⟩, rfl⟩
    rcases hw.kind_of_none t ht with h | h | h <;> simp [Token.isData, TokenKind.isData, h]

/-- Continuation lines are unified line by line. -/
theorem unified_lines (mode : TagCase) {lines : List (List Token)}
    (h : ∀ l ∈ lines, Continues l) (front : List String) :
    ∃ rests : List (List Token), Unified mode front lines.flatten rests.flatten ∧
      (∀ l ∈ rests, Continues l) ∧ LinesLeft mode front lines rests := by
  induction lines generalizing front with
  | nil => exact ⟨[], .plain (by simp), by simp, .nil⟩
  | cons line lines ih =>
    obtain ⟨hline, hlines⟩ := List.forall_mem_cons.1 h
    obtain ⟨rest, hu, hrest, he⟩ := unified_line mode hline front
    obtain ⟨rests, hus, hrests, hleft⟩ :=
      ih hlines (front ++ (dataTokens line).map (keyOf mode))
    exact ⟨rest :: rests, hu.append hus, List.forall_mem_cons.2 ⟨hrest, hrests⟩,
      .keep hu.tags hu.comments he hleft⟩

/-- The name of the setting stays, and with it what is in front. -/
theorem editSetting_eq {i : List Token} (hi : ∀ t ∈ i, t.isData = false) {c : Token}
    (hc : c.isData = true) (ts : List Token) : editSetting mode (i ++ c :: ts) =
      (i ++ [c]).map (fun t => (t, false)) ++ editTags mode [] ts := by
  induction i with
  | nil => rw [List.nil_append, editSetting, if_pos hc]; rfl
  | cons t i ih =>
    obtain ⟨ht, hi⟩ := List.forall_mem_cons.1 hi
    rw [List.cons_append, editSetting, if_neg (by simp [ht]), ih hi]
    rfl

/-- The first line of a setting, and those behind it. -/
theorem unified_first (mode : TagCase) {k : Option TokenKind} {first : List Token}
    {lines : List (List Token)} (hw : Written k first) (hk : startsData k)
    (hl : ∀ l ∈ lines, Continues l) : ∃ (rest : List Token) (rests : List (List Token)),
      dropRemoved [] (editSetting mode (first ++ lines.flatten)) = (rest :: rests).flatten ∧
      Written k rest ∧ (∀ l ∈ rests, Continues l) ∧
      SettingLeft mode (first :: lines) (rest :: rests) := by
  obtain @⟨_, e, hline, he⟩ := hw
  cases hline with
  | blank => rcases hk with hk | hk <;> cases hk
  | remark => rcases hk with hk | hk <;> cases hk
  | @cells i ts c hi hcell hlead htail =>
    have hid : ∀ t ∈ i, t.isData = false := fun t ht => by
      simp [Token.isData, TokenKind.isData, hi.kind t ht]
    have hcd : c.isData = true := by
      rcases hk with hk | hk <;> simp [Token.isData, TokenKind.isData, Option.some.inj hk]
    have hname (us : List Token) : dataTokens ((i ++ c :: us) ++ [e]) = c :: dataTokens us := by
      have hnone : dataTokens i = [] := by
        rw [dataTokens, List.filter_eq_nil_iff]
        exact fun t ht => by simp [hid t ht]
      have hend : dataTokens [e] = [] := by
        simp [dataTokens, Token.isData, TokenKind.isData, he.kind]
      rw [dataTokens_append, dataTokens_append, hnone, hend, List.nil_append, List.append_nil,
        dataTokens, List.filter_cons_of_pos hcd]
      rfl
    obtain ⟨us, hu, hus⟩ := unified_tail mode htail []
    have hend : Unified mode ([] ++ (dataTokens ts).map (keyOf mode)) [e] [e] :=
      .plain (by simp [Token.isData, TokenKind.isData, he.kind])
    have hkeys : dataTokens (ts ++ [e]) = dataTokens ts := by
      have hnone : dataTokens [e] = [] := by
        simp [dataTokens, Token.isData, TokenKind.isData, he.kind]
      rw [dataTokens_append, hnone, List.append_nil]
    have hfront := hu.append hend
    obtain ⟨rests, hrests, hcont, hleft⟩ := unified_lines mode hl
      ([] ++ (dataTokens (ts ++ [e])).map (keyOf mode))
    refine ⟨(i ++ c :: us) ++ [e], rests, ?_, .mk (.cells hi hcell hlead hus) he, hcont, ?_⟩
    · have hshape (ts : List Token) (lines : List (List Token)) :
          ((i ++ c :: ts) ++ [e]) ++ lines.flatten = i ++ c :: (ts ++ [e] ++ lines.flatten) := by
        simp
      have hrun := (hfront.append hrests).run (i ++ [c]).reverse []
      rw [List.append_nil] at hrun
      rw [List.flatten_cons, hshape, hshape, editSetting_eq hid hcd, dropRemoved_kept,
        List.append_nil, hrun, editTags, dropRemoved]
      simp
    · have hcomments : commentTokens ((i ++ c :: us) ++ [e]) =
          commentTokens ((i ++ c :: ts) ++ [e]) := by
        have hshape (ts : List Token) : (i ++ c :: ts) ++ [e] = (i ++ [c]) ++ (ts ++ [e]) := by simp
        rw [hshape, hshape, commentTokens_append, hfront.comments, ← commentTokens_append]
      refine .mk (hname ts) (hname us) hu.tags hcomments ?_ ?_
      · rw [endingOf_concat he.kind, endingOf_concat he.kind]
      · rwa [hkeys, List.nil_append] at hleft

/-! ## Lines that are left with nothing -/

/-- A continued line that is left with nothing holds neither tag nor comment. -/
theorem left_of_isEmptyContinuation {line : List Token} (h : isEmptyContinuation line = true) :
    dataTexts line = [] ∧ commentTokens line = [] := by
  have hkind : ∀ t ∈ line, t.kind = .continuation ∨ t.kind = .separator ∨ t.kind = .eol := by
    intro t ht
    by_cases hm : t.isContinuation = true
    · exact .inl (by simpa [Token.isContinuation] using hm)
    · have := List.all_eq_true.1 h t (List.mem_filter.2 ⟨ht, by simpa using hm⟩)
      exact .inr (by simpa [Token.isSeparator, Token.isEol] using this)
  constructor
  · rw [dataTexts, dataTokens, List.map_eq_nil_iff, List.filter_eq_nil_iff]
    intro t ht
    rcases hkind t ht with hk | hk | hk <;> simp [Token.isData, TokenKind.isData, hk]
  · refine commentTokens_eq_nil fun t ht => ?_
    rcases hkind t ht with hk | hk | hk <;> simp [hk]

/-- A line of a setting behind its first one has a marker or a comment. -/
theorem isContinuationLine_of_continues {line : List Token} (h : Continues line)
    (hc : commentTokens line = []) : isContinuationLine line = true := by
  rcases h with hw | ⟨-, hany⟩
  · rcases hw.firstSignificant with ⟨hk, -⟩ | ⟨c, hc, hk⟩
    · cases hk
    · rw [isContinuationLine, hc, Option.any_some, Token.isContinuation, ← Option.some.inj hk]
      rfl
  · rw [commentTokens, List.filter_eq_nil_iff] at hc
    simp only [List.any_eq_true] at hany
    obtain ⟨t, ht, hcomment⟩ := hany
    exact absurd hcomment (hc t ht)

section
variable {lines rests : List (List Token)}

/-- Dropping the emptied lines loses no tag. -/
theorem LinesLeft.dropEmpty (h : LinesLeft mode front lines rests) (hl : ∀ l ∈ lines, Continues l) :
    LinesLeft mode front lines (rests.filter fun l => !isEmptyContinuation l) := by
  induction h with
  | nil => exact .nil
  | @keep front line rest lines rests htags hcomments hend _ ih =>
    obtain ⟨hline, hlines⟩ := List.forall_mem_cons.1 hl
    cases he : isEmptyContinuation rest with
    | false =>
      rw [List.filter_cons_of_pos (by simp [he])]
      exact .keep htags hcomments hend (ih hlines)
    | true =>
      obtain ⟨hnone, hremarks⟩ := left_of_isEmptyContinuation he
      have hc : commentTokens line = [] := hcomments.symm.trans hremarks
      rw [List.filter_cons_of_neg (by simp [he])]
      exact .drop (isContinuationLine_of_continues hline hc) (htags.symm.trans hnone) hc (ih hlines)
  | drop hm htags hc _ ih => exact .drop hm htags hc (ih (List.forall_mem_cons.1 hl).2)

/-- Dropping the emptied lines of a setting loses no tag. -/
theorem SettingLeft.dropEmpty (h : SettingLeft mode lines rests)
    (hl : ∀ l ∈ lines.tail, Continues l) : SettingLeft mode lines (dropEmptyLines rests) := by
  obtain ⟨hold, hnew, htags, hcomments, hend, hleft⟩ := h
  exact .mk hold hnew htags hcomments hend (hleft.dropEmpty hl)

/-- The lines left hold all comments. -/
theorem LinesLeft.comments (h : LinesLeft mode front lines rests) :
    commentTokens rests.flatten = commentTokens lines.flatten := by
  induction h with
  | nil => rfl
  | keep _ hc _ _ ih =>
    rw [List.flatten_cons, List.flatten_cons, commentTokens_append, commentTokens_append, hc, ih]
  | drop _ _ hc _ ih => rw [List.flatten_cons, commentTokens_append, hc, List.nil_append, ih]

/-- The lines left hold the first occurrence of each tag. -/
theorem LinesLeft.tags (h : LinesLeft mode front lines rests) :
    dataTexts rests.flatten = leftTags mode front (dataTokens lines.flatten) := by
  induction h with
  | nil => rfl
  | keep ht _ _ _ ih =>
    rw [List.flatten_cons, List.flatten_cons, dataTexts_append, dataTokens_append, leftTags_append,
      ht, ih]
  | drop _ ht _ _ ih =>
    rw [List.flatten_cons, dataTokens_append, leftTags_append, ht, ih, List.nil_append]

/-- The setting left holds all comments. -/
theorem SettingLeft.comments (h : SettingLeft mode lines rests) :
    commentTokens rests.flatten = commentTokens lines.flatten := by
  obtain ⟨-, -, -, hcomments, -, hleft⟩ := h
  rw [List.flatten_cons, List.flatten_cons, commentTokens_append, commentTokens_append, hcomments,
    hleft.comments]

/-- The name stays, and the tags are those that are left behind no others. -/
theorem SettingLeft.tags (h : SettingLeft mode lines rests) : ∃ c tags tags',
    dataTokens lines.flatten = c :: tags ∧ dataTokens rests.flatten = c :: tags' ∧
      tags'.map (·.value) = leftTags mode [] tags := by
  obtain @⟨c, tags, tags', first, rest, lines, rests, hold, hnew, htags, -, -, hleft⟩ := h
  refine ⟨c, tags ++ dataTokens lines.flatten, tags' ++ dataTokens rests.flatten, ?_, ?_, ?_⟩
  · rw [List.flatten_cons, dataTokens_append, hold, List.cons_append]
  · rw [List.flatten_cons, dataTokens_append, hnew, List.cons_append]
  · rw [List.map_append, htags, leftTags_append, List.nil_append, ← hleft.tags]
    rfl

end

/-- Dropping emptied lines leaves a laid statement laid. -/
theorem laid_dropEmptyLines {rests : List (List Token)} (h : Laid false rests) :
    Laid false (dropEmptyLines rests) := by
  cases h with
  | plain hw => exact .plain hw
  | data hw hk hrests => exact .data hw hk fun l hl => hrests l (List.mem_filter.1 hl).1

end

/-! ## Settings -/

section
variable {mode : TagCase} {kind : SectionKind} {s new : Statement} {ts : List Token}

/-- The lines of a setting whose tags are unified, those that are left with nothing among them. -/
theorem laid_unified (mode : TagCase) (h : Laid false (splitLines ts)) (hd : dataTexts ts ≠ []) :
    ∃ rests, dropRemoved [] (editSetting mode ts) = rests.flatten ∧ Laid false rests ∧
      SettingLeft mode (splitLines ts) rests ∧
      SettingLeft mode (splitLines ts) (dropEmptyLines rests) := by
  obtain ⟨k, first, more, hlines, hflat, hw, hk, hm⟩ := h.exists_data hd
  obtain ⟨rest, rests, hrun, hrest, hrests, hleft⟩ := unified_first mode hw hk hm
  rw [hlines]
  refine ⟨rest :: rests, ?_, .data hrest hk hrests, hleft, hleft.dropEmpty hm⟩
  rw [hflat, hrun]

/-- A setting in brackets is told by its first cell. -/
theorem isBracketed_of_dataType {c : Token} {rest : List Token}
    (h : dataType kind (c :: rest) = .blockSetting) : SettingName.isBracketed c.value = true := by
  have hbody : bodyType (c :: rest) = .blockSetting := by
    cases kind <;> simp only [dataType] at h <;> first | (split at h <;> simp_all) | cases h
  unfold bodyType at hbody
  dsimp only at hbody
  split at hbody
  · split at hbody <;> cases hbody
  · rename_i hassigned
    have hnone : isAssignment c.value = false := by
      cases ha : isAssignment c.value with
      | false => rfl
      | true => simp [List.takeWhile_cons_of_pos, ha] at hassigned
    rw [List.takeWhile_cons_of_neg (by simp [hnone])] at hbody
    split at hbody
    · rename_i hb
      exact hb
    · split at hbody
      · cases hbody
      · split at hbody <;> cases hbody
      · rename_i t _ ht
        have := ofMarker?_eq_some ht
        rw [hbody] at this
        simp [StatementType.marker?] at this

/-- A tag setting is one of the suite or in brackets. -/
theorem type_of_holdsTags (h : s.holdsTags = true) : s.type = .setting ∨ s.type = .blockSetting := by
  rw [Statement.holdsTags, Statement.suiteSetting?, Statement.blockSetting?] at h
  by_cases hs : s.type = .setting
  · exact .inl hs
  · by_cases hb : s.type = .blockSetting
    · exact .inr hb
    · rw [if_neg hs, if_neg hb] at h
      cases h

/-- What holds tags is a tag setting. -/
theorem holdsTags_of_tagCells (h : s.tagCells ≠ []) : s.holdsTags = true := by
  by_contra hnone
  rw [Statement.tagCells, if_neg hnone] at h
  exact h rfl

/-- What is unified is a tag setting. -/
theorem holdsTags_of_unify (h : unify mode s = some new) : s.holdsTags = true := by
  rw [unify] at h
  split at h
  · cases h
  · rename_i htags
    exact holdsTags_of_tagCells (by simpa using htags)

/-- Only settings are unified. -/
theorem type_of_unify (h : unify mode s = some new) : s.type = .setting ∨ s.type = .blockSetting :=
  type_of_holdsTags (holdsTags_of_unify h)

/-- A setting holds data. -/
theorem dataTexts_ne_nil (h : s.IsSound kind) (ht : s.type = .setting ∨ s.type = .blockSetting) :
    dataTexts s.tokens ≠ [] := by
  obtain ⟨-, -, hplain, -⟩ := readsAs_iff.1 h.reads
  intro hd
  have := hplain hd
  rcases ht with ht | ht <;> rw [ht] at this <;> split at this <;> cases this

/-- A setting that is unified: its new tokens are lines that are left of the old ones. -/
theorem unify_eq_some (h : s.IsSound kind) (hs : unify mode s = some new) :
    ∃ rests, new = s.withTokens rests.flatten ∧ Laid false rests ∧
      SettingLeft mode (splitLines s.tokens) rests := by
  have hd := dataTexts_ne_nil h (type_of_unify hs)
  rw [unify] at hs
  split at hs
  · cases hs
  · dsimp only at hs
    split at hs
    · obtain rfl := Option.some.inj hs
      obtain ⟨rests, hrun, hlaid, -, hleft⟩ := laid_unified mode h.laid hd
      refine ⟨dropEmptyLines rests, ?_, laid_dropEmptyLines hlaid, hleft⟩
      rw [hrun, splitLines_flatten hlaid.written]
    · cases hs

/-- **A setting whose tags are unified stays sound.** -/
theorem sound_unify (h : s.IsSound kind) (hs : unify mode s = some new) : new.IsSound kind := by
  have htype := type_of_unify hs
  obtain ⟨rests, rfl, hlaid, hleft⟩ := unify_eq_some h hs
  obtain ⟨c, rest, more, hold, hnew, -⟩ := hleft.tags
  rw [flatten_splitLines] at hold
  have hlines : Laid false (splitLines rests.flatten) := by rwa [splitLines_flatten hlaid.written]
  refine ⟨hlines, ?_⟩
  obtain ⟨hread, hknown, hkind⟩ := (readsAs_iff.1 h.reads).2.2.2 (dataTexts_ne_nil h htype)
  have hcall : s.type ≠ .keywordCall := by
    rcases htype with ht | ht <;> simp [ht]
  show ReadsAs kind s.type rests.flatten
  refine hlines.readsAs (fun hnil => ?_) fun _ => ⟨?_, ?_, hkind⟩
  · rw [dataTexts, hnew] at hnil
    cases hnil
  · rw [hold] at hread
    rw [hnew]
    rcases htype with ht | ht
    · rw [ht] at hread ⊢
      rw [settings_of_dataType hread.symm]
      rfl
    · rw [ht] at hread ⊢
      exact (dataType_bracketed (v := c.value) hread.symm
        (isBracketed_of_dataType hread.symm)).symm
  · rw [← hknown]
    exact hasKnownSetting_congr rfl
      ((nameText_create hcall hnew).trans (nameText_create hcall hold).symm)

end

/-- **Unified tags keep files sound.** -/
theorem keepsSound_pass : pass.KeepsSound := by
  refine Pass.keepsSound_ofItems ?_ ?_
  · intro setup kind sc s new hv h hsh hs
    exact sound_unify hs (Decision.ofOption_eq_put h)
  · intro setup sc s new h
    rcases type_of_unify (Decision.ofOption_eq_put h) with ht | ht <;> simp [ht]

/-! ## Line endings -/

section
variable {mode : TagCase} {t : Token} {ts : List Token}

/-- What is left was kept before or is kept by its edit. -/
theorem mem_of_mem_dropRemoved {kept : List Token} {edits : List Edit}
    (h : t ∈ dropRemoved kept edits) : t ∈ kept ∨ (t, false) ∈ edits := by
  fun_induction dropRemoved kept edits with
  | case1 kept => exact .inl (by simpa using h)
  | case2 kept u edits ih =>
    rcases ih h with h | h
    · rcases List.mem_cons.1 h with rfl | h
      · exact .inr List.mem_cons_self
      · exact .inl h
    · exact .inr (List.mem_cons_of_mem _ h)
  | case3 u edits ih =>
    exact (ih h).imp_right (List.mem_cons_of_mem _)
  | case4 u edits s more ih =>
    refine (ih h).imp (fun h => ?_) (List.mem_cons_of_mem _)
    split at h
    · exact List.mem_cons_of_mem _ h
    · exact h

/-- Line endings are no tags, and stay as they are. -/
theorem mem_of_mem_editTags {seen : List String} (h : (t, false) ∈ editTags mode seen ts)
    (ht : t.kind = .eol) : t ∈ ts := by
  fun_induction editTags mode seen ts with
  | case1 => simp at h
  | case2 seen u us hu value key hs ih =>
    rcases List.mem_cons.1 h with h | h
    · cases h
    · exact List.mem_cons_of_mem _ (ih h)
  | case3 seen u us hu value key hs ih =>
    rcases List.mem_cons.1 h with h | h
    · obtain rfl := (Prod.mk.inj h).1
      simp [Token.isData, TokenKind.isData, show u.kind = .eol from ht] at hu
    · exact List.mem_cons_of_mem _ (ih h)
  | case4 seen u us hu ih =>
    rcases List.mem_cons.1 h with h | h
    · rw [(Prod.mk.inj h).1]
      exact List.mem_cons_self
    · exact List.mem_cons_of_mem _ (ih h)

/-- Line endings that are kept are the old ones. -/
theorem mem_of_mem_editSetting (h : (t, false) ∈ editSetting mode ts) (ht : t.kind = .eol) :
    t ∈ ts := by
  induction ts with
  | nil => simp [editSetting] at h
  | cons u us ih =>
    rw [editSetting] at h
    split at h
    all_goals
      rcases List.mem_cons.1 h with h | h
      · rw [(Prod.mk.inj h).1]
        exact List.mem_cons_self
    · exact List.mem_cons_of_mem _ (mem_of_mem_editTags h ht)
    · exact List.mem_cons_of_mem _ (ih h)

/-- The lines left were lines before. -/
theorem mem_of_mem_dropEmptyLines {lines : List (List Token)}
    (h : t ∈ (dropEmptyLines lines).flatten) : t ∈ lines.flatten := by
  cases lines with
  | nil => exact h
  | cons line lines =>
    rw [dropEmptyLines, List.flatten_cons, List.mem_append] at h
    rw [List.flatten_cons, List.mem_append]
    refine h.imp_right fun h => ?_
    obtain ⟨l, hl, ht⟩ := List.mem_flatten.1 h
    exact List.mem_flatten.2 ⟨l, (List.mem_filter.1 hl).1, ht⟩

/-- Line endings of a setting whose tags are unified were there before. -/
theorem mem_of_mem_unify {s new : Statement} (h : unify mode s = some new) (ht : t ∈ new.tokens)
    (hk : t.kind = .eol) : t ∈ s.tokens := by
  rw [unify] at h
  split at h
  · cases h
  · dsimp only at h
    split at h
    · obtain rfl := Option.some.inj h
      have hmem := mem_of_mem_dropEmptyLines ht
      rw [flatten_splitLines] at hmem
      exact mem_of_mem_editSetting ((mem_of_mem_dropRemoved hmem).resolve_left (by simp)) hk
    · cases h

/-- **Unified tags keep line breaks.** -/
theorem keepsBreaks_pass : pass.KeepsBreaks := by
  refine Pass.keepsBreaks_ofStatements ?_
  intro N setup sc s new _ _ h hs
  have hold {t : Token} : t ∈ new.tokens → t.kind = .eol → t ∈ s.tokens :=
    mem_of_mem_unify (Decision.ofOption_eq_put h)
  refine ⟨hs.breaks.of_mem fun t ht hk => .inr ⟨t, hold ht hk, hk, rfl⟩, fun hu => ?_⟩
  obtain ⟨e, hmem, hk, hv⟩ := mem_tokens_of_isUnterminated hu
  obtain ⟨front, last, htokens, -, hinner⟩ := hs.concat
  have hmem := hold hmem hk
  -- all line endings inside the statement are line breaks
  rw [htokens, List.mem_append, List.mem_singleton] at hmem
  rcases hmem with hmem | rfl
  · exact absurd hv (hinner e hmem hk)
  · rw [isUnterminated_concat htokens, Token.isEol, hk, hv]
    rfl

end

end UniqueTags

end RobotSuite
