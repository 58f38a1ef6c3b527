/-
# Lines as slots

A line is a row of slots: each holds a cell, a comment or the line ending, and the gap in front of
it.  `SlotLine` is the grammar of lines in this form, in which each slot but the last asks for what
stands in front of it only.  It says the same as `TokenLine` (`slotLine_of_tokenLine`,
`SlotLine.tokenLine`).  Slots may be edited: a cell goes together with the gap in front of it, or
is written in another way, and the gap at the end of the line goes.  A line stays a line if its
first cell does not go (`SlotLine.mended`).
-/

import RobotSuite.Proofs.Token.Grammar

namespace RobotSuite

/-! ## Slots -/

/-- A token that is no gap, and the gap in front of it. -/
structure Slot where
  gap : Option Token
  token : Token

/-- The tokens of a slot. -/
def Slot.tokens (x : Slot) : List Token := x.gap.toList ++ [x.token]

/-- The slots of some tokens, when `gap` stands in front of them. -/
def slotsFrom (gap : Option Token) : List Token → List Slot
  | [] => []
  | t :: ts => if t.isSeparator then slotsFrom (some t) ts else ⟨gap, t⟩ :: slotsFrom none ts

/-- The slots of some tokens. -/
def slots (ts : List Token) : List Slot := slotsFrom none ts

/-- The tokens of some slots. -/
def slotTokens (xs : List Slot) : List Token := xs.flatMap Slot.tokens

@[simp] theorem slotTokens_nil : slotTokens [] = [] := rfl

@[simp] theorem slotTokens_cons (x : Slot) (xs : List Slot) :
    slotTokens (x :: xs) = x.tokens ++ slotTokens xs := rfl

/-- Slots hold their tokens one after the other. -/
@[simp] theorem slotTokens_append (xs ys : List Slot) :
    slotTokens (xs ++ ys) = slotTokens xs ++ slotTokens ys :=
  List.flatMap_append

section
variable {t g : Token} {ts : List Token}

/-- A token without a gap in front is a slot. -/
theorem slots_cons (h : t.kind ≠ .separator) : slots (t :: ts) = ⟨none, t⟩ :: slots ts := by
  simp [slots, slotsFrom, Token.isSeparator, h]

/-- A gap and the token behind it are a slot. -/
theorem slots_gap_cons (hg : g.kind = .separator) (h : t.kind ≠ .separator) :
    slots (g :: t :: ts) = ⟨some g, t⟩ :: slots ts := by
  simp [slots, slotsFrom, Token.isSeparator, hg, h]

/-- Slots end where a token is no gap. -/
theorem slots_append (ts us : List Token) (h : t.kind ≠ .separator) :
    slots (ts ++ t :: us) = slots (ts ++ [t]) ++ slots us := by
  have hfrom (gap : Option Token) :
      slotsFrom gap (ts ++ t :: us) = slotsFrom gap (ts ++ [t]) ++ slotsFrom none us := by
    induction ts generalizing gap with
    | nil => simp [slotsFrom, Token.isSeparator, h]
    | cons s ts ih =>
      rw [List.cons_append, List.cons_append, slotsFrom, slotsFrom, ih, ih]
      split <;> rfl
  exact hfrom none

end

/-! ## Kinds of tokens -/

namespace Token
variable {t : Token}

/-- A token of a kind that is no data is none. -/
theorem isData_eq_false {kind : TokenKind} (h : t.kind = kind) (hk : kind.isData = false) :
    t.isData = false := by
  rw [isData, h, hk]

/-- Data is no line ending. -/
theorem isEol_eq_false (h : t.isData = true) : t.isEol = false := by
  rw [isEol, beq_eq_false_iff_ne]
  intro he
  rw [isData_eq_false he rfl] at h
  cases h

end Token

/-! ## The grammar of lines as slots -/

/-- A gap, if there is one. -/
def IsGapToken (gap : Option Token) : Prop :=
  ∀ g ∈ gap, g.kind = .separator ∧ IsGapText g.value.toList

/-- What may stand in front of a cell or a comment: behind a cell, a wide gap must. -/
structure Spaced (first : Bool) (gap : Option Token) : Prop where
  form : IsGapToken gap
  wide : first = false → ∃ g ∈ gap, isCellSeparator g.value = true

/-- Slots that make a line from some place to its end.  `star` says that the line starts with an
asterisk, and `first` that no cell stands in front. -/
inductive SlotLine (star : Bool) : Bool → List Slot → Prop
  | ending {first : Bool} {gap : Option Token} {e : Token} : IsGapToken gap → e.kind = .eol →
      SlotLine star first [⟨gap, e⟩]
  | remark {first : Bool} {gap gap' : Option Token} {c e : Token} : Spaced first gap →
      c.kind = .comment → IsCommentText c.value.toList → '\n' ∉ c.value.toList →
      IsGapToken gap' → e.kind = .eol → SlotLine star first [⟨gap, c⟩, ⟨gap', e⟩]
  | cell {first : Bool} {gap : Option Token} {t : Token} {xs : List Slot} : Spaced first gap →
      t.kind = cellKind star first gap.isNone t.value.toList → IsCellText t.value.toList →
      '\n' ∉ t.value.toList → SlotLine star false xs → SlotLine star first (⟨gap, t⟩ :: xs)

/-! ## Lines of tokens are lines of slots -/

section
variable {row front back : List Piece} {p : Piece}

/-- A gap holds no feed. -/
theorem IsGapText.unbroken {g : List Char} (h : IsGapText g) : '\n' ∉ g := by
  intro hmem
  rcases h.2 _ hmem with h | h <;> exact absurd h (by decide)

/-- A gap fits where no other follows and it is wide enough to part cells. -/
theorem fits_gap (hk : p.1 = .separator) (hg : IsGapText p.2)
    (halone : ∀ q ∈ back.head?, q.1 ≠ .separator)
    (hwide : noCell front = false → back ≠ [] → isCellSeparator (String.ofList p.2) = true) :
    Fits row front p back :=
  { inner := by simp [hk]
    unbroken := hg.unbroken
    gap := fun _ => hg
    gap_alone := fun _ => halone
    gap_wide := fun _ hcell hback => hwide (noCell_eq_false.2 hcell) (by rintro rfl; simp at hback)
    comment := by simp [hk]
    comment_last := by simp [hk]
    cell := by simp [hk, TokenKind.isCell]
    cell_alone := by simp [hk, TokenKind.isCell]
    cell_kind := by simp [hk, TokenKind.isCell] }

/-- A comment fits where only gaps follow. -/
theorem fits_comment (hk : p.1 = .comment) (hc : IsCommentText p.2) (hb : '\n' ∉ p.2)
    (hlast : ∀ q ∈ back, q.1 = .separator) : Fits row front p back :=
  { inner := by simp [hk]
    unbroken := hb
    gap := by simp [hk]
    gap_alone := by simp [hk]
    gap_wide := by simp [hk]
    comment := fun _ => hc
    comment_last := fun _ => hlast
    cell := by simp [hk, TokenKind.isCell]
    cell_alone := by simp [hk, TokenKind.isCell]
    cell_kind := by simp [hk, TokenKind.isCell] }

/-- A cell fits where a gap or nothing follows. -/
theorem fits_cell (hk : p.1 = forcedKind row front p.2) (hcell : p.1.isCell = true)
    (hc : IsCellText p.2) (hb : '\n' ∉ p.2) (halone : ∀ q ∈ back.head?, q.1 = .separator) :
    Fits row front p back := by
  have hne (k : TokenKind) (h : k.isCell = false) : p.1 ≠ k := by
    rintro rfl
    rw [hcell] at h
    cases h
  exact
    { inner := hne _ rfl
      unbroken := hb
      gap := fun h => absurd h (hne _ rfl)
      gap_alone := fun h => absurd h (hne _ rfl)
      gap_wide := fun h => absurd h (hne _ rfl)
      comment := fun h => absurd h (hne _ rfl)
      comment_last := fun h => absurd h (hne _ rfl)
      cell := fun _ => hc
      cell_alone := fun _ => halone
      cell_kind := fun _ => hk }

end

/-- A gap stands between the tokens `front` and the tokens `ts` of a line, if there is one. -/
structure Between (front : List Piece) (gap : Option Token) (ts : List Token) : Prop where
  form : IsGapToken gap
  alone : gap.isSome = true → ∀ t ∈ ts.head?, t.kind ≠ .separator
  nil : noCell front = true → front = []
  wide : noCell front = false →
    ∀ t ∈ ts.head?, t.kind = .separator ∨ ∃ g ∈ gap, isCellSeparator g.value = true

section
variable {row front : List Piece} {gap : Option Token} {t e : Token} {ts : List Token}

/-- The pieces of a gap. -/
def gapPieces (gap : Option Token) : List Piece := gap.toList.map Token.piece

/-- A gap is no cell. -/
theorem noCell_append_gap (h : IsGapToken gap) :
    noCell (front ++ gapPieces gap) = noCell front := by
  cases gap with
  | none => simp [gapPieces]
  | some g =>
    have hk : g.piece.1 = .separator := (h g rfl).1
    exact noCell_append (by rw [hk]; rfl)

/-- The gap in front of a token parts it from the cell before. -/
theorem Between.spaced (h : Between front gap (t :: ts)) (ht : t.kind ≠ .separator) :
    Spaced (noCell front) gap :=
  ⟨h.form, fun hcell => (h.wide hcell t rfl).resolve_left ht⟩

/-- What is no gap is a cell or a comment. -/
theorem isCell_or_comment (hk : t.kind ≠ .separator)
    (h : FitsFrom row front ((t :: ts).map Token.piece)) :
    t.kind = .comment ∨ t.kind.isCell = true :=
  (isCell_or (fitsFrom_cons.1 h).1.inner).resolve_left hk

/-- No gap stands in front of a gap. -/
theorem Between.gap_eq_none (h : Between front gap (t :: ts)) (ht : t.kind = .separator) :
    gap = none := by
  cases gap with
  | none => rfl
  | some g => exact absurd ht (h.alone rfl t rfl)

/-- A line that goes on with a gap. -/
theorem Between.opened (h : Between front none (t :: ts)) (ht : t.kind = .separator)
    (hfits : FitsFrom row front ((t :: ts).map Token.piece)) : Between front (some t) ts := by
  obtain ⟨hfit, hts⟩ := fitsFrom_cons.1 hfits
  have halone : ∀ u ∈ ts.head?, u.kind ≠ .separator := fun u hu =>
    hfit.gap_alone ht u.piece (by rw [List.head?_map, Option.mem_def.1 hu]; rfl)
  refine ⟨?_, fun _ => halone, h.nil, fun hcell u hu => .inr ⟨t, rfl, ?_⟩⟩
  · intro g hg
    obtain rfl : t = g := Option.some.inj hg
    exact ⟨ht, hfit.gap ht⟩
  · have hwide := hfit.gap_wide ht (noCell_eq_false.1 hcell)
    cases ts with
    | nil => cases hu
    | cons v ts =>
      have hv := isCell_or_comment (halone v rfl) hts
      have := hwide ⟨v.piece, List.mem_cons_self, hv.symm⟩
      simpa [Token.piece] using this

/-- A line that goes on behind a cell. -/
theorem Between.behind (ht : t.kind.isCell = true)
    (hfits : Fits row front t.piece (ts.map Token.piece)) :
    Between (front ++ [t.piece]) none ts := by
  refine ⟨by simp [IsGapToken], by simp, ?_, fun _ u hu => .inl ?_⟩
  · intro hnone
    rw [noCell_append_cell ht] at hnone
    cases hnone
  · exact hfits.cell_alone ht u.piece (by rw [List.head?_map, Option.mem_def.1 hu]; rfl)

/-- What is left of a line behind a comment: a gap at most. -/
theorem slots_behind_comment (he : e.kind = .eol) (hts : FitsFrom row front (ts.map Token.piece))
    (hsep : ∀ t ∈ ts, t.kind = .separator) :
    ∃ gap, IsGapToken gap ∧ slots (ts ++ [e]) = [⟨gap, e⟩] ∧ ts = gap.toList := by
  have hne : e.kind ≠ .separator := by simp [he]
  cases ts with
  | nil => exact ⟨none, by simp [IsGapToken], slots_cons hne, rfl⟩
  | cons g ts =>
    obtain ⟨hg, -⟩ := fitsFrom_cons.1 hts
    have hk : g.kind = .separator := hsep g List.mem_cons_self
    obtain rfl : ts = [] := by
      cases ts with
      | nil => rfl
      | cons t ts => exact absurd (hsep t (by simp)) (hg.gap_alone hk t.piece rfl)
    refine ⟨some g, fun t ht => ?_, slots_gap_cons hk hne, rfl⟩
    obtain rfl : g = t := Option.some.inj ht
    exact ⟨hk, hg.gap hk⟩

end

/-- **Tokens that fit make slots of a line,** and the slots hold these tokens. -/
theorem slotLine_of_fits {row front : List Piece} {gap : Option Token} {ts : List Token} {e : Token}
    (he : e.kind = .eol) (h : FitsFrom row (front ++ gapPieces gap) (ts.map Token.piece))
    (hb : Between front gap ts) :
    SlotLine (startsWithAsterisk (pieceText row)) (noCell front) (slotsFrom gap (ts ++ [e])) ∧
      slotTokens (slotsFrom gap (ts ++ [e])) = gap.toList ++ (ts ++ [e]) := by
  induction ts generalizing front gap with
  | nil =>
    have hslots : slotsFrom gap ([] ++ [e]) = [⟨gap, e⟩] := by
      simp [slotsFrom, Token.isSeparator, he]
    rw [hslots]
    exact ⟨.ending hb.form he, by simp [Slot.tokens]⟩
  | cons t ts ih =>
    obtain ⟨hfit, hts⟩ := fitsFrom_cons.1 h
    by_cases hk : t.kind = .separator
    · obtain rfl := hb.gap_eq_none hk
      have hopen := hb.opened hk (by simpa [gapPieces] using h)
      have hslots : slotsFrom none (t :: ts ++ [e]) = slotsFrom (some t) (ts ++ [e]) := by
        simp [slotsFrom, Token.isSeparator, hk]
      rw [hslots]
      simpa using ih (by simpa [gapPieces] using hts) hopen
    · have hspaced := hb.spaced hk
      have hslots : slotsFrom gap (t :: ts ++ [e]) = ⟨gap, t⟩ :: slots (ts ++ [e]) := by
        simp [slotsFrom, Token.isSeparator, hk, slots]
      rw [hslots]
      rcases isCell_or_comment hk h with hc | hc
      · have hsep : ∀ u ∈ ts, u.kind = .separator := fun u hu =>
          hfit.comment_last hc u.piece (List.mem_map_of_mem hu)
        obtain ⟨gap', hgap', hrest, rfl⟩ := slots_behind_comment he hts hsep
        rw [hrest]
        refine ⟨.remark hspaced hc (hfit.comment hc) hfit.unbroken hgap' he, ?_⟩
        simp [Slot.tokens]
      · have hkind := hfit.cell_kind hc
        rw [← cellKind_eq_forcedKind, noCell_append_gap hb.form] at hkind
        have hstart : cellKind (startsWithAsterisk (pieceText row)) (noCell front)
            (front ++ gapPieces gap).isEmpty t.piece.2 =
              cellKind (startsWithAsterisk (pieceText row)) (noCell front) gap.isNone
                t.piece.2 := by
          cases hf : noCell front with
          | false => simp [cellKind]
          | true =>
            rw [hb.nil hf]
            cases gap <;> rfl
        have hbehind := Between.behind hc hfit
        obtain ⟨hline, htokens⟩ := ih (by simpa [gapPieces] using hts) hbehind
        rw [noCell_append_cell hc] at hline
        refine ⟨.cell hspaced (hkind.trans hstart) (hfit.cell hc) hfit.unbroken hline, ?_⟩
        rw [slotTokens_cons, slots, htokens]
        simp [Slot.tokens]

/-! ## Lines of slots are lines of tokens -/

section
variable {row front back : List Piece} {gap : Option Token} {t : Token}

/-- A gap fits in front of what does not start with one. -/
theorem fitsFrom_gap (hg : IsGapToken gap) (hback : FitsFrom row (front ++ gapPieces gap) back)
    (halone : ∀ q ∈ back.head?, q.1 ≠ .separator)
    (hwide : noCell front = false → back ≠ [] → ∃ g ∈ gap, isCellSeparator g.value = true) :
    FitsFrom row front (gapPieces gap ++ back) := by
  cases gap with
  | none => simpa [gapPieces] using hback
  | some g =>
    obtain ⟨hk, htext⟩ := hg g rfl
    refine fitsFrom_cons.2 ⟨fits_gap hk htext halone fun hcell hne => ?_, hback⟩
    obtain ⟨u, hu, hw⟩ := hwide hcell hne
    obtain rfl : g = u := Option.some.inj hu
    simpa [Token.piece] using hw

/-- A comment fits in front of a gap at the end of the line. -/
theorem fitsFrom_remark (hk : t.kind = .comment) (hc : IsCommentText t.value.toList)
    (hb : '\n' ∉ t.value.toList) (hg : IsGapToken gap) :
    FitsFrom row front (t.piece :: gapPieces gap) := by
  have hlast : ∀ q ∈ gapPieces gap, q.1 = .separator := by
    intro q hq
    obtain ⟨g, hmem, rfl⟩ := List.mem_map.1 hq
    exact (hg g (Option.mem_toList.1 hmem)).1
  refine fitsFrom_cons.2 ⟨fits_comment hk hc hb hlast, ?_⟩
  cases gap with
  | none => exact fitsFrom_nil _ _
  | some g =>
    obtain ⟨hk', htext⟩ := hg g rfl
    exact fitsFrom_cons.2 ⟨fits_gap hk' htext (by simp) (by simp), fitsFrom_nil _ _⟩

/-- Behind a cell comes a gap. -/
theorem Spaced.head_gap (h : Spaced false gap) (us : List Token) :
    ∀ u ∈ (gap.toList ++ us).head?, u.kind = .separator := by
  intro u hu
  obtain ⟨g, hg, -⟩ := h.wide rfl
  obtain rfl : gap = some g := hg
  obtain rfl : g = u := Option.some.inj hu
  exact (h.form g rfl).1

end

/-- **Slots of a line hold tokens that fit.** -/
theorem SlotLine.fits {row : List Piece} {first : Bool} {xs : List Slot}
    (h : SlotLine (startsWithAsterisk (pieceText row)) first xs) (front : List Piece)
    (hfirst : first = noCell front) (hnil : first = true → front = []) :
    ∃ ts e, slotTokens xs = ts ++ [e] ∧ e.kind = .eol ∧ FitsFrom row front (ts.map Token.piece) ∧
      (first = false → ∀ t ∈ ts.head?, t.kind = .separator) := by
  have hwide {gap : Option Token} (hs : Spaced first gap) (back : List Piece) :
      noCell front = false → back ≠ [] → ∃ g ∈ gap, isCellSeparator g.value = true :=
    fun hcell _ => hs.wide (hfirst.trans hcell)
  cases h with
  | @ending _ gap e hg he =>
    refine ⟨gap.toList, e, by simp [Slot.tokens], he, ?_, fun _ t ht => ?_⟩
    · have := fitsFrom_gap hg (fitsFrom_nil row (front ++ gapPieces gap)) (by simp) (by simp)
      simpa [gapPieces] using this
    · cases gap with
      | none => cases ht
      | some g =>
        obtain rfl : g = t := Option.some.inj ht
        exact (hg g rfl).1
  | @remark _ gap gap' c e hs hk hc hb hg' he =>
    refine ⟨gap.toList ++ c :: gap'.toList, e, by simp [Slot.tokens], he, ?_,
      fun hf => (hf ▸ hs).head_gap _⟩
    have halone : ∀ q ∈ (c.piece :: gapPieces gap').head?, q.1 ≠ .separator := by
      intro q hq
      obtain rfl : c.piece = q := Option.some.inj hq
      rw [show c.piece.1 = .comment from hk]
      simp
    have hremark : FitsFrom row (front ++ gapPieces gap) (c.piece :: gapPieces gap') :=
      fitsFrom_remark hk hc hb hg'
    have := fitsFrom_gap hs.form hremark halone (hwide hs _)
    simpa [gapPieces] using this
  | @cell _ gap t xs hs hk hc hb hrest =>
    have hcell : t.piece.1.isCell = true := by
      rw [show t.piece.1 = _ from hk]
      exact isCell_cellKind _
    have hnone : noCell (front ++ gapPieces gap ++ [t.piece]) = false := noCell_append_cell hcell
    obtain ⟨ts, e, htokens, he, hfits, hgap⟩ :=
      hrest.fits (front ++ gapPieces gap ++ [t.piece]) hnone.symm (by simp)
    refine ⟨gap.toList ++ t :: ts, e, by simp [Slot.tokens, htokens], he, ?_,
      fun hf => (hf ▸ hs).head_gap _⟩
    have hkind : t.piece.1 = forcedKind row (front ++ gapPieces gap) t.piece.2 := by
      rw [← cellKind_eq_forcedKind, noCell_append_gap hs.form, ← hfirst]
      refine Eq.trans hk ?_
      cases first with
      | false => simp [cellKind, Token.piece]
      | true =>
        rw [hnil rfl]
        cases gap <;> rfl
    have halone : ∀ q ∈ (ts.map Token.piece).head?, q.1 = .separator := by
      intro q hq
      rw [List.head?_map] at hq
      obtain ⟨u, hu, rfl⟩ := Option.map_eq_some_iff.1 hq
      exact hgap rfl u hu
    have hcellFits : FitsFrom row (front ++ gapPieces gap) (t.piece :: ts.map Token.piece) :=
      fitsFrom_cons.2 ⟨fits_cell hkind hcell hc hb halone, hfits⟩
    have hsep : ∀ q ∈ (t.piece :: ts.map Token.piece).head?, q.1 ≠ .separator := by
      intro q hq
      obtain rfl : t.piece = q := Option.some.inj hq
      intro hsep
      rw [hsep] at hcell
      cases hcell
    have := fitsFrom_gap hs.form hcellFits hsep (hwide hs _)
    simpa [gapPieces] using this

section
variable {line : List Token}

/-- A line starts with an asterisk if what stands in front of its ending does. -/
theorem startsWithAsterisk_append {row : List Piece} {ending : List Char}
    (h : LineEnding row ending) :
    startsWithAsterisk (pieceText row ++ ending) = startsWithAsterisk (pieceText row) := by
  cases hrow : pieceText row with
  | cons c cs => rfl
  | nil => cases h <;> rfl

/-- **A line of tokens is a line of slots.** -/
theorem slotLine_of_tokenLine (h : TokenLine (line.map Token.piece)) :
    SlotLine (startsWithAsterisk (chars line)) true (slots line) ∧
      slotTokens (slots line) = line := by
  generalize hps : line.map Token.piece = ps at h
  obtain @⟨row, ending, hfits, hend⟩ := h
  obtain ⟨ts, es, rfl, hts, hes⟩ := List.map_eq_append_iff.1 hps
  obtain ⟨e, rfl, he⟩ := List.map_eq_singleton_iff.1 hes
  have hkind : e.kind = .eol := congrArg Prod.fst he
  have hvalue : e.value.toList = ending := congrArg Prod.snd he
  have hchars : chars (ts ++ [e]) = pieceText row ++ ending := by
    rw [← hts, ← hvalue]
    simp [chars, pieceText, Token.piece, List.flatMap_map]
  rw [hchars, startsWithAsterisk_append hend]
  have hfrom : FitsFrom row ([] ++ gapPieces none) (ts.map Token.piece) := by
    rw [hts]
    exact fun mid p back hsplit => hfits mid p back hsplit
  refine slotLine_of_fits hkind hfrom ⟨by simp [IsGapToken], by simp, fun _ => rfl, ?_⟩
  intro hcell
  cases hcell

/-- A line ends with its line ending. -/
theorem SlotLine.exists_concat {star first : Bool} {xs : List Slot} (h : SlotLine star first xs) :
    ∃ ts e, slotTokens xs = ts ++ [e] ∧ e.kind = .eol := by
  induction h with
  | @ending _ gap e _ he => exact ⟨gap.toList, e, by simp [Slot.tokens], he⟩
  | @remark _ gap gap' c e _ _ _ _ _ he =>
    exact ⟨gap.toList ++ c :: gap'.toList, e, by simp [Slot.tokens], he⟩
  | @cell _ gap t xs _ _ _ _ _ ih =>
    obtain ⟨ts, e, htokens, he⟩ := ih
    exact ⟨gap.toList ++ t :: ts, e, by simp [Slot.tokens, htokens], he⟩

/-- **A line of slots is a line of tokens,** if its ending may stand there. -/
theorem SlotLine.tokenLine {xs : List Slot}
    (h : SlotLine (startsWithAsterisk (chars (slotTokens xs))) true xs)
    (hend : ∀ ts e, slotTokens xs = ts ++ [e] →
      LineEnding (ts.map Token.piece) e.value.toList) :
    TokenLine ((slotTokens xs).map Token.piece) := by
  obtain ⟨ts, e, htokens, -⟩ := h.exists_concat
  have hrow : pieceText (ts.map Token.piece) = chars ts := by
    simp [chars, pieceText, Token.piece, List.flatMap_map]
  have hending := hend ts e htokens
  have hstar : startsWithAsterisk (chars (slotTokens xs)) =
      startsWithAsterisk (pieceText (ts.map Token.piece)) := by
    rw [htokens, ← startsWithAsterisk_append hending, hrow]
    simp [chars]
  rw [hstar] at h
  obtain ⟨ts', e', htokens', he, hfits, -⟩ := h.fits [] rfl fun _ => rfl
  obtain ⟨rfl, rfl⟩ : ts = ts' ∧ e = e' := by
    rw [htokens] at htokens'
    exact ⟨(List.append_inj' htokens' rfl).1, by simpa using (List.append_inj' htokens' rfl).2⟩
  rw [htokens, List.map_append, List.map_singleton, show e.piece = (.eol, e.value.toList) by
    simp [Token.piece, he]]
  exact .mk (fun front p back hsplit => hfits front p back hsplit) hending

end

/-! ## Edits -/

/-- What becomes of a slot. -/
inductive Edit where
  | keep
  /-- The gap goes. -/
  | trim
  /-- The token and the gap in front of it go. -/
  | remove
  /-- The token is written in another way, which a rule of the given code asks for. -/
  | write (code value : String)

/-- What a slot becomes. -/
def Edit.apply (x : Slot) : Edit → Option Slot
  | .keep => some x
  | .trim => some { x with gap := none }
  | .remove => none
  | .write _ value => some { x with token := x.token.withValue value }

/-- A text that can be written for a cell of a line, which stays of the same kind. -/
structure Respells (t : Token) (value : String) : Prop where
  data : t.isData = true
  known : t.kind ≠ .unknown
  cell : IsCellText value.toList
  plain : ∀ c ∈ value.toList, ¬ IsControl c
  not_dots : value.toList ≠ ['.', '.', '.']
  star : value.toList.head? = some '*' ↔ t.kind = .sectionHeader

/-- What may become of a slot.  The first cell of a line does not go. -/
def Edit.Suits (first : Bool) (x : Slot) : Edit → Prop
  | .keep => True
  | .trim => x.token.kind = .eol
  | .remove => first = false ∧ x.token.isData = true
  | .write _ value => Respells x.token value

/-- Edits of the slots of a line from some place to its end. -/
def EditsLine (first : Bool) : List (Slot × Edit) → Prop
  | [] => True
  | d :: ds => d.2.Suits first d.1 ∧ EditsLine (first && !d.1.token.kind.isCell) ds

/-- The slots of some edits. -/
def oldSlots (ds : List (Slot × Edit)) : List Slot := ds.map (·.1)

/-- What slots become. -/
def mended (ds : List (Slot × Edit)) : List Slot := ds.filterMap fun d => d.2.apply d.1

@[simp] theorem mended_cons (d : Slot × Edit) (ds : List (Slot × Edit)) :
    mended (d :: ds) = (d.2.apply d.1).toList ++ mended ds := by
  unfold mended
  cases h : d.2.apply d.1 <;> simp [h]

/-- Two stretches are mended one after the other. -/
@[simp] theorem mended_append (ds es : List (Slot × Edit)) :
    mended (ds ++ es) = mended ds ++ mended es :=
  List.filterMap_append

section
variable {star first : Bool} {t : Token} {value : String}

/-- A respelled cell is of the kind of the old one. -/
theorem Respells.cellKind_eq (h : Respells t value) {atStart : Bool}
    (hk : t.kind = cellKind star first atStart t.value.toList) :
    t.kind = cellKind star first atStart value.toList := by
  have hplain : value.toList.any isControlChar = false := by
    rw [List.any_eq_false]
    exact fun c hc hcontrol => h.plain c hc (isControlChar_iff.1 hcontrol)
  simp only [cellKind] at hk
  by_cases hc : t.value.toList.any isControlChar = true
  · rw [if_pos hc] at hk
    exact absurd hk h.known
  rw [if_neg hc] at hk
  by_cases hs : (star && first) = true
  · rw [if_pos hs] at hk
    rw [hk, cellKind, if_neg (by simp [hplain]), if_pos hs]
  rw [if_neg hs] at hk
  by_cases hdots : (first && decide (t.value.toList = ['.', '.', '.'])) = true
  · rw [if_pos hdots] at hk
    exact absurd h.data (by simp [Token.isData_eq_false hk rfl])
  rw [if_neg hdots] at hk
  rw [cellKind, if_neg (by simp [hplain]), if_neg hs, if_neg (by simp [h.not_dots])]
  exact hk

/-- What is written for a cell stands for a cell. -/
theorem suits_cell {x : Slot} {e : Edit} (h : e.Suits first x) (hk : x.token.kind.isCell = true) :
    e = .keep ∨ (e = .remove ∧ first = false) ∨
      ∃ code value, e = .write code value ∧ Respells x.token value := by
  cases e with
  | keep => exact .inl rfl
  | trim =>
    rw [show x.token.kind = .eol from h] at hk
    cases hk
  | remove => exact .inr (.inl ⟨rfl, h.1⟩)
  | write code value => exact .inr (.inr ⟨code, value, rfl, h⟩)

/-- Comments are kept. -/
theorem suits_comment {x : Slot} {e : Edit} (h : e.Suits first x) (hk : x.token.kind = .comment) :
    e = .keep := by
  have hdata : x.token.isData = false := Token.isData_eq_false hk rfl
  cases e with
  | keep => rfl
  | trim =>
    rw [show x.token.kind = .eol from h] at hk
    cases hk
  | remove => simp [h.2] at hdata
  | write code value => simp [h.data] at hdata

/-- Line endings are kept or trimmed. -/
theorem suits_eol {x : Slot} {e : Edit} (h : e.Suits first x) (hk : x.token.kind = .eol) :
    e = .keep ∨ e = .trim := by
  have hdata : x.token.isData = false := Token.isData_eq_false hk rfl
  cases e with
  | keep => exact .inl rfl
  | trim => exact .inr rfl
  | remove => simp [h.2] at hdata
  | write code value => simp [h.data] at hdata

end

/-- The edits of a list of slots that starts with a given one. -/
theorem oldSlots_eq_cons {ds : List (Slot × Edit)} {x : Slot} {xs : List Slot}
    (h : oldSlots ds = x :: xs) : ∃ e es, ds = (x, e) :: es ∧ oldSlots es = xs := by
  obtain ⟨d, es, rfl, hd, hes⟩ := List.map_eq_cons_iff.1 h
  obtain ⟨y, e⟩ := d
  obtain rfl : y = x := hd
  exact ⟨e, es, rfl, hes⟩

/-- Only the gap at the end of a line goes. -/
theorem mended_ending {first : Bool} {gap : Option Token} {e : Token} {edit : Edit}
    (hg : IsGapToken gap) (he : e.kind = .eol) (h : edit.Suits first ⟨gap, e⟩) :
    ∃ gap', IsGapToken gap' ∧ mended [(⟨gap, e⟩, edit)] = [⟨gap', e⟩] := by
  rcases suits_eol h he with rfl | rfl
  · exact ⟨gap, hg, rfl⟩
  · exact ⟨none, by simp [IsGapToken], rfl⟩

/-- A respelled cell holds no line break. -/
theorem Respells.unbroken {t : Token} {value : String} (h : Respells t value) :
    '\n' ∉ value.toList ∧ '\r' ∉ value.toList :=
  ⟨fun hc => h.plain _ hc (by decide), fun hc => h.plain _ hc (by decide)⟩

/-- **A line whose slots are edited is a line.** -/
theorem SlotLine.mended {star first : Bool} {xs : List Slot} (h : SlotLine star first xs)
    {ds : List (Slot × Edit)} (hxs : oldSlots ds = xs) (hd : EditsLine first ds) :
    SlotLine star first (mended ds) := by
  induction h generalizing ds with
  | @ending first gap e hg he =>
    obtain ⟨edit, es, rfl, hes⟩ := oldSlots_eq_cons hxs
    obtain rfl : es = [] := List.map_eq_nil_iff.1 hes
    obtain ⟨gap', hg', hm⟩ := mended_ending hg he hd.1
    rw [hm]
    exact .ending hg' he
  | @remark first gap gap' c e hs hk hc hb hg' he =>
    obtain ⟨edit, es, rfl, hes⟩ := oldSlots_eq_cons hxs
    obtain ⟨edit', es, rfl, hnil⟩ := oldSlots_eq_cons hes
    obtain rfl : es = [] := List.map_eq_nil_iff.1 hnil
    obtain rfl := suits_comment hd.1 hk
    obtain ⟨gap'', hg'', hm⟩ := mended_ending hg' he hd.2.1
    rw [mended_cons, hm]
    exact .remark hs hk hc hb hg'' he
  | @cell first gap t xs hs hk hc hb _ ih =>
    obtain ⟨edit, es, rfl, hes⟩ := oldSlots_eq_cons hxs
    have hcell : t.kind.isCell = true := by
      rw [hk]
      exact isCell_cellKind _
    have hrest : SlotLine star false (RobotSuite.mended es) := by
      refine ih hes ?_
      have := hd.2
      rwa [hcell, Bool.not_true, Bool.and_false] at this
    rw [mended_cons]
    rcases suits_cell hd.1 hcell with rfl | ⟨rfl, rfl⟩ | ⟨code, value, rfl, hv⟩
    · exact .cell hs hk hc hb hrest
    · exact hrest
    · exact .cell hs (hv.cellKind_eq hk) hv.cell hv.unbroken.1 hrest

/-- A line starts with an asterisk when its first cell does, without a gap. -/
theorem startsWithAsterisk_slots {gap : Option Token} (hg : IsGapToken gap) {t : Token}
    (ht : t.value.toList ≠ []) (xs : List Slot) :
    startsWithAsterisk (chars (slotTokens (⟨gap, t⟩ :: xs))) =
      (gap.isNone && t.value.toList.head? == some '*') := by
  cases gap with
  | none =>
    obtain ⟨c, cs, hc⟩ := List.exists_cons_of_ne_nil ht
    simp [Slot.tokens, startsWithAsterisk, hc]
  | some g =>
    obtain ⟨-, hne, hall⟩ := hg g rfl
    obtain ⟨c, cs, hc⟩ := List.exists_cons_of_ne_nil hne
    have hstar : c ≠ '*' := by
      rintro rfl
      rcases hall '*' (by simp [hc]) with h | h <;> exact absurd h (by decide)
    simp [Slot.tokens, startsWithAsterisk, hc, hstar]

/-- Only the first cell of a line tells how the line starts. -/
theorem SlotLine.of_star {star star' first : Bool} {xs : List Slot} (h : SlotLine star first xs)
    (hs : ∀ x ∈ xs.head?, x.token.kind.isCell = true → star = star') :
    SlotLine star' first xs := by
  cases h with
  | ending hg he => exact .ending hg he
  | remark hgap hk hc hb hg he => exact .remark hgap hk hc hb hg he
  | @cell _ gap t xs hgap hk hc hb hrest =>
    obtain rfl := hs ⟨gap, t⟩ rfl (by rw [hk]; exact isCell_cellKind _)
    exact .cell hgap hk hc hb hrest

/-- The first slot of a line is a gap and a cell of the right kind. -/
theorem SlotLine.head {star first : Bool} {x : Slot} {xs : List Slot}
    (h : SlotLine star first (x :: xs)) (hx : x.token.kind.isCell = true) :
    IsGapToken x.gap ∧ x.token.value.toList ≠ [] ∧
      x.token.kind = cellKind star first x.gap.isNone x.token.value.toList := by
  cases h with
  | ending _ he => exact absurd hx (by simp [he, TokenKind.isCell])
  | remark _ hk _ _ _ _ => exact absurd hx (by simp [hk, TokenKind.isCell])
  | cell hs hk hc _ _ => exact ⟨hs.form, hc.ne_nil, hk⟩

/-- **A whole line whose slots are edited is a line,** and it starts with an asterisk if it did. -/
theorem SlotLine.mended_line {xs : List Slot}
    (h : SlotLine (startsWithAsterisk (chars (slotTokens xs))) true xs)
    {ds : List (Slot × Edit)} (hxs : oldSlots ds = xs) (hd : EditsLine true ds) :
    SlotLine (startsWithAsterisk (chars (slotTokens (RobotSuite.mended ds)))) true
      (RobotSuite.mended ds) := by
  refine (h.mended hxs hd).of_star fun x hx hcell => ?_
  cases ds with
  | nil => cases hx
  | cons d es =>
    obtain ⟨⟨gap, t⟩, e⟩ := d
    obtain rfl : ⟨gap, t⟩ :: oldSlots es = xs := hxs
    -- the first slot is there still, and it holds the first cell
    cases e with
    | keep =>
      obtain rfl : ⟨gap, t⟩ = x := Option.some.inj hx
      obtain ⟨hg, hne, -⟩ := h.head hcell
      exact (startsWithAsterisk_slots hg hne _).trans (startsWithAsterisk_slots hg hne _).symm
    | trim =>
      obtain rfl : ⟨none, t⟩ = x := Option.some.inj hx
      rw [show t.kind = .eol from hd.1] at hcell
      cases hcell
    | remove => exact absurd hd.1.1 (by simp)
    | write code value =>
      obtain rfl : ⟨gap, t.withValue value⟩ = x := Option.some.inj hx
      have hv : Respells t value := hd.1
      obtain ⟨hg, hne, hk⟩ := h.head hcell
      refine (startsWithAsterisk_slots hg hne _).trans (Eq.trans ?_
        (startsWithAsterisk_slots (t := t.withValue value) hg hv.cell.ne_nil _).symm)
      cases hgap : gap with
      | some g => rfl
      | none =>
        -- a cell in column one is a header exactly if it starts with an asterisk
        have hstar : t.kind = .sectionHeader ↔ t.value.toList.head? = some '*' := by
          have hknown := hv.known
          rw [startsWithAsterisk_slots hg hne, hgap] at hk
          rw [hk, cellKind] at hknown ⊢
          split at hknown
          · exact absurd rfl hknown
          · rename_i hc
            rw [if_neg hc]
            by_cases hs : t.value.toList.head? = some '*'
            · simp [hs]
            · simp only [hs, iff_false]
              simp [hs]
              split <;> simp
        rw [Bool.eq_iff_iff]
        simp [← hstar, ← hv.star, Token.withValue]

end RobotSuite
