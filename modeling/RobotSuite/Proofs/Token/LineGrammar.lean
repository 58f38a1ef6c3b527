/-
# The grammar of lines

A line is an indentation, cells with wide gaps between them, and perhaps a comment; a gap
may stand at its end.  `Line` says which tokens make a line, by the kind of its first cell.
Reading a line without control characters gives such tokens (`line_of_linePieces`), and the
text of such tokens is read as they are (`linePieces_of_line`).  So tokens that are laid out
by the grammar can be written and read back, wherever they come from.
-/

import RobotSuite.SectionName
import RobotSuite.Token.Lines

namespace RobotSuite

open Text (isGap dropEndWhile takeEndWhile)

/-- The characters of some tokens. -/
def chars (ts : List Token) : List Char := ts.flatMap (·.value.toList)

@[simp] theorem chars_nil : chars [] = [] := rfl

@[simp] theorem chars_cons (t : Token) (ts : List Token) :
    chars (t :: ts) = t.value.toList ++ chars ts := rfl

/-- The characters of two lists of tokens come one after the other. -/
@[simp] theorem chars_append (a b : List Token) : chars (a ++ b) = chars a ++ chars b := by
  simp [chars]

/-- The kind and text of a token. -/
def Token.piece (t : Token) : Piece := (t.kind, t.value.toList)

/-! ## Texts of gaps, cells and comments -/

/-- A text of spaces and tabs, which is not empty. -/
def IsGap (s : String) : Prop := s ≠ "" ∧ s.toList.all isGap = true

/-- A gap that keeps cells apart. -/
def IsWide (s : String) : Prop := s.toList.all isGap = true ∧ isCellSeparator s = true

/-- Whether a cell ends in front of a text. -/
def endsCell : List Char → Bool
  | [] => true
  | [c] => isGap c
  | c :: d :: _ => c = '\t' || (c = ' ' && isGap d)

/-- Whether no cell ends inside a text. -/
def isTight : List Char → Bool
  | [] => true
  | c :: cs => !endsCell (c :: cs) && isTight cs

/-- A text that can be a cell. -/
structure IsCell (s : String) : Prop where
  starts : ∃ c ∈ s.toList.head?, isGap c = false ∧ c ≠ '#'
  tight : isTight s.toList = true
  plain : s.toList.any isControlChar = false

/-- A text that can be a comment. -/
structure IsComment (s : String) : Prop where
  starts : s.toList.head? = some '#'
  ends : ∀ c ∈ s.toList.getLast?, isGap c = false

section
variable {c : Char} {cs rest : List Char}

/-- A cell goes on at a character that is no gap. -/
theorem endsCell_of_not_isGap (h : isGap c = false) : endsCell (c :: cs) = false := by
  obtain ⟨h1, h2⟩ : c ≠ ' ' ∧ c ≠ '\t' := by simpa [isGap] using h
  cases cs with
  | nil => exact h
  | cons d cs => simp [endsCell, h1, h2]

/-- A cell ends at a gap only. -/
theorem isGap_of_endsCell (h : endsCell (c :: cs) = true) : isGap c = true := by
  cases hc : isGap c with
  | true => rfl
  | false => rw [endsCell_of_not_isGap hc] at h; exact absurd h (by simp)

/-- What a cell does not end in front of, though it ends behind, is no gap. -/
theorem isGap_of_not_endsCell (h : endsCell (c :: cs) = false) (hcs : endsCell cs = true) :
    isGap c = false := by
  cases cs with
  | nil => exact h
  | cons d cs =>
    have hd := isGap_of_endsCell hcs
    rw [endsCell, hd, Bool.and_true] at h
    rw [isGap, Bool.or_comm]
    exact h

/-- A wide gap ends a cell, whatever follows. -/
theorem endsCell_of_isWide {s : String} (h : IsWide s) : endsCell (s.toList ++ rest) = true := by
  obtain ⟨hg, hw⟩ := h
  cases hs : s.toList with
  | nil =>
    simp [isCellSeparator, Text.length, hs] at hw
  | cons c cs =>
    rw [hs, List.all_cons, Bool.and_eq_true] at hg
    cases cs with
    | nil =>
      have hc : c = '\t' := by
        by_cases hc : c = '\t'
        · exact hc
        · have hsp : c = ' ' := by simpa [isGap, hc] using hg.1
          simp [isCellSeparator, Text.length, hs, hsp, Text.charUnits] at hw
      cases rest <;> simp [endsCell, hc, isGap]
    | cons d cs =>
      have hd : isGap d = true := by
        have := hg.2
        rw [List.all_cons, Bool.and_eq_true] at this
        exact this.1
      have hc := hg.1
      simp only [isGap, Bool.or_eq_true, decide_eq_true_eq] at hc
      rcases hc with rfl | rfl <;> simp [endsCell, hd]

/-- A cell ends where nothing but a gap is left. -/
theorem endsCell_of_all_isGap {g : List Char} (h : g.all isGap = true) :
    endsCell g = true := by
  match g with
  | [] => rfl
  | [c] => simpa [endsCell] using h
  | c :: d :: _ =>
    simp only [List.all_cons, Bool.and_eq_true] at h
    have hc := h.1
    simp only [isGap, Bool.or_eq_true, decide_eq_true_eq] at hc
    rcases hc with rfl | rfl <;> simp [endsCell, h.2.1]

/-- Gap characters that end a cell in front of other characters are a wide gap. -/
theorem isWide_of_endsCell {g : List Char} (hg : g.all isGap = true) (hne : g ≠ [])
    (hc : isGap c = false) (h : endsCell (g ++ c :: cs) = true) : IsWide (String.ofList g) := by
  refine ⟨by simpa using hg, ?_⟩
  match g with
  | [] => exact absurd rfl hne
  | [d] =>
    by_cases hd : d = '\t'
    · simp [isCellSeparator, hd]
    · simp [endsCell, hd, hc] at h
  | d :: e :: more =>
    have h1 := Text.charUnits_pos d
    have h2 := Text.charUnits_pos e
    have h3 : 2 ≤ Text.length (String.ofList (d :: e :: more)) := by
      simp [Text.length]
      omega
    rw [isCellSeparator, decide_eq_true h3, Bool.true_or]

/-- A wide separator is a gap. -/
theorem IsWide.isGap {s : String} (h : IsWide s) : IsGap s := by
  refine ⟨?_, h.1⟩
  rintro rfl
  have := h.2
  simp [isCellSeparator, Text.length] at this

/-! ## Cells are cut where they end -/

/-- Where a cell ends there is nothing to cut. -/
theorem cutCell_of_endsCell (h : endsCell cs = true) : cutCell cs = ([], cs) := by
  match cs with
  | [] => rfl
  | [c] => simpa [cutCell, endsCell] using h
  | c :: d :: _ => simp_all [cutCell, endsCell]

/-- Where a cell goes on the character is part of it. -/
theorem cutCell_of_not_endsCell (h : endsCell (c :: cs) = false) :
    cutCell (c :: cs) = (c :: (cutCell cs).1, (cutCell cs).2) := by
  cases cs with
  | nil => simpa [cutCell, endsCell] using h
  | cons d cs => simp_all [cutCell, endsCell]

/-- Behind a cell that is cut off the cell ends. -/
theorem endsCell_cutCell (cs : List Char) : endsCell (cutCell cs).2 = true := by
  induction cs with
  | nil => rfl
  | cons c cs ih =>
    cases h : endsCell (c :: cs) with
    | true => rwa [cutCell_of_endsCell h]
    | false => rwa [cutCell_of_not_endsCell h]

/-- A cell that is cut off holds single blanks only. -/
theorem isTight_cutCell (cs : List Char) : isTight (cutCell cs).1 = true := by
  induction cs with
  | nil => rfl
  | cons c cs ih =>
    cases h : endsCell (c :: cs) with
    | true => rw [cutCell_of_endsCell h]; rfl
    | false =>
      rw [cutCell_of_not_endsCell h]
      have hcut := cutCell_eq cs
      cases hcell : (cutCell cs).1 with
      | nil =>
        -- the character is the last of the cell, so it is no gap
        rw [hcell, List.nil_append] at hcut
        have hends := endsCell_cutCell cs
        rw [hcut] at hends
        have hc : isGap c = false := isGap_of_not_endsCell h hends
        simp [isTight, endsCell, hc]
      | cons d more =>
        rw [hcell] at ih hcut
        rw [isTight, ih, Bool.and_true, Bool.not_eq_true']
        rw [← hcut] at h
        simpa [endsCell] using h

/-- A tight text in front of what ends a cell is cut off as a cell. -/
theorem cutCell_append {cell : List Char} (ht : isTight cell = true)
    (hr : endsCell rest = true) : cutCell (cell ++ rest) = (cell, rest) := by
  induction cell with
  | nil => exact cutCell_of_endsCell hr
  | cons c cell ih =>
    rw [isTight, Bool.and_eq_true, Bool.not_eq_true'] at ht
    have hends : endsCell (c :: (cell ++ rest)) = false := by
      cases cell with
      | nil => exact endsCell_of_not_isGap ht.1
      | cons d cell => exact ht.1
    rw [List.cons_append, cutCell_of_not_endsCell hends, ih ht.2]

end

/-! ## Lines -/

/-- An indentation, if there is one. -/
inductive Indent : List Token → Prop
  | none : Indent []
  | gap {g : Token} : g.kind = .separator → IsGap g.value → Indent [g]

/-- A comment, and perhaps a gap behind it. -/
inductive Remark : List Token → Prop
  | plain {c : Token} : c.kind = .comment → IsComment c.value → Remark [c]
  | trailed {c g : Token} : c.kind = .comment → IsComment c.value → g.kind = .separator →
      IsGap g.value → Remark [c, g]

/-- What may stand behind a cell. -/
inductive Tail : List Token → Prop
  | nil : Tail []
  | gap {g : Token} : g.kind = .separator → IsGap g.value → Tail [g]
  | remark {g : Token} {ts : List Token} : g.kind = .separator → IsWide g.value → Remark ts →
      Tail (g :: ts)
  | cell {g c : Token} {ts : List Token} : g.kind = .separator → IsWide g.value →
      c.kind = .argument → IsCell c.value → Tail ts → Tail (g :: c :: ts)

/-- A text that starts with an asterisk, as headers do. -/
def IsStarred (s : String) : Prop := s.toList.head? = some '*'

instance (s : String) : Decidable (IsStarred s) := inferInstanceAs (Decidable (_ = _))

/-- The kind of the first cell of a line, which may start the line.  A missing header is one
although it is not starred. -/
inductive Lead (atStart : Bool) (s : String) : TokenKind → Prop
  | header : atStart = true → IsStarred s ∨ s = SectionKind.missingHeader →
      Lead atStart s .sectionHeader
  | continuation : s = "..." → Lead atStart s .continuation
  | name : atStart = true → s ≠ "..." → Lead atStart s .name
  | argument : atStart = false → s ≠ "..." → Lead atStart s .argument

/-- Tokens that make a line up to its ending, with the kind of its first cell. -/
inductive Line : Option TokenKind → List Token → Prop
  | blank {i : List Token} : Indent i → Line none i
  | remark {i r : List Token} : Indent i → Remark r → Line none (i ++ r)
  | cells {i ts : List Token} {c : Token} : Indent i → IsCell c.value →
      Lead i.isEmpty c.value c.kind → Tail ts → Line (some c.kind) (i ++ c :: ts)

/-! ## Lines are read as they are laid out -/

section
variable {header first atStart : Bool} {rest : List Char}

/-- A gap in front is read as a separator. -/
theorem linePieces_gap {s : String} (h : IsGap s) (hr : ∀ c ∈ rest.head?, isGap c = false) :
    linePieces header first atStart (s.toList ++ rest) =
      (.separator, s.toList) :: linePieces header first false rest := by
  obtain ⟨hne, hg⟩ := h
  have hall : ∀ c ∈ s.toList, isGap c = true := by simpa using hg
  have htake : (s.toList ++ rest).takeWhile isGap = s.toList := by
    rw [List.takeWhile_append_of_pos hall]
    cases rest with
    | nil => simp
    | cons c rest => simp [hr c rfl]
  have hdrop : (s.toList ++ rest).dropWhile isGap = rest := by
    rw [List.dropWhile_append_of_pos hall]
    cases rest with
    | nil => simp
    | cons c rest => simp [hr c rfl]
  cases hs : s.toList with
  | nil => exact absurd (by simpa using hs) hne
  | cons c cs =>
    have hc : isGap c = true := hall c (by simp [hs])
    rw [hs] at htake hdrop
    rw [List.cons_append] at htake hdrop ⊢
    rw [linePieces, dif_pos hc, htake, hdrop]

/-- A tight text that starts like a cell is read as one cell in front of what ends it. -/
theorem linePieces_tight {c : Char} {cell : List Char} (hg : isGap c = false) (hh : c ≠ '#')
    (ht : isTight (c :: cell) = true) (hr : endsCell rest = true) :
    linePieces header first atStart (c :: cell ++ rest) =
      (cellKind header first atStart (c :: cell), c :: cell) ::
        linePieces header false false rest := by
  have hcut := cutCell_append ht hr
  rw [List.cons_append] at hcut ⊢
  rw [linePieces, dif_neg (by simp [hg]), if_neg hh, hcut]

/-- A cell in front is read as a cell. -/
theorem linePieces_cell {s : String} (h : IsCell s) (hr : endsCell rest = true) :
    linePieces header first atStart (s.toList ++ rest) =
      (cellKind header first atStart s.toList, s.toList) :: linePieces header false false rest := by
  obtain ⟨c, hc, hgap, hhash⟩ := h.starts
  have htight := h.tight
  cases hs : s.toList with
  | nil => simp [hs] at hc
  | cons d cs =>
    obtain rfl : d = c := by simpa [hs] using hc
    rw [hs] at htight
    exact linePieces_tight hgap hhash htight hr

/-- A remark is read back as it is. -/
theorem linePieces_remark {ts : List Token} (h : Remark ts) :
    linePieces header first atStart (chars ts) = ts.map Token.piece := by
  have hpieces {c : Token} (hc : IsComment c.value) (gs : List Char) :
      linePieces header first atStart (c.value.toList ++ gs) =
        commentPieces (c.value.toList ++ gs) := by
    have hstart := hc.starts
    cases hs : c.value.toList with
    | nil => simp [hs] at hstart
    | cons d cs =>
      obtain rfl : d = '#' := by simpa [hs] using hstart
      rw [List.cons_append, linePieces, dif_neg (by decide), if_pos rfl]
  cases h with
  | plain hk hc =>
    obtain ⟨htake, hdrop⟩ := Text.endWhile_append hc.ends []
    rw [chars_cons, chars_nil, hpieces hc, commentPieces, htake, hdrop]
    simp [Token.piece, hk, takeEndWhile, dropEndWhile]
  | @trailed c g hk hc hg hgap =>
    obtain ⟨hne, hall⟩ := hgap
    obtain ⟨htake, hdrop⟩ := Text.endWhile_append hc.ends g.value.toList
    obtain ⟨htake', hdrop'⟩ := Text.endWhile_of_all hall
    rw [chars_cons, chars_cons, chars_nil, List.append_nil, hpieces hc, commentPieces, htake,
      hdrop, htake', hdrop']
    simp [Token.piece, hk, hg, hne]

/-- Every cell but the first is an argument. -/
theorem cellKind_rest {cs : List Char} (h : cs.any isControlChar = false) :
    cellKind header false atStart cs = .argument := by
  simp [cellKind, h]

/-- What follows the first cell ends it. -/
theorem Tail.endsCell {ts : List Token} (h : Tail ts) : RobotSuite.endsCell (chars ts) = true := by
  cases h with
  | nil => rfl
  | gap _ hg => simpa using endsCell_of_all_isGap hg.2
  | remark _ hw _ => exact endsCell_of_isWide hw
  | cell _ hw _ _ _ => exact endsCell_of_isWide hw

/-- A cell starts with no gap. -/
theorem IsCell.head? {s : String} (h : IsCell s) (rest : List Char) :
    ∀ c ∈ (s.toList ++ rest).head?, isGap c = false := by
  obtain ⟨c, hc, hgap, -⟩ := h.starts
  cases hs : s.toList with
  | nil => simp [hs] at hc
  | cons d cs =>
    obtain rfl : d = c := by simpa [hs] using hc
    simpa using hgap

/-- A remark starts with no gap. -/
theorem Remark.head? {ts : List Token} (h : Remark ts) :
    ∀ c ∈ (chars ts).head?, isGap c = false := by
  have hhead {s : String} (hs : IsComment s) (rest : List Char) :
      ∀ c ∈ (s.toList ++ rest).head?, isGap c = false := by
    intro c hc
    rw [List.head?_append, hs.starts] at hc
    obtain rfl : '#' = c := by simpa using hc
    decide
  cases h with
  | plain _ hc => exact hhead hc _
  | trailed _ hc _ _ => exact hhead hc _

/-- What follows the first cell is read back as it is. -/
theorem linePieces_tail {ts : List Token} (h : Tail ts) :
    linePieces header false atStart (chars ts) = ts.map Token.piece := by
  induction h generalizing atStart with
  | nil => simp [linePieces]
  | gap hk hg =>
    rw [chars_cons, chars_nil, linePieces_gap hg (by simp), linePieces]
    simp [Token.piece, hk]
  | remark hk hw hr =>
    rw [chars_cons, linePieces_gap hw.isGap hr.head?, linePieces_remark hr]
    simp [Token.piece, hk]
  | cell hk hw hck hc ht ih =>
    rw [chars_cons, chars_cons, linePieces_gap hw.isGap (hc.head? _),
      linePieces_cell hc ht.endsCell, cellKind_rest hc.plain, ih]
    simp [Token.piece, hk, hck]

/-- An indent is read back in front of the first cell. -/
theorem linePieces_indent {i : List Token} (h : Indent i)
    (hr : ∀ c ∈ rest.head?, isGap c = false) :
    linePieces header first true (chars i ++ rest) =
      i.map Token.piece ++ linePieces header first i.isEmpty rest := by
  cases h with
  | none => simp
  | gap hk hg =>
    rw [chars_cons, chars_nil, List.append_nil, linePieces_gap hg hr]
    simp [Token.piece, hk]

/-- The first cell is read as the kind it was written as. -/
theorem cellKind_lead {s : String} {k : TokenKind} (h : Lead atStart s k)
    (hp : s.toList.any isControlChar = false) :
    cellKind (some k == some .sectionHeader) true atStart s.toList = k := by
  have hdots : (s.toList = ['.', '.', '.']) ↔ s = "..." := by
    rw [← String.toList_inj]
    rfl
  cases h with
  | header ha hs => simp [cellKind, hp]
  | continuation hs => subst hs; cases atStart <;> rfl
  | name ha hs => simp [cellKind, hp, ha, hdots, hs]
  | argument ha hs => simp [cellKind, hp, ha, hdots, hs]

end

/-- **The text of a line is read as the line.** -/
theorem linePieces_of_line {k : Option TokenKind} {ts : List Token} (h : Line k ts) :
    linePieces (k == some .sectionHeader) true true (chars ts) = ts.map Token.piece := by
  cases h with
  | blank hi =>
    have : linePieces false true true (chars ts ++ []) = _ := linePieces_indent hi (by simp)
    simpa [linePieces] using this
  | remark hi hr =>
    rw [chars_append, linePieces_indent hi hr.head?, linePieces_remark hr, List.map_append]
  | cells hi hc hl ht =>
    rw [chars_append, chars_cons, linePieces_indent hi (hc.head? _),
      linePieces_cell hc ht.endsCell, linePieces_tail ht, cellKind_lead hl hc.plain]
    simp [Token.piece]

/-! ## What is read is laid out -/

/-- The token of a piece at a place. -/
def Piece.token (l : Location) (p : Piece) : Token :=
  ⟨p.1, String.ofList p.2, ⟨l, l.advance p.2⟩⟩

/-- The first piece is laid out at the place, the others behind it. -/
theorem layOut_cons (l : Location) (p : Piece) (ps : List Piece) :
    layOut l (p :: ps) = p.token l :: layOut (l.advance p.2) ps := rfl

/-- A gap taken off a text is a gap. -/
theorem isGap_takeWhile {c : Char} (cs : List Char) (h : isGap c = true) :
    IsGap (String.ofList ((c :: cs).takeWhile isGap)) := by
  refine ⟨?_, by simp⟩
  rw [List.takeWhile_cons_of_pos h]
  simp

/-- A cell that is cut off is a cell. -/
theorem isCell_cutCell {c : Char} {cs : List Char} (hg : isGap c = false) (hh : c ≠ '#')
    (hp : (cutCell (c :: cs)).1.any isControlChar = false) :
    IsCell (String.ofList (cutCell (c :: cs)).1) := by
  have hcut : cutCell (c :: cs) = _ := cutCell_of_not_endsCell (endsCell_of_not_isGap hg)
  refine ⟨⟨c, ?_, hg, hh⟩, by simpa using isTight_cutCell _, by simpa using hp⟩
  simp [hcut]

/-- What a hash starts is a remark. -/
theorem remark_commentPieces (l : Location) (cs : List Char) :
    Remark (layOut l (commentPieces ('#' :: cs))) := by
  have happ := Text.dropEndWhile_append_takeEndWhile isGap ('#' :: cs)
  have hc : IsComment (String.ofList (dropEndWhile isGap ('#' :: cs))) := by
    refine ⟨?_, by simpa using Text.getLast?_dropEndWhile _ _⟩
    cases hd : dropEndWhile isGap ('#' :: cs) with
    | nil =>
      -- the character in front is no gap, so it is not dropped
      rw [hd, List.nil_append] at happ
      have hall := Text.all_takeEndWhile isGap ('#' :: cs)
      rw [happ, List.all_cons] at hall
      simp [isGap] at hall
    | cons d ds =>
      rw [hd, List.cons_append] at happ
      simp [(List.cons.inj happ).1]
  unfold commentPieces
  by_cases ht : takeEndWhile isGap ('#' :: cs) = []
  · simp only [ht, List.isEmpty_nil, if_true]
    exact .plain rfl hc
  · have hg : IsGap (String.ofList (takeEndWhile isGap ('#' :: cs))) :=
      ⟨by simpa using ht, by simpa using Text.all_takeEndWhile isGap _⟩
    simp only [List.isEmpty_iff, ht, if_false]
    exact .trailed rfl hc rfl hg

/-- Behind a gap no gap follows. -/
theorem head?_dropWhile_isGap (cs : List Char) :
    ∀ c ∈ (cs.dropWhile isGap).head?, isGap c = false := by
  intro c hc
  have := List.head?_dropWhile_not isGap cs
  rw [Option.mem_def.1 hc] at this
  simpa using this

/-- What is read behind a cell may stand there. -/
theorem tail_linePieces (header atStart : Bool) (l : Location) (cs : List Char)
    (he : endsCell cs = true)
    (hu : ∀ p ∈ linePieces header false atStart cs, p.1 ≠ .unknown) :
    Tail (layOut l (linePieces header false atStart cs)) := by
  match cs with
  | [] =>
    rw [linePieces]
    exact .nil
  | c :: rest =>
    have hc := isGap_of_endsCell he
    have happ := List.takeWhile_append_dropWhile (p := isGap) (l := c :: rest)
    have hgap := isGap_takeWhile rest hc
    have hhead := head?_dropWhile_isGap (c :: rest)
    have hlen : ((c :: rest).dropWhile isGap).length ≤ rest.length := by
      rw [List.dropWhile_cons_of_pos hc]
      exact (List.dropWhile_suffix isGap).length_le
    rw [linePieces, dif_pos hc] at hu ⊢
    rw [layOut_cons]
    generalize (c :: rest).takeWhile isGap = g at happ hgap hu ⊢
    cases hd : (c :: rest).dropWhile isGap with
    | nil =>
      rw [linePieces]
      exact .gap rfl hgap
    | cons d more =>
      rw [hd] at happ hhead hu hlen
      have hdg := hhead d rfl
      have hne : g ≠ [] := by
        rintro rfl
        exact hgap.1 rfl
      have hw : IsWide (String.ofList g) :=
        isWide_of_endsCell (by simpa using hgap.2) hne hdg (by rwa [happ])
      rw [linePieces, dif_neg (by simp [hdg])] at hu ⊢
      by_cases hh : d = '#'
      · subst hh
        exact .remark rfl hw (remark_commentPieces _ _)
      · simp only [hh, if_false] at hu ⊢
        rw [layOut_cons]
        have hplain : (cutCell (d :: more)).1.any isControlChar = false := by
          have := hu _ (List.mem_cons_of_mem _ List.mem_cons_self)
          simpa [cellKind] using this
        have hcut := congrArg List.length (cutCell_eq (d :: more))
        have hpos : 0 < (cutCell (d :: more)).1.length := List.length_pos_iff.2 (cutCell_ne_nil hdg)
        refine .cell rfl hw (cellKind_rest hplain) (isCell_cutCell hdg hh hplain) ?_
        refine tail_linePieces header false _ _ (endsCell_cutCell _) fun p hp => ?_
        exact hu p (List.mem_cons_of_mem _ (List.mem_cons_of_mem _ hp))
termination_by cs.length
decreasing_by
  have hrest := congrArg List.length hd
  simp only [List.length_append, List.length_cons] at hcut hlen hrest ⊢
  omega

/-- What is read from a cell on, at the start of a line or behind its indentation. -/
theorem line_of_cell {header atStart : Bool} {i : List Token} {l : Location} {d : Char}
    {more : List Char} (hi : Indent i) (ha : atStart = i.isEmpty)
    (hs : header = true → atStart = true ∧ d = '*') (hg : isGap d = false) (hh : d ≠ '#')
    (hu : ∀ p ∈ linePieces header true atStart (d :: more), p.1 ≠ .unknown) :
    ∃ k, Line (some k) (i ++ layOut l (linePieces header true atStart (d :: more))) ∧
      (k = .sectionHeader ↔ header = true) := by
  subst ha
  rw [linePieces, dif_neg (by simp [hg]), if_neg hh] at hu ⊢
  rw [layOut_cons]
  have hplain : (cutCell (d :: more)).1.any isControlChar = false := by
    have hk := hu _ List.mem_cons_self
    have hsplit : ∀ b : Bool, (b = true → False) → b = false := by simp
    refine hsplit _ fun hb => hk ?_
    simp [cellKind, hb]
  have hcut : cutCell (d :: more) = _ := cutCell_of_not_endsCell (endsCell_of_not_isGap hg)
  have hcell := isCell_cutCell hg hh hplain
  have htail := tail_linePieces header false (l.advance (cutCell (d :: more)).1) _
    (endsCell_cutCell (d :: more)) fun p hp => hu p (List.mem_cons_of_mem _ hp)
  generalize hc : (cutCell (d :: more)).1 = cell at *
  have hhead : cell.head? = some d := by rw [← hc, hcut]; rfl
  have hdots : String.ofList cell = "..." ↔ cell = ['.', '.', '.'] := by
    rw [← String.toList_inj, String.toList_ofList]
    rfl
  refine ⟨_, .cells hi hcell ?_ htail, ?_⟩
  · simp only [Piece.token, cellKind, hplain, Bool.false_eq_true, if_false, Bool.and_true,
      Bool.true_and, decide_eq_true_eq]
    cases header with
    | true => exact .header (hs rfl).1 (.inl (by simpa [IsStarred, (hs rfl).2] using hhead))
    | false =>
      by_cases hd : cell = ['.', '.', '.']
      · simp only [hd, if_true]
        exact .continuation rfl
      · simp only [hd, if_false]
        cases he : i.isEmpty with
        | true => exact .name rfl fun h => hd (hdots.1 h)
        | false => exact .argument rfl fun h => hd (hdots.1 h)
  · simp only [Piece.token, cellKind, hplain]
    cases header with
    | true => simp
    | false =>
      by_cases hd : cell = ['.', '.', '.']
      · simp [hd]
      · cases i.isEmpty <;> simp [hd]

/-- **What is read as a line is a line**, unless it holds control characters. -/
theorem line_of_linePieces (l : Location) (cs : List Char)
    (hu : ∀ p ∈ linePieces (startsWithAsterisk cs) true true cs, p.1 ≠ .unknown) :
    ∃ k, Line k (layOut l (linePieces (startsWithAsterisk cs) true true cs)) ∧
      (k = some .sectionHeader ↔ startsWithAsterisk cs = true) := by
  cases cs with
  | nil =>
    rw [linePieces]
    exact ⟨none, .blank .none, by simp [startsWithAsterisk]⟩
  | cons c rest =>
    by_cases hc : isGap c = true
    · -- an indentation
      have hstar : startsWithAsterisk (c :: rest) = false := by
        have : c ≠ '*' := by
          rintro rfl
          exact absurd hc (by decide)
        simpa [startsWithAsterisk] using this
      have hhead := head?_dropWhile_isGap (c :: rest)
      have hgap := isGap_takeWhile rest hc
      rw [hstar, linePieces, dif_pos hc] at hu ⊢
      rw [layOut_cons]
      generalize (c :: rest).takeWhile isGap = g at hgap hu ⊢
      generalize (c :: rest).dropWhile isGap = cs at hhead hu ⊢
      have hi : Indent [Piece.token l (.separator, g)] := .gap rfl hgap
      cases cs with
      | nil =>
        rw [linePieces]
        exact ⟨none, .blank hi, by simp⟩
      | cons d more =>
        by_cases hh : d = '#'
        · subst hh
          rw [linePieces, dif_neg (by decide), if_pos rfl]
          exact ⟨none, .remark hi (remark_commentPieces _ _), by simp⟩
        · have hu' := fun p hp => hu p (List.mem_cons_of_mem _ hp)
          obtain ⟨k, hline, hk⟩ := line_of_cell (l := l.advance g) hi rfl (by simp)
            (hhead d rfl) hh hu'
          exact ⟨some k, hline, by simpa using hk⟩
    · by_cases hh : c = '#'
      · subst hh
        rw [linePieces, dif_neg (by decide), if_pos rfl]
        exact ⟨none, .remark .none (remark_commentPieces _ _), by simp [startsWithAsterisk]⟩
      · have hs : startsWithAsterisk (c :: rest) = true → true = true ∧ c = '*' := by
          simp [startsWithAsterisk]
        obtain ⟨k, hline, hk⟩ := line_of_cell (l := l) .none rfl hs (by simpa using hc) hh hu
        exact ⟨some k, hline, by simpa using hk⟩

end RobotSuite
