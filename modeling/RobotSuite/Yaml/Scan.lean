/-
# Cutting a text into lexemes

A configuration file is written in YAML.  It is cut into lexemes: blanks, line breaks,
comments, marks, brackets and scalars, each with the indentation at which it stands and
the number of code units in front of it.

The text is read once from its start.  Outside brackets a line begins with its
indentation and perhaps with marks; inside brackets line breaks are layout.  A carriage
return ends a line only in front of a line feed; elsewhere it belongs to the plain scalar
in which it stands.  Anchors, tags, aliases, directives and block scalars have no place in
a configuration and are refused.

`flatMap_text_of_lexemes?` says that nothing of the text is lost.
-/

import RobotSuite.Text.Units

namespace RobotSuite
namespace Yaml

/-! ## Lexemes -/

/-- How a scalar is written. -/
inductive Style where
  | plain
  /-- Between single quotes. -/
  | single
  /-- Between double quotes. -/
  | double
deriving Repr, DecidableEq, Inhabited

/-- What a lexeme is. -/
inductive Kind where
  | space
  | lineBreak
  | comment
  | comma
  /-- A question mark in front of a key. -/
  | keyMark
  /-- A colon in front of a value. -/
  | valueMark
  /-- A dash in front of an item. -/
  | itemMark
  | opening (isMapping : Bool)
  | closing (isMapping : Bool)
  | scalar (style : Style)
  /-- The place where a document begins, without text. -/
  | document
  /-- Three dashes in front of a document. -/
  | documentStart
  /-- Three dots behind a document. -/
  | documentEnd
  | byteOrderMark
deriving Repr, DecidableEq, Inhabited

namespace Kind

/-- Blanks, line breaks and comments, which stand between the others. -/
def isLayout : Kind → Bool
  | space | lineBreak | comment => true
  | _ => false

/-- The mark that a character stands for. -/
def mark? : Char → Option Kind
  | '-' => some itemMark
  | '?' => some keyMark
  | ':' => some valueMark
  | _ => none

end Kind

/-- A piece of a configuration file. -/
structure Lexeme where
  kind : Kind
  text : List Char
  /-- Indentation of the line, as far as it is read. -/
  indent : Nat
  /-- Code units in front. -/
  offset : Nat
deriving Repr, DecidableEq, Inhabited

namespace Lexeme

/-- Whether a run of lexemes holds one of a kind. -/
def holds (kind : Kind) (run : List Lexeme) : Bool := run.any fun l => l.kind = kind

@[simp] theorem holds_nil (kind : Kind) : holds kind [] = false := rfl

@[simp] theorem holds_cons (kind : Kind) (l : Lexeme) (run : List Lexeme) :
    holds kind (l :: run) = (decide (l.kind = kind) || holds kind run) := rfl

end Lexeme

/-! ## Words and lines -/

/-- Whether nothing more of a word comes: the text ends, or white space is next. -/
def endsWord : List Char → Bool
  | [] => true
  | c :: _ => c = ' ' || c = '\t' || c = '\n' || c = '\r'

/-- Whether nothing more of a line comes. -/
def endsLine : List Char → Bool
  | [] | '\n' :: _ | '\r' :: '\n' :: _ => true
  | _ => false

/-- Characters up to the end of the line. -/
def lineLength : List Char → Nat
  | [] => 0
  | c :: rest => if endsLine (c :: rest) then 0 else 1 + lineLength rest

/-- A comma or a bracket. -/
def isFlowMark (c : Char) : Bool := c = ',' || c = '[' || c = ']' || c = '\x7b' || c = '\x7d'

/-- Whether a comma or a bracket is next. -/
def startsFlowMark : List Char → Bool
  | [] => false
  | c :: _ => isFlowMark c

/-- The mark of a document at the start of a line. -/
def documentMark? : List Char → Option Kind
  | '-' :: '-' :: '-' :: rest => if endsWord rest then some .documentStart else none
  | '.' :: '.' :: '.' :: rest => if endsWord rest then some .documentEnd else none
  | _ => none

/-- Whether a scalar goes on in the line that comes: it is empty or indented as far as
`margin`; without a margin, it is no mark of a document. -/
def continues (margin : Nat) (line : List Char) : Bool :=
  if margin = 0 then (documentMark? line).isNone
  else
    let rest := line.dropWhile (· = ' ')
    margin ≤ line.length - rest.length || (!rest.isEmpty && endsLine rest)

/-- Characters of a plain scalar, of which `seen` are passed and `kept` surely belong to
it.  It ends in front of a comment and of a colon that ends a word, in brackets also in
front of commas and brackets. -/
def plainLength (inFlow : Bool) (margin : Nat) (seen kept : Nat) : List Char → Nat
  | [] => kept
  | c :: rest =>
    if c = ':' then
      if endsWord rest || (inFlow && startsFlowMark rest) then kept
      else plainLength inFlow margin (seen + 1) (seen + 1) rest
    else if c = '\r' && rest.head? = some '\n' then plainLength inFlow margin (seen + 1) kept rest
    else if endsWord [c] then
      let kept := if c = '\r' then seen + 1 else kept
      if rest.head? = some '#' || (inFlow && startsFlowMark rest) then kept
      else if c = '\n' && !continues margin rest then kept
      else plainLength inFlow margin (seen + 1) kept rest
    else if inFlow && isFlowMark c then kept
    else plainLength inFlow margin (seen + 1) (seen + 1) rest

/-- Characters of a quoted scalar up to its closing quote, of which `seen` are passed; none
if it is not closed. -/
def quotedLength? (quote : Char) (seen : Nat) : List Char → Option Nat
  | [] => none
  | [c] => if c = quote then some (seen + 1) else none
  | c :: d :: rest =>
    if (quote = '\'' && c = quote && d = quote) ||
        (quote = '"' && c = '\\' && (d = '\\' || d = quote)) then
      quotedLength? quote (seen + 2) rest
    else if c = quote then some (seen + 1)
    else quotedLength? quote (seen + 1) (d :: rest)

/-- Those of `n` characters that stand in front of the first line that does not go on,
without the line break; `seen` are passed. -/
def steadyLength (margin seen : Nat) : Nat → List Char → Nat
  | 0, _ | _, [] => seen
  | n + 1, c :: rest =>
    let line := if c = '\r' && rest.head? = some '\n' then rest.tail else rest
    if (c = '\n' || (c = '\r' && rest.head? = some '\n')) && !continues margin line then seen
    else steadyLength margin (seen + 1) n rest

/-- A text of which a part is cut into lexemes. -/
structure Scan where
  /-- What is left of the text. -/
  rest : List Char
  /-- Code units in front of the rest. -/
  offset : Nat := 0
  /-- The lexemes so far, the latest first. -/
  found : List Lexeme := []
  /-- Whether the line has only blanks and marks so far. -/
  atLineStart : Bool := true
  /-- Indentation of the line, as far as it is read. -/
  indent : Nat := 0
  /-- Number of open brackets. -/
  depth : Nat := 0
  /-- Whether a colon next to the latest lexeme is a mark in any case. -/
  afterKey : Bool := false
  /-- Indentation of the line with its marks. -/
  base : Nat := 0
  /-- Indentation that a line needs to go on with a scalar or a bracket. -/
  margin : Nat := 0

namespace Scan

/-- The text of the lexemes and what is left. -/
def whole (s : Scan) : List Char := s.found.reverse.flatMap Lexeme.text ++ s.rest

/-- The whole is told by what was found and what is left. -/
theorem whole_congr {s t : Scan} (hf : s.found = t.found) (hr : s.rest = t.rest) :
    s.whole = t.whole := by simp [whole, hf, hr]

/-- Cut a lexeme of `n` characters off. -/
def push (s : Scan) (kind : Kind) (n : Nat) : Scan :=
  let text := s.rest.take n
  let s := { s with
    rest := s.rest.drop n
    offset := s.offset + Text.units text
    found := ⟨kind, text, s.indent, s.offset⟩ :: s.found }
  match kind with
  | .lineBreak => { s with atLineStart := true, indent := 0 }
  | .space =>
    if s.atLineStart && text.head? = some ' ' then { s with indent := s.indent + n } else s
  | .keyMark | .valueMark | .itemMark =>
    if s.atLineStart then { s with indent := s.indent + n } else s
  | .document => s
  | _ => { s with atLineStart := false }

/-- Cutting a lexeme off loses nothing. -/
theorem whole_push (s : Scan) (kind : Kind) (n : Nat) : (s.push kind n).whole = s.whole := by
  have h : ∀ t : Scan, t.found = ⟨kind, s.rest.take n, s.indent, s.offset⟩ :: s.found →
      t.rest = s.rest.drop n → t.whole = s.whole := by
    intro t hf hr
    simp [whole, hf, hr, List.flatMap_append]
  unfold push
  cases kind <;> dsimp only <;> (try split) <;> exact h _ rfl rfl

/-- Cut off the blanks that come next, with their number. -/
def skip (s : Scan) (isBlank : Char → Bool) : Nat × Scan :=
  let n := (s.rest.takeWhile isBlank).length
  (n, if n = 0 then s else s.push .space n)

/-- Skipping loses no text. -/
theorem whole_skip (s : Scan) (isBlank : Char → Bool) : (s.skip isBlank).2.whole = s.whole := by
  unfold skip; dsimp only; split
  · rfl
  · exact whole_push ..

/-- Cut off the spaces and tabs that come next. -/
def skipGap (s : Scan) : Scan := (s.skip Text.isGap).2

/-- Cut off the line break that comes next. -/
def lineBreak? (s : Scan) : Option Scan :=
  match s.rest with
  | '\n' :: _ => some (s.push .lineBreak 1)
  | '\r' :: '\n' :: _ => some (s.push .lineBreak 2)
  | _ => none

/-- A line break loses no text. -/
theorem whole_lineBreak? {s t : Scan} (h : s.lineBreak? = some t) : t.whole = s.whole := by
  unfold lineBreak? at h
  split at h
  · cases h; exact whole_push ..
  · cases h; exact whole_push ..
  · contradiction

/-- Cut off a comment, which goes up to the end of the line. -/
def comment (s : Scan) : Scan := s.push .comment (lineLength s.rest)

/-- Cut off a plain scalar. -/
def plain (s : Scan) : Scan :=
  s.push (.scalar .plain) (plainLength (0 < s.depth) s.margin 0 0 s.rest)

/-- Cut off a quoted scalar.  One that is not closed goes up to the end of the text, and
one that is closed ends in front of a line that does not go on. -/
def quoted (s : Scan) (quote : Char) (style : Style) : Scan :=
  s.push (.scalar style) <|
    match quotedLength? quote 1 s.rest.tail with
    | some n => steadyLength s.margin 0 n s.rest
    | none => s.rest.length

/-- The mark that comes next: one that ends a word, in brackets also one in front of a
comma or a bracket. -/
def mark? (s : Scan) : Option Kind :=
  match s.rest with
  | c :: rest =>
    if endsWord rest || (0 < s.depth && startsFlowMark rest) then Kind.mark? c else none
  | [] => none

/-- Whether a line in brackets, indented by `indent`, should not stand there.  The last
bracket may stand one column in front of the margin. -/
def isOutdented (s : Scan) (indent : Nat) : Bool :=
  let closes := match s.rest with
    | c :: _ => c = ']' || c = '\x7d'
    | [] => false
  ((indent < s.margin && s.rest.head? ≠ some '#') ||
      (indent = 0 && (documentMark? s.rest).isSome)) &&
    !(indent + 1 = s.margin && s.depth = 1 && closes)

/-- Where a scan stands. -/
inductive Mode where
  /-- Between documents. -/
  | stream
  /-- In front of a line of a document. -/
  | lineStart
  /-- Behind the indentation of a line. -/
  | blockStart
  /-- In a line, outside brackets. -/
  | document
  /-- Inside brackets; the indentation is known behind a line break. -/
  | flow (indent : Option Nat)

/-- Cut off the mark of the byte order. -/
def skipByteOrderMark (s : Scan) : Scan :=
  if s.rest.head?.any fun c => c.toNat = 0xFEFF then s.push .byteOrderMark 1 else s

/-- Skipping the byte order mark loses no text. -/
theorem whole_skipByteOrderMark (s : Scan) : s.skipByteOrderMark.whole = s.whole := by
  unfold skipByteOrderMark; split
  · exact whole_push ..
  · rfl

/-- A step in a line between documents, behind the mark of the byte order. -/
def stepBetween (s : Scan) : Option (Mode × Scan) :=
  let line := s.rest.dropWhile Text.isGap
  if s.rest.head? = some '%' then none
  else if line.head? = some '#' then some (.stream, s.skipGap.comment)
  else if endsLine line then some (.stream, s.skipGap.lineBreak?.getD s.skipGap)
  else some (.lineStart, s.push .document 0)

/-- A step between documents loses no text. -/
theorem whole_stepBetween {s t : Scan} {mode : Mode} (h : s.stepBetween = some (mode, t)) :
    t.whole = s.whole := by
  unfold stepBetween at h
  dsimp only at h
  split at h
  · contradiction
  split at h
  · cases h; exact (whole_push ..).trans (whole_skip ..)
  split at h
  · cases h
    cases hb : s.skipGap.lineBreak? with
    | none => exact whole_skip ..
    | some v => exact (whole_lineBreak? hb).trans (whole_skip ..)
  · cases h; exact whole_push ..

/-- A step between documents. -/
def stepStream (s : Scan) : Option (Mode × Scan) := s.skipByteOrderMark.stepBetween

/-- A step in front of a line. -/
def stepLineStart (s : Scan) : Mode × Scan :=
  match documentMark? s.rest with
  | some kind =>
    let s := { s.push kind 3 with base := 0, margin := 0 }
    (if kind = .documentStart then .document else .stream, s)
  | none =>
    let (n, s) := s.skip (· = ' ')
    let margin := if n < s.margin && !endsWord (s.rest.drop 1) then n else s.margin
    (.blockStart, { s with base := n, margin })

/-- A step at the start of a line loses no text. -/
theorem whole_stepLineStart (s : Scan) : (s.stepLineStart).2.whole = s.whole := by
  unfold stepLineStart
  split
  · exact (whole_congr rfl rfl).trans (whole_push ..)
  · exact (whole_congr rfl rfl).trans (whole_skip s (· = ' '))

/-- A step behind the indentation of a line. -/
def stepBlockStart (s : Scan) : Mode × Scan :=
  match s.mark? with
  | some kind =>
    let (n, s) := (s.push kind 1).skip Text.isGap
    (.blockStart, { s with base := s.base + 1 + n, margin := s.base + 1 })
  | none => (.document, s)

/-- A step at the start of a block loses no text. -/
theorem whole_stepBlockStart (s : Scan) : (s.stepBlockStart).2.whole = s.whole := by
  unfold stepBlockStart
  split
  · rename_i kind _
    exact (whole_congr rfl rfl).trans
      ((whole_skip (s.push kind 1) Text.isGap).trans (whole_push ..))
  · rfl

/-- The opening of a bracket. -/
def openFlow (s : Scan) (isMapping : Bool) : Mode × Scan :=
  (.flow none, { s.push (.opening isMapping) 1 with afterKey := false, depth := s.depth + 1 })

/-- A step in a line, outside brackets. -/
def stepDocument (s : Scan) : Option (Mode × Scan) :=
  let s := s.skipGap
  match s.lineBreak?, s.mark? with
  | some s, _ => some (.lineStart, s)
  | none, some kind => some (.document, { s.push kind 1 with margin := s.base + 1 })
  | none, none =>
    match s.rest with
    | [] => some (.document, s)
    | '#' :: _ => some (.document, s.comment)
    | '[' :: _ => some (s.openFlow false)
    | '\x7b' :: _ => some (s.openFlow true)
    | ']' :: _ => some (.document, s.push (.closing false) 1)
    | '\x7d' :: _ => some (.document, s.push (.closing true) 1)
    | '\'' :: _ => some (.document, s.quoted '\'' .single)
    | '"' :: _ => some (.document, s.quoted '"' .double)
    | '*' :: _ | '!' :: _ | '&' :: _ | '|' :: _ | '>' :: _ => none
    | _ => some (.document, s.plain)

/-- A step in a document loses no text. -/
theorem whole_stepDocument {s t : Scan} {mode : Mode} (h : s.stepDocument = some (mode, t)) :
    t.whole = s.whole := by
  unfold stepDocument openFlow at h
  dsimp only at h
  rw [← whole_skip s Text.isGap]
  change t.whole = s.skipGap.whole
  generalize s.skipGap = s at h ⊢
  split at h
  · rename_i hb; cases h; exact whole_lineBreak? hb
  · cases h; exact (whole_congr rfl rfl).trans (whole_push ..)
  · split at h <;> cases h <;> first | rfl | exact (whole_congr rfl rfl).trans (whole_push ..)

/-- The closing of a bracket. -/
def closeFlow (s : Scan) (isMapping : Bool) : Mode × Scan :=
  (if s.depth = 1 then .document else .flow none,
    { s.push (.closing isMapping) 1 with afterKey := true, depth := s.depth - 1 })

/-- A lexeme inside brackets, with the gap behind a comma or a mark.  Nothing between a
mark and a comma is an empty scalar. -/
def flowLexeme (s : Scan) : Option (Mode × Scan) :=
  match s.mark? with
  | some kind =>
    let s := { s.push kind 1 with afterKey := false }.skipGap
    some (.flow none, if s.rest.head? = some ',' then s.push (.scalar .plain) 0 else s)
  | none =>
    match s.rest with
    | ',' :: _ => some (.flow none, { s.push .comma 1 with afterKey := false }.skipGap)
    | '#' :: _ => some (.flow none, s.comment)
    | '[' :: _ => some (s.openFlow false)
    | '\x7b' :: _ => some (s.openFlow true)
    | ']' :: _ => some (s.closeFlow false)
    | '\x7d' :: _ => some (s.closeFlow true)
    | '\'' :: _ => some (.flow none, { s with afterKey := true }.quoted '\'' .single)
    | '"' :: _ => some (.flow none, { s with afterKey := true }.quoted '"' .double)
    | '*' :: _ | '!' :: _ | '&' :: _ => none
    | ':' :: _ =>
      some (.flow none,
        if s.afterKey then { s.push .valueMark 1 with afterKey := false }.skipGap else s.plain)
    | _ => some (.flow none, { s with afterKey := false }.plain)

/-- A lexeme of a flow collection loses no text. -/
theorem whole_flowLexeme {s t : Scan} {mode : Mode} (h : s.flowLexeme = some (mode, t)) :
    t.whole = s.whole := by
  have hskip : ∀ kind, Scan.whole (skipGap { s.push kind 1 with afterKey := false }) = s.whole :=
    fun kind => (whole_skip ..).trans ((whole_congr rfl rfl).trans (whole_push s kind 1))
  unfold flowLexeme openFlow closeFlow at h
  dsimp only at h
  split at h
  · rename_i kind _
    cases h
    split
    · exact (whole_push ..).trans (hskip kind)
    · exact hskip kind
  · split at h <;> simp only [Option.some.injEq, Prod.mk.injEq, reduceCtorEq] at h <;>
      (obtain ⟨_, rfl⟩ := h)
    case h_1 => exact hskip .comma
    case h_12 => split; exact hskip .valueMark; exact whole_push ..
    all_goals exact (whole_congr rfl rfl).trans (whole_push ..)

/-- A step inside brackets. -/
def stepFlow (indent : Option Nat) (s : Scan) : Option (Mode × Scan) :=
  match s.lineBreak?, s.skip Text.isGap with
  | some s, _ =>
    let (n, s) := s.skip (· = ' ')
    some (.flow (some n), { s.skipGap with base := n })
  | none, (_ + 1, s) => some (.flow indent, s)
  | none, (0, s) => if indent.any s.isOutdented then none else s.flowLexeme

/-- A step in a flow collection loses no text. -/
theorem whole_stepFlow {s t : Scan} {mode : Mode} {indent : Option Nat}
    (h : stepFlow indent s = some (mode, t)) : t.whole = s.whole := by
  unfold stepFlow at h
  split at h
  · rename_i hb
    obtain ⟨_, rfl⟩ := Prod.mk.inj (Option.some.inj h)
    exact (whole_congr rfl rfl).trans
      (((whole_skip ..).trans (whole_skip _ (· = ' '))).trans (whole_lineBreak? hb))
  · rename_i hs
    obtain ⟨_, rfl⟩ := Prod.mk.inj (Option.some.inj h)
    rw [← whole_skip s Text.isGap, hs]
  · rename_i hs
    split at h
    · contradiction
    · rw [whole_flowLexeme h, ← whole_skip s Text.isGap, hs]

/-- A step of a scan. -/
def step : Mode → Scan → Option (Mode × Scan)
  | .stream, s => s.stepStream
  | .lineStart, s => some s.stepLineStart
  | .blockStart, s => some s.stepBlockStart
  | .document, s => s.stepDocument
  | .flow indent, s => s.stepFlow indent

/-- No step loses text. -/
theorem whole_step {s t : Scan} {mode next : Mode} (h : step mode s = some (next, t)) :
    t.whole = s.whole := by
  cases mode with
  | stream => exact (whole_stepBetween h).trans (whole_skipByteOrderMark s)
  | lineStart => rw [← whole_stepLineStart s, Option.some.inj h]
  | blockStart => rw [← whole_stepBlockStart s, Option.some.inj h]
  | document => exact whole_stepDocument h
  | flow indent => exact whole_stepFlow h

/-- Scan up to the end of the text; `fuel` bounds the number of steps. -/
def run? : Nat → Mode → Scan → Option Scan
  | 0, _, _ => none
  | fuel + 1, mode, s =>
    if s.rest.isEmpty then some s
    else (s.step mode).bind fun (mode, s) => run? fuel mode s

/-- The lexemes of a run are the whole text. -/
theorem whole_run? {fuel : Nat} {mode : Mode} {s t : Scan} (h : run? fuel mode s = some t) :
    t.found.reverse.flatMap Lexeme.text = s.whole := by
  induction fuel generalizing mode s with
  | zero => contradiction
  | succ fuel ih =>
    unfold run? at h
    split at h
    · rename_i hr
      cases h
      simp [whole, List.isEmpty_iff.1 hr]
    · obtain ⟨⟨next, u⟩, hu, hrun⟩ := Option.bind_eq_some_iff.1 h
      rw [ih hrun, whole_step hu]

end Scan

/-- The lexemes of a text; none if it has what is refused.  At most four steps are made
for each character: in front of a line, behind its indentation, and two in it. -/
def lexemes? (source : String) : Option (List Lexeme) :=
  let cs := source.toList
  (Scan.run? (4 * cs.length + 4) .stream { rest := cs }).map fun s => s.found.reverse

/-- **Cutting loses nothing:** the texts of the lexemes make up the whole text. -/
theorem flatMap_text_of_lexemes? {source : String} {ls : List Lexeme}
    (h : lexemes? source = some ls) : ls.flatMap Lexeme.text = source.toList := by
  obtain ⟨t, ht, rfl⟩ := Option.map_eq_some_iff.1 h
  rw [Scan.whole_run? ht]
  simp [Scan.whole]

end Yaml
end RobotSuite
