/-
# Places of tokens

A source is read with a cursor that counts lines, columns and offsets as it goes.  None of
this counting is needed to say where a token stands: the text in front of an offset holds a
number of line feeds, and some code units behind the last of them (`Location.inSource`).
`Location.advance_origin` says that the cursor counts just that, so the tokens of a source
lie end to end, and each end point is the one of its offset (`tokens_placed`).

The end of a comment can be told without a cursor: it is its start, moved on by the length of
the comment, as is that of each token but a line ending, because no line feed stands in it
(`stop_eq_shift`).
-/

import RobotSuite.Proofs.Lint.TextChanges
import RobotSuite.Proofs.Token.Grammar
import RobotSuite.Proofs.Tree.JoinedSources
import RobotSuite.Proofs.Tree.ValidSources

namespace RobotSuite

open Text (units takeUnits takeEndWhile dropEndWhile)

/-! ## Places of offsets -/

/-- The text behind the last line feed. -/
def Text.lastLine (cs : List Char) : List Char := takeEndWhile (· != '\n') cs

/-- The place at an offset of a source.  The line counts the line feeds in front of it, the
column the code units since the last of them, or since the start. -/
def Location.inSource (source : String) (offset : Nat) : Location :=
  let front := takeUnits offset source.toList
  ⟨1 + front.count '\n', 1 + units (Text.lastLine front), offset⟩

/-- Text without a line feed moves a place along its line. -/
theorem Location.advance_of_noFeed (l : Location) {cs : List Char} (hfeed : '\n' ∉ cs) :
    l.advance cs = l.shift (units cs) := by
  induction cs generalizing l with
  | nil => simp [shift]
  | cons c cs ih =>
    have hc : '\n' ≠ c := List.ne_of_not_mem_cons hfeed
    have hcs : '\n' ∉ cs := List.not_mem_of_not_mem_cons hfeed
    rw [advance_cons, ih _ hcs, step, if_neg hc.symm]
    simp only [shift, Text.units_cons, Location.mk.injEq, true_and]
    omega

/-- Where a line starts the column is one. -/
theorem Location.advance_column_of_feed (cs : List Char)
    (hlast : ∀ c ∈ cs.getLast?, c = '\n') : (origin.advance cs).column = 1 := by
  obtain rfl | ⟨cs, c, rfl⟩ := List.eq_nil_or_concat cs
  · rfl
  · obtain rfl : c = '\n' := hlast c (by simp)
    rw [List.concat_eq_append, advance_append]
    rfl

/-- **The counting cursor.**  Behind a text it stands in the line of the line feeds of the
text, in the column of what follows the last of them, at the offset of its length. -/
theorem Location.advance_origin (cs : List Char) :
    origin.advance cs = ⟨1 + cs.count '\n', 1 + units (Text.lastLine cs), units cs⟩ := by
  have hsplit := Text.dropEndWhile_append_takeEndWhile (· != '\n') cs
  have hfeed : '\n' ∉ takeEndWhile (· != '\n') cs := by
    intro hmem
    simpa using List.all_eq_true.1 (Text.all_takeEndWhile (· != '\n') cs) _ hmem
  have hfront : (origin.advance (dropEndWhile (· != '\n') cs)).column = 1 :=
    advance_column_of_feed _ fun c hc => by
      simpa using Text.getLast?_dropEndWhile (· != '\n') cs c hc
  have hcolumn : (origin.advance cs).column = 1 + units (Text.lastLine cs) := by
    rw [← hsplit, advance_append, advance_of_noFeed _ hfeed, hsplit]
    show _ + _ = _
    rw [hfront]
    rfl
  obtain ⟨hline, hoffset⟩ := origin.advance_line cs
  rw [← hcolumn, ← Int.zero_add (units cs : Int)]
  exact congrArg₂ (fun line offset => Location.mk line _ offset) hline hoffset

/-- Behind a part of a source the cursor stands at the place of its length. -/
theorem Location.inSource_units {source : String} {front back : List Char}
    (h : source.toList = front ++ back) :
    inSource source (units front) = origin.advance front := by
  rw [inSource, h, Text.takeUnits_append, advance_origin]

/-! ## Places of pieces -/

/-- The `k`-th piece is laid out behind the texts in front of it. -/
theorem getElem?_layOut (l : Location) (ps : List Piece) (k : Nat) :
    (layOut l ps)[k]? = ps[k]?.map fun p => p.token (l.advance (pieceText (ps.take k))) := by
  induction ps generalizing l k with
  | nil => simp [layOut]
  | cons p ps ih =>
    rw [layOut_cons]
    cases k with
    | zero => rfl
    | succ k =>
      rw [List.getElem?_cons_succ, List.getElem?_cons_succ, ih, ← Location.advance_append]
      rfl

/-- Pieces are laid out end to end. -/
theorem starts_layOut (l : Location) (ps : List Piece) :
    (layOut l ps).map (·.span.start) ++ [l.advance (pieceText ps)] =
      l :: (layOut l ps).map (·.span.stop) := by
  induction ps generalizing l with
  | nil => rfl
  | cons p ps ih =>
    have htext : pieceText (p :: ps) = p.2 ++ pieceText ps := rfl
    rw [layOut_cons, List.map_cons, List.map_cons, List.cons_append, htext,
      Location.advance_append, ih]
    rfl

/-- The tokens of the lines of a source are their pieces, laid out. -/
theorem layOut_lines (c : Cursor) :
    layOut c.location (c.lines.flatten.map Token.piece) = c.lines.flatten := by
  fun_induction Cursor.lines c with
  | case1 c h => rfl
  | case2 c h ih =>
    rw [List.flatten_cons, List.map_append, layOut_append, Cursor.nextLine, map_piece_layOut]
    exact congrArg _ ih

/-! ## Places of tokens -/

/-- A token of a source spans what the cursor passes while it reads the text of the token. -/
theorem span_of_getElem? {source : String} {k : Nat} {t : Token}
    (hk : (tokenize source).flatten[k]? = some t) :
    let start := Location.origin.advance
      (pieceText (((tokenize source).flatten.take k).map Token.piece))
    t.span = ⟨start, start.advance t.value.toList⟩ := by
  have hlay : layOut .origin ((tokenize source).flatten.map Token.piece) =
      (tokenize source).flatten := layOut_lines (Cursor.ofSource source)
  have hget := getElem?_layOut .origin ((tokenize source).flatten.map Token.piece) k
  rw [hlay, hk, List.getElem?_map, hk, ← List.map_take] at hget
  exact congrArg Token.span (Option.some.inj hget)

/-- **Only line endings leave a line.**  Each other token of a source, so a comment too, ends its
own length behind its start, in the same line. -/
theorem stop_eq_shift {source : String} : ∀ t ∈ (tokenize source).flatten, t.kind ≠ .eol →
    t.span.stop = t.span.start.shift (Text.length t.value) := by
  intro t ht hk
  obtain ⟨line, hline, hmem⟩ := List.mem_flatten.1 ht
  obtain ⟨n, hn⟩ := List.getElem?_of_mem ht
  rw [span_of_getElem? hn]
  exact Location.advance_of_noFeed _ (noFeed_of_mem_tokenize hline t hmem hk)

/-- Code units of the text of some tokens. -/
def tokensLength : List Token → Nat
  | [] => 0
  | t :: ts => Text.length t.value + tokensLength ts

/-- The text of tokens is as long as they are together. -/
theorem units_pieceText (ts : List Token) :
    units (pieceText (ts.map Token.piece)) = tokensLength ts := by
  induction ts with
  | nil => rfl
  | cons t ts ih =>
    rw [List.map_cons, pieceText, List.flatMap_cons, Text.units_append, ← pieceText, ih]
    rfl

/-- **Tokens stand where their text stands.**  The tokens of a source hold its text, each
starts at the offset that is the length of those in front of it and ends its own length
further, at the places of these offsets, and they lie end to end from the start of the source
to its end. -/
theorem tokens_placed (source : String) :
    renderTokens (tokenize source).flatten = source ∧
      let toks := (tokenize source).flatten
      (∀ (k : Nat) (t : Token), toks[k]? = some t →
        t.span.start = .inSource source (tokensLength (toks.take k)) ∧
          t.span.stop =
            .inSource source (tokensLength (toks.take k) + Text.length t.value)) ∧
      toks.map (·.span.start) ++ [.inSource source (Text.length source)] =
        .inSource source 0 :: toks.map (·.span.stop) := by
  have hrender : (renderTokens (tokenize source).flatten).toList = source.toList :=
    toList_renderTokens_lines (Cursor.ofSource source)
  refine ⟨String.toList_inj.1 hrender, ?_⟩
  intro toks
  have htext : (renderTokens toks).toList = source.toList := hrender
  have hlay : layOut .origin (toks.map Token.piece) = toks :=
    layOut_lines (Cursor.ofSource source)
  have hsource : source.toList = pieceText (toks.map Token.piece) := by
    rw [← htext, ← toList_renderTokens_layOut .origin, hlay]
  refine ⟨fun k t hk => ?_, ?_⟩
  · -- the source is what stands in front of the token, the token, and the rest
    have hfront : source.toList = pieceText ((toks.take k).map Token.piece) ++
        (t.value.toList ++ pieceText ((toks.drop (k + 1)).map Token.piece)) := by
      have hcut : toks = toks.take k ++ t :: toks.drop (k + 1) := by
        obtain ⟨hlt, rfl⟩ := List.getElem?_eq_some_iff.1 hk
        rw [List.getElem_cons_drop, List.take_append_drop]
      rw [hsource]
      conv_lhs => rw [hcut]
      simp [pieceText, Token.piece]
    rw [span_of_getElem? hk, ← units_pieceText]
    refine ⟨(Location.inSource_units hfront).symm, ?_⟩
    rw [← Location.advance_append, Text.length, ← Text.units_append]
    exact (Location.inSource_units (hfront.trans (List.append_assoc _ _ _).symm)).symm
  · have hstart : Location.inSource source 0 = .origin :=
      @Location.inSource_units source [] source.toList rfl
    have hstop : Location.inSource source (Text.length source) =
        Location.origin.advance source.toList :=
      Location.inSource_units (List.append_nil _).symm
    rw [hstart, hstop, hsource]
    have hstarts := starts_layOut .origin (toks.map Token.piece)
    rwa [hlay] at hstarts

end RobotSuite
