/-
# Uniform line endings

Where all line breaks of a source are written in one way, passes write no others: after any
sequence of passes each line ending is the line break of the file, and only the last one may
be empty (`endings_uniform`).

A source holds the line breaks that its lines are cut at (`breaks_lines`), so the file takes
over the one that is used (`newline_of_uniform`).  Passes copy line endings, or put the line
break of the file (`Pass.keepsBreaks_all`).
-/

import RobotSuite.Proofs.Format.Run
import RobotSuite.Proofs.Tree.ValidSources

namespace RobotSuite

/-! ## Line breaks of a text -/

/-- The line breaks of a text, in order.  A carriage return alone is none. -/
def lineBreaks : List Char → List Newline
  | [] => []
  | '\n' :: rest => .lf :: lineBreaks rest
  | '\r' :: '\n' :: rest => .crlf :: lineBreaks rest
  | _ :: rest => lineBreaks rest

/-- The texts of the line breaks that some lines end with. -/
def breakTexts (lines : List (List Token)) : List String :=
  ((lines.filterMap fun line => line.getLast?.filter (·.isEol)).map (·.value)).filter (· ≠ "")

/-- The line break of the first line is in front of the others. -/
theorem breakTexts_cons {line : List Token} {lines : List (List Token)} {e : Token}
    (h : line.getLast?.filter (·.isEol) = some e) :
    breakTexts (line :: lines) = [e.value].filter (· ≠ "") ++ breakTexts lines := by
  have hcons : (line :: lines).filterMap (fun line => line.getLast?.filter (·.isEol)) =
      e :: lines.filterMap fun line => line.getLast?.filter (·.isEol) :=
    List.filterMap_cons_some h
  rw [breakTexts, hcons, List.map_cons, ← List.singleton_append, List.filter_append, breakTexts]

/-- Behind the line break of the first line stand those of the others. -/
theorem lineBreaks_cutLine (cs : List Char) : (lineBreaks cs).map Newline.text =
    [String.ofList (cutLine cs).2.1].filter (· ≠ "") ++
      (lineBreaks (cutLine cs).2.2).map Newline.text := by
  fun_induction cutLine cs with
  | case1 => simp [lineBreaks]
  | case2 rest => simp [lineBreaks, Newline.text]
  | case3 rest => simp [lineBreaks, Newline.text]
  | case4 c rest hn hcr line eol rest' h ih =>
    rw [h] at ih
    rw [lineBreaks, ih]
    · exact hn
    · exact hcr

/-- **Lines end with the line breaks of their text.** -/
theorem breaks_lines (c : Cursor) :
    breakTexts c.lines = (lineBreaks c.rest).map Newline.text := by
  fun_induction Cursor.lines c with
  | case1 c h =>
    rw [h]
    rfl
  | case2 c h ih =>
    have hline : c.nextLine.1.getLast?.filter (·.isEol) = some (Piece.token
        (c.location.advance (pieceText (linePieces (startsWithAsterisk (cutLine c.rest).1) true true
          (cutLine c.rest).1))) (.eol, (cutLine c.rest).2.1)) := by
      rw [Cursor.nextLine, nextPieces, layOut_append, layOut_cons, layOut, List.getLast?_concat]
      rfl
    rw [breakTexts_cons hline, ih, lineBreaks_cutLine c.rest]
    rfl

section
variable {source : String} {newline : Newline}

/-- The lines of a source end with its line breaks. -/
theorem breaks_tokenize (source : String) :
    breakTexts (tokenize source) = (lineBreaks source.toList).map Newline.text :=
  breaks_lines (.ofSource source)

/-- A source in which all line breaks are of one kind makes a file of that kind. -/
theorem newline_of_uniform (h : ∀ b ∈ lineBreaks source.toList, b = newline) :
    ∀ b ∈ lineBreaks source.toList, b = (parse source).newline := by
  intro b hb
  have hcount {v : String} (hv : v ≠ "") :
      ((tokenize source).filterMap fun line => line.getLast?.filter (·.isEol)).countP
        (fun t => t.value = v) = ((lineBreaks source.toList).map Newline.text).count v := by
    rw [← breaks_tokenize, breakTexts, List.count_filter (by simpa using hv), List.count,
      List.countP_map]
    exact List.countP_congr fun t _ => by simp
  have hreplicate : lineBreaks source.toList =
      List.replicate (lineBreaks source.toList).length newline :=
    List.eq_replicate_of_mem h
  have hpos := List.length_pos_of_mem hb
  show b = dominantNewline (tokenize source)
  rw [h b hb, dominantNewline, hcount (by decide), hcount (by decide), hreplicate,
    List.map_replicate, List.count_replicate, List.count_replicate]
  cases newline with
  | lf => simp [Newline.text]
  | crlf => rw [if_pos (by simpa [Newline.text] using hpos)]

/-- A line ending of a uniform source is an empty one, or the line break of the file. -/
theorem ending_of_uniform (h : ∀ b ∈ lineBreaks source.toList, b = newline) :
    ∀ t ∈ (tokenize source).flatten, t.kind = .eol →
      t.value = "" ∨ t.value = (parse source).newline.text := by
  intro t ht hk
  by_cases hv : t.value = ""
  · exact .inl hv
  right
  obtain ⟨line, hline, ht⟩ := List.mem_flatten.1 ht
  -- a line ending is the last token of its line
  have hlast : line.getLast? = some t := by
    refine (mem_dropLast_or_getLast? ht).resolve_left fun hfront => ?_
    have hwell := (wellFormed_lines (.ofSource source)).line _ (List.mem_map_of_mem hline)
    exact hwell.kind_ne_eol t.piece (List.map_dropLast ▸ List.mem_map_of_mem hfront) hk
  have hmem : t.value ∈ breakTexts (tokenize source) := by
    refine List.mem_filter.2 ⟨List.mem_map_of_mem (List.mem_filterMap.2 ⟨line, hline, ?_⟩),
      by simpa using hv⟩
    rw [hlast, Option.filter_some, Token.isEol, hk]
    rfl
  rw [breaks_tokenize] at hmem
  obtain ⟨b, hb, hv⟩ := List.mem_map.1 hmem
  rw [← hv, newline_of_uniform h b hb]

/-- The model of a uniform source stands apart, with the line break of the file at its ends. -/
theorem endsIn_parse (hp : (parse source).errors = [])
    (h : ∀ b ∈ lineBreaks source.toList, b = newline) :
    (parse source).EndsIn (· = (parse source).newline.text) := by
  obtain ⟨happart, hinner⟩ := separated_parse hp
  refine ⟨fun s hs => ⟨?_, fun t ht hk => ending_of_uniform h t ?_ hk⟩, happart,
    (parse_sections source).2⟩
  · obtain ⟨front, e, htokens, he⟩ := ((sound_parse hp).laid s hs).getLast?
    have hfront := hinner s hs
    rw [htokens, List.dropLast_concat] at hfront
    exact ⟨front, e, htokens, he.kind, hfront⟩
  · rw [← tokensOf_parseTokens (tokenize source)]
    exact List.mem_flatMap.2 ⟨s, hs, ht⟩

end

/-! ## Sequences of passes -/

section
variable {config : FormatConfig} {passes : List Pass} {f : File}

/-- The line break of a file stays the same. -/
theorem Pass.newline_apply (p : Pass) (setup : PassSetup) (f : File) :
    (p.apply setup f).tree.newline = f.newline := by
  rw [apply]
  cases p.plan setup f <;> rfl

/-- Passes leave the line break of a file. -/
theorem newline_runPasses (config : FormatConfig) (f : File) (passes : List Pass) :
    (runPasses config f passes).newline = f.newline := by
  induction passes generalizing f with
  | nil => rfl
  | cons p passes ih => exact (ih _).trans (p.newline_apply _ f)

/-- **Passes put no other line break than that of the file.** -/
theorem endsIn_runPasses (hc : config.IsValid) (hp : ∀ p ∈ passes, p ∈ Pass.all) (hs : f.IsSound)
    (hf : f.EndsIn (· = f.newline.text)) :
    (runPasses config f passes).EndsIn (· = f.newline.text) := by
  induction passes generalizing f with
  | nil => exact hf
  | cons p passes ih =>
    rw [List.forall_mem_cons] at hp
    have hv := PassSetup.isValid_of_config hc (config.paramsOf p.name) f
    have hsound := Pass.keepsSound_all p hp.1
    have hnew := (Pass.keepsBreaks_all p hp.1).endsIn_apply hsound hv (N := (· = f.newline.text))
      rfl hs hf
    have hnewline := p.newline_apply ⟨config, config.paramsOf p.name, f.newline.text⟩ f
    have hrest := ih hp.2 (hsound.apply hv hs)
    rw [hnewline] at hrest
    exact hrest hnew

/-- In a file whose statements stand apart only the last line ending can be empty. -/
theorem File.EndsIn.tokens {N : String → Prop} (h : f.EndsIn N) :
    (∀ t ∈ (tokensOf f.statements).dropLast, t.kind = .eol → N t.value) ∧
      ∀ t ∈ (tokensOf f.statements).getLast?, t.kind = .eol ∧ (t.value = "" ∨ N t.value) := by
  obtain ⟨hends, hapart, -⟩ := h
  generalize f.statements = ss at hends hapart
  rcases List.eq_nil_or_concat ss with rfl | ⟨front, last, rfl⟩
  · simp [tokensOf]
  rw [List.concat_eq_append] at hends hapart ⊢
  rw [separated, List.dropLast_concat] at hapart
  obtain ⟨us, e, hlast, he, hinner⟩ := (hends last (by simp)).concat
  have htokens : tokensOf (front ++ [last]) = tokensOf front ++ us ++ [e] := by
    rw [tokensOf, List.flatMap_append, List.flatMap_singleton, hlast, List.append_assoc]
    rfl
  rw [htokens, List.dropLast_concat, List.getLast?_concat]
  have hbreak {s : Statement} (hs : s ∈ front ++ [last]) {t : Token} (ht : t ∈ s.tokens)
      (hk : t.kind = .eol) (hv : t.value ≠ "") : N t.value :=
    ((hends s hs).breaks t ht hk).resolve_left hv
  refine ⟨fun t ht hk => ?_, fun t ht => ?_⟩
  · rcases List.mem_append.1 ht with ht | ht
    · obtain ⟨s, hs, ht⟩ := List.mem_flatMap.1 ht
      refine hbreak (List.mem_append_left _ hs) ht hk fun hv => ?_
      obtain ⟨vs, d, htoks, hd, hin⟩ := (hends s (List.mem_append_left _ hs)).concat
      rw [htoks, List.mem_append, List.mem_singleton] at ht
      rcases ht with ht | rfl
      · exact hin t ht hk hv
      · have hopen := hapart s hs
        rw [isUnterminated_concat htoks, Token.isEol, hk, hv] at hopen
        cases hopen
    · exact hbreak (by simp) (hlast ▸ List.mem_append_left _ ht) hk (hinner t ht hk)
  · obtain rfl := Option.some.inj ht
    exact ⟨he, (hends last (by simp)).breaks e (hlast ▸ by simp) he⟩

end

section
variable {source : String} {newline : Newline} {d : Document} {config : FormatConfig}
  {passes : List Pass}

/-- **Line endings stay uniform.**  Let a source be read without a defect and have line breaks of
one kind only.  Whatever passes run over it, and whatever the configuration says, after each of
them every line ending but the last is the line break of the file, which is that of the source,
and the last one is that or empty. -/
theorem endings_uniform (hp : (parse source).errors = [])
    (hu : ∀ b ∈ lineBreaks source.toList, b = newline) (hc : FormatConfig.read d = .ok config)
    (hpasses : ∀ p ∈ passes, p ∈ Pass.all) :
    (∀ b ∈ lineBreaks source.toList, b = (parse source).newline) ∧
      ∀ front, front <+: passes →
        let after := runPasses config (parse source) front
        after.newline = (parse source).newline ∧
          (∀ t ∈ (tokensOf after.statements).dropLast, t.kind = .eol →
            t.value = after.newline.text) ∧
          ∀ t ∈ (tokensOf after.statements).getLast?,
            t.kind = .eol ∧ (t.value = "" ∨ t.value = after.newline.text) := by
  refine ⟨newline_of_uniform hu, fun front hfront => ?_⟩
  have hends := endsIn_runPasses (FormatConfig.isValid_of_read hc)
    (fun p hmem => hpasses p (hfront.subset hmem)) (sound_parse hp) (endsIn_parse hp hu)
  have hnewline := newline_runPasses config (parse source) front
  dsimp only
  rw [hnewline]
  exact ⟨rfl, hends.tokens⟩

set_option maxRecDepth 100000 in
/-- In a source with carriage returns, whose last line has no line break, settings are put in
order, a setting is split, and sections are merged. -/
theorem endings_uniform_of_crlf :
    let source := "*** Settings ***\r\nForce Tags    aaaa    bbbb    cccc\r\n" ++
      "*** Settings ***    # more\r\nLibrary    X"
    let d := Document.mapping [("lineLength", .number 24)]
    let config := { FormatConfig.default with lineLength := 24 }
    let passes := [MergeSections.pass, OrderSettings.pass, Split.pass, EmptyLines.pass]
    let after := runPasses config (parse source) passes
    (parse source).errors = [] ∧ (∀ b ∈ lineBreaks source.toList, b = .crlf) ∧
      FormatConfig.read d = .ok config ∧ (∀ p ∈ passes, p ∈ Pass.all) ∧
      (∀ t ∈ (tokensOf after.statements).dropLast, t.kind = .eol → t.value = "\r\n") ∧
      after.render = "*** Settings ***\r\n# more\r\n\r\nLibrary    X\r\n\r\n" ++
        "Force Tags    aaaa\r\n...    bbbb    cccc\r\n" := by
  intro source d config passes after
  have hc : FormatConfig.read d = .ok config := eq_ok_of_toOption (by decide +kernel)
  have hpasses : ∀ p ∈ passes, p ∈ Pass.all := by simp [passes, Pass.all]
  obtain ⟨hp, hu, hnewline, htext⟩ : (parse source).errors = [] ∧
      (∀ b ∈ lineBreaks source.toList, b = .crlf) ∧ after.newline.text = "\r\n" ∧
      after.render = "*** Settings ***\r\n# more\r\n\r\nLibrary    X\r\n\r\n" ++
        "Force Tags    aaaa\r\n...    bbbb    cccc\r\n" := by
    decide +kernel
  exact ⟨hp, hu, hc, hpasses,
    hnewline ▸ ((endings_uniform hp hu hc hpasses).2 _ List.prefix_rfl).2.1, htext⟩

end

end RobotSuite
