/-
# Order, spelling and tags stay

The passes in front of the layout spell headers and settings in one way, unify tags, and merge and
order sections.  What they have done shows in the types of statements and in their data, so it shows
in each file with the same gists, and such a file is left as it is (`view_of_canonical_headers`,
`view_of_canonical_settings`, `view_of_unique_tags`, `MergeSections.tree_of_inOrder`).
-/

import RobotSuite.Proofs.Format.Layout.Idempotence
import RobotSuite.Proofs.Format.MergeSections
import RobotSuite.Proofs.Format.UniqueTags.Repetitions

namespace RobotSuite

/-! ## Statements with the same data -/

/-- Statements of one type with the same data. -/
structure Statement.Echoes (s r : Statement) : Prop where
  type : r.type = s.type
  data : dataTexts r.tokens = dataTexts s.tokens

/-- A property of statements that shows in their types and their data. -/
def TellsByData (Q : Statement → Prop) : Prop := ∀ {s r : Statement}, s.Echoes r → Q s → Q r

namespace Statement
variable {s r : Statement} {gaps : Bool}

/-- Statements with the same gist have the same data. -/
theorem echoes_of_gist (h : s.gist gaps = r.gist gaps) : s.Echoes r := by
  have htype : r.type = s.type := by rw [← gist_type gaps s, h, gist_type]
  refine ⟨htype, ?_⟩
  by_cases he : s.type = .emptyLine
  · rw [gist_of_emptyLine he, gist_of_emptyLine (htype.trans he)] at h
    have hdata := congrArg (fun s : Statement => dataTexts s.tokens) h
    exact ((dataTexts_showTokens gaps _).symm.trans hdata.symm).trans (dataTexts_showTokens gaps _)
  · exact dataTexts_of_gist h.symm he

/-- Statements with the same data have the same name. -/
theorem Echoes.nameText (h : s.Echoes r) : r.nameText = s.nameText := nameText_congr h.type h.data

/-- Statements with the same data have the same tags. -/
theorem Echoes.tags (h : s.Echoes r) :
    r.tagCells.map (·.value) = s.tagCells.map (·.value) := by
  have hholds : r.holdsTags = s.holdsTags := by
    rw [holdsTags, holdsTags, suiteSetting?, suiteSetting?, blockSetting?, blockSetting?, h.type,
      h.nameText]
  have hargs : r.args.map (·.value) = s.args.map (·.value) := by
    have hdata : r.data.map (·.value) = s.data.map (·.value) := h.data
    rw [args, args, List.map_tail, List.map_tail, List.map_drop, List.map_drop, hdata,
      length_assign_congr h.type h.data]
  rw [tagCells, tagCells, hholds]
  split
  · exact hargs
  · rfl

end Statement

section
variable {v : View} {f g : File}

/-- A statement of a file shows like one of each file that shows alike. -/
theorem File.exists_of_view (h : f.view v = g.view v) :
    ∀ r ∈ g.statements, ∃ s ∈ f.statements, ∃ kind, v kind s = v kind r := by
  intro r hr
  obtain ⟨t, ht, hr⟩ := List.mem_flatMap.1 hr
  have hsections : f.sections.map (Section.view v) = g.sections.map (Section.view v) :=
    congrArg File.sections h
  obtain ⟨u, hu, huv⟩ := List.mem_map.1 (hsections ▸ List.mem_map_of_mem ht)
  have hkind : (u.view v).kind = (t.view v).kind := by rw [huv]
  change u.kind = t.kind at hkind
  have hstatements : u.statements.map (v t.kind) = t.statements.map (v t.kind) := by
    have hmap := congrArg Section.statements huv
    rwa [Section.statements_view, Section.statements_view, hkind] at hmap
  obtain ⟨s, hs, hsv⟩ := List.mem_map.1 (hstatements ▸ List.mem_map_of_mem hr)
  exact ⟨s, List.mem_flatMap.2 ⟨u, hu, hs⟩, t.kind, hsv⟩

/-- Files that are seen alike are so where less shows. -/
theorem File.view_of_factors {w : View} (hw : ∀ kind, (w kind).FactorsThrough (v kind))
    (h : f.view v = g.view v) : f.view w = g.view w := by
  have : Nonempty Statement := ⟨.emptyLine ""⟩
  choose u hu using fun kind => (Function.factorsThrough_iff (w kind)).1 (hw kind)
  have hview (f : File) : f.view w = (f.view v).view u := by
    rw [File.view_view]
    exact congrArg (File.view · f) (funext hu)
  rw [hview f, h, hview]

/-- What data tells of the statements of a file, it tells in each file with the same gists. -/
theorem TellsByData.of_gists {Q : Statement → Prop} (hQ : TellsByData Q)
    {gaps : SectionKind → Bool} (h : f.view (gistView gaps) = g.view (gistView gaps))
    (hf : ∀ s ∈ f.statements, Q s) : ∀ s ∈ g.statements, Q s := by
  intro r hr
  obtain ⟨s, hs, kind, heq⟩ := File.exists_of_view h r hr
  exact hQ (Statement.echoes_of_gist heq) (hf s hs)

end

/-! ## Passes over single statements -/

namespace Pass

section
variable {info : PassInfo} {g : PassSetup → Scope → Statement → Option Statement}
  {setup : PassSetup} {f : File} {Q : Statement → Prop}

/-- A pass over single statements gives them a property if it gives it to each. -/
theorem forall_apply (hk : (ofStatements info fun setup sc s => .ofOption (g setup sc s)).KeepsSound)
    (hv : setup.IsValid) (hf : f.IsFair) (hs : f.IsSilent)
    (h : ∀ {kind sc s}, sc.section?.map (·.kind) = some kind → s.IsHeader kind ∨ s.IsSound kind →
      s.flaws = [] → Q ((Decision.ofOption (g setup sc s)).outcome s (replacementIssues s))) :
    ∀ s ∈ ((ofStatements info fun setup sc s => .ofOption (g setup sc s)).apply setup
      f).tree.statements, Q s := by
  let t := (asks info (g setup)).transform info.name
  have hsettles : t.Settles Scope.IsCalm (Statement.IsQuiet (Gaps.IsFit Statement.IsSound))
      (Statement.IsQuiet (Gaps.IsFit Statement.IsHeader)) fun _ _ => Q :=
    { start := by simp [Scope.IsCalm]
      enter := fun hc hh => hc.enter fun header hmem =>
        (hh header hmem).elim (·.silent) (·.silent)
      leave := fun hc => hc.leave
      note := fun hc hs => hc.note (hs.elim (·.silent) (·.silent))
      statement := fun {kind sc n s} hc hs _ => by
        have hcase : sc.section?.map (·.kind) = some kind ∧ (s.IsHeader kind ∨ s.IsSound kind) ∧
            s.flaws = [] ∧ s.directive? = none := by
          rcases hs with ⟨hshows, hs⟩ | ⟨hsect, -, hs⟩
          · exact ⟨hshows.sect, .inr hs.holds.1, hs.holds.2, hs.silent⟩
          · exact ⟨hsect, .inl hs.holds.1, hs.holds.2, hs.silent⟩
        obtain ⟨hsect, hholds, hflaws, hsilent⟩ := hcase
        have hasks : t.statement sc n s = .ofOption (g setup sc s) := by
          show Decision.ofOption (asks info (g setup) sc n s) = _
          rw [asks, hc.disables hsilent, if_neg Bool.false_ne_true]
        rw [hasks]
        exact h hsect hholds hflaws
      body := rfl
      sect := rfl
      file := rfl }
  have hbroken := ((asks info (g setup)).run_transform info.name f).2.2
  have hleveled := hsettles.run (Gaps.fit_sections hf hs) hbroken
  have hsound := hk.apply hv hf.sound
  rw [apply_ofStatements] at hsound ⊢
  intro s hs
  change s ∈ (t.run f).tree.statements at hs
  rw [← File.map_fst_meetings] at hs
  obtain ⟨m, hm, rfl⟩ := List.mem_map.1 hs
  obtain ⟨-, -, -, hQ⟩ := meetings_inside (A := fun _ _ _ => True) (Q := fun _ _ => Q)
    hsound.sections hleveled (fun _ _ _ _ _ _ _ => trivial) (fun _ _ => trivial) m hm
  exact hQ

/-- A pass over single statements keeps a property of these if it keeps it for each. -/
theorem forall_apply_of_keeps
    (h : ∀ {sc s new}, s ∈ f.statements → g setup sc s = some new → Q s → Q new)
    (hf : ∀ s ∈ f.statements, Q s) :
    ∀ s ∈ ((ofStatements info fun setup sc s => .ofOption (g setup sc s)).apply setup
      f).tree.statements, Q s := by
  rw [statements_ofStatements, List.forall_mem_map]
  intro m hm
  have hmem : m.1 ∈ f.statements := f.map_fst_meetings ▸ List.mem_map_of_mem hm
  rcases made_cases info (g setup) m with heq | ⟨-, hput⟩
  · exact heq ▸ hf m.1 hmem
  · exact h hmem hput (hf m.1 hmem)

/-- A pass over single statements that asks for nothing leaves a file as it is. -/
theorem view_apply_of_none {S H : SectionKind → Statement → Prop}
    (hf : ∀ s ∈ f.sections, s.Holds S H)
    (h : ∀ {kind sc s}, sc.section?.map (·.kind) = some kind → H kind s ∨ S kind s →
      g setup sc s = none) (v : View) :
    ((ofStatements info fun setup sc s => .ofOption (g setup sc s)).apply setup f).tree.view v =
      f.view v := by
  let t := (asks info (g setup)).transform info.name
  have hnone {kind : SectionKind} {sc : Scope} {n : Nat} {s new : Statement}
      (hput : t.statement sc n s = .put new) (hsect : sc.section?.map (·.kind) = some kind)
      (hs : H kind s ∨ S kind s) : False := by
    have hasks := Decision.ofOption_eq_put hput
    rw [asks, h hsect hs] at hasks
    split at hasks <;> cases hasks
  have hkeeps : t.KeepsView S H v :=
    { statement := fun hput hshows _ hs => (hnone hput hshows.sect (.inr hs)).elim
      header := fun hput hsect _ _ hs => (hnone hput hsect (.inl hs)).elim
      body := fun hput => by cases hput
      sect := fun hput => by cases hput
      seen := fun hput hsect hs =>
        (hnone hput hsect (hs.elim .inr fun hs => .inl hs.2)).elim
      bodySeen := fun hput => by cases hput
      noSection := rfl
      noFile := rfl }
  rw [apply_ofStatements]
  exact hkeeps.run hf

/-- A pass over single statements leaves what is seen of a file if it leaves what is seen of each. -/
theorem view_apply_of_keeps
    (hk : (ofStatements info fun setup sc s => .ofOption (g setup sc s)).KeepsSound)
    (hv : setup.IsValid) (hf : f.IsSound) {v : View}
    (h : ∀ {kind sc s new}, g setup sc s = some new → sc.section?.map (·.kind) = some kind →
      s.IsSound kind ∨ s.IsHeader kind → v kind new = v kind s) :
    ((ofStatements info fun setup sc s => .ofOption (g setup sc s)).apply setup f).tree.view v =
      f.view v := by
  let t : Transform :=
    { name := info.name
      statement := fun sc _ s =>
        if sc.disables info.name s then .keep else .ofOption (g setup sc s) }
  have hput {sc : Scope} {n : Nat} {s new : Statement} (hnew : t.statement sc n s = .put new) :
      g setup sc s = some new := by
    dsimp only [t] at hnew
    split at hnew
    · cases hnew
    · exact Decision.ofOption_eq_put hnew
  have hkeeps : t.KeepsView Statement.IsSound Statement.IsHeader v :=
    { toKeepsInside := (hk setup f t hv rfl).1.toKeepsInside
      seen := fun hnew hsect hs => h (hput hnew) hsect (hs.imp_right And.right)
      bodySeen := fun hnew => by cases hnew
      noSection := rfl
      noFile := rfl }
  exact hkeeps.run hf.sections

end

end Pass

/-! ## Names -/

namespace Spelling
variable {setup : PassSetup} {f : File} {kind : SectionKind} {s r : Statement} {v w : String}

/-- A name that is spelled as it should be is left. -/
theorem respell_eq_none {canonical : Option String} (h : ∀ v ∈ canonical, s.nameText = v) :
    respell canonical s = none := by
  unfold respell
  split
  · rename_i v name hname
    have heq := h v rfl
    rw [Statement.nameText, hname] at heq
    exact if_pos heq.symm
  · rfl

/-- Another name keeps what is no data. -/
theorem filter_rename {q : Token → Bool} (hq : ∀ t, t.isData = true → q t = false)
    (ts : List Token) : (rename v ts).filter q = ts.filter q := by
  induction ts with
  | nil => rfl
  | cons t ts ih =>
    rw [rename]
    split
    · rename_i hd
      have hd' : (t.withValue v).isData = true := hd
      rw [List.filter_cons_of_neg (by simp [hq _ hd']), List.filter_cons_of_neg (by simp [hq t hd])]
    · rw [List.filter_cons, List.filter_cons, ih]

/-- A statement without flaws has none under another name, unless its name is a marker. -/
theorem flaws_rename {header : Bool} (hl : Laid header (splitLines s.tokens))
    (hd : dataTexts s.tokens ≠ []) (hv : IsName header v) (hm : s.type.marker? = none)
    (hs : s.flaws = []) : (s.withTokens (rename v s.tokens)).flaws = [] := by
  have hcomments : commentTexts (rename v s.tokens) = commentTexts s.tokens :=
    congrArg (List.map _) (filter_rename (fun t ht => by
      revert ht
      rw [Token.isData, Token.isComment]
      cases t.kind <;> decide) s.tokens)
  have hends : eolTexts (rename v s.tokens) = eolTexts s.tokens :=
    congrArg (List.map _) (filter_rename (fun t ht => by
      revert ht
      rw [Token.isData, Token.isEol]
      cases t.kind <;> decide) s.tokens)
  exact Statement.flaws_withTokens hl (laid_rename hl hd hv).1 (absurd hm) hcomments
    (hends ▸ List.Sublist.refl _) hs

/-- A renamed statement has its new name. -/
theorem nameText_rename {header : Bool} (hl : Laid header (splitLines s.tokens))
    (hd : dataTexts s.tokens ≠ []) (ht : s.type ≠ .keywordCall) (hv : IsName header v) :
    (s.withTokens (rename v s.tokens)).nameText = v := by
  obtain ⟨c, rest, -, hdata⟩ := dataTokens_rename hl hd hv
  exact (nameText_congr rfl rfl).trans (nameText_create ht hdata)

/-- A statement that is respelled has its canonical name, if it has one. -/
theorem outcome_respell {header : Bool} {canonical : Option String}
    (hl : Laid header (splitLines s.tokens)) (hd : dataTexts s.tokens ≠ [])
    (ht : s.type ≠ .keywordCall) (hm : s.type.marker? = none)
    (hv : ∀ v ∈ canonical, IsName header v) (hs : s.flaws = []) :
    let new := (Decision.ofOption (respell canonical s)).outcome s (replacementIssues s)
    new.type = s.type ∧ ∀ v ∈ canonical, new.nameText = v := by
  intro new
  rcases Option.eq_none_or_eq_some (respell canonical s) with hrespell | ⟨put, hrespell⟩
  · have hnew : new = s := by
      show (Decision.ofOption (respell canonical s)).outcome s _ = s
      rw [hrespell]
      rfl
    rw [hnew]
    refine ⟨rfl, fun v hcanonical => ?_⟩
    obtain ⟨c, rest, hdata, -⟩ := dataTokens_rename hl hd (hv v hcanonical)
    have hname : s.name = some c := by
      rw [Statement.name, Statement.assign, if_neg ht, Statement.data, hdata]
      rfl
    obtain rfl : canonical = some v := hcanonical
    unfold respell at hrespell
    rw [hname] at hrespell
    dsimp only at hrespell
    split at hrespell
    · rename_i heq
      rw [Statement.nameText, hname]
      exact heq.symm
    · cases hrespell
  · obtain ⟨v, hcanonical, -, rfl⟩ := respell_eq_some hrespell
    have hname := hv v hcanonical
    have hnew : new = s.withTokens (rename v s.tokens) := by
      show (Decision.ofOption (respell canonical s)).outcome s _ = _
      rw [hrespell]
      exact Decision.outcome_put s _ rfl (flaws_rename hl hd hname hm hs)
    rw [hnew]
    refine ⟨rfl, fun w hw => ?_⟩
    obtain rfl : v = w := Option.some.inj (hcanonical.symm.trans hw)
    exact nameText_rename hl hd ht hname

/-- A canonical header of a section is its own canonical name. -/
theorem canonicalHeader?_again (h : canonicalHeader? kind w = some v) :
    canonicalHeader? kind v = some v := by
  rw [canonicalHeader?] at h
  split at h
  · rename_i hk
    rw [Bool.and_eq_true, decide_eq_true_eq] at hk
    obtain rfl := Option.some.inj h
    rw [hk.1]
    decide +kernel
  · cases kind with
    | inherited name =>
      cases h
      rfl
    | _ =>
      simp only [SectionKind.canonicalHeader?] at h
      cases h <;> decide +kernel

/-- The canonical name of a header is the same in each kind of section that it stands for. -/
theorem canonicalHeader?_of_opens {k l : SectionKind} (hk : Opens k w) (hl : Opens l w) :
    canonicalHeader? k w = canonicalHeader? l w := by
  obtain ⟨-, -, -, -, hmissing, -⟩ := canonicalNames_checked
  have hinherited {k : SectionKind} (h : k.isInherited = true) :
      canonicalHeader? k w = some SectionKind.missingHeader := by
    obtain ⟨name, rfl⟩ := SectionKind.isInherited_iff.1 h
    rfl
  rcases hk with hk | ⟨hk, hw⟩ <;> rcases hl with hl | ⟨hl, hw'⟩
  · rw [Option.some.inj (hk.symm.trans hl)]
  · rw [hw', hmissing] at hk
    cases hk
  · rw [hw, hmissing] at hl
    cases hl
  · rw [hinherited hk, hinherited hl]

/-- A setting is the same setting under its canonical name. -/
theorem settings_of_canonical (h : setting? s = some v) (ht : r.type = s.type)
    (hn : r.nameText = v) :
    r.suiteSetting? = s.suiteSetting? ∧ r.blockSetting? = s.blockSetting? := by
  obtain ⟨hsuite, hblock, -⟩ := canonicalNames_checked
  rw [setting?, Option.orElse_eq_some] at h
  rw [Statement.suiteSetting?, Statement.blockSetting?, ht, hn]
  rcases h with h | ⟨-, h⟩
  · obtain ⟨hv, hmem⟩ := Option.filter_eq_some_iff.1 h
    have hs : s.type = .setting := by
      by_contra hs
      rw [Statement.suiteSetting?, if_neg hs] at hv
      cases hv
    rw [hv, if_pos hs, if_neg (by simp [hs]), (hsuite v (by simpa using hmem)).2.2,
      Statement.blockSetting?, if_neg (by simp [hs])]
    exact ⟨rfl, rfl⟩
  · obtain ⟨n, hfilter, rfl⟩ := Option.map_eq_some_iff.1 h
    obtain ⟨hv, hmem⟩ := Option.filter_eq_some_iff.1 hfilter
    have hs : s.type = .blockSetting := by
      by_contra hs
      rw [Statement.blockSetting?, if_neg hs] at hv
      cases hv
    rw [hv, if_neg (by simp [hs]), if_pos hs, (hblock n (by simpa using hmem)).2.2.2,
      Statement.suiteSetting?, if_neg (by simp [hs])]
    exact ⟨rfl, rfl⟩

/-- The canonical names of settings are names. -/
theorem isName_setting? (h : setting? s = some v) : IsName false v := by
  rcases setting?_cases h with ⟨-, hmem⟩ | ⟨-, n, hmem, rfl⟩
  · exact (isName_suite v hmem).1
  · exact (isName_block n hmem).1

/-- A setting that is respelled is the same setting. -/
theorem settings_respelled (hs : s.IsSound kind) (h : setting? s = some v) :
    (s.withTokens (rename v s.tokens)).suiteSetting? = s.suiteSetting? ∧
      (s.withTokens (rename v s.tokens)).blockSetting? = s.blockSetting? := by
  have htype : s.type = .setting ∨ s.type = .blockSetting :=
    (setting?_cases h).imp And.left And.left
  exact settings_of_canonical h rfl (nameText_rename hs.laid (UniqueTags.dataTexts_ne_nil hs htype)
    (by rcases htype with ht | ht <;> simp [ht]) (isName_setting? h))

/-- A canonical name of a setting is its own canonical name. -/
theorem setting?_again (h : setting? s = some v) (ht : r.type = s.type) (hn : r.nameText = v)
    (hr : setting? r = some w) : v = w := by
  obtain ⟨hsuite, hblock⟩ := settings_of_canonical h ht hn
  rw [setting?, hsuite, hblock] at hr
  exact Option.some.inj (h.symm.trans hr)

/-- A header that is spelled as those of its section are, if there is a way to spell these. -/
def HasCanonicalHeader (s : Statement) : Prop :=
  s.type = .sectionHeader → ∀ kind, Opens kind s.nameText →
    ∀ v ∈ canonicalHeader? kind s.nameText, s.nameText = v

/-- A setting that is spelled as it should be, if it is known. -/
def HasCanonicalSetting (s : Statement) : Prop := ∀ v ∈ setting? s, s.nameText = v

/-- Whether a header is canonical shows in its data. -/
theorem tellsByData_header : TellsByData HasCanonicalHeader := by
  intro s r h hs ht
  rw [h.nameText]
  exact hs (h.type ▸ ht)

/-- Whether the name of a setting is canonical shows in its data. -/
theorem tellsByData_setting : TellsByData HasCanonicalSetting := by
  intro s r h hs v hv
  have hsame : setting? r = setting? s := by
    rw [setting?, setting?, Statement.suiteSetting?, Statement.suiteSetting?,
      Statement.blockSetting?, Statement.blockSetting?, h.type, h.nameText]
  rw [h.nameText]
  exact hs v (hsame ▸ hv)

/-- A header has a name. -/
theorem dataTexts_of_header (h : s.IsHeader kind) : dataTexts s.tokens ≠ [] := by
  intro hd
  have hdata : s.data = [] := List.map_eq_nil_iff.1 hd
  have hname : s.nameText = "" := by rw [Statement.nameText, Statement.name, hdata]; simp
  obtain ⟨-, -, -, -, -, hblank⟩ := canonicalNames_checked
  rcases hname ▸ h.opens with hopens | ⟨-, hmissing⟩
  · cases hblank.symm.trans hopens
  · exact absurd hmissing (by decide)

/-- **Behind the pass headers have their canonical names.** -/
theorem canonical_headers (hv : setup.IsValid) (hf : f.IsFair) (hs : f.IsSilent) :
    ∀ s ∈ (headerPass.apply setup f).tree.statements, HasCanonicalHeader s := by
  refine Pass.forall_apply keepsSound_headerPass hv hf hs fun {kind sc s} hsect hs hflaws => ?_
  rcases hs with hs | hs
  · obtain ⟨sect, hsect, rfl⟩ := Option.map_eq_some_iff.1 hsect
    have hheader : header? sc s = canonicalHeader? sect.kind s.nameText := by
      rw [header?, if_pos hs.type, ‹sc.section? = some sect›]
      rfl
    rw [hheader]
    have hnames : ∀ v ∈ canonicalHeader? sect.kind s.nameText, IsName true v := fun v hv =>
      (isName_header _ _ _ hv).1
    obtain ⟨-, hnew⟩ := outcome_respell hs.laid (dataTexts_of_header hs) (by simp [hs.type])
      (by rw [hs.type]; rfl) hnames hflaws
    intro _ kind hkind v hv
    rcases Option.eq_none_or_eq_some (canonicalHeader? sect.kind s.nameText) with
      hnone | ⟨w, hcanonical⟩
    · rw [hnone] at hkind hv
      cases (hnone.symm.trans (canonicalHeader?_of_opens hs.opens hkind)).trans hv
    · rw [hnew w hcanonical] at hkind hv ⊢
      have hsame := canonicalHeader?_of_opens (isName_header _ _ _ hcanonical).2 hkind
      exact Option.some.inj ((canonicalHeader?_again hcanonical).symm.trans (hsame.trans hv))
  · have hplain := hs.reads.type_ne.1
    rw [header?_eq_none hplain]
    exact fun ht => absurd ht hplain

/-- **Headers with their canonical names stay.** -/
theorem view_of_canonical_headers (hf : f.IsSound)
    (h : ∀ s ∈ f.statements, HasCanonicalHeader s) (v : View) :
    (headerPass.apply setup f).tree.view v = f.view v := by
  have hholds : ∀ s ∈ f.sections, s.Holds Statement.IsSound fun kind s =>
      s.IsHeader kind ∧ HasCanonicalHeader s := fun s hs =>
    (hf.sections s hs).imp (fun _ _ => id) fun r hr hheader =>
      ⟨hheader, h r (List.mem_flatMap.2 ⟨s, hs, hr⟩)⟩
  refine Pass.view_apply_of_none hholds (fun {kind sc s} hsect hs => ?_) v
  refine respell_eq_none fun v hv => ?_
  rcases hs with ⟨hheader, hcanonical⟩ | hsound
  · obtain ⟨sect, hsect, rfl⟩ := Option.map_eq_some_iff.1 hsect
    rw [header?, if_pos hheader.type, ‹sc.section? = some sect›] at hv
    exact hcanonical hheader.type _ hheader.opens v hv
  · rw [header?_eq_none hsound.reads.type_ne.1] at hv
    cases hv

/-- **Behind the pass settings have their canonical names.** -/
theorem canonical_settings (hv : setup.IsValid) (hf : f.IsFair) (hs : f.IsSilent) :
    ∀ s ∈ (settingPass.apply setup f).tree.statements, HasCanonicalSetting s := by
  refine Pass.forall_apply keepsSound_settingPass hv hf hs fun {kind sc s} _ hs hflaws => ?_
  rcases Option.eq_none_or_eq_some (setting? s) with hnone | ⟨v, hcanonical⟩
  · rw [hnone]
    intro v hv
    cases hnone.symm.trans hv
  · have htype : s.type = .setting ∨ s.type = .blockSetting :=
      (setting?_cases hcanonical).imp And.left And.left
    have hname : ∀ w ∈ setting? s, IsName false w := fun _ => isName_setting?
    rcases hs with hs | hs
    · rcases htype with ht | ht <;> cases hs.type.symm.trans ht
    · have hmarker : s.type.marker? = none := by rcases htype with ht | ht <;> rw [ht] <;> rfl
      obtain ⟨ht, hnew⟩ := outcome_respell hs.laid (UniqueTags.dataTexts_ne_nil hs htype)
        (by rcases htype with ht | ht <;> simp [ht]) hmarker hname hflaws
      intro w hw
      exact (hnew v hcanonical).trans (setting?_again hcanonical ht (hnew v hcanonical) hw)

/-- **Settings with their canonical names stay.** -/
theorem view_of_canonical_settings (hf : f.IsSound)
    (h : ∀ s ∈ f.statements, HasCanonicalSetting s) (v : View) :
    (settingPass.apply setup f).tree.view v = f.view v := by
  have hholds : ∀ s ∈ f.sections, s.Holds
      (fun kind s => s.IsSound kind ∧ HasCanonicalSetting s)
      fun kind s => s.IsHeader kind ∧ HasCanonicalSetting s := fun s hs =>
    (hf.sections s hs).imp (fun r hr hsound => ⟨hsound, h r (List.mem_flatMap.2 ⟨s, hs, hr⟩)⟩)
      fun r hr hheader => ⟨hheader, h r (List.mem_flatMap.2 ⟨s, hs, hr⟩)⟩
  exact Pass.view_apply_of_none hholds
    (fun _ hs => respell_eq_none (hs.elim And.right And.right)) v

/-- Settings are no headers. -/
theorem canonical_headers_settingPass (h : ∀ s ∈ f.statements, HasCanonicalHeader s) :
    ∀ s ∈ (settingPass.apply setup f).tree.statements, HasCanonicalHeader s := by
  refine Pass.forall_apply_of_keeps (fun _ hput _ ht => ?_) h
  obtain ⟨v, hcanonical, -, rfl⟩ := respell_eq_some hput
  rcases setting?_cases hcanonical with ⟨hs, -⟩ | ⟨hs, -⟩ <;> cases hs.symm.trans ht

end Spelling

/-! ## Tags -/

namespace UniqueTags
variable {setup : PassSetup} {f : File} {mode : TagCase} {s : Statement}

/-- A statement of which no tag occurs again. -/
def HasUniqueTags (s : Statement) : Prop := (s.tagCells.map TagRules.keyOf).Nodup

/-- Whether tags are unique shows in the data. -/
theorem tellsByData_tags : TellsByData HasUniqueTags := by
  intro s r h hs
  have hkeys : r.tagCells.map TagRules.keyOf = s.tagCells.map TagRules.keyOf := by
    have htags := congrArg (List.map Text.tagKey) h.tags
    rwa [List.map_map, List.map_map] at htags
  rwa [HasUniqueTags, hkeys]

/-- **Behind the pass no tag occurs again.** -/
theorem unique_tags (hv : setup.IsValid) (hf : f.IsFair) (hs : f.IsSilent) :
    ∀ s ∈ (pass.apply setup f).tree.statements, HasUniqueTags s := by
  refine Pass.forall_apply keepsSound_pass hv hf hs fun {kind sc s} _ hs hflaws => ?_
  have hunified : (Decision.ofOption (unify (caseOf setup) s)).outcome s (replacementIssues s) =
      unified (caseOf setup) s := by
    rcases hs with hs | hs
    · have hnone : unify (caseOf setup) s = none := by
        by_contra hput
        obtain ⟨new, hput⟩ := Option.ne_none_iff_exists'.1 hput
        rcases type_of_unify hput with ht | ht <;> cases hs.type.symm.trans ht
      rw [unified, hnone]
      rfl
    · exact outcome_unify hs hflaws
  show HasUniqueTags ((Decision.ofOption (unify (caseOf setup) s)).outcome s (replacementIssues s))
  rw [hunified]
  cases hholds : s.holdsTags with
  | false =>
    rw [unified_of_not_holdsTags hholds, HasUniqueTags, Statement.tagCells, hholds]
    exact List.nodup_nil
  | true =>
    rcases hs with hs | hs
    · rcases type_of_holdsTags hholds with ht | ht <;> cases hs.type.symm.trans ht
    · exact (isUnified (caseOf setup) hs hholds).nodup_keys

/-- Tags that do not occur again and are in their case stay. -/
theorem editTags_of_nodup {seen : List String} {ts : List Token}
    (hn : ((dataTokens ts).map TagRules.keyOf).Nodup)
    (hd : ∀ t ∈ dataTokens ts, TagRules.keyOf t ∉ seen)
    (hs : ∀ t ∈ dataTokens ts, mode.apply t.value = t.value) :
    editTags mode seen ts = ts.map fun t => (t, false) := by
  induction ts generalizing seen with
  | nil => rfl
  | cons t ts ih =>
    rw [dataTokens, List.filter_cons] at hn hd hs
    split at hn
    · rename_i hdata
      rw [if_pos hdata] at hd hs
      obtain ⟨hfirst, hrest⟩ := List.nodup_cons.1 hn
      obtain ⟨hseen, hd⟩ := List.forall_mem_cons.1 hd
      obtain ⟨hsame, hs⟩ := List.forall_mem_cons.1 hs
      have hkey : keyOf mode t = TagRules.keyOf t := congrArg Text.tagKey hsame
      rw [editTags_tag hdata, hkey, if_neg (by simpa using hseen), hsame]
      refine congrArg (List.cons (t, false)) (ih hrest (fun r hr => ?_) hs)
      rw [List.mem_cons, not_or]
      exact ⟨fun heq => hfirst (heq ▸ List.mem_map_of_mem hr), hd r hr⟩
    · rename_i hdata
      rw [if_neg hdata] at hd hs
      rw [editTags_plain (by simpa using hdata), ih hn hd hs]
      rfl

/-- A setting whose tags do not occur again and are in their case stays. -/
theorem editSetting_of_nodup {ts tags : List Token} {c : Token} (hc : dataTokens ts = c :: tags)
    (hn : (tags.map TagRules.keyOf).Nodup) (hs : ∀ t ∈ tags, mode.apply t.value = t.value) :
    editSetting mode ts = ts.map fun t => (t, false) := by
  induction ts with
  | nil => rfl
  | cons t ts ih =>
    rw [dataTokens, List.filter_cons] at hc
    rw [editSetting]
    split at hc
    · rename_i hdata
      obtain ⟨rfl, rfl⟩ := List.cons.inj hc
      rw [if_pos hdata, editTags_of_nodup hn (fun _ _ => List.not_mem_nil) hs]
      rfl
    · rename_i hdata
      rw [if_neg hdata, ih hc]
      rfl

/-- Unique tags that are in their case are left. -/
theorem unify_of_nodup (h : HasUniqueTags s)
    (hs : ∀ t ∈ s.tagCells, mode.apply t.value = t.value) : unify mode s = none := by
  rw [unify]
  split
  · rfl
  · rename_i hcells
    rw [List.isEmpty_iff] at hcells
    have hholds := holdsTags_of_tagCells hcells
    have hcall : s.type ≠ .keywordCall := by
      rcases type_of_holdsTags hholds with ht | ht <;> simp [ht]
    rw [HasUniqueTags, Statement.tagCells, if_pos hholds] at h
    rw [Statement.tagCells, if_pos hholds] at hcells hs
    obtain ⟨c, tags, hdata⟩ : ∃ c tags, dataTokens s.tokens = c :: tags := by
      refine List.exists_cons_of_ne_nil fun hnil => hcells ?_
      rw [Statement.args, Statement.data, hnil, List.drop_nil]
      rfl
    rw [(data_eq hcall hdata).2] at h hs
    have hedits := editSetting_of_nodup hdata h hs
    dsimp only
    rw [hedits, if_neg]
    simp [List.map_map, Function.comp_def]

/-- **Tags that do not occur again and are in their case stay.** -/
theorem view_of_unique_tags (hf : f.IsSound)
    (h : ∀ s ∈ f.statements, HasUniqueTags s)
    (hs : ∀ s ∈ f.statements, ∀ t ∈ s.tagCells, (caseOf setup).apply t.value = t.value) (v : View) :
    (pass.apply setup f).tree.view v = f.view v := by
  have hholds : ∀ t ∈ f.sections, t.Holds
      (fun _ s => HasUniqueTags s ∧ ∀ t ∈ s.tagCells, (caseOf setup).apply t.value = t.value)
      fun _ s => HasUniqueTags s ∧ ∀ t ∈ s.tagCells, (caseOf setup).apply t.value = t.value :=
    fun t ht => by
      have hmem {r : Statement} (hr : r ∈ t.statements) := List.mem_flatMap.2 ⟨t, ht, hr⟩
      exact (hf.sections t ht).imp (fun r hr _ => ⟨h r (hmem hr), hs r (hmem hr)⟩)
        fun r hr _ => ⟨h r (hmem hr), hs r (hmem hr)⟩
  refine Pass.view_apply_of_none hholds (fun {_ _ s} _ hs => ?_) v
  obtain ⟨hunique, hcase⟩ := hs.elim id id
  exact unify_of_nodup hunique hcase

/-- Tag settings are no headers. -/
theorem canonical_headers_pass (h : ∀ s ∈ f.statements, Spelling.HasCanonicalHeader s) :
    ∀ s ∈ (pass.apply setup f).tree.statements, Spelling.HasCanonicalHeader s := by
  refine Pass.forall_apply_of_keeps (fun {_ s new} _ hput _ ht => ?_) h
  have htype : new.type = s.type := by
    rw [unify] at hput
    split at hput
    · cases hput
    · dsimp only at hput
      split at hput
      · rw [← Option.some.inj hput]
        rfl
      · cases hput
  rcases type_of_unify hput with hs | hs <;> cases (htype.trans hs).symm.trans ht

/-- A setting whose tags are unified is the same setting. -/
theorem isUnified_of_unify {kind : SectionKind} {new : Statement} (hs : s.IsSound kind)
    (h : unify mode s = some new) : IsUnified mode s new ∧
      new.suiteSetting? = s.suiteSetting? ∧ new.blockSetting? = s.blockSetting? := by
  have hunified := isUnified mode hs (holdsTags_of_unify h)
  have hnew : unified mode s = new := congrArg (Option.getD · s) h
  rw [hnew] at hunified
  refine ⟨hunified, ?_, ?_⟩
  · rw [Statement.suiteSetting?, Statement.suiteSetting?, Statement.nameText, Statement.nameText,
      hunified.type, hunified.name]
  · rw [Statement.blockSetting?, Statement.blockSetting?, Statement.nameText, Statement.nameText,
      hunified.type, hunified.name]

/-- A setting keeps its name when its tags are unified. -/
theorem canonical_settings_pass (hf : f.IsSound)
    (h : ∀ s ∈ f.statements, Spelling.HasCanonicalSetting s) :
    ∀ s ∈ (pass.apply setup f).tree.statements, Spelling.HasCanonicalSetting s := by
  refine Pass.forall_apply_of_keeps (fun {_ s new} hmem hput hs v hv => ?_) h
  obtain ⟨kind, hheader | hsound⟩ := hf.statement_cases s hmem
  · rcases type_of_unify hput with ht | ht <;> cases hheader.type.symm.trans ht
  · obtain ⟨hunified, hsuite, hblock⟩ := isUnified_of_unify hsound hput
    have hname : new.nameText = s.nameText := by
      rw [Statement.nameText, Statement.nameText, hunified.name]
    rw [Spelling.setting?, hsuite, hblock] at hv
    rw [hname]
    exact hs v hv

end UniqueTags

/-! ## Empty lines -/

namespace EmptyLines

/-- **Empty lines come and go,** and with them nothing that data tells of statements. -/
theorem links_tellsByData {Q : Statement → Prop} (hQ : TellsByData Q)
    (hempty : ∀ s, s.type = .emptyLine → Q s) :
    pass.Links fun a b => (∀ s ∈ a, Q s) → ∀ s ∈ b, Q s := by
  have hlinear : IsLinear fun a b => (∀ s ∈ a, Q s) → ∀ s ∈ b, Q s :=
    { refl := fun _ => id
      trans := fun h h' => h' ∘ h
      append := fun h h' hab => by
        rw [List.forall_mem_append] at hab ⊢
        exact ⟨h hab.1, h' hab.2⟩ }
  -- what is no empty line was there before
  have hfilter {α : Type} {e : α → Bool} {statements : α → List Statement} {xs ys : List α}
      (h : ys.filterMap (fun i => if e i then none else some i) =
        xs.filterMap fun i => if e i then none else some i)
      (he : ∀ i, e i = true → ∀ s ∈ statements i, Q s)
      (hx : ∀ s ∈ xs.flatMap statements, Q s) : ∀ s ∈ ys.flatMap statements, Q s := by
    intro s hs
    obtain ⟨i, hi, hs⟩ := List.mem_flatMap.1 hs
    cases hei : e i with
    | true => exact he i hei s hs
    | false =>
      have hmem : i ∈ ys.filterMap fun i => if e i then none else some i :=
        List.mem_filterMap.2 ⟨i, hi, by simp [hei]⟩
      rw [h] at hmem
      obtain ⟨j, hj, hji⟩ := List.mem_filterMap.1 hmem
      split at hji
      · cases hji
      · obtain rfl := Option.some.inj hji
        exact hx s (List.mem_flatMap.2 ⟨j, hj, hs⟩)
  intro setup f hv hf hlead
  refine Pass.relates_apply hlinear (fun t hplan => ?_) hf hlead
  have hkeeps := (keepsSound_pass setup f t hv hplan).1
  obtain rfl := Except.ok.inj hplan
  refine
    { keeps := hkeeps
      linear := hlinear
      statement := fun {_ _ _ s _} hput _ _ hs => ?_
      body := fun {_ _ _ _ new} hput _ => ?_
      sect := fun {_ _ _ _ new} hput _ _ hl => ?_
      file := fun hput => by cases hput }
  · rw [List.forall_mem_singleton] at hs ⊢
    rw [statement_eq_put hput]
    exact hQ ⟨terminate_type _ s, (texts_terminate _ s).1⟩ hs
  · rw [bodyStatements_eq_flatMap, bodyStatements_eq_flatMap]
    refine hfilter (e := isEmptyItem)
      (filterMap_leaveBody (fun s hs => if_pos (decide_eq_true hs)) hput) fun i hi s hs => ?_
    cases i with
    | control c => cases hi
    | statement r =>
      obtain rfl := List.mem_singleton.1 hs
      exact hempty s (of_decide_eq_true hi)
  · refine hfilter (e := isEmptySectionItem)
      (filterMap_spaceSection (fun s hs => if_pos (decide_eq_true hs)) hput hl) fun i hi s hs => ?_
    cases i with
    | block b => cases hi
    | statement r =>
      obtain rfl := List.mem_singleton.1 hs
      exact hempty s (of_decide_eq_true hi)

end EmptyLines

/-! ## Sections -/

/-- The kinds of the sections with headers. -/
def File.headedKinds (f : File) : List SectionKind :=
  (f.sections.filter (·.header.isSome)).map (·.kind)

section
variable {f g : File}

/-- The kinds of sections with headers show. -/
theorem File.headedKinds_view (v : View) (f : File) : (f.view v).headedKinds = f.headedKinds := by
  rw [headedKinds, headedKinds, view, List.filter_map, List.map_map]
  refine congrArg (List.map _) (List.filter_congr fun s _ => ?_)
  exact Option.isSome_map

/-- A walk through sections keeps their kinds and headers. -/
theorem Transform.heads_onSections (t : Transform) (p : Progress) (ss : List Section) :
    (t.onSections p ss).1.map (fun s => (s.kind, s.header.isSome)) =
      ss.map fun s => (s.kind, s.header.isSome) := by
  have hsection (p : Progress) (s : Section) :
      ((t.onSection p s).1.kind, (t.onSection p s).1.header.isSome) =
        (s.kind, s.header.isSome) := by
    rw [Transform.onSection]
    refine congrArg (Prod.mk s.kind) ?_
    refine Progress.settle_of (P := fun h : Option Statement => h.isSome = s.header.isSome) _ rfl ?_
    cases s.header <;> rfl
  induction ss generalizing p with
  | nil => rfl
  | cons s ss ih =>
    rw [Transform.onSections, List.map_cons, List.map_cons, hsection, ih]

/-- A transform that does not move sections keeps their kinds. -/
theorem Transform.headedKinds_run {t : Transform} (h : t.leaveFile = fun _ _ => .keep) (f : File) :
    (t.run f).tree.headedKinds = f.headedKinds := by
  have hkinds (ss : List Section) : (ss.filter (·.header.isSome)).map (·.kind) =
      ((ss.map fun s => (s.kind, s.header.isSome)).filter (·.2)).map (·.1) := by
    rw [List.filter_map, List.map_map]
    rfl
  have hsections : (t.run f).tree.sections =
      (t.onSections (({} : Progress).enter (.file f)) f.sections).1 := by
    rw [Transform.run]
    dsimp only
    rw [Transform.onFileBody, h]
    split <;> rfl
  rw [File.headedKinds, File.headedKinds, hkinds, hkinds, hsections, t.heads_onSections]

end

namespace MergeSections
variable {setup : PassSetup} {f : File} {source : String}

/-- Whether the kinds of sections with headers differ, and are in order. -/
def InOrder (setup : PassSetup) (kinds : List SectionKind) : Prop :=
  kinds.Nodup ∧ kinds.Pairwise fun a b =>
    kindRank (setup.params.texts "order" SectionKind.recommendedOrder) a ≤
      kindRank (setup.params.texts "order" SectionKind.recommendedOrder) b

/-- **Sections of different kinds in order stay.** -/
theorem tree_of_inOrder (hh : ∀ s ∈ f.sections.tail, s.header ≠ none)
    (h : InOrder setup f.headedKinds) : (pass.apply setup f).tree = f :=
  tree_of_arranged (arrange_eq_none hh h.1 h.2)

/-- **Behind the pass sections are in order,** and no two are of one kind. -/
theorem inOrder_parse (hp : (parse source).errors = []) (hi : (parse source).issues = [])
    (hbare : ∀ s ∈ (parse source).sections, s.kind.isInherited = true →
      ∀ h ∈ s.header, commentTexts h.tokens = [])
    (hoff : (parse source).disablesInSections info.name = false)
    (hn : setup.newline = (parse source).newline.text) :
    InOrder setup (pass.apply setup (parse source)).tree.headedKinds := by
  obtain ⟨lead, others, -, hsections, harranged⟩ := exists_arranged hp hi hbare hoff hn
  have hkinds : (pass.apply setup (parse source)).tree.headedKinds = others.map (·.kind) := by
    rw [File.headedKinds, hsections, harranged.filter_header]
  rw [hkinds]
  exact ⟨harranged.kinds, harranged.sorted.imp fun hab =>
    hab.elim Nat.le_of_lt fun h => h.1.le⟩

end MergeSections

end RobotSuite
