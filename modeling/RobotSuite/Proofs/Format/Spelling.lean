/-
# Canonical spelling keeps files sound and valid

The canonical names of headers and settings are cells that are read as the same headers and
settings.  So a statement whose name is written in another way is laid out as before, and is
read as a statement of the same type, with the same line ending.
-/

import RobotSuite.Format.Spelling
import RobotSuite.Proofs.Statement.NewTokens
import RobotSuite.Proofs.Transform.LineEnds

namespace RobotSuite

/-! ## Names -/

/-- Whether a text can be a cell is decided by looking at its characters. -/
instance (s : String) : Decidable (IsCell s) :=
  decidable_of_iff
    ((s.toList.head?.any fun c => !Text.isGap c && c != '#') = true ∧ isTight s.toList = true ∧
      s.toList.any isControlChar = false)
    ⟨fun ⟨hs, ht, hp⟩ => ⟨by simpa [Option.any_eq_true] using hs, ht, hp⟩,
      fun ⟨hs, ht, hp⟩ => ⟨by simpa [Option.any_eq_true] using hs, ht, hp⟩⟩

/-- A text that can be the first cell of a header, or of another statement. -/
structure IsName (header : Bool) (s : String) : Prop where
  cell : IsCell s
  lead : if header then IsStarred s ∨ s = SectionKind.missingHeader else s ≠ "..."

/-- A first cell stays one under a canonical name. -/
theorem Lead.rename {atStart : Bool} {s v : String} {k : TokenKind} (h : Lead atStart s k)
    (hk : k ≠ .continuation) (hv : IsName (k == .sectionHeader) v) : Lead atStart v k := by
  have hlead := hv.lead
  cases h with
  | header ha _ => exact .header ha hlead
  | continuation _ => exact absurd rfl hk
  | name ha _ => exact .name ha hlead
  | argument ha _ => exact .argument ha hlead

namespace Spelling

section
variable {v : String}

/-- The name stands behind what holds no data. -/
theorem rename_append {i : List Token} (hi : ∀ t ∈ i, t.isData = false) (ts : List Token) :
    rename v (i ++ ts) = i ++ rename v ts := by
  induction i with
  | nil => rfl
  | cons t i ih =>
    have ht := hi t List.mem_cons_self
    rw [List.cons_append, rename, if_neg (by simp [ht]), ih fun r hr => hi r
      (List.mem_cons_of_mem _ hr)]
    rfl

/-- The first cell with data is the name. -/
theorem rename_cons {c : Token} (hc : c.isData = true) (ts : List Token) :
    rename v (c :: ts) = c.withValue v :: ts := by
  rw [rename, if_pos hc]

/-- The tokens of a line with another name, and of whatever stands behind it. -/
theorem rename_written {k : TokenKind} {line : List Token} (h : Written (some k) line)
    (hk : k ≠ .continuation) (hv : IsName (k == .sectionHeader) v) :
    ∃ i c ts, line = i ++ c :: ts ∧ c.isData = true ∧ (∀ t ∈ i, t.isData = false) ∧
      Written (some k) (i ++ c.withValue v :: ts) := by
  obtain @⟨_, e, hl, he⟩ := h
  cases hl with
  | @cells i ts c hi _ hlead htail =>
    refine ⟨i, c, ts ++ [e], by simp, ?_, fun t ht => ?_, ?_⟩
    · rcases hlead.kind with h | h | h | h
      · simp [Token.isData, TokenKind.isData, h]
      · exact absurd h hk
      · simp [Token.isData, TokenKind.isData, h]
      · simp [Token.isData, TokenKind.isData, h]
    · simp [Token.isData, TokenKind.isData, hi.kind t ht]
    · have : i ++ c.withValue v :: (ts ++ [e]) = (i ++ c.withValue v :: ts) ++ [e] := by simp
      rw [this]
      exact .mk (.cells (c := c.withValue v) hi hv.cell (hlead.rename hk hv) htail) he

/-- Another name keeps tokens laid out. -/
theorem laid_rename {header : Bool} {ts : List Token} (h : Laid header (splitLines ts))
    (hd : dataTexts ts ≠ []) (hv : IsName header v) :
    Laid header (splitLines (rename v ts)) ∧
      ∃ i c rest, ts = i ++ c :: rest ∧ c.isData = true ∧ (∀ t ∈ i, t.isData = false) ∧
        rename v ts = i ++ c.withValue v :: rest := by
  have hflat := flatten_splitLines ts
  have hfirst {k : TokenKind} {first : List Token} {more : List (List Token)}
      (hl : Laid header (first :: more)) (hw : Written (some k) first) (hk : k ≠ .continuation)
      (hv : IsName (k == .sectionHeader) v) (hts : ts = first ++ more.flatten)
      (hnew : ∀ new, Written (some k) new → Laid header (new :: more)) :
      Laid header (splitLines (rename v ts)) ∧
        ∃ i c rest, ts = i ++ c :: rest ∧ c.isData = true ∧ (∀ t ∈ i, t.isData = false) ∧
          rename v ts = i ++ c.withValue v :: rest := by
    obtain ⟨i, c, us, rfl, hc, hi, hwritten⟩ := rename_written hw hk hv
    have hts' : ts = i ++ c :: (us ++ more.flatten) := by rw [hts]; simp
    have hrename : rename v ts = i ++ c.withValue v :: (us ++ more.flatten) := by
      rw [hts', rename_append hi, rename_cons hc]
    have hlaid := hnew _ hwritten
    have hsplit := splitLines_flatten hlaid.written
    have hlines : rename v ts = ((i ++ c.withValue v :: us) :: more).flatten := by
      rw [hrename]
      simp
    refine ⟨?_, i, c, _, hts', hc, hi, hrename⟩
    rw [hlines, hsplit]
    exact hlaid
  generalize splitLines ts = lines at h hflat
  subst hflat
  cases h with
  | @header line hw =>
    exact hfirst (.header hw) hw (by simp) hv rfl fun new hn => .header hn
  | plain hw => exact absurd (by simpa using hw.dataTexts_of_none) hd
  | @data k first more hw hk hm =>
    rcases hk with rfl | rfl
    · exact hfirst (.data hw (.inl rfl) hm) hw (by simp) hv rfl fun new hn =>
        .data hn (.inl rfl) hm
    · exact hfirst (.data hw (.inr rfl) hm) hw (by simp) hv rfl fun new hn =>
        .data hn (.inr rfl) hm

/-- With another name, the first data cell has another text. -/
theorem dataTokens_rename {header : Bool} {ts : List Token} (h : Laid header (splitLines ts))
    (hd : dataTexts ts ≠ []) (hv : IsName header v) :
    ∃ c rest, dataTokens ts = c :: rest ∧ dataTokens (rename v ts) = c.withValue v :: rest := by
  obtain ⟨-, i, c, rest, rfl, hc, hi, hrename⟩ := laid_rename h hd hv
  have hnone : dataTokens i = [] := by
    rw [dataTokens, List.filter_eq_nil_iff]
    exact fun t ht => by simp [hi t ht]
  have hc' : (c.withValue v).isData = true := hc
  refine ⟨c, dataTokens rest, ?_, ?_⟩
  · rw [dataTokens_append, hnone, List.nil_append, dataTokens, List.filter_cons_of_pos hc]
    rfl
  · rw [hrename, dataTokens_append, hnone, List.nil_append, dataTokens,
      List.filter_cons_of_pos hc']
    rfl

/-- What holds no data at the end is left. -/
theorem rename_concat {e : Token} (he : e.isData = false) (ts : List Token) :
    rename v (ts ++ [e]) = rename v ts ++ [e] := by
  induction ts with
  | nil => simp [rename, he]
  | cons t ts ih =>
    rw [List.cons_append, rename, rename, ih]
    split <;> rfl

/-- Line endings are no names, and stay as they are. -/
theorem mem_of_mem_rename {ts : List Token} {t : Token} (h : t ∈ rename v ts)
    (ht : t.kind = .eol) : t ∈ ts := by
  induction ts with
  | nil => simp [rename] at h
  | cons u us ih =>
    rw [rename] at h
    split at h
    · rename_i hu
      rcases List.mem_cons.1 h with rfl | h
      · simp [Token.isData, TokenKind.isData, show u.kind = .eol from ht] at hu
      · exact List.mem_cons_of_mem _ h
    · exact (List.mem_cons.1 h).elim (fun h => h ▸ List.mem_cons_self)
        fun h => List.mem_cons_of_mem _ (ih h)

/-- Another name keeps the line ending. -/
theorem isUnterminated_rename {s : Statement} {front : List Token} {e : Token}
    (h : s.tokens = front ++ [e]) (he : e.kind = .eol) :
    (s.withTokens (rename v s.tokens)).isUnterminated = s.isUnterminated := by
  have hd : e.isData = false := by simp [Token.isData, TokenKind.isData, he]
  have hnew : (s.withTokens (rename v s.tokens)).tokens = rename v front ++ [e] := by
    rw [← rename_concat hd, ← h]
    rfl
  rw [isUnterminated_concat hnew, isUnterminated_concat h]

end

/-! ## Settings -/

/-- The name of a statement is its first cell, unless it is a call. -/
theorem nameText_create {type : StatementType} {ts rest : List Token} {c : Token}
    (ht : type ≠ .keywordCall) (hd : dataTokens ts = c :: rest) :
    (Statement.create type ts).nameText = c.value := by
  have hassign : (Statement.create type ts).assign = [] := if_neg ht
  have hdata : (Statement.create type ts).data = c :: rest := hd
  rw [Statement.nameText, Statement.name, hassign, hdata]
  rfl

/-- A first cell in brackets makes a setting of a block. -/
theorem bodyType_bracketed {c : Token} {rest : List Token}
    (hb : SettingName.isBracketed c.value = true) : bodyType (c :: rest) = .blockSetting := by
  have ha : isAssignment c.value = false := by
    unfold SettingName.isBracketed at hb
    unfold isAssignment
    split at hb
    · rename_i h
      rw [h]
      split
      · rename_i heq
        obtain ⟨rfl, -⟩ := List.cons.inj heq
        rfl
      · rfl
    · cases hb
  simp [bodyType, ha, hb]

/-- Suite settings stand in sections of settings. -/
theorem settings_of_dataType {kind : SectionKind} {data : List Token}
    (h : dataType kind data = .setting) : kind = .settings := by
  have hbody : bodyType data ≠ .setting := bodyType_ne data rfl
  cases kind <;> simp only [dataType] at h <;> first | rfl | (split at h <;> simp_all) | cases h

/-- A setting of a block stays one under another name in brackets. -/
theorem dataType_bracketed {kind : SectionKind} {c : Token} {rest more : List Token} {v : String}
    (h : dataType kind (c :: rest) = .blockSetting) (hv : SettingName.isBracketed v = true) :
    dataType kind (c.withValue v :: more) = .blockSetting := by
  have hbody : bodyType (c.withValue v :: more) = .blockSetting := bodyType_bracketed hv
  have hkind : (c.withValue v).kind = c.kind := rfl
  by_cases hn : (c.kind == .name) = true
  · cases kind <;> simp [dataType, hn] at h
  · cases kind <;> simp [dataType, hn, hkind, hbody] at h ⊢

/-- The canonical headers, with the kinds of section that they name. -/
def canonicalHeaders : List (String × SectionKind) :=
  [("*** Tasks ***", .testCases), ("*** Settings ***", .settings),
    ("*** Variables ***", .variables), ("*** Test Cases ***", .testCases),
    ("*** Keywords ***", .keywords), ("*** Comments ***", .comments)]

/-- The canonical names are cells, and are read as what they name. -/
theorem canonicalNames_checked :
    (∀ v ∈ SettingName.suite, IsCell v ∧ v ≠ "..." ∧ SettingName.ofSuiteCell v = v) ∧
    (∀ v ∈ SettingName.block, IsCell s!"[{v}]" ∧ s!"[{v}]" ≠ "..." ∧
      SettingName.isBracketed s!"[{v}]" = true ∧ SettingName.ofBlockCell s!"[{v}]" = v) ∧
    (∀ p ∈ canonicalHeaders, IsCell p.1 ∧ IsStarred p.1 ∧ SectionKind.ofHeader? p.1 = some p.2) ∧
    IsCell SectionKind.missingHeader ∧
    SectionKind.ofHeader? SectionKind.missingHeader = none ∧ SectionKind.ofHeader? "" = none := by
  decide +kernel

/-- Canonical names of settings are read as these settings. -/
theorem isName_suite : ∀ v ∈ SettingName.suite,
    IsName false v ∧ SettingName.suite.contains (SettingName.ofSuiteCell v) = true := by
  intro v hv
  obtain ⟨hc, hne, hk⟩ := canonicalNames_checked.1 v hv
  exact ⟨⟨hc, hne⟩, by rwa [hk, List.contains_iff_mem]⟩

/-- The canonical names of settings of blocks are read as such. -/
theorem isName_block : ∀ v ∈ SettingName.block, IsName false s!"[{v}]" ∧
    SettingName.isBracketed s!"[{v}]" = true ∧
    SettingName.block.contains (SettingName.ofBlockCell s!"[{v}]") = true := by
  intro v hv
  obtain ⟨hc, hne, hb, hk⟩ := canonicalNames_checked.2.1 v hv
  exact ⟨⟨hc, hne⟩, hb, by rwa [hk, List.contains_iff_mem]⟩

section
variable {kind : SectionKind} {s : Statement} {v : String}

/-- A sound setting stays sound under a name that is read as that of a setting of its type. -/
theorem isSound_rename (h : s.IsSound kind) (hd : dataTexts s.tokens ≠ []) (hv : IsName false v)
    (ht : ∀ c rest, dataTokens s.tokens = c :: rest →
      dataType kind (c.withValue v :: rest) = s.type ∧
        (Statement.create s.type (rename v s.tokens)).hasKnownSetting = true) :
    (s.withTokens (rename v s.tokens)).IsSound kind := by
  obtain ⟨hlaid, -⟩ := laid_rename h.laid hd hv
  obtain ⟨c, rest, hdata, hnew⟩ := dataTokens_rename h.laid hd hv
  obtain ⟨htype, hknown⟩ := ht c rest hdata
  refine ⟨hlaid, ?_⟩
  show ReadsAs kind s.type (rename v s.tokens)
  refine hlaid.readsAs (fun hnil => ?_) fun _ => ⟨?_, hknown, ?_⟩
  · rw [dataTexts, hnew] at hnil
    cases hnil
  · rw [hnew, htype]
  · exact ((readsAs_iff.1 h.reads).2.2.2 hd).2.2

/-- The canonical name of a setting: one of the suite, or one in brackets. -/
theorem setting?_cases (h : setting? s = some v) :
    s.type = .setting ∧ v ∈ SettingName.suite ∨
      s.type = .blockSetting ∧ ∃ n ∈ SettingName.block, v = s!"[{n}]" := by
  rw [setting?, Statement.suiteSetting?, Statement.blockSetting?] at h
  by_cases hs : s.type = .setting
  · rw [if_pos hs, if_neg (by simp [hs])] at h
    have hv : some (SettingName.ofSuiteCell s.nameText) = some v ∧
        SettingName.suite.contains v = true := by
      by_cases hk : SettingName.suite.contains (SettingName.ofSuiteCell s.nameText) = true
      · rw [Option.filter_some, if_pos hk] at h
        obtain rfl : SettingName.ofSuiteCell s.nameText = v := Option.some.inj h
        exact ⟨rfl, hk⟩
      · rw [Option.filter_some, if_neg hk] at h
        cases h
    exact .inl ⟨hs, by simpa using hv.2⟩
  · by_cases hb : s.type = .blockSetting
    · rw [if_neg hs, if_pos hb] at h
      obtain ⟨n, hn, rfl⟩ := Option.map_eq_some_iff.1 (show Option.map _ _ = some v from h)
      obtain ⟨-, hk⟩ := Option.filter_eq_some_iff.1 hn
      exact .inr ⟨hb, n, by simpa using hk, rfl⟩
    · rw [if_neg hs, if_neg hb] at h
      cases h

/-- **A setting with its canonical name is read as one of the same type.** -/
theorem sound_setting (h : s.IsSound kind) (hv : setting? s = some v) :
    (s.withTokens (rename v s.tokens)).IsSound kind := by
  obtain ⟨-, -, hplain, hdata⟩ := readsAs_iff.1 h.reads
  have hd : dataTexts s.tokens ≠ [] := by
    intro hd
    have := hplain hd
    rcases setting?_cases hv with ⟨ht, -⟩ | ⟨ht, -⟩ <;> rw [ht] at this <;> split at this <;>
      cases this
  have htype := (hdata hd).1
  have hnew {c : Token} {rest : List Token} (hv : IsName false v)
      (hc : dataTokens s.tokens = c :: rest) :
      dataTokens (rename v s.tokens) = c.withValue v :: rest := by
    obtain ⟨c', rest', hc', hnew⟩ := dataTokens_rename h.laid hd hv
    rw [hc] at hc'
    obtain ⟨rfl, rfl⟩ := List.cons.inj hc'
    exact hnew
  rcases setting?_cases hv with ⟨ht, hmem⟩ | ⟨ht, n, hn, rfl⟩
  · obtain ⟨hisname, hknown⟩ := isName_suite v hmem
    refine isSound_rename h hd hisname fun c rest hc => ⟨?_, ?_⟩
    · rw [ht] at htype ⊢
      rw [settings_of_dataType htype.symm]
      rfl
    · have hname : (Statement.create .setting (rename v s.tokens)).nameText = v :=
        nameText_create (by simp) (hnew hisname hc)
      rw [ht, Statement.hasKnownSetting, Statement.suiteSetting?, Statement.blockSetting?, hname]
      simpa [Statement.create] using hknown
  · obtain ⟨hisname, hbracketed, hknown⟩ := isName_block n hn
    refine isSound_rename h hd hisname fun c rest hc => ⟨?_, ?_⟩
    · rw [ht, hc] at htype
      rw [ht]
      exact dataType_bracketed htype.symm hbracketed
    · have hname : (Statement.create .blockSetting (rename s!"[{n}]" s.tokens)).nameText =
          s!"[{n}]" := nameText_create (by simp) (hnew hisname hc)
      rw [ht, Statement.hasKnownSetting, Statement.suiteSetting?, Statement.blockSetting?, hname]
      simpa [Statement.create] using hknown

end

/-! ## Headers -/

/-- Canonical headers stand for the kinds of their sections. -/
theorem isName_header : ∀ kind v header, canonicalHeader? kind header = some v →
    IsName true v ∧ Opens kind v := by
  obtain ⟨-, -, hcells, hmissing, -⟩ := canonicalNames_checked
  have hheaders : ∀ v kind, (v, kind) ∈ canonicalHeaders → IsName true v ∧ Opens kind v := by
    intro v kind hp
    obtain ⟨hc, hstar, hk⟩ := hcells _ hp
    exact ⟨⟨hc, .inl hstar⟩, .inl hk⟩
  intro kind v header h
  rw [canonicalHeader?] at h
  split at h
  · rename_i hk
    rw [Bool.and_eq_true, decide_eq_true_eq] at hk
    obtain rfl := Option.some.inj h
    refine hheaders _ kind ?_
    rw [hk.1]
    simp [canonicalHeaders]
  · cases kind with
    | inherited name =>
      obtain rfl := Option.some.inj h
      exact ⟨⟨hmissing, .inr rfl⟩, .inr ⟨rfl, rfl⟩⟩
    | _ =>
      simp only [SectionKind.canonicalHeader?] at h
      cases h <;> exact hheaders _ _ (by simp [canonicalHeaders])

example : canonicalHeader? .testCases "*** test case ***" = some "*** Test Cases ***" := by
  decide +kernel

/-! ## The passes -/

/-- A statement that is spelled in another way has data, and its name is new. -/
theorem respell_eq_some {canonical : Option String} {s new : Statement}
    (h : respell canonical s = some new) :
    ∃ v, canonical = some v ∧ dataTexts s.tokens ≠ [] ∧
      new = s.withTokens (rename v s.tokens) := by
  unfold respell at h
  split at h
  · rename_i v name hname
    split at h
    · cases h
    · refine ⟨v, rfl, fun hd => ?_, (Option.some.inj h).symm⟩
      have hdata : s.data = [] := List.map_eq_nil_iff.1 hd
      rw [Statement.name, hdata] at hname
      simp at hname
  · cases h

/-- A header that is respelled has the canonical name of its section. -/
theorem respell_header {sc : Scope} {s new : Statement} (h : respell (header? sc s) s = some new) :
    ∃ v kind, sc.section?.map (·.kind) = some kind ∧ IsName true v ∧
      Opens kind v ∧ dataTexts s.tokens ≠ [] ∧
      new = s.withTokens (rename v s.tokens) := by
  obtain ⟨v, hv, hd, rfl⟩ := respell_eq_some h
  rw [header?] at hv
  split at hv
  · obtain ⟨sect, hsect, hv⟩ := Option.bind_eq_some_iff.1 hv
    obtain ⟨hname, hopens⟩ := isName_header _ _ _ hv
    exact ⟨v, sect.kind, by rw [hsect]; rfl, hname, hopens, hd, rfl⟩
  · cases hv

/-- Nothing but a header names a section. -/
theorem header?_eq_none {sc : Scope} {s : Statement} (h : s.type ≠ .sectionHeader) :
    header? sc s = none := if_neg h

/-- **Canonical headers keep files sound.** -/
theorem keepsSound_headerPass : headerPass.KeepsSound := by
  refine Pass.keepsSound_ofStatements ?_ ?_ ?_
  · intro setup kind sc s new _ h _ hs
    have hput := Decision.ofOption_eq_put h
    rw [header?_eq_none hs.reads.type_ne.1] at hput
    cases hput
  · intro setup kind sc s new _ h hk _ hs
    obtain ⟨v, kind', hk', hname, hopens, hd, rfl⟩ := respell_header (Decision.ofOption_eq_put h)
    obtain rfl : kind' = kind := by simpa [hk'] using hk
    obtain ⟨hlaid, -⟩ := laid_rename hs.laid hd hname
    obtain ⟨c, rest, -, hnew⟩ := dataTokens_rename hs.laid hd hname
    refine ⟨hs.type, hlaid, ?_⟩
    have : (s.withTokens (rename v s.tokens)).nameText =
        (Statement.create .sectionHeader (rename v s.tokens)).nameText :=
      nameText_congr hs.type rfl
    rw [this, nameText_create (by simp) hnew]
    exact hopens
  · intro setup kind sc s new _ h hs hu
    obtain ⟨v, -, -, rfl⟩ := respell_eq_some (Decision.ofOption_eq_put h)
    obtain ⟨front, e, htokens, he⟩ := hs.laid.getLast?
    rwa [isUnterminated_rename htokens he.kind] at hu

/-- **Canonical names of settings keep files sound.** -/
theorem keepsSound_settingPass : settingPass.KeepsSound := by
  refine Pass.keepsSound_ofItems ?_ ?_
  · intro setup kind sc s new _ h _ hs
    obtain ⟨v, hv, -, rfl⟩ := respell_eq_some (Decision.ofOption_eq_put h)
    exact sound_setting hs hv
  · intro setup sc s new h
    obtain ⟨v, hv, -⟩ := respell_eq_some (Decision.ofOption_eq_put h)
    rcases setting?_cases hv with ⟨ht, -⟩ | ⟨ht, -⟩ <;> simp [ht]

/-- Spelling names in another way puts no line break. -/
theorem keepsBreaks_respell {info : PassInfo} {canonical : Scope → Statement → Option String} :
    (Pass.ofStatements info fun _ sc s => .ofOption (respell (canonical sc s) s)).KeepsBreaks := by
  refine Pass.keepsBreaks_ofStatements fun _ _ h hs => ?_
  obtain ⟨v, -, -, rfl⟩ := respell_eq_some (Decision.ofOption_eq_put h)
  obtain ⟨front, e, htokens, he, -⟩ := hs.concat
  exact ⟨hs.breaks.of_mem fun t ht hk => .inr ⟨t, mem_of_mem_rename ht hk, hk, rfl⟩,
    fun hu => isUnterminated_rename htokens he ▸ hu⟩

/-- **Canonical headers keep line breaks.** -/
theorem keepsBreaks_headerPass : headerPass.KeepsBreaks := keepsBreaks_respell

/-- **Canonical names of settings keep line breaks.** -/
theorem keepsBreaks_settingPass : settingPass.KeepsBreaks := keepsBreaks_respell

end Spelling

end RobotSuite
