/-
# What configurations give

A document gives a configuration of the formatter when it is null, or a mapping of positive sizes, a
separator that keeps cells apart, and flags and values of parameters for passes that are registered
(`FormatConfig.Accepts`).  What it gives has what the document says, and the defaults for the rest
(`FormatConfig.Follows`), and is read back from its own document.  So both tools know their
configurations by what documents say, and report all other documents as faulty, but for a value that
cannot be put into the message about it (`configs_load`, `config_fault_unshown`).
-/

import RobotSuite.Lint.Registry
import RobotSuite.Proofs.Config.LintLoading
import RobotSuite.Proofs.Format.Run

namespace RobotSuite

/-- Passes with different names, and with parameters of different names. -/
structure PassInfo.IsRegistry (passes : List PassInfo) : Prop where
  names : (passes.map (·.name)).Nodup
  params : ∀ p ∈ passes, (p.params.map (·.name)).Nodup

namespace FormatConfig

/-! ## What is accepted, and what it gives -/

/-- A positive whole number. -/
def IsSize (d : Document) (n : Nat) : Prop := 1 ≤ n ∧ d = .ofNat n

/-- Blanks that keep cells apart, given as they are or as a number of spaces. -/
structure IsSeparator (d : Document) (s : String) : Prop where
  isWide : IsWide s
  given : d = .text s ∨ ∃ n, 2 ≤ n ∧ n ≤ maxTextLength ∧ d = .ofNat n ∧ s = Text.spaces n

/-- What the entry of a pass says about whether it runs. -/
def switch? : Document → Option Document
  | .flag b => some (.flag b)
  | entry => given? entry "enabled"

/-- Whether an entry gives the configuration of a pass. -/
structure PassAccepts (p : PassInfo) (entry : Document) : Prop where
  shape : (∃ b, entry = .flag b) ∨ entry.fields?.isSome = true
  switch : ∀ e, switch? entry = some e → ∃ b, e = .flag b
  params : ∀ e, entry.field? "params" = some e → Params.Accepts p.params e

/-- A mapping of sizes, a separator, and entries for passes that are registered. -/
structure HasParts (passes : List PassInfo) (d : Document) : Prop where
  mapping : d.fields?.isSome = true
  lineLength : ∀ e, d.field? "lineLength" = some e → ∃ n, IsSize e n
  indent : ∀ e, d.field? "indent" = some e → ∃ n, IsSize e n
  separator : ∀ e, d.field? "separator" = some e → ∃ s, IsSeparator e s
  passes : Document.IsPart (fun name e => ∃ p ∈ passes, p.name = name ∧ PassAccepts p e)
    (given? d "passes")

/-- Whether a document gives a configuration. -/
def Accepts (passes : List PassInfo) (d : Document) : Prop := d = .null ∨ HasParts passes d

/-- The setting of a pass: what is said of it, or else its defaults. -/
structure PassFollows (p : PassInfo) (entry : Option Document) (s : PassSetting) : Prop where
  enabled : (entry.bind switch?).getD (.flag p.enabled) = .flag s.enabled
  params : Params.Follows p.params
    (fun name => entry.bind fun e => e.at? ["params", name]) s.params

/-- A configuration for some passes, no more and no fewer, with what a document says, or else the
defaults. -/
structure Follows (passes : List PassInfo) (d : Document) (c : FormatConfig) : Prop where
  lineLength : IsSize ((d.field? "lineLength").getD (.ofNat 120)) c.lineLength
  indent : IsSize ((d.field? "indent").getD (.ofNat 4)) c.indent
  separator : IsSeparator ((d.field? "separator").getD (.ofNat 4)) c.separator
  passes : c.passes.IsOver passes PassInfo.name fun p s =>
    PassFollows p (d.at? ["passes", p.name]) s

/-- A separator that is too long to be made. -/
def HasLongSeparator (d : Document) : Prop :=
  ∃ n, maxTextLength < n ∧ d.field? "separator" = some (.ofNat n)

/-- The faults of documents that give no configuration. -/
def IsFault (d : Document) (f : ConfigFault) : Prop :=
  f.IsReported ∨ (∃ o, f = .overflow o) ∧ HasLongSeparator d

/-! ## Sizes and separators -/

/-- Different sizes are written differently. -/
theorem ofNat_inj {m n : Nat} (h : Document.ofNat m = .ofNat n) : m = n :=
  Rat.natCast_inj.1 (Document.number.inj h)

/-- A whole number that is not negative is written as a size. -/
theorem eq_ofNat_of_den {q : Rat} (hden : q.den = 1) (hnum : 0 ≤ q.num) :
    Document.number q = .ofNat q.num.toNat := by
  refine congrArg Document.number (Rat.ext ?_ ?_)
  · rw [Rat.num_natCast, Int.toNat_of_nonneg hnum]
  · rw [hden, Rat.den_natCast]

/-- A size is read if it is a positive whole number. -/
theorem reads_size (field : String) {fallback : Nat} (hfallback : 1 ≤ fallback)
    (e : Option Document) :
    Reads (∀ d, e = some d → ∃ n, IsSize d n)
      (IsSize (e.getD (.ofNat fallback))) ConfigFault.IsReported (size e field fallback) := by
  have hfault : (ConfigFault.notPositive field).IsReported := rfl
  cases e with
  | none => exact .of_ok nofun ⟨hfallback, rfl⟩
  | some d =>
    cases d with
    | number q =>
      rw [size]
      split
      · rename_i hq
        rw [Bool.and_eq_true, decide_eq_true_eq, decide_eq_true_eq] at hq
        have hsize : IsSize (.number q) q.num.toNat := ⟨by omega, eq_ofNat_of_den hq.1 (by omega)⟩
        exact .of_ok (fun d hd => ⟨_, Option.some.inj hd ▸ hsize⟩) hsize
      · rename_i hq
        refine .of_error (fun h => hq ?_) hfault
        obtain ⟨n, hn, hd⟩ := h _ rfl
        rw [Document.number.inj hd, Bool.and_eq_true, decide_eq_true_eq, decide_eq_true_eq]
        exact ⟨Rat.den_natCast n, by rw [Rat.num_natCast]; omega⟩
    | _ =>
      refine .of_error (fun h => ?_) hfault
      obtain ⟨n, -, hd⟩ := h _ rfl
      cases hd

/-- A separator is read if it keeps cells apart. -/
theorem reads_separator (d : Document) :
    Reads (∀ e, d.field? "separator" = some e → ∃ s, IsSeparator e s)
      (IsSeparator ((d.field? "separator").getD (.ofNat 4))) (IsFault d)
      (readSeparator (Text.spaces 4) (d.field? "separator")) := by
  have hfault : ConfigFault.badSeparator.IsReported := rfl
  cases he : d.field? "separator" with
  | none => exact .of_ok nofun ⟨isWide_spaces (by decide), .inr ⟨4, by decide, by decide, rfl, rfl⟩⟩
  | some e =>
    cases e with
    | number q =>
      rw [readSeparator]
      split
      · rename_i hq
        rw [Bool.and_eq_true, decide_eq_true_eq, decide_eq_true_eq] at hq
        have hcount := eq_ofNat_of_den hq.1 (by omega)
        cases hs : spaces? q.num.toNat with
        | ok s =>
          obtain ⟨hmax, rfl⟩ := spaces_eq_ok_iff.1 hs
          have hseparator : IsSeparator (.number q) (Text.spaces q.num.toNat) :=
            ⟨isWide_spaces (by omega), .inr ⟨_, by omega, hmax, hcount, rfl⟩⟩
          exact .of_ok (fun e he => ⟨_, Option.some.inj he ▸ hseparator⟩) hseparator
        | error o =>
          have hmax : maxTextLength < q.num.toNat := by
            by_contra hle
            rw [spaces_eq_ok_iff.2 ⟨Nat.le_of_not_lt hle, rfl⟩] at hs
            cases hs
          refine .of_error (fun h => ?_) (.inr ⟨⟨o, rfl⟩, _, hmax, he.trans (congrArg _ hcount)⟩)
          obtain ⟨s, -, htext | ⟨n, -, hn, hd, -⟩⟩ := h _ rfl
          · cases htext
          · rw [hcount] at hd
            exact absurd (ofNat_inj hd ▸ hn) (Nat.not_le_of_lt hmax)
      · rename_i hq
        refine .of_error (fun h => hq ?_) (.inl hfault)
        obtain ⟨s, -, htext | ⟨n, hn, -, hd, -⟩⟩ := h _ rfl
        · cases htext
        · rw [Document.number.inj hd, Bool.and_eq_true, decide_eq_true_eq, decide_eq_true_eq]
          exact ⟨Rat.den_natCast n, by rw [Rat.num_natCast]; omega⟩
    | text s =>
      rw [readSeparator]
      split
      · rename_i hs
        rw [Bool.and_eq_true] at hs
        exact .of_ok (fun e he => ⟨s, hs, .inl (Option.some.inj he).symm⟩) ⟨hs, .inl rfl⟩
      · rename_i hs
        refine .of_error (fun h => hs ?_) (.inl hfault)
        obtain ⟨s', hwide, htext | ⟨n, -, -, hd, -⟩⟩ := h _ rfl
        · rw [Document.text.inj htext]
          exact Bool.and_eq_true _ _ ▸ hwide
        · cases hd
    | _ =>
      refine .of_error (fun h => ?_) (.inl hfault)
      obtain ⟨s, -, htext | ⟨n, -, -, hd, -⟩⟩ := h _ rfl
      · cases htext
      · cases hd

/-! ## Passes -/

/-- A flag that a pass may be given. -/
def readSwitch (name : String) (fallback : Bool) (said : Option Document) :
    Except ConfigFault Bool :=
  match said with
  | none => .ok fallback
  | some (.flag b) => .ok b
  | some _ => .error (.badSwitch name)

/-- Values that the parameters of a pass may be given. -/
def readValues (p : PassInfo) (fallback : Params) (said : Option Document) :
    Except ConfigFault Params :=
  match said with
  | none => .ok fallback
  | some values => Params.merge s!"pass {p.name}" p.params fallback values

/-- The setting that a field gives the pass of its name. -/
def readEntry (passes : List PassInfo) (current : Option PassSetting) (f : String × Document) :
    Except ConfigFault PassSetting :=
  Table.readNamed passes PassInfo.name f.1 (.unknownPass f.1) fun p =>
    match current with
    | some setting => readPass p setting f.2
    | none => .error (.unknownPass f.1)

/-- The settings of a pass are a switch and values of parameters. -/
theorem readPass_mapping (p : PassInfo) (current : PassSetting)
    (fields : List (String × Document)) : readPass p current (.mapping fields) = (do
      let enabled ← readSwitch p.name current.enabled (given? (.mapping fields) "enabled")
      let params ← readValues p current.params (Document.field? (.mapping fields) "params")
      pure ⟨enabled, params⟩) := by
  rw [readPass]
  cases given? (.mapping fields) "enabled" with
  | none => cases Document.field? (.mapping fields) "params" <;> rfl
  | some e =>
    cases e with
    | flag b => cases Document.field? (.mapping fields) "params" <;> rfl
    | _ => rfl

/-- The passes of a document are read entry by entry over the standard ones. -/
theorem readPasses_eq (passes : List PassInfo) (base : Table PassSetting)
    (fields : List (String × Document)) :
    readPasses passes base fields = Table.readOver (readEntry passes) base fields := by
  refine Table.foldlM_eq_readOver (fun t f => ?_) base fields
  dsimp only [readEntry, Table.readNamed]
  cases passes.find? (·.name = f.1) with
  | none => rfl
  | some p => cases t.get? f.1 <;> rfl

/-- A mapping is read in parts: passes, sizes, and the separator. -/
theorem ofDocument_mapping (passes : List PassInfo) {d : Document} (hd : d.fields?.isSome = true) :
    ofDocument passes d = (do
      let settings ← readPart (.notObject "passes") (given? d "passes") (readEntry passes)
        (standard passes).passes
      let lineLength ← size (d.field? "lineLength") "lineLength" 120
      let indent ← size (d.field? "indent") "indent" 4
      let separator ← readSeparator (Text.spaces 4) (d.field? "separator")
      pure ⟨lineLength, indent, separator, settings⟩) := by
  cases d with
  | mapping fields =>
    unfold ofDocument
    dsimp only [Document.fields?, Option.isNone]
    simp only [Bool.false_eq_true, ↓reduceIte, readPasses_eq]
    cases given? (.mapping fields) "passes" with
    | none => rfl
    | some e => cases e <;> rfl
  | _ => cases hd

/-- A switch is a flag. -/
theorem reads_readSwitch (name : String) (fallback : Bool) (said : Option Document) :
    Reads (∀ e, said = some e → ∃ b, e = .flag b)
      (fun b => said.getD (.flag fallback) = .flag b) ConfigFault.IsReported
      (readSwitch name fallback said) := by
  cases said with
  | none => exact .of_ok nofun rfl
  | some e =>
    cases e with
    | flag b => exact .of_ok (fun e he => ⟨b, (Option.some.inj he).symm⟩) rfl
    | _ =>
      refine .of_error (fun h => ?_) rfl
      obtain ⟨b, hb⟩ := h _ rfl
      cases hb

/-- The values of a pass are read by what the pass declares. -/
theorem reads_readValues {p : PassInfo} (hp : (p.params.map (·.name)).Nodup) {d : Document}
    (hd : d.HasDistinctKeys) :
    Reads (∀ e, d.field? "params" = some e → Params.Accepts p.params e)
      (Params.Follows p.params fun name => d.at? ["params", name]) ConfigFault.IsReported
      (readValues p (Params.defaults p.params) (d.field? "params")) := by
  simp only [Document.at?_pair]
  cases he : d.field? "params" with
  | none => exact .of_ok nofun (Params.follows_defaults hp fun _ _ => rfl)
  | some e =>
    exact (Params.reads_merge hp (hd.of_field he)).imp
      ⟨fun h _ he => Option.some.inj he ▸ h, fun h => h e rfl⟩ (fun _ _ h => h) fun _ h => h

/-- The entry of a pass is read if its switch and its values are. -/
theorem reads_readPass {p : PassInfo} (hp : (p.params.map (·.name)).Nodup) {entry : Document}
    (he : entry.HasDistinctKeys) :
    Reads (PassAccepts p entry) (PassFollows p (some entry)) ConfigFault.IsReported
      (readPass p ⟨p.enabled, Params.defaults p.params⟩ entry) := by
  cases entry with
  | flag b =>
    refine .of_ok ⟨.inl ⟨b, rfl⟩, fun e he => ⟨b, (Option.some.inj he).symm⟩, nofun⟩ ⟨rfl, ?_⟩
    exact Params.follows_defaults hp fun _ _ => rfl
  | mapping fields =>
    rw [readPass_mapping]
    have hparts := (reads_readSwitch p.name p.enabled (given? (.mapping fields) "enabled")).bind
      fun enabled henabled => (reads_readValues hp he).bind fun params hparams =>
        show Reads True (PassFollows p (some (.mapping fields))) ConfigFault.IsReported
          (pure ⟨enabled, params⟩) from .of_ok trivial ⟨henabled, hparams⟩
    exact hparts.imp ⟨fun h => ⟨.inr rfl, h.1, h.2.1⟩, fun h => ⟨h.switch, h.params, trivial⟩⟩
      (fun _ _ h => h) fun _ h => h
  | _ =>
    refine .of_error (fun h => ?_) rfl
    obtain ⟨b, hb⟩ | hmapping := h.shape
    · cases hb
    · cases hmapping

/-- What counts as absent says nothing below. -/
theorem given?_bind (d : Document) (key name : String) :
    ((given? d key).bind fun e => e.field? name) = d.at? [key, name] := by
  rw [d.at?_pair, given?]
  cases d.field? key with
  | none => rfl
  | some e => cases e <;> rfl

section
variable {passes : List PassInfo} (hp : PassInfo.IsRegistry passes) {d : Document}
include hp

/-- The standard settings are the defaults of each pass. -/
theorem isOver_standard : Table.IsOver passes PassInfo.name
    (fun p s => s = ⟨p.enabled, Params.defaults p.params⟩) (standard passes).passes :=
  Table.isOver_foldl_set hp.names fun _ _ => rfl

/-- An entry is read if it is for a pass that is registered, as the pass says. -/
theorem reads_readEntry {name : String} {e : Document} (he : e.HasDistinctKeys) :
    Reads (∃ p ∈ passes, p.name = name ∧ PassAccepts p e)
      (fun s => ∀ p ∈ passes, p.name = name → PassFollows p (some e) s) ConfigFault.IsReported
      (readEntry passes ((standard passes).passes.get? name) (name, e)) := by
  have hunknown : (ConfigFault.unknownPass name).IsReported := rfl
  refine Table.reads_readNamed hp.names hunknown fun p hmem hname => ?_
  subst hname
  obtain ⟨s, hs, rfl⟩ := (isOver_standard hp).entries p hmem
  rw [hs]
  exact reads_readPass (hp.params p hmem) he

/-- Entries are read over the defaults of the passes. -/
theorem reads_passes (hd : d.HasDistinctKeys) :
    Reads (Document.IsPart (fun name e => ∃ p ∈ passes, p.name = name ∧ PassAccepts p e)
        (given? d "passes"))
      (Table.IsOver passes PassInfo.name fun p s => PassFollows p (d.at? ["passes", p.name]) s)
      ConfigFault.IsReported
      (readPart (.notObject "passes") (given? d "passes") (readEntry passes)
        (standard passes).passes) := by
  have hmissing : (ConfigFault.notObject "passes").IsReported := rfl
  have hpart (e : Document) (he : given? d "passes" = some e) : e.HasDistinctKeys := by
    have hfield : d.field? "passes" = some e := by
      rw [given?] at he
      split at he
      · cases he
      · exact he
    exact hd.of_field hfield
  have hbelow (name : String) (e : Document)
      (he : ((given? d "passes").bind fun p => p.field? name) = some e) : e.HasDistinctKeys := by
    obtain ⟨p, hp, he⟩ := Option.bind_eq_some_iff.1 he
    exact (hpart p hp).of_field he
  refine (reads_readPart hpart hmissing fun name e he =>
    reads_readEntry hp (hbelow name e he)).imp Iff.rfl (fun haccepts t hmade => ?_) fun _ h => h
  refine hmade.isOver (isOver_standard hp) ?_ ?_ ?_
  · intro name e he
    rw [Document.get?_partFields] at he
    obtain ⟨p, hmem, rfl, -⟩ := haccepts.fields name e he
    exact List.mem_map_of_mem hmem
  · intro p hmem e s he hgives
    rw [Document.get?_partFields, given?_bind] at he
    rw [he]
    exact hgives p hmem rfl
  · rintro p hmem _ he rfl
    rw [Document.get?_partFields, given?_bind] at he
    rw [he]
    exact ⟨rfl, Params.follows_defaults (hp.params p hmem) fun _ _ => rfl⟩

/-- **Documents are read** when they are acceptable. -/
theorem reads_ofDocument (hd : d.HasDistinctKeys) :
    Reads (Accepts passes d) (Follows passes d) (IsFault d) (ofDocument passes d) := by
  have hreported {f : ConfigFault} : f.IsReported → IsFault d f := .inl
  have hpasses := (reads_passes hp hd).imp Iff.rfl (fun _ _ h => h) fun _ => hreported
  have hlength := (reads_size "lineLength" (by decide : 1 ≤ 120) (d.field? "lineLength")).imp
    Iff.rfl (fun _ _ h => h) fun _ => hreported
  have hindent := (reads_size "indent" (by decide : 1 ≤ 4) (d.field? "indent")).imp
    Iff.rfl (fun _ _ h => h) fun _ => hreported
  have hparts := hpasses.bind fun settings hsettings => hlength.bind fun lineLength hlength =>
    hindent.bind fun indent hindent => (reads_separator d).bind fun separator hseparator =>
      show Reads True (Follows passes d) (IsFault d)
          (pure ⟨lineLength, indent, separator, settings⟩) from
        .of_ok trivial ⟨hlength, hindent, hseparator, hsettings⟩
  cases d with
  | null =>
    exact hparts.imp ⟨fun _ => .inl rfl, fun _ =>
      ⟨⟨nofun, nofun⟩, nofun, nofun, nofun, trivial⟩⟩ (fun _ _ h => h) fun _ h => h
  | mapping fields =>
    rw [ofDocument_mapping passes rfl]
    refine hparts.imp ⟨fun h => .inr ⟨rfl, h.2.1, h.2.2.1, h.2.2.2.1, h.1⟩, ?_⟩ (fun _ _ h => h)
      fun _ h => h
    rintro (h | h)
    · cases h
    · exact ⟨h.passes, h.lineLength, h.indent, h.separator, trivial⟩
  | _ =>
    refine .of_error ?_ (.inl rfl)
    rintro (h | h)
    · cases h
    · cases h.mapping

/-! ## Reading again -/

section
omit hp

/-- The setting of a pass as a document. -/
def settingDocument (s : PassSetting) : Document :=
  .mapping [("enabled", .flag s.enabled), ("params", s.params.toDocument)]

/-- The settings of passes are written under `passes`. -/
theorem field?_passes (c : FormatConfig) :
    c.toDocument.field? "passes" = some (c.passes.toDocument settingDocument) := rfl

/-- What is written of a pass is what the configuration holds of it. -/
theorem at?_passes (c : FormatConfig) (name : String) :
    c.toDocument.at? ["passes", name] = (c.passes.get? name).map settingDocument := by
  rw [Document.at?_pair, field?_passes, Option.bind_some, Table.field?_toDocument]

/-- A document is one size at most. -/
theorem IsSize.unique {e : Document} {m n : Nat} (hm : IsSize e m) (hn : IsSize e n) : m = n :=
  ofNat_inj (hm.2.symm.trans hn.2)

/-- A document is one separator at most. -/
theorem IsSeparator.unique {e : Document} {s t : String} (hs : IsSeparator e s)
    (ht : IsSeparator e t) : s = t := by
  rcases hs.given with rfl | ⟨m, -, -, rfl, rfl⟩ <;> rcases ht.given with h | ⟨n, -, -, h, rfl⟩
  · exact Document.text.inj h
  · cases h
  · cases h
  · rw [ofNat_inj h]

end

section
variable {c : FormatConfig} (hc : Follows passes d c)
include hc

omit hp in
/-- A configuration is accepted as a document. -/
theorem accepts_toDocument : Accepts passes c.toDocument := by
  refine .inr ⟨rfl, fun e he => ?_, fun e he => ?_, fun e he => ?_, ?_⟩
  · exact ⟨_, hc.lineLength.1, (Option.some.inj he).symm⟩
  · exact ⟨_, hc.indent.1, (Option.some.inj he).symm⟩
  · exact ⟨_, hc.separator.isWide, .inl (Option.some.inj he).symm⟩
  · have hpart : given? c.toDocument "passes" = some (c.passes.toDocument settingDocument) := rfl
    refine hpart ▸ Document.isPart_toDocument fun name s hs => ?_
    obtain ⟨p, hmem, rfl, hfollows⟩ := hc.passes.of_get? hs
    refine ⟨p, hmem, rfl, .inr rfl, fun e he => ⟨s.enabled, (Option.some.inj he).symm⟩, ?_⟩
    intro e he
    exact Option.some.inj he ▸ hfollows.params.accepts_toDocument

omit hp in
/-- A configuration has what its own document says. -/
theorem follows_toDocument : Follows passes c.toDocument c := by
  refine ⟨⟨hc.lineLength.1, rfl⟩, ⟨hc.indent.1, rfl⟩, ⟨hc.separator.isWide, .inl rfl⟩,
    hc.passes.keys, fun p hmem => ?_⟩
  obtain ⟨s, hs, hfollows⟩ := hc.passes.entries p hmem
  refine ⟨s, hs, ?_⟩
  rw [at?_passes, hs, Option.map_some]
  refine ⟨rfl, ?_⟩
  have hat (name : String) : (settingDocument s).at? ["params", name] =
      s.params.toDocument.field? name := Document.at?_pair _ _ _
  simp only [Option.bind_some, hat]
  exact hfollows.params.follows_toDocument

/-- What is written of a configuration has no key twice. -/
theorem hasDistinctKeys_toDocument : c.toDocument.HasDistinctKeys := by
  have hpasses : (c.passes.toDocument settingDocument).HasDistinctKeys := by
    refine Table.hasDistinctKeys_toDocument (hc.passes.keys ▸ hp.names) fun name s hs => ?_
    obtain ⟨p, hmem, rfl, hfollows⟩ := hc.passes.of_get? hs
    refine Document.hasDistinctKeys_mapping
      (by decide : ["enabled", "params"].Nodup) fun f hf => ?_
    simp only [List.mem_cons, List.not_mem_nil, or_false] at hf
    rcases hf with rfl | rfl
    · exact Document.hasDistinctKeys_of_fields? rfl
    · exact hfollows.params.hasDistinctKeys_toDocument (hp.params p hmem)
  refine Document.hasDistinctKeys_mapping
    (by decide : ["lineLength", "indent", "separator", "passes"].Nodup) fun f hf => ?_
  simp only [List.mem_cons, List.not_mem_nil, or_false] at hf
  rcases hf with rfl | rfl | rfl | rfl
  · exact Document.hasDistinctKeys_of_fields? rfl
  · exact Document.hasDistinctKeys_of_fields? rfl
  · exact Document.hasDistinctKeys_of_fields? rfl
  · exact hpasses

/-- Configurations are determined by what they follow. -/
theorem Follows.unique {c' : FormatConfig} (hc' : Follows passes d c') : c = c' := by
  have hlength : c.lineLength = c'.lineLength := hc.lineLength.unique hc'.lineLength
  have hindent : c.indent = c'.indent := hc.indent.unique hc'.indent
  have hseparator : c.separator = c'.separator := hc.separator.unique hc'.separator
  have hpasses : c.passes = c'.passes := by
    refine Table.ext_get? (hc.passes.keys.trans hc'.passes.keys.symm)
      (hc.passes.keys ▸ hp.names) fun name hname => ?_
    rw [hc.passes.keys] at hname
    obtain ⟨p, hmem, rfl⟩ := List.mem_map.1 hname
    obtain ⟨s, hs, hfollows⟩ := hc.passes.entries p hmem
    obtain ⟨t, ht, hfollows'⟩ := hc'.passes.entries p hmem
    have henabled : s.enabled = t.enabled :=
      Document.flag.inj (hfollows.enabled.symm.trans hfollows'.enabled)
    have hparams : s.params = t.params :=
      Params.Follows.unique (hp.params p hmem) hfollows.params hfollows'.params
    rw [hs, ht]
    cases s
    cases t
    congr
  cases c
  cases c'
  congr

/-- **A configuration is read from its own document.** -/
theorem ofDocument_toDocument : ofDocument passes c.toDocument = .ok c := by
  have hkeys := hasDistinctKeys_toDocument hp hc
  obtain ⟨c', hread, hc'⟩ := (reads_ofDocument hp hkeys).exists_ok (accepts_toDocument hc)
  rw [hread, Follows.unique hp (follows_toDocument hc) hc']

end
end
end FormatConfig

/-! ## Both tools -/

/-- The rules have different codes, and their parameters different names. -/
theorem isRegistry_rules : RuleInfo.IsRegistry (Rule.all.map (·.info)) :=
  ⟨by decide, by decide⟩

/-- The passes have different names, and so do their parameters. -/
theorem isRegistry_passes : PassInfo.IsRegistry (Pass.all.map (·.info)) :=
  ⟨by decide, by decide⟩

end RobotSuite
