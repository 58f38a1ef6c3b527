/-
# Configurations of the checker

A document gives a configuration of the checker when it is null, or a mapping in which the states,
the severities and the values of parameters are for rules that are registered, and valid
(`LintConfig.Accepts`).  What it gives has what the document says, and the defaults for the rest
(`LintConfig.Follows`), and is read back from its own document (`LintConfig.ofDocument_toDocument`).
What it does not give is reported, unless the value that is to blame cannot be put into the message
(`LintConfig.reads_ofDocument`).
-/

import RobotSuite.Proofs.Config.Params

namespace RobotSuite

/-- Rules with different codes, and with parameters of different names. -/
structure RuleInfo.IsRegistry (rules : List RuleInfo) : Prop where
  codes : (rules.map (·.code)).Nodup
  params : ∀ r ∈ rules, (r.params.map (·.name)).Nodup

namespace LintConfig

/-! ## What is accepted, and what it gives -/

/-- A mapping with parts for rules that are registered, and with valid values in them. -/
structure HasParts (rules : List RuleInfo) (d : Document) : Prop where
  mapping : d.fields?.isSome = true
  states : Document.IsPart (fun code e => ∃ r ∈ rules, r.code = code ∧
    ∃ s : RuleState, e = .text s.title) (d.field? "rules")
  severities : Document.IsPart (fun code e => ∃ r ∈ rules, r.code = code ∧
    ∃ s : Severity, e = .text s.title) (d.field? "severity")
  values : Document.IsPart (fun code e => ∃ r ∈ rules, r.code = code ∧ Params.Accepts r.params e)
    (d.field? "params")

/-- Whether a document gives a configuration. -/
def Accepts (rules : List RuleInfo) (d : Document) : Prop := d = .null ∨ HasParts rules d

/-- The rules that declare parameters. -/
def declaring (rules : List RuleInfo) : List String :=
  (rules.filter (!·.params.isEmpty)).map (·.code)

/-- The rules for which a configuration has parameters, in order: those that declare some, and the
others of which the document speaks. -/
def paramKeys (rules : List RuleInfo) (d : Document) : List String :=
  declaring rules ++
    ((Document.partFields (d.field? "params")).map Prod.fst).filter (· ∉ declaring rules)

/-- A configuration for some rules, no more and no fewer, with what a document says, or else the
defaults. -/
structure Follows (rules : List RuleInfo) (d : Document) (c : LintConfig) : Prop where
  states : c.rules.IsOver rules RuleInfo.code fun r s =>
    (d.at? ["rules", r.code]).getD (.text RuleState.on.title) = .text s.title
  severities : c.severity.IsOver rules RuleInfo.code fun r s =>
    (d.at? ["severity", r.code]).getD (.text r.severity.title) = .text s.title
  values : ∀ r ∈ rules,
    Params.Follows r.params (fun name => d.at? ["params", r.code, name]) (c.paramsOf r.code)
  owners : ∀ code ∈ c.params.map Prod.fst, ∃ r ∈ rules, r.code = code
  order : c.params.map Prod.fst = paramKeys rules d

/-- A state or severity that cannot be put into a message. -/
def HasUnshowable (d : Document) : Prop :=
  ∃ part ∈ ["rules", "severity"], ∃ code e, d.at? [part, code] = some e ∧ e.isShowable = false

/-- The faults of documents that give no configuration. -/
def IsFault (d : Document) (f : ConfigFault) : Prop :=
  f.IsReported ∨ f = .unshown ∧ HasUnshowable d

/-! ## Reading -/

section
variable {α : Type}

/-- The value of a title that a field gives a rule. -/
def readTitled (rules : List RuleInfo) (ofTitle? : String → Option α)
    (fault : String → String → ConfigFault) (_ : Option α) (f : String × Document) :
    Except ConfigFault α :=
  Table.readNamed rules RuleInfo.code f.1 (.unknownRule f.1) fun _ =>
    match f.2.text?.bind ofTitle? with
    | some v => .ok v
    | none => .error (.ofValue (fault f.1) f.2)

/-- The values that a field gives the parameters of a rule. -/
def readParams (rules : List RuleInfo) (current : Option Params) (f : String × Document) :
    Except ConfigFault Params :=
  Table.readNamed rules RuleInfo.code f.1 (.unknownRule f.1) fun r =>
    Params.merge s!"rule {f.1}" r.params (current.getD []) f.2

/-- A part of a document is read field by field. -/
theorem readPart_field (d : Document) (key : String)
    (read : Option α → String × Document → Except ConfigFault α) (base : Table α) :
    readPart (.notObject key) (d.field? key) read base =
      part d key >>= Table.readOver read base := by
  rw [part]
  cases d.field? key with
  | none => rfl
  | some e => cases e <;> rfl

/-- A mapping is read in three parts: states, severities, and parameters. -/
theorem ofDocument_mapping (rules : List RuleInfo) {d : Document} (hd : d.fields?.isSome = true) :
    ofDocument rules d = (do
      let states ← readPart (.notObject "rules") (d.field? "rules")
        (readTitled rules RuleState.ofTitle? .badState) (standard rules).rules
      let severity ← readPart (.notObject "severity") (d.field? "severity")
        (readTitled rules Severity.ofTitle? .badSeverity) (standard rules).severity
      let params ← readPart (.notObject "params") (d.field? "params") (readParams rules)
        (standard rules).params
      pure ⟨states, severity, params⟩) := by
  cases d with
  | mapping fields =>
    unfold ofDocument
    dsimp only [Document.fields?, Option.isNone]
    simp only [Bool.false_eq_true, ↓reduceIte, readPart_field, bind_assoc]
    refine bind_congr fun states => congrArg₂ bind (Table.foldlM_eq_readOver ?_ _ states)
      (funext fun _ => bind_congr fun levels => congrArg₂ bind
        (Table.foldlM_eq_readOver ?_ _ levels) (funext fun _ => bind_congr fun values =>
          congrArg (· >>= _) (Table.foldlM_eq_readOver ?_ _ values))) <;> intro t f
    · dsimp only [readTitled, Table.readNamed, ruleOf]
      cases rules.find? (·.code = f.1) with
      | none => rfl
      | some r => cases f.2.text?.bind RuleState.ofTitle? <;> rfl
    · dsimp only [readTitled, Table.readNamed, ruleOf]
      cases rules.find? (·.code = f.1) with
      | none => rfl
      | some r => cases f.2.text?.bind Severity.ofTitle? <;> rfl
    · dsimp only [readParams, Table.readNamed, ruleOf]
      cases rules.find? (·.code = f.1) <;> rfl
  | _ => cases hd

end

section
variable {rules : List RuleInfo} (hr : RuleInfo.IsRegistry rules) {d : Document}
include hr

section
variable {α : Type} {ofTitle? : String → Option α} {title : α → String}
variable (htitle : ∀ s v, ofTitle? s = some v ↔ s = title v)
variable {fault : String → String → ConfigFault} (hfault : ∀ code s, (fault code s).IsReported)
include htitle hfault

/-- A title is read as that of a state or severity, for a rule that is registered. -/
theorem reads_readTitled (current : Option α) (code : String) (e : Document) :
    Reads (∃ r ∈ rules, r.code = code ∧ ∃ v, e = .text (title v))
      (fun v => ∀ r ∈ rules, r.code = code → e = .text (title v))
      (fun f => f.IsReported ∨ f = .unshown ∧ e.isShowable = false)
      (readTitled rules ofTitle? fault current (code, e)) := by
  refine Table.reads_readNamed hr.codes (.inl rfl) fun r _ _ => ?_
  dsimp only
  cases hv : e.text?.bind ofTitle? with
  | none =>
    refine .of_error ?_ ?_
    · rintro ⟨v, rfl⟩
      rw [Document.text?, Option.bind_some, (htitle _ v).2 rfl] at hv
      cases hv
    · rw [ConfigFault.ofValue]
      split
      · exact .inl (hfault code _)
      · rename_i hshow
        exact .inr ⟨rfl, Bool.eq_false_iff.2 hshow⟩
  | some v =>
    obtain ⟨s, hs, hv⟩ := Option.bind_eq_some_iff.1 hv
    have he : e = .text (title v) := by
      cases e <;> cases hs
      rw [(htitle _ v).1 hv]
    exact .of_ok ⟨v, he⟩ he

/-- States and severities are read over those of the rules. -/
theorem reads_titles (hd : d.HasDistinctKeys) {key : String} (hkey : key ∈ ["rules", "severity"])
    (default : RuleInfo → α) :
    Reads (Document.IsPart (fun code e => ∃ r ∈ rules, r.code = code ∧ ∃ v, e = .text (title v))
        (d.field? key))
      (Table.IsOver rules RuleInfo.code fun r v =>
        (d.at? [key, r.code]).getD (.text (title (default r))) = .text (title v))
      (IsFault d)
      (readPart (.notObject key) (d.field? key) (readTitled rules ofTitle? fault)
        (rules.foldl (fun t r => Table.set t r.code (default r)) [])) := by
  have hmissing : IsFault d (.notObject key) := .inl rfl
  refine (reads_readPart (fun e he => hd.of_field he) hmissing fun code e he =>
    (reads_readTitled hr htitle hfault _ code e).imp Iff.rfl (fun _ _ hv => hv) ?_).imp Iff.rfl
      (fun haccepts t hmade => ?_) fun _ hf => hf
  · rintro f (hf | ⟨rfl, hshow⟩)
    · exact .inl hf
    · exact .inr ⟨rfl, key, hkey, code, e, (d.at?_pair key code).trans he, hshow⟩
  · have hbase : Table.IsOver rules RuleInfo.code (fun r v => default r = v)
        (rules.foldl (fun t r => Table.set t r.code (default r)) []) :=
      Table.isOver_foldl_set hr.codes fun r _ => rfl
    simp only [Document.at?_pair]
    refine hmade.isOver hbase ?_ ?_ ?_
    · intro code e he
      rw [Document.get?_partFields] at he
      obtain ⟨r, hmem, rfl, -⟩ := haccepts.fields code e he
      exact List.mem_map_of_mem hmem
    · intro r hmem e v he hgives
      rw [Document.get?_partFields] at he
      rw [he]
      exact hgives r hmem rfl
    · rintro r _ _ he rfl
      rw [Document.get?_partFields] at he
      rw [he]
      rfl

end

/-- No rule is listed twice among those with parameters. -/
theorem nodup_declaring : (declaring rules).Nodup :=
  hr.codes.sublist (List.filter_sublist.map _)

omit hr in
/-- The standard parameters are the defaults of the rules that have any. -/
theorem standard_params (rules : List RuleInfo) (hr : RuleInfo.IsRegistry rules) :
    (standard rules).params =
      (rules.filter (!·.params.isEmpty)).map fun r => (r.code, Params.defaults r.params) :=
  Table.foldl_set_eq_append (t := []) (fun r : RuleInfo => r.params.isEmpty) hr.codes

/-- Whether it declares parameters or not, a rule has its defaults. -/
theorem standard_paramsOf {r : RuleInfo} (hmem : r ∈ rules) :
    (standard rules).paramsOf r.code = Params.defaults r.params := by
  have hnodup := nodup_declaring hr
  rw [paramsOf, standard_params rules hr]
  by_cases hempty : r.params = []
  · rw [Table.get?_eq_none_iff.2, hempty]
    · rfl
    · rw [List.map_map, List.mem_map]
      rintro ⟨q, hq, hcode⟩
      rw [List.mem_filter] at hq
      rw [List.inj_on_of_nodup_map hr.codes hq.1 hmem hcode, hempty] at hq
      exact Bool.false_ne_true hq.2
  · have hdeclares : r ∈ rules.filter (!·.params.isEmpty) :=
      List.mem_filter.2 ⟨hmem, by simpa using hempty⟩
    rw [Table.get?_map hnodup hdeclares, Option.getD_some]

/-- The parameters of a rule are read by what the rule declares. -/
theorem reads_readParams {code : String} {e : Document} (he : e.HasDistinctKeys) :
    Reads (∃ r ∈ rules, r.code = code ∧ Params.Accepts r.params e)
      (fun ps => ∀ r ∈ rules, r.code = code → Params.Follows r.params e.field? ps)
      ConfigFault.IsReported
      (readParams rules ((standard rules).params.get? code) (code, e)) := by
  have hunknown : (ConfigFault.unknownRule code).IsReported := rfl
  refine Table.reads_readNamed hr.codes hunknown fun r hmem hcode => ?_
  subst hcode
  have hbase : ((standard rules).params.get? r.code).getD [] = Params.defaults r.params :=
    standard_paramsOf hr hmem
  rw [hbase]
  exact Params.reads_merge (hr.params r hmem) he

/-- What comes of the values of parameters. -/
structure FollowsParams (rules : List RuleInfo) (d : Document) (t : Table Params) : Prop where
  values : ∀ r ∈ rules,
    Params.Follows r.params (fun name => d.at? ["params", r.code, name]) ((t.get? r.code).getD [])
  owners : ∀ code ∈ t.map Prod.fst, ∃ r ∈ rules, r.code = code
  order : t.map Prod.fst = paramKeys rules d

/-- Values of parameters are read over the defaults of the rules. -/
theorem reads_params (hd : d.HasDistinctKeys) :
    Reads (Document.IsPart (fun code e => ∃ r ∈ rules, r.code = code ∧ Params.Accepts r.params e)
        (d.field? "params"))
      (FollowsParams rules d) (IsFault d)
      (readPart (.notObject "params") (d.field? "params") (readParams rules)
        (standard rules).params) := by
  have hmissing : (ConfigFault.notObject "params").IsReported := rfl
  have hbelow (code : String) (e : Document)
      (he : ((d.field? "params").bind fun p => p.field? code) = some e) : e.HasDistinctKeys := by
    obtain ⟨p, hp, he⟩ := Option.bind_eq_some_iff.1 he
    exact (hd.of_field hp).of_field he
  refine (reads_readPart (fun e he => hd.of_field he) hmissing fun code e he =>
    reads_readParams hr (hbelow code e he)).imp Iff.rfl (fun haccepts t hmade => ?_) fun _ => .inl
  have hkeys : t.map Prod.fst = paramKeys rules d := by
    rw [hmade.keys, standard_params rules hr, List.map_map]
    rfl
  refine ⟨fun r hmem => ?_, fun code hcode => ?_, hkeys⟩
  · have hat (name : String) : d.at? ["params", r.code, name] =
        ((d.field? "params").bind fun p => p.field? r.code).bind fun e => e.field? name := by
      rw [Document.at?, Option.bind_assoc]
      exact congrArg _ (funext fun e => e.at?_pair r.code name)
    simp only [hat]
    cases he : (d.field? "params").bind fun p => p.field? r.code with
    | none =>
      rw [hmade.kept _ ((Document.get?_partFields _ _).trans he)]
      have hbase := standard_paramsOf hr hmem
      rw [paramsOf] at hbase
      rw [hbase]
      exact Params.follows_defaults (hr.params r hmem) fun _ _ => rfl
    | some e =>
      obtain ⟨ps, hps, hfollows⟩ := hmade.given _ e ((Document.get?_partFields _ _).trans he)
      rw [hps]
      exact hfollows r hmem rfl
  · rw [hkeys, paramKeys, List.mem_append] at hcode
    rcases hcode with hcode | hcode
    · obtain ⟨r, hmem, rfl⟩ := List.mem_map.1 hcode
      exact ⟨r, List.mem_of_mem_filter hmem, rfl⟩
    · obtain ⟨e, he⟩ := Table.mem_keys_iff.1 (List.mem_of_mem_filter hcode)
      rw [Document.get?_partFields] at he
      obtain ⟨r, hmem, hcode, -⟩ := haccepts.fields code e he
      exact ⟨r, hmem, hcode⟩

/-- **Documents are read** when they are acceptable. -/
theorem reads_ofDocument (hd : d.HasDistinctKeys) :
    Reads (Accepts rules d) (Follows rules d) (IsFault d) (ofDocument rules d) := by
  have hstates := reads_titles hr (fun _ _ => RuleState.ofTitle?_eq_some_iff)
    (fun code s => (rfl : (ConfigFault.badState code s).IsReported)) hd List.mem_cons_self
    fun _ => RuleState.on
  have hlevels := reads_titles hr (fun _ _ => Severity.ofTitle?_eq_some_iff)
    (fun code s => (rfl : (ConfigFault.badSeverity code s).IsReported)) hd
    (List.mem_cons_of_mem _ List.mem_cons_self) RuleInfo.severity
  have hparts := hstates.bind fun states hstates => hlevels.bind fun levels hlevels =>
    (reads_params hr hd).bind fun values hvalues =>
      show Reads True (Follows rules d) (IsFault d) (pure ⟨states, levels, values⟩) from
        .of_ok trivial ⟨hstates, hlevels, hvalues.values, hvalues.owners, hvalues.order⟩
  cases d with
  | null =>
    have hnone {accepts : String → Document → Prop} : Document.IsPart accepts none :=
      ⟨nofun, nofun⟩
    exact hparts.imp ⟨fun _ => .inl rfl, fun _ => ⟨hnone, hnone, hnone, trivial⟩⟩
      (fun _ _ h => h) fun _ h => h
  | mapping fields =>
    rw [ofDocument_mapping rules rfl]
    refine hparts.imp ⟨fun h => .inr ⟨rfl, h.1, h.2.1, h.2.2.1⟩, ?_⟩ (fun _ _ h => h) fun _ h => h
    rintro (h | h)
    · cases h
    · exact ⟨h.states, h.severities, h.values, trivial⟩
  | _ =>
    refine .of_error ?_ (.inl rfl)
    rintro (h | h)
    · cases h
    · cases h.mapping

/-! ## Reading again -/

section
omit hr

/-- The states are written under `rules`. -/
theorem field?_rules (c : LintConfig) : c.toDocument.field? "rules" =
    some (c.rules.toDocument fun s => .text s.title) := rfl

/-- The severities are written under `severity`. -/
theorem field?_severity (c : LintConfig) : c.toDocument.field? "severity" =
    some (c.severity.toDocument fun s => .text s.title) := rfl

/-- The parameters are written under `params`. -/
theorem field?_params (c : LintConfig) : c.toDocument.field? "params" =
    some (c.params.toDocument Params.toDocument) := rfl

/-- What is written of a rule is what the configuration holds of it. -/
theorem at?_toDocument {α : Type} {c : LintConfig} {key : String} {document : α → Document}
    {t : Table α} (h : c.toDocument.field? key = some (t.toDocument document)) (code : String) :
    c.toDocument.at? [key, code] = (t.get? code).map document := by
  rw [Document.at?_pair, h, Option.bind_some, Table.field?_toDocument]

end

section
variable {c : LintConfig} (hc : Follows rules d c)
include hc

omit hr in
/-- Parameters belong to a rule that is registered. -/
theorem params_of_get? {code : String} {ps : Params} (h : c.params.get? code = some ps) :
    ∃ r ∈ rules, r.code = code ∧ c.paramsOf r.code = ps := by
  obtain ⟨r, hmem, rfl⟩ := hc.owners code (Table.mem_keys_iff.2 ⟨ps, h⟩)
  exact ⟨r, hmem, rfl, by rw [paramsOf, h, Option.getD_some]⟩

omit hr in
/-- A configuration is accepted as a document. -/
theorem accepts_toDocument : Accepts rules c.toDocument := by
  refine .inr ⟨rfl, ?_, ?_, ?_⟩
  · refine field?_rules c ▸ Document.isPart_toDocument fun code s hs => ?_
    obtain ⟨r, hmem, rfl, -⟩ := hc.states.of_get? hs
    exact ⟨r, hmem, rfl, s, rfl⟩
  · refine field?_severity c ▸ Document.isPart_toDocument fun code s hs => ?_
    obtain ⟨r, hmem, rfl, -⟩ := hc.severities.of_get? hs
    exact ⟨r, hmem, rfl, s, rfl⟩
  · refine field?_params c ▸ Document.isPart_toDocument fun code ps hps => ?_
    obtain ⟨r, hmem, rfl, rfl⟩ := params_of_get? hc hps
    exact ⟨r, hmem, rfl, (hc.values r hmem).accepts_toDocument⟩

omit hr in
/-- A configuration has what its own document says. -/
theorem follows_toDocument : Follows rules c.toDocument c := by
  refine ⟨⟨hc.states.keys, fun r hmem => ?_⟩, ⟨hc.severities.keys, fun r hmem => ?_⟩,
    fun r hmem => ?_, hc.owners, ?_⟩
  · obtain ⟨s, hs, -⟩ := hc.states.entries r hmem
    exact ⟨s, hs, by rw [at?_toDocument (field?_rules c), hs]; rfl⟩
  · obtain ⟨s, hs, -⟩ := hc.severities.entries r hmem
    exact ⟨s, hs, by rw [at?_toDocument (field?_severity c), hs]; rfl⟩
  · have hfollows := hc.values r hmem
    have hat (name : String) : c.toDocument.at? ["params", r.code, name] =
        (c.paramsOf r.code).toDocument.field? name := by
      rw [Document.at?, field?_params, Option.bind_some, Document.at?_pair,
        Table.field?_toDocument, paramsOf]
      cases c.params.get? r.code <;> rfl
    simp only [hat]
    exact hfollows.follows_toDocument
  · -- the rules that declare no parameters are kept, the others are there anyway
    have hkeys : (Document.partFields (c.toDocument.field? "params")).map Prod.fst =
        paramKeys rules d := by
      rw [← hc.order]
      exact List.map_map
    have hdeclaring : (declaring rules).filter (· ∉ declaring rules) = [] :=
      List.filter_eq_nil_iff.2 fun code hcode => by simpa using hcode
    rw [paramKeys, hkeys, paramKeys, List.filter_append, hdeclaring, List.nil_append,
      List.filter_filter]
    simp only [Bool.and_self]
    exact hc.order

omit hc in
/-- No rule has parameters twice. -/
theorem nodup_paramKeys (hd : d.HasDistinctKeys) : (paramKeys rules d).Nodup := by
  have hfields : ((Document.partFields (d.field? "params")).map Prod.fst).Nodup := by
    cases hpart : d.field? "params" with
    | none => exact List.nodup_nil
    | some e =>
      cases e with
      | mapping fields => exact hd.of_field hpart [] fields rfl
      | _ => exact List.nodup_nil
  refine (nodup_declaring hr).append (hfields.filter _) fun code hcode hother => ?_
  rw [List.mem_filter, decide_eq_true_eq] at hother
  exact hother.2 hcode

/-- What is written of a configuration has no key twice. -/
theorem hasDistinctKeys_toDocument (hd : d.HasDistinctKeys) : c.toDocument.HasDistinctKeys := by
  have hstates : (c.rules.toDocument fun s => Document.text s.title).HasDistinctKeys :=
    Table.hasDistinctKeys_toDocument (hc.states.keys ▸ hr.codes) fun _ _ _ =>
      Document.hasDistinctKeys_of_fields? rfl
  have hlevels : (c.severity.toDocument fun s => Document.text s.title).HasDistinctKeys :=
    Table.hasDistinctKeys_toDocument (hc.severities.keys ▸ hr.codes) fun _ _ _ =>
      Document.hasDistinctKeys_of_fields? rfl
  have hvalues : (c.params.toDocument Params.toDocument).HasDistinctKeys := by
    refine Table.hasDistinctKeys_toDocument (hc.order ▸ nodup_paramKeys hr hd) fun code ps h => ?_
    obtain ⟨r, hmem, rfl, rfl⟩ := params_of_get? hc h
    exact (hc.values r hmem).hasDistinctKeys_toDocument (hr.params r hmem)
  have hnodup : ["rules", "severity", "params"].Nodup := by decide
  refine Document.hasDistinctKeys_mapping hnodup fun f hf => ?_
  simp only [List.mem_cons, List.not_mem_nil, or_false] at hf
  rcases hf with rfl | rfl | rfl
  · exact hstates
  · exact hlevels
  · exact hvalues

/-- Configurations are determined by what they follow. -/
theorem Follows.unique (hd : d.HasDistinctKeys) {c' : LintConfig} (hc' : Follows rules d c') :
    c = c' := by
  have hstates : c.rules = c'.rules := hc.states.unique hr.codes hc'.states fun r s s' hs hs' =>
    RuleState.title_inj (Document.text.inj (hs.symm.trans hs'))
  have hlevels : c.severity = c'.severity :=
    hc.severities.unique hr.codes hc'.severities fun r s s' hs hs' =>
      Severity.title_inj (Document.text.inj (hs.symm.trans hs'))
  have hvalues : c.params = c'.params := by
    refine Table.ext_get? (hc.order.trans hc'.order.symm) (hc.order ▸ nodup_paramKeys hr hd)
      fun code hcode => ?_
    obtain ⟨ps, hps⟩ := Table.mem_keys_iff.1 hcode
    rw [hc.order, ← hc'.order] at hcode
    obtain ⟨qs, hqs⟩ := Table.mem_keys_iff.1 hcode
    obtain ⟨r, hmem, rfl, rfl⟩ := params_of_get? hc hps
    have hsame := Params.Follows.unique (hr.params r hmem) (hc.values r hmem) (hc'.values r hmem)
    rw [hps, hqs, hsame, paramsOf, hqs, Option.getD_some]
  cases c
  cases c'
  congr

/-- **A configuration is read from its own document.** -/
theorem ofDocument_toDocument (hd : d.HasDistinctKeys) :
    ofDocument rules c.toDocument = .ok c := by
  have hkeys := hasDistinctKeys_toDocument hr hc hd
  obtain ⟨c', hread, hc'⟩ := (reads_ofDocument hr hkeys).exists_ok (accepts_toDocument hc)
  rw [hread, Follows.unique hr (follows_toDocument hc) hkeys hc']

end
end
end LintConfig
end RobotSuite
