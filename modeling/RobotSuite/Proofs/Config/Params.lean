/-
# Values that configurations give

A value of a parameter is written as one document and read from no other
(`ParamValue.ofDocument?_eq_some_iff`), and so are the states and severities of rules.  The
parameters of a rule or pass are read from a mapping when each of its fields names one of them and
has a value of its type; then each has the value of its field, or else its default
(`Params.reads_merge`).
-/

import RobotSuite.Lint.Config
import RobotSuite.Proofs.Config.Tables

namespace RobotSuite

/-! ## One document for each value -/

/-- A list of texts is read of the document that it is written as. -/
theorem Document.texts?_eq_some_iff {d : Document} {ss : List String} :
    d.texts? = some ss ↔ d = .ofTexts ss := by
  have hitems : ∀ (items : List Document) (ss : List String),
      items.mapM Document.text? = some ss ↔ items = ss.map .text := by
    intro items
    induction items with
    | nil => intro ss; cases ss <;> simp
    | cons item items ih =>
      intro ss
      simp only [List.mapM_cons, Option.bind_eq_bind, Option.bind_eq_some_iff, Option.pure_def,
        Option.some.injEq, ih]
      constructor
      · rintro ⟨s, hs, rest, rfl, rfl⟩
        cases item with
        | text => rw [← Option.some.inj hs, List.map_cons]
        | _ => cases hs
      · intro h
        cases ss with
        | nil => cases h
        | cons s ss =>
          obtain ⟨rfl, rfl⟩ := List.cons.inj h
          exact ⟨s, rfl, ss, rfl, rfl⟩
  cases d with
  | list items =>
    rw [texts?, list?, Option.bind_some, hitems, ofTexts, Document.list.injEq]
  | _ => exact ⟨nofun, nofun⟩

/-- A value is read of the document that it is written as, if it has the type. -/
theorem ParamValue.ofDocument?_eq_some_iff {type : ParamType} {d : Document} {v : ParamValue} :
    ofDocument? type d = some v ↔ v.type = type ∧ d = v.toDocument := by
  constructor
  · intro h
    refine ⟨type_of_ofDocument? h, ?_⟩
    cases type with
    | texts =>
      obtain ⟨ss, hss, rfl⟩ := Option.map_eq_some_iff.1 h
      exact Document.texts?_eq_some_iff.1 hss
    | _ => cases d <;> (cases h; try rfl)
  · rintro ⟨rfl, rfl⟩
    cases v with
    | texts ss =>
      exact Option.map_eq_some_iff.2 ⟨ss, Document.texts?_eq_some_iff.2 rfl, rfl⟩
    | _ => rfl

/-- Different values are written differently. -/
theorem ParamValue.toDocument_inj {v w : ParamValue} (h : v.toDocument = w.toDocument) : v = w := by
  have hw : ofDocument? w.type v.toDocument = some w := ofDocument?_eq_some_iff.2 ⟨rfl, h⟩
  have htype : v.type = w.type := by cases v <;> cases w <;> first | rfl | cases h
  exact Option.some.inj ((ofDocument?_eq_some_iff.2 ⟨htype, rfl⟩).symm.trans hw)

/-- No value is written as a mapping. -/
theorem ParamValue.fields?_toDocument (v : ParamValue) : v.toDocument.fields? = none := by
  cases v <;> rfl

/-- A state is read of its title. -/
theorem RuleState.ofTitle?_eq_some_iff {title : String} {s : RuleState} :
    ofTitle? title = some s ↔ title = s.title := by
  constructor
  · intro h
    unfold ofTitle? at h
    split at h <;> cases h <;> rfl
  · rintro rfl
    cases s <;> rfl

/-- Different states have different titles. -/
theorem RuleState.title_inj {s t : RuleState} (h : s.title = t.title) : s = t :=
  Option.some.inj ((ofTitle?_eq_some_iff.2 rfl).symm.trans (ofTitle?_eq_some_iff.2 h))

/-- A severity is read of its title. -/
theorem Severity.ofTitle?_eq_some_iff {title : String} {s : Severity} :
    ofTitle? title = some s ↔ title = s.title := by
  constructor
  · intro h
    unfold ofTitle? at h
    split at h <;> cases h <;> rfl
  · rintro rfl
    cases s <;> rfl

/-- Different severities have different titles. -/
theorem Severity.title_inj {s t : Severity} (h : s.title = t.title) : s = t :=
  Option.some.inj ((ofTitle?_eq_some_iff.2 rfl).symm.trans (ofTitle?_eq_some_iff.2 h))

/-! ## Parts of configurations -/

/-- Whether a fault is reported as one of the configuration. -/
def ConfigFault.IsReported (f : ConfigFault) : Prop := f.failure.kind = .config

/-- A part of a configuration that is absent, or a mapping whose fields are all acceptable. -/
structure Document.IsPart (accepts : String → Document → Prop) (part : Option Document) : Prop where
  mapping : ∀ e, part = some e → e.fields?.isSome = true
  fields : ∀ name e, (part.bind fun d => d.field? name) = some e → accepts name e

/-- A table is written as a part if each of its values is written acceptably. -/
theorem Document.isPart_toDocument {α : Type} {document : α → Document} {t : Table α}
    {accepts : String → Document → Prop}
    (h : ∀ name v, t.get? name = some v → accepts name (document v)) :
    IsPart accepts (some (t.toDocument document)) := by
  refine ⟨fun e he => Option.some.inj he ▸ rfl, fun name e he => ?_⟩
  rw [Option.bind_some, Table.field?_toDocument, Option.map_eq_some_iff] at he
  obtain ⟨v, hv, rfl⟩ := he
  exact h name v hv

/-- The fields of a part. -/
def Document.partFields (part : Option Document) : Table Document :=
  (part.bind Document.fields?).getD []

/-- The fields of a part are those of the mapping, if there is one. -/
theorem Document.get?_partFields (part : Option Document) (name : String) :
    (partFields part).get? name = part.bind fun d => d.field? name := by
  cases part with
  | none => rfl
  | some d => cases d <;> rfl

section
variable {α : Type} (fault : ConfigFault) (part : Option Document)
variable (read : Option α → String × Document → Except ConfigFault α) (base : Table α)

/-- Read the fields of a part over defaults. -/
def readPart : Except ConfigFault (Table α) :=
  match part with
  | none => .ok base
  | some (.mapping fields) => Table.readOver read base fields
  | some _ => .error fault

variable {fault part read base}

/-- **A part is read** when it is a mapping and each of its fields may be read. -/
theorem reads_readPart {accepts : String → Document → Prop} {gives : String → Document → α → Prop}
    {faulty : ConfigFault → Prop} (hkeys : ∀ d, part = some d → d.HasDistinctKeys)
    (hfault : faulty fault)
    (hread : ∀ name e, (part.bind fun d => d.field? name) = some e →
      Reads (accepts name e) (gives name e) faulty (read (base.get? name) (name, e))) :
    Reads (Document.IsPart accepts part) (Table.IsMade base (Document.partFields part) gives) faulty
      (readPart fault part read base) := by
  cases part with
  | none =>
    exact .of_ok ⟨nofun, nofun⟩ ⟨(List.append_nil _).symm, nofun, fun _ _ => rfl⟩
  | some d =>
    cases d with
    | mapping fields =>
      refine (Table.reads_readOver (hkeys _ rfl [] fields rfl) hread).imp ?_ (fun _ _ ht => ht)
        fun _ hf => hf
      constructor
      · intro h
        exact ⟨fun e he => Option.some.inj he ▸ rfl, h⟩
      · intro h
        exact h.fields
    | _ => exact .of_error (fun h => Bool.false_ne_true (h.mapping _ rfl)) hfault

end

/-! ## Parameters -/

namespace Params

/-- Values for some parameters, no more and no fewer, each of its type: what is said of the
parameter, or else its default. -/
def Follows (params : List Param) (said : String → Option Document) (ps : Params) : Prop :=
  Table.IsOver params Param.name
    (fun p v => v.type = p.type ∧ (said p.name).getD p.default.toDocument = v.toDocument) ps

/-- A mapping in which each field names a parameter and has a value of its type. -/
def Accepts (params : List Param) (d : Document) : Prop :=
  Document.IsPart (fun name e => ∃ p ∈ params, p.name = name ∧
    ∃ v : ParamValue, v.type = p.type ∧ e = v.toDocument) (some d)

/-- What a field gives the parameter of its name. -/
def readField (owner : String) (params : List Param) (_ : Option ParamValue)
    (f : String × Document) : Except ConfigFault ParamValue :=
  Table.readNamed params Param.name f.1 (.unknownParam owner f.1) fun p =>
    match ParamValue.ofDocument? p.type f.2 with
    | none => .error (.mistypedParam owner f.1 p.type)
    | some v => .ok v

/-- Values are merged field by field over those that are there. -/
theorem merge_eq (owner : String) (params : List Param) (base : Params) (d : Document) :
    merge owner params base d =
      readPart (.badParams owner) (some d) (readField owner params) base := by
  cases d with
  | mapping fields =>
    refine Table.foldlM_eq_readOver (fun t f => ?_) base fields
    dsimp only [readField, Table.readNamed]
    cases params.find? (·.name = f.1) with
    | none => rfl
    | some p =>
      dsimp only
      cases ParamValue.ofDocument? p.type f.2 <;> rfl
  | _ => rfl

section
variable {owner : String} {params : List Param} {d : Document} {ps : Params}
variable (hp : (params.map (·.name)).Nodup)
include hp

/-- A field is read if a parameter of its name has a value of that type. -/
theorem reads_readField (current : Option ParamValue) (name : String) (e : Document) :
    Reads (∃ p ∈ params, p.name = name ∧ ∃ v : ParamValue, v.type = p.type ∧ e = v.toDocument)
      (fun v => ∀ p ∈ params, p.name = name → v.type = p.type ∧ e = v.toDocument)
      ConfigFault.IsReported (readField owner params current (name, e)) := by
  have hunknown : (ConfigFault.unknownParam owner name).IsReported := rfl
  refine Table.reads_readNamed hp hunknown fun p _ _ => ?_
  dsimp only
  cases hv : ParamValue.ofDocument? p.type e with
  | none =>
    refine .of_error ?_ rfl
    rintro ⟨v, hvalue⟩
    rw [ParamValue.ofDocument?_eq_some_iff.2 hvalue] at hv
    cases hv
  | some v =>
    have hvalue := ParamValue.ofDocument?_eq_some_iff.1 hv
    exact .of_ok ⟨v, hvalue⟩ hvalue

/-- Where nothing is said, the defaults follow. -/
theorem follows_defaults {said : String → Option Document}
    (h : ∀ p ∈ params, said p.name = none) : Follows params said (defaults params) :=
  Table.isOver_foldl_set hp fun p hmem => ⟨rfl, by rw [h p hmem]; rfl⟩

/-- **Parameters are read** when they are acceptable, and then have the values of their fields, or
their defaults. -/
theorem reads_merge (hd : d.HasDistinctKeys) :
    Reads (Accepts params d) (Follows params d.field?) ConfigFault.IsReported
      (merge owner params (defaults params) d) := by
  rw [merge_eq]
  have hfault : (ConfigFault.badParams owner).IsReported := rfl
  refine (reads_readPart (fun e he => Option.some.inj he ▸ hd) hfault fun name e _ =>
    reads_readField hp _ name e).imp Iff.rfl (fun haccepts ps hmade => ?_) fun _ hf => hf
  have hbase : Follows params (fun _ => none) (defaults params) :=
    follows_defaults hp fun _ _ => rfl
  refine hmade.isOver hbase ?_ ?_ ?_
  · intro name e he
    rw [Document.get?_partFields] at he
    obtain ⟨p, hmem, rfl, -⟩ := haccepts.fields name e he
    exact List.mem_map_of_mem hmem
  · intro p hmem e v he hgives
    rw [Document.get?_partFields, Option.bind_some] at he
    obtain ⟨htype, hvalue⟩ := hgives p hmem rfl
    exact ⟨htype, by rw [he]; exact hvalue⟩
  · intro p _ v he hdefault
    rw [Document.get?_partFields, Option.bind_some] at he
    exact ⟨hdefault.1, by rw [he]; exact hdefault.2⟩

/-- Values are determined by what they follow. -/
theorem Follows.unique {said : String → Option Document} {qs : Params}
    (h : Follows params said ps) (h' : Follows params said qs) : ps = qs :=
  Table.IsOver.unique hp h h' fun _ _ _ hv hw => ParamValue.toDocument_inj (hv.2.symm.trans hw.2)

end

/-! ## Values as documents -/

/-- Values of parameters as a document. -/
def toDocument (ps : Params) : Document := Table.toDocument ParamValue.toDocument ps

section
variable {params : List Param} {said : String → Option Document} {ps : Params}
variable (h : Follows params said ps)
include h

/-- Values that follow a document are written acceptably. -/
theorem Follows.accepts_toDocument : Accepts params ps.toDocument := by
  refine Document.isPart_toDocument fun name v hv => ?_
  obtain ⟨p, hmem, rfl, htype, -⟩ := h.of_get? hv
  exact ⟨p, hmem, rfl, v, htype, rfl⟩

/-- Values follow what they are written as. -/
theorem Follows.follows_toDocument : Follows params ps.toDocument.field? ps := by
  refine ⟨h.keys, fun p hmem => ?_⟩
  obtain ⟨v, hv, htype, -⟩ := h.entries p hmem
  exact ⟨v, hv, htype, by rw [toDocument, Table.field?_toDocument, hv]; rfl⟩

/-- Values are written with no key twice. -/
theorem Follows.hasDistinctKeys_toDocument (hp : (params.map (·.name)).Nodup) :
    ps.toDocument.HasDistinctKeys :=
  Table.hasDistinctKeys_toDocument (by rwa [h.keys]) fun _ v _ =>
    Document.hasDistinctKeys_of_fields? v.fields?_toDocument

end
end Params
end RobotSuite
