/-
# Parameters

Rules and passes declare parameters with a type and a default.  A configuration may give
other values of the same type.
-/

import RobotSuite.Config.Fault

namespace RobotSuite

/-- The value of a parameter. -/
inductive ParamValue where
  | number (q : Rat)
  | text (s : String)
  | flag (b : Bool)
  | texts (ss : List String)
deriving Repr, DecidableEq, Inhabited

namespace ParamValue

/-- The type of a value. -/
def type : ParamValue → ParamType
  | number _ => .number
  | text _ => .text
  | flag _ => .flag
  | texts _ => .texts

/-- The value that a document holds for a parameter of some type. -/
def ofDocument? : ParamType → Document → Option ParamValue
  | .number, d => d.number?.map number
  | .text, d => d.text?.map text
  | .flag, d => d.flag?.map flag
  | .texts, d => d.texts?.map texts

/-- A value as a document. -/
def toDocument : ParamValue → Document
  | number q => .number q
  | text s => .text s
  | flag b => .flag b
  | texts ss => .ofTexts ss

/-- A value that is read has the type that was asked for. -/
theorem type_of_ofDocument? {t : ParamType} {d : Document} {v : ParamValue}
    (h : ofDocument? t d = some v) : v.type = t := by
  cases t <;> simp only [ofDocument?, Option.map_eq_some_iff] at h <;>
    obtain ⟨_, _, rfl⟩ := h <;> rfl

end ParamValue

/-- A parameter that a rule or pass declares. -/
structure Param where
  /-- Its name. -/
  name : String
  /-- The value it has unless a configuration says otherwise. -/
  default : ParamValue
  /-- What it is for. -/
  description : String
deriving Repr, DecidableEq, Inhabited

/-- The type of a parameter. -/
def Param.type (p : Param) : ParamType := p.default.type

/-- A table of values by name, in the order of entry. -/
abbrev Table (α : Type) := List (String × α)

namespace Table

/-- Set one entry, in its place if there is one. -/
def set {α : Type} (t : Table α) (key : String) (value : α) : Table α :=
  if t.any fun e => e.1 = key then
    t.map fun e => if e.1 = key then (key, value) else e
  else t ++ [(key, value)]

/-- The entry of a key. -/
def get? {α : Type} (t : Table α) (key : String) : Option α := List.lookup key t

variable {α : Type}

/-- The first entry answers for its key. -/
theorem get?_cons (e : String × α) (t : Table α) (key : String) :
    get? (e :: t) key = if key = e.1 then some e.2 else t.get? key := by
  rw [get?, List.lookup_cons]
  by_cases h : key = e.1
  · simp [h]
  · have hne : (key == e.1) = false := by simp [h]
    simp [h, hne, get?]

/-- Rewriting one key's entry keeps what the others say. -/
theorem get?_map_of_ne (t : Table α) {key other : String} (value : α) (h : other ≠ key) :
    get? (t.map fun e => if e.1 = key then (key, value) else e) other = t.get? other := by
  induction t with
  | nil => rfl
  | cons e t ih =>
    rw [List.map_cons, get?_cons, get?_cons, ih]
    by_cases he : e.1 = key
    · rw [if_pos he, he, if_neg h, if_neg h]
    · rw [if_neg he]

/-- A key is set at its first entry, or behind all. -/
theorem set_cons (e : String × α) (t : Table α) (key : String) (value : α) :
    set (e :: t) key value =
      if e.1 = key then (key, value) :: t.map fun e => if e.1 = key then (key, value) else e
      else e :: t.set key value := by
  by_cases he : e.1 = key
  · simp [set, he]
  · rw [if_neg he, set, set, List.any_cons, decide_eq_false he, Bool.false_or, List.map_cons,
      if_neg he]
    split <;> rfl

/-- An entry that is set is found, and the others are as they were. -/
theorem get?_set (t : Table α) (key other : String) (value : α) :
    (t.set key value).get? other = if other = key then some value else t.get? other := by
  induction t with
  | nil => exact get?_cons (key, value) [] other
  | cons e t ih =>
    rw [set_cons]
    by_cases he : e.1 = key
    · rw [if_pos he, get?_cons]
      by_cases ho : other = key
      · rw [if_pos ho, if_pos ho]
      · rw [if_neg ho, if_neg ho, get?_map_of_ne t value ho, get?_cons, he, if_neg ho]
    · rw [if_neg he, get?_cons, get?_cons, ih]
      by_cases ho : other = key
      · rw [if_pos ho, if_pos ho, if_neg (ho ▸ Ne.symm he)]
      · rw [if_neg ho, if_neg ho]

end Table

/-- Values of parameters by name. -/
abbrev Params := Table ParamValue

namespace Params

/-- A number, unless the table has none of that name. -/
def number (ps : Params) (name : String) (fallback : Rat) : Rat :=
  match ps.get? name with
  | some (.number q) => q
  | _ => fallback

/-- A text, unless the table has none of that name. -/
def text (ps : Params) (name fallback : String) : String :=
  match ps.get? name with
  | some (.text s) => s
  | _ => fallback

/-- A flag, unless the table has none of that name. -/
def flag (ps : Params) (name : String) (fallback : Bool) : Bool :=
  match ps.get? name with
  | some (.flag b) => b
  | _ => fallback

/-- A list of texts, unless the table has none of that name. -/
def texts (ps : Params) (name : String) (fallback : List String) : List String :=
  match ps.get? name with
  | some (.texts ss) => ss
  | _ => fallback

/-- The defaults of some parameters. -/
def defaults (params : List Param) : Params :=
  params.foldl (fun t p => Table.set t p.name p.default) []

/-- The values that a configuration gives, over those of a table. -/
def merge (owner : String) (params : List Param) (base : Params) (values : Document) :
    Except ConfigFault Params := do
  let some fields := values.fields? | throw (.badParams owner)
  fields.foldlM (fun t (name, value) => do
    let some p := params.find? (·.name = name) | throw (.unknownParam owner name)
    let some v := ParamValue.ofDocument? p.type value
      | throw (.mistypedParam owner name p.type)
    pure (Table.set t name v)) base

end Params

end RobotSuite
