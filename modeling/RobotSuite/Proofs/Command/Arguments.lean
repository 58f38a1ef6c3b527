/-
# Roles of arguments

A command line is made of parts: flags, options with their values, and files.  There is at most one
way to cut arguments into parts (`CommandPart.reading_unique`), and each that has one is read as the
parts say (`OptionTable.files_of_reading`, `optionValue?_of_reading`, `mem_of_reading`).

The files are found in one scan, and the value of each option is looked up in another, which sees
only the first place where the option stands.  So when arguments are read, it is known of the first
place that a value follows that fits, and of the other places nothing.  Where options that are given
again have such values too, the arguments have a reading (`exists_reading`), and what is read is
what its parts say (`command_lines_read_once`); where they have not, there is none
(`repeated_option_misread`).
-/

import Mathlib.Logic.ExistsUnique
import RobotSuite.Command.Arguments
import RobotSuite.Proofs.Data.Outcomes

namespace RobotSuite

/-- A part of a command line. -/
inductive CommandPart where
  | flag (name : String)
  | option (name value : String)
  | file (path : String)
deriving Repr, DecidableEq

namespace CommandPart

/-- The arguments that a part takes. -/
def arguments : CommandPart → List String
  | flag name => [name]
  | option name value => [name, value]
  | file path => [path]

/-- The file that a part names. -/
def file? : CommandPart → Option String
  | file path => some path
  | _ => none

/-- The value that a part gives an option. -/
def valueOf? (name : String) : CommandPart → Option String
  | option n value => if n = name then some value else none
  | _ => none

/-- Whether a part fits a table of options.  `takes` says which values an option takes. -/
def Fits (t : OptionTable) (takes : String → String → Bool) : CommandPart → Prop
  | flag name => name ∈ t.flags
  | option name value =>
    name ∈ t.valued ∧ OptionTable.isOption value = false ∧ takes name value = true
  | file path => OptionTable.isOption path = false

instance (t : OptionTable) (takes : String → String → Bool) :
    (p : CommandPart) → Decidable (p.Fits t takes)
  | flag name => inferInstanceAs (Decidable (name ∈ t.flags))
  | option name value => inferInstanceAs (Decidable (name ∈ t.valued ∧
    OptionTable.isOption value = false ∧ takes name value = true))
  | file path => inferInstanceAs (Decidable (OptionTable.isOption path = false))

/-- The files that some parts name. -/
def files (parts : List CommandPart) : List String := parts.filterMap file?

/-- The value that some parts give an option; the first counts. -/
def value? (name : String) (parts : List CommandPart) : Option String :=
  parts.findSome? (valueOf? name)

/-- Arguments cut into parts that fit. -/
structure IsReading (t : OptionTable) (takes : String → String → Bool) (args : List String)
    (parts : List CommandPart) : Prop where
  arguments : parts.flatMap CommandPart.arguments = args
  fits : ∀ p ∈ parts, p.Fits t takes

end CommandPart

/-- A table in which options start with a dash, and none both stands alone and takes a value. -/
structure OptionTable.IsPlain (t : OptionTable) : Prop where
  flags : ∀ name ∈ t.flags, isOption name = true ∧ name ∉ t.valued
  valued : ∀ name ∈ t.valued, isOption name = true

section
variable {t : OptionTable} {takes : String → String → Bool}

open CommandPart OptionTable

/-! ## Looking at the first argument -/

/-- The options of a table are its flags and those with values. -/
theorem knows_iff {name : String} : t.knows name = true ↔ name ∈ t.flags ∨ name ∈ t.valued := by
  simp [knows]

/-- An argument that is no option is a file. -/
theorem files_cons_of_file {argument : String} (h : isOption argument = false)
    (rest : List String) : t.files (argument :: rest) = (argument :: ·) <$> t.files rest := by
  cases rest with
  | nil => simp [OptionTable.files, h]
  | cons next rest => simp [OptionTable.files, h]

/-- A flag is passed over when files are looked for. -/
theorem files_cons_of_flag (ht : t.IsPlain) {name : String} (h : name ∈ t.flags)
    (rest : List String) : t.files (name :: rest) = t.files rest := by
  obtain ⟨hoption, hvalued⟩ := ht.flags name h
  have hknown : t.knows name = true := knows_iff.2 (.inl h)
  cases rest with
  | nil => simp [OptionTable.files, hoption, hknown]
  | cons next rest => simp [OptionTable.files, hoption, hknown, hvalued]

/-- An option is passed over together with its value. -/
theorem files_cons_of_option (ht : t.IsPlain) {name : String} (h : name ∈ t.valued)
    (value : String) (rest : List String) : t.files (name :: value :: rest) = t.files rest := by
  have hknown : t.knows name = true := knows_iff.2 (.inr h)
  simp [OptionTable.files, ht.valued name h, hknown, h]

/-- Another argument in front does not change the value of an option. -/
theorem optionValue?_cons_of_ne {name argument : String} (h : argument ≠ name)
    (rest : List String) : optionValue? name (argument :: rest) = optionValue? name rest := by
  cases rest <;> simp [optionValue?, h]

/-- The first occurrence of an option tells its value. -/
theorem optionValue?_cons_self {name value : String} (h : isOption value = false)
    (rest : List String) : optionValue? name (name :: value :: rest) = .ok (some value) := by
  simp [optionValue?, h]
  rfl

/-! ## What parts say -/

/-- A reading is a first part and a reading of what is left. -/
theorem isReading_cons {p : CommandPart} {parts : List CommandPart} {args : List String} :
    IsReading t takes args (p :: parts) ↔ ∃ rest, args = p.arguments ++ rest ∧ p.Fits t takes ∧
      IsReading t takes rest parts := by
  constructor
  · rintro ⟨rfl, hfits⟩
    obtain ⟨hp, hrest⟩ := List.forall_mem_cons.1 hfits
    exact ⟨_, List.flatMap_cons, hp, rfl, hrest⟩
  · rintro ⟨rest, rfl, hp, rfl, hrest⟩
    exact ⟨List.flatMap_cons, List.forall_mem_cons.2 ⟨hp, hrest⟩⟩

/-- Nothing is read as no parts. -/
theorem isReading_nil {args : List String} : IsReading t takes args [] ↔ args = [] :=
  ⟨fun h => h.arguments.symm, fun h => ⟨h.symm, List.forall_mem_nil _⟩⟩

/-- The first argument says what kind of part it belongs to. -/
theorem CommandPart.Fits.eq_of_append (ht : t.IsPlain) {p q : CommandPart} (hp : p.Fits t takes)
    (hq : q.Fits t takes) {rest rest' : List String}
    (h : p.arguments ++ rest = q.arguments ++ rest') : p = q ∧ rest = rest' := by
  cases p with
  | flag name =>
    obtain ⟨hoption, hvalued⟩ := ht.flags name hp
    cases q with
    | flag other => simpa [arguments] using h
    | option other value => exact absurd ((List.cons.inj h).1 ▸ hq.1) hvalued
    | file path => exact absurd ((List.cons.inj h).1 ▸ hq) (by simp [Fits, hoption])
  | option name value =>
    have hoption := ht.valued name hp.1
    cases q with
    | flag other => exact absurd hp.1 ((List.cons.inj h).1 ▸ (ht.flags other hq).2)
    | option other value' => simpa [arguments, and_assoc] using h
    | file path => exact absurd ((List.cons.inj h).1 ▸ hq) (by simp [Fits, hoption])
  | file path =>
    have hfile : isOption path = false := hp
    cases q with
    | flag other =>
      exact absurd ((List.cons.inj h).1 ▸ hfile) (by simp [(ht.flags other hq).1])
    | option other value =>
      exact absurd ((List.cons.inj h).1 ▸ hfile) (by simp [ht.valued other hq.1])
    | file other => simpa [arguments] using h

/-- **Arguments are cut into parts in one way.** -/
theorem CommandPart.reading_unique (ht : t.IsPlain) {args : List String} {a b : List CommandPart}
    (ha : IsReading t takes args a) (hb : IsReading t takes args b) : a = b := by
  induction a generalizing args b with
  | nil =>
    obtain rfl := isReading_nil.1 ha
    cases b with
    | nil => rfl
    | cons q b =>
      obtain ⟨rest, hargs, -, -⟩ := isReading_cons.1 hb
      cases q <;> cases hargs
  | cons p a ih =>
    obtain ⟨rest, rfl, hp, hrest⟩ := isReading_cons.1 ha
    cases b with
    | nil => cases p <;> cases isReading_nil.1 hb
    | cons q b =>
      obtain ⟨rest', hargs, hq, hrest'⟩ := isReading_cons.1 hb
      obtain ⟨rfl, rfl⟩ := hp.eq_of_append ht hq hargs
      rw [ih hrest hrest']

/-- The files of a command line are those of its parts. -/
theorem OptionTable.files_of_reading (ht : t.IsPlain) {args : List String}
    {parts : List CommandPart} (h : IsReading t takes args parts) :
    t.files args = .ok (CommandPart.files parts) := by
  induction parts generalizing args with
  | nil => rw [isReading_nil.1 h]; rfl
  | cons p parts ih =>
    obtain ⟨rest, rfl, hp, hrest⟩ := isReading_cons.1 h
    have hfiles := ih hrest
    cases p with
    | flag name => exact (files_cons_of_flag ht hp rest).trans hfiles
    | option name value => exact (files_cons_of_option ht hp.1 value rest).trans hfiles
    | file path => exact (files_cons_of_file hp rest).trans (by rw [hfiles]; rfl)

/-- The value of an option is the one that the first of its parts gives. -/
theorem optionValue?_of_reading (ht : t.IsPlain) {name : String} (hname : name ∈ t.valued)
    {args : List String} {parts : List CommandPart} (h : IsReading t takes args parts) :
    optionValue? name args = .ok (value? name parts) := by
  have hoption := ht.valued name hname
  induction parts generalizing args with
  | nil => rw [isReading_nil.1 h]; rfl
  | cons p parts ih =>
    obtain ⟨rest, rfl, hp, hrest⟩ := isReading_cons.1 h
    have hvalue := ih hrest
    cases p with
    | flag other =>
      have hne : other ≠ name := fun heq => (ht.flags other hp).2 (heq ▸ hname)
      exact (optionValue?_cons_of_ne hne rest).trans hvalue
    | option other value =>
      by_cases heq : other = name
      · subst heq
        exact (optionValue?_cons_self hp.2.1 rest).trans (by simp [value?, valueOf?])
      · have hne : value ≠ name := fun heq => by simp [heq ▸ hp.2.1] at hoption
        have hskip : value? name (.option other value :: parts) = value? name parts := by
          simp [value?, valueOf?, heq]
        rw [hskip]
        exact (optionValue?_cons_of_ne heq _).trans
          ((optionValue?_cons_of_ne hne rest).trans hvalue)
    | file path =>
      have hne : path ≠ name := fun heq => by
        have hfile : isOption path = false := hp
        simp [heq ▸ hfile] at hoption
      exact (optionValue?_cons_of_ne hne rest).trans hvalue

/-- A flag stands among the arguments when it is one of the parts. -/
theorem mem_of_reading (ht : t.IsPlain) {name : String} (hname : name ∈ t.flags)
    {args : List String} {parts : List CommandPart} (h : IsReading t takes args parts) :
    name ∈ args ↔ .flag name ∈ parts := by
  obtain ⟨hoption, hvalued⟩ := ht.flags name hname
  rw [← h.arguments, List.mem_flatMap]
  constructor
  · rintro ⟨p, hp, hmem⟩
    have hfits := h.fits p hp
    cases p with
    | flag other => rwa [List.mem_singleton.1 hmem]
    | option other value =>
      rcases List.mem_cons.1 hmem with rfl | hmem
      · exact absurd hfits.1 hvalued
      · simp [List.mem_singleton.1 hmem ▸ hfits.2.1] at hoption
    | file path =>
      have hfile : isOption path = false := hfits
      simp [List.mem_singleton.1 hmem ▸ hfile] at hoption
  · exact fun hmem => ⟨_, hmem, List.mem_singleton_self _⟩

/-! ## Finding parts -/

/-- Whether a value that an option takes stands behind it. -/
def IsFollowed (takes : String → String → Bool) (name : String) (behind : List String) : Prop :=
  ∃ value rest, behind = value :: rest ∧ isOption value = false ∧ takes name value = true

/-- Arguments in which a value stands behind each place of an option that needs one. -/
def HasValues (t : OptionTable) (takes : String → String → Bool) (args : List String) : Prop :=
  ∀ front name behind, args = front ++ name :: behind → name ∈ t.valued →
    IsFollowed takes name behind

/-- Arguments in which a value stands behind each place but the first of an option that needs
one. -/
def RepeatsValues (t : OptionTable) (takes : String → String → Bool) (args : List String) : Prop :=
  ∀ front name behind, args = front ++ name :: behind → name ∈ t.valued → name ∈ front →
    IsFollowed takes name behind

/-- What holds of all repeated options holds behind the first argument. -/
theorem HasValues.tail {argument : String} {rest : List String}
    (h : HasValues t takes (argument :: rest)) : HasValues t takes rest :=
  fun front name behind heq => h (argument :: front) name behind (by rw [heq, List.cons_append])

/-- When each option has its value, arguments can be cut into parts. -/
theorem exists_reading {args files : List String} (h : t.files args = .ok files)
    (hvalues : HasValues t takes args) : ∃ parts, IsReading t takes args parts := by
  fun_induction OptionTable.files t args generalizing files with
  | case1 => exact ⟨[], isReading_nil.2 rfl⟩
  | case2 argument hfile =>
    have hpart : Fits t takes (.file argument) := by simpa [Fits] using hfile
    exact ⟨[.file argument], isReading_cons.2 ⟨[], rfl, hpart, isReading_nil.2 rfl⟩⟩
  | case3 argument hoption hknown =>
    rcases knows_iff.1 hknown with hflag | hvalued
    · exact ⟨[.flag argument], isReading_cons.2 ⟨[], rfl, hflag, isReading_nil.2 rfl⟩⟩
    · obtain ⟨value, rest, hnone, -⟩ := hvalues [] argument [] rfl hvalued
      cases hnone
  | case4 => cases h
  | case5 argument next rest hfile ih =>
    have hpart : Fits t takes (.file argument) := by simpa [Fits] using hfile
    obtain ⟨found, hfound, -⟩ := bind_eq_ok h
    obtain ⟨parts, hparts⟩ := ih hfound hvalues.tail
    exact ⟨.file argument :: parts, isReading_cons.2 ⟨_, rfl, hpart, hparts⟩⟩
  | case6 => cases h
  | case7 argument next rest hoption hknown hvalued ih =>
    rw [List.contains_iff_mem] at hvalued
    obtain ⟨value, rest, hbehind, hvalue, htakes⟩ := hvalues [] argument _ rfl hvalued
    obtain ⟨rfl, rfl⟩ := List.cons.inj hbehind
    obtain ⟨parts, hparts⟩ := ih h hvalues.tail.tail
    exact ⟨.option argument next :: parts,
      isReading_cons.2 ⟨_, rfl, ⟨hvalued, hvalue, htakes⟩, hparts⟩⟩
  | case8 argument next rest hoption hknown hvalued ih =>
    rw [List.contains_iff_mem] at hvalued
    rw [Bool.not_eq_true, Bool.not_eq_false'] at hknown
    have hflag : argument ∈ t.flags := (knows_iff.1 hknown).resolve_right hvalued
    obtain ⟨parts, hparts⟩ := ih h hvalues.tail
    exact ⟨.flag argument :: parts, isReading_cons.2 ⟨_, rfl, hflag, hparts⟩⟩

/-- Looking an option up says of its first place whether a value stands behind it. -/
theorem HasValues.of_repeats {args : List String} (hrepeats : RepeatsValues t takes args)
    (hfirst : ∀ name ∈ t.valued, ∃ found, optionValue? name args = .ok found ∧
      ∀ value ∈ found, takes name value = true) : HasValues t takes args := by
  intro front name behind hargs hname
  by_cases hagain : name ∈ front
  · exact hrepeats front name behind hargs hname hagain
  obtain ⟨found, hfound, htakes⟩ := hfirst name hname
  have hskip : optionValue? name args = optionValue? name (name :: behind) := by
    rw [hargs]
    clear hargs
    induction front with
    | nil => rfl
    | cons argument front ih =>
      obtain ⟨hne, hfront⟩ := not_or.1 (fun h => hagain (List.mem_cons.2 h))
      rw [List.cons_append, optionValue?_cons_of_ne (Ne.symm hne), ih hfront]
  rw [hskip] at hfound
  cases behind with
  | nil => simp [optionValue?] at hfound
  | cons value rest =>
    cases hoption : isOption value with
    | true => simp [optionValue?, hoption] at hfound
    | false =>
      rw [optionValue?_cons_self hoption] at hfound
      exact ⟨value, rest, rfl, hoption, htakes value (Except.ok.inj hfound).symm⟩

/-- Options among parts have their values. -/
theorem hasValues_of_reading (ht : t.IsPlain) {args : List String} {parts : List CommandPart}
    (h : IsReading t takes args parts) : HasValues t takes args := by
  induction parts generalizing args with
  | nil =>
    intro front name behind hargs
    rw [isReading_nil.1 h] at hargs
    cases front <;> cases hargs
  | cons p parts ih =>
    obtain ⟨rest, rfl, hp, hrest⟩ := isReading_cons.1 h
    have hvalues := ih hrest
    intro front name behind hargs hname
    have hoption := ht.valued name hname
    cases p with
    | flag other =>
      cases front with
      | nil => exact absurd ((List.cons.inj hargs).1 ▸ hname) (ht.flags other hp).2
      | cons x front => exact hvalues front name behind (List.cons.inj hargs).2 hname
    | option other value =>
      have hvalue := hp.2.1
      cases front with
      | nil =>
        obtain ⟨rfl, rfl⟩ := List.cons.inj hargs
        exact ⟨value, rest, rfl, hp.2⟩
      | cons x front =>
        have hargs := (List.cons.inj hargs).2
        cases front with
        | nil =>
          rw [(List.cons.inj hargs).1, hoption] at hvalue
          cases hvalue
        | cons y front => exact hvalues front name behind (List.cons.inj hargs).2 hname
    | file path =>
      have hfile : isOption path = false := hp
      cases front with
      | nil =>
        rw [(List.cons.inj hargs).1, hoption] at hfile
        cases hfile
      | cons x front => exact hvalues front name behind (List.cons.inj hargs).2 hname

/-! ## Values as they are understood -/

/-- An option is read only if it has a value that can be read, or none. -/
theorem readOption_eq_ok {α : Type} {name : String} {read : String → Except ArgumentFault α}
    {args : List String} {found : Option α} (h : readOption name read args = .ok found) :
    ∃ value?, optionValue? name args = .ok value? ∧ ∀ value ∈ value?, (read value).isOk = true := by
  obtain ⟨value?, hvalue, h⟩ := bind_eq_ok h
  refine ⟨value?, hvalue, ?_⟩
  rintro value rfl
  obtain ⟨a, ha, -⟩ := bind_eq_ok h
  rw [ha]
  rfl

/-- The value of an option in a reading is one that the option takes. -/
theorem takes_of_value? {name value : String} {args : List String} {parts : List CommandPart}
    (h : IsReading t takes args parts) (hvalue : value? name parts = some value) :
    takes name value = true := by
  obtain ⟨p, hp, hfound⟩ := List.exists_of_findSome?_eq_some hvalue
  have hfits := h.fits p hp
  cases p with
  | option other v =>
    rw [valueOf?] at hfound
    split at hfound
    · rename_i heq
      rw [← heq, ← Option.some.inj hfound]
      exact hfits.2.2
    · cases hfound
  | _ => cases hfound

/-- An option is understood as the first of its parts says. -/
theorem readOption_of_reading (ht : t.IsPlain) {α : Type} {name : String} (hname : name ∈ t.valued)
    {read : String → Except ArgumentFault α}
    (hread : ∀ value, takes name value = true → (read value).isOk = true) {args : List String}
    {parts : List CommandPart} (h : IsReading t takes args parts) :
    readOption name read args =
      .ok ((value? name parts).bind fun value => (read value).toOption) := by
  rw [readOption, optionValue?_of_reading ht hname h]
  cases hvalue : value? name parts with
  | none => rfl
  | some value =>
    have hok := hread value (takes_of_value? h hvalue)
    cases hresult : read value with
    | error e => rw [hresult] at hok; cases hok
    | ok a => simp [bind, Except.bind, hresult, Except.toOption, pure, Except.pure]

/-- A name is read if it is known. -/
theorem isOk_readName {α : Type} (find? : String → Option α) (fault : String → ArgumentFault)
    (value : String) : (readName find? fault value).isOk = (find? value).isSome := by
  rw [readName]
  cases find? value <;> rfl

/-- What is read is what is known by the name. -/
theorem toOption_readName {α : Type} (find? : String → Option α) (fault : String → ArgumentFault)
    (value : String) : (readName find? fault value).toOption = find? value := by
  rw [readName]
  cases find? value <;> rfl

/-- A command needs files. -/
theorem someFiles_eq_ok_iff {args files : List String} :
    t.someFiles args = .ok files ↔ t.files args = .ok files ∧ files ≠ [] := by
  rw [someFiles, bind_eq_ok_iff]
  constructor
  · rintro ⟨found, hfound, h⟩
    split at h
    · cases h
    · rename_i hne
      obtain rfl := Except.ok.inj h
      exact ⟨hfound, by simpa using hne⟩
  · rintro ⟨hfiles, hne⟩
    exact ⟨files, hfiles, by rw [if_neg (by simpa using hne)]; rfl⟩

/-! ## Readings -/

/-- What parts ask for, when they are those of the arguments, name a file, and hold no flag that
asks for something else. -/
def Asks {α : Type} (t : OptionTable) (takes : String → String → Bool) (others : List String)
    (ofParts : List CommandPart → α) (args : List String) (a : α) (parts : List CommandPart) :
    Prop :=
  IsReading t takes args parts ∧ (∀ name ∈ others, .flag name ∉ parts) ∧
    CommandPart.files parts ≠ [] ∧ a = ofParts parts

/-- **Arguments are read when they have a reading.**  A reader gives what parts say when there are
parts, and when it succeeds there is a file and a value behind the first place of each option. -/
theorem read_iff_asks {α : Type} (ht : t.IsPlain) {others : List String}
    (hothers : ∀ name ∈ others, name ∈ t.flags) {args : List String}
    {result : Except ArgumentFault α}
    {ofParts : List CommandPart → α}
    (hparts : ∀ parts, IsReading t takes args parts → CommandPart.files parts ≠ [] →
      result = .ok (ofParts parts))
    (hresult : ∀ a, result = .ok a → (∃ found, t.someFiles args = .ok found) ∧
      ∀ name ∈ t.valued, ∃ found, optionValue? name args = .ok found ∧
        ∀ value ∈ found, takes name value = true) (a : α) :
    ((∀ name ∈ others, name ∉ args) ∧ result = .ok a) ∧ RepeatsValues t takes args ↔
      ∃! parts, Asks t takes others ofParts args a parts := by
  constructor
  · rintro ⟨⟨hnone, hread⟩, hrepeats⟩
    obtain ⟨⟨found, hsome⟩, hfirst⟩ := hresult a hread
    obtain ⟨hfound, hne⟩ := someFiles_eq_ok_iff.1 hsome
    obtain ⟨parts, hreading⟩ := exists_reading hfound (.of_repeats hrepeats hfirst)
    have hfiles : CommandPart.files parts ≠ [] := by
      rwa [← Except.ok.inj (hfound.symm.trans (files_of_reading ht hreading))]
    have ha : a = ofParts parts := Except.ok.inj (hread.symm.trans (hparts parts hreading hfiles))
    refine ⟨parts, ⟨hreading, fun name hname hmem => ?_, hfiles, ha⟩, fun more hmore => ?_⟩
    · exact hnone name hname ((mem_of_reading ht (hothers name hname) hreading).2 hmem)
    · exact reading_unique ht hmore.1 hreading
  · rintro ⟨parts, ⟨hreading, hnone, hfiles, rfl⟩, -⟩
    refine ⟨⟨fun name hname hmem => ?_, hparts parts hreading hfiles⟩, ?_⟩
    · exact hnone name hname ((mem_of_reading ht (hothers name hname) hreading).1 hmem)
    · exact fun front name behind hargs hname _ =>
        hasValues_of_reading ht hreading front name behind hargs hname

end

open CommandPart

/-! ## The checker -/

namespace CheckRequest

/-- No option of the checker is a flag and takes a value too. -/
theorem isPlain_options : options.IsPlain := ⟨by decide, by decide⟩

/-- The values that an option of the checker takes. -/
def takes (name value : String) : Bool :=
  if name = "--format" then (OutputFormat.ofTitle? value).isSome
  else if name = "--threshold" then (Severity.ofTitle? value).isSome
  else (readConcurrency value).isOk

/-- The flags that ask for something else than a check. -/
def otherRequests : List String := ["--help", "-h", "--version", "-v", "--list-rules"]

/-- What parts ask the checker to do. -/
def ofParts (parts : List CommandPart) : CheckArguments :=
  { files := CommandPart.files parts
    fix := decide (.flag "--fix" ∈ parts)
    format := ((value? "--format" parts).bind OutputFormat.ofTitle?).getD .text
    threshold := ((value? "--threshold" parts).bind Severity.ofTitle?).getD .info
    concurrency := (value? "--concurrency" parts).bind fun v => (readConcurrency v).toOption }

variable {args : List String} {parts : List CommandPart}

/-- A command line is a check if nothing else is asked for. -/
theorem read_eq_check_iff {a : CheckArguments} : read args = .ok (.check a) ↔
    (∀ name ∈ otherRequests, name ∉ args) ∧ readArguments args = .ok a := by
  have hasks : (∀ name ∈ otherRequests, name ∉ args) ↔
      asksHelp args = false ∧ asksVersion args = false ∧ args.contains "--list-rules" = false := by
    simp [otherRequests, asksHelp, asksVersion, and_assoc]
  rw [hasks, read]
  cases asksHelp args with
  | true => exact ⟨nofun, nofun⟩
  | false =>
    cases asksVersion args with
    | true => exact ⟨nofun, nofun⟩
    | false =>
      cases args.contains "--list-rules" with
      | true => exact ⟨nofun, nofun⟩
      | false =>
        simp only [Bool.false_eq_true, if_false, map_eq_ok_iff, check.injEq, exists_eq_right,
          true_and]

/-- A command line with a reading and files is read as its parts say. -/
theorem readArguments_of_reading (h : IsReading options takes args parts)
    (hfiles : files parts ≠ []) : readArguments args = .ok (ofParts parts) := by
  have hformat : ∀ value, takes "--format" value = true →
      (readName OutputFormat.ofTitle? .badFormat value).isOk = true := by
    intro value htakes
    rwa [isOk_readName]
  have hthreshold : ∀ value, takes "--threshold" value = true →
      (readName Severity.ofTitle? .badThreshold value).isOk = true := by
    intro value htakes
    rwa [isOk_readName]
  have hconcurrency : ∀ value, takes "--concurrency" value = true →
      (readConcurrency value).isOk = true := fun value htakes => htakes
  have hfix : args.contains "--fix" = decide (CommandPart.flag "--fix" ∈ parts) := by
    rw [Bool.eq_iff_iff, List.contains_iff_mem, decide_eq_true_eq]
    exact mem_of_reading isPlain_options (by decide) h
  rw [readArguments, readOption_of_reading isPlain_options (by decide) hformat h,
    readOption_of_reading isPlain_options (by decide) hthreshold h,
    readOption_of_reading isPlain_options (by decide) hconcurrency h,
    someFiles_eq_ok_iff.2 ⟨OptionTable.files_of_reading isPlain_options h, hfiles⟩, hfix]
  simp only [toOption_readName]
  rfl

/-- When the checker reads arguments, there is a file, and a value that fits behind the first place
of each option. -/
theorem first_of_readArguments {a : CheckArguments} (h : readArguments args = .ok a) :
    (∃ found, options.someFiles args = .ok found) ∧
      ∀ name ∈ options.valued, ∃ found, optionValue? name args = .ok found ∧
        ∀ value ∈ found, takes name value = true := by
  obtain ⟨format, hformat, h⟩ := bind_eq_ok h
  obtain ⟨threshold, hthreshold, h⟩ := bind_eq_ok h
  obtain ⟨found, hfound, h⟩ := bind_eq_ok h
  obtain ⟨concurrency, hconcurrency, -⟩ := bind_eq_ok h
  have hformat := readOption_eq_ok hformat
  have hthreshold := readOption_eq_ok hthreshold
  simp only [isOk_readName] at hformat hthreshold
  refine ⟨⟨found, hfound⟩, ?_⟩
  have hvalued : options.valued = ["--format", "--threshold", "--concurrency"] := rfl
  simp only [hvalued, List.forall_mem_cons]
  exact ⟨hformat, hthreshold, readOption_eq_ok hconcurrency, List.forall_mem_nil _⟩

end CheckRequest

/-! ## The formatter -/

namespace FormatRequest

/-- No option of the formatter is a flag and takes a value too. -/
theorem isPlain_options : options.IsPlain := ⟨by decide, by decide⟩

/-- The values that an option of the formatter takes. -/
def takes (_name value : String) : Bool := (readConcurrency value).isOk

/-- The flags that ask for something else than formatting. -/
def otherRequests : List String := ["--help", "-h", "--version", "-v"]

/-- What parts ask the formatter to do. -/
def ofParts (parts : List CommandPart) : FormatArguments :=
  { files := CommandPart.files parts
    check := decide (.flag "--check" ∈ parts)
    diffOnly := decide (.flag "--diff-only" ∈ parts)
    concurrency := (value? "--concurrency" parts).bind fun v => (readConcurrency v).toOption }

variable {args : List String} {parts : List CommandPart}

/-- A command line is a run of the formatter if nothing else is asked for. -/
theorem read_eq_format_iff {a : FormatArguments} : read args = .ok (.format a) ↔
    (∀ name ∈ otherRequests, name ∉ args) ∧ readArguments args = .ok a := by
  have hasks : (∀ name ∈ otherRequests, name ∉ args) ↔
      asksHelp args = false ∧ asksVersion args = false := by
    simp [otherRequests, asksHelp, asksVersion, and_assoc]
  rw [hasks, read]
  cases asksHelp args with
  | true => exact ⟨nofun, nofun⟩
  | false =>
    cases asksVersion args with
    | true => exact ⟨nofun, nofun⟩
    | false =>
      simp only [Bool.false_eq_true, if_false, map_eq_ok_iff, format.injEq, exists_eq_right,
        true_and]

/-- A command line with a reading and files is read as its parts say. -/
theorem readArguments_of_reading (h : IsReading options takes args parts)
    (hfiles : files parts ≠ []) : readArguments args = .ok (ofParts parts) := by
  have hflag {name : String} (hname : name ∈ options.flags) :
      args.contains name = decide (CommandPart.flag name ∈ parts) := by
    rw [Bool.eq_iff_iff, List.contains_iff_mem, decide_eq_true_eq]
    exact mem_of_reading isPlain_options hname h
  rw [readArguments, someFiles_eq_ok_iff.2 ⟨OptionTable.files_of_reading isPlain_options h, hfiles⟩,
    readOption_of_reading isPlain_options (by decide) (fun value htakes => htakes) h,
    hflag (by decide), hflag (by decide)]
  rfl

/-- When the formatter reads arguments, there is a file, and a value that fits behind the first
place of each option. -/
theorem first_of_readArguments {a : FormatArguments} (h : readArguments args = .ok a) :
    (∃ found, options.someFiles args = .ok found) ∧
      ∀ name ∈ options.valued, ∃ found, optionValue? name args = .ok found ∧
        ∀ value ∈ found, takes name value = true := by
  obtain ⟨found, hfound, h⟩ := bind_eq_ok h
  obtain ⟨concurrency, hconcurrency, -⟩ := bind_eq_ok h
  refine ⟨⟨found, hfound⟩, fun name hname => ?_⟩
  obtain rfl := List.mem_singleton.1 hname
  exact readOption_eq_ok hconcurrency

end FormatRequest

/-! ## Command lines -/

/-- **Command lines are read in one way.**  The checker and the formatter take up files, and a value
that fits stands behind each place but the first of an option, exactly when the arguments can be cut
in one way into flags, options with values that fit, and files, of which there is one.  Then files,
flags and values are those of the parts. -/
theorem command_lines_read_once (args : List String) :
    (∀ a, CheckRequest.read args = .ok (.check a) ∧
        RepeatsValues CheckRequest.options CheckRequest.takes args ↔
      ∃! parts, Asks CheckRequest.options CheckRequest.takes CheckRequest.otherRequests
        CheckRequest.ofParts args a parts) ∧
    (∀ a, FormatRequest.read args = .ok (.format a) ∧
        RepeatsValues FormatRequest.options FormatRequest.takes args ↔
      ∃! parts, Asks FormatRequest.options FormatRequest.takes FormatRequest.otherRequests
        FormatRequest.ofParts args a parts) := by
  constructor
  · intro a
    rw [CheckRequest.read_eq_check_iff]
    exact read_iff_asks CheckRequest.isPlain_options (by decide)
      (fun parts => CheckRequest.readArguments_of_reading)
      (fun a => CheckRequest.first_of_readArguments) a
  · intro a
    rw [FormatRequest.read_eq_format_iff]
    exact read_iff_asks FormatRequest.isPlain_options (by decide)
      (fun parts => FormatRequest.readArguments_of_reading)
      (fun a => FormatRequest.first_of_readArguments) a

/-- An option that is given again with another value. -/
theorem command_lines_read_once_of_two_formats :
    let args := ["--format", "json", "a", "--fix", "--format", "text", "b"]
    CheckRequest.read args = .ok (.check ⟨["a", "b"], true, .json, .info, none⟩) ∧
      RepeatsValues CheckRequest.options CheckRequest.takes args := by
  intro args
  let parts : List CommandPart :=
    [.option "--format" "json", .file "a", .flag "--fix", .option "--format" "text", .file "b"]
  have hreading : IsReading CheckRequest.options CheckRequest.takes args parts :=
    ⟨rfl, by decide⟩
  refine ((command_lines_read_once args).1 _).2 ⟨parts, ⟨hreading, by decide, by decide, rfl⟩, ?_⟩
  exact fun more hmore => reading_unique CheckRequest.isPlain_options hmore.1 hreading

/-- Behind an option that is given again stands a flag, which is taken for its value in one scan and
for a flag in the other. -/
theorem repeated_option_misread :
    let args := ["--concurrency", "2", "--concurrency", "--check", "a.robot"]
    FormatRequest.read args = .ok (.format ⟨["a.robot"], true, false, some 2⟩) ∧
      ¬ ∃ parts, IsReading FormatRequest.options FormatRequest.takes args parts := by
  intro args
  refine ⟨eq_ok_of_toOption (by decide +kernel), fun ⟨parts, hparts⟩ => ?_⟩
  have hvalues := hasValues_of_reading FormatRequest.isPlain_options hparts
  obtain ⟨value, rest, hbehind, hoption, -⟩ := hvalues ["--concurrency", "2"] "--concurrency"
    ["--check", "a.robot"] rfl (by decide)
  rw [← (List.cons.inj hbehind).1] at hoption
  exact absurd hoption (by decide)

end RobotSuite
