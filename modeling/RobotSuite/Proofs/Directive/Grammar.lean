/-
# The grammar of directives

A directive is a number sign, perhaps an owner, `fmt:`, a switch, and perhaps names of passes behind
an equals sign:

    Directive = '#' Blank* (Owner Blank*)? Format Blank* (Off | On) Blank* ('=' Names)?
    Names     = Blank* Name Blank* (',' Blank* Name Blank*)*
    Name      = [A-Za-z_] [A-Za-z0-9_]*

where the words `robolint:`, `fmt:`, `off` and `on` may have letters in any case.  A comment is read
as a directive exactly if it is one of the grammar, and then as what it says there
(`parseDirective_eq_some_iff`).  So what is written is read back (`directives_read`).
-/

import RobotSuite.Directive
import RobotSuite.Text.Units

namespace RobotSuite
namespace Directive

/-! ## The grammar -/

/-- Whether all characters are blank. -/
def Blanks (cs : List Char) : Prop := ∀ c ∈ cs, Text.isBlank c = true

/-- Whether characters spell a word, with letters in any case. -/
def Spells (cs word : List Char) : Prop := cs.map Char.toLower = word

/-- Whether characters make a name. -/
def IsName (cs : List Char) : Prop :=
  ∃ first rest, cs = first :: rest ∧ (first.isAlpha = true ∨ first = '_') ∧
    ∀ c ∈ rest, c.isAlphanum = true ∨ c = '_'

/-- Names with commas between them and blanks around each. -/
inductive Listing : List Char → List (List Char) → Prop
  | one {a name b : List Char} : Blanks a → IsName name → Blanks b →
      Listing (a ++ (name ++ b)) [name]
  | more {a name b cs : List Char} {names : List (List Char)} : Blanks a → IsName name → Blanks b →
      Listing cs names → Listing (a ++ (name ++ b) ++ ',' :: cs) (name :: names)

/-- What stands behind a switch: nothing, or an equals sign and names. -/
inductive Limits : List Char → List (List Char) → Prop
  | every : Limits [] []
  | named {cs : List Char} {names : List (List Char)} : Listing cs names → Limits ('=' :: cs) names

/-- What stands in front of a format: nothing, or an owner. -/
inductive Owner : List Char → Prop
  | nobody : Owner []
  | somebody {word b : List Char} : Spells word "robolint:".toList → Blanks b → Owner (word ++ b)

/-- The word of a switch. -/
def switchWord (enabled : Bool) : List Char := if enabled then ['o', 'n'] else ['o', 'f', 'f']

/-- Texts that switch the passes of some names on or off. -/
inductive Writes (enabled : Bool) (names : List (List Char)) : List Char → Prop
  | mk {a owner format b switch c limits : List Char} : Blanks a → Owner owner →
      Spells format "fmt:".toList → Blanks b → Spells switch (switchWord enabled) → Blanks c →
      Limits limits names →
      Writes enabled names ('#' :: (a ++ (owner ++ (format ++ (b ++ (switch ++ (c ++ limits)))))))

/-- The pass of a name: the name in upper case. -/
def passOf (name : List Char) : String := String.ofList (name.map Char.toUpper)

/-! ## Characters -/

section
variable {c : Char}

/-- What holds of 26 letters, one by one, holds of each character from the first of them to the
last. -/
theorem forall_letters {P : Char → Prop} {first : Nat} (h : ∀ k < 26, P (Char.ofNat (first + k)))
    (hfirst : first ≤ c.toNat) (hlast : c.toNat ≤ first + 25) : P c := by
  have hc := h (c.toNat - first) (by omega)
  rwa [Nat.add_sub_cancel' hfirst, Char.ofNat_toNat] at hc

/-- What is no capital stays in lower case. -/
theorem toLower_eq_self (h : ¬ (65 ≤ c.toNat ∧ c.toNat ≤ 90)) : c.toLower = c := dif_neg h

/-- What is no small letter stays in upper case. -/
theorem toUpper_eq_self (h : ¬ (97 ≤ c.toNat ∧ c.toNat ≤ 122)) : c.toUpper = c := dif_neg h

/-- The lower case of directives is that of ASCII. -/
theorem lowerAscii_eq (c : Char) : lowerAscii c = c.toLower := by
  by_cases h : 65 ≤ c.toNat ∧ c.toNat ≤ 90
  · exact forall_letters (P := fun c => lowerAscii c = c.toLower) (by decide) h.1 h.2
  · rw [toLower_eq_self h, lowerAscii, if_neg]
    rw [Bool.and_eq_true, decide_eq_true_eq, decide_eq_true_eq]
    exact h

/-- The upper case of directives is that of ASCII. -/
theorem upperAscii_eq (c : Char) : upperAscii c = c.toUpper := by
  by_cases h : 97 ≤ c.toNat ∧ c.toNat ≤ 122
  · exact forall_letters (P := fun c => upperAscii c = c.toUpper) (by decide) h.1 h.2
  · rw [toUpper_eq_self h, upperAscii, if_neg]
    rw [Bool.and_eq_true, decide_eq_true_eq, decide_eq_true_eq]
    exact h

/-- A name starts with a letter or an underscore. -/
theorem isNameStart_iff : isNameStart c = true ↔ c.isAlpha = true ∨ c = '_' := by
  by_cases h : 65 ≤ c.toNat ∧ c.toNat ≤ 90
  · exact forall_letters (P := fun c => isNameStart c = true ↔ c.isAlpha = true ∨ c = '_')
      (by decide) h.1 h.2
  · have hupper : c.isUpper = false :=
      Bool.eq_false_iff.2 fun hupper => h (of_decide_eq_true hupper)
    have halpha : c.isAlpha = c.isLower := congrArg (· || c.isLower) hupper
    rw [isNameStart, lowerAscii_eq, toLower_eq_self h, halpha, Bool.or_eq_true, decide_eq_true_eq]
    rfl

/-- A name goes on with letters, digits and underscores. -/
theorem isNameRest_iff : isNameRest c = true ↔ c.isAlphanum = true ∨ c = '_' := by
  rw [isNameRest, Bool.or_eq_true, isNameStart_iff, Char.isAlphanum, Bool.or_eq_true]
  exact or_right_comm

/-- Where blanks are among the characters. -/
theorem isBlank_bounds (h : Text.isBlank c = true) : c.toNat ≤ 32 ∨ 160 ≤ c.toNat := by
  simp only [Text.isBlank, Bool.or_eq_true, Bool.and_eq_true, decide_eq_true_eq] at h
  omega

/-- Where the characters of names are. -/
theorem isNameRest_bounds (h : isNameRest c = true) : 48 ≤ c.toNat ∧ c.toNat ≤ 122 := by
  have hkinds : c.isAlphanum = (c.isUpper || c.isLower || c.isDigit) := rfl
  have hupper : c.isUpper = true → 65 ≤ c.toNat ∧ c.toNat ≤ 90 := of_decide_eq_true
  have hlower : c.isLower = true → 97 ≤ c.toNat ∧ c.toNat ≤ 122 :=
    fun hc => (Bool.and_eq_true_iff.1 hc).imp of_decide_eq_true of_decide_eq_true
  have hdigit : c.isDigit = true → 48 ≤ c.toNat ∧ c.toNat ≤ 57 :=
    fun hc => (Bool.and_eq_true_iff.1 hc).imp of_decide_eq_true of_decide_eq_true
  rw [isNameRest_iff, hkinds, Bool.or_eq_true, Bool.or_eq_true, or_assoc, or_assoc] at h
  obtain h | h | h | rfl := h
  · have := hupper h
    omega
  · have := hlower h
    omega
  · have := hdigit h
    omega
  · decide

/-- No blank is part of a name. -/
theorem not_isBlank_of_isNameRest (h : isNameRest c = true) : Text.isBlank c = false := by
  refine Bool.eq_false_iff.2 fun hblank => ?_
  have hcode := isNameRest_bounds h
  have := isBlank_bounds hblank
  omega

/-- What may start a name may stand in it. -/
theorem isNameRest_of_isNameStart (h : isNameStart c = true) : isNameRest c = true := by
  rw [isNameRest, h, Bool.true_or]

end

/-! ## Words and blanks -/

section
variable {a b cs rest front : List Char} {word : List Char}

/-- A word that is spelled starts with its first letter, in some case. -/
theorem Spells.exists_eq_cons {w : Char} (h : Spells front (w :: word)) :
    ∃ c more, front = c :: more ∧ c.toLower = w ∧ Spells more word := List.map_eq_cons_iff.1 h

/-- A word that is dropped was spelled in front. -/
theorem exists_of_dropWord? (h : dropWord? word cs = some rest) :
    ∃ front, cs = front ++ rest ∧ Spells front word := by
  induction word generalizing cs with
  | nil =>
    obtain rfl : cs = rest := by simpa [dropWord?] using h
    exact ⟨[], rfl, rfl⟩
  | cons w word ih =>
    cases cs with
    | nil => cases h
    | cons c cs =>
      rw [dropWord?] at h
      split at h
      · rename_i hc
        obtain ⟨front, rfl, hfront⟩ := ih h
        rw [lowerAscii_eq] at hc
        exact ⟨c :: front, rfl, List.cons_eq_cons.2 ⟨hc, hfront⟩⟩
      · cases h

/-- A word that is spelled in front is dropped. -/
theorem dropWord?_append (h : Spells front word) (rest : List Char) :
    dropWord? word (front ++ rest) = some rest := by
  induction front generalizing word with
  | nil =>
    obtain rfl : [] = word := h
    rw [List.nil_append, dropWord?]
  | cons c front ih =>
    obtain rfl : c.toLower :: front.map Char.toLower = word := h
    rw [List.cons_append, dropWord?, lowerAscii_eq, if_pos rfl, ih rfl]

/-- A text is some blanks and what is left without them. -/
theorem exists_blanks (cs : List Char) : ∃ b, Blanks b ∧ cs = b ++ Text.trimStart cs :=
  ⟨cs.takeWhile Text.isBlank, List.all_eq_true.1 List.all_takeWhile,
    List.takeWhile_append_dropWhile.symm⟩

/-- Blanks in front go. -/
theorem trimStart_append (h : Blanks b) (rest : List Char) :
    Text.trimStart (b ++ rest) = Text.trimStart rest := List.dropWhile_append_of_pos h

/-- What starts with no blank stays. -/
theorem trimStart_cons {c : Char} (h : Text.isBlank c = false) (rest : List Char) :
    Text.trimStart (c :: rest) = c :: rest :=
  List.dropWhile_cons_of_neg (by rw [h]; exact Bool.false_ne_true)

/-- Blanks end where a word starts. -/
theorem trimStart_word {w : Char} (hb : Blanks b) (h : Spells front (w :: word))
    (hw : Text.isBlank w = false) (rest : List Char) :
    Text.trimStart (b ++ (front ++ rest)) = front ++ rest := by
  obtain ⟨c, more, rfl, hc, -⟩ := h.exists_eq_cons
  have hblank : Text.isBlank c = false := by
    refine Bool.eq_false_iff.2 fun hblank => ?_
    have hcode := isBlank_bounds hblank
    rw [toLower_eq_self (by omega)] at hc
    rw [hc, hw] at hblank
    cases hblank
  rw [trimStart_append hb, List.cons_append, trimStart_cons hblank]

end

/-! ## Names -/

section
variable {a b cs name : List Char} {names : List (List Char)} {passes : List String}

/-- A name is one by its first character and by the others. -/
theorem isName_cons {c : Char} {rest : List Char} :
    IsName (c :: rest) ↔ (isNameStart c && rest.all isNameRest) = true := by
  rw [Bool.and_eq_true, List.all_eq_true, isNameStart_iff]
  constructor
  · rintro ⟨first, more, heq, hfirst, hmore⟩
    obtain ⟨rfl, rfl⟩ := List.cons.inj heq
    exact ⟨hfirst, fun d hd => isNameRest_iff.2 (hmore d hd)⟩
  · exact fun ⟨hfirst, hrest⟩ => ⟨c, rest, rfl, hfirst, fun d hd => isNameRest_iff.1 (hrest d hd)⟩

/-- All characters of a name may stand in names. -/
theorem IsName.isNameRest (h : IsName name) : ∀ c ∈ name, isNameRest c = true := by
  obtain ⟨first, rest, rfl, hfirst, hrest⟩ := h
  exact List.forall_mem_cons.2 ⟨isNameRest_of_isNameStart (isNameStart_iff.2 hfirst),
    fun c hc => isNameRest_iff.2 (hrest c hc)⟩

/-- What stands between the blanks at the ends of a text. -/
theorem exists_around (cs : List Char) :
    ∃ a b, Blanks a ∧ Blanks b ∧ cs = a ++ (Text.trimBlank cs ++ b) := by
  obtain ⟨a, ha, hcut⟩ := exists_blanks (Text.trimEnd cs)
  refine ⟨a, Text.takeEndWhile Text.isBlank cs, ha,
    List.all_eq_true.1 (Text.all_takeEndWhile Text.isBlank cs), ?_⟩
  rw [← List.append_assoc, Text.trimBlank, ← hcut]
  exact (Text.dropEndWhile_append_takeEndWhile Text.isBlank cs).symm

/-- A name among blanks is what is left without them. -/
theorem trimBlank_name (ha : Blanks a) (h : IsName name) (hb : Blanks b) :
    Text.trimBlank (a ++ (name ++ b)) = name := by
  have hclear : ∀ c ∈ name, Text.isBlank c = false :=
    fun c hc => not_isBlank_of_isNameRest (h.isNameRest c hc)
  obtain ⟨first, rest, rfl, -⟩ := h
  have hlast : ∀ c ∈ (a ++ first :: rest).getLast?, Text.isBlank c = false := by
    rw [List.getLast?_append, List.getLast?_cons, Option.some_or, ← List.getLast?_cons]
    exact fun c hc => hclear c (List.mem_of_getLast? hc)
  have hend : Text.trimEnd (a ++ (first :: rest ++ b)) = a ++ first :: rest := by
    rw [← List.append_assoc, Text.trimEnd,
      (Text.endWhile_append_of_all (List.all_eq_true.2 hb) _).2]
    have hnone := (Text.endWhile_append hlast []).2
    rw [List.append_nil] at hnone
    rw [hnone]
    exact List.append_nil _
  rw [Text.trimBlank, hend, trimStart_append ha, trimStart_cons (hclear first List.mem_cons_self)]

/-- A pass is read of a name among blanks. -/
theorem passName?_eq_some_iff {pass : String} : passName? cs = some pass ↔
    ∃ a name b, cs = a ++ (name ++ b) ∧ Blanks a ∧ IsName name ∧ Blanks b ∧ pass = passOf name := by
  have hupper (name : List Char) : String.ofList (name.map upperAscii) = passOf name := by
    rw [passOf, funext upperAscii_eq]
  constructor
  · intro h
    obtain ⟨a, b, ha, hb, hcs⟩ := exists_around cs
    rw [passName?] at h
    cases hname : Text.trimBlank cs with
    | nil =>
      rw [hname] at h
      cases h
    | cons c rest =>
      simp only [hname] at h
      split at h
      · rename_i hvalid
        rw [hupper] at h
        rw [hname] at hcs
        exact ⟨a, c :: rest, b, hcs, ha, isName_cons.2 hvalid, hb, (Option.some.inj h).symm⟩
      · cases h
  · rintro ⟨a, name, b, rfl, ha, hname, hb, rfl⟩
    rw [passName?, trimBlank_name ha hname hb]
    obtain ⟨first, rest, rfl, -⟩ := id hname
    dsimp only
    rw [if_pos (isName_cons.1 hname), hupper]

/-- No comma is part of a name or of the blanks around it. -/
theorem comma_notMem (ha : Blanks a) (h : IsName name) (hb : Blanks b) :
    ',' ∉ a ++ (name ++ b) := by
  intro hmem
  obtain hmem | hmem | hmem := (List.mem_append.1 hmem).imp_right List.mem_append.1
  · exact absurd (ha _ hmem) (by decide)
  · exact absurd (h.isNameRest _ hmem) (by decide)
  · exact absurd (hb _ hmem) (by decide)

/-- Each name of a list is read. -/
theorem mapM_of_listing (h : Listing cs names) :
    (Text.splitOn ',' cs).mapM passName? = some (names.map passOf) := by
  induction h with
  | one ha hname hb =>
    rw [Text.splitOn_of_not_mem (comma_notMem ha hname hb), List.mapM_cons,
      passName?_eq_some_iff.2 ⟨_, _, _, rfl, ha, hname, hb, rfl⟩]
    rfl
  | more ha hname hb _ ih =>
    rw [Text.splitOn_append_sep, Text.splitOn_of_not_mem (comma_notMem ha hname hb),
      List.singleton_append, List.mapM_cons, ih,
      passName?_eq_some_iff.2 ⟨_, _, _, rfl, ha, hname, hb, rfl⟩]
    rfl

/-- Pieces that name passes make a listing when commas are put between them. -/
theorem listing_of_mapM {pieces : List (List Char)} (hne : pieces ≠ [])
    (h : pieces.mapM passName? = some passes) :
    ∃ names, Listing ([','].intercalate pieces) names ∧ passes = names.map passOf := by
  induction pieces generalizing passes with
  | nil => exact absurd rfl hne
  | cons piece pieces ih =>
    rw [List.mapM_cons] at h
    simp only [Option.bind_eq_bind, Option.bind_eq_some_iff] at h
    obtain ⟨pass, hpass, more, hmore, heq⟩ := h
    obtain rfl : pass :: more = passes := Option.some.inj heq
    obtain ⟨a, name, b, rfl, ha, hname, hb, rfl⟩ := passName?_eq_some_iff.1 hpass
    cases pieces with
    | nil =>
      obtain rfl : [] = more := Option.some.inj hmore
      rw [List.intercalate_singleton]
      exact ⟨[name], .one ha hname hb, rfl⟩
    | cons next pieces =>
      obtain ⟨names, hnames, rfl⟩ := ih (List.cons_ne_nil _ _) hmore
      rw [List.intercalate_cons_cons, List.append_assoc, List.singleton_append]
      exact ⟨name :: names, .more ha hname hb hnames, rfl⟩

/-- Passes are read of a list of names behind an equals sign, or of nothing. -/
theorem passes?_eq_some_iff : passes? cs = some passes ↔
    ∃ names, Limits cs names ∧ passes = names.map passOf := by
  constructor
  · intro h
    unfold passes? at h
    split at h
    · obtain rfl : [] = passes := Option.some.inj h
      exact ⟨[], .every, rfl⟩
    · rename_i cs
      obtain ⟨names, hnames, hpasses⟩ := listing_of_mapM (Text.splitOn_ne_nil ',' cs) h
      rw [Text.intercalate_splitOn] at hnames
      exact ⟨names, .named hnames, hpasses⟩
    · cases h
  · rintro ⟨names, hlimits, rfl⟩
    cases hlimits with
    | every => rfl
    | named hnames => exact mapM_of_listing hnames

end

/-! ## Switches and owners -/

section
variable {b cs front rest : List Char}

/-- A number sign is spelled in one way. -/
theorem eq_numberSign (h : Spells front ['#']) : front = ['#'] := by
  obtain ⟨c, more, rfl, hc, hmore⟩ := h.exists_eq_cons
  obtain rfl : more = [] := List.map_eq_nil_iff.1 hmore
  by_cases hupper : 65 ≤ c.toNat ∧ c.toNat ≤ 90
  · have hne := forall_letters (P := fun c => c.toLower ≠ '#') (by decide) hupper.1 hupper.2
    exact absurd hc hne
  · rw [← hc, toLower_eq_self hupper]

/-- A switch is read of its word. -/
theorem switch?_eq_some_iff {enabled : Bool} : switch? cs = some (enabled, rest) ↔
    ∃ front, cs = front ++ rest ∧ Spells front (switchWord enabled) := by
  rw [switch?, Option.orElse_eq_orElse]
  constructor
  · cases hoff : dropWord? ['o', 'f', 'f'] cs with
    | some more =>
      intro h
      obtain ⟨rfl, rfl⟩ : false = enabled ∧ more = rest := by simpa using h
      exact exists_of_dropWord? hoff
    | none =>
      cases hon : dropWord? ['o', 'n'] cs with
      | some more =>
        intro h
        obtain ⟨rfl, rfl⟩ : true = enabled ∧ more = rest := by simpa using h
        exact exists_of_dropWord? hon
      | none =>
        intro h
        cases h
  · rintro ⟨front, rfl, hfront⟩
    cases enabled with
    | false =>
      rw [dropWord?_append (show Spells front ['o', 'f', 'f'] from hfront)]
      rfl
    | true =>
      -- the second letter tells the words apart
      have hnone : dropWord? ['o', 'f', 'f'] (front ++ rest) = none := by
        obtain ⟨c, more, rfl, hc, hmore⟩ := Spells.exists_eq_cons hfront
        obtain ⟨d, last, rfl, hd, -⟩ := hmore.exists_eq_cons
        rw [List.cons_append, List.cons_append, dropWord?, lowerAscii_eq, if_pos hc, dropWord?,
          lowerAscii_eq, hd]
        rfl
      rw [hnone, dropWord?_append (show Spells front ['o', 'n'] from hfront)]
      rfl

/-- A text is perhaps an owner and what is left without it. -/
theorem exists_owner (cs : List Char) : ∃ owner, Owner owner ∧ cs = owner ++ dropOwner cs := by
  rw [dropOwner]
  cases hrest : dropWord? "robolint:".toList cs with
  | none => exact ⟨[], .nobody, rfl⟩
  | some rest =>
    obtain ⟨word, rfl, hword⟩ := exists_of_dropWord? hrest
    obtain ⟨b, hb, hcut⟩ := exists_blanks rest
    refine ⟨word ++ b, .somebody hword hb, ?_⟩
    rw [List.append_assoc]
    exact congrArg (word ++ ·) hcut

/-- An owner and the blanks around it are dropped in front of a format. -/
theorem dropOwner_append {owner format : List Char} (hb : Blanks b) (ho : Owner owner)
    (hf : Spells format "fmt:".toList) (rest : List Char) :
    dropOwner (Text.trimStart (b ++ (owner ++ (format ++ rest)))) = format ++ rest := by
  cases ho with
  | nobody =>
    have hnone : dropWord? "robolint:".toList (format ++ rest) = none := by
      obtain ⟨c, more, rfl, hc, -⟩ := Spells.exists_eq_cons hf
      show dropWord? ('r' :: "obolint:".toList) (c :: (more ++ rest)) = none
      rw [dropWord?, lowerAscii_eq, hc]
      rfl
    rw [List.nil_append, trimStart_word hb hf rfl, dropOwner, hnone]
    rfl
  | @somebody word gap hword hgap =>
    rw [List.append_assoc, trimStart_word hb hword rfl, dropOwner, dropWord?_append hword]
    show Text.trimStart (gap ++ (format ++ rest)) = _
    rw [trimStart_word hgap hf rfl]

/-- Blanks in front of names go. -/
theorem trimStart_limits {limits : List Char} {names : List (List Char)} (hb : Blanks b)
    (h : Limits limits names) : Text.trimStart (b ++ limits) = limits := by
  rw [trimStart_append hb]
  cases h with
  | every => rfl
  | named _ => exact trimStart_cons rfl _

end

end Directive

/-! ## Directives -/

open Directive

/-- **Exactly the texts of the grammar are directives**, and they say what is written there. -/
theorem parseDirective_eq_some_iff {comment : String} {d : Directive} :
    parseDirective comment = some d ↔
      ∃ names, Writes d.enabled names comment.toList ∧ d.passes = names.map passOf := by
  rw [parseDirective]
  simp only [Option.bind_eq_bind, Option.bind_eq_some_iff, Option.pure_def, Option.some_inj]
  constructor
  · rintro ⟨body, hbody, rest, hrest, ⟨enabled, more⟩, hswitch, passes, hpasses, rfl⟩
    obtain ⟨sign, hcomment, hsign⟩ := exists_of_dropWord? hbody
    obtain ⟨a, ha, hafter⟩ := exists_blanks body
    obtain ⟨owner, howner, hbehind⟩ := exists_owner (Text.trimStart body)
    obtain ⟨format, hformat, hspells⟩ := exists_of_dropWord? hrest
    obtain ⟨b, hb, hgap⟩ := exists_blanks rest
    obtain ⟨switch, hsplit, hon⟩ := switch?_eq_some_iff.1 hswitch
    obtain ⟨c, hc, hend⟩ := exists_blanks more
    obtain ⟨names, hlimits, hnames⟩ := passes?_eq_some_iff.1 hpasses
    have hwritten : body = a ++ (owner ++ (format ++ (b ++ (switch ++
        (c ++ Text.trimStart more))))) := by
      rw [← hend, ← hsplit, ← hgap, ← hformat, ← hbehind, ← hafter]
    rw [hcomment, eq_numberSign hsign, List.singleton_append, hwritten]
    exact ⟨names, .mk ha howner hspells hb hon hc hlimits, hnames⟩
  · rintro ⟨names, hwrites, hpasses⟩
    generalize comment.toList = cs at hwrites
    obtain @⟨a, owner, format, b, switch, c, limits, ha, howner, hspells, hb, hon, hc, hlimits⟩ :=
      hwrites
    have hswitch : ∃ w word, switchWord d.enabled = w :: word ∧ Text.isBlank w = false := by
      cases d.enabled <;> exact ⟨_, _, rfl, rfl⟩
    obtain ⟨w, word, hword, hw⟩ := hswitch
    have hsign : Spells ['#'] ['#'] := rfl
    refine ⟨a ++ (owner ++ (format ++ (b ++ (switch ++ (c ++ limits))))),
      dropWord?_append hsign _, b ++ (switch ++ (c ++ limits)), ?_,
      (d.enabled, c ++ limits), ?_, d.passes, ?_, rfl⟩
    · rw [dropOwner_append ha howner hspells, dropWord?_append hspells]
    · rw [trimStart_word hb (hword ▸ hon) hw]
      exact switch?_eq_some_iff.2 ⟨switch, rfl, hon⟩
    · rw [trimStart_limits hc hlimits]
      exact passes?_eq_some_iff.2 ⟨names, hlimits, hpasses⟩

/-! ## What no directive holds -/

namespace Directive

section
variable {cs : List Char} {names : List (List Char)}

/-- A list holds names. -/
theorem Listing.isName (h : Listing cs names) : ∀ name ∈ names, IsName name := by
  induction h with
  | one _ hname _ => exact List.forall_mem_singleton.2 hname
  | more _ hname _ _ ih => exact List.forall_mem_cons.2 ⟨hname, ih⟩

/-- A directive holds names. -/
theorem Writes.isName {enabled : Bool} (h : Writes enabled names cs) :
    ∀ name ∈ names, IsName name := by
  obtain ⟨-, -, -, -, -, -, hlimits⟩ := h
  cases hlimits with
  | every => exact List.forall_mem_nil _
  | named hnames => exact hnames.isName

/-- No pass has the name that stands for all passes. -/
theorem passOf_ne {name : List Char} (h : IsName name) : passOf name ≠ "*" := by
  obtain ⟨first, rest, rfl, hfirst, -⟩ := h
  intro heq
  have hchars : first.toUpper :: rest.map Char.toUpper = ['*'] := by
    rw [← List.map_cons, ← String.toList_ofList (l := (first :: rest).map Char.toUpper)]
    exact congrArg String.toList heq
  have hstar := (List.cons.inj hchars).1
  by_cases hlower : 97 ≤ first.toNat ∧ first.toNat ≤ 122
  · have hne := forall_letters (P := fun c => c.toUpper ≠ '*') (by decide) hlower.1 hlower.2
    exact hne hstar
  · rw [toUpper_eq_self hlower] at hstar
    subst hstar
    exact absurd (isNameStart_iff.2 hfirst) (by decide)

/-- A number sign is no blank. -/
theorem Blanks.numberSign_notMem (h : Blanks cs) : '#' ∉ cs :=
  fun hmem => absurd (h _ hmem) (by decide)

/-- A number sign is in no word. -/
theorem Spells.numberSign_notMem {word : List Char} (h : Spells cs word) (hword : '#' ∉ word) :
    '#' ∉ cs :=
  fun hmem => hword (h ▸ List.mem_map.2 ⟨'#', hmem, by decide⟩)

/-- A number sign is in no name. -/
theorem IsName.numberSign_notMem (h : IsName cs) : '#' ∉ cs :=
  fun hmem => absurd (h.isNameRest _ hmem) (by decide)

/-- A number sign is in no list of names. -/
theorem Listing.numberSign_notMem (h : Listing cs names) : '#' ∉ cs := by
  induction h with
  | one ha hname hb =>
    simp only [List.mem_append, not_or]
    exact ⟨ha.numberSign_notMem, hname.numberSign_notMem, hb.numberSign_notMem⟩
  | more ha hname hb _ ih =>
    simp only [List.mem_append, List.mem_cons, not_or]
    exact ⟨⟨ha.numberSign_notMem, hname.numberSign_notMem, hb.numberSign_notMem⟩, by decide, ih⟩

/-- A number sign is in no owner. -/
theorem Owner.numberSign_notMem (h : Owner cs) : '#' ∉ cs := by
  cases h with
  | nobody => exact List.not_mem_nil
  | somebody hword hb =>
    simp only [List.mem_append, not_or]
    exact ⟨hword.numberSign_notMem (by decide), hb.numberSign_notMem⟩

/-- A number sign is in no limits. -/
theorem Limits.numberSign_notMem (h : Limits cs names) : '#' ∉ cs := by
  cases h with
  | every => exact List.not_mem_nil
  | named hnames =>
    simp only [List.mem_cons, not_or]
    exact ⟨by decide, hnames.numberSign_notMem⟩

/-- A directive has one number sign, at its start. -/
theorem Writes.numberSign_notMem {enabled : Bool} (h : Writes enabled names cs) :
    '#' ∉ cs.tail := by
  obtain ⟨ha, howner, hformat, hb, hswitch, hc, hlimits⟩ := h
  have hword : '#' ∉ switchWord enabled := by cases enabled <;> decide
  simp only [List.tail_cons, List.mem_append, not_or]
  exact ⟨ha.numberSign_notMem, howner.numberSign_notMem,
    hformat.numberSign_notMem (by decide), hb.numberSign_notMem,
    hswitch.numberSign_notMem hword, hc.numberSign_notMem, hlimits.numberSign_notMem⟩

end

end Directive

/-! ## Writing -/

/-- A directive that switches the passes of some names on or off. -/
def writeDirective (enabled : Bool) (names : List (List Char)) : String :=
  String.ofList ("# fmt: ".toList ++ switchWord enabled ++
    if names = [] then [] else '=' :: [',', ' '].intercalate names)

/-- A space is blank. -/
theorem blanks_space : Blanks [' '] := by
  intro c hc
  obtain rfl := List.mem_singleton.1 hc
  decide

/-- Names with commas between them are a list. -/
theorem listing_intercalate {names : List (List Char)} (hne : names ≠ [])
    (h : ∀ name ∈ names, IsName name) {gap : List Char} (hgap : Blanks gap) :
    Listing (gap ++ [',', ' '].intercalate names) names := by
  induction names generalizing gap with
  | nil => exact absurd rfl hne
  | cons name names ih =>
    obtain ⟨hname, hnames⟩ := List.forall_mem_cons.1 h
    have hnone : Blanks [] := List.forall_mem_nil _
    cases names with
    | nil =>
      have hone := Listing.one hgap hname hnone
      rw [List.append_nil] at hone
      rwa [List.intercalate_singleton]
    | cons next names =>
      have hmore := Listing.more hgap hname hnone (ih (List.cons_ne_nil _ _) hnames blanks_space)
      rw [List.append_nil, List.append_assoc] at hmore
      rw [List.intercalate_cons_cons, List.append_assoc]
      exact hmore

/-- What is written as a directive is one. -/
theorem writes_writeDirective (enabled : Bool) {names : List (List Char)}
    (h : ∀ name ∈ names, IsName name) :
    Writes enabled names (writeDirective enabled names).toList := by
  have hnone : Blanks [] := List.forall_mem_nil _
  have hformat : Spells "fmt:".toList "fmt:".toList := rfl
  have hswitch : Spells (switchWord enabled) (switchWord enabled) := by cases enabled <;> rfl
  have htext : (writeDirective enabled names).toList = "# fmt: ".toList ++ switchWord enabled ++
      if names = [] then [] else '=' :: [',', ' '].intercalate names := String.toList_ofList
  have hlimits : Limits (if names = [] then [] else '=' :: [',', ' '].intercalate names) names := by
    split
    · rename_i hnil
      exact hnil ▸ .every
    · rename_i hne
      exact .named (listing_intercalate hne h hnone)
  rw [htext]
  generalize (if names = [] then [] else '=' :: [',', ' '].intercalate names) = limits at hlimits ⊢
  have hparts : "# fmt: ".toList ++ switchWord enabled ++ limits = '#' :: ([' '] ++
      ([] ++ ("fmt:".toList ++ ([' '] ++ (switchWord enabled ++ ([] ++ limits)))))) := by
    cases enabled <;> rfl
  rw [hparts]
  exact .mk blanks_space .nobody hformat blanks_space hswitch hnone hlimits

/-- **Directives are read by their grammar.**  A comment is read as a directive exactly if it is a
text of the grammar, and then as the switch and the passes that are written there.  So each switch
and each list of names can be written such that they are read back. -/
theorem directives_read :
    (∀ comment d, parseDirective comment = some d ↔
      ∃ names, Writes d.enabled names comment.toList ∧ d.passes = names.map passOf) ∧
    ∀ enabled names, (∀ name ∈ names, IsName name) →
      parseDirective (writeDirective enabled names) = some ⟨enabled, names.map passOf⟩ :=
  ⟨fun _ _ => parseDirective_eq_some_iff, fun enabled names h =>
    parseDirective_eq_some_iff.2 ⟨names, writes_writeDirective enabled h, rfl⟩⟩

example : parseDirective "# Robolint: fmt:off = align_calls ,Tags " =
    some ⟨false, ["ALIGN_CALLS", "TAGS"]⟩ := by decide

example : parseDirective "# fmt: on=A," = none := by decide

end RobotSuite
