/-
# Text measured in 16-bit code units

Columns, offsets, widths and slices of test data count 16-bit code units: a
character above U+FFFF counts two, every other character counts one.  Texts
themselves stay ordinary strings; this file measures and cuts them, and turns them
into code units and back.

`units_append` says that the measure is additive, `takeUnits_append_dropUnits` that a
cut loses nothing, wherever it falls, and `ofUnits_unitsOf` that a text is read back
from its code units.
-/

namespace RobotSuite
namespace Text

/-- Code units of one character: two above U+FFFF, one elsewhere. -/
def charUnits (c : Char) : Nat := if c.toNat < 0x10000 then 1 else 2

/-- Every character has a unit. -/
theorem charUnits_pos (c : Char) : 0 < charUnits c := by
  unfold charUnits; split <;> omega

/-- Code units of a list of characters. -/
def units : List Char → Nat
  | [] => 0
  | c :: cs => charUnits c + units cs

@[simp] theorem units_nil : units [] = 0 := rfl

@[simp] theorem units_cons (c : Char) (cs : List Char) :
    units (c :: cs) = charUnits c + units cs := rfl

/-- Two texts are as long as both together. -/
@[simp] theorem units_append (a b : List Char) : units (a ++ b) = units a + units b := by
  induction a with
  | nil => simp
  | cons c a ih => simp [ih]; omega

/-- Length of a text in code units. -/
def length (s : String) : Nat := units s.toList

/-- Two strings are as long as both together. -/
@[simp] theorem length_append (a b : String) : length (a ++ b) = length a + length b := by
  simp [length]

/-- The longest prefix of at most `n` code units. -/
def takeUnits : Nat → List Char → List Char
  | _, [] => []
  | n, c :: cs => if charUnits c ≤ n then c :: takeUnits (n - charUnits c) cs else []

/-- What is left after the longest prefix of at most `n` code units. -/
def dropUnits : Nat → List Char → List Char
  | _, [] => []
  | n, c :: cs => if charUnits c ≤ n then dropUnits (n - charUnits c) cs else c :: cs

/-- A cut loses nothing. -/
theorem takeUnits_append_dropUnits (n : Nat) (cs : List Char) :
    takeUnits n cs ++ dropUnits n cs = cs := by
  induction cs generalizing n with
  | nil => rfl
  | cons c cs ih => unfold takeUnits dropUnits; split <;> simp [ih]

/-- The part of a text between two offsets. -/
def slice (s : String) (start stop : Nat) : String :=
  String.ofList (takeUnits (stop - start) (dropUnits start s.toList))

/-- Code units of a character as numbers: itself below U+10000, else the high and
low surrogate. -/
def codeUnits (c : Char) : List Nat :=
  if c.toNat < 0x10000 then [c.toNat]
  else [0xD800 + (c.toNat - 0x10000) / 0x400, 0xDC00 + (c.toNat - 0x10000) % 0x400]

/-- A character has one code unit, which is no surrogate, or it has two surrogates. -/
theorem codeUnits_cases (c : Char) :
    (codeUnits c = [c.toNat] ∧ (c.toNat < 0xD800 ∨ 0xE000 ≤ c.toNat)) ∨
      ∃ n < 0x100000, c.toNat = 0x10000 + n ∧
        codeUnits c = [0xD800 + n / 0x400, 0xDC00 + n % 0x400] := by
  have hvalid : c.toNat < 0xD800 ∨ 0xDFFF < c.toNat ∧ c.toNat < 0x110000 := c.valid
  by_cases h : c.toNat < 0x10000
  · exact .inl ⟨if_pos h, by omega⟩
  · exact .inr ⟨c.toNat - 0x10000, by omega, by omega, if_neg h⟩

/-- A character is written with as many units as it has. -/
theorem length_codeUnits (c : Char) : (codeUnits c).length = charUnits c := by
  unfold codeUnits charUnits
  split <;> rfl

/-- A text is written with as many units as it has. -/
theorem length_flatMap_codeUnits (cs : List Char) : (cs.flatMap codeUnits).length = units cs := by
  induction cs with
  | nil => rfl
  | cons c cs ih => rw [List.flatMap_cons, List.length_append, ih, length_codeUnits, units_cons]

/-- The code units of a text. -/
def unitsOf (s : String) : List Nat := s.toList.flatMap codeUnits

/-- A string is written with as many units as it is long. -/
@[simp] theorem length_unitsOf (s : String) : (unitsOf s).length = length s :=
  length_flatMap_codeUnits s.toList

/-- The character of a code unit by itself.  For a surrogate that is U+FFFD. -/
def unitChar (u : Nat) : Char :=
  if 0xD800 ≤ u && u < 0xE000 then Char.ofNat 0xFFFD else Char.ofNat u

/-- The characters of some code units.  A high surrogate and a low one behind it are one
character. -/
def charsOfUnits : List Nat → List Char
  | [] => []
  | [u] => [unitChar u]
  | u :: v :: us =>
    if 0xD800 ≤ u && u < 0xDC00 && 0xDC00 ≤ v && v < 0xE000 then
      Char.ofNat (0x10000 + (u - 0xD800) * 0x400 + (v - 0xDC00)) :: charsOfUnits us
    else unitChar u :: charsOfUnits (v :: us)

/-- The text of some code units. -/
def ofUnits (us : List Nat) : String := String.ofList (charsOfUnits us)

/-- A character of one unit is read back from it. -/
theorem unitChar_toNat {c : Char} (h : c.toNat < 0xD800 ∨ 0xE000 ≤ c.toNat) :
    unitChar c.toNat = c := by
  rw [unitChar, if_neg (by simp; omega), Char.ofNat_toNat]

/-- A unit that is no surrogate is a character by itself. -/
theorem charsOfUnits_cons {u : Nat} (h : u < 0xD800 ∨ 0xE000 ≤ u) (us : List Nat) :
    charsOfUnits (u :: us) = unitChar u :: charsOfUnits us := by
  cases us with
  | nil => rfl
  | cons v us => rw [charsOfUnits, if_neg (by simp; omega)]

/-- Characters are read back from their code units. -/
theorem charsOfUnits_codeUnits (cs : List Char) : charsOfUnits (cs.flatMap codeUnits) = cs := by
  induction cs with
  | nil => rfl
  | cons c cs ih =>
    rw [List.flatMap_cons]
    rcases codeUnits_cases c with ⟨hc, hn⟩ | ⟨n, hn, hcn, hc⟩
    · rw [hc, List.singleton_append, charsOfUnits_cons hn, unitChar_toNat hn, ih]
    · have hpair : 0x10000 + (0xD800 + n / 0x400 - 0xD800) * 0x400 +
          (0xDC00 + n % 0x400 - 0xDC00) = c.toNat := by omega
      rw [hc, List.cons_append, List.cons_append, List.nil_append, charsOfUnits,
        if_pos (by simp; omega), hpair, Char.ofNat_toNat, ih]

/-- A string is read back from its units. -/
@[simp] theorem ofUnits_unitsOf (s : String) : ofUnits (unitsOf s) = s := by
  rw [ofUnits, unitsOf, charsOfUnits_codeUnits, String.ofList_toList]

/-- Lexicographic order of lists of numbers. -/
def numbersLt : List Nat → List Nat → Bool
  | [], [] => false
  | [], _ :: _ => true
  | _ :: _, [] => false
  | a :: as, b :: bs => a < b || (a == b && numbersLt as bs)

/-- Order of texts by code units: a character above U+FFFF comes before U+E000. -/
def unitsLt (a b : String) : Bool :=
  numbersLt (a.toList.flatMap codeUnits) (b.toList.flatMap codeUnits)

/-- Offset of the first occurrence of `needle` in a list of characters. -/
def findUnits (needle : List Char) : List Char → Option Nat
  | [] => if needle.isEmpty then some 0 else none
  | c :: cs =>
    if needle.isPrefixOf (c :: cs) then some 0
    else (findUnits needle cs).map (charUnits c + ·)

/-- Pieces of a list of characters between the occurrences of a separator. -/
def splitOn (sep : Char) : List Char → List (List Char)
  | [] => [[]]
  | c :: cs =>
    if c = sep then [] :: splitOn sep cs
    else match splitOn sep cs with
      | [] => [[c]]
      | p :: ps => (c :: p) :: ps

/-- A split text has a piece. -/
theorem splitOn_ne_nil (sep : Char) (cs : List Char) : splitOn sep cs ≠ [] := by
  cases cs with
  | nil => simp [splitOn]
  | cons c cs => unfold splitOn; split <;> (try split) <;> simp

/-- A text without the separator is one piece. -/
theorem splitOn_of_not_mem {sep : Char} {cs : List Char} (h : sep ∉ cs) :
    splitOn sep cs = [cs] := by
  induction cs with
  | nil => rfl
  | cons c cs ih =>
    have hc : c ≠ sep := fun e => h (by simp [e])
    simp [splitOn, hc, ih fun hm => h (List.mem_cons_of_mem _ hm)]

/-- A separator parts the pieces in front of it from those behind. -/
theorem splitOn_append_sep (sep : Char) (front back : List Char) :
    splitOn sep (front ++ sep :: back) = splitOn sep front ++ splitOn sep back := by
  induction front with
  | nil => simp [splitOn]
  | cons c front ih =>
    rw [List.cons_append, splitOn, splitOn, ih]
    split
    · rfl
    · obtain ⟨p, ps, hp⟩ := List.exists_cons_of_ne_nil (splitOn_ne_nil sep front)
      rw [hp]
      rfl

/-- No piece holds the separator. -/
theorem not_mem_of_mem_splitOn {sep : Char} {cs piece : List Char} (h : piece ∈ splitOn sep cs) :
    sep ∉ piece := by
  induction cs generalizing piece with
  | nil => simp_all [splitOn]
  | cons c cs ih =>
    obtain ⟨p, ps, hp⟩ := List.exists_cons_of_ne_nil (splitOn_ne_nil sep cs)
    rw [splitOn, hp] at h
    rw [hp] at ih
    split at h
    · rcases List.mem_cons.1 h with rfl | h
      · exact List.not_mem_nil
      · exact ih h
    · rename_i hc
      rcases List.mem_cons.1 h with rfl | h
      · exact fun hmem => (List.mem_cons.1 hmem).elim (fun he => hc he.symm)
          (ih List.mem_cons_self)
      · exact ih (List.mem_cons_of_mem _ h)

/-- The pieces of a text, joined by the separator, are the text. -/
theorem intercalate_splitOn (sep : Char) (cs : List Char) :
    [sep].intercalate (splitOn sep cs) = cs := by
  induction cs with
  | nil => simp [splitOn]
  | cons c cs ih =>
    obtain ⟨p, ps, hp⟩ := List.exists_cons_of_ne_nil (splitOn_ne_nil sep cs)
    rw [hp] at ih
    rw [splitOn, hp]
    split
    · rename_i hc
      rw [List.intercalate_cons_cons, ih, hc]
      rfl
    · cases ps with
      | nil => simpa using ih
      | cons q ps =>
        rw [List.intercalate_cons_cons] at ih ⊢
        rw [← ih]
        rfl

/-- The pieces of a text between the occurrences of a separator. -/
def pieces (sep : Char) (s : String) : List String :=
  (splitOn sep s.toList).map String.ofList

/-- A space or a tab, the only characters that separate cells. -/
def isGap (c : Char) : Bool := c = ' ' || c = '\t'

/-- Replace each tab by spaces up to the next multiple of `width`, where `column`
units of the line are already written. -/
def expandTabsFrom (width column : Nat) : List Char → List Char
  | [] => []
  | c :: cs =>
    if c = '\t' then
      let fill := width - column % width
      List.replicate fill ' ' ++ expandTabsFrom width (column + fill) cs
    else c :: expandTabsFrom width (column + charUnits c) cs

/-- Columns of a list of characters in which a tab counts `tab` columns. -/
def gapColumns (tab : Nat) : List Char → Nat
  | [] => 0
  | c :: cs => (if c = '\t' then tab else 1) + gapColumns tab cs

/-- Columns of a run of whitespace in which a tab counts `tab` columns. -/
def gapWidth (s : String) (tab : Nat) : Nat := gapColumns tab s.toList

/-- A run of spaces. -/
def spaces (n : Nat) : String := String.ofList (List.replicate n ' ')

/-- Blanks are blank characters. -/
@[simp] theorem toList_spaces (n : Nat) : (spaces n).toList = List.replicate n ' ' := by
  simp [spaces]

/-- A character repeated is as many times as long. -/
theorem units_replicate (n : Nat) (c : Char) : units (List.replicate n c) = n * charUnits c := by
  induction n with
  | zero => simp
  | succ n ih => rw [List.replicate_succ, units_cons, ih, Nat.succ_mul]; omega

/-- Blanks are as long as they are many. -/
@[simp] theorem length_spaces (n : Nat) : length (spaces n) = n := by
  simp [length, units_replicate, charUnits]

end Text
end RobotSuite
