/-
# Blank characters

The class of characters that count as white space in names, tags and directives,
with the usual trims.  It is wider than the gap between cells, which is made of
spaces and tabs only: it also holds the line separators, the no-break spaces, the
spaces of U+2000 to U+200A and the byte order mark, but neither U+0085 nor U+200B.
-/

namespace RobotSuite
namespace Text

/-- White space inside names, tags and directives. -/
def isBlank (c : Char) : Bool :=
  let n := c.toNat
  (9 ≤ n && n ≤ 13) || n = 0x20 || n = 0xA0 || n = 0x1680 || (0x2000 ≤ n && n ≤ 0x200A) ||
    n = 0x2028 || n = 0x2029 || n = 0x202F || n = 0x205F || n = 0x3000 || n = 0xFEFF

/-- A character that ends a line in patterns: LF, CR, U+2028 or U+2029. -/
def isLineTerminator (c : Char) : Bool :=
  c = '\n' || c = '\r' || c.toNat = 0x2028 || c.toNat = 0x2029

/-- Drop the longest suffix whose elements all satisfy `p`. -/
def dropEndWhile {α : Type} (p : α → Bool) (xs : List α) : List α :=
  (xs.reverse.dropWhile p).reverse

/-- The longest suffix whose elements all satisfy `p`. -/
def takeEndWhile {α : Type} (p : α → Bool) (xs : List α) : List α :=
  (xs.reverse.takeWhile p).reverse

/-- What is dropped at the end is what is taken there. -/
theorem dropEndWhile_append_takeEndWhile {α : Type} (p : α → Bool) (xs : List α) :
    dropEndWhile p xs ++ takeEndWhile p xs = xs := by
  unfold dropEndWhile takeEndWhile
  rw [← List.reverse_append, List.takeWhile_append_dropWhile, List.reverse_reverse]

section
variable {α : Type} {p : α → Bool} {xs ys : List α}

/-- What is taken at the end passes the test. -/
theorem all_takeEndWhile (p : α → Bool) (xs : List α) : (takeEndWhile p xs).all p = true := by
  rw [takeEndWhile, List.all_reverse, List.all_takeWhile]

/-- What is left was there. -/
theorem mem_of_mem_dropEndWhile {x : α} (h : x ∈ dropEndWhile p xs) : x ∈ xs := by
  rw [← dropEndWhile_append_takeEndWhile p xs]
  exact List.mem_append_left _ h

/-- What is taken was there. -/
theorem mem_of_mem_takeEndWhile {x : α} (h : x ∈ takeEndWhile p xs) : x ∈ xs := by
  rw [← dropEndWhile_append_takeEndWhile p xs]
  exact List.mem_append_right _ h

/-- The last element left fails the test. -/
theorem getLast?_dropEndWhile (p : α → Bool) (xs : List α) :
    ∀ x ∈ (dropEndWhile p xs).getLast?, p x = false := by
  intro x hx
  rw [dropEndWhile, List.getLast?_reverse] at hx
  have := List.head?_dropWhile_not p xs.reverse
  rw [Option.mem_def.1 hx] at this
  simpa using this

/-- The ends of a list whose last elements satisfy a test, behind one that does not. -/
theorem endWhile_append (h : ∀ x ∈ xs.getLast?, p x = false) (ys : List α) :
    takeEndWhile p (xs ++ ys) = takeEndWhile p ys ∧
      dropEndWhile p (xs ++ ys) = xs ++ dropEndWhile p ys := by
  rw [takeEndWhile, takeEndWhile, dropEndWhile, dropEndWhile, List.reverse_append]
  rw [← List.head?_reverse] at h
  generalize hr : xs.reverse = rs at h
  obtain rfl : xs = rs.reverse := by simp [← hr]
  induction ys.reverse with
  | nil =>
    cases rs with
    | nil => simp
    | cons r rs => simp [h r rfl]
  | cons y ys ih =>
    cases hy : p y with
    | true => simpa [hy] using ih
    | false => simp [hy]

/-- The ends of a list in front of elements that all satisfy a test. -/
theorem endWhile_append_of_all (h : ys.all p = true) (xs : List α) :
    takeEndWhile p (xs ++ ys) = takeEndWhile p xs ++ ys ∧
      dropEndWhile p (xs ++ ys) = dropEndWhile p xs := by
  have hall : ∀ y ∈ ys.reverse, p y = true := by simpa using h
  rw [takeEndWhile, takeEndWhile, dropEndWhile, dropEndWhile, List.reverse_append,
    List.takeWhile_append_of_pos hall, List.dropWhile_append_of_pos hall, List.reverse_append,
    List.reverse_reverse]
  exact ⟨rfl, rfl⟩

/-- Where every element passes, all is taken and none is left. -/
theorem endWhile_of_all (h : ys.all p = true) :
    takeEndWhile p ys = ys ∧ dropEndWhile p ys = [] := endWhile_append_of_all h []

/-- The ends of a list in front of elements that do not all satisfy a test. -/
theorem endWhile_append_of_not_all (h : ys.all p = false) (xs : List α) :
    takeEndWhile p (xs ++ ys) = takeEndWhile p ys ∧
      dropEndWhile p (xs ++ ys) = xs ++ dropEndWhile p ys := by
  obtain ⟨htake, hdrop⟩ := endWhile_of_all (all_takeEndWhile p ys)
  have hne : dropEndWhile p ys ≠ [] := by
    intro hnil
    have hys := dropEndWhile_append_takeEndWhile p ys
    rw [hnil, List.nil_append] at hys
    rw [← hys, all_takeEndWhile] at h
    cases h
  have hlast : ∀ x ∈ (xs ++ dropEndWhile p ys).getLast?, p x = false := by
    rw [List.getLast?_append, List.getLast?_eq_some_getLast hne]
    exact fun x hx => getLast?_dropEndWhile p ys x (List.getLast?_eq_some_getLast hne ▸ hx)
  obtain ⟨ht, hd⟩ := endWhile_append hlast (takeEndWhile p ys)
  rw [List.append_assoc, dropEndWhile_append_takeEndWhile] at ht hd
  rw [ht, hd, htake, hdrop, List.append_nil]
  exact ⟨rfl, rfl⟩

end

/-- Drop blanks at the start. -/
def trimStart (cs : List Char) : List Char := cs.dropWhile isBlank

/-- Drop blanks at the end. -/
def trimEnd (cs : List Char) : List Char := dropEndWhile isBlank cs

/-- Drop blanks at both ends. -/
def trimBlank (cs : List Char) : List Char := trimStart (trimEnd cs)

/-- A text without the blanks at its ends. -/
def trim (s : String) : String := String.ofList (trimBlank s.toList)

/-- All characters that are not blank. -/
def removeBlanks (cs : List Char) : List Char := cs.filter fun c => !isBlank c

/-- The maximal runs of characters that are not blank. -/
def words : List Char → List (List Char)
  | [] => []
  | c :: cs =>
    if isBlank c then words cs
    else match cs with
      | [] => [[c]]
      | d :: _ =>
        if isBlank d then [c] :: words cs
        else match words cs with
          | [] => [[c]]
          | w :: ws => (c :: w) :: ws

end Text
end RobotSuite
