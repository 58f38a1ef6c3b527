/-
# Empty lines between statements

How far statements stand apart is told by the empty lines in front of each of them (`lineGaps`), and
a `Room` tells how many there may be.  Reading statements behind some empty lines, each finds the
room that it is given, and some empty lines are left at the end (`Fitted`).  So what is known of
parts is known of all of them in a row (`Fitted.append`).

Items are squeezed when of the empty lines in a row one is left (`squeeze`).  Squeezing keeps
everything but empty lines, and it makes no difference whether it is done before or after a list
loses what it ends with (`endWhile_squeeze`).  Behind it one empty line at most stands between two
statements (`fitted_squeeze`).
-/

import Mathlib.Data.List.Forall2
import RobotSuite.Text.Blank
import RobotSuite.Tree

namespace RobotSuite

/-! ## Statements and the gaps between them -/

/-- Whether a statement is an empty line. -/
def Statement.isEmptyLine (s : Statement) : Bool := s.type = .emptyLine

/-- The statements that are no empty lines. -/
def contents (ss : List Statement) : List Statement := ss.filter fun s => !s.isEmptyLine

/-- For each statement that is no empty line the number of empty lines right in front of it, if `n`
empty lines stand in front of all. -/
def lineGapsFrom (n : Nat) : List Statement → List Nat
  | [] => []
  | s :: ss => if s.isEmptyLine then lineGapsFrom (n + 1) ss else n :: lineGapsFrom 0 ss

/-- For each statement that is no empty line the number of empty lines right in front of it. -/
def lineGaps (ss : List Statement) : List Nat := lineGapsFrom 0 ss

/-- How many empty lines may stand in front of a statement. -/
inductive Room where
  | exactly (n : Nat)
  | atMost (n : Nat)
deriving Repr, DecidableEq, Inhabited

/-- Whether a number of empty lines is one that there may be. -/
def Room.Admits : Room → Nat → Prop
  | .exactly n, k => k = n
  | .atMost n, k => k ≤ n

instance : ∀ (r : Room) (k : Nat), Decidable (r.Admits k)
  | .exactly n, k => inferInstanceAs (Decidable (k = n))
  | .atMost n, k => inferInstanceAs (Decidable (k ≤ n))

/-- The rooms of statements, of which the first that is no empty line has a room of its own. -/
def rooms (first rest : Room) (ss : List Statement) : List Room :=
  match contents ss with
  | [] => []
  | _ :: more => first :: more.map fun _ => rest

section
variable {s : Statement} {a b ss : List Statement} {first rest r : Room}

/-- What statements hold, one behind the other. -/
theorem contents_append (a b : List Statement) : contents (a ++ b) = contents a ++ contents b :=
  List.filter_append a b

/-- An empty line holds nothing. -/
theorem contents_line (h : s.isEmptyLine = true) : contents (s :: ss) = contents ss := by
  simp [contents, h]

/-- A statement that is no empty line is held. -/
theorem contents_statement (h : s.isEmptyLine = false) :
    contents (s :: ss) = s :: contents ss := by
  simp [contents, h]

/-- What holds nothing has no room. -/
theorem rooms_eq_nil (h : contents ss = []) : rooms first rest ss = [] := by rw [rooms, h]

/-- An empty line has no room of its own. -/
theorem rooms_line (h : s.isEmptyLine = true) :
    rooms first rest (s :: ss) = rooms first rest ss := by
  rw [rooms, contents_line h, rooms]

/-- Where the first statement is not told from the others. -/
theorem rooms_same (r : Room) (ss : List Statement) :
    rooms r r ss = (contents ss).map fun _ => r := by
  rw [rooms]
  cases contents ss <;> rfl

/-- The first statement has the first room, and all others the same. -/
theorem rooms_statement (h : s.isEmptyLine = false) :
    rooms first rest (s :: ss) = first :: rooms rest rest ss := by
  rw [rooms_same, rooms, contents_statement h]

/-- Only the number of the statements counts. -/
theorem rooms_congr (h : (contents a).length = (contents b).length) :
    rooms first rest a = rooms first rest b := by
  rw [rooms, rooms]
  cases ha : contents a with
  | nil =>
    rw [ha] at h
    rw [List.eq_nil_of_length_eq_zero h.symm]
  | cons x xs =>
    cases hb : contents b with
    | nil => simp [ha, hb] at h
    | cons y ys =>
      rw [ha, hb, List.length_cons, List.length_cons, Nat.add_right_cancel_iff] at h
      simp [List.map_const', h]

/-- Behind a statement the first room is taken. -/
theorem rooms_append (h : contents a ≠ []) :
    rooms first rest (a ++ b) = rooms first rest a ++ rooms rest rest b := by
  rw [rooms_same, rooms, rooms, contents_append]
  cases ha : contents a with
  | nil => exact absurd ha h
  | cons x xs => simp

/-- The same room is in front of each statement, wherever it stands. -/
theorem rooms_same_append (r : Room) (a b : List Statement) :
    rooms r r (a ++ b) = rooms r r a ++ rooms r r b := by
  rw [rooms_same, rooms_same, rooms_same, contents_append, List.map_append]

end

/-! ## Statements that find room -/

/-- Reading statements behind `n` empty lines leads to `m` empty lines at the end, and each
statement that is no empty line finds the room that it is given. -/
inductive Fitted : Nat → List Room → List Statement → Nat → Prop
  | nil (n : Nat) : Fitted n [] [] n
  | line {n m : Nat} {rs : List Room} {s : Statement} {ss : List Statement}
      (hs : s.isEmptyLine = true) (h : Fitted (n + 1) rs ss m) : Fitted n rs (s :: ss) m
  | statement {n m : Nat} {r : Room} {rs : List Room} {s : Statement} {ss : List Statement}
      (hs : s.isEmptyLine = false) (hr : r.Admits n) (h : Fitted 0 rs ss m) :
      Fitted n (r :: rs) (s :: ss) m

section
variable {n m k : Nat} {rs rs' : List Room} {s : Statement} {a b ss : List Statement}
  {first rest : Room}

/-- Statements that fit behind others that fit. -/
theorem Fitted.append (h : Fitted n rs a m) (h' : Fitted m rs' b k) :
    Fitted n (rs ++ rs') (a ++ b) k := by
  induction h with
  | nil => exact h'
  | line hs _ ih => exact .line hs (ih h')
  | statement hs hr _ ih => exact .statement hs hr (ih h')

/-- **The gaps are as wide as there is room.** -/
theorem Fitted.gaps (h : Fitted n rs ss m) : List.Forall₂ Room.Admits rs (lineGapsFrom n ss) := by
  induction h with
  | nil => exact .nil
  | line hs _ ih =>
    rw [lineGapsFrom, if_pos hs]
    exact ih
  | statement hs hr _ ih =>
    rw [lineGapsFrom, if_neg (by simp [hs])]
    exact .cons hr ih

/-- Where nothing has room, all are empty lines. -/
theorem Fitted.eq_of_nil (h : Fitted n [] ss m) : m = n + ss.length := by
  generalize hrs : ([] : List Room) = rs at h
  induction h with
  | nil => rfl
  | line _ _ ih =>
    rw [ih hrs, List.length_cons]
    omega
  | statement => cases hrs

/-- Where no empty lines are left at the end, none stands there. -/
theorem Fitted.getLast? (h : Fitted n rs ss 0) : ∀ s ∈ ss.getLast?, s.isEmptyLine = false := by
  generalize hm : 0 = m at h
  induction h with
  | nil => simp
  | @line n _ _ s ss hs h ih =>
    cases ss with
    | nil =>
      cases h
      cases hm
    | cons t ss => exact ih hm
  | @statement _ _ _ _ s ss hs _ h ih =>
    cases ss with
    | nil => simpa using hs
    | cons t ss => exact ih hm

/-- Empty lines fit where nothing has room. -/
theorem fitted_lines (n k : Nat) (hs : s.isEmptyLine = true) :
    Fitted n [] (List.replicate k s) (n + k) := by
  induction k generalizing n with
  | zero => exact .nil n
  | succ k ih =>
    have hrest := ih (n + 1)
    rw [Nat.add_right_comm] at hrest
    exact .line hs hrest

/-- Statements among which there is no empty line. -/
theorem fitted_statements (ha : ∀ s ∈ ss, s.isEmptyLine = false) (hne : ss ≠ [])
    (hf : first.Admits n) (hr : rest.Admits 0) : Fitted n (rooms first rest ss) ss 0 := by
  induction ss generalizing n first with
  | nil => exact absurd rfl hne
  | cons s ss ih =>
    rw [List.forall_mem_cons] at ha
    rw [rooms_statement ha.1]
    refine .statement ha.1 hf ?_
    by_cases hnil : ss = []
    · rw [hnil]
      exact .nil 0
    · exact ih ha.2 hnil hr

/-- Statements that fit wherever the first of them does, with an empty line at most between two. -/
def Compact (ss : List Statement) : Prop :=
  ∀ n first, Room.Admits first n → Fitted n (rooms first (.atMost 1) ss) ss 0

/-- A compact list holds something. -/
theorem Compact.contents_ne_nil (h : Compact ss) : contents ss ≠ [] := by
  intro hnil
  have hone := h 1 (.exactly 1) rfl
  rw [rooms_eq_nil hnil] at hone
  exact absurd hone.eq_of_nil (by omega)

/-- A statement by itself is compact. -/
theorem compact_singleton (h : s.isEmptyLine = false) : Compact [s] :=
  fun _ _ hr => fitted_statements (List.forall_mem_singleton.2 h) (List.cons_ne_nil s []) hr
    (Nat.zero_le 1)

end

/-! ## Items without empty lines in a row -/

section
variable {α : Type} (isEmpty : α → Bool)

/-- Items of which an empty line is left out behind another; `behind` tells whether one stands in
front of all. -/
def squeeze (behind : Bool) : List α → List α
  | [] => []
  | x :: xs =>
    if isEmpty x && behind then squeeze true xs else x :: squeeze (isEmpty x) xs

/-- Whether an empty line stands behind some items, or in front of them if there are none. -/
def endsInEmpty (behind : Bool) (xs : List α) : Bool := (xs.getLast?.map isEmpty).getD behind

variable {isEmpty} {behind : Bool} {xs : List α} {q : α → Bool}

/-- An empty line behind another goes, and what else comes first stays. -/
theorem squeeze_cons (behind : Bool) (x : α) (xs : List α) : squeeze isEmpty behind (x :: xs) =
    if isEmpty x && behind then squeeze isEmpty true xs
    else x :: squeeze isEmpty (isEmpty x) xs := rfl

/-- Whether a list ends with an empty line is told by what comes behind its first. -/
theorem endsInEmpty_cons (behind : Bool) (x : α) (xs : List α) :
    endsInEmpty isEmpty behind (x :: xs) = endsInEmpty isEmpty (isEmpty x) xs := by
  rw [endsInEmpty, endsInEmpty, List.getLast?_cons]
  cases xs.getLast? <;> rfl

/-- A list whose last is no empty line does not end with one. -/
theorem endsInEmpty_eq_false (h : ∀ x ∈ xs.getLast?, isEmpty x = false) :
    endsInEmpty isEmpty false xs = false := by
  rw [endsInEmpty]
  cases hx : xs.getLast? with
  | none => rfl
  | some x => exact h x hx

/-- Of a list that is squeezed nothing goes but empty lines. -/
theorem sublist_squeeze (behind : Bool) (xs : List α) :
    (squeeze isEmpty behind xs).Sublist xs := by
  induction xs generalizing behind with
  | nil => exact .refl _
  | cons x xs ih =>
    rw [squeeze_cons]
    split
    · exact (ih _).cons x
    · exact (ih _).cons_cons x

/-- A list without empty lines stays. -/
theorem squeeze_of_none (h : ∀ x ∈ xs, isEmpty x = false) (behind : Bool) :
    squeeze isEmpty behind xs = xs := by
  induction xs generalizing behind with
  | nil => rfl
  | cons x xs ih =>
    rw [List.forall_mem_cons] at h
    rw [squeeze_cons, h.1, Bool.false_and, if_neg Bool.false_ne_true, ih h.2]

/-- In front of the first empty line a list stays. -/
theorem squeeze_none_append (h : ∀ x ∈ xs, isEmpty x = false) (ys : List α) :
    squeeze isEmpty false (xs ++ ys) = xs ++ squeeze isEmpty false ys := by
  induction xs with
  | nil => rfl
  | cons x xs ih =>
    rw [List.forall_mem_cons] at h
    rw [List.cons_append, squeeze_cons, h.1, Bool.false_and, if_neg Bool.false_ne_true, ih h.2]
    rfl

/-- Squeezing again leaves nothing more out. -/
theorem squeeze_squeeze (behind : Bool) (xs : List α) :
    squeeze isEmpty behind (squeeze isEmpty behind xs) = squeeze isEmpty behind xs := by
  induction xs generalizing behind with
  | nil => rfl
  | cons x xs ih =>
    rw [squeeze_cons]
    split
    · rename_i h
      rw [Bool.and_eq_true] at h
      rw [h.2]
      exact ih true
    · rename_i h
      rw [squeeze_cons, if_neg h, ih]

/-- Which items are empty lines is all that squeezing looks at. -/
theorem squeeze_map {β : Type} (f : β → α) (behind : Bool) (xs : List β) :
    squeeze isEmpty behind (xs.map f) = (squeeze (isEmpty ∘ f) behind xs).map f := by
  induction xs generalizing behind with
  | nil => rfl
  | cons x xs ih =>
    rw [List.map_cons, squeeze_cons, squeeze_cons, ih, ih, Function.comp_apply]
    split <;> rfl

/-- The first of a list stays. -/
theorem head?_squeeze_false (xs : List α) : (squeeze isEmpty false xs).head? = xs.head? := by
  cases xs with
  | nil => rfl
  | cons x xs => simp [squeeze_cons]

/-- Behind some items the others are squeezed as the last of these says. -/
theorem squeeze_append (behind : Bool) (xs ys : List α) :
    ∃ between, squeeze isEmpty behind (xs ++ ys) =
      squeeze isEmpty behind xs ++ squeeze isEmpty between ys := by
  induction xs generalizing behind with
  | nil => exact ⟨behind, rfl⟩
  | cons x xs ih =>
    rw [List.cons_append, squeeze_cons, squeeze_cons]
    split
    · exact ih _
    · obtain ⟨between, heq⟩ := ih (isEmpty x)
      exact ⟨between, congrArg (x :: ·) heq⟩

/-- Empty lines at the start may be left out before or after squeezing. -/
theorem dropWhile_squeeze (behind : Bool) (xs : List α) :
    (squeeze isEmpty behind xs).dropWhile isEmpty =
      squeeze isEmpty false (xs.dropWhile isEmpty) := by
  induction xs generalizing behind with
  | nil => rfl
  | cons x xs ih =>
    rw [squeeze_cons]
    cases hx : isEmpty x with
    | false => simp [hx, squeeze_cons]
    | true =>
      rw [List.dropWhile_cons_of_pos hx]
      cases behind with
      | false => exact (List.dropWhile_cons_of_pos hx).trans (ih true)
      | true => exact ih true

/-- Nothing is left of empty lines only. -/
theorem squeeze_eq_nil (h : squeeze isEmpty behind xs = []) : ∀ x ∈ xs, isEmpty x = true := by
  induction xs generalizing behind with
  | nil => simp
  | cons x xs ih =>
    rw [squeeze_cons] at h
    split at h
    · rename_i hx
      rw [Bool.and_eq_true] at hx
      exact List.forall_mem_cons.2 ⟨hx.1, ih h⟩
    · cases h

/-- Something is left where something is. -/
theorem squeeze_false_ne_nil {x : α} : squeeze isEmpty false (x :: xs) ≠ [] := by
  simp [squeeze_cons]

/-- Squeezed items end as they did, or with another empty line. -/
theorem getLast?_squeeze {y : α} (h : y ∈ (squeeze isEmpty behind xs).getLast?) :
    ∃ x ∈ xs.getLast?, y = x ∨ isEmpty x = true ∧ isEmpty y = true := by
  induction xs generalizing behind with
  | nil => cases h
  | cons x xs ih =>
    have hlast {z : α} (hz : z ∈ xs.getLast?) : z ∈ (x :: xs).getLast? := by
      rw [List.getLast?_cons, Option.mem_def.1 hz]
      rfl
    rw [squeeze_cons] at h
    split at h
    · obtain ⟨z, hz, hcase⟩ := ih h
      exact ⟨z, hlast hz, hcase⟩
    · rw [List.getLast?_cons] at h
      cases hrest : (squeeze isEmpty (isEmpty x) xs).getLast? with
      | some z =>
        rw [hrest] at h
        obtain rfl : z = y := Option.some.inj h
        obtain ⟨w, hw, hcase⟩ := ih hrest
        exact ⟨w, hlast hw, hcase⟩
      | none =>
        -- what follows has gone, so it is made of empty lines behind an empty line
        rw [hrest] at h
        obtain rfl : x = y := Option.some.inj h
        have hnil := List.getLast?_eq_none_iff.1 hrest
        cases hxs : xs.getLast? with
        | none =>
          rw [List.getLast?_eq_none_iff.1 hxs]
          exact ⟨x, rfl, .inl rfl⟩
        | some z =>
          have hx : isEmpty x = true := by
            by_contra hx
            rw [Bool.not_eq_true] at hx
            rw [hx] at hnil
            cases xs with
            | nil => cases hxs
            | cons w ws => exact squeeze_false_ne_nil hnil
          exact ⟨z, hlast hxs, .inr ⟨squeeze_eq_nil hnil z (List.mem_of_getLast? hxs), hx⟩⟩

/-- What items end with may be left out before or after squeezing, if all empty lines or none of
them are left out with it. -/
theorem endWhile_squeeze (hq : ∀ x y, isEmpty x = true → isEmpty y = true → q x = q y)
    (behind : Bool) (xs : List α) :
    Text.dropEndWhile q (squeeze isEmpty behind xs) =
        squeeze isEmpty behind (Text.dropEndWhile q xs) ∧
      ∃ between, Text.takeEndWhile q (squeeze isEmpty behind xs) =
        squeeze isEmpty between (Text.takeEndWhile q xs) := by
  obtain ⟨between, heq⟩ :=
    squeeze_append behind (Text.dropEndWhile q xs) (Text.takeEndWhile q xs)
  have hlast : ∀ y ∈ (squeeze isEmpty behind (Text.dropEndWhile q xs)).getLast?,
      q y = false := by
    intro y hy
    obtain ⟨x, hx, hcase⟩ := getLast?_squeeze hy
    have hxq := Text.getLast?_dropEndWhile q xs x hx
    rcases hcase with rfl | ⟨hex, hey⟩
    · exact hxq
    · rw [hq y x hey hex, hxq]
  have hall : (squeeze isEmpty between (Text.takeEndWhile q xs)).all q = true := by
    rw [List.all_eq_true]
    intro y hy
    exact List.all_eq_true.1 (Text.all_takeEndWhile q xs) y ((sublist_squeeze _ _).subset hy)
  obtain ⟨htake, hdrop⟩ := Text.endWhile_append hlast
    (squeeze isEmpty between (Text.takeEndWhile q xs))
  obtain ⟨htake', hdrop'⟩ := Text.endWhile_of_all hall
  rw [Text.dropEndWhile_append_takeEndWhile] at heq
  rw [heq, hdrop, htake, htake', hdrop', List.append_nil]
  exact ⟨rfl, between, rfl⟩

/-! ## The statements of items -/

variable (isEmpty) (statements : α → List Statement)

/-- An item that is an empty line, or whose statements are compact. -/
structure IsPart (x : α) : Prop where
  line : isEmpty x = true → ∃ s, statements x = [s] ∧ s.isEmptyLine = true
  compact : isEmpty x = false → Compact (statements x)

variable {isEmpty statements}

/-- An empty part holds nothing. -/
theorem IsPart.contents_eq_nil {x : α} (h : IsPart isEmpty statements x)
    (hx : isEmpty x = true) : contents (statements x) = [] := by
  obtain ⟨s, heq, hs⟩ := h.line hx
  rw [heq]
  exact contents_line hs

/-- Empty parts hold nothing together. -/
theorem contents_flatMap_of_all (h : ∀ x ∈ xs, IsPart isEmpty statements x)
    (hx : ∀ x ∈ xs, isEmpty x = true) : contents (xs.flatMap statements) = [] := by
  induction xs with
  | nil => rfl
  | cons x xs ih =>
    rw [List.forall_mem_cons] at h hx
    rw [List.flatMap_cons, contents_append, h.1.contents_eq_nil hx.1, ih h.2 hx.2]
    rfl

/-- Squeezing leaves what the parts hold. -/
theorem contents_squeeze (h : ∀ x ∈ xs, IsPart isEmpty statements x) (behind : Bool) :
    contents ((squeeze isEmpty behind xs).flatMap statements) =
      contents (xs.flatMap statements) := by
  induction xs generalizing behind with
  | nil => rfl
  | cons x xs ih =>
    rw [List.forall_mem_cons] at h
    rw [squeeze_cons, List.flatMap_cons, contents_append]
    split
    · rename_i hx
      rw [Bool.and_eq_true] at hx
      rw [h.1.contents_eq_nil hx.1, ih h.2, List.nil_append]
    · rw [List.flatMap_cons, contents_append, ih h.2]

/-- Nothing but empty lines goes with the empty lines at both ends. -/
theorem contents_trimmed (h : ∀ x ∈ xs, IsPart isEmpty statements x) :
    contents ((xs.dropWhile isEmpty).flatMap statements) = contents (xs.flatMap statements) ∧
      contents ((Text.dropEndWhile isEmpty xs).flatMap statements) =
        contents (xs.flatMap statements) := by
  constructor
  · conv_rhs => rw [← xs.takeWhile_append_dropWhile (p := isEmpty)]
    rw [List.flatMap_append, contents_append, contents_flatMap_of_all
      (fun x hx => h x (List.takeWhile_subset _ hx)) fun x hx =>
        List.all_eq_true.1 List.all_takeWhile x hx]
    rfl
  · conv_rhs => rw [← Text.dropEndWhile_append_takeEndWhile isEmpty xs]
    have hend : contents ((Text.takeEndWhile isEmpty xs).flatMap statements) = [] :=
      contents_flatMap_of_all (fun x hx => h x (Text.mem_of_mem_takeEndWhile hx)) fun x hx =>
        List.all_eq_true.1 (Text.all_takeEndWhile _ _) x hx
    rw [List.flatMap_append, contents_append, hend, List.append_nil]

/-- **Between squeezed items one empty line at most stands in a row.** -/
theorem fitted_squeeze (h : ∀ x ∈ xs, IsPart isEmpty statements x) (behind : Bool) :
    Fitted behind.toNat
      (rooms (.atMost 1) (.atMost 1) ((squeeze isEmpty behind xs).flatMap statements))
      ((squeeze isEmpty behind xs).flatMap statements)
      (endsInEmpty isEmpty behind xs).toNat := by
  induction xs generalizing behind with
  | nil => exact .nil _
  | cons x xs ih =>
    rw [List.forall_mem_cons] at h
    rw [squeeze_cons, endsInEmpty_cons]
    cases hx : isEmpty x with
    | true =>
      cases behind with
      | true => exact ih h.2 true
      | false =>
        obtain ⟨s, heq, hs⟩ := h.1.line hx
        have hrest := ih h.2 true
        rw [Bool.true_and, if_neg Bool.false_ne_true, List.flatMap_cons, heq, List.cons_append,
          List.nil_append, rooms_line hs]
        exact .line hs hrest
    | false =>
      rw [Bool.false_and, if_neg Bool.false_ne_true, List.flatMap_cons, rooms_same_append]
      have hroom : (Room.atMost 1).Admits behind.toNat := Bool.toNat_le behind
      exact (h.1.compact hx _ _ hroom).append (ih h.2 false)

/-- Squeezed items that do not start with an empty line. -/
theorem fitted_headed (h : ∀ x ∈ xs, IsPart isEmpty statements x)
    (hx : ∀ x ∈ xs.head?, isEmpty x = false) :
    Fitted 0 (rooms (.exactly 0) (.atMost 1) ((squeeze isEmpty false xs).flatMap statements))
      ((squeeze isEmpty false xs).flatMap statements) (endsInEmpty isEmpty false xs).toNat := by
  cases xs with
  | nil => exact .nil 0
  | cons x xs =>
    rw [List.forall_mem_cons] at h
    have hfirst := h.1.compact (hx x rfl)
    rw [squeeze_cons, hx x rfl, endsInEmpty_cons, hx x rfl, Bool.false_and, if_neg Bool.false_ne_true,
      List.flatMap_cons, rooms_append hfirst.contents_ne_nil]
    exact (hfirst 0 (.exactly 0) rfl).append (fitted_squeeze h.2 false)

end

end RobotSuite
