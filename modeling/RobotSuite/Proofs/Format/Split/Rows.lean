/-
# Rows of arguments

Arguments are filled into rows greedily.  What comes out holds the head and the arguments in their
order (`isLayout_fillFrom`), and keeps to the limit where it can (`keepsLimit_fillFrom`).  Filling
stays ahead of every other layout: whatever row is open when a row of the other begins, at most one
row is closed before that row ends (`exists_fillFrom_append_le`), because what is left of it when a
row is opened has room behind the marker.  So no layout has fewer rows (`fillRows_least`).

A row without cells is measured with a gap in front of its first argument, so behind an empty head
there may be room that is not used (`fillRows_not_least`).
-/

import Mathlib.Data.List.Chain
import RobotSuite.Format.Split

namespace RobotSuite
namespace Split

/-! ## Widths of rows -/

section
variable {indent separator : String} {limit : Int} {everyArg : Bool} {row args : List Token}

/-- Columns that cells take behind others. -/
def widthBehind (separator : String) : List Token → Nat
  | [] => 0
  | c :: cells => Text.length separator + Text.length c.value + widthBehind separator cells

/-- One more cell adds a separator and its own width. -/
theorem rowWidth_concat (hne : row ≠ []) (c : Token) :
    rowWidth indent (row ++ [c]) separator =
      rowWidth indent row separator + Text.length separator + Text.length c.value := by
  have hnot : row.map (·.value) ≠ [] := fun h => hne (List.map_eq_nil_iff.1 h)
  rw [rowWidth, rowWidth, List.map_append, List.map_singleton,
    String.intercalate_append_of_ne_nil hnot (List.cons_ne_nil _ _), String.intercalate_singleton,
    Text.length_append, Text.length_append, Nat.add_assoc, Nat.add_assoc]
  omega

/-- More cells add their widths, a separator in front of each. -/
theorem rowWidth_append (indent separator : String) (hne : row ≠ []) (cells : List Token) :
    rowWidth indent (row ++ cells) separator =
      rowWidth indent row separator + widthBehind separator cells := by
  induction cells generalizing row with
  | nil => rw [List.append_nil]; rfl
  | cons c cells ih =>
    rw [List.append_cons, ih (List.append_ne_nil_of_right_ne_nil _ (List.cons_ne_nil _ _)),
      rowWidth_concat hne, widthBehind]
    omega

/-- A row of its own has no gap in front of its first cell. -/
theorem rowWidth_concat_le (indent separator : String) (row : List Token) (c : Token) :
    rowWidth indent (row ++ [c]) separator ≤
      rowWidth indent row separator + Text.length separator + Text.length c.value := by
  by_cases hne : row = []
  · rw [hne, List.nil_append, rowWidth, rowWidth, List.map_singleton, String.intercalate_singleton]
    omega
  · exact Nat.le_of_eq (rowWidth_concat hne c)

/-- Cells that go from the front of a row make room. -/
theorem rowWidth_marker_le (indent separator : String) (arg : Token) (cells : List Token) :
    rowWidth indent (continuationMarker :: cells) separator ≤
      rowWidth indent (continuationMarker :: arg :: cells) separator := by
  have hmarker : [continuationMarker] ≠ [] := List.cons_ne_nil _ _
  have hshort := rowWidth_append indent separator hmarker cells
  have hlong := rowWidth_append indent separator hmarker (arg :: cells)
  rw [widthBehind] at hlong
  simp only [List.singleton_append] at hshort hlong
  omega

/-! ## Layouts -/

/-- The cells of some rows, without the markers in front of all rows but the first. -/
def withoutMarkers : List (List Token) → List Token
  | [] => []
  | first :: later => first ++ later.flatMap List.tail

/-- Rows that hold a head and arguments in their order: the first starts with the head, and each
other is a marker and at least one argument. -/
structure IsLayout (head args : List Token) (rows : List (List Token)) : Prop where
  cells : withoutMarkers rows = head ++ args
  first : ∃ row ∈ rows.head?, head <+: row
  later : ∀ row ∈ rows.tail, ∃ arg more, row = continuationMarker :: arg :: more

/-- Rows that are wider than a limit only where they cannot be shorter: the first holds the head
alone, or another the marker and one argument. -/
structure KeepsLimit (indent separator : String) (limit : Int) (head : List Token)
    (rows : List (List Token)) : Prop where
  first : ∀ row ∈ rows.head?, row = head ∨ rowWidth indent row separator ≤ limit
  later : ∀ row ∈ rows.tail, row.length = 2 ∨ rowWidth indent row separator ≤ limit

/-- In no row is room for the first argument of the next. -/
def LeavesNoRoom (indent separator : String) (limit : Int) (rows : List (List Token)) : Prop :=
  rows.IsChain fun row next => ∀ arg ∈ next[1]?, limit < rowWidth indent (row ++ [arg]) separator

/-- The arguments of a layout, row by row. -/
theorem isLayout_iff {head args : List Token} {rows : List (List Token)} :
    IsLayout head args rows ↔ ∃ (front : List Token) (groups : List (List Token)),
      rows = (head ++ front) :: groups.map (continuationMarker :: ·) ∧
        front ++ groups.flatten = args ∧ ∀ g ∈ groups, g ≠ [] := by
  constructor
  · rintro ⟨hcells, ⟨row, hrow, front, rfl⟩, hlater⟩
    obtain ⟨later, rfl⟩ := List.head?_eq_some_iff.1 hrow
    have hmarked : (later.map List.tail).map (continuationMarker :: ·) = later := by
      rw [List.map_map]
      refine (List.map_congr_left fun r hr => ?_).trans (List.map_id _)
      obtain ⟨arg, more, rfl⟩ := hlater r hr
      rfl
    refine ⟨front, later.map List.tail, by rw [hmarked], ?_, ?_⟩
    · rw [withoutMarkers, List.append_assoc, List.flatMap_def] at hcells
      exact List.append_cancel_left hcells
    · intro g hg
      obtain ⟨r, hr, rfl⟩ := List.mem_map.1 hg
      obtain ⟨arg, more, rfl⟩ := hlater r hr
      exact List.cons_ne_nil _ _
  · rintro ⟨front, groups, rfl, rfl, hgroups⟩
    refine ⟨?_, ⟨_, rfl, List.prefix_append head front⟩, ?_⟩
    · rw [withoutMarkers, List.flatMap_map, List.append_assoc]
      exact congrArg (fun later => head ++ (front ++ later)) List.flatMap_id
    · intro r hr
      obtain ⟨g, hg, rfl⟩ := List.mem_map.1 hr
      obtain ⟨arg, more, rfl⟩ := List.exists_cons_of_ne_nil (hgroups g hg)
      exact ⟨arg, more, rfl⟩

/-! ## Filling -/

/-- An argument that fits joins the row. -/
theorem fillFrom_cons_of_fits {arg : Token}
    (h : rowWidth indent row separator + Text.length separator + Text.length arg.value ≤ limit) :
    fillFrom indent separator limit false row (arg :: args) =
      fillFrom indent separator limit false (row ++ [arg]) args := by
  rw [fillFrom, if_pos]
  simpa using h

/-- An argument that does not fit opens a new row. -/
theorem fillFrom_cons_of_not_fits {arg : Token} (h : everyArg = true ∨
      limit < rowWidth indent row separator + Text.length separator + Text.length arg.value) :
    fillFrom indent separator limit everyArg row (arg :: args) =
      row :: fillFrom indent separator limit everyArg [continuationMarker, arg] args := by
  rw [fillFrom, if_neg]
  rcases h with rfl | h
  · simp
  · simpa using fun _ => h

/-- The row that is open comes first, with the arguments that fit. -/
theorem fillFrom_eq_cons (indent separator : String) (limit : Int) (everyArg : Bool)
    (row args : List Token) : ∃ extra more,
    fillFrom indent separator limit everyArg row args = (row ++ extra) :: more := by
  induction args generalizing row with
  | nil => exact ⟨[], [], by rw [fillFrom, List.append_nil]⟩
  | cons arg args ih =>
    rw [fillFrom]
    split
    · obtain ⟨extra, more, h⟩ := ih (row ++ [arg])
      exact ⟨arg :: extra, more, by rw [h, List.append_assoc, List.singleton_append]⟩
    · exact ⟨[], _, by rw [List.append_nil]⟩

/-- **Filling loses nothing.** -/
theorem isLayout_fillFrom (row args : List Token) :
    IsLayout row args (fillFrom indent separator limit everyArg row args) := by
  induction args generalizing row with
  | nil => exact isLayout_iff.2 ⟨[], [], by simp [fillFrom], rfl, List.forall_mem_nil _⟩
  | cons arg args ih =>
    rw [fillFrom]
    split
    · obtain ⟨front, groups, hrows, rfl, hgroups⟩ := isLayout_iff.1 (ih (row ++ [arg]))
      exact isLayout_iff.2 ⟨arg :: front, groups, by simp [hrows], rfl, hgroups⟩
    · obtain ⟨front, groups, hrows, rfl, hgroups⟩ := isLayout_iff.1 (ih [continuationMarker, arg])
      exact isLayout_iff.2 ⟨[], (arg :: front) :: groups, by simp [hrows], rfl,
        List.forall_mem_cons.2 ⟨List.cons_ne_nil _ _, hgroups⟩⟩

/-- **A row that is too wide** is the one that was open, or holds the marker and one argument. -/
theorem keepsLimit_fillFrom (indent separator : String) (limit : Int) (row args : List Token) :
    KeepsLimit indent separator limit row (fillFrom indent separator limit false row args) := by
  induction args generalizing row with
  | nil => exact ⟨fun r hr => .inl (Option.some.inj hr).symm, List.forall_mem_nil _⟩
  | cons arg args ih =>
    by_cases hfits : rowWidth indent row separator + Text.length separator +
        Text.length arg.value ≤ limit
    · rw [fillFrom_cons_of_fits hfits]
      obtain ⟨hfirst, hlater⟩ := ih (row ++ [arg])
      refine ⟨fun r hr => .inr ?_, hlater⟩
      rcases hfirst r hr with rfl | hwidth
      · have hconcat := rowWidth_concat_le indent separator row arg
        omega
      · exact hwidth
    · rw [fillFrom_cons_of_not_fits (.inr (Int.not_le.1 hfits))]
      refine ⟨fun r hr => .inl (Option.some.inj hr).symm, fun r hr => ?_⟩
      obtain ⟨hfirst, hlater⟩ := ih [continuationMarker, arg]
      obtain ⟨extra, more, hrows⟩ := fillFrom_eq_cons indent separator limit false
        [continuationMarker, arg] args
      rw [hrows] at hfirst hlater
      rw [List.tail_cons, hrows] at hr
      rcases List.mem_cons.1 hr with rfl | hr
      · exact (hfirst _ rfl).imp_left fun h => by rw [h]; rfl
      · exact hlater r hr

/-- A row is closed only when the next argument does not fit. -/
theorem leavesNoRoom_fillFrom (hne : row ≠ []) :
    LeavesNoRoom indent separator limit (fillFrom indent separator limit false row args) := by
  induction args generalizing row with
  | nil => exact List.isChain_singleton row
  | cons arg args ih =>
    by_cases hfits : rowWidth indent row separator + Text.length separator +
        Text.length arg.value ≤ limit
    · rw [fillFrom_cons_of_fits hfits]
      exact ih (List.append_ne_nil_of_left_ne_nil hne _)
    · rw [fillFrom_cons_of_not_fits (.inr (Int.not_le.1 hfits))]
      have hrest := @ih [continuationMarker, arg] (List.cons_ne_nil _ _)
      obtain ⟨extra, more, hrows⟩ := fillFrom_eq_cons indent separator limit false
        [continuationMarker, arg] args
      rw [hrows] at hrest ⊢
      refine List.isChain_cons_cons.2 ⟨fun a ha => ?_, hrest⟩
      obtain rfl : arg = a := Option.some.inj ha
      rw [rowWidth_concat hne]
      exact Int.not_le.1 hfits

/-- Each argument has a row of its own when that is asked for. -/
theorem fillFrom_everyArg (row args : List Token) :
    fillFrom indent separator limit true row args =
      row :: args.map fun arg => [continuationMarker, arg] := by
  induction args generalizing row with
  | nil => rfl
  | cons arg args ih => rw [fillFrom_cons_of_not_fits (.inl rfl), ih, List.map_cons]

/-! ## Fewest rows -/

/-- Arguments that have room behind a row join it. -/
theorem fillFrom_append_of_fits (hne : row ≠ []) {cells : List Token}
    (h : cells = [] ∨ rowWidth indent (row ++ cells) separator ≤ limit) :
    fillFrom indent separator limit false row (cells ++ args) =
      fillFrom indent separator limit false (row ++ cells) args := by
  induction cells generalizing row with
  | nil => rw [List.nil_append, List.append_nil]
  | cons c cells ih =>
    have hwidth : rowWidth indent (row ++ c :: cells) separator ≤ limit :=
      h.resolve_left (List.cons_ne_nil _ _)
    have hne' : row ++ [c] ≠ [] := List.append_ne_nil_of_left_ne_nil hne _
    rw [List.append_cons] at hwidth
    have hfits := rowWidth_append indent separator hne' cells
    rw [rowWidth_concat hne] at hfits
    rw [List.cons_append, fillFrom_cons_of_fits (by omega), ih hne' (.inr hwidth),
      ← List.append_cons]

/-- **Filling stays ahead.**  While the arguments of one row of another layout are filled in, at
most one row is closed. -/
theorem exists_fillFrom_append_le (hne : row ≠ []) (args : List Token) {cells : List Token}
    (h : cells.length ≤ 1 ∨ rowWidth indent (continuationMarker :: cells) separator ≤ limit) :
    ∃ row' ≠ [], (fillFrom indent separator limit false row (cells ++ args)).length ≤
      (fillFrom indent separator limit false row' args).length + 1 := by
  induction cells generalizing row with
  | nil => exact ⟨row, hne, Nat.le_succ _⟩
  | cons c cells ih =>
    by_cases hfits : rowWidth indent row separator + Text.length separator +
        Text.length c.value ≤ limit
    · rw [List.cons_append, fillFrom_cons_of_fits hfits]
      refine ih (List.append_ne_nil_of_left_ne_nil hne _) (h.imp (fun hlen => ?_) fun hwidth => ?_)
      · exact Nat.le_trans (Nat.le_succ _) hlen
      · have hshort := rowWidth_marker_le indent separator c cells
        omega
    · -- the rest of the row has room behind the marker and its first argument
      have hroom : cells = [] ∨
          rowWidth indent ([continuationMarker, c] ++ cells) separator ≤ limit :=
        h.imp_left fun hlen => List.eq_nil_of_length_eq_zero (by simpa using hlen)
      have hmarked : [continuationMarker, c] ≠ [] := List.cons_ne_nil _ _
      refine ⟨[continuationMarker, c] ++ cells, List.append_ne_nil_of_left_ne_nil hmarked _, ?_⟩
      rw [List.cons_append, fillFrom_cons_of_not_fits (.inr (Int.not_le.1 hfits)),
        fillFrom_append_of_fits hmarked hroom, List.length_cons]

/-- Filling opens no more rows than another layout has behind its first. -/
theorem length_fillFrom_le (hne : row ≠ []) {groups : List (List Token)}
    (h : ∀ g ∈ groups,
      g.length ≤ 1 ∨ rowWidth indent (continuationMarker :: g) separator ≤ limit) :
    (fillFrom indent separator limit false row groups.flatten).length ≤ groups.length + 1 := by
  induction groups generalizing row with
  | nil => exact Nat.le_refl 1
  | cons g groups ih =>
    obtain ⟨hg, hgroups⟩ := List.forall_mem_cons.1 h
    obtain ⟨row', hne', hle⟩ := exists_fillFrom_append_le hne groups.flatten hg
    rw [List.flatten_cons, List.length_cons]
    exact Nat.le_trans hle (Nat.succ_le_succ (ih hne' hgroups))

/-- Rows are filled by the texts of cells. -/
theorem fillFrom_values {limit : Int} {everyArg : Bool} {row row' args args' : List Token}
    (hrow : row'.map (·.value) = row.map (·.value))
    (hargs : args'.map (·.value) = args.map (·.value)) :
    (fillFrom indent separator limit everyArg row' args').map (List.map (·.value)) =
      (fillFrom indent separator limit everyArg row args).map (List.map (·.value)) := by
  induction args generalizing row row' args' with
  | nil =>
    obtain rfl : args' = [] := List.map_eq_nil_iff.1 hargs
    rw [fillFrom, fillFrom, List.map_singleton, List.map_singleton, hrow]
  | cons arg args ih =>
    obtain ⟨arg', args', rfl, harg, hrest⟩ := List.map_eq_cons_iff.1 hargs
    have hwidth : rowWidth indent row' separator = rowWidth indent row separator := by
      rw [rowWidth, rowWidth, hrow]
    rw [fillFrom, fillFrom, hwidth, harg]
    split
    · exact ih (by simp [hrow, harg]) hrest
    · have hopen : [continuationMarker, arg'].map (·.value) =
          [continuationMarker, arg].map (·.value) := by simp [harg]
      rw [List.map_cons, List.map_cons, hrow, ih hopen hrest]

end

/-- **Rows are filled greedily, and no layout has fewer.**  The rows hold the head and the arguments
in their order.  When each argument is to have a row of its own, it has one.  Otherwise the rows
keep to the limit where they can, and behind a head that is not empty no row has room for the first
argument of the next, and every layout that keeps to the limit has at least as many rows. -/
theorem fillRows_least (indent : String) (head args : List Token) (separator : String) (limit : Int)
    (everyArg : Bool) :
    let rows := fillRows indent head args separator limit everyArg
    IsLayout head args rows ∧
      (everyArg = true → rows.head? = some head ∧ ∀ row ∈ rows.tail, row.length = 2) ∧
      (everyArg = false → KeepsLimit indent separator limit head rows ∧
        (head ≠ [] → LeavesNoRoom indent separator limit rows ∧
          ∀ others, IsLayout head args others → KeepsLimit indent separator limit head others →
            rows.length ≤ others.length)) := by
  intro rows
  refine ⟨isLayout_fillFrom head args, ?_, ?_⟩
  · rintro rfl
    have hrows : rows = head :: args.map fun arg => [continuationMarker, arg] :=
      fillFrom_everyArg head args
    rw [hrows]
    refine ⟨rfl, fun row hrow => ?_⟩
    obtain ⟨arg, -, rfl⟩ := List.mem_map.1 hrow
    rfl
  · rintro rfl
    refine ⟨keepsLimit_fillFrom indent separator limit head args,
      fun hne => ⟨leavesNoRoom_fillFrom hne, ?_⟩⟩
    intro others hlayout hlimit
    obtain ⟨front, groups, rfl, rfl, -⟩ := isLayout_iff.1 hlayout
    have hfront : front = [] ∨ rowWidth indent (head ++ front) separator ≤ limit :=
      (hlimit.first _ rfl).imp_left List.append_right_eq_self.1
    have hgroups : ∀ g ∈ groups,
        g.length ≤ 1 ∨ rowWidth indent (continuationMarker :: g) separator ≤ limit := by
      intro g hg
      refine (hlimit.later _ (List.mem_map_of_mem hg)).imp_left fun hlen => ?_
      exact Nat.le_of_eq (Nat.succ.inj hlen)
    have hrows : rows = fillFrom indent separator limit false (head ++ front) groups.flatten :=
      fillFrom_append_of_fits hne hfront
    rw [hrows, List.length_cons, List.length_map]
    exact length_fillFrom_le (List.append_ne_nil_of_left_ne_nil hne _) hgroups

/-- Two arguments behind a head, of which the first fits. -/
theorem fillRows_least_of_two :
    let head : List Token := [.create .argument "A"]
    let args : List Token := [.create .argument "bb", .create .argument "cc"]
    let rows := fillRows "" head args "  " 6 false
    rows.map (·.map (·.value)) = [["A", "bb"], ["...", "cc"]] ∧ LeavesNoRoom "" "  " 6 rows ∧
      ∀ others, IsLayout head args others → KeepsLimit "" "  " 6 head others →
        rows.length ≤ others.length := by
  intro head args rows
  obtain ⟨-, -, hgreedy⟩ := fillRows_least "" head args "  " 6 false
  exact ⟨by decide, (hgreedy rfl).2 (List.cons_ne_nil _ _)⟩

/-- Behind a head without cells an argument is put into a row of its own, although it would fit. -/
theorem fillRows_not_least :
    let args : List Token := [.create .argument "abcde"]
    let rows := fillRows "" [] args "    " 8 false
    rows.map (·.map (·.value)) = [[], ["...", "abcde"]] ∧ ¬ LeavesNoRoom "" "    " 8 rows ∧
      ¬ ∀ others, IsLayout [] args others → KeepsLimit "" "    " 8 [] others →
        rows.length ≤ others.length := by
  intro args rows
  have hrows : rows = [[], [continuationMarker, .create .argument "abcde"]] := by decide
  refine ⟨by decide, fun hroom => ?_, fun hleast => ?_⟩
  · rw [hrows, LeavesNoRoom, List.isChain_cons_cons] at hroom
    exact absurd (hroom.1 _ rfl) (by decide)
  · -- all arguments in the first row
    have hlayout : IsLayout [] args [args] :=
      isLayout_iff.2 ⟨args, [], rfl, List.append_nil _, List.forall_mem_nil _⟩
    have hlimit : KeepsLimit "" "    " 8 [] [args] :=
      ⟨fun row hrow => .inr (by obtain rfl := Option.some.inj hrow; decide), List.forall_mem_nil _⟩
    have hle := hleast [args] hlayout hlimit
    rw [hrows] at hle
    exact absurd hle (by decide)

end Split
end RobotSuite
