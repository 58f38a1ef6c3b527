/-
# Differences are shortest

The edits of a difference, read without what they add, are the lines of the old text, and read
without what they remove, those of the new one, whatever stands in the table along which the
comparison walks (`old_walk`, `new_walk`).  The table decides only how many lines are kept.

`commonLength` is the recursion that the table tabulates: `table_eq` says that the table holds its
value for each two suffixes.  No common subsequence is longer (`length_le_commonLength`), and the
walk keeps as many lines (`length_kept_walk`).  An edit script keeps a common subsequence of the two
texts, and what it adds and removes is the rest of both (`length_kept_add_changed`), so no script
has fewer changes than one that keeps the most lines (`lineDiff_shortest`).
-/

import Mathlib.Data.List.Infix
import RobotSuite.Diff

namespace RobotSuite

/-! ## Longest common subsequences -/

/-- How many elements two lists have in common, at most, in the same order. -/
def commonLength : List String → List String → Nat
  | [], _ => 0
  | _ :: _, [] => 0
  | a :: as, b :: bs =>
    if a = b then commonLength as bs + 1
    else max (commonLength as (b :: bs)) (commonLength (a :: as) bs)
termination_by as bs => as.length + bs.length

/-- No common subsequence is longer. -/
theorem length_le_commonLength {common as bs : List String} (hold : common.Sublist as)
    (hnew : common.Sublist bs) : common.length ≤ commonLength as bs := by
  fun_induction commonLength as bs generalizing common with
  | case1 bs => rw [List.sublist_nil.1 hold, List.length_nil]
  | case2 a as => rw [List.sublist_nil.1 hnew, List.length_nil]
  | case3 as b bs ih =>
    have htail := ih hold.tail hnew.tail
    rw [List.length_tail] at htail
    omega
  | case4 a as b bs hne ihold ihnew =>
    -- the first element of the subsequence is missing in front of one of the two lists
    cases hold with
    | cons _ hold => exact (ihold hold hnew).trans (le_max_left _ _)
    | cons_cons _ hold =>
      cases hnew with
      | cons _ hnew => exact (ihnew (hold.cons_cons a) hnew).trans (le_max_right _ _)
      | cons_cons _ _ => exact absurd rfl hne

/-! ## The table -/

namespace LineEdit

/-- The line that an edit keeps. -/
def kept? : LineEdit → Option String
  | keep line => some line
  | _ => none

/-- The line that an edit adds or removes. -/
def changed? : LineEdit → Option String
  | keep _ => none
  | add line | remove line => some line

end LineEdit

namespace Diff

/-- The entries of the table for a list, one for each suffix of the other. -/
def rowFor (as bs : List String) : List Nat := bs.tails.map (commonLength as)

/-- The whole table. -/
def fullTable (as bs : List String) : List (List Nat) := as.tails.map fun as => rowFor as bs

/-- A row starts with how many lines are common from here on. -/
theorem rowFor_cons (as : List String) (b : String) (bs : List String) :
    rowFor as (b :: bs) = commonLength as (b :: bs) :: rowFor as bs := by
  simp [rowFor]

/-- The first number of a row is how many lines are common. -/
theorem headD_rowFor (as bs : List String) : (rowFor as bs).headD 0 = commonLength as bs := by
  cases bs <;> simp [rowFor]

/-- A table starts with the row of its first line. -/
theorem fullTable_cons (a : String) (as bs : List String) :
    fullTable (a :: as) bs = rowFor (a :: as) bs :: fullTable as bs := by
  simp [fullTable]

/-- The first row of a table is that of the first line. -/
theorem headD_fullTable (as bs : List String) : (fullTable as bs).headD [] = rowFor as bs := by
  cases as <;> simp [fullTable]

/-- A table without its first column is that without the first new line. -/
theorem map_tail_fullTable (as : List String) (b : String) (bs : List String) :
    (fullTable as (b :: bs)).map List.tail = fullTable as bs := by
  simp [fullTable, rowFor_cons]

/-- A row holds what it should if the row below does. -/
theorem row_eq (a : String) (as bs : List String) :
    row a bs (rowFor as bs) = rowFor (a :: as) bs := by
  induction bs with
  | nil => simp [row, rowFor, commonLength]
  | cons b bs ih =>
    rw [rowFor_cons, row, List.tail_cons, ih, headD_rowFor, headD_rowFor, List.headD_cons,
      rowFor_cons, commonLength]

/-- **The table is right.** -/
theorem table_eq (as bs : List String) : table as bs = fullTable as bs := by
  induction as with
  | nil =>
    have hzero : commonLength [] = fun _ => 0 := by funext; simp [commonLength]
    simp [table, fullTable, rowFor, hzero, List.map_const']
  | cons a as ih => rw [table, ih, headD_fullTable, row_eq, fullTable_cons]

/-! ## The walk -/

/-- What the edits take is the old text, along any table. -/
theorem old_walk (as bs : List String) (rows : List (List Nat)) :
    (walk as bs rows).filterMap LineEdit.old? = as := by
  induction as generalizing bs rows with
  | nil => simp [walk, List.filterMap_map, Function.comp_def, LineEdit.old?]
  | cons a as ihas =>
    induction bs generalizing rows with
    | nil => simp [walk, List.filterMap_map, Function.comp_def, LineEdit.old?]
    | cons b bs ihbs =>
      rw [walk]
      split_ifs with heq hright
      · exact congrArg (a :: ·) (ihas _ _)
      · exact ihbs _
      · exact congrArg (a :: ·) (ihas _ _)

/-- What the edits give is the new text, along any table. -/
theorem new_walk (as bs : List String) (rows : List (List Nat)) :
    (walk as bs rows).filterMap LineEdit.new? = bs := by
  induction as generalizing bs rows with
  | nil => simp [walk, List.filterMap_map, Function.comp_def, LineEdit.new?]
  | cons a as ihas =>
    induction bs generalizing rows with
    | nil => simp [walk, LineEdit.new?]
    | cons b bs ihbs =>
      rw [walk]
      split_ifs with heq hright
      · exact heq ▸ congrArg (a :: ·) (ihas _ _)
      · exact congrArg (b :: ·) (ihbs _)
      · exact ihas _ _

/-- Along the full table the walk keeps as many lines as the two texts have in common. -/
theorem length_kept_walk (as bs : List String) :
    ((walk as bs (fullTable as bs)).filterMap LineEdit.kept?).length = commonLength as bs := by
  induction as generalizing bs with
  | nil => simp [walk, List.filterMap_map, Function.comp_def, LineEdit.kept?, commonLength]
  | cons a as ihas =>
    induction bs with
    | nil => simp [walk, LineEdit.kept?, commonLength]
    | cons b bs ihbs =>
      rw [walk, fullTable_cons, List.tail_cons, headD_fullTable, headD_rowFor, List.headD_cons,
        rowFor_cons, List.tail_cons, headD_rowFor, ← rowFor_cons, ← fullTable_cons,
        map_tail_fullTable, map_tail_fullTable, commonLength]
      split_ifs with heq hright
      · exact congrArg (· + 1) (ihas bs)
      · rw [List.filterMap_cons_none rfl, ihbs, max_eq_right hright]
      · rw [List.filterMap_cons_none rfl, ihas, max_eq_left (by omega)]

end Diff

/-! ## Edit scripts -/

/-- Each kept line is a line of the old text. -/
theorem sublist_old (edits : List LineEdit) :
    (edits.filterMap LineEdit.kept?).Sublist (edits.filterMap LineEdit.old?) := by
  induction edits with
  | nil => exact .slnil
  | cons e edits ih =>
    cases e with
    | keep line => exact ih.cons_cons line
    | add line => exact ih
    | remove line => exact ih.cons line

/-- Each kept line is a line of the new text. -/
theorem sublist_new (edits : List LineEdit) :
    (edits.filterMap LineEdit.kept?).Sublist (edits.filterMap LineEdit.new?) := by
  induction edits with
  | nil => exact .slnil
  | cons e edits ih =>
    cases e with
    | keep line => exact ih.cons_cons line
    | add line => exact ih.cons line
    | remove line => exact ih

/-- The lines of both texts are kept, each in both, or changed. -/
theorem length_kept_add_changed (edits : List LineEdit) :
    2 * (edits.filterMap LineEdit.kept?).length + (edits.filterMap LineEdit.changed?).length =
      (edits.filterMap LineEdit.old?).length + (edits.filterMap LineEdit.new?).length := by
  induction edits with
  | nil => rfl
  | cons e edits ih =>
    cases e <;>
      simp only [List.filterMap_cons, LineEdit.kept?, LineEdit.changed?, LineEdit.old?,
        LineEdit.new?, List.length_cons] <;>
      omega

/-- Of two scripts between the same texts the one that keeps more lines has fewer changes. -/
theorem length_changed_le {edits script : List LineEdit}
    (hold : script.filterMap LineEdit.old? = edits.filterMap LineEdit.old?)
    (hnew : script.filterMap LineEdit.new? = edits.filterMap LineEdit.new?)
    (hkept : (script.filterMap LineEdit.kept?).length ≤ (edits.filterMap LineEdit.kept?).length) :
    (edits.filterMap LineEdit.changed?).length ≤ (script.filterMap LineEdit.changed?).length := by
  have hedits := length_kept_add_changed edits
  have hscript := length_kept_add_changed script
  rw [hold, hnew] at hscript
  omega

/-! ## The text of a difference -/

namespace Text

/-- Texts that are joined by a separator are cut apart again. -/
theorem pieces_intercalate (sep : Char) (line : String) (lines : List String) :
    pieces sep ((String.singleton sep).intercalate (line :: lines)) =
      (line :: lines).flatMap (pieces sep) := by
  induction lines generalizing line with
  | nil => simp [String.intercalate_singleton]
  | cons next lines ih =>
    have hjoin : ((String.singleton sep).intercalate (line :: next :: lines)).toList =
        line.toList ++ sep :: ((String.singleton sep).intercalate (next :: lines)).toList := by
      simp [String.intercalate_cons_cons]
    rw [pieces, hjoin, splitOn_append_sep, List.map_append, ← pieces, ← pieces, ih]
    rfl

end Text

/-- A line behind one of some marks, without the mark. -/
def marked (marks : List Char) (line : String) : Option String :=
  match line.toList with
  | [] => none
  | mark :: cs => if mark ∈ marks then some (String.ofList cs) else none

/-- The line of an edit is shown behind its mark. -/
theorem marked_shown (marks : List Char) (e : LineEdit) :
    marked marks e.shown =
      match e with
      | .keep line => if ' ' ∈ marks then some line else none
      | .add line => if '+' ∈ marks then some line else none
      | .remove line => if '-' ∈ marks then some line else none := by
  cases e <;> simp [marked, LineEdit.shown]

/-- The mark of a line tells whether it stood in the old text. -/
theorem marked_old (e : LineEdit) : marked [' ', '-'] e.shown = e.old? := by
  cases e <;> simp [marked_shown, LineEdit.old?]

/-- The mark of a line tells whether it stands in the new text. -/
theorem marked_new (e : LineEdit) : marked [' ', '+'] e.shown = e.new? := by
  cases e <;> simp [marked_shown, LineEdit.new?]

/-- The mark of a line tells whether it was kept. -/
theorem marked_kept (e : LineEdit) : marked [' '] e.shown = e.kept? := by
  cases e <;> simp [marked_shown, LineEdit.kept?]

/-- The mark of a line tells whether it was changed. -/
theorem marked_changed (e : LineEdit) : marked ['+', '-'] e.shown = e.changed? := by
  cases e <;> simp [marked_shown, LineEdit.changed?]

/-- What marks tell of each line they tell of a difference. -/
theorem filterMap_marked {marks : List Char} {read : LineEdit → Option String}
    (h : ∀ e, marked marks e.shown = read e) (edits : List LineEdit) :
    (edits.map LineEdit.shown).filterMap (marked marks) = edits.filterMap read := by
  rw [List.filterMap_map]
  exact List.filterMap_congr fun e _ => h e

/-- An edit between two texts is shown on one line, because their lines hold no line feed. -/
theorem pieces_shown {before after : String} {edits : List LineEdit} {e : LineEdit}
    (hold : edits.filterMap LineEdit.old? = Text.pieces '\n' before)
    (hnew : edits.filterMap LineEdit.new? = Text.pieces '\n' after) (he : e ∈ edits) :
    Text.pieces '\n' e.shown = [e.shown] := by
  have hfeed {line text : String} (hline : line ∈ Text.pieces '\n' text) : '\n' ∉ line.toList := by
    obtain ⟨cs, hcs, rfl⟩ := List.mem_map.1 hline
    rw [String.toList_ofList]
    exact Text.not_mem_of_mem_splitOn hcs
  have hshown : '\n' ∉ e.shown.toList := by
    cases e with
    | keep line =>
      have hline : line ∈ Text.pieces '\n' before := hold ▸ List.mem_filterMap.2 ⟨_, he, rfl⟩
      simpa [LineEdit.shown] using hfeed hline
    | add line =>
      have hline : line ∈ Text.pieces '\n' after := hnew ▸ List.mem_filterMap.2 ⟨_, he, rfl⟩
      simpa [LineEdit.shown] using hfeed hline
    | remove line =>
      have hline : line ∈ Text.pieces '\n' before := hold ▸ List.mem_filterMap.2 ⟨_, he, rfl⟩
      simpa [LineEdit.shown] using hfeed hline
  rw [Text.pieces, Text.splitOn_of_not_mem hshown, List.map_singleton, String.ofList_toList]

/-- **Differences are right and shortest.**  Behind the header, two lines unless the path holds line
feeds, the lines of a difference with a space or a minus in front are the old text and those with a
space or a plus are the new one.  The lines with a space are a longest common subsequence of both,
and no edit script from the old text to the new one adds and removes fewer lines. -/
theorem lineDiff_shortest (path before after : String) :
    let old := Text.pieces '\n' before
    let new := Text.pieces '\n' after
    ∃ body : List String,
      Text.pieces '\n' (lineDiff path before after) =
          Text.pieces '\n' ("--- " ++ path) ++ Text.pieces '\n' ("+++ " ++ path) ++ body ∧
        (∀ line ∈ body, (marked [' ', '+', '-'] line).isSome) ∧
        body.filterMap (marked [' ', '-']) = old ∧
        body.filterMap (marked [' ', '+']) = new ∧
        (body.filterMap (marked [' '])).Sublist old ∧
        (body.filterMap (marked [' '])).Sublist new ∧
        (∀ common : List String, common.Sublist old → common.Sublist new →
          common.length ≤ (body.filterMap (marked [' '])).length) ∧
        ∀ script : List LineEdit, script.filterMap LineEdit.old? = old →
          script.filterMap LineEdit.new? = new →
            (body.filterMap (marked ['+', '-'])).length ≤
              (script.filterMap LineEdit.changed?).length := by
  intro old new
  let edits := lineEdits old new
  have hold : edits.filterMap LineEdit.old? = old := Diff.old_walk _ _ _
  have hnew : edits.filterMap LineEdit.new? = new := Diff.new_walk _ _ _
  have hkept : (edits.filterMap LineEdit.kept?).length = commonLength old new := by
    simp only [edits, lineEdits, Diff.table_eq, Diff.length_kept_walk]
  refine ⟨edits.map LineEdit.shown, ?_, ?_, ?_⟩
  · have hlines : (edits.map LineEdit.shown).flatMap (Text.pieces '\n') =
        edits.map LineEdit.shown := by
      rw [List.flatMap_map, List.map_eq_flatMap]
      exact List.flatMap_congr fun e he => pieces_shown hold hnew he
    have hfeed : "\n" = String.singleton '\n' := rfl
    rw [lineDiff, hfeed, Text.pieces_intercalate, List.flatMap_cons, List.flatMap_cons, hlines,
      List.append_assoc]
  · intro line hline
    obtain ⟨e, -, rfl⟩ := List.mem_map.1 hline
    cases e <;> simp [marked_shown]
  · rw [filterMap_marked marked_old, filterMap_marked marked_new, filterMap_marked marked_kept,
      filterMap_marked marked_changed]
    refine ⟨hold, hnew, hold ▸ sublist_old edits, hnew ▸ sublist_new edits, ?_, ?_⟩
    · intro common hcold hcnew
      exact hkept ▸ length_le_commonLength hcold hcnew
    · intro script hsold hsnew
      refine length_changed_le (hsold.trans hold.symm) (hsnew.trans hnew.symm) ?_
      exact hkept ▸ length_le_commonLength (hsold ▸ sublist_old script) (hsnew ▸ sublist_new script)

end RobotSuite
