/-
# Changes of a text

A text is cut into stretches, each of which stays or is replaced (`Stretch`), and a stretch that is
replaced is not empty.  Then the changes lie inside the text and apart from each other
(`bounds_changesFrom`, `pairwise_changesFrom`).  In whatever order they are given, none is left
out, and making them from the end of the text to its start puts the new stretches in the places of
the old ones (`changes_of_perm`).
-/

import Mathlib.Data.List.Sort
import RobotSuite.Lint.Fixing

namespace RobotSuite

namespace Text

/-- Taking the units of a prefix takes the prefix. -/
theorem takeUnits_append (a b : List Char) : takeUnits (units a) (a ++ b) = a := by
  induction a with
  | nil =>
    cases b with
    | nil => rfl
    | cons c cs =>
      have := charUnits_pos c
      rw [List.nil_append, takeUnits, if_neg (by simp; omega)]
  | cons c a ih =>
    rw [units_cons, List.cons_append, takeUnits, if_pos (Nat.le_add_right _ _),
      Nat.add_sub_cancel_left, ih]

/-- A text that is not empty has units. -/
theorem units_pos {cs : List Char} (h : cs ≠ []) : 0 < units cs := by
  obtain ⟨c, cs, rfl⟩ := List.exists_cons_of_ne_nil h
  exact Nat.lt_of_lt_of_le (charUnits_pos c) (Nat.le_add_right _ _)

end Text

/-! ## Stretches -/

/-- A stretch of a text, which stays or is replaced. -/
structure Stretch where
  /-- The text. -/
  old : List Char
  /-- The code under which it is to be replaced, and the new text. -/
  edit : Option (String × String)

namespace Stretch

/-- What stands in the place of a stretch in the end. -/
def new (x : Stretch) : List Char := x.edit.elim x.old fun e => e.2.toList

/-- A stretch that is replaced is not empty. -/
def Solid (x : Stretch) : Prop := x.edit.isSome = true → x.old ≠ []

end Stretch

/-- The text of some stretches. -/
def oldText (xs : List Stretch) : List Char := xs.flatMap (·.old)

/-- What stands in the places of some stretches in the end. -/
def newText (xs : List Stretch) : List Char := xs.flatMap (·.new)

/-- The changes that some stretches ask for, when the first starts at an offset. -/
def changesFrom (start : Nat) : List Stretch → List Change
  | [] => []
  | x :: xs =>
    let stop := start + Text.units x.old
    (x.edit.map fun e => (⟨e.1, start, stop, e.2⟩ : Change)).toList ++ changesFrom stop xs

/-- The changes of two stretches come one after the other. -/
theorem changesFrom_append (start : Nat) (xs ys : List Stretch) :
    changesFrom start (xs ++ ys) =
      changesFrom start xs ++ changesFrom (start + Text.units (oldText xs)) ys := by
  induction xs generalizing start with
  | nil => rfl
  | cons x xs ih =>
    rw [List.cons_append, changesFrom, changesFrom, ih, oldText, oldText, List.flatMap_cons,
      Text.units_append, Nat.add_assoc, List.append_assoc]

section
variable {xs : List Stretch}

/-- The changes lie inside the text, and none is empty. -/
theorem bounds_changesFrom (h : ∀ x ∈ xs, x.Solid) (start : Nat) :
    ∀ c ∈ changesFrom start xs, (start : Int) ≤ c.start ∧ c.start < c.stop ∧
      c.stop ≤ (start + Text.units (oldText xs) : Nat) := by
  induction xs generalizing start with
  | nil => simp [changesFrom]
  | cons x xs ih =>
    obtain ⟨hx, hxs⟩ := List.forall_mem_cons.1 h
    have hunits : Text.units (oldText (x :: xs)) =
        Text.units x.old + Text.units (oldText xs) := by
      rw [oldText, List.flatMap_cons, Text.units_append, oldText]
    rw [hunits]
    intro c hc
    rcases List.mem_append.1 hc with hc | hc
    · obtain ⟨e, he, rfl⟩ := Option.map_eq_some_iff.1 (Option.mem_toList.1 hc)
      have := Text.units_pos (hx (by rw [he]; rfl))
      refine ⟨Int.le_refl _, ?_, ?_⟩
      · show (start : Int) < (start + Text.units x.old : Nat)
        omega
      · show ((start + Text.units x.old : Nat) : Int) ≤ _
        omega
    · obtain ⟨hstart, hlt, hstop⟩ := ih hxs _ c hc
      refine ⟨?_, hlt, ?_⟩ <;> omega

/-- The changes stand one behind the other. -/
theorem pairwise_changesFrom (h : ∀ x ∈ xs, x.Solid) (start : Nat) :
    (changesFrom start xs).Pairwise fun a b => a.stop ≤ b.start := by
  induction xs generalizing start with
  | nil => exact .nil
  | cons x xs ih =>
    obtain ⟨-, hxs⟩ := List.forall_mem_cons.1 h
    rw [changesFrom]
    refine List.pairwise_append.2 ⟨?_, ih hxs _, ?_⟩
    · cases x.edit <;> simp
    · intro a ha b hb
      obtain ⟨e, -, rfl⟩ := Option.map_eq_some_iff.1 (Option.mem_toList.1 ha)
      exact (bounds_changesFrom hxs _ b hb).1

end

/-! ## The order of changes -/

namespace Change

/-- Changes one behind the other do not overlap. -/
theorem overlaps_eq_false {a b : Change} (ha : a.start < a.stop)
    (h : a.stop ≤ b.start ∨ b.stop ≤ a.start) : a.overlaps b = false := by
  rw [overlaps, if_neg (by simp; omega), Bool.and_eq_false_iff]
  rcases h with h | h
  · exact .inr (by simp; omega)
  · exact .inl (by simp; omega)

/-- Changes that do not collide are all chosen. -/
theorem choose_of_disjoint {kept cs : List Change}
    (hk : ∀ c ∈ cs, ∀ k ∈ kept, c.overlaps k = false)
    (hcs : cs.Pairwise fun a b => b.overlaps a = false) : choose kept cs = (cs, []) := by
  induction cs generalizing kept with
  | nil => rfl
  | cons c cs ih =>
    obtain ⟨hc, hrest⟩ := List.pairwise_cons.1 hcs
    have hany : kept.any c.overlaps = false := by
      rw [List.any_eq_false]
      intro k hmem
      rw [hk c List.mem_cons_self k hmem]
      exact Bool.false_ne_true
    have hnext : choose (kept ++ [c]) cs = (cs, []) := by
      refine ih (fun d hd => List.forall_mem_append.2 ⟨?_, ?_⟩) hrest
      · exact hk d (List.mem_cons_of_mem _ hd)
      · exact List.forall_mem_singleton.2 (hc d hd)
    rw [choose, hany, hnext]
    rfl

/-- Sorting from the end loses no change. -/
theorem perm_fromEnd (cs : List Change) : (fromEnd cs).Perm cs := List.mergeSort_perm cs _

/-- From the end on each change ends no later than the one before. -/
theorem pairwise_fromEnd (cs : List Change) :
    (fromEnd cs).Pairwise fun a b => b.stop ≤ a.stop := by
  have h := @List.pairwise_mergeSort Change (fun a b => decide (b.stop ≤ a.stop))
    (fun a b c hab hbc => by simp only [decide_eq_true_eq] at *; omega)
    (fun a b => by simp only [Bool.or_eq_true, decide_eq_true_eq]; omega) cs
  exact h.imp fun h => by simpa using h

section
variable {cs ds : List Change}

/-- Changes that stand one behind the other are put in order from the end to the start, however
they are given. -/
theorem fromEnd_of_perm (hp : ds.Perm cs) (hlt : ∀ c ∈ cs, c.start < c.stop)
    (hcs : cs.Pairwise fun a b => a.stop ≤ b.start) : fromEnd ds = cs.reverse := by
  have hstops : cs.Pairwise fun a b => a.stop < b.stop := by
    refine hcs.imp_of_mem fun ha hb hab => ?_
    have := hlt _ hb
    omega
  have hrev : cs.reverse.Pairwise fun a b => b.stop < a.stop := List.pairwise_reverse.2 hstops
  have hperm : (fromEnd ds).Perm cs.reverse :=
    (perm_fromEnd ds).trans (hp.trans cs.reverse_perm.symm)
  refine hperm.eq_of_pairwise ?_ (pairwise_fromEnd ds) (hrev.imp Int.le_of_lt)
  intro a b ha hb hab hba
  -- two changes that end at one place are the same
  have hnodup : (cs.reverse.map (·.stop)).Nodup :=
    List.pairwise_map.2 (hrev.imp fun h => (Int.ne_of_lt h).symm)
  exact List.inj_on_of_nodup_map hnodup (hperm.mem_iff.1 ha) hb (Int.le_antisymm hba hab)

end

/-- A bound within the text stays. -/
theorem clamp_natCast {n m : Nat} (h : n ≤ m) : clamp m n = n := by
  rw [clamp, if_neg (by omega), Int.toNat_natCast, Nat.min_eq_right h]

/-- A change replaces the middle of three parts. -/
theorem apply_eq (a b c : List Nat) (code v : String) :
    apply (a ++ (b ++ c)) ⟨code, (a.length : Nat), (a.length + b.length : Nat), v⟩ =
      a ++ (Text.unitsOf v ++ c) := by
  have hlength : (a ++ (b ++ c)).length = a.length + (b.length + c.length) := by
    rw [List.length_append, List.length_append]
  have hdrop : (a ++ (b ++ c)).drop (a.length + b.length) = c := by
    rw [← List.length_append, ← List.append_assoc, List.drop_left]
  rw [apply]
  dsimp only
  rw [clamp_natCast (by omega), clamp_natCast (by omega), List.take_left, hdrop,
    List.append_assoc]

end Change

/-- Making the changes from the last to the first puts the new stretches in their places. -/
theorem foldr_apply_changesFrom (xs : List Stretch) (front : List Nat) :
    (changesFrom front.length xs).foldr (fun c us => c.apply us)
        (front ++ (oldText xs).flatMap Text.codeUnits) =
      front ++ (newText xs).flatMap Text.codeUnits := by
  induction xs generalizing front with
  | nil => rfl
  | cons x xs ih =>
    have hrest := ih (front ++ x.old.flatMap Text.codeUnits)
    have hlength := Text.length_flatMap_codeUnits x.old
    rw [List.length_append, hlength, List.append_assoc, List.append_assoc] at hrest
    have hold : oldText (x :: xs) = x.old ++ oldText xs := List.flatMap_cons
    have hnew : newText (x :: xs) = x.new ++ newText xs := List.flatMap_cons
    rw [changesFrom, List.foldr_append, hold, List.flatMap_append, hrest, hnew, Stretch.new,
      List.flatMap_append]
    cases x.edit with
    | none => rfl
    | some e =>
      rw [← hlength]
      exact Change.apply_eq front _ _ e.1 e.2

/-- **Changes that stand one behind the other can all be made,** in whatever order they are given:
none is left out, and the new stretches come in the places of the old ones. -/
theorem changes_of_perm {xs : List Stretch} (h : ∀ x ∈ xs, x.Solid) {cs : List Change}
    (hp : cs.Perm (changesFrom 0 xs)) :
    Change.choose [] (Change.fromEnd cs) = (Change.fromEnd cs, []) ∧
      Change.applyAll (String.ofList (oldText xs)) (Change.fromEnd cs) =
        String.ofList (newText xs) := by
  have hlt : ∀ c ∈ changesFrom 0 xs, c.start < c.stop := fun c hc =>
    (bounds_changesFrom h 0 c hc).2.1
  have hcs := pairwise_changesFrom h 0
  rw [Change.fromEnd_of_perm hp hlt hcs]
  constructor
  · refine Change.choose_of_disjoint (by simp) (List.pairwise_reverse.2 ?_)
    exact hcs.imp_of_mem fun ha _ hab => Change.overlaps_eq_false (hlt _ ha) (.inl hab)
  · have hnew : (changesFrom 0 xs).foldr (fun c us => c.apply us)
        ((oldText xs).flatMap Text.codeUnits) = (newText xs).flatMap Text.codeUnits :=
      foldr_apply_changesFrom xs []
    rw [Change.applyAll, List.foldl_reverse, Text.unitsOf, String.toList_ofList, hnew,
      Text.ofUnits, Text.charsOfUnits_codeUnits]

end RobotSuite
