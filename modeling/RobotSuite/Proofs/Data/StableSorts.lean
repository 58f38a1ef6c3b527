/-
# Stable sorts

Sorting does not change the order of what compares equal both ways: elements of which each may stand
in front of each other come out in the order in which they went in (`filter_mergeSort`).  So a
relation that holds of all elements in order still holds of those that the sort could have put the
other way round (`pairwise_mergeSort_ties`).

Sorting is putting in one element after the other (`mergeSort_eq_foldr`).  So it does not matter
whether a part is sorted first (`mergeSort_append_mergeSort`), or whether elements are left out
before or after (`mergeSort_filter`).
-/

import Mathlib.Data.List.Sort

namespace RobotSuite

section
variable {α : Type} {le : α → α → Bool} {p : α → Bool}

/-- Put an element into a sorted list, in front of the first that it may stand in front of. -/
def putIn (le : α → α → Bool) (a : α) (l : List α) : List α :=
  l.takeWhile (!le a ·) ++ a :: l.dropWhile (!le a ·)

variable
  (htrans : ∀ a b c, le a b → le b c → le a c) (htotal : ∀ a b, le a b || le b a)
include htrans htotal

/-- Elements that may stand in any order stay in the order in which they are. -/
theorem filter_mergeSort (hp : ∀ a b, p a → p b → le a b) (l : List α) :
    (l.mergeSort le).filter p = l.filter p := by
  have hsorted : (l.filter p).Pairwise (le · ·) :=
    List.pairwise_of_forall_mem_list fun a ha b hb =>
      hp a b (List.mem_filter.1 ha).2 (List.mem_filter.1 hb).2
  have hsub : (l.filter p).Sublist (l.mergeSort le) :=
    List.sublist_mergeSort htrans htotal hsorted List.filter_sublist
  have hfilter := hsub.filter p
  simp only [List.filter_filter, Bool.and_self] at hfilter
  have hlength := ((List.mergeSort_perm l le).filter p).length_eq
  exact (hfilter.eq_of_length hlength.symm).symm

/-- What holds of elements in order holds behind the sort of those that may also stand the other
way round. -/
theorem pairwise_mergeSort_ties {S : α → α → Prop} {l : List α} (h : l.Pairwise S) :
    (l.mergeSort le).Pairwise fun a b => le b a → S a b := by
  have hsorted := List.pairwise_mergeSort htrans htotal l
  rw [List.pairwise_iff_forall_sublist] at h hsorted ⊢
  intro a b hab hba
  have hle := hsorted hab
  have hrefl (x : α) : le x x := by simpa using htotal x x
  let tied (x : α) : Bool := le a x && le x a
  have htied : ∀ x y, tied x → tied y → le x y := by
    intro x y hx hy
    exact htrans _ _ _ (Bool.and_eq_true_iff.1 hx).2 (Bool.and_eq_true_iff.1 hy).1
  have hpair : [a, b].filter tied = [a, b] := by
    simp [tied, hrefl, hle, hba]
  have hsub := hab.filter tied
  rw [hpair, filter_mergeSort htrans htotal htied] at hsub
  exact h (hsub.trans List.filter_sublist)

/-- To sort is to sort the rest and to put the first element in. -/
theorem mergeSort_cons_eq (a : α) (l : List α) :
    (a :: l).mergeSort le = putIn le a (l.mergeSort le) := by
  obtain ⟨front, back, hcons, hl, hfront⟩ := List.mergeSort_cons htrans htotal a l
  have hsorted := List.pairwise_mergeSort htrans htotal (a :: l)
  rw [hcons, List.pairwise_append, List.pairwise_cons] at hsorted
  have hback : back.takeWhile (!le a ·) = [] ∧ back.dropWhile (!le a ·) = back := by
    cases back with
    | nil => exact ⟨rfl, rfl⟩
    | cons b back =>
      have hb : le a b := hsorted.2.1.1 b List.mem_cons_self
      exact ⟨List.takeWhile_cons_of_neg (by simp [hb]), List.dropWhile_cons_of_neg (by simp [hb])⟩
  rw [hcons, hl, putIn, List.takeWhile_append_of_pos hfront, List.dropWhile_append_of_pos hfront,
    hback.1, hback.2, List.append_nil]

/-- Sorting comes to putting the elements in one by one. -/
theorem mergeSort_eq_foldr (l : List α) : l.mergeSort le = l.foldr (putIn le) [] := by
  induction l with
  | nil => exact List.mergeSort_nil
  | cons a l ih => rw [mergeSort_cons_eq htrans htotal, ih, List.foldr_cons]

/-- A part may be sorted before the whole is. -/
theorem mergeSort_append_mergeSort (front l : List α) :
    (front ++ l.mergeSort le).mergeSort le = (front ++ l).mergeSort le := by
  induction front with
  | nil => exact List.mergeSort_of_pairwise (List.pairwise_mergeSort htrans htotal l)
  | cons a front ih =>
    rw [List.cons_append, List.cons_append, mergeSort_cons_eq htrans htotal,
      mergeSort_cons_eq htrans htotal, ih]

omit htotal in
/-- Leaving out elements of a sorted list does not move the place where a new one goes. -/
theorem filter_cut (a : α) {l : List α} (h : l.Pairwise (le · ·)) :
    (l.takeWhile (!le a ·)).filter p = (l.filter p).takeWhile (!le a ·) ∧
      (l.dropWhile (!le a ·)).filter p = (l.filter p).dropWhile (!le a ·) := by
  induction l with
  | nil => exact ⟨rfl, rfl⟩
  | cons b l ih =>
    obtain ⟨hb, hl⟩ := List.pairwise_cons.1 h
    by_cases hab : le a b = true
    · -- from here on everything stands behind the new element
      have hall : ∀ c ∈ (b :: l).filter p, le a c = true := by
        intro c hc
        obtain rfl | hc := List.mem_cons.1 (List.mem_filter.1 hc).1
        · exact hab
        · exact htrans a b c hab (hb c hc)
      generalize hrest : (b :: l).filter p = rest at hall
      cases rest with
      | nil => simp [hab, hrest]
      | cons c rest =>
        have hc : le a c = true := hall c List.mem_cons_self
        simp [hab, hc, hrest]
    · simp only [List.takeWhile_cons, List.dropWhile_cons, hab, Bool.not_false, if_true]
      by_cases hp : p b = true
      · simp [hp, hab, ih hl]
      · simpa [hp] using ih hl

/-- What is left out may be left out before the sort. -/
theorem mergeSort_filter (l : List α) :
    (l.mergeSort le).filter p = (l.filter p).mergeSort le := by
  induction l with
  | nil => simp
  | cons a l ih =>
    obtain ⟨htake, hdrop⟩ := filter_cut (p := p) htrans a (List.pairwise_mergeSort htrans htotal l)
    rw [mergeSort_cons_eq htrans htotal, putIn, List.filter_append, List.filter_cons, htake, hdrop,
      ih]
    by_cases hp : p a = true
    · rw [if_pos hp, List.filter_cons_of_pos hp, mergeSort_cons_eq htrans htotal, putIn]
    · rw [if_neg hp, List.filter_cons_of_neg hp, List.takeWhile_append_dropWhile]

end

end RobotSuite
