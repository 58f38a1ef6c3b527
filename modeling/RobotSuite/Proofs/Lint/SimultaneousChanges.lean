/-
# Changes made all at once

Changes of a text speak of the offsets of the old text.  Made all at once (`allAtOnce`), each puts
its text in the place of its range, and what is in no range stays.  Fixes are made one after the
other, from the end of the text to its start.  That comes to the same as long as a change leaves the
places of those behind it in the list where they are (`foldl_apply_eq_allAtOnce`), which fails for
one pair only: a range gets longer or shorter, and then a text is put in at its end (`Moves`).  What
applying fixes comes to is put together from that and from how changes are chosen (`choose_spec`).
-/

import Mathlib.Data.List.Induction
import RobotSuite.Proofs.Lint.TextChanges

namespace RobotSuite
namespace Change

/-- Whether a change puts text in at an offset and takes none away. -/
def insertsAt (i : Nat) (c : Change) : Bool := c.start = i && c.stop = i

/-- Whether a change takes text away from an offset on. -/
def replacesFrom (i : Nat) (c : Change) : Bool := c.start = i && i < c.stop

/-- Whether a change takes away the code unit at an offset. -/
def covers (i : Nat) (c : Change) : Bool := c.start ≤ i && i < c.stop

/-- An insertion at a place starts and ends there. -/
theorem insertsAt_iff {i : Nat} {c : Change} :
    c.insertsAt i = true ↔ c.start = i ∧ c.stop = i := by
  rw [insertsAt, Bool.and_eq_true, decide_eq_true_eq, decide_eq_true_eq]

/-- A replacement from a place starts there and ends behind. -/
theorem replacesFrom_iff {i : Nat} {c : Change} :
    c.replacesFrom i = true ↔ c.start = i ∧ i < c.stop := by
  rw [replacesFrom, Bool.and_eq_true, decide_eq_true_eq, decide_eq_true_eq]

/-- A change covers the units from its start up to its end. -/
theorem covers_iff {i : Nat} {c : Change} :
    c.covers i = true ↔ c.start ≤ i ∧ i < c.stop := by
  rw [covers, Bool.and_eq_true, decide_eq_true_eq, decide_eq_true_eq]

/-- Whether a change starts in front of an offset. -/
def startsBefore (s : Nat) (c : Change) : Bool := c.start < s

/-- The code units that a change puts in. -/
def newUnits (c : Change) : List Nat := Text.unitsOf c.replacement

/-- What stands at an offset of a text when some changes are made: what is put in there, what takes
the place of a range that starts there, and the code unit, if it is in no such range. -/
def standsAt (cs : List Change) (units : List Nat) (i : Nat) : List Nat :=
  (cs.filter (insertsAt i)).flatMap newUnits ++ (cs.filter (replacesFrom i)).flatMap newUnits ++
    if (cs.filter (covers i)).isEmpty then units[i]?.toList else []

/-- A text with some changes made all at once. -/
def allAtOnce (cs : List Change) (units : List Nat) : List Nat :=
  (List.range (units.length + 1)).flatMap (standsAt cs units)

/-- Whether making a change moves the place of another one, which puts text in at its end. -/
def Moves (a b : Change) : Prop :=
  a.start < a.stop ∧ b.start = a.stop ∧ b.stop = a.stop ∧
    (Text.length a.replacement : Int) ≠ a.stop - a.start
deriving Decidable

/-- A change inside a text of some length. -/
@[mk_iff within_iff]
structure Within (length : Nat) (c : Change) : Prop where
  start : 0 ≤ c.start
  ordered : c.start ≤ c.stop
  stop : c.stop ≤ length

/-- Whether a change puts text in between two code units that another one takes away. -/
def InsertsInside (a b : Change) : Prop := a.start = a.stop ∧ b.start < a.start ∧ a.start < b.stop

/-- Whether two changes get in each other's way: they take away the same code unit, one puts text in
where the other takes it away, or both put text in at one place. -/
def Meets (a b : Change) : Prop :=
  (∃ i, a.covers i = true ∧ b.covers i = true) ∨ a.InsertsInside b ∨ b.InsertsInside a ∨
    ∃ i, a.insertsAt i = true ∧ b.insertsAt i = true

/-! ## Choosing -/

/-- Overlapping is symmetric. -/
theorem overlaps_comm (a b : Change) : a.overlaps b = b.overlaps a := by
  unfold overlaps
  by_cases h : a.start = a.stop ∧ b.start = b.stop
  · rw [if_pos (by simpa using h), if_pos (by simpa using h.symm)]
    exact decide_eq_decide.2 eq_comm
  · rw [if_neg (by simpa using h), if_neg (by simpa using fun h1 h2 => h ⟨h2, h1⟩),
      Bool.and_comm]

/-- The overlap test is right, also where ranges touch. -/
theorem overlaps_iff {n : Nat} {a b : Change} (ha : a.Within n) (hb : b.Within n) :
    a.overlaps b = true ↔ a.Meets b := by
  obtain ⟨hapos, haord, -⟩ := ha
  obtain ⟨hbpos, hbord, -⟩ := hb
  simp only [Meets, covers_iff, insertsAt_iff, InsertsInside]
  rw [overlaps]
  by_cases hempty : a.start = a.stop ∧ b.start = b.stop
  · rw [if_pos (by simpa using hempty), decide_eq_true_eq]
    constructor
    · exact fun h => .inr (.inr (.inr ⟨a.start.toNat, by omega⟩))
    · rintro (⟨i, h⟩ | h | h | ⟨i, h⟩) <;> omega
  · rw [if_neg (by simpa using hempty), Bool.and_eq_true, decide_eq_true_eq, decide_eq_true_eq]
    constructor
    · intro h
      by_cases hafter : a.start = a.stop
      · exact .inr (.inl (by omega))
      by_cases hbefore : b.start = b.stop
      · exact .inr (.inr (.inl (by omega)))
      -- two ranges share the code unit at which the later one starts
      exact .inl ⟨(max a.start b.start).toNat, by omega⟩
    · rintro (⟨i, h⟩ | h | h | ⟨i, h⟩) <;> omega

/-- Changes that are chosen go together with each other and with those chosen before, and each of the
others collides with one that is chosen. -/
theorem choose_spec (kept cs : List Change) :
    ((choose kept cs).1 ++ (choose kept cs).2).Perm cs ∧
      (choose kept cs).1.Sublist cs ∧
      (∀ c ∈ (choose kept cs).1, ∀ k ∈ kept, c.overlaps k = false) ∧
      (choose kept cs).1.Pairwise (fun a b => a.overlaps b = false) ∧
      ∀ c ∈ (choose kept cs).2, ∃ k ∈ kept ++ (choose kept cs).1, c.overlaps k = true := by
  induction cs generalizing kept with
  | nil => simp [choose]
  | cons c cs ih =>
    rw [choose]
    by_cases hany : kept.any c.overlaps = true
    · obtain ⟨hperm, hsub, hkept, hpair, hrest⟩ := ih kept
      rw [if_pos hany]
      refine ⟨List.perm_middle.trans (hperm.cons c), hsub.cons c, hkept, hpair, ?_⟩
      rw [List.forall_mem_cons]
      obtain ⟨k, hk, hover⟩ := List.any_eq_true.1 hany
      exact ⟨⟨k, List.mem_append_left _ hk, hover⟩, hrest⟩
    · obtain ⟨hperm, hsub, hkept, hpair, hrest⟩ := ih (kept ++ [c])
      rw [if_neg hany]
      have hfree : ∀ k ∈ kept, c.overlaps k = false := by simpa using hany
      refine ⟨hperm.cons c, hsub.cons_cons c, ?_, ?_, fun d hd => ?_⟩
      · exact List.forall_mem_cons.2
          ⟨hfree, fun d hd k hk => hkept d hd k (List.mem_append_left _ hk)⟩
      · refine List.pairwise_cons.2 ⟨fun d hd => ?_, hpair⟩
        rw [overlaps_comm]
        exact hkept d hd c (by simp)
      · obtain ⟨k, hk, hover⟩ := hrest d hd
        exact ⟨k, by simpa [List.append_assoc] using hk, hover⟩

/-! ## Offsets -/

section
variable {cs : List Change} {c : Change} {units : List Nat} {i s e : Nat}

/-- Only changes that start up to an offset show there. -/
theorem standsAt_filter (hs : i < s) :
    standsAt (cs.filter (startsBefore s)) units i = standsAt cs units i := by
  have hfilter (p : Change → Bool) (hp : ∀ k, p k = true → k.start ≤ i) :
      (cs.filter (startsBefore s)).filter p = cs.filter p := by
    rw [List.filter_filter]
    refine List.filter_congr fun k _ => ?_
    cases hk : p k with
    | false => rfl
    | true =>
      have := hp k hk
      simp [startsBefore]
      omega
  rw [standsAt, standsAt, hfilter, hfilter, hfilter]
  · exact fun k hk => (covers_iff.1 hk).1
  · exact fun k hk => Int.le_of_eq (replacesFrom_iff.1 hk).1
  · exact fun k hk => Int.le_of_eq (insertsAt_iff.1 hk).1

/-- A change that does not show at an offset. -/
theorem standsAt_concat_of_hidden (hi : insertsAt i c = false) (hr : replacesFrom i c = false)
    (hc : covers i c = false) : standsAt (cs ++ [c]) units i = standsAt cs units i := by
  simp [standsAt, hi, hr, hc]

/-- Without changes every unit stands. -/
theorem flatMap_standsAt_nil (units : List Nat) (s n : Nat) :
    (List.range' s n).flatMap (standsAt [] units) = (units.drop s).take n := by
  induction n generalizing s with
  | zero => simp
  | succ n ih =>
    rw [List.range'_succ, List.flatMap_cons, ih]
    by_cases hs : s < units.length
    · rw [List.drop_eq_getElem_cons hs, List.take_succ_cons]
      simp [standsAt, hs]
    · simp [standsAt, List.drop_of_length_le (Nat.le_of_not_lt hs),
        List.drop_of_length_le (Nat.le_succ_of_le (Nat.le_of_not_lt hs)), Nat.le_of_not_lt hs]

/-- In the place of a range stands what replaces it. -/
theorem flatMap_standsAt_self (hs : c.start = s) (he : c.stop = e) (h : s < e) :
    (List.range' s (e - s)).flatMap (standsAt [c] units) = newUnits c := by
  obtain ⟨n, rfl⟩ : ∃ n, e = s + (n + 1) := ⟨e - s - 1, by omega⟩
  have hrest : (List.range' (s + 1) n).flatMap (standsAt [c] units) = [] := by
    rw [List.flatMap_eq_nil_iff]
    intro i hi
    obtain ⟨hlow, hhigh⟩ := List.mem_range'_1.1 hi
    have hinsert : c.insertsAt i = false := Bool.eq_false_iff.2 fun h => by
      have := insertsAt_iff.1 h
      omega
    have hreplace : c.replacesFrom i = false := Bool.eq_false_iff.2 fun h => by
      have := replacesFrom_iff.1 h
      omega
    have hcover : c.covers i = true := covers_iff.2 (by omega)
    simp [standsAt, hinsert, hreplace, hcover]
  have hinsert : c.insertsAt s = false := Bool.eq_false_iff.2 fun h => by
    have := insertsAt_iff.1 h
    omega
  have hreplace : c.replacesFrom s = true := replacesFrom_iff.2 (by omega)
  have hcover : c.covers s = true := covers_iff.2 (by omega)
  rw [Nat.add_sub_cancel_left, List.range'_succ, List.flatMap_cons, hrest, List.append_nil]
  simp [standsAt, hinsert, hreplace, hcover]

/-- Changes that start behind a stretch do not matter for it. -/
theorem flatMap_standsAt_filter (cs : List Change) (units : List Nat) {a n : Nat}
    (h : a + n ≤ s) : (List.range' a n).flatMap (standsAt cs units) =
      (List.range' a n).flatMap (standsAt (cs.filter (startsBefore s)) units) := by
  refine List.flatMap_congr fun i hi => (standsAt_filter ?_).symm
  have := (List.mem_range'_1.1 hi).2
  omega

/-- A change that is made behind others goes together with them and stops no later. -/
structure Last (length : Nat) (cs : List Change) (c : Change) : Prop where
  inside : c.Within length
  within : ∀ k ∈ cs, k.Within length
  stop : ∀ k ∈ cs, c.stop ≤ k.stop
  apart : ∀ k ∈ cs, k.overlaps c = false

/-- The others start behind a range that is replaced. -/
theorem Last.filter_of_range (h : Last units.length cs c) (hs : c.start = s) (he : c.stop = e)
    (hse : s < e) : cs.filter (startsBefore e) = [] := by
  rw [List.filter_eq_nil_iff]
  intro k hk
  have hfree := h.apart k hk
  have hlow := h.stop k hk
  have hrange := (h.within k hk).ordered
  simp only [startsBefore, decide_eq_true_eq]
  by_cases hempty : k.start = k.stop
  · omega
  · rw [overlaps, if_neg (by simp; omega)] at hfree
    simp at hfree
    omega

/-- Of the others at most one starts in front of an insertion, and if it does not move the
insertion, it puts in as much as it takes away. -/
theorem Last.filter_of_insertion (h : Last units.length cs c)
    (hpair : cs.Pairwise fun a b => a.overlaps b = false) (hmoves : ∀ k ∈ cs, ¬ k.Moves c)
    (hs : c.start = s) (he : c.stop = s) : cs.filter (startsBefore s) = [] ∨
      ∃ k a, cs.filter (startsBefore s) = [k] ∧ k.start = (a : Nat) ∧ k.stop = s ∧ a < s ∧
        (newUnits k).length = s - a := by
  have hends : ∀ k ∈ cs.filter (startsBefore s), k.start < s ∧ k.stop = s := by
    intro k hk
    obtain ⟨hmem, hbefore⟩ := List.mem_filter.1 hk
    have hlt : k.start < s := by simpa [startsBefore] using hbefore
    have hfree := h.apart k hmem
    have hlow := h.stop k hmem
    rw [overlaps, if_neg (by simp; omega)] at hfree
    simp [hs, he] at hfree
    omega
  have hsub : (cs.filter (startsBefore s)).Pairwise fun a b => a.overlaps b = false :=
    hpair.sublist List.filter_sublist
  rcases hcs : cs.filter (startsBefore s) with _ | ⟨k, _ | ⟨l, rest⟩⟩
  · exact .inl rfl
  · obtain ⟨hlt, hend⟩ := hends k (by simp [hcs])
    have hmem : k ∈ cs := (List.mem_filter.1 (hcs ▸ List.mem_singleton_self k)).1
    obtain ⟨a, ha⟩ := Int.eq_ofNat_of_zero_le (h.within k hmem).start
    have hlength : (Text.length k.replacement : Int) = k.stop - k.start := by
      by_contra hne
      exact hmoves k hmem ⟨by omega, by omega, by omega, hne⟩
    refine .inr ⟨k, a, rfl, ha, hend, by omega, ?_⟩
    rw [newUnits, Text.length_unitsOf]
    omega
  · exfalso
    rw [hcs] at hsub hends
    have hfree := (List.pairwise_cons.1 hsub).1 l List.mem_cons_self
    obtain ⟨hk, hke⟩ := hends k (by simp)
    obtain ⟨hl, hle⟩ := hends l (by simp)
    rw [overlaps, if_neg (by simp; omega)] at hfree
    simp at hfree
    omega

/-- Without changes a stretch keeps its length, up to the end of the text. -/
theorem length_standsAt_nil (units : List Nat) (s n : Nat) :
    ((List.range' s n).flatMap (standsAt [] units)).length = min n (units.length - s) := by
  rw [flatMap_standsAt_nil, List.length_take, List.length_drop]

/-- What stands in front of a change is as long as before. -/
theorem Last.length_front (h : Last units.length cs c)
    (hpair : cs.Pairwise fun a b => a.overlaps b = false) (hmoves : ∀ k ∈ cs, ¬ k.Moves c)
    (hs : c.start = s) (he : c.stop = e) (hse : s ≤ e) (hlen : e ≤ units.length) :
    ((List.range' 0 s).flatMap (standsAt cs units)).length = s := by
  rcases Nat.lt_or_eq_of_le hse with hlt | rfl
  · rw [flatMap_standsAt_filter (s := e) cs units (by omega), h.filter_of_range hs he hlt,
      length_standsAt_nil]
    omega
  · rw [flatMap_standsAt_filter (s := s) cs units (by omega)]
    rcases h.filter_of_insertion hpair hmoves hs he with hfilter | ⟨k, a, hfilter, ha, hk, has, hnew⟩
    · rw [hfilter, length_standsAt_nil]
      omega
    · have hfront : (List.range' 0 a).flatMap (standsAt [k] units) =
          (List.range' 0 a).flatMap (standsAt [] units) := by
        have hout : [k].filter (startsBefore a) = [] := by simp [startsBefore, ha]
        rw [flatMap_standsAt_filter (s := a) [k] units (by omega), hout]
      have hcut := List.range'_append_1 (s := 0) (m := a) (n := s - a)
      rw [Nat.zero_add, Nat.add_sub_cancel' has.le] at hcut
      rw [hfilter, ← hcut, List.flatMap_append, hfront, flatMap_standsAt_self ha hk has,
        List.length_append, length_standsAt_nil, hnew]
      omega

/-- What stands in the place of a change is as long as before. -/
theorem Last.length_range (h : Last units.length cs c) (hs : c.start = s) (he : c.stop = e)
    (hlen : e ≤ units.length) :
    ((List.range' s (e - s)).flatMap (standsAt cs units)).length = e - s := by
  rcases Nat.lt_or_ge s e with hlt | hge
  · rw [flatMap_standsAt_filter (s := e) cs units (by omega), h.filter_of_range hs he hlt,
      length_standsAt_nil]
    omega
  · rw [Nat.sub_eq_zero_of_le hge]
    rfl

/-- What stands in front of a range, in it and behind it. -/
theorem allAtOnce_cut (cs : List Change) (hse : s ≤ e) (hlen : e ≤ units.length) :
    allAtOnce cs units = (List.range' 0 s).flatMap (standsAt cs units) ++
      ((List.range' s (e - s)).flatMap (standsAt cs units) ++
        (List.range' e (units.length + 1 - e)).flatMap (standsAt cs units)) := by
  have hback := List.range'_append_1 (s := s) (m := e - s) (n := units.length + 1 - e)
  have hall := List.range'_append_1 (s := 0) (m := s) (n := units.length + 1 - s)
  rw [Nat.add_sub_cancel' hse, show e - s + (units.length + 1 - e) = units.length + 1 - s by
    omega] at hback
  rw [Nat.zero_add, Nat.add_sub_cancel' (by omega)] at hall
  rw [allAtOnce, List.range_eq_range', ← hall, ← hback, List.flatMap_append, List.flatMap_append]

/-- A change that is made last puts its text in the place of its range, and all else stays. -/
theorem Last.standsAt_concat (h : Last units.length cs c) (hs : c.start = s) (he : c.stop = e)
    (hse : s ≤ e) (hlen : e ≤ units.length) :
    allAtOnce (cs ++ [c]) units = (List.range' 0 s).flatMap (standsAt cs units) ++
      (newUnits c ++ (List.range' e (units.length + 1 - e)).flatMap (standsAt cs units)) := by
  have hbehind (a n : Nat) (ha : e < a ∨ s < e ∧ e ≤ a) :
      (List.range' a n).flatMap (standsAt (cs ++ [c]) units) =
        (List.range' a n).flatMap (standsAt cs units) := by
    refine List.flatMap_congr fun i hi => ?_
    have hai := (List.mem_range'_1.1 hi).1
    refine standsAt_concat_of_hidden (Bool.eq_false_iff.2 fun h => ?_)
      (Bool.eq_false_iff.2 fun h => ?_) (Bool.eq_false_iff.2 fun h => ?_)
    · have := insertsAt_iff.1 h
      omega
    · have := replacesFrom_iff.1 h
      omega
    · have := covers_iff.1 h
      omega
  have hfront : (List.range' 0 s).flatMap (standsAt (cs ++ [c]) units) =
      (List.range' 0 s).flatMap (standsAt cs units) := by
    have hout : (cs ++ [c]).filter (startsBefore s) = cs.filter (startsBefore s) := by
      have hc : [c].filter (startsBefore s) = [] := by simp [startsBefore, hs]
      rw [List.filter_append, hc, List.append_nil]
    rw [flatMap_standsAt_filter (s := s) (cs ++ [c]) units (by omega), hout,
      ← flatMap_standsAt_filter (s := s) cs units (by omega)]
  rw [allAtOnce_cut (cs ++ [c]) hse hlen, hfront]
  congr 1
  rcases Nat.lt_or_eq_of_le hse with hlt | rfl
  · have hfilter : (cs ++ [c]).filter (startsBefore e) = [c].filter (startsBefore e) := by
      rw [List.filter_append, h.filter_of_range hs he hlt, List.nil_append]
    rw [flatMap_standsAt_filter (s := e) (cs ++ [c]) units (by omega), hfilter,
      ← flatMap_standsAt_filter (s := e) [c] units (by omega), flatMap_standsAt_self hs he hlt,
      hbehind e _ (.inr ⟨hlt, Nat.le_refl e⟩)]
  · obtain ⟨n, hn⟩ : ∃ n, units.length + 1 - s = n + 1 := ⟨units.length - s, by omega⟩
    -- two insertions at one place would collide
    have hinserts : cs.filter (insertsAt s) = [] := by
      rw [List.filter_eq_nil_iff]
      intro k hk
      have hfree := h.apart k hk
      rw [overlaps] at hfree
      rw [insertsAt_iff]
      rintro ⟨hks, hke⟩
      simp [hs, he, hks, hke] at hfree
    have hat : standsAt (cs ++ [c]) units s = newUnits c ++ standsAt cs units s := by
      have hinsert : c.insertsAt s = true := insertsAt_iff.2 ⟨hs, he⟩
      have hreplace : c.replacesFrom s = false := by simp [replacesFrom, he]
      have hcover : c.covers s = false := by simp [covers, he]
      simp [standsAt, hinserts, hinsert, hreplace, hcover]
    rw [Nat.sub_self, hn, List.range'_zero, List.flatMap_nil, List.nil_append, List.range'_succ,
      List.flatMap_cons, List.flatMap_cons, hat, hbehind _ _ (.inl (Nat.lt_succ_self s)),
      List.append_assoc]

/-- **Making a change behind the others** makes it together with them. -/
theorem Last.apply_allAtOnce (h : Last units.length cs c)
    (hpair : cs.Pairwise fun a b => a.overlaps b = false) (hmoves : ∀ k ∈ cs, ¬ k.Moves c) :
    apply (allAtOnce cs units) c = allAtOnce (cs ++ [c]) units := by
  obtain ⟨hpos, hordered, hstop⟩ := h.inside
  obtain ⟨s, hs⟩ := Int.eq_ofNat_of_zero_le hpos
  obtain ⟨e, he⟩ := Int.eq_ofNat_of_zero_le (Int.le_trans hpos hordered)
  have hse : s ≤ e := by omega
  have hlen : e ≤ units.length := by omega
  have hfront := h.length_front hpair hmoves hs he hse hlen
  have hrange := h.length_range hs he hlen
  rw [h.standsAt_concat hs he hse hlen, allAtOnce_cut cs hse hlen]
  generalize (List.range' 0 s).flatMap (standsAt cs units) = front at *
  generalize (List.range' s (e - s)).flatMap (standsAt cs units) = range at *
  generalize (List.range' e (units.length + 1 - e)).flatMap (standsAt cs units) = back
  have hboth : (front ++ range).length = e := by rw [List.length_append]; omega
  have htake : (front ++ (range ++ back)).take s = front := by rw [← hfront, List.take_left]
  have hdrop : (front ++ (range ++ back)).drop e = back := by
    rw [← List.append_assoc, ← hboth, List.drop_left]
  have hall : (front ++ (range ++ back)).length = s + (e - s + back.length) := by
    rw [List.length_append, List.length_append, hfront, hrange]
  rw [apply, hs, he, clamp_natCast (by omega), clamp_natCast (by omega), htake, hdrop,
    List.append_assoc, newUnits]

/-- Changes that are made from the end of a text to its start, none of which moves a later one, are
made all at once. -/
theorem foldl_apply_eq_allAtOnce {cs : List Change} {units : List Nat}
    (hin : ∀ c ∈ cs, c.Within units.length)
    (hstops : cs.Pairwise fun a b => b.stop ≤ a.stop)
    (hpair : cs.Pairwise fun a b => a.overlaps b = false)
    (hmoves : cs.Pairwise fun a b => ¬ a.Moves b) :
    cs.foldl apply units = allAtOnce cs units := by
  induction cs using List.reverseRecOn with
  | nil =>
    rw [List.foldl_nil, allAtOnce, List.range_eq_range', flatMap_standsAt_nil, List.drop_zero,
      List.take_of_length_le (Nat.le_succ _)]
  | append_singleton cs c ih =>
    rw [List.forall_mem_append, List.forall_mem_singleton] at hin
    obtain ⟨hstops, -, hstop⟩ := List.pairwise_append.1 hstops
    obtain ⟨hpair, -, hover⟩ := List.pairwise_append.1 hpair
    obtain ⟨hmoves, -, hmove⟩ := List.pairwise_append.1 hmoves
    have hlast : Last units.length cs c :=
      ⟨hin.2, hin.1, fun k hk => hstop k hk c (by simp), fun k hk => hover k hk c (by simp)⟩
    rw [List.foldl_append, ih hin.1 hstops hpair hmoves, List.foldl_cons, List.foldl_nil]
    exact hlast.apply_allAtOnce hpair fun k hk => hmove k hk c (by simp)

end


/-! ## Applying fixes -/

/-- What is chosen of some changes, and what is left out. -/
theorem choose_fromEnd {n : Nat} {asked : List Change} (hin : ∀ c ∈ asked, c.Within n) :
    let chosen := choose [] (fromEnd asked)
    (chosen.1 ++ chosen.2).Perm asked ∧ chosen.1.Sublist (fromEnd asked) ∧
      chosen.1.Pairwise (fun a b => ¬ a.Meets b) ∧ ∀ c ∈ chosen.2, ∃ k ∈ chosen.1, c.Meets k := by
  intro chosen
  obtain ⟨hperm, hsub, -, hpair, hrest⟩ := choose_spec [] (fromEnd asked)
  have hasked : (chosen.1 ++ chosen.2).Perm asked := hperm.trans (perm_fromEnd asked)
  have hkept : ∀ c ∈ chosen.1, c.Within n := fun c hc =>
    hin c (hasked.mem_iff.1 (List.mem_append_left _ hc))
  have hskipped : ∀ c ∈ chosen.2, c.Within n := fun c hc =>
    hin c (hasked.mem_iff.1 (List.mem_append_right _ hc))
  refine ⟨hasked, hsub, hpair.imp_of_mem fun ha hb hab hmeets => ?_, fun c hc => ?_⟩
  · rw [(overlaps_iff (hkept _ ha) (hkept _ hb)).2 hmeets] at hab
    exact Bool.false_ne_true hab.symm
  · obtain ⟨k, hk, hover⟩ := hrest c hc
    exact ⟨k, hk, (overlaps_iff (hskipped c hc) (hkept k hk)).1 hover⟩

/-- Changes that are chosen are made all at once, if none moves a later one. -/
theorem applyAll_choose {source : String} {asked : List Change}
    (hin : ∀ c ∈ asked, c.Within (Text.length source)) :
    let kept := (choose [] (fromEnd asked)).1
    kept.Pairwise (fun a b => ¬ a.Moves b) →
      applyAll source kept = Text.ofUnits (allAtOnce kept (Text.unitsOf source)) := by
  intro kept hmoves
  obtain ⟨hperm, hsub, -, hpair, -⟩ := choose_spec [] (fromEnd asked)
  have hwithin : ∀ c ∈ kept, c.Within (Text.unitsOf source).length := fun c hc => by
    rw [Text.length_unitsOf]
    exact hin c ((perm_fromEnd asked).mem_iff.1 (hsub.mem hc))
  rw [applyAll, foldl_apply_eq_allAtOnce hwithin ((pairwise_fromEnd asked).sublist hsub) hpair
    hmoves]

end Change

/-- **Fixes are made all at once.**  The ranges that are asked for lie in the source.  Then no two of
the fixes that are kept meet, and each of the others meets a kept one.  The kept fixes make a text, in
which all of them have been made at once, if none of them moves a later one.  When this text has more
defects than the source, nothing is changed and no fix is applied, otherwise it is the new text, and
the kept fixes are applied.  So the new text never has more defects than the source. -/
theorem fixes_made_at_once {source : String} {ds : List Diagnostic}
    (hin : ∀ c ∈ ds.filterMap Change.ofDiagnostic?, c.Within (Text.length source)) :
    let asked := ds.filterMap Change.ofDiagnostic?
    let kept := (Change.choose [] (Change.fromEnd asked)).1
    let skipped := (Change.choose [] (Change.fromEnd asked)).2
    let made := Change.applyAll source kept
    let result := applyFixes source ds
    (kept ++ skipped).Perm asked ∧ kept.Sublist (Change.fromEnd asked) ∧
      kept.Pairwise (fun a b => ¬ a.Meets b) ∧ (∀ c ∈ skipped, ∃ k ∈ kept, c.Meets k) ∧
      (kept.Pairwise (fun a b => ¬ a.Moves b) →
        made = Text.ofUnits (Change.allAtOnce kept (Text.unitsOf source))) ∧
      (result = if (parse source).errors.length < (parse made).errors.length then
          ⟨source, 0, (Change.fromEnd asked).map fun c => (c.code, .defects)⟩
        else ⟨made, kept.length, skipped.map fun c => (c.code, .overlap)⟩) ∧
      result.applied + result.refused.length = asked.length ∧
      (parse result.modified).errors.length ≤ (parse source).errors.length := by
  intro asked kept skipped made result
  obtain ⟨hperm, hsub, hapart, hmeets⟩ := Change.choose_fromEnd hin
  have hresult : result = if (parse source).errors.length < (parse made).errors.length then
      ⟨source, 0, (Change.fromEnd asked).map fun c => (c.code, .defects)⟩
    else ⟨made, kept.length, skipped.map fun c => (c.code, .overlap)⟩ := rfl
  refine ⟨hperm, hsub, hapart, hmeets, Change.applyAll_choose hin, hresult, ?_, ?_⟩
  · have hlength := hperm.length_eq
    rw [List.length_append] at hlength
    rw [hresult]
    split
    · rw [List.length_map, (Change.perm_fromEnd asked).length_eq, Nat.zero_add]
    · rw [List.length_map, hlength]
  · rw [hresult]
    split
    · exact Nat.le_refl _
    · exact Nat.le_of_not_lt ‹_›

/-- A diagnostic that asks for a change. -/
def Change.asDiagnostic (c : Change) : Diagnostic where
  location := ⟨1, 1, c.start⟩
  severity := .info
  code := c.code
  message := ""
  context := ""
  fix := some ⟨"", true, ⟨⟨1, 1, c.start⟩, ⟨1, 1, c.stop⟩⟩, c.replacement⟩

set_option maxRecDepth 100000 in
/-- One text is put in at the end of a range that goes, and one range meets another. -/
theorem fixes_made_at_once_of_four :
    let source := "# abcdef\n"
    let a : Change := ⟨"A", 4, 4, "X"⟩
    let b : Change := ⟨"B", 2, 4, ""⟩
    let c : Change := ⟨"C", 6, 7, "gg"⟩
    let d : Change := ⟨"D", 1, 3, "!"⟩
    let ds := [a, b, c, d].map Change.asDiagnostic
    (∀ x ∈ ds.filterMap Change.ofDiagnostic?, x.Within (Text.length source)) ∧
      [c, a, b].Pairwise (fun a b => ¬ a.Moves b) ∧
      applyFixes source ds = ⟨"# Xcdggf\n", 3, [("D", .overlap)]⟩ ∧
      Text.ofUnits (Change.allAtOnce [c, a, b] (Text.unitsOf source)) = "# Xcdggf\n" := by
  intro source a b c d ds
  have hasked : ds.filterMap Change.ofDiagnostic? = [a, b, c, d] := by decide +kernel
  have hin : ∀ x ∈ ds.filterMap Change.ofDiagnostic?, x.Within (Text.length source) := by
    have hlength : Text.length source = 9 := by decide +kernel
    rw [hasked, hlength]
    simp [a, b, c, d, Change.within_iff]
  have hsorted : Change.fromEnd [a, b, c, d] = [c, a, b, d] := by
    simp [Change.fromEnd, List.mergeSort, List.MergeSort.Internal.splitInTwo, a, b, c, d]
  have hchosen : Change.choose [] [c, a, b, d] = ([c, a, b], [d]) := by decide +kernel
  have hmoves : [c, a, b].Pairwise (fun a b => ¬ a.Moves b) := by decide +kernel
  have hmade : Change.applyAll source [c, a, b] = "# Xcdggf\n" := by decide +kernel
  obtain ⟨-, -, -, -, hall, hresult, -, -⟩ := fixes_made_at_once hin
  rw [hasked, hsorted, hchosen] at hall hresult
  rw [hmade] at hall hresult
  refine ⟨hin, hmoves, hresult.trans (if_neg ?_), (hall hmoves).symm⟩
  decide +kernel

set_option maxRecDepth 100000 in
/-- A range goes, and then a text is put in at its end: it lands two places behind. -/
theorem fixes_not_made_at_once :
    let source := "# abcdef\n"
    let a : Change := ⟨"A", 2, 4, ""⟩
    let b : Change := ⟨"B", 4, 4, "X"⟩
    let ds := [a, b].map Change.asDiagnostic
    (∀ x ∈ ds.filterMap Change.ofDiagnostic?, x.Within (Text.length source)) ∧
      applyFixes source ds = ⟨"# cdXef\n", 2, []⟩ ∧
      Text.ofUnits (Change.allAtOnce [a, b] (Text.unitsOf source)) = "# Xcdef\n" := by
  intro source a b ds
  have hasked : ds.filterMap Change.ofDiagnostic? = [a, b] := by decide +kernel
  have hsorted : Change.fromEnd [a, b] = [a, b] := List.mergeSort_of_pairwise (by decide)
  have hchosen : Change.choose [] [a, b] = ([a, b], []) := by decide +kernel
  have hmade : Change.applyAll source [a, b] = "# cdXef\n" := by decide +kernel
  refine ⟨?_, ?_, by decide +kernel⟩
  · have hlength : Text.length source = 9 := by decide +kernel
    rw [hasked, hlength]
    simp [a, b, Change.within_iff]
  · rw [applyFixes, hasked, hsorted, hchosen]
    dsimp only
    rw [hmade]
    decide +kernel

end RobotSuite
