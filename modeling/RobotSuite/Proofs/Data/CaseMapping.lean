/-
# Cells in another case

Case mapping writes a character as others that are neither blank nor special to the grammar
of lines, and leaves blanks as they are (`Renders`).  So a cell stays a cell in lower, upper
and title case (`IsCell.apply`).

What is in lower or in upper case stays when it is put there again: no run of the tables leads to a
character that a run starts from (`CaseShift.misses`).  So a case is applied once
(`TagCase.apply_apply`), but for title case, which raises the first character of a word to several and
lowers all but one the next time.
-/

import Mathlib.Data.List.Basic
import RobotSuite.Proofs.Token.LineGrammar
import RobotSuite.Tag

namespace RobotSuite

open Text (isGap CaseShift)

/-! ## Characters -/

/-- Characters that may stand in place of one in a cell. -/
structure Renders (c : Char) (image : List Char) : Prop where
  gap : isGap c = true → image = [c]
  other : isGap c = false → image ≠ [] ∧ ∀ d ∈ image, isGap d = false ∧ (d = '#' → c = '#') ∧
    (isControlChar d = true → isControlChar c = true)

/-- A character may stand in place of itself. -/
theorem Renders.refl (c : Char) : Renders c [c] := by
  refine ⟨fun _ => rfl, fun hc => ⟨by simp, fun d hd => ?_⟩⟩
  obtain rfl := List.mem_singleton.1 hd
  exact ⟨hc, id, id⟩

/-- The number of a letter, or of a character beyond ASCII. -/
def isLetterCode (n : Nat) : Bool := 0x41 ≤ n && n != 0x7F && decide n.isValidChar

/-- A letter is neither blank nor special to the grammar of lines. -/
theorem not_special_of_isLetterCode {n : Nat} (h : isLetterCode n = true) :
    isGap (Char.ofNat n) = false ∧ Char.ofNat n ≠ '#' ∧ isControlChar (Char.ofNat n) = false := by
  simp only [isLetterCode, Bool.and_eq_true, bne_iff_ne, decide_eq_true_eq] at h
  obtain ⟨⟨hlow, hdel⟩, hv⟩ := h
  have hnat : (Char.ofNat n).toNat = n := by
    rw [Char.ofNat, dif_pos hv]
    rfl
  have hne {d : Char} (hd : d.toNat < 0x41) : Char.ofNat n ≠ d := by
    rintro rfl
    omega
  refine ⟨?_, hne (by decide), ?_⟩
  · simp [isGap, hne (d := ' ') (by decide), hne (d := '\t') (by decide)]
  · simp only [isControlChar, hnat]
    simp [hdel]
    omega

/-- A character that is no blank may be written as letters. -/
theorem Renders.of_codes {c : Char} (ns : List Nat) (hc : isGap c = false) (hne : ns ≠ [])
    (hns : ns.all isLetterCode = true) : Renders c (ns.map Char.ofNat) := by
  refine ⟨fun hg => by simp [hc] at hg, fun _ => ⟨by simpa using hne, fun d hd => ?_⟩⟩
  obtain ⟨n, hn, rfl⟩ := List.mem_map.1 hd
  obtain ⟨hgap, hhash, hcontrol⟩ := not_special_of_isLetterCode (List.all_eq_true.1 hns n hn)
  exact ⟨hgap, fun h => absurd h hhash, fun h => by simp [hcontrol] at h⟩

/-- From the exclamation mark on there are no blanks. -/
theorem isGap_of_le {c : Char} (h : 0x21 ≤ c.toNat) : isGap c = false := by
  have hne {d : Char} (hd : d.toNat < 0x21) : c ≠ d := by
    rintro rfl
    omega
  simp [isGap, hne (d := ' ') (by decide), hne (d := '\t') (by decide)]

namespace Text

namespace CaseShift

/-- The run of one character that stays. -/
def single (n : Nat) : CaseShift := ⟨n, n, 1, 0⟩

/-- The number of the image of a run's first character. -/
def firstImage (r : CaseShift) : Nat := (r.first + r.delta).toNat

/-- The number of the image of a run's last character. -/
def lastImage (r : CaseShift) : Nat := (r.last + r.delta).toNat

/-- Whether a run leads to letters. -/
def isSafe (r : CaseShift) : Bool :=
  decide (0x21 ≤ r.first) && decide (0x41 ≤ r.first + r.delta) &&
    (decide (r.last + r.delta < 0x7F) || decide (0x7F < r.first + r.delta)) &&
    (decide (r.last + r.delta < 0xD800) ||
      (decide (0xDFFF < r.first + r.delta) && decide (r.last + r.delta < 0x110000)))

/-- Whether no image of a run is in another: one ends in front of the other, or they alternate. -/
def misses (r q : CaseShift) : Bool :=
  r.lastImage.blt q.first || q.last.blt r.firstImage ||
    (q.step.beq 2 && (r.step.beq 2 || r.first.beq r.last) &&
      ((r.firstImage + q.first) % 2).beq 1)

end CaseShift

/-- A run that is safe leads to letters. -/
theorem CaseShift.isLetterCode {r : CaseShift} (h : r.isSafe = true) {n : Nat}
    (hn : r.covers n = true) : 0x21 ≤ n ∧ RobotSuite.isLetterCode (n + r.delta).toNat = true := by
  simp only [isSafe, Bool.and_eq_true, Bool.or_eq_true, decide_eq_true_eq] at h
  simp only [covers, Bool.and_eq_true, decide_eq_true_eq] at hn
  simp only [RobotSuite.isLetterCode, Bool.and_eq_true, bne_iff_ne, decide_eq_true_eq,
    Nat.isValidChar]
  omega

/-- The runs to lower case lead to letters, from beyond ASCII into it for the sign of the kelvin
only, and never to where another run starts. -/
theorem lowerShifts_checked :
    lowerShifts.all (·.isSafe) = true ∧
    lowerShifts.all (fun r => decide (r.last < 0x80) || decide (0x7F < r.first + r.delta) ||
      decide (r.first = 0x212A ∧ r.last = 0x212A ∧ r.delta = -8383)) = true ∧
    lowerShifts.all (fun r => (.single 0x130 :: lowerShifts).all r.misses) = true ∧
    [0x69, 0x307, 0x3C2, 0x3C3].all (fun n => decide n.isValidChar && n != 0x130 &&
      lowerShifts.all fun q => !q.covers n) = true ∧
    lowerChar (Char.ofNat 0x3A3) ≠ [Char.ofNat 0x3A3] := by
  decide +kernel

/-- The runs to upper case, and the characters written as several, lead to letters, and never to
where another run starts. -/
theorem upperShifts_checked :
    upperShifts.all (·.isSafe) = true ∧
    upperShifts.all (fun r => (upperWhole.map (fun p => CaseShift.single p.1) ++
      upperShifts).all r.misses) = true ∧
    upperWhole.all (fun p => decide (0x21 ≤ p.1) && !p.2.isEmpty && p.2.all isLetterCode) = true ∧
    upperWhole.all (fun p => p.2.all fun n => (decide n.isValidChar) &&
      (upperWhole.lookup n).isNone && upperShifts.all fun q => !q.covers n) = true := by
  decide +kernel

/-- A character that is shifted along a safe table may stand for the old one. -/
theorem renders_shift {table : List CaseShift} (h : table.all (·.isSafe) = true) (c : Char) :
    Renders c [shift table c] := by
  rw [shift]
  split
  · rename_i r hr
    have hmem := List.mem_of_find?_eq_some hr
    have hcovers : r.covers c.toNat = true := by simpa using List.find?_some hr
    obtain ⟨hc, hcode⟩ := CaseShift.isLetterCode (List.all_eq_true.1 h r hmem) hcovers
    exact .of_codes [(c.toNat + r.delta).toNat] (isGap_of_le hc) (by simp)
      (by simpa using hcode)
  · exact .refl c

/-- The upper case of a character may stand in its place. -/
theorem renders_upperChar (c : Char) : Renders c (upperChar c) := by
  obtain ⟨hsafe, -, hwhole, -⟩ := upperShifts_checked
  rw [upperChar]
  split
  · split
    · rename_i h
      simp only [Bool.and_eq_true, decide_eq_true_eq] at h
      refine .of_codes [c.toNat - 32] (isGap_of_le (by omega)) (by simp) ?_
      simp [isLetterCode, Nat.isValidChar]
      omega
    · exact .refl c
  · split
    · rename_i ns hns
      obtain ⟨front, back, htable, -⟩ := List.lookup_eq_some_iff.1 hns
      have hmem : (c.toNat, ns) ∈ upperWhole := by
        rw [htable]
        simp
      have hletters := List.all_eq_true.1 hwhole _ hmem
      simp only [Bool.and_eq_true, decide_eq_true_eq, Bool.not_eq_true',
        List.isEmpty_eq_false_iff] at hletters
      exact .of_codes ns (isGap_of_le hletters.1.1) hletters.1.2 hletters.2
    · exact renders_shift hsafe c

/-- The lower case of a character may stand in its place. -/
theorem renders_lowerChar (c : Char) : Renders c (lowerChar c) := by
  rw [lowerChar]
  split
  · split
    · rename_i h
      simp only [Bool.and_eq_true, decide_eq_true_eq] at h
      refine .of_codes [c.toNat + 32] (isGap_of_le (by omega)) (by simp) ?_
      simp [isLetterCode, Nat.isValidChar]
      omega
    · exact .refl c
  · split
    · exact .of_codes ['i'.toNat, 0x307] (isGap_of_le (by omega)) (by simp) (by decide)
    · exact renders_shift lowerShifts_checked.1 c

/-- Beyond ASCII, no lower case is in ASCII but for that of the sign of the kelvin. -/
theorem shift_lowerShifts_notMem {chars : List Char}
    (hchars : ∀ d ∈ chars, d.toNat < 0x80 ∧ d.toNat ≠ 0x6B) {c : Char} (hc : 0x80 ≤ c.toNat) :
    shift lowerShifts c ∉ chars := by
  obtain ⟨hsafe, hruns, -⟩ := lowerShifts_checked
  rw [shift]
  split
  · rename_i r hr
    have hmem := List.mem_of_find?_eq_some hr
    have hcovers : r.covers c.toNat = true := by simpa using List.find?_some hr
    obtain ⟨-, hcode⟩ := CaseShift.isLetterCode (List.all_eq_true.1 hsafe r hmem) hcovers
    have hrun := List.all_eq_true.1 hruns r hmem
    simp only [CaseShift.covers, Bool.and_eq_true, Bool.or_eq_true, decide_eq_true_eq]
      at hcovers hrun
    simp only [isLetterCode, Bool.and_eq_true, decide_eq_true_eq] at hcode
    have hnat : (Char.ofNat (c.toNat + r.delta).toNat).toNat = (c.toNat + r.delta).toNat := by
      rw [Char.ofNat, dif_pos hcode.2]
      rfl
    intro hd
    obtain ⟨hlt, hne⟩ := hchars _ hd
    rw [hnat] at hlt hne
    omega
  · intro hd
    have := (hchars _ hd).1
    omega

end Text

/-! ## Texts -/

/-- A text with each character written as others. -/
inductive Recased : List Char → List Char → Prop
  | nil : Recased [] []
  | cons {c : Char} {image cs ds : List Char} : Renders c image → Recased cs ds →
      Recased (c :: cs) (image ++ ds)

section
variable {cs ds : List Char}

/-- Each text is written as itself. -/
theorem Recased.refl (cs : List Char) : Recased cs cs := by
  induction cs with
  | nil => exact .nil
  | cons c cs ih => exact .cons (.refl c) ih

/-- A cell ends in front of a text if it ends in front of the other. -/
theorem Recased.endsCell (h : Recased cs ds) : endsCell ds = endsCell cs := by
  cases h with
  | nil => rfl
  | @cons c image cs ds hc hr =>
    cases hg : isGap c with
    | false =>
      obtain ⟨hne, hall⟩ := hc.other hg
      cases image with
      | nil => exact absurd rfl hne
      | cons d image =>
        rw [List.cons_append, endsCell_of_not_isGap (hall d List.mem_cons_self).1,
          endsCell_of_not_isGap hg]
    | true =>
      rw [hc.gap hg, List.singleton_append]
      -- what stands behind a blank is blank in both texts or in none
      cases hr with
      | nil => rfl
      | @cons e image cs ds he _ =>
        cases heg : isGap e with
        | true => rw [he.gap heg]; rfl
        | false =>
          obtain ⟨hne, hall⟩ := he.other heg
          cases image with
          | nil => exact absurd rfl hne
          | cons f image =>
            rw [List.cons_append, RobotSuite.endsCell, RobotSuite.endsCell, heg,
              (hall f List.mem_cons_self).1]

/-- Characters that are no gaps leave gaps as tight as they are. -/
theorem isTight_append {a b : List Char} (ha : ∀ c ∈ a, isGap c = false) :
    isTight (a ++ b) = isTight b := by
  induction a with
  | nil => rfl
  | cons c a ih =>
    rw [List.cons_append, isTight, endsCell_of_not_isGap (ha c List.mem_cons_self),
      ih fun d hd => ha d (List.mem_cons_of_mem _ hd)]
    rfl

/-- A text written with others in place of its characters has gaps as tight as before. -/
theorem Recased.isTight (h : Recased cs ds) : isTight ds = isTight cs := by
  induction h with
  | nil => rfl
  | @cons c image cs ds hc hr ih =>
    have hends := (Recased.cons hc hr).endsCell
    cases hg : isGap c with
    | true =>
      rw [hc.gap hg, List.singleton_append] at hends ⊢
      rw [RobotSuite.isTight, RobotSuite.isTight, ih, hends]
    | false =>
      rw [isTight_append fun d hd => ((hc.other hg).2 d hd).1, RobotSuite.isTight,
        endsCell_of_not_isGap hg, ih]
      rfl

/-- No control character comes in. -/
theorem Recased.isControlChar (h : Recased cs ds) (hc : cs.any isControlChar = false) :
    ds.any RobotSuite.isControlChar = false := by
  induction h with
  | nil => rfl
  | @cons c image cs ds hr _ ih =>
    rw [List.any_cons, Bool.or_eq_false_iff] at hc
    rw [List.any_append, ih hc.2, Bool.or_false, List.any_eq_false]
    intro d hd hcontrol
    cases hg : isGap c with
    | true =>
      rw [hr.gap hg] at hd
      obtain rfl := List.mem_singleton.1 hd
      simp [hc.1] at hcontrol
    | false =>
      have := ((hr.other hg).2 d hd).2.2 hcontrol
      simp [hc.1] at this

/-- **A cell with its characters written as others is a cell.** -/
theorem IsCell.recased {s v : String} (h : IsCell s) (hr : Recased s.toList v.toList) :
    IsCell v := by
  obtain ⟨⟨c, hc, hg, hhash⟩, ht, hp⟩ := h
  refine ⟨?_, by rw [hr.isTight, ht], hr.isControlChar hp⟩
  generalize s.toList = cs at hc hr
  generalize v.toList = ds at hr
  cases hr with
  | nil => cases hc
  | @cons c' image cs ds hr _ =>
    obtain rfl : c' = c := Option.some.inj hc
    obtain ⟨hne, hall⟩ := hr.other hg
    cases image with
    | nil => exact absurd rfl hne
    | cons d image =>
      obtain ⟨hgap, hd, -⟩ := hall d List.mem_cons_self
      exact ⟨d, rfl, hgap, fun h => hhash (hd h)⟩

end

namespace Text

/-- A text in lower case has others in place of its characters. -/
theorem recased_lowerAfter (before cs : List Char) : Recased cs (lowerAfter before cs) := by
  induction cs generalizing before with
  | nil => exact .nil
  | cons c cs ih =>
    rw [lowerAfter]
    refine .cons ?_ (ih _)
    split
    · rename_i h
      have hg : isGap c = false := isGap_of_le (by omega)
      split
      · exact .of_codes [0x3C2] hg (by simp) (by decide)
      · exact .of_codes [0x3C3] hg (by simp) (by decide)
    · exact renders_lowerChar c

/-- A text in upper case has others in place of its characters. -/
theorem recased_upperChars (cs : List Char) : Recased cs (upperChars cs) := by
  induction cs with
  | nil => exact .nil
  | cons c cs ih => exact .cons (renders_upperChar c) ih

/-- A word in title case has others in place of its characters. -/
theorem recased_titleWord (cs : List Char) : Recased cs (titleWord cs) := by
  cases cs with
  | nil => exact .nil
  | cons c cs =>
    rw [titleWord]
    refine .cons ?_ (recased_lowerAfter [] cs)
    split
    · exact renders_upperChar c
    · exact .refl c

/-- Words written in another way, with the spaces between them. -/
theorem recased_words {cs w d : List Char} {ws : List (List Char)}
    (h : splitOn ' ' cs = w :: ws) (hd : Recased w d) :
    Recased cs ([' '].intercalate (d :: ws.map titleWord)) := by
  induction cs generalizing w d ws with
  | nil =>
    obtain ⟨rfl, rfl⟩ : [] = w ∧ [] = ws := by simpa [splitOn] using h
    cases hd
    exact .nil
  | cons c cs ih =>
    obtain ⟨p, ps, hp⟩ := List.exists_cons_of_ne_nil (splitOn_ne_nil ' ' cs)
    rw [splitOn, hp] at h
    by_cases hc : c = ' '
    · rw [if_pos hc] at h
      obtain ⟨rfl, rfl⟩ := List.cons.inj h
      cases hd
      rw [hc, List.map_cons, List.intercalate_cons_cons]
      exact .cons (.refl ' ') (ih hp (recased_titleWord p))
    · rw [if_neg hc] at h
      obtain ⟨rfl, rfl⟩ := List.cons.inj h
      cases hd with
      | @cons _ image _ ds hr hd =>
        have hrest := Recased.cons hr (ih hp hd)
        have hmove : image ++ [' '].intercalate (ds :: ps.map titleWord) =
            [' '].intercalate ((image ++ ds) :: ps.map titleWord) := by
          cases ps with
          | nil => simp
          | cons q ps =>
            rw [List.map_cons, List.intercalate_cons_cons, List.intercalate_cons_cons]
            simp
        rwa [hmove] at hrest

end Text

/-- **A cell in another case is a cell.** -/
theorem IsCell.apply {s : String} (h : IsCell s) (mode : TagCase) : IsCell (mode.apply s) := by
  unfold TagCase.apply
  split
  · exact h
  · refine h.recased ?_
    cases mode with
    | lower => simpa [Text.lower, Text.lowerChars] using Text.recased_lowerAfter [] s.toList
    | upper => simpa [Text.upper] using Text.recased_upperChars s.toList
    | preserve => exact .refl _
    | title =>
      obtain ⟨w, ws, hw⟩ := List.exists_cons_of_ne_nil (Text.splitOn_ne_nil ' ' s.toList)
      have hwords := Text.recased_words hw (Text.recased_titleWord w)
      have hmap : (titleWords s).toList = [' '].intercalate ((w :: ws).map Text.titleWord) := by
        rw [titleWords, String.toList_intercalate, hw, List.map_map]
        congr 1
        refine List.map_congr_left fun x _ => ?_
        simp
      show Recased s.toList (titleWords s).toList
      rwa [hmap]

namespace Text

/-! ## Cases that have been applied -/

namespace CaseShift
variable {r q : CaseShift} {n : Nat}

/-- No image of a run is in a run that it misses. -/
theorem covers_of_misses (h : r.misses q = true) (hr : r.isSafe = true) (hn : r.covers n = true) :
    q.covers (n + r.delta).toNat = false := by
  simp only [isSafe, Bool.and_eq_true, decide_eq_true_eq] at hr
  simp only [misses, firstImage, lastImage, Bool.or_eq_true, Bool.and_eq_true, Nat.blt_eq,
    Nat.beq_eq] at h
  simp only [covers, Bool.and_eq_true, decide_eq_true_eq] at hn
  rw [Bool.eq_false_iff]
  intro hq
  simp only [covers, Bool.and_eq_true, decide_eq_true_eq] at hq
  rcases h with (h | h) | ⟨⟨hstep, hone | hone⟩, hodd⟩
  · omega
  · omega
  · rw [hone] at hn
    rw [hstep] at hq
    omega
  · rw [hstep] at hq
    omega

/-- A run of one character covers it. -/
theorem covers_single (n : Nat) : (single n).covers n = true := by
  simp [single, covers]

end CaseShift

section
variable {table others : List CaseShift} {c d : Char} {before cs : List Char}

/-- A character that no run covers stays. -/
theorem shift_eq_self (h : ∀ q ∈ table, q.covers c.toNat = false) : shift table c = c := by
  rw [shift, List.find?_eq_none.2 fun q hq => by simp [h q hq]]

/-- A character stays, or its image is in none of some runs that all runs miss. -/
theorem shift_cases (hs : table.all (·.isSafe) = true)
    (h : table.all (fun r => others.all r.misses) = true) (c : Char) :
    shift table c = c ∨ ∀ q ∈ others, q.covers (shift table c).toNat = false := by
  rw [shift]
  split
  · rename_i r hr
    have hmem := List.mem_of_find?_eq_some hr
    have hcovers : r.covers c.toNat = true := by simpa using List.find?_some hr
    have hsafe := List.all_eq_true.1 hs r hmem
    obtain ⟨-, hcode⟩ := CaseShift.isLetterCode hsafe hcovers
    simp only [isLetterCode, Bool.and_eq_true, decide_eq_true_eq] at hcode
    have hnat : (Char.ofNat (c.toNat + r.delta).toNat).toNat = (c.toNat + r.delta).toNat := by
      rw [Char.ofNat, dif_pos hcode.2]
      rfl
    rw [hnat]
    exact .inr fun q hq => CaseShift.covers_of_misses
      (List.all_eq_true.1 (List.all_eq_true.1 h r hmem) q hq) hsafe hcovers
  · exact .inl rfl

/-- A character from which no run starts is in lower case. -/
theorem lowerChar_eq_self (h : ∀ q ∈ lowerShifts, q.covers d.toNat = false)
    (hd : d.toNat ≠ 0x130) : lowerChar d = [d] := by
  have hletters := h ⟨0x41, 0x5A, 1, 32⟩ (List.mem_append_left _ List.mem_cons_self)
  rw [lowerChar]
  split
  · rw [if_neg fun hn => ?_]
    simp only [Bool.and_eq_true, decide_eq_true_eq] at hn
    simp [CaseShift.covers, hn, Nat.mod_one] at hletters
  · rw [shift_eq_self h]

/-- Letters in lower case that no run leads to. -/
theorem lowerChar_of_code {n : Nat} (h : n ∈ [0x69, 0x307, 0x3C2, 0x3C3]) :
    lowerChar (Char.ofNat n) = [Char.ofNat n] := by
  obtain ⟨-, -, -, hcovers, -⟩ := lowerShifts_checked
  have hn := List.all_eq_true.1 hcovers n h
  simp only [Bool.and_eq_true, decide_eq_true_eq, bne_iff_ne, List.all_eq_true,
    Bool.not_eq_true'] at hn
  have hnat : (Char.ofNat n).toNat = n := by
    rw [Char.ofNat, dif_pos hn.1.1]
    rfl
  exact lowerChar_eq_self (by rw [hnat]; exact hn.2) (by rw [hnat]; exact hn.1.2)

/-- **What is in lower case stays.** -/
theorem lowerChar_of_mem (h : d ∈ lowerChar c) : lowerChar d = [d] := by
  obtain ⟨hsafe, -, hmisses, -⟩ := lowerShifts_checked
  have hold := h
  rw [lowerChar] at h
  split at h
  · split at h
    · rename_i hn
      simp only [Bool.and_eq_true, decide_eq_true_eq] at hn
      obtain rfl := List.mem_singleton.1 h
      have hnat : (Char.ofNat (c.toNat + 32)).toNat = c.toNat + 32 := by
        rw [Char.ofNat, dif_pos (by simp only [Nat.isValidChar]; omega)]
        rfl
      rw [lowerChar, hnat, if_pos (by omega), if_neg (by simp; omega)]
    · obtain rfl := List.mem_singleton.1 h
      rw [lowerChar, if_pos ‹_›, if_neg ‹_›]
  · split at h
    · rcases List.mem_cons.1 h with rfl | h
      · exact lowerChar_of_code (n := 0x69) (by simp)
      · rw [List.mem_singleton.1 h]
        exact lowerChar_of_code (by simp)
    · obtain rfl := List.mem_singleton.1 h
      rcases shift_cases hsafe hmisses c with hc | hc
      · rw [hc, lowerChar, if_neg ‹_›, if_neg ‹_›, hc]
      · rw [List.forall_mem_cons] at hc
        refine lowerChar_eq_self hc.2 fun hd => ?_
        have hsingle := hc.1
        rw [hd, CaseShift.covers_single] at hsingle
        cases hsingle

/-- A character from which no run starts, and that is not written as several, is in upper case. -/
theorem upperChar_eq_self (h : ∀ q ∈ upperShifts, q.covers d.toNat = false)
    (hd : upperWhole.lookup d.toNat = none) : upperChar d = [d] := by
  have hletters := h ⟨0x61, 0x7A, 1, -32⟩ (List.mem_append_left _ List.mem_cons_self)
  rw [upperChar]
  split
  · rw [if_neg fun hn => ?_]
    simp only [Bool.and_eq_true, decide_eq_true_eq] at hn
    simp [CaseShift.covers, hn, Nat.mod_one] at hletters
  · rw [hd, shift_eq_self h]

/-- **What is in upper case stays.** -/
theorem upperChar_of_mem (h : d ∈ upperChar c) : upperChar d = [d] := by
  obtain ⟨hsafe, hmisses, -, hwhole⟩ := upperShifts_checked
  have hold := h
  rw [upperChar] at h
  split at h
  · split at h
    · rename_i hn
      simp only [Bool.and_eq_true, decide_eq_true_eq] at hn
      obtain rfl := List.mem_singleton.1 h
      have hnat : (Char.ofNat (c.toNat - 32)).toNat = c.toNat - 32 := by
        rw [Char.ofNat, dif_pos (by simp only [Nat.isValidChar]; omega)]
        rfl
      rw [upperChar, hnat, if_pos (by omega), if_neg (by simp; omega)]
    · obtain rfl := List.mem_singleton.1 h
      rw [upperChar, if_pos ‹_›, if_neg ‹_›]
  · split at h
    · rename_i ns hns
      obtain ⟨n, hn, rfl⟩ := List.mem_map.1 h
      obtain ⟨front, back, htable, -⟩ := List.lookup_eq_some_iff.1 hns
      have hmem : (c.toNat, ns) ∈ upperWhole := by
        rw [htable]
        simp
      have hstays := List.all_eq_true.1 (List.all_eq_true.1 hwhole _ hmem) n hn
      simp only [Bool.and_eq_true, decide_eq_true_eq, Option.isNone_iff_eq_none,
        List.all_eq_true, Bool.not_eq_true'] at hstays
      have hnat : (Char.ofNat n).toNat = n := by
        rw [Char.ofNat, dif_pos hstays.1.1]
        rfl
      exact upperChar_eq_self (by rw [hnat]; exact hstays.2) (by rw [hnat]; exact hstays.1.2)
    · rename_i hnone
      obtain rfl := List.mem_singleton.1 h
      rcases shift_cases hsafe hmisses c with hc | hc
      · rw [hc, upperChar, if_neg ‹_›, hnone]
        dsimp only
        rw [hc]
      · rw [List.forall_mem_append] at hc
        refine upperChar_eq_self hc.2 (List.lookup_eq_none_iff.2 fun p hp => ?_)
        have hsingle := hc.1 _ (List.mem_map_of_mem hp)
        rw [bne_iff_ne]
        intro hd
        rw [hd, CaseShift.covers_single] at hsingle
        cases hsingle

/-- Where no character has another lower case, the text is in lower case. -/
theorem lowerAfter_eq_self (h : ∀ c ∈ cs, lowerChar c = [c]) : lowerAfter before cs = cs := by
  induction cs generalizing before with
  | nil => rfl
  | cons c cs ih =>
    rw [List.forall_mem_cons] at h
    rw [lowerAfter, ih h.2]
    split
    · rename_i hc
      obtain ⟨-, -, -, -, hsigma⟩ := lowerShifts_checked
      have heq : c = Char.ofNat 0x3A3 := by rw [← hc, Char.ofNat_toNat]
      exact absurd h.1 (heq ▸ hsigma)
    · rw [h.1]
      rfl

/-- All that lower case leads to is in lower case. -/
theorem lowerChar_of_mem_lowerAfter (h : d ∈ lowerAfter before cs) : lowerChar d = [d] := by
  induction cs generalizing before with
  | nil => cases h
  | cons c cs ih =>
    rw [lowerAfter, List.mem_append] at h
    rcases h with h | h
    · split at h
      · rw [List.mem_singleton.1 h]
        split <;> exact lowerChar_of_code (by simp)
      · exact lowerChar_of_mem h
    · exact ih h

end

/-- A text in lower case is so if it is put there again. -/
theorem lower_lower (s : String) : lower (lower s) = lower s := by
  have hchars : lowerChars (lowerChars s.toList) = lowerChars s.toList :=
    lowerAfter_eq_self fun c hc => lowerChar_of_mem_lowerAfter hc
  rw [lower, lower, String.toList_ofList, hchars]

/-- A text in upper case is so if it is put there again. -/
theorem upper_upper (s : String) : upper (upper s) = upper s := by
  have hall : ∀ c ∈ upperChars s.toList, upperChar c = [c] := by
    intro c hc
    obtain ⟨b, -, hb⟩ := List.mem_flatMap.1 hc
    exact upperChar_of_mem hb
  have hchars : upperChars (upperChars s.toList) = upperChars s.toList := by
    rw [upperChars.eq_def (upperChars s.toList), List.flatMap_congr hall, List.flatMap_singleton']
  rw [upper, upper, String.toList_ofList, hchars]

end Text

/-- **A case is applied once,** but title case may go on. -/
theorem TagCase.apply_apply {mode : TagCase} (h : mode ≠ .title) (v : String) :
    mode.apply (mode.apply v) = mode.apply v := by
  by_cases hv : Text.opensVariable v.toList = true
  · have hkept : mode.apply v = v := by rw [apply.eq_def, if_pos hv]
    rw [hkept, hkept]
  · have hstays {w : String} (hw : Text.opensVariable w.toList = false → mode.apply w = w) :
        mode.apply w = w := by
      by_cases hopens : Text.opensVariable w.toList = true
      · rw [apply.eq_def, if_pos hopens]
      · exact hw (Bool.eq_false_iff.2 hopens)
    refine hstays fun hw => ?_
    cases mode with
    | lower =>
      have hlower : TagCase.lower.apply v = Text.lower v := by rw [apply, if_neg hv]
      rw [hlower] at hw ⊢
      rw [apply, hw]
      exact Text.lower_lower v
    | upper =>
      have hupper : TagCase.upper.apply v = Text.upper v := by rw [apply, if_neg hv]
      rw [hupper] at hw ⊢
      rw [apply, hw]
      exact Text.upper_upper v
    | title => exact absurd rfl h
    | preserve =>
      have hsame : TagCase.preserve.apply v = v := by rw [apply, if_neg hv]
      rw [hsame, hsame]

example : TagCase.title.apply "ßa" = "SSa" ∧ TagCase.title.apply "SSa" = "Ssa" := by decide +kernel

end RobotSuite
