/-
# Plans leave nothing to fix

A plan is made from the type of a statement and the texts of its data.  What it writes stands for
cells (`writable_of_mem_cellEdits`), and when it has been carried out the texts ask for nothing
more.  The type of the statement stays, but for a call named ELSE in an IF block, which becomes the
header of a branch (`settled_body`).
-/

import RobotSuite.Proofs.Data.CaseMapping
import RobotSuite.Proofs.Lint.FixingRules
import RobotSuite.Proofs.Tree.FileLines

namespace RobotSuite

/-! ## Carrying out a plan -/

/-- What the text of a cell becomes. -/
def Edit.respell (v : String) : Edit → Option String
  | .keep | .trim => some v
  | .remove => none
  | .write _ new => some new

/-- What texts become by a plan. -/
def applied : List Edit → List String → List String
  | _, [] => []
  | plan, v :: vs => ((plan.headD .keep).respell v).toList ++ applied plan.tail vs

/-- A plan that leaves everything as it is. -/
def Idle (plan : List Edit) : Prop := ∀ e ∈ plan, e = .keep

section
variable {plan : List Edit} {vs : List String}

theorem idle_nil : Idle [] := by simp [Idle]

/-- A plan is idle when its first edit keeps and the rest is idle. -/
theorem idle_cons {e : Edit} : Idle (e :: plan) ↔ e = .keep ∧ Idle plan := List.forall_mem_cons

/-- Edits that keep, put in front, leave a plan idle. -/
theorem idle_keep_append {as : List String} (h : Idle plan) :
    Idle (as.map (fun _ => Edit.keep) ++ plan) := by
  intro e he
  rcases List.mem_append.1 he with he | he
  · obtain ⟨-, -, rfl⟩ := List.mem_map.1 he
    rfl
  · exact h e he

/-- An idle plan changes no text. -/
theorem applied_of_idle (h : Idle plan) : applied plan vs = vs := by
  induction vs generalizing plan with
  | nil => rfl
  | cons v vs ih =>
    cases plan with
    | nil =>
      rw [applied]
      exact congrArg (v :: ·) (ih idle_nil)
    | cons e plan =>
      obtain ⟨rfl, hplan⟩ := idle_cons.1 h
      rw [applied]
      exact congrArg (v :: ·) (ih hplan)

theorem applied_nil : applied [] vs = vs := applied_of_idle idle_nil

end

/-! ## ELSE in capitals -/

namespace Text

/-- The characters of ELSE and ELSE IF in small letters. -/
def elseChars : List Char := "else if".toList

/-- A character whose lower case is among the characters of ELSE. -/
theorem upperChar_of_lowerChar {c : Char} (h : lowerChar c ⊆ elseChars) :
    upperChar c = upperChars (lowerChar c) ∧ c ≠ '$' ∧ c ≠ '@' ∧ c ≠ '&' := by
  have hascii : ∀ n < 0x80, lowerChar (Char.ofNat n) ⊆ elseChars →
      upperChar (Char.ofNat n) = upperChars (lowerChar (Char.ofNat n)) ∧
        Char.ofNat n ≠ '$' ∧ Char.ofNat n ≠ '@' ∧ Char.ofNat n ≠ '&' := by
    decide +kernel
  by_cases hc : c.toNat < 0x80
  · have := hascii c.toNat hc
    rw [Char.ofNat_toNat] at this
    exact this h
  · rw [lowerChar, if_neg hc] at h
    split at h
    · exact absurd h (by decide)
    · have hchars : elseChars.all (fun d => d.toNat < 0x80 ∧ d.toNat ≠ 0x6B) = true := by
        decide
      have hsmall := fun d hd => of_decide_eq_true (List.all_eq_true.1 hchars d hd)
      exact absurd (h List.mem_cons_self) (shift_lowerShifts_notMem hsmall (by omega))

/-- What is written ELSE in small letters is written ELSE in capitals. -/
theorem upperChars_of_lowerAfter {before cs : List Char} (h : lowerAfter before cs ⊆ elseChars) :
    upperChars cs = upperChars (lowerAfter before cs) ∧ ∀ c ∈ cs, c ≠ '$' ∧ c ≠ '@' ∧ c ≠ '&' := by
  induction cs generalizing before with
  | nil => exact ⟨rfl, by simp⟩
  | cons c cs ih =>
    rw [lowerAfter] at h ⊢
    obtain ⟨himage, hrest⟩ := List.append_subset.1 h
    obtain ⟨hupper, hsigils⟩ := ih hrest
    split at himage
    · rename_i hsigma
      split at himage <;> exact absurd himage (by decide)
    · rename_i hsigma
      obtain ⟨hc, hsigil⟩ := upperChar_of_lowerChar himage
      rw [if_neg hsigma]
      refine ⟨?_, List.forall_mem_cons.2 ⟨hsigil, hsigils⟩⟩
      rw [upperChars, List.flatMap_cons, upperChars, List.flatMap_append] at *
      rw [hc, hupper]

end Text

/-- How ELSE is written in capitals. -/
def capitalElse : List String := ["ELSE", "ELSE IF"]

/-- A small `ELSE` in upper case is a capital one. -/
theorem upper_of_isSmallElse {v : String} (h : Text.lower v ∈ ["else", "else if"]) :
    Text.upper v ∈ capitalElse ∧ isAssignment v = false := by
  have hlower : Text.lowerAfter [] v.toList = (Text.lower v).toList := by
    simp [Text.lower, Text.lowerChars]
  have hsub : Text.lowerAfter [] v.toList ⊆ Text.elseChars := by
    rw [hlower]
    rcases List.mem_pair.1 h with h | h <;> rw [h] <;> decide
  obtain ⟨hupper, hsigils⟩ := Text.upperChars_of_lowerAfter hsub
  constructor
  · rw [Text.upper, hupper, hlower]
    rcases List.mem_pair.1 h with h | h <;> rw [h] <;> decide
  · rw [isAssignment]
    split
    · rename_i sigil rest hv
      obtain ⟨hd, ha, hn⟩ := hsigils sigil (by simp [hv])
      simp [hd, ha, hn]
    · rfl

/-! ## What a plan leaves to be done -/

section
variable (on : String → Bool)

/-- What becomes of a cell that might be meant as ELSE. -/
theorem elseEdit_cases (v : String) : elseEdit on v = .keep ∨
    ∃ u ∈ capitalElse, elseEdit on v = .write NameRules.elseInfo.code u ∧
      isAssignment v = false ∧ v ≠ "IF" := by
  rw [elseEdit]
  split
  · rename_i h
    simp only [NameRules.isSmallElse, Token.create, Bool.and_eq_true, List.contains_iff_mem] at h
    obtain ⟨hupper, hassign⟩ := upper_of_isSmallElse h.2.1
    refine .inr ⟨_, hupper, rfl, hassign, ?_⟩
    rintro rfl
    exact absurd h.2.1 (by decide)
  · exact .inl rfl

/-- A capital `ELSE` is kept. -/
theorem elseEdit_of_capital {u : String} (h : u ∈ capitalElse) : elseEdit on u = .keep := by
  have hsmall : NameRules.isSmallElse (.create .argument u) = false := by
    rcases List.mem_pair.1 h with rfl | rfl <;> decide
  rw [elseEdit, hsmall, Bool.and_false, if_neg Bool.false_ne_true]

/-- Cells that might be meant as ELSE, when those that are have been written in capitals. -/
theorem applied_map_elseEdit (vs : List String) :
    Idle ((applied (vs.map (elseEdit on)) vs).map (elseEdit on)) ∧
      List.Forall₂ (fun v u => isAssignment u = isAssignment v ∧ (u = "IF" ↔ v = "IF")) vs
        (applied (vs.map (elseEdit on)) vs) := by
  induction vs with
  | nil => exact ⟨idle_nil, .nil⟩
  | cons v vs ih =>
    obtain ⟨hidle, hcells⟩ := ih
    rw [List.map_cons, applied, List.headD_cons, List.tail_cons]
    rcases elseEdit_cases on v with h | ⟨u, hu, h, hassign, hif⟩
    · rw [h]
      exact ⟨idle_cons.2 ⟨h, hidle⟩, .cons ⟨rfl, .rfl⟩ hcells⟩
    · rw [h]
      refine ⟨idle_cons.2 ⟨elseEdit_of_capital on hu, hidle⟩, .cons ⟨?_, ?_⟩ hcells⟩
      · rw [hassign]
        rcases List.mem_pair.1 hu with rfl | rfl <;> decide
      · simp only [hif, iff_false]
        rintro rfl
        exact absurd hu (by decide)

/-- Tags of which those that repeat another are gone. -/
theorem idle_tagEdits (seen vs : List String) :
    Idle (tagEdits seen (applied (tagEdits seen vs) vs)) := by
  induction vs generalizing seen with
  | nil => exact idle_nil
  | cons v vs ih =>
    rw [tagEdits]
    split
    · rw [applied, List.headD_cons, List.tail_cons]
      exact ih seen
    · rename_i h
      rw [applied, List.headD_cons, List.tail_cons, Edit.respell, Option.toList_some,
        List.singleton_append, tagEdits, if_neg h]
      exact idle_cons.2 ⟨rfl, ih _⟩

/-- Planning the arguments again finds nothing left to edit. -/
theorem idle_argumentEdits (holdsTags : Bool) (vs : List String) :
    Idle (argumentEdits on holdsTags (applied (argumentEdits on holdsTags vs) vs)) := by
  rw [argumentEdits, argumentEdits]
  split
  · exact idle_tagEdits [] vs
  · exact idle_nil

/-- The name of a suite setting, when it is up to date. -/
theorem suiteNameEdit_cases (v : String) : suiteNameEdit on v = .keep ∨
    suiteNameEdit on v = .write StyleRules.forceTagsInfo.code "Test Tags" ∧
      SettingName.ofSuiteCell v = "Force Tags" := by
  rw [suiteNameEdit]
  split
  · rename_i h
    simp only [Bool.and_eq_true, decide_eq_true_eq] at h
    exact .inr ⟨rfl, h.2⟩
  · exact .inl rfl

/-- The arguments of a suite setting are read alike under its new name. -/
theorem settled_setting (kind : Option SectionKind) (inIf : Bool) (vs : List String) :
    Idle (cellEdits on kind inIf .setting
      (applied (cellEdits on kind inIf .setting vs) vs)) := by
  cases vs with
  | nil => exact idle_nil
  | cons v vs =>
    simp only [cellEdits]
    rw [applied, List.headD_cons, List.tail_cons]
    rcases suiteNameEdit_cases on v with h | ⟨h, hv⟩
    · rw [h]
      simp only [Edit.respell, Option.toList_some, List.singleton_append]
      exact idle_cons.2 ⟨h, idle_argumentEdits on _ vs⟩
    · have hname : SettingName.ofSuiteCell "Test Tags" = "Test Tags" := by decide
      have hholds : SettingName.tags.contains (SettingName.ofSuiteCell "Test Tags") =
          SettingName.tags.contains (SettingName.ofSuiteCell v) := by
        rw [hname, hv]
        decide
      have hkeep : suiteNameEdit on "Test Tags" = .keep := by
        rw [suiteNameEdit, hname]
        simp
      rw [h]
      simp only [Edit.respell, Option.toList_some, List.singleton_append, hholds]
      exact idle_cons.2 ⟨hkeep, idle_argumentEdits on _ vs⟩

/-- A bracketed setting with its edits made asks for no other. -/
theorem settled_blockSetting (kind : Option SectionKind) (inIf : Bool) (vs : List String) :
    Idle (cellEdits on kind inIf .blockSetting
      (applied (cellEdits on kind inIf .blockSetting vs) vs)) := by
  cases vs with
  | nil => exact idle_nil
  | cons v vs =>
    simp only [cellEdits, applied, List.headD_cons, List.tail_cons, Edit.respell,
      Option.toList_some, List.singleton_append]
    exact idle_cons.2 ⟨rfl, idle_argumentEdits on _ vs⟩

/-- A header in the singular has a name that is listed. -/
theorem isInherited_of_singular {v : String} (h : isSingularHeader v = true) :
    ((SectionKind.ofHeader? v).getD .invalid).isInherited = false := by
  rw [isSingularHeader, List.contains_iff_mem] at h
  rw [SectionKind.ofHeader?]
  generalize normalizeHeader v = name at h
  simp only [singularHeaders, List.mem_cons, List.not_mem_nil, or_false] at h
  rcases h with rfl | rfl | rfl | rfl | rfl | rfl <;> decide

/-- The plural of the header of a section opens a section of that kind, and it is no singular. -/
theorem headerEdit_cases {kind : SectionKind} {v : String}
    (hv : (SectionKind.ofHeader? v).getD .invalid = kind) : headerEdit on (some kind) v = .keep ∨
    ∃ u, headerEdit on (some kind) v = .write StyleRules.headerInfo.code u ∧
      SectionKind.ofHeader? u = some kind ∧ isSingularHeader u = false := by
  have hplural {u : String} (hk : kind ≠ .invalid) (h : StyleRules.pluralHeader? kind v = some u) :
      SectionKind.ofHeader? u = some kind ∧ isSingularHeader u = false := by
    rw [StyleRules.pluralHeader?] at h
    split at h
    · rename_i hsingular
      split at h
      · rename_i htask
        have hkind : kind = .testCases := by
          rw [← hv, SectionKind.ofHeader?, htask]
          rfl
        obtain rfl := Option.some.inj h
        rw [hkind]
        decide
      · have hlisted := isInherited_of_singular hsingular
        rw [hv] at hlisted
        cases kind <;> first
          | exact absurd rfl hk
          | cases (show true = false from hlisted)
          | (obtain rfl := Option.some.inj h; decide)
    · cases h
  rw [headerEdit]
  split
  · cases hk : (some kind).filter (· != .invalid) with
    | none => exact .inl rfl
    | some k =>
      obtain ⟨hsome, hne⟩ := Option.filter_eq_some_iff.1 hk
      obtain rfl := Option.some.inj hsome
      rw [Option.bind_some]
      cases hu : StyleRules.pluralHeader? kind v with
      | none => exact .inl rfl
      | some u => exact .inr ⟨u, rfl, hplural (by simpa using hne) hu⟩
  · exact .inl rfl

/-- The header of a section, when it is in the plural. -/
theorem settled_header {kind : SectionKind} {v : String} (inIf : Bool) (vs : List String)
    (hv : (SectionKind.ofHeader? v).getD .invalid = kind) :
    ∃ u, applied (cellEdits on (some kind) inIf .sectionHeader (v :: vs)) (v :: vs) = u :: vs ∧
      (SectionKind.ofHeader? u).getD .invalid = kind ∧
      Idle (cellEdits on (some kind) inIf .sectionHeader (u :: vs)) := by
  have hidle {u : String} (h : headerEdit on (some kind) u = .keep) :
      Idle (cellEdits on (some kind) inIf .sectionHeader (u :: vs)) := by
    simp only [cellEdits]
    exact idle_cons.2 ⟨h, idle_nil⟩
  simp only [cellEdits, applied, List.headD_cons, List.tail_cons, applied_nil]
  rcases headerEdit_cases on hv with h | ⟨u, h, hu, hsingular⟩
  · rw [h]
    exact ⟨v, rfl, hv, by simpa only [cellEdits] using hidle h⟩
  · have hkeep : headerEdit on (some kind) u = .keep := by
      have hnone (k : SectionKind) : StyleRules.pluralHeader? k u = none := by
        simp [StyleRules.pluralHeader?, hsingular]
      simp [headerEdit, hnone]
    rw [h]
    exact ⟨u, rfl, by rw [hu]; rfl, by simpa only [cellEdits] using hidle hkeep⟩

end

/-! ## Types that stay -/

/-- The type of a statement of a body with given texts of its data. -/
def cellsType (vs : List String) : StatementType := bodyType (vs.map (.create .argument))

/-- The type of a body statement is told by the texts of its cells. -/
theorem bodyType_eq_cellsType (data : List Token) :
    bodyType data = cellsType (data.map (·.value)) := by
  refine bodyType_congr ?_
  rw [List.map_map, List.map_map]
  exact List.map_congr_left fun _ _ => rfl

section
variable {v : String} {vs : List String}

/-- Behind an assignment only an inline `IF` makes a difference. -/
theorem cellsType_of_assigned (h : isAssignment v = true) : cellsType (v :: vs) =
    if (((v :: vs).dropWhile isAssignment).head?).getD "" = "IF" then .inlineIf
    else .keywordCall := by
  have hdrop (ws : List String) :
      ((ws.map (Token.create .argument)).drop ((ws.map (Token.create .argument)).takeWhile fun t =>
        isAssignment t.value).length).head?.map (·.value) = (ws.dropWhile isAssignment).head? := by
    induction ws with
    | nil => rfl
    | cons w ws ih =>
      rw [List.map_cons, List.takeWhile_cons, List.dropWhile_cons]
      cases hw : isAssignment w <;> simp [Token.create, hw, ← ih]
  have hassigned : (((v :: vs).map (Token.create .argument)).takeWhile fun t =>
      isAssignment t.value).isEmpty = false := by
    simp [Token.create, h]
  rw [cellsType, bodyType, hassigned, hdrop]
  rfl

/-- Without an assignment the first cell tells the type. -/
theorem cellsType_of_plain (h : isAssignment v = false) : cellsType (v :: vs) =
    if SettingName.isBracketed v then .blockSetting
    else match StatementType.ofMarker? v with
      | none => .keywordCall
      | some .ifHeader => if 2 < vs.length + 1 then .inlineIf else .ifHeader
      | some type => type := by
  have hassigned : (((v :: vs).map (Token.create .argument)).takeWhile fun t =>
      isAssignment t.value) = [] := List.takeWhile_cons_of_neg (by simp [Token.create, h])
  simp only [cellsType, bodyType, hassigned, List.isEmpty_nil, Bool.not_true, Bool.false_eq_true,
    if_false, List.length_map, List.length_cons]
  rfl

/-- Cells of which none has changed what it is for. -/
theorem dropWhile_of_forall₂ {vs us : List String}
    (h : List.Forall₂ (fun v u => isAssignment u = isAssignment v ∧ (u = "IF" ↔ v = "IF")) vs us) :
    (us.dropWhile isAssignment).head?.getD "" = "IF" ↔
      (vs.dropWhile isAssignment).head?.getD "" = "IF" := by
  induction h with
  | nil => exact .rfl
  | cons hcell _ ih =>
    rw [List.dropWhile_cons, List.dropWhile_cons, hcell.1]
    split
    · exact ih
    · exact hcell.2

end

/-- How a statement is read when its plan has been carried out: it is of the same type and asks for
nothing more, or it was a call and heads a branch now. -/
def Settles (on : String → Bool) (kind : Option SectionKind) (inIf : Bool)
    (old new : StatementType) (vs : List String) : Prop :=
  (new = old ∧ Idle (cellEdits on kind inIf old vs)) ∨
    (old = .keywordCall ∧ (new = .elseHeader ∨ new = .elseIfHeader))

section
variable (on : String → Bool) (kind : Option SectionKind) (inIf : Bool) (vs : List String)

/-- An inline `IF` with its edits made asks for no other. -/
theorem settled_inlineIf (h : cellsType vs = .inlineIf) :
    Settles on kind inIf .inlineIf (cellsType (applied (cellEdits on kind inIf .inlineIf vs) vs))
      (applied (cellEdits on kind inIf .inlineIf vs) vs) := by
  cases vs with
  | nil => exact absurd h (by decide)
  | cons v vs =>
    obtain ⟨hidle, hcells⟩ := applied_map_elseEdit on vs
    simp only [cellEdits, applied, List.headD_cons, List.tail_cons, Edit.respell,
      Option.toList_some, List.singleton_append]
    refine .inl ⟨?_, idle_cons.2 ⟨rfl, hidle⟩⟩
    cases hv : isAssignment v with
    | true =>
      rw [cellsType_of_assigned hv] at h ⊢
      rw [List.dropWhile_cons, if_pos hv] at h ⊢
      split at h
      · rename_i hif
        rw [if_pos ((dropWhile_of_forall₂ hcells).2 hif)]
      · cases h
    | false =>
      rw [cellsType_of_plain hv] at h ⊢
      rwa [← hcells.length_eq]

/-- Edits that keep leave the texts in front as they are. -/
theorem applied_keep_append (as ws : List String) (plan : List Edit) :
    applied (as.map (fun _ => Edit.keep) ++ plan) (as ++ ws) = as ++ applied plan ws := by
  induction as with
  | nil => rfl
  | cons a as ih =>
    rw [List.map_cons, List.cons_append, List.cons_append, applied, List.headD_cons,
      List.tail_cons, ih]
    rfl

/-- The edits of a call in an IF block. -/
theorem cellEdits_call (as ws : List String) (has : ∀ a ∈ as, isAssignment a = true)
    (hw : ∀ w ∈ ws.head?, isAssignment w = false) :
    cellEdits on kind true .keywordCall (as ++ ws) =
      as.map (fun _ => .keep) ++ (ws.head?.map (elseEdit on)).toList := by
  have hsplit : (as ++ ws).takeWhile isAssignment = as ∧
      (as ++ ws).dropWhile isAssignment = ws := by
    have hnone : ws.takeWhile isAssignment = [] ∧ ws.dropWhile isAssignment = ws := by
      cases ws with
      | nil => exact ⟨rfl, rfl⟩
      | cons w ws =>
        have := hw w rfl
        simp [this]
    rw [List.takeWhile_append_of_pos has, List.dropWhile_append_of_pos has, hnone.1, hnone.2,
      List.append_nil]
    exact ⟨rfl, rfl⟩
  simp only [cellEdits, if_true, hsplit]

/-- A call in an IF block whose cell behind the assignments becomes ELSE or ELSE IF. -/
theorem settled_of_capital {u : String} (hu : u ∈ capitalElse) (as ws : List String)
    (has : ∀ a ∈ as, isAssignment a = true) :
    Settles on kind true .keywordCall (cellsType (as ++ u :: ws)) (as ++ u :: ws) := by
  have hplain : isAssignment u = false := by
    rcases List.mem_pair.1 hu with rfl | rfl <;> decide
  cases as with
  | nil =>
    refine .inr ⟨rfl, ?_⟩
    rw [List.nil_append, cellsType_of_plain hplain]
    rcases List.mem_pair.1 hu with rfl | rfl
    · have hmarker : StatementType.ofMarker? "ELSE" = some .elseHeader := by decide
      rw [if_neg (by decide), hmarker]
      exact .inl rfl
    · have hmarker : StatementType.ofMarker? "ELSE IF" = some .elseIfHeader := by decide
      rw [if_neg (by decide), hmarker]
      exact .inr rfl
  | cons a as =>
    -- behind an assignment it is the name of a keyword still
    have hcall : cellsType (a :: as ++ u :: ws) = .keywordCall := by
      obtain ⟨ha, htail⟩ := List.forall_mem_cons.1 has
      have hne : u ≠ "IF" := by
        rintro rfl
        exact absurd hu (by decide)
      rw [List.cons_append, cellsType_of_assigned ha, List.dropWhile_cons, if_pos ha,
        List.dropWhile_append_of_pos htail, List.dropWhile_cons, hplain]
      simp [hne]
    have hplan := cellEdits_call on kind (a :: as) (u :: ws) has fun w hw => by
      obtain rfl := Option.some.inj hw
      exact hplain
    refine .inl ⟨hcall, ?_⟩
    rw [hplan, List.head?_cons, Option.map_some, elseEdit_of_capital on hu]
    exact idle_keep_append (idle_cons.2 ⟨rfl, idle_nil⟩)

/-- A keyword call with its edits made asks for no other. -/
theorem settled_call (h : cellsType vs = .keywordCall) :
    Settles on kind inIf .keywordCall
      (cellsType (applied (cellEdits on kind inIf .keywordCall vs) vs))
      (applied (cellEdits on kind inIf .keywordCall vs) vs) := by
  cases inIf with
  | false =>
    have hplan (us : List String) : cellEdits on kind false .keywordCall us = [] := by
      simp [cellEdits]
    rw [hplan, applied_nil]
    exact .inl ⟨h, (hplan vs).symm ▸ idle_nil⟩
  | true =>
    -- a call is cut in front of the cell that it is named by
    obtain ⟨as, ws, rfl, has, hw⟩ : ∃ as ws, vs = as ++ ws ∧ (∀ a ∈ as, isAssignment a = true) ∧
        ∀ w ∈ ws.head?, isAssignment w = false :=
      ⟨_, _, (List.takeWhile_append_dropWhile (p := isAssignment)).symm,
        fun a ha => List.all_eq_true.1 List.all_takeWhile a ha,
        fun w hw => by
          have hnot := List.head?_dropWhile_not isAssignment vs
          rwa [Option.mem_def.1 hw] at hnot⟩
    have hplan := cellEdits_call on kind as ws has hw
    rw [hplan, applied_keep_append]
    cases ws with
    | nil =>
      refine .inl ⟨h, ?_⟩
      rw [applied, hplan]
      exact idle_keep_append idle_nil
    | cons w ws =>
      rw [List.head?_cons, Option.map_some, Option.toList_some, applied, List.headD_cons,
        List.tail_cons, applied_nil]
      rcases elseEdit_cases on w with hedit | ⟨u, hu, hedit, -⟩
      · rw [hedit]
        refine .inl ⟨h, ?_⟩
        simp only [Edit.respell, Option.toList_some, List.singleton_append]
        rw [hplan, List.head?_cons, Option.map_some, hedit]
        exact idle_keep_append (idle_cons.2 ⟨rfl, idle_nil⟩)
      · rw [hedit]
        exact settled_of_capital on kind hu as ws has

/-- **A statement of a body settles** when its plan is carried out. -/
theorem settled_body :
    Settles on kind inIf (cellsType vs)
      (cellsType (applied (cellEdits on kind inIf (cellsType vs) vs) vs))
      (applied (cellEdits on kind inIf (cellsType vs) vs) vs) := by
  have hindented : (cellsType vs).isIndented = true := isIndented_bodyType _
  cases ht : cellsType vs
  case inlineIf => exact settled_inlineIf on kind inIf vs ht
  case keywordCall => exact settled_call on kind inIf vs ht
  case blockSetting =>
    refine .inl ⟨?_, settled_blockSetting on kind inIf vs⟩
    cases vs with
    | nil => exact absurd ht (by decide)
    | cons v vs =>
      simp only [cellEdits, applied, List.headD_cons, List.tail_cons, Edit.respell,
        Option.toList_some, List.singleton_append]
      cases hv : isAssignment v with
      | true =>
        rw [cellsType_of_assigned hv] at ht
        split at ht <;> cases ht
      | false =>
        rw [cellsType_of_plain hv] at ht ⊢
        split at ht
        · rename_i hb
          rw [if_pos hb]
        · split at ht
          · cases ht
          · split at ht <;> cases ht
          · rename_i hm
            rw [ht] at hm
            cases ofMarker?_eq_some hm
  case setting =>
    rw [ht] at hindented
    cases hindented
  case sectionHeader =>
    rw [ht] at hindented
    cases hindented
  all_goals
    simp only [cellEdits, applied_nil]
    exact .inl ⟨ht, by simpa only [cellEdits] using idle_nil⟩

/-- **Data settles** in every kind of section. -/
theorem settled_data {kind : SectionKind} {inIf : Bool} {data new : List Token}
    (htexts : new.map (·.value) = applied (cellEdits on (some kind) inIf (dataType kind data)
      (data.map (·.value))) (data.map (·.value)))
    (hname : new.head?.any (·.kind == .name) = data.head?.any (·.kind == .name)) :
    Settles on (some kind) inIf (dataType kind data) (dataType kind new) (new.map (·.value)) := by
  have hplain {t : StatementType} (hold : dataType kind data = t) (hnew : dataType kind new = t)
      (h : ∀ vs, cellEdits on (some kind) inIf t vs = []) :
      Settles on (some kind) inIf (dataType kind data) (dataType kind new)
        (new.map (·.value)) := by
    rw [hold, hnew]
    exact .inl ⟨rfl, (h _).symm ▸ idle_nil⟩
  have hbody (hold : dataType kind data = bodyType data)
      (hnew : dataType kind new = bodyType new) :
      Settles on (some kind) inIf (dataType kind data) (dataType kind new)
        (new.map (·.value)) := by
    rw [hold, bodyType_eq_cellsType] at htexts ⊢
    rw [hnew, bodyType_eq_cellsType new, htexts]
    exact settled_body on _ _ _
  cases kind with
  | settings =>
    rw [htexts]
    exact .inl ⟨rfl, settled_setting on _ _ _⟩
  | «variables» => exact @hplain .variable rfl rfl fun vs => by simp only [cellEdits]
  | comments => exact @hplain .comment rfl rfl fun vs => by simp only [cellEdits]
  | inherited => exact @hplain .comment rfl rfl fun vs => by simp only [cellEdits]
  | invalid => exact @hplain .comment rfl rfl fun vs => by simp only [cellEdits]
  | testCases =>
    by_cases hd : data.head?.any (·.kind == .name) = true
    · exact hplain (if_pos hd) (if_pos (hname.trans hd)) fun vs => by simp only [cellEdits]
    · exact hbody (if_neg hd) (if_neg (by rwa [hname]))
  | keywords =>
    by_cases hd : data.head?.any (·.kind == .name) = true
    · exact hplain (if_pos hd) (if_pos (hname.trans hd)) fun vs => by simp only [cellEdits]
    · exact hbody (if_neg hd) (if_neg (by rwa [hname]))

end

/-! ## What is written -/

/-- A text that stands for a cell when it is written for one, in a header or elsewhere. -/
structure Writable (header : Bool) (v : String) : Prop where
  cell : IsCellText v.toList
  plain : ∀ c ∈ v.toList, ¬ IsControl c
  not_dots : v.toList ≠ ['.', '.', '.']
  star : v.toList.head? = some '*' ↔ header = true

/-- A text that passes the check of a cell may be written in one. -/
theorem writable_of_check {header : Bool} {v : String}
    (h : ∃ c cs, v.toList = c :: cs ∧ Text.isGap c = false ∧ c ≠ '#' ∧ isTight (c :: cs) = true ∧
      (c :: cs).any isControlChar = false ∧ c :: cs ≠ ['.', '.', '.'] ∧
        (c = '*' ↔ header = true)) : Writable header v := by
  obtain ⟨c, cs, hv, hgap, hhash, htight, hplain, hdots, hstar⟩ := h
  refine ⟨?_, ?_, by rwa [hv], by simpa [hv] using hstar⟩
  · rw [hv]
    exact isCellText_cons.2 ⟨hgap, hhash, htight⟩
  · rw [hv]
    intro d hd hcontrol
    exact List.any_eq_false.1 hplain d hd (isControlChar_iff.2 hcontrol)

/-- A capital `ELSE` may be written in a cell. -/
theorem writable_capital {u : String} (h : u ∈ capitalElse) : Writable false u := by
  rcases List.mem_pair.1 h with rfl | rfl <;> exact writable_of_check ⟨_, _, rfl, by decide⟩

/-- The plural of a header can be written for it. -/
theorem writable_plural {kind : SectionKind} {v u : String}
    (hv : (SectionKind.ofHeader? v).getD .invalid = kind)
    (h : StyleRules.pluralHeader? kind v = some u) : Writable true u := by
  rw [StyleRules.pluralHeader?] at h
  split at h
  · rename_i hsingular
    have hlisted := isInherited_of_singular hsingular
    rw [hv] at hlisted
    split at h
    · obtain rfl := Option.some.inj h
      exact writable_of_check ⟨_, _, rfl, by decide⟩
    · cases kind <;> first
        | cases (show true = false from hlisted)
        | (obtain rfl := Option.some.inj h; exact writable_of_check ⟨_, _, rfl, by decide⟩)
        | cases h
  · cases h

/-- An edit that leaves a token as it is, or writes what stands for a cell: for certain if a
condition holds. -/
def Edit.Spells (sure : Prop) (header : Bool) (e : Edit) : Prop :=
  e = .keep ∨ ∃ code u, e = .write code u ∧ (sure → Writable header u)

/-- To keep a cell is to spell it rightly. -/
theorem Edit.Spells.keep {sure : Prop} {header : Bool} : Edit.Spells sure header .keep := .inl rfl

/-- The `ELSE` fix writes a cell. -/
theorem spells_elseEdit (sure : Prop) (on : String → Bool) (v : String) :
    (elseEdit on v).Spells sure false := by
  rcases elseEdit_cases on v with h | ⟨u, hu, h, -⟩
  · exact .inl h
  · exact .inr ⟨_, u, h, fun _ => writable_capital hu⟩

/-- The tag setting fix writes a cell. -/
theorem spells_suiteNameEdit (sure : Prop) (on : String → Bool) (v : String) :
    (suiteNameEdit on v).Spells sure false := by
  rcases suiteNameEdit_cases on v with h | ⟨h, -⟩
  · exact .inl h
  · exact .inr ⟨_, _, h, fun _ => writable_of_check ⟨_, _, rfl, by decide⟩⟩

/-- The kind of a section, if there is one, is that which a header opens. -/
def OpenedBy (kind : Option SectionKind) (v : String) : Prop :=
  ∀ k ∈ kind, (SectionKind.ofHeader? v).getD .invalid = k

/-- The header fix writes a header cell of the same kind. -/
theorem spells_headerEdit (on : String → Bool) (kind : Option SectionKind) (v : String) :
    (headerEdit on kind v).Spells (OpenedBy kind v) true := by
  rw [headerEdit]
  split
  · cases hp : (kind.filter (· != .invalid)).bind fun k => StyleRules.pluralHeader? k v with
    | none => exact .inl rfl
    | some p =>
      obtain ⟨k, hmem, hk⟩ := Option.bind_eq_some_iff.1 hp
      exact .inr ⟨_, p, rfl, fun hv => writable_plural (hv k (Option.filter_eq_some_iff.1 hmem).1) hk⟩
  · exact .inl rfl

section
variable {on : String → Bool} {kind : Option SectionKind} {inIf : Bool} {type : StatementType}
  {vs : List String} {sure : Prop}

/-- An argument is removed or spelled anew. -/
theorem argumentEdits_cases {holdsTags header : Bool} {e : Edit}
    (h : e ∈ argumentEdits on holdsTags vs) : e = .remove ∨ e.Spells sure header := by
  have htags (seen : List String) (he : e ∈ tagEdits seen vs) :
      e = .remove ∨ e.Spells sure header := by
    clear h
    induction vs generalizing seen with
    | nil => cases he
    | cons v vs ih =>
      rw [tagEdits] at he
      split at he
      · rcases List.mem_cons.1 he with rfl | he
        · exact .inl rfl
        · exact ih _ he
      · rcases List.mem_cons.1 he with rfl | he
        · exact .inr .keep
        · exact ih _ he
  rw [argumentEdits] at h
  split at h
  · exact htags [] h
  · cases h

/-- **What a plan may ask for:** data goes, but not the first, or is written as what stands for a
cell; in a header if the section is that which it opens. -/
theorem cellEdits_spec (hsure : sure → type = .sectionHeader → OpenedBy kind (vs.headD "")) :
    (∀ e ∈ (cellEdits on kind inIf type vs).head?, e.Spells sure (type == .sectionHeader)) ∧
      ∀ e ∈ cellEdits on kind inIf type vs,
        e = .remove ∨ e.Spells sure (type == .sectionHeader) := by
  have hcons {e : Edit} {es : List Edit} {header : Bool} (he : e.Spells sure header)
      (hes : ∀ d ∈ es, d = .remove ∨ d.Spells sure header) :
      (∀ d ∈ (e :: es).head?, d.Spells sure header) ∧
        ∀ d ∈ e :: es, d = .remove ∨ d.Spells sure header := by
    refine ⟨fun d hd => ?_, List.forall_mem_cons.2 ⟨.inr he, hes⟩⟩
    obtain rfl := Option.some.inj hd
    exact he
  unfold cellEdits
  split
  · exact hcons (spells_suiteNameEdit _ _ _) fun e he => argumentEdits_cases he
  · exact hcons .keep fun e he => argumentEdits_cases he
  · refine hcons .keep fun e he => ?_
    obtain ⟨v, -, rfl⟩ := List.mem_map.1 he
    exact .inr (spells_elseEdit _ on v)
  · split
    · have hall : ∀ e ∈ (vs.takeWhile isAssignment).map (fun _ => Edit.keep) ++
          ((vs.dropWhile isAssignment).head?.map (elseEdit on)).toList, e.Spells sure false := by
        refine List.forall_mem_append.2 ⟨fun e he => ?_, fun e he => ?_⟩
        · obtain ⟨-, -, rfl⟩ := List.mem_map.1 he
          exact .keep
        · obtain ⟨v, -, rfl⟩ := Option.map_eq_some_iff.1 (Option.mem_toList.1 he)
          exact spells_elseEdit _ on v
      exact ⟨fun e he => hall e (List.mem_of_mem_head? he), fun e he => .inr (hall e he)⟩
    · simp
  · rename_i v _
    refine hcons ?_ (by simp)
    exact (spells_headerEdit on kind v).imp_right fun ⟨code, u, he, hu⟩ =>
      ⟨code, u, he, fun h => hu (hsure h rfl)⟩
  · simp

/-- What a plan writes can be written, in a header if the section is that which it opens. -/
theorem writable_of_mem_cellEdits {code u : String}
    (hkind : type = .sectionHeader → OpenedBy kind (vs.headD ""))
    (h : .write code u ∈ cellEdits on kind inIf type vs) : Writable (type == .sectionHeader) u := by
  rcases (cellEdits_spec fun _ : True => hkind).2 _ h with h | h | ⟨_, _, h, hu⟩
  · cases h
  · cases h
  · cases h
    exact hu trivial

/-- A plan is for data only. -/
theorem trim_notMem_cellEdits : .trim ∉ cellEdits on kind inIf type vs := by
  intro h
  rcases (cellEdits_spec False.elim).2 _ h with h | h | ⟨_, _, h, -⟩ <;> cases h

/-- The first cell of a statement does not go. -/
theorem head?_cellEdits_ne_remove : (cellEdits on kind inIf type vs).head? ≠ some .remove := by
  intro h
  rcases (cellEdits_spec False.elim).1 _ h with h | ⟨_, _, h, -⟩ <;> cases h

end

end RobotSuite
