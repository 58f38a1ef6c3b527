/-
# Settings in order stay

Whether settings are in order shows in their names, in the comments among them and in the empty lines
between their groups (`keyView`).  The pass leaves the settings of a section in order
(`isLaid_apply`), and what the passes behind it change is something else.  Where it shows in a text that
settings are in order, the pass leaves them as they are (`view_of_laid`).
-/

import RobotSuite.Proofs.Format.EmptyLines.Idempotence
import RobotSuite.Proofs.Format.OrderSettings.Pass

namespace RobotSuite

/-- What a walk meets in a section is met on the walk through the file. -/
theorem File.mem_meetings {f : File} {front back : List Section} {s : Section}
    (hcut : f.sections = front ++ s :: back) :
    ∀ m ∈ RobotSuite.meetings (f.scopeBehind front) s.steps, m ∈ f.meetings := by
  intro m hm
  rw [File.meetings, File.steps, meetings_enter, hcut, List.flatMap_append, List.flatMap_cons,
    meetings_append, meetings_append, meetings_append]
  exact List.mem_append_left _ (List.mem_append_right _ (List.mem_append_left _ hm))

namespace OrderSettings

open EmptyLines (leadOf blocksOf leadOf_view inner IsTrim isTrim_map IsUnmarked spacedLead finished
  finished_append)

/-! ## What the order goes by -/

/-- What the order goes by: the type of a statement and the name of a setting, and of an empty line
what shows. -/
def key (gaps : Bool) (s : Statement) : Statement :=
  if s.type = .emptyLine then s.gist gaps
  else ⟨s.type, .synthetic, s.suiteSetting?.toList.map (Token.create .argument), false, none, none⟩

/-- The keys of the statements of each section, by whether gaps of empty lines show. -/
def keyView (gaps : SectionKind → Bool) : View := fun kind => key (gaps kind)

section
variable {gaps : Bool} {s r : Statement}

/-- The key of a statement keeps its type. -/
@[simp] theorem key_type (gaps : Bool) (s : Statement) : (key gaps s).type = s.type := by
  rw [key]
  split
  · exact s.gist_type gaps
  · rfl

/-- Statements of one type and one suite setting have the same key. -/
theorem key_congr (ht : r.type = s.type) (hs : s.type ≠ .emptyLine)
    (hsetting : r.suiteSetting? = s.suiteSetting?) : key gaps r = key gaps s := by
  rw [key, key, ht, hsetting, if_neg hs, if_neg hs]

/-- The key tells the suite setting. -/
theorem suiteSetting?_of_key (h : key gaps r = key gaps s) :
    r.suiteSetting? = s.suiteSetting? := by
  have htype : r.type = s.type := by simpa using congrArg Statement.type h
  by_cases hs : s.type = .emptyLine
  · rw [Statement.suiteSetting?, Statement.suiteSetting?, htype, if_neg (by simp [hs]),
      if_neg (by simp [hs])]
  · rw [key, key, if_neg hs, if_neg (htype ▸ hs)] at h
    have htokens : r.suiteSetting?.toList.map (Token.create .argument) =
        s.suiteSetting?.toList.map (Token.create .argument) := congrArg Statement.tokens h
    have hvalues := congrArg (fun ts => (ts.map (·.value)).head?) htokens
    simpa [Function.comp_def, Token.create] using hvalues

/-- The order goes by nothing but keys. -/
theorem ordersAlike_key : OrdersAlike fun s r => key gaps r = key gaps s where
  type h := by simpa using congrArg Statement.type h
  setting := suiteSetting?_of_key

/-- What the order goes by is part of the gist of a statement. -/
theorem key_of_gist (h : s.gist gaps = r.gist gaps) : key gaps r = key gaps s := by
  have hecho := Statement.echoes_of_gist h
  by_cases hs : s.type = .emptyLine
  · rw [key, key, hecho.type, if_pos hs, if_pos hs, h]
  · refine key_congr hecho.type hs ?_
    rw [Statement.suiteSetting?, Statement.suiteSetting?, hecho.type, hecho.nameText]

end

/-! ## Sections in order -/

/-- Whether a section shows settings in order, if it holds settings. -/
def IsLaid (order : List String) (newline : String) (gaps : SectionKind → Bool) (s : Section) :
    Prop :=
  s.kind = .settings → ∃ free groups rest, IsOrder (allGroups order) free groups rest ∧
    (leadOf s).map (key (gaps s.kind)) = (laidOut newline free groups rest).map (key (gaps s.kind))

section
variable {order : List String} {newline : String} {gaps : SectionKind → Bool} {s t : Section}
  {f g : File} {setup : PassSetup}

/-- Whether a section is laid in order is read off the keys of its statements. -/
theorem isLaid_of_view (h : s.view (keyView gaps) = t.view (keyView gaps))
    (hs : IsLaid order newline gaps s) : IsLaid order newline gaps t := by
  intro hk
  have hkind : s.kind = t.kind := (congrArg Section.kind h :)
  obtain ⟨free, groups, rest, horder, hlaid⟩ := hs (hkind.trans hk)
  have hlead := congrArg leadOf h
  rw [leadOf_view, leadOf_view] at hlead
  exact ⟨free, groups, rest, horder, by rw [← hkind, ← hlaid]; exact hkind ▸ hlead.symm⟩

/-- Order that shows in a file shows in each file with the same keys. -/
theorem forall_isLaid_of_view (h : f.view (keyView gaps) = g.view (keyView gaps))
    (hf : ∀ s ∈ f.sections, IsLaid order newline gaps s) :
    ∀ t ∈ g.sections, IsLaid order newline gaps t := by
  intro t ht
  have hsections : f.sections.map (Section.view (keyView gaps)) =
      g.sections.map (Section.view (keyView gaps)) := congrArg File.sections h
  obtain ⟨s, hs, hst⟩ := List.mem_map.1 (hsections ▸ List.mem_map_of_mem ht)
  exact isLaid_of_view hst (hf s hs)

/-- Keys show in gists. -/
theorem view_key_of_gists (h : f.view (gistView gaps) = g.view (gistView gaps)) :
    f.view (keyView gaps) = g.view (keyView gaps) :=
  File.view_of_factors (fun kind s r (hsame : s.gist (gaps kind) = r.gist (gaps kind)) =>
    (key_of_gist hsame).symm) h

/-- **Behind the pass settings are in order.** -/
theorem isLaid_apply (hn : setup.newline = "\n" ∨ setup.newline = "\r\n")
    (ho : (allGroups (setup.params.texts "groupOrder" defaultOrder)).Nodup)
    (hs : ∀ s ∈ f.sections, s.IsClear) (hsilent : f.IsSilent) :
    ∀ s ∈ (pass.apply setup f).tree.sections,
      IsLaid (setup.params.texts "groupOrder" defaultOrder) setup.newline gaps s := by
  obtain ⟨-, new, htree, hlength, hnew⟩ := tree_pass hn ho hs
  rw [htree]
  intro r hr hk
  obtain ⟨i, hi, rfl⟩ := List.mem_iff_getElem.1 hr
  have hold : i < f.sections.length := hlength ▸ hi
  obtain ⟨hcut, hfront⟩ := exists_cut hold
  have hleft := hnew _ _ _ hcut
  rw [hfront, List.getElem?_eq_getElem hi, Option.some_inj] at hleft
  have hkind : (f.sections[i]).kind = .settings := by
    rcases left_cases setup f (f.sections.take i) f.sections[i] with h | ⟨h, -⟩
    · rwa [hleft, h] at hk
    · exact h
  have happlies : applies (f.scopeBehind (f.sections.take i)) f.sections[i] = true := by
    refine applies_of_meetings (hs _ (List.getElem_mem hold)).sound hkind fun m hm => ?_
    obtain ⟨hdirective, hcalm⟩ := hsilent.meetings m (File.mem_meetings hcut m hm)
    exact hcalm.disables hdirective _
  have hne : setup.newline ≠ "" := by rcases hn with h | h <;> simp [h]
  obtain ⟨free, groups, rest, heq, horder⟩ := exists_isOrder hne
    (setup.params.texts "groupOrder" defaultOrder) (leadOf f.sections[i])
  have hlead : leadOf new[i] = laidOut setup.newline free groups rest := by
    rw [hleft, left, if_pos happlies, ← heq]
    exact filterMap_statement?_map _
  exact ⟨free, groups, rest, horder, by rw [hlead]⟩

end

/-! ## Passes that change something else -/

section
variable {setup : PassSetup} {f : File}

/-- Rewriting the headers keeps every key. -/
theorem view_headerPass (gaps : SectionKind → Bool) (hv : setup.IsValid) (hf : f.IsSound) :
    (Spelling.headerPass.apply setup f).tree.view (keyView gaps) = f.view (keyView gaps) := by
  refine Pass.view_apply_of_keeps Spelling.keepsSound_headerPass hv hf fun {_ sc s _} hput _ _ => ?_
  obtain ⟨v, hheader, -, rfl⟩ := Spelling.respell_eq_some hput
  have htype : s.type = .sectionHeader := by
    by_contra ht
    rw [Spelling.header?_eq_none ht] at hheader
    cases hheader
  have hnone {r : Statement} (hr : r.type = .sectionHeader) : r.suiteSetting? = none := by
    rw [Statement.suiteSetting?, if_neg (by simp [hr])]
  exact key_congr rfl (by simp [htype]) ((hnone (r := s.withTokens _) htype).trans (hnone htype).symm)

/-- Rewriting the setting names keeps every key. -/
theorem view_settingPass (gaps : SectionKind → Bool) (hv : setup.IsValid) (hf : f.IsSound) :
    (Spelling.settingPass.apply setup f).tree.view (keyView gaps) = f.view (keyView gaps) := by
  refine Pass.view_apply_of_keeps Spelling.keepsSound_settingPass hv hf fun {_ _ s _} hput _ hs => ?_
  obtain ⟨v, hname, -, rfl⟩ := Spelling.respell_eq_some hput
  have htype : s.type = .setting ∨ s.type = .blockSetting :=
    (Spelling.setting?_cases hname).imp And.left And.left
  rcases hs with hs | hs
  · exact key_congr rfl (by rcases htype with ht | ht <;> simp [ht])
      (Spelling.settings_respelled hs hname).1
  · rcases htype with ht | ht <;> cases hs.type.symm.trans ht

/-- Rewriting the tags keeps every key. -/
theorem view_tagPass (gaps : SectionKind → Bool) (hv : setup.IsValid) (hf : f.IsSound) :
    (UniqueTags.pass.apply setup f).tree.view (keyView gaps) = f.view (keyView gaps) := by
  refine Pass.view_apply_of_keeps UniqueTags.keepsSound_pass hv hf fun {_ _ s _} hput _ hs => ?_
  have htype := UniqueTags.type_of_unify hput
  rcases hs with hs | hs
  · obtain ⟨hunified, hsuite, -⟩ := UniqueTags.isUnified_of_unify hs hput
    exact key_congr hunified.type (by rcases htype with ht | ht <;> simp [ht]) hsuite
  · rcases htype with ht | ht <;> cases hs.type.symm.trans ht

end

/-! ## Empty lines around what is in order -/

section
variable {newline : String} {parts : List (List Statement)} {a b : List Statement}

/-- Empty lines stand between parts only, one between two. -/
theorem isTrim_joinParts (h : ∀ p ∈ parts, ∀ s ∈ p, isBlank s = false) :
    IsTrim Statement.isEmptyLine (joinParts newline parts) := by
  induction parts with
  | nil => exact ⟨by simp, by simp, rfl⟩
  | cons part parts ih =>
    have hlast : ∀ s ∈ (joinParts newline (part :: parts)).getLast?, isBlank s = false :=
      getLast?_joinParts h
    rw [List.forall_mem_cons] at h
    by_cases hpart : part = []
    · rw [hpart, joinParts_cons_nil]
      exact ih h.2
    · rw [joinParts_cons hpart] at hlast ⊢
      split at hlast
      · rename_i hnil
        rw [if_pos hnil]
        exact ⟨fun s hs => h.1 s (List.mem_of_head? hs), hlast, squeeze_of_none h.1 false⟩
      · rename_i hne
        rw [if_neg hne]
        refine ⟨fun s hs => h.1 s ?_, hlast, ?_⟩
        · rw [List.head?_append_of_ne_nil _ hpart] at hs
          exact List.mem_of_head? hs
        · have hpart : ∀ s ∈ part, s.isEmptyLine = false := h.1
          rw [squeeze_none_append hpart]
          obtain ⟨s, rest, hjoin⟩ := List.exists_cons_of_ne_nil hne
          have hs : s.isEmptyLine = false := (ih h.2).head s (by rw [hjoin]; rfl)
          have hrest := (ih h.2).squeezed
          rw [hjoin, squeeze_cons, hs, Bool.false_and, if_neg Bool.false_ne_true] at hrest
          have hline : (Statement.emptyLine newline).isEmptyLine = true := rfl
          rw [hjoin, squeeze_cons, hline, Bool.and_false, if_neg Bool.false_ne_true, squeeze_cons, hs,
            Bool.false_and, if_neg Bool.false_ne_true, hrest]

/-- Empty lines stand between parts as they have been put there. -/
theorem eq_of_mem_joinParts (h : ∀ p ∈ parts, ∀ s ∈ p, isBlank s = false) :
    ∀ s ∈ joinParts newline parts, s.type = .emptyLine → s = .emptyLine newline := by
  induction parts with
  | nil => simp
  | cons part parts ih =>
    rw [List.forall_mem_cons] at h
    have hpart : ∀ s ∈ part, s.type = .emptyLine → s = .emptyLine newline := fun s hs he =>
      absurd he (of_decide_eq_false (h.1 s hs))
    by_cases hnil : part = []
    · rw [hnil, joinParts_cons_nil]
      exact ih h.2
    · rw [joinParts_cons hnil]
      split
      · exact hpart
      · exact List.forall_mem_append.2 ⟨hpart, List.forall_mem_cons.2 ⟨fun _ => rfl, ih h.2⟩⟩

end

section
variable {newline : String} {gaps : Bool} {size : Nat} {s : Statement} {ss : List Statement}

/-- A line break at the end of a statement changes nothing that the order goes by. -/
theorem key_ended (hn : newline ≠ "") (hs : s.flaws = [])
    (h : s.type = .emptyLine → key gaps s = key gaps (.emptyLine newline)) (n : Nat) :
    key gaps (EmptyLines.ended newline size n s) = key gaps s := by
  by_cases he : s.type = .emptyLine
  · have hgist : s.gist gaps = (Statement.emptyLine newline).gist gaps := by
      have hkey := h he
      have hline : (Statement.emptyLine newline).type = .emptyLine := rfl
      rwa [key, key, if_pos he, if_pos hline] at hkey
    have hends := EmptyLines.isUnterminated_of_gist hs (flaws_emptyLine newline) hgist
    rw [isUnterminated_emptyLine hn] at hends
    rw [EmptyLines.ended, EmptyLines.terminate_of_isUnterminated hs hends, ite_self]
  · exact EmptyLines.ended_of (P := fun r => key gaps r = key gaps s) rfl
      (key_congr (terminate_type newline s) he (terminate_suiteSetting? newline s))

/-- Closing the section keeps the keys of its statements. -/
theorem map_key_finished (hn : newline ≠ "") (hs : ∀ s ∈ ss, s.flaws = [])
    (h : ∀ s ∈ ss, s.type = .emptyLine → key gaps s = key gaps (.emptyLine newline)) (n : Nat) :
    (finished newline size n ss).map (key gaps) = ss.map (key gaps) := by
  induction ss generalizing n with
  | nil => rfl
  | cons s ss ih =>
    rw [List.forall_mem_cons] at hs h
    rw [finished, List.map_cons, List.map_cons, key_ended hn hs.1 h.1, ih hs.2 h.2]

/-- Statements in order are so behind other empty lines. -/
theorem laid_spacedLead {names : List String} {free rest : List Statement}
    {groups : List (List SettingUnit)} (hn : newline ≠ "") (hs : ∀ s ∈ ss, s.flaws = [])
    (horder : IsOrder names free groups rest)
    (h : ss.map (key gaps) = (laidOut newline free groups rest).map (key gaps))
    (size count n : Nat) : ∃ rest, IsOrder names free groups rest ∧
      (spacedLead newline count true (finished newline size n ss)).map (key gaps) =
        (laidOut newline free groups rest).map (key gaps) := by
  rw [laidOut, List.map_append] at h
  obtain ⟨front, back, rfl, hfront, hback⟩ := List.map_eq_append_iff.1 h
  have htrim : IsTrim Statement.isEmptyLine (joinParts newline _) :=
    isTrim_joinParts horder.isBlank_eq_false
  have hlines : ∀ s ∈ front, s.type = .emptyLine → key gaps s = key gaps (.emptyLine newline) := by
    intro s hs he
    obtain ⟨r, hr, hrs⟩ := List.mem_map.1 (hfront ▸ List.mem_map_of_mem hs)
    have htype := congrArg Statement.type hrs
    rw [key_type, key_type, he] at htype
    rw [← hrs, eq_of_mem_joinParts horder.isBlank_eq_false r hr htype]
  have hended : (finished newline size n front).map (key gaps) = _ :=
    (map_key_finished hn (fun s hmem => hs s (List.mem_append_left _ hmem)) hlines n).trans hfront
  -- what stands in front of the empty lines has the types of what is laid out
  have htrimmed : IsTrim Statement.isEmptyLine (finished newline size n front) := by
    have hkeys : Statement.isEmptyLine ∘ key gaps = Statement.isEmptyLine := by
      funext s
      rw [Function.comp_apply, Statement.isEmptyLine, Statement.isEmptyLine, key_type]
    rw [← hkeys] at htrim ⊢
    rw [← isTrim_map] at htrim ⊢
    rwa [hended]
  have hempty : ∀ s ∈ finished newline size (n + front.length) back, s.isEmptyLine = true := by
    refine EmptyLines.forall_finished (fun n s hs => ?_) _
    obtain ⟨r, hr, hrs⟩ := List.mem_map.1 (hback ▸ List.mem_map_of_mem hs)
    have htype := congrArg Statement.type hrs
    rw [key_type, key_type] at htype
    rw [EmptyLines.ended_isEmptyLine, Statement.isEmptyLine, ← htype]
    exact horder.rest r hr
  refine ⟨List.replicate count (.emptyLine newline), ⟨horder.free, horder.groups, fun s hs => ?_⟩, ?_⟩
  · rw [List.eq_of_mem_replicate hs]
    rfl
  · rw [spacedLead, if_pos rfl, finished_append, htrimmed.inner_append hempty, htrimmed.squeezed,
      laidOut, List.map_append, List.map_append, hended]

end

section
variable {setup : PassSetup} {f : File} {order : List String} {gaps : SectionKind → Bool}

/-- **Empty lines come and go behind what is in order.** -/
theorem isLaid_spaced (hf : EmptyLines.IsSpaceable f) (hn : setup.newline ≠ "")
    (hfault : (EmptyLines.pass.apply setup f).fault = none)
    (hnew : (EmptyLines.pass.apply setup f).tree.IsSound)
    (h : ∀ s ∈ f.sections, IsLaid order setup.newline gaps s) :
    ∀ r ∈ (EmptyLines.pass.apply setup f).tree.sections, IsLaid order setup.newline gaps r := by
  intro r hr hk
  obtain ⟨s, hs, hkind, count, m, hlead⟩ := (hf.run hn (.inl hfault)).1.leads r hr
  obtain ⟨free, groups, rest, horder, hlaid⟩ := h s hs (hkind ▸ hk)
  have hblocks : blocksOf r = [] := by
    rw [blocksOf, body_of_sound (hnew.sections r hr) hk, List.filterMap_map]
    exact List.filterMap_eq_nil_iff.2 fun _ _ => rfl
  have hflaws : ∀ q ∈ leadOf s, q.flaws = [] := fun q hq =>
    hf.flaws q (List.mem_flatMap.2 ⟨s, hs, EmptyLines.mem_statements_of_parts (.inl hq)⟩)
  rw [hkind, hlead, hblocks]
  obtain ⟨rest, horder, hlaid⟩ := laid_spacedLead hn hflaws horder hlaid f.statements.length count m
  exact ⟨free, groups, rest, horder, hlaid⟩

end

/-! ## Order that shows -/

section
variable {order : List String} {newline : String} {gaps : SectionKind → Bool} {s : Section}

/-- What stands in order ends with line breaks if the statements do that show it. -/
theorem terminateFront_of_sameParts {R : Statement → Statement → Prop} {a b : List Statement}
    (hn : newline ≠ "") (h : SameParts R newline a b) (hf : ∀ s ∈ b, s.flaws = [])
    (hs : separated b) : terminateFront newline a = a := by
  induction h with
  | nil => rfl
  | @cons s r a b hsame hrest ih =>
    rw [List.forall_mem_cons] at hf
    cases hrest with
    | nil => rfl
    | @cons q p a b hqp hrest =>
      have hcons : terminateFront newline (s :: q :: a) =
          s.terminate newline :: terminateFront newline (q :: a) := rfl
      rw [separated, List.dropLast_cons_cons, List.forall_mem_cons] at hs
      rw [hcons, ih hf.2 hs.2]
      rcases hsame with rfl | ⟨rfl, -⟩
      · rw [EmptyLines.terminate_of_isUnterminated hf.1 hs.1]
      · rw [terminate_emptyLine hn]

/-- Statements that show order are seen as they were when they are put in order. -/
theorem shown_arrange {gaps : Bool} {free rest ss : List Statement} {groups : List (List SettingUnit)}
    (hn : newline ≠ "") (ho : (allGroups order).Nodup) (hf : ∀ s ∈ ss, s.flaws = [])
    (hs : separated ss) (hm : isMarked ss) (hmarks : ∀ s ∈ ss, IsUnmarked s)
    (horder : IsOrder (allGroups order) free groups rest)
    (h : ss.map (key gaps) = (laidOut newline free groups rest).map (key gaps)) :
    (arrange order newline ss).map (Statement.shown gaps) = ss.map (Statement.shown gaps) := by
  have hkeys : List.Forall₂ (fun s r => key gaps r = key gaps s)
      (laidOut newline free groups rest) ss := by
    rw [← List.forall₂_eq_eq_eq, List.forall₂_map_left_iff, List.forall₂_map_right_iff] at h
    exact h.flip
  obtain ⟨free, groups, front, rest, rfl, horder, hsame⟩ := horder.related ordersAlike_key hkeys
  have hparts : SameParts (fun s r => key gaps r = key gaps s) newline
      (laidOut newline free groups rest) (front ++ rest) :=
    List.rel_append hsame (sameParts_refl rest)
  rw [horder.arrange_eq ordersAlike_key ho hsame hm, terminateFront_of_sameParts hn hparts hf hs]
  -- only empty lines between parts may be others, and of these the keys are what shows
  rw [← List.forall₂_eq_eq_eq, List.forall₂_map_left_iff, List.forall₂_map_right_iff]
  refine ((List.forall₂_and_left _ _).2 ⟨hmarks, hparts.flip⟩).flip.imp fun s r hsr => ?_
  obtain ⟨hr, rfl | ⟨rfl, hkey⟩⟩ := hsr
  · rfl
  · have hline : (Statement.emptyLine newline).type = .emptyLine := rfl
    have htype : r.type = .emptyLine := by
      have htypes := congrArg Statement.type hkey
      rwa [key_type, key_type] at htypes
    rw [key, key, if_pos htype, if_pos hline] at hkey
    exact EmptyLines.shown_of_gist (EmptyLines.isUnmarked_emptyLine newline) hr hline htype hkey.symm

/-- **A section that shows order is seen as it was** when it is put in order. -/
theorem view_arranged (hn : newline ≠ "") (ho : (allGroups order).Nodup) (hs : s.IsClear)
    (hk : s.kind = .settings) (hm : isMarked (leadOf s)) (hmarks : ∀ r ∈ leadOf s, IsUnmarked r)
    (h : IsLaid order newline gaps s) :
    (arranged order newline s).view (gapView gaps) = s.view (gapView gaps) := by
  obtain ⟨free, groups, rest, horder, hlaid⟩ := h hk
  have hbody : s.body = (leadOf s).map .statement := body_of_sound hs.sound hk
  have hflaws : ∀ r ∈ leadOf s, r.flaws = [] := fun r hr =>
    (hs.clear r (EmptyLines.mem_statements_of_parts (.inl hr))).flaws
  have hseparated : separated (leadOf s) := by
    have hall := hs.separated
    rw [Section.statements, hbody, itemsStatements_map_statement] at hall
    exact hall.right
  have hshown := shown_arrange hn ho hflaws hseparated hm hmarks horder hlaid
  have hview (ss : List Statement) : (ss.map SectionItem.statement).map
      (SectionItem.view (gapView gaps s.kind)) = (ss.map (gapView gaps s.kind)).map .statement := by
    rw [List.map_map, List.map_map]
    rfl
  have hitems : ((arrange order newline (leadOf s)).map SectionItem.statement).map
      (SectionItem.view (gapView gaps s.kind)) = s.body.map (SectionItem.view (gapView gaps s.kind)) := by
    rw [hbody, hview, hview]
    exact congrArg (List.map SectionItem.statement) hshown
  exact congrArg (Section.mk s.kind .synthetic (s.header.map (gapView gaps s.kind)) · none) hitems

end

section
variable {text : String} {setup : PassSetup} {gaps : SectionKind → Bool}

/-- **Order stays.**  The pass leaves a text as it is that shows settings in order. -/
theorem view_of_laid (hp : (parse text).errors = []) (hi : (parse text).issues = [])
    (hn : setup.newline = "\n" ∨ setup.newline = "\r\n")
    (ho : (allGroups (setup.params.texts "groupOrder" defaultOrder)).Nodup)
    (h : ∀ s ∈ (parse text).sections,
      IsLaid (setup.params.texts "groupOrder" defaultOrder) setup.newline gaps s) :
    (pass.apply setup (parse text)).tree.view (gapView gaps) = (parse text).view (gapView gaps) := by
  have hne : setup.newline ≠ "" := by rcases hn with h | h <;> simp [h]
  have hclear := clear_sections hp hi
  obtain ⟨-, new, htree, hlength, hnew⟩ := tree_pass hn ho hclear
  rw [htree]
  refine congrArg (fun ss => ({ (parse text).view (gapView gaps) with sections := ss } : File)) ?_
  refine List.ext_getElem (by simp [hlength]) fun i hi hi' => ?_
  rw [List.length_map] at hi hi'
  obtain ⟨hcut, hfront⟩ := exists_cut hi'
  have hleft := hnew _ _ _ hcut
  rw [hfront, List.getElem?_eq_getElem hi, Option.some_inj] at hleft
  rw [List.getElem_map, List.getElem_map, hleft]
  have hmem := List.getElem_mem hi'
  rcases left_cases setup (parse text) ((parse text).sections.take i) (parse text).sections[i] with
    hsame | ⟨hk, harranged⟩
  · rw [hsame]
  · obtain ⟨hmarked, hplain⟩ := settings_of_parse hp hmem hk
    rw [harranged]
    exact view_arranged hne ho (hclear _ hmem) hk hmarked
      (fun r hr he => ⟨(hplain r hr).owned (by simp [he]), (hplain r hr).defect, (hplain r hr).label⟩)
      (h _ hmem)

end

end OrderSettings
end RobotSuite
