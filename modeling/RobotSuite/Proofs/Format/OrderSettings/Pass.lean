/-
# Ordered settings

The pass leaves a section of settings in order unless something switches it off there (`applies`);
all other sections stay as they are (`tree_pass`).  A section with a header makes no difference to
the directives that hold behind it, so the pass does the same where it runs again on what it has
left (`tree_pass_again`).  The text of the file is read as the file, but for places, and the pass
looks at no places: so it leaves that text alone (`settings_ordered`).
-/

import RobotSuite.Proofs.Format.GapFreeMoves
import RobotSuite.Proofs.Format.OrderSettings.Order

namespace RobotSuite

/-- Scopes in which a walk can tell the same stay so along the same steps. -/
theorem Scope.Like.behind {sc sc' : Scope} (h : sc.Like sc') (steps : List Step) :
    (sc.behind steps).Like (sc'.behind steps) := by
  induction steps generalizing sc sc' with
  | nil => exact h
  | cons step steps ih =>
    cases step with
    | enter c => exact ih (h.enter rfl rfl)
    | meet s => exact ih (h.note rfl rfl)
    | leave c => exact ih h.leave

/-- The scope behind the first sections of a file. -/
def File.scopeBehind (f : File) (front : List Section) : Scope :=
  (({} : Scope).enter (.file f)).behind (front.flatMap Section.steps)

namespace OrderSettings

/-- Whether a section holds settings, and nothing in it switches the pass off. -/
def applies (sc : Scope) (s : Section) : Bool :=
  s.kind = .settings && !(sc.insideOf s).frames.disables info.name && !s.disables info.name &&
    !(s.body.filterMap SectionItem.statement?).any ((sc.insideOf s).disables info.name) &&
    !s.body.any (·.isBlock)

/-- A section with its statements in order. -/
def arranged (order : List String) (newline : String) (s : Section) : Section :=
  { s with
    body := (arrange order newline (s.body.filterMap SectionItem.statement?)).map .statement }

section
variable {order : List String} {newline : String} {sc sc' : Scope} {s r : Section}
  {setup : PassSetup} {f : File}

/-- The statements of a list of plain items are the list. -/
theorem filterMap_statement?_map (ss : List Statement) :
    (ss.map SectionItem.statement).filterMap SectionItem.statement? = ss := by
  rw [List.filterMap_map]
  exact List.filterMap_some

/-! ## One section -/

/-- A list without repetition has none to erase. -/
theorem eraseDups_of_nodup {α : Type} [DecidableEq α] {l : List α} (h : l.Nodup) :
    l.eraseDups = l := by
  induction l using List.reverseRecOn with
  | nil => rfl
  | append_singleton l x ih =>
    obtain ⟨hl, -, hx⟩ := List.nodup_append.1 h
    have hnew : x ∉ l := fun hmem => hx x hmem x List.mem_cons_self rfl
    rw [MergeSections.eraseDups_concat, if_neg hnew, ih hl]

/-- No statement is labelled anew when no group is named twice. -/
theorem labelRepeated_of_nodup (ho : (allGroups order).Nodup) (first : Nat) (ss : List Statement) :
    labelRepeated order first ss = ss := by
  rw [labelRepeated, eraseDups_of_nodup ho, if_pos rfl]

/-- Leaving a Settings section arranges it, and leaving another does nothing. -/
theorem leave_eq {first : Nat} {place : Place} (hp : place.scope = sc.insideOf s)
    (ho : (allGroups (setup.params.texts "groupOrder" defaultOrder)).Nodup) :
    leave setup first place s.header s.body = if applies sc s then
      some (arranged (setup.params.texts "groupOrder" defaultOrder) setup.newline s).body
    else none := by
  rw [leave]
  dsimp only
  rw [hp, Scope.section?_insideOf, Option.any_some, labelRepeated_of_nodup ho]
  rfl

/-- Alike scopes decide alike. -/
theorem applies_like (h : sc.Like sc') : applies sc' s = applies sc s := by
  have hin : (sc.insideOf s).Like (sc'.insideOf s) := (h.enter rfl rfl).behind _
  have hoff : (sc'.insideOf s).disables info.name = (sc.insideOf s).disables info.name :=
    funext fun r => hin.disables _ rfl rfl
  rw [applies, applies, hin.frames, hoff]

/-! ## Clear sections -/

/-- A sound section of settings holds nothing but statements. -/
theorem body_of_sound (hs : s.IsSound) (hk : s.kind = .settings) :
    s.body = (s.body.filterMap SectionItem.statement?).map .statement := by
  have hitems := hs.items
  rw [hk] at hitems
  clear hk
  generalize s.body = items at hitems
  induction items with
  | nil => rfl
  | cons item items ih =>
    rw [List.forall_mem_cons] at hitems
    cases item with
    | statement r => exact congrArg (SectionItem.statement r :: ·) (ih hitems.2)
    | block b =>
      obtain ⟨⟨htype, -⟩, -⟩ := hitems.1
      cases hb : b.type <;> rw [hb] at htype <;> cases htype

/-- A Settings section has a header. -/
theorem header_of_settings (hs : s.IsSound) (hk : s.kind = .settings) : s.header ≠ none := by
  intro hnone
  have := hs.headerless hnone
  rw [hk] at this
  cases this

/-- Statements at which nothing switches a pass off carry no directive that does, and behind the last
of them it is not switched off either. -/
theorem enabled_of_meetings {pass : String} {sc : Scope}
    (hh : sc.ancestors.head?.any (·.isHeaderless) = false) (hf : sc.frames ≠ [])
    {rs : List Statement} (hm : ∀ m ∈ meetings sc (rs.map .meet), m.2.disables pass m.1 = false) :
    (∀ r ∈ rs, r.directive?.any (·.disables pass) = false) ∧
      (rs ≠ [] → (sc.behind (rs.map .meet)).frames.disables pass = false) := by
  induction rs generalizing sc with
  | nil => simp
  | cons r rs ih =>
    rw [List.map_cons, meetings_meet, List.forall_mem_cons] at hm
    obtain ⟨hr, hrest⟩ := hm
    rw [Scope.disables, Bool.or_eq_false_iff, Bool.and_eq_false_iff] at hr
    have hhead : (sc.note r).ancestors.head?.any (·.isHeaderless) = false := by
      rw [Scope.ancestors_note, hh]
    have hframes : (sc.note r).frames ≠ [] := by
      rw [Scope.note, hh]
      split
      · split
        · exact hf
        · refine fun hnil => hf (List.length_eq_zero_iff.1 ?_)
          rw [← Frames.length_applyInner, List.length_eq_zero_iff]
          exact hnil
      · exact hf
    obtain ⟨hdirectives, hlast⟩ := ih hhead hframes hrest
    refine ⟨List.forall_mem_cons.2 ⟨?_, hdirectives⟩, fun _ => ?_⟩
    · by_cases hc : r.type = .comment
      · refine Bool.eq_false_iff.2 fun hd => ?_
        have hhears : sc.Hears := by
          rw [Scope.Hears, if_neg (by simp [hh])]
          exact hf
        rw [hhears.disables_note hc hd] at hr
        cases hr.2
      · exact hr.1.resolve_left (by simpa using hc)
    · rw [List.map_cons, Scope.behind_cons]
      by_cases hnil : rs = []
      · subst hnil
        exact hr.2
      · exact hlast hnil

/-- **Where nothing switches the pass off it applies.** -/
theorem applies_of_meetings (hs : s.IsSound) (hk : s.kind = .settings)
    (hm : ∀ m ∈ meetings sc s.steps, m.2.disables info.name m.1 = false) :
    applies sc s = true := by
  obtain ⟨header, hheader⟩ := Option.ne_none_iff_exists'.1 (header_of_settings hs hk)
  have hbody := body_of_sound hs hk
  generalize hss : s.body.filterMap SectionItem.statement? = ss at hbody
  have hsteps : s.header.toList.map Step.meet ++ s.body.flatMap SectionItem.steps =
      (header :: ss).map .meet := by
    rw [hheader, hbody, List.flatMap_map]
    exact congrArg (Step.meet header :: ·) List.map_eq_flatMap.symm
  have hhead : (sc.enter (.sect s)).ancestors.head?.any (·.isHeaderless) = false := by
    simp [Scope.enter, Container.isHeaderless, hheader]
  have hframes : (sc.enter (.sect s)).frames ≠ [] := by
    simp [Scope.enter, Container.isBranch]
  rw [Section.steps, meetings_enter, meetings_append, hsteps, List.forall_mem_append] at hm
  obtain ⟨hdirectives, hlast⟩ := enabled_of_meetings hhead hframes hm.1
  have hoff : (sc.insideOf s).frames.disables info.name = false := by
    rw [Scope.insideOf, hsteps]
    exact hlast (List.cons_ne_nil _ _)
  rw [List.forall_mem_cons] at hdirectives
  have hblocks : s.body.any (·.isBlock) = false := by
    rw [hbody, List.any_map]
    exact List.any_eq_false.2 fun r _ => by simp [SectionItem.isBlock]
  have hsection : s.disables info.name = false := by
    rw [Section.disables, hheader, Option.bind_some, hdirectives.1, hss, Bool.false_or,
      List.any_eq_false]
    intro r hr
    simp [hdirectives.2 r hr]
  have hitems : ss.any ((sc.insideOf s).disables info.name) = false := by
    rw [List.any_eq_false]
    intro r hr
    simp [Scope.disables, hoff, hdirectives.2 r hr]
  rw [applies, hss, hoff, hsection, hitems, hblocks, hk]
  rfl

/-- The arranged section holds its header and the arranged statements. -/
theorem statements_arranged (order : List String) (newline : String) (s : Section) :
    (arranged order newline s).statements = s.header.toList ++
      arrange order newline (s.body.filterMap SectionItem.statement?) :=
  congrArg (s.header.toList ++ ·) (itemsStatements_map_statement _)

/-- **A clear section with its settings in order is clear.** -/
theorem clear_arranged (hn : newline = "\n" ∨ newline = "\r\n") (order : List String)
    (hs : s.IsClear) (hk : s.kind = .settings) : (arranged order newline s).IsClear := by
  have hne : newline ≠ "" := by rcases hn with rfl | rfl <;> decide
  have hbreak : IsBreak (.create .eol newline) := ⟨rfl, hn.imp_right .inl⟩
  have hbody := body_of_sound hs.sound hk
  have hitems := itemsStatements_map_statement (s.body.filterMap SectionItem.statement?)
  rw [← hbody] at hitems
  have hstatements : s.statements =
      s.header.toList ++ s.body.filterMap SectionItem.statement? := by
    rw [Section.statements, hitems]
  have hclear := hs.clear
  have hseparated := hs.separated
  rw [hstatements] at hclear hseparated
  rw [List.forall_mem_append] at hclear
  refine ⟨⟨hs.sound.header, hs.sound.headerless, ?_⟩, ?_, ⟨_, [], (List.append_nil _).symm⟩, ?_, ?_⟩
  · have hold : ∀ r ∈ s.body.filterMap SectionItem.statement?,
        r.type.inSection s.kind = true ∧ r.IsSound s.kind := by
      intro r hr
      have hitem := hs.sound.items (.statement r) (by
        rw [hbody]
        exact List.mem_map_of_mem hr)
      exact hitem
    have hnew : ∀ r ∈ arrange order newline (s.body.filterMap SectionItem.statement?),
        r.type.inSection s.kind = true ∧ r.IsSound s.kind := by
      refine forall_arrange ⟨rfl, isSound_emptyLine hbreak⟩ (fun r hr => ?_) hold
      rw [terminate_type]
      exact ⟨hr.1, hr.2.terminate hbreak⟩
    exact List.forall_mem_map.2 hnew
  · rw [Section.isUncheckable, isUncheckable]
    show (s.kind.isInherited && _) = false
    rw [hk]
    rfl
  · rw [statements_arranged, List.forall_mem_append]
    exact ⟨hclear.1, forall_arrange (isClear_emptyLine hn) (fun r hr => hr.terminate hn) hclear.2⟩
  · rw [statements_arranged]
    by_cases hnil : s.body.filterMap SectionItem.statement? = []
    · rw [hnil, arrange_nil]
      rwa [hnil] at hseparated
    · exact .append (hseparated.left hnil) (separated_arrange hne order _)

/-- Nothing is wrong with a clear section. -/
theorem issues_of_clear (hs : s.IsClear) : sectionIssues s.kind s.body = [] := by
  let f : File := { sections := [s], newline := .lf, errors := [], span := .synthetic }
  have hissues : f.issues = [] := File.issues_of_clear (by simpa [f] using hs) (by simp [f])
    (by simpa [f, File.statements] using hs.separated)
  have hsect := section_issues_of_issues hissues s List.mem_cons_self
  rw [Section.issues, List.append_eq_nil_iff] at hsect
  exact hsect.2

/-! ## A run -/

/-- The transform of the pass. -/
def transform (setup : PassSetup) (f : File) : Transform :=
  { name := info.name
    leaveSection := fun place header items =>
      .ofOption ((leave setup (freeLabel f) place (header.map (·.1)) (unmark items)).map fun new =>
        new.map fun item => (item, false)) }

/-- The pass is one run of its transform. -/
theorem apply_eq (setup : PassSetup) (f : File) :
    pass.apply setup f = .ofTransformed ((transform setup f).run f) := rfl

/-- The pass leaves the bodies of blocks alone. -/
theorem leavesBodies_transform (setup : PassSetup) (f : File) :
    (transform setup f).LeavesBodies := ⟨rfl, rfl⟩

/-- The pass adds and drops no section. -/
theorem leavesSections_transform (setup : PassSetup) (f : File) :
    (transform setup f).LeavesSections := by
  intro place header items reason s hs
  dsimp only [transform]
  cases hleave : leave setup (freeLabel f) place (header.map (·.1)) (unmark items) with
  | none => simp [Decision.ofOption, Decision.guarded]
  | some new =>
    have hk : s.kind = .settings := by
      rw [leave, Option.mem_def.1 hs] at hleave
      dsimp only at hleave
      split at hleave
      · rename_i happlies
        simp only [Option.any_some, Bool.and_eq_true, decide_eq_true_eq] at happlies
        exact happlies.1.1.1.1
      · cases hleave
    simp [Decision.ofOption, Decision.guarded, isUncheckable, hk, SectionKind.isInherited]

variable (hn : setup.newline = "\n" ∨ setup.newline = "\r\n")
  (ho : (allGroups (setup.params.texts "groupOrder" defaultOrder)).Nodup)
include hn ho

/-- What is left of a clear section. -/
theorem left_eq (hs : s.IsClear) (h : (transform setup f).LeftBy sc s r) :
    r = if applies sc s then
      arranged (setup.params.texts "groupOrder" defaultOrder) setup.newline s else s := by
  obtain ⟨place, header, items, hplace, hheader, hitems, rfl⟩ := h
  have hleave := @leave_eq sc s setup (freeLabel f) place hplace ho
  have hdecision : (transform setup f).leaveSection place header items =
      .ofOption ((leave setup (freeLabel f) place s.header s.body).map fun new =>
        new.map fun item => (item, false)) := by
    rw [← hheader, ← hitems]
    rfl
  rw [hdecision, hleave]
  cases happlies : applies sc s with
  | false =>
    rw [if_neg Bool.false_ne_true, if_neg Bool.false_ne_true]
    show ({ s with body := unmark items } : Section) = s
    rw [hitems]
  | true =>
    have hk : s.kind = .settings := by
      simp only [applies, Bool.and_eq_true, decide_eq_true_eq] at happlies
      exact happlies.1.1.1.1
    have hissues := issues_of_clear
      (clear_arranged hn (setup.params.texts "groupOrder" defaultOrder) hs hk)
    have hmap (new : List SectionItem) : unmark (new.map fun item => (item, false)) = new := by
      rw [unmark, List.map_map]
      exact List.map_id new
    have houtcome (new : List SectionItem) (h : sectionIssues s.kind new = []) :
        unmark ((Decision.ofOption (some (new.map fun item => (item, false)))).outcome items
          fun new => sectionIssues s.kind (unmark new)) = new := by
      have hput : sectionIssues s.kind (unmark (new.map fun item => (item, false))) = [] := by
        rw [hmap]
        exact h
      exact (congrArg unmark (if_pos hput)).trans (hmap new)
    rw [if_pos rfl, if_pos rfl, Option.map_some, houtcome _ hissues]
    rfl

/-- What the pass leaves of a section behind others. -/
def left (setup : PassSetup) (f : File) (front : List Section) (s : Section) : Section :=
  if applies (f.scopeBehind front) s then
    arranged (setup.params.texts "groupOrder" defaultOrder) setup.newline s
  else s

/-- **What the pass leaves of a file of clear sections:** each section, in order where the pass
applies. -/
theorem tree_pass (hs : ∀ s ∈ f.sections, s.IsClear) :
    (pass.apply setup f).fault = none ∧
      ∃ new, (pass.apply setup f).tree = { f with sections := new } ∧
        new.length = f.sections.length ∧
        ∀ front s back, f.sections = front ++ s :: back →
          new[front.length]? = some (left setup f front s) := by
  have hbodies := leavesBodies_transform setup f
  have hleaves := leavesSections_transform setup f
  obtain ⟨htree, hbroken⟩ := hbodies.run_left hleaves rfl f
  refine ⟨?_, _, htree, Transform.length_onSections _ _ _, fun front s back hcut => ?_⟩
  · exact congrArg (Option.map PassFault.brokenOff) hbroken
  · obtain ⟨r, hget, hleft⟩ := hbodies.onSections hleaves
      (p := ({} : Progress).enter (.file f)) rfl hcut
    have hmem : s ∈ f.sections := by
      rw [hcut]
      exact List.mem_append_right _ List.mem_cons_self
    rw [hget, left_eq hn ho (hs s hmem) hleft]
    rfl

end

/-! ## A second run -/

section
variable {setup : PassSetup} {f : File} {front : List Section} {s : Section} {sc : Scope}

/-- The pass applies in Settings sections only. -/
theorem kind_of_applies (h : applies sc s = true) : s.kind = .settings := by
  simp only [applies, Bool.and_eq_true, decide_eq_true_eq] at h
  exact h.1.1.1.1

/-- A section is left as it was, or is a Settings section arranged. -/
theorem left_cases (setup : PassSetup) (f : File) (front : List Section) (s : Section) :
    left setup f front s = s ∨ s.kind = .settings ∧ left setup f front s =
      arranged (setup.params.texts "groupOrder" defaultOrder) setup.newline s := by
  rw [left]
  split
  · exact .inr ⟨kind_of_applies ‹_›, rfl⟩
  · exact .inl rfl

/-- Arranging keeps a section clear. -/
theorem clear_left (hn : setup.newline = "\n" ∨ setup.newline = "\r\n") (hs : s.IsClear) :
    (left setup f front s).IsClear := by
  rcases left_cases setup f front s with h | ⟨hk, h⟩
  · rwa [h]
  · rw [h]
    exact clear_arranged hn _ hs hk

/-- Sections one by one, each behind those in front of it. -/
theorem exists_cut {ss : List Section} {i : Nat} (hi : i < ss.length) :
    ss = ss.take i ++ ss[i] :: ss.drop (i + 1) ∧ (ss.take i).length = i := by
  rw [List.getElem_cons_drop, List.take_append_drop, List.length_take]
  exact ⟨rfl, by omega⟩

/-- What the pass leaves makes no difference to the directives that hold behind it. -/
theorem scopeBehind_like {new : List Section} (hs : ∀ s ∈ f.sections, s.IsClear)
    (hlength : new.length = f.sections.length)
    (hnew : ∀ front s back, f.sections = front ++ s :: back →
      new[front.length]? = some (left setup f front s)) (i : Nat) (hi : i ≤ f.sections.length) :
    (f.scopeBehind (f.sections.take i)).Like
      (({ f with sections := new } : File).scopeBehind (new.take i)) := by
  induction i with
  | zero => exact Scope.Like.enter ⟨rfl, rfl⟩ rfl rfl
  | succ i ih =>
    have hi' : i < f.sections.length := hi
    obtain ⟨hcut, hfront⟩ := exists_cut hi'
    have hget := hnew _ _ _ hcut
    rw [hfront, List.getElem?_eq_getElem (by omega), Option.some_inj] at hget
    have hlike := ih (by omega)
    have htake (ss : List Section) (h : i < ss.length) : ss.take (i + 1) = ss.take i ++ [ss[i]] :=
      (List.take_concat_get' ss i h).symm
    rw [htake _ hi', htake new (by omega), hget, File.scopeBehind, File.scopeBehind,
      List.flatMap_append, List.flatMap_append, Scope.behind_append, Scope.behind_append,
      List.flatMap_singleton, List.flatMap_singleton]
    rcases left_cases setup f (f.sections.take i) f.sections[i] with h | ⟨hk, h⟩
    · rw [h]
      exact hlike.behind _
    · have hheader := header_of_settings (hs _ (List.getElem_mem hi')).sound hk
      have hsame : (arranged (setup.params.texts "groupOrder" defaultOrder) setup.newline
          f.sections[i]).header ≠ none := hheader
      rw [h, Scope.behind_headed _ hheader, Scope.behind_headed _ hsame]
      exact hlike

/-- Arranging a well-marked section twice is arranging it once. -/
theorem arranged_arranged {order : List String} {newline : String} (hn : newline ≠ "")
    (ho : (allGroups order).Nodup) (hs : isMarked (s.body.filterMap SectionItem.statement?)) :
    arranged order newline (arranged order newline s) = arranged order newline s := by
  have hbody : (arranged order newline s).body.filterMap SectionItem.statement? =
      arrange order newline (s.body.filterMap SectionItem.statement?) := filterMap_statement?_map _
  rw [arranged.eq_def order newline (arranged order newline s), hbody, arrange_arrange hn ho hs]
  rfl

/-- **The pass leaves alone what it has left.** -/
theorem tree_pass_again (hn : setup.newline = "\n" ∨ setup.newline = "\r\n")
    (ho : (allGroups (setup.params.texts "groupOrder" defaultOrder)).Nodup)
    (hs : ∀ s ∈ f.sections, s.IsClear)
    (hm : ∀ s ∈ f.sections, s.kind = .settings →
      isMarked (s.body.filterMap SectionItem.statement?)) :
    (pass.apply setup (pass.apply setup f).tree).tree = (pass.apply setup f).tree := by
  have hne : setup.newline ≠ "" := by rcases hn with h | h <;> simp [h]
  obtain ⟨-, new, htree, hlength, hnew⟩ := tree_pass hn ho hs
  rw [htree]
  have hget (i : Nat) (hi : i < f.sections.length) :
      new[i]? = some (left setup f (f.sections.take i) f.sections[i]) := by
    obtain ⟨hcut, hfront⟩ := exists_cut hi
    rw [← hnew _ _ _ hcut, hfront]
  have hclear : ∀ s ∈ new, s.IsClear := by
    intro s hmem
    obtain ⟨i, hi, rfl⟩ := List.mem_iff_getElem.1 hmem
    have hleft := hget i (by omega)
    rw [List.getElem?_eq_getElem hi, Option.some_inj] at hleft
    rw [hleft]
    exact clear_left hn (hs _ (List.getElem_mem _))
  obtain ⟨-, again, htree', hlength', hagain⟩ :=
    tree_pass (f := { f with sections := new }) hn ho hclear
  rw [htree']
  refine congrArg (fun ss => ({ f with sections := ss } : File)) (List.ext_getElem? fun i => ?_)
  by_cases hi : i < new.length
  · have hold : i < f.sections.length := by omega
    obtain ⟨hcut, hfront⟩ := exists_cut hi
    have hsecond := hagain _ _ _ hcut
    have hfirst := hget i hold
    rw [hfront] at hsecond
    rw [List.getElem?_eq_getElem hi, Option.some_inj] at hfirst
    rw [hsecond, List.getElem?_eq_getElem hi, hfirst, Option.some_inj]
    have hlike := scopeBehind_like hs hlength hnew i (by omega)
    cases happlies : applies (f.scopeBehind (f.sections.take i)) f.sections[i] with
    | false =>
      have hsame : left setup f (f.sections.take i) f.sections[i] = f.sections[i] := by
        rw [left, happlies, if_neg Bool.false_ne_true]
      rw [hsame, left, applies_like hlike, happlies, if_neg Bool.false_ne_true]
    | true =>
      have hdone : left setup f (f.sections.take i) f.sections[i] = arranged
          (setup.params.texts "groupOrder" defaultOrder) setup.newline f.sections[i] := by
        rw [left, happlies, if_pos rfl]
      rw [hdone]
      rcases left_cases setup { f with sections := new } (new.take i) (arranged
        (setup.params.texts "groupOrder" defaultOrder) setup.newline f.sections[i])
        with h | ⟨-, h⟩
      · exact h
      · rw [h, arranged_arranged hne ho
          (hm _ (List.getElem_mem hold) (kind_of_applies happlies))]
  · rw [List.getElem?_eq_none (by simp at hlength' ⊢; omega), List.getElem?_eq_none (by omega)]

end

/-! ## What is read of the text -/

section
variable {source newline : String} {setup : PassSetup} {s : Section}

/-- Ending the line keeps a plain statement plain. -/
theorem plain_terminate {s : Statement} (h : s.IsPlain) : (s.terminate newline).IsPlain := by
  have hwith (ts : List Token) : (s.withTokens ts).IsPlain := ⟨h.defect, rfl, h.owned⟩
  rw [Statement.terminate]
  split
  · exact hwith _
  · split
    · exact hwith _
    · exact h

/-- The statements of a section of settings of a source. -/
theorem settings_of_parse (hp : (parse source).errors = []) (hs : s ∈ (parse source).sections)
    (hk : s.kind = .settings) : isMarked (s.body.filterMap SectionItem.statement?) ∧
      ∀ r ∈ s.body.filterMap SectionItem.statement?, r.IsPlain := by
  obtain ⟨ss, hbody, hmarked, hplain⟩ := statements_of_parse hp hs (by rw [hk]; rfl)
  rw [hbody, filterMap_statement?_map]
  exact ⟨hmarked, hplain⟩

/-- **Settings in order are read as they are.** -/
theorem isRead_arranged (hn : newline = "\n" ∨ newline = "\r\n") (order : List String)
    (hp : (parse source).errors = []) (hs : s ∈ (parse source).sections) (hk : s.kind = .settings) :
    (arranged order newline s).IsRead := by
  have hne : newline ≠ "" := by rcases hn with rfl | rfl <;> decide
  have hbreak : IsBreak (.create .eol newline) := ⟨rfl, hn.imp_right .inl⟩
  have hsound := (sound_parse hp).sections s hs
  obtain ⟨hmarked, hplain⟩ := settings_of_parse hp hs hk
  have hreads : ∀ r ∈ s.body.filterMap SectionItem.statement?, r.IsSound s.kind := by
    intro r hr
    have hitem := hsound.items (.statement r) (by
      rw [body_of_sound hsound hk]
      exact List.mem_map_of_mem hr)
    exact hitem.2
  have hmem := hs
  rw [parse, parseTokens_sections] at hmem
  obtain ⟨p, -, rfl⟩ := List.mem_map.1 hmem
  refine isRead_of_statements (by rw [hk]; rfl) (fun r hr => ?_) ?_ (isMarked_arrange order hmarked)
  · exact (forall_arrange (P := Statement.IsSound (markedSection p).kind) (isSound_emptyLine hbreak)
      (fun _ hr => hr.terminate hbreak) hreads r hr).reads
  · exact forall_arrange ⟨rfl, rfl, fun _ => rfl⟩ (fun _ hr => plain_terminate hr) hplain

/-- The newlines of a file are one of two. -/
theorem newline_text (n : Newline) : n.text = "\n" ∨ n.text = "\r\n" := by
  cases n <;> simp [Newline.text]

/-- What is left of the sections of a source: the sections, or sections of settings in order. -/
theorem mem_tree_pass (hn : setup.newline = "\n" ∨ setup.newline = "\r\n")
    (ho : (allGroups (setup.params.texts "groupOrder" defaultOrder)).Nodup)
    (hs : ∀ s ∈ (parse source).sections, s.IsClear) :
    ∀ r ∈ (pass.apply setup (parse source)).tree.sections, ∃ s ∈ (parse source).sections,
      r = s ∨ s.kind = .settings ∧
        r = arranged (setup.params.texts "groupOrder" defaultOrder) setup.newline s := by
  obtain ⟨-, new, htree, hlength, hnew⟩ := tree_pass hn ho hs
  rw [htree]
  intro r hr
  obtain ⟨i, hi, rfl⟩ := List.mem_iff_getElem.1 hr
  have hold : i < (parse source).sections.length := hlength ▸ hi
  obtain ⟨hcut, hfront⟩ := exists_cut hold
  have hget := hnew _ _ _ hcut
  rw [hfront, List.getElem?_eq_getElem hi, Option.some_inj] at hget
  refine ⟨_, List.getElem_mem hold, ?_⟩
  show new[i] = _ ∨ _
  rw [hget]
  exact left_cases setup (parse source) _ _

/-- The pass does not look at the configuration but for its own parameters. -/
theorem apply_config (setup : PassSetup) (config : FormatConfig) (f : File) :
    pass.apply { setup with config } f = pass.apply setup f := rfl

/-- The setup is valid whatever the configuration says. -/
theorem isValid_setup (hn : setup.newline = "\n" ∨ setup.newline = "\r\n") :
    ({ setup with config := .default } : PassSetup).IsValid := by
  exact ⟨isWide_spaces (by decide), Nat.le_of_ble_eq_true rfl, hn⟩

/-- The pass keeps the tree intact. -/
theorem intact_tree_pass {f : File} (hn : setup.newline = "\n" ∨ setup.newline = "\r\n")
    (h : f.Intact) : (pass.apply setup f).tree.Intact := by
  rw [← apply_config setup .default]
  exact h.apply (isValid_setup hn) (by simp [Pass.all])

/-- **What the pass leaves is read as it is,** but for places. -/
theorem read_tree_pass (hp : (parse source).errors = []) (hi : (parse source).issues = [])
    (hn : setup.newline = "\n" ∨ setup.newline = "\r\n")
    (ho : (allGroups (setup.params.texts "groupOrder" defaultOrder)).Nodup) :
    let f := (pass.apply setup (parse source)).tree
    (parse f.render).errors = [] ∧
      (parse f.render).sections.map (Section.view wholeView) =
        f.sections.map (Section.view wholeView) := by
  intro f
  have hclear := clear_sections hp hi
  have hmem := mem_tree_pass hn ho hclear
  have hintact : f.Intact := intact_tree_pass hn ⟨sound_parse hp, hi⟩
  have hnew : ∀ r ∈ f.sections, r.IsClear := by
    intro r hr
    obtain ⟨s, hs, rfl | ⟨hk, rfl⟩⟩ := hmem r hr
    · exact hclear _ hs
    · exact clear_arranged hn _ (hclear s hs) hk
  have hlegible := hintact.sound.legible_of_clear (File.mem_statements_clear hnew)
  refine ⟨(hintact.sound.read_back hintact.valid hlegible).1,
    hintact.sound.view_read_back hintact.valid hlegible (fun r hr => ?_) fun r hr => ?_⟩
  · obtain ⟨s, hs, rfl | ⟨hk, rfl⟩⟩ := hmem r hr
    · exact statements_ne_nil_of_parse source _ hs
    · have hheader := header_of_settings (hclear s hs).sound hk
      have hsame : (arranged (setup.params.texts "groupOrder" defaultOrder) setup.newline
          s).header ≠ none := hheader
      exact Section.statements_ne_nil hsame
  · obtain ⟨s, hs, rfl | ⟨hk, rfl⟩⟩ := hmem r hr
    · exact isRead_parse source _ hs
    · exact isRead_arranged hn _ hp hs hk

/-- **Settings are put in order.**  A source has no defect, its model is valid, and no group is named
twice.  Then the pass puts the statements of each section of settings in which nothing switches it
off in order and keeps all of them, its text is read without a defect, and the pass leaves that text
as it is if the lines of the text mostly end as those of the source. -/
theorem settings_ordered (hp : (parse source).errors = []) (hi : (parse source).issues = [])
    (hn : setup.newline = (parse source).newline.text)
    (ho : (allGroups (setup.params.texts "groupOrder" defaultOrder)).Nodup) :
    let order := setup.params.texts "groupOrder" defaultOrder
    let after := pass.apply setup (parse source)
    let read := parse after.tree.render
    after.fault = none ∧
      (∀ front s back, (parse source).sections = front ++ s :: back → s.kind = .settings →
        (∀ m ∈ meetings ((parse source).scopeBehind front) s.steps,
          m.2.disables info.name m.1 = false) →
        ∃ old new, s.body = old.map .statement ∧
          after.tree.sections[front.length]? = some { s with body := new.map .statement } ∧
          Ordered order setup.newline old new ∧ KeepsAll setup.newline old new) ∧
      read.errors = [] ∧ (read.newline = (parse source).newline →
        (pass.apply { setup with newline := read.newline.text } read).tree.render =
          after.tree.render) := by
  intro order after read
  have hnewline : setup.newline = "\n" ∨ setup.newline = "\r\n" := hn ▸ newline_text _
  have hclear := clear_sections hp hi
  have hmarked : ∀ s ∈ (parse source).sections, s.kind = .settings →
      isMarked (s.body.filterMap SectionItem.statement?) :=
    fun s hs hk => (settings_of_parse hp hs hk).1
  obtain ⟨hfault, new, htree, hlength, hnew⟩ := tree_pass hnewline ho hclear
  refine ⟨hfault, fun front s back hcut hk hm => ?_, ?_⟩
  · have hmem : s ∈ (parse source).sections := by
      rw [hcut]
      exact List.mem_append_right _ List.mem_cons_self
    have happlies := applies_of_meetings (hclear s hmem).sound hk hm
    have hordered : Ordered order setup.newline _ _ := ordered_arrange (hmarked s hmem hk)
    refine ⟨_, _, body_of_sound (hclear s hmem).sound hk, ?_, hordered,
      keepsAll_of_ordered ho hordered⟩
    show (pass.apply setup (parse source)).tree.sections[front.length]? = _
    rw [htree, hnew front s back hcut, left, happlies, if_pos rfl]
    rfl
  · obtain ⟨herrors, hread⟩ := read_tree_pass hp hi hnewline ho
    refine ⟨herrors, fun hsame => ?_⟩
    have hkept : after.tree.newline = (parse source).newline :=
      (congrArg File.newline htree :)
    have hview : read.view wholeView = after.tree.view wholeView := by
      rw [File.view, File.view, hread, hsame, hkept]
    have hsetup : { setup with newline := read.newline.text } = setup := by
      rw [hsame, ← hn]
    have hagain : (pass.apply setup after.tree).tree = after.tree :=
      tree_pass_again hnewline ho hclear hmarked
    have hcommutes (f : File) (hf : f.IsSound) :
        (pass.apply setup (f.view wholeView)).tree = (pass.apply setup f).tree.view wholeView :=
      commutes_pass (fun _ => true) { setup with config := .default } f (isValid_setup hnewline) hf
    rw [hsetup, ← File.render_wholeView, ← hcommutes read (sound_parse herrors), hview,
      hcommutes _ (intact_tree_pass hnewline ⟨sound_parse hp, hi⟩).sound, hagain,
      File.render_wholeView]

end

set_option maxRecDepth 100000 in
/-- Settings of two groups, a comment above one of them and one above an empty line; the last lacks
a line break. -/
theorem settings_ordered_imports :
    let source := "*** Settings ***\nSuite Setup    A\n# more\n\n# about X\nLibrary    X"
    let setup : PassSetup := ⟨.default, [("groupOrder", .texts ["imports", "settings"])], "\n"⟩
    let after := pass.apply setup (parse source)
    let read := parse after.tree.render
    (parse source).errors = [] ∧ (parse source).issues = [] ∧ after.fault = none ∧
      (∃ s old new, (parse source).sections = [s] ∧ s.body = old.map .statement ∧
        after.tree.sections[0]? = some { s with body := new.map .statement } ∧
        Ordered ["imports", "settings"] "\n" old new ∧ KeepsAll "\n" old new) ∧
      read.errors = [] ∧ (pass.apply { setup with newline := read.newline.text } read).tree.render =
        after.tree.render := by
  intro source setup after read
  obtain ⟨hp, hi, hn, ho⟩ : (parse source).errors = [] ∧ (parse source).issues = [] ∧
      setup.newline = (parse source).newline.text ∧
      (allGroups (setup.params.texts "groupOrder" defaultOrder)).Nodup := by
    decide +kernel
  obtain ⟨hfault, hsections, herrors, hagain⟩ := settings_ordered hp hi hn ho
  have hsame : read.newline = (parse source).newline := by decide +kernel
  have hlength : (parse source).sections.length = 1 := by decide +kernel
  obtain ⟨s, hs⟩ := List.length_eq_one_iff.1 hlength
  have hfirst : s = (parse source).sections.head (by decide +kernel) := by simp [hs]
  have hk : s.kind = .settings := by
    rw [hfirst]
    decide +kernel
  have hm : ∀ m ∈ meetings ((parse source).scopeBehind []) s.steps,
      m.2.disables info.name m.1 = false := by
    rw [hfirst]
    decide +kernel
  obtain ⟨old, new, hold, hnew, hordered, hkeeps⟩ := hsections [] s [] hs hk hm
  exact ⟨hp, hi, hfault, ⟨s, old, new, hs, hold, hnew, hordered, hkeeps⟩, herrors, hagain hsame⟩

/-- Keeping all statements keeps their number. -/
theorem KeepsAll.length_eq {newline : String} {old new : List Statement}
    (h : KeepsAll newline old new) :
    (new.filter fun s => !isBlank s).length = (old.filter fun s => !isBlank s).length := by
  obtain ⟨kept, hperm, hcompleted⟩ := h
  rw [← hperm.length_eq, List.Forall₂.length_eq hcompleted]

set_option maxRecDepth 100000 in
/-- The settings of a group that is named twice stand at two places.  And where most lines end in
another way behind the pass than in front of it, it writes its empty lines in another way when it
runs again. -/
theorem settings_not_ordered :
    (let source := "*** Settings ***\nLibrary    X\n"
      let setup : PassSetup := ⟨.default, [("groupOrder", .texts ["imports", "imports"])], "\n"⟩
      let after := pass.apply setup (parse source)
      let statements (f : File) := f.sections.flatMap fun s =>
        s.body.filterMap SectionItem.statement?
      (parse source).errors = [] ∧ (parse source).issues = [] ∧ after.fault = none ∧
        (parse source).sections.map (·.kind) = [.settings] ∧
        (∀ m ∈ (parse source).meetings, m.2.disables info.name m.1 = false) ∧
        after.tree.render = "*** Settings ***\nLibrary    X\n\nLibrary    X\n" ∧
        ¬ KeepsAll "\n" (statements (parse source)) (statements after.tree)) ∧
    (let source := "*** Settings ***\nLibrary    X\n\r\n\r\n\r\n# c\r\nSuite Setup    Y\n"
      let setup : PassSetup := ⟨.default, [], (parse source).newline.text⟩
      let after := pass.apply setup (parse source)
      let read := parse after.tree.render
      (parse source).errors = [] ∧ (parse source).issues = [] ∧ read.errors = [] ∧
        (pass.apply { setup with newline := read.newline.text } read).tree.render ≠
          after.tree.render) := by
  constructor
  · intro source setup after statements
    obtain ⟨hp, hi, hfault, hkinds, hon, htext, hlength⟩ :
        (parse source).errors = [] ∧ (parse source).issues = [] ∧ after.fault = none ∧
          (parse source).sections.map (·.kind) = [.settings] ∧
          (∀ m ∈ (parse source).meetings, m.2.disables info.name m.1 = false) ∧
          after.tree.render = "*** Settings ***\nLibrary    X\n\nLibrary    X\n" ∧
          ((statements after.tree).filter fun s => !isBlank s).length ≠
            ((statements (parse source)).filter fun s => !isBlank s).length := by
      decide +kernel
    exact ⟨hp, hi, hfault, hkinds, hon, htext, fun hkeeps => hlength hkeeps.length_eq⟩
  · decide +kernel

end OrderSettings
end RobotSuite
