/-
# The directive that decides

Walking through a file, a scope keeps frames that directives set and clear.  What they come to can
be said without frames.  Each container contributes directives in the order in which they are
written: that of its header and those of the comments that it hears (`contributions`).  The first
container around a statement, from the inside, that has a directive which speaks of a pass decides
by the last of these (`Site.isOff`), and that is what the scope of a walk says
(`disables_meetings`).
-/

import Mathlib.Data.List.Induction
import RobotSuite.Proofs.Directive.Grammar
import RobotSuite.Proofs.Transform.FrozenItems
import RobotSuite.Proofs.Walk.Scopes
import RobotSuite.Tree.Parse

namespace RobotSuite

/-! ## Names of passes -/

/-- No directive names the pass that stands for all. -/
theorem everyPass_notMem_passes {comment : String} {d : Directive}
    (h : parseDirective comment = some d) : Frame.everyPass ∉ d.passes := by
  obtain ⟨names, hwrites, hpasses⟩ := parseDirective_eq_some_iff.1 h
  rw [hpasses, List.mem_map]
  rintro ⟨name, hname, heq⟩
  exact Directive.passOf_ne (hwrites.isName name hname) heq

/-- No statement names the pass that stands for all. -/
theorem Statement.everyPass_notMem {s : Statement} {d : Directive} (h : s.directive? = some d) :
    Frame.everyPass ∉ d.passes := by
  obtain ⟨t, -, ht⟩ := List.exists_of_findSome?_eq_some h
  exact everyPass_notMem_passes ht

/-! ## Frames -/

/-- Whether a directive speaks of a pass. -/
def Directive.speaksOf (d : Directive) (pass : String) : Bool :=
  d.passes.isEmpty || d.passes.contains pass

/-- What some directives, the last of which comes last, say of a pass: whether it is switched off,
if one of them speaks of it. -/
def ruling (pass : String) (ds : List Directive) : Option Bool :=
  (ds.filter (·.speaksOf pass)).getLast?.map fun d => !d.enabled

/-- The last directive that speaks of a pass decides. -/
theorem ruling_concat (pass : String) (ds : List Directive) (d : Directive) :
    ruling pass (ds ++ [d]) =
      if d.speaksOf pass then some !d.enabled else ruling pass ds := by
  rw [ruling, ruling, List.filter_append]
  by_cases hd : d.speaksOf pass = true
  · simp [hd]
  · simp [hd]

namespace Frame

/-- Setting names sets these and no others. -/
theorem lookup_foldl_set (f : Frame) (names : List String) (off : Bool) (pass : String) :
    (names.foldl (fun f name => f.set name off) f).lookup pass =
      if pass ∈ names then some off else f.lookup pass := by
  induction names generalizing f with
  | nil => simp
  | cons name names ih =>
    rw [List.foldl_cons, ih, lookup_set]
    by_cases hn : pass ∈ names
    · rw [if_pos hn, if_pos (List.mem_cons_of_mem _ hn)]
    · rw [if_neg hn]
      by_cases hp : pass = name
      · rw [if_pos hp, if_pos (hp ▸ List.mem_cons_self)]
      · rw [if_neg hp, if_neg (by simp [hp, hn])]

/-- A directive decides about the passes of which it speaks, and about no others. -/
theorem entry?_apply (f : Frame) {d : Directive} {pass : String} (hd : everyPass ∉ d.passes)
    (hp : pass ≠ everyPass) : Frame.entry? (f.apply d) pass =
      if d.speaksOf pass then some !d.enabled else f.entry? pass := by
  unfold apply entry? Directive.speaksOf
  by_cases hall : d.passes.isEmpty = true
  · rw [if_pos hall, hall]
    have hne : (pass == everyPass) = false := by simpa using hp
    simp [List.lookup_cons, hne]
  · rw [if_neg hall, lookup_foldl_set, lookup_foldl_set, if_neg hd]
    by_cases hmem : pass ∈ d.passes
    · simp [hmem]
    · simp [hmem, hall]

/-- **The last directive that speaks of a pass decides.** -/
theorem entry?_foldl_apply {ds : List Directive} (hds : ∀ d ∈ ds, everyPass ∉ d.passes)
    {pass : String} (hp : pass ≠ everyPass) :
    Frame.entry? (ds.foldl apply []) pass = ruling pass ds := by
  induction ds using List.reverseRecOn with
  | nil => rfl
  | append_singleton ds d ih =>
    rw [List.forall_mem_append, List.forall_mem_singleton] at hds
    rw [List.foldl_append, List.foldl_cons, List.foldl_nil, entry?_apply _ hds.2 hp, ih hds.1,
      ruling_concat]

end Frame

/-! ## Sites -/

/-- A place at which a statement stands. -/
structure Site where
  statement : Statement
  /-- The containers around it, the innermost first, with their numbers in the file. -/
  around : List (Nat × Container)

/-- The sites of the statements that some steps meet.  Containers are numbered as they are
entered. -/
def sitesFrom (number : Nat) (around : List (Nat × Container)) : List Step → List Site
  | [] => []
  | .enter c :: steps => sitesFrom (number + 1) ((number, c) :: around) steps
  | .meet s :: steps => ⟨s, around⟩ :: sitesFrom number around steps
  | .leave _ :: steps => sitesFrom number around.tail steps

/-- The sites of the statements of a file. -/
def File.sites (f : File) : List Site := sitesFrom 0 [] f.steps

namespace Site

/-- The containers around a site but branches. -/
def holders (x : Site) : List (Nat × Container) := x.around.filter fun c => !c.2.isBranch

/-- The container that hears a comment: the innermost that is no branch.  What stands right in a
section without header is heard by the file, which is the outermost. -/
def hearer? (x : Site) : Option (Nat × Container) :=
  if x.around.head?.any (·.2.isHeaderless) then x.holders.getLast? else x.holders.head?

/-- The directive that the container with a number hears at a site. -/
def heardBy? (x : Site) (number : Nat) : Option Directive :=
  if x.statement.type = .comment ∧ x.hearer?.map (·.1) = some number then x.statement.directive?
  else none

end Site

/-- The directives that a container contributes: that of its header, and those of the comments
that it hears at some sites. -/
def contributions (sites : List Site) (c : Nat × Container) : List Directive :=
  (c.2.header?.bind Statement.directive?).toList ++ sites.filterMap (·.heardBy? c.1)

/-- Whether a pass is switched off at a site, when the walk has come through `sites`. -/
def Site.isOff (pass : String) (sites : List Site) (x : Site) : Bool :=
  (x.statement.type != .comment && x.statement.directive?.any (·.disables pass)) ||
    (x.holders.findSome? fun c => ruling pass (contributions sites c)).getD false

/-! ## What a walk keeps -/

section
variable {sites : List Site} {s : Statement}

/-- A statement adds its directive to the containers that hear it. -/
theorem contributions_concat (sites : List Site) (x : Site) (c : Nat × Container) :
    contributions (sites ++ [x]) c = contributions sites c ++ (x.heardBy? c.1).toList := by
  rw [contributions, contributions, List.filterMap_append, List.append_assoc]
  cases h : x.heardBy? c.1 <;> simp [h]

/-- No container hears of the pass that stands for all. -/
theorem everyPass_notMem_contributions (sites : List Site) (c : Nat × Container) :
    ∀ d ∈ contributions sites c, Frame.everyPass ∉ d.passes := by
  intro d hd
  rw [contributions, List.mem_append, Option.mem_toList, List.mem_filterMap] at hd
  rcases hd with hd | ⟨x, -, hd⟩
  · obtain ⟨s, -, hs⟩ := Option.bind_eq_some_iff.1 hd
    exact Statement.everyPass_notMem hs
  · rw [Site.heardBy?] at hd
    split at hd
    · exact Statement.everyPass_notMem hd
    · cases hd

end

/-- The frame of a container behind some sites. -/
def frameOf (sites : List Site) (c : Nat × Container) : Frame :=
  (contributions sites c).foldl Frame.apply []

/-- A statement changes the frames of the containers that hear it. -/
theorem frameOf_concat (sites : List Site) (x : Site) (c : Nat × Container) :
    frameOf (sites ++ [x]) c =
      (x.heardBy? c.1).elim (frameOf sites c) (Frame.apply (frameOf sites c)) := by
  rw [frameOf, contributions_concat, List.foldl_append]
  cases x.heardBy? c.1 <;> rfl

namespace Frames
variable {d : Directive} {g : Nat × Container → Frame} {cs : List (Nat × Container)}

/-- A directive for the innermost frame. -/
theorem applyInner_map (h : (cs.map (·.1)).Nodup) : applyInner (cs.map g) d =
    cs.map fun c => if cs.head?.map (·.1) = some c.1 then (g c).apply d else g c := by
  cases cs with
  | nil => rfl
  | cons c cs =>
    obtain ⟨hc, -⟩ := List.nodup_cons.1 h
    rw [List.map_cons, applyInner, List.map_cons, List.head?_cons, Option.map_some, if_pos rfl]
    refine congrArg _ (List.map_congr_left fun b hb => ?_)
    rw [if_neg]
    intro heq
    exact hc (List.mem_map.2 ⟨b, hb, (Option.some.inj heq).symm⟩)

/-- A directive for the outermost frame. -/
theorem applyOuter_map (h : (cs.map (·.1)).Nodup) : applyOuter (cs.map g) d =
    cs.map fun c => if cs.getLast?.map (·.1) = some c.1 then (g c).apply d else g c := by
  induction cs with
  | nil => rfl
  | cons c cs ih =>
    cases cs with
    | nil => simp [applyOuter]
    | cons b cs =>
      obtain ⟨hc, hrest⟩ := List.nodup_cons.1 h
      rw [List.map_cons, List.map_cons, applyOuter, ← List.map_cons, ih hrest, List.map_cons,
        List.getLast?_cons_cons]
      refine congrArg (· :: _) (if_neg fun heq => ?_).symm
      obtain ⟨last, hlast, hnumber⟩ := Option.map_eq_some_iff.1 heq
      exact hc (List.mem_map.2 ⟨last, List.mem_of_getLast? hlast, hnumber⟩)

end Frames

/-- A scope whose frames are those of the containers around, when the walk has come through some
sites and has entered a number of containers. -/
structure Scope.Hearing (sc : Scope) (number : Nat) (around : List (Nat × Container))
    (sites : List Site) : Prop where
  ancestors : sc.ancestors = around.map (·.2)
  frames : sc.frames = (around.filter fun c => !c.2.isBranch).map (frameOf sites)
  nodup : (around.map (·.1)).Nodup
  around_lt : ∀ c ∈ around, c.1 < number
  sites_lt : ∀ x ∈ sites, ∀ c ∈ x.around, c.1 < number

namespace Scope.Hearing
variable {sc : Scope} {number : Nat} {around : List (Nat × Container)} {sites : List Site}

/-- In front of a file nothing has been heard. -/
theorem empty : Scope.Hearing {} 0 [] [] :=
  ⟨rfl, rfl, List.nodup_nil, by simp, by simp⟩

/-- What a container that is entered next has not heard yet. -/
theorem heardBy?_eq_none (h : sc.Hearing number around sites) :
    ∀ x ∈ sites, x.heardBy? number = none := by
  intro x hx
  rw [Site.heardBy?, if_neg]
  rintro ⟨-, heq⟩
  obtain ⟨c, hc, hnumber⟩ := Option.map_eq_some_iff.1 heq
  have hmem : c ∈ x.holders := by
    rw [Site.hearer?] at hc
    split at hc
    · exact List.mem_of_getLast? hc
    · exact List.mem_of_head? hc
  have := h.sites_lt x hx c (List.mem_filter.1 hmem).1
  omega

/-- Entering a container opens a frame. -/
theorem enter (h : sc.Hearing number around sites) (c : Container) :
    (sc.enter c).Hearing (number + 1) ((number, c) :: around) sites := by
  have hnew : frameOf sites (number, c) =
      (c.header?.bind Statement.directive?).elim ([] : Frame) (Frame.apply []) := by
    have hheard : sites.filterMap (·.heardBy? number) = [] := by
      rw [List.filterMap_eq_nil_iff]
      exact h.heardBy?_eq_none
    rw [frameOf, contributions, hheard, List.append_nil]
    cases c.header?.bind Statement.directive? <;> rfl
  constructor
  · show c :: sc.ancestors = c :: around.map (·.2)
    rw [h.ancestors]
  · rw [Scope.enter]
    dsimp only
    cases hc : c.isBranch with
    | true =>
      rw [if_pos rfl, List.filter_cons_of_neg (by simp [hc])]
      exact h.frames
    | false =>
      rw [if_neg Bool.false_ne_true, List.filter_cons_of_pos (by simp [hc]), List.map_cons,
        hnew, h.frames]
  · rw [List.map_cons, List.nodup_cons]
    refine ⟨fun hmem => ?_, h.nodup⟩
    obtain ⟨b, hb, hnumber⟩ := List.mem_map.1 hmem
    have := h.around_lt b hb
    omega
  · rw [List.forall_mem_cons]
    exact ⟨Nat.lt_succ_self _, fun b hb => Nat.lt_succ_of_lt (h.around_lt b hb)⟩
  · exact fun x hx b hb => Nat.lt_succ_of_lt (h.sites_lt x hx b hb)

/-- Leaving a container closes its frame. -/
theorem leave (h : sc.Hearing number around sites) :
    sc.leave.Hearing number around.tail sites := by
  constructor
  · show sc.ancestors.tail = _
    rw [h.ancestors, List.map_tail]
  · show (if sc.ancestors.head?.any (·.isBranch) then sc.frames else sc.frames.tail) = _
    rw [h.ancestors, h.frames]
    cases around with
    | nil => rfl
    | cons c cs =>
      rw [List.map_cons, List.head?_cons, Option.any_some, List.tail_cons]
      cases hc : c.2.isBranch with
      | true => rw [if_pos rfl, List.filter_cons_of_neg (by simp [hc])]
      | false =>
        rw [if_neg Bool.false_ne_true, List.filter_cons_of_pos (by simp [hc]), List.map_cons,
          List.tail_cons]
  · rw [List.map_tail]
    exact h.nodup.tail
  · exact fun c hc => h.around_lt c (List.mem_of_mem_tail hc)
  · exact h.sites_lt

/-- What a comment says is noted in the frame of the container that hears it. -/
theorem frames_note (h : sc.Hearing number around sites) (s : Statement) :
    (sc.note s).frames = (around.filter fun c => !c.2.isBranch).map fun c =>
      ((Site.mk s around).heardBy? c.1).elim (frameOf sites c) (Frame.apply (frameOf sites c)) := by
  have hsilent (hnote : sc.note s = sc) (hnone : ∀ n, (Site.mk s around).heardBy? n = none) :
      (sc.note s).frames = (around.filter fun c => !c.2.isBranch).map fun c =>
        ((Site.mk s around).heardBy? c.1).elim (frameOf sites c)
          (Frame.apply (frameOf sites c)) := by
    rw [hnote, h.frames]
    refine List.map_congr_left fun c _ => ?_
    rw [hnone]
    rfl
  by_cases hs : s.type = .comment
  · cases hd : s.directive? with
    | none =>
      refine hsilent (Scope.note_of_directive? hd) fun n => ?_
      rw [Site.heardBy?, hd, ite_self]
    | some d =>
      have hheard (n : Nat) : (Site.mk s around).heardBy? n =
          if (Site.mk s around).hearer?.map (·.1) = some n then some d else none := by
        rw [Site.heardBy?]
        simp only [hs, hd, true_and]
      have hnodup : ((around.filter fun c => !c.2.isBranch).map (·.1)).Nodup :=
        h.nodup.sublist (List.filter_sublist.map _)
      have hhead : sc.ancestors.head?.any (·.isHeaderless) =
          around.head?.any (·.2.isHeaderless) := by
        rw [h.ancestors, List.head?_map, Option.any_map]
      simp only [hheard, Site.hearer?, Site.holders]
      rw [Scope.note, if_pos hs, hd, hhead]
      dsimp only
      by_cases hh : around.head?.any (·.2.isHeaderless) = true
      · simp only [if_pos hh]
        rw [h.frames, Frames.applyOuter_map hnodup]
        refine List.map_congr_left fun c _ => ?_
        split <;> rfl
      · simp only [if_neg hh]
        rw [h.frames, Frames.applyInner_map hnodup]
        refine List.map_congr_left fun c _ => ?_
        split <;> rfl
  · refine hsilent (by rw [Scope.note, if_neg hs]) fun n => ?_
    rw [Site.heardBy?, if_neg fun hc => hs hc.1]

/-- A statement is heard by the containers around it. -/
theorem meet (h : sc.Hearing number around sites) (s : Statement) :
    (sc.note s).Hearing number around (sites ++ [⟨s, around⟩]) := by
  constructor
  · rw [Scope.note_ancestors]
    exact h.ancestors
  · rw [h.frames_note s]
    exact List.map_congr_left fun c _ => (frameOf_concat sites ⟨s, around⟩ c).symm
  · exact h.nodup
  · exact h.around_lt
  · rw [List.forall_mem_append, List.forall_mem_singleton]
    exact ⟨h.sites_lt, h.around_lt⟩

/-- In such a scope the directive that decides is in force. -/
theorem disables_eq {pass : String} (hp : pass ≠ Frame.everyPass)
    (h : sc.Hearing number around sites) (s : Statement) :
    sc.disables pass s = (Site.mk s around).isOff pass sites := by
  have hentry (c : Nat × Container) : Frame.entry? (frameOf sites c) pass =
      ruling pass (contributions sites c) :=
    Frame.entry?_foldl_apply (everyPass_notMem_contributions sites c) hp
  rw [Scope.disables, Site.isOff, Frames.disables, h.frames, List.findSome?_map]
  simp only [Function.comp_def, hentry]
  rfl

/-- From such a scope on, all scopes say what the directives come to. -/
theorem disables_meetings {pass : String} (hp : pass ≠ Frame.everyPass) (steps : List Step)
    (h : sc.Hearing number around sites) :
    (meetings sc steps).map (fun m => (m.1, m.2.disables pass m.1)) =
      (sitesFrom number around steps).mapIdx fun k x => (x.statement,
        x.isOff pass (sites ++ (sitesFrom number around steps).take (k + 1))) := by
  induction steps generalizing sc number around sites with
  | nil => rfl
  | cons step steps ih =>
    cases step with
    | enter c => exact ih (h.enter c)
    | leave c => exact ih h.leave
    | meet s =>
      rw [meetings_meet, List.map_cons, sitesFrom, List.mapIdx_cons, ih (h.meet s)]
      simp only [List.take_succ_cons, List.take_zero, (h.meet s).disables_eq hp,
        List.append_assoc, List.singleton_append]

end Scope.Hearing

/-- **The last directive in the innermost container decides.**  When a walk through a file meets a
statement, a pass is switched off if the statement is no comment and its own directive switches it
off.  Otherwise the containers around the statement decide that are no branches, the innermost
first.  Up to there each has contributed the directive of its header and those of the comments it
has heard; the first that has contributed one that speaks of the pass decides, by the last such
one. -/
theorem disables_eq_isOff (f : File) {pass : String} (hp : pass ≠ Frame.everyPass) :
    f.meetings.map (fun m => (m.1, m.2.disables pass m.1)) =
      f.sites.mapIdx fun k x => (x.statement, x.isOff pass (f.sites.take (k + 1))) := by
  have h := Scope.Hearing.disables_meetings hp f.steps .empty
  simp only [List.nil_append] at h
  exact h

set_option maxRecDepth 100000 in
/-- A comment in front of the first header switches a pass off in the whole file, one in a test
case switches it on again up to the end of the test case. -/
theorem disables_eq_isOff_of_comments :
    let f := parse "# fmt: off\n*** Test Cases ***\nA\n    Log\n    # fmt: on=ALIGN\n    Log\nB\n"
    "ALIGN" ≠ Frame.everyPass ∧
      (f.sites.mapIdx fun k x => (x.statement, x.isOff "ALIGN" (f.sites.take (k + 1)))).map (·.2) =
        [true, true, true, true, false, false, true] := by
  intro f
  have hp : "ALIGN" ≠ Frame.everyPass := by decide
  refine ⟨hp, ?_⟩
  rw [← disables_eq_isOff f hp]
  decide +kernel

end RobotSuite
