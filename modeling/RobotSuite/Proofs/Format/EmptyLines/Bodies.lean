/-
# Bodies without empty lines in a row

Without directives a walk shows nothing but how far it has come, so what it does can be written
down.  It ends the last statement of the file with a line break (`onStatement_calm`), and of the
empty lines in a row in a control block or branch it leaves one (`onBody_calm`).  What comes out is
a body of which each item is an empty line or compact, with the same statements but for empty lines
(`Relaid`, `onItems_calm`).
-/

import Mathlib.Data.List.Flatten
import RobotSuite.Proofs.Format.DisabledRegions
import RobotSuite.Proofs.Format.EmptyLines.LineGaps
import RobotSuite.Proofs.Format.Gaps.HiddenGaps
import RobotSuite.Proofs.Format.OrderSettings.Order
import RobotSuite.Proofs.Statement.Clear
import RobotSuite.Proofs.Transform.Mirrors

namespace RobotSuite

/-- A statement without flaws and without directive. -/
structure Statement.IsCalm (s : Statement) : Prop where
  flaws : s.flaws = []
  silent : s.directive? = none

/-- Statements of which perhaps some empty lines have gone. -/
structure Thinned (old new : List Statement) : Prop where
  sublist : new.Sublist old
  contents : contents new = contents old

namespace Thinned
variable {a b c d : List Statement}

@[refl] theorem refl (a : List Statement) : Thinned a a := ⟨.refl a, rfl⟩

theorem trans (h : Thinned a b) (h' : Thinned b c) : Thinned a c :=
  ⟨h'.sublist.trans h.sublist, h'.contents.trans h.contents⟩

/-- Statements one behind the other are thinned if each of them are. -/
theorem append (h : Thinned a b) (h' : Thinned c d) : Thinned (a ++ c) (b ++ d) := by
  refine ⟨h.sublist.append h'.sublist, ?_⟩
  rw [contents_append, contents_append, h.contents, h'.contents]

/-- A statement that stays is in front of what is thinned. -/
theorem cons (s : Statement) (h : Thinned a b) : Thinned (s :: a) (s :: b) :=
  append (.refl [s]) h

end Thinned

/-- A statement without flaws has none with a line break at its end. -/
theorem flaws_terminate {s : Statement} (h : s.flaws = []) (newline : String) :
    (s.terminate newline).flaws = [] := by
  rcases terminate_of_flaws h newline with heq | ⟨ts, e, hs, he, heq⟩
  · rwa [heq]
  · rw [heq]
    exact flaws_ending h hs he newline

/-- An empty line has no flaw. -/
theorem flaws_emptyLine (newline : String) : (Statement.emptyLine newline).flaws = [] := by
  have htokens : tokenFlaws .emptyLine [Token.create .eol newline] = [] := by
    rw [tokenFlaws, List.isEmpty_nil, Bool.not_true, Bool.and_false]
    rfl
  have hparts : (Statement.emptyLine newline).flaws =
    [] ++ tokenFlaws .emptyLine [Token.create .eol newline] ++ [] := rfl
  rw [hparts, htokens]
  rfl

/-- The type of a body item, and the number of its statements that are no empty lines. -/
def BodyItem.trait (i : BodyItem) : NodeType × Nat :=
  (i.nodeType, (contents i.statements).length)

/-! ## Calm walks -/

/-- A walk that goes on and has not come to a directive. -/
structure Progress.IsCalm (p : Progress) : Prop where
  scope : p.scope.IsCalm
  off : p.off = []
  broken : p.broken = none

/-- The walk behind some more statements. -/
def Progress.past (p : Progress) (ss : List Statement) : Progress :=
  { p with index := p.index + ss.length }

/-- The walk with a note of whether further blocks follow. -/
def Progress.followed (p : Progress) (follows : Bool) : Progress :=
  { p with blockFollows := follows }

namespace Progress
variable {p : Progress}

/-- Coming past some statements and past others is coming past all. -/
theorem past_past (p : Progress) (a b : List Statement) : (p.past a).past b = p.past (a ++ b) := by
  rw [past, past, past, List.length_append, Nat.add_assoc]

/-- A walk stays calm past statements. -/
theorem IsCalm.past (h : p.IsCalm) (ss : List Statement) : (p.past ss).IsCalm :=
  ⟨h.scope, h.off, h.broken⟩

/-- A walk stays calm whatever follows. -/
theorem IsCalm.followed (h : p.IsCalm) (follows : Bool) : (p.followed follows).IsCalm :=
  ⟨h.scope, h.off, h.broken⟩

/-- A walk stays calm in a container whose header is no directive. -/
theorem IsCalm.enter (h : p.IsCalm) {c : Container}
    (hc : ∀ header ∈ c.header?, header.directive? = none) : (p.enter c).IsCalm :=
  ⟨h.scope.enter hc, h.off, h.broken⟩

/-- Behind a container a calm walk shows what it showed in front of it. -/
theorem leave_past_enter (p : Progress) (c : Container) (ss : List Statement) :
    ((p.enter c).past ss).leave = p.past ss := by
  have hscope : (p.scope.enter c).leave = p.scope := Scope.leave_enter _ _
  show { p with scope := (p.scope.enter c).leave, index := p.index + ss.length } = p.past ss
  rw [hscope, past]

/-- A calm walk takes what is new. -/
theorem IsCalm.settle {α : Type} (h : p.IsCalm) (old new : α) : p.settle old new = new := by
  rw [Progress.settle, h.broken]
  rfl

end Progress

namespace EmptyLines

/-! ## The last statement of a file -/

section
variable {newline : String} {size n : Nat} {s : Statement} {ss : List Statement}

/-- A statement behind `n` others, with a line break if it is the last of `size`. -/
def ended (newline : String) (size n : Nat) (s : Statement) : Statement :=
  if n + 1 = size then s.terminate newline else s

/-- Statements behind `n` others, with a line break at the last if there are `size` in all. -/
def finished (newline : String) (size n : Nat) : List Statement → List Statement
  | [] => []
  | s :: ss => ended newline size n s :: finished newline size (n + 1) ss

/-- What holds of a statement and of the one with a line break holds of what is left. -/
theorem ended_of {P : Statement → Prop} (h : P s) (ht : P (s.terminate newline)) :
    P (ended newline size n s) := by
  rw [ended]
  split
  · exact ht
  · exact h

/-- A line break at the end leaves the type of a statement. -/
@[simp] theorem ended_type (newline : String) (size n : Nat) (s : Statement) :
    (ended newline size n s).type = s.type :=
  ended_of (P := fun r => r.type = s.type) rfl (terminate_type newline s)

/-- A line break at the end leaves empty lines and others what they are. -/
@[simp] theorem ended_isEmptyLine (newline : String) (size n : Nat) (s : Statement) :
    (ended newline size n s).isEmptyLine = s.isEmptyLine := by
  rw [Statement.isEmptyLine, Statement.isEmptyLine, ended_type]

/-- A line break at the end is no flaw. -/
theorem flaws_ended (h : s.flaws = []) : (ended newline size n s).flaws = [] :=
  ended_of (P := fun r => r.flaws = []) h (flaws_terminate h newline)

/-- The last statement of the file is ended wherever it stands. -/
theorem finished_append (newline : String) (size n : Nat) (a b : List Statement) :
    finished newline size n (a ++ b) =
      finished newline size n a ++ finished newline size (n + a.length) b := by
  induction a generalizing n with
  | nil => rfl
  | cons s a ih =>
    rw [List.cons_append, finished, finished, ih, List.length_cons, Nat.add_right_comm n,
      Nat.add_assoc n]
    rfl

/-- A line break at the end leaves as many statements. -/
theorem length_finished (newline : String) (size n : Nat) (ss : List Statement) :
    (finished newline size n ss).length = ss.length := by
  induction ss generalizing n with
  | nil => rfl
  | cons s ss ih => rw [finished, List.length_cons, List.length_cons, ih]

/-- Statements need no line break if neither their first nor their last part does. -/
theorem finished_append_eq_self {a b : List Statement}
    (h : finished newline size n (a ++ b) = a ++ b) :
    finished newline size n a = a ∧ finished newline size (n + a.length) b = b := by
  rw [finished_append] at h
  exact List.append_inj h (length_finished newline size n a)

/-- A line break at the end leaves as many statements that are no empty lines. -/
theorem length_contents_finished (newline : String) (size n : Nat) (ss : List Statement) :
    (contents (finished newline size n ss)).length = (contents ss).length := by
  induction ss generalizing n with
  | nil => rfl
  | cons s ss ih =>
    rw [finished]
    cases hs : s.isEmptyLine with
    | true => rw [contents_line hs, contents_line (by simpa using hs), ih]
    | false =>
      rw [contents_statement hs, contents_statement (by simpa using hs), List.length_cons,
        List.length_cons, ih]

/-- All statements of a file, with a line break at the last. -/
theorem finished_eq_endLast (newline : String) (n : Nat) (ss : List Statement) :
    finished newline (n + ss.length) n ss = endLast newline ss := by
  induction ss generalizing n with
  | nil => rfl
  | cons s ss ih =>
    cases ss with
    | nil =>
      have hone : n + 1 = n + [s].length := rfl
      rw [finished, ended, if_pos hone]
      rfl
    | cons r ss =>
      have hrest := ih (n + 1)
      rw [Nat.add_right_comm] at hrest
      have hne : n + 1 ≠ n + (s :: r :: ss).length := by
        rw [List.length_cons, List.length_cons]
        omega
      have hend : endLast newline ([s] ++ r :: ss) = _ := endLast_append [s] (List.cons_ne_nil r ss)
      rw [finished, ended, if_neg hne, List.length_cons]
      exact (congrArg (s :: ·) hrest).trans hend.symm

end

/-- The transform of a file whose last statement is given. -/
def transform (spacing : Spacing) (final : Option (Nat × Statement)) : Transform :=
  { name := info.name
    statement := fun scope index s =>
      if isFinal final index s && !scope.disables info.name s &&
          !(s.lastEol.any fun t => t.value != "") then
        .put (s.terminate spacing.newline)
      else .keep
    leaveBody := leaveBody spacing
    leaveSection := fun place header => spaceSection spacing place (header.map (·.2)) }

/-- What the transform decides about a statement is to end it with a line break. -/
theorem statement_decision (spacing : Spacing) {final : Option (Nat × Statement)} {size : Nat}
    (hfinal : ∀ n s, isFinal final n s = decide (n + 1 = size)) {sc : Scope} {s : Statement}
    (hs : s.IsCalm) (hsc : sc.IsCalm) (n : Nat) :
    (transform spacing final).statement sc n s = .put (ended spacing.newline size n s) ∨
      (transform spacing final).statement sc n s = .keep ∧
        ended spacing.newline size n s = s := by
  have hdecision : (transform spacing final).statement sc n s =
      if decide (n + 1 = size) && !false && !(s.lastEol.any fun t => t.value != "") then
        .put (s.terminate spacing.newline) else .keep := by
    rw [← hfinal n s, ← hsc.disables hs.silent info.name]
    rfl
  rw [hdecision, ended]
  by_cases hn : n + 1 = size
  · rw [if_pos hn]
    by_cases hbreak : ∃ t, s.lastEol = some t ∧ t.value ≠ ""
    · refine .inr ⟨?_, terminate_of_terminated hbreak⟩
      obtain ⟨t, ht, hv⟩ := hbreak
      simp [ht, hv]
    · refine .inl (if_pos ?_)
      cases ht : s.lastEol with
      | none => simp [hn]
      | some t =>
        have hv : t.value = "" := by
          by_contra hv
          exact hbreak ⟨t, ht, hv⟩
        simp [hn, hv]
  · rw [if_neg hn]
    exact .inr ⟨by simp [hn], rfl⟩

/-! ## Items that no directive protects -/

section
variable {α : Type} {isEmpty : α → Bool}

/-- Items that no directive protects. -/
def unprotected (xs : List α) : List (Marked α) := xs.map fun x => (x, false)

/-- Items without protection are the items. -/
@[simp] theorem unmark_unprotected (xs : List α) : unmark (unprotected xs) = xs := by
  simp [unmark, unprotected, Function.comp_def]

/-- There are as many items without protection. -/
@[simp] theorem length_unprotected (xs : List α) : (unprotected xs).length = xs.length :=
  List.length_map _

/-- Items without protection end with no mark. -/
theorem lastMark_unprotected (xs : List α) : lastMark false (unprotected xs) = false := by
  rw [lastMark, unprotected, List.getLast?_map]
  cases xs.getLast? <;> rfl

/-- Without protection rows of empty lines are squeezed. -/
theorem collapse_unprotected (behind : Bool) (xs : List α) :
    collapse isEmpty behind (unprotected xs) = unprotected (squeeze isEmpty behind xs) := by
  induction xs generalizing behind with
  | nil => rfl
  | cons x xs ih =>
    rw [unprotected, List.map_cons, collapse, squeeze_cons, isRemovable, Bool.not_false, Bool.and_true]
    split
    · rename_i hx
      rw [Bool.and_eq_true] at hx
      rw [hx.1]
      exact ih true
    · exact congrArg ((x, false) :: ·) (ih _)

/-- Nothing hinders that some of the items stay. -/
theorem carryOut_keepSome {p : Progress} {old new : List (Marked α)}
    {issues : List (Marked α) → List Issue} (hsub : new.Sublist old) (hi : issues new = []) :
    p.carryOut old issues (keepSome old.length new) = (new, p) := by
  rw [keepSome]
  split
  · rename_i hlength
    rw [hsub.eq_of_length hlength]
    rfl
  · rw [Progress.carryOut, hi]

end

/-! ## Bodies -/

/-- Where one empty line at most stands in front, one at most stands at the end and between two
statements. -/
def Loose (ss : List Statement) : Prop :=
  ∀ n, n ≤ 1 → ∃ m, m ≤ 1 ∧ Fitted n (rooms (.atMost 1) (.atMost 1) ss) ss m

/-- Statements one behind the other are loose if each of them are. -/
theorem Loose.append {a b : List Statement} (ha : Loose a) (hb : Loose b) : Loose (a ++ b) := by
  intro n hn
  obtain ⟨m, hm, hfa⟩ := ha n hn
  obtain ⟨k, hk, hfb⟩ := hb m hm
  rw [rooms_same_append]
  exact ⟨k, hk, hfa.append hfb⟩

/-- The statements of a branch, and the beginning of a control block. -/
theorem loose_cons {s : Statement} {ss : List Statement} {k : Nat} (hs : s.isEmptyLine = false)
    (h : Fitted 0 (rooms (.atMost 1) (.atMost 1) ss) ss k) (hk : k ≤ 1) : Loose (s :: ss) := by
  intro n hn
  rw [rooms_statement hs]
  exact ⟨k, hk, .statement hs hn h⟩

/-- Statements between a header and an END. -/
theorem compact_enclosed {s t : Statement} {mid : List Statement} {k : Nat}
    (hs : s.isEmptyLine = false) (ht : t.isEmptyLine = false)
    (h : Fitted 0 (rooms (.atMost 1) (.atMost 1) mid) mid k) (hk : k ≤ 1) :
    Compact (s :: (mid ++ [t])) := by
  intro n first hr
  rw [rooms_statement hs, rooms_same_append]
  exact .statement hs hr (h.append (compact_singleton ht k (.atMost 1) hk))

/-! ## Bodies inside bodies -/

mutual

/-- Whether no two empty lines stand in a row in any body of a control block. -/
def controlTidy : ControlBlock → Prop
  | ⟨_, _, _, body, branches, _, _⟩ =>
    squeeze isEmptyItem false body = body ∧ bodyTidy body ∧ branchesTidy branches

/-- Whether no two empty lines stand in a row in any body inside a body. -/
def bodyTidy : List BodyItem → Prop
  | [] => True
  | .statement _ :: items => bodyTidy items
  | .control c :: items => controlTidy c ∧ bodyTidy items

/-- Whether no two empty lines stand in a row in any body of some branches. -/
def branchesTidy : List Branch → Prop
  | [] => True
  | ⟨_, _, body, _⟩ :: bs =>
    (squeeze isEmptyItem false body = body ∧ bodyTidy body) ∧ branchesTidy bs

end

/-- A body is tidy if its control blocks are. -/
theorem bodyTidy_iff {items : List BodyItem} :
    bodyTidy items ↔ ∀ c, .control c ∈ items → controlTidy c := by
  induction items with
  | nil => simp [bodyTidy]
  | cons i items ih => cases i <;> simp [bodyTidy, ih]

/-- Items one behind the other are tidy if each of them are. -/
theorem bodyTidy_append {a b : List BodyItem} :
    bodyTidy (a ++ b) ↔ bodyTidy a ∧ bodyTidy b := by
  simp only [bodyTidy_iff, List.mem_append, or_imp, forall_and]

/-- Fewer items hold no other bodies. -/
theorem bodyTidy_of_subset {a b : List BodyItem} (h : bodyTidy b) (hsub : a ⊆ b) : bodyTidy a :=
  bodyTidy_iff.2 fun c hc => bodyTidy_iff.1 h c (hsub hc)

/-- A body behind `n` statements, and what a walk has made of it: nothing, if nothing is left to
do. -/
structure Relaid (newline : String) (size n : Nat) (old new : List BodyItem) : Prop where
  parts : ∀ i ∈ new, IsPart isEmptyItem BodyItem.statements i
  traits : new.map BodyItem.trait = old.map BodyItem.trait
  thinned : Thinned (finished newline size n (bodyStatements old)) (bodyStatements new)
  holds : bodyHolds (fun s => s.flaws = []) new
  tidy : bodyTidy new
  rests : bodyTidy old →
    finished newline size n (bodyStatements old) = bodyStatements old → new = old

/-- Branches behind `n` statements, and what a walk has made of them. -/
structure RelaidBranches (newline : String) (size n : Nat) (type : ControlType)
    (old new : List Branch) : Prop where
  holds : branchesHold (fun s => s.flaws = []) type new
  loose : Loose (branchesStatements new)
  thinned : Thinned (finished newline size n (branchesStatements old)) (branchesStatements new)
  tidy : branchesTidy new
  rests : branchesTidy old →
    finished newline size n (branchesStatements old) = branchesStatements old → new = old

section
variable {newline : String} {size n : Nat} {a b c d : List BodyItem}

/-- Items one behind the other are what the walk leaves if each of them are. -/
theorem Relaid.append (h : Relaid newline size n a b)
    (h' : Relaid newline size (n + (bodyStatements a).length) c d) :
    Relaid newline size n (a ++ c) (b ++ d) where
  parts := List.forall_mem_append.2 ⟨h.parts, h'.parts⟩
  traits := by rw [List.map_append, List.map_append, h.traits, h'.traits]
  thinned := by
    rw [bodyStatements_append, bodyStatements_append, finished_append]
    exact h.thinned.append h'.thinned
  holds := bodyHolds_append.2 ⟨h.holds, h'.holds⟩
  tidy := bodyTidy_append.2 ⟨h.tidy, h'.tidy⟩
  rests htidy hend := by
    obtain ⟨hfront, hback⟩ := bodyTidy_append.1 htidy
    rw [bodyStatements_append] at hend
    obtain ⟨hendFront, hendBack⟩ := finished_append_eq_self hend
    rw [h.rests hfront hendFront, h'.rests hback hendBack]

/-- The statements of a statement. -/
theorem bodyStatements_statement (s : Statement) : bodyStatements [.statement s] = [s] := by
  rw [bodyStatements, BodyItem.statements, bodyStatements, List.append_nil]

/-- The statements of a control block. -/
theorem bodyStatements_control (c : ControlBlock) :
    bodyStatements [.control c] = c.statements := by
  rw [bodyStatements, BodyItem.statements, bodyStatements, List.append_nil]

/-- A single statement, which may get a line break. -/
theorem relaid_statement {s : Statement} (ht : s.type.inBody = true) (hs : s.flaws = []) :
    Relaid newline size n [.statement s] [.statement (ended newline size n s)] := by
  have hempty : isEmptyItem (.statement (ended newline size n s)) =
      (ended newline size n s).isEmptyLine := rfl
  have hcount := length_contents_finished newline size n [s]
  refine ⟨List.forall_mem_singleton.2 ⟨fun he => ?_, fun he => ?_⟩, ?_, ?_, ?_, trivial,
    fun _ hend => ?_⟩
  · rw [BodyItem.statements]
    exact ⟨_, rfl, hempty ▸ he⟩
  · rw [BodyItem.statements]
    exact compact_singleton (hempty ▸ he)
  · rw [List.map_singleton, List.map_singleton, BodyItem.trait, BodyItem.trait,
      BodyItem.statements, BodyItem.statements]
    show [((NodeType.statement (ended newline size n s).type), _)] = [(.statement s.type, _)]
    rw [ended_type]
    exact congrArg (fun k => [(NodeType.statement s.type, k)]) hcount
  · rw [bodyStatements_statement, bodyStatements_statement]
    exact .refl _
  · rw [bodyHolds, BodyItem.Holds, ended_type]
    exact ⟨⟨ht, flaws_ended hs⟩, trivial⟩
  · rw [bodyStatements_statement] at hend
    exact congrArg (fun r => [BodyItem.statement r]) (List.cons.inj hend).1

/-- What squeezing leaves of a body. -/
theorem Relaid.squeezed (h : Relaid newline size n a b) :
    Thinned (finished newline size n (bodyStatements a))
        (bodyStatements (squeeze isEmptyItem false b)) ∧
      bodyHolds (fun s => s.flaws = []) (squeeze isEmptyItem false b) ∧
      bodyTidy (squeeze isEmptyItem false b) ∧
      ∃ k, k ≤ 1 ∧ Fitted 0
        (rooms (.atMost 1) (.atMost 1) (bodyStatements (squeeze isEmptyItem false b)))
        (bodyStatements (squeeze isEmptyItem false b)) k := by
  have hsub : (squeeze isEmptyItem false b).Sublist b := sublist_squeeze false b
  have hfit := fitted_squeeze h.parts false
  have hcontents := contents_squeeze h.parts false
  have hstatements := hsub.flatMap BodyItem.statements
  rw [← bodyStatements_eq_flatMap, ← bodyStatements_eq_flatMap] at hcontents hstatements
  rw [← bodyStatements_eq_flatMap] at hfit
  refine ⟨h.thinned.trans ⟨hstatements, hcontents⟩, ?_, bodyTidy_of_subset h.tidy hsub.subset, _,
    Bool.toNat_le _, hfit⟩
  rw [bodyHolds_iff]
  exact fun i hi => bodyHolds_iff.1 h.holds i (hsub.subset hi)

/-- A control block whose parts have been walked through. -/
theorem relaid_control {type : ControlType} {span : Span} {header close : Statement}
    {body items : List BodyItem} {branches bs : List Branch} {label : Option Nat}
    (htype : header.type = type.opener) (hheader : header.flaws = [])
    (hitems : Relaid newline size (n + 1) body items)
    (hbs : RelaidBranches newline size (n + 1 + (bodyStatements body).length) type branches bs)
    (hclose : close.type = .blockEnd) (hend : close.flaws = []) :
    Relaid newline size n
      [.control ⟨type, span, header, body, branches, some close, label⟩]
      [.control ⟨type, span, ended newline size n header, squeeze isEmptyItem false items, bs,
        some (ended newline size (n + 1 + (bodyStatements body).length +
          (branchesStatements branches).length) close), label⟩] := by
  obtain ⟨hthinned, hholds, htidy, k, hk, hfit⟩ := hitems.squeezed
  obtain ⟨m, hm, hbranches⟩ := hbs.loose k hk
  have hwhole : Thinned
      (finished newline size n (ControlBlock.statements
        ⟨type, span, header, body, branches, some close, label⟩))
      (ControlBlock.statements ⟨type, span, ended newline size n header,
        squeeze isEmptyItem false items, bs, some (ended newline size (n + 1 +
          (bodyStatements body).length + (branchesStatements branches).length) close), label⟩) := by
    rw [ControlBlock.statements, ControlBlock.statements, finished, finished_append,
      finished_append, List.length_append, ← Nat.add_assoc]
    exact ((hthinned.append hbs.thinned).append (.refl _)).cons _
  refine ⟨List.forall_mem_singleton.2 ⟨fun he => ?_, fun _ => ?_⟩, ?_, ?_, ?_, ?_,
    fun hold hend => ?_⟩
  · cases he
  · have hopener : (ended newline size n header).isEmptyLine = false := by
      rw [ended_isEmptyLine, Statement.isEmptyLine, htype]
      cases type <;> rfl
    rw [BodyItem.statements, ControlBlock.statements]
    have hinner := hfit.append hbranches
    rw [← rooms_same_append] at hinner
    refine compact_enclosed hopener ?_ hinner hm
    rw [ended_isEmptyLine, Statement.isEmptyLine, hclose]
    rfl
  · have hcount := congrArg List.length hwhole.contents
    rw [length_contents_finished] at hcount
    rw [List.map_singleton, List.map_singleton, BodyItem.trait, BodyItem.trait,
      BodyItem.statements, BodyItem.statements, hcount]
    rfl
  · rw [bodyStatements_control, bodyStatements_control]
    exact hwhole
  · rw [bodyHolds, BodyItem.Holds, ControlBlock.Holds, ended_type]
    exact ⟨⟨⟨htype, flaws_ended hheader⟩, hholds, hbs.holds, _, rfl,
      (ended_type _ _ _ _).trans hclose, flaws_ended hend⟩, trivial⟩
  · exact ⟨⟨squeeze_squeeze _ _, htidy, hbs.tidy⟩, trivial⟩
  · obtain ⟨⟨hsqueezed, hbody, hbranches⟩, -⟩ := hold
    rw [bodyStatements_control, ControlBlock.statements, finished] at hend
    obtain ⟨hopener, hend⟩ := List.cons.inj hend
    obtain ⟨hend, hcloser⟩ := finished_append_eq_self hend
    obtain ⟨hendBody, hendBranches⟩ := finished_append_eq_self hend
    rw [List.length_append, ← Nat.add_assoc] at hcloser
    rw [hopener, hitems.rests hbody hendBody, hsqueezed, hbs.rests hbranches hendBranches,
      (List.cons.inj hcloser).1]

end

/-! ## Walks through bodies -/

section
variable (spacing : Spacing) {final : Option (Nat × Statement)} {size : Nat}

/-- A calm walk ends the last statement of the file and leaves the others. -/
theorem onStatement_calm (hfinal : ∀ n s, isFinal final n s = decide (n + 1 = size))
    {p : Progress} (hp : p.IsCalm) {s : Statement} (hs : s.IsCalm) :
    (transform spacing final).onStatement p s =
      ((ended spacing.newline size p.index s, false), p.past [s]) := by
  have hnote : p.scope.note s = p.scope := Scope.note_of_directive? hs.silent
  have hoff : p.scope.disables (transform spacing final).name s = false :=
    hp.scope.disables hs.silent info.name
  have hmet : (transform spacing final).met p s = p.past [s] := by
    rw [Transform.met, hnote, hoff]
    rfl
  have hissues : replacementIssues s (ended spacing.newline size p.index s) = [] := by
    rw [replacementIssues, if_pos (ended_type _ _ _ _), Statement.issues, flaws_ended hs.flaws]
    rfl
  rw [Transform.onStatement_eq, hp.broken, hnote, hmet, hoff]
  rcases statement_decision spacing hfinal hs hp.scope p.index with hput | ⟨hkeep, hsame⟩
  · rw [hput, Progress.carryOut, hissues]
  · rw [hkeep, hsame]
    rfl

/-- Of the items of a control block or branch that are left the empty lines in a row go. -/
theorem onBody_calm (final : Option (Nat × Statement)) {p : Progress} (hp : p.IsCalm)
    {type : NodeType} (hparent : p.scope.parent?.map Container.type = some type)
    (htype : ∀ b, type ≠ .block b) {items : List BodyItem}
    (hi : bodyHolds (fun s => s.flaws = []) (squeeze isEmptyItem false items)) (header : Bool) :
    (transform spacing final).onBody p header (unprotected items) =
      (unprotected (squeeze isEmptyItem false items), p) := by
  have hleave : (transform spacing final).leaveBody p.place header (unprotected items) =
      keepSome (unprotected items).length (unprotected (squeeze isEmptyItem false items)) := by
    have hplace : p.place.scope.parent?.map Container.type = some type := hparent
    show leaveBody spacing p.place header (unprotected items) = _
    rw [leaveBody_eq, hplace]
    split
    · rename_i b hb
      exact absurd (Option.some.inj hb) (htype b)
    · rw [spaceBody, collapse_unprotected]
  have hissues : bodyIssues (unmark (unprotected (squeeze isEmptyItem false items))) = [] := by
    rw [unmark_unprotected]
    exact bodyIssues_of_holds hi fun s hs => (bodyHolds_statements hi s hs).1
  rw [Transform.onBody, hp.broken]
  dsimp only
  rw [Progress.remark_of_off_eq_nil hp.off, hleave]
  exact carryOut_keepSome ((sublist_squeeze _ _).map _) hissues

variable (hfinal : ∀ n s, isFinal final n s = decide (n + 1 = size))
include hfinal

mutual

/-- A calm walk leaves a control block with single empty lines. -/
theorem onControl_calm {p : Progress} (hp : p.IsCalm) :
    ∀ {c : ControlBlock}, c.Holds Statement.IsCalm →
      ∃ new, (transform spacing final).onControl p c = ((new, false), p.past c.statements) ∧
        Relaid spacing.newline size p.index [.control c] [.control new]
  | ⟨type, span, header, body, branches, close, label⟩, h => by
    rw [ControlBlock.Holds] at h
    obtain ⟨⟨htype, hheader⟩, hbody, hbranches, s, rfl, hs, hclose⟩ := h
    let c : Container := .control ⟨type, span, header, body, branches, some s, label⟩
    have hp0 : (p.enter c).IsCalm := hp.enter fun r hr => by
      obtain rfl : header = r := Option.some.inj hr
      exact hheader.silent
    have hindex : (p.enter c).index = p.index := rfl
    have hparent : (p.enter c).scope.parent?.map Container.type = some (.control type) := rfl
    have hleave := p.leave_past_enter c
    rw [Transform.onControl]
    dsimp only
    generalize p.enter c = p0 at hp0 hindex hparent hleave ⊢
    rw [← hindex]
    have h1 := onStatement_calm spacing hfinal hp0 hheader
    obtain ⟨items, h2, hitems⟩ := onItems_calm (hp0.past [header]) hbody
    obtain ⟨bs, h3, hbs⟩ :=
      onBranches_calm ((hp0.past [header]).past (bodyStatements body)) hbranches
    have hp3 := ((hp0.past [header]).past (bodyStatements body)).past (branchesStatements branches)
    have h4 := onStatement_calm spacing hfinal hp3 hclose
    have h5 := onBody_calm spacing final (hp3.past [s]) hparent nofun hitems.squeezed.2.1 false
    have hat : (p0.past (header :: (bodyStatements body ++ branchesStatements branches))).index =
        p0.index + 1 + (bodyStatements body).length + (branchesStatements branches).length := by
      rw [Progress.past, List.length_cons, List.length_append]
      dsimp only
      omega
    refine ⟨_, ?_, relaid_control htype hheader.flaws hitems hbs hs hclose.flaws⟩
    rw [h1, h2]
    dsimp only
    rw [h3]
    dsimp only
    rw [Transform.onStatement?, h4]
    dsimp only
    rw [h5]
    dsimp only
    rw [unmark_unprotected, unmark_unprotected, (hp3.past [s]).settle, (hp3.past [s]).settle,
      Progress.past_past, Progress.past_past, Progress.past_past, hleave, ControlBlock.statements,
      List.singleton_append, List.cons_append, hat, Option.map_some, Option.map_some]
    rfl

/-- A calm walk leaves items with single empty lines in their control blocks. -/
theorem onItems_calm {p : Progress} (hp : p.IsCalm) :
    ∀ {items : List BodyItem}, bodyHolds Statement.IsCalm items →
      ∃ new, (transform spacing final).onItems p items =
          (unprotected new, p.past (bodyStatements items)) ∧
        Relaid spacing.newline size p.index items new
  | [], _ => by
    refine ⟨[], ?_, ⟨by simp, rfl, .refl [], trivial, trivial, fun _ _ => rfl⟩⟩
    rw [Transform.onItems]
    rfl
  | .statement s :: items, h => by
    rw [bodyHolds, BodyItem.Holds] at h
    obtain ⟨new, hwalk, hnew⟩ := onItems_calm (hp.past [s]) h.2
    have hfirst : Relaid spacing.newline size p.index [.statement s] _ :=
      relaid_statement h.1.1 h.1.2.flaws
    refine ⟨_, ?_, hfirst.append hnew⟩
    rw [Transform.onItems, Transform.onItem, onStatement_calm spacing hfinal hp h.1.2]
    dsimp only
    rw [hwalk, Progress.past_past, bodyStatements, BodyItem.statements]
    rfl
  | .control c :: items, h => by
    rw [bodyHolds, BodyItem.Holds] at h
    obtain ⟨block, hblock, hfirst⟩ := onControl_calm hp h.1
    obtain ⟨new, hwalk, hnew⟩ := onItems_calm (hp.past c.statements) h.2
    rw [← bodyStatements_control] at hwalk hnew
    refine ⟨_, ?_, hfirst.append hnew⟩
    rw [Transform.onItems, Transform.onItem, hblock]
    dsimp only
    rw [← bodyStatements_control, hwalk, Progress.past_past, ← bodyStatements_append]
    rfl

/-- A calm walk leaves branches with single empty lines. -/
theorem onBranches_calm {p : Progress} (hp : p.IsCalm) {type : ControlType} :
    ∀ {bs : List Branch}, branchesHold Statement.IsCalm type bs →
      ∃ new, (transform spacing final).onBranches p bs =
          (unprotected new, p.past (branchesStatements bs)) ∧
        RelaidBranches spacing.newline size p.index type bs new
  | [], _ => by
    refine ⟨[], ?_, trivial, fun n hn => ⟨n, hn, .nil n⟩, .refl [], trivial, fun _ _ => rfl⟩
    rw [Transform.onBranches]
    rfl
  | ⟨span, header, body, label⟩ :: bs, h => by
    rw [branchesHold, Branch.Holds] at h
    obtain ⟨⟨⟨htype, hheader⟩, hbody⟩, hrest⟩ := h
    let c : Container := .branch ⟨span, header, body, label⟩
    have hp0 : (p.enter c).IsCalm := hp.enter fun r hr => by
      obtain rfl : header = r := Option.some.inj hr
      exact hheader.silent
    have hindex : (p.enter c).index = p.index := rfl
    have hparent : (p.enter c).scope.parent?.map Container.type = some .branch := rfl
    have hleave := p.leave_past_enter c
    rw [Transform.onBranches, Transform.onBranch]
    dsimp only
    generalize p.enter c = p0 at hp0 hindex hparent hleave ⊢
    have h1 := onStatement_calm spacing hfinal hp0 hheader
    obtain ⟨items, h2, hitems⟩ := onItems_calm (hp0.past [header]) hbody
    have hp2 := (hp0.past [header]).past (bodyStatements body)
    have h3 := onBody_calm spacing final hp2 hparent nofun hitems.squeezed.2.1 false
    obtain ⟨new, h4, hnew⟩ :=
      onBranches_calm (hp.past (Branch.statements ⟨span, header, body, label⟩)) hrest
    obtain ⟨hthinned, hholds, htidy, k, hk, hfit⟩ := hitems.squeezed
    have hbranch : header.type ≠ .emptyLine := by
      intro hempty
      rw [hempty] at htype
      cases type <;> simp [ControlType.branchHeaders] at htype
    have hheaderLine : (ended spacing.newline size p0.index header).isEmptyLine = false := by
      simpa [Statement.isEmptyLine] using hbranch
    rw [h1, h2]
    dsimp only
    rw [h3]
    dsimp only
    rw [unmark_unprotected, hp2.settle, Progress.past_past, hleave, lastMark_unprotected]
    have hstatements : Branch.statements ⟨span, header, body, label⟩ =
        [header] ++ bodyStatements body := rfl
    rw [← hstatements, h4]
    let first : Branch := ⟨span, ended spacing.newline size p0.index header,
      squeeze isEmptyItem false items, label⟩
    refine ⟨first :: new, ?_, ?_, ?_, ?_, ?_, fun hold hend => ?_⟩
    · rw [Progress.past_past]
      rfl
    · rw [branchesHold, Branch.Holds, ended_type]
      exact ⟨⟨⟨htype, flaws_ended hheader.flaws⟩, hholds⟩, hnew.holds⟩
    · exact (loose_cons hheaderLine hfit hk).append hnew.loose
    · have hwhole : Thinned (finished spacing.newline size p.index
          (Branch.statements ⟨span, header, body, label⟩)) first.statements := by
        rw [← hindex]
        exact hthinned.cons _
      rw [branchesStatements, branchesStatements, finished_append]
      exact hwhole.append hnew.thinned
    · exact ⟨⟨squeeze_squeeze _ _, htidy⟩, hnew.tidy⟩
    · obtain ⟨⟨hsqueezed, hbodyTidy⟩, hbranches⟩ := hold
      rw [branchesStatements] at hend
      obtain ⟨hendFirst, hendRest⟩ := finished_append_eq_self hend
      rw [hstatements, List.singleton_append, finished, ← hindex] at hendFirst
      obtain ⟨hopener, hendBody⟩ := List.cons.inj hendFirst
      have hsame : first = ⟨span, header, body, label⟩ := by
        show (⟨span, ended spacing.newline size p0.index header, squeeze isEmptyItem false items,
          label⟩ : Branch) = _
        rw [hopener, hitems.rests hbodyTidy hendBody, hsqueezed]
      rw [hsame, hnew.rests hbranches hendRest]

end

end

end EmptyLines
end RobotSuite
