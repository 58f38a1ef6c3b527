/-
# What checked replacements keep

Each replacement of a transform is checked by itself, before it is carried out.  A statement is
checked with its type, the items of a body one by one, and the items of a section also for line
breaks between them.  So a valid file may only lose line breaks: behind any transform nothing else
is wrong with it (`Transform.issues_run`).  Line breaks it can lose indeed, since neither a
statement nor a body is checked for what stands behind it (`Transform.valid_not_kept`).
-/

import RobotSuite.Proofs.Transform.Run
import RobotSuite.Tree.Parse

namespace RobotSuite

/-! ## Line breaks in a file -/

/-- A line break that is missing in front of other text. -/
def Flaw.IsMissingBreak : Flaw → Prop
  | .missingBreak _ | .openSection => True
  | _ => False

/-- A file in which no line break is missing in front of other text. -/
structure File.BreaksLines (f : File) : Prop where
  /-- Between the statements of the items of a section. -/
  inside : ∀ s ∈ f.sections, separated (itemsStatements s.body)
  /-- Between a section and the next one. -/
  between : ∀ s ∈ f.sections.dropLast, s.openEnd? = none

section
variable {f : File}

/-- **A file is valid if it is well placed and no line break is missing.** -/
theorem File.issues_eq_nil_iff : f.issues = [] ↔ f.WellPlaced ∧ f.BreaksLines := by
  rw [File.issues, sectionsIssues, List.append_eq_nil_iff, eachSectionIssues_true,
    List.map_eq_nil_iff, List.filterMap_eq_nil_iff]
  constructor
  · rintro ⟨⟨hsections, hheaders⟩, hends⟩
    have heach s hs := section_issues_iff.1 (hsections s hs)
    exact ⟨⟨fun s hs => (heach s hs).1, hheaders⟩, fun s hs => (heach s hs).2, hends⟩
  · rintro ⟨hplaced, hbreaks⟩
    refine ⟨⟨fun s hs => ?_, hplaced.headers⟩, hbreaks.between⟩
    exact section_issues_iff.2 ⟨hplaced.sections s hs, hbreaks.inside s hs⟩

/-- What is found between statements is a missing line break. -/
theorem isMissingBreak_of_mem_breakIssues {ss : List Statement} :
    ∀ issue ∈ breakIssues ss, issue.flaw.IsMissingBreak := by
  intro issue h
  obtain ⟨s, -, rfl⟩ := List.mem_map.1 h
  trivial

/-- In a section that is well placed only line breaks can be missing. -/
theorem Section.WellPlaced.isMissingBreak {s : Section} (h : s.WellPlaced) :
    ∀ issue ∈ s.issues, issue.flaw.IsMissingBreak := by
  intro issue hissue
  rw [Section.issues, sectionIssues, h.items, List.nil_append, List.mem_append] at hissue
  rcases hissue with hissue | hissue
  · cases hh : s.header with
    | none => simp [hh] at hissue
    | some r => simp [hh, h.header r hh] at hissue
  · exact isMissingBreak_of_mem_breakIssues issue hissue

/-- Whether or not the first of some sections is the first of its file. -/
theorem isMissingBreak_of_mem_each {first : Bool} {ss : List Section}
    (hs : ∀ s ∈ ss, s.WellPlaced) (hh : ∀ s ∈ ss.tail, s.header ≠ none)
    (hfirst : first = false → ∀ s ∈ ss, s.header ≠ none) :
    ∀ issue ∈ eachSectionIssues first ss, issue.flaw.IsMissingBreak := by
  induction ss generalizing first with
  | nil => simp [eachSectionIssues]
  | cons s ss ih =>
    rw [List.forall_mem_cons] at hs
    have hlate : (s.header.isNone && !first) = false := by
      cases first with
      | true => simp
      | false => simpa [Option.isSome_iff_ne_none] using hfirst rfl s List.mem_cons_self
    intro issue hissue
    rw [eachSectionIssues, hlate, if_neg Bool.false_ne_true, List.nil_append,
      List.mem_append] at hissue
    rcases hissue with hissue | hissue
    · exact hs.1.isMissingBreak issue hissue
    · exact ih hs.2 (fun r hr => hh r (List.mem_of_mem_tail hr)) (fun _ => hh) issue hissue

/-- **In a file that is well placed only line breaks can be missing.** -/
theorem File.WellPlaced.isMissingBreak (h : f.WellPlaced) :
    ∀ issue ∈ f.issues, issue.flaw.IsMissingBreak := by
  intro issue hissue
  rw [File.issues, sectionsIssues, List.mem_append] at hissue
  rcases hissue with hissue | hissue
  · exact isMissingBreak_of_mem_each h.sections h.headers (by simp) issue hissue
  · obtain ⟨s, -, rfl⟩ := List.mem_map.1 hissue
    trivial

end

/-! ## Single nodes -/

/-- What a decision makes of a node.  Something with which nothing is wrong takes its place, and
in all other cases the node stays as it was. -/
def Decision.outcome {α : Type} (old : α) (issues : α → List Issue) : Decision α → α
  | .put new => if issues new = [] then new else old
  | _ => old

/-- Where everything can be checked, a guard changes no decision. -/
theorem Decision.guarded_of_false {α : Type} {fails : α → Bool} (h : ∀ new, fails new = false)
    (d : Decision α) : d.guarded fails = d := by
  cases d with
  | put new => exact if_neg (by simp [h new])
  | keep => rfl
  | breakOff reason => rfl

/-- A guard that lets pass whatever nothing is wrong with makes no difference to where a decision
leads. -/
theorem Decision.outcome_guarded {α : Type} {old : α} {issues : α → List Issue} {fails : α → Bool}
    (h : ∀ new, issues new = [] → fails new = false) (d : Decision α) :
    (d.guarded fails).outcome old issues = d.outcome old issues := by
  cases d with
  | put new =>
    rw [guarded]
    split
    · rename_i hfails
      exact (if_neg fun hi => by simp [h new hi] at hfails).symm
    · rfl
  | keep => rfl
  | breakOff reason => rfl

/-- Carrying a decision out gives its outcome. -/
theorem Progress.carryOut_fst {α : Type} (p : Progress) (old : α) (issues : α → List Issue)
    (d : Decision α) : (p.carryOut old issues d).1 = d.outcome old issues := by
  cases d with
  | keep => rfl
  | put new =>
    rw [carryOut, Decision.outcome]
    split
    · rename_i hissues
      rw [if_pos hissues]
    · rename_i hissues
      rw [if_neg (by simp [hissues])]
  | breakOff reason => rfl

namespace Transform

/-- What a walk that has not broken off makes of the nodes it comes to. -/
structure ChecksNodes (t : Transform) (p : Progress) : Prop where
  statement : ∀ s, (t.onStatement p s).1.1 =
    (t.statement (p.scope.note s) p.index s).outcome s (replacementIssues s)
  body : ∀ header items, unmark (t.onBody p header items).1 =
    unmark ((t.leaveBody p.place header (p.remark BodyItem.statements items)).outcome items
      fun new => bodyIssues (unmark new))
  sect : ∀ kind header items, unmark (t.onSectionBody p kind header items).1 =
    unmark ((t.leaveSection p.place header (p.remark SectionItem.statements items)).outcome items
      fun new => sectionIssues kind (unmark new))
  file : ∀ ss, (t.onFileBody p ss).1 = (t.leaveFile p.place ss).outcome ss sectionsIssues

/-- The marks of items that stay as they are make no difference. -/
theorem unmark_outcome {α : Type} {old old' : List (Marked α)} (h : unmark old = unmark old')
    (issues : List (Marked α) → List Issue) (d : Decision (List (Marked α))) :
    unmark (d.outcome old issues) = unmark (d.outcome old' issues) := by
  cases d with
  | put new =>
    rw [Decision.outcome, Decision.outcome]
    split
    · rfl
    · exact h
  | _ => exact h

/-- A transform that has not broken down checks what it puts in place. -/
theorem checksNodes (t : Transform) {p : Progress} (hp : p.broken = none) : t.ChecksNodes p := by
  constructor
  · intro s
    rw [onStatement, hp]
    exact Progress.carryOut_fst _ _ _ _
  · intro header items
    rw [onBody, hp]
    exact (congrArg unmark (Progress.carryOut_fst _ _ _ _)).trans
      (unmark_outcome (Progress.unmark_remark _ _ _) _ _)
  · intro kind header items
    rw [onSectionBody, hp]
    refine (congrArg unmark (Progress.carryOut_fst _ _ _ _)).trans ?_
    rw [Decision.outcome_guarded fun _ => isUncheckable_of_issues]
    exact unmark_outcome (Progress.unmark_remark _ _ _) _ _
  · intro ss
    rw [onFileBody, hp]
    exact (Progress.carryOut_fst _ _ _ _).trans
      (Decision.outcome_guarded (fun _ => any_isUncheckable_of_issues) _)

/-! ## Whole files -/

/-- **A transform can take nothing but line breaks from a valid file.**  Whatever it decides, each
node stays as it was or gives way to something that was checked; behind it every issue is a line
break that is missing in front of other text, and the file is valid unless there is one. -/
theorem issues_run (t : Transform) {f : File} (hf : f.issues = []) :
    (∀ p : Progress, p.broken = none → t.ChecksNodes p) ∧
      (∀ issue ∈ (t.run f).tree.issues, issue.flaw.IsMissingBreak) ∧
      ((t.run f).tree.issues = [] ↔ (t.run f).tree.BreaksLines) := by
  have hplaced : (t.run f).tree.WellPlaced := t.wellPlaced_run (wellPlaced_of_issues hf)
  refine ⟨fun p hp => t.checksNodes hp, hplaced.isMissingBreak, ?_⟩
  rw [File.issues_eq_nil_iff]
  exact ⟨And.right, And.intro hplaced⟩

/-- A transform that puts tokens in place of those of one statement. -/
def putTokens (number : Nat) (tokens : List Token) : Transform :=
  { name := "EDIT"
    statement := fun _ n s => if n = number then .put (s.withTokens tokens) else .keep }

set_option maxRecDepth 100000 in
/-- A keyword call gives way to one with another keyword. -/
theorem issues_run_of_renamed_call :
    let f := parse "*** Test Cases ***\nA\n    Log    1\n    Log    2\n"
    let t := putTokens 2
      [.create .separator "    ", .create .argument "Fail", .create .eol "\n"]
    f.issues = [] ∧ (t.run f).tree.BreaksLines ∧ (t.run f).tree.issues = [] := by
  intro f t
  have hf : f.issues = [] := by decide +kernel
  have hruns := (issues_run t hf).2.2
  have hnew : (t.run f).tree.issues = [] := by decide +kernel
  exact ⟨hf, hruns.1 hnew, hnew⟩

set_option maxRecDepth 100000 in
/-- **A valid file does not always stay valid.**  A keyword call without line break is put in front
of another one, and it is not refused. -/
theorem valid_not_kept :
    let f := parse "*** Test Cases ***\nA\n    Log    1\n    Log    2\n"
    let t := putTokens 2 [.create .separator "    ", .create .argument "Log", .create .eol ""]
    f.issues = [] ∧ (t.run f).refused = [] ∧
      (t.run f).tree.issues.map (·.flaw) = [.missingBreak .keywordCall] := by
  decide +kernel

end Transform

end RobotSuite
