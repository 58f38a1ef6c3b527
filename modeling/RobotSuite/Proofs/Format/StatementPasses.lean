/-
# What passes make of single statements

A pass over single statements asks what to make of each of them, unless a directive switches it off
there.  So the statements behind the pass are its answers to those that a reading walk meets
(`Pass.statements_ofStatements`).  In a file without directives it is never switched off
(`Pass.made_of_silent`).
-/

import RobotSuite.Proofs.Format.RespacedRuns
import RobotSuite.Proofs.Walk.Hooks

namespace RobotSuite

/-! ## Walks without directives -/

/-- A walk on which there is no directive meets everything in a calm scope. -/
theorem calm_meetings {sc : Scope} (hsc : sc.IsCalm) {steps : List Step}
    (hs : ∀ s ∈ metStatements steps, s.directive? = none)
    (hc : ∀ c ∈ enteredContainers steps, ∀ h ∈ c.header?, h.directive? = none) :
    ∀ m ∈ meetings sc steps, m.2.IsCalm := by
  induction steps generalizing sc with
  | nil => exact List.forall_mem_nil _
  | cons step steps ih =>
    cases step with
    | enter c =>
      obtain ⟨hheader, hrest⟩ := List.forall_mem_cons.1 hc
      exact ih (hsc.enter hheader) hs hrest
    | meet s =>
      obtain ⟨hfirst, hrest⟩ := List.forall_mem_cons.1 hs
      have hnote := hsc.note hfirst
      exact List.forall_mem_cons.2 ⟨hnote, ih hnote hrest hc⟩
    | leave c => exact ih hsc.leave hs hc

/-- What a walk meets in a file without directives, it meets in a calm scope. -/
theorem File.IsSilent.meetings {f : File} (h : f.IsSilent) :
    ∀ m ∈ f.meetings, m.1.directive? = none ∧ m.2.IsCalm := by
  have hmet := f.map_fst_meetings
  have hcalm : ∀ m ∈ f.meetings, m.2.IsCalm :=
    calm_meetings (by simp [Scope.IsCalm]) (by rwa [metStatements_file]) fun c hc header hheader =>
      h header (header_mem_of_containers hc hheader)
  exact fun m hm => ⟨h m.1 (hmet ▸ List.mem_map_of_mem hm), hcalm m hm⟩

namespace Pass

variable {info : PassInfo} {g : PassSetup → Scope → Statement → Option Statement}

/-- What a pass over single statements asks for a statement: nothing where it is switched off. -/
def asks (info : PassInfo) (g : Scope → Statement → Option Statement) : Hook :=
  fun sc _ s => if sc.disables info.name s then none else g sc s

/-- What a pass over single statements makes of one that a walk meets in a scope. -/
def made (info : PassInfo) (g : Scope → Statement → Option Statement) (m : Statement × Scope) :
    Statement := (asks info g).answer 0 m

/-- A pass over single statements is one walk that asks at each of them. -/
theorem apply_ofStatements (setup : PassSetup) (f : File) :
    (ofStatements info fun setup sc s => .ofOption (g setup sc s)).apply setup f =
      .ofTransformed (((asks info (g setup)).transform info.name).run f) := by
  have hstatement : (fun (sc : Scope) (_ : Nat) (s : Statement) =>
      if sc.disables info.name s then Decision.keep else .ofOption (g setup sc s)) =
        fun sc n s => .ofOption (asks info (g setup) sc n s) := by
    funext sc n s
    rw [asks]
    split <;> rfl
  show PassResult.ofTransformed (Transform.run { name := info.name, statement := _ } f) = _
  rw [hstatement]
  rfl

/-- **The statements behind a pass over single statements** are what it makes of those that a walk
meets. -/
theorem statements_ofStatements (setup : PassSetup) (f : File) :
    ((ofStatements info fun setup sc s => .ofOption (g setup sc s)).apply setup f).tree.statements =
      f.meetings.map (made info (g setup)) := by
  obtain ⟨hnew, -, -⟩ := (asks info (g setup)).run_transform info.name f
  rw [apply_ofStatements]
  refine hnew.trans (List.ext_getElem (by simp) fun i _ _ => ?_)
  rw [List.getElem_mapIdx, List.getElem_map]
  rfl

/-- A statement that is met stays as it is, or gives way to what the pass asks for. -/
theorem made_cases (info : PassInfo) (g : Scope → Statement → Option Statement)
    (m : Statement × Scope) : made info g m = m.1 ∨
      m.2.disables info.name m.1 = false ∧ g m.2 m.1 = some (made info g m) := by
  rw [made, Hook.answer, asks]
  cases hoff : m.2.disables info.name m.1 with
  | true => exact .inl rfl
  | false =>
    rw [if_neg Bool.false_ne_true]
    cases hg : g m.2 m.1 with
    | none => exact .inl rfl
    | some new =>
      rw [Decision.ofOption, Decision.outcome]
      split
      · exact .inr ⟨rfl, rfl⟩
      · exact .inl rfl

/-- A pass over single statements makes nothing else of what it has made, if it asks for nothing
there. -/
theorem made_again {info : PassInfo} {g : Statement → Option Statement} {m : Statement × Scope}
    (h : g m.1 = some (made info (fun _ => g) m) → g (made info (fun _ => g) m) = none) :
    made info (fun _ => g) (made info (fun _ => g) m, m.2) = made info (fun _ => g) m := by
  rcases made_cases info (fun _ => g) m with heq | ⟨-, hg⟩
  · exact congrArg (fun s => made info (fun _ => g) (s, m.2)) heq
  · have hnone : asks info (fun _ => g) m.2 0 (made info (fun _ => g) m) = none := by
      rw [asks, h hg]
      split <;> rfl
    generalize made info (fun _ => g) m = new at hnone
    rw [made, Hook.answer, hnone]
    rfl

/-- In a file without directives, what a pass makes of a statement is what it asks for. -/
theorem made_of_silent {f : File} (h : f.IsSilent) (g : Scope → Statement → Option Statement) :
    ∀ m ∈ f.meetings, made info g m =
      (Decision.ofOption (g m.2 m.1)).outcome m.1 (replacementIssues m.1) := by
  intro m hm
  obtain ⟨hs, hcalm⟩ := h.meetings m hm
  rw [made, Hook.answer, asks, hcalm.disables hs, if_neg Bool.false_ne_true]

end Pass
end RobotSuite
