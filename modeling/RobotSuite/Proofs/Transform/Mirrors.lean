/-
# Transforms of what is seen of a file

A transform walks through a file, and another, or the same once more, through what is seen of that
file.  If each decision of the one shows as a decision of the other (`Transform.Mirrors`), then what
the second walk leads to is what is seen of where the first one leads (`Transform.Mirrors.run`).

What is seen of the statements may differ in front of the walks and behind them.  Statements that
are not reached because a walk breaks off show as they did in front of it, so the two must then be
the same, or neither walk breaks off (`Progress.Steady`).
-/

import RobotSuite.Proofs.Transform.CheckedEdits
import RobotSuite.Proofs.Transform.Run
import RobotSuite.Proofs.Transform.Views

namespace RobotSuite

/-! ## Places -/

/-- What a walk can tell of a container around it. -/
def Container.role (c : Container) : NodeType × Option SectionKind × Bool :=
  (c.type, (match c with | .sect s => some s.kind | _ => none), c.isHeaderless)

/-- Two scopes in which a walk can tell the same. -/
structure Scope.Like (sc sc' : Scope) : Prop where
  frames : sc'.frames = sc.frames
  roles : sc'.ancestors.map Container.role = sc.ancestors.map Container.role

section
variable {c c' : Container} {sc sc' : Scope} {s s' : Statement}

/-- Being a branch is told by the role. -/
theorem isBranch_of_role (h : c'.role = c.role) : c'.isBranch = c.isBranch := by
  cases c <;> cases c' <;> simp_all [Container.role, Container.type, Container.isBranch]

/-- Being without a header is told by the role. -/
theorem isHeaderless_of_role (h : c'.role = c.role) : c'.isHeaderless = c.isHeaderless :=
  congrArg (fun role => role.2.2) h

/-- Nesting is told by the role. -/
theorem isNesting_of_role (h : c'.role = c.role) : c'.isNesting = c.isNesting := by
  cases c <;> cases c' <;> simp_all [Container.role, Container.type, Container.isNesting]

namespace Scope.Like

/-- A test the role decides is passed by the innermost containers alike. -/
theorem head?_any {p : Container → Bool} (h : sc.Like sc')
    (hp : ∀ {c c' : Container}, c'.role = c.role → p c' = p c) :
    sc'.ancestors.head?.any p = sc.ancestors.head?.any p := by
  have hroles := h.roles
  cases hsc : sc.ancestors with
  | nil =>
    rw [hsc, List.map_nil, List.map_eq_nil_iff] at hroles
    rw [hroles]
  | cons c cs =>
    rw [hsc] at hroles
    obtain ⟨c', cs', hsc', hc, -⟩ := List.map_eq_cons_iff.1 hroles
    rw [hsc']
    exact hp hc

/-- Entering containers of one role and directive keeps scopes like. -/
theorem enter (h : sc.Like sc') (hr : c'.role = c.role)
    (hd : c'.header?.bind Statement.directive? = c.header?.bind Statement.directive?) :
    (sc.enter c).Like (sc'.enter c') := by
  constructor
  · simp only [Scope.enter, isBranch_of_role hr, hd, h.frames]
  · simp only [Scope.enter, List.map_cons, hr, h.roles]

/-- Leaving keeps scopes like. -/
theorem leave (h : sc.Like sc') : sc.leave.Like sc'.leave := by
  constructor
  · simp only [Scope.leave, h.head?_any isBranch_of_role, h.frames]
  · simp only [Scope.leave, List.map_tail, h.roles]

/-- Noting statements of one type and directive keeps scopes like. -/
theorem note (h : sc.Like sc') (ht : s'.type = s.type) (hd : s'.directive? = s.directive?) :
    (sc.note s).Like (sc'.note s') := by
  unfold Scope.note
  rw [ht, hd, h.head?_any isHeaderless_of_role, h.frames]
  split
  · split
    · exact h
    · split <;> exact ⟨rfl, h.roles⟩
  · exact h

/-- Like scopes turn the same passes off. -/
theorem disables (h : sc.Like sc') (pass : String) (ht : s'.type = s.type)
    (hd : s'.directive? = s.directive?) : sc'.disables pass s' = sc.disables pass s := by
  rw [Scope.disables, Scope.disables, ht, hd, h.frames]

/-- Like scopes are at the same level. -/
theorem levels (h : sc.Like sc') : sc'.levels = sc.levels := by
  have hroles := h.roles
  rw [Scope.levels, Scope.levels]
  generalize sc.ancestors = cs at hroles ⊢
  generalize sc'.ancestors = cs' at hroles ⊢
  induction cs generalizing cs' with
  | nil => rw [List.map_eq_nil_iff.1 hroles]
  | cons c cs ih =>
    obtain ⟨c', cs', rfl, hc, hcs⟩ := List.map_eq_cons_iff.1 hroles
    rw [List.countP_cons, List.countP_cons, ih cs' hcs, isNesting_of_role hc]

/-- Like scopes are equally deep. -/
theorem depth (h : sc.Like sc') (ht : s'.type = s.type) : sc'.depth s' = sc.depth s := by
  rw [Scope.depth, Scope.depth, ← Scope.levels, ← Scope.levels, h.levels, ht]

/-- Like scopes are in sections of one kind. -/
theorem section? (h : sc.Like sc') :
    sc'.section?.map (·.kind) = sc.section?.map (·.kind) := by
  have hroles := h.roles
  unfold Scope.section?
  generalize sc.ancestors = cs at hroles ⊢
  generalize sc'.ancestors = cs' at hroles ⊢
  induction cs generalizing cs' with
  | nil => rw [List.map_eq_nil_iff.1 hroles]
  | cons c cs ih =>
    obtain ⟨c', cs', rfl, hc, hcs⟩ := List.map_eq_cons_iff.1 hroles
    have hkind := congrArg (fun role => role.2.1) hc
    have htype := congrArg (fun role => role.1) hc
    rw [List.findSome?_cons, List.findSome?_cons]
    cases c <;> cases c' <;> simp_all [Container.role, Container.type]

/-- Like scopes have parents of one type. -/
theorem parent? (h : sc.Like sc') :
    sc'.parent?.map Container.type = sc.parent?.map Container.type := by
  have hheads := congrArg (fun roles => roles.head?.map (·.1)) h.roles
  rw [List.head?_map, List.head?_map, Option.map_map, Option.map_map] at hheads
  exact hheads

end Scope.Like

end

/-- Two places at which a walk can tell the same. -/
structure Place.Like (place place' : Place) : Prop where
  scope : place.scope.Like place'.scope
  index : place'.index = place.index
  blockFollows : place'.blockFollows = place.blockFollows
  sectionFollows : place'.sectionFollows = place.sectionFollows

/-- Two walks that have come to places at which they can tell the same.  The scope of the first has
a property, and unless labels show, directives have switched nothing off. -/
structure Progress.Like (L : Prop) (C : Scope → Prop) (p p' : Progress) : Prop where
  scope : p.scope.Like p'.scope
  calm : C p.scope
  index : p'.index = p.index
  broken : p'.broken = p.broken
  off : p'.off = p.off
  silent : L ∨ p.off = []
  blockFollows : p'.blockFollows = p.blockFollows
  sectionFollows : p'.sectionFollows = p.sectionFollows

namespace Progress
variable {L : Prop} {C : Scope → Prop} {p p' q : Progress}

/-- Like states stand at like places. -/
theorem Like.place (h : p.Like L C p') : p.place.Like p'.place :=
  ⟨h.scope, h.index, h.blockFollows, h.sectionFollows⟩

/-- Whether what is seen in front of a walk and behind it is the same, or the walk goes on. -/
def Steady (v w : View) (p : Progress) : Prop := v = w ∨ p.broken = none

/-- A state that comes back steady was steady. -/
theorem Back.steady {v w : View} (h : p.Back q) (hq : q.Steady v w) : p.Steady v w :=
  hq.imp_right h.broken

end Progress

/-! ## Decisions -/

namespace Decision
variable {α β : Type}

/-- A decision as it is seen. -/
def map (g : α → β) : Decision α → Decision β
  | .keep => .keep
  | .put new => .put (g new)
  | .breakOff reason => .breakOff reason

/-- Why a transform breaks off, if it does. -/
def breakdown? : Decision α → Option Breakdown
  | .breakOff reason => some reason
  | _ => none

/-- A mapped decision breaks down alike. -/
@[simp] theorem breakdown?_map (g : α → β) (d : Decision α) : (d.map g).breakdown? = d.breakdown? := by
  cases d <;> rfl

/-- Mapping an optional value maps the decision. -/
theorem map_ofOption (g : α → β) (o : Option α) :
    (Decision.ofOption o).map g = .ofOption (o.map g) := by
  cases o <;> rfl

/-- A guard that does not tell a replacement from what is seen of it. -/
theorem guarded_map {g : α → β} (fails : α → Bool) {fails' : β → Bool} {d : Decision α}
    (h : ∀ new, d = .put new → fails' (g new) = fails new) :
    (d.map g).guarded fails' = (d.guarded fails).map g := by
  cases d with
  | put new =>
    rw [map, guarded, guarded, h new rfl]
    split <;> rfl
  | _ => rfl

/-- A decision about what is seen leads to what is seen of where the decision leads. -/
theorem outcome_map {g : α → β} {old : α} {issues : α → List Issue} {issues' : β → List Issue}
    {d : Decision α} (h : ∀ new, d = .put new → (issues' (g new) = [] ↔ issues new = [])) :
    (d.map g).outcome (g old) issues' = g (d.outcome old issues) := by
  cases d with
  | put new =>
    rw [map, outcome, outcome]
    by_cases hn : issues new = []
    · rw [if_pos hn, if_pos ((h new rfl).2 hn)]
    · rw [if_neg hn, if_neg (mt (h new rfl).1 hn)]
  | _ => rfl

/-- Whether two decisions, one about a statement and one about what is seen of it, break off
alike, and lead to a statement and to what is seen of that. -/
structure Agree (f : Statement → Statement) (s s' : Statement) (d d' : Decision Statement) :
    Prop where
  breakdown : d'.breakdown? = d.breakdown?
  outcome : d.breakdown? = none →
    d'.outcome s' (replacementIssues s') = f (d.outcome s (replacementIssues s))

end Decision

/-- A replacement that shows is checked as it is. -/
theorem replacementIssues_view {f : Statement → Statement} {s new : Statement}
    (hs : (f s).type = s.type) (hn : (f new).type = new.type)
    (hnew : new.type = s.type → new.ShownBy f) :
    replacementIssues (f s) (f new) = [] ↔ replacementIssues s new = [] := by
  rw [replacementIssues, replacementIssues, hs, hn]
  split
  · rename_i ht
    exact flawsOf_eq_nil (hnew ht).issues
  · simp

/-- What is seen of a decision agrees with it. -/
theorem Decision.agree_map {f : Statement → Statement} {s : Statement} {d : Decision Statement}
    (hs : (f s).type = s.type)
    (hput : ∀ new, d = .put new → (f new).type = new.type ∧ (new.type = s.type → new.ShownBy f)) :
    Agree f s (f s) d (d.map f) :=
  ⟨breakdown?_map f d, fun _ => outcome_map fun new h =>
    replacementIssues_view hs (hput new h).1 (hput new h).2⟩

/-- A decision carried out without breaking down is none to break down. -/
theorem Decision.breakdown?_of_carryOut {α : Type} {p : Progress} {old : α}
    {issues : α → List Issue} {d : Decision α} (h : (p.carryOut old issues d).2.broken = none) :
    d.breakdown? = none := by
  cases d with
  | breakOff reason => simp [Progress.carryOut] at h
  | _ => rfl

/-- A breakdown leaves what stood there. -/
theorem Decision.outcome_of_breakdown? {α : Type} {old : α} {issues : α → List Issue}
    {d : Decision α} (h : d.breakdown? ≠ none) : d.outcome old issues = old := by
  cases d with
  | breakOff reason => rfl
  | _ => exact absurd rfl h

/-- Carrying out decisions that break off alike leaves two walks alike. -/
theorem Progress.Like.carryOut {L : Prop} {C : Scope → Prop} {p p' : Progress}
    (h : p.Like L C p') {α β : Type} {old : α} {old' : β} {issues : α → List Issue}
    {issues' : β → List Issue} {d : Decision α} {d' : Decision β} (hd : d'.breakdown? = d.breakdown?) :
    (p.carryOut old issues d).2.Like L C (p'.carryOut old' issues' d').2 := by
  have hsame {γ : Type} (q : Progress) (old : γ) (issues : γ → List Issue) (d : Decision γ) :
      ∃ refused, (q.carryOut old issues d).2 =
        { q with refused, broken := d.breakdown? <|> q.broken } := by
    cases d with
    | keep => exact ⟨q.refused, rfl⟩
    | put new =>
      rw [Progress.carryOut]
      split
      · exact ⟨q.refused, rfl⟩
      · exact ⟨_, rfl⟩
    | breakOff reason => exact ⟨q.refused, rfl⟩
  obtain ⟨refused, hr⟩ := hsame p old issues d
  obtain ⟨refused', hr'⟩ := hsame p' old' issues' d'
  rw [hr, hr', hd, h.broken]
  exact ⟨h.scope, h.calm, h.index, rfl, h.off, h.silent, h.blockFollows, h.sectionFollows⟩

/-- The results of two steps: the walks are alike, and if the first goes on then the second shows
what it leads to. -/
structure Mirrored (L : Prop) (C : Scope → Prop) (v w : View) {α : Type} (g : α → α)
    (r r' : α × Progress) : Prop where
  like : r.2.Like L C r'.2
  seen : r.2.Steady v w → r'.1 = g r.1

/-! ## Transforms -/

namespace Transform

/-- Two transforms, of which the second decides about what is seen of a file as the first does
about the file.  What is seen in front of the walks is `v`, and behind them `w`; the statements
have the property `S` or, as headers, `H`, and the scopes have the property `C`.  Where labels do
not show, which is said by `L`, no directive may switch the transform off. -/
structure Mirrors (t t' : Transform) (L : Prop) (C : Scope → Prop)
    (S H : SectionKind → Statement → Prop) (v w : View) : Prop where
  name : t'.name = t.name
  start : C {}
  keeps : t.Keeps S H
  labels : L → ∀ {kind s}, S kind s ∨ H kind s →
    (v kind s).label = s.label ∧ (w kind s).label = s.label
  silent : L ∨ ∀ {kind sc s}, C sc → S kind s ∨ H kind s → sc.disables t.name s = false
  sees : ∀ {kind s}, S kind s ∨ H kind s → s.ShownBy (v kind)
  shows : ∀ {kind s}, S kind s ∨ H kind s → s.ShownBy (w kind)
  enter : ∀ {kind sc c}, C sc → (∀ header ∈ c.header?, S kind header ∨ H kind header) →
    C (sc.enter c)
  leave : ∀ {sc}, C sc → C sc.leave
  note : ∀ {kind sc s}, C sc → S kind s ∨ H kind s → C (sc.note s)
  statement : ∀ {kind sc sc' n s}, C sc → sc.Like sc' →
    sc.Shows kind s ∧ S kind s ∨
      sc.section?.map (·.kind) = some kind ∧ sc.levels = 0 ∧ H kind s →
    Decision.Agree (w kind) s (v kind s) (t.statement sc n s) (t'.statement sc' n (v kind s))
  body : ∀ {kind place place' header items}, C place.scope → place.Like place' →
    bodyHolds (S kind) (unmark items) →
    t'.leaveBody place' header (viewMarked (BodyItem.view (w kind)) items) =
      (t.leaveBody place header items).map (viewMarked (BodyItem.view (w kind)))
  sect : ∀ {kind place place' header items}, C place.scope → place.Like place' →
    place.scope.section?.map (·.kind) = some kind → (∀ h ∈ header, H kind h.1) →
    (∀ item ∈ unmark items, item.Holds (S kind) kind) →
    t'.leaveSection place' (header.map fun h => (w kind h.1, h.2))
        (viewMarked (SectionItem.view (w kind)) items) =
      (t.leaveSection place header items).map (viewMarked (SectionItem.view (w kind)))
  file : ∀ {place place' ss}, place.Like place' → (∀ s ∈ ss, s.Holds S H) →
    t'.leaveFile place' (ss.map (Section.view w)) =
      (t.leaveFile place ss).map (List.map (Section.view w))

section
variable {t t' : Transform} {L : Prop} {C : Scope → Prop}
  {S H : SectionKind → Statement → Prop} {v w : View} {kind : SectionKind}
  {p p' : Progress}

/-! ### Steps -/

/-- Entering mirrored containers keeps the states like. -/
theorem Mirrors.onEnter (kind : SectionKind) (h : t.Mirrors t' L C S H v w) (hp : p.Like L C p')
    {c c' : Container}
    (hr : c'.role = c.role)
    (hd : c'.header?.bind Statement.directive? = c.header?.bind Statement.directive?)
    (hs : ∀ header ∈ c.header?, S kind header ∨ H kind header) :
    (p.enter c).Like L C (p'.enter c') :=
  ⟨hp.scope.enter hr hd, h.enter hp.calm hs, hp.index, hp.broken, hp.off, hp.silent,
    hp.blockFollows, hp.sectionFollows⟩

/-- Leaving them does too. -/
theorem Mirrors.onLeave (h : t.Mirrors t' L C S H v w) (hp : p.Like L C p') :
    p.leave.Like L C p'.leave :=
  ⟨hp.scope.leave, h.leave hp.calm, hp.index, hp.broken, hp.off, hp.silent, hp.blockFollows,
    hp.sectionFollows⟩

/-- A walk behind a statement, before anything is decided about that. -/
def met (t : Transform) (p : Progress) (s : Statement) : Progress :=
  let next := { p with scope := p.scope.note s, index := p.index + 1 }
  if (p.scope.note s).disables t.name s then next.switchOff s else next

/-- A statement is met, and asked for unless the run has broken down. -/
theorem onStatement_eq (t : Transform) (p : Progress) (s : Statement) :
    t.onStatement p s =
      match p.broken with
      | some _ => ((s, (p.scope.note s).disables t.name s), t.met p s)
      | none =>
        let r := (t.met p s).carryOut s (replacementIssues s)
          (t.statement (p.scope.note s) p.index s)
        ((r.1, (p.scope.note s).disables t.name s), r.2) := rfl

/-- Meeting a statement breaks nothing down. -/
theorem met_broken (t : Transform) (p : Progress) (s : Statement) :
    (t.met p s).broken = p.broken := by
  unfold met Progress.switchOff
  dsimp only
  split
  · split <;> rfl
  · rfl

/-- Meeting mirrored statements keeps the states like. -/
theorem Mirrors.met (h : t.Mirrors t' L C S H v w) (hp : p.Like L C p') {s : Statement}
    (hs : S kind s ∨ H kind s) : (t.met p s).Like L C (t'.met p' (v kind s)) := by
  obtain ⟨htype, hdirective, -, -⟩ := h.sees hs
  have hnote := hp.scope.note htype hdirective
  have hplain : Progress.Like L C { p with scope := p.scope.note s, index := p.index + 1 }
      { p' with scope := p'.scope.note (v kind s), index := p'.index + 1 } :=
    ⟨hnote, h.note hp.calm hs, congrArg (· + 1) hp.index, hp.broken, hp.off, hp.silent,
      hp.blockFollows, hp.sectionFollows⟩
  unfold Transform.met Progress.switchOff
  dsimp only
  rw [h.name, hnote.disables t.name htype hdirective]
  split
  · rename_i hoff
    have hL : L := h.silent.resolve_right fun hnever => by simp [hnever hplain.calm hs] at hoff
    rw [(h.labels hL hs).1]
    split
    · exact hplain
    · exact ⟨hplain.scope, hplain.calm, hplain.index, hplain.broken,
        congrArg (_ :: ·) hplain.off, .inl hL, hplain.blockFollows, hplain.sectionFollows⟩
  · exact hplain

/-- A statement of a section, or its header. -/
theorem Mirrors.onStatement (h : t.Mirrors t' L C S H v w) (hp : p.Like L C p') {s : Statement}
    (hs : p.scope.Shows kind s ∧ S kind s ∨
      p.scope.section?.map (·.kind) = some kind ∧ p.scope.levels = 0 ∧ H kind s) :
    Mirrored L C v w (fun x => (w kind x.1, x.2)) (t.onStatement p s)
      (t'.onStatement p' (v kind s)) := by
  have hS : S kind s ∨ H kind s := hs.imp (·.2) (·.2.2)
  obtain ⟨htype, hdirective, -, -⟩ := h.sees hS
  have hnote := hp.scope.note htype hdirective
  have hmark : (p'.scope.note (v kind s)).disables t'.name (v kind s) =
      (p.scope.note s).disables t.name s := by
    rw [h.name, hnote.disables t.name htype hdirective]
  cases hb : p.broken with
  | some reason =>
    rw [onStatement_eq, onStatement_eq, hp.broken, hb, hmark]
    refine ⟨h.met hp hS, fun hsteady => ?_⟩
    have hvw : v = w := hsteady.resolve_right (by simp [met_broken, hb])
    rw [hvw]
  | none =>
    rw [onStatement_eq, onStatement_eq, hp.broken, hb, hmark]
    dsimp only
    rw [Progress.carryOut_fst, Progress.carryOut_fst]
    have hd : Decision.Agree (w kind) s (v kind s) (t.statement (p.scope.note s) p.index s)
        (t'.statement (p'.scope.note (v kind s)) p'.index (v kind s)) := by
      rw [hp.index]
      refine h.statement (h.note hp.calm hS) hnote (hs.imp (fun hs => ⟨?_, hs.2⟩) fun hs => ?_)
      · exact hs.1.congr (Scope.note_ancestors _ _)
      · have hwithin : (p.scope.note s).Within kind 0 :=
          Scope.Within.congr ⟨hs.1, Nat.zero_le _⟩ (Scope.note_ancestors _ _)
        refine ⟨hwithin.sect, ?_, hs.2.2⟩
        rw [Scope.levels, Scope.note_ancestors]
        exact hs.2.1
    refine ⟨(h.met hp hS).carryOut hd.breakdown, fun hsteady => ?_⟩
    refine Prod.ext ?_ rfl
    by_cases hd0 : (t.statement (p.scope.note s) p.index s).breakdown? = none
    · exact hd.outcome hd0
    · have hvw : v = w := hsteady.resolve_right fun hn => hd0 (Decision.breakdown?_of_carryOut hn)
      dsimp only
      rw [Decision.outcome_of_breakdown? hd0, Decision.outcome_of_breakdown? (hd.breakdown ▸ hd0), hvw]

/-- A header or an END, if there is one. -/
theorem Mirrors.onStatement? (h : t.Mirrors t' L C S H v w) (hp : p.Like L C p')
    {s : Option Statement}
    (hs : ∀ r ∈ s, p.scope.Shows kind r ∧ S kind r ∨
      p.scope.section?.map (·.kind) = some kind ∧ p.scope.levels = 0 ∧ H kind r) :
    Mirrored L C v w (Option.map fun x => (w kind x.1, x.2)) (t.onStatement? p s)
      (t'.onStatement? p' (s.map (v kind))) := by
  cases s with
  | none => exact ⟨hp, fun _ => rfl⟩
  | some s =>
    have hr := h.onStatement hp (hs s rfl)
    exact ⟨hr.like, fun hsteady => congrArg some (hr.seen hsteady)⟩

/-- A header or an END as it is left behind: as it was, if the walk has broken off. -/
theorem settle_seen {α : Type} {a b : α → α} (hp : p.Like L C p') (hsteady : p.Steady v w)
    (hab : v = w → a = b) (old new : α) :
    p'.settle (a old) (b new) = b (p.settle old new) := by
  rw [Progress.settle, Progress.settle, hp.broken]
  cases hb : p.broken with
  | some reason =>
    rw [hab (hsteady.resolve_right (by simp [hb]))]
    rfl
  | none => rfl

/-- Mirrored items are marked alike. -/
theorem remark_view {α : Type} {g : α → α} {f : Statement → Statement}
    {statements : α → List Statement} (hp : p.Like L C p') {items : List (Marked α)}
    (hg : ∀ item ∈ unmark items, statements (g item) = (statements item).map f)
    (hl : L → ∀ item ∈ unmark items, ∀ s ∈ statements item, (f s).label = s.label) :
    p'.remark statements (viewMarked g items) = viewMarked g (p.remark statements items) := by
  rcases hp.silent with hL | hoff
  · rw [Progress.remark, Progress.remark, hp.off]
    split
    · rfl
    · rw [viewMarked, viewMarked, List.map_map, List.map_map]
      refine List.map_congr_left fun item hi => ?_
      have hi := List.mem_map_of_mem (f := (·.1)) hi
      have hlast : (statements (g item.1)).getLast?.any p'.isOff =
          (statements item.1).getLast?.any p.isOff := by
        rw [hg item.1 hi, List.getLast?_map]
        cases hlast : (statements item.1).getLast? with
        | none => rfl
        | some s =>
          simp only [Option.map_some, Option.any_some, Progress.isOff, hp.off,
            hl hL item.1 hi s (List.mem_of_getLast? hlast)]
      exact Prod.ext rfl (congrArg (item.2 || ·) hlast)
  · rw [Progress.remark_of_off_eq_nil hoff, Progress.remark_of_off_eq_nil (hp.off.trans hoff)]

/-- The items of a body that is left. -/
theorem Mirrors.onBody (h : t.Mirrors t' L C S H v w) (hp : p.Like L C p') (header header' : Bool)
    {items : List (Marked BodyItem)} (items' : List (Marked BodyItem))
    (hi : bodyHolds (S kind) (unmark items))
    (hsame : p.Steady v w →
      header' = header ∧ items' = viewMarked (BodyItem.view (w kind)) items) :
    Mirrored L C v w (viewMarked (BodyItem.view (w kind))) (t.onBody p header items)
      (t'.onBody p' header' items') := by
  rw [Transform.onBody, Transform.onBody, hp.broken]
  cases hb : p.broken with
  | some reason => exact ⟨hp, fun hsteady => (hsame hsteady).2⟩
  | none =>
    obtain ⟨rfl, rfl⟩ := hsame (.inr hb)
    have hremark : p'.remark BodyItem.statements (viewMarked (BodyItem.view (w kind)) items) =
        viewMarked (BodyItem.view (w kind)) (p.remark BodyItem.statements items) :=
      remark_view hp (fun item _ => item.statements_view) fun hL item hitem s hs =>
        (h.labels hL (.inl ((bodyHolds_iff.1 hi item hitem).statements s hs).1)).2
    rw [hremark]
    have hi' : bodyHolds (S kind) (unmark (p.remark BodyItem.statements items)) := by
      rw [Progress.unmark_remark]
      exact hi
    have hbody : t'.leaveBody _ header' _ = _ := h.body hp.calm hp.place hi'
    refine ⟨hp.carryOut (by rw [hbody, Decision.breakdown?_map]), fun _ => ?_⟩
    rw [Progress.carryOut_fst, Progress.carryOut_fst, hbody]
    refine Decision.outcome_map fun new hput => flawsOf_eq_nil ?_
    rw [unmark_viewMarked, ← viewBody_eq_map]
    exact viewBody_issues fun s hs =>
      h.shows (.inl (bodyHolds_statements (h.keeps.body hput hi') s hs).1)

/-! ### Bodies -/

mutual

/-- An item is transformed as its picture is. -/
theorem Mirrors.onItem (h : t.Mirrors t' L C S H v w) {p p' : Progress} (hp : p.Like L C p')
    (hw : p.scope.Within kind 1) : ∀ {item : BodyItem}, item.Holds (S kind) →
      Mirrored L C v w (fun x => (x.1.view (w kind), x.2)) (t.onItem p item)
        (t'.onItem p' (item.view (v kind)))
  | .statement s, hi => by
    rw [BodyItem.Holds] at hi
    have hr := h.onStatement hp (.inl ⟨hw.shows_body hi.1, hi.2⟩)
    rw [BodyItem.view, Transform.onItem, Transform.onItem]
    exact ⟨hr.like, fun hsteady =>
      congrArg (fun x => (BodyItem.statement x.1, x.2)) (hr.seen hsteady)⟩
  | .control c, hi => by
    rw [BodyItem.Holds] at hi
    have hr := h.onControl hp hw hi
    rw [BodyItem.view, Transform.onItem, Transform.onItem]
    exact ⟨hr.like, fun hsteady =>
      congrArg (fun x => (BodyItem.control x.1, x.2)) (hr.seen hsteady)⟩

/-- The same for a control block. -/
theorem Mirrors.onControl (h : t.Mirrors t' L C S H v w) {p p' : Progress} (hp : p.Like L C p')
    (hw : p.scope.Within kind 1) : ∀ {c : ControlBlock}, c.Holds (S kind) →
      Mirrored L C v w (fun x => (x.1.view (w kind), x.2)) (t.onControl p c)
        (t'.onControl p' (c.view (v kind)))
  | ⟨type, span, header, body, branches, close, label⟩, hc => by
    rw [ControlBlock.Holds] at hc
    obtain ⟨⟨ho, hS⟩, hbody, hbranches, s, rfl, hs, hSs⟩ := hc
    have hw0 : (p.enter (.control ⟨type, span, header, body, branches, some s, label⟩)).scope.Within
        kind 2 := hw.enter_nesting rfl
    have hp0 : (p.enter (.control ⟨type, span, header, body, branches, some s, label⟩)).Like L C
        (p'.enter (.control (ControlBlock.view (v kind)
          ⟨type, span, header, body, branches, some s, label⟩))) :=
      h.onEnter kind hp rfl (h.sees (.inl hS)).directive? (by rintro _ ⟨⟩; exact .inl hS)
    rw [ControlBlock.view] at hp0 ⊢
    rw [Transform.onControl, Transform.onControl]
    dsimp only
    generalize p.enter (.control ⟨type, span, header, body, branches, some s, label⟩) = q
      at hp0 hw0 ⊢
    -- The results of the steps get names, one after the other.
    have hr1 := h.onStatement hp0 (.inl ⟨hw0.shows_outer (isBlockName_of_opener ho), hS⟩)
    have hw1 := hw0.congr (t.back_onStatement q header).ancestors
    generalize t.onStatement q header = r1 at hr1 hw1 ⊢
    generalize t'.onStatement _ (v kind header) = r1' at hr1 ⊢
    have hr2 := h.onItems hr1.like (hw1.mono (by omega)) hbody
    have hi2 := (h.keeps.onItems (hw1.mono (by omega)) hbody).1
    have hb2 := t.back_onItems r1.2 body
    have hw2 := hw1.congr hb2.ancestors
    generalize t.onItems r1.2 body = r2 at hr2 hi2 hb2 hw2 ⊢
    generalize t'.onItems r1'.2 _ = r2' at hr2 ⊢
    have hr3 := h.onBranches hr2.like hw2 hbranches
    have hb3 := t.back_onBranches r2.2 branches
    have hw3 := hw2.congr hb3.ancestors
    generalize t.onBranches r2.2 branches = r3 at hr3 hb3 hw3 ⊢
    generalize t'.onBranches r2'.2 _ = r3' at hr3 ⊢
    have hr4 := h.onStatement? (s := some s) hr3.like fun r hr => by
      obtain rfl : s = r := Option.some.inj hr
      exact .inl ⟨hw3.shows_outer (by simp [isBlockName, hs]), hSs⟩
    have hb4 := t.back_onStatement? r3.2 (some s)
    generalize t.onStatement? r3.2 (some s) = r4 at hr4 hb4 ⊢
    generalize t'.onStatement? r3'.2 _ = r4' at hr4 ⊢
    have hr5 := h.onBody hr4.like r1.1.2 r1'.1.2 r2'.1 hi2
      fun hsteady =>
        have hs2 := hb3.steady (hb4.steady hsteady)
        ⟨(Prod.ext_iff.1 (hr1.seen (hb2.steady hs2))).2, hr2.seen hs2⟩
    have hb5 := t.back_onBody r4.2 r1.1.2 r2.1
    generalize t.onBody r4.2 r1.1.2 r2.1 = r5 at hr5 hb5 ⊢
    generalize t'.onBody r4'.2 r1'.1.2 r2'.1 = r5' at hr5 ⊢
    refine ⟨h.onLeave hr5.like, fun hsteady => ?_⟩
    have hs4 := hb5.steady hsteady
    have hs3 := hb4.steady hs4
    have hs2 := hb3.steady hs3
    have hclose (o : Option (Marked Statement)) :
        (o.map fun x => (w kind x.1, x.2)).map (·.1) = (o.map (·.1)).map (w kind) ∧
          (o.map fun x => (w kind x.1, x.2)).map (·.2) = o.map (·.2) := by
      cases o <;> exact ⟨rfl, rfl⟩
    obtain ⟨header', p1⟩ := r1'
    obtain ⟨branches', p3⟩ := r3'
    obtain ⟨close', p4⟩ := r4'
    obtain ⟨body', p5⟩ := r5'
    obtain rfl : header' = _ := hr1.seen (hb2.steady hs2)
    obtain rfl : branches' = _ := hr3.seen hs3
    obtain rfl : close' = _ := hr4.seen hs4
    obtain rfl : body' = _ := hr5.seen hsteady
    dsimp only
    rw [ControlBlock.view, (hclose r4.1).1, (hclose r4.1).2,
      settle_seen hr5.like hsteady (fun hvw => congrFun hvw kind),
      settle_seen hr5.like hsteady (fun hvw => congrArg Option.map (congrFun hvw kind)),
      unmark_viewMarked, unmark_viewMarked, ← viewBody_eq_map, ← viewBranches_eq_map,
      lastMark_viewMarked, lastMark_viewMarked]

/-- The same for the items of a body. -/
theorem Mirrors.onItems (h : t.Mirrors t' L C S H v w) {p p' : Progress} (hp : p.Like L C p')
    (hw : p.scope.Within kind 1) : ∀ {items : List BodyItem}, bodyHolds (S kind) items →
      Mirrored L C v w (viewMarked (BodyItem.view (w kind))) (t.onItems p items)
        (t'.onItems p' (viewBody (v kind) items))
  | [], _ => by
    rw [viewBody, Transform.onItems, Transform.onItems]
    exact ⟨hp, fun _ => rfl⟩
  | item :: items, hi => by
    rw [bodyHolds] at hi
    have hitem := h.onItem hp hw hi.1
    have hrest := h.onItems hitem.like (hw.congr (t.back_onItem p item).ancestors) hi.2
    rw [viewBody, Transform.onItems, Transform.onItems]
    refine ⟨hrest.like, fun hsteady => ?_⟩
    have hback := t.back_onItems (t.onItem p item).2 items
    exact congrArg₂ List.cons (hitem.seen (hback.steady hsteady)) (hrest.seen hsteady)

/-- The same for a branch. -/
theorem Mirrors.onBranch (h : t.Mirrors t' L C S H v w) {p p' : Progress} (hp : p.Like L C p')
    (hw : p.scope.Within kind 2) {type : ControlType} : ∀ {b : Branch}, b.Holds (S kind) type →
      Mirrored L C v w (fun x => (x.1.view (w kind), x.2)) (t.onBranch p b)
        (t'.onBranch p' (b.view (v kind)))
  | ⟨span, header, body, label⟩, hb => by
    rw [Branch.Holds] at hb
    obtain ⟨⟨ht, hS⟩, hbody⟩ := hb
    have hw0 : (p.enter (.branch ⟨span, header, body, label⟩)).scope.Within kind 2 :=
      hw.enter_branch
    have hp0 : (p.enter (.branch ⟨span, header, body, label⟩)).Like L C
        (p'.enter (.branch (Branch.view (v kind) ⟨span, header, body, label⟩))) :=
      h.onEnter kind hp rfl (h.sees (.inl hS)).directive? (by rintro _ ⟨⟩; exact .inl hS)
    rw [Branch.view] at hp0 ⊢
    rw [Transform.onBranch, Transform.onBranch]
    dsimp only
    generalize p.enter (.branch ⟨span, header, body, label⟩) = q at hp0 hw0 ⊢
    have hr1 := h.onStatement hp0 (.inl ⟨hw0.shows_outer (isBlockName_of_branchHeader ht), hS⟩)
    have hw1 := hw0.congr (t.back_onStatement q header).ancestors
    generalize t.onStatement q header = r1 at hr1 hw1 ⊢
    generalize t'.onStatement _ (v kind header) = r1' at hr1 ⊢
    have hr2 := h.onItems hr1.like (hw1.mono (by omega)) hbody
    have hi2 := (h.keeps.onItems (hw1.mono (by omega)) hbody).1
    have hb2 := t.back_onItems r1.2 body
    generalize t.onItems r1.2 body = r2 at hr2 hi2 hb2 ⊢
    generalize t'.onItems r1'.2 _ = r2' at hr2 ⊢
    have hr3 := h.onBody hr2.like r1.1.2 r1'.1.2 r2'.1 hi2
      fun hsteady => ⟨(Prod.ext_iff.1 (hr1.seen (hb2.steady hsteady))).2, hr2.seen hsteady⟩
    have hb3 := t.back_onBody r2.2 r1.1.2 r2.1
    generalize t.onBody r2.2 r1.1.2 r2.1 = r3 at hr3 hb3 ⊢
    generalize t'.onBody r2'.2 r1'.1.2 r2'.1 = r3' at hr3 ⊢
    refine ⟨h.onLeave hr3.like, fun hsteady => ?_⟩
    obtain ⟨header', p1⟩ := r1'
    obtain ⟨body', p3⟩ := r3'
    obtain rfl : header' = _ := hr1.seen (hb2.steady (hb3.steady hsteady))
    obtain rfl : body' = _ := hr3.seen hsteady
    dsimp only
    rw [Branch.view, settle_seen hr3.like hsteady (fun hvw => congrFun hvw kind), unmark_viewMarked,
      ← viewBody_eq_map, lastMark_viewMarked]

/-- The same for the branches of a block. -/
theorem Mirrors.onBranches (h : t.Mirrors t' L C S H v w) {p p' : Progress} (hp : p.Like L C p')
    (hw : p.scope.Within kind 2) {type : ControlType} : ∀ {bs : List Branch},
      branchesHold (S kind) type bs →
      Mirrored L C v w (viewMarked (Branch.view (w kind))) (t.onBranches p bs)
        (t'.onBranches p' (viewBranches (v kind) bs))
  | [], _ => by
    rw [viewBranches, Transform.onBranches, Transform.onBranches]
    exact ⟨hp, fun _ => rfl⟩
  | b :: bs, hb => by
    rw [branchesHold] at hb
    have hbranch := h.onBranch hp hw hb.1
    have hrest := h.onBranches hbranch.like (hw.congr (t.back_onBranch p b).ancestors) hb.2
    rw [viewBranches, Transform.onBranches, Transform.onBranches]
    refine ⟨hrest.like, fun hsteady => ?_⟩
    have hback := t.back_onBranches (t.onBranch p b).2 bs
    exact congrArg₂ List.cons (hbranch.seen (hback.steady hsteady)) (hrest.seen hsteady)

end

/-- The same for a block. -/
theorem Mirrors.onBlock (h : t.Mirrors t' L C S H v w) (hp : p.Like L C p')
    (hk : p.scope.section?.map (·.kind) = some kind) (hl : p.scope.levels = 0) {b : Block}
    (hb : (SectionItem.block b).Holds (S kind) kind) :
    Mirrored L C v w (fun x => (x.1.view (w kind), x.2)) (t.onBlock p b)
      (t'.onBlock p' (b.view (v kind))) := by
  obtain ⟨⟨-, hname, hS⟩, hbody⟩ := hb
  have hw0 : (p.enter (.block b)).scope.Within kind 1 :=
    Scope.Within.enter_nesting (c := .block b) ⟨hk, Nat.zero_le _⟩ rfl
  have hshows : (p.enter (.block b)).scope.Shows kind b.header :=
    Scope.shows_name hk hl (isBlockName_of_nameType hname)
  have hp0 : (p.enter (.block b)).Like L C (p'.enter (.block (b.view (v kind)))) :=
    h.onEnter kind hp rfl (h.sees (.inl hS)).directive? (by rintro _ ⟨⟩; exact .inl hS)
  rw [Transform.onBlock, Transform.onBlock]
  dsimp only [Block.view] at hp0 ⊢
  generalize p.enter (.block b) = q at hp0 hw0 hshows ⊢
  have hr1 := h.onStatement hp0 (.inl ⟨hshows, hS⟩)
  have hw1 := hw0.congr (t.back_onStatement q b.header).ancestors
  generalize t.onStatement q b.header = r1 at hr1 hw1 ⊢
  generalize t'.onStatement _ (v kind b.header) = r1' at hr1 ⊢
  have hr2 := h.onItems hr1.like hw1 hbody
  have hi2 := (h.keeps.onItems hw1 hbody).1
  have hb2 := t.back_onItems r1.2 b.body
  generalize t.onItems r1.2 b.body = r2 at hr2 hi2 hb2 ⊢
  generalize t'.onItems r1'.2 _ = r2' at hr2 ⊢
  have hr3 := h.onBody hr2.like r1.1.2 r1'.1.2 r2'.1 hi2
    fun hsteady => ⟨(Prod.ext_iff.1 (hr1.seen (hb2.steady hsteady))).2, hr2.seen hsteady⟩
  have hb3 := t.back_onBody r2.2 r1.1.2 r2.1
  generalize t.onBody r2.2 r1.1.2 r2.1 = r3 at hr3 hb3 ⊢
  generalize t'.onBody r2'.2 r1'.1.2 r2'.1 = r3' at hr3 ⊢
  refine ⟨h.onLeave hr3.like, fun hsteady => ?_⟩
  obtain ⟨header', p1⟩ := r1'
  obtain ⟨body', p3⟩ := r3'
  obtain rfl : header' = _ := hr1.seen (hb2.steady (hb3.steady hsteady))
  obtain rfl : body' = _ := hr3.seen hsteady
  dsimp only
  rw [settle_seen hr3.like hsteady (fun hvw => congrFun hvw kind), unmark_viewMarked,
    ← viewBody_eq_map, lastMark_viewMarked]

/-! ### Sections -/

/-- A view keeps blocks blocks. -/
theorem any_isBlock_view (f : Statement → Statement) (items : List SectionItem) :
    (items.map (SectionItem.view f)).any (·.isBlock) = items.any (·.isBlock) := by
  rw [List.any_map]
  congr 1
  funext item
  cases item <;> rfl

/-- The same for the items of a section. -/
theorem Mirrors.onSectionItems (h : t.Mirrors t' L C S H v w) (hp : p.Like L C p')
    (hk : p.scope.section?.map (·.kind) = some kind) (hl : p.scope.levels = 0)
    {items : List SectionItem} (hi : ∀ item ∈ items, item.Holds (S kind) kind) :
    Mirrored L C v w (viewMarked (SectionItem.view (w kind))) (t.onSectionItems p items)
      (t'.onSectionItems p' (items.map (SectionItem.view (v kind)))) := by
  induction items generalizing p p' with
  | nil =>
    rw [List.map_nil, Transform.onSectionItems, Transform.onSectionItems]
    exact ⟨hp, fun _ => rfl⟩
  | cons item items ih =>
    rw [List.forall_mem_cons] at hi
    obtain ⟨hitem, hrest⟩ := hi
    have hsteps (q : Progress) (hq : p.scope.ancestors = q.scope.ancestors) {q' : Progress}
        (hlike : q.Like L C q') := ih hlike
          (Scope.Within.congr (n := 0) ⟨hk, Nat.zero_le _⟩ hq.symm).sect
          (by rw [Scope.levels, ← hq]; exact hl) hrest
    have hbroken (q : Progress) (hs : (t.onSectionItems q items).2.Steady v w) : q.Steady v w :=
      hs.imp_right (t.back_onSectionItems q items).choose_spec.broken
    cases item with
    | statement s =>
      have hr := h.onStatement hp
        (.inl ⟨Scope.Within.shows_section ⟨hk, Nat.zero_le _⟩ hitem.1, hitem.2⟩)
      have hmore := hsteps _ (t.back_onStatement p s).ancestors.symm hr.like
      rw [List.map_cons, SectionItem.view, Transform.onSectionItems, Transform.onSectionItems]
      refine ⟨hmore.like, fun hsteady => ?_⟩
      exact congrArg₂ List.cons
        (congrArg (fun x => (SectionItem.statement x.1, x.2)) (hr.seen (hbroken _ hsteady)))
        (hmore.seen hsteady)
    | block b =>
      have hp0 : Progress.Like L C { p with blockFollows := items.any (·.isBlock) }
          { p' with blockFollows := items.any (·.isBlock) } :=
        ⟨hp.scope, hp.calm, hp.index, hp.broken, hp.off, hp.silent, rfl, hp.sectionFollows⟩
      have hr := h.onBlock hp0 hk hl hitem
      have hback := t.back_onBlock { p with blockFollows := items.any (·.isBlock) } b
      have hmore := hsteps _ hback.ancestors.symm hr.like
      rw [List.map_cons, SectionItem.view, Transform.onSectionItems, Transform.onSectionItems,
        any_isBlock_view]
      refine ⟨hmore.like, fun hsteady => ?_⟩
      exact congrArg₂ List.cons
        (congrArg (fun x => (SectionItem.block x.1, x.2)) (hr.seen (hbroken _ hsteady)))
        (hmore.seen hsteady)

/-- The items of a section that is left. -/
theorem Mirrors.onSectionBody (h : t.Mirrors t' L C S H v w) (hp : p.Like L C p')
    (hk : p.scope.section?.map (·.kind) = some kind) {header : Option (Marked Statement)}
    {items : List (Marked SectionItem)} (header' : Option (Marked Statement))
    (items' : List (Marked SectionItem)) (hh : ∀ r ∈ header, H kind r.1)
    (hi : ∀ item ∈ unmark items, item.Holds (S kind) kind)
    (hsame : p.Steady v w → header' = header.map (fun x => (w kind x.1, x.2)) ∧
      items' = viewMarked (SectionItem.view (w kind)) items) :
    Mirrored L C v w (viewMarked (SectionItem.view (w kind))) (t.onSectionBody p kind header items)
      (t'.onSectionBody p' kind header' items') := by
  rw [Transform.onSectionBody, Transform.onSectionBody, hp.broken]
  cases hb : p.broken with
  | some reason => exact ⟨hp, fun hsteady => (hsame hsteady).2⟩
  | none =>
    obtain ⟨rfl, rfl⟩ := hsame (.inr hb)
    have hremark :
        p'.remark SectionItem.statements (viewMarked (SectionItem.view (w kind)) items) =
          viewMarked (SectionItem.view (w kind)) (p.remark SectionItem.statements items) :=
      remark_view hp (fun item _ => item.statements_view) fun hL item hitem s hs =>
        (h.labels hL (.inl ((hi item hitem).statements s hs))).2
    rw [hremark]
    have hi' : ∀ item ∈ unmark (p.remark SectionItem.statements items),
        item.Holds (S kind) kind := by
      rw [Progress.unmark_remark]
      exact hi
    have hsect := h.sect hp.calm hp.place hk hh hi'
    dsimp only
    rw [hsect, Decision.guarded_map (fun new => isUncheckable kind (unmark new))
      fun new _ => by rw [unmark_viewMarked, isUncheckable_view]]
    refine ⟨hp.carryOut (Decision.breakdown?_map _ _), fun _ => ?_⟩
    rw [Progress.carryOut_fst, Progress.carryOut_fst]
    refine Decision.outcome_map fun new hguarded => flawsOf_eq_nil ?_
    have hput := (Decision.guarded_eq_put_iff.1 hguarded).1
    rw [unmark_viewMarked]
    refine view_sectionIssues fun s hs => ?_
    obtain ⟨item, hitem, hs⟩ := List.mem_flatMap.1 hs
    exact h.shows (.inl ((h.keeps.sect hput hk hi' item hitem).statements s hs))

/-- The same for a section. -/
theorem Mirrors.onSection (h : t.Mirrors t' L C S H v w) (hp : p.Like L C p')
    (hl : p.scope.levels = 0) {s : Section} (hs : s.Holds S H) :
    Mirrored L C v w (Section.view w) (t.onSection p s) (t'.onSection p' (s.view v)) := by
  have hk0 : (p.enter (.sect s)).scope.section?.map (·.kind) = some s.kind := rfl
  have hl0 : (p.enter (.sect s)).scope.levels = 0 := hl
  have hp0 : (p.enter (.sect s)).Like L C (p'.enter (.sect (s.view v))) := by
    refine h.onEnter s.kind hp ?_ ?_ fun r hr => .inr (hs.header r hr)
    · exact congrArg (fun b => (NodeType.sect, some s.kind, b)) Option.isNone_map
    · show (s.header.map (v s.kind)).bind _ = s.header.bind _
      cases hheader : s.header with
      | none => rfl
      | some r => exact (h.sees (.inr (hs.header r hheader))).directive?
  rw [Transform.onSection, Transform.onSection]
  dsimp only [Section.view] at hp0 ⊢
  generalize p.enter (.sect s) = q at hp0 hk0 hl0 ⊢
  have hr1 := h.onStatement? hp0 fun r hr => .inr ⟨hk0, hl0, hs.header r hr⟩
  have hh1 : ∀ r ∈ (t.onStatement? q s.header).1, H s.kind r.1 := by
    intro r hr
    obtain ⟨old, hold, heq⟩ := (t.onStatement?_spec q s.header).2.1 r.1 (Option.mem_map_of_mem _ hr)
    rw [heq]
    exact h.keeps.onHeader hk0 hl0 (hs.header old hold)
  have hw1 := Scope.Within.congr ⟨hk0, Nat.zero_le _⟩ (t.back_onStatement? q s.header).ancestors
  have hl1 : (t.onStatement? q s.header).2.scope.levels = 0 := by
    rw [Scope.levels, (t.back_onStatement? q s.header).ancestors]
    exact hl0
  generalize t.onStatement? q s.header = r1 at hr1 hh1 hw1 hl1 ⊢
  generalize t'.onStatement? _ (s.header.map (v s.kind)) = r1' at hr1 ⊢
  have hr2 := h.onSectionItems hr1.like hw1.sect hl1 hs.items
  have hi2 := (h.keeps.onSectionItems hw1.sect hl1 hs.items).1
  obtain ⟨b, hb2⟩ := t.back_onSectionItems r1.2 s.body
  have hw2 := hw1.congr hb2.ancestors
  generalize t.onSectionItems r1.2 s.body = r2 at hr2 hi2 hb2 hw2 ⊢
  generalize t'.onSectionItems r1'.2 _ = r2' at hr2 ⊢
  have hr3 := h.onSectionBody hr2.like hw2.sect r1'.1 r2'.1 hh1 hi2
    fun hsteady => ⟨hr1.seen (hsteady.imp_right hb2.broken), hr2.seen hsteady⟩
  have hb3 := t.back_onSectionBody r2.2 s.kind r1.1 r2.1
  generalize t.onSectionBody r2.2 s.kind r1.1 r2.1 = r3 at hr3 hb3 ⊢
  generalize t'.onSectionBody r2'.2 s.kind r1'.1 r2'.1 = r3' at hr3 ⊢
  refine ⟨h.onLeave hr3.like, fun hsteady => ?_⟩
  obtain ⟨header', p1⟩ := r1'
  obtain ⟨body', p3⟩ := r3'
  obtain rfl : header' = _ := hr1.seen ((hb3.steady hsteady).imp_right hb2.broken)
  obtain rfl : body' = _ := hr3.seen hsteady
  have hheader : (r1.1.map fun x => (w s.kind x.1, x.2)).map (·.1) =
      (r1.1.map (·.1)).map (w s.kind) := by
    cases r1.1 <;> rfl
  dsimp only
  rw [hheader, settle_seen hr3.like hsteady (fun hvw => congrArg Option.map (congrFun hvw s.kind)),
    unmark_viewMarked]
  rfl

/-- A run that ends unbroken started unbroken. -/
theorem unbroken_onSections (t : Transform) {p : Progress} {ss : List Section}
    (h : (t.onSections p ss).2.broken = none) : p.broken = none := by
  induction ss generalizing p with
  | nil => exact h
  | cons s ss ih =>
    rw [Transform.onSections] at h
    exact (t.back_onSection { p with sectionFollows := !ss.isEmpty } s).choose_spec.broken (ih h)

/-- The same for the sections of a file. -/
theorem Mirrors.onSections (h : t.Mirrors t' L C S H v w) (hp : p.Like L C p')
    (hl : p.scope.levels = 0) {ss : List Section} (hs : ∀ s ∈ ss, s.Holds S H) :
    Mirrored L C v w (List.map (Section.view w)) (t.onSections p ss)
      (t'.onSections p' (ss.map (Section.view v))) ∧
        (t.onSections p ss).2.scope.levels = 0 := by
  induction ss generalizing p p' with
  | nil =>
    rw [List.map_nil, Transform.onSections, Transform.onSections]
    exact ⟨⟨hp, fun _ => rfl⟩, hl⟩
  | cons s ss ih =>
    rw [List.forall_mem_cons] at hs
    have hp0 : Progress.Like L C { p with sectionFollows := !ss.isEmpty }
        { p' with sectionFollows := !ss.isEmpty } :=
      ⟨hp.scope, hp.calm, hp.index, hp.broken, hp.off, hp.silent, hp.blockFollows, rfl⟩
    have hr := h.onSection hp0 hl hs.1
    obtain ⟨b, hback⟩ := t.back_onSection { p with sectionFollows := !ss.isEmpty } s
    obtain ⟨hmore, hlevels⟩ := ih hr.like (by rw [Scope.levels, hback.ancestors]; exact hl) hs.2
    rw [List.map_cons, Transform.onSections, Transform.onSections, List.isEmpty_map]
    refine ⟨⟨hmore.like, fun hsteady => ?_⟩, hlevels⟩
    exact congrArg₂ List.cons (hr.seen (hsteady.imp_right t.unbroken_onSections))
      (hmore.seen hsteady)

/-! ### Files -/

/-- The sections of a file that is left. -/
theorem Mirrors.onFileBody (h : t.Mirrors t' L C S H v w) (hp : p.Like L C p')
    {ss ss' : List Section} (hs : ∀ s ∈ ss, s.Holds S H)
    (hsame : p.Steady v w → ss' = ss.map (Section.view w)) :
    Mirrored L C v w (List.map (Section.view w)) (t.onFileBody p ss) (t'.onFileBody p' ss') := by
  rw [Transform.onFileBody, Transform.onFileBody, hp.broken]
  cases hb : p.broken with
  | some reason => exact ⟨hp, hsame⟩
  | none =>
    obtain rfl := hsame (.inr hb)
    have hfile := h.file hp.place hs
    dsimp only
    rw [hfile, Decision.guarded_map (fun new => new.any (·.isUncheckable))
      fun new _ => any_isUncheckable_view]
    refine ⟨hp.carryOut (Decision.breakdown?_map _ _), fun _ => ?_⟩
    rw [Progress.carryOut_fst, Progress.carryOut_fst]
    refine Decision.outcome_map fun new hguarded =>
      flawsOf_eq_nil (view_sectionsIssues fun s hmem r hr => ?_)
    have hput := (Decision.guarded_eq_put_iff.1 hguarded).1
    have hsound := h.keeps.file hput hs s hmem
    rcases List.mem_append.1 hr with hr | hr
    · exact h.shows (.inr (hsound.header r (by simpa using hr)))
    · obtain ⟨item, hitem, hr⟩ := List.mem_flatMap.1 hr
      exact h.shows (.inl ((hsound.items item hitem).statements r hr))

/-- **What the second walk leads to is what is seen of where the first one leads,** unless the walks
break off and what is seen in front of them and behind them is not the same.  They break off alike
in any case. -/
theorem Mirrors.run (h : t.Mirrors t' L C S H v w) {f : File}
    (hf : ∀ s ∈ f.sections, s.Holds S H) :
    (t'.run (f.view v)).broken = (t.run f).broken ∧
      (v = w ∨ (t.run f).broken = none → (t'.run (f.view v)).tree = (t.run f).tree.view w) := by
  have hp0 : (({} : Progress).enter (.file f)).Like L C
      (({} : Progress).enter (.file (f.view v))) :=
    h.onEnter .comments ⟨⟨rfl, rfl⟩, h.start, rfl, rfl, rfl, .inr rfl, rfl, rfl⟩ rfl rfl
      fun r hr => absurd hr (Option.not_mem_none r)
  obtain ⟨hr, -⟩ := h.onSections hp0 rfl hf
  have hs := h.keeps.onSections (p := ({} : Progress).enter (.file f)) rfl hf
  rw [Transform.run, Transform.run]
  dsimp only [File.view] at hr ⊢
  generalize t.onSections (({} : Progress).enter (.file f)) f.sections = r at hr hs ⊢
  generalize t'.onSections _ (f.sections.map (Section.view v)) = r' at hr ⊢
  have hnew := h.onFileBody hr.like hs hr.seen
  exact ⟨hnew.like.broken, fun hsteady => by rw [hnew.seen hsteady]⟩

/-! ### Sections without statements -/

/-- A section without statements is left as it is. -/
theorem onSection_of_statements_eq_nil (hsect : t.leaveSection = fun _ _ _ => .keep)
    (p : Progress) {s : Section} (hs : s.statements = []) : t.onSection p s = (s, p) := by
  obtain ⟨kind, span, header, body, label⟩ := s
  obtain ⟨hheader, hbody⟩ := List.append_eq_nil_iff.1 hs
  obtain rfl : header = none := Option.toList_eq_nil_iff.1 hheader
  obtain rfl : body = [] := itemsStatements_eq_nil hbody
  have hleave (c : Container) : (p.enter c).leave = p := by
    rw [Progress.leave, Progress.enter, Scope.leave_enter]
  have hmarks (q : Progress) : q.remark SectionItem.statements [] = [] := by
    rw [Progress.remark, List.map_nil, ite_self]
  have hsettle (q : Progress) : q.settle (none : Option Statement) none = none := by
    rw [Progress.settle, ite_self]
  rw [onSection]
  simp only [onStatement?, onSectionItems, onSectionBody, hsect, hmarks, Option.map_none, hsettle]
  split <;> exact congrArg (Prod.mk _) (hleave _)

/-- Whether a further section follows is told anew at each section. -/
theorem onSections_congr (t : Transform) (p : Progress) (follows : Bool) (ss : List Section) :
    (t.onSections { p with sectionFollows := follows } ss).1 = (t.onSections p ss).1 ∧
      (t.onSections { p with sectionFollows := follows } ss).2.broken =
        (t.onSections p ss).2.broken := by
  cases ss <;> exact ⟨rfl, rfl⟩

/-- Transforms that leave the sections of a file alone lead to those of the walk. -/
theorem run_of_leaveFile (hfile : t.leaveFile = fun _ _ => .keep) (f : File) :
    (t.run f).tree =
        { f with sections := (t.onSections (({} : Progress).enter (.file f)) f.sections).1 } ∧
      (t.run f).broken = (t.onSections (({} : Progress).enter (.file f)) f.sections).2.broken := by
  rw [run]
  dsimp only
  rw [onFileBody, hfile]
  split <;> exact ⟨rfl, rfl⟩

/-- **A section without statements does not matter.**  In front of other sections it is left as it is,
and what is seen of them behind the walk is what it would be without that section. -/
theorem Mirrors.run_cons (h : t.Mirrors t' L C S H v w) (hsect : t.leaveSection = fun _ _ _ => .keep)
    (hfile : t.leaveFile = fun _ _ => .keep) (f : File) {s : Section} {ss : List Section}
    (hs : s.statements = []) (hss : ∀ s ∈ ss, s.Holds S H) :
    let whole := t.run { f with sections := s :: ss }
    let rest := t.run { f with sections := ss }
    whole.broken = rest.broken ∧ ∃ new, whole.tree = { f with sections := s :: new } ∧
      (v = w ∨ rest.broken = none →
        { f with sections := new }.view w = rest.tree.view w) := by
  intro whole rest
  have hlike (f g : File) : (({} : Progress).enter (.file f)).Like L C
      (({} : Progress).enter (.file (g.view v))) :=
    h.onEnter .comments ⟨⟨rfl, rfl⟩, h.start, rfl, rfl, rfl, .inr rfl, rfl, rfl⟩ rfl rfl
      fun r hr => absurd hr (Option.not_mem_none r)
  obtain ⟨hwhole, hbroken⟩ := run_of_leaveFile hfile { f with sections := s :: ss }
  obtain ⟨hrest, hrestBroken⟩ := run_of_leaveFile hfile { f with sections := ss }
  dsimp only at hwhole hbroken hrest hrestBroken
  generalize hp : ({} : Progress).enter (.file { f with sections := s :: ss }) = p at hwhole hbroken
  generalize hq : ({} : Progress).enter (.file { f with sections := ss }) = q at hrest hrestBroken
  obtain ⟨hp, -⟩ := h.onSections (hp ▸ hlike _ { f with sections := ss }) (hp ▸ rfl) hss
  obtain ⟨hq, -⟩ := h.onSections (hq ▸ hlike _ { f with sections := ss }) (hq ▸ rfl) hss
  obtain ⟨hcons, hconsBroken⟩ := t.onSections_congr p (!ss.isEmpty) ss
  rw [Transform.onSections, onSection_of_statements_eq_nil hsect _ hs] at hwhole hbroken
  dsimp only at hwhole hbroken
  rw [hcons] at hwhole
  rw [hconsBroken] at hbroken
  have hsame : whole.broken = rest.broken :=
    (hbroken.trans hp.like.broken.symm).trans (hq.like.broken.trans hrestBroken.symm)
  refine ⟨hsame, _, hwhole, fun hsteady => ?_⟩
  have hpseen := hp.seen (hsteady.imp_right fun hnone => hbroken.symm.trans (hsame.trans hnone))
  have hqseen := hq.seen (hsteady.imp_right fun hnone => hrestBroken.symm.trans hnone)
  show File.view w _ = File.view w rest.tree
  rw [hrest, File.view, File.view, ← hpseen, hqseen]

end

end Transform
end RobotSuite
