/-
# Merged sections

Sections of one kind are put behind the first of them, one after the other (`addSection`).  What has
been merged so far holds one section of each kind that has come, in the order in which the kinds
came first, and each holds what `joined` says (`Merges`): one step keeps that (`Merges.addSection`),
so it is true of a whole file (`merges_foldl`).  Sorting is stable and what is moved away from the
end gets a line break, so the sections of a file come out as `Arranged` says.

The new sections are clear, so they are not refused and the text is read back as they are.  What is
read back has one section of each kind, in order: the pass finds nothing to do, and so does the rule
that looks at the order (`sections_arranged`).
-/

import Mathlib.Data.List.Induction
import RobotSuite.Proofs.Data.StableSorts
import RobotSuite.Proofs.Lint.LayoutAgreement
import RobotSuite.Proofs.Statement.Clear
import RobotSuite.Proofs.Transform.WholeSections

namespace RobotSuite

/-! ## Statements that got line breaks -/

section
variable {newline : String}

/-- A statement that got a line break needs no other. -/
theorem terminate_terminate (hn : newline ≠ "") (s : Statement) :
    (s.terminate newline).terminate newline = s.terminate newline := by
  obtain ⟨t, ht, hv⟩ := exists_lastEol_terminate hn s
  rw [Statement.terminate.eq_def newline (s.terminate newline), ht]
  exact if_neg hv

/-- What is completed twice is completed. -/
theorem Completed.trans (hn : newline ≠ "") {a b c : List Statement} (h : Completed newline a b)
    (h' : Completed newline b c) : Completed newline a c := by
  induction h generalizing c with
  | nil => exact h'
  | cons hs _ ih =>
    cases h' with
    | cons hr hrest =>
      refine List.Forall₂.cons ?_ (ih hrest)
      rcases hr with rfl | rfl
      · exact hs
      · rcases hs with rfl | rfl
        · exact .inr rfl
        · exact .inr (terminate_terminate hn _)

/-- A section with a line break at its end is of the same kind. -/
@[simp] theorem Section.terminate_kind (newline : String) (s : Section) :
    (s.terminate newline).kind = s.kind := by
  unfold Section.terminate
  split <;> rfl

end

/-- A clear section that can be merged into another.  If its kind lists no statements, there is no
comment behind its header to become one. -/
structure Section.IsMergeable (s : Section) : Prop extends s.IsClear where
  bare : s.kind.isInherited = true → ∀ h ∈ s.header, commentTexts h.tokens = []

namespace MergeSections

/-! ## Merging -/

/-- The statements of the sections of one kind, put behind each other: each section behind the first
gives the comment of its header and what stands below. -/
def joined (newline : String) (kind : SectionKind) (ss : List Section) : List Statement :=
  match ss.filter (·.kind = kind) with
  | [] => []
  | first :: more =>
    itemsStatements first.body ++
      more.flatMap fun s => itemsStatements (headerComment newline s ++ s.body)

/-- A section that has the header of the first section of its kind, and the statements of all of
them. -/
structure Joins (newline : String) (ss : List Section) (r : Section) : Prop where
  header : ∃ s, ss.find? (·.kind = r.kind) = some s ∧
    Completed newline s.header.toList r.header.toList
  body : Completed newline (joined newline r.kind ss) (itemsStatements r.body)

/-- Sections have been merged: one of each kind is left, in the order in which the kinds have
come. -/
structure Merges (newline : String) (ss merged : List Section) : Prop where
  kinds : merged.map (·.kind) = (ss.map (·.kind)).eraseDups
  joins : ∀ r ∈ merged, Joins newline ss r

section
variable {newline : String} {ss merged : List Section} {r s : Section}

/-- A section of another kind adds nothing. -/
theorem joined_concat_of_ne {kind : SectionKind} (h : s.kind ≠ kind) :
    joined newline kind (ss ++ [s]) = joined newline kind ss := by
  have hs : [s].filter (·.kind = kind) = [] := by simp [h]
  rw [joined, joined, List.filter_append, hs, List.append_nil]

/-- The first section of a kind gives its items. -/
theorem joined_concat_first (h : ∀ t ∈ ss, t.kind ≠ s.kind) :
    joined newline s.kind (ss ++ [s]) = itemsStatements s.body := by
  have hss : ss.filter (·.kind = s.kind) = [] := by simpa using h
  have hs : [s].filter (·.kind = s.kind) = [s] := by simp
  rw [joined, List.filter_append, hss, hs]
  exact List.append_nil _

/-- A further section of a kind gives its comment and its items. -/
theorem joined_concat_next (h : ∃ t ∈ ss, t.kind = s.kind) :
    joined newline s.kind (ss ++ [s]) =
      joined newline s.kind ss ++ itemsStatements (headerComment newline s ++ s.body) := by
  have hs : [s].filter (·.kind = s.kind) = [s] := by simp
  rw [joined, joined, List.filter_append, hs]
  cases hss : ss.filter (·.kind = s.kind) with
  | nil =>
    obtain ⟨t, ht, hk⟩ := h
    simp only [List.filter_eq_nil_iff, decide_eq_true_eq] at hss
    exact absurd hk (hss t ht)
  | cons first more =>
    rw [List.cons_append]
    dsimp only
    rw [List.flatMap_append, List.flatMap_singleton, List.append_assoc]

/-- A section of another kind makes no difference. -/
theorem Joins.concat (h : Joins newline ss r) (hk : s.kind ≠ r.kind) :
    Joins newline (ss ++ [s]) r := by
  obtain ⟨first, hfind, hheader⟩ := h.header
  refine ⟨⟨first, ?_, hheader⟩, ?_⟩
  · rw [List.find?_append, hfind]
    rfl
  · rw [joined_concat_of_ne hk]
    exact h.body

/-- The first section of a kind is all there is of it. -/
theorem joins_first (h : ∀ t ∈ ss, t.kind ≠ s.kind) : Joins newline (ss ++ [s]) s := by
  refine ⟨⟨s, ?_, .refl _ _⟩, ?_⟩
  · have hnone : ss.find? (·.kind = s.kind) = none := by simpa using h
    rw [List.find?_append, hnone]
    simp
  · rw [joined_concat_first h]

/-- A section that joins others joins them with a line break at its end. -/
theorem Joins.terminate (hn : newline ≠ "") (h : Joins newline ss r) :
    Joins newline ss (r.terminate newline) := by
  obtain ⟨first, hfind, hheader⟩ := h.header
  obtain ⟨hparts, hbody⟩ := r.completed_terminate_parts newline
  refine ⟨⟨first, ?_, hheader.trans hn hparts⟩, ?_⟩
  · rw [Section.terminate_kind, hfind]
  · rw [Section.terminate_kind]
    exact h.body.trans hn hbody

/-- A further section of the same kind is put behind what is there. -/
theorem Joins.mergeInto (hn : newline ≠ "") (h : Joins newline ss r) (hk : r.kind = s.kind) :
    Joins newline (ss ++ [s]) (mergeInto newline r s) := by
  obtain ⟨⟨first, hfind, hheader⟩, hbody⟩ := h.terminate hn
  have hkind : (MergeSections.mergeInto newline r s).kind = s.kind :=
    (r.terminate_kind newline).trans hk
  rw [Section.terminate_kind, hk] at hfind hbody
  refine ⟨⟨first, ?_, hheader⟩, ?_⟩
  · rw [hkind, List.find?_append, hfind]
    rfl
  · have hfirst := List.find?_some hfind
    rw [hkind, joined_concat_next ⟨first, List.mem_of_find?_eq_some hfind, by simpa using hfirst⟩,
      MergeSections.mergeInto, itemsStatements_appendItems]
    exact hbody.append (.refl _ _)

/-! ## One step, and all of them -/

/-- A new element is added at the end. -/
theorem eraseDups_concat {α : Type} [DecidableEq α] (l : List α) (x : α) :
    (l ++ [x]).eraseDups = if x ∈ l then l.eraseDups else l.eraseDups ++ [x] := by
  rw [List.eraseDups_append]
  split
  · rename_i hx
    simp [List.removeAll, hx]
  · rename_i hx
    simp [List.removeAll, hx, List.eraseDups_cons]

/-- The first occurrences of elements come in the order of their places. -/
theorem pairwise_idxOf_eraseDups {α : Type} [DecidableEq α] (l : List α) :
    l.eraseDups.Pairwise fun a b => l.idxOf a < l.idxOf b := by
  induction l using List.reverseRecOn with
  | nil => simp
  | append_singleton l x ih =>
    have hold {a : α} (ha : a ∈ l.eraseDups) : (l ++ [x]).idxOf a = l.idxOf a :=
      List.idxOf_append_of_mem (List.mem_eraseDups.1 ha)
    have hfront : l.eraseDups.Pairwise fun a b => (l ++ [x]).idxOf a < (l ++ [x]).idxOf b :=
      ih.imp_of_mem fun ha hb h => by rwa [hold ha, hold hb]
    rw [eraseDups_concat]
    split
    · exact hfront
    · rename_i hx
      refine List.pairwise_append.2 ⟨hfront, List.pairwise_singleton _ _, fun a ha b hb => ?_⟩
      obtain rfl := List.mem_singleton.1 hb
      rw [hold ha, List.idxOf_append_of_notMem hx]
      have := List.idxOf_lt_length_iff.2 (List.mem_eraseDups.1 ha)
      omega

/-- Nothing is left twice. -/
theorem nodup_eraseDups {α : Type} [DecidableEq α] (l : List α) : l.eraseDups.Nodup :=
  (pairwise_idxOf_eraseDups l).imp fun h he => by simp [he] at h

/-- A section of a new kind stands behind the others. -/
theorem addSection_of_new (h : ∀ t ∈ merged, t.kind ≠ s.kind) :
    addSection newline merged s = merged ++ [s] := by
  induction merged with
  | nil => rfl
  | cons t merged ih =>
    rw [List.forall_mem_cons] at h
    rw [addSection, if_neg (by simp [h.1]), ih h.2, List.cons_append]

/-- A section of a kind that is there joins the first of it. -/
theorem addSection_of_mem {front back : List Section} {t : Section} (hs : s.kind ≠ .invalid)
    (hf : ∀ r ∈ front, r.kind ≠ s.kind) (ht : t.kind = s.kind) :
    addSection newline (front ++ t :: back) s = front ++ mergeInto newline t s :: back := by
  induction front with
  | nil => rw [List.nil_append, addSection, if_pos (by simp [ht, hs]), List.nil_append]
  | cons r front ih =>
    rw [List.forall_mem_cons] at hf
    rw [List.cons_append, addSection, if_neg (by simp [hf.1]), ih hf.2, List.cons_append]

/-- **One more section is merged.** -/
theorem Merges.addSection (hn : newline ≠ "") (h : Merges newline ss merged)
    (hs : s.kind ≠ .invalid) : Merges newline (ss ++ [s]) (addSection newline merged s) := by
  have hkinds : ((ss ++ [s]).map (·.kind)).eraseDups =
      if s.kind ∈ ss.map (·.kind) then merged.map (·.kind)
      else merged.map (·.kind) ++ [s.kind] := by
    rw [List.map_append, List.map_singleton, eraseDups_concat, h.kinds]
  have hnodup := nodup_eraseDups (ss.map (·.kind))
  rw [← h.kinds] at hnodup
  by_cases hold : s.kind ∈ ss.map (·.kind)
  · have hmem : s.kind ∈ merged.map (·.kind) := by rwa [h.kinds, List.mem_eraseDups]
    obtain ⟨t, ht, hk⟩ := List.mem_map.1 hmem
    obtain ⟨front, back, rfl⟩ := List.append_of_mem ht
    rw [List.map_append, List.map_cons, List.nodup_append, List.nodup_cons] at hnodup
    have hfront : ∀ r ∈ front, r.kind ≠ s.kind := fun r hr =>
      hk ▸ hnodup.2.2 r.kind (List.mem_map_of_mem hr) t.kind List.mem_cons_self
    have hback : ∀ r ∈ back, s.kind ≠ r.kind := fun r hr he =>
      hnodup.2.1.1 (hk.trans he ▸ List.mem_map_of_mem hr)
    rw [addSection_of_mem hs hfront hk]
    refine ⟨?_, fun r hr => ?_⟩
    · have hkind : (mergeInto newline t s).kind = t.kind := t.terminate_kind newline
      rw [hkinds, if_pos hold, List.map_append, List.map_append, List.map_cons, List.map_cons,
        hkind]
    · rcases List.mem_append.1 hr with hr | hr
      · exact (h.joins r (List.mem_append_left _ hr)).concat (hfront r hr).symm
      · rcases List.mem_cons.1 hr with rfl | hr
        · exact (h.joins t ht).mergeInto hn hk
        · exact (h.joins r (List.mem_append_right _ (List.mem_cons_of_mem _ hr))).concat
            (hback r hr)
  · have hnew : ∀ t ∈ ss, t.kind ≠ s.kind := fun t ht he =>
      hold (he ▸ List.mem_map_of_mem ht)
    have hmerged : ∀ t ∈ merged, t.kind ≠ s.kind := by
      intro t ht he
      have hmem : t.kind ∈ merged.map (·.kind) := List.mem_map_of_mem ht
      rw [h.kinds, List.mem_eraseDups, he] at hmem
      exact hold hmem
    rw [addSection_of_new hmerged]
    refine ⟨?_, List.forall_mem_append.2 ⟨fun r hr => ?_, ?_⟩⟩
    · rw [hkinds, if_neg hold, List.map_append, List.map_singleton]
    · exact (h.joins r hr).concat (hmerged r hr).symm
    · simpa using joins_first hnew

/-- **All sections are merged.** -/
theorem merges_foldl (hn : newline ≠ "") (hs : ∀ s ∈ ss, s.kind ≠ .invalid) :
    Merges newline ss (ss.foldl (addSection newline) []) := by
  induction ss using List.reverseRecOn with
  | nil => exact ⟨rfl, by simp⟩
  | append_singleton ss s ih =>
    rw [List.forall_mem_append] at hs
    rw [List.foldl_append]
    exact (ih hs.1).addSection hn (hs.2 s List.mem_cons_self)

end

/-! ## Order -/

/-- A list of which nothing is taken has nothing twice. -/
theorem nodup_of_length_eraseDups {α : Type} [DecidableEq α] {l : List α}
    (h : l.eraseDups.length = l.length) : l.Nodup := by
  have hsub : l.eraseDups ⊆ l := fun _ hx => List.mem_eraseDups.1 hx
  have hperm := (List.subperm_of_subset (nodup_eraseDups l) hsub).perm_of_length_le h.ge
  exact hperm.nodup_iff.1 (nodup_eraseDups l)

/-- Whether sections of one kind come in front of those of another: by the first places of the kinds
in an order, which are behind it for kinds that it does not name, and then by the kinds that have
come. -/
def Precedes (order : List String) (kinds : List SectionKind) (a b : SectionKind) : Prop :=
  kindRank order a < kindRank order b ∨
    kindRank order a = kindRank order b ∧ kinds.idxOf a < kinds.idxOf b

/-- The sections of a file merged and in order: `lead` without header, and `others` with one. -/
structure Arranged (order : List String) (newline : String) (old lead others : List Section) :
    Prop where
  lead : List.Forall₂
    (fun s r => r.header = none ∧ Completed newline s.statements r.statements)
    (old.filter (·.header.isNone)) lead
  headers : ∀ r ∈ others, r.header ≠ none
  kinds : (others.map (·.kind)).Nodup
  present : ∀ kind, kind ∈ others.map (·.kind) ↔
    kind ∈ (old.filter (·.header.isSome)).map (·.kind)
  sorted : (others.map (·.kind)).Pairwise
    (Precedes order ((old.filter (·.header.isSome)).map (·.kind)))
  joins : ∀ r ∈ others, Joins newline (old.filter (·.header.isSome)) r
  blocks : ∀ r ∈ others, leadsBlocks r.body

section
variable {newline : String} {order : List String} {ss merged : List Section}

/-- Sections are compared by their rank, and ranks are ordered. -/
theorem rank_trans (order : List String) (a b c : Section) :
    decide (rank order a ≤ rank order b) → decide (rank order b ≤ rank order c) →
      decide (rank order a ≤ rank order c) := by
  simp only [decide_eq_true_eq]
  exact Nat.le_trans

/-- Any two sections can be compared. -/
theorem rank_total (order : List String) (a b : Section) :
    decide (rank order a ≤ rank order b) || decide (rank order b ≤ rank order a) := by
  simpa using Nat.le_total _ _

/-- **Sorting puts merged sections in order,** those of one place as they have come. -/
theorem precedes_sortSections (order : List String) (h : Merges newline ss merged) :
    ((sortSections order merged).map (·.kind)).Pairwise
      (Precedes order (ss.map (·.kind))) := by
  have hcome : merged.Pairwise fun a b =>
      (ss.map (·.kind)).idxOf a.kind < (ss.map (·.kind)).idxOf b.kind := by
    have hkinds := pairwise_idxOf_eraseDups (ss.map (·.kind))
    rw [← h.kinds, List.pairwise_map] at hkinds
    exact hkinds
  have hsorted := List.pairwise_mergeSort (rank_trans order) (rank_total order) merged
  have hties := pairwise_mergeSort_ties (rank_trans order) (rank_total order) hcome
  rw [List.pairwise_map]
  refine (hsorted.and hties).imp fun {a b} hab => ?_
  simp only [decide_eq_true_eq] at hab
  rcases Nat.lt_or_eq_of_le hab.1 with hlt | heq
  · exact .inl hlt
  · exact .inr ⟨heq, hab.2 heq.ge⟩

/-- The sections without headers are in front. -/
theorem splitLead_eq (hh : ∀ s ∈ ss.tail, s.header ≠ none) :
    splitLead ss = (ss.filter (·.header.isNone), ss.filter (·.header.isSome)) := by
  have hall (rest : List Section) (hrest : ∀ s ∈ rest, s.header ≠ none) :
      rest.filter (·.header.isNone) = [] ∧ rest.filter (·.header.isSome) = rest := by
    simp only [List.filter_eq_nil_iff, List.filter_eq_self, Option.isNone_iff_eq_none,
      Option.isSome_iff_ne_none]
    exact ⟨hrest, hrest⟩
  cases ss with
  | nil => rfl
  | cons s ss =>
    obtain ⟨hnone, hsome⟩ := hall ss hh
    rw [splitLead, List.filter_cons, List.filter_cons, hnone, hsome]
    cases s.header <;> rfl

/-- A section that may have got a line break at its end. -/
def Ended (newline : String) (s r : Section) : Prop := r = s ∨ r = s.terminate newline

/-- All sections but the last get line breaks at their ends. -/
theorem ended_terminateFront (ss : List Section) :
    List.Forall₂ (Ended newline) ss (terminateFront newline ss) := by
  induction ss with
  | nil => exact .nil
  | cons s ss ih =>
    cases ss with
    | nil => exact .cons (.inl rfl) .nil
    | cons next ss =>
      have hfront : terminateFront newline (s :: next :: ss) =
          s.terminate newline :: terminateFront newline (next :: ss) := by
        simp [terminateFront]
      rw [hfront]
      exact .cons (.inr rfl) ih

/-- Sections that are ended are ended in each of two parts. -/
theorem ended_append {a b c : List Section} (h : List.Forall₂ (Ended newline) (a ++ b) c) :
    ∃ lead others, c = lead ++ others ∧ List.Forall₂ (Ended newline) a lead ∧
      List.Forall₂ (Ended newline) b others := by
  induction a generalizing c with
  | nil => exact ⟨[], c, rfl, .nil, h⟩
  | cons s a ih =>
    cases h with
    | cons hs hrest =>
      obtain ⟨lead, others, rfl, hlead, hothers⟩ := ih hrest
      exact ⟨_ :: lead, others, rfl, .cons hs hlead, hothers⟩

/-- What does not depend on line breaks at the end holds of sections that may have got them. -/
theorem forall_of_ended {P : Section → Prop} (ht : ∀ s, P s → P (s.terminate newline))
    {old new : List Section} (h : List.Forall₂ (Ended newline) old new) (ho : ∀ s ∈ old, P s) :
    ∀ s ∈ new, P s := by
  induction h with
  | nil => exact ho
  | cons hs _ ih =>
    rw [List.forall_mem_cons] at ho ⊢
    refine ⟨?_, ih ho.2⟩
    rcases hs with rfl | rfl
    · exact ho.1
    · exact ht _ ho.1

/-- Sections that are ended are of the same kinds. -/
theorem kinds_of_ended {old new : List Section} (h : List.Forall₂ (Ended newline) old new) :
    new.map (·.kind) = old.map (·.kind) := by
  induction h with
  | nil => rfl
  | cons hs _ ih =>
    rw [List.map_cons, List.map_cons, ih]
    rcases hs with rfl | rfl
    · rfl
    · rw [Section.terminate_kind]

/-- Sections without header still have none. -/
theorem lead_of_ended {old new : List Section} (ho : ∀ s ∈ old, s.header = none)
    (h : List.Forall₂ (Ended newline) old new) :
    List.Forall₂ (fun s r => r.header = none ∧ Completed newline s.statements r.statements)
      old new := by
  induction h with
  | nil => exact .nil
  | @cons s r _ _ hs _ ih =>
    rw [List.forall_mem_cons] at ho
    refine .cons ?_ (ih ho.2)
    rcases hs with rfl | rfl
    · exact ⟨ho.1, .refl _ _⟩
    · refine ⟨?_, s.completed_terminate newline⟩
      rw [Section.terminate]
      split
      · exact Option.map_eq_none_iff.2 ho.1
      · exact ho.1

/-- The sections without headers and the others are all sections. -/
theorem splitLead_append (ss : List Section) : (splitLead ss).1 ++ (splitLead ss).2 = ss := by
  unfold splitLead
  split
  · rfl
  · split <;> rfl

/-- Sections of kinds that have not come before are not merged. -/
theorem foldl_addSection_of_nodup (h : (ss.map (·.kind)).Nodup) :
    ss.foldl (addSection newline) [] = ss := by
  induction ss using List.reverseRecOn with
  | nil => rfl
  | append_singleton ss s ih =>
    rw [List.map_append, List.map_singleton, List.nodup_append] at h
    rw [List.foldl_append, ih h.1]
    exact addSection_of_new fun t ht =>
      h.2.2 t.kind (List.mem_map_of_mem ht) s.kind List.mem_cons_self

/-- **Merged sections in order are arranged,** with line breaks at their ends or without. -/
theorem arranged_of_ended (hn : newline ≠ "") {lead others : List Section}
    (hmerges : Merges newline (ss.filter (·.header.isSome)) merged)
    (hblocks : ∀ r ∈ merged, leadsBlocks r.body)
    (hlead : List.Forall₂ (Ended newline) (ss.filter (·.header.isNone)) lead)
    (hothers : List.Forall₂ (Ended newline) (sortSections order merged) others) :
    Arranged order newline ss lead others := by
  have hmem : ∀ r ∈ sortSections order merged, r ∈ merged := fun r hr => List.mem_mergeSort.1 hr
  have hkinds : ((sortSections order merged).map (·.kind)).Perm (merged.map (·.kind)) :=
    (List.mergeSort_perm _ _).map _
  have hjoins : ∀ r ∈ others, Joins newline (ss.filter (·.header.isSome)) r :=
    forall_of_ended (fun _ hr => hr.terminate hn) hothers fun r hr => hmerges.joins r (hmem r hr)
  refine
    { lead := lead_of_ended (by simp) hlead
      headers := fun r hr hnone => ?_
      kinds := ?_
      present := fun kind => ?_
      sorted := ?_
      joins := hjoins
      blocks := forall_of_ended (P := fun r => leadsBlocks r.body)
        (fun _ hr => leadsBlocks_terminate hr) hothers fun r hr => hblocks r (hmem r hr) }
  · obtain ⟨⟨s, hfind, hheader⟩, -⟩ := hjoins r hr
    have hs := (List.mem_filter.1 (List.mem_of_find?_eq_some hfind)).2
    have hlength := hheader.length_eq
    cases hh : s.header <;> simp_all
  · rw [kinds_of_ended hothers, hkinds.nodup_iff, hmerges.kinds]
    exact nodup_eraseDups _
  · rw [kinds_of_ended hothers, hkinds.mem_iff, hmerges.kinds, List.mem_eraseDups]
  · rw [kinds_of_ended hothers]
    exact precedes_sortSections order hmerges

/-- Where nothing is merged and the order stays, the sections are as they were. -/
theorem arrange_eq_none (hh : ∀ s ∈ ss.tail, s.header ≠ none)
    (hkinds : ((ss.filter (·.header.isSome)).map (·.kind)).Nodup)
    (hsorted : ((ss.filter (·.header.isSome)).map (·.kind)).Pairwise fun a b =>
      kindRank order a ≤ kindRank order b) : arrange order newline ss = none := by
  rw [List.pairwise_map] at hsorted
  have hsort : sortSections order (ss.filter (·.header.isSome)) =
      ss.filter (·.header.isSome) := by
    refine List.mergeSort_of_pairwise (hsorted.imp fun h => ?_)
    exact decide_eq_true h
  rw [arrange, splitLead_eq hh]
  dsimp only
  rw [foldl_addSection_of_nodup hkinds, hsort]
  simp

/-- Sections are arranged with line breaks at some of their ends, whether anything is moved or
not. -/
theorem arrange_ended (hn : newline ≠ "") (order : List String)
    (hh : ∀ s ∈ ss.tail, s.header ≠ none) (hk : ∀ s ∈ ss, s.kind ≠ .invalid) :
    ∃ lead others, (arrange order newline ss).getD ss = lead ++ others ∧
      List.Forall₂ (Ended newline) (ss.filter (·.header.isNone)) lead ∧
      List.Forall₂ (Ended newline) (sortSections order
        ((ss.filter (·.header.isSome)).foldl (addSection newline) [])) others := by
  have hmerges : Merges newline (ss.filter (·.header.isSome)) _ :=
    merges_foldl hn fun s hs => hk s (List.mem_filter.1 hs).1
  have hrefl (ss : List Section) : List.Forall₂ (Ended newline) ss ss :=
    List.forall₂_same.2 fun _ _ => .inl rfl
  rw [arrange]
  have hsplit := splitLead_append ss
  rw [splitLead_eq hh] at hsplit ⊢
  dsimp only at hsplit ⊢
  split
  · rename_i hnone
    simp only [Bool.and_eq_true, decide_eq_true_eq] at hnone
    obtain ⟨hlength, hranks⟩ := hnone
    have hnodup : ((ss.filter (·.header.isSome)).map (·.kind)).Nodup := by
      refine nodup_of_length_eraseDups ?_
      rw [← hmerges.kinds, List.length_map, List.length_map, hlength]
    rw [foldl_addSection_of_nodup hnodup] at hranks ⊢
    have hsorted := List.pairwise_mergeSort (rank_trans order) (rank_total order)
      (ss.filter (·.header.isSome))
    simp only [decide_eq_true_eq] at hsorted
    rw [← sortSections, ← List.pairwise_map (f := rank order) (R := (· ≤ ·)), hranks,
      List.pairwise_map] at hsorted
    have hsort : sortSections order (ss.filter (·.header.isSome)) =
        ss.filter (·.header.isSome) :=
      List.mergeSort_of_pairwise (hsorted.imp fun h => decide_eq_true h)
    refine ⟨_, _, hsplit.symm, hrefl _, ?_⟩
    rw [hsort]
    exact hrefl _
  · exact ended_append (ended_terminateFront _)

end

section
variable {newline : String} {order : List String} {ss lead others : List Section}

/-- The sections with headers are those that have been put in order. -/
theorem Arranged.filter_header (h : Arranged order newline ss lead others) :
    (lead ++ others).filter (·.header.isSome) = others := by
  have hlead : ∀ r ∈ lead, r.header = none := by
    intro r hr
    obtain ⟨n, hn, rfl⟩ := List.getElem_of_mem hr
    exact (h.lead.get (h.lead.length_eq ▸ hn) hn).1
  rw [List.filter_append, List.filter_eq_nil_iff.2, List.filter_eq_self.2, List.nil_append]
  · exact fun r hr => Option.isSome_iff_ne_none.2 (h.headers r hr)
  · simpa using hlead

/-- No section but the first comes out without header if only the first went in without. -/
theorem headers_of_arranged (hh : ∀ s ∈ ss.tail, s.header ≠ none)
    (h : Arranged order newline ss lead others) :
    ∀ r ∈ (lead ++ others).tail, r.header ≠ none := by
  have hshort : lead.length ≤ 1 := by
    have hfst := congrArg Prod.fst (splitLead_eq hh)
    dsimp only at hfst
    rw [← h.lead.length_eq, ← hfst, splitLead.eq_def]
    split
    · exact Nat.zero_le 1
    · split <;> simp
  intro r hr
  cases lead with
  | nil => exact h.headers r (List.mem_of_mem_tail hr)
  | cons first rest =>
    obtain rfl : rest = [] := List.length_eq_zero_iff.1 (by simpa using hshort)
    exact h.headers r hr

end

/-! ## Arranged sections are clear -/

section
variable {newline : String} (hn : newline = "\n" ∨ newline = "\r\n")

/-- In items that are added statements stand in front of blocks. -/
theorem leadsBlocks_appendItems {items added : List SectionItem} (hi : leadsBlocks items)
    (ha : leadsBlocks added) : leadsBlocks (appendItems items added) := by
  obtain ⟨lead, blocks, rfl⟩ := hi
  obtain ⟨more, others, rfl⟩ := ha
  rcases List.eq_nil_or_concat blocks with rfl | ⟨front, b, rfl⟩
  · refine ⟨lead ++ more, others, ?_⟩
    rw [appendItems, List.map_nil, List.append_nil, List.getLast?_map]
    cases lead.getLast? with
    | none => simp
    | some r => simp
  · have hlast : (lead.map SectionItem.statement ++
        (front.concat b).map SectionItem.block).getLast? = some (.block b) := by
      simp
    have htake : (more.map SectionItem.statement ++ others.map SectionItem.block).takeWhile
        (fun i => !i.isBlock) = more.map .statement := by
      rw [List.takeWhile_append_of_pos (by simp [SectionItem.isBlock])]
      cases others <;> simp [SectionItem.isBlock]
    rw [appendItems, hlast]
    dsimp only
    rw [htake, List.drop_left]
    refine ⟨lead, front ++ [{ b with
      body := b.body ++ ((more.map SectionItem.statement).filterMap SectionItem.statement?).map
        .statement
      label := none }] ++ others, ?_⟩
    simp [List.dropLast_append_of_ne_nil]

/-- The statements of merged sections: the first with its line break, the comment, the second. -/
theorem statements_mergeInto (t s : Section) : (mergeInto newline t s).statements =
    (t.terminate newline).statements ++
      (itemsStatements (headerComment newline s) ++ itemsStatements s.body) := by
  rw [mergeInto, Section.statements, itemsStatements_appendItems, Section.statements,
    List.append_assoc]
  exact congrArg (fun ss => _ ++ (_ ++ ss)) List.flatMap_append

/-- Empty sections without comments behind their headers make an empty one. -/
theorem body_mergeInto_eq_nil {t s : Section} (ht : t.body = []) (hs : s.body = [])
    (hh : ∀ h ∈ s.header, commentTexts h.tokens = []) : (mergeInto newline t s).body = [] := by
  have hcomment : headerComment newline s = [] := by
    rw [headerComment]
    cases hheader : s.header with
    | none => rfl
    | some h =>
      have hnone : commentTokens h.tokens = [] := List.map_eq_nil_iff.1 (hh h hheader)
      rw [Option.map_some, Option.bind_some, hnone]
      rfl
  rw [mergeInto, Section.terminate, ht, hcomment, hs]
  simp [appendItems]

include hn

/-- **Sections that can be merged make one that can be merged.** -/
theorem mergeable_mergeInto {t s : Section} (ht : t.IsMergeable) (hs : s.IsMergeable)
    (hk : t.kind = s.kind) : (mergeInto newline t s).IsMergeable := by
  have hbreak : IsBreak (.create .eol newline) := ⟨rfl, hn.imp_right .inl⟩
  have hne : newline ≠ "" := by rcases hn with rfl | rfl <;> decide
  have hended := ht.terminate hn
  have hclosed := forall_endLast hne ht.separated
  have hclear := hs.clear
  have hseparated := hs.separated
  rw [Section.statements, List.forall_mem_append] at hclear
  rw [Section.statements] at hseparated
  have hkind : (mergeInto newline t s).kind = t.kind := t.terminate_kind newline
  refine ⟨⟨sound_mergeInto hbreak ht.sound hs.sound hk, ?_, ?_, ?_, ?_⟩, fun h => ?_⟩
  · cases hi : t.kind.isInherited with
    | false => rw [Section.isUncheckable, isUncheckable, hkind, hi, Bool.false_and]
    | true =>
      have hi' : s.kind.isInherited = true := hk ▸ hi
      rw [Section.isUncheckable, isUncheckable, body_mergeInto_eq_nil
        (ht.sound.isUncheckable_iff.1 ht.checkable hi)
        (hs.sound.isUncheckable_iff.1 hs.checkable hi') (hs.bare hi'), List.any_nil, Bool.and_false]
  · refine leadsBlocks_appendItems hended.leads ?_
    obtain ⟨lead, blocks, hbody⟩ := hs.leads
    rw [headerComment]
    split
    · exact ⟨lead, blocks, hbody⟩
    · exact ⟨_ :: lead, blocks, by rw [hbody]; rfl⟩
  · rw [statements_mergeInto, List.forall_mem_append, List.forall_mem_append]
    exact ⟨hended.clear, isClear_headerComment hs.sound fun r hr => hclear.1 r (by simpa using hr),
      hclear.2⟩
  · rw [statements_mergeInto, ht.sound.statements_terminate newline]
    exact separated.append hclosed
      (separated.append (isUnterminated_headerComment hne s) hseparated.right)
  · rw [hkind] at h
    intro r hr
    rw [mergeInto, Section.terminate] at hr
    split at hr
    · obtain ⟨old, hold, rfl⟩ := Option.map_eq_some_iff.1 hr
      rw [(texts_terminate newline old).2]
      exact ht.bare h old hold
    · exact ht.bare h r hr

/-- Sections that are merged and put in order are clear. -/
theorem clear_arrange (order : List String) {ss : List Section} (hs : ∀ s ∈ ss, s.IsMergeable) :
    ∀ s ∈ (arrange order newline ss).getD ss, s.IsClear := by
  cases ha : arrange order newline ss with
  | none => exact fun s hmem => (hs s hmem).toIsClear
  | some new =>
    obtain ⟨ordered, rfl, hordered⟩ := arrange_eq_some ha (fun _ _ => mergeable_mergeInto hn) hs
    exact forall_of_ended (fun _ h => h.terminate hn) (ended_terminateFront ordered)
      fun s hmem => (hordered s hmem).toIsClear

/-- Sections are arranged with line breaks between them. -/
theorem separated_arrange (order : List String) {ss : List Section}
    (hs : ∀ s ∈ ss, s.IsMergeable)
    (hb : separated (ss.flatMap Section.statements)) :
    separated (((arrange order newline ss).getD ss).flatMap Section.statements) := by
  have hne : newline ≠ "" := by rcases hn with rfl | rfl <;> decide
  cases ha : arrange order newline ss with
  | none => exact hb
  | some new =>
    obtain ⟨ordered, rfl, hordered⟩ := arrange_eq_some ha (fun _ _ => mergeable_mergeInto hn) hs
    rcases List.eq_nil_or_concat ordered with rfl | ⟨front, last, rfl⟩
    · exact separated_of_forall (by simp [terminateFront])
    · have hfront : terminateFront newline (front.concat last) =
          front.map (·.terminate newline) ++ [last] := by
        simp [terminateFront]
      rw [Option.getD_some, hfront, List.flatMap_append, List.flatMap_singleton]
      refine separated.append ?_ (hordered last (by simp)).separated
      intro r hr
      obtain ⟨s', hs', hr⟩ := List.mem_flatMap.1 hr
      obtain ⟨s, hmem, rfl⟩ := List.mem_map.1 hs'
      have hclear := hordered s (by simp [hmem])
      rw [hclear.sound.statements_terminate newline] at hr
      exact forall_endLast hne hclear.separated r hr

end

/-! ## The pass -/

section
variable {setup : PassSetup} {f : File}

/-- What the pass puts in the place of the sections of a file. -/
theorem run_pass (setup : PassSetup) (f : File) :
    let order := setup.params.texts "order" SectionKind.recommendedOrder
    ((∀ new, arrange order setup.newline f.sections = some new →
        (new.any fun s => s.isUncheckable) = false) → (pass.apply setup f).fault = none) ∧
      (pass.apply setup f).tree =
        { f with
          sections := Decision.outcome f.sections sectionsIssues
            (if f.disablesInSections info.name then .keep
            else .ofOption (arrange order setup.newline f.sections)) } := by
  intro order
  let t : Transform :=
    { name := info.name
      leaveFile := fun _ sections =>
        if f.disablesInSections info.name then .keep
        else .ofOption (arrange order setup.newline sections) }
  obtain ⟨place, hbroken, htree⟩ :=
    Transform.LeavesBodies.run_sections (t := t) ⟨rfl, rfl⟩ rfl f
  refine ⟨fun hnew => congrArg (Option.map PassFault.brokenOff) (hbroken fun reason => ?_), htree⟩
  dsimp only [t]
  split
  · simp [Decision.guarded]
  · cases ha : arrange order setup.newline f.sections with
    | none => simp [Decision.ofOption, Decision.guarded]
    | some new => simp [Decision.ofOption, Decision.guarded, hnew new ha]

/-- Sections that are arranged stay as they are. -/
theorem tree_of_arranged
    (h : arrange (setup.params.texts "order" SectionKind.recommendedOrder) setup.newline
      f.sections = none) : (pass.apply setup f).tree = f := by
  rw [(run_pass setup f).2, h]
  split <;> rfl

/-- Clear sections are arranged. -/
theorem tree_of_clear (hn : setup.newline = "\n" ∨ setup.newline = "\r\n")
    (hoff : f.disablesInSections info.name = false) (hs : ∀ s ∈ f.sections, s.IsMergeable)
    (hb : separated f.statements)
    (hh : ∀ s ∈ ((arrange (setup.params.texts "order" SectionKind.recommendedOrder) setup.newline
      f.sections).getD f.sections).tail, s.header ≠ none) :
    (pass.apply setup f).tree =
      { f with
        sections := (arrange (setup.params.texts "order" SectionKind.recommendedOrder)
          setup.newline f.sections).getD f.sections } := by
  have hclear := clear_arrange hn (setup.params.texts "order" SectionKind.recommendedOrder) hs
  have hseparated := separated_arrange hn
    (setup.params.texts "order" SectionKind.recommendedOrder) hs hb
  rw [(run_pass setup f).2, hoff]
  cases ha : arrange (setup.params.texts "order" SectionKind.recommendedOrder) setup.newline
      f.sections with
  | none => rfl
  | some new =>
    rw [ha, Option.getD_some] at hh hclear hseparated
    have hissues : sectionsIssues new = [] :=
      File.issues_of_clear (f := { f with sections := new }) hclear hh hseparated
    exact congrArg (fun ss => { f with sections := ss }) (if_pos hissues)

end

/-- Files with the same outline have headers of the same kinds. -/
theorem header_kinds_of_outline {f g : File} (h : f.outline = g.outline) :
    (f.sections.filter (·.header.isSome)).map (·.kind) =
      (g.sections.filter (·.header.isSome)).map (·.kind) := by
  have hkinds (f : File) : (f.sections.filter (·.header.isSome)).map (·.kind) =
      (f.outline.filter (·.header.isSome)).map (·.kind) := by
    rw [File.outline, List.filter_map, List.filter_filter, List.map_map]
    refine congrArg (List.map _) (List.filter_congr fun s _ => ?_)
    have hsome : (Option.map Statement.outline s.header).isSome = s.header.isSome :=
      Option.isSome_map
    have hempty : s.header.isSome = true → s.statements ≠ [] := fun hs =>
      Section.statements_ne_nil (Option.isSome_iff_ne_none.1 hs)
    rw [Function.comp_apply, Section.outline, hsome]
    cases hs : s.header.isSome with
    | false => rfl
    | true => simpa using hempty hs
  rw [hkinds, hkinds, h]

end MergeSections

/-! ## The rule on the order of sections -/

/-- A rule on files looks at no other node. -/
theorem exists_file_of_visits {info : RuleInfo} {check : RuleContext → File → List Diagnostic}
    {node : Node} {v : Step × Scope} (hnode : node ∈ v.1.node?)
    (h : (Rule.ofFile info check).visits node.type = true) :
    ∃ g, node = .container (.file g) ∧ v.1 = .enter (.file g) := by
  obtain ⟨step, sc⟩ := v
  cases step with
  | enter c =>
    obtain rfl : .container c = node := Option.some.inj hnode
    cases c with
    | file g => exact ⟨g, rfl, rfl⟩
    | _ => simp [Rule.ofFile, Node.type, Container.type] at h
  | meet s =>
    obtain rfl : .statement s = node := Option.some.inj hnode
    simp [Rule.ofFile, Node.type] at h
  | leave c => cases hnode

namespace StyleRules

/-- Headers in order are not misplaced. -/
theorem misplacedHeaders_of_sorted {highest : Nat} {hs : List (Token × Nat)}
    (hlow : ∀ h ∈ hs, highest ≤ h.2) (hsorted : hs.Pairwise fun a b => a.2 ≤ b.2) :
    misplacedHeaders highest hs = [] := by
  induction hs generalizing highest with
  | nil => rfl
  | cons h hs ih =>
    obtain ⟨t, place⟩ := h
    rw [List.forall_mem_cons] at hlow
    rw [List.pairwise_cons] at hsorted
    rw [misplacedHeaders, if_neg (by simpa using hlow.1)]
    exact ih hsorted.1 hsorted.2

/-- The place of a header is that of the kind of its section. -/
theorem headerPlace_eq_some {order : List String} {s : Section} {p : Token × Nat}
    (h : headerPlace order s = some p) :
    s.header.isSome = true ∧ p.2 = MergeSections.kindRank order s.kind := by
  rw [headerPlace] at h
  split at h
  · rename_i t place hname hplace
    obtain rfl := Option.some.inj h
    obtain ⟨header, hheader, -⟩ := Option.bind_eq_some_iff.1 hname
    obtain ⟨name, hkind, hplace⟩ := Option.bind_eq_some_iff.1 hplace
    refine ⟨by simp [hheader], ?_⟩
    rw [MergeSections.kindRank, hkind, Option.map_some, Option.getD_some,
      List.idxOf_eq_getD_idxOf?, hplace]
    rfl
  · cases h

/-- **The rule reports nothing where the sections are in order.** -/
theorem diagnostics_order {order : List String} {f : File} {lint : LintConfig}
    (hsorted : ((f.sections.filter (·.header.isSome)).map (·.kind)).Pairwise fun a b =>
      MergeSections.kindRank order a ≤ MergeSections.kindRank order b)
    (hl : (lint.paramsOf StyleRules.order.code).texts "order" SectionKind.recommendedOrder =
      order) (text : String) : (checkFile f text lint [StyleRules.order]).diagnostics = [] := by
  have hplaces : (f.sections.filterMap (headerPlace order)).Pairwise fun a b => a.2 ≤ b.2 := by
    rw [List.pairwise_map, List.pairwise_filter] at hsorted
    rw [List.pairwise_filterMap]
    refine hsorted.imp fun hab a ha b hb => ?_
    obtain ⟨hsa, hpa⟩ := headerPlace_eq_some ha
    obtain ⟨hsb, hpb⟩ := headerPlace_eq_some hb
    rw [hpa, hpb]
    exact hab hsa hsb
  refine diagnostics_checkFile fun v hv r hr node hnode hvisits => ?_
  obtain rfl := List.mem_singleton.1 hr
  obtain ⟨g, rfl, henter⟩ := exists_file_of_visits hnode hvisits
  obtain rfl := eq_file_of_visits hv henter
  rw [StyleRules.order, Rule.ofFile]
  dsimp only
  have hnone : misplacedHeaders 0 (g.sections.filterMap (headerPlace order)) = [] :=
    misplacedHeaders_of_sorted (fun _ _ => Nat.zero_le _) hplaces
  have hparams : (lint.paramsOf StyleRules.order.code).texts "order" SectionKind.recommendedOrder =
    order := hl
  refine congrArg Except.ok ?_
  rw [List.map_eq_nil_iff]
  exact hparams ▸ hnone

end StyleRules

namespace MergeSections

variable {source : String} {setup : PassSetup}

/-- The sections of a source can be merged unless an inherited name has a comment behind it. -/
theorem mergeable_parse (hp : (parse source).errors = []) (hi : (parse source).issues = [])
    (hbare : ∀ s ∈ (parse source).sections, s.kind.isInherited = true →
      ∀ h ∈ s.header, commentTexts h.tokens = []) :
    ∀ s ∈ (parse source).sections, s.IsMergeable := fun s hs =>
  ⟨clear_sections hp hi s hs, hbare s hs⟩

section
variable (hp : (parse source).errors = []) (hi : (parse source).issues = [])
  (hbare : ∀ s ∈ (parse source).sections, s.kind.isInherited = true →
    ∀ h ∈ s.header, commentTexts h.tokens = [])
  (hoff : (parse source).disablesInSections info.name = false)
  (hn : setup.newline = (parse source).newline.text)
include hn

/-- The pass is set up with one of two line breaks. -/
theorem newline_of_parse : setup.newline = "\n" ∨ setup.newline = "\r\n" := by
  rw [hn]
  cases (parse source).newline <;> simp [Newline.text]

include hp hi hbare hoff

/-- The sections of a source are arranged behind the pass. -/
theorem exists_arranged : let order := setup.params.texts "order" SectionKind.recommendedOrder
    ∃ lead others,
      (arrange order setup.newline (parse source).sections).getD (parse source).sections =
        lead ++ others ∧
      (pass.apply setup (parse source)).tree.sections = lead ++ others ∧
      Arranged order setup.newline (parse source).sections lead others := by
  intro order
  have hnewline := newline_of_parse hn
  have hne : setup.newline ≠ "" := by rcases hnewline with h | h <;> simp [h]
  have hclear := mergeable_parse hp hi hbare
  have hheaders := (parse_sections source).2
  have hknown : ∀ s ∈ (parse source).sections, s.kind ≠ .invalid := fun s hs =>
    (hclear s hs).sound.kind_ne_invalid
  obtain ⟨lead, others, hcut, hlead, hothers⟩ := arrange_ended hne order hheaders hknown
  have harranged : Arranged order setup.newline (parse source).sections lead others := by
    refine arranged_of_ended hne (merges_foldl hne fun s hs => hknown s (List.mem_filter.1 hs).1)
      (fun r hr => ?_) hlead hothers
    exact (forall_foldl_addSection (P := Section.IsMergeable) (fun _ _ => mergeable_mergeInto hnewline)
      (fun s hs => hclear s (List.mem_filter.1 hs).1) (by simp) r hr).leads
  refine ⟨lead, others, hcut, ?_, harranged⟩
  rw [← hcut]
  exact congrArg File.sections (tree_of_clear hnewline hoff hclear (separated_parse hp).1
    (hcut ▸ headers_of_arranged hheaders harranged))

end

/-- **Sections are merged and put in order.**  A source has no defect, its model is valid, and no
directive at the level of sections switches the pass off; and no header with an inherited name has a
comment, which would be a statement in a section that cannot be checked.  Then the pass merges the
sections and puts them in order, it leaves what is read back as it is, and the rule on the order of
sections has nothing to report. -/
theorem sections_arranged (hp : (parse source).errors = []) (hi : (parse source).issues = [])
    (hbare : ∀ s ∈ (parse source).sections, s.kind.isInherited = true →
      ∀ h ∈ s.header, commentTexts h.tokens = [])
    (hoff : (parse source).disablesInSections info.name = false)
    (hn : setup.newline = (parse source).newline.text) :
    let order := setup.params.texts "order" SectionKind.recommendedOrder
    let after := pass.apply setup (parse source)
    let read := parse after.tree.render
    after.fault = none ∧
      (∃ lead others, after.tree.sections = lead ++ others ∧
        Arranged order setup.newline (parse source).sections lead others) ∧
      (read.errors = [] ∧
        (pass.apply { setup with newline := read.newline.text } read).tree = read) ∧
      ∀ lint : LintConfig,
        (lint.paramsOf StyleRules.order.code).texts "order" SectionKind.recommendedOrder = order →
          (checkFile after.tree after.tree.render lint [StyleRules.order]).diagnostics = [] ∧
          (checkFile read after.tree.render lint [StyleRules.order]).diagnostics = [] := by
  intro order after read
  have hnewline := newline_of_parse hn
  have hclear := mergeable_parse hp hi hbare
  obtain ⟨lead, others, hcut, htree, harranged⟩ := exists_arranged hp hi hbare hoff hn
  have htail : ∀ s ∈ (lead ++ others).tail, s.header ≠ none :=
    headers_of_arranged (parse_sections source).2 harranged
  rw [← hcut] at htail
  have hkinds : (after.tree.sections.filter (·.header.isSome)).map (·.kind) =
      others.map (·.kind) := by
    rw [htree, harranged.filter_header]
  have hsorted : (others.map (·.kind)).Pairwise fun a b => kindRank order a ≤ kindRank order b :=
    harranged.sorted.imp fun hab => hab.elim Nat.le_of_lt fun h => h.1.le
  obtain ⟨herrors, houtline⟩ := File.read_back_of_clear (f := after.tree)
    (by rw [htree, ← hcut]; exact clear_arrange hnewline order hclear)
    (by rw [htree, ← hcut]; exact htail)
    (by rw [File.statements, htree, ← hcut]
        exact separated_arrange hnewline order hclear (separated_parse hp).1)
  have hread := (header_kinds_of_outline houtline).trans hkinds
  have hfault : after.fault = none := (run_pass setup _).1 fun new hnew => by
    refine List.any_eq_false.2 fun s hs => Bool.eq_false_iff.1 (Section.IsClear.checkable ?_)
    exact clear_arrange hnewline order hclear s (by rwa [hnew])
  refine ⟨hfault, ⟨lead, others, htree, harranged⟩, ⟨herrors, ?_⟩, fun lint hl => ?_⟩
  · refine tree_of_arranged (arrange_eq_none (parse_sections _).2 ?_ ?_)
    · rw [hread]
      exact harranged.kinds
    · rw [hread]
      exact hsorted
  · exact ⟨StyleRules.diagnostics_order (hkinds ▸ hsorted) hl _,
      StyleRules.diagnostics_order (hread ▸ hsorted) hl _⟩

set_option maxRecDepth 100000 in
/-- Two sections of keywords, the second with a comment behind its header and without a line break
at its end, and settings that should come first. -/
theorem sections_arranged_keywords :
    let source := "# lead\n*** Keywords ***\nK\n    Log    x\n*** Settings ***\nLibrary    A\n" ++
      "*** Keyword ***    # more\n# c\nL\n    Log    y"
    let order := ["Settings", "Keywords"]
    let setup : PassSetup := ⟨.default, [("order", .texts order)], "\n"⟩
    let after := pass.apply setup (parse source)
    let read := parse after.tree.render
    (parse source).errors = [] ∧ (parse source).issues = [] ∧
      (∀ s ∈ (parse source).sections, s.kind.isInherited = true →
        ∀ h ∈ s.header, commentTexts h.tokens = []) ∧
      (parse source).disablesInSections info.name = false ∧
      (parse source).sections.map (·.kind) = [.comments, .keywords, .settings, .keywords] ∧
      after.fault = none ∧
      (∃ lead others, after.tree.sections = lead ++ others ∧
        Arranged order "\n" (parse source).sections lead others) ∧
      (read.errors = [] ∧
        (pass.apply { setup with newline := read.newline.text } read).tree = read) ∧
      ∀ lint : LintConfig,
        (lint.paramsOf StyleRules.order.code).texts "order" SectionKind.recommendedOrder = order →
          (checkFile after.tree after.tree.render lint [StyleRules.order]).diagnostics = [] ∧
          (checkFile read after.tree.render lint [StyleRules.order]).diagnostics = [] := by
  intro source order setup after read
  obtain ⟨hp, hi, hbare, hoff, hkinds⟩ : (parse source).errors = [] ∧ (parse source).issues = [] ∧
      (∀ s ∈ (parse source).sections, s.kind.isInherited = true →
        ∀ h ∈ s.header, commentTexts h.tokens = []) ∧
      (parse source).disablesInSections info.name = false ∧
      (parse source).sections.map (·.kind) = [.comments, .keywords, .settings, .keywords] := by
    decide +kernel
  exact ⟨hp, hi, hbare, hoff, hkinds,
    @sections_arranged source setup hp hi hbare hoff (by decide +kernel)⟩

set_option maxRecDepth 100000 in
/-- Two sections with the same inherited name stay apart if the second has a comment behind its
header: the section they would make cannot be checked, and the pass breaks off. -/
theorem sections_not_merged :
    let source := "*** constructor ***\n*** constructor ***    # c\n"
    let after := pass.apply ⟨.default, [], "\n"⟩ (parse source)
    (parse source).errors = [] ∧ (parse source).check = .ok [] ∧
      (parse source).disablesInSections info.name = false ∧
      after.fault = some (.brokenOff .uncheckable) ∧
      after.tree.sections.map (·.kind) = [.inherited .maker, .inherited .maker] := by
  exact ⟨by decide +kernel, File.check_eq_ok_nil_iff.2 (by decide +kernel), by decide +kernel,
    by decide +kernel, by decide +kernel⟩

end MergeSections

end RobotSuite
