/-
# The order of settings

Ordering a list of settings cuts it into settings with the comments above them and comments that
belong to none (`collect_eq`), puts the former into groups (`inGroup_members`), and joins all with
empty lines in between.  So what comes out is `Ordered`, and the same statements have gone in
(`keepsAll_of_ordered`).

Statements that are laid out like that are `IsOrder`, and so are others that a relation ties to
them, if it keeps what the order goes by (`IsOrder.related`), such as that of a statement to itself
with a line break.  If their comments are marked as what they are (`InOrder`), they are cut up into
what they were put together of, and stay as they are (`arrange_laidOut`).  So ordering again changes
nothing (`arrange_arrange`).
-/

import RobotSuite.Proofs.Format.KeptComments
import RobotSuite.Proofs.Format.MergeSections
import RobotSuite.Proofs.Tree.SectionReading

namespace RobotSuite

/-! ## Statements of which some got line breaks -/

section
variable {newline : String}

/-- A property that a line break does not change picks the same statements. -/
theorem Completed.filter {p : Statement → Bool} (hp : ∀ s, p (s.terminate newline) = p s)
    {a b : List Statement} (h : Completed newline a b) :
    Completed newline (a.filter p) (b.filter p) := by
  induction h with
  | nil => exact .refl _ _
  | @cons s new a b hs _ ih =>
    have hnew : p new = p s := by
      rcases hs with rfl | rfl
      · rfl
      · exact hp s
    rw [List.filter_cons, List.filter_cons, hnew]
    split
    · exact List.Forall₂.cons hs ih
    · exact ih

/-- Ending a statement's line keeps its mark. -/
@[simp] theorem terminate_ownedByNext (newline : String) (s : Statement) :
    (s.terminate newline).ownedByNext = s.ownedByNext := by
  unfold Statement.terminate
  split
  · rfl
  · split <;> rfl

/-- Comments are marked as what they are if they are so among statements of the same types. -/
theorem isMarked_of_forall₂ {a b : List Statement} (h : List.Forall₂ (fun s r =>
    r.type = s.type ∧ (s.type = .comment → r.ownedByNext = s.ownedByNext)) a b)
    (ha : isMarked a) : isMarked b := by
  induction h with
  | nil => exact ha
  | @cons s r a b hs hrest ih =>
    have htypes : b.map (·.type) = a.map (·.type) := by
      rw [← List.forall₂_eq_eq_eq, List.forall₂_map_left_iff, List.forall₂_map_right_iff]
      exact hrest.flip.imp fun _ _ hr => hr.1
    refine ⟨fun hc => ?_, ih ha.2⟩
    rw [isOwned_congr htypes]
    have hcomment : s.type = .comment := hs.1.symm.trans hc
    exact (hs.2 hcomment).trans (ha.1 hcomment)

/-- Line breaks leave comments marked as what they are. -/
theorem Completed.isMarked {a b : List Statement} (h : Completed newline a b) (ha : isMarked a) :
    isMarked b := by
  refine isMarked_of_forall₂ (h.imp fun s new hs => ?_) ha
  rcases hs with rfl | rfl
  · exact ⟨rfl, fun _ => rfl⟩
  · exact ⟨terminate_type .., fun _ => terminate_ownedByNext ..⟩

/-- A statement that ends its line stays as it is. -/
theorem terminate_of_terminated {s : Statement} (h : ∃ t, s.lastEol = some t ∧ t.value ≠ "") :
    s.terminate newline = s := by
  obtain ⟨t, ht, hv⟩ := h
  rw [Statement.terminate, ht]
  exact if_neg hv

/-- An empty line of the pass already ends. -/
theorem terminate_emptyLine (hn : newline ≠ "") :
    (Statement.emptyLine newline).terminate newline = Statement.emptyLine newline :=
  terminate_of_terminated ⟨.create .eol newline, rfl, hn⟩

/-- Ending a statement's line keeps its data. -/
@[simp] theorem terminate_data (newline : String) (s : Statement) :
    (s.terminate newline).data = s.data := by
  rw [Statement.terminate]
  split
  · exact data_ending _ rfl
  · rename_i t ht
    split
    · rw [Statement.lastEol, Option.filter_eq_some_iff] at ht
      obtain ⟨front, htokens⟩ := List.getLast?_eq_some_iff.1 ht.1
      have hk : t.kind = .eol := by simpa [Token.isEol] using ht.2
      rw [Statement.data, Statement.data, htokens, List.dropLast_concat, data_ending _ hk]
      exact data_ending _ rfl
    · rfl

/-- Ending a statement's line keeps its setting. -/
@[simp] theorem terminate_suiteSetting? (newline : String) (s : Statement) :
    (s.terminate newline).suiteSetting? = s.suiteSetting? := by
  rw [Statement.suiteSetting?, Statement.suiteSetting?, Statement.nameText, Statement.nameText,
    Statement.name, Statement.name, Statement.assign, Statement.assign, terminate_data,
    terminate_type]

end

namespace OrderSettings

/-! ## Statements and their owners -/

/-- Whether a statement is an empty line. -/
def isBlank (s : Statement) : Bool := s.type = .emptyLine

/-- Whether a statement is a comment that belongs to no setting. -/
def isFree (s : Statement) : Bool := s.type = .comment && !s.ownedByNext

/-- Whether a statement is a setting or a comment that belongs to one. -/
def isBound (s : Statement) : Bool := !isBlank s && !isFree s

/-- A setting, and above it comments that belong to it. -/
structure SettingUnit.IsFormed (u : SettingUnit) : Prop where
  comments : ∀ s ∈ u.comments, s.type = .comment ∧ s.ownedByNext = true
  setting : u.setting.type ≠ .comment ∧ u.setting.type ≠ .emptyLine

section
variable {s : Statement} {ss rest : List Statement} {u : SettingUnit} {units : List SettingUnit}

/-- A statement is bound when it is a marked comment, or neither a comment nor an empty line. -/
theorem isBound_iff : isBound s = true ↔
    s.type = .comment ∧ s.ownedByNext = true ∨ s.type ≠ .comment ∧ s.type ≠ .emptyLine := by
  by_cases hc : s.type = .comment
  · simp [isBound, isBlank, isFree, hc]
  · simp [isBound, isBlank, isFree, hc]

/-- A unit holds its setting at least. -/
theorem SettingUnit.statements_ne_nil (u : SettingUnit) : u.statements ≠ [] := by
  simp [SettingUnit.statements]

/-- All statements of a formed unit are bound. -/
theorem SettingUnit.IsFormed.isBound (h : u.IsFormed) : ∀ s ∈ u.statements, isBound s = true := by
  intro s hs
  rcases List.mem_append.1 hs with hs | hs
  · exact isBound_iff.2 (.inl (h.comments s hs))
  · obtain rfl := List.mem_singleton.1 hs
    exact isBound_iff.2 (.inr h.setting)

/-- What is cut into settings and comments: empty lines make no difference. -/
theorem collect_filter (pending ss : List Statement) :
    collect pending (ss.filter fun s => !isBlank s) = collect pending ss := by
  induction ss generalizing pending with
  | nil => rfl
  | cons s ss ih =>
    rw [List.filter_cons]
    by_cases hs : s.type = .emptyLine
    · rw [if_neg (by simp [isBlank, hs]), collect, if_pos hs, ih]
    · rw [if_pos (by simp [isBlank, hs]), collect, collect, ih, ih, ih]

/-- **Statements are cut into settings with their comments, and other comments.**  Comments that
belong to a setting stand right above it or above other comments of it. -/
theorem collect_eq {pending : List Statement}
    (hp : ∀ s ∈ pending, s.type = .comment ∧ s.ownedByNext = true)
    (hnext : pending ≠ [] → isOwned ss = true) (hs : isMarked ss) :
    (collect pending ss).1 = ss.filter isFree ∧
      (collect pending ss).2.flatMap (·.statements) = pending ++ ss.filter isBound ∧
      ∀ u ∈ (collect pending ss).2, u.IsFormed := by
  induction ss generalizing pending with
  | nil =>
    obtain rfl : pending = [] := by simpa [isOwned, ownsAbove] using hnext
    simp [collect]
  | cons s ss ih =>
    obtain ⟨hmark, hrest⟩ := hs
    rw [isOwned_cons] at hnext
    rw [collect]
    by_cases he : s.type = .emptyLine
    · obtain rfl : pending = [] := by simpa [he] using hnext
      have hfree : isFree s = false := by simp [isFree, he]
      have hbound : isBound s = false := by simp [isBound, isBlank, he]
      rw [if_pos he, List.filter_cons_of_neg (by simp [hfree]),
        List.filter_cons_of_neg (by simp [hbound])]
      exact ih hp (by simp) hrest
    rw [if_neg he]
    by_cases hc : s.type = .comment
    · rw [if_pos hc] at hnext ⊢
      have hmark := hmark hc
      cases ho : s.ownedByNext with
      | true =>
        rw [ho] at hmark
        have hfree : isFree s = false := by simp [isFree, ho]
        have hbound : isBound s = true := isBound_iff.2 (.inl ⟨hc, ho⟩)
        have hpending : ∀ r ∈ pending ++ [s], r.type = .comment ∧ r.ownedByNext = true :=
          List.forall_mem_append.2 ⟨hp, by simpa using ⟨hc, ho⟩⟩
        rw [if_pos rfl, List.filter_cons_of_neg (by simp [hfree]), List.filter_cons_of_pos hbound,
          List.append_cons pending s (ss.filter isBound)]
        exact ih hpending (fun _ => hmark.symm) hrest
      | false =>
        rw [ho] at hmark
        obtain rfl : pending = [] := by simpa [← hmark] using hnext
        have hfree : isFree s = true := by simp [isFree, hc, ho]
        have hbound : isBound s = false := by simp [isBound, hfree]
        obtain ⟨h1, h2, h3⟩ := ih hp (by simp) hrest
        rw [if_neg (by simp), List.filter_cons_of_pos hfree,
          List.filter_cons_of_neg (by simp [hbound])]
        exact ⟨congrArg (s :: ·) h1, h2, h3⟩
    · rw [if_neg hc]
      have hfree : isFree s = false := by simp [isFree, hc]
      have hbound : isBound s = true := isBound_iff.2 (.inr ⟨hc, he⟩)
      obtain ⟨h1, h2, h3⟩ := @ih [] (by simp) (by simp) hrest
      rw [List.filter_cons_of_neg (by simp [hfree]), List.filter_cons_of_pos hbound]
      refine ⟨h1, ?_, List.forall_mem_cons.2 ⟨⟨hp, hc, he⟩, h3⟩⟩
      rw [List.flatMap_cons, h2, SettingUnit.statements]
      simp

/-- Settings that have been cut out of statements are cut out of their statements again. -/
theorem collect_units (hu : ∀ u ∈ units, u.IsFormed) :
    collect [] (units.flatMap (·.statements)) = ([], units) := by
  have hunit (pending : List Statement) (u : SettingUnit) (hu : u.IsFormed) :
      ∀ ss, (collect [] ss).1 = [] → collect pending (u.statements ++ ss) =
        ([], ⟨pending ++ u.comments, u.setting⟩ :: (collect [] ss).2) := by
    obtain ⟨comments, setting⟩ := u
    intro ss hss
    induction comments generalizing pending with
    | nil =>
      obtain ⟨hc, he⟩ := hu.setting
      simp only [SettingUnit.statements, List.nil_append, List.singleton_append, collect]
      rw [if_neg he, if_neg hc, hss, List.append_nil]
    | cons c comments ih =>
      obtain ⟨hc, ho⟩ := hu.comments c List.mem_cons_self
      have hrest : (⟨comments, setting⟩ : SettingUnit).IsFormed :=
        ⟨fun s hs => hu.comments s (List.mem_cons_of_mem _ hs), hu.setting⟩
      have hcons : (⟨c :: comments, setting⟩ : SettingUnit).statements ++ ss =
          c :: ((⟨comments, setting⟩ : SettingUnit).statements ++ ss) := rfl
      rw [hcons, collect, if_neg (by simp [hc]), if_pos hc, if_pos ho, ih _ hrest,
        List.append_assoc, List.singleton_append]
  induction units with
  | nil => rfl
  | cons u units ih =>
    rw [List.forall_mem_cons] at hu
    rw [List.flatMap_cons, hunit [] u hu.1 _ (by rw [ih hu.2]), ih hu.2, List.nil_append]

/-- Free statements in front of the first unit stay free. -/
theorem collect_free {free : List Statement} (hf : ∀ s ∈ free, isFree s = true) :
    collect [] (free ++ ss) = (free ++ (collect [] ss).1, (collect [] ss).2) := by
  induction free with
  | nil => rfl
  | cons s free ih =>
    rw [List.forall_mem_cons] at hf
    obtain ⟨hc, ho⟩ : s.type = .comment ∧ s.ownedByNext = false := by simpa [isFree] using hf.1
    rw [List.cons_append, collect, if_neg (by simp [hc]), if_pos hc, if_neg (by simp [ho]), ih hf.2]
    rfl

end

/-! ## Groups -/

/-- The group in which a setting stands: its own, or that of everything else if its own is not
named. -/
def placed (names : List String) (u : SettingUnit) : String :=
  if names.contains u.group then u.group else otherGroup

/-- Settings in order: those of some settings that are placed in a group, by their ranks, and those
of one rank as they have come. -/
structure InGroup (names : List String) (units : List SettingUnit) (name : String)
    (group : List SettingUnit) : Prop where
  perm : group.Perm (units.filter fun u => placed names u = name)
  sorted : group.Pairwise fun a b => a.rank ≤ b.rank
  stable : ∀ rank, group.filter (·.rank = rank) =
    units.filter fun u => placed names u = name && u.rank = rank

section
variable {names : List String} {units : List SettingUnit}

/-- The members of a group are in it, in the order of the pass. -/
theorem inGroup_members (names : List String) (units : List SettingUnit) (name : String) :
    InGroup names units name (members names units name) := by
  have htrans : ∀ a b c : SettingUnit, decide (a.rank ≤ b.rank) → decide (b.rank ≤ c.rank) →
      decide (a.rank ≤ c.rank) := by
    simp only [decide_eq_true_eq]
    exact fun a b c => Nat.le_trans
  have htotal : ∀ a b : SettingUnit, decide (a.rank ≤ b.rank) || decide (b.rank ≤ a.rank) := by
    intro a b
    simpa using Nat.le_total _ _
  refine ⟨List.mergeSort_perm _ _, ?_, fun rank => ?_⟩
  · have hsorted := List.pairwise_mergeSort htrans htotal
      (units.filter fun u => placed names u = name)
    simp only [decide_eq_true_eq] at hsorted
    exact hsorted
  · have hsame : ∀ a b : SettingUnit, decide (a.rank = rank) → decide (b.rank = rank) →
        decide (a.rank ≤ b.rank) := by
      simp only [decide_eq_true_eq]
      exact fun a b ha hb => (ha.trans hb.symm).le
    have hfilter := filter_mergeSort htrans htotal hsame
      (units.filter fun u => placed names u = name)
    rw [List.filter_filter] at hfilter
    rw [members]
    refine hfilter.trans (List.filter_congr fun u _ => Bool.and_comm _ _)

/-- Every unit is placed in one of the groups. -/
theorem placed_mem_allGroups (order : List String) (u : SettingUnit) :
    placed (allGroups order) u ∈ allGroups order := mem_allGroups order u

/-- The elements of a list that have one of some values, value by value. -/
theorem perm_flatMap_filter {α β : Type} [DecidableEq β] (f : α → β) {values : List β}
    (hv : values.Nodup) (xs : List α) :
    (values.flatMap fun v => xs.filter (f · = v)).Perm (xs.filter (f · ∈ values)) := by
  induction values with
  | nil => simp
  | cons v values ih =>
    obtain ⟨hnew, hrest⟩ := List.nodup_cons.1 hv
    have hsplit := List.filter_append_perm (fun x => decide (f x = v))
      (xs.filter (f · ∈ v :: values))
    have hfirst : (xs.filter (f · ∈ v :: values)).filter (f · = v) = xs.filter (f · = v) := by
      rw [List.filter_filter]
      exact List.filter_congr fun x _ => by by_cases h : f x = v <;> simp [h]
    have hothers : (xs.filter (f · ∈ v :: values)).filter (fun x => !decide (f x = v)) =
        xs.filter (f · ∈ values) := by
      rw [List.filter_filter]
      refine List.filter_congr fun x _ => ?_
      by_cases h : f x = v
      · simp [h, hnew]
      · simp [h]
    rw [hfirst, hothers] at hsplit
    rw [List.flatMap_cons]
    exact ((ih hrest).append_left _).trans hsplit

/-- The groups hold the units that are placed in them, rearranged. -/
theorem perm_flatten_of_inGroup {values : List String} {groups : List (List SettingUnit)}
    (h : List.Forall₂ (InGroup names units) values groups) :
    groups.flatten.Perm
      (values.flatMap fun name => units.filter fun u => placed names u = name) := by
  induction h with
  | nil => exact .refl _
  | cons hgroup _ ih => exact hgroup.perm.append ih

/-- **Each setting stands in one group** if no group is named twice. -/
theorem perm_flatten_groups {order : List String} (ho : (allGroups order).Nodup)
    {groups : List (List SettingUnit)}
    (hg : List.Forall₂ (InGroup (allGroups order) units) (allGroups order) groups) :
    groups.flatten.Perm units := by
  have hall : units.filter (placed (allGroups order) · ∈ allGroups order) = units := by
    rw [List.filter_eq_self]
    exact fun u _ => by simpa using placed_mem_allGroups order u
  have hperm := perm_flatMap_filter (placed (allGroups order)) ho units
  rw [hall] at hperm
  exact (perm_flatten_of_inGroup hg).trans hperm

end

/-! ## Parts with empty lines between them -/

/-- Parts with an empty line between any two of them, but where a part is empty. -/
def joinParts (newline : String) (parts : List (List Statement)) : List Statement :=
  [Statement.emptyLine newline].intercalate (parts.filter fun p => !p.isEmpty)

section
variable {newline : String} {part : List Statement} {parts : List (List Statement)}

@[simp] theorem joinParts_nil (newline : String) : joinParts newline [] = [] := rfl

/-- An empty part leaves no gap. -/
theorem joinParts_cons_nil (newline : String) (parts : List (List Statement)) :
    joinParts newline ([] :: parts) = joinParts newline parts := rfl

/-- A part is followed by an empty line unless it is the last with statements. -/
theorem joinParts_cons (hpart : part ≠ []) : joinParts newline (part :: parts) =
    if joinParts newline parts = [] then part
    else part ++ Statement.emptyLine newline :: joinParts newline parts := by
  have hfilter : (part :: parts).filter (fun p => !p.isEmpty) =
      part :: parts.filter fun p => !p.isEmpty := List.filter_cons_of_pos (by simpa using hpart)
  rw [joinParts, joinParts, hfilter]
  cases hrest : parts.filter fun p => !p.isEmpty with
  | nil => simp
  | cons next rest =>
    have hnext : next ≠ [] := by
      have := (List.mem_filter.1 (hrest ▸ List.mem_cons_self : next ∈ parts.filter _)).2
      simpa using this
    have hne : [Statement.emptyLine newline].intercalate (next :: rest) ≠ [] := by
      cases rest <;> simp [hnext]
    rw [if_neg hne, List.intercalate_cons_cons, List.append_assoc, List.singleton_append]

/-- The parts are what stands between the empty lines. -/
theorem filter_joinParts (h : ∀ p ∈ parts, ∀ s ∈ p, isBlank s = false) :
    (joinParts newline parts).filter (fun s => !isBlank s) = parts.flatten := by
  induction parts with
  | nil => rfl
  | cons part parts ih =>
    rw [List.forall_mem_cons] at h
    have hpart : part.filter (fun s => !isBlank s) = part :=
      List.filter_eq_self.2 fun s hs => by simp [h.1 s hs]
    by_cases hp : part = []
    · rw [hp, joinParts_cons_nil, ih h.2]
      rfl
    · rw [joinParts_cons hp, List.flatten_cons, ← ih h.2]
      split
      · rename_i hnil
        rw [hnil, hpart]
        simp
      · rw [List.filter_append, hpart, List.filter_cons_of_neg (by simp [isBlank]; rfl)]

/-- Parts without empty lines are not closed by one. -/
theorem getLast?_joinParts (h : ∀ p ∈ parts, ∀ s ∈ p, isBlank s = false) :
    ∀ s ∈ (joinParts newline parts).getLast?, isBlank s = false := by
  induction parts with
  | nil => simp
  | cons part parts ih =>
    rw [List.forall_mem_cons] at h
    by_cases hp : part = []
    · rw [hp, joinParts_cons_nil]
      exact ih h.2
    · rw [joinParts_cons hp]
      split
      · exact fun s hs => h.1 s (List.mem_of_getLast? hs)
      · rename_i hne
        rw [List.append_cons, List.getLast?_append_of_ne_nil _ hne]
        exact ih h.2

/-- Groups are joined to what stands in front of them. -/
theorem joinGroups_eq (newline : String) (front : List Statement)
    (groups : List (List SettingUnit)) : joinGroups newline front groups =
      joinParts newline (front :: groups.map fun units => units.flatMap (·.statements)) := by
  have hfront {front part : List Statement} (parts : List (List Statement)) (hpart : part ≠ []) :
      joinParts newline ((front ++ part) :: parts) =
        front ++ joinParts newline (part :: parts) := by
    rw [joinParts_cons hpart, joinParts_cons (by simp [hpart])]
    split <;> simp
  induction groups generalizing front with
  | nil =>
    cases front with
    | nil => rfl
    | cons s front => simp [joinGroups, joinParts_cons]
  | cons units groups ih =>
    rw [joinGroups, List.map_cons]
    cases units with
    | nil =>
      have hskip (front : List Statement) (parts : List (List Statement)) :
          joinParts newline (front :: [] :: parts) = joinParts newline (front :: parts) := rfl
      rw [if_pos List.isEmpty_nil, ih, List.flatMap_nil, hskip]
    | cons u units =>
      have hunits : (u :: units).flatMap (·.statements) ≠ [] := by
        simp [SettingUnit.statements_ne_nil]
      generalize (u :: units).flatMap (·.statements) = part at hunits
      rw [if_neg (by simp)]
      dsimp only
      rw [ih]
      cases front with
      | nil => rw [joinParts_cons_nil]; rfl
      | cons s front =>
        have hne : joinParts newline (part :: groups.map fun units =>
            units.flatMap (·.statements)) ≠ [] := by
          rw [joinParts_cons hunits]
          split <;> simp [hunits]
        rw [joinParts_cons (List.cons_ne_nil s front), if_neg hne, hfront _ hunits]
        simp

end

/-! ## What comes out -/

/-- Comments that belong to no setting, the groups and empty lines. -/
def laidOut (newline : String) (free : List Statement) (groups : List (List SettingUnit))
    (rest : List Statement) : List Statement :=
  joinParts newline (free :: groups.map fun units => units.flatMap (·.statements)) ++ rest

/-- Settings in order.  Comments that belong to no setting stand in front, in the order in which
they were; then the groups, in each the settings with the comments that belong to them.  Between
any two of these parts stands an empty line, and empty lines at the end stay there. -/
def Ordered (order : List String) (newline : String) (old new : List Statement) : Prop :=
  ∃ units groups, (∀ u ∈ units, SettingUnit.IsFormed u) ∧
    old.filter isBound = units.flatMap (·.statements) ∧
    List.Forall₂ (InGroup (allGroups order) units) (allGroups order) groups ∧
    Completed newline
      (laidOut newline (old.filter isFree) groups (Text.takeEndWhile isBlank old)) new

/-- Whether statements hold those of other statements, each once and but for empty lines. -/
def KeepsAll (newline : String) (old new : List Statement) : Prop :=
  ∃ kept, kept.Perm (old.filter fun s => !isBlank s) ∧
    Completed newline kept (new.filter fun s => !isBlank s)

section
variable {newline : String} {order : List String} {old new ss : List Statement}

/-- Ending the lines of all but the last statement completes them. -/
theorem completed_terminateFront (newline : String) (ss : List Statement) :
    Completed newline ss (terminateFront newline ss) := by
  have hall (ss : List Statement) : Completed newline ss (ss.map (·.terminate newline)) :=
    List.forall₂_map_right_iff.2 (List.forall₂_same.2 fun _ _ => .inr rfl)
  rcases List.eq_nil_or_concat ss with rfl | ⟨front, last, rfl⟩
  · exact .refl _ _
  · rw [terminateFront, List.concat_eq_append, List.dropLast_concat, List.getLast?_concat]
    exact (hall front).append (.refl _ _)

/-- Dropping the empty lines at the end drops no statement. -/
theorem filter_dropEndWhile (ss : List Statement) :
    (Text.dropEndWhile isBlank ss).filter (fun s => !isBlank s) =
      ss.filter fun s => !isBlank s := by
  have hnone : (Text.takeEndWhile isBlank ss).filter (fun s => !isBlank s) = [] := by
    have hall := Text.all_takeEndWhile isBlank ss
    rw [List.filter_eq_nil_iff]
    intro s hs
    simpa using List.all_eq_true.1 hall s hs
  conv_rhs => rw [← Text.dropEndWhile_append_takeEndWhile isBlank ss, List.filter_append, hnone,
    List.append_nil]

/-- The order of settings, by what they are cut into. -/
theorem arrange_eq (order : List String) (newline : String) (ss : List Statement) :
    arrange order newline ss = terminateFront newline
      (laidOut newline (collect [] ss).1
        ((allGroups order).map (members (allGroups order) (collect [] ss).2))
        (Text.takeEndWhile isBlank ss)) := by
  have hcollect : collect [] (Text.dropEndWhile isBlank ss) = collect [] ss := by
    rw [← collect_filter, filter_dropEndWhile, collect_filter]
  rw [laidOut, ← joinGroups_eq, ← hcollect]
  rfl

/-- **What comes out is in order.** -/
theorem ordered_arrange (hs : isMarked ss) : Ordered order newline ss (arrange order newline ss) := by
  obtain ⟨hfree, hunits, hformed⟩ := @collect_eq ss [] (by simp) (by simp) hs
  refine ⟨(collect [] ss).2, (allGroups order).map (members (allGroups order) (collect [] ss).2),
    hformed, hunits.symm, ?_, ?_⟩
  · exact List.forall₂_map_right_iff.2 (List.forall₂_same.2 fun _ _ => inGroup_members _ _ _)
  · rw [arrange_eq, hfree]
    exact completed_terminateFront _ _

/-- Neither the free statements nor the units hold an empty line. -/
theorem isBlank_of_mem_laidOut {free : List Statement} {groups : List (List SettingUnit)}
    (hf : ∀ s ∈ free, isBlank s = false) (hg : ∀ u ∈ groups.flatten, u.IsFormed) :
    ∀ p ∈ free :: groups.map fun units => units.flatMap (·.statements),
      ∀ s ∈ p, isBlank s = false := by
  refine List.forall_mem_cons.2 ⟨hf, List.forall_mem_map.2 fun units hunits s hs => ?_⟩
  obtain ⟨u, hu, hs⟩ := List.mem_flatMap.1 hs
  have hbound := (hg u (List.mem_flatten.2 ⟨units, hunits, hu⟩)).isBound s hs
  simp only [isBound, Bool.and_eq_true, Bool.not_eq_true'] at hbound
  exact hbound.1

/-- But for empty lines the comments and the settings are all that is laid out. -/
theorem filter_laidOut {free rest : List Statement} {groups : List (List SettingUnit)}
    (hf : ∀ s ∈ free, isBlank s = false) (hg : ∀ u ∈ groups.flatten, u.IsFormed)
    (hr : ∀ s ∈ rest, isBlank s = true) :
    (laidOut newline free groups rest).filter (fun s => !isBlank s) =
      free ++ groups.flatten.flatMap (·.statements) := by
  have hrest : rest.filter (fun s => !isBlank s) = [] := by
    rw [List.filter_eq_nil_iff]
    intro s hs
    simpa using hr s hs
  have hflat : (groups.map fun units => units.flatMap (·.statements)).flatten =
      groups.flatten.flatMap (·.statements) := by
    rw [List.flatMap_def, List.map_flatten, List.flatten_flatten, List.map_map]
    simp only [Function.comp_def, List.flatMap_def]
  rw [laidOut, List.filter_append, filter_joinParts (isBlank_of_mem_laidOut hf hg), hrest,
    List.append_nil, List.flatten_cons, hflat]

/-- A free statement is no empty line. -/
theorem isBlank_of_isFree {s : Statement} (h : isFree s = true) : isBlank s = false := by
  simp only [isFree, Bool.and_eq_true, decide_eq_true_eq] at h
  simp [isBlank, h.1]

/-- **What is in order holds all statements that have gone in,** each once. -/
theorem keepsAll_of_ordered (ho : (allGroups order).Nodup) (h : Ordered order newline old new) :
    KeepsAll newline old new := by
  obtain ⟨units, groups, hformed, hunits, hgroups, hnew⟩ := h
  have hperm := perm_flatten_groups ho hgroups
  refine ⟨_, ?_, hnew.filter (p := fun s => !isBlank s) fun s => by simp [isBlank]⟩
  have hsplit : (old.filter isFree ++ old.filter isBound).Perm
      (old.filter fun s => !isBlank s) := by
    have hperm := List.filter_append_perm isFree (old.filter fun s => !isBlank s)
    rw [List.filter_filter, List.filter_filter] at hperm
    have hfree : old.filter (fun s => isFree s && !isBlank s) = old.filter isFree := by
      refine List.filter_congr fun s _ => ?_
      by_cases hc : s.type = .comment <;> simp [isFree, isBlank, hc]
    have hbound : old.filter (fun s => !isFree s && !isBlank s) = old.filter isBound :=
      List.filter_congr fun s _ => Bool.and_comm _ _
    rwa [hfree, hbound] at hperm
  rw [filter_laidOut (fun s hs => isBlank_of_isFree (List.mem_filter.1 hs).2)
    (fun u hu => hformed u (hperm.mem_iff.1 hu))
    (List.all_eq_true.1 (Text.all_takeEndWhile isBlank old))]
  refine List.Perm.trans (List.Perm.append_left _ ?_) hsplit
  rw [hunits]
  exact hperm.flatMap_right _

end

/-! ## What is in order already -/

/-- Settings of a group in order. -/
structure Settled (names : List String) (name : String) (group : List SettingUnit) : Prop where
  formed : ∀ u ∈ group, u.IsFormed
  placed : ∀ u ∈ group, OrderSettings.placed names u = name
  sorted : group.Pairwise fun a b => a.rank ≤ b.rank

/-- Comments, groups and empty lines that are laid out in order. -/
structure InOrder (names : List String) (free : List Statement) (groups : List (List SettingUnit))
    (rest : List Statement) : Prop where
  free : ∀ s ∈ free, isFree s = true
  groups : List.Forall₂ (Settled names) names groups
  rest : ∀ s ∈ rest, isBlank s = true

section
variable {newline : String} {order names values : List String} {free rest ss : List Statement}
  {groups : List (List SettingUnit)}

/-- The units of settled groups are formed. -/
theorem formed_of_settled (h : List.Forall₂ (Settled names) values groups) :
    ∀ u ∈ groups.flatten, u.IsFormed := by
  induction h with
  | nil => simp
  | cons hgroup _ ih => exact List.forall_mem_append.2 ⟨hgroup.formed, ih⟩

/-- The units of settled groups are placed in one of them. -/
theorem placed_mem_of_settled (h : List.Forall₂ (Settled names) values groups) :
    ∀ u ∈ groups.flatten, placed names u ∈ values := by
  induction h with
  | nil => simp
  | cons hgroup _ ih =>
    refine List.forall_mem_append.2 ⟨fun u hu => ?_, fun u hu => List.mem_cons_of_mem _ (ih u hu)⟩
    rw [hgroup.placed u hu]
    exact List.mem_cons_self

/-- Groups in order are found again among all their settings. -/
theorem members_of_settled (hv : values.Nodup)
    (h : List.Forall₂ (Settled names) values groups) :
    values.map (members names groups.flatten) = groups := by
  induction h with
  | nil => rfl
  | @cons name group values groups hgroup hgroups ih =>
    obtain ⟨hnew, hrest⟩ := List.nodup_cons.1 hv
    have hplaced := placed_mem_of_settled hgroups
    have hfirst : (group ++ groups.flatten).filter (fun u => placed names u = name) = group := by
      have hnone : groups.flatten.filter (fun u => placed names u = name) = [] := by
        rw [List.filter_eq_nil_iff]
        intro u hu
        have : placed names u ≠ name := fun he => hnew (he ▸ hplaced u hu)
        simpa using this
      have hall : group.filter (fun u => placed names u = name) = group :=
        List.filter_eq_self.2 fun u hu => by simpa using hgroup.placed u hu
      rw [List.filter_append, hnone, hall, List.append_nil]
    have hothers : ∀ other ∈ values,
        members names (group ++ groups.flatten) other = members names groups.flatten other := by
      intro other hother
      have hnone : group.filter (fun u => placed names u = other) = [] := by
        rw [List.filter_eq_nil_iff]
        intro u hu
        have : placed names u ≠ other := by
          rw [hgroup.placed u hu]
          exact fun he => hnew (he ▸ hother)
        simpa using this
      show ((group ++ groups.flatten).filter fun u => placed names u = other).mergeSort _ = _
      rw [List.filter_append, hnone, List.nil_append]
      rfl
    have hsame : members names (group ++ groups.flatten) name = group := by
      show ((group ++ groups.flatten).filter fun u => placed names u = name).mergeSort _ = _
      rw [hfirst]
      exact List.mergeSort_of_pairwise (by simpa using hgroup.sorted)
    rw [List.flatten_cons, List.map_cons, hsame, List.map_congr_left hothers, ih hrest]

/-- What is cut up is in order when it is put together. -/
theorem inOrder_collect (order : List String) (hs : isMarked ss) :
    InOrder (allGroups order) (collect [] ss).1
      ((allGroups order).map (members (allGroups order) (collect [] ss).2))
      (Text.takeEndWhile isBlank ss) := by
  obtain ⟨hfree, -, hformed⟩ := @collect_eq ss [] (by simp) (by simp) hs
  refine ⟨fun s hs => ?_, List.forall₂_map_right_iff.2 (List.forall₂_same.2 fun name _ => ?_), ?_⟩
  · rw [hfree] at hs
    exact (List.mem_filter.1 hs).2
  · have hgroup := inGroup_members (allGroups order) (collect [] ss).2 name
    have hmem (u : SettingUnit) (hu : u ∈ members (allGroups order) (collect [] ss).2 name) :=
      List.mem_filter.1 (hgroup.perm.mem_iff.1 hu)
    exact ⟨fun u hu => hformed u (hmem u hu).1, fun u hu => by simpa using (hmem u hu).2,
      hgroup.sorted⟩
  · exact List.all_eq_true.1 (Text.all_takeEndWhile isBlank ss)

/-- What is in order is cut up into what it was put together of. -/
theorem collect_laidOut (h : InOrder names free groups rest) :
    collect [] (laidOut newline free groups rest) = (free, groups.flatten) := by
  have hformed := formed_of_settled h.groups
  rw [← collect_filter, filter_laidOut (fun s hs => isBlank_of_isFree (h.free s hs)) hformed h.rest,
    collect_free h.free, collect_units hformed, List.append_nil]

/-- **What is in order stays as it is,** but for line breaks. -/
theorem arrange_laidOut (ho : (allGroups order).Nodup)
    (h : InOrder (allGroups order) free groups rest) :
    arrange order newline (laidOut newline free groups rest) =
      terminateFront newline (laidOut newline free groups rest) := by
  have hparts := isBlank_of_mem_laidOut (fun s hs => isBlank_of_isFree (h.free s hs))
    (formed_of_settled h.groups)
  have hrest : Text.takeEndWhile isBlank (laidOut newline free groups rest) = rest := by
    rw [laidOut, (Text.endWhile_append (getLast?_joinParts hparts) rest).1]
    exact (Text.endWhile_of_all (List.all_eq_true.2 h.rest)).1
  rw [arrange_eq, collect_laidOut h, hrest, members_of_settled ho h.groups]

end

/-! ## What is laid out in order -/

/-- A setting with comments above it, whatever they are marked as. -/
structure SettingUnit.IsShaped (u : SettingUnit) : Prop where
  comments : ∀ s ∈ u.comments, s.type = .comment
  setting : u.setting.type ≠ .comment ∧ u.setting.type ≠ .emptyLine

/-- Settings of a group in order, whatever their comments are marked as. -/
structure Sorted (names : List String) (name : String) (group : List SettingUnit) : Prop where
  shaped : ∀ u ∈ group, u.IsShaped
  placed : ∀ u ∈ group, OrderSettings.placed names u = name
  sorted : group.Pairwise fun a b => a.rank ≤ b.rank

/-- Comments, groups and empty lines that are laid out in order, whatever comments are marked as. -/
structure IsOrder (names : List String) (free : List Statement) (groups : List (List SettingUnit))
    (rest : List Statement) : Prop where
  free : ∀ s ∈ free, s.type = .comment
  groups : List.Forall₂ (Sorted names) names groups
  rest : ∀ s ∈ rest, isBlank s = true

section
variable {order names values : List String} {free rest ss : List Statement}
  {groups : List (List SettingUnit)}

/-- What statements are cut into, whatever their comments are marked as. -/
theorem collect_shaped {pending : List Statement} (hp : ∀ s ∈ pending, s.type = .comment)
    (ss : List Statement) : (∀ s ∈ (collect pending ss).1, s.type = .comment) ∧
      ∀ u ∈ (collect pending ss).2, u.IsShaped := by
  induction ss generalizing pending with
  | nil => exact ⟨hp, List.forall_mem_nil _⟩
  | cons s ss ih =>
    rw [collect]
    split
    · exact ih hp
    · rename_i he
      split
      · rename_i hc
        split
        · exact ih (List.forall_mem_append.2 ⟨hp, List.forall_mem_singleton.2 hc⟩)
        · obtain ⟨hfree, hunits⟩ := ih hp
          exact ⟨List.forall_mem_cons.2 ⟨hc, hfree⟩, hunits⟩
      · rename_i hc
        obtain ⟨hfree, hunits⟩ := @ih [] (List.forall_mem_nil _)
        exact ⟨hfree, List.forall_mem_cons.2 ⟨⟨hp, hc, he⟩, hunits⟩⟩

/-- **What is cut up is laid out in order** when it is put together. -/
theorem isOrder_collect (order : List String) (ss : List Statement) :
    IsOrder (allGroups order) (collect [] ss).1
      ((allGroups order).map (members (allGroups order) (collect [] ss).2))
      (Text.takeEndWhile isBlank ss) := by
  obtain ⟨hfree, hshaped⟩ := collect_shaped (List.forall_mem_nil _) ss
  refine ⟨hfree, List.forall₂_map_right_iff.2 (List.forall₂_same.2 fun name _ => ?_),
    List.all_eq_true.1 (Text.all_takeEndWhile isBlank ss)⟩
  have hgroup := inGroup_members (allGroups order) (collect [] ss).2 name
  have hmem (u : SettingUnit) (hu : u ∈ members (allGroups order) (collect [] ss).2 name) :=
    List.mem_filter.1 (hgroup.perm.mem_iff.1 hu)
  exact ⟨fun u hu => hshaped u (hmem u hu).1, fun u hu => by simpa using (hmem u hu).2,
    hgroup.sorted⟩

/-- A shaped unit holds no empty line. -/
theorem SettingUnit.IsShaped.isBlank {u : SettingUnit} (h : u.IsShaped) :
    ∀ s ∈ u.statements, isBlank s = false := by
  intro s hs
  rcases List.mem_append.1 hs with hs | hs
  · simp [OrderSettings.isBlank, h.comments s hs]
  · obtain rfl := List.mem_singleton.1 hs
    simpa [OrderSettings.isBlank] using h.setting.2

/-- The units of sorted groups are shaped. -/
theorem shaped_of_sorted (h : List.Forall₂ (Sorted names) values groups) :
    ∀ u ∈ groups.flatten, u.IsShaped := by
  induction h with
  | nil => simp
  | cons hgroup _ ih => exact List.forall_mem_append.2 ⟨hgroup.shaped, ih⟩

/-- No empty line stands inside the parts of what is laid out. -/
theorem IsOrder.isBlank_eq_false (h : IsOrder names free groups rest) :
    ∀ p ∈ free :: groups.map fun units => units.flatMap (·.statements),
      ∀ s ∈ p, isBlank s = false := by
  refine List.forall_mem_cons.2 ⟨fun s hs => by simp [OrderSettings.isBlank, h.free s hs],
    List.forall_mem_map.2 fun units hunits s hs => ?_⟩
  obtain ⟨u, hu, hs⟩ := List.mem_flatMap.1 hs
  exact (shaped_of_sorted h.groups u (List.mem_flatten.2 ⟨units, hunits, hu⟩)).isBlank s hs

end

/-! ## Statements that are ordered alike -/

/-- A relation of statements that the order does not tell apart. -/
structure OrdersAlike (R : Statement → Statement → Prop) : Prop where
  type : ∀ {s r}, R s r → r.type = s.type
  setting : ∀ {s r}, R s r → r.suiteSetting? = s.suiteSetting?

/-- Settings with comments that are related. -/
structure SettingUnit.Related (R : Statement → Statement → Prop) (u new : SettingUnit) : Prop where
  comments : List.Forall₂ R u.comments new.comments
  setting : R u.setting new.setting

/-- The same statements but for the empty lines between parts, which are related. -/
def SameParts (R : Statement → Statement → Prop) (newline : String) :
    List Statement → List Statement → Prop :=
  List.Forall₂ fun s r => r = s ∨ s = .emptyLine newline ∧ R s r

section
variable {R : Statement → Statement → Prop} {newline : String} {names values : List String}
  {free rest c : List Statement} {units : List SettingUnit} {groups : List (List SettingUnit)}
  {u new : SettingUnit}

/-- Statements have the same parts as themselves. -/
theorem sameParts_refl (ss : List Statement) : SameParts R newline ss ss :=
  List.forall₂_same.2 fun _ _ => .inl rfl

/-- What is related to two lists in a row is so to one behind the other. -/
theorem exists_append_of_forall₂ {a b : List Statement} (h : List.Forall₂ R (a ++ b) c) :
    ∃ a' b', c = a' ++ b' ∧ List.Forall₂ R a a' ∧ List.Forall₂ R b b' := by
  induction a generalizing c with
  | nil => exact ⟨[], c, rfl, .nil, h⟩
  | cons s a ih =>
    cases h with
    | cons hs hrest =>
      obtain ⟨a', b', rfl, ha, hb⟩ := ih hrest
      exact ⟨_ :: a', b', rfl, .cons hs ha, hb⟩

/-- A list related to the statements of units is cut into related units. -/
theorem exists_units (h : List.Forall₂ R (units.flatMap (·.statements)) c) :
    ∃ units', c = units'.flatMap (·.statements) ∧
      List.Forall₂ (SettingUnit.Related R) units units' := by
  induction units generalizing c with
  | nil =>
    cases h
    exact ⟨[], rfl, .nil⟩
  | cons u units ih =>
    rw [List.flatMap_cons] at h
    obtain ⟨front, back, rfl, hfront, hback⟩ := exists_append_of_forall₂ h
    obtain ⟨units', rfl, hunits⟩ := ih hback
    obtain ⟨comments, last, rfl, hcomments, hlast⟩ := exists_append_of_forall₂ hfront
    cases hlast with
    | cons hs hnil =>
      cases hnil
      exact ⟨⟨comments, _⟩ :: units', rfl, .cons ⟨hcomments, hs⟩ hunits⟩

/-- Parts with empty lines between them are related to such parts, but for these lines. -/
theorem exists_parts {parts : List (List Statement)}
    (h : List.Forall₂ R (joinParts newline parts) c) :
    ∃ parts', List.Forall₂ (List.Forall₂ R) parts parts' ∧
      SameParts R newline (joinParts newline parts') c := by
  induction parts generalizing c with
  | nil =>
    cases h
    exact ⟨[], .nil, .nil⟩
  | cons part parts ih =>
    by_cases hpart : part = []
    · subst hpart
      rw [joinParts_cons_nil] at h
      obtain ⟨parts', hparts, hsame⟩ := ih h
      exact ⟨[] :: parts', .cons .nil hparts, hsame⟩
    · have hne {part' : List Statement} (hc : List.Forall₂ R part part') : part' ≠ [] := by
        rintro rfl
        cases hc
        exact hpart rfl
      rw [joinParts_cons hpart] at h
      split at h
      · rename_i hnil
        obtain ⟨parts', hparts, hsame⟩ := @ih [] (by rw [hnil]; exact .nil)
        have hjoin : joinParts newline parts' = [] := List.forall₂_nil_right_iff.1 hsame
        refine ⟨c :: parts', .cons h hparts, ?_⟩
        rw [joinParts_cons (hne h), if_pos hjoin]
        exact sameParts_refl c
      · rename_i hjoin
        obtain ⟨part', back, rfl, hfront, hback⟩ := exists_append_of_forall₂ h
        cases hback with
        | @cons _ line _ back hline hback =>
          obtain ⟨parts', hparts, hsame⟩ := ih hback
          have hjoin' : joinParts newline parts' ≠ [] := by
            intro hnil
            rw [hnil] at hsame
            obtain rfl : back = [] := List.forall₂_nil_left_iff.1 hsame
            exact hjoin (List.forall₂_nil_right_iff.1 hback)
          refine ⟨part' :: parts', .cons hfront hparts, ?_⟩
          rw [joinParts_cons (hne hfront), if_neg hjoin']
          exact List.rel_append (sameParts_refl part') (.cons (.inr ⟨rfl, hline⟩) hsame)

variable (hR : OrdersAlike R)
include hR

/-- The same settings and comments stand in the same parts. -/
theorem SameParts.filter {a b : List Statement} (h : SameParts R newline a b) :
    b.filter (fun s => !isBlank s) = a.filter fun s => !isBlank s := by
  induction h with
  | nil => rfl
  | @cons s r a b hs _ ih =>
    rw [List.filter_cons, List.filter_cons, ih]
    rcases hs with rfl | ⟨rfl, hs⟩
    · rfl
    · have hr : isBlank r = isBlank (.emptyLine newline) := by rw [isBlank, isBlank, hR.type hs]
      rw [hr]
      rfl

/-- Related units have the same rank. -/
theorem SettingUnit.Related.rank (h : u.Related R new) : new.rank = u.rank := by
  rw [SettingUnit.rank, SettingUnit.rank, hR.setting h.setting]

/-- Related units are placed in the same group. -/
theorem SettingUnit.Related.placed (names : List String) (h : u.Related R new) :
    OrderSettings.placed names new = OrderSettings.placed names u := by
  rw [OrderSettings.placed, OrderSettings.placed, SettingUnit.group, SettingUnit.group,
    hR.setting h.setting]

/-- What holds of the types of statements holds of the types of related ones. -/
theorem forall_type_of_forall₂ {P : StatementType → Prop} {a b : List Statement}
    (h : List.Forall₂ R a b) (ha : ∀ s ∈ a, P s.type) : ∀ s ∈ b, P s.type :=
  forall_mem_of_forall₂ h (fun _ _ hsr hs => by rwa [hR.type hsr]) ha

/-- A unit related to a shaped one is shaped. -/
theorem SettingUnit.Related.isShaped (h : u.Related R new) (hu : u.IsShaped) : new.IsShaped := by
  refine ⟨forall_type_of_forall₂ (P := fun type => type = .comment) hR h.comments hu.comments, ?_⟩
  rw [hR.type h.setting]
  exact hu.setting

/-- A list related to a sorted group is a sorted group. -/
theorem Sorted.related {name : String} (h : Sorted names name units)
    (hc : List.Forall₂ R (units.flatMap (·.statements)) c) :
    ∃ units', c = units'.flatMap (·.statements) ∧ Sorted names name units' := by
  obtain ⟨units', rfl, hunits⟩ := exists_units hc
  have hranks : units'.map (·.rank) = units.map (·.rank) := by
    have hall := hunits.flip.imp fun _ _ hu => hu.rank hR
    rwa [← List.forall₂_eq_eq_eq, List.forall₂_map_left_iff, List.forall₂_map_right_iff]
  refine ⟨units', rfl, forall_mem_of_forall₂ hunits (fun _ _ hu => hu.isShaped hR) h.shaped,
    forall_mem_of_forall₂ hunits (fun _ _ hu hname => (hu.placed hR names).trans hname) h.placed, ?_⟩
  · have hsorted : (units.map (·.rank)).Pairwise (· ≤ ·) := List.pairwise_map.2 h.sorted
    rw [← hranks] at hsorted
    exact List.pairwise_map.1 hsorted

/-- Parts related to sorted groups are sorted groups. -/
theorem exists_groups {parts : List (List Statement)}
    (h : List.Forall₂ (Sorted names) values groups)
    (hp : List.Forall₂ (List.Forall₂ R)
      (groups.map fun units => units.flatMap (·.statements)) parts) :
    ∃ groups', parts = groups'.map (fun units => units.flatMap (·.statements)) ∧
      List.Forall₂ (Sorted names) values groups' := by
  induction h generalizing parts with
  | nil =>
    cases hp
    exact ⟨[], rfl, .nil⟩
  | cons hgroup _ ih =>
    cases hp with
    | cons hpart hrest =>
      obtain ⟨units', rfl, hunits⟩ := hgroup.related hR hpart
      obtain ⟨groups', rfl, hgroups⟩ := ih hrest
      exact ⟨units' :: groups', rfl, .cons hunits hgroups⟩

/-- **What is laid out in order** is so wherever the order does not tell statements apart, but for
the empty lines between its parts. -/
theorem IsOrder.related (h : IsOrder names free groups rest)
    (hc : List.Forall₂ R (laidOut newline free groups rest) c) :
    ∃ free groups front rest, c = front ++ rest ∧ IsOrder names free groups rest ∧
      SameParts R newline
        (joinParts newline (free :: groups.map fun units => units.flatMap (·.statements))) front := by
  obtain ⟨front, rest', rfl, hfront, hrest⟩ := exists_append_of_forall₂ hc
  obtain ⟨parts, hparts, hsame⟩ := exists_parts hfront
  cases hparts with
  | @cons _ free' _ parts hfree hparts =>
    obtain ⟨groups', rfl, hgroups⟩ := exists_groups hR h.groups hparts
    refine ⟨free', groups', front, rest', rfl, ⟨?_, hgroups, ?_⟩, hsame⟩
    · exact forall_type_of_forall₂ (P := fun type => type = .comment) hR hfree h.free
    · exact forall_type_of_forall₂ (P := fun t => decide (t = .emptyLine) = true) hR hrest h.rest

end

/-! ## Line breaks in what is in order -/

section
variable {newline : String} {order names values : List String} {free rest ss c : List Statement}
  {units : List SettingUnit} {groups : List (List SettingUnit)}

/-- Ending a statement's line changes nothing the order looks at. -/
theorem ordersAlike_completes :
    OrdersAlike fun s new : Statement => new = s ∨ new = s.terminate newline where
  type h := by rcases h with rfl | rfl <;> simp
  setting h := by rcases h with rfl | rfl <;> simp

/-- What comes out is laid out in order. -/
theorem exists_isOrder (hn : newline ≠ "") (order : List String) (ss : List Statement) :
    ∃ free groups rest, arrange order newline ss = laidOut newline free groups rest ∧
      IsOrder (allGroups order) free groups rest := by
  obtain ⟨free, groups, front, rest, heq, horder, hsame⟩ := (isOrder_collect order ss).related
    ordersAlike_completes (arrange_eq order newline ss ▸ completed_terminateFront newline _)
  refine ⟨free, groups, rest, heq.trans (congrArg (· ++ rest) ?_), horder⟩
  rw [← List.forall₂_eq_eq_eq]
  refine hsame.flip.imp fun r s h => ?_
  rcases h with rfl | ⟨rfl, rfl | rfl⟩
  · rfl
  · rfl
  · exact terminate_emptyLine hn

/-- Lines are ended once. -/
theorem terminateFront_terminateFront (hn : newline ≠ "") (ss : List Statement) :
    terminateFront newline (terminateFront newline ss) = terminateFront newline ss := by
  rcases List.eq_nil_or_concat ss with rfl | ⟨front, last, rfl⟩
  · rfl
  · have hlast (front : List Statement) : terminateFront newline (front ++ [last]) =
        front.map (·.terminate newline) ++ [last] := by
      rw [terminateFront, List.dropLast_concat, List.getLast?_concat]
      rfl
    rw [List.concat_eq_append, hlast, hlast, List.map_map]
    simp only [Function.comp_def, terminate_terminate hn]

/-! ## Marks of what is in order -/

/-- Comments in front do not decide whether the next statement owns them. -/
theorem isOwned_append_of_comments {front : List Statement} (h : ∀ s ∈ front, s.type = .comment) :
    isOwned (front ++ rest) = isOwned rest := by
  induction front with
  | nil => rfl
  | cons s front ih =>
    rw [List.forall_mem_cons] at h
    rw [List.cons_append, isOwned_cons, if_pos h.1, ih h.2]

/-- Comments in a row are marked as what they are if each is marked as the last of them is to be. -/
theorem isMarked_append_iff {front : List Statement} (h : ∀ s ∈ front, s.type = .comment) :
    isMarked (front ++ rest) ↔ (∀ s ∈ front, s.ownedByNext = isOwned rest) ∧ isMarked rest := by
  induction front with
  | nil => simp
  | cons s front ih =>
    rw [List.forall_mem_cons] at h
    have hmark : isMarked (s :: (front ++ rest)) ↔
        s.ownedByNext = isOwned rest ∧ isMarked (front ++ rest) := by
      rw [← isOwned_append_of_comments h.2]
      exact and_congr_left' (forall_prop_of_true h.1)
    rw [List.cons_append, hmark, ih h.2, List.forall_mem_cons, and_assoc]

/-- Comments above a setting are marked as what they are if they are marked as belonging to it. -/
theorem SettingUnit.IsShaped.isMarked_iff {u : SettingUnit} (h : u.IsShaped) :
    isMarked (u.statements ++ rest) ↔ u.IsFormed ∧ isMarked rest := by
  obtain ⟨hc, he⟩ := h.setting
  have howned : isOwned ([u.setting] ++ rest) = true := by
    rw [List.singleton_append, isOwned_cons, if_neg hc]
    simpa using he
  have hsetting : isMarked ([u.setting] ++ rest) ↔ isMarked rest :=
    and_iff_right fun h => absurd h hc
  rw [SettingUnit.statements, List.append_assoc, isMarked_append_iff h.comments, hsetting, howned]
  exact and_congr_left' ⟨fun hmarks => ⟨fun s hs => ⟨h.comments s hs, hmarks s hs⟩, hc, he⟩,
    fun hu s hs => (hu.comments s hs).2⟩

/-- Units are marked rightly exactly when each is formed. -/
theorem isMarked_units_iff (hu : ∀ u ∈ units, u.IsShaped) :
    isMarked (units.flatMap (·.statements) ++ rest) ↔ (∀ u ∈ units, u.IsFormed) ∧ isMarked rest := by
  induction units with
  | nil => simp
  | cons u units ih =>
    rw [List.forall_mem_cons] at hu
    rw [List.flatMap_cons, List.append_assoc, hu.1.isMarked_iff, ih hu.2, List.forall_mem_cons,
      and_assoc]

/-- An empty line in front asks for no mark. -/
theorem isMarked_emptyLine_iff (newline : String) :
    isMarked (Statement.emptyLine newline :: rest) ↔ isMarked rest := and_iff_right nofun

/-- Empty lines are marked rightly and own nothing. -/
theorem isMarked_blank (h : ∀ s ∈ rest, isBlank s = true) : isMarked rest ∧ isOwned rest = false := by
  induction rest with
  | nil => exact ⟨trivial, rfl⟩
  | cons s rest ih =>
    rw [List.forall_mem_cons] at h
    have hs : s.type = .emptyLine := by simpa [isBlank] using h.1
    refine ⟨⟨fun hc => ?_, (ih h.2).1⟩, ?_⟩
    · rw [hs] at hc
      cases hc
    · rw [isOwned_cons, if_neg (by simp [hs]), hs]
      rfl

/-- Groups parted by empty lines are marked rightly exactly when each unit is formed. -/
theorem isMarked_groups_iff (hu : ∀ u ∈ groups.flatten, u.IsShaped)
    (hr : ∀ s ∈ rest, isBlank s = true) :
    isMarked (joinParts newline (groups.map fun units => units.flatMap (·.statements)) ++ rest) ↔
      ∀ u ∈ groups.flatten, u.IsFormed := by
  induction groups with
  | nil => simpa [joinParts] using (isMarked_blank hr).1
  | cons units groups ih =>
    obtain ⟨hunits, hgroups⟩ := List.forall_mem_append.1 hu
    rw [List.map_cons, List.flatten_cons, List.forall_mem_append, ← ih hgroups]
    by_cases hnil : units.flatMap (·.statements) = []
    · obtain rfl : units = [] := by
        rcases units with _ | ⟨u, units⟩
        · rfl
        · exact absurd (List.append_eq_nil_iff.1 hnil).1 u.statements_ne_nil
      rw [hnil, joinParts_cons_nil]
      simp
    · rw [joinParts_cons hnil]
      split
      · rename_i hjoin
        rw [hjoin, isMarked_units_iff hunits]
        rfl
      · rw [List.append_assoc, isMarked_units_iff hunits, List.cons_append, isMarked_emptyLine_iff]

/-- Sorted groups of formed units are settled. -/
theorem settled_of_sorted (h : List.Forall₂ (Sorted names) values groups)
    (hu : ∀ u ∈ groups.flatten, u.IsFormed) : List.Forall₂ (Settled names) values groups := by
  induction h with
  | nil => exact .nil
  | cons hgroup _ ih =>
    obtain ⟨hunits, hrest⟩ := List.forall_mem_append.1 hu
    exact .cons ⟨hunits, hgroup.placed, hgroup.sorted⟩ (ih hrest)

/-- An order is settled when no free statement is marked and every unit is formed. -/
theorem IsOrder.inOrder_iff (h : IsOrder names free groups rest) :
    InOrder names free groups rest ↔
      (∀ s ∈ free, s.ownedByNext = false) ∧ ∀ u ∈ groups.flatten, u.IsFormed := by
  have hfree : (∀ s ∈ free, isFree s = true) ↔ ∀ s ∈ free, s.ownedByNext = false :=
    forall₂_congr fun s hs => by simp [isFree, h.free s hs]
  constructor
  · exact fun ho => ⟨hfree.1 ho.free, formed_of_settled ho.groups⟩
  · exact fun ⟨hf, hu⟩ => ⟨hfree.2 hf, settled_of_sorted h.groups hu, h.rest⟩

/-- **Statements laid out in order are in order if their comments are marked as what they are.** -/
theorem IsOrder.isMarked_iff (h : IsOrder names free groups rest) :
    isMarked (laidOut newline free groups rest) ↔ InOrder names free groups rest := by
  have hgroups : isMarked (joinParts newline _ ++ rest) ↔ _ :=
    isMarked_groups_iff (shaped_of_sorted h.groups) h.rest
  have hblank := (isMarked_blank h.rest).2
  rw [h.inOrder_iff, ← hgroups, laidOut]
  by_cases hnil : free = []
  · rw [hnil, joinParts_cons_nil]
    simp
  · rw [joinParts_cons hnil]
    split
    · rename_i hjoin
      rw [hjoin, isMarked_append_iff h.free, hblank]
      rfl
    · rw [List.append_assoc, isMarked_append_iff h.free, List.cons_append, isMarked_emptyLine_iff]
      rfl

/-- What is in order is an order. -/
theorem InOrder.isOrder (h : InOrder names free groups rest) : IsOrder names free groups rest := by
  refine ⟨fun s hs => ?_, h.groups.imp fun name units hgroup =>
    ⟨fun u hu => ⟨fun s hs => ((hgroup.formed u hu).comments s hs).1, (hgroup.formed u hu).setting⟩,
      hgroup.placed, hgroup.sorted⟩, h.rest⟩
  have hfree := h.free s hs
  rw [isFree, Bool.and_eq_true] at hfree
  exact of_decide_eq_true hfree.1

/-- **Comments stay marked as what they are.** -/
theorem isMarked_arrange (order : List String) (hs : isMarked ss) :
    isMarked (arrange order newline ss) := by
  have horder := inOrder_collect order hs
  rw [arrange_eq]
  exact (completed_terminateFront newline _).isMarked (horder.isOrder.isMarked_iff.2 horder)

/-- Statements that are laid out in order, but for the empty lines between the parts, are put in order
with such lines as are put there. -/
theorem IsOrder.arrange_eq {R : Statement → Statement → Prop} (hR : OrdersAlike R)
    (ho : (allGroups order).Nodup) (h : IsOrder (allGroups order) free groups rest)
    (hc : SameParts R newline
      (joinParts newline (free :: groups.map fun units => units.flatMap (·.statements))) c)
    (hm : isMarked (c ++ rest)) : arrange order newline (c ++ rest) =
      terminateFront newline (laidOut newline free groups rest) := by
  have htype {s r : Statement} (hs : r = s ∨ s = .emptyLine newline ∧ R s r) : r.type = s.type :=
    hs.elim (congrArg _) fun hs => hR.type hs.2
  have hall : SameParts R newline (laidOut newline free groups rest) (c ++ rest) :=
    List.rel_append hc (sameParts_refl rest)
  have hmarked : isMarked (laidOut newline free groups rest) := by
    refine isMarked_of_forall₂ (hall.flip.imp fun r s hs => ⟨(htype hs).symm, fun hcomment => ?_⟩) hm
    rcases hs with rfl | ⟨rfl, hs⟩
    · rfl
    · cases hcomment.symm.trans (hR.type hs)
  have horder := h.isMarked_iff.1 hmarked
  have hlast : ∀ r ∈ c.getLast?, isBlank r = false := by
    intro r hr
    obtain ⟨front, rfl⟩ := List.getLast?_eq_some_iff.1 hr
    obtain ⟨front', last, hjoin, -, hlast⟩ := exists_append_of_forall₂ hc.flip
    cases hlast with
    | cons hs hnil =>
      cases hnil
      rw [isBlank, htype hs]
      exact getLast?_joinParts h.isBlank_eq_false _ (by rw [hjoin, List.getLast?_concat]; rfl)
  have hrest : Text.takeEndWhile isBlank (c ++ rest) = rest := by
    rw [(Text.endWhile_append hlast rest).1]
    exact (Text.endWhile_of_all (List.all_eq_true.2 h.rest)).1
  have hcollect : collect [] (c ++ rest) = (free, groups.flatten) := by
    rw [← collect_filter, hall.filter hR, collect_filter, collect_laidOut horder]
  rw [OrderSettings.arrange_eq, hcollect, hrest, members_of_settled ho horder.groups]

/-- **Ordering again changes nothing.** -/
theorem arrange_arrange (hn : newline ≠ "") (ho : (allGroups order).Nodup) (hs : isMarked ss) :
    arrange order newline (arrange order newline ss) = arrange order newline ss := by
  have hmarked : isMarked (arrange order newline ss) := isMarked_arrange order hs
  obtain ⟨free, groups, rest, heq, horder⟩ := exists_isOrder hn order ss
  rw [heq] at hmarked
  have hagain : arrange order newline (laidOut newline free groups rest) =
      terminateFront newline (laidOut newline free groups rest) :=
    arrange_laidOut ho (horder.isMarked_iff.1 hmarked)
  rw [← heq, arrange_eq order newline ss, terminateFront_terminateFront hn,
    ← arrange_eq order newline ss] at hagain
  exact hagain

end

end OrderSettings

end RobotSuite
