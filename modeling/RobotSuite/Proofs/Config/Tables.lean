/-
# Tables made from documents

A configuration is read field by field into a table that holds the defaults.  What a field gives may
depend on the entry that it replaces, and since no key stands twice in a mapping, that entry is the
default.  So the table that comes out has, for each field, what is read from it, and for each other
key the default; its keys are those of the defaults and then those of the other fields
(`Table.IsMade`).  It comes out when each field may be read, and otherwise a field is to blame
(`Table.reads_readOver`).
-/

import Mathlib.Data.List.Nodup
import RobotSuite.Config.Param
import RobotSuite.Proofs.Data.Outcomes

namespace RobotSuite

/-! ## Documents at paths -/

namespace Document

/-- What a document says at the end of a path of keys. -/
def at? : Document → List String → Option Document
  | d, [] => some d
  | d, key :: path => (d.field? key).bind fun e => e.at? path

/-- One key leads to the field of this name. -/
theorem at?_singleton (d : Document) (key : String) : d.at? [key] = d.field? key := by
  rw [at?]
  cases d.field? key <;> rfl

/-- Two keys lead to a field of a field. -/
theorem at?_pair (d : Document) (key name : String) :
    d.at? [key, name] = (d.field? key).bind fun e => e.field? name := by
  rw [at?]
  exact congrArg _ (funext fun e => at?_singleton e name)

/-- What is no mapping says nothing below. -/
theorem at?_of_fields? {d : Document} (h : d.fields? = none) (key : String) (path : List String) :
    d.at? (key :: path) = none := by
  cases d <;> first | rfl | cases h

/-- Whether no mapping in a document has a key twice. -/
def HasDistinctKeys (d : Document) : Prop :=
  ∀ path fields, d.at? path = some (.mapping fields) → (fields.map Prod.fst).Nodup

/-- In a field of a document no key stands twice either. -/
theorem HasDistinctKeys.of_field {d e : Document} (h : d.HasDistinctKeys) {key : String}
    (he : d.field? key = some e) : e.HasDistinctKeys := fun path fields hpath =>
  h (key :: path) fields (by rw [at?, he]; exact hpath)

/-- A document that is no mapping has no keys. -/
theorem hasDistinctKeys_of_fields? {d : Document} (h : d.fields? = none) : d.HasDistinctKeys := by
  intro path fields hpath
  cases path with
  | nil => rw [at?, Option.some.injEq] at hpath; rw [hpath] at h; cases h
  | cons key path => rw [at?_of_fields? h] at hpath; cases hpath

/-- A mapping has no key twice if its fields have none and their names are different. -/
theorem hasDistinctKeys_mapping {fields : List (String × Document)}
    (hnodup : (fields.map Prod.fst).Nodup) (h : ∀ f ∈ fields, f.2.HasDistinctKeys) :
    (mapping fields).HasDistinctKeys := by
  intro path below hpath
  cases path with
  | nil =>
    obtain rfl := Document.mapping.inj (Option.some.inj hpath)
    exact hnodup
  | cons key path =>
    obtain ⟨e, he, hbelow⟩ := Option.bind_eq_some_iff.1 hpath
    obtain ⟨front, back, rfl, -⟩ := List.lookup_eq_some_iff.1 he
    exact h _ (List.mem_append_right _ List.mem_cons_self) path below hbelow

end Document

/-! ## Entries of tables -/

namespace Table

variable {α β γ ε : Type} {t u : Table α}

/-- An entry is found by its key. -/
theorem get?_of_mem (hnodup : (t.map Prod.fst).Nodup) {key : String} {v : α} (h : (key, v) ∈ t) :
    t.get? key = some v := by
  obtain ⟨front, back, rfl⟩ := List.append_of_mem h
  refine List.lookup_eq_some_iff.2 ⟨front, back, rfl, fun e he => ?_⟩
  rw [List.map_append, List.map_cons, List.nodup_append] at hnodup
  exact bne_iff_ne.2 (Ne.symm (hnodup.2.2 e.1 (List.mem_map_of_mem he) key List.mem_cons_self))

/-- Nothing is found under a key that no entry has. -/
theorem get?_eq_none_iff {key : String} : t.get? key = none ↔ key ∉ t.map Prod.fst := by
  rw [get?, List.lookup_eq_none_iff, List.mem_map, not_exists]
  refine forall_congr' fun e => ?_
  rw [not_and, bne_iff_ne]
  exact imp_congr_right fun _ => ne_comm

/-- Something is found under each key. -/
theorem mem_keys_iff {key : String} : key ∈ t.map Prod.fst ↔ ∃ v, t.get? key = some v := by
  rw [← not_iff_not, ← get?_eq_none_iff, not_exists, Option.eq_none_iff_forall_ne_some]

/-- Tables with the same keys in the same order and the same entries are the same. -/
theorem ext_get? (hkeys : t.map Prod.fst = u.map Prod.fst) (hnodup : (t.map Prod.fst).Nodup)
    (h : ∀ key ∈ t.map Prod.fst, t.get? key = u.get? key) : t = u := by
  induction t generalizing u with
  | nil => exact (List.map_eq_nil_iff.1 hkeys.symm).symm
  | cons e t ih =>
    cases u with
    | nil => cases hkeys
    | cons f u =>
      obtain ⟨hkey, hkeys⟩ := List.cons.inj hkeys
      obtain ⟨hfresh, hnodup⟩ := List.nodup_cons.1 hnodup
      have hvalue := h e.1 List.mem_cons_self
      rw [get?_cons, get?_cons, if_pos rfl, if_pos hkey] at hvalue
      refine congrArg₂ List.cons (Prod.ext hkey (Option.some.inj hvalue)) (ih hkeys hnodup ?_)
      intro key hmem
      have hne : key ≠ e.1 := fun heq => hfresh (heq ▸ hmem)
      have hrest := h key (List.mem_cons_of_mem _ hmem)
      rwa [get?_cons, get?_cons, if_neg hne, if_neg (hkey ▸ hne)] at hrest

/-- Looking for an entry with a key is looking for the key. -/
theorem any_iff_mem_keys {key : String} :
    (t.any fun e => e.1 = key) = true ↔ key ∈ t.map Prod.fst := by
  simp only [List.any_eq_true, decide_eq_true_eq, List.mem_map]

/-- A key that is set is added at the end, unless it is there. -/
theorem keys_set (t : Table α) (key : String) (v : α) :
    (t.set key v).map Prod.fst =
      if key ∈ t.map Prod.fst then t.map Prod.fst else t.map Prod.fst ++ [key] := by
  rw [set]
  simp only [any_iff_mem_keys]
  split
  · rw [List.map_map]
    refine List.map_congr_left fun e _ => ?_
    by_cases he : e.1 = key <;> simp [he]
  · rw [List.map_append]
    rfl

/-- Entries made in the order of a list. -/
theorem get?_map {key : β → String} {value : β → α} {xs : List β} (hnodup : (xs.map key).Nodup)
    {x : β} (hx : x ∈ xs) : get? (xs.map fun x => (key x, value x)) (key x) = some (value x) :=
  get?_of_mem (by rwa [List.map_map]) (List.mem_map_of_mem hx)

/-- Values are mapped where they stand. -/
theorem get?_map_value (f : α → β) (t : Table α) (key : String) :
    get? (t.map fun e => (e.1, f e.2)) key = (t.get? key).map f := by
  induction t with
  | nil => rfl
  | cons e t ih =>
    rw [List.map_cons, get?_cons, get?_cons, ih]
    split <;> rfl

/-- Setting entries one after the other lists them. -/
theorem foldl_set_eq_append {key : β → String} {value : β → α} (skip : β → Bool) {xs : List β}
    (hnodup : (t.map Prod.fst ++ xs.map key).Nodup) :
    xs.foldl (fun t x => if skip x then t else t.set (key x) (value x)) t =
      t ++ (xs.filter fun x => !skip x).map fun x => (key x, value x) := by
  induction xs generalizing t with
  | nil => exact (List.append_nil t).symm
  | cons x xs ih =>
    rw [List.foldl_cons]
    have hrest : (t.map Prod.fst ++ xs.map key).Nodup :=
      hnodup.sublist ((List.Sublist.refl _).append (List.sublist_cons_self _ _))
    by_cases hskip : skip x = true
    · rw [if_pos hskip, ih hrest, List.filter_cons_of_neg (by simp [hskip])]
    · have hfresh : key x ∉ t.map Prod.fst := fun hmem =>
        (List.nodup_append.1 hnodup).2.2 _ hmem _ List.mem_cons_self rfl
      have hset : t.set (key x) (value x) = t ++ [(key x, value x)] := by
        rw [set, if_neg (mt any_iff_mem_keys.1 hfresh)]
      rw [if_neg hskip, hset, ih, List.filter_cons_of_pos (by simp [hskip]), List.map_cons,
        List.append_assoc]
      · rfl
      · rwa [List.map_append, List.append_assoc]

/-! ## Tables as documents -/

/-- A table as a document. -/
def toDocument (document : α → Document) (t : Table α) : Document :=
  .mapping (t.map fun e => (e.1, document e.2))

/-- The fields of a table that is written are its values. -/
theorem field?_toDocument (document : α → Document) (t : Table α) (key : String) :
    (t.toDocument document).field? key = (t.get? key).map document := get?_map_value document t key

/-- A table is written with no key twice if its values are. -/
theorem hasDistinctKeys_toDocument {document : α → Document} (hnodup : (t.map Prod.fst).Nodup)
    (h : ∀ key v, t.get? key = some v → (document v).HasDistinctKeys) :
    (t.toDocument document).HasDistinctKeys := by
  refine Document.hasDistinctKeys_mapping (by rwa [List.map_map]) fun f hf => ?_
  obtain ⟨e, he, rfl⟩ := List.mem_map.1 hf
  exact h e.1 e.2 (get?_of_mem hnodup he)

/-! ## One entry for each -/

/-- Whether a table has an entry for each member of a list, in its order, and no others; and what
holds of the entries. -/
structure IsOver (xs : List β) (key : β → String) (holds : β → α → Prop) (t : Table α) : Prop where
  keys : t.map Prod.fst = xs.map key
  entries : ∀ x ∈ xs, ∃ v, t.get? (key x) = some v ∧ holds x v

section
variable {xs : List β} {key : β → String} {holds : β → α → Prop}

/-- What is found in a table over some members is what holds of one of them. -/
theorem IsOver.of_get? (ht : IsOver xs key holds t) {name : String} {v : α}
    (hv : t.get? name = some v) : ∃ x ∈ xs, key x = name ∧ holds x v := by
  have hname := mem_keys_iff.2 ⟨v, hv⟩
  rw [ht.keys] at hname
  obtain ⟨x, hx, rfl⟩ := List.mem_map.1 hname
  obtain ⟨w, hw, hholds⟩ := ht.entries x hx
  exact ⟨x, hx, rfl, Option.some.inj (hw.symm.trans hv) ▸ hholds⟩

variable (hxs : (xs.map key).Nodup)
include hxs

/-- A table with one entry for each member is over the members. -/
theorem isOver_map {value : β → α} (h : ∀ x ∈ xs, holds x (value x)) :
    IsOver xs key holds (xs.map fun x => (key x, value x)) :=
  ⟨by rw [List.map_map]; rfl, fun x hx => ⟨value x, get?_map hxs hx, h x hx⟩⟩

/-- A table that is set member by member is over the members. -/
theorem isOver_foldl_set {value : β → α} (h : ∀ x ∈ xs, holds x (value x)) :
    IsOver xs key holds (xs.foldl (fun t x => set t (key x) (value x)) []) := by
  have hmap : xs.foldl (fun t x => set t (key x) (value x)) [] =
      xs.map fun x => (key x, value x) := by
    simpa using foldl_set_eq_append (t := []) (fun _ => false) hxs
  exact hmap ▸ isOver_map hxs h

/-- Entries of which something holds that fixes them make one table only. -/
theorem IsOver.unique (ht : IsOver xs key holds t) (hu : IsOver xs key holds u)
    (hfix : ∀ x v w, holds x v → holds x w → v = w) : t = u := by
  refine ext_get? (ht.keys.trans hu.keys.symm) (by rwa [ht.keys]) fun name hname => ?_
  rw [ht.keys] at hname
  obtain ⟨x, hx, rfl⟩ := List.mem_map.1 hname
  obtain ⟨v, hv, hholds⟩ := ht.entries x hx
  obtain ⟨w, hw, hholds'⟩ := hu.entries x hx
  rw [hv, hw, hfix x v w hholds hholds']

end

/-! ## Reading for the member of a name -/

/-- Read for the member of a list that has some key. -/
def readNamed (xs : List γ) (key : γ → String) (name : String) (unknown : ε)
    (read : γ → Except ε α) :
    Except ε α :=
  match xs.find? (key · = name) with
  | none => .error unknown
  | some x => read x

/-- A named entry is read as that of the member of its name. -/
theorem reads_readNamed {xs : List γ} {key : γ → String} (hxs : (xs.map key).Nodup) {name : String}
    {unknown : ε} {read : γ → Except ε α} {accepts : γ → Prop} {follows : γ → α → Prop}
    {faulty : ε → Prop} (hunknown : faulty unknown)
    (hread : ∀ x ∈ xs, key x = name → Reads (accepts x) (follows x) faulty (read x)) :
    Reads (∃ x ∈ xs, key x = name ∧ accepts x)
      (fun v => ∀ x ∈ xs, key x = name → follows x v) faulty
      (readNamed xs key name unknown read) := by
  rw [readNamed]
  cases hfind : xs.find? (key · = name) with
  | none =>
    refine .of_error ?_ hunknown
    rintro ⟨x, hx, hname, -⟩
    exact List.find?_eq_none.1 hfind x hx (decide_eq_true hname)
  | some x =>
    have hx : x ∈ xs := List.mem_of_find?_eq_some hfind
    have hname : key x = name := by simpa using List.find?_some hfind
    have hsame : ∀ y ∈ xs, key y = name → y = x := fun y hy hyname =>
      List.inj_on_of_nodup_map hxs hy hx (hyname.trans hname.symm)
    refine (hread x hx hname).imp ⟨fun h => ⟨x, hx, hname, h⟩, ?_⟩ ?_ fun _ hf => hf
    · rintro ⟨y, hy, hyname, h⟩
      exact hsame y hy hyname ▸ h
    · intro _ v hv y hy hyname
      exact hsame y hy hyname ▸ hv

/-! ## Reading fields over defaults -/

/-- Read fields one after the other into a table.  `read` is given the entry that is replaced. -/
def readOver (read : Option α → String × β → Except ε α) (base : Table α) (fields : Table β) :
    Except ε (Table α) :=
  fields.foldlM (fun t f => do pure (t.set f.1 (← read (t.get? f.1) f))) base

variable {read : Option α → String × β → Except ε α} {base : Table α} {fields : Table β}

/-- Fields that are read one by one into a table are read over it. -/
theorem foldlM_eq_readOver {step : Table α → String × β → Except ε (Table α)}
    (h : ∀ t f, step t f = read (t.get? f.1) f >>= fun v => pure (t.set f.1 v)) (base : Table α)
    (fields : Table β) : fields.foldlM step base = readOver read base fields :=
  congrArg (fun step => fields.foldlM step base) (funext fun t => funext fun f => h t f)

/-- The first field is read over the table, and the others over what comes out. -/
theorem readOver_cons (f : String × β) (fields : Table β) :
    readOver read base (f :: fields) = (read (base.get? f.1) f) >>= fun v =>
      readOver read (base.set f.1 v) fields := by
  rw [readOver, List.foldlM_cons]
  cases read (base.get? f.1) f <;> rfl

/-- What is read stands in the table. -/
theorem readOver_ok (hnodup : (fields.map Prod.fst).Nodup) (h : readOver read base fields = .ok t) :
    (∀ key d, fields.get? key = some d →
      ∃ v, read (base.get? key) (key, d) = .ok v ∧ t.get? key = some v) ∧
    ∀ key, fields.get? key = none → t.get? key = base.get? key := by
  induction fields generalizing base with
  | nil =>
    obtain rfl := Except.ok.inj h
    exact ⟨fun key d hd => (Option.some_ne_none d hd.symm).elim, fun key _ => rfl⟩
  | cons f fields ih =>
    rw [readOver_cons] at h
    obtain ⟨v, hv, h⟩ := bind_eq_ok h
    obtain ⟨hfresh, hnodup⟩ := List.nodup_cons.1 hnodup
    obtain ⟨hfields, hothers⟩ := ih hnodup h
    constructor
    · intro key d hd
      rw [get?_cons] at hd
      split at hd
      · rename_i heq
        obtain rfl := Option.some.inj hd
        obtain rfl := heq
        refine ⟨v, hv, ?_⟩
        rw [hothers _ (get?_eq_none_iff.2 hfresh), get?_set, if_pos rfl]
      · rename_i hne
        obtain ⟨w, hw, hget⟩ := hfields key d hd
        rw [get?_set, if_neg hne] at hw
        exact ⟨w, hw, hget⟩
    · intro key hnone
      rw [get?_cons] at hnone
      split at hnone
      · cases hnone
      · rename_i hne
        rw [hothers key hnone, get?_set, if_neg hne]

/-- New keys stand behind those that were there. -/
theorem keys_readOver (hnodup : (fields.map Prod.fst).Nodup)
    (h : readOver read base fields = .ok t) :
    t.map Prod.fst =
      base.map Prod.fst ++ (fields.map Prod.fst).filter fun key => key ∉ base.map Prod.fst := by
  induction fields generalizing base with
  | nil =>
    obtain rfl := Except.ok.inj h
    exact (List.append_nil _).symm
  | cons f fields ih =>
    rw [readOver_cons] at h
    obtain ⟨v, hv, h⟩ := bind_eq_ok h
    obtain ⟨hfresh, hnodup⟩ := List.nodup_cons.1 hnodup
    rw [ih hnodup h, keys_set, List.map_cons]
    split
    · rename_i hmem
      rw [List.filter_cons_of_neg (by simpa using hmem)]
    · rename_i hnot
      rw [List.filter_cons_of_pos (by simpa using hnot), List.append_assoc, List.singleton_append]
      refine congrArg (fun rest => base.map Prod.fst ++ f.1 :: rest) (List.filter_congr ?_)
      intro key hkey
      have hne : key ≠ f.1 := fun heq => hfresh (heq ▸ hkey)
      simp [hne]

/-- When reading fails, a field is to blame. -/
theorem readOver_error (hnodup : (fields.map Prod.fst).Nodup) {e : ε}
    (h : readOver read base fields = .error e) :
    ∃ key d, fields.get? key = some d ∧ read (base.get? key) (key, d) = .error e := by
  induction fields generalizing base with
  | nil => cases h
  | cons f fields ih =>
    rw [readOver_cons] at h
    obtain ⟨hfresh, hnodup⟩ := List.nodup_cons.1 hnodup
    cases hv : read (base.get? f.1) f with
    | error e' =>
      rw [hv] at h
      exact ⟨f.1, f.2, by rw [get?_cons, if_pos rfl], hv.trans (congrArg _ (Except.error.inj h))⟩
    | ok v =>
      rw [hv] at h
      obtain ⟨key, d, hd, hread⟩ := ih hnodup h
      have hne : key ≠ f.1 := fun heq => by
        rw [heq, get?_eq_none_iff.2 hfresh] at hd
        cases hd
      rw [get?_set, if_neg hne] at hread
      exact ⟨key, d, by rw [get?_cons, if_neg hne, hd], hread⟩

/-- A table made from another by fields that each give an entry. -/
structure IsMade (base : Table α) (fields : Table β) (gives : String → β → α → Prop) (t : Table α) :
    Prop where
  keys : t.map Prod.fst =
    base.map Prod.fst ++ (fields.map Prod.fst).filter fun key => key ∉ base.map Prod.fst
  given : ∀ key d, fields.get? key = some d → ∃ v, t.get? key = some v ∧ gives key d v
  kept : ∀ key, fields.get? key = none → t.get? key = base.get? key

/-- **Fields are read** when each of them may be read. -/
theorem reads_readOver {accepts : String → β → Prop} {gives : String → β → α → Prop}
    {faulty : ε → Prop} (hnodup : (fields.map Prod.fst).Nodup)
    (hread : ∀ key d, fields.get? key = some d →
      Reads (accepts key d) (gives key d) faulty (read (base.get? key) (key, d))) :
    Reads (∀ key d, fields.get? key = some d → accepts key d) (IsMade base fields gives) faulty
      (readOver read base fields) where
  ok t h := by
    obtain ⟨hfields, hothers⟩ := readOver_ok hnodup h
    refine ⟨fun key d hd => ?_, keys_readOver hnodup h, fun key d hd => ?_, hothers⟩
    · obtain ⟨v, hv, -⟩ := hfields key d hd
      exact ((hread key d hd).ok v hv).1
    · obtain ⟨v, hv, hget⟩ := hfields key d hd
      exact ⟨v, hget, ((hread key d hd).ok v hv).2⟩
  error e h := by
    obtain ⟨key, d, hd, he⟩ := readOver_error hnodup h
    obtain ⟨hnot, hfaulty⟩ := (hread key d hd).error e he
    exact ⟨fun haccepts => hnot (haccepts key d hd), hfaulty⟩

/-- Defaults, one for each member of a list, over which fields for members are read. -/
theorem IsMade.isOver {xs : List γ} {key : γ → String} {holds after : γ → α → Prop}
    {gives : String → β → α → Prop} (h : IsMade base fields gives t)
    (hbase : IsOver xs key holds base)
    (hkeys : ∀ name d, fields.get? name = some d → name ∈ xs.map key)
    (hgiven : ∀ x ∈ xs, ∀ d v, fields.get? (key x) = some d → gives (key x) d v → after x v)
    (hkept : ∀ x ∈ xs, ∀ v, fields.get? (key x) = none → holds x v → after x v) :
    IsOver xs key after t := by
  refine ⟨?_, fun x hx => ?_⟩
  · -- each field is that of a member, so no key is new
    rw [h.keys, List.filter_eq_nil_iff.2, List.append_nil, hbase.keys]
    intro name hname
    obtain ⟨d, hd⟩ := mem_keys_iff.1 hname
    simpa [hbase.keys] using hkeys name d hd
  · cases hd : fields.get? (key x) with
    | none =>
      obtain ⟨v, hv, hholds⟩ := hbase.entries x hx
      exact ⟨v, (h.kept _ hd).trans hv, hkept x hx v hd hholds⟩
    | some d =>
      obtain ⟨v, hv, hgives⟩ := h.given _ d hd
      exact ⟨v, hv, hgiven x hx d v hd hgives⟩

end Table
end RobotSuite
