/-
# What a report says of a file

The report on a file tells what has become of it: the file has a new text exactly if it was
written (`settled_ne_iff`), and then that of the report; a file that could not be processed is
left as it is (`settled_of_error`), and what is reported of a file that was checked is what
another check of the file reports (`checked_settled`).

Files are processed one after the other, and what is written to one of them does not show in
another (`Disk.read_write_of_ne`), so each is found as it was (`processFiles_spec`).

Reports are ordered by the code units of the paths, number by number.  Different texts have
different code units (`flatMap_codeUnits_injective`), because characters are read back from them, so
the order is a strict and total one, and reports on different files are sorted in one way only
(`pairwise_sortReports`).
-/

import Mathlib.Data.List.Lex
import Mathlib.Order.Defs.LinearOrder
import RobotSuite.Batch.Run

namespace RobotSuite

namespace Text

/-! ## Code units -/

/-- Numbers are compared as lists are. -/
theorem numbersLt_iff (a b : List Nat) : numbersLt a b = true ↔ a < b := by
  induction a generalizing b with
  | nil => cases b <;> simp [numbersLt]
  | cons x a ih =>
    cases b with
    | nil => simp [numbersLt]
    | cons y b => simp [numbersLt, ih, List.cons_lt_cons_iff]

/-- Texts with the same code units are the same. -/
theorem flatMap_codeUnits_injective {a b : List Char}
    (h : a.flatMap codeUnits = b.flatMap codeUnits) : a = b := by
  rw [← charsOfUnits_codeUnits a, h, charsOfUnits_codeUnits]

/-! ## Texts -/

/-- Texts are compared by their code units. -/
theorem unitsLt_iff (a b : String) : unitsLt a b = true ↔
    a.toList.flatMap codeUnits < b.toList.flatMap codeUnits := numbersLt_iff _ _

/-- Of two different texts one comes first. -/
theorem unitsLt_of_ne {a b : String} (hne : a ≠ b) (h : unitsLt b a = false) :
    unitsLt a b = true := by
  rw [unitsLt_iff]
  rw [← Bool.not_eq_true, unitsLt_iff, not_lt] at h
  exact lt_of_le_of_ne h fun he => hne (String.toList_inj.1 (flatMap_codeUnits_injective he))

end Text

/-! ## Reports -/

/-- Sorting changes nothing but the order of reports. -/
theorem sortReports_perm (rs : List FileReport) : (sortReports rs).Perm rs :=
  List.mergeSort_perm _ _

/-- **Reports on different files are sorted strictly by their paths.** -/
theorem pairwise_sortReports {rs : List FileReport} (h : (rs.map (·.path)).Nodup) :
    ((sortReports rs).map (·.path)).Pairwise fun a b => Text.unitsLt a b = true := by
  have hle (a b : FileReport) : (!Text.unitsLt b.path a.path) = true ↔
      a.path.toList.flatMap Text.codeUnits ≤ b.path.toList.flatMap Text.codeUnits := by
    rw [Bool.not_eq_true', ← Bool.not_eq_true, Text.unitsLt_iff, not_lt]
  have hsorted : (sortReports rs).Pairwise fun a b => (!Text.unitsLt b.path a.path) = true := by
    refine List.pairwise_mergeSort (fun a b c hab hbc => ?_) (fun a b => ?_) rs
    · rw [hle] at hab hbc ⊢
      exact hab.trans hbc
    · rw [Bool.or_eq_true, hle, hle]
      exact le_total _ _
  have hnodup : ((sortReports rs).map (·.path)).Nodup :=
    ((sortReports_perm rs).map _).nodup_iff.2 h
  rw [List.Nodup, List.pairwise_map] at hnodup
  rw [List.pairwise_map]
  exact (hsorted.and hnodup).imp fun ⟨hle, hne⟩ =>
    Text.unitsLt_of_ne hne (by simpa using hle)

/-! ## One file -/

/-- What a file holds when it has been processed. -/
def settled (o : BatchOptions) (path : String) (text : Except ReadFault String) :
    Except ReadFault String :=
  match (processFile o path text).1.newText? with
  | some new => .ok new
  | none => text

section
variable {o : BatchOptions} {path source : String} {text : Except ReadFault String}

/-- A file is not processed at all, it fails, or there is an outcome for its text. -/
theorem processFile_cases (o : BatchOptions) (path : String) (text : Except ReadFault String) :
    (∃ source f, (processFile o path text).1 = .ofFailure path source f) ∨
      ∃ source outcome, text = .ok source ∧ (o.outcome source).1 = .ok outcome ∧
        (processFile o path text).1 = .ofOutcome path o.mode.writes source outcome := by
  unfold processFile
  cases o.obstacle? path with
  | some f => exact .inl ⟨none, f, rfl⟩
  | none =>
    cases text with
    | error fault => exact .inl ⟨none, _, rfl⟩
    | ok source =>
      dsimp only
      cases ho : o.outcome source with
      | mk result notices =>
        cases result with
        | error f => exact .inl ⟨some source, f, rfl⟩
        | ok outcome => exact .inr ⟨source, outcome, rfl, by rw [ho], rfl⟩

/-- A report names the file that it is about. -/
theorem processFile_path (o : BatchOptions) (path : String) (text : Except ReadFault String) :
    (processFile o path text).1.path = path := by
  rcases processFile_cases o path text with ⟨_, _, h⟩ | ⟨_, _, -, -, h⟩ <;> rw [h] <;> rfl

/-- A report that says that a file was written has the text, and it is a new one. -/
theorem newText?_eq_some (h : (processFile o path text).1.written = true) :
    ∃ new, (processFile o path text).1.output = some new ∧
      (processFile o path text).1.newText? = some new ∧ text ≠ .ok new := by
  have hnew : (processFile o path text).1.newText? = (processFile o path text).1.output :=
    if_pos h
  rw [hnew]
  rcases processFile_cases o path text with ⟨_, _, hr⟩ | ⟨source, outcome, rfl, -, hr⟩ <;>
    rw [hr] at h ⊢
  · cases h
  · rw [FileReport.ofOutcome, Bool.and_eq_true, Option.any_eq_true] at h
    obtain ⟨⟨new, hout, hne⟩, -⟩ := h
    exact ⟨new, hout, hout, fun he => bne_iff_ne.1 hne (Except.ok.inj he).symm⟩

/-- A file that was not written has no new text. -/
theorem newText?_eq_none (h : (processFile o path text).1.written = false) :
    (processFile o path text).1.newText? = none :=
  if_neg (by rw [h]; exact Bool.false_ne_true)

/-- What was written to a file is what it holds. -/
theorem settled_of_written (h : (processFile o path text).1.written = true) :
    ∃ new, (processFile o path text).1.output = some new ∧ settled o path text = .ok new := by
  obtain ⟨new, hout, hnew, -⟩ := newText?_eq_some h
  exact ⟨new, hout, by rw [settled, hnew]⟩

/-- **A file has another text exactly if it was written.** -/
theorem settled_ne_iff :
    settled o path text ≠ text ↔ (processFile o path text).1.written = true := by
  cases h : (processFile o path text).1.written with
  | false => simp [settled, newText?_eq_none h]
  | true =>
    obtain ⟨new, -, hnew, hne⟩ := newText?_eq_some h
    simpa [settled, hnew] using hne.symm

/-- A file that could not be processed is left as it is. -/
theorem settled_of_error (h : (processFile o path text).1.error ≠ none) :
    settled o path text = text := by
  have hwritten : (processFile o path text).1.written = false := by
    rcases processFile_cases o path text with ⟨_, _, hr⟩ | ⟨_, _, -, -, hr⟩ <;> rw [hr] at h ⊢
    · rfl
    · exact absurd rfl h
  rw [settled, newText?_eq_none hwritten]

/-- What is reported of a text that was checked is what is found in the text that comes out,
or in the text itself if none does. -/
theorem checkOutcome_diagnostics {config : LintConfig} {fix : Bool} {source : String}
    {outcome : Outcome} (h : (checkOutcome config fix source).1 = .ok outcome) :
    outcome.diagnostics =
        (checkSource (outcome.output.getD source) config Rule.all).diagnostics ∧
      (outcome.output ≠ none → fix = true) := by
  rw [checkOutcome] at h
  split at h
  · cases h
  · rename_i found hfound
    obtain rfl : checkSource source config Rule.all = found := by
      rw [checkSource?] at hfound
      cases hread : parse? source with
      | error failure => rw [hread] at hfound; cases hfound
      | ok f => rw [hread] at hfound; exact Except.ok.inj hfound
    split at h
    · cases h
      exact ⟨rfl, fun h => absurd rfl h⟩
    · rename_i hfix
      split at h
      · cases h
      · dsimp only at h
        split at h
        · cases h
          exact ⟨rfl, fun h => absurd rfl h⟩
        · cases h
          refine ⟨rfl, fun _ => ?_⟩
          cases fix
          · exact absurd rfl hfix
          · rfl

/-- **What is reported of a file that was checked is found in the file that it left behind.** -/
theorem checked_settled {fix : Bool} (hm : o.mode = .check fix)
    (h : (processFile o path text).1.error = none) :
    ∃ new, settled o path text = .ok new ∧
      (processFile o path text).1.diagnostics =
        (checkSource new o.config.check Rule.all).diagnostics ∧
      (processFile o path text).1.parseErrors =
        countDefects (processFile o path text).1.diagnostics := by
  rcases processFile_cases o path text with ⟨_, _, hr⟩ | ⟨source, outcome, rfl, ho, hr⟩
  · rw [hr] at h
    cases h
  · have houtcome : (checkOutcome o.config.check fix source).1 = .ok outcome := by
      rwa [BatchOptions.outcome, hm] at ho
    obtain ⟨hdiagnostics, hfix⟩ := checkOutcome_diagnostics houtcome
    refine ⟨outcome.output.getD source, ?_, by rw [hr]; exact hdiagnostics, by rw [hr]; rfl⟩
    -- an output is written unless it is the text that was read
    rw [settled, hr, FileReport.newText?, FileReport.ofOutcome, hm]
    cases hout : outcome.output with
    | none => rfl
    | some new =>
      rw [hfix (by simp [hout])]
      by_cases hne : new = source
      · simp [hne, BatchMode.writes]
      · simp [hne, BatchMode.writes]

end

/-! ## Files on a disk -/

namespace Disk
variable {d : Disk} {p q : String} {r : Route}

/-- Two disks with the same files and directories, but perhaps with other texts. -/
structure SameTree (d e : Disk) : Prop where
  routes : e.files.map (·.1) = d.files.map (·.1)
  directories : e.directories = d.directories

section
variable {e : Disk} (h : SameTree d e)
include h

/-- Two disks of the same shape have the same directories. -/
theorem SameTree.isDirectory (r : Route) : e.isDirectory r = d.isDirectory r := by
  have hany (d : Disk) : (d.files.any fun f => r.isSuffixOf f.1 && r ≠ f.1) =
      (d.files.map (·.1)).any fun s => r.isSuffixOf s && r ≠ s := by
    rw [List.any_map]
    rfl
  rw [Disk.isDirectory, Disk.isDirectory, hany, hany, h.routes, h.directories]

/-- Two disks of the same shape have files in the same places. -/
theorem SameTree.isSome_text? (r : Route) : (e.text? r).isSome = (d.text? r).isSome := by
  have hlookup (files : List (Route × String)) :
      (files.lookup r).isSome = (files.map (·.1)).contains r := by
    induction files with
    | nil => rfl
    | cons f files ih =>
      rw [List.map_cons, List.contains_cons, ← ih, List.lookup_cons]
      cases r == f.1 <;> simp
  rw [text?, text?, hlookup, hlookup, h.routes]

/-- Names lead to the same place on disks of the same shape. -/
theorem SameTree.follow (r : Route) (names : List String) :
    e.follow r names = d.follow r names := by
  induction names generalizing r with
  | nil => rfl
  | cons name names ih => rw [Disk.follow, Disk.follow, h.isDirectory, h.isSome_text?, ih]

/-- A path leads to the same place on disks of the same shape. -/
theorem SameTree.locate (p : String) : e.locate p = d.locate p := by
  rw [Disk.locate, Disk.locate]
  simp only [h.follow]

end

/-- Writing a file leaves the shape of a disk. -/
theorem sameTree_write (d : Disk) (p text : String) : SameTree d (d.write p text) := by
  rw [write]
  cases d.locate p with
  | error fault => exact ⟨rfl, rfl⟩
  | ok r =>
    refine ⟨?_, rfl⟩
    dsimp only
    rw [List.map_map]
    refine List.map_congr_left fun f _ => ?_
    by_cases hf : f.1 = r <;> simp [hf]

/-- Behind a write the file holds the new text, and all others what they held. -/
theorem text?_write (hp : d.locate p = .ok r) (text : String) (s : Route) :
    (d.write p text).text? s = if s = r then (d.text? r).map fun _ => text else d.text? s := by
  rw [write, hp, text?, text?, text?]
  dsimp only
  induction d.files with
  | nil => simp
  | cons f files ih =>
    rw [List.map_cons, List.lookup_cons, List.lookup_cons, List.lookup_cons, ih]
    by_cases hs : s = f.1
    · subst hs
      by_cases hr : f.1 = r <;> simp [hr]
    · have hsf : (s == f.1) = false := beq_false_of_ne hs
      by_cases hr : f.1 = r
      · subst hr
        simp [hs, hsf]
      · have hrf : (r == f.1) = false := beq_false_of_ne fun h => hr h.symm
        simp [hr, hsf, hrf]

/-- A file is read where its path leads. -/
theorem read_eq (d : Disk) (p : String) : d.read p =
    match d.locate p with
    | .error fault => .error fault
    | .ok r =>
      if d.isDirectory r then .error .directory
      else match d.text? r with
        | some text => .ok text
        | none => .error .missing := by
  rw [read]
  cases d.locate p with
  | error fault => rfl
  | ok r =>
    show (do if d.isDirectory r then throw .directory
             match d.text? r with
             | some text => pure text
             | none => throw .missing : Except ReadFault String) = _
    dsimp only
    by_cases hr : d.isDirectory r = true
    · rw [if_pos hr, if_pos hr]
      rfl
    · rw [if_neg hr, if_neg hr]
      cases d.text? r <;> rfl

/-- What is written to a file is read from it. -/
theorem read_write {old : String} (h : d.read p = .ok old) (text : String) :
    (d.write p text).read p = .ok text := by
  rw [read_eq] at h
  rw [read_eq, (sameTree_write d p text).locate]
  cases hp : d.locate p with
  | error fault =>
    rw [hp] at h
    cases h
  | ok r =>
    rw [hp] at h
    dsimp only at h ⊢
    rw [(sameTree_write d p text).isDirectory, text?_write hp, if_pos rfl]
    split at h
    · cases h
    · rename_i hr
      rw [if_neg hr]
      cases ht : d.text? r with
      | none =>
        rw [ht] at h
        cases h
      | some old => rfl

/-- What is written to a file does not show in another. -/
theorem read_write_of_ne (h : ∀ r, d.locate p = .ok r → d.locate q ≠ .ok r) (text : String) :
    (d.write p text).read q = d.read q := by
  cases hp : d.locate p with
  | error fault => rw [write, hp]
  | ok r =>
    rw [read_eq, read_eq, (sameTree_write d p text).locate]
    cases hq : d.locate q with
    | error fault => rfl
    | ok s =>
      have hne : s ≠ r := fun he => h r hp (he ▸ hq)
      dsimp only
      rw [(sameTree_write d p text).isDirectory, text?_write hp, if_neg hne]

end Disk

/-! ## Files one after the other -/

/-- Paths that lead to different files, or to none. -/
def Disk.Distinguishes (d : Disk) (paths : List String) : Prop :=
  ∀ p ∈ paths, ∀ q ∈ paths, p ≠ q → ∀ r, d.locate p = .ok r → d.locate q ≠ .ok r

/-- The disk behind the work on one file. -/
theorem BatchRun.read_step (o : BatchOptions) (run : BatchRun) (path : String) :
    (∀ q, (run.step o path).disk.locate q = run.disk.locate q) ∧
      (run.step o path).disk.read path = settled o path (run.disk.read path) ∧
      ∀ q, (∀ r, run.disk.locate path = .ok r → run.disk.locate q ≠ .ok r) →
        (run.step o path).disk.read q = run.disk.read q := by
  rw [step, settled]
  dsimp only
  cases hnew : (processFile o path (run.disk.read path)).1.newText? with
  | none => exact ⟨fun q => rfl, rfl, fun q _ => rfl⟩
  | some new =>
    refine ⟨fun q => (Disk.sameTree_write _ _ _).locate q, ?_,
      fun q h => Disk.read_write_of_ne h new⟩
    rcases processFile_cases o path (run.disk.read path) with ⟨_, _, hr⟩ | ⟨_, _, hread, -, -⟩
    · rw [hr] at hnew
      cases hnew
    · exact Disk.read_write hread new

/-- Files in a queue are found as they were at its start. -/
theorem BatchRun.foldl_step {o : BatchOptions} (run : BatchRun) {queue paths : List String}
    (hn : queue.Nodup) (hq : ∀ p ∈ queue, p ∈ paths) (hd : run.disk.Distinguishes paths) :
    (queue.foldl (step o) run).reports =
        run.reports ++ queue.map (fun p => (processFile o p (run.disk.read p)).1) ∧
      ∀ p ∈ paths, (queue.foldl (step o) run).disk.read p =
        if p ∈ queue then settled o p (run.disk.read p) else run.disk.read p := by
  induction queue generalizing run with
  | nil => simp
  | cons first queue ih =>
    obtain ⟨hfirst, hn⟩ := List.nodup_cons.1 hn
    rw [List.forall_mem_cons] at hq
    obtain ⟨hlocate, hself, hother⟩ := run.read_step o first
    have hd' : (run.step o first).disk.Distinguishes paths := by
      intro p hp q hq hne r
      rw [hlocate, hlocate]
      exact hd p hp q hq hne r
    have hread : ∀ p ∈ paths, p ≠ first → (run.step o first).disk.read p = run.disk.read p :=
      fun p hp hne => hother p (hd first hq.1 p hp hne.symm)
    obtain ⟨hreports, hfiles⟩ := ih (run.step o first) hn hq.2 hd'
    refine ⟨?_, fun p hp => ?_⟩
    · have hrest : queue.map (fun p => (processFile o p ((run.step o first).disk.read p)).1) =
          queue.map fun p => (processFile o p (run.disk.read p)).1 :=
        List.map_congr_left fun p hp => by
          rw [hread p (hq.2 p hp) fun he => hfirst (he ▸ hp)]
      rw [List.foldl_cons, hreports, hrest, List.map_cons, List.append_cons]
      rfl
    · rw [List.foldl_cons, hfiles p hp]
      by_cases hne : p = first
      · subst hne
        rw [if_neg hfirst, if_pos List.mem_cons_self, hself]
      · simp only [List.mem_cons, hne, false_or, hread p hp hne]

/-- Repeated paths are queued once. -/
theorem nodup_eraseDups : ∀ paths : List String, paths.eraseDups.Nodup
  | [] => by simp
  | path :: paths => by
    rw [List.eraseDups_cons, List.nodup_cons, List.mem_eraseDups]
    exact ⟨by simp, nodup_eraseDups _⟩
termination_by paths => paths.length
decreasing_by
  have := List.length_filter_le (fun p => !p == path) paths
  simp only [List.length_cons]
  omega

/-- **What is reported of a file and what becomes of it depends on the file alone.** -/
theorem processFiles_spec {o : BatchOptions} {d : Disk} {paths : List String}
    (hd : d.Distinguishes paths) :
    (processFiles d o paths).reports =
        sortReports (paths.eraseDups.map fun p => (processFile o p (d.read p)).1) ∧
      ∀ p ∈ paths, (processFiles d o paths).disk.read p = settled o p (d.read p) := by
  obtain ⟨hreports, hfiles⟩ := BatchRun.foldl_step (o := o)
    { disk := d, notices := [Notice.processing o paths.eraseDups.length] }
    (nodup_eraseDups paths) (fun p hp => List.mem_eraseDups.1 hp) hd
  refine ⟨congrArg sortReports hreports, fun p hp => (hfiles p hp).trans ?_⟩
  rw [if_pos (List.mem_eraseDups.2 hp)]

end RobotSuite
