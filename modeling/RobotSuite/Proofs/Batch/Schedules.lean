/-
# Jobs that take turns

Files are not processed in one go.  The job on a file reads it, works on the text, writes a
new text to a temporary file beside it and moves that file to its place, and between these
stages other jobs take their turns.  A schedule is the order in which they do
(`BatchWorld.run`).

A job touches only its own file and its own temporary file, so a turn of one leaves what is
known of the others as it is (`JobStage.Holds.of_other`), and after its own turn a job is one
stage further (`BatchWorld.holds_turn`).  Whatever the schedule, each job finds its file as it
was and leaves it as its report says (`BatchWorld.Sound.truthful`), and this is what comes of
processing the files one after the other (`jobs_isolated`).  The temporary file is named after
the file and some random bytes, which are supposed not to give the name of a file of the batch
(`FreshDraws`).
-/

import Mathlib.Logic.Function.Basic
import RobotSuite.Proofs.Batch.Reports
import RobotSuite.Proofs.Format.Run

namespace RobotSuite

/-! ## Temporary files -/

/-- Bytes in hexadecimal, two digits each. -/
def hexText (bytes : List UInt8) : List Char :=
  bytes.flatMap fun b => [Nat.digitChar (b.toNat / 16), Nat.digitChar (b.toNat % 16)]

/-- The temporary file beside a file, named after six random bytes. -/
def temporaryPath (path : String) (bytes : Vector UInt8 6) : String :=
  path ++ String.ofList ('.' :: hexText bytes.toList ++ ".tmp".toList)

/-- A byte is written in two digits. -/
theorem length_hexText (bytes : List UInt8) : (hexText bytes).length = 2 * bytes.length := by
  induction bytes with
  | nil => rfl
  | cons b bytes ih =>
    rw [hexText, List.flatMap_cons, List.length_append, ← hexText, ih, List.length_cons]
    simp
    omega

/-- Different files have different temporary files. -/
theorem temporaryPath_inj {p q : String} {a b : Vector UInt8 6}
    (h : temporaryPath p a = temporaryPath q b) : p = q := by
  rw [← String.toList_inj, temporaryPath, temporaryPath, String.toList_append,
    String.toList_append, String.toList_ofList, String.toList_ofList] at h
  refine String.toList_inj.1 (List.append_inj_left' h ?_)
  simp [length_hexText]

/-- Random bytes that make no temporary file one of the files of the batch. -/
def FreshDraws (draw : String → Vector UInt8 6) (paths : List String) : Prop :=
  ∀ p ∈ paths, temporaryPath p (draw p) ∉ paths

/-! ## Turns -/

/-- What the files at all paths hold, or why they cannot be read.  Where there is no file the
fault is `ReadFault.missing`. -/
abbrev Store := String → Except ReadFault String

/-- How far the job on a file has come. -/
inductive JobStage where
  /-- There is no job on the file. -/
  | absent
  /-- The job has not begun. -/
  | queued
  /-- The file has been read. -/
  | loaded (text : Except ReadFault String)
  /-- The new text is in the temporary file. -/
  | staged (report : FileReport)
  /-- The job is done. -/
  | finished (report : FileReport)

namespace JobStage

/-- The report of a job that is done. -/
def report? : JobStage → Option FileReport
  | finished report => some report
  | _ => none

/-- How many turns a job takes at most until it is done. -/
def turns : JobStage → Nat
  | absent | finished _ => 0
  | staged _ => 1
  | loaded _ => 2
  | queued => 3

end JobStage

/-- The files and the jobs on them. -/
structure BatchWorld where
  /-- What the files hold. -/
  files : Store
  /-- How far the job on each file has come. -/
  jobs : String → JobStage

namespace BatchWorld

/-- Files on which no job has begun. -/
def start (files : Store) (paths : List String) : BatchWorld :=
  ⟨files, fun p => if p ∈ paths then .queued else .absent⟩

section
variable (o : BatchOptions) (draw : String → Vector UInt8 6)

/-- The turn of the job on one file. -/
def turn (w : BatchWorld) (path : String) : BatchWorld :=
  let temporary := temporaryPath path (draw path)
  let go (files : Store) (stage : JobStage) : BatchWorld :=
    ⟨files, Function.update w.jobs path stage⟩
  match w.jobs path with
  | .absent | .finished _ => w
  | .queued => go w.files (.loaded (w.files path))
  | .loaded text =>
    let report := (processFile o path text).1
    match report.newText? with
    | some new => go (Function.update w.files temporary (.ok new)) (.staged report)
    | none => go w.files (.finished report)
  | .staged report =>
    let moved := Function.update w.files path (w.files temporary)
    go (Function.update moved temporary (.error .missing)) (.finished report)

/-- The jobs on some files take their turns. -/
def run (files : Store) (paths schedule : List String) : BatchWorld :=
  schedule.foldl (turn o draw) (start files paths)

end

/-- Whether the jobs on some files are done. -/
def IsDone (w : BatchWorld) (paths : List String) : Prop :=
  ∀ p ∈ paths, ((w.jobs p).report?).isSome = true

/-- The reports of the jobs on some files, each file once, by their paths. -/
def reports (w : BatchWorld) (paths : List String) : List FileReport :=
  sortReports (paths.eraseDups.filterMap fun p => (w.jobs p).report?)

end BatchWorld

/-! ## What holds of a job -/

section
variable {o : BatchOptions} {draw : String → Vector UInt8 6} {files : Store}

/-- What is true of a file and its temporary file at the stages of the job, where `files` are
those at the start and `now` those that there are. -/
inductive JobStage.Holds (o : BatchOptions) (draw : String → Vector UInt8 6) (files now : Store)
    (path : String) : JobStage → Prop
  | queued : now path = files path → Holds o draw files now path .queued
  | loaded : now path = files path → Holds o draw files now path (.loaded (files path))
  | staged {new : String} : now path = files path →
      (processFile o path (files path)).1.newText? = some new →
      now (temporaryPath path (draw path)) = .ok new →
      Holds o draw files now path (.staged (processFile o path (files path)).1)
  | finished : now path = settled o path (files path) →
      Holds o draw files now path (.finished (processFile o path (files path)).1)

/-- What is known of a job stays true while its two files do. -/
theorem JobStage.Holds.of_other {now now' : Store} {path : String} {stage : JobStage}
    (h : stage.Holds o draw files now path) (hp : now' path = now path)
    (ht : now' (temporaryPath path (draw path)) = now (temporaryPath path (draw path))) :
    stage.Holds o draw files now' path := by
  cases h with
  | queued hnow => exact .queued (hp.trans hnow)
  | loaded hnow => exact .loaded (hp.trans hnow)
  | staged hnow hnew htemp => exact .staged (hp.trans hnow) hnew (ht.trans htemp)
  | finished hnow => exact .finished (hp.trans hnow)

namespace BatchWorld
variable {w : BatchWorld} {paths : List String} {path : String}

/-- A turn leaves the jobs on other files and all files but two as they are. -/
theorem turn_frame (o : BatchOptions) (draw : String → Vector UInt8 6) (w : BatchWorld)
    (path : String) :
    (∀ p, p ≠ path → (w.turn o draw path).jobs p = w.jobs p) ∧
      ∀ p, p ≠ path → p ≠ temporaryPath path (draw path) →
        (w.turn o draw path).files p = w.files p := by
  rw [turn]
  dsimp only
  cases w.jobs path with
  | absent => exact ⟨fun p _ => rfl, fun p _ _ => rfl⟩
  | finished report => exact ⟨fun p _ => rfl, fun p _ _ => rfl⟩
  | queued => exact ⟨fun p hp => Function.update_of_ne hp _ _, fun p _ _ => rfl⟩
  | loaded text =>
    dsimp only
    cases (processFile o path text).1.newText? with
    | none => exact ⟨fun p hp => Function.update_of_ne hp _ _, fun p _ _ => rfl⟩
    | some new =>
      exact ⟨fun p hp => Function.update_of_ne hp _ _,
        fun p _ ht => Function.update_of_ne ht _ _⟩
  | staged report =>
    refine ⟨fun p hp => Function.update_of_ne hp _ _, fun p hp ht => ?_⟩
    dsimp only
    rw [Function.update_of_ne ht, Function.update_of_ne hp]

/-- **After its turn a job is one stage further,** and its files are as they should be. -/
theorem holds_turn (h : (w.jobs path).Holds o draw files w.files path)
    (ht : temporaryPath path (draw path) ≠ path) :
    ((w.turn o draw path).jobs path).Holds o draw files (w.turn o draw path).files path := by
  rw [turn]
  dsimp only
  generalize hstage : w.jobs path = stage at h
  cases h with
  | queued hnow =>
    dsimp only
    rw [Function.update_self, hnow]
    exact .loaded hnow
  | loaded hnow =>
    dsimp only
    cases hnew : (processFile o path (files path)).1.newText? with
    | none =>
      dsimp only
      rw [Function.update_self]
      refine .finished (hnow.trans ?_)
      rw [settled, hnew]
    | some new =>
      dsimp only
      rw [Function.update_self]
      refine .staged ?_ hnew (Function.update_self _ _ _)
      rw [Function.update_of_ne ht.symm, hnow]
  | staged hnow hnew htemp =>
    dsimp only
    rw [Function.update_self]
    refine .finished ?_
    rw [Function.update_of_ne ht.symm, Function.update_self, htemp, settled, hnew]
  | finished hnow =>
    dsimp only
    rw [hstage]
    exact .finished hnow

/-- A turn of a job leaves it one turn less, and no job more. -/
theorem turns_turn (o : BatchOptions) (draw : String → Vector UInt8 6) (w : BatchWorld)
    (path : String) :
    ((w.turn o draw path).jobs path).turns ≤ (w.jobs path).turns - 1 := by
  rw [turn]
  dsimp only
  cases hstage : w.jobs path with
  | absent => simp [hstage, JobStage.turns]
  | finished report => simp [hstage, JobStage.turns]
  | queued => simp [JobStage.turns]
  | loaded text =>
    dsimp only
    cases (processFile o path text).1.newText? <;> simp [JobStage.turns]
  | staged report => simp [JobStage.turns]

/-- What holds of the files and of all jobs, where `files` are those at the start. -/
structure Sound (o : BatchOptions) (draw : String → Vector UInt8 6) (files : Store)
    (paths : List String) (w : BatchWorld) : Prop where
  absent : ∀ p, p ∉ paths → w.jobs p = .absent
  holds : ∀ p ∈ paths, (w.jobs p).Holds o draw files w.files p
  untouched : ∀ p, p ∉ paths → (∀ q ∈ paths, p ≠ temporaryPath q (draw q)) →
    w.files p = files p

/-- All jobs wait at the start. -/
theorem jobs_start {p : String} (hp : p ∈ paths) : (start files paths).jobs p = .queued :=
  if_pos hp

/-- At the start nothing has happened to the files. -/
theorem sound_start (o : BatchOptions) (draw : String → Vector UInt8 6) (files : Store)
    (paths : List String) : (start files paths).Sound o draw files paths where
  absent _ hp := if_neg hp
  holds p hp := by
    rw [jobs_start hp]
    exact .queued rfl
  untouched _ _ _ := rfl

section
variable (hfresh : FreshDraws draw paths)
include hfresh

/-- **A turn of one job leaves what is known of all of them true.** -/
theorem Sound.turn (h : w.Sound o draw files paths) (path : String) :
    (w.turn o draw path).Sound o draw files paths := by
  by_cases hpath : path ∈ paths
  · obtain ⟨hjobs, hfiles⟩ := turn_frame o draw w path
    refine ⟨fun p hp => ?_, fun p hp => ?_, fun p hp ht => ?_⟩
    · rw [hjobs p fun he => hp (he ▸ hpath), h.absent p hp]
    · by_cases he : p = path
      · subst he
        refine holds_turn (h.holds p hp) fun he => hfresh p hp ?_
        rw [he]
        exact hp
      · -- the two files of this job are neither of those of the other one
        rw [hjobs p he]
        refine (h.holds p hp).of_other (hfiles p he fun ht => ?_) (hfiles _ (fun ht => ?_)
          fun ht => he (temporaryPath_inj ht))
        · exact hfresh path hpath (ht ▸ hp)
        · exact hfresh p hp (ht ▸ hpath)
    · rw [hfiles p (fun he => hp (he ▸ hpath)) (ht path hpath), h.untouched p hp ht]
  · have hself : w.turn o draw path = w := by
      rw [BatchWorld.turn]
      dsimp only
      rw [h.absent path hpath]
    rw [hself]
    exact h

/-- Whatever the schedule, the world stays sound. -/
theorem Sound.run (h : w.Sound o draw files paths) (schedule : List String) :
    (schedule.foldl (BatchWorld.turn o draw) w).Sound o draw files paths := by
  induction schedule generalizing w with
  | nil => exact h
  | cons path schedule ih => exact ih (h.turn hfresh path)

end

/-- Each turn of a job in the schedule leaves it one turn less. -/
theorem turns_foldl (o : BatchOptions) (draw : String → Vector UInt8 6) (w : BatchWorld)
    (schedule : List String) (path : String) :
    ((schedule.foldl (turn o draw) w).jobs path).turns ≤
      (w.jobs path).turns - schedule.count path := by
  induction schedule generalizing w with
  | nil => simp
  | cons next schedule ih =>
    have hrest := ih (w.turn o draw next)
    rw [List.foldl_cons, List.count_cons]
    by_cases he : next = path
    · subst he
      have hturn := turns_turn o draw w next
      simp only [beq_self_eq_true, if_true]
      omega
    · rw [(turn_frame o draw w next).1 path fun h => he h.symm] at hrest
      simpa [he] using hrest

/-- A job that holds and has no turn left is done. -/
theorem report?_of_turns {now : Store} {stage : JobStage}
    (h : stage.Holds o draw files now path) (ht : stage.turns = 0) :
    stage.report? = some (processFile o path (files path)).1 := by
  cases h with
  | finished => rfl
  | _ => cases ht

/-- A job that has its report has left its file as the report on it says. -/
theorem files_of_report? {now : Store} {stage : JobStage}
    (h : stage.Holds o draw files now path) (hr : stage.report?.isSome = true) :
    stage.report? = some (processFile o path (files path)).1 ∧
      now path = settled o path (files path) := by
  cases h with
  | finished hnow => exact ⟨rfl, hnow⟩
  | _ => cases hr

/-- That reports and files tell the same story, whatever the schedule was. -/
structure Truthful (o : BatchOptions) (draw : String → Vector UInt8 6) (files : Store)
    (paths : List String) (w : BatchWorld) : Prop where
  /-- There is a report on each file. -/
  complete : ∀ p, p ∈ (w.reports paths).map (·.path) ↔ p ∈ paths
  /-- There is only one, and they are sorted. -/
  ordered : ((w.reports paths).map (·.path)).Pairwise fun a b => Text.unitsLt a b = true
  /-- A report depends on what its own file held. -/
  own : ∀ r ∈ w.reports paths, r = (processFile o r.path (files r.path)).1
  /-- What a file holds depends on what it held. -/
  content : ∀ p ∈ paths, w.files p = settled o p (files p)
  /-- A file has another text exactly if it was written. -/
  changed : ∀ r ∈ w.reports paths, w.files r.path ≠ files r.path ↔ r.written = true
  /-- A file that was written holds the text of its report. -/
  written : ∀ r ∈ w.reports paths, r.written = true →
    ∃ text, r.output = some text ∧ w.files r.path = .ok text
  /-- A file that could not be processed is left as it was. -/
  failed : ∀ r ∈ w.reports paths, r.error ≠ none → w.files r.path = files r.path
  /-- What is reported of a file that was checked is found in the file as it is now. -/
  checked : ∀ fix, o.mode = .check fix → ∀ r ∈ w.reports paths, r.error = none →
    ∃ text, w.files r.path = .ok text ∧
      r.diagnostics = (checkSource text o.config.check Rule.all).diagnostics ∧
      r.parseErrors = countDefects r.diagnostics
  /-- Files that are not in the batch are left alone, but for temporary ones. -/
  untouched : ∀ p, p ∉ paths → (∀ q ∈ paths, p ≠ temporaryPath q (draw q)) →
    w.files p = files p

/-- The reports of jobs that are done. -/
theorem Sound.reports_eq (h : w.Sound o draw files paths) (hd : w.IsDone paths) :
    w.reports paths =
      sortReports (paths.eraseDups.map fun p => (processFile o p (files p)).1) := by
  rw [reports]
  congr 1
  rw [← List.filterMap_eq_map]
  refine List.filterMap_congr fun p hp => ?_
  have hp : p ∈ paths := List.mem_eraseDups.1 hp
  exact (files_of_report? (h.holds p hp) (hd p hp)).1

/-- **Jobs that are done tell the truth.** -/
theorem Sound.truthful (h : w.Sound o draw files paths) (hd : w.IsDone paths) :
    w.Truthful o draw files paths := by
  have hreports := h.reports_eq hd
  have hpaths : (paths.eraseDups.map fun p => (processFile o p (files p)).1).map (·.path) =
      paths.eraseDups := by
    rw [List.map_map]
    exact (List.map_congr_left fun p _ => processFile_path o p (files p)).trans (List.map_id _)
  have hcontent : ∀ p ∈ paths, w.files p = settled o p (files p) := fun p hp =>
    (files_of_report? (h.holds p hp) (hd p hp)).2
  have hown : ∀ r ∈ w.reports paths, ∃ p ∈ paths, r = (processFile o p (files p)).1 := by
    intro r hr
    rw [hreports, (sortReports_perm _).mem_iff] at hr
    obtain ⟨p, hp, rfl⟩ := List.mem_map.1 hr
    exact ⟨p, List.mem_eraseDups.1 hp, rfl⟩
  refine ⟨fun p => ?_, ?_, fun r hr => ?_, hcontent, fun r hr => ?_, fun r hr hw => ?_,
    fun r hr he => ?_, fun fix hm r hr he => ?_, h.untouched⟩
  · rw [hreports, ((sortReports_perm _).map _).mem_iff, hpaths, List.mem_eraseDups]
  · rw [hreports]
    refine pairwise_sortReports ?_
    rw [hpaths]
    exact nodup_eraseDups paths
  all_goals
    obtain ⟨p, hp, rfl⟩ := hown r hr
    rw [processFile_path]
  · rw [hcontent p hp]
    exact settled_ne_iff
  · rw [hcontent p hp]
    exact settled_of_written hw
  · rw [hcontent p hp]
    exact settled_of_error he
  · rw [hcontent p hp]
    exact checked_settled hm he

end BatchWorld
end

section
variable (o : BatchOptions) (draw : String → Vector UInt8 6) (files : Store) {paths : List String}
  (hfresh : FreshDraws draw paths)
include hfresh

open BatchWorld

/-- **Batch runs are isolated, and reports tell the truth.**  Whatever the order in which the
jobs on some files take their turns, three turns of each are enough; when all are done, there
is one report on each file, the reports are sorted, and they and the files are what is said in
`BatchWorld.Truthful`.  They are those of the work on a disk, one file after the other.  How many
jobs are under way at once is left open, so this holds for any limit. -/
theorem jobs_isolated :
    (∀ schedule, (∀ p ∈ paths, 3 ≤ schedule.count p) →
      (run o draw files paths schedule).IsDone paths) ∧
    ∀ schedule, (run o draw files paths schedule).IsDone paths →
      (run o draw files paths schedule).Truthful o draw files paths ∧
      ∀ d : Disk, d.Distinguishes paths → (∀ p ∈ paths, d.read p = files p) →
        (processFiles d o paths).reports = (run o draw files paths schedule).reports paths ∧
        ∀ p ∈ paths, (processFiles d o paths).disk.read p =
          (run o draw files paths schedule).files p := by
  have hsound (schedule : List String) :
      (run o draw files paths schedule).Sound o draw files paths :=
    (sound_start o draw files paths).run hfresh schedule
  refine ⟨fun schedule hturns p hp => ?_, fun schedule hdone => ?_⟩
  · have hleft := turns_foldl o draw (start files paths) schedule p
    rw [jobs_start hp, JobStage.turns, Nat.sub_eq_zero_of_le (hturns p hp)] at hleft
    have hzero : ((run o draw files paths schedule).jobs p).turns = 0 := Nat.le_zero.1 hleft
    rw [report?_of_turns ((hsound schedule).holds p hp) hzero]
    rfl
  · have htruthful := (hsound schedule).truthful hdone
    refine ⟨htruthful, fun d hd hread => ?_⟩
    obtain ⟨hreports, hfiles⟩ := processFiles_spec (o := o) hd
    rw [hreports, (hsound schedule).reports_eq hdone]
    refine ⟨congrArg sortReports (List.map_congr_left fun p hp => ?_), fun p hp => ?_⟩
    · rw [hread p (List.mem_eraseDups.1 hp)]
    · rw [hfiles p hp, hread p hp, htruthful.content p hp]

end

set_option maxRecDepth 100000 in
/-- One file is mended while another, that does not exist, is looked for; the first is named
twice. -/
theorem jobs_isolated_mended :
    let o : BatchOptions := { mode := .check true, config := .default }
    let draw (_ : String) : Vector UInt8 6 := #v[0x1f, 0, 0xa2, 7, 0xff, 0x30]
    let source := "*** Settings ***  \nLibrary    X\n"
    let files : Store := fun p => if p = "b.robot" then .ok source else .error .missing
    let paths := ["b.robot", "a.robot", "b.robot"]
    let schedule := ["b.robot", "a.robot", "b.robot", "a.robot", "b.robot", "a.robot"]
    FreshDraws draw paths ∧
      (∀ p ∈ paths, 3 ≤ schedule.count p) ∧
      (BatchWorld.run o draw files paths schedule).Truthful o draw files paths ∧
      (BatchWorld.run o draw files paths schedule).files "b.robot" =
        .ok "*** Settings ***\nLibrary    X\n" := by
  intro o draw source files paths schedule
  have hfresh : FreshDraws draw paths := by
    rw [FreshDraws]
    decide +kernel
  have hturns : ∀ p ∈ paths, 3 ≤ schedule.count p := by decide +kernel
  obtain ⟨hdone, htrue⟩ := jobs_isolated o draw files hfresh
  have htruthful := (htrue schedule (hdone schedule hturns)).1
  refine ⟨hfresh, hturns, htruthful, (htruthful.content "b.robot" (by decide)).trans ?_⟩
  exact eq_ok_of_toOption (by decide +kernel)

end RobotSuite
