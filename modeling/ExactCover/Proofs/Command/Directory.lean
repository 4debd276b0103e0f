import ExactCover.Proofs.Command.Correct
import ExactCover.Proofs.Command.Path
import ExactCover.Proofs.Command.Walk
/-!
Runs on a directory. They are made up of the runs on the files below it that hold problems, one after
the other up to the first that fails.
-/

namespace ExactCover

open Text

theorem renderLines_append (figures : Option Figures) (lines others : List Line) :
    renderLines figures (lines ++ others) =
      renderLines figures lines ++ renderLines figures others := by
  rw [renderLines, List.filterMap_append, List.map_append, String.join_append]
  rfl

namespace Task

theorem ofFile?_eq (path : String) (contents : Contents) : ofFile? path contents =
    if isProblemFile path then
      some (ofPath path (if isTooLong path then .error .nameTooLong else .ok (.file contents)))
    else none := by
  rw [ofFile?, isProblemFile, ofPath]
  generalize extension? path = extension
  split
  case h_1 | h_2 | h_3 => rfl
  case h_4 hsudoku hmatrix htxt =>
    have hnone : ¬ extension ∈ [some "sudoku", some "matrix", some "txt"] := by
      simpa using ⟨hsudoku, hmatrix, htxt⟩
    rw [decide_eq_false hnone]
    rfl

theorem ofPath_ne_random (path : String) (found : Except SourceError Entry) (params : Planted) :
    ofPath path found ≠ .random params := by
  unfold ofPath ofSudokuPath ofMatrixPath
  split
  case isTrue => split <;> exact fun h => (nomatch h)
  case isFalse => split <;> exact fun h => (nomatch h)

end Task

theorem Job.tasks_of_file {found : Except SourceError Entry}
    (hfound : ∀ entries, found ≠ .ok (.directory entries)) (path : String) (walk : Walk) :
    (Job.path path).tasks found walk = [Task.ofPath path found] := by
  cases found with
  | error cause => rfl
  | ok entry =>
    cases entry with
    | file contents => rfl
    | directory entries => exact absurd rfl (hfound entries)

/-- What is listed for a file below a directory is the task of the file's own path, if it is a problem
file, and its run is the run of that task. -/
theorem Entry.LeadsTo.run_eq {here entry : Entry} {path : String} {names : List String}
    {file : String × Contents} (hleads : LeadsTo path entry names file) (hentry : entry.WellFormed)
    (hfind : here.find path = .ok entry) (options : Options) (g : Generator) (walk : Walk) :
    ∃ task, (∀ params, task ≠ .random params) ∧
      Task.ofFile? file.1 file.2 = (if isProblemFile file.1 then some task else none) ∧
      (Job.path file.1).run (here.find file.1) options g walk = task.run options g := by
  have hown := hleads.find hentry fun _ => hfind
  refine ⟨_, Task.ofPath_ne_random _ _, Task.ofFile?_eq file.1 file.2, ?_⟩
  have hfile : ∀ entries, here.find file.1 ≠ .ok (.directory entries) := by
    intro entries
    rw [hown]
    split <;> exact fun h => (nomatch h)
  rw [Job.run, Job.tasks_of_file hfile, List.map_singleton, Report.join_singleton, hown]

theorem Report.map_filterMap {α : Type} {items : List α} {isProblem : α → Bool}
    {task? : α → Option Task} {run : Task → Report} {report : α → Report}
    (h : ∀ item ∈ items, ∃ task,
      task? item = (if isProblem item then some task else none) ∧ report item = run task) :
    (items.filterMap task?).map run = (items.filter isProblem).map report := by
  induction items with
  | nil => rfl
  | cons item items ih =>
    obtain ⟨⟨task, htask, hrun⟩, hitems⟩ := List.forall_mem_cons.1 h
    cases hproblem : isProblem item with
    | false =>
      rw [hproblem] at htask
      rw [List.filterMap_cons_none htask, List.filter_cons_of_neg (by simp [hproblem]), ih hitems]
    | true =>
      rw [hproblem] at htask
      rw [List.filterMap_cons_some htask, List.filter_cons_of_pos hproblem, List.map_cons,
        List.map_cons, ih hitems, hrun]

/-- A run on a file ends well, or is not cut off before it has said what is wrong. -/
theorem Task.run_failure_cases {task : Task} (hfile : ∀ params, task ≠ .random params)
    (options : Options) : (task.run options).failure = none ∨
      ∃ failure, (task.run options).failure = some failure ∧ failure.isAbrupt = false := by
  have hsmall : ¬ task.Overflows := fun ⟨⟨params, hparams⟩, _⟩ => hfile params hparams
  rcases task.run_cases Random.generator_lawful with ⟨-, failure, hrefusal, hfail⟩ | ⟨hover, -⟩ |
    ⟨m, -, hcases⟩
  · exact .inr ⟨failure, by rw [hfail]; rfl, hrefusal.isAbrupt_eq⟩
  · exact absurd hover hsmall
  · exact .inl ((hcases options).resolve_right fun h => hsmall h.1).failure_eq

namespace Response

variable {figures : Option Figures}

theorem Joins.cons {α : Type} {run : α → Response} {items : List α} {response : Response} {item : α}
    (h : Joins run items response) (hitem : (run item).status = 0) :
    Joins run (item :: items) { response with output := (run item).output ++ response.output } := by
  cases h with
  | ended hitems =>
    have hjoined := ended (List.forall_mem_cons.2 ⟨hitem, hitems⟩)
    rwa [List.map_cons, String.join_cons] at hjoined
  | @failed before rest last message hbefore hlast herror =>
    have hjoined := @failed _ run _ rest _ _ (List.forall_mem_cons.2 ⟨hitem, hbefore⟩) hlast herror
    rwa [List.cons_append, List.cons_append, List.map_cons, String.join_cons] at hjoined

theorem joins_join {α : Type} (report : α → Report) {items : List α}
    (hsaid : ∀ item ∈ items, (report item).failure = none ∨
      ∃ failure, (report item).failure = some failure ∧ failure.isAbrupt = false) :
    Joins (fun item => ofReport figures (report item)) items
      (ofReport figures (.join (items.map report))) := by
  induction items with
  | nil => exact .ended fun _ h => absurd h List.not_mem_nil
  | cons item items ih =>
    obtain ⟨hitem, hitems⟩ := List.forall_mem_cons.1 hsaid
    rw [List.map_cons]
    rcases hitem with hnone | ⟨failure, hfailure, hplain⟩
    · have hcons : ofReport figures (.join (report item :: items.map report)) =
          { ofReport figures (.join (items.map report)) with
            output := (ofReport figures (report item)).output ++
              (ofReport figures (.join (items.map report))).output } := by
        rw [Report.join_cons_of_none hnone, ofReport, renderLines_append]
        rfl
      rw [hcons]
      exact (ih hitems).cons (status_ofReport_eq_zero_iff.2 hnone)
    · have hresponse : ofReport figures (report item) = _ := ofReport_of_failure hfailure hplain
      have hjoined := @Joins.failed _ (fun item => ofReport figures (report item)) [] items item _
        (fun _ h => absurd h List.not_mem_nil) (congrArg Response.status hresponse)
        (congrArg Response.error hresponse)
      rw [List.nil_append, List.nil_append, List.map_singleton, String.join_cons, String.join_nil,
        String.append_empty, hresponse] at hjoined
      rwa [Report.join_cons_of_failure hfailure, hresponse]

end Response

/-- A run on a directory prints what the runs on its problem files print, in the order in which they
are listed, up to the first that fails; it has the status and the error of that run. It fails only if
one of them does. -/
theorem Command.respondIn_directory {here : Entry} (hhere : here.WellFormed) {place : String}
    {entries : List (String × Entry)} (hplace : here.find place = .ok (.directory entries))
    (walk : Walk) (hwalk : Entry.Lists place (.directory entries) (walk place (.directory entries)))
    (options : Options) :
    let run := fun path => (Command.solve (.path path) options).respondIn here Random.generator walk
    ∃ files,
      (∀ file, file ∈ files ↔ (∃ names, Entry.LeadsTo place (.directory entries) names file) ∧
        isProblemFile file.1 = true) ∧
      files.Pairwise (Entry.Precedes place (.directory entries)) ∧
      Response.Joins (fun file => run file.1) files (run place) := by
  intro run
  have hentry : (Entry.directory entries).WellFormed := hhere.find hplace
  let report := fun file : String × Contents =>
    (Job.path file.1).run (here.find file.1) options Random.generator walk
  have hlisted : ∀ file ∈ walk place (.directory entries), ∃ task : Task,
      (∀ params, task ≠ .random params) ∧ Task.ofFile? file.1 file.2 =
        (if isProblemFile file.1 then some task else none) ∧
      report file = task.run options := by
    intro file hfile
    obtain ⟨names, hleads⟩ := (hwalk.mem_iff file).1 hfile
    exact hleads.run_eq hentry hplace options Random.generator walk
  have hplaceRun : run place = .ofReport none (.join
      (((walk place (.directory entries)).filter fun file => isProblemFile file.1).map report)) := by
    change Response.ofReport none ((Job.path place).run (here.find place) options _ walk) = _
    rw [hplace]
    refine congrArg (fun reports => Response.ofReport none (.join reports))
      (Report.map_filterMap fun file hfile => ?_)
    obtain ⟨task, -, htask, hreport⟩ := hlisted file hfile
    exact ⟨task, htask, hreport⟩
  have hsaid : ∀ file ∈ (walk place (.directory entries)).filter fun file => isProblemFile file.1,
      (report file).failure = none ∨
        ∃ failure, (report file).failure = some failure ∧ failure.isAbrupt = false := by
    intro file hfile
    obtain ⟨task, hrandom, -, hreport⟩ := hlisted file (List.mem_of_mem_filter hfile)
    rw [hreport]
    exact Task.run_failure_cases hrandom options
  refine ⟨_, fun file => ?_, hwalk.ascending.filter _, hplaceRun ▸ Response.joins_join report hsaid⟩
  rw [List.mem_filter, hwalk.mem_iff]

namespace Entry

/-- A directory with a matrix, a file that cannot be opened and one that holds no problem. -/
def sampleEntries : List (String × Entry) :=
  [("b", .directory [("c.matrix", .file (.ok [0x31]))]), ("d.txt", .file (.error .denied)),
    ("notes", .file (.ok []))]

def sample : Entry := .directory [("p", .directory sampleEntries)]

theorem find_sample : sample.find "p" = .ok (.directory sampleEntries) := by
  have hstart : sample.start "p" = sample :=
    if_neg (Bool.eq_false_iff.1 (String.startsWith_string_eq_false_iff.2 (by decide)))
  refine find_eq_ok_iff.2 ⟨by decide, by decide, ?_⟩
  rw [hstart]
  rfl

theorem wellFormed_sample : sample.WellFormed := by
  have hinner : (Entry.directory [("c.matrix", .file (.ok [0x31]))]).WellFormed :=
    .directory (by decide) (by simp only [List.forall_mem_singleton]; decide)
      (by simpa using WellFormed.file)
  have houter : (Entry.directory sampleEntries).WellFormed := by
    refine .directory (by decide) (by simp only [sampleEntries, List.forall_mem_cons]; decide) ?_
    simpa [sampleEntries] using ⟨hinner, .file, .file⟩
  exact .directory (by decide) (by simp only [List.forall_mem_singleton]; decide)
    (by simpa using houter)

theorem listable_sampleEntries : Listable "p" (.directory sampleEntries) := by
  have hinner : Listable (joinPath "p" "b") (.directory [("c.matrix", .file (.ok [0x31]))]) :=
    .directory (isTooLong_joinPath_eq_false (by decide)) (by simpa using Listable.file)
  refine .directory (by decide) ?_
  simpa [sampleEntries] using ⟨hinner, .file, .file⟩

end Entry

theorem Command.respondIn_directory_sample : Entry.sample.WellFormed ∧
    Entry.sample.find "p" = .ok (.directory Entry.sampleEntries) ∧
    Entry.Lists "p" (.directory Entry.sampleEntries)
      (Entry.files "p" (.directory Entry.sampleEntries)) ∧
    ∀ options, ∃ files,
      (∀ file, file ∈ files ↔
        (∃ names, Entry.LeadsTo "p" (.directory Entry.sampleEntries) names file) ∧
          isProblemFile file.1 = true) ∧
      files.Pairwise (Entry.Precedes "p" (.directory Entry.sampleEntries)) ∧
      Response.Joins (fun file => (Command.solve (.path file.1) options).respondIn Entry.sample) files
        ((Command.solve (.path "p") options).respondIn Entry.sample) :=
  have hlists := Entry.listable_sampleEntries.lists_files
    (Entry.wellFormed_sample.find Entry.find_sample)
  ⟨Entry.wellFormed_sample, Entry.find_sample, hlists, fun options =>
    Command.respondIn_directory Entry.wellFormed_sample Entry.find_sample Entry.files hlists options⟩

end ExactCover
