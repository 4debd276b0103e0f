import ExactCover.Proofs.Command.Planted
/-!
Runs on one problem. An input is either refused or gives a matrix, whatever the options; from there on
nothing fails, and the verdict is that of the matrix. The one exception are random matrices that are
too large.
-/

namespace ExactCover

open Text

/-- The input is to blame, and not the search or what it found. -/
def Failure.IsRefusal : Failure → Prop
  | .matrixText _ | .matrixFile _ _ | .sudokuFile _ _ | .notAFile _ | .generation _ => True
  | .reduction _ | .tooLarge _ | .search _ => False
  | .unverified _ | .invalidGrid _ | .noPlantedCover => False

theorem Failure.IsRefusal.isAbrupt_eq {failure : Failure} (h : failure.IsRefusal) :
    failure.isAbrupt = false := by
  cases failure with
  | tooLarge | search => cases h
  | _ => rfl

namespace Problem.CutOff

variable {r : Report} (h : CutOff r)
include h

theorem failure_eq : ∃ cause, r.failure = some (.tooLarge cause) := by
  obtain ⟨lines, cause, rfl, -⟩ := h
  exact ⟨cause, rfl⟩

theorem isQuiet {line : Line} (hline : line ∈ r.lines) : line.IsQuiet := by
  obtain ⟨lines, cause, rfl, hlines⟩ := h
  exact hlines line hline

end Problem.CutOff

namespace Task

variable {g : Generator} {task : Task} {options : Options} {m : Matrix}

theorem Gives.unique {m' : Matrix} (h : task.Gives g m) (h' : task.Gives g m') : m = m' := by
  cases h with
  | matrix hparse =>
    cases h' with
    | matrix hparse' => exact Except.ok.inj (hparse.symm.trans hparse')
  | text hparse =>
    cases h' with
    | text hparse' => exact Except.ok.inj (hparse.symm.trans hparse')
  | sudoku hparse hcover =>
    cases h' with
    | sudoku hparse' hcover' =>
      cases hparse.symm.trans hparse'
      cases hcover.symm.trans hcover'
      rfl
  | random hgenerate =>
    cases h' with
    | random hgenerate' =>
      cases hgenerate.symm.trans hgenerate'
      rfl

def Overflows (task : Task) : Prop := (∃ params, task = .random params) ∧ ¬ task.Fits

theorem overflows_of_rowLimit_lt {params : Planted}
    (h : rowLimit < params.columns + params.extraRows) : (Task.random params).Overflows := by
  refine ⟨⟨params, rfl⟩, fun hfits => ?_⟩
  cases hfits with
  | random hparams => exact Nat.not_le.2 h hparams.rows_le

/-- An input is refused, or gives a matrix and all that is needed for its report. -/
inductive Loads (g : Generator) (task : Task) : Except Failure Problem → Prop
  | refused {failure : Failure} : task.Refused → failure.IsRefusal → Loads g task (.error failure)
  | tooLarge {cause : Overflow} : task.Overflows → Loads g task (.error (.tooLarge cause))
  | gives {problem : Problem} : task.Gives g problem.matrix → problem.Sound →
    (problem.isDrawn = true → ∃ params, task = .random params) → Loads g task (.ok problem)

theorem loads (hg : g.Lawful) (task : Task) : task.Loads g (task.load g) := by
  cases task with
  | matrix path contents =>
    cases hparse : Matrix.parseContents contents with
    | error cause =>
      simp only [load, hparse]
      exact .refused (.matrix hparse) trivial
    | ok m =>
      simp only [load, hparse]
      exact .gives (.matrix hparse) (.matrixFile m path) fun h => absurd h Bool.false_ne_true
  | text input =>
    cases hparse : Matrix.parse (breakLines input.toList) with
    | error cause =>
      simp only [load, hparse]
      exact .refused (.text hparse) trivial
    | ok m =>
      simp only [load, hparse]
      exact .gives (.text hparse) (.matrixText m) fun h => absurd h Bool.false_ne_true
  | sudoku path contents? =>
    cases contents? with
    | none => exact .refused .missing trivial
    | some contents =>
      cases hparse : Sudoku.parseContents contents with
      | error cause =>
        simp only [load, hparse]
        exact .refused (.sudoku hparse) trivial
      | ok s =>
        have hs := Sudoku.checked_of_parseContents hparse
        obtain ⟨c, hc, hreduces⟩ := hs.toExactCover_eq
        simp only [load, hparse, hc]
        exact .gives (.sudoku hparse hc) (.sudoku path hs hreduces) fun h => absurd h Bool.false_ne_true
  | random params =>
    by_cases hzero : params.columns = 0
    · have hgenerate : params.generate g = .error (.shape .noColumns) := if_pos hzero
      simp only [load, hgenerate]
      exact .refused (.random hzero) trivial
    · rcases Planted.generate_cases hg (Nat.pos_of_ne_zero hzero) with
        ⟨hlarge, cause, hcause⟩ | ⟨planted, hplanted, -⟩
      · simp only [load, hcause]
        exact .tooLarge (overflows_of_rowLimit_lt hlarge)
      · have hcover := Planted.isExactCover_of_generate hg hplanted
        simp only [load, hplanted]
        exact .gives (.random hplanted) (.planted ⟨_, hcover⟩) fun _ => ⟨params, rfl⟩

/-- A refused input is reported and nothing else, and a random matrix may be too large to be drawn,
whatever the options; any other input gives a right report, unless the search or the table comes to
something too large. -/
theorem run_cases (hg : g.Lawful) (task : Task) :
    (task.Refused ∧ ∃ failure : Failure, failure.IsRefusal ∧
      ∀ options, task.run options g = .fail failure) ∨
    (task.Overflows ∧ ∀ options, Problem.CutOff (task.run options g)) ∨
    ∃ m, task.Gives g m ∧ ∀ options, Problem.Right m (task.run options g) ∨
      (task.Overflows ∧ Problem.CutOff (task.run options g)) := by
  have hloads := task.loads hg
  generalize hload : task.load g = loaded at hloads
  cases hloads with
  | @refused failure hrefused hfailure =>
    exact .inl ⟨hrefused, failure, hfailure, fun options => by simp only [run, hload]⟩
  | @tooLarge cause hover =>
    refine .inr (.inl ⟨hover, fun options => ?_⟩)
    simp only [run, hload]
    exact Problem.cutOff_fail cause
  | @gives problem hgives hsound hdrawn =>
    refine .inr (.inr ⟨problem.matrix, hgives, fun options => ?_⟩)
    simp only [run, hload]
    rcases Problem.report_cases hsound options with ⟨hover, hcut⟩ | hright
    · exact .inr ⟨⟨hdrawn hover.1, fun hfits => hover.2 (hgives.fits hg hfits)⟩, hcut⟩
    · exact .inl hright

/-- A run fails because its input is refused or too large, and never on what the search has
found. -/
theorem failure_of_run (hg : g.Lawful) {failure : Failure}
    (h : (task.run options g).failure = some failure) :
    (task.Refused ∧ failure.IsRefusal) ∨ ∃ cause, failure = .tooLarge cause := by
  have hcut : Problem.CutOff (task.run options g) → ∃ cause, failure = .tooLarge cause := by
    intro hcut
    obtain ⟨cause, hcause⟩ := hcut.failure_eq
    exact ⟨cause, Option.some.inj (h.symm.trans hcause)⟩
  rcases task.run_cases hg with ⟨hrefused, other, hother, hfail⟩ | ⟨-, hall⟩ | ⟨m, -, hcases⟩
  · rw [hfail] at h
    exact .inl ⟨hrefused, Option.some.inj h ▸ hother⟩
  · exact .inr (hcut (hall options))
  · rcases hcases options with hright | ⟨-, hcutOff⟩
    · rw [hright.failure_eq] at h
      cases h
    · exact .inr (hcut hcutOff)

theorem unverified_not_mem_run (hg : g.Lawful) (task : Task) (options : Options) :
    .plain "Verified: false" ∉ (task.run options g).lines := by
  rcases task.run_cases hg with ⟨-, failure, -, hfail⟩ | ⟨-, hall⟩ | ⟨m, -, hcases⟩
  · exact hfail options ▸ List.not_mem_nil
  · exact fun hline => ((hall options).isQuiet hline).ne_unverified rfl
  · rcases hcases options with hright | ⟨-, hcut⟩
    · exact hright.not_mem
    · exact fun hline => (hcut.isQuiet hline).ne_unverified rfl

/-- A verdict that is printed is right. -/
theorem Gives.verdict_right (hgives : task.Gives g m) (hg : g.Lawful) (options : Options) :
    (.plain "\nEXACT COVER FOUND" ∈ (task.run options g).lines → m.HasExactCover) ∧
    (.plain "\nNO EXACT COVER" ∈ (task.run options g).lines → ¬ m.HasExactCover) := by
  have hquiet : (∀ line ∈ (task.run options g).lines, line.IsQuiet) →
      (.plain "\nEXACT COVER FOUND" ∈ (task.run options g).lines → m.HasExactCover) ∧
      (.plain "\nNO EXACT COVER" ∈ (task.run options g).lines → ¬ m.HasExactCover) :=
    fun h => ⟨fun hline => absurd rfl ((h _ hline).ne_verdict true),
      fun hline => absurd rfl ((h _ hline).ne_verdict false)⟩
  rcases task.run_cases hg with ⟨-, failure, -, hfail⟩ | ⟨-, hall⟩ | ⟨m', hgives', hcases⟩
  · exact hquiet fun line hline => absurd (hfail options ▸ hline) List.not_mem_nil
  · exact hquiet fun line => (hall options).isQuiet
  · obtain rfl := hgives.unique hgives'
    rcases hcases options with hright | ⟨-, hcut⟩
    · exact ⟨hright.found_iff.1, hright.none_iff.1⟩
    · exact hquiet fun line => hcut.isQuiet

/-- Where the input is small enough, nothing is cut off. -/
theorem run_cases_of_fits (hg : g.Lawful) (hfits : task.Fits) :
    (task.Refused ∧ ∃ failure : Failure, failure.IsRefusal ∧
      ∀ options, task.run options g = .fail failure) ∨
    ∃ m, task.Gives g m ∧ ∀ options, Problem.Right m (task.run options g) := by
  rcases task.run_cases hg with hrefused | ⟨hover, -⟩ | ⟨m, hgives, hcases⟩
  · exact .inl hrefused
  · exact absurd hfits hover.2
  · exact .inr ⟨m, hgives, fun options => (hcases options).resolve_right fun h => h.1.2 hfits⟩

end Task

namespace Report

variable {r : Report} {reports : List Report}

theorem join_cons_of_none (h : r.failure = none) : join (r :: reports) =
    { lines := r.lines ++ (join reports).lines, failure := (join reports).failure } := by
  simp [join, append, h]

theorem join_cons_of_failure {failure : Failure} (h : r.failure = some failure)
    (reports : List Report) : join (r :: reports) = r := by
  simp [join, append, h]

theorem join_singleton (r : Report) : join [r] = r := by
  cases h : r.failure with
  | none =>
    rw [join_cons_of_none h, join, List.foldr_nil, empty, List.append_nil, ← h]
  | some failure => exact join_cons_of_failure h []

end Report

theorem Failure.status_ne_zero (failure : Failure) : failure.status ≠ 0 := by
  unfold status
  split <;> decide

namespace Response

variable {figures : Option Figures} {r : Report}

theorem status_ofReport_eq_zero_iff : (ofReport figures r).status = 0 ↔ r.failure = none := by
  cases hfailure : r.failure with
  | none => simp [ofReport, hfailure]
  | some failure => simpa [ofReport, hfailure] using failure.status_ne_zero

theorem ofReport_of_failure {failure : Failure} (h : r.failure = some failure)
    (hsaid : failure.isAbrupt = false) : ofReport figures r =
      { status := 1
        output := renderLines figures r.lines
        error := some s!"Error: {failure.message}\n" } := by
  simp [ofReport, h, errorText?, Failure.status, hsaid]

end Response

theorem Job.tasks_eq_singleton (found : Except SourceError Entry) (job : Job)
    (hjob : ∀ place, job ≠ .path place) : ∃ task, job.tasks found = [task] := by
  cases job with
  | path place => exact absurd rfl (hjob place)
  | file | text | sudoku | random => exact ⟨_, rfl⟩

/-- A run on a text, a file, a sudoku or a random matrix does not report a wrong answer. It fails
only on an input that is refused or too large, and never on a check of what the search has found; a
verdict that is printed is right. If the input is small enough, a run fails only if it is refused,
any other run ends well, and its verdict says whether the matrix of the input has an exact cover. So
the options change neither the status nor the verdict. -/
theorem Job.run_never_wrong (g : Generator) (hg : g.Lawful) (found : Except SourceError Entry)
    (job : Job) (hjob : ∀ place, job ≠ .path place) : ∃ task, job.tasks found = [task] ∧
    (∀ options failure, (job.run found options g).failure = some failure →
      (task.Refused ∨ ∃ cause, failure = .tooLarge cause) ∧ (∀ s, failure ≠ .unverified s) ∧
        (∀ board, failure ≠ .invalidGrid board) ∧ failure ≠ .noPlantedCover) ∧
    (∀ options, .plain "Verified: false" ∉ (job.run found options g).lines) ∧
    (∀ m, task.Gives g m → ∀ options,
      (.plain "\nEXACT COVER FOUND" ∈ (job.run found options g).lines → m.HasExactCover) ∧
      (.plain "\nNO EXACT COVER" ∈ (job.run found options g).lines → ¬ m.HasExactCover)) ∧
    (task.Fits →
      ((task.Refused ∧ ∀ options, (job.run found options g).lines = [] ∧
          ((Command.solve job options).respond found g).status = 1) ∨
        ∃ m, task.Gives g m ∧ ∀ options,
          ((Command.solve job options).respond found g).status = 0 ∧
          (.plain "\nEXACT COVER FOUND" ∈ (job.run found options g).lines ↔ m.HasExactCover) ∧
          (.plain "\nNO EXACT COVER" ∈ (job.run found options g).lines ↔ ¬ m.HasExactCover)) ∧
      ∀ options others,
        ((Command.solve job options).respond found g).status =
          ((Command.solve job others).respond found g).status ∧
        ∀ answer, Problem.verdict answer ∈ (job.run found options g).lines ↔
          Problem.verdict answer ∈ (job.run found others g).lines) := by
  obtain ⟨task, htasks⟩ := job.tasks_eq_singleton found hjob
  have hrun : ∀ options, job.run found options g = task.run options g := by
    intro options
    rw [Job.run, htasks, List.map_singleton, Report.join_singleton]
  have hstatus : ∀ options, ((Command.solve job options).respond found g).status =
      (Response.ofReport none (task.run options g)).status :=
    fun options => congrArg (fun r => (Response.ofReport none r).status) (hrun options)
  simp only [hrun, hstatus]
  refine ⟨task, htasks, fun options failure hfailure => ?_,
    fun options => task.unverified_not_mem_run hg options,
    fun m hgives options => hgives.verdict_right hg options, fun hfits => ?_⟩
  · rcases Task.failure_of_run hg hfailure with ⟨hrefused, hrefusal⟩ | ⟨cause, rfl⟩
    · exact ⟨.inl hrefused, fun _ h => (h ▸ hrefusal :), fun _ h => (h ▸ hrefusal :),
        fun h => (h ▸ hrefusal :)⟩
    · exact ⟨.inr ⟨cause, rfl⟩, fun _ h => (nomatch h), fun _ h => (nomatch h),
        fun h => (nomatch h)⟩
  rcases Task.run_cases_of_fits hg hfits with
    ⟨hrefused, failure, hrefusal, hfail⟩ | ⟨m, hgives, hright⟩
  · have hone : ∀ options, (Response.ofReport none (task.run options g)).status = 1 := by
      intro options
      rw [hfail, Response.ofReport_of_failure rfl hrefusal.isAbrupt_eq]
    refine ⟨.inl ⟨hrefused, fun options => ⟨by rw [hfail]; rfl, hone options⟩⟩,
      fun options others => ⟨(hone options).trans (hone others).symm, fun answer => ?_⟩⟩
    rw [hfail, hfail]
  · have hzero : ∀ options, (Response.ofReport none (task.run options g)).status = 0 :=
      fun options => Response.status_ofReport_eq_zero_iff.2 (hright options).failure_eq
    refine ⟨.inr ⟨m, hgives,
      fun options => ⟨hzero options, (hright options).found_iff, (hright options).none_iff⟩⟩, ?_⟩
    refine fun options others => ⟨(hzero options).trans (hzero others).symm, ?_⟩
    rintro (_ | _)
    · exact (hright options).none_iff.trans (hright others).none_iff.symm
    · exact (hright options).found_iff.trans (hright others).found_iff.symm

theorem Job.run_never_wrong_text :
    Random.generator.Lawful ∧ (∀ place, Job.text "10\\n01" ≠ .path place) ∧ ∀ options,
      ((Command.solve (.text "10\\n01") options).respond (.error .missing)).status = 0 ∧
      .plain "\nEXACT COVER FOUND" ∈ ((Job.text "10\\n01").run (.error .missing) options).lines := by
  refine ⟨Random.generator_lawful, fun _ h => (nomatch h), fun options => ?_⟩
  obtain ⟨task, htasks, -, -, -, hfits⟩ := Job.run_never_wrong Random.generator
    Random.generator_lawful (.error .missing) (.text "10\\n01") fun _ h => (nomatch h)
  have htask : Task.text "10\\n01" = task := List.head_eq_of_cons_eq htasks
  subst htask
  rcases (hfits (.text (by decide))).1 with ⟨hrefused, -⟩ | ⟨m, hgives, hrun⟩
  · cases hrefused with
    | text hparse => cases hparse
  · cases hgives with
    | text hparse =>
      cases hparse
      exact ⟨(hrun options).1, (hrun options).2.1.2 ⟨[0, 1], by decide, by decide, by decide⟩⟩

/-- Beyond the limit on columns a run fails, though there are columns. -/
theorem Job.run_wide_fails : Planted.wide.columns ≠ 0 ∧
    ((Command.solve (.random Planted.wide) { stats := false, verify := false }).respond
      (.error .missing)).status = 101 := by
  have hgenerate := Planted.generate_of_columnLimit_lt
    (show columnLimit < Planted.wide.columns by decide +kernel) Random.generator
  refine ⟨by decide, ?_⟩
  rw [Command.respond, Job.run, Job.tasks, List.map_singleton, Report.join_singleton, Task.run,
    Task.load, hgenerate]
  rfl

end ExactCover
