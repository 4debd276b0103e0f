import ExactCover.Proofs.Command.Fits
import ExactCover.Proofs.Search.Correct
import ExactCover.Proofs.Sudoku.Correct
/-!
What is reported of a search whose answer is right. The report has no failure, it has the verdict on
a line of its own, and no other line can be taken for a verdict. Only for a drawn matrix that is too
large is it cut off, and then before the verdict.
-/

namespace ExactCover

namespace Report

theorem print_append (lines others : List Line) :
    print lines ++ print others = print (lines ++ others) := rfl

theorem append_append (a b c : Report) : a ++ b ++ c = a ++ (b ++ c) := append_assoc a b c

end Report

/-- The line is neither a verdict nor the notice of a failed check. -/
structure Line.IsQuiet (line : Line) : Prop where
  ne_verdict : ∀ found, line ≠ Problem.verdict found
  ne_unverified : line ≠ .plain "Verified: false"

namespace Line

theorem isQuiet_of_head {text : String} {c : Char} (htext : text.toList.head? = some c)
    (hfeed : c ≠ '\n') (hv : c ≠ 'V') : (plain text).IsQuiet := by
  have hhead : ∀ other : String, plain text = plain other → other.toList.head? = some c := by
    rintro other heq
    rw [← Line.plain.inj heq, htext]
  constructor
  · intro found heq
    cases found <;> exact hfeed (Option.some.inj (hhead _ heq)).symm
  · intro heq
    exact hv (Option.some.inj (hhead _ heq)).symm

theorem isQuiet_of_ne {text : String} (hfound : text ≠ "\nEXACT COVER FOUND")
    (hnone : text ≠ "\nNO EXACT COVER") (hfailed : text ≠ "Verified: false") :
    (plain text).IsQuiet := by
  refine ⟨fun found heq => ?_, fun heq => hfailed (Line.plain.inj heq)⟩
  cases found with
  | true => exact hfound (Line.plain.inj heq)
  | false => exact hnone (Line.plain.inj heq)

theorem isQuiet_timed (label : String) (phase : Phase) : (timed label phase).IsQuiet :=
  ⟨fun _ heq => (nomatch heq), fun heq => (nomatch heq)⟩

theorem isQuiet_rated (label : String) (value : Nat) : (rated label value).IsQuiet :=
  ⟨fun _ heq => (nomatch heq), fun heq => (nomatch heq)⟩

theorem isQuiet_table (label value : String) : (plain (tableLine label value)).IsQuiet :=
  isQuiet_of_head (show _ = some '|' by simp [tableLine, toString]) (by decide) (by decide)

end Line

namespace Problem

variable {p : Problem} {o : Outcome}

/-- What a problem that has been read may be relied on for: a sudoku comes with its exact cover form,
and a planted matrix has an exact cover. -/
inductive Sound : Problem → Prop
  | matrixFile (m : Matrix) (path : String) : Sound { matrix := m, origin := .matrixFile path }
  | matrixText (m : Matrix) : Sound { matrix := m, origin := .matrixText }
  | sudoku {s : Sudoku} {c : Sudoku.Cover} (path : String) : s.Checked → s.Reduces c →
    Sound { matrix := c.matrix, origin := .sudoku path s c }
  | planted {m : Matrix} : m.HasExactCover → Sound { matrix := m, origin := .planted }

/-- The answer of a search is right for a matrix. -/
structure Answered (m : Matrix) (o : Outcome) : Prop where
  isSome_iff : o.solution.isSome = true ↔ m.HasExactCover
  isExactCover : ∀ s, o.solution = some s → m.IsExactCover s.rows

theorem exists_answered (m : Matrix) (driver : Driver) (selector : Selector) :
    ∃ o, (Links.ofMatrix m).solve driver selector = .ok o ∧ Answered m o := by
  refine ⟨_, (Links.covered_ofMatrix m).solve_eq driver selector, ?_, ?_⟩
  · rw [← m.isSome_solve_iff selector]
    simp [Links.outcome]
  · intro s hs
    obtain ⟨rows, hrows, rfl⟩ := Option.map_eq_some_iff.1 hs
    exact (Matrix.isExactCover_of_solve hrows).1

def Quiet (r : Report) : Prop := ∃ lines, r = .print lines ∧ ∀ line ∈ lines, line.IsQuiet

theorem quiet_empty : Quiet .empty := ⟨[], rfl, fun _ h => absurd h List.not_mem_nil⟩

theorem quiet_print {line : Line} (h : line.IsQuiet) : Quiet (.print [line]) :=
  ⟨[line], rfl, fun _ hmem => List.mem_singleton.1 hmem ▸ h⟩

theorem Quiet.append {a b : Report} (ha : Quiet a) (hb : Quiet b) : Quiet (a ++ b) := by
  obtain ⟨lines, rfl, hlines⟩ := ha
  obtain ⟨others, rfl, hothers⟩ := hb
  exact ⟨lines ++ others, rfl, List.forall_mem_append.2 ⟨hlines, hothers⟩⟩

/-- Lines are printed, none of them a verdict, until there is too much of something. -/
def CutOff (r : Report) : Prop :=
  ∃ lines cause, r = { lines, failure := some (.tooLarge cause) } ∧ ∀ line ∈ lines, line.IsQuiet

theorem cutOff_fail (cause : Overflow) : CutOff (.fail (.tooLarge cause)) :=
  ⟨[], cause, rfl, fun _ h => absurd h List.not_mem_nil⟩

theorem CutOff.append {a : Report} (ha : CutOff a) (b : Report) : CutOff (a ++ b) := by
  obtain ⟨lines, cause, rfl, hlines⟩ := ha
  exact ⟨lines, cause, rfl, hlines⟩

theorem Quiet.append_cutOff {a b : Report} (ha : Quiet a) (hb : CutOff b) : CutOff (a ++ b) := by
  obtain ⟨lines, rfl, hlines⟩ := ha
  obtain ⟨others, cause, rfl, hothers⟩ := hb
  exact ⟨lines ++ others, cause, rfl, List.forall_mem_append.2 ⟨hlines, hothers⟩⟩

theorem quiet_opening (p : Problem) : Quiet p.opening := by
  unfold opening
  split
  case h_1 =>
    exact quiet_print (Line.isQuiet_of_head (show _ = some 'S' by simp [toString]) (by decide)
      (by decide))
  case h_2 =>
    exact (quiet_print (Line.isQuiet_of_head (show _ = some 'P' by simp [toString]) (by decide)
      (by decide))).append (quiet_print (Line.isQuiet_of_head
        (show _ = some 'S' by simp [toString]) (by decide) (by decide)))
  case h_3 | h_4 => exact quiet_empty

theorem quiet_table (m : Matrix) (stats : Stats) : Quiet (.print (table m stats)) := by
  refine ⟨_, rfl, ?_⟩
  simp only [table, List.forall_mem_cons]
  refine ⟨Line.isQuiet_of_ne (by simp) (by simp) (by simp), Line.isQuiet_timed _ _,
    Line.isQuiet_table _ _, Line.isQuiet_table _ _, Line.isQuiet_table _ _, Line.isQuiet_table _ _,
    Line.isQuiet_of_head (c := '=') (by simp) (by decide) (by decide), Line.isQuiet_timed _ _,
    Line.isQuiet_rated _ _, Line.isQuiet_rated _ _, Line.isQuiet_rated _ _, Line.isQuiet_rated _ _,
    Line.isQuiet_table _ _, Line.isQuiet_table _ _, Line.isQuiet_timed _ _,
    Line.isQuiet_of_head (c := '=') (by simp) (by decide) (by decide), ?_⟩
  exact fun _ h => absurd h List.not_mem_nil

theorem quiet_verification {m : Matrix} {s : Solution} (h : m.IsExactCover s.rows) :
    Quiet (verification m s) := by
  have hverify : s.verify m = true := Solution.verify_iff.2 h
  have hquiet : (Line.plain "Verified: true").IsQuiet :=
    Line.isQuiet_of_ne (by simp) (by simp) (by simp)
  unfold verification
  rw [hverify]
  exact (quiet_print hquiet).append quiet_empty

theorem quiet_checked (h : Answered p.matrix o) (options : Options) :
    Quiet (p.checked options o.solution) := by
  cases hsolution : o.solution with
  | none => exact quiet_empty
  | some s =>
    rw [checked]
    split
    case isTrue => exact quiet_verification (h.isExactCover s hsolution)
    case isFalse => exact quiet_empty

def Overflows (p : Problem) : Prop := p.isDrawn = true ∧ ¬ p.matrix.Fits

theorem statistics_cases (p : Problem) (options : Options) (stats : Stats) :
    (p.Overflows ∧ CutOff (p.statistics options stats)) ∨ Quiet (p.statistics options stats) := by
  unfold statistics
  cases hstats : options.stats with
  | false => exact .inr quiet_empty
  | true =>
    simp only [Bool.not_true, Bool.false_eq_true, if_false]
    split
    case isTrue hlarge =>
      rw [Bool.and_eq_true, decide_eq_true_eq] at hlarge
      exact .inl ⟨⟨hlarge.1, fun hfits => Nat.not_lt.2 hfits.entries_le hlarge.2⟩, cutOff_fail _⟩
    case isFalse => exact .inr (quiet_table _ _)

theorem search_cases (p : Problem) (options : Options) :
    (p.Overflows ∧ ∃ cause, search options p.build = .error (.tooLarge cause)) ∨
    ∃ o, search options p.build = .ok o ∧ Answered p.matrix o := by
  have hlinked : p.build = .ok (Links.ofMatrix p.matrix) → ∃ o, search options p.build = .ok o ∧
      Answered p.matrix o := by
    intro hbuild
    obtain ⟨o, ho, hanswered⟩ := exists_answered p.matrix options.driver options.selector
    refine ⟨o, ?_, hanswered⟩
    rw [hbuild, search, ho]
    rfl
  cases hdrawn : p.isDrawn with
  | false => exact .inr (hlinked (by simp [build, hdrawn]))
  | true =>
    have hbuild : p.build = Links.build p.matrix := by simp [build, hdrawn]
    by_cases hnodes : 1 + p.matrix.numColumns + p.matrix.numOnes ≤ nodeLimit
    · exact .inr (hlinked (hbuild.trans (Links.build_eq_ok hnodes)))
    · have herror := hbuild.trans (Links.build_eq_error (Nat.lt_of_not_le hnodes))
      exact .inl ⟨⟨hdrawn, fun hfits => hnodes hfits.nodes_le⟩, _, by rw [herror, search]⟩

theorem quiet_rows (options : Options) (solution : Option Solution) :
    Quiet (rows options solution) := by
  cases solution with
  | none => exact quiet_empty
  | some s =>
    rw [rows]
    split
    case isTrue =>
      exact quiet_print (Line.isQuiet_of_head (show _ = some 'S' by simp [selection, toString])
        (by decide) (by decide))
    case isFalse => exact quiet_empty

/-- The verdict ends what is printed of a search, and nothing before it can be taken for one. -/
theorem findings_eq (h : Answered p.matrix o) {options : Options}
    (hstatistics : Quiet (p.statistics options o.stats)) : ∃ before, Quiet before ∧
    p.findings options o = before ++ .print [verdict o.solution.isSome] := by
  refine ⟨_, (quiet_checked h options).append
    (hstatistics.append (quiet_rows options o.solution)), ?_⟩
  rw [findings, Report.append_append, Report.append_append]

/-- What is printed last is printed without a failure: a sudoku's grid is full, and a planted cover
is not missed. -/
theorem quiet_closing (hsound : p.Sound) (h : Answered p.matrix o) (options : Options) :
    Quiet (p.closing options o) := by
  cases hsound with
  | matrixFile | matrixText => exact quiet_empty
  | sudoku path hs hreduces =>
    cases hsolution : o.solution with
    | none =>
      rw [closing, hsolution]
      exact quiet_print (Line.isQuiet_of_head (c := 'N') (by simp) (by decide) (by decide))
    | some s =>
      have hvalid : (Sudoku.Cover.decode _ s).isCompleteAndValid = true :=
        (hreduces.isCompletion_decode hs (h.isExactCover s hsolution)).isCompleteAndValid
      rw [closing, hsolution]
      simp only [grid, hvalid, Bool.not_true, Bool.and_false]
      exact quiet_print (Line.isQuiet_of_head (show _ = some 'S' by simp [toString]) (by decide)
        (by decide))
  | planted hcover =>
    obtain ⟨s, hsolution⟩ := Option.isSome_iff_exists.1 (h.isSome_iff.2 hcover)
    rw [closing, hsolution]
    exact quiet_empty

/-- The report of a search that is right: it has no failure, and one verdict. -/
theorem report_eq (hsound : p.Sound) (h : Answered p.matrix o) {options : Options}
    (hstatistics : Quiet (p.statistics options o.stats)) :
    ∃ before after,
    (∀ line ∈ before, line.IsQuiet) ∧ (∀ line ∈ after, line.IsQuiet) ∧
    p.report options (.ok o) = .print (before ++ verdict o.solution.isSome :: after) := by
  obtain ⟨first, hfirst, hopening⟩ := p.quiet_opening
  obtain ⟨_, ⟨second, rfl, hsecond⟩, hfindings⟩ := findings_eq h hstatistics
  obtain ⟨after, hafter, hclosing⟩ := quiet_closing hsound h options
  refine ⟨first ++ second, after, List.forall_mem_append.2 ⟨hopening, hsecond⟩, hclosing, ?_⟩
  simp only [report, hfirst, hfindings, hafter, Report.print_append, List.append_assoc,
    List.singleton_append]

/-- The report of a run whose answer is right for a matrix. -/
structure Right (m : Matrix) (r : Report) : Prop where
  failure_eq : r.failure = none
  found_iff : .plain "\nEXACT COVER FOUND" ∈ r.lines ↔ m.HasExactCover
  none_iff : .plain "\nNO EXACT COVER" ∈ r.lines ↔ ¬ m.HasExactCover
  not_mem : .plain "Verified: false" ∉ r.lines

theorem right_report (hsound : p.Sound) (h : Answered p.matrix o) {options : Options}
    (hstatistics : Quiet (p.statistics options o.stats)) :
    Right p.matrix (p.report options (.ok o)) := by
  obtain ⟨before, after, hbefore, hafter, hreport⟩ := report_eq hsound h hstatistics
  have hmem : ∀ found, verdict found ∈ before ++ verdict o.solution.isSome :: after ↔
      verdict found = verdict o.solution.isSome := by
    intro found
    rw [List.mem_append, List.mem_cons]
    constructor
    · rintro (hline | heq | hline)
      · exact absurd rfl ((hbefore _ hline).ne_verdict found)
      · exact heq
      · exact absurd rfl ((hafter _ hline).ne_verdict found)
    · exact fun heq => .inr (.inl heq)
  rw [hreport]
  refine ⟨rfl, ?_, ?_, ?_⟩
  · refine (hmem true).trans ?_
    rw [← h.isSome_iff]
    cases o.solution.isSome <;> simp [verdict]
  · refine (hmem false).trans ?_
    rw [← h.isSome_iff]
    cases o.solution.isSome <;> simp [verdict]
  · intro hline
    rcases List.mem_append.1 hline with hline | hline
    · exact (hbefore _ hline).ne_unverified rfl
    · rcases List.mem_cons.1 hline with heq | hline
      · cases hfound : o.solution.isSome <;> simp [verdict, hfound] at heq
      · exact (hafter _ hline).ne_unverified rfl

/-- The report of a problem is right, unless the problem overflows. -/
theorem report_cases (hsound : p.Sound) (options : Options) :
    (p.Overflows ∧ CutOff (p.report options (search options p.build))) ∨
    Right p.matrix (p.report options (search options p.build)) := by
  rcases p.search_cases options with ⟨hover, cause, hsearch⟩ | ⟨o, hsearch, h⟩
  · rw [hsearch, report]
    exact .inl ⟨hover, p.quiet_opening.append_cutOff (cutOff_fail cause)⟩
  · rw [hsearch]
    rcases p.statistics_cases options o.stats with ⟨hover, hcut⟩ | hstatistics
    · have hfindings : CutOff (p.findings options o) :=
        (quiet_checked h options).append_cutOff (hcut.append _)
      exact .inl ⟨hover, p.quiet_opening.append_cutOff (hfindings.append _)⟩
    · exact .inr (right_report hsound h hstatistics)

end Problem

end ExactCover
