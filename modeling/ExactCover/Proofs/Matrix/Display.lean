import ExactCover.Command.Task
import ExactCover.Proofs.Matrix.Construct
import ExactCover.Proofs.Matrix.Format
/-!
A matrix that is written and read again is the same one, also where its line feeds have been typed as
two characters. No row that is written can be taken for a blank line, a comment or the end mark.
-/

namespace ExactCover

open Text

namespace Matrix

def rowText (bits : List Bool) : List Char := bits.map fun bit => if bit then '1' else '0'

theorem not_mem_rowText {bits : List Bool} {c : Char} (hzero : c ≠ '0') (hone : c ≠ '1') :
    c ∉ rowText bits := by
  intro h
  obtain ⟨bit, -, rfl⟩ := List.mem_map.1 h
  cases bit
  · exact hzero rfl
  · exact hone rfl

theorem entries_rowText (bits : List Bool) : entries (rowText bits) = .ok bits := by
  induction bits with
  | nil => rfl
  | cons bit bits ih =>
    have hrest : entries (bits.map fun bit => if bit then '1' else '0') = .ok bits := ih
    cases bit <;> rw [rowText, List.map_cons, entries, hrest] <;> rfl

theorem textLines_toText (m : Matrix) : textLines m.toText = m.dense.map rowText :=
  lines_flatMap_of_forall (fun _ _ => not_mem_rowText (by decide) (by decide))
    fun _ _ => not_mem_rowText (by decide) (by decide)

theorem readRows_rowText {rows : List (List Bool)} (hrows : ∀ bits ∈ rows, bits ≠ [])
    (number : Nat) : readRows number (rows.map fun bits => some (rowText bits)) = .ok rows := by
  induction rows generalizing number with
  | nil => rfl
  | cons bits rows ih =>
    obtain ⟨hbits, hrows⟩ := List.forall_mem_cons.1 hrows
    have hnote : isNote (rowText bits) = false := by
      obtain ⟨bit, rest, rfl⟩ := List.exists_cons_of_ne_nil hbits
      cases bit <;> rfl
    have hend : isEnd (trim (rowText bits)) = false := by
      refine beq_eq_false_iff_ne.2 fun heq => ?_
      have hfirst := head?_trim (rowText bits)
      rw [heq] at hfirst
      exact not_mem_rowText (by decide) (by decide) (List.mem_of_find?_eq_some hfirst.symm)
    have hempty : bits.isEmpty = false := List.isEmpty_eq_false_iff.2 hbits
    rw [List.map_cons, readRows, isSkipped_trim, entries_trim, entries_rowText, ih hrows, hnote, hend]
    simp [Except.map, hempty]

theorem parse_toText (m : Matrix) : parse m.toText = .ok m := by
  have hrows : ∀ bits ∈ m.dense, bits ≠ [] := by
    intro bits hbits
    obtain ⟨ones, -, rfl⟩ := List.mem_map.1 hbits
    refine List.ne_nil_of_length_pos ?_
    rw [length_denseFrom]
    exact m.numColumns_pos
  rw [parse, ofLines, textLines_toText, List.map_map]
  rw [show some ∘ rowText = fun bits => some (rowText bits) from rfl, readRows_rowText hrows]
  simp only [ofDense_dense]
  rfl

/-- A text with each line feed typed as a backslash and the letter `n`. -/
def typed (text : List Char) : List Char :=
  text.flatMap fun c => if c = '\n' then ['\\', 'n'] else [c]

theorem breakLines_cons {c : Char} (hc : c ≠ '\\') (rest : List Char) :
    Task.breakLines (c :: rest) = c :: Task.breakLines rest := by
  rw [Task.breakLines]
  rintro after rfl
  exact absurd rfl hc

/-- Without a backslash of its own, a typed text is broken where it was. -/
theorem breakLines_typed {text : List Char} (h : '\\' ∉ text) :
    Task.breakLines (typed text) = text := by
  induction text with
  | nil => rfl
  | cons c rest ih =>
    obtain ⟨hne, hrest⟩ := not_or.1 (mt List.mem_cons.2 h)
    rw [typed, List.flatMap_cons, ← typed]
    by_cases hc : c = '\n'
    · rw [if_pos hc, hc]
      exact congrArg ('\n' :: ·) (ih hrest)
    · rw [if_neg hc, List.singleton_append, breakLines_cons (Ne.symm hne), ih hrest]

theorem backslash_not_mem_toText (m : Matrix) : '\\' ∉ m.toText := by
  intro h
  obtain ⟨bits, -, hmem⟩ := List.mem_flatMap.1 h
  rcases List.mem_append.1 hmem with hmem | hmem
  · exact not_mem_rowText (by decide) (by decide) hmem
  · cases List.mem_singleton.1 hmem

/-- What is displayed of a matrix is read as that matrix, from a file and from the command line, where
each line feed may be typed as a backslash and the letter `n`. -/
theorem parse_display (m : Matrix) : parse m.display.toList = .ok m ∧
    parse (Task.breakLines (typed m.display.toList)) = .ok m ∧
    ∀ g, (Task.text (String.ofList (typed m.display.toList))).load g =
      .ok { matrix := m, origin := .matrixText } := by
  have htyped : parse (Task.breakLines (typed m.toText)) = .ok m := by
    rw [breakLines_typed (backslash_not_mem_toText m), parse_toText]
  rw [display, String.toList_ofList]
  refine ⟨parse_toText m, htyped, fun g => ?_⟩
  rw [Task.load, String.toList_ofList, htyped]

end Matrix

end ExactCover
