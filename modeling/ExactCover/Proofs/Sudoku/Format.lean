import Mathlib.Data.List.Forall2
import ExactCover.Proofs.Sudoku.Puzzle
import ExactCover.Proofs.Text.Numeral
import ExactCover.Proofs.Text.Words
/-!
The format of a puzzle text, apart from the way it is read. The first token that is no cell decides,
wherever it stands; without one the tokens are the numbers of a board, which is judged as such.
-/

namespace ExactCover

theorem exists_forall₂ {α β : Type} {r : α → β → Prop} {l : List α} (h : ∀ a ∈ l, ∃ b, r a b) :
    ∃ bs, List.Forall₂ r l bs := by
  induction l with
  | nil => exact ⟨[], .nil⟩
  | cons a l ih =>
    obtain ⟨⟨b, hb⟩, hl⟩ := List.forall_mem_cons.1 h
    obtain ⟨bs, hbs⟩ := ih hl
    exact ⟨b :: bs, .cons hb hbs⟩

namespace Sudoku

open Text

/-- The text of a cell and its number: a dot for an empty cell, or a number that fits a word. -/
inductive Denotes : List Char → Nat → Prop
  | dot : Denotes ['.'] 0
  | number {token digits : List Char} : IsNumeral token digits →
      Nat.ofDigitChars 10 digits 0 ≤ wordMax → Denotes token (Nat.ofDigitChars 10 digits 0)

def IsCell (token : List Char) : Prop := ∃ value, Denotes token value

/-- Blank, or a comment: its first character that is not blank is `#`. -/
def isNote (line : List Char) : Bool :=
  match line.find? fun c => !isBlank c with
  | none => true
  | some c => c == '#'

def IsFaulty (line : List Char) : Prop := isNote line = false ∧ ∃ token ∈ words line, ¬ IsCell token

def DenotesRow (line : List Char) (row : List Nat) : Prop := List.Forall₂ Denotes (words line) row

/-- What becomes of a text: the error of its first token that is no cell, by the number of its line,
or what becomes of the board whose rows stand on the lines that count. -/
inductive TextGives (text : List Char) : Except SudokuError Sudoku → Prop
  | invalidToken {index place : Nat} {line token : List Char} :
      IsFirst IsFaulty (textLines text) index line →
      IsFirst (¬ IsCell ·) (words line) place token →
      TextGives text (.error (.invalidToken (index + 1) token))
  | board {rows : List (List Nat)} {result : Except SudokuError Sudoku} :
      List.Forall₂ DenotesRow ((textLines text).filter (!isNote ·)) rows →
      BoardGives ⟨rows⟩ result → TextGives text result

section Text

variable {number : Nat} {token line : List Char} {tokens lines : List (List Char)} {value : Nat}
  {cells : List Nat} {rows : List (List Nat)}

theorem cellOfToken?_eq_some_iff : cellOfToken? token = some value ↔ Denotes token value := by
  constructor
  · intro h
    rw [cellOfToken?] at h
    split at h
    case isTrue hdot =>
      cases h
      rw [hdot]
      exact .dot
    case isFalse =>
      obtain ⟨digits, hnumeral, rfl, hle⟩ := word?_eq_some_iff.1 h
      exact .number hnumeral hle
  · intro h
    cases h with
    | dot => rfl
    | number hnumeral hle =>
      -- A dot is neither a digit nor a plus sign.
      have hdot : token ≠ ['.'] := by
        rintro rfl
        obtain ⟨heq | heq, -, hdigits⟩ := hnumeral
        · exact absurd (hdigits '.' (heq ▸ List.mem_cons_self)) (by decide)
        · cases heq
      rw [cellOfToken?, if_neg hdot]
      exact word?_eq_some_iff.2 ⟨_, hnumeral, rfl, hle⟩

theorem cellOfToken?_eq_none_iff : cellOfToken? token = none ↔ ¬ IsCell token := by
  rw [← Option.not_isSome_iff_eq_none, Option.isSome_iff_exists]
  simp only [cellOfToken?_eq_some_iff, IsCell]

theorem cellsOfTokens_eq_ok (h : List.Forall₂ Denotes tokens cells) :
    cellsOfTokens tokens = .ok cells := by
  induction h with
  | nil => rfl
  | cons hvalue _ ih =>
    rw [cellsOfTokens, cellOfToken?_eq_some_iff.2 hvalue, ih]
    rfl

theorem cellsOfTokens_eq_error {place : Nat} (h : IsFirst (¬ IsCell ·) tokens place token) :
    cellsOfTokens tokens = .error token := by
  induction tokens generalizing place with
  | nil => cases h.mem
  | cons first tokens ih =>
    cases place with
    | zero =>
      obtain ⟨rfl, htoken⟩ := isFirst_cons_zero.1 h
      rw [cellsOfTokens, cellOfToken?_eq_none_iff.2 htoken]
    | succ place =>
      obtain ⟨hfirst, hrest⟩ := isFirst_cons_succ.1 h
      obtain ⟨value, hvalue⟩ := not_not.1 hfirst
      rw [cellsOfTokens, cellOfToken?_eq_some_iff.2 hvalue, ih hrest]
      rfl

theorem isSkipped_trim (line : List Char) : isSkipped (trim line) = isNote line := by
  rw [isNote, ← head?_trim]
  cases trim line <;> rfl

theorem readRows_eq_ok (h : List.Forall₂ DenotesRow (lines.filter (!isNote ·)) rows) :
    readRows number lines = .ok rows := by
  induction lines generalizing number rows with
  | nil =>
    cases h
    rfl
  | cons line lines ih =>
    rw [readRows, isSkipped_trim, words_trim]
    cases hnote : isNote line with
    | true =>
      rw [List.filter_cons_of_neg (by simp [hnote])] at h
      exact ih h
    | false =>
      rw [List.filter_cons_of_pos (by simp [hnote])] at h
      cases h with
      | cons hrow hrest =>
        simp only [cellsOfTokens_eq_ok hrow, ih hrest]
        rfl

theorem exists_denotesRow (hline : ¬ IsFaulty line) (hnote : isNote line = false) :
    ∃ row, DenotesRow line row := by
  refine exists_forall₂ fun token htoken => ?_
  by_contra hnot
  exact hline ⟨hnote, token, htoken, hnot⟩

/-- Reading stops at the first faulty line, with its first token that is no cell. -/
theorem readRows_eq_error {index place : Nat} (hline : IsFirst IsFaulty lines index line)
    (htoken : IsFirst (¬ IsCell ·) (words line) place token) :
    readRows number lines = .error (.invalidToken (number + index) token) := by
  induction lines generalizing number index with
  | nil => cases hline.mem
  | cons first lines ih =>
    rw [readRows, isSkipped_trim, words_trim]
    cases index with
    | zero =>
      obtain ⟨rfl, hnote, -⟩ := isFirst_cons_zero.1 hline
      simp only [hnote, cellsOfTokens_eq_error htoken]
      rfl
    | succ index =>
      obtain ⟨hfirst, hrest⟩ := isFirst_cons_succ.1 hline
      have hread := @ih (number + 1) index hrest
      rw [Nat.add_right_comm] at hread
      cases hnote : isNote first with
      | true => exact hread
      | false =>
        obtain ⟨row, hrow⟩ := exists_denotesRow hfirst hnote
        simp only [cellsOfTokens_eq_ok hrow, hread]
        rfl

theorem parse_eq_iff {text : List Char} {result : Except SudokuError Sudoku} :
    parse text = result ↔ TextGives text result := by
  constructor
  · rintro rfl
    by_cases hfaulty : ∃ line ∈ textLines text, IsFaulty line
    · obtain ⟨index, line, hline⟩ := exists_isFirst hfaulty
      obtain ⟨place, token, htoken⟩ := exists_isFirst hline.holds.2
      rw [parse, readRows_eq_error hline htoken, error_bind, Nat.add_comm]
      exact .invalidToken hline htoken
    · have hrows : ∀ line ∈ (textLines text).filter (!isNote ·), ∃ row, DenotesRow line row := by
        intro line hline
        obtain ⟨hmem, hnote⟩ := List.mem_filter.1 hline
        exact exists_denotesRow (fun h => hfaulty ⟨line, hmem, h⟩) (by simpa using hnote)
      obtain ⟨rows, hrows⟩ := exists_forall₂ hrows
      rw [parse, readRows_eq_ok hrows, ok_bind]
      exact .board hrows (ofBoard_eq_iff.1 rfl)
  · intro h
    cases h with
    | invalidToken hline htoken =>
      rw [parse, readRows_eq_error hline htoken, error_bind, Nat.add_comm]
    | board hrows hboard => rw [parse, readRows_eq_ok hrows, ok_bind, ofBoard_eq_iff.2 hboard]

/-- A text is a puzzle exactly if it has its format. It is cut into lines, and a line into words; the
first word that is no cell, on a line that counts, is the error, by the number of its line and whatever
the shape of the board; without one the rows on the lines are judged as a board. -/
theorem parse_reads_format :
    (∀ text lines, textLines text = lines ↔ HasLines '\n' '\r' text lines) ∧
    (∀ line tokens, words line = tokens ↔ HasWords line tokens) ∧
    ∀ text result, parse text = result ↔ TextGives text result :=
  ⟨fun _ _ => lines_eq_iff, fun _ _ => words_eq_iff, fun _ _ => parse_eq_iff⟩

-- The token is looked at before the shape, and a comment's line is counted.
example : parse ['7', '\n', '#', 'x', '\n', ' ', 'x'] = .error (.invalidToken 3 ['x']) := by
  decide +kernel

end Text

end Sudoku

end ExactCover
