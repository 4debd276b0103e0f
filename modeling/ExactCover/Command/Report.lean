import ExactCover.Links.Basic
import ExactCover.Matrix.Text
import ExactCover.Planted
import ExactCover.Solution
import ExactCover.Sudoku.Reduction
import ExactCover.Text.Fixed
/-!
What a run prints and why it fails. Measured figures are kept apart from the lines that they belong
to: without them, timed lines are left out and a rate is only named.
-/

namespace ExactCover

open Text

inductive Phase
  | parse
  | build
  | search
deriving DecidableEq, Repr

/-- How long the parts took, in nanoseconds. -/
structure Figures where
  parse : Nat
  build : Nat
  search : Nat
deriving DecidableEq, Repr

namespace Figures

def nanoseconds (f : Figures) : Phase → Nat
  | .parse => f.parse
  | .build => f.build
  | .search => f.search

def seconds (f : Figures) (phase : Phase) : Float := Float.ofNat (f.nanoseconds phase) / 1e9

def rate (f : Figures) (value : Nat) : Float :=
  let elapsed := f.seconds .search
  if 0 < elapsed then Float.ofNat value / elapsed else 0

end Figures

inductive Line
  | plain (text : String)
  /-- How long a part took. -/
  | timed (label : String) (phase : Phase)
  /-- A count of the search, with its rate. -/
  | rated (label : String) (value : Nat)
deriving DecidableEq, Repr

def tableLine (label value : String) : String :=
  let left := padRight 28 label
  let right := padLeft 18 value
  s!"|  {left} {right}  |"

def rateLine (label value rate : String) : String :=
  let left := padRight 20 label
  let right := padLeft 12 value
  s!"|  {left} {right} ({rate}/sec)  |"

namespace Line

def text? (figures : Option Figures) : Line → Option String
  | plain text => some text
  | timed label phase => figures.map fun f => tableLine label (fixed 3 (f.seconds phase))
  | rated label value =>
    let rate := match figures with
      | some f => padLeft 9 (fixed 0 (f.rate value))
      | none => "rate"
    some (rateLine label (toString value) rate)

end Line

def renderLines (figures : Option Figures) (lines : List Line) : String :=
  String.join ((lines.filterMap (Line.text? figures)).map (· ++ "\n"))

inductive Failure
  | matrixText (cause : Matrix.ParseError)
  | matrixFile (path : String) (cause : Matrix.ParseError)
  | sudokuFile (path : String) (cause : SudokuError)
  | notAFile (path : String)
  | reduction (cause : Sudoku.ReductionError)
  | generation (cause : MatrixError)
  | tooLarge (cause : Overflow)
  | search (cause : Fault)
  | unverified (solution : Solution)
  | invalidGrid (board : Sudoku.Board)
  | noPlantedCover
deriving DecidableEq

def Failure.message : Failure → String
  | matrixText cause => cause.message
  | matrixFile path cause => s!"Failed to parse {path}: {cause.message}"
  | sudokuFile path cause => s!"Error parsing Sudoku file {path}: {cause.message}"
  | notAFile path => s!"Provided path is not a file: {path}"
  | reduction cause => cause.message
  | generation cause => cause.message
  | tooLarge cause => cause.message
  | search cause => cause.message
  | unverified solution => s!"Solution {solution.display} failed verification"
  | invalidGrid board => s!"Decoded grid is not a valid Sudoku:\n{board.display}"
  | noPlantedCover => "No exact cover found for an instance with a planted cover"

/-- Whether a failure cuts the run off, so that nothing is said about it. -/
def Failure.isAbrupt : Failure → Bool
  | tooLarge _ | search _ => true
  | _ => false

def Failure.status (failure : Failure) : Nat := if failure.isAbrupt then 101 else 1

/-- What was printed, and the failure that ended it, if there was one. -/
structure Report where
  lines : List Line
  failure : Option Failure
deriving DecidableEq

namespace Report

def empty : Report := { lines := [], failure := none }

def print (lines : List Line) : Report := { lines, failure := none }

def fail (failure : Failure) : Report := { lines := [], failure := some failure }

/-- One report after the other; nothing follows a failure. -/
def append (first second : Report) : Report :=
  match first.failure with
  | some _ => first
  | none => { lines := first.lines ++ second.lines, failure := second.failure }

instance : Append Report := ⟨append⟩

def join (reports : List Report) : Report := reports.foldr append empty

theorem empty_append (r : Report) : append empty r = r := rfl

theorem append_assoc (a b c : Report) : append (append a b) c = append a (append b c) := by
  cases ha : a.failure <;> cases hb : b.failure <;> simp [append, ha, hb]

end Report

end ExactCover
