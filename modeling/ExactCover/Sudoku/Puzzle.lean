import ExactCover.Sudoku.Board
import ExactCover.Text.Numeral
import ExactCover.Text.Quoted
import ExactCover.Text.Source
/-!
A puzzle: a board of a sudoku's size whose cells are empty or hold a digit up to that size. As text
it is one line for each row, with blanks between the cells and `0` or `.` for an empty one; blank
lines and lines with `#` in front do not count.
-/

namespace ExactCover

open Text

structure Sudoku where
  board : Sudoku.Board
  size : Sudoku.Size
deriving DecidableEq, Repr

inductive SudokuError
  | unreadable (cause : SourceError)
  | invalidSize (size : Nat)
  | raggedRow (row expected found : Nat)
  | invalidValue (row col value : Nat)
  | invalidToken (line : Nat) (token : List Char)
deriving DecidableEq, Repr

def SudokuError.message : SudokuError → String
  | unreadable cause => s!"failed to read sudoku: {cause.message}"
  | invalidSize size => s!"unsupported board size {size}, expected 4, 9, 16 or 25"
  | raggedRow row expected found => s!"row {row} has {found} cells, expected {expected}"
  | invalidValue row col value =>
    s!"cell ({row}, {col}) holds {value}, which exceeds the board size"
  | invalidToken line token =>
    let quoted := quotedString token
    s!"line {line}: cannot parse {quoted} as a cell"

namespace Sudoku

def checkedSize (n : Nat) : Except SudokuError Size :=
  match Size.ofNat? n with
  | some size => .ok size
  | none => .error (.invalidSize n)

def rowError? (n row : Nat) (cells : List Nat) : Option SudokuError :=
  if cells.length = n then
    cells.zipIdx.findSome? fun (value, col) =>
      if n < value then some (.invalidValue row col value) else none
  else some (.raggedRow row n cells.length)

/-- A puzzle from its board: the size comes first, then row by row the shape and the values. -/
def ofBoard (board : Board) : Except SudokuError Sudoku := do
  let size ← checkedSize board.length
  match board.rows.zipIdx.findSome? fun (cells, row) => rowError? size.toNat row cells with
  | some error => throw error
  | none => return { board, size }

/-- A cell from its token: a dot, or a number that fits a word. -/
def cellOfToken? (token : List Char) : Option Nat := if token = ['.'] then some 0 else word? token

/-- The cells of a line, or its first token that is none. -/
def cellsOfTokens : List (List Char) → Except (List Char) (List Nat)
  | [] => .ok []
  | token :: rest =>
    match cellOfToken? token with
    | some cell => (cellsOfTokens rest).map (cell :: ·)
    | none => .error token

def isSkipped : List Char → Bool
  | [] => true
  | c :: _ => c == '#'

/-- The rows on the lines from number `line` on. -/
def readRows (line : Nat) : List (List Char) → Except SudokuError (List (List Nat))
  | [] => .ok []
  | text :: rest =>
    let trimmed := trim text
    if isSkipped trimmed then readRows (line + 1) rest
    else match cellsOfTokens (words trimmed) with
      | .error token => .error (.invalidToken line token)
      | .ok row => (readRows (line + 1) rest).map (row :: ·)

def parse (text : List Char) : Except SudokuError Sudoku := do
  let rows ← readRows 1 (textLines text)
  ofBoard ⟨rows⟩

/-- Reads a puzzle from bytes, all of which have to be UTF-8. -/
def parseBytes (bytes : List UInt8) : Except SudokuError Sudoku :=
  match decode bytes with
  | some text => parse text
  | none => .error (.unreadable .notUtf8)

def parseContents : Contents → Except SudokuError Sudoku
  | .ok bytes => parseBytes bytes
  | .error cause => .error (.unreadable cause)

def display (s : Sudoku) : String := s.board.display

end Sudoku

end ExactCover
