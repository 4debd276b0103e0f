import ExactCover.Command.Respond
import ExactCover.Matrix.Cover
/-!
What runs have to go by, said without running anything: the matrix that an input gives, or that the
input is refused; and how a run on several inputs is put together from the runs on each of them.
-/

namespace ExactCover

open Text

/-- A list holds the nodes of the links, and a word the number of entries. -/
structure Matrix.Fits (m : Matrix) : Prop where
  nodes_le : 1 + m.numColumns + m.numOnes ≤ nodeLimit
  entries_le : m.numRows * m.numColumns ≤ wordMax

/-- However the draws fall, the matrix fits: each column may get a row of its own, and every entry
of an extra row may be set. -/
structure Planted.Fits (p : Planted) : Prop where
  rows_le : p.columns + p.extraRows ≤ rowLimit
  nodes_le : 1 + p.columns + (p.columns + p.extraRows * p.columns) ≤ nodeLimit
  entries_le : (p.columns + p.extraRows) * p.columns ≤ wordMax

/-- Two to the power of 56. -/
def textLimit : Nat := 0x100000000000000

namespace Task

/-- How large an input may be for its matrix to fit. -/
inductive Fits : Task → Prop
  | matrix {path : String} {contents : Contents} :
    (∀ bytes, contents = .ok bytes → bytes.length ≤ textLimit) → Fits (.matrix path contents)
  | text {input : String} : input.utf8ByteSize ≤ textLimit → Fits (.text input)
  | sudoku {path : String} {contents? : Option Contents} :
    (∀ bytes, contents? = some (.ok bytes) → bytes.length ≤ textLimit) →
      Fits (.sudoku path contents?)
  | random {params : Planted} : params.Fits → Fits (.random params)

/-- The input can be read and passes its checks, and this is its matrix. -/
inductive Gives (g : Generator) : Task → Matrix → Prop
  | matrix {path : String} {contents : Contents} {m : Matrix} :
    Matrix.parseContents contents = .ok m → Gives g (.matrix path contents) m
  | text {input : String} {m : Matrix} :
    Matrix.parse (breakLines input.toList) = .ok m → Gives g (.text input) m
  | sudoku {path : String} {contents : Contents} {s : Sudoku} {c : Sudoku.Cover} :
    Sudoku.parseContents contents = .ok s → s.toExactCover = .ok c →
      Gives g (.sudoku path (some contents)) c.matrix
  | random {params : Planted} {planted : PlantedMatrix} :
    params.generate g = .ok planted → Gives g (.random params) planted.matrix

/-- The input cannot be read or does not pass its checks; of a random matrix, that it has no
columns. -/
inductive Refused : Task → Prop
  | matrix {path : String} {contents : Contents} {cause : Matrix.ParseError} :
    Matrix.parseContents contents = .error cause → Refused (.matrix path contents)
  | text {input : String} {cause : Matrix.ParseError} :
    Matrix.parse (breakLines input.toList) = .error cause → Refused (.text input)
  | missing {path : String} : Refused (.sudoku path none)
  | sudoku {path : String} {contents : Contents} {cause : SudokuError} :
    Sudoku.parseContents contents = .error cause → Refused (.sudoku path (some contents))
  | random {params : Planted} : params.columns = 0 → Refused (.random params)

end Task

/-- The response is put together from those of the runs on the items, one after the other. -/
inductive Response.Joins {α : Type} (run : α → Response) : List α → Response → Prop
  | ended {items : List α} : (∀ item ∈ items, (run item).status = 0) →
    Joins run items
      { status := 0
        output := String.join (items.map fun item => (run item).output)
        error := none }
  /-- The first run that fails is the last that is done, and says what is wrong. -/
  | failed {before rest : List α} {item : α} {message : String} :
    (∀ earlier ∈ before, (run earlier).status = 0) → (run item).status = 1 →
    (run item).error = some message →
    Joins run (before ++ item :: rest)
      { status := 1
        output := String.join ((before ++ [item]).map fun item => (run item).output)
        error := some message }

end ExactCover
