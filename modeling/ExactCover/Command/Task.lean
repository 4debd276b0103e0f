import ExactCover.Command.Entry
import ExactCover.Command.Options
import ExactCover.Command.Report
/-!
A task is one problem to be read, solved and reported; a job is a list of them. The stages are
separate functions, so that each of them can be timed.
-/

namespace ExactCover

open Text

inductive Task
  | matrix (path : String) (contents : Contents)
  | text (input : String)
  /-- A sudoku file; there may be no file at its path. -/
  | sudoku (path : String) (contents? : Option Contents)
  | random (params : Planted)

inductive Origin
  | matrixFile (path : String)
  | matrixText
  | sudoku (path : String) (puzzle : Sudoku) (cover : Sudoku.Cover)
  | planted

structure Problem where
  matrix : Matrix
  origin : Origin

namespace Task

/-- The two characters backslash and `n` as a line feed. -/
def breakLines : List Char → List Char
  | '\\' :: 'n' :: rest => '\n' :: breakLines rest
  | c :: rest => c :: breakLines rest
  | [] => []

def load (task : Task) (g : Generator := Random.generator) : Except Failure Problem :=
  match task with
  | matrix path contents =>
    match Matrix.parseContents contents with
    | .ok m => .ok { matrix := m, origin := .matrixFile path }
    | .error cause => .error (.matrixFile path cause)
  | text input =>
    match Matrix.parse (breakLines input.toList) with
    | .ok m => .ok { matrix := m, origin := .matrixText }
    | .error cause => .error (.matrixText cause)
  | sudoku path none => .error (.notAFile path)
  | sudoku path (some contents) =>
    match Sudoku.parseContents contents with
    | .error cause => .error (.sudokuFile path cause)
    | .ok puzzle =>
      match puzzle.toExactCover with
      | .error cause => .error (.reduction cause)
      | .ok cover => .ok { matrix := cover.matrix, origin := .sudoku path puzzle cover }
  | random params =>
    match params.generate g with
    | .ok planted => .ok { matrix := planted.matrix, origin := .planted }
    | .error (.shape cause) => .error (.generation cause)
    | .error (.tooLarge cause) => .error (.tooLarge cause)

end Task

namespace Problem

/-- Whether the size of the matrix hangs on numbers alone. One that was read has no more entries
than its text has bytes, and a text that large cannot be held in the first place. -/
def isDrawn (p : Problem) : Bool :=
  match p.origin with
  | .planted => true
  | .matrixFile _ | .matrixText | .sudoku _ _ _ => false

def build (p : Problem) : Except Overflow Links :=
  if p.isDrawn then Links.build p.matrix else .ok (Links.ofMatrix p.matrix)

def search (options : Options) (built : Except Overflow Links) : Except Failure Outcome :=
  match built with
  | .ok links => (links.solve options.driver options.selector).mapError .search
  | .error cause => .error (.tooLarge cause)

def opening (p : Problem) : Report :=
  match p.origin with
  | .matrixFile path => .print [.plain s!"Solving: {path}"]
  | .sudoku path puzzle _ =>
    .print [.plain s!"Parsed Sudoku:\n{puzzle.display}", .plain s!"Solving: {path}"]
  | .matrixText | .planted => .empty

def density (m : Matrix) : Float :=
  Float.ofNat m.numOnes / Float.ofNat (m.numRows * m.numColumns)

def table (m : Matrix) (stats : Stats) : List Line :=
  [.plain "\n=======================[ Problem Statistics ]=========================",
   .timed "Parse time (s)" .parse,
   .plain (tableLine "Rows" (toString m.numRows)),
   .plain (tableLine "Columns" (toString m.numColumns)),
   .plain (tableLine "Ones" (toString m.numOnes)),
   .plain (tableLine "Density" (fixed 4 (density m))),
   .plain "========================[ Search Statistics ]========================",
   .timed "Build time (s)" .build,
   .rated "Nodes" stats.nodes,
   .rated "Rows tried" stats.rowsTried,
   .rated "Backtracks" stats.backtracks,
   .rated "Link updates" stats.updates,
   .plain (tableLine "Dead ends" (toString stats.deadEnds)),
   .plain (tableLine "Max depth" (toString stats.maxDepth)),
   .timed "CPU time (s)" .search,
   .plain "====================================================================="]

def verification (m : Matrix) (s : Solution) : Report :=
  let ok := s.verify m
  Report.print [.plain s!"Verified: {ok}"] ++ if ok then .empty else .fail (.unverified s)

def selection (options : Options) (s : Solution) : String :=
  let rows := if options.sorted then Solution.listing s.sorted else s.display
  s!"Solution: {rows}"

def verdict (found : Bool) : Line :=
  .plain (if found then "\nEXACT COVER FOUND" else "\nNO EXACT COVER")

/-- The check of a solution, if it is asked for. -/
def checked (p : Problem) (options : Options) : Option Solution → Report
  | some s => if options.verify then verification p.matrix s else .empty
  | none => .empty

/-- The table, if it is asked for. The entries are counted for it, in a word. -/
def statistics (p : Problem) (options : Options) (stats : Stats) : Report :=
  let entries := p.matrix.numRows * p.matrix.numColumns
  if !options.stats then .empty
  else if p.isDrawn && wordMax < entries then .fail (.tooLarge (.entries entries))
  else .print (table p.matrix stats)

def rows (options : Options) : Option Solution → Report
  | some s => if options.printSolution then .print [.plain (selection options s)] else .empty
  | none => .empty

def findings (p : Problem) (options : Options) (o : Outcome) : Report :=
  p.checked options o.solution ++ (p.statistics options o.stats ++
    (rows options o.solution ++ Report.print [verdict o.solution.isSome]))

def grid (options : Options) (board : Sudoku.Board) : Report :=
  if options.verify && !board.isCompleteAndValid then .fail (.invalidGrid board)
  else .print [.plain s!"Solution:\n{board.display}"]

def closing (p : Problem) (options : Options) (o : Outcome) : Report :=
  match p.origin, o.solution with
  | .sudoku _ _ cover, some s => grid options (cover.decode s)
  | .sudoku _ _ _, none => .print [.plain "No solution found"]
  | .planted, none => .fail .noPlantedCover
  | .planted, some _ | .matrixFile _, _ | .matrixText, _ => .empty

def report (p : Problem) (options : Options) (searched : Except Failure Outcome) : Report :=
  p.opening ++ match searched with
    | .ok o => p.findings options o ++ p.closing options o
    | .error failure => .fail failure

end Problem

namespace Task

def run (options : Options) (task : Task) (g : Generator := Random.generator) : Report :=
  match task.load g with
  | .error failure => .fail failure
  | .ok problem => problem.report options (Problem.search options problem.build)

def ofMatrixPath (path : String) (found : Except SourceError Entry) : Task :=
  match found with
  | .ok (.file contents) => .matrix path contents
  | .ok (.directory _) => .matrix path (.error .isDirectory)
  | .error cause => .matrix path (.error cause)

def ofSudokuPath (path : String) (found : Except SourceError Entry) : Task :=
  match found with
  | .ok (.file contents) => .sudoku path (some contents)
  | _ => .sudoku path none

/-- The task of a path that is no directory's; by its extension it is a sudoku or a matrix. -/
def ofPath (path : String) (found : Except SourceError Entry) : Task :=
  if extension? path = some "sudoku" then .ofSudokuPath path found else .ofMatrixPath path found

/-- The task of a file in a directory; by its extension it is a matrix, a sudoku or neither. -/
def ofFile? (path : String) (contents : Contents) : Option Task :=
  let found := if isTooLong path then .error .nameTooLong else .ok (.file contents)
  match extension? path with
  | some "sudoku" => some (.ofSudokuPath path found)
  | some "matrix" | some "txt" => some (.ofMatrixPath path found)
  | _ => none

end Task

/-- The tasks of a job, given what its path leads to. A directory stands for the files below it. -/
def Job.tasks (found : Except SourceError Entry) (job : Job) (walk : Walk := Entry.files) :
    List Task :=
  match job with
  | file place => [.ofMatrixPath place found]
  | text input => [.text input]
  | sudoku place => [.ofSudokuPath place found]
  | random params => [.random params]
  | path place =>
    match found with
    | .ok (.directory entries) =>
      (walk place (.directory entries)).filterMap fun (name, contents) => Task.ofFile? name contents
    | _ => [.ofPath place found]

def Job.run (found : Except SourceError Entry) (options : Options) (job : Job)
    (g : Generator := Random.generator) (walk : Walk := Entry.files) : Report :=
  .join ((job.tasks found walk).map fun task => task.run options g)

end ExactCover
