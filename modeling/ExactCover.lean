import ExactCover.Ascending
import ExactCover.Capacity
import ExactCover.Command.Arguments
import ExactCover.Command.Entry
import ExactCover.Command.Help
import ExactCover.Command.Options
import ExactCover.Command.Report
import ExactCover.Command.Respond
import ExactCover.Command.Task
import ExactCover.Command.Tree
import ExactCover.Command.Verdict
import ExactCover.Links.Basic
import ExactCover.Links.Build
import ExactCover.Links.Check
import ExactCover.Links.Cover
import ExactCover.Main
import ExactCover.Matrix.Basic
import ExactCover.Matrix.Construct
import ExactCover.Matrix.Cover
import ExactCover.Matrix.Packing
import ExactCover.Matrix.Samples
import ExactCover.Matrix.Text
import ExactCover.Planted
import ExactCover.Proofs.Attempt
import ExactCover.Proofs.Command.Correct
import ExactCover.Proofs.Command.Directory
import ExactCover.Proofs.Command.Fits
import ExactCover.Proofs.Command.Path
import ExactCover.Proofs.Command.Planted
import ExactCover.Proofs.Command.Report
import ExactCover.Proofs.Command.Walk
import ExactCover.Proofs.First
import ExactCover.Proofs.Links.Access
import ExactCover.Proofs.Links.Build
import ExactCover.Proofs.Links.Cell
import ExactCover.Proofs.Links.Check
import ExactCover.Proofs.Links.Columns
import ExactCover.Proofs.Links.Consistent
import ExactCover.Proofs.Links.Covered
import ExactCover.Proofs.Links.Headers
import ExactCover.Proofs.Links.Layout
import ExactCover.Proofs.Links.Live
import ExactCover.Proofs.Links.Misuse
import ExactCover.Proofs.Links.OneWay
import ExactCover.Proofs.Links.Represents
import ExactCover.Proofs.Links.Safe
import ExactCover.Proofs.Links.Selected
import ExactCover.Proofs.Links.Session
import ExactCover.Proofs.Links.Shows
import ExactCover.Proofs.Links.Splice
import ExactCover.Proofs.Links.Struck
import ExactCover.Proofs.Links.Sweep
import ExactCover.Proofs.Links.Walk
import ExactCover.Proofs.Loop
import ExactCover.Proofs.Matrix.Construct
import ExactCover.Proofs.Matrix.Display
import ExactCover.Proofs.Matrix.Format
import ExactCover.Proofs.Matrix.Listing
import ExactCover.Proofs.Matrix.Size
import ExactCover.Proofs.Planted
import ExactCover.Proofs.Random
import ExactCover.Proofs.Remainder
import ExactCover.Proofs.Search.Accounts
import ExactCover.Proofs.Search.Correct
import ExactCover.Proofs.Search.Effort
import ExactCover.Proofs.Search.Entered
import ExactCover.Proofs.Search.Exact
import ExactCover.Proofs.Search.Invariant
import ExactCover.Proofs.Search.Leftmost
import ExactCover.Proofs.Search.Level
import ExactCover.Proofs.Search.Machine
import ExactCover.Proofs.Search.Plain
import ExactCover.Proofs.Search.Recursive
import ExactCover.Proofs.Search.Refuted
import ExactCover.Proofs.Search.Relabel
import ExactCover.Proofs.Search.Restrict
import ExactCover.Proofs.Search.Selector
import ExactCover.Proofs.Search.Solve
import ExactCover.Proofs.Search.Tour
import ExactCover.Proofs.Solution
import ExactCover.Proofs.Sudoku.Bijection
import ExactCover.Proofs.Sudoku.Board
import ExactCover.Proofs.Sudoku.Constraint
import ExactCover.Proofs.Sudoku.Correct
import ExactCover.Proofs.Sudoku.Decode
import ExactCover.Proofs.Sudoku.Display
import ExactCover.Proofs.Sudoku.Format
import ExactCover.Proofs.Sudoku.Houses
import ExactCover.Proofs.Sudoku.Puzzle
import ExactCover.Proofs.Sudoku.Reduction
import ExactCover.Proofs.Text.Lines
import ExactCover.Proofs.Text.Numeral
import ExactCover.Proofs.Text.Pieces
import ExactCover.Proofs.Text.Words
import ExactCover.Random
import ExactCover.Search.Machine
import ExactCover.Search.Names
import ExactCover.Search.Outcome
import ExactCover.Search.Plain
import ExactCover.Search.Recursive
import ExactCover.Search.Selector
import ExactCover.Search.Solve
import ExactCover.Search.Tour
import ExactCover.Solution
import ExactCover.Sudoku.Board
import ExactCover.Sudoku.Completion
import ExactCover.Sudoku.Puzzle
import ExactCover.Sudoku.Reduction
import ExactCover.Sudoku.Samples
import ExactCover.Sudoku.Size
import ExactCover.Text.Blank
import ExactCover.Text.Fixed
import ExactCover.Text.GraphemeExtend
import ExactCover.Text.Numeral
import ExactCover.Text.Quoted
import ExactCover.Text.Source
import ExactCover.Text.Unprintable
import ExactCover.Word
