import Mathlib.Algebra.GroupWithZero.Nat
import ExactCover.Search.Outcome
import ExactCover.Search.Selector
/-!
Algorithm X without links, as it is told on paper: the state is the list of active columns and the
list of live rows, and covering a column strikes out the column and the rows that meet it. It visits
the partial solutions of the linked search in the same order and counts alike, and serves as the
measure of that search.
-/

namespace ExactCover

/-- A live row of the matrix: its place and its set columns, ascending. -/
structure LiveRow where
  row : Nat
  ones : List Nat
deriving DecidableEq, Repr

/-- What is left of a matrix: the active columns, ascending, and the live rows, top to bottom. -/
structure Remainder where
  columns : List Nat
  rows : List LiveRow
deriving DecidableEq, Repr

namespace Remainder

def ofMatrix (m : Matrix) : Remainder where
  columns := List.range m.numColumns
  rows := m.rows.zipIdx.map fun (ones, row) => { row, ones }

def candidates (p : Remainder) (column : Nat) : List LiveRow :=
  p.rows.filter fun live => live.ones.contains column

/-- Strikes out a column and the rows that meet it. -/
def strike (p : Remainder) (column : Nat) : Remainder where
  columns := p.columns.filter (· != column)
  rows := p.rows.filter fun live => !live.ones.contains column

/-- What striking out a column costs: one, and for each row that goes its other set entries. -/
def cost (p : Remainder) (column : Nat) : Nat :=
  1 + ((p.candidates column).map fun live => live.ones.length - 1).sum

def costAll (p : Remainder) : List Nat → Nat
  | [] => 0
  | column :: columns => p.cost column + (p.strike column).costAll columns

/-- Selects a row: strikes out the columns that it sets and the rows that share one of them. -/
def select (p : Remainder) (live : LiveRow) : Remainder where
  columns := p.columns.filter fun column => !live.ones.contains column
  rows := p.rows.filter fun other => !live.ones.any other.ones.contains

/-- The column to branch on: the first active one, or the first that has no more candidates than any
other. -/
def pick (p : Remainder) : Selector → Option Nat
  | .leftmost => p.columns.head?
  | .minimumRemaining => p.columns.find? fun column =>
      p.columns.all fun other => (p.candidates column).length ≤ (p.candidates other).length

/-- The other set columns of a row, from `column` on and around. -/
def others (live : LiveRow) (column : Nat) : List Nat :=
  live.ones.filter (column < ·) ++ live.ones.filter (· < column)

/-- Tries rows in order; `descend` searches with a row selected. -/
def tryRows (descend : LiveRow → Stats → Stats × Option (List Nat)) :
    List LiveRow → Stats → Stats × Option (List Nat)
  | [], stats => (stats, none)
  | live :: rest, stats =>
    match descend live stats with
    | (stats, some rows) => (stats, some (live.row :: rows))
    | (stats, none) => tryRows descend rest stats.backtrack

/-- Searches below a partial solution of `depth` rows. The columns of a row are struck out one by
one, the picked one first and the others rightwards from there; only the cost shows that order. -/
def search (selector : Selector) :
    (levels : Nat) → (depth : Nat) → Remainder → Stats → Stats × Option (List Nat)
  | 0, _, _, stats => (stats, none)
  | levels + 1, depth, p, stats =>
    let stats := stats.enter depth
    match p.pick selector with
    | none => (stats, some [])
    | some column =>
      let candidates := p.candidates column
      if candidates.isEmpty then (stats.deadEnd, none)
      else
        tryRows (fun live stats =>
          search selector levels (depth + 1) (p.select live)
            (stats.tryRow ((p.strike column).costAll (others live column))))
          candidates (stats.update (p.cost column))

end Remainder

def Matrix.solvePlain (m : Matrix) (selector : Selector) : Stats × Option (List Nat) :=
  Remainder.search selector (m.numColumns + 1) 0 (.ofMatrix m) {}

end ExactCover
