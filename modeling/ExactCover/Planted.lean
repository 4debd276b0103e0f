import ExactCover.Capacity
import ExactCover.Matrix.Construct
import ExactCover.Random
/-!
Random matrices with a planted exact cover. The columns are shuffled and cut into groups, each of
which becomes a row of the cover; rows with random entries are added, and all rows are shuffled, so
that the cover is certainly there but need not be the one that a search meets first.
-/

namespace ExactCover

structure Planted where
  columns : Nat := 32
  /-- Rows besides those of the planted cover. -/
  extraRows : Nat := 64
  /-- How likely each entry of an extra row is set. -/
  density : Float := 0.2
  /-- The most columns in a row of the planted cover. -/
  maxGroup : Nat := 4
  seed : UInt64 := 0

/-- A matrix with the rows, ascending, that were planted as an exact cover. -/
structure PlantedMatrix where
  matrix : Matrix
  cover : List Nat
deriving DecidableEq

inductive PlantedError
  | shape (cause : MatrixError)
  | tooLarge (cause : Overflow)
deriving DecidableEq, Repr

def PlantedError.message : PlantedError → String
  | shape cause => cause.message
  | tooLarge cause => cause.message

/-- The name from before rows were counted as well. -/
@[deprecated PlantedError.tooLarge (since := "2026-11-19"), match_pattern]
def PlantedError.tooManyColumns (cause : Overflow) : PlantedError := .tooLarge cause

namespace Planted

/-- Keeps a double between zero and one; what is not a number stays so. -/
def clampUnit (x : Float) : Float := if x < 0 then 0 else if 1 < x then 1 else x

section Drawing

variable (g : Generator)

/-- Cuts a list into groups of random size, from one up to `maxGroup`. -/
def cut (maxGroup : Nat) : (groups : Nat) → List Nat → g.State → List (List Nat) × g.State
  | 0, _, r => ([], r)
  | groups + 1, rest, r =>
    if rest.isEmpty then ([], r)
    else
      let (size, r) := g.between 1 (min maxGroup rest.length) r
      let (others, r) := cut maxGroup groups (rest.drop size) r
      (rest.take size :: others, r)

def drawColumns (density : Float) : (columns : List Nat) → g.State → List Nat × g.State
  | [], r => ([], r)
  | column :: columns, r =>
    let (draw, r) := g.unit r
    let (others, r) := drawColumns density columns r
    (if draw < density then column :: others else others, r)

/-- A row with random entries; where no column is drawn, one is chosen. -/
def drawRow (columns : Nat) (density : Float) (r : g.State) : List Nat × g.State :=
  let (ones, r) := drawColumns g density (List.range columns) r
  if ones.isEmpty then
    let (column, r) := g.between 0 (columns - 1) r
    ([column], r)
  else (ones, r)

def drawRows (columns : Nat) (density : Float) : (rows : Nat) → g.State → List (List Nat) × g.State
  | 0, r => ([], r)
  | rows + 1, r =>
    let (row, r) := drawRow g columns density r
    let (others, r) := drawRows columns density rows r
    (row :: others, r)

/-- The bound on the columns of a planted row, kept between one and all of them. -/
def groupLimit (p : Planted) : Nat := max 1 (min p.maxGroup p.columns)

/-- All rows in their final order, those of the planted cover marked. -/
def drawAll (p : Planted) : List (Bool × List Nat) :=
  let (order, r) := g.shuffle (List.range p.columns) (g.ofSeed p.seed)
  let (groups, r) := cut g p.groupLimit p.columns order r
  let (others, r) := drawRows g p.columns (clampUnit p.density) p.extraRows r
  (g.shuffle (groups.map (true, ·) ++ others.map (false, ·)) r).1

end Drawing

/-- The places of the marked rows. -/
def marked (rows : List (Bool × List Nat)) : List Nat :=
  (rows.zipIdx.filter (·.1.1)).map Prod.snd

/-- What lists cannot hold of the drawn rows. The columns of a marked row are cut out of a list and
not collected. -/
def overflow? (rows : List (Bool × List Nat)) : Option Overflow :=
  if rowLimit < rows.length then some (.rows rows.length)
  else
    (rows.find? fun row => !row.1 && drawnLimit < row.2.length).map fun row => .drawn row.2.length

/-- The random matrix. It is refused without columns; beyond what lists can hold there is none. -/
def generate (p : Planted) (g : Generator := Random.generator) :
    Except PlantedError PlantedMatrix :=
  if p.columns = 0 then .error (.shape .noColumns)
  else if columnLimit < p.columns then .error (.tooLarge (.columns p.columns))
  else
    let rows := p.drawAll g
    match overflow? rows with
    | some cause => .error (.tooLarge cause)
    | none =>
      match Matrix.ofSparse p.columns (rows.map Prod.snd) with
      | .error cause => .error (.shape cause)
      | .ok matrix => .ok { matrix, cover := marked rows }

end Planted

end ExactCover
