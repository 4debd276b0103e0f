import ExactCover.Links.Basic
/-!
A check of all that can be reached from the root: lists that close and read the same in both
directions, cells that belong where they hang, counts that agree. The first violation is reported;
the walks are cut off as soon as they are longer than a sound structure allows.
-/

namespace ExactCover

inductive Violation
  | rootHasRowOrColumn
  | rootLinkedVertically
  | headersDoNotReturn
  | notAHeader (id : Nat)
  | headerAsymmetric (header : Nat)
  | columnDoesNotReturn (header : Nat)
  | foreignCell (cell header : Nat)
  | cellWithoutRow (cell header : Nat)
  | cellAsymmetric (cell header : Nat)
  | rowAsymmetric (cell : Nat)
  | mixedRow (cell : Nat)
  | columnDoesNotClose (header : Nat)
  | wrongCount (header found recorded : Nat)
  | headersDoNotClose
deriving DecidableEq, Repr

def Violation.message : Violation → String
  | rootHasRowOrColumn => "root must not belong to a row or column"
  | rootLinkedVertically => "root must not be linked vertically"
  | headersDoNotReturn => "header list does not return to the root"
  | notAHeader id => s!"node {id} in the header list is not a header"
  | headerAsymmetric header => s!"header {header} is not symmetrically linked"
  | columnDoesNotReturn header => s!"column {header} does not return to its header"
  | foreignCell cell header => s!"cell {cell} is linked into foreign column {header}"
  | cellWithoutRow cell header => s!"cell {cell} in column {header} has no row"
  | cellAsymmetric cell header =>
    s!"cell {cell} is not symmetrically linked in column {header}"
  | rowAsymmetric cell => s!"cell {cell} is not symmetrically linked in its row"
  | mixedRow cell => s!"cell {cell} shares a row list with another row"
  | columnDoesNotClose header => s!"column {header}'s up link does not close the list"
  | wrongCount header found recorded =>
    s!"column {header} holds {found} cells but records {recorded}"
  | headersDoNotClose => "root's left link does not close the header list"

namespace Links

/-- The checks on one cell of a column; `above` is the node that the walk came from. -/
def checkCell (links : Links) (header above cell : Nat) : Except Fault (Option Violation) := do
  let node ← links.node cell
  if node.column ≠ header then return some (.foreignCell cell header)
  if node.row = none then return some (.cellWithoutRow cell header)
  if node.up ≠ above then return some (.cellAsymmetric cell header)
  let previous ← links.node above
  if previous.down ≠ cell then return some (.cellAsymmetric cell header)
  let after ← links.node node.right
  if after.left ≠ cell then return some (.rowAsymmetric cell)
  let before ← links.node node.left
  if before.right ≠ cell then return some (.rowAsymmetric cell)
  if after.row ≠ node.row then return some (.mixedRow cell)
  return none

/-- The cells of a column from `cell` down, of which `found` lie above; `steps` more may follow. -/
def checkCells (links : Links) (header : Nat) :
    (steps found above cell : Nat) → Except Fault (Option Violation)
  | steps, found, above, cell =>
    if cell = header then do
      let top ← links.node header
      if top.up ≠ above then return some (.columnDoesNotClose header)
      let recorded ← links.count header
      if found ≠ recorded then return some (.wrongCount header found recorded)
      return none
    else match steps with
      | 0 => .ok (some (.columnDoesNotReturn header))
      | steps + 1 => do
        match ← links.checkCell header above cell with
        | some violation => return some violation
        | none =>
          let node ← links.node cell
          links.checkCells header steps (found + 1) cell node.down

/-- The headers from `header` on, `before` being the node that the walk came from. -/
def checkHeaders (links : Links) : (steps before header : Nat) → Except Fault (Option Violation)
  | steps, before, header =>
    if header = root then do
      let node ← links.node root
      if node.left ≠ before then return some .headersDoNotClose
      return none
    else match steps with
      | 0 => .ok (some .headersDoNotReturn)
      | steps + 1 => do
        if !links.isHeader header then return some (.notAHeader header)
        let node ← links.node header
        if node.left ≠ before then return some (.headerAsymmetric header)
        let previous ← links.node before
        if previous.right ≠ header then return some (.headerAsymmetric header)
        match ← links.checkCells header links.size 0 header node.down with
        | some violation => return some violation
        | none => links.checkHeaders steps header node.right

/-- The first violation that a walk over the structure meets, if there is one. -/
def check (links : Links) : Except Fault (Option Violation) := do
  let node ← links.node root
  if node.row ≠ none ∨ node.column ≠ root then return some .rootHasRowOrColumn
  if node.up ≠ root ∨ node.down ≠ root then return some .rootLinkedVertically
  links.checkHeaders links.numColumns root node.right

end Links

end ExactCover
