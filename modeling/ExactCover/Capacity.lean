/-!
How much a list can hold. A list takes less than half of what a word can address. One whose length
is known in advance takes the room that its elements need; one that grows doubles its room, so that
what it has room for is a power of two.
-/

namespace ExactCover

def byteLimit : Nat := 0x7FFFFFFFFFFFFFFF

/-- The most elements of this many bytes in a list whose length is known in advance. -/
def sizedLimit (bytes : Nat) : Nat := byteLimit / bytes

/-- The most elements of this many bytes in a list that grows. -/
def grownLimit (bytes : Nat) : Nat := Nat.pow 2 (sizedLimit bytes).log2

/-- The columns of a matrix are listed before they are shuffled, each in a word. -/
def columnLimit : Nat := sizedLimit 8

/-- The columns drawn for one row are collected one by one. -/
def drawnLimit : Nat := grownLimit 8

/-- Rows are collected one by one too, each of them the place, length and room of its columns and a
mark. -/
def rowLimit : Nat := grownLimit 32

/-- A node has five links and may have a row. -/
def nodeLimit : Nat := sizedLimit 56

example : [columnLimit, drawnLimit, rowLimit, nodeLimit] =
    [1152921504606846975, 576460752303423488, 144115188075855872, 164703072086692425] := by
  decide +kernel

inductive Overflow
  | columns (count : Nat)
  | drawn (count : Nat)
  | rows (count : Nat)
  | nodes (count : Nat)
  | entries (count : Nat)
deriving DecidableEq, Repr

def Overflow.message : Overflow → String
  | columns count => s!"no list holds {count} columns"
  | drawn count => s!"no row holds {count} drawn columns"
  | rows count => s!"no list holds {count} rows"
  | nodes count => s!"no list holds {count} nodes"
  | entries count => s!"no word counts {count} entries"

end ExactCover
