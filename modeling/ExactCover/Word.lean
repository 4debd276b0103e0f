/-!
The machine word. Counts and indices that leave the program or enter it fit into 64 bits; inside,
they are plain naturals, and the few places where the word's end can be seen say so.
-/

namespace ExactCover

/-- How many numbers a word can hold: two to the power of 64. -/
def wordSize : Nat := 0x10000000000000000

def wordMax : Nat := 0xFFFFFFFFFFFFFFFF

theorem wordMax_add_one : wordMax + 1 = wordSize := rfl

end ExactCover
