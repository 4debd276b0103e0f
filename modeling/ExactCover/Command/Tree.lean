import ExactCover.Command.Entry
/-!
What a walk over a directory has to list, said without walking: every file below it, in the order that
goes into a subdirectory when its turn among its siblings comes. Of these files some hold problems.
-/

namespace ExactCover

open Text

def isProblemFile (path : String) : Bool :=
  extension? path ∈ [some "sudoku", some "matrix", some "txt"]

structure IsName (name : String) : Prop where
  ne_empty : name ≠ ""
  ne_same : name ≠ "."
  ne_above : name ≠ ".."
  slash_not_mem : '/' ∉ name.toList
  le_limit : name.utf8ByteSize ≤ nameLimit

instance (name : String) : Decidable (IsName name) :=
  decidable_of_iff (name ≠ "" ∧ name ≠ "." ∧ name ≠ ".." ∧ '/' ∉ name.toList ∧
    name.utf8ByteSize ≤ nameLimit)
    ⟨fun ⟨h₁, h₂, h₃, h₄, h₅⟩ => ⟨h₁, h₂, h₃, h₄, h₅⟩,
      fun ⟨h₁, h₂, h₃, h₄, h₅⟩ => ⟨h₁, h₂, h₃, h₄, h₅⟩⟩

namespace Entry

/-- What a file system can hold: the names in a directory are names, and no two of them are equal. -/
inductive WellFormed : Entry → Prop
  | file {contents : Contents} : WellFormed (.file contents)
  | directory {entries : List (String × Entry)} : (entries.map Prod.fst).Nodup →
    (∀ child ∈ entries, IsName child.1) → (∀ child ∈ entries, WellFormed child.2) →
    WellFormed (.directory entries)

/-- From the entry at a path, the names lead down to a file, which has a path of its own. -/
inductive LeadsTo : String → Entry → List String → String × Contents → Prop
  | here {path : String} {contents : Contents} : LeadsTo path (.file contents) [] (path, contents)
  | down {path name : String} {entry : Entry} {entries : List (String × Entry)}
    {names : List String} {file : String × Contents} : (name, entry) ∈ entries →
    LeadsTo (joinPath path name) entry names file →
    LeadsTo path (.directory entries) (name :: names) file

/-- The way to one file comes before that to another: depth first, siblings by their names. -/
def Precedes (path : String) (entry : Entry) (file later : String × Contents) : Prop :=
  ∃ names others, LeadsTo path entry names file ∧ LeadsTo path entry others later ∧ names < others

/-- The list has every file below the entry at a path and nothing else, in that order. -/
structure Lists (path : String) (entry : Entry) (files : List (String × Contents)) : Prop where
  mem_iff : ∀ file, file ∈ files ↔ ∃ names, LeadsTo path entry names file
  ascending : files.Pairwise (Precedes path entry)

/-- No directory is too deep to be opened. -/
inductive Listable : String → Entry → Prop
  | file {path : String} {contents : Contents} : Listable path (.file contents)
  | directory {path : String} {entries : List (String × Entry)} : isTooLong path = false →
    (∀ child ∈ entries, Listable (joinPath path child.1) child.2) →
    Listable path (.directory entries)

end Entry

end ExactCover
