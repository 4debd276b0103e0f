import ExactCover.Text.Source
/-!
Files and directories, and the paths that lead to them.
-/

namespace ExactCover

open Text

inductive Entry
  | file (contents : Contents)
  | directory (entries : List (String × Entry))

def nameLimit : Nat := 255

def pathLimit : Nat := 4095

def isTooLong (path : String) : Bool := pathLimit < path.utf8ByteSize

def joinPath (directory name : String) : String :=
  if directory.endsWith "/" then directory ++ name else directory ++ "/" ++ name

/-- What follows the last dot of a name, if something stands before that dot. -/
def extensionOfName (name : List Char) : Option (List Char) :=
  let extension := name.reverse.takeWhile (· != '.')
  if name.length ≤ extension.length + 1 then none else some extension.reverse

/-- The extension of the name that a path ends in; a step that stays or goes up is no name. -/
def extension? (path : String) : Option String :=
  let steps := (pieces (· == '/') path.toList).filter fun step => step != [] && step != ['.']
  match steps.getLast? with
  | none => none
  | some name => if name = ['.', '.'] then none else (extensionOfName name).map String.ofList

/-- How the files at or below an entry at a path are listed, with their paths. -/
abbrev Walk := String → Entry → List (String × Contents)

namespace Entry

mutual

/-- The files at or below an entry with their paths: depth first, siblings in the order of their
names. A directory with a path that is too long is passed over. -/
def files (path : String) : Entry → List (String × Contents)
  | .file contents => [(path, contents)]
  | .directory entries =>
    if isTooLong path then []
    else ((filesOfEach path entries).mergeSort fun a b => decide (a.1 ≤ b.1)).flatMap Prod.snd
termination_by structural entry => entry

def filesOfEach (path : String) : List (String × Entry) → List (String × List (String × Contents))
  | [] => []
  | child :: rest => filesOfChild path child :: filesOfEach path rest
termination_by structural entries => entries

def filesOfChild (path : String) : String × Entry → String × List (String × Contents)
  | (name, entry) => (name, files (joinPath path name) entry)
termination_by structural child => child

end

def child? (name : String) : Entry → Option Entry
  | .file _ => none
  | .directory entries => (entries.find? fun (n, _) => n == name).map Prod.snd

/-- Takes the steps of a path; `above` are the directories on the way, the nearest first. -/
def follow (above : List Entry) (here : Entry) : List String → Except SourceError Entry
  | [] => .ok here
  | step :: steps =>
    match here with
    | .file _ => .error .notDirectory
    | .directory _ =>
      if step = "" || step = "." then follow above here steps
      else if step = ".." then
        match above with
        | [] => .error .missing
        | parent :: above => follow above parent steps
      else if nameLimit < step.utf8ByteSize then .error .nameTooLong
      else match here.child? step with
        | some next => follow (here :: above) next steps
        | none => .error .missing

/-- What a path leads to from here; its length is looked at first. The empty path leads nowhere, and
nothing is known of what lies at the top of the file system. -/
def find (here : Entry) (path : String) : Except SourceError Entry :=
  let steps := (pieces (· == '/') path.toList).map String.ofList
  let start := if path.startsWith "/" then .directory [] else here
  if isTooLong path then .error .nameTooLong
  else if path.isEmpty then .error .missing
  else follow [] start steps

/-- Adds an entry at the end of a way of names, with the directories on that way. -/
def insert (entries : List (String × Entry)) (entry : Entry) : List String → List (String × Entry)
  | [] => entries
  | [name] => entries.filter (·.1 != name) ++ [(name, entry)]
  | name :: next :: names =>
    let inner := match entries.find? (·.1 == name) with
      | some (_, .directory inner) => inner
      | _ => []
    entries.filter (·.1 != name) ++ [(name, .directory (insert inner entry (next :: names)))]

def ofListing (listing : List (String × Entry)) : Entry :=
  .directory (listing.foldl (fun entries (path, entry) =>
    insert entries entry ((pieces (· == '/') path.toList).map String.ofList)) [])

end Entry

end ExactCover
