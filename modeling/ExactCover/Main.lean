import ExactCover.Command.Respond
/-!
The command line program: it reads files, keeps time and prints; all else is decided elsewhere.
-/

namespace ExactCover

open Text

def readContents (path : String) : IO Contents := do
  try
    let bytes ← IO.FS.readBinFile path
    return .ok bytes.toList
  catch
    | .noFileOrDirectory .. => return .error .missing
    | .permissionDenied .. => return .error .denied
    | .invalidArgument .. => return .error .nameTooLong
    | _ => return .error .notDirectory

/-- Whether a walk goes through what is listed in a directory; it follows no links. -/
def isWalked (child : IO.FS.DirEntry) : IO Bool := do
  try
    match (← child.path.symlinkMetadata).type with
    | .dir | .file => return true
    | .symlink | .other => return false
  catch _ => return true

mutual

/-- What is listed below a directory. One that cannot be listed is passed over as if it were empty,
and only the files that have a task are opened. -/
partial def readBelow (path : String) : IO Entry := do
  let place := (← IO.currentDir) / path
  if ← place.isDir then readDirectory path
  else if (Task.ofFile? path (.ok [])).isNone then return .file (.ok [])
  else return .file (← readContents path)

partial def readDirectory (path : String) : IO Entry := do
  let place := (← IO.currentDir) / path
  let children ← try place.readDir catch _ => pure #[]
  let walked ← children.toList.filterM isWalked
  let entries ← walked.mapM fun child => do
    return (child.fileName, ← readBelow (joinPath path child.fileName))
  return .directory entries

end

/-- What a path leads to. A file that is there is one even if it cannot be opened. -/
def readEntry (path : String) : IO (Except SourceError Entry) := do
  if isTooLong path then return .error .nameTooLong
  let place := (← IO.currentDir) / path
  if ← place.isDir then return .ok (← readDirectory path)
  match ← readContents path with
  | .ok bytes => return .ok (.file bytes)
  | .error cause =>
    if ← place.pathExists then return .ok (.file (.error cause)) else return .error cause

def perform (options : Options) (task : Task) : IO (Option Failure) := do
  let started ← IO.monoNanosNow
  let loaded ← IO.lazyPure fun _ => task.load
  let read ← IO.monoNanosNow
  match loaded with
  | .error failure => return some failure
  | .ok problem =>
    let links ← IO.lazyPure fun _ => problem.build
    let built ← IO.monoNanosNow
    let searched ← IO.lazyPure fun _ => Problem.search options links
    let ended ← IO.monoNanosNow
    let figures := { parse := read - started, build := built - read, search := ended - built }
    let report := problem.report options searched
    IO.print (renderLines (some figures) report.lines)
    return report.failure

def performAll (options : Options) : List Task → IO (Option Failure)
  | [] => return none
  | task :: tasks => do
    match ← perform options task with
    | some failure => return some failure
    | none => performAll options tasks

end ExactCover

open ExactCover in
def main (args : List String) : IO UInt32 := do
  match Command.ofArguments args with
  | .error error =>
    IO.eprintln s!"error: {error.message}"
    return 2
  | .ok (.solve job options) =>
    let found ← match job.path? with
      | some path => readEntry path
      | none => pure (.error .missing)
    match ← performAll options (job.tasks found) with
    | none => return 0
    | some failure =>
      IO.eprint ((Response.errorText? failure).getD s!"{failure.message}\n")
      return failure.status.toUInt32
  | .ok command =>
    IO.print (command.respond (.error .missing)).output
    return 0
