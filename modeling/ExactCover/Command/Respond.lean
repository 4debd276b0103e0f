import ExactCover.Command.Help
import ExactCover.Command.Task
/-!
The whole program as a function: arguments and files in, exit status and texts out.
-/

namespace ExactCover

open Text

structure Response where
  status : Nat
  output : String
  error : Option String
deriving DecidableEq, Repr

namespace Response

def ofText (text : String) : Response := { status := 0, output := text, error := none }

/-- The text of an error; a run that is cut off has none. -/
def errorText? (failure : Failure) : Option String :=
  if failure.isAbrupt then none else some s!"Error: {failure.message}\n"

def ofReport (figures : Option Figures) (r : Report) : Response where
  status := match r.failure with
    | none => 0
    | some failure => failure.status
  output := renderLines figures r.lines
  error := r.failure.bind errorText?

end Response

def Command.path? : Command → Option String
  | solve job _ => job.path?
  | help | version | completions _ => none

/-- Carries a command out, without measuring it; `found` is what its path leads to. -/
def Command.respond (found : Except SourceError Entry) (command : Command)
    (g : Generator := Random.generator) (walk : Walk := Entry.files) : Response :=
  match command with
  | solve job options => .ofReport none (job.run found options g walk)
  | help => .ofText helpText
  | version => .ofText versionText
  | completions shell => .ofText (completionText shell)

/-- Carries a command out in a directory, in which its path is looked up. -/
def Command.respondIn (here : Entry) (command : Command) (g : Generator := Random.generator)
    (walk : Walk := Entry.files) : Response :=
  let found := match command.path? with
    | some path => here.find path
    | none => .error .missing
  command.respond found g walk

def respond (here : Entry) (args : List String) : Except UsageError Response :=
  match Command.ofArguments args with
  | .error error => .error error
  | .ok command => .ok (command.respondIn here)

end ExactCover
